import StudyArchive.Container.Basic
import StudyArchive.Proofs.Step
/-
# Following soft links

A soft link stands for another path, at which there may be a link again, or nothing.  Two loops
follow links, one for the path of the object at their end and one for its node; both find what
`Tree.resolve?` finds.  They find the object that links lead to exactly if these are fewer than
`Tree.maxLinkDepth` (`Tree.resolves_links`), and whatever is asked about a path is asked about that
object.  The object behind as many links as `Tree.maxLinkDepth` is not found, since the last place
looked at is that of the last link (`Tree.misses_sixteenth_link`).
-/

namespace StudyArchive

namespace Tree

variable {t : Tree} {steps links : Nat} {path target q : Path} {node : Node}

/-! ## The two loops -/

/-- The object that is reached from a path through soft links in at most so many steps. -/
def follow (t : Tree) : (steps : Nat) → Path → Option (Path × Node)
  | 0, _ => none
  | steps + 1, path =>
    match t.nodes.get? path with
    | none => none
    | some (.link target) => t.follow steps target
    | some node => some (path, node)

/-- The object that a path denotes, and its own path. -/
def resolve? (t : Tree) (path : Path) : Option (Path × Node) := t.follow maxLinkDepth path

theorem followPath_eq (t : Tree) (steps : Nat) (path : Path) :
    t.followPath steps path = (t.follow steps path).map (·.1) := by
  induction steps generalizing path with
  | zero => rfl
  | succ steps ih =>
    rw [followPath, follow]
    cases t.nodes.get? path with
    | none => rfl
    | some node =>
      cases node with
      | link target => exact ih target
      | group _ => rfl
      | dataset _ => rfl

theorem followNode_eq (t : Tree) (steps : Nat) (path : Path) :
    t.followNode steps path = (t.follow steps path).map (·.2) := by
  induction steps generalizing path with
  | zero => rfl
  | succ steps ih =>
    rw [followNode, follow]
    cases t.nodes.get? path with
    | none => rfl
    | some node =>
      cases node with
      | link target => exact ih target
      | group _ => rfl
      | dataset _ => rfl

/-- What a path denotes depends on the namespace only. -/
theorem resolve?_congr {t t' : Tree} (nodes : t'.nodes = t.nodes) (path : Path) :
    t'.resolve? path = t.resolve? path := by
  have follow (steps : Nat) (path : Path) : t'.follow steps path = t.follow steps path := by
    induction steps generalizing path with
    | zero => rfl
    | succ steps ih =>
      rw [Tree.follow, Tree.follow, nodes]
      split
      · rfl
      · exact ih _
      · rfl
  exact follow _ path

theorem resolvePath?_eq (t : Tree) (path : Path) :
    t.resolvePath? path = (t.resolve? path).map (·.1) := t.followPath_eq _ path

theorem resolveNode?_eq (t : Tree) (path : Path) :
    t.resolveNode? path = (t.resolve? path).map (·.2) := t.followNode_eq _ path

/-- What a link does not stand at is found at once. -/
theorem resolve?_of_get? (h : t.nodes.get? path = some node)
    (direct : ∀ target, node ≠ .link target) : t.resolve? path = some (path, node) := by
  show t.follow (15 + 1) path = _
  rw [follow, h]
  cases node with
  | link target => exact absurd rfl (direct target)
  | group _ => rfl
  | dataset _ => rfl

theorem resolvePath?_of_get? (h : t.nodes.get? path = some node)
    (direct : ∀ target, node ≠ .link target) : t.resolvePath? path = some path := by
  rw [resolvePath?_eq, resolve?_of_get? h direct]
  rfl

theorem resolveNode?_of_get? (h : t.nodes.get? path = some node)
    (direct : ∀ target, node ≠ .link target) : t.resolveNode? path = some node := by
  rw [resolveNode?_eq, resolve?_of_get? h direct]
  rfl

/-- Where a path leads to, there is no link. -/
theorem get?_of_follow (h : t.follow steps path = some (target, node)) :
    t.nodes.get? target = some node ∧ ∀ further, node ≠ .link further := by
  induction steps generalizing path with
  | zero => cases h
  | succ steps ih =>
    rw [follow] at h
    split at h
    · cases h
    · exact ih h
    · next other found =>
      cases h
      exact ⟨found, other⟩

/-- The two loops agree: the node that one finds lies at the path that the other finds. -/
theorem resolveNode?_eq_bind (t : Tree) (path : Path) :
    t.resolveNode? path = (t.resolvePath? path).bind t.nodes.get? := by
  rw [resolveNode?_eq, resolvePath?_eq]
  cases found : t.resolve? path with
  | none => rfl
  | some object => exact (get?_of_follow found).1.symm

/-! ## Chains of links

`Leads n` counts the links on the way.  A path leads to at most one object, and if its links go
round in a circle, to none. -/

/-- So many soft links, each at the path that the one before stands for, lead from a path to
another. -/
inductive Leads (t : Tree) : (links : Nat) → Path → Path → Prop
  | here (path : Path) : Leads t 0 path path
  | next {links : Nat} {path target q : Path} (link : t.nodes.get? path = some (.link target))
      (rest : Leads t links target q) : Leads t (links + 1) path q

/-- A group or a dataset lies at a path. -/
def IsObject (t : Tree) (path : Path) : Prop :=
  ∃ node, t.nodes.get? path = some node ∧ ∀ target, node ≠ .link target

/-- Links that lead from a path come back to where they were. -/
def Circles (t : Tree) (path : Path) : Prop :=
  ∃ links more q, t.Leads links path q ∧ t.Leads (more + 1) q q

theorem Leads.trans {more : Nat} {p : Path} (h : t.Leads links path q) (h' : t.Leads more q p) :
    t.Leads (links + more) path p := by
  induction h with
  | here path => rwa [Nat.zero_add]
  | next link _ ih =>
    rw [Nat.add_right_comm]
    exact .next link (ih h')

/-- On a long way of links there is a place after any smaller number of them. -/
theorem Leads.prior (h : t.Leads links path q) {fewer : Nat} (le : fewer ≤ links) :
    ∃ p, t.Leads fewer path p := by
  induction h generalizing fewer with
  | here path =>
    obtain rfl := Nat.le_zero.1 le
    exact ⟨path, .here path⟩
  | next link _ ih =>
    cases fewer with
    | zero => exact ⟨_, .here _⟩
    | succ fewer =>
      obtain ⟨p, leads⟩ := ih (Nat.le_of_succ_le_succ le)
      exact ⟨p, .next link leads⟩

/-- A circle goes on for any number of links. -/
theorem Circles.leads (h : t.Circles path) (links : Nat) : ∃ q, t.Leads links path q := by
  obtain ⟨first, more, q, leads, round⟩ := h
  have rounds (n : Nat) : ∃ links', n ≤ links' ∧ t.Leads links' q q := by
    induction n with
    | zero => exact ⟨0, Nat.le_refl 0, .here q⟩
    | succ n ih =>
      obtain ⟨links', le, again⟩ := ih
      exact ⟨links' + (more + 1), by omega, again.trans round⟩
  obtain ⟨links', le, again⟩ := rounds links
  exact (leads.trans again).prior (by omega)

/-- A path is found exactly if fewer links than steps lead to an object there. -/
theorem followPath_eq_some_iff :
    t.followPath steps path = some q ↔ ∃ links < steps, t.Leads links path q ∧ t.IsObject q := by
  induction steps generalizing path with
  | zero => simp [followPath]
  | succ steps ih =>
    rw [followPath]
    split
    · next absent =>
      refine ⟨nofun, ?_⟩
      rintro ⟨links, -, leads, node, found, -⟩
      cases leads with
      | here => cases absent.symm.trans found
      | next link _ => cases absent.symm.trans link
    · next target link =>
      rw [ih]
      constructor
      · rintro ⟨links, few, leads, object⟩
        exact ⟨links + 1, Nat.succ_lt_succ few, .next link leads, object⟩
      · rintro ⟨links, few, leads, object⟩
        cases leads with
        | here =>
          obtain ⟨node, found, direct⟩ := object
          cases link.symm.trans found
          exact absurd rfl (direct target)
        | next link' rest =>
          cases link.symm.trans link'
          exact ⟨_, Nat.lt_of_succ_lt_succ few, rest, object⟩
    · next node direct found =>
      constructor
      · intro same
        cases same
        exact ⟨0, Nat.succ_pos steps, .here _, node, found, direct⟩
      · rintro ⟨links, -, leads, -⟩
        cases leads with
        | here => rfl
        | next link _ =>
          cases found.symm.trans link
          exact absurd rfl (direct _)

/-- No path is found exactly if links lead to where nothing is, or there are too many of them. -/
theorem followPath_eq_none_iff :
    t.followPath steps path = none ↔
      (∃ links < steps, ∃ q, t.Leads links path q ∧ t.nodes.get? q = none) ∨
        ∃ q, t.Leads steps path q := by
  induction steps generalizing path with
  | zero => exact ⟨fun _ => .inr ⟨path, .here path⟩, fun _ => rfl⟩
  | succ steps ih =>
    rw [followPath]
    split
    · next absent =>
      exact ⟨fun _ => .inl ⟨0, Nat.succ_pos steps, _, .here _, absent⟩, fun _ => rfl⟩
    · next target link =>
      rw [ih]
      constructor
      · rintro (⟨links, few, q, leads, absent⟩ | ⟨q, leads⟩)
        · exact .inl ⟨links + 1, Nat.succ_lt_succ few, q, .next link leads, absent⟩
        · exact .inr ⟨q, .next link leads⟩
      · rintro (⟨links, few, q, leads, absent⟩ | ⟨q, leads⟩)
        · cases leads with
          | here => cases link.symm.trans absent
          | next link' rest =>
            cases link.symm.trans link'
            exact .inl ⟨_, Nat.lt_of_succ_lt_succ few, q, rest, absent⟩
        · cases leads with
          | next link' rest =>
            cases link.symm.trans link'
            exact .inr ⟨q, rest⟩
    · next node direct found =>
      refine ⟨nofun, ?_⟩
      have unlinked {target : Path} (link : t.nodes.get? path = some (.link target)) : False := by
        cases found.symm.trans link
        exact direct target rfl
      rintro (⟨links, -, q, leads, absent⟩ | ⟨q, leads⟩)
      · cases leads with
        | here => cases found.symm.trans absent
        | next link _ => exact (unlinked link).elim
      · cases leads with
        | next link _ => exact (unlinked link).elim

/-! ## What is asked about a path

Each question about a path first resolves it, and then asks the object that was found. -/

/-- The names of the nodes directly below a path, and their kinds. -/
def namesBelow (t : Tree) (path : Path) : List (String × NodeKind) :=
  t.nodes.entries.filterMap fun (p, node) =>
    if p.parent? = some path then p.name?.map (·, node.kind) else none

/-- What is asked about a path is asked about the object at another one. -/
structure DealsWith (t : Tree) (path own : Path) : Prop where
  openDataset : ∀ operation, t.openDataset path operation =
    match t.nodes.get? own with
    | some (.dataset id) => .ok id
    | _ => .error (.notFound path operation)
  attributes : t.attributes path =
    match t.nodes.get? own with
    | some (.group attributes) => .ok attributes
    | some (.dataset id) => .ok (t.dataset id).attributes
    | _ => .error (.notFound path "attributes")
  list : t.list path =
    match t.nodes.get? own with
    | some (.group _) => .ok (t.namesBelow own)
    | _ => .error (.notFound path "list")
  setAttribute : ∀ m : Mounted, m.container.tree = t → ∀ name value,
    Container.setAttribute path name value m = Container.commit (.setAttribute own name value) m

/-- What is asked about a path finds nothing. -/
structure DealsWithNothing (t : Tree) (path : Path) : Prop where
  openDataset : ∀ operation, t.openDataset path operation = .error (.notFound path operation)
  attributes : t.attributes path = .error (.notFound path "attributes")
  list : t.list path = .error (.notFound path "list")
  setAttribute : ∀ m : Mounted, m.container.tree = t → ∀ name value,
    Container.setAttribute path name value m = .error (.notFound path "set_attribute") m

theorem dealsWith_of_resolvePath? (h : t.resolvePath? path = some q) : t.DealsWith path q := by
  have node : t.resolveNode? path = t.nodes.get? q := by rw [resolveNode?_eq_bind, h]; rfl
  refine ⟨fun operation => ?_, ?_, ?_, fun m same name value => ?_⟩
  · rw [← node]
    rfl
  · rw [← node]
    rfl
  · rw [list, node, h]
    rfl
  · subst same
    rw [Container.setAttribute, get_bind, h]

theorem dealsWithNothing_of_resolvePath? (h : t.resolvePath? path = none) :
    t.DealsWithNothing path := by
  have node : t.resolveNode? path = none := by rw [resolveNode?_eq_bind, h]; rfl
  refine ⟨fun operation => ?_, ?_, ?_, fun m same name value => ?_⟩
  · rw [openDataset, node]
  · rw [Tree.attributes, node]
  · rw [list, node]
  · subst same
    rw [Container.setAttribute, get_bind, h]
    rfl

/-- A path denotes the object that fewer soft links than `maxLinkDepth` lead to, and nothing if they
lead to nothing, go on for longer or in a circle.  Both loops find that object, and opening a
dataset, looking at attributes, listing a group and setting an attribute all deal with it. -/
theorem resolves_links (t : Tree) (path : Path) :
    (∀ q, t.resolvePath? path = some q ↔
      ∃ links < maxLinkDepth, t.Leads links path q ∧ t.IsObject q) ∧
    (t.resolvePath? path = none ↔
      (∃ links < maxLinkDepth, ∃ q, t.Leads links path q ∧ t.nodes.get? q = none) ∨
        ∃ q, t.Leads maxLinkDepth path q) ∧
    (t.Circles path → t.resolvePath? path = none) ∧
    t.resolveNode? path = (t.resolvePath? path).bind t.nodes.get? ∧
    match t.resolvePath? path with
    | some q => t.DealsWith path q
    | none => t.DealsWithNothing path := by
  refine ⟨fun q => followPath_eq_some_iff, followPath_eq_none_iff, fun circles => ?_,
    t.resolveNode?_eq_bind path, ?_⟩
  · exact followPath_eq_none_iff.2 (.inr (circles.leads maxLinkDepth))
  · split
    · next found => exact dealsWith_of_resolvePath? found
    · next none => exact dealsWithNothing_of_resolvePath? none

/-- The place of a link in a chain of links; the object at its end is at place 0. -/
def chainPlace (k : Nat) : Path := .ofText s!"/l{k}"

/-- A vector, and a chain of so many links, each to the one before it. -/
def chain (links : Nat) : List (Nat × Record) :=
  (0, .createDataset (chainPlace 0) (.scalar .int64) [1] false 1 (.int 0)) ::
    (List.range links).map fun k => (0, .softLink (chainPlace (k + 1)) (chainPlace k))

/-- As many links as `maxLinkDepth` lead to a vector, and it is not found; behind one link less it
is. -/
theorem misses_sixteenth_link :
    ∃ t, Tree.empty.replay "" (chain maxLinkDepth) = .ok t ∧
      t.Leads maxLinkDepth (chainPlace maxLinkDepth) (chainPlace 0) ∧ t.IsObject (chainPlace 0) ∧
      t.resolvePath? (chainPlace 15) = some (chainPlace 0) ∧
      t.resolvePath? (chainPlace maxLinkDepth) = none ∧
      t.openDataset (chainPlace maxLinkDepth) "read" =
        .error (.notFound (chainPlace maxLinkDepth) "read") := by
  have ran : (Tree.empty.replay "" (chain maxLinkDepth)).toOption.any (fun t =>
      t.followPath 17 (chainPlace maxLinkDepth) = some (chainPlace 0) ∧
      t.resolvePath? (chainPlace 15) = some (chainPlace 0) ∧
      t.resolvePath? (chainPlace maxLinkDepth) = none) := by decide +kernel
  obtain ⟨t, made, ran⟩ := (Option.any_eq_true ..).1 ran
  obtain ⟨reached, shorter, missed⟩ := of_decide_eq_true ran
  obtain ⟨links, few, leads, object⟩ := followPath_eq_some_iff.1 reached
  have many : ¬links < maxLinkDepth := by
    intro fewer
    cases missed.symm.trans (followPath_eq_some_iff.2 ⟨links, fewer, leads, object⟩)
  obtain rfl : links = maxLinkDepth :=
    Nat.le_antisymm (Nat.le_of_lt_succ few) (Nat.le_of_not_lt many)
  exact ⟨t, eq_ok_of_toOption made, leads, object, shorter, missed,
    (dealsWithNothing_of_resolvePath? missed).openDataset "read"⟩

end Tree
end StudyArchive
