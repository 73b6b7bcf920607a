import Mathlib.Data.List.Nodup
import Mathlib.Data.List.Perm.Basic
import StudyArchive.Proofs.Container.Namespace
/-
# Listing groups

The nodes below a group are found among all nodes by their parents, in the order of their full
paths.  In a rooted tree this comes to what a reader of a directory expects: the listings of all the
groups have every node but the root, each of them once (`Tree.Rooted.perm_listed`), and within a
group the names ascend (`Tree.list_ascending`), because paths below one group differ only from the
name on.
-/

namespace StudyArchive

/-! ## Entries of sorted maps -/

namespace SortedMap

variable {κ α : Type} [Ord κ] [Std.LawfulEqOrd κ]

/-- No key is filed twice. -/
theorem nodup_keys (m : SortedMap κ α) : m.keys.Nodup := by
  rw [keys, List.Nodup, List.pairwise_map]
  refine m.increasing.imp fun {a b} below same => ?_
  rw [same, Std.ReflOrd.compare_self] at below
  cases below

theorem nodup_entries (m : SortedMap κ α) : m.entries.Nodup := m.nodup_keys.of_map

theorem mem_entries_iff [DecidableEq κ] {m : SortedMap κ α} {k : κ} {v : α} :
    (k, v) ∈ m.entries ↔ m.get? k = some v := by
  unfold get?
  constructor
  · intro mem
    cases found : m.entries.find? fun e => e.1 = k with
    | none => simpa using List.find?_eq_none.1 found _ mem
    | some e =>
      have key : e.1 = k := by simpa using List.find?_some found
      have same := List.inj_on_of_nodup_map m.nodup_keys (List.mem_of_find?_eq_some found) mem key
      rw [same]
      rfl
  · intro found
    obtain ⟨e, here, rfl⟩ := Option.map_eq_some_iff.1 found
    have key : e.1 = k := by simpa using List.find?_some here
    rw [← key]
    exact List.mem_of_find?_eq_some here

end SortedMap

/-! ## Names below one path

Texts of paths below one group have a beginning in common and are compared by the rest. -/

namespace Path

theorem lt_of_append_lt {l a b : List Char} (h : l ++ a < l ++ b) : a < b := by
  induction l with
  | nil => exact h
  | cons c l ih => exact ih (by simpa using h)

/-- Paths below one path are in the order of their names. -/
theorem name_lt {p q parent : Path} {a b : String} (hp : p.parent? = some parent)
    (hq : q.parent? = some parent) (ha : p.name? = some a) (hb : q.name? = some b)
    (h : compare p q = .lt) : compare a b = .lt := by
  have texts : p.text < q.text := compareOfLessAndEq_eq_lt.1 h
  rw [String.lt_iff, toList_text_below hp ha, toList_text_below hq hb] at texts
  have names : ['/'] ++ a.toList < ['/'] ++ b.toList := lt_of_append_lt texts
  exact compareOfLessAndEq_eq_lt.2 (String.lt_iff.2 (lt_of_append_lt names))

end Path

namespace Tree

variable {t : Tree}

/-- The nodes of a tree below a path. -/
def below (t : Tree) (group : Path) : List (Path × Node) :=
  t.nodes.entries.filter fun e => e.1.parent? = some group

/-- The paths of all the groups. -/
def groups (t : Tree) : List Path :=
  (t.nodes.entries.filter fun e => e.2.kind = .group).map (·.1)

/-- What listing a group tells of the nodes below it, each by its full path. -/
def listed (t : Tree) (group : Path) : List (Path × NodeKind) :=
  ((t.list group).toOption.getD []).map fun (name, kind) => (group.join name, kind)

/-! ## One group -/

theorem list_of_isGroup {group : Path} (h : t.IsGroup group) :
    t.list group = .ok (t.nodes.entries.filterMap fun (path, node) =>
      if path.parent? = some group then path.name?.map (·, node.kind) else none) := by
  obtain ⟨attributes, found⟩ := h
  unfold list
  rw [resolveNode?_of_get? found (by simp), resolvePath?_of_get? found (by simp)]
  rfl

theorem listed_of_isGroup {group : Path} (h : t.IsGroup group) :
    t.listed group = (t.below group).map fun e => (e.1, e.2.kind) := by
  rw [listed, list_of_isGroup h, below]
  show List.map _ (List.filterMap _ _) = _
  induction t.nodes.entries with
  | nil => rfl
  | cons e rest ih =>
    by_cases above : e.1.parent? = some group
    · obtain ⟨name, named⟩ := Path.exists_name above
      have path := Path.join_name above named
      simp only [List.filterMap_cons, List.filter_cons, above, named, if_true, Option.map_some,
        List.map_cons, decide_true, path, ih]
    · simp only [List.filterMap_cons, List.filter_cons, above, if_false, decide_false,
        Bool.false_eq_true, ih]

/-- The names in a group ascend. -/
theorem list_ascending {group : Path} (h : t.IsGroup group) :
    ∃ names, t.list group = .ok names ∧ names.Pairwise fun a b => compare a.1 b.1 = .lt := by
  refine ⟨_, list_of_isGroup h, List.pairwise_filterMap.2 ?_⟩
  refine t.nodes.increasing.imp fun {e e'} order a ha b hb => ?_
  obtain ⟨path, node⟩ := e
  obtain ⟨path', node'⟩ := e'
  simp only at ha hb
  split at ha
  · next above =>
    split at hb
    · next above' =>
      obtain ⟨name, named, rfl⟩ := Option.map_eq_some_iff.1 ha
      obtain ⟨name', named', rfl⟩ := Option.map_eq_some_iff.1 hb
      exact Path.name_lt above above' named named' order
    · cases hb
  · cases ha

/-! ## All the groups

Every node but the root has a parent, which is a group; so it is listed under that one, once. -/

theorem mem_groups {group : Path} : group ∈ t.groups ↔ t.IsGroup group := by
  simp only [groups, List.mem_map, List.mem_filter, decide_eq_true_eq]
  constructor
  · rintro ⟨⟨path, node⟩, ⟨mem, kind⟩, rfl⟩
    cases node with
    | group attributes => exact ⟨attributes, SortedMap.mem_entries_iff.1 mem⟩
    | dataset _ | link _ => cases kind
  · rintro ⟨attributes, found⟩
    exact ⟨(group, .group attributes), ⟨SortedMap.mem_entries_iff.2 found, rfl⟩, rfl⟩

theorem nodup_groups (t : Tree) : t.groups.Nodup :=
  t.nodes.nodup_keys.sublist (List.filter_sublist.map _)

/-- The nodes below the groups are all the nodes but the root, each of them once. -/
theorem Rooted.perm_below (rooted : t.Rooted) :
    (t.groups.flatMap t.below).Perm (t.nodes.entries.filter fun e => e.1 ≠ .root) := by
  have once : (t.groups.flatMap t.below).Nodup := by
    refine List.nodup_flatMap.2 ⟨fun group _ => t.nodes.nodup_entries.filter _, ?_⟩
    refine t.nodup_groups.imp fun {g g'} other => ?_
    show List.Disjoint (t.below g) (t.below g')
    rw [List.disjoint_left]
    intro e here there
    have above : e.1.parent? = some g := by simpa using (List.mem_filter.1 here).2
    have above' : e.1.parent? = some g' := by simpa using (List.mem_filter.1 there).2
    exact other (Option.some.inj (above.symm.trans above'))
  refine (List.perm_ext_iff_of_nodup once (t.nodes.nodup_entries.filter _)).2 fun e => ?_
  obtain ⟨path, node⟩ := e
  simp only [List.mem_flatMap, below, List.mem_filter, decide_eq_true_eq]
  constructor
  · rintro ⟨group, -, mem, above⟩
    exact ⟨mem, (Path.parent?_eq_some.1 above).1⟩
  · rintro ⟨mem, other⟩
    obtain ⟨parent, above⟩ := Path.exists_parent other
    have group := rooted.parents (SortedMap.mem_entries_iff.1 mem) above
    exact ⟨parent, mem_groups.2 group, mem, above⟩

/-- The listings of all the groups have every node but the root, each of them once. -/
theorem Rooted.perm_listed (rooted : t.Rooted) :
    (t.groups.flatMap t.listed).Perm
      ((t.nodes.entries.filter fun e => e.1 ≠ .root).map fun e => (e.1, e.2.kind)) := by
  have listings : t.groups.flatMap t.listed =
      (t.groups.flatMap t.below).map fun e => (e.1, e.2.kind) := by
    rw [List.map_flatMap]
    refine List.flatMap_congr fun group mem => ?_
    exact listed_of_isGroup (mem_groups.1 mem)
  rw [listings]
  exact rooted.perm_below.map _

end Tree
end StudyArchive
