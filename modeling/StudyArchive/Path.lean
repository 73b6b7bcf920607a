/-
# Object paths

A path is the list of its segments, each a nonempty string without a slash.  Its text is a slash
before every segment, and a lone slash for the root.  Reading a text drops empty segments, so every
text names one path, and a path's own text names it again (`Path.ofText_text`).  Paths are ordered
by their texts.
-/

namespace StudyArchive

namespace Path

/-- The pieces of a text between its slashes. -/
def pieces : List Char → List (List Char)
  | [] => [[]]
  | c :: rest =>
    if c = '/' then [] :: pieces rest
    else
      match pieces rest with
      | [] => [[c]]
      | piece :: more => (c :: piece) :: more

/-- The nonempty pieces, as strings. -/
def parts (raw : String) : List String :=
  ((pieces raw.toList).filter (· ≠ [])).map String.ofList

/-- A nonempty string without a slash. -/
def IsSegment (s : String) : Prop := s.toList ≠ [] ∧ '/' ∉ s.toList

instance (s : String) : Decidable (IsSegment s) := inferInstanceAs (Decidable (_ ∧ _))

theorem slash_not_mem_piece {l p : List Char} (h : p ∈ pieces l) : '/' ∉ p := by
  induction l generalizing p with
  | nil => simp_all [pieces]
  | cons c rest ih =>
    rw [pieces] at h
    split at h
    · rcases List.mem_cons.1 h with rfl | h
      · simp
      · exact ih h
    · next ne =>
      split at h
      · rw [List.mem_singleton.1 h]
        simpa using fun e => ne e.symm
      · next piece more eq =>
        rcases List.mem_cons.1 h with rfl | h
        · have free : '/' ∉ piece := ih (by rw [eq]; exact List.mem_cons_self ..)
          simpa [free] using fun e => ne e.symm
        · exact ih (by rw [eq]; exact List.mem_cons_of_mem _ h)

theorem isSegment_of_mem_parts {raw s : String} (h : s ∈ parts raw) : IsSegment s := by
  obtain ⟨piece, hp, rfl⟩ := List.mem_map.1 h
  obtain ⟨mem, ne⟩ := List.mem_filter.1 hp
  exact ⟨by simpa using ne, by simpa using slash_not_mem_piece mem⟩

end Path

/-- A place in a container: the segments from the root down. -/
structure Path where
  /-- The segments, outermost first. -/
  segments : List String
  /-- Every segment is nonempty and has no slash. -/
  segments_ok : ∀ s ∈ segments, Path.IsSegment s

namespace Path

instance : DecidableEq Path := fun a b =>
  if h : a.segments = b.segments then
    isTrue (by cases a; cases b; simp_all)
  else isFalse (fun e => h (e ▸ rfl))

theorem ext_segments {a b : Path} (h : a.segments = b.segments) : a = b := by
  cases a; cases b; simp_all

/-- The path of no segments. -/
def root : Path := ⟨[], by simp⟩

instance : Inhabited Path := ⟨root⟩

/-- Whether a path is the root. -/
def isRoot (p : Path) : Bool := p.segments.isEmpty

/-- The path that a text names. -/
def ofText (raw : String) : Path := ⟨parts raw, fun _ h => isSegment_of_mem_parts h⟩

/-- A slash before every segment. -/
def slashed : List String → List Char
  | [] => []
  | s :: rest => '/' :: (s.toList ++ slashed rest)

def text (p : Path) : String :=
  if p.isRoot then "/" else String.ofList (slashed p.segments)

instance : ToString Path := ⟨text⟩

instance : Ord Path := ⟨fun a b => compare a.text b.text⟩

/-- The path below another that a text names. -/
def join (p : Path) (child : String) : Path :=
  ⟨p.segments ++ parts child, by
    intro s h
    rcases List.mem_append.1 h with h | h
    · exact p.segments_ok s h
    · exact isSegment_of_mem_parts h⟩

/-- The path below another with the other's segments. -/
def append (p q : Path) : Path :=
  ⟨p.segments ++ q.segments, by
    intro s h
    rcases List.mem_append.1 h with h | h
    · exact p.segments_ok s h
    · exact q.segments_ok s h⟩

/-- The path that texts name one below the other. -/
def ofTexts (texts : List String) : Path := texts.foldl join root

/-- The number of segments. -/
def depth (p : Path) : Nat := p.segments.length

/-- The last segment. -/
def name? (p : Path) : Option String := p.segments.getLast?

/-- The path without its last segment; the root has none. -/
def parent? (p : Path) : Option Path :=
  if p.isRoot then none
  else some ⟨p.segments.dropLast, fun s h => p.segments_ok s (List.dropLast_subset _ h)⟩

/-- Whether a path is another or below it: its text goes on after the other's with a slash. -/
def within (p other : Path) : Bool :=
  other.isRoot || p.text == other.text ||
    (other.text.toList ++ ['/']).isPrefixOf p.text.toList

/-- The name of the group that holds the scales. -/
def scalesName : String := "_scales"

/-- The place of the scales of an object. -/
def scaleMirror (p : Path) : Path := (root.join scalesName).append p

/-- Whether a path lies among the scales. -/
def inScales (p : Path) : Bool := p.segments.head? == some scalesName

/-! ## A path's text names it

Reading takes a text apart at its slashes and drops what is empty between them, so it undoes the
slash that was put before every segment. -/

theorem pieces_ne_nil (l : List Char) : pieces l ≠ [] := by
  cases l with
  | nil => simp [pieces]
  | cons c rest =>
    rw [pieces]
    split
    · simp
    · split <;> simp

theorem pieces_append_slash {s rest : List Char} (h : '/' ∉ s) :
    pieces (s ++ '/' :: rest) = s :: pieces rest := by
  induction s with
  | nil => simp [pieces]
  | cons c s ih =>
    obtain ⟨ne, tail⟩ : c ≠ '/' ∧ '/' ∉ s := by
      simp only [List.mem_cons, not_or] at h
      exact ⟨fun e => h.1 e.symm, h.2⟩
    rw [List.cons_append, pieces, if_neg ne, ih tail]

theorem pieces_of_not_mem {s : List Char} (h : '/' ∉ s) : pieces s = [s] := by
  induction s with
  | nil => rfl
  | cons c s ih =>
    obtain ⟨ne, tail⟩ : c ≠ '/' ∧ '/' ∉ s := by
      simp only [List.mem_cons, not_or] at h
      exact ⟨fun e => h.1 e.symm, h.2⟩
    rw [pieces, if_neg ne, ih tail]

theorem pieces_slashed {ss : List String} (h : ∀ s ∈ ss, IsSegment s) :
    pieces (slashed ss) = [] :: ss.map String.toList := by
  induction ss with
  | nil => rfl
  | cons s rest ih =>
    have head := (h s (List.mem_cons_self ..)).2
    have tail := ih fun t ht => h t (List.mem_cons_of_mem _ ht)
    rw [slashed, pieces, if_pos rfl]
    cases rest with
    | nil => simp [slashed, pieces_of_not_mem head]
    | cons t more =>
      rw [slashed, pieces, if_pos rfl] at tail
      rw [slashed, pieces_append_slash head, List.map_cons]
      simp only [List.cons.injEq, true_and] at tail
      rw [tail]

theorem parts_slashed {ss : List String} (h : ∀ s ∈ ss, IsSegment s) :
    parts (String.ofList (slashed ss)) = ss := by
  rw [parts, String.toList_ofList, pieces_slashed h]
  have keep : (ss.map String.toList).filter (· ≠ []) = ss.map String.toList := by
    rw [List.filter_eq_self]
    intro l hl
    obtain ⟨s, hs, rfl⟩ := List.mem_map.1 hl
    simpa using (h s hs).1
  simp only [ne_eq, List.filter_cons, not_true_eq_false, decide_false, Bool.false_eq_true,
    if_false] at keep ⊢
  rw [keep, List.map_map]
  simp [Function.comp_def]

/-- Every path is the one that its text names. -/
theorem ofText_text (p : Path) : ofText p.text = p := by
  apply ext_segments
  rw [ofText, text]
  split
  · next h =>
    have : p.segments = [] := by simpa [isRoot] using h
    rw [this]
    rfl
  · exact parts_slashed p.segments_ok

theorem text_injective {p q : Path} (h : p.text = q.text) : p = q := by
  rw [← ofText_text p, h, ofText_text]

instance : Std.TransOrd Path where
  eq_swap {a b} := show compare a.text b.text = (compare b.text a.text).swap from
    Std.OrientedOrd.eq_swap
  isLE_trans {a b c} (h : (compare a.text b.text).isLE) (h' : (compare b.text c.text).isLE) :=
    show (compare a.text c.text).isLE from Std.TransOrd.isLE_trans h h'

instance : Std.LawfulEqOrd Path where
  compare_self {a} := show compare a.text a.text = .eq from Std.ReflOrd.compare_self
  eq_of_compare {a b} (h : compare a.text b.text = .eq) :=
    text_injective (Std.LawfulEqOrd.eq_of_compare h)

end Path
end StudyArchive
