import Mathlib.Data.List.Basic
import StudyArchive.Path
/-
# Paths by their segments

What joining does to segments, when the name that is joined is a segment itself, and when it is made
of several names with slashes between them.  The path above another is the other without its last
segment, and a path lies within another if the segments of the other lead down to it
(`Path.within_iff`).
-/

namespace StudyArchive.Path

theorem parts_of_isSegment {s : String} (h : IsSegment s) : parts s = [s] := by
  rw [parts, pieces_of_not_mem h.2]
  simp [h.1]

/-- A slash ends a piece, wherever it stands. -/
theorem pieces_append (l rest : List Char) :
    pieces (l ++ '/' :: rest) = pieces l ++ pieces rest := by
  induction l with
  | nil => simp [pieces]
  | cons c l ih =>
    rw [List.cons_append, pieces, pieces, ih]
    split
    · rfl
    · obtain ⟨piece, more, eq⟩ := List.exists_cons_of_ne_nil (pieces_ne_nil l)
      rw [eq]
      rfl

theorem parts_append (s rest : String) : parts (s ++ "/" ++ rest) = parts s ++ parts rest := by
  have text : (s ++ "/" ++ rest).toList = s.toList ++ '/' :: rest.toList := by simp
  rw [parts, text, pieces_append, List.filter_append, List.map_append]
  rfl

/-- Names that are joined by slashes are the names of all of them. -/
theorem parts_intercalate (names : List String) :
    parts ("/".intercalate names) = names.flatMap parts := by
  induction names with
  | nil => rfl
  | cons name names ih =>
    cases names with
    | nil => simp
    | cons next names =>
      rw [String.intercalate_cons_cons, parts_append, ih]
      rfl

theorem segments_join (p : Path) (child : String) :
    (p.join child).segments = p.segments ++ parts child := rfl

theorem segments_join_of_isSegment (p : Path) {s : String} (h : IsSegment s) :
    (p.join s).segments = p.segments ++ [s] := by
  rw [segments_join, parts_of_isSegment h]

/-- The first of some further names may as well be the last of the path. -/
theorem segments_append_cons {p : Path} {s : String} (h : IsSegment s) (rest : List String) :
    p.segments ++ s :: rest = (p.join s).segments ++ rest := by
  rw [p.segments_join_of_isSegment h, List.append_assoc, List.singleton_append]

/-- Joining names one below the other appends the parts of all of them. -/
theorem segments_foldl_join (p : Path) (names : List String) :
    (names.foldl join p).segments = p.segments ++ names.flatMap parts := by
  induction names generalizing p with
  | nil => exact (List.append_nil _).symm
  | cons name names ih =>
    rw [List.foldl_cons, ih, segments_join, List.flatMap_cons, List.append_assoc]

theorem segments_ofTexts (names : List String) :
    (ofTexts names).segments = names.flatMap parts :=
  (segments_foldl_join root names).trans (List.nil_append _)

theorem segments_ofTexts_three {a b c : String} (ha : IsSegment a) (hb : IsSegment b)
    (hc : IsSegment c) : (ofTexts [a, b, c]).segments = [a, b, c] := by
  simp [segments_ofTexts, parts_of_isSegment, ha, hb, hc]

theorem segments_scaleMirror (p : Path) : p.scaleMirror.segments = scalesName :: p.segments := by
  have name : parts scalesName = [scalesName] := parts_of_isSegment (by decide)
  show ([] ++ parts scalesName) ++ p.segments = _
  rw [name]
  rfl

/-! ## Paths above paths -/

theorem segments_ne_nil {p : Path} (below : p ≠ .root) : p.segments ≠ [] :=
  fun none => below (ext_segments none)

theorem isRoot_iff {p : Path} : p.isRoot = true ↔ p = .root := by
  rw [isRoot, List.isEmpty_iff]
  constructor
  · intro none
    exact ext_segments none
  · rintro rfl
    rfl

theorem isRoot_eq_false {p : Path} (below : p ≠ .root) : p.isRoot = false :=
  Bool.eq_false_iff.2 (mt isRoot_iff.1 below)

theorem parent?_eq_some {p above : Path} :
    p.parent? = some above ↔ p ≠ .root ∧ above.segments = p.segments.dropLast := by
  unfold parent?
  split
  · next top => simp [isRoot_iff.1 top]
  · next below =>
    simp only [Option.some.injEq, ne_eq, mt isRoot_iff.2 below, not_false_eq_true, true_and]
    constructor
    · rintro rfl
      rfl
    · intro segments
      exact ext_segments segments.symm

theorem exists_parent {p : Path} (below : p ≠ .root) : ∃ above, p.parent? = some above := by
  unfold parent?
  rw [isRoot_eq_false below]
  exact ⟨_, rfl⟩

/-- What leads down to a path is the path itself or leads to its parent. -/
theorem eq_or_prefix_of_parent? {p parent above : Path} (isParent : p.parent? = some parent)
    (on : above.segments <+: p.segments) : above = p ∨ above.segments <+: parent.segments := by
  obtain ⟨below, segments⟩ := parent?_eq_some.1 isParent
  have some := segments_ne_nil below
  rw [← List.dropLast_append_getLast some, ← segments] at on
  rcases List.prefix_concat_iff.1 on with whole | on
  · rw [segments, List.dropLast_append_getLast some] at whole
    exact .inl (ext_segments whole)
  · exact .inr on

/-- A path below another is the other and its own name. -/
theorem join_name {p parent : Path} {name : String} (above : p.parent? = some parent)
    (named : p.name? = some name) : parent.join name = p := by
  obtain ⟨-, segments⟩ := parent?_eq_some.1 above
  have last : p.segments = p.segments.dropLast ++ [name] :=
    (List.dropLast_append_getLast? name named).symm
  have ok : IsSegment name := p.segments_ok name (by rw [last]; simp)
  apply ext_segments
  rw [segments_join_of_isSegment _ ok, segments, ← last]

theorem exists_name {p parent : Path} (above : p.parent? = some parent) :
    ∃ name, p.name? = some name := by
  obtain ⟨below, -⟩ := parent?_eq_some.1 above
  exact ⟨_, List.getLast?_eq_some_getLast (segments_ne_nil below)⟩

/-! ## Paths by their texts

The text of a path begins with that of every path above it, and goes on with a slash. -/

theorem slashed_append (a b : List String) : slashed (a ++ b) = slashed a ++ slashed b := by
  induction a with
  | nil => rfl
  | cons s a ih => rw [List.cons_append, slashed, slashed, ih, List.cons_append, List.append_assoc]

theorem segments_text (p : Path) : parts p.text = p.segments := congrArg segments p.ofText_text

theorem toList_text {p : Path} (below : p ≠ .root) : p.text.toList = slashed p.segments := by
  rw [text, isRoot_eq_false below, if_neg Bool.false_ne_true, String.toList_ofList]

/-- The name of a path stands behind the last slash. -/
theorem toList_text_below {p parent : Path} {name : String} (above : p.parent? = some parent)
    (named : p.name? = some name) :
    p.text.toList = slashed parent.segments ++ '/' :: name.toList := by
  obtain ⟨below, segments⟩ := parent?_eq_some.1 above
  have last : p.segments = parent.segments ++ [name] := by
    rw [segments]
    exact (List.dropLast_append_getLast? name named).symm
  rw [toList_text below, last, slashed_append]
  simp [slashed]

/-- A path lies within another if the segments of the other lead down to it. -/
theorem within_iff {p q : Path} : p.within q = true ↔ q.segments <+: p.segments := by
  rw [within, Bool.or_eq_true, Bool.or_eq_true, isRoot_iff, beq_iff_eq,
    List.isPrefixOf_iff_prefix]
  constructor
  · rintro ((rfl | same) | ⟨rest, on⟩)
    · exact List.nil_prefix
    · obtain rfl := text_injective same
      exact List.prefix_rfl
    · have whole : p.text = q.text ++ "/" ++ String.ofList rest := by
        rw [← String.toList_inj, ← on]
        simp
      have segments := p.segments_text
      rw [whole, parts_append, segments_text] at segments
      exact ⟨_, segments⟩
  · rintro ⟨rest, on⟩
    by_cases root : q = .root
    · rw [root]
      exact .inl (.inl rfl)
    · cases rest with
      | nil =>
        rw [List.append_nil] at on
        rw [ext_segments on]
        exact .inl (.inr rfl)
      | cons s more =>
        have below : p ≠ .root := by
          rintro rfl
          cases (List.append_eq_nil_iff.1 on).2
        refine .inr ⟨s.toList ++ slashed more, ?_⟩
        rw [toList_text below, toList_text root, ← on, slashed_append]
        simp [slashed]

end StudyArchive.Path
