import Mathlib.Data.Set.Function
import StudyArchive.Codec.Bytes
import StudyArchive.Proofs.Path
/-
# Paths as texts

What is kept of a path may be nothing but its text, and then all that is done with it is done to
characters: a text is written anew with one slash before each piece, a path above is cut off before
the last slash, and one path is below another if its text goes on behind the other's with the byte
of a slash.  The texts that are made in these ways are those of the paths (`PathText.held_iff`), and
every operation on them is one on lists of segments (`PathText.held_as_segments`).
-/

namespace StudyArchive

namespace PathText

/-- The pieces of a text between its slashes that are not empty. -/
def segments (text : String) : List String :=
  ((text.toList.splitOn '/').filter (· ≠ [])).map String.ofList

/-- A text with one slash before every segment; if it has none, that of the root. -/
def normalize (raw : String) : String :=
  let written := (segments raw).foldl (fun written s => written ++ "/" ++ s) ""
  if written = "" then "/" else written

/-- The text of a path below another. -/
def join (text child : String) : String :=
  if text = "/" then normalize child else normalize (text ++ "/" ++ child)

/-- The text of the path that leads from the root through the given names. -/
def ofSegments (names : List String) : String := names.foldl join "/"

def depth (text : String) : Nat := (segments text).length

def name? (text : String) : Option String := (segments text).getLast?

def lastSlash? : List Char → Option Nat
  | [] => none
  | c :: rest =>
    match lastSlash? rest with
    | some place => some (place + 1)
    | none => if c = '/' then some 0 else none

/-- What stands before the last slash; the root has nothing above it. -/
def parent? (text : String) : Option String :=
  if text = "/" then none
  else
    match lastSlash? text.toList with
    | some 0 => some "/"
    | some place => some (String.ofList (text.toList.take place))
    | none => some "/"

/-- Whether a text is another or goes on behind it with the byte of a slash. -/
def within (text other : String) : Bool :=
  other == "/" || text == other ||
    (other.toList.isPrefixOf text.toList &&
      (Bytes.ofText text)[(Bytes.ofText other).length]? == some 0x2F)

/-- The text of the place of the scales of an object. -/
def scaleMirror (text : String) : String := join (join "/" "_scales") text

/-- The texts that paths are made as. -/
inductive Held : String → Prop
  | ofRaw (raw : String) : Held (normalize raw)
  | ofSegments (names : List String) : Held (ofSegments names)
  | join {text : String} (child : String) : Held text → Held (join text child)
  | parent {text above : String} : Held text → parent? text = some above → Held above
  | scaleMirror {text : String} : Held text → Held (scaleMirror text)

/-! ## Writing a text anew -/

theorem splitOn_eq_pieces (l : List Char) : l.splitOn '/' = Path.pieces l := by
  induction l with
  | nil => rfl
  | cons c rest ih =>
    rw [List.splitOn] at ih
    rw [List.splitOn, List.splitOnP_cons_eq_if_modifyHead, ih, Path.pieces]
    by_cases slash : c = '/'
    · rw [if_pos slash, if_pos (by simpa using slash)]
    · rw [if_neg slash, if_neg (by simpa using slash)]
      obtain ⟨piece, more, eq⟩ := List.exists_cons_of_ne_nil (Path.pieces_ne_nil rest)
      rw [eq]
      rfl

theorem segments_eq_parts (text : String) : segments text = Path.parts text := by
  rw [segments, splitOn_eq_pieces, Path.parts]

theorem segments_text (p : Path) : segments p.text = p.segments := by
  rw [segments_eq_parts, Path.segments_text]

theorem toList_foldl_slash (names : List String) (written : String) :
    (names.foldl (fun written s => written ++ "/" ++ s) written).toList =
      written.toList ++ Path.slashed names := by
  induction names generalizing written with
  | nil => simp [Path.slashed]
  | cons s names ih =>
    rw [List.foldl_cons, ih, Path.slashed]
    simp

theorem normalize_eq (raw : String) : normalize raw = (Path.ofText raw).text := by
  have written : (segments raw).foldl (fun written s => written ++ "/" ++ s) "" =
      String.ofList (Path.slashed (Path.ofText raw).segments) := by
    rw [← String.toList_inj, toList_foldl_slash, segments_eq_parts]
    simp [Path.ofText]
  rw [normalize, written, Path.text, Path.isRoot]
  cases (Path.ofText raw).segments with
  | nil => rfl
  | cons s rest =>
    have some : String.ofList (Path.slashed (s :: rest)) ≠ "" := by
      intro none
      rw [← String.toList_inj, String.toList_ofList] at none
      cases none
    exact if_neg some

theorem normalize_text (p : Path) : normalize p.text = p.text := by
  rw [normalize_eq, Path.ofText_text]

/-! ## Below and above -/

theorem text_eq_slash {p : Path} : p.text = "/" ↔ p = .root := by
  constructor
  · intro slash
    exact Path.text_injective slash
  · rintro rfl
    rfl

theorem join_text (p : Path) (child : String) : join p.text child = (p.join child).text := by
  rw [join]
  by_cases root : p = .root
  · rw [if_pos (text_eq_slash.2 root), normalize_eq, root]
    rfl
  · rw [if_neg (mt text_eq_slash.1 root), normalize_eq]
    refine congrArg Path.text (Path.ext_segments ?_)
    show Path.parts (p.text ++ "/" ++ child) = p.segments ++ Path.parts child
    rw [Path.parts_append, ← segments_eq_parts, segments_text]

theorem ofSegments_eq (names : List String) : ofSegments names = (Path.ofTexts names).text := by
  show names.foldl join Path.root.text = _
  exact List.foldl_hom Path.text join_text

theorem scaleMirror_text (p : Path) : scaleMirror p.text = p.scaleMirror.text := by
  have scales : join "/" "_scales" = (Path.root.join Path.scalesName).text := join_text .root _
  rw [scaleMirror, scales, join_text]
  refine congrArg Path.text (Path.ext_segments ?_)
  rw [Path.segments_join, ← segments_eq_parts, segments_text]
  rfl

theorem lastSlash?_of_not_mem {l : List Char} (free : '/' ∉ l) : lastSlash? l = none := by
  induction l with
  | nil => rfl
  | cons c rest ih =>
    rw [List.mem_cons, not_or] at free
    rw [lastSlash?, ih free.2]
    exact if_neg fun slash => free.1 slash.symm

/-- A slash with none behind it is the last one. -/
theorem lastSlash?_append (l : List Char) {name : List Char} (free : '/' ∉ name) :
    lastSlash? (l ++ '/' :: name) = some l.length := by
  induction l with
  | nil =>
    rw [List.nil_append, lastSlash?, lastSlash?_of_not_mem free]
    exact if_pos rfl
  | cons c l ih =>
    rw [List.cons_append, lastSlash?, ih]
    rfl

/-- Something that stands before the last slash is the text above. -/
theorem parent?_of_slash {text : String} {before name : List Char} (other : text ≠ "/")
    (whole : text.toList = before ++ '/' :: name) (free : '/' ∉ name) (below : before ≠ []) :
    parent? text = some (String.ofList before) := by
  obtain ⟨c, more, rfl⟩ := List.exists_cons_of_ne_nil below
  rw [parent?, if_neg other, whole, lastSlash?_append _ free]
  show some (String.ofList ((c :: more ++ '/' :: name).take (c :: more).length)) = _
  rw [List.take_left]

theorem parent?_text (p : Path) : parent? p.text = p.parent?.map Path.text := by
  by_cases root : p = .root
  · rw [root]
    rfl
  · obtain ⟨above, isParent⟩ := Path.exists_parent root
    obtain ⟨name, named⟩ := Path.exists_name isParent
    have ok : Path.IsSegment name := p.segments_ok name (List.mem_of_getLast? named)
    have whole := Path.toList_text_below isParent named
    have other := mt text_eq_slash.1 root
    rw [isParent, Option.map_some]
    by_cases top : above = .root
    · -- the last slash is the first character
      rw [parent?, if_neg other, whole, lastSlash?_append _ ok.2, top]
      rfl
    · rw [← Path.toList_text top] at whole
      have some : above.text.toList ≠ [] := by
        rw [Path.toList_text top]
        obtain ⟨s, rest, segments⟩ := List.exists_cons_of_ne_nil (Path.segments_ne_nil top)
        rw [segments]
        exact List.cons_ne_nil _ _
      rw [parent?_of_slash other whole ok.2 some, String.ofList_toList]

/-! ## One below the other

Texts are compared byte by byte, and a slash is one byte that is no part of another character. -/

theorem eq_of_ofNat_eq {n : Nat} (low : n < 256) (slash : UInt8.ofNat n = 0x2F) : n = 47 := by
  have byte : (UInt8.ofNat n).toNat = 47 := by
    rw [slash]
    rfl
  rwa [UInt8.toNat_ofNat', Nat.mod_eq_of_lt low] at byte

/-- No other character begins with the byte of a slash: a first byte below 128 is all of one. -/
theorem head?_utf8EncodeChar (c : Char) :
    (String.utf8EncodeChar c).head? = some 0x2F ↔ c = '/' := by
  constructor
  · intro head
    have code : c.val.toNat = 47 := by
      rw [String.utf8EncodeChar] at head
      split at head
      · exact eq_of_ofNat_eq (by omega) (Option.some.inj head)
      · -- all other first bytes are 192 or above
        split at head
        · exact absurd (eq_of_ofNat_eq (by omega) (Option.some.inj head)) (by omega)
        · split at head
          · exact absurd (eq_of_ofNat_eq (by omega) (Option.some.inj head)) (by omega)
          · exact absurd (eq_of_ofNat_eq (by omega) (Option.some.inj head)) (by omega)
    exact Char.ext (UInt32.toNat_inj.1 code)
  · rintro rfl
    rfl

theorem ofText_eq_flatMap (text : String) :
    Bytes.ofText text = text.toList.flatMap String.utf8EncodeChar := by
  have bytes : text.toByteArray = (text.toList.flatMap String.utf8EncodeChar).toByteArray := by
    show text.toByteArray = text.toList.utf8Encode
    rw [← String.toByteArray_ofList, String.ofList_toList]
  rw [Bytes.ofText, bytes]
  simp

theorem head?_ofText (text : String) :
    (Bytes.ofText text).head? = some 0x2F ↔ ∃ rest, text.toList = '/' :: rest := by
  rw [ofText_eq_flatMap]
  cases text.toList with
  | nil => simp
  | cons c rest =>
    have some : String.utf8EncodeChar c ≠ [] := String.utf8EncodeChar_ne_nil
    rw [List.flatMap_cons, List.head?_append_of_ne_nil _ some, head?_utf8EncodeChar]
    simp

/-- The byte behind a text is that of a slash exactly if the text goes on with a slash. -/
theorem slash_follows_iff (s t : String) :
    (s.toList.isPrefixOf t.toList && (Bytes.ofText t)[(Bytes.ofText s).length]? == some 0x2F) =
      (s.toList ++ ['/']).isPrefixOf t.toList := by
  rw [Bool.eq_iff_iff, Bool.and_eq_true, List.isPrefixOf_iff_prefix, List.isPrefixOf_iff_prefix,
    beq_iff_eq]
  constructor
  · rintro ⟨⟨rest, on⟩, byte⟩
    have whole : t = s ++ String.ofList rest := by
      rw [← String.toList_inj, ← on]
      simp
    rw [whole, Bytes.ofText_append, List.getElem?_append_right (Nat.le_refl _), Nat.sub_self,
      ← List.head?_eq_getElem?, head?_ofText] at byte
    obtain ⟨more, slash⟩ := byte
    refine ⟨more, ?_⟩
    rw [← on, ← String.toList_ofList (l := rest), slash, List.append_assoc]
    rfl
  · rintro ⟨more, on⟩
    rw [List.append_assoc] at on
    have whole : t = s ++ String.ofList ('/' :: more) := by
      rw [← String.toList_inj, ← on]
      simp
    refine ⟨⟨_, on⟩, ?_⟩
    rw [whole, Bytes.ofText_append, List.getElem?_append_right (Nat.le_refl _), Nat.sub_self,
      ← List.head?_eq_getElem?, head?_ofText]
    exact ⟨more, String.toList_ofList⟩

theorem within_text (p q : Path) : within p.text q.text = p.within q := by
  have top : (q.text == "/") = q.isRoot := by
    rw [Bool.eq_iff_iff, beq_iff_eq, text_eq_slash, Path.isRoot_iff]
  rw [within, Path.within, slash_follows_iff, top]

/-! ## All texts that are made

By induction on how a text was made: it is the text of a path. -/

theorem held_text (p : Path) : Held p.text := by
  rw [← normalize_text p]
  exact .ofRaw _

theorem held_iff {text : String} : Held text ↔ ∃ p : Path, p.text = text := by
  constructor
  · intro held
    induction held with
    | ofRaw raw => exact ⟨_, (normalize_eq raw).symm⟩
    | ofSegments names => exact ⟨_, (ofSegments_eq names).symm⟩
    | join child _ ih =>
      obtain ⟨p, rfl⟩ := ih
      exact ⟨_, (join_text p child).symm⟩
    | parent _ isParent ih =>
      obtain ⟨p, rfl⟩ := ih
      rw [parent?_text, Option.map_eq_some_iff] at isParent
      obtain ⟨above, -, rfl⟩ := isParent
      exact ⟨above, rfl⟩
    | scaleMirror _ ih =>
      obtain ⟨p, rfl⟩ := ih
      exact ⟨_, (scaleMirror_text p).symm⟩
  · rintro ⟨p, rfl⟩
    exact held_text p

/-- The texts that are made are those of all lists of segments, one for each. -/
theorem bijOn_segments :
    Set.BijOn segments {text | Held text} {names | ∀ s ∈ names, Path.IsSegment s} := by
  refine ⟨?_, ?_, ?_⟩
  · intro text held
    obtain ⟨p, rfl⟩ := held_iff.1 held
    rw [segments_text]
    exact p.segments_ok
  · intro text held text' held' same
    obtain ⟨p, rfl⟩ := held_iff.1 held
    obtain ⟨q, rfl⟩ := held_iff.1 held'
    rw [segments_text, segments_text] at same
    rw [Path.ext_segments same]
  · intro names ok
    exact ⟨_, held_text ⟨names, ok⟩, segments_text _⟩

/-- Paths that are held as texts are the lists of segments, nonempty and without a slash.  A text
that is made in any way is the text of a path; and what is done to such texts character by character
is done to the segments: a raw text gives the nonempty pieces between its slashes, joining appends
pieces, the path above is without the last segment and joined with it is the path again, being
below is going on from a prefix, and the place of the scales is below `_scales`, another for every
path. -/
theorem held_as_segments :
    (∀ text, Held text ↔ ∃ p : Path, p.text = text) ∧
    Set.BijOn segments {text | Held text} {names | ∀ s ∈ names, Path.IsSegment s} ∧
    (∀ raw, normalize raw = (Path.ofText raw).text ∧
      segments (normalize raw) =
        ((raw.toList.splitOn '/').filter (· ≠ [])).map String.ofList) ∧
    (∀ names, ofSegments names = (Path.ofTexts names).text ∧
      segments (ofSegments names) = names.flatMap segments) ∧
    (∀ p : Path, segments p.text = p.segments ∧ normalize p.text = p.text) ∧
    (∀ (p : Path) (child : String), join p.text child = (p.join child).text ∧
      segments (join p.text child) = p.segments ++ segments child) ∧
    (∀ p : Path, parent? p.text = p.parent?.map Path.text ∧
      (parent? p.text).map segments = if p = .root then none else some p.segments.dropLast) ∧
    (∀ p : Path, name? p.text = p.name? ∧ p.name? = p.segments.getLast? ∧
      depth p.text = p.depth ∧ p.depth = p.segments.length) ∧
    (∀ p : Path, p ≠ .root → ∃ above name, parent? p.text = some above ∧
      name? p.text = some name ∧ join above name = p.text) ∧
    (∀ p q : Path, within p.text q.text = p.within q ∧
      (within p.text q.text = true ↔ q.segments <+: p.segments)) ∧
    (∀ p : Path, scaleMirror p.text = p.scaleMirror.text ∧
      segments (scaleMirror p.text) = "_scales" :: p.segments) ∧
    Function.Injective Path.scaleMirror := by
  refine ⟨fun text => held_iff, bijOn_segments, fun raw => ⟨normalize_eq raw, ?_⟩,
    fun names => ⟨ofSegments_eq names, ?_⟩, fun p => ⟨segments_text p, normalize_text p⟩,
    fun p child => ⟨join_text p child, ?_⟩, fun p => ⟨parent?_text p, ?_⟩, fun p => ?_,
    fun p below => ?_, fun p q => ⟨within_text p q, ?_⟩, fun p => ⟨scaleMirror_text p, ?_⟩, ?_⟩
  · rw [normalize_eq, segments_text]
    exact (segments_eq_parts raw).symm
  · rw [ofSegments_eq, segments_text, Path.segments_ofTexts, funext segments_eq_parts]
  · rw [join_text, segments_text, Path.segments_join, segments_eq_parts]
  · rw [parent?_text]
    by_cases root : p = .root
    · rw [root]
      rfl
    · obtain ⟨above, isParent⟩ := Path.exists_parent root
      rw [if_neg root, isParent, Option.map_some, Option.map_some, segments_text,
        (Path.parent?_eq_some.1 isParent).2]
  · rw [name?, depth, segments_text]
    exact ⟨rfl, rfl, rfl, rfl⟩
  · obtain ⟨above, isParent⟩ := Path.exists_parent below
    obtain ⟨name, named⟩ := Path.exists_name isParent
    refine ⟨above.text, name, ?_, ?_, ?_⟩
    · rw [parent?_text, isParent, Option.map_some]
    · rw [name?, segments_text]
      exact named
    · rw [join_text, Path.join_name isParent named]
  · rw [within_text, Path.within_iff]
  · rw [scaleMirror_text, segments_text, Path.segments_scaleMirror]
    rfl
  · intro p q same
    have segments := congrArg Path.segments same
    rw [Path.segments_scaleMirror, Path.segments_scaleMirror] at segments
    exact Path.ext_segments (List.cons.inj segments).2

/-- A name that another one begins with is not above it. -/
example : within "/models/sim/m10" "/models/sim/m1" = false ∧
    within "/models/sim/m10" "/models/sim" = true := by decide

end PathText
end StudyArchive
