import Mathlib.Data.List.Chain
import Mathlib.Data.List.Nodup
import Mathlib.Data.List.ReduceOption
import StudyArchive.Evaluation.Schema
import StudyArchive.Proofs.Step
/-
# Places of derivative variables

Of two strictly ascending lists of numbers, one pass finds for each number of the second its place
in the first (`placesFrom_eq_map`).  So the entry that goes to a place of the schema is the one of
the variable that has this place (`EvaluationSchema.findIdx?_places`).  Bisection finds the numbers
of such a list (`bisects_iff`), so the flags of an evaluation tell its variables, and the two ways
to look for them agree (`EvaluationSchema.finds_places`).
-/

namespace StudyArchive

theorem strictlyAscending_iff {l : List Nat} :
    strictlyAscending l = true ↔ l.Pairwise (· < ·) := by
  rw [← List.isChain_iff_pairwise]
  induction l with
  | nil => simp [strictlyAscending]
  | cons a l ih =>
    cases l with
    | nil => simp [strictlyAscending]
    | cons b rest => simp [strictlyAscending, ih, List.isChain_cons_cons]

theorem nodup_of_ascending {l : List Nat} (h : strictlyAscending l = true) : l.Nodup :=
  (strictlyAscending_iff.1 h).imp Nat.ne_of_lt

theorem Producer.ascending_of_check {p : Producer} {ids : List Nat}
    (h : p.checkAscending ids = .ok ()) : strictlyAscending ids = true := by
  unfold checkAscending at h
  split at h
  · assumption
  · cases h

/-- Bisection leads to the place of a number that is there. -/
theorem bisect_eq {ids : List Nat} (ascending : ids.Pairwise (· < ·)) {id j base size : Nat}
    (here : ids[j]? = some id) (within : base + size ≤ ids.length) (low : base ≤ j)
    (high : j < base + size) : bisect ids.toArray id base size = j := by
  obtain ⟨bound, rfl⟩ := List.getElem?_eq_some_iff.1 here
  induction base, size using bisect.induct ids.toArray ids[j] with
  | case1 base size small =>
    rw [bisect, if_pos small]
    omega
  | case2 base size large half middle next ih =>
    have inside : middle < ids.length := by omega
    have value : ids.toArray[middle]?.getD 0 = ids[middle] := by simp [inside]
    rw [bisect, if_neg large]
    by_cases before : ids[j] < ids[middle]
    · have lower : j < middle := by
        by_contra not
        rcases Nat.lt_or_eq_of_le (Nat.le_of_not_lt not) with lt | eq
        · exact Nat.lt_asymm before (List.pairwise_iff_getElem.1 ascending _ _ inside bound lt)
        · simp [eq] at before
      have eq : next = base := dif_pos (value ▸ before)
      exact ih (by omega) (by omega) (by omega)
    · have upper : middle ≤ j := by
        by_contra not
        exact before (List.pairwise_iff_getElem.1 ascending _ _ bound inside (by omega))
      have eq : next = middle := dif_neg (value ▸ before)
      exact ih (by omega) (by omega) (by omega)

/-- Bisection finds the numbers of a strictly ascending list. -/
theorem bisects_iff {ids : List Nat} (ascending : strictlyAscending ids = true) {id : Nat} :
    bisects ids id = true ↔ id ∈ ids := by
  have there (i : Nat) : (ids.toArray[i]? = some id) ↔ ids[i]? = some id := by simp
  unfold bisects
  rw [decide_eq_true_iff, there]
  constructor
  · exact List.mem_of_getElem?
  · intro mem
    obtain ⟨j, here⟩ := List.getElem?_of_mem mem
    rw [bisect_eq (strictlyAscending_iff.1 ascending) here (by simp) (Nat.zero_le j) ?_, here]
    simpa using (List.getElem?_eq_some_iff.1 here).1

/-- Without repetitions, the place of a number is the one that holds it. -/
theorem idxOf?_eq_some_iff_of_nodup {l : List Nat} (nodup : l.Nodup) {v i : Nat} :
    l.idxOf? v = some i ↔ l[i]? = some v := by
  rw [List.idxOf?_eq_some_iff]
  constructor
  · rintro ⟨low, rfl, -⟩
    exact List.getElem?_eq_getElem low
  · intro h
    obtain ⟨low, rfl⟩ := List.getElem?_eq_some_iff.1 h
    exact ⟨low, rfl, fun j before same => Nat.ne_of_lt before (nodup.getElem_inj_iff.1 same)⟩

theorem idxOf?_cons_of_ne (l : List Nat) {k x : Nat} (ne : k ≠ x) :
    (k :: l).idxOf? x = (l.idxOf? x).map (· + 1) := by
  rw [List.idxOf?_cons, if_neg (by simpa using ne)]

theorem map_succ (place : Nat) (i? : Option Nat) :
    i?.map (place + 1 + ·) = (i?.map (· + 1)).map (place + ·) := by
  rw [Option.map_map]
  refine Option.map_congr fun i _ => ?_
  simp only [Function.comp_apply]
  omega

theorem placesFrom_eq_map {place : Nat} {known ids : List Nat} (hk : known.Pairwise (· < ·))
    (hi : ids.Pairwise (· < ·)) :
    placesFrom place known ids = ids.map fun id => (known.idxOf? id).map (place + ·) := by
  induction place, known, ids using placesFrom.induct with
  | case1 place known => rw [placesFrom, List.map_nil]
  | case2 place ids some_ =>
    rw [placesFrom]
    · rfl
    · exact some_
  | case3 place k known id ids lt ih =>
    -- The first known number is below all that are looked up.
    have above : ∀ x ∈ id :: ids, k ≠ x := by
      intro x mem
      rcases List.mem_cons.1 mem with rfl | mem
      · exact Nat.ne_of_lt lt
      · exact Nat.ne_of_lt (Nat.lt_trans lt (List.rel_of_pairwise_cons hi mem))
    rw [placesFrom, if_pos lt, ih hk.of_cons hi]
    refine List.map_congr_left fun x mem => ?_
    rw [idxOf?_cons_of_ne _ (above x mem), map_succ]
  | case4 place known k ids lt ih =>
    have above : ∀ x ∈ ids, k ≠ x := fun x mem => Nat.ne_of_lt (List.rel_of_pairwise_cons hi mem)
    rw [placesFrom, if_neg lt, if_pos rfl, ih hk.of_cons hi.of_cons, List.map_cons]
    refine List.cons_eq_cons.2 ⟨by simp [List.idxOf?_cons], List.map_congr_left fun x mem => ?_⟩
    rw [idxOf?_cons_of_ne _ (above x mem), map_succ]
  | case5 place k known id ids lt ne ih =>
    -- The first number that is looked up is below all that are known.
    have absent : id ∉ k :: known := by
      intro mem
      rcases List.mem_cons.1 mem with rfl | mem
      · exact ne rfl
      · exact lt (Nat.lt_of_not_le fun le => absurd (List.rel_of_pairwise_cons hk mem) (by omega))
    rw [placesFrom, if_neg lt, if_neg ne, ih hk hi.of_cons, List.map_cons,
      List.idxOf?_eq_none_iff.2 absent, Option.map_none]

namespace EvaluationSchema

variable {s : EvaluationSchema} {ids : List Nat}

/-- The flags tell which variables of the schema are among those of an evaluation. -/
theorem flags_eq_map (ascending : strictlyAscending ids = true) :
    s.flags ids = s.derivatives.map fun v => if v ∈ ids then 1 else 0 :=
  List.map_congr_left fun v _ => by simp only [bisects_iff ascending]

/-- The place of each variable is the one where a search for it ends. -/
theorem places_eq_map (known : strictlyAscending s.derivatives = true)
    (ascending : strictlyAscending ids = true) :
    s.places ids = ids.map fun id => s.derivatives.idxOf? id := by
  rw [places, placesFrom_eq_map (strictlyAscending_iff.1 known) (strictlyAscending_iff.1 ascending)]
  simp

/-- The entry that goes to a place of the schema is the one of the variable that has this place. -/
theorem findIdx?_places (known : strictlyAscending s.derivatives = true)
    (ascending : strictlyAscending ids = true) {p j : Nat} :
    (s.places ids).findIdx? (· = some p) = some j ↔
      ∃ v, s.derivatives[p]? = some v ∧ ids[j]? = some v := by
  rw [places_eq_map known ascending, List.findIdx?_map, List.findIdx?_eq_some_iff_getElem]
  simp only [Function.comp_apply, decide_eq_true_eq,
    idxOf?_eq_some_iff_of_nodup (nodup_of_ascending known)]
  constructor
  · rintro ⟨low, here, -⟩
    exact ⟨ids[j], here, List.getElem?_eq_getElem low⟩
  · rintro ⟨v, here, at_⟩
    obtain ⟨low, rfl⟩ := List.getElem?_eq_some_iff.1 at_
    refine ⟨low, here, fun i before there => ?_⟩
    have same := Option.some.inj (here.symm.trans there)
    have nodup := nodup_of_ascending ascending
    exact Nat.ne_of_lt before ((nodup.getElem_inj_iff).1 same).symm

/-- A place that no variable of an evaluation has is found nowhere. -/
theorem findIdx?_places_eq_none (known : strictlyAscending s.derivatives = true)
    (ascending : strictlyAscending ids = true) {p v : Nat} (here : s.derivatives[p]? = some v)
    (absent : v ∉ ids) : (s.places ids).findIdx? (· = some p) = none := by
  cases found : (s.places ids).findIdx? (· = some p) with
  | none => rfl
  | some j =>
    obtain ⟨w, there, at_⟩ := (findIdx?_places known ascending).1 found
    cases here.symm.trans there
    exact absurd (List.mem_of_getElem? at_) absent

/-- The places that are found are those of the variables in common. -/
theorem some_mem_places (known : strictlyAscending s.derivatives = true)
    (ascending : strictlyAscending ids = true) {k v : Nat} (here : s.derivatives[k]? = some v) :
    some k ∈ s.places ids ↔ v ∈ ids := by
  simp only [places_eq_map known ascending, List.mem_map,
    idxOf?_eq_some_iff_of_nodup (nodup_of_ascending known), here, Option.some_inj]
  constructor
  · rintro ⟨_, mem, rfl⟩
    exact mem
  · exact fun mem => ⟨v, mem, rfl⟩

/-- The places that are found ascend like the variables that they were found for. -/
theorem ascending_places (known : strictlyAscending s.derivatives = true)
    (ascending : strictlyAscending ids = true) :
    (s.places ids).reduceOption.Pairwise (· < ·) := by
  rw [places_eq_map known ascending, List.reduceOption, List.filterMap_map, List.pairwise_filterMap]
  refine (strictlyAscending_iff.1 ascending).imp fun {v w} lt i first k second => ?_
  have nodup := nodup_of_ascending known
  obtain ⟨low, rfl⟩ := List.getElem?_eq_some_iff.1 ((idxOf?_eq_some_iff_of_nodup nodup).1 first)
  obtain ⟨low', rfl⟩ := List.getElem?_eq_some_iff.1 ((idxOf?_eq_some_iff_of_nodup nodup).1 second)
  by_contra not
  rcases Nat.lt_or_eq_of_le (Nat.le_of_not_lt not) with before | rfl
  · have below := List.pairwise_iff_getElem.1 (strictlyAscending_iff.1 known) _ _ low' low before
    exact Nat.lt_asymm lt below
  · exact Nat.lt_irrefl _ lt

/-- One pass over the variables of the schema and of an evaluation, each of them checked to ascend,
tells what a search for each variable tells: its place in the schema, or that it has none.  The
places that are found ascend, so none of them is found twice; and the flags, which bisection finds,
are set at these places and at no others. -/
theorem finds_places {p q : Producer} (known : p.checkAscending s.derivatives = .ok ())
    (asked : q.checkAscending ids = .ok ()) :
    (s.places ids).length = ids.length ∧
    (∀ j v : Nat, ids[j]? = some v →
      (∀ k, (s.places ids)[j]? = some (some k) ↔ s.derivatives[k]? = some v) ∧
      ((s.places ids)[j]? = some none ↔ v ∉ s.derivatives)) ∧
    (s.places ids).reduceOption.Pairwise (· < ·) ∧
    s.flags ids =
      (List.range s.derivatives.length).map fun k => if some k ∈ s.places ids then 1 else 0 := by
  have known := Producer.ascending_of_check known
  have ascending := Producer.ascending_of_check asked
  have places := places_eq_map known ascending
  refine ⟨by rw [places, List.length_map], fun j v at_ => ?_, ascending_places known ascending, ?_⟩
  · have found : (s.places ids)[j]? = some (s.derivatives.idxOf? v) := by
      rw [places, List.getElem?_map, at_, Option.map_some]
    rw [found]
    simp only [Option.some_inj]
    exact ⟨fun k => idxOf?_eq_some_iff_of_nodup (nodup_of_ascending known),
      List.idxOf?_eq_none_iff⟩
  · rw [flags_eq_map ascending]
    refine List.ext_getElem (by simp) fun k low _ => ?_
    have low : k < s.derivatives.length := by simpa using low
    have common := some_mem_places known ascending (List.getElem?_eq_getElem low)
    simp only [List.getElem_map, List.getElem_range, common]

/-- Derivatives by four variables. -/
def byFour : EvaluationSchema := ⟨1, [0], [], [1, 3, 5, 8], 0, [4, 0, 0, 0]⟩

theorem finds_places_of_two :
    Producer.checkAscending (.model "s" "m") byFour.derivatives = .ok () ∧
      Producer.checkAscending (.model "s" "m") [2, 3, 8] = .ok () ∧
      (byFour.places [2, 3, 8])[1]? = some (some 1) ∧ (byFour.places [2, 3, 8])[0]? = some none ∧
      byFour.flags [2, 3, 8] = (List.range byFour.derivatives.length).map
        fun k => if some k ∈ byFour.places [2, 3, 8] then 1 else 0 := by
  have known : Producer.checkAscending (.model "s" "m") byFour.derivatives = .ok () := by decide
  have asked : Producer.checkAscending (.model "s" "m") [2, 3, 8] = .ok () := by decide
  obtain ⟨-, each, -, flags⟩ := finds_places known asked
  exact ⟨known, asked, ((each 1 3 rfl).1 1).2 rfl, (each 0 2 rfl).2.2 (by decide), flags⟩

end EvaluationSchema
end StudyArchive
