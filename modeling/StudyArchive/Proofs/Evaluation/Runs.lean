import StudyArchive.Evaluation.Parameters
import StudyArchive.Proofs.Evaluation.Calls
/-
# Runs of the store of evaluations

Calls one after the other, from an archive that was just started over.  One call keeps a recording
sound, however it ends (`Sound.after`); so every recording that can be reached is sound
(`Fresh.sound_afterAll`).
-/

namespace StudyArchive

open Dataset (Touched Keeps Grows)

/-- A call of the store of evaluations. -/
inductive StoreCall where
  | allocate (p : Producer) (inputs : Variables) (response : Response) (active : ActiveSet)
  | storeVariables (p : Producer) (x : EvaluationInputs)
  | storeResponse (p : Producer) (id : UInt64) (response : Response)
  | abandon (p : Producer) (id : UInt64)
  | declareSource (owner source : Source)
  | storeParameters (p : Producer) (parameters : VariableParameters)
  | addMethodModel (id : String)
  | setTopModel (id : String)
  | select (models : ModelSelection) (interfaces : InterfaceSelection)

namespace StoreCall

def run : StoreCall → Recording.Action Unit
  | allocate p inputs response active => Recording.allocate p inputs response active
  | storeVariables p x => Recording.storeVariables p x.id x.active x.values
  | storeResponse p id response => Recording.storeResponse p id response
  | abandon p id => Recording.updateStore fun s => (s.abandon p id).2
  | declareSource owner source => Recording.declareSource owner source
  | storeParameters p parameters => Recording.storeParameters p parameters
  | addMethodModel id => Recording.updateStore (·.addMethodModel id)
  | setTopModel id => Recording.updateStore (·.setTopModel id)
  | select models interfaces => Recording.updateStore ({ · with models, interfaces })

/-- A call whose producers have identifiers that are single nonempty segments. -/
def IsProper : StoreCall → Prop
  | allocate p _ _ _ | storeVariables p _ | storeResponse p _ _ | abandon p _
  | storeParameters p _ => p.IsProper
  | declareSource owner _ => owner.IsProper
  | addMethodModel _ | setTopModel _ | select _ _ => True

instance (c : StoreCall) : Decidable c.IsProper := by
  cases c <;> unfold IsProper <;> infer_instance

/-- The recording after a call, whether it succeeds or fails. -/
def after (r : Recording) (c : StoreCall) : Recording := stateAfter (c.run r)

/-- The recording after calls one after the other. -/
def afterAll (r : Recording) (calls : List StoreCall) : Recording := calls.foldl after r

/-- A producer is allocated for evaluations of which `active` is asked. -/
def allocating (p : Producer) (v : Variables) (active : ActiveSet) : StoreCall :=
  allocate p v (.blank active []) active

/-- A producer is allocated, and evaluations with these identifiers are sent out. -/
def sending (p : Producer) (v : Variables) (active : ActiveSet) (ids : List UInt64) :
    List StoreCall :=
  allocating p v active :: ids.map fun id => storeVariables p ⟨id, active, v⟩

end StoreCall

/-- One function and none of its derivatives. -/
def ActiveSet.oneFunction : ActiveSet := ⟨[1], []⟩

/-- A row that waits goes on waiting as long as it is kept. -/
theorem Archive.Awaits.keeps {a a' : Archive} {root : Path} {s : EvaluationSchema} {i : Nat}
    (h : a.Awaits root s i)
    (keeps : ∀ (part : EvaluationPart) d, a.at? (part.path root) = some d → i < d.rows →
      ∃ d', a'.at? (part.path root) = some d' ∧ Keeps d i d') : a'.Awaits root s i := by
  refine ⟨fun part shape has => ?_⟩
  obtain ⟨d, found, table, low, fresh⟩ := h.tables part shape has
  obtain ⟨d', found', kept⟩ := keeps part d found low
  exact ⟨d', found', table.grows kept.toGrows, Nat.lt_of_lt_of_le low kept.rows,
    fun mem => kept.row.trans (fresh mem)⟩

namespace Recording

variable {r r' : Recording} {p : Producer} {root : Path} {change : Archive.PartChange}

theorem Fresh.sound (fresh : r.Fresh) : r.Sound where
  laidOut := fresh.laidOut
  known p record known := by
    rw [fresh.producers] at known
    cases known
  waits p id i waits := by
    rw [fresh.slots] at waits
    cases waits
  unshared p id p' id' i waits := by
    rw [fresh.slots] at waits
    cases waits

theorem Sound.quiet (sound : r.Sound) (quiet : Quiet r r') : r'.Sound := by
  obtain ⟨owner, built, -⟩ := quiet.built
  refine ⟨built.laidOut, quiet.known, fun p id i waits => ?_, fun p id p' id' i waits waits' => ?_⟩
  · rw [quiet.slots] at waits
    obtain ⟨record, known, awaits⟩ := sound.waits p id i waits
    obtain ⟨record', known', same⟩ := quiet.kept p record known
    refine ⟨record', known', same ▸ awaits.keeps fun part d found _ => ?_⟩
    have hr := Producer.segments_root (sound.known p record known).1.proper
    obtain ⟨d', found', rows⟩ := built.kept hr found
    exact ⟨d', found', rows.keeps i⟩
  · rw [quiet.slots] at waits waits'
    exact sound.unshared p id p' id' i waits waits'

/-- Parts of a producer that change stay sound if the rows that wait are kept. -/
theorem Sound.reworked (sound : r.Sound) (hr : IsProducerRoot root)
    (reworked : Archive.Reworked root change r.archive r'.archive)
    (grows : ∀ part d d', change part d d' → Grows d d')
    (producers : r'.store.producers = r.store.producers)
    (slots : ∀ q id i, r'.store.slots.get? (q, id) = some i → r.store.slots.get? (q, id) = some i ∧
      (q.root = root → ∀ part d d', i < d.rows → change part d d' → Keeps d i d')) :
    r'.Sound where
  laidOut := reworked.laidOut sound.laidOut hr fun part d d' changed =>
    (grows part d d' changed).alike
  known q record known := by
    rw [producers] at known
    obtain ⟨fits, d, found⟩ := sound.known q record known
    refine ⟨fits, ?_⟩
    by_cases own : q.root = root
    · subst own
      obtain ⟨d', found', -⟩ := reworked.parts .ids d found
      exact ⟨d', found'⟩
    · exact ⟨d, (reworked.rest _ fun part same => own (EvaluationPart.path_injective
        (Producer.segments_root fits.proper) hr same).2).trans found⟩
  waits q id i waits := by
    obtain ⟨waits, keeps⟩ := slots q id i waits
    obtain ⟨record, known, awaits⟩ := sound.waits q id i waits
    refine ⟨record, producers ▸ known, awaits.keeps fun part d found low => ?_⟩
    by_cases own : q.root = root
    · subst own
      obtain ⟨d', found', changed⟩ := reworked.parts part d found
      exact ⟨d', found', keeps rfl part d d' low changed⟩
    · have hq := Producer.segments_root (sound.known q record known).1.proper
      refine ⟨d, (reworked.rest _ fun part' same => own ?_).trans found, ⟨?_, rfl⟩⟩
      · exact (EvaluationPart.path_injective hq hr same).2
      · exact (Dataset.SameRows.refl d).keeps i |>.toGrows
  unshared q id q' id' i waits waits' :=
    sound.unshared q id q' id' i (slots q id i waits).1 (slots q' id' i waits').1

theorem Sound.waiting (sound : r.Sound) {record : ProducerRecord} {id : UInt64} {n : Nat}
    (known : r.store.producers.get? p = some record)
    (awaits : r.archive.Awaits p.root record.schema n)
    (free : ∀ q id' i, r.store.slots.get? (q, id') = some i → q.root = p.root → i < n)
    (archive : r'.archive = r.archive) (producers : r'.store.producers = r.store.producers)
    (slots : r'.store.slots = r.store.slots.insert (p, id) n) : r'.Sound where
  laidOut := archive ▸ sound.laidOut
  known := by
    rw [archive, producers]
    exact sound.known
  waits q id' i waits := by
    rw [slots] at waits
    rw [archive, producers]
    rcases Table.eq_or_get?_of_insert waits with ⟨same, rfl⟩ | old
    · cases same
      exact ⟨record, known, awaits⟩
    · exact sound.waits q id' i old
  unshared q id₁ q' id₂ i waits waits' same := by
    rw [slots, Table.get?_insert] at waits waits'
    split at waits <;> split at waits'
    · next eq eq' =>
      cases eq.symm.trans eq'
      exact ⟨rfl, rfl⟩
    · next eq _ =>
      cases eq
      cases waits
      exact absurd (free q' id₂ n waits' same.symm) (Nat.lt_irrefl n)
    · next _ eq =>
      cases eq
      cases waits'
      exact absurd (free q id₁ n waits same) (Nat.lt_irrefl n)
    · exact sound.unshared q id₁ q' id₂ i waits waits' same

/-- Before inputs are stored, the rows that wait are all there are, at most. -/
theorem Sound.lt_of_waits (sound : r.Sound) {n : Nat}
    (ids : (r.archive.at? (EvaluationPart.ids.path root)).map Dataset.dims = some [n])
    {q : Producer} {id : UInt64} {i : Nat} (waits : r.store.slots.get? (q, id) = some i)
    (own : q.root = root) : i < n := by
  obtain ⟨record, -, awaits⟩ := sound.waits q id i waits
  obtain ⟨d, found, -, low, -⟩ := awaits.tables .ids [] rfl
  rw [own] at found
  rw [found] at ids
  have dims : d.dims = [n] := Option.some.inj ids
  simpa [Dataset.rows, dims] using low

theorem Sound.inputsEnd {x : EvaluationInputs} (sound : r.Sound) (h : InputsEnd r p x r') :
    r'.Sound := by
  cases h with
  | refused quiet _ => exact sound.quiet quiet
  | @stored record n known fit dims appended _ slots producers =>
    have hr := Producer.segments_root (sound.known p record known).1.proper
    have low {q : Producer} {id : UInt64} {i : Nat} (waits : r.store.slots.get? (q, id) = some i)
        (own : q.root = p.root) : i < n := sound.lt_of_waits (dims .ids) waits own
    have rows {part : EvaluationPart} {d : Dataset}
        (found : r.archive.at? (part.path p.root) = some d) : d.rows = n := by
      have eq := dims part
      rw [found] at eq
      obtain ⟨shape, -, eq⟩ := Option.map_eq_some_iff.1 eq.symm
      simp [Dataset.rows, ← eq]
    have grown : Recording.Sound { r with archive := r'.archive } :=
      sound.reworked hr appended (fun _ _ _ h => h.onward.toGrows) rfl fun q id i waits =>
        ⟨waits, fun _ part d d' low h => h.onward.keeps low⟩
    refine grown.waiting known ⟨fun part shape has => ?_⟩ (fun q id i => low) rfl producers slots
    have eq := dims part
    rw [has] at eq
    obtain ⟨d, found, eq⟩ := Option.map_eq_some_iff.1 eq
    obtain ⟨d', found', h⟩ := appended.parts part d found
    have table := sound.laidOut.isTable hr found eq
    refine ⟨d', found', table.grows h.onward.toGrows, ?_, fun mem => ?_⟩
    · rw [h.rows, rows found]
      exact Nat.lt_succ_self n
    · rw [← rows found, h.new]
      exact EvaluationPart.inputRow_of_mem_answered mem has

theorem Sound.inputsCut (sound : r.Sound) (proper : p.IsProper) (h : InputsCut r p r') :
    r'.Sound :=
  sound.reworked (Producer.segments_root proper) h.onward (fun _ _ _ h => h.toGrows)
    (by rw [h.store]) fun q id i waits => by
      rw [h.store] at waits
      exact ⟨waits, fun _ part d d' low h => h.keeps low⟩

/-- Where one of the rows that wait is touched, the others are kept. -/
theorem Sound.touched (sound : r.Sound) {id : UInt64} {i : Nat}
    (waits : r.store.slots.get? (p, id) = some i) (store : r'.store = (r.freed p id).store)
    (reworked : Archive.Reworked p.root change r.archive r'.archive)
    (touched : ∀ part d d', change part d d' → Touched d i d') : r'.Sound := by
  obtain ⟨record, known, -⟩ := sound.waits p id i waits
  refine sound.reworked (Producer.segments_root (sound.known p record known).1.proper) reworked
    (fun part d d' h => (touched part d d' h).grows) (by rw [store]; rfl) fun q id' k waits' => ?_
  rw [store, get?_slots_freed] at waits'
  split at waits'
  · cases waits'
  · next other =>
    refine ⟨waits', fun own part d d' _ h => (touched part d d' h).keeps ?_⟩
    rintro rfl
    obtain ⟨rfl, rfl⟩ := sound.unshared p id q id' k waits waits' own.symm
    exact other rfl

theorem Sound.responseEnd {id : UInt64} {response : Response} (sound : r.Sound)
    (h : ResponseEnd r p id response r') : r'.Sound := by
  cases h with
  | passed _ same => exact same ▸ sound
  | dropped _ _ _ quiet _ => exact (sound.freed p id).quiet quiet
  | stored waits _ _ answered _ store =>
    exact sound.touched waits store answered fun part d d' h => h.touched

theorem Sound.responseCut {id : UInt64} (sound : r.Sound) (h : ResponseCut r p id r') :
    r'.Sound := by
  obtain ⟨i, waits, touched⟩ := h.touched
  exact sound.touched waits h.store touched fun _ _ _ h => h

/-- One call keeps a recording sound, however it ends. -/
theorem Sound.after (sound : r.Sound) (c : StoreCall) (proper : c.IsProper) :
    (c.after r).Sound := by
  have quiet {c : StoreCall} (h : EndsQuietly c.run r) : (c.after r).Sound :=
    sound.quiet h.quiet.state
  cases c with
  | allocate p inputs response active => exact quiet (ends_allocate sound proper ..)
  | storeVariables p x =>
    refine Ends.state ((ends_storeVariables sound x).mono (fun _ r' => sound.inputsEnd) ?_)
    rintro e r' (rfl | ⟨-, cut⟩)
    · exact sound
    · exact sound.inputsCut proper cut
  | storeResponse p id response =>
    refine Ends.state ((ends_storeResponse sound id response).mono
      (fun _ r' => sound.responseEnd) ?_)
    rintro e r' (rfl | ⟨-, cut⟩)
    · exact sound
    · exact sound.responseCut cut
  | abandon p id => exact sound.freed p id
  | declareSource owner source => exact quiet (ends_declareSource sound proper source)
  | storeParameters p parameters => exact quiet (ends_storeParameters sound proper parameters)
  | addMethodModel id => exact sound.quiet (sound.quiet_addMethodModel id)
  | setTopModel id => exact sound.quiet (sound.quiet_setTopModel id)
  | select models interfaces => exact sound.quiet (sound.quiet_store rfl rfl)

/-- Every recording that calls lead to is sound. -/
theorem Fresh.sound_afterAll (fresh : r.Fresh) {calls : List StoreCall}
    (proper : ∀ c ∈ calls, c.IsProper) : (StoreCall.afterAll r calls).Sound := by
  suffices run : ∀ {r : Recording}, r.Sound → (StoreCall.afterAll r calls).Sound from
    run fresh.sound
  induction calls with
  | nil => exact fun sound => sound
  | cons c calls ih =>
    exact fun sound => ih (fun c' mem => proper c' (List.mem_cons_of_mem c mem))
      (sound.after c (proper c (List.mem_cons_self ..)))

end Recording
end StudyArchive
