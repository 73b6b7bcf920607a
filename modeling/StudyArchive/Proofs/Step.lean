import Mathlib.Tactic.Common
/-
# Steps that may fail

A step of a container, an archive or a recording changes a state and may fail half-way.
`Ends act s good bad` says where a step leads: to a value and a state that are `good`, or to an
error and a state that are `bad`.  It is computed along the step, one rule for each way in which
steps are put together, so that facts about a long step are made of facts about its parts.
-/

namespace StudyArchive

variable {α β ε σ : Type}

/-- A loop that finds something at each of its steps. -/
theorem mapM_eq_some {f : β → Option α} {l : List β} {found : List α}
    (all : l.map f = found.map some) : l.mapM f = some found := by
  induction l generalizing found with
  | nil =>
    cases found with
    | nil => rfl
    | cons => cases all
  | cons x l ih =>
    cases found with
    | nil => cases all
    | cons v found =>
      obtain ⟨head, tail⟩ := List.cons.inj all
      rw [List.mapM_cons, head, ih tail]
      rfl

/-- A sequence of computations succeeds only if each of them does. -/
theorem exists_of_bind_eq_ok {x : Except ε α} {f : α → Except ε β} {b : β}
    (h : x >>= f = .ok b) : ∃ a, x = .ok a ∧ f a = .ok b := by
  cases x with
  | error e => cases h
  | ok a => exact ⟨a, rfl, h⟩

/-- After a computation that succeeds, the next one goes on with its value. -/
theorem bind_of_eq_ok {x : Except ε α} {a : α} (h : x = .ok a) (f : α → Except ε β) :
    x >>= f = f a := by
  rw [h]
  rfl

/-- A sequence of computations fails where one of them does. -/
theorem error_of_bind_eq_error {x : Except ε α} {f : α → Except ε β} {e : ε}
    (h : x >>= f = .error e) : x = .error e ∨ ∃ a, x = .ok a ∧ f a = .error e := by
  cases x with
  | error e' =>
    cases h
    exact .inl rfl
  | ok a => exact .inr ⟨a, rfl, h⟩

theorem exists_of_mapError_eq_error {ε' : Type} {x : Except ε α} {f : ε → ε'} {e : ε'}
    (h : x.mapError f = .error e) : ∃ e', e = f e' := by
  cases x with
  | error e' =>
    cases h
    exact ⟨e', rfl⟩
  | ok v => cases h

theorem eq_ok_of_mapError {ε' : Type} {x : Except ε α} {f : ε → ε'} {v : α}
    (h : x.mapError f = .ok v) : x = .ok v := by
  cases x with
  | error e => cases h
  | ok v' =>
    cases h
    rfl

theorem eq_ok_of_toOption {x : Except ε α} {v : α} (h : x.toOption = some v) : x = .ok v := by
  cases x with
  | error e => cases h
  | ok v' =>
    cases h
    rfl

/-- The state that a step leads to, whether it succeeds or fails. -/
def stateAfter : EStateM.Result ε σ α → σ
  | .ok _ s => s
  | .error _ s => s

/-- The state that a step leads to if it succeeds. -/
def okState? : EStateM.Result ε σ α → Option σ
  | .ok _ s => some s
  | .error .. => none

theorem exists_ok_of_okState? {result : EStateM.Result ε σ α} {s : σ}
    (h : okState? result = some s) : ∃ v, result = .ok v s := by
  cases result with
  | ok v s' =>
    cases h
    exact ⟨v, rfl⟩
  | error e s' => cases h

theorem exists_error_of_okState? {result : EStateM.Result ε σ α} (h : okState? result = none) :
    ∃ e s, result = .error e s := by
  cases result with
  | ok v s => cases h
  | error e s => exact ⟨e, s, rfl⟩

/-- What a step fails with, and the state that it leads to, if it fails. -/
def failure? : EStateM.Result ε σ α → Option (ε × σ)
  | .ok .. => none
  | .error e s => some (e, s)

theorem eq_error_of_failure? {result : EStateM.Result ε σ α} {e : ε} {s : σ}
    (h : failure? result = some (e, s)) : result = .error e s := by
  cases result with
  | ok v s' => cases h
  | error e' s' =>
    cases h
    rfl

/-! ## One step after the other

Equations of sequencing, for steps whose first part is known to succeed or fail. -/

theorem get_bind (next : σ → EStateM ε σ α) (s : σ) : (get >>= next) s = next s s := rfl

theorem bind_eq_of_ok {x : EStateM ε σ α} {s s' : σ} {v : α} (h : x s = .ok v s')
    (f : α → EStateM ε σ β) : (x >>= f) s = f v s' := by
  show EStateM.bind x f s = _
  unfold EStateM.bind
  rw [h]

theorem bind_eq_of_error {x : EStateM ε σ α} {s s' : σ} {e : ε} (h : x s = .error e s')
    (f : α → EStateM ε σ β) : (x >>= f) s = .error e s' := by
  show EStateM.bind x f s = _
  unfold EStateM.bind
  rw [h]

theorem exists_of_step_eq_ok {x : EStateM ε σ α} {f : α → EStateM ε σ β} {s t : σ} {v : β}
    (h : (x >>= f) s = .ok v t) : ∃ u s', x s = .ok u s' ∧ f u s' = .ok v t := by
  cases ran : x s with
  | ok u s' => exact ⟨u, s', rfl, (bind_eq_of_ok ran f).symm.trans h⟩
  | error e s' => cases (bind_eq_of_error ran f).symm.trans h

/-- Steps that begin alike and go on alike are alike. -/
theorem bind_eq_of_eq {first first' : EStateM ε σ α} {s : σ} (next : α → EStateM ε σ β)
    (same : first s = first' s) : (first >>= next) s = (first' >>= next) s := by
  show EStateM.bind first next s = EStateM.bind first' next s
  unfold EStateM.bind
  rw [same]

/-- What comes after a step and only tells something about the state is not needed for the step. -/
theorem map_bind_eq {act : EStateM ε σ Unit} {told : Unit → EStateM ε σ α} {s : σ}
    (tells : ∀ s, ∃ v, told () s = .ok v s) :
    ((fun _ => ()) <$> (act >>= told)) s = act s := by
  show EStateM.map _ (EStateM.bind act told) s = act s
  unfold EStateM.map EStateM.bind
  cases act s with
  | error e s' => rfl
  | ok v s' =>
    obtain ⟨_, eq⟩ := tells s'
    simp only [eq]

/-! ## Where a step leads

One rule for each way to put steps together.  The rules are equivalences where this is possible,
so that `simp` can go along a step. -/

/-- A step succeeds with a good value and state, or fails with a bad error and state. -/
def Ends (act : EStateM ε σ α) (s : σ) (good : α → σ → Prop) (bad : ε → σ → Prop) : Prop :=
  match act s with
  | .ok v s' => good v s'
  | .error e s' => bad e s'

section
variable {s : σ} {good : α → σ → Prop} {bad : ε → σ → Prop}

@[simp] theorem ends_pure {v : α} : Ends (pure v) s good bad ↔ good v s := Iff.rfl

@[simp] theorem ends_throw {e : ε} : Ends (throw e) s good bad ↔ bad e s := Iff.rfl

@[simp] theorem ends_get {good : σ → σ → Prop} : Ends get s good bad ↔ good s s := Iff.rfl

@[simp] theorem ends_modify {f : σ → σ} {good : Unit → σ → Prop} :
    Ends (modify f) s good bad ↔ good () (f s) := Iff.rfl

@[simp] theorem ends_set {t : σ} {good : PUnit → σ → Prop} :
    Ends (set t) s good bad ↔ good () t := Iff.rfl

@[simp] theorem ends_bind {act : EStateM ε σ β} {next : β → EStateM ε σ α} :
    Ends (act >>= next) s good bad ↔
      Ends act s (fun v s' => Ends (next v) s' good bad) bad := by
  show (match EStateM.bind act next s with
    | .ok v s' => good v s'
    | .error e s' => bad e s') ↔ _
  unfold EStateM.bind Ends
  cases act s <;> rfl

/-- A step goes on from where its first part leads. -/
theorem ends_bind_of_ok {x : EStateM ε σ α} {f : α → EStateM ε σ β} {s s' : σ} {v : α}
    {good : β → σ → Prop} {bad : ε → σ → Prop} (h : x s = .ok v s')
    (rest : Ends (f v) s' good bad) : Ends (x >>= f) s good bad := by
  unfold Ends at rest ⊢
  rwa [bind_eq_of_ok h]

@[simp] theorem ends_liftExcept_ok {v : α} :
    Ends (liftExcept (.ok v : Except ε α)) s good bad ↔ good v s := Iff.rfl

@[simp] theorem ends_liftExcept_error {e : ε} :
    Ends (liftExcept (.error e : Except ε α)) s good bad ↔ bad e s := Iff.rfl

theorem ends_liftExcept {x : Except ε α} :
    Ends (liftExcept x) s good bad ↔
      (∀ v, x = .ok v → good v s) ∧ (∀ e, x = .error e → bad e s) := by
  cases x <;> simp

@[simp] theorem ends_map {act : EStateM ε σ β} {f : β → α} :
    Ends (f <$> act) s good bad ↔ Ends act s (fun v s' => good (f v) s') bad := by
  show (match EStateM.map f act s with
    | .ok v s' => good v s'
    | .error e s' => bad e s') ↔ _
  unfold EStateM.map Ends
  cases act s <;> rfl

@[simp] theorem ends_adaptExcept {ε' : Type} {act : EStateM ε' σ α} {f : ε' → ε} :
    Ends (act.adaptExcept f) s good bad ↔ Ends act s good (fun e s' => bad (f e) s') := by
  show (match EStateM.adaptExcept f act s with
    | .ok v s' => good v s'
    | .error e s' => bad e s') ↔ _
  unfold EStateM.adaptExcept Ends
  cases act s <;> rfl

theorem ends_ite {c : Prop} [Decidable c] {yes no : EStateM ε σ α} :
    Ends (if c then yes else no) s good bad ↔
      (c → Ends yes s good bad) ∧ (¬c → Ends no s good bad) := by
  split <;> simp_all

end

namespace Ends

variable {act : EStateM ε σ α} {s : σ} {good good' : α → σ → Prop} {bad bad' : ε → σ → Prop}

theorem mono (h : Ends act s good bad) (goodImp : ∀ v s', good v s' → good' v s')
    (badImp : ∀ e s', bad e s' → bad' e s') : Ends act s good' bad' := by
  unfold Ends at h ⊢
  split
  · next eq => rw [eq] at h; exact goodImp _ _ h
  · next eq => rw [eq] at h; exact badImp _ _ h

theorem imp (h : Ends act s good bad) (goodImp : ∀ v s', good v s' → good' v s') :
    Ends act s good' bad :=
  h.mono goodImp fun _ _ failed => failed

/-- Two steps, the second one from wherever the first one ends well. -/
theorem bind {next : α → EStateM ε σ β} {last : β → σ → Prop} (h : Ends act s good bad)
    (rest : ∀ v s', good v s' → Ends (next v) s' last bad) : Ends (act >>= next) s last bad :=
  ends_bind.2 (h.imp rest)

theorem good_of_eq (h : Ends act s good bad) {v : α} {s' : σ} (eq : act s = .ok v s') :
    good v s' := by
  unfold Ends at h
  rwa [eq] at h

/-- A step that cannot fail succeeds. -/
theorem exists_ok (h : Ends act s good fun _ _ => False) :
    ∃ v s', act s = .ok v s' ∧ good v s' := by
  unfold Ends at h
  split at h
  · next v s' eq => exact ⟨v, s', eq, h⟩
  · exact h.elim

theorem bad_of_eq (h : Ends act s good bad) {e : ε} {s' : σ} (eq : act s = .error e s') :
    bad e s' := by
  unfold Ends at h
  rwa [eq] at h

/-- A fact about the state after a step, whichever way it ends. -/
theorem state {P : σ → Prop} (h : Ends act s (fun _ => P) (fun _ => P)) :
    P (stateAfter (act s)) := by
  unfold Ends at h
  unfold stateAfter
  split at h <;> simp_all

theorem and (h : Ends act s good bad) (h' : Ends act s good' bad') :
    Ends act s (fun v s' => good v s' ∧ good' v s') (fun e s' => bad e s' ∧ bad' e s') := by
  unfold Ends at h h' ⊢
  split <;> simp_all

end Ends

theorem ends_result {act : EStateM ε σ α} {s : σ} {P : EStateM.Result ε σ α → Prop} :
    Ends act s (fun v s' => P (.ok v s')) (fun e s' => P (.error e s')) ↔ P (act s) := by
  unfold Ends
  cases act s <;> exact Iff.rfl

theorem ends_of_forall {act : EStateM ε σ α} {s : σ} {good : α → σ → Prop} {bad : ε → σ → Prop}
    (ok : ∀ v s', act s = .ok v s' → good v s')
    (error : ∀ e s', act s = .error e s' → bad e s') : Ends act s good bad := by
  unfold Ends
  split
  · exact ok _ _ ‹_›
  · exact error _ _ ‹_›

/-- A fact about the state after a step is true whichever way it ends. -/
theorem ends_of_stateAfter {act : EStateM ε σ α} {s : σ} {P : σ → Prop}
    (h : P (stateAfter (act s))) : Ends act s (fun _ => P) (fun _ => P) := by
  refine ends_of_forall (fun v s' eq => ?_) fun e s' eq => ?_ <;> rwa [eq] at h

-- A step is followed by the rules above; to run it is never what a proof wants.
attribute [irreducible] Ends

/-! ## Facts that steps keep -/

/-- Steps that keep a fact about the state, whichever way they end. -/
def Preserves (I : σ → Prop) (act : EStateM ε σ α) : Prop :=
  ∀ s, I s → Ends act s (fun _ => I) (fun _ => I)

namespace Preserves

variable {I : σ → Prop}

theorem pure (v : α) : Preserves I (Pure.pure v : EStateM ε σ α) := fun _ here => ends_pure.2 here

theorem throw (e : ε) : Preserves I (throw e : EStateM ε σ α) := fun _ here => ends_throw.2 here

theorem liftExcept (x : Except ε α) : Preserves I (liftExcept x : EStateM ε σ α) :=
  fun _ here => ends_liftExcept.2 ⟨fun _ _ => here, fun _ _ => here⟩

theorem bind {act : EStateM ε σ α} {next : α → EStateM ε σ β} (h : Preserves I act)
    (h' : ∀ v, Preserves I (next v)) : Preserves I (act >>= next) :=
  fun s here => ends_bind.2 ((h s here).mono (fun v s' => h' v s') fun _ _ bad => bad)

theorem get {next : σ → EStateM ε σ α} (h : ∀ s, Preserves I (next s)) :
    Preserves I (get >>= next) :=
  fun s here => ends_bind.2 (ends_get.2 (h s s here))

theorem ite {c : Prop} [Decidable c] {yes no : EStateM ε σ α} (h : Preserves I yes)
    (h' : Preserves I no) : Preserves I (if c then yes else no) := by
  split
  · exact h
  · exact h'

theorem forM {f : β → EStateM ε σ PUnit} {l : List β} (h : ∀ x, Preserves I (f x)) :
    Preserves I (l.forM f) := by
  induction l with
  | nil => exact pure PUnit.unit
  | cons x l ih => exact bind (h x) fun _ => ih

/-- A step that is refused unless something is true. -/
theorem guarded {c : Prop} [Decidable c] {e : ε} {next : EStateM ε σ α} (h : Preserves I next) :
    Preserves I (do
      unless c do
        MonadExcept.throw e
      next) :=
  ite h (bind (throw e) fun _ => h)

theorem after {act : EStateM ε σ α} (h : Preserves I act) {s : σ} (here : I s) :
    I (stateAfter (act s)) := (h s here).state

end Preserves

end StudyArchive
