import StudyArchive.Proofs.Step
/-
# Two runs side by side

A step that does not look at everything in a state does the same from any two states that agree on
what it looks at.  `Together R x y s t` says so of two runs: both succeed, with one value, or both
fail, with one error, and the states that they lead to are related by `R`.  Like `Ends`, it is
computed along the step, one rule for each way in which steps are put together.
-/

namespace StudyArchive

variable {α β ε σ : Type}

/-- What a step comes to, apart from the state that it leads to. -/
def outcome : EStateM.Result ε σ α → Except ε α
  | .ok v _ => .ok v
  | .error e _ => .error e

/-- Two steps end alike, in states that are related. -/
inductive Together (R : σ → σ → Prop) (x y : EStateM ε σ α) (s t : σ) : Prop
  | ok {v : α} {s' t' : σ} (left : x s = .ok v s') (right : y t = .ok v t') (related : R s' t')
  | error {e : ε} {s' t' : σ} (left : x s = .error e s') (right : y t = .error e t')
      (related : R s' t')

section
variable {R : σ → σ → Prop} {x y : EStateM ε σ α} {s t : σ}

theorem together_pure {v : α} (h : R s t) :
    Together R (pure v : EStateM ε σ α) (pure v) s t := .ok rfl rfl h

theorem together_throw {e : ε} (h : R s t) :
    Together R (throw e : EStateM ε σ α) (throw e) s t := .error rfl rfl h

theorem together_modify {f g : σ → σ} (h : R (f s) (g t)) :
    Together R (modify f : EStateM ε σ PUnit) (modify g) s t := .ok rfl rfl h

namespace Together

theorem bind {f g : α → EStateM ε σ β} (first : Together R x y s t)
    (next : ∀ v s' t', R s' t' → Together R (f v) (g v) s' t') :
    Together R (x >>= f) (y >>= g) s t := by
  cases first with
  | @ok v s' t' left right related =>
    cases next v s' t' related with
    | ok left' right' related =>
      exact .ok ((bind_eq_of_ok left f).trans left') ((bind_eq_of_ok right g).trans right') related
    | error left' right' related =>
      exact .error ((bind_eq_of_ok left f).trans left') ((bind_eq_of_ok right g).trans right')
        related
  | error left right related =>
    exact .error (bind_eq_of_error left f) (bind_eq_of_error right g) related

/-- A check that does not look at the states comes to the same. -/
theorem check {x : Except ε β} {f g : β → EStateM ε σ α} (h : R s t)
    (next : ∀ v, x = .ok v → Together R (f v) (g v) s t) :
    Together R (liftExcept x >>= f) (liftExcept x >>= g) s t := by
  cases x with
  | ok v => exact next v rfl
  | error e => exact together_throw h

/-- Checks that come to the same apart from what a function forgets of their values. -/
theorem checkMap {γ : Type} {x y : Except ε β} {forget : β → γ} {f g : β → EStateM ε σ α}
    (h : R s t) (same : x.map forget = y.map forget)
    (next : ∀ u v, x = .ok u → y = .ok v → forget u = forget v → Together R (f u) (g v) s t) :
    Together R (liftExcept x >>= f) (liftExcept y >>= g) s t := by
  cases x with
  | ok u =>
    cases y with
    | ok v => exact next u v rfl rfl (Except.ok.inj same)
    | error e => cases same
  | error e =>
    cases y with
    | ok v => cases same
    | error e' =>
      cases same
      exact together_throw h

theorem get {f g : σ → EStateM ε σ β} (next : Together R (f s) (g t) s t) :
    Together R (get >>= f) (get >>= g) s t := by
  cases next with
  | ok left right related => exact .ok left right related
  | error left right related => exact .error left right related

theorem ite {c : Prop} [Decidable c] {x' y' : EStateM ε σ α} (yes : c → Together R x y s t)
    (no : ¬c → Together R x' y' s t) :
    Together R (if c then x else x') (if c then y else y') s t := by
  split
  · exact yes ‹_›
  · exact no ‹_›

/-- Steps one after the other, for each member of a list. -/
theorem forM {f g : β → EStateM ε σ PUnit} {l : List β} (h : R s t)
    (each : ∀ x ∈ l, ∀ s' t', R s' t' → Together R (f x) (g x) s' t') :
    Together R (l.forM f) (l.forM g) s t := by
  induction l generalizing s t with
  | nil => exact together_pure h
  | cons x l ih =>
    exact (each x List.mem_cons_self s t h).bind fun _ s' t' h' =>
      ih h' fun y mem => each y (List.mem_cons_of_mem x mem)

/-- Where one run leads, the other one does. -/
theorem exists_ok (h : Together R x y s t) {v : α} {s' : σ} (ran : x s = .ok v s') :
    ∃ t', y t = .ok v t' ∧ R s' t' := by
  cases h with
  | ok left right related =>
    cases left.symm.trans ran
    exact ⟨_, right, related⟩
  | error left _ _ => cases left.symm.trans ran

/-- What is known of each run by itself is known of the two besides. -/
theorem also {P Q : σ → Prop} (h : Together R x y s t) (left : Ends x s (fun _ => P) fun _ => P)
    (right : Ends y t (fun _ => Q) fun _ => Q) :
    Together (fun s t => R s t ∧ P s ∧ Q t) x y s t := by
  cases h with
  | ok ran ran' related => exact .ok ran ran' ⟨related, left.good_of_eq ran, right.good_of_eq ran'⟩
  | error ran ran' related =>
    exact .error ran ran' ⟨related, left.bad_of_eq ran, right.bad_of_eq ran'⟩

theorem mono {R' : σ → σ → Prop} (h : Together R x y s t) (imp : ∀ s t, R s t → R' s t) :
    Together R' x y s t := by
  cases h with
  | ok left right related => exact .ok left right (imp _ _ related)
  | error left right related => exact .error left right (imp _ _ related)

/-- What two runs come to, apart from their states, is the same. -/
theorem outcome_eq (h : Together R x y s t) : outcome (x s) = outcome (y t) := by
  cases h with
  | ok left right _ =>
    rw [left, right]
    rfl
  | error left right _ =>
    rw [left, right]
    rfl

/-- The states that two runs lead to, whichever way they end. -/
theorem state (h : Together R x y s t) : R (stateAfter (x s)) (stateAfter (y t)) := by
  cases h with
  | ok left right related =>
    rw [left, right]
    exact related
  | error left right related =>
    rw [left, right]
    exact related

end Together

end

end StudyArchive
