import DynamicObjects.Run
import Mathlib.Logic.Relation

/-!
Reasoning about runs. A few judgements say what is needed of a computation, and each of them holds of
a sequence when it holds of its parts: `Within R x` bounds what `x` does to the state, however it
ends; `Ends R Q w x` does so from one state and describes the value and the state if there is a
value; `Returns Q x` describes the value alone; `Answers I x a` says that `x` does give a value, and
always `a`, from every state in `I`, where it ends again; `Gives I Q x` says that `x` stays in `I` and
describes the value, if `x` gives one.
-/
namespace DynamicObjects.Run

variable {α β : Type}

theorem bind_apply (x : Run α) (f : α → Run β) (w : World) :
    (x >>= f) w =
      match x w with
      | (.ok a, w) => f a w
      | (.error e, w) => (.error e, w)
      | (.outOfFuel, w) => (.outOfFuel, w) := rfl

theorem bind_cases {x : Run α} {f : α → Run β} {w : World} {R : Outcome β × World → Prop}
    (ok : ∀ a w₁, x w = (.ok a, w₁) → R (f a w₁))
    (error : ∀ e w₁, x w = (.error e, w₁) → R (.error e, w₁))
    (fuel : ∀ w₁, x w = (.outOfFuel, w₁) → R (.outOfFuel, w₁)) : R ((x >>= f) w) := by
  obtain ⟨outcome, w₁, h⟩ : ∃ outcome w₁, x w = (outcome, w₁) := ⟨_, _, rfl⟩
  cases outcome with
  | ok a => rw [bind_ok h]; exact ok a w₁ h
  | error e => rw [bind_error h]; exact error e w₁ h
  | outOfFuel => rw [bind_outOfFuel h]; exact fuel w₁ h

theorem bind_eq_ok {x : Run α} {f : α → Run β} {w w' : World} {b : β}
    (h : (x >>= f) w = (.ok b, w')) : ∃ a w₁, x w = (.ok a, w₁) ∧ f a w₁ = (.ok b, w') := by
  revert h
  refine bind_cases (R := fun p => p = (.ok b, w') → _) ?_ ?_ ?_
  · intro a w₁ hx hf
    exact ⟨a, w₁, hx, hf⟩
  · intro e w₁ _ h
    simp at h
  · intro w₁ _ h
    simp at h

inductive Failure
  | error (e : Error)
  | outOfFuel

def Failure.outcome : Failure → Outcome α
  | error e => .error e
  | outOfFuel => .outOfFuel

theorem bind_failure {x : Run α} {f : α → Run β} {w w' : World} {failure : Failure}
    (h : x w = (failure.outcome, w')) : (x >>= f) w = (failure.outcome, w') := by
  cases failure with
  | error e => exact bind_error h
  | outOfFuel => exact bind_outOfFuel h

theorem outcome_cases (x : Run α) (w : World) :
    (∃ a w', x w = (.ok a, w')) ∨ ∃ failure w', x w = (Failure.outcome failure, w') := by
  obtain ⟨outcome, w', ran⟩ : ∃ outcome w', x w = (outcome, w') := ⟨_, _, rfl⟩
  cases outcome with
  | ok a => exact .inl ⟨a, w', ran⟩
  | error e => exact .inr ⟨.error e, w', ran⟩
  | outOfFuel => exact .inr ⟨.outOfFuel, w', ran⟩

theorem attempt_cases (x : Run α) (w : World) :
    (∃ result w', x.attempt w = (.ok result, w')) ∨ ∃ w', x.attempt w = (.outOfFuel, w') := by
  unfold attempt
  split
  · exact .inl ⟨_, _, rfl⟩
  · exact .inl ⟨_, _, rfl⟩
  · exact .inr ⟨_, rfl⟩

theorem bind_pure_right (x : Run α) : (x >>= Pure.pure) = x := by
  funext w
  rw [bind_apply]
  rcases x w with ⟨_ | _ | _, _⟩ <;> rfl

theorem bind_bind {γ : Type} (x : Run α) (f : α → Run β) (g : β → Run γ) :
    (x >>= f >>= g) = (x >>= fun a => f a >>= g) := by
  funext w
  rw [bind_apply, bind_apply, bind_apply]
  rcases x w with ⟨_ | _ | _, _⟩ <;> rfl

instance : LawfulMonad Run :=
  LawfulMonad.mk' _ bind_pure_right (fun _ _ => rfl) bind_bind

def Within (R : World → World → Prop) (x : Run α) : Prop := ∀ w, R w (x w).2

section Within

variable {R : World → World → Prop} [IsPreorder World R] {x : Run α} {f : α → Run β}

theorem within_pure (a : α) : Within R (Pure.pure a : Run α) := fun w => refl_of R w

theorem within_raise (e : Error) : Within R (raise e : Run α) := fun w => refl_of R w

theorem within_outOfFuel : Within R (outOfFuel : Run α) := fun w => refl_of R w

theorem within_ofExcept (x : Except Error α) : Within R (ofExcept x) := by
  cases x with
  | ok a => exact within_pure a
  | error e => exact within_raise e

theorem within_read (g : World → α) : Within R (read g) := fun w => refl_of R w

theorem within_readStore (g : Store → α) : Within R (readStore g) := within_read _

theorem within_bind (hx : Within R x) (hf : ∀ a, Within R (f a)) : Within R (x >>= f) := by
  intro w
  refine bind_cases (R := fun p => R w p.2) ?_ ?_ ?_
  · intro a w₁ h
    have first : R w w₁ := by simpa [h] using hx w
    exact trans_of R first (hf a w₁)
  · intro e w₁ h
    simpa [h] using hx w
  · intro w₁ h
    simpa [h] using hx w

omit [IsPreorder World R] in
theorem within_attempt (hx : Within R x) : Within R x.attempt := by
  intro w
  have h := hx w
  unfold attempt
  split <;> simp_all

end Within

def Ends (R : World → World → Prop) (Q : α → World → Prop) (w : World) (x : Run α) : Prop :=
  R w (x w).2 ∧ ∀ a, (x w).1 = .ok a → Q a (x w).2

section Ends

variable {R : World → World → Prop} {P : α → World → Prop} {Q : β → World → Prop} {w w' : World}

theorem ends_of_failure {x : Run α} {outcome : Outcome α} (h : x w = (outcome, w')) (hR : R w w')
    (failed : ∀ a, outcome ≠ .ok a) : Ends R P w x := by
  unfold Ends
  rw [h]
  exact ⟨hR, fun a ok => absurd ok (failed a)⟩

theorem ends_of_ok {x : Run α} {a : α} (h : x w = (.ok a, w')) (hR : R w w') (hP : P a w') :
    Ends R P w x := by
  unfold Ends
  rw [h]
  refine ⟨hR, ?_⟩
  rintro b ⟨⟩
  exact hP

theorem ends_bind [IsPreorder World R] {x : Run α} {f : α → Run β} (hx : Ends R P w x)
    (hf : ∀ a w₁, R w w₁ → P a w₁ → Ends R Q w₁ (f a)) : Ends R Q w (x >>= f) := by
  unfold Ends at hx
  refine bind_cases (R := fun p => R w p.2 ∧ ∀ b, p.1 = .ok b → Q b p.2) ?_ ?_ ?_
  · intro a w₁ h
    rw [h] at hx
    obtain ⟨rest, ends⟩ := hf a w₁ hx.1 (hx.2 a rfl)
    exact ⟨trans_of R hx.1 rest, ends⟩
  · intro e w₁ h
    rw [h] at hx
    exact ⟨hx.1, nofun⟩
  · intro w₁ h
    rw [h] at hx
    exact ⟨hx.1, nofun⟩

end Ends

def Returns (Q : α → Prop) (x : Run α) : Prop := ∀ w a w', x w = (.ok a, w') → Q a

theorem returns_pure {Q : α → Prop} {a : α} (h : Q a) : Returns Q (Pure.pure a) := by
  intro w b w' hb
  simp only [pure_apply, Prod.mk.injEq, Outcome.ok.injEq] at hb
  exact hb.1 ▸ h

theorem returns_raise {Q : α → Prop} (e : Error) : Returns Q (raise e) := by
  intro w a w' ran
  cases (Prod.mk.inj ran).1

theorem returns_outOfFuel {Q : α → Prop} : Returns Q outOfFuel := by
  intro w a w' ran
  cases (Prod.mk.inj ran).1

theorem returns_bind {P : α → Prop} {Q : β → Prop} {x : Run α} {f : α → Run β}
    (hx : Returns P x) (hf : ∀ a, P a → Returns Q (f a)) : Returns Q (x >>= f) := by
  intro w b w' h
  obtain ⟨a, w₁, ha, hb⟩ := bind_eq_ok h
  exact hf a (hx w a w₁ ha) w₁ b w' hb

theorem returns_true (x : Run α) : Returns (fun _ => True) x := fun _ _ _ _ => trivial

def Answers (I : World → Prop) (x : Run α) (a : α) : Prop :=
  ∀ w, I w → ∃ w', x w = (.ok a, w') ∧ I w'

section Answers

variable {I : World → Prop} {x : Run α} {f : α → Run β} {a : α} {b : β}

theorem answers_pure : Answers I (Pure.pure a) a := fun w h => ⟨w, rfl, h⟩

theorem answers_bind (hx : Answers I x a) (hf : Answers I (f a) b) : Answers I (x >>= f) b := by
  intro w h
  obtain ⟨w₁, h₁, i₁⟩ := hx w h
  rw [bind_ok h₁]
  exact hf w₁ i₁

end Answers

/-- The run gives a value with a property, from every state in `I`, and ends in `I` again. -/
def Yields (I : World → Prop) (Q : α → Prop) (x : Run α) : Prop :=
  ∀ w, I w → ∃ a w', x w = (.ok a, w') ∧ I w' ∧ Q a

section Yields

variable {I : World → Prop} {P : α → Prop} {Q : β → Prop} {x : Run α} {f : α → Run β}

theorem yields_pure {a : α} (h : P a) : Yields I P (Pure.pure a) := fun w i => ⟨a, w, rfl, i, h⟩

theorem yields_bind (hx : Yields I P x) (hf : ∀ a, P a → Yields I Q (f a)) :
    Yields I Q (x >>= f) := by
  intro w i
  obtain ⟨a, w₁, ran, i₁, p⟩ := hx w i
  rw [bind_ok ran]
  exact hf a p w₁ i₁

theorem Yields.imp {P' : α → Prop} (h : Yields I P x) (weaker : ∀ a, P a → P' a) :
    Yields I P' x := by
  intro w i
  obtain ⟨a, w', ran, i', p⟩ := h w i
  exact ⟨a, w', ran, i', weaker a p⟩

theorem Answers.yields {a : α} (h : Answers I x a) : Yields I (fun answer => answer = a) x := by
  intro w i
  obtain ⟨w', ran, i'⟩ := h w i
  exact ⟨a, w', ran, i', rfl⟩

end Yields

/-- From a state in `I`, if the run gives a value, the value has the property and the state is in `I`
again. -/
def Gives (I : World → Prop) (Q : α → Prop) (x : Run α) : Prop :=
  ∀ w a w', I w → x w = (.ok a, w') → I w' ∧ Q a

section Gives

variable {I : World → Prop} {P : α → Prop} {Q : β → Prop} {x : Run α} {f : α → Run β}

theorem gives_pure {a : α} (h : P a) : Gives I P (Pure.pure a) := by
  intro w b w' i ran
  obtain ⟨same, rfl⟩ := Prod.mk.inj ran
  obtain rfl := Outcome.ok.inj same
  exact ⟨i, h⟩

theorem gives_raise (e : Error) : Gives I P (raise e) := by
  intro w a w' _ ran
  cases (Prod.mk.inj ran).1

theorem gives_outOfFuel : Gives I P outOfFuel := by
  intro w a w' _ ran
  cases (Prod.mk.inj ran).1

theorem gives_readStore {g : Store → α} (h : ∀ w, I w → P (g w.store)) :
    Gives I P (readStore g) := by
  intro w a w' i ran
  obtain ⟨same, rfl⟩ := Prod.mk.inj ran
  obtain rfl := Outcome.ok.inj same
  exact ⟨i, h w i⟩

theorem gives_bind (hx : Gives I P x) (hf : ∀ a, P a → Gives I Q (f a)) :
    Gives I Q (x >>= f) := by
  intro w b w' i ran
  obtain ⟨a, w₁, first, second⟩ := bind_eq_ok ran
  obtain ⟨i₁, p⟩ := hx w a w₁ i first
  exact hf a p w₁ b w' i₁ second

theorem Gives.imp {P' : α → Prop} (h : Gives I P x) (weaker : ∀ a, P a → P' a) : Gives I P' x := by
  intro w a w' i ran
  obtain ⟨i', p⟩ := h w a w' i ran
  exact ⟨i', weaker a p⟩

end Gives

/-- A judgement about the values of runs that holds of a sequence when it holds of its parts. What is
proved for every judgement is known of runs that may fail and of runs that end well. -/
structure Judgement where
  Holds : {α : Type} → (α → Prop) → Run α → Prop
  pure : ∀ {α : Type} {Q : α → Prop} {a : α}, Q a → Holds Q (Pure.pure a)
  bind : ∀ {α β : Type} {P : α → Prop} {Q : β → Prop} {x : Run α} {f : α → Run β},
    Holds P x → (∀ a, P a → Holds Q (f a)) → Holds Q (x >>= f)

namespace Judgement

theorem imp (J : Judgement) {P Q : α → Prop} {x : Run α} (h : J.Holds P x)
    (weaker : ∀ a, P a → Q a) : J.Holds Q x := by
  rw [← bind_pure_right x]
  exact J.bind h fun a p => J.pure (weaker a p)

/-- The run does to the state what `R` allows, and its value, if it has one, has the property. -/
def within (R : World → World → Prop) [IsPreorder World R] : Judgement where
  Holds Q x := ∀ w, Ends R (fun a _ => Q a) w x
  pure q w := ends_of_ok rfl (refl_of R w) q
  bind hx hf w := ends_bind (hx w) fun a w₁ _ p => hf a p w₁

/-- The run is a sequence of undisturbed steps; if it fails, then because of what stopped it after
such a sequence. -/
def untilStopped (U : World → World → Prop) [IsPreorder World U] (Stop : World → Failure → World → Prop) :
    Judgement where
  Holds Q x := ∀ w, (∃ a w', x w = (.ok a, w') ∧ U w w' ∧ Q a) ∨
    ∃ w₁ failure w', U w w₁ ∧ Stop w₁ failure w' ∧ x w = (failure.outcome, w')
  pure q w := .inl ⟨_, w, rfl, refl_of U w, q⟩
  bind := by
    intro α β P Q x f hx hf w
    rcases hx w with ⟨a, w₁, ran, steps, p⟩ | ⟨w₁, failure, w', steps, stopped, ran⟩
    · rw [bind_ok ran]
      rcases hf a p w₁ with ⟨b, w₂, ran', steps', q⟩ | ⟨w₂, failure, w', steps', stopped, ran'⟩
      · exact .inl ⟨b, w₂, ran', trans_of U steps steps', q⟩
      · exact .inr ⟨w₂, failure, w', trans_of U steps steps', stopped, ran'⟩
    · exact .inr ⟨w₁, failure, w', steps, stopped, bind_failure ran⟩

def yields (I : World → Prop) : Judgement where
  Holds := Yields I
  pure := yields_pure
  bind := yields_bind

end Judgement

end DynamicObjects.Run
