/-!
# Outcomes of computations that may fail

`Delivers pre x Q` says of a computation that `Q` holds of its result whenever it returns, and that it
returns if `pre` holds. The rules say how outcomes compose, so that what a computation keeps and why
it may fail are proved in one go.
-/

set_option autoImplicit false

namespace LocalSoftware

variable {E α β : Type} {pre : Prop} {x : Except E α} {a : α} {Q R : α → Prop}

/-- A result of the computation has `Q`, and under the condition `pre` there is one. -/
structure Delivers (pre : Prop) (x : Except E α) (Q : α → Prop) : Prop where
  keeps : ∀ a, x = .ok a → Q a
  returns : pre → ∃ a, x = .ok a

namespace Delivers

theorem ok (h : Q a) : Delivers pre (.ok a : Except E α) Q where
  keeps _ heq := Except.ok.inj heq ▸ h
  returns _ := ⟨a, rfl⟩

/-- A computation fails only where the condition does. -/
theorem error (e : E) (h : ¬ pre) : Delivers pre (.error e : Except E α) Q where
  keeps _ heq := by cases heq
  returns hpre := absurd hpre h

theorem mono (h : Delivers pre x Q) (hQ : ∀ a, Q a → R a) : Delivers pre x R where
  keeps a heq := hQ a (h.keeps a heq)
  returns := h.returns

/-- A computation that goes on with the result of another one, and passes its error on. -/
theorem next {y : Except E β} {S : β → Prop} (h : Delivers pre x Q)
    (herror : ∀ e, x = .error e → y = .error e) (hok : ∀ a, x = .ok a → Q a → Delivers pre y S) :
    Delivers pre y S := by
  cases hx : x with
  | error e =>
    rw [herror e hx]
    refine .error e fun hpre => ?_
    obtain ⟨a, ha⟩ := h.returns hpre
    rw [hx] at ha
    cases ha
  | ok a => exact hok a hx (h.keeps a hx)

/-- One computation after the other. -/
theorem bind {f : α → Except E β} {S : β → Prop} (h : Delivers pre x Q)
    (hf : ∀ a, Q a → Delivers pre (f a) S) : Delivers pre (x >>= f) S := by
  refine h.next (fun e hx => ?_) fun a hx hQ => ?_
  · rw [hx]
    rfl
  · rw [hx]
    exact hf a hQ

end Delivers

end LocalSoftware
