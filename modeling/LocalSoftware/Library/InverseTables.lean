import Mathlib.Logic.Function.Basic

/-!
# Two tables that are inverse to each other

A pair of tables renames the keys of one kind to those of another and back. `Inverse` says that the
two agree entry by entry. A pair of new keys is entered in both tables, and `Extends` is what happens
to a table into which only new keys are entered.
-/

set_option autoImplicit false

namespace LocalSoftware

variable {α β : Type} {forth : α → Option β} {back : β → Option α} {a : α} {b : β}

/-- Each entry of one table is an entry of the other. -/
def Inverse (forth : α → Option β) (back : β → Option α) : Prop :=
  ∀ a b, forth a = some b ↔ back b = some a

theorem inverse_empty : Inverse (fun _ : α => (none : Option β)) fun _ => none := by
  intro a b
  exact iff_of_false (fun h => nomatch h) fun h => nomatch h

/-- Two keys without an entry are paired. -/
theorem Inverse.enter [DecidableEq α] [DecidableEq β] (h : Inverse forth back) (ha : forth a = none)
    (hb : back b = none) :
    Inverse (Function.update forth a (some b)) (Function.update back b (some a)) := by
  intro x y
  simp only [Function.update_apply]
  by_cases hx : x = a
  · by_cases hy : y = b
    · rw [if_pos hx, if_pos hy, hx, hy]
      exact iff_of_true rfl rfl
    · rw [if_pos hx, if_neg hy]
      refine iff_of_false (fun heq => hy (Option.some.inj heq).symm) fun hback => ?_
      rw [hx, ← h, ha] at hback
      cases hback
  · by_cases hy : y = b
    · rw [if_neg hx, if_pos hy]
      refine iff_of_false (fun hforth => ?_) fun heq => hx (Option.some.inj heq).symm
      rw [hy, h, hb] at hforth
      cases hforth
    · rw [if_neg hx, if_neg hy]
      exact h x y

/-- The entries of a table are kept. -/
def Extends (forth forth' : α → Option β) : Prop := ∀ a b, forth a = some b → forth' a = some b

theorem Extends.refl (forth : α → Option β) : Extends forth forth := fun _ _ h => h

theorem Extends.enter [DecidableEq α] (ha : forth a = none) (o : Option β) :
    Extends forth (Function.update forth a o) := by
  intro x y hx
  rw [Function.update_of_ne, hx]
  rintro rfl
  rw [ha] at hx
  cases hx

end LocalSoftware
