import Mathlib.Data.List.Basic

/-!
# Queues whose elements depend on what is in front of them

`Preceded R l` says that each element of `l` is related by `R` to the elements in front of it. A push
to the back needs the relation for the new element (`preceded_concat`); taking the front element
moves it into the relation of all others (`preceded_cons`).
-/

set_option autoImplicit false

namespace LocalSoftware

variable {α : Type} {R S : α → List α → Prop} {l : List α} {a : α}

/-- Each element is related to those in front of it. -/
def Preceded (R : α → List α → Prop) (l : List α) : Prop :=
  ∀ front a back, l = front ++ a :: back → R a front

theorem preceded_nil : Preceded R [] := by
  intro front a back h
  exact absurd h.symm (List.append_ne_nil_of_right_ne_nil front (List.cons_ne_nil a back))

/-- A push to the back. -/
theorem preceded_concat : Preceded R (l ++ [a]) ↔ Preceded R l ∧ R a l := by
  constructor
  · intro h
    refine ⟨fun front b back hl => h front b (back ++ [a]) ?_, h l a [] rfl⟩
    rw [hl, List.append_assoc, List.cons_append]
  · rintro ⟨hl, ha⟩ front b back heq
    rcases List.eq_nil_or_concat back with rfl | ⟨back', c, rfl⟩
    · -- the new element
      obtain ⟨rfl, hb⟩ := List.append_inj' heq rfl
      obtain rfl := (List.cons.inj hb).1
      exact ha
    · have heq : l ++ [a] = (front ++ b :: back') ++ [c] := by
        rw [heq, List.concat_eq_append, List.append_assoc, List.cons_append]
      exact hl front b back' (List.append_inj' heq rfl).1

/-- The front element is taken. -/
theorem preceded_cons :
    Preceded R (a :: l) ↔ R a [] ∧ Preceded (fun b front => R b (a :: front)) l := by
  constructor
  · intro h
    refine ⟨h [] a l rfl, fun front b back hl => h (a :: front) b back ?_⟩
    rw [hl, List.cons_append]
  · rintro ⟨ha, hl⟩ front b back heq
    cases front with
    | nil =>
      obtain rfl := (List.cons.inj heq).1
      exact ha
    | cons c front =>
      rw [List.cons_append] at heq
      obtain ⟨rfl, hrest⟩ := List.cons.inj heq
      exact hl front b back hrest

/-- More elements behind. -/
theorem preceded_append {l' : List α} :
    Preceded R (l ++ l') ↔ Preceded R l ∧ Preceded (fun a front => R a (l ++ front)) l' := by
  induction l generalizing R with
  | nil => exact (and_iff_right preceded_nil).symm
  | cons b l ih =>
    rw [List.cons_append, preceded_cons, preceded_cons, ih, and_assoc]
    rfl

theorem Preceded.mono (h : Preceded R l)
    (hRS : ∀ front a back, l = front ++ a :: back → R a front → S a front) : Preceded S l :=
  fun front a back hl => hRS front a back hl (h front a back hl)

end LocalSoftware
