import Mathlib.Logic.Function.Iterate
import Mathlib.Order.Basic

/-!
# Loops that test after a step

`doWhile` takes a step and tests whether to take another. `EndsAt` says with which step it ends,
`doWhile_eq_some_iff` that this is what a run with enough fuel returns, and `doWhile_of_measure` how
much fuel is enough when a measure goes down.
-/

set_option autoImplicit false

namespace LocalSoftware.Library.DoWhile

universe u

variable {σ : Type u} (next : σ → σ) (again : σ → Prop)

/-- At most `fuel` steps, up to the first one after which the test fails. -/
def doWhile [DecidablePred again] : Nat → σ → Option σ
  | 0, _ => none
  | fuel + 1, s => if again (next s) then doWhile fuel (next s) else some (next s)

/-- The test holds after every step before the step `n`, counted from 0, and fails after it. -/
structure EndsAt (s : σ) (n : Nat) : Prop where
  before : ∀ m < n, again (next^[m + 1] s)
  stop : ¬ again (next^[n + 1] s)

variable {next again} {s t : σ} {n k : Nat}

theorem EndsAt.le (h : EndsAt next again s n) (hk : ¬ again (next^[k + 1] s)) : n ≤ k := by
  by_contra hlt
  exact hk (h.before k (Nat.lt_of_not_le hlt))

theorem EndsAt.unique (h : EndsAt next again s n) (hk : EndsAt next again s k) : n = k :=
  Nat.le_antisymm (h.le hk.stop) (hk.le h.stop)

/-- A loop ends when its test fails after some step. -/
theorem exists_endsAt (hk : ¬ again (next^[k + 1] s)) : ∃ n ≤ k, EndsAt next again s n := by
  induction k using Nat.strongRecOn with
  | ind k ih =>
    by_cases hall : ∀ m < k, again (next^[m + 1] s)
    · exact ⟨k, Nat.le_refl k, hall, hk⟩
    · rw [not_forall] at hall
      obtain ⟨m, hm⟩ := hall
      rw [Classical.not_imp] at hm
      obtain ⟨n, hn, hends⟩ := ih m hm.1 hm.2
      exact ⟨n, Nat.le_trans hn (Nat.le_of_lt hm.1), hends⟩

/-- The step after the first one, of a loop that takes a second. -/
theorem endsAt_succ_iff (hs : again (next s)) :
    EndsAt next again s (n + 1) ↔ EndsAt next again (next s) n := by
  constructor
  · intro h
    exact ⟨fun m hm => h.before (m + 1) (Nat.succ_lt_succ hm), h.stop⟩
  · intro h
    refine ⟨fun m hm => ?_, h.stop⟩
    cases m with
    | zero => exact hs
    | succ m => exact h.before m (Nat.lt_of_succ_lt_succ hm)

section Fuel

variable [DecidablePred again] {fuel : Nat}

/-- What a run returns, and with how much fuel. -/
theorem doWhile_eq_some_iff : doWhile next again fuel s = some t ↔
    ∃ n < fuel, EndsAt next again s n ∧ next^[n + 1] s = t := by
  induction fuel generalizing s with
  | zero =>
    constructor
    · intro h
      cases h
    · rintro ⟨n, hn, -⟩
      exact absurd hn (Nat.not_lt_zero n)
  | succ fuel ih =>
    rw [doWhile]
    by_cases hs : again (next s)
    · rw [if_pos hs, ih]
      constructor
      · rintro ⟨n, hn, hends, ht⟩
        exact ⟨n + 1, Nat.succ_lt_succ hn, (endsAt_succ_iff hs).2 hends, ht⟩
      · rintro ⟨n, hn, hends, ht⟩
        cases n with
        | zero => exact absurd hs hends.stop
        | succ n => exact ⟨n, Nat.lt_of_succ_lt_succ hn, (endsAt_succ_iff hs).1 hends, ht⟩
    · rw [if_neg hs, Option.some.injEq]
      constructor
      · intro ht
        exact ⟨0, Nat.succ_pos fuel, ⟨fun m hm => absurd hm (Nat.not_lt_zero m), hs⟩, ht⟩
      · rintro ⟨n, -, hends, ht⟩
        obtain rfl := Nat.le_zero.1 (hends.le (k := 0) hs)
        exact ht

/-- A run with enough fuel. -/
theorem EndsAt.doWhile_eq (h : EndsAt next again s n) (hfuel : n < fuel) :
    doWhile next again fuel s = some (next^[n + 1] s) :=
  doWhile_eq_some_iff.2 ⟨n, hfuel, h, rfl⟩

/-- A measure that goes down with every step that is followed by another bounds the loop. -/
theorem doWhile_of_measure (measure : σ → Nat)
    (hmeasure : ∀ s, again (next s) → measure (next s) < measure s) (s : σ) :
    ∃ t, doWhile next again (measure s + 1) s = some t := by
  have hfuel : ∀ fuel s, measure s < fuel → ∃ t, doWhile next again fuel s = some t := by
    intro fuel
    induction fuel with
    | zero =>
      intro s hlt
      exact absurd hlt (Nat.not_lt_zero _)
    | succ fuel ih =>
      intro s hlt
      rw [doWhile]
      split
      · rename_i hs
        exact ih (next s) (Nat.lt_of_lt_of_le (hmeasure s hs) (Nat.le_of_lt_succ hlt))
      · exact ⟨next s, rfl⟩
  exact hfuel (measure s + 1) s (Nat.lt_succ_self _)

end Fuel

end LocalSoftware.Library.DoWhile
