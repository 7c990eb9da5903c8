import LocalSoftware.Common.ThreadSteps
import Mathlib.Algebra.Order.Ring.Rat
import Mathlib.Tactic.NormNum

/-!
# The choice of a thread

`find_target_thread` stays on its thread if it may, and otherwise scans the candidates with two running
minima. `Scanned` says what the scan knows of the threads it has seen, and
`findTargetThread_valid_iff` that the choice is a candidate just if some candidate has a load below 1.
-/

set_option autoImplicit false

namespace LocalSoftware

variable {V : Vocabulary} {σ : Type}

namespace World

variable {w : World V σ} {t : Nat} {threads seen : List Nat} {acc : Rat × Option Nat × Option Nat}

/-- The threads that a call may be sent to: all of them if none is named. -/
def Candidate (threads : List Nat) (i : Nat) : Prop := threads = [] ∨ i ∈ threads

/-- A candidate that is not fully loaded. -/
def HasRoom (w : World V σ) (threads : List Nat) (i : Nat) : Prop :=
  Candidate threads i ∧ w.loadAvg i < 1

/-- What the scan knows after the threads `seen`: without a working thread the minimum is the
initial one, both minima belong to candidates with room, and one is set if there was such a
candidate. -/
structure Scanned (w : World V σ) (threads seen : List Nat) (acc : Rat × Option Nat × Option Nat) :
    Prop where
  le_one : acc.1 ≤ 1
  unset : acc.2.1 = none → acc.1 = 1
  working : ∀ i, acc.2.1 = some i → i ∈ seen ∧ w.HasRoom threads i
  idle : ∀ i, acc.2.2 = some i → i ∈ seen ∧ w.HasRoom threads i
  found : ∀ i ∈ seen, w.HasRoom threads i → acc.2.1 ≠ none ∨ acc.2.2 ≠ none

theorem scanned_start (w : World V σ) (threads : List Nat) :
    Scanned w threads [] (1, none, none) where
  le_one := Std.le_refl 1
  unset _ := rfl
  working _ h := by cases h
  idle _ h := by cases h
  found _ h := absurd h List.not_mem_nil

namespace Scanned

/-- More threads were seen, without a new one with room. -/
theorem skip (h : Scanned w threads seen acc) {i : Nat}
    (hroom : w.HasRoom threads i → acc.2.1 ≠ none ∨ acc.2.2 ≠ none) :
    Scanned w threads (seen ++ [i]) acc where
  le_one := h.le_one
  unset := h.unset
  working j hj := ⟨List.mem_append_left _ (h.working j hj).1, (h.working j hj).2⟩
  idle j hj := ⟨List.mem_append_left _ (h.idle j hj).1, (h.idle j hj).2⟩
  found j hj hfree := by
    rcases List.mem_append.mp hj with hj | hj
    · exact h.found j hj hfree
    · rw [List.mem_singleton.mp hj] at hfree
      exact hroom hfree

/-- A candidate whose load is below the minimum has room. -/
theorem hasRoom (h : Scanned w threads seen acc) {i : Nat} (hcandidate : Candidate threads i)
    (hlt : w.loadAvg i < acc.1) : w.HasRoom threads i :=
  ⟨hcandidate, Std.lt_of_lt_of_le hlt h.le_one⟩

theorem scanThread (h : Scanned w threads seen acc) (i : Nat) :
    Scanned w threads (seen ++ [i]) (w.scanThread threads acc i) := by
  have hself : i ∈ seen ++ [i] := List.mem_append_right _ List.mem_cons_self
  unfold World.scanThread
  split
  · -- no candidate
    rename_i hno
    apply h.skip
    rintro ⟨hnil | hmem, -⟩
    · exact absurd hnil hno.1
    · exact absurd hmem hno.2
  · rename_i hno
    have hcandidate : Candidate threads i := by
      by_cases hnil : threads = []
      · exact Or.inl hnil
      · right
        by_contra hmem
        exact hno ⟨hnil, hmem⟩
    split
    · rename_i hlt
      have hroom := h.hasRoom hcandidate hlt
      split
      · -- a working thread with less load
        refine ⟨le_of_lt hroom.2, fun hnone => ?_, fun j hj => ?_, fun j hj => ?_, fun j _ _ => ?_⟩
        · cases hnone
        · obtain rfl := Option.some.inj hj
          exact ⟨hself, hroom⟩
        · exact ⟨List.mem_append_left _ (h.idle j hj).1, (h.idle j hj).2⟩
        · exact Or.inl (Option.some_ne_none i)
      · -- an idle thread
        refine ⟨h.le_one, h.unset, fun j hj => ?_, fun j hj => ?_, fun j _ _ => ?_⟩
        · exact ⟨List.mem_append_left _ (h.working j hj).1, (h.working j hj).2⟩
        · obtain rfl := Option.some.inj hj
          exact ⟨hself, hroom⟩
        · exact Or.inr (Option.some_ne_none i)
    · -- the minimum is below the load, so it was set
      rename_i hle
      apply h.skip
      intro hroom
      left
      intro hnone
      rw [h.unset hnone] at hle
      exact hle hroom.2

theorem foldl (h : Scanned w threads seen acc) (l : List Nat) :
    Scanned w threads (seen ++ l) (l.foldl (w.scanThread threads) acc) := by
  induction l generalizing seen acc with
  | nil =>
    rw [List.append_nil]
    exact h
  | cons i l ih =>
    have hrest := ih (h.scanThread i)
    rw [List.append_assoc] at hrest
    exact hrest

end Scanned

/-- The choice between the two minima. -/
theorem choose_cases {minAmt : Rat} {working idle : Option Nat}
    (h : Scanned w threads seen (minAmt, working, idle)) :
    let choice := if 1 / 5 < minAmt ∧ idle ≠ none then idle else working
    (∀ i, choice = some i → i ∈ seen ∧ w.HasRoom threads i) ∧
      (choice = none → ∀ i ∈ seen, ¬ w.HasRoom threads i) := by
  constructor
  · intro i hi
    split at hi
    · exact h.idle i hi
    · exact h.working i hi
  · intro hnone i hmem hroom
    split at hnone
    · rename_i hidle
      exact hidle.2 hnone
    · rename_i hchoice
      -- without a working thread the minimum is 1, and the idle one would have been taken
      rcases h.found i hmem hroom with hworking | hidle
      · exact hworking hnone
      · apply hchoice
        rw [show minAmt = 1 from h.unset hnone]
        exact ⟨by norm_num, hidle⟩

/-- `find_target_thread` returns a thread that exists, among the candidates, just if some candidate
has a load below 1. -/
theorem findTargetThread_valid_iff (w : World V σ) (t : Nat) (threads : List Nat) (ht : t < w.size) :
    (∃ i, w.findTargetThread t threads = .ok i ∧ i < w.size ∧ (threads ≠ [] → i ∈ threads)) ↔
      ∃ i < w.size, (threads = [] ∨ i ∈ threads) ∧ w.loadAvg i < 1 := by
  have hscanned := (scanned_start w threads).foldl (List.range w.size)
  rw [List.nil_append] at hscanned
  unfold findTargetThread
  split
  · -- the thread of the caller
    rename_i hown
    have hload : w.loadAvg t < 1 := lt_trans hown.2 (by norm_num)
    refine iff_of_true ⟨t, rfl, ht, fun hne => ?_⟩ ⟨t, ht, hown.1, hload⟩
    exact hown.1.resolve_left hne
  · cases hfold : (List.range w.size).foldl (w.scanThread threads) (1, none, none) with
    | mk minAmt minima =>
      obtain ⟨working, idle⟩ := minima
      rw [hfold] at hscanned
      obtain ⟨hsome, hnone⟩ := choose_cases hscanned
      simp only
      split
      · rename_i i hi
        obtain ⟨hmem, hroom⟩ := hsome i hi
        have hlt := List.mem_range.mp hmem
        exact iff_of_true ⟨i, rfl, hlt, fun hne => hroom.1.resolve_left hne⟩ ⟨i, hlt, hroom⟩
      · rename_i hchoice
        refine iff_of_false ?_ ?_
        · rintro ⟨i, herror, -⟩
          cases herror
        · rintro ⟨i, hi, hroom⟩
          exact hnone hchoice i (List.mem_range.mpr hi) hroom

/-- Two threads with these loads, and no objects. -/
def loaded (first second : Rat) : World ⟨Unit, Unit, Unit, Unit⟩ Unit :=
  { size := 2, loads := fun _ i => if i = 0 then first else second, malloc := id, heap := () }

/-- A call for both threads leaves the one that is fully loaded. -/
theorem loaded_valid : ∃ i, (loaded 1 (1 / 2)).findTargetThread 0 [0, 1] = .ok i ∧ i < 2 ∧
    ([0, 1] ≠ [] → i ∈ [0, 1]) :=
  (findTargetThread_valid_iff (loaded 1 (1 / 2)) 0 [0, 1] Nat.two_pos).mpr
    ⟨1, Nat.one_lt_two, Or.inr (by decide), by
      show (1 / 2 : Rat) < 1
      norm_num⟩

/-- With both threads fully loaded, no thread was assigned. -/
theorem loaded_unassigned : (∀ i, 0 ≤ (loaded 1 1).loadAvg i) ∧
    (loaded 1 1).findTargetThread 0 [] = .error .undefinedBehaviour := by
  refine ⟨fun i => ?_, by decide +kernel⟩
  show (0 : Rat) ≤ if i = 0 then 1 else 1
  split <;> norm_num

end World

end LocalSoftware
