import LocalSoftware.Common.TargetThread
import Mathlib.Data.List.MinMax

/-!
# What the choice of a thread is for

`find_target_thread` finds, in one pass with two running variables, what `choice` says without a loop:
the own thread while its load is below 0.8; else, among the candidates, the last idle one if every
working one has a load above 0.2, and the first working one with the least load otherwise. No thread
counts as working from a load of 1 on.
-/

set_option autoImplicit false

namespace LocalSoftware

variable {V : Vocabulary} {σ : Type}

namespace World

variable (w : World V σ) (t : Nat) (threads : List Nat)

instance (i : Nat) : Decidable (Candidate threads i) := inferInstanceAs (Decidable (_ ∨ _))

/-- The candidates that do something, and could do more. -/
def workingThreads (l : List Nat) : List Nat :=
  l.filter fun i => Candidate threads i ∧ 1 / 50 < w.loadAvg i ∧ w.loadAvg i < 1

/-- The candidates that do nothing. -/
def idleThreads (l : List Nat) : List Nat :=
  l.filter fun i => Candidate threads i ∧ w.loadAvg i ≤ 1 / 50

/-- The first working candidate with the least load. -/
def leastWorking (l : List Nat) : Option Nat := (w.workingThreads threads l).argmin w.loadAvg

/-- The thread for a call. An idle thread is woken only if the others have enough to do. -/
def choice : Option Nat :=
  if Candidate threads t ∧ w.loadAvg t < 4 / 5 then some t
  else
    match (w.idleThreads threads (List.range w.size)).getLast?,
      w.leastWorking threads (List.range w.size) with
    | some i, none => some i
    | some i, some j => if 1 / 5 < w.loadAvg j then some i else some j
    | none, j => j

variable {w t threads}

/-- The least load of a working candidate, or 1. -/
def leastLoad (w : World V σ) : Option Nat → Rat
  | none => 1
  | some i => w.loadAvg i

theorem mem_workingThreads {l : List Nat} {i : Nat} : i ∈ w.workingThreads threads l ↔
    i ∈ l ∧ Candidate threads i ∧ 1 / 50 < w.loadAvg i ∧ w.loadAvg i < 1 := by
  rw [workingThreads, List.mem_filter, decide_eq_true_iff]

theorem mem_idleThreads {l : List Nat} {i : Nat} : i ∈ w.idleThreads threads l ↔
    i ∈ l ∧ Candidate threads i ∧ w.loadAvg i ≤ 1 / 50 := by
  rw [idleThreads, List.mem_filter, decide_eq_true_iff]

theorem leastWorking_spec {l : List Nat} {i : Nat} (h : w.leastWorking threads l = some i) :
    1 / 50 < w.loadAvg i ∧ w.loadAvg i < 1 :=
  (mem_workingThreads.mp (List.argmin_mem (Option.mem_def.mpr h))).2.2

theorem leastLoad_bounds (l : List Nat) : 1 / 50 < w.leastLoad (w.leastWorking threads l) ∧
    w.leastLoad (w.leastWorking threads l) ≤ 1 := by
  cases h : w.leastWorking threads l with
  | none => exact ⟨by norm_num [leastLoad], Std.le_refl 1⟩
  | some i =>
    obtain ⟨hlow, hhigh⟩ := leastWorking_spec h
    exact ⟨hlow, le_of_lt hhigh⟩

/-- One more candidate with a load that is not the least one so far. -/
theorem leastWorking_concat (l : List Nat) (i : Nat) : w.leastWorking threads (l ++ [i]) =
    if (Candidate threads i ∧ 1 / 50 < w.loadAvg i) ∧
      w.loadAvg i < w.leastLoad (w.leastWorking threads l) then some i
    else w.leastWorking threads l := by
  by_cases hworking : Candidate threads i ∧ 1 / 50 < w.loadAvg i ∧ w.loadAvg i < 1
  · have hconcat : w.workingThreads threads (l ++ [i]) = w.workingThreads threads l ++ [i] := by
      rw [workingThreads, List.filter_append, List.filter_singleton, decide_eq_true hworking]
      rfl
    rw [leastWorking, hconcat, List.argmin_concat]
    cases h : (w.workingThreads threads l).argmin w.loadAvg with
    | none =>
      have hnone : w.leastWorking threads l = none := h
      rw [hnone, if_pos ⟨⟨hworking.1, hworking.2.1⟩, hworking.2.2⟩]
    | some j =>
      have hsome : w.leastWorking threads l = some j := h
      simp only [hsome, leastLoad, hworking.1, hworking.2.1, and_self, true_and]
  · have hconcat : w.workingThreads threads (l ++ [i]) = w.workingThreads threads l := by
      rw [workingThreads, List.filter_append, List.filter_singleton, decide_eq_false hworking]
      exact List.append_nil _
    rw [leastWorking, hconcat, if_neg]
    · rfl
    · rintro ⟨⟨hcandidate, hlow⟩, hlt⟩
      exact hworking ⟨hcandidate, hlow, lt_of_lt_of_le hlt (leastLoad_bounds l).2⟩

theorem idleThreads_concat (l : List Nat) (i : Nat) :
    (w.idleThreads threads (l ++ [i])).getLast? =
      if Candidate threads i ∧ w.loadAvg i ≤ 1 / 50 then some i
      else (w.idleThreads threads l).getLast? := by
  rw [idleThreads, List.filter_append, List.filter_singleton]
  split
  · rename_i hidle
    rw [decide_eq_true hidle, cond_true, List.getLast?_concat]
  · rename_i hidle
    rw [decide_eq_false hidle, cond_false, List.append_nil]
    rfl

/-- The two running variables. -/
theorem foldl_scanThread (w : World V σ) (threads l : List Nat) :
    l.foldl (w.scanThread threads) (1, none, none) =
      (w.leastLoad (w.leastWorking threads l), w.leastWorking threads l,
        (w.idleThreads threads l).getLast?) := by
  induction l using List.reverseRecOn with
  | nil => rfl
  | append_singleton l i ih =>
    obtain ⟨hlow, hhigh⟩ : 1 / 50 < w.leastLoad (w.leastWorking threads l) ∧
        w.leastLoad (w.leastWorking threads l) ≤ 1 := leastLoad_bounds l
    rw [List.foldl_append, ih, List.foldl_cons, List.foldl_nil, leastWorking_concat,
      idleThreads_concat]
    simp only [scanThread]
    by_cases hcandidate : Candidate threads i
    · rw [if_neg fun hno => hcandidate.elim hno.1 hno.2]
      by_cases hidle : w.loadAvg i ≤ 1 / 50
      · -- below every minimum
        rw [if_pos (lt_of_le_of_lt hidle hlow), if_neg (not_lt_of_ge hidle),
          if_neg fun h => absurd h.1.2 (not_lt_of_ge hidle), if_pos ⟨hcandidate, hidle⟩]
      · have hnot : ¬ (Candidate threads i ∧ w.loadAvg i ≤ 1 / 50) := fun h => hidle h.2
        by_cases hlt : w.loadAvg i < w.leastLoad (w.leastWorking threads l)
        · rw [if_pos hlt, if_pos (lt_of_not_ge hidle),
            if_pos ⟨⟨hcandidate, lt_of_not_ge hidle⟩, hlt⟩, if_neg hnot]
          rfl
        · rw [if_neg hlt, if_neg fun h => hlt h.2, if_neg hnot]
    · rw [if_pos ⟨fun hnil => hcandidate (Or.inl hnil), fun hmem => hcandidate (Or.inr hmem)⟩,
        if_neg fun h => hcandidate h.1.1, if_neg fun h => hcandidate h.1]

/-- The choice by the two minima. -/
theorem choice_of_not_own (hown : ¬ (Candidate threads t ∧ w.loadAvg t < 4 / 5)) :
    (if 1 / 5 < w.leastLoad (w.leastWorking threads (List.range w.size)) ∧
        (w.idleThreads threads (List.range w.size)).getLast? ≠ none then
      (w.idleThreads threads (List.range w.size)).getLast?
    else w.leastWorking threads (List.range w.size)) = w.choice t threads := by
  unfold choice
  rw [if_neg hown]
  cases (w.idleThreads threads (List.range w.size)).getLast? with
  | none => exact if_neg fun h => h.2 rfl
  | some i =>
    cases w.leastWorking threads (List.range w.size) with
    | none => exact if_pos ⟨by norm_num [leastLoad], Option.some_ne_none i⟩
    | some j =>
      simp only [leastLoad, ne_eq, reduceCtorEq, not_false_eq_true, and_true]

/-- The loop of `find_target_thread` finds the choice, and without one it ends in undefined
behaviour. -/
theorem findTargetThread_eq_choice (w : World V σ) (t : Nat) (threads : List Nat) :
    w.findTargetThread t threads =
      match w.choice t threads with
      | some i => .ok i
      | none => .error .undefinedBehaviour := by
  unfold findTargetThread
  by_cases hown : (threads = [] ∨ t ∈ threads) ∧ w.loadAvg t < 4 / 5
  · have hchoice : w.choice t threads = some t := if_pos hown
    simp only [if_pos hown, hchoice]
  · have hchoice := choice_of_not_own hown
    cases hpicked : w.choice t threads with
    | none =>
      rw [hpicked] at hchoice
      simp only [if_neg hown, foldl_scanThread, hchoice]
    | some i =>
      rw [hpicked] at hchoice
      simp only [if_neg hown, foldl_scanThread, hchoice]

theorem choice_mem (ht : t < w.size) {i : Nat} (h : w.choice t threads = some i) :
    i ∈ List.range w.size := by
  have hidle : ∀ j, (w.idleThreads threads (List.range w.size)).getLast? = some j →
      j ∈ List.range w.size :=
    fun j hj => (mem_idleThreads.mp (List.mem_of_getLast? hj)).1
  have hworking : ∀ j, w.leastWorking threads (List.range w.size) = some j →
      j ∈ List.range w.size :=
    fun j hj => (mem_workingThreads.mp (List.argmin_mem (Option.mem_def.mpr hj))).1
  unfold choice at h
  split at h
  · obtain rfl := Option.some.inj h
    exact List.mem_range.mpr ht
  · split at h
    · rename_i j hj _
      obtain rfl := Option.some.inj h
      exact hidle _ hj
    · rename_i j k hj hk
      split at h
      · obtain rfl := Option.some.inj h
        exact hidle _ hj
      · obtain rfl := Option.some.inj h
        exact hworking _ hk
    · exact hworking i h

/-- The thread that is chosen exists. -/
theorem findTargetThread_lt (ht : t < w.size) {i : Nat} (h : w.findTargetThread t threads = .ok i) :
    i < w.size := by
  rw [findTargetThread_eq_choice] at h
  cases hchoice : w.choice t threads with
  | none =>
    rw [hchoice] at h
    cases h
  | some j =>
    rw [hchoice] at h
    obtain rfl := Except.ok.inj h
    exact List.mem_range.mp (choice_mem ht hchoice)

end World

end LocalSoftware
