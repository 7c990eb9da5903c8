import Mathlib.Logic.Relation

/-!
# Guarded runs of a partial step function

A system has a step function that may fail. `Reached G s₀ s` says that a run from `s₀` leads to `s`
in which every action met the condition `G` in the state before it. `Reached.invariant` is the rule
for invariants, and `transGen_invariant` the one for a step that is itself a sequence of updates.
`Throughout G` says the same of a list of actions, for a step function that does not fail.
-/

set_option autoImplicit false

namespace LocalSoftware

section Reached

variable {S A E : Type} {step : S → A → Except E S} {G H : S → A → Prop} {s₀ s : S}

/-- The states of the runs from `s₀` whose actions all meet `G`. -/
inductive Reached (step : S → A → Except E S) (G : S → A → Prop) (s₀ : S) : S → Prop where
  | start : Reached step G s₀ s₀
  | next {s s' : S} (a : A) (h : Reached step G s₀ s) (hG : G s a) (hstep : step s a = .ok s') :
      Reached step G s₀ s'

/-- What holds at the start and is kept by every guarded action holds in every state reached. -/
theorem Reached.invariant {I : S → Prop} (h : Reached step G s₀ s) (h₀ : I s₀)
    (hI : ∀ s a s', I s → G s a → step s a = .ok s' → I s') : I s := by
  induction h with
  | start => exact h₀
  | next a _ hG hstep ih => exact hI _ a _ ih hG hstep

/-- A run that meets a condition meets a weaker one. -/
theorem Reached.mono (h : Reached step G s₀ s) (hGH : ∀ s a, G s a → H s a) :
    Reached step H s₀ s := by
  induction h with
  | start => exact .start
  | next a _ hG hstep ih => exact .next a ih (hGH _ a hG) hstep

/-- The actions of a list, one after the other. -/
def runActions (step : S → A → Except E S) : List A → S → Except E S
  | [], s => .ok s
  | a :: actions, s =>
    match step s a with
    | .error e => .error e
    | .ok s => runActions step actions s

/-- Every action of a list meets the condition in the state before it. -/
def Meets (step : S → A → Except E S) (G : S → A → Prop) : List A → S → Prop
  | [], _ => True
  | a :: actions, s => G s a ∧
    match step s a with
    | .error _ => True
    | .ok s => Meets step G actions s

instance instDecidableMeets [∀ s a, Decidable (G s a)] :
    (actions : List A) → (s : S) → Decidable (Meets step G actions s)
  | [], _ => isTrue trivial
  | a :: actions, s =>
    match h : step s a with
    | .error _ => decidable_of_iff (G s a) (by simp [Meets, h])
    | .ok s' =>
      have := instDecidableMeets actions s'
      decidable_of_iff (G s a ∧ Meets step G actions s') (by simp [Meets, h])

/-- A condition on the actions alone holds in every state. -/
theorem meets_of_forall {actions : List A} (h : ∀ a ∈ actions, ∀ s, G s a) (s : S) :
    Meets step G actions s := by
  induction actions generalizing s with
  | nil => trivial
  | cons a actions ih =>
    refine ⟨h a List.mem_cons_self s, ?_⟩
    split
    · trivial
    · exact ih (fun a ha => h a (List.mem_cons_of_mem _ ha)) _

theorem meets_true (actions : List A) (s : S) : Meets step (fun _ _ => True) actions s :=
  meets_of_forall (fun _ _ _ => trivial) s

/-- A list of actions is a run. -/
theorem reached_of_runActions {actions : List A} (h : Reached step G s₀ s)
    (hG : Meets step G actions s) {s' : S} (hrun : runActions step actions s = .ok s') :
    Reached step G s₀ s' := by
  induction actions generalizing s with
  | nil =>
    obtain rfl := Except.ok.inj hrun
    exact h
  | cons a actions ih =>
    obtain ⟨hGa, hGrest⟩ := hG
    cases hstep : step s a with
    | error e =>
      simp only [runActions, hstep] at hrun
      cases hrun
    | ok s₁ =>
      simp only [runActions, hstep] at hrun
      simp only [hstep] at hGrest
      exact ih (.next a h hGa hstep) hGrest hrun

/-- A computation whose result has a known part has a result. -/
theorem exists_of_map_eq_ok {α β : Type} {x : Except E α} {f : α → β} {b : β}
    (h : x.map f = .ok b) : ∃ a, x = .ok a ∧ f a = b := by
  cases x with
  | error e => cases h
  | ok a => exact ⟨a, rfl, Except.ok.inj h⟩

theorem eq_ok_of_toOption {α : Type} {x : Except E α} {a : α} (h : x.toOption = some a) :
    x = .ok a := by
  cases x with
  | error e => cases h
  | ok b => exact congrArg _ (Option.some.inj h)

end Reached

section Throughout

variable {S A : Type} {step : S → A → S} {F G H : S → A → Prop} {I : S → Prop} {s : S}

/-- Every action of a list meets the condition in the state before it. -/
def Throughout (step : S → A → S) (G : S → A → Prop) : List A → S → Prop
  | [], _ => True
  | a :: actions, s => G s a ∧ Throughout step G actions (step s a)

instance instDecidableThroughout [∀ s a, Decidable (G s a)] :
    (actions : List A) → (s : S) → Decidable (Throughout step G actions s)
  | [], _ => isTrue trivial
  | a :: actions, s =>
    have := instDecidableThroughout actions (step s a)
    inferInstanceAs (Decidable (G s a ∧ Throughout step G actions (step s a)))

/-- Two conditions that agree where the invariant holds agree in a run. -/
theorem throughout_congr {actions : List A} (hI : I s) (hH : Throughout step H actions s)
    (hstep : ∀ s a, I s → H s a → I (step s a)) (hFG : ∀ s a, I s → H s a → (F s a ↔ G s a)) :
    Throughout step F actions s ↔ Throughout step G actions s := by
  induction actions generalizing s with
  | nil => exact Iff.rfl
  | cons a actions ih =>
    obtain ⟨hHa, hHrest⟩ := hH
    exact and_congr (hFG s a hI hHa) (ih (hstep s a hI hHa) hHrest)

theorem Throughout.and {actions : List A} (hG : Throughout step G actions s)
    (hH : Throughout step H actions s) : Throughout step (fun s a => G s a ∧ H s a) actions s := by
  induction actions generalizing s with
  | nil => trivial
  | cons a actions ih => exact ⟨⟨hG.1, hH.1⟩, ih hG.2 hH.2⟩

/-- An invariant of the actions holds at the end of a run. -/
theorem Throughout.foldl {actions : List A} (h : Throughout step H actions s) (hI : I s)
    (hstep : ∀ s a, I s → H s a → I (step s a)) : I (actions.foldl step s) := by
  induction actions generalizing s with
  | nil => exact hI
  | cons a actions ih => exact ih h.2 (hstep s a hI h.1)

end Throughout

/-- What every update keeps is kept by a sequence of updates. -/
theorem transGen_invariant {S : Type} {R : S → S → Prop} {I : S → Prop} {s s' : S}
    (h : Relation.ReflTransGen R s s') (hs : I s) (hI : ∀ s s', I s → R s s' → I s') : I s' := by
  induction h with
  | refl => exact hs
  | tail _ hR ih => exact hI _ _ ih hR

end LocalSoftware
