import Mathlib.Data.List.Nodup

/-!
# Keys that wait in a queue and are used once

Keys are issued, wait in one of several queues, and are used when they come out. `Tickets` says that
a key is in one place only, so that it is used at most once; `Free` are the keys that are issued and
in no place.
-/

set_option autoImplicit false

namespace LocalSoftware

variable {T K : Type} {issued issued' : K → Prop} {ahead ahead' : T → List K} {used : List K}
  {k : K}

/-- Every key that was issued is at most once in the queues and among the used ones. -/
structure Tickets (issued : K → Prop) (ahead : T → List K) (used : List K) : Prop where
  nodup : ∀ t, (ahead t).Nodup
  apart : ∀ {t t' k}, k ∈ ahead t → k ∈ ahead t' → t = t'
  unused : ∀ {t k}, k ∈ ahead t → k ∉ used
  once : used.Nodup
  issuedAhead : ∀ {t k}, k ∈ ahead t → issued k
  issuedUsed : ∀ {k}, k ∈ used → issued k

/-- A key that was issued and is nowhere. -/
structure Free (issued : K → Prop) (ahead : T → List K) (used : List K) (k : K) : Prop where
  issued : issued k
  unused : k ∉ used
  absent : ∀ t, k ∉ ahead t

theorem tickets_empty : Tickets issued (fun _ : T => []) [] where
  nodup _ := List.nodup_nil
  apart hk := absurd hk List.not_mem_nil
  unused hk := absurd hk List.not_mem_nil
  once := List.nodup_nil
  issuedAhead hk := absurd hk List.not_mem_nil
  issuedUsed hk := absurd hk List.not_mem_nil

namespace Tickets

theorem mono (h : Tickets issued ahead used) (hissued : ∀ k, issued k → issued' k) :
    Tickets issued' ahead used :=
  { h with
    issuedAhead := fun hk => hissued _ (h.issuedAhead hk)
    issuedUsed := fun hk => hissued _ (h.issuedUsed hk) }

/-- A key that was not issued is nowhere. -/
theorem free_of_not_issued (h : Tickets issued ahead used) (hold : ¬ issued k) (hk : issued' k) :
    Free issued' ahead used k where
  issued := hk
  unused hmem := hold (h.issuedUsed hmem)
  absent _ hmem := hold (h.issuedAhead hmem)

/-- A key enters a queue. -/
theorem push [DecidableEq T] (h : Tickets issued ahead used) (hk : Free issued ahead used k) {t : T}
    (hahead : ∀ t', ahead' t' = if t' = t then ahead t' ++ [k] else ahead t') :
    Tickets issued ahead' used := by
  have hmem : ∀ {t' k'}, k' ∈ ahead' t' → k' ∈ ahead t' ∨ (t' = t ∧ k' = k) := by
    intro t' k' hk'
    rw [hahead] at hk'
    split at hk'
    · rename_i ht
      exact (List.mem_append.mp hk').imp_right fun hk' => ⟨ht, List.mem_singleton.mp hk'⟩
    · exact Or.inl hk'
  refine ⟨fun t' => ?_, fun {t₁ t₂ k'} h₁ h₂ => ?_, fun hk' => ?_, h.once, fun hk' => ?_, h.issuedUsed⟩
  · rw [hahead]
    split
    · refine List.nodup_append.mpr ⟨h.nodup t', List.nodup_singleton k, fun a ha b hb heq => ?_⟩
      rw [heq, List.mem_singleton.mp hb] at ha
      exact hk.absent t' ha
    · exact h.nodup t'
  · rcases hmem h₁ with h₁ | ⟨rfl, rfl⟩
    · rcases hmem h₂ with h₂ | ⟨-, rfl⟩
      · exact h.apart h₁ h₂
      · exact absurd h₁ (hk.absent t₁)
    · rcases hmem h₂ with h₂ | ⟨rfl, -⟩
      · exact absurd h₂ (hk.absent t₂)
      · rfl
  · rcases hmem hk' with hk' | ⟨-, rfl⟩
    · exact h.unused hk'
    · exact hk.unused
  · rcases hmem hk' with hk' | ⟨-, rfl⟩
    · exact h.issuedAhead hk'
    · exact hk.issued

/-- The key at the head of a queue is taken. -/
theorem pop [DecidableEq T] (h : Tickets issued ahead used) {t : T} {rest : List K}
    (hq : ahead t = k :: rest) (hahead : ∀ t', ahead' t' = if t' = t then rest else ahead t') :
    Tickets issued ahead' used ∧ Free issued ahead' used k := by
  have hhead : k ∈ ahead t := hq ▸ List.mem_cons_self
  have hnodup := h.nodup t
  rw [hq] at hnodup
  obtain ⟨hnot, hrest⟩ := List.nodup_cons.mp hnodup
  have hmem : ∀ {t' k'}, k' ∈ ahead' t' → k' ∈ ahead t' := by
    intro t' k' hk'
    rw [hahead] at hk'
    split at hk'
    · rename_i ht
      rw [ht, hq]
      exact List.mem_cons_of_mem _ hk'
    · exact hk'
  refine ⟨⟨fun t' => ?_, fun h₁ h₂ => h.apart (hmem h₁) (hmem h₂), fun hk' => h.unused (hmem hk'),
    h.once, fun hk' => h.issuedAhead (hmem hk'), h.issuedUsed⟩,
    ⟨h.issuedAhead hhead, h.unused hhead, fun t' hk' => ?_⟩⟩
  · rw [hahead]
    split
    · exact hrest
    · exact h.nodup t'
  · have ht : t' = t := h.apart (hmem hk') hhead
    rw [hahead, if_pos ht] at hk'
    exact hnot hk'

/-- A key that is nowhere is used. -/
theorem use (h : Tickets issued ahead used) (hk : Free issued ahead used k) :
    Tickets issued ahead (used ++ [k]) where
  nodup := h.nodup
  apart := h.apart
  unused {t k'} hk' hmem := by
    rcases List.mem_append.mp hmem with hmem | hmem
    · exact h.unused hk' hmem
    · rw [List.mem_singleton.mp hmem] at hk'
      exact hk.absent t hk'
  once := by
    refine List.nodup_append.mpr ⟨h.once, List.nodup_singleton k, fun a ha b hb heq => ?_⟩
    rw [heq, List.mem_singleton.mp hb] at ha
    exact hk.unused ha
  issuedAhead := h.issuedAhead
  issuedUsed {k'} hmem := by
    rcases List.mem_append.mp hmem with hmem | hmem
    · exact h.issuedUsed hmem
    · rw [List.mem_singleton.mp hmem]
      exact hk.issued

end Tickets

end LocalSoftware
