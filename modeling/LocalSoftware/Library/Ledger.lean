import Mathlib.Data.List.Nodup
import Mathlib.Logic.Function.Basic

/-!
# Lists of entries with a table of their owners

Each owner that exists has a list of entries, and a table gives the owner of an entry. In a `Ledger`
the two agree: the entries of the table are the disjoint union of the lists. An owner may begin to
exist with no entries, a new entry may be added to a list, and an owner may end with its entries.
-/

set_option autoImplicit false

namespace LocalSoftware

variable {K P : Type}

/-- The table of the owners is the disjoint union of the lists. -/
structure Ledger (lists : K → Option (List P)) (owner : P → Option K) : Prop where
  listed : ∀ {p k}, owner p = some k → ∃ l, lists k = some l ∧ p ∈ l
  owned : ∀ {k l p}, lists k = some l → p ∈ l → owner p = some k
  nodup : ∀ {k l}, lists k = some l → l.Nodup

namespace Ledger

variable {lists : K → Option (List P)} {owner : P → Option K} {k : K} {p : P}

theorem empty : Ledger (fun _ : K => none) fun _ : P => none where
  listed h := nomatch h
  owned h := nomatch h
  nodup h := nomatch h

/-- An entry is in one list only. -/
theorem disjoint (h : Ledger lists owner) {k' : K} {l l' : List P} (hl : lists k = some l)
    (hl' : lists k' = some l') (hp : p ∈ l) (hp' : p ∈ l') : k = k' :=
  Option.some.inj ((h.owned hl hp).symm.trans (h.owned hl' hp'))

/-- An owner without entries. -/
theorem insert [DecidableEq K] (h : Ledger lists owner) (hk : lists k = none) :
    Ledger (Function.update lists k (some [])) owner where
  listed {p k'} hp := by
    obtain ⟨l, hl, hmem⟩ := h.listed hp
    refine ⟨l, ?_, hmem⟩
    rw [Function.update_of_ne, hl]
    rintro rfl
    rw [hk] at hl
    cases hl
  owned {k' l p} hl hp := by
    rw [Function.update_apply] at hl
    split at hl
    · rw [← Option.some.inj hl] at hp
      cases hp
    · exact h.owned hl hp
  nodup {k' l} hl := by
    rw [Function.update_apply] at hl
    split at hl
    · exact Option.some.inj hl ▸ List.nodup_nil
    · exact h.nodup hl

/-- An entry that nobody owns is added to a list. -/
theorem enter [DecidableEq K] [DecidableEq P] (h : Ledger lists owner) {l : List P}
    (hk : lists k = some l) (hp : owner p = none) :
    Ledger (Function.update lists k (some (l ++ [p]))) (Function.update owner p (some k)) where
  listed {p' k'} hp' := by
    rw [Function.update_apply] at hp'
    split at hp'
    · rename_i heq
      obtain rfl := Option.some.inj hp'
      exact ⟨_, Function.update_self .., heq ▸ List.mem_append_right _ List.mem_cons_self⟩
    · obtain ⟨l', hl', hmem⟩ := h.listed hp'
      by_cases hkk : k' = k
      · subst hkk
        obtain rfl := Option.some.inj (hk.symm.trans hl')
        exact ⟨_, Function.update_self .., List.mem_append_left _ hmem⟩
      · exact ⟨l', by rw [Function.update_of_ne hkk, hl'], hmem⟩
  owned {k' l' p'} hl' hmem := by
    -- an entry of the old lists has an owner, so it is not the new one
    have hold : ∀ {k' l'}, lists k' = some l' → p' ∈ l' →
        Function.update owner p (some k) p' = some k' := by
      intro k' l' hl' hmem
      have howner := h.owned hl' hmem
      rw [Function.update_of_ne, howner]
      rintro rfl
      rw [hp] at howner
      cases howner
    rw [Function.update_apply] at hl'
    split at hl'
    · rename_i heq
      subst heq
      rw [← Option.some.inj hl'] at hmem
      rcases List.mem_append.mp hmem with hmem | hmem
      · exact hold hk hmem
      · rw [List.mem_singleton.mp hmem, Function.update_self]
    · exact hold hl' hmem
  nodup {k' l'} hl' := by
    rw [Function.update_apply] at hl'
    split at hl'
    · rw [← Option.some.inj hl']
      refine List.nodup_append.mpr ⟨h.nodup hk, List.nodup_singleton p, ?_⟩
      rintro a ha b hb rfl
      rw [List.mem_singleton.mp hb] at ha
      rw [h.owned hk ha] at hp
      cases hp
    · exact h.nodup hl'

/-- An owner ends, with its entries. -/
theorem remove [DecidableEq K] (h : Ledger lists owner) (k : K) {owner' : P → Option K}
    (hend : ∀ p ∈ (lists k).getD [], owner' p = none)
    (hkeep : ∀ p ∉ (lists k).getD [], owner' p = owner p) :
    Ledger (Function.update lists k none) owner' where
  listed {p k'} hp := by
    by_cases hmem : p ∈ (lists k).getD []
    · rw [hend p hmem] at hp
      cases hp
    · rw [hkeep p hmem] at hp
      obtain ⟨l, hl, hpl⟩ := h.listed hp
      refine ⟨l, ?_, hpl⟩
      rw [Function.update_of_ne, hl]
      rintro rfl
      rw [hl] at hmem
      exact hmem hpl
  owned {k' l p} hl hp := by
    rw [Function.update_apply] at hl
    split at hl
    · cases hl
    · rename_i hne
      rw [hkeep, h.owned hl hp]
      intro hmem
      cases hk : lists k with
      | none =>
        rw [hk] at hmem
        cases hmem
      | some l' =>
        rw [hk] at hmem
        exact hne (h.disjoint hl hk hp hmem)
  nodup {k' l} hl := by
    rw [Function.update_apply] at hl
    split at hl
    · cases hl
    · exact h.nodup hl

end Ledger

end LocalSoftware
