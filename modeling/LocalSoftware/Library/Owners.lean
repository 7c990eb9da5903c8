import Mathlib.Logic.Function.Basic

/-!
# Tables whose entries have owners

A table has keys, and each key that is in it belongs to one owner. `Owned` says that the table has the
keys of the owners and no others, and that each entry is aimed at the owner of its key. The rules say
how an entry is made, released, handed to another owner and changed.
-/

set_option autoImplicit false

namespace LocalSoftware

variable {α β κ : Type} {table : κ → Option β} {owner : α → Option κ} {aim : β → Option α}

/-- The table has the keys that are owned, and each entry is aimed at the owner of its key. -/
structure Owned (table : κ → Option β) (owner : α → Option κ) (aim : β → Option α) : Prop where
  domain : ∀ k, (table k).isSome ↔ ∃ x, owner x = some k
  aimed : ∀ {x k b}, owner x = some k → table k = some b → aim b = some x

namespace Owned

theorem empty : Owned (fun _ : κ => (none : Option β)) (fun _ : α => none) aim where
  domain k := by
    refine iff_of_false Bool.false_ne_true ?_
    rintro ⟨x, hx⟩
    cases hx
  aimed hx := by cases hx

theorem exists_entry (h : Owned table owner aim) {x : α} {k : κ} (hx : owner x = some k) :
    ∃ b, table k = some b ∧ aim b = some x := by
  obtain ⟨b, hb⟩ := Option.isSome_iff_exists.mp ((h.domain k).mpr ⟨x, hx⟩)
  exact ⟨b, hb, h.aimed hx hb⟩

/-- A key has one owner. -/
theorem apart (h : Owned table owner aim) {x y : α} {k : κ} (hx : owner x = some k)
    (hy : owner y = some k) : x = y := by
  obtain ⟨b, hb, haim⟩ := h.exists_entry hx
  exact Option.some.inj (haim.symm.trans (h.aimed hy hb))

variable [DecidableEq κ]

/-- An entry is changed, but not its aim. -/
theorem change (h : Owned table owner aim) {k : κ} {b b' : β} (hk : table k = some b)
    (haim : aim b' = aim b) : Owned (Function.update table k (some b')) owner aim where
  domain k' := by
    rw [Function.update_apply]
    split
    · rename_i heq
      rw [heq, ← h.domain, hk]
      exact iff_of_true rfl rfl
    · exact h.domain k'
  aimed {x k' c} hx hc := by
    rw [Function.update_apply] at hc
    split at hc
    · rename_i heq
      obtain rfl := Option.some.inj hc
      rw [haim]
      exact h.aimed (heq ▸ hx) hk
    · exact h.aimed hx hc

variable [DecidableEq α]

/-- A new key is entered for an owner that has none. -/
theorem enter (h : Owned table owner aim) {x : α} {k : κ} {b : β} (hk : table k = none)
    (hx : owner x = none) (haim : aim b = some x) :
    Owned (Function.update table k (some b)) (Function.update owner x (some k)) aim where
  domain k' := by
    rw [Function.update_apply]
    split
    · rename_i heq
      exact iff_of_true rfl ⟨x, heq ▸ Function.update_self ..⟩
    · rename_i hne
      rw [h.domain]
      constructor
      · rintro ⟨y, hy⟩
        refine ⟨y, ?_⟩
        rw [Function.update_of_ne, hy]
        rintro rfl
        cases hx.symm.trans hy
      · rintro ⟨y, hy⟩
        rw [Function.update_apply] at hy
        split at hy
        · exact absurd (Option.some.inj hy).symm hne
        · exact ⟨y, hy⟩
  aimed {y k' c} hy hc := by
    rw [Function.update_apply] at hy hc
    split at hy
    · rename_i heq
      obtain rfl := Option.some.inj hy
      rw [if_pos rfl] at hc
      rw [← Option.some.inj hc, haim, heq]
    · split at hc
      · -- the key was not owned before
        rename_i heq
        have hsome := (h.domain k').mpr ⟨y, hy⟩
        rw [heq, hk] at hsome
        cases hsome
      · exact h.aimed hy hc

/-- The key of an owner is released. -/
theorem release (h : Owned table owner aim) {x : α} {k : κ} (hx : owner x = some k) :
    Owned (Function.update table k none) (Function.update owner x none) aim where
  domain k' := by
    rw [Function.update_apply]
    split
    · rename_i heq
      refine iff_of_false Bool.false_ne_true ?_
      rintro ⟨y, hy⟩
      rw [Function.update_apply] at hy
      split at hy
      · cases hy
      · rename_i hne
        exact hne (h.apart (heq ▸ hy) hx)
    · rename_i hne
      rw [h.domain]
      constructor
      · rintro ⟨y, hy⟩
        refine ⟨y, ?_⟩
        rw [Function.update_of_ne, hy]
        rintro rfl
        exact hne (Option.some.inj (hy.symm.trans hx))
      · rintro ⟨y, hy⟩
        rw [Function.update_apply] at hy
        split at hy
        · cases hy
        · exact ⟨y, hy⟩
  aimed {y k' c} hy hc := by
    rw [Function.update_apply] at hy hc
    split at hy
    · cases hy
    · split at hc
      · cases hc
      · exact h.aimed hy hc

/-- A key is handed to an owner that has none, and its entry is aimed at it. -/
theorem transfer (h : Owned table owner aim) {x y : α} {k : κ} {b : β} (hy : owner y = some k)
    (hx : owner x = none) (haim : aim b = some x) :
    Owned (Function.update table k (some b))
      (Function.update (Function.update owner y none) x (some k)) aim := by
  have hne : x ≠ y := by
    rintro rfl
    cases hx.symm.trans hy
  have hreleased := h.release hy
  have henter := hreleased.enter (k := k) (x := x) (b := b) (Function.update_self ..) ?_ haim
  · rw [Function.update_idem] at henter
    exact henter
  · rw [Function.update_of_ne hne]
    exact hx

end Owned

end LocalSoftware
