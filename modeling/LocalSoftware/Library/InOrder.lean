import Mathlib.Data.List.Perm.Subperm

/-!
# Items that are received in the order in which they were emitted

Items are emitted one after the other and sent to one of several receivers, or to none. `InOrder` says
that what a receiver has seen and what waits for it is, in this order, a part of what was emitted: no
item is invented, doubled or overtaken. The rules are those of an item that is emitted, received or
dropped.
-/

set_option autoImplicit false

namespace LocalSoftware

section Keys

variable {A K : Type} {f g : A → Option K} {l : List A}

/-- Two entries with one key are one entry, if no key occurs twice. -/
theorem eq_of_nodup_filterMap (h : (l.filterMap f).Nodup) {a a' : A} {k : K} (ha : a ∈ l)
    (ha' : a' ∈ l) (hk : f a = some k) (hk' : f a' = some k) : a = a' := by
  have hpairs := List.pairwise_filterMap.mp h
  have hall := List.Pairwise.forall_of_forall_of_flip
    (R := fun a a' => a ≠ a' → ∀ k, f a = some k → f a' ≠ some k) (l := l)
    (fun a _ hne => absurd rfl hne) (hpairs.imp fun hne _ k hk hk' => hne k hk k hk' rfl)
    (hpairs.imp fun hne _ k hk hk' => hne k hk' k hk rfl)
  by_contra hne
  exact hall ha ha' hne k hk hk'

/-- Of fewer entries, no key occurs twice either. -/
theorem nodup_filterMap_mono (h : (l.filterMap f).Nodup) (hg : ∀ a k, g a = some k → f a = some k) :
    (l.filterMap g).Nodup :=
  List.pairwise_filterMap.mpr ((List.pairwise_filterMap.mp h).imp fun hne k hk k' hk' =>
    hne k (hg _ k hk) k' (hg _ k' hk'))

end Keys

variable {T K : Type} {emitted : List K} {seen seen' waiting waiting' : T → List K} {k : K}

/-- Each receiver has and will see a part of what was emitted, in order. -/
def InOrder (emitted : List K) (seen waiting : T → List K) : Prop :=
  ∀ t, (seen t ++ waiting t).Sublist emitted

theorem inOrder_empty : InOrder [] (fun _ : T => ([] : List K)) fun _ => [] :=
  fun _ => List.Sublist.refl _

namespace InOrder

/-- An item is emitted, and nobody gets it. -/
theorem skip (h : InOrder emitted seen waiting) (ks : List K) :
    InOrder (emitted ++ ks) seen waiting :=
  fun t => (h t).trans (List.sublist_append_left _ _)

/-- An item is emitted for a receiver. -/
theorem emit [DecidableEq T] (h : InOrder emitted seen waiting) {t : T}
    (hwaiting : ∀ t', waiting' t' = if t' = t then waiting t' ++ [k] else waiting t') :
    InOrder (emitted ++ [k]) seen waiting' := by
  intro t'
  rw [hwaiting]
  split
  · rw [← List.append_assoc]
    exact (h t').append (List.Sublist.refl _)
  · exact h.skip [k] t'

/-- The first item that waits is seen. -/
theorem receive [DecidableEq T] (h : InOrder emitted seen waiting) {t : T} {rest : List K}
    (hq : waiting t = k :: rest)
    (hwaiting : ∀ t', waiting' t' = if t' = t then rest else waiting t')
    (hseen : ∀ t', seen' t' = if t' = t then seen t' ++ [k] else seen t') :
    InOrder emitted seen' waiting' := by
  intro t'
  have hold := h t'
  rw [hseen, hwaiting]
  by_cases ht : t' = t
  · rw [ht, hq] at hold
    rw [if_pos ht, if_pos ht, ht, List.append_assoc]
    exact hold
  · rwa [if_neg ht, if_neg ht]

/-- Items that wait are lost. -/
theorem drop (h : InOrder emitted seen waiting)
    (hwaiting : ∀ t, (waiting' t).Sublist (waiting t)) : InOrder emitted seen waiting' :=
  fun t => ((List.Sublist.refl _).append (hwaiting t)).trans (h t)

/-- A single receiver that misses nothing gets exactly what was emitted. -/
theorem eq_of_forall_mem (h : InOrder emitted seen waiting) (hnodup : emitted.Nodup) {t : T}
    (hall : ∀ k ∈ emitted, k ∈ seen t ++ waiting t) : seen t ++ waiting t = emitted :=
  (h t).eq_of_length_le (List.subperm_of_subset hnodup hall).length_le

end InOrder

end LocalSoftware
