import Mathlib.Data.List.Infix

/-!
# Lists of components written with a leading separator

`joined sep l` writes every component of `l` after a separator. Comparing two such texts by
prefix is not the same as comparing the component lists by prefix: `joined_prefix_iff` names the
only other case, in which the last component of the shorter list is continued (`Overhangs`).
-/

set_option autoImplicit false

namespace LocalSoftware.Library

universe u

variable {α : Type u}

/-- Every component of `l`, each after a separator. -/
def joined (sep : α) (l : List (List α)) : List α := l.flatMap fun c => sep :: c

/-- `m` agrees with `l` up to the last component of `l`, which `m` continues. -/
def Overhangs (l m : List (List α)) : Prop :=
  ∃ start last ext rest, ext ≠ [] ∧ l = start ++ [last] ∧ m = start ++ (last ++ ext) :: rest

@[simp] theorem joined_nil (sep : α) : joined sep [] = [] := rfl

@[simp] theorem joined_cons (sep : α) (c : List α) (l : List (List α)) :
    joined sep (c :: l) = sep :: (c ++ joined sep l) := rfl

theorem joined_append (sep : α) (l m : List (List α)) :
    joined sep (l ++ m) = joined sep l ++ joined sep m :=
  List.flatMap_append

/-- A text of joined components is empty or starts with the separator. -/
theorem joined_eq_nil_or (sep : α) (l : List (List α)) :
    joined sep l = [] ∨ ∃ t, joined sep l = sep :: t := by
  cases l with
  | nil => exact Or.inl rfl
  | cons c l => exact Or.inr ⟨_, rfl⟩

theorem prefix_of_prefix_append {sep : α} {b q y : List α} (hb : sep ∉ b)
    (hy : y = [] ∨ ∃ t, y = sep :: t) (h : b <+: q ++ y) : b <+: q := by
  induction b generalizing q with
  | nil => exact List.nil_prefix
  | cons a b ih =>
    cases q with
    | nil =>
      obtain rfl | ⟨t, rfl⟩ := hy
      · simp at h
      · have hsep : a = sep := (List.cons_prefix_cons.mp h).1
        exact absurd (hsep ▸ List.mem_cons_self) hb
    | cons c q =>
      obtain ⟨rfl, htl⟩ := List.cons_prefix_cons.mp h
      exact List.cons_prefix_cons.mpr
        ⟨rfl, ih (fun hm => hb (List.mem_cons_of_mem _ hm)) htl⟩

/-- Two texts that both reach a separator agree up to it. -/
theorem eq_and_prefix_of_separated {sep : α} {b q x y : List α} (hb : sep ∉ b) (hq : sep ∉ q)
    (hy : y = [] ∨ ∃ t, y = sep :: t) (h : b ++ sep :: x <+: q ++ y) :
    b = q ∧ sep :: x <+: y := by
  induction b generalizing q with
  | nil =>
    cases q with
    | nil => exact ⟨rfl, h⟩
    | cons c q =>
      have hsep : sep = c := (List.cons_prefix_cons.mp h).1
      exact absurd (hsep ▸ List.mem_cons_self) hq
  | cons a b ih =>
    cases q with
    | nil =>
      obtain rfl | ⟨t, rfl⟩ := hy
      · simp at h
      · have hsep : a = sep := (List.cons_prefix_cons.mp h).1
        exact absurd (hsep ▸ List.mem_cons_self) hb
    | cons c q =>
      obtain ⟨rfl, htl⟩ := List.cons_prefix_cons.mp h
      obtain ⟨rfl, hx⟩ := ih (fun hm => hb (List.mem_cons_of_mem _ hm))
        (fun hm => hq (List.mem_cons_of_mem _ hm)) htl
      exact ⟨rfl, hx⟩

theorem Overhangs.cons {l m : List (List α)} (c : List α) (h : Overhangs l m) :
    Overhangs (c :: l) (c :: m) := by
  obtain ⟨start, last, ext, rest, hext, rfl, rfl⟩ := h
  exact ⟨c :: start, last, ext, rest, hext, rfl, rfl⟩

theorem Overhangs.not_prefix {l m : List (List α)} (h : Overhangs l m) : ¬ l <+: m := by
  obtain ⟨start, last, ext, rest, hext, rfl, rfl⟩ := h
  intro hp
  obtain ⟨heq, -⟩ := List.cons_prefix_cons.mp ((List.prefix_append_right_inj start).mp hp)
  exact hext (by simpa using heq)

theorem Overhangs.joined_prefix (sep : α) {l m : List (List α)} (h : Overhangs l m) :
    joined sep l <+: joined sep m := by
  obtain ⟨start, last, ext, rest, -, rfl, rfl⟩ := h
  refine ⟨ext ++ joined sep rest, ?_⟩
  simp [joined_append]

/-- Comparing joined texts by prefix: either the component lists compare, or the last component
of the shorter list is continued. -/
theorem joined_prefix_iff {sep : α} {l m : List (List α)} (hl : ∀ c ∈ l, sep ∉ c)
    (hm : ∀ c ∈ m, sep ∉ c) :
    joined sep l <+: joined sep m ↔ l <+: m ∨ Overhangs l m := by
  constructor
  · intro h
    induction l generalizing m with
    | nil => exact Or.inl List.nil_prefix
    | cons b bs ih =>
      cases m with
      | nil => simp at h
      | cons q ps =>
        have hb : sep ∉ b := hl b List.mem_cons_self
        have hq : sep ∉ q := hm q List.mem_cons_self
        have htail := joined_eq_nil_or sep ps
        have h' : b ++ joined sep bs <+: q ++ joined sep ps := by simpa using h
        cases bs with
        | nil =>
          obtain ⟨ext, rfl⟩ := prefix_of_prefix_append hb htail (by simpa using h')
          rcases eq_or_ne ext [] with rfl | hext
          · exact Or.inl ⟨ps, by simp⟩
          · exact Or.inr ⟨[], b, ext, ps, hext, rfl, rfl⟩
        | cons b' bs' =>
          obtain ⟨rfl, h''⟩ := eq_and_prefix_of_separated hb hq htail (by simpa using h')
          have hrec := ih (fun c hc => hl c (List.mem_cons_of_mem _ hc))
            (fun c hc => hm c (List.mem_cons_of_mem _ hc)) (by simpa using h'')
          exact hrec.imp (fun hp => List.cons_prefix_cons.mpr ⟨rfl, hp⟩) (Overhangs.cons b)
  · rintro (⟨t, rfl⟩ | h)
    · rw [joined_append]
      exact List.prefix_append _ _
    · exact h.joined_prefix sep

end LocalSoftware.Library
