import Mathlib.Logic.Function.Basic

/-!
# Identifiers handed out in blocks

Several takers draw identifiers from one source. Each holds a block of `width` consecutive numbers
and a cursor in it; when the block is used up, it fetches the next block from a shared counter.

`BlockIds` carries the facts that make this sound as its fields: cursors stay in their blocks, and
two takers hold different blocks. `Issued` are the identifiers drawn so far. `issued_next` says that
drawing adds one identifier, and `not_issued_next` that it is a new one.
-/

set_option autoImplicit false

namespace LocalSoftware

/-- The shared counter, and for each taker the base and the cursor of its block. -/
structure BlockIds (κ : Type) (width : Nat) where
  block : Nat := 0
  cursor : κ → Option (Nat × Nat) := fun _ => none
  bounds : ∀ {k base curr}, cursor k = some (base, curr) →
    base ≤ curr ∧ curr ≤ base + width ∧ ∃ b < block, base = width * b := by simp
  apart : ∀ {k k' base curr curr'}, cursor k = some (base, curr) →
    cursor k' = some (base, curr') → k = k' := by simp

namespace BlockIds

variable {κ : Type} {width : Nat}

/-- The identifiers drawn so far: those of the blocks handed out that are not still ahead of a
cursor. -/
def Issued (s : BlockIds κ width) (n : Nat) : Prop :=
  n < width * s.block ∧ ∀ k base curr, s.cursor k = some (base, curr) → n < curr ∨ base + width ≤ n

variable [DecidableEq κ]

/-- Draws from the current block of a taker. -/
def take (s : BlockIds κ width) (k : κ) (base curr : Nat) (h : s.cursor k = some (base, curr))
    (hlt : curr < base + width) : BlockIds κ width where
  block := s.block
  cursor := Function.update s.cursor k (some (base, curr + 1))
  bounds := by
    intro k' base' curr' h'
    by_cases hk : k' = k
    · subst hk
      rw [Function.update_self, Option.some.injEq, Prod.mk.injEq] at h'
      obtain ⟨rfl, rfl⟩ := h'
      obtain ⟨hle, -, hb⟩ := s.bounds h
      exact ⟨by omega, by omega, hb⟩
    · rw [Function.update_of_ne hk] at h'
      exact s.bounds h'
  apart := by
    intro k₁ k₂ base' c₁ c₂ h₁ h₂
    -- the bases are as before
    have hbase : ∀ {k' c'}, Function.update s.cursor k (some (base, curr + 1)) k' = some (base', c') →
        ∃ c, s.cursor k' = some (base', c) := by
      intro k' c' h'
      by_cases hk : k' = k
      · subst hk
        rw [Function.update_self, Option.some.injEq, Prod.mk.injEq] at h'
        exact ⟨curr, h'.1 ▸ h⟩
      · rw [Function.update_of_ne hk] at h'
        exact ⟨c', h'⟩
    obtain ⟨d₁, h₁⟩ := hbase h₁
    obtain ⟨d₂, h₂⟩ := hbase h₂
    exact s.apart h₁ h₂

/-- Fetches a block and draws its first identifier. -/
def fetch (s : BlockIds κ width) (k : κ) (hpos : 0 < width) : BlockIds κ width where
  block := s.block + 1
  cursor := Function.update s.cursor k (some (width * s.block, width * s.block + 1))
  bounds := by
    intro k' base curr h
    by_cases hk : k' = k
    · subst hk
      rw [Function.update_self, Option.some.injEq, Prod.mk.injEq] at h
      obtain ⟨rfl, rfl⟩ := h
      exact ⟨by omega, by omega, s.block, Nat.lt_succ_self _, rfl⟩
    · rw [Function.update_of_ne hk] at h
      obtain ⟨hle, hle', b, hb, heq⟩ := s.bounds h
      exact ⟨hle, hle', b, by omega, heq⟩
  apart := by
    intro k₁ k₂ base c₁ c₂ h₁ h₂
    -- the new block differs from the blocks of the others
    have hnew : ∀ {k' c'}, k' ≠ k →
        Function.update s.cursor k (some (width * s.block, width * s.block + 1)) k' =
          some (base, c') → s.cursor k' = some (base, c') ∧ base ≠ width * s.block := by
      intro k' c' hk h'
      rw [Function.update_of_ne hk] at h'
      obtain ⟨-, -, b, hb, heq⟩ := s.bounds h'
      refine ⟨h', fun heq' => ?_⟩
      have hbs : b = s.block := Nat.eq_of_mul_eq_mul_left hpos (heq.symm.trans heq')
      omega
    have hown : ∀ {c'}, Function.update s.cursor k (some (width * s.block, width * s.block + 1)) k =
        some (base, c') → base = width * s.block := by
      intro c' h'
      rw [Function.update_self, Option.some.injEq, Prod.mk.injEq] at h'
      exact h'.1.symm
    by_cases hk₁ : k₁ = k <;> by_cases hk₂ : k₂ = k
    · exact hk₁.trans hk₂.symm
    · subst hk₁
      exact absurd (hown h₁) (hnew hk₂ h₂).2
    · subst hk₂
      exact absurd (hown h₂) (hnew hk₁ h₁).2
    · exact s.apart (hnew hk₁ h₁).1 (hnew hk₂ h₂).1

/-- Draws an identifier for a taker. -/
def next (s : BlockIds κ width) (k : κ) (hpos : 0 < width) : Nat × BlockIds κ width :=
  match h : s.cursor k with
  | some (base, curr) =>
    if hlt : curr < base + width then (curr, s.take k base curr h hlt)
    else (width * s.block, s.fetch k hpos)
  | none => (width * s.block, s.fetch k hpos)

variable {s : BlockIds κ width} {k : κ} {hpos : 0 < width}

/-- An identifier is drawn from the current block, or is the first one of the next block. -/
theorem next_cases (s : BlockIds κ width) (k : κ) (hpos : 0 < width) :
    (∃ base curr, ∃ h : s.cursor k = some (base, curr), ∃ hlt : curr < base + width,
      s.next k hpos = (curr, s.take k base curr h hlt)) ∨
    ((∀ base curr, s.cursor k = some (base, curr) → base + width ≤ curr) ∧
      s.next k hpos = (width * s.block, s.fetch k hpos)) := by
  unfold next
  split
  · rename_i base curr h
    by_cases hlt : curr < base + width
    · exact Or.inl ⟨base, curr, h, hlt, dif_pos hlt⟩
    · refine Or.inr ⟨fun base' curr' h' => ?_, dif_neg hlt⟩
      rw [h, Option.some.injEq, Prod.mk.injEq] at h'
      obtain ⟨rfl, rfl⟩ := h'
      omega
  · rename_i h
    refine Or.inr ⟨fun base curr h' => ?_, rfl⟩
    rw [h] at h'
    cases h'

/-- The identifier drawn is a new one. -/
theorem not_issued_next (s : BlockIds κ width) (k : κ) (hpos : 0 < width) :
    ¬ s.Issued (s.next k hpos).1 := by
  rcases s.next_cases k hpos with ⟨base, curr, h, hlt, hnext⟩ | ⟨-, hnext⟩
  · rw [hnext]
    rintro ⟨-, hahead⟩
    rcases hahead k base curr h with hlt' | hle
    · exact Nat.lt_irrefl _ hlt'
    · exact Nat.lt_irrefl _ (Nat.lt_of_lt_of_le hlt hle)
  · rw [hnext]
    exact fun hissued => Nat.lt_irrefl _ hissued.1

/-- A block ends before the next one begins. -/
theorem mul_add_le {b c : Nat} (h : b < c) : width * b + width ≤ width * c := by
  have hmul : width * (b + 1) ≤ width * c := Nat.mul_le_mul_left width h
  rwa [Nat.mul_add, Nat.mul_one] at hmul

theorem issued_take {base curr : Nat} (h : s.cursor k = some (base, curr))
    (hlt : curr < base + width) (m : Nat) :
    (s.take k base curr h hlt).Issued m ↔ s.Issued m ∨ m = curr := by
  obtain ⟨hbase, -, b, hb, hbeq⟩ := s.bounds h
  have hend := @mul_add_le width _ _ hb
  constructor
  · rintro ⟨hm, hahead⟩
    by_cases heq : m = curr
    · exact Or.inr heq
    -- ahead of the old cursor lies one number more, which is the one drawn
    · refine Or.inl ⟨hm, fun k' base' curr' h' => ?_⟩
      by_cases hk : k' = k
      · subst hk
        obtain ⟨rfl, rfl⟩ : base = base' ∧ curr = curr' := by simpa [h] using h'
        have := hahead k' base (curr + 1) (Function.update_self ..)
        omega
      · exact hahead k' base' curr' ((Function.update_of_ne hk ..).trans h')
  · intro hm
    refine ⟨?_, fun k' base' curr' h' => ?_⟩
    · rcases hm with hm | rfl
      · exact hm.1
      · show m < width * s.block
        omega
    · by_cases hk : k' = k
      · subst hk
        obtain ⟨rfl, rfl⟩ : base = base' ∧ curr + 1 = curr' := by simpa [take] using h'
        rcases hm with hm | rfl
        · have := hm.2 k' base curr h
          omega
        · exact Or.inl (Nat.lt_succ_self _)
      · have hold : s.cursor k' = some (base', curr') := (Function.update_of_ne hk ..).symm.trans h'
        rcases hm with hm | rfl
        · exact hm.2 k' base' curr' hold
        · -- the block of another taker lies before or behind
          obtain ⟨hle', -, b', -, hbeq'⟩ := s.bounds hold
          have hne : b' ≠ b := by
            rintro rfl
            rw [← hbeq] at hbeq'
            subst hbeq'
            exact hk (s.apart hold h)
          rcases Nat.lt_or_gt_of_ne hne with hlt' | hgt
          · have := @mul_add_le width _ _ hlt'
            omega
          · have := @mul_add_le width _ _ hgt
            omega

theorem issued_fetch (hused : ∀ base curr, s.cursor k = some (base, curr) → base + width ≤ curr)
    (m : Nat) : (s.fetch k hpos).Issued m ↔ s.Issued m ∨ m = width * s.block := by
  have hnext : width * (s.block + 1) = width * s.block + width := by
    rw [Nat.mul_add, Nat.mul_one]
  constructor
  · rintro ⟨hm, hahead⟩
    by_cases heq : m = width * s.block
    · exact Or.inr heq
    -- of the new block only the first number is behind the cursor
    · have hm' : m < width * s.block + width := by
        rw [← hnext]
        exact hm
      have hnew := hahead k _ _ (Function.update_self ..)
      refine Or.inl ⟨by omega, fun k' base' curr' h' => ?_⟩
      by_cases hk : k' = k
      · subst hk
        have := hused base' curr' h'
        omega
      · exact hahead k' base' curr' ((Function.update_of_ne hk ..).trans h')
  · intro hm
    have hlt : m < width * s.block + 1 := by
      rcases hm with hm | rfl
      · exact Nat.lt_succ_of_lt hm.1
      · exact Nat.lt_succ_self _
    refine ⟨?_, fun k' base' curr' h' => ?_⟩
    · show m < width * (s.block + 1)
      omega
    · by_cases hk : k' = k
      · subst hk
        obtain ⟨-, rfl⟩ : width * s.block = base' ∧ width * s.block + 1 = curr' := by
          simpa [fetch] using h'
        exact Or.inl hlt
      · have hold : s.cursor k' = some (base', curr') := (Function.update_of_ne hk ..).symm.trans h'
        -- the new block lies behind those of the other takers
        rcases hm with hm | rfl
        · exact hm.2 k' base' curr' hold
        · obtain ⟨-, -, b', hb', hbeq'⟩ := s.bounds hold
          have := @mul_add_le width _ _ hb'
          omega

/-- Drawing an identifier adds it to those that were drawn. -/
theorem issued_next (s : BlockIds κ width) (k : κ) (hpos : 0 < width) (m : Nat) :
    (s.next k hpos).2.Issued m ↔ s.Issued m ∨ m = (s.next k hpos).1 := by
  rcases s.next_cases k hpos with ⟨base, curr, h, hlt, hnext⟩ | ⟨hused, hnext⟩
  · rw [hnext]
    exact issued_take h hlt m
  · rw [hnext]
    exact @issued_fetch _ _ _ _ _ hpos hused m

end BlockIds

end LocalSoftware
