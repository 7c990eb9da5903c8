import LocalSoftware.Alloc.Arena
import Mathlib.Data.List.Perm.Basic
import Mathlib.Data.List.Flatten

/-!
# The allocator over any history of requests

`Represents s A live` reads the state as a list `A` of arenas, each a coalesced tiling of its 64
blocks: the arenas are ordered by address, the mapped ranges are those of the arenas and of the
single mappings and are pairwise apart, and the live allocations are the used tiles and the single
mappings. The constructor, `bmalloc` and `bfree` keep a representation, so live allocations are
disjoint and mapped in every reachable state (`live_apart_and_mapped`).
-/

set_option autoImplicit false

namespace LocalSoftware.Alloc

open LocalSoftware.Library.Tiling

/-- Two ranges of bytes have no byte in common. -/
def Apart (r r' : Range) : Prop := r.1 + r.2 ≤ r'.1 ∨ r'.1 + r'.2 ≤ r.1

theorem Apart.symm {r r' : Range} (h : Apart r r') : Apart r' r := Or.symm h

/-- The bytes of an allocation: `num * 16 KiB` from its pointer. -/
def bytes (a : Nat × Nat) : Range := (a.1, a.2 * blockSizeMmap)

/-- The allocations that the used tiles of an arena at `base` stand for. -/
def allocs (base : Nat) (ts : List Tile) : List (Nat × Nat) :=
  (spans 0 ts).filterMap fun x =>
    if x.2.used then some (base + x.1 * blockSizeMmap, x.2.size) else none

/-- The mapped ranges of arenas `A` and single mappings `C`. -/
def ranges (A : List (Nat × List Tile)) (C : List (Nat × Nat)) : List Range :=
  A.map (fun x => (x.1, arenaSize)) ++ C.map bytes

theorem arena_mem_ranges {A : List (Nat × List Tile)} (C : List (Nat × Nat))
    {x : Nat × List Tile} (hx : x ∈ A) : (x.1, arenaSize) ∈ ranges A C :=
  List.mem_append_left _ (List.mem_map_of_mem hx)

theorem custom_mem_ranges (A : List (Nat × List Tile)) {C : List (Nat × Nat)} {c : Nat × Nat}
    (hc : c ∈ C) : bytes c ∈ ranges A C :=
  List.mem_append_right _ (List.mem_map_of_mem hc)

/-- The state `s` stores the arenas `A`, and `live` are the allocations handed out. -/
structure Represents (s : AllocatorWrapper) (A : List (Nat × List Tile))
    (live : List (Nat × Nat)) : Prop where
  arenas : s.arenas = A.map Prod.fst
  sorted : A.Pairwise fun x y => x.1 < y.1
  tiled : ∀ x ∈ A, Tiled (tags (s.segments x.1)) blocksInArena x.2
  coalesced : ∀ x ∈ A, Coalesced x.2
  custom : ∀ c ∈ s.customArenas, blocksInArena < c.2
  mapped : s.mapped.Perm (ranges A s.customArenas)
  apart : (ranges A s.customArenas).Pairwise Apart
  live : live.Perm (A.flatMap (fun x => allocs x.1 x.2) ++ s.customArenas)

/-- `mmap` succeeds with a range apart from those currently mapped. -/
def MmapFresh (s : AllocatorWrapper) (mmap : Nat → Nat) : Prop :=
  ∀ len, 0 < len → ∀ r ∈ s.mapped, Apart (mmap len, len) r

/-- The states of an allocator, with the allocations live in them: any sequence of requests of at
least one block and of releases of live pointers. -/
inductive Reachable : AllocatorWrapper → List (Nat × Nat) → Prop
  | new (mmap : Nat → Nat) : Reachable (.new mmap) []
  | bmalloc {s s' : AllocatorWrapper} {live : List (Nat × Nat)} {mmap : Nat → Nat} {num p : Nat} :
      Reachable s live → 1 ≤ num → MmapFresh s mmap → s.bmalloc mmap num = some (p, s') →
      Reachable s' ((p, num) :: live)
  | bfree {s : AllocatorWrapper} {live : List (Nat × Nat)} {p num : Nat} :
      Reachable s live → (p, num) ∈ live → Reachable (s.bfree p) (live.erase (p, num))

/-! ## Reading and writing one arena -/

theorem segments_setSegments (s : AllocatorWrapper) (a b : Nat) (arr : Segments) :
    (s.setSegments a arr).segments b = if b = a then arr else s.segments b := by
  unfold AllocatorWrapper.setSegments AllocatorWrapper.segments
  by_cases h : b = a
  · subst h
    simp
  · simp [h]

theorem allocs_append (base : Nat) (pre ts : List Tile) :
    allocs base (pre ++ ts) = allocs base pre ++
      (spans (total pre) ts).filterMap fun x =>
        if x.2.used then some (base + x.1 * blockSizeMmap, x.2.size) else none := by
  simp [allocs, List.filterMap_append]

/-- The used tile behind `pre` is one allocation; the others do not depend on it. -/
theorem allocs_used (base : Nat) (pre post : List Tile) (m : Nat) :
    (allocs base (pre ++ ⟨m, true⟩ :: post)).Perm
      ((base + total pre * blockSizeMmap, m) :: allocs base (pre ++ ⟨m, false⟩ :: post)) := by
  simp only [allocs_append, spans, List.filterMap_cons, if_true, Bool.false_eq_true, if_false]
  exact List.perm_middle

theorem allocs_cut (base : Nat) (pre post : List Tile) {num m : Nat} (h : num ≤ m) :
    allocs base (pre ++ (cut num m ++ post)) = allocs base (pre ++ ⟨num, true⟩ ::
      ⟨m - num, false⟩ :: post) := by
  simp only [allocs_append, cut]
  rcases Nat.eq_or_lt_of_le h with rfl | hlt
  · simp [spans]
  · simp [spans, Nat.ne_of_lt hlt]

theorem allocs_free_split (base : Nat) (pre post : List Tile) (a b : Nat) :
    allocs base (pre ++ ⟨a, false⟩ :: ⟨b, false⟩ :: post) =
      allocs base (pre ++ ⟨a + b, false⟩ :: post) := by
  simp only [allocs_append, spans, List.filterMap_cons, Bool.false_eq_true, if_false, Nat.add_assoc]

/-- Taking `num` blocks of a free tile adds one allocation at the start of the tile. -/
theorem allocs_occupy (base : Nat) (pre post : List Tile) {num m : Nat} (h : num ≤ m) :
    (allocs base (pre ++ (cut num m ++ post))).Perm
      ((base + total pre * blockSizeMmap, num) :: allocs base (pre ++ ⟨m, false⟩ :: post)) := by
  rw [allocs_cut base pre post h]
  refine (allocs_used base pre _ num).trans ?_
  rw [allocs_free_split, Nat.add_sub_cancel' h]

theorem allocs_freeRight (base : Nat) (pre post : List Tile) (m : Nat) :
    allocs base (pre ++ freeRight m post) = allocs base (pre ++ ⟨m, false⟩ :: post) := by
  cases post with
  | nil => rfl
  | cons t post =>
      obtain ⟨size, used⟩ := t
      cases used with
      | true => rfl
      | false => exact (allocs_free_split base pre post m size).symm

/-- Merging does not change the allocations. -/
theorem allocs_freeAt (base : Nat) (pre post : List Tile) (m : Nat) :
    allocs base (freeAt pre m post) = allocs base (pre ++ ⟨m, false⟩ :: post) := by
  rcases List.eq_nil_or_concat pre with rfl | ⟨pre, t, rfl⟩
  · exact allocs_freeRight base [] post m
  · rw [List.concat_eq_append]
    obtain ⟨l, used⟩ := t
    cases used with
    | true =>
        rw [freeAt_concat_used]
        have hright := allocs_freeRight base (pre ++ [⟨l, true⟩]) post m
        rw [List.append_assoc, List.append_assoc] at hright
        rw [List.append_assoc]
        exact hright
    | false =>
        rw [freeAt_concat_free, allocs_freeRight, ← allocs_free_split]
        simp

/-- Every allocation of an arena is a used tile of it. -/
theorem mem_allocs {base p m : Nat} {ts : List Tile} (h : (p, m) ∈ allocs base ts) :
    ∃ pre post, ts = pre ++ ⟨m, true⟩ :: post ∧ p = base + total pre * blockSizeMmap := by
  obtain ⟨⟨k, t⟩, hmem, ht⟩ := List.mem_filterMap.1 h
  obtain ⟨pre, post, rfl, rfl⟩ := mem_spans_iff.1 hmem
  obtain ⟨size, used⟩ := t
  cases used with
  | false => simp at ht
  | true =>
      simp only [if_true, Option.some.injEq, Prod.mk.injEq] at ht
      obtain ⟨rfl, rfl⟩ := ht
      exact ⟨pre, post, rfl, by simp⟩

theorem tile_pos {h : Nat → Option Tag} {n m : Nat} {used : Bool} {pre post : List Tile}
    (ht : Tiled h n (pre ++ ⟨m, used⟩ :: post)) : 0 < m ∧ total pre + m + total post = n := by
  obtain ⟨c, hl⟩ := ht
  obtain ⟨k, d, -, hpos, -, hrest⟩ := lay_append.1 hl
  have hend := hl.end_eq
  simp only [total_append, total_cons] at hend
  exact ⟨hpos, by omega⟩

/-! ## Steps on representations -/

/-- One arena of a representation is overwritten. -/
theorem Represents.setArena {s : AllocatorWrapper} {A₁ A₂ : List (Nat × List Tile)}
    {a : Nat} {ts ts' : List Tile} {live live' : List (Nat × Nat)} {arr : Segments}
    (h : Represents s (A₁ ++ (a, ts) :: A₂) live) (ht : Tiled (tags arr) blocksInArena ts')
    (hc : Coalesced ts')
    (hlive : live'.Perm ((A₁ ++ (a, ts') :: A₂).flatMap (fun x => allocs x.1 x.2) ++
      s.customArenas)) :
    Represents (s.setSegments a arr) (A₁ ++ (a, ts') :: A₂) live' := by
  have hsorted := List.pairwise_append.1 h.sorted
  have hsorted' := List.pairwise_cons.1 hsorted.2.1
  -- the other arenas have other bases, so their entries are not touched
  have hne : ∀ x ∈ A₁ ++ A₂, x.1 ≠ a := by
    intro x hx
    rcases List.mem_append.1 hx with hx | hx
    · exact Nat.ne_of_lt (hsorted.2.2 x hx (a, ts) (by simp))
    · exact Nat.ne_of_gt (hsorted'.1 x hx)
  constructor
  · rw [show (s.setSegments a arr).arenas = s.arenas from rfl, h.arenas]
    simp
  · exact List.pairwise_append.2 ⟨hsorted.1, List.pairwise_cons.2 ⟨hsorted'.1, hsorted'.2⟩,
      fun x hx y hy => by
        rcases List.mem_cons.1 hy with rfl | hy
        · exact hsorted.2.2 x hx (a, ts) (by simp)
        · exact hsorted.2.2 x hx y (by simp [hy])⟩
  · intro x hx
    rw [segments_setSegments]
    rcases List.mem_append.1 hx with hx | hx
    · rw [if_neg (hne x (by simp [hx]))]
      exact h.tiled x (by simp [hx])
    · rcases List.mem_cons.1 hx with rfl | hx
      · rw [if_pos rfl]
        exact ht
      · rw [if_neg (hne x (by simp [hx]))]
        exact h.tiled x (by simp [hx])
  · intro x hx
    rcases List.mem_append.1 hx with hx | hx
    · exact h.coalesced x (by simp [hx])
    · rcases List.mem_cons.1 hx with rfl | hx
      · exact hc
      · exact h.coalesced x (by simp [hx])
  · exact h.custom
  · have hm := h.mapped
    simp only [ranges, List.map_append, List.map_cons] at hm ⊢
    exact hm
  · have ha := h.apart
    simp only [ranges, List.map_append, List.map_cons] at ha ⊢
    exact ha
  · exact hlive

/-- The place of an address in the order of the arenas. -/
theorem insert_arena_eq {A : List (Nat × List Tile)} (a : Nat)
    (hsorted : A.Pairwise fun x y => x.1 < y.1) (hne : ∀ x ∈ A, x.1 ≠ a) :
    ∃ A₁ A₂, A = A₁ ++ A₂ ∧ (∀ x ∈ A₁, x.1 < a) ∧ (∀ x ∈ A₂, a < x.1) ∧
      (A.map Prod.fst).takeWhile (fun p => !decide (a < p)) = A₁.map Prod.fst ∧
      (A.map Prod.fst).dropWhile (fun p => !decide (a < p)) = A₂.map Prod.fst := by
  induction A with
  | nil => exact ⟨[], [], by simp⟩
  | cons x A ih =>
      have hs := List.pairwise_cons.1 hsorted
      by_cases hx : a < x.1
      · refine ⟨[], x :: A, rfl, by simp, ?_, by simp [hx], by simp [hx]⟩
        intro y hy
        rcases List.mem_cons.1 hy with rfl | hy
        · exact hx
        · exact Nat.lt_trans hx (hs.1 y hy)
      · obtain ⟨A₁, A₂, rfl, h1, h2, h3, h4⟩ := ih hs.2 fun y hy => hne y (by simp [hy])
        refine ⟨x :: A₁, A₂, rfl, ?_, h2, by simpa [hx] using h3, by simpa [hx] using h4⟩
        intro y hy
        rcases List.mem_cons.1 hy with rfl | hy
        · have := hne y (by simp)
          omega
        · exact h1 y hy

section AddArena

variable (s : AllocatorWrapper) (mmap : Nat → Nat)

theorem arenaSize_pos : 0 < arenaSize := by decide

theorem arena_bytes : blocksInArena * blockSizeMmap = arenaSize := by
  simp [arenaSize, Nat.mul_comm]

@[simp] theorem addArena_fst : (s.addArena mmap blocksInArena).1 = mmap arenaSize := by
  simp [AllocatorWrapper.addArena, arena_bytes]

@[simp] theorem addArena_arenas : (s.addArena mmap blocksInArena).2.arenas =
    (s.arenas.takeWhile fun p => !decide (mmap arenaSize < p)) ++
      mmap arenaSize :: s.arenas.dropWhile fun p => !decide (mmap arenaSize < p) := by
  simp [AllocatorWrapper.addArena, arena_bytes]

@[simp] theorem addArena_customArenas :
    (s.addArena mmap blocksInArena).2.customArenas = s.customArenas := by
  simp [AllocatorWrapper.addArena]

@[simp] theorem addArena_mapped :
    (s.addArena mmap blocksInArena).2.mapped = (mmap arenaSize, arenaSize) :: s.mapped := by
  simp [AllocatorWrapper.addArena, arena_bytes]

theorem segments_addArena (b : Nat) : (s.addArena mmap blocksInArena).2.segments b =
    if b = mmap arenaSize then
      Function.update (s.segments (mmap arenaSize)) 0 ⟨bits7 blocksInArena, 0, false, false⟩
    else s.segments b := by
  simp only [AllocatorWrapper.addArena, arena_bytes, le_refl, if_true]
  unfold AllocatorWrapper.segments
  by_cases hb : b = mmap arenaSize
  · subst hb
    simp
  · simp [hb]

end AddArena

/-- A new arena: one free segment of 64 blocks, in its place among the arenas. -/
theorem Represents.addArena {s : AllocatorWrapper} {A : List (Nat × List Tile)}
    {live : List (Nat × Nat)} (h : Represents s A live) {mmap : Nat → Nat}
    (hf : MmapFresh s mmap) :
    ∃ A₁ A₂, A = A₁ ++ A₂ ∧ Represents (s.addArena mmap blocksInArena).2
      (A₁ ++ (mmap arenaSize, [⟨blocksInArena, false⟩]) :: A₂) live := by
  -- the new mapping lies apart from all that is mapped, so no arena has its base
  have hfresh : ∀ r ∈ ranges A s.customArenas, Apart (mmap arenaSize, arenaSize) r :=
    fun r hr => hf arenaSize (by decide) r (h.mapped.mem_iff.2 hr)
  have hne : ∀ x ∈ A, x.1 ≠ mmap arenaSize := by
    intro x hx heq
    have hapart := hfresh _ (arena_mem_ranges s.customArenas hx)
    have hpos := arenaSize_pos
    unfold Apart at hapart
    simp only at hapart
    omega
  obtain ⟨A₁, A₂, rfl, hlow, hhigh, htake, hdrop⟩ := insert_arena_eq (mmap arenaSize) h.sorted hne
  refine ⟨A₁, A₂, rfl, ?_⟩
  have hsorted := List.pairwise_append.1 h.sorted
  constructor
  · rw [addArena_arenas, h.arenas, htake, hdrop]
    simp
  · refine List.pairwise_append.2 ⟨hsorted.1, List.pairwise_cons.2 ⟨hhigh, hsorted.2.1⟩, ?_⟩
    intro x hx y hy
    rcases List.mem_cons.1 hy with rfl | hy
    · exact hlow x hx
    · exact hsorted.2.2 x hx y hy
  · intro x hx
    rw [segments_addArena]
    rcases List.mem_append.1 hx with hx | hx
    · rw [if_neg (hne x (by simp [hx]))]
      exact h.tiled x (by simp [hx])
    · rcases List.mem_cons.1 hx with rfl | hx
      · rw [if_pos rfl]
        exact ⟨0, by decide, by simp [tags, tagOf, bits7_of_le], rfl, rfl⟩
      · rw [if_neg (hne x (by simp [hx]))]
        exact h.tiled x (by simp [hx])
  · intro x hx
    rcases List.mem_append.1 hx with hx | hx
    · exact h.coalesced x (by simp [hx])
    · rcases List.mem_cons.1 hx with rfl | hx
      · simp [Coalesced]
      · exact h.coalesced x (by simp [hx])
  · rw [addArena_customArenas]
    exact h.custom
  · rw [addArena_mapped, addArena_customArenas]
    refine (List.Perm.cons _ h.mapped).trans ?_
    simp only [ranges, List.map_append, List.map_cons, List.append_assoc, List.cons_append]
    exact List.perm_middle.symm
  · rw [addArena_customArenas]
    have hcons : ((mmap arenaSize, arenaSize) :: ranges (A₁ ++ A₂) s.customArenas).Pairwise
        Apart := List.pairwise_cons.2 ⟨hfresh, h.apart⟩
    refine (List.Perm.pairwise_iff (fun hxy => Apart.symm hxy) ?_).1 hcons
    simp only [ranges, List.map_append, List.map_cons, List.append_assoc, List.cons_append]
    exact List.perm_middle.symm
  · rw [addArena_customArenas]
    refine h.live.trans ?_
    simp [allocs, spans]

/-! ## `bmalloc` -/

/-- A request above 64 blocks: one more single mapping. -/
theorem Represents.addCustom {s : AllocatorWrapper} {A : List (Nat × List Tile)}
    {live : List (Nat × Nat)} (h : Represents s A live) {mmap : Nat → Nat}
    (hf : MmapFresh s mmap) {num : Nat} (hnum : blocksInArena < num) :
    Represents (s.addArena mmap num).2 A ((mmap (num * blockSizeMmap), num) :: live) := by
  have hpos : 0 < num * blockSizeMmap := Nat.mul_pos (by omega) (by decide)
  have hfresh : ∀ r ∈ ranges A s.customArenas,
      Apart (mmap (num * blockSizeMmap), num * blockSizeMmap) r :=
    fun r hr => hf _ hpos r (h.mapped.mem_iff.2 hr)
  have hnew : s.isCustom (mmap (num * blockSizeMmap)) = false := by
    refine List.any_eq_false.2 fun c hc heq => ?_
    have hapart := hfresh _ (custom_mem_ranges A hc)
    have hlarge := h.custom c hc
    have hcpos : 0 < c.2 * blockSizeMmap := Nat.mul_pos (by omega) (by decide)
    unfold Apart bytes at hapart
    simp only [beq_iff_eq] at heq hapart
    omega
  have hadd : (s.addArena mmap num).2 =
      { s with
        mapped := (mmap (num * blockSizeMmap), num * blockSizeMmap) :: s.mapped
        customArenas := (mmap (num * blockSizeMmap), num) :: s.customArenas } := by
    unfold AllocatorWrapper.addArena
    unfold AllocatorWrapper.isCustom at hnew ⊢
    simp [Nat.not_le.2 hnum, hnew]
  rw [hadd]
  exact
    { arenas := h.arenas
      sorted := h.sorted
      tiled := h.tiled
      coalesced := h.coalesced
      custom := List.forall_mem_cons.2 ⟨hnum, h.custom⟩
      mapped := (List.Perm.cons _ h.mapped).trans List.perm_middle.symm
      apart := (List.Perm.pairwise_iff (fun hxy => Apart.symm hxy) List.perm_middle.symm).1
        (List.pairwise_cons.2 ⟨hfresh, h.apart⟩)
      live := (List.Perm.cons _ h.live).trans List.perm_middle.symm }

/-- An arena that serves a request of `num` blocks. -/
theorem Represents.occupyIn {s : AllocatorWrapper} {A : List (Nat × List Tile)}
    {live : List (Nat × Nat)} (h : Represents s A live) {a num m : Nat} {pre post : List Tile}
    (ha : (a, pre ++ ⟨m, false⟩ :: post) ∈ A) (hnum : 1 ≤ num) (hm : num ≤ m) :
    ∃ A', Represents (s.setSegments a (occupy (s.segments a) (total pre) num)) A'
      ((a + total pre * blockSizeMmap, num) :: live) := by
  obtain ⟨A₁, A₂, rfl⟩ := List.append_of_mem ha
  refine ⟨_, h.setArena (occupy_tiled (h.tiled _ ha) hnum hm) (cut_coalesced (h.coalesced _ ha)) ?_⟩
  refine (List.Perm.cons _ h.live).trans ?_
  simp only [List.flatMap_append, List.flatMap_cons, List.append_assoc]
  refine List.perm_middle.symm.trans (List.Perm.append_left _ ?_)
  rw [← List.cons_append]
  exact List.Perm.append_right _ (allocs_occupy a pre post hm).symm

/-- On a representation the loop over the arenas ends. It serves the request from a free tile that
is long enough, or every free tile of these arenas is too short and the request is left to a new
arena. -/
theorem Represents.allocIn {s : AllocatorWrapper} {A : List (Nat × List Tile)}
    {live : List (Nat × Nat)} (h : Represents s A live) (num : Nat) :
    ∀ {l : List (Nat × List Tile)}, (∀ x ∈ l, x ∈ A) →
      ((∀ x ∈ l, ∀ m, ⟨m, false⟩ ∈ x.2 → m < num) ∧
        s.allocIn num (l.map Prod.fst) = some none) ∨
      ∃ a pre m post, (a, pre ++ ⟨m, false⟩ :: post) ∈ A ∧ num ≤ m ∧
        s.allocIn num (l.map Prod.fst) = some (some (a + total pre * blockSizeMmap,
          s.setSegments a (occupy (s.segments a) (total pre) num)))
  | [], _ => Or.inl ⟨fun _ hx => absurd hx List.not_mem_nil, rfl⟩
  | (a, ts) :: l, hl => by
      have ha := hl (a, ts) (by simp)
      have hrec := h.allocIn num (l := l) fun x hx => hl x (by simp [hx])
      -- an arena is never taken for a single mapping: both are mapped and lie apart
      have hcustom : s.isCustom a = false := by
        refine List.any_eq_false.2 fun c hc heq => ?_
        have hp := List.pairwise_append.1 h.apart
        have hapart := hp.2.2 _ (List.mem_map_of_mem ha) _ (List.mem_map_of_mem hc)
        have hlarge := h.custom c hc
        have hcpos : 0 < c.2 * blockSizeMmap := Nat.mul_pos (by omega) (by decide)
        have hpos := arenaSize_pos
        unfold Apart bytes at hapart
        simp only [beq_iff_eq] at heq hapart
        omega
      obtain ⟨c, hlay⟩ := h.tiled _ ha
      have hscan := scan_eq_lastFit num none hlay
        (show ts.length ≤ blocksInArena by have := lay_length_le hlay; simpa using this)
      simp only [List.map_cons, AllocatorWrapper.allocIn, hcustom, Bool.false_eq_true, if_false,
        hscan]
      -- no free tile of this arena is long enough, or the last that is gets cut
      cases hfit : lastFit num 0 ts none with
      | none =>
          refine hrec.imp_left fun hrest => ⟨?_, hrest.2⟩
          intro x hx
          rcases List.mem_cons.1 hx with rfl | hx
          · exact (lastFit_eq_none hfit).2
          · exact hrest.1 x hx
      | some k =>
          rcases lastFit_eq_some hfit with hnone | ⟨pre, m, post, rfl, hm, rfl⟩
          · exact absurd hnone (by simp)
          · refine Or.inr ⟨a, pre, m, post, ha, hm, ?_⟩
            simp

/-- A request of at most 64 blocks is served by the first blocks of a new arena when every free tile
is too short, and by a free tile that is long enough otherwise. -/
theorem Represents.bmalloc_cases {s : AllocatorWrapper} {A : List (Nat × List Tile)}
    {live : List (Nat × Nat)} (h : Represents s A live) (mmap : Nat → Nat) {num : Nat}
    (hle : num ≤ blocksInArena) :
    ((∀ x ∈ A, ∀ m, ⟨m, false⟩ ∈ x.2 → m < num) ∧
      s.bmalloc mmap num = some (mmap arenaSize,
        (s.addArena mmap blocksInArena).2.setSegments (mmap arenaSize)
          (occupyFirst ((s.addArena mmap blocksInArena).2.segments (mmap arenaSize)) num))) ∨
    ∃ a pre m post, (a, pre ++ ⟨m, false⟩ :: post) ∈ A ∧ num ≤ m ∧
      s.bmalloc mmap num = some (a + total pre * blockSizeMmap,
        s.setSegments a (occupy (s.segments a) (total pre) num)) := by
  unfold AllocatorWrapper.bmalloc
  rw [if_neg (Nat.not_lt.2 hle)]
  rcases h.allocIn num (l := A) fun _ hx => hx with ⟨hshort, hnone⟩ | ⟨a, pre, m, post, ha, hm, hsome⟩
  · rw [← h.arenas] at hnone
    rw [hnone]
    simp only [addArena_fst]
    exact Or.inl ⟨hshort, trivial⟩
  · rw [← h.arenas] at hsome
    rw [hsome]
    exact Or.inr ⟨a, pre, m, post, ha, hm, rfl⟩

/-- In a new arena the code for its first blocks cuts the one free segment. -/
theorem occupyFirst_eq {arr : Segments} {num : Nat} (hlen : (arr 0).length = blocksInArena)
    (hnum : 1 ≤ num) (hle : num ≤ blocksInArena) : occupyFirst arr num = occupy arr 0 num := by
  funext x
  rw [occupy_apply arr hlen hnum hle]
  unfold occupyFirst
  rcases Nat.eq_or_lt_of_le hle with rfl | hlt
  · simp only [lt_irrefl, if_false, Function.update_apply, Nat.zero_add, and_false]
  · simp only [hlt, if_true, Function.update_apply, Nat.zero_add, lt_irrefl, and_false, if_false,
      and_true, bits7_of_le (Nat.zero_le blocksInArena)]
    by_cases h0 : x = 0
    · simp [h0, show ¬ 0 = num by omega]
    · simp [h0]

/-- The first `num` blocks of a new arena become one live allocation. -/
theorem Represents.occupyNew {s : AllocatorWrapper} {A : List (Nat × List Tile)}
    {live : List (Nat × Nat)} (h : Represents s A live) {mmap : Nat → Nat} (hf : MmapFresh s mmap)
    {num : Nat} (hnum : 1 ≤ num) (hle : num ≤ blocksInArena) :
    ∃ A', Represents ((s.addArena mmap blocksInArena).2.setSegments (mmap arenaSize)
      (occupyFirst ((s.addArena mmap blocksInArena).2.segments (mmap arenaSize)) num)) A'
        ((mmap arenaSize, num) :: live) := by
  obtain ⟨A₁, A₂, rfl, hnew⟩ := h.addArena hf
  obtain ⟨A', hocc⟩ := @Represents.occupyIn _ _ _ hnew (mmap arenaSize) num blocksInArena [] []
    (by simp) hnum hle
  have hfirst : occupyFirst ((s.addArena mmap blocksInArena).2.segments (mmap arenaSize)) num =
      occupy ((s.addArena mmap blocksInArena).2.segments (mmap arenaSize)) 0 num :=
    occupyFirst_eq (by simp [segments_addArena, bits7_of_le]) hnum hle
  rw [hfirst]
  exact ⟨A', by simpa using hocc⟩

theorem bmalloc_custom (s : AllocatorWrapper) (mmap : Nat → Nat) {num : Nat}
    (hnum : blocksInArena < num) :
    s.bmalloc mmap num = some (mmap (num * blockSizeMmap), (s.addArena mmap num).2) := by
  have hfst : (s.addArena mmap num).1 = mmap (num * blockSizeMmap) := by
    unfold AllocatorWrapper.addArena
    simp [Nat.not_le.2 hnum]
  unfold AllocatorWrapper.bmalloc
  rw [if_pos hnum]
  exact congrArg some (Prod.ext hfst rfl)

/-- `bmalloc` ends and keeps a representation; the block it returns is a new live allocation. -/
theorem Represents.bmalloc {s : AllocatorWrapper} {A : List (Nat × List Tile)}
    {live : List (Nat × Nat)} (h : Represents s A live) {mmap : Nat → Nat} {num : Nat}
    (hnum : 1 ≤ num) (hf : MmapFresh s mmap) :
    ∃ p s' A', s.bmalloc mmap num = some (p, s') ∧ Represents s' A' ((p, num) :: live) := by
  by_cases hlarge : blocksInArena < num
  · exact ⟨_, _, A, bmalloc_custom s mmap hlarge, h.addCustom hf hlarge⟩
  · have hle : num ≤ blocksInArena := Nat.not_lt.1 hlarge
    rcases h.bmalloc_cases mmap hle with ⟨-, heq⟩ | ⟨a, pre, m, post, ha, hm, heq⟩
    · obtain ⟨A', hA'⟩ := h.occupyNew hf hnum hle
      exact ⟨_, _, A', heq, hA'⟩
    · obtain ⟨A', hA'⟩ := h.occupyIn ha hnum hm
      exact ⟨_, _, A', heq, hA'⟩

/-! ## `bfree` -/

/-- A range in the middle of pairwise apart ranges is apart from every other one. -/
theorem apart_of_middle {l₁ l₂ : List Range} {r : Range} (h : (l₁ ++ r :: l₂).Pairwise Apart) :
    ∀ r' ∈ l₁ ++ l₂, Apart r r' := by
  have hcons := (List.Perm.pairwise_iff (fun hxy => Apart.symm hxy) List.perm_middle).1 h
  exact (List.pairwise_cons.1 hcons).1

/-- Nonempty ranges that are apart start at different addresses. -/
theorem Apart.ne {r r' : Range} (h : Apart r r') (hr : 0 < r.2) (hr' : 0 < r'.2) : r'.1 ≠ r.1 := by
  unfold Apart at h
  omega

theorem filter_key_eq {α : Type} (f : α → Nat) {l₁ l₂ : List α} {x : α}
    (h : ∀ y ∈ l₁ ++ l₂, f y ≠ f x) :
    (l₁ ++ x :: l₂).filter (fun y => f y != f x) = l₁ ++ l₂ := by
  have hkeep : ∀ l : List α, (∀ y ∈ l, f y ≠ f x) → l.filter (fun y => f y != f x) = l :=
    fun l hl => List.filter_eq_self.2 fun y hy => by simpa using hl y hy
  rw [List.filter_append, List.filter_cons_of_neg (by simp),
    hkeep l₁ fun y hy => h y (by simp [hy]), hkeep l₂ fun y hy => h y (by simp [hy])]

/-- Releasing a single mapping unmaps it. -/
theorem Represents.freeCustom {s : AllocatorWrapper} {A : List (Nat × List Tile)}
    {live : List (Nat × Nat)} (h : Represents s A live) {p num : Nat}
    (hp : (p, num) ∈ s.customArenas) : Represents (s.bfree p) A (live.erase (p, num)) := by
  obtain ⟨C₁, C₂, hC⟩ := List.append_of_mem hp
  have hpos : ∀ c ∈ s.customArenas, 0 < (bytes c).2 := fun c hc =>
    Nat.mul_pos (Nat.lt_of_le_of_lt (Nat.zero_le _) (h.custom c hc)) (by decide)
  have hranges : ranges A s.customArenas =
      (A.map (fun x => (x.1, arenaSize)) ++ C₁.map bytes) ++ bytes (p, num) :: C₂.map bytes := by
    simp [ranges, hC]
  -- all other mappings lie apart from this one, so none has its address
  have hothers := apart_of_middle (hranges ▸ h.apart)
  have harena : ∀ x ∈ A, x.1 ≠ p := fun x hx =>
    (hothers (x.1, arenaSize) (List.mem_append_left _ (List.mem_append_left _
      (List.mem_map_of_mem hx)))).ne (hpos _ hp) arenaSize_pos
  have hcustom : ∀ c ∈ C₁ ++ C₂, c.1 ≠ p := by
    intro c hc
    have hmem : bytes c ∈ (A.map (fun x => (x.1, arenaSize)) ++ C₁.map bytes) ++ C₂.map bytes := by
      rcases List.mem_append.1 hc with hc | hc
      · exact List.mem_append_left _ (List.mem_append_right _ (List.mem_map_of_mem hc))
      · exact List.mem_append_right _ (List.mem_map_of_mem hc)
    refine (hothers _ hmem).ne (hpos _ hp) (hpos c ?_)
    rw [hC]
    rcases List.mem_append.1 hc with hc | hc <;> simp [hc]
  have hfind : s.customArenas.find? (fun c => c.1 == p) = some (p, num) := by
    rw [hC, List.find?_append, List.find?_eq_none.2 fun c hc => by
      simpa using hcustom c (by simp [hc])]
    simp
  have hfilter : s.customArenas.filter (fun c => c.1 != p) = C₁ ++ C₂ := by
    rw [hC]
    exact filter_key_eq (x := (p, num)) Prod.fst hcustom
  have harenas : s.arenas.filter (fun a => a != p) = s.arenas := by
    refine List.filter_eq_self.2 fun a ha => ?_
    rw [h.arenas] at ha
    obtain ⟨x, hx, rfl⟩ := List.mem_map.1 ha
    simpa using harena x hx
  -- the arenas have other addresses too, so only the entry of the mapping goes
  have hfree : s.bfree p = { s with
      mapped := s.mapped.erase (bytes (p, num))
      customArenas := C₁ ++ C₂ } := by
    unfold AllocatorWrapper.bfree
    simp only [hfind, hfilter, harenas]
    rfl
  rw [hfree]
  exact
    { arenas := h.arenas
      sorted := h.sorted
      tiled := h.tiled
      coalesced := h.coalesced
      custom := fun c hc => h.custom c (by
        rw [hC]
        rcases List.mem_append.1 hc with hc | hc <;> simp [hc])
      mapped := by
        refine (h.mapped.erase _).trans ?_
        rw [hranges]
        refine (List.perm_middle.erase _).trans ?_
        rw [List.erase_cons_head]
        simp [ranges]
      apart := by
        have hcons := (List.Perm.pairwise_iff (fun hxy => Apart.symm hxy) List.perm_middle).1
          (hranges ▸ h.apart)
        have hrest := (List.pairwise_cons.1 hcons).2
        simpa [ranges] using hrest
      live := by
        refine (h.live.erase _).trans ?_
        rw [hC, ← List.append_assoc]
        refine (List.perm_middle.erase _).trans ?_
        rw [List.erase_cons_head, List.append_assoc] }

theorem freeIn_skip (s : AllocatorWrapper) {p : Nat} : ∀ {l rest : List Nat},
    (∀ a ∈ l, p < a) → s.freeIn p (l ++ rest) = s.freeIn p rest
  | [], _, _ => rfl
  | a :: l, rest, h => by
      rw [List.cons_append, AllocatorWrapper.freeIn, if_neg (Nat.not_le.2 (h a (by simp)))]
      exact freeIn_skip s fun b hb => h b (by simp [hb])

/-- An arena without allocations is given back. -/
theorem Represents.dropArena {s : AllocatorWrapper} {A₁ A₂ : List (Nat × List Tile)} {a : Nat}
    {ts : List Tile} {live : List (Nat × Nat)} (h : Represents s (A₁ ++ (a, ts) :: A₂) live)
    (hempty : allocs a ts = []) :
    Represents
      { s with
        arenas := s.arenas.filter fun b => b != a
        segmentInfo := Function.update s.segmentInfo a none
        mapped := s.mapped.erase (a, arenaSize) } (A₁ ++ A₂) live := by
  have hsorted := List.pairwise_append.1 h.sorted
  have hsorted' := List.pairwise_cons.1 hsorted.2.1
  -- no other arena has this base
  have hne : ∀ x ∈ A₁ ++ A₂, x.1 ≠ a := by
    intro x hx
    rcases List.mem_append.1 hx with hx | hx
    · exact Nat.ne_of_lt (hsorted.2.2 x hx (a, ts) (by simp))
    · exact Nat.ne_of_gt (hsorted'.1 x hx)
  have hmem : ∀ x ∈ A₁ ++ A₂, x ∈ A₁ ++ (a, ts) :: A₂ := by
    intro x hx
    rcases List.mem_append.1 hx with hx | hx <;> simp [hx]
  have hranges : ranges (A₁ ++ (a, ts) :: A₂) s.customArenas =
      A₁.map (fun x => (x.1, arenaSize)) ++ (a, arenaSize) ::
        (A₂.map (fun x => (x.1, arenaSize)) ++ s.customArenas.map bytes) := by
    simp [ranges]
  exact
    { arenas := by
        simp only [h.arenas]
        rw [List.filter_map, show (fun b => b != a) ∘ Prod.fst =
          fun x : Nat × List Tile => x.1 != a from rfl]
        exact congrArg _ (filter_key_eq (x := (a, ts)) Prod.fst hne)
      sorted := List.pairwise_append.2 ⟨hsorted.1, hsorted'.2,
        fun x hx y hy => hsorted.2.2 x hx y (by simp [hy])⟩
      tiled := fun x hx => by
        have hseg : AllocatorWrapper.segments
            { s with
              arenas := s.arenas.filter fun b => b != a
              segmentInfo := Function.update s.segmentInfo a none
              mapped := s.mapped.erase (a, arenaSize) } x.1 = s.segments x.1 := by
          unfold AllocatorWrapper.segments
          simp [Function.update_of_ne (hne x hx)]
        rw [hseg]
        exact h.tiled x (hmem x hx)
      coalesced := fun x hx => h.coalesced x (hmem x hx)
      custom := h.custom
      mapped := by
        refine (h.mapped.erase _).trans ?_
        rw [hranges]
        refine (List.perm_middle.erase _).trans ?_
        rw [List.erase_cons_head]
        simp [ranges]
      apart := by
        have hcons := (List.Perm.pairwise_iff (fun hxy => Apart.symm hxy) List.perm_middle).1
          (hranges ▸ h.apart)
        have hrest := (List.pairwise_cons.1 hcons).2
        simpa [ranges] using hrest
      live := by
        have hl := h.live
        simpa [hempty] using hl }

/-- What `bfree` does for a pointer into an arena: the segment at its block is released, and the
arena is given back if it is wholly free and there are more than three. -/
theorem Represents.bfree_arena {s : AllocatorWrapper} {A : List (Nat × List Tile)}
    {live : List (Nat × Nat)} (h : Represents s A live) {a k : Nat} {ts : List Tile}
    (ha : (a, ts) ∈ A) (hk : k < blocksInArena) :
    s.bfree (a + k * blockSizeMmap) =
      if (release (s.segments a) k 0).occupied = false ∧
          (release (s.segments a) k 0).length = blocksInArena ∧ 3 < s.arenas.length then
        { s.setSegments a (release (s.segments a) k) with
          arenas := s.arenas.filter fun b => b != a
          segmentInfo := Function.update (s.setSegments a (release (s.segments a) k)).segmentInfo
            a none
          mapped := s.mapped.erase (a, arenaSize) }
      else s.setSegments a (release (s.segments a) k) := by
  have hin : k * blockSizeMmap < arenaSize := by
    rw [← arena_bytes]
    exact Nat.mul_lt_mul_of_pos_right hk (by decide)
  -- the pointer is in an arena, so it is no single mapping
  have hcustom : s.customArenas.find? (fun c => c.1 == a + k * blockSizeMmap) = none := by
    refine List.find?_eq_none.2 fun c hc heq => ?_
    have hapart := (List.pairwise_append.1 h.apart).2.2 _ (List.mem_map_of_mem ha) _
      (List.mem_map_of_mem hc)
    have hlarge := h.custom c hc
    have hcpos : 0 < c.2 * blockSizeMmap := Nat.mul_pos (by omega) (by decide)
    unfold Apart bytes at hapart
    simp only [beq_iff_eq] at heq hapart
    omega
  obtain ⟨A₁, A₂, rfl⟩ := List.append_of_mem ha
  -- the loop goes down from the highest arena, and passes those that begin behind the pointer
  have hskip : ∀ b ∈ (A₂.map Prod.fst).reverse, a + k * blockSizeMmap < b := by
    intro b hb
    obtain ⟨x, hx, rfl⟩ := List.mem_map.1 (List.mem_reverse.1 hb)
    have hlt : a < x.1 := (List.pairwise_cons.1 (List.pairwise_append.1 h.sorted).2.1).1 x hx
    have hapart := @apart_of_middle (A₁.map (fun x => (x.1, arenaSize)))
      (A₂.map (fun x => (x.1, arenaSize)) ++ s.customArenas.map bytes) (a, arenaSize)
      (by simpa [ranges] using h.apart) (x.1, arenaSize)
      (List.mem_append_right _ (List.mem_append_left _ (List.mem_map_of_mem hx)))
    unfold Apart at hapart
    simp only at hapart
    omega
  have hposition : (a + k * blockSizeMmap - a) / blockSizeMmap = k := by
    rw [Nat.add_sub_cancel_left]
    exact Nat.mul_div_cancel _ (by decide)
  have hreverse : s.arenas.reverse =
      (A₂.map Prod.fst).reverse ++ a :: (A₁.map Prod.fst).reverse := by
    simp [h.arenas]
  unfold AllocatorWrapper.bfree
  rw [hcustom]
  simp only
  rw [hreverse, freeIn_skip s hskip, AllocatorWrapper.freeIn,
    if_pos (Nat.le_add_right a (k * blockSizeMmap)), hposition, arena_bytes]
  rfl

/-- A wholly free arena holds no allocation: its first tile is the only one. -/
theorem allocs_eq_nil {arr : Segments} {a : Nat} {ts : List Tile}
    (ht : Tiled (tags arr) blocksInArena ts) (hfree : (arr 0).occupied = false)
    (hlen : (arr 0).length = blocksInArena) : allocs a ts = [] := by
  obtain ⟨c, hl⟩ := ht
  cases ts with
  | nil => rfl
  | cons t ts =>
      obtain ⟨-, ht, hrest⟩ := hl
      rw [tags_eq_some_iff.1 ht] at hfree hlen
      obtain ⟨size, used⟩ := t
      obtain rfl : used = false := hfree
      obtain rfl : size = blocksInArena := hlen
      have hend := hrest.end_eq
      cases ts with
      | nil => rfl
      | cons t ts =>
          have hpos := hrest.1
          simp only [total_cons] at hend
          omega

/-- An arena may be given back when its first segment is free and has all its blocks. -/
theorem Represents.dropFree {s : AllocatorWrapper} {A₁ A₂ : List (Nat × List Tile)} {a k : Nat}
    {arr : Segments} {ts : List Tile} {live : List (Nat × Nat)}
    (h : Represents (s.setSegments a arr) (A₁ ++ (a, ts) :: A₂) live) :
    ∃ A', Represents (if (arr 0).occupied = false ∧ (arr 0).length = blocksInArena ∧ k < s.arenas.length
      then { s.setSegments a arr with
          arenas := s.arenas.filter fun b => b != a
          segmentInfo := Function.update (s.setSegments a arr).segmentInfo a none
          mapped := s.mapped.erase (a, arenaSize) }
      else s.setSegments a arr) A' live := by
  have htiled := h.tiled (a, ts) (by simp)
  rw [segments_setSegments, if_pos rfl] at htiled
  split
  · rename_i hwhole
    exact ⟨_, h.dropArena (allocs_eq_nil htiled hwhole.1 hwhole.2.1)⟩
  · exact ⟨_, h⟩

/-- Releasing an allocation of an arena frees its tile; an arena left without allocations is given
back when there are more than three. -/
theorem Represents.freeTile {s : AllocatorWrapper} {A : List (Nat × List Tile)}
    {live : List (Nat × Nat)} (h : Represents s A live) {a num : Nat} {pre post : List Tile}
    (ha : (a, pre ++ ⟨num, true⟩ :: post) ∈ A) :
    ∃ A', Represents (s.bfree (a + total pre * blockSizeMmap)) A'
      (live.erase (a + total pre * blockSizeMmap, num)) := by
  obtain ⟨hpos, hsum⟩ := tile_pos (h.tiled _ ha)
  rw [h.bfree_arena ha (by omega)]
  have htiled := release_tiled (h.tiled _ ha)
  have hcoalesced := freeAt_coalesced (h.coalesced _ ha)
  obtain ⟨A₁, A₂, rfl⟩ := List.append_of_mem ha
  have hlive : (live.erase (a + total pre * blockSizeMmap, num)).Perm
      ((A₁ ++ (a, freeAt pre num post) :: A₂).flatMap (fun x => allocs x.1 x.2) ++
        s.customArenas) := by
    have hmiddle : live.Perm ((a + total pre * blockSizeMmap, num) ::
        ((A₁ ++ (a, freeAt pre num post) :: A₂).flatMap (fun x => allocs x.1 x.2) ++
          s.customArenas)) := by
      refine h.live.trans ?_
      simp only [List.flatMap_append, List.flatMap_cons, List.append_assoc]
      refine List.Perm.trans (List.Perm.append_left _ ?_) List.perm_middle
      rw [← List.cons_append, allocs_freeAt]
      exact List.Perm.append_right _ (allocs_used a pre post num)
    have herase := hmiddle.erase (a + total pre * blockSizeMmap, num)
    rwa [List.erase_cons_head] at herase
  exact (h.setArena htiled hcoalesced hlive).dropFree

theorem Represents.bfree {s : AllocatorWrapper} {A : List (Nat × List Tile)}
    {live : List (Nat × Nat)} (h : Represents s A live) {p num : Nat} (hp : (p, num) ∈ live) :
    ∃ A', Represents (s.bfree p) A' (live.erase (p, num)) := by
  rcases List.mem_append.1 (h.live.mem_iff.1 hp) with hin | hin
  · obtain ⟨⟨a, ts⟩, ha, hts⟩ := List.mem_flatMap.1 hin
    obtain ⟨pre, post, rfl, rfl⟩ := mem_allocs hts
    exact h.freeTile ha
  · exact ⟨A, h.freeCustom hin⟩

/-! ## Every reachable state -/

theorem represents_new (mmap : Nat → Nat) :
    Represents (.new mmap) [(mmap arenaSize, [⟨blocksInArena, false⟩])] [] := by
  have hempty : Represents ⟨[], [], fun _ => none, []⟩ [] [] :=
    { arenas := rfl, sorted := by simp, tiled := by simp, coalesced := by simp, custom := by simp
      mapped := by simp [ranges], apart := by simp [ranges], live := by simp }
  obtain ⟨A₁, A₂, hA, hnew⟩ := @Represents.addArena _ _ _ hempty mmap fun _ _ _ hr => by simp at hr
  obtain ⟨rfl, rfl⟩ : A₁ = [] ∧ A₂ = [] := by simpa using hA.symm
  exact hnew

theorem Reachable.represents {s : AllocatorWrapper} {live : List (Nat × Nat)}
    (h : Reachable s live) : ∃ A, Represents s A live := by
  induction h with
  | new mmap => exact ⟨_, represents_new mmap⟩
  | bmalloc _ hnum hf heq ih =>
      obtain ⟨A, hA⟩ := ih
      obtain ⟨p, s', A', heq', hA'⟩ := hA.bmalloc hnum hf
      rw [heq] at heq'
      obtain ⟨rfl, rfl⟩ : _ = p ∧ _ = s' := by simpa using heq'
      exact ⟨A', hA'⟩
  | bfree _ hp ih =>
      obtain ⟨A, hA⟩ := ih
      exact hA.bfree hp

/-- The allocations of one tiling are apart. -/
theorem allocs_pairwise (a : Nat) (ts : List Tile) :
    (allocs a ts).Pairwise fun x y => Apart (bytes x) (bytes y) := by
  refine List.Pairwise.filterMap _ ?_ (spans_pairwise ts 0)
  rintro ⟨i, t⟩ ⟨j, t'⟩ hle x hx y hy
  simp only [Option.ite_none_right_eq_some, Option.some.injEq] at hx hy
  obtain ⟨-, rfl⟩ := hx
  obtain ⟨-, rfl⟩ := hy
  left
  have hmul := Nat.mul_le_mul_right blockSizeMmap hle
  simp only [bytes, Nat.add_mul] at hmul ⊢
  omega

/-- An allocation of an arena lies in the arena. -/
theorem allocs_inside {a : Nat} {ts : List Tile} {h : Nat → Option Tag}
    (ht : Tiled h blocksInArena ts) {x : Nat × Nat} (hx : x ∈ allocs a ts) :
    a ≤ x.1 ∧ x.1 + x.2 * blockSizeMmap ≤ a + arenaSize := by
  obtain ⟨p, m⟩ := x
  obtain ⟨pre, post, rfl, rfl⟩ := mem_allocs hx
  obtain ⟨-, hsum⟩ := tile_pos ht
  have hmul := Nat.mul_le_mul_right blockSizeMmap (show total pre + m ≤ blocksInArena by omega)
  rw [Nat.add_mul, arena_bytes] at hmul
  simp only
  omega

/-- The live allocations of a representation are apart. -/
theorem Represents.live_apart {s : AllocatorWrapper} {A : List (Nat × List Tile)}
    {live : List (Nat × Nat)} (h : Represents s A live) :
    live.Pairwise fun x y => Apart (bytes x) (bytes y) := by
  refine (List.Perm.pairwise_iff (fun hxy => Apart.symm hxy) h.live.symm).1 ?_
  have hapart := List.pairwise_append.1 h.apart
  refine List.pairwise_append.2 ⟨?_, List.pairwise_map.1 hapart.2.1, ?_⟩
  · refine List.pairwise_flatMap.2 ⟨fun x _ => allocs_pairwise x.1 x.2, ?_⟩
    refine (List.pairwise_map.1 hapart.1).imp_of_mem ?_
    intro x y hx hy hxy u hu v hv
    have h1 := allocs_inside (h.tiled x hx) hu
    have h2 := allocs_inside (h.tiled y hy) hv
    unfold Apart bytes at *
    simp only at *
    omega
  · intro u hu v hv
    obtain ⟨x, hx, hu⟩ := List.mem_flatMap.1 hu
    have h1 := allocs_inside (h.tiled x hx) hu
    have h2 := hapart.2.2 _ (List.mem_map_of_mem hx) _ (List.mem_map_of_mem hv)
    unfold Apart bytes at *
    simp only at *
    omega

/-- In every reachable state the live allocations are pairwise apart and each lies inside one
mapped range; and the next request, of any size, is served. -/
theorem live_apart_and_mapped {s : AllocatorWrapper} {live : List (Nat × Nat)}
    (h : Reachable s live) :
    (live.Pairwise fun x y => Apart (bytes x) (bytes y)) ∧
      (∀ x ∈ live, ∃ r ∈ s.mapped, r.1 ≤ x.1 ∧ x.1 + x.2 * blockSizeMmap ≤ r.1 + r.2) ∧
      ∀ mmap num, 1 ≤ num → MmapFresh s mmap → ∃ p s', s.bmalloc mmap num = some (p, s') := by
  obtain ⟨A, hA⟩ := h.represents
  have hinside : ∀ x ∈ A.flatMap (fun x => allocs x.1 x.2) ++ s.customArenas,
      ∃ r ∈ ranges A s.customArenas, r.1 ≤ x.1 ∧ x.1 + x.2 * blockSizeMmap ≤ r.1 + r.2 := by
    intro x hx
    rcases List.mem_append.1 hx with hx | hx
    · obtain ⟨⟨a, ts⟩, ha, hts⟩ := List.mem_flatMap.1 hx
      exact ⟨_, arena_mem_ranges _ ha, allocs_inside (hA.tiled _ ha) hts⟩
    · exact ⟨_, custom_mem_ranges A hx, le_refl _, le_refl _⟩
  refine ⟨hA.live_apart, ?_, ?_⟩
  · intro x hx
    obtain ⟨r, hr, hle⟩ := hinside x (hA.live.mem_iff.1 hx)
    exact ⟨r, hA.mapped.mem_iff.2 hr, hle⟩
  · intro mmap num hnum hf
    obtain ⟨p, s', -, heq, -⟩ := hA.bmalloc hnum hf
    exact ⟨p, s', heq⟩

/-- Where the kernel may map the first arena, and others behind it. -/
def arenaAt (n : Nat) : Nat := 0x7f0000000000 + n * arenaSize

/-- Behind all that is mapped there is room. -/
theorem fresh_behind {s : AllocatorWrapper} {p : Nat} (h : ∀ r ∈ s.mapped, r.1 + r.2 ≤ p) :
    MmapFresh s fun _ => p :=
  fun _ _ r hr => Or.inr (h r hr)

/-- Behind the arena of the constructor everything is unmapped. -/
theorem fresh_behind_new : MmapFresh (.new fun _ => arenaAt 0) fun _ => arenaAt 1 := by
  apply fresh_behind
  decide

/-- Three blocks of the first arena and a single mapping of 100 blocks behind it. -/
theorem live_apart_and_mapped_two : ∃ s, Reachable s [(arenaAt 1, 100), (arenaAt 0, 3)] ∧
    ([(arenaAt 1, 100), (arenaAt 0, 3)].Pairwise fun x y => Apart (bytes x) (bytes y)) ∧
      ∀ x ∈ [(arenaAt 1, 100), (arenaAt 0, 3)],
        ∃ r ∈ s.mapped, r.1 ≤ x.1 ∧ x.1 + x.2 * blockSizeMmap ≤ r.1 + r.2 := by
  have h₁ : Reachable _ [(arenaAt 0, 3)] :=
    .bmalloc (.new fun _ => arenaAt 0) (by decide) fresh_behind_new rfl
  have h₂ : Reachable _ [(arenaAt 1, 100), (arenaAt 0, 3)] :=
    .bmalloc h₁ (by decide) fresh_behind_new rfl
  exact ⟨_, h₂, (live_apart_and_mapped h₂).1, (live_apart_and_mapped h₂).2.1⟩

end LocalSoftware.Alloc
