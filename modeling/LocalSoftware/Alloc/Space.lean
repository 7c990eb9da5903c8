import LocalSoftware.Alloc.Layout

/-!
# Where there is space, and how many arenas are kept

`FreeRun live a i num` says that `num` consecutive blocks of the arena at `a` are outside all live
allocations. `bmalloc_space` shows that a request of at most 64 blocks maps a new arena exactly when
no arena has such a run: the tilings are coalesced, so that a run lies in one free tile, and the scan
of an arena finds a free tile that is long enough.

`arenas_kept` shows that above three arenas each one holds a live allocation. A new arena is mapped
only when no arena is wholly free, and a release gives back an arena that it leaves wholly free.
-/

set_option autoImplicit false

namespace LocalSoftware.Alloc

open LocalSoftware.Library.Tiling

/-- The `num` blocks from block `i` of the arena at `a` are outside the live allocations. -/
def FreeRun (live : List (Nat × Nat)) (a i num : Nat) : Prop :=
  i + num ≤ blocksInArena ∧
    ∀ x ∈ live, Apart (a + i * blockSizeMmap, num * blockSizeMmap) (bytes x)

section Space

variable {s s' : AllocatorWrapper} {A : List (Nat × List Tile)} {live : List (Nat × Nat)}
  {a i num m p : Nat} {ts pre post : List Tile} {mmap : Nat → Nat}

theorem Represents.mem_arenas (h : Represents s A live) (ha : (a, ts) ∈ A) : a ∈ s.arenas := by
  rw [h.arenas]
  exact List.mem_map_of_mem ha

/-- The blocks of a free tile are a free run: taken, they are one more live allocation. -/
theorem Represents.freeRun_of_tile (h : Represents s A live)
    (ha : (a, pre ++ ⟨m, false⟩ :: post) ∈ A) (hnum : 1 ≤ num) (hm : num ≤ m) :
    FreeRun live a (total pre) num := by
  obtain ⟨hpos, hsum⟩ := tile_pos (h.tiled _ ha)
  obtain ⟨A', hA'⟩ := h.occupyIn ha hnum hm
  exact ⟨by omega, (List.pairwise_cons.1 hA'.live_apart).1⟩

/-- A free run lies in a free tile. -/
theorem Represents.tile_of_freeRun (h : Represents s A live) (ha : (a, ts) ∈ A) (hnum : 1 ≤ num)
    (hrun : FreeRun live a i num) : ∃ m, ⟨m, false⟩ ∈ ts ∧ num ≤ m := by
  obtain ⟨c, hl⟩ := h.tiled _ ha
  apply hl.exists_free (h.coalesced _ ha) hnum (Nat.zero_le i) hrun.1
  intro k m hk
  -- a used tile is a live allocation, and blocks apart in bytes are apart
  obtain ⟨pre, post, hsplit, hplace⟩ := mem_spans_iff.1 hk
  have hmem := ((h.mem_allocs_iff ha (a + k * blockSizeMmap, m)).1 (mem_allocs_split.2
    ⟨pre, post, hsplit, by rw [hplace, Nat.zero_add]⟩)).1
  have hapart := hrun.2 _ hmem
  unfold Apart bytes blockSizeMmap at hapart
  simp only at hapart
  omega

/-- A request of at most 64 blocks maps a new arena exactly when no arena has that many consecutive
blocks outside the live allocations; otherwise it returns such blocks of an arena, and maps
nothing. -/
theorem bmalloc_space (h : Reachable s live) (hnum : 1 ≤ num) (hle : num ≤ blocksInArena) :
    ∃ p s', s.bmalloc mmap num = some (p, s') ∧
      ((∃ a ∈ s.arenas, ∃ i, FreeRun live a i num) →
        s'.mapped = s.mapped ∧ s'.arenas = s.arenas ∧
          ∃ a ∈ s.arenas, ∃ i, FreeRun live a i num ∧ p = a + i * blockSizeMmap) ∧
      ((∀ a ∈ s.arenas, ∀ i, ¬ FreeRun live a i num) →
        s'.mapped = (mmap arenaSize, arenaSize) :: s.mapped ∧
          s'.arenas.Perm (mmap arenaSize :: s.arenas) ∧ p = mmap arenaSize) := by
  obtain ⟨A, hA⟩ := h.represents
  rcases hA.bmalloc_cases mmap hle with ⟨hshort, heq⟩ | ⟨a, pre, m, post, ha, hm, heq⟩
  · refine ⟨_, _, heq, ?_, fun _ => ⟨?_, ?_, rfl⟩⟩
    · rintro ⟨a, ha, i, hrun⟩
      obtain ⟨ts, hts⟩ := hA.exists_arena ha
      obtain ⟨m, hmem, hm⟩ := hA.tile_of_freeRun hts hnum hrun
      have hlt := hshort _ hts m hmem
      omega
    · exact addArena_mapped s mmap
    · show (s.addArena mmap blocksInArena).2.arenas.Perm _
      rw [addArena_arenas]
      refine List.perm_middle.trans ?_
      rw [List.takeWhile_append_dropWhile]
  · have hrun := hA.freeRun_of_tile ha hnum hm
    have hmem := hA.mem_arenas ha
    exact ⟨_, _, heq, fun _ => ⟨rfl, rfl, a, hmem, _, hrun, rfl⟩,
      fun hnone => absurd hrun (hnone a hmem _)⟩

/-- Three blocks are live in the only arena: 61 more fit behind them, 62 need a new arena. -/
theorem bmalloc_space_threeBlocks : ∃ s, Reachable s [(arenaAt 0, 3)] ∧
    (∃ p s', s.bmalloc (fun _ => arenaAt 1) 61 = some (p, s') ∧ s'.mapped = s.mapped) ∧
      ∃ p s', s.bmalloc (fun _ => arenaAt 1) 62 = some (p, s') ∧ p = arenaAt 1 := by
  have h : Reachable _ [(arenaAt 0, 3)] :=
    .bmalloc (.new fun _ => arenaAt 0) (by decide) fresh_behind_new rfl
  refine ⟨_, h, ?_, ?_⟩
  · obtain ⟨p, s', heq, hspace, -⟩ := @bmalloc_space _ _ 61 _ h (by decide) (by decide)
    refine ⟨p, s', heq, (hspace ⟨arenaAt 0, List.mem_cons_self, 3, by decide, ?_⟩).1⟩
    intro x hx
    obtain rfl := List.mem_singleton.1 hx
    exact Or.inr (by decide)
  · obtain ⟨p, s', heq, -, hnone⟩ := @bmalloc_space _ _ 62 _ h (by decide) (by decide)
    refine ⟨p, s', heq, (hnone ?_).2.2⟩
    intro a ha i hrun
    obtain rfl := List.mem_singleton.1 (show a ∈ [arenaAt 0] from ha)
    have hbound := hrun.1
    have hapart := hrun.2 (arenaAt 0, 3) List.mem_cons_self
    unfold Apart bytes blockSizeMmap at hapart
    unfold blocksInArena at hbound
    simp only at hapart
    omega

/-! ## The arenas that are kept -/

/-- Above three arenas, each one holds a live allocation. -/
def Kept (s : AllocatorWrapper) (live : List (Nat × Nat)) : Prop :=
  3 < s.arenas.length → ∀ a ∈ s.arenas, ∃ x ∈ live, InArena a x

/-- An arena without a live allocation is one free tile. -/
theorem Represents.free_of_no_live (h : Represents s A live) (ha : (a, ts) ∈ A)
    (hnone : ∀ x ∈ live, ¬ InArena a x) : ts = [⟨blocksInArena, false⟩] := by
  obtain ⟨c, hl⟩ := h.tiled _ ha
  have hrun : FreeRun live a 0 blocksInArena := by
    refine ⟨by decide, fun x hx => ?_⟩
    rcases List.mem_append.1 (h.live.mem_iff.1 hx) with hin | hin
    · obtain ⟨y, hy, hxy⟩ := List.mem_flatMap.1 hin
      have hinside := allocs_inside (h.tiled y hy) hxy
      rcases (h.apart_arena ha).1 y hy with rfl | hapart
      · exact absurd ((h.mem_allocs_iff ha x).1 hxy).2 (hnone x hx)
      · unfold Apart bytes at *
        rw [arena_bytes]
        simp only at *
        omega
    · have hapart := (h.apart_arena ha).2 x hin
      rwa [Nat.zero_mul, Nat.add_zero, arena_bytes]
  obtain ⟨m, hm, hle⟩ := h.tile_of_freeRun ha (by decide) hrun
  obtain ⟨pre, post, hsplit⟩ := List.append_of_mem hm
  obtain ⟨hpos, hsum⟩ := tile_pos (hsplit ▸ h.tiled _ ha)
  have hnil : ∀ us : List Tile, (∀ t ∈ us, 0 < t.size) → total us = 0 → us = [] := by
    intro us hus hzero
    cases us with
    | nil => rfl
    | cons t us =>
      have ht := hus t List.mem_cons_self
      rw [total_cons] at hzero
      omega
  have hsizes : ∀ t ∈ pre ++ ⟨m, false⟩ :: post, 0 < t.size := fun t ht => hl.pos (hsplit ▸ ht)
  obtain rfl := hnil pre (fun t ht => hsizes t (by simp [ht])) (by omega)
  obtain rfl := hnil post (fun t ht => hsizes t (by simp [ht])) (by omega)
  obtain rfl : m = blocksInArena := by
    simp only [total_nil] at hsum
    omega
  exact hsplit

/-- A new arena is mapped only when no arena is wholly free, and it holds the block that is
returned. -/
theorem Represents.bmalloc_kept (h : Represents s A live) (hkept : Kept s live)
    (heq : s.bmalloc mmap num = some (p, s')) : Kept s' ((p, num) :: live) := by
  have hmore : ∀ {a : Nat}, (∃ x ∈ live, InArena a x) → ∃ x ∈ (p, num) :: live, InArena a x :=
    fun ⟨x, hx, hin⟩ => ⟨x, List.mem_cons_of_mem _ hx, hin⟩
  by_cases hlarge : blocksInArena < num
  · rw [bmalloc_custom s mmap hlarge] at heq
    obtain ⟨rfl, rfl⟩ := Prod.mk.inj (Option.some.inj heq)
    have harenas : (s.addArena mmap num).2.arenas = s.arenas := by
      unfold AllocatorWrapper.addArena
      simp [Nat.not_le.2 hlarge]
    intro hlen a ha
    rw [harenas] at hlen ha
    exact hmore (hkept hlen a ha)
  · rcases h.bmalloc_cases mmap (Nat.not_lt.1 hlarge) with ⟨hshort, heq'⟩ | ⟨b, pre, m, post, -, -, heq'⟩
    · rw [heq'] at heq
      obtain ⟨rfl, rfl⟩ := Prod.mk.inj (Option.some.inj heq)
      intro _ a ha
      have hmem : a ∈ mmap arenaSize :: s.arenas := by
        have hin : a ∈ (s.addArena mmap blocksInArena).2.arenas := ha
        rw [addArena_arenas] at hin
        rw [← List.takeWhile_append_dropWhile (p := fun b => !decide (mmap arenaSize < b))
          (l := s.arenas)]
        exact List.perm_middle.mem_iff.1 hin
      rcases List.mem_cons.1 hmem with rfl | hold
      · exact ⟨_, List.mem_cons_self, Nat.le_refl _, Nat.lt_add_of_pos_right arenaSize_pos⟩
      · -- the request did not fit into this arena, so it is not wholly free
        obtain ⟨ts, hts⟩ := h.exists_arena hold
        by_contra hnone
        have hfree := h.free_of_no_live hts fun x hx hin => hnone (hmore ⟨x, hx, hin⟩)
        have hlt := hshort _ hts blocksInArena (by simp [hfree])
        omega
    · rw [heq'] at heq
      obtain ⟨rfl, rfl⟩ := Prod.mk.inj (Option.some.inj heq)
      exact fun hlen a ha => hmore (hkept hlen a ha)

/-- Arenas do not overlap. -/
theorem Represents.arena_unique (h : Represents s A live) {a b : Nat} (ha : a ∈ s.arenas)
    (hb : b ∈ s.arenas) {x : Nat × Nat} (hxa : InArena a x) (hxb : InArena b x) : a = b := by
  obtain ⟨ts, hts⟩ := h.exists_arena ha
  obtain ⟨us, hus⟩ := h.exists_arena hb
  rcases (h.apart_arena hts).1 _ hus with heq | hapart
  · exact (congrArg Prod.fst heq).symm
  · unfold Apart InArena at *
    simp only at hapart
    omega

/-- A release takes one allocation from one arena, and gives that arena back if it is wholly free
then. -/
theorem Represents.bfree_kept (h : Represents s A live) (hkept : Kept s live)
    (hp : (p, num) ∈ live) : Kept (s.bfree p) (live.erase (p, num)) := by
  -- another arena keeps the allocation that kept it
  have hother : ∀ {a : Nat}, ¬ InArena a (p, num) → (∃ x ∈ live, InArena a x) →
      ∃ x ∈ live.erase (p, num), InArena a x := by
    rintro a hout ⟨x, hx, hin⟩
    exact ⟨x, (List.mem_erase_of_ne (by rintro rfl; exact hout hin)).2 hx, hin⟩
  rcases List.mem_append.1 (h.live.mem_iff.1 hp) with hin | hin
  · obtain ⟨⟨a, ts⟩, ha, hts⟩ := List.mem_flatMap.1 hin
    have hina := ((h.mem_allocs_iff ha _).1 hts).2
    obtain ⟨pre, post, rfl, rfl⟩ := mem_allocs hts
    obtain ⟨hpos, hsum⟩ := tile_pos (h.tiled _ ha)
    have hmem := h.mem_arenas ha
    obtain ⟨A', hA'⟩ := h.freeTile ha
    rw [h.bfree_arena ha (by omega)] at hA' ⊢
    split at hA'
    -- the arena is given back
    · rename_i hwhole
      rw [if_pos hwhole]
      intro hlen b hb
      obtain ⟨hb, hne⟩ := List.mem_filter.1 hb
      refine hother (fun hinb => ?_) (hkept hwhole.2.2 b hb)
      exact absurd (h.arena_unique hb hmem hinb hina) (by simpa using hne)
    -- the arena stays: it is not wholly free, or it is the only one
    · rename_i hwhole
      rw [if_neg hwhole]
      intro hlen b hb
      by_cases hba : b = a
      · subst hba
        -- without a live allocation it would be one free tile
        by_contra hnone
        obtain ⟨us, hus⟩ := hA'.exists_arena hb
        have hfree := hA'.free_of_no_live hus fun x hx hinx => hnone ⟨x, hx, hinx⟩
        obtain ⟨c, hl⟩ := hA'.tiled _ hus
        rw [hfree, segments_setSegments, if_pos rfl] at hl
        have harr := tags_eq_some_iff.1 hl.2.1
        exact hwhole ⟨by rw [harr], by rw [harr], hlen⟩
      · exact hother (fun hinb => hba (h.arena_unique hb hmem hinb hina)) (hkept hlen b hb)
  · -- a single mapping lies in no arena, and the arenas stay
    have harenas : (s.bfree p).arenas = s.arenas := by
      have hA' := h.freeCustom hin
      rw [hA'.arenas, h.arenas]
    intro hlen a ha
    rw [harenas] at hlen ha
    obtain ⟨ts, hts⟩ := h.exists_arena ha
    refine hother (fun hina => ?_) (hkept hlen a ha)
    have hapart := (h.apart_arena hts).2 _ hin
    have hbytes : 0 < num * blockSizeMmap :=
      Nat.mul_pos (Nat.lt_of_le_of_lt (Nat.zero_le _) (h.custom _ hin)) (by decide)
    unfold Apart InArena bytes at *
    simp only at *
    omega

theorem Reachable.kept (h : Reachable s live) : Kept s live := by
  induction h with
  | new mmap => exact fun hlen => absurd hlen (by simp [AllocatorWrapper.new])
  | bmalloc hs _ _ heq ih =>
    obtain ⟨A, hA⟩ := hs.represents
    exact hA.bmalloc_kept ih heq
  | bfree hs hp ih =>
    obtain ⟨A, hA⟩ := hs.represents
    exact hA.bfree_kept ih hp

/-- The live allocations of at most 64 blocks are those of the arenas. -/
theorem Represents.count_small (h : Represents s A live) :
    live.countP (fun x => decide (x.2 ≤ blocksInArena)) =
      (A.flatMap fun x => allocs x.1 x.2).length := by
  rw [h.live.countP_eq, List.countP_append]
  have hsmall : ∀ x ∈ A.flatMap (fun x => allocs x.1 x.2),
      decide (x.2 ≤ blocksInArena) = true := by
    rintro ⟨p, m⟩ hx
    obtain ⟨⟨a, ts⟩, ha, hts⟩ := List.mem_flatMap.1 hx
    obtain ⟨pre, post, hsplit, -⟩ := mem_allocs hts
    obtain ⟨-, hsum⟩ := tile_pos (hsplit ▸ h.tiled _ ha)
    exact decide_eq_true (by simp only; omega)
  have hlarge : s.customArenas.countP (fun x => decide (x.2 ≤ blocksInArena)) = 0 :=
    List.countP_eq_zero.2 fun c hc => by simpa using h.custom c hc
  rw [hlarge, Nat.add_zero]
  exact List.countP_eq_length.2 hsmall

theorem length_le_flatMap {α β : Type} {f : α → List β} {l : List α} (h : ∀ x ∈ l, f x ≠ []) :
    l.length ≤ (l.flatMap f).length := by
  induction l with
  | nil => exact Nat.le_refl 0
  | cons x l ih =>
    have hx := List.length_pos_of_ne_nil (h x List.mem_cons_self)
    have hl := ih fun y hy => h y (List.mem_cons_of_mem _ hy)
    rw [List.flatMap_cons, List.length_append, List.length_cons]
    omega

/-- In every reachable state with more than three arenas, each arena holds a live allocation. So
there are never more arenas than the larger of 3 and the number of live allocations of at most 64
blocks, and at most three mappings are left when nothing is live. -/
theorem arenas_kept (h : Reachable s live) :
    (3 < s.arenas.length → ∀ a ∈ s.arenas, ∃ x ∈ live,
        a ≤ x.1 ∧ x.1 + x.2 * blockSizeMmap ≤ a + arenaSize) ∧
      s.arenas.length ≤ max 3 (live.countP fun x => decide (x.2 ≤ blocksInArena)) ∧
      (live = [] → s.arenas.length ≤ 3 ∧ s.mapped.length ≤ 3) := by
  obtain ⟨A, hA⟩ := h.represents
  have hlength : s.arenas.length = A.length := by rw [hA.arenas, List.length_map]
  have hallocs : 3 < s.arenas.length → ∀ y ∈ A, allocs y.1 y.2 ≠ [] := by
    intro hlen y hy hnil
    obtain ⟨x, hx, hin⟩ := h.kept hlen y.1 (hA.mem_arenas hy)
    have hmem := (hA.mem_allocs_iff hy x).2 ⟨hx, hin⟩
    rw [hnil] at hmem
    exact List.not_mem_nil hmem
  have hcount : s.arenas.length ≤ max 3 (live.countP fun x => decide (x.2 ≤ blocksInArena)) := by
    rw [hA.count_small]
    by_cases hlen : 3 < s.arenas.length
    · apply Nat.le_trans _ (Nat.le_max_right _ _)
      rw [hlength]
      exact length_le_flatMap (hallocs hlen)
    · exact Nat.le_trans (Nat.not_lt.1 hlen) (Nat.le_max_left _ _)
  refine ⟨fun hlen a ha => ?_, hcount, ?_⟩
  · obtain ⟨ts, hts⟩ := hA.exists_arena ha
    obtain ⟨x, hx⟩ := List.exists_mem_of_ne_nil _ (hallocs hlen _ hts)
    exact ⟨x, ((hA.mem_allocs_iff hts x).1 hx).1, allocs_inside (hA.tiled _ hts) hx⟩
  · rintro rfl
    have hthree : s.arenas.length ≤ 3 := by simpa using hcount
    have hcustom : s.customArenas = [] := (List.append_eq_nil_iff.1 hA.live.nil_eq.symm).2
    refine ⟨hthree, ?_⟩
    rw [hA.mapped.length_eq, hcustom, ranges, List.map_nil, List.append_nil, List.length_map,
      ← hlength]
    exact hthree

/-- Four whole arenas are taken, one after the other. -/
def fourArenas : List (Nat × Nat) :=
  [(arenaAt 3, 64), (arenaAt 2, 64), (arenaAt 1, 64), (arenaAt 0, 64)]

/-- All four arenas hold an allocation. After the release of the second one, its arena is given back,
and the other three are kept. -/
theorem arenas_kept_released : ∃ s, Reachable s fourArenas ∧
    s.arenas = [arenaAt 0, arenaAt 1, arenaAt 2, arenaAt 3] ∧
    (∀ a ∈ s.arenas, ∃ x ∈ fourArenas, a ≤ x.1 ∧ x.1 + x.2 * blockSizeMmap ≤ a + arenaSize) ∧
    ∃ s', Reachable s' [(arenaAt 3, 64), (arenaAt 2, 64), (arenaAt 0, 64)] ∧
      s'.arenas = [arenaAt 0, arenaAt 2, arenaAt 3] ∧ s'.mapped.length = 3 ∧
      s'.arenas.length ≤ max 3 ([(arenaAt 3, 64), (arenaAt 2, 64), (arenaAt 0, 64)].countP
        fun x => decide (x.2 ≤ blocksInArena)) := by
  have h₁ : Reachable _ [(arenaAt 0, 64)] :=
    .bmalloc (.new fun _ => arenaAt 0) (by decide) fresh_behind_new rfl
  have h₂ : Reachable _ [(arenaAt 1, 64), (arenaAt 0, 64)] :=
    .bmalloc h₁ (by decide) fresh_behind_new rfl
  have h₃ : Reachable _ [(arenaAt 2, 64), (arenaAt 1, 64), (arenaAt 0, 64)] :=
    @Reachable.bmalloc _ _ _ (fun _ => arenaAt 2) 64 (arenaAt 2) h₂ (by decide)
      (fresh_behind (by decide)) rfl
  have h₄ : Reachable _ fourArenas :=
    @Reachable.bmalloc _ _ _ (fun _ => arenaAt 3) 64 (arenaAt 3) h₃ (by decide)
      (fresh_behind (by decide)) rfl
  have h₅ : Reachable _ [(arenaAt 3, 64), (arenaAt 2, 64), (arenaAt 0, 64)] :=
    @Reachable.bfree _ _ (arenaAt 1) 64 h₄ (by decide)
  exact ⟨_, h₄, rfl, (arenas_kept h₄).1 (by decide), _, h₅, rfl, rfl, (arenas_kept h₅).2.1⟩

end Space

end LocalSoftware.Alloc
