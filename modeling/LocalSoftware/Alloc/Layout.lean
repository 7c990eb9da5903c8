import LocalSoftware.Alloc.Invariant

/-!
# The layout of an arena

`Head arr k` says that the scan of an arena meets block `k`: it starts at block 0 and steps by the
lengths that it reads. `Laid live a arr` is the boundary-tag representation in these terms: the heads
tile the 64 blocks, the occupied ones are the live allocations of the arena at `a`, no two free heads
are neighbours, and each head is linked to the one before it.

`arenas_laid` proves it in every reachable state, and that the heads of an arena depend on nothing
but the allocations that are live in it.
-/

set_option autoImplicit false

namespace LocalSoftware.Alloc

open LocalSoftware.Library.Tiling

/-- The blocks at which the scan of an arena stops. -/
inductive Head (arr : Segments) : Nat → Prop where
  | first : Head arr 0
  | next {k : Nat} (h : Head arr k) (hlt : k + (arr k).length < blocksInArena) :
      Head arr (k + (arr k).length)

/-- An allocation starts in the arena at `a`. -/
def InArena (a : Nat) (x : Nat × Nat) : Prop := a ≤ x.1 ∧ x.1 < a + arenaSize

instance (a : Nat) (x : Nat × Nat) : Decidable (InArena a x) := inferInstanceAs (Decidable (_ ∧ _))

/-- The heads of the arena at `a` represent the live allocations. -/
structure Laid (live : List (Nat × Nat)) (a : Nat) (arr : Segments) : Prop where
  /-- A head is not marked as interior and its segment ends in the arena. -/
  head : ∀ k, Head arr k → (arr k).interior = false ∧ 1 ≤ (arr k).length ∧
    k + (arr k).length ≤ blocksInArena
  /-- An occupied head is a live allocation, of the length that was requested. -/
  occupied : ∀ x, x ∈ live ∧ InArena a x ↔ ∃ k, Head arr k ∧ (arr k).occupied = true ∧
    x = (a + k * blockSizeMmap, (arr k).length)
  /-- No two free segments are neighbours. -/
  merged : ∀ k, Head arr k → k + (arr k).length < blocksInArena →
    (arr k).occupied = true ∨ (arr (k + (arr k).length)).occupied = true
  /-- The link of a head is the head before it, and that of the first one is 0. -/
  back : (arr 0).back = 0 ∧ ∀ k, Head arr k → k + (arr k).length < blocksInArena →
    (arr (k + (arr k).length)).back = k

/-! ## Heads and tiles -/

section Tiles

variable {arr arr' : Segments} {ts : List Tile} {k : Nat}

/-- The first of the tiles that follow a split is laid behind the last one before it. -/
theorem lay_at {pre post : List Tile} {t : Tile}
    (ht : Tiled (tags arr) blocksInArena (pre ++ t :: post)) :
    ∃ d c, Lay (tags arr) 0 0 pre (total pre) d ∧
      arr (total pre) = ⟨t.size, d, t.used, false⟩ ∧ 0 < t.size ∧
      Lay (tags arr) (total pre + t.size) (total pre) post blocksInArena c := by
  obtain ⟨c, hl⟩ := ht
  obtain ⟨j, d, hpre, hpos, htag, hpost⟩ := lay_append.1 hl
  obtain rfl : j = total pre := hpre.end_eq.trans (Nat.zero_add _)
  exact ⟨d, c, hpre, tags_eq_some_iff.1 htag, hpos, hpost⟩

/-- The heads of a tiled arena are the starts of its tiles. -/
theorem head_iff (ht : Tiled (tags arr) blocksInArena ts) :
    Head arr k ↔ ∃ pre t post, ts = pre ++ t :: post ∧ k = total pre := by
  constructor
  · intro h
    induction h with
    | first =>
      cases ts with
      | nil =>
        obtain ⟨c, hl⟩ := ht
        have hzero : (0 : Nat) = 64 := hl.1
        omega
      | cons t ts => exact ⟨[], t, ts, rfl, rfl⟩
    | next h hlt ih =>
      obtain ⟨pre, t, post, rfl, rfl⟩ := ih
      obtain ⟨d, c, -, harr, -, hpost⟩ := lay_at ht
      rw [harr] at hlt ⊢
      cases post with
      | nil =>
        -- the last tile ends with the arena
        have hend : total pre + t.size = blocksInArena := hpost.1
        exact absurd hend (Nat.ne_of_lt hlt)
      | cons t' post => exact ⟨pre ++ [t], t', post, by simp, by simp⟩
  · rintro ⟨pre, t, post, rfl, rfl⟩
    induction pre using List.reverseRecOn generalizing t post with
    | nil => exact .first
    | append_singleton pre x ih =>
      rw [List.append_assoc] at ht
      have hx := ih x (t :: post) ht
      obtain ⟨d, c, -, harr, -, hpost⟩ := lay_at ht
      have hlen : (arr (total pre)).length = x.size := by rw [harr]
      have hend : blocksInArena = total pre + x.size + (t.size + total post) := hpost.end_eq
      have hpos := hpost.1
      rw [total_append, total_cons, total_nil, Nat.add_zero, ← hlen]
      refine .next hx ?_
      rw [hlen]
      omega

theorem head_tile (ht : Tiled (tags arr) blocksInArena ts) (hk : Head arr k) :
    ∃ pre t post d, ts = pre ++ t :: post ∧ k = total pre ∧
      arr k = ⟨t.size, d, t.used, false⟩ := by
  obtain ⟨pre, t, post, rfl, rfl⟩ := (head_iff ht).1 hk
  obtain ⟨d, c, -, harr, -, -⟩ := lay_at ht
  exact ⟨pre, t, post, d, rfl, rfl, harr⟩

/-- Two arenas with the same tiles have the same heads. -/
theorem head_congr (ht : Tiled (tags arr) blocksInArena ts)
    (ht' : Tiled (tags arr') blocksInArena ts) (k : Nat) : Head arr k ↔ Head arr' k := by
  rw [head_iff ht, head_iff ht']

/-- The links of a layout are determined by its tiles. -/
theorem lay_unique {h h' : Nat → Option Tag} {i b j c : Nat} {j' c' : Nat}
    (hl : Lay h i b ts j c) (hl' : Lay h' i b ts j' c') : j = j' ∧ c = c' := by
  induction ts generalizing i b with
  | nil => exact ⟨hl.1.symm.trans hl'.1, hl.2.symm.trans hl'.2⟩
  | cons t ts ih => exact ih hl.2.2 hl'.2.2

theorem entry_congr (ht : Tiled (tags arr) blocksInArena ts)
    (ht' : Tiled (tags arr') blocksInArena ts) (hk : Head arr k) : arr k = arr' k := by
  obtain ⟨pre, t, post, rfl, rfl⟩ := (head_iff ht).1 hk
  obtain ⟨d, c, hpre, harr, -⟩ := lay_at ht
  obtain ⟨d', c', hpre', harr', -⟩ := lay_at ht'
  rw [harr, harr', (lay_unique hpre hpre').2]

/-- The head behind a head that does not end with the arena. -/
theorem next_tile {pre post : List Tile} {t : Tile}
    (ht : Tiled (tags arr) blocksInArena (pre ++ t :: post))
    (hlt : total pre + t.size < blocksInArena) :
    ∃ t' post', post = t' :: post' ∧
      arr (total pre + t.size) = ⟨t'.size, total pre, t'.used, false⟩ := by
  obtain ⟨d, c, -, -, -, hpost⟩ := lay_at ht
  cases post with
  | nil => exact absurd hpost.1 (Nat.ne_of_lt hlt)
  | cons t' post => exact ⟨t', post, rfl, tags_eq_some_iff.1 hpost.2.1⟩

end Tiles

/-! ## Arenas of a representation -/

section Arenas

variable {s s' : AllocatorWrapper} {A A' : List (Nat × List Tile)} {live live' : List (Nat × Nat)}
  {a a' : Nat} {ts ts' : List Tile}

theorem mem_allocs_split {base p m : Nat} :
    (p, m) ∈ allocs base ts ↔
      ∃ pre post, ts = pre ++ ⟨m, true⟩ :: post ∧ p = base + total pre * blockSizeMmap := by
  constructor
  · exact mem_allocs
  · rintro ⟨pre, post, rfl, rfl⟩
    exact (allocs_used base pre post m).mem_iff.2 List.mem_cons_self

/-- The ranges of the other arenas and of the single mappings are apart from that of an arena. -/
theorem Represents.apart_arena (h : Represents s A live) (ha : (a, ts) ∈ A) :
    (∀ x ∈ A, x = (a, ts) ∨ Apart (a, arenaSize) (x.1, arenaSize)) ∧
      ∀ c ∈ s.customArenas, Apart (a, arenaSize) (bytes c) := by
  obtain ⟨A₁, A₂, rfl⟩ := List.append_of_mem ha
  have hothers := @apart_of_middle (A₁.map fun x => (x.1, arenaSize))
    (A₂.map (fun x => (x.1, arenaSize)) ++ s.customArenas.map bytes) (a, arenaSize)
    (by simpa [ranges] using h.apart)
  constructor
  · intro x hx
    rcases List.mem_append.1 hx with hx | hx
    · exact Or.inr (hothers _ (List.mem_append_left _ (List.mem_map_of_mem hx)))
    · rcases List.mem_cons.1 hx with heq | hx
      · exact Or.inl heq
      · exact Or.inr (hothers _ (List.mem_append_right _
          (List.mem_append_left _ (List.mem_map_of_mem hx))))
  · intro c hc
    exact hothers _ (List.mem_append_right _ (List.mem_append_right _ (List.mem_map_of_mem hc)))

/-- The allocations of an arena are the live ones that start in it. -/
theorem Represents.mem_allocs_iff (h : Represents s A live) (ha : (a, ts) ∈ A) (x : Nat × Nat) :
    x ∈ allocs a ts ↔ x ∈ live ∧ InArena a x := by
  have hstarts : ∀ y ∈ A, x ∈ allocs y.1 y.2 → InArena y.1 x := by
    intro y hy hx
    obtain ⟨p, m⟩ := x
    have hinside := allocs_inside (h.tiled y hy) hx
    obtain ⟨pre, post, hsplit, -⟩ := mem_allocs hx
    have hpos := (tile_pos (hsplit ▸ h.tiled y hy)).1
    have hbytes : 0 < m * blockSizeMmap := Nat.mul_pos hpos (by decide)
    exact ⟨hinside.1, Nat.lt_of_lt_of_le (Nat.lt_add_of_pos_right hbytes) hinside.2⟩
  obtain ⟨harenas, hcustoms⟩ := h.apart_arena ha
  constructor
  · intro hx
    exact ⟨h.live.mem_iff.2 (List.mem_append_left _ (List.mem_flatMap.2 ⟨_, ha, hx⟩)),
      hstarts _ ha hx⟩
  · rintro ⟨hx, hin⟩
    rcases List.mem_append.1 (h.live.mem_iff.1 hx) with hx | hx
    · obtain ⟨y, hy, hx⟩ := List.mem_flatMap.1 hx
      rcases harenas y hy with rfl | hapart
      · exact hx
      · have hstart := hstarts y hy hx
        unfold Apart InArena at *
        simp only at hapart
        omega
    · have hapart := hcustoms x hx
      have hpos : 0 < x.2 * blockSizeMmap :=
        Nat.mul_pos (Nat.lt_of_le_of_lt (Nat.zero_le _) (h.custom x hx)) (by decide)
      unfold Apart InArena bytes at *
      simp only at hapart
      omega

/-- The heads of an arena represent what is live in it. -/
theorem Represents.laid (h : Represents s A live) (ha : (a, ts) ∈ A) :
    Laid live a (s.segments a) := by
  have ht := h.tiled _ ha
  have hc := h.coalesced _ ha
  constructor
  · intro k hk
    obtain ⟨pre, t, post, d, hsplit, rfl, harr⟩ := head_tile ht hk
    obtain ⟨hpos, hsum⟩ := tile_pos (hsplit ▸ ht)
    rw [harr]
    refine ⟨rfl, hpos, ?_⟩
    show total pre + t.size ≤ blocksInArena
    omega
  -- the heads in use are the live allocations
  · rintro ⟨p, m⟩
    rw [← h.mem_allocs_iff ha, mem_allocs_split]
    constructor
    · rintro ⟨pre, post, hsplit, rfl⟩
      obtain ⟨d, c, -, harr, -⟩ := lay_at (hsplit ▸ ht)
      refine ⟨total pre, (head_iff ht).2 ⟨pre, _, post, hsplit, rfl⟩, ?_, ?_⟩
      · rw [harr]
      · rw [harr]
    · rintro ⟨k, hk, hused, heq⟩
      obtain ⟨pre, t, post, d, hsplit, rfl, harr⟩ := head_tile ht hk
      rw [harr] at hused heq
      obtain ⟨rfl, rfl⟩ := Prod.mk.inj heq
      obtain ⟨size, used⟩ := t
      obtain rfl : used = true := hused
      exact ⟨pre, post, hsplit, rfl⟩
  -- two neighbours are not both free
  · intro k hk hlt
    obtain ⟨pre, t, post, d, hsplit, rfl, harr⟩ := head_tile ht hk
    rw [harr] at hlt ⊢
    obtain ⟨t', post', rfl, hnext⟩ := next_tile (hsplit ▸ ht) hlt
    rw [hnext]
    exact (List.isChain_cons.1 (Coalesced.right (hsplit ▸ hc))).1 t' rfl
  · constructor
    -- the link of the first head, and that of each next one
    · obtain ⟨pre, t, post, hsplit, hzero⟩ := (head_iff ht).1 .first
      obtain ⟨d, c, hpre, harr, -⟩ := lay_at (hsplit ▸ ht)
      rw [← hzero] at hpre harr
      cases pre with
      | nil =>
        rw [harr]
        exact hpre.2.symm
      | cons x pre =>
        have hx := hpre.1
        rw [total_cons] at hzero
        omega
    · intro k hk hlt
      obtain ⟨pre, t, post, d, hsplit, rfl, harr⟩ := head_tile ht hk
      rw [harr] at hlt ⊢
      obtain ⟨t', post', rfl, hnext⟩ := next_tile (hsplit ▸ ht) hlt
      rw [hnext]

theorem Represents.exists_arena (h : Represents s A live) (ha : a ∈ s.arenas) :
    ∃ ts, (a, ts) ∈ A := by
  rw [h.arenas] at ha
  obtain ⟨⟨b, ts⟩, hx, rfl⟩ := List.mem_map.1 ha
  exact ⟨ts, hx⟩

/-- Two arenas in which the same blocks are live have the same tiles. -/
theorem Represents.tiles_eq (h : Represents s A live) (h' : Represents s' A' live')
    (ha : (a, ts) ∈ A) (ha' : (a', ts') ∈ A')
    (hlive : ∀ k m, k < blocksInArena → ((a + k * blockSizeMmap, m) ∈ live ↔
      (a' + k * blockSizeMmap, m) ∈ live')) : ts = ts' := by
  obtain ⟨c, hl⟩ := h.tiled _ ha
  obtain ⟨c', hl'⟩ := h'.tiled _ ha'
  refine eq_of_used 0 (fun t ht => hl.pos ht) (fun t ht => hl'.pos ht) (h.coalesced _ ha)
    (h'.coalesced _ ha') ?_ ?_
  · have hend : blocksInArena = 0 + total ts := hl.end_eq
    exact Nat.add_left_cancel (hend.symm.trans hl'.end_eq)
  · -- a used tile at block `k` is the live allocation that starts there
    have hspans : ∀ {s : AllocatorWrapper} {A : List (Nat × List Tile)} {live : List (Nat × Nat)}
        {a : Nat} {ts : List Tile}, Represents s A live → (a, ts) ∈ A → ∀ k m,
        (k, (⟨m, true⟩ : Tile)) ∈ spans 0 ts ↔
          k < blocksInArena ∧ (a + k * blockSizeMmap, m) ∈ live := by
      intro s A live a ts h ha k m
      rw [mem_spans_iff]
      constructor
      · rintro ⟨pre, post, hsplit, rfl⟩
        obtain ⟨hpos, hsum⟩ := tile_pos (hsplit ▸ h.tiled _ ha)
        rw [Nat.zero_add]
        exact ⟨by omega, ((h.mem_allocs_iff ha _).1 (mem_allocs_split.2
          ⟨pre, post, hsplit, rfl⟩)).1⟩
      · rintro ⟨hk, hx⟩
        have hin : InArena a (a + k * blockSizeMmap, m) := by
          refine ⟨Nat.le_add_right _ _, Nat.add_lt_add_left ?_ a⟩
          rw [← arena_bytes]
          exact Nat.mul_lt_mul_of_pos_right hk (by decide)
        obtain ⟨pre, post, hsplit, heq⟩ := mem_allocs_split.1 ((h.mem_allocs_iff ha _).2 ⟨hx, hin⟩)
        have hk : k = total pre :=
          Nat.eq_of_mul_eq_mul_right (by decide) (Nat.add_left_cancel heq)
        exact ⟨pre, post, hsplit, hk.trans (Nat.zero_add _).symm⟩
    intro k m
    rw [hspans h ha, hspans h' ha']
    exact and_congr_right fun hk => hlive k m hk

/-- In every reachable state the heads of every arena tile its blocks, merged and linked, with the
live allocations as the occupied ones; and they depend on nothing but the blocks that are live in
the arena, whatever the history. -/
theorem arenas_laid (h : Reachable s live) (ha : a ∈ s.arenas) :
    Laid live a (s.segments a) ∧
      ∀ s' live' a', Reachable s' live' → a' ∈ s'.arenas →
        (∀ k m, k < blocksInArena → ((a + k * blockSizeMmap, m) ∈ live ↔
          (a' + k * blockSizeMmap, m) ∈ live')) →
        ∀ k, (Head (s.segments a) k ↔ Head (s'.segments a') k) ∧
          (Head (s.segments a) k → s.segments a k = s'.segments a' k) := by
  obtain ⟨A, hA⟩ := h.represents
  obtain ⟨ts, hts⟩ := hA.exists_arena ha
  refine ⟨hA.laid hts, fun s' live' a' h' ha' hlive k => ?_⟩
  obtain ⟨A', hA'⟩ := h'.represents
  obtain ⟨ts', hts'⟩ := hA'.exists_arena ha'
  obtain rfl := hA.tiles_eq hA' hts hts' hlive
  have ht := hA.tiled _ hts
  have ht' := hA'.tiled _ hts'
  exact ⟨head_congr ht ht' k, fun hk => entry_congr ht ht' hk⟩

/-- Three blocks of the first arena, taken at once or after five blocks were taken and released. -/
theorem arenas_laid_threeBlocks : ∃ s s',
    Reachable s [(arenaAt 0, 3)] ∧ Reachable s' [(arenaAt 0, 3)] ∧
    Laid [(arenaAt 0, 3)] (arenaAt 0) (s.segments (arenaAt 0)) ∧
      ∀ k, (Head (s.segments (arenaAt 0)) k ↔ Head (s'.segments (arenaAt 0)) k) ∧
        (Head (s.segments (arenaAt 0)) k → s.segments (arenaAt 0) k = s'.segments (arenaAt 0) k) := by
  have h : Reachable _ [(arenaAt 0, 3)] :=
    .bmalloc (.new fun _ => arenaAt 0) (by decide) fresh_behind_new rfl
  have h₁ : Reachable _ [(arenaAt 0, 5)] :=
    .bmalloc (.new fun _ => arenaAt 0) (by decide) fresh_behind_new rfl
  have h₂ : Reachable _ [] := .bfree h₁ List.mem_cons_self
  have h' : Reachable _ [(arenaAt 0, 3)] :=
    @Reachable.bmalloc _ _ _ (fun _ => arenaAt 1) 3 (arenaAt 0) h₂ (by decide) fresh_behind_new rfl
  obtain ⟨hlaid, hsame⟩ := arenas_laid h (a := arenaAt 0) List.mem_cons_self
  exact ⟨_, _, h, h', hlaid, hsame _ _ (arenaAt 0) h' List.mem_cons_self fun _ _ _ => Iff.rfl⟩

end Arenas

end LocalSoftware.Alloc
