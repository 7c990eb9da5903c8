import LocalSoftware.Alloc.Layout

/-!
# Requests of zero blocks

`bmalloc` does not check that a request asks for a block. A request of zero blocks that a free
segment serves leaves a head of length 0 there, and a scan that meets it never ends
(`scan_none_of_head`); the code for a new arena has no such head. `ends_of_history` shows that every
request ends when no request of zero blocks is made while an arena has a free segment, and when its
pointer is only released while the arena it starts is still there with its first segment free. It
also shows that this is the exact condition on one request: any other leaves a head of length 0.
-/

set_option autoImplicit false

namespace LocalSoftware.Alloc

open LocalSoftware.Library.Tiling

/-- The states of an allocator over requests of any size and releases of live pointers, where every
request and every release meets its condition in the state before it. -/
inductive History (request : AllocatorWrapper → Nat → Prop)
    (release : AllocatorWrapper → Nat × Nat → Prop) :
    AllocatorWrapper → List (Nat × Nat) → Prop where
  | new (mmap : Nat → Nat) : History request release (.new mmap) []
  | bmalloc {s s' : AllocatorWrapper} {live : List (Nat × Nat)} {mmap : Nat → Nat} {num p : Nat}
      (h : History request release s live) (hnum : request s num) (hf : MmapFresh s mmap)
      (heq : s.bmalloc mmap num = some (p, s')) : History request release s' ((p, num) :: live)
  | bfree {s : AllocatorWrapper} {live : List (Nat × Nat)} {p num : Nat}
      (h : History request release s live) (hp : (p, num) ∈ live) (hx : release s (p, num)) :
      History request release (s.bfree p) (live.erase (p, num))

/-- No arena has a free segment. -/
def Full (s : AllocatorWrapper) : Prop :=
  ∀ a ∈ s.arenas, ∀ k, Head (s.segments a) k → (s.segments a k).occupied = true

/-- Zero blocks are only requested when no arena has a free segment. -/
def ZeroWhenFull (s : AllocatorWrapper) (num : Nat) : Prop := num = 0 → Full s

/-- A pointer to zero blocks is only released while it starts an arena with a free first segment, so
that it takes nobody's blocks. This is more than is needed: where no arena lies at or below the
pointer, its release does nothing. -/
def ZeroAtFree (s : AllocatorWrapper) (x : Nat × Nat) : Prop :=
  x.2 = 0 → x.1 ∈ s.arenas ∧ (s.segments x.1 0).occupied = false

/-- The scan of every arena steps by at least one block. -/
def Advances (s : AllocatorWrapper) : Prop :=
  ∀ a ∈ s.arenas, ∀ k, Head (s.segments a) k → 1 ≤ (s.segments a k).length

/-- The allocations of at least one block. -/
def nonempty (live : List (Nat × Nat)) : List (Nat × Nat) := live.filter fun x => decide (x.2 ≠ 0)

section Scan

variable {arr : Segments} {ts pre post : List Tile} {k m num : Nat}

theorem Head.lt (h : Head arr k) : k < blocksInArena := by
  cases h with
  | first => decide
  | next _ hlt => exact hlt

/-- A scan that meets a head of length 0 never ends. -/
theorem scan_none_of_head (h : Head arr k) (hlen : (arr k).length = 0) :
    ∀ fuel found, scan arr num fuel 0 found = none := by
  have hstay : ∀ fuel found, scan arr num fuel k found = none := by
    intro fuel
    have hk := h.lt
    induction fuel with
    | zero =>
      intro found
      rw [scan, if_neg (Nat.not_le.2 hk)]
    | succ fuel ih =>
      intro found
      rw [scan, if_neg (Nat.not_le.2 hk)]
      simp only [hlen, Nat.add_zero]
      exact ih _
  clear hlen
  -- the scan comes to `k` from the heads before it
  induction h with
  | first => exact hstay
  | next hk hlt ih =>
    apply ih
    intro fuel found
    cases fuel with
    | zero => rw [scan, if_neg (Nat.not_le.2 hk.lt)]
    | succ fuel =>
      rw [scan, if_neg (Nat.not_le.2 hk.lt)]
      exact hstay fuel _

/-- A head depends on the entries before it only. -/
theorem Head.of_agree {arr' : Segments} (h : Head arr k)
    (hpos : ∀ j, Head arr j → 1 ≤ (arr j).length) (hsame : ∀ x, x < k → arr' x = arr x) :
    Head arr' k := by
  induction h with
  | first => exact .first
  | next hk hlt ih =>
    have hone := hpos _ hk
    have heq := hsame _ (Nat.lt_add_of_pos_right hone)
    have hrec := ih fun x hx => hsame x (by omega)
    rw [← heq] at hlt ⊢
    exact .next hrec hlt

/-- Zero blocks cut from a free segment leave a head of length 0. -/
theorem occupy_zero (arr : Segments) (k : Nat) :
    (occupy arr k 0 k).length = 0 ∧ ∀ x, x < k → occupy arr k 0 x = arr x := by
  unfold occupy
  refine ⟨by simp [bits7], fun x hx => ?_⟩
  simp only [Nat.add_zero]
  rw [Function.update_of_ne (Nat.ne_of_lt hx)]
  split
  · exact Function.update_of_ne (by omega) _ _
  · split
    · split
      · rw [Function.update_of_ne (by omega), Function.update_of_ne (Nat.ne_of_lt hx)]
      · exact Function.update_of_ne (Nat.ne_of_lt hx) _ _
    · rfl

/-- Releasing a first segment that is free already changes nothing: the segment behind it is used
and linked to it. -/
theorem release_free (ht : Tiled (tags arr) blocksInArena ts) (hc : Coalesced ts)
    (hfree : (arr 0).occupied = false) : release arr 0 = arr := by
  obtain ⟨pre, t, post, d, rfl, hzero, harr⟩ := head_tile ht .first
  have hpre : total pre = 0 := hzero.symm
  -- behind a free segment of a coalesced tiling lies one in use, linked to it
  have hnext : ∀ {j : Nat}, j = (arr 0).length → j < blocksInArena →
      (arr j).occupied = true ∧ (arr j).back = 0 := by
    rintro j rfl hlt
    rw [harr] at hlt ⊢
    obtain ⟨t', post', rfl, hentry⟩ := next_tile ht (by rwa [hpre, Nat.zero_add])
    rw [hpre, Nat.zero_add] at hentry
    have hchain := (List.isChain_cons.1 hc.right).1 t' rfl
    simp only
    rw [hentry]
    rw [harr] at hfree
    exact ⟨hchain.resolve_left (by simpa using hfree), rfl⟩
  -- so there is nothing to merge with
  have hforward : mergeForward arr 0 = arr := by
    unfold mergeForward
    refine if_neg ?_
    rintro ⟨hlt, hnotused⟩
    have hused := (hnext (Nat.zero_add _) hlt).1
    rw [hnotused] at hused
    exact Bool.false_ne_true hused
  have hself : Function.update arr 0 { arr 0 with occupied := false } = arr := by
    rw [← hfree]
    exact Function.update_eq_self 0 arr
  unfold release
  rw [hforward]
  unfold mergeBack
  simp only [ne_eq, not_true_eq_false, false_and, if_false, hself, Nat.zero_add]
  split
  · rename_i hlt
    have hback := (hnext rfl hlt).2
    -- and the link is written as it was
    have hbits : bits7 0 = (arr (arr 0).length).back := hback.symm
    rw [hbits]
    exact Function.update_eq_self _ arr
  · rfl

end Scan

section Requests

variable {s s' : AllocatorWrapper} {A : List (Nat × List Tile)} {live : List (Nat × Nat)}
  {a num p : Nat} {ts : List Tile} {mmap : Nat → Nat}

theorem nonempty_cons_zero : nonempty ((p, 0) :: live) = nonempty live :=
  List.filter_cons_of_neg (by simp)

theorem nonempty_cons (hnum : num ≠ 0) :
    nonempty ((p, num) :: live) = (p, num) :: nonempty live :=
  List.filter_cons_of_pos (by simpa using hnum)

theorem nonempty_erase (x : Nat × Nat) : nonempty (live.erase x) = (nonempty live).erase x :=
  List.erase_filter.symm

theorem nonempty_erase_zero : nonempty (live.erase (p, 0)) = nonempty live := by
  rw [nonempty_erase]
  exact List.erase_of_not_mem fun h => by simpa using (List.mem_filter.1 h).2

/-- The scan advances over every representation. -/
theorem Represents.advances (h : Represents s A live) : Advances s := by
  intro a ha k hk
  obtain ⟨ts, hts⟩ := h.exists_arena ha
  exact ((h.laid hts).head k hk).2.1

/-- No arena has a free segment exactly when no tile is free. -/
theorem Represents.full_iff (h : Represents s A live) :
    Full s ↔ ∀ x ∈ A, ∀ m, ⟨m, false⟩ ∉ x.2 := by
  constructor
  · rintro hfull ⟨a, ts⟩ ha m hm
    obtain ⟨pre, post, hsplit⟩ := List.append_of_mem hm
    have ht := h.tiled _ ha
    have hmem : a ∈ s.arenas := by
      rw [h.arenas]
      exact List.mem_map_of_mem ha
    have hused := hfull a hmem (total pre) ((head_iff ht).2 ⟨pre, _, post, hsplit, rfl⟩)
    obtain ⟨d, c, -, harr, -⟩ := lay_at (hsplit ▸ ht)
    rw [harr] at hused
    exact Bool.false_ne_true hused
  · intro hnone a ha k hk
    obtain ⟨ts, hts⟩ := h.exists_arena ha
    obtain ⟨pre, ⟨size, used⟩, post, d, rfl, rfl, harr⟩ := head_tile (h.tiled _ hts) hk
    rw [harr]
    cases used with
    | true => rfl
    | false => exact absurd (by simp) (hnone _ hts size)

/-- Zero blocks from a new arena: the arena is left wholly free. -/
theorem Represents.zeroNew (h : Represents s A live) (hf : MmapFresh s mmap) :
    ∃ A', Represents ((s.addArena mmap blocksInArena).2.setSegments (mmap arenaSize)
      (occupyFirst ((s.addArena mmap blocksInArena).2.segments (mmap arenaSize)) 0)) A' live := by
  obtain ⟨A₁, A₂, rfl, hnew⟩ := h.addArena hf
  have hfirst : ∀ arr : Segments, occupyFirst arr 0 0 = ⟨blocksInArena, 0, false, false⟩ := by
    intro arr
    simp [occupyFirst, blocksInArena, bits7]
  have hfree : Tiled (tags (occupyFirst
      ((s.addArena mmap blocksInArena).2.segments (mmap arenaSize)) 0)) blocksInArena
      [⟨blocksInArena, false⟩] := ⟨0, by decide, tags_eq_some_iff.2 (hfirst _), rfl, rfl⟩
  exact ⟨_, hnew.setArena hfree (by simp [Coalesced]) hnew.live⟩

/-- A request that meets its condition ends and keeps a representation. -/
theorem Represents.request (h : Represents s A (nonempty live)) (hnum : ZeroWhenFull s num)
    (hf : MmapFresh s mmap) :
    ∃ p s' A', s.bmalloc mmap num = some (p, s') ∧
      Represents s' A' (nonempty ((p, num) :: live)) := by
  by_cases hzero : num = 0
  · subst hzero
    rcases h.bmalloc_cases mmap (Nat.zero_le _) with ⟨-, heq⟩ | ⟨a, pre, m, post, ha, -, -⟩
    · obtain ⟨A', hA'⟩ := h.zeroNew hf
      refine ⟨_, _, A', heq, ?_⟩
      rwa [nonempty_cons_zero]
    · exact absurd (by simp) (h.full_iff.1 (hnum rfl) _ ha m)
  · obtain ⟨p, s', A', heq, hA'⟩ := h.bmalloc (Nat.one_le_iff_ne_zero.2 hzero) hf
    refine ⟨p, s', A', heq, ?_⟩
    rwa [nonempty_cons hzero]

/-- A release that meets its condition keeps a representation; that of zero blocks changes no
tile. -/
theorem Represents.release (h : Represents s A (nonempty live)) (hp : (p, num) ∈ live)
    (hx : ZeroAtFree s (p, num)) : ∃ A', Represents (s.bfree p) A' (nonempty (live.erase (p, num))) := by
  by_cases hzero : num = 0
  · subst hzero
    rw [nonempty_erase_zero]
    obtain ⟨hmem, hfree⟩ := hx rfl
    obtain ⟨ts, hts⟩ := h.exists_arena hmem
    have hfrom := h.bfree_arena hts (show 0 < blocksInArena by decide)
    rw [Nat.zero_mul, Nat.add_zero, release_free (h.tiled _ hts) (h.coalesced _ hts) hfree] at hfrom
    rw [hfrom]
    have htiled := h.tiled _ hts
    have hcoalesced := h.coalesced _ hts
    obtain ⟨A₁, A₂, rfl⟩ := List.append_of_mem hts
    exact (h.setArena htiled hcoalesced h.live).dropFree
  · rw [nonempty_erase]
    exact h.bfree (List.mem_filter.2 ⟨hp, by simpa using hzero⟩)

theorem History.represents (h : History ZeroWhenFull ZeroAtFree s live) :
    ∃ A, Represents s A (nonempty live) := by
  induction h with
  | new mmap => exact ⟨_, represents_new mmap⟩
  | bmalloc _ hnum hf heq ih =>
    obtain ⟨A, hA⟩ := ih
    obtain ⟨p, s', A', heq', hA'⟩ := hA.request hnum hf
    rw [heq] at heq'
    obtain ⟨rfl, rfl⟩ := Prod.mk.inj (Option.some.inj heq')
    exact ⟨A', hA'⟩
  | bfree _ hp hx ih =>
    obtain ⟨A, hA⟩ := ih
    exact hA.release hp hx

/-- Zero blocks from a free segment: a head of length 0 is left. -/
theorem Represents.not_advances (h : Represents s A live) (hfull : ¬ Full s)
    (heq : s.bmalloc mmap 0 = some (p, s')) : ¬ Advances s' := by
  intro hadv
  rcases h.bmalloc_cases mmap (Nat.zero_le _) with ⟨hshort, -⟩ | ⟨a, pre, m, post, ha, -, heq'⟩
  · exact hfull (h.full_iff.2 fun x hx m hm => absurd (hshort x hx m hm) (Nat.not_lt_zero m))
  · rw [heq] at heq'
    obtain ⟨-, rfl⟩ := Prod.mk.inj (Option.some.inj heq')
    obtain ⟨hlen, hsame⟩ := occupy_zero (s.segments a) (total pre)
    have hmem : a ∈ s.arenas := by
      rw [h.arenas]
      exact List.mem_map_of_mem ha
    have hhead := (head_iff (h.tiled _ ha)).2 ⟨pre, _, post, rfl, rfl⟩
    have hpos := hadv a hmem (total pre)
    rw [segments_setSegments, if_pos rfl, hlen] at hpos
    exact absurd (hpos (hhead.of_agree (h.advances a hmem) hsame)) (by decide)

/-- In every state of a history in which no zero blocks are requested while an arena has a free
segment, and no zero blocks are released unless they start an arena whose first segment is free, the
scan of every arena advances and every request ends, of whatever size. The request leaves a state in
which the scans advance exactly when it meets the condition itself. -/
theorem ends_of_history (h : History ZeroWhenFull ZeroAtFree s live) (hf : MmapFresh s mmap)
    (num : Nat) :
    Advances s ∧ ∃ p s', s.bmalloc mmap num = some (p, s') ∧
      (Advances s' ↔ ZeroWhenFull s num) := by
  obtain ⟨A, hA⟩ := h.represents
  refine ⟨hA.advances, ?_⟩
  by_cases hnum : ZeroWhenFull s num
  · obtain ⟨p, s', A', heq, hA'⟩ := hA.request hnum hf
    exact ⟨p, s', heq, fun _ => hnum, fun _ => hA'.advances⟩
  · obtain ⟨rfl, hfull⟩ := Classical.not_imp.1 hnum
    have hends : ∃ r, s.bmalloc mmap 0 = some r := by
      rcases hA.bmalloc_cases mmap (Nat.zero_le _) with ⟨-, heq⟩ | ⟨a, pre, m, post, -, -, heq⟩
      · exact ⟨_, heq⟩
      · exact ⟨_, heq⟩
    obtain ⟨⟨p, s'⟩, heq⟩ := hends
    exact ⟨p, s', heq, fun hadv => absurd hadv (hA.not_advances hfull heq),
      fun hmeets => absurd (hmeets rfl) hfull⟩

/-- The first block of a wholly taken arena is its only head. -/
theorem full_of_whole (harenas : s.arenas = [a]) (hused : (s.segments a 0).occupied = true)
    (hlen : (s.segments a 0).length = blocksInArena) : Full s := by
  intro b hb k hk
  obtain rfl : b = a := by simpa [harenas] using hb
  have hfirst : k = 0 := by
    induction hk with
    | first => rfl
    | next _ hlt ih =>
      obtain rfl := ih
      rw [hlen] at hlt
      exact absurd hlt (by decide)
  rw [hfirst]
  exact hused

/-- All 64 blocks of the first arena are taken, so that zero blocks open a new arena. -/
theorem ends_of_history_full : ∃ s, History ZeroWhenFull ZeroAtFree s [(arenaAt 0, 64)] ∧
    ∃ p s', s.bmalloc (fun _ => arenaAt 1) 0 = some (p, s') ∧ Advances s' := by
  have h : History ZeroWhenFull ZeroAtFree _ [(arenaAt 0, 64)] :=
    .bmalloc (.new fun _ => arenaAt 0) (by unfold ZeroWhenFull; omega) fresh_behind_new rfl
  have hfresh : MmapFresh _ fun _ => arenaAt 1 := fun len hlen r hr =>
    fresh_behind_new len hlen r hr
  obtain ⟨-, p, s', heq, hiff⟩ := ends_of_history h hfresh 0
  exact ⟨_, h, p, s', heq, hiff.2 fun _ => full_of_whole (a := arenaAt 0) rfl rfl rfl⟩

/-- A request that comes to an arena with a head of length 0 has no result. -/
theorem bmalloc_none {k : Nat} {rest : List Nat} (harenas : s.arenas = a :: rest)
    (hcustom : s.isCustom a = false) (hk : Head (s.segments a) k)
    (hlen : (s.segments a k).length = 0) (hle : num ≤ blocksInArena) : s.bmalloc mmap num = none := by
  unfold AllocatorWrapper.bmalloc
  rw [if_neg (Nat.not_lt.2 hle), harenas, AllocatorWrapper.allocIn, hcustom,
    scan_none_of_head hk hlen]
  rfl

/-- Zero blocks from the arena of the constructor: the next request never ends. -/
theorem not_ends_of_zero : ∃ s live mmap,
    History (fun _ _ => True) (fun _ _ => True) s live ∧ MmapFresh s mmap ∧
      s.bmalloc mmap 1 = none ∧
      ∃ a ∈ s.arenas, ∀ fuel, scan (s.segments a) 1 fuel 0 none = none := by
  have h : History (fun _ _ => True) (fun _ _ => True) _ [(arenaAt 0, 0)] :=
    .bmalloc (.new fun _ => arenaAt 0) trivial fresh_behind_new rfl
  have hfresh : MmapFresh _ fun _ => arenaAt 1 := fun len hlen r hr =>
    fresh_behind_new len hlen r hr
  exact ⟨_, _, _, h, hfresh, bmalloc_none rfl rfl .first rfl (by decide), arenaAt 0, List.mem_cons_self,
    fun fuel => scan_none_of_head .first rfl fuel none⟩

end Requests

end LocalSoftware.Alloc
