import LocalSoftware.Alloc.AllocWrapper
import LocalSoftware.Library.Tiling

/-!
# One arena as a boundary-tag tiling

The array of an arena tiles its 64 blocks by segments. `scan` finds the last free segment that is
long enough (`scan_eq_lastFit`), `occupy` cuts it (`occupy_tiled`), and `release` frees a segment
and merges it with its free neighbours (`release_tiled`). Every one of them keeps the tiling
coalesced, whatever stale entries the interior blocks hold.
-/

set_option autoImplicit false

namespace LocalSoftware.Alloc

open LocalSoftware.Library.Tiling

/-- The boundary tag in the entry of a block; interior blocks have none. -/
def tagOf (s : SegmentInfo) : Option Tag :=
  if s.interior then none else some ⟨s.length, s.back, s.occupied⟩

/-- The tags of an arena. -/
def tags (arr : Segments) (i : Nat) : Option Tag := tagOf (arr i)

theorem tags_eq_some_iff {arr : Segments} {i : Nat} {t : Tag} :
    tags arr i = some t ↔ arr i = ⟨t.size, t.back, t.used, false⟩ := by
  unfold tags tagOf
  rcases arr i with ⟨length, back, occupied, interior⟩
  cases interior <;> cases t <;> simp

theorem bits7_of_le {n : Nat} (h : n ≤ blocksInArena) : bits7 n = n := by
  unfold bits7 blocksInArena at *
  omega

/-! ## The scan -/

/-- The last free tile of size at least `num`, as the scan meets them. -/
def lastFit (num : Nat) : Nat → List Tile → Option Nat → Option Nat
  | _, [], found => found
  | i, t :: ts, found =>
    lastFit num (i + t.size) ts (if !t.used && decide (num ≤ t.size) then some i else found)

/-- On a tiling the scan ends and visits every tile. -/
theorem scan_eq_lastFit {arr : Segments} (num : Nat) : ∀ {ts : List Tile} {fuel i b c : Nat}
    (found : Option Nat), Lay (tags arr) i b ts blocksInArena c → ts.length ≤ fuel →
      scan arr num fuel i found = some (lastFit num i ts found)
  | [], fuel, i, b, c, found, hl, _ => by
      unfold scan
      simp [lastFit, hl.1]
  | t :: ts, fuel, i, b, c, found, hl, hfuel => by
      obtain ⟨hpos, ht, hrest⟩ := hl
      obtain ⟨fuel, rfl⟩ : ∃ n, fuel = n + 1 := ⟨fuel - 1, by simp at hfuel; omega⟩
      have hend := hrest.end_eq
      have hlt : ¬ blocksInArena ≤ i := by omega
      have harr := tags_eq_some_iff.1 ht
      have hrec := scan_eq_lastFit num
        (if !t.used && decide (num ≤ t.size) then some i else found) hrest
        (show ts.length ≤ fuel by simpa using hfuel)
      rw [scan, if_neg hlt]
      simp only [harr, Bool.false_or, lastFit]
      exact hrec

theorem lastFit_eq_some {num : Nat} : ∀ {ts : List Tile} {i k : Nat} {found : Option Nat},
    lastFit num i ts found = some k → found = some k ∨
      ∃ pre m post, ts = pre ++ ⟨m, false⟩ :: post ∧ num ≤ m ∧ k = i + total pre
  | [], i, k, found, h => Or.inl h
  | t :: ts, i, k, found, h => by
      rcases @lastFit_eq_some num ts _ _ _ h with hfound | ⟨pre, m, post, rfl, hm, rfl⟩
      · split at hfound
        · rename_i hfit
          simp only [Bool.and_eq_true, Bool.not_eq_true', decide_eq_true_eq] at hfit
          obtain ⟨rfl⟩ := Option.some.inj hfound
          obtain ⟨size, used⟩ := t
          obtain rfl : used = false := hfit.1
          exact Or.inr ⟨[], size, ts, rfl, hfit.2, by simp⟩
        · exact Or.inl hfound
      · exact Or.inr ⟨t :: pre, m, post, rfl, hm, by simp [Nat.add_assoc]⟩

/-- Nothing is found only where every free tile is too short. -/
theorem lastFit_eq_none {num : Nat} : ∀ {ts : List Tile} {i : Nat} {found : Option Nat},
    lastFit num i ts found = none → found = none ∧ ∀ m, ⟨m, false⟩ ∈ ts → m < num
  | [], _, _, h => ⟨h, fun m hm => absurd hm List.not_mem_nil⟩
  | t :: ts, i, found, h => by
      obtain ⟨hfound, hrest⟩ := @lastFit_eq_none num ts _ _ h
      split at hfound
      · exact absurd hfound (by simp)
      · rename_i hfit
        refine ⟨hfound, fun m hm => ?_⟩
        rcases List.mem_cons.1 hm with rfl | hm
        · simpa using hfit
        · exact hrest m hm

theorem lay_length_le {h : Nat → Option Tag} : ∀ {ts : List Tile} {i b j c : Nat},
    Lay h i b ts j c → i + ts.length ≤ j
  | [], _, _, _, _, hl => by simp [hl.1]
  | t :: ts, i, _, _, _, hl => by
      have hrec := lay_length_le hl.2.2
      have hpos := hl.1
      simp only [List.length_cons]
      omega

/-! ## Cutting a free segment -/

/-- What becomes of a free tile of size `m` when `num` blocks of it are taken. -/
def cut (num m : Nat) : List Tile :=
  ⟨num, true⟩ :: if num = m then [] else [⟨m - num, false⟩]

/-- The entries after a cut: the segment taken, the link of the segment behind, and the rest. -/
theorem occupy_apply (arr : Segments) {found num m : Nat} (hlen : (arr found).length = m)
    (hnum : 1 ≤ num) (hm : num ≤ m) (x : Nat) :
    occupy arr found num x =
      if x = found then { arr found with length := bits7 num, occupied := true }
      else if x = found + m ∧ found + m < blocksInArena then
        { arr x with back := bits7 (if num = m then found else found + num) }
      else if x = found + num ∧ num < m then
        { length := bits7 (m - num), back := bits7 found, occupied := false, interior := false }
      else arr x := by
  unfold occupy
  simp only [hlen]
  rcases Nat.eq_or_lt_of_le hm with rfl | hlt
  · by_cases hin : found + num < blocksInArena
    · simp only [hin, and_true, if_true, lt_irrefl, and_false, if_false,
        Function.update_apply, show found ≠ found + num by omega]
      split_ifs <;> simp_all
    · simp only [hin, and_false, if_false, lt_irrefl, Function.update_apply]
  · by_cases hin : found + m < blocksInArena
    · simp only [show m ≠ num by omega, show num ≠ m by omega, hin, hlt, and_true, if_true,
        if_false, Function.update_apply, show found ≠ found + num by omega,
        show found ≠ found + m by omega, show found + m ≠ found + num by omega]
      split_ifs <;> simp_all
    · simp only [show m ≠ num by omega, hin, hlt, and_false, if_true, and_true,
        if_false, Function.update_apply, show found ≠ found + num by omega]

/-- Cutting a free tile: the tiles before and behind it stay, the behind one with a new link. -/
theorem occupy_tiled {arr : Segments} {pre post : List Tile} {num m : Nat}
    (ht : Tiled (tags arr) blocksInArena (pre ++ ⟨m, false⟩ :: post))
    (hnum : 1 ≤ num) (hm : num ≤ m) :
    Tiled (tags (occupy arr (total pre) num)) blocksInArena (pre ++ (cut num m ++ post)) := by
  obtain ⟨c, hl⟩ := ht
  obtain ⟨k, d, hpre, hpos, hhead, hpost⟩ := lay_append.1 hl
  obtain rfl : k = total pre := by have := hpre.end_eq; omega
  have hend := hpost.end_eq
  have harr := tags_eq_some_iff.1 hhead
  simp only at hpos hpost hend harr
  -- what the cut writes: the taken entry, the rest if there is one, and the link behind
  have happly := occupy_apply arr (show (arr (total pre)).length = m by rw [harr]) hnum hm
  have hpre' : Lay (tags (occupy arr (total pre) num)) 0 0 pre (total pre) d :=
    hpre.congr fun x _ hx => by
      unfold tags
      rw [happly, if_neg (by omega), if_neg (by omega), if_neg (by omega)]
  have htaken : tags (occupy arr (total pre) num) (total pre) = some ⟨num, d, true⟩ := by
    rw [tags_eq_some_iff, happly, if_pos rfl, harr, bits7_of_le (by omega)]
  -- the first tile behind is linked to the rest, or to the taken one if nothing is left
  obtain ⟨c', hpost'⟩ := hpost.relink (tags (occupy arr (total pre) num))
    (if num = m then total pre else total pre + num)
    (fun hj tag htag => by
      rw [tags_eq_some_iff, happly, if_neg (by omega), if_pos ⟨rfl, hj⟩,
        tags_eq_some_iff.1 htag, bits7_of_le (by split <;> omega)])
    (fun x h1 h2 => by
      unfold tags
      rw [happly, if_neg (by omega), if_neg (by omega), if_neg (by omega)])
  -- the whole tile is taken, or a free rest stays
  rcases Nat.eq_or_lt_of_le hm with rfl | hlt
  · simp only [if_true] at hpost'
    refine ⟨c', lay_append.2 ⟨_, d, hpre', ?_⟩⟩
    simp only [cut, if_true, List.cons_append, List.nil_append]
    exact ⟨hnum, htaken, hpost'⟩
  · simp only [Nat.ne_of_lt hlt, if_false] at hpost'
    refine ⟨c', lay_append.2 ⟨_, d, hpre', ?_⟩⟩
    simp only [cut, Nat.ne_of_lt hlt, if_false, List.cons_append, List.nil_append]
    have hrem : tags (occupy arr (total pre) num) (total pre + num) =
        some ⟨m - num, total pre, false⟩ := by
      rw [tags_eq_some_iff, happly, if_neg (by omega), if_neg (by omega), if_pos ⟨rfl, hlt⟩,
        bits7_of_le (by omega), bits7_of_le (by omega)]
    have hadd : total pre + num + (m - num) = total pre + m := by omega
    exact ⟨hnum, htaken, show 0 < m - num by omega, hrem, hadd.symm ▸ hpost'⟩

theorem cut_coalesced {pre post : List Tile} {num m : Nat}
    (h : Coalesced (pre ++ ⟨m, false⟩ :: post)) : Coalesced (pre ++ (cut num m ++ post)) := by
  obtain ⟨hpre, hpost, hjoin⟩ := coalesced_append_iff.1 h
  have hp := List.isChain_cons.1 hpost
  refine coalesced_append_iff.2 ⟨hpre, coalesced_append_iff.2 ⟨?_, hp.2, ?_⟩, ?_⟩
  · unfold cut Coalesced
    split <;> simp
  · intro x hx y hy
    unfold cut at hx
    split at hx
    · simp at hx
      exact Or.inl (by simp [← hx])
    · simp at hx
      subst hx
      exact hp.1 y hy
  · intro x _ y hy
    simp [cut] at hy
    exact Or.inr (by simp [← hy])

/-! ## Releasing a segment -/

/-- A free tile of size `m` in front of `post`, merged with a free tile at the head of `post`. -/
def freeRight (m : Nat) : List Tile → List Tile
  | ⟨k, false⟩ :: post => ⟨m + k, false⟩ :: post
  | post => ⟨m, false⟩ :: post

/-- The tiles after the release of a tile of size `m` between `pre` and `post`. -/
def freeAt : List Tile → Nat → List Tile → List Tile
  | [], m, post => freeRight m post
  | [⟨k, false⟩], m, post => freeRight (k + m) post
  | t :: pre, m, post => t :: freeAt pre m post

theorem freeAt_concat_free (pre : List Tile) (k m : Nat) (post : List Tile) :
    freeAt (pre ++ [⟨k, false⟩]) m post = pre ++ freeRight (k + m) post := by
  induction pre with
  | nil => rfl
  | cons t pre ih =>
      rw [List.cons_append, freeAt, ih, List.cons_append]
      simp

theorem freeAt_concat_used (pre : List Tile) (k m : Nat) (post : List Tile) :
    freeAt (pre ++ [⟨k, true⟩]) m post = pre ++ ⟨k, true⟩ :: freeRight m post := by
  induction pre with
  | nil => rfl
  | cons t pre ih =>
      rw [List.cons_append, freeAt, ih, List.cons_append]
      simp

/-- The forward merge: the tile at the end of `pre` grows over a free tile behind it. The tiles
further behind are laid as before, with whatever link their first one had. -/
theorem mergeForward_lay {arr : Segments} {pre post : List Tile} {m c : Nat}
    (hl : Lay (tags arr) 0 0 (pre ++ ⟨m, true⟩ :: post) blocksInArena c) :
    ∃ n post' b d, freeRight m post = ⟨n, false⟩ :: post' ∧ 0 < n ∧
      total pre + n + total post' = blocksInArena ∧
      Lay (tags (mergeForward arr (total pre))) 0 0 pre (total pre) d ∧
      (arr (total pre)).back = d ∧
      mergeForward arr (total pre) (total pre) = ⟨n, d, true, false⟩ ∧
      ∃ c', Lay (tags (mergeForward arr (total pre))) (total pre + n) b post' blocksInArena c' := by
  obtain ⟨k, d, hpre, hpos, hhead, hpost⟩ := lay_append.1 hl
  obtain rfl : k = total pre := by have := hpre.end_eq; omega
  have hend := hpost.end_eq
  have harr := tags_eq_some_iff.1 hhead
  simp only at hpos hpost hend harr
  -- at the end of the arena there is nothing to merge with
  cases post with
  | nil =>
      have hsame : mergeForward arr (total pre) = arr := by
        unfold mergeForward
        rw [harr, if_neg (by simp at hend ⊢; omega)]
      refine ⟨m, [], total pre, d, rfl, hpos, by simp at hend ⊢; omega, ?_, by rw [harr], ?_, c, ?_⟩
      · rw [hsame]
        exact hpre
      · rw [hsame, harr]
      · rw [hsame]
        exact hpost
  | cons t post =>
      obtain ⟨htpos, ht, hrest⟩ := hpost
      have hnext := tags_eq_some_iff.1 ht
      simp only [total_cons] at hend
      have hin : total pre + m < blocksInArena := by omega
      obtain ⟨size, used⟩ := t
      cases used with
      -- the tile behind is in use
      | true =>
          have hsame : mergeForward arr (total pre) = arr := by
            unfold mergeForward
            rw [harr, if_neg (by simp [hnext])]
          refine ⟨m, ⟨size, true⟩ :: post, total pre, d, rfl, hpos, by simp at hend ⊢; omega, ?_,
            by rw [harr], ?_, c, ?_⟩
          · rw [hsame]
            exact hpre
          · rw [hsame, harr]
          · rw [hsame]
            exact ⟨htpos, ht, hrest⟩
      | false =>
          simp only at hend htpos hrest hnext
          -- the tile grows over the free one, whose entry becomes an inner block
          have hmerge : ∀ x, mergeForward arr (total pre) x =
              if x = total pre + m then { arr x with interior := true }
              else if x = total pre then ⟨m + size, d, true, false⟩ else arr x := by
            intro x
            unfold mergeForward
            rw [harr, if_pos ⟨hin, by simp [hnext]⟩]
            simp only [hnext, Function.update_apply, bits7_of_le (show m + size ≤ _ by omega)]
            by_cases h1 : x = total pre + m
            · subst h1
              simp [show ¬ m = 0 by omega, hnext]
            · by_cases h2 : x = total pre <;> simp [h1, h2, show ¬ m = 0 by omega]
          have hsame : ∀ x, x ≠ total pre → x ≠ total pre + m →
              tags (mergeForward arr (total pre)) x = tags arr x := by
            intro x h1 h2
            unfold tags
            rw [hmerge, if_neg h2, if_neg h1]
          refine ⟨m + size, post, total pre + m, d, rfl, by omega, by omega, ?_, by rw [harr], ?_, c, ?_⟩
          · exact hpre.congr fun x _ hx => hsame x (by omega) (by omega)
          · rw [hmerge, if_neg (by omega), if_pos rfl]
          · rw [← Nat.add_assoc]
            exact hrest.congr fun x h1 h2 => hsame x (by omega) (by omega)

/-- The released segment has no free segment in front of it. -/
theorem mergeBack_stay (arr : Segments) {back position n : Nat} (hn : 0 < n)
    (hlen : (arr position).length = n)
    (hused : ¬ (position ≠ 0 ∧ (arr back).occupied = false)) (x : Nat) :
    mergeBack arr back position x =
      if x = position + n ∧ position + n < blocksInArena then { arr x with back := bits7 position }
      else if x = position then { arr x with occupied := false } else arr x := by
  unfold mergeBack
  rw [if_neg hused]
  simp only [Function.update_self, hlen]
  by_cases hin : position + n < blocksInArena
  · simp only [hin, if_true, and_true, Function.update_apply]
    split_ifs <;> simp_all
  · simp only [hin, if_false, and_false, Function.update_apply]
    split_ifs <;> simp_all

/-- The released segment is taken over by the free segment in front of it. -/
theorem mergeBack_join (arr : Segments) {back position l n : Nat} (hn : 0 < n) (hl : 0 < l)
    (hadj : back + l = position) (hsum : l + n ≤ blocksInArena)
    (hback : (arr back).length = l) (hlen : (arr position).length = n)
    (hfree : (arr back).occupied = false) (x : Nat) :
    mergeBack arr back position x =
      if x = position + n ∧ position + n < blocksInArena then { arr x with back := bits7 back }
      else if x = position then { arr x with interior := true }
      else if x = back then { arr x with length := l + n } else arr x := by
  have hne : back ≠ position := by omega
  have hnext : back + (l + n) = position + n := by omega
  unfold mergeBack
  rw [if_pos ⟨by omega, hfree⟩]
  simp only [Function.update_self, hback, hlen, bits7_of_le hsum, Function.update_of_ne hne,
    Function.update_of_ne hne.symm, hnext]
  by_cases hin : position + n < blocksInArena
  · simp only [hin, if_true, and_true, Function.update_apply]
    split_ifs <;> simp_all
  · simp only [hin, if_false, and_false, Function.update_apply]
    split_ifs <;> simp_all

theorem release_stay {arr : Segments} {pre post : List Tile} {n b d c : Nat} (hn : 0 < n)
    (hsum : total pre + n + total post = blocksInArena)
    (hpre : Lay (tags arr) 0 0 pre (total pre) d)
    (hhead : arr (total pre) = ⟨n, d, true, false⟩)
    (hpost : Lay (tags arr) (total pre + n) b post blocksInArena c)
    (hused : ¬ (total pre ≠ 0 ∧ (arr d).occupied = false)) :
    Tiled (tags (mergeBack arr d (total pre))) blocksInArena (pre ++ ⟨n, false⟩ :: post) := by
  have happly := mergeBack_stay arr hn (by rw [hhead]) hused
  obtain ⟨c', hpost'⟩ := hpost.relink (tags (mergeBack arr d (total pre)))
    (total pre)
    (fun hj tag htag => by
      rw [tags_eq_some_iff, happly, if_pos ⟨rfl, hj⟩, tags_eq_some_iff.1 htag,
        bits7_of_le (by omega)])
    (fun x h1 h2 => by
      unfold tags
      rw [happly, if_neg (by omega), if_neg (by omega)])
  refine ⟨c', lay_append.2 ⟨_, d, hpre.congr ?_, hn, ?_, hpost'⟩⟩
  · intro x _ hx
    unfold tags
    rw [happly, if_neg (by omega), if_neg (by omega)]
  · rw [tags_eq_some_iff, happly, if_neg (by omega), if_pos rfl, hhead]

theorem release_join {arr : Segments} {pre post : List Tile} {l n b d e c : Nat}
    (hl : 0 < l) (hn : 0 < n)
    (hsum : total pre + l + n + total post = blocksInArena)
    (hpre : Lay (tags arr) 0 0 pre (total pre) e)
    (hback : arr (total pre) = ⟨l, e, false, false⟩)
    (hhead : arr (total pre + l) = ⟨n, d, true, false⟩)
    (hpost : Lay (tags arr) (total pre + l + n) b post blocksInArena c) :
    Tiled (tags (mergeBack arr (total pre) (total pre + l))) blocksInArena
      (pre ++ ⟨l + n, false⟩ :: post) := by
  have happly := mergeBack_join arr hn hl rfl (by omega) (by rw [hback]) (by rw [hhead])
    (by rw [hback])
  obtain ⟨c', hpost'⟩ := hpost.relink
    (tags (mergeBack arr (total pre) (total pre + l))) (total pre)
    (fun hj tag htag => by
      rw [tags_eq_some_iff, happly, if_pos ⟨rfl, hj⟩, tags_eq_some_iff.1 htag,
        bits7_of_le (by omega)])
    (fun x h1 h2 => by
      unfold tags
      rw [happly, if_neg (by omega), if_neg (by omega), if_neg (by omega)])
  refine ⟨c', lay_append.2 ⟨_, e, hpre.congr ?_, show 0 < l + n by omega, ?_, ?_⟩⟩
  · intro x _ hx
    unfold tags
    rw [happly, if_neg (by omega), if_neg (by omega), if_neg (by omega)]
  · rw [tags_eq_some_iff, happly, if_neg (by omega), if_neg (by omega), if_pos rfl, hback]
  · rw [← Nat.add_assoc]
    exact hpost'

/-- Releasing a used tile frees it and merges it with its free neighbours. -/
theorem release_tiled {arr : Segments} {pre post : List Tile} {m : Nat}
    (ht : Tiled (tags arr) blocksInArena (pre ++ ⟨m, true⟩ :: post)) :
    Tiled (tags (release arr (total pre))) blocksInArena (freeAt pre m post) := by
  obtain ⟨c, hl⟩ := ht
  obtain ⟨n, post', b, d, hfree, hn, hsum, hpre, hback, hhead, c', hpost⟩ := mergeForward_lay hl
  unfold release
  rw [hback]
  generalize mergeForward arr (total pre) = arr' at hpre hhead hpost ⊢
  -- the first tile has no tile before it; otherwise the merge backward depends on that one
  rcases List.eq_nil_or_concat pre with rfl | ⟨pre, t, rfl⟩
  · rw [show freeAt [] m post = ⟨n, false⟩ :: post' from hfree]
    exact @release_stay _ [] _ _ _ _ _ hn hsum hpre hhead hpost (by simp)
  · rw [List.concat_eq_append] at *
    obtain ⟨k, e, hlow, ⟨hpos, ht, hend⟩⟩ := lay_append.1 hpre
    obtain rfl : k = total pre := by have := hlow.end_eq; omega
    obtain rfl : total pre = d := hend.2
    have harr := tags_eq_some_iff.1 ht
    simp only at harr
    have htot : total (pre ++ [t]) = total pre + t.size := by simp
    rw [htot] at hhead hpost hsum ⊢
    obtain ⟨l, used⟩ := t
    cases used with
    | true =>
        rw [freeAt_concat_used, hfree]
        have hstay := @release_stay arr' (pre ++ [⟨l, true⟩]) post' _ _ (total pre) _ hn
          (by rw [htot]; exact hsum) hpre (by rw [htot]; exact hhead) (by rw [htot]; exact hpost)
          (by simp [harr])
        rw [htot] at hstay
        simpa using hstay
    | false =>
        rw [freeAt_concat_free]
        -- both merges together give the tile before, with all of the released blocks
        have hjoin : freeRight (l + m) post = ⟨l + n, false⟩ :: post' := by
          cases post with
          | nil =>
              simp only [freeRight, List.cons.injEq, Tile.mk.injEq, and_true] at hfree ⊢
              exact ⟨by rw [hfree.1], hfree.2⟩
          | cons t post =>
              obtain ⟨size, used⟩ := t
              cases used <;>
                simp only [freeRight, List.cons.injEq, Tile.mk.injEq, and_true] at hfree ⊢ <;>
                exact ⟨by omega, hfree.2⟩
        rw [hjoin]
        exact release_join hpos hn hsum hlow harr hhead hpost

theorem freeRight_coalesced {m k : Nat} {post : List Tile} (h : Coalesced (⟨k, true⟩ :: post)) :
    Coalesced (freeRight m post) := by
  have hpost := (List.isChain_cons.1 h).2
  cases post with
  | nil => simp [freeRight, Coalesced]
  | cons t post =>
      obtain ⟨size, used⟩ := t
      have ht := List.isChain_cons.1 hpost
      cases used with
      | true => exact List.isChain_cons.2 ⟨by simp, hpost⟩
      | false => exact List.isChain_cons.2 ⟨by simpa using ht.1, ht.2⟩

/-- A released tile leaves no two free neighbours behind. -/
theorem freeAt_coalesced {pre post : List Tile} {m : Nat}
    (h : Coalesced (pre ++ ⟨m, true⟩ :: post)) : Coalesced (freeAt pre m post) := by
  rcases List.eq_nil_or_concat pre with rfl | ⟨pre, t, rfl⟩
  · exact freeRight_coalesced h
  · obtain ⟨l, used⟩ := t
    rw [List.concat_eq_append] at *
    rw [List.append_assoc] at h
    obtain ⟨hpre, htail, hjoin⟩ := coalesced_append_iff.1 h
    have hpost : Coalesced (⟨m, true⟩ :: post) := (List.isChain_cons.1 htail).2
    cases used with
    | true =>
        rw [freeAt_concat_used]
        refine coalesced_append_iff.2 ⟨hpre, List.isChain_cons.2 ⟨by simp, ?_⟩, ?_⟩
        · exact freeRight_coalesced hpost
        · intro x hx y hy
          simp at hy
          exact Or.inr (by simp [← hy])
    | false =>
        rw [freeAt_concat_free]
        refine coalesced_append_iff.2 ⟨hpre, freeRight_coalesced hpost, ?_⟩
        intro x hx y _
        exact Or.inl (by simpa using hjoin x hx ⟨l, false⟩ (by simp))

end LocalSoftware.Alloc
