import Mathlib.Data.List.Chain
import Mathlib.Data.List.Basic
import Mathlib.Tactic.Common

/-!
# Boundary-tag tilings of an interval

A table of tags describes a tiling of `[0, n)`: the tag at the first position of a tile holds the
tile's size, the first position of the tile before it, and whether the tile is in use. Positions
inside a tile carry no information. `Lay h i b ts j c` says that the table `h` lays the tiles `ts`
from `i` to `j` when the tile before `i` starts at `b`; `c` is then the start of the last tile.

The rules below are the ones a boundary-tag structure needs: a layout splits at a concatenation
(`lay_append`), depends only on the positions it covers (`Lay.congr`), and survives a change of the
back link of its first tile (`Lay.relink`). A tiling without two neighbouring free tiles is
`Coalesced`; `spans` lists the tiles with their places, and different tiles have disjoint places
(`spans_pairwise`).
-/

set_option autoImplicit false

namespace LocalSoftware.Library.Tiling

/-- A tile of a tiling: its size and whether it is in use. -/
structure Tile where
  size : Nat
  used : Bool
deriving DecidableEq, Repr

/-- A boundary tag: size of the tile, start of the tile before it, use. -/
structure Tag where
  size : Nat
  back : Nat
  used : Bool
deriving DecidableEq, Repr

/-- The total size of a list of tiles. -/
def total : List Tile → Nat
  | [] => 0
  | t :: ts => t.size + total ts

@[simp] theorem total_nil : total [] = 0 := rfl

@[simp] theorem total_cons (t : Tile) (ts : List Tile) : total (t :: ts) = t.size + total ts := rfl

@[simp] theorem total_append (xs ys : List Tile) : total (xs ++ ys) = total xs + total ys := by
  induction xs with
  | nil => simp
  | cons t ts ih => simp [ih, Nat.add_assoc]

/-- The table `h` lays the tiles `ts` from `i` to `j`; `b` and `c` are the starts of the tile
before `i` and of the last tile before `j`. -/
def Lay (h : Nat → Option Tag) : Nat → Nat → List Tile → Nat → Nat → Prop
  | i, b, [], j, c => i = j ∧ b = c
  | i, b, t :: ts, j, c => 0 < t.size ∧ h i = some ⟨t.size, b, t.used⟩ ∧ Lay h (i + t.size) i ts j c

/-- The table `h` tiles `[0, n)` by `ts`. -/
def Tiled (h : Nat → Option Tag) (n : Nat) (ts : List Tile) : Prop :=
  ∃ c, Lay h 0 0 ts n c

theorem Lay.end_eq {h : Nat → Option Tag} : ∀ {ts : List Tile} {i b j c : Nat},
    Lay h i b ts j c → j = i + total ts
  | [], _, _, _, _, hl => by simp [hl.1]
  | t :: ts, i, _, _, _, hl => by
      have hrest := Lay.end_eq hl.2.2
      simp only [total_cons]
      omega

theorem lay_append {h : Nat → Option Tag} : ∀ {xs ys : List Tile} {i b j c : Nat},
    Lay h i b (xs ++ ys) j c ↔ ∃ k d, Lay h i b xs k d ∧ Lay h k d ys j c
  | [], ys, i, b, j, c => by simp [Lay]
  | x :: xs, ys, i, b, j, c => by
      constructor
      · rintro ⟨hpos, hx, hrest⟩
        obtain ⟨k, d, hxs, hys⟩ := lay_append.1 hrest
        exact ⟨k, d, ⟨hpos, hx, hxs⟩, hys⟩
      · rintro ⟨k, d, ⟨hpos, hx, hxs⟩, hys⟩
        exact ⟨hpos, hx, lay_append.2 ⟨k, d, hxs, hys⟩⟩

/-- A layout depends only on the positions it covers. -/
theorem Lay.congr {h h' : Nat → Option Tag} : ∀ {ts : List Tile} {i b j c : Nat},
    Lay h i b ts j c → (∀ x, i ≤ x → x < j → h' x = h x) → Lay h' i b ts j c
  | [], _, _, _, _, hl, _ => hl
  | t :: ts, i, b, j, c, hl, hx => by
      obtain ⟨hpos, ht, hrest⟩ := hl
      have hj := Lay.end_eq hrest
      refine ⟨hpos, ?_, ?_⟩
      · rw [hx i (Nat.le_refl i) (by omega), ht]
      · exact hrest.congr fun x h1 h2 => hx x (by omega) h2

/-- Only the first tag of a layout mentions the tile before it: after that back link is set to
`b'`, the same tiles are laid behind `b'`. -/
theorem Lay.relink {h : Nat → Option Tag} {ts : List Tile} {i b j c : Nat}
    (hl : Lay h i b ts j c) (h' : Nat → Option Tag) (b' : Nat)
    (hfirst : i < j → ∀ tag, h i = some tag → h' i = some { tag with back := b' })
    (hrest : ∀ x, i < x → x < j → h' x = h x) : ∃ c', Lay h' i b' ts j c' := by
  cases ts with
  | nil => exact ⟨b', hl.1, rfl⟩
  | cons t ts =>
      obtain ⟨hpos, ht, hts⟩ := hl
      have hj := Lay.end_eq hts
      refine ⟨c, hpos, hfirst (by omega) _ ht, ?_⟩
      exact hts.congr fun x h1 h2 => hrest x (by omega) h2

/-- No two neighbouring tiles are both free. -/
def Coalesced (ts : List Tile) : Prop :=
  ts.IsChain fun x y => x.used = true ∨ y.used = true

theorem Coalesced.left {xs ys : List Tile} (h : Coalesced (xs ++ ys)) : Coalesced xs :=
  List.IsChain.left_of_append h

theorem Coalesced.right {xs ys : List Tile} (h : Coalesced (xs ++ ys)) : Coalesced ys :=
  List.IsChain.right_of_append h

/-- A tiling stays coalesced when one tile is replaced by tiles `ms` that are coalesced themselves,
if each end of `ms` fits its neighbour. -/
theorem coalesced_append_iff {xs ys : List Tile} :
    Coalesced (xs ++ ys) ↔ Coalesced xs ∧ Coalesced ys ∧
      ∀ x ∈ xs.getLast?, ∀ y ∈ ys.head?, x.used = true ∨ y.used = true :=
  List.isChain_append

/-- The tiles with their places: start, size and use, the first one starting at `i`. -/
def spans : Nat → List Tile → List (Nat × Tile)
  | _, [] => []
  | i, t :: ts => (i, t) :: spans (i + t.size) ts

@[simp] theorem spans_append : ∀ (xs ys : List Tile) (i : Nat),
    spans i (xs ++ ys) = spans i xs ++ spans (i + total xs) ys
  | [], ys, i => by simp [spans]
  | x :: xs, ys, i => by
      simp only [List.cons_append, spans, total_cons, spans_append xs ys (i + x.size)]
      rw [Nat.add_assoc]

theorem spans_bounds : ∀ {ts : List Tile} {i k : Nat} {t : Tile},
    (k, t) ∈ spans i ts → i ≤ k ∧ k + t.size ≤ i + total ts
  | [], _, _, _, h => by simp [spans] at h
  | x :: xs, i, k, t, h => by
      simp only [spans, List.mem_cons, Prod.mk.injEq] at h
      rcases h with ⟨rfl, rfl⟩ | h
      · simp only [total_cons]
        omega
      · have hrec := spans_bounds h
        simp only [total_cons]
        omega

/-- Different tiles of one tiling cover disjoint ranges. -/
theorem spans_pairwise : ∀ (ts : List Tile) (i : Nat),
    (spans i ts).Pairwise fun x y => x.1 + x.2.size ≤ y.1
  | [], _ => by simp [spans]
  | t :: ts, i => by
      simp only [spans, List.pairwise_cons]
      refine ⟨?_, spans_pairwise ts _⟩
      rintro ⟨k, x⟩ hx
      exact (spans_bounds hx).1

theorem mem_spans_iff : ∀ {ts : List Tile} {i k : Nat} {t : Tile},
    (k, t) ∈ spans i ts ↔ ∃ pre post, ts = pre ++ t :: post ∧ k = i + total pre
  | [], i, k, t => by simp [spans]
  | x :: xs, i, k, t => by
      simp only [spans, List.mem_cons, Prod.mk.injEq, @mem_spans_iff xs]
      constructor
      · rintro (⟨rfl, rfl⟩ | ⟨pre, post, rfl, rfl⟩)
        · exact ⟨[], xs, rfl, by simp⟩
        · exact ⟨x :: pre, post, rfl, by simp [Nat.add_assoc]⟩
      · rintro ⟨pre, post, hsplit, hk⟩
        cases pre with
        | nil =>
            simp only [List.nil_append, List.cons.injEq] at hsplit
            exact Or.inl ⟨by simpa using hk, hsplit.1.symm⟩
        | cons p pre =>
            simp only [List.cons_append, List.cons.injEq] at hsplit
            obtain ⟨rfl, rfl⟩ := hsplit
            exact Or.inr ⟨pre, post, rfl, by simp at hk; omega⟩

/-- The tiles of a layout are not empty. -/
theorem Lay.pos {h : Nat → Option Tag} {t : Tile} : ∀ {ts : List Tile} {i b j c : Nat},
    Lay h i b ts j c → t ∈ ts → 0 < t.size
  | [], _, _, _, _, _, ht => absurd ht List.not_mem_nil
  | x :: ts, _, _, _, _, hl, ht => by
      rcases List.mem_cons.1 ht with rfl | ht
      · exact hl.1
      · exact hl.2.2.pos ht

/-- A used tile at the start of a tiling is its first tile. -/
theorem eq_of_first_used {i : Nat} {t t' : Tile} {ts' : List Tile} (hpos : 0 < t'.size)
    (hu : t.used = true) (h : (i, ⟨t.size, true⟩) ∈ spans i (t' :: ts')) : t = t' := by
  obtain ⟨size, used⟩ := t
  obtain rfl : used = true := hu
  rcases List.mem_cons.1 h with heq | h
  · exact (Prod.mk.inj heq).2
  · have hlow := (spans_bounds h).1
    omega

/-- A free first tile ends at the end of the tiling or at a used tile, so that it is not shorter
than a free first tile of a tiling with the same used tiles. -/
theorem free_size_le {i : Nat} {t t' : Tile} {ts ts' : List Tile}
    (hnext : ∀ x ∈ ts.head?, t.used = true ∨ x.used = true) (hfree : t.used = false)
    (hfree' : ¬ t'.used = true) (htotal : total (t :: ts) = total (t' :: ts'))
    (hused : ∀ k m, (k, ⟨m, true⟩) ∈ spans i (t :: ts) → (k, ⟨m, true⟩) ∈ spans i (t' :: ts')) :
    t'.size ≤ t.size := by
  cases ts with
  | nil =>
    simp only [total_cons, total_nil] at htotal
    omega
  | cons x ts =>
    have hx : x.used = true := (hnext x rfl).resolve_left (by simp [hfree])
    obtain ⟨size, used⟩ := x
    obtain rfl : used = true := hx
    have hmem := hused (i + t.size) size (List.mem_cons_of_mem _ List.mem_cons_self)
    rcases List.mem_cons.1 hmem with heq | hmem
    · exact absurd (congrArg Tile.used (Prod.mk.inj heq).2).symm hfree'
    · have hlow := (spans_bounds hmem).1
      omega

/-- Tilings that agree on a used tile agree on it behind a common first tile. -/
theorem mem_tail_iff {i k m : Nat} {t : Tile} {ts ts' : List Tile} (hpos : 0 < t.size)
    (h : (k, ⟨m, true⟩) ∈ spans i (t :: ts) ↔ (k, ⟨m, true⟩) ∈ spans i (t :: ts')) :
    (k, ⟨m, true⟩) ∈ spans (i + t.size) ts ↔ (k, ⟨m, true⟩) ∈ spans (i + t.size) ts' := by
  have hother : ∀ {us : List Tile}, (k, (⟨m, true⟩ : Tile)) ∈ spans (i + t.size) us → k ≠ i := by
    intro us hus heq
    have hlow := (spans_bounds hus).1
    omega
  constructor
  · intro hk
    rcases List.mem_cons.1 (h.1 (List.mem_cons_of_mem _ hk)) with heq | hk'
    · exact absurd (Prod.mk.inj heq).1 (hother hk)
    · exact hk'
  · intro hk
    rcases List.mem_cons.1 (h.2 (List.mem_cons_of_mem _ hk)) with heq | hk'
    · exact absurd (Prod.mk.inj heq).1 (hother hk)
    · exact hk'

/-- A coalesced tiling is known by its length and its used tiles. The first tiles agree: they are
used at the same places, and a free one ends where the next used one starts. -/
theorem eq_of_used {ts ts' : List Tile} (i : Nat) (hpos : ∀ t ∈ ts, 0 < t.size)
    (hpos' : ∀ t ∈ ts', 0 < t.size) (hc : Coalesced ts) (hc' : Coalesced ts')
    (htotal : total ts = total ts')
    (hused : ∀ k m, (k, ⟨m, true⟩) ∈ spans i ts ↔ (k, ⟨m, true⟩) ∈ spans i ts') : ts = ts' := by
  induction ts generalizing ts' i with
  | nil =>
    cases ts' with
    | nil => rfl
    | cons t' ts' =>
      have h := hpos' t' List.mem_cons_self
      simp only [total_nil, total_cons] at htotal
      omega
  | cons t ts ih =>
    cases ts' with
    | nil =>
      have h := hpos t List.mem_cons_self
      simp only [total_nil, total_cons] at htotal
      omega
    | cons t' ts' =>
      have hcons := List.isChain_cons.1 hc
      have hcons' := List.isChain_cons.1 hc'
      have htpos := hpos t List.mem_cons_self
      have htpos' := hpos' t' List.mem_cons_self
      -- a used first tile is the same in both; two free ones end where the first used one starts
      have hhead : t = t' := by
        by_cases hu : t.used = true
        · exact eq_of_first_used htpos' hu ((hused i t.size).1 (by
            obtain ⟨size, used⟩ := t
            obtain rfl : used = true := hu
            exact List.mem_cons_self))
        · by_cases hu' : t'.used = true
          · exact (eq_of_first_used htpos hu' ((hused i t'.size).2 (by
              obtain ⟨size, used⟩ := t'
              obtain rfl : used = true := hu'
              exact List.mem_cons_self))).symm
          · have hle := free_size_le (i := i) hcons.1 (by simpa using hu) hu' htotal
              fun k m hk => (hused k m).1 hk
            have hle' := free_size_le (i := i) hcons'.1 (by simpa using hu') hu htotal.symm
              fun k m hk => (hused k m).2 hk
            obtain ⟨size, used⟩ := t
            obtain ⟨size', used'⟩ := t'
            obtain rfl : used = false := by simpa using hu
            obtain rfl : used' = false := by simpa using hu'
            obtain rfl : size = size' := Nat.le_antisymm hle' hle
            rfl
      subst hhead
      refine congrArg (t :: ·) (ih (i + t.size) (fun x hx => hpos x (List.mem_cons_of_mem _ hx))
        (fun x hx => hpos' x (List.mem_cons_of_mem _ hx)) hcons.2 hcons'.2 ?_ fun k m => ?_)
      · simpa using htotal
      · exact mem_tail_iff htpos (hused k m)

/-- A run of positions that meets no used tile of a coalesced tiling lies in one free tile: at the
end of a free tile the next one is used. -/
theorem Lay.exists_free {h : Nat → Option Tag} {ts : List Tile} {i b j c r n : Nat}
    (hl : Lay h i b ts j c) (hc : Coalesced ts) (hn : 0 < n) (hr : i ≤ r) (hj : r + n ≤ j)
    (hfree : ∀ k m, (k, ⟨m, true⟩) ∈ spans i ts → r + n ≤ k ∨ k + m ≤ r) :
    ∃ m, ⟨m, false⟩ ∈ ts ∧ n ≤ m := by
  induction ts generalizing i b with
  | nil =>
    have hend := hl.1
    omega
  | cons t ts ih =>
    obtain ⟨hpos, -, hrest⟩ := hl
    have hcons := List.isChain_cons.1 hc
    -- the run begins behind the first tile, or in it
    by_cases hbehind : i + t.size ≤ r
    · obtain ⟨m, hm, hle⟩ := ih hrest hcons.2 hbehind fun k m hk =>
        hfree k m (List.mem_cons_of_mem _ hk)
      exact ⟨m, List.mem_cons_of_mem _ hm, hle⟩
    · obtain ⟨size, used⟩ := t
      cases used with
      | true =>
        have hapart := hfree i size List.mem_cons_self
        simp only at hbehind
        omega
      | false =>
        refine ⟨size, List.mem_cons_self, ?_⟩
        cases ts with
        | nil =>
          have hend := hrest.1
          simp only at hend hbehind
          omega
        | cons t' ts =>
          -- the next tile is in use, so the run ends before it
          have hused : t'.used = true := (hcons.1 t' rfl).resolve_left (by simp)
          obtain ⟨size', used'⟩ := t'
          obtain rfl : used' = true := hused
          have hpos' := hrest.1
          have hapart := hfree (i + size) size' (List.mem_cons_of_mem _ List.mem_cons_self)
          simp only at hpos' hbehind
          omega

end LocalSoftware.Library.Tiling
