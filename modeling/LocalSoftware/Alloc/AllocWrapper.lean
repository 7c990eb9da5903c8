import Mathlib.Logic.Function.Basic
import Mathlib.Data.List.Basic

/-!
# The per-thread arena allocator

`AllocatorWrapper` of `alloc_wrapper.h` and `alloc_wrapper.cpp`: arenas of 64 blocks of 16 KiB,
each described by an array of `SegmentInfo`, and single mappings for requests above 64 blocks.
Addresses are natural numbers. `mmap` is the environment's: each call of `bmalloc` receives the
address chosen for a mapping of a given length, and `mapped` records the ranges that the kernel
holds mapped. The two 7-bit fields of `SegmentInfo` are truncated where the code stores to them.
-/

set_option autoImplicit false

namespace LocalSoftware.Alloc

/-- `BLOCK_SIZE_MMAP`. -/
def blockSizeMmap : Nat := 16 * 1024

/-- `BLOCKS_IN_ARENA`. -/
def blocksInArena : Nat := 64

/-- `ARENA_SIZE`. -/
def arenaSize : Nat := blockSizeMmap * blocksInArena

/-- `SegmentInfo`: the entry of one block. Only the first block of a segment (`interior = false`)
carries meaning. -/
structure SegmentInfo where
  length : Nat := 0
  back : Nat := 0
  occupied : Bool := false
  interior : Bool := true
deriving DecidableEq, Repr

/-- A value stored to a 7-bit field. -/
def bits7 (n : Nat) : Nat := n % 128

/-- `array<SegmentInfo, BLOCKS_IN_ARENA>`. -/
abbrev Segments := Nat → SegmentInfo

/-- One mapping or unmapping as the kernel sees it: start and length in bytes. -/
abbrev Range := Nat × Nat

/-- The state of an `AllocatorWrapper`, and the ranges currently mapped. -/
structure AllocatorWrapper where
  arenas : List Nat
  customArenas : List (Nat × Nat)
  segmentInfo : Nat → Option (Nat × Segments)
  mapped : List Range

namespace AllocatorWrapper

/-- `custom_arenas_.contains(p)`. -/
def isCustom (s : AllocatorWrapper) (p : Nat) : Bool := s.customArenas.any fun c => c.1 == p

/-- `segment_info_[arena].second`; the subscript creates an entry of interior blocks. -/
def segments (s : AllocatorWrapper) (arena : Nat) : Segments :=
  ((s.segmentInfo arena).map Prod.snd).getD fun _ => {}

/-- Assignment to `segment_info_[arena].second`. -/
def setSegments (s : AllocatorWrapper) (arena : Nat) (arr : Segments) : AllocatorWrapper :=
  { s with
    segmentInfo := Function.update s.segmentInfo arena
      (some (((s.segmentInfo arena).map Prod.fst).getD 0, arr)) }

/-- `add_arena`. -/
def addArena (s : AllocatorWrapper) (mmap : Nat → Nat) (num : Nat) : Nat × AllocatorWrapper :=
  let arena := mmap (num * blockSizeMmap)
  let s := { s with mapped := (arena, num * blockSizeMmap) :: s.mapped }
  if num ≤ blocksInArena then
    let arr := Function.update (s.segments arena) 0
      { length := bits7 num, back := 0, occupied := false, interior := false }
    (arena, { s with
      arenas := s.arenas.takeWhile (fun p => !decide (arena < p)) ++
        arena :: s.arenas.dropWhile (fun p => !decide (arena < p))
      segmentInfo := Function.update s.segmentInfo arena (some (num, arr)) })
  else
    (arena, { s with
      customArenas := if s.isCustom arena then s.customArenas else (arena, num) :: s.customArenas })

/-- The constructor: one arena. -/
def new (mmap : Nat → Nat) : AllocatorWrapper :=
  (addArena { arenas := [], customArenas := [], segmentInfo := fun _ => none, mapped := [] }
    mmap blocksInArena).2

end AllocatorWrapper

/-- The scan of one arena: the index steps by the length it reads, and the last free segment that
is long enough is kept. The loop leaves the array after at most 64 steps of positive length; `none`
says that it has not left it after `fuel` steps. -/
def scan (arr : Segments) (num : Nat) : Nat → Nat → Option Nat → Option (Option Nat)
  | fuel, i, foundBlock =>
    if blocksInArena ≤ i then some foundBlock
    else
      match fuel with
      | 0 => none
      | fuel + 1 =>
        let segment := arr i
        scan arr num fuel (i + segment.length)
          (if !(segment.interior || segment.occupied) && decide (num ≤ segment.length) then some i
            else foundBlock)

/-- The block found is cut to `num` blocks and occupied; what is left of it becomes a free segment,
and the segment behind is linked back to its new neighbour. -/
def occupy (arr : Segments) (foundBlock num : Nat) : Segments :=
  let length := (arr foundBlock).length
  let arr :=
    -- an exact fit only links the segment behind
    if length = num ∧ foundBlock + length < blocksInArena then
      Function.update arr (foundBlock + length)
        { arr (foundBlock + length) with back := bits7 foundBlock }
    else if num < length then
      let arr := Function.update arr (foundBlock + num)
        { length := bits7 (length - num), back := bits7 foundBlock,
          occupied := false, interior := false }
      if foundBlock + length < blocksInArena then
        Function.update arr (foundBlock + length)
          { arr (foundBlock + length) with back := bits7 (foundBlock + num) }
      else arr
    else arr
  Function.update arr foundBlock { arr foundBlock with length := bits7 num, occupied := true }

/-- The first half of `bfree` in an arena: the segment at `position` takes over a free segment
behind it. -/
def mergeForward (arr : Segments) (position : Nat) : Segments :=
  let forward := position + (arr position).length
  if forward < blocksInArena ∧ (arr forward).occupied = false then
    let arr := Function.update arr position
      { arr position with length := bits7 ((arr position).length + (arr forward).length) }
    Function.update arr forward { arr forward with interior := true }
  else arr

/-- The second half of `bfree` in an arena: a free segment at `back` takes over the segment at
`position`, or that segment becomes free where it is; the segment behind is linked back. -/
def mergeBack (arr : Segments) (back position : Nat) : Segments :=
  -- the occupied bit of the released segment stays, as its entry is inside another one now
  if position ≠ 0 ∧ (arr back).occupied = false then
    let arr := Function.update arr back
      { arr back with length := bits7 ((arr back).length + (arr position).length) }
    let arr := Function.update arr position { arr position with interior := true }
    let nextInLine := back + (arr back).length
    if nextInLine < blocksInArena then
      Function.update arr nextInLine { arr nextInLine with back := bits7 back }
    else arr
  else
    let arr := Function.update arr position { arr position with occupied := false }
    let nextInLine := position + (arr position).length
    if nextInLine < blocksInArena then
      Function.update arr nextInLine { arr nextInLine with back := bits7 position }
    else arr

/-- The segment at `position` is released and merged with its free neighbours on both sides. -/
def release (arr : Segments) (position : Nat) : Segments :=
  mergeBack (mergeForward arr position) (arr position).back position

/-- The first `num` blocks of a new arena are occupied. -/
def occupyFirst (arr : Segments) (num : Nat) : Segments :=
  let arr := Function.update arr 0 { arr 0 with occupied := true, length := bits7 num }
  if num < blocksInArena then
    Function.update arr num
      { length := bits7 (blocksInArena - num), back := 0, occupied := false, interior := false }
  else arr

namespace AllocatorWrapper

/-- The loop of `bmalloc` over the arenas: the first arena with a free segment that is long enough
serves the request. The outer `none` is a scan that does not end. -/
def allocIn (s : AllocatorWrapper) (num : Nat) : List Nat → Option (Option (Nat × AllocatorWrapper))
  | [] => some none
  | arena :: rest =>
    if s.isCustom arena then allocIn s num rest
    else
      match scan (s.segments arena) num blocksInArena 0 none with
      | none => none
      | some none => allocIn s num rest
      | some (some foundBlock) =>
        some (some (arena + foundBlock * blockSizeMmap,
          s.setSegments arena (occupy (s.segments arena) foundBlock num)))

/-- `bmalloc`; `none` when a scan does not end. -/
def bmalloc (s : AllocatorWrapper) (mmap : Nat → Nat) (num : Nat) :
    Option (Nat × AllocatorWrapper) :=
  if blocksInArena < num then some (s.addArena mmap num)
  else
    match s.allocIn num s.arenas with
    | none => none
    | some (some r) => some r
    | some none =>
      -- a new arena has one free segment, at its first block
      let r := s.addArena mmap blocksInArena
      some (r.1, r.2.setSegments r.1 (occupyFirst (r.2.segments r.1) num))

/-- The loop of `bfree` over the arenas, last one first. -/
def freeIn (s : AllocatorWrapper) (p : Nat) : List Nat → AllocatorWrapper
  | [] => s
  | arena :: rest =>
    if arena ≤ p then
      let arr := release (s.segments arena) ((p - arena) / blockSizeMmap)
      let s := s.setSegments arena arr
      -- the last three arenas are never given back
      if (arr 0).occupied = false ∧ (arr 0).length = blocksInArena ∧ 3 < s.arenas.length then
        { s with
          arenas := s.arenas.filter fun a => a != arena
          segmentInfo := Function.update s.segmentInfo arena none
          mapped := s.mapped.erase (arena, blocksInArena * blockSizeMmap) }
      else s
    else freeIn s p rest

/-- `bfree`. -/
def bfree (s : AllocatorWrapper) (p : Nat) : AllocatorWrapper :=
  match s.customArenas.find? fun c => c.1 == p with
  | some c =>
    { s with
      arenas := s.arenas.filter fun a => a != p
      mapped := s.mapped.erase (p, c.2 * blockSizeMmap)
      customArenas := s.customArenas.filter fun c => c.1 != p }
  | none => s.freeIn p s.arenas.reverse

end AllocatorWrapper

end LocalSoftware.Alloc
