import LocalSoftware.Common.Defs
import LocalSoftware.Library.WebsocketFrame
import Mathlib.Tactic.Common

/-!
# The WebSocket writer

`WebsocketSocket` of `websocket_socket.h` and `websocket_socket.cpp`. `write_frame` allocates a
buffer, fills it cell by cell and hands it to the socket class below. A cell that was not written is
`none`, and a store outside the buffer has no result.

`writeFrame_eq` shows that every cell is written, by a header and the payload. `decodeAll_iff` shows
that the frames are those of the protocol exactly when every payload is shorter than `2 ^ 32` bytes:
of a longer length only the low 32 bits are written.
-/

set_option autoImplicit false

namespace LocalSoftware

open Library.WebsocketFrame

namespace Websocket

/-- A buffer of `new char[n]`; a cell is `none` until it is written. -/
abbrev Cells := List (Option UInt8)

/-- `cells[i] = b`. -/
def store (cells : Cells) (i : Nat) (b : UInt8) : Option Cells :=
  if i < cells.length then some (cells.set i (some b)) else none

/-- `memcpy(cells + i, buf, len)`. -/
def memcpy (cells : Cells) (i : Nat) (buf : List UInt8) : Option Cells :=
  if i + buf.length ≤ cells.length then
    some (cells.take i ++ buf.map some ++ cells.drop (i + buf.length))
  else none

/-- `OpHeader::FIN`. -/
def opFin : Nat := 0x8 <<< 4

/-- `OpHeader::Binary`. -/
def opBinary : Nat := 2

/-- The conversion to `char`. -/
def toChar (n : Nat) : UInt8 := UInt8.ofNat n

/-- `numeric_limits<uint16_t>::max()`. -/
def uint16Max : Nat := 65535

/-- The write that is queued at the class below, with its arguments. -/
inductive ChildWrite where
  | tlsSocket (buf : Cells) (len : Nat)
  | readWriteBytes (buf : Cells) (len : Nat)
deriving DecidableEq, Repr

/-- The buffer that a write is given. -/
def ChildWrite.buf : ChildWrite → Cells
  | .tlsSocket buf _ => buf
  | .readWriteBytes buf _ => buf

/-- `WebsocketSocket`; `wBuf` is the buffer that `w_buf_` points to. -/
structure WebsocketSocket where
  tlsEnabled : Bool := false
  wBuf : Option Cells := none
  wLen : Nat := 0
deriving DecidableEq, Repr

namespace WebsocketSocket

/-- `arm_write`. -/
def armWrite (s : WebsocketSocket) : ChildWrite :=
  if s.tlsEnabled then .tlsSocket (s.wBuf.getD []) s.wLen
  else .readWriteBytes (s.wBuf.getD []) s.wLen

/-- The stores of `write_frame` behind the first byte of the header, and the index of the payload. -/
def writeLength (cells : Cells) (len : Nat) : Option (Cells × Nat) :=
  if len ≤ 125 then do
    let cells ← store cells 1 (toChar (0x0 <<< 7 ||| len))
    some (cells, 2)
  else if len ≤ uint16Max then do
    let cells ← store cells 1 (toChar (0x0 <<< 7 ||| 0x7E))
    let cells ← store cells 2 (toChar (len >>> 8 &&& 0xFF))
    let cells ← store cells 3 (toChar (len &&& 0xFF))
    some (cells, 4)
  else do
    let cells ← store cells 1 (toChar (0x0 <<< 7 ||| 0x7F))
    let cells ← store cells 2 (toChar 0)
    let cells ← store cells 3 (toChar 0)
    let cells ← store cells 4 (toChar 0)
    let cells ← store cells 5 (toChar 0)
    let cells ← store cells 6 (toChar (len >>> 24 &&& 0xFF))
    let cells ← store cells 7 (toChar (len >>> 16 &&& 0xFF))
    let cells ← store cells 8 (toChar (len >>> 8 &&& 0xFF))
    let cells ← store cells 9 (toChar (len &&& 0xFF))
    some (cells, 10)

/-- The size that `write_frame` allocates, a `size_t`. -/
def frameLength (len : Nat) : Nat :=
  (2 + (if 125 < len then if uint16Max < len then 8 else 2 else 0) + len) % 2 ^ 64

/-- `write_frame`: the socket, the write that it queues and its response. -/
def writeFrame (s : WebsocketSocket) (buf : List UInt8) :
    Option (WebsocketSocket × ChildWrite × CallResponse) := do
  let wLen := frameLength buf.length
  let cells ← store (List.replicate wLen none) 0 (toChar (opFin ||| opBinary))
  let (cells, idx) ← writeLength cells buf.length
  let cells ← memcpy cells idx buf
  let s := { s with wBuf := some cells, wLen }
  some (s, s.armWrite, ⟨"Websocket Write", true, none, opHintWrite⟩)

/-- `on_yield`: the buffer is given back when the write succeeded. -/
def onYield (s : WebsocketSocket) (child : ChildTaskCompletion) : (Bool × Int) × WebsocketSocket :=
  if child.returnCode ≤ 0 then ((true, child.returnCode), s)
  else ((false, child.returnCode), { s with wBuf := none })

/-- The bytes of the buffer: `w_len_` cells, all of them written. -/
def written (s : WebsocketSocket) : Option (List UInt8) := do
  let cells ← s.wBuf
  if cells.length = s.wLen then cells.mapM id else none

/-- The buffers that `write_frame` builds for some payloads. -/
def buffers (s : WebsocketSocket) (payloads : List (List UInt8)) : Option (List (List UInt8)) :=
  payloads.mapM fun payload => do
    let (s, _) ← s.writeFrame payload
    s.written

end WebsocketSocket

/-! ## What is written -/

/-- A buffer whose first cells are written. -/
def filled (front : List UInt8) (k : Nat) : Cells := front.map some ++ List.replicate k none

/-- The header of a frame behind its first byte. -/
def lengthBytes (len : Nat) : List UInt8 :=
  if len ≤ 125 then [toChar len]
  else if len ≤ uint16Max then
    [toChar 0x7E, toChar (len >>> 8 &&& 0xFF), toChar (len &&& 0xFF)]
  else
    [toChar 0x7F, toChar 0, toChar 0, toChar 0, toChar 0, toChar (len >>> 24 &&& 0xFF),
      toChar (len >>> 16 &&& 0xFF), toChar (len >>> 8 &&& 0xFF), toChar (len &&& 0xFF)]

/-- The header in front of a payload. -/
def header (len : Nat) : List UInt8 := toChar (opFin ||| opBinary) :: lengthBytes len

section Stores

variable {front : List UInt8} {k i : Nat}

theorem store_filled (b : UInt8) (hi : front.length = i) :
    store (filled front (k + 1)) i b = some (filled (front ++ [b]) k) := by
  subst hi
  unfold store filled
  rw [if_pos (by simp), List.set_append_right _ _ (by simp)]
  simp [List.replicate_succ]

theorem memcpy_filled {buf : List UInt8} (hi : front.length = i) (hk : buf.length = k) :
    memcpy (filled front k) i buf = some ((front ++ buf).map some) := by
  subst hi hk
  unfold memcpy filled
  rw [if_pos (by simp), List.take_left' (by simp), List.drop_of_length_le (by simp)]
  simp

theorem mapM_id_map_some (l : List UInt8) : (l.map some).mapM id = some l := by
  induction l with
  | nil => rfl
  | cons b l ih => simp [ih]

/-- The allocated size is that of the header and the payload. -/
theorem frameLength_eq {len : Nat} (hlen : len < 2 ^ 63) :
    WebsocketSocket.frameLength len = 1 + ((lengthBytes len).length + len) := by
  unfold WebsocketSocket.frameLength lengthBytes uint16Max
  by_cases h1 : len ≤ 125
  · simp only [h1, Nat.not_lt.2 h1, if_true, if_false, List.length_cons, List.length_nil]
    omega
  · by_cases h2 : len ≤ 65535
    · simp only [h1, h2, Nat.not_le.1 h1, Nat.not_lt.2 h2, if_true, if_false, List.length_cons,
        List.length_nil]
      omega
    · simp only [h1, h2, Nat.not_le.1 h1, Nat.not_le.1 h2, if_true, if_false, List.length_cons,
        List.length_nil]
      omega

/-- The stores go through the header in order, each one to the first cell that is not written. -/
theorem writeLength_eq (len : Nat) (first : UInt8) :
    WebsocketSocket.writeLength (filled [first] ((lengthBytes len).length + k)) len =
      some (filled (first :: lengthBytes len) k, 1 + (lengthBytes len).length) := by
  unfold WebsocketSocket.writeLength lengthBytes
  by_cases h1 : len ≤ 125
  · simp only [h1, if_true, List.length_cons, List.length_nil, Nat.add_comm _ k]
    simp [store_filled]
  · by_cases h2 : len ≤ uint16Max
    · simp only [h1, h2, if_true, if_false, List.length_cons, List.length_nil, Nat.add_comm _ k]
      simp [store_filled]
    · simp only [h1, h2, if_false, List.length_cons, List.length_nil, Nat.add_comm _ k]
      simp [store_filled]

/-- A socket that holds the frame of a payload. -/
def WebsocketSocket.framed (s : WebsocketSocket) (buf : List UInt8) : WebsocketSocket :=
  { s with
    wBuf := some ((header buf.length ++ buf).map some)
    wLen := (header buf.length ++ buf).length }

/-- `write_frame` writes every cell that it allocates and none outside: the buffer is the header and
the payload. -/
theorem writeFrame_eq (s : WebsocketSocket) {buf : List UInt8} (hlen : buf.length < 2 ^ 63) :
    s.writeFrame buf = some (s.framed buf, (s.framed buf).armWrite,
      ⟨"Websocket Write", true, none, opHintWrite⟩) := by
  have hsize : WebsocketSocket.frameLength buf.length = (header buf.length ++ buf).length := by
    rw [frameLength_eq hlen, header, List.length_append, List.length_cons]
    omega
  have hfirst : store (List.replicate (WebsocketSocket.frameLength buf.length) none) 0
      (toChar (opFin ||| opBinary)) = some (filled [toChar (opFin ||| opBinary)]
        ((lengthBytes buf.length).length + buf.length)) := by
    rw [frameLength_eq hlen, Nat.add_comm 1]
    exact @store_filled [] _ _ _ rfl
  unfold WebsocketSocket.writeFrame
  simp only [hfirst, Option.bind_eq_bind, Option.bind_some, writeLength_eq]
  rw [memcpy_filled (by simp [Nat.add_comm]) rfl, hsize]
  rfl

theorem written_framed (s : WebsocketSocket) (buf : List UInt8) :
    (s.framed buf).written = some (header buf.length ++ buf) := by
  unfold WebsocketSocket.written WebsocketSocket.framed
  show (if _ then _ else none) = _
  rw [if_pos (List.length_map _), mapM_id_map_some]

end Stores

/-! ## What is decoded -/

/-- The frame that carries a payload, in the shortest form. -/
def binaryFrame (payload : List UInt8) : Frame where
  fin := true
  reserved := 0
  opcode := 2
  key := none
  form := shortestForm payload.length
  payload := payload

/-- The length that the header of a payload announces. -/
def announced (len : Nat) : Nat := if len ≤ uint16Max then len else len % 2 ^ 32

section Decoding

variable {payload rest : List UInt8} {payloads : List (List UInt8)}

theorem toChar_toNat (n : Nat) : (toChar n).toNat = n % 256 := UInt8.toNat_ofNat'

theorem low8 (n : Nat) : n &&& 0xFF = n % 256 := Nat.and_two_pow_sub_one_eq_mod n 8

/-- What the length bytes of a header say. -/
theorem decodeLength_lengthBytes (len : Nat) (rest : List UInt8) : ∃ second ext,
    lengthBytes len = second :: ext ∧ second.toNat < 128 ∧
      decodeLength second.toNat (ext ++ rest) = some ((shortestForm len, announced len), rest) := by
  unfold lengthBytes shortestForm announced uint16Max
  by_cases h1 : len ≤ 125
  · refine ⟨toChar len, [], by simp [h1], ?_, ?_⟩
    · rw [toChar_toNat]
      omega
    · have hlow : (toChar len).toNat = len := by
        rw [toChar_toNat]
        omega
      rw [hlow, if_pos (Nat.lt_succ_of_le h1), if_pos (by omega)]
      exact if_pos (Nat.lt_succ_of_le h1)
  · by_cases h2 : len ≤ 65535
    · refine ⟨toChar 0x7E, [toChar (len >>> 8 &&& 0xFF), toChar (len &&& 0xFF)], by simp [h1, h2],
        by decide, ?_⟩
      have hvalue : bigEndian [toChar (len >>> 8 &&& 0xFF), toChar (len &&& 0xFF)] = len := by
        simp only [bigEndian, List.foldl_cons, List.foldl_nil, toChar_toNat, low8,
          Nat.shiftRight_eq_div_pow]
        omega
      rw [show (toChar 0x7E).toNat = 126 from rfl, if_neg (by omega), if_pos (by omega), if_pos h2]
      unfold decodeLength
      rw [if_neg (by decide), if_pos rfl, split_append (n := 2) rfl]
      simp only [Option.map_some, hvalue]
    · refine ⟨toChar 0x7F, [toChar 0, toChar 0, toChar 0, toChar 0,
        toChar (len >>> 24 &&& 0xFF), toChar (len >>> 16 &&& 0xFF), toChar (len >>> 8 &&& 0xFF),
        toChar (len &&& 0xFF)], by simp [h1, h2], by decide, ?_⟩
      have hvalue : bigEndian [toChar 0, toChar 0, toChar 0, toChar 0,
          toChar (len >>> 24 &&& 0xFF), toChar (len >>> 16 &&& 0xFF), toChar (len >>> 8 &&& 0xFF),
          toChar (len &&& 0xFF)] = len % 2 ^ 32 := by
        simp only [bigEndian, List.foldl_cons, List.foldl_nil, toChar_toNat, low8,
          Nat.shiftRight_eq_div_pow]
        omega
      rw [show (toChar 0x7F).toNat = 127 from rfl, if_neg (by omega), if_neg (by omega), if_neg h2]
      unfold decodeLength
      rw [if_neg (by decide), if_neg (by decide), split_append (n := 8) rfl]
      simp only [Option.bind_some, hvalue]
      exact if_pos (Nat.lt_trans (Nat.mod_lt _ (by decide)) (by decide))

/-- The bytes behind a header, up to the announced length, are decoded as the payload. -/
theorem decodeFrame_header (payload rest : List UInt8) :
    decodeFrame (header payload.length ++ payload ++ rest) = some (
      { binaryFrame payload with payload := (payload ++ rest).take (announced payload.length) },
      (payload ++ rest).drop (announced payload.length)) := by
  obtain ⟨second, ext, hbytes, hsecond, hlength⟩ :=
    decodeLength_lengthBytes payload.length (payload ++ rest)
  have hle : announced payload.length ≤ (payload ++ rest).length := by
    have hmod := Nat.mod_le payload.length (2 ^ 32)
    unfold announced
    rw [List.length_append]
    split <;> omega
  rw [header, hbytes, List.append_assoc]
  exact decodeFrame_unmasked hsecond hlength hle

theorem announced_eq_iff {len : Nat} : announced len = len ↔ len < 2 ^ 32 := by
  unfold announced uint16Max
  split <;> omega

/-- The frames of a concatenation of buffers are those of its payloads exactly when all lengths are
announced as they are. The first length that is not gives a payload of another length. -/
theorem decodeAll_frames : decodeAll (payloads.flatMap fun p => header p.length ++ p) =
    some (payloads.map binaryFrame) ↔ ∀ p ∈ payloads, p.length < 2 ^ 32 := by
  induction payloads with
  | nil => simp
  | cons p payloads ih =>
    rw [List.flatMap_cons, decodeAll_of_frame (decodeFrame_header p _), List.forall_mem_cons, ← ih,
      List.map_cons, Option.map_eq_some_iff, ← announced_eq_iff]
    constructor
    · rintro ⟨frames, hframes, heq⟩
      obtain ⟨hframe, rfl⟩ := List.cons.inj heq
      have hpayload : (p ++ payloads.flatMap fun p => header p.length ++ p).take
          (announced p.length) = p := congrArg Frame.payload hframe
      have hmod := Nat.mod_le p.length (2 ^ 32)
      have hlen := congrArg List.length hpayload
      have hle : announced p.length ≤ p.length := by
        unfold announced
        split <;> omega
      rw [List.length_take_of_le (by rw [List.length_append]; omega)] at hlen
      rw [hlen, List.drop_left] at hframes
      exact ⟨hlen, hframes⟩
    · rintro ⟨hlen, hframes⟩
      rw [hlen, List.drop_left, List.take_left]
      exact ⟨_, hframes, rfl⟩

theorem buffers_eq (s : WebsocketSocket) (hlen : ∀ p ∈ payloads, p.length < 2 ^ 63) :
    s.buffers payloads = some (payloads.map fun p => header p.length ++ p) := by
  induction payloads with
  | nil => rfl
  | cons p payloads ih =>
    have hwrite := writeFrame_eq s (hlen p List.mem_cons_self)
    have hrest := ih fun q hq => hlen q (List.mem_cons_of_mem _ hq)
    unfold WebsocketSocket.buffers at hrest ⊢
    rw [List.mapM_cons, hrest, hwrite]
    show (s.framed p).written.bind _ = _
    rw [written_framed]
    rfl

/-- For every list of payloads `write_frame` fills its buffers, and what they concatenate to is
decoded as the binary frames of these payloads exactly when each payload is shorter than `2 ^ 32`
bytes. -/
theorem decodeAll_iff (s : WebsocketSocket) (hlen : ∀ p ∈ payloads, p.length < 2 ^ 63) :
    ∃ bufs, s.buffers payloads = some bufs ∧
      (decodeAll bufs.flatten = some (payloads.map binaryFrame) ↔
        ∀ p ∈ payloads, p.length < 2 ^ 32) := by
  refine ⟨_, buffers_eq s hlen, ?_⟩
  rw [← List.flatMap_def]
  exact decodeAll_frames

/-- An empty payload and one of three bytes. -/
theorem decodeAll_iff_two : ∃ bufs, WebsocketSocket.buffers {} [[], [1, 2, 3]] = some bufs ∧
    decodeAll bufs.flatten = some [binaryFrame [], binaryFrame [1, 2, 3]] := by
  obtain ⟨bufs, hbufs, hiff⟩ := @decodeAll_iff [[], [1, 2, 3]] {} (by simp)
  exact ⟨bufs, hbufs, hiff.2 (by simp)⟩

/-- A payload of `2 ^ 32` bytes is written with the length 0. -/
theorem not_decodeAll_large : ∃ bufs,
    WebsocketSocket.buffers {} [List.replicate (2 ^ 32) 0] = some bufs ∧
      decodeAll bufs.flatten ≠ some [binaryFrame (List.replicate (2 ^ 32) 0)] := by
  have hlength : (List.replicate (2 ^ 32) (0 : UInt8)).length = 2 ^ 32 := List.length_replicate
  generalize List.replicate (2 ^ 32) (0 : UInt8) = large at hlength ⊢
  have hbufs := @buffers_eq [large] {} (by simp [hlength])
  refine ⟨_, hbufs, fun hdecoded => ?_⟩
  rw [← List.flatMap_def] at hdecoded
  have hshort := decodeAll_frames.1 hdecoded large List.mem_cons_self
  rw [hlength] at hshort
  exact Nat.lt_irrefl _ hshort

end Decoding

end Websocket

end LocalSoftware
