import LocalSoftware.BandwidthMonitor.MonitoringServer
import LocalSoftware.Library.Numerals
import Mathlib.Data.List.TakeWhile

/-!
# The log file

`log_entry` of `localsoftware.cpp` appends one line of text for an hour of traffic, and
`stage_websocket_logs` reads the lines back with `getline` and `sscanf`. `scanRecord` is this
`sscanf`, with the conversions of the C library: a number that is too large becomes the largest one
of its type, `%d` keeps the low 32 bits of a `long`, and `%llu` takes a sign.

`fileRecords_logFile` is the round trip: the records of a file that `log_entry` wrote are the values it
was called with.
-/

set_option autoImplicit false

namespace LocalSoftware.BandwidthMonitor

open Http Library.Numerals

/-! ## Writing -/

/-- The arguments of `log_entry`. -/
structure LogEntry where
  ts : Int64
  d : Int32
  m : Int32
  y : Int32
  h : Int32
  tx : UInt64
  rx : UInt64
deriving DecidableEq, Repr

/-- `setw(2) << setfill('0') << n`. -/
def setw2 (n : Int) : Str := List.replicate (2 - (decimal n).length) '0' ++ decimal n

/-- What `log_entry` writes in front of the end of the line. -/
def LogEntry.line (e : LogEntry) : Str :=
  '[' :: decimal e.ts.toInt ++ ']' :: ' ' :: (setw2 e.d.toInt ++ '/' :: (setw2 e.m.toInt ++
    '/' :: (decimal e.y.toInt ++ ' ' :: (decimal e.h.toInt ++ ' ' :: (decimal e.tx.toNat ++
      ' ' :: decimal e.rx.toNat)))))

/-- `log_entry`: the log file after the call. The file is assumed to open; where it does not, the call
leaves it as it is, and these lemmas are about the other calls. -/
def logEntry (file : Str) (e : LogEntry) : Str := file ++ (e.line ++ ['\n'])

/-- A file that `log_entry` wrote. -/
def logFile (entries : List LogEntry) : Str := entries.foldl logEntry []

/-! ## Reading -/

/-- The lines that `getline` reads, with the part of a line that is read so far. The last line needs
no end. -/
def getlines : Str → Str → List Str
  | line, [] => if line = [] then [] else [line]
  | line, c :: text => if c = '\n' then line :: getlines [] text else getlines (line ++ [c]) text

/-- `%lld`: `strtoll`. -/
def strtoll (negative : Bool) (n : Nat) : Int :=
  if negative then max (-n) (-2 ^ 63) else min n (2 ^ 63 - 1)

/-- `%d`: `strtol`, of which an `int` keeps the low 32 bits. -/
def strtoint (negative : Bool) (n : Nat) : Int := (strtoll negative n).bmod (2 ^ 32)

/-- `%llu`: `strtoull`. -/
def strtoull (negative : Bool) (n : Nat) : Int :=
  if 2 ^ 64 ≤ n then 2 ^ 64 - 1 else if negative then (-n) % 2 ^ 64 else n

/-- `"[%lld] %d/%d/%d %d %llu %llu"`. -/
def recordFormat : List Directive :=
  [.literal '[', .integer strtoll, .literal ']', .space, .integer strtoint, .literal '/',
    .integer strtoint, .literal '/', .integer strtoint, .space, .integer strtoint, .space,
    .integer strtoull, .space, .integer strtoull]

/-- The conversion to an unsigned word. -/
def toUnsigned (width : Nat) (n : Int) : Nat := (n % 2 ^ width).toNat

/-- `sscanf` of a line, and the record of its fields. The line ends at its first NUL. -/
def scanRecord (line : Str) : Option LogRecord :=
  match scan recordFormat (line.takeWhile (· ≠ '\x00')) with
  | some [ts, _, _, _, h, tx, rx] =>
    some ⟨toUnsigned 64 ts, toUnsigned 64 tx, toUnsigned 64 rx, toUnsigned 32 h⟩
  | _ => none

/-- The records of the lines that match, in the order of the file. -/
def fileRecords (content : Str) : List LogRecord := (getlines [] content).filterMap scanRecord

/-! ## The round trip -/

section RoundTrip

variable {z : Int} {text line : Str} {c : Char}

theorem setw2_ne_nil (z : Int) : setw2 z ≠ [] :=
  List.append_ne_nil_of_right_ne_nil _ (decimal_ne_nil z)

theorem mem_setw2 (hc : c ∈ setw2 z) : c.isDigit = true ∨ c = '-' := by
  rcases List.mem_append.1 hc with hzero | hdigit
  · rw [(List.mem_replicate.1 hzero).2]
    exact Or.inl rfl
  · exact mem_decimal hdigit

/-- A field of width two is read like the number without the zeros. -/
theorem scanInteger_setw2 (htext : ∀ c, text.head? = some c → c.isDigit = false) :
    scanInteger (setw2 z ++ text) = some (decide (z < 0), z.natAbs, text) := by
  cases z with
  | ofNat n =>
    have hnonneg : ¬ Int.ofNat n < 0 := Int.not_lt.2 (Int.natCast_nonneg n)
    refine (scanInteger_padded _ n htext).trans ?_
    rw [decide_eq_false hnonneg]
    rfl
  | negSucc n =>
    have hlength : 2 - (decimal (Int.negSucc n)).length = 0 := by
      have hpos := List.length_pos_of_ne_nil (Nat.toDigits_ne_nil (n := n + 1) (b := 10))
      rw [decimal, List.length_cons]
      omega
    unfold setw2
    rw [hlength, List.replicate_zero, List.nil_append]
    exact scanInteger_decimal _ htext

theorem strtoll_toInt (x : Int64) : strtoll (decide (x.toInt < 0)) x.toInt.natAbs = x.toInt := by
  have hlt := x.toInt_lt
  have hle := x.le_toInt
  unfold strtoll
  by_cases hneg : x.toInt < 0
  · rw [decide_eq_true hneg, if_pos rfl]
    omega
  · rw [decide_eq_false hneg, if_neg Bool.false_ne_true]
    omega

theorem strtoint_toInt (x : Int32) : strtoint (decide (x.toInt < 0)) x.toInt.natAbs = x.toInt := by
  have hlt := x.toInt_lt
  have hle := x.le_toInt
  have hlong : strtoll (decide (x.toInt < 0)) x.toInt.natAbs = x.toInt := by
    unfold strtoll
    by_cases hneg : x.toInt < 0
    · rw [decide_eq_true hneg, if_pos rfl]
      omega
    · rw [decide_eq_false hneg, if_neg Bool.false_ne_true]
      omega
  unfold strtoint
  rw [hlong]
  exact Int.bmod_eq_of_le (by omega) (by omega)

theorem strtoull_toNat (x : UInt64) :
    strtoull (decide ((x.toNat : Int) < 0)) (x.toNat : Int).natAbs = x.toNat := by
  have hlt := x.toNat_lt
  unfold strtoull
  rw [decide_eq_false (by omega), Int.natAbs_natCast, if_neg (by omega), if_neg Bool.false_ne_true]

/-- The record of the values of an entry. -/
def LogEntry.record (e : LogEntry) : LogRecord :=
  ⟨e.ts.toUInt64.toNat, e.tx.toNat, e.rx.toNat, e.h.toUInt32.toNat⟩

theorem toUnsigned_toInt64 (x : Int64) : toUnsigned 64 x.toInt = x.toUInt64.toNat := by
  have h : (BitVec.ofInt 64 x.toBitVec.toInt).toNat = x.toBitVec.toNat := by
    rw [BitVec.ofInt_toInt]
  rw [BitVec.toNat_ofInt] at h
  exact h

theorem toUnsigned_toInt32 (x : Int32) : toUnsigned 32 x.toInt = x.toUInt32.toNat := by
  have h : (BitVec.ofInt 32 x.toBitVec.toInt).toNat = x.toBitVec.toNat := by
    rw [BitVec.ofInt_toInt]
  rw [BitVec.toNat_ofInt] at h
  exact h

theorem toUnsigned_toNat (x : UInt64) : toUnsigned 64 x.toNat = x.toNat := by
  have hlt := x.toNat_lt
  unfold toUnsigned
  omega

/-- A character of a line is printable: none of them ends the line or the string. -/
theorem mem_line {e : LogEntry} (hc : c ∈ e.line) : c ≠ '\n' ∧ c ≠ '\x00' := by
  have hnumber : (c.isDigit = true ∨ c = '-') → c ≠ '\n' ∧ c ≠ '\x00' := by
    rintro (hdigit | rfl)
    · constructor <;> rintro rfl <;> exact absurd hdigit (by decide)
    · decide
  simp only [LogEntry.line, List.cons_append, List.mem_cons, List.mem_append] at hc
  rcases hc with rfl | hc | rfl | rfl | hc | rfl | hc | rfl | hc | rfl | hc | rfl | hc | rfl | hc
  · decide
  · exact hnumber (mem_decimal hc)
  · decide
  · decide
  · exact hnumber (mem_setw2 hc)
  · decide
  · exact hnumber (mem_setw2 hc)
  · decide
  · exact hnumber (mem_decimal hc)
  · decide
  · exact hnumber (mem_decimal hc)
  · decide
  · exact hnumber (mem_decimal hc)
  · decide
  · exact hnumber (mem_decimal hc)

/-- The seven fields of a line are the values that were written. -/
theorem scan_line (e : LogEntry) : scan recordFormat e.line =
    some [e.ts.toInt, e.d.toInt, e.m.toInt, e.y.toInt, e.h.toInt, e.tx.toNat, e.rx.toNat] := by
  have hspace : ∀ (z : Int) (text : Str) c, (decimal z ++ text).head? = some c → isSpace c = false :=
    fun z text c hc => isSpace_head (fun _ => mem_decimal) (decimal_ne_nil z) hc
  have hspace2 : ∀ (z : Int) (text : Str) c, (setw2 z ++ text).head? = some c → isSpace c = false :=
    fun z text c hc => isSpace_head (fun _ => mem_setw2) (setw2_ne_nil z) hc
  have hend : ∀ c (text : Str), c.isDigit = false →
      ∀ c', (c :: text).head? = some c' → c'.isDigit = false := by
    rintro c text hc c' ⟨⟩
    exact hc
  have hnil : ∀ c', ([] : Str).head? = some c' → c'.isDigit = false := by
    rintro c' ⟨⟩
  have hrx : decimal (e.rx.toNat : Int) = decimal (e.rx.toNat : Int) ++ [] := (List.append_nil _).symm
  -- field after field: a number ends before the next separator, and begins behind the blanks
  unfold LogEntry.line recordFormat
  rw [hrx, List.cons_append, scan_literal,
    scan_integer (scanInteger_decimal _ (hend _ _ rfl)), scan_literal, scan_space (hspace2 _ _),
    scan_integer (scanInteger_setw2 (hend _ _ rfl)), scan_literal,
    scan_integer (scanInteger_setw2 (hend _ _ rfl)), scan_literal,
    scan_integer (scanInteger_decimal _ (hend _ _ rfl)), scan_space (hspace _ _),
    scan_integer (scanInteger_decimal _ (hend _ _ rfl)), scan_space (hspace _ _),
    scan_integer (scanInteger_decimal _ (hend _ _ rfl)), scan_space (hspace _ _),
    scan_integer (scanInteger_decimal _ hnil)]
  simp only [scan, Option.map_some, strtoll_toInt, strtoint_toInt, strtoull_toNat]

theorem scanRecord_line (e : LogEntry) : scanRecord e.line = some e.record := by
  have htext : e.line.takeWhile (fun c => decide (c ≠ '\x00')) = e.line :=
    List.takeWhile_eq_self_iff.2 fun c hc => decide_eq_true (mem_line hc).2
  unfold scanRecord
  rw [htext, scan_line]
  simp only [toUnsigned_toInt64, toUnsigned_toNat, toUnsigned_toInt32, LogEntry.record]

/-- The part of a line that is read goes in front. -/
theorem getlines_line (hline : '\n' ∉ line) (front : Str) :
    getlines front (line ++ '\n' :: text) = (front ++ line) :: getlines [] text := by
  induction line generalizing front with
  | nil => rw [List.nil_append, getlines, if_pos rfl, List.append_nil]
  | cons c line ih =>
    rw [List.mem_cons, not_or] at hline
    rw [List.cons_append, getlines, if_neg (Ne.symm hline.1), ih hline.2, List.append_assoc,
      List.singleton_append]

/-- The log file after some more calls. -/
theorem foldl_logEntry (entries : List LogEntry) (file : Str) :
    entries.foldl logEntry file = file ++ entries.flatMap fun e => e.line ++ ['\n'] := by
  induction entries generalizing file with
  | nil => exact (List.append_nil file).symm
  | cons e entries ih =>
    rw [List.foldl_cons, ih, List.flatMap_cons, logEntry, List.append_assoc]

/-- The records of a file that `log_entry` wrote are the values that were logged. -/
theorem fileRecords_logFile (entries : List LogEntry) :
    fileRecords (logFile entries) = entries.map LogEntry.record := by
  unfold fileRecords logFile
  rw [foldl_logEntry, List.nil_append]
  induction entries with
  | nil => rfl
  | cons e entries ih =>
    have hline : '\n' ∉ e.line := fun hc => (mem_line hc).1 rfl
    rw [List.flatMap_cons, List.append_assoc, List.singleton_append, getlines_line hline,
      List.nil_append, List.filterMap_cons, scanRecord_line, List.map_cons]
    exact congrArg _ ih

end RoundTrip

end LocalSoftware.BandwidthMonitor
