import LocalSoftware.BandwidthMonitor.LogStream
import LocalSoftware.BandwidthMonitor.MainLoop

/-!
# The kinds of the records

A record of the log is a total of an hour or of a day. Nothing but the hour field tells them apart:
`addHistoryRow` of `monitoringindex.html` takes hour 24 for the total of a day. The main loop passes
the hour of the clock to both calls of `log_entry`. `record_kinds` follows the records of a run through
the file, `sscanf`, the messages and the decoder of the page, and says which of them keep their kind.
-/

set_option autoImplicit false

namespace LocalSoftware.BandwidthMonitor

open Http

/-! ## The rows of the page -/

/-- What the page shows of a record: the total of a day, or the hour. -/
inductive RowKind where
  | daily
  | hour (hour : Nat)
deriving DecidableEq, Repr

/-- `isDaily`. -/
def RowKind.isDaily : RowKind → Bool
  | daily => true
  | hour _ => false

/-- `addHistoryRow`: the kind of the row. -/
def addHistoryRow (r : LogRecord) : RowKind := if r.hour = 24 then .daily else .hour r.hour

/-- What was logged: the total of a day, or of the hour that it covers. -/
def LogCall.kind : LogCall → RowKind
  | hourly covered _ => .hour covered
  | daily _ => .daily

/-- The records for which the page calls `addHistoryRow` when it receives a log file. -/
def pageRows (file : Str) : List LogRecord :=
  ((historyPayloads (fileRecords file)).foldl Page.onmessage {}).rows

/-- The page gets the records of a file that `log_entry` wrote, unchanged and in their order. -/
theorem pageRows_logFile (entries : List LogEntry) :
    pageRows (logFile entries) = entries.map LogEntry.record := by
  have hfits := fileRecords_fits (logFile entries)
  obtain ⟨hflatten, -⟩ := chunks_spec (n := 15) (by decide) (fileRecords (logFile entries))
  have hchunks : ∀ c ∈ chunks 15 (fileRecords (logFile entries)), ∀ r ∈ c, r.Fits := by
    intro c hc r hr
    apply hfits
    rw [← hflatten]
    exact List.mem_flatten_of_mem hc hr
  unfold pageRows historyPayloads
  rw [foldl_onmessage rfl hchunks, hflatten, fileRecords_logFile]
  rfl

/-! ## The calls of a run -/

/-- The date is the same whenever the hour changed. -/
def NoDayEnds : LocalTime → List LocalTime → Prop
  | _, [] => True
  | prev, now :: clock =>
    if now.hours ≠ prev.hours then prev.day = now.day ∧ NoDayEnds now clock
    else NoDayEnds prev clock

/-- A call passes the hour of the clock, which is not the hour that an hourly total covers. -/
inductive LogCall.Labelled : LogCall → Prop where
  | hourly {covered : Fin 24} {now : LocalTime} {tx rx : UInt64} (h : now.hours ≠ covered) :
      Labelled (.hourly covered (now.entry tx rx))
  | daily {now : LocalTime} {tx rx : UInt64} : Labelled (.daily (now.entry tx rx))

/-- The calls of some rounds. -/
structure Calls (prev : LocalTime) (clock : List LocalTime) (calls : List LogCall) : Prop where
  labelled : ∀ c ∈ calls, c.Labelled
  none_iff : calls = [] ↔ ∀ now ∈ clock, now.hours = prev.hours
  hourly_iff : (∀ c ∈ calls, c.kind.isDaily = false) ↔ NoDayEnds prev clock

section Calls

variable {s : MainLoop} {c : LogCall} {prev now : LocalTime} {tx rx : UInt64}

/-- The hour field goes through the file and through `sscanf` as it is. -/
theorem hour_entry (now : LocalTime) (tx rx : UInt64) :
    (now.entry tx rx).record.hour = now.hours := by
  have hlt : now.hours.val < 2 ^ 32 := Nat.lt_trans now.hours.isLt (by decide)
  have hfield : (now.entry tx rx).record.hour = (BitVec.ofNat 32 now.hours.val).toNat := rfl
  rw [hfield, BitVec.toNat_ofNat, Nat.mod_eq_of_lt hlt]

/-- A record of the loop is shown with the hour in which it was logged. -/
theorem addHistoryRow_entry (now : LocalTime) (tx rx : UInt64) :
    addHistoryRow (now.entry tx rx).record = .hour now.hours := by
  have hne : now.hours.val ≠ 24 := Nat.ne_of_lt now.hours.isLt
  unfold addHistoryRow
  rw [hour_entry, if_neg hne]

/-- The page never shows a record of the loop as the total of a day. -/
theorem LogCall.Labelled.not_daily (h : c.Labelled) :
    (addHistoryRow c.entry.record).isDaily = false := by
  cases h with
  | hourly _ => exact congrArg RowKind.isDaily (addHistoryRow_entry _ _ _)
  | daily => exact congrArg RowKind.isDaily (addHistoryRow_entry _ _ _)

/-- It shows none of them as what it is. -/
theorem LogCall.Labelled.ne_kind (h : c.Labelled) : addHistoryRow c.entry.record ≠ c.kind := by
  intro heq
  cases h with
  | hourly hne =>
    have hhour := (addHistoryRow_entry _ _ _).symm.trans heq
    exact hne (Fin.val_inj.1 (RowKind.hour.inj hhour))
  | daily => exact RowKind.noConfusion ((addHistoryRow_entry _ _ _).symm.trans heq)

theorem calls_nil (prev : LocalTime) : Calls prev [] [] where
  labelled := List.forall_mem_nil _
  none_iff := ⟨fun _ => List.forall_mem_nil _, fun _ => rfl⟩
  hourly_iff := ⟨fun _ => trivial, fun _ => List.forall_mem_nil _⟩

/-- A round in which the hour did not change calls nothing. -/
theorem Calls.same_hour {clock : List LocalTime} {calls : List LogCall}
    (h : Calls prev clock calls) (hhour : now.hours = prev.hours) :
    Calls prev (now :: clock) calls where
  labelled := h.labelled
  none_iff := by
    rw [List.forall_mem_cons, h.none_iff]
    exact (and_iff_right hhour).symm
  hourly_iff := by
    rw [NoDayEnds, if_neg (not_not.2 hhour)]
    exact h.hourly_iff

/-- When it changed, the total of the hour comes first, and then that of the day when the date is
another. -/
theorem Calls.next_hour {clock : List LocalTime} {calls days : List LogCall}
    (h : Calls now clock calls) (hhour : now.hours ≠ prev.hours)
    (hdays : (prev.day = now.day ∧ days = []) ∨
      (prev.day ≠ now.day ∧ ∃ tx rx, days = [.daily (now.entry tx rx)])) :
    Calls prev (now :: clock) (.hourly prev.hours (now.entry tx rx) :: (days ++ calls)) where
  labelled := by
    intro c hc
    rcases List.mem_cons.1 hc with rfl | hc
    · exact .hourly hhour
    · rcases List.mem_append.1 hc with hday | hc
      · rcases hdays with ⟨-, rfl⟩ | ⟨-, tx, rx, rfl⟩
        · cases hday
        · obtain rfl := List.mem_singleton.1 hday
          exact .daily
      · exact h.labelled c hc
  none_iff := by
    constructor
    · intro hnil
      cases hnil
    · intro hsame
      exact absurd (hsame now List.mem_cons_self) hhour
  hourly_iff := by
    rw [NoDayEnds, if_pos hhour, List.forall_mem_cons, List.forall_mem_append, h.hourly_iff]
    -- a total of the day is logged just if the date is another one
    rcases hdays with ⟨hday, rfl⟩ | ⟨hday, tx, rx, rfl⟩
    · constructor
      · rintro ⟨-, -, hrest⟩
        exact ⟨hday, hrest⟩
      · rintro ⟨-, hrest⟩
        exact ⟨rfl, List.forall_mem_nil _, hrest⟩
    · constructor
      · rintro ⟨-, hdaily, -⟩
        exact Bool.noConfusion (hdaily _ List.mem_cons_self)
      · rintro ⟨hsame, -⟩
        exact absurd hsame hday

/-- What a round does with the log. -/
theorem calls_round (s : MainLoop) (t : Tick) :
    (t.now.hours = s.prev.hours ∧ (s.round t).prev = s.prev ∧ (s.round t).calls = s.calls) ∨
    (t.now.hours ≠ s.prev.hours ∧ (s.round t).prev = t.now ∧ ∃ tx rx days,
      ((s.prev.day = t.now.day ∧ days = []) ∨
        (s.prev.day ≠ t.now.day ∧ ∃ tx rx, days = [LogCall.daily (t.now.entry tx rx)])) ∧
      (s.round t).calls = s.calls ++ .hourly s.prev.hours (t.now.entry tx rx) :: days) := by
  by_cases hhour : t.now.hours = s.prev.hours
  · have hround : s.round t = s.count t := if_neg (not_not.2 hhour)
    rw [hround]
    exact Or.inl ⟨hhour, rfl, rfl⟩
  · refine Or.inr ⟨hhour, ?_⟩
    have hround : s.round t =
        { (if s.prev.day ≠ t.now.day then ((s.count t).logHour t.now).logDay t.now
            else (s.count t).logHour t.now) with prev := t.now } := if_pos hhour
    rw [hround]
    refine ⟨rfl, (s.count t).hourlyTx, (s.count t).hourlyRx, ?_⟩
    -- the branches of the hour and of the day
    by_cases hday : s.prev.day = t.now.day
    · rw [if_neg (not_not.2 hday)]
      exact ⟨[], Or.inl ⟨hday, rfl⟩, rfl⟩
    · rw [if_pos hday]
      exact ⟨_, Or.inr ⟨hday, _, _, rfl⟩, List.append_assoc _ _ _⟩

/-- The calls of a run. -/
theorem calls_run (s : MainLoop) (ticks : List Tick) :
    ∃ calls, (s.run ticks).calls = s.calls ++ calls ∧
      Calls s.prev (ticks.map fun t => t.now) calls := by
  -- the first round moves `prev`, from which the rest of the rounds go on
  induction ticks generalizing s with
  | nil => exact ⟨[], (List.append_nil _).symm, calls_nil s.prev⟩
  | cons t ticks ih =>
    obtain ⟨calls, hrun, hcalls⟩ := ih (s.round t)
    rcases calls_round s t with ⟨hhour, hprev, hround⟩ | ⟨hhour, hprev, tx, rx, days, hdays, hround⟩
    · rw [hprev] at hcalls
      rw [hround] at hrun
      exact ⟨calls, hrun, hcalls.same_hour hhour⟩
    · rw [hprev] at hcalls
      rw [hround, List.append_assoc] at hrun
      exact ⟨_, hrun, hcalls.next_hour hhour hdays⟩

end Calls

/-! ## The kinds -/

/-- The page shows the records of a run behind those that were in the file. Totals of a day are told
from totals of an hour if and only if no total of a day was logged, and every record is shown as what
it is if and only if none was logged: the hour of the clock never changed. -/
theorem record_kinds (t : Tick) (earlier : List LogEntry) (ticks : List Tick) :
    ∃ rows, pageRows ((MainLoop.start t (logFile earlier)).run ticks).file =
        earlier.map LogEntry.record ++ rows ∧
      (rows.map (fun r => (addHistoryRow r).isDaily) =
          ((MainLoop.start t (logFile earlier)).run ticks).calls.map (fun c => c.kind.isDaily) ↔
        NoDayEnds t.now (ticks.map fun t => t.now)) ∧
      (rows.map addHistoryRow =
          ((MainLoop.start t (logFile earlier)).run ticks).calls.map LogCall.kind ↔
        ∀ t' ∈ ticks, t'.now.hours = t.now.hours) := by
  obtain ⟨calls, hrun, hcalls⟩ := calls_run (.start t (logFile earlier)) ticks
  have hstart : Written (logFile earlier) (MainLoop.start t (logFile earlier)) := rfl
  have hfile := hstart.run ticks
  have hnew : ((MainLoop.start t (logFile earlier)).run ticks).calls = calls := hrun
  unfold Written at hfile
  rw [hnew] at hfile ⊢
  refine ⟨calls.map fun c => c.entry.record, ?_, ?_, ?_⟩
  -- the file has the entries of the calls behind the earlier ones
  · have hlog : ((MainLoop.start t (logFile earlier)).run ticks).file =
        logFile (earlier ++ calls.map LogCall.entry) := hfile.trans List.foldl_append.symm
    rw [hlog, pageRows_logFile, List.map_append, List.map_map]
    rfl
  -- each record is shown as one of an hour, so it agrees with the calls that are hourly
  · rw [List.map_map, List.map_inj_left, ← show _ ↔ NoDayEnds t.now _ from hcalls.hourly_iff]
    refine forall₂_congr fun c hc => ?_
    rw [Function.comp_apply, (hcalls.labelled c hc).not_daily]
    exact eq_comm
  -- no call is shown as what it is, so the two lists agree only without calls
  · have hnone : calls = [] ↔ ∀ t' ∈ ticks, t'.now.hours = t.now.hours :=
      hcalls.none_iff.trans List.forall_mem_map
    rw [List.map_map, List.map_inj_left, ← hnone]
    constructor
    · intro hsame
      cases calls with
      | nil => rfl
      | cons c calls =>
        have hlabelled := hcalls.labelled c List.mem_cons_self
        exact absurd (hsame c List.mem_cons_self) hlabelled.ne_kind
    · rintro rfl c hc
      cases hc

/-- A day has hours. -/
instance neZero_hours : NeZero 24 := ⟨by decide⟩

/-- The last second of a Sunday. -/
def sundayNight : Tick where
  rx := ⟨1000, true⟩
  tx := ⟨100, true⟩
  now := ⟨1748822399000000000, 1, 6, 2025, 23⟩

/-- The first second of the Monday after it. -/
def mondayMorning : Tick where
  rx := ⟨1005, true⟩
  tx := ⟨102, true⟩
  now := ⟨1748822400000000000, 2, 6, 2025, 0⟩

/-- At midnight the total of the hour from 23 on and that of the day are logged, and the page shows
both as hour 0. -/
theorem midnight_kinds :
    ((MainLoop.start sundayNight []).run [mondayMorning]).calls.map LogCall.kind =
        [.hour 23, .daily] ∧
      (pageRows ((MainLoop.start sundayNight []).run [mondayMorning]).file).map addHistoryRow =
        [.hour 0, .hour 0] := by
  have hfile : ((MainLoop.start sundayNight []).run [mondayMorning]).file =
      logFile [mondayMorning.now.entry 2 5, mondayMorning.now.entry 2 5] := rfl
  refine ⟨rfl, ?_⟩
  rw [hfile, pageRows_logFile]
  rfl

end LocalSoftware.BandwidthMonitor
