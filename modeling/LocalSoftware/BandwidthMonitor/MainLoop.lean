import LocalSoftware.BandwidthMonitor.LogFile

/-!
# The measuring loop

Once a second `main` of `localsoftware.cpp` reads the two byte counters of the interface, adds what
they grew by to the totals of the hour and of the day, and calls `log_entry` when the hour of the
clock changed. The state is the local variables of `main` with the log file; `calls` keeps the calls
of `log_entry`. The speeds for the live page, which are `double`s, are left out.

`accounting` relates the calls to what the rounds counted, for any counters and any clock.
`no_over_count` compares what was counted with the growth of the counters, when some of the reads
fail.
-/

set_option autoImplicit false

namespace LocalSoftware.BandwidthMonitor

open Http

/-! ## The loop -/

/-- What `read_bytes` meets: the counter of the interface, and whether the file can be read now. -/
structure Reading where
  counter : UInt64
  readable : Bool
deriving DecidableEq, Repr

/-- `read_bytes`. -/
def readBytes (r : Reading) : UInt64 := if r.readable then r.counter else 0

/-- A local time: the count of the clock, the date, and the hour of the day. -/
structure LocalTime where
  count : Int64
  day : UInt32
  month : UInt32
  year : Int32
  hours : Fin 24
deriving DecidableEq, Repr

/-- What a round reads. -/
structure Tick where
  rx : Reading
  tx : Reading
  now : LocalTime
deriving DecidableEq, Repr

/-- A call of `log_entry`, with the hour of the clock from which an hourly total was counted. -/
inductive LogCall where
  | hourly (covered : Fin 24) (e : LogEntry)
  | daily (e : LogEntry)
deriving DecidableEq, Repr

/-- The arguments of the call. -/
def LogCall.entry : LogCall → LogEntry
  | hourly _ e => e
  | daily e => e

/-- The local variables of `main`, and the log file. -/
structure MainLoop where
  rxPrev : UInt64
  txPrev : UInt64
  prev : LocalTime
  hourlyRx : UInt64 := 0
  hourlyTx : UInt64 := 0
  dailyRx : UInt64 := 0
  dailyTx : UInt64 := 0
  file : Str := []
  calls : List LogCall := []
deriving DecidableEq, Repr

/-- The arguments of `log_entry` for totals that are logged at this time. -/
def LocalTime.entry (now : LocalTime) (tx rx : UInt64) : LogEntry where
  ts := now.count
  d := now.day.toInt32
  m := now.month.toInt32
  y := now.year
  h := Int32.ofNat now.hours.val
  tx := tx
  rx := rx

/-- What was counted: the bytes of both directions. -/
structure Traffic where
  tx : UInt64
  rx : UInt64
deriving DecidableEq, Repr

/-- `rx_diff` and `tx_diff`: a counter that is smaller than before counts nothing. -/
def diff (curr prev : UInt64) : UInt64 := if curr ≥ prev then curr - prev else 0

namespace MainLoop

/-- The state in front of the loop. -/
def start (t : Tick) (file : Str) : MainLoop where
  rxPrev := readBytes t.rx
  txPrev := readBytes t.tx
  prev := t.now
  file := file

/-- What a round counts. -/
def traffic (s : MainLoop) (t : Tick) : Traffic where
  tx := diff (readBytes t.tx) s.txPrev
  rx := diff (readBytes t.rx) s.rxPrev

/-- The first part of a round: the totals of the hour and of the day. -/
def count (s : MainLoop) (t : Tick) : MainLoop :=
  let rxCurr := readBytes t.rx
  let txCurr := readBytes t.tx
  let rxDiff := diff rxCurr s.rxPrev
  let txDiff := diff txCurr s.txPrev
  { s with
    hourlyRx := s.hourlyRx + rxDiff
    hourlyTx := s.hourlyTx + txDiff
    dailyRx := s.dailyRx + rxDiff
    dailyTx := s.dailyTx + txDiff
    rxPrev := rxCurr
    txPrev := txCurr }

/-- A call of `log_entry`. -/
def log (s : MainLoop) (call : LogCall) : MainLoop :=
  { s with file := logEntry s.file call.entry, calls := s.calls ++ [call] }

/-- The total of the hour is logged, and starts again. -/
def logHour (s : MainLoop) (now : LocalTime) : MainLoop :=
  { s.log (.hourly s.prev.hours (now.entry s.hourlyTx s.hourlyRx)) with
    hourlyRx := 0, hourlyTx := 0 }

/-- The total of the day is logged, and starts again. -/
def logDay (s : MainLoop) (now : LocalTime) : MainLoop :=
  { s.log (.daily (now.entry s.dailyTx s.dailyRx)) with dailyRx := 0, dailyTx := 0 }

/-- The second part of a round. The date is compared when the hour changed, and `prev` is the time of
the last change. -/
def logTotals (s : MainLoop) (now : LocalTime) : MainLoop :=
  if now.hours ≠ s.prev.hours then
    let s := s.logHour now
    let s := if s.prev.day ≠ now.day then s.logDay now else s
    { s with prev := now }
  else s

/-- A round of the loop. -/
def round (s : MainLoop) (t : Tick) : MainLoop := (s.count t).logTotals t.now

/-- The loop, for as many rounds as there are ticks. -/
def run (s : MainLoop) (ticks : List Tick) : MainLoop := ticks.foldl round s

/-- What the rounds count. -/
def traffics : MainLoop → List Tick → List Traffic
  | _, [] => []
  | s, t :: ticks => s.traffic t :: traffics (s.round t) ticks

end MainLoop

/-! ## Totals -/

/-- The sum of both directions, modulo `2 ^ 64`. -/
def total : List Traffic → Traffic
  | [] => ⟨0, 0⟩
  | t :: ts => ⟨t.tx + (total ts).tx, t.rx + (total ts).rx⟩

/-- The totals that a call logs. -/
def LogCall.traffic (c : LogCall) : Traffic := ⟨c.entry.tx, c.entry.rx⟩

/-- The totals of the hours, in the order in which they were logged. -/
def hourlyTotals : List LogCall → List Traffic
  | [] => []
  | .hourly covered e :: calls => (LogCall.hourly covered e).traffic :: hourlyTotals calls
  | .daily _ :: calls => hourlyTotals calls

/-- The totals of the hours after a call. -/
def afterCall (hours : List Traffic) : LogCall → List Traffic
  | .hourly covered e => hours ++ [(LogCall.hourly covered e).traffic]
  | .daily _ => []

/-- The totals of the hours that were logged since the last total of a day. -/
def sinceDaily (calls : List LogCall) : List Traffic := calls.foldl afterCall []

section Totals

variable {ts us : List Traffic} {t : Traffic} {calls : List LogCall} {c : LogCall}

theorem total_append (ts us : List Traffic) :
    total (ts ++ us) = ⟨(total ts).tx + (total us).tx, (total ts).rx + (total us).rx⟩ := by
  induction ts with
  | nil =>
    rw [List.nil_append, total, UInt64.zero_add, UInt64.zero_add]
  | cons t ts ih =>
    rw [List.cons_append, total, ih, total, UInt64.add_assoc, UInt64.add_assoc]

theorem total_singleton (t : Traffic) : total [t] = t := by
  rw [total, total, UInt64.add_zero, UInt64.add_zero]

theorem hourlyTotals_append (calls calls' : List LogCall) :
    hourlyTotals (calls ++ calls') = hourlyTotals calls ++ hourlyTotals calls' := by
  induction calls with
  | nil => rfl
  | cons c calls ih =>
    cases c with
    | hourly covered e => exact congrArg _ ih
    | daily e => exact ih

theorem sinceDaily_append (calls : List LogCall) (c : LogCall) :
    sinceDaily (calls ++ [c]) = afterCall (sinceDaily calls) c := List.foldl_append

end Totals

/-! ## The accounts -/

/-- Every total of a day is the sum of the totals of the hours since the one before. -/
def DaysAddUp (calls : List LogCall) : Prop :=
  ∀ before e after, calls = before ++ LogCall.daily e :: after →
    (LogCall.daily e).traffic = total (sinceDaily before)

/-- What the calls account for: the traffic of each hour that was logged, and of the present one. -/
structure Accounts (s : MainLoop) (hours : List (List Traffic)) (pending : List Traffic) : Prop where
  logged : hourlyTotals s.calls = hours.map total
  hourly : total pending = ⟨s.hourlyTx, s.hourlyRx⟩
  daily : total (sinceDaily s.calls ++ [⟨s.hourlyTx, s.hourlyRx⟩]) = ⟨s.dailyTx, s.dailyRx⟩
  days : DaysAddUp s.calls

section Accounts

variable {s : MainLoop} {hours : List (List Traffic)} {pending : List Traffic} {calls : List LogCall}
  {c : LogCall}

/-- The last call is the only new one. -/
theorem DaysAddUp.snoc (h : DaysAddUp calls)
    (hc : ∀ e, c = .daily e → c.traffic = total (sinceDaily calls)) : DaysAddUp (calls ++ [c]) := by
  intro before e after hsplit
  rcases List.eq_nil_or_concat after with rfl | ⟨after', c', rfl⟩
  · obtain ⟨rfl, hlast⟩ := List.append_inj' hsplit rfl
    obtain rfl := List.singleton_inj.1 hlast
    exact hc e rfl
  · rw [List.concat_eq_append, ← List.cons_append, ← List.append_assoc] at hsplit
    exact h before e after' (List.append_inj_left' hsplit rfl)

/-- Counting adds the traffic of the round to the present hour. -/
theorem Accounts.count (h : Accounts s hours pending) (t : Tick) :
    Accounts (s.count t) hours (pending ++ [s.traffic t]) where
  logged := h.logged
  hourly := by
    rw [total_append, total_singleton, h.hourly]
    rfl
  daily := by
    have hdaily := h.daily
    rw [total_append, total_singleton] at hdaily
    obtain ⟨htx, hrx⟩ := Traffic.mk.inj hdaily
    rw [total_append, total_singleton]
    unfold MainLoop.count
    simp only [← htx, ← hrx, UInt64.add_assoc]
  days := h.days

/-- The hour that is logged is closed. -/
theorem Accounts.logHour (h : Accounts s hours pending) (now : LocalTime) :
    Accounts (s.logHour now) (hours ++ [pending]) [] where
  logged := by
    have hcalls : (s.logHour now).calls =
        s.calls ++ [.hourly s.prev.hours (now.entry s.hourlyTx s.hourlyRx)] := rfl
    rw [hcalls, hourlyTotals_append, h.logged, List.map_append, List.map_singleton, h.hourly]
    rfl
  hourly := rfl
  daily := by
    have hcalls : sinceDaily (s.logHour now).calls =
        sinceDaily s.calls ++ [⟨s.hourlyTx, s.hourlyRx⟩] := sinceDaily_append _ _
    have hdaily : total (sinceDaily (s.logHour now).calls) = ⟨s.dailyTx, s.dailyRx⟩ := by
      rw [hcalls, h.daily]
    rw [total_append, total_singleton, hdaily]
    unfold MainLoop.logHour MainLoop.log
    simp only [UInt64.add_zero]
  days := by
    refine h.days.snoc ?_
    intro e he
    cases he

/-- The day is logged when its last hour is closed. -/
theorem Accounts.logDay (h : Accounts s hours []) (now : LocalTime) :
    Accounts (s.logDay now) hours [] where
  logged := by
    have hcalls : (s.logDay now).calls = s.calls ++ [.daily (now.entry s.dailyTx s.dailyRx)] := rfl
    rw [hcalls, hourlyTotals_append, h.logged]
    exact List.append_nil _
  hourly := h.hourly
  daily := by
    have hcalls : sinceDaily (s.logDay now).calls = [] := sinceDaily_append _ _
    rw [hcalls, List.nil_append, total_singleton]
    exact h.hourly.symm
  days := by
    refine h.days.snoc ?_
    rintro e -
    have hdaily := h.daily
    rw [← h.hourly, total_append, total_singleton] at hdaily
    simp only [total, UInt64.add_zero] at hdaily
    exact hdaily.symm

/-- A round adds its traffic to the present hour, or to the hour that it closes. -/
theorem Accounts.round (h : Accounts s hours pending) (t : Tick) :
    ∃ hours' pending', Accounts (s.round t) hours' pending' ∧
      hours'.flatten ++ pending' = hours.flatten ++ pending ++ [s.traffic t] := by
  have hcount := h.count t
  by_cases hhour : t.now.hours ≠ (s.count t).prev.hours
  · have hclosed := hcount.logHour t.now
    refine ⟨hours ++ [pending ++ [s.traffic t]], [], ?_, ?_⟩
    · unfold MainLoop.round MainLoop.logTotals
      rw [if_pos hhour]
      by_cases hday : ((s.count t).logHour t.now).prev.day ≠ t.now.day
      · have hlogged := hclosed.logDay t.now
        simp only [if_pos hday]
        exact ⟨hlogged.logged, hlogged.hourly, hlogged.daily, hlogged.days⟩
      · simp only [if_neg hday]
        exact ⟨hclosed.logged, hclosed.hourly, hclosed.daily, hclosed.days⟩
    · rw [List.flatten_append, List.flatten_singleton, List.append_nil, List.append_assoc]
  · refine ⟨hours, pending ++ [s.traffic t], ?_, (List.append_assoc _ _ _).symm⟩
    unfold MainLoop.round MainLoop.logTotals
    rw [if_neg hhour]
    exact hcount

/-- Every run keeps its accounts. -/
theorem Accounts.run (h : Accounts s hours pending) (ticks : List Tick) :
    ∃ hours' pending', Accounts (s.run ticks) hours' pending' ∧
      hours'.flatten ++ pending' = hours.flatten ++ pending ++ s.traffics ticks := by
  induction ticks generalizing s hours pending with
  | nil => exact ⟨hours, pending, h, (List.append_nil _).symm⟩
  | cons t ticks ih =>
    obtain ⟨hours₁, pending₁, h₁, hflatten₁⟩ := h.round t
    obtain ⟨hours₂, pending₂, h₂, hflatten₂⟩ := ih h₁
    refine ⟨hours₂, pending₂, h₂, ?_⟩
    rw [hflatten₂, hflatten₁, List.append_assoc, List.append_assoc, List.append_assoc]
    rfl

theorem accounts_start (t : Tick) (file : Str) : Accounts (.start t file) [] [] where
  logged := rfl
  hourly := rfl
  daily := rfl
  days := by
    intro before e after hsplit
    exact absurd hsplit (List.append_ne_nil_of_right_ne_nil _ (List.cons_ne_nil _ _)).symm

end Accounts

/-! ## The file -/

section File

variable {s : MainLoop} {file : Str}

/-- The file after the calls of a run. -/
def Written (file : Str) (s : MainLoop) : Prop :=
  s.file = (s.calls.map LogCall.entry).foldl logEntry file

theorem Written.log (h : Written file s) (c : LogCall) : Written file (s.log c) := by
  have happend : (s.log c).calls = s.calls ++ [c] := rfl
  unfold Written
  rw [happend, List.map_append, List.foldl_append, ← h]
  rfl

theorem Written.round (h : Written file s) (t : Tick) : Written file (s.round t) := by
  have hcount : Written file (s.count t) := h
  have hhour : Written file ((s.count t).logHour t.now) := hcount.log _
  unfold MainLoop.round MainLoop.logTotals
  split
  · dsimp only
    split
    · exact hhour.log _
    · exact hhour
  · exact hcount

theorem Written.run (h : Written file s) (ticks : List Tick) : Written file (s.run ticks) := by
  induction ticks generalizing s with
  | nil => exact h
  | cons t ticks ih => exact ih (h.round t)

end File

/-- Every round is counted in exactly one total of an hour, or in the total that is not logged yet, and
every total of a day is the sum of the totals of its hours, each direction on its own. -/
theorem accounting (t : Tick) (file : Str) (ticks : List Tick) :
    ∃ (hours : List (List Traffic)) (pending : List Traffic),
      hours.flatten ++ pending = (MainLoop.start t file).traffics ticks ∧
      hourlyTotals ((MainLoop.start t file).run ticks).calls = hours.map total ∧
      total pending = ⟨((MainLoop.start t file).run ticks).hourlyTx,
        ((MainLoop.start t file).run ticks).hourlyRx⟩ ∧
      DaysAddUp ((MainLoop.start t file).run ticks).calls ∧
      Written file ((MainLoop.start t file).run ticks) := by
  obtain ⟨hours, pending, h, hflatten⟩ := (accounts_start t file).run ticks
  have hstart : Written file (MainLoop.start t file) := rfl
  exact ⟨hours, pending, hflatten, h.logged, h.hourly, h.days, hstart.run ticks⟩

/-! ## Reads that fail -/

/-- The two counters. -/
inductive Direction where
  | transmit
  | receive
deriving DecidableEq, Repr

/-- The reading of a direction. -/
def Tick.reading (t : Tick) : Direction → Reading
  | .transmit => t.tx
  | .receive => t.rx

/-- The traffic of a direction. -/
def Traffic.bytes (t : Traffic) : Direction → UInt64
  | .transmit => t.tx
  | .receive => t.rx

/-- The bytes that the rounds count, as a number without bound. -/
def countedBytes (d : Direction) (traffics : List Traffic) : Nat :=
  (traffics.map fun t => (t.bytes d).toNat).sum

/-- The true counter never gets smaller. -/
def Growing (d : Direction) (ticks : List Tick) : Prop :=
  (ticks.map fun t => (t.reading d).counter).Pairwise (· ≤ ·)

instance (d : Direction) (ticks : List Tick) : Decidable (Growing d ticks) :=
  inferInstanceAs (Decidable (List.Pairwise _ _))

/-- After every round the bytes that were counted are at most what the counter grew by. -/
def NoOverCount (d : Direction) (t : Tick) (ticks : List Tick) : Prop :=
  ∀ before t' after, ticks = before ++ t' :: after →
    countedBytes d ((MainLoop.start t []).traffics (before ++ [t'])) +
      (t.reading d).counter.toNat ≤ (t'.reading d).counter.toNat

/-- When a read succeeds after one that failed, the counter was zero at first, and no read before
returned anything else. -/
def NoRecovery (d : Direction) (t : Tick) (ticks : List Tick) : Prop :=
  ∀ before t₁ t₂ after, t :: ticks = before ++ t₁ :: t₂ :: after →
    (t₁.reading d).readable = false → (t₂.reading d).readable = true →
      (t.reading d).counter = 0 ∧ ∀ t' ∈ before, readBytes (t'.reading d) = 0

section Reads

variable {d : Direction} {s : MainLoop} {t t' : Tick} {ticks : List Tick} {r r' : Reading}

/-- The last reading of a direction. -/
def MainLoop.last (s : MainLoop) : Direction → UInt64
  | .transmit => s.txPrev
  | .receive => s.rxPrev

@[simp] theorem last_start (d : Direction) (t : Tick) (file : Str) :
    (MainLoop.start t file).last d = readBytes (t.reading d) := by
  cases d with
  | transmit => rfl
  | receive => rfl

@[simp] theorem bytes_traffic (d : Direction) (s : MainLoop) (t : Tick) :
    (s.traffic t).bytes d = diff (readBytes (t.reading d)) (s.last d) := by
  cases d with
  | transmit => rfl
  | receive => rfl

@[simp] theorem last_round (d : Direction) (s : MainLoop) (t : Tick) :
    (s.round t).last d = readBytes (t.reading d) := by
  have hcount : (s.count t).last d = readBytes (t.reading d) := by
    cases d with
    | transmit => rfl
    | receive => rfl
  -- the log does not touch the last readings
  have hlog : ((s.count t).logTotals t.now).last d = (s.count t).last d := by
    unfold MainLoop.logTotals
    split
    · dsimp only
      split
      · cases d with
        | transmit => rfl
        | receive => rfl
      · cases d with
        | transmit => rfl
        | receive => rfl
    · rfl
  exact hlog.trans hcount

theorem traffics_append (s : MainLoop) (ticks ticks' : List Tick) :
    s.traffics (ticks ++ ticks') = s.traffics ticks ++ (s.run ticks).traffics ticks' := by
  induction ticks generalizing s with
  | nil => rfl
  | cons t ticks ih => exact congrArg _ (ih _)

/-- The round of one more tick. -/
theorem countedBytes_snoc (d : Direction) (s : MainLoop) (ticks : List Tick) (t : Tick) :
    countedBytes d (s.traffics (ticks ++ [t])) = countedBytes d (s.traffics ticks) +
      (diff (readBytes (t.reading d)) ((s.run ticks).last d)).toNat := by
  have hone : (s.run ticks).traffics [t] = [(s.run ticks).traffic t] := rfl
  unfold countedBytes
  rw [traffics_append, hone, List.map_append, List.sum_append, List.map_singleton,
    List.sum_singleton, bytes_traffic]

/-- The last reading of a run is that of its last tick. -/
theorem last_run {mid before : List Tick} (h : t :: mid = before ++ [t']) :
    ((MainLoop.start t []).run mid).last d = readBytes (t'.reading d) := by
  rcases List.eq_nil_or_concat mid with rfl | ⟨mid', u, rfl⟩
  · have hone : [] ++ [t] = before ++ [t'] := h
    obtain ⟨-, hlast⟩ := List.append_inj' hone rfl
    obtain rfl := List.singleton_inj.1 hlast
    exact last_start d t []
  · rw [List.concat_eq_append, ← List.cons_append] at h
    obtain ⟨-, hlast⟩ := List.append_inj' h rfl
    obtain rfl := List.singleton_inj.1 hlast
    rw [List.concat_eq_append, MainLoop.run, List.foldl_append]
    exact last_round d _ u

/-- From zero on, nothing is counted as long as every read returns zero. -/
theorem countedBytes_eq_zero (hlast : s.last d = 0) :
    countedBytes d (s.traffics ticks) = 0 ↔ ∀ t ∈ ticks, readBytes (t.reading d) = 0 := by
  induction ticks generalizing s with
  | nil => exact ⟨fun _ t ht => absurd ht List.not_mem_nil, fun _ => rfl⟩
  | cons t ticks ih =>
    -- the difference to zero is the reading itself
    have hdiff : diff (readBytes (t.reading d)) (s.last d) = readBytes (t.reading d) := by
      rw [hlast, diff, if_pos UInt64.zero_le, UInt64.sub_zero]
    have hcons : countedBytes d (s.traffics (t :: ticks)) =
        (readBytes (t.reading d)).toNat + countedBytes d ((s.round t).traffics ticks) := by
      rw [← hdiff, ← bytes_traffic]
      rfl
    rw [hcons, Nat.add_eq_zero_iff, List.forall_mem_cons, ← UInt64.toNat_inj]
    refine and_congr_right fun hzero => ih ?_
    rw [last_round]
    exact UInt64.toNat_inj.1 hzero

/-- One round keeps what was counted within the growth of the counter, unless the read recovers when
something was counted, or had been before the loop. -/
theorem diff_le_iff {counted first : Nat} (h : counted + first ≤ r.counter.toNat)
    (hle : r.counter ≤ r'.counter) :
    counted + (diff (readBytes r') (readBytes r)).toNat + first ≤ r'.counter.toNat ↔
      (r.readable = false → r'.readable = true → counted = 0 ∧ first = 0) := by
  obtain ⟨counter, readable⟩ := r
  obtain ⟨counter', readable'⟩ := r'
  have hle' : counter.toNat ≤ counter'.toNat := UInt64.le_iff_toNat_le.1 hle
  -- a failed read returns 0, which is taken for a counter that began again
  have hzero : diff 0 (readBytes ⟨counter, readable⟩) = 0 := by
    unfold diff
    split
    · next hge =>
      rw [UInt64.le_antisymm hge UInt64.zero_le, UInt64.sub_zero]
    · rfl
  -- by what the two reads returned: only a read after a failed one counts too much
  cases readable' with
  | false =>
    have hcount : counted + (diff (readBytes ⟨counter', false⟩)
        (readBytes ⟨counter, readable⟩)).toNat + first ≤ counter'.toNat := by
      rw [show readBytes ⟨counter', false⟩ = 0 from rfl, hzero, UInt64.toNat_zero]
      exact Nat.le_trans h hle'
    exact ⟨fun _ _ hread => absurd hread Bool.false_ne_true, fun _ => hcount⟩
  | true =>
    cases readable with
    | false =>
      have hdiff : diff (readBytes ⟨counter', true⟩) (readBytes ⟨counter, false⟩) = counter' := by
        rw [show readBytes ⟨counter', true⟩ = counter' from rfl,
          show readBytes ⟨counter, false⟩ = 0 from rfl, diff, if_pos UInt64.zero_le, UInt64.sub_zero]
      rw [hdiff]
      constructor
      · intro hcount _ _
        dsimp only at hcount
        omega
      · intro hfirst
        obtain ⟨rfl, rfl⟩ := hfirst rfl rfl
        dsimp only
        omega
    | true =>
      have hdiff : (diff (readBytes ⟨counter', true⟩) (readBytes ⟨counter, true⟩)).toNat =
          counter'.toNat - counter.toNat := by
        rw [show readBytes ⟨counter', true⟩ = counter' from rfl,
          show readBytes ⟨counter, true⟩ = counter from rfl, diff, if_pos hle,
          UInt64.toNat_sub_of_le _ _ hle]
      rw [hdiff]
      dsimp only at h ⊢
      exact ⟨fun _ hread => absurd hread.symm Bool.false_ne_true, fun _ => by omega⟩

/-- A tick of the loop and the one before it. -/
theorem exists_mid {before after : List Tick} {t₁ t₂ : Tick}
    (h : t :: ticks = before ++ t₁ :: t₂ :: after) :
    ∃ mid, ticks = mid ++ t₂ :: after ∧ t :: mid = before ++ [t₁] := by
  cases before with
  | nil =>
    obtain ⟨rfl, rfl⟩ := List.cons.inj h
    exact ⟨[], rfl, rfl⟩
  | cons b before =>
    obtain ⟨rfl, rfl⟩ := List.cons.inj h
    exact ⟨before ++ [t₁], List.append_cons before t₁ (t₂ :: after), rfl⟩

/-- What was counted before a read can only be zero when the reads before returned zero. -/
theorem countedBytes_mid {mid before : List Tick} {t₁ : Tick} (h : t :: mid = before ++ [t₁])
    (hread : (t₁.reading d).readable = false) :
    (countedBytes d ((MainLoop.start t []).traffics mid) = 0 ∧ (t.reading d).counter.toNat = 0) ↔
      ((t.reading d).counter = 0 ∧ ∀ t' ∈ before, readBytes (t'.reading d) = 0) := by
  have hfirst : (t.reading d).counter.toNat = 0 ↔ (t.reading d).counter = 0 :=
    UInt64.toNat_inj (b := 0)
  have hlast : readBytes (t₁.reading d) = 0 := by
    rw [readBytes, hread, if_neg Bool.false_ne_true]
  have hall : (∀ t' ∈ t :: mid, readBytes (t'.reading d) = 0) ↔
      ∀ t' ∈ before, readBytes (t'.reading d) = 0 := by
    rw [h, List.forall_mem_append, List.forall_mem_singleton]
    exact and_iff_left hlast
  rw [and_comm, hfirst, ← hall, List.forall_mem_cons]
  refine and_congr_right fun hzero => ?_
  have hstart : readBytes (t.reading d) = 0 := by
    rw [readBytes, hzero, ite_self]
  rw [countedBytes_eq_zero ((last_start d t []).trans hstart)]
  exact (and_iff_right hstart).symm

/-- The rounds in front of a tick, with the tick before it. -/
theorem exists_before (t : Tick) (mid : List Tick) : ∃ before t₁, t :: mid = before ++ [t₁] :=
  ⟨(t :: mid).dropLast, (t :: mid).getLast (List.cons_ne_nil t mid),
    (List.dropLast_append_getLast _).symm⟩

theorem Growing.le {before after : List Tick} {t₁ t₂ : Tick}
    (h : Growing d (before ++ t₁ :: t₂ :: after)) :
    (t₁.reading d).counter ≤ (t₂.reading d).counter := by
  unfold Growing at h
  rw [List.map_append, List.pairwise_append] at h
  exact (List.pairwise_cons.1 h.2.1).1 _ List.mem_cons_self

/-- As long as no read recovers, what was counted is within the growth of the counter. -/
theorem countedBytes_le (hgrow : Growing d (t :: ticks)) (hrec : NoRecovery d t ticks)
    {mid after before : List Tick} {t₁ : Tick} (hsplit : ticks = mid ++ after)
    (hlast : t :: mid = before ++ [t₁]) :
    countedBytes d ((MainLoop.start t []).traffics mid) + (t.reading d).counter.toNat ≤
      (t₁.reading d).counter.toNat := by
  -- induction over the rounds: the tick in front of the last one keeps the bound
  induction mid using List.reverseRecOn generalizing t₁ before after with
  | nil =>
    have hfirst : [] ++ [t] = before ++ [t₁] := hlast
    obtain ⟨-, hone⟩ := List.append_inj' hfirst rfl
    obtain rfl := List.singleton_inj.1 hone
    exact (Nat.zero_add _).le
  | append_singleton mid u ih =>
    rw [← List.cons_append] at hlast
    obtain ⟨hmid, hone⟩ := List.append_inj' hlast rfl
    obtain rfl := List.singleton_inj.1 hone
    obtain ⟨front, t₀, hfront⟩ := exists_before t mid
    rw [List.append_assoc, List.singleton_append] at hsplit
    have hticks : t :: ticks = front ++ t₀ :: u :: after := by
      rw [hsplit, ← List.cons_append, hfront, List.append_assoc, List.singleton_append]
    rw [countedBytes_snoc, last_run hfront]
    -- the last round keeps the bound unless its read recovers
    apply (diff_le_iff (ih hsplit hfront) ?_).2
    · intro hfail hread
      exact (countedBytes_mid hfront hfail).2 (hrec front t₀ u after hticks hfail hread)
    · rw [hticks] at hgrow
      exact hgrow.le

end Reads

/-- Nothing is counted beyond the growth of the counter if and only if no read recovers from a failed
one, except while the counter was zero and nothing had been read. -/
theorem no_over_count (d : Direction) (t : Tick) (ticks : List Tick)
    (hgrow : Growing d (t :: ticks)) : NoOverCount d t ticks ↔ NoRecovery d t ticks := by
  constructor
  · intro hcount before t₁ t₂ after hticks hfail hread
    obtain ⟨mid, hsplit, hmid⟩ := exists_mid hticks
    have hround := hcount mid t₂ after hsplit
    have hzero : readBytes (t₁.reading d) = 0 := by
      rw [readBytes, hfail, if_neg Bool.false_ne_true]
    -- the read that recovers counts the whole counter
    have hdiff : diff (readBytes (t₂.reading d)) (readBytes (t₁.reading d)) =
        (t₂.reading d).counter := by
      rw [hzero, diff, if_pos UInt64.zero_le, UInt64.sub_zero, readBytes, if_pos hread]
    rw [countedBytes_snoc, last_run hmid, hdiff] at hround
    refine (countedBytes_mid hmid hfail).1 ?_
    omega
  · intro hrec before t' after hsplit
    have hlast : t :: (before ++ [t']) = (t :: before) ++ [t'] := rfl
    exact countedBytes_le hgrow hrec (hsplit.trans (List.append_cons before t' after)) hlast

/-- A Sunday at one in the afternoon, with the local count in nanoseconds. -/
def sundayAtOne : LocalTime where
  count := 1748782800000000000
  day := 1
  month := 6
  year := 2025
  hours := 13

/-- A tick of that hour: both counters are the same. -/
def sundayTick (counter : UInt64) (readable : Bool) : Tick :=
  ⟨⟨counter, readable⟩, ⟨counter, readable⟩, sundayAtOne⟩

theorem no_over_count_sunday :
    NoOverCount .receive (sundayTick 1000 true) [sundayTick 1002 true, sundayTick 1005 false] ↔
      NoRecovery .receive (sundayTick 1000 true) [sundayTick 1002 true, sundayTick 1005 false] :=
  no_over_count _ _ _ (by decide)

/-- The counter grows by five, and the loop counts 1005 bytes. -/
theorem over_count_after_failed_read :
    Growing .receive [sundayTick 1000 true, sundayTick 1002 false, sundayTick 1005 true] ∧
      ¬ NoOverCount .receive (sundayTick 1000 true)
        [sundayTick 1002 false, sundayTick 1005 true] := by
  refine ⟨by decide, ?_⟩
  intro h
  have hbound := h [sundayTick 1002 false] (sundayTick 1005 true) [] rfl
  exact absurd hbound (by decide)

end LocalSoftware.BandwidthMonitor
