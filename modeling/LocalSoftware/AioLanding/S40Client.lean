import LocalSoftware.Common.HttpMessage
import Mathlib.Data.List.Basic
import Mathlib.Data.List.Induction

/-!
# The thermostat client

`S40Client` of `s40_client.h` and `s40_client.cpp`: `fetch_data` polls for messages, and takes the
fields of the first zone from the first message that has some. `json::parse` is a parameter.

A conversion that throws ends the response, but not the polling, and leaves the fields assigned before
it. `fetchData_reported_iff` says for which messages the result is what one of them reported.
-/

set_option autoImplicit false

namespace LocalSoftware.S40

open Http

/-! ## The values of a response -/

/-- `json::value`. Doubles are rational numbers. -/
inductive Value where
  | null
  | bool (b : Bool)
  | int64 (n : Int)
  | uint64 (n : Nat)
  | double (q : Rat)
  | string (s : Str)
  | array (elements : List Value)
  | object (members : List (Str × Value))

/-- `json::object`. -/
abbrev Members := List (Str × Value)

/-- `at`, when `contains` holds. -/
def member (object : Members) (key : String) : Option Value := object.lookup key.toList

/-- The values of an `int`. -/
def IsInt (n : Int) : Prop := -2147483648 ≤ n ∧ n ≤ 2147483647

instance (n : Int) : Decidable (IsInt n) := inferInstanceAs (Decidable (_ ∧ _))

/-- `to_number<int>`: the number, when it is an `int`. Nothing when it throws. -/
def toNumber : Value → Option Int
  | .int64 n => if IsInt n then some n else none
  | .uint64 n => if IsInt n then some n else none
  | .double q => if q.den = 1 ∧ IsInt q.num then some q.num else none
  | _ => none

/-- `as_bool`. -/
def asBool : Value → Option Bool
  | .bool b => some b
  | _ => none

/-- `as_string`. -/
def asString : Value → Option Str
  | .string s => some s
  | _ => none

/-! ## Reading messages -/

/-- `ZoneData`. -/
structure ZoneData where
  temperature : Int := 0
  setpoint : Int := 0
  humidity : Int := 0
  fan : Bool := false
  mode : Str := []
  valid : Bool := false
deriving DecidableEq, Repr

/-- What a field of a status amounts to: nothing, a conversion that throws, or an assignment. -/
inductive Field where
  | absent
  | malformed
  | value (assign : ZoneData → ZoneData)

/-- `if (object.contains(key)) result.f = convert(object.at(key));`. -/
def field {α : Type} (v : Option Value) (convert : Value → Option α)
    (assign : ZoneData → α → ZoneData) : Field :=
  match v with
  | none => .absent
  | some v =>
    match convert v with
    | none => .malformed
    | some x => .value fun result => assign result x

/-- The fields of a status, in the order in which they are read. -/
def fields (status : Members) : List Field :=
  [field (member status "temperature") toNumber fun result x => { result with temperature := x },
    field (member status "humidity") toNumber fun result x => { result with humidity := x },
    field (member status "fan") asBool fun result x => { result with fan := x }] ++
  match member status "period" with
  | some (.object period) =>
    [field (member period "systemMode") asString fun result x => { result with mode := x },
      field (member period "sp") toNumber fun result x => { result with setpoint := x }]
  | _ => []

/-- How the code goes on: with the next message, with `finished`, or in a `catch`. -/
inductive Flow where
  | next
  | finished
  | threw
deriving DecidableEq, Repr

/-- The fields are assigned up to one that throws. -/
def readFields : List Field → ZoneData → Flow × ZoneData
  | [], result => (.next, result)
  | .absent :: fs, result => readFields fs result
  | .malformed :: _, result => (.threw, result)
  | .value assign :: fs, result => readFields fs { assign result with valid := true }

/-- The `status` of the first zone of a message. It is `malformed` when the first zone is no object. -/
inductive ZoneStatus where
  | missing
  | malformed
  | status (object : Members)

/-- The way from a message to the status of its first zone. -/
def zoneStatus : Value → ZoneStatus
  | .object msg =>
    match member msg "Data" with
    | some (.object data) =>
      match member data "zones" with
      | some (.array (.object z0 :: _)) =>
        match member z0 "status" with
        | some (.object status) => .status status
        | _ => .missing
      | some (.array (_ :: _)) => .malformed
      | _ => .missing
    | _ => .missing
  | _ => .missing

/-- `result`, with a history variable: the messages that were read. -/
structure Progress where
  result : ZoneData := {}
  read : List Value := []

/-- The body of the loop over the messages. -/
def readMessage (msg : Value) (p : Progress) : Flow × Progress :=
  let p := { p with read := p.read ++ [msg] }
  match zoneStatus msg with
  | .missing => (.next, p)
  | .malformed => (.threw, p)
  | .status status =>
    let (flow, result) := readFields (fields status) p.result
    let p := { p with result }
    if flow = .threw then (.threw, p)
    -- `valid` may have been set by an earlier message
    else (if result.valid then .finished else .next, p)

/-- The loop over the messages of a response. -/
def readMessages : List Value → Progress → Flow × Progress
  | [], p => (.next, p)
  | msg :: msgs, p =>
    match readMessage msg p with
    | (.next, p) => readMessages msgs p
    | stop => stop

section Polling

variable (parse : Str → Option Value)

/-- The messages of a body; nothing when `json::parse` throws. -/
def messages (body : Str) : List Value :=
  match parse body with
  | some (.object obj) =>
    match member obj "messages" with
    | some (.array msgs) => msgs
    | _ => []
  | _ => []

/-- The loop that polls, `n` more times from the poll `i` on. A poll without a response is one that
throws out of the loop. -/
def retrieve (polls : Nat → Option Response) : Nat → Nat → Progress → Progress
  | 0, _, p => p
  | n + 1, i, p =>
    match polls i with
    | none => p
    | some res =>
      if res.status = .ok then
        match readMessages (messages parse res.body) p with
        | (.finished, p) => p
        | (_, p) => retrieve polls n (i + 1) p
      else retrieve polls n (i + 1) p

/-- What the peer answers in a call of `fetch_data`: whether there is a connection, the responses to
`Connect` and to `RequestData`, and those to the polls. -/
structure Session where
  connected : Bool
  connect : Option Response
  requestData : Option Response
  polls : Nat → Option Response

/-- `res.result() != http::status::ok && res.result() != http::status::no_content` does not hold. -/
def accepted : Option Response → Bool
  | some res => res.status = .ok ∨ res.status = .noContent
  | none => false

/-- `fetch_data`. What follows `finished` has no effect on `result`. -/
def fetchData (s : Session) : Progress :=
  if s.connected ∧ accepted s.connect ∧ accepted s.requestData then retrieve parse s.polls 60 0 {}
  else {}

/-- The fields of `S40Client` that `loop` publishes. -/
structure S40Client where
  temperature : Int := 0
  setpoint : Int := 0
  humidity : Int := 0
  fan : Bool := false
  mode : Str := []
  dataValid : Bool := false
deriving DecidableEq, Repr

/-- An iteration of `loop`. -/
def cycle (client : S40Client) (s : Session) : S40Client :=
  let data := (fetchData parse s).result
  if data.valid then
    { temperature := data.temperature
      setpoint := data.setpoint
      humidity := data.humidity
      fan := data.fan
      mode := data.mode
      dataValid := true }
  else client

/-- `loop`, after some iterations. -/
def loop (cycles : List Session) : S40Client := cycles.foldl (cycle parse) {}

end Polling

/-! ## What a message reports -/

/-- The message reports these values for its first zone. -/
def Reports (msg : Value) (data : ZoneData) : Prop :=
  ∃ status period, zoneStatus msg = .status status ∧
    member status "period" = some (.object period) ∧
    (member status "temperature").bind toNumber = some data.temperature ∧
    (member status "humidity").bind toNumber = some data.humidity ∧
    (member status "fan").bind asBool = some data.fan ∧
    (member period "systemMode").bind asString = some data.mode ∧
    (member period "sp").bind toNumber = some data.setpoint

/-- A valid result is what one of the messages that were read reported. -/
def Reported (p : Progress) : Prop := p.result.valid = true → ∃ msg ∈ p.read, Reports msg p.result

/-- What is published is what a message read in one of the cycles reported. -/
def Published (parse : Str → Option Value) (cycles : List Session) (client : S40Client) : Prop :=
  client.dataValid = true → ∃ s ∈ cycles, ∃ msg ∈ (fetchData parse s).read,
    Reports msg { temperature := client.temperature, setpoint := client.setpoint,
                  humidity := client.humidity, fan := client.fan, mode := client.mode }

/-! ## What is read of a message -/

/-- The first field that is there is assigned. -/
def assignsField : List Field → Bool
  | [] => false
  | .absent :: fs => assignsField fs
  | .malformed :: _ => false
  | .value _ :: _ => true

/-- One of the fields throws. -/
def throwsField : List Field → Bool
  | [] => false
  | .malformed :: _ => true
  | _ :: fs => throwsField fs

/-- The message assigns a field. -/
def assigns (msg : Value) : Bool :=
  match zoneStatus msg with
  | .status status => assignsField (fields status)
  | _ => false

/-- Reading the message throws. -/
def throws (msg : Value) : Bool :=
  match zoneStatus msg with
  | .missing => false
  | .malformed => true
  | .status status => throwsField (fields status)

/-- The message has a status, which is read to its end. -/
def ends (msg : Value) : Bool :=
  match zoneStatus msg with
  | .status status => !throwsField (fields status)
  | _ => false

section Messages

variable {fs : List Field} {result : ZoneData} {msg : Value} {msgs : List Value} {p : Progress}

theorem flow_readFields (fs : List Field) (result : ZoneData) :
    (readFields fs result).1 = if throwsField fs then .threw else .next := by
  induction fs generalizing result with
  | nil => rfl
  | cons f fs ih =>
    cases f with
    | absent => exact ih result
    | malformed => rfl
    | value assign => exact ih _

theorem valid_readFields (fs : List Field) (result : ZoneData) :
    (readFields fs result).2.valid = (result.valid || assignsField fs) := by
  induction fs generalizing result with
  | nil => exact (Bool.or_false _).symm
  | cons f fs ih =>
    cases f with
    | absent => exact ih result
    | malformed => exact (Bool.or_false _).symm
    | value assign =>
      rw [readFields, ih, assignsField, Bool.or_true]
      rfl

theorem readFields_of_not_assigns (h : assignsField fs = false) :
    (readFields fs result).2 = result := by
  induction fs with
  | nil => rfl
  | cons f fs ih =>
    cases f with
    | absent => exact ih h
    | malformed => rfl
    | value assign => cases h

@[simp] theorem read_readMessage (msg : Value) (p : Progress) :
    (readMessage msg p).2.read = p.read ++ [msg] := by
  unfold readMessage
  cases zoneStatus msg with
  | missing => rfl
  | malformed => rfl
  | status status =>
    simp only
    split <;> rfl

@[simp] theorem valid_readMessage (msg : Value) (p : Progress) :
    (readMessage msg p).2.result.valid = (p.result.valid || assigns msg) := by
  unfold readMessage assigns
  cases zoneStatus msg with
  | missing => exact (Bool.or_false _).symm
  | malformed => exact (Bool.or_false _).symm
  | status status =>
    have hvalid := valid_readFields (fields status) p.result
    simp only
    split <;> exact hvalid

/-- When the code goes on, and how. -/
theorem flow_readMessage (msg : Value) (p : Progress) :
    (readMessage msg p).1 =
      if throws msg then .threw
      else if ends msg && (p.result.valid || assigns msg) then .finished else .next := by
  unfold readMessage throws ends assigns
  cases zoneStatus msg with
  | missing => rfl
  | malformed => rfl
  | status status =>
    have hvalid := valid_readFields (fields status) p.result
    have hflow := flow_readFields (fields status) p.result
    simp only
    rw [← hvalid]
    by_cases hthrows : throwsField (fields status) = true
    · rw [if_pos hthrows] at hflow ⊢
      rw [if_pos hflow]
    · rw [if_neg hthrows] at hflow ⊢
      rw [if_neg fun hthrew => Flow.noConfusion (hflow.symm.trans hthrew)]
      simp [hthrows]

theorem result_readMessage (h : assigns msg = false) : (readMessage msg p).2.result = p.result := by
  unfold assigns at h
  unfold readMessage
  cases hstatus : zoneStatus msg with
  | missing => rfl
  | malformed => rfl
  | status status =>
    rw [hstatus] at h
    have hsame : (readFields (fields status) p.result).2 = p.result := readFields_of_not_assigns h
    simp only
    split <;> exact hsame

theorem ends_eq_false_of_throws (h : throws msg = true) : ends msg = false := by
  unfold throws at h
  unfold ends
  cases hstatus : zoneStatus msg with
  | missing => rfl
  | malformed => rfl
  | status status =>
    rw [hstatus] at h
    simpa using h

/-! ## A message that reports every field -/

theorem field_eq_value {α : Type} {v : Option Value} {convert : Value → Option α} {x : α}
    (h : v.bind convert = some x) (assign : ZoneData → α → ZoneData) :
    field v convert assign = .value fun result => assign result x := by
  obtain ⟨w, rfl, hw⟩ := Option.bind_eq_some_iff.1 h
  simp only [field, hw]

/-- Its values replace all that is there. -/
theorem Reports.readMessage {data : ZoneData} (h : Reports msg data) (p : Progress) :
    readMessage msg p =
      (.finished, { result := { data with valid := true }, read := p.read ++ [msg] }) := by
  obtain ⟨status, period, hstatus, hperiod, htemperature, hhumidity, hfan, hmode, hsp⟩ := h
  have hfields : fields status =
      [.value fun result => { result with temperature := data.temperature },
        .value fun result => { result with humidity := data.humidity },
        .value fun result => { result with fan := data.fan },
        .value fun result => { result with mode := data.mode },
        .value fun result => { result with setpoint := data.setpoint }] := by
    simp only [fields, hperiod, field_eq_value htemperature, field_eq_value hhumidity,
      field_eq_value hfan, field_eq_value hmode, field_eq_value hsp]
    rfl
  simp only [S40.readMessage, hstatus, hfields, readFields]
  rfl

theorem Reports.ends {data : ZoneData} (h : Reports msg data) : ends msg = true := by
  have hflow := flow_readMessage msg {}
  rw [h.readMessage] at hflow
  by_contra hnot
  rw [Bool.not_eq_true] at hnot
  rw [hnot] at hflow
  split at hflow <;> simp at hflow

theorem Reports.assigns {data : ZoneData} (h : Reports msg data) : assigns msg = true := by
  have hvalid := valid_readMessage msg {}
  rw [h.readMessage] at hvalid
  exact hvalid.symm

end Messages

/-! ## The messages that are read -/

/-- The messages of a response up to one that throws. -/
def untilThrow : List Value → List Value
  | [] => []
  | msg :: msgs => msg :: if throws msg then [] else untilThrow msgs

/-- The messages that arrive in `n` polls, without those behind one that throws. -/
def arriving (parse : Str → Option Value) (polls : Nat → Option Response) : Nat → Nat → List Value
  | 0, _ => []
  | n + 1, i =>
    match polls i with
    | none => []
    | some res =>
      (if res.status = .ok then untilThrow (messages parse res.body) else []) ++
        arriving parse polls n (i + 1)

/-- The messages that arrive in a call of `fetch_data`, as long as it polls. -/
def received (parse : Str → Option Value) (s : Session) : List Value :=
  if s.connected ∧ accepted s.connect ∧ accepted s.requestData then arriving parse s.polls 60 0
  else []

/-- The messages are read one after the other, up to one at which the reading is finished. -/
def scan : List Value → Progress → Bool × Progress
  | [], p => (false, p)
  | msg :: msgs, p =>
    match readMessage msg p with
    | (.finished, p) => (true, p)
    | (_, p) => scan msgs p

section Scan

variable {parse : Str → Option Value} {msg m : Value} {msgs before rest : List Value}
  {p : Progress}

theorem scan_cons (msg : Value) (msgs : List Value) (p : Progress) :
    scan (msg :: msgs) p =
      if ends msg && (p.result.valid || assigns msg) then (true, (readMessage msg p).2)
      else scan msgs (readMessage msg p).2 := by
  have hflow := flow_readMessage msg p
  rw [scan]
  cases hread : readMessage msg p with
  | mk flow p' =>
    rw [hread] at hflow
    simp only at hflow
    by_cases hthrows : throws msg = true
    · rw [if_pos hthrows] at hflow
      rw [ends_eq_false_of_throws hthrows, hflow]
      simp
    · rw [if_neg hthrows] at hflow
      by_cases hfinished : (ends msg && (p.result.valid || assigns msg)) = true
      · rw [if_pos hfinished] at hflow ⊢
        rw [hflow]
      · rw [if_neg hfinished] at hflow ⊢
        rw [hflow]

/-- Reading a response is scanning its messages up to one that throws. -/
theorem scan_untilThrow (msgs rest : List Value) (p : Progress) :
    scan (untilThrow msgs ++ rest) p =
      match readMessages msgs p with
      | (.finished, p) => (true, p)
      | (_, p) => scan rest p := by
  induction msgs generalizing p with
  | nil => rfl
  | cons msg msgs ih =>
    have hflow := flow_readMessage msg p
    rw [untilThrow, readMessages, List.cons_append, scan]
    cases hread : readMessage msg p with
    | mk flow p' =>
      rw [hread] at hflow
      by_cases hthrows : throws msg = true
      · rw [if_pos hthrows] at hflow
        obtain rfl : flow = .threw := hflow
        rw [if_pos hthrows]
        rfl
      · rw [if_neg hthrows] at hflow
        rw [if_neg hthrows]
        simp only at hflow
        cases flow with
        | next => exact ih p'
        | finished => rfl
        | threw => split at hflow <;> cases hflow

/-- The polling scans the messages that arrive. -/
theorem retrieve_eq_scan (polls : Nat → Option Response) (n i : Nat) (p : Progress) :
    retrieve parse polls n i p = (scan (arriving parse polls n i) p).2 := by
  induction n generalizing i p with
  | zero => rfl
  | succ n ih =>
    rw [retrieve, arriving]
    cases polls i with
    | none => rfl
    | some res =>
      simp only
      by_cases hok : res.status = .ok
      · rw [if_pos hok, if_pos hok, scan_untilThrow]
        cases readMessages (messages parse res.body) p with
        | mk flow p' =>
          cases flow with
          | next => exact ih (i + 1) p'
          | finished => rfl
          | threw => exact ih (i + 1) p'
      · rw [if_neg hok, if_neg hok, List.nil_append]
        exact ih (i + 1) p

theorem fetchData_eq_scan (parse : Str → Option Value) (s : Session) :
    fetchData parse s = (scan (received parse s) {}).2 := by
  unfold fetchData received
  split
  · exact retrieve_eq_scan s.polls 60 0 {}
  · rfl

/-- Messages that assign nothing change nothing. -/
theorem scan_append_of_not_assigns (h : ∀ x ∈ before, assigns x = false)
    (hp : p.result.valid = false) :
    scan (before ++ rest) p = scan rest { p with read := p.read ++ before } := by
  induction before generalizing p with
  | nil =>
    rw [List.append_nil]
    rfl
  | cons x before ih =>
    have hx := h x List.mem_cons_self
    have hread : (readMessage x p).2 = { p with read := p.read ++ [x] } := by
      have hresult := @result_readMessage x p hx
      have hlist := read_readMessage x p
      cases hp' : (readMessage x p).2 with
      | mk result read =>
        rw [hp'] at hresult hlist
        rw [← hresult, ← hlist]
    have hrest := @ih { p with read := p.read ++ [x] }
      (fun y hy => h y (List.mem_cons_of_mem _ hy)) hp
    rw [List.cons_append, scan_cons, hp, hx, Bool.or_false, Bool.and_false, if_neg (by decide), hread,
      hrest, List.append_assoc]
    rfl

/-- What a message reported is in the result after it is read. -/
theorem Reports.result {data : ZoneData} (h : Reports msg data) (p : Progress) :
    Reports msg (S40.readMessage msg p).2.result := by
  rw [h.readMessage]
  exact h

/-- What holds of a scan once a field is assigned: the result is valid, and the next message that is
read to its end is the last. -/
structure ScansTo (msgs : List Value) (p final : Progress) : Prop where
  valid : final.result.valid = true
  last : ∀ x ∈ final.read, ends x = true → x ∈ p.read ∨ msgs.find? ends = some x
  reports : ∀ x data, msgs.find? ends = some x → Reports x data →
    x ∈ final.read ∧ Reports x final.result

theorem scansTo_of_ends (h : (p.result.valid || assigns msg) = true) (hends : ends msg = true) :
    ScansTo (msg :: msgs) p (readMessage msg p).2 := by
  constructor
  · rw [valid_readMessage, h]
  · intro x hx hxends
    rw [read_readMessage, List.mem_append, List.mem_singleton] at hx
    rcases hx with hx | rfl
    · exact Or.inl hx
    · exact Or.inr (List.find?_cons_of_pos hends)
  · intro x data hfind hreports
    rw [List.find?_cons_of_pos hends] at hfind
    obtain rfl := Option.some.inj hfind
    refine ⟨?_, hreports.result p⟩
    rw [read_readMessage]
    exact List.mem_append_right _ (List.mem_singleton_self _)

theorem scansTo_scan (h : (p.result.valid || assigns msg) = true) :
    ScansTo (msg :: msgs) p (scan (msg :: msgs) p).2 := by
  induction msgs generalizing msg p with
  | nil =>
    rw [scan_cons, h, Bool.and_true]
    by_cases hends : ends msg = true
    · rw [if_pos hends]
      exact scansTo_of_ends h hends
    · have hnone : [msg].find? ends = none := List.find?_cons_of_neg hends
      rw [if_neg hends]
      constructor
      · rw [scan, valid_readMessage, h]
      · intro x hx hxends
        rw [scan, read_readMessage, List.mem_append, List.mem_singleton] at hx
        rcases hx with hx | rfl
        · exact Or.inl hx
        · exact absurd hxends hends
      · intro x data hfind
        rw [hnone] at hfind
        cases hfind
  | cons next msgs ih =>
    rw [scan_cons, h, Bool.and_true]
    by_cases hends : ends msg = true
    · rw [if_pos hends]
      exact scansTo_of_ends h hends
    · have hvalid : ((readMessage msg p).2.result.valid || assigns next) = true := by
        rw [valid_readMessage, h, Bool.true_or]
      have hrest := ih hvalid
      rw [if_neg hends]
      constructor
      · exact hrest.valid
      · intro x hx hxends
        rw [List.find?_cons_of_neg hends]
        rcases hrest.last x hx hxends with hread | hfind
        · rw [read_readMessage, List.mem_append, List.mem_singleton] at hread
          rcases hread with hread | rfl
          · exact Or.inl hread
          · exact absurd hxends hends
        · exact Or.inr hfind
      · intro x data hfind hreports
        rw [List.find?_cons_of_neg hends] at hfind
        exact hrest.reports x data hfind hreports

end Scan

/-! ## When the result is what one message reported -/

/-- After the first message that assigns a field, and including it, the next one that is read to its
end reports every field. -/
def CompleteReport (msgs : List Value) : Prop :=
  ∀ before msg after, msgs = before ++ msg :: after → (∀ m ∈ before, assigns m = false) →
    assigns msg = true → ∃ m data, (msg :: after).find? ends = some m ∧ Reports m data

theorem reported_iff (parse : Str → Option Value) (s : Session) :
    Reported (fetchData parse s) ↔ CompleteReport (received parse s) := by
  rw [fetchData_eq_scan]
  generalize received parse s = msgs
  constructor
  · intro h before msg after hmsgs hbefore hassigns
    rw [hmsgs, scan_append_of_not_assigns hbefore rfl] at h
    have hscan := @scansTo_scan msg after { read := [] ++ before } (by rw [hassigns]; rfl)
    obtain ⟨m, hm, hreports⟩ := h hscan.valid
    refine ⟨m, _, ?_, hreports⟩
    refine (hscan.last m hm hreports.ends).resolve_left fun hin => ?_
    -- a message that reports every field assigns one
    exact Bool.false_ne_true ((hbefore m hin).symm.trans hreports.assigns)
  · intro h hvalid
    cases hfind : msgs.find? assigns with
    | none =>
      have hnone : ∀ m ∈ msgs, assigns m = false := by
        intro m hm
        exact Bool.eq_false_iff.2 (List.find?_eq_none.1 hfind m hm)
      have hscan := @scan_append_of_not_assigns msgs [] {} hnone rfl
      rw [List.append_nil] at hscan
      rw [hscan] at hvalid
      cases hvalid
    | some msg =>
      obtain ⟨hassigns, before, after, rfl, hbefore⟩ := List.find?_eq_some_iff_append.1 hfind
      have hnot : ∀ m ∈ before, assigns m = false := by
        intro m hm
        simpa using hbefore m hm
      obtain ⟨m, data, hm, hreports⟩ := h before msg after rfl hnot hassigns
      rw [scan_append_of_not_assigns hnot rfl]
      have hscan := @scansTo_scan msg after { read := [] ++ before } (by rw [hassigns]; rfl)
      exact ⟨m, hscan.reports m data hm hreports⟩

/-! ## What is published -/

/-- What is published is reported, as long as every result is. -/
theorem published_loop {parse : Str → Option Value} {cycles : List Session}
    (h : ∀ s ∈ cycles, Reported (fetchData parse s)) :
    Published parse cycles (loop parse cycles) := by
  induction cycles using List.reverseRecOn with
  | nil =>
    intro hvalid
    cases hvalid
  | append_singleton cycles s ih =>
    have hs := h s (List.mem_append_right _ (List.mem_singleton_self s))
    have hbefore := ih fun t ht => h t (List.mem_append_left _ ht)
    rw [loop, List.foldl_append]
    change Published parse (cycles ++ [s]) (cycle parse (loop parse cycles) s)
    intro hvalid
    unfold cycle at hvalid ⊢
    by_cases hdata : (fetchData parse s).result.valid = true
    · rw [if_pos hdata]
      obtain ⟨msg, hmsg, hreports⟩ := hs hdata
      exact ⟨s, List.mem_append_right _ (List.mem_singleton_self s), msg, hmsg, hreports⟩
    · rw [if_neg hdata] at hvalid ⊢
      obtain ⟨t, ht, hreported⟩ := hbefore hvalid
      exact ⟨t, List.mem_append_left _ ht, hreported⟩

/-- A valid result is what one message reported exactly when, from the first message that assigns a
field on, the next one that is read to its end reports every field. Where this holds in every cycle,
what is published is what one message reported. -/
theorem fetchData_reported_iff (parse : Str → Option Value) :
    (∀ s, Reported (fetchData parse s) ↔ CompleteReport (received parse s)) ∧
      ∀ cycles, (∀ s ∈ cycles, CompleteReport (received parse s)) →
        Published parse cycles (loop parse cycles) :=
  ⟨reported_iff parse, fun _ h => published_loop fun s hs => (reported_iff parse s).2 (h s hs)⟩

/-! ## Messages that report a part of the fields -/

/-- A response with one message, with the given text for the status of its first zone. -/
def bodyOf (status : Str) : Str :=
  "\x7b\"messages\":[\x7b\"Data\":\x7b\"zones\":[\x7b\"status\":".toList ++ status ++
    "\x7d]\x7d\x7d]\x7d".toList

/-- The message of such a response. -/
def messageOf (status : Members) : Value :=
  .object [("Data".toList, .object [("zones".toList,
    .array [.object [("status".toList, .object status)]])])]

/-- Statuses: a temperature, a temperature with a humidity that is no number, and a fan. -/
def statuses : List (Str × Members) :=
  [("\x7b\"temperature\":72\x7d".toList, [("temperature".toList, .int64 72)]),
    ("\x7b\"temperature\":70,\"humidity\":\"n/a\"\x7d".toList,
      [("temperature".toList, .int64 70), ("humidity".toList, .string "n/a".toList)]),
    ("\x7b\"fan\":true\x7d".toList, [("fan".toList, .bool true)])]

/-- What `json::parse` makes of responses with these statuses. -/
def parseStatuses (body : Str) : Option Value :=
  (statuses.find? fun entry => body = bodyOf entry.1).map fun entry =>
    .object [("messages".toList, .array [messageOf entry.2])]

/-- A peer that answers the polls with some of these responses, one after the other. -/
def session (indices : List Nat) : Session where
  connected := true
  connect := some { status := .ok, version := 11 }
  requestData := some { status := .noContent, version := 11 }
  polls i := (indices[i]?.bind fun k => statuses[k]?).map fun entry =>
    { status := .ok, version := 11, body := bodyOf entry.1 }

/-- A message that reports every field has a humidity that is a number. -/
theorem Reports.humidity {status : Members} {data : ZoneData} (h : Reports (messageOf status) data) :
    (member status "humidity").bind toNumber = some data.humidity := by
  obtain ⟨status', period, hstatus, -, -, hhumidity, -⟩ := h
  have hsame : zoneStatus (messageOf status) = .status status := rfl
  rw [ZoneStatus.status.inj (hsame.symm.trans hstatus)]
  exact hhumidity

/-- No message with one of these statuses does. -/
theorem not_reports_statuses {entry : Str × Members} (h : entry ∈ statuses) (data : ZoneData) :
    ¬ Reports (messageOf entry.2) data := by
  intro hreports
  have hhumidity := hreports.humidity
  rw [statuses, List.mem_cons, List.mem_cons, List.mem_singleton] at h
  rcases h with rfl | rfl | rfl
  · cases hhumidity
  · cases hhumidity
  · cases hhumidity

/-- A temperature alone is published with a humidity of 0, and the temperature of a message that threw
with the fan of the next one. -/
theorem incomplete_published :
    (fetchData parseStatuses (session [0])).result = { temperature := 72, valid := true } ∧
      (loop parseStatuses [session [0]]).humidity = 0 ∧
      (fetchData parseStatuses (session [1, 2])).result =
        { temperature := 70, fan := true, valid := true } ∧
      (∀ entry ∈ statuses, ∀ data, ¬ Reports (messageOf entry.2) data) ∧
      ¬ ∀ parse s, Reported (fetchData parse s) := by
  have hresult : (fetchData parseStatuses (session [0])).result =
      { temperature := 72, valid := true } := by decide +kernel
  have hread : (fetchData parseStatuses (session [0])).read =
      [messageOf [("temperature".toList, .int64 72)]] := by rfl
  refine ⟨hresult, by decide +kernel, by decide +kernel, fun entry => not_reports_statuses, ?_⟩
  intro hall
  obtain ⟨msg, hmsg, hreports⟩ := hall parseStatuses (session [0]) (by rw [hresult])
  rw [hread, List.mem_singleton] at hmsg
  rw [hmsg] at hreports
  cases hreports.humidity

end LocalSoftware.S40
