import LocalSoftware.Common.Event
import LocalSoftware.Library.Transition
import Mathlib.Algebra.GroupWithZero.Nat

/-!
# The byte socket

`ReadWriteBytes` of `readwrite_bytes.h` and `readwrite_bytes.cpp`, with the addresses of its buffers: a
read and a write may be under way on one object, and the kernel may carry out a request in part.
`Socket` is an object with the tasks of both directions, which the kernel answers in any order.
`transfers_exact` is about every run: the requests of a task go through its buffer from the first byte
to the last, and its reports are one success or one failure. `Follows` is what the requests of a task
look like.
-/

set_option autoImplicit false

namespace LocalSoftware.ByteRanges

/-- The buffer of a request. -/
structure Sqe where
  addr : Nat
  len : Nat
deriving DecidableEq, Repr

/-- What the object queues; it has no children. -/
abbrev vocabulary : Vocabulary where
  TypeIndex := Empty
  ConstructFunc := Empty
  FunctionFunc := Empty
  Sqe := Sqe

/-- `io_uring_prep_recv` and `io_uring_prep_send`: the length of an entry has 32 bits. -/
def prepRw (addr len : Nat) : Sqe := ⟨addr, len % 2 ^ 32⟩

/-- `ReadWriteBytes`. -/
structure ReadWriteBytes where
  stickyRead : Bool := false
  readBuffer : Nat := 0
  readBytesLeft : Nat := 0
  readTotalProcessed : Nat := 0
  writeBuffer : Nat := 0
  writeBytesLeft : Nat := 0
  writeTotalProcessed : Nat := 0
deriving DecidableEq, Repr

namespace ReadWriteBytes

/-- `read`. -/
def read (s : ReadWriteBytes) (buf len : Nat) (readAll : Bool) :
    Script vocabulary ReadWriteBytes := do
  let s := { s with
    stickyRead := readAll, readBuffer := buf, readBytesLeft := len, readTotalProcessed := 0 }
  Script.cUring (V := vocabulary) idRead (prepRw s.readBuffer s.readBytesLeft)
  return s

/-- `write`. -/
def write (s : ReadWriteBytes) (buf len : Nat) : Script vocabulary ReadWriteBytes := do
  let s := { s with writeBuffer := buf, writeBytesLeft := len, writeTotalProcessed := 0 }
  Script.cUring (V := vocabulary) idWrite (prepRw s.writeBuffer s.writeBytesLeft)
  return s

/-- `prepare_read`. -/
def prepareRead (s : ReadWriteBytes) (res : Nat) :
    Script vocabulary (Yielded × ReadWriteBytes) := do
  let s := { s with
    readBytesLeft := s.readBytesLeft - res, readTotalProcessed := s.readTotalProcessed + res }
  if s.stickyRead ∧ 0 < s.readBytesLeft then
    let nextPtr := s.readBuffer + s.readTotalProcessed
    Script.cUring (V := vocabulary) idRead (prepRw nextPtr s.readBytesLeft)
    return (none, s)
  else
    return (some (false, toInt s.readTotalProcessed), s)

/-- `prepare_write`. -/
def prepareWrite (s : ReadWriteBytes) (res : Nat) :
    Script vocabulary (Yielded × ReadWriteBytes) := do
  let s := { s with
    writeBytesLeft := s.writeBytesLeft - res, writeTotalProcessed := s.writeTotalProcessed + res }
  if 0 < s.writeBytesLeft then
    let nextPtr := s.writeBuffer + s.writeTotalProcessed
    Script.cUring (V := vocabulary) idWrite (prepRw nextPtr s.writeBytesLeft)
    return (none, s)
  else
    return (some (false, toInt s.writeTotalProcessed), s)

/-- `on_yield`. -/
def onYield (s : ReadWriteBytes) : EventType → Script vocabulary (Yielded × ReadWriteBytes)
  | .ioUringResult res =>
    if res.res ≤ 0 then return (some (true, res.res), s)
    else if res.op = idRead then s.prepareRead res.res.toNat
    else if res.op = idWrite then s.prepareWrite res.res.toNat
    else return (none, s)
  | _ => .throw .badVariantAccess

end ReadWriteBytes

/-! ## The tasks of an object -/

/-- The two directions. -/
inductive Direction where
  | read
  | write
deriving DecidableEq, Repr

/-- The operation number of the requests of a direction. -/
def Direction.op : Direction → Int
  | read => idRead
  | write => idWrite

theorem Direction.eq_write {d : Direction} (h : d ≠ .read) : d = .write := by
  cases d with
  | read => exact absurd rfl h
  | write => rfl

theorem Direction.eq_read {d : Direction} (h : d ≠ .write) : d = .read := by
  cases d with
  | read => rfl
  | write => exact absurd rfl h

/-- A call of `read` or `write` and what became of it: `all` is `read_all`, `answered` are the requests
with the results of the kernel, `pending` the requests without, and `reports` what `on_yield`
returned. -/
structure Task where
  buf : Nat
  len : Nat
  all : Bool
  answered : List (Sqe × Int) := []
  pending : List Sqe := []
  reports : List (Bool × Int) := []
deriving DecidableEq, Repr

/-- An object, and the last task of each direction. -/
structure Socket where
  object : ReadWriteBytes := {}
  task : Direction → Option Task := fun _ => none

/-- What happens to an object: calls, and results of the kernel. -/
inductive Action where
  | read (buf len : Nat) (readAll : Bool)
  | write (buf len : Nat)
  | result (d : Direction) (r : Int)
deriving DecidableEq, Repr

namespace Socket

/-- The requests of a direction that a handler queued. -/
def queued (d : Direction) (es : EventState vocabulary) : List Sqe :=
  (es.uring.filter fun q => q.op = d.op).map fun q => q.fn

/-- A handler returned: its requests are pending. -/
def submit (s : Socket) (object : ReadWriteBytes) (es : EventState vocabulary) : Socket where
  object := object
  task := fun d => (s.task d).map fun t => { t with pending := t.pending ++ queued d es }

/-- The task of a direction. -/
def setTask (s : Socket) (d : Direction) (t : Task) : Socket :=
  { s with task := Function.update s.task d (some t) }

/-- A call, which begins a task. -/
def begin (s : Socket) (d : Direction) (buf len : Nat) (all : Bool)
    (handler : Script vocabulary ReadWriteBytes) : Except Fault Socket :=
  match handler.run {} with
  | .error e => .error e
  | .ok (object, es) => .ok ((s.setTask d { buf, len, all }).submit object es)

/-- One action. -/
def step (s : Socket) : Action → Except Fault Socket
  | .read buf len readAll => s.begin .read buf len readAll (s.object.read buf len readAll)
  | .write buf len => s.begin .write buf len true (s.object.write buf len)
  | .result d r =>
    match s.task d with
    | none => .error .undefinedBehaviour
    | some t =>
      match t.pending with
      | [] => .error .undefinedBehaviour
      | req :: pending =>
        match (s.object.onYield (.ioUringResult { callingId := none, op := d.op, res := r })).run {}
        with
        | .error e => .error e
        | .ok ((yielded, object), es) =>
          .ok ((s.setTask d { t with
            answered := t.answered ++ [(req, r)], pending := pending,
            reports := t.reports ++ yielded.toList }).submit object es)

/-- No request of the direction is pending. -/
def Idle (s : Socket) (d : Direction) : Prop := ∀ t ∈ s.task d, t.pending = []

/-- A call for at least one byte and less than 2 GiB, when the task before it is over, or a result of at
most the length that was requested. -/
def Allowed (s : Socket) : Action → Prop
  | .read _ len _ => 0 < len ∧ len < 2 ^ 31 ∧ s.Idle .read
  | .write _ len => 0 < len ∧ len < 2 ^ 31 ∧ s.Idle .write
  | .result d r => ∀ t ∈ s.task d, ∀ req ∈ t.pending.head?, r ≤ req.len

instance (s : Socket) (d : Direction) : Decidable (s.Idle d) :=
  inferInstanceAs (Decidable (∀ t ∈ s.task d, t.pending = []))

instance (s : Socket) : (a : Action) → Decidable (s.Allowed a)
  | .read _ len _ => inferInstanceAs (Decidable (0 < len ∧ len < 2 ^ 31 ∧ s.Idle .read))
  | .write _ len => inferInstanceAs (Decidable (0 < len ∧ len < 2 ^ 31 ∧ s.Idle .write))
  | .result d r =>
    inferInstanceAs (Decidable (∀ t ∈ s.task d, ∀ req ∈ t.pending.head?, r ≤ (req.len : Int)))

end Socket

/-! ## What a task should look like -/

/-- The bytes that were transferred. -/
def bytes (answered : List (Sqe × Int)) : Nat := (answered.map fun a => a.2.toNat).sum

/-- The addresses of the bytes that were transferred, in the order of the requests. -/
def addresses (answered : List (Sqe × Int)) : List Nat :=
  answered.flatMap fun a => List.range' a.1.addr a.2.toNat

/-- Each request is for all of the buffer that is left, from the first byte that was not transferred on,
and at least one byte and no other one is transferred. -/
def Follows (buf len : Nat) : List (Sqe × Int) → Prop
  | [] => True
  | (req, r) :: answered =>
    req = ⟨buf, len⟩ ∧ 0 < r ∧ r ≤ len ∧ Follows (buf + r.toNat) (len - r.toNat) answered

/-- The three states of a task. -/
inductive Task.Exact (t : Task) : Prop where
  | running (hfollows : Follows t.buf t.len t.answered) (hleft : bytes t.answered < t.len)
      (hpending : t.pending = [⟨t.buf + bytes t.answered, t.len - bytes t.answered⟩])
      (hreports : t.reports = []) (hone : t.all = false → t.answered = [])
  | finished (hfollows : Follows t.buf t.len t.answered) (hall : t.all → bytes t.answered = t.len)
      (hpending : t.pending = []) (hreports : t.reports = [(false, (bytes t.answered : Int))])
  | failed (answered : List (Sqe × Int)) (r : Int) (hfollows : Follows t.buf t.len answered)
      (hleft : bytes answered < t.len)
      (hanswered : t.answered =
        answered ++ [(⟨t.buf + bytes answered, t.len - bytes answered⟩, r)])
      (hfail : r ≤ 0) (hpending : t.pending = []) (hreports : t.reports = [(true, r)])

section Follows

variable {buf len : Nat} {answered : List (Sqe × Int)} {r : Int}

theorem bytes_append (answered answered' : List (Sqe × Int)) :
    bytes (answered ++ answered') = bytes answered + bytes answered' := by
  unfold bytes
  rw [List.map_append, List.sum_append]

theorem bytes_singleton (req : Sqe) (r : Int) : bytes [(req, r)] = r.toNat := List.sum_singleton

/-- No more is transferred than the buffer holds. -/
theorem Follows.bytes_le (h : Follows buf len answered) : bytes answered ≤ len := by
  induction answered generalizing buf len with
  | nil => exact Nat.zero_le len
  | cons a answered ih =>
    obtain ⟨req, r⟩ := a
    obtain ⟨-, hpos, hle, hrest⟩ := h
    have hbytes : bytes ((req, r) :: answered) = r.toNat + bytes answered := List.sum_cons
    have hrest := ih hrest
    omega

/-- One more request, for what is left. -/
theorem Follows.snoc (h : Follows buf len answered) (hpos : 0 < r)
    (hle : r ≤ (len - bytes answered : Nat)) :
    Follows buf len
      (answered ++ [(⟨buf + bytes answered, len - bytes answered⟩, r)]) := by
  induction answered generalizing buf len with
  | nil => exact ⟨rfl, hpos, hle, trivial⟩
  | cons a answered ih =>
    obtain ⟨req, r'⟩ := a
    obtain ⟨hreq, hpos', hle', hrest⟩ := h
    have hbytes : bytes ((req, r') :: answered) = r'.toNat + bytes answered := List.sum_cons
    refine ⟨hreq, hpos', hle', ?_⟩
    rw [hbytes, ← Nat.sub_sub] at hle
    rw [hbytes, ← Nat.add_assoc, ← Nat.sub_sub]
    exact ih hrest hle

/-- The addresses are those of the buffer, in order, each once. -/
theorem Follows.addresses_eq (h : Follows buf len answered) :
    addresses answered = List.range' buf (bytes answered) := by
  induction answered generalizing buf len with
  | nil => rfl
  | cons a answered ih =>
    obtain ⟨req, r⟩ := a
    obtain ⟨rfl, -, -, hrest⟩ := h
    have hbytes : bytes ((⟨buf, len⟩, r) :: answered) = r.toNat + bytes answered := List.sum_cons
    have haddresses : addresses ((⟨buf, len⟩, r) :: answered) =
        List.range' buf r.toNat ++ addresses answered := List.flatMap_cons
    rw [haddresses, ih hrest, hbytes]
    exact List.range'_append_1

/-- No request goes beyond the end of the buffer. -/
theorem Follows.end_eq (h : Follows buf len answered) {a : Sqe × Int} (ha : a ∈ answered) :
    a.1.addr + a.1.len = buf + len := by
  induction answered generalizing buf len with
  | nil => cases ha
  | cons b answered ih =>
    obtain ⟨req, r⟩ := b
    obtain ⟨rfl, hpos, hle, hrest⟩ := h
    rcases List.mem_cons.1 ha with rfl | ha
    · rfl
    · rw [ih hrest ha]
      omega

end Follows

/-! ## The handlers -/

/-- The members of a direction. -/
structure Side where
  buffer : Nat
  bytesLeft : Nat
  totalProcessed : Nat
deriving DecidableEq, Repr

namespace ReadWriteBytes

/-- The members of a direction. -/
def side (s : ReadWriteBytes) : Direction → Side
  | .read => ⟨s.readBuffer, s.readBytesLeft, s.readTotalProcessed⟩
  | .write => ⟨s.writeBuffer, s.writeBytesLeft, s.writeTotalProcessed⟩

/-- Whether a task of the direction goes on until its buffer is done. -/
def sticky (s : ReadWriteBytes) : Direction → Bool
  | .read => s.stickyRead
  | .write => true

/-- The object counts `n` more bytes. -/
def advance (s : ReadWriteBytes) (n : Nat) : Direction → ReadWriteBytes
  | .read => { s with
      readBytesLeft := s.readBytesLeft - n, readTotalProcessed := s.readTotalProcessed + n }
  | .write => { s with
      writeBytesLeft := s.writeBytesLeft - n, writeTotalProcessed := s.writeTotalProcessed + n }

section Handlers

variable {s s' : ReadWriteBytes} {d d' : Direction} {n : Nat}

theorem side_advance (s : ReadWriteBytes) (d : Direction) (n : Nat) :
    (s.advance n d).side d =
      ⟨(s.side d).buffer, (s.side d).bytesLeft - n, (s.side d).totalProcessed + n⟩ := by
  cases d with
  | read => rfl
  | write => rfl

theorem side_advance_ne (h : d' ≠ d) : (s.advance n d).side d' = s.side d' := by
  cases d with
  | read =>
    obtain rfl := Direction.eq_write h
    rfl
  | write =>
    obtain rfl := Direction.eq_read h
    rfl

theorem sticky_advance (s : ReadWriteBytes) (d d' : Direction) (n : Nat) :
    (s.advance n d).sticky d' = s.sticky d' := by
  cases d with
  | read =>
    cases d' with
    | read => rfl
    | write => rfl
  | write =>
    cases d' with
    | read => rfl
    | write => rfl

/-- The next request after some bytes. -/
def nextRequest (s : ReadWriteBytes) (d : Direction) (n : Nat) : Sqe :=
  prepRw ((s.side d).buffer + ((s.side d).totalProcessed + n)) ((s.side d).bytesLeft - n)

/-- A positive result: a request for the rest, or the report of a success. -/
theorem onYield_pos (s : ReadWriteBytes) (d : Direction) {r : Int} (hpos : 0 < r) :
    (s.onYield (.ioUringResult { callingId := none, op := d.op, res := r })).run {} =
      .ok (if s.sticky d = true ∧ 0 < (s.side d).bytesLeft - r.toNat
        then ((none, s.advance r.toNat d),
          EventState.queueUring {} d.op (s.nextRequest d r.toNat))
        else ((some (false, toInt ((s.side d).totalProcessed + r.toNat)), s.advance r.toNat d),
          {})) := by
  have hneg : ¬ r ≤ 0 := by omega
  cases d with
  | read =>
    simp only [onYield, if_neg hneg, Direction.op, if_true, prepareRead]
    by_cases hmore : s.stickyRead = true ∧ 0 < s.readBytesLeft - r.toNat
    · have hmore' : s.sticky .read = true ∧ 0 < (s.side .read).bytesLeft - r.toNat := hmore
      rw [if_pos hmore, if_pos hmore']
      rfl
    · have hmore' : ¬ (s.sticky .read = true ∧ 0 < (s.side .read).bytesLeft - r.toNat) := hmore
      rw [if_neg hmore, if_neg hmore']
      rfl
  | write =>
    have hop : ¬ idWrite = idRead := by decide
    simp only [onYield, if_neg hneg, Direction.op, if_neg hop, if_true, prepareWrite]
    by_cases hmore : 0 < s.writeBytesLeft - r.toNat
    · have hmore' : s.sticky .write = true ∧ 0 < (s.side .write).bytesLeft - r.toNat :=
        ⟨rfl, hmore⟩
      rw [if_pos hmore, if_pos hmore']
      rfl
    · have hmore' : ¬ (s.sticky .write = true ∧ 0 < (s.side .write).bytesLeft - r.toNat) :=
        fun h => hmore h.2
      rw [if_neg hmore, if_neg hmore']
      rfl

/-- Any other result is the report of a failure. -/
theorem onYield_fail (s : ReadWriteBytes) (d : Direction) {r : Int} (hfail : r ≤ 0) :
    (s.onYield (.ioUringResult { callingId := none, op := d.op, res := r })).run {} =
      .ok ((some (true, r), s), {}) := by
  simp only [onYield, if_pos hfail, Script.run_pure]

end Handlers

end ReadWriteBytes

/-! ## The tasks of a run -/

/-- The members of the object belong to the task, as long as it has a request. -/
structure Tracked (object : ReadWriteBytes) (d : Direction) (t : Task) : Prop where
  exact : t.Exact
  small : t.len < 2 ^ 31
  side : t.pending ≠ [] →
    object.side d = ⟨t.buf, t.len - bytes t.answered, bytes t.answered⟩
  sticky : t.pending ≠ [] → object.sticky d = t.all

/-- What holds in every state. -/
def Inv (s : Socket) : Prop := ∀ d t, s.task d = some t → Tracked s.object d t

section Runs

variable {s s' s₀ : Socket} {d d' : Direction} {t : Task} {object object' : ReadWriteBytes}
  {es : EventState vocabulary} {r : Int}

theorem prepRw_eq {addr len : Nat} (h : len < 2 ^ 31) : prepRw addr len = ⟨addr, len⟩ := by
  unfold prepRw
  rw [Nat.mod_eq_of_lt (Nat.lt_trans h (by decide))]

theorem op_inj (h : d.op = d'.op) : d = d' := by
  cases d with
  | read =>
    cases d' with
    | read => rfl
    | write => exact absurd h (by decide)
  | write =>
    cases d' with
    | read => exact absurd h (by decide)
    | write => rfl

theorem queued_queueUring (d : Direction) (req : Sqe) :
    Socket.queued d (EventState.queueUring {} d.op req) = [req] := by
  simp [Socket.queued, EventState.queueUring]

theorem queued_queueUring_ne (h : d' ≠ d) (req : Sqe) :
    Socket.queued d' (EventState.queueUring {} d.op req) = [] := by
  have hop : d.op ≠ d'.op := fun heq => h (op_inj heq).symm
  simp [Socket.queued, EventState.queueUring, hop]

theorem task_setTask (s : Socket) (d : Direction) (t : Task) :
    (s.setTask d t).task d = some t := by
  simp [Socket.setTask]

theorem task_setTask_ne (h : d' ≠ d) (t : Task) : (s.setTask d t).task d' = s.task d' := by
  simp [Socket.setTask, h]

/-- The task of a handler, with the requests that the handler queued. -/
theorem task_submit (s : Socket) (d : Direction) (t : Task) (object : ReadWriteBytes)
    (es : EventState vocabulary) : ((s.setTask d t).submit object es).task d =
      some { t with pending := t.pending ++ Socket.queued d es } := by
  simp [Socket.submit, task_setTask]

/-- A task of the other direction is as before. -/
theorem Tracked.other (h : Tracked object d t) (hside : object'.side d = object.side d)
    (hsticky : object'.sticky d = object.sticky d) (hqueue : Socket.queued d es = []) :
    Tracked object' d { t with pending := t.pending ++ Socket.queued d es } := by
  rw [hqueue, List.append_nil]
  exact ⟨h.exact, h.small, fun hne => hside.trans (h.side hne),
    fun hne => hsticky.trans (h.sticky hne)⟩

/-- The tasks after a handler, when that of its direction is right. -/
theorem inv_submit (h : Inv s)
    (hself : Tracked object d { t with pending := t.pending ++ Socket.queued d es })
    (hside : ∀ d', d' ≠ d → object.side d' = s.object.side d')
    (hsticky : ∀ d', d' ≠ d → object.sticky d' = s.object.sticky d')
    (hqueue : ∀ d', d' ≠ d → Socket.queued d' es = []) :
    Inv ((s.setTask d t).submit object es) := by
  intro d' t' ht'
  obtain ⟨u, hu, rfl⟩ := Option.map_eq_some_iff.1 ht'
  -- by the direction: the one the handler ran for, or the other with its task as before
  by_cases hd : d' = d
  · subst hd
    obtain rfl := Option.some.inj ((task_setTask s d' t).symm.trans hu)
    exact hself
  · have hother : s.task d' = some u := (task_setTask_ne hd t).symm.trans hu
    exact (h d' u hother).other (hside d' hd) (hsticky d' hd) (hqueue d' hd)

/-- The tasks after bytes of one direction were counted. -/
theorem inv_advance (h : Inv s) {n : Nat}
    (hself : Tracked (s.object.advance n d) d
      { t with pending := t.pending ++ Socket.queued d es })
    (hqueue : ∀ d', d' ≠ d → Socket.queued d' es = []) :
    Inv ((s.setTask d t).submit (s.object.advance n d) es) :=
  inv_submit h hself (fun _ hd => ReadWriteBytes.side_advance_ne hd)
    (fun d' _ => ReadWriteBytes.sticky_advance s.object d d' n) hqueue

/-- A call asks for its whole buffer. -/
theorem begin_inv (h : Inv s) {buf len : Nat} {all : Bool}
    {handler : Script vocabulary ReadWriteBytes}
    (hrun : handler.run {} = .ok (object, EventState.queueUring {} d.op (prepRw buf len)))
    (hpos : 0 < len) (hsmall : len < 2 ^ 31) (hself : object.side d = ⟨buf, len, 0⟩)
    (hall : object.sticky d = all)
    (hside : ∀ d', d' ≠ d → object.side d' = s.object.side d')
    (hsticky : ∀ d', d' ≠ d → object.sticky d' = s.object.sticky d')
    (hstep : s.begin d buf len all handler = .ok s') : Inv s' := by
  unfold Socket.begin at hstep
  rw [hrun] at hstep
  obtain rfl := Except.ok.inj hstep
  apply inv_submit h
  · rw [queued_queueUring, prepRw_eq hsmall]
    exact ⟨.running trivial hpos rfl rfl fun _ => rfl, hsmall, fun _ => hself, fun _ => hall⟩
  · exact hside
  · exact hsticky
  · exact fun d' hd => queued_queueUring_ne hd _

/-- A task with a request is in the first of its states. -/
theorem Task.Exact.of_pending (h : t.Exact) {req : Sqe} {pending : List Sqe}
    (hpending : t.pending = req :: pending) :
    Follows t.buf t.len t.answered ∧ bytes t.answered < t.len ∧
      req = ⟨t.buf + bytes t.answered, t.len - bytes t.answered⟩ ∧ pending = [] ∧
      t.reports = [] ∧ (t.all = false → t.answered = []) := by
  cases h with
  | running hfollows hleft hreq hreports hone =>
    obtain ⟨rfl, rfl⟩ := List.cons.inj (hpending.symm.trans hreq)
    exact ⟨hfollows, hleft, rfl, rfl, hreports, hone⟩
  | finished _ _ hnone _ => exact absurd (hpending.symm.trans hnone) (List.cons_ne_nil _ _)
  | failed _ _ _ _ _ _ hnone _ => exact absurd (hpending.symm.trans hnone) (List.cons_ne_nil _ _)

/-- A result that is not positive ends the task. -/
theorem Tracked.fail (h : Tracked object d t) {req : Sqe} {pending : List Sqe}
    (hpending : t.pending = req :: pending) (hfail : r ≤ 0) :
    Tracked object d { t with
      answered := t.answered ++ [(req, r)]
      pending := pending ++ Socket.queued d {}
      reports := t.reports ++ [(true, r)] } := by
  obtain ⟨hfollows, hleft, rfl, rfl, hreports, -⟩ := h.exact.of_pending hpending
  have hnone : ([] : List Sqe) ++ Socket.queued d {} = [] := rfl
  rw [hnone, hreports]
  exact ⟨.failed t.answered r hfollows hleft rfl hfail rfl rfl, h.small,
    fun hne => absurd rfl hne, fun hne => absurd rfl hne⟩

/-- A positive result either leaves a rest, which is requested next, or completes the task. -/
theorem Tracked.advance (h : Tracked object d t) {req : Sqe} {pending : List Sqe}
    (hpending : t.pending = req :: pending) (hpos : 0 < r) (hle : r ≤ req.len) :
    (object.sticky d = true ∧ 0 < (object.side d).bytesLeft - r.toNat →
      Tracked (object.advance r.toNat d) d { t with
        answered := t.answered ++ [(req, r)]
        pending := pending ++ [object.nextRequest d r.toNat] }) ∧
    (¬ (object.sticky d = true ∧ 0 < (object.side d).bytesLeft - r.toNat) →
      Tracked (object.advance r.toNat d) d { t with
        answered := t.answered ++ [(req, r)]
        pending := pending
        reports := t.reports ++ [(false, toInt ((object.side d).totalProcessed + r.toNat))] }) := by
  have hne : t.pending ≠ [] := by
    rw [hpending]
    exact List.cons_ne_nil _ _
  have hside := h.side hne
  have hsticky := h.sticky hne
  have hsmall := h.small
  obtain ⟨hfollows, hleft, rfl, rfl, hreports, hone⟩ := h.exact.of_pending hpending
  dsimp only at hle
  -- the request that was answered begins behind the bytes so far, so its range follows theirs
  have hnext := hfollows.snoc hpos hle
  have hbytes : bytes (t.answered ++ [(⟨t.buf + bytes t.answered, t.len - bytes t.answered⟩, r)]) =
      bytes t.answered + r.toNat := by
    rw [bytes_append, bytes_singleton]
  have hrest : t.len - bytes t.answered - r.toNat = t.len - (bytes t.answered + r.toNat) :=
    Nat.sub_sub _ _ _
  rw [hside, hsticky]
  dsimp only
  constructor
  -- the next request begins where the answered one ended, and asks for the rest
  · rintro ⟨hall, hmore⟩
    have hreq : object.nextRequest d r.toNat =
        ⟨t.buf + (bytes t.answered + r.toNat), t.len - (bytes t.answered + r.toNat)⟩ := by
      unfold ReadWriteBytes.nextRequest
      rw [hside]
      dsimp only
      rw [hrest, prepRw_eq (Nat.lt_of_le_of_lt (Nat.sub_le _ _) hsmall)]
    refine ⟨.running hnext ?_ ?_ hreports ?_, hsmall, fun _ => ?_, fun _ => ?_⟩
    · rw [hbytes]
      dsimp only
      omega
    · rw [hbytes, hreq, List.nil_append]
    · intro hfalse
      rw [hall] at hfalse
      cases hfalse
    · rw [ReadWriteBytes.side_advance, hside, hbytes]
      exact congrArg (fun left => Side.mk t.buf left _) hrest
    · rw [ReadWriteBytes.sticky_advance, hsticky]
  -- the count is below 2 GiB, so the code is the number of bytes
  · intro hdone
    have hcode : toInt (bytes t.answered + r.toNat) = ((bytes t.answered + r.toNat : Nat) : Int) :=
      Int.bmod_eq_of_le (by omega) (by omega)
    rw [hreports, hcode, ← hbytes]
    refine ⟨.finished hnext ?_ rfl rfl, hsmall, fun hne => absurd rfl hne,
      fun hne => absurd rfl hne⟩
    -- a task that needs all of its bytes is done only when nothing is left
    intro hall
    have hzero := not_and.1 hdone hall
    dsimp only
    rw [hbytes]
    omega

/-- A result keeps the tasks of both directions. -/
theorem result_inv (h : Inv s) (hallowed : s.Allowed (.result d r))
    (hstep : s.step (.result d r) = .ok s') : Inv s' := by
  unfold Socket.step at hstep
  cases htask : s.task d with
  | none =>
    simp only [htask] at hstep
    cases hstep
  | some t =>
    cases hpending : t.pending with
    | nil =>
      simp only [htask, hpending] at hstep
      cases hstep
    | cons req pending =>
      have htracked := h d t htask
      have hle := hallowed t htask req (congrArg List.head? hpending)
      rcases Int.lt_or_le 0 r with hpos | hfail
      -- the two branches of `prepare_read` and `prepare_write`
      · obtain ⟨hmore, hlast⟩ := htracked.advance hpending hpos hle
        simp only [htask, hpending, ReadWriteBytes.onYield_pos s.object d hpos] at hstep
        split at hstep
        · next hcase =>
          obtain rfl := Except.ok.inj hstep
          refine inv_advance h ?_ fun d' hd => queued_queueUring_ne hd _
          rw [queued_queueUring, Option.toList_none, List.append_nil]
          exact hmore hcase
        · next hcase =>
          obtain rfl := Except.ok.inj hstep
          have hnone : pending ++ Socket.queued d {} = pending := List.append_nil pending
          refine inv_advance h ?_ fun _ _ => rfl
          rw [Option.toList_some, hnone]
          exact hlast hcase
      -- `on_yield` returns the result as it is and requests nothing
      · simp only [htask, hpending, ReadWriteBytes.onYield_fail s.object d hfail] at hstep
        obtain rfl := Except.ok.inj hstep
        apply inv_submit h
        · exact htracked.fail hpending hfail
        · exact fun _ _ => rfl
        · exact fun _ _ => rfl
        · exact fun _ _ => rfl

/-- Every action keeps the tasks. -/
theorem step_inv (h : Inv s) {a : Action} (hallowed : s.Allowed a) (hstep : s.step a = .ok s') :
    Inv s' := by
  cases a with
  | read buf len readAll =>
    obtain ⟨hpos, hsmall, -⟩ := hallowed
    have hbegin : s.begin .read buf len readAll (s.object.read buf len readAll) = .ok s' := hstep
    have hrun : (s.object.read buf len readAll).run {} = .ok (
        { s.object with
          stickyRead := readAll, readBuffer := buf, readBytesLeft := len, readTotalProcessed := 0 },
        EventState.queueUring {} Direction.read.op (prepRw buf len)) := rfl
    -- the fields of the write are not touched
    refine begin_inv h hrun hpos hsmall rfl rfl (fun d' hd => ?_) (fun d' hd => ?_) hbegin
    · obtain rfl := Direction.eq_write hd
      rfl
    · obtain rfl := Direction.eq_write hd
      rfl
  | write buf len =>
    obtain ⟨hpos, hsmall, -⟩ := hallowed
    have hbegin : s.begin .write buf len true (s.object.write buf len) = .ok s' := hstep
    have hrun : (s.object.write buf len).run {} = .ok (
        { s.object with writeBuffer := buf, writeBytesLeft := len, writeTotalProcessed := 0 },
        EventState.queueUring {} Direction.write.op (prepRw buf len)) := rfl
    refine begin_inv h hrun hpos hsmall rfl rfl (fun d' hd => ?_) (fun d' hd => ?_) hbegin
    · obtain rfl := Direction.eq_read hd
      rfl
    · obtain rfl := Direction.eq_read hd
      rfl
  | result d r => exact result_inv h hallowed hstep

end Runs

/-- In every run the requests of a task, and the bytes that are transferred, go through its buffer from
the first byte to the last, whatever happens in the other direction. The task reports one success,
with all of its bytes, or one failure, after which it requests nothing. -/
theorem transfers_exact (object : ReadWriteBytes) {s : Socket}
    (h : Reached Socket.step Socket.Allowed { object } s) {d : Direction} {t : Task}
    (ht : s.task d = some t) :
    t.Exact ∧ ∃ answered, Follows t.buf t.len answered ∧ answered <+: t.answered ∧
      addresses answered = List.range' t.buf (bytes answered) ∧ bytes answered ≤ t.len := by
  have hstart : Inv { object } := by
    intro d t ht
    cases ht
  have hinv := h.invariant hstart fun s a s' hs hallowed hstep => step_inv hs hallowed hstep
  have hexact := (hinv d t ht).exact
  refine ⟨hexact, ?_⟩
  -- in the last state the ranges are those before the failure
  cases hexact with
  | running hfollows _ _ _ _ =>
    exact ⟨_, hfollows, List.prefix_rfl, hfollows.addresses_eq, hfollows.bytes_le⟩
  | finished hfollows _ _ _ =>
    exact ⟨_, hfollows, List.prefix_rfl, hfollows.addresses_eq, hfollows.bytes_le⟩
  | failed answered r hfollows hleft hanswered _ _ _ =>
    refine ⟨_, hfollows, ?_, hfollows.addresses_eq, hfollows.bytes_le⟩
    rw [hanswered]
    exact List.prefix_append _ _

/-- A read of four bytes and a write of three, of which the kernel sends one and then two. -/
def bothWays : List Action :=
  [.read 100 4 true, .write 200 3, .result .write 1, .result .read 4, .result .write 2]

theorem transfers_exact_both_ways : ∃ t : Task,
    t.answered = [(⟨200, 3⟩, 1), (⟨201, 2⟩, 2)] ∧ t.reports = [(false, 3)] ∧ t.Exact := by
  have hrun : (runActions Socket.step bothWays {}).map (fun s => s.task .write) =
      .ok (some ⟨200, 3, true, [(⟨200, 3⟩, 1), (⟨201, 2⟩, 2)], [], [(false, 3)]⟩) := by
    decide +kernel
  obtain ⟨s, hs, htask⟩ := exists_of_map_eq_ok hrun
  have hmeets : Meets Socket.step Socket.Allowed bothWays {} := by
    decide +kernel
  have hreached := reached_of_runActions .start hmeets hs
  exact ⟨_, rfl, rfl, (transfers_exact {} hreached htask).1⟩

end LocalSoftware.ByteRanges
