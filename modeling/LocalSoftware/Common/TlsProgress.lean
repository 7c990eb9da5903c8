import LocalSoftware.Common.TlsSocket

/-!
# The progress of TLS tasks

A `Link` is a TLS socket with its byte socket: the calls of `read` and `write` whose results were
not reported yet, the operations of the byte socket that are running, and the tasks that will be
told about the end of an operation, because they started it or attached to it. `NoneLost` is the
progress property: every task without a result waits for such a message.

`lossless_iff_served` says when it holds in every state of a run. It fails where a call of `read`
or `write` decides its task at once, since the result is dropped, where a task is served after the
handshake failed, where a task attaches to an operation that ended before, and where a message is
for a task that a later call has displaced.
-/

set_option autoImplicit false

namespace LocalSoftware.Tls

open TlsSocket

/-- A task that is told about the end of an operation, with the return code once there is one. -/
structure Waiter where
  op : Id
  proc : Nat
  result : Option Int := none
deriving DecidableEq, Repr

/-- A task that waits for `op` will be told its return code. -/
def Waiter.complete (op : Id) (rc : Int) (w : Waiter) : Waiter :=
  if w.op = op ∧ w.result = none then { w with result := some rc } else w

@[simp] theorem Waiter.proc_complete (op : Id) (rc : Int) (w : Waiter) :
    (w.complete op rc).proc = w.proc := by
  unfold Waiter.complete
  split <;> rfl

/-- A TLS socket with its byte socket. -/
structure Link where
  tls : TlsSocket
  data : IoUringData vocabulary
  running : List Id := []
  waiters : List Waiter := []
  unreported : List Nat := []

/-- What happens to a link. -/
inductive Input where
  /-- `read` is called for the task `id`. -/
  | read (id : Nat) (len : Nat) (readAll : Bool) (answers : List SslAnswer)
  /-- `write` is called for the task `id`. -/
  | write (id : Nat) (data : Str) (answers : List SslAnswer)
  /-- The byte socket ends an operation. -/
  | completes (op : Id) (rc : Int)
  /-- The end of an operation is reported to a task that waits for it. -/
  | notifies (op : Id) (proc : Nat) (status : CallStatus) (rc : Int) (answers : List SslAnswer)

namespace Link

/-- What a handler queued for the task `p`: the operations that it started run, and an attachment
takes effect if the operation is running. -/
def settle (c : Link) (p : Nat) (tls : TlsSocket) (es : EventState vocabulary) : Link :=
  let started := es.function.map (·.localId)
  let running := c.running ++ started
  let attached := (es.attach.map (·.targetLocalId)).filter (· ∈ running)
  { c with
    tls, running
    data := es.uringData
    waiters := c.waiters ++ (started ++ attached).map fun op => { op, proc := p } }

/-- A called function returns. -/
def call (c : Link) (id : Nat) (f : Script vocabulary (CallResponse × TlsSocket)) :
    Except Fault Link :=
  match f.run { uringData := c.data } with
  | .error e => .error e
  | .ok ((resp, tls), es) => .ok { c.settle id tls es with
      unreported := if resp.ret.isNone then id :: c.unreported else c.unreported }

/-- The completion that a task is told about. -/
def message (op : Id) (proc : Nat) (status : CallStatus) (rc : Int) : ChildTaskCompletion where
  callingId := some proc
  taskId := op
  status := status
  returnCode := rc

/-- One event of a link. -/
def step (c : Link) : Input → Except Fault Link
  | .read id len readAll answers => c.call id (c.tls.read (some id) len readAll answers)
  | .write id data answers => c.call id (c.tls.write (some id) data answers)
  | .completes op rc => .ok { c with
      running := c.running.filter (· ≠ op)
      waiters := c.waiters.map (Waiter.complete op rc) }
  | .notifies op proc status rc answers =>
    match (c.tls.onYield answers (.childTaskCompletion (message op proc status rc))).run
        { uringData := c.data } with
    | .error e => .error e
    | .ok ((y, tls), es) =>
      let c := { c with waiters := c.waiters.erase { op, proc, result := some rc } }
      .ok { c.settle proc tls es with
        unreported := if y.isSome then c.unreported.filter (· ≠ proc) else c.unreported }

/-- A link whose byte socket is constructed. -/
def start (server : Bool) : Link where
  tls := { server }
  data := ({} : IoUringData vocabulary).setSlots () [some { event := some 1 }]

/-- Every task whose result was not reported waits for an operation. -/
def NoneLost (c : Link) : Prop := ∀ p ∈ c.unreported, ∃ w ∈ c.waiters, w.proc = p

/-- What can happen: a new task, the end of a running operation, and a report of such an end. -/
def Possible (c : Link) : Input → Prop
  | .read id _ _ _ => id ∉ c.unreported
  | .write id _ _ => id ∉ c.unreported
  | .completes op _ => op ∈ c.running
  | .notifies op proc _ rc _ => { op, proc, result := some rc } ∈ c.waiters

/-- An operation that a task has to wait for can be started, or is running. -/
def Met (c : Link) (s : TlsSocket) : Need → Prop
  | .result => True
  | .operation d => (s.ops d).2 = true ∨ (s.ops d).1 ∈ c.running
  | .nothing => False

/-- The condition on one event. A call leaves its task undecided, and a successful completion is
for the current reader or writer; what a task needs can be had. -/
def Served (c : Link) : Input → Prop
  | .read id len readAll answers =>
    let s := c.tls.startRead (some id) len readAll
    need readLoopNeed s answers ≠ .result ∧ c.Met s (need readLoopNeed s answers)
  | .write id data answers =>
    let s := c.tls.startWrite (some id) data
    need writeFrameNeed s answers ≠ .result ∧ c.Met s (need writeFrameNeed s answers)
  | .completes _ _ => True
  | .notifies op proc status rc answers =>
    let s := c.tls.finish (message op proc status rc)
    0 < rc →
      (s.taskRead = some proc ∧ c.Met s (need readLoopNeed s answers)) ∨
      (s.taskRead ≠ some proc ∧ s.taskWrite = some proc ∧ c.Met s (need writeFrameNeed s answers))

/-- A condition on the states before the events of a run. -/
def Along (P : Link → Input → Prop) (c : Link) : List Input → Prop
  | [] => True
  | i :: inputs => P c i ∧ ∀ c', c.step i = .ok c' → Along P c' inputs

/-- No event of a run throws, and no task is lost in any of its states. -/
def Lossless (c : Link) : List Input → Prop
  | [] => c.NoneLost
  | i :: inputs => c.NoneLost ∧ ∃ c', c.step i = .ok c' ∧ Lossless c' inputs

/-- What every run keeps as long as no task is lost. -/
structure Inv (c : Link) : Prop where
  slot : ∃ info, c.data.evinfo () 0 = .ok info
  /-- No task waits twice, and a task with a result does not wait. -/
  once : (c.waiters.map Waiter.proc).Nodup
  owed : ∀ w ∈ c.waiters, w.proc ∈ c.unreported
  noneLost : c.NoneLost

variable {c c' : Link} {s s' : TlsSocket} {es' : EventState vocabulary} {n : Need} {y : Yielded}
  {p : Nat}

theorem start_inv (server : Bool) : (start server).Inv where
  slot := ⟨{ event := some 1 }, rfl⟩
  once := List.nodup_nil
  owed := by simp [start]
  noneLost := by simp [start, NoneLost]

/-! ## One turn -/

/-- The slot of the byte socket stays. -/
theorem slot_settle (h : ∃ info, c.data.evinfo () 0 = .ok info)
    (ht : Turn s { uringData := c.data } n y s' es') :
    ∃ info, (c.settle p s' es').data.evinfo () 0 = .ok info := by
  obtain ⟨info, h⟩ := h
  cases ht with
  | result r _ => exact ⟨info, h⟩
  | start d fn _ _ _ _ => exact ⟨info, h⟩
  | attach d _ _ => exact ⟨info, h⟩
  | idle _ => exact ⟨info, h⟩

theorem isSome_iff_result (ht : Turn s { uringData := c.data } n y s' es') :
    y.isSome ↔ n = .result := by
  cases ht with
  | result r _ => simp
  | start d fn _ _ _ _ => simp
  | attach d _ _ => simp
  | idle _ => simp

/-- A task whose need is met waits afterwards. -/
theorem waiters_of_met (ht : Turn s { uringData := c.data } n y s' es') (hn : n ≠ .result)
    (hmet : c.Met s n) : ∃ op, (c.settle p s' es').waiters = c.waiters ++ [{ op, proc := p }] := by
  cases ht with
  | result r _ => exact absurd rfl hn
  | start d fn _ _ _ _ => exact ⟨some c.data.localProcId, rfl⟩
  | attach d hfin _ =>
    have hrun : (s.ops d).1 ∈ c.running := by
      rcases hmet with hfin' | hrun
      · rw [hfin] at hfin'
        exact absurd hfin' Bool.false_ne_true
      · exact hrun
    refine ⟨(s.ops d).1, ?_⟩
    simp [settle, EventState.queueAttach, hrun]
  | idle _ => exact absurd hmet id

/-- A task with a result, or one whose need is not met, does not wait. -/
theorem waiters_of_not_met (ht : Turn s { uringData := c.data } n y s' es')
    (hn : n = .result ∨ ¬ c.Met s n) : (c.settle p s' es').waiters = c.waiters := by
  cases ht with
  | result r _ => exact List.append_nil _
  | start d fn hfin _ _ _ =>
    have hmet : c.Met s (.operation d) := Or.inl hfin
    exact absurd hmet (hn.resolve_left (by simp))
  | attach d hfin _ =>
    have hstopped : (s.ops d).1 ∉ c.running := fun hrun => by
      have hmet : c.Met s (.operation d) := Or.inr hrun
      exact absurd hmet (hn.resolve_left (by simp))
    simp [settle, EventState.queueAttach, hstopped]
  | idle _ => exact List.append_nil _

/-! ## Calls -/

theorem mem_waiters_ne (h : c.Inv) {id : Nat} (hid : id ∉ c.unreported) (w : Waiter)
    (hw : w ∈ c.waiters) : w.proc ≠ id := fun heq => hid (heq ▸ h.owed w hw)

/-- A called function that leaves its task undecided and its need met. -/
theorem call_inv (h : c.Inv) {id : Nat} (hid : id ∉ c.unreported) {resp : CallResponse}
    {f : Script vocabulary (CallResponse × TlsSocket)} (hresp : resp.ret = none)
    (hrun : f.run { uringData := c.data } = .ok ((resp, s'), es'))
    (ht : Turn s { uringData := c.data } n y s' es') (hn : n ≠ .result) (hmet : c.Met s n) :
    ∃ c', c.call id f = .ok c' ∧ c'.Inv := by
  obtain ⟨op, hwaiters⟩ := waiters_of_met (p := id) ht hn hmet
  refine ⟨{ c.settle id s' es' with unreported := id :: c.unreported }, ?_, ?_⟩
  · simp only [call, hrun, hresp, Option.isNone_none, if_true]
  · constructor
    · exact slot_settle (p := id) h.slot ht
    · show ((c.settle id s' es').waiters.map Waiter.proc).Nodup
      rw [hwaiters, List.map_append, List.nodup_append]
      refine ⟨h.once, List.nodup_cons.mpr ⟨List.not_mem_nil, List.nodup_nil⟩, ?_⟩
      intro a ha b hb
      obtain ⟨w, hw, rfl⟩ := List.mem_map.mp ha
      obtain rfl : b = id := by simpa using hb
      exact mem_waiters_ne h hid w hw
    · intro w hw
      rw [show (_ : Link).waiters = _ from hwaiters, List.mem_append, List.mem_singleton] at hw
      rcases hw with hw | rfl
      · exact List.mem_cons_of_mem _ (h.owed w hw)
      · exact List.mem_cons_self
    · intro q hq
      show ∃ w ∈ (c.settle id s' es').waiters, w.proc = q
      rw [hwaiters]
      rcases List.mem_cons.mp hq with rfl | hq
      · exact ⟨_, List.mem_append_right _ List.mem_cons_self, rfl⟩
      · obtain ⟨w, hw, hproc⟩ := h.noneLost q hq
        exact ⟨w, List.mem_append_left _ hw, hproc⟩

/-- A called function that decides its task, or cannot have what the task needs. -/
theorem call_lost (h : c.Inv) {id : Nat} (hid : id ∉ c.unreported) {resp : CallResponse}
    {f : Script vocabulary (CallResponse × TlsSocket)} (hresp : resp.ret = none)
    (hrun : f.run { uringData := c.data } = .ok ((resp, s'), es'))
    (ht : Turn s { uringData := c.data } n y s' es') (hn : n = .result ∨ ¬ c.Met s n)
    (hstep : c.call id f = .ok c') : ¬ c'.NoneLost := by
  have hwaiters := waiters_of_not_met (p := id) ht hn
  simp only [call, hrun, hresp, Option.isNone_none, if_true, Except.ok.injEq] at hstep
  subst hstep
  intro hlost
  obtain ⟨w, hw, hproc⟩ := hlost id List.mem_cons_self
  rw [show (_ : Link).waiters = _ from hwaiters] at hw
  exact mem_waiters_ne h hid w hw hproc

/-- The two functions return no result of their task. -/
theorem run_read (h : c.Inv) (id : Id) (len : Nat) (readAll : Bool) (answers : List SslAnswer) :
    ∃ y s' es', (c.tls.read id len readAll answers).run { uringData := c.data } =
        .ok ((readResponse, s'), es') ∧
      Turn (c.tls.startRead id len readAll) { uringData := c.data }
        (need readLoopNeed (c.tls.startRead id len readAll) answers) y s' es' := by
  obtain ⟨info, hslot⟩ := h.slot
  obtain ⟨y, s', es', hrun, hturn⟩ := @handleRead_turn { uringData := c.data } info hslot
    (c.tls.startRead id len readAll) answers
  refine ⟨y, s', es', ?_, hturn⟩
  simp only [TlsSocket.read, Script.run_bind, hrun, Script.run_pure]

theorem run_write (h : c.Inv) (id : Id) (data : Str) (answers : List SslAnswer) :
    ∃ y s' es', (c.tls.write id data answers).run { uringData := c.data } =
        .ok ((writeResponse, s'), es') ∧
      Turn (c.tls.startWrite id data) { uringData := c.data }
        (need writeFrameNeed (c.tls.startWrite id data) answers) y s' es' := by
  obtain ⟨info, hslot⟩ := h.slot
  obtain ⟨y, s', es', hrun, hturn⟩ := @handleWrite_turn { uringData := c.data } info hslot
    (c.tls.startWrite id data) answers
  refine ⟨y, s', es', ?_, hturn⟩
  simp only [TlsSocket.write, Script.run_bind, hrun, Script.run_pure]

/-! ## Completions -/

/-- The end of an operation changes no task. -/
theorem completes_inv (h : c.Inv) (op : Id) (rc : Int) :
    ∃ c', c.step (.completes op rc) = .ok c' ∧ c'.Inv := by
  have hprocs : (c.waiters.map (Waiter.complete op rc)).map Waiter.proc =
      c.waiters.map Waiter.proc := by
    rw [List.map_map]
    exact List.map_congr_left fun w _ => Waiter.proc_complete op rc w
  refine ⟨_, rfl, ?_⟩
  constructor
  · exact h.slot
  · exact hprocs ▸ h.once
  · intro w hw
    obtain ⟨w₀, hw₀, rfl⟩ := List.mem_map.mp hw
    rw [Waiter.proc_complete]
    exact h.owed w₀ hw₀
  · intro q hq
    obtain ⟨w, hw, rfl⟩ := h.noneLost q hq
    exact ⟨_, List.mem_map_of_mem hw, Waiter.proc_complete op rc w⟩

/-- The message that is delivered is the only one for its task. -/
theorem mem_erase_ne (h : c.Inv) {w v : Waiter} (hw : w ∈ c.waiters)
    (hv : v ∈ c.waiters.erase w) : v.proc ≠ w.proc := by
  intro heq
  have hperm := List.perm_cons_erase hw
  have honce : (w.proc :: (c.waiters.erase w).map Waiter.proc).Nodup :=
    (hperm.map Waiter.proc).nodup_iff.mp h.once
  exact (List.nodup_cons.mp honce).1 (heq ▸ List.mem_map_of_mem hv)

/-- The other tasks still wait. -/
theorem mem_erase_of_ne (h : c.Inv) {w : Waiter} {q : Nat} (hq : q ∈ c.unreported)
    (hne : q ≠ w.proc) : ∃ v ∈ c.waiters.erase w, v.proc = q := by
  obtain ⟨v, hv, rfl⟩ := h.noneLost q hq
  refine ⟨v, (List.mem_erase_of_ne ?_).mpr hv, rfl⟩
  rintro rfl
  exact hne rfl

section Notifies

variable {op : Id} {proc : Nat} {status : CallStatus} {rc : Int} {answers : List SslAnswer}

/-- A task that has a result now, or waits again. -/
theorem notifies_inv (h : c.Inv) (hw : { op, proc, result := some rc } ∈ c.waiters)
    (hrun : (c.tls.onYield answers (.childTaskCompletion (message op proc status rc))).run
      { uringData := c.data } = .ok ((y, s'), es'))
    (ht : Turn s { uringData := c.data } n y s' es') (hmet : c.Met s n) :
    ∃ c', c.step (.notifies op proc status rc answers) = .ok c' ∧ c'.Inv := by
  let w : Waiter := { op, proc, result := some rc }
  let c₁ : Link := { c with waiters := c.waiters.erase w }
  have honce : (c₁.waiters.map Waiter.proc).Nodup :=
    (h.once.sublist (List.erase_sublist.map Waiter.proc))
  -- the other waiters wait for other tasks
  have hother : ∀ v ∈ c₁.waiters, v.proc ≠ proc := fun v hv => mem_erase_ne h hw hv
  have howed : ∀ v ∈ c₁.waiters, v.proc ∈ c.unreported :=
    fun v hv => h.owed v (List.mem_of_mem_erase hv)
  refine ⟨{ c₁.settle proc s' es' with
    unreported := if y.isSome then c.unreported.filter (· ≠ proc) else c.unreported }, ?_, ?_⟩
  · simp only [step, hrun]
    rfl
  by_cases hn : n = .result
  · -- the result is reported
    have hsome : y.isSome = true := (isSome_iff_result ht).mpr hn
    have hwaiters := waiters_of_not_met (c := c₁) (p := proc) ht (Or.inl hn)
    constructor
    · exact slot_settle (c := c₁) (p := proc) h.slot ht
    · show ((c₁.settle proc s' es').waiters.map Waiter.proc).Nodup
      rw [hwaiters]
      exact honce
    · intro v hv
      rw [show (_ : Link).waiters = _ from hwaiters] at hv
      show v.proc ∈ if y.isSome then c.unreported.filter (· ≠ proc) else c.unreported
      rw [if_pos hsome, List.mem_filter]
      exact ⟨howed v hv, decide_eq_true (hother v hv)⟩
    · intro q hq
      rw [show (_ : Link).unreported = _ from if_pos hsome, List.mem_filter] at hq
      show ∃ v ∈ (c₁.settle proc s' es').waiters, v.proc = q
      rw [hwaiters]
      exact mem_erase_of_ne h hq.1 (of_decide_eq_true hq.2)
  · -- the task waits for the next operation
    have hnone : ¬ y.isSome = true := fun hsome => hn ((isSome_iff_result ht).mp hsome)
    obtain ⟨op', hwaiters⟩ := waiters_of_met (c := c₁) (p := proc) ht hn hmet
    constructor
    · exact slot_settle (c := c₁) (p := proc) h.slot ht
    · show ((c₁.settle proc s' es').waiters.map Waiter.proc).Nodup
      rw [hwaiters, List.map_append, List.nodup_append]
      refine ⟨honce, List.nodup_cons.mpr ⟨List.not_mem_nil, List.nodup_nil⟩, ?_⟩
      intro a ha b hb
      obtain ⟨v, hv, rfl⟩ := List.mem_map.mp ha
      obtain rfl : b = proc := by simpa using hb
      exact hother v hv
    · intro v hv
      rw [show (_ : Link).waiters = _ from hwaiters, List.mem_append, List.mem_singleton] at hv
      show v.proc ∈ if y.isSome then c.unreported.filter (· ≠ proc) else c.unreported
      rw [if_neg hnone]
      rcases hv with hv | rfl
      · exact howed v hv
      · exact h.owed w hw
    · intro q hq
      rw [show (_ : Link).unreported = _ from if_neg hnone] at hq
      show ∃ v ∈ (c₁.settle proc s' es').waiters, v.proc = q
      rw [hwaiters]
      by_cases hqp : q = proc
      · exact ⟨_, List.mem_append_right _ List.mem_cons_self, hqp.symm⟩
      · obtain ⟨v, hv, hproc⟩ := mem_erase_of_ne h (w := w) hq hqp
        exact ⟨v, List.mem_append_left _ hv, hproc⟩

/-- A task that needs an operation and cannot have it. -/
theorem notifies_lost (h : c.Inv) (hw : { op, proc, result := some rc } ∈ c.waiters)
    (hrun : (c.tls.onYield answers (.childTaskCompletion (message op proc status rc))).run
      { uringData := c.data } = .ok ((y, s'), es'))
    (ht : Turn s { uringData := c.data } n y s' es') (hmet : ¬ c.Met s n)
    (hstep : c.step (.notifies op proc status rc answers) = .ok c') : ¬ c'.NoneLost := by
  let c₁ : Link := { c with waiters := c.waiters.erase { op, proc, result := some rc } }
  have hn : n ≠ .result := by
    rintro rfl
    exact hmet trivial
  have hnone : ¬ y.isSome = true := fun hsome => hn ((isSome_iff_result ht).mp hsome)
  have hwaiters := waiters_of_not_met (c := c₁) (p := proc) ht (Or.inr hmet)
  simp only [step, hrun, if_neg hnone, Except.ok.injEq] at hstep
  subst hstep
  intro hlost
  obtain ⟨v, hv, hproc⟩ := hlost proc (h.owed _ hw)
  rw [show (_ : Link).waiters = _ from hwaiters] at hv
  exact mem_erase_ne h hw hv hproc

/-- A failed operation is a result of the task. -/
theorem run_onYield_failed (c : Link) (hrc : rc ≤ 0) :
    ∃ y, (c.tls.onYield answers (.childTaskCompletion (message op proc status rc))).run
        { uringData := c.data } = .ok ((y, c.tls), { uringData := c.data }) ∧
      Turn c.tls { uringData := c.data } .result y c.tls { uringData := c.data } := by
  refine ⟨some (true, rc), ?_, .result _ (SameTasks.refl _)⟩
  have hle : (message op proc status rc).returnCode ≤ 0 := hrc
  simp only [onYield, if_pos hle]
  rfl

theorem run_onYield_read (h : c.Inv) (hrc : 0 < rc)
    (hproc : (c.tls.finish (message op proc status rc)).taskRead = some proc) :
    ∃ y s' es', (c.tls.onYield answers (.childTaskCompletion (message op proc status rc))).run
        { uringData := c.data } = .ok ((y, s'), es') ∧
      Turn (c.tls.finish (message op proc status rc)) { uringData := c.data }
        (need readLoopNeed (c.tls.finish (message op proc status rc)) answers) y s' es' := by
  obtain ⟨info, hslot⟩ := h.slot
  obtain ⟨y, s', es', hrun, hturn⟩ := @handleRead_turn { uringData := c.data } info hslot
    (c.tls.finish (message op proc status rc)) answers
  refine ⟨y, s', es', ?_, hturn⟩
  have hcall : (message op proc status rc).callingId =
    (c.tls.finish (message op proc status rc)).taskRead := hproc.symm
  have hneg : ¬ (message op proc status rc).returnCode ≤ 0 := Int.not_le.mpr hrc
  simp only [onYield, if_neg hneg, if_pos hcall, hrun]

theorem run_onYield_write (h : c.Inv) (hrc : 0 < rc)
    (hread : (c.tls.finish (message op proc status rc)).taskRead ≠ some proc)
    (hproc : (c.tls.finish (message op proc status rc)).taskWrite = some proc) :
    ∃ y s' es', (c.tls.onYield answers (.childTaskCompletion (message op proc status rc))).run
        { uringData := c.data } = .ok ((y, s'), es') ∧
      Turn (c.tls.finish (message op proc status rc)) { uringData := c.data }
        (need writeFrameNeed (c.tls.finish (message op proc status rc)) answers) y s' es' := by
  obtain ⟨info, hslot⟩ := h.slot
  obtain ⟨y, s', es', hrun, hturn⟩ := @handleWrite_turn { uringData := c.data } info hslot
    (c.tls.finish (message op proc status rc)) answers
  refine ⟨y, s', es', ?_, hturn⟩
  have hcall : (message op proc status rc).callingId =
    (c.tls.finish (message op proc status rc)).taskWrite := hproc.symm
  have hother : ¬ (message op proc status rc).callingId =
    (c.tls.finish (message op proc status rc)).taskRead := fun heq => hread heq.symm
  have hneg : ¬ (message op proc status rc).returnCode ≤ 0 := Int.not_le.mpr hrc
  simp only [onYield, if_neg hneg, if_neg hother, if_pos hcall, hrun]

/-- A message for a task that a later call has displaced. -/
theorem run_onYield_unknown (c : Link) (hrc : 0 < rc)
    (hread : (c.tls.finish (message op proc status rc)).taskRead ≠ some proc)
    (hwrite : (c.tls.finish (message op proc status rc)).taskWrite ≠ some proc) :
    (c.tls.onYield answers (.childTaskCompletion (message op proc status rc))).run
      { uringData := c.data } = .error (.runtimeError "Unknown task type") := by
  have hother : ¬ (message op proc status rc).callingId =
    (c.tls.finish (message op proc status rc)).taskRead := fun heq => hread heq.symm
  have hother' : ¬ (message op proc status rc).callingId =
    (c.tls.finish (message op proc status rc)).taskWrite := fun heq => hwrite heq.symm
  have hneg : ¬ (message op proc status rc).returnCode ≤ 0 := Int.not_le.mpr hrc
  simp only [onYield, if_neg hneg, if_neg hother, if_neg hother', Script.run_throw]

end Notifies

/-! ## Runs -/

/-- An event that meets the condition keeps the invariant. -/
theorem step_inv (h : c.Inv) {i : Input} (hp : c.Possible i) (hs : c.Served i) :
    ∃ c', c.step i = .ok c' ∧ c'.Inv := by
  cases i with
  | read id len readAll answers =>
    obtain ⟨y, s', es', hrun, hturn⟩ := run_read h (some id) len readAll answers
    exact call_inv h hp rfl hrun hturn hs.1 hs.2
  | write id data answers =>
    obtain ⟨y, s', es', hrun, hturn⟩ := run_write h (some id) data answers
    exact call_inv h hp rfl hrun hturn hs.1 hs.2
  | completes op rc => exact completes_inv h op rc
  | notifies op proc status rc answers =>
    by_cases hrc : 0 < rc
    · rcases hs hrc with ⟨hread, hmet⟩ | ⟨hread, hwrite, hmet⟩
      · obtain ⟨y, s', es', hrun, hturn⟩ := run_onYield_read h hrc hread
        exact notifies_inv h hp hrun hturn hmet
      · obtain ⟨y, s', es', hrun, hturn⟩ := run_onYield_write h hrc hread hwrite
        exact notifies_inv h hp hrun hturn hmet
    · obtain ⟨y, hrun, hturn⟩ := run_onYield_failed c (Int.not_lt.mp hrc)
      exact notifies_inv h hp hrun hturn trivial

/-- An event that does not meet the condition loses a task. -/
theorem step_lost (h : c.Inv) {i : Input} (hp : c.Possible i) (hs : ¬ c.Served i)
    (hstep : c.step i = .ok c') : ¬ c'.NoneLost := by
  cases i with
  | read id len readAll answers =>
    obtain ⟨y, s', es', hrun, hturn⟩ := run_read h (some id) len readAll answers
    refine call_lost h hp rfl hrun hturn ?_ hstep
    by_contra hn
    exact hs ⟨fun heq => hn (Or.inl heq), by_contra fun hmet => hn (Or.inr hmet)⟩
  | write id data answers =>
    obtain ⟨y, s', es', hrun, hturn⟩ := run_write h (some id) data answers
    refine call_lost h hp rfl hrun hturn ?_ hstep
    by_contra hn
    exact hs ⟨fun heq => hn (Or.inl heq), by_contra fun hmet => hn (Or.inr hmet)⟩
  | completes op rc => exact absurd trivial hs
  | notifies op proc status rc answers =>
    by_cases hrc : 0 < rc
    · by_cases hread : (c.tls.finish (message op proc status rc)).taskRead = some proc
      · obtain ⟨y, s', es', hrun, hturn⟩ := run_onYield_read h hrc hread
        exact notifies_lost h hp hrun hturn (fun hmet => hs fun _ => Or.inl ⟨hread, hmet⟩) hstep
      · by_cases hwrite : (c.tls.finish (message op proc status rc)).taskWrite = some proc
        · obtain ⟨y, s', es', hrun, hturn⟩ := run_onYield_write h hrc hread hwrite
          exact notifies_lost h hp hrun hturn
            (fun hmet => hs fun _ => Or.inr ⟨hread, hwrite, hmet⟩) hstep
        · have hrun := @run_onYield_unknown op proc status rc answers c hrc hread hwrite
          simp [step, hrun] at hstep
    · exact absurd (fun hpos => absurd hpos hrc) hs

/-- From any state in which no task is lost. -/
theorem lossless_iff_served_of_inv {inputs : List Input} : ∀ {c : Link}, c.Inv →
    Along Possible c inputs → (c.Lossless inputs ↔ Along Served c inputs) := by
  induction inputs with
  | nil =>
    intro c h _
    exact ⟨fun _ => trivial, fun _ => h.noneLost⟩
  | cons i inputs ih =>
    intro c h hp
    constructor
    · rintro ⟨-, c', hstep, hrest⟩
      by_cases hs : c.Served i
      · obtain ⟨c₁, hstep₁, hinv⟩ := step_inv h hp.1 hs
        obtain rfl : c₁ = c' := by simpa [hstep₁] using hstep
        refine ⟨hs, fun c₂ hstep₂ => ?_⟩
        obtain rfl : c₁ = c₂ := by simpa [hstep₁] using hstep₂
        exact (ih hinv (hp.2 c₁ hstep₁)).mp hrest
      · refine absurd ?_ (step_lost h hp.1 hs hstep)
        cases inputs with
        | nil => exact hrest
        | cons _ _ => exact hrest.1
    · rintro ⟨hs, hrest⟩
      obtain ⟨c', hstep, hinv⟩ := step_inv h hp.1 hs
      exact ⟨h.noneLost, c', hstep, (ih hinv (hp.2 c' hstep)).mpr (hrest c' hstep)⟩

/-- No task is lost in any state of a run, and none of its events throws, if and only if each event
meets the condition in the state before it. -/
theorem lossless_iff_served (server : Bool) (inputs : List Input)
    (hp : Along Possible (start server) inputs) :
    (start server).Lossless inputs ↔ Along Served (start server) inputs :=
  lossless_iff_served_of_inv (start_inv server) hp

theorem along_cons {P : Link → Input → Prop} {i : Input} {inputs : List Input} (h : P c i)
    (hstep : c.step i = .ok c') (hrest : Along P c' inputs) : Along P c (i :: inputs) := by
  refine ⟨h, fun c₁ hstep₁ => ?_⟩
  obtain rfl : c' = c₁ := by simpa [hstep] using hstep₁
  exact hrest

theorem along_rest {P : Link → Input → Prop} {i : Input} {inputs : List Input}
    (h : Along P c (i :: inputs)) (hstep : c.step i = .ok c') : Along P c' inputs := h.2 c' hstep

/-- A task reads up to two bytes. OpenSSL waits for input at first, and after eight bytes it ends
the handshake and returns the first two bytes of a record. -/
def firstRead : List Input :=
  [.read 1 2 false [{}],
    .completes (some 0) 8,
    .notifies (some 0) 1 .finished 8
      [{ outcome := .none [] }, { asks := [8], outcome := .none ['a', 'b'] }]]

theorem firstRead_possible (inputs : List Input)
    (h : ∀ c', c'.unreported = [] → Along Possible c' inputs) :
    Along Possible (start true) (firstRead ++ inputs) := by
  refine along_cons List.not_mem_nil rfl ?_
  refine along_cons List.mem_cons_self rfl ?_
  refine along_cons List.mem_cons_self rfl ?_
  exact h _ rfl

/-- This task gets its result. -/
theorem firstRead_lossless : (start true).Lossless firstRead := by
  refine (lossless_iff_served true firstRead ?_).mpr ?_
  · exact firstRead_possible [] fun _ _ => trivial
  · refine along_cons ⟨by decide, Or.inl rfl⟩ rfl ?_
    refine along_cons trivial rfl ?_
    refine along_cons (fun _ => Or.inl ⟨rfl, ?_⟩) rfl trivial
    exact trivial

/-- The next task reads the rest of the record, which OpenSSL returns at once. -/
def secondRead : Input := .read 2 2 false [{ outcome := .none ['c', 'd'] }]

/-- Its result is dropped, and no operation is under way for it. -/
theorem secondRead_lost :
    ¬ ∀ server inputs, Along Possible (start server) inputs → (start server).Lossless inputs := by
  intro h
  have hp : Along Possible (start true) (firstRead ++ [secondRead]) :=
    firstRead_possible [secondRead] fun c' hc' => by
      refine ⟨?_, fun _ _ => trivial⟩
      show 2 ∉ c'.unreported
      rw [hc']
      exact List.not_mem_nil
  have hs := (lossless_iff_served_of_inv (start_inv true) hp).mp (h true _ hp)
  have h₁ := along_rest hs rfl
  have h₂ := along_rest h₁ rfl
  have h₃ := along_rest h₂ rfl
  exact h₃.1.1 rfl

end Link

end LocalSoftware.Tls
