import Mathlib.Algebra.GroupWithZero.Nat
import Mathlib.Data.List.Nodup
import LocalSoftware.Common.TlsSocket
import LocalSoftware.Library.Transition

/-!
# The integrity of TLS streams

A `Stream` is a TLS socket with the operations that it started at its byte socket and the bytes that
arrived. Its runs are all interleavings of calls of `read` and `write`, completions of operations,
and reports of such completions to any task at any later moment. OpenSSL is an oracle that asks for
input only when `osslcb_read` has nothing for it (`Honest`).

`Exchanged` is what OpenSSL does to the buffers and `Armed` what a handler queues at its end;
`handleRead_moved` and `handleWrite_moved` say that a handler does nothing else. From this
`moved_inv` and `finish_inv` follow, and `intact_of_reached`: in every state the bytes that were
passed on and those in `writebuf_` are together the output of OpenSSL, and the bytes that it took
and those that wait at `e_read_` are together the bytes that arrived.
-/

set_option autoImplicit false

namespace LocalSoftware.Tls

/-- OpenSSL asks for input only when `osslcb_read` has nothing for it. There are `size` bytes at
`e_read_` before the first call, and after the last answer OpenSSL asks for input. -/
def Honest (size : Nat) : List SslAnswer → Prop
  | [] => size = 0
  | a :: answers =>
    (a.outcome = .wantRead → size - a.asks.sum = 0) ∧ Honest (size - a.asks.sum) answers

instance instDecidableHonest : (size : Nat) → (answers : List SslAnswer) →
    Decidable (Honest size answers)
  | size, [] => inferInstanceAs (Decidable (size = 0))
  | size, a :: answers =>
    have := instDecidableHonest (size - a.asks.sum) answers
    inferInstanceAs (Decidable (_ ∧ _))

theorem Honest.of_decide {size : Nat} {answers : List SslAnswer}
    (h : decide (Honest size answers) = true) : Honest size answers := of_decide_eq_true h

theorem Honest.head {size : Nat} {answers : List SslAnswer} (h : Honest size answers) :
    (answers.headD {}).outcome = .wantRead → size - (answers.headD {}).asks.sum = 0 := by
  cases answers with
  | nil =>
    intro _
    exact (Nat.sub_zero size).trans h
  | cons a answers => exact h.1

theorem Honest.tail {size : Nat} {answers : List SslAnswer} (h : Honest size answers) :
    Honest (size - (answers.headD {}).asks.sum) answers.tail := by
  cases answers with
  | nil => exact (Nat.sub_zero size).trans h
  | cons a answers => exact h.2

namespace TlsSocket

variable {s s' s'' : TlsSocket} {es es' : EventState vocabulary} {y : Yielded}

/-! ## OpenSSL and the buffers -/

/-- OpenSSL takes the first of the bytes at `e_read_` and adds to `writebuf_`; operations are
neither started nor completed. -/
structure Exchanged (s s' : TlsSocket) : Prop where
  ops : s'.ops = s.ops
  eWrite : s'.eWrite = s.eWrite
  output : ∃ bytes, s'.writebuf = s.writebuf ++ bytes ∧ s'.produced = s.produced ++ bytes
  backed : s.eReadS ≤ s.eRead.length → s'.eReadS ≤ s'.eRead.length
  input : s.eReadS ≤ s.eRead.length →
    s'.taken ++ s'.eRead.take s'.eReadS = s.taken ++ s.eRead.take s.eReadS
  /-- Where nothing can be taken, `e_read_` stays as it is. -/
  empty : s.eReadS = 0 → s'.eReadS = 0 ∧ s'.eRead = s.eRead

/-- The members that a step of OpenSSL does not concern. -/
theorem Exchanged.of_eq (hops : s'.ops = s.ops) (heWrite : s'.eWrite = s.eWrite)
    (hwritebuf : s'.writebuf = s.writebuf) (hproduced : s'.produced = s.produced)
    (heRead : s'.eRead = s.eRead) (heReadS : s'.eReadS = s.eReadS) (htaken : s'.taken = s.taken) :
    Exchanged s s' where
  ops := hops
  eWrite := heWrite
  output := ⟨[], by rw [hwritebuf, List.append_nil], by rw [hproduced, List.append_nil]⟩
  backed h := by rwa [heRead, heReadS]
  input _ := by rw [htaken, heRead, heReadS]
  empty h := ⟨heReadS.trans h, heRead⟩

theorem Exchanged.refl (s : TlsSocket) : Exchanged s s := .of_eq rfl rfl rfl rfl rfl rfl rfl

theorem Exchanged.trans (h : Exchanged s s') (h' : Exchanged s' s'') : Exchanged s s'' where
  ops := h'.ops.trans h.ops
  eWrite := h'.eWrite.trans h.eWrite
  output := by
    obtain ⟨bytes, hbuf, hprod⟩ := h.output
    obtain ⟨bytes', hbuf', hprod'⟩ := h'.output
    refine ⟨bytes ++ bytes', ?_, ?_⟩
    · rw [hbuf', hbuf, List.append_assoc]
    · rw [hprod', hprod, List.append_assoc]
  backed hs := h'.backed (h.backed hs)
  input hs := (h'.input (h.backed hs)).trans (h.input hs)
  empty hs := by
    obtain ⟨hsize, heq⟩ := h.empty hs
    obtain ⟨hsize', heq'⟩ := h'.empty hsize
    exact ⟨hsize', heq'.trans heq⟩

/-- What is taken and what is moved to the front are together the bytes that were there. -/
theorem take_append_take_moved {m : Str} {size n : Nat} (hn : n ≤ size) (hm : size ≤ m.length) :
    m.take n ++ ((m.drop n).take (size - n) ++ m.drop (size - n)).take (size - n) =
      m.take size := by
  have hlen : ((m.drop n).take (size - n)).length = size - n :=
    List.length_take_of_le (by rw [List.length_drop]; omega)
  have hfront : ((m.drop n).take (size - n) ++ m.drop (size - n)).take (size - n) =
      (m.drop n).take (size - n) := List.take_left' hlen
  calc m.take n ++ ((m.drop n).take (size - n) ++ m.drop (size - n)).take (size - n)
      = m.take n ++ (m.drop n).take (size - n) := by rw [hfront]
    _ = m.take (n + (size - n)) := List.take_add.symm
    _ = m.take size := by rw [Nat.add_sub_cancel' hn]

theorem eReadS_osslcbRead (s : TlsSocket) (len : Nat) :
    (s.osslcbRead len).eReadS = s.eReadS - len := by
  unfold osslcbRead
  split
  · omega
  · show s.eReadS - min s.eReadS len = s.eReadS - len
    omega

theorem osslcbRead_exchanged (s : TlsSocket) (len : Nat) : Exchanged s (s.osslcbRead len) := by
  have hsame := osslcbRead_same s len
  unfold osslcbRead at hsame ⊢
  by_cases hempty : s.eReadS = 0
  · rw [if_pos hempty]
    exact .refl s
  · rw [if_neg hempty] at hsame ⊢
    have hle : min s.eReadS len ≤ s.eReadS := Nat.min_le_left _ _
    refine ⟨hsame.ops, rfl, ⟨[], ?_, ?_⟩, ?_, ?_, ?_⟩
    · exact (List.append_nil _).symm
    · exact (List.append_nil _).symm
    · intro hs
      simp only [List.length_append, List.length_take, List.length_drop]
      omega
    · intro hs
      simp only [List.append_assoc]
      rw [take_append_take_moved hle hs]
    · intro hs
      exact absurd hs hempty

theorem foldl_osslcbRead (asks : List Nat) (s : TlsSocket) :
    Exchanged s (asks.foldl osslcbRead s) ∧
      (asks.foldl osslcbRead s).eReadS = s.eReadS - asks.sum := by
  induction asks generalizing s with
  | nil => exact ⟨.refl s, (Nat.sub_zero _).symm⟩
  | cons len asks ih =>
    obtain ⟨hexch, hsize⟩ := ih (s.osslcbRead len)
    refine ⟨(osslcbRead_exchanged s len).trans hexch, ?_⟩
    rw [List.foldl_cons, hsize, eReadS_osslcbRead, List.sum_cons, Nat.sub_sub]

theorem addOutput_exchanged (s : TlsSocket) (bytes : Str) : Exchanged s (s.addOutput bytes) where
  ops := (addOutput_same s bytes).ops
  eWrite := rfl
  output := ⟨bytes, rfl, rfl⟩
  backed h := h
  input _ := rfl
  empty h := ⟨h, rfl⟩

theorem exchange_exchanged (s : TlsSocket) (a : SslAnswer) : Exchanged s (s.exchange a) :=
  (foldl_osslcbRead a.asks s).1.trans (addOutput_exchanged _ _)

theorem eReadS_exchange (s : TlsSocket) (a : SslAnswer) :
    (s.exchange a).eReadS = s.eReadS - a.asks.sum := (foldl_osslcbRead a.asks s).2

theorem got_exchanged (s : TlsSocket) (bytes : Str) : Exchanged s (s.got bytes) :=
  .of_eq (got_same s bytes).ops rfl rfl rfl rfl rfl rfl

theorem sent_exchanged (s : TlsSocket) (n : Nat) : Exchanged s (s.sent n) :=
  .of_eq (sent_same s n).ops rfl rfl rfl rfl rfl rfl

theorem state_exchanged (s : TlsSocket) (state : TlsState) : Exchanged s { s with state } :=
  .of_eq (state_same s state).ops rfl rfl rfl rfl rfl rfl

/-! ## What a handler queues -/

/-- The end of a handler: nothing, an attachment, or one operation whose predecessor is complete.
A read is started only when nothing is left at `e_read_`. -/
inductive Armed (s : TlsSocket) (es : EventState vocabulary) :
    TlsSocket → EventState vocabulary → Prop where
  | nothing : Armed s es s es
  | attach (id : Id) : Armed s es s (es.queueAttach id)
  | read (hfin : s.taskBytesRFin = true) (hempty : s.eReadS = 0) (loc : Nat) :
      Armed s es { s with taskBytesRead := some es.uringData.localProcId, taskBytesRFin := false }
        (es.callAt (V := vocabulary) () loc (.read (sizeofPtr - s.eReadS) false)).2
  | write (hfin : s.taskBytesWFin = true) (loc : Nat) :
      Armed s es { s with
          eWrite := s.writebuf.take sizeofPtr, writebuf := s.writebuf.drop sizeofPtr
          taskBytesWrite := some es.uringData.localProcId, taskBytesWFin := false }
        (es.callAt (V := vocabulary) () loc (.write (s.writebuf.take sizeofPtr))).2

/-- What a handler does: OpenSSL works with the buffers, and in the end something is queued. -/
def Moved (s : TlsSocket) (es : EventState vocabulary) (s' : TlsSocket)
    (es' : EventState vocabulary) : Prop := ∃ s₁, Exchanged s s₁ ∧ Armed s₁ es s' es'

theorem Moved.of_exchanged (h : Exchanged s s') (hm : Moved s' es s'' es') :
    Moved s es s'' es' := by
  obtain ⟨s₁, hexch, harmed⟩ := hm
  exact ⟨s₁, h.trans hexch, harmed⟩

theorem Moved.of_armed (h : Armed s es s' es') : Moved s es s' es' := ⟨s, .refl s, h⟩

theorem armRead_armed (h : s.armRead.run es = .ok (s', es')) (hempty : s.eReadS = 0) :
    Armed s es s' es' := by
  unfold armRead at h
  by_cases hfin : s.taskBytesRFin = true
  · simp only [if_pos hfin, Script.run_bind, Script.run_c] at h
    cases hcall : es.call () (.read (sizeofPtr - s.eReadS) false) with
    | error e =>
      simp only [hcall] at h
      cases h
    | ok r =>
      have hr := EventState.call_eq_ok hcall
      simp only [hcall, Script.run_pure, Except.ok.injEq, Prod.mk.injEq] at h
      obtain ⟨rfl, rfl⟩ := h
      subst hr
      exact .read hfin hempty _
  · simp only [if_neg hfin, Script.run_bind, Script.run_attachTo, Script.run_pure, Except.ok.injEq,
      Prod.mk.injEq] at h
    obtain ⟨rfl, rfl⟩ := h
    exact .attach _

theorem armWrite_armed (h : s.armWrite.run es = .ok (s', es')) : Armed s es s' es' := by
  unfold armWrite at h
  by_cases hfin : s.taskBytesWFin = true
  · simp only [if_pos hfin, Script.run_bind, Script.run_c] at h
    cases hcall : es.call () (.write (s.writebuf.take sizeofPtr)) with
    | error e =>
      simp only [hcall] at h
      cases h
    | ok r =>
      have hr := EventState.call_eq_ok hcall
      simp only [hcall, Script.run_pure, Except.ok.injEq, Prod.mk.injEq] at h
      obtain ⟨rfl, rfl⟩ := h
      subst hr
      exact .write hfin _
  · simp only [if_neg hfin, Script.run_bind, Script.run_attachTo, Script.run_pure, Except.ok.injEq,
      Prod.mk.injEq] at h
    obtain ⟨rfl, rfl⟩ := h
    exact .attach _

theorem armWanted_armed (h : s.armWanted.run es = .ok (s', es')) (hempty : s.eReadS = 0) :
    Armed s es s' es' := by
  unfold armWanted at h
  by_cases hbuf : s.writebuf ≠ []
  · rw [if_pos hbuf] at h
    exact armWrite_armed h
  · rw [if_neg hbuf] at h
    exact armRead_armed h hempty

/-- The handlers wait in this form. -/
theorem moved_of_waiting {arm : Script vocabulary TlsSocket}
    (h : (do
      let s ← arm
      return (none, s) : Script vocabulary (Yielded × TlsSocket)).run es = .ok ((y, s'), es'))
    (harm : ∀ {s' es'}, arm.run es = .ok (s', es') → Armed s es s' es') : Moved s es s' es' := by
  exact .of_armed (harm (Script.run_wait_ok h).2)

theorem readLoop_moved (answers : List SslAnswer) (s : TlsSocket)
    (hhonest : Honest s.eReadS answers)
    (h : (readLoop answers s).run es = .ok ((y, s'), es')) : Moved s es s' es' := by
  induction answers generalizing s with
  | nil => exact moved_of_waiting h fun harm => armWanted_armed harm hhonest
  | cons a answers ih =>
    have hexch := exchange_exchanged s a
    obtain ⟨hwant, hrest⟩ := hhonest
    rw [← eReadS_exchange] at hwant hrest
    unfold readLoop at h
    cases hout : a.outcome with
    | wantRead =>
      simp only [hout] at h
      exact .of_exchanged hexch (moved_of_waiting h fun harm => armWanted_armed harm (hwant hout))
    | error =>
      simp only [hout, Script.run_pure, Except.ok.injEq, Prod.mk.injEq] at h
      obtain ⟨⟨-, rfl⟩, rfl⟩ := h
      exact .of_exchanged hexch (.of_armed .nothing)
    | none bytes =>
      have hgot := hexch.trans (got_exchanged (s.exchange a) bytes)
      simp only [hout] at h
      by_cases hfilled : ((s.exchange a).got bytes).Filled
      · simp only [if_pos hfilled, Script.run_pure, Except.ok.injEq, Prod.mk.injEq] at h
        obtain ⟨⟨-, rfl⟩, rfl⟩ := h
        exact .of_exchanged hgot (.of_armed .nothing)
      · by_cases hempty : ((s.exchange a).got bytes).eReadS = 0
        · -- nothing is left to decrypt
          simp only [if_neg hfilled, if_pos hempty] at h
          exact .of_exchanged hgot (moved_of_waiting h fun harm => armRead_armed harm hempty)
        · simp only [if_neg hfilled, if_neg hempty] at h
          exact .of_exchanged hgot (ih _ hrest h)

theorem writeFrame_moved (answers : List SslAnswer) (s : TlsSocket)
    (hhonest : Honest s.eReadS answers)
    (h : (writeFrame answers s).run es = .ok ((y, s'), es')) : Moved s es s' es' := by
  have hexch := exchange_exchanged s (answers.headD {})
  have hwant := hhonest.head
  rw [← eReadS_exchange] at hwant
  unfold writeFrame at h
  cases hout : (answers.headD {}).outcome with
  | wantRead =>
    simp only [hout] at h
    exact .of_exchanged hexch (moved_of_waiting h fun harm => armWanted_armed harm (hwant hout))
  | error =>
    simp only [hout, Script.run_pure, Except.ok.injEq, Prod.mk.injEq] at h
    obtain ⟨⟨-, rfl⟩, rfl⟩ := h
    exact .of_exchanged hexch (.of_armed .nothing)
  | none bytes =>
    have hsent := hexch.trans (sent_exchanged (s.exchange (answers.headD {})) bytes.length)
    simp only [hout] at h
    by_cases hunsent : ((s.exchange (answers.headD {})).sent bytes.length).Unsent
    · simp only [if_pos hunsent] at h
      exact .of_exchanged hsent (moved_of_waiting h fun harm => armWrite_armed harm)
    · simp only [if_neg hunsent, Script.run_pure, Except.ok.injEq, Prod.mk.injEq] at h
      obtain ⟨⟨-, rfl⟩, rfl⟩ := h
      exact .of_exchanged hsent (.of_armed .nothing)

/-- A task follows its `Full` part once the handshake is complete. -/
theorem handle_moved {full : List SslAnswer → TlsSocket → Script vocabulary (Yielded × TlsSocket)}
    (hfull : ∀ answers s y s' es', Honest s.eReadS answers →
      (full answers s).run es = .ok ((y, s'), es') → Moved s es s' es')
    (answers : List SslAnswer) (hhonest : Honest s.eReadS answers)
    (h : (handle full s answers).run es = .ok ((y, s'), es')) : Moved s es s' es' := by
  unfold handle at h
  cases hstate : s.state with
  | failed =>
    simp only [hstate, Script.run_pure, Except.ok.injEq, Prod.mk.injEq] at h
    obtain ⟨⟨-, rfl⟩, rfl⟩ := h
    exact .of_armed .nothing
  | full =>
    simp only [hstate] at h
    exact hfull answers s y s' es' hhonest h
  | waitHello =>
    have hexch := exchange_exchanged s (answers.headD {})
    have hwant := hhonest.head
    have hrest := hhonest.tail
    rw [← eReadS_exchange] at hwant hrest
    simp only [hstate, handleHandshake] at h
    cases hout : (answers.headD {}).outcome with
    | wantRead =>
      -- the handshake waits, and the state stays as it is
      simp only [hout, Script.run_bind] at h
      cases harm : (s.exchange (answers.headD {})).armWanted.run es with
      | error e =>
        simp only [harm] at h
        cases h
      | ok r =>
        obtain ⟨s₁, es₁⟩ := r
        have harmed := armWanted_armed harm (hwant hout)
        have hhello : ¬ s₁.state = .full := by
          have heq : s₁.state = (s.exchange (answers.headD {})).state := by
            cases harmed <;> rfl
          rw [heq, exchange_state, hstate]
          simp
        simp only [harm, Script.run_pure, Option.isSome_none, Bool.false_eq_true, if_false,
          if_neg hhello, Except.ok.injEq, Prod.mk.injEq] at h
        obtain ⟨⟨-, rfl⟩, rfl⟩ := h
        exact .of_exchanged hexch (.of_armed harmed)
    | error =>
      simp only [hout, Script.run_bind, Script.run_pure, Option.isSome_some, if_true,
        Except.ok.injEq, Prod.mk.injEq] at h
      obtain ⟨⟨-, rfl⟩, rfl⟩ := h
      exact .of_exchanged (hexch.trans (state_exchanged _ .failed)) (.of_armed .nothing)
    | none bytes =>
      simp only [hout, Script.run_bind, Script.run_pure, Option.isSome_none, Bool.false_eq_true,
        if_false, if_true] at h
      exact .of_exchanged (hexch.trans (state_exchanged _ .full)) (hfull _ _ _ _ _ hrest h)

theorem handleRead_moved (answers : List SslAnswer) (hhonest : Honest s.eReadS answers)
    (h : (s.handleRead answers).run es = .ok ((y, s'), es')) : Moved s es s' es' :=
  handle_moved (fun answers s _ _ _ hhonest h => readLoop_moved answers s hhonest h) answers
    hhonest h

theorem handleWrite_moved (answers : List SslAnswer) (hhonest : Honest s.eReadS answers)
    (h : (s.handleWrite answers).run es = .ok ((y, s'), es')) : Moved s es s' es' :=
  handle_moved (fun answers s _ _ _ hhonest h => writeFrame_moved answers s hhonest h) answers
    hhonest h

theorem read_moved {resp : CallResponse} (id : Id) (len : Nat) (readAll : Bool)
    (answers : List SslAnswer) (hhonest : Honest s.eReadS answers)
    (h : (s.read id len readAll answers).run es = .ok ((resp, s'), es')) : Moved s es s' es' := by
  have hstart : Exchanged s (s.startRead id len readAll) :=
    .of_eq (funext fun d => by cases d <;> rfl) rfl rfl rfl rfl rfl rfl
  unfold read at h
  cases hrun : ((s.startRead id len readAll).handleRead answers).run es with
  | error e =>
    simp only [Script.run_bind, hrun] at h
    cases h
  | ok r =>
    obtain ⟨⟨y, s₁⟩, es₁⟩ := r
    simp only [Script.run_bind, hrun, Script.run_pure, Except.ok.injEq, Prod.mk.injEq] at h
    obtain ⟨⟨-, rfl⟩, rfl⟩ := h
    exact .of_exchanged hstart (handleRead_moved answers hhonest hrun)

theorem write_moved {resp : CallResponse} (id : Id) (data : Str) (answers : List SslAnswer)
    (hhonest : Honest s.eReadS answers)
    (h : (s.write id data answers).run es = .ok ((resp, s'), es')) : Moved s es s' es' := by
  have hstart : Exchanged s (s.startWrite id data) :=
    .of_eq (funext fun d => by cases d <;> rfl) rfl rfl rfl rfl rfl rfl
  unfold write at h
  cases hrun : ((s.startWrite id data).handleWrite answers).run es with
  | error e =>
    simp only [Script.run_bind, hrun] at h
    cases h
  | ok r =>
    obtain ⟨⟨y, s₁⟩, es₁⟩ := r
    simp only [Script.run_bind, hrun, Script.run_pure, Except.ok.injEq, Prod.mk.injEq] at h
    obtain ⟨⟨-, rfl⟩, rfl⟩ := h
    exact .of_exchanged hstart (handleWrite_moved answers hhonest hrun)

/-- A completion is noted, and the task that it is reported to goes on. -/
theorem onYield_moved {res : ChildTaskCompletion} (answers : List SslAnswer)
    (hpos : 0 < res.returnCode) (hhonest : Honest (s.finish res).eReadS answers)
    (h : (s.onYield answers (.childTaskCompletion res)).run es = .ok ((y, s'), es')) :
    Moved (s.finish res) es s' es' := by
  simp only [onYield, if_neg (Int.not_le.mpr hpos)] at h
  by_cases hread : res.callingId = (s.finish res).taskRead
  · rw [if_pos hread] at h
    exact handleRead_moved answers hhonest h
  · by_cases hwrite : res.callingId = (s.finish res).taskWrite
    · rw [if_neg hread, if_pos hwrite] at h
      exact handleWrite_moved answers hhonest h
    · rw [if_neg hread, if_neg hwrite] at h
      cases h

end TlsSocket

/-! ## Streams -/

open TlsSocket

/-- The bytes that a call passes on. -/
def ChildCall.passed : ChildCall → Str
  | .read _ _ => []
  | .write data => data

/-- An operation of the byte socket: its call, the value of `e_read_s_` at that time, and the
number of bytes that were moved once it is complete. -/
structure Operation where
  id : Id
  fn : ChildCall
  size : Nat
  count : Option Nat := none
deriving DecidableEq, Repr

/-- The operation `op` is complete. -/
def Operation.complete (op : Id) (n : Nat) (o : Operation) : Operation :=
  if o.id = op then { o with count := some n } else o

/-- A TLS socket with its context, the operations that it started, and the bytes that arrived. -/
structure Stream where
  tls : TlsSocket
  data : IoUringData vocabulary
  armed : List Operation := []
  received : Str := []

namespace Stream

/-- What happens to a stream. -/
inductive Action where
  /-- `read` is called for the task `id`. -/
  | read (id : Nat) (len : Nat) (readAll : Bool) (answers : List SslAnswer)
  /-- `write` is called for the task `id`. -/
  | write (id : Nat) (data : Str) (answers : List SslAnswer)
  /-- A read of the byte socket is complete: the bytes are at the start of `e_read_`. -/
  | receives (op : Id) (chunk : Str)
  /-- A write of the byte socket is complete. -/
  | sends (op : Id) (count : Nat)
  /-- The completion of an operation is reported to a task. -/
  | notifies (op : Id) (proc : Nat) (status : CallStatus) (count : Nat) (answers : List SslAnswer)

/-- What a handler queued. -/
def settle (c : Stream) (tls : TlsSocket) (es : EventState vocabulary) : Stream :=
  { c with
    tls
    data := es.uringData
    armed := c.armed ++ es.function.map fun q => { id := q.localId, fn := q.fn, size := tls.eReadS } }

/-- The event that reports a completion. -/
def message (op : Id) (proc : Nat) (status : CallStatus) (count : Nat) : ChildTaskCompletion where
  callingId := some proc
  taskId := op
  status := status
  returnCode := count

/-- One step of a stream. -/
def step (c : Stream) : Action → Except Fault Stream
  | .read id len readAll answers =>
    match (c.tls.read (some id) len readAll answers).run { uringData := c.data } with
    | .error e => .error e
    | .ok ((_, tls), es) => .ok (c.settle tls es)
  | .write id data answers =>
    match (c.tls.write (some id) data answers).run { uringData := c.data } with
    | .error e => .error e
    | .ok ((_, tls), es) => .ok (c.settle tls es)
  | .receives op chunk => .ok { c with
      tls := { c.tls with eRead := chunk ++ c.tls.eRead.drop chunk.length }
      armed := c.armed.map (Operation.complete op chunk.length)
      received := c.received ++ chunk }
  | .sends op count => .ok { c with armed := c.armed.map (Operation.complete op count) }
  | .notifies op proc status count answers =>
    match (c.tls.onYield answers (.childTaskCompletion (message op proc status count))).run
        { uringData := c.data } with
    | .error e => .error e
    | .ok ((_, tls), es) => .ok (c.settle tls es)

/-- A stream whose byte socket is constructed. -/
def start (server : Bool) : Stream where
  tls := { server }
  data := ({} : IoUringData vocabulary).setSlots () [some { event := some 1 }]

/-- What can happen: an operation is complete once, with a positive number of bytes that is not
larger than requested, and a completion is reported from then on. OpenSSL is honest. -/
def Possible (c : Stream) : Action → Prop
  | .read _ _ _ answers => Honest c.tls.eReadS answers
  | .write _ _ answers => Honest c.tls.eReadS answers
  | .receives op chunk => ∃ o ∈ c.armed, o.id = op ∧ o.count = none ∧
      ∃ len readAll, o.fn = .read len readAll ∧ 0 < chunk.length ∧ chunk.length ≤ len
  | .sends op count => ∃ o ∈ c.armed, o.id = op ∧ o.count = none ∧
      ∃ data, o.fn = .write data ∧ 0 < count ∧ count ≤ data.length
  | .notifies op proc status count answers =>
    (∃ o ∈ c.armed, o.id = op ∧ o.count = some count) ∧
      Honest (c.tls.finish (message op proc status count)).eReadS answers

/-- The bytes that were passed to the byte socket. -/
def passed (c : Stream) : Str := c.armed.flatMap fun o => o.fn.passed

/-- The number of bytes of an operation, and `0` as long as it is not complete. -/
def countOf (c : Stream) (id : Id) : Nat :=
  ((c.armed.find? fun o => o.id = id).bind Operation.count).getD 0

/-- The number of bytes that arrived at `e_read_` and are not in `e_read_s_` yet. -/
def landed (c : Stream) : Nat := if c.tls.taskBytesRFin then 0 else c.countOf c.tls.taskBytesRead

/-- The bytes at `e_read_` that OpenSSL did not take yet. -/
def waiting (c : Stream) : Str := c.tls.eRead.take (c.tls.eReadS + c.landed)

/-- Nothing is lost, repeated or overwritten. -/
structure Intact (c : Stream) : Prop where
  /-- The bytes that were passed on, and those still in `writebuf_`, are the output of OpenSSL. -/
  output : c.passed ++ c.tls.writebuf = c.tls.produced
  /-- As long as a write is under way, `e_write_` has its bytes. -/
  held : ∀ o ∈ c.armed, ∀ data, o.fn = .write data → o.count = none → c.tls.eWrite = data
  /-- The bytes that OpenSSL took, and those that wait, are the bytes that arrived. -/
  input : c.tls.taken ++ c.waiting = c.received
  /-- A read is started only when nothing waits. -/
  empty : ∀ o ∈ c.armed, ∀ len readAll, o.fn = .read len readAll → o.size = 0

/-- What every run keeps. An operation that is under way is the last one of its direction. -/
structure Inv (c : Stream) : Prop extends Intact c where
  fresh : ∀ o ∈ c.armed, ∃ n < c.data.localProcId, o.id = some n
  once : (c.armed.map Operation.id).Nodup
  positive : ∀ o ∈ c.armed, ∀ k, o.count = some k → 0 < k
  reads : ∀ o ∈ c.armed, ∀ len readAll, o.fn = .read len readAll → o.count = none →
    c.tls.ops .read = (o.id, false)
  writes : ∀ o ∈ c.armed, ∀ data, o.fn = .write data → o.count = none →
    c.tls.ops .write = (o.id, false)
  /-- A read whose completion was not noted is known, and nothing is left from the one before. -/
  current : c.tls.taskBytesRFin = false → c.tls.eReadS = 0 ∧
    ∃ o ∈ c.armed, o.id = c.tls.taskBytesRead ∧ ∃ len readAll, o.fn = .read len readAll
  backed : c.tls.eReadS + c.landed ≤ c.tls.eRead.length

variable {c c' : Stream} {s s' : TlsSocket} {es' : EventState vocabulary} {op : Id} {n : Nat}
  {o : Operation}

theorem start_inv (server : Bool) : (start server).Inv where
  output := rfl
  held := by simp [start]
  input := rfl
  empty := by simp [start]
  fresh := by simp [start]
  once := List.nodup_nil
  positive := by simp [start]
  reads := by simp [start]
  writes := by simp [start]
  current := by simp [start]
  backed := Nat.le_refl 0

/-! ### Operations -/

@[simp] theorem id_complete (op : Id) (n : Nat) (o : Operation) : (o.complete op n).id = o.id := by
  unfold Operation.complete
  split <;> rfl

@[simp] theorem fn_complete (op : Id) (n : Nat) (o : Operation) : (o.complete op n).fn = o.fn := by
  unfold Operation.complete
  split <;> rfl

@[simp] theorem size_complete (op : Id) (n : Nat) (o : Operation) :
    (o.complete op n).size = o.size := by
  unfold Operation.complete
  split <;> rfl

/-- An operation that is not complete yet is another one. -/
theorem count_complete (h : (o.complete op n).count = none) : o.id ≠ op ∧ o.count = none := by
  unfold Operation.complete at h
  split at h
  · cases h
  · rename_i hne
    exact ⟨hne, h⟩

/-- Operations have different identifiers. -/
theorem eq_of_id_eq (honce : (c.armed.map Operation.id).Nodup) {o o' : Operation}
    (ho : o ∈ c.armed) (ho' : o' ∈ c.armed) (h : o.id = o'.id) : o = o' :=
  List.inj_on_of_nodup_map honce ho ho' h

theorem countOf_eq (honce : (c.armed.map Operation.id).Nodup) (ho : o ∈ c.armed) :
    c.countOf o.id = o.count.getD 0 := by
  unfold countOf
  cases hfind : c.armed.find? fun x => x.id = o.id with
  | none =>
    have hne := List.find?_eq_none.mp hfind o ho
    simp at hne
  | some x =>
    have hid : x.id = o.id := by simpa using List.find?_some hfind
    rw [eq_of_id_eq honce (List.mem_of_find?_eq_some hfind) ho hid]
    rfl

theorem landed_of_eq (hops : s.ops = c.tls.ops) : ({ c with tls := s } : Stream).landed = c.landed := by
  have hread := congrFun hops .read
  obtain ⟨hid, hfin⟩ := Prod.mk.inj hread
  unfold landed
  simp only [hid, hfin]
  rfl

/-! ### One step -/

/-- OpenSSL works with the buffers. -/
theorem exchanged_inv (h : c.Inv) (hexch : Exchanged c.tls s) :
    ({ c with tls := s } : Stream).Inv := by
  have hlanded := landed_of_eq hexch.ops
  obtain ⟨hid, hfin⟩ := Prod.mk.inj (congrFun hexch.ops .read)
  have hbacked : c.tls.eReadS ≤ c.tls.eRead.length := Nat.le_of_add_right_le h.backed
  -- the bytes that arrived and are not in `e_read_s_` yet are safe, since nothing can be taken
  have hwaiting : s.taken ++ s.eRead.take (s.eReadS + c.landed) = c.tls.taken ++ c.waiting ∧
      s.eReadS + c.landed ≤ s.eRead.length := by
    by_cases hr : c.tls.taskBytesRFin = true
    · have hzero : c.landed = 0 := if_pos hr
      rw [waiting, hzero]
      exact ⟨hexch.input hbacked, hexch.backed hbacked⟩
    · have hempty := (h.current (Bool.eq_false_iff.mpr hr)).1
      obtain ⟨hsize, heRead⟩ := hexch.empty hempty
      have htaken := hexch.input hbacked
      rw [hsize, hempty, List.take_zero, List.take_zero, List.append_nil, List.append_nil] at htaken
      rw [waiting, hsize, hempty, heRead, htaken]
      have hall := h.backed
      rw [hempty] at hall
      exact ⟨rfl, hall⟩
  refine ⟨⟨?_, ?_, ?_, h.empty⟩, h.fresh, h.once, h.positive, ?_, ?_, ?_, ?_⟩
  · obtain ⟨bytes, hbuf, hprod⟩ := hexch.output
    show c.passed ++ s.writebuf = s.produced
    rw [hbuf, hprod, ← List.append_assoc, h.output]
  · intro o ho data hfn hcount
    exact hexch.eWrite.trans (h.held o ho data hfn hcount)
  · show s.taken ++ s.eRead.take (s.eReadS + ({ c with tls := s } : Stream).landed) = c.received
    rw [hlanded, hwaiting.1, h.input]
  · intro o ho len readAll hfn hcount
    exact (congrFun hexch.ops .read).trans (h.reads o ho len readAll hfn hcount)
  · intro o ho data hfn hcount
    exact (congrFun hexch.ops .write).trans (h.writes o ho data hfn hcount)
  · intro hr
    obtain ⟨hempty, o, ho, heq, hfn⟩ := h.current (hfin.symm.trans hr)
    exact ⟨(hexch.empty hempty).1, o, ho, heq.trans hid.symm, hfn⟩
  · show s.eReadS + ({ c with tls := s } : Stream).landed ≤ s.eRead.length
    rw [hlanded]
    exact hwaiting.2

/-- The stream when the operation `fn` is started. -/
def push (c : Stream) (tls : TlsSocket) (fn : ChildCall) : Stream where
  tls := tls
  data := { c.data with localProcId := c.data.localProcId + 1 }
  armed := c.armed ++ [{ id := some c.data.localProcId, fn, size := tls.eReadS }]
  received := c.received

/-- The operations that a stream knew keep their numbers of bytes. -/
theorem countOf_push (ho : o ∈ c.armed) (tls : TlsSocket) (fn : ChildCall) :
    (c.push tls fn).countOf o.id = c.countOf o.id := by
  have hsome : (c.armed.find? fun x => x.id = o.id).isSome := by
    rw [List.find?_isSome]
    exact ⟨o, ho, decide_eq_true rfl⟩
  unfold countOf
  rw [push, List.find?_append, Option.or_of_isSome hsome]

theorem push_once (h : c.Inv) (tls : TlsSocket) (fn : ChildCall) :
    ((c.push tls fn).armed.map Operation.id).Nodup := by
  rw [push, List.map_append, List.nodup_append]
  refine ⟨h.once, List.nodup_singleton _, ?_⟩
  intro a ha b hb
  obtain ⟨o, ho, rfl⟩ := List.mem_map.mp ha
  obtain rfl : b = some c.data.localProcId := List.mem_singleton.mp hb
  obtain ⟨n, hn, hid⟩ := h.fresh o ho
  rw [hid]
  exact fun heq => absurd (Option.some.inj heq) (Nat.ne_of_lt hn)

theorem push_fresh (h : c.Inv) (tls : TlsSocket) (fn : ChildCall) :
    ∀ o ∈ (c.push tls fn).armed, ∃ n < c.data.localProcId + 1, o.id = some n := by
  intro o ho
  rcases List.mem_append.mp ho with ho | ho
  · obtain ⟨n, hn, hid⟩ := h.fresh o ho
    exact ⟨n, Nat.lt_succ_of_lt hn, hid⟩
  · obtain rfl := List.mem_singleton.mp ho
    exact ⟨_, Nat.lt_succ_self _, rfl⟩

theorem push_positive (h : c.Inv) (tls : TlsSocket) (fn : ChildCall) :
    ∀ o ∈ (c.push tls fn).armed, ∀ k, o.count = some k → 0 < k := by
  intro o ho k hk
  rcases List.mem_append.mp ho with ho | ho
  · exact h.positive o ho k hk
  · obtain rfl := List.mem_singleton.mp ho
    cases hk

theorem passed_push (c : Stream) (tls : TlsSocket) (fn : ChildCall) :
    (c.push tls fn).passed = c.passed ++ fn.passed := by
  rw [passed, push, List.flatMap_append, List.flatMap_singleton]
  rfl

theorem settle_of_function_eq_nil {es : EventState vocabulary} (hfn : es.function = [])
    (hdata : es.uringData = c.data) : c.settle s es = { c with tls := s } := by
  rw [settle, hfn, hdata, List.map_nil, List.append_nil]

/-- A read is started. None is under way, and OpenSSL has taken everything. -/
theorem push_read_inv (h : c.Inv) (hfin : c.tls.taskBytesRFin = true) (hempty : c.tls.eReadS = 0)
    (len : Nat) (readAll : Bool) :
    (c.push { c.tls with taskBytesRead := some c.data.localProcId, taskBytesRFin := false }
      (.read len readAll)).Inv := by
  -- no read is under way before, and the new one has no bytes yet
  have hlanded : c.landed = 0 := if_pos hfin
  have hzero : (c.push { c.tls with
      taskBytesRead := some c.data.localProcId, taskBytesRFin := false }
      (.read len readAll)).landed = 0 :=
    countOf_eq (push_once h _ _) (List.mem_append_right _ List.mem_cons_self)
  refine ⟨⟨?_, ?_, ?_, ?_⟩, push_fresh h _ _, push_once h _ _,
    push_positive h _ _, ?_, ?_, ?_, ?_⟩
  · rw [passed_push]
    exact (congrArg (· ++ c.tls.writebuf) (List.append_nil _)).trans h.output
  · intro o ho data hfn hcount
    rcases List.mem_append.mp ho with ho | ho
    · exact h.held o ho data hfn hcount
    · obtain rfl := List.mem_singleton.mp ho
      cases hfn
  · have hin := h.input
    rw [waiting, hlanded] at hin
    rw [waiting, hzero]
    exact hin
  · intro o ho len readAll hfn
    rcases List.mem_append.mp ho with ho | ho
    · exact h.empty o ho len readAll hfn
    · obtain rfl := List.mem_singleton.mp ho
      exact hempty
  · intro o ho len readAll hfn hcount
    rcases List.mem_append.mp ho with ho | ho
    · have hops := h.reads o ho len readAll hfn hcount
      exact absurd (hfin.symm.trans (Prod.mk.inj hops).2) (by simp)
    · obtain rfl := List.mem_singleton.mp ho
      rfl
  · intro o ho data hfn hcount
    rcases List.mem_append.mp ho with ho | ho
    · exact h.writes o ho data hfn hcount
    · obtain rfl := List.mem_singleton.mp ho
      cases hfn
  · intro _
    exact ⟨hempty, _, List.mem_append_right _ List.mem_cons_self, rfl, _, _, rfl⟩
  · have hb := h.backed
    rw [hlanded] at hb
    rw [hzero]
    exact hb

/-- A write is started. None is under way, so that `e_write_` may be changed. -/
theorem push_write_inv (h : c.Inv) (hfin : c.tls.taskBytesWFin = true) (len : Nat) :
    (c.push { c.tls with
        eWrite := c.tls.writebuf.take len, writebuf := c.tls.writebuf.drop len
        taskBytesWrite := some c.data.localProcId, taskBytesWFin := false }
      (.write (c.tls.writebuf.take len))).Inv := by
  -- so no open write still refers to `e_write_`
  have hidle : ∀ o ∈ c.armed, ∀ data, o.fn = .write data → o.count ≠ none := by
    intro o ho data hfn hcount
    have hops := h.writes o ho data hfn hcount
    exact absurd (hfin.symm.trans (Prod.mk.inj hops).2) (by simp)
  -- a read that is under way is not touched
  have hlanded : (c.push { c.tls with
        eWrite := c.tls.writebuf.take len, writebuf := c.tls.writebuf.drop len
        taskBytesWrite := some c.data.localProcId, taskBytesWFin := false }
      (.write (c.tls.writebuf.take len))).landed = c.landed := by
    by_cases hr : c.tls.taskBytesRFin = true
    · exact (if_pos hr).trans (if_pos hr).symm
    · obtain ⟨-, o, ho, hid, -⟩ := h.current (Bool.eq_false_iff.mpr hr)
      refine (if_neg hr).trans (Eq.trans ?_ (if_neg hr).symm)
      show Stream.countOf _ c.tls.taskBytesRead = c.countOf c.tls.taskBytesRead
      rw [← hid]
      exact countOf_push ho _ _
  refine ⟨⟨?_, ?_, ?_, ?_⟩, push_fresh h _ _, push_once h _ _,
    push_positive h _ _, ?_, ?_, ?_, ?_⟩
  · rw [passed_push]
    show c.passed ++ c.tls.writebuf.take len ++ c.tls.writebuf.drop len = c.tls.produced
    rw [List.append_assoc, List.take_append_drop, h.output]
  · intro o ho data hfn hcount
    rcases List.mem_append.mp ho with ho | ho
    · exact absurd hcount (hidle o ho data hfn)
    · obtain rfl := List.mem_singleton.mp ho
      exact ChildCall.write.inj hfn
  · rw [waiting, hlanded]
    exact h.input
  · intro o ho len readAll hfn
    rcases List.mem_append.mp ho with ho | ho
    · exact h.empty o ho len readAll hfn
    · obtain rfl := List.mem_singleton.mp ho
      cases hfn
  · intro o ho len readAll hfn hcount
    rcases List.mem_append.mp ho with ho | ho
    · exact h.reads o ho len readAll hfn hcount
    · obtain rfl := List.mem_singleton.mp ho
      cases hfn
  · intro o ho data hfn hcount
    rcases List.mem_append.mp ho with ho | ho
    · exact absurd hcount (hidle o ho data hfn)
    · obtain rfl := List.mem_singleton.mp ho
      rfl
  · intro hr
    obtain ⟨hempty, o, ho, hid, hfn⟩ := h.current hr
    exact ⟨hempty, o, List.mem_append_left _ ho, hid, hfn⟩
  · rw [hlanded]
    exact h.backed

/-- A handler ends. -/
theorem armed_inv (h : c.Inv) (harmed : Armed c.tls { uringData := c.data } s' es') :
    (c.settle s' es').Inv := by
  cases harmed with
  | nothing =>
    rw [settle_of_function_eq_nil rfl rfl]
    exact h
  | attach id =>
    rw [settle_of_function_eq_nil rfl rfl]
    exact h
  | read hfin hempty loc => exact push_read_inv h hfin hempty _ _
  | write hfin loc => exact push_write_inv h hfin _

/-- What a handler does keeps the stream. -/
theorem moved_inv (h : c.Inv) (hm : Moved c.tls { uringData := c.data } s' es') :
    (c.settle s' es').Inv := by
  obtain ⟨s₁, hexch, harmed⟩ := hm
  exact armed_inv (c := { c with tls := s₁ }) (exchanged_inv h hexch) harmed

/-! ### Completions -/

/-- An operation before a completion. -/
theorem exists_of_mem_complete (ho : o ∈ c.armed.map (Operation.complete op n)) :
    ∃ o' ∈ c.armed, o.id = o'.id ∧ o.fn = o'.fn ∧ o.size = o'.size ∧
      (o.count = none → o'.id ≠ op ∧ o'.count = none) := by
  obtain ⟨o', ho', rfl⟩ := List.mem_map.mp ho
  exact ⟨o', ho', id_complete _ _ _, fn_complete _ _ _, size_complete _ _ _, count_complete⟩

/-- An operation is complete, and the bytes that wait at `e_read_` account for it. -/
theorem complete_inv (h : c.Inv) {eRead received : Str} (hpos : 0 < n)
    (hc' : c' = { c with
      tls := { c.tls with eRead }, armed := c.armed.map (Operation.complete op n), received })
    (hinput : c'.tls.taken ++ c'.waiting = c'.received)
    (hbacked : c'.tls.eReadS + c'.landed ≤ c'.tls.eRead.length) : c'.Inv := by
  subst hc'
  -- a completion changes neither what was asked for nor who asked, only the count
  refine ⟨⟨?_, ?_, hinput, ?_⟩, ?_, ?_, ?_, ?_, ?_, ?_, hbacked⟩
  · refine Eq.trans ?_ h.output
    simp only [passed, List.flatMap_map, fn_complete]
  · intro o ho data hfn hcount
    obtain ⟨o', ho', -, hfn', -, hopen⟩ := exists_of_mem_complete ho
    exact h.held o' ho' data (hfn'.symm.trans hfn) (hopen hcount).2
  · intro o ho len readAll hfn
    obtain ⟨o', ho', -, hfn', hsize, -⟩ := exists_of_mem_complete ho
    exact hsize.trans (h.empty o' ho' len readAll (hfn'.symm.trans hfn))
  · intro o ho
    obtain ⟨o', ho', hid, -⟩ := exists_of_mem_complete ho
    obtain ⟨k, hk, heq⟩ := h.fresh o' ho'
    exact ⟨k, hk, hid.trans heq⟩
  · have hids : (c.armed.map (Operation.complete op n)).map Operation.id =
        c.armed.map Operation.id := by
      rw [List.map_map]
      exact List.map_congr_left fun o _ => id_complete op n o
    exact hids ▸ h.once
  · intro o ho k hk
    obtain ⟨o', ho', rfl⟩ := List.mem_map.mp ho
    unfold Operation.complete at hk
    split at hk
    · exact Option.some.inj hk ▸ hpos
    · exact h.positive o' ho' k hk
  · intro o ho len readAll hfn hcount
    obtain ⟨o', ho', hid, hfn', -, hopen⟩ := exists_of_mem_complete ho
    exact (h.reads o' ho' len readAll (hfn'.symm.trans hfn) (hopen hcount).2).trans
      (congrArg (·, false) hid.symm)
  · intro o ho data hfn hcount
    obtain ⟨o', ho', hid, hfn', -, hopen⟩ := exists_of_mem_complete ho
    exact (h.writes o' ho' data (hfn'.symm.trans hfn) (hopen hcount).2).trans
      (congrArg (·, false) hid.symm)
  · intro hr
    obtain ⟨hempty, o, ho, hid, len, readAll, hfn⟩ := h.current hr
    exact ⟨hempty, _, List.mem_map_of_mem ho, (id_complete _ _ _).trans hid, len, readAll,
      (fn_complete _ _ _).trans hfn⟩

/-- The numbers of bytes after a completion. -/
theorem countOf_complete (honce : (c.armed.map Operation.id).Nodup) (ho : o ∈ c.armed)
    (tls : TlsSocket) (received : Str) :
    ({ c with tls, armed := c.armed.map (Operation.complete op n), received } : Stream).countOf
      o.id = (o.complete op n).count.getD 0 := by
  have hids : (c.armed.map (Operation.complete op n)).map Operation.id =
      c.armed.map Operation.id := by
    rw [List.map_map]
    exact List.map_congr_left fun o _ => id_complete op n o
  have hcount := countOf_eq
    (c := { c with tls, armed := c.armed.map (Operation.complete op n), received })
    (hids ▸ honce) (List.mem_map_of_mem ho)
  rw [id_complete] at hcount
  exact hcount

/-- A read is complete. Nothing was left at `e_read_`, so that nothing is overwritten. -/
theorem receives_inv (h : c.Inv) (ho : o ∈ c.armed) (hcount : o.count = none) {len : Nat}
    {readAll : Bool} (hfn : o.fn = .read len readAll) {chunk : Str} (hpos : 0 < chunk.length)
    (hstep : c.step (.receives o.id chunk) = .ok c') : c'.Inv := by
  obtain ⟨hid, hfin⟩ := Prod.mk.inj (h.reads o ho len readAll hfn hcount)
  have hempty := (h.current hfin).1
  have hnone : ¬ c.tls.taskBytesRFin = true := by simp [hfin]
  have hbefore : c.landed = 0 := by
    rw [landed, if_neg hnone, hid, countOf_eq h.once ho, hcount]
    rfl
  have hc' := (Except.ok.inj hstep).symm
  have hlanded : c'.landed = chunk.length := by
    have hrecord : (o.complete o.id chunk.length).count = some chunk.length := by
      rw [Operation.complete, if_pos rfl]
    have hafter := @countOf_complete c o.id chunk.length o h.once ho
      { c.tls with eRead := chunk ++ c.tls.eRead.drop chunk.length } (c.received ++ chunk)
    rw [hrecord] at hafter
    rw [hc']
    refine (if_neg hnone).trans ?_
    show Stream.countOf _ c.tls.taskBytesRead = chunk.length
    rw [hid]
    exact hafter
  apply complete_inv h hpos hc'
  · rw [waiting, hlanded, hc']
    show c.tls.taken ++
      (chunk ++ c.tls.eRead.drop chunk.length).take (c.tls.eReadS + chunk.length) =
        c.received ++ chunk
    have hin := h.input
    rw [waiting, hbefore, hempty, Nat.add_zero, List.take_zero, List.append_nil] at hin
    rw [hempty, Nat.zero_add, List.take_left, hin]
  · rw [hlanded, hc']
    show c.tls.eReadS + chunk.length ≤ (chunk ++ c.tls.eRead.drop chunk.length).length
    rw [hempty, Nat.zero_add, List.length_append]
    exact Nat.le_add_right _ _

/-- A write is complete. -/
theorem sends_inv (h : c.Inv) (ho : o ∈ c.armed) {data : Str} (hfn : o.fn = .write data)
    {count : Nat} (hpos : 0 < count) (hstep : c.step (.sends o.id count) = .ok c') : c'.Inv := by
  have hc' := (Except.ok.inj hstep).symm
  have hlanded : c'.landed = c.landed := by
    rw [hc']
    by_cases hr : c.tls.taskBytesRFin = true
    · exact (if_pos hr).trans (if_pos hr).symm
    · -- the read that is under way is another operation
      obtain ⟨-, r, hmem, hid, len, readAll, hread⟩ := h.current (Bool.eq_false_iff.mpr hr)
      have hne : r.id ≠ o.id := by
        intro heq
        rw [eq_of_id_eq h.once hmem ho heq, hfn] at hread
        cases hread
      refine (if_neg hr).trans (Eq.trans ?_ (if_neg hr).symm)
      show Stream.countOf _ c.tls.taskBytesRead = c.countOf c.tls.taskBytesRead
      rw [← hid, countOf_eq h.once hmem]
      refine (countOf_complete h.once hmem c.tls c.received).trans ?_
      rw [Operation.complete, if_neg hne]
  apply complete_inv h hpos hc'
  · rw [waiting, hlanded, hc']
    exact h.input
  · rw [hlanded, hc']
    exact h.backed

/-- A completion is noted, if it was not noted before. -/
theorem finish_inv (h : c.Inv) (ho : o ∈ c.armed) {count : Nat} (hcount : o.count = some count)
    {res : ChildTaskCompletion} (hid : res.taskId = o.id) (hrc : res.returnCode = count) :
    ({ c with tls := c.tls.finish res } : Stream).Inv := by
  have hother : ∀ x ∈ c.armed, x.count = none → x.id ≠ o.id := by
    intro x hx hopen heq
    rw [eq_of_id_eq h.once hx ho heq, hcount] at hopen
    cases hopen
  unfold finish
  by_cases hread : res.taskId = c.tls.taskBytesRead ∧ ¬ c.tls.taskBytesRFin
  · rw [if_pos hread]
    obtain ⟨htask, hfin⟩ := hread
    have hlanded : c.landed = count := by
      rw [landed, if_neg hfin, ← htask, hid, countOf_eq h.once ho, hcount]
      rfl
    have hsize : (c.tls.eReadS + res.returnCode.toNat) + 0 = c.tls.eReadS + c.landed := by
      rw [hrc, hlanded]
      rfl
    refine ⟨⟨h.output, h.held, ?_, h.empty⟩, h.fresh, h.once, h.positive, ?_, h.writes, ?_, ?_⟩
    · refine Eq.trans ?_ h.input
      show c.tls.taken ++ c.tls.eRead.take ((c.tls.eReadS + res.returnCode.toNat) + 0) = _
      rw [hsize]
      rfl
    · intro x hx len readAll hfn hopen
      have hops := h.reads x hx len readAll hfn hopen
      exact absurd ((Prod.mk.inj hops).1.symm.trans (htask.symm.trans hid)) (hother x hx hopen)
    · intro hr
      cases hr
    · show (c.tls.eReadS + res.returnCode.toNat) + 0 ≤ c.tls.eRead.length
      rw [hsize]
      exact h.backed
  · rw [if_neg hread]
    by_cases hwrite : res.taskId = c.tls.taskBytesWrite
    · rw [if_pos hwrite]
      refine ⟨⟨h.output, h.held, h.input, h.empty⟩, h.fresh, h.once, h.positive, h.reads, ?_, h.current,
        h.backed⟩
      intro x hx data hfn hopen
      have hops := h.writes x hx data hfn hopen
      exact absurd ((Prod.mk.inj hops).1.symm.trans (hwrite.symm.trans hid)) (hother x hx hopen)
    · rw [if_neg hwrite]
      exact h

/-! ### Runs -/

theorem step_inv (h : c.Inv) {a : Action} (hp : c.Possible a) (hstep : c.step a = .ok c') :
    c'.Inv := by
  cases a with
  | read id len readAll answers =>
    simp only [step] at hstep
    split at hstep
    · cases hstep
    · rename_i tls es hrun
      obtain rfl := Except.ok.inj hstep
      exact moved_inv h (read_moved _ _ _ _ hp hrun)
  | write id data answers =>
    simp only [step] at hstep
    split at hstep
    · cases hstep
    · rename_i tls es hrun
      obtain rfl := Except.ok.inj hstep
      exact moved_inv h (write_moved _ _ _ hp hrun)
  | receives op chunk =>
    obtain ⟨o, ho, rfl, hcount, len, readAll, hfn, hpos, -⟩ := hp
    exact receives_inv h ho hcount hfn hpos hstep
  | sends op count =>
    obtain ⟨o, ho, rfl, -, data, hfn, hpos, -⟩ := hp
    exact sends_inv h ho hfn hpos hstep
  | notifies op proc status count answers =>
    obtain ⟨⟨o, ho, rfl, hcount⟩, hhonest⟩ := hp
    simp only [step] at hstep
    split at hstep
    · cases hstep
    · rename_i y tls es hrun
      obtain rfl := Except.ok.inj hstep
      have hpos : 0 < (message o.id proc status count).returnCode :=
        Int.natCast_pos.mpr (h.positive o ho count hcount)
      exact moved_inv (c := { c with tls := c.tls.finish (message o.id proc status count) })
        (finish_inv h ho hcount rfl rfl) (onYield_moved answers hpos hhonest hrun)

/-- In every state of a run the bytes that were passed to the byte socket and those in `writebuf_`
are the output of OpenSSL, and those that OpenSSL took and those that wait at `e_read_` are the
bytes that arrived; `e_write_` has the bytes of the write that is under way, and a read is started
only when nothing waits. -/
theorem intact_of_reached (server : Bool) {c : Stream}
    (h : Reached step Possible (start server) c) : c.Intact :=
  (h.invariant (start_inv server) fun _ _ _ hinv hp hstep => step_inv hinv hp hstep).toIntact

/-- A task reads. OpenSSL has ten bytes to send first, which take two writes, then it gets three
bytes and takes two of them. -/
def greeting : List Action :=
  [.read 1 4 false [{ produced := "server key".toList }],
    .sends (some 0) 8,
    .notifies (some 0) 1 .finished 8 [{}],
    .sends (some 1) 2,
    .notifies (some 1) 1 .finished 2 [{}],
    .receives (some 2) ['a', 'b', 'c'],
    .notifies (some 2) 1 .finished 3
      [{ asks := [1, 1], outcome := .none [] }, { outcome := .none ['x'] }, { asks := [1] }]]

theorem greeting_possible : Meets step Possible greeting (start true) := by
  refine ⟨.of_decide rfl, ⟨_, List.mem_cons_self, rfl, rfl, _, rfl, by decide, by decide⟩,
    ⟨⟨_, List.mem_cons_self, rfl, rfl⟩, .of_decide rfl⟩,
    ⟨_, List.mem_cons_of_mem _ List.mem_cons_self, rfl, rfl, _, rfl, by decide, by decide⟩,
    ⟨⟨_, List.mem_cons_of_mem _ List.mem_cons_self, rfl, rfl⟩, .of_decide rfl⟩,
    ⟨_, List.mem_cons_of_mem _ (List.mem_cons_of_mem _ List.mem_cons_self), rfl, rfl, _, _, rfl,
      by decide, by decide⟩,
    ⟨⟨_, List.mem_cons_of_mem _ (List.mem_cons_of_mem _ List.mem_cons_self), rfl, rfl⟩,
      .of_decide rfl⟩, trivial⟩

/-- One byte waits in the end. -/
theorem greeting_intact : ∃ c, runActions step greeting (start true) = .ok c ∧ c.Intact ∧
    c.passed = "server key".toList ∧ c.tls.taken = ['a', 'b'] ∧ c.waiting = ['c'] := by
  refine ⟨_, rfl, ?_, ?_⟩
  · exact intact_of_reached true (reached_of_runActions .start greeting_possible rfl)
  · decide

end Stream

end LocalSoftware.Tls
