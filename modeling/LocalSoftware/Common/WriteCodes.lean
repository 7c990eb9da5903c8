import LocalSoftware.Common.ByteRanges
import LocalSoftware.Common.ReadWriteHttp
import LocalSoftware.Common.TlsStream
import Mathlib.Algebra.Ring.Int.Defs

/-!
# The return codes of large writes

A write counts its bytes in a `size_t` and reports the count as an `int`, which `on_yield` of
`ReadWriteHTTP` compares with zero and uses as a number of bytes again. `write_codes` says for which
sizes of a response the code of a complete write is its size: over a plain socket for those below
2 GiB, where those from 4 GiB on are never complete, and over a TLS socket for those below 2 GiB.
-/

set_option autoImplicit false

namespace LocalSoftware.WriteCodes

open ByteRanges (bytes prepRw)

/-! ## A plain socket -/

/-- The kernel carries out one write of `n` bytes. A result is a positive `int`, and at most the length
of the entry. -/
def Carried (n : Nat) (s : ByteRanges.Socket) : ByteRanges.Action → Prop
  | .write _ len => len = n ∧ s.task .write = none
  | .result .write r =>
    0 < r ∧ r < 2 ^ 31 ∧ ∀ t ∈ s.task .write, ∀ req ∈ t.pending.head?, r ≤ req.len
  | _ => False

/-- `prepare_write` reports this code for a write of `n` bytes that were all transferred. -/
def PlainCode (n : Nat) (code : Int) : Prop :=
  ∃ s t failed, Reached ByteRanges.Socket.step (Carried n) {} s ∧ s.task .write = some t ∧
    bytes t.answered = n ∧ (failed, code) ∈ t.reports

/-- How far a write of `n` bytes is. The number of whole 4 GiB in the rest never changes. -/
inductive Progress (n : Nat) (s : ByteRanges.Socket) (t : ByteRanges.Task) : Prop where
  | running (hleft : bytes t.answered < n)
      (hpending : t.pending = [prepRw (t.buf + bytes t.answered) (n - bytes t.answered)])
      (hreports : t.reports = [])
      (hside : s.object.side .write = ⟨t.buf, n - bytes t.answered, bytes t.answered⟩)
      (hwhole : (n - bytes t.answered) / 2 ^ 32 = n / 2 ^ 32)
  | complete (hall : bytes t.answered = n) (hpending : t.pending = [])
      (hreports : t.reports = [(false, toInt n)]) (hsmall : n < 2 ^ 32)

section Plain

variable {n : Nat} {s s' : ByteRanges.Socket} {t : ByteRanges.Task} {r : Int}

/-- The first request. -/
theorem write_progress (hn : 0 < n) (buf : Nat) (hstep : s.step (.write buf n) = .ok s') :
    ∃ t, s'.task .write = some t ∧ Progress n s' t := by
  have hrun : (s.object.write buf n).run {} = .ok (
      { s.object with writeBuffer := buf, writeBytesLeft := n, writeTotalProcessed := 0 },
      EventState.queueUring {} ByteRanges.Direction.write.op (prepRw buf n)) := rfl
  have hbegin : s.begin .write buf n true (s.object.write buf n) = .ok s' := hstep
  unfold ByteRanges.Socket.begin at hbegin
  rw [hrun] at hbegin
  obtain rfl := Except.ok.inj hbegin
  refine ⟨_, ByteRanges.task_submit s .write _ _ _, ?_⟩
  exact .running hn rfl rfl rfl rfl

/-- A result of the kernel leaves a rest, which is requested next, or completes the write. -/
theorem result_progress (h : Progress n s t) (ht : s.task .write = some t) (hpos : 0 < r)
    (hle : ∀ req ∈ t.pending.head?, r ≤ (req.len : Int))
    (hstep : s.step (.result .write r) = .ok s') :
    ∃ t', s'.task .write = some t' ∧ Progress n s' t' ∧
      bytes t'.answered = bytes t.answered + r.toNat := by
  unfold ByteRanges.Socket.step at hstep
  cases h with
  | complete _ hpending _ _ =>
    simp only [ht, hpending] at hstep
    cases hstep
  | running hleft hpending hreports hside hwhole =>
    have hreq := hle _ (congrArg List.head? hpending)
    have hbytes : bytes (t.answered ++
        [(prepRw (t.buf + bytes t.answered) (n - bytes t.answered), r)]) =
        bytes t.answered + r.toNat := by
      rw [ByteRanges.bytes_append, ByteRanges.bytes_singleton]
    -- the length of an entry is 32 bits wide, so a result is at most the rest modulo 2^32
    have hrest : r.toNat ≤ (n - bytes t.answered) % 2 ^ 32 := Int.toNat_le.2 hreq
    have hdiv := Nat.div_add_mod (n - bytes t.answered) (2 ^ 32)
    have hdivn := Nat.div_add_mod n (2 ^ 32)
    simp only [ht, hpending, ByteRanges.ReadWriteBytes.onYield_pos s.object .write hpos, hside] at hstep
    -- the two branches of `prepare_write`
    by_cases hmore : s.object.sticky .write = true ∧ 0 < n - bytes t.answered - r.toNat
    · rw [if_pos hmore] at hstep
      obtain rfl := Except.ok.inj hstep
      have hsub : n - bytes t.answered - r.toNat = n - (bytes t.answered + r.toNat) :=
        Nat.sub_sub _ _ _
      have hnext : s.object.nextRequest .write r.toNat =
          prepRw (t.buf + (bytes t.answered + r.toNat)) (n - (bytes t.answered + r.toNat)) := by
        unfold ByteRanges.ReadWriteBytes.nextRequest
        rw [hside, ← hsub]
      refine ⟨_, ByteRanges.task_submit s .write _ _ _, .running ?_ ?_ ?_ ?_ ?_, hbytes⟩
      · rw [hbytes]
        omega
      · rw [ByteRanges.queued_queueUring, List.nil_append, hbytes, hnext]
      · rw [Option.toList_none, List.append_nil]
        exact hreports
      · rw [hbytes, ← hsub]
        exact (ByteRanges.ReadWriteBytes.side_advance _ _ _).trans (by rw [hside])
      -- the result takes nothing from the whole 4 GiB of the rest
      · rw [hbytes, ← hwhole]
        omega
    -- nothing is left, so there never was a whole 4 GiB
    · rw [if_neg hmore] at hstep
      obtain rfl := Except.ok.inj hstep
      have hdone : n - bytes t.answered - r.toNat = 0 := by
        have hzero := not_and.1 hmore rfl
        omega
      have hall : bytes t.answered + r.toNat = n := by omega
      refine ⟨_, ByteRanges.task_submit s .write _ _ _, .complete ?_ rfl ?_ ?_, hbytes⟩
      · rw [hbytes, hall]
      · rw [Option.toList_some, hreports, hall]
        rfl
      · omega

/-- A pending request can be answered. -/
theorem result_ok (h : Progress n s t) (ht : s.task .write = some t) (hleft : bytes t.answered < n)
    (hpos : 0 < r) : ∃ s', s.step (.result .write r) = .ok s' := by
  cases h with
  | complete hall _ _ _ => exact absurd hall (Nat.ne_of_lt hleft)
  | running _ hpending _ _ _ =>
    unfold ByteRanges.Socket.step
    simp only [ht, hpending, ByteRanges.ReadWriteBytes.onYield_pos s.object .write hpos]
    split
    · exact ⟨_, rfl⟩
    · exact ⟨_, rfl⟩

/-- The states of the one write. -/
theorem carried_progress (hn : 0 < n) (h : Reached ByteRanges.Socket.step (Carried n) {} s) :
    s.task .write = none ∨ ∃ t, s.task .write = some t ∧ Progress n s t := by
  induction h with
  | start => exact Or.inl rfl
  | next a _ hG hstep ih =>
    right
    cases a with
    | read buf len readAll => exact absurd hG id
    | write buf len =>
      obtain ⟨rfl, -⟩ := hG
      exact write_progress hn buf hstep
    | result d r =>
      cases d with
      | read => exact absurd hG id
      | write =>
        obtain ⟨hpos, -, hle⟩ := hG
        rcases ih with hnone | ⟨t, ht, hprogress⟩
        · unfold ByteRanges.Socket.step at hstep
          simp only [hnone] at hstep
          cases hstep
        · obtain ⟨t', ht', hprogress', -⟩ := result_progress hprogress ht hpos (hle t ht) hstep
          exact ⟨t', ht', hprogress'⟩

/-- Byte after byte, a write of less than 4 GiB comes to its end. -/
theorem exists_all (hsmall : n < 2 ^ 32) (left : Nat)
    (h : Reached ByteRanges.Socket.step (Carried n) {} s) (ht : s.task .write = some t)
    (hprogress : Progress n s t) (hleft : bytes t.answered + left = n) :
    ∃ s' t', Reached ByteRanges.Socket.step (Carried n) {} s' ∧ s'.task .write = some t' ∧
      Progress n s' t' ∧ bytes t'.answered = n := by
  -- on the bytes that are left, with a kernel that transfers one byte at a time
  induction left generalizing s t with
  | zero => exact ⟨s, t, h, ht, hprogress, hleft⟩
  | succ left ih =>
    have hlt : bytes t.answered < n := by omega
    have hone : ∀ req ∈ t.pending.head?, (1 : Int) ≤ req.len := by
      intro req hreq
      cases hprogress with
      | complete hall _ _ _ => exact absurd hall (Nat.ne_of_lt hlt)
      | running _ hpending _ _ _ =>
        rw [hpending] at hreq
        obtain rfl := Option.some.inj hreq
        -- below 4 GiB the entry asks for the whole rest, which is not empty
        have hmod : (n - bytes t.answered) % 2 ^ 32 = n - bytes t.answered :=
          Nat.mod_eq_of_lt (Nat.lt_of_le_of_lt (Nat.sub_le _ _) hsmall)
        have hlen : (prepRw (t.buf + bytes t.answered) (n - bytes t.answered)).len =
            n - bytes t.answered := hmod
        rw [hlen]
        omega
    obtain ⟨s', hstep⟩ := result_ok hprogress ht hlt Int.one_pos
    obtain ⟨t', ht', hprogress', hbytes⟩ := result_progress hprogress ht Int.one_pos hone hstep
    have hcarried : Carried n s (.result .write 1) := by
      refine ⟨Int.one_pos, by decide, ?_⟩
      intro u hu
      obtain rfl := Option.some.inj (ht.symm.trans hu)
      exact hone
    refine ih (h.next _ hcarried hstep) ht' hprogress' ?_
    rw [hbytes, Int.toNat_one]
    omega

/-- What a write of less than 4 GiB reports when all of it was sent. -/
theorem plainCode_toInt (hn : 0 < n) (hsmall : n < 2 ^ 32) : PlainCode n (toInt n) := by
  have hwrite : Carried n {} (.write 0 n) := ⟨rfl, rfl⟩
  obtain ⟨t, ht, hprogress⟩ := write_progress (s := {}) hn 0 rfl
  have hfirst := Reached.next _ .start hwrite (rfl : ByteRanges.Socket.step {} (.write 0 n) = _)
  have hzero : ∃ left, bytes t.answered + left = n := by
    cases hprogress with
    | running hleft _ _ _ _ => exact ⟨_, Nat.add_sub_of_le (Nat.le_of_lt hleft)⟩
    | complete hall _ _ _ => exact ⟨0, hall⟩
  obtain ⟨left, hleft⟩ := hzero
  obtain ⟨s', t', hreached, ht', hprogress', hall⟩ :=
    exists_all hsmall left hfirst ht hprogress hleft
  refine ⟨s', t', false, hreached, ht', hall, ?_⟩
  cases hprogress' with
  | running hlt _ _ _ _ => exact absurd hall (Nat.ne_of_lt hlt)
  | complete _ _ hreports _ =>
    rw [hreports]
    exact List.mem_singleton_self _

/-- Nothing else is reported, and a write from 4 GiB on is never sent as a whole. -/
theorem eq_toInt_of_plainCode (hn : 0 < n) {code : Int} (h : PlainCode n code) :
    code = toInt n ∧ n < 2 ^ 32 := by
  obtain ⟨s, t, failed, hreached, ht, hall, hreport⟩ := h
  rcases carried_progress hn hreached with hnone | ⟨t', ht', hprogress⟩
  · rw [hnone] at ht
    cases ht
  · obtain rfl := Option.some.inj (ht'.symm.trans ht)
    cases hprogress with
    | running hlt _ _ _ _ => exact absurd hall (Nat.ne_of_lt hlt)
    | complete _ _ hreports hsmall =>
      rw [hreports, List.mem_singleton] at hreport
      exact ⟨(Prod.mk.inj hreport).2, hsmall⟩

end Plain

/-! ## A TLS socket -/

open Tls TlsSocket

/-- `handle_write` reports this code for a write of `n` bytes: a completion of the byte socket is for
the task that writes. -/
def TlsCode (n : Nat) (code : Int) : Prop :=
  ∃ server c op proc status count answers tls es,
    Reached Stream.step Stream.Possible (Stream.start server) c ∧
    c.Possible (.notifies op proc status count answers) ∧
    c.tls.taskWrite = some proc ∧ c.tls.taskRead ≠ some proc ∧ c.tls.uWrite.length = n ∧
    (c.tls.onYield answers (.childTaskCompletion (Stream.message op proc status count))).run
      { uringData := c.data } = .ok ((some (false, code), tls), es)

section Tls

variable {s s' : TlsSocket} {es es' : EventState Tls.vocabulary} {answers : List SslAnswer}
  {code : Int} {n : Nat}

theorem uWrite_osslcbRead (s : TlsSocket) (len : Nat) : (s.osslcbRead len).uWrite = s.uWrite := by
  unfold osslcbRead
  split
  · rfl
  · rfl

theorem uWrite_exchange (s : TlsSocket) (a : SslAnswer) : (s.exchange a).uWrite = s.uWrite := by
  have hasks : ∀ (asks : List Nat) (s : TlsSocket), (asks.foldl osslcbRead s).uWrite = s.uWrite := by
    intro asks
    induction asks with
    | nil => exact fun _ => rfl
    | cons len asks ih => exact fun s => (ih _).trans (uWrite_osslcbRead s len)
  exact hasks a.asks s

/-- A waiting handler reports nothing. -/
theorem waiting_ne {arm : Script Tls.vocabulary TlsSocket} {report : Bool × Int}
    (h : (do
      let s ← arm
      return (none, s) : Script Tls.vocabulary (Yielded × TlsSocket)).run es =
        .ok ((some report, s'), es')) : False := by
  cases (Script.run_wait_ok h).1

/-- The code of a write that succeeded is made of its length. -/
theorem writeFrame_code (h : (writeFrame answers s).run es = .ok ((some (false, code), s'), es')) :
    code = toInt s.uWrite.length := by
  cases hout : (answers.headD {}).outcome with
  | wantRead =>
    simp only [writeFrame, hout] at h
    exact (waiting_ne h).elim
  | error =>
    simp only [writeFrame, hout] at h
    cases h
  | none bytes =>
    simp only [writeFrame, hout] at h
    split at h
    · exact (waiting_ne h).elim
    · have hlength : ((s.exchange (answers.headD {})).sent bytes.length).uWrite = s.uWrite :=
        uWrite_exchange s _
      rw [hlength] at h
      have hreport := congrArg (fun r => r.1.1) (Except.ok.inj h)
      exact (Prod.mk.inj (Option.some.inj hreport)).2.symm

theorem uWrite_armRead (h : s.armRead.run es = .ok (s', es')) : s'.uWrite = s.uWrite := by
  unfold armRead at h
  split at h
  · obtain ⟨idx, hrest⟩ := Script.run_c_bind_ok h
    obtain ⟨rfl, -⟩ := Prod.mk.inj (Except.ok.inj hrest)
    rfl
  · obtain ⟨u, es₁, -, hrest⟩ := Script.run_bind_ok h
    obtain ⟨rfl, -⟩ := Prod.mk.inj (Except.ok.inj hrest)
    rfl

theorem uWrite_armWrite (h : s.armWrite.run es = .ok (s', es')) : s'.uWrite = s.uWrite := by
  unfold armWrite at h
  split at h
  · obtain ⟨idx, hrest⟩ := Script.run_c_bind_ok h
    obtain ⟨rfl, -⟩ := Prod.mk.inj (Except.ok.inj hrest)
    rfl
  · obtain ⟨u, es₁, -, hrest⟩ := Script.run_bind_ok h
    obtain ⟨rfl, -⟩ := Prod.mk.inj (Except.ok.inj hrest)
    rfl

/-- The handshake fails, or it reports nothing; it does not touch what is to be written. -/
theorem handshake_cases {a : SslAnswer} {y : Yielded}
    (h : (s.handleHandshake a).run es = .ok ((y, s'), es')) :
    s'.uWrite = s.uWrite ∧ (y = none ∨ y = some (true, -1)) := by
  have hexchange := uWrite_exchange s a
  cases hout : a.outcome with
  | wantRead =>
    simp only [handleHandshake, hout] at h
    obtain ⟨rfl, harm⟩ := Script.run_wait_ok h
    unfold armWanted at harm
    split at harm
    · exact ⟨(uWrite_armWrite harm).trans hexchange, Or.inl rfl⟩
    · exact ⟨(uWrite_armRead harm).trans hexchange, Or.inl rfl⟩
  | error =>
    simp only [handleHandshake, hout] at h
    obtain ⟨⟨rfl, rfl⟩, -⟩ := Prod.mk.inj (Except.ok.inj h)
    exact ⟨hexchange, Or.inr rfl⟩
  | none bytes =>
    simp only [handleHandshake, hout] at h
    obtain ⟨⟨rfl, rfl⟩, -⟩ := Prod.mk.inj (Except.ok.inj h)
    exact ⟨hexchange, Or.inl rfl⟩

theorem handleWrite_code (h : (s.handleWrite answers).run es = .ok ((some (false, code), s'), es')) :
    code = toInt s.uWrite.length := by
  unfold handleWrite handle at h
  cases hstate : s.state with
  | failed =>
    simp only [hstate] at h
    cases h
  | full =>
    simp only [hstate] at h
    exact writeFrame_code h
  -- the handshake must be complete in this call for a frame to be written
  | waitHello =>
    simp only [hstate] at h
    obtain ⟨⟨res, s₁⟩, es₁, hshake, h⟩ := Script.run_bind_ok h
    obtain ⟨hkeep, rfl | rfl⟩ := handshake_cases hshake
    · dsimp only at h
      rw [if_neg (by decide)] at h
      split at h
      · rw [← hkeep]
        exact writeFrame_code h
      · cases h
    · cases h

theorem finish_same (s : TlsSocket) (res : ChildTaskCompletion) :
    (s.finish res).uWrite = s.uWrite ∧ (s.finish res).taskRead = s.taskRead ∧
      (s.finish res).taskWrite = s.taskWrite := by
  unfold finish
  split
  · exact ⟨rfl, rfl, rfl⟩
  · split
    · exact ⟨rfl, rfl, rfl⟩
    · exact ⟨rfl, rfl, rfl⟩

theorem eq_toInt_of_tlsCode (h : TlsCode n code) : code = toInt n := by
  obtain ⟨server, c, op, proc, status, count, answers, tls, es, -, -, hwrite, hread, hlength, hrun⟩ := h
  obtain ⟨hkeep, hkeepRead, hkeepWrite⟩ :=
    finish_same c.tls (Stream.message op proc status count)
  unfold onYield at hrun
  dsimp only at hrun
  split at hrun
  · cases hrun
  -- the result belongs to the write, so `handle_write` reports
  · have hnotRead : ¬ (Stream.message op proc status count).callingId =
        (c.tls.finish (Stream.message op proc status count)).taskRead := by
      rw [hkeepRead]
      exact fun heq => hread heq.symm
    have hisWrite : (Stream.message op proc status count).callingId =
        (c.tls.finish (Stream.message op proc status count)).taskWrite := by
      rw [hkeepWrite]
      exact hwrite.symm
    rw [if_neg hnotRead, if_pos hisWrite] at hrun
    rw [handleWrite_code hrun, hkeep, hlength]

/-! OpenSSL makes one byte of output of each frame. -/

/-- The answer for the next frame of a write with this rest. -/
def frame (left : Nat) : SslAnswer where
  produced := ['x']
  outcome := .none (List.replicate (min left maxUFrameLength) 'x')

/-- The answer when nothing is left: no output, and nothing is taken. -/
def noFrame : SslAnswer where
  outcome := .none []

/-- The task 1 writes `n` bytes, of which `left` were not taken yet. -/
structure Ready (n left : Nat) (s : TlsSocket) : Prop where
  state : s.state = .full
  taskRead : s.taskRead = none
  taskWrite : s.taskWrite = some 1
  readFin : s.taskBytesRFin = true
  writebuf : s.writebuf = []
  length : s.uWrite.length = n
  rest : s.uWrite.length - s.uWriteP = left
  nothing : s.eReadS = 0

/-- The byte socket has the output for the bytes that were taken. -/
structure Writing (n left : Nat) (c : Stream) : Prop where
  ready : Ready n left c.tls
  slot : c.data.evinfo () 0 = .ok { event := some 1 }
  pending : ∃ o ∈ c.armed, o.id = c.tls.taskBytesWrite ∧ o.count = none ∧ o.fn = .write ['x']

/-- The object after a frame. -/
def framed (s : TlsSocket) (left : Nat) (op : Id) : TlsSocket :=
  { s with
    writebuf := [], produced := s.produced ++ ['x']
    uWriteP := s.uWriteP + min (min left maxUFrameLength)
      (min (s.uWrite.length - s.uWriteP) maxUFrameLength)
    eWrite := ['x'], taskBytesWrite := op, taskBytesWFin := false }

/-- The output of a frame is passed on at once. -/
theorem writeFrame_frame {info : EventInfo} (left : Nat) (hfin : s.taskBytesWFin = true)
    (hbuf : s.writebuf = []) (hslot : es.uringData.evinfo () 0 = .ok info) :
    (writeFrame [frame left] s).run es =
      .ok ((none, framed s left (some es.uringData.localProcId)),
        (es.callAt (V := Tls.vocabulary) () 0 (.write ['x'])).2) := by
  have hcall := EventState.call_of_evinfo (s := es) hslot (.write ['x'])
  have hsent : ((s.exchange (frame left)).sent (min left maxUFrameLength)).writebuf = ['x'] := by
    show s.writebuf ++ ['x'] = ['x']
    rw [hbuf, List.nil_append]
  have hunsent : ((s.exchange (frame left)).sent (min left maxUFrameLength)).Unsent := by
    left
    rw [hsent]
    exact List.cons_ne_nil _ _
  have hfin' : ((s.exchange (frame left)).sent (min left maxUFrameLength)).taskBytesWFin = true :=
    hfin
  have hout : (frame left).outcome = .none (List.replicate (min left maxUFrameLength) 'x') := rfl
  -- the byte socket is idle and there is output, so the output is written
  simp only [writeFrame, List.headD_cons, hout, List.length_replicate, if_pos hunsent, armWrite,
    hfin', if_true, hsent, Script.run_bind, Script.run_c]
  have htake : ['x'].take sizeofPtr = ['x'] := rfl
  rw [htake, hcall]
  rfl

/-- The next frame. -/
theorem frame_step {c : Stream} {left : Nat} (h : Ready n left s) (hfin : s.taskBytesWFin = true)
    (hslot : c.data.evinfo () 0 = .ok { event := some 1 }) :
    ∃ tls es, (writeFrame [frame left] s).run { uringData := c.data } = .ok ((none, tls), es) ∧
      Writing n (left - min left maxUFrameLength) (c.settle tls es) := by
  refine ⟨_, _, writeFrame_frame left hfin h.writebuf hslot, ?_, hslot, ?_⟩
  · refine ⟨h.state, h.taskRead, h.taskWrite, h.readFin, rfl, h.length, ?_, h.nothing⟩
    have hrest := h.rest
    show s.uWrite.length - (s.uWriteP + min (min left maxUFrameLength)
      (min (s.uWrite.length - s.uWriteP) maxUFrameLength)) = left - min left maxUFrameLength
    rw [hrest, Nat.min_self, ← Nat.sub_sub, hrest]
  · exact ⟨_, List.mem_append_right _ (List.mem_singleton_self _), rfl, rfl, rfl⟩

theorem honest_frame (left : Nat) : Honest 0 [frame left] := ⟨fun _ => rfl, rfl⟩

/-- The call of `write`, with the handshake. -/
theorem start_writing (n : Nat) (data : Str) (hdata : data.length = n) :
    ∃ c left, Reached Stream.step Stream.Possible (Stream.start true) c ∧ Writing n left c := by
  have hready : Ready n n ({ server := true, taskWrite := some 1, uWrite := data, state := .full }) :=
    ⟨rfl, rfl, rfl, rfl, rfl, hdata, hdata, rfl⟩
  obtain ⟨tls, es, hrun, hwriting⟩ := frame_step (c := Stream.start true) hready rfl rfl
  have hstep : (Stream.start true).step
      (.write 1 data [noFrame, frame n]) = .ok ((Stream.start true).settle tls es) := by
    have hhandle : (handleWrite ((Stream.start true).tls.startWrite (some 1) data)
        [noFrame, frame n]).run { uringData := (Stream.start true).data } =
          .ok ((none, tls), es) := hrun
    simp only [Stream.step, TlsSocket.write, Script.run_bind, hhandle, Script.run_pure]
  have hpossible : (Stream.start true).Possible (.write 1 data [noFrame, frame n]) :=
    ⟨fun _ => rfl, honest_frame n⟩
  exact ⟨_, _, .next _ .start hpossible hstep, hwriting⟩

/-- The byte socket sent the byte of a frame. -/
theorem sends_pending {c : Stream} {left : Nat} (h : Writing n left c) :
    ∃ c', c.step (.sends c.tls.taskBytesWrite 1) = .ok c' ∧
      c.Possible (.sends c.tls.taskBytesWrite 1) ∧ c'.tls = c.tls ∧ c'.data = c.data ∧
      ∃ o ∈ c'.armed, o.id = c.tls.taskBytesWrite ∧ o.count = some 1 := by
  obtain ⟨o, ho, hid, hcount, hfn⟩ := h.pending
  refine ⟨_, rfl, ⟨o, ho, hid, hcount, ['x'], hfn, Nat.one_pos, Nat.le_refl 1⟩, rfl, rfl, ?_⟩
  refine ⟨o.complete c.tls.taskBytesWrite 1, List.mem_map_of_mem ho, ?_, ?_⟩
  · unfold Operation.complete
    rw [if_pos hid]
    exact hid
  · unfold Operation.complete
    rw [if_pos hid]

/-- The report of it leads to the next call of OpenSSL. -/
theorem onYield_sent {left : Nat} (h : Ready n left s) (answers : List SslAnswer) :
    s.finish (Stream.message s.taskBytesWrite 1 .finished 1) = { s with taskBytesWFin := true } ∧
    s.onYield answers (.childTaskCompletion (Stream.message s.taskBytesWrite 1 .finished 1)) =
      writeFrame answers { s with taskBytesWFin := true } := by
  have hfinish : s.finish (Stream.message s.taskBytesWrite 1 .finished 1) =
      { s with taskBytesWFin := true } := by
    have hread : ¬ ((Stream.message s.taskBytesWrite 1 .finished 1).taskId = s.taskBytesRead ∧
        ¬ s.taskBytesRFin = true) := fun hboth => hboth.2 h.readFin
    unfold finish
    rw [if_neg hread]
    exact if_pos rfl
  refine ⟨hfinish, ?_⟩
  have hpositive : ¬ (Stream.message s.taskBytesWrite 1 .finished 1).returnCode ≤ 0 :=
    Int.not_le.2 Int.one_pos
  have hnotRead : ¬ (Stream.message s.taskBytesWrite 1 .finished 1).callingId = s.taskRead := by
    rw [h.taskRead]
    exact Option.some_ne_none 1
  have hisWrite : (Stream.message s.taskBytesWrite 1 .finished 1).callingId = s.taskWrite :=
    h.taskWrite.symm
  simp only [onYield, if_neg hpositive, hfinish, if_neg hnotRead, if_pos hisWrite, handleWrite,
    handle, h.state]

/-- When everything was taken and passed on, the write is complete. -/
theorem writeFrame_last (h : Ready n 0 s) (es : EventState Tls.vocabulary) :
    ∃ s', (writeFrame [noFrame] s).run es = .ok ((some (false, toInt n), s'), es) := by
  have hbuf : ((s.exchange noFrame).sent 0).writebuf = [] :=
    (List.append_nil _).trans h.writebuf
  have hrest : s.uWrite.length - (s.uWriteP + 0) = 0 := h.rest
  have hsent : ¬ ((s.exchange noFrame).sent 0).Unsent := by
    rintro (hne | hleft)
    · exact hne hbuf
    · rw [show ((s.exchange noFrame).sent 0).uWriteP = s.uWriteP + 0 from
        congrArg (s.uWriteP + ·) (Nat.zero_min _)] at hleft
      exact hleft hrest
  have hout : noFrame.outcome = .none [] := rfl
  have hlength : ((s.exchange noFrame).sent 0).uWrite.length = n := h.length
  refine ⟨(s.exchange noFrame).sent 0, ?_⟩
  simp only [writeFrame, List.headD_cons, hout, List.length_nil, if_neg hsent, hlength,
    Script.run_pure]

/-- Frame after frame, a write comes to its end. -/
theorem tlsCode_of_writing (left : Nat) {c : Stream}
    (hreached : Reached Stream.step Stream.Possible (Stream.start true) c) (h : Writing n left c) :
    TlsCode n (toInt n) := by
  -- on the bytes that OpenSSL has not taken: every frame takes at least one
  induction left using Nat.strongRecOn generalizing c with
  | ind left ih =>
    obtain ⟨c', hsends, hpossible, htls, hdata, hsent⟩ := sends_pending h
    have hreached' := hreached.next _ hpossible hsends
    have hready : Ready n left c'.tls := by
      rw [htls]
      exact h.ready
    rw [← htls] at hsent
    have hready' : Ready n left { c'.tls with taskBytesWFin := true } :=
      ⟨hready.state, hready.taskRead, hready.taskWrite, hready.readFin, hready.writebuf,
        hready.length, hready.rest, hready.nothing⟩
    rcases Nat.eq_zero_or_pos left with rfl | hpos
    · -- everything was taken: OpenSSL is called once more, with nothing
      obtain ⟨hfinish, hyield⟩ := onYield_sent hready [noFrame]
      obtain ⟨tls, hrun⟩ := writeFrame_last hready' { uringData := c'.data }
      have hnotRead : c'.tls.taskRead ≠ some 1 := by
        rw [hready.taskRead]
        exact (Option.some_ne_none 1).symm
      refine ⟨true, c', c'.tls.taskBytesWrite, 1, .finished, 1, [noFrame], tls,
        { uringData := c'.data }, hreached', ⟨hsent, ?_⟩, hready.taskWrite, hnotRead, hready.length, ?_⟩
      · rw [hfinish]
        exact ⟨fun _ => (Nat.sub_zero _).trans hready.nothing, (Nat.sub_zero _).trans hready.nothing⟩
      · rw [hyield]
        exact hrun
    -- the next frame is passed on, with less of the data left
    · have hstep : left - min left maxUFrameLength < left := by
        have hmax : 0 < maxUFrameLength := by decide
        omega
      obtain ⟨hfinish, hyield⟩ := onYield_sent hready [frame left]
      obtain ⟨tls, es, hrun, hwriting⟩ := frame_step hready' rfl (hdata ▸ h.slot)
      refine ih _ hstep (hreached'.next (.notifies c'.tls.taskBytesWrite 1 .finished 1 [frame left])
        ⟨hsent, ?_⟩ ?_) hwriting
      · rw [hfinish]
        exact hready.nothing.symm ▸ honest_frame left
      · simp only [Stream.step, hyield, hrun]

/-- What a write reports when all of it was sent. -/
theorem tlsCode_toInt (n : Nat) : TlsCode n (toInt n) := by
  obtain ⟨c, left, hreached, hwriting⟩ := start_writing n (List.replicate n 'x') List.length_replicate
  exact tlsCode_of_writing left hreached hwriting

end Tls

/-! ## The HTTP socket -/

/-- The code of a complete write is taken for what it is: `on_yield` of `ReadWriteHTTP` removes the
bytes that were written from `write_buffer_`, and the response is complete. -/
structure Accepted (n : Nat) (code : Int) : Prop where
  positive : 0 < code
  size : code = n
  consumed : ∀ (B : Http.Beast) (s : Http.ReadWriteHttp B)
    (es : EventState Http.ReadWriteHttp.vocabulary) (c : ChildTaskCompletion),
    s.readOp = false → s.writeBuffer.data.length = n → c.returnCode = code →
      ∃ s', (s.onYield (.childTaskCompletion c)).run es = .ok ((some (false, 1), s'), es) ∧
        s'.writeBuffer.data = []

section Codes

variable {n : Nat} {code : Int}

theorem accepted_of_eq (hn : 0 < n) (h : code = n) : Accepted n code where
  positive := by omega
  size := h
  consumed := by
    intro B s es c hop hlength hcode
    have hpos : 0 < c.returnCode := by omega
    have htoNat : c.returnCode.toNat = n := by omega
    have hall : s.writeBuffer.data.drop c.returnCode.toNat = [] :=
      List.drop_eq_nil_of_le (by omega)
    exact ⟨_, Http.ReadWriteHttp.run_onYield_write_done hop hpos hall, hall⟩

/-- An `int` has room for sizes below 2 GiB. -/
theorem toInt_eq_iff : toInt n = n ↔ n < 2 ^ 31 := by
  constructor
  -- a signed value is below 2^31
  · intro h
    have hlt : Int.bmod n 4294967296 < ((4294967296 : Nat) + 1 : Int) / 2 :=
      Int.bmod_lt (by decide)
    unfold toInt at h
    omega
  · intro h
    exact Int.bmod_eq_of_le (by omega) (by omega)

theorem accepted_toInt_iff (hn : 0 < n) : Accepted n (toInt n) ↔ n < 2 ^ 31 :=
  ⟨fun h => toInt_eq_iff.1 h.size, fun h => accepted_of_eq hn (toInt_eq_iff.2 h)⟩

end Codes

/-- A plain socket reports the size of a response for sizes below 2 GiB, and from 4 GiB on, where it
never reports that all was sent; a TLS socket reports it for sizes below 2 GiB. -/
theorem write_codes {n : Nat} (hn : 0 < n) :
    ((∀ code, PlainCode n code → Accepted n code) ↔ n < 2 ^ 31 ∨ 2 ^ 32 ≤ n) ∧
      ((∀ code, TlsCode n code → Accepted n code) ↔ n < 2 ^ 31) := by
  constructor
  · constructor
    · intro h
      -- below 4 GiB the write is complete, and its code has to be right
      rcases Nat.lt_or_ge n (2 ^ 32) with hsmall | hlarge
      · exact Or.inl ((accepted_toInt_iff hn).1 (h _ (plainCode_toInt hn hsmall)))
      · exact Or.inr hlarge
    · rintro (hsmall | hlarge) code hcode
      · rw [(eq_toInt_of_plainCode hn hcode).1]
        exact (accepted_toInt_iff hn).2 hsmall
      -- from 4 GiB on no code is reported
      · exact absurd (eq_toInt_of_plainCode hn hcode).2 (Nat.not_lt.2 hlarge)
  · constructor
    · intro h
      exact (accepted_toInt_iff hn).1 (h _ (tlsCode_toInt n))
    · intro hsmall code hcode
      rw [eq_toInt_of_tlsCode hcode]
      exact (accepted_toInt_iff hn).2 hsmall

theorem write_codes_one :
    ((∀ code, PlainCode 1 code → Accepted 1 code) ↔ 1 < 2 ^ 31 ∨ 2 ^ 32 ≤ 1) ∧
      ((∀ code, TlsCode 1 code → Accepted 1 code) ↔ 1 < 2 ^ 31) := write_codes Nat.one_pos

/-- A response of 2 GiB is sent, and its code is negative. -/
theorem two_gib_code : PlainCode 2147483648 (-2147483648) ∧ TlsCode 2147483648 (-2147483648) ∧
    ¬ Accepted 2147483648 (-2147483648) := by
  have hcode : toInt 2147483648 = -2147483648 := rfl
  refine ⟨?_, ?_, fun h => absurd h.positive (by decide)⟩
  · rw [← hcode]
    exact plainCode_toInt (by decide) (by decide)
  · rw [← hcode]
    exact tlsCode_toInt 2147483648

end LocalSoftware.WriteCodes
