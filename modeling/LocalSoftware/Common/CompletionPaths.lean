import LocalSoftware.Common.CompletionRuns

/-!
# The two ways in which a procedure ends

A procedure has its result from `CallResponse.ret`, at the end of `function_call`, or from what
`on_yield` returns, in `data_received`. `CallRun` and `DataRun` are the two functions up to the test
of that result. `paths_agree_iff` shows when both leave the same entry of `proc_to_dat` and tell the
caller the same: `function_call` enters the return code and tests the caller's thread,
`data_received` does neither.
-/

set_option autoImplicit false

namespace LocalSoftware

variable {V : Vocabulary} {σ : Type}

namespace World

variable {P Q : Program V σ} {w w' w₁ v v₁ : World V σ} {t ctx : Nat} {ti : TargetInfo}
  {f : FunctionCall V} {m : Data} {resp : CallResponse} {y : Yielded} {event : EventType}
  {failed : Bool} {code : Int}

/-- `function_call` has reached the test of `resp.ret` in the state `w₁`. -/
structure CallRun (P : Program V σ) (t : Nat) (w : World V σ) (f : FunctionCall V)
    (resp : CallResponse) (w₁ : World V σ) : Prop where
  runs : ∃ o ctx heap es, (w.threads t).objInfo f.ti.objId = some o ∧ o.ptr = some ctx ∧
    (P.function f.call f.ti.objId f.ti.procId w.heap).run { uringData := w.contexts ctx } =
      .ok ((resp, heap), es) ∧
    ((w.enter t f o).afterHandler ctx es heap).processQueued t ctx f.ti es = .ok w₁

/-- `data_received` has reached the test of `res` in the state `v₁`, for an object and a procedure
that exist; `event` is the event with local identifiers. -/
structure DataRun (P : Program V σ) (t : Nat) (v : World V σ) (m : Data) (y : Yielded)
    (event : EventType) (v₁ : World V σ) : Prop where
  runs : ∃ o d ctx heap es, (v.threads t).objInfo m.ti.objId = some o ∧
    (v.threads t).procToDat m.ti.procId = some d ∧ o.ptr = some ctx ∧
    event = ((v.contexts ctx).mapEventData m.data).1 ∧
    (P.onYield m.ti.objId event v.heap).run
      { uringData := ((v.contexts ctx).mapEventData m.data).2 } = .ok ((y, heap), es) ∧
    ((v.note (.delivered t m event)).afterHandler ctx es heap).processQueued t ctx m.ti es = .ok v₁

/-- What the caller of a call is told about its result: one message, or none if no object made the
call. -/
def told (t : Nat) (f : FunctionCall V) (status : CallStatus) (code : Int) (t' : Nat) :
    List (EventVariant V) :=
  if f.ci.threadId = some t' then
    [.data (completion t f.ti f.ci.objId f.ci.procId status code)]
  else []

/-- The copies that the attached procedures get. -/
def copies (v : World V σ) (t : Nat) (m : Data) (event : EventType) (t' : Nat) :
    List (EventVariant V) :=
  if t' = t then ((v.threads t).alsoNotify m.ti.procId).map fun a =>
    .data { m with data := event, ti := { objId := a.1, procId := a.2 }, copy := true }
  else []

/-- Both functions end without a fault, leave the procedure with one status and one return code, and
tell the caller, and nobody else, the same. -/
def PathsAgree (P Q : Program V σ) (t : Nat) (f : FunctionCall V) (m : Data) (event : EventType)
    (failed : Bool) (code : Int) (w w₁ v v₁ : World V σ) : Prop :=
  ∃ w₂ v₂, w.functionCall P t f = .ok w₂ ∧ v.dataReceived Q t m = .ok v₂ ∧
    ((w₂.threads t).proc f.ti.procId).status = ((v₂.threads t).proc m.ti.procId).status ∧
    ((w₂.threads t).proc f.ti.procId).returnCode = ((v₂.threads t).proc m.ti.procId).returnCode ∧
    (∀ t', w₂.queues t' = w₁.queues t' ++ told t f (resultStatus failed) code t') ∧
    ∀ t', v₂.queues t' =
      v₁.queues t' ++ told t f (resultStatus failed) code t' ++ v₁.copies t m event t'

theorem CallRun.functionCall_eq (h : CallRun P t w f resp w₁) :
    w.functionCall P t f = w₁.respond t f resp := by
  obtain ⟨o, ctx, heap, es, ho, hptr, hrun, hqueued⟩ := h.runs
  unfold functionCall
  simp only [ho, hptr]
  have hrun' : (P.function f.call f.ti.objId f.ti.procId (w.enter t f o).heap).run
      { uringData := (w.enter t f o).contexts ctx } = .ok ((resp, heap), es) := hrun
  rw [hrun']
  simp only [hqueued]

theorem DataRun.dataReceived_eq (h : DataRun P t v m y event v₁) :
    v.dataReceived P t m = (v₁.report t m.ti y).map fun v₂ =>
      v₂.forward t { m with data := event } ((v₂.threads t).alsoNotify m.ti.procId) := by
  obtain ⟨o, d, ctx, heap, es, ho, hd, hptr, rfl, hrun, hqueued⟩ := h.runs
  unfold dataReceived
  simp only [ho, hd, hptr, hrun, hqueued]
  cases v₁.report t m.ti y <;> rfl

/-- No handler run touches `proc_to_dat`. -/
theorem Queued.procToDat {es : EventState V} (h : Queued t ctx ti es w w') (t' : Nat) :
    (w'.threads t').procToDat = (w.threads t').procToDat := by
  cases h with
  | decision => rfl
  | child q runThread hq => exact proj_setThread _ _ _ _ (·.procToDat) rfl
  | call q info locator target hq hslot hlocator hthread htarget =>
    exact proj_setThread _ _ _ _ (·.procToDat) rfl
  | uring q hq hfree => exact proj_setThread _ _ _ _ (·.procToDat) rfl
  | removeTimer q data hq hfree hdata => exact proj_setThread _ _ _ _ (·.procToDat) rfl
  | updateTimer q data hq hfree hdata htime =>
    apply Eq.trans
    · exact proj_setThread _ _ _ _ (·.procToDat) rfl
    · exact proj_setThread _ _ _ _ (·.procToDat) rfl
  | addTimer q hq hfree hnone =>
    apply Eq.trans
    · exact proj_setThread _ _ _ _ (·.procToDat) rfl
    · exact proj_setThread _ _ _ _ (·.procToDat) rfl
  | delete q thread hq hmem hthread => rfl
  | dropChild q hq => exact proj_setThread _ _ _ _ (·.procToDat) rfl
  | attach q hq => exact proj_setThread _ _ _ _ (·.procToDat) rfl

theorem Queued.size {es : EventState V} (h : Queued t ctx ti es w w') : w'.size = w.size := by
  cases h <;> rfl

theorem processQueued_procToDat {es : EventState V} (h : w.processQueued t ctx ti es = .ok w')
    (t' : Nat) : (w'.threads t').procToDat = (w.threads t').procToDat :=
  transGen_invariant (I := fun w' => (w'.threads t').procToDat = (w.threads t').procToDat)
    (processQueued_queued h) rfl fun _ _ hw hstep => (hstep.procToDat t').trans hw

theorem processQueued_size {es : EventState V} (h : w.processQueued t ctx ti es = .ok w') :
    w'.size = w.size :=
  transGen_invariant (I := fun w' => w'.size = w.size) (processQueued_queued h) rfl
    fun _ _ hw hstep => hstep.size.trans hw

theorem CallRun.size (h : CallRun P t w f resp w₁) : w₁.size = w.size := by
  obtain ⟨o, ctx, heap, es, -, -, -, hqueued⟩ := h.runs
  have hsize := processQueued_size hqueued
  exact hsize

theorem DataRun.size (h : DataRun P t v m y event v₁) : v₁.size = v.size := by
  obtain ⟨o, d, ctx, heap, es, -, -, -, -, -, hqueued⟩ := h.runs
  have hsize := processQueued_size hqueued
  exact hsize

/-- The entry of the procedure is the one from before the handler ran. -/
theorem DataRun.proc (h : DataRun P t v m y event v₁) (p : Id) :
    (v₁.threads t).proc p = (v.threads t).proc p := by
  obtain ⟨o, d, ctx, heap, es, -, -, -, -, -, hqueued⟩ := h.runs
  unfold ThreadData.proc
  rw [processQueued_procToDat hqueued]
  rfl

/-- The entry after `function_call` found a result. -/
theorem proc_setProc (td : ThreadData V) (id : Id) (d : CallDataThreaded) :
    (td.setProc id d).proc id = d := by
  unfold ThreadData.proc
  rw [ThreadData.procToDat_setProc, if_pos rfl]
  rfl

theorem forward_queues (v : World V σ) (d : Data) (attachers : List (Id × Id)) (t' : Nat) :
    (v.forward t d attachers).queues t' = v.queues t' ++ if t' = t then attachers.map fun a =>
      .data { d with ti := { objId := a.1, procId := a.2 }, copy := true } else [] := by
  induction attachers generalizing v with
  | nil =>
    rw [List.map_nil, ite_self, List.append_nil]
    rfl
  | cons a attachers ih =>
    rw [forward, ih, queues_enqueue]
    split <;> simp

theorem forward_threads (v : World V σ) (d : Data) (attachers : List (Id × Id)) :
    (v.forward t d attachers).threads = v.threads :=
  forward_invariant (I := fun v' => v'.threads = v.threads) rfl fun _ _ _ hv => hv

/-- `function_call` enters the result and tells the caller, if there is one. -/
theorem respond_result (hret : resp.ret = some (failed, code))
    (hthread : ∀ t', f.ci.threadId = some t' → t' < w.size) : ∃ w₂, w.respond t f resp = .ok w₂ ∧
      ((w₂.threads t).proc f.ti.procId).status = resultStatus failed ∧
      ((w₂.threads t).proc f.ti.procId).returnCode = code ∧
      ∀ t', w₂.queues t' = w.queues t' ++ told t f (resultStatus failed) code t' := by
  unfold respond
  simp only [hret]
  cases hci : f.ci.threadId with
  | none =>
    refine ⟨_, rfl, ?_, ?_, fun t' => ?_⟩
    · rw [threads_note, threads_setThread_self, proc_setProc]
    · rw [threads_note, threads_setThread_self, proc_setProc]
    · simp [told, hci]
  | some t₀ =>
    have hlt := hthread t₀ hci
    have hsize : ∀ td n, ((w.setThread t td).note n).size = w.size := fun _ _ => rfl
    simp only [push, hsize, if_neg (Nat.not_le.2 hlt), if_pos hlt]
    refine ⟨_, rfl, ?_, ?_, fun t' => ?_⟩
    · rw [threads_enqueue, threads_note, threads_setThread_self, proc_setProc]
    · rw [threads_enqueue, threads_note, threads_setThread_self, proc_setProc]
    · rw [queues_enqueue, told, hci]
      by_cases ht : t' = t₀
      · rw [if_pos ht, if_pos (congrArg some ht.symm)]
        rfl
      · rw [if_neg ht, if_neg fun h => ht (Option.some.inj h).symm, List.append_nil]
        rfl

/-- `data_received` leaves the return code, and tells the caller on the thread that is entered. -/
theorem report_result (failed : Bool) (code : Int) {d : CallDataThreaded} (hd : (v.threads t).proc f.ti.procId = d)
    (hback : d.backNotify = (f.ci.threadId, f.ci.objId, f.ci.procId)) {t₀ : Nat}
    (hthread : f.ci.threadId = some t₀) (hlt : t₀ < v.size) :
    ∃ v₂, v.report t f.ti (some (failed, code)) = .ok v₂ ∧
      ((v₂.threads t).proc f.ti.procId).status = resultStatus failed ∧
      ((v₂.threads t).proc f.ti.procId).returnCode = d.returnCode ∧
      (v₂.threads t).alsoNotify = (v.threads t).alsoNotify ∧
      ∀ t', v₂.queues t' = v.queues t' ++ told t f (resultStatus failed) code t' := by
  have hsize : ∀ td n, ((v.setThread t td).note n).size = v.size := fun _ _ => rfl
  unfold report
  simp only [hd, hback, hthread, push, hsize, if_pos hlt]
  refine ⟨_, rfl, ?_, ?_, ?_, fun t' => ?_⟩
  · rw [threads_enqueue, threads_note, threads_setThread_self, proc_setProc]
  · rw [threads_enqueue, threads_note, threads_setThread_self, proc_setProc]
  · rw [threads_enqueue, threads_note, threads_setThread_self]
    rfl
  · rw [queues_enqueue, told, hthread]
    by_cases ht : t' = t₀
    · rw [if_pos ht, if_pos (congrArg some ht.symm)]
      rfl
    · rw [if_neg ht, if_neg fun h => ht (Option.some.inj h).symm, List.append_nil]
      rfl

/-- Any other thread number is an index out of range. -/
theorem report_error (hback : ((v.threads t).proc ti.procId).backNotify.1 = f.ci.threadId)
    (hthread : ¬ ∃ t', f.ci.threadId = some t' ∧ t' < v.size) :
    v.report t ti (some (failed, code)) = .error .undefinedBehaviour := by
  have hsize : ∀ td n, ((v.setThread t td).note n).size = v.size := fun _ _ => rfl
  unfold report
  simp only [hback]
  cases hci : f.ci.threadId with
  | none => rfl
  | some t' =>
    have hle : ¬ t' < v.size := fun hlt => hthread ⟨t', hci, hlt⟩
    simp only [push, hsize, if_neg hle]

/-- The two ways agree exactly if the caller is on one of the threads, and the code is the one that the
entry has already. -/
theorem paths_agree_of_caller (hcall : CallRun P t w f resp w₁) (hret : resp.ret = some (failed, code))
    (hdata : DataRun Q t v m (some (failed, code)) event v₁) (hti : m.ti = f.ti)
    (hback : ((v.threads t).proc f.ti.procId).backNotify =
      (f.ci.threadId, f.ci.objId, f.ci.procId)) (hsize : v.size = w.size) :
    PathsAgree P Q t f m event failed code w w₁ v v₁ ↔
      (∃ t', f.ci.threadId = some t' ∧ t' < w.size) ∧
        ((v.threads t).proc f.ti.procId).returnCode = code := by
  have hproc := hdata.proc f.ti.procId
  have hdataEq := hdata.dataReceived_eq
  rw [hti] at hdataEq
  unfold PathsAgree
  rw [hcall.functionCall_eq, hdataEq, hti]
  by_cases hthread : ∃ t', f.ci.threadId = some t' ∧ t' < w.size
  · obtain ⟨t₀, hci, hlt⟩ := id hthread
    have hltCall : ∀ t', f.ci.threadId = some t' → t' < w₁.size := by
      intro t' ht'
      obtain rfl := Option.some.inj (hci.symm.trans ht')
      rw [hcall.size]
      exact hlt
    have hltData : t₀ < v₁.size := by
      rw [hdata.size, hsize]
      exact hlt
    -- both report, and differ in the code at most
    obtain ⟨w₂, hrespond, hstatus, hcode, hqueues⟩ := respond_result (t := t) hret hltCall
    obtain ⟨v₂, hreport, hstatus', hcode', hnotify, hqueues'⟩ :=
      report_result failed code hproc hback hci hltData
    rw [hrespond, hreport]
    simp only [Except.map, hnotify]
    constructor
    · rintro ⟨_, _, hw, hv, -, heq, -⟩
      obtain rfl := Except.ok.inj hw
      obtain rfl := Except.ok.inj hv
      rw [forward_threads, hcode, hcode'] at heq
      exact ⟨hthread, heq.symm⟩
    · rintro ⟨-, heq⟩
      refine ⟨_, _, rfl, rfl, ?_, ?_, hqueues, fun t' => ?_⟩
      · rw [forward_threads, hstatus, hstatus']
      · rw [forward_threads, hcode, hcode', heq]
      · rw [forward_queues, hqueues', copies, hti]
  -- `on_yield` fails where the function only drops its result
  · have herror : v₁.report t f.ti (some (failed, code)) = .error .undefinedBehaviour := by
      refine report_error ?_ (f := f) ?_
      · rw [hproc, hback]
      · rw [hdata.size, hsize]
        exact hthread
    rw [herror]
    refine iff_of_false ?_ fun h => hthread h.1
    rintro ⟨_, _, -, hv, -⟩
    cases hv

/-! ## The caller in the entry -/

/-- The caller that is entered for a procedure. -/
def enteredCaller (w : World V σ) (t : Nat) (p : Id) : Option (ThreadId × Id × Id) :=
  ((w.threads t).procToDat p).map (·.backNotify)

/-- The entry is gone, or has the caller that it had. -/
def KeepsCaller (t : Nat) (p : Id) (w w' : World V σ) : Prop :=
  w'.enteredCaller t p = none ∨ w'.enteredCaller t p = w.enteredCaller t p

/-- No step calls the procedure again. -/
def NotCalled (t : Nat) (p : Id) (w : World V σ) (a : Action V) : Prop :=
  ∀ f rest, a = .dequeue t → w.queues t = .functionCall f :: rest → f.ti.procId ≠ p

variable {p : Id} {w₂ : World V σ}

theorem KeepsCaller.refl (t : Nat) (p : Id) (w : World V σ) : KeepsCaller t p w w := Or.inr rfl

theorem KeepsCaller.trans (h : KeepsCaller t p w w₁) (h' : KeepsCaller t p w₁ w₂) :
    KeepsCaller t p w w₂ := by
  rcases h' with hnone | heq
  · exact Or.inl hnone
  · rcases h with hnone | heq'
    · exact Or.inl (heq.trans hnone)
    · exact Or.inr (heq.trans heq')

theorem KeepsCaller.of_procToDat (h : (w₁.threads t).procToDat = (w.threads t).procToDat) :
    KeepsCaller t p w w₁ :=
  Or.inr (by rw [enteredCaller, h]; rfl)

/-- Another procedure's entry is written, or one that keeps the caller. -/
theorem KeepsCaller.setProc {t₁ : Nat} {q : Id} {d : CallDataThreaded}
    (h : t₁ = t → q = p → w.enteredCaller t p = some d.backNotify) :
    KeepsCaller t p w (w.setThread t₁ ((w.threads t₁).setProc q d)) := by
  refine Or.inr ?_
  unfold enteredCaller
  rw [threads_setThread]
  by_cases ht : t = t₁
  · rw [if_pos ht, ThreadData.procToDat_setProc]
    subst ht
    by_cases hq : p = q
    · rw [if_pos hq]
      exact (h rfl hq.symm).symm
    · rw [if_neg hq]
  · rw [if_neg ht]

theorem submit_procToDat (w : World V σ) (t₁ t : Nat) :
    ((w.submit t₁).threads t).procToDat = (w.threads t).procToDat :=
  proj_setThread _ _ _ _ (·.procToDat) rfl

theorem respond_keepsCaller {t₁ : Nat} (hnot : t₁ = t → f.ti.procId ≠ p)
    (h : w.respond t₁ f resp = .ok w₁) : KeepsCaller t p w w₁ := by
  have hset : ∀ d, KeepsCaller t p w (w.setThread t₁ ((w.threads t₁).setProc f.ti.procId d)) :=
    fun d => .setProc fun ht hp => absurd hp (hnot ht)
  obtain ⟨d, -, -, ⟨-, rfl⟩ | ⟨failed, code, -, ⟨-, rfl⟩ | ⟨t', -, -, rfl⟩⟩⟩ := respond_cases h
  · exact hset d
  · exact hset d
  · exact hset d

theorem report_keepsCaller {t₁ : Nat} {c : CallDataThreaded}
    (hc : (w.threads t₁).procToDat ti.procId = some c) (h : w.report t₁ ti y = .ok w₁) :
    KeepsCaller t p w w₁ := by
  obtain ⟨-, rfl⟩ | ⟨failed, code, t', -, -, -, rfl⟩ := report_cases h
  · exact .refl t p w₁
  · refine KeepsCaller.trans (.setProc fun ht hp => ?_) (.of_procToDat rfl)
    subst ht hp
    simp only [enteredCaller, ThreadData.proc, hc, Option.map_some, Option.getD_some]

/-- A message that is no call of the procedure leaves its caller. -/
theorem Handled.keepsCaller {t₁ : Nat} (h : Handled P t₁ w w')
    (hnot : ∀ f rest, t₁ = t → w.queues t₁ = .functionCall f :: rest → f.ti.procId ≠ p) :
    KeepsCaller t p w w' := by
  -- only a call enters a caller, and only a deletion removes one
  cases h with
  | idle hq => exact .refl t p w
  | @constructed c rest ctx w₁ w₂ w₃ heap es hq htake hrun hslot hnew hqueued =>
    have hsame := filled_same htake hslot
    refine .of_procToDat ?_
    rw [submit_procToDat, processQueued_procToDat hqueued]
    refine (proj_setThread w₂ t₁ t ((w₂.threads t₁).setObject c.ti.objId { ptr := some ctx })
      (·.procToDat) rfl).trans ?_
    rw [hsame.threads]
    rfl
  | @reconstructed c rest ctx w₁ w₂ heap es o hq htake hrun hslot hold =>
    have hsame := filled_same htake hslot
    refine .of_procToDat ?_
    rw [submit_procToDat, hsame.threads]
    rfl
  | @called f rest o ctx resp heap es w₂ w₃ hq ho hptr hrun hqueued hrespond =>
    have hne : t₁ = t → f.ti.procId ≠ p := fun ht => hnot f rest ht hq
    have henter : KeepsCaller t p w ((w.pop t₁ rest).enter t₁ f o) := by
      refine Or.inr ((procToDat_enter t p).trans ?_)
      rw [if_neg fun h => hne h.1.symm h.2.symm]
      rfl
    have hqueue : KeepsCaller t p ((w.pop t₁ rest).enter t₁ f o) w₂ :=
      .of_procToDat (processQueued_procToDat hqueued t)
    refine ((henter.trans hqueue).trans (respond_keepsCaller hne hrespond)).trans ?_
    exact .of_procToDat (submit_procToDat ..)
  | @delivered d rest o c ctx y heap es w₂ w₃ hq ho hd hptr hrun hqueued hreport =>
    have hqueue : KeepsCaller t p w w₂ := .of_procToDat (processQueued_procToDat hqueued t)
    have hc : (w₂.threads t₁).procToDat d.ti.procId = some c := by
      rw [processQueued_procToDat hqueued]
      exact hd
    refine (hqueue.trans (report_keepsCaller hc hreport)).trans (.of_procToDat ?_)
    rw [submit_procToDat, forward_threads]
  | dropped hq hmissing => exact .of_procToDat (submit_procToDat ..)
  | @deleted d rest w₁ hq hchildren =>
    have hpush : KeepsCaller t p w w₁ :=
      deleteChildren_invariant (I := KeepsCaller t p w) hchildren (.refl t p w)
        fun w child _ hw _ => hw.trans (.of_procToDat rfl)
    have herase : KeepsCaller t p w₁ (w₁.erase P t₁ d.ti.objId) := by
      unfold KeepsCaller enteredCaller
      rw [procToDat_erase]
      split
      · exact Or.inl rfl
      · exact Or.inr rfl
    exact (hpush.trans herase).trans (.of_procToDat (submit_procToDat ..))
  | root hq => exact .of_procToDat (submit_procToDat ..)

theorem processUring_procToDat {t₁ : Nat} (h : w.processUring t₁ = .ok w') (t : Nat) :
    (w'.threads t).procToDat = (w.threads t).procToDat := by
  refine processUring_invariant (I := fun w' => (w'.threads t).procToDat = (w.threads t).procToDat)
    h rfl (fun w' address res a hw _ => ?_) fun w' hw => ?_
  · obtain ⟨queues, timers, heq⟩ := attachment_eq w' t₁ res a
    rw [heq]
    refine Eq.trans ?_ hw
    exact proj_setThread _ t₁ t _ (·.procToDat) rfl
  · refine Eq.trans ?_ hw
    exact proj_setThread w' t₁ t _ (·.procToDat) rfl

theorem step_keepsCaller {a : Action V} (hnot : NotCalled t p w a) (h : w.step P a = .ok w') :
    KeepsCaller t p w w' := by
  cases a with
  | dequeue t₁ =>
    rcases step_dequeue h with rfl | ⟨-, hhandled⟩
    · exact .refl t p w'
    · refine hhandled.keepsCaller fun f rest ht hq => ?_
      subst ht
      exact hnot f rest rfl hq
  | uring t₁ =>
    simp only [step] at h
    split at h
    · exact .of_procToDat (processUring_procToDat h t)
    · obtain rfl := Except.ok.inj h
      exact .refl t p w
  | complete t₁ k res =>
    obtain rfl := Except.ok.inj h
    refine .of_procToDat ?_
    unfold complete
    simp only
    split
    · rfl
    · exact proj_setThread _ _ _ _ (·.procToDat) rfl
  | root constructor init =>
    obtain ⟨-, rfl⟩ := initializeRootEvent_eq h
    exact .of_procToDat rfl
  | load _ | iterate _ =>
    obtain rfl := Except.ok.inj h
    exact .refl t p w

/-- `function_call` enters the caller. -/
theorem functionCall_caller (h : w.functionCall P t f = .ok w₁) :
    w₁.enteredCaller t f.ti.procId = some (f.ci.threadId, f.ci.objId, f.ci.procId) := by
  obtain ⟨o, ctx, resp, heap, es, w₂, ho, hptr, hrun, hqueued, hrespond⟩ := functionCall_eq_ok h
  have hcaller : w₂.enteredCaller t f.ti.procId =
      some (f.ci.threadId, f.ci.objId, f.ci.procId) := by
    unfold enteredCaller
    rw [processQueued_procToDat hqueued]
    exact (procToDat_enter t f.ti.procId).trans (if_pos ⟨rfl, rfl⟩)
  obtain ⟨c, hc, hback⟩ := Option.map_eq_some_iff.1 hcaller
  have hset : ∀ d : CallDataThreaded,
      d.backNotify = ((w₂.threads t).proc f.ti.procId).backNotify →
      (w₂.setThread t ((w₂.threads t).setProc f.ti.procId d)).enteredCaller t f.ti.procId =
        some (f.ci.threadId, f.ci.objId, f.ci.procId) := by
    intro d hd
    unfold enteredCaller
    rw [threads_setThread_self, ThreadData.procToDat_setProc, if_pos rfl, Option.map_some, hd,
      ThreadData.proc, hc, Option.getD_some, hback]
  obtain ⟨d, hd, -, ⟨-, rfl⟩ | ⟨failed, code, -, ⟨-, rfl⟩ | ⟨t', -, -, rfl⟩⟩⟩ :=
    respond_cases hrespond
  · exact hset d hd
  · exact hset d hd
  · exact hset d hd

/-- `function_call` enters the caller, and no step changes it before the procedure is called again. -/
theorem caller_of_run (hstart : w.functionCall P t f = .ok w₁)
    (hrun : Reached (step P) (NotCalled t f.ti.procId) w₁ v) :
    v.enteredCaller t f.ti.procId = none ∨
      v.enteredCaller t f.ti.procId = some (f.ci.threadId, f.ci.objId, f.ci.procId) := by
  refine hrun.invariant (I := fun v => v.enteredCaller t f.ti.procId = none ∨
    v.enteredCaller t f.ti.procId = some (f.ci.threadId, f.ci.objId, f.ci.procId)) ?_ ?_
  · exact Or.inr (functionCall_caller hstart)
  · intro v a v' hv hnot hstep
    rcases step_keepsCaller hnot hstep with hnone | heq
    · exact Or.inl hnone
    · rw [heq]
      exact hv

/-- A call that has its result at once, and the same call whose result comes later, in a run that does
not call the procedure again: the two ways of ending it agree exactly if the caller is on one of the
threads, and the code is the one that the entry has already. -/
theorem paths_agree_iff {u u₁ : World V σ} (hcall : CallRun P t w f resp w₁)
    (hret : resp.ret = some (failed, code)) (hstart : u.functionCall Q t f = .ok u₁)
    (hrun : Reached (step Q) (NotCalled t f.ti.procId) u₁ v)
    (hdata : DataRun Q t v m (some (failed, code)) event v₁) (hti : m.ti = f.ti)
    (hsize : v.size = w.size) :
    PathsAgree P Q t f m event failed code w w₁ v v₁ ↔
      (∃ t', f.ci.threadId = some t' ∧ t' < w.size) ∧
        ((v.threads t).proc f.ti.procId).returnCode = code := by
  refine paths_agree_of_caller hcall hret hdata hti ?_ hsize
  obtain ⟨o, d, ctx, heap, es, -, hd, -⟩ := hdata.runs
  rw [hti] at hd
  have hentered : v.enteredCaller t f.ti.procId = some d.backNotify := by
    rw [enteredCaller, hd, Option.map_some]
  rw [ThreadData.proc, hd, Option.getD_some]
  rcases caller_of_run hstart hrun with hnone | hcaller
  · exact absurd (hentered.symm.trans hnone) (Option.some_ne_none _)
  · exact Option.some.inj (hentered.symm.trans hcaller)

/-! ## A call that ends at once or later -/

/-- A parent calls its child. The child ends with `code`, at once or when its timer expires, and then
the parent ends. -/
def chain (late : Bool) (code : Int) : Program familyVocabulary Unit where
  construct parent _ _ :=
    if parent then do
      let _ ← Script.i (V := familyVocabulary) () false
      pure ()
    else pure ()
  function parent _ _ _ :=
    if parent then do
      let _ ← Script.cAt (V := familyVocabulary) () 0 false
      pure ({ description := "parent", success := true, ret := none, opHint := 0 }, ())
    else if late then do
      let _ ← Script.startTimer (V := familyVocabulary) ⟨1, 0⟩
      pure ({ description := "child", success := true, ret := none, opHint := 0 }, ())
    else
      pure ({ description := "child", success := true, ret := some (false, code), opHint := 0 }, ())
  onYield object _ _ := pure (some (false, if object = some 0 then 1 else code), ())
  destroy _ _ := ()

/-- The messages up to the call of the child. -/
def toCall : List (Action familyVocabulary) := .root true true :: List.replicate 4 (.dequeue 0)

/-- The call of the child, and the end of its timer. -/
def toTimeout : List (Action familyVocabulary) :=
  toCall ++ [.dequeue 0, .complete 0 0 eTime, .uring 0]

/-- The call of the child. -/
def childCall : FunctionCall familyVocabulary where
  call := false
  ci := { threadId := some 0, objId := some 0, procId := some 0 }
  ti := { objId := some 1000, procId := some 1000 }

/-- The message of its timer. -/
def childTimeout : Data :=
  ringData childCall.ti.objId childCall.ti.procId (.timeout none)

/-- A thread with the child. -/
def childThread : ThreadData familyVocabulary := ({} : ThreadData _).setObject (some 1000) { ptr := some 0 }

/-- One worker thread with the child. -/
def withChild : World familyVocabulary Unit := { family₀ with threads := fun _ => childThread }

/-- The child ends at once. -/
theorem early_run (code : Int) : ∃ resp w₁,
    CallRun (chain false code) 0 withChild childCall resp w₁ ∧ resp.ret = some (false, code) :=
  ⟨_, _, ⟨⟨_, _, _, _, rfl, rfl, rfl, rfl⟩⟩, rfl⟩

/-- The child ends when its timer expires. -/
theorem late_run (code : Int) : ∃ v v₁ event,
    withChild.functionCall (chain true code) 0 childCall = .ok v ∧
    DataRun (chain true code) 0 v childTimeout (some (false, code)) event v₁ ∧ v.size = 1 ∧
    (v.threads 0).proc (some 1000) =
      { assocObj := some 1000, status := .running, description := "child"
        backNotify := (some 0, some 0, some 0) } := by
  refine ⟨_, _, _, rfl, ⟨_, _, _, _, _, rfl, rfl, rfl, rfl, rfl, rfl⟩, rfl, rfl⟩

/-- A child that ends with the code 0 ends the same way at once and later. -/
theorem chain_agrees : ∃ resp w₁ v v₁ event,
    CallRun (chain false 0) 0 withChild childCall resp w₁ ∧ resp.ret = some (false, 0) ∧
    withChild.functionCall (chain true 0) 0 childCall = .ok v ∧
    DataRun (chain true 0) 0 v childTimeout (some (false, 0)) event v₁ ∧
    PathsAgree (chain false 0) (chain true 0) 0 childCall childTimeout event false 0 withChild w₁ v
      v₁ := by
  obtain ⟨resp, w₁, hcall, hret⟩ := early_run 0
  obtain ⟨v, v₁, event, hstart, hdata, hsize, hproc⟩ := late_run 0
  refine ⟨resp, w₁, v, v₁, event, hcall, hret, hstart, hdata, ?_⟩
  refine (paths_agree_iff hcall hret hstart .start hdata rfl hsize).2 ⟨⟨0, rfl, Nat.zero_lt_one⟩, ?_⟩
  exact congrArg CallDataThreaded.returnCode hproc

/-- With the code 7, `proc_to_dat` has it in one case and 0 in the other; and when the parent ends, its
thread is no index. -/
theorem chain_disagrees :
    (runActions (World.step (chain false 7)) (toCall ++ [.dequeue 0]) family₀).map
        (fun w => (((w.threads 0).proc (some 1000)).status,
          ((w.threads 0).proc (some 1000)).returnCode)) = .ok (.finished, 7) ∧
      (runActions (World.step (chain true 7)) (toTimeout ++ [.dequeue 0]) family₀).map
        (fun w => (((w.threads 0).proc (some 1000)).status,
          ((w.threads 0).proc (some 1000)).returnCode)) = .ok (.finished, 0) ∧
      (runActions (World.step (chain true 7)) (toTimeout ++ [.dequeue 0, .dequeue 0]) family₀).map
        (fun _ => ()) = .error .undefinedBehaviour ∧
      ∃ resp w₁ v v₁ event, CallRun (chain false 7) 0 withChild childCall resp w₁ ∧
        resp.ret = some (false, 7) ∧ withChild.functionCall (chain true 7) 0 childCall = .ok v ∧
        DataRun (chain true 7) 0 v childTimeout (some (false, 7)) event v₁ ∧
        ¬ PathsAgree (chain false 7) (chain true 7) 0 childCall childTimeout event false 7 withChild
          w₁ v v₁ := by
  obtain ⟨resp, w₁, hcall, hret⟩ := early_run 7
  obtain ⟨v, v₁, event, hstart, hdata, hsize, hproc⟩ := late_run 7
  refine ⟨by decide +kernel, by decide +kernel, by decide +kernel, resp, w₁, v, v₁, event, hcall, hret,
    hstart, hdata, fun h => ?_⟩
  have hback := congrArg CallDataThreaded.backNotify hproc
  have hcode := ((paths_agree_of_caller hcall hret hdata rfl hback hsize).1 h).2
  exact absurd ((congrArg CallDataThreaded.returnCode hproc).symm.trans hcode) (by decide)

end World

end LocalSoftware
