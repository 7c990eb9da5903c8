import LocalSoftware.Common.QueuedOutcomes

/-!
# Objects live on the first thread only

A root is started on the first thread, and a construction is carried out on the thread of the object
that queued it, whatever thread `find_target_thread` has chosen for it. So no other thread ever has an
object: `first_thread_only` shows that its tables and its ring stay empty, that only calls and deletions
are sent to it, that every such call ends the process, and that such a deletion ends no object.
-/

set_option autoImplicit false

namespace LocalSoftware

variable {V : Vocabulary} {σ : Type}

/-- A message that `find_target_thread` may send to a thread that has no objects. -/
def EventVariant.Strays : EventVariant V → Prop
  | .functionCall _ | .delete _ => True
  | _ => False

namespace World

variable {w w' : World V σ} {t ctx : Nat} {ti : TargetInfo} {es : EventState V} {P : Program V σ}
  {m : EventVariant V} {rest : List (EventVariant V)}

/-- The first thread is alone with everything but stray messages. -/
structure Alone (w : World V σ) : Prop where
  grounded : w.Grounded
  tables : ∀ t, t ≠ 0 → w.threads t = {}
  strays : ∀ t, t ≠ 0 → ∀ m ∈ w.queues t, m.Strays

namespace Alone

theorem congr (h : w.Alone) (hgrounded : w'.Grounded)
    (hthreads : ∀ t, t ≠ 0 → w'.threads t = w.threads t)
    (hqueues : ∀ t, t ≠ 0 → ∀ m ∈ w'.queues t, m ∈ w.queues t) : w'.Alone where
  grounded := hgrounded
  tables t ht := (hthreads t ht).trans (h.tables t ht)
  strays t ht m hm := h.strays t ht m (hqueues t ht m hm)

theorem sameCore (h : w.Alone) (hw : SameCore 0 w w') : w'.Alone :=
  h.congr (h.grounded.sameCore hw) hw.threads fun _ _ _ hm => hw.queues ▸ hm

theorem pop (h : w.Alone) (hq : w.queues 0 = m :: rest) : (w.pop 0 rest).Alone := by
  refine h.congr (h.grounded.pop hq) (fun _ _ => rfl) fun t ht m' hm' => ?_
  rw [queues_pop, if_neg ht] at hm'
  exact hm'

theorem note (h : w.Alone) (n : Note) : (w.note n).Alone :=
  h.congr (h.grounded.congr (fun _ hf => hf) rfl rfl) (fun _ _ => rfl) fun _ _ _ hm => hm

/-- A message is pushed. -/
theorem enqueue (h : w.Alone) (hm : ∀ f t, m = .functionCall f → f.ci.threadId = some t → t = 0)
    (hstrays : t ≠ 0 → m.Strays) : (w.enqueue t m).Alone where
  grounded := h.grounded.enqueue t hm
  tables := h.tables
  strays t' ht' m' hm' := by
    rw [queues_enqueue] at hm'
    split at hm'
    · rename_i heq
      rcases List.mem_append.mp hm' with hm' | hm'
      · exact h.strays t' ht' m' hm'
      · rw [List.mem_singleton.mp hm']
        exact hstrays (heq ▸ ht')
    · exact h.strays t' ht' m' hm'

/-- A message for an object of the first thread. -/
theorem data (h : w.Alone) (ht : t = 0) (d : Data) : (w.enqueue t (.data d)).Alone :=
  h.enqueue (fun f t hm => by cases hm) fun hne => absurd ht hne

theorem setThread (h : w.Alone) {td : ThreadData V} (hgrounded : (w.setThread 0 td).Grounded) :
    (w.setThread 0 td).Alone :=
  h.congr hgrounded (fun t ht => by rw [threads_setThread, if_neg ht]) fun _ _ _ hm => hm

theorem setProc (h : w.Alone) (id : Id) {d : CallDataThreaded}
    (hd : ∀ t, d.backNotify.1 = some t → t = 0) :
    (w.setThread 0 ((w.threads 0).setProc id d)).Alone :=
  h.setThread (h.grounded.setProc id hd)

theorem submit (h : w.Alone) : (w.submit 0).Alone := h.sameCore (SameCore.refl 0 w).submit

/-- What a handler queued leaves everything on the first thread, but for calls and deletions. -/
theorem queued (h : w.Alone) (ho : w.Exists ti.objId) (hw : Queued 0 ctx ti es w w') : w'.Alone := by
  obtain ⟨hgrounded, -⟩ := h.grounded.queued ho hw
  rcases hw.essential with hsame | hessential
  · exact h.sameCore hsame
  · cases hessential with
    | child q runThread _ =>
      obtain ⟨c, -, -, -, hqueues⟩ := message_addChild w 0 ctx ti q runThread
      refine h.congr hgrounded (fun t ht => (threads_setThread _ 0 t _).trans (if_neg ht)) ?_
      intro t ht m hm
      rw [hqueues, if_neg ht] at hm
      exact hm
    | call q info locator target _ _ _ _ _ =>
      obtain ⟨f, -, -, hqueues⟩ := message_addCall w 0 ctx ti q locator.objectId target
      refine ⟨hgrounded, fun t ht => ?_, fun t ht m hm => ?_⟩
      · exact (threads_setThread _ 0 t _).trans ((if_neg ht).trans (h.tables t ht))
      · rw [hqueues] at hm
        split at hm
        · rcases List.mem_append.mp hm with hm | hm
          · exact h.strays t ht m hm
          · rw [List.mem_singleton.mp hm]
            trivial
        · exact h.strays t ht m hm
    | delete q thread _ _ _ =>
      exact h.enqueue (fun f t hm => by cases hm) fun _ => trivial
    | dropChild q _ => exact h.setThread hgrounded

theorem processQueued (h : w.Alone) (ho : w.Exists ti.objId)
    (hqueued : w.processQueued 0 ctx ti es = .ok w') : w'.Alone :=
  (transGen_invariant (I := fun w => w.Alone ∧ w.Exists ti.objId) (processQueued_queued hqueued)
    ⟨h, ho⟩ fun _ _ hI hw => ⟨hI.1.queued hI.2 hw, (hI.1.grounded.queued hI.2 hw).2⟩).1

theorem respond (h : w.Alone) {f : FunctionCall V} {resp : CallResponse}
    (hcaller : ∀ t, f.ci.threadId = some t → t = 0) (hw : w.respond 0 f resp = .ok w') : w'.Alone :=
  respond_keeps (I := Alone) hw
    (fun _ hback => h.setProc _ fun t ht => h.grounded.notify_proc f.ti.procId t (hback ▸ ht))
    (fun _ n hw => hw.note n) fun _ t d ht hw => hw.data (hcaller t ht) d

theorem report (h : w.Alone) {y : Yielded} (hw : w.report 0 ti y = .ok w') : w'.Alone :=
  report_keeps (I := Alone) hw h
    (fun _ hback => h.setProc _ fun t ht => h.grounded.notify_proc ti.procId t (hback ▸ ht))
    (fun _ n hw => hw.note n)
    fun _ t d ht hw => hw.data (h.grounded.notify_proc ti.procId t ht) d

theorem filled (h : w.Alone) (hw : SameTables w w') : w'.Alone :=
  h.congr (h.grounded.congr (fun _ hf => hw.queues ▸ hf) (by rw [hw.threads]) (by rw [hw.threads]))
    (fun _ _ => by rw [hw.threads]) fun _ _ _ hm => hw.queues ▸ hm

/-- A message is handled on the first thread. -/
theorem handled (h : w.Alone) (hw : Handled P 0 w w') : w'.Alone := by
  cases hw with
  | idle hq => exact h
  | @constructed c rest ctx w₁ w₂ w₃ heap es hq htake hrun hslot hnew hqueued =>
    have hfilled := (h.pop hq).filled (filled_same htake hslot)
    have hobject : Alone (w₂.setThread 0 ((w₂.threads 0).setObject c.ti.objId
        { ptr := some ctx })) :=
      hfilled.setThread (hfilled.grounded.setObject c.ti.objId rfl fun child hchild =>
        absurd hchild List.not_mem_nil)
    exact (hobject.processQueued (exists_setObject _ _ _) hqueued).submit
  | @reconstructed c rest ctx w₁ w₂ heap es o hq htake hrun hslot hold =>
    have hfilled := (h.pop hq).filled (filled_same htake hslot)
    exact hfilled.submit
  | @called f rest o ctx resp heap es w₂ w₃ hq ho hptr hrun hqueued hrespond =>
    have hcaller : ∀ t, f.ci.threadId = some t → t = 0 := fun t ht => by
      refine h.grounded.callers (f := f) ?_ ht
      rw [hq]
      exact List.mem_cons_self
    have hpop := h.pop hq
    have hexist : (((w.pop 0 rest).enter 0 f o)).Exists f.ti.objId :=
      ⟨_, (objInfo_enter_self (w := w.pop 0 rest) (t := 0) f o f.ti.objId).trans (if_pos rfl)⟩
    have hentered : ((w.pop 0 rest).enter 0 f o).Alone :=
      hpop.congr (hpop.grounded.enter ho hcaller)
        (fun t ht => (threads_setThread _ 0 t _).trans (if_neg ht)) fun _ _ _ hm => hm
    have hran : (((w.pop 0 rest).enter 0 f o).afterHandler ctx es heap).Alone :=
      hentered.congr (hentered.grounded.congr (fun _ hf => hf) rfl rfl) (fun _ _ => rfl)
        fun _ _ _ hm => hm
    exact ((hran.processQueued hexist hqueued).respond hcaller hrespond).submit
  | @delivered d rest o c ctx y heap es w₂ w₃ hq ho hd hptr hrun hqueued hreport =>
    have hran : (((w.pop 0 rest).note (.delivered 0 d
        ((w.contexts ctx).mapEventData d.data).1)).afterHandler ctx es heap).Alone :=
      (h.pop hq).congr ((h.pop hq).grounded.congr (fun _ hf => hf) rfl rfl) (fun _ _ => rfl)
        fun _ _ _ hm => hm
    have hreported := (hran.processQueued ⟨o, ho⟩ hqueued).report hreport
    exact (forward_invariant (I := Alone) hreported fun _ _ _ hw => hw.data rfl _).submit
  | dropped hq hmissing => exact (h.pop hq).submit
  | @deleted d rest w₁ hq hdeleted =>
    have hpushed := deleteChildren_invariant (I := Alone) hdeleted (h.pop hq) fun w child _ hw _ =>
      hw.enqueue (fun f t hm => by cases hm) fun _ => trivial
    have herased : (w₁.erase P 0 d.ti.objId).Alone := hpushed.congr (hpushed.grounded.erase P _)
      (fun t ht => (threads_setThread _ 0 t _).trans (if_neg ht)) fun _ _ _ hm => hm
    exact herased.submit
  | root hq =>
    refine ((h.pop hq).enqueue (fun f t hm => by cases hm) fun hne => absurd rfl hne).enqueue
      (fun f t hm ht => ?_) (fun hne => absurd rfl hne) |>.submit
    obtain rfl := EventVariant.functionCall.inj hm
    cases ht

/-! ## The other threads -/

theorem object_empty (h : w.Alone) (ht : t ≠ 0) (o : Id) : (w.threads t).objInfo o = none := by
  rw [h.tables t ht]

/-- A stray call ends the process. -/
theorem dequeue_call (h : w.Alone) (ht : t ≠ 0) {f : FunctionCall V}
    (hq : w.queues t = .functionCall f :: rest) :
    w.handleDequeue P t = .error .undefinedBehaviour := by
  have hnone : (w.threads t).objInfo f.ti.objId = none := h.object_empty ht _
  simp only [handleDequeue, hq, receive, functionCall, hnone]

/-- An object that is not there leaves nothing. -/
theorem threads_erase_empty (P : Program V σ) (w : World V σ) (ht : w.threads t = {}) (id : Id) :
    ((w.erase P t id).submit t).threads = w.threads := by
  have hobj : Function.update (fun _ : Id => (none : Option ObjectDataThreaded)) id none =
      fun _ => none := funext fun o => by rw [Function.update_apply, ite_self]
  funext t'
  rw [World.submit, threads_setThread]
  split
  · rename_i heq
    rw [heq, ht]
    simp only [erase, threads_note, threads_setThread_self, ht, ThreadData.object, Option.getD_none,
      List.not_mem_nil, if_false, hobj, List.append_nil]
  · rename_i hne
    rw [erase, threads_note, threads_setThread, if_neg hne]

/-- A stray deletion ends no object. -/
theorem dequeue_delete (h : w.Alone) (ht : t ≠ 0) {d : Delete} (hq : w.queues t = .delete d :: rest) :
    ∃ w', w.handleDequeue P t = .ok w' ∧ w'.Alone ∧ w'.threads = w.threads ∧ w'.heap = w.heap := by
  have hobject : (w.threads t).object d.ti.objId = {} := by
    rw [h.tables t ht]
    rfl
  have hthreads := threads_erase_empty P (w.pop t rest) (h.tables t ht) d.ti.objId
  have hheap : ((w.pop t rest).erase P t d.ti.objId).heap = w.heap := by
    show (if ((w.threads t).object d.ti.objId).ptr.isSome then _ else w.heap) = w.heap
    rw [hobject]
    rfl
  refine ⟨((w.pop t rest).erase P t d.ti.objId).submit t, ?_, h.congr ?_ ?_ ?_, hthreads, hheap⟩
  · have hpopped : { w with queues := Function.update w.queues t rest } = w.pop t rest := rfl
    simp only [handleDequeue, hq, hpopped, receive, deleteReceived, hobject, Iteration.order_nil,
      deleteChildren]
  · refine h.grounded.congr (fun f hf => ?_) (by rw [hthreads]; rfl) (by rw [hthreads]; rfl)
    have hqueue : (w.pop t rest).queues 0 = w.queues 0 := by rw [queues_pop, if_neg (Ne.symm ht)]
    exact hqueue ▸ hf
  · intro t' _
    rw [hthreads]
    rfl
  · intro t' ht' m hm
    exact (suffix_pop hq t').subset hm

/-- Every message is handled by the first thread, or leaves everything there. -/
theorem dequeue (h : w.Alone) (t : Nat) (hw : w.handleDequeue P t = .ok w') : w'.Alone := by
  by_cases ht : t = 0
  · subst ht
    exact h.handled (handleDequeue_handled hw)
  · cases hq : w.queues t with
    | nil =>
      simp only [handleDequeue, hq] at hw
      exact Except.ok.inj hw ▸ h
    | cons m rest =>
      have hstrays : m.Strays := h.strays t ht m (hq ▸ List.mem_cons_self)
      cases m with
      | functionCall f => cases hw.symm.trans (h.dequeue_call ht hq)
      | delete d =>
        obtain ⟨w₁, hreturned, hw₁, -⟩ := h.dequeue_delete (P := P) ht hq
        exact Except.ok.inj (hreturned.symm.trans hw) ▸ hw₁
      | _ => exact hstrays.elim

/-- The ring of another thread is empty. -/
theorem uring (h : w.Alone) (t : Nat) (hw : w.processUring t = .ok w') : w'.Alone := by
  by_cases ht : t = 0
  · subst ht
    exact processUring_core hw h (fun _ _ hsame h => h.sameCore hsame) fun _ _ _ _ _ h => h.data rfl _
  · have htable := h.tables t ht
    have hring : (w.threads t).ring.cq = [] := by rw [htable]
    simp only [processUring, hring, readCqes] at hw
    obtain rfl := Except.ok.inj hw
    have hthreads : ∀ t', (w.setThread t { w.threads t with
        ring := { (w.threads t).ring with cq := [] } }).threads t' = w.threads t' := by
      intro t'
      rw [threads_setThread]
      split
      · rename_i heq
        rw [heq, htable]
      · rfl
    exact h.congr (h.grounded.congr (fun _ hf => hf) (by rw [hthreads]) (by rw [hthreads]))
      (fun t' _ => hthreads t') fun _ _ _ hm => hm

theorem other (h : w.Alone) {a : Action V} (ha : ∀ t, a ≠ .dequeue t) (hw : w.step P a = .ok w') :
    w'.Alone := by
  obtain ⟨t, -, huring⟩ | ⟨t, hsame, hempty⟩ | ⟨constructor, init, hroot⟩ := step_other hw ha
  · exact h.uring t huring
  · refine h.congr (h.grounded.sameCore hsame) (fun t' ht' => ?_) fun _ _ _ hm => hsame.queues ▸ hm
    by_cases heq : t' = t
    · subst heq
      exact (hempty (h.tables t' ht')).trans (h.tables t' ht').symm
    · exact hsame.threads t' heq
  · obtain ⟨-, rfl⟩ := initializeRootEvent_eq hroot
    have hdrawn : ({ w with
        objIds := (getId w.objIds none).2, procIds := (getId w.procIds none).2 } : World V σ).Alone :=
      h.congr (h.grounded.congr (fun _ hf => hf) rfl rfl) (fun _ _ => rfl) fun _ _ _ hm => hm
    exact hdrawn.enqueue (fun f t hm => by cases hm) fun hne => absurd rfl hne

theorem step (h : w.Alone) {a : Action V} (hw : w.step P a = .ok w') : w'.Alone := by
  cases a with
  | dequeue t =>
    simp only [World.step] at hw
    split at hw
    · exact h.dequeue t hw
    · exact Except.ok.inj hw ▸ h
  | _ => exact h.other (fun _ ha => by cases ha) hw

theorem reached (P : Program V σ) (size : Nat) (malloc : Nat → Nat) (heap : σ)
    (h : Reached (World.step P) (fun _ _ => True) { size, malloc, heap } w) : w.Alone := by
  refine h.invariant (I := Alone) ?_ fun _ _ _ hw _ hstep => hw.step hstep
  exact {
    grounded := {
      ptr := fun ho => by cases ho
      children := fun ho => by cases ho
      callers := fun hf => absurd hf List.not_mem_nil
      notify := fun hp => by cases hp }
    tables := fun _ _ => rfl
    strays := fun _ _ _ hm => absurd hm List.not_mem_nil }

end Alone

/-- In every run, on any number of threads: another thread than the first has no objects, procedures,
timers or requests, and gets calls and deletions only. The call ends the process, and the deletion ends
no object. -/
theorem first_thread_only (P : Program V σ) (size : Nat) (malloc : Nat → Nat) (heap : σ) (w : World V σ)
    (h : Reached (step P) (fun _ _ => True) { size, malloc, heap } w) (t : Nat) (ht : t ≠ 0) :
    w.threads t = {} ∧ (∀ m ∈ w.queues t, m.Strays) ∧ ∀ m rest, w.queues t = m :: rest → t < w.size →
      (∀ f, m = .functionCall f → w.step P (.dequeue t) = .error .undefinedBehaviour) ∧
      ∀ d, m = .delete d → ∃ w', w.step P (.dequeue t) = .ok w' ∧ w'.threads = w.threads ∧
        w'.heap = w.heap := by
  have halone := Alone.reached P size malloc heap h
  refine ⟨halone.tables t ht, halone.strays t ht, fun m rest hq hlt => ⟨?_, ?_⟩⟩
  · rintro f rfl
    simp only [step, if_pos hlt]
    exact halone.dequeue_call ht hq
  · rintro d rfl
    obtain ⟨w', hreturned, -, hthreads, hheap⟩ := halone.dequeue_delete (P := P) ht hq
    simp only [step, if_pos hlt]
    exact ⟨w', hreturned, hthreads, hheap⟩

/-- The first of two threads is busy. -/
def pairLoads (_ i : Nat) : Rat := if i = 0 then 9 / 10 else 0

/-- The child 1000 is constructed on the first thread, and its call is sent to the second one. -/
theorem pair_strays : ∃ w, Reached (step (team true)) (fun _ _ => True)
      { size := 2, malloc := id, heap := () } w ∧
    (w.queues 1).map EventVariant.needs = [some (some 1000)] ∧
    w.threads 1 = {} ∧ (∀ m ∈ w.queues 1, m.Strays) ∧ ∀ m rest, w.queues 1 = m :: rest → 1 < w.size →
      (∀ f, m = .functionCall f → w.step (team true) (.dequeue 1) = .error .undefinedBehaviour) ∧
      ∀ d, m = .delete d → ∃ w', w.step (team true) (.dequeue 1) = .ok w' ∧
        w'.threads = w.threads ∧ w'.heap = w.heap := by
  have hneeds : (runActions (step (team true)) (.load pairLoads :: teamActions 3)
      { size := 2, malloc := id, heap := () }).map (fun w => (w.queues 1).map EventVariant.needs) =
      .ok [some (some 1000)] := by
    decide +kernel
  obtain ⟨w, hrun, hneeds⟩ := exists_of_map_eq_ok hneeds
  have hreached := reached_of_runActions .start (meets_true _ _) hrun
  exact ⟨w, hreached, hneeds, first_thread_only (team true) 2 id () w hreached 1 Nat.one_ne_zero⟩

end World

end LocalSoftware
