import LocalSoftware.Common.ThreadData
import LocalSoftware.Library.Transition

/-!
# What the steps of a worker thread can do

`Queued` lists the updates of `process_queued`, one for each kind of entry that a handler can queue,
and `processQueued_queued` says that `process_queued` is a sequence of them. Invariants of the
runtime are proved for each update and carried through a handler run by `transGen_invariant`.
-/

set_option autoImplicit false

namespace LocalSoftware

variable {V : Vocabulary} {σ : Type}

namespace ThreadData

variable (td : ThreadData V) (id id' : Id)

theorem objInfo_setObject (o : ObjectDataThreaded) :
    (td.setObject id o).objInfo id' = if id' = id then some o else td.objInfo id' := by
  simp only [setObject, Function.update_apply]

theorem procToDat_setProc (d : CallDataThreaded) :
    (td.setProc id d).procToDat id' = if id' = id then some d else td.procToDat id' := by
  simp only [setProc, Function.update_apply]

end ThreadData

namespace World

variable {w w' : World V σ} {t ctx : Nat} {ti : TargetInfo} {es : EventState V}

theorem object_eq {td : ThreadData V} {id : Id} {obj : ObjectDataThreaded}
    (h : td.objInfo id = some obj) : td.object id = obj := by
  unfold ThreadData.object
  rw [h]
  rfl

/-- The updates of `process_queued` for the object `ti.objId` with the context `ctx`. -/
inductive Queued (t ctx : Nat) (ti : TargetInfo) (es : EventState V) :
    World V σ → World V σ → Prop where
  | decision (w : World V σ) : Queued t ctx ti es w w.decided
  | child (w : World V σ) (q : EventQueuedConstruct V) (runThread : Nat) (hq : q ∈ es.construct) :
      Queued t ctx ti es w (w.addChild t ctx ti q runThread)
  | call (w : World V σ) (q : EventQueuedFunction V) (info : EventInfo) (locator : Locator)
      (target : Nat) (hq : q ∈ es.function)
      (hslot : ((w.contexts ctx).slots q.idx)[q.vidx]? = some (some info))
      (hlocator : info.locator = some locator)
      (hthread : ∀ r, locator.threadId = [r] → target = r) (htarget : target < w.size) :
      Queued t ctx ti es w (w.addCall t ctx ti q locator.objectId target)
  | uring (w : World V σ) (q : EventQueuedUring V) (hq : q ∈ es.uring)
      (hfree : w.attached (w.malloc w.mallocs) = none) :
      Queued t ctx ti es w (w.addRequest t (.request q.fn) (.eventData q.op ti.objId ti.procId))
  | removeTimer (w : World V σ) (q : EventQueuedTimer) (data : TimerData) (hq : q ∈ es.timer)
      (hfree : w.attached (w.malloc w.mallocs) = none)
      (hdata : (w.threads t).timers ((w.contexts ctx).translateTimLocal q.localId) = some data) :
      Queued t ctx ti es w
        (w.removeTimer t ti q ((w.contexts ctx).translateTimLocal q.localId) data)
  | updateTimer (w : World V σ) (q : EventQueuedTimer) (data : TimerData) (hq : q ∈ es.timer)
      (hfree : w.attached (w.malloc w.mallocs) = none)
      (hdata : (w.threads t).timers ((w.contexts ctx).translateTimLocal q.localId) = some data)
      (htime : q.time ≠ ⟨0, 0⟩) :
      Queued t ctx ti es w
        (w.updateTimer t ti q ((w.contexts ctx).translateTimLocal q.localId) data)
  | addTimer (w : World V σ) (q : EventQueuedTimer) (hq : q ∈ es.timer)
      (hfree : w.attached (w.malloc w.mallocs) = none)
      (hnone : (w.threads t).timers ((w.contexts ctx).translateTimLocal q.localId) = none) :
      Queued t ctx ti es w (w.addTimer t ctx ti q)
  | delete (w : World V σ) (q : EventQueuedDelete) (thread : Nat) (hq : q ∈ es.delete)
      (hmem : thread ∈ q.thread) (hthread : thread < w.size) :
      Queued t ctx ti es w (w.enqueue thread (.delete
        { ci := { threadId := some t, objId := ti.objId, procId := ti.procId }
          ti := { objId := q.objId, procId := none } }))
  | dropChild (w : World V σ) (q : EventQueuedDelete) (hq : q ∈ es.delete) :
      Queued t ctx ti es w (w.dropChild t ti q.objId)
  | attach (w : World V σ) (q : EventQueuedAttach) (hq : q ∈ es.attach) :
      Queued t ctx ti es w (w.queuedAttach t ctx ti q)

open Relation

theorem push_eq_ok {t' : ThreadId} {m : EventVariant V} (h : w.push t' m = .ok w') :
    ∃ n, t' = some n ∧ n < w.size ∧ w' = w.enqueue n m := by
  cases t' with
  | none => cases h
  | some n =>
    simp only [push] at h
    split at h
    · exact ⟨n, rfl, ‹_›, (Except.ok.inj h).symm⟩
    · cases h

/-- The candidates among the threads of one object are that thread. -/
theorem scanThread_singleton {r i : Nat} {acc : Rat × Option Nat × Option Nat}
    (h : (∀ j, acc.2.1 = some j → j = r) ∧ ∀ j, acc.2.2 = some j → j = r) :
    (∀ j, (w.scanThread [r] acc i).2.1 = some j → j = r) ∧
      ∀ j, (w.scanThread [r] acc i).2.2 = some j → j = r := by
  unfold scanThread
  split
  · exact h
  · rename_i hi
    have hi : i = r := by simpa using hi
    split
    · split
      · exact ⟨fun j hj => (Option.some.inj hj).symm.trans hi, h.2⟩
      · exact ⟨h.1, fun j hj => (Option.some.inj hj).symm.trans hi⟩
    · exact h

/-- A call of an object with one thread goes to that thread. -/
theorem findTargetThread_singleton {r target : Nat}
    (h : w.findTargetThread t [r] = .ok target) : target = r := by
  have hscan : ∀ (l : List Nat) (acc : Rat × Option Nat × Option Nat),
      ((∀ j, acc.2.1 = some j → j = r) ∧ ∀ j, acc.2.2 = some j → j = r) →
      (∀ j, (l.foldl (w.scanThread [r]) acc).2.1 = some j → j = r) ∧
        ∀ j, (l.foldl (w.scanThread [r]) acc).2.2 = some j → j = r := by
    intro l
    induction l with
    | nil => exact fun acc hacc => hacc
    | cons i l ih => exact fun acc hacc => ih _ (scanThread_singleton hacc)
  unfold findTargetThread at h
  split at h
  · rename_i hown
    obtain rfl := Except.ok.inj h
    simpa using hown.1
  · obtain ⟨h₁, h₂⟩ := hscan (List.range w.size) (1, none, none)
      ⟨fun _ hj => (nomatch hj), fun _ hj => (nomatch hj)⟩
    simp only at h
    split at h
    · rename_i i hi
      obtain rfl := Except.ok.inj h
      split at hi
      · exact h₂ _ hi
      · exact h₁ _ hi
    · cases h

theorem queuedConstruct_queued {q : EventQueuedConstruct V} (hq : q ∈ es.construct)
    (h : w.queuedConstruct t ctx ti q = .ok w') : ReflTransGen (Queued t ctx ti es) w w' := by
  unfold queuedConstruct at h
  split at h
  · cases h
  · obtain rfl := Except.ok.inj h
    exact .refl
  · split at h
    · cases h
    · obtain rfl := Except.ok.inj h
      exact (ReflTransGen.single (.decision w)).tail (.child w.decided q _ hq)

theorem queuedFunction_queued {q : EventQueuedFunction V} (hq : q ∈ es.function)
    (h : w.queuedFunction t ctx ti q = .ok w') : ReflTransGen (Queued t ctx ti es) w w' := by
  unfold queuedFunction at h
  split at h
  · cases h
  · obtain rfl := Except.ok.inj h
    exact .refl
  · rename_i info hslot
    split at h
    · cases h
    · rename_i locator hlocator
      split at h
      · cases h
      · rename_i target hfind
        split at h
        · obtain rfl := Except.ok.inj h
          refine (ReflTransGen.single (.decision w)).tail
            (.call w.decided q info locator _ hq hslot hlocator (fun r hr => ?_) ‹_›)
          exact findTargetThread_singleton (hr ▸ hfind)
        · cases h

theorem queuedUring_queued {q : EventQueuedUring V} (hq : q ∈ es.uring)
    (h : w.queuedUring t ti q = .ok w') : ReflTransGen (Queued t ctx ti es) w w' := by
  unfold queuedUring at h
  split at h
  · split at h
    · obtain rfl := Except.ok.inj h
      exact .single (.uring w q hq ‹_›)
    · cases h
  · obtain rfl := Except.ok.inj h
    exact .refl

theorem queuedTimer_queued {q : EventQueuedTimer} (hq : q ∈ es.timer)
    (h : w.queuedTimer t ctx ti q = .ok w') : ReflTransGen (Queued t ctx ti es) w w' := by
  unfold queuedTimer at h
  split at h
  · rename_i hsqe
    split at h
    · rename_i data hdata
      split at h
      · obtain rfl := Except.ok.inj h
        exact .single (.removeTimer w q data hq hsqe.2 hdata)
      · rename_i htime
        obtain rfl := Except.ok.inj h
        exact .single (.updateTimer w q data hq hsqe.2 hdata htime)
    · rename_i hnone
      obtain rfl := Except.ok.inj h
      exact .single (.addTimer w q hq hsqe.2 hnone)
  · cases h

theorem pushDeletes_queued {q : EventQueuedDelete} (hq : q ∈ es.delete) {threads : List Nat}
    (hthreads : threads ⊆ q.thread) {w : World V σ}
    (h : w.pushDeletes t ti q.objId threads = .ok w') : ReflTransGen (Queued t ctx ti es) w w' := by
  induction threads generalizing w with
  | nil =>
    obtain rfl := Except.ok.inj h
    exact .refl
  | cons thread threads ih =>
    simp only [pushDeletes] at h
    split at h
    · cases h
    · rename_i w₁ hpush
      obtain ⟨n, hn, hlt, rfl⟩ := push_eq_ok hpush
      obtain rfl := Option.some.inj hn
      obtain ⟨hmem, hrest⟩ := List.cons_subset.mp hthreads
      exact (ReflTransGen.single (.delete w q thread hq hmem hlt)).trans (ih hrest h)

theorem queuedDelete_queued {q : EventQueuedDelete} (hq : q ∈ es.delete)
    (h : w.queuedDelete t ti q = .ok w') : ReflTransGen (Queued t ctx ti es) w w' := by
  unfold queuedDelete at h
  split at h
  · cases h
  · rename_i w₁ hpush
    obtain rfl := Except.ok.inj h
    exact (pushDeletes_queued hq (List.Subset.refl _) hpush).tail (.dropChild w₁ q hq)

/-- What every round keeps is kept by the loop. -/
theorem each_invariant {α : Type} {f : World V σ → α → Except Fault (World V σ)} {l : List α}
    {I : World V σ → Prop} {w : World V σ} (h : each f l w = .ok w') (hw : I w)
    (hf : ∀ a ∈ l, ∀ w w', I w → f w a = .ok w' → I w') : I w' := by
  induction l generalizing w with
  | nil =>
    obtain rfl := Except.ok.inj h
    exact hw
  | cons a l ih =>
    simp only [each] at h
    split at h
    · cases h
    · rename_i w₁ hstep
      exact ih h (hf a List.mem_cons_self w w₁ hw hstep) fun b hb => hf b (List.mem_cons_of_mem _ hb)

theorem each_queued {α : Type} {f : World V σ → α → Except Fault (World V σ)} {l : List α}
    (hf : ∀ a ∈ l, ∀ w w', f w a = .ok w' → ReflTransGen (Queued t ctx ti es) w w')
    {w : World V σ} (h : each f l w = .ok w') : ReflTransGen (Queued t ctx ti es) w w' := by
  induction l generalizing w with
  | nil =>
    obtain rfl := Except.ok.inj h
    exact .refl
  | cons a l ih =>
    simp only [each] at h
    split at h
    · cases h
    · rename_i w₁ hstep
      exact (hf a List.mem_cons_self w w₁ hstep).trans
        (ih (fun b hb => hf b (List.mem_cons_of_mem _ hb)) h)

/-- One computation after the other. -/
theorem bind_eq_ok {α β : Type} {x : Except Fault α} {f : α → Except Fault β} {b : β}
    (h : x >>= f = .ok b) : ∃ a, x = .ok a ∧ f a = .ok b := by
  cases x with
  | error e => cases h
  | ok a => exact ⟨a, rfl, h⟩

/-- `process_queued` is a sequence of updates. -/
theorem processQueued_queued (h : w.processQueued t ctx ti es = .ok w') :
    ReflTransGen (Queued t ctx ti es) w w' := by
  unfold processQueued at h
  obtain ⟨w₁, h₁, h⟩ := bind_eq_ok h
  obtain ⟨w₂, h₂, h⟩ := bind_eq_ok h
  obtain ⟨w₃, h₃, h⟩ := bind_eq_ok h
  obtain ⟨w₄, h₄, h⟩ := bind_eq_ok h
  obtain ⟨w₅, h₅, h⟩ := bind_eq_ok h
  refine (each_queued (fun q hq _ _ => queuedConstruct_queued hq) h₁).trans ?_
  refine (each_queued (fun q hq _ _ => queuedFunction_queued hq) h₂).trans ?_
  refine (each_queued (fun q hq _ _ => queuedUring_queued hq) h₃).trans ?_
  refine (each_queued (fun q hq _ _ => queuedTimer_queued hq) h₄).trans ?_
  refine (each_queued (fun q hq _ _ => queuedDelete_queued hq) h₅).trans ?_
  refine each_queued (fun q hq w w' hstep => ?_) h
  obtain rfl := Except.ok.inj hstep
  exact .single (.attach w q hq)

/-- The constructions and the calls come first. -/
theorem processQueued_phases (h : w.processQueued t ctx ti es = .ok w') : ∃ w₁ w₂,
    each (queuedConstruct t ctx ti) es.construct w = .ok w₁ ∧
    each (queuedFunction t ctx ti) es.function w₁ = .ok w₂ ∧
    ReflTransGen (Queued t ctx ti { es with construct := [], function := [] }) w₂ w' := by
  unfold processQueued at h
  obtain ⟨w₁, h₁, h⟩ := bind_eq_ok h
  obtain ⟨w₂, h₂, h⟩ := bind_eq_ok h
  obtain ⟨w₃, h₃, h⟩ := bind_eq_ok h
  obtain ⟨w₄, h₄, h⟩ := bind_eq_ok h
  obtain ⟨w₅, h₅, h⟩ := bind_eq_ok h
  refine ⟨w₁, w₂, h₁, h₂, ?_⟩
  let es' : EventState V := { es with construct := [], function := [] }
  have huring : ReflTransGen (Queued t ctx ti es') w₂ w₃ :=
    each_queued (fun q (hq : q ∈ es'.uring) _ _ => queuedUring_queued hq) h₃
  have htimer : ReflTransGen (Queued t ctx ti es') w₃ w₄ :=
    each_queued (fun q (hq : q ∈ es'.timer) _ _ => queuedTimer_queued hq) h₄
  have hdelete : ReflTransGen (Queued t ctx ti es') w₄ w₅ :=
    each_queued (fun q (hq : q ∈ es'.delete) _ _ => queuedDelete_queued hq) h₅
  refine ((huring.trans htimer).trans hdelete).trans (each_queued (fun q hq w w' hstep => ?_) h)
  obtain rfl := Except.ok.inj hstep
  exact .single (.attach w q hq)

/-! ## What the handling of a message does -/

section Messages

variable {P : Program V σ} {m : EventVariant V} {rest : List (EventVariant V)}

/-- The head of a queue is taken. -/
def pop (w : World V σ) (t : Nat) (rest : List (EventVariant V)) : World V σ :=
  { w with queues := Function.update w.queues t rest }

theorem queues_pop (t' : Nat) :
    (w.pop t rest).queues t' = if t' = t then rest else w.queues t' := by
  unfold pop
  by_cases h : t' = t
  · subst h
    rw [if_pos rfl]
    exact Function.update_self ..
  · rw [if_neg h]
    exact Function.update_of_ne h ..

/-- What is in the queues afterwards was there before. -/
theorem suffix_pop (hq : w.queues t = m :: rest) (t' : Nat) :
    (w.pop t rest).queues t' <:+ w.queues t' := by
  rw [queues_pop]
  split
  · rename_i ht
    subst ht
    rw [hq]
    exact List.suffix_cons m rest
  · exact List.suffix_refl _

/-! The tables after the beginning of a call, and after the end of an object. -/

theorem objInfo_enter_self (f : FunctionCall V) (o : ObjectDataThreaded) (id : Id) :
    ((w.enter t f o).threads t).objInfo id = if id = f.ti.objId then
      some { o with assocProcs := o.assocProcs ++ [f.ti.procId] } else (w.threads t).objInfo id := by
  simp only [enter, threads_note, threads_setThread_self]
  exact ThreadData.objInfo_setObject ..

theorem procToDat_enter_self (f : FunctionCall V) (o : ObjectDataThreaded) (p : Id) :
    ((w.enter t f o).threads t).procToDat p = if p = f.ti.procId then
      some { (w.threads t).proc p with
        assocObj := f.ti.objId, backNotify := (f.ci.threadId, f.ci.objId, f.ci.procId)
        status := .running } else (w.threads t).procToDat p := by
  simp only [enter, threads_note, threads_setThread_self, ThreadData.procToDat_setProc]
  split
  · rename_i hp
    rw [hp]
    rfl
  · rfl

theorem objInfo_erase_self (P : Program V σ) (id o : Id) : ((w.erase P t id).threads t).objInfo o =
    if o = id then none else (w.threads t).objInfo o := by
  simp only [erase, threads_note, threads_setThread_self, Function.update_apply]

theorem procToDat_erase_self (P : Program V σ) (id p : Id) : ((w.erase P t id).threads t).procToDat p =
    if p ∈ ((w.threads t).object id).assocProcs then none else (w.threads t).procToDat p := by
  simp only [erase, threads_note, threads_setThread_self]

/-- What a `function_call` that returned went through. -/
theorem functionCall_eq_ok {f : FunctionCall V} (h : w.functionCall P t f = .ok w') :
    ∃ o ctx resp heap es w₁, (w.threads t).objInfo f.ti.objId = some o ∧ o.ptr = some ctx ∧
      (P.function f.call f.ti.objId f.ti.procId w.heap).run { uringData := w.contexts ctx } =
        .ok ((resp, heap), es) ∧
      ((w.enter t f o).afterHandler ctx es heap).processQueued t ctx f.ti es = .ok w₁ ∧
      w₁.respond t f resp = .ok w' := by
  unfold functionCall at h
  split at h
  · cases h
  · rename_i o ho
    split at h
    · cases h
    · rename_i ctx hptr
      simp only at h
      split at h
      · cases h
      · rename_i resp heap es hrun
        split at h
        · cases h
        · rename_i w₁ hqueued
          exact ⟨o, ctx, resp, heap, es, w₁, ho, hptr, hrun, hqueued, h⟩

/-- What a `data_received` that returned went through. -/
theorem dataReceived_eq_ok {d : Data} (h : w.dataReceived P t d = .ok w') :
    (∃ o c ctx y heap es w₁ w₂, (w.threads t).objInfo d.ti.objId = some o ∧
      (w.threads t).procToDat d.ti.procId = some c ∧ o.ptr = some ctx ∧
      (P.onYield d.ti.objId ((w.contexts ctx).mapEventData d.data).1 w.heap).run
        { uringData := ((w.contexts ctx).mapEventData d.data).2 } = .ok ((y, heap), es) ∧
      ((w.note (.delivered t d ((w.contexts ctx).mapEventData d.data).1)).afterHandler
        ctx es heap).processQueued t ctx d.ti es = .ok w₁ ∧
      w₁.report t d.ti y = .ok w₂ ∧
      w' = w₂.forward t { d with data := ((w.contexts ctx).mapEventData d.data).1 }
        ((w₂.threads t).alsoNotify d.ti.procId)) ∨
    (∀ o c, (w.threads t).objInfo d.ti.objId = some o →
      (w.threads t).procToDat d.ti.procId ≠ some c) ∧ w' = w := by
  unfold dataReceived at h
  split at h
  · rename_i o c ho hd
    split at h
    · cases h
    · rename_i ctx hptr
      simp only at h
      split at h
      · cases h
      · rename_i y heap es hrun
        split at h
        · cases h
        · rename_i w₁ hqueued
          split at h
          · cases h
          · rename_i w₂ hreport
            exact Or.inl ⟨o, c, ctx, y, heap, es, w₁, w₂, ho, hd, hptr, hrun, hqueued, hreport,
              (Except.ok.inj h).symm⟩
  · rename_i hmissing
    exact Or.inr ⟨fun o c ho hd => hmissing o c ho hd, (Except.ok.inj h).symm⟩

/-- What `handle_dequeue` does with the message at the head of a queue. -/
inductive Handled (P : Program V σ) (t : Nat) (w : World V σ) : World V σ → Prop where
  | idle (hq : w.queues t = []) : Handled P t w w
  | constructed {c : ConstructorCall V} {rest : List (EventVariant V)} {ctx : Nat}
      {w₁ w₂ w₃ : World V σ} {heap : σ} {es : EventState V}
      (hq : w.queues t = .constructorCall c :: rest)
      (htake : (w.pop t rest).takeContext c.uringData = (ctx, w₁))
      (hrun : (P.construct c.constructor.fn c.ti.objId w₁.heap).run
        { uringData := w₁.contexts ctx } = .ok (heap, es))
      (hslot : (w₁.afterHandler ctx es heap).fillSlot t c.constructor.slot c.ti.objId = .ok w₂)
      (hnew : (w₂.threads t).objInfo c.ti.objId = none)
      (hqueued : (w₂.setThread t ((w₂.threads t).setObject c.ti.objId
        { ptr := some ctx })).processQueued t ctx c.ti es = .ok w₃) :
      Handled P t w (w₃.submit t)
  | reconstructed {c : ConstructorCall V} {rest : List (EventVariant V)} {ctx : Nat}
      {w₁ w₂ : World V σ} {heap : σ} {es : EventState V} {o : ObjectDataThreaded}
      (hq : w.queues t = .constructorCall c :: rest)
      (htake : (w.pop t rest).takeContext c.uringData = (ctx, w₁))
      (hrun : (P.construct c.constructor.fn c.ti.objId w₁.heap).run
        { uringData := w₁.contexts ctx } = .ok (heap, es))
      (hslot : (w₁.afterHandler ctx es heap).fillSlot t c.constructor.slot c.ti.objId = .ok w₂)
      (hold : (w₂.threads t).objInfo c.ti.objId = some o) :
      Handled P t w (w₂.submit t)
  | called {f : FunctionCall V} {rest : List (EventVariant V)} {o : ObjectDataThreaded} {ctx : Nat}
      {resp : CallResponse} {heap : σ} {es : EventState V} {w₂ w₃ : World V σ}
      (hq : w.queues t = .functionCall f :: rest)
      (ho : (w.threads t).objInfo f.ti.objId = some o) (hptr : o.ptr = some ctx)
      (hrun : (P.function f.call f.ti.objId f.ti.procId w.heap).run
        { uringData := w.contexts ctx } = .ok ((resp, heap), es))
      (hqueued : (((w.pop t rest).enter t f o).afterHandler ctx es heap).processQueued
        t ctx f.ti es = .ok w₂)
      (hrespond : w₂.respond t f resp = .ok w₃) : Handled P t w (w₃.submit t)
  | delivered {d : Data} {rest : List (EventVariant V)} {o : ObjectDataThreaded}
      {c : CallDataThreaded} {ctx : Nat} {y : Yielded} {heap : σ} {es : EventState V}
      {w₂ w₃ : World V σ} (hq : w.queues t = .data d :: rest)
      (ho : (w.threads t).objInfo d.ti.objId = some o)
      (hd : (w.threads t).procToDat d.ti.procId = some c) (hptr : o.ptr = some ctx)
      (hrun : (P.onYield d.ti.objId ((w.contexts ctx).mapEventData d.data).1 w.heap).run
        { uringData := ((w.contexts ctx).mapEventData d.data).2 } = .ok ((y, heap), es))
      (hqueued : (((w.pop t rest).note (.delivered t d
        ((w.contexts ctx).mapEventData d.data).1)).afterHandler ctx es heap).processQueued
          t ctx d.ti es = .ok w₂)
      (hreport : w₂.report t d.ti y = .ok w₃) :
      Handled P t w ((w₃.forward t { d with data := ((w.contexts ctx).mapEventData d.data).1 }
        ((w₃.threads t).alsoNotify d.ti.procId)).submit t)
  | dropped {d : Data} {rest : List (EventVariant V)} (hq : w.queues t = .data d :: rest)
      (hmissing : ∀ o c, (w.threads t).objInfo d.ti.objId = some o →
        (w.threads t).procToDat d.ti.procId ≠ some c) : Handled P t w ((w.pop t rest).submit t)
  | deleted {d : Delete} {rest : List (EventVariant V)} {w₁ : World V σ}
      (hq : w.queues t = .delete d :: rest)
      (hchildren : (w.pop t rest).deleteChildren d.ci
        (w.siblings.order ((w.threads t).object d.ti.objId).children) = .ok w₁) :
      Handled P t w ((w₁.erase P t d.ti.objId).submit t)
  | root {r : RootStart V} {rest : List (EventVariant V)} (hq : w.queues t = .rootStart r :: rest) :
      Handled P t w (((w.pop t rest).rootReceived t r).submit t)

theorem constructCall_handled {c : ConstructorCall V} (hq : w.queues t = .constructorCall c :: rest)
    (h : (w.pop t rest).constructCall P t c = .ok w') : Handled P t w (w'.submit t) := by
  unfold constructCall at h
  cases htake : (w.pop t rest).takeContext c.uringData with
  | mk ctx w₁ =>
    simp only [htake] at h
    split at h
    · cases h
    · rename_i heap es hrun
      split at h
      · cases h
      · rename_i w₂ hslot
        split at h
        · rename_i o hold
          obtain rfl := Except.ok.inj h
          exact .reconstructed hq htake hrun hslot hold
        · rename_i hnew
          exact .constructed hq htake hrun hslot hnew h

theorem functionCall_handled {f : FunctionCall V} (hq : w.queues t = .functionCall f :: rest)
    (h : (w.pop t rest).functionCall P t f = .ok w') : Handled P t w (w'.submit t) := by
  obtain ⟨o, ctx, resp, heap, es, w₂, ho, hptr, hrun, hqueued, hrespond⟩ := functionCall_eq_ok h
  exact .called hq ho hptr hrun hqueued hrespond

theorem dataReceived_handled {d : Data} (hq : w.queues t = .data d :: rest)
    (h : (w.pop t rest).dataReceived P t d = .ok w') : Handled P t w (w'.submit t) := by
  obtain ⟨o, c, ctx, y, heap, es, w₂, w₃, ho, hd, hptr, hrun, hqueued, hreport, rfl⟩ |
    ⟨hmissing, rfl⟩ := dataReceived_eq_ok h
  · exact .delivered hq ho hd hptr hrun hqueued hreport
  · exact .dropped hq hmissing

/-- Every message is handled in one of these ways. -/
theorem handleDequeue_handled (h : w.handleDequeue P t = .ok w') : Handled P t w w' := by
  unfold handleDequeue at h
  split at h
  · rename_i hq
    obtain rfl := Except.ok.inj h
    exact .idle hq
  · rename_i m rest hq
    split at h
    · cases h
    · rename_i w₁ hreceive
      obtain rfl := Except.ok.inj h
      cases m with
      | constructorCall c => exact constructCall_handled hq hreceive
      | functionCall f => exact functionCall_handled hq hreceive
      | delete d =>
        change (w.pop t rest).deleteReceived P t d = .ok w₁ at hreceive
        unfold deleteReceived at hreceive
        split at hreceive
        · cases hreceive
        · rename_i w₂ hchildren
          obtain rfl := Except.ok.inj hreceive
          exact .deleted hq hchildren
      | data d => exact dataReceived_handled hq hreceive
      | rootStart r =>
        obtain rfl := Except.ok.inj hreceive
        exact .root hq

theorem step_dequeue (h : w.step P (.dequeue t) = .ok w') :
    w' = w ∨ (t < w.size ∧ Handled P t w w') := by
  simp only [step] at h
  split at h
  · exact Or.inr ⟨‹_›, handleDequeue_handled h⟩
  · exact Or.inl (Except.ok.inj h).symm

/-- What a function returns is noted for its procedure, and a result is sent to the caller. -/
theorem respond_cases {f : FunctionCall V} {resp : CallResponse}
    (h : w.respond t f resp = .ok w') : ∃ d : CallDataThreaded,
      d.backNotify = ((w.threads t).proc f.ti.procId).backNotify ∧
      d.assocObj = ((w.threads t).proc f.ti.procId).assocObj ∧
      ((resp.ret = none ∧ w' = w.setThread t ((w.threads t).setProc f.ti.procId d)) ∨
        ∃ failed code, resp.ret = some (failed, code) ∧
          (((∀ t', f.ci.threadId = some t' → w.size ≤ t') ∧
              w' = (w.setThread t ((w.threads t).setProc f.ti.procId d)).note
                (.reported f.ti.procId (resultStatus failed) code)) ∨
            ∃ t', f.ci.threadId = some t' ∧ t' < w.size ∧
              w' = ((w.setThread t ((w.threads t).setProc f.ti.procId d)).note
                (.reported f.ti.procId (resultStatus failed) code)).enqueue t'
                  (.data (completion t f.ti f.ci.objId f.ci.procId (resultStatus failed) code)))) := by
  cases hret : resp.ret with
  | none =>
    simp only [respond, hret] at h
    obtain rfl := Except.ok.inj h
    refine ⟨_, ?_, ?_, Or.inl ⟨rfl, rfl⟩⟩ <;> rfl
  | some result =>
    obtain ⟨failed, code⟩ := result
    cases hthread : f.ci.threadId with
    -- the caller is the program itself: the result is noted, and nobody is told
    | none =>
      simp only [respond, hret, hthread] at h
      obtain rfl := Except.ok.inj h
      refine ⟨_, ?_, ?_, Or.inr ⟨failed, code, rfl, Or.inl ⟨fun _ h => (nomatch h), rfl⟩⟩⟩ <;> rfl
    | some t' =>
      simp only [respond, hret, hthread] at h
      split at h
      -- the thread of the caller does not exist, and the result is dropped
      · rename_i hle
        obtain rfl := Except.ok.inj h
        refine ⟨_, ?_, ?_, Or.inr ⟨failed, code, rfl, Or.inl
          ⟨fun _ h => Option.some.inj h ▸ hle, rfl⟩⟩⟩ <;> rfl
      · obtain ⟨n, hn, hlt, rfl⟩ := push_eq_ok h
        obtain rfl := Option.some.inj hn
        refine ⟨_, ?_, ?_, Or.inr ⟨failed, code, rfl, Or.inr ⟨t', rfl, hlt, rfl⟩⟩⟩ <;> rfl

/-- The same for what `on_yield` returns. -/
theorem report_cases {y : Yielded} (h : w.report t ti y = .ok w') :
    (y = none ∧ w' = w) ∨ ∃ failed code t', y = some (failed, code) ∧
      ((w.threads t).proc ti.procId).backNotify.1 = some t' ∧ t' < w.size ∧
      w' = ((w.setThread t ((w.threads t).setProc ti.procId
        { (w.threads t).proc ti.procId with status := resultStatus failed })).note
          (.reported ti.procId (resultStatus failed) code)).enqueue t'
            (.data (completion t ti ((w.threads t).proc ti.procId).backNotify.2.1
              ((w.threads t).proc ti.procId).backNotify.2.2 (resultStatus failed) code)) := by
  cases y with
  | none => exact Or.inl ⟨rfl, (Except.ok.inj h).symm⟩
  | some result =>
    obtain ⟨failed, code⟩ := result
    obtain ⟨t', hthread, hlt, rfl⟩ := push_eq_ok h
    exact Or.inr ⟨failed, code, t', rfl, hthread, hlt, rfl⟩

/-- The closure of a construction needs the object that queued it. -/
theorem fillSlot_cases {slot : Option (Id × V.TypeIndex × Nat)} {id : Id}
    (h : w.fillSlot t slot id = .ok w') : (slot = none ∧ w' = w) ∨
      ∃ parent ty idx ctx info, slot = some (parent, ty, idx) ∧
        ((w.threads t).objInfo parent).bind (·.ptr) = some ctx ∧
        ((w.contexts ctx).slots ty)[idx]? = some (some info) ∧
        w' = w.setContext ctx ((w.contexts ctx).setSlots ty
          (((w.contexts ctx).slots ty).set idx (some { info with event := id }))) := by
  unfold fillSlot at h
  split at h
  · exact Or.inl ⟨rfl, (Except.ok.inj h).symm⟩
  · rename_i parent ty idx
    split at h
    · cases h
    · rename_i ctx hptr
      split at h
      · rename_i info hslot
        exact Or.inr ⟨parent, ty, idx, ctx, info, rfl, hptr, hslot, (Except.ok.inj h).symm⟩
      · cases h

/-- Only contexts are filled in. -/
theorem fillSlot_eq {slot : Option (Id × V.TypeIndex × Nat)} {id : Id}
    (h : w.fillSlot t slot id = .ok w') : ∃ contexts, w' = { w with contexts } := by
  obtain ⟨-, rfl⟩ | ⟨parent, ty, idx, ctx, info, -, -, -, rfl⟩ := fillSlot_cases h
  · exact ⟨w'.contexts, rfl⟩
  · exact ⟨_, rfl⟩

theorem takeContext_eq {shared : Option Nat} (h : w.takeContext shared = (ctx, w')) :
    ∃ contexts nextContext, w' = { w with contexts, nextContext } := by
  cases shared with
  | none =>
    obtain ⟨-, rfl⟩ := Prod.mk.inj h
    exact ⟨_, _, rfl⟩
  | some ctx' =>
    obtain ⟨-, rfl⟩ := Prod.mk.inj h
    exact ⟨w.contexts, w.nextContext, rfl⟩

/-- Other contexts and another heap. -/
structure SameTables (w w' : World V σ) : Prop where
  size : w'.size = w.size
  queues : w'.queues = w.queues
  threads : w'.threads = w.threads
  objIds : w'.objIds = w.objIds
  procIds : w'.procIds = w.procIds
  log : w'.log = w.log

/-- Up to its `process_queued`, a construction touches contexts and the heap only. -/
theorem filled_same {shared : Option Nat} {w₁ w₂ : World V σ} {heap : σ} {id : Id}
    {slot : Option (Id × V.TypeIndex × Nat)} (htake : w.takeContext shared = (ctx, w₁))
    (hslot : (w₁.afterHandler ctx es heap).fillSlot t slot id = .ok w₂) : SameTables w w₂ := by
  obtain ⟨contexts, nextContext, rfl⟩ := takeContext_eq htake
  obtain ⟨contexts', rfl⟩ := fillSlot_eq hslot
  exact ⟨rfl, rfl, rfl, rfl, rfl, rfl⟩

theorem initializeRootEvent_eq {constructor : V.ConstructFunc} {init : V.FunctionFunc}
    (h : w.initializeRootEvent constructor init = .ok w') :
    0 < w.size ∧ w' = { w with
      objIds := (getId w.objIds none).2, procIds := (getId w.procIds none).2 }.enqueue 0
        (.rootStart { constructor, init
                      ti := { objId := (getId w.objIds none).1
                              procId := (getId w.procIds none).1 } }) := by
  unfold initializeRootEvent at h
  obtain ⟨n, hn, hlt, heq⟩ := push_eq_ok h
  obtain rfl := Option.some.inj hn
  exact ⟨hlt, heq⟩

/-- The completion of a request changes queues and the timers of its thread, and nothing else. -/
theorem attachment_eq (w : World V σ) (t : Nat) (res : Int) (a : IoUringAttached) :
    ∃ queues timers, w.attachment t res a =
      { w with queues }.setThread t { w.threads t with timers } := by
  have hsame : ∀ queues, { w with queues } =
      { w with queues }.setThread t { w.threads t with timers := (w.threads t).timers } := by
    intro queues
    unfold setThread
    rw [Function.update_eq_self]
  cases a with
  | eventData op o p => exact ⟨_, _, hsame _⟩
  | timer timerId o p =>
    simp only [attachment]
    split
    · exact ⟨_, _, hsame _⟩
    · exact ⟨_, _, hsame _⟩
  | timerUpdate timerId remove =>
    simp only [attachment]
    split
    · exact ⟨_, _, rfl⟩
    · exact ⟨_, _, hsame _⟩

theorem attached_attachment (a : IoUringAttached) (res : Int) :
    (w.attachment t res a).attached = w.attached := by
  obtain ⟨queues, timers, heq⟩ := attachment_eq w t res a
  rw [heq]
  rfl

/-- What each copy keeps is kept by `forward`. -/
theorem forward_invariant {I : World V σ → Prop} {d : Data} {attachers : List (Id × Id)}
    {w : World V σ} (hw : I w) (hI : ∀ w, ∀ a ∈ attachers, I w → I (w.enqueue t (.data { d with
      ti := { objId := a.1, procId := a.2 }, copy := true }))) :
    I (w.forward t d attachers) := by
  induction attachers generalizing w with
  | nil => exact hw
  | cons a attachers ih =>
    exact ih (hI w a List.mem_cons_self hw) fun w b hb => hI w b (List.mem_cons_of_mem _ hb)

/-- What each push keeps is kept by the pushes for the children. -/
theorem deleteChildren_invariant {I : World V σ → Prop} {ci : CallerInfo}
    {children : List (Id × ChildObjectInfo)} {w : World V σ}
    (h : w.deleteChildren ci children = .ok w') (hw : I w)
    (hI : ∀ w, ∀ child ∈ children, I w → child.2.thread < w.size → I (w.enqueue child.2.thread
      (.delete { ci, ti := { objId := child.1, procId := none } }))) : I w' := by
  induction children generalizing w with
  | nil =>
    obtain rfl := Except.ok.inj h
    exact hw
  | cons child children ih =>
    simp only [deleteChildren] at h
    split at h
    · cases h
    · rename_i w₁ hpush
      obtain ⟨n, hn, hlt, rfl⟩ := push_eq_ok hpush
      obtain rfl := Option.some.inj hn
      exact ih h (hI w child List.mem_cons_self hw hlt)
        fun w b hb => hI w b (List.mem_cons_of_mem _ hb)

/-- What each completion keeps, and the end of the loop, is kept by `process_uring`. -/
theorem processUring_invariant {I : World V σ → Prop} (h : w.processUring t = .ok w') (hw : I w)
    (hcqe : ∀ (w : World V σ) (address : Nat) (res : Int) (a : IoUringAttached), I w →
      w.attached address = some a → I { w.attachment t res a with
        attached := Function.update w.attached address none })
    (hring : ∀ w : World V σ, I w →
      I (w.setThread t { w.threads t with ring := { (w.threads t).ring with cq := [] } })) :
    I w' := by
  have hloop : ∀ (cqes : List (Nat × Int)) (w w' : World V σ), I w → w.readCqes t cqes = .ok w' →
      I w' := by
    intro cqes
    induction cqes with
    | nil =>
      intro w w' hw h
      obtain rfl := Except.ok.inj h
      exact hw
    | cons cqe cqes ih =>
      intro w w' hw h
      obtain ⟨address, res⟩ := cqe
      simp only [readCqes] at h
      split at h
      · cases h
      · rename_i a ha
        exact ih _ _ (hcqe w address res a hw ha) h
  unfold processUring at h
  split at h
  · cases h
  · rename_i w₁ hcqes
    obtain rfl := Except.ok.inj h
    exact hring w₁ (hloop _ _ _ hw hcqes)

end Messages

end World

end LocalSoftware
