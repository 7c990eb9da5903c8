import LocalSoftware.Common.FreshObjects
import LocalSoftware.Common.QueuedOutcomes
import LocalSoftware.Common.Requests

/-!
# What can end the server

A fault in a handler or in the runtime ends the whole process. `FaultCause` lists what can lead to
one with a single worker thread: a handler that throws, objects that are gone too early, a thread that
has no load to spare, too many requests at once, memory that is in use, a call on a slot that was never
there, and a root that has a result. `faults_explained` shows that nothing else does, in any state of
any run: what the runtime looks up is there, its own messages go to a thread that exists, and
completions can be read.
-/

set_option autoImplicit false

namespace LocalSoftware

variable {V : Vocabulary} {σ : Type}

namespace World

variable {w w' v : World V σ} {ctx : Nat} {ti : TargetInfo} {es : EventState V} {P : Program V σ}
  {m : EventVariant V} {rest : List (EventVariant V)}

/-- The code of the event class throws: the constructor, the function or `on_yield`. -/
def Throws (P : Program V σ) (w : World V σ) : EventVariant V → Prop
  | .constructorCall c =>
    let taken := w.takeContext c.uringData
    ∃ e, (P.construct c.constructor.fn c.ti.objId w.heap).run
      { uringData := taken.2.contexts taken.1 } = .error e
  | .functionCall f => ∃ o ctx e, (w.threads 0).objInfo f.ti.objId = some o ∧ o.ptr = some ctx ∧
      (P.function f.call f.ti.objId f.ti.procId w.heap).run { uringData := w.contexts ctx } = .error e
  | .data d => ∃ o ctx e, (w.threads 0).objInfo d.ti.objId = some o ∧ o.ptr = some ctx ∧
      (P.onYield d.ti.objId ((w.contexts ctx).mapEventData d.data).1 w.heap).run
        { uringData := ((w.contexts ctx).mapEventData d.data).2 } = .error e
  | _ => False

/-- What can end the process when a message is handled. -/
inductive FaultCause (P : Program V σ) (w : World V σ) : EventVariant V → Prop where
  | throws {m : EventVariant V} (h : w.Throws P m) : FaultCause P w m
  /-- The object that queued a construction is gone. -/
  | parent {c : ConstructorCall V} {parent : Id} {ty : V.TypeIndex} {idx : Nat}
      (hslot : c.constructor.slot = some (parent, ty, idx))
      (hgone : (w.threads 0).objInfo parent = none) : FaultCause P w (.constructorCall c)
  /-- It has emptied the slot since, or shares its context with the constructor, which has. -/
  | slot {c : ConstructorCall V} {parent : Id} {ty : V.TypeIndex} {idx ctx : Nat}
      {obj : ObjectDataThreaded} (hslot : c.constructor.slot = some (parent, ty, idx))
      (hobj : (w.threads 0).objInfo parent = some obj) (hptr : obj.ptr = some ctx)
      (hempty : (w.contexts ctx).slot ty idx = none ∨ ∃ ti es,
        w.handlerState P 0 (.constructorCall c) = some (ctx, ti, es) ∧
          es.uringData.slot ty idx = none) : FaultCause P w (.constructorCall c)
  /-- The object of a call is gone. -/
  | callee {f : FunctionCall V} (hgone : (w.threads 0).objInfo f.ti.objId = none) :
      FaultCause P w (.functionCall f)
  /-- No thread has load to spare for a construction or a call. -/
  | overloaded {m : EventVariant V} {ctx : Nat} {ti : TargetInfo} {es : EventState V} {k : Nat}
      (hrun : w.handlerState P 0 m = some (ctx, ti, es))
      (hk : k < es.construct.length + es.function.length)
      (hload : 1 ≤ w.loads (w.decisions + k) 0) : FaultCause P w m
  /-- The ring is full before the last timer. -/
  | ringFull {m : EventVariant V} {ctx : Nat} {ti : TargetInfo} {es : EventState V}
      (hrun : w.handlerState P 0 m = some (ctx, ti, es)) (htimer : es.timer ≠ [])
      (hfull : 512 < es.uring.length + es.timer.length) : FaultCause P w m
  /-- The memory for an attachment is in use. -/
  | memory {m : EventVariant V} {ctx : Nat} {ti : TargetInfo} {es : EventState V} {k : Nat}
      (hrun : w.handlerState P 0 m = some (ctx, ti, es))
      (hk : k < es.uring.length + es.timer.length)
      (hused : w.attached (w.malloc (w.mallocs + k)) ≠ none ∨
        ∃ j < k, w.malloc (w.mallocs + j) = w.malloc (w.mallocs + k)) : FaultCause P w m
  /-- A call is for a slot that was never there. -/
  | badSlot {m : EventVariant V} {ctx : Nat} {ti : TargetInfo} {es : EventState V}
      {q : EventQueuedFunction V} (hrun : w.handlerState P 0 m = some (ctx, ti, es))
      (hq : q ∈ es.function) (hidx : (es.uringData.slots q.idx).length ≤ q.vidx) : FaultCause P w m
  /-- A root has a result, for the thread -1. -/
  | root {d : Data} (hyield : w.yields P 0 (.data d) ≠ none)
      (hcaller : ((w.threads 0).proc d.ti.procId).backNotify.1 = none) : FaultCause P w (.data d)

/-- What holds between the messages. -/
structure Sound (w : World V σ) : Prop where
  size : w.size = 1
  grounded : w.Grounded
  located : ∀ c, (w.contexts c).Located

/-- The state in which what the handler of `m` queued is processed. -/
structure Ran (P : Program V σ) (w : World V σ) (m : EventVariant V) (ctx : Nat) (ti : TargetInfo)
    (es : EventState V) (v : World V σ) : Prop where
  size : v.size = 1
  state : w.handlerState P 0 m = some (ctx, ti, es)
  grounded : v.Grounded
  exist : v.Exists ti.objId
  supply : v.supply = w.supply
  others : ∀ c, c ≠ ctx → (v.contexts c).Located
  placed : (v.contexts ctx).Placed es.construct
  lengths : ∀ ty, ((v.contexts ctx).slots ty).length = (es.uringData.slots ty).length
  deletes : ∀ q ∈ es.delete, q.thread = [0]
  ring : (v.threads 0).ring.sq = []

/-- Without a cause for a fault, `process_queued` returns. -/
theorem Ran.delivers (h : Ran P w m ctx ti es v) :
    Delivers (¬ FaultCause P w m) (v.processQueued 0 ctx ti es) fun v' =>
      v'.Sound ∧ (v'.threads 0).procToDat = (v.threads 0).procToDat := by
  have hworking : Working (¬ FaultCause P w m) ctx ti v es.construct
      (es.construct.length + es.function.length) (es.uring.length + es.timer.length)
      (es.uring.length + es.timer.length) v := {
    size := h.size
    grounded := h.grounded
    exist := h.exist
    supplied := by
      rw [h.supply]
      refine ⟨fun hpre k hk => ?_, fun hpre k hk => ⟨?_, fun j hj hsame => ?_⟩⟩
      · by_contra hload
        exact hpre (.overloaded h.state hk (not_lt.mp hload))
      · by_contra hused
        exact hpre (.memory h.state hk (Or.inl hused))
      · exact hpre (.memory h.state hk (Or.inr ⟨j, hj, hsame⟩))
    others := h.others
    placed := h.placed
    lengths := fun _ => rfl
    procToDat := rfl
    ring := by
      rw [h.ring]
      exact Nat.le_of_eq (Nat.zero_add _) }
  refine (processQueued_delivers hworking (fun hpre q hq => ?_) (fun hpre => ?_) h.deletes).mono
    fun v' hv' => ⟨⟨hv'.size, hv'.grounded, hv'.located⟩, hv'.procToDat⟩
  · by_contra hidx
    rw [h.lengths] at hidx
    exact hpre (.badSlot h.state hq (Nat.not_lt.mp hidx))
  · by_contra hroom
    rw [not_or, Nat.not_le] at hroom
    exact hpre (.ringFull h.state hroom.1 hroom.2)

theorem push_of_lt {t : Nat} (ht : t < w.size) : w.push (some t) m = .ok (w.enqueue t m) := if_pos ht

/-! ## Between the messages -/

namespace Sound

theorem congr (h : w.Sound) (hsize : w'.size = w.size)
    (hqueue : ∀ f, .functionCall f ∈ w'.queues 0 → .functionCall f ∈ w.queues 0)
    (hobj : (w'.threads 0).objInfo = (w.threads 0).objInfo)
    (hproc : (w'.threads 0).procToDat = (w.threads 0).procToDat)
    (hcontexts : w'.contexts = w.contexts) : w'.Sound where
  size := hsize.trans h.size
  grounded := h.grounded.congr hqueue hobj hproc
  located c := by
    rw [hcontexts]
    exact h.located c

theorem pop (h : w.Sound) (hq : w.queues 0 = m :: rest) : (w.pop 0 rest).Sound :=
  ⟨h.size, h.grounded.pop hq, h.located⟩

theorem note (h : w.Sound) (n : Note) : (w.note n).Sound :=
  h.congr rfl (fun _ hf => hf) rfl rfl rfl

theorem enqueue (h : w.Sound) (t : Nat)
    (hm : ∀ f t, m = .functionCall f → f.ci.threadId = some t → t = 0) : (w.enqueue t m).Sound :=
  ⟨h.size, h.grounded.enqueue t hm, h.located⟩

theorem data (h : w.Sound) (t : Nat) (d : Data) : (w.enqueue t (.data d)).Sound :=
  h.enqueue t fun f t hm => by cases hm

theorem setProc (h : w.Sound) (id : Id) {d : CallDataThreaded}
    (hd : ∀ t, d.backNotify.1 = some t → t = 0) :
    (w.setThread 0 ((w.threads 0).setProc id d)).Sound :=
  ⟨h.size, h.grounded.setProc id hd, h.located⟩

theorem submit (h : w.Sound) : (w.submit 0).Sound :=
  ⟨h.size, h.grounded.sameCore (SameCore.refl 0 w).submit, h.located⟩

theorem size_pos (h : w.Sound) : 0 < w.size := by
  rw [h.size]
  exact Nat.one_pos

/-! ## The parts of the handling of a message -/

/-- A caller that is known is on the first thread. -/
theorem respond (h : w.Sound) {f : FunctionCall V} (hf : ∀ t, f.ci.threadId = some t → t = 0)
    (resp : CallResponse) {pre : Prop} : Delivers pre (w.respond 0 f resp) Sound where
  keeps w' hw' := respond_keeps (I := Sound) hw'
    (fun _ hback => h.setProc _ fun t ht => h.grounded.notify_proc f.ti.procId t (hback ▸ ht))
    (fun _ n hw => hw.note n) fun _ t d _ hw => hw.data t d
  returns _ := by
    simp only [World.respond]
    cases resp.ret with
    | none => exact ⟨_, rfl⟩
    | some result =>
      cases hcaller : f.ci.threadId with
      | none => exact ⟨_, rfl⟩
      | some t' =>
        obtain rfl := hf t' hcaller
        have hsize : ¬ w.size ≤ 0 := Nat.not_le.mpr h.size_pos
        exact ⟨_, (if_neg hsize).trans (push_of_lt h.size_pos)⟩

/-- A result needs a thread to go to. -/
theorem report (h : w.Sound) (ti : TargetInfo) (y : Yielded) {pre : Prop}
    (hcaller : pre → y ≠ none → ((w.threads 0).proc ti.procId).backNotify.1 ≠ none) :
    Delivers pre (w.report 0 ti y) Sound where
  keeps w' hw' := report_keeps (I := Sound) hw' h
    (fun _ hback => h.setProc _ fun t ht => h.grounded.notify_proc ti.procId t (hback ▸ ht))
    (fun _ n hw => hw.note n) fun _ t d _ hw => hw.data t d
  returns hpre := by
    cases y with
    | none => exact ⟨w, rfl⟩
    | some result =>
      obtain ⟨t', ht'⟩ := Option.ne_none_iff_exists'.mp
        (hcaller hpre (Option.some_ne_none result))
      obtain rfl := h.grounded.notify_proc ti.procId t' ht'
      simp only [World.report, ht']
      exact ⟨_, push_of_lt h.size_pos⟩

theorem forward (h : w.Sound) (d : Data) (attachers : List (Id × Id)) :
    (w.forward 0 d attachers).Sound :=
  forward_invariant (I := Sound) h fun _ _ _ hw => hw.data 0 _

/-- The children are on the first thread. -/
theorem deleteChildren (h : w.Sound) {children : List (Id × ChildObjectInfo)}
    (hchildren : ∀ child ∈ children, child.2.thread = 0) (ci : CallerInfo) {pre : Prop} :
    Delivers pre (w.deleteChildren ci children) fun w' => w'.Sound := by
  -- on the children, each of which gets its message
  induction children generalizing w with
  | nil => exact .ok h
  | cons child children ih =>
    obtain ⟨id, info⟩ := child
    have hthread : info.thread = 0 := hchildren _ List.mem_cons_self
    simp only [World.deleteChildren, hthread, push, if_pos h.size_pos]
    exact ih (h.enqueue 0 fun f t hm => by cases hm) fun child hchild =>
      hchildren child (List.mem_cons_of_mem _ hchild)

theorem erase (h : w.Sound) (P : Program V σ) (id : Id) : (w.erase P 0 id).Sound :=
  ⟨h.size, h.grounded.erase P id, h.located⟩

theorem root (h : w.Sound) (r : RootStart V) : (w.rootReceived 0 r).Sound := by
  refine (h.enqueue 0 fun f t hm => by cases hm).enqueue 0 fun f t hm ht => ?_
  obtain rfl := EventVariant.functionCall.inj hm
  cases ht

end Sound

/-! ## The messages -/

/-- The closure of a construction misses the object that queued it, or its slot. -/
theorem fillSlot_error {slot : Option (Id × V.TypeIndex × Nat)} {id : Id} {e : Fault}
    (h : w.fillSlot 0 slot id = .error e) : ∃ parent ty idx, slot = some (parent, ty, idx) ∧
      (((w.threads 0).objInfo parent).bind (·.ptr) = none ∨
        ∃ ctx, ((w.threads 0).objInfo parent).bind (·.ptr) = some ctx ∧
          (w.contexts ctx).slot ty idx = none) := by
  unfold fillSlot at h
  split at h
  · cases h
  · rename_i parent ty idx
    refine ⟨parent, ty, idx, rfl, ?_⟩
    split at h
    · exact Or.inl ‹_›
    · rename_i ctx hptr
      refine Or.inr ⟨ctx, hptr, ?_⟩
      split at h
      · cases h
      · rename_i hslot
        by_contra hne
        obtain ⟨info, hinfo⟩ := Option.ne_none_iff_exists'.mp hne
        exact hslot info (IoUringData.slot_eq_some_iff.mp hinfo)

theorem lengths_fillSlot {slot : Option (Id × V.TypeIndex × Nat)} {id : Id}
    (h : w.fillSlot 0 slot id = .ok w') (ctx : Nat) (ty : V.TypeIndex) :
    ((w'.contexts ctx).slots ty).length = ((w.contexts ctx).slots ty).length := by
  obtain ⟨-, rfl⟩ | ⟨parent, ty', idx, ctx', info, -, -, -, rfl⟩ := fillSlot_cases h
  · rfl
  · rw [contexts_setContext]
    split
    · rename_i hctx
      rw [IoUringData.slots_setSlots, hctx]
      split
      · rename_i hty
        rw [List.length_set, hty]
      · rfl
    · rfl

theorem Sound.takeContext (h : w.Sound) (shared : Option Nat) : (w.takeContext shared).2.Sound := by
  cases shared with
  | some ctx => exact h
  | none =>
    refine ⟨h.size, h.grounded.congr (fun _ hf => hf) rfl rfl, fun c => ?_⟩
    show ((w.setContext w.nextContext {}).contexts c).Located
    rw [contexts_setContext]
    split
    · exact IoUringData.located_empty
    · exact h.located c

/-- What a handler leaves in the contexts. -/
theorem context_afterHandler {heap : σ} (c : Nat) :
    (w.afterHandler ctx es heap).contexts c = if c = ctx then es.uringData else w.contexts c :=
  contexts_setContext _ c

theorem takeContext_contexts {shared : Option Nat} {c : Nat} (h : w.takeContext shared = (ctx, w'))
    (hc : c ≠ ctx) : w'.contexts c = w.contexts c := by
  cases shared with
  | some ctx' =>
    obtain ⟨-, rfl⟩ := Prod.mk.inj h
    rfl
  | none =>
    obtain ⟨rfl, rfl⟩ := Prod.mk.inj h
    exact (contexts_setContext _ c).trans (if_neg hc)

/-- The object is entered after its constructor has run. -/
theorem Sound.constructed {c : ConstructorCall V} {w₁ w₂ : World V σ} {heap : σ} (h₁ : w₁.Sound)
    (h : w.Sound) (hq : w.queues 0 = m :: rest)
    (htake : (w.pop 0 rest).takeContext c.uringData = (ctx, w₁))
    (hstate : w.handlerState P 0 (.constructorCall c) = some (ctx, c.ti, es))
    (hrun : (P.construct c.constructor.fn c.ti.objId w₁.heap).run { uringData := w₁.contexts ctx } =
      .ok (heap, es))
    (hslot : (w₁.afterHandler ctx es heap).fillSlot 0 c.constructor.slot c.ti.objId = .ok w₂)
    (hring : (w.threads 0).ring.sq = []) : Ran P w (.constructorCall c) ctx c.ti es
      (w₂.setThread 0 ((w₂.threads 0).setObject c.ti.objId { ptr := some ctx })) := by
  have hsame := filled_same htake hslot
  obtain ⟨hplaced, hdeletes⟩ := run_placed (h₁.located ctx) hrun
  have hgrounded : w₂.Grounded :=
    (h.pop hq).grounded.congr (fun _ hf => hsame.queues ▸ hf) (by rw [hsame.threads])
      (by rw [hsame.threads])
  have hsupply : w₂.supply = w.supply := by
    obtain ⟨contexts, nextContext, rfl⟩ := takeContext_eq htake
    obtain ⟨contexts', rfl⟩ := fillSlot_eq hslot
    rfl
  exact {
    size := hsame.size.trans h.size
    state := hstate
    grounded := hgrounded.setObject _ rfl fun child hchild => absurd hchild List.not_mem_nil
    exist := exists_setObject _ _ _
    supply := hsupply
    others := fun c' hc' => by
      refine (h₁.located c').congr fun ty idx => ?_
      refine (locator_fillSlot hslot c' ty idx).trans ?_
      rw [context_afterHandler, if_neg hc']
    placed := hplaced.congr fun ty idx => by
      refine (locator_fillSlot hslot ctx ty idx).trans ?_
      rw [slot_afterHandler]
    lengths := fun ty => by
      refine (lengths_fillSlot hslot ctx ty).trans ?_
      rw [context_afterHandler, if_pos rfl]
    deletes := hdeletes
    ring := by
      rw [threads_setThread_self, hsame.threads]
      exact hring }

theorem constructCall_delivers {c : ConstructorCall V} (h : w.Sound)
    (hring : (w.threads 0).ring.sq = []) (hq : w.queues 0 = .constructorCall c :: rest)
    (hnew : (w.threads 0).objInfo c.ti.objId = none) :
    Delivers (¬ FaultCause P w (.constructorCall c)) ((w.pop 0 rest).constructCall P 0 c) Sound := by
  have hcontext : ((w.pop 0 rest).takeContext c.uringData).2.contexts
      ((w.pop 0 rest).takeContext c.uringData).1 =
        (w.takeContext c.uringData).2.contexts (w.takeContext c.uringData).1 := by
    cases c.uringData <;> rfl
  unfold constructCall
  cases htake : (w.pop 0 rest).takeContext c.uringData with
  | mk ctx w₁ =>
    have hw₁ : w₁.Sound := by
      have htaken := (h.pop hq).takeContext c.uringData
      rw [htake] at htaken
      exact htaken
    have hheap : w₁.heap = w.heap := by
      obtain ⟨contexts, nextContext, rfl⟩ := takeContext_eq htake
      rfl
    simp only
    cases hrun : (P.construct c.constructor.fn c.ti.objId w₁.heap).run
        { uringData := w₁.contexts ctx } with
    | error e =>
      refine .error e fun hpre => hpre (.throws ⟨e, ?_⟩)
      rw [← hcontext, htake, ← hheap]
      exact hrun
    | ok result =>
      obtain ⟨heap, es⟩ := result
      have hstate := handlerState_construct htake hrun
      simp only
      cases hslot : (w₁.afterHandler ctx es heap).fillSlot 0 c.constructor.slot c.ti.objId with
      | error e =>
        refine .error e fun hpre => hpre ?_
        have hthreads : (w₁.afterHandler ctx es heap).threads = w.threads := by
          obtain ⟨contexts, nextContext, rfl⟩ := takeContext_eq htake
          rfl
        obtain ⟨parent, ty, idx, hparent, hcases⟩ := fillSlot_error hslot
        rw [hthreads] at hcases
        cases hobj : (w.threads 0).objInfo parent with
        | none => exact .parent hparent hobj
        | some obj =>
          rw [hobj] at hcases
          rcases hcases with hnone | ⟨ctx', hptr, hempty⟩
          · have hsome := h.grounded.ptr hobj
            rw [show obj.ptr = none from hnone] at hsome
            cases hsome
          · refine .slot hparent hobj hptr ?_
            rw [context_afterHandler] at hempty
            split at hempty
            · rename_i hctx
              rw [hctx]
              exact Or.inr ⟨c.ti, es, hstate, hempty⟩
            · rename_i hctx
              rw [takeContext_contexts htake hctx] at hempty
              exact Or.inl hempty
      | ok w₂ =>
        have hsame := filled_same htake hslot
        have hnone : (w₂.threads 0).objInfo c.ti.objId = none := by
          rw [hsame.threads]
          exact hnew
        have hran : Ran P w (.constructorCall c) ctx c.ti es
            (w₂.setThread 0 ((w₂.threads 0).setObject c.ti.objId { ptr := some ctx })) :=
          hw₁.constructed h hq htake hstate hrun hslot hring
        simp only [hnone]
        exact hran.delivers.mono fun _ hw' => hw'.1

/-- A call is entered, and its handler has run. -/
theorem Sound.called (h : w.Sound) {f : FunctionCall V} {o : ObjectDataThreaded}
    {resp : CallResponse} {heap : σ} (hq : w.queues 0 = .functionCall f :: rest)
    (hcaller : ∀ t, f.ci.threadId = some t → t = 0)
    (ho : (w.threads 0).objInfo f.ti.objId = some o) (hptr : o.ptr = some ctx)
    (hrun : (P.function f.call f.ti.objId f.ti.procId w.heap).run { uringData := w.contexts ctx } =
      .ok ((resp, heap), es)) (hring : (w.threads 0).ring.sq = []) :
    Ran P w (.functionCall f) ctx f.ti es
      (((w.pop 0 rest).enter 0 f o).afterHandler ctx es heap) := by
  obtain ⟨hplaced, hdeletes⟩ := run_placed (h.located ctx) hrun
  have hentered : ((w.pop 0 rest).enter 0 f o).Grounded := (h.pop hq).grounded.enter ho hcaller
  have hexist : ((w.pop 0 rest).enter 0 f o).Exists f.ti.objId :=
    ⟨_, (objInfo_enter_self (w := w.pop 0 rest) (t := 0) f o f.ti.objId).trans (if_pos rfl)⟩
  exact {
    size := h.size
    state := handlerState_function ho hptr hrun
    grounded := hentered.congr (fun _ hf => hf) rfl rfl
    exist := hexist
    supply := rfl
    others := fun c hc => by
      rw [context_afterHandler, if_neg hc]
      exact h.located c
    placed := by
      rw [context_afterHandler, if_pos rfl]
      exact hplaced
    lengths := fun ty => by rw [context_afterHandler, if_pos rfl]
    deletes := hdeletes
    ring := by
      show (((w.pop 0 rest).enter 0 f o).threads 0).ring.sq = []
      rw [World.enter, threads_note, threads_setThread_self]
      exact hring }

theorem functionCall_delivers {f : FunctionCall V} (h : w.Sound)
    (hring : (w.threads 0).ring.sq = []) (hq : w.queues 0 = .functionCall f :: rest) :
    Delivers (¬ FaultCause P w (.functionCall f)) ((w.pop 0 rest).functionCall P 0 f) Sound := by
  have hcaller : ∀ t, f.ci.threadId = some t → t = 0 := fun t ht => by
    refine h.grounded.callers (f := f) ?_ ht
    rw [hq]
    exact List.mem_cons_self
  unfold functionCall
  cases ho : ((w.pop 0 rest).threads 0).objInfo f.ti.objId with
  | none => exact .error _ fun hpre => hpre (.callee ho)
  | some o =>
    obtain ⟨ctx, hptr⟩ := Option.isSome_iff_exists.mp (h.grounded.ptr ho)
    simp only [hptr]
    split
    · rename_i e hrun
      exact .error e fun hpre => hpre (.throws ⟨o, ctx, e, ho, hptr, hrun⟩)
    · rename_i resp heap es hrun
      have hran := h.called hq hcaller ho hptr hrun hring
      refine hran.delivers.next (fun e herror => by rw [herror]) fun w' hreturned hw' => ?_
      rw [hreturned]
      exact hw'.1.respond hcaller resp

/-- What was received is delivered, and `on_yield` has run. -/
theorem Sound.delivered (h : w.Sound) {d : Data} {o : ObjectDataThreaded} {c : CallDataThreaded}
    {y : Yielded} {heap : σ} (hq : w.queues 0 = .data d :: rest)
    (ho : (w.threads 0).objInfo d.ti.objId = some o)
    (hd : (w.threads 0).procToDat d.ti.procId = some c) (hptr : o.ptr = some ctx)
    (hrun : (P.onYield d.ti.objId ((w.contexts ctx).mapEventData d.data).1 w.heap).run
      { uringData := ((w.contexts ctx).mapEventData d.data).2 } = .ok ((y, heap), es))
    (hring : (w.threads 0).ring.sq = []) :
    Ran P w (.data d) ctx d.ti es (((w.pop 0 rest).note (.delivered 0 d
      ((w.contexts ctx).mapEventData d.data).1)).afterHandler ctx es heap) := by
  have hlocated : ((w.contexts ctx).mapEventData d.data).2.Located := by
    refine (h.located ctx).congr fun ty idx => ?_
    cases d.data <;> rfl
  obtain ⟨hplaced, hdeletes⟩ := run_placed hlocated hrun
  exact {
    size := h.size
    state := handlerState_yield ho hd hptr hrun
    grounded := (h.pop hq).grounded.congr (fun _ hf => hf) rfl rfl
    exist := ⟨o, ho⟩
    supply := rfl
    others := fun c hc => by
      rw [context_afterHandler, if_neg hc]
      exact h.located c
    placed := by
      rw [context_afterHandler, if_pos rfl]
      exact hplaced
    lengths := fun ty => by rw [context_afterHandler, if_pos rfl]
    deletes := hdeletes
    ring := hring }

theorem dataReceived_delivers {d : Data} (h : w.Sound)
    (hring : (w.threads 0).ring.sq = []) (hq : w.queues 0 = .data d :: rest) :
    Delivers (¬ FaultCause P w (.data d)) ((w.pop 0 rest).dataReceived P 0 d) Sound := by
  unfold dataReceived
  split
  · rename_i o c ho hd
    obtain ⟨ctx, hptr⟩ := Option.isSome_iff_exists.mp (h.grounded.ptr ho)
    simp only [hptr]
    split
    · rename_i e hrun
      exact .error e fun hpre => hpre (.throws ⟨o, ctx, e, ho, hptr, hrun⟩)
    · rename_i y heap es hrun
      have hran : Ran P w (.data d) ctx d.ti es (((w.pop 0 rest).note (.delivered 0 d
          (((w.pop 0 rest).contexts ctx).mapEventData d.data).1)).afterHandler ctx es heap) :=
        h.delivered hq ho hd hptr hrun hring
      have hyields : w.yields P 0 (.data d) = y := yields_data ho hd hptr hrun
      refine hran.delivers.next (fun e herror => by rw [herror]) fun w' hreturned hw' => ?_
      have hreport : Delivers (¬ FaultCause P w (.data d)) (w'.report 0 d.ti y) Sound := by
        refine hw'.1.report d.ti y fun hpre hy hcaller => ?_
        rw [ThreadData.proc, hw'.2] at hcaller
        exact hpre (.root (hyields ▸ hy) hcaller)
      refine hreport.next (fun e herror => by simp only [hreturned, herror])
        fun w'' hreported hw'' => ?_
      simp only [hreturned, hreported]
      exact .ok (hw''.forward _ _)
  · exact .ok (h.pop hq)

/-- The children of an object are told, and the object is erased. -/
theorem deleteReceived_delivers {d : Delete} (h : w.Sound) (hq : w.queues 0 = .delete d :: rest)
    {pre : Prop} : Delivers pre ((w.pop 0 rest).deleteReceived P 0 d) Sound := by
  have hpop := h.pop hq
  have hchildren : ∀ child ∈ (w.pop 0 rest).siblings.order
      (((w.pop 0 rest).threads 0).object d.ti.objId).children, child.2.thread = 0 := by
    intro child hchild
    rw [Iteration.mem_order] at hchild
    unfold ThreadData.object at hchild
    cases ho : ((w.pop 0 rest).threads 0).objInfo d.ti.objId with
    | none =>
      rw [ho] at hchild
      exact absurd hchild List.not_mem_nil
    | some o =>
      rw [ho] at hchild
      exact hpop.grounded.children ho hchild
  unfold deleteReceived
  refine (hpop.deleteChildren hchildren d.ci).next (fun e herror => by rw [herror])
    fun w' hreturned hw' => ?_
  rw [hreturned]
  exact .ok (hw'.erase P _)

/-- A message is handled, and there is a cause if it is not. -/
theorem receive_delivers (h : w.Sound) (hring : (w.threads 0).ring.sq = [])
    (hq : w.queues 0 = m :: rest)
    (hnew : ∀ c, m = .constructorCall c → (w.threads 0).objInfo c.ti.objId = none) :
    Delivers (¬ FaultCause P w m) ((w.pop 0 rest).receive P 0 m) Sound := by
  cases m with
  | constructorCall c => exact constructCall_delivers h hring hq (hnew c rfl)
  | functionCall f => exact functionCall_delivers h hring hq
  | delete d => exact deleteReceived_delivers h hq
  | data d => exact dataReceived_delivers h hring hq
  | rootStart r => exact .ok ((h.pop hq).root r)

/-! ## Runs -/

theorem Sound.sameCore {t : Nat} (h : w.Sound) (hw : SameCore t w w') : w'.Sound :=
  ⟨hw.size.trans h.size, h.grounded.sameCore hw,
    fun c => (h.located c).congr fun _ _ => by rw [IoUringData.slot_congr (hw.subEvents c)]⟩

/-- No other action adds to what is not submitted. -/
theorem sq_other {a : Action V} (ha : ∀ t, a ≠ .dequeue t) (h : w.step P a = .ok w') :
    (w'.threads 0).ring.sq = (w.threads 0).ring.sq := by
  cases a with
  | dequeue t => exact absurd rfl (ha t)
  | uring t =>
    simp only [step] at h
    split at h
    · refine processUring_invariant (I := fun w' => (w'.threads 0).ring.sq = (w.threads 0).ring.sq) h
        rfl (fun w₁ address res a hw₁ _ => ?_) fun w₁ hw₁ => ?_
      · obtain ⟨queues, timers, heq⟩ := attachment_eq w₁ t res a
        rw [heq, ← hw₁]
        exact proj_setThread _ _ _ _ (·.ring.sq) rfl
      · rw [← hw₁]
        exact proj_setThread _ _ _ _ (·.ring.sq) rfl
    · obtain rfl := Except.ok.inj h
      rfl
  | complete t k res =>
    obtain rfl := Except.ok.inj h
    simp only [complete]
    split
    · rfl
    · exact proj_setThread _ _ _ _ (·.ring.sq) rfl
  | root constructor init =>
    obtain ⟨-, rfl⟩ := initializeRootEvent_eq h
    rfl
  | load _ | iterate _ =>
    obtain rfl := Except.ok.inj h
    rfl

/-- What holds in every state of a run: besides, objects that wait for their construction are new. -/
structure Stable (w : World V σ) : Prop where
  sound : w.Sound
  submitted : (w.threads 0).ring.sq = []
  fresh : ∃ known, Fresh known w ∧ ∀ o, ((w.threads 0).objInfo o).isSome → o ∈ known

theorem Stable.new (h : w.Stable) (hq : w.queues 0 = m :: rest) :
    ∀ c, m = .constructorCall c → (w.threads 0).objInfo c.ti.objId = none := by
  rintro c rfl
  obtain ⟨known, hfresh, hobjects⟩ := h.fresh
  by_contra hne
  have hmem := hobjects c.ti.objId (Option.isSome_iff_ne_none.mpr hne)
  exact ((hfresh.pop hq).2 _ rfl).unused hmem

theorem Stable.dequeue (h : w.Stable) (hq : w.queues 0 = m :: rest) :
    Delivers (¬ FaultCause P w m) (w.handleDequeue P 0) Stable := by
  have hpopped : { w with queues := Function.update w.queues 0 rest } = w.pop 0 rest := rfl
  refine (receive_delivers (P := P) h.sound h.submitted hq (h.new hq)).next (fun e herror => ?_)
    fun w₁ hreceived hsound => ?_
  · simp only [handleDequeue, hq, hpopped, herror]
  · have hreturned : w.handleDequeue P 0 = .ok (w₁.submit 0) := by
      simp only [handleDequeue, hq, hpopped, hreceived]
    have hhandled := handleDequeue_handled hreturned
    obtain ⟨known, hfresh, hobjects⟩ := h.fresh
    rw [hreturned]
    refine .ok ⟨hsound.submit, ?_, known ++ m.builtId.toList, (hfresh.handled hq hhandled).1,
      fun o ho => ?_⟩
    · rw [submit, threads_setThread_self]
    · rcases handled_objects hhandled o ho with ho | ⟨c, rest', hq', rfl⟩
      · exact List.mem_append_left _ (hobjects o ho)
      · obtain ⟨rfl, -⟩ := List.cons.inj (hq'.symm.trans hq)
        exact List.mem_append_right _ List.mem_cons_self

theorem Sound.other (h : w.Sound) {a : Action V} (ha : ∀ t, a ≠ .dequeue t)
    (hstep : w.step P a = .ok w') :
    w'.Sound ∧ (w'.threads 0).objInfo = (w.threads 0).objInfo := by
  obtain ⟨t, -, huring⟩ | ⟨t, hsame, -⟩ | ⟨constructor, init, hroot⟩ := step_other hstep ha
  · exact processUring_core (I := fun w' => w'.Sound ∧ (w'.threads 0).objInfo = (w.threads 0).objInfo)
      huring ⟨h, rfl⟩ (fun _ _ hsame hI => ⟨hI.1.sameCore hsame, hsame.objects.1.trans hI.2⟩)
      fun _ _ _ _ _ hI => ⟨hI.1.data t _, hI.2⟩
  · exact ⟨h.sameCore hsame, hsame.objects.1⟩
  · obtain ⟨-, rfl⟩ := initializeRootEvent_eq hroot
    have hdrawn : ({ w with
        objIds := (getId w.objIds none).2, procIds := (getId w.procIds none).2 } : World V σ).Sound :=
      h.congr rfl (fun _ hf => hf) rfl rfl rfl
    refine ⟨hdrawn.enqueue 0 fun f t hm => ?_, rfl⟩
    cases hm

theorem Stable.step (h : w.Stable) {a : Action V} (hstep : w.step P a = .ok w') : w'.Stable := by
  have hother : (∀ t, a ≠ .dequeue t) → w'.Stable := fun ha => by
    obtain ⟨known, hfresh, hobjects⟩ := h.fresh
    obtain ⟨hsound, hobj⟩ := h.sound.other ha hstep
    refine ⟨hsound, (sq_other ha hstep).trans h.submitted, known, hfresh.other ha hstep, ?_⟩
    rw [hobj]
    exact hobjects
  cases a with
  | dequeue t =>
    rcases step_dequeue hstep with rfl | ⟨hlt, -⟩
    · exact h
    · obtain rfl : t = 0 := Nat.lt_one_iff.mp (h.sound.size ▸ hlt)
      simp only [World.step, if_pos hlt] at hstep
      cases hq : w.queues 0 with
      | nil =>
        simp only [handleDequeue, hq] at hstep
        exact Except.ok.inj hstep ▸ h
      | cons m rest => exact (h.dequeue hq).keeps w' hstep
  | _ => exact hother fun _ ha => by cases ha

theorem start_stable (malloc : Nat → Nat) (heap : σ) :
    ({ size := 1, malloc, heap } : World V σ).Stable where
  sound := {
    size := rfl
    grounded := {
      ptr := fun ho => by cases ho
      children := fun ho => by cases ho
      callers := fun hf => absurd hf List.not_mem_nil
      notify := fun hp => by cases hp }
    located := fun _ => IoUringData.located_empty }
  submitted := rfl
  fresh := ⟨[], tickets_empty, fun o ho => by cases ho⟩

/-- A run with the history variables of its requests. -/
theorem exists_requestHistory {w₀ : World V σ} (h : Reached (step P) (fun _ _ => True) w₀ w) :
    ∃ s : RequestHistory V σ, s.history.world = w ∧ Reached (RequestHistory.step P) (fun _ _ => True)
      { history := { world := w₀ } } s := by
  induction h with
  | start => exact ⟨_, rfl, .start⟩
  | @next w w' a _ _ hstep ih =>
    obtain ⟨s, rfl, hs⟩ := ih
    let s' : RequestHistory V σ := {
      history := { world := w', taken := s.history.take a }
      asked := fun t => s.asked t ++ RequestHistory.got s.history.world w' a t }
    refine ⟨s', rfl, hs.next a trivial ?_⟩
    simp only [RequestHistory.step, History.step, hstep, Except.map]
    rfl

/-- With one thread, in every state of a run: if an action ends the process, it is the handling of a
message, and it is for one of the causes. -/
theorem faults_explained (P : Program V σ) (malloc : Nat → Nat) (heap : σ) (w : World V σ)
    (h : Reached (step P) (fun _ _ => True) { size := 1, malloc, heap } w) (a : Action V) (e : Fault)
    (hfault : w.step P a = .error e) :
    ∃ m rest, a = .dequeue 0 ∧ w.queues 0 = m :: rest ∧ FaultCause P w m := by
  have hstable : w.Stable :=
    h.invariant (start_stable malloc heap) fun _ _ _ hw _ hstep => hw.step hstep
  obtain ⟨s, rfl, hs⟩ := exists_requestHistory h
  have hrings := (RequestHistory.conserved_of_reached 1 malloc heap hs).ringsHeld
  cases a with
  | dequeue t =>
    simp only [World.step] at hfault
    split at hfault
    · rename_i hlt
      obtain rfl : t = 0 := Nat.lt_one_iff.mp (hstable.sound.size ▸ hlt)
      cases hq : s.history.world.queues 0 with
      | nil =>
        simp only [handleDequeue, hq] at hfault
        cases hfault
      | cons m rest =>
        refine ⟨m, rest, rfl, rfl, ?_⟩
        by_contra hpre
        obtain ⟨w', hw'⟩ := (hstable.dequeue (P := P) hq).returns hpre
        cases hw'.symm.trans hfault
    · cases hfault
  | uring t =>
    -- completions can be read
    obtain ⟨w', hw'⟩ := hrings.processUring_returns t
    simp only [World.step, hw'] at hfault
    split at hfault <;> cases hfault
  | complete t k res => cases hfault
  | root constructor init =>
    have hlt : 0 < s.history.world.size := hstable.sound.size_pos
    simp only [World.step, initializeRootEvent, push, if_pos hlt] at hfault
    cases hfault
  | load _ | iterate _ => cases hfault

/-- The construction of 1002 comes after the end of the object 1000 that queued it. -/
theorem team_fault : ∃ w e, Reached (step (team false)) (fun _ _ => True) team₀ w ∧
    w.step (team false) (.dequeue 0) = .error e ∧ ∃ m rest,
      (.dequeue 0 : Action teamVocabulary) = .dequeue 0 ∧ w.queues 0 = m :: rest ∧
        FaultCause (team false) w m := by
  have hfault : (runActions (step (team false)) (teamActions 10) team₀).map
      (fun w => match w.step (team false) (.dequeue 0) with | .error _ => true | .ok _ => false) =
      .ok true := by
    decide +kernel
  obtain ⟨w, hrun, hfault⟩ := exists_of_map_eq_ok hfault
  have hreached := reached_of_runActions .start (meets_true _ _) hrun
  cases hstep : w.step (team false) (.dequeue 0) with
  | error e =>
    exact ⟨w, e, hreached, hstep, faults_explained (team false) id () w hreached (.dequeue 0) e hstep⟩
  | ok w' =>
    rw [hstep] at hfault
    cases hfault

end World

end LocalSoftware
