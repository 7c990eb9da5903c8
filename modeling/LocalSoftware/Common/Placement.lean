import LocalSoftware.Common.QueuedPhases
import LocalSoftware.Common.History
import LocalSoftware.Library.Preceded

/-!
# On which threads objects live

`process_queued_construct` chooses a thread for a new object and writes it to the locator, but sends
the `ConstructorCall` to its own thread. `routed_of_ownThread` shows that messages find their objects
in every run in which the thread chosen is the own one: all objects then live on the first thread,
where the roots start.
-/

set_option autoImplicit false

namespace LocalSoftware

variable {V : Vocabulary} {σ : Type}

/-- The object that a call or a deletion is for. -/
def EventVariant.target : EventVariant V → Option Id
  | .functionCall f => some f.ti.objId
  | .delete d => some d.ti.objId
  | _ => none

namespace World

variable {w w' : World V σ} {t ctx : Nat} {ti : TargetInfo} {es : EventState V} {P : Program V σ}

/-! ## The handler of a message -/

/-- What the handler of a message leaves in its object: the context, the object and its queues. -/
def handlerState (P : Program V σ) (w : World V σ) (t : Nat) :
    EventVariant V → Option (Nat × TargetInfo × EventState V)
  | .constructorCall c =>
    let (ctx, w) := w.takeContext c.uringData
    match (P.construct c.constructor.fn c.ti.objId w.heap).run { uringData := w.contexts ctx } with
    | .ok (_, es) => some (ctx, c.ti, es)
    | .error _ => none
  | .functionCall f =>
    match (w.threads t).objInfo f.ti.objId with
    | some { ptr := some ctx, .. } =>
      match (P.function f.call f.ti.objId f.ti.procId w.heap).run { uringData := w.contexts ctx } with
      | .ok (_, es) => some (ctx, f.ti, es)
      | .error _ => none
    | _ => none
  | .data m =>
    match (w.threads t).objInfo m.ti.objId, (w.threads t).procToDat m.ti.procId with
    | some { ptr := some ctx, .. }, some _ =>
      let (event, data) := (w.contexts ctx).mapEventData m.data
      match (P.onYield m.ti.objId event w.heap).run { uringData := data } with
      | .ok (_, es) => some (ctx, m.ti, es)
      | .error _ => none
    | _, _ => none
  | _ => none

theorem handlerState_construct {c : ConstructorCall V} {rest : List (EventVariant V)}
    {w₁ : World V σ} {heap : σ} (htake : (w.pop t rest).takeContext c.uringData = (ctx, w₁))
    (hrun : (P.construct c.constructor.fn c.ti.objId w₁.heap).run
      { uringData := w₁.contexts ctx } = .ok (heap, es)) :
    w.handlerState P t (.constructorCall c) = some (ctx, c.ti, es) := by
  cases hshared : c.uringData with
  | none =>
    rw [hshared] at htake
    obtain ⟨rfl, rfl⟩ := Prod.mk.inj htake
    have hrun' : (P.construct c.constructor.fn c.ti.objId (w.setContext w.nextContext {}).heap).run
        { uringData := (w.setContext w.nextContext {}).contexts w.nextContext } =
          .ok (heap, es) := hrun
    simp only [handlerState, takeContext, hshared, hrun']
    rfl
  | some ctx' =>
    rw [hshared] at htake
    obtain ⟨rfl, rfl⟩ := Prod.mk.inj htake
    have hrun' : (P.construct c.constructor.fn c.ti.objId w.heap).run
        { uringData := w.contexts ctx' } = .ok (heap, es) := hrun
    simp only [handlerState, takeContext, hshared, hrun']

theorem handlerState_function {f : FunctionCall V} {o : ObjectDataThreaded} {a : CallResponse × σ}
    (ho : (w.threads t).objInfo f.ti.objId = some o) (hptr : o.ptr = some ctx)
    (hrun : (P.function f.call f.ti.objId f.ti.procId w.heap).run
      { uringData := w.contexts ctx } = .ok (a, es)) :
    w.handlerState P t (.functionCall f) = some (ctx, f.ti, es) := by
  obtain ⟨ptr, procs, children⟩ := o
  obtain rfl := hptr
  simp only [handlerState, ho, hrun]

theorem handlerState_yield {d : Data} {o : ObjectDataThreaded} {c : CallDataThreaded}
    {a : Yielded × σ} (ho : (w.threads t).objInfo d.ti.objId = some o)
    (hd : (w.threads t).procToDat d.ti.procId = some c) (hptr : o.ptr = some ctx)
    (hrun : (P.onYield d.ti.objId ((w.contexts ctx).mapEventData d.data).1 w.heap).run
      { uringData := ((w.contexts ctx).mapEventData d.data).2 } = .ok (a, es)) :
    w.handlerState P t (.data d) = some (ctx, d.ti, es) := by
  obtain ⟨ptr, procs, children⟩ := o
  obtain rfl := hptr
  simp only [handlerState, ho, hd, hrun]

theorem mem_setChild {children : List (Id × ChildObjectInfo)} {id : Id}
    {f : ChildObjectInfo → ChildObjectInfo} {child : Id × ChildObjectInfo}
    (h : child ∈ setChild children id f) :
    child ∈ children ∨ (child.1 = id ∧ ∃ info, child.2 = f info) := by
  induction children with
  | nil =>
    obtain rfl := List.mem_singleton.mp h
    exact Or.inr ⟨rfl, {}, rfl⟩
  | cons head children ih =>
    simp only [setChild] at h
    split at h
    · rename_i hid
      rcases List.mem_cons.mp h with rfl | h
      · exact Or.inr ⟨hid, head.2, rfl⟩
      · exact Or.inl (List.mem_cons_of_mem _ h)
    · rcases List.mem_cons.mp h with rfl | h
      · exact Or.inl List.mem_cons_self
      · exact (ih h).imp_left (List.mem_cons_of_mem _)

/-! ## The condition -/

/-- The next `n` decisions of `find_target_thread` for a construction are for the own thread. -/
def ChoosesOwn (w : World V σ) (t n : Nat) : Prop :=
  ∀ j < n, { w with decisions := w.decisions + j }.findTargetThread t [] = .ok t

instance (w : World V σ) (t n : Nat) : Decidable (w.ChoosesOwn t n) :=
  inferInstanceAs (Decidable (∀ j < n, _ = Except.ok t))

/-- A decision depends on the loads only. -/
theorem findTargetThread_congr (hsize : w'.size = w.size) (hloads : w'.loads = w.loads)
    (hdecisions : w'.decisions = w.decisions) (threads : List Nat) :
    w'.findTargetThread t threads = w.findTargetThread t threads := by
  have hload : w'.loadAvg = w.loadAvg := by
    funext i
    rw [loadAvg, loadAvg, hloads, hdecisions]
  have hscan : w'.scanThread threads = w.scanThread threads := by
    funext acc i
    rw [scanThread, scanThread, hload]
  rw [findTargetThread, findTargetThread, hload, hscan, hsize]

theorem ChoosesOwn.congr {n : Nat} (h : w.ChoosesOwn t n) (hsize : w'.size = w.size)
    (hloads : w'.loads = w.loads) (hdecisions : w'.decisions = w.decisions) :
    w'.ChoosesOwn t n := by
  intro j hj
  refine (findTargetThread_congr ?_ ?_ ?_ []).trans (h j hj)
  · exact hsize
  · exact hloads
  · show w'.decisions + j = w.decisions + j
    rw [hdecisions]

/-- The constructions of a handler, when the own thread is chosen for each. -/
theorem each_queuedConstruct_own {I : World V σ → Prop} {qs : List (EventQueuedConstruct V)}
    (h : each (queuedConstruct t ctx ti) qs w = .ok w') (hown : w.ChoosesOwn t qs.length) (hw : I w)
    (hchild : ∀ w, ∀ q ∈ qs, I w → I (w.decided.addChild t ctx ti q t)) : I w' := by
  induction qs generalizing w with
  | nil =>
    obtain rfl := Except.ok.inj h
    exact hw
  | cons q qs ih =>
    simp only [each] at h
    split at h
    · cases h
    · rename_i w₁ hstep
      have hrest : ∀ w, ∀ q' ∈ qs, I w → I (w.decided.addChild t ctx ti q' t) :=
        fun w q' hq' => hchild w q' (List.mem_cons_of_mem _ hq')
      unfold queuedConstruct at hstep
      split at hstep
      · cases hstep
      · obtain rfl := Except.ok.inj hstep
        exact ih h (fun j hj => hown j (Nat.lt_succ_of_lt hj)) hw hrest
      · split at hstep
        · cases hstep
        · rename_i runThread hfind
          obtain rfl := Except.ok.inj hstep
          obtain rfl := Except.ok.inj (hfind.symm.trans (hown 0 (Nat.succ_pos _)))
          refine ih h (fun j hj => ?_) (hchild w q List.mem_cons_self hw) hrest
          refine (findTargetThread_congr ?_ ?_ ?_ []).trans (hown (j + 1) (Nat.succ_lt_succ hj))
          · rfl
          · rfl
          · show w.decisions + 1 + j = w.decisions + (j + 1)
            omega

/-! ## The invariant -/

variable {taken : Nat → List (EventVariant V)}

/-- The construction of an object was sent to the first thread. -/
def Built (taken : Nat → List (EventVariant V)) (w : World V σ) (o : Id) : Prop :=
  ∃ c, .constructorCall c ∈ taken 0 ++ w.queues 0 ∧ c.ti.objId = o

/-- The construction of its object is in front of a call or a deletion. -/
def Follows (m : EventVariant V) (front : List (EventVariant V)) : Prop :=
  ∀ o, m.target = some o → ∃ c, .constructorCall c ∈ front ∧ c.ti.objId = o

/-- Everything is on the first thread, and no message is sent before the construction of its
object. -/
structure OnFirst (taken : Nat → List (EventVariant V)) (w : World V σ) : Prop where
  idle : ∀ {t}, t ≠ 0 → taken t = [] ∧ w.queues t = [] ∧ w.threads t = {}
  locators : ∀ {ctx l}, (w.contexts ctx).Holds l → l.threadId = [0] ∧ Built taken w l.objectId
  children : ∀ {o obj child}, (w.threads 0).objInfo o = some obj → child ∈ obj.children →
    child.2.thread = 0 ∧ Built taken w child.1
  callers : ∀ {f}, .functionCall f ∈ w.queues 0 → ∀ t, f.ci.threadId = some t → t = 0
  notify : ∀ {p c}, (w.threads 0).procToDat p = some c → ∀ t, c.backNotify.1 = some t → t = 0
  follows : Preceded Follows (taken 0 ++ w.queues 0)

namespace OnFirst

/-- Updates that change no tables and no messages, and add no locator. -/
theorem mono (h : OnFirst taken w) (hle : HoldsLe w w') (hqueues : w'.queues = w.queues)
    (hthreads : w'.threads = w.threads) : OnFirst taken w' where
  idle ht := by
    rw [hqueues, hthreads]
    exact h.idle ht
  locators hl := by
    rw [Built, hqueues]
    exact h.locators (hle _ _ hl)
  children ho hchild := by
    rw [hthreads] at ho
    rw [Built, hqueues]
    exact h.children ho hchild
  callers hf := h.callers (hqueues ▸ hf)
  notify hp := h.notify (hthreads ▸ hp)
  follows := by
    rw [hqueues]
    exact h.follows

theorem of_eq (h : OnFirst taken w) (hcontexts : w'.contexts = w.contexts)
    (hqueues : w'.queues = w.queues) (hthreads : w'.threads = w.threads) : OnFirst taken w' :=
  h.mono (.of_eq hcontexts) hqueues hthreads

theorem note (h : OnFirst taken w) (n : Note) : OnFirst taken (w.note n) := h.of_eq rfl rfl rfl

/-- New tables of the first thread. -/
theorem setThread (h : OnFirst taken w) {td : ThreadData V}
    (hchildren : ∀ {o obj child}, td.objInfo o = some obj → child ∈ obj.children →
      child.2.thread = 0 ∧ Built taken w child.1)
    (hnotify : ∀ {p c}, td.procToDat p = some c → ∀ t, c.backNotify.1 = some t → t = 0) :
    OnFirst taken (w.setThread 0 td) where
  idle ht := by
    rw [queues_setThread, threads_setThread, if_neg ht]
    exact h.idle ht
  locators hl := h.locators hl
  children ho hchild := by
    rw [threads_setThread_self] at ho
    exact hchildren ho hchild
  callers hf := h.callers hf
  notify hp := by
    rw [threads_setThread_self] at hp
    exact hnotify hp
  follows := h.follows

/-- An object gets other tables. -/
theorem setObject (h : OnFirst taken w) (id : Id) (obj : ObjectDataThreaded)
    (hobj : ∀ child ∈ obj.children, child.2.thread = 0 ∧ Built taken w child.1) :
    OnFirst taken (w.setThread 0 ((w.threads 0).setObject id obj)) := by
  refine h.setThread (fun {o obj' child} ho hchild => ?_) h.notify
  rw [ThreadData.objInfo_setObject] at ho
  split at ho
  · exact hobj child (Option.some.inj ho ▸ hchild)
  · exact h.children ho hchild

theorem newObject (h : OnFirst taken w) (id : Id) (ctx : Nat) :
    OnFirst taken (w.setThread 0 ((w.threads 0).setObject id { ptr := some ctx })) :=
  h.setObject id _ fun _ hchild => absurd hchild List.not_mem_nil

theorem setProc (h : OnFirst taken w) (id : Id) (d : CallDataThreaded)
    (hd : ∀ t, d.backNotify.1 = some t → t = 0) :
    OnFirst taken (w.setThread 0 ((w.threads 0).setProc id d)) := by
  refine h.setThread h.children fun {p c} hp => ?_
  rw [ThreadData.procToDat_setProc] at hp
  split at hp
  · exact Option.some.inj hp ▸ hd
  · exact h.notify hp

theorem object_children (h : OnFirst taken w) (o : Id) :
    ∀ child ∈ ((w.threads 0).object o).children, child.2.thread = 0 ∧ Built taken w child.1 := by
  intro child hchild
  unfold ThreadData.object at hchild
  cases ho : (w.threads 0).objInfo o with
  | none =>
    rw [ho] at hchild
    cases hchild
  | some obj =>
    rw [ho] at hchild
    exact h.children ho hchild

theorem proc_notify (h : OnFirst taken w) (p : Id) :
    ∀ t, ((w.threads 0).proc p).backNotify.1 = some t → t = 0 := by
  unfold ThreadData.proc
  cases hp : (w.threads 0).procToDat p with
  | none => exact fun t ht => (Option.some.inj ht).symm
  | some c => exact h.notify hp

/-- A message is sent to the first thread. -/
theorem enqueue (h : OnFirst taken w) {m : EventVariant V}
    (htarget : ∀ o, m.target = some o → Built taken w o)
    (hcaller : ∀ f, m = .functionCall f → ∀ t, f.ci.threadId = some t → t = 0) :
    OnFirst taken (w.enqueue 0 m) := by
  have hqueue : (w.enqueue 0 m).queues 0 = w.queues 0 ++ [m] := by rw [queues_enqueue, if_pos rfl]
  have hbuilt : ∀ {o}, Built taken w o → Built taken (w.enqueue 0 m) o := by
    rintro o ⟨c, hc, rfl⟩
    refine ⟨c, ?_, rfl⟩
    rw [hqueue, ← List.append_assoc]
    exact List.mem_append_left _ hc
  exact {
    idle := fun ht => by
      rw [queues_enqueue, if_neg ht]
      exact h.idle ht
    locators := fun hl => (h.locators hl).imp_right hbuilt
    children := fun ho hchild => (h.children ho hchild).imp_right hbuilt
    callers := fun {f} hf => by
      rw [hqueue] at hf
      rcases List.mem_append.mp hf with hf | hf
      · exact h.callers hf
      · exact hcaller f (List.mem_singleton.mp hf).symm
    notify := h.notify
    follows := by
      rw [hqueue, ← List.append_assoc]
      exact preceded_concat.mpr ⟨h.follows, htarget⟩ }

/-- A message that is for no object that must exist. -/
theorem enqueue_data (h : OnFirst taken w) (d : Data) : OnFirst taken (w.enqueue 0 (.data d)) :=
  h.enqueue (fun _ ho => (nomatch ho)) fun _ hf => (nomatch hf)

theorem sameCore (h : OnFirst taken w) (hw : SameCore 0 w w') : OnFirst taken w' where
  idle ht := by
    rw [hw.queues, hw.threads _ ht]
    exact h.idle ht
  locators hl := by
    rw [Built, hw.queues]
    exact h.locators (hw.holdsLe _ _ hl)
  children ho hchild := by
    rw [hw.objInfo] at ho
    rw [Built, hw.queues]
    exact h.children ho hchild
  callers hf := h.callers (hw.queues ▸ hf)
  notify hp := h.notify (hw.procToDat ▸ hp)
  follows := by
    rw [hw.queues]
    exact h.follows

/-- A message is taken. -/
theorem pop (h : OnFirst taken w) {m : EventVariant V} {rest : List (EventVariant V)}
    (hq : w.queues 0 = m :: rest) :
    OnFirst (Function.update taken 0 (taken 0 ++ [m])) (w.pop 0 rest) := by
  have hreceived : Function.update taken 0 (taken 0 ++ [m]) 0 ++ (w.pop 0 rest).queues 0 =
      taken 0 ++ w.queues 0 := by
    rw [Function.update_self, queues_pop, if_pos rfl, hq, List.append_assoc]
    rfl
  exact {
    idle := fun ht => by
      rw [Function.update_of_ne ht, queues_pop, if_neg ht]
      exact h.idle ht
    locators := fun hl => by
      rw [Built, hreceived]
      exact h.locators hl
    children := fun ho hchild => by
      rw [Built, hreceived]
      exact h.children ho hchild
    callers := fun hf => by
      rw [queues_pop, if_pos rfl] at hf
      exact h.callers (hq ▸ List.mem_cons_of_mem _ hf)
    notify := h.notify
    follows := by
      rw [hreceived]
      exact h.follows }

theorem setContext (h : OnFirst taken w) (ctx : Nat) (d : IoUringData V)
    (hd : ∀ l, d.Holds l → l.threadId = [0] ∧ Built taken w l.objectId) :
    OnFirst taken (w.setContext ctx d) where
  idle ht := h.idle ht
  locators hl := by
    rw [contexts_setContext] at hl
    split at hl
    · exact hd _ hl
    · exact h.locators hl
  children ho hchild := h.children ho hchild
  callers hf := h.callers hf
  notify hp := h.notify hp
  follows := h.follows

theorem addChild (h : OnFirst taken w) (q : EventQueuedConstruct V) :
    OnFirst taken (w.addChild 0 ctx ti q 0) := by
  let id := (getId w.objIds (some 0)).1
  let call : ConstructorCall V :=
    { constructor := { fn := q.fn, slot := some (ti.objId, q.idx, q.vidx) }
      ci := { threadId := some 0, objId := ti.objId, procId := ti.procId }
      ti := { objId := id, procId := none }
      uringData := if q.shared then some ctx else none }
  have hcall : OnFirst taken (w.enqueue 0 (.constructorCall call)) :=
    h.enqueue (fun _ ho => (nomatch ho)) fun _ hf => (nomatch hf)
  have hbuilt : Built taken (w.enqueue 0 (.constructorCall call)) id := by
    refine ⟨call, List.mem_append_right _ ?_, rfl⟩
    rw [queues_enqueue, if_pos rfl]
    exact List.mem_append_right _ List.mem_cons_self
  have hids : OnFirst taken { w.enqueue 0 (.constructorCall call) with
      objIds := (getId w.objIds (some 0)).2 } := hcall.of_eq rfl rfl rfl
  have hcontext := hids.setContext ctx
    ((w.contexts ctx).setLocator q.idx q.vidx { objectId := id, threadId := [0] }) fun l hl => by
      rcases hl.of_setLocator with hl | rfl
      · exact hcall.locators hl
      · exact ⟨rfl, hbuilt⟩
  refine hcontext.setObject ti.objId { (w.threads 0).object ti.objId with
    children := setChild ((w.threads 0).object ti.objId).children id fun _ => {} }
    fun child hchild => ?_
  rcases mem_setChild hchild with hchild | ⟨heq, info, hinfo⟩
  · exact hcall.object_children ti.objId child hchild
  · rw [heq, hinfo]
    exact ⟨rfl, hbuilt⟩

theorem addCall (h : OnFirst taken w) (q : EventQueuedFunction V) {l : Locator}
    (hl : (w.contexts ctx).Holds l) : OnFirst taken (w.addCall 0 ctx ti q l.objectId 0) := by
  let id := (getId w.procIds (some 0)).1
  obtain ⟨-, hbuilt⟩ := h.locators hl
  have hids : OnFirst taken { w with procIds := (getId w.procIds (some 0)).2 } := h.of_eq rfl rfl rfl
  have hobject := hids.setObject ti.objId { (w.threads 0).object ti.objId with
    children := setChild ((w.threads 0).object ti.objId).children l.objectId fun info =>
      { thread := 0, procedures := info.procedures ++ [id] } } fun child hchild => by
    rcases mem_setChild hchild with hchild | ⟨heq, info, hinfo⟩
    · exact h.object_children ti.objId child hchild
    · rw [heq, hinfo]
      exact ⟨rfl, hbuilt⟩
  have hcontext := hobject.setContext ctx ((w.contexts ctx).globalToLocal id q.localId)
    fun l hl => h.locators (hl.congr rfl)
  have hcall := hcontext.enqueue (m := .functionCall
    { call := q.fn
      ci := { threadId := some 0, objId := ti.objId, procId := ti.procId }
      ti := { objId := l.objectId, procId := id } })
    (fun o ho => Option.some.inj ho ▸ hbuilt)
    fun f hf t ht => by
      obtain rfl := EventVariant.functionCall.inj hf
      exact (Option.some.inj ht).symm
  exact hcall.of_eq rfl rfl rfl

theorem dropChild (h : OnFirst taken w) (objId : Id) : OnFirst taken (w.dropChild 0 ti objId) :=
  h.setObject _ _ fun child hchild => h.object_children ti.objId child (List.mem_filter.mp hchild).1

theorem pushDelete (h : OnFirst taken w) {d : Delete} (hd : Built taken w d.ti.objId) :
    OnFirst taken (w.enqueue 0 (.delete d)) :=
  h.enqueue (fun _ ho => Option.some.inj ho ▸ hd) fun _ hf => (nomatch hf)

theorem queued (h : OnFirst taken w) (hw : Queued 0 ctx ti es w w') (hes : es.construct = [])
    (hdelete : ∀ q ∈ es.delete, q.thread = [0] ∧ Built taken w q.objId) : OnFirst taken w' := by
  rcases hw.essential with hsame | hessential
  · exact h.sameCore hsame
  · cases hessential with
    | child q runThread hq =>
      rw [hes] at hq
      cases hq
    | call q info l target hq hslot hl hthread htarget =>
      have hholds : (w.contexts ctx).Holds l :=
        ⟨_, _, _, IoUringData.slot_eq_some_iff.mp hslot, hl⟩
      obtain rfl := hthread 0 (h.locators hholds).1
      exact h.addCall q hholds
    | delete q thread hq hmem hthread =>
      obtain ⟨hzero, hbuilt⟩ := hdelete q hq
      rw [hzero] at hmem
      obtain rfl := List.mem_singleton.mp hmem
      exact h.pushDelete hbuilt
    | dropChild q hq => exact h.dropChild q.objId

theorem built_queued (hq : Queued t ctx ti es w w') {o : Id} (h : Built taken w o) :
    Built taken w' o := by
  obtain ⟨c, hc, rfl⟩ := h
  refine ⟨c, ?_, rfl⟩
  exact (List.mem_append.mp hc).elim (List.mem_append_left _)
    fun hc => List.mem_append_right _ (hq.queues_subset 0 hc)

/-- What a handler queued is processed. -/
theorem processQueued (h : OnFirst taken w) (hq : w.processQueued 0 ctx ti es = .ok w')
    (hown : w.ChoosesOwn 0 es.construct.length)
    (hdelete : ∀ q ∈ es.delete, q.thread = [0] ∧ Built taken w q.objId) : OnFirst taken w' := by
  obtain ⟨w₁, w₂, h₁, h₂, hrest⟩ := processQueued_phases hq
  let I : World V σ → Prop := fun w =>
    OnFirst taken w ∧ ∀ q ∈ es.delete, q.thread = [0] ∧ Built taken w q.objId
  have hconstruct : I w₁ := by
    refine each_queuedConstruct_own h₁ hown ⟨h, hdelete⟩ fun w q hq hI => ?_
    refine ⟨(hI.1.sameCore (SameCore.refl 0 w).decided).addChild q, fun q' hq' => ?_⟩
    exact (hI.2 q' hq').imp_right fun hbuilt =>
      built_queued (.child w.decided q 0 hq) hbuilt
  have hkeep : ∀ (es' : EventState V), es'.construct = [] → es'.delete = es.delete →
      ∀ w w', I w → Queued 0 ctx ti es' w w' → I w' := by
    intro es' hes hdel w w' hI hq
    refine ⟨hI.1.queued hq hes fun q hq => hI.2 q (hdel ▸ hq), fun q hq' => ?_⟩
    exact (hI.2 q hq').imp_right (built_queued hq)
  have hfunction : I w₂ := by
    refine transGen_invariant (each_queued (fun q hq _ _ hstep => ?_) h₂) hconstruct
      (hkeep { es with construct := [] } rfl rfl)
    exact queuedFunction_queued hq hstep
  exact (transGen_invariant hrest hfunction (hkeep _ rfl rfl)).1

theorem takeContext (h : OnFirst taken w) {shared : Option Nat}
    (htake : w.takeContext shared = (ctx, w')) : OnFirst taken w' := by
  have hle := holdsLe_takeContext (w := w) shared
  rw [htake] at hle
  have hqueues : (w.takeContext shared).2.queues = w.queues := by
    cases shared <;> rfl
  have hthreads : (w.takeContext shared).2.threads = w.threads := by
    cases shared <;> rfl
  rw [htake] at hqueues hthreads
  exact h.mono hle hqueues hthreads

theorem fillSlot (h : OnFirst taken w) {slot : Option (Id × V.TypeIndex × Nat)} {id : Id}
    (hslot : w.fillSlot t slot id = .ok w') : OnFirst taken w' := by
  have hle := holdsLe_fillSlot hslot
  obtain ⟨-, rfl⟩ | ⟨parent, ty, idx, ctx, info, -, -, -, rfl⟩ := fillSlot_cases hslot
  · exact h
  · exact h.mono hle rfl rfl

/-- The handler ran in a context of the runtime. -/
theorem afterHandler (h : OnFirst taken w) {heap : σ}
    (hes : ∀ l, es.uringData.Holds l → (w.contexts ctx).Holds l) :
    OnFirst taken (w.afterHandler ctx es heap) := h.mono (holdsLe_afterHandler hes) rfl rfl

/-- What a handler deletes was in a slot. -/
theorem deletes (h : OnFirst taken w) (hes : ∀ q ∈ es.delete, ∃ l, (w.contexts ctx).Holds l ∧
    q = { thread := l.threadId, objId := l.objectId }) :
    ∀ q ∈ es.delete, q.thread = [0] ∧ Built taken w q.objId := by
  intro q hq
  obtain ⟨l, hl, rfl⟩ := hes q hq
  exact h.locators hl

theorem report (h : OnFirst taken w) {y : Yielded} (hw : w.report 0 ti y = .ok w') :
    OnFirst taken w' := by
  obtain ⟨-, rfl⟩ | ⟨failed, code, t', -, hthread, -, rfl⟩ := report_cases hw
  · exact h
  · obtain rfl := h.proc_notify ti.procId t' hthread
    have hproc := h.setProc ti.procId
      { (w.threads 0).proc ti.procId with status := resultStatus failed } (h.proc_notify ti.procId)
    exact (hproc.note _).enqueue_data _

theorem respond (h : OnFirst taken w) {f : FunctionCall V} {resp : CallResponse}
    (hf : ∀ t, f.ci.threadId = some t → t = 0) (hw : w.respond 0 f resp = .ok w') :
    OnFirst taken w' := by
  obtain ⟨d, hd, -, hcases⟩ := respond_cases hw
  have hproc := h.setProc f.ti.procId d (hd ▸ h.proc_notify f.ti.procId)
  obtain ⟨-, rfl⟩ | ⟨failed, code, -, ⟨-, rfl⟩ | ⟨t', ht', -, rfl⟩⟩ := hcases
  · exact hproc
  · exact hproc.note _
  · obtain rfl := hf t' ht'
    exact (hproc.note _).enqueue_data _

theorem enter (h : OnFirst taken w) {f : FunctionCall V} {o : ObjectDataThreaded}
    (ho : (w.threads 0).objInfo f.ti.objId = some o)
    (hf : ∀ t, f.ci.threadId = some t → t = 0) : OnFirst taken (w.enter 0 f o) := by
  refine OnFirst.note (h.setThread (fun {o' obj child} ho' hchild => ?_) fun {p c} hp => ?_) _
  · rw [ThreadData.setProc, ThreadData.objInfo_setObject] at ho'
    split at ho'
    · rw [← Option.some.inj ho'] at hchild
      exact h.children ho hchild
    · exact h.children ho' hchild
  · rw [ThreadData.procToDat_setProc] at hp
    split at hp
    · rw [← Option.some.inj hp]
      exact hf
    · exact h.notify hp

theorem deleteChildren (h : OnFirst taken w) {ci : CallerInfo} {o : Id}
    (hw : w.deleteChildren ci (w.siblings.order ((w.threads 0).object o).children) = .ok w') :
    OnFirst taken w' := by
  have hchildren := h.object_children o
  let I : World V σ → Prop := fun w₁ => OnFirst taken w₁ ∧ w.queues 0 ⊆ w₁.queues 0
  refine (deleteChildren_invariant (I := I) hw ⟨h, List.Subset.refl _⟩
    fun w₁ child hchild hI _ => ?_).1
  obtain ⟨hzero, c, hc, hbuilt⟩ := hchildren child (w.siblings.mem_order.mp hchild)
  rw [hzero]
  refine ⟨hI.1.pushDelete ⟨c, ?_, hbuilt⟩, fun m hm => ?_⟩
  · exact (List.mem_append.mp hc).elim (List.mem_append_left _)
      fun hc => List.mem_append_right _ (hI.2 hc)
  · rw [queues_enqueue, if_pos rfl]
    exact List.mem_append_left _ (hI.2 hm)

theorem erase (h : OnFirst taken w) (id : Id) : OnFirst taken (w.erase P 0 id) := by
  have hheap : OnFirst taken { w with
      heap := if ((w.threads 0).object id).ptr.isSome then P.destroy id w.heap else w.heap } :=
    h.of_eq rfl rfl rfl
  refine OnFirst.note (hheap.setThread (fun {o obj child} ho hchild => ?_) fun {p c} hp => ?_) _
  · simp only [Function.update_apply] at ho
    split at ho
    · cases ho
    · exact h.children ho hchild
  · simp only at hp
    split at hp
    · cases hp
    · exact h.notify hp

theorem root (h : OnFirst taken w) (r : RootStart V) : OnFirst taken (w.rootReceived 0 r) := by
  let call : ConstructorCall V :=
    { constructor := { fn := r.constructor, slot := none }
      ci := { threadId := none, objId := none, procId := none }
      ti := { objId := r.ti.objId, procId := none }
      uringData := none }
  have hcall : OnFirst taken (w.enqueue 0 (.constructorCall call)) :=
    h.enqueue (fun _ ho => (nomatch ho)) fun _ hf => (nomatch hf)
  refine hcall.enqueue (fun o ho => ⟨call, ?_, Option.some.inj ho⟩) fun f hf t ht => ?_
  · rw [queues_enqueue, if_pos rfl]
    exact List.mem_append_right _ (List.mem_append_right _ List.mem_cons_self)
  · obtain rfl := EventVariant.functionCall.inj hf
    cases ht

theorem submit (h : OnFirst taken w) : OnFirst taken (w.submit 0) :=
  h.sameCore (SameCore.refl 0 w).submit

theorem forward (h : OnFirst taken w) (d : Data) (attachers : List (Id × Id)) :
    OnFirst taken (w.forward 0 d attachers) :=
  forward_invariant (I := OnFirst taken) h fun _ _ _ h => h.enqueue_data _

end OnFirst

/-! ## Runs -/

/-- The condition on a step: for each construction of the handler, the own thread is chosen. -/
def ChoosesOwnThread (P : Program V σ) (w : World V σ) : Action V → Prop
  | .dequeue t => ∀ m rest, w.queues t = m :: rest → ∀ ctx ti es,
      w.handlerState P t m = some (ctx, ti, es) → w.ChoosesOwn t es.construct.length
  | _ => True

/-- A message is handled on the first thread. -/
theorem handled_onFirst {m : EventVariant V} {rest : List (EventVariant V)}
    (h : OnFirst taken w) (hq : w.queues 0 = m :: rest)
    (hown : ∀ ctx ti es, w.handlerState P 0 m = some (ctx, ti, es) →
      w.ChoosesOwn 0 es.construct.length)
    (hw : Handled P 0 w w') : OnFirst (Function.update taken 0 (taken 0 ++ [m])) w' := by
  have hpop := h.pop hq
  cases hw with
  | idle hnil => cases hnil.symm.trans hq
  | constructed hq' htake hrun hslot hnew hqueued =>
    obtain ⟨rfl, rfl⟩ := List.cons.inj (hq'.symm.trans hq)
    have h₁ := hpop.takeContext htake
    have h₂ := (h₁.afterHandler (run_holds hrun).1).fillSlot hslot
    -- what was queued is placed by `find_target_thread`, which stays on the thread
    have hchoose := hown _ _ _ (handlerState_construct htake hrun)
    have hdeletes := h₁.deletes (run_holds hrun).2
    obtain ⟨_, _, rfl⟩ := takeContext_eq htake
    obtain ⟨_, rfl⟩ := fillSlot_eq hslot
    exact ((h₂.newObject _ _).processQueued hqueued (hchoose.congr rfl rfl rfl) hdeletes).submit
  | reconstructed hq' htake hrun hslot hold =>
    obtain ⟨rfl, rfl⟩ := List.cons.inj (hq'.symm.trans hq)
    have h₁ := hpop.takeContext htake
    exact ((h₁.afterHandler (run_holds hrun).1).fillSlot hslot).submit
  | called hq' ho hptr hrun hqueued hrespond =>
    obtain ⟨rfl, rfl⟩ := List.cons.inj (hq'.symm.trans hq)
    have hcaller := h.callers (hq' ▸ List.mem_cons_self)
    have henter := hpop.enter ho hcaller
    have hchoose := hown _ _ _ (handlerState_function ho hptr hrun)
    have hprocessed := (henter.afterHandler (run_holds hrun).1).processQueued hqueued
      (hchoose.congr rfl rfl rfl) (henter.deletes (run_holds hrun).2)
    exact (hprocessed.respond hcaller hrespond).submit
  | @delivered d _ _ _ ctx _ _ _ _ _ hq' ho hd hptr hrun hqueued hreport =>
    obtain ⟨rfl, rfl⟩ := List.cons.inj (hq'.symm.trans hq)
    have hnote := hpop.note (.delivered 0 d ((w.contexts ctx).mapEventData d.data).1)
    have hchoose := hown _ _ _ (handlerState_yield ho hd hptr hrun)
    have hprocessed := (hnote.afterHandler fun l hl =>
      ((run_holds hrun).1 l hl).of_mapEventData).processQueued hqueued (hchoose.congr rfl rfl rfl)
        (hnote.deletes fun q hq => by
          obtain ⟨l, hl, heq⟩ := (run_holds hrun).2 q hq
          exact ⟨l, hl.of_mapEventData, heq⟩)
    exact ((hprocessed.report hreport).forward _ _).submit
  | dropped hq' hmissing =>
    obtain ⟨rfl, rfl⟩ := List.cons.inj (hq'.symm.trans hq)
    exact hpop.submit
  | deleted hq' hchildren =>
    obtain ⟨rfl, rfl⟩ := List.cons.inj (hq'.symm.trans hq)
    exact ((hpop.deleteChildren hchildren).erase _).submit
  | root hq' =>
    obtain ⟨rfl, rfl⟩ := List.cons.inj (hq'.symm.trans hq)
    exact (hpop.root _).submit

/-- A thread that never did anything has no completions. -/
theorem processUring_idle (hidle : w.threads t = {}) (h : w.processUring t = .ok w') : w' = w := by
  simp only [processUring, hidle, readCqes] at h
  obtain rfl := Except.ok.inj h
  have hthreads : Function.update w.threads t {} = w.threads := by
    rw [← hidle]
    exact Function.update_eq_self t w.threads
  simp only [World.setThread, hthreads]

theorem OnFirst.other {a : Action V} (h : OnFirst taken w) (ha : ∀ t, a ≠ .dequeue t)
    (hstep : w.step P a = .ok w') : OnFirst taken w' := by
  obtain ⟨t, -, huring⟩ | ⟨t, hsame, hidle⟩ | ⟨constructor, init, hroot⟩ := step_other hstep ha
  · by_cases ht : t = 0
    · subst ht
      exact processUring_core huring h (fun _ _ hsame h => h.sameCore hsame)
        fun _ _ _ _ _ h => h.enqueue_data _
    · rw [processUring_idle (h.idle ht).2.2 huring]
      exact h
  · by_cases ht : t = 0
    · subst ht
      exact h.sameCore hsame
    · refine h.mono hsame.holdsLe hsame.queues (funext fun t' => ?_)
      by_cases htt : t' = t
      · rw [htt, hidle (h.idle ht).2.2, (h.idle ht).2.2]
      · exact hsame.threads t' htt
  · obtain ⟨-, rfl⟩ := initializeRootEvent_eq hroot
    have hids : OnFirst taken { w with
        objIds := (getId w.objIds none).2, procIds := (getId w.procIds none).2 } :=
      h.of_eq rfl rfl rfl
    exact hids.enqueue (fun _ ho => (nomatch ho)) fun _ hf => (nomatch hf)

/-! ## Objects stay until they are deleted -/

/-- No object is lost without a deletion. -/
structure Retains (w w' : World V σ) : Prop where
  object : ∀ t o, ((w.threads t).objInfo o).isSome →
    ((w'.threads t).objInfo o).isSome ∨ .deleted t o ∈ w'.log
  log : w.log ⊆ w'.log

theorem Retains.refl (w : World V σ) : Retains w w := ⟨fun _ _ h => Or.inl h, List.Subset.refl _⟩

theorem Retains.trans {w'' : World V σ} (h : Retains w w') (h' : Retains w' w'') :
    Retains w w'' where
  object t o ho := by
    rcases h.object t o ho with ho | hdeleted
    · exact h'.object t o ho
    · exact Or.inr (h'.log hdeleted)
  log := List.Subset.trans h.log h'.log

/-- Other tables of a thread, with the same objects or more. -/
theorem Retains.setThread (h : Retains w w') {td : ThreadData V}
    (hobj : ∀ o, ((w'.threads t).objInfo o).isSome → (td.objInfo o).isSome) :
    Retains w (w'.setThread t td) := by
  refine h.trans ⟨fun t' o ho => Or.inl ?_, List.Subset.refl _⟩
  rw [threads_setThread]
  split
  · rename_i ht
    exact hobj o (ht ▸ ho)
  · exact ho

theorem Retains.setObject (h : Retains w w') (id : Id) (obj : ObjectDataThreaded) :
    Retains w (w'.setThread t ((w'.threads t).setObject id obj)) := by
  refine h.setThread fun o ho => ?_
  rw [ThreadData.objInfo_setObject]
  split
  · rfl
  · exact ho

/-- Other updates. -/
theorem Retains.mono (h : Retains w w') {w'' : World V σ} (hthreads : w''.threads = w'.threads)
    (hlog : w'.log ⊆ w''.log) : Retains w w'' :=
  h.trans ⟨fun t o ho => Or.inl (by rw [hthreads]; exact ho), hlog⟩

theorem SameCore.retains (h : SameCore t w w') : Retains w w' where
  object t' o ho := by
    by_cases ht : t' = t
    · subst ht
      rw [h.objInfo]
      exact Or.inl ho
    · rw [h.threads t' ht]
      exact Or.inl ho
  log := by
    obtain ⟨ns, hns, -⟩ := h.log
    rw [hns]
    exact List.subset_append_left _ _

theorem Queued.retains (h : Queued t ctx ti es w w') : Retains w w' := by
  have hrefl := Retains.refl w
  rcases h.essential with hsame | hessential
  · exact hsame.retains
  · cases hessential with
    | child q runThread _ =>
      exact (hrefl.setObject (t := t) ti.objId _).mono rfl (List.Subset.refl _)
    | call q info l target _ _ _ _ _ =>
      exact (hrefl.setObject (t := t) ti.objId _).mono rfl (List.subset_append_left _ _)
    | delete q thread _ _ _ => exact hrefl.mono rfl (List.Subset.refl _)
    | dropChild q _ => exact hrefl.setObject ti.objId _

theorem processQueued_retains (h : w.processQueued t ctx ti es = .ok w') : Retains w w' :=
  transGen_invariant (I := Retains w) (processQueued_queued h) (.refl w)
    fun _ _ h hq => h.trans hq.retains

theorem Retains.setProc (h : Retains w w') (id : Id) (d : CallDataThreaded) :
    Retains w (w'.setThread t ((w'.threads t).setProc id d)) := h.setThread fun _ ho => ho

theorem Retains.note (h : Retains w w') (n : Note) : Retains w (w'.note n) :=
  h.mono rfl (List.subset_append_left _ _)

theorem Retains.enqueue (h : Retains w w') (t : Nat) (m : EventVariant V) :
    Retains w (w'.enqueue t m) := h.mono rfl (List.Subset.refl _)

theorem Retains.submit (h : Retains w w') : Retains w (w'.submit t) :=
  h.trans (SameCore.refl t w').submit.retains

theorem Retains.enter (h : Retains w w') (f : FunctionCall V) (o : ObjectDataThreaded) :
    Retains w (w'.enter t f o) := by
  refine Retains.note (h.setThread fun id hid => ?_) _
  rw [ThreadData.setProc, ThreadData.objInfo_setObject]
  split
  · rfl
  · exact hid

theorem Retains.respond {w'' : World V σ} (h : Retains w w') {f : FunctionCall V}
    {resp : CallResponse} (hw : w'.respond t f resp = .ok w'') : Retains w w'' := by
  obtain ⟨d, -, -, ⟨-, rfl⟩ | ⟨failed, code, -, ⟨-, rfl⟩ | ⟨t', -, -, rfl⟩⟩⟩ := respond_cases hw
  · exact h.setProc _ _
  · exact (h.setProc _ _).note _
  · exact ((h.setProc _ _).note _).enqueue _ _

theorem Retains.report {w'' : World V σ} (h : Retains w w') {y : Yielded}
    (hw : w'.report t ti y = .ok w'') : Retains w w'' := by
  obtain ⟨-, rfl⟩ | ⟨failed, code, t', -, -, -, rfl⟩ := report_cases hw
  · exact h
  · exact ((h.setProc _ _).note _).enqueue _ _

theorem Retains.afterHandler (h : Retains w w') (ctx : Nat) (es : EventState V) (heap : σ) :
    Retains w (w'.afterHandler ctx es heap) := h.mono rfl (List.Subset.refl _)

theorem Retains.takeContext {w'' : World V σ} (h : Retains w w') {shared : Option Nat}
    (htake : w'.takeContext shared = (ctx, w'')) : Retains w w'' := by
  obtain ⟨_, _, rfl⟩ := takeContext_eq htake
  exact h.mono rfl (List.Subset.refl _)

theorem Retains.fillSlot {w'' : World V σ} (h : Retains w w') {heap : σ}
    {slot : Option (Id × V.TypeIndex × Nat)} {id : Id}
    (hslot : (w'.afterHandler ctx es heap).fillSlot t slot id = .ok w'') : Retains w w'' := by
  obtain ⟨_, rfl⟩ := fillSlot_eq hslot
  exact h.mono rfl (List.Subset.refl _)

theorem Retains.erase (h : Retains w w') (id : Id) : Retains w (w'.erase P t id) := by
  refine h.trans ⟨fun t' o ho => ?_, List.subset_append_left _ _⟩
  by_cases ht : t' = t
  · subst ht
    rw [objInfo_erase_self]
    split
    · rename_i heq
      exact Or.inr (List.mem_append_right _ (heq ▸ List.mem_cons_self))
    · exact Or.inl ho
  · refine Or.inl ?_
    simp only [World.erase, threads_note]
    rw [threads_setThread, if_neg ht]
    exact ho

/-- The objects after the handling of a message. -/
theorem handled_retains (h : Handled P t w w') : Retains w w' := by
  have hpop : ∀ rest, Retains w (w.pop t rest) :=
    fun rest => (Retains.refl w).mono rfl (List.Subset.refl _)
  cases h with
  | idle _ => exact .refl w
  | @constructed c rest ctx w₁ w₂ w₃ heap es hq htake hrun hslot hnew hqueued =>
    have hfilled := ((hpop rest).takeContext htake).fillSlot hslot
    exact ((hfilled.setObject _ _).trans (processQueued_retains hqueued)).submit
  | @reconstructed c rest ctx w₁ w₂ heap es o hq htake hrun hslot hold =>
    exact (((hpop rest).takeContext htake).fillSlot hslot).submit
  | @called f rest o ctx resp heap es w₂ w₃ hq ho hptr hrun hqueued hrespond =>
    have henter := ((hpop rest).enter (t := t) f o).afterHandler ctx es heap
    exact ((henter.trans (processQueued_retains hqueued)).respond hrespond).submit
  | @delivered d rest o c ctx y heap es w₂ w₃ hq ho hd hptr hrun hqueued hreport =>
    have hnote := ((hpop rest).note (.delivered t d
      ((w.contexts ctx).mapEventData d.data).1)).afterHandler ctx es heap
    have hreported := (hnote.trans (processQueued_retains hqueued)).report hreport
    exact (forward_invariant (I := Retains w) hreported fun _ _ _ h => h.enqueue _ _).submit
  | @dropped d rest hq hmissing => exact (hpop rest).submit
  | @deleted d rest w₁ hq hchildren =>
    have hdelete := deleteChildren_invariant (I := Retains w) hchildren (hpop rest)
      fun _ _ _ h _ => h.enqueue _ _
    exact (hdelete.erase _).submit
  | @root r rest hq => exact (((hpop rest).enqueue _ _).enqueue _ _).submit

/-- A construction leaves its object. -/
theorem handled_constructed {c : ConstructorCall V} {rest : List (EventVariant V)}
    (h : Handled P t w w') (hq : w.queues t = .constructorCall c :: rest) :
    ((w'.threads t).objInfo c.ti.objId).isSome ∨ .deleted t c.ti.objId ∈ w'.log := by
  cases h with
  | @constructed c' rest' ctx w₁ w₂ w₃ heap es hq' htake hrun hslot hnew hqueued =>
    obtain ⟨hc, -⟩ := List.cons.inj (hq'.symm.trans hq)
    obtain rfl := EventVariant.constructorCall.inj hc
    refine (processQueued_retains hqueued).submit.object t c'.ti.objId ?_
    rw [threads_setThread_self, ThreadData.objInfo_setObject, if_pos rfl]
    rfl
  | @reconstructed c' rest' ctx w₁ w₂ heap es o hq' htake hrun hslot hold =>
    obtain ⟨hc, -⟩ := List.cons.inj (hq'.symm.trans hq)
    obtain rfl := EventVariant.constructorCall.inj hc
    refine (Retains.refl w₂).submit.object t c'.ti.objId ?_
    rw [hold]
    rfl
  | _ => simp_all

/-- The objects whose construction was taken by a thread are in its tables until they are
deleted. -/
def Kept (taken : Nat → List (EventVariant V)) (w : World V σ) : Prop :=
  ∀ t c, .constructorCall c ∈ taken t →
    ((w.threads t).objInfo c.ti.objId).isSome ∨ .deleted t c.ti.objId ∈ w.log

theorem Kept.retains (h : Kept taken w) (hw : Retains w w') : Kept taken w' := by
  intro t c hc
  rcases h t c hc with ho | hdeleted
  · exact hw.object t _ ho
  · exact Or.inr (hw.log hdeleted)

theorem Kept.handled (h : Kept taken w) {m : EventVariant V} {rest : List (EventVariant V)}
    (hq : w.queues t = m :: rest) (hw : Handled P t w w') :
    Kept (Function.update taken t (taken t ++ [m])) w' := by
  intro t' c hc
  have hold := h.retains (handled_retains hw)
  by_cases ht : t' = t
  · subst ht
    rw [Function.update_self] at hc
    rcases List.mem_append.mp hc with hc | hc
    · exact hold t' c hc
    · rw [← List.mem_singleton.mp hc] at hq
      exact handled_constructed hw hq
  · rw [Function.update_of_ne ht] at hc
    exact hold t' c hc

theorem Kept.other {a : Action V} (h : Kept taken w) (ha : ∀ t, a ≠ .dequeue t)
    (hstep : w.step P a = .ok w') : Kept taken w' := by
  obtain ⟨t, -, huring⟩ | ⟨t, hsame, -⟩ | ⟨constructor, init, hroot⟩ := step_other hstep ha
  · exact processUring_core huring h (fun _ _ hsame h => h.retains hsame.retains)
      fun w _ _ _ _ h => h.retains ((Retains.refl w).enqueue _ _)
  · exact h.retains hsame.retains
  · obtain ⟨-, rfl⟩ := initializeRootEvent_eq hroot
    exact h.retains ((Retains.refl w).mono rfl (List.Subset.refl _))

end World

/-! ## Messages and their objects -/

namespace History

/-- Each call and each deletion was sent to the thread to which the construction of its object was
sent before, and to which alone it was sent; the object is in the tables of this thread once it is
constructed, until it is deleted. -/
def Routed (s : History V σ) : Prop :=
  ∀ t front m back o, s.received t = front ++ m :: back → m.target = some o →
    (∃ c, .constructorCall c ∈ front ∧ c.ti.objId = o) ∧
    ∀ t' c, .constructorCall c ∈ s.received t' → c.ti.objId = o → t' = t ∧
      (.constructorCall c ∈ s.taken t →
        ((s.world.threads t).objInfo o).isSome ∨ .deleted t o ∈ s.world.log)

/-- In a run in which every construction is decided for the own thread, messages find their
objects. -/
theorem routed_of_ownThread (P : Program V σ) (size : Nat) (malloc : Nat → Nat) (heap : σ)
    (s : History V σ)
    (h : Reached (step P) (fun s a => s.world.ChoosesOwnThread P a)
      { world := { size, malloc, heap } } s) : s.Routed := by
  have hinv : World.OnFirst s.taken s.world ∧ World.Kept s.taken s.world := by
    refine invariant (I := fun taken w => World.OnFirst taken w ∧ World.Kept taken w) h ?_ ?_ ?_
    · refine ⟨⟨fun _ => ⟨rfl, rfl, rfl⟩, ?_, ?_, ?_, ?_, preceded_nil⟩, ?_⟩
      · rintro ctx l ⟨ty, idx, info, hslot, -⟩
        cases hslot
      · exact fun ho => nomatch ho
      · exact fun hf => absurd hf List.not_mem_nil
      · exact fun hp => nomatch hp
      · exact fun t c hc => absurd hc List.not_mem_nil
    · intro s t m rest w' hI hG ht hq hw
      refine ⟨?_, hI.2.handled hq hw⟩
      by_cases htz : t = 0
      · subst htz
        exact World.handled_onFirst hI.1 hq (hG m rest hq) hw
      · rw [(hI.1.idle htz).2.1] at hq
        cases hq
    · intro s a w' hI _ ha hstep
      exact ⟨hI.1.other ha hstep, hI.2.other ha hstep⟩
  intro t front m back o hreceived htarget
  have hzero : ∀ {t' m'}, m' ∈ s.received t' → t' = 0 := by
    intro t' m' hm'
    by_contra ht'
    obtain ⟨htaken, hqueue, -⟩ := hinv.1.idle ht'
    rw [received, htaken, hqueue] at hm'
    cases hm'
  obtain rfl : t = 0 := hzero (hreceived ▸ List.mem_append_right _ List.mem_cons_self)
  refine ⟨hinv.1.follows front m back hreceived o htarget, fun t' c hc ho => ⟨hzero hc, ?_⟩⟩
  intro htaken
  rw [← ho]
  exact hinv.2 0 c htaken

/-! ## A parent on a busy thread -/

instance (P : Program V σ) (w : World V σ) : (a : World.Action V) →
    Decidable (w.ChoosesOwnThread P a)
  | .dequeue t =>
    match hq : w.queues t with
    | [] => isTrue fun m rest h => by rw [hq] at h; cases h
    | m :: rest =>
      match hstate : w.handlerState P t m with
      | none => isTrue fun m' rest' h ctx ti es hes => by
          obtain ⟨rfl, rfl⟩ := List.cons.inj (hq.symm.trans h)
          rw [hstate] at hes
          cases hes
      | some (ctx, ti, es) =>
        decidable_of_iff (w.ChoosesOwn t es.construct.length)
          ⟨fun hown m' rest' h ctx' ti' es' hes => by
              obtain ⟨rfl, rfl⟩ := List.cons.inj (hq.symm.trans h)
              rw [hstate] at hes
              obtain ⟨rfl, rfl, rfl⟩ : ctx = ctx' ∧ ti = ti' ∧ es = es' := by
                obtain ⟨h₁, h₂⟩ := Prod.mk.inj (Option.some.inj hes)
                exact ⟨h₁, Prod.mk.inj h₂⟩
              exact hown,
            fun hG => hG m rest hq ctx ti es hstate⟩
  | .uring _ => isTrue trivial
  | .complete _ _ _ => isTrue trivial
  | .root _ _ => isTrue trivial
  | .load _ => isTrue trivial
  | .iterate _ => isTrue trivial

/-- One class, with the constructors and functions of a parent and of a child. -/
abbrev busyVocabulary : Vocabulary where
  TypeIndex := Unit
  ConstructFunc := Bool
  FunctionFunc := Bool
  Sqe := Empty

/-- The parent constructs a child, and calls it in its function. -/
def busy : Program busyVocabulary Unit where
  construct parent _ _ :=
    if parent then do
      let _ ← Script.i (V := busyVocabulary) () false
      pure ()
    else pure ()
  function parent _ _ _ := do
    if parent then
      let _ ← Script.cAt (V := busyVocabulary) () 0 false
    pure ({ description := "", success := true, ret := none, opHint := 0 }, ())
  onYield _ _ _ := pure (none, ())
  destroy _ _ := ()

/-- Two worker threads. -/
def busy₀ : History busyVocabulary Unit := { world := { size := 2, malloc := id, heap := () } }

/-- The parent is constructed and called, where the load of the first thread is `load`. -/
def busyActions (load : Rat) : List (World.Action busyVocabulary) :=
  [.load fun _ i => if i = 0 then load else 0, .root true true, .dequeue 0, .dequeue 0, .dequeue 0]

/-- Below the threshold, the call of the child is sent to the thread of its construction. -/
theorem idle_routed : ∃ s,
    Reached (step busy) (fun s a => s.world.ChoosesOwnThread busy a) busy₀ s ∧
    (s.received 0).map EventVariant.target =
      [none, none, some (some 0), none, some (some 1000)] ∧ s.Routed := by
  have hreceived : (runActions (step busy) (busyActions (1 / 2)) busy₀).map
      (fun s => (s.received 0).map EventVariant.target) =
      .ok [none, none, some (some 0), none, some (some 1000)] := by
    decide +kernel
  obtain ⟨s, hrun, hreceived⟩ := exists_of_map_eq_ok hreceived
  have hreached : Reached (step busy) (fun s a => s.world.ChoosesOwnThread busy a) busy₀ s :=
    reached_of_runActions .start (by decide +kernel) hrun
  exact ⟨s, hreached, hreceived, routed_of_ownThread busy 2 id () s hreached⟩

/-- The parent stays on its busy thread with the construction of the child, and the call goes to the
other thread. -/
theorem busy_misrouted : ∃ s, Reached (step busy) (fun _ _ => True) busy₀ s ∧ ¬ s.Routed := by
  have hreceived : (runActions (step busy) (busyActions (9 / 10)) busy₀).map
      (fun s => (s.received 1).map EventVariant.target) = .ok [some (some 1000)] := by
    decide +kernel
  obtain ⟨s, hrun, hreceived⟩ := exists_of_map_eq_ok hreceived
  refine ⟨s, reached_of_runActions .start (meets_true _ _) hrun, fun hrouted => ?_⟩
  obtain ⟨m, hm, htarget⟩ := List.map_eq_singleton_iff.mp hreceived
  obtain ⟨⟨c, hc, -⟩, -⟩ := hrouted 1 [] m [] (some 1000) hm htarget
  cases hc

end History

end LocalSoftware
