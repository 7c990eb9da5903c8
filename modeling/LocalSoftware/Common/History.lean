import LocalSoftware.Common.Locators

/-!
# The messages that were received

`History` adds to the runtime the messages that were taken from the queues, so that `received` is
all that was ever pushed to a queue. `SameCore` is what most updates of a handler run are to the
objects, procedures and messages: nothing; `Queued.essential` lists the others.
`History.invariant` is the rule for invariants of a run.
-/

set_option autoImplicit false

namespace LocalSoftware

variable {V : Vocabulary} {σ : Type}

/-- The notes that tell nothing of calls, deletions and deliveries. -/
def Note.quiet : Note → Bool
  | .called .. => false
  | .deleted .. => false
  | .delivered .. => false
  | _ => true

namespace World

variable {w w' w'' : World V σ} {t ctx : Nat} {ti : TargetInfo} {es : EventState V}
  {P : Program V σ}

/-- Messages, objects, procedures, slots and the identifiers of procedures are the same; the thread
`t` may have another ring, and other timers and attached procedures. -/
structure SameCore (t : Nat) (w w' : World V σ) : Prop where
  size : w'.size = w.size
  queues : w'.queues = w.queues
  objIds : w'.objIds = w.objIds
  procIds : w'.procIds = w.procIds
  threads : ∀ t', t' ≠ t → w'.threads t' = w.threads t'
  objInfo : (w'.threads t).objInfo = (w.threads t).objInfo
  procToDat : (w'.threads t).procToDat = (w.threads t).procToDat
  subEvents : ∀ ctx, (w'.contexts ctx).subEvents = (w.contexts ctx).subEvents
  localProcId : ∀ ctx, (w'.contexts ctx).localProcId = (w.contexts ctx).localProcId
  globalProcToLocalProc : ∀ ctx,
    (w'.contexts ctx).globalProcToLocalProc = (w.contexts ctx).globalProcToLocalProc
  localProcToGlobalProc : ∀ ctx,
    (w'.contexts ctx).localProcToGlobalProc = (w.contexts ctx).localProcToGlobalProc
  log : ∃ ns, w'.log = w.log ++ ns ∧ ∀ n ∈ ns, n.quiet = true

namespace SameCore

theorem refl (t : Nat) (w : World V σ) : SameCore t w w where
  size := rfl
  queues := rfl
  objIds := rfl
  procIds := rfl
  threads _ _ := rfl
  objInfo := rfl
  procToDat := rfl
  subEvents _ := rfl
  localProcId _ := rfl
  globalProcToLocalProc _ := rfl
  localProcToGlobalProc _ := rfl
  log := ⟨[], (List.append_nil _).symm, fun _ hn => absurd hn List.not_mem_nil⟩

theorem trans (h : SameCore t w w') (h' : SameCore t w' w'') : SameCore t w w'' where
  size := h'.size.trans h.size
  queues := h'.queues.trans h.queues
  objIds := h'.objIds.trans h.objIds
  procIds := h'.procIds.trans h.procIds
  threads t' ht := (h'.threads t' ht).trans (h.threads t' ht)
  objInfo := h'.objInfo.trans h.objInfo
  procToDat := h'.procToDat.trans h.procToDat
  subEvents ctx := (h'.subEvents ctx).trans (h.subEvents ctx)
  localProcId ctx := (h'.localProcId ctx).trans (h.localProcId ctx)
  globalProcToLocalProc ctx := (h'.globalProcToLocalProc ctx).trans (h.globalProcToLocalProc ctx)
  localProcToGlobalProc ctx := (h'.localProcToGlobalProc ctx).trans (h.localProcToGlobalProc ctx)
  log := by
    obtain ⟨ns, hns, hquiet⟩ := h.log
    obtain ⟨ns', hns', hquiet'⟩ := h'.log
    refine ⟨ns ++ ns', by rw [hns', hns, List.append_assoc], fun n hn => ?_⟩
    exact (List.mem_append.mp hn).elim (hquiet n) (hquiet' n)

/-- Other tables of a thread. -/
theorem setThread (h : SameCore t w w') {td : ThreadData V}
    (hobj : td.objInfo = (w'.threads t).objInfo) (hproc : td.procToDat = (w'.threads t).procToDat) :
    SameCore t w (w'.setThread t td) :=
  h.trans { refl t w' with
    threads := fun t' ht => by rw [threads_setThread, if_neg ht]
    objInfo := by rw [threads_setThread_self, hobj]
    procToDat := by rw [threads_setThread_self, hproc] }

theorem note (h : SameCore t w w') {n : Note} (hn : n.quiet = true) : SameCore t w (w'.note n) :=
  h.trans { refl t w' with log := ⟨[n], rfl, fun _ hmem => List.mem_singleton.mp hmem ▸ hn⟩ }

theorem decided (h : SameCore t w w') : SameCore t w w'.decided := { h with }

theorem submit (h : SameCore t w w') : SameCore t w (w'.submit t) := h.setThread rfl rfl

theorem addRequest (h : SameCore t w w') (prep : Prep V) (a : IoUringAttached) :
    SameCore t w (w'.addRequest t prep a) := by
  have hmalloc : SameCore t w { w' with
      mallocs := w'.mallocs + 1
      attached := Function.update w'.attached (w'.malloc w'.mallocs) (some a) } := { h with }
  exact hmalloc.setThread rfl rfl

theorem noteTimer (h : SameCore t w w') (q : EventQueuedTimer) (id : Id) :
    SameCore t w (w'.noteTimer t ti q id) := by
  refine h.note ?_
  split <;> rfl

theorem globalToLocalTim (h : SameCore t w w') (ctx : Nat) (g l : Id) :
    SameCore t w (w'.setContext ctx ((w'.contexts ctx).globalToLocalTim g l)) := by
  have hcontext : ∀ {α : Type} (f : IoUringData V → α), (∀ d, f (d.globalToLocalTim g l) = f d) →
      ∀ ctx', f ((w'.setContext ctx ((w'.contexts ctx).globalToLocalTim g l)).contexts ctx') =
        f (w'.contexts ctx') := by
    intro α f hf ctx'
    rw [contexts_setContext]
    split
    · rename_i hctx
      rw [hf, hctx]
    · rfl
  exact h.trans { refl t w' with
    subEvents := hcontext _ fun _ => rfl
    localProcId := hcontext _ fun _ => rfl
    globalProcToLocalProc := hcontext _ fun _ => rfl
    localProcToGlobalProc := hcontext _ fun _ => rfl }

theorem addTimer (h : SameCore t w w') (q : EventQueuedTimer) :
    SameCore t w (w'.addTimer t ctx ti q) := by
  have hids : SameCore t w { w' with timIds := (getId w'.timIds (some t)).2 } := { h with }
  have hcontext := hids.globalToLocalTim ctx (getId w'.timIds (some t)).1 q.localId
  refine (SameCore.addRequest (hcontext.setThread ?_ ?_) _ _).noteTimer q _ <;> rfl

theorem holdsLe (h : SameCore t w w') : HoldsLe w w' :=
  fun ctx _ hl => hl.congr (h.subEvents ctx).symm

end SameCore

/-- The updates of `process_queued` that matter to objects, procedures and messages. -/
inductive Essential (t ctx : Nat) (ti : TargetInfo) (es : EventState V) (w : World V σ) :
    World V σ → Prop where
  | child (q : EventQueuedConstruct V) (runThread : Nat) (hq : q ∈ es.construct) :
      Essential t ctx ti es w (w.addChild t ctx ti q runThread)
  | call (q : EventQueuedFunction V) (info : EventInfo) (locator : Locator) (target : Nat)
      (hq : q ∈ es.function) (hslot : (w.contexts ctx).slot q.idx q.vidx = some info)
      (hlocator : info.locator = some locator)
      (hthread : ∀ r, locator.threadId = [r] → target = r) (htarget : target < w.size) :
      Essential t ctx ti es w (w.addCall t ctx ti q locator.objectId target)
  | delete (q : EventQueuedDelete) (thread : Nat) (hq : q ∈ es.delete) (hmem : thread ∈ q.thread)
      (hthread : thread < w.size) :
      Essential t ctx ti es w (w.enqueue thread (.delete
        { ci := { threadId := some t, objId := ti.objId, procId := ti.procId }
          ti := { objId := q.objId, procId := none } }))
  | dropChild (q : EventQueuedDelete) (hq : q ∈ es.delete) :
      Essential t ctx ti es w (w.dropChild t ti q.objId)

/-! The message and the tables of a new child, and of a call. -/

theorem message_addChild (w : World V σ) (t ctx : Nat) (ti : TargetInfo)
    (q : EventQueuedConstruct V) (runThread : Nat) :
    ∃ c : ConstructorCall V, c.ti.objId = (getId w.objIds (some t)).1 ∧
      c.constructor.slot = some (ti.objId, q.idx, q.vidx) ∧ c.ci.objId = ti.objId ∧
      ∀ t', (w.addChild t ctx ti q runThread).queues t' =
        if t' = t then w.queues t' ++ [.constructorCall c] else w.queues t' :=
  ⟨_, rfl, rfl, rfl, fun t' => queues_enqueue _ t t' _⟩

theorem message_addCall (w : World V σ) (t ctx : Nat) (ti : TargetInfo)
    (q : EventQueuedFunction V) (objectId : Id) (target : Nat) :
    ∃ f : FunctionCall V, f.ti = ⟨objectId, (getId w.procIds (some t)).1⟩ ∧
      f.ci = ⟨some t, ti.objId, ti.procId⟩ ∧
      ∀ t', (w.addCall t ctx ti q objectId target).queues t' =
        if t' = target then w.queues t' ++ [.functionCall f] else w.queues t' :=
  ⟨_, rfl, rfl, fun t' => queues_enqueue _ target t' _⟩

theorem objInfo_addChild (q : EventQueuedConstruct V) (runThread : Nat) (o : Id) :
    ((w.addChild t ctx ti q runThread).threads t).objInfo o = if o = ti.objId then
      some { (w.threads t).object ti.objId with
        children := setChild ((w.threads t).object ti.objId).children
          (getId w.objIds (some t)).1 fun _ => {} }
    else (w.threads t).objInfo o := by
  have hthread : (w.addChild t ctx ti q runThread).threads t = (w.threads t).setObject ti.objId _ :=
    threads_setThread_self ..
  rw [hthread, ThreadData.objInfo_setObject]

theorem objInfo_addCall (q : EventQueuedFunction V) (objectId : Id) (target : Nat) (o : Id) :
    ((w.addCall t ctx ti q objectId target).threads t).objInfo o = if o = ti.objId then
      some { (w.threads t).object ti.objId with
        children := setChild ((w.threads t).object ti.objId).children objectId fun info =>
          { thread := t, procedures := info.procedures ++ [(getId w.procIds (some t)).1] } }
    else (w.threads t).objInfo o := by
  have hthread : (w.addCall t ctx ti q objectId target).threads t =
      (w.threads t).setObject ti.objId _ := threads_setThread_self ..
  rw [hthread, ThreadData.objInfo_setObject]

/-! They change no procedure. -/

theorem procToDat_addChild (q : EventQueuedConstruct V) (runThread : Nat) :
    ((w.addChild t ctx ti q runThread).threads t).procToDat = (w.threads t).procToDat := by
  have hthread : (w.addChild t ctx ti q runThread).threads t = (w.threads t).setObject ti.objId _ :=
    threads_setThread_self ..
  rw [hthread]
  rfl

theorem procToDat_addCall (q : EventQueuedFunction V) (objectId : Id) (target : Nat) :
    ((w.addCall t ctx ti q objectId target).threads t).procToDat = (w.threads t).procToDat := by
  have hthread : (w.addCall t ctx ti q objectId target).threads t =
      (w.threads t).setObject ti.objId _ := threads_setThread_self ..
  rw [hthread]
  rfl

theorem procToDat_dropChild (objId : Id) :
    ((w.dropChild t ti objId).threads t).procToDat = (w.threads t).procToDat := by
  have hthread : (w.dropChild t ti objId).threads t = (w.threads t).setObject ti.objId _ :=
    threads_setThread_self ..
  rw [hthread]
  rfl

theorem Queued.essential (h : Queued t ctx ti es w w') :
    SameCore t w w' ∨ Essential t ctx ti es w w' := by
  have hrefl := SameCore.refl t w
  cases h with
  | decision => exact Or.inl hrefl.decided
  | child q runThread hq => exact Or.inr (.child q runThread hq)
  | call q info locator target hq hslot hlocator hthread htarget =>
    exact Or.inr (.call q info locator target hq (IoUringData.slot_eq_some_iff.mpr hslot) hlocator
      hthread htarget)
  | uring q _ _ => exact Or.inl (hrefl.addRequest _ _)
  | removeTimer q data _ _ _ => exact Or.inl ((hrefl.addRequest _ _).noteTimer q _)
  | updateTimer q data _ _ _ _ =>
    refine Or.inl ((SameCore.addRequest (hrefl.setThread ?_ ?_) _ _).noteTimer q _) <;> rfl
  | addTimer q _ _ _ => exact Or.inl (hrefl.addTimer q)
  | delete q thread hq hmem hthread => exact Or.inr (.delete q thread hq hmem hthread)
  | dropChild q hq => exact Or.inr (.dropChild q hq)
  | attach q _ => refine Or.inl (SameCore.note (hrefl.setThread ?_ ?_) ?_) <;> rfl

/-- Requests, timers and attachments touch nothing else. -/
theorem sameCore_of_queued (ctx : Nat) (ti : TargetInfo) (es : EventState V) (hconstruct : es.construct = [])
    (hfunction : es.function = []) (hdelete : es.delete = [])
    (h : Relation.ReflTransGen (Queued t ctx ti es) w w') : SameCore t w w' := by
  refine transGen_invariant (I := SameCore t w) h (.refl t w) fun w₁ w₂ h₁ hw => h₁.trans ?_
  rcases hw.essential with hsame | hessential
  · exact hsame
  · cases hessential with
    | child q _ hq => exact absurd (hconstruct ▸ hq) List.not_mem_nil
    | call q _ _ _ hq => exact absurd (hfunction ▸ hq) List.not_mem_nil
    | delete q _ hq => exact absurd (hdelete ▸ hq) List.not_mem_nil
    | dropChild q hq => exact absurd (hdelete ▸ hq) List.not_mem_nil

/-- `process_queued`, stage by stage. -/
theorem processQueued_stages (h : w.processQueued t ctx ti es = .ok w') : ∃ w₁ w₂ w₃ w₄,
    each (queuedConstruct t ctx ti) es.construct w = .ok w₁ ∧
    each (queuedFunction t ctx ti) es.function w₁ = .ok w₂ ∧ SameCore t w₂ w₃ ∧
    each (queuedDelete t ti) es.delete w₃ = .ok w₄ ∧ SameCore t w₄ w' := by
  unfold processQueued at h
  obtain ⟨w₁, h₁, h⟩ := bind_eq_ok h
  obtain ⟨w₂, h₂, h⟩ := bind_eq_ok h
  obtain ⟨w₃, h₃, h⟩ := bind_eq_ok h
  obtain ⟨w₄, h₄, h⟩ := bind_eq_ok h
  obtain ⟨w₅, h₅, h⟩ := bind_eq_ok h
  let es' : EventState V := { es with construct := [], function := [], delete := [] }
  have huring : SameCore t w₂ w₃ := sameCore_of_queued ctx ti es' rfl rfl rfl
    (each_queued (fun q hq _ _ => queuedUring_queued hq) h₃)
  have htimer : SameCore t w₃ w₄ := sameCore_of_queued ctx ti es' rfl rfl rfl
    (each_queued (fun q hq _ _ => queuedTimer_queued hq) h₄)
  have hattach : SameCore t w₅ w' := by
    refine sameCore_of_queued ctx ti es' rfl rfl rfl (each_queued (fun q hq w w' hstep => ?_) h)
    obtain rfl := Except.ok.inj hstep
    exact .single (.attach w q hq)
  exact ⟨w₁, w₂, w₄, w₅, h₁, h₂, huring.trans htimer, h₅, hattach⟩

/-- Messages are pushed only. -/
theorem Queued.queues_subset (h : Queued t ctx ti es w w') (t' : Nat) :
    w.queues t' ⊆ w'.queues t' := by
  have henqueue : ∀ (w : World V σ) (t : Nat) (m : EventVariant V),
      w.queues t' ⊆ (w.enqueue t m).queues t' := by
    intro w t m
    rw [queues_enqueue]
    split
    · exact List.subset_append_left _ _
    · exact List.Subset.refl _
  rcases h.essential with hsame | hessential
  · rw [hsame.queues]
    exact List.Subset.refl _
  · cases hessential with
    | child q runThread _ => exact henqueue w t _
    | call q info l target _ _ _ _ _ => exact henqueue w target _
    | delete q thread _ _ _ => exact henqueue w thread _
    | dropChild q _ => exact List.Subset.refl _

/-- What `process_uring` keeps if it is kept by the messages for completions. -/
theorem processUring_core {I : World V σ → Prop} (h : w.processUring t = .ok w') (hw : I w)
    (hsame : ∀ w w', SameCore t w w' → I w → I w')
    (hdata : ∀ (w : World V σ) objId procId data, (∀ c, data ≠ .childTaskCompletion c) → I w →
      I (w.enqueue t (.data (ringData objId procId data)))) : I w' := by
  refine processUring_invariant h hw (fun w address res a hI _ => ?_) fun w hI =>
    hsame _ _ ((SameCore.refl t w).setThread rfl rfl) hI
  have hattached : ∀ w₁ : World V σ,
      SameCore t w₁ { w₁ with attached := Function.update w.attached address none } :=
    fun w₁ => { SameCore.refl t w₁ with }
  cases a with
  | eventData op objId procId =>
    exact hsame _ _ (hattached _) (hdata w objId procId _ (fun _ => EventType.noConfusion) hI)
  | timer timerId objId procId =>
    simp only [attachment]
    split
    · exact hsame _ _ (hattached _) (hdata w objId procId _ (fun _ => EventType.noConfusion) hI)
    · exact hsame _ _ (hattached _) hI
  | timerUpdate timerId remove =>
    simp only [attachment]
    split
    · exact hsame _ _ (hattached _) (hsame _ _ ((SameCore.refl t w).setThread rfl rfl) hI)
    · exact hsame _ _ (hattached _) hI

/-- The steps that take no message. -/
theorem step_other {a : Action V} (h : w.step P a = .ok w') (ha : ∀ t, a ≠ .dequeue t) :
    (∃ t, t < w.size ∧ w.processUring t = .ok w') ∨
      (∃ t, SameCore t w w' ∧ (w.threads t = {} → w'.threads t = {})) ∨
      ∃ constructor init, w.initializeRootEvent constructor init = .ok w' := by
  cases a with
  | dequeue t => exact absurd rfl (ha t)
  | uring t =>
    simp only [step] at h
    split at h
    · exact Or.inl ⟨t, ‹_›, h⟩
    · obtain rfl := Except.ok.inj h
      exact Or.inr (Or.inl ⟨t, .refl t w, id⟩)
  | complete t k res =>
    obtain rfl := Except.ok.inj h
    refine Or.inr (Or.inl ⟨t, ?_⟩)
    simp only [complete]
    split
    · exact ⟨.refl t w, id⟩
    · rename_i r hr
      refine ⟨(SameCore.refl t w).setThread rfl rfl, fun hidle => ?_⟩
      rw [hidle] at hr
      cases hr
  | root constructor init => exact Or.inr (Or.inr ⟨constructor, init, h⟩)
  | load _ | iterate _ =>
    obtain rfl := Except.ok.inj h
    exact Or.inr (Or.inl ⟨0, { SameCore.refl 0 w with }, id⟩)

end World

/-- The runtime with a history variable: the messages that were taken from the queues. -/
structure History (V : Vocabulary) (σ : Type) where
  world : World V σ
  taken : Nat → List (EventVariant V) := fun _ => []

namespace History

variable {P : Program V σ} {s s' s₀ : History V σ} {G : History V σ → World.Action V → Prop}

/-- All messages that were pushed to the queue of a thread. -/
def received (s : History V σ) (t : Nat) : List (EventVariant V) := s.taken t ++ s.world.queues t

/-- The messages taken after an action. -/
def take (s : History V σ) : World.Action V → Nat → List (EventVariant V)
  | .dequeue t, t' =>
    if t' = t ∧ t < s.world.size then s.taken t' ++ (s.world.queues t').take 1 else s.taken t'
  | _, t' => s.taken t'

/-- A step of the runtime. -/
def step (P : Program V σ) (s : History V σ) (a : World.Action V) : Except Fault (History V σ) :=
  (s.world.step P a).map fun world => { world, taken := s.take a }

theorem taken_dequeue {t : Nat} {m : EventVariant V} {rest : List (EventVariant V)}
    (ht : t < s.world.size) (hq : s.world.queues t = m :: rest) :
    s.take (.dequeue t) = Function.update s.taken t (s.taken t ++ [m]) := by
  funext t'
  simp only [take]
  by_cases h : t' = t
  · subst h
    rw [if_pos ⟨rfl, ht⟩, hq, Function.update_self]
    rfl
  · rw [if_neg fun h' => h h'.1, Function.update_of_ne h]

/-- The rule for invariants: a message is handled, or no message is taken. -/
theorem invariant {I : (Nat → List (EventVariant V)) → World V σ → Prop}
    (h : Reached (step P) G s₀ s) (h₀ : I s₀.taken s₀.world)
    (hdequeue : ∀ s t m rest w', I s.taken s.world → G s (.dequeue t) → t < s.world.size →
      s.world.queues t = m :: rest → World.Handled P t s.world w' →
      I (Function.update s.taken t (s.taken t ++ [m])) w')
    (hother : ∀ s a w', I s.taken s.world → G s a → (∀ t, a ≠ .dequeue t) →
      s.world.step P a = .ok w' → I s.taken w') : I s.taken s.world := by
  refine Reached.invariant (I := fun s => I s.taken s.world) h h₀ fun s a s' hI hG hstep => ?_
  obtain ⟨w', hw', rfl⟩ := exists_of_map_eq_ok hstep
  cases a with
  | dequeue t =>
    simp only [World.step] at hw'
    split at hw'
    · rename_i ht
      cases hq : s.world.queues t with
      | nil =>
        -- nothing to take
        have hnil : s.take (.dequeue t) = s.taken := by
          funext t'
          simp only [take]
          split
          · rename_i h'
            rw [h'.1, hq]
            exact List.append_nil _
          · rfl
        simp only [World.handleDequeue, hq] at hw'
        obtain rfl := Except.ok.inj hw'
        rw [hnil]
        exact hI
      | cons m rest =>
        rw [taken_dequeue ht hq]
        exact hdequeue s t m rest w' hI hG ht hq (World.handleDequeue_handled hw')
    · rename_i ht
      obtain rfl := Except.ok.inj hw'
      have hsame : s.take (.dequeue t) = s.taken := by
        funext t'
        simp only [take]
        rw [if_neg fun h' => ht h'.2]
      rw [hsame]
      exact hI
  | _ => exact hother s _ w' hI hG (fun _ h => by cases h) hw'

/-- Every run of the runtime has a history. -/
theorem reached_world (h : Reached (step P) G s₀ s) :
    Reached (World.step P) (fun _ _ => True) s₀.world s.world := by
  induction h with
  | start => exact .start
  | next a _ _ hstep ih =>
    obtain ⟨w', hw', rfl⟩ := exists_of_map_eq_ok hstep
    exact .next a ih trivial hw'

end History

end LocalSoftware
