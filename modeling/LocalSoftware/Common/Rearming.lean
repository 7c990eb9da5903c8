import LocalSoftware.Common.Enlisted
import LocalSoftware.Common.Faults
import LocalSoftware.Common.FirstThread
import LocalSoftware.Common.HandlerPlans
import LocalSoftware.Common.RingRequests

/-!
# Requests that are made again

An object that starts with some requests, and makes each one again when it gets its result, has them
under way for as long as it exists: `always_armed` counts, in any state of any run, what is pending in
the ring and what waits in the queue for one of its procedures. `Hosts.armed` takes this from the
handlers of a class to each of its objects, in any program that has them.
-/

set_option autoImplicit false

namespace LocalSoftware

variable {V : Vocabulary} {σ : Type}

/-- The operation whose result an event has. -/
def EventType.ops : EventType → List Int
  | .ioUringResult res => [res.op]
  | _ => []

/-- The functions of the object start with the requests `ops`, and every result is answered with a
request of the same operation. -/
structure Rearms (P : Program V σ) (o : Id) (ops : List Int) : Prop where
  few : ops.length ≤ 512
  starts : ∀ f p heap, (P.function f o p heap).Plans ops
  resumes : ∀ event heap, (P.onYield o event heap).Plans event.ops

/-- The object and procedure whose handler a message runs. -/
def EventVariant.runner : EventVariant V → Option (Id × Id)
  | .constructorCall c => some (c.ti.objId, c.ti.procId)
  | .functionCall f => some (f.ti.objId, f.ti.procId)
  | .data d => some (d.ti.objId, d.ti.procId)
  | _ => none

/-- No copy for a procedure of the object `o`, and a constructor has no procedure. -/
def EventVariant.Direct (o : Id) : EventVariant V → Prop
  | .constructorCall c => c.ti.procId = none
  | .data d => d.copy = true → d.ti.objId = o → d.ti.procId = none
  | _ => True

theorem EventType.ops_mapEventData (d : IoUringData V) (event : EventType) :
    (d.mapEventData event).1.ops = event.ops := by
  cases event <;> rfl

theorem EventType.length_ops (event : EventType) : event.ops.length ≤ 512 := by
  cases event <;> simp [EventType.ops]

namespace World

variable {w w' w'' : World V σ} {t ctx n : Nat} {x : UringRequest} {o p : Id} {op : Int}
  {ops : List Int} {ti : TargetInfo} {es : EventState V} {P : Program V σ} {m : EventVariant V}
  {rest : List (EventVariant V)}

/-! ## The requests of a message -/

/-- The handler of another object or procedure asks for nothing in this one's name. -/
theorem Handled.asks_other (h : Handled P t w w') (hq : w.queues t = m :: rest)
    (hm : m.runner ≠ some x.2) : Asks t x 0 w w' := by
  have hpop : Asks t x 0 w (w.pop t rest) := (Asks.refl t x w).same rfl rfl
  have hfilled : ∀ {c : ConstructorCall V} {w₁ w₂ ctx heap es},
      (w.pop t rest).takeContext c.uringData = (ctx, w₁) →
      (w₁.afterHandler ctx es heap).fillSlot t c.constructor.slot c.ti.objId = .ok w₂ →
      Asks t x 0 w w₂ := by
    intro c w₁ w₂ ctx heap es htake hslot
    obtain ⟨contexts, nextContext, rfl⟩ := takeContext_eq htake
    obtain ⟨contexts', rfl⟩ := fillSlot_eq hslot
    exact hpop.same rfl rfl
  cases h with
  | idle hnil => cases hnil.symm.trans hq
  | @constructed c rest' ctx w₁ w₂ w₃ heap es hq' htake hrun hslot hnew hqueued =>
    obtain ⟨rfl, rfl⟩ := List.cons.inj (hq'.symm.trans hq)
    have hx : x.2 ≠ (c.ti.objId, c.ti.procId) := fun heq => hm (congrArg some heq.symm)
    have hobject : Asks t x 0 w (w₂.setThread t ((w₂.threads t).setObject c.ti.objId
        { ptr := some ctx })) := (hfilled htake hslot).setThread t rfl
    exact (hobject.trans (processQueued_asks_other hqueued hx)).submit t
  | reconstructed hq' htake hrun hslot hold =>
    obtain ⟨rfl, rfl⟩ := List.cons.inj (hq'.symm.trans hq)
    exact (hfilled htake hslot).submit t
  | @called f rest' obj ctx resp heap es w₂ w₃ hq' hobj hptr hrun hqueued hrespond =>
    obtain ⟨rfl, rfl⟩ := List.cons.inj (hq'.symm.trans hq)
    have hx : x.2 ≠ (f.ti.objId, f.ti.procId) := fun heq => hm (congrArg some heq.symm)
    have henter : Asks t x 0 w (((w.pop t rest').enter t f obj).afterHandler ctx es heap) :=
      (hpop.enter f obj).same rfl rfl
    exact ((henter.trans (processQueued_asks_other hqueued hx)).respond hrespond).submit t
  | @delivered d rest' obj c ctx y heap es w₂ w₃ hq' hobj hd hptr hrun hqueued hreport =>
    obtain ⟨rfl, rfl⟩ := List.cons.inj (hq'.symm.trans hq)
    have hx : x.2 ≠ (d.ti.objId, d.ti.procId) := fun heq => hm (congrArg some heq.symm)
    have hdeliver : Asks t x 0 w (((w.pop t rest').note (.delivered t d
        ((w.contexts ctx).mapEventData d.data).1)).afterHandler ctx es heap) := hpop.same rfl rfl
    exact (((hdeliver.trans (processQueued_asks_other hqueued hx)).report hreport).forward _ _).submit t
  | dropped hq' hmissing =>
    obtain ⟨rfl, rfl⟩ := List.cons.inj (hq'.symm.trans hq)
    exact hpop.submit t
  | @deleted d rest' w₁ hq' hchildren =>
    obtain ⟨rfl, rfl⟩ := List.cons.inj (hq'.symm.trans hq)
    have hchildren' : Asks t x 0 w w₁ :=
      deleteChildren_invariant (I := Asks t x 0 w) hchildren hpop fun _ _ _ hw _ => hw.same rfl rfl
    have herase : Asks t x 0 w (w₁.erase P t d.ti.objId) :=
      hchildren'.same rfl (proj_setThread _ t t _ (·.ring.requests) rfl)
    exact herase.submit t
  | @root r rest' hq' =>
    obtain ⟨rfl, rfl⟩ := List.cons.inj (hq'.symm.trans hq)
    have hroot : Asks t x 0 w ((w.pop t rest').rootReceived t r) := hpop.same rfl rfl
    exact hroot.submit t

/-- A procedure that starts asks for its first requests. -/
theorem Handled.asks_called (hP : Rearms P o ops) {f : FunctionCall V} (h : Handled P t w w')
    (hq : w.queues t = .functionCall f :: rest) (hsq : (w.threads t).ring.sq = [])
    (hf : f.ti = ⟨o, p⟩) : Asks t (op, o, p) (ops.count op) w w' := by
  cases h with
  | @called f' rest' obj ctx resp heap es w₂ w₃ hq' hobj hptr hrun hqueued hrespond =>
    obtain ⟨heq, rfl⟩ := List.cons.inj (hq'.symm.trans hq)
    obtain rfl := EventVariant.functionCall.inj heq
    rw [hf] at hrun hqueued
    obtain ⟨hops, -⟩ := (hP.starts f'.call p w.heap).queued hrun
    rw [List.map_nil, List.nil_append] at hops
    have hpop : Asks t (op, o, p) 0 w (w.pop t rest') := (Asks.refl t _ w).same rfl rfl
    have henter : Asks t (op, o, p) 0 w
        (((w.pop t rest').enter t f' obj).afterHandler ctx es heap) :=
      (hpop.enter f' obj).same rfl rfl
    have hring : ((((w.pop t rest').enter t f' obj).afterHandler ctx es heap).threads t).ring.sq =
        [] := by
      show (((w.pop t rest').enter t f' obj).threads t).ring.sq = []
      rw [enter, threads_note, threads_setThread_self]
      exact hsq
    have hlength : es.uring.length ≤ 512 := by
      rw [← List.length_map (f := (·.op)), hops]
      exact hP.few
    have hasked := processQueued_asks (x := (op, o, p)) hqueued
      (by rw [hring, List.length_nil, Nat.zero_add]; exact hlength) rfl
    rw [hops] at hasked
    have hall := ((henter.trans hasked).respond hrespond).submit t
    rwa [Nat.zero_add] at hall
  | _ => simp_all

/-- A result is answered with the request it is for. -/
theorem Handled.asks_delivered (hP : Rearms P o ops) {d : Data} (h : Handled P t w w')
    (hq : w.queues t = .data d :: rest) (hsq : (w.threads t).ring.sq = []) (hd : d.ti = ⟨o, p⟩)
    (hobj : (w.threads t).objInfo o ≠ none) (hproc : (w.threads t).procToDat p ≠ none) :
    Asks t (op, o, p) (d.data.ops.count op) w w' := by
  cases h with
  | @delivered d' rest' obj c ctx y heap es w₂ w₃ hq' hobj' hd' hptr hrun hqueued hreport =>
    obtain ⟨heq, rfl⟩ := List.cons.inj (hq'.symm.trans hq)
    obtain rfl := EventVariant.data.inj heq
    rw [hd] at hrun hqueued
    obtain ⟨hops, -⟩ := (hP.resumes _ w.heap).queued hrun
    rw [List.map_nil, List.nil_append, EventType.ops_mapEventData] at hops
    have hdeliver : Asks t (op, o, p) 0 w (((w.pop t rest').note (.delivered t d'
        ((w.contexts ctx).mapEventData d'.data).1)).afterHandler ctx es heap) :=
      (Asks.refl t _ w).same rfl rfl
    have hlength : es.uring.length ≤ 512 := by
      rw [← List.length_map (f := (·.op)), hops]
      exact EventType.length_ops d'.data
    have hring : ((((w.pop t rest').note (.delivered t d'
        ((w.contexts ctx).mapEventData d'.data).1)).afterHandler ctx es heap).threads t).ring.sq =
          [] := hsq
    have hasked := processQueued_asks (x := (op, o, p)) hqueued
      (by rw [hring, List.length_nil, Nat.zero_add]; exact hlength) rfl
    rw [hops] at hasked
    have hall := (((hdeliver.trans hasked).report hreport).forward
      { d' with data := ((w.contexts ctx).mapEventData d'.data).1 }
      ((w₃.threads t).alsoNotify d'.ti.procId)).submit t
    rwa [Nat.zero_add] at hall
  | @dropped d' rest' hq' hmissing =>
    obtain ⟨heq, rfl⟩ := List.cons.inj (hq'.symm.trans hq)
    obtain rfl := EventVariant.data.inj heq
    obtain ⟨obj, hobj⟩ := Option.ne_none_iff_exists'.mp hobj
    obtain ⟨c, hproc⟩ := Option.ne_none_iff_exists'.mp hproc
    rw [hd] at hmissing
    exact absurd hproc (hmissing obj c hobj)
  | _ => simp_all

/-! ## Copies -/

/-- No procedure of the object is attached to another, and none gets copies. -/
structure Unattached (o : Id) (w : World V σ) : Prop where
  attachers : ∀ {t q p}, (o, p) ∈ (w.threads t).alsoNotify q → p = none
  messages : ∀ {t m}, m ∈ w.queues t → m.Direct o

namespace Unattached

theorem same (h : Unattached o w)
    (hattachers : ∀ t, (w'.threads t).alsoNotify = (w.threads t).alsoNotify)
    (hqueues : ∀ t, w'.queues t ⊆ w.queues t) : Unattached o w' where
  attachers {t _ _} ha := h.attachers (hattachers t ▸ ha)
  messages {t _} hm := h.messages (hqueues t hm)

theorem setThread (h : Unattached o w) (t : Nat) {td : ThreadData V}
    (htd : td.alsoNotify = (w.threads t).alsoNotify) : Unattached o (w.setThread t td) :=
  h.same (fun t' => proj_setThread w t t' td (·.alsoNotify) htd) fun _ => List.Subset.refl _

theorem push (h : Unattached o w) (t : Nat) (hm : m.Direct o) : Unattached o (w.enqueue t m) where
  attachers ha := h.attachers ha
  messages {t' m'} hm' := by
    rw [queues_enqueue] at hm'
    split at hm'
    · rcases List.mem_append.mp hm' with hm' | hm'
      · exact h.messages hm'
      · rwa [List.mem_singleton.mp hm']
    · exact h.messages hm'

theorem submit (h : Unattached o w) (t : Nat) : Unattached o (w.submit t) := h.setThread t rfl

theorem pop (h : Unattached o w) (hq : w.queues t = m :: rest) : Unattached o (w.pop t rest) :=
  h.same (fun _ => rfl) fun t' => (suffix_pop hq t').subset

end Unattached

/-- Who is entered for copies is the procedure whose handler attached. -/
theorem Queued.attachers (h : Queued t ctx ti es w w') {t' : Nat} {q : Id} {a : Id × Id}
    (ha : a ∈ (w'.threads t').alsoNotify q) :
    a ∈ (w.threads t').alsoNotify q ∨ (es.attach ≠ [] ∧ a = (ti.objId, ti.procId)) := by
  have hset : (∀ t', (w'.threads t').alsoNotify = (w.threads t').alsoNotify) →
      a ∈ (w.threads t').alsoNotify q ∨ (es.attach ≠ [] ∧ a = (ti.objId, ti.procId)) :=
    fun hsame => Or.inl (hsame t' ▸ ha)
  cases h with
  | decision => exact Or.inl ha
  | child q runThread _ => exact hset fun t' => proj_setThread w t t' _ (·.alsoNotify) rfl
  | call q info locator target _ _ _ _ _ =>
    exact hset fun t' => proj_setThread w t t' _ (·.alsoNotify) rfl
  | uring q _ _ => exact hset fun t' => proj_setThread w t t' _ (·.alsoNotify) rfl
  | removeTimer q data _ _ _ =>
    exact hset fun t' => proj_setThread w t t' _ (·.alsoNotify) rfl
  | updateTimer q data _ _ _ _ =>
    exact hset (proj_setThread_twice (fun td => td.alsoNotify) rfl rfl
      (by rw [threads_setThread_self]))
  | addTimer q _ _ _ =>
    exact hset (proj_setThread_twice (fun td => td.alsoNotify) rfl rfl
      (by rw [threads_setThread_self]))
  | delete q thread _ _ _ => exact Or.inl ha
  | dropChild q _ => exact hset fun t' => proj_setThread w t t' _ (·.alsoNotify) rfl
  | attach q' hq =>
    rw [queuedAttach, threads_note, threads_setThread] at ha
    split at ha
    · rename_i ht
      simp only [Function.update_apply] at ha
      split at ha
      · rename_i hcallee
        rcases List.mem_append.mp ha with ha | ha
        · exact Or.inl (ht ▸ hcallee ▸ ha)
        · exact Or.inr ⟨List.ne_nil_of_mem hq, List.mem_singleton.mp ha⟩
      · exact Or.inl (ht ▸ ha)
    · exact Or.inl ha

namespace Unattached

theorem queued (h : Unattached o w) (hq : Queued t ctx ti es w w')
    (hes : ti.objId = o → es.attach = [] ∨ ti.procId = none) : Unattached o w' := by
  constructor
  · intro t' q p ha
    rcases hq.attachers ha with ha | ⟨hattach, heq⟩
    · exact h.attachers ha
    · obtain ⟨rfl, rfl⟩ := Prod.mk.inj heq
      exact (hes rfl).resolve_left hattach
  · intro t' m hm
    have hpush : ∀ {t : Nat} {b : EventVariant V}, b.Direct o →
        m ∈ (w.enqueue t b).queues t' → m.Direct o :=
      fun hb hmem => (h.push _ hb).messages hmem
    rcases hq.essential with hsame | hessential
    · exact h.messages (hsame.queues ▸ hm)
    · cases hessential with
      | child q runThread _ => exact hpush (b := .constructorCall _) (by exact rfl) hm
      | call q info locator target _ _ _ _ _ => exact hpush (b := .functionCall _) trivial hm
      | delete q thread _ _ _ => exact hpush (b := .delete _) trivial hm
      | dropChild q _ => exact h.messages hm

theorem processQueued (h : Unattached o w) (hqueued : w.processQueued t ctx ti es = .ok w')
    (hes : ti.objId = o → es.attach = [] ∨ ti.procId = none) : Unattached o w' :=
  transGen_invariant (processQueued_queued hqueued) h fun _ _ hw hq => hw.queued hq hes

theorem respond {f : FunctionCall V} {resp : CallResponse} (h : Unattached o w)
    (hrespond : w.respond t f resp = .ok w') : Unattached o w' := by
  have hset : ∀ d, Unattached o (w.setThread t ((w.threads t).setProc f.ti.procId d)) :=
    fun d => h.setThread t rfl
  obtain ⟨d, -, -, ⟨-, rfl⟩ | ⟨failed, code, -, ⟨-, rfl⟩ | ⟨t', -, -, rfl⟩⟩⟩ := respond_cases hrespond
  · exact hset d
  · exact (hset d).same (fun _ => rfl) fun _ => List.Subset.refl _
  · have hnoted : Unattached o ((w.setThread t ((w.threads t).setProc f.ti.procId d)).note
        (.reported f.ti.procId (resultStatus failed) code)) :=
      (hset d).same (fun _ => rfl) fun _ => List.Subset.refl _
    exact hnoted.push t' fun hcopy => by cases hcopy

theorem report {y : Yielded} (h : Unattached o w) (hreport : w.report t ti y = .ok w') :
    Unattached o w' := by
  obtain ⟨-, rfl⟩ | ⟨failed, code, t', -, -, -, rfl⟩ := report_cases hreport
  · exact h
  · have hset : Unattached o (w.setThread t ((w.threads t).setProc ti.procId
        { (w.threads t).proc ti.procId with status := resultStatus failed })) := h.setThread t rfl
    have hnoted : Unattached o ((w.setThread t ((w.threads t).setProc ti.procId
        { (w.threads t).proc ti.procId with status := resultStatus failed })).note
          (.reported ti.procId (resultStatus failed) code)) :=
      hset.same (fun _ => rfl) fun _ => List.Subset.refl _
    exact hnoted.push t' fun hcopy => by cases hcopy

/-- The copies go to those who attached. -/
theorem forward (h : Unattached o w) (d : Data) (q : Id) :
    Unattached o (w.forward t d ((w.threads t).alsoNotify q)) := by
  refine forward_invariant (I := Unattached o) h fun v a ha hv => hv.push t fun _ ho => ?_
  obtain ⟨o', p⟩ := a
  obtain rfl : o' = o := ho
  exact h.attachers ha

theorem handled (hP : Rearms P o ops) (h : Unattached o w) (hw : Handled P t w w') :
    Unattached o w' := by
  have hsame : ∀ {v v' : World V σ}, Unattached o v → v'.threads = v.threads →
      v'.queues = v.queues → Unattached o v' :=
    fun hv hthreads hqueues => hv.same (fun t' => by rw [hthreads])
      fun t' => by rw [hqueues]; exact List.Subset.refl _
  cases hw with
  | idle hq => exact h
  | @constructed c rest ctx w₁ w₂ w₃ heap es hq htake hrun hslot hnew hqueued =>
    have hconstructor : EventVariant.Direct o (.constructorCall c) :=
      h.messages (t := t) (hq ▸ List.mem_cons_self)
    have hfilled := filled_same htake hslot
    have hobject : Unattached o (w₂.setThread t ((w₂.threads t).setObject c.ti.objId
        { ptr := some ctx })) := (hsame (h.pop hq) hfilled.threads hfilled.queues).setThread t rfl
    exact (hobject.processQueued hqueued fun _ => Or.inr hconstructor).submit t
  | @reconstructed c rest ctx w₁ w₂ heap es obj hq htake hrun hslot hold =>
    have hfilled := filled_same htake hslot
    exact (hsame (h.pop hq) hfilled.threads hfilled.queues).submit t
  | @called f rest obj ctx resp heap es w₂ w₃ hq hobj hptr hrun hqueued hrespond =>
    have henter : Unattached o (((w.pop t rest).enter t f obj).afterHandler ctx es heap) :=
      (h.pop hq).same (fun t' => proj_setThread (w.pop t rest) t t' _ (·.alsoNotify) rfl)
        fun _ => List.Subset.refl _
    refine ((henter.processQueued hqueued fun ho => Or.inl ?_).respond hrespond).submit t
    rw [ho] at hrun
    exact ((hP.starts f.call f.ti.procId w.heap).queued hrun).2
  | @delivered d rest obj c ctx y heap es w₂ w₃ hq hobj hd hptr hrun hqueued hreport =>
    have hdeliver : Unattached o (((w.pop t rest).note (.delivered t d
        ((w.contexts ctx).mapEventData d.data).1)).afterHandler ctx es heap) :=
      hsame (h.pop hq) rfl rfl
    refine Unattached.submit (((hdeliver.processQueued hqueued fun ho => Or.inl ?_).report
      hreport).forward _ _) t
    rw [ho] at hrun
    exact ((hP.resumes _ w.heap).queued hrun).2
  | dropped hq hmissing => exact (h.pop hq).submit t
  | @deleted d rest w₁ hq hchildren =>
    have hchildren' : Unattached o w₁ :=
      deleteChildren_invariant (I := Unattached o) hchildren (h.pop hq) fun _ _ _ hv _ =>
        hv.push _ trivial
    have herase : Unattached o (w₁.erase P t d.ti.objId) :=
      hchildren'.same (fun t' => proj_setThread _ t t' _ (·.alsoNotify) rfl)
        fun _ => List.Subset.refl _
    exact herase.submit t
  | root hq =>
    refine Unattached.submit (push (m := .functionCall _) (push (m := .constructorCall _) (h.pop hq)
      t ?_) t ?_) t
    · exact rfl
    · trivial

theorem other {a : Action V} (h : Unattached o w) (ha : ∀ t, a ≠ .dequeue t)
    (hstep : w.step P a = .ok w') : Unattached o w' := by
  cases a with
  | dequeue t => exact absurd rfl (ha t)
  | uring t =>
    simp only [World.step] at hstep
    split at hstep
    · refine processUring_invariant (I := Unattached o) hstep h (fun v address res b hv _ => ?_)
        fun v hv => hv.setThread t rfl
      have hattachment : Unattached o (v.attachment t res b) := by
        cases b with
        | eventData op objId procId => exact hv.push t fun hcopy => by cases hcopy
        | timer timerId objId procId =>
          simp only [attachment]
          split
          · exact hv.push t fun hcopy => by cases hcopy
          · exact hv
        | timerUpdate timerId remove =>
          simp only [attachment]
          split
          · exact hv.setThread t rfl
          · exact hv
      exact hattachment.same (fun _ => rfl) fun _ => List.Subset.refl _
    · obtain rfl := Except.ok.inj hstep
      exact h
  | complete t k res =>
    obtain rfl := Except.ok.inj hstep
    simp only [complete]
    split
    · exact h
    · exact h.setThread t rfl
  | root constructor init =>
    obtain ⟨-, rfl⟩ := initializeRootEvent_eq hstep
    have hdrawn : Unattached o { w with
        objIds := (getId w.objIds none).2, procIds := (getId w.procIds none).2 } :=
      h.same (fun _ => rfl) fun _ => List.Subset.refl _
    exact hdrawn.push 0 trivial
  | load _ | iterate _ =>
    obtain rfl := Except.ok.inj hstep
    exact h.same (fun _ => rfl) fun _ => List.Subset.refl _

theorem of_reached (hP : Rearms P o ops) {size : Nat} {malloc : Nat → Nat} {heap : σ}
    (h : Reached (World.step P) (fun _ _ => True) { size, malloc, heap } w) : Unattached o w := by
  refine h.invariant (I := Unattached o) ?_ fun v a v' hv _ hstep => ?_
  · exact ⟨fun ha => absurd ha List.not_mem_nil, fun hm => absurd hm List.not_mem_nil⟩
  · by_cases ha : ∃ t, a = .dequeue t
    · obtain ⟨t, rfl⟩ := ha
      rcases step_dequeue hstep with rfl | ⟨-, hhandled⟩
      · exact hv
      · exact hv.handled hP hhandled
    · exact hv.other (fun t heq => ha ⟨t, heq⟩) hstep

end Unattached

/-! ## What holds in every state of a run -/

/-- Every message ends with the submission of what it asked for. -/
theorem Handled.submitted (h : Handled P t w w') (hsq : (w.threads t).ring.sq = []) :
    (w'.threads t).ring.sq = [] := by
  have hsubmit : ∀ v : World V σ, ((v.submit t).threads t).ring.sq = [] := fun v => by
    rw [submit, threads_setThread_self]
  cases h with
  | idle => exact hsq
  | _ => exact hsubmit _

theorem submitted_of_reached {size : Nat} {malloc : Nat → Nat} {heap : σ}
    (h : Reached (step P) (fun _ _ => True) { size, malloc, heap } w) (t : Nat) :
    (w.threads t).ring.sq = [] := by
  have hfirst : w.Alone ∧ (w.threads 0).ring.sq = [] := by
    refine h.invariant (I := fun w => w.Alone ∧ (w.threads 0).ring.sq = [])
      ⟨Alone.reached P size malloc heap .start, rfl⟩ fun v a v' hv _ hstep => ⟨hv.1.step hstep, ?_⟩
    by_cases ha : ∃ t, a = .dequeue t
    · obtain ⟨t, rfl⟩ := ha
      rcases step_dequeue hstep with rfl | ⟨ht, hhandled⟩
      · exact hv.2
      · by_cases hzero : t = 0
        · subst hzero
          exact hhandled.submitted hv.2
        · -- the message of another thread is stray
          cases hq : v.queues t with
          | nil => rw [hhandled.idle_eq hq, hv.2]
          | cons m rest =>
            have hstrays : m.Strays := hv.1.strays t hzero m (hq ▸ List.mem_cons_self)
            simp only [step, if_pos ht] at hstep
            cases m with
            | functionCall f => cases hstep.symm.trans (hv.1.dequeue_call hzero hq)
            | delete d =>
              obtain ⟨v₁, hreturned, -, hthreads, -⟩ := hv.1.dequeue_delete (P := P) hzero hq
              rw [← Except.ok.inj (hreturned.symm.trans hstep), hthreads, hv.2]
            | _ => exact hstrays.elim
    · exact (sq_other (fun t heq => ha ⟨t, heq⟩) hstep).trans hv.2
  by_cases ht : t = 0
  · subst ht
    exact hfirst.2
  · rw [hfirst.1.tables t ht]

/-- The log only grows. -/
theorem startedOn_subset (hsub : w.log ⊆ w'.log) (t : Nat) :
    w.traffic.startedOn t ⊆ w'.traffic.startedOn t := List.filterMap_subset _ hsub

/-- A procedure that does not start now has started before. -/
theorem Handled.started_before (h : Handled P t w w') (hq : w.queues t = m :: rest) {t' : Nat}
    (hstarted : .started t' o p ∈ w'.log)
    (hm : ∀ f, m = .functionCall f → t' = t → f.ti ≠ ⟨o, p⟩) : .started t' o p ∈ w.log := by
  obtain ⟨ns, hns, hnew⟩ := h.newNotes hq
  rw [hns] at hstarted
  refine (List.mem_append.mp hstarted).resolve_right fun hmem => ?_
  obtain hpassing | ⟨f, hf, heq⟩ | ⟨d, -, heq⟩ := hnew _ hmem
  · exact hpassing
  · obtain ⟨ht, ho, hp⟩ := Note.started.inj heq
    refine hm f hf ht ?_
    rw [ho, hp]
  · cases heq

/-- A procedure is in the tables of the thread that started it. -/
theorem started_of_entered {size : Nat} {malloc : Nat → Nat} {heap : σ}
    (h : Reached (step P) (fun _ _ => True) { size, malloc, heap } w)
    (hp : (w.threads t).procToDat p ≠ none) : p ∈ w.traffic.startedOn t := by
  have hentered : ∀ t p, w.traffic.entered t p ≠ none → p ∈ w.traffic.startedOn t := by
    refine moves_invariant (I := fun T => ∀ t p, T.entered t p ≠ none → p ∈ T.startedOn t) h
      (fun t p hp => absurd rfl hp) fun T T' hT hmove => ?_
    have hnote : ∀ (n : Note) {t p}, p ∈ T.startedOn t →
        p ∈ (T.log ++ [n]).filterMap (Note.startedOn t) := by
      intro n t p hp
      rw [List.filterMap_append]
      exact List.mem_append_left _ hp
    cases hmove with
    | construct t c _ => exact hT
    | call t target f l _ _ _ => exact fun t' p hp => hnote _ (hT t' p hp)
    | delete t d => exact hT
    | aside n _ => exact fun t' p hp => hnote _ (hT t' p hp)
    | result q s c => exact fun t' p hp => hnote _ (hT t' p hp)
    | completion t t' d q s c _ _ => exact fun t' p hp => hnote _ (hT t' p hp)
    | data t d _ => exact hT
    | started t f rest _ hq =>
      intro t' p hp
      by_cases heq : t' = t ∧ p = f.ti.procId
      · obtain ⟨rfl, rfl⟩ := heq
        show _ ∈ (T.log ++ [Note.started t' f.ti.objId f.ti.procId]).filterMap (Note.startedOn t')
        rw [List.filterMap_append]
        refine List.mem_append_right _ (List.mem_filterMap.mpr ⟨_, List.mem_cons_self, ?_⟩)
        exact if_pos rfl
      · have hold : ((T.pop t rest).enter t f).entered t' p = T.entered t' p := if_neg heq
        exact hnote _ (hT t' p fun hnone => hp (hold.trans hnone))
    | delivered t d event rest _ => exact fun t' p hp => hnote _ (hT t' p hp)
    | taken t m rest _ _ => exact hT
    | root t r c f rest _ _ _ _ _ => exact hT
    | forget entered hforget =>
      intro t' p hp
      rcases hforget t' p with hnone | hsame
      · exact absurd hnone hp
      · exact hT t' p fun hnone => hp (hsame.trans hnone)
    | rootEvent r _ _ => exact hT
  refine hentered t p fun hnone => hp ?_
  exact Option.map_eq_none_iff.mp hnone

/-- A procedure that asks was started. -/
theorem Handled.asked_started {size : Nat} {malloc : Nat → Nat} {heap : σ} {p : Nat}
    (hreached : Reached (step P) (fun _ _ => True) { size, malloc, heap } w)
    (hconstructors : ∀ c, m = .constructorCall c → c.ti.procId = none)
    (hw : Handled P t w w') (hq : w.queues t = m :: rest)
    (hx : (op, o, some p) ∈ newRequests t w w') : some p ∈ w'.traffic.startedOn t := by
  have hasks : ¬ Asks t (op, o, some p) 0 w w' := fun hasks =>
    List.count_eq_zero.mp hasks.newRequests hx
  have hrunner : m.runner = some (o, some p) := by
    by_contra hne
    exact hasks (hw.asks_other hq hne)
  obtain ⟨ns, hns, -⟩ := hw.newNotes hq
  have hsub : w.log ⊆ w'.log := hns ▸ List.subset_append_left _ _
  cases m with
  | constructorCall c =>
    have hnone := hconstructors c rfl
    rw [(Prod.mk.inj (Option.some.inj hrunner)).2] at hnone
    cases hnone
  | functionCall f =>
    obtain ⟨rfl, hp⟩ := Prod.mk.inj (Option.some.inj hrunner)
    obtain ⟨hno, -⟩ | ⟨f', obj, hf', -, hkeeps⟩ | ⟨d, w₁, hd, -⟩ := hw.entries hq
    · exact absurd rfl (hno f)
    · obtain rfl := EventVariant.functionCall.inj hf'
      obtain ⟨ns', hns', -⟩ := hkeeps.log
      refine List.mem_filterMap.mpr ⟨.started t f.ti.objId f.ti.procId, ?_, ?_⟩
      · show _ ∈ w'.log
        rw [hns', log_enter]
        exact List.mem_append_left _ (List.mem_append_right _ List.mem_cons_self)
      · exact (if_pos rfl).trans (congrArg some hp)
    · cases hd
  | data d =>
    obtain ⟨rfl, hp⟩ := Prod.mk.inj (Option.some.inj hrunner)
    have hproc : (w.threads t).procToDat (some p) ≠ none := by
      intro hnone
      apply hasks
      cases hw with
      | @delivered d' rest' obj c ctx y heap es w₂ w₃ hq' hobj hd =>
        obtain ⟨heq, -⟩ := List.cons.inj (hq'.symm.trans hq)
        obtain rfl := EventVariant.data.inj heq
        rw [hp, hnone] at hd
        cases hd
      | @dropped d' rest' hq' hmissing =>
        have hpop : Asks t (op, d.ti.objId, some p) 0 w (w.pop t rest') :=
          (Asks.refl t _ w).same rfl rfl
        exact hpop.submit t
      | _ => simp_all
    exact startedOn_subset hsub t (started_of_entered hreached hproc)
  | delete d => cases hrunner
  | rootStart r => cases hrunner

end World

namespace RequestHistory

open World

variable {P : Program V σ} {s s' : RequestHistory V σ} {t : Nat} {o : Id} {ops : List Int}
  {m : EventVariant V} {rest : List (EventVariant V)} {w' : World V σ}

/-- Who asked was started; and an object that exists asked again for each result that was taken. -/
structure Rearmed (o : Id) (ops : List Int) (s : RequestHistory V σ) : Prop where
  asks : ∀ {t op o' p}, (op, o', some p) ∈ s.asked t →
    some p ∈ s.history.world.traffic.startedOn t
  armed : ∀ {t p}, .started t o (some p) ∈ s.history.world.log →
    .deleted t o ∉ s.history.world.log → ∀ op, (s.asked t).count (op, o, some p) =
      ops.count op + ((s.history.taken t).filterMap EventVariant.answer).count (op, o, some p)

/-- The result that a message is for one of the procedure's own requests. -/
theorem count_answer (l : List (EventVariant V)) (m : EventVariant V) (x : UringRequest) :
    ((l ++ [m]).filterMap EventVariant.answer).count x =
      (l.filterMap EventVariant.answer).count x + if m.answer = some x then 1 else 0 := by
  rw [List.filterMap_append, List.count_append]
  congr 1
  cases hm : m.answer with
  | none => simp [hm]
  | some y =>
    by_cases hy : y = x
    · simp [hm, hy]
    · simp [hm, hy]

theorem runner_of_answer {x : UringRequest} (h : m.answer = some x) : m.runner = some x.2 := by
  cases m with
  | data d =>
    simp only [EventVariant.answer] at h
    split at h
    · cases h
    · split at h
      · obtain rfl := Option.some.inj h
        rfl
      · cases h
  | _ => cases h

/-- The result of a procedure's own request is no copy. -/
theorem answer_data {d : Data} {op : Int} {p : Id} (hd : d.ti = ⟨o, p⟩) (hcopy : d.copy = false) :
    (if (EventVariant.data d : EventVariant V).answer = some (op, o, p) then 1 else 0) =
      d.data.ops.count op := by
  simp only [EventVariant.answer, hcopy, hd]
  cases d.data with
  | ioUringResult r =>
    by_cases hop : r.op = op
    · simp [EventType.ops, hop]
    · simp [EventType.ops, hop]
  | _ => simp [EventType.ops]

/-- The tables of a run, without the history variables. -/
theorem reached_world {size : Nat} {malloc : Nat → Nat} {heap : σ}
    (h : Reached (step P) (fun _ _ => True) { history := { world := { size, malloc, heap } } } s) :
    Reached (World.step P) (fun _ _ => True) { size, malloc, heap } s.history.world := by
  refine h.invariant (I := fun s => Reached (World.step P) (fun _ _ => True) { size, malloc, heap }
    s.history.world) .start fun s a s' hs _ hstep => ?_
  obtain ⟨h₁, hhistory, rfl⟩ := exists_of_map_eq_ok hstep
  obtain ⟨w', hw', rfl⟩ := exists_of_map_eq_ok hhistory
  exact .next a hs trivial hw'

/-- A procedure that has not started has no requests, and no results. -/
theorem Rearmed.count_unstarted (h : s.Rearmed o ops) (hconserved : s.Conserved) {p : Nat}
    (hstarted : some p ∉ s.history.world.traffic.startedOn t) (op : Int) :
    (s.asked t).count (op, o, some p) = 0 ∧
      ((s.history.taken t).filterMap EventVariant.answer).count (op, o, some p) = 0 := by
  have hasked : (s.asked t).count (op, o, some p) = 0 :=
    List.count_eq_zero.mpr fun hx => hstarted (h.asks hx)
  refine ⟨hasked, ?_⟩
  have hall := (hconserved.asked t).count_eq (op, o, some p)
  rw [hasked, answered, History.received, List.filterMap_append, List.count_append,
    List.count_append] at hall
  omega

/-- A procedure starts with its requests, and has no results. -/
theorem Rearmed.called_armed (hP : Rearms P o ops) {size : Nat} {malloc : Nat → Nat} {heap : σ}
    (hreached : Reached (step P) (fun _ _ => True) { history := { world := { size, malloc, heap } } } s)
    (h : s.Rearmed o ops) {f : FunctionCall V}
    (hq : s.history.world.queues t = .functionCall f :: rest)
    (hw : World.Handled P t s.history.world w') {p : Nat} (hf : f.ti = ⟨o, some p⟩) (op : Int) :
    (s.asked t).count (op, o, some p) +
        (newRequests t s.history.world w').count (op, o, some p) =
      ops.count op + ((s.history.taken t).filterMap EventVariant.answer).count (op, o, some p) := by
  have hworld := reached_world hreached
  have hwaiting : some p ∈ s.history.world.traffic.starting t := by
    have hmem : .functionCall f ∈ s.history.world.queues t := hq ▸ List.mem_cons_self
    refine List.mem_filterMap.mpr ⟨.functionCall f, hmem, ?_⟩
    show some f.ti.procId = _
    rw [hf]
  have hunstarted : some p ∉ s.history.world.traffic.startedOn t := by
    intro hp
    have hnodup := (enlisted_of_reached hworld).1.nodup_thread t
    exact (List.nodup_append.mp hnodup).2.2 _ hp _ hwaiting rfl
  obtain ⟨hasked, htaken⟩ :=
    h.count_unstarted (conserved_of_reached size malloc heap hreached) hunstarted op
  have hasks : Asks t (op, o, some p) (ops.count op) s.history.world w' :=
    hw.asks_called hP hq (submitted_of_reached hworld t) hf
  rw [hasked, htaken, hasks.newRequests]
  omega

/-- A result of a procedure is answered with its request. -/
theorem Rearmed.delivered_armed (hP : Rearms P o ops) {size : Nat} {malloc : Nat → Nat} {heap : σ}
    (hreached : Reached (step P) (fun _ _ => True) { history := { world := { size, malloc, heap } } } s)
    (h : s.Rearmed o ops) {d : Data} (hq : s.history.world.queues t = .data d :: rest)
    (hw : World.Handled P t s.history.world w') {p : Nat} (hd : d.ti = ⟨o, some p⟩)
    (hstarted : .started t o (some p) ∈ s.history.world.log)
    (hdeleted : .deleted t o ∉ s.history.world.log) (op : Int) :
    (s.asked t).count (op, o, some p) +
        (newRequests t s.history.world w').count (op, o, some p) =
      ops.count op + (((s.history.taken t).filterMap EventVariant.answer).count (op, o, some p) +
        if (EventVariant.data d : EventVariant V).answer = some (op, o, some p) then 1 else 0) := by
  have hworld := reached_world hreached
  have hcopy : d.copy = false := by
    by_contra hcopy
    have hdirect : (EventVariant.data d : EventVariant V).Direct o :=
      (Unattached.of_reached hP hworld).messages (t := t) (hq ▸ List.mem_cons_self)
    have hnone := hdirect (Bool.eq_true_of_not_eq_false hcopy) (by rw [hd])
    rw [hd] at hnone
    cases hnone
  obtain ⟨hcore, hproc⟩ := (enlisted_of_reached hworld).2.live hstarted hdeleted
  have hobj : (s.history.world.threads t).objInfo o ≠ none := by
    intro hnone
    exact hcore (Option.map_eq_none_iff.mpr hnone)
  have hasks : Asks t (op, o, some p) (d.data.ops.count op) s.history.world w' :=
    hw.asks_delivered hP hq (submitted_of_reached hworld t) hd hobj hproc
  rw [h.armed hstarted hdeleted op, answer_data hd hcopy, hasks.newRequests]
  omega

/-- The requests and results of a procedure of the object, through the handling of a message. -/
theorem Rearmed.handled_armed (hP : Rearms P o ops) {size : Nat} {malloc : Nat → Nat} {heap : σ}
    (hreached : Reached (step P) (fun _ _ => True) { history := { world := { size, malloc, heap } } } s)
    (h : s.Rearmed o ops) (hq : s.history.world.queues t = m :: rest)
    (hw : World.Handled P t s.history.world w') {p : Nat}
    (hstarted : .started t o (some p) ∈ w'.log) (hdeleted : .deleted t o ∉ w'.log) (op : Int) :
    (s.asked t).count (op, o, some p) +
        (newRequests t s.history.world w').count (op, o, some p) =
      ops.count op + (((s.history.taken t).filterMap EventVariant.answer).count (op, o, some p) +
        if m.answer = some (op, o, some p) then 1 else 0) := by
  obtain ⟨ns, hns, -⟩ := hw.newNotes hq
  have hdeleted' : .deleted t o ∉ s.history.world.log := by
    intro hmem
    rw [hns] at hdeleted
    exact hdeleted (List.mem_append_left _ hmem)
  by_cases hrunner : m.runner = some (o, some p)
  · cases m with
    | constructorCall c =>
      have hnone : c.ti.procId = none :=
        (Unattached.of_reached hP (reached_world hreached)).messages (t := t)
          (m := .constructorCall c) (hq ▸ List.mem_cons_self)
      rw [(Prod.mk.inj (Option.some.inj hrunner)).2] at hnone
      cases hnone
    | functionCall f =>
      obtain ⟨ho, hp⟩ := Prod.mk.inj (Option.some.inj hrunner)
      have hf : f.ti = ⟨o, some p⟩ := by rw [← ho, ← hp]
      exact h.called_armed hP hreached hq hw hf op
    | data d =>
      obtain ⟨ho, hp⟩ := Prod.mk.inj (Option.some.inj hrunner)
      have hd : d.ti = ⟨o, some p⟩ := by rw [← ho, ← hp]
      have hbefore := hw.started_before hq hstarted fun f hf => by cases hf
      exact h.delivered_armed hP hreached hq hw hd hbefore hdeleted' op
    | delete d => cases hrunner
    | rootStart r => cases hrunner
  · have hanswer : m.answer ≠ some (op, o, some p) := fun heq => hrunner (runner_of_answer heq)
    have hbefore : .started t o (some p) ∈ s.history.world.log := by
      refine hw.started_before hq hstarted fun f hf _ hti => hrunner ?_
      rw [hf]
      show some (f.ti.objId, f.ti.procId) = _
      rw [hti]
    have hasks : Asks t (op, o, some p) 0 s.history.world w' := hw.asks_other hq hrunner
    rw [if_neg hanswer, h.armed hbefore hdeleted' op, hasks.newRequests]
    rfl

/-- A message is handled. -/
theorem Rearmed.handled (hP : Rearms P o ops) {size : Nat} {malloc : Nat → Nat} {heap : σ}
    (hreached : Reached (step P) (fun _ _ => True) { history := { world := { size, malloc, heap } } } s)
    (h : s.Rearmed o ops) (hq : s.history.world.queues t = m :: rest)
    (hw : World.Handled P t s.history.world w') :
    Rearmed o ops {
      history := {
        world := w'
        taken := Function.update s.history.taken t (s.history.taken t ++ [m]) }
      asked := fun t' => s.asked t' ++ got s.history.world w' (.dequeue t) t' } := by
  have hworld := reached_world hreached
  obtain ⟨ns, hns, -⟩ := hw.newNotes hq
  have hsub : s.history.world.log ⊆ w'.log := hns ▸ List.subset_append_left _ _
  constructor
  · intro t' op o' p hx
    rcases List.mem_append.mp hx with hx | hx
    · exact startedOn_subset hsub t' (h.asks hx)
    · simp only [got] at hx
      split at hx
      · rename_i ht
        subst ht
        refine hw.asked_started hworld (fun c hc => ?_) hq hx
        subst hc
        have hdirect : (EventVariant.constructorCall c).Direct o :=
          (Unattached.of_reached hP hworld).messages (t := t') (hq ▸ List.mem_cons_self)
        exact hdirect
      · cases hx
  · intro t' p hstarted hdeleted op
    by_cases ht : t' = t
    · subst ht
      have harmed := h.handled_armed hP hreached hq hw hstarted hdeleted op
      simp only [got, if_true, Function.update_self]
      rw [List.count_append, harmed, count_answer]
    · have hbefore := hw.started_before hq hstarted fun _ _ heq => absurd heq ht
      simp only [got, if_neg ht, List.append_nil, Function.update_of_ne ht]
      exact h.armed hbefore (fun hmem => hdeleted (hsub hmem)) op

theorem rearmed_of_reached (hP : Rearms P o ops) {size : Nat} {malloc : Nat → Nat} {heap : σ}
    (h : Reached (step P) (fun _ _ => True) { history := { world := { size, malloc, heap } } } s) :
    s.Rearmed o ops := by
  induction h with
  | start => exact ⟨fun hx => absurd hx List.not_mem_nil, fun hx => absurd hx List.not_mem_nil⟩
  | next a hreached _ hstep ih =>
    obtain rfl | ⟨t, m, rest, w', hq, hhandled, rfl⟩ | ⟨w', ha, hw', rfl⟩ := step_cases hstep
    · exact ih
    · exact ih.handled hP hreached hq hhandled
    · obtain ⟨ns, hns, hpassing⟩ := (step_keepsEntries ha hw').log
      constructor
      · intro t op o' p hx
        have hsub : _ ⊆ w'.log := hns ▸ List.subset_append_left _ _
        exact startedOn_subset hsub t (ih.asks hx)
      · intro t p hstarted hdeleted op
        have hstarted : Note.started t o (some p) ∈ w'.log := hstarted
        have hdeleted : Note.deleted t o ∉ w'.log := hdeleted
        rw [hns, List.mem_append] at hstarted hdeleted
        exact ih.armed (hstarted.resolve_right fun hmem => hpassing _ hmem)
          (fun hmem => hdeleted (Or.inl hmem)) op

/-- In every run on any number of threads, the requests of an object that makes its requests again are
under way: for each of its procedures, as long as the object is not deleted, as many requests of an
operation are pending or have their result in the queue as the procedure started with. -/
theorem always_armed (P : Program V σ) (o : Id) (ops : List Int) (hP : Rearms P o ops) (size : Nat)
    (malloc : Nat → Nat) (heap : σ) (s : RequestHistory V σ)
    (h : Reached (step P) (fun _ _ => True) { history := { world := { size, malloc, heap } } } s)
    (t p : Nat) (hstarted : .started t o (some p) ∈ s.history.world.log)
    (hdeleted : .deleted t o ∉ s.history.world.log) (op : Int) :
    (s.history.world.pending t).count (op, o, some p) +
        ((s.history.world.queues t).filterMap EventVariant.answer).count (op, o, some p) =
      ops.count op := by
  have harmed := (rearmed_of_reached hP h).armed hstarted hdeleted op
  have hall := ((conserved_of_reached size malloc heap h).asked t).count_eq (op, o, some p)
  rw [answered, History.received, List.filterMap_append, List.count_append,
    List.count_append] at hall
  omega

end RequestHistory

/-! ## Objects of a class -/

/-- The handlers of a class that has one function, `init`, over the state of an object. -/
structure Acceptor (U : Vocabulary) (S : Type) where
  init : S → Script U (CallResponse × S)
  onYield : S → EventType → Script U (Yielded × S)

variable {U : Vocabulary} {S : Type} {C : Acceptor U S} {ops : List Int} {P : Program V σ} {o : Id}

/-- The objects start with the requests `ops`, and make each one again when they get its result. -/
structure Acceptor.Rearms (C : Acceptor U S) (ops : List Int) : Prop where
  few : ops.length ≤ 512
  init : ∀ s, (C.init s).Plans ops
  onYield : ∀ s event, (C.onYield s event).Plans event.ops

/-- The object `o` of a program is of the class, with its state in a part of the heap. -/
structure Hosts (P : Program V σ) (o : Id) (C : Acceptor U S) where
  embedding : Embedding U V
  get : σ → S
  set : S → σ → σ
  function : ∀ f p heap, P.function f o p heap =
    (C.init (get heap)).embed embedding >>= fun r => pure (r.1, set r.2 heap)
  onYield : ∀ event heap, P.onYield o event heap =
    (C.onYield (get heap) event).embed embedding >>= fun r => pure (r.1, set r.2 heap)

namespace Hosts

/-- What the handlers of the class ask for, the object asks for. -/
theorem rearms (hosts : Hosts P o C) (hC : C.Rearms ops) : LocalSoftware.Rearms P o ops where
  few := hC.few
  starts f p heap := by
    rw [hosts.function, ← List.append_nil ops]
    exact ((hC.init _).embed hosts.embedding).bind fun r => rfl
  resumes event heap := by
    rw [hosts.onYield, ← List.append_nil event.ops]
    exact ((hC.onYield _ event).embed hosts.embedding).bind fun r => rfl

/-- In every run, a request that the object started with once is pending or has its result in the
queue, once, until the object is deleted. -/
theorem armed (hosts : Hosts P o C) (hC : C.Rearms ops) {size : Nat} {malloc : Nat → Nat} {heap : σ}
    {s : RequestHistory V σ}
    (h : Reached (RequestHistory.step P) (fun _ _ => True)
      { history := { world := { size, malloc, heap } } } s)
    {t p : Nat} (hstarted : .started t o (some p) ∈ s.history.world.log)
    (hdeleted : .deleted t o ∉ s.history.world.log) {op : Int} (hop : ops.count op = 1) :
    (s.history.world.pending t).count (op, o, some p) +
      ((s.history.world.queues t).filterMap EventVariant.answer).count (op, o, some p) = 1 := by
  rw [← hop]
  exact RequestHistory.always_armed P o ops (hosts.rearms hC) size malloc heap s h t p hstarted
    hdeleted op

end Hosts

end LocalSoftware
