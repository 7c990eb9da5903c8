import LocalSoftware.Common.Requests

/-!
# What a handler asks for reaches the ring

`Asks t x n` counts how often the request `x` is among those that the ring of `t` gets.
`processQueued_asks`: for the object and procedure whose handler ran, this is the number of times that
the handler queued it, as long as the ring has room; for all others it is none
(`processQueued_asks_other`).
-/

set_option autoImplicit false

namespace LocalSoftware

variable {V : Vocabulary} {σ : Type}

namespace World

variable {w w' w'' : World V σ} {t ctx n n' : Nat} {x : UringRequest} {ti : TargetInfo}
  {es : EventState V} {P : Program V σ} {m : EventVariant V} {rest : List (EventVariant V)}

/-- The ring of a thread got some entries, `n` of them for the request `x`. -/
structure Asks (t : Nat) (x : UringRequest) (n : Nat) (w w' : World V σ) : Prop where
  attached : ∀ a, w.attached a ≠ none → w'.attached a = w.attached a
  requests : ∃ new, (w'.threads t).ring.requests = (w.threads t).ring.requests ++ new ∧
    (new.filterMap fun r => w'.requestAt r.userData).count x = n ∧
    ∀ r ∈ new, w'.attached r.userData ≠ none

namespace Asks

theorem refl (t : Nat) (x : UringRequest) (w : World V σ) : Asks t x 0 w w where
  attached _ _ := rfl
  requests := ⟨[], (List.append_nil _).symm, rfl, fun _ hr => absurd hr List.not_mem_nil⟩

theorem trans (h : Asks t x n w w') (h' : Asks t x n' w' w'') : Asks t x (n + n') w w'' where
  attached a ha := (h'.attached a (by rw [h.attached a ha]; exact ha)).trans (h.attached a ha)
  requests := by
    obtain ⟨new, hnew, hcount, hheld⟩ := h.requests
    obtain ⟨new', hnew', hcount', hheld'⟩ := h'.requests
    have hkept : (new.filterMap fun r => w''.requestAt r.userData) =
        new.filterMap fun r => w'.requestAt r.userData := by
      refine List.filterMap_congr fun r hr => ?_
      rw [requestAt, h'.attached _ (hheld r hr)]
      rfl
    refine ⟨new ++ new', by rw [hnew', hnew, List.append_assoc], ?_, fun r hr => ?_⟩
    · rw [List.filterMap_append, List.count_append, hkept, hcount, hcount']
    · rcases List.mem_append.mp hr with hr | hr
      · rw [h'.attached _ (hheld r hr)]
        exact hheld r hr
      · exact hheld' r hr

/-- The ring and the attachments are as they were. -/
theorem same (h : Asks t x n w w') (hattached : w''.attached = w'.attached)
    (hrequests : (w''.threads t).ring.requests = (w'.threads t).ring.requests) :
    Asks t x n w w'' := by
  have hlast : Asks t x 0 w' w'' :=
    { attached := fun a _ => by rw [hattached]
      requests := ⟨[], by rw [hrequests, List.append_nil], rfl,
        fun _ hr => absurd hr List.not_mem_nil⟩ }
  exact h.trans hlast

/-- Other tables of a thread. -/
theorem setThread (h : Asks t x n w w') (t' : Nat) {td : ThreadData V}
    (htd : td.ring = (w'.threads t').ring) : Asks t x n w (w'.setThread t' td) :=
  h.same rfl (proj_setThread w' t' t td (·.ring.requests) (congrArg Ring.requests htd))

theorem submit (h : Asks t x n w w') (t' : Nat) : Asks t x n w (w'.submit t') :=
  h.same rfl (proj_setThread w' t' t _ (·.ring.requests) (Ring.requests_submit _))

/-- A request is prepared. -/
theorem request (w : World V σ) (t : Nat) (x : UringRequest) (prep : Prep V) (a : IoUringAttached)
    (hfree : w.attached (w.malloc w.mallocs) = none) :
    Asks t x (if a.request = some x then 1 else 0) w (w.addRequest t prep a) := by
  have hself : (w.addRequest t prep a).attached (w.malloc w.mallocs) = some a :=
    Function.update_self ..
  refine ⟨fun address ha => ?_, [⟨prep, w.malloc w.mallocs⟩], ?_, ?_, fun r hr => ?_⟩
  · have hne : address ≠ w.malloc w.mallocs := fun heq => ha (heq ▸ hfree)
    exact Function.update_of_ne hne ..
  · exact (requests_addRequest w t t prep a).trans (if_pos rfl)
  · have hat : (w.addRequest t prep a).requestAt (w.malloc w.mallocs) = a.request := by
      rw [requestAt, hself]
      rfl
    cases hrequest : a.request with
    | none => simp [hat, hrequest]
    | some y =>
      by_cases hy : y = x
      · simp [hat, hrequest, hy]
      · simp [hat, hrequest, hy]
  · rw [List.mem_singleton.mp hr, hself]
    exact Option.some_ne_none a

/-- The request `x` is among what the ring got as often as it was asked for. -/
theorem newRequests (h : Asks t x n w w') : (newRequests t w w').count x = n := by
  obtain ⟨new, hnew, hcount, -⟩ := h.requests
  rw [World.newRequests, hnew, List.drop_left]
  exact hcount

end Asks

/-! ## The updates of `process_queued` -/

/-- Nothing is asked in the name of another object or procedure, or without a request. -/
theorem Queued.asks_none (h : Queued t ctx ti es w w')
    (hes : es.uring = [] ∨ x.2 ≠ (ti.objId, ti.procId)) : Asks t x 0 w w' := by
  have hrefl := Asks.refl t x w
  cases h with
  | decision => exact hrefl.same rfl rfl
  | child q runThread _ =>
    have hchild : Asks t x 0 w (w.setThread t ((w.threads t).setObject ti.objId
        { (w.threads t).object ti.objId with
          children := setChild ((w.threads t).object ti.objId).children
            (getId w.objIds (some t)).1 fun _ => {} })) := hrefl.setThread t rfl
    exact hchild.same rfl rfl
  | call q info locator target _ _ _ _ _ =>
    have hcall : Asks t x 0 w (w.setThread t ((w.threads t).setObject ti.objId
        { (w.threads t).object ti.objId with
          children := setChild ((w.threads t).object ti.objId).children locator.objectId fun info =>
            { thread := t, procedures := info.procedures ++ [(getId w.procIds (some t)).1] } })) :=
      hrefl.setThread t rfl
    exact hcall.same rfl rfl
  | uring q hq hfree =>
    have hother : (IoUringAttached.eventData q.op ti.objId ti.procId).request ≠ some x := by
      intro heq
      rcases hes with hes | hes
      · rw [hes] at hq
        cases hq
      · exact hes (congrArg Prod.snd (Option.some.inj heq)).symm
    have hasks := Asks.request w t x (.request q.fn) (.eventData q.op ti.objId ti.procId) hfree
    rwa [if_neg hother] at hasks
  | removeTimer q data _ hfree _ =>
    exact (Asks.request w t x _ (.timerUpdate _ true) hfree).same rfl rfl
  | updateTimer q data _ hfree _ _ =>
    have htimer : Asks t x 0 w (w.setThread t { w.threads t with
        timers := Function.update (w.threads t).timers
          ((w.contexts ctx).translateTimLocal q.localId) (some { data with ts := q.time }) }) :=
      hrefl.setThread t rfl
    exact (htimer.trans (Asks.request _ t x _ (.timerUpdate _ false) hfree)).same rfl rfl
  | addTimer q _ hfree _ =>
    let data : TimerData := { ptr := w.malloc w.mallocs, objId := ti.objId, ts := q.time }
    have htimer : Asks t x 0 w (w.setThread t { w.threads t with
        timers := Function.update (w.threads t).timers (getId w.timIds (some t)).1 (some data) }) :=
      hrefl.setThread t rfl
    have hcontext : Asks t x 0 w (({ w with timIds := (getId w.timIds (some t)).2 }.setContext ctx
        ((w.contexts ctx).globalToLocalTim (getId w.timIds (some t)).1 q.localId)).setThread t
          { w.threads t with
            timers := Function.update (w.threads t).timers (getId w.timIds (some t)).1
              (some data) }) := htimer.same rfl rfl
    exact (hcontext.trans (Asks.request _ t x _ (.timer _ ti.objId ti.procId) hfree)).same rfl rfl
  | delete q thread _ _ _ => exact hrefl.same rfl rfl
  | dropChild q _ => exact hrefl.setThread t rfl
  | attach q _ =>
    have hattach : Asks t x 0 w (w.setThread t { w.threads t with
        alsoNotify := Function.update (w.threads t).alsoNotify
          ((w.contexts ctx).translateProcLocal q.targetLocalId)
          ((w.threads t).alsoNotify ((w.contexts ctx).translateProcLocal q.targetLocalId) ++
            [(ti.objId, ti.procId)]) }) := hrefl.setThread t rfl
    exact hattach.same rfl rfl

/-- Updates in the name of another object or procedure. -/
theorem processQueued_asks_other (h : w.processQueued t ctx ti es = .ok w')
    (hx : x.2 ≠ (ti.objId, ti.procId)) : Asks t x 0 w w' :=
  transGen_invariant (processQueued_queued h) (.refl t x w) fun _ _ hw hq =>
    hw.trans (hq.asks_none (Or.inr hx))

/-- The ring of the thread is as it was. -/
theorem Queued.sameRing (h : Queued t ctx ti es w w') (huring : es.uring = [])
    (htimer : es.timer = []) : (w'.threads t).ring = (w.threads t).ring := by
  cases h with
  | decision => rfl
  | child q runThread _ => exact proj_setThread w t t _ (·.ring) rfl
  | call q info locator target _ _ _ _ _ => exact proj_setThread w t t _ (·.ring) rfl
  | uring q hq _ => exact absurd (huring ▸ hq) List.not_mem_nil
  | removeTimer q data hq _ _ => exact absurd (htimer ▸ hq) List.not_mem_nil
  | updateTimer q data hq _ _ _ => exact absurd (htimer ▸ hq) List.not_mem_nil
  | addTimer q hq _ _ => exact absurd (htimer ▸ hq) List.not_mem_nil
  | delete q thread _ _ _ => rfl
  | dropChild q _ => exact proj_setThread w t t _ (·.ring) rfl
  | attach q _ => exact proj_setThread w t t _ (·.ring) rfl

/-- With room in the ring, each request that was queued gets an entry. -/
theorem each_queuedUring_asks {qs : List (EventQueuedUring V)}
    (h : each (queuedUring t ti) qs w = .ok w')
    (hroom : (w.threads t).ring.sq.length + qs.length ≤ 512)
    (hx : x.2 = (ti.objId, ti.procId)) :
    Asks t x ((qs.map (·.op)).count x.1) w w' := by
  induction qs generalizing w with
  | nil =>
    obtain rfl := Except.ok.inj h
    exact Asks.refl t x w
  | cons q qs ih =>
    rw [List.length_cons] at hroom
    have hsqe : w.HasSqe t := by
      show (w.threads t).ring.sq.length < 512
      omega
    simp only [each, queuedUring, if_pos hsqe] at h
    split at h
    · cases h
    · rename_i w₁ hw₁
      split at hw₁
      · rename_i hfree
        obtain rfl := Except.ok.inj hw₁
        have hlength : ((w.addRequest t (.request q.fn)
            (.eventData q.op ti.objId ti.procId)).threads t).ring.sq.length =
              (w.threads t).ring.sq.length + 1 := by
          rw [addRequest, prepare, threads_setThread_self, List.length_append]
          rfl
        have hfirst := Asks.request w t x (.request q.fn) (.eventData q.op ti.objId ti.procId) hfree
        have hrest := ih h (by rw [hlength]; omega)
        have hop : (if (IoUringAttached.eventData q.op ti.objId ti.procId).request = some x
            then 1 else 0) = [q.op].count x.1 := by
          obtain ⟨op, o, p⟩ := x
          obtain ⟨rfl, rfl⟩ := Prod.mk.inj hx
          by_cases hq : q.op = op
          · simp [IoUringAttached.request, hq]
          · simp [IoUringAttached.request, hq]
        have hcount : ([q.op] ++ qs.map (·.op)).count x.1 =
            [q.op].count x.1 + (qs.map (·.op)).count x.1 := List.count_append
        rw [List.singleton_append, ← List.map_cons] at hcount
        rw [hcount, ← hop]
        exact hfirst.trans hrest
      · cases hw₁

/-- Of its own requests, a handler gets as many as it queued. -/
theorem processQueued_asks (h : w.processQueued t ctx ti es = .ok w')
    (hroom : (w.threads t).ring.sq.length + es.uring.length ≤ 512)
    (hx : x.2 = (ti.objId, ti.procId)) : Asks t x ((es.uring.map (·.op)).count x.1) w w' := by
  unfold processQueued at h
  obtain ⟨w₁, h₁, h⟩ := bind_eq_ok h
  obtain ⟨w₂, h₂, h⟩ := bind_eq_ok h
  obtain ⟨w₃, h₃, h⟩ := bind_eq_ok h
  obtain ⟨w₄, h₄, h⟩ := bind_eq_ok h
  obtain ⟨w₅, h₅, h⟩ := bind_eq_ok h
  -- what comes before and after the requests has none
  let before : EventState V := { es with uring := [], timer := [] }
  let after : EventState V := { es with uring := [] }
  have hnone : ∀ {v v' : World V σ}, Relation.ReflTransGen (Queued t ctx ti after) v v' →
      Asks t x 0 v v' :=
    fun hv => transGen_invariant hv (.refl t x _) fun _ _ hw hq => hw.trans (hq.asks_none (Or.inl rfl))
  have hring : ∀ {v v' : World V σ}, Relation.ReflTransGen (Queued t ctx ti before) v v' →
      Asks t x 0 v v' ∧ (v'.threads t).ring = (v.threads t).ring := by
    intro v v' hv
    refine transGen_invariant (I := fun v' => Asks t x 0 v v' ∧
      (v'.threads t).ring = (v.threads t).ring) hv ⟨.refl t x v, rfl⟩ fun _ _ hw hq => ?_
    exact ⟨hw.1.trans (hq.asks_none (Or.inl rfl)), (hq.sameRing rfl rfl).trans hw.2⟩
  have hconstruct := hring (each_queued (fun q (hq : q ∈ before.construct) _ _ =>
    queuedConstruct_queued hq) h₁)
  have hfunction := hring (each_queued (fun q (hq : q ∈ before.function) _ _ =>
    queuedFunction_queued hq) h₂)
  have huring := each_queuedUring_asks (x := x) h₃
    (by rw [hfunction.2, hconstruct.2]; exact hroom) hx
  have htimer := hnone (each_queued (fun q (hq : q ∈ after.timer) _ _ => queuedTimer_queued hq) h₄)
  have hdelete := hnone (each_queued (fun q (hq : q ∈ after.delete) _ _ =>
    queuedDelete_queued hq) h₅)
  have hattach : Asks t x 0 w₅ w' := by
    refine hnone (each_queued (fun q (hq : q ∈ after.attach) v v' hstep => ?_) h)
    obtain rfl := Except.ok.inj hstep
    exact .single (.attach v q hq)
  have hbefore := (hconstruct.1.trans hfunction.1).trans huring
  have hall := ((hbefore.trans htimer).trans hdelete).trans hattach
  simpa only [Nat.zero_add, Nat.add_zero] using hall

/-! ## The handling of a message -/

namespace Asks

theorem respond {f : FunctionCall V} {resp : CallResponse} (h : Asks t x n w w')
    (hrespond : w'.respond t f resp = .ok w'') : Asks t x n w w'' := by
  have hset : ∀ d, Asks t x n w (w'.setThread t ((w'.threads t).setProc f.ti.procId d)) :=
    fun d => h.setThread t rfl
  obtain ⟨d, -, -, ⟨-, rfl⟩ | ⟨failed, code, -, ⟨-, rfl⟩ | ⟨t', -, -, rfl⟩⟩⟩ := respond_cases hrespond
  · exact hset d
  · exact (hset d).same rfl rfl
  · exact (hset d).same rfl rfl

theorem report {y : Yielded} (h : Asks t x n w w') (hreport : w'.report t ti y = .ok w'') :
    Asks t x n w w'' := by
  obtain ⟨-, rfl⟩ | ⟨failed, code, t', -, -, -, rfl⟩ := report_cases hreport
  · exact h
  · have hset : Asks t x n w (w'.setThread t ((w'.threads t).setProc ti.procId
        { (w'.threads t).proc ti.procId with status := resultStatus failed })) := h.setThread t rfl
    exact hset.same rfl rfl

theorem forward (h : Asks t x n w w') (d : Data) (attachers : List (Id × Id)) :
    Asks t x n w (w'.forward t d attachers) :=
  forward_invariant (I := Asks t x n w) h fun _ _ _ hw => hw.same rfl rfl

theorem enter (h : Asks t x n w w') (f : FunctionCall V) (o : ObjectDataThreaded) :
    Asks t x n w (w'.enter t f o) :=
  h.same rfl (proj_setThread w' t t _ (·.ring.requests) rfl)

end Asks

end World

end LocalSoftware
