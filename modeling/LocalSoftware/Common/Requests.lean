import LocalSoftware.Common.History
import LocalSoftware.Common.TimerKeys

/-!
# Requests and their completions

The requests of the handlers go through the rings of the threads, and each attachment is freed when
the completion is read. `requests_conserved`: on any number of threads, the requests that a ring got
are those that it still has, together with those whose result was sent to the object and procedure
that asked, once. `completions_readable`: each attachment is in one place of one ring, and
`process_uring` finds the attachments of all completions.
-/

set_option autoImplicit false

namespace LocalSoftware

variable {V : Vocabulary} {σ : Type}

/-- The operation of a request, and the object and procedure that asked for it. -/
abbrev UringRequest := Int × Id × Id

/-- The request that an attachment is for. -/
def IoUringAttached.request : IoUringAttached → Option UringRequest
  | .eventData op objId procId => some (op, objId, procId)
  | _ => none

/-- The request whose result a message has; a copy that was forwarded has none. -/
def EventVariant.answer : EventVariant V → Option UringRequest
  | .data d =>
    if d.copy then none
    else
      match d.data with
      | .ioUringResult r => some (r.op, d.ti.objId, d.ti.procId)
      | _ => none
  | _ => none

namespace World

variable {w w' w'' : World V σ} {t t' ctx : Nat} {ti : TargetInfo} {es : EventState V}
  {P : Program V σ} {m : EventVariant V} {rest : List (EventVariant V)}

/-- The request at an address. -/
def requestAt (w : World V σ) (address : Nat) : Option UringRequest :=
  (w.attached address).bind (·.request)

/-- The requests that a ring has. -/
def pending (w : World V σ) (t : Nat) : List UringRequest :=
  (w.threads t).ring.addresses.filterMap w.requestAt

/-- The ring of a thread got some requests with new attachments, and no result was sent. -/
structure Asking (t : Nat) (w w' : World V σ) : Prop where
  cq : ∀ t', (w'.threads t').ring.cq = (w.threads t').ring.cq
  others : ∀ t', t' ≠ t → (w'.threads t').ring.requests = (w.threads t').ring.requests
  requests : ∃ new, (w'.threads t).ring.requests = (w.threads t).ring.requests ++ new
  attached : ∀ a, w.attached a ≠ none → w'.attached a = w.attached a
  fresh : ∀ a, w'.attached a ≠ none →
    w.attached a ≠ none ∨ a ∈ (w'.threads t).ring.requests.map (·.userData)
  queues : ∀ t', ∃ ms, w'.queues t' = w.queues t' ++ ms ∧ ∀ m ∈ ms, m.answer = none

namespace Asking

theorem refl (t : Nat) (w : World V σ) : Asking t w w where
  cq _ := rfl
  others _ _ := rfl
  requests := ⟨[], (List.append_nil _).symm⟩
  attached _ _ := rfl
  fresh _ ha := Or.inl ha
  queues _ := ⟨[], (List.append_nil _).symm, fun _ hm => absurd hm List.not_mem_nil⟩

theorem trans (h : Asking t w w') (h' : Asking t w' w'') : Asking t w w'' where
  cq t' := (h'.cq t').trans (h.cq t')
  others t' ht := (h'.others t' ht).trans (h.others t' ht)
  requests := by
    obtain ⟨new, hnew⟩ := h.requests
    obtain ⟨new', hnew'⟩ := h'.requests
    exact ⟨new ++ new', by rw [hnew', hnew, List.append_assoc]⟩
  attached a ha := (h'.attached a (by rw [h.attached a ha]; exact ha)).trans (h.attached a ha)
  fresh a ha := by
    rcases h'.fresh a ha with ha | ha
    · refine (h.fresh a ha).imp_right fun ha => ?_
      obtain ⟨new, hnew⟩ := h'.requests
      rw [hnew, List.map_append]
      exact List.mem_append_left _ ha
    · exact Or.inr ha
  queues t' := by
    obtain ⟨ms, hms, hnone⟩ := h.queues t'
    obtain ⟨ms', hms', hnone'⟩ := h'.queues t'
    refine ⟨ms ++ ms', by rw [hms', hms, List.append_assoc], fun m hm => ?_⟩
    exact (List.mem_append.mp hm).elim (hnone m) (hnone' m)

/-- The rings, attachments and queues are as they were. -/
theorem same (h : Asking t w w')
    (hcq : ∀ t', (w''.threads t').ring.cq = (w'.threads t').ring.cq)
    (hrequests : ∀ t', (w''.threads t').ring.requests = (w'.threads t').ring.requests)
    (hattached : w''.attached = w'.attached) (hqueues : w''.queues = w'.queues) :
    Asking t w w'' :=
  h.trans { refl t w' with
    cq := hcq
    others := fun t' _ => hrequests t'
    requests := ⟨[], by rw [hrequests, List.append_nil]⟩
    attached := fun a _ => by rw [hattached]
    fresh := fun a ha => Or.inl (hattached ▸ ha)
    queues := fun t' => ⟨[], by rw [hqueues, List.append_nil], fun _ hm => absurd hm List.not_mem_nil⟩ }

/-- Other tables of a thread. -/
theorem setThread (h : Asking t w w') (t' : Nat) {td : ThreadData V}
    (htd : td.ring = (w'.threads t').ring) : Asking t w (w'.setThread t' td) :=
  h.same (fun t₁ => proj_setThread w' t' t₁ td (·.ring.cq) (congrArg Ring.cq htd))
    (fun t₁ => proj_setThread w' t' t₁ td (·.ring.requests) (congrArg Ring.requests htd)) rfl rfl

theorem submit (h : Asking t w w') (t' : Nat) : Asking t w (w'.submit t') :=
  h.same (fun t₁ => proj_setThread w' t' t₁ _ (·.ring.cq) rfl)
    (fun t₁ => proj_setThread w' t' t₁ _ (·.ring.requests) (Ring.requests_submit _)) rfl rfl

/-- A message without a result is sent. -/
theorem send (h : Asking t w w') (t' : Nat) (hm : m.answer = none) :
    Asking t w (w'.enqueue t' m) :=
  h.trans { refl t w' with
    queues := fun t₁ => by
      rw [queues_enqueue]
      split
      · exact ⟨[m], rfl, fun m' hm' => List.mem_singleton.mp hm' ▸ hm⟩
      · exact ⟨[], (List.append_nil _).symm, fun _ hm => absurd hm List.not_mem_nil⟩ }

/-- A request is prepared. -/
theorem request (h : Asking t w w') (prep : Prep V) (a : IoUringAttached)
    (hfree : w'.attached (w'.malloc w'.mallocs) = none) :
    Asking t w (w'.addRequest t prep a) := by
  have hcq : ∀ t', ((w'.addRequest t prep a).threads t').ring.cq = (w'.threads t').ring.cq :=
    fun t' => proj_setThread _ t t' _ (·.ring.cq) rfl
  refine h.trans ⟨hcq, fun t' ht => ?_, ?_, fun address ha => ?_, fun address ha => ?_,
    fun t' => ⟨[], (List.append_nil _).symm, fun _ hm => absurd hm List.not_mem_nil⟩⟩
  · rw [requests_addRequest, if_neg ht]
  · exact ⟨_, (requests_addRequest w' t t prep a).trans (if_pos rfl)⟩
  · have hne : address ≠ w'.malloc w'.mallocs := fun heq => ha (heq ▸ hfree)
    exact Function.update_of_ne hne ..
  · by_cases heq : address = w'.malloc w'.mallocs
    · right
      rw [requests_addRequest, if_pos rfl, List.map_append, heq]
      exact List.mem_append_right _ List.mem_cons_self
    · left
      have hkept : (w'.addRequest t prep a).attached address = w'.attached address :=
        Function.update_of_ne heq ..
      rw [← hkept]
      exact ha

theorem note (h : Asking t w w') (n : Note) : Asking t w (w'.note n) :=
  h.same (fun _ => rfl) (fun _ => rfl) rfl rfl

theorem noteTimer (h : Asking t w w') (q : EventQueuedTimer) (id : Id) :
    Asking t w (w'.noteTimer t ti q id) := h.note _

theorem setContext (h : Asking t w w') (ctx : Nat) (d : IoUringData V) :
    Asking t w (w'.setContext ctx d) :=
  h.same (fun _ => rfl) (fun _ => rfl) rfl rfl

theorem afterHandler (h : Asking t w w') (ctx : Nat) (es : EventState V) (heap : σ) :
    Asking t w (w'.afterHandler ctx es heap) :=
  h.same (fun _ => rfl) (fun _ => rfl) rfl rfl

end Asking

/-! ## The handling of a message -/

theorem Queued.asking (h : Queued t ctx ti es w w') : Asking t w w' := by
  have hrefl := Asking.refl t w
  cases h with
  | decision => exact hrefl.same (fun _ => rfl) (fun _ => rfl) rfl rfl
  | child q runThread _ =>
    have hdrawn : Asking t w { w with objIds := (getId w.objIds (some t)).2 } :=
      hrefl.same (fun _ => rfl) (fun _ => rfl) rfl rfl
    refine Asking.send (Asking.setThread (hdrawn.setContext ctx _) t ?_) t ?_ <;> rfl
  | call q info locator target _ _ _ _ _ =>
    have hdrawn : Asking t w { w with procIds := (getId w.procIds (some t)).2 } :=
      hrefl.same (fun _ => rfl) (fun _ => rfl) rfl rfl
    refine Asking.note (Asking.send (Asking.setContext (hdrawn.setThread t ?_) ctx _) target ?_) _ <;>
      rfl
  | uring q _ hfree => exact hrefl.request _ _ hfree
  | removeTimer q data _ hfree _ => exact (hrefl.request _ _ hfree).noteTimer q _
  | updateTimer q data _ hfree _ _ =>
    refine Asking.noteTimer (Asking.request (hrefl.setThread t ?_) _ _ hfree) q _
    rfl
  | addTimer q _ hfree _ =>
    have hdrawn : Asking t w { w with timIds := (getId w.timIds (some t)).2 } :=
      hrefl.same (fun _ => rfl) (fun _ => rfl) rfl rfl
    refine Asking.noteTimer (Asking.request (Asking.setThread (hdrawn.setContext ctx _) t ?_) _ _
      hfree) q _
    rfl
  | delete q thread _ _ _ => exact hrefl.send thread rfl
  | dropChild q _ => exact hrefl.setThread t rfl
  | attach q _ =>
    refine Asking.note (hrefl.setThread t ?_) _
    rfl

theorem Asking.processQueued (h : Asking t w w') (hqueued : w'.processQueued t ctx ti es = .ok w'') :
    Asking t w w'' :=
  transGen_invariant (processQueued_queued hqueued) h fun _ _ hw hq => hw.trans hq.asking

theorem Asking.respond {f : FunctionCall V} {resp : CallResponse} (h : Asking t w w')
    (hrespond : w'.respond t f resp = .ok w'') : Asking t w w'' := by
  have hset : ∀ d, Asking t w (w'.setThread t ((w'.threads t).setProc f.ti.procId d)) :=
    fun d => h.setThread t rfl
  obtain ⟨d, -, -, ⟨-, rfl⟩ | ⟨failed, code, -, ⟨-, rfl⟩ | ⟨t', -, -, rfl⟩⟩⟩ := respond_cases hrespond
  · exact hset d
  · exact (hset d).note _
  · exact ((hset d).note _).send t' rfl

theorem Asking.report {y : Yielded} (h : Asking t w w') (hreport : w'.report t ti y = .ok w'') :
    Asking t w w'' := by
  obtain ⟨-, rfl⟩ | ⟨failed, code, t', -, -, -, rfl⟩ := report_cases hreport
  · exact h
  · have hset : Asking t w (w'.setThread t ((w'.threads t).setProc ti.procId
        { (w'.threads t).proc ti.procId with status := resultStatus failed })) := h.setThread t rfl
    exact (hset.note _).send t' rfl

/-- A constructor call was taken, and the slot of the new object was filled in. -/
theorem Asking.filled {c : ConstructorCall V} {w₁ w₂ : World V σ} {heap : σ}
    (htake : w.takeContext c.uringData = (ctx, w₁))
    (hslot : (w₁.afterHandler ctx es heap).fillSlot t c.constructor.slot c.ti.objId = .ok w₂) :
    Asking t w w₂ := by
  obtain ⟨contexts, nextContext, rfl⟩ := takeContext_eq htake
  obtain ⟨contexts', rfl⟩ := fillSlot_eq hslot
  exact (Asking.refl t w).same (fun _ => rfl) (fun _ => rfl) rfl rfl

/-- The handler of a message may ask for requests, and sends no result of one. -/
theorem Handled.asking (h : Handled P t w w') (hq : w.queues t = m :: rest) :
    Asking t (w.pop t rest) w' := by
  have hrefl := Asking.refl t (w.pop t rest)
  cases h with
  | idle hnil => cases hnil.symm.trans hq
  | @constructed c rest' ctx w₁ w₂ w₃ heap es hq' htake hrun hslot hnew hqueued =>
    obtain ⟨rfl, rfl⟩ := List.cons.inj (hq'.symm.trans hq)
    have hobject : Asking t (w.pop t rest') (w₂.setThread t ((w₂.threads t).setObject c.ti.objId
        { ptr := some ctx })) := (Asking.filled htake hslot).setThread t rfl
    exact (hobject.processQueued hqueued).submit t
  | @reconstructed c rest' ctx w₁ w₂ heap es o hq' htake hrun hslot hold =>
    obtain ⟨rfl, rfl⟩ := List.cons.inj (hq'.symm.trans hq)
    exact (Asking.filled htake hslot).submit t
  | @called f rest' o ctx resp heap es w₂ w₃ hq' ho hptr hrun hqueued hrespond =>
    obtain ⟨rfl, rfl⟩ := List.cons.inj (hq'.symm.trans hq)
    have henter : Asking t (w.pop t rest') ((w.pop t rest').enter t f o) := by
      refine Asking.note (hrefl.setThread t ?_) _
      rfl
    exact (((henter.afterHandler ctx es heap).processQueued hqueued).respond hrespond).submit t
  | @delivered d rest' o c ctx y heap es w₂ w₃ hq' ho hd hptr hrun hqueued hreport =>
    obtain ⟨rfl, rfl⟩ := List.cons.inj (hq'.symm.trans hq)
    have hreported := ((((hrefl.note (.delivered t d ((w.contexts ctx).mapEventData d.data).1)
      ).afterHandler ctx es heap).processQueued hqueued).report hreport)
    have hforward : Asking t (w.pop t rest') (w₃.forward t
        { d with data := ((w.contexts ctx).mapEventData d.data).1 }
        ((w₃.threads t).alsoNotify d.ti.procId)) :=
      forward_invariant (I := Asking t (w.pop t rest')) hreported fun _ _ _ hw => hw.send t rfl
    exact hforward.submit t
  | dropped hq' hmissing =>
    obtain ⟨rfl, rfl⟩ := List.cons.inj (hq'.symm.trans hq)
    exact hrefl.submit t
  | @deleted d rest' w₁ hq' hchildren =>
    obtain ⟨rfl, rfl⟩ := List.cons.inj (hq'.symm.trans hq)
    have hchildren' := deleteChildren_invariant (I := Asking t (w.pop t rest')) hchildren hrefl
      fun _ _ _ hw _ => hw.send _ rfl
    have herase : Asking t (w.pop t rest') (w₁.erase P t d.ti.objId) := by
      refine Asking.note (Asking.setThread (hchildren'.same ?_ ?_ ?_ ?_) t ?_) _
      all_goals first | rfl | exact fun _ => rfl
    exact herase.submit t
  | @root r rest' hq' =>
    obtain ⟨rfl, rfl⟩ := List.cons.inj (hq'.symm.trans hq)
    have hroot : Asking t (w.pop t rest') ((w.pop t rest').rootReceived t r) := by
      refine Asking.send (hrefl.send t ?_) t ?_ <;> rfl
    exact hroot.submit t

/-! ## The requests that a ring has -/

/-- The attachments of what is in the rings are there, and each is in one place. -/
structure RingsHeld (w : World V σ) : Prop where
  nodup : ∀ t, (w.threads t).ring.addresses.Nodup
  apart : ∀ {t t' a}, a ∈ (w.threads t).ring.addresses → a ∈ (w.threads t').ring.addresses → t = t'
  held : ∀ {t a}, a ∈ (w.threads t).ring.addresses → w.attached a ≠ none
  placed : ∀ {a}, w.attached a ≠ none → ∃ t, a ∈ (w.threads t).ring.addresses

/-- What the ring of `t` got between two worlds. -/
def newRequests (t : Nat) (w w' : World V σ) : List UringRequest :=
  ((w'.threads t).ring.requests.drop (w.threads t).ring.requests.length).filterMap fun r =>
    w'.requestAt r.userData

theorem Asking.addresses (h : Asking t w w') (ht : t' ≠ t) :
    (w'.threads t').ring.addresses = (w.threads t').ring.addresses := by
  rw [Ring.addresses, Ring.addresses, h.cq, h.others t' ht]

theorem Asking.requestAt (h : Asking t w w')
    (hheld : ∀ {t a}, a ∈ (w.threads t).ring.addresses → w.attached a ≠ none) {t' a : Nat}
    (ha : a ∈ (w.threads t').ring.addresses) : w'.requestAt a = w.requestAt a := by
  unfold World.requestAt
  rw [h.attached a (hheld ha)]

/-- The other rings have the requests that they had. -/
theorem Asking.pending_other (h : Asking t w w')
    (hheld : ∀ {t a}, a ∈ (w.threads t).ring.addresses → w.attached a ≠ none) (ht : t' ≠ t) :
    w'.pending t' = w.pending t' := by
  unfold pending
  rw [h.addresses ht]
  exact List.filterMap_congr fun a ha => h.requestAt hheld ha

theorem Asking.pending_self (h : Asking t w w')
    (hheld : ∀ {t a}, a ∈ (w.threads t).ring.addresses → w.attached a ≠ none) :
    w'.pending t = w.pending t ++ newRequests t w w' := by
  obtain ⟨new, hnew⟩ := h.requests
  have haddresses : (w'.threads t).ring.addresses =
      (w.threads t).ring.addresses ++ new.map (·.userData) := by
    rw [Ring.addresses, Ring.addresses, h.cq, hnew, List.map_append, List.append_assoc]
  have hgot : newRequests t w w' = new.filterMap fun r => w'.requestAt r.userData := by
    rw [newRequests, hnew, List.drop_left]
  unfold pending
  rw [haddresses, List.filterMap_append, hgot, List.filterMap_map]
  exact congrArg (· ++ _) (List.filterMap_congr fun a ha => h.requestAt hheld ha)

/-- The message for a completion has the result of the request, if there is one. -/
theorem readCqe_answer (w : World V σ) (t address : Nat) (res : Int) (b : IoUringAttached) :
    (∃ ms, (w.readCqe t address res b).queues t = w.queues t ++ ms ∧
      ms.filterMap EventVariant.answer = b.request.toList) ∧
    ∀ t', t' ≠ t → (w.readCqe t address res b).queues t' = w.queues t' := by
  have hsame : ∀ w' : World V σ, w'.queues = w.queues →
      (∃ ms, w'.queues t = w.queues t ++ ms ∧ ms.filterMap EventVariant.answer = []) ∧
        ∀ t', t' ≠ t → w'.queues t' = w.queues t' :=
    fun w' hw => ⟨⟨[], by rw [hw, List.append_nil], rfl⟩, fun t' _ => by rw [hw]⟩
  have hsend : ∀ m : EventVariant V,
      (∃ ms, (w.enqueue t m).queues t = w.queues t ++ ms ∧
        ms.filterMap EventVariant.answer = m.answer.toList) ∧
        ∀ t', t' ≠ t → (w.enqueue t m).queues t' = w.queues t' := by
    intro m
    refine ⟨⟨[m], by rw [queues_enqueue, if_pos rfl], ?_⟩, fun t' ht => by
      rw [queues_enqueue, if_neg ht]⟩
    cases hm : m.answer <;> simp [hm]
  unfold readCqe
  cases b with
  | eventData op o p => exact hsend (.data (ringData o p (.ioUringResult ⟨p, op, res⟩)))
  | timer timerId o p =>
    simp only [attachment]
    split
    · exact hsend (.data (ringData o p (.timeout timerId)))
    · exact hsame _ rfl
  | timerUpdate timerId remove =>
    simp only [attachment]
    split
    · exact hsame _ rfl
    · exact hsame _ rfl

/-- Completions are read: their results are sent, and their attachments are freed. -/
theorem readCqes_answers {cqes : List (Nat × Int)} (hnodup : (cqes.map (·.1)).Nodup)
    (h : w.readCqes t cqes = .ok w') :
    (∃ ms, w'.queues t = w.queues t ++ ms ∧
      ms.filterMap EventVariant.answer = cqes.filterMap fun cqe => w.requestAt cqe.1) ∧
    (∀ t', t' ≠ t → w'.queues t' = w.queues t') ∧
    (∀ t', (w'.threads t').ring = (w.threads t').ring) ∧
    ∀ a, w'.attached a = if a ∈ cqes.map (·.1) then none else w.attached a := by
  -- on the completions that remain
  induction cqes generalizing w with
  | nil =>
    obtain rfl := Except.ok.inj h
    exact ⟨⟨[], (List.append_nil _).symm, rfl⟩, fun _ _ => rfl, fun _ => rfl, fun _ => rfl⟩
  | cons cqe cqes ih =>
    obtain ⟨address, res⟩ := cqe
    obtain ⟨hnot, hrest⟩ := List.nodup_cons.mp hnodup
    simp only [readCqes] at h
    split at h
    · cases h
    · rename_i b hb
      obtain ⟨⟨ms, hms, hanswers⟩, hothers, hrings, hattached⟩ := ih hrest h
      obtain ⟨⟨first, hfirst, hanswer⟩, hfirst'⟩ := readCqe_answer w t address res b
      have hkept : ∀ a, a ≠ address → (w.readCqe t address res b).attached a = w.attached a :=
        fun a ha => Function.update_of_ne ha ..
      refine ⟨⟨first ++ ms, ?_, ?_⟩, fun t' ht => ?_, fun t' => ?_, fun a => ?_⟩
      · rw [hms]
        exact (congrArg (· ++ ms) hfirst).trans (List.append_assoc ..)
      · have hothers' : (cqes.filterMap fun cqe => (w.readCqe t address res b).requestAt cqe.1) =
            cqes.filterMap fun cqe => w.requestAt cqe.1 := by
          refine List.filterMap_congr fun cqe hcqe => ?_
          have hin : cqe.1 ∈ cqes.map (·.1) := List.mem_map_of_mem hcqe
          have hne : cqe.1 ≠ address := fun heq => hnot (heq ▸ hin)
          rw [requestAt, requestAt, hkept _ hne]
        have hhead : w.requestAt address = b.request := by
          rw [requestAt, hb, Option.bind_some]
        rw [List.filterMap_append, hanswer, hanswers, List.filterMap_cons]
        refine (congrArg (b.request.toList ++ ·) hothers').trans ?_
        simp only [hhead]
        cases b.request <;> rfl
      · exact (hothers t' ht).trans (hfirst' t' ht)
      · exact (hrings t').trans (ring_attachment w t t' res b)
      · have hcons : a ∈ ((address, res) :: cqes).map (·.1) ↔ a = address ∨ a ∈ cqes.map (·.1) :=
          List.mem_cons
        have hrest : w'.attached a = if a ∈ cqes.map (·.1) then none
            else (w.readCqe t address res b).attached a := hattached a
        rw [hrest]
        by_cases heq : a = address
        · have hfreed : (w.readCqe t address res b).attached a = none := by
            rw [heq]
            exact Function.update_self ..
          rw [hfreed, if_pos (hcons.mpr (Or.inl heq)), ite_self]
        · rw [hkept a heq]
          simp only [hcons, heq, false_or]

/-- Every completion can be read. -/
theorem readCqes_returns {cqes : List (Nat × Int)} (hnodup : (cqes.map (·.1)).Nodup)
    (hheld : ∀ cqe ∈ cqes, w.attached cqe.1 ≠ none) : ∃ w', w.readCqes t cqes = .ok w' := by
  induction cqes generalizing w with
  | nil => exact ⟨w, rfl⟩
  | cons cqe cqes ih =>
    obtain ⟨address, res⟩ := cqe
    obtain ⟨hnot, hrest⟩ := List.nodup_cons.mp hnodup
    obtain ⟨b, hb⟩ := Option.ne_none_iff_exists'.mp (hheld _ List.mem_cons_self)
    obtain ⟨w', hw'⟩ := ih (w := w.readCqe t address res b) hrest fun cqe hcqe => by
      have hin : cqe.1 ∈ cqes.map (·.1) := List.mem_map_of_mem hcqe
      have hne : cqe.1 ≠ address := fun heq => hnot (heq ▸ hin)
      have hkept : (w.readCqe t address res b).attached cqe.1 = w.attached cqe.1 :=
        Function.update_of_ne hne ..
      rw [hkept]
      exact hheld cqe (List.mem_cons_of_mem _ hcqe)
    refine ⟨w', ?_⟩
    simp only [readCqes]
    have hhead : w.attached address = some b := hb
    rw [hhead]
    exact hw'

theorem RingsHeld.processUring_returns (h : w.RingsHeld) (t : Nat) :
    ∃ w', w.processUring t = .ok w' := by
  have hnodup := (List.nodup_append.mp (h.nodup t)).1
  obtain ⟨w₁, hread⟩ := readCqes_returns (w := w) (t := t) hnodup fun cqe hcqe =>
    h.held (t := t) (List.mem_append_left _ (List.mem_map_of_mem hcqe))
  exact ⟨_, by rw [processUring, hread]⟩

/-- `process_uring` sends the results of the completions and frees what it has read. -/
theorem RingsHeld.processUring (h : w.RingsHeld) (huring : w.processUring t = .ok w') :
    (∃ ms, w'.queues t = w.queues t ++ ms ∧
      (w.pending t).Perm (w'.pending t ++ ms.filterMap EventVariant.answer)) ∧
    (∀ t', t' ≠ t → w'.queues t' = w.queues t' ∧ w'.pending t' = w.pending t') ∧
    ∀ {a}, w'.attached a ≠ none → ∃ t, a ∈ (w'.threads t).ring.addresses := by
  unfold World.processUring at huring
  split at huring
  · cases huring
  · rename_i w₁ hread
    obtain rfl := Except.ok.inj huring
    have hnodup := List.nodup_append.mp (h.nodup t)
    obtain ⟨⟨ms, hms, hanswers⟩, hothers, hrings, hattached⟩ := readCqes_answers hnodup.1 hread
    have haddresses : ∀ t', ((w₁.setCq t []).threads t').ring.addresses = if t' = t then
        (w.threads t').ring.requests.map (·.userData) else (w.threads t').ring.addresses := by
      intro t'
      rw [addresses_setCq, hrings]
      rfl
    -- what is not among the completions keeps its attachment
    have hrequestAt : ∀ a, a ∉ (w.threads t).ring.cq.map (·.1) →
        (w₁.setCq t []).requestAt a = w.requestAt a := by
      intro a ha
      have hkept := hattached a
      rw [if_neg ha] at hkept
      exact congrArg (Option.bind · _) hkept
    show (∃ ms, (w₁.setCq t []).queues t = w.queues t ++ ms ∧ _) ∧
      (∀ t', t' ≠ t → (w₁.setCq t []).queues t' = w.queues t' ∧ _) ∧ _
    refine ⟨⟨ms, hms, ?_⟩, fun t' ht => ⟨hothers t' ht, ?_⟩, fun {a} ha => ?_⟩
    · have hpending : w.pending t = ((w.threads t).ring.cq.map (·.1)).filterMap w.requestAt ++
          ((w.threads t).ring.requests.map (·.userData)).filterMap w.requestAt :=
        List.filterMap_append
      have hrest : (w₁.setCq t []).pending t =
          ((w.threads t).ring.requests.map (·.userData)).filterMap w.requestAt := by
        rw [pending, haddresses, if_pos rfl]
        refine List.filterMap_congr fun a ha => hrequestAt a fun hin => ?_
        exact hnodup.2.2 a hin a ha rfl
      rw [hpending]
      refine List.Perm.trans ?_ (List.Perm.append_right _ (List.Perm.of_eq hrest.symm))
      rw [hanswers, List.filterMap_map]
      exact List.perm_append_comm
    · have hrest : (w₁.setCq t []).pending t' = w.pending t' := by
        rw [pending, haddresses, if_neg ht]
        refine List.filterMap_congr fun a ha => hrequestAt a fun hin => ?_
        exact ht (h.apart ha (List.mem_append_left _ hin))
      exact hrest
    · have hkept : (if a ∈ (w.threads t).ring.cq.map (·.1) then none else w.attached a) ≠ none :=
        hattached a ▸ ha
      split at hkept
      · exact absurd rfl hkept
      · rename_i hnot
        obtain ⟨t', ht'⟩ := h.placed hkept
        refine ⟨t', ?_⟩
        show a ∈ ((w₁.setCq t []).threads t').ring.addresses
        rw [haddresses]
        split
        · rename_i heq
          rw [heq] at ht' ⊢
          exact (List.mem_append.mp ht').resolve_left hnot
        · exact ht'

end World

/-- The runtime with two history variables: the messages that were taken, and the requests that the
rings got. -/
structure RequestHistory (V : Vocabulary) (σ : Type) where
  history : History V σ
  asked : Nat → List UringRequest := fun _ => []

namespace RequestHistory

/-- The requests that the ring of a thread got in an action. -/
def got (w w' : World V σ) : World.Action V → Nat → List UringRequest
  | .dequeue t, t' => if t' = t then World.newRequests t w w' else []
  | _, _ => []

/-- A step of the runtime. -/
def step (P : Program V σ) (s : RequestHistory V σ) (a : World.Action V) :
    Except Fault (RequestHistory V σ) :=
  (s.history.step P a).map fun history =>
    { history, asked := fun t => s.asked t ++ got s.history.world history.world a t }

variable {P : Program V σ} {s s' : RequestHistory V σ}

/-- The results that were sent to those who asked. -/
def answered (s : RequestHistory V σ) (t : Nat) : List UringRequest :=
  (s.history.received t).filterMap EventVariant.answer

/-- The requests of each thread are pending or answered. -/
structure Conserved (s : RequestHistory V σ) : Prop where
  rings : ∃ fired, World.TimerInv fired s.history.world
  placed : ∀ {a}, s.history.world.attached a ≠ none →
    ∃ t, a ∈ (s.history.world.threads t).ring.addresses
  asked : ∀ t, (s.asked t).Perm (s.history.world.pending t ++ s.answered t)

namespace Conserved

theorem ringsHeld (h : s.Conserved) : s.history.world.RingsHeld := by
  obtain ⟨fired, hfired⟩ := h.rings
  exact ⟨hfired.nodup, hfired.apart, hfired.held, h.placed⟩

/-- No request is asked or answered, and the rings are as they were. -/
theorem same (h : s.Conserved) (hrings : ∃ fired, World.TimerInv fired s'.history.world)
    (hattached : s'.history.world.attached = s.history.world.attached)
    (haddresses : ∀ t, (s'.history.world.threads t).ring.addresses.Perm
      (s.history.world.threads t).ring.addresses)
    (hanswered : s'.answered = s.answered) (hasked : s'.asked = s.asked) : s'.Conserved where
  rings := hrings
  placed ha := by
    obtain ⟨t, ht⟩ := h.placed (hattached ▸ ha)
    exact ⟨t, (haddresses t).mem_iff.mpr ht⟩
  asked t := by
    have hpending : (s'.history.world.pending t).Perm (s.history.world.pending t) := by
      have hrequestAt : s'.history.world.requestAt = s.history.world.requestAt := by
        funext a
        rw [World.requestAt, hattached]
        rfl
      unfold World.pending
      rw [hrequestAt]
      exact (haddresses t).filterMap _
    rw [hasked, hanswered]
    exact (h.asked t).trans (hpending.symm.append_right _)

end Conserved

theorem got_self (w : World V σ) (a : World.Action V) (t : Nat) : got w w a t = [] := by
  cases a with
  | dequeue t' =>
    simp only [got]
    split
    · rw [World.newRequests, List.drop_length]
      rfl
    · rfl
  | _ => rfl

/-- Nothing is taken from an empty queue, or by a thread that does not exist. -/
theorem take_nothing {h : History V σ} {t : Nat}
    (ht : t < h.world.size → h.world.queues t = []) : h.take (.dequeue t) = h.taken := by
  funext t'
  simp only [History.take]
  split
  · rename_i h'
    rw [h'.1, ht h'.2]
    exact List.append_nil _
  · rfl

/-- A message is handled: its handler may ask for requests. -/
theorem Conserved.handled {t : Nat} {m : EventVariant V} {rest : List (EventVariant V)}
    {w' : World V σ} (h : s.Conserved) (hrings : ∃ fired, World.TimerInv fired w')
    (hq : s.history.world.queues t = m :: rest)
    (hasking : World.Asking t (s.history.world.pop t rest) w') :
    Conserved {
      history := {
        world := w'
        taken := Function.update s.history.taken t (s.history.taken t ++ [m]) }
      asked := fun t' => s.asked t' ++ got s.history.world w' (.dequeue t) t' } := by
  have hheld : ∀ {t' a}, a ∈ ((s.history.world.pop t rest).threads t').ring.addresses →
      (s.history.world.pop t rest).attached a ≠ none := h.ringsHeld.held
  refine ⟨hrings, fun {a} ha => ?_, fun t' => ?_⟩
  · rcases hasking.fresh a ha with ha | ha
    · obtain ⟨t', ht'⟩ := h.placed ha
      by_cases heq : t' = t
      · obtain ⟨new, hnew⟩ := hasking.requests
        refine ⟨t, ?_⟩
        show a ∈ (w'.threads t).ring.addresses
        rw [Ring.addresses, hasking.cq, hnew, List.map_append, ← List.append_assoc]
        exact List.mem_append_left _ (heq ▸ ht')
      · refine ⟨t', ?_⟩
        show a ∈ (w'.threads t').ring.addresses
        rw [hasking.addresses heq]
        exact ht'
    · exact ⟨t, List.mem_append_right _ ha⟩
  · -- what was received is as before, with messages that answer nothing
    have hreceived : (Function.update s.history.taken t (s.history.taken t ++ [m]) t' ++
        w'.queues t').filterMap EventVariant.answer = s.answered t' := by
      obtain ⟨ms, hms, hnone⟩ := hasking.queues t'
      have hnil : ms.filterMap EventVariant.answer = [] := List.filterMap_eq_nil_iff.mpr hnone
      rw [hms, answered, History.received, ← List.append_assoc, List.filterMap_append, hnil,
        List.append_nil, World.queues_pop, Function.update_apply]
      split
      · rename_i ht
        rw [ht, hq, List.append_assoc]
        rfl
      · rfl
    refine List.Perm.trans ?_ (List.Perm.append_left _ (List.Perm.of_eq hreceived.symm))
    have hold := h.asked t'
    by_cases ht : t' = t
    · subst ht
      have hpending : w'.pending t' = s.history.world.pending t' ++
          World.newRequests t' s.history.world w' := hasking.pending_self hheld
      simp only [got, if_true]
      rw [hpending, List.append_assoc]
      refine (hold.append_right _).trans ?_
      rw [List.append_assoc]
      exact List.perm_append_comm.append_left _
    · have hpending : w'.pending t' = s.history.world.pending t' :=
        hasking.pending_other hheld ht
      simp only [got, if_neg ht, List.append_nil]
      rw [hpending]
      exact hold

/-- A step handles a message, or takes none. -/
theorem step_cases {a : World.Action V} (hstep : step P s a = .ok s') : s' = s ∨
    (∃ t m rest w', s.history.world.queues t = m :: rest ∧
      World.Handled P t s.history.world w' ∧ s' = {
        history := {
          world := w'
          taken := Function.update s.history.taken t (s.history.taken t ++ [m]) }
        asked := fun t' => s.asked t' ++ got s.history.world w' (.dequeue t) t' }) ∨
    ∃ w', (∀ t, a ≠ .dequeue t) ∧ s.history.world.step P a = .ok w' ∧
      s' = { history := { world := w', taken := s.history.taken }, asked := s.asked } := by
  obtain ⟨h₁, hhistory, rfl⟩ := exists_of_map_eq_ok hstep
  obtain ⟨w', hw', rfl⟩ := exists_of_map_eq_ok hhistory
  by_cases ha : ∃ t, a = .dequeue t
  · obtain ⟨t, rfl⟩ := ha
    have hidle : (fun t' => s.asked t' ++ got s.history.world s.history.world (.dequeue t) t') =
        s.asked := by
      funext t'
      rw [got_self, List.append_nil]
    cases hq : s.history.world.queues t with
    | nil =>
      have hsame : w' = s.history.world := by
        simp only [World.step, World.handleDequeue, hq, ite_self] at hw'
        exact (Except.ok.inj hw').symm
      left
      rw [hsame, take_nothing fun _ => hq, hidle]
    | cons m rest =>
      by_cases ht : t < s.history.world.size
      · simp only [World.step, if_pos ht] at hw'
        right
        left
        refine ⟨t, m, rest, w', hq, World.handleDequeue_handled hw', ?_⟩
        rw [History.taken_dequeue ht hq]
      · simp only [World.step, if_neg ht] at hw'
        obtain rfl := Except.ok.inj hw'
        left
        rw [take_nothing fun h' => absurd h' ht, hidle]
  · have hother : ∀ t, a ≠ .dequeue t := fun t heq => ha ⟨t, heq⟩
    refine Or.inr (Or.inr ⟨w', hother, hw', ?_⟩)
    cases a with
    | dequeue t => exact absurd rfl (hother t)
    | _ =>
      simp only [got, List.append_nil]
      rfl

/-- A step keeps the account. -/
theorem Conserved.step {a : World.Action V} (h : s.Conserved) (hstep : step P s a = .ok s') :
    s'.Conserved := by
  obtain ⟨fired, hfired⟩ := h.rings
  have hrings : ∃ fired, World.TimerInv fired s'.history.world := by
    obtain ⟨h₁, hhistory, rfl⟩ := exists_of_map_eq_ok hstep
    obtain ⟨w', hw', rfl⟩ := exists_of_map_eq_ok hhistory
    exact ⟨_, hfired.step hw'⟩
  obtain rfl | ⟨t, m, rest, w', hq, hhandled, rfl⟩ | ⟨w', ha, hw', rfl⟩ := step_cases hstep
  · exact h
  · exact h.handled hrings hq (hhandled.asking hq)
  cases a with
  | dequeue t => exact absurd rfl (ha t)
  | uring t =>
    simp only [World.step] at hw'
    split at hw'
    · obtain ⟨⟨ms, hms, hself⟩, hothers, hplaced⟩ := h.ringsHeld.processUring hw'
      refine ⟨hrings, hplaced, fun t' => (h.asked t').trans ?_⟩
      by_cases ht : t' = t
      · subst ht
        have hanswered : (s.history.taken t' ++ w'.queues t').filterMap EventVariant.answer =
            s.answered t' ++ ms.filterMap EventVariant.answer := by
          rw [hms, ← List.append_assoc, List.filterMap_append]
          rfl
        refine (hself.append_right _).trans ?_
        refine List.Perm.trans ?_ (List.Perm.append_left _ (List.Perm.of_eq hanswered.symm))
        rw [List.append_assoc]
        exact List.perm_append_comm.append_left _
      · obtain ⟨hqueue, hpending⟩ := hothers t' ht
        have hanswered : (s.history.taken t' ++ w'.queues t').filterMap EventVariant.answer =
            s.answered t' := by
          rw [hqueue]
          rfl
        exact List.Perm.of_eq (congrArg₂ (· ++ ·) hpending.symm hanswered.symm)
    · obtain rfl := Except.ok.inj hw'
      exact h.same hrings rfl (fun _ => .refl _) rfl rfl
  | complete t k res =>
    obtain rfl := Except.ok.inj hw'
    have hsame := (World.SameTimers.refl s.history.world).complete t k res
    refine h.same hrings hsame.attached hsame.addresses ?_ rfl
    have hqueues : (s.history.world.complete t k res).queues = s.history.world.queues := by
      unfold World.complete
      simp only
      split <;> rfl
    funext t'
    simp only [answered, History.received, hqueues]
  | root constructor init =>
    obtain ⟨-, rfl⟩ := World.initializeRootEvent_eq hw'
    refine h.same hrings rfl (fun _ => .refl _) ?_ rfl
    funext t'
    simp only [answered, History.received, World.queues_enqueue]
    split
    · rw [← List.append_assoc, List.filterMap_append]
      exact List.append_nil _
    · rfl
  | load _ | iterate _ =>
    obtain rfl := Except.ok.inj hw'
    exact h.same hrings rfl (fun _ => .refl _) rfl rfl

theorem conserved_of_reached (size : Nat) (malloc : Nat → Nat) (heap : σ)
    (h : Reached (step P) (fun _ _ => True) { history := { world := { size, malloc, heap } } } s) :
    s.Conserved := by
  refine h.invariant (I := Conserved) ?_ fun s a s' hs _ hstep => hs.step hstep
  refine ⟨⟨[], World.start_timerInv size malloc heap⟩, fun ha => absurd rfl ha, fun t => ?_⟩
  exact List.Perm.refl _

/-- In every run, each attachment is in one place of one ring, and the completions that `process_uring`
reads have theirs. -/
theorem completions_readable (P : Program V σ) (size : Nat) (malloc : Nat → Nat) (heap : σ)
    (s : RequestHistory V σ)
    (h : Reached (step P) (fun _ _ => True) { history := { world := { size, malloc, heap } } } s) :
    s.history.world.RingsHeld ∧ ∀ t, ∃ w', s.history.world.processUring t = .ok w' := by
  have hrings := (conserved_of_reached size malloc heap h).ringsHeld
  exact ⟨hrings, hrings.processUring_returns⟩

/-- Two alarms are started, and the request of the second is completed. -/
def twoAlarms : List (World.Action World.alarmVocabulary) :=
  [.root () (), .root () ()] ++ .replicate 6 (.dequeue 0) ++ [.complete 0 2 4, .uring 0]

/-- A completion that `process_uring` has not read. -/
theorem alarm_readable : ∃ s, Reached (step World.alarm) (fun _ _ => True)
      { history := { world := World.alarm₀.world } } s ∧
    (s.history.world.threads 0).ring.cq = [(0, 4)] ∧
    s.history.world.RingsHeld ∧ ∀ t, ∃ w', s.history.world.processUring t = .ok w' := by
  have hcq : (runActions (step World.alarm) ((World.alarmActions false).take 5)
      { history := { world := World.alarm₀.world } }).map
        (fun s => (s.history.world.threads 0).ring.cq) = .ok [(0, 4)] := by
    decide +kernel
  obtain ⟨s, hrun, hcq⟩ := exists_of_map_eq_ok hcq
  have hreached := reached_of_runActions .start (meets_true _ _) hrun
  exact ⟨s, hreached, hcq, completions_readable World.alarm 1 id () s hreached⟩

end RequestHistory

end LocalSoftware
