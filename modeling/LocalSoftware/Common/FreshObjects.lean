import LocalSoftware.Common.History
import LocalSoftware.Common.Presence
import LocalSoftware.Library.Tickets

/-!
# Objects are constructed once

On any number of threads, the identifier of an object waits in one queue, in the `RootStart` or in the
`ConstructorCall` for it, until its constructor is called.
-/

set_option autoImplicit false

namespace LocalSoftware

variable {V : Vocabulary} {σ : Type}

/-- The object that is constructed after a message. -/
def EventVariant.comingId : EventVariant V → Option Id
  | .constructorCall c => some c.ti.objId
  | .rootStart r => some r.ti.objId
  | _ => none

namespace World

variable {w w' : World V σ} {t ctx : Nat} {ti : TargetInfo} {es : EventState V} {P : Program V σ}
  {m : EventVariant V} {rest : List (EventVariant V)} {known : List Id}

/-- The objects that a thread will construct. -/
def coming (w : World V σ) (t : Nat) : List Id := (w.queues t).filterMap EventVariant.comingId

/-- The objects that were constructed, and those that will be, are different ones. -/
def Fresh (known : List Id) (w : World V σ) : Prop := Tickets (Taken w.objIds) w.coming known

theorem coming_enqueue (w : World V σ) (t t' : Nat) (m : EventVariant V) :
    (w.enqueue t m).coming t' =
      if t' = t then w.coming t' ++ m.comingId.toList else w.coming t' := by
  rw [coming, queues_enqueue]
  split
  · rw [List.filterMap_append]
    cases hm : m.comingId <;> simp [coming, hm]
  · rfl

namespace Fresh

theorem congr (h : Fresh known w) (hcoming : w'.coming = w.coming) (hids : w'.objIds = w.objIds) :
    Fresh known w' := by
  unfold Fresh
  rw [hcoming, hids]
  exact h

theorem same (h : Fresh known w) (hqueues : w'.queues = w.queues) (hids : w'.objIds = w.objIds) :
    Fresh known w' := by
  refine h.congr ?_ hids
  funext t
  rw [coming, hqueues]
  rfl

/-- A message that constructs nothing is sent. -/
theorem send (h : Fresh known w) {t : Nat} (hm : m.comingId = none)
    (hqueues : ∀ t', w'.queues t' = if t' = t then w.queues t' ++ [m] else w.queues t')
    (hids : w'.objIds = w.objIds) : Fresh known w' := by
  refine h.congr ?_ hids
  funext t'
  rw [coming, hqueues]
  split
  · rw [List.filterMap_append, List.filterMap_cons, hm]
    exact List.append_nil _
  · rfl

theorem enqueue (h : Fresh known w) (t : Nat) (hm : m.comingId = none) :
    Fresh known (w.enqueue t m) := h.send hm (fun t' => queues_enqueue w t t' m) rfl

theorem push (h : Fresh known w) (t : Nat) {x : Id} (hm : m.comingId = some x)
    (hx : Free (Taken w.objIds) w.coming known x) : Fresh known (w.enqueue t m) :=
  Tickets.push h hx fun t' => by
    rw [coming_enqueue, hm]
    rfl

/-- A new identifier is that of no other object. -/
theorem draw (h : Fresh known w) (t : ThreadId) :
    Fresh known { w with objIds := (getId w.objIds t).2 } ∧
      Free (Taken (getId w.objIds t).2) w.coming known (getId w.objIds t).1 :=
  ⟨h.mono fun _ hid => (taken_getId ..).mpr (Or.inl hid),
    h.free_of_not_issued (not_taken_getId w.objIds t) ((taken_getId ..).mpr (Or.inr rfl))⟩

/-- Updates of `process_queued` construct new objects only. -/
theorem queued (h : Fresh known w) (hq : Queued t ctx ti es w w') : Fresh known w' := by
  rcases hq.essential with hsame | hessential
  · exact h.same hsame.queues hsame.objIds
  · cases hessential with
    | child q runThread _ =>
      obtain ⟨hdraw, hfree⟩ := h.draw (some t)
      refine push (hdraw.same ?_ ?_) t rfl hfree <;> rfl
    | call q info locator target _ _ _ _ _ =>
      obtain ⟨f, -, -, hqueues⟩ := message_addCall w t ctx ti q locator.objectId target
      exact h.send (m := .functionCall f) rfl hqueues rfl
    | delete q thread _ _ _ => exact h.enqueue thread rfl
    | dropChild q _ => exact h.same rfl rfl

theorem processQueued (h : Fresh known w) (hqueued : w.processQueued t ctx ti es = .ok w') :
    Fresh known w' :=
  transGen_invariant (processQueued_queued hqueued) h fun _ _ h hq => h.queued hq

/-- A message is taken from a queue. -/
theorem pop (h : Fresh known w) (hq : w.queues t = m :: rest) : Fresh known (w.pop t rest) ∧
    ∀ x ∈ m.comingId, Free (Taken w.objIds) (w.pop t rest).coming known x := by
  have hcoming : ∀ t', (w.pop t rest).coming t' =
      if t' = t then rest.filterMap EventVariant.comingId else w.coming t' := by
    intro t'
    rw [coming, queues_pop]
    split <;> rfl
  cases hm : m.comingId with
  | none =>
    refine ⟨?_, fun x hx => absurd hx (Option.not_mem_none x)⟩
    have hsame : (w.pop t rest).coming = w.coming := by
      funext t'
      rw [hcoming]
      split
      · rename_i ht
        rw [ht, coming, hq, List.filterMap_cons, hm]
      · rfl
    unfold Fresh
    rw [hsame]
    exact h
  | some x =>
    have hhead : w.coming t = x :: rest.filterMap EventVariant.comingId := by
      rw [coming, hq, List.filterMap_cons, hm]
    obtain ⟨hpop, hfree⟩ := Tickets.pop h hhead hcoming
    refine ⟨hpop, fun y hy => ?_⟩
    obtain rfl := Option.some.inj hy
    exact hfree

theorem respond {f : FunctionCall V} {resp : CallResponse} (h : Fresh known w)
    (hrespond : w.respond t f resp = .ok w') : Fresh known w' := by
  obtain ⟨d, -, -, ⟨-, rfl⟩ | ⟨failed, code, -, ⟨-, rfl⟩ | ⟨t', -, -, rfl⟩⟩⟩ :=
    respond_cases hrespond
  · exact h.same rfl rfl
  · exact h.same rfl rfl
  · refine enqueue (h.same ?_ ?_) t' rfl <;> rfl

theorem report {y : Yielded} (h : Fresh known w) (hreport : w.report t ti y = .ok w') :
    Fresh known w' := by
  obtain ⟨-, rfl⟩ | ⟨failed, code, t', -, -, -, rfl⟩ := report_cases hreport
  · exact h
  · refine enqueue (h.same ?_ ?_) t' rfl <;> rfl

theorem forward (h : Fresh known w) (d : Data) (attachers : List (Id × Id)) :
    Fresh known (w.forward t d attachers) :=
  forward_invariant (I := Fresh known) h fun _ _ _ h => h.enqueue t rfl

/-- A message is handled; an object that it constructs was not constructed before. -/
theorem handled (h : Fresh known w) (hq : w.queues t = m :: rest) (hw : Handled P t w w') :
    Fresh (known ++ m.builtId.toList) w' ∧ ∀ x ∈ m.builtId, x ∉ known := by
  obtain ⟨hpop, hfree⟩ := h.pop hq
  have hknown : known ++ ([] : List Id) = known := List.append_nil known
  cases hw with
  | idle hnil => cases hnil.symm.trans hq
  | @constructed c rest' ctx w₁ w₂ w₃ heap es hq' htake hrun hslot hnew hqueued =>
    obtain ⟨rfl, rfl⟩ := List.cons.inj (hq'.symm.trans hq)
    have hsame := filled_same htake hslot
    have hfilled := same (hpop.use (hfree _ rfl)) hsame.queues hsame.objIds
    have hran : Fresh (known ++ [c.ti.objId]) w₃ := by
      refine processQueued (same hfilled ?_ ?_) hqueued <;> rfl
    exact ⟨hran.same rfl rfl, fun x hx => (hfree x hx).unused⟩
  | reconstructed hq' htake hrun hslot hold =>
    obtain ⟨rfl, rfl⟩ := List.cons.inj (hq'.symm.trans hq)
    have hsame := filled_same htake hslot
    have hfilled := same (hpop.use (hfree _ rfl)) hsame.queues hsame.objIds
    exact ⟨hfilled.same rfl rfl, fun x hx => (hfree x hx).unused⟩
  | @called _ _ _ _ _ _ _ w₂ _ hq' ho hptr hrun hqueued hrespond =>
    obtain ⟨rfl, rfl⟩ := List.cons.inj (hq'.symm.trans hq)
    have hran : Fresh known w₂ := by
      refine processQueued (hpop.same ?_ ?_) hqueued <;> rfl
    exact ⟨hknown.symm ▸ (hran.respond hrespond).same rfl rfl, fun x hx => nomatch hx⟩
  | @delivered _ _ _ _ _ _ _ _ w₂ _ hq' ho hd hptr hrun hqueued hreport =>
    obtain ⟨rfl, rfl⟩ := List.cons.inj (hq'.symm.trans hq)
    have hran : Fresh known w₂ := by
      refine processQueued (hpop.same ?_ ?_) hqueued <;> rfl
    exact ⟨hknown.symm ▸ ((hran.report hreport).forward _ _).same rfl rfl, fun x hx => nomatch hx⟩
  | dropped hq' hmissing =>
    obtain ⟨rfl, rfl⟩ := List.cons.inj (hq'.symm.trans hq)
    exact ⟨hknown.symm ▸ hpop.same rfl rfl, fun x hx => nomatch hx⟩
  | deleted hq' hchildren =>
    obtain ⟨rfl, rfl⟩ := List.cons.inj (hq'.symm.trans hq)
    have hpushed := deleteChildren_invariant (I := Fresh known) hchildren hpop
      fun w child _ h _ => h.enqueue child.2.thread rfl
    exact ⟨hknown.symm ▸ hpushed.same rfl rfl, fun x hx => nomatch hx⟩
  | @root r rest hq' =>
    obtain ⟨rfl, rfl⟩ := List.cons.inj (hq'.symm.trans hq)
    -- the identifier goes from the root to its construction
    have hpushed : Fresh known ((w.pop t rest).rootReceived t r) := by
      refine enqueue (push hpop t ?_ (hfree r.ti.objId rfl)) t ?_ <;> rfl
    exact ⟨hknown.symm ▸ hpushed.same rfl rfl, fun x hx => nomatch hx⟩

/-- A step that takes no message. -/
theorem other {a : Action V} (h : Fresh known w) (ha : ∀ t, a ≠ .dequeue t)
    (hstep : w.step P a = .ok w') : Fresh known w' := by
  rcases step_other hstep ha with ⟨t, -, huring⟩ | ⟨t, hsame, -⟩ | ⟨constructor, init, hroot⟩
  · exact processUring_core huring h (fun _ _ hsame h => h.same hsame.queues hsame.objIds)
      fun w o p d _ h => h.enqueue t rfl
  · exact h.same hsame.queues hsame.objIds
  · obtain ⟨-, rfl⟩ := initializeRootEvent_eq hroot
    obtain ⟨hdraw, hfree⟩ := h.draw none
    refine push (hdraw.same ?_ ?_) 0 rfl hfree <;> rfl

end Fresh

end World

end LocalSoftware
