import LocalSoftware.Common.CallTargets
import Mathlib.Data.List.Perm.Basic

/-!
# The keys of timer requests

A timeout is removed or updated by the address of its attachment, which the table of timers keeps.
`process_uring` frees the attachment when it reads the completion of the timeout, and the entry stays
in the table until the completion of a removal is read. `TimerHistory` is the runtime with the timers
whose completion was read, and `key_names_timer_iff` says for every key that `process_queued_timers`
uses that it names the timeout of its timer just if that completion was not read.
-/

set_option autoImplicit false

namespace LocalSoftware

variable {V : Vocabulary} {σ : Type}

/-- The address by which a request names a timeout. -/
def Prep.key : Prep V → Option Nat
  | .timeoutRemove target => some target
  | .timeoutUpdate _ target => some target
  | _ => none

/-- The timer whose timeout has this attachment. -/
def IoUringAttached.timerId : IoUringAttached → Option Id
  | .timer id _ _ => some id
  | _ => none

namespace Ring

/-- The requests that have no completion. -/
def requests (r : Ring V) : List (Submission V) := r.inflight ++ r.sq

/-- The attachments of the requests whose completion was not read. -/
def addresses (r : Ring V) : List Nat := r.cq.map (·.1) ++ r.requests.map (·.userData)

variable (r : Ring V)

theorem requests_submit :
    ({ r with sq := [], inflight := r.inflight ++ r.sq } : Ring V).requests = r.requests :=
  List.append_nil _

theorem addresses_submit :
    ({ r with sq := [], inflight := r.inflight ++ r.sq } : Ring V).addresses = r.addresses := by
  unfold addresses
  rw [requests_submit]

theorem addresses_prepare (s : Submission V) :
    ({ r with sq := r.sq ++ [s] } : Ring V).addresses = r.addresses ++ [s.userData] := by
  simp only [addresses, requests, List.map_append, List.map_cons, List.map_nil, List.append_assoc]

theorem mem_addresses {r : Ring V} {s : Submission V} (h : s ∈ r.requests) :
    s.userData ∈ r.addresses :=
  List.mem_append_right _ (List.mem_map_of_mem h)

/-- A completed request keeps its attachment. -/
theorem addresses_complete {k : Nat} {s : Submission V} (res : Int) (h : r.inflight[k]? = some s) :
    (({ r with inflight := r.inflight.eraseIdx k, cq := r.cq ++ [(s.userData, res)] } :
      Ring V).addresses).Perm r.addresses := by
  obtain ⟨hk, hs⟩ := List.getElem?_eq_some_iff.mp h
  have hperm : (s :: r.inflight.eraseIdx k).Perm r.inflight := by
    rw [← hs]
    exact List.getElem_cons_eraseIdx_perm hk
  have hmap := (hperm.append_right r.sq).map (·.userData)
  show ((r.cq ++ [(s.userData, res)]).map (·.1) ++
    (r.inflight.eraseIdx k ++ r.sq).map (·.userData)).Perm _
  rw [List.map_append, List.append_assoc]
  exact hmap.append_left (r.cq.map (·.1))

end Ring

namespace World

/-- `key` is the attachment of the timeout of the timer `id`, and of no other request; the
completion of this timeout was not read. -/
structure NamesTimer (w : World V σ) (t : Nat) (id : Id) (key : Nat) : Prop where
  attached : ∃ objId procId, w.attached key = some (.timer id objId procId)
  once : (w.threads t).ring.addresses.count key = 1
  others : ∀ t', t' ≠ t → key ∉ (w.threads t').ring.addresses
  timeout : ∀ r ∈ (w.threads t).ring.requests, r.userData = key → ∃ ts, r.prep = .timeout ts

/-- The timers whose completion `process_uring` reads. -/
def expiring (w : World V σ) (t : Nat) : List Id :=
  (w.threads t).ring.cq.filterMap fun cqe => (w.attached cqe.1).bind (·.timerId)

/-- In the handling of the message at the head of a queue, `process_queued_timers` comes to an entry
for the timer `id` and prepares the request `r`. -/
inductive PreparesTimer (P : Program V σ) (t : Nat) (w₀ : World V σ) (id : Id) (r : Submission V)
    (w' : World V σ) : Prop where
  | intro {ctx : Nat} {ti : TargetInfo} {tr : Traced V} {w w₁ w₂ w₃ w₄ : World V σ}
      {before after : List EventQueuedTimer} {q : EventQueuedTimer}
      (ht : t < w₀.size) (hrun : HandlerRun P t w₀ ctx ti tr w)
      (hconstruct : each (queuedConstruct t ctx ti) tr.state.construct w = .ok w₁)
      (hfunction : each (queuedFunction t ctx ti) tr.state.function w₁ = .ok w₂)
      (huring : each (queuedUring t ti) tr.state.uring w₂ = .ok w₃)
      (hentries : tr.state.timer = before ++ q :: after)
      (hbefore : each (queuedTimer t ctx ti) before w₃ = .ok w₄)
      (hid : (w₄.contexts ctx).translateTimLocal q.localId = id)
      (htimer : w₄.queuedTimer t ctx ti q = .ok w')
      (hsq : (w'.threads t).ring.sq = (w₄.threads t).ring.sq ++ [r])

end World

/-- The runtime with a history variable: the timers whose completion was read. -/
structure TimerHistory (V : Vocabulary) (σ : Type) where
  world : World V σ
  fired : List Id := []

namespace TimerHistory

/-- The timers whose completion was read after an action. -/
def fire (s : TimerHistory V σ) : World.Action V → List Id
  | .uring t => if t < s.world.size then s.fired ++ s.world.expiring t else s.fired
  | _ => s.fired

/-- A step of the runtime. -/
def step (P : Program V σ) (s : TimerHistory V σ) (a : World.Action V) :
    Except Fault (TimerHistory V σ) :=
  (s.world.step P a).map fun world => { world, fired := s.fire a }

end TimerHistory

namespace World

variable {w w' w'' : World V σ} {t ctx : Nat} {ti : TargetInfo} {es : EventState V}
  {P : Program V σ} {fired : List Id}

/-! ## What has no part in the timers -/

/-- The timers, the attachments and the pending requests are the same, up to their places in the
rings. -/
structure SameTimers (w w' : World V σ) : Prop where
  attached : w'.attached = w.attached
  timIds : w'.timIds = w.timIds
  timers : ∀ t, (w'.threads t).timers = (w.threads t).timers
  requests : ∀ t, (w'.threads t).ring.requests ⊆ (w.threads t).ring.requests
  addresses : ∀ t, ((w'.threads t).ring.addresses).Perm (w.threads t).ring.addresses

namespace SameTimers

theorem refl (w : World V σ) : SameTimers w w where
  attached := rfl
  timIds := rfl
  timers _ := rfl
  requests _ := List.Subset.refl _
  addresses _ := List.Perm.refl _

theorem trans (h : SameTimers w w') (h' : SameTimers w' w'') : SameTimers w w'' where
  attached := h'.attached.trans h.attached
  timIds := h'.timIds.trans h.timIds
  timers t := (h'.timers t).trans (h.timers t)
  requests t := List.Subset.trans (h'.requests t) (h.requests t)
  addresses t := (h'.addresses t).trans (h.addresses t)

/-- Another ring of one thread, with the same pending requests. -/
theorem setRing (h : SameTimers w w') {td : ThreadData V}
    (htimers : td.timers = (w'.threads t).timers)
    (hrequests : td.ring.requests ⊆ (w'.threads t).ring.requests)
    (haddresses : (td.ring.addresses).Perm (w'.threads t).ring.addresses) :
    SameTimers w (w'.setThread t td) := by
  refine h.trans ⟨rfl, rfl, fun t' => ?_, fun t' => ?_, fun t' => ?_⟩
  · exact proj_setThread w' t t' td (·.timers) htimers
  · rw [threads_setThread]
    split
    · rename_i ht
      rw [ht]
      exact hrequests
    · exact List.Subset.refl _
  · rw [threads_setThread]
    split
    · rename_i ht
      rw [ht]
      exact haddresses
    · exact List.Perm.refl _

/-- Other tables of one thread. -/
theorem setThread (h : SameTimers w w') {td : ThreadData V}
    (htimers : td.timers = (w'.threads t).timers) (hring : td.ring = (w'.threads t).ring) :
    SameTimers w (w'.setThread t td) := by
  refine h.setRing htimers ?_ ?_
  · rw [hring]
    exact List.Subset.refl _
  · rw [hring]

theorem note (h : SameTimers w w') (n : Note) : SameTimers w (w'.note n) := { h with }

theorem enqueue (h : SameTimers w w') (t : Nat) (m : EventVariant V) :
    SameTimers w (w'.enqueue t m) := { h with }

/-- The requests are submitted. -/
theorem submit (h : SameTimers w w') (t : Nat) : SameTimers w (w'.submit t) := by
  refine h.setRing rfl ?_ ?_
  · exact (List.Perm.of_eq (Ring.requests_submit _)).subset
  · exact .of_eq (Ring.addresses_submit _)

/-- A request is completed. -/
theorem complete (h : SameTimers w w') (t k : Nat) (res : Int) :
    SameTimers w (w'.complete t k res) := by
  simp only [World.complete]
  split
  · exact h
  · rename_i r hr
    refine h.setRing rfl ?_ (Ring.addresses_complete _ res hr)
    exact List.append_subset.mpr ⟨fun s hs => List.mem_append_left _
      (List.mem_of_mem_eraseIdx hs), List.subset_append_right _ _⟩

end SameTimers

theorem pop_sameTimers (w : World V σ) (t : Nat) (rest : List (EventVariant V)) :
    SameTimers w (w.pop t rest) := { SameTimers.refl w with }

theorem afterHandler_sameTimers (w : World V σ) (ctx : Nat) (es : EventState V) (heap : σ) :
    SameTimers w (w.afterHandler ctx es heap) := { SameTimers.refl w with }

theorem takeContext_sameTimers {shared : Option Nat} (h : w.takeContext shared = (ctx, w')) :
    SameTimers w w' := by
  obtain ⟨contexts, nextContext, rfl⟩ := takeContext_eq h
  exact { SameTimers.refl w with }

theorem fillSlot_sameTimers {slot : Option (Id × V.TypeIndex × Nat)} {id : Id}
    (h : w.fillSlot t slot id = .ok w') : SameTimers w w' := by
  obtain ⟨contexts, rfl⟩ := fillSlot_eq h
  exact { SameTimers.refl w with }

theorem enter_sameTimers (w : World V σ) (t : Nat) (f : FunctionCall V) (o : ObjectDataThreaded) :
    SameTimers w (w.enter t f o) :=
  ((SameTimers.refl w).setThread (by rfl) (by rfl)).note _

/-- A constructor ran, before its object is entered. -/
theorem constructed_sameTimers {rest : List (EventVariant V)} {shared : Option Nat}
    {slot : Option (Id × V.TypeIndex × Nat)} {id : Id} {heap : σ} {w₁ w₂ : World V σ}
    (htake : (w.pop t rest).takeContext shared = (ctx, w₁))
    (hslot : (w₁.afterHandler ctx es heap).fillSlot t slot id = .ok w₂) : SameTimers w w₂ :=
  ((pop_sameTimers w t rest).trans (takeContext_sameTimers htake)).trans
    ((afterHandler_sameTimers w₁ ctx es heap).trans (fillSlot_sameTimers hslot))

/-- A function ran, before what it queued is processed. -/
theorem called_sameTimers (w : World V σ) (t ctx : Nat) (rest : List (EventVariant V))
    (f : FunctionCall V) (o : ObjectDataThreaded) (es : EventState V) (heap : σ) :
    SameTimers w (((w.pop t rest).enter t f o).afterHandler ctx es heap) :=
  ((pop_sameTimers w t rest).trans (enter_sameTimers _ t f o)).trans
    (afterHandler_sameTimers _ ctx es heap)

/-- `on_yield` ran, before what it queued is processed. -/
theorem delivered_sameTimers (w : World V σ) (t ctx : Nat) (rest : List (EventVariant V)) (n : Note)
    (es : EventState V) (heap : σ) :
    SameTimers w (((w.pop t rest).note n).afterHandler ctx es heap) :=
  ((pop_sameTimers w t rest).note n).trans (afterHandler_sameTimers _ ctx es heap)

theorem respond_sameTimers {f : FunctionCall V} {resp : CallResponse}
    (h : w.respond t f resp = .ok w') : SameTimers w w' := by
  obtain ⟨d, -, -, ⟨-, rfl⟩ | ⟨failed, code, -, ⟨-, rfl⟩ | ⟨t', -, -, rfl⟩⟩⟩ := respond_cases h
  · exact (SameTimers.refl w).setThread rfl rfl
  · exact ((SameTimers.refl w).setThread (by rfl) (by rfl)).note _
  · exact (((SameTimers.refl w).setThread (by rfl) (by rfl)).note _).enqueue _ _

theorem report_sameTimers {y : Yielded} (h : w.report t ti y = .ok w') : SameTimers w w' := by
  obtain ⟨-, rfl⟩ | ⟨failed, code, t', -, -, -, rfl⟩ := report_cases h
  · exact .refl _
  · exact (((SameTimers.refl w).setThread (by rfl) (by rfl)).note _).enqueue _ _

theorem forward_sameTimers (w : World V σ) (t : Nat) (d : Data) (attachers : List (Id × Id)) :
    SameTimers w (w.forward t d attachers) :=
  forward_invariant (I := SameTimers w) (.refl w) fun _ _ _ h => h.enqueue _ _

theorem deleteChildren_sameTimers {ci : CallerInfo} {children : List (Id × ChildObjectInfo)}
    (h : w.deleteChildren ci children = .ok w') : SameTimers w w' :=
  deleteChildren_invariant (I := SameTimers w) h (.refl w) fun _ _ _ h _ => h.enqueue _ _

theorem erase_sameTimers (P : Program V σ) (w : World V σ) (t : Nat) (id : Id) :
    SameTimers w (w.erase P t id) := by
  have hheap : SameTimers w { w with
      heap := if ((w.threads t).object id).ptr.isSome then P.destroy id w.heap else w.heap } :=
    { SameTimers.refl w with }
  exact (hheap.setThread (by rfl) (by rfl)).note _

theorem addChild_sameTimers (w : World V σ) (t ctx : Nat) (ti : TargetInfo)
    (q : EventQueuedConstruct V) (runThread : Nat) :
    SameTimers w (w.addChild t ctx ti q runThread) := by
  have hids : SameTimers w ({ w with objIds := (getId w.objIds (some t)).2 }.setContext ctx
      ((w.contexts ctx).setLocator q.idx q.vidx
        { objectId := (getId w.objIds (some t)).1, threadId := [runThread] })) :=
    { SameTimers.refl w with }
  exact (hids.setThread (by rfl) (by rfl)).enqueue _ _

theorem addCall_sameTimers (w : World V σ) (t ctx : Nat) (ti : TargetInfo)
    (q : EventQueuedFunction V) (objectId : Id) (target : Nat) :
    SameTimers w (w.addCall t ctx ti q objectId target) := by
  have hids : SameTimers w { w with procIds := (getId w.procIds (some t)).2 } :=
    { SameTimers.refl w with }
  exact { hids.setThread (by rfl) (by rfl) with }

theorem timers_addRequest (w : World V σ) (t t' : Nat) (prep : Prep V) (a : IoUringAttached) :
    ((w.addRequest t prep a).threads t').timers = (w.threads t').timers :=
  proj_setThread { w with
    mallocs := w.mallocs + 1
    attached := Function.update w.attached (w.malloc w.mallocs) (some a) } t t' _ (·.timers) rfl

/-- Only the entries for timers change their table. -/
theorem Queued.timers_eq (h : Queued t ctx ti es w w') (htimer : es.timer = []) (t' : Nat) :
    (w'.threads t').timers = (w.threads t').timers := by
  cases h with
  | decision => rfl
  | child q runThread _ => exact (addChild_sameTimers w t ctx ti q runThread).timers t'
  | call q info locator target _ _ _ _ _ =>
    exact (addCall_sameTimers w t ctx ti q locator.objectId target).timers t'
  | uring q _ _ => exact timers_addRequest w t t' _ _
  | removeTimer q data hq _ _ => exact absurd (htimer ▸ hq) List.not_mem_nil
  | updateTimer q data hq _ _ _ => exact absurd (htimer ▸ hq) List.not_mem_nil
  | addTimer q hq _ _ => exact absurd (htimer ▸ hq) List.not_mem_nil
  | delete q thread _ _ _ => rfl
  | dropChild q _ => exact proj_setThread w t t' _ (·.timers) rfl
  | attach q _ => exact proj_setThread w t t' _ (·.timers) rfl

/-! ## The invariant -/

/-- Pending requests have attachments of their own, the attachment of a timeout names a timer that
has not fired, and the entry of a timer that has not fired keeps the attachment of its timeout. -/
structure TimerInv (fired : List Id) (w : World V σ) : Prop where
  nodup : ∀ t, (w.threads t).ring.addresses.Nodup
  apart : ∀ {t t' a}, a ∈ (w.threads t).ring.addresses → a ∈ (w.threads t').ring.addresses → t = t'
  held : ∀ {t a}, a ∈ (w.threads t).ring.addresses → w.attached a ≠ none
  timeouts : ∀ {t r id objId procId}, r ∈ (w.threads t).ring.requests →
    w.attached r.userData = some (.timer id objId procId) → ∃ ts, r.prep = .timeout ts
  unread : ∀ {a id objId procId}, w.attached a = some (.timer id objId procId) →
    Taken w.timIds id ∧ id ∉ fired
  single : ∀ {a a' id objId procId objId' procId'}, w.attached a = some (.timer id objId procId) →
    w.attached a' = some (.timer id objId' procId') → a = a'
  taken : ∀ {id}, id ∈ fired → Taken w.timIds id
  entries : ∀ {t id data}, (w.threads t).timers id = some data → id ∉ fired →
    (∃ objId procId, w.attached data.ptr = some (.timer id objId procId)) ∧
      data.ptr ∈ (w.threads t).ring.addresses

theorem requests_addRequest (w : World V σ) (t t' : Nat) (prep : Prep V) (a : IoUringAttached) :
    ((w.addRequest t prep a).threads t').ring.requests = if t' = t then
      (w.threads t').ring.requests ++ [⟨prep, w.malloc w.mallocs⟩]
      else (w.threads t').ring.requests := by
  simp only [addRequest, prepare, threads_setThread]
  split
  · rename_i ht
    rw [ht]
    exact (List.append_assoc ..).symm
  · rfl

theorem addresses_addRequest (w : World V σ) (t t' : Nat) (prep : Prep V) (a : IoUringAttached) :
    ((w.addRequest t prep a).threads t').ring.addresses = if t' = t then
      (w.threads t').ring.addresses ++ [w.malloc w.mallocs]
      else (w.threads t').ring.addresses := by
  simp only [addRequest, prepare, threads_setThread]
  split
  · rename_i ht
    rw [ht]
    exact Ring.addresses_prepare _ _
  · rfl

/-- The table of timers of a thread is not touched by a request. -/
theorem setTimers_addRequest (w : World V σ) (t : Nat) (timers : Id → Option TimerData)
    (prep : Prep V) (a : IoUringAttached) :
    (w.setThread t { w.threads t with timers }).addRequest t prep a =
      (w.addRequest t prep a).setThread t { (w.addRequest t prep a).threads t with timers } := by
  simp only [addRequest, prepare, setThread, Function.update_self, Function.update_idem]

theorem addTimer_eq (w : World V σ) (t ctx : Nat) (ti : TargetInfo) (q : EventQueuedTimer) :
    w.addTimer t ctx ti q =
      let id := (getId w.timIds (some t)).1
      let w₁ := ({ w with timIds := (getId w.timIds (some t)).2 }.setContext ctx
        ((w.contexts ctx).globalToLocalTim id q.localId)).addRequest t (.timeout q.time)
          (.timer id ti.objId ti.procId)
      (w₁.setThread t { w₁.threads t with
        timers := Function.update (w.threads t).timers id
          (some { ptr := w.malloc w.mallocs, objId := ti.objId, ts := q.time }) }).noteTimer
            t ti q id :=
  congrArg (fun w₁ => noteTimer t ti w₁ q (getId w.timIds (some t)).1)
    (setTimers_addRequest ({ w with timIds := (getId w.timIds (some t)).2 }.setContext ctx
      ((w.contexts ctx).globalToLocalTim (getId w.timIds (some t)).1 q.localId)) t _ _ _)

theorem mem_addresses_addRequest {prep : Prep V} {a : IoUringAttached} {t' address : Nat}
    (h : address ∈ ((w.addRequest t prep a).threads t').ring.addresses) :
    address ∈ (w.threads t').ring.addresses ∨ (t' = t ∧ address = w.malloc w.mallocs) := by
  rw [addresses_addRequest] at h
  split at h
  · rename_i ht
    rcases List.mem_append.mp h with h | h
    · exact Or.inl h
    · exact Or.inr ⟨ht, List.mem_singleton.mp h⟩
  · exact Or.inl h

namespace TimerInv

/-- The key of a timer that has not fired names it, and no other key does. -/
theorem namesTimer_iff (h : TimerInv fired w) {id : Id} {data : TimerData}
    (hdata : (w.threads t).timers id = some data) : w.NamesTimer t id data.ptr ↔ id ∉ fired := by
  constructor
  -- the attachment of a timeout is freed when its completion is read
  · rintro ⟨⟨objId, procId, hattached⟩, -, -, -⟩
    exact (h.unread hattached).2
  · intro hid
    obtain ⟨⟨objId, procId, hattached⟩, hmem⟩ := h.entries hdata hid
    refine ⟨⟨objId, procId, hattached⟩, List.count_eq_one_of_mem (h.nodup t) hmem, ?_, ?_⟩
    · intro t' ht' hmem'
      exact ht' (h.apart hmem' hmem)
    · intro r hr huser
      exact h.timeouts hr (huser ▸ hattached)

theorem same (h : TimerInv fired w) (hs : SameTimers w w') : TimerInv fired w' where
  nodup t := (hs.addresses t).nodup_iff.mpr (h.nodup t)
  apart ha ha' := h.apart ((hs.addresses _).mem_iff.mp ha) ((hs.addresses _).mem_iff.mp ha')
  held ha := by
    rw [hs.attached]
    exact h.held ((hs.addresses _).mem_iff.mp ha)
  timeouts hr ha := h.timeouts (hs.requests _ hr) (hs.attached ▸ ha)
  unread ha := by
    rw [hs.timIds]
    exact h.unread (hs.attached ▸ ha)
  single ha ha' := h.single (hs.attached ▸ ha) (hs.attached ▸ ha')
  taken hid := by
    rw [hs.timIds]
    exact h.taken hid
  entries hdata hid := by
    rw [hs.attached, (hs.addresses _).mem_iff]
    exact h.entries (hs.timers _ ▸ hdata) hid

/-- An identifier is drawn. -/
theorem draw (h : TimerInv fired w) (t : ThreadId) :
    TimerInv fired { w with timIds := (getId w.timIds t).2 } where
  nodup := h.nodup
  apart := h.apart
  held := h.held
  timeouts := h.timeouts
  unread ha := ⟨(taken_getId ..).mpr (Or.inl (h.unread ha).1), (h.unread ha).2⟩
  single := h.single
  taken hid := (taken_getId ..).mpr (Or.inl (h.taken hid))
  entries := h.entries

/-- Entries are changed or removed; those that stay keep the attachment of their timeout. -/
theorem setTimers (h : TimerInv fired w) (t : Nat) (timers : Id → Option TimerData)
    (hentries : ∀ id data, timers id = some data → id ∉ fired →
      (∃ objId procId, w.attached data.ptr = some (.timer id objId procId)) ∧
        data.ptr ∈ (w.threads t).ring.addresses) :
    TimerInv fired (w.setThread t { w.threads t with timers }) := by
  have hring : ∀ t', ((w.setThread t { w.threads t with timers }).threads t').ring =
      (w.threads t').ring := fun t' => proj_setThread w t t' _ (·.ring) rfl
  -- the rings and attachments are as before, so only `entries` is at stake
  refine ⟨fun t' => ?_, fun ha ha' => ?_, fun ha => ?_, fun hr ha => ?_, h.unread, h.single, h.taken,
    fun {t' id data} hdata hid => ?_⟩
  · rw [hring]
    exact h.nodup t'
  · rw [hring] at ha ha'
    exact h.apart ha ha'
  · rw [hring] at ha
    exact h.held ha
  · rw [hring] at hr
    exact h.timeouts hr ha
  · rw [hring]
    rw [threads_setThread] at hdata
    split at hdata
    · rename_i ht
      rw [ht]
      exact hentries id data hdata hid
    · exact h.entries hdata hid

/-- A request is prepared. Its attachment is new memory; if it is a timeout, its timer is new. -/
theorem addRequest (h : TimerInv fired w) {prep : Prep V} {a : IoUringAttached}
    (hfree : w.attached (w.malloc w.mallocs) = none)
    (hnew : ∀ {id objId procId}, a = .timer id objId procId → (∃ ts, prep = .timeout ts) ∧
      (Taken w.timIds id ∧ id ∉ fired) ∧ ∀ a' o p, w.attached a' ≠ some (.timer id o p)) :
    TimerInv fired (w.addRequest t prep a) := by
  -- what is attached already is not at the new address
  have hold : ∀ {a'}, w.attached a' ≠ none → (w.addRequest t prep a).attached a' = w.attached a' := by
    intro a' ha'
    have hne : a' ≠ w.malloc w.mallocs := fun heq => ha' (heq ▸ hfree)
    exact Function.update_of_ne hne ..
  have hself : (w.addRequest t prep a).attached (w.malloc w.mallocs) = some a :=
    Function.update_self ..
  -- an attachment of a timeout is an old one, or the new one
  have htimer : ∀ {a' id o p}, (w.addRequest t prep a).attached a' = some (.timer id o p) →
      w.attached a' = some (.timer id o p) ∨ (a' = w.malloc w.mallocs ∧ a = .timer id o p) := by
    intro a' id o p ha'
    by_cases heq : a' = w.malloc w.mallocs
    · rw [heq, hself] at ha'
      exact Or.inr ⟨heq, Option.some.inj ha'⟩
    · left
      rw [← ha']
      exact (Function.update_of_ne heq ..).symm
  refine ⟨fun t' => ?_, fun {t₁ t₂ a'} ha ha' => ?_, fun ha => ?_, fun {t' r id o p} hr ha => ?_,
    fun ha => ?_, fun {a₁ a₂ id o p o' p'} ha ha' => ?_, h.taken, fun {t' id data} hdata hid => ?_⟩
  · rw [addresses_addRequest]
    split
    · refine List.nodup_append.mpr ⟨h.nodup t', List.nodup_singleton _, fun a₁ h₁ a₂ h₂ heq => ?_⟩
      rw [List.mem_singleton.mp h₂] at heq
      exact h.held h₁ (heq ▸ hfree)
    · exact h.nodup t'
  · rcases mem_addresses_addRequest ha with ha | ⟨rfl, heq⟩
    · rcases mem_addresses_addRequest ha' with ha' | ⟨-, heq⟩
      · exact h.apart ha ha'
      · exact absurd (heq ▸ hfree) (h.held ha)
    · rcases mem_addresses_addRequest ha' with ha' | ⟨heq', -⟩
      · exact absurd (heq ▸ hfree) (h.held ha')
      · exact heq'.symm
  · rcases mem_addresses_addRequest ha with ha | ⟨-, rfl⟩
    · rw [hold (h.held ha)]
      exact h.held ha
    · rw [hself]
      exact Option.some_ne_none a
  · rw [requests_addRequest] at hr
    have hr' : r ∈ (w.threads t').ring.requests ∨ r = ⟨prep, w.malloc w.mallocs⟩ := by
      split at hr
      · rcases List.mem_append.mp hr with hr | hr
        · exact Or.inl hr
        · exact Or.inr (List.mem_singleton.mp hr)
      · exact Or.inl hr
    rcases hr' with hr' | rfl
    · have hheld : w.attached r.userData ≠ none := h.held (Ring.mem_addresses hr')
      rw [hold hheld] at ha
      exact h.timeouts hr' ha
    · rw [hself] at ha
      exact (hnew (Option.some.inj ha)).1
  · rcases htimer ha with ha | ⟨-, ha⟩
    · exact h.unread ha
    · exact (hnew ha).2.1
  -- an old and a new timeout of one timer: the new timer has no attachment before
  · rcases htimer ha with ha | ⟨heq, ha⟩ <;> rcases htimer ha' with ha' | ⟨heq', ha'⟩
    · exact h.single ha ha'
    · exact absurd ha ((hnew ha').2.2 a₁ o p)
    · exact absurd ha' ((hnew ha).2.2 a₂ o' p')
    · exact heq.trans heq'.symm
  · rw [timers_addRequest] at hdata
    obtain ⟨⟨o, p, ha⟩, hmem⟩ := h.entries hdata hid
    refine ⟨⟨o, p, ?_⟩, ?_⟩
    · rw [hold (h.held hmem), ha]
    · rw [addresses_addRequest]
      split
      · exact List.mem_append_left _ hmem
      · exact hmem

/-- What `process_queued` does to the timers. -/
theorem queued (h : TimerInv fired w) (hq : Queued t ctx ti es w w') : TimerInv fired w' := by
  cases hq with
  | uring q hq hfree => exact h.addRequest hfree fun heq => by cases heq
  | removeTimer q data hq hfree hdata =>
    exact (h.addRequest hfree fun heq => by cases heq).same ((SameTimers.refl _).note _)
  | updateTimer q data hq hfree hdata htime =>
    refine TimerInv.same ?_ ((SameTimers.refl _).note _)
    refine TimerInv.addRequest ?_ hfree fun heq => by cases heq
    -- only the duration of the entry changes, not its key
    refine h.setTimers t _ fun id data' hdata' hid => ?_
    rw [Function.update_apply] at hdata'
    split at hdata'
    · rename_i hkey
      obtain rfl := Option.some.inj hdata'
      have hold : (w.threads t).timers id = some data := hkey ▸ hdata
      obtain ⟨hattached, hmem⟩ := h.entries hold hid
      exact ⟨hattached, hmem⟩
    · exact h.entries hdata' hid
  | addTimer q hq hfree hnone =>
    rw [addTimer_eq]
    refine TimerInv.same ?_ ((SameTimers.refl _).note _)
    -- the identifier is new: no attachment has it, and it has not fired
    have hnew := not_taken_getId w.timIds (some t)
    have htaken : Taken (getId w.timIds (some t)).2 (getId w.timIds (some t)).1 :=
      (taken_getId ..).mpr (Or.inr rfl)
    let drawn : World V σ := { w with timIds := (getId w.timIds (some t)).2 }.setContext ctx
      ((w.contexts ctx).globalToLocalTim (getId w.timIds (some t)).1 q.localId)
    have hdraw : TimerInv fired drawn := (h.draw (some t)).same { SameTimers.refl _ with }
    have hadd : TimerInv fired (drawn.addRequest t (.timeout q.time)
        (.timer (getId w.timIds (some t)).1 ti.objId ti.procId)) := by
      refine hdraw.addRequest hfree fun heq => ?_
      obtain ⟨rfl, -, -⟩ := IoUringAttached.timer.inj heq
      exact ⟨⟨q.time, rfl⟩, ⟨htaken, fun hid => hnew (h.taken hid)⟩,
        fun a' o p ha' => hnew (h.unread ha').1⟩
    refine hadd.setTimers t _ fun id data hdata hid => ?_
    rw [Function.update_apply] at hdata
    split at hdata
    -- the new entry has the address of the new timeout
    · rename_i hkey
      obtain rfl := Option.some.inj hdata
      refine ⟨⟨ti.objId, ti.procId, ?_⟩, ?_⟩
      · rw [hkey]
        exact Function.update_self ..
      · rw [addresses_addRequest, if_pos rfl]
        exact List.mem_append_right _ (List.mem_singleton.mpr rfl)
    · refine hadd.entries ?_ hid
      rw [timers_addRequest]
      exact hdata
  | decision => exact h.same { SameTimers.refl w with }
  | child q runThread hq => exact h.same (addChild_sameTimers w t ctx ti q runThread)
  | call q info locator target hq hslot hlocator hthread htarget =>
    exact h.same (addCall_sameTimers w t ctx ti q locator.objectId target)
  | delete q thread hq hmem hthread => exact h.same ((SameTimers.refl w).enqueue _ _)
  | dropChild q hq => exact h.same ((SameTimers.refl w).setThread (by rfl) (by rfl))
  | attach q hq => exact h.same (((SameTimers.refl w).setThread (by rfl) (by rfl)).note _)

end TimerInv

/-! ## Completions that are read -/

/-- The completions of a ring that are still to be read. -/
def setCq (w : World V σ) (t : Nat) (cq : List (Nat × Int)) : World V σ :=
  w.setThread t { w.threads t with ring := { (w.threads t).ring with cq } }

theorem setCq_self (w : World V σ) (t : Nat) : w.setCq t (w.threads t).ring.cq = w := by
  unfold setCq setThread
  rw [show ({ w.threads t with ring := (w.threads t).ring } : ThreadData V) = w.threads t from rfl,
    Function.update_eq_self]

theorem addresses_setCq (w : World V σ) (t t' : Nat) (cq : List (Nat × Int)) :
    ((w.setCq t cq).threads t').ring.addresses = if t' = t then
      cq.map (·.1) ++ (w.threads t').ring.requests.map (·.userData)
      else (w.threads t').ring.addresses := by
  unfold setCq
  rw [threads_setThread]
  split
  · rename_i ht
    rw [ht]
    rfl
  · rfl

theorem requests_setCq (w : World V σ) (t t' : Nat) (cq : List (Nat × Int)) :
    ((w.setCq t cq).threads t').ring.requests = (w.threads t').ring.requests :=
  proj_setThread w t t' _ (·.ring.requests) rfl

theorem timers_setCq (w : World V σ) (t t' : Nat) (cq : List (Nat × Int)) :
    ((w.setCq t cq).threads t').timers = (w.threads t').timers :=
  proj_setThread w t t' _ (·.timers) rfl

theorem ring_attachment (w : World V σ) (t t' : Nat) (res : Int) (a : IoUringAttached) :
    ((w.attachment t res a).threads t').ring = (w.threads t').ring := by
  obtain ⟨queues, timers, heq⟩ := attachment_eq w t res a
  rw [heq]
  exact proj_setThread _ t t' _ (·.ring) rfl

theorem timIds_attachment (w : World V σ) (t : Nat) (res : Int) (a : IoUringAttached) :
    (w.attachment t res a).timIds = w.timIds := by
  obtain ⟨queues, timers, heq⟩ := attachment_eq w t res a
  rw [heq]
  rfl

/-- No entry is new. -/
theorem timers_attachment {w : World V σ} {t t' : Nat} {res : Int} {a : IoUringAttached} {id : Id}
    {data : TimerData} (h : ((w.attachment t res a).threads t').timers id = some data) :
    (w.threads t').timers id = some data := by
  cases a with
  | eventData op o p => exact h
  | timer timerId o p =>
    simp only [attachment] at h
    split at h <;> exact h
  | timerUpdate timerId remove =>
    simp only [attachment] at h
    split at h
    · rw [threads_setThread] at h
      split at h
      · rename_i ht
        simp only [Function.update_apply] at h
        split at h
        · cases h
        · rw [ht]
          exact h
      · exact h
    · exact h

/-- The completion at the head is read: its attachment is freed. -/
def readCqe (w : World V σ) (t : Nat) (address : Nat) (res : Int) (a : IoUringAttached) : World V σ :=
  { w.attachment t res a with attached := Function.update w.attached address none }

/-- The other addresses stay pending. -/
theorem addresses_readCqe (w : World V σ) (t t' : Nat) (address : Nat) (res : Int)
    (a : IoUringAttached) (cqes : List (Nat × Int)) :
    (((w.setCq t ((address, res) :: cqes))).threads t').ring.addresses = if t' = t then
      address :: (((w.readCqe t address res a).setCq t cqes).threads t').ring.addresses
      else (((w.readCqe t address res a).setCq t cqes).threads t').ring.addresses := by
  have hring : ((w.readCqe t address res a).threads t').ring = (w.threads t').ring :=
    ring_attachment w t t' res a
  rw [addresses_setCq, addresses_setCq, hring]
  split <;> rfl

/-- A completion is read: its attachment is freed, and a timeout has fired. -/
theorem TimerInv.read {address : Nat} {res : Int} {cqes : List (Nat × Int)} {a : IoUringAttached}
    (h : TimerInv fired (w.setCq t ((address, res) :: cqes))) (ha : w.attached address = some a) :
    TimerInv (fired ++ a.timerId.toList) ((w.readCqe t address res a).setCq t cqes) := by
  have haddresses := fun t' => addresses_readCqe w t t' address res a cqes
  have hhead : address ∈ ((w.setCq t ((address, res) :: cqes)).threads t).ring.addresses := by
    rw [haddresses, if_pos rfl]
    exact List.mem_cons_self
  -- an address is pending afterwards just if it was before and is not the one that was read
  have hmem : ∀ {t' a'}, a' ∈ (((w.readCqe t address res a).setCq t cqes).threads t').ring.addresses ↔
      a' ∈ ((w.setCq t ((address, res) :: cqes)).threads t').ring.addresses ∧ a' ≠ address := by
    intro t' a'
    have hnodup := h.nodup t'
    rw [haddresses] at hnodup ⊢
    by_cases ht : t' = t
    · rw [if_pos ht] at hnodup ⊢
      have hnot := (List.nodup_cons.mp hnodup).1
      rw [List.mem_cons]
      constructor
      · exact fun hin => ⟨Or.inr hin, fun heq => hnot (heq ▸ hin)⟩
      · rintro ⟨heq | hin, hne⟩
        · exact absurd heq hne
        · exact hin
    · rw [if_neg ht]
      refine ⟨fun hin => ⟨hin, fun heq => ht ?_⟩, fun hin => hin.1⟩
      rw [heq] at hin
      refine h.apart (a := address) ?_ hhead
      rw [haddresses, if_neg ht]
      exact hin
  -- what is attached afterwards was attached before, at another address
  have hattached : ∀ {a' b}, ((w.readCqe t address res a).setCq t cqes).attached a' = some b →
      w.attached a' = some b ∧ a' ≠ address := by
    intro a' b hb
    have hb' : Function.update w.attached address none a' = some b := hb
    by_cases heq : a' = address
    · rw [heq, Function.update_self] at hb'
      cases hb'
    · rw [Function.update_of_ne heq] at hb'
      exact ⟨hb', heq⟩
  have hkept : ∀ {a'}, a' ≠ address →
      ((w.readCqe t address res a).setCq t cqes).attached a' = w.attached a' :=
    fun hne => Function.update_of_ne hne ..
  have hids : ((w.readCqe t address res a).setCq t cqes).timIds = w.timIds :=
    timIds_attachment w t res a
  -- the attachment of the timer that fires is the one that was read
  have hfires : ∀ {id}, id ∈ a.timerId.toList → ∃ o p, a = .timer id o p := by
    intro id hid
    cases a with
    | timer timerId o p =>
      rw [List.mem_singleton.mp hid]
      exact ⟨o, p, rfl⟩
    | eventData | timerUpdate => cases hid
  refine ⟨fun t' => ?_, fun hin hin' => ?_, fun hin => ?_, fun {t' r id o p} hr hb => ?_,
    fun {a' id o p} hb => ?_, fun hb hb' => ?_, fun {id} hid => ?_, fun {t' id data} hdata hid => ?_⟩
  · have hnodup := h.nodup t'
    rw [haddresses] at hnodup
    split at hnodup
    · exact (List.nodup_cons.mp hnodup).2
    · exact hnodup
  · exact h.apart (hmem.mp hin).1 (hmem.mp hin').1
  · rw [hkept (hmem.mp hin).2]
    exact h.held (hmem.mp hin).1
  · rw [requests_setCq] at hr
    refine h.timeouts (t := t') ?_ (hattached hb).1
    rw [requests_setCq]
    rwa [readCqe, ring_attachment] at hr
  · obtain ⟨hold, hne⟩ := hattached hb
    obtain ⟨htaken, hid⟩ := h.unread hold
    refine ⟨hids.symm ▸ htaken, fun hin => ?_⟩
    -- a timer that fires has no second attachment
    rcases List.mem_append.mp hin with hin | hin
    · exact hid hin
    · obtain ⟨o', p', rfl⟩ := hfires hin
      exact hne (h.single hold ha)
  · exact h.single (hattached hb).1 (hattached hb').1
  · rw [hids]
    rcases List.mem_append.mp hid with hid | hid
    · exact h.taken hid
    · obtain ⟨o, p, rfl⟩ := hfires hid
      exact (h.unread ha).1
  · rw [List.mem_append, not_or] at hid
    rw [timers_setCq] at hdata
    have hold : ((w.setCq t ((address, res) :: cqes)).threads t').timers id = some data := by
      rw [timers_setCq]
      exact timers_attachment hdata
    obtain ⟨⟨o, p, hb⟩, hin⟩ := h.entries hold hid.1
    -- an entry with the freed key would be that of the timer that fires
    have hne : data.ptr ≠ address := by
      intro heq
      have hb' : w.attached data.ptr = some (.timer id o p) := hb
      rw [heq, ha] at hb'
      obtain rfl := Option.some.inj hb'
      exact hid.2 (List.mem_singleton.mpr rfl)
    exact ⟨⟨o, p, (hkept hne).trans hb⟩, hmem.mpr ⟨hin, hne⟩⟩

/-- The loop of `process_uring`: the timers fire whose completions are in the list. -/
theorem TimerInv.readCqes {cqes : List (Nat × Int)} (h : TimerInv fired (w.setCq t cqes))
    (hread : w.readCqes t cqes = .ok w') :
    TimerInv (fired ++ cqes.filterMap fun cqe => (w.attached cqe.1).bind (·.timerId))
      (w'.setCq t []) := by
  -- on the completions, with the timers that fired so far
  induction cqes generalizing w fired with
  | nil =>
    obtain rfl := Except.ok.inj hread
    rw [List.filterMap_nil, List.append_nil]
    exact h
  | cons cqe cqes ih =>
    obtain ⟨address, res⟩ := cqe
    simp only [World.readCqes] at hread
    split at hread
    · cases hread
    · rename_i a ha
      have hrest := ih (h.read ha) hread
      -- the attachments of the other completions are still there
      have hothers : (cqes.filterMap fun cqe =>
          ((w.readCqe t address res a).attached cqe.1).bind (·.timerId)) =
            cqes.filterMap fun cqe => (w.attached cqe.1).bind (·.timerId) := by
        refine List.filterMap_congr fun cqe hcqe => ?_
        have hnodup := h.nodup t
        rw [addresses_setCq, if_pos rfl] at hnodup
        have hin : cqe.1 ∈ cqes.map (·.1) := List.mem_map_of_mem hcqe
        have hne : cqe.1 ≠ address := by
          intro heq
          exact (List.nodup_cons.mp hnodup).1 (List.mem_append_left _ (heq ▸ hin))
        have hkept : (w.readCqe t address res a).attached cqe.1 = w.attached cqe.1 :=
          Function.update_of_ne hne ..
        rw [hkept]
      rw [hothers, List.append_assoc] at hrest
      have hhead : (((address, res) :: cqes).filterMap fun cqe =>
          (w.attached cqe.1).bind (·.timerId)) = a.timerId.toList ++
            cqes.filterMap fun cqe => (w.attached cqe.1).bind (·.timerId) := by
        rw [List.filterMap_cons, ha, Option.bind_some]
        cases a.timerId <;> rfl
      rw [hhead]
      exact hrest

theorem TimerInv.processUring (h : TimerInv fired w) (huring : w.processUring t = .ok w') :
    TimerInv (fired ++ w.expiring t) w' := by
  unfold World.processUring at huring
  split at huring
  · cases huring
  · rename_i w₁ hread
    obtain rfl := Except.ok.inj huring
    rw [← setCq_self w t] at h
    exact h.readCqes hread

/-! ## Runs -/

theorem TimerInv.processQueued (h : TimerInv fired w)
    (hqueued : w.processQueued t ctx ti es = .ok w') : TimerInv fired w' :=
  transGen_invariant (processQueued_queued hqueued) h fun _ _ h hq => h.queued hq

theorem TimerInv.handled (h : TimerInv fired w) (hhandled : Handled P t w w') :
    TimerInv fired w' := by
  cases hhandled with
  | idle hq => exact h
  -- what runs before and after `process_queued` has no part in the timers
  | @constructed c rest ctx w₁ w₂ w₃ heap es hq htake hrun hslot hnew hqueued =>
    have hfilled := constructed_sameTimers htake hslot
    have hentered : TimerInv fired (w₂.setThread t ((w₂.threads t).setObject c.ti.objId
        { ptr := some ctx })) :=
      h.same (hfilled.setThread rfl rfl)
    exact (hentered.processQueued hqueued).same ((SameTimers.refl _).submit t)
  | @reconstructed c rest ctx w₁ w₂ heap es o hq htake hrun hslot hold =>
    exact h.same ((constructed_sameTimers htake hslot).submit t)
  | @called f rest o ctx resp heap es w₂ w₃ hq ho hptr hrun hqueued hrespond =>
    have hentered := h.same (called_sameTimers w t ctx rest f o es heap)
    exact (hentered.processQueued hqueued).same ((respond_sameTimers hrespond).submit t)
  | @delivered d rest o c ctx y heap es w₂ w₃ hq ho hd hptr hrun hqueued hreport =>
    have hentered := h.same (delivered_sameTimers w t ctx rest
      (.delivered t d ((w.contexts ctx).mapEventData d.data).1) es heap)
    exact (hentered.processQueued hqueued).same (((report_sameTimers hreport).trans
      (forward_sameTimers _ t _ _)).submit t)
  | dropped hq hmissing => exact h.same ((pop_sameTimers w t _).submit t)
  | deleted hq hchildren =>
    exact h.same ((((pop_sameTimers w t _).trans (deleteChildren_sameTimers hchildren)).trans
      (erase_sameTimers P _ t _)).submit t)
  | root hq => exact h.same ((((pop_sameTimers w t _).enqueue _ _).enqueue _ _).submit t)

theorem TimerInv.step {a : Action V} (h : TimerInv fired w) (hstep : w.step P a = .ok w') :
    TimerInv ((⟨w, fired⟩ : TimerHistory V σ).fire a) w' := by
  cases a with
  | dequeue t =>
    rcases step_dequeue hstep with rfl | ⟨-, hhandled⟩
    · exact h
    · exact h.handled hhandled
  | uring t =>
    simp only [World.step] at hstep
    split at hstep
    · rename_i ht
      simp only [TimerHistory.fire, if_pos ht]
      exact h.processUring hstep
    · rename_i ht
      obtain rfl := Except.ok.inj hstep
      simp only [TimerHistory.fire, if_neg ht]
      exact h
  | complete t k res =>
    obtain rfl := Except.ok.inj hstep
    exact h.same ((SameTimers.refl w).complete t k res)
  | root constructor init =>
    obtain ⟨-, rfl⟩ := initializeRootEvent_eq hstep
    exact h.same { SameTimers.refl w with }
  | load _ | iterate _ =>
    obtain rfl := Except.ok.inj hstep
    exact h.same { SameTimers.refl w with }

theorem start_timerInv (size : Nat) (malloc : Nat → Nat) (heap : σ) :
    TimerInv [] ({ size, malloc, heap } : World V σ) where
  nodup _ := List.nodup_nil
  apart ha := absurd ha List.not_mem_nil
  held ha := absurd ha List.not_mem_nil
  timeouts hr := absurd hr List.not_mem_nil
  unread ha := by cases ha
  single ha := by cases ha
  taken hid := absurd hid List.not_mem_nil
  entries hdata := by cases hdata

theorem timerInv_reached (P : Program V σ) (size : Nat) (malloc : Nat → Nat) (heap : σ)
    {s : TimerHistory V σ} (h : Reached (TimerHistory.step P) (fun _ _ => True)
      { world := { size, malloc, heap } } s) : TimerInv s.fired s.world := by
  refine Reached.invariant (I := fun s => TimerInv s.fired s.world) h
    (start_timerInv size malloc heap) fun s a s' hinv _ hstep => ?_
  obtain ⟨w', hw', rfl⟩ := exists_of_map_eq_ok hstep
  exact hinv.step hw'

theorem TimerInv.handlerRun {w₀ : World V σ} {tr : Traced V} (h : TimerInv fired w₀)
    (hrun : HandlerRun P t w₀ ctx ti tr w) : TimerInv fired w := by
  cases hrun with
  | @construct c rest _ w₁ w₂ heap _ hq htake hrun hslot hnew =>
    exact h.same ((constructed_sameTimers htake hslot).setThread rfl rfl)
  | @function f rest o _ resp heap _ hq ho hptr hrun =>
    exact h.same (called_sameTimers w₀ t ctx rest f o tr.state heap)
  | @yield m rest o c _ y heap _ hq ho hd hptr hrun =>
    exact h.same (delivered_sameTimers w₀ t ctx rest _ tr.state heap)

/-- A request that names a timeout is made for an entry of the table, which keeps its key. -/
theorem queuedTimer_key {q : EventQueuedTimer} {r : Submission V} {key : Nat}
    (htimer : w.queuedTimer t ctx ti q = .ok w')
    (hsq : (w'.threads t).ring.sq = (w.threads t).ring.sq ++ [r]) (hkey : r.prep.key = some key) :
    ∃ data, (w'.threads t).timers ((w.contexts ctx).translateTimLocal q.localId) = some data ∧
      data.ptr = key := by
  have hlast : ∀ {w₁ : World V σ} {prep : Prep V} {a : IoUringAttached},
      (w₁.threads t).ring.sq = (w.threads t).ring.sq →
      ((w₁.addRequest t prep a).threads t).ring.sq = (w.threads t).ring.sq ++ [r] →
      r.prep = prep := by
    intro w₁ prep a hold hsq
    simp only [addRequest, prepare, threads_setThread_self, hold] at hsq
    rw [← (List.cons.inj (List.append_cancel_left hsq)).1]
  -- the three branches: a removal, an update, and a new timer, which has no key
  unfold queuedTimer at htimer
  split at htimer
  · split at htimer
    · rename_i data hdata
      split at htimer
      · obtain rfl := Except.ok.inj htimer
        rw [hlast rfl hsq] at hkey
        exact ⟨data, (congrFun (timers_addRequest w t t _ _) _).trans hdata,
          Option.some.inj hkey⟩
      · obtain rfl := Except.ok.inj htimer
        rw [hlast (by rw [threads_setThread_self]) hsq] at hkey
        refine ⟨{ data with ts := q.time }, ?_, Option.some.inj hkey⟩
        refine (congrFun (timers_addRequest _ t t _ _) _).trans ?_
        rw [threads_setThread_self]
        exact Function.update_self ..
    · obtain rfl := Except.ok.inj htimer
      rw [hlast (by rw [threads_setThread_self]) hsq] at hkey
      cases hkey
  · cases htimer

theorem TimerInv.prepares {w₀ : World V σ} {id : Id} {r : Submission V} {key : Nat}
    (h : TimerInv fired w₀) (huse : PreparesTimer P t w₀ id r w') (hkey : r.prep.key = some key) :
    w'.NamesTimer t id key ↔ id ∉ fired := by
  obtain @⟨ctx, ti, tr, w, w₁, w₂, w₃, w₄, before, after, q, ht, hrun, hconstruct, hfunction, huring,
    hentries, hbefore, rfl, htimer, hsq⟩ := huse
  have hq : q ∈ tr.state.timer := by
    rw [hentries]
    exact List.mem_append_right _ List.mem_cons_self
  have hbefore' : before ⊆ tr.state.timer := by
    rw [hentries]
    exact List.subset_append_left _ _
  -- all that `process_queued` did up to the request
  have hupdates := (((each_queued (fun q hq _ _ => queuedConstruct_queued hq) hconstruct).trans
    (each_queued (fun q hq _ _ => queuedFunction_queued hq) hfunction)).trans
      (each_queued (fun q hq _ _ => queuedUring_queued hq) huring)).trans
        ((each_queued (fun q hq _ _ => queuedTimer_queued (hbefore' hq)) hbefore).trans
          (queuedTimer_queued hq htimer))
  have hinv := transGen_invariant hupdates (h.handlerRun hrun) fun _ _ h hq => h.queued hq
  obtain ⟨data, hdata, rfl⟩ := queuedTimer_key htimer hsq hkey
  exact hinv.namesTimer_iff hdata

/-- In every run, the key of a request that `process_queued_timers` prepares for a timer names the
timeout of this timer just if `process_uring` has not read the completion of the timeout. -/
theorem key_names_timer_iff (P : Program V σ) (size : Nat) (malloc : Nat → Nat) (heap : σ)
    (s : TimerHistory V σ) (t : Nat) (id : Id) (r : Submission V) (w' : World V σ) (key : Nat)
    (hreached : Reached (TimerHistory.step P) (fun _ _ => True) { world := { size, malloc, heap } } s)
    (huse : PreparesTimer P t s.world id r w') (hkey : r.prep.key = some key) :
    w'.NamesTimer t id key ↔ id ∉ s.fired :=
  (timerInv_reached P size malloc heap hreached).prepares huse hkey

/-! ## An alarm that is stopped -/

/-- An `on_yield` that only cancels a timer prepares the removal of its timeout. -/
theorem exists_prepares {w₀ : World V σ} {m : Data} {rest : List (EventVariant V)}
    {o : ObjectDataThreaded} {c : CallDataThreaded} {y : Yielded} {heap : σ} {tr : Traced V}
    {q : EventQueuedTimer} {data : TimerData} (ht : t < w₀.size)
    (hq : w₀.queues t = .data m :: rest) (ho : (w₀.threads t).objInfo m.ti.objId = some o)
    (hd : (w₀.threads t).procToDat m.ti.procId = some c) (hptr : o.ptr = some ctx)
    (hrun : (P.onYield m.ti.objId ((w₀.contexts ctx).mapEventData m.data).1 w₀.heap).traced
      (.start ((w₀.contexts ctx).mapEventData m.data).2) = .ok ((y, heap), tr))
    (hqueued : tr.state = { uringData := tr.state.uringData, timer := [q] })
    (htime : q.time = ⟨0, 0⟩) (hsqe : w₀.HasSqe t)
    (hfree : w₀.attached (w₀.malloc w₀.mallocs) = none)
    (hdata : (w₀.threads t).timers (tr.state.uringData.translateTimLocal q.localId) = some data) :
    ∃ w', PreparesTimer P t w₀ (tr.state.uringData.translateTimLocal q.localId)
        ⟨.timeoutRemove data.ptr, w₀.malloc w₀.mallocs⟩ w' ∧
      w'.attached = Function.update w₀.attached (w₀.malloc w₀.mallocs)
        (some (.timerUpdate (tr.state.uringData.translateTimLocal q.localId) true)) := by
  have hrun' := HandlerRun.yield hq ho hd hptr hrun
  set w := ((w₀.pop t rest).note (.delivered t m
    ((w₀.contexts ctx).mapEventData m.data).1)).afterHandler ctx tr.state heap with hw
  have hcontext : w.contexts ctx = tr.state.uringData := Function.update_self ..
  have htimer : w.queuedTimer t ctx m.ti q = .ok (w.removeTimer t m.ti q
      (tr.state.uringData.translateTimLocal q.localId) data) := by
    have hsqe' : w.HasSqe t ∧ w.attached (w.malloc w.mallocs) = none := ⟨hsqe, hfree⟩
    have hdata' : (w.threads t).timers (tr.state.uringData.translateTimLocal q.localId) =
      some data := hdata
    simp only [queuedTimer, if_pos hsqe', hcontext, hdata', if_pos htime]
  have hnone : each (queuedTimer t ctx m.ti) [] w = .ok w := rfl
  have hentries : tr.state.timer = [] ++ q :: [] := by
    rw [hqueued]
    rfl
  have hconstruct : each (queuedConstruct t ctx m.ti) tr.state.construct w = .ok w := by
    rw [hqueued]
    rfl
  have hfunction : each (queuedFunction t ctx m.ti) tr.state.function w = .ok w := by
    rw [hqueued]
    rfl
  have huring : each (queuedUring t m.ti) tr.state.uring w = .ok w := by
    rw [hqueued]
    rfl
  refine ⟨_, .intro ht hrun' hconstruct hfunction huring hentries hnone
    (congrArg (·.translateTimLocal q.localId) hcontext) htimer ?_, rfl⟩
  · simp only [removeTimer, noteTimer, threads_note, addRequest, prepare, threads_setThread_self]
    rfl

/-- One class, with one function and one request. -/
abbrev alarmVocabulary : Vocabulary where
  TypeIndex := Unit
  ConstructFunc := Unit
  FunctionFunc := Unit
  Sqe := Unit

/-- A request with a time limit: whatever happens first, the timer is cancelled. -/
def alarm : Program alarmVocabulary Unit where
  construct _ _ _ := pure ()
  function _ _ _ _ := do
    Script.cUring (V := alarmVocabulary) 0 ()
    let _ ← Script.startTimer ⟨1, 0⟩
    pure ({ description := "alarm", success := true, ret := none, opHint := 0 }, ())
  onYield _ _ _ := do
    Script.stopTimer (V := alarmVocabulary) (some 0)
    pure (none, ())
  destroy _ _ := ()

/-- One worker thread, and a heap that never reuses memory. -/
def alarm₀ : TimerHistory alarmVocabulary Unit := { world := { size := 1, malloc := id, heap := () } }

/-- The object is started. Its request is completed, and if it is `late`, the timer expires before
the completion is read. -/
def alarmActions (late : Bool) : List (Action alarmVocabulary) :=
  .root () () :: List.replicate 3 (.dequeue 0) ++ .complete 0 0 4 ::
    (if late then [.complete 0 0 eTime, .uring 0] else [.uring 0])

/-- The data at the head of a queue. -/
def headData {V : Vocabulary} {σ : Type} (w : World V σ) : Option Data :=
  match w.queues 0 with
  | .data d :: _ => some d
  | _ => none

theorem headData_eq {w : World V σ} {d : Data} (h : w.headData = some d) :
    ∃ rest, w.queues 0 = .data d :: rest := by
  unfold headData at h
  split at h
  · rename_i rest hq
    obtain rfl := Option.some.inj h
    exact ⟨rest, hq⟩
  · cases h

/-- The handler of the completion removes the timer by the key 1. -/
theorem alarm_prepares (late : Bool) : ∃ s r w',
    Reached (TimerHistory.step alarm) (fun _ _ => True) alarm₀ s ∧
    PreparesTimer alarm 0 s.world (some 0) r w' ∧ r.prep.key = some 1 ∧
    s.fired = (if late then [some 0] else []) ∧ (w'.attached 1).isSome = !late := by
  have hmessage : (runActions (TimerHistory.step alarm) (alarmActions late) alarm₀).map (fun s =>
      (s.fired, s.world.size, headData s.world,
        ((s.world.threads 0).objInfo (some 0)).bind (·.ptr),
        ((s.world.threads 0).procToDat (some 0)).isSome)) =
      .ok (if late then [some 0] else [], 1, some (ringData (some 0) (some 0)
        (.ioUringResult { callingId := some 0, op := 0, res := 4 })), some 0, true) := by
    cases late <;> decide +kernel
  have htables : (runActions (TimerHistory.step alarm) (alarmActions late) alarm₀).map (fun s =>
      ((s.world.contexts 0).translateTimLocal (some 0),
        ((s.world.threads 0).timers (some 0)).map (·.ptr), (s.world.threads 0).ring.sq.length)) =
      .ok (some 0, some 1, 0) := by
    cases late <;> decide +kernel
  have hmemory : (runActions (TimerHistory.step alarm) (alarmActions late) alarm₀).map (fun s =>
      (s.world.malloc s.world.mallocs, s.world.attached 2, (s.world.attached 1).isSome)) =
      .ok (2, none, !late) := by
    cases late <;> decide +kernel
  -- the run ends with the completion of the request at the head of the queue
  obtain ⟨s, hrun, hmessage⟩ := exists_of_map_eq_ok hmessage
  rw [hrun] at htables hmemory
  simp only [Except.map, Except.ok.injEq, Prod.mk.injEq] at htables hmemory hmessage
  obtain ⟨hfired, hsize, hhead, hptr, hproc⟩ := hmessage
  obtain ⟨hlocal, htimer, hsq⟩ := htables
  obtain ⟨hmalloc, hfree, hattached⟩ := hmemory
  obtain ⟨rest, hq⟩ := headData_eq hhead
  obtain ⟨o, ho, hptr⟩ := Option.bind_eq_some_iff.mp hptr
  obtain ⟨c, hc⟩ := Option.isSome_iff_exists.mp hproc
  obtain ⟨data, hdata, hkey⟩ := Option.map_eq_some_iff.mp htimer
  have hsqe : s.world.HasSqe 0 := by
    show (s.world.threads 0).ring.sq.length < 512
    omega
  obtain ⟨w', huse, hw'⟩ := exists_prepares (P := alarm) (t := 0) (by omega) hq ho hc hptr rfl rfl
    rfl hsqe (hmalloc ▸ hfree) (hlocal ▸ hdata)
  have huse' : PreparesTimer alarm 0 s.world ((s.world.contexts 0).translateTimLocal (some 0))
      ⟨.timeoutRemove data.ptr, s.world.malloc s.world.mallocs⟩ w' := huse
  rw [hlocal, hmalloc, hkey] at huse'
  rw [hmalloc] at hw'
  refine ⟨s, _, w', reached_of_runActions .start (meets_true _ _) hrun, huse', rfl, hfired, ?_⟩
  rw [hw', Function.update_of_ne (by decide)]
  exact hattached

/-- The timer is cancelled before it expires: the removal names its timeout. -/
theorem alarm_in_time : ∃ s r w', Reached (TimerHistory.step alarm) (fun _ _ => True) alarm₀ s ∧
    PreparesTimer alarm 0 s.world (some 0) r w' ∧ r.prep.key = some 1 ∧
    w'.NamesTimer 0 (some 0) 1 := by
  obtain ⟨s, r, w', hreached, huse, hkey, hfired, -⟩ := alarm_prepares false
  refine ⟨s, r, w', hreached, huse, hkey, ?_⟩
  rw [key_names_timer_iff alarm 1 id () s 0 (some 0) r w' 1 hreached huse hkey, hfired]
  exact List.not_mem_nil

/-- The timer is cancelled after its completion was read: the removal names freed memory. -/
theorem alarm_late : ∃ s r w', Reached (TimerHistory.step alarm) (fun _ _ => True) alarm₀ s ∧
    PreparesTimer alarm 0 s.world (some 0) r w' ∧ r.prep.key = some 1 ∧ w'.attached 1 = none ∧
    ¬ w'.NamesTimer 0 (some 0) 1 := by
  obtain ⟨s, r, w', hreached, huse, hkey, -, hattached⟩ := alarm_prepares true
  have hfreed : w'.attached 1 = none := by
    cases h : w'.attached 1 with
    | none => rfl
    | some a =>
      rw [h] at hattached
      cases hattached
  refine ⟨s, r, w', hreached, huse, hkey, hfreed, fun hnames => ?_⟩
  obtain ⟨objId, procId, hsome⟩ := hnames.attached
  cases hfreed.symm.trans hsome

end World

end LocalSoftware
