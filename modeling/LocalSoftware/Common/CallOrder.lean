import LocalSoftware.Common.PresenceRuns
import LocalSoftware.Common.Traffic
import LocalSoftware.Library.InOrder
import LocalSoftware.Library.Tickets

/-!
# Calls are carried out once and in order

For any program on any number of threads: every call that a handler queued waits in the queue of one
thread or was carried out by it, once, and each thread carries its calls out in the order in which
they were queued (`callsInOrder`).
-/

set_option autoImplicit false

namespace LocalSoftware

variable {V : Vocabulary} {σ : Type}

namespace Note

/-- The procedure that was called. -/
def callee : Note → Option Id
  | .called _ _ _ q _ => some q
  | _ => none

/-- The procedure that was started. -/
def startedId : Note → Option Id
  | .started _ _ p => some p
  | _ => none

/-- The same for one thread. -/
def startedOn (t : Nat) : Note → Option Id
  | .started t' _ p => if t' = t then some p else none
  | _ => none

theorem startedId_of_startedOn {n : Note} {t : Nat} {p : Id} (h : n.startedOn t = some p) :
    n.startedId = some p ∧ ∀ t', n.startedOn t' = some p → t' = t := by
  cases n with
  | started t₀ o p' =>
    simp only [startedOn] at h
    split at h
    · rename_i ht
      subst ht
      refine ⟨h, fun t' h' => ?_⟩
      simp only [startedOn] at h'
      split at h'
      · rename_i ht'
        exact ht'.symm
      · cases h'
    · cases h
  | _ => cases h

theorem startedOn_eq_none {n : Note} (h : n.startedId = none) (t : Nat) : n.startedOn t = none := by
  cases n with
  | started => cases h
  | _ => rfl

end Note

namespace Traffic

variable {T T' : Traffic V} {t : Nat} {m : EventVariant V} {rest : List (EventVariant V)}

/-- The procedures that were called, in this order. -/
def callees (T : Traffic V) : List Id := T.log.filterMap Note.callee

/-- The procedures that a thread has started. -/
def startedOn (T : Traffic V) (t : Nat) : List Id := T.log.filterMap (Note.startedOn t)

/-- The procedures that wait in a queue to be started. -/
def starting (T : Traffic V) (t : Nat) : List Id := (T.queues t).filterMap EventVariant.starts

/-- The procedures of a list that were called, and not started as roots. -/
def onlyCalled (T : Traffic V) (l : List Id) : List Id := l.filter (· ∈ T.callees)

section OnlyCalled

variable {q : Id} {l l' : List Id}

theorem onlyCalled_append : T.onlyCalled (l ++ l') = T.onlyCalled l ++ T.onlyCalled l' :=
  List.filter_append ..

theorem onlyCalled_cons_pos (h : q ∈ T.callees) : T.onlyCalled (q :: l) = q :: T.onlyCalled l :=
  List.filter_cons_of_pos (decide_eq_true h)

theorem onlyCalled_cons_neg (h : q ∉ T.callees) : T.onlyCalled (q :: l) = T.onlyCalled l :=
  List.filter_cons_of_neg (by simpa using h)

theorem onlyCalled_singleton_pos (h : q ∈ T.callees) : T.onlyCalled [q] = [q] :=
  onlyCalled_cons_pos h

theorem onlyCalled_singleton_neg (h : q ∉ T.callees) : T.onlyCalled [q] = [] :=
  onlyCalled_cons_neg h

end OnlyCalled

/-- Each procedure is started once, and calls are carried out in order. -/
structure CallOrder (T : Traffic V) : Prop where
  tickets : Tickets (Taken T.procIds) T.starting (T.log.filterMap Note.startedId)
  called : ∀ q ∈ T.callees, Taken T.procIds q
  nodup : T.callees.Nodup
  roots : ∀ {t r}, .rootStart r ∈ T.queues t → r.ti.procId ∉ T.callees
  order : InOrder T.callees (fun t => T.onlyCalled (T.startedOn t)) fun t =>
    T.onlyCalled (T.starting t)
  complete : ∀ q ∈ T.callees, ∃ t < T.size, q ∈ T.startedOn t ++ T.starting t

/-- No procedure is called or started. -/
structure SameCalls (T T' : Traffic V) : Prop where
  size : T'.size = T.size
  procIds : ∀ id, Taken T.procIds id → Taken T'.procIds id
  starting : ∀ t, T'.starting t = T.starting t
  roots : ∀ {t r}, .rootStart r ∈ T'.queues t → .rootStart r ∈ T.queues t
  log : ∃ ns, T'.log = T.log ++ ns ∧ ∀ n ∈ ns, n.callee = none ∧ n.startedId = none

namespace SameCalls

theorem refl (T : Traffic V) : SameCalls T T where
  size := rfl
  procIds _ hid := hid
  starting _ := rfl
  roots hr := hr
  log := ⟨[], (List.append_nil _).symm, fun _ hn => absurd hn List.not_mem_nil⟩

theorem note (h : SameCalls T T') {n : Note} (hn : n.callee = none ∧ n.startedId = none) :
    SameCalls T (T'.note n) :=
  { h with
    log := by
      obtain ⟨ns, hns, hnone⟩ := h.log
      refine ⟨ns ++ [n], by rw [← List.append_assoc, ← hns]; rfl, fun n' hn' => ?_⟩
      rcases List.mem_append.mp hn' with hn' | hn'
      · exact hnone n' hn'
      · exact List.mem_singleton.mp hn' ▸ hn }

theorem push (h : SameCalls T T') (t : Nat) (hm : m.starts = none) : SameCalls T (T'.push t m) :=
  { h with
    starting := fun t' => (filterMap_push_none _ _ _ _ _ hm).trans (h.starting t')
    roots := fun {t' r} hr => by
      rw [queues_push] at hr
      split at hr
      · rcases List.mem_append.mp hr with hr | hr
        · exact h.roots hr
        · rw [← List.mem_singleton.mp hr] at hm
          cases hm
      · exact h.roots hr }

theorem pop (T : Traffic V) (hq : T.queues t = m :: rest) (hm : m.starts = none) :
    SameCalls T (T.pop t rest) :=
  { refl T with
    starting := fun t' => filterMap_pop_none _ _ _ _ _ _ hq hm
    roots := fun {t' r} hr => by
      rw [queues_pop] at hr
      split at hr
      · rename_i ht
        rw [ht, hq]
        exact List.mem_cons_of_mem _ hr
      · exact hr }

end SameCalls

namespace CallOrder

/-- The calls and starts of a longer history in which nobody is called or started. -/
theorem filterMap_eq {α : Type} {f : Note → Option α} {L ns : List Note}
    (h : ∀ n ∈ ns, f n = none) : (L ++ ns).filterMap f = L.filterMap f := by
  rw [List.filterMap_append, List.filterMap_eq_nil_iff.mpr h, List.append_nil]

theorem same (h : T.CallOrder) (hT : SameCalls T T') : T'.CallOrder := by
  obtain ⟨ns, hlog, hnone⟩ := hT.log
  have hcallees : T'.callees = T.callees := by
    unfold callees
    rw [hlog, filterMap_eq fun n hn => (hnone n hn).1]
  have hused : T'.log.filterMap Note.startedId = T.log.filterMap Note.startedId := by
    rw [hlog, filterMap_eq fun n hn => (hnone n hn).2]
  have hstarted : T'.startedOn = T.startedOn := by
    funext t
    unfold startedOn
    rw [hlog, filterMap_eq fun n hn => Note.startedOn_eq_none (hnone n hn).2 t]
  have hstarting : T'.starting = T.starting := funext hT.starting
  refine ⟨?_, ?_, ?_, ?_, ?_, ?_⟩
  · rw [hused, hstarting]
    exact h.tickets.mono hT.procIds
  · rw [hcallees]
    exact fun q hq => hT.procIds q (h.called q hq)
  · rw [hcallees]
    exact h.nodup
  · intro t r hr
    rw [hcallees]
    exact h.roots (hT.roots hr)
  · simp only [onlyCalled, hcallees, hstarted, hstarting]
    exact h.order
  · rw [hcallees, hT.size, hstarted, hstarting]
    exact h.complete

/-- A call is queued under a new identifier. -/
theorem call (h : T.CallOrder) {t target : Nat} {f : FunctionCall V} {l : Id}
    (htarget : target < T.size) (hf : f.ti.procId = (getId T.procIds (some t)).1) :
    (((T.drawProc (some t)).push target (.functionCall f)).note
      (.called t f.ci.objId f.ci.procId f.ti.procId l)).CallOrder := by
  obtain ⟨T', hT'⟩ : ∃ T', T' = ((T.drawProc (some t)).push target (.functionCall f)).note
      (.called t f.ci.objId f.ci.procId f.ti.procId l) := ⟨_, rfl⟩
  rw [← hT']
  have hfresh : ¬ Taken T.procIds f.ti.procId := hf ▸ not_taken_getId T.procIds (some t)
  have htaken : ∀ id, Taken T'.procIds id ↔ Taken T.procIds id ∨ id = f.ti.procId := by
    intro id
    rw [hT', hf]
    exact taken_getId T.procIds (some t) id
  have hcallees : T'.callees = T.callees ++ [f.ti.procId] := by
    rw [hT']
    exact List.filterMap_append
  have hused : T'.log.filterMap Note.startedId = T.log.filterMap Note.startedId := by
    rw [hT']
    exact filterMap_eq fun n hn => List.mem_singleton.mp hn ▸ rfl
  have hstarted : T'.startedOn = T.startedOn := by
    funext t'
    rw [hT']
    exact filterMap_eq fun n hn => List.mem_singleton.mp hn ▸ rfl
  have hstarting : ∀ t', T'.starting t' =
      if t' = target then T.starting t' ++ [f.ti.procId] else T.starting t' := by
    intro t'
    rw [hT']
    exact filterMap_push_some (T.drawProc (some t)) target t' (.functionCall f) _ rfl
  have hfree : Free (Taken T'.procIds) T.starting (T.log.filterMap Note.startedId) f.ti.procId :=
    h.tickets.free_of_not_issued hfresh ((htaken _).mpr (Or.inr rfl))
  -- what was started or waited before is not the new procedure
  have hold : ∀ {l : List Id}, f.ti.procId ∉ l → T'.onlyCalled l = T.onlyCalled l := by
    intro l hl
    refine List.filter_congr fun q hq => ?_
    rw [hcallees]
    have hne : q ≠ f.ti.procId := fun heq => hl (heq ▸ hq)
    simp [hne]
  have hnotStarted : ∀ t', f.ti.procId ∉ T.startedOn t' := by
    intro t' hmem
    obtain ⟨n, hn, hnote⟩ := List.mem_filterMap.mp hmem
    refine hfree.unused (List.mem_filterMap.mpr ⟨n, hn, ?_⟩)
    cases n with
    | started t'' o p =>
      simp only [Note.startedOn] at hnote
      split at hnote
      · exact hnote
      · cases hnote
    | _ => cases hnote
  refine ⟨?_, ?_, ?_, ?_, ?_, ?_⟩
  · rw [hused]
    exact Tickets.push (h.tickets.mono fun id hid => (htaken id).mpr (Or.inl hid)) hfree hstarting
  · rw [hcallees]
    intro q hq
    rcases List.mem_append.mp hq with hq | hq
    · exact (htaken q).mpr (Or.inl (h.called q hq))
    · exact (htaken q).mpr (Or.inr (List.mem_singleton.mp hq))
  · rw [hcallees]
    refine List.nodup_append.mpr ⟨h.nodup, List.nodup_singleton _, fun a ha b hb heq => ?_⟩
    rw [heq, List.mem_singleton.mp hb] at ha
    exact hfresh (h.called _ ha)
  · intro t' r hr hmem
    have hr' : .rootStart r ∈ T.queues t' := by
      rw [hT'] at hr
      change _ ∈ ((T.drawProc (some t)).push target (.functionCall f)).queues t' at hr
      rw [queues_push] at hr
      split at hr
      · exact (List.mem_append.mp hr).resolve_right (by simp)
      · exact hr
    rw [hcallees] at hmem
    rcases List.mem_append.mp hmem with hmem | hmem
    · exact h.roots hr' hmem
    · -- a root that waits has another identifier
      refine hfree.absent t' (List.mem_filterMap.mpr ⟨_, hr', ?_⟩)
      rw [← List.mem_singleton.mp hmem]
      rfl
  · rw [hcallees]
    have hseen : (fun t' => T'.onlyCalled (T'.startedOn t')) =
        fun t' => T.onlyCalled (T.startedOn t') := by
      funext t'
      rw [hstarted, hold (hnotStarted t')]
    rw [hseen]
    refine h.order.emit (t := target) fun t' => ?_
    rw [hstarting]
    split
    · have hmem : f.ti.procId ∈ T'.callees := by
        rw [hcallees]
        exact List.mem_append_right _ List.mem_cons_self
      rw [onlyCalled_append, hold (hfree.absent t'), onlyCalled_singleton_pos hmem]
    · exact hold (hfree.absent t')
  · rw [hcallees]
    intro q hq
    have hsize : T'.size = T.size := by rw [hT']; rfl
    rw [hsize, hstarted]
    rcases List.mem_append.mp hq with hq | hq
    · obtain ⟨t', ht', hmem⟩ := h.complete q hq
      refine ⟨t', ht', ?_⟩
      rw [hstarting]
      split
      · rw [← List.append_assoc]
        exact List.mem_append_left _ hmem
      · exact hmem
    · refine ⟨target, htarget, ?_⟩
      rw [hstarting, if_pos rfl, List.mem_singleton.mp hq]
      exact List.mem_append_right _ (List.mem_append_right _ List.mem_cons_self)

/-- A call is carried out. -/
theorem started (h : T.CallOrder) {f : FunctionCall V}
    (hq : T.queues t = .functionCall f :: rest) :
    (((T.pop t rest).enter t f).note (.started t f.ti.objId f.ti.procId)).CallOrder := by
  obtain ⟨T', hT'⟩ : ∃ T', T' = ((T.pop t rest).enter t f).note
      (.started t f.ti.objId f.ti.procId) := ⟨_, rfl⟩
  rw [← hT']
  have hcallees : T'.callees = T.callees := by
    rw [hT']
    exact filterMap_eq fun n hn => List.mem_singleton.mp hn ▸ rfl
  have hused : T'.log.filterMap Note.startedId = T.log.filterMap Note.startedId ++ [f.ti.procId] := by
    rw [hT']
    exact List.filterMap_append
  have hstarted : ∀ t', T'.startedOn t' =
      if t' = t then T.startedOn t' ++ [f.ti.procId] else T.startedOn t' := by
    intro t'
    rw [hT']
    refine Eq.trans List.filterMap_append ?_
    split
    · rename_i heq
      rw [heq]
      exact congrArg (_ ++ ·) (by simp [Note.startedOn])
    · rename_i hne
      have hnone : Note.startedOn t' (.started t f.ti.objId f.ti.procId) = none := if_neg (Ne.symm hne)
      rw [List.filterMap_cons, hnone]
      exact List.append_nil _
  have hhead : T.starting t = f.ti.procId :: rest.filterMap EventVariant.starts := by
    rw [starting, hq]
    rfl
  have hstarting : ∀ t', T'.starting t' =
      if t' = t then rest.filterMap EventVariant.starts else T.starting t' := by
    intro t'
    rw [hT']
    exact filterMap_pop T t t' rest _
  obtain ⟨hpop, hfree⟩ := h.tickets.pop hhead hstarting
  refine ⟨?_, ?_, ?_, ?_, ?_, ?_⟩
  · have hprocIds : T'.procIds = T.procIds := by rw [hT']; rfl
    rw [hused, hprocIds]
    exact hpop.use hfree
  · rw [hcallees, hT']
    exact h.called
  · rw [hcallees]
    exact h.nodup
  · intro t' r hr
    rw [hcallees]
    rw [hT'] at hr
    change _ ∈ (T.pop t rest).queues t' at hr
    rw [queues_pop] at hr
    split at hr
    · refine h.roots (t := t) ?_
      rw [hq]
      exact List.mem_cons_of_mem _ hr
    · exact h.roots hr
  · have honly : T'.onlyCalled = T.onlyCalled := by
      funext l
      rw [onlyCalled, onlyCalled, hcallees]
    simp only [hcallees, honly]
    by_cases hmem : f.ti.procId ∈ T.callees
    · -- a call that is carried out
      have hwaits : T.onlyCalled (T.starting t) =
          f.ti.procId :: T.onlyCalled (rest.filterMap EventVariant.starts) := by
        rw [hhead, onlyCalled_cons_pos hmem]
      refine h.order.receive hwaits (fun t' => ?_) fun t' => ?_
      · rw [hstarting]
        split <;> rfl
      · rw [hstarted]
        split
        · rw [onlyCalled_append, onlyCalled_singleton_pos hmem]
        · rfl
    · -- a root has no place in the order
      have hwaiting : (fun t' => T.onlyCalled (T'.starting t')) =
          fun t' => T.onlyCalled (T.starting t') := by
        funext t'
        rw [hstarting]
        split
        · rename_i heq
          rw [heq, hhead, onlyCalled_cons_neg hmem]
        · rfl
      have hseen : (fun t' => T.onlyCalled (T'.startedOn t')) =
          fun t' => T.onlyCalled (T.startedOn t') := by
        funext t'
        rw [hstarted]
        split
        · rw [onlyCalled_append, onlyCalled_singleton_neg hmem, List.append_nil]
        · rfl
      rw [hwaiting, hseen]
      exact h.order
  · rw [hcallees]
    intro q hq'
    obtain ⟨t', ht', hmem⟩ := h.complete q hq'
    refine ⟨t', hT' ▸ ht', ?_⟩
    rw [hstarted, hstarting]
    split
    · rename_i heq
      rw [heq, hhead] at hmem
      rw [heq, List.append_assoc]
      exact hmem
    · exact hmem

/-- A `RootStart` becomes a call. -/
theorem root (h : T.CallOrder) {r : RootStart V} {c : ConstructorCall V} {f : FunctionCall V}
    (hq : T.queues t = .rootStart r :: rest) (hf : f.ti = r.ti) :
    (((T.pop t rest).push t (.constructorCall c)).push t (.functionCall f)).CallOrder := by
  have hroot : r.ti.procId ∉ T.callees := h.roots (t := t) (hq ▸ List.mem_cons_self)
  have hhead : T.starting t = r.ti.procId :: rest.filterMap EventVariant.starts := by
    rw [starting, hq]
    rfl
  have hpopped : ∀ t', (T.pop t rest).starting t' =
      if t' = t then rest.filterMap EventVariant.starts else T.starting t' :=
    fun t' => filterMap_pop T t t' rest _
  obtain ⟨hpop, hfree⟩ := h.tickets.pop hhead hpopped
  obtain ⟨T', hT'⟩ : ∃ T', T' = ((T.pop t rest).push t (.constructorCall c)).push t
      (.functionCall f) := ⟨_, rfl⟩
  have hpushed : ∀ t', T'.starting t' = if t' = t then (T.pop t rest).starting t' ++ [r.ti.procId]
      else (T.pop t rest).starting t' := by
    intro t'
    rw [hT', ← hf]
    have hsame := filterMap_push_none (T.pop t rest) t t' (.constructorCall c) EventVariant.starts rfl
    have hcall := filterMap_push_some ((T.pop t rest).push t (.constructorCall c)) t t'
      (.functionCall f) EventVariant.starts rfl
    rw [hsame] at hcall
    exact hcall
  have hlog : T'.log = T.log := by rw [hT']; rfl
  have hcallees : T'.callees = T.callees := by rw [callees, hlog]; rfl
  have hstarted : T'.startedOn = T.startedOn := by
    funext t'
    rw [startedOn, hlog]
    rfl
  rw [← hT']
  refine ⟨?_, ?_, ?_, ?_, ?_, ?_⟩
  · have hprocIds : T'.procIds = T.procIds := by rw [hT']; rfl
    rw [hlog, hprocIds]
    exact hpop.push hfree hpushed
  · rw [hcallees, hT']
    exact h.called
  · rw [hcallees]
    exact h.nodup
  · intro t' r' hr
    rw [hcallees]
    have hold : .rootStart r' ∈ (T.pop t rest).queues t' := by
      rw [hT', queues_push, queues_push] at hr
      split at hr
      · simpa using hr
      · exact hr
    rw [queues_pop] at hold
    split at hold
    · refine h.roots (t := t) ?_
      rw [hq]
      exact List.mem_cons_of_mem _ hold
    · exact h.roots hold
  · have honly : T'.onlyCalled = T.onlyCalled := by
      funext l
      rw [onlyCalled, onlyCalled, hcallees]
    have hwaiting : (fun t' => T.onlyCalled (T'.starting t')) =
        fun t' => T.onlyCalled (T.starting t') := by
      funext t'
      rw [hpushed, hpopped]
      by_cases heq : t' = t
      · rw [if_pos heq, if_pos heq, heq, hhead, onlyCalled_append, onlyCalled_singleton_neg hroot,
          onlyCalled_cons_neg hroot, List.append_nil]
      · rw [if_neg heq, if_neg heq]
    rw [hcallees, honly, hwaiting, hstarted]
    exact h.order
  · rw [hcallees, hstarted]
    intro q hq'
    obtain ⟨t', ht', hmem⟩ := h.complete q hq'
    refine ⟨t', hT' ▸ ht', ?_⟩
    rcases List.mem_append.mp hmem with hmem | hmem
    · exact List.mem_append_left _ hmem
    · refine List.mem_append_right _ ?_
      have hne : q ≠ r.ti.procId := fun heq => hroot (heq ▸ hq')
      rw [hpushed, hpopped]
      by_cases heq : t' = t
      · rw [heq, hhead] at hmem
        rw [if_pos heq, if_pos heq]
        exact List.mem_append_left _ ((List.mem_cons.mp hmem).resolve_left hne)
      · rw [if_neg heq, if_neg heq]
        exact hmem

/-- A root is sent to the first thread. -/
theorem rootEvent (h : T.CallOrder) {r : RootStart V}
    (hr : r.ti = ⟨(getId T.objIds none).1, (getId T.procIds none).1⟩) :
    (((T.drawObj none).drawProc none).push 0 (.rootStart r)).CallOrder := by
  have hid : r.ti.procId = (getId T.procIds none).1 := by rw [hr]
  have hfresh : ¬ Taken T.procIds r.ti.procId := hid ▸ not_taken_getId T.procIds none
  obtain ⟨T', hT'⟩ : ∃ T', T' = ((T.drawObj none).drawProc none).push 0 (.rootStart r) := ⟨_, rfl⟩
  have htaken : ∀ id, Taken T'.procIds id ↔ Taken T.procIds id ∨ id = r.ti.procId := by
    intro id
    rw [hT', hid]
    exact taken_getId T.procIds none id
  have hcallees : T'.callees = T.callees := by rw [hT']; rfl
  have hstarted : T'.startedOn = T.startedOn := by rw [hT']; rfl
  have hstarting : ∀ t', T'.starting t' =
      if t' = 0 then T.starting t' ++ [r.ti.procId] else T.starting t' := by
    intro t'
    rw [hT']
    exact filterMap_push_some ((T.drawObj none).drawProc none) 0 t' (.rootStart r) _ rfl
  have hfree : Free (Taken T'.procIds) T.starting (T.log.filterMap Note.startedId) r.ti.procId :=
    h.tickets.free_of_not_issued hfresh ((htaken _).mpr (Or.inr rfl))
  have hnot : r.ti.procId ∉ T.callees := fun hmem => hfresh (h.called _ hmem)
  rw [← hT']
  refine ⟨?_, ?_, ?_, ?_, ?_, ?_⟩
  · have hlog : T'.log = T.log := by rw [hT']; rfl
    rw [hlog]
    exact Tickets.push (h.tickets.mono fun id hid => (htaken id).mpr (Or.inl hid)) hfree hstarting
  · rw [hcallees]
    exact fun q hq => (htaken q).mpr (Or.inl (h.called q hq))
  · rw [hcallees]
    exact h.nodup
  · intro t' r' hr'
    rw [hcallees]
    rw [hT', queues_push] at hr'
    split at hr'
    · rcases List.mem_append.mp hr' with hr' | hr'
      · exact h.roots hr'
      · obtain rfl := EventVariant.rootStart.inj (List.mem_singleton.mp hr')
        exact hnot
    · exact h.roots hr'
  · have honly : T'.onlyCalled = T.onlyCalled := by
      funext l
      rw [onlyCalled, onlyCalled, hcallees]
    have hwaiting : (fun t' => T.onlyCalled (T'.starting t')) =
        fun t' => T.onlyCalled (T.starting t') := by
      funext t'
      rw [hstarting]
      split
      · rw [onlyCalled_append, onlyCalled_singleton_neg hnot, List.append_nil]
      · rfl
    rw [hcallees, honly, hwaiting, hstarted]
    exact h.order
  · rw [hcallees, hstarted]
    intro q hq
    obtain ⟨t', ht', hmem⟩ := h.complete q hq
    refine ⟨t', hT' ▸ ht', ?_⟩
    rw [hstarting]
    split
    · rw [← List.append_assoc]
      exact List.mem_append_left _ hmem
    · exact hmem

/-- Every move keeps the order of the calls. -/
theorem move (h : T.CallOrder) (hT : Move T T') : T'.CallOrder := by
  cases hT with
  | construct t c hc =>
    have hdraw : SameCalls T (T.drawObj (some t)) := { SameCalls.refl T with }
    exact h.same (hdraw.push t rfl)
  | call t target f l htarget hf hci => exact h.call htarget hf
  | delete t d => exact h.same ((SameCalls.refl T).push t rfl)
  | aside n hn =>
    refine h.same ((SameCalls.refl T).note ?_)
    rcases hn with hn | ⟨t, o, rfl⟩
    · cases n <;> first | exact ⟨rfl, rfl⟩ | exact absurd hn id
    · exact ⟨rfl, rfl⟩
  | result q s c => exact h.same ((SameCalls.refl T).note ⟨rfl, rfl⟩)
  | completion t t' d q s c hd hcaller => exact h.same (((SameCalls.refl T).note ⟨rfl, rfl⟩).push t' rfl)
  | data t d hd => exact h.same ((SameCalls.refl T).push t rfl)
  | started t f rest ht hq => exact h.started hq
  | delivered t d event rest hq => exact h.same ((SameCalls.pop T hq rfl).note ⟨rfl, rfl⟩)
  | taken t m rest hq hm => exact h.same (SameCalls.pop T hq hm)
  | root t r c f rest ht hq hc hf hci => exact h.root hq hf
  | forget entered _ => exact h.same { SameCalls.refl T with }
  | rootEvent r hsize hr => exact h.rootEvent hr

end CallOrder

end Traffic

namespace World

/-- Each call that was queued is carried out once, on one thread and in its order. -/
structure CallsInOrder (w : World V σ) : Prop where
  once : ∀ q ∈ w.traffic.callees, ∃ t < w.size,
    (w.traffic.startedOn t ++ w.traffic.starting t).count q = 1 ∧
      ∀ t', t' ≠ t → q ∉ w.traffic.startedOn t' ++ w.traffic.starting t'
  order : ∀ t, (w.traffic.onlyCalled (w.traffic.startedOn t ++ w.traffic.starting t)).Sublist
    w.traffic.callees
  /-- A single thread carries out all calls. -/
  single : w.size = 1 →
    w.traffic.onlyCalled (w.traffic.startedOn 0 ++ w.traffic.starting 0) = w.traffic.callees

end World

namespace Traffic.CallOrder

variable {T : Traffic V}

/-- What a thread has started and will start are different procedures. -/
theorem nodup_thread (h : T.CallOrder) (t : Nat) : (T.startedOn t ++ T.starting t).Nodup := by
  have hstarted : (T.startedOn t).Nodup :=
    nodup_filterMap_mono h.tickets.once fun n p hp => (Note.startedId_of_startedOn hp).1
  refine List.nodup_append.mpr ⟨hstarted, h.tickets.nodup t, fun p hp p' hp' heq => ?_⟩
  obtain ⟨n, hn, hnote⟩ := List.mem_filterMap.mp hp
  refine h.tickets.unused (heq ▸ hp') (List.mem_filterMap.mpr ⟨n, hn, ?_⟩)
  exact (Note.startedId_of_startedOn hnote).1

/-- No procedure is started by two threads. -/
theorem thread_unique (h : T.CallOrder) {t t' : Nat} {q : Id}
    (ht : q ∈ T.startedOn t ++ T.starting t) (ht' : q ∈ T.startedOn t' ++ T.starting t') :
    t' = t := by
  have hused : ∀ {t}, q ∈ T.startedOn t → q ∈ T.log.filterMap Note.startedId := by
    intro t hq
    obtain ⟨n, hn, hnote⟩ := List.mem_filterMap.mp hq
    exact List.mem_filterMap.mpr ⟨n, hn, (Note.startedId_of_startedOn hnote).1⟩
  rcases List.mem_append.mp ht with ht | ht
  · rcases List.mem_append.mp ht' with ht' | ht'
    · obtain ⟨n, hn, hnote⟩ := List.mem_filterMap.mp ht
      obtain ⟨n', hn', hnote'⟩ := List.mem_filterMap.mp ht'
      have hsame := eq_of_nodup_filterMap h.tickets.once hn hn'
        (Note.startedId_of_startedOn hnote).1 (Note.startedId_of_startedOn hnote').1
      rw [← hsame] at hnote'
      exact (Note.startedId_of_startedOn hnote).2 t' hnote'
    · exact absurd (hused ht) (h.tickets.unused ht')
  · rcases List.mem_append.mp ht' with ht' | ht'
    · exact absurd (hused ht') (h.tickets.unused ht)
    · exact h.tickets.apart ht' ht

end Traffic.CallOrder

namespace World

variable {P : Program V σ}

theorem start_callOrder (size : Nat) (malloc : Nat → Nat) (heap : σ) :
    ({ size, malloc, heap } : World V σ).traffic.CallOrder where
  tickets := tickets_empty
  called _ hq := absurd hq List.not_mem_nil
  nodup := List.nodup_nil
  roots hr := absurd hr List.not_mem_nil
  order := inOrder_empty
  complete _ hq := absurd hq List.not_mem_nil

/-- In every run on any number of threads, each call that a handler queued is carried out once, and
each thread carries its calls out in the order in which they were queued. -/
theorem callsInOrder (P : Program V σ) (size : Nat) (malloc : Nat → Nat) (heap : σ) (w : World V σ)
    (h : Reached (step P) (fun _ _ => True) { size, malloc, heap } w) : w.CallsInOrder := by
  have hinv : w.traffic.CallOrder :=
    moves_invariant h (start_callOrder size malloc heap) fun T T' hT hmove => hT.move hmove
  have horder : ∀ t, (w.traffic.onlyCalled (w.traffic.startedOn t ++ w.traffic.starting t)).Sublist
      w.traffic.callees := by
    intro t
    rw [Traffic.onlyCalled_append]
    exact hinv.order t
  refine ⟨fun q hq => ?_, horder, fun hsize => ?_⟩
  · obtain ⟨t, ht, hmem⟩ := hinv.complete q hq
    refine ⟨t, ht, List.count_eq_one_of_mem (hinv.nodup_thread t) hmem, fun t' hne hmem' => ?_⟩
    exact hne (hinv.thread_unique hmem hmem')
  · rw [Traffic.onlyCalled_append]
    refine hinv.order.eq_of_forall_mem hinv.nodup fun q hq => ?_
    obtain ⟨t, ht, hmem⟩ := hinv.complete q hq
    obtain rfl : t = 0 := Nat.lt_one_iff.mp (hsize ▸ ht)
    rw [← Traffic.onlyCalled_append]
    exact List.mem_filter.mpr ⟨hmem, decide_eq_true hq⟩

/-- The calls of a parent, and of a child that waits for its own child, were carried out. -/
theorem team_calls : ∃ w, Reached (step (team true)) (fun _ _ => True) team₀ w ∧
    w.traffic.callees = [some 1000, some 1001] ∧ w.CallsInOrder := by
  have hcallees : (runActions (step (team true)) (teamActions 11) team₀).map
      (fun w => w.traffic.callees) = .ok [some 1000, some 1001] := by
    decide +kernel
  obtain ⟨w, hrun, hcallees⟩ := exists_of_map_eq_ok hcallees
  have hreached : Reached (step (team true)) (fun _ _ => True) team₀ w :=
    reached_of_runActions .start (meets_true _ _) hrun
  exact ⟨w, hreached, hcallees, callsInOrder (team true) 1 id () w hreached⟩

end World

end LocalSoftware
