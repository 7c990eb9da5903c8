import LocalSoftware.Common.History
import LocalSoftware.Library.Ledger

/-!
# The procedures of the objects

With one worker thread, `proc_to_dat` and the `assoc_procs` of the objects are a `Ledger`: the
procedures in the table are the disjoint union of the lists. `handled_accounts` carries this through
the handling of a message: a call enters its procedure, which nobody owned, and a deletion removes
an object with its procedures.
-/

set_option autoImplicit false

namespace LocalSoftware

variable {V : Vocabulary} {σ : Type}

/-- The procedure that a message will start. -/
def EventVariant.newProc : EventVariant V → Option Id
  | .functionCall f => some f.ti.procId
  | .rootStart r => some r.ti.procId
  | _ => none

namespace World

variable {w w' : World V σ} {t ctx : Nat} {ti : TargetInfo} {es : EventState V} {P : Program V σ}
  {m : EventVariant V} {rest : List (EventVariant V)}

/-- The `assoc_procs` of the objects. -/
def procLists (w : World V σ) : Id → Option (List Id) :=
  fun o => ((w.threads 0).objInfo o).map (·.assocProcs)

/-- The `assoc_obj` of the procedures. -/
def procOwner (w : World V σ) : Id → Option Id :=
  fun p => ((w.threads 0).procToDat p).map (·.assocObj)

/-- The procedures that the messages of the queue will start. -/
def newProcs (w : World V σ) : List Id := (w.queues 0).filterMap EventVariant.newProc

/-- The procedures in the table are those of the objects; the procedures that will be started are
told apart, and not in the table yet. -/
structure Accounts (w : World V σ) : Prop where
  size : w.size = 1
  ledger : Ledger w.procLists w.procOwner
  takenOwner : ∀ {p k}, w.procOwner p = some k → Taken w.procIds p
  fresh : ∀ {p}, p ∈ w.newProcs → Taken w.procIds p ∧ w.procOwner p = none
  apart : w.newProcs.Nodup

/-! ## The tables after an update -/

theorem procLists_congr (h : (w'.threads 0).objInfo = (w.threads 0).objInfo) :
    w'.procLists = w.procLists := by
  funext o
  rw [procLists, procLists, h]

theorem procOwner_congr (h : (w'.threads 0).procToDat = (w.threads 0).procToDat) :
    w'.procOwner = w.procOwner := by
  funext p
  rw [procOwner, procOwner, h]

theorem procLists_setObject (id : Id) (obj : ObjectDataThreaded) :
    (w.setThread 0 ((w.threads 0).setObject id obj)).procLists =
      Function.update w.procLists id (some obj.assocProcs) := by
  funext o
  simp only [procLists, threads_setThread_self, ThreadData.objInfo_setObject, Function.update_apply]
  split <;> rfl

theorem procOwner_setProc (id : Id) (d : CallDataThreaded) :
    (w.setThread 0 ((w.threads 0).setProc id d)).procOwner =
      Function.update w.procOwner id (some d.assocObj) := by
  funext p
  simp only [procOwner, threads_setThread_self, ThreadData.procToDat_setProc, Function.update_apply]
  split <;> rfl

theorem newProcs_enqueue : (w.enqueue 0 m).newProcs = w.newProcs ++ m.newProc.toList := by
  unfold newProcs
  rw [queues_enqueue, if_pos rfl, List.filterMap_append]
  cases hm : m.newProc <;> simp [hm]

theorem newProcs_pop (hq : w.queues 0 = m :: rest) :
    w.newProcs = m.newProc.toList ++ (w.pop 0 rest).newProcs := by
  unfold newProcs
  rw [hq, queues_pop, if_pos rfl, List.filterMap_cons]
  cases m.newProc <;> rfl

namespace Accounts

theorem congr (h : w.Accounts) (hsize : w'.size = w.size) (hlists : w'.procLists = w.procLists)
    (howner : w'.procOwner = w.procOwner) (hnew : w'.newProcs = w.newProcs)
    (hids : ∀ id, Taken w.procIds id → Taken w'.procIds id) : w'.Accounts where
  size := hsize.trans h.size
  ledger := by
    rw [hlists, howner]
    exact h.ledger
  takenOwner hp := hids _ (h.takenOwner (howner ▸ hp))
  fresh hp := by
    rw [hnew] at hp
    rw [howner]
    exact (h.fresh hp).imp_left (hids _)
  apart := hnew ▸ h.apart

theorem sameCore (h : w.Accounts) (hw : SameCore 0 w w') : w'.Accounts :=
  h.congr hw.size (procLists_congr hw.objInfo) (procOwner_congr hw.procToDat)
    (congrArg (fun queues => (queues 0).filterMap EventVariant.newProc) hw.queues)
    fun _ hid => hw.procIds.symm ▸ hid

/-- A message that starts no procedure. -/
theorem enqueue (h : w.Accounts) (hm : m.newProc = none) : (w.enqueue 0 m).Accounts := by
  refine h.congr rfl rfl rfl ?_ fun _ hid => hid
  rw [newProcs_enqueue, hm]
  exact List.append_nil _

/-- The entry of an object changes, but not its procedures. -/
theorem setObject (h : w.Accounts) (id : Id) (obj : ObjectDataThreaded)
    (hobj : obj.assocProcs = ((w.threads 0).object id).assocProcs) :
    (w.setThread 0 ((w.threads 0).setObject id obj)).Accounts where
  size := h.size
  ledger := by
    rw [procLists_setObject]
    cases ho : (w.threads 0).objInfo id with
    | none =>
      have hnil : obj.assocProcs = [] := by
        rw [hobj, ThreadData.object, ho]
        rfl
      rw [hnil]
      exact h.ledger.insert (by rw [procLists, ho]; rfl)
    | some old =>
      have hsame : w.procLists id = some obj.assocProcs := by
        rw [hobj, ThreadData.object, ho, procLists, ho]
        rfl
      rw [← hsame, Function.update_eq_self]
      exact h.ledger
  takenOwner hp := h.takenOwner hp
  fresh hp := h.fresh hp
  apart := h.apart

/-- The entry of a procedure changes, but not its object. -/
theorem setProc (h : w.Accounts) {id k : Id} (hid : w.procOwner id = some k)
    (d : CallDataThreaded) (hd : d.assocObj = ((w.threads 0).proc id).assocObj) :
    (w.setThread 0 ((w.threads 0).setProc id d)).Accounts := by
  refine h.congr rfl ?_ ?_ rfl fun _ hid => hid
  · funext o
    rw [procLists, threads_setThread_self]
    rfl
  · obtain ⟨c, hc, -⟩ := Option.map_eq_some_iff.mp hid
    have hsame : w.procOwner id = some d.assocObj := by
      rw [hd, ThreadData.proc, hc, procOwner, hc]
      rfl
    rw [procOwner_setProc, ← hsame, Function.update_eq_self]

/-- A call is sent, for a procedure with a new identifier. -/
theorem addCall (h : w.Accounts) (q : EventQueuedFunction V) (objectId : Id) :
    (w.addCall 0 ctx ti q objectId 0).Accounts := by
  have hfresh := not_taken_getId w.procIds (some 0)
  have hids : ∀ id, Taken w.procIds id → Taken (getId w.procIds (some 0)).2 id :=
    fun id hid => (taken_getId _ _ id).mpr (Or.inl hid)
  have hobject := h.setObject ti.objId { (w.threads 0).object ti.objId with
    children := setChild ((w.threads 0).object ti.objId).children objectId fun info =>
      { thread := 0, procedures := info.procedures ++ [(getId w.procIds (some 0)).1] } } rfl
  have hnew : (w.addCall 0 ctx ti q objectId 0).newProcs =
      w.newProcs ++ [(getId w.procIds (some 0)).1] := by
    unfold newProcs
    obtain ⟨f, hf, -, hqueues⟩ := message_addCall w 0 ctx ti q objectId 0
    rw [hqueues, if_pos rfl, List.filterMap_append]
    simp only [List.filterMap_cons, List.filterMap_nil, EventVariant.newProc, hf]
  exact {
    size := h.size
    ledger := hobject.ledger
    takenOwner := fun hp => hids _ (h.takenOwner hp)
    fresh := fun {p} hp => by
      rw [hnew] at hp
      rcases List.mem_append.mp hp with hp | hp
      · exact (h.fresh hp).imp_left (hids p)
      · rw [List.mem_singleton.mp hp]
        refine ⟨(taken_getId _ _ _).mpr (Or.inr rfl), ?_⟩
        by_contra howner
        obtain ⟨k, hk⟩ := Option.ne_none_iff_exists'.mp howner
        exact hfresh (h.takenOwner hk)
    apart := by
      rw [hnew]
      refine List.nodup_append.mpr ⟨h.apart, List.nodup_singleton _, ?_⟩
      rintro a ha b hb rfl
      rw [List.mem_singleton.mp hb] at ha
      exact hfresh (h.fresh ha).1 }

theorem queued (h : w.Accounts) (hw : Queued 0 ctx ti es w w') : w'.Accounts := by
  rcases hw.essential with hsame | hessential
  · exact h.sameCore hsame
  · have hzero : ∀ {n}, n < w.size → n = 0 := fun hn => Nat.lt_one_iff.mp (h.size ▸ hn)
    cases hessential with
    | child q runThread _ =>
      have hobject := h.setObject ti.objId { (w.threads 0).object ti.objId with
        children := setChild ((w.threads 0).object ti.objId).children
          (getId w.objIds (some 0)).1 fun _ => {} } rfl
      refine hobject.congr rfl rfl rfl ?_ fun _ hid => hid
      obtain ⟨c, -, -, -, hqueues⟩ := message_addChild w 0 ctx ti q runThread
      rw [newProcs, hqueues, if_pos rfl, List.filterMap_append]
      exact List.append_nil _
    | call q info l target _ _ _ _ htarget =>
      obtain rfl := hzero htarget
      exact h.addCall q l.objectId
    | delete q thread _ _ hthread =>
      obtain rfl := hzero hthread
      exact h.enqueue rfl
    | dropChild q _ => exact h.setObject ti.objId _ rfl

end Accounts

/-- The updates of a handler run change no procedure. -/
theorem Queued.procOwner_eq (hw : Queued 0 ctx ti es w w') : w'.procOwner = w.procOwner := by
  rcases hw.essential with hsame | hessential
  · exact procOwner_congr hsame.procToDat
  · cases hessential with
    | child q runThread _ => exact procOwner_congr (procToDat_addChild q runThread)
    | call q info l target _ _ _ _ _ => exact procOwner_congr (procToDat_addCall q _ target)
    | delete q thread _ _ _ => rfl
    | dropChild q _ => exact procOwner_congr (procToDat_dropChild q.objId)

theorem processQueued_accounts (hw : w.processQueued 0 ctx ti es = .ok w') (h : w.Accounts) :
    w'.Accounts ∧ w'.procOwner = w.procOwner :=
  transGen_invariant (I := fun w₁ => w₁.Accounts ∧ w₁.procOwner = w.procOwner)
    (processQueued_queued hw) ⟨h, rfl⟩
    fun _ _ hI hq => ⟨hI.1.queued hq, hq.procOwner_eq.trans hI.2⟩

namespace Accounts

/-! ## The handling of a message -/

theorem pop (h : w.Accounts) (hq : w.queues 0 = m :: rest) : (w.pop 0 rest).Accounts where
  size := h.size
  ledger := h.ledger
  takenOwner hp := h.takenOwner hp
  fresh hp := h.fresh (by rw [newProcs_pop hq]; exact List.mem_append_right _ hp)
  apart := by
    have hapart := h.apart
    rw [newProcs_pop hq] at hapart
    exact (List.nodup_append.mp hapart).2.1

/-- A call is carried out: its procedure is entered. -/
theorem enter (h : w.Accounts) {f : FunctionCall V} {obj : ObjectDataThreaded}
    (hq : w.queues 0 = .functionCall f :: rest)
    (hobj : (w.threads 0).objInfo f.ti.objId = some obj) :
    ((w.pop 0 rest).enter 0 f obj).Accounts ∧
      ((w.pop 0 rest).enter 0 f obj).procOwner f.ti.procId = some f.ti.objId := by
  have hpop := h.pop hq
  have hnew : w.newProcs = f.ti.procId :: (w.pop 0 rest).newProcs := newProcs_pop hq
  obtain ⟨htaken, hnone⟩ := h.fresh (hnew ▸ List.mem_cons_self)
  -- the procedure is added to the list of its object, and has it as its owner
  have hlists : ((w.pop 0 rest).enter 0 f obj).procLists =
      Function.update w.procLists f.ti.objId (some (obj.assocProcs ++ [f.ti.procId])) := by
    funext o
    rw [procLists, objInfo_enter_self, Function.update_apply]
    split <;> rfl
  have howner : ((w.pop 0 rest).enter 0 f obj).procOwner =
      Function.update w.procOwner f.ti.procId (some f.ti.objId) := by
    funext p
    rw [procOwner, procToDat_enter_self, Function.update_apply]
    split <;> rfl
  refine ⟨?_, by rw [howner, Function.update_self]⟩
  exact {
    size := h.size
    ledger := by
      rw [hlists, howner]
      exact h.ledger.enter (by rw [procLists, hobj]; rfl) hnone
    takenOwner := fun {p k} hp => by
      rw [howner, Function.update_apply] at hp
      split at hp
      · rename_i heq
        exact heq ▸ htaken
      · exact h.takenOwner hp
    -- a procedure still in the queue is another one
    fresh := fun {p} hp => by
      have hapart := h.apart
      rw [hnew, List.nodup_cons] at hapart
      refine ⟨(hpop.fresh hp).1, ?_⟩
      rw [howner, Function.update_of_ne]
      · exact (hpop.fresh hp).2
      · rintro rfl
        exact hapart.1 hp
    apart := hpop.apart }

theorem note (h : w.Accounts) (n : Note) : (w.note n).Accounts :=
  h.congr rfl rfl rfl rfl fun _ hid => hid

theorem respond (h : w.Accounts) {f : FunctionCall V} {resp : CallResponse} {k : Id}
    (hf : w.procOwner f.ti.procId = some k) (hw : w.respond 0 f resp = .ok w') : w'.Accounts := by
  obtain ⟨d, -, hd, hcases⟩ := respond_cases hw
  have hproc := h.setProc hf d hd
  obtain ⟨-, rfl⟩ | ⟨failed, code, -, ⟨-, rfl⟩ | ⟨t', -, hlt, rfl⟩⟩ := hcases
  · exact hproc
  · exact hproc.note _
  · obtain rfl : t' = 0 := Nat.lt_one_iff.mp (h.size ▸ hlt)
    exact (hproc.note _).enqueue rfl

theorem report (h : w.Accounts) {y : Yielded} {k : Id} (hti : w.procOwner ti.procId = some k)
    (hw : w.report 0 ti y = .ok w') : w'.Accounts := by
  obtain ⟨-, rfl⟩ | ⟨failed, code, t', -, -, hlt, rfl⟩ := report_cases hw
  · exact h
  · obtain rfl : t' = 0 := Nat.lt_one_iff.mp (h.size ▸ hlt)
    have hproc := h.setProc hti
      { (w.threads 0).proc ti.procId with status := resultStatus failed } rfl
    exact (hproc.note _).enqueue rfl

theorem forward (h : w.Accounts) (d : Data) (attachers : List (Id × Id)) :
    (w.forward 0 d attachers).Accounts :=
  forward_invariant (I := Accounts) h fun _ _ _ h => h.enqueue rfl

theorem submit (h : w.Accounts) : (w.submit 0).Accounts := h.sameCore (SameCore.refl 0 w).submit

theorem deleteChildren (h : w.Accounts) {ci : CallerInfo} {children : List (Id × ChildObjectInfo)}
    (hw : w.deleteChildren ci children = .ok w') : w'.Accounts := by
  refine deleteChildren_invariant (I := Accounts) hw h fun w child _ h hlt => ?_
  obtain hzero : child.2.thread = 0 := Nat.lt_one_iff.mp (h.size ▸ hlt)
  rw [hzero]
  exact h.enqueue rfl

/-- An object ends, with its procedures. -/
theorem erase (h : w.Accounts) (id : Id) : (w.erase P 0 id).Accounts := by
  have hlists : (w.erase P 0 id).procLists = Function.update w.procLists id none := by
    funext o
    rw [procLists, objInfo_erase_self, Function.update_apply]
    split <;> rfl
  have hprocs : (w.procLists id).getD [] = ((w.threads 0).object id).assocProcs := by
    rw [procLists, ThreadData.object]
    cases (w.threads 0).objInfo id <;> rfl
  have hend : ∀ p ∈ (w.procLists id).getD [], (w.erase P 0 id).procOwner p = none := by
    intro p hp
    rw [procOwner, procToDat_erase_self, if_pos (hprocs ▸ hp)]
    rfl
  have hkeep : ∀ p ∉ (w.procLists id).getD [], (w.erase P 0 id).procOwner p = w.procOwner p := by
    intro p hp
    rw [procOwner, procToDat_erase_self, if_neg fun hp' => hp (hprocs ▸ hp')]
    rfl
  have hsub : ∀ {p k}, (w.erase P 0 id).procOwner p = some k → w.procOwner p = some k := by
    intro p k hp
    by_cases hmem : p ∈ (w.procLists id).getD []
    · rw [hend p hmem] at hp
      cases hp
    · exact hkeep p hmem ▸ hp
  exact {
    size := h.size
    ledger := hlists ▸ h.ledger.remove id hend hkeep
    takenOwner := fun hp => h.takenOwner (hsub hp)
    fresh := fun {p} hp => by
      refine ⟨(h.fresh hp).1, ?_⟩
      by_contra howner
      obtain ⟨k, hk⟩ := Option.ne_none_iff_exists'.mp howner
      have hbefore := hsub hk
      rw [(h.fresh hp).2] at hbefore
      cases hbefore
    apart := h.apart }

/-- A root is started: its procedure is passed on to the call. -/
theorem root (h : w.Accounts) {r : RootStart V} (hq : w.queues 0 = .rootStart r :: rest) :
    ((w.pop 0 rest).rootReceived 0 r).Accounts := by
  have hpop := h.pop hq
  have hnew : w.newProcs = r.ti.procId :: (w.pop 0 rest).newProcs := newProcs_pop hq
  have hlater : ((w.pop 0 rest).rootReceived 0 r).newProcs =
      (w.pop 0 rest).newProcs ++ [r.ti.procId] := by
    unfold rootReceived
    rw [newProcs_enqueue, newProcs_enqueue]
    simp [EventVariant.newProc]
  have hperm : ((w.pop 0 rest).rootReceived 0 r).newProcs.Perm w.newProcs := by
    rw [hlater, hnew]
    exact List.perm_append_singleton _ _
  exact {
    size := h.size
    ledger := h.ledger
    takenOwner := fun hp => h.takenOwner hp
    fresh := fun hp => h.fresh (hperm.mem_iff.mp hp)
    apart := hperm.nodup_iff.mpr h.apart }

/-- A root event is initialized, for a procedure with a new identifier. -/
theorem rootEvent (h : w.Accounts) (r : RootStart V) (hr : r.ti.procId = (getId w.procIds none).1) :
    ({ w with
        objIds := (getId w.objIds none).2
        procIds := (getId w.procIds none).2 }.enqueue 0 (.rootStart r)).Accounts := by
  have hfresh := not_taken_getId w.procIds none
  have hids : ∀ id, Taken w.procIds id → Taken (getId w.procIds none).2 id :=
    fun id hid => (taken_getId _ _ id).mpr (Or.inl hid)
  have hnew : ({ w with
      objIds := (getId w.objIds none).2
      procIds := (getId w.procIds none).2 }.enqueue 0 (.rootStart r)).newProcs =
        w.newProcs ++ [(getId w.procIds none).1] := by
    rw [newProcs_enqueue, EventVariant.newProc, hr]
    rfl
  exact {
    size := h.size
    ledger := h.ledger
    takenOwner := fun hp => hids _ (h.takenOwner hp)
    fresh := fun {p} hp => by
      rw [hnew] at hp
      rcases List.mem_append.mp hp with hp | hp
      · exact (h.fresh hp).imp_left (hids p)
      · rw [List.mem_singleton.mp hp]
        refine ⟨(taken_getId _ _ _).mpr (Or.inr rfl), ?_⟩
        by_contra howner
        obtain ⟨k, hk⟩ := Option.ne_none_iff_exists'.mp howner
        exact hfresh (h.takenOwner hk)
    apart := by
      rw [hnew]
      refine List.nodup_append.mpr ⟨h.apart, List.nodup_singleton _, ?_⟩
      rintro a ha b hb rfl
      rw [List.mem_singleton.mp hb] at ha
      exact hfresh (h.fresh ha).1 }

end Accounts

/-- Up to its `process_queued`, a construction changes no procedure. -/
theorem Accounts.sameTables (h : w.Accounts) (hq : w.queues 0 = m :: rest) {shared : Option Nat}
    {w₁ : World V σ} {heap : σ} {id : Id} {slot : Option (Id × V.TypeIndex × Nat)}
    (htake : (w.pop 0 rest).takeContext shared = (ctx, w₁))
    (hslot : (w₁.afterHandler ctx es heap).fillSlot 0 slot id = .ok w') : w'.Accounts := by
  obtain ⟨hsize, hqueues, hthreads, -, hids, -⟩ := filled_same htake hslot
  exact (h.pop hq).congr hsize (procLists_congr (by rw [hthreads]))
    (procOwner_congr (by rw [hthreads]))
    (congrArg (fun queues => (queues 0).filterMap EventVariant.newProc) hqueues)
    fun id hid => hids.symm ▸ hid

theorem handled_accounts (h : w.Accounts) (hw : Handled P 0 w w') : w'.Accounts := by
  cases hw with
  | idle _ => exact h
  | @constructed c rest ctx w₁ w₂ w₃ heap es hq htake hrun hslot hnew hqueued =>
    have hobject := (h.sameTables hq htake hslot).setObject c.ti.objId { ptr := some ctx } (by
      rw [ThreadData.object, hnew]
      rfl)
    exact (processQueued_accounts hqueued hobject).1.submit
  | reconstructed hq htake hrun hslot hold => exact (h.sameTables hq htake hslot).submit
  | @called f rest obj ctx resp heap es w₂ w₃ hq ho hptr hrun hqueued hrespond =>
    obtain ⟨henter, howner⟩ := h.enter hq ho
    obtain ⟨hprocessed, hsame⟩ := processQueued_accounts hqueued
      (henter.congr rfl rfl rfl rfl fun _ hid => hid)
    exact (hprocessed.respond (by rw [hsame]; exact howner) hrespond).submit
  | @delivered d rest obj c ctx y heap es w₂ w₃ hq ho hd hptr hrun hqueued hreport =>
    obtain ⟨hprocessed, hsame⟩ := processQueued_accounts hqueued
      ((h.pop hq).congr rfl rfl rfl rfl fun _ hid => hid)
    have howner : w₂.procOwner d.ti.procId = some c.assocObj := by
      rw [hsame]
      exact congrArg (Option.map _) hd
    exact ((hprocessed.report howner hreport).forward _ _).submit
  | dropped hq hmissing => exact (h.pop hq).submit
  | deleted hq hdeleted => exact (((h.pop hq).deleteChildren hdeleted).erase _).submit
  | root hq => exact (h.root hq).submit

theorem Accounts.other {a : Action V} (h : w.Accounts) (ha : ∀ t, a ≠ .dequeue t)
    (hstep : w.step P a = .ok w') : w'.Accounts := by
  obtain ⟨t, hlt, huring⟩ | ⟨t, hsame, -⟩ | ⟨constructor, init, hroot⟩ := step_other hstep ha
  · obtain rfl : t = 0 := Nat.lt_one_iff.mp (h.size ▸ hlt)
    exact processUring_core huring h (fun _ _ hsame h => h.sameCore hsame)
      fun _ _ _ _ _ h => h.enqueue rfl
  · by_cases ht : t = 0
    · subst ht
      exact h.sameCore hsame
    · have hthread := hsame.threads 0 (Ne.symm ht)
      refine h.congr hsame.size (procLists_congr (by rw [hthread]))
        (procOwner_congr (by rw [hthread])) ?_ fun id hid => hsame.procIds.symm ▸ hid
      exact congrArg (fun queues => (queues 0).filterMap EventVariant.newProc) hsame.queues
  · obtain ⟨-, rfl⟩ := initializeRootEvent_eq hroot
    exact h.rootEvent _ rfl

end World

end LocalSoftware
