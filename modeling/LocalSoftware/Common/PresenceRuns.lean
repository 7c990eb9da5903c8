import LocalSoftware.Common.CallTargets
import LocalSoftware.Common.Presence

/-!
# Messages find their objects alive: the runs

`handled_attending` carries `Attending` through the handling of a message, and `attended_of_orderly`
through a run in which every handler is `Orderly`: it queues no construction behind the deletion of
its own object, and it calls and deletes only objects that live.
-/

set_option autoImplicit false

namespace LocalSoftware

variable {V : Vocabulary} {σ : Type}

namespace World

variable {w w' : World V σ} {t ctx : Nat} {ti : TargetInfo} {es : EventState V} {P : Program V σ}
  {o : Id} {m : EventVariant V} {rest : List (EventVariant V)}

/-! ## The condition -/

/-- The objects of the calls that a handler queued. -/
def callees (es : EventState V) : List Id :=
  es.function.filterMap fun q =>
    ((es.uringData.slot q.idx q.vidx).bind (·.locator)).map (·.objectId)

/-- A handler constructs nothing when the deletion of its own object is queued, and calls and
deletes living objects only, each once. -/
structure Careful (w : World V σ) (ti : TargetInfo) (es : EventState V) : Prop where
  constructs : es.construct ≠ [] → ∀ d, .delete d ∈ w.queues 0 → d.ti.objId ≠ ti.objId
  calls : ∀ o ∈ callees es, w.Lives o
  deletes : ∀ o ∈ es.delete.map (·.objId), w.Lives o
  apart : (es.delete.map (·.objId)).Nodup

/-- The condition on a step: the handler is careful, and the children of an object that ends
live. -/
def Orderly (P : Program V σ) (w : World V σ) : Action V → Prop
  | .dequeue t => ∀ m rest, w.queues t = m :: rest →
      (∀ ctx ti es, w.handlerState P t m = some (ctx, ti, es) → w.Careful ti es) ∧
      ∀ d, m = .delete d → ∀ child ∈ ((w.threads t).object d.ti.objId).children, w.Lives child.1
  | _ => True

/-! ## A message is taken -/

/-- Without the front message, the objects that live are the same, if the one it constructs is
there. -/
theorem alive_of_cons {front : List (EventVariant V)} (h : w.Alive (m :: front) o)
    (hcall : ∀ c, m = .constructorCall c → w.Exists c.ti.objId) : w.Alive front o := by
  refine ⟨?_, fun d hd => h.2 d (List.mem_cons_of_mem _ hd)⟩
  rcases h.1 with ho | ⟨c, hc, rfl⟩
  · exact Or.inl ho
  · rcases List.mem_cons.mp hc with hm | hc
    · obtain ⟨obj, hobj⟩ := hcall c hm.symm
      rw [hobj]
      exact Or.inl rfl
    · exact Or.inr ⟨c, hc, rfl⟩

theorem Lives.pop (h : w.Lives o) (hq : w.queues 0 = m :: rest)
    (hcall : ∀ c, m = .constructorCall c → w.Exists c.ti.objId) : (w.pop 0 rest).Lives o := by
  unfold Lives at h ⊢
  rw [hq] at h
  rw [queues_pop, if_pos rfl]
  exact alive_of_cons h hcall

namespace Attending

theorem pop (h : w.Attending) (hq : w.queues 0 = m :: rest)
    (hcall : ∀ c, m = .constructorCall c → w.Exists c.ti.objId) : (w.pop 0 rest).Attending := by
  have hrest : (w.pop 0 rest).queues 0 = rest := by rw [queues_pop, if_pos rfl]
  have hmem : ∀ {m'}, m' ∈ (w.pop 0 rest).queues 0 → m' ∈ w.queues 0 := by
    intro m' hm'
    rw [hrest] at hm'
    rw [hq]
    exact List.mem_cons_of_mem _ hm'
  exact {
    size := h.size
    finds := by
      have hfinds := h.finds
      rw [hq, preceded_cons] at hfinds
      rw [hrest]
      exact hfinds.2.mono fun front b back _ hb o ho => alive_of_cons (hb o ho) hcall
    ptr := h.ptr
    childrenApart := h.childrenApart
    takenObject := h.takenObject
    takenCall := fun hc => h.takenCall (hmem hc)
    takenRoot := fun hr => h.takenRoot (hmem hr)
    rootObject := fun hr => h.rootObject (hmem hr)
    rootCall := fun hr hc => h.rootCall (hmem hr) (hmem hc)
    rootsApart := by
      have hapart := h.rootsApart
      rw [hq] at hapart
      rw [hrest]
      exact hapart.sublist ((List.sublist_cons_self m rest).filterMap _) }

/-- The front message finds its object. -/
theorem front (h : w.Attending) (hq : w.queues 0 = m :: rest) (ho : m.needs = some o) :
    w.Exists o := by
  have halive := h.finds [] m rest hq o ho
  rcases halive.1 with hobj | ⟨c, hc, -⟩
  · exact Option.isSome_iff_exists.mp hobj
  · cases hc

/-! ## The end of an object -/

/-- Behind the deletion of an object, no message needs it. -/
theorem erase (h : w.Attending) {d : Delete} (hq : w.queues 0 = .delete d :: rest) :
    ((w.pop 0 rest).erase P 0 d.ti.objId).Attending := by
  have hpop := h.pop hq fun _ hc => nomatch hc
  have hobj : ∀ {o obj}, (((w.pop 0 rest).erase P 0 d.ti.objId).threads 0).objInfo o = some obj →
      (w.threads 0).objInfo o = some obj := by
    intro o obj ho
    rw [objInfo_erase_self] at ho
    split at ho
    · cases ho
    · exact ho
  exact {
    size := h.size
    finds := by
      refine hpop.finds.mono fun front b back hb _ o ho => ?_
      have hback : w.queues 0 = (.delete d :: front) ++ b :: back := by
        have hrest : rest = front ++ b :: back := by
          rw [← hb, queues_pop, if_pos rfl]
        rw [hq, hrest]
        rfl
      -- a message behind the deletion needs another object
      have halive := h.finds _ b back hback o ho
      have hne : o ≠ d.ti.objId := fun heq => halive.2 d List.mem_cons_self heq.symm
      have hfront := alive_of_cons halive fun _ hc => nomatch hc
      refine ⟨hfront.1.imp_left fun ho => ?_, hfront.2⟩
      rw [objInfo_erase_self, if_neg hne]
      exact ho
    ptr := fun ho => h.ptr (hobj ho)
    childrenApart := fun ho => h.childrenApart (hobj ho)
    takenObject := fun ho => by
      obtain ⟨obj, hobj'⟩ := Option.isSome_iff_exists.mp ho
      exact h.takenObject (hobj hobj' ▸ rfl)
    takenCall := hpop.takenCall
    takenRoot := hpop.takenRoot
    rootObject := fun {r} hr => by
      rw [objInfo_erase_self]
      split
      · rfl
      · exact hpop.rootObject hr
    rootCall := hpop.rootCall
    rootsApart := hpop.rootsApart }

/-- The deletions for the children, with the object itself gone. -/
theorem deleteChildren {ci : CallerInfo} {children : List (Id × ChildObjectInfo)}
    (hw : w.deleteChildren ci children = .ok w') (h : (w.erase P 0 o).Attending)
    (hlives : ∀ child ∈ children, (w.erase P 0 o).Lives child.1)
    (hapart : (children.map (·.1)).Nodup) : (w'.erase P 0 o).Attending := by
  induction children generalizing w with
  | nil =>
    obtain rfl := Except.ok.inj hw
    exact h
  | cons child children ih =>
    simp only [World.deleteChildren] at hw
    split at hw
    · cases hw
    · rename_i w₁ hpush
      obtain ⟨n, hn, hlt, rfl⟩ := push_eq_ok hpush
      obtain rfl : n = 0 := Nat.lt_one_iff.mp (h.size ▸ hlt)
      rw [List.map_cons, List.nodup_cons] at hapart
      -- the push and the end of the object commute
      have hpushed := h.enqueue (m := .delete { ci, ti := { objId := child.1, procId := none } })
        (fun o ho => Option.some.inj ho ▸ hlives child List.mem_cons_self)
        (fun _ hc => by cases hc) fun _ hr => by cases hr
      refine ih hw hpushed (fun child' hchild' => ?_) hapart.2
      refine (hlives child' (List.mem_cons_of_mem _ hchild')).enqueue fun d hd heq => ?_
      rw [← EventVariant.delete.inj hd] at heq
      exact hapart.1 (List.mem_map.mpr ⟨child', hchild', heq.symm⟩)

/-- What lives outlives the end of another object. -/
theorem lives_erase {d : Delete} (hq : w.queues 0 = .delete d :: rest) (h : w.Lives o) :
    ((w.pop 0 rest).erase P 0 d.ti.objId).Lives o := by
  have hne : o ≠ d.ti.objId := fun heq => h.2 d (hq ▸ List.mem_cons_self) heq.symm
  refine (h.pop hq fun _ hc => nomatch hc).mono rfl fun ho => ?_
  rw [objInfo_erase_self, if_neg hne]
  exact ho

/-! ## A root -/

theorem root (h : w.Attending) {r : RootStart V} (hq : w.queues 0 = .rootStart r :: rest) :
    ((w.pop 0 rest).rootReceived 0 r).Attending := by
  have hpop := h.pop hq fun _ hc => nomatch hc
  have hmem : .rootStart r ∈ w.queues 0 := hq ▸ List.mem_cons_self
  have hrest : (w.pop 0 rest).queues 0 = rest := by rw [queues_pop, if_pos rfl]
  let call : ConstructorCall V :=
    { constructor := { fn := r.constructor, slot := none }
      ci := { threadId := none, objId := none, procId := none }
      ti := { objId := r.ti.objId, procId := none }
      uringData := none }
  have hcall : ((w.pop 0 rest).enqueue 0 (.constructorCall call)).Attending := by
    refine hpop.enqueue (fun o ho => (nomatch ho)) (fun c hc => ?_) fun _ hr => (nomatch hr)
    obtain rfl := EventVariant.constructorCall.inj hc
    refine ⟨h.takenRoot hmem, fun r' hr' heq => ?_⟩
    have hapart := h.rootsApart
    rw [hq, List.filterMap_cons_some (f := EventVariant.rootId) (b := r.ti.objId) rfl,
      List.nodup_cons] at hapart
    rw [hrest] at hr'
    exact hapart.1 (List.mem_filterMap.mpr ⟨.rootStart r', hr', congrArg some heq.symm⟩)
  refine hcall.enqueue (fun o ho => ?_) (fun _ hc => (nomatch hc)) fun _ hr => (nomatch hr)
  obtain rfl := Option.some.inj ho
  unfold Lives
  rw [queues_enqueue, if_pos rfl, hrest]
  refine ⟨Or.inr ⟨call, List.mem_append_right _ List.mem_cons_self, rfl⟩, fun d hd => ?_⟩
  rcases List.mem_append.mp hd with hd | hd
  · obtain ⟨front, hf, halive⟩ := h.alive_of_delete (hq ▸ List.mem_cons_of_mem _ hd)
    exact h.ne_root hf halive hmem
  · cases List.mem_singleton.mp hd

/-- A root event is initialized. -/
theorem rootEvent (h : w.Attending) (constructor : V.ConstructFunc) (init : V.FunctionFunc) :
    ({ w with
        objIds := (getId w.objIds none).2
        procIds := (getId w.procIds none).2 }.enqueue 0 (.rootStart
          { constructor, init
            ti := { objId := (getId w.objIds none).1
                    procId := (getId w.procIds none).1 } })).Attending := by
  have hfresh := not_taken_getId w.objIds none
  have hids : ({ w with
      objIds := (getId w.objIds none).2
      procIds := (getId w.procIds none).2 } : World V σ).Attending :=
    h.congr rfl rfl rfl fun id hid => (taken_getId _ _ id).mpr (Or.inl hid)
  have hqueue : ∀ {r : RootStart V}, (({ w with
      objIds := (getId w.objIds none).2
      procIds := (getId w.procIds none).2 } : World V σ).enqueue 0 (.rootStart r)).queues 0 =
        w.queues 0 ++ [.rootStart r] := fun {r} => by rw [queues_enqueue, if_pos rfl]
  exact {
    size := h.size
    finds := by
      rw [hqueue]
      exact preceded_concat.mpr ⟨hids.finds, fun _ ho => (nomatch ho)⟩
    ptr := h.ptr
    childrenApart := h.childrenApart
    takenObject := hids.takenObject
    takenCall := fun hc => by
      rw [hqueue] at hc
      rcases List.mem_append.mp hc with hc | hc
      · exact hids.takenCall hc
      · cases List.mem_singleton.mp hc
    takenRoot := fun hr => by
      rw [hqueue] at hr
      rcases List.mem_append.mp hr with hr | hr
      · exact hids.takenRoot hr
      · obtain rfl := EventVariant.rootStart.inj (List.mem_singleton.mp hr)
        exact (taken_getId _ _ _).mpr (Or.inr rfl)
    rootObject := fun hr => by
      rw [hqueue] at hr
      rcases List.mem_append.mp hr with hr | hr
      · exact h.rootObject hr
      · obtain rfl := EventVariant.rootStart.inj (List.mem_singleton.mp hr)
        by_contra hsome
        exact hfresh (h.takenObject (Option.isSome_iff_ne_none.mpr hsome))
    rootCall := fun hr hc heq => by
      rw [hqueue] at hr hc
      rcases List.mem_append.mp hc with hc | hc
      · rcases List.mem_append.mp hr with hr | hr
        · exact h.rootCall hr hc heq
        · obtain rfl := EventVariant.rootStart.inj (List.mem_singleton.mp hr)
          have htaken := h.takenCall hc
          rw [heq] at htaken
          exact hfresh htaken
      · cases List.mem_singleton.mp hc
    rootsApart := by
      rw [hqueue, List.filterMap_append]
      refine List.nodup_append.mpr ⟨h.rootsApart, List.pairwise_singleton _ _, ?_⟩
      rintro a ha b hb rfl
      obtain ⟨m, hm, hroot⟩ := List.mem_filterMap.mp ha
      obtain rfl := List.mem_singleton.mp hb
      cases m with
      | rootStart r =>
        have htaken := h.takenRoot hm
        rw [Option.some.inj hroot] at htaken
        exact hfresh htaken
      | _ => cases hroot }

/-! ## The handling of a message -/

theorem note (h : w.Attending) (n : Note) : (w.note n).Attending :=
  h.congr rfl rfl rfl fun _ hid => hid

theorem setProc (h : w.Attending) (id : Id) (d : CallDataThreaded) :
    (w.setThread 0 ((w.threads 0).setProc id d)).Attending := by
  refine h.congr rfl rfl ?_ fun _ hid => hid
  rw [threads_setThread_self]
  rfl

theorem enter (h : w.Attending) {f : FunctionCall V} {obj : ObjectDataThreaded}
    (hobj : (w.threads 0).objInfo f.ti.objId = some obj) : (w.enter 0 f obj).Attending := by
  have hchildren : (obj.children.map (·.1)).Nodup := h.childrenApart hobj
  have hupdated := h.update hobj { obj with assocProcs := obj.assocProcs ++ [f.ti.procId] } rfl
    hchildren
  refine hupdated.congr rfl rfl (funext fun o => ?_) fun _ hid => hid
  rw [objInfo_enter_self, threads_setThread_self, ThreadData.objInfo_setObject]

theorem respond (h : w.Attending) {f : FunctionCall V} {resp : CallResponse}
    (hw : w.respond 0 f resp = .ok w') : w'.Attending := by
  obtain ⟨d, -, -, hcases⟩ := respond_cases hw
  have hproc := h.setProc f.ti.procId d
  obtain ⟨-, rfl⟩ | ⟨failed, code, -, ⟨-, rfl⟩ | ⟨t', -, hlt, rfl⟩⟩ := hcases
  · exact hproc
  · exact hproc.note _
  · obtain rfl : t' = 0 := Nat.lt_one_iff.mp (h.size ▸ hlt)
    exact (hproc.note _).enqueue_data _

theorem report (h : w.Attending) {y : Yielded} (hw : w.report 0 ti y = .ok w') :
    w'.Attending := by
  obtain ⟨-, rfl⟩ | ⟨failed, code, t', -, -, hlt, rfl⟩ := report_cases hw
  · exact h
  · obtain rfl : t' = 0 := Nat.lt_one_iff.mp (h.size ▸ hlt)
    have hproc := h.setProc ti.procId
      { (w.threads 0).proc ti.procId with status := resultStatus failed }
    exact (hproc.note _).enqueue_data _

theorem forward (h : w.Attending) (d : Data) (attachers : List (Id × Id)) :
    (w.forward 0 d attachers).Attending :=
  forward_invariant (I := Attending) h fun _ _ _ h => h.enqueue_data _

theorem submit (h : w.Attending) : (w.submit 0).Attending :=
  h.sameCore (SameCore.refl 0 w).submit

end Attending

/-- What a careful handler queued acts for objects that live after its message is taken. -/
theorem Careful.handling (h : w.Careful ti es) (hq : w.queues 0 = m :: rest)
    (hattending : w'.Attending) (hobj : w'.Exists ti.objId) (hqueue : w'.queues 0 = rest)
    (hlives : ∀ o, w.Lives o → w'.Lives o)
    (hslots : ∀ ty idx, ((w'.contexts ctx).slot ty idx).map (·.locator) =
      (es.uringData.slot ty idx).map (·.locator)) : Handling ctx ti es w' where
  attending := hattending
  object := hobj
  constructs hne d hd := h.constructs hne d (hq ▸ List.mem_cons_of_mem _ (hqueue ▸ hd))
  calls q hmem info l hslot hl := by
    have hmap := hslots q.idx q.vidx
    rw [hslot] at hmap
    obtain ⟨info', hslot', hl'⟩ := Option.map_eq_some_iff.mp hmap.symm
    refine hlives _ (h.calls _ (List.mem_filterMap.mpr ⟨q, hmem, ?_⟩))
    have hlocator : info'.locator = some l := hl'.trans hl
    rw [hslot', Option.bind_some, hlocator]
    rfl
  deletes q hmem := hlives _ (h.deletes _ (List.mem_map_of_mem hmem))

theorem handled_attending (h : w.Attending) (hok : w.LocatorsOk) (hq : w.queues 0 = m :: rest)
    (hcareful : ∀ ctx ti es, w.handlerState P 0 m = some (ctx, ti, es) → w.Careful ti es)
    (hchildren : ∀ d, m = .delete d → ∀ child ∈ ((w.threads 0).object d.ti.objId).children,
      w.Lives child.1) (hw : Handled P 0 w w') : w'.Attending := by
  have hmem : m ∈ w.queues 0 := hq ▸ List.mem_cons_self
  have hrest : ∀ rest, (w.pop 0 rest).queues 0 = rest := fun rest => by rw [queues_pop, if_pos rfl]
  cases hw with
  | idle hnil => cases hnil.symm.trans hq
  | @constructed c rest' ctx w₁ w₂ w₃ heap es hq' htake hrun hslot hnew hqueued =>
    obtain ⟨rfl, rfl⟩ := List.cons.inj (hq'.symm.trans hq)
    have hcare := hcareful _ _ _ (handlerState_construct htake hrun)
    have hokPop : (w.pop 0 rest').LocatorsOk := hok.of_eq rfl rfl
    have hthread := thread_of_holds (takeContext_locatorsOk hokPop htake)
      (fun _ hl => hl) (run_holds hrun).2
    have hlocators : ∀ ty idx, ((w₂.contexts ctx).slot ty idx).map (·.locator) =
        (es.uringData.slot ty idx).map (·.locator) := by
      intro ty idx
      rw [locator_fillSlot hslot, slot_afterHandler]
    obtain ⟨hsize, hqueues, hthreads, hids, -, -⟩ := filled_same htake hslot
    -- the object is entered, and then the message taken
    have hinserted := h.setObject c.ti.objId { ptr := some ctx } rfl List.nodup_nil
      (h.takenCall hmem) fun r hr => h.rootCall hr hmem
    have hcall : ∀ c', EventVariant.constructorCall c = .constructorCall c' →
        (w.setThread 0 ((w.threads 0).setObject c.ti.objId { ptr := some ctx })).Exists
          c'.ti.objId := by
      intro c' hc'
      obtain rfl := EventVariant.constructorCall.inj hc'
      exact exists_setObject w _ _
    have hobjects : ((w₂.setThread 0 ((w₂.threads 0).setObject c.ti.objId
        { ptr := some ctx })).threads 0).objInfo = ((w.setThread 0 ((w.threads 0).setObject
          c.ti.objId { ptr := some ctx })).threads 0).objInfo := by
      rw [threads_setThread_self, threads_setThread_self, hthreads]
      rfl
    have hpop : (w₂.setThread 0
        ((w₂.threads 0).setObject c.ti.objId { ptr := some ctx })).Attending :=
      (hinserted.pop hq hcall).congr hsize (by
        rw [queues_setThread, hqueues]
        rfl) hobjects fun id hid => hids.symm ▸ hid
    have hhandling := hcare.handling hq hpop (exists_setObject w₂ _ _)
      (by rw [queues_setThread, hqueues, hrest])
      (fun o ho => ((ho.setObject _ _).pop hq hcall).mono (by
        rw [queues_setThread, hqueues]
        rfl) fun ho => by rwa [hobjects]) hlocators
    exact (hhandling.processQueued hqueued hthread hcare.apart).submit
  | @reconstructed c rest' ctx w₁ w₂ heap es old hq' htake hrun hslot hold =>
    obtain ⟨rfl, rfl⟩ := List.cons.inj (hq'.symm.trans hq)
    obtain ⟨hsize, hqueues, hthreads, hids, -, -⟩ := filled_same htake hslot
    have hpop := h.pop hq fun c' hc' => by
      obtain rfl := EventVariant.constructorCall.inj hc'
      exact ⟨old, hthreads ▸ hold⟩
    exact (hpop.congr hsize (by rw [hqueues]) (by rw [hthreads])
      fun id hid => hids.symm ▸ hid).submit
  | @called f rest' obj ctx resp heap es w₂ w₃ hq' ho hptr hrun hqueued hrespond =>
    obtain ⟨rfl, rfl⟩ := List.cons.inj (hq'.symm.trans hq)
    have hcare := hcareful _ _ _ (handlerState_function ho hptr hrun)
    have hpop := h.pop hq fun _ hc => nomatch hc
    have henter := hpop.enter (f := f) ho
    have hobj : ∀ o, ((w.threads 0).objInfo o).isSome →
        ((((w.pop 0 rest').enter 0 f obj).threads 0).objInfo o).isSome := by
      intro o ho'
      rw [objInfo_enter_self]
      split
      · rfl
      · exact ho'
    have hhandling : Handling ctx f.ti es (((w.pop 0 rest').enter 0 f obj).afterHandler ctx es heap) :=
      hcare.handling hq (henter.congr rfl rfl rfl fun _ hid => hid)
      (Option.isSome_iff_exists.mp (hobj _ (by rw [ho]; rfl)))
      (hrest _)
      (fun o ho' => (ho'.pop hq fun _ hc => nomatch hc).mono rfl (hobj o))
      fun ty idx => congrArg _ (slot_afterHandler ty idx)
    have hthread := thread_of_holds hok (fun _ hl => hl) (run_holds hrun).2
    exact ((hhandling.processQueued hqueued hthread hcare.apart).respond hrespond).submit
  | @delivered d rest' obj c ctx y heap es w₂ w₃ hq' ho hd hptr hrun hqueued hreport =>
    obtain ⟨rfl, rfl⟩ := List.cons.inj (hq'.symm.trans hq)
    have hcare := hcareful _ _ _ (handlerState_yield ho hd hptr hrun)
    have hpop := h.pop hq fun _ hc => nomatch hc
    have hhandling : Handling ctx d.ti es (((w.pop 0 rest').note (.delivered 0 d
        ((w.contexts ctx).mapEventData d.data).1)).afterHandler ctx es heap) :=
      hcare.handling hq (hpop.congr rfl rfl rfl fun _ hid => hid) ⟨obj, ho⟩ (hrest _)
      (fun o ho' => (ho'.pop hq fun _ hc => nomatch hc).mono rfl fun ho' => ho')
      fun ty idx => congrArg _ (slot_afterHandler ty idx)
    have hthread := thread_of_holds hok (fun _ hl => hl.of_mapEventData) (run_holds hrun).2
    exact (((hhandling.processQueued hqueued hthread hcare.apart).report hreport).forward _ _).submit
  | dropped hq' hmissing =>
    obtain ⟨rfl, rfl⟩ := List.cons.inj (hq'.symm.trans hq)
    exact (h.pop hq fun _ hc => nomatch hc).submit
  | @deleted d rest' w₁ hq' hdeleted =>
    obtain ⟨rfl, rfl⟩ := List.cons.inj (hq'.symm.trans hq)
    have hlives := hchildren d rfl
    obtain ⟨obj, hobj⟩ := h.front hq rfl
    have hapart : (((w.threads 0).object d.ti.objId).children.map (·.1)).Nodup :=
      h.nodup_children ⟨obj, hobj⟩
    exact (Attending.deleteChildren hdeleted (h.erase hq) (fun child hchild =>
      Attending.lives_erase hq (hlives child (w.siblings.mem_order.mp hchild)))
      (w.siblings.nodup_order hapart)).submit
  | root hq' =>
    obtain ⟨rfl, rfl⟩ := List.cons.inj (hq'.symm.trans hq)
    exact (h.root hq).submit

/-! ## The other steps -/

theorem Attending.other {a : Action V} (h : w.Attending) (ha : ∀ t, a ≠ .dequeue t)
    (hstep : w.step P a = .ok w') : w'.Attending := by
  obtain ⟨t, hlt, huring⟩ | ⟨t, hsame, -⟩ | ⟨constructor, init, hroot⟩ := step_other hstep ha
  · obtain rfl : t = 0 := Nat.lt_one_iff.mp (h.size ▸ hlt)
    exact processUring_core huring h (fun _ _ hsame h => h.sameCore hsame)
      fun _ _ _ _ _ h => h.enqueue_data _
  · by_cases ht : t = 0
    · subst ht
      exact h.sameCore hsame
    · refine h.congr hsame.size (by rw [hsame.queues]) ?_ fun id hid => hsame.objIds.symm ▸ hid
      rw [hsame.threads 0 (Ne.symm ht)]
  · obtain ⟨-, rfl⟩ := initializeRootEvent_eq hroot
    exact h.rootEvent constructor init

theorem step_attending {a : Action V} (h : w.Attending) (hok : w.LocatorsOk)
    (horderly : w.Orderly P a) (hstep : w.step P a = .ok w') : w'.Attending := by
  cases a with
  | dequeue t =>
    rcases step_dequeue hstep with rfl | ⟨hlt, hw⟩
    · exact h
    · obtain rfl : t = 0 := Nat.lt_one_iff.mp (h.size ▸ hlt)
      cases hq : w.queues 0 with
      | nil =>
        simp only [step, handleDequeue, hq] at hstep
        split at hstep
        · exact Except.ok.inj hstep ▸ h
        · exact Except.ok.inj hstep ▸ h
      | cons m rest =>
        obtain ⟨hcareful, hchildren⟩ := horderly m rest hq
        exact handled_attending h hok hq hcareful hchildren hw
  | _ => exact h.other (fun _ ha => by cases ha) hstep

/-! ## No entry appears by itself -/

/-- The objects of a thread are among these. -/
def ObjectsIn (t : Nat) (S : Id → Prop) (w : World V σ) : Prop :=
  ∀ o, ((w.threads t).objInfo o).isSome → S o

namespace ObjectsIn

variable {S : Id → Prop}

theorem of_threads (h : ObjectsIn t S w) (hw : (w'.threads t).objInfo = (w.threads t).objInfo) :
    ObjectsIn t S w' := by
  intro o ho
  rw [hw] at ho
  exact h o ho

theorem setObject (h : ObjectsIn t S w) {id : Id} (hid : S id) (obj : ObjectDataThreaded) :
    ObjectsIn t S (w.setThread t ((w.threads t).setObject id obj)) := by
  intro o ho
  rw [threads_setThread_self, ThreadData.objInfo_setObject] at ho
  split at ho
  · rename_i heq
    exact heq ▸ hid
  · exact h o ho

theorem setProc (h : ObjectsIn t S w) (id : Id) (d : CallDataThreaded) :
    ObjectsIn t S (w.setThread t ((w.threads t).setProc id d)) :=
  h.of_threads (by rw [threads_setThread_self]; rfl)

theorem queued (h : ObjectsIn t S w) (hti : S ti.objId) (hw : Queued t ctx ti es w w') :
    ObjectsIn t S w' := by
  rcases hw.essential with hsame | hessential
  · exact h.of_threads hsame.objInfo
  · cases hessential with
    | child q runThread _ => exact (h.setObject hti _).of_threads rfl
    | call q info l target _ _ _ _ _ => exact (h.setObject hti _).of_threads rfl
    | delete q thread _ _ _ => exact h.of_threads rfl
    | dropChild q _ => exact h.setObject hti _

theorem processQueued (hw : w.processQueued t ctx ti es = .ok w') (h : ObjectsIn t S w)
    (hti : S ti.objId) : ObjectsIn t S w' :=
  transGen_invariant (processQueued_queued hw) h fun _ _ h hq => h.queued hti hq

theorem submit (h : ObjectsIn t S w) : ObjectsIn t S (w.submit t) :=
  h.of_threads (SameCore.refl t w).submit.objInfo

theorem respond (h : ObjectsIn t S w) {f : FunctionCall V} {resp : CallResponse}
    (hw : w.respond t f resp = .ok w') : ObjectsIn t S w' := by
  obtain ⟨d, -, -, ⟨-, rfl⟩ | ⟨failed, code, -, ⟨-, rfl⟩ | ⟨t', -, -, rfl⟩⟩⟩ := respond_cases hw
  · exact h.setProc _ d
  · exact (h.setProc _ d).of_threads rfl
  · exact (h.setProc _ d).of_threads rfl

theorem report (h : ObjectsIn t S w) {y : Yielded} (hw : w.report t ti y = .ok w') :
    ObjectsIn t S w' := by
  obtain ⟨-, rfl⟩ | ⟨failed, code, t', -, -, -, rfl⟩ := report_cases hw
  · exact h
  · exact (h.setProc ti.procId _).of_threads rfl

end ObjectsIn

/-- After a message, there are the objects of before, and the one that was constructed. -/
theorem handled_objects (hw : Handled P t w w') : ObjectsIn t (fun o =>
    ((w.threads t).objInfo o).isSome ∨
      ∃ c rest, w.queues t = .constructorCall c :: rest ∧ c.ti.objId = o) w' := by
  -- who may be there afterwards
  let S : Id → Prop := fun o => ((w.threads t).objInfo o).isSome ∨
    ∃ c rest, w.queues t = .constructorCall c :: rest ∧ c.ti.objId = o
  have hstart : ∀ {w₁ : World V σ}, w₁.threads = w.threads → ObjectsIn t S w₁ := by
    intro w₁ hthreads o ho
    rw [hthreads] at ho
    exact Or.inl ho
  cases hw with
  | idle hnil => exact hstart rfl
  | constructed hq htake hrun hslot hnew hqueued =>
    have hfilled := hstart (filled_same htake hslot).threads
    have hself : S _ := Or.inr ⟨_, _, hq, rfl⟩
    exact (ObjectsIn.processQueued hqueued (hfilled.setObject hself _) hself).submit
  | reconstructed hq htake hrun hslot hold =>
    exact ObjectsIn.submit (hstart (filled_same htake hslot).threads)
  | @called f rest obj ctx resp heap es w₂ w₃ hq ho hptr hrun hqueued hrespond =>
    have hself : S f.ti.objId := Or.inl (by rw [ho]; rfl)
    have henter : ObjectsIn t S ((w.pop t rest).enter t f obj) := by
      intro o ho
      rw [objInfo_enter_self] at ho
      split at ho
      · rename_i heq
        exact heq ▸ hself
      · exact Or.inl ho
    exact ((ObjectsIn.processQueued hqueued (henter.of_threads rfl) hself).respond hrespond).submit
  | @delivered d rest obj c ctx y heap es w₂ w₃ hq ho hd hptr hrun hqueued hreport =>
    have hself : S d.ti.objId := Or.inl (by rw [ho]; rfl)
    have hreported := (ObjectsIn.processQueued hqueued (hstart rfl) hself).report hreport
    exact (forward_invariant (I := ObjectsIn t S) hreported fun _ _ _ h => h.of_threads rfl).submit
  | dropped hq hmissing => exact ObjectsIn.submit (hstart rfl)
  | @deleted d rest w₁ hq hdeleted =>
    have hpushed := deleteChildren_invariant (I := ObjectsIn t S) hdeleted (hstart rfl)
      fun _ _ _ h _ => h.of_threads rfl
    refine ObjectsIn.submit fun o ho => ?_
    rw [objInfo_erase_self] at ho
    split at ho
    · cases ho
    · exact hpushed o ho
  | root hq => exact ObjectsIn.submit (hstart rfl)

/-! ## Runs -/

/-- The next message of each thread finds the object that it acts for. -/
def Attended (w : World V σ) : Prop :=
  ∀ t < w.size, ∀ m rest o, w.queues t = m :: rest → m.needs = some o →
    ∃ obj, (w.threads t).objInfo o = some obj ∧ obj.ptr.isSome

/-- The next message creates no entry for an object, unless it constructs the object. -/
def OnlyConstructs (P : Program V σ) (w : World V σ) : Prop :=
  ∀ t < w.size, ∀ w' o, w.step P (.dequeue t) = .ok w' → ((w'.threads t).objInfo o).isSome →
    ((w.threads t).objInfo o).isSome ∨
      ∃ c rest, w.queues t = .constructorCall c :: rest ∧ c.ti.objId = o

/-- In a run of orderly handlers, messages find their objects alive. -/
theorem attended_of_orderly (P : Program V σ) (malloc : Nat → Nat) (heap : σ) (w : World V σ)
    (h : Reached (step P) (fun w a => w.Orderly P a) { size := 1, malloc, heap } w) :
    w.Attended ∧ w.OnlyConstructs P := by
  have hinv : w.Attending ∧ w.LocatorsOk := by
    refine h.invariant (I := fun w => w.Attending ∧ w.LocatorsOk) ⟨?_, ?_⟩ fun w a w' hI hG hstep =>
      ⟨step_attending hI.1 hI.2 hG hstep, step_locatorsOk hI.2 hstep⟩
    · exact {
        size := rfl
        finds := preceded_nil
        ptr := fun ho => nomatch ho
        childrenApart := fun ho => nomatch ho
        takenObject := fun ho => nomatch ho
        takenCall := fun hc => absurd hc List.not_mem_nil
        takenRoot := fun hr => absurd hr List.not_mem_nil
        rootObject := fun _ => rfl
        rootCall := fun hr => absurd hr List.not_mem_nil
        rootsApart := List.nodup_nil }
    · exact locatorsOk P 1 malloc heap .start
  refine ⟨fun t ht m rest o hq ho => ?_, fun t _ w' o hstep ho => ?_⟩
  · obtain rfl : t = 0 := Nat.lt_one_iff.mp (hinv.1.size ▸ ht)
    obtain ⟨obj, hobj⟩ := hinv.1.front hq ho
    exact ⟨obj, hobj, hinv.1.ptr hobj⟩
  · rcases step_dequeue hstep with rfl | ⟨-, hw⟩
    · exact Or.inl ho
    · exact handled_objects hw o ho

/-! ## A child that reports before it is done -/

theorem alive_iff {front : List (EventVariant V)} : w.Alive front o ↔
    (((w.threads 0).objInfo o).isSome ∨ some o ∈ front.map EventVariant.builtId) ∧
      some o ∉ front.map EventVariant.endedId := by
  have hbuilt : (∃ c, EventVariant.constructorCall c ∈ front ∧ c.ti.objId = o) ↔
      some o ∈ front.map EventVariant.builtId := by
    rw [List.mem_map]
    constructor
    · rintro ⟨c, hc, rfl⟩
      exact ⟨_, hc, rfl⟩
    · rintro ⟨m, hm, hid⟩
      cases m with
      | constructorCall c => exact ⟨c, hm, Option.some.inj hid⟩
      | _ => cases hid
  rw [Alive, hbuilt, not_endedId_iff]

instance (front : List (EventVariant V)) (o : Id) : Decidable (w.Alive front o) :=
  decidable_of_iff _ alive_iff.symm

instance (o : Id) : Decidable (w.Lives o) := inferInstanceAs (Decidable (w.Alive _ o))

instance (ti : TargetInfo) (es : EventState V) : Decidable (w.Careful ti es) :=
  decidable_of_iff ((es.construct.isEmpty ∨ some ti.objId ∉ (w.queues 0).map EventVariant.endedId) ∧
      (∀ o ∈ callees es, w.Lives o) ∧ (∀ o ∈ es.delete.map EventQueuedDelete.objId, w.Lives o) ∧
      (es.delete.map EventQueuedDelete.objId).Nodup)
    ⟨fun h => ⟨fun hne => not_endedId_iff.mpr (h.1.resolve_left fun hnil =>
        hne (List.isEmpty_iff.mp hnil)), h.2.1, h.2.2.1, h.2.2.2⟩,
      fun h => ⟨or_iff_not_imp_left.mpr fun hne => not_endedId_iff.mp
        (h.constructs fun hnil => hne (List.isEmpty_iff.mpr hnil)), h.calls, h.deletes, h.apart⟩⟩

instance (P : Program V σ) (w : World V σ) : (a : Action V) → Decidable (w.Orderly P a)
  | .dequeue t =>
    match hq : w.queues t with
    | [] => isTrue fun m rest h => by rw [hq] at h; cases h
    | m :: rest =>
      decidable_of_iff ((∀ s ∈ w.handlerState P t m, w.Careful s.2.1 s.2.2) ∧
          ∀ o ∈ m.endedId, ∀ child ∈ ((w.threads t).object o).children, w.Lives child.1) <| by
        constructor
        · rintro ⟨hcareful, hchildren⟩ m' rest' h
          obtain ⟨rfl, rfl⟩ := List.cons.inj (hq.symm.trans h)
          exact ⟨fun ctx ti es hs => hcareful _ hs, fun d hd => hchildren _ (hd ▸ rfl)⟩
        · intro h
          obtain ⟨hcareful, hchildren⟩ := h m rest hq
          refine ⟨fun s hs => hcareful s.1 s.2.1 s.2.2 hs, fun o ho => ?_⟩
          cases m with
          | delete d =>
            obtain rfl := Option.some.inj ho
            exact hchildren d rfl
          | _ => cases ho
  | .uring _ => isTrue trivial
  | .complete _ _ _ => isTrue trivial
  | .root _ _ => isTrue trivial
  | .load _ => isTrue trivial
  | .iterate _ => isTrue trivial

/-- One class, whose objects are told apart by their identifiers. -/
abbrev teamVocabulary : Vocabulary where
  TypeIndex := Unit
  ConstructFunc := Unit
  FunctionFunc := Unit
  Sqe := Empty

/-- The root 0 deletes its child 1000 as soon as that reports its result. The child calls its own
child 1001, and constructs another one when that is done; it `waits` for this, or has reported
before. -/
def team (waits : Bool) : Program teamVocabulary Unit where
  construct _ id _ := do
    if id = some 0 ∨ id = some 1000 then
      let _ ← Script.i (V := teamVocabulary) () ()
    pure ()
  function _ id _ _ := do
    if id = some 0 ∨ id = some 1000 then
      let _ ← Script.cAt (V := teamVocabulary) () 0 ()
    let ret : Yielded := if id = some 0 ∨ (id = some 1000 ∧ waits) then none else some (false, 0)
    pure ({ description := "", success := true, ret, opHint := 0 }, ())
  onYield id _ _ := do
    if id = some 0 then
      Script.d (V := teamVocabulary) () 0
      pure (none, ())
    else
      let _ ← Script.i (V := teamVocabulary) () ()
      pure (if waits then some (false, 0) else none, ())
  destroy _ _ := ()

/-- One worker thread. -/
def team₀ : World teamVocabulary Unit := { size := 1, malloc := id, heap := () }

/-- The root is started, and `n` messages are handled. -/
def teamActions (n : Nat) : List (Action teamVocabulary) :=
  .root () () :: List.replicate n (.dequeue 0)

/-- A child that waits is deleted with its children, which are there. Their deletions are sent the last
one first. -/
theorem team_attended : ∃ w, Reached (step (team true)) (fun w a => w.Orderly (team true) a) team₀ w ∧
    (w.queues 0).map EventVariant.endedId = [some (some 1002), some (some 1001)] ∧
    w.Attended ∧ w.OnlyConstructs (team true) := by
  have hqueue : (runActions (step (team true)) (.iterate .reversed :: teamActions 11) team₀).map
      (fun w => (w.queues 0).map EventVariant.endedId) =
      .ok [some (some 1002), some (some 1001)] := by
    decide +kernel
  obtain ⟨w, hrun, hqueue⟩ := exists_of_map_eq_ok hqueue
  have hreached : Reached (step (team true)) (fun w a => w.Orderly (team true) a) team₀ w :=
    reached_of_runActions .start (by decide +kernel) hrun
  exact ⟨w, hreached, hqueue, attended_of_orderly (team true) id () w hreached⟩

/-- The construction by a child that has reported is behind its deletion. -/
theorem team_deleted : ∃ w, Reached (step (team false)) (fun _ _ => True) team₀ w ∧
    ¬ (w.Attended ∧ w.OnlyConstructs (team false)) := by
  have hqueue : (runActions (step (team false)) (teamActions 10) team₀).map
      (fun w => ((w.queues 0).head?.bind EventVariant.needs,
        ((w.threads 0).objInfo (some 1000)).isNone && decide (0 < w.size))) =
      .ok (some (some 1000), true) := by
    decide +kernel
  obtain ⟨w, hrun, hqueue⟩ := exists_of_map_eq_ok hqueue
  refine ⟨w, reached_of_runActions .start (meets_true _ _) hrun, fun hattended => ?_⟩
  obtain ⟨hneeds, hnone⟩ := Prod.mk.inj hqueue
  rw [Bool.and_eq_true, decide_eq_true_iff] at hnone
  obtain ⟨m, hm, hneeds⟩ := Option.bind_eq_some_iff.mp hneeds
  obtain ⟨rest, hrest⟩ := List.head?_eq_some_iff.mp hm
  obtain ⟨obj, hobj, -⟩ := hattended.1 0 hnone.2 m rest (some 1000) hrest hneeds
  rw [hobj] at hnone
  cases hnone.1

end World

end LocalSoftware
