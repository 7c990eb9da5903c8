import LocalSoftware.Common.Placement

/-!
# Messages find their objects alive

With one worker thread, everything is in one queue. A message needs the object that it acts for:
`Attending` says that each message in the queue will find it, since the object exists or its
construction is in front, and no deletion of it is. `attended_of_orderly` shows that this holds in
every run in which no handler queues constructions behind the deletion of its own object, and none
calls or deletes an object that is deleted already.
-/

set_option autoImplicit false

namespace LocalSoftware

variable {V : Vocabulary} {σ : Type}

/-- The object that the handling of a message acts for: the one through which the closure of a
construction fills in its slot, or the target. -/
def EventVariant.needs : EventVariant V → Option Id
  | .constructorCall c => c.constructor.slot.map (·.1)
  | .functionCall f => some f.ti.objId
  | .delete d => some d.ti.objId
  | _ => none

/-- The object that a message constructs. -/
def EventVariant.builtId : EventVariant V → Option Id
  | .constructorCall c => some c.ti.objId
  | _ => none

/-- The object that a message deletes. -/
def EventVariant.endedId : EventVariant V → Option Id
  | .delete d => some d.ti.objId
  | _ => none

theorem not_endedId_iff {l : List (EventVariant V)} {o : Id} :
    (∀ d, .delete d ∈ l → d.ti.objId ≠ o) ↔ some o ∉ l.map EventVariant.endedId := by
  rw [List.mem_map]
  constructor
  · rintro h ⟨m, hm, hid⟩
    cases m with
    | delete d => exact h d hm (Option.some.inj hid)
    | _ => cases hid
  · rintro h d hd rfl
    exact h ⟨_, hd, rfl⟩

/-- The object of a root that is not started yet. -/
def EventVariant.rootId : EventVariant V → Option Id
  | .rootStart r => some r.ti.objId
  | _ => none

namespace World

variable {w w' : World V σ} {ctx : Nat} {ti : TargetInfo} {es : EventState V} {P : Program V σ}
  {o : Id} {m : EventVariant V}

/-- Behind these messages, the object exists: it is in the tables or will be constructed, and will
not be deleted. -/
def Alive (w : World V σ) (front : List (EventVariant V)) (o : Id) : Prop :=
  (((w.threads 0).objInfo o).isSome ∨ ∃ c, .constructorCall c ∈ front ∧ c.ti.objId = o) ∧
    ∀ d, .delete d ∈ front → d.ti.objId ≠ o

/-- The object exists behind all messages of the queue. -/
def Lives (w : World V σ) (o : Id) : Prop := w.Alive (w.queues 0) o

/-- A message finds the object that it acts for. -/
def Finds (w : World V σ) (m : EventVariant V) (front : List (EventVariant V)) : Prop :=
  ∀ o, m.needs = some o → w.Alive front o

/-- A message is pushed behind the others. -/
theorem Lives.enqueue (h : w.Lives o) (hm : ∀ d, m = .delete d → d.ti.objId ≠ o) :
    (w.enqueue 0 m).Lives o := by
  unfold Lives
  rw [queues_enqueue, if_pos rfl]
  refine ⟨h.1.imp_right fun ⟨c, hc, ho⟩ => ⟨c, List.mem_append_left _ hc, ho⟩, fun d hd => ?_⟩
  rcases List.mem_append.mp hd with hd | hd
  · exact h.2 d hd
  · exact hm d (List.mem_singleton.mp hd).symm

/-- Every message of the queue finds its object; the identifiers of objects, constructions and roots
that are not started yet are told apart. -/
structure Attending (w : World V σ) : Prop where
  size : w.size = 1
  finds : Preceded w.Finds (w.queues 0)
  ptr : ∀ {o obj}, (w.threads 0).objInfo o = some obj → obj.ptr.isSome
  childrenApart : ∀ {o obj}, (w.threads 0).objInfo o = some obj → (obj.children.map (·.1)).Nodup
  takenObject : ∀ {o}, ((w.threads 0).objInfo o).isSome → Taken w.objIds o
  takenCall : ∀ {c}, .constructorCall c ∈ w.queues 0 → Taken w.objIds c.ti.objId
  takenRoot : ∀ {r}, .rootStart r ∈ w.queues 0 → Taken w.objIds r.ti.objId
  rootObject : ∀ {r}, .rootStart r ∈ w.queues 0 → (w.threads 0).objInfo r.ti.objId = none
  rootCall : ∀ {r c}, .rootStart r ∈ w.queues 0 → .constructorCall c ∈ w.queues 0 →
    c.ti.objId ≠ r.ti.objId
  rootsApart : ((w.queues 0).filterMap EventVariant.rootId).Nodup

namespace Attending

theorem congr (h : w.Attending) (hsize : w'.size = w.size) (hqueue : w'.queues 0 = w.queues 0)
    (hobj : (w'.threads 0).objInfo = (w.threads 0).objInfo)
    (hids : ∀ id, Taken w.objIds id → Taken w'.objIds id) : w'.Attending where
  size := hsize.trans h.size
  finds := by
    rw [hqueue]
    refine h.finds.mono fun front m back _ hfinds o ho => ?_
    unfold Alive
    rw [hobj]
    exact hfinds o ho
  ptr ho := h.ptr (hobj ▸ ho)
  childrenApart ho := h.childrenApart (hobj ▸ ho)
  takenObject ho := hids _ (h.takenObject (hobj ▸ ho))
  takenCall hc := hids _ (h.takenCall (hqueue ▸ hc))
  takenRoot hr := hids _ (h.takenRoot (hqueue ▸ hr))
  rootObject hr := by
    rw [hobj]
    exact h.rootObject (hqueue ▸ hr)
  rootCall hr hc := h.rootCall (hqueue ▸ hr) (hqueue ▸ hc)
  rootsApart := by
    rw [hqueue]
    exact h.rootsApart

theorem sameCore (h : w.Attending) (hw : SameCore 0 w w') : w'.Attending :=
  h.congr hw.size (by rw [hw.queues]) hw.objInfo fun id hid => hw.objIds.symm ▸ hid

/-- An object that will exist has an identifier, and is not that of a root that is not started. -/
theorem taken_of_alive (h : w.Attending) {front : List (EventVariant V)} (hf : front ⊆ w.queues 0)
    (ho : w.Alive front o) : Taken w.objIds o := by
  rcases ho.1 with ho | ⟨c, hc, rfl⟩
  · exact h.takenObject ho
  · exact h.takenCall (hf hc)

theorem ne_root (h : w.Attending) {front : List (EventVariant V)} (hf : front ⊆ w.queues 0)
    (ho : w.Alive front o) {r : RootStart V} (hr : .rootStart r ∈ w.queues 0) :
    o ≠ r.ti.objId := by
  rcases ho.1 with ho | ⟨c, hc, rfl⟩
  · rintro rfl
    rw [h.rootObject hr] at ho
    cases ho
  · exact h.rootCall hr (hf hc)

/-- The deletions in the queue are for objects that are constructed in front of them. -/
theorem alive_of_delete (h : w.Attending) {d : Delete} (hd : .delete d ∈ w.queues 0) :
    ∃ front, front ⊆ w.queues 0 ∧ w.Alive front d.ti.objId := by
  obtain ⟨front, back, hq⟩ := List.append_of_mem hd
  refine ⟨front, ?_, h.finds front _ back hq _ rfl⟩
  rw [hq]
  exact List.subset_append_left _ _

/-- An identifier that was never handed out is deleted by no message. -/
theorem not_deleted (h : w.Attending) (ho : ¬ Taken w.objIds o) :
    ∀ d, .delete d ∈ w.queues 0 → d.ti.objId ≠ o := by
  rintro d hd rfl
  obtain ⟨front, hf, halive⟩ := h.alive_of_delete hd
  exact ho (h.taken_of_alive hf halive)

/-- A message that finds its object is pushed. -/
theorem enqueue (h : w.Attending) (hm : ∀ o, m.needs = some o → w.Lives o)
    (hcall : ∀ c, m = .constructorCall c → Taken w.objIds c.ti.objId ∧
      ∀ r, .rootStart r ∈ w.queues 0 → c.ti.objId ≠ r.ti.objId)
    (hroot : ∀ r, m ≠ .rootStart r) : (w.enqueue 0 m).Attending := by
  have hqueue : (w.enqueue 0 m).queues 0 = w.queues 0 ++ [m] := by rw [queues_enqueue, if_pos rfl]
  have hmem : ∀ {r}, .rootStart r ∈ (w.enqueue 0 m).queues 0 → .rootStart r ∈ w.queues 0 := by
    intro r hr
    rw [hqueue] at hr
    rcases List.mem_append.mp hr with hr | hr
    · exact hr
    · exact absurd (List.mem_singleton.mp hr).symm (hroot r)
  exact {
    size := h.size
    finds := by
      rw [hqueue]
      exact preceded_concat.mpr ⟨h.finds, hm⟩
    ptr := h.ptr
    childrenApart := h.childrenApart
    takenObject := h.takenObject
    takenCall := fun {c} hc => by
      rw [hqueue] at hc
      rcases List.mem_append.mp hc with hc | hc
      · exact h.takenCall hc
      · exact (hcall c (List.mem_singleton.mp hc).symm).1
    takenRoot := fun hr => h.takenRoot (hmem hr)
    rootObject := fun hr => h.rootObject (hmem hr)
    rootCall := fun {r c} hr hc => by
      rw [hqueue] at hc
      rcases List.mem_append.mp hc with hc | hc
      · exact h.rootCall (hmem hr) hc
      · exact (hcall c (List.mem_singleton.mp hc).symm).2 r (hmem hr)
    rootsApart := by
      have hnone : m.rootId = none := by
        cases m with
        | rootStart r => exact absurd rfl (hroot r)
        | _ => rfl
      rw [hqueue, List.filterMap_append, List.filterMap_cons_none hnone]
      simpa using h.rootsApart }

theorem enqueue_data (h : w.Attending) (d : Data) : (w.enqueue 0 (.data d)).Attending :=
  h.enqueue (fun _ ho => (nomatch ho)) (fun _ hc => (nomatch hc)) fun _ hr => (nomatch hr)

/-- The entry of an object changes. -/
theorem setObject (h : w.Attending) (id : Id) (obj : ObjectDataThreaded) (hptr : obj.ptr.isSome)
    (hchildren : (obj.children.map (·.1)).Nodup) (htaken : Taken w.objIds id)
    (hroot : ∀ r, .rootStart r ∈ w.queues 0 → id ≠ r.ti.objId) :
    (w.setThread 0 ((w.threads 0).setObject id obj)).Attending := by
  have hobj : ∀ o, ((w.setThread 0 ((w.threads 0).setObject id obj)).threads 0).objInfo o =
      if o = id then some obj else (w.threads 0).objInfo o := by
    intro o
    rw [threads_setThread_self, ThreadData.objInfo_setObject]
  exact {
    size := h.size
    finds := h.finds.mono fun front m back _ hfinds o ho => by
      refine ⟨(hfinds o ho).1.imp_left fun ho => ?_, (hfinds o ho).2⟩
      rw [hobj]
      split
      · rfl
      · exact ho
    ptr := fun {o obj'} ho => by
      rw [hobj] at ho
      split at ho
      · exact Option.some.inj ho ▸ hptr
      · exact h.ptr ho
    childrenApart := fun {o obj'} ho => by
      rw [hobj] at ho
      split at ho
      · exact Option.some.inj ho ▸ hchildren
      · exact h.childrenApart ho
    takenObject := fun {o} ho => by
      rw [hobj] at ho
      split at ho
      · rename_i heq
        exact heq ▸ htaken
      · exact h.takenObject ho
    takenCall := h.takenCall
    takenRoot := h.takenRoot
    rootObject := fun {r} hr => by
      rw [hobj, if_neg (Ne.symm (hroot r hr))]
      exact h.rootObject hr
    rootCall := h.rootCall
    rootsApart := h.rootsApart }

/-- The entry of an object that exists changes. -/
theorem update (h : w.Attending) {id : Id} {old : ObjectDataThreaded}
    (hold : (w.threads 0).objInfo id = some old) (obj : ObjectDataThreaded)
    (hptr : obj.ptr = old.ptr) (hchildren : (obj.children.map (·.1)).Nodup) :
    (w.setThread 0 ((w.threads 0).setObject id obj)).Attending := by
  refine h.setObject id obj (hptr ▸ h.ptr hold) hchildren (h.takenObject (by rw [hold]; rfl)) ?_
  rintro r hr rfl
  rw [h.rootObject hr] at hold
  cases hold

end Attending

/-! ## A handler run -/

theorem setChild_keys (children : List (Id × ChildObjectInfo)) (id : Id)
    (f : ChildObjectInfo → ChildObjectInfo) :
    (setChild children id f).map (·.1) =
      if id ∈ children.map (·.1) then children.map (·.1) else children.map (·.1) ++ [id] := by
  induction children with
  | nil => rfl
  | cons child children ih =>
    simp only [setChild]
    by_cases h : child.1 = id
    · rw [if_pos h, if_pos]
      · rfl
      · exact h ▸ List.mem_cons_self
    · rw [if_neg h, List.map_cons, ih]
      by_cases hmem : id ∈ children.map (·.1)
      · have hmem' : id ∈ (child :: children).map (·.1) := List.mem_cons_of_mem _ hmem
        rw [if_pos hmem, if_pos hmem']
        rfl
      · rw [if_neg hmem, if_neg]
        · rfl
        · exact fun hmem' => (List.mem_cons.mp hmem').elim (fun h' => h h'.symm) hmem

theorem setChild_nodup {children : List (Id × ChildObjectInfo)} (h : (children.map (·.1)).Nodup)
    (id : Id) (f : ChildObjectInfo → ChildObjectInfo) :
    ((setChild children id f).map (·.1)).Nodup := by
  rw [setChild_keys]
  split
  · exact h
  · rename_i hmem
    exact List.nodup_append.mpr ⟨h, List.pairwise_singleton _ id, fun a ha b hb hab =>
      hmem (List.mem_singleton.mp hb ▸ hab ▸ ha)⟩

/-- More objects, and the same messages. -/
theorem Lives.mono (h : w.Lives o) (hqueue : w'.queues 0 = w.queues 0)
    (hobj : ((w.threads 0).objInfo o).isSome → ((w'.threads 0).objInfo o).isSome) : w'.Lives o := by
  unfold Lives
  rw [hqueue]
  exact ⟨h.1.imp_left hobj, h.2⟩

/-- Another message, and more objects. -/
theorem Lives.append (h : w.Lives o) (hqueue : w'.queues 0 = w.queues 0 ++ [m])
    (hm : ∀ d, m = .delete d → d.ti.objId ≠ o)
    (hobj : ((w.threads 0).objInfo o).isSome → ((w'.threads 0).objInfo o).isSome) : w'.Lives o := by
  have hpush := h.enqueue hm
  refine hpush.mono ?_ hobj
  rw [hqueue, queues_enqueue, if_pos rfl]

theorem Lives.setObject (h : w.Lives o) (id : Id) (obj : ObjectDataThreaded) :
    (w.setThread 0 ((w.threads 0).setObject id obj)).Lives o := by
  refine h.mono rfl fun ho => ?_
  rw [threads_setThread_self, ThreadData.objInfo_setObject]
  split
  · rfl
  · exact ho

/-- The object whose handler ran is there. -/
def Exists (w : World V σ) (o : Id) : Prop := ∃ obj, (w.threads 0).objInfo o = some obj

theorem exists_setObject (w : World V σ) (id : Id) (obj : ObjectDataThreaded) :
    (w.setThread 0 ((w.threads 0).setObject id obj)).Exists id := by
  refine ⟨obj, ?_⟩
  rw [threads_setThread_self, ThreadData.objInfo_setObject, if_pos rfl]

namespace Attending

/-- The table of children of an object changes. -/
theorem updateChildren (h : w.Attending) (ho : w.Exists o)
    {children : List (Id × ChildObjectInfo)} (hchildren : (children.map (·.1)).Nodup) :
    (w.setThread 0 ((w.threads 0).setObject o { (w.threads 0).object o with children })).Attending := by
  obtain ⟨obj, hobj⟩ := ho
  exact h.update hobj _ (by rw [object_eq hobj]) hchildren

theorem nodup_children (h : w.Attending) (ho : w.Exists o) :
    (((w.threads 0).object o).children.map (·.1)).Nodup := by
  obtain ⟨obj, hobj⟩ := ho
  rw [object_eq hobj]
  exact h.childrenApart hobj

theorem addChild (h : w.Attending) (hobj : w.Exists ti.objId)
    (hdelete : ∀ d, .delete d ∈ w.queues 0 → d.ti.objId ≠ ti.objId) (q : EventQueuedConstruct V)
    (runThread : Nat) : (w.addChild 0 ctx ti q runThread).Attending := by
  let id := (getId w.objIds (some 0)).1
  let call : ConstructorCall V :=
    { constructor := { fn := q.fn, slot := some (ti.objId, q.idx, q.vidx) }
      ci := { threadId := some runThread, objId := ti.objId, procId := ti.procId }
      ti := { objId := id, procId := none }
      uringData := if q.shared then some ctx else none }
  have hids : ({ w with objIds := (getId w.objIds (some 0)).2 } : World V σ).Attending :=
    h.congr rfl rfl rfl fun id hid => (taken_getId _ _ id).mpr (Or.inl hid)
  obtain ⟨obj, hobj'⟩ := hobj
  have hcall := hids.enqueue (m := .constructorCall call)
    (fun o ho => Option.some.inj ho ▸ ⟨Or.inl (by rw [hobj']; rfl), hdelete⟩)
    (fun c hc => by
      obtain rfl := EventVariant.constructorCall.inj hc
      refine ⟨(taken_getId _ _ _).mpr (Or.inr rfl), fun r hr heq => ?_⟩
      have htaken := h.takenRoot hr
      rw [← heq] at htaken
      exact not_taken_getId w.objIds (some 0) htaken)
    fun _ hr => (nomatch hr)
  have hcontext : (({ w with objIds := (getId w.objIds (some 0)).2 }.enqueue 0
      (.constructorCall call)).setContext ctx ((w.contexts ctx).setLocator q.idx q.vidx
        { objectId := id, threadId := [runThread] })).Attending :=
    hcall.congr rfl rfl rfl fun _ hid => hid
  exact hcontext.updateChildren ⟨obj, hobj'⟩ (setChild_nodup (h.nodup_children ⟨obj, hobj'⟩) _ _)

theorem addCall (h : w.Attending) (hobj : w.Exists ti.objId) (q : EventQueuedFunction V)
    {objectId : Id} (hlives : w.Lives objectId) :
    (w.addCall 0 ctx ti q objectId 0).Attending := by
  let id := (getId w.procIds (some 0)).1
  have hids : ({ w with procIds := (getId w.procIds (some 0)).2 } : World V σ).Attending :=
    h.congr rfl rfl rfl fun _ hid => hid
  have hobject := hids.updateChildren hobj (setChild_nodup (h.nodup_children hobj) objectId
    fun info => { thread := 0, procedures := info.procedures ++ [id] })
  have hcall := hobject.enqueue (m := .functionCall
    { call := q.fn
      ci := { threadId := some 0, objId := ti.objId, procId := ti.procId }
      ti := { objId := objectId, procId := id } })
    (fun o ho => by
      obtain rfl := Option.some.inj ho
      exact Lives.setObject (w := { w with procIds := (getId w.procIds (some 0)).2 })
        (hlives.mono rfl fun ho => ho) _ _)
    (fun _ hc => (nomatch hc)) fun _ hr => (nomatch hr)
  exact hcall.congr rfl rfl rfl fun _ hid => hid

theorem dropChild (h : w.Attending) (hobj : w.Exists ti.objId) (objId : Id) :
    (w.dropChild 0 ti objId).Attending :=
  h.updateChildren hobj ((h.nodup_children hobj).sublist (List.filter_sublist.map _))

end Attending

/-- While the queues of a handler are processed: what is left to do acts for objects that live. -/
structure Handling (ctx : Nat) (ti : TargetInfo) (es : EventState V) (w : World V σ) : Prop where
  attending : w.Attending
  object : w.Exists ti.objId
  constructs : es.construct ≠ [] → ∀ d, .delete d ∈ w.queues 0 → d.ti.objId ≠ ti.objId
  calls : ∀ q ∈ es.function, ∀ info l, (w.contexts ctx).slot q.idx q.vidx = some info →
    info.locator = some l → w.Lives l.objectId
  deletes : ∀ q ∈ es.delete, w.Lives q.objId

namespace Handling

theorem sameCore (h : Handling ctx ti es w) (hw : SameCore 0 w w') : Handling ctx ti es w' := by
  have hlives : ∀ {o}, w.Lives o → w'.Lives o := fun ho =>
    ho.mono (by rw [hw.queues]) fun ho => by rwa [hw.objInfo]
  exact {
    attending := h.attending.sameCore hw
    object := by
      unfold Exists
      rw [hw.objInfo]
      exact h.object
    constructs := by
      rw [hw.queues]
      exact h.constructs
    calls := fun q hq info l hslot hl =>
      hlives (h.calls q hq info l ((IoUringData.slot_congr (hw.subEvents ctx)).symm.trans hslot) hl)
    deletes := fun q hq => hlives (h.deletes q hq) }

theorem construct (h : Handling ctx ti es w) {q : EventQueuedConstruct V} (hq : q ∈ es.construct)
    (hw : w.queuedConstruct 0 ctx ti q = .ok w') : Handling ctx ti es w' := by
  obtain rfl | ⟨runThread, rfl⟩ := queuedConstruct_cases hw
  · exact h
  · have hd : Handling ctx ti es w.decided := h.sameCore (SameCore.refl 0 w).decided
    have hdelete := hd.constructs (List.ne_nil_of_mem hq)
    obtain ⟨c, hc, -, -, hqueues⟩ := message_addChild w.decided 0 ctx ti q runThread
    have hqueue : (w.decided.addChild 0 ctx ti q runThread).queues 0 =
        w.queues 0 ++ [.constructorCall c] := hqueues 0
    have hlives : ∀ {o}, w.Lives o → (w.decided.addChild 0 ctx ti q runThread).Lives o := by
      intro o ho
      refine ho.append hqueue (fun d hd => nomatch hd) fun hobj => ?_
      rw [objInfo_addChild]
      split
      · rfl
      · exact hobj
    exact {
      attending := hd.attending.addChild hd.object hdelete q runThread
      object := exists_setObject w.decided ti.objId _
      constructs := fun hne d hd => by
        rw [hqueue] at hd
        rcases List.mem_append.mp hd with hd | hd
        · exact h.constructs hne d hd
        · cases List.mem_singleton.mp hd
      calls := fun q' hq' info l hslot hl => by
        rw [slot_addChild] at hslot
        split at hslot
        · -- the new object is called
          obtain ⟨info', -, rfl⟩ := Option.map_eq_some_iff.mp hslot
          obtain rfl := Option.some.inj hl
          unfold Lives
          rw [hqueue]
          refine ⟨Or.inr ⟨c, List.mem_append_right _ List.mem_cons_self, hc⟩, fun d hd => ?_⟩
          rcases List.mem_append.mp hd with hd | hd
          · exact h.attending.not_deleted (not_taken_getId _ _) d hd
          · cases List.mem_singleton.mp hd
        · exact hlives (h.calls q' hq' info l hslot hl)
      deletes := fun q' hq' => hlives (h.deletes q' hq') }

theorem call (h : Handling ctx ti es w) {q : EventQueuedFunction V} (hq : q ∈ es.function)
    (hw : w.queuedFunction 0 ctx ti q = .ok w') : Handling ctx ti es w' := by
  obtain ⟨-, rfl⟩ | ⟨info, l, target, hslot, hl, -, htarget, rfl⟩ := queuedFunction_eq_ok hw
  · exact h
  · have hd : Handling ctx ti es w.decided := h.sameCore (SameCore.refl 0 w).decided
    obtain rfl : target = 0 := by
      have hsize := h.attending.size
      omega
    obtain ⟨f, -, -, hqueues⟩ := message_addCall w.decided 0 ctx ti q l.objectId 0
    have hqueue : (w.decided.addCall 0 ctx ti q l.objectId 0).queues 0 =
        w.queues 0 ++ [.functionCall f] := hqueues 0
    have hlives : ∀ {o}, w.Lives o → (w.decided.addCall 0 ctx ti q l.objectId 0).Lives o := by
      intro o ho
      refine ho.append hqueue (fun d hd => nomatch hd) fun hobj => ?_
      rw [objInfo_addCall]
      split
      · rfl
      · exact hobj
    exact {
      attending := hd.attending.addCall hd.object q (hd.calls q hq info l hslot hl)
      object := exists_setObject w.decided ti.objId _
      constructs := fun hne d hd => by
        rw [hqueue] at hd
        rcases List.mem_append.mp hd with hd | hd
        · exact h.constructs hne d hd
        · cases List.mem_singleton.mp hd
      calls := fun q' hq' info' l' hslot' hl' => by
        rw [slot_addCall] at hslot'
        exact hlives (h.calls q' hq' info' l' hslot' hl')
      deletes := fun q' hq' => hlives (h.deletes q' hq') }

end Handling

/-- Every deletion of a handler goes to one thread. -/
theorem thread_of_holds (hok : w.LocatorsOk) {d : IoUringData V} (hd : ∀ l, d.Holds l →
    (w.contexts ctx).Holds l) {qs : List EventQueuedDelete}
    (hqs : ∀ q ∈ qs, ∃ l, d.Holds l ∧ q = { thread := l.threadId, objId := l.objectId }) :
    ∀ q ∈ qs, ∃ r, q.thread = [r] := by
  intro q hq
  obtain ⟨l, hl, rfl⟩ := hqs q hq
  exact hok.thread (hd l hl)

/-- With one worker, the deletion of an object with one thread is one message. -/
theorem queuedDelete_singleton {q : EventQueuedDelete} {r : Nat} (hr : q.thread = [r])
    (hsize : w.size = 1) (h : w.queuedDelete 0 ti q = .ok w') :
    w' = (w.enqueue 0 (.delete
      { ci := { threadId := some 0, objId := ti.objId, procId := ti.procId }
        ti := { objId := q.objId, procId := none } })).dropChild 0 ti q.objId := by
  unfold queuedDelete at h
  rw [hr] at h
  split at h
  · cases h
  · rename_i w₂ hpush
    obtain rfl := Except.ok.inj h
    simp only [pushDeletes] at hpush
    split at hpush
    · cases hpush
    · rename_i w₃ hpush'
      obtain rfl := Except.ok.inj hpush
      obtain ⟨n, hn, hlt, rfl⟩ := push_eq_ok hpush'
      obtain rfl : n = 0 := Nat.lt_one_iff.mp (hsize ▸ hlt)
      rfl

/-- The deletions of a handler, each for another object. -/
theorem each_queuedDelete {qs : List EventQueuedDelete}
    (h : each (queuedDelete 0 ti) qs w = .ok w') (hattending : w.Attending)
    (hobj : w.Exists ti.objId) (hlives : ∀ q ∈ qs, w.Lives q.objId)
    (hthread : ∀ q ∈ qs, ∃ r, q.thread = [r]) (hapart : (qs.map (·.objId)).Nodup) :
    w'.Attending := by
  induction qs generalizing w with
  | nil =>
    obtain rfl := Except.ok.inj h
    exact hattending
  | cons q qs ih =>
    simp only [each] at h
    split at h
    · cases h
    · rename_i w₁ hstep
      obtain ⟨r, hr⟩ := hthread q List.mem_cons_self
      rw [List.map_cons, List.nodup_cons] at hapart
      obtain rfl := queuedDelete_singleton hr hattending.size hstep
      have hpushed := hattending.enqueue (m := .delete
          { ci := { threadId := some 0, objId := ti.objId, procId := ti.procId }
            ti := { objId := q.objId, procId := none } })
        (fun o ho => Option.some.inj ho ▸ hlives q List.mem_cons_self)
        (fun _ hc => by cases hc) fun _ hr => by cases hr
      refine ih h (hpushed.dropChild hobj q.objId) (exists_setObject _ ti.objId _)
        (fun q' hq' => ?_) (fun q' hq' => hthread q' (List.mem_cons_of_mem _ hq')) hapart.2
      refine Lives.setObject ((hlives q' (List.mem_cons_of_mem _ hq')).enqueue fun d hd => ?_) _ _
      rw [← EventVariant.delete.inj hd]
      intro heq
      exact hapart.1 (List.mem_map.mpr ⟨q', hq', heq.symm⟩)

/-- What a handler queued is processed. -/
theorem Handling.processQueued (h : Handling ctx ti es w)
    (hq : w.processQueued 0 ctx ti es = .ok w') (hthread : ∀ q ∈ es.delete, ∃ r, q.thread = [r])
    (hapart : (es.delete.map (·.objId)).Nodup) : w'.Attending := by
  obtain ⟨w₁, w₂, w₃, w₄, h₁, h₂, h₃, h₄, h₅⟩ := processQueued_stages hq
  have hconstructs : Handling ctx ti es w₁ :=
    each_invariant h₁ h fun q hq _ _ hI hstep => hI.construct hq hstep
  have hcalls : Handling ctx ti es w₂ :=
    each_invariant h₂ hconstructs fun q hq _ _ hI hstep => hI.call hq hstep
  have hrest := hcalls.sameCore h₃
  exact (each_queuedDelete h₄ hrest.attending hrest.object hrest.deletes hthread hapart).sameCore h₅

end World

end LocalSoftware
