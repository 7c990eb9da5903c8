import LocalSoftware.Common.Accounts
import LocalSoftware.Common.Presence

/-!
# No object is left behind

With one worker thread, an object that was constructed for another one is among its children as long
as the other one exists, and has a deletion in the queue after that. `Family` is this invariant, with
the order of the messages that it rests on, and `no_orphans` what follows for a run: once the queue
is empty, nothing is left of an object that was deleted, nor of what it constructed.
-/

set_option autoImplicit false

namespace LocalSoftware

variable {V : Vocabulary} {σ : Type}

namespace World

variable {w w' : World V σ} {ctx : Nat} {ti : TargetInfo} {es : EventState V} {P : Program V σ}
  {m : EventVariant V} {rest : List (EventVariant V)} {taken : Nat → List (EventVariant V)}
  {parent x : Id}

/-- The children of the objects. -/
def kids (w : World V σ) : Id → Option (List Id) :=
  fun o => ((w.threads 0).objInfo o).map fun obj => obj.children.map (·.1)

/-- The objects whose construction was sent. -/
def built (taken : Nat → List (EventVariant V)) (w : World V σ) : List Id :=
  (taken 0 ++ w.queues 0).filterMap EventVariant.builtId

/-- An object is there, or its construction is in the queue. -/
def Present (w : World V σ) (x : Id) : Prop :=
  (w.kids x).isSome ∨ x ∈ (w.queues 0).filterMap EventVariant.builtId

/-- An object is a child of another one, or its deletion is in the queue. -/
def Cared (w : World V σ) (parent x : Id) : Prop :=
  (∃ l, w.kids parent = some l ∧ x ∈ l) ∨ ∃ d, .delete d ∈ w.queues 0 ∧ d.ti.objId = x

/-- A deletion is behind the construction of its object. -/
def BehindBuilt (m : EventVariant V) (front : List (EventVariant V)) : Prop :=
  ∀ o, m.endedId = some o → o ∈ front.filterMap EventVariant.builtId

/-- Each object is constructed once, and deleted after that for good; while it is there, the object
that constructed it cares for it. -/
structure Family (taken : Nat → List (EventVariant V)) (w : World V σ) : Prop where
  size : w.size = 1
  unique : (built taken w).Nodup
  takenBuilt : ∀ o ∈ built taken w, Taken w.objIds o
  takenRoot : ∀ o ∈ (w.queues 0).filterMap EventVariant.rootId,
    Taken w.objIds o ∧ o ∉ built taken w
  rootsApart : ((w.queues 0).filterMap EventVariant.rootId).Nodup
  objects : ∀ {o}, (w.kids o).isSome → o ∈ (taken 0).filterMap EventVariant.builtId
  locators : ∀ {ctx l}, (w.contexts ctx).Holds l → l.objectId ∈ built taken w
  children : ∀ {o l x}, w.kids o = some l → x ∈ l → x ∈ built taken w
  behind : Preceded BehindBuilt (taken 0 ++ w.queues 0)
  gone : ∀ {d}, .delete d ∈ taken 0 → w.kids d.ti.objId = none
  cared : ∀ {c parent ty idx}, .constructorCall c ∈ taken 0 ++ w.queues 0 →
    c.constructor.slot = some (parent, ty, idx) → w.Present c.ti.objId → w.Cared parent c.ti.objId

/-! ## The tables after an update -/

theorem kids_congr (h : (w'.threads 0).objInfo = (w.threads 0).objInfo) : w'.kids = w.kids := by
  funext o
  rw [kids, kids, h]

theorem kids_setObject (id : Id) (obj : ObjectDataThreaded) :
    (w.setThread 0 ((w.threads 0).setObject id obj)).kids =
      Function.update w.kids id (some (obj.children.map (·.1))) := by
  funext o
  simp only [kids, threads_setThread_self, ThreadData.objInfo_setObject, Function.update_apply]
  split <;> rfl

/-- The children of an object that is there. -/
theorem kids_object (h : w.Exists x) :
    w.kids x = some (((w.threads 0).object x).children.map (·.1)) := by
  obtain ⟨obj, hobj⟩ := h
  rw [object_eq hobj, kids, hobj]
  rfl

theorem mem_setChild_keys {children : List (Id × ChildObjectInfo)} {id y : Id}
    {f : ChildObjectInfo → ChildObjectInfo} :
    y ∈ (setChild children id f).map (·.1) ↔ y ∈ children.map (·.1) ∨ y = id := by
  rw [setChild_keys]
  split
  · rename_i hmem
    exact ⟨Or.inl, fun h => h.elim (fun h => h) fun h => h ▸ hmem⟩
  · rw [List.mem_append, List.mem_singleton]

theorem built_enqueue : built taken (w.enqueue 0 m) = built taken w ++ m.builtId.toList := by
  unfold built
  rw [queues_enqueue, if_pos rfl, ← List.append_assoc, List.filterMap_append]
  cases hm : m.builtId <;> simp [hm]

theorem mem_builtId {l : List (EventVariant V)} {o : Id} :
    o ∈ l.filterMap EventVariant.builtId ↔ ∃ c, .constructorCall c ∈ l ∧ c.ti.objId = o := by
  rw [List.mem_filterMap]
  constructor
  · rintro ⟨m, hm, hid⟩
    cases m with
    | constructorCall c => exact ⟨c, hm, Option.some.inj hid⟩
    | _ => cases hid
  · rintro ⟨c, hc, rfl⟩
    exact ⟨_, hc, rfl⟩

theorem mem_built_of_call {c : ConstructorCall V}
    (hc : .constructorCall c ∈ taken 0 ++ w.queues 0) : c.ti.objId ∈ built taken w :=
  mem_builtId.mpr ⟨c, hc, rfl⟩

namespace Family

theorem congr (h : Family taken w) (hsize : w'.size = w.size) (hqueue : w'.queues 0 = w.queues 0)
    (hkids : w'.kids = w.kids) (hholds : HoldsLe w w')
    (hids : ∀ id, Taken w.objIds id → Taken w'.objIds id) : Family taken w' where
  size := hsize.trans h.size
  unique := by
    rw [built, hqueue]
    exact h.unique
  takenBuilt o ho := hids _ (h.takenBuilt o (by rwa [built, hqueue] at ho))
  takenRoot o ho := by
    rw [hqueue] at ho
    rw [built, hqueue]
    exact (h.takenRoot o ho).imp_left (hids o)
  rootsApart := hqueue ▸ h.rootsApart
  objects ho := h.objects (hkids ▸ ho)
  locators hl := by
    rw [built, hqueue]
    exact h.locators (hholds _ _ hl)
  children ho hx := by
    rw [hkids] at ho
    rw [built, hqueue]
    exact h.children ho hx
  behind := hqueue ▸ h.behind
  gone hd := hkids ▸ h.gone hd
  cared hc hslot hx := by
    rw [hqueue] at hc
    rw [Present, hkids, hqueue] at hx
    rw [Cared, hkids, hqueue]
    exact h.cared hc hslot hx

theorem sameCore (h : Family taken w) (hw : SameCore 0 w w') : Family taken w' :=
  h.congr hw.size (by rw [hw.queues]) (kids_congr hw.objInfo) hw.holdsLe
    fun _ hid => hw.objIds.symm ▸ hid

/-- A message that constructs and starts nothing. -/
theorem enqueue (h : Family taken w) (hbuilt : m.builtId = none) (hroot : m.rootId = none)
    (hended : ∀ o, m.endedId = some o → o ∈ built taken w) : Family taken (w.enqueue 0 m) := by
  have hqueue : (w.enqueue 0 m).queues 0 = w.queues 0 ++ [m] := by rw [queues_enqueue, if_pos rfl]
  have hsame : built taken (w.enqueue 0 m) = built taken w := by
    rw [built_enqueue, hbuilt]
    exact List.append_nil _
  have hroots : ((w.enqueue 0 m).queues 0).filterMap EventVariant.rootId =
      (w.queues 0).filterMap EventVariant.rootId := by
    rw [hqueue, List.filterMap_append, List.filterMap_cons_none hroot]
    exact List.append_nil _
  exact {
    size := h.size
    unique := hsame ▸ h.unique
    takenBuilt := hsame ▸ h.takenBuilt
    takenRoot := by
      rw [hroots, hsame]
      exact h.takenRoot
    rootsApart := hroots ▸ h.rootsApart
    objects := h.objects
    locators := hsame ▸ h.locators
    children := hsame ▸ h.children
    behind := by
      rw [hqueue, ← List.append_assoc]
      exact preceded_concat.mpr ⟨h.behind, hended⟩
    gone := h.gone
    cared := fun {c parent ty idx} hc hslot hx => by
      -- the message constructs nothing, so the constructions are the old ones
      have hmem : ∀ {c}, .constructorCall c ∈ w.queues 0 ++ [m] → .constructorCall c ∈ w.queues 0 := by
        intro c hc
        rcases List.mem_append.mp hc with hc | hc
        · exact hc
        · rw [← List.mem_singleton.mp hc] at hbuilt
          cases hbuilt
      have hc' : .constructorCall c ∈ taken 0 ++ w.queues 0 := by
        rw [hqueue] at hc
        exact (List.mem_append.mp hc).elim (List.mem_append_left _)
          fun hc => List.mem_append_right _ (hmem hc)
      have hx' : w.Present c.ti.objId := by
        refine hx.imp_right fun hx => ?_
        rw [hqueue, mem_builtId] at hx
        obtain ⟨c', hc', hid⟩ := hx
        exact mem_builtId.mpr ⟨c', hmem hc', hid⟩
      refine (h.cared hc' hslot hx').imp_right fun ⟨d, hd, hid⟩ => ⟨d, ?_, hid⟩
      rw [hqueue]
      exact List.mem_append_left _ hd }

theorem enqueue_data (h : Family taken w) (d : Data) : Family taken (w.enqueue 0 (.data d)) :=
  h.enqueue rfl rfl fun _ ho => nomatch ho

/-- The children of an object that is there change; those that it loses will be deleted. -/
theorem updateChildren (h : Family taken w) (ho : w.Exists x)
    {children : List (Id × ChildObjectInfo)} (hbuilt : ∀ y ∈ children.map (·.1), y ∈ built taken w)
    (hlost : ∀ y ∈ ((w.threads 0).object x).children.map (·.1), y ∈ children.map (·.1) ∨
      ∃ d, .delete d ∈ w.queues 0 ∧ d.ti.objId = y) :
    Family taken (w.setThread 0 ((w.threads 0).setObject x
      { (w.threads 0).object x with children })) := by
  have hx := kids_object ho
  have hkids := kids_setObject (w := w) x { (w.threads 0).object x with children }
  have hsome : ∀ {y}, ((w.setThread 0 ((w.threads 0).setObject x
      { (w.threads 0).object x with children })).kids y).isSome → (w.kids y).isSome := by
    intro y hy
    rw [hkids, Function.update_apply] at hy
    split at hy
    · rename_i heq
      rw [heq, hx]
      rfl
    · exact hy
  exact {
    size := h.size
    unique := h.unique
    takenBuilt := h.takenBuilt
    takenRoot := h.takenRoot
    rootsApart := h.rootsApart
    objects := fun hy => h.objects (hsome hy)
    locators := h.locators
    children := fun {o l y} hl hy => by
      rw [hkids, Function.update_apply] at hl
      split at hl
      · exact hbuilt y (Option.some.inj hl ▸ hy)
      · exact h.children hl hy
    behind := h.behind
    gone := fun {d} hd => by
      rw [hkids, Function.update_of_ne]
      · exact h.gone hd
      · rintro rfl
        rw [h.gone hd] at hx
        cases hx
    cared := fun {c parent ty idx} hc hslot hy => by
      rcases h.cared hc hslot (hy.imp_left hsome) with ⟨l, hl, hmem⟩ | hdelete
      · by_cases hp : parent = x
        · subst hp
          obtain rfl := Option.some.inj (hx.symm.trans hl)
          refine (hlost _ hmem).imp_left fun hmem => ⟨_, ?_, hmem⟩
          rw [hkids, Function.update_self]
        · exact Or.inl ⟨l, by rw [hkids, Function.update_of_ne hp, hl], hmem⟩
      · exact Or.inr hdelete }

/-- A construction with a new identifier is sent; its object may become a child. -/
theorem construct (h : Family taken w) {c : ConstructorCall V} (hsize : w'.size = w.size)
    (hqueue : w'.queues 0 = w.queues 0 ++ [.constructorCall c])
    (hids : ∀ id, Taken w.objIds id → Taken w'.objIds id) (htaken : Taken w'.objIds c.ti.objId)
    (hfresh : c.ti.objId ∉ built taken w)
    (hroot : c.ti.objId ∉ (w.queues 0).filterMap EventVariant.rootId)
    (hsub : ∀ {o l'}, w'.kids o = some l' →
      ∃ l, w.kids o = some l ∧ ∀ y ∈ l', y ∈ l ∨ y = c.ti.objId)
    (hsup : ∀ {o l}, w.kids o = some l → ∃ l', w'.kids o = some l' ∧ l ⊆ l')
    (hholds : ∀ ctx l, (w'.contexts ctx).Holds l →
      (w.contexts ctx).Holds l ∨ l.objectId = c.ti.objId)
    (hparent : ∀ {parent ty idx}, c.constructor.slot = some (parent, ty, idx) →
      ∃ l, w'.kids parent = some l ∧ c.ti.objId ∈ l) : Family taken w' := by
  have hbuilt : built taken w' = built taken w ++ [c.ti.objId] := by
    rw [built, hqueue, ← List.append_assoc, List.filterMap_append]
    rfl
  have hroots : (w'.queues 0).filterMap EventVariant.rootId =
      (w.queues 0).filterMap EventVariant.rootId := by
    rw [hqueue, List.filterMap_append]
    exact List.append_nil _
  have hmem : ∀ {y}, y ∈ built taken w' ↔ y ∈ built taken w ∨ y = c.ti.objId := by
    intro y
    rw [hbuilt, List.mem_append, List.mem_singleton]
  have hsome : ∀ {y}, (w'.kids y).isSome → (w.kids y).isSome := by
    intro y hy
    obtain ⟨l', hl'⟩ := Option.isSome_iff_exists.mp hy
    obtain ⟨l, hl, -⟩ := hsub hl'
    rw [hl]
    rfl
  exact {
    size := hsize.trans h.size
    unique := by
      rw [hbuilt]
      refine List.nodup_append.mpr ⟨h.unique, List.nodup_singleton _, ?_⟩
      rintro a ha b hb rfl
      exact hfresh (List.mem_singleton.mp hb ▸ ha)
    takenBuilt := fun o ho => (hmem.mp ho).elim (fun ho => hids o (h.takenBuilt o ho))
      fun ho => ho ▸ htaken
    takenRoot := fun o ho => by
      rw [hroots] at ho
      refine ⟨hids o (h.takenRoot o ho).1, fun hb => ?_⟩
      rcases hmem.mp hb with hb | rfl
      · exact (h.takenRoot o ho).2 hb
      · exact hroot ho
    rootsApart := hroots ▸ h.rootsApart
    objects := fun ho => h.objects (hsome ho)
    locators := fun {ctx l} hl => hmem.mpr ((hholds ctx l hl).imp_left h.locators)
    children := fun {o l' y} ho hy => by
      obtain ⟨l, hl, hold⟩ := hsub ho
      exact hmem.mpr ((hold y hy).imp_left (h.children hl))
    behind := by
      rw [hqueue, ← List.append_assoc]
      exact preceded_concat.mpr ⟨h.behind, fun _ ho => nomatch ho⟩
    gone := fun hd => by
      by_contra hne
      have hold := hsome (Option.isSome_iff_ne_none.mpr hne)
      rw [h.gone hd] at hold
      cases hold
    cared := fun {c' parent ty idx} hc' hslot hy => by
      rw [hqueue, ← List.append_assoc] at hc'
      rcases List.mem_append.mp hc' with hc' | hc'
      · -- an earlier construction
        have hne : c'.ti.objId ≠ c.ti.objId := fun heq => hfresh (heq ▸ mem_built_of_call hc')
        have hy' : w.Present c'.ti.objId := by
          refine hy.imp hsome fun hy => ?_
          rw [hqueue, List.filterMap_append] at hy
          exact (List.mem_append.mp hy).resolve_right fun hy => hne (List.mem_singleton.mp hy)
        rcases h.cared hc' hslot hy' with ⟨l, hl, hmem⟩ | ⟨d, hd, hid⟩
        · obtain ⟨l', hl', hsubset⟩ := hsup hl
          exact Or.inl ⟨l', hl', hsubset hmem⟩
        · exact Or.inr ⟨d, hqueue ▸ List.mem_append_left _ hd, hid⟩
      · obtain rfl := EventVariant.constructorCall.inj (List.mem_singleton.mp hc')
        exact Or.inl (hparent hslot) }

/-! ## A handler run -/

theorem addChild (h : Family taken w) (ho : w.Exists ti.objId) (q : EventQueuedConstruct V)
    (runThread : Nat) : Family taken (w.addChild 0 ctx ti q runThread) := by
  have hfresh := not_taken_getId w.objIds (some 0)
  obtain ⟨c, hc, hslot, -, hqueues⟩ := message_addChild w 0 ctx ti q runThread
  have hkids : (w.addChild 0 ctx ti q runThread).kids = Function.update w.kids ti.objId
      (some ((setChild ((w.threads 0).object ti.objId).children (getId w.objIds (some 0)).1
        fun _ => {}).map (·.1))) := by
    funext o
    rw [kids, objInfo_addChild, Function.update_apply]
    split <;> rfl
  have hold := kids_object ho
  refine h.construct (c := c) rfl (hqueues 0)
    (fun id hid => (taken_getId _ _ id).mpr (Or.inl hid)) ?_ ?_ ?_ ?_ ?_ ?_ ?_
  · rw [hc]
    exact (taken_getId _ _ _).mpr (Or.inr rfl)
  · exact fun hb => hfresh (hc ▸ h.takenBuilt _ hb)
  · exact fun hr => hfresh (hc ▸ (h.takenRoot _ hr).1)
  -- a child of an object is an old one, or the new one
  · intro o l' hl'
    rw [hkids, Function.update_apply] at hl'
    split at hl'
    · rename_i heq
      subst heq
      refine ⟨_, hold, fun y hy => ?_⟩
      rw [← Option.some.inj hl', mem_setChild_keys, ← hc] at hy
      exact hy
    · exact ⟨l', hl', fun y hy => Or.inl hy⟩
  · intro o l hl
    rw [hkids, Function.update_apply]
    split
    · rename_i heq
      subst heq
      refine ⟨_, rfl, fun y hy => mem_setChild_keys.mpr (Or.inl ?_)⟩
      obtain rfl := Option.some.inj (hold.symm.trans hl)
      exact hy
    · exact ⟨l, hl, List.Subset.refl l⟩
  · intro ctx' l hl
    rcases holds_addChild hl with hl | rfl
    · exact Or.inl hl
    · exact Or.inr hc.symm
  -- the new object has an entry with its parent
  · intro parent ty idx hparent
    obtain ⟨rfl, -⟩ := Prod.mk.inj (Option.some.inj (hslot.symm.trans hparent))
    refine ⟨_, by rw [hkids, Function.update_self], mem_setChild_keys.mpr (Or.inr hc)⟩

theorem addCall (h : Family taken w) (ho : w.Exists ti.objId) (q : EventQueuedFunction V)
    {l : Locator} (hl : (w.contexts ctx).Holds l) :
    Family taken (w.addCall 0 ctx ti q l.objectId 0) := by
  let id := (getId w.procIds (some 0)).1
  have hobject := @updateChildren V σ w taken ti.objId h ho
    (setChild ((w.threads 0).object ti.objId).children
      l.objectId fun info => { thread := 0, procedures := info.procedures ++ [id] })
    (fun y hy => by
      rcases mem_setChild_keys.mp hy with hy | rfl
      · exact h.children (kids_object ho) hy
      · exact h.locators hl)
    fun y hy => Or.inl (mem_setChild_keys.mpr (Or.inl hy))
  have hcall := hobject.enqueue (m := .functionCall
    { call := q.fn
      ci := { threadId := some 0, objId := ti.objId, procId := ti.procId }
      ti := { objId := l.objectId, procId := id } }) rfl rfl fun _ ho => nomatch ho
  exact hcall.congr rfl rfl rfl (holdsLe_setContext fun l hl => hl.congr rfl) fun _ hid => hid

/-- The deletion of a child is sent, and the child is no longer one. -/
theorem delete (h : Family taken w) (ho : w.Exists ti.objId) (d : Delete)
    (hobj : d.ti.objId ∈ built taken w) :
    Family taken ((w.enqueue 0 (.delete d)).dropChild 0 ti d.ti.objId) := by
  have hpush := h.enqueue (m := .delete d) rfl rfl fun o ho => Option.some.inj ho ▸ hobj
  refine hpush.updateChildren ho (fun y hy => ?_) fun y hy => ?_
  · refine hpush.children (kids_object ho) ?_
    obtain ⟨child, hchild, rfl⟩ := List.mem_map.mp hy
    exact List.mem_map.mpr ⟨child, (List.mem_filter.mp hchild).1, rfl⟩
  · by_cases heq : y = d.ti.objId
    · refine Or.inr ⟨d, ?_, heq.symm⟩
      rw [queues_enqueue, if_pos rfl]
      exact List.mem_append_right _ List.mem_cons_self
    · obtain ⟨child, hchild, rfl⟩ := List.mem_map.mp hy
      exact Or.inl (List.mem_map.mpr ⟨child, List.mem_filter.mpr ⟨hchild, by simpa using heq⟩, rfl⟩)

end Family

/-- What the processing of a handler run keeps. -/
structure FamilyRun (taken : Nat → List (EventVariant V)) (ti : TargetInfo) (es : EventState V)
    (w : World V σ) : Prop where
  family : Family taken w
  object : w.Exists ti.objId
  deletes : ∀ q ∈ es.delete, q.objId ∈ built taken w

theorem FamilyRun.sameCore (h : FamilyRun taken ti es w) (hw : SameCore 0 w w') :
    FamilyRun taken ti es w' where
  family := h.family.sameCore hw
  object := by
    unfold Exists
    rw [hw.objInfo]
    exact h.object
  deletes q hq := by
    rw [built, hw.queues]
    exact h.deletes q hq

theorem FamilyRun.construct (h : FamilyRun taken ti es w) {q : EventQueuedConstruct V}
    (hw : w.queuedConstruct 0 ctx ti q = .ok w') : FamilyRun taken ti es w' := by
  obtain rfl | ⟨runThread, rfl⟩ := queuedConstruct_cases hw
  · exact h
  · have hd : FamilyRun taken ti es w.decided := h.sameCore (SameCore.refl 0 w).decided
    obtain ⟨c, -, -, -, hqueues⟩ := message_addChild w.decided 0 ctx ti q runThread
    refine ⟨hd.family.addChild hd.object q runThread, exists_setObject w.decided ti.objId _,
      fun q' hq' => ?_⟩
    rw [built, hqueues, if_pos rfl, ← List.append_assoc, List.filterMap_append]
    exact List.mem_append_left _ (hd.deletes q' hq')

theorem FamilyRun.call (h : FamilyRun taken ti es w) {q : EventQueuedFunction V}
    (hw : w.queuedFunction 0 ctx ti q = .ok w') : FamilyRun taken ti es w' := by
  obtain ⟨-, rfl⟩ | ⟨info, l, target, hslot, hl, -, htarget, rfl⟩ := queuedFunction_eq_ok hw
  · exact h
  · have hd : FamilyRun taken ti es w.decided := h.sameCore (SameCore.refl 0 w).decided
    obtain rfl : target = 0 := Nat.lt_one_iff.mp (h.family.size ▸ htarget)
    obtain ⟨f, -, -, hqueues⟩ := message_addCall w.decided 0 ctx ti q l.objectId 0
    have hholds : (w.decided.contexts ctx).Holds l :=
      ⟨_, _, _, IoUringData.slot_eq_some_iff.mp hslot, hl⟩
    refine ⟨hd.family.addCall hd.object q hholds, exists_setObject w.decided ti.objId _,
      fun q' hq' => ?_⟩
    rw [built, hqueues, if_pos rfl, ← List.append_assoc, List.filterMap_append]
    exact List.mem_append_left _ (hd.deletes q' hq')

theorem FamilyRun.delete (h : FamilyRun taken ti es w) {q : EventQueuedDelete} (hq : q ∈ es.delete)
    (hthread : ∃ r, q.thread = [r]) (hw : w.queuedDelete 0 ti q = .ok w') :
    FamilyRun taken ti es w' := by
  obtain ⟨r, hr⟩ := hthread
  obtain rfl := queuedDelete_singleton hr h.family.size hw
  refine ⟨h.family.delete h.object _ (h.deletes q hq), exists_setObject _ ti.objId _,
    fun q' hq' => ?_⟩
  have hbuilt : built taken (w.enqueue 0 (.delete
      { ci := { threadId := some 0, objId := ti.objId, procId := ti.procId }
        ti := { objId := q.objId, procId := none } })) = built taken w ++ _ := built_enqueue
  exact (hbuilt.trans (List.append_nil _)).symm ▸ h.deletes q' hq'

/-- What a handler queued is processed. -/
theorem FamilyRun.processQueued (h : FamilyRun taken ti es w)
    (hw : w.processQueued 0 ctx ti es = .ok w') (hthread : ∀ q ∈ es.delete, ∃ r, q.thread = [r]) :
    Family taken w' := by
  obtain ⟨w₁, w₂, w₃, w₄, h₁, h₂, h₃, h₄, h₅⟩ := processQueued_stages hw
  have hconstructs : FamilyRun taken ti es w₁ :=
    each_invariant h₁ h fun _ _ _ _ hI hstep => hI.construct hstep
  have hcalls : FamilyRun taken ti es w₂ :=
    each_invariant h₂ hconstructs fun _ _ _ _ hI hstep => hI.call hstep
  have hdeletes : FamilyRun taken ti es w₄ :=
    each_invariant h₄ (hcalls.sameCore h₃) fun q hq _ _ hI hstep => hI.delete hq (hthread q hq) hstep
  exact hdeletes.family.sameCore h₅

/-! ## A message is taken -/

theorem received_pop (hq : w.queues 0 = m :: rest) :
    Function.update taken 0 (taken 0 ++ [m]) 0 ++ (w.pop 0 rest).queues 0 =
      taken 0 ++ w.queues 0 := by
  rw [Function.update_self, queues_pop, if_pos rfl, hq, List.append_assoc]
  rfl

namespace Family

/-- Two constructions of one object are one. -/
theorem not_built (h : Family taken w) {front back : List (EventVariant V)}
    (hl : taken 0 ++ w.queues 0 = front ++ back) (hx : x ∈ front.filterMap EventVariant.builtId) :
    x ∉ back.filterMap EventVariant.builtId := by
  have hunique := h.unique
  rw [built, hl, List.filterMap_append] at hunique
  exact fun hx' => (List.nodup_append.mp hunique).2.2 x hx x hx' rfl

/-- An object whose deletion was taken was constructed before. -/
theorem built_of_taken (h : Family taken w) {d : Delete} (hd : .delete d ∈ taken 0) :
    d.ti.objId ∈ (taken 0).filterMap EventVariant.builtId := by
  obtain ⟨front, back, hl⟩ := List.append_of_mem hd
  have hbehind := h.behind front _ (back ++ w.queues 0) (by
    rw [hl, List.append_assoc]
    rfl) _ rfl
  rw [hl, List.filterMap_append]
  exact List.mem_append_left _ hbehind

theorem pop (h : Family taken w) (hq : w.queues 0 = m :: rest) (hm : m.endedId = none) :
    Family (Function.update taken 0 (taken 0 ++ [m])) (w.pop 0 rest) := by
  -- taken and queued messages together are as before
  have hall : Function.update taken 0 (taken 0 ++ [m]) 0 ++ (w.pop 0 rest).queues 0 =
      taken 0 ++ w.queues 0 := received_pop hq
  have hrest : (w.pop 0 rest).queues 0 = rest := by rw [queues_pop, if_pos rfl]
  have hbuilt : built (Function.update taken 0 (taken 0 ++ [m])) (w.pop 0 rest) = built taken w :=
    congrArg _ hall
  have hdelete : ∀ {d}, m ≠ .delete d := by
    rintro d rfl
    cases hm
  exact {
    size := h.size
    unique := hbuilt ▸ h.unique
    takenBuilt := hbuilt ▸ h.takenBuilt
    takenRoot := fun o ho => by
      rw [hbuilt]
      refine h.takenRoot o ?_
      rw [hrest] at ho
      rw [hq]
      exact ((List.sublist_cons_self m rest).filterMap _).mem ho
    rootsApart := by
      have hapart := h.rootsApart
      rw [hq] at hapart
      rw [hrest]
      exact hapart.sublist ((List.sublist_cons_self m rest).filterMap _)
    objects := fun ho => by
      rw [Function.update_self, List.filterMap_append]
      exact List.mem_append_left _ (h.objects ho)
    locators := hbuilt ▸ h.locators
    children := hbuilt ▸ h.children
    behind := hall ▸ h.behind
    gone := fun hd => by
      rw [Function.update_self] at hd
      rcases List.mem_append.mp hd with hd | hd
      · exact h.gone hd
      · exact absurd (List.mem_singleton.mp hd).symm hdelete
    cared := fun {c parent ty idx} hc hslot hx => by
      rw [hall] at hc
      have hx' : w.Present c.ti.objId := by
        refine hx.imp_right fun hx => ?_
        rw [hrest] at hx
        rw [hq]
        exact ((List.sublist_cons_self m rest).filterMap _).mem hx
      refine (h.cared hc hslot hx').imp_right fun ⟨d, hd, hid⟩ => ⟨d, ?_, hid⟩
      rw [hq] at hd
      rw [hrest]
      exact (List.mem_cons.mp hd).resolve_left fun heq => hdelete heq.symm }

/-- A construction is taken, and its object entered. -/
theorem insert (h : Family taken w) {c : ConstructorCall V}
    (hq : w.queues 0 = .constructorCall c :: rest)
    (hnew : (w.threads 0).objInfo c.ti.objId = none) (ctx : Nat) :
    Family (Function.update taken 0 (taken 0 ++ [.constructorCall c]))
      ((w.pop 0 rest).setThread 0 ((w.threads 0).setObject c.ti.objId { ptr := some ctx })) := by
  have hpop := h.pop hq rfl
  have hkids : ((w.pop 0 rest).setThread 0
      ((w.threads 0).setObject c.ti.objId { ptr := some ctx })).kids =
        Function.update w.kids c.ti.objId (some []) := kids_setObject (w := w.pop 0 rest) _ _
  have hnone : w.kids c.ti.objId = none := by
    rw [kids, hnew]
    rfl
  exact {
    size := h.size
    unique := hpop.unique
    takenBuilt := hpop.takenBuilt
    takenRoot := hpop.takenRoot
    rootsApart := hpop.rootsApart
    objects := fun {o} ho => by
      rw [hkids, Function.update_apply] at ho
      split at ho
      · rename_i heq
        rw [Function.update_self, List.filterMap_append, heq]
        exact List.mem_append_right _ List.mem_cons_self
      · exact hpop.objects ho
    locators := hpop.locators
    children := fun {o l y} hl hy => by
      rw [hkids, Function.update_apply] at hl
      split at hl
      · rw [← Option.some.inj hl] at hy
        cases hy
      · exact hpop.children hl hy
    behind := hpop.behind
    gone := fun {d} hd => by
      rw [hkids, Function.update_of_ne]
      · exact hpop.gone hd
      · -- the object was constructed before
        rw [Function.update_self] at hd
        have hd : .delete d ∈ taken 0 := (List.mem_append.mp hd).elim (fun hd => hd)
          fun hd => nomatch List.mem_singleton.mp hd
        intro heq
        refine h.not_built rfl (h.built_of_taken hd) ?_
        rw [heq, hq]
        exact List.mem_cons_self
    -- the object that is entered was in the queue before
    cared := fun {c' parent ty idx} hc' hslot hx => by
      have hx' : w.Present c'.ti.objId := by
        rcases hx with hx | hx
        · rw [hkids, Function.update_apply] at hx
          split at hx
          · rename_i heq
            refine Or.inr ?_
            rw [heq, hq]
            exact List.mem_cons_self
          · exact Or.inl hx
        · refine Or.inr ?_
          rw [queues_setThread, queues_pop, if_pos rfl] at hx
          rw [hq]
          exact ((List.sublist_cons_self _ rest).filterMap _).mem hx
      rw [queues_setThread, received_pop hq] at hc'
      rcases h.cared hc' hslot hx' with ⟨l, hl, hmem⟩ | ⟨d, hd, hid⟩
      · refine Or.inl ⟨l, ?_, hmem⟩
        rw [hkids, Function.update_of_ne, hl]
        rintro rfl
        rw [hnone] at hl
        cases hl
      · refine Or.inr ⟨d, ?_, hid⟩
        rw [queues_setThread, queues_pop, if_pos rfl]
        rw [hq] at hd
        exact (List.mem_cons.mp hd).resolve_left fun heq => nomatch heq }

end Family

/-- The message that passes a deletion on to a child. -/
def deletion (ci : CallerInfo) (child : Id × ChildObjectInfo) : EventVariant V :=
  .delete { ci, ti := { objId := child.1, procId := none } }

/-- The deletions that are passed on to the children. -/
theorem queues_deleteChildren {ci : CallerInfo} {children : List (Id × ChildObjectInfo)}
    (hsize : w.size = 1) (hw : w.deleteChildren ci children = .ok w') :
    w' = { w with queues :=
      Function.update w.queues 0 (w.queues 0 ++ children.map (deletion ci)) } := by
  induction children generalizing w with
  | nil =>
    obtain rfl := Except.ok.inj hw
    simp
  | cons child children ih =>
    simp only [deleteChildren] at hw
    split at hw
    · cases hw
    · rename_i w₁ hpush
      obtain ⟨n, hn, hlt, rfl⟩ := push_eq_ok hpush
      obtain rfl : n = 0 := Nat.lt_one_iff.mp (hsize ▸ hlt)
      rw [ih (w := w.enqueue 0 _) hsize hw]
      simp [enqueue, deletion]

/-- The object of a deletion is gone, and the deletion was passed on to its children. -/
structure Ended (d : Delete) (rest : List (EventVariant V)) (children : List (Id × ChildObjectInfo))
    (w w' : World V σ) : Prop where
  size : w'.size = w.size
  objIds : w'.objIds = w.objIds
  contexts : w'.contexts = w.contexts
  popped : w.queues 0 = .delete d :: rest
  queue : w'.queues 0 = rest ++ children.map (deletion d.ci)
  kids : w'.kids = Function.update w.kids d.ti.objId none
  told : ∀ {y}, y ∈ children.map (·.1) ↔ ∃ l, w.kids d.ti.objId = some l ∧ y ∈ l

namespace Ended

variable {d : Delete} {children : List (Id × ChildObjectInfo)}

/-- All messages so far, and the deletions of the children. -/
theorem received (h : Ended d rest children w w') :
    Function.update taken 0 (taken 0 ++ [.delete d]) 0 ++ w'.queues 0 =
      (taken 0 ++ w.queues 0) ++ children.map (deletion d.ci) := by
  rw [Function.update_self, h.queue, h.popped]
  simp

/-- A deletion neither constructs nor starts an object. -/
theorem filterMap_deletion {f : EventVariant V → Option Id} (hf : ∀ d, f (.delete d) = none)
    (ci : CallerInfo) : (children.map (deletion ci)).filterMap f = [] := by
  refine List.filterMap_eq_nil_iff.mpr fun m hm => ?_
  obtain ⟨child, -, rfl⟩ := List.mem_map.mp hm
  exact hf _

theorem filterMap_queue (h : Ended d rest children w w') {f : EventVariant V → Option Id}
    (hf : ∀ d, f (.delete d) = none) : (w'.queues 0).filterMap f = (w.queues 0).filterMap f := by
  rw [h.queue, List.filterMap_append, filterMap_deletion hf, List.append_nil, h.popped,
    List.filterMap_cons_none (hf d)]

theorem built_eq (h : Ended d rest children w w') :
    built (Function.update taken 0 (taken 0 ++ [.delete d])) w' = built taken w := by
  rw [built, h.received, List.filterMap_append, filterMap_deletion fun _ => rfl, List.append_nil]
  rfl

/-- An object that is still there is another one. -/
theorem of_kids (h : Ended d rest children w w') {o : Id} {l : List Id} (hl : w'.kids o = some l) :
    o ≠ d.ti.objId ∧ w.kids o = some l := by
  rw [h.kids, Function.update_apply] at hl
  split at hl
  · cases hl
  · exact ⟨‹_›, hl⟩

theorem of_constructorCall (h : Ended d rest children w w') {c : ConstructorCall V}
    (hc : .constructorCall c ∈ Function.update taken 0 (taken 0 ++ [.delete d]) 0 ++ w'.queues 0) :
    .constructorCall c ∈ taken 0 ++ w.queues 0 := by
  rw [h.received] at hc
  refine (List.mem_append.mp hc).resolve_right fun hc => ?_
  obtain ⟨child, -, heq⟩ := List.mem_map.mp hc
  cases heq

/-- A deletion that was in the queue still is, unless it was for the same object. -/
theorem delete_mem (h : Ended d rest children w w') {d' : Delete} (hd' : .delete d' ∈ w.queues 0)
    (hne : d'.ti.objId ≠ d.ti.objId) : .delete d' ∈ w'.queues 0 := by
  rw [h.popped] at hd'
  rw [h.queue]
  refine List.mem_append_left _ ((List.mem_cons.mp hd').resolve_left fun heq => hne ?_)
  rw [EventVariant.delete.inj heq]

end Ended

namespace Family

variable {d : Delete} {children : List (Id × ChildObjectInfo)}

/-- The end of an object, whatever the order in which its children are told. -/
theorem ended (h : Family taken w) (hq : w.queues 0 = .delete d :: rest)
    (hperm : children.Perm ((w.threads 0).object d.ti.objId).children)
    (hw : (w.pop 0 rest).deleteChildren d.ci children = .ok w') :
    Ended d rest children w (w'.erase P 0 d.ti.objId) := by
  have hsame := queues_deleteChildren (w := w.pop 0 rest) h.size hw
  have hthreads : w'.threads = w.threads := by
    rw [hsame]
    rfl
  have hqueue : w'.queues 0 = (w.pop 0 rest).queues 0 ++ children.map (deletion d.ci) := by
    rw [hsame]
    exact Function.update_self 0 _ (w.pop 0 rest).queues
  rw [queues_pop, if_pos rfl] at hqueue
  refine ⟨?_, ?_, ?_, hq, ?_, ?_, fun {y} => ?_⟩
  · show w'.size = w.size
    rw [hsame]
    rfl
  · show w'.objIds = w.objIds
    rw [hsame]
    rfl
  · show w'.contexts = w.contexts
    rw [hsame]
    rfl
  · exact hqueue
  · funext o
    rw [kids, objInfo_erase_self, hthreads, Function.update_apply]
    split <;> rfl
  · rw [(hperm.map (·.1)).mem_iff]
    cases hobj : (w.threads 0).objInfo d.ti.objId with
    | none =>
      rw [ThreadData.object, hobj]
      refine ⟨fun hy => absurd hy List.not_mem_nil, ?_⟩
      rintro ⟨l, hl, -⟩
      rw [kids, hobj] at hl
      cases hl
    | some obj =>
      rw [kids_object ⟨obj, hobj⟩]
      refine ⟨fun hy => ⟨_, rfl, hy⟩, ?_⟩
      rintro ⟨l, hl, hy⟩
      rwa [Option.some.inj hl]

/-- The children to which a deletion is passed on were constructed. -/
theorem behind_ended (h : Family taken w) (hended : Ended d rest children w w') :
    Preceded BehindBuilt (Function.update taken 0 (taken 0 ++ [.delete d]) 0 ++ w'.queues 0) := by
  rw [hended.received, preceded_append]
  refine ⟨h.behind, fun front m back hm o ho => ?_⟩
  have hmem : m ∈ children.map (deletion d.ci) := hm ▸ List.mem_append_right _ List.mem_cons_self
  obtain ⟨child, hchild, rfl⟩ := List.mem_map.mp hmem
  obtain rfl := Option.some.inj ho
  obtain ⟨l, hl, hy⟩ := hended.told.mp (List.mem_map_of_mem hchild)
  rw [List.filterMap_append]
  exact List.mem_append_left _ (h.children hl hy)

theorem gone_ended (h : Family taken w) (hended : Ended d rest children w w') {d' : Delete}
    (hd' : .delete d' ∈ Function.update taken 0 (taken 0 ++ [.delete d]) 0) :
    w'.kids d'.ti.objId = none := by
  rw [hended.kids, Function.update_apply]
  split
  · rfl
  · rename_i hne
    rw [Function.update_self] at hd'
    rcases List.mem_append.mp hd' with hd' | hd'
    · exact h.gone hd'
    · exact absurd (congrArg (·.ti.objId) (EventVariant.delete.inj (List.mem_singleton.mp hd'))) hne

/-- Who is present after the end of an object was so before, and is another one. -/
theorem present_ended (h : Family taken w) (hended : Ended d rest children w w')
    (hx : w'.Present x) : x ≠ d.ti.objId ∧ w.Present x := by
  rcases hx with hx | hx
  · obtain ⟨l, hl⟩ := Option.isSome_iff_exists.mp hx
    obtain ⟨hne, hl⟩ := hended.of_kids hl
    refine ⟨hne, Or.inl ?_⟩
    rw [hl]
    rfl
  · rw [hended.filterMap_queue fun _ => rfl] at hx
    have hown : d.ti.objId ∈ (taken 0).filterMap EventVariant.builtId :=
      h.behind (taken 0) _ rest (by rw [hended.popped]) _ rfl
    exact ⟨fun heq => h.not_built rfl hown (heq ▸ hx), Or.inr hx⟩

/-- The children of the object that ends are cared for by the deletions. -/
theorem cared_ended (hended : Ended d rest children w w') (hne : x ≠ d.ti.objId)
    (hx : w.Cared parent x) : w'.Cared parent x := by
  rcases hx with ⟨l, hl, hmem⟩ | ⟨d', hd', rfl⟩
  · by_cases hparent : parent = d.ti.objId
    · obtain ⟨child, hchild, rfl⟩ :=
        List.mem_map.mp (hended.told.mpr ⟨l, hparent ▸ hl, hmem⟩)
      refine Or.inr ⟨{ ci := d.ci, ti := { objId := child.1, procId := none } }, ?_, rfl⟩
      rw [hended.queue]
      exact List.mem_append_right _ (List.mem_map.mpr ⟨child, hchild, rfl⟩)
    · exact Or.inl ⟨l, by rw [hended.kids, Function.update_of_ne hparent, hl], hmem⟩
  · exact Or.inr ⟨d', hended.delete_mem hd' hne, rfl⟩

/-- An object ends, and the deletions of its children are in the queue. -/
theorem erase (h : Family taken w) (hq : w.queues 0 = .delete d :: rest)
    (hw : (w.pop 0 rest).deleteChildren d.ci
      (w.siblings.order ((w.threads 0).object d.ti.objId).children) = .ok w') :
    Family (Function.update taken 0 (taken 0 ++ [.delete d])) (w'.erase P 0 d.ti.objId) := by
  have hended := h.ended (P := P) hq (w.siblings.perm _) hw
  have hbuilt : built (Function.update taken 0 (taken 0 ++ [.delete d]))
      (w'.erase P 0 d.ti.objId) = built taken w := hended.built_eq
  have hroots := hended.filterMap_queue (f := EventVariant.rootId) fun _ => rfl
  exact {
    size := hended.size.trans h.size
    unique := hbuilt ▸ h.unique
    takenBuilt := fun o ho => hended.objIds.symm ▸ h.takenBuilt o (hbuilt ▸ ho)
    takenRoot := fun o ho => by
      rw [hbuilt, hended.objIds]
      exact h.takenRoot o (hroots ▸ ho)
    rootsApart := hroots ▸ h.rootsApart
    objects := fun ho => by
      obtain ⟨l, hl⟩ := Option.isSome_iff_exists.mp ho
      rw [Function.update_self, List.filterMap_append]
      exact List.mem_append_left _ (h.objects (Option.isSome_iff_exists.mpr ⟨l, (hended.of_kids hl).2⟩))
    locators := fun {ctx l} hl => by
      rw [hended.contexts] at hl
      exact hbuilt.symm ▸ h.locators hl
    children := fun hl hy => hbuilt.symm ▸ h.children (hended.of_kids hl).2 hy
    behind := h.behind_ended hended
    gone := h.gone_ended hended
    cared := fun hc hslot hx =>
      have ⟨hne, hpresent⟩ := h.present_ended hended hx
      cared_ended hended hne (h.cared (hended.of_constructorCall hc) hslot hpresent) }

/-- A root is started. -/
theorem root (h : Family taken w) {r : RootStart V} (hq : w.queues 0 = .rootStart r :: rest) :
    Family (Function.update taken 0 (taken 0 ++ [.rootStart r]))
      ((w.pop 0 rest).rootReceived 0 r) := by
  have hpop := h.pop hq rfl
  have hmem : r.ti.objId ∈ (w.queues 0).filterMap EventVariant.rootId := by
    rw [hq]
    exact List.mem_cons_self
  obtain ⟨htaken, hfresh⟩ := h.takenRoot _ hmem
  let call : ConstructorCall V :=
    { constructor := { fn := r.constructor, slot := none }
      ci := { threadId := none, objId := none, procId := none }
      ti := { objId := r.ti.objId, procId := none }
      uringData := none }
  have hcall : Family (Function.update taken 0 (taken 0 ++ [.rootStart r]))
      ((w.pop 0 rest).enqueue 0 (.constructorCall call)) := by
    refine hpop.construct (c := call) rfl (by rw [queues_enqueue, if_pos rfl]) (fun _ hid => hid)
      htaken ?_ ?_ (fun {o l} hl => ⟨l, hl, fun y hy => Or.inl hy⟩)
      (fun {o l} hl => ⟨l, hl, List.Subset.refl l⟩) (fun _ _ hl => Or.inl hl) ?_
    · rw [built, received_pop hq]
      exact hfresh
    · have hapart := h.rootsApart
      rw [hq, List.filterMap_cons_some (f := EventVariant.rootId) (b := r.ti.objId) rfl,
        List.nodup_cons] at hapart
      rw [queues_pop, if_pos rfl]
      exact hapart.1
    · intro parent ty idx hslot
      cases hslot
  exact hcall.enqueue rfl rfl fun _ ho => nomatch ho

/-- A root event is initialized. -/
theorem rootEvent (h : Family taken w) (constructor : V.ConstructFunc) (init : V.FunctionFunc) :
    Family taken ({ w with
        objIds := (getId w.objIds none).2
        procIds := (getId w.procIds none).2 }.enqueue 0 (.rootStart
          { constructor, init
            ti := { objId := (getId w.objIds none).1
                    procId := (getId w.procIds none).1 } })) := by
  have hfresh := not_taken_getId w.objIds none
  let r : RootStart V :=
    { constructor, init
      ti := { objId := (getId w.objIds none).1
              procId := (getId w.procIds none).1 } }
  have hids : Family taken ({ w with
      objIds := (getId w.objIds none).2
      procIds := (getId w.procIds none).2 } : World V σ) :=
    h.congr rfl rfl rfl (.of_eq rfl) fun id hid => (taken_getId _ _ id).mpr (Or.inl hid)
  have hbuilt : built taken (({ w with
      objIds := (getId w.objIds none).2
      procIds := (getId w.procIds none).2 } : World V σ).enqueue 0 (.rootStart r)) =
        built taken w ++ _ := built_enqueue
  have hsame := hbuilt.trans (List.append_nil _)
  have hqueue : (({ w with
      objIds := (getId w.objIds none).2
      procIds := (getId w.procIds none).2 } : World V σ).enqueue 0 (.rootStart r)).queues 0 =
        w.queues 0 ++ [.rootStart r] := by rw [queues_enqueue, if_pos rfl]
  have hroots : ((({ w with
      objIds := (getId w.objIds none).2
      procIds := (getId w.procIds none).2 } : World V σ).enqueue 0 (.rootStart r)).queues 0).filterMap
        EventVariant.rootId = (w.queues 0).filterMap EventVariant.rootId ++ [r.ti.objId] := by
    rw [hqueue, List.filterMap_append]
    rfl
  exact {
    size := h.size
    unique := hsame ▸ h.unique
    takenBuilt := hsame ▸ hids.takenBuilt
    -- the identifier of the root object is new
    takenRoot := fun o ho => by
      rw [hroots] at ho
      rw [hsame]
      rcases List.mem_append.mp ho with ho | ho
      · exact hids.takenRoot o ho
      · rw [List.mem_singleton.mp ho]
        exact ⟨(taken_getId _ _ _).mpr (Or.inr rfl), fun hb => hfresh (h.takenBuilt _ hb)⟩
    rootsApart := by
      rw [hroots]
      refine List.nodup_append.mpr ⟨h.rootsApart, List.nodup_singleton _, ?_⟩
      rintro a ha b hb rfl
      rw [List.mem_singleton.mp hb] at ha
      exact hfresh (h.takenRoot _ ha).1
    objects := h.objects
    locators := hsame ▸ h.locators
    children := hsame ▸ h.children
    behind := by
      rw [hqueue, ← List.append_assoc]
      exact preceded_concat.mpr ⟨h.behind, fun _ ho => nomatch ho⟩
    gone := h.gone
    cared := fun {c parent ty idx} hc hslot hx => by
      have hc' : .constructorCall c ∈ taken 0 ++ w.queues 0 := by
        rw [hqueue, ← List.append_assoc] at hc
        exact (List.mem_append.mp hc).resolve_right fun hc => nomatch List.mem_singleton.mp hc
      have hx' : w.Present c.ti.objId := by
        refine hx.imp_right fun hx => ?_
        rw [hqueue, List.filterMap_append] at hx
        exact (List.mem_append.mp hx).resolve_right List.not_mem_nil
      refine (h.cared hc' hslot hx').imp_right fun ⟨d, hd, hid⟩ => ⟨d, ?_, hid⟩
      rw [hqueue]
      exact List.mem_append_left _ hd }

end Family

/-! ## The handling of a message -/

/-- Up to its `process_queued`, a construction knows no new children. -/
theorem holdsLe_filled {shared : Option Nat} {α : Type} {x : Script V α} {a : α} {w₁ w₂ : World V σ}
    {heap : σ} {id : Id} {slot : Option (Id × V.TypeIndex × Nat)}
    (htake : w.takeContext shared = (ctx, w₁))
    (hrun : x.run { uringData := w₁.contexts ctx } = .ok (a, es))
    (hslot : (w₁.afterHandler ctx es heap).fillSlot 0 slot id = .ok w₂) : HoldsLe w w₂ := by
  have hle := holdsLe_takeContext (w := w) shared
  rw [htake] at hle
  exact (hle.trans (holdsLe_afterHandler (run_holds hrun).1)).trans (holdsLe_fillSlot hslot)

/-- What a handler deletes was constructed. -/
theorem Family.deletes (h : Family taken w) {d : IoUringData V}
    (hd : ∀ l, d.Holds l → (w.contexts ctx).Holds l) {qs : List EventQueuedDelete}
    (hqs : ∀ q ∈ qs, ∃ l, d.Holds l ∧ q = { thread := l.threadId, objId := l.objectId }) :
    ∀ q ∈ qs, q.objId ∈ built taken w := by
  intro q hq
  obtain ⟨l, hl, rfl⟩ := hqs q hq
  exact h.locators (hd l hl)

theorem Family.note (h : Family taken w) (n : Note) : Family taken (w.note n) :=
  h.congr rfl rfl rfl (.of_eq rfl) fun _ hid => hid

theorem Family.setProc (h : Family taken w) (id : Id) (d : CallDataThreaded) :
    Family taken (w.setThread 0 ((w.threads 0).setProc id d)) :=
  h.congr rfl rfl (kids_congr (by rw [threads_setThread_self]; rfl)) (.of_eq rfl) fun _ hid => hid

theorem Family.respond (h : Family taken w) {f : FunctionCall V} {resp : CallResponse}
    (hw : w.respond 0 f resp = .ok w') : Family taken w' := by
  obtain ⟨d, -, -, ⟨-, rfl⟩ | ⟨failed, code, -, ⟨-, rfl⟩ | ⟨t', -, hlt, rfl⟩⟩⟩ := respond_cases hw
  · exact h.setProc _ d
  · exact (h.setProc _ d).note _
  · obtain rfl : t' = 0 := Nat.lt_one_iff.mp (h.size ▸ hlt)
    exact ((h.setProc _ d).note _).enqueue_data _

theorem Family.report (h : Family taken w) {y : Yielded} (hw : w.report 0 ti y = .ok w') :
    Family taken w' := by
  obtain ⟨-, rfl⟩ | ⟨failed, code, t', -, -, hlt, rfl⟩ := report_cases hw
  · exact h
  · obtain rfl : t' = 0 := Nat.lt_one_iff.mp (h.size ▸ hlt)
    exact ((h.setProc ti.procId _).note _).enqueue_data _

theorem Family.submit (h : Family taken w) : Family taken (w.submit 0) :=
  h.sameCore (SameCore.refl 0 w).submit

theorem Family.enter (h : Family taken w) {f : FunctionCall V} {obj : ObjectDataThreaded}
    (hobj : (w.threads 0).objInfo f.ti.objId = some obj) : Family taken (w.enter 0 f obj) := by
  refine h.congr rfl rfl (funext fun o => ?_) (.of_eq rfl) fun _ hid => hid
  rw [kids, objInfo_enter_self, kids]
  split
  · rename_i heq
    rw [heq, hobj]
    rfl
  · rfl

theorem handled_family (h : Family taken w) (hok : w.LocatorsOk) (hq : w.queues 0 = m :: rest)
    (hw : Handled P 0 w w') : Family (Function.update taken 0 (taken 0 ++ [m])) w' := by
  -- the objects that were constructed or will be stay so
  have hbuilt : ∀ {w₁ : World V σ}, w₁.queues 0 = (w.pop 0 rest).queues 0 →
      ∀ x ∈ built taken w, x ∈ built (Function.update taken 0 (taken 0 ++ [m])) w₁ := by
    intro w₁ hqueue x hx
    rw [built, hqueue, received_pop hq]
    exact hx
  cases hw with
  | idle hnil => cases hnil.symm.trans hq
  | @constructed c rest' ctx w₁ w₂ w₃ heap es hq' htake hrun hslot hnew hqueued =>
    obtain ⟨rfl, rfl⟩ := List.cons.inj (hq'.symm.trans hq)
    have hsame := filled_same htake hslot
    have hle := holdsLe_filled htake hrun hslot
    have hcontext : ∀ l, (w₁.contexts ctx).Holds l → (w.contexts ctx).Holds l := by
      have htaken := holdsLe_takeContext (w := w.pop 0 rest') c.uringData
      rw [htake] at htaken
      exact htaken ctx
    -- the object is entered, and then what its constructor queued is processed
    have hinserted := h.insert hq (hsame.threads ▸ hnew) ctx
    have hobjects : ((w₂.setThread 0 ((w₂.threads 0).setObject c.ti.objId
        { ptr := some ctx })).threads 0).objInfo = (((w.pop 0 rest').setThread 0
          ((w.threads 0).setObject c.ti.objId { ptr := some ctx })).threads 0).objInfo := by
      rw [threads_setThread_self, threads_setThread_self, hsame.threads]
      rfl
    have hfamily : Family _ (w₂.setThread 0 ((w₂.threads 0).setObject c.ti.objId
      { ptr := some ctx })) := hinserted.congr hsame.size (congrFun hsame.queues 0) (kids_congr hobjects) hle
      fun id hid => hsame.objIds.symm ▸ hid
    have hdeletes := h.deletes hcontext (run_holds hrun).2
    have hprocess : FamilyRun (Function.update taken 0 (taken 0 ++ [.constructorCall c])) c.ti es
        (w₂.setThread 0 ((w₂.threads 0).setObject c.ti.objId { ptr := some ctx })) :=
      ⟨hfamily, exists_setObject _ _ _, fun q hq' =>
        hbuilt (congrFun hsame.queues 0) _ (hdeletes q hq')⟩
    exact (hprocess.processQueued hqueued (thread_of_holds hok hcontext (run_holds hrun).2)).submit
  | @reconstructed c rest' ctx w₁ w₂ heap es old hq' htake hrun hslot hold =>
    obtain ⟨rfl, rfl⟩ := List.cons.inj (hq'.symm.trans hq)
    have hsame := filled_same htake hslot
    exact ((h.pop hq rfl).congr hsame.size (by rw [hsame.queues])
      (kids_congr (by rw [hsame.threads])) (holdsLe_filled htake hrun hslot)
      fun id hid => hsame.objIds.symm ▸ hid).submit
  | @called f rest' obj ctx resp heap es w₂ w₃ hq' ho hptr hrun hqueued hrespond =>
    obtain ⟨rfl, rfl⟩ := List.cons.inj (hq'.symm.trans hq)
    have henter := (h.pop hq rfl).enter (f := f) ho
    have hexists : ((w.pop 0 rest').enter 0 f obj).Exists f.ti.objId :=
      ⟨_, (objInfo_enter_self f obj f.ti.objId).trans (if_pos rfl)⟩
    have hfamily : Family _ (((w.pop 0 rest').enter 0 f obj).afterHandler ctx es heap) :=
      henter.congr rfl rfl rfl (holdsLe_afterHandler (run_holds hrun).1) fun _ hid => hid
    have hdeletes := h.deletes (fun _ hl => hl) (run_holds hrun).2
    have hprocess : FamilyRun (Function.update taken 0 (taken 0 ++ [.functionCall f])) f.ti es
        (((w.pop 0 rest').enter 0 f obj).afterHandler ctx es heap) :=
      ⟨hfamily, hexists, fun q hq' => hbuilt rfl _ (hdeletes q hq')⟩
    exact ((hprocess.processQueued hqueued
      (thread_of_holds hok (fun _ hl => hl) (run_holds hrun).2)).respond hrespond).submit
  | @delivered d rest' obj c ctx y heap es w₂ w₃ hq' ho hd hptr hrun hqueued hreport =>
    obtain ⟨rfl, rfl⟩ := List.cons.inj (hq'.symm.trans hq)
    have hfamily : Family _ (((w.pop 0 rest').note (.delivered 0 d
        ((w.contexts ctx).mapEventData d.data).1)).afterHandler ctx es heap) :=
      (h.pop hq rfl).congr rfl rfl rfl
      (holdsLe_afterHandler fun l hl => ((run_holds hrun).1 l hl).of_mapEventData) fun _ hid => hid
    have hdeletes := h.deletes (fun _ hl => hl.of_mapEventData) (run_holds hrun).2
    have hprocess : FamilyRun (Function.update taken 0 (taken 0 ++ [.data d])) d.ti es
        (((w.pop 0 rest').note (.delivered 0 d
          ((w.contexts ctx).mapEventData d.data).1)).afterHandler ctx es heap) :=
      ⟨hfamily, ⟨obj, ho⟩, fun q hq' => hbuilt rfl _ (hdeletes q hq')⟩
    have hreported := (hprocess.processQueued hqueued
      (thread_of_holds hok (fun _ hl => hl.of_mapEventData) (run_holds hrun).2)).report hreport
    exact (forward_invariant (I := Family _) hreported fun _ _ _ h => h.enqueue_data _).submit
  | dropped hq' hmissing =>
    obtain ⟨rfl, rfl⟩ := List.cons.inj (hq'.symm.trans hq)
    exact (h.pop hq rfl).submit
  | deleted hq' hdeleted =>
    obtain ⟨rfl, rfl⟩ := List.cons.inj (hq'.symm.trans hq)
    exact (h.erase hq hdeleted).submit
  | root hq' =>
    obtain ⟨rfl, rfl⟩ := List.cons.inj (hq'.symm.trans hq)
    exact (h.root hq).submit

theorem Family.other {a : Action V} (h : Family taken w) (ha : ∀ t, a ≠ .dequeue t)
    (hstep : w.step P a = .ok w') : Family taken w' := by
  obtain ⟨t, hlt, huring⟩ | ⟨t, hsame, -⟩ | ⟨constructor, init, hroot⟩ := step_other hstep ha
  · obtain rfl : t = 0 := Nat.lt_one_iff.mp (h.size ▸ hlt)
    exact processUring_core huring h (fun _ _ hsame h => h.sameCore hsame)
      fun _ _ _ _ _ h => h.enqueue_data _
  · by_cases ht : t = 0
    · subst ht
      exact h.sameCore hsame
    · exact h.congr hsame.size (congrFun hsame.queues 0)
        (kids_congr (by rw [hsame.threads 0 (Ne.symm ht)])) hsame.holdsLe
        fun id hid => hsame.objIds.symm ▸ hid
  · obtain ⟨-, rfl⟩ := initializeRootEvent_eq hroot
    exact h.rootEvent constructor init

end World

end LocalSoftware
