import LocalSoftware.Common.Operations
import LocalSoftware.Common.ThreadSteps

/-!
# The children that the contexts know

A context knows a child by its locator, which `process_queued_construct` writes. `HoldsLe` is what
all other updates do to the contexts: no locator is new. With it, `locatorsOk` shows that every
locator of a run names an object that was given its identifier, and one thread.
-/

set_option autoImplicit false

namespace LocalSoftware

variable {V : Vocabulary} {σ : Type}

namespace IoUringData

variable {d : IoUringData V} {l : Locator}

theorem Holds.of_mapEventData {event : EventType} (h : (d.mapEventData event).2.Holds l) :
    d.Holds l := by
  cases event <;> exact h.congr rfl

theorem Holds.of_setLocator {ty : V.TypeIndex} {idx : Nat} {locator : Locator}
    (h : (d.setLocator ty idx locator).Holds l) : d.Holds l ∨ l = locator := by
  by_cases hl : l = locator
  · exact Or.inr hl
  · refine Or.inl (holds_of_setSlots (fun idx' info hslot hlocator => ?_) h)
    rw [List.getElem?_modify] at hslot
    by_cases hi : idx = idx'
    · -- the slot that is written
      simp only [if_pos hi] at hslot
      obtain ⟨o, ho, hmap⟩ := Option.map_eq_some_iff.mp hslot
      obtain ⟨info₀, -, rfl⟩ := Option.map_eq_some_iff.mp hmap
      exact absurd (Option.some.inj hlocator).symm hl
    · simp only [if_neg hi, Option.map_eq_map, Option.map_id'] at hslot
      exact ⟨ty, idx', info, hslot, hlocator⟩

end IoUringData

/-! ## The objects in the slots -/

namespace IoUringData

/-- The object in a slot. -/
def slot (d : IoUringData V) (ty : V.TypeIndex) (idx : Nat) : Option EventInfo :=
  ((d.slots ty)[idx]?).join

variable {d : IoUringData V} {ty ty' : V.TypeIndex} {idx : Nat}

theorem slot_eq_some_iff {info : EventInfo} :
    d.slot ty idx = some info ↔ (d.slots ty)[idx]? = some (some info) := by
  unfold slot
  cases (d.slots ty)[idx]? with
  | none => simp
  | some o => cases o <;> simp

theorem slot_congr {d' : IoUringData V} (h : d'.subEvents = d.subEvents) :
    d'.slot ty idx = d.slot ty idx := by
  rw [slot, slot, IoUringData.slots, IoUringData.slots, h]

theorem slot_setSlots (slots : List (Option EventInfo)) :
    (d.setSlots ty slots).slot ty' idx =
      if ty' = ty then (slots[idx]?).join else d.slot ty' idx := by
  unfold slot
  rw [slots_setSlots]
  split <;> rfl

theorem slot_freeSlot : d.slot ty (freeSlot (d.slots ty)) = none := by
  by_contra h
  obtain ⟨info, hinfo⟩ := Option.ne_none_iff_exists'.mp h
  exact not_isSome_freeSlot _ info (slot_eq_some_iff.mp hinfo)

/-- A new object in the free slot. -/
theorem slot_place (info : EventInfo) :
    (d.setSlots ty (place (d.slots ty) (freeSlot (d.slots ty)) info)).slot ty' idx =
      if ty' = ty ∧ idx = freeSlot (d.slots ty) then some info else d.slot ty' idx := by
  rw [slot_setSlots]
  by_cases hty : ty' = ty
  · subst hty
    rw [if_pos rfl, getElem?_place (freeSlot_le _)]
    by_cases hidx : idx = freeSlot (d.slots ty')
    · rw [if_pos hidx, if_pos ⟨rfl, hidx⟩]
      rfl
    · rw [if_neg hidx, if_neg fun h => hidx h.2]
      rfl
  · rw [if_neg hty, if_neg fun h => hty h.1]

/-- The object of a slot is removed. -/
theorem slot_remove {idx' : Nat} : (d.setSlots ty ((d.slots ty).set idx none)).slot ty' idx' =
    if ty' = ty ∧ idx' = idx then none else d.slot ty' idx' := by
  rw [slot_setSlots]
  by_cases hty : ty' = ty
  · subst hty
    rw [if_pos rfl, List.getElem?_set]
    by_cases hidx : idx = idx'
    · subst hidx
      rw [if_pos rfl, if_pos (c := ty' = ty' ∧ idx = idx) ⟨rfl, rfl⟩]
      split <;> rfl
    · rw [if_neg hidx, if_neg fun h => hidx h.2.symm]
      rfl
  · rw [if_neg hty, if_neg fun h => hty h.1]

/-- The locator of an object is filled in. -/
theorem slot_setLocator (locator : Locator) {idx' : Nat} :
    (d.setLocator ty idx locator).slot ty' idx' =
      if ty' = ty ∧ idx' = idx then
        (d.slot ty idx).map fun info => { info with locator := some locator }
      else d.slot ty' idx' := by
  unfold setLocator
  rw [slot_setSlots]
  by_cases hty : ty' = ty
  · subst hty
    rw [if_pos rfl, List.getElem?_modify]
    by_cases hidx : idx = idx'
    · subst hidx
      rw [if_pos ⟨rfl, rfl⟩]
      unfold slot
      cases (d.slots ty')[idx]? with
      | none => rfl
      | some o => cases o <;> simp
    · rw [if_neg fun h => hidx h.2.symm]
      simp only [if_neg hidx, Option.map_eq_map, Option.map_id']
      rfl
  · rw [if_neg hty, if_neg fun h => hty h.1]

end IoUringData

namespace World

variable {w w' w'' : World V σ} {t ctx : Nat} {ti : TargetInfo} {es : EventState V}
  {P : Program V σ} {l : Locator}

/-- No context knows more. -/
def HoldsLe (w w' : World V σ) : Prop := ∀ ctx l, (w'.contexts ctx).Holds l → (w.contexts ctx).Holds l

theorem HoldsLe.of_eq (h : w'.contexts = w.contexts) : HoldsLe w w' := by
  intro ctx l hl
  rwa [h] at hl

theorem HoldsLe.trans (h : HoldsLe w w') (h' : HoldsLe w' w'') : HoldsLe w w'' :=
  fun ctx l hl => h ctx l (h' ctx l hl)

theorem contexts_setContext (d : IoUringData V) (ctx' : Nat) :
    (w.setContext ctx d).contexts ctx' = if ctx' = ctx then d else w.contexts ctx' := by
  unfold setContext
  by_cases h : ctx' = ctx
  · subst h
    rw [if_pos rfl]
    exact Function.update_self ..
  · rw [if_neg h]
    exact Function.update_of_ne h ..

/-- An assignment to a context that adds no locator. -/
theorem holdsLe_setContext {d : IoUringData V} (h : ∀ l, d.Holds l → (w.contexts ctx).Holds l) :
    HoldsLe w (w.setContext ctx d) := by
  intro ctx' l hl
  rw [contexts_setContext] at hl
  split at hl
  · rename_i heq
    exact heq ▸ h l hl
  · exact hl

theorem holdsLe_afterHandler {heap : σ} (h : ∀ l, es.uringData.Holds l → (w.contexts ctx).Holds l) :
    HoldsLe w (w.afterHandler ctx es heap) := fun ctx' l hl =>
  holdsLe_setContext (w := w) h ctx' l hl

theorem holdsLe_takeContext (shared : Option Nat) : HoldsLe w (w.takeContext shared).2 := by
  cases shared with
  | some ctx => exact .of_eq rfl
  | none =>
    refine holdsLe_setContext (w := w) (d := {}) fun l hl => ?_
    obtain ⟨ty, idx, info, hslot, -⟩ := hl
    cases hslot

theorem holdsLe_fillSlot {slot : Option (Id × V.TypeIndex × Nat)} {id : Id}
    (h : w.fillSlot t slot id = .ok w') : HoldsLe w w' := by
  obtain ⟨-, rfl⟩ | ⟨parent, ty, idx, ctx, info, -, -, hslot, rfl⟩ := fillSlot_cases h
  · exact .of_eq rfl
  · refine holdsLe_setContext fun l hl => IoUringData.holds_of_setSlots
      (fun idx' info' hslot' hlocator => ?_) hl
    rw [List.getElem?_set] at hslot'
    split at hslot'
    · rename_i hidx
      subst hidx
      split at hslot'
      · obtain rfl := Option.some.inj (Option.some.inj hslot')
        exact ⟨ty, idx, info, hslot, hlocator⟩
      · cases hslot'
    · exact ⟨ty, idx', info', hslot', hlocator⟩

theorem contexts_forward (d : Data) (attachers : List (Id × Id)) :
    (w.forward t d attachers).contexts = w.contexts :=
  forward_invariant (I := fun w' => w'.contexts = w.contexts) rfl fun _ _ _ hw => hw

theorem contexts_deleteChildren {ci : CallerInfo} {children : List (Id × ChildObjectInfo)}
    (h : w.deleteChildren ci children = .ok w') : w'.contexts = w.contexts :=
  deleteChildren_invariant (I := fun w' => w'.contexts = w.contexts) h rfl fun _ _ _ hw _ => hw

theorem contexts_attachment (res : Int) (a : IoUringAttached) :
    (w.attachment t res a).contexts = w.contexts ∧ (w.attachment t res a).objIds = w.objIds := by
  obtain ⟨queues, timers, heq⟩ := attachment_eq w t res a
  rw [heq]
  exact ⟨rfl, rfl⟩

theorem contexts_respond {f : FunctionCall V} {resp : CallResponse}
    (h : w.respond t f resp = .ok w') : w'.contexts = w.contexts ∧ w'.objIds = w.objIds := by
  obtain ⟨d, -, -, ⟨-, rfl⟩ | ⟨failed, code, -, ⟨-, rfl⟩ | ⟨t', -, -, rfl⟩⟩⟩ := respond_cases h <;>
    exact ⟨rfl, rfl⟩

theorem contexts_report {y : Yielded} (h : w.report t ti y = .ok w') :
    w'.contexts = w.contexts ∧ w'.objIds = w.objIds := by
  obtain ⟨-, rfl⟩ | ⟨failed, code, t', -, -, -, rfl⟩ := report_cases h <;> exact ⟨rfl, rfl⟩

/-- A new child has the only locator that is new. -/
theorem holds_addChild {q : EventQueuedConstruct V} {runThread ctx' : Nat}
    (hl : ((w.addChild t ctx ti q runThread).contexts ctx').Holds l) : (w.contexts ctx').Holds l ∨
      l = { objectId := (getId w.objIds (some t)).1, threadId := [runThread] } := by
  have hl' : ((w.setContext ctx ((w.contexts ctx).setLocator q.idx q.vidx
      { objectId := (getId w.objIds (some t)).1, threadId := [runThread] })).contexts
        ctx').Holds l := hl
  rw [contexts_setContext] at hl'
  split at hl'
  · rename_i hctx
    exact hl'.of_setLocator.imp_left fun h => hctx ▸ h
  · exact Or.inl hl'

theorem holdsLe_addCall {q : EventQueuedFunction V} {objectId : Id} {target : Nat} :
    HoldsLe w (w.addCall t ctx ti q objectId target) := by
  have hle : HoldsLe w (w.setContext ctx
      ((w.contexts ctx).globalToLocal (getId w.procIds (some t)).1 q.localId)) :=
    holdsLe_setContext fun l hl => hl.congr rfl
  exact hle

theorem holdsLe_addTimer {q : EventQueuedTimer} : HoldsLe w (w.addTimer t ctx ti q) := by
  have hle : HoldsLe w (w.setContext ctx
      ((w.contexts ctx).globalToLocalTim (getId w.timIds (some t)).1 q.localId)) :=
    holdsLe_setContext fun l hl => hl.congr rfl
  exact hle

/-- No other update adds a locator. -/
theorem Queued.child_or_holdsLe (h : Queued t ctx ti es w w') :
    (∃ q runThread, w' = w.addChild t ctx ti q runThread) ∨
      (HoldsLe w w' ∧ w'.objIds = w.objIds) := by
  cases h with
  | decision => exact Or.inr ⟨.of_eq rfl, rfl⟩
  | child q runThread _ => exact Or.inl ⟨q, runThread, rfl⟩
  | call q info locator target _ _ _ _ _ => exact Or.inr ⟨holdsLe_addCall, rfl⟩
  | uring q _ _ => exact Or.inr ⟨.of_eq rfl, rfl⟩
  | removeTimer q data _ _ _ => exact Or.inr ⟨.of_eq rfl, rfl⟩
  | updateTimer q data _ _ _ _ => exact Or.inr ⟨.of_eq rfl, rfl⟩
  | addTimer q _ _ _ => exact Or.inr ⟨holdsLe_addTimer, rfl⟩
  | delete q thread _ _ _ => exact Or.inr ⟨.of_eq rfl, rfl⟩
  | dropChild q _ => exact Or.inr ⟨.of_eq rfl, rfl⟩
  | attach q _ => exact Or.inr ⟨.of_eq rfl, rfl⟩

/-! ## Locators name objects -/

/-- The objects that the contexts know were given their identifiers, and have one thread each, the
same in every slot. -/
structure LocatorsOk (w : World V σ) : Prop where
  taken : ∀ {ctx l}, (w.contexts ctx).Holds l → Taken w.objIds l.objectId
  thread : ∀ {ctx l}, (w.contexts ctx).Holds l → ∃ r, l.threadId = [r]
  unique : ∀ {ctx ctx' l l'}, (w.contexts ctx).Holds l → (w.contexts ctx').Holds l' →
    l.objectId = l'.objectId → l = l'

theorem LocatorsOk.mono (h : w.LocatorsOk) (hle : HoldsLe w w')
    (hids : ∀ id, Taken w.objIds id → Taken w'.objIds id) : w'.LocatorsOk where
  taken hl := hids _ (h.taken (hle _ _ hl))
  thread hl := h.thread (hle _ _ hl)
  unique hl hl' := h.unique (hle _ _ hl) (hle _ _ hl')

theorem LocatorsOk.of_eq (h : w.LocatorsOk) (hctx : w'.contexts = w.contexts)
    (hids : w'.objIds = w.objIds) : w'.LocatorsOk :=
  h.mono (.of_eq hctx) fun _ hid => hids.symm ▸ hid

/-- A new child has a locator of its own. -/
theorem addChild_locatorsOk (h : w.LocatorsOk) (q : EventQueuedConstruct V) (runThread : Nat) :
    (w.addChild t ctx ti q runThread).LocatorsOk where
  taken hl := by
    refine (taken_getId _ _ _).mpr ?_
    rcases holds_addChild hl with hl | rfl
    · exact Or.inl (h.taken hl)
    · exact Or.inr rfl
  thread hl := by
    rcases holds_addChild hl with hl | rfl
    · exact h.thread hl
    · exact ⟨runThread, rfl⟩
  unique hl hl' heq := by
    have hfresh := not_taken_getId w.objIds (some t)
    rcases holds_addChild hl with hl | rfl <;> rcases holds_addChild hl' with hl' | rfl
    · exact h.unique hl hl' heq
    · have htaken := h.taken hl
      rw [heq] at htaken
      exact absurd htaken hfresh
    · have htaken := h.taken hl'
      rw [← heq] at htaken
      exact absurd htaken hfresh
    · rfl

theorem queued_locatorsOk (h : w.LocatorsOk) (hq : Queued t ctx ti es w w') : w'.LocatorsOk := by
  rcases hq.child_or_holdsLe with ⟨q, runThread, rfl⟩ | ⟨hle, hids⟩
  · exact addChild_locatorsOk h q runThread
  · exact h.mono hle fun id hid => hids.symm ▸ hid

theorem processQueued_locatorsOk (hq : w.processQueued t ctx ti es = .ok w') (h : w.LocatorsOk) :
    w'.LocatorsOk :=
  transGen_invariant (processQueued_queued hq) h fun _ _ => queued_locatorsOk

theorem takeContext_locatorsOk {shared : Option Nat} (h : w.LocatorsOk)
    (htake : w.takeContext shared = (ctx, w')) : w'.LocatorsOk := by
  have hle := holdsLe_takeContext (w := w) shared
  have hids : (w.takeContext shared).2.objIds = w.objIds := by
    cases shared <;> rfl
  rw [htake] at hle hids
  exact h.mono hle fun id hid => hids.symm ▸ hid

theorem objIds_fillSlot {slot : Option (Id × V.TypeIndex × Nat)} {id : Id}
    (h : w.fillSlot t slot id = .ok w') : w'.objIds = w.objIds := by
  obtain ⟨-, rfl⟩ | ⟨parent, ty, idx, ctx', info, -, -, -, rfl⟩ := fillSlot_cases h <;> rfl

theorem fillSlot_locatorsOk {α : Type} {x : Script V α} {a : α} {heap : σ} {id : Id}
    {slot : Option (Id × V.TypeIndex × Nat)} (h : w.LocatorsOk)
    (hrun : x.run { uringData := w.contexts ctx } = .ok (a, es))
    (hslot : (w.afterHandler ctx es heap).fillSlot t slot id = .ok w') : w'.LocatorsOk :=
  (h.mono (holdsLe_afterHandler (run_holds hrun).1) fun _ hid => hid).mono (holdsLe_fillSlot hslot)
    fun _ hid => (objIds_fillSlot hslot).symm ▸ hid

theorem handled_locatorsOk (h : w.LocatorsOk) (hw : Handled P t w w') : w'.LocatorsOk := by
  have hsubmit : ∀ {w : World V σ}, w.LocatorsOk → (w.submit t).LocatorsOk :=
    fun h => h.of_eq rfl rfl
  have hpop : ∀ {rest : List (EventVariant V)}, (w.pop t rest).LocatorsOk := h.of_eq rfl rfl
  cases hw with
  | idle _ => exact h
  | constructed hq htake hrun hslot hnew hqueued =>
    have h₂ := fillSlot_locatorsOk (takeContext_locatorsOk hpop htake) hrun hslot
    exact hsubmit (processQueued_locatorsOk hqueued (h₂.of_eq rfl rfl))
  | reconstructed hq htake hrun hslot hold =>
    exact hsubmit (fillSlot_locatorsOk (takeContext_locatorsOk hpop htake) hrun hslot)
  | called hq ho hptr hrun hqueued hrespond =>
    have h₂ := processQueued_locatorsOk hqueued (LocatorsOk.mono (LocatorsOk.of_eq h rfl rfl)
      (holdsLe_afterHandler (run_holds hrun).1) fun _ hid => hid)
    exact hsubmit (h₂.of_eq (contexts_respond hrespond).1 (contexts_respond hrespond).2)
  | delivered hq ho hd hptr hrun hqueued hreport =>
    have h₂ := processQueued_locatorsOk hqueued (LocatorsOk.mono (LocatorsOk.of_eq h rfl rfl)
      (holdsLe_afterHandler fun l hl => ((run_holds hrun).1 l hl).of_mapEventData)
      fun _ hid => hid)
    have h₃ := h₂.of_eq (contexts_report hreport).1 (contexts_report hreport).2
    refine hsubmit (h₃.of_eq (contexts_forward _ _) ?_)
    exact forward_invariant (I := fun w' => w'.objIds = _) rfl fun _ _ _ hw => hw
  | dropped hq hmissing => exact hsubmit (LocatorsOk.of_eq h rfl rfl)
  | deleted hq hchildren =>
    have hids := deleteChildren_invariant (I := fun w' => w'.objIds = w.objIds) hchildren rfl
      fun _ _ _ hw _ => hw
    have hctx := contexts_deleteChildren hchildren
    have h₁ := LocatorsOk.of_eq h hctx hids
    exact hsubmit (h₁.of_eq rfl rfl)
  | root hq => exact hsubmit (LocatorsOk.of_eq h rfl rfl)

theorem step_locatorsOk {a : Action V} (h : w.LocatorsOk) (hstep : w.step P a = .ok w') :
    w'.LocatorsOk := by
  cases a with
  | dequeue t =>
    rcases step_dequeue hstep with rfl | ⟨-, hw⟩
    · exact h
    · exact handled_locatorsOk h hw
  | uring t =>
    simp only [step] at hstep
    split at hstep
    · refine processUring_invariant hstep h (fun w address res a hw _ => ?_) fun w hw => ?_
      · obtain ⟨hcontexts, hids⟩ := contexts_attachment (w := w) (t := t) res a
        exact hw.of_eq hcontexts hids
      · exact hw.of_eq rfl rfl
    · exact Except.ok.inj hstep ▸ h
  | complete t k res =>
    obtain rfl := Except.ok.inj hstep
    simp only [complete]
    split
    · exact h
    · exact h.of_eq rfl rfl
  | root constructor init =>
    obtain ⟨-, rfl⟩ := initializeRootEvent_eq hstep
    exact h.mono (.of_eq rfl) fun id hid => (taken_getId _ _ id).mpr (Or.inl hid)
  | load _ | iterate _ =>
    obtain rfl := Except.ok.inj hstep
    exact h.of_eq rfl rfl

/-- In every state of a run, the locators name objects. -/
theorem locatorsOk (P : Program V σ) (size : Nat) (malloc : Nat → Nat) (heap : σ)
    (h : Reached (World.step P) (fun _ _ => True) { size, malloc, heap } w) : w.LocatorsOk := by
  have hstart : ∀ {ctx : Nat} {l : Locator},
      ¬ ((({ size, malloc, heap } : World V σ).contexts ctx).Holds l) := by
    rintro ctx l ⟨ty, idx, info, hslot, -⟩
    cases hslot
  exact h.invariant ⟨fun hl => absurd hl hstart, fun hl => absurd hl hstart,
    fun hl => absurd hl hstart⟩ fun _ _ _ hw _ hstep => step_locatorsOk hw hstep

end World

end LocalSoftware
