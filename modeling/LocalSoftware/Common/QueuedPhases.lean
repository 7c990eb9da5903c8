import LocalSoftware.Common.Locators

/-!
# The constructions and the calls of a handler

`process_queued` sends the constructions of a handler first, then its calls. `ConstructsSent` and
`CallsSent` say what these two loops do, message by message; `rest_queues` says that what follows
them sends deletions only.
-/

set_option autoImplicit false

namespace LocalSoftware

variable {V : Vocabulary} {σ : Type}

namespace World

variable {w w' : World V σ} {t ctx : Nat} {ti : TargetInfo} {es : EventState V}

/-! ## The constructions -/

/-- `m` is the message for the construction `q`, and its object is in the slot in `w'`. -/
structure Constructs (t ctx : Nat) (ti : TargetInfo) (w w' : World V σ)
    (q : EventQueuedConstruct V) (c : ConstructorCall V) : Prop where
  constructor : c.constructor = { fn := q.fn, slot := some (ti.objId, q.idx, q.vidx) }
  fresh : ¬ Taken w.objIds c.ti.objId
  slot : ∃ info r, (w'.contexts ctx).slot q.idx q.vidx = some info ∧
    info.locator = some { objectId := c.ti.objId, threadId := [r] }

/-- The constructions `qs` are sent in the messages `cs`; other slots stay as they are. -/
structure ConstructsSent (t ctx : Nat) (ti : TargetInfo) (w w' : World V σ)
    (qs : List (EventQueuedConstruct V)) (cs : List (ConstructorCall V)) : Prop where
  constructs : ∀ q ∈ qs, ∃ c ∈ cs, Constructs t ctx ti w w' q c
  queue : w'.queues t = w.queues t ++ cs.map .constructorCall
  queues : ∀ t', t' ≠ t → w'.queues t' = w.queues t'
  slots : ∀ ty idx, (∀ q ∈ qs, ¬ (ty = q.idx ∧ idx = q.vidx)) →
    (w'.contexts ctx).slot ty idx = (w.contexts ctx).slot ty idx
  log : w'.log = w.log
  procIds : w'.procIds = w.procIds

/-- The slots of two constructions differ. -/
def ApartSlots (q q' : EventQueuedConstruct V) : Prop := ¬ (q.idx = q'.idx ∧ q.vidx = q'.vidx)

theorem queuedConstruct_cases {q : EventQueuedConstruct V}
    (h : w.queuedConstruct t ctx ti q = .ok w') :
    w' = w ∨ ∃ runThread, w' = w.decided.addChild t ctx ti q runThread := by
  unfold queuedConstruct at h
  split at h
  · cases h
  · exact Or.inl (Except.ok.inj h).symm
  · split at h
    · cases h
    · exact Or.inr ⟨_, (Except.ok.inj h).symm⟩

/-- A construction whose slot holds an object is sent. -/
theorem queuedConstruct_eq_ok {q : EventQueuedConstruct V}
    (hslot : ((w.contexts ctx).slot q.idx q.vidx).isSome)
    (h : w.queuedConstruct t ctx ti q = .ok w') :
    ∃ runThread, w' = w.decided.addChild t ctx ti q runThread := by
  obtain ⟨info, hinfo⟩ := Option.isSome_iff_exists.mp hslot
  unfold queuedConstruct at h
  rw [IoUringData.slot_eq_some_iff.mp hinfo] at h
  simp only at h
  split at h
  · cases h
  · exact ⟨_, (Except.ok.inj h).symm⟩

theorem slot_addChild {q : EventQueuedConstruct V} {runThread : Nat} (ty : V.TypeIndex) (idx : Nat) :
    ((w.decided.addChild t ctx ti q runThread).contexts ctx).slot ty idx =
      if ty = q.idx ∧ idx = q.vidx then
        ((w.contexts ctx).slot q.idx q.vidx).map fun info => { info with
          locator := some { objectId := (getId w.objIds (some t)).1, threadId := [runThread] } }
      else (w.contexts ctx).slot ty idx := by
  have hcontext : (w.decided.addChild t ctx ti q runThread).contexts ctx =
      (w.contexts ctx).setLocator q.idx q.vidx
        { objectId := (getId w.objIds (some t)).1, threadId := [runThread] } :=
    Function.update_self ..
  rw [hcontext, IoUringData.slot_setLocator]

/-- The constructions of a handler, each in a slot of its own. -/
theorem each_queuedConstruct {qs : List (EventQueuedConstruct V)} (hapart : qs.Pairwise ApartSlots)
    (hslots : ∀ q ∈ qs, ((w.contexts ctx).slot q.idx q.vidx).isSome)
    (h : each (queuedConstruct t ctx ti) qs w = .ok w') :
    ∃ cs, ConstructsSent t ctx ti w w' qs cs := by
  induction qs generalizing w with
  | nil =>
    obtain rfl := Except.ok.inj h
    exact ⟨[], {
      constructs := fun q hq => absurd hq List.not_mem_nil
      queue := (List.append_nil _).symm
      queues := fun _ _ => rfl
      slots := fun _ _ _ => rfl
      log := rfl
      procIds := rfl }⟩
  | cons q qs ih =>
    simp only [each] at h
    split at h
    · cases h
    · rename_i w₁ hstep
      obtain ⟨runThread, rfl⟩ := queuedConstruct_eq_ok (hslots q List.mem_cons_self) hstep
      obtain ⟨hq, hqs⟩ := List.pairwise_cons.mp hapart
      -- the slots of the other constructions are not touched
      have hother : ∀ q' ∈ qs, ((w.decided.addChild t ctx ti q runThread).contexts ctx).slot
          q'.idx q'.vidx = (w.contexts ctx).slot q'.idx q'.vidx := by
        intro q' hq'
        rw [slot_addChild, if_neg fun heq => hq q' hq' ⟨heq.1.symm, heq.2.symm⟩]
      obtain ⟨cs, hsent⟩ := ih hqs (fun q' hq' => by
        rw [hother q' hq']
        exact hslots q' (List.mem_cons_of_mem _ hq')) h
      let c : ConstructorCall V :=
        { constructor := { fn := q.fn, slot := some (ti.objId, q.idx, q.vidx) }
          ci := { threadId := some runThread, objId := ti.objId, procId := ti.procId }
          ti := { objId := (getId w.objIds (some t)).1, procId := none }
          uringData := if q.shared then some ctx else none }
      have hqueues : ∀ t', (w.decided.addChild t ctx ti q runThread).queues t' =
          if t' = t then w.queues t' ++ [.constructorCall c] else w.queues t' :=
        fun t' => queues_enqueue _ t t' _
      have hids : ∀ id, Taken w.objIds id →
          Taken (w.decided.addChild t ctx ti q runThread).objIds id :=
        fun id hid => (taken_getId _ _ id).mpr (Or.inl hid)
      refine ⟨c :: cs, ?_⟩
      exact {
        constructs := fun q' hq' => by
          rcases List.mem_cons.mp hq' with rfl | hq'
          · obtain ⟨info, hinfo⟩ := Option.isSome_iff_exists.mp (hslots q' List.mem_cons_self)
            refine ⟨c, List.mem_cons_self, rfl, not_taken_getId _ _, ?_⟩
            refine ⟨{ info with locator := some ⟨(getId w.objIds (some t)).1, [runThread]⟩ },
              runThread, ?_, rfl⟩
            rw [hsent.slots _ _ fun q'' hq'' => hq q'' hq'', slot_addChild, if_pos ⟨rfl, rfl⟩, hinfo]
            rfl
          · obtain ⟨c', hc', hconstructs⟩ := hsent.constructs q' hq'
            exact ⟨c', List.mem_cons_of_mem _ hc', hconstructs.constructor,
              fun hid => hconstructs.fresh (hids _ hid), hconstructs.slot⟩
        queue := by
          rw [hsent.queue, hqueues, if_pos rfl, List.append_assoc]
          rfl
        queues := fun t' ht' => by rw [hsent.queues t' ht', hqueues, if_neg ht']
        slots := fun ty idx hne => by
          rw [hsent.slots ty idx fun q' hq' => hne q' (List.mem_cons_of_mem _ hq'), slot_addChild,
            if_neg (hne q List.mem_cons_self)]
        log := hsent.log
        procIds := hsent.procIds }

/-! ## The calls -/

/-- A call that was sent: its entry, its message, and the thread that it was sent to. -/
structure SentCall (V : Vocabulary) where
  entry : EventQueuedFunction V
  message : FunctionCall V
  thread : Nat

/-- What is noted of a call. -/
def SentCall.note (t : Nat) (ti : TargetInfo) (s : SentCall V) : Note :=
  .called t ti.objId ti.procId s.message.ti.procId s.entry.localId

/-- The calls `qs` whose slot holds an object are sent to it, in order and under new procedure
identifiers. -/
structure CallsSent (t ctx : Nat) (ti : TargetInfo) (w w' : World V σ)
    (qs : List (EventQueuedFunction V)) (sent : List (SentCall V)) : Prop where
  entries : sent.map (·.entry) = qs.filter fun q => ((w.contexts ctx).slot q.idx q.vidx).isSome
  target : ∀ s ∈ sent, s.message.call = s.entry.fn ∧ ∃ info l,
    (w.contexts ctx).slot s.entry.idx s.entry.vidx = some info ∧ info.locator = some l ∧
      s.message.ti.objId = l.objectId ∧ l.threadId = [s.thread]
  queues : ∀ t', w'.queues t' = w.queues t' ++
    (sent.filter fun s => s.thread = t').map fun s => .functionCall s.message
  log : w'.log = w.log ++ sent.map (SentCall.note t ti)
  fresh : ∀ s ∈ sent, ¬ Taken w.procIds s.message.ti.procId
  nodup : (sent.map fun s => s.message.ti.procId).Nodup

theorem queuedFunction_eq_ok {q : EventQueuedFunction V}
    (h : w.queuedFunction t ctx ti q = .ok w') :
    ((w.contexts ctx).slot q.idx q.vidx = none ∧ w' = w) ∨ ∃ info l target,
      (w.contexts ctx).slot q.idx q.vidx = some info ∧ info.locator = some l ∧
        w.findTargetThread t l.threadId = .ok target ∧ target < w.size ∧
        w' = w.decided.addCall t ctx ti q l.objectId target := by
  unfold queuedFunction at h
  split at h
  · cases h
  · rename_i hslot
    refine Or.inl ⟨?_, (Except.ok.inj h).symm⟩
    unfold IoUringData.slot
    rw [hslot]
    rfl
  · rename_i info hslot
    split at h
    · cases h
    · rename_i l hl
      split at h
      · cases h
      · rename_i target htarget
        split at h
        · exact Or.inr ⟨info, l, target, IoUringData.slot_eq_some_iff.mpr hslot, hl, htarget, ‹_›,
            (Except.ok.inj h).symm⟩
        · cases h

theorem slot_addCall {q : EventQueuedFunction V} {objectId : Id} {target : Nat} (ty : V.TypeIndex)
    (idx : Nat) : ((w.decided.addCall t ctx ti q objectId target).contexts ctx).slot ty idx =
      (w.contexts ctx).slot ty idx := by
  have hcontext : (w.decided.addCall t ctx ti q objectId target).contexts ctx =
      (w.contexts ctx).globalToLocal (getId w.procIds (some t)).1 q.localId :=
    Function.update_self ..
  rw [hcontext]
  exact IoUringData.slot_congr rfl

/-- The calls of a handler, where each object has one thread. -/
theorem each_queuedFunction {qs : List (EventQueuedFunction V)}
    (hthread : ∀ ty idx info l, (w.contexts ctx).slot ty idx = some info → info.locator = some l →
      ∃ r, l.threadId = [r])
    (h : each (queuedFunction t ctx ti) qs w = .ok w') : ∃ sent, CallsSent t ctx ti w w' qs sent := by
  -- on the queued calls, in their order
  induction qs generalizing w with
  | nil =>
    obtain rfl := Except.ok.inj h
    exact ⟨[], {
      entries := rfl
      target := fun s hs => absurd hs List.not_mem_nil
      queues := fun _ => (List.append_nil _).symm
      log := (List.append_nil _).symm
      fresh := fun s hs => absurd hs List.not_mem_nil
      nodup := List.nodup_nil }⟩
  | cons q qs ih =>
    simp only [each] at h
    split at h
    · cases h
    · rename_i w₁ hstep
      obtain ⟨hslot, rfl⟩ | ⟨info, l, target, hslot, hl, htarget, -, rfl⟩ := queuedFunction_eq_ok hstep
      · -- the slot is empty
        obtain ⟨sent, hsent⟩ := ih hthread h
        refine ⟨sent, { hsent with entries := ?_ }⟩
        rw [hsent.entries, List.filter_cons_of_neg (by simp [hslot])]
      · obtain ⟨sent, hsent⟩ := ih (fun ty idx info' l' hslot' => by
          rw [slot_addCall] at hslot'
          exact hthread ty idx info' l' hslot') h
        obtain ⟨r, hr⟩ := hthread q.idx q.vidx info l hslot hl
        obtain rfl : target = r := findTargetThread_singleton (hr ▸ htarget)
        let id := (getId w.procIds (some t)).1
        let s : SentCall V :=
          { entry := q
            message := { call := q.fn
                         ci := { threadId := some t, objId := ti.objId, procId := ti.procId }
                         ti := { objId := l.objectId, procId := id } }
            thread := target }
        have hqueues : ∀ t', (w.decided.addCall t ctx ti q l.objectId target).queues t' =
            if t' = target then w.queues t' ++ [.functionCall s.message] else w.queues t' :=
          fun t' => queues_enqueue _ target t' _
        have hlog : (w.decided.addCall t ctx ti q l.objectId target).log =
            w.log ++ [s.note t ti] := rfl
        have hids : ∀ id', Taken (w.decided.addCall t ctx ti q l.objectId target).procIds id' ↔
            Taken w.procIds id' ∨ id' = id := fun id' => taken_getId _ _ id'
        refine ⟨s :: sent, ?_⟩
        exact {
          entries := by
            rw [List.filter_cons_of_pos (by simp [hslot]), List.map_cons, hsent.entries]
            simp only [slot_addCall]
            rfl
          target := fun s' hs' => by
            rcases List.mem_cons.mp hs' with rfl | hs'
            · exact ⟨rfl, info, l, hslot, hl, rfl, hr⟩
            · have htarget' := hsent.target s' hs'
              simp only [slot_addCall] at htarget'
              exact htarget'
          queues := fun t' => by
            rw [hsent.queues, hqueues, List.filter_cons]
            by_cases ht' : target = t'
            · subst ht'
              simp [s]
            · rw [if_neg (Ne.symm ht'), if_neg (by simpa [s] using ht')]
          log := by
            rw [hsent.log, hlog, List.append_assoc]
            rfl
          fresh := fun s' hs' => by
            rcases List.mem_cons.mp hs' with rfl | hs'
            · exact not_taken_getId _ _
            · exact fun hid => hsent.fresh s' hs' ((hids _).mpr (Or.inl hid))
          nodup := by
            refine List.nodup_cons.mpr ⟨fun hmem => ?_, hsent.nodup⟩
            obtain ⟨s', hs', hid⟩ := List.mem_map.mp hmem
            exact hsent.fresh s' hs' ((hids _).mpr (Or.inr hid)) }

/-! ## What follows -/

/-- Only deletions are sent, and no call is noted. -/
structure OnlyDeletes (w w' : World V σ) : Prop where
  queues : ∀ t, ∃ ds : List Delete, w'.queues t = w.queues t ++ ds.map .delete
  log : ∃ ns, w'.log = w.log ++ ns ∧ ∀ t o p p' l, .called t o p p' l ∉ ns

theorem OnlyDeletes.of_eq (hqueues : w'.queues = w.queues) (hlog : w'.log = w.log) :
    OnlyDeletes w w' where
  queues t := ⟨[], by rw [hqueues]; exact (List.append_nil _).symm⟩
  log := ⟨[], by rw [hlog]; exact (List.append_nil _).symm, fun _ _ _ _ _ => List.not_mem_nil⟩

theorem OnlyDeletes.of_note {n : Note} (hqueues : w'.queues = w.queues)
    (hlog : w'.log = w.log ++ [n]) (hn : ∀ t o p p' l, n ≠ .called t o p p' l) :
    OnlyDeletes w w' where
  queues t := ⟨[], by rw [hqueues]; exact (List.append_nil _).symm⟩
  log := ⟨[n], hlog, fun t o p p' l hmem => hn t o p p' l (List.mem_singleton.mp hmem).symm⟩

theorem OnlyDeletes.trans {w'' : World V σ} (h : OnlyDeletes w w') (h' : OnlyDeletes w' w'') :
    OnlyDeletes w w'' where
  queues t := by
    obtain ⟨ds, hds⟩ := h.queues t
    obtain ⟨ds', hds'⟩ := h'.queues t
    exact ⟨ds ++ ds', by rw [hds', hds, List.map_append, List.append_assoc]⟩
  log := by
    obtain ⟨ns, hns, hcalled⟩ := h.log
    obtain ⟨ns', hns', hcalled'⟩ := h'.log
    refine ⟨ns ++ ns', by rw [hns', hns, List.append_assoc], fun t o p p' l hmem => ?_⟩
    rcases List.mem_append.mp hmem with hmem | hmem
    · exact hcalled t o p p' l hmem
    · exact hcalled' t o p p' l hmem

theorem onlyDeletes_enqueue (w : World V σ) (t : Nat) (d : Delete) :
    OnlyDeletes w (w.enqueue t (.delete d)) where
  queues t' := by
    rw [queues_enqueue]
    split
    · exact ⟨[d], rfl⟩
    · exact ⟨[], (List.append_nil _).symm⟩
  log := ⟨[], (List.append_nil _).symm, fun _ _ _ _ _ => List.not_mem_nil⟩

theorem OnlyDeletes.noteTimer (h : OnlyDeletes w w') (q : EventQueuedTimer) (id : Id) :
    OnlyDeletes w (w'.noteTimer t ti q id) := by
  refine h.trans (.of_note rfl rfl fun t' o p p' l => ?_)
  split <;> exact Note.noConfusion

/-- After the constructions and the calls, only deletions are sent. -/
theorem rest_onlyDeletes (h : Relation.ReflTransGen
    (Queued t ctx ti { es with construct := [], function := [] }) w w') : OnlyDeletes w w' := by
  refine transGen_invariant (I := OnlyDeletes w) h (.of_eq rfl rfl) fun w₁ w₂ h₁ hq => h₁.trans ?_
  cases hq with
  | decision => exact .of_eq rfl rfl
  | child q runThread hmem => exact absurd hmem List.not_mem_nil
  | call q info locator target hmem _ _ _ _ => exact absurd hmem List.not_mem_nil
  | uring q _ _ => exact .of_eq rfl rfl
  | removeTimer q data _ _ _ =>
    apply OnlyDeletes.noteTimer
    exact .of_eq rfl rfl
  | updateTimer q data _ _ _ _ =>
    apply OnlyDeletes.noteTimer
    exact .of_eq rfl rfl
  | addTimer q _ _ _ =>
    apply OnlyDeletes.noteTimer
    exact .of_eq rfl rfl
  | delete q thread _ _ _ => exact onlyDeletes_enqueue _ _ _
  | dropChild q _ => exact .of_eq rfl rfl
  | attach q _ =>
    exact OnlyDeletes.of_note rfl rfl fun _ _ _ _ _ => Note.noConfusion

end World

end LocalSoftware
