import LocalSoftware.Common.CompletionPaths
import LocalSoftware.Common.PresenceRuns
import LocalSoftware.Common.ThreadChoice
import LocalSoftware.Library.Outcomes

/-!
# When `process_queued` returns

With a single worker thread, `Working` holds from the first construction that a handler queued to the
last attachment: the tables have what is looked up in them, objects are known in their slots as soon as
their construction is sent, and memory for attachments is free. `processQueued_delivers` says in one go
what `process_queued` keeps, and that it returns if the thread has load to spare, the ring has room for
the timers, and calls are for slots that are there.
-/

set_option autoImplicit false

namespace LocalSoftware

variable {V : Vocabulary} {σ : Type}

/-! ## The slots of a context -/

namespace IoUringData

variable {d d' : IoUringData V} {qs : List (EventQueuedConstruct V)} {ty : V.TypeIndex} {idx : Nat}
  {info : EventInfo}

/-- An object is known, and is on the first thread. -/
def OnFirst (info : EventInfo) : Prop := ∃ o, info.locator = some { objectId := o, threadId := [0] }

/-- The objects in the slots are known, and are on the first thread. -/
def Located (d : IoUringData V) : Prop := ∀ ty idx info, d.slot ty idx = some info → OnFirst info

/-- The same, but for those whose construction is still to be sent, which have their slots. -/
structure Placed (d : IoUringData V) (qs : List (EventQueuedConstruct V)) : Prop where
  occupied : ∀ q ∈ qs, (d.slot q.idx q.vidx).isSome
  located : ∀ ty idx info, d.slot ty idx = some info →
    OnFirst info ∨ ∃ q ∈ qs, q.idx = ty ∧ q.vidx = idx

theorem Located.placed (h : d.Located) : d.Placed [] where
  occupied _ hq := absurd hq List.not_mem_nil
  located ty idx info hslot := Or.inl (h ty idx info hslot)

theorem Placed.allLocated (h : d.Placed []) : d.Located := by
  intro ty idx info hslot
  rcases h.located ty idx info hslot with hfirst | ⟨q, hq, -⟩
  · exact hfirst
  · exact absurd hq List.not_mem_nil

theorem located_empty : ({} : IoUringData V).Located := by
  intro ty idx info hslot
  cases hslot

/-- The construction of an object is sent to the first thread. -/
theorem Placed.setLocator {q : EventQueuedConstruct V} (h : d.Placed (q :: qs)) (id : Id) :
    (d.setLocator q.idx q.vidx { objectId := id, threadId := [0] }).Placed qs where
  occupied q' hq' := by
    rw [slot_setLocator]
    split
    · rw [Option.isSome_map]
      exact h.occupied q List.mem_cons_self
    · exact h.occupied q' (List.mem_cons_of_mem _ hq')
  located ty idx info hslot := by
    rw [slot_setLocator] at hslot
    split at hslot
    · obtain ⟨info', -, rfl⟩ := Option.map_eq_some_iff.mp hslot
      exact Or.inl ⟨id, rfl⟩
    · rename_i hne
      refine (h.located ty idx info hslot).imp_right fun ⟨q', hq', hidx⟩ => ⟨q', ?_, hidx⟩
      rcases List.mem_cons.mp hq' with rfl | hq'
      · exact absurd ⟨hidx.1.symm, hidx.2.symm⟩ hne
      · exact hq'

/-- Only what the slots hold of the locators matters. -/
theorem Placed.congr (h : d.Placed qs) (hslots : ∀ ty idx, (d'.slot ty idx).map (·.locator) =
    (d.slot ty idx).map (·.locator)) : d'.Placed qs where
  occupied q hq := by
    have hsome := h.occupied q hq
    rwa [← Option.isSome_map, ← hslots, Option.isSome_map] at hsome
  located ty idx info hslot := by
    have hmap := hslots ty idx
    rw [hslot] at hmap
    obtain ⟨info', hslot', hl⟩ := Option.map_eq_some_iff.mp hmap.symm
    refine (h.located ty idx info' hslot').imp_left ?_
    rintro ⟨o, ho⟩
    exact ⟨o, hl.symm.trans ho⟩

theorem Located.congr (h : d.Located) (hslots : ∀ ty idx, (d'.slot ty idx).map (·.locator) =
    (d.slot ty idx).map (·.locator)) : d'.Located :=
  (h.placed.congr hslots).allLocated

end IoUringData

/-! ## A handler run -/

section Runs

variable {α : Type} {s s' : EventState V}

/-- While a handler runs, the objects that it constructs are in their slots without a locator. -/
structure EventState.Placing (s : EventState V) : Prop where
  placed : s.uringData.Placed s.construct
  waiting : ∀ q ∈ s.construct, ∀ info, s.uringData.slot q.idx q.vidx = some info →
    info.locator = none

theorem EventState.Placing.same (h : s.Placing) (hconstruct : s'.construct = s.construct)
    (hslots : s'.uringData.subEvents = s.uringData.subEvents) : s'.Placing := by
  have hslot : ∀ ty idx, s'.uringData.slot ty idx = s.uringData.slot ty idx :=
    fun ty idx => IoUringData.slot_congr hslots
  refine ⟨?_, fun q hq info => ?_⟩
  · rw [hconstruct]
    exact h.placed.congr fun ty idx => by rw [hslot]
  · rw [hslot]
    exact h.waiting q (hconstruct ▸ hq) info

theorem EventState.Placing.construct (h : s.Placing) (shared : Bool) (ty : V.TypeIndex)
    (fn : V.ConstructFunc) : (s.queueConstruct shared ty fn).2.Placing := by
  have hslot : ∀ ty' idx, (s.queueConstruct shared ty fn).2.uringData.slot ty' idx =
      if ty' = ty ∧ idx = IoUringData.freeSlot (s.uringData.slots ty) then some {}
      else s.uringData.slot ty' idx := fun ty' idx => IoUringData.slot_place {}
  refine ⟨⟨fun q hq => ?_, fun ty' idx info hinfo => ?_⟩, fun q hq info hinfo => ?_⟩
  · rw [hslot]
    split
    · rfl
    · rename_i hne
      rcases List.mem_append.mp hq with hq | hq
      · exact h.placed.occupied q hq
      · rw [List.mem_singleton.mp hq] at hne
        exact absurd ⟨rfl, rfl⟩ hne
  · rw [hslot] at hinfo
    split at hinfo
    · rename_i heq
      exact Or.inr ⟨_, List.mem_append_right _ List.mem_cons_self, heq.1.symm, heq.2.symm⟩
    · exact (h.placed.located ty' idx info hinfo).imp_right fun ⟨q, hq, hidx⟩ =>
        ⟨q, List.mem_append_left _ hq, hidx⟩
  · rw [hslot] at hinfo
    split at hinfo
    · obtain rfl := Option.some.inj hinfo
      rfl
    · rename_i hne
      rcases List.mem_append.mp hq with hq | hq
      · exact h.waiting q hq info hinfo
      · rw [List.mem_singleton.mp hq] at hne
        exact absurd ⟨rfl, rfl⟩ hne

/-- An object without a locator cannot be deleted, so the slots of those that wait stay. -/
theorem EventState.Placing.delete (h : s.Placing) {ty : V.TypeIndex} {idx : Nat}
    (hs' : s.queueDelete ty idx = .ok s') : s'.Placing := by
  obtain ⟨info, l, hold, hl, rfl⟩ := EventState.queueDelete_eq_ok hs'
  have hold' := IoUringData.slot_eq_some_iff.mpr hold
  have hslot : ∀ ty' idx', (s.uringData.setSlots ty ((s.uringData.slots ty).set idx none)).slot
      ty' idx' = if ty' = ty ∧ idx' = idx then none else s.uringData.slot ty' idx' :=
    fun ty' idx' => IoUringData.slot_remove
  have hne : ∀ q ∈ s.construct, ¬ (q.idx = ty ∧ q.vidx = idx) := by
    rintro q hq ⟨hty, hidx⟩
    have hnone := h.waiting q hq info (hty ▸ hidx ▸ hold')
    rw [hl] at hnone
    cases hnone
  refine ⟨⟨fun q hq => ?_, fun ty' idx' info' hinfo => ?_⟩, fun q hq info' hinfo => ?_⟩
  · show ((s.uringData.setSlots _ _).slot _ _).isSome
    rw [hslot, if_neg (hne q hq)]
    exact h.placed.occupied q hq
  · rw [hslot] at hinfo
    split at hinfo
    · cases hinfo
    · exact h.placed.located ty' idx' info' hinfo
  · rw [hslot, if_neg (hne q hq)] at hinfo
    exact h.waiting q hq info' hinfo

theorem EventState.Placing.apply {op : Operation V} (h : s.Placing) (hs' : s.apply op = .ok s') :
    s'.Placing := by
  cases op with
  | construct shared ty fn =>
    obtain rfl := Except.ok.inj hs'
    exact h.construct shared ty fn
  | call ty fn =>
    obtain ⟨r, hr, rfl⟩ := exists_of_map_eq_ok hs'
    obtain rfl := EventState.call_eq_ok hr
    exact h.same rfl rfl
  | delete ty idx => exact h.delete hs'
  | _ =>
    obtain rfl := Except.ok.inj hs'
    exact h.same rfl rfl

/-- After its run, the objects of a handler are known or wait for their construction, and those that
it deletes are on the first thread. -/
theorem run_placed {d : IoUringData V} {x : Script V α} {a : α} {es : EventState V} (hd : d.Located)
    (h : x.run { uringData := d } = .ok (a, es)) :
    es.uringData.Placed es.construct ∧ ∀ q ∈ es.delete, q.thread = [0] := by
  refine ⟨?_, fun q hq => ?_⟩
  · have hplacing : es.Placing := by
      refine Script.run_invariant (K := EventState.Placing)
        (Script.uses_of_forall (A := fun _ => True) (fun _ => trivial) x) h ?_
        fun s op s' hs _ hop => hs.apply hop
      exact ⟨hd.placed, fun q hq => absurd hq List.not_mem_nil⟩
    exact hplacing.placed
  · obtain ⟨l, ⟨ty, idx, info, hslot, hl⟩, rfl⟩ := (run_holds h).2 q hq
    obtain ⟨o, ho⟩ := hd ty idx info (IoUringData.slot_eq_some_iff.mpr hslot)
    rw [hl] at ho
    exact congrArg Locator.threadId (Option.some.inj ho)

end Runs

namespace World

variable {w w' : World V σ} {ctx : Nat} {ti : TargetInfo} {es : EventState V} {P : Program V σ}
  {m : EventVariant V} {rest : List (EventVariant V)} {pre : Prop} {n n' r r' : Nat}

/-! ## What the runtime can rely on -/

theorem SameCore.objects {t : Nat} (hw : SameCore t w w') :
    (w'.threads 0).objInfo = (w.threads 0).objInfo ∧
      (w'.threads 0).procToDat = (w.threads 0).procToDat := by
  by_cases ht : t = 0
  · subst ht
    exact ⟨hw.objInfo, hw.procToDat⟩
  · rw [hw.threads 0 (Ne.symm ht)]
    exact ⟨rfl, rfl⟩

/-- The objects have their contexts, and whoever is named for a message is on the first thread. -/
structure Grounded (w : World V σ) : Prop where
  ptr : ∀ {o obj}, (w.threads 0).objInfo o = some obj → obj.ptr.isSome
  children : ∀ {o obj child}, (w.threads 0).objInfo o = some obj → child ∈ obj.children →
    child.2.thread = 0
  callers : ∀ {f t}, .functionCall f ∈ w.queues 0 → f.ci.threadId = some t → t = 0
  notify : ∀ {p c t}, (w.threads 0).procToDat p = some c → c.backNotify.1 = some t → t = 0

namespace Grounded

theorem congr (h : w.Grounded)
    (hqueue : ∀ f, .functionCall f ∈ w'.queues 0 → .functionCall f ∈ w.queues 0)
    (hobj : (w'.threads 0).objInfo = (w.threads 0).objInfo)
    (hproc : (w'.threads 0).procToDat = (w.threads 0).procToDat) : w'.Grounded where
  ptr ho := h.ptr (hobj ▸ ho)
  children ho := h.children (hobj ▸ ho)
  callers hf := h.callers (hqueue _ hf)
  notify hp := h.notify (hproc ▸ hp)

theorem sameCore {t : Nat} (h : w.Grounded) (hw : SameCore t w w') : w'.Grounded :=
  h.congr (fun _ hf => hw.queues ▸ hf) hw.objects.1 hw.objects.2

/-- A message is pushed; if it is a call, its caller is on the first thread. -/
theorem enqueue (h : w.Grounded) (t : Nat)
    (hm : ∀ f t, m = .functionCall f → f.ci.threadId = some t → t = 0) :
    (w.enqueue t m).Grounded where
  ptr := h.ptr
  children := h.children
  callers {f t'} hf ht' := by
    rw [queues_enqueue] at hf
    split at hf
    · rcases List.mem_append.mp hf with hf | hf
      · exact h.callers hf ht'
      · exact hm f t' (List.mem_singleton.mp hf).symm ht'
    · exact h.callers hf ht'
  notify := h.notify

theorem pop (h : w.Grounded) (hq : w.queues 0 = m :: rest) : (w.pop 0 rest).Grounded := by
  refine h.congr (fun f hf => ?_) rfl rfl
  rw [queues_pop, if_pos rfl] at hf
  rw [hq]
  exact List.mem_cons_of_mem _ hf

/-- The entry of an object is assigned. -/
theorem setObject (h : w.Grounded) (id : Id) {obj : ObjectDataThreaded} (hptr : obj.ptr.isSome)
    (hchildren : ∀ child ∈ obj.children, child.2.thread = 0) :
    (w.setThread 0 ((w.threads 0).setObject id obj)).Grounded where
  ptr {o obj'} ho := by
    rw [threads_setThread_self, ThreadData.objInfo_setObject] at ho
    split at ho
    · obtain rfl := Option.some.inj ho
      exact hptr
    · exact h.ptr ho
  children {o obj' child} ho := by
    rw [threads_setThread_self, ThreadData.objInfo_setObject] at ho
    split at ho
    · obtain rfl := Option.some.inj ho
      exact hchildren child
    · exact h.children ho
  callers := h.callers
  notify hp := by
    rw [threads_setThread_self] at hp
    exact h.notify hp

/-- The table of children of an object that is there is assigned. -/
theorem setChildren (h : w.Grounded) {o : Id} (ho : w.Exists o)
    {children : List (Id × ChildObjectInfo)} (hchildren : ∀ child ∈ children,
      child ∈ ((w.threads 0).object o).children ∨ child.2.thread = 0) :
    (w.setThread 0 ((w.threads 0).setObject o
      { (w.threads 0).object o with children })).Grounded := by
  obtain ⟨obj, hobj⟩ := ho
  rw [object_eq hobj] at hchildren ⊢
  have hptr := h.ptr hobj
  refine h.setObject o hptr fun child hchild => ?_
  rcases hchildren child hchild with hchild | hthread
  · exact h.children hobj hchild
  · exact hthread

/-- An entry for a child that is on the first thread. -/
theorem thread_setChild {children : List (Id × ChildObjectInfo)} {id : Id}
    {f : ChildObjectInfo → ChildObjectInfo} {child : Id × ChildObjectInfo}
    (hf : ∀ info, (f info).thread = 0) (h : child ∈ setChild children id f) :
    child ∈ children ∨ child.2.thread = 0 := by
  refine (mem_setChild h).imp_right ?_
  rintro ⟨-, info, heq⟩
  rw [heq]
  exact hf info

/-- The entry of a procedure is assigned. -/
theorem setProc (h : w.Grounded) (id : Id) {d : CallDataThreaded}
    (hd : ∀ t, d.backNotify.1 = some t → t = 0) :
    (w.setThread 0 ((w.threads 0).setProc id d)).Grounded where
  ptr ho := by
    rw [threads_setThread_self] at ho
    exact h.ptr ho
  children ho := by
    rw [threads_setThread_self] at ho
    exact h.children ho
  callers := h.callers
  notify {p c t} hp := by
    rw [threads_setThread_self, ThreadData.procToDat_setProc] at hp
    split at hp
    · obtain rfl := Option.some.inj hp
      exact hd t
    · exact h.notify hp

/-- The caller of a procedure, or the default one. -/
theorem notify_proc (h : w.Grounded) (id : Id) :
    ∀ t, ((w.threads 0).proc id).backNotify.1 = some t → t = 0 := by
  intro t ht
  unfold ThreadData.proc at ht
  cases hp : (w.threads 0).procToDat id with
  | none =>
    rw [hp] at ht
    exact (Option.some.inj ht).symm
  | some c =>
    rw [hp] at ht
    exact h.notify hp ht

/-- What a handler queued keeps its object in the tables, and sends to the first thread. -/
theorem queued (h : w.Grounded) (ho : w.Exists ti.objId) (hw : Queued 0 ctx ti es w w') :
    w'.Grounded ∧ w'.Exists ti.objId := by
  rcases hw.essential with hsame | hessential
  · refine ⟨h.sameCore hsame, ?_⟩
    unfold Exists
    rw [hsame.objInfo]
    exact ho
  · cases hessential with
    | child q runThread _ =>
      have hdrawn : ({ w with objIds := (getId w.objIds (some 0)).2 } : World V σ).Grounded :=
        h.congr (fun _ hf => hf) rfl rfl
      have hchildren : ∀ child ∈ setChild ((w.threads 0).object ti.objId).children
          (getId w.objIds (some 0)).1 fun _ => {},
          child ∈ ((w.threads 0).object ti.objId).children ∨ child.2.thread = 0 :=
        fun child => thread_setChild fun _ => rfl
      have hset := hdrawn.setChildren ho hchildren
      refine ⟨(hset.enqueue (m := .constructorCall _) 0 fun f t hm => ?_).congr
        (fun _ hf => hf) rfl rfl, exists_setObject w ti.objId _⟩
      cases hm
    | call q info locator target _ _ _ _ _ =>
      have hdrawn : ({ w with procIds := (getId w.procIds (some 0)).2 } : World V σ).Grounded :=
        h.congr (fun _ hf => hf) rfl rfl
      have hchildren : ∀ child ∈ setChild ((w.threads 0).object ti.objId).children
          locator.objectId fun info =>
            { thread := 0, procedures := info.procedures ++ [(getId w.procIds (some 0)).1] },
          child ∈ ((w.threads 0).object ti.objId).children ∨ child.2.thread = 0 :=
        fun child => thread_setChild fun _ => rfl
      have hset := hdrawn.setChildren ho hchildren
      refine ⟨(hset.enqueue (m := .functionCall _) target fun f t hm ht => ?_).congr
        (fun _ hf => hf) rfl rfl, exists_setObject w ti.objId _⟩
      obtain rfl := EventVariant.functionCall.inj hm
      exact (Option.some.inj ht).symm
    | delete q thread _ _ _ => exact ⟨h.enqueue thread (fun f t hm => by cases hm), ho⟩
    | dropChild q _ =>
      refine ⟨h.setChildren ho fun child hchild => Or.inl ?_, exists_setObject w ti.objId _⟩
      exact (List.mem_filter.mp hchild).1

/-- A call is entered. -/
theorem enter (h : w.Grounded) {f : FunctionCall V} {o : ObjectDataThreaded}
    (ho : (w.threads 0).objInfo f.ti.objId = some o)
    (hcaller : ∀ t, f.ci.threadId = some t → t = 0) : (w.enter 0 f o).Grounded := by
  have hptr : o.ptr.isSome := h.ptr ho
  have hobject : Grounded (w.setThread 0 ((w.threads 0).setObject f.ti.objId
      { o with assocProcs := o.assocProcs ++ [f.ti.procId] })) :=
    h.setObject f.ti.objId hptr fun child hchild => h.children ho hchild
  refine (hobject.setProc f.ti.procId (d := { (w.threads 0).proc f.ti.procId with
    assocObj := f.ti.objId, backNotify := (f.ci.threadId, f.ci.objId, f.ci.procId)
    status := .running }) hcaller).congr (fun _ hf => hf) ?_ ?_
  · simp only [World.enter, threads_note, threads_setThread_self]
    rfl
  · simp only [World.enter, threads_note, threads_setThread_self]
    rfl

/-- The end of an object. -/
theorem erase (h : w.Grounded) (P : Program V σ) (id : Id) : (w.erase P 0 id).Grounded where
  ptr {o obj} ho := by
    rw [objInfo_erase_self] at ho
    split at ho
    · cases ho
    · exact h.ptr ho
  children {o obj child} ho := by
    rw [objInfo_erase_self] at ho
    split at ho
    · cases ho
    · exact h.children ho
  callers := h.callers
  notify {p c t} hp := by
    rw [procToDat_erase_self] at hp
    split at hp
    · cases hp
    · exact h.notify hp

end Grounded

/-! ## The results -/

/-- What an assignment to the entry of the procedure, a note and a message to the caller keep, the end
of a call keeps. -/
theorem respond_keeps {I : World V σ → Prop} {f : FunctionCall V} {resp : CallResponse} {t : Nat}
    (h : w.respond t f resp = .ok w')
    (hset : ∀ d : CallDataThreaded, d.backNotify = ((w.threads t).proc f.ti.procId).backNotify →
      I (w.setThread t ((w.threads t).setProc f.ti.procId d)))
    (hnote : ∀ w n, I w → I (w.note n))
    (hdata : ∀ w t' d, f.ci.threadId = some t' → I w → I (w.enqueue t' (.data d))) : I w' := by
  obtain ⟨d, hback, -, ⟨-, rfl⟩ | ⟨failed, code, -, ⟨-, rfl⟩ | ⟨t', hcaller, -, rfl⟩⟩⟩ := respond_cases h
  · exact hset d hback
  · exact hnote _ _ (hset d hback)
  · exact hdata _ t' _ hcaller (hnote _ _ (hset d hback))

/-- The same for the result of `on_yield`. -/
theorem report_keeps {I : World V σ → Prop} {y : Yielded} {t : Nat} (h : w.report t ti y = .ok w')
    (hw : I w)
    (hset : ∀ d : CallDataThreaded, d.backNotify = ((w.threads t).proc ti.procId).backNotify →
      I (w.setThread t ((w.threads t).setProc ti.procId d)))
    (hnote : ∀ w n, I w → I (w.note n))
    (hdata : ∀ w' t' d, ((w.threads t).proc ti.procId).backNotify.1 = some t' → I w' →
      I (w'.enqueue t' (.data d))) : I w' := by
  obtain ⟨-, rfl⟩ | ⟨failed, code, t', -, hcaller, -, rfl⟩ := report_cases h
  · exact hw
  · refine hdata _ t' _ hcaller (hnote _ _ (hset _ ?_))
    rfl

/-! ## What a handler run draws on -/

/-- The memory for attachments, and the loads at the coming decisions. -/
structure Supply where
  malloc : Nat → Nat
  mallocs : Nat
  attached : Nat → Option IoUringAttached
  loads : Nat → Nat → Rat
  decisions : Nat

def supply (w : World V σ) : Supply where
  malloc := w.malloc
  mallocs := w.mallocs
  attached := w.attached
  loads := w.loads
  decisions := w.decisions

/-- An attachment gets the next memory. -/
def Supply.allocate (s : Supply) (a : IoUringAttached) : Supply :=
  { s with mallocs := s.mallocs + 1, attached := Function.update s.attached (s.malloc s.mallocs) (some a) }

/-- Unless the step may fail, the thread has load to spare at the next `n` decisions, and the next `r`
addresses are free and differ. -/
structure Supplied (pre : Prop) (n r : Nat) (s : Supply) : Prop where
  calm : pre → ∀ k < n, s.loads (s.decisions + k) 0 < 1
  memory : pre → ∀ k < r, s.attached (s.malloc (s.mallocs + k)) = none ∧
    ∀ j < k, s.malloc (s.mallocs + j) ≠ s.malloc (s.mallocs + k)

namespace Supplied

theorem free (h : Supplied pre n (r + 1) w.supply) (hpre : pre) :
    w.attached (w.malloc w.mallocs) = none :=
  (h.memory hpre 0 (Nat.succ_pos r)).1

theorem mono {s : Supply} (h : Supplied pre n r s) (hn : n' ≤ n) (hr : r' ≤ r) :
    Supplied pre n' r' s where
  calm hpre k hk := h.calm hpre k (Nat.lt_of_lt_of_le hk hn)
  memory hpre k hk := h.memory hpre k (Nat.lt_of_lt_of_le hk hr)

theorem decided (h : Supplied pre (n + 1) r w.supply) : Supplied pre n r w.decided.supply where
  calm hpre k hk := by
    have hload := h.calm hpre (k + 1) (Nat.succ_lt_succ hk)
    rw [Nat.add_comm k, ← Nat.add_assoc] at hload
    exact hload
  memory := h.memory

theorem allocate {s : Supply} (h : Supplied pre n (r + 1) s) (a : IoUringAttached) :
    Supplied pre n r (s.allocate a) where
  calm := h.calm
  memory hpre k hk := by
    have hnext : ∀ j, s.mallocs + 1 + j = s.mallocs + (j + 1) := fun j => by omega
    obtain ⟨hfree, hdiffer⟩ := h.memory hpre (k + 1) (Nat.succ_lt_succ hk)
    refine ⟨?_, fun j hj => ?_⟩
    · show Function.update s.attached _ _ (s.malloc (s.mallocs + 1 + k)) = none
      have hother : s.malloc (s.mallocs + (k + 1)) ≠ s.malloc s.mallocs :=
        (hdiffer 0 (Nat.succ_pos k)).symm
      rw [hnext, Function.update_of_ne hother]
      exact hfree
    · show s.malloc (s.mallocs + 1 + j) ≠ s.malloc (s.mallocs + 1 + k)
      rw [hnext, hnext]
      exact hdiffer (j + 1) (Nat.succ_lt_succ hj)

/-- With load to spare, the first thread is chosen; and no other is. -/
theorem chooses (h : Supplied pre (n + 1) r w.supply) (hsize : w.size = 1) (threads : List Nat)
    (hthreads : threads = [] ∨ threads = [0]) :
    Delivers pre (w.findTargetThread 0 threads) (· = 0) where
  keeps r hr := by
    have hlt := findTargetThread_lt (by omega) hr
    omega
  returns hpre := by
    have hload : w.loadAvg 0 < 1 := h.calm hpre 0 (Nat.succ_pos n)
    have hvalid := (findTargetThread_valid_iff w 0 threads (by omega)).mpr
      ⟨0, by omega, hthreads.imp_right fun heq => by rw [heq]; exact List.mem_cons_self, hload⟩
    obtain ⟨i, hi, -⟩ := hvalid
    exact ⟨i, hi⟩

end Supplied

/-! ## What a handler queued -/

theorem subEvents_addCall (q : EventQueuedFunction V) (o : Id) (target c : Nat) :
    ((w.addCall 0 ctx ti q o target).contexts c).subEvents = (w.contexts c).subEvents := by
  show ((w.setContext ctx _).contexts c).subEvents = _
  rw [contexts_setContext]
  split
  · rename_i hc
    rw [hc]
    rfl
  · rfl

theorem ring_addChild (q : EventQueuedConstruct V) (runThread : Nat) :
    ((w.addChild 0 ctx ti q runThread).threads 0).ring = (w.threads 0).ring :=
  proj_setThread _ _ _ _ (·.ring) rfl

theorem ring_addCall (q : EventQueuedFunction V) (o : Id) (target : Nat) :
    ((w.addCall 0 ctx ti q o target).threads 0).ring = (w.threads 0).ring :=
  proj_setThread _ _ _ _ (·.ring) rfl

/-- What holds while `process_queued` works, in a state after `start`: the constructions `qs` are to
come, with `n` decisions and `r` requests at most, for which `k` entries of the ring are enough. -/
structure Working (pre : Prop) (ctx : Nat) (ti : TargetInfo) (start : World V σ)
    (qs : List (EventQueuedConstruct V)) (n k r : Nat) (w : World V σ) : Prop where
  size : w.size = 1
  grounded : w.Grounded
  exist : w.Exists ti.objId
  supplied : Supplied pre n r w.supply
  others : ∀ c, c ≠ ctx → (w.contexts c).Located
  placed : (w.contexts ctx).Placed qs
  lengths : ∀ ty, ((w.contexts ctx).slots ty).length = ((start.contexts ctx).slots ty).length
  procToDat : (w.threads 0).procToDat = (start.threads 0).procToDat
  ring : (w.threads 0).ring.sq.length + r ≤ k

namespace Working

variable {start : World V σ} {qs : List (EventQueuedConstruct V)} {k : Nat}

theorem located (h : Working pre ctx ti start [] n k r w) (c : Nat) : (w.contexts c).Located := by
  by_cases hc : c = ctx
  · rw [hc]
    exact h.placed.allLocated
  · exact h.others c hc

/-- An update that is no construction. -/
theorem queued (h : Working pre ctx ti start qs n k r w) (hw : Queued 0 ctx ti es w w')
    (hslots : ∀ c, (w'.contexts c).subEvents = (w.contexts c).subEvents)
    (hsupplied : Supplied pre n' r' w'.supply)
    (hring : (w'.threads 0).ring.sq.length + r' ≤ k) : Working pre ctx ti start qs n' k r' w' where
  size := hw.size.trans h.size
  grounded := (h.grounded.queued h.exist hw).1
  exist := (h.grounded.queued h.exist hw).2
  supplied := hsupplied
  others c hc := (h.others c hc).congr fun ty idx => by rw [IoUringData.slot_congr (hslots c)]
  placed := h.placed.congr fun ty idx => by rw [IoUringData.slot_congr (hslots ctx)]
  lengths ty := by
    rw [IoUringData.slots, hslots ctx]
    exact h.lengths ty
  procToDat := (hw.procToDat 0).trans h.procToDat
  ring := hring

theorem mono (h : Working pre ctx ti start qs n k r w) (hn : n' ≤ n) (hr : r' ≤ r) :
    Working pre ctx ti start qs n' k r' w :=
  { h with
    supplied := h.supplied.mono hn hr
    ring := Nat.le_trans (Nat.add_le_add_left hr _) h.ring }

theorem decided (h : Working pre ctx ti start qs (n + 1) k r w) :
    Working pre ctx ti start qs n k r w.decided :=
  { h with
    grounded := h.grounded.congr (fun _ hf => hf) rfl rfl
    supplied := h.supplied.decided }

/-- A construction is sent. -/
theorem addChild {q : EventQueuedConstruct V} (h : Working pre ctx ti start (q :: qs) n k r w)
    (hq : q ∈ es.construct) : Working pre ctx ti start qs n k r (w.addChild 0 ctx ti q 0) := by
  have hqueued : Queued 0 ctx ti es w (w.addChild 0 ctx ti q 0) := .child w q 0 hq
  have hcontexts : ∀ c, (w.addChild 0 ctx ti q 0).contexts c = if c = ctx then
      (w.contexts ctx).setLocator q.idx q.vidx
        { objectId := (getId w.objIds (some 0)).1, threadId := [0] } else w.contexts c :=
    fun c => contexts_setContext _ c
  obtain ⟨hgrounded, hexist⟩ := h.grounded.queued h.exist hqueued
  exact {
    size := h.size
    grounded := hgrounded
    exist := hexist
    supplied := ⟨h.supplied.calm, h.supplied.memory⟩
    others := fun c hc => by
      rw [hcontexts, if_neg hc]
      exact h.others c hc
    placed := by
      rw [hcontexts, if_pos rfl]
      exact h.placed.setLocator _
    lengths := fun ty => by
      rw [hcontexts, if_pos rfl, ← h.lengths ty]
      rw [IoUringData.setLocator, IoUringData.slots_setSlots]
      split
      · rename_i hty
        rw [hty, List.length_modify]
      · rfl
    procToDat := (hqueued.procToDat 0).trans h.procToDat
    ring := by
      rw [ring_addChild]
      exact h.ring }

theorem queuedConstruct {q : EventQueuedConstruct V}
    (h : Working pre ctx ti start (q :: qs) (n + 1) k r w) (hq : q ∈ es.construct) :
    Delivers pre (w.queuedConstruct 0 ctx ti q) (Working pre ctx ti start qs n k r) := by
  obtain ⟨info, hinfo⟩ := Option.isSome_iff_exists.mp (h.placed.occupied q List.mem_cons_self)
  have hchosen := h.supplied.chooses h.size [] (Or.inl rfl)
  unfold World.queuedConstruct
  rw [IoUringData.slot_eq_some_iff.mp hinfo]
  simp only
  refine hchosen.next (fun e hfind => by rw [hfind]) fun runThread hfind hzero => ?_
  rw [hfind, hzero]
  exact .ok (h.decided.addChild hq)

theorem queuedFunction {q : EventQueuedFunction V} (h : Working pre ctx ti start [] (n + 1) k r w)
    (hq : q ∈ es.function)
    (hidx : pre → q.vidx < ((start.contexts ctx).slots q.idx).length) :
    Delivers pre (w.queuedFunction 0 ctx ti q) (Working pre ctx ti start [] n k r) := by
  unfold World.queuedFunction
  split
  · -- there is no such slot
    rename_i hnone
    refine .error _ fun hpre => ?_
    have hlt := hidx hpre
    rw [← h.lengths] at hlt
    exact absurd hlt (Nat.not_lt.mpr (List.getElem?_eq_none_iff.mp hnone))
  · exact .ok (h.mono (Nat.le_succ n) (Nat.le_refl r))
  · rename_i info hslot
    have hslot' := IoUringData.slot_eq_some_iff.mpr hslot
    obtain ⟨o, ho⟩ := h.located ctx q.idx q.vidx info hslot'
    have hchosen := h.supplied.chooses h.size [0] (Or.inr rfl)
    simp only [ho]
    refine hchosen.next (fun e hfind => by rw [hfind]) fun target hfind hzero => ?_
    have hlt : 0 < w.size := by
      rw [h.size]
      exact Nat.one_pos
    simp only [hfind, hzero, if_pos hlt]
    have hqueued : Queued 0 ctx ti es w.decided (w.decided.addCall 0 ctx ti q o 0) :=
      .call w.decided q info { objectId := o, threadId := [0] } 0 hq hslot ho
        (fun r hr => (List.cons.inj hr).1) hlt
    refine .ok (h.decided.queued hqueued (subEvents_addCall q o 0) ?_ ?_)
    · exact ⟨h.decided.supplied.calm, h.supplied.memory⟩
    · rw [ring_addCall]
      exact h.ring

/-- A request takes memory and an entry of the ring. -/
theorem request {a : IoUringAttached} (h : Working pre ctx ti start qs n k (r + 1) w)
    (hw : Queued 0 ctx ti es w w')
    (hslots : ∀ c, (w'.contexts c).subEvents = (w.contexts c).subEvents)
    (hsupply : w'.supply = w.supply.allocate a)
    (hring : (w'.threads 0).ring.sq.length = (w.threads 0).ring.sq.length + 1) :
    Working pre ctx ti start qs n k r w' := by
  refine h.queued hw hslots (hsupply ▸ h.supplied.allocate a) ?_
  rw [hring, Nat.add_assoc, Nat.add_comm 1]
  exact h.ring

/-- Without an entry of the ring, a request is dropped. -/
theorem queuedUring {q : EventQueuedUring V} (h : Working pre ctx ti start qs n k (r + 1) w)
    (hq : q ∈ es.uring) :
    Delivers pre (w.queuedUring 0 ti q) (Working pre ctx ti start qs n k r) := by
  unfold World.queuedUring
  split
  · split
    · rename_i hfree
      refine .ok (h.request (.uring w q hq hfree) (fun _ => rfl) rfl ?_)
      rw [addRequest, prepare, threads_setThread_self]
      exact List.length_append
    · rename_i hused
      exact .error _ fun hpre => hused (h.supplied.free hpre)
  · exact .ok (h.mono (Nat.le_refl n) (Nat.le_succ r))

/-- A request for a timer needs an entry. -/
theorem queuedTimer {q : EventQueuedTimer} (h : Working pre ctx ti start qs n k (r + 1) w)
    (hq : q ∈ es.timer) (hk : pre → k ≤ 512) :
    Delivers pre (w.queuedTimer 0 ctx ti q) (Working pre ctx ti start qs n k r) := by
  unfold World.queuedTimer
  split
  · rename_i hsqe
    obtain ⟨-, hfree⟩ := hsqe
    split
    · rename_i data hdata
      simp only
      split
      · refine .ok (h.request (.removeTimer w q data hq hfree hdata) (fun _ => rfl) rfl ?_)
        rw [removeTimer, noteTimer, threads_note, addRequest, prepare, threads_setThread_self]
        exact List.length_append
      · rename_i htime
        refine .ok (h.request (.updateTimer w q data hq hfree hdata htime) (fun _ => rfl) rfl ?_)
        rw [updateTimer, noteTimer, threads_note, addRequest, prepare, threads_setThread_self,
          threads_setThread_self]
        exact List.length_append
    · rename_i hnone
      have hsame : SameCore 0 w (w.addTimer 0 ctx ti q) := (SameCore.refl 0 w).addTimer q
      have hslots := hsame.subEvents
      refine .ok (h.request (.addTimer w q hq hfree hnone) hslots rfl ?_)
      rw [addTimer, noteTimer, threads_note, addRequest, prepare, threads_setThread_self,
        threads_setThread_self]
      exact List.length_append
  · rename_i hno
    refine .error _ fun hpre => hno ⟨?_, h.supplied.free hpre⟩
    have hring := h.ring
    have hle := hk hpre
    unfold HasSqe
    omega

/-- The object to delete is on the first thread. -/
theorem queuedDelete {q : EventQueuedDelete} (h : Working pre ctx ti start qs n k r w)
    (hq : q ∈ es.delete) (hthread : q.thread = [0]) :
    Delivers pre (w.queuedDelete 0 ti q) (Working pre ctx ti start qs n k r) := by
  have hlt : 0 < w.size := by
    rw [h.size]
    exact Nat.one_pos
  have hmem : 0 ∈ q.thread := by
    rw [hthread]
    exact List.mem_cons_self
  have hpushed := h.queued (.delete w q 0 hq hmem hlt) (fun _ => rfl) h.supplied h.ring
  simp only [World.queuedDelete, hthread, pushDeletes, push, if_pos hlt]
  refine .ok (hpushed.queued (.dropChild _ q hq) (fun _ => rfl) hpushed.supplied ?_)
  rw [dropChild, threads_setThread_self]
  exact hpushed.ring

theorem queuedAttach {q : EventQueuedAttach} (h : Working pre ctx ti start qs n k r w)
    (hq : q ∈ es.attach) : Working pre ctx ti start qs n k r (w.queuedAttach 0 ctx ti q) := by
  refine h.queued (.attach w q hq) (fun _ => rfl) h.supplied ?_
  rw [World.queuedAttach, threads_note, threads_setThread_self]
  exact h.ring

end Working

/-- What one round keeps of what is to come, a loop over a list keeps. -/
theorem each_delivers {α : Type} {f : World V σ → α → Except Fault (World V σ)} {l : List α}
    {I : List α → World V σ → Prop} (hw : I l w)
    (hf : ∀ a ∈ l, ∀ rest w, I (a :: rest) w → Delivers pre (f w a) (I rest)) :
    Delivers pre (each f l w) (I []) := by
  induction l generalizing w with
  | nil => exact .ok hw
  | cons a l ih =>
    have hround := hf a List.mem_cons_self l w hw
    simp only [each]
    refine hround.next (fun e hstep => by rw [hstep]) fun w' hstep hw' => ?_
    rw [hstep]
    exact ih hw' fun b hb => hf b (List.mem_cons_of_mem _ hb)

/-- `process_queued` returns, if the thread has load to spare, memory is free, the ring has room for the
timers, and calls are for slots that are there. -/
theorem processQueued_delivers {k : Nat} (h : Working pre ctx ti w es.construct
      (es.construct.length + es.function.length) k (es.uring.length + es.timer.length) w)
    (hidx : pre → ∀ q ∈ es.function, q.vidx < ((w.contexts ctx).slots q.idx).length)
    (hroom : pre → es.timer = [] ∨ k ≤ 512) (hthread : ∀ q ∈ es.delete, q.thread = [0]) :
    Delivers pre (w.processQueued 0 ctx ti es) (Working pre ctx ti w [] 0 k 0) := by
  unfold processQueued
  let r := es.uring.length + es.timer.length
  refine .bind (Q := Working pre ctx ti w [] es.function.length k r) ?_ fun w₁ h₁ => ?_
  · have hloop : Delivers pre (each (queuedConstruct 0 ctx ti) es.construct w)
        (Working pre ctx ti w [] (0 + es.function.length) k r) :=
      each_delivers (I := fun l => Working pre ctx ti w l (l.length + es.function.length) k r) h
        fun q hq rest w' hw' => by
          rw [List.length_cons, Nat.add_right_comm] at hw'
          exact hw'.queuedConstruct hq
    rw [Nat.zero_add] at hloop
    exact hloop
  refine .bind (Q := Working pre ctx ti w [] 0 k r) ?_ fun w₂ h₂ => ?_
  · exact each_delivers (I := fun l => Working pre ctx ti w [] l.length k r) h₁
      fun q hq rest w' hw' => hw'.queuedFunction hq fun hpre => hidx hpre q hq
  refine .bind (Q := Working pre ctx ti w [] 0 k es.timer.length) ?_ fun w₃ h₃ => ?_
  · have hloop : Delivers pre (each (queuedUring 0 ti) es.uring w₂)
        (Working pre ctx ti w [] 0 k (0 + es.timer.length)) :=
      each_delivers (I := fun l => Working pre ctx ti w [] 0 k (l.length + es.timer.length)) h₂
        fun q hq rest w' hw' => by
          rw [List.length_cons, Nat.add_right_comm] at hw'
          exact hw'.queuedUring hq
    rw [Nat.zero_add] at hloop
    exact hloop
  refine .bind (Q := Working pre ctx ti w [] 0 k 0) ?_ fun w₄ h₄ => ?_
  · refine each_delivers (I := fun l => Working pre ctx ti w [] 0 k l.length) h₃
      fun q hq rest w' hw' => hw'.queuedTimer hq fun hpre => ?_
    refine (hroom hpre).resolve_left fun hnil => ?_
    rw [hnil] at hq
    exact absurd hq List.not_mem_nil
  refine .bind (Q := Working pre ctx ti w [] 0 k 0) ?_ fun w₅ h₅ => ?_
  · exact each_delivers (I := fun _ => Working pre ctx ti w [] 0 k 0) h₄
      fun q hq rest w' hw' => hw'.queuedDelete hq (hthread q hq)
  · exact each_delivers (I := fun _ => Working pre ctx ti w [] 0 k 0) h₅
      fun q hq rest w' hw' => .ok (hw'.queuedAttach hq)

end World

end LocalSoftware
