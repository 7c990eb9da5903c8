import LocalSoftware.Common.FamilyRuns
import LocalSoftware.Common.LocalIds
import LocalSoftware.Common.TimerKeys

/-!
# Local and global identifiers along a run

The invariant of `LocalIds` through `process_queued`, the messages of the worker thread and the other
actions. `idsTranslated_of_cancelsKnown` says what follows for `on_yield`: a `ChildTaskCompletion`
carries the identifiers of its call, and a `Timeout` that of its timer, in every run in which no
handler cancels a timer without an entry.
-/

set_option autoImplicit false

namespace LocalSoftware

variable {V : Vocabulary} {σ : Type}

/-- Each identifier that is cancelled is in the table or in an earlier entry. -/
def KnowsCancelled (table : Id → Bool) : List EventQueuedTimer → Prop
  | [] => True
  | q :: qs => (q.cancels = true → table q.localId = true) ∧
      KnowsCancelled (fun l => l == q.localId || table l) qs

instance instDecidableKnowsCancelled (table : Id → Bool) :
    (qs : List EventQueuedTimer) → Decidable (KnowsCancelled table qs)
  | [] => isTrue trivial
  | q :: qs =>
    have := instDecidableKnowsCancelled (fun l => l == q.localId || table l) qs
    inferInstanceAs (Decidable ((q.cancels = true → table q.localId = true) ∧ _))

namespace World

variable {genuine : Prop} {known known' : List Id} {w w' w'' : World V σ} {ctx : Nat}
  {ti : TargetInfo} {es : EventState V} {m : EventVariant V} {rest : List (EventVariant V)}
  {P : Program V σ}

/-! ## The updates of `process_queued` -/

/-- The timer of a local identifier is in the table. -/
def hasTimer (w : World V σ) (ctx : Nat) (l : Id) : Bool :=
  ((w.threads 0).timers ((w.contexts ctx).translateTimLocal l)).isSome

/-- Constructions, calls and requests have no part in the timers. -/
theorem Queued.hasTimer_eq (h : Queued 0 ctx ti es w w') (hes : es.timer = []) (ctx' : Nat) :
    w'.hasTimer ctx' = w.hasTimer ctx' := by
  have htable : (w'.contexts ctx').localTimToGlobalTim = (w.contexts ctx').localTimToGlobalTim := by
    cases h with
    | child q runThread _ =>
      rw [contexts_addChild]
      split
      · rename_i heq
        rw [heq]
        rfl
      · rfl
    | call q info locator target _ _ _ _ _ =>
      rw [contexts_addCall]
      split
      · rename_i heq
        rw [heq]
        rfl
      · rfl
    | removeTimer q data hq _ _ => exact absurd (hes ▸ hq) List.not_mem_nil
    | updateTimer q data hq _ _ _ => exact absurd (hes ▸ hq) List.not_mem_nil
    | addTimer q hq _ _ => exact absurd (hes ▸ hq) List.not_mem_nil
    | _ => rfl
  funext l
  rw [hasTimer, hasTimer, IoUringData.translateTimLocal, IoUringData.translateTimLocal,
    h.timers_eq hes 0, htable]

namespace NameInv

theorem addChild (h : NameInv genuine known w) (hctx : w.ctxOf ti.objId = some ctx)
    (q : EventQueuedConstruct V) (runThread : Nat) :
    NameInv genuine known (w.addChild 0 ctx ti q runThread) := by
  let v : World V σ := { w with objIds := (getId w.objIds (some 0)).2 }.setContext ctx
    ((w.contexts ctx).setLocator q.idx q.vidx
      { objectId := (getId w.objIds (some 0)).1, threadId := [runThread] })
  have hids : SameNames w { w with objIds := (getId w.objIds (some 0)).2 } :=
    { SameNames.refl w with }
  have hcontext : SameNames w v :=
    hids.setContext ((IoUringData.SameTables.refl _).setSlots _ _)
  have hobject : SameNames w (v.setThread 0 ((v.threads 0).setObject ti.objId
      { (w.threads 0).object ti.objId with
        children := setChild ((w.threads 0).object ti.objId).children (getId w.objIds (some 0)).1
          fun _ => {} })) := hcontext.setObject rfl
  refine NameInv.enqueue (h.same hobject) fun ctx' hctx' => ?_
  -- the context is passed on, or a new one will be made
  change (if q.shared then some ctx else none) = some ctx' at hctx'
  split at hctx'
  · obtain rfl := Option.some.inj hctx'
    exact (h.objects hctx).2
  · cases hctx'

/-- The global identifier of a timer, if it has one. -/
theorem translateTimLocal (h : NameInv genuine known w) (l : Id) :
    (w.contexts ctx).translateTimLocal l = none ∨
      Taken w.timIds ((w.contexts ctx).translateTimLocal l) := by
  unfold IoUringData.translateTimLocal
  cases hl : (w.contexts ctx).localTimToGlobalTim l with
  | none => exact Or.inl rfl
  | some g => exact Or.inr (h.timersBack hl)

/-- What is left after the calls and the timers. -/
theorem queued (h : NameInv genuine known w) (hctx : w.ctxOf ti.objId = some ctx)
    (hfunction : es.function = []) (htimer : es.timer = []) (hattach : es.attach = [])
    (hq : Queued 0 ctx ti es w w') : NameInv genuine known w' := by
  cases hq with
  | decision => exact h.same { SameNames.refl w with }
  | child q runThread _ => exact h.addChild hctx q runThread
  | call q info locator target hq _ _ _ _ => exact absurd (hfunction ▸ hq) List.not_mem_nil
  | uring q _ _ =>
    exact h.same ((SameNames.refl w).addRequest 0 _ fun _ _ _ => IoUringAttached.noConfusion)
  | removeTimer q data hq _ _ => exact absurd (htimer ▸ hq) List.not_mem_nil
  | updateTimer q data hq _ _ _ => exact absurd (htimer ▸ hq) List.not_mem_nil
  | addTimer q hq _ _ => exact absurd (htimer ▸ hq) List.not_mem_nil
  | delete q thread _ _ hthread =>
    obtain rfl : thread = 0 := Nat.lt_one_iff.mp (h.size ▸ hthread)
    exact h.enqueue trivial
  | dropChild q _ => exact h.same ((SameNames.refl w).setObject rfl)
  | attach q hq => exact absurd (hattach ▸ hq) List.not_mem_nil

end NameInv

/-- What the stages of `process_queued` need of the world before them. -/
structure Stage (genuine : Prop) (known : List Id) (ctx : Nat) (ti : TargetInfo) (table : Id → Bool)
    (w : World V σ) : Prop where
  inv : NameInv genuine known w
  object : w.ctxOf ti.objId = some ctx
  timers : ∀ l, table l = true → w.hasTimer ctx l = true

namespace Stage

variable {table : Id → Bool}

/-- A stage that calls nothing and sets no timer. -/
theorem queued (h : Stage genuine known ctx ti table w) (hfunction : es.function = [])
    (htimer : es.timer = []) (hattach : es.attach = []) (hq : Queued 0 ctx ti es w w') :
    Stage genuine known ctx ti table w' where
  inv := h.inv.queued h.object hfunction htimer hattach hq
  object := (congrFun (hq.ctxAt_eq h.object) _).trans h.object
  timers l hl := by
    rw [hq.hasTimer_eq htimer]
    exact h.timers l hl

/-- The constructions leave the tables of identifiers as they are. -/
theorem constructs {qs : List (EventQueuedConstruct V)} (h : Stage genuine known ctx ti table w)
    (heach : each (queuedConstruct 0 ctx ti) qs w = .ok w') :
    Stage genuine known ctx ti table w' ∧
      IoUringData.SameTables (w.contexts ctx) (w'.contexts ctx) := by
  refine each_invariant (I := fun w₁ => Stage genuine known ctx ti table w₁ ∧
    IoUringData.SameTables (w.contexts ctx) (w₁.contexts ctx)) heach ⟨h, .refl _⟩ ?_
  rintro q hq w₁ w₂ ⟨hstage, htables⟩ hstep
  rcases queuedConstruct_cases hstep with rfl | ⟨runThread, rfl⟩
  · exact ⟨hstage, htables⟩
  · let only : EventState V := { construct := [q] }
    have hdecision : Queued 0 ctx ti only w₁ w₁.decided := .decision w₁
    have hchild : Queued 0 ctx ti only w₁.decided (w₁.decided.addChild 0 ctx ti q runThread) :=
      .child w₁.decided q runThread List.mem_cons_self
    refine ⟨(hstage.queued rfl rfl rfl hdecision).queued rfl rfl rfl hchild, ?_⟩
    rw [contexts_addChild, if_pos rfl]
    exact htables.setSlots _ _

/-- The calls: their local identifiers are beyond those that the context translates. -/
theorem functions {qs : List (EventQueuedFunction V)} {n : Nat}
    (h : Stage genuine known ctx ti table w) (hnumbered : NumberedFrom n qs)
    (hcounter : n + qs.length ≤ (w.contexts ctx).localProcId)
    (hbelow : ∀ {l g}, (w.contexts ctx).localProcToGlobalProc l = some g → ∃ k < n, l = some k)
    (heach : each (queuedFunction 0 ctx ti) qs w = .ok w') :
    Stage genuine known ctx ti table w' := by
  -- on the calls, with the next local identifier
  induction qs generalizing w n with
  | nil =>
    obtain rfl := Except.ok.inj heach
    exact h
  | cons q qs ih =>
    have hq : q.localId = some n := hnumbered (k := 0) rfl
    have hcounter' : n + 1 + qs.length ≤ (w.contexts ctx).localProcId := by
      rw [List.length_cons] at hcounter
      omega
    have hbelow' : ∀ {l g}, (w.contexts ctx).localProcToGlobalProc l = some g →
        ∃ k < n + 1, l = some k := by
      intro l g hl
      obtain ⟨k, hk, hlk⟩ := hbelow hl
      exact ⟨k, Nat.lt_succ_of_lt hk, hlk⟩
    simp only [each] at heach
    split at heach
    · cases heach
    · rename_i w₁ hstep
      obtain ⟨-, rfl⟩ | ⟨info, locator, target, hslot, hlocator, hfind, htarget, rfl⟩ :=
        queuedFunction_eq_ok hstep
      · exact ih h hnumbered.tail hcounter' hbelow' heach
      · obtain rfl : target = 0 := Nat.lt_one_iff.mp (h.inv.size ▸ htarget)
        let only : EventState V := { function := [q] }
        have hdecision : Queued 0 ctx ti {} w w.decided := .decision w
        have hdecided := h.queued rfl rfl rfl hdecision
        have hstep' : Queued 0 ctx ti only w.decided
            (w.decided.addCall 0 ctx ti q locator.objectId 0) :=
          .call w.decided q info locator 0 List.mem_cons_self
            (IoUringData.slot_eq_some_iff.mp hslot) hlocator
            (fun r hr => findTargetThread_singleton (hr ▸ hfind)) htarget
        -- the local identifier is issued, and not translated yet
        have hback : (w.contexts ctx).localProcToGlobalProc q.localId = none := by
          by_contra hne
          obtain ⟨g, hg⟩ := Option.ne_none_iff_exists'.mp hne
          obtain ⟨k, hk, hlk⟩ := hbelow hg
          rw [hq] at hlk
          exact absurd (Option.some.inj hlk) (Nat.ne_of_gt hk)
        have hcall : NameInv genuine known (w.decided.addCall 0 ctx ti q locator.objectId 0) :=
          hdecided.inv.addCall hdecided.object
            ⟨n, Nat.lt_of_lt_of_le (Nat.lt_succ_self n) (Nat.le_trans (Nat.le_add_right _ _) hcounter'),
              hq⟩ hback locator.objectId
        have hstage : Stage genuine known ctx ti table
            (w.decided.addCall 0 ctx ti q locator.objectId 0) := {
          inv := hcall
          object := (congrFun (hstep'.ctxAt_eq hdecided.object) _).trans hdecided.object
          timers := fun l hl => by
            rw [hstep'.hasTimer_eq rfl]
            exact hdecided.timers l hl }
        refine ih hstage hnumbered.tail ?_ (fun {l g} hl => ?_) heach
        · rw [contexts_addCall, if_pos rfl]
          exact hcounter'
        · rw [contexts_addCall, if_pos rfl] at hl
          simp only [IoUringData.globalToLocal, Function.update_apply] at hl
          split at hl
          · rename_i heq
            exact ⟨n, Nat.lt_succ_self n, heq.trans hq⟩
          · exact hbelow' hl

/-- An entry for a timer: one that cancels is known, so that it sets no timer. -/
theorem timer {q : EventQueuedTimer} (h : Stage genuine known ctx ti table w)
    (hq : genuine → q.cancels = true → table q.localId = true)
    (hstep : w.queuedTimer 0 ctx ti q = .ok w') :
    Stage genuine known ctx ti (fun l => l == q.localId || table l) w' := by
  have hobject : w'.ctxOf ti.objId = some ctx := ctxAt_queuedTimer h.object hstep
  -- the entry of `q` is in the table afterwards, and those that were there before
  have htable : ∀ {w' : World V σ}, w'.hasTimer ctx q.localId = true →
      (∀ l, l ≠ q.localId → w.hasTimer ctx l = true → w'.hasTimer ctx l = true) →
      ∀ l, (l == q.localId || table l) = true → w'.hasTimer ctx l = true := by
    intro w' hself hothers l hl
    by_cases heq : l = q.localId
    · exact heq ▸ hself
    · rw [beq_false_of_ne heq, Bool.false_or] at hl
      exact hothers l heq (h.timers l hl)
  unfold queuedTimer at hstep
  split at hstep
  · split at hstep
    · rename_i data hdata
      have hself : w.hasTimer ctx q.localId = true := Option.isSome_iff_exists.mpr ⟨data, hdata⟩
      split at hstep
      · obtain rfl := Except.ok.inj hstep
        refine ⟨(h.inv.same ((SameNames.refl w).addRequest 0 _
          fun _ _ _ => IoUringAttached.noConfusion)).noteTimer q (h.inv.translateTimLocal _), hobject, ?_⟩
        have hsame : (w.removeTimer 0 ti q ((w.contexts ctx).translateTimLocal q.localId)
            data).hasTimer ctx = w.hasTimer ctx := by
          funext l
          exact congrArg (fun timers : Id → Option TimerData =>
            (timers ((w.contexts ctx).translateTimLocal l)).isSome) (timers_addRequest w 0 0 _ _)
        rw [← hsame] at hself
        exact htable hself fun l _ hl => hsame ▸ hl
      · obtain rfl := Except.ok.inj hstep
        have htables : SameNames w (w.setThread 0 { w.threads 0 with
            timers := Function.update (w.threads 0).timers
              ((w.contexts ctx).translateTimLocal q.localId) (some { data with ts := q.time }) }) :=
          (SameNames.refl w).setTables rfl rfl rfl
        refine ⟨(h.inv.same (htables.addRequest 0 _
          fun _ _ _ => IoUringAttached.noConfusion)).noteTimer q (h.inv.translateTimLocal _), hobject, ?_⟩
        have hsame : ∀ l, w.hasTimer ctx l = true → (w.updateTimer 0 ti q
            ((w.contexts ctx).translateTimLocal q.localId) data).hasTimer ctx l = true := by
          intro l hl
          refine Eq.trans (congrArg (fun timers : Id → Option TimerData =>
            (timers ((w.contexts ctx).translateTimLocal l)).isSome) (timers_addRequest _ 0 0 _ _)) ?_
          rw [threads_setThread_self]
          simp only [Function.update_apply]
          split
          · rfl
          · exact hl
        exact htable (hsame _ hself) fun l _ hl => hsame l hl
    · rename_i hnone
      obtain rfl := Except.ok.inj hstep
      -- the entry is that of a call of `timer`, or the run is not genuine
      have hset : genuine → q.cancels = false := by
        intro hgenuine
        cases hcancels : q.cancels with
        | false => rfl
        | true =>
          have hhas := h.timers _ (hq hgenuine hcancels)
          rw [hasTimer, hnone] at hhas
          cases hhas
      have hadded : ∀ l, (w.addTimer 0 ctx ti q).hasTimer ctx l =
          (Function.update (w.threads 0).timers (getId w.timIds (some 0)).1
            (some { ptr := w.malloc w.mallocs, objId := ti.objId, ts := q.time })
              (((w.contexts ctx).globalToLocalTim (getId w.timIds (some 0)).1
                q.localId).translateTimLocal l)).isSome := by
        intro l
        rw [hasTimer, contexts_addTimer, if_pos rfl, addTimer_eq]
        simp only [noteTimer, threads_note, threads_setThread_self]
      refine ⟨h.inv.addTimer h.object hset, hobject, htable ?_ fun l hne hl => ?_⟩
      · rw [hadded]
        simp only [IoUringData.translateTimLocal, IoUringData.globalToLocalTim, Function.update_self,
          Option.getD_some, Option.isSome_some]
      · rw [hadded]
        simp only [IoUringData.translateTimLocal, IoUringData.globalToLocalTim,
          Function.update_of_ne hne, Function.update_apply]
        split
        · rfl
        · exact hl
  · cases hstep

/-- The entries for timers, each of which makes its identifier known. -/
theorem setTimers {qs : List EventQueuedTimer} (h : Stage genuine known ctx ti table w)
    (hqs : genuine → KnowsCancelled table qs)
    (heach : each (queuedTimer 0 ctx ti) qs w = .ok w') :
    NameInv genuine known w' ∧ w'.ctxOf ti.objId = some ctx := by
  induction qs generalizing w table with
  | nil =>
    obtain rfl := Except.ok.inj heach
    exact ⟨h.inv, h.object⟩
  | cons q qs ih =>
    simp only [each] at heach
    split at heach
    · cases heach
    · rename_i w₁ hstep
      exact ih (h.timer (fun hgenuine => (hqs hgenuine).1) hstep) (fun hgenuine => (hqs hgenuine).2)
        heach

end Stage

/-- A local identifier that is translated was given by the context. -/
theorem NameInv.below (h : NameInv genuine known w) {l g : Id}
    (hl : (w.contexts ctx).localProcToGlobalProc l = some g) :
    ∃ k < (w.contexts ctx).localProcId, l = some k :=
  (h.issued ((h.inverse ctx g l).mpr hl)).2

/-- `process_queued` after a handler that began with the context `d`. -/
theorem NameInv.processQueued {d : IoUringData V} (h : NameInv genuine known w)
    (hctx : w.ctxOf ti.objId = some ctx) (hleaves : Leaves d es)
    (htables : IoUringData.SameTables es.uringData (w.contexts ctx))
    (hbelow : ∀ {l g}, d.localProcToGlobalProc l = some g → ∃ k < d.localProcId, l = some k)
    (htimer : genuine → KnowsCancelled (w.hasTimer ctx) es.timer)
    (hqueued : w.processQueued 0 ctx ti es = .ok w') : NameInv genuine known w' := by
  unfold World.processQueued at hqueued
  obtain ⟨w₁, h₁, hqueued⟩ := bind_eq_ok hqueued
  obtain ⟨w₂, h₂, hqueued⟩ := bind_eq_ok hqueued
  obtain ⟨w₃, h₃, hqueued⟩ := bind_eq_ok hqueued
  obtain ⟨w₄, h₄, hqueued⟩ := bind_eq_ok hqueued
  obtain ⟨w₅, h₅, hattach⟩ := bind_eq_ok hqueued
  have hstage : Stage genuine known ctx ti (w.hasTimer ctx) w := ⟨h, hctx, fun _ hl => hl⟩
  obtain ⟨hstage, hsame⟩ := hstage.constructs h₁
  -- the calls have the local identifiers from the counter of `d` on
  have hafter := htables.trans hsame
  have hstage := hstage.functions hleaves.numbered
    (Nat.le_trans (Nat.le_of_eq hleaves.counter.symm) hafter.counter)
    (fun {l g} hl => by
      rw [hafter.procsBack, hleaves.tables.procsBack] at hl
      exact hbelow hl) h₂
  let requests : EventState V := { uring := es.uring }
  have huring : Relation.ReflTransGen (Queued 0 ctx ti requests) w₂ w₃ :=
    each_queued (fun q (hq : q ∈ requests.uring) _ _ => queuedUring_queued hq) h₃
  have hstage := transGen_invariant huring hstage fun _ _ h hq => h.queued rfl rfl rfl hq
  have hinv := hstage.setTimers htimer h₄
  let deletes : EventState V := { delete := es.delete }
  have hdelete : Relation.ReflTransGen (Queued 0 ctx ti deletes) w₄ w₅ :=
    each_queued (fun q (hq : q ∈ deletes.delete) _ _ => queuedDelete_queued hq) h₅
  have hinv := transGen_invariant (I := fun w => NameInv genuine known w ∧ w.ctxOf ti.objId = some ctx)
    hdelete hinv fun _ _ h hq => ⟨h.1.queued h.2 rfl rfl rfl hq,
      (congrFun (hq.ctxAt_eq h.2) _).trans h.2⟩
  rw [hleaves.attach] at hattach
  obtain rfl := Except.ok.inj hattach
  exact hinv.1

/-! ## The messages -/

namespace SameNames

theorem pop (hq : w.queues 0 = m :: rest) : SameNames w (w.pop 0 rest) :=
  { refl w with
    queue := by
      rw [queues_pop, if_pos rfl, hq]
      exact List.subset_cons_self m rest }

theorem afterHandler (h : SameNames w w')
    (hes : IoUringData.SameTables (w'.contexts ctx) es.uringData) (heap : σ) :
    SameNames w (w'.afterHandler ctx es heap) :=
  (h.setContext hes).trans { refl _ with }

theorem fillSlot {slot : Option (Id × V.TypeIndex × Nat)} {id : Id} (h : SameNames w w')
    (hslot : w'.fillSlot 0 slot id = .ok w'') : SameNames w w'' := by
  obtain ⟨-, rfl⟩ | ⟨parent, ty, idx, ctx', info, -, -, -, rfl⟩ := fillSlot_cases hslot
  · exact h
  · exact h.setContext ((IoUringData.SameTables.refl _).setSlots _ _)

theorem erase (h : SameNames w w') (P : Program V σ) (id : Id) :
    SameNames w (w'.erase P 0 id) := by
  have hheap : ∀ heap : σ, SameNames w' { w' with heap } := fun _ => { refl w' with }
  simp only [World.erase]
  refine SameNames.note (SameNames.setThread (h.trans (hheap _)) (fun {o ctx} ho => ?_)
    (fun {p c} hp => ?_) ?_) ?_
  · simp only [Function.update_apply] at ho
    split at ho
    · cases ho
    · exact ho
  · simp only at hp
    split at hp
    · cases hp
    · exact hp
  · rfl
  · trivial

end SameNames

namespace NameInv

/-- Objects may be known that were never constructed. -/
theorem weaken (h : NameInv genuine known w) (hknown : known ⊆ known') :
    NameInv genuine known' w :=
  { h with
    objects := fun ho => (h.objects ho).imp_left fun hmem => hknown hmem
    calls := fun hmem => (h.calls hmem).imp_left fun hmem => hknown hmem
    messages := fun hm => (Onward.refl known w).readable hknown (h.messages hm)
    attachments := fun ha => (Onward.refl known w).knowsTimer hknown (h.attachments ha) }

/-- The result of a procedure is entered, and its caller is told. -/
theorem tell (h : NameInv genuine known w) {p : Id} {d old : CallDataThreaded}
    (hold : (w.threads 0).procToDat p = some old) (hd : d.backNotify = old.backNotify)
    (status : CallStatus) (code : Int) (callerObj callerProc : Id)
    (hcaller : ∃ l, .called 0 callerObj callerProc p l ∈ w.log) (o : Id) :
    NameInv genuine known (((w.setThread 0 ((w.threads 0).setProc p d)).note
      (.reported p status code)).enqueue 0
        (.data (completion 0 ⟨o, p⟩ callerObj callerProc status code))) := by
  obtain ⟨l, hl⟩ := hcaller
  refine NameInv.enqueue (h.same (((SameNames.refl w).setProc hold hd).note trivial)) ?_
  exact ⟨rfl, l, List.mem_append_left _ hl⟩

theorem respond {f : FunctionCall V} {resp : CallResponse} {old : CallDataThreaded}
    (h : NameInv genuine known w) (hold : (w.threads 0).procToDat f.ti.procId = some old)
    (hback : old.backNotify = (f.ci.threadId, f.ci.objId, f.ci.procId))
    (hrespond : w.respond 0 f resp = .ok w') : NameInv genuine known w' := by
  have hproc : (w.threads 0).proc f.ti.procId = old := by rw [ThreadData.proc, hold]; rfl
  obtain ⟨d, hd, -, ⟨-, rfl⟩ | ⟨failed, code, -, ⟨-, rfl⟩ | ⟨t', ht', hlt, rfl⟩⟩⟩ :=
    respond_cases hrespond
  · exact h.same ((SameNames.refl w).setProc hold (hproc ▸ hd))
  · exact h.same (((SameNames.refl w).setProc hold (hproc ▸ hd)).note trivial)
  · obtain rfl : t' = 0 := Nat.lt_one_iff.mp (h.size ▸ hlt)
    have hcaller : w.enteredCaller 0 f.ti.procId =
        some (f.ci.threadId, f.ci.objId, f.ci.procId) := by
      rw [enteredCaller, hold, Option.map_some, hback]
    refine h.tell hold (hproc ▸ hd) _ code f.ci.objId f.ci.procId ?_ _
    exact h.callers hcaller (ht' ▸ Option.some_ne_none _)

theorem report {y : Yielded} {old : CallDataThreaded} (h : NameInv genuine known w)
    (hold : (w.threads 0).procToDat ti.procId = some old) (hreport : w.report 0 ti y = .ok w') :
    NameInv genuine known w' := by
  have hproc : (w.threads 0).proc ti.procId = old := by rw [ThreadData.proc, hold]; rfl
  obtain ⟨-, rfl⟩ | ⟨failed, code, t', -, hthread, hlt, rfl⟩ := report_cases hreport
  · exact h
  · obtain rfl : t' = 0 := Nat.lt_one_iff.mp (h.size ▸ hlt)
    have hcaller : w.enteredCaller 0 ti.procId = some old.backNotify := by
      rw [enteredCaller, hold, Option.map_some]
    rw [hproc] at hthread ⊢
    refine h.tell (d := { old with status := resultStatus failed }) hold rfl _ code
      old.backNotify.2.1 old.backNotify.2.2 ?_ _
    exact h.callers hcaller (hthread ▸ Option.some_ne_none _)

/-- An event that its target can translate leaves the context as it is. -/
theorem mapEventData (h : NameInv genuine known w) {d : Data}
    (hd : w.ReadableEvent genuine known d.ti d.data) (hctx : w.ctxOf d.ti.objId = some ctx) :
    ((w.contexts ctx).mapEventData d.data).2 = w.contexts ctx ∧
      Translated genuine w.log d ((w.contexts ctx).mapEventData d.data).1 := by
  obtain ⟨ci, ti, event, copy⟩ := d
  cases event with
  | childTaskCompletion c =>
    obtain ⟨hcalling, l, hl⟩ := hd
    have hentry := ((h.calls hl).2.2 ctx hctx).2
    simp only [IoUringData.mapEventData, IoUringData.subscript, hentry]
    exact ⟨trivial, c.taskId, rfl, hcalling ▸ hl⟩
  | timeout g =>
    obtain ⟨-, l, hl, hset⟩ := hd
    have hentry := (hl ctx hctx).2
    simp only [IoUringData.mapEventData, IoUringData.subscript, hentry]
    exact ⟨trivial, fun hgenuine => ⟨g, rfl, hset hgenuine⟩⟩
  | callStarted id => exact hd.elim
  | ioUringResult r => exact ⟨rfl, trivial⟩
  | wakeup id => exact ⟨rfl, trivial⟩

end NameInv

/-- The timer of a local identifier of the context `d` is in the table of a thread. -/
def hasEntry (w : World V σ) (t : Nat) (d : IoUringData V) (l : Id) : Bool :=
  ((w.threads t).timers (d.translateTimLocal l)).isSome

theorem hasTimer_eq_hasEntry {d : IoUringData V}
    (htimers : (w'.threads 0).timers = (w.threads 0).timers)
    (hd : IoUringData.SameTables d (w'.contexts ctx)) : w'.hasTimer ctx = w.hasEntry 0 d := by
  funext l
  rw [hasTimer, hasEntry, IoUringData.translateTimLocal, IoUringData.translateTimLocal, htimers,
    hd.timsBack]

theorem contexts_afterHandler (heap : σ) :
    (w.afterHandler ctx es heap).contexts ctx = es.uringData := Function.update_self ..

/-- An object is constructed, with all that its constructor queued. -/
theorem NameInv.constructed {c : ConstructorCall V} {heap : σ} {w₁ w₂ w₃ : World V σ}
    (h : NameInv genuine known w) (hP : P.WithoutAttach)
    (hq : w.queues 0 = .constructorCall c :: rest) (hfresh : c.ti.objId ∉ known)
    (htake : (w.pop 0 rest).takeContext c.uringData = (ctx, w₁))
    (hrun : (P.construct c.constructor.fn c.ti.objId w₁.heap).run
      { uringData := w₁.contexts ctx } = .ok (heap, es))
    (hslot : (w₁.afterHandler ctx es heap).fillSlot 0 c.constructor.slot c.ti.objId = .ok w₂)
    (htimer : genuine → KnowsCancelled (w.hasEntry 0 es.uringData) es.timer)
    (hqueued : (w₂.setThread 0 ((w₂.threads 0).setObject c.ti.objId
      { ptr := some ctx })).processQueued 0 ctx c.ti es = .ok w₃) :
    NameInv genuine (known ++ [c.ti.objId]) w₃ := by
  have hc : w.Readable genuine known (.constructorCall c) :=
    h.messages (hq ▸ List.mem_cons_self)
  obtain ⟨hinv₁, hlt⟩ := (h.same (.pop hq)).takeContext hc htake
  have hleaves := Leaves.run (hP.construct _ _ _) hrun
  have hfill := (SameNames.refl (w₁.afterHandler ctx es heap)).fillSlot hslot
  have hsame : SameNames w₁ w₂ := ((SameNames.refl w₁).afterHandler hleaves.tables heap).trans hfill
  have hinv₂ := (hinv₁.same hsame).newObject hfresh (Nat.lt_of_lt_of_le hlt hsame.nextContext)
  have htables : IoUringData.SameTables es.uringData (w₂.contexts ctx) :=
    contexts_afterHandler (w := w₁) heap ▸ hfill.contexts ctx
  refine hinv₂.processQueued ?_ hleaves htables hinv₁.below (fun hgenuine => ?_) hqueued
  · rw [ctxOf, threads_setThread_self, ThreadData.objInfo_setObject, if_pos rfl]
    rfl
  · have htimers : ((w₂.setThread 0 ((w₂.threads 0).setObject c.ti.objId
        { ptr := some ctx })).threads 0).timers = (w.threads 0).timers := by
      rw [threads_setThread_self, (filled_same htake hslot).threads]
      rfl
    exact hasTimer_eq_hasEntry htimers htables ▸ htimer hgenuine

/-- What a function or `on_yield` queued. -/
theorem NameInv.ran {heap : σ} (h : NameInv genuine known w) (hctx : w.ctxOf ti.objId = some ctx)
    (hleaves : Leaves (w.contexts ctx) es)
    (htimer : genuine → KnowsCancelled (w.hasEntry 0 es.uringData) es.timer)
    (hqueued : (w.afterHandler ctx es heap).processQueued 0 ctx ti es = .ok w') :
    NameInv genuine known w' := by
  have hinv := h.same ((SameNames.refl w).afterHandler hleaves.tables heap)
  have htables : IoUringData.SameTables es.uringData ((w.afterHandler ctx es heap).contexts ctx) := by
    rw [contexts_afterHandler]
    exact .refl _
  have hsame : (w.afterHandler ctx es heap).hasTimer ctx = w.hasEntry 0 es.uringData :=
    hasTimer_eq_hasEntry rfl htables
  exact hinv.processQueued hctx hleaves htables h.below (fun hgenuine => hsame ▸ htimer hgenuine)
    hqueued

/-- A function is called. -/
theorem NameInv.called {f : FunctionCall V} {o : ObjectDataThreaded} {resp : CallResponse}
    {heap : σ} {w₂ w₃ : World V σ} (h : NameInv genuine known w) (hP : P.WithoutAttach)
    (hq : w.queues 0 = .functionCall f :: rest)
    (ho : (w.threads 0).objInfo f.ti.objId = some o) (hptr : o.ptr = some ctx)
    (hrun : (P.function f.call f.ti.objId f.ti.procId w.heap).run
      { uringData := w.contexts ctx } = .ok ((resp, heap), es))
    (htimer : genuine → KnowsCancelled (w.hasEntry 0 es.uringData) es.timer)
    (hqueued : (((w.pop 0 rest).enter 0 f o).afterHandler ctx es heap).processQueued 0 ctx f.ti es =
      .ok w₂)
    (hrespond : w₂.respond 0 f resp = .ok w₃) : NameInv genuine known w₃ := by
  have hf : w.Readable genuine known (.functionCall f) := h.messages (hq ▸ List.mem_cons_self)
  have hleaves := Leaves.run (hP.function _ _ _ _) hrun
  have henter := (h.same (.pop hq)).enter hf ho
  have hentered := procToDat_enter_self (w := w.pop 0 rest) (t := 0) f o f.ti.procId
  rw [if_pos rfl] at hentered
  have hctx : ((w.pop 0 rest).enter 0 f o).ctxOf f.ti.objId = some ctx := by
    rw [ctxOf, objInfo_enter_self, if_pos rfl, Option.bind_some]
    exact hptr
  have htimers : (((w.pop 0 rest).enter 0 f o).threads 0).timers = (w.threads 0).timers :=
    proj_setThread _ 0 0 _ (·.timers) rfl
  have htimer' : genuine →
      KnowsCancelled (((w.pop 0 rest).enter 0 f o).hasEntry 0 es.uringData) es.timer := by
    intro hgenuine
    have hsame : ((w.pop 0 rest).enter 0 f o).hasEntry 0 es.uringData =
        w.hasEntry 0 es.uringData := by
      funext l
      rw [hasEntry, hasEntry, htimers]
    exact hsame ▸ htimer hgenuine
  have hinv := henter.ran hctx hleaves htimer' hqueued
  exact hinv.respond ((congrFun (processQueued_procToDat hqueued 0) _).trans hentered) rfl hrespond

/-- `on_yield` is called with an event that the context translates. -/
theorem NameInv.yielded {d : Data} {o : ObjectDataThreaded} {c : CallDataThreaded} {y : Yielded}
    {heap : σ} {w₂ w₃ : World V σ} (h : NameInv genuine known w) (hP : P.WithoutAttach)
    (hq : w.queues 0 = .data d :: rest) (ho : (w.threads 0).objInfo d.ti.objId = some o)
    (hd : (w.threads 0).procToDat d.ti.procId = some c) (hptr : o.ptr = some ctx)
    (hrun : (P.onYield d.ti.objId ((w.contexts ctx).mapEventData d.data).1 w.heap).run
      { uringData := ((w.contexts ctx).mapEventData d.data).2 } = .ok ((y, heap), es))
    (htimer : genuine → KnowsCancelled (w.hasEntry 0 es.uringData) es.timer)
    (hqueued : (((w.pop 0 rest).note (.delivered 0 d
      ((w.contexts ctx).mapEventData d.data).1)).afterHandler ctx es heap).processQueued
        0 ctx d.ti es = .ok w₂)
    (hreport : w₂.report 0 d.ti y = .ok w₃) : NameInv genuine known w₃ := by
  have hreadable : w.Readable genuine known (.data d) := h.messages (hq ▸ List.mem_cons_self)
  have hctx : w.ctxOf d.ti.objId = some ctx := by rw [ctxOf, ho, Option.bind_some, hptr]
  obtain ⟨hcontext, htranslated⟩ := h.mapEventData hreadable hctx
  rw [hcontext] at hrun
  have hleaves := Leaves.run (hP.onYield _ _ _) hrun
  have hnoted : NameInv genuine known ((w.pop 0 rest).note (.delivered 0 d
      ((w.contexts ctx).mapEventData d.data).1)) := NameInv.note (h.same (.pop hq)) htranslated
  have hinv := hnoted.ran hctx hleaves htimer hqueued
  exact hinv.report ((congrFun (processQueued_procToDat hqueued 0) _).trans hd) hreport

/-- A message is handled; an object that it constructs was never there. -/
theorem NameInv.handled (h : NameInv genuine known w) (hP : P.WithoutAttach)
    (hq : w.queues 0 = m :: rest) (hfresh : ∀ x ∈ m.builtId, x ∉ known)
    (htimer : genuine → ∀ ctx ti es, w.handlerState P 0 m = some (ctx, ti, es) →
      KnowsCancelled (w.hasEntry 0 es.uringData) es.timer)
    (hw : Handled P 0 w w') : NameInv genuine (known ++ m.builtId.toList) w' := by
  have hknown : known ++ ([] : List Id) = known := List.append_nil known
  cases hw with
  | idle hnil => cases hnil.symm.trans hq
  | constructed hq' htake hrun hslot hnew hqueued =>
    obtain ⟨rfl, rfl⟩ := List.cons.inj (hq'.symm.trans hq)
    have hcancels := fun hgenuine => htimer hgenuine _ _ _ (handlerState_construct htake hrun)
    have hinv := h.constructed hP hq (hfresh _ rfl) htake hrun hslot hcancels hqueued
    exact hinv.same ((SameNames.refl _).submit 0)
  | reconstructed hq' htake hrun hslot hold =>
    obtain ⟨rfl, rfl⟩ := List.cons.inj (hq'.symm.trans hq)
    have hc : w.Readable genuine known (.constructorCall _) := h.messages (hq ▸ List.mem_cons_self)
    obtain ⟨hinv, -⟩ := (h.same (.pop hq)).takeContext hc htake
    have hfill := ((SameNames.refl _).afterHandler
      (Leaves.run (hP.construct _ _ _) hrun).tables _).fillSlot hslot
    exact (hinv.same (hfill.submit 0)).weaken (List.subset_append_left _ _)
  | called hq' ho hptr hrun hqueued hrespond =>
    obtain ⟨rfl, rfl⟩ := List.cons.inj (hq'.symm.trans hq)
    have hcancels := fun hgenuine => htimer hgenuine _ _ _ (handlerState_function ho hptr hrun)
    have hinv := h.called hP hq ho hptr hrun hcancels hqueued hrespond
    exact hknown.symm ▸ hinv.same ((SameNames.refl _).submit 0)
  | delivered hq' ho hd hptr hrun hqueued hreport =>
    obtain ⟨rfl, rfl⟩ := List.cons.inj (hq'.symm.trans hq)
    have hcancels := fun hgenuine => htimer hgenuine _ _ _ (handlerState_yield ho hd hptr hrun)
    have hinv := h.yielded hP hq ho hd hptr hrun hcancels hqueued hreport
    -- no procedure is attached, so that there are no copies
    rw [hinv.attachers]
    exact hknown.symm ▸ hinv.same ((SameNames.refl _).submit 0)
  | dropped hq' hmissing =>
    obtain ⟨rfl, rfl⟩ := List.cons.inj (hq'.symm.trans hq)
    exact hknown.symm ▸ (h.same (.pop hq)).same ((SameNames.refl _).submit 0)
  | deleted hq' hchildren =>
    obtain ⟨rfl, rfl⟩ := List.cons.inj (hq'.symm.trans hq)
    have hinv := deleteChildren_invariant (I := NameInv genuine known) hchildren (h.same (.pop hq))
      fun w child _ hw hlt => by
        have hzero : child.2.thread = 0 := Nat.lt_one_iff.mp (hw.size ▸ hlt)
        rw [hzero]
        exact hw.enqueue trivial
    exact hknown.symm ▸ hinv.same (((SameNames.refl _).erase P _).submit 0)
  | root hq' =>
    obtain ⟨rfl, rfl⟩ := List.cons.inj (hq'.symm.trans hq)
    refine hknown.symm ▸ NameInv.same (NameInv.enqueue ((h.same (.pop hq)).enqueue ?_) ?_)
      ((SameNames.refl _).submit 0)
    · rintro ctx ⟨⟩
    · exact fun hcaller => absurd rfl hcaller

/-! ## Runs -/

/-- The completion of a request: a timeout is sent to the object that set the timer. -/
theorem NameInv.attachment {address : Nat} {a : IoUringAttached} (h : NameInv genuine known w)
    (ha : w.attached address = some a) (res : Int) : NameInv genuine known (w.attachment 0 res a) := by
  cases a with
  | eventData op o p => exact NameInv.enqueue h (m := .data _) trivial
  | timer g o p =>
    simp only [World.attachment]
    split
    · exact NameInv.enqueue h (m := .data _) (h.attachments ha)
    · exact h
  | timerUpdate g remove =>
    simp only [World.attachment]
    split
    · refine h.same (SameNames.setTables (.refl w) ?_ ?_ ?_) <;> rfl
    · exact h

theorem NameInv.processUring (h : NameInv genuine known w) (huring : w.processUring 0 = .ok w') :
    NameInv genuine known w' := by
  refine processUring_invariant huring h (fun w address res a h ha => ?_) fun w h =>
    h.same ((SameNames.refl w).setTables rfl rfl rfl)
  -- an attachment is read and freed
  refine (h.attachment ha res).same { SameNames.refl _ with attachments := fun {a' g o p} ha' => ?_ }
  simp only [Function.update_apply] at ha'
  split at ha'
  · cases ha'
  · rw [attached_attachment]
    exact ha'

theorem NameInv.other {a : Action V} (h : NameInv genuine known w) (ha : ∀ t, a ≠ .dequeue t)
    (hstep : w.step P a = .ok w') : NameInv genuine known w' := by
  cases a with
  | dequeue t => exact absurd rfl (ha t)
  | uring t =>
    simp only [step] at hstep
    split at hstep
    · rename_i ht
      obtain rfl : t = 0 := Nat.lt_one_iff.mp (h.size ▸ ht)
      exact h.processUring hstep
    · obtain rfl := Except.ok.inj hstep
      exact h
  | complete t k res =>
    obtain rfl := Except.ok.inj hstep
    unfold complete
    simp only
    split
    · exact h
    · exact h.same ((SameNames.refl w).setTables rfl rfl rfl)
  | root constructor init =>
    obtain ⟨-, rfl⟩ := initializeRootEvent_eq hstep
    refine NameInv.enqueue (h.same ?_) trivial
    exact { SameNames.refl w with procIds := fun id hid => (taken_getId ..).mpr (Or.inl hid) }
  | load _ | iterate _ =>
    obtain rfl := Except.ok.inj hstep
    exact h.same { SameNames.refl w with }

/-- The condition on a step: the handler cancels no timer that has no entry, neither in the table nor
from the same run. -/
def CancelsKnown (P : Program V σ) (w : World V σ) : Action V → Prop
  | .dequeue t => ∀ m rest, w.queues t = m :: rest → ∀ ctx ti es,
      w.handlerState P t m = some (ctx, ti, es) →
        KnowsCancelled (w.hasEntry t es.uringData) es.timer
  | _ => True

theorem start_nameInv (genuine : Prop) (malloc : Nat → Nat) (heap : σ) :
    NameInv genuine [] ({ size := 1, malloc, heap } : World V σ) where
  size := rfl
  inverse _ := inverse_empty
  issued hg := nomatch hg
  timers hg := nomatch hg
  timersBack hl := nomatch hl
  timersSet hmem := absurd hmem List.not_mem_nil
  objects ho := nomatch ho
  calls hmem := absurd hmem List.not_mem_nil
  calledOnce hmem := absurd hmem List.not_mem_nil
  callers hp := nomatch hp
  attachers := rfl
  messages hm := absurd hm List.not_mem_nil
  attachments ha := nomatch ha
  delivered hmem := absurd hmem List.not_mem_nil

/-- A `ChildTaskCompletion` that `on_yield` receives carries the local identifier that `c` returned
for this call, and the procedure that called; and the tables of procedures of each context are inverse
to each other. -/
structure CallsTranslated (w : World V σ) : Prop where
  completions : ∀ t d c, .delivered t d (.childTaskCompletion c) ∈ w.log →
    ∃ q, d.data = .childTaskCompletion { c with taskId := q } ∧
      .called 0 d.ti.objId c.callingId q c.taskId ∈ w.log
  calledOnce : ∀ t o p q l t' o' p' l', .called t o p q l ∈ w.log → .called t' o' p' q l' ∈ w.log →
    o = o' ∧ p = p' ∧ l = l'
  inverse : ∀ ctx, Inverse (w.contexts ctx).globalProcToLocalProc
    (w.contexts ctx).localProcToGlobalProc

/-- A `Timeout` as well carries the local identifier that `timer` returned. -/
structure IdsTranslated (w : World V σ) : Prop extends w.CallsTranslated where
  timeouts : ∀ t d l, .delivered t d (.timeout l) ∈ w.log →
    ∃ g, d.data = .timeout g ∧ SetBy w.log d.ti.objId l g

theorem NameInv.callsTranslated (h : NameInv genuine known w) : w.CallsTranslated where
  completions _ _ _ hmem := h.delivered hmem
  calledOnce _ _ _ _ _ _ _ _ _ := h.calledOnce
  inverse := h.inverse

theorem NameInv.idsTranslated (h : NameInv True known w) : w.IdsTranslated :=
  { h.callsTranslated with timeouts := fun _ _ _ hmem => h.delivered hmem trivial }

end World

namespace History

variable {P : Program V σ} {s : History V σ}

/-- The invariant along a run; what it says of timers needs the condition. -/
theorem nameInv_reached (genuine : Prop) (hP : P.WithoutAttach) (malloc : Nat → Nat) (heap : σ)
    (h : Reached (step P) (fun s a => genuine → s.world.CancelsKnown P a)
      { world := { size := 1, malloc, heap } } s) :
    World.NameInv genuine ((s.taken 0).filterMap EventVariant.builtId) s.world := by
  have hinv : World.NameInv genuine ((s.taken 0).filterMap EventVariant.builtId) s.world ∧
      World.Family s.taken s.world ∧ s.world.LocatorsOk := by
    refine invariant (I := fun taken w => World.NameInv genuine
      ((taken 0).filterMap EventVariant.builtId) w ∧ World.Family taken w ∧ w.LocatorsOk) h
      ⟨World.start_nameInv genuine malloc heap, World.start_family malloc heap,
        World.locatorsOk P 1 malloc heap .start⟩ ?_ ?_
    · intro s t m rest w' hI hG ht hq hw
      obtain ⟨hname, hfamily, hok⟩ := hI
      obtain rfl : t = 0 := Nat.lt_one_iff.mp (hname.size ▸ ht)
      -- each object is constructed once
      have hfresh : ∀ x ∈ m.builtId, x ∉ (s.taken 0).filterMap EventVariant.builtId := by
        intro x hx hmem
        refine hfamily.not_built (congrArg (s.taken 0 ++ ·) hq) hmem ?_
        rw [List.filterMap_cons, hx]
        exact List.mem_cons_self
      have hhandled := hname.handled hP hq hfresh (fun hgenuine => hG hgenuine m rest hq) hw
      refine ⟨?_, World.handled_family hfamily hok hq hw, World.handled_locatorsOk hok hw⟩
      rw [Function.update_self, List.filterMap_append]
      cases m <;> exact hhandled
    · intro s a w' hI _ ha hstep
      exact ⟨hI.1.other ha hstep, hI.2.1.other ha hstep, World.step_locatorsOk hI.2.2 hstep⟩
  exact hinv.1

/-- In every run without `attach`, completions carry the identifiers of their calls. -/
theorem callsTranslated (hP : P.WithoutAttach) (malloc : Nat → Nat) (heap : σ)
    (h : Reached (step P) (fun _ _ => True) { world := { size := 1, malloc, heap } } s) :
    s.world.CallsTranslated := by
  have hinv := nameInv_reached False hP malloc heap (h.mono fun _ _ _ hfalse => hfalse.elim)
  exact hinv.callsTranslated

/-- In every run without `attach` in which no handler cancels a timer that has no entry, completions
carry the identifiers of their calls, and timeouts those of their timers. -/
theorem idsTranslated_of_cancelsKnown (P : Program V σ) (hP : P.WithoutAttach) (malloc : Nat → Nat)
    (heap : σ) (s : History V σ)
    (h : Reached (step P) (fun s a => s.world.CancelsKnown P a)
      { world := { size := 1, malloc, heap } } s) : s.world.IdsTranslated := by
  have hinv := nameInv_reached True hP malloc heap (h.mono fun _ _ hG _ => hG)
  exact hinv.idsTranslated

/-! ## A call with a time limit -/

instance (P : Program V σ) (w : World V σ) : (a : World.Action V) → Decidable (w.CancelsKnown P a)
  | .dequeue t =>
    match hq : w.queues t with
    | [] => isTrue fun m rest h => by rw [hq] at h; cases h
    | m :: rest =>
      match hstate : w.handlerState P t m with
      | none => isTrue fun m' rest' h ctx ti es hes => by
          obtain ⟨rfl, rfl⟩ := List.cons.inj (hq.symm.trans h)
          rw [hstate] at hes
          cases hes
      | some (ctx, ti, es) =>
        decidable_of_iff (KnowsCancelled (w.hasEntry t es.uringData) es.timer)
          ⟨fun hknown m' rest' h ctx' ti' es' hes => by
              obtain ⟨rfl, rfl⟩ := List.cons.inj (hq.symm.trans h)
              rw [hstate] at hes
              obtain ⟨-, heq⟩ := Prod.mk.inj (Option.some.inj hes)
              obtain ⟨-, rfl⟩ := Prod.mk.inj heq
              exact hknown,
            fun hG => hG m rest hq ctx ti es hstate⟩
  | .uring _ => isTrue trivial
  | .complete _ _ _ => isTrue trivial
  | .root _ _ => isTrue trivial
  | .load _ => isTrue trivial
  | .iterate _ => isTrue trivial

/-- A parent calls its child, with a time limit if it is `timed`. When the call has ended, or the time
is over, it cancels the timer. -/
def watched (timed : Bool) : Program World.familyVocabulary Unit where
  construct parent _ _ :=
    if parent then do
      let _ ← Script.i (V := World.familyVocabulary) () false
      pure ()
    else pure ()
  function parent _ _ _ := do
    if parent then
      if timed then
        let _ ← Script.startTimer (V := World.familyVocabulary) ⟨1, 0⟩
      let _ ← Script.cAt (V := World.familyVocabulary) () 0 false
      pure ({ description := "parent", success := true, ret := none, opHint := 0 }, ())
    else
      pure ({ description := "child", success := true, ret := some (false, 0), opHint := 0 }, ())
  onYield _ _ _ := do
    Script.stopTimer (V := World.familyVocabulary) (some 0)
    pure (none, ())
  destroy _ _ := ()

theorem watched_withoutAttach (timed : Bool) : (watched timed).WithoutAttach where
  construct parent o s := by
    cases parent
    · trivial
    · exact ⟨trivial, fun _ => trivial⟩
  function parent o p s := by
    cases parent
    · trivial
    · cases timed
      · exact ⟨trivial, fun _ => trivial⟩
      · exact ⟨trivial, fun _ => ⟨trivial, fun _ => trivial⟩⟩
  onYield o event s := ⟨trivial, trivial⟩

/-- One worker thread. -/
def watched₀ : History World.familyVocabulary Unit :=
  { world := { size := 1, malloc := id, heap := () } }

/-- The parent is started, the child is called and ends, and the first timeout is completed. -/
def watchedActions : List (World.Action World.familyVocabulary) :=
  .root true true :: List.replicate 6 (.dequeue 0) ++ [.complete 0 0 eTime, .uring 0, .dequeue 0]

/-- The message that the child has ended, and the event for it. -/
def childEnded : Note :=
  .delivered 0 (World.completion 0 ⟨some 1000, some 1000⟩ (some 0) (some 0) .finished 0)
    (.childTaskCompletion
      { callingId := some 0, taskId := some 0, status := .finished, returnCode := 0 })

/-- The message that the time is over. -/
def timeOver : Note :=
  .delivered 0 (World.ringData (some 0) (some 0) (.timeout (some 0))) (.timeout (some 0))

/-- The timer expires before its removal: the completion and the timeout carry the identifiers of the
call and of the timer. -/
theorem watched_translated : ∃ s,
    Reached (step (watched true)) (fun s a => s.world.CancelsKnown (watched true) a) watched₀ s ∧
    s.world.log = [.started 0 (some 0) (some 0), .called 0 (some 0) (some 0) (some 1000) (some 0),
      .timerSet 0 (some 0) (some 0) (some 0), .started 0 (some 1000) (some 1000),
      .reported (some 1000) .finished 0, childEnded, .timerCancelled 0 (some 0) (some 0), timeOver,
      .timerCancelled 0 (some 0) (some 0)] ∧
    s.world.IdsTranslated := by
  have hlog : (runActions (step (watched true)) watchedActions watched₀).map (·.world.log) =
      .ok [.started 0 (some 0) (some 0), .called 0 (some 0) (some 0) (some 1000) (some 0),
        .timerSet 0 (some 0) (some 0) (some 0), .started 0 (some 1000) (some 1000),
        .reported (some 1000) .finished 0, childEnded, .timerCancelled 0 (some 0) (some 0), timeOver,
        .timerCancelled 0 (some 0) (some 0)] := by
    decide +kernel
  obtain ⟨s, hrun, hlog⟩ := exists_of_map_eq_ok hlog
  have hreached : Reached (step (watched true)) (fun s a => s.world.CancelsKnown (watched true) a)
      watched₀ s := reached_of_runActions .start (by decide +kernel) hrun
  exact ⟨s, hreached, hlog, idsTranslated_of_cancelsKnown (watched true) (watched_withoutAttach true)
    id () s hreached⟩

/-- Without a time limit, the cancellation sets a timer, and `on_yield` receives a `Timeout` though
`timer` was never called. -/
theorem unwatched_not_translated : ∃ s,
    Reached (step (watched false)) (fun _ _ => True) watched₀ s ∧ (watched false).WithoutAttach ∧
    timeOver ∈ s.world.log ∧ (∀ t o l g, .timerSet t o l g ∉ s.world.log) ∧
    ¬ s.world.IdsTranslated := by
  have hlog : (runActions (step (watched false)) watchedActions watched₀).map (·.world.log) =
      .ok [.started 0 (some 0) (some 0), .called 0 (some 0) (some 0) (some 1000) (some 0),
        .started 0 (some 1000) (some 1000), .reported (some 1000) .finished 0, childEnded,
        .timerCancelled 0 (some 0) (some 0), timeOver, .timerCancelled 0 (some 0) (some 0)] := by
    decide +kernel
  obtain ⟨s, hrun, hlog⟩ := exists_of_map_eq_ok hlog
  have htimeout : timeOver ∈ s.world.log := by
    rw [hlog]
    decide
  have hnone : ∀ t o l g, .timerSet t o l g ∉ s.world.log := by
    intro t o l g hmem
    rw [hlog] at hmem
    simp [childEnded, timeOver] at hmem
  refine ⟨s, reached_of_runActions .start (meets_true _ _) hrun, watched_withoutAttach false, htimeout,
    hnone, fun htranslated => ?_⟩
  obtain ⟨g, -, before, after, heq, -⟩ := htranslated.timeouts _ _ _ htimeout
  exact hnone _ _ _ _ (heq ▸ List.mem_append_right _ List.mem_cons_self)

end History

end LocalSoftware
