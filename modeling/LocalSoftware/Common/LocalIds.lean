import LocalSoftware.Common.CallTargets
import LocalSoftware.Common.CompletionPaths
import LocalSoftware.Common.Family
import LocalSoftware.Library.InverseTables

/-!
# Local and global identifiers

A handler names its calls and timers by the local identifiers that `c` and `timer` return, and
`process_queued` gives them global ones, which the context translates back for `on_yield`. `NameInv`
says, for one worker thread, that the tables of procedures of each context are inverse to each other,
and that every message which an object may receive carries an identifier that its context translates
to that of the call or of the timer. The updates of `process_queued` keep it.

`process_queued_timers` sets a new timer also for a cancellation whose timer has no entry. What
`NameInv` says about timers is restricted by the proposition `genuine` to runs in which this does not
happen.
-/

set_option autoImplicit false

namespace LocalSoftware

variable {V : Vocabulary} {σ : Type}

/-! ## What a handler leaves in its object -/

/-- The operations other than `attach`. -/
def Operation.NotAttach : Operation V → Prop
  | .attach _ => False
  | _ => True

/-- No handler of the program uses `attach`. -/
structure Program.WithoutAttach (P : Program V σ) : Prop where
  construct : ∀ fn o s, (P.construct fn o s).Uses Operation.NotAttach
  function : ∀ fn o p s, (P.function fn o p s).Uses Operation.NotAttach
  onYield : ∀ o event s, (P.onYield o event s).Uses Operation.NotAttach

namespace IoUringData

/-- The tables of identifiers are the same, and no local identifier is given again. -/
structure SameTables (d d' : IoUringData V) : Prop where
  procs : d'.globalProcToLocalProc = d.globalProcToLocalProc
  procsBack : d'.localProcToGlobalProc = d.localProcToGlobalProc
  tims : d'.globalTimToLocalTim = d.globalTimToLocalTim
  timsBack : d'.localTimToGlobalTim = d.localTimToGlobalTim
  counter : d.localProcId ≤ d'.localProcId

theorem SameTables.refl (d : IoUringData V) : SameTables d d :=
  ⟨rfl, rfl, rfl, rfl, Nat.le_refl _⟩

theorem SameTables.trans {d d' d'' : IoUringData V} (h : SameTables d d') (h' : SameTables d' d'') :
    SameTables d d'' where
  procs := h'.procs.trans h.procs
  procsBack := h'.procsBack.trans h.procsBack
  tims := h'.tims.trans h.tims
  timsBack := h'.timsBack.trans h.timsBack
  counter := Nat.le_trans h.counter h'.counter

theorem SameTables.setSlots {d d' : IoUringData V} (h : SameTables d d') (ty : V.TypeIndex)
    (slots : List (Option EventInfo)) : SameTables d (d'.setSlots ty slots) := { h with }

end IoUringData

/-- The entries are for the local identifiers from `n` on. -/
def NumberedFrom (n : Nat) (qs : List (EventQueuedFunction V)) : Prop :=
  ∀ {k : Nat} {q : EventQueuedFunction V}, qs[k]? = some q → q.localId = some (n + k)

theorem NumberedFrom.tail {n : Nat} {q : EventQueuedFunction V} {qs : List (EventQueuedFunction V)}
    (h : NumberedFrom n (q :: qs)) : NumberedFrom (n + 1) qs := by
  intro k q' hq'
  rw [h (k := k + 1) hq', Nat.add_assoc, Nat.add_comm 1 k]

/-- A handler that began with the context `d` leaves the tables as they are; its calls have the next
local identifiers. -/
structure Leaves (d : IoUringData V) (es : EventState V) : Prop where
  tables : IoUringData.SameTables d es.uringData
  counter : es.uringData.localProcId = d.localProcId + es.function.length
  numbered : NumberedFrom d.localProcId es.function
  attach : es.attach = []

namespace Leaves

variable {d : IoUringData V} {s s' : EventState V}

theorem start (d : IoUringData V) : Leaves d { uringData := d } where
  tables := .refl d
  counter := rfl
  numbered h := nomatch h
  attach := rfl

/-- An operation that calls nothing. -/
theorem same (h : Leaves d s) (htables : IoUringData.SameTables s.uringData s'.uringData)
    (hcounter : s'.uringData.localProcId = s.uringData.localProcId)
    (hfunction : s'.function = s.function) (hattach : s'.attach = s.attach) : Leaves d s' where
  tables := h.tables.trans htables
  counter := by
    rw [hcounter, hfunction]
    exact h.counter
  numbered := by
    rw [hfunction]
    exact h.numbered
  attach := hattach.trans h.attach

theorem callAt (h : Leaves d s) (ty : V.TypeIndex) (idx : Nat) (fn : V.FunctionFunc) :
    Leaves d (s.callAt ty idx fn).2 where
  tables := { h.tables with counter := Nat.le_succ_of_le h.tables.counter }
  counter := by
    show s.uringData.localProcId + 1 = d.localProcId + (s.function ++ [_]).length
    rw [h.counter, List.length_append]
    rfl
  numbered {k q} hq := by
    change (s.function ++ [_])[k]? = some q at hq
    rcases getElem?_concat_cases hq with hq | ⟨rfl, rfl⟩
    · exact h.numbered hq
    · exact congrArg some h.counter
  attach := h.attach

theorem apply {op : Operation V} (h : Leaves d s) (hop : op.NotAttach)
    (hs : s.apply op = .ok s') : Leaves d s' := by
  cases op with
  | construct shared ty fn =>
    obtain rfl := Except.ok.inj hs
    exact h.same ((IoUringData.SameTables.refl _).setSlots _ _) rfl rfl rfl
  | callAt ty idx fn =>
    obtain rfl := Except.ok.inj hs
    exact h.callAt ty idx fn
  | call ty fn =>
    obtain ⟨r, hr, rfl⟩ := exists_of_map_eq_ok hs
    rw [EventState.call_eq_ok hr]
    exact h.callAt ty _ fn
  | uring op fn =>
    obtain rfl := Except.ok.inj hs
    exact h.same (.refl _) rfl rfl rfl
  | delete ty idx =>
    obtain ⟨info, locator, -, -, rfl⟩ := EventState.queueDelete_eq_ok hs
    exact h.same ((IoUringData.SameTables.refl _).setSlots _ _) rfl rfl rfl
  | attach id => exact hop.elim
  | timer ts =>
    obtain rfl := Except.ok.inj hs
    exact h.same { IoUringData.SameTables.refl _ with } rfl rfl rfl
  | cancelTimer id =>
    obtain rfl := Except.ok.inj hs
    exact h.same (.refl _) rfl rfl rfl

theorem run {α : Type} {x : Script V α} {a : α} {es : EventState V}
    (hx : x.Uses Operation.NotAttach) (h : x.run { uringData := d } = .ok (a, es)) : Leaves d es :=
  Script.run_invariant hx h (start d) fun _ _ _ hs hop hstep => hs.apply hop hstep

end Leaves

/-! ## The invariant -/

/-- Notes that tell nothing of calls, timers and deliveries. -/
def Note.Aside : Note → Prop
  | .called .. => False
  | .timerSet .. => False
  | .delivered .. => False
  | _ => True

/-- The caller of the procedure `q`, if there is one, has queued the call. -/
def CalledBy (L : List Note) (q : Id) (caller : ThreadId × Id × Id) : Prop :=
  caller.1 ≠ none → ∃ l, .called 0 caller.2.1 caller.2.2 q l ∈ L

/-- The first that was noted of the timer `g`: `timer` was called in the object `o` and returned
`l`. -/
def SetBy (L : List Note) (o l g : Id) : Prop :=
  ∃ before after, L = before ++ .timerSet 0 o l g :: after ∧
    ∀ t o' l', .timerSet t o' l' g ∉ before

/-- `on_yield` was called with the local identifier of the call or of the timer. -/
def Translated (genuine : Prop) (L : List Note) (d : Data) : EventType → Prop
  | .childTaskCompletion c => ∃ q, d.data = .childTaskCompletion { c with taskId := q } ∧
      .called 0 d.ti.objId c.callingId q c.taskId ∈ L
  | .timeout l => genuine → ∃ g, d.data = .timeout g ∧ SetBy L d.ti.objId l g
  | _ => True

/-- What `process_queued_timers` notes for an entry. -/
def EventQueuedTimer.noted (q : EventQueuedTimer) (t : Nat) (ti : TargetInfo) (g : Id) : Note :=
  if q.cancels then .timerCancelled t ti.objId q.localId else .timerSet t ti.objId q.localId g

namespace World

variable {genuine : Prop} {known known' : List Id} {w w' w'' : World V σ} {ctx : Nat}
  {ti : TargetInfo} {es : EventState V} {m : EventVariant V} {rest : List (EventVariant V)}

/-- The context that an object uses. -/
def ctxOf (w : World V σ) (o : Id) : Option Nat := ((w.threads 0).objInfo o).bind (·.ptr)

/-- The same for the objects of a thread. -/
def ctxAt (w : World V σ) (t : Nat) (o : Id) : Option Nat :=
  ((w.threads t).objInfo o).bind (·.ptr)

/-- The context of the object `o` translates the call `q` to `l`. -/
def NamesCall (w : World V σ) (o q l : Id) : Prop :=
  ∀ ctx, w.ctxOf o = some ctx → ctx < w.nextContext ∧
    (w.contexts ctx).globalProcToLocalProc q = some l

/-- The context of the object `o` translates the timer `g`; in a `genuine` run it does so to the
local identifier that `timer` returned. -/
def KnowsTimer (genuine : Prop) (known : List Id) (w : World V σ) (o g : Id) : Prop :=
  o ∈ known ∧ ∃ l, (∀ ctx, w.ctxOf o = some ctx → ctx < w.nextContext ∧
    (w.contexts ctx).globalTimToLocalTim g = some l) ∧ (genuine → SetBy w.log o l g)

/-- An event carries an identifier that its target can translate. -/
def ReadableEvent (genuine : Prop) (known : List Id) (w : World V σ) (ti : TargetInfo) :
    EventType → Prop
  | .childTaskCompletion c => c.callingId = ti.procId ∧
      ∃ l, .called 0 ti.objId ti.procId c.taskId l ∈ w.log
  | .timeout g => w.KnowsTimer genuine known ti.objId g
  | .callStarted _ => False
  | _ => True

/-- The same for the messages. -/
def Readable (genuine : Prop) (known : List Id) (w : World V σ) : EventVariant V → Prop
  | .constructorCall c => ∀ ctx, c.uringData = some ctx → ctx < w.nextContext
  | .functionCall f => CalledBy w.log f.ti.procId (f.ci.threadId, f.ci.objId, f.ci.procId)
  | .data d => w.ReadableEvent genuine known d.ti d.data
  | _ => True

/-- The tables of each context are inverse to each other, and what an object may receive carries an
identifier that its context knows. `known` are the objects that were constructed. -/
structure NameInv (genuine : Prop) (known : List Id) (w : World V σ) : Prop where
  size : w.size = 1
  inverse : ∀ ctx, Inverse (w.contexts ctx).globalProcToLocalProc
    (w.contexts ctx).localProcToGlobalProc
  issued : ∀ {ctx g l}, (w.contexts ctx).globalProcToLocalProc g = some l →
    Taken w.procIds g ∧ ∃ n < (w.contexts ctx).localProcId, l = some n
  timers : ∀ {ctx g l}, (w.contexts ctx).globalTimToLocalTim g = some l → Taken w.timIds g
  timersBack : ∀ {ctx l g}, (w.contexts ctx).localTimToGlobalTim l = some g → Taken w.timIds g
  timersSet : ∀ {t o l g}, .timerSet t o l g ∈ w.log → g = none ∨ Taken w.timIds g
  objects : ∀ {o ctx}, w.ctxOf o = some ctx → o ∈ known ∧ ctx < w.nextContext
  calls : ∀ {t o p q l}, .called t o p q l ∈ w.log →
    o ∈ known ∧ Taken w.procIds q ∧ w.NamesCall o q l
  calledOnce : ∀ {t o p q l t' o' p' l'}, .called t o p q l ∈ w.log →
    .called t' o' p' q l' ∈ w.log → o = o' ∧ p = p' ∧ l = l'
  callers : ∀ {p c}, w.enteredCaller 0 p = some c → CalledBy w.log p c
  attachers : (w.threads 0).alsoNotify = fun _ => []
  messages : ∀ {m}, m ∈ w.queues 0 → w.Readable genuine known m
  attachments : ∀ {a g o p}, w.attached a = some (.timer g o p) → w.KnowsTimer genuine known o g
  delivered : ∀ {t d event}, .delivered t d event ∈ w.log → Translated genuine w.log d event

/-- What may be noted of timers and deliveries, apart from calls. -/
def Admits (genuine : Prop) (w : World V σ) : Note → Prop
  | .called .. => False
  | .timerSet _ _ _ g => g = none ∨ Taken w.timIds g
  | .delivered _ d event => Translated genuine w.log d event
  | _ => True

/-! ## Updates that enter nothing else -/

/-- What was known of the contexts and the log is known afterwards. -/
structure Onward (known : List Id) (w w' : World V σ) : Prop where
  nextContext : w.nextContext ≤ w'.nextContext
  ctxOf : ∀ {o ctx}, o ∈ known → w'.ctxOf o = some ctx → w.ctxOf o = some ctx
  procs : ∀ {ctx}, ctx < w.nextContext →
    Extends (w.contexts ctx).globalProcToLocalProc (w'.contexts ctx).globalProcToLocalProc
  tims : ∀ {ctx}, ctx < w.nextContext →
    Extends (w.contexts ctx).globalTimToLocalTim (w'.contexts ctx).globalTimToLocalTim
  log : w.log <+: w'.log

theorem CalledBy.mono {L L' : List Note} {q : Id} {caller : ThreadId × Id × Id}
    (h : CalledBy L q caller) (hL : L <+: L') : CalledBy L' q caller := by
  intro hcaller
  obtain ⟨l, hl⟩ := h hcaller
  exact ⟨l, hL.subset hl⟩

theorem SetBy.mono {L L' : List Note} {o l g : Id} (h : SetBy L o l g) (hL : L <+: L') :
    SetBy L' o l g := by
  obtain ⟨before, after, rfl, hbefore⟩ := h
  obtain ⟨ns, rfl⟩ := hL
  exact ⟨before, after ++ ns, by rw [List.append_assoc, List.cons_append], hbefore⟩

theorem Translated.mono {L L' : List Note} {d : Data} {event : EventType}
    (h : Translated genuine L d event) (hL : L <+: L') : Translated genuine L' d event := by
  cases event with
  | childTaskCompletion c =>
    obtain ⟨q, hd, hq⟩ := h
    exact ⟨q, hd, hL.subset hq⟩
  | timeout l =>
    intro hgenuine
    obtain ⟨g, hd, hg⟩ := h hgenuine
    exact ⟨g, hd, SetBy.mono hg hL⟩
  | _ => trivial

namespace Onward

theorem refl (known : List Id) (w : World V σ) : Onward known w w where
  nextContext := Nat.le_refl _
  ctxOf _ ho := ho
  procs _ := .refl _
  tims _ := .refl _
  log := List.prefix_rfl

variable {o q l g : Id}

theorem namesCall (hw : Onward known w w') (ho : o ∈ known) (h : w.NamesCall o q l) :
    w'.NamesCall o q l := by
  intro ctx hctx
  obtain ⟨hlt, hq⟩ := h ctx (hw.ctxOf ho hctx)
  exact ⟨Nat.lt_of_lt_of_le hlt hw.nextContext, hw.procs hlt q l hq⟩

theorem knowsTimer (hw : Onward known w w') (hknown : known ⊆ known')
    (h : w.KnowsTimer genuine known o g) : w'.KnowsTimer genuine known' o g := by
  obtain ⟨ho, l, hl, hset⟩ := h
  refine ⟨hknown ho, l, fun ctx hctx => ?_, fun hgenuine => SetBy.mono (hset hgenuine) hw.log⟩
  obtain ⟨hlt, hg⟩ := hl ctx (hw.ctxOf ho hctx)
  exact ⟨Nat.lt_of_lt_of_le hlt hw.nextContext, hw.tims hlt g l hg⟩

theorem readableEvent (hw : Onward known w w') (hknown : known ⊆ known') {event : EventType}
    (h : w.ReadableEvent genuine known ti event) : w'.ReadableEvent genuine known' ti event := by
  cases event with
  | childTaskCompletion c =>
    obtain ⟨hcalling, l, hl⟩ := h
    exact ⟨hcalling, l, hw.log.subset hl⟩
  | timeout g => exact hw.knowsTimer hknown h
  | callStarted id => exact h
  | ioUringResult r => trivial
  | wakeup id => trivial

theorem readable (hw : Onward known w w') (hknown : known ⊆ known')
    (h : w.Readable genuine known m) : w'.Readable genuine known' m := by
  cases m with
  | constructorCall c => exact fun ctx hctx => Nat.lt_of_lt_of_le (h ctx hctx) hw.nextContext
  | functionCall f => exact CalledBy.mono h hw.log
  | data d => exact hw.readableEvent hknown h
  | delete d => trivial
  | rootStart r => trivial

end Onward

/-- An object keeps its context when the entry of an object changes otherwise. -/
theorem ptr_of_setObject {td : ThreadData V} {id o : Id} {obj : ObjectDataThreaded}
    (hobj : obj.ptr = (td.object id).ptr)
    (ho : ((td.setObject id obj).objInfo o).bind (·.ptr) = some ctx) :
    (td.objInfo o).bind (·.ptr) = some ctx := by
  rw [ThreadData.objInfo_setObject] at ho
  split at ho
  · rename_i heq
    rw [Option.bind_some, hobj, ThreadData.object] at ho
    rw [heq]
    cases hid : td.objInfo id with
    | none =>
      rw [hid] at ho
      cases ho
    | some old =>
      rw [hid] at ho
      exact ho
  · exact ho

/-- The tables of identifiers and the entries that the invariant reads are the same, or gone; nothing
is sent, called or delivered. -/
structure SameNames (w w' : World V σ) : Prop where
  size : w'.size = w.size
  nextContext : w.nextContext ≤ w'.nextContext
  procIds : ∀ id, Taken w.procIds id → Taken w'.procIds id
  timIds : ∀ id, Taken w.timIds id → Taken w'.timIds id
  contexts : ∀ ctx, IoUringData.SameTables (w.contexts ctx) (w'.contexts ctx)
  ctxOf : ∀ {o ctx}, w'.ctxOf o = some ctx → w.ctxOf o = some ctx
  callers : ∀ {p c}, w'.enteredCaller 0 p = some c → w.enteredCaller 0 p = some c
  attachers : (w'.threads 0).alsoNotify = (w.threads 0).alsoNotify
  queue : w'.queues 0 ⊆ w.queues 0
  attachments : ∀ {a g o p}, w'.attached a = some (.timer g o p) →
    w.attached a = some (.timer g o p)
  log : ∃ ns, w'.log = w.log ++ ns ∧ ∀ n ∈ ns, n.Aside

namespace SameNames

theorem refl (w : World V σ) : SameNames w w where
  size := rfl
  nextContext := Nat.le_refl _
  procIds _ hid := hid
  timIds _ hid := hid
  contexts _ := .refl _
  ctxOf ho := ho
  callers hp := hp
  attachers := rfl
  queue := List.Subset.refl _
  attachments ha := ha
  log := ⟨[], (List.append_nil _).symm, fun _ hn => absurd hn List.not_mem_nil⟩

theorem trans (h : SameNames w w') (h' : SameNames w' w'') : SameNames w w'' where
  size := h'.size.trans h.size
  nextContext := Nat.le_trans h.nextContext h'.nextContext
  procIds id hid := h'.procIds id (h.procIds id hid)
  timIds id hid := h'.timIds id (h.timIds id hid)
  contexts ctx := (h.contexts ctx).trans (h'.contexts ctx)
  ctxOf ho := h.ctxOf (h'.ctxOf ho)
  callers hp := h.callers (h'.callers hp)
  attachers := h'.attachers.trans h.attachers
  queue := List.Subset.trans h'.queue h.queue
  attachments ha := h.attachments (h'.attachments ha)
  log := by
    obtain ⟨ns, hns, haside⟩ := h.log
    obtain ⟨ns', hns', haside'⟩ := h'.log
    refine ⟨ns ++ ns', by rw [hns', hns, List.append_assoc], fun n hn => ?_⟩
    exact (List.mem_append.mp hn).elim (haside n) (haside' n)

theorem note (h : SameNames w w') {n : Note} (hn : n.Aside) : SameNames w (w'.note n) :=
  h.trans { refl w' with log := ⟨[n], rfl, fun _ hmem => List.mem_singleton.mp hmem ▸ hn⟩ }

/-- Other tables of a thread: objects keep their contexts and procedures their callers. -/
theorem setThread (h : SameNames w w') {t : Nat} {td : ThreadData V}
    (hobj : ∀ {o ctx}, (td.objInfo o).bind (·.ptr) = some ctx →
      ((w'.threads t).objInfo o).bind (·.ptr) = some ctx)
    (hproc : ∀ {p c}, (td.procToDat p).map (·.backNotify) = some c →
      ((w'.threads t).procToDat p).map (·.backNotify) = some c)
    (hattach : td.alsoNotify = (w'.threads t).alsoNotify) : SameNames w (w'.setThread t td) := by
  refine h.trans { refl w' with
    ctxOf := fun {o ctx} ho => ?_
    callers := fun {p c} hp => ?_
    attachers := proj_setThread w' t 0 td (·.alsoNotify) hattach }
  · unfold World.ctxOf at ho ⊢
    rw [threads_setThread] at ho
    split at ho
    · rename_i ht
      exact ht ▸ hobj ho
    · exact ho
  · unfold enteredCaller at hp ⊢
    rw [threads_setThread] at hp
    split at hp
    · rename_i ht
      exact ht ▸ hproc hp
    · exact hp

/-- Only rings, timers and requests of a thread change. -/
theorem setTables (h : SameNames w w') {t : Nat} {td : ThreadData V}
    (hobj : td.objInfo = (w'.threads t).objInfo) (hproc : td.procToDat = (w'.threads t).procToDat)
    (hattach : td.alsoNotify = (w'.threads t).alsoNotify) : SameNames w (w'.setThread t td) := by
  refine h.setThread (fun {o ctx} ho => ?_) (fun {p c} hp => ?_) hattach
  · exact hobj ▸ ho
  · exact hproc ▸ hp

/-- The entry of an object changes, but not its context. -/
theorem setObject (h : SameNames w w') {t : Nat} {id : Id} {obj : ObjectDataThreaded}
    (hobj : obj.ptr = ((w'.threads t).object id).ptr) :
    SameNames w (w'.setThread t ((w'.threads t).setObject id obj)) := by
  exact h.setThread (fun ho => ptr_of_setObject hobj ho) (fun hp => hp) rfl

/-- The entry of a procedure changes, but not its caller. -/
theorem setProc (h : SameNames w w') {t : Nat} {id : Id} {d old : CallDataThreaded}
    (hold : (w'.threads t).procToDat id = some old) (hd : d.backNotify = old.backNotify) :
    SameNames w (w'.setThread t ((w'.threads t).setProc id d)) := by
  refine h.setThread (fun ho => ho) (fun {p c} hp => ?_) rfl
  rw [ThreadData.procToDat_setProc] at hp
  split at hp
  · rename_i heq
    rw [heq, hold, ← hp, Option.map_some, Option.map_some, hd]
  · exact hp

theorem setContext (h : SameNames w w') {d : IoUringData V}
    (hd : IoUringData.SameTables (w'.contexts ctx) d) : SameNames w (w'.setContext ctx d) := by
  refine h.trans { refl w' with contexts := fun ctx' => ?_ }
  rw [contexts_setContext]
  split
  · rename_i hctx
    exact hctx ▸ hd
  · exact .refl _

/-- A request whose attachment is not that of a timeout. -/
theorem addRequest (h : SameNames w w') (t : Nat) (prep : Prep V) {a : IoUringAttached}
    (ha : ∀ g o p, a ≠ .timer g o p) : SameNames w (w'.addRequest t prep a) := by
  have hattached : SameNames w' { w' with
      mallocs := w'.mallocs + 1
      attached := Function.update w'.attached (w'.malloc w'.mallocs) (some a) } :=
    { refl w' with
      attachments := fun {a' g o p} ha' => by
        simp only [Function.update_apply] at ha'
        split at ha'
        · exact absurd (Option.some.inj ha') (ha g o p)
        · exact ha' }
  exact (h.trans hattached).setTables rfl rfl rfl

theorem submit (h : SameNames w w') (t : Nat) : SameNames w (w'.submit t) :=
  h.setTables rfl rfl rfl

end SameNames

namespace NameInv

theorem same (h : NameInv genuine known w) (hw : SameNames w w') : NameInv genuine known w' := by
  obtain ⟨ns, hlog, haside⟩ := hw.log
  have hsub : w.log <+: w'.log := hlog ▸ List.prefix_append _ _
  have hold : ∀ {n : Note}, ¬ n.Aside → n ∈ w'.log → n ∈ w.log := by
    intro n hn hmem
    rw [hlog] at hmem
    exact (List.mem_append.mp hmem).resolve_right fun hns => hn (haside n hns)
  have hon : Onward known w w' := {
    nextContext := hw.nextContext
    ctxOf := fun _ ho => hw.ctxOf ho
    procs := fun {ctx} _ => by
      rw [(hw.contexts ctx).procs]
      exact .refl _
    tims := fun {ctx} _ => by
      rw [(hw.contexts ctx).tims]
      exact .refl _
    log := hsub }
  exact {
    size := hw.size.trans h.size
    inverse := fun ctx => by
      rw [(hw.contexts ctx).procs, (hw.contexts ctx).procsBack]
      exact h.inverse ctx
    issued := fun {ctx g l} hg => by
      rw [(hw.contexts ctx).procs] at hg
      obtain ⟨htaken, n, hn, hl⟩ := h.issued hg
      exact ⟨hw.procIds g htaken, n, Nat.lt_of_lt_of_le hn (hw.contexts ctx).counter, hl⟩
    timers := fun {ctx g l} hg => by
      rw [(hw.contexts ctx).tims] at hg
      exact hw.timIds g (h.timers hg)
    timersBack := fun {ctx l g} hl => by
      rw [(hw.contexts ctx).timsBack] at hl
      exact hw.timIds g (h.timersBack hl)
    timersSet := fun hmem => (h.timersSet (hold id hmem)).imp_right (hw.timIds _)
    objects := fun ho => (h.objects (hw.ctxOf ho)).imp_right
      fun hlt => Nat.lt_of_lt_of_le hlt hw.nextContext
    calls := fun hmem => by
      obtain ⟨ho, hq, hl⟩ := h.calls (hold id hmem)
      exact ⟨ho, hw.procIds _ hq, hon.namesCall ho hl⟩
    calledOnce := fun hmem hmem' => h.calledOnce (hold id hmem) (hold id hmem')
    callers := fun hp => CalledBy.mono (h.callers (hw.callers hp)) hsub
    attachers := hw.attachers.trans h.attachers
    messages := fun hm => hon.readable (List.Subset.refl _) (h.messages (hw.queue hm))
    attachments := fun ha => hon.knowsTimer (List.Subset.refl _) (h.attachments (hw.attachments ha))
    delivered := fun hmem => Translated.mono (h.delivered (hold id hmem)) hsub }

/-! ## New objects, contexts and procedures -/

theorem enqueue (h : NameInv genuine known w) (hm : w.Readable genuine known m) :
    NameInv genuine known (w.enqueue 0 m) :=
  { h with
    messages := fun {m'} hm' => by
      rw [queues_enqueue, if_pos rfl] at hm'
      rcases List.mem_append.mp hm' with hm' | hm'
      · exact h.messages hm'
      · exact List.mem_singleton.mp hm' ▸ hm }

/-- Anything but a call is noted. -/
theorem note (h : NameInv genuine known w) {n : Note} (hn : w.Admits genuine n) :
    NameInv genuine known (w.note n) := by
  have hsub : w.log <+: (w.note n).log := List.prefix_append _ _
  have hon : Onward known w (w.note n) := { Onward.refl known w with log := hsub }
  have hcalled : ∀ {t o p q l}, .called t o p q l ∈ (w.note n).log → .called t o p q l ∈ w.log := by
    intro t o p q l hmem
    refine (List.mem_append.mp hmem).resolve_right fun hmem => ?_
    rw [← List.mem_singleton.mp hmem] at hn
    exact hn
  exact { h with
    timersSet := fun {t o l g} hmem => by
      rcases List.mem_append.mp hmem with hmem | hmem
      · exact h.timersSet hmem
      · rw [← List.mem_singleton.mp hmem] at hn
        exact hn
    calls := fun hmem => by
      obtain ⟨ho, hq, hl⟩ := h.calls (hcalled hmem)
      exact ⟨ho, hq, hon.namesCall ho hl⟩
    calledOnce := fun hmem hmem' => h.calledOnce (hcalled hmem) (hcalled hmem')
    callers := fun hp => CalledBy.mono (h.callers hp) hsub
    messages := fun hm => hon.readable (List.Subset.refl _) (h.messages hm)
    attachments := fun ha => hon.knowsTimer (List.Subset.refl _) (h.attachments ha)
    delivered := fun {t d event} hmem => by
      rcases List.mem_append.mp hmem with hmem | hmem
      · exact Translated.mono (h.delivered hmem) hsub
      · rw [← List.mem_singleton.mp hmem] at hn
        exact Translated.mono hn hsub }

/-- An object is entered that was never there: nothing is known of its calls and timers. -/
theorem newObject (h : NameInv genuine known w) {x : Id} (hx : x ∉ known)
    (hctx : ctx < w.nextContext) :
    NameInv genuine (known ++ [x]) (w.setThread 0 ((w.threads 0).setObject x { ptr := some ctx })) := by
  have hctxOf : ∀ o, (w.setThread 0 ((w.threads 0).setObject x { ptr := some ctx })).ctxOf o =
      if o = x then some ctx else w.ctxOf o := by
    intro o
    unfold ctxOf
    rw [threads_setThread_self, ThreadData.objInfo_setObject]
    split <;> rfl
  have hknown : known ⊆ known ++ [x] := List.subset_append_left _ _
  have hon : Onward known w (w.setThread 0 ((w.threads 0).setObject x { ptr := some ctx })) :=
    { Onward.refl known w with
      ctxOf := fun {o ctx'} ho hctx' => by
        have hne : o ≠ x := fun heq => hx (heq ▸ ho)
        rwa [hctxOf, if_neg hne] at hctx' }
  exact {
    size := h.size
    inverse := h.inverse
    issued := h.issued
    timers := h.timers
    timersBack := h.timersBack
    timersSet := h.timersSet
    objects := fun {o ctx'} ho => by
      rw [hctxOf] at ho
      split at ho
      · rename_i heq
        rw [heq, ← Option.some.inj ho]
        exact ⟨List.mem_append_right _ List.mem_cons_self, hctx⟩
      · exact (h.objects ho).imp_left fun hmem => hknown hmem
    calls := fun hmem => by
      obtain ⟨ho, hq, hl⟩ := h.calls hmem
      exact ⟨hknown ho, hq, hon.namesCall ho hl⟩
    calledOnce := h.calledOnce
    callers := fun {p c} hp => by
      rw [enteredCaller, threads_setThread_self] at hp
      exact h.callers hp
    attachers := by
      rw [threads_setThread_self]
      exact h.attachers
    messages := fun hm => hon.readable hknown (h.messages hm)
    attachments := fun ha => hon.knowsTimer hknown (h.attachments ha)
    delivered := h.delivered }

end NameInv

/-- A new context leaves the old ones as they are. -/
theorem contexts_newContext (hlt : ctx < w.nextContext) :
    (w.setContext w.nextContext {}).contexts ctx = w.contexts ctx := by
  rw [contexts_setContext, if_neg (Nat.ne_of_lt hlt)]

/-- What holds of every old context and of an empty one holds of every context. -/
theorem forall_newContext {K : IoUringData V → Prop} (hold : ∀ ctx, K (w.contexts ctx))
    (hempty : K {}) (ctx : Nat) : K ((w.setContext w.nextContext {}).contexts ctx) := by
  rw [contexts_setContext]
  split
  · exact hempty
  · exact hold ctx

namespace NameInv

/-- An object gets the context that is passed to it, or a new one. -/
theorem takeContext (h : NameInv genuine known w) {shared : Option Nat}
    (hshared : ∀ ctx, shared = some ctx → ctx < w.nextContext)
    (htake : w.takeContext shared = (ctx, w')) : NameInv genuine known w' ∧ ctx < w'.nextContext := by
  cases shared with
  | some ctx' =>
    obtain ⟨rfl, rfl⟩ := Prod.mk.inj htake
    exact ⟨h, hshared ctx' rfl⟩
  | none =>
    obtain ⟨rfl, rfl⟩ := Prod.mk.inj htake
    have hon : Onward known w
        { w.setContext w.nextContext {} with nextContext := w.nextContext + 1 } := {
      nextContext := Nat.le_succ _
      ctxOf := fun _ ho => ho
      procs := fun hlt => by
        rw [contexts_newContext hlt]
        exact .refl _
      tims := fun hlt => by
        rw [contexts_newContext hlt]
        exact .refl _
      log := List.prefix_rfl }
    refine ⟨?_, Nat.lt_succ_self _⟩
    exact {
      size := h.size
      inverse := forall_newContext (K := fun d => Inverse d.globalProcToLocalProc d.localProcToGlobalProc)
        h.inverse inverse_empty
      issued := fun {ctx g l} hg => forall_newContext (K := fun d => d.globalProcToLocalProc g = some l →
        Taken w.procIds g ∧ ∃ n < d.localProcId, l = some n) (fun _ => h.issued)
        (fun hg => nomatch hg) ctx hg
      timers := fun {ctx g l} hg => forall_newContext (K := fun d => d.globalTimToLocalTim g = some l →
        Taken w.timIds g) (fun _ => h.timers) (fun hg => nomatch hg) ctx hg
      timersBack := fun {ctx l g} hl => forall_newContext (K := fun d => d.localTimToGlobalTim l = some g →
        Taken w.timIds g) (fun _ => h.timersBack) (fun hl => nomatch hl) ctx hl
      timersSet := h.timersSet
      objects := fun ho => (h.objects ho).imp_right Nat.lt_succ_of_lt
      calls := fun hmem => by
        obtain ⟨ho, hq, hl⟩ := h.calls hmem
        exact ⟨ho, hq, hon.namesCall ho hl⟩
      calledOnce := h.calledOnce
      callers := h.callers
      attachers := h.attachers
      messages := fun hm => hon.readable (List.Subset.refl _) (h.messages hm)
      attachments := fun ha => hon.knowsTimer (List.Subset.refl _) (h.attachments ha)
      delivered := h.delivered }

/-- A call is carried out: its procedure is entered with the caller of the message. -/
theorem enter (h : NameInv genuine known w) {f : FunctionCall V} {obj : ObjectDataThreaded}
    (hf : CalledBy w.log f.ti.procId (f.ci.threadId, f.ci.objId, f.ci.procId))
    (hobj : (w.threads 0).objInfo f.ti.objId = some obj) :
    NameInv genuine known (w.enter 0 f obj) := by
  obtain ⟨td, henter⟩ : ∃ td, w.enter 0 f obj =
      (w.setThread 0 td).note (.started 0 f.ti.objId f.ti.procId) := ⟨_, rfl⟩
  have hthread : (w.enter 0 f obj).threads 0 = (w.setThread 0 td).threads 0 := by
    rw [henter, threads_note]
  have hctxOf : (w.setThread 0 td).ctxOf = w.ctxOf := by
    funext o
    rw [ctxOf, ctxOf, ← hthread, objInfo_enter_self]
    split
    · rename_i heq
      rw [heq, hobj]
      rfl
    · rfl
  have hon : Onward known w (w.setThread 0 td) :=
    { Onward.refl known w with ctxOf := fun _ ho => hctxOf ▸ ho }
  rw [henter]
  refine NameInv.note ?_ trivial
  exact { h with
    objects := fun ho => h.objects (hctxOf ▸ ho)
    calls := fun hmem => by
      obtain ⟨ho, hq, hl⟩ := h.calls hmem
      exact ⟨ho, hq, hon.namesCall ho hl⟩
    callers := fun {p c} hp => by
      rw [enteredCaller, ← hthread, procToDat_enter_self] at hp
      split at hp
      · rename_i heq
        rw [heq, ← Option.some.inj hp]
        exact hf
      · exact h.callers hp
    attachers := by
      have hattach : ((w.enter 0 f obj).threads 0).alsoNotify = (w.threads 0).alsoNotify :=
        proj_setThread w 0 0 _ (·.alsoNotify) rfl
      rw [← hthread, hattach]
      exact h.attachers
    messages := fun hm => hon.readable (List.Subset.refl _) (h.messages hm)
    attachments := fun ha => hon.knowsTimer (List.Subset.refl _) (h.attachments ha) }

end NameInv

/-! ## Calls and timers -/

/-- The note of `process_queued_timers` is not that of a call or of a delivery. -/
theorem mem_of_mem_noted {L : List Note} {n : Note} {q : EventQueuedTimer} {g : Id}
    (hmem : n ∈ L ++ [q.noted 0 ti g]) (hn : n.quiet = false) : n ∈ L := by
  refine (List.mem_append.mp hmem).resolve_right fun hn' => ?_
  rw [List.mem_singleton.mp hn', EventQueuedTimer.noted] at hn
  split at hn <;> cases hn

theorem timerSet_mem_noted {L : List Note} {t : Nat} {o l g g' : Id} {q : EventQueuedTimer}
    (hmem : .timerSet t o l g' ∈ L ++ [q.noted 0 ti g]) : .timerSet t o l g' ∈ L ∨ g' = g := by
  refine (List.mem_append.mp hmem).imp_right fun hn => ?_
  have heq := List.mem_singleton.mp hn
  rw [EventQueuedTimer.noted] at heq
  split at heq
  · cases heq
  · exact (Note.timerSet.inj heq).2.2.2

theorem contexts_addCall (w : World V σ) {t : Nat} (ctx : Nat) (ti : TargetInfo)
    (q : EventQueuedFunction V) (objectId : Id) (target ctx' : Nat) :
    (w.addCall t ctx ti q objectId target).contexts ctx' = if ctx' = ctx then
      (w.contexts ctx).globalToLocal (getId w.procIds (some t)).1 q.localId
      else w.contexts ctx' :=
  contexts_setContext (w := w) _ ctx'

theorem contexts_addChild (w : World V σ) {t : Nat} (ctx : Nat) (ti : TargetInfo)
    (q : EventQueuedConstruct V) (runThread ctx' : Nat) :
    (w.addChild t ctx ti q runThread).contexts ctx' = if ctx' = ctx then
      (w.contexts ctx).setLocator q.idx q.vidx
        { objectId := (getId w.objIds (some t)).1, threadId := [runThread] }
      else w.contexts ctx' :=
  contexts_setContext (w := w) _ ctx'

theorem contexts_addTimer (w : World V σ) {t : Nat} (ctx : Nat) (ti : TargetInfo)
    (q : EventQueuedTimer) (ctx' : Nat) :
    (w.addTimer t ctx ti q).contexts ctx' = if ctx' = ctx then
      (w.contexts ctx).globalToLocalTim (getId w.timIds (some t)).1 q.localId
      else w.contexts ctx' :=
  contexts_setContext (w := w) _ ctx'

theorem ctxOf_congr (h : (w'.threads 0).objInfo = (w.threads 0).objInfo) : w'.ctxOf = w.ctxOf := by
  funext o
  rw [ctxOf, ctxOf, h]

/-- An object that has a context keeps it when its entry changes otherwise. -/
theorem bind_ptr_eq {td td' : ThreadData V} {o : Id} {obj : ObjectDataThreaded}
    (hctx : (td.objInfo o).bind (·.ptr) = some ctx)
    (hobj : ∀ id, td'.objInfo id = if id = o then some obj else td.objInfo id)
    (hptr : obj.ptr = (td.object o).ptr) (id : Id) :
    (td'.objInfo id).bind (·.ptr) = (td.objInfo id).bind (·.ptr) := by
  obtain ⟨old, hold, -⟩ := Option.bind_eq_some_iff.mp hctx
  rw [hobj]
  split
  · rename_i heq
    rw [Option.bind_some, hptr, ThreadData.object, heq, hold]
    rfl
  · rfl

/-- The object of a handler run keeps its context. -/
theorem Queued.ctxAt_eq {t : Nat} (h : Queued t ctx ti es w w')
    (hctx : w.ctxAt t ti.objId = some ctx) : w'.ctxAt t = w.ctxAt t := by
  have hsame : (w'.threads t).objInfo = (w.threads t).objInfo → w'.ctxAt t = w.ctxAt t := by
    intro hobj
    funext o
    rw [ctxAt, ctxAt, hobj]
  rcases h.essential with hcore | hessential
  · exact hsame hcore.objInfo
  · cases hessential with
    | child q runThread _ =>
      exact funext (bind_ptr_eq hctx (objInfo_addChild q runThread) rfl)
    | call q info locator target _ _ _ _ _ =>
      exact funext (bind_ptr_eq hctx (objInfo_addCall q locator.objectId target) rfl)
    | delete q thread _ _ _ => rfl
    | dropChild q _ =>
      have hthread : (w.dropChild t ti q.objId).threads t = (w.threads t).setObject ti.objId _ :=
        threads_setThread_self ..
      have hobj := fun id => (congrArg (fun td : ThreadData V => td.objInfo id) hthread).trans
        (ThreadData.objInfo_setObject ..)
      exact funext (bind_ptr_eq hctx hobj rfl)

/-- So it does after an entry for a timer. -/
theorem ctxAt_queuedTimer {t : Nat} {q : EventQueuedTimer} (hctx : w.ctxAt t ti.objId = some ctx)
    (hstep : w.queuedTimer t ctx ti q = .ok w') : w'.ctxAt t ti.objId = some ctx := by
  have hqueued : Relation.ReflTransGen (Queued t ctx ti { timer := [q] }) w w' :=
    queuedTimer_queued List.mem_cons_self hstep
  refine transGen_invariant (I := fun w => w.ctxAt t ti.objId = some ctx) hqueued hctx ?_
  exact fun _ _ hctx hq => (congrFun (hq.ctxAt_eq hctx) _).trans hctx

theorem ctxOf_addCall (hctx : w.ctxOf ti.objId = some ctx) (q : EventQueuedFunction V) (objectId : Id)
    (target : Nat) : (w.addCall 0 ctx ti q objectId target).ctxOf = w.ctxOf :=
  funext (bind_ptr_eq hctx (objInfo_addCall q objectId target) rfl)

namespace NameInv

section AddCall

variable {q : EventQueuedFunction V} {objectId : Id}

/-- No context knows the identifier of the new call. -/
theorem unknown_addCall (h : NameInv genuine known w) (ctx : Nat) :
    (w.contexts ctx).globalProcToLocalProc (getId w.procIds (some 0)).1 = none := by
  by_contra hne
  obtain ⟨l, hl⟩ := Option.ne_none_iff_exists'.mp hne
  exact not_taken_getId w.procIds (some 0) (h.issued hl).1

theorem onward_addCall (h : NameInv genuine known w) (hctx : w.ctxOf ti.objId = some ctx) :
    Onward known w (w.addCall 0 ctx ti q objectId 0) where
  nextContext := Nat.le_refl _
  ctxOf := fun _ ho => ctxOf_addCall hctx q objectId 0 ▸ ho
  procs {ctx'} _ := by
    rw [contexts_addCall]
    split
    · rename_i heq
      rw [heq]
      exact Extends.enter (h.unknown_addCall ctx) _
    · exact .refl _
  tims {ctx'} _ := by
    rw [contexts_addCall]
    split
    · rename_i heq
      rw [heq]
      exact .refl _
    · exact .refl _
  log := List.prefix_append _ _

theorem mem_addCall {n : Note}
    (hn : n ≠ .called 0 ti.objId ti.procId (getId w.procIds (some 0)).1 q.localId)
    (hmem : n ∈ (w.addCall 0 ctx ti q objectId 0).log) : n ∈ w.log :=
  (List.mem_append.mp hmem).resolve_right fun hn' => hn (List.mem_singleton.mp hn')

/-- A call that is noted is an earlier one, or the new one. -/
theorem called_addCall {t : Nat} {o p p' l : Id}
    (hmem : .called t o p p' l ∈ (w.addCall 0 ctx ti q objectId 0).log) :
    .called t o p p' l ∈ w.log ∨ (o = ti.objId ∧ p = ti.procId ∧
      p' = (getId w.procIds (some 0)).1 ∧ l = q.localId) := by
  refine (List.mem_append.mp hmem).imp_right fun hmem => ?_
  obtain ⟨-, rfl, rfl, rfl, rfl⟩ := Note.called.inj (List.mem_singleton.mp hmem)
  exact ⟨rfl, rfl, rfl, rfl⟩

theorem taken_addCall {id : Id} (hid : Taken w.procIds id) :
    Taken (w.addCall 0 ctx ti q objectId 0).procIds id :=
  (taken_getId _ _ id).mpr (Or.inl hid)

theorem issued_addCall (h : NameInv genuine known w)
    (hissued : ∃ n < (w.contexts ctx).localProcId, q.localId = some n) {ctx' : Nat} {g l : Id}
    (hg : ((w.addCall 0 ctx ti q objectId 0).contexts ctx').globalProcToLocalProc g = some l) :
    Taken (w.addCall 0 ctx ti q objectId 0).procIds g ∧
      ∃ n < ((w.addCall 0 ctx ti q objectId 0).contexts ctx').localProcId, l = some n := by
  rw [contexts_addCall] at hg ⊢
  split at hg
  · rename_i heq
    rw [if_pos heq]
    simp only [IoUringData.globalToLocal, Function.update_apply] at hg
    split at hg
    · rename_i hgid
      rw [hgid, ← Option.some.inj hg]
      exact ⟨(taken_getId ..).mpr (Or.inr rfl), hissued⟩
    · exact (h.issued hg).imp_left taken_addCall
  · rename_i hne
    rw [if_neg hne]
    exact (h.issued hg).imp_left taken_addCall

theorem calls_addCall (h : NameInv genuine known w) (hctx : w.ctxOf ti.objId = some ctx) {t : Nat}
    {o p p' l : Id} (hmem : .called t o p p' l ∈ (w.addCall 0 ctx ti q objectId 0).log) :
    o ∈ known ∧ Taken (w.addCall 0 ctx ti q objectId 0).procIds p' ∧
      (w.addCall 0 ctx ti q objectId 0).NamesCall o p' l := by
  rcases called_addCall hmem with hmem | ⟨rfl, rfl, rfl, rfl⟩
  · obtain ⟨ho, hq, hl⟩ := h.calls hmem
    exact ⟨ho, taken_addCall hq, (h.onward_addCall hctx).namesCall ho hl⟩
  · obtain ⟨hknown, hlt⟩ := h.objects hctx
    refine ⟨hknown, (taken_getId ..).mpr (Or.inr rfl), fun ctx' hctx' => ?_⟩
    rw [ctxOf_addCall hctx, hctx] at hctx'
    obtain rfl := Option.some.inj hctx'
    refine ⟨hlt, ?_⟩
    rw [contexts_addCall, if_pos rfl]
    exact Function.update_self ..

theorem calledOnce_addCall (h : NameInv genuine known w) {t t' : Nat} {o p p' l o₁ p₁ l₁ : Id}
    (hmem : .called t o p p' l ∈ (w.addCall 0 ctx ti q objectId 0).log)
    (hmem' : .called t' o₁ p₁ p' l₁ ∈ (w.addCall 0 ctx ti q objectId 0).log) :
    o = o₁ ∧ p = p₁ ∧ l = l₁ := by
  have hfresh := not_taken_getId w.procIds (some 0)
  rcases called_addCall hmem with hmem | ⟨rfl, rfl, rfl, rfl⟩
  · rcases called_addCall hmem' with hmem' | ⟨-, -, rfl, -⟩
    · exact h.calledOnce hmem hmem'
    · exact absurd (h.calls hmem).2.1 hfresh
  · rcases called_addCall hmem' with hmem' | ⟨rfl, rfl, -, rfl⟩
    · exact absurd (h.calls hmem').2.1 hfresh
    · exact ⟨rfl, rfl, rfl⟩

theorem messages_addCall (h : NameInv genuine known w) (hctx : w.ctxOf ti.objId = some ctx)
    {m : EventVariant V} (hm : m ∈ (w.addCall 0 ctx ti q objectId 0).queues 0) :
    (w.addCall 0 ctx ti q objectId 0).Readable genuine known m := by
  obtain ⟨f, hti, hci, hqueues⟩ := message_addCall w 0 ctx ti q objectId 0
  rw [hqueues, if_pos rfl] at hm
  rcases List.mem_append.mp hm with hm | hm
  · exact (h.onward_addCall hctx).readable (List.Subset.refl _) (h.messages hm)
  · rw [List.mem_singleton.mp hm]
    intro _
    rw [hti, hci]
    exact ⟨q.localId, List.mem_append_right _ List.mem_cons_self⟩

/-- A call is sent under a new global identifier, which its context pairs with the local one. -/
theorem addCall (h : NameInv genuine known w) (hctx : w.ctxOf ti.objId = some ctx)
    (hissued : ∃ n < (w.contexts ctx).localProcId, q.localId = some n)
    (hback : (w.contexts ctx).localProcToGlobalProc q.localId = none) (objectId : Id) :
    NameInv genuine known (w.addCall 0 ctx ti q objectId 0) := by
  have hon : Onward known w (w.addCall 0 ctx ti q objectId 0) := h.onward_addCall hctx
  exact {
    size := h.size
    inverse := fun ctx' => by
      rw [contexts_addCall]
      split
      · exact (h.inverse ctx).enter (h.unknown_addCall ctx) hback
      · exact h.inverse ctx'
    issued := h.issued_addCall hissued
    timers := fun {ctx' g l} hg => by
      rw [contexts_addCall] at hg
      split at hg
      · exact h.timers hg
      · exact h.timers hg
    timersBack := fun {ctx' l g} hl => by
      rw [contexts_addCall] at hl
      split at hl
      · exact h.timersBack hl
      · exact h.timersBack hl
    timersSet := fun hmem => h.timersSet (mem_addCall Note.noConfusion hmem)
    objects := fun ho => h.objects (ctxOf_addCall hctx q objectId 0 ▸ ho)
    calls := h.calls_addCall hctx
    calledOnce := h.calledOnce_addCall
    callers := fun {p c} hp => by
      rw [enteredCaller, procToDat_addCall] at hp
      exact CalledBy.mono (h.callers hp) hon.log
    attachers := (proj_setThread _ 0 0 _ (·.alsoNotify) rfl).trans h.attachers
    messages := h.messages_addCall hctx
    attachments := fun ha => hon.knowsTimer (List.Subset.refl _) (h.attachments ha)
    delivered := fun hmem => Translated.mono (h.delivered (mem_addCall Note.noConfusion hmem)) hon.log }

end AddCall

/-- A timer that has an entry is removed or gets another time. -/
theorem noteTimer (h : NameInv genuine known w) (q : EventQueuedTimer) {g : Id}
    (hg : g = none ∨ Taken w.timIds g) : NameInv genuine known (w.noteTimer 0 ti q g) := by
  refine h.note ?_
  split
  · trivial
  · exact hg

/-- A timer is entered; in a genuine run the entry is that of a call of `timer`. -/
theorem addTimer (h : NameInv genuine known w) (hctx : w.ctxOf ti.objId = some ctx)
    {q : EventQueuedTimer} (hq : genuine → q.cancels = false) :
    NameInv genuine known (w.addTimer 0 ctx ti q) := by
  have hsame : SameCore 0 w (w.addTimer 0 ctx ti q) := (SameCore.refl 0 w).addTimer q
  have hfresh := not_taken_getId w.timIds (some 0)
  have hids : ∀ id, Taken w.timIds id → Taken (w.addTimer 0 ctx ti q).timIds id :=
    fun id hid => (taken_getId _ _ id).mpr (Or.inl hid)
  have hnone : (w.contexts ctx).globalTimToLocalTim (getId w.timIds (some 0)).1 = none := by
    by_contra hne
    obtain ⟨l, hl⟩ := Option.ne_none_iff_exists'.mp hne
    exact hfresh (h.timers hl)
  have hcontexts := contexts_addTimer w (t := 0) ctx ti q
  have hctxOf : (w.addTimer 0 ctx ti q).ctxOf = w.ctxOf := ctxOf_congr hsame.objInfo
  have hlog : (w.addTimer 0 ctx ti q).log = w.log ++ [q.noted 0 ti (getId w.timIds (some 0)).1] := rfl
  have hsub : w.log <+: (w.addTimer 0 ctx ti q).log := List.prefix_append _ _
  have hold : ∀ {n : Note}, n.quiet = false → n ∈ (w.addTimer 0 ctx ti q).log → n ∈ w.log :=
    fun hn hmem => mem_of_mem_noted (hlog ▸ hmem) hn
  have hon : Onward known w (w.addTimer 0 ctx ti q) := {
    nextContext := Nat.le_refl _
    ctxOf := fun _ ho => hctxOf ▸ ho
    procs := fun {ctx'} _ => by
      rw [hsame.globalProcToLocalProc]
      exact .refl _
    tims := fun {ctx'} _ => by
      rw [hcontexts]
      split
      · rename_i heq
        rw [heq]
        exact Extends.enter hnone _
      · exact .refl _
    log := hsub }
  exact {
    size := h.size
    inverse := fun ctx' => by
      rw [hsame.globalProcToLocalProc, hsame.localProcToGlobalProc]
      exact h.inverse ctx'
    issued := fun {ctx' g l} hg => by
      rw [hsame.globalProcToLocalProc] at hg
      rw [hsame.localProcId]
      exact h.issued hg
    timers := fun {ctx' g l} hg => by
      rw [hcontexts] at hg
      split at hg
      · simp only [IoUringData.globalToLocalTim, Function.update_apply] at hg
        split at hg
        · rename_i hgid
          exact hgid ▸ (taken_getId ..).mpr (Or.inr rfl)
        · exact hids g (h.timers hg)
      · exact hids g (h.timers hg)
    timersBack := fun {ctx' l g} hl => by
      rw [hcontexts] at hl
      split at hl
      · simp only [IoUringData.globalToLocalTim, Function.update_apply] at hl
        split at hl
        · exact Option.some.inj hl ▸ (taken_getId ..).mpr (Or.inr rfl)
        · exact hids g (h.timersBack hl)
      · exact hids g (h.timersBack hl)
    timersSet := fun hmem => by
      rw [hlog] at hmem
      rcases timerSet_mem_noted hmem with hmem | rfl
      · exact (h.timersSet hmem).imp_right (hids _)
      · exact Or.inr ((taken_getId ..).mpr (Or.inr rfl))
    objects := fun ho => h.objects (hctxOf ▸ ho)
    calls := fun hmem => by
      obtain ⟨ho, hq, hl⟩ := h.calls (hold rfl hmem)
      exact ⟨ho, hq, hon.namesCall ho hl⟩
    calledOnce := fun hmem hmem' => h.calledOnce (hold rfl hmem) (hold rfl hmem')
    callers := fun {p c} hp => by
      rw [enteredCaller, hsame.procToDat] at hp
      exact CalledBy.mono (h.callers hp) hsub
    attachers := by
      refine Eq.trans (proj_setThread _ 0 0 _ (·.alsoNotify) rfl) ?_
      exact (proj_setThread _ 0 0 _ (·.alsoNotify) rfl).trans h.attachers
    messages := fun hm => hon.readable (List.Subset.refl _) (h.messages (hsame.queues ▸ hm))
    attachments := fun {a g o p} ha => by
      change Function.update _ _ _ a = _ at ha
      rw [Function.update_apply] at ha
      split at ha
      · -- the new timeout
        obtain ⟨rfl, rfl, rfl⟩ := IoUringAttached.timer.inj (Option.some.inj ha)
        obtain ⟨hknown, hlt⟩ := h.objects hctx
        refine ⟨hknown, q.localId, fun ctx' hctx' => ?_, fun hgenuine => ?_⟩
        · rw [hctxOf, hctx] at hctx'
          obtain rfl := Option.some.inj hctx'
          refine ⟨hlt, ?_⟩
          rw [hcontexts, if_pos rfl]
          exact Function.update_self ..
        · -- the identifier is new, so that nothing was noted of it
          refine ⟨w.log, [], ?_, fun t o' l' hmem => ?_⟩
          · rw [hlog, EventQueuedTimer.noted, hq hgenuine]
            rfl
          · have hid : Taken (getId w.timIds (some 0)).2 (getId w.timIds (some 0)).1 :=
              (taken_getId ..).mpr (Or.inr rfl)
            exact (h.timersSet hmem).elim (taken_ne_none hid) hfresh
      · exact hon.knowsTimer (List.Subset.refl _) (h.attachments ha)
    delivered := fun hmem => Translated.mono (h.delivered (hold rfl hmem)) hsub }

end NameInv

end World

end LocalSoftware
