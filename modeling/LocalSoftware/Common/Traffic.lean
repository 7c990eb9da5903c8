import LocalSoftware.Common.CompletionPaths
import LocalSoftware.Common.History

/-!
# The traffic of messages

What the threads say to each other, without the tables behind it: `Traffic` has the queues, the
callers that are entered for the procedures, the identifiers that were handed out and the history, and
`Move` lists what can happen to them, for any program. `step_moves` shows that every step of the
runtime is a sequence of moves, so that what each move keeps is kept by the runtime
(`moves_invariant`).
-/

set_option autoImplicit false

namespace LocalSoftware

open Relation

variable {V : Vocabulary} {σ : Type}

/-- The queues, the callers, the identifiers and the history. -/
structure Traffic (V : Vocabulary) where
  size : Nat
  queues : Nat → List (EventVariant V)
  entered : Nat → Id → Option (ThreadId × Id × Id)
  procIds : Ids
  objIds : Ids
  log : List Note

namespace Traffic

variable (T : Traffic V) (t t' : Nat) (m : EventVariant V) (rest : List (EventVariant V)) (n : Note)

/-- A message is sent. -/
def push : Traffic V := { T with queues := Function.update T.queues t (T.queues t ++ [m]) }

/-- The head of a queue is taken. -/
def pop : Traffic V := { T with queues := Function.update T.queues t rest }

/-- Something is noted. -/
def note : Traffic V := { T with log := T.log ++ [n] }

/-- The caller of a procedure is entered. -/
def enter (f : FunctionCall V) : Traffic V :=
  { T with entered := fun t' p => if t' = t ∧ p = f.ti.procId
    then some (f.ci.threadId, f.ci.objId, f.ci.procId) else T.entered t' p }

/-- An identifier of a procedure is drawn. -/
def drawProc (t : ThreadId) : Traffic V := { T with procIds := (getId T.procIds t).2 }

/-- An identifier of an object is drawn. -/
def drawObj (t : ThreadId) : Traffic V := { T with objIds := (getId T.objIds t).2 }

theorem queues_push : (T.push t m).queues t' =
    if t' = t then T.queues t' ++ [m] else T.queues t' := by
  unfold push
  by_cases h : t' = t
  · subst h
    rw [if_pos rfl]
    exact Function.update_self ..
  · rw [if_neg h]
    exact Function.update_of_ne h ..

theorem queues_pop : (T.pop t rest).queues t' = if t' = t then rest else T.queues t' := by
  unfold pop
  by_cases h : t' = t
  · subst h
    rw [if_pos rfl]
    exact Function.update_self ..
  · rw [if_neg h]
    exact Function.update_of_ne h ..

section Projections

variable {α : Type} (f : EventVariant V → Option α)

/-- A message that counts is the last one afterwards. -/
theorem filterMap_push_some {a : α} (hm : f m = some a) : ((T.push t m).queues t').filterMap f =
    if t' = t then (T.queues t').filterMap f ++ [a] else (T.queues t').filterMap f := by
  rw [queues_push]
  split
  · rw [List.filterMap_append, List.filterMap_cons, hm]
    rfl
  · rfl

theorem filterMap_push_none (hm : f m = none) :
    ((T.push t m).queues t').filterMap f = (T.queues t').filterMap f := by
  rw [queues_push]
  split
  · rw [List.filterMap_append, List.filterMap_cons, hm]
    exact List.append_nil _
  · rfl

theorem filterMap_pop_none (hq : T.queues t = m :: rest) (hm : f m = none) :
    ((T.pop t rest).queues t').filterMap f = (T.queues t').filterMap f := by
  rw [queues_pop]
  split
  · rename_i ht
    rw [ht, hq, List.filterMap_cons, hm]
  · rfl

theorem filterMap_pop : ((T.pop t rest).queues t').filterMap f =
    if t' = t then rest.filterMap f else (T.queues t').filterMap f := by
  rw [queues_pop]
  split <;> rfl

end Projections

end Traffic

/-- The result that a completion carries: the procedure, its status and its code. A copy that was
forwarded carries none. -/
def Data.result (d : Data) : Option (Id × CallStatus × Int) :=
  if d.copy then none
  else
    match d.data with
    | .childTaskCompletion c => some (c.taskId, c.status, c.returnCode)
    | _ => none

/-- What can happen to the messages. -/
inductive Move : Traffic V → Traffic V → Prop where
  /-- A handler queued a construction. -/
  | construct (T : Traffic V) (t : Nat) (c : ConstructorCall V)
      (hc : c.ti = ⟨(getId T.objIds (some t)).1, none⟩) :
      Move T ((T.drawObj (some t)).push t (.constructorCall c))
  /-- A handler queued a call. -/
  | call (T : Traffic V) (t target : Nat) (f : FunctionCall V) (l : Id) (htarget : target < T.size)
      (hf : f.ti.procId = (getId T.procIds (some t)).1) (hci : f.ci.threadId = some t) :
      Move T (((T.drawProc (some t)).push target (.functionCall f)).note
        (.called t f.ci.objId f.ci.procId f.ti.procId l))
  | delete (T : Traffic V) (t : Nat) (d : Delete) : Move T (T.push t (.delete d))
  /-- Something else is noted. -/
  | aside (T : Traffic V) (n : Note) (hn : n.Inert ∨ ∃ t o, n = .deleted t o) : Move T (T.note n)
  /-- A procedure reported a result, and nobody is told. -/
  | result (T : Traffic V) (q : Id) (s : CallStatus) (c : Int) : Move T (T.note (.reported q s c))
  /-- A procedure reported a result to the caller that is entered for it. -/
  | completion (T : Traffic V) (t t' : Nat) (d : Data) (q : Id) (s : CallStatus) (c : Int)
      (hd : d.result = some (q, s, c))
      (hcaller : T.entered t q = some (some t', d.ti.objId, d.ti.procId)) :
      Move T ((T.note (.reported q s c)).push t' (.data d))
  /-- An attached procedure gets a copy, or a request was completed. -/
  | data (T : Traffic V) (t : Nat) (d : Data) (hd : d.result = none) : Move T (T.push t (.data d))
  | started (T : Traffic V) (t : Nat) (f : FunctionCall V) (rest : List (EventVariant V))
      (ht : t < T.size) (hq : T.queues t = .functionCall f :: rest) :
      Move T (((T.pop t rest).enter t f).note (.started t f.ti.objId f.ti.procId))
  | delivered (T : Traffic V) (t : Nat) (d : Data) (event : EventType)
      (rest : List (EventVariant V)) (hq : T.queues t = .data d :: rest) :
      Move T ((T.pop t rest).note (.delivered t d event))
  /-- A message is taken that starts no procedure and is not delivered. -/
  | taken (T : Traffic V) (t : Nat) (m : EventVariant V) (rest : List (EventVariant V))
      (hq : T.queues t = m :: rest) (hm : m.starts = none) : Move T (T.pop t rest)
  /-- A `RootStart` becomes a construction and a call. -/
  | root (T : Traffic V) (t : Nat) (r : RootStart V) (c : ConstructorCall V) (f : FunctionCall V)
      (rest : List (EventVariant V)) (ht : t < T.size) (hq : T.queues t = .rootStart r :: rest)
      (hc : c.ti = ⟨r.ti.objId, none⟩) (hf : f.ti = r.ti) (hci : f.ci.threadId = none) :
      Move T (((T.pop t rest).push t (.constructorCall c)).push t (.functionCall f))
  /-- Entries are removed with their object. -/
  | forget (T : Traffic V) (entered : Nat → Id → Option (ThreadId × Id × Id))
      (h : ∀ t p, entered t p = none ∨ entered t p = T.entered t p) :
      Move T { T with entered }
  | rootEvent (T : Traffic V) (r : RootStart V) (hsize : 0 < T.size)
      (hr : r.ti = ⟨(getId T.objIds none).1, (getId T.procIds none).1⟩) :
      Move T (((T.drawObj none).drawProc none).push 0 (.rootStart r))

namespace World

/-- The traffic of a world. -/
def traffic (w : World V σ) : Traffic V where
  size := w.size
  queues := w.queues
  entered := w.enteredCaller
  procIds := w.procIds
  objIds := w.objIds
  log := w.log

variable {w w' w'' : World V σ} {t ctx : Nat} {ti : TargetInfo} {es : EventState V}
  {P : Program V σ} {m : EventVariant V} {rest : List (EventVariant V)}

/-- The traffic between two worlds. -/
def Moves (w w' : World V σ) : Prop := ReflTransGen Move w.traffic w'.traffic

/-- The traffic is the same, but for the entries that were removed. -/
structure SameTraffic (w w' : World V σ) : Prop where
  size : w'.size = w.size
  queues : w'.queues = w.queues
  procIds : w'.procIds = w.procIds
  objIds : w'.objIds = w.objIds
  log : w'.log = w.log
  callers : ∀ t p, KeepsCaller t p w w'

namespace Moves

theorem refl (w : World V σ) : Moves w w := ReflTransGen.refl

theorem trans (h : Moves w w') (h' : Moves w' w'') : Moves w w'' := ReflTransGen.trans h h'

theorem same (h : Moves w w') (hw : SameTraffic w' w'') : Moves w w'' := by
  refine h.tail ?_
  have hforget := Move.forget w'.traffic w''.enteredCaller hw.callers
  have hsame : w''.traffic = { w'.traffic with entered := w''.enteredCaller } := by
    simp only [traffic, hw.size, hw.queues, hw.procIds, hw.objIds, hw.log]
  rw [hsame]
  exact hforget

theorem move (h : Moves w w') {T : Traffic V} (hT : Move w'.traffic T)
    (hcallers : ∀ t p, w''.enteredCaller t p = T.entered t p)
    (hw : { w''.traffic with entered := T.entered } = T) : Moves w w'' := by
  refine h.tail ?_
  have hentered : w''.traffic.entered = T.entered := funext fun t => funext (hcallers t)
  have hsame : w''.traffic = T := by
    rw [← hw, ← hentered]
  rw [hsame]
  exact hT

theorem submit (h : Moves w w') (t : Nat) : Moves w (w'.submit t) :=
  h.same ⟨rfl, rfl, rfl, rfl, rfl, fun t' _ => .of_procToDat (submit_procToDat w' t t')⟩

end Moves

/-- The caller of a procedure does not depend on the other tables. -/
theorem enteredCaller_eq (h : (w'.threads t).procToDat = (w.threads t).procToDat) (p : Id) :
    w'.enteredCaller t p = w.enteredCaller t p := by
  unfold enteredCaller
  rw [h]

/-! ## The updates of `process_queued` -/

theorem Queued.moves (h : Queued t ctx ti es w w') : Moves w w' := by
  have hcallers : ∀ t p, w'.enteredCaller t p = w.enteredCaller t p :=
    fun t p => enteredCaller_eq (h.procToDat t) p
  have hkeeps : ∀ t p, KeepsCaller t p w w' := fun t p => .of_procToDat (h.procToDat t)
  have hinert : ∀ n : Note, n.Inert → { w'.traffic with entered := w.enteredCaller } =
      w.traffic.note n → Moves w w' :=
    fun n hn hw => .move (.refl w) (.aside _ n (Or.inl hn)) hcallers hw
  have hnote : ∀ (q : EventQueuedTimer) (id : Id), (if q.cancels then
      Note.timerCancelled t ti.objId q.localId else .timerSet t ti.objId q.localId id).Inert := by
    intro q id
    split <;> trivial
  cases h with
  | decision => exact .same (.refl w) ⟨rfl, rfl, rfl, rfl, rfl, hkeeps⟩
  | child q runThread _ => exact .move (.refl w) (.construct w.traffic t _ rfl) hcallers rfl
  | call q info locator target _ _ _ _ htarget =>
    let f : FunctionCall V := {
      call := q.fn
      ci := { threadId := some t, objId := ti.objId, procId := ti.procId }
      ti := { objId := locator.objectId, procId := (getId w.procIds (some t)).1 } }
    exact .move (.refl w) (.call w.traffic t target f q.localId htarget rfl rfl) hcallers rfl
  | uring q _ _ => exact .same (.refl w) ⟨rfl, rfl, rfl, rfl, rfl, hkeeps⟩
  | removeTimer q data _ _ _ => exact hinert _ (hnote q _) rfl
  | updateTimer q data _ _ _ _ => exact hinert _ (hnote q _) rfl
  | addTimer q _ _ _ => exact hinert _ (hnote q _) rfl
  | delete q thread _ _ _ => exact .move (.refl w) (.delete w.traffic thread _) hcallers rfl
  | dropChild q _ => exact .same (.refl w) ⟨rfl, rfl, rfl, rfl, rfl, hkeeps⟩
  | attach q _ =>
    exact hinert (.attached t ti.objId ti.procId q.targetLocalId
      ((w.contexts ctx).translateProcLocal q.targetLocalId)) trivial rfl

theorem processQueued_moves (h : w.processQueued t ctx ti es = .ok w') : Moves w w' :=
  transGen_invariant (processQueued_queued h) (.refl w) fun _ _ hw hq => hw.trans hq.moves

/-! ## The messages -/

/-- The entry of a procedure gets another status. -/
theorem setProc_same {p : Id} {d : CallDataThreaded}
    (hp : w.enteredCaller t p = some d.backNotify) :
    SameTraffic w (w.setThread t ((w.threads t).setProc p d)) :=
  ⟨rfl, rfl, rfl, rfl, rfl, fun _ _ => .setProc fun ht hq => ht ▸ hq ▸ hp⟩

/-- A result goes to the caller that is entered. -/
theorem completion_moves {t' : Nat} {d : CallDataThreaded} {o p : Id}
    (hp : w.enteredCaller t ti.procId = some d.backNotify) (hd : d.backNotify = (some t', o, p))
    (s : CallStatus) (code : Int) :
    Moves w (((w.setThread t ((w.threads t).setProc ti.procId d)).note
      (.reported ti.procId s code)).enqueue t' (.data (completion t ti o p s code))) := by
  have hcaller : (w.setThread t ((w.threads t).setProc ti.procId d)).enteredCaller t ti.procId =
      some (some t', o, p) := by
    unfold enteredCaller
    rw [threads_setThread_self, ThreadData.procToDat_setProc, if_pos rfl, Option.map_some, hd]
  exact .move (.same (.refl w) (setProc_same hp))
    (.completion _ t t' (completion t ti o p s code) ti.procId s code rfl hcaller)
    (fun _ _ => rfl) rfl

/-- A function may have a result. -/
theorem respond_moves {f : FunctionCall V} {resp : CallResponse}
    (hf : w.enteredCaller t f.ti.procId = some (f.ci.threadId, f.ci.objId, f.ci.procId))
    (h : w.respond t f resp = .ok w') : Moves w w' := by
  obtain ⟨c, hc, hback⟩ := Option.map_eq_some_iff.mp hf
  have hproc : ((w.threads t).proc f.ti.procId).backNotify =
      (f.ci.threadId, f.ci.objId, f.ci.procId) := by
    rw [ThreadData.proc, hc, Option.getD_some, hback]
  obtain ⟨d, hd, -, ⟨-, rfl⟩ | ⟨failed, code, -, ⟨-, rfl⟩ | ⟨t', ht', -, rfl⟩⟩⟩ := respond_cases h
  · exact .same (.refl w) (setProc_same (by rw [hd, hproc, hf]))
  · exact .move (.same (.refl w) (setProc_same (by rw [hd, hproc, hf]))) (.result _ _ _ _)
      (fun _ _ => rfl) rfl
  · exact completion_moves (by rw [hd, hproc, hf]) (by rw [hd, hproc, ht']) _ _

theorem report_moves {y : Yielded} {c : CallDataThreaded}
    (hc : (w.threads t).procToDat ti.procId = some c) (h : w.report t ti y = .ok w') :
    Moves w w' := by
  have hproc : (w.threads t).proc ti.procId = c := by
    rw [ThreadData.proc, hc, Option.getD_some]
  have hp : w.enteredCaller t ti.procId = some c.backNotify := by
    rw [enteredCaller, hc, Option.map_some]
  obtain ⟨-, rfl⟩ | ⟨failed, code, t', -, ht', -, rfl⟩ := report_cases h
  · exact .refl _
  · rw [hproc] at ht' ⊢
    exact completion_moves (d := { c with status := resultStatus failed }) hp (Prod.ext ht' rfl) _ _

theorem forward_moves (w : World V σ) (t : Nat) (d : Data) (attachers : List (Id × Id)) :
    Moves w (w.forward t d attachers) :=
  forward_invariant (I := Moves w) (.refl w) fun _ _ _ hw =>
    hw.move (.data _ t _ rfl) (fun _ _ => rfl) rfl

theorem deleteChildren_moves {ci : CallerInfo} {children : List (Id × ChildObjectInfo)}
    (h : w.deleteChildren ci children = .ok w') : Moves w w' :=
  deleteChildren_invariant (I := Moves w) h (.refl w) fun _ _ _ hw _ =>
    hw.move (.delete _ _ _) (fun _ _ => rfl) rfl

/-- A constructor call is taken, and the new object gets its context and its slot. -/
theorem filled_moves {c : ConstructorCall V} {w₁ w₂ : World V σ} {heap : σ}
    (hq : w.queues t = .constructorCall c :: rest)
    (htake : (w.pop t rest).takeContext c.uringData = (ctx, w₁))
    (hslot : (w₁.afterHandler ctx es heap).fillSlot t c.constructor.slot c.ti.objId = .ok w₂) :
    Moves w w₂ := by
  have hsame := filled_same htake hslot
  have htaken : Moves w (w.pop t rest) :=
    .move (.refl w) (.taken w.traffic t _ rest hq rfl) (fun _ _ => rfl) rfl
  refine htaken.same ⟨hsame.size, hsame.queues, hsame.procIds, hsame.objIds, hsame.log,
      fun t' p => .of_procToDat ?_⟩
  rw [hsame.threads]

/-- The handling of a message. -/
theorem Handled.moves (h : Handled P t w w') (ht : t < w.size) : Moves w w' := by
  cases h with
  | idle hq => exact .refl w
  | @constructed c rest ctx w₁ w₂ w₃ heap es hq htake hrun hslot hnew hqueued =>
    have hobject : SameTraffic w₂ (w₂.setThread t ((w₂.threads t).setObject c.ti.objId
        { ptr := some ctx })) :=
      ⟨rfl, rfl, rfl, rfl, rfl, fun t' p => .of_procToDat
        (proj_setThread w₂ t t' _ (·.procToDat) rfl)⟩
    exact (((filled_moves hq htake hslot).same hobject).trans (processQueued_moves hqueued)).submit t
  | reconstructed hq htake hrun hslot hold => exact (filled_moves hq htake hslot).submit t
  | @called f rest o ctx resp heap es w₂ w₃ hq ho hptr hrun hqueued hrespond =>
    have henter : Moves w (((w.pop t rest).enter t f o).afterHandler ctx es heap) :=
      .move (.refl w) (.started w.traffic t f rest ht hq)
        (fun t' p => procToDat_enter t' p) rfl
    have hcaller : w₂.enteredCaller t f.ti.procId =
        some (f.ci.threadId, f.ci.objId, f.ci.procId) := by
      rw [enteredCaller_eq (processQueued_procToDat hqueued t)]
      exact (procToDat_enter t f.ti.procId).trans (if_pos ⟨rfl, rfl⟩)
    exact ((henter.trans (processQueued_moves hqueued)).trans
      (respond_moves hcaller hrespond)).submit t
  | @delivered d rest o c ctx y heap es w₂ w₃ hq ho hd hptr hrun hqueued hreport =>
    have hdeliver : Moves w (((w.pop t rest).note (.delivered t d
        ((w.contexts ctx).mapEventData d.data).1)).afterHandler ctx es heap) :=
      .move (.refl w) (.delivered w.traffic t d _ rest hq) (fun _ _ => rfl) rfl
    have hc : (w₂.threads t).procToDat d.ti.procId = some c := by
      rw [processQueued_procToDat hqueued]
      exact hd
    exact (((hdeliver.trans (processQueued_moves hqueued)).trans (report_moves hc hreport)).trans
      (forward_moves _ t _ _)).submit t
  | @dropped d rest hq hmissing =>
    have hpop : Moves w (w.pop t rest) :=
      .move (.refl w) (.taken w.traffic t _ rest hq rfl) (fun _ _ => rfl) rfl
    exact hpop.submit t
  | @deleted d rest w₁ hq hchildren =>
    have hpop : Moves w (w.pop t rest) :=
      .move (.refl w) (.taken w.traffic t _ rest hq rfl) (fun _ _ => rfl) rfl
    have hnote : Moves w₁ (w₁.note (.deleted t d.ti.objId)) :=
      .move (.refl w₁) (.aside w₁.traffic _ (Or.inr ⟨t, d.ti.objId, rfl⟩)) (fun _ _ => rfl) rfl
    have herase : SameTraffic (w₁.note (.deleted t d.ti.objId)) (w₁.erase P t d.ti.objId) := by
      refine ⟨rfl, rfl, rfl, rfl, rfl, fun t' p => ?_⟩
      unfold KeepsCaller enteredCaller
      rw [procToDat_erase]
      split
      · exact Or.inl rfl
      · exact Or.inr rfl
    exact ((hpop.trans (deleteChildren_moves hchildren)).trans (hnote.same herase)).submit t
  | @root r rest hq =>
    have hroot : Moves w ((w.pop t rest).rootReceived t r) :=
      .move (.refl w) (.root w.traffic t r _ _ rest ht hq rfl rfl rfl) (fun _ _ => rfl) rfl
    exact hroot.submit t

theorem processUring_moves (h : w.processUring t = .ok w') : Moves w w' := by
  refine processUring_invariant (I := Moves w) h (.refl w) (fun w₁ address res a hw _ => ?_)
    fun w₁ hw => hw.same ⟨rfl, rfl, rfl, rfl, rfl, fun t' p => .of_procToDat
      (proj_setThread w₁ t t' _ (·.procToDat) rfl)⟩
  cases a with
  | eventData op objId procId => exact hw.move (.data _ t _ rfl) (fun _ _ => rfl) rfl
  | timer timerId objId procId =>
    simp only [attachment]
    split
    · exact hw.move (.data _ t _ rfl) (fun _ _ => rfl) rfl
    · exact hw.same ⟨rfl, rfl, rfl, rfl, rfl, fun t' p => .of_procToDat rfl⟩
  | timerUpdate timerId remove =>
    simp only [attachment]
    split
    · exact hw.same ⟨rfl, rfl, rfl, rfl, rfl, fun t' p => .of_procToDat
        (proj_setThread w₁ t t' _ (·.procToDat) rfl)⟩
    · exact hw.same ⟨rfl, rfl, rfl, rfl, rfl, fun t' p => .of_procToDat rfl⟩

/-- Every step of the runtime is traffic. -/
theorem step_moves {a : Action V} (h : w.step P a = .ok w') : Moves w w' := by
  cases a with
  | dequeue t =>
    rcases step_dequeue h with rfl | ⟨ht, hw⟩
    · exact .refl w'
    · exact hw.moves ht
  | uring t =>
    simp only [step] at h
    split at h
    · exact processUring_moves h
    · obtain rfl := Except.ok.inj h
      exact .refl w
  | complete t k res =>
    obtain rfl := Except.ok.inj h
    simp only [complete]
    split
    · exact .refl w
    · exact .same (.refl w) ⟨rfl, rfl, rfl, rfl, rfl, fun t' p => .of_procToDat
        (proj_setThread w t t' _ (·.procToDat) rfl)⟩
  | root constructor init =>
    obtain ⟨hsize, rfl⟩ := initializeRootEvent_eq h
    exact .move (.refl w) (.rootEvent w.traffic _ hsize rfl) (fun _ _ => rfl) rfl
  | load _ | iterate _ =>
    obtain rfl := Except.ok.inj h
    exact .same (.refl w) ⟨rfl, rfl, rfl, rfl, rfl, fun t' p => .of_procToDat rfl⟩

/-- What every move keeps holds in every state of a run. -/
theorem moves_invariant {G : World V σ → Action V → Prop} {I : Traffic V → Prop}
    (h : Reached (step P) G w w') (hw : I w.traffic) (hI : ∀ T T', I T → Move T T' → I T') :
    I w'.traffic := by
  refine h.invariant (I := fun w => I w.traffic) hw fun w₁ a w₂ hw _ hstep => ?_
  have hmoves : ReflTransGen Move w₁.traffic w₂.traffic := step_moves hstep
  exact transGen_invariant hmoves hw hI

end World

end LocalSoftware
