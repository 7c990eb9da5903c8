import LocalSoftware.Common.ThreadSteps

/-!
# One completion for each call

Every call that an object queues is to lead to one `ChildTaskCompletion` in the `on_yield` of the
caller, once the procedure of the callee has reported a result, unless the caller is deleted.
`Settled` states this for a state of the runtime: the completions that are queued for a call and
those that were delivered are one in number if the callee has reported, and none otherwise.

The runtime does not check that a procedure reports once, and it drops what is sent to a
constructor. `settled_of_guarded` proves the property for the runs in which neither happens.
-/

set_option autoImplicit false

namespace LocalSoftware

variable {V : Vocabulary} {σ : Type}

/-- A message is the completion of the call `q` for the procedure `p` of the object `o`, and not a
copy that was forwarded. -/
def Data.completes (o p q : Id) (d : Data) : Bool :=
  !d.copy && d.ti == { objId := o, procId := p } &&
    match d.data with
    | .childTaskCompletion c => c.callingId == p && c.taskId == q
    | _ => false

/-- The same for a message of a queue. -/
def EventVariant.completes (o p q : Id) : EventVariant V → Bool
  | .data d => d.completes o p q
  | _ => false

/-- The procedure that a message will start. -/
def EventVariant.starts : EventVariant V → Option Id
  | .functionCall f => some f.ti.procId
  | .rootStart r => some r.ti.procId
  | _ => none

/-- The procedure that a message is for. -/
def EventVariant.procedure : EventVariant V → Id
  | .functionCall f => f.ti.procId
  | .data d => d.ti.procId
  | _ => none

/-- The address that an attachment has. -/
def IoUringAttached.address : IoUringAttached → Id × Id
  | .eventData _ o p => (o, p)
  | .timer _ o p => (o, p)
  | .timerUpdate _ _ => (none, none)

/-- The delivery of such a completion. -/
def Note.completes (t : Nat) (o p q : Id) : Note → Bool
  | .delivered t' d _ => t' == t && d.completes o p q
  | _ => false

/-- The report of a procedure. -/
def Note.reports (q : Id) : Note → Bool
  | .reported q' _ _ => q' == q
  | _ => false

/-- Notes that have nothing to do with calls. -/
def Note.Inert : Note → Prop
  | .attached .. => True
  | .timerSet .. => True
  | .timerCancelled .. => True
  | _ => False

namespace World

/-- The procedure has reported a result. -/
def Reported (w : World V σ) (q : Id) : Prop := w.log.any (Note.reports q) = true

instance (w : World V σ) (q : Id) : Decidable (w.Reported q) := inferInstanceAs (Decidable (_ = _))

/-- Every call of an object that was not deleted has the completions that it should have. -/
def Settled (w : World V σ) : Prop :=
  ∀ t o p q l, .called t o p q l ∈ w.log → .deleted t o ∉ w.log →
    (w.queues t).countP (EventVariant.completes o p q) + w.log.countP (Note.completes t o p q) =
      if w.Reported q then 1 else 0

/-! ## The condition -/

/-- What the handler of a message returns as the result of its procedure. -/
def yields (P : Program V σ) (w : World V σ) (t : Nat) : EventVariant V → Yielded
  | .functionCall f =>
    match (w.threads t).objInfo f.ti.objId with
    | some { ptr := some ctx, .. } =>
      match (P.function f.call f.ti.objId f.ti.procId w.heap).run { uringData := w.contexts ctx } with
      | .ok ((resp, _), _) => resp.ret
      | .error _ => none
    | _ => none
  | .data m =>
    match (w.threads t).objInfo m.ti.objId, (w.threads t).procToDat m.ti.procId with
    | some { ptr := some ctx, .. }, some _ =>
      let (event, data) := (w.contexts ctx).mapEventData m.data
      match (P.onYield m.ti.objId event w.heap).run { uringData := data } with
      | .ok ((y, _), _) => y
      | .error _ => none
    | _, _ => none
  | _ => none

/-- The caller of a procedure, going by what `function_call` notes or is about to note. -/
def callerOf (w : World V σ) (t : Nat) : EventVariant V → ThreadId × Id × Id
  | .functionCall f => (f.ci.threadId, f.ci.objId, f.ci.procId)
  | .data m => ((w.threads t).proc m.ti.procId).backNotify
  | _ => (none, none, none)

/-- A result has somewhere to go: it is the first one of its procedure, and the call was not queued
by a constructor. It does not matter if there is no caller any more. -/
def Welcome (w : World V σ) (q : Id) (caller : ThreadId × Id × Id) : Prop :=
  ∀ t, caller.1 = some t →
    .deleted t caller.2.1 ∈ w.log ∨ (caller.2.2 ≠ none ∧ ¬ w.Reported q)

/-- The condition on a step: if the handler of the message returns a result, it is welcome. -/
def Guarded (P : Program V σ) (w : World V σ) : Action V → Prop
  | .dequeue t => ∀ m rest, w.queues t = m :: rest → w.yields P t m ≠ none →
      w.Welcome m.procedure (w.callerOf t m)
  | _ => True

/-! ## The invariant -/

/-- An address is that of a procedure, or of no procedure. -/
def Known (L : List Note) (o p : Id) : Prop := p = none ∨ ∃ t, .started t o p ∈ L

/-- The caller entered for a procedure: none for a root, and else the one that queued the call. -/
def CallerNote (L : List Note) (q : Id) (caller : ThreadId × Id × Id) : Prop :=
  (caller.1 = none ∧ ∀ t o p l, .called t o p q l ∉ L) ∨
  ∃ t l, caller.1 = some t ∧ .called t caller.2.1 caller.2.2 q l ∈ L

/-- A completion is for a call that was made and reported, by a procedure or by an object that is
deleted by now. -/
def Origin (L : List Note) (t : Nat) (d : Data) : Prop :=
  ∀ o p q, d.completes o p q = true →
    (∃ l, .called t o p q l ∈ L) ∧ (∃ s c, .reported q s c ∈ L) ∧ (p ≠ none ∨ .deleted t o ∈ L)

/-- What holds of a message in the queue of the thread `t`. -/
def MessageOk (L : List Note) (ids : Ids) (t : Nat) : EventVariant V → Prop
  | .functionCall f => Taken ids f.ti.procId ∧ (∀ t o, .started t o f.ti.procId ∉ L) ∧
      CallerNote L f.ti.procId (f.ci.threadId, f.ci.objId, f.ci.procId)
  | .rootStart r => Taken ids r.ti.procId ∧ (∀ t o, .started t o r.ti.procId ∉ L) ∧
      ∀ t o p l, .called t o p r.ti.procId l ∉ L
  | .data d => Known L d.ti.objId d.ti.procId ∧ Origin L t d
  | .constructorCall c => c.ti.procId = none
  | .delete _ => True

/-- What the tables have of an object. -/
def core (w : World V σ) (t : Nat) (o : Id) : Option (Option Nat × List Id) :=
  ((w.threads t).objInfo o).map fun oi => (oi.ptr, oi.assocProcs)

/-- What the log, the tables and the queues have to do with each other. -/
structure CallBase (w : World V σ) : Prop where
  size : ∀ {t o p q l}, .called t o p q l ∈ w.log → t < w.size
  takenCalled : ∀ {t o p q l}, .called t o p q l ∈ w.log → Taken w.procIds q
  takenStarted : ∀ {t o p}, .started t o p ∈ w.log → Taken w.procIds p
  calledOnce : ∀ {t o p q l t' o' p' l'}, .called t o p q l ∈ w.log →
    .called t' o' p' q l' ∈ w.log → t = t' ∧ o = o' ∧ p = p' ∧ l = l'
  startedOnce : ∀ {t o p t' o'}, .started t o p ∈ w.log → .started t' o' p ∈ w.log →
    t = t' ∧ o = o'
  caller : ∀ {t o p q l}, .called t o p q l ∈ w.log → p = none ∨ .started t o p ∈ w.log
  reported : ∀ {q s c}, .reported q s c ∈ w.log → ∃ t o, .started t o q ∈ w.log
  delivered : ∀ {t d e}, .delivered t d e ∈ w.log → Origin w.log t d
  /-- A procedure is in the tables until its object is deleted. -/
  live : ∀ {t o p}, .started t o p ∈ w.log → .deleted t o ∉ w.log →
    (∃ ctx procs, w.core t o = some (some ctx, procs)) ∧ (w.threads t).procToDat p ≠ none
  assoc : ∀ {t o ptr procs p}, w.core t o = some (ptr, procs) → p ∈ procs →
    .started t o p ∈ w.log
  procs : ∀ {t p d}, (w.threads t).procToDat p = some d →
    (∃ o, .started t o p ∈ w.log) ∧ CallerNote w.log p d.backNotify
  attachers : ∀ {t q a}, a ∈ (w.threads t).alsoNotify q → Known w.log a.1 a.2
  attachments : ∀ {address a}, w.attached address = some a → Known w.log a.address.1 a.address.2
  messages : ∀ {t m}, m ∈ w.queues t → MessageOk w.log w.procIds t m
  /-- No procedure is started by two messages. -/
  startsOnce : ∀ t, ((w.queues t).filterMap EventVariant.starts).Nodup
  startsApart : ∀ {t t' q}, q ∈ (w.queues t).filterMap EventVariant.starts →
    q ∈ (w.queues t').filterMap EventVariant.starts → t = t'

/-- The invariant. -/
structure CallInv (w : World V σ) : Prop extends CallBase w where
  settled : w.Settled

/-! ## Growing logs -/

section Mono

variable {L L' : List Note} {ids ids' : Ids} {t : Nat} {o p q : Id}

theorem Known.mono (h : Known L o p) (hL : L ⊆ L') : Known L' o p := by
  rcases h with rfl | ⟨t, h⟩
  · exact Or.inl rfl
  · exact Or.inr ⟨t, hL h⟩

theorem Origin.mono {d : Data} (h : Origin L t d) (hL : L ⊆ L') : Origin L' t d := by
  intro o p q hd
  obtain ⟨⟨l, hcalled⟩, ⟨s, c, hreported⟩, hcaller⟩ := h o p q hd
  exact ⟨⟨l, hL hcalled⟩, ⟨s, c, hL hreported⟩, hcaller.imp_right fun hdel => hL hdel⟩

theorem CallerNote.mono {caller : ThreadId × Id × Id} (h : CallerNote L q caller) (hL : L ⊆ L')
    (hq : ∀ t o p l, .called t o p q l ∈ L' → .called t o p q l ∈ L) : CallerNote L' q caller := by
  rcases h with ⟨hroot, hnone⟩ | ⟨t, l, hthread, hcalled⟩
  · exact Or.inl ⟨hroot, fun t o p l hcalled => hnone t o p l (hq t o p l hcalled)⟩
  · exact Or.inr ⟨t, l, hthread, hL hcalled⟩

/-- Messages stay as they are unless one is noted to have started or to be called. -/
theorem MessageOk.mono {m : EventVariant V} (h : MessageOk L ids t m) (hL : L ⊆ L')
    (hids : ∀ id, Taken ids id → Taken ids' id)
    (hstart : ∀ q, m.starts = some q → ∀ t o, .started t o q ∈ L' → .started t o q ∈ L)
    (hcall : ∀ q, Taken ids q → ∀ t o p l, .called t o p q l ∈ L' → .called t o p q l ∈ L) :
    MessageOk L' ids' t m := by
  cases m with
  | functionCall f =>
    obtain ⟨htaken, hnot, hcaller⟩ := h
    exact ⟨hids _ htaken, fun t o hs => hnot t o (hstart _ rfl t o hs),
      hcaller.mono hL (hcall _ htaken)⟩
  | rootStart r =>
    obtain ⟨htaken, hnot, hnone⟩ := h
    exact ⟨hids _ htaken, fun t o hs => hnot t o (hstart _ rfl t o hs),
      fun t o p l hc => hnone t o p l (hcall _ htaken t o p l hc)⟩
  | data d => exact ⟨h.1.mono hL, h.2.mono hL⟩
  | constructorCall c => exact h
  | delete d => trivial

end Mono

/-! ## Changes that no call is concerned by -/

/-- A message that neither starts a procedure nor completes a call. -/
def Idle (m : EventVariant V) : Prop := m.starts = none ∧ ∀ o p q, m.completes o p q = false

/-- A change of a world that only takes idle messages from the queues and adds others. -/
structure Quiet (w w' : World V σ) : Prop where
  size : w'.size = w.size
  procIds : w'.procIds = w.procIds
  log : ∃ ns, w'.log = w.log ++ ns ∧ ∀ n ∈ ns, n.Inert
  core : ∀ t o, w'.core t o = w.core t o ∨ (w.core t o = none ∧ ∃ ptr, w'.core t o = some (ptr, []))
  procToDat : ∀ t p, ((w'.threads t).procToDat p).map (·.backNotify) =
    ((w.threads t).procToDat p).map (·.backNotify)
  attachers : ∀ {t q a}, a ∈ (w'.threads t).alsoNotify q →
    a ∈ (w.threads t).alsoNotify q ∨ Known w.log a.1 a.2
  attachments : ∀ {address a}, w'.attached address = some a →
    w.attached address = some a ∨ Known w.log a.address.1 a.address.2
  queues : ∀ t, ∃ old mid new, w.queues t = old ++ mid ∧ w'.queues t = mid ++ new ∧
    (∀ m ∈ old, Idle m) ∧ ∀ m ∈ new, Idle m ∧ MessageOk w.log w.procIds t m

variable {w w' : World V σ}

theorem not_completes_of_inert {n : Note} (h : n.Inert) (t : Nat) (o p q : Id) :
    n.completes t o p q = false := by
  cases n <;> first | rfl | exact absurd h id

theorem not_reports_of_inert {n : Note} (h : n.Inert) (q : Id) : n.reports q = false := by
  cases n <;> first | rfl | exact absurd h id

theorem countP_of_forall_false {α : Type} {f : α → Bool} {l : List α} (h : ∀ a ∈ l, f a = false) :
    l.countP f = 0 := by
  rw [List.countP_eq_zero]
  intro a ha htrue
  rw [h a ha] at htrue
  cases htrue

theorem filterMap_of_forall_none {α β : Type} {f : α → Option β} {l : List α}
    (h : ∀ a ∈ l, f a = none) : l.filterMap f = [] := by
  rw [List.filterMap_eq_nil_iff]
  exact h

namespace Quiet

variable (h : Quiet w w')

include h

theorem subset : w.log ⊆ w'.log := by
  obtain ⟨ns, hlog, -⟩ := h.log
  rw [hlog]
  exact List.subset_append_left _ _

/-- The notes about calls are as before. -/
theorem mem_of_not_inert {n : Note} (hn : ¬ n.Inert) (hmem : n ∈ w'.log) : n ∈ w.log := by
  obtain ⟨ns, hlog, hinert⟩ := h.log
  rw [hlog, List.mem_append] at hmem
  exact hmem.resolve_right fun hmem => hn (hinert n hmem)

theorem reported_iff (q : Id) : w'.Reported q ↔ w.Reported q := by
  obtain ⟨ns, hlog, hinert⟩ := h.log
  have hns : ns.any (Note.reports q) = false := by
    rw [List.any_eq_false]
    intro n hn
    rw [not_reports_of_inert (hinert n hn)]
    exact Bool.false_ne_true
  unfold Reported
  rw [hlog, List.any_append, hns, Bool.or_false]

theorem countP_queue (t : Nat) (o p q : Id) :
    (w'.queues t).countP (EventVariant.completes o p q) =
      (w.queues t).countP (EventVariant.completes o p q) := by
  obtain ⟨old, mid, new, hold, hnew, hidle, hok⟩ := h.queues t
  rw [hold, hnew, List.countP_append, List.countP_append,
    countP_of_forall_false fun m hm => (hidle m hm).2 o p q,
    countP_of_forall_false fun m hm => (hok m hm).1.2 o p q, Nat.add_zero, Nat.zero_add]

theorem countP_log (t : Nat) (o p q : Id) :
    w'.log.countP (Note.completes t o p q) = w.log.countP (Note.completes t o p q) := by
  obtain ⟨ns, hlog, hinert⟩ := h.log
  rw [hlog, List.countP_append,
    countP_of_forall_false fun n hn => not_completes_of_inert (hinert n hn) t o p q, Nat.add_zero]

theorem filterMap_starts (t : Nat) :
    (w'.queues t).filterMap EventVariant.starts = (w.queues t).filterMap EventVariant.starts := by
  obtain ⟨old, mid, new, hold, hnew, hidle, hok⟩ := h.queues t
  rw [hold, hnew, List.filterMap_append, List.filterMap_append,
    filterMap_of_forall_none fun m hm => (hidle m hm).1,
    filterMap_of_forall_none fun m hm => (hok m hm).1.1, List.append_nil, List.nil_append]

theorem settled (hs : w.Settled) : w'.Settled := by
  intro t o p q l hcalled hdeleted
  have hcount := hs t o p q l (h.mem_of_not_inert (by simp [Note.Inert]) hcalled)
    fun hmem => hdeleted (h.subset hmem)
  rw [h.countP_queue, h.countP_log, hcount]
  by_cases hr : w.Reported q
  · rw [if_pos hr, if_pos ((h.reported_iff q).mpr hr)]
  · rw [if_neg hr, if_neg fun hr' => hr ((h.reported_iff q).mp hr')]

/-- The invariant does not see such a change. -/
theorem callInv (hinv : w.CallInv) : w'.CallInv where
  size hmem := by
    rw [h.size]
    exact hinv.size (h.mem_of_not_inert (by simp [Note.Inert]) hmem)
  takenCalled hmem := by
    rw [h.procIds]
    exact hinv.takenCalled (h.mem_of_not_inert (by simp [Note.Inert]) hmem)
  takenStarted hmem := by
    rw [h.procIds]
    exact hinv.takenStarted (h.mem_of_not_inert (by simp [Note.Inert]) hmem)
  calledOnce hmem hmem' := hinv.calledOnce (h.mem_of_not_inert (by simp [Note.Inert]) hmem)
    (h.mem_of_not_inert (by simp [Note.Inert]) hmem')
  startedOnce hmem hmem' := hinv.startedOnce (h.mem_of_not_inert (by simp [Note.Inert]) hmem)
    (h.mem_of_not_inert (by simp [Note.Inert]) hmem')
  caller hmem := (hinv.caller (h.mem_of_not_inert (by simp [Note.Inert]) hmem)).imp_right
    fun hs => h.subset hs
  reported hmem := by
    obtain ⟨t, o, hs⟩ := hinv.reported (h.mem_of_not_inert (by simp [Note.Inert]) hmem)
    exact ⟨t, o, h.subset hs⟩
  delivered hmem := (hinv.delivered (h.mem_of_not_inert (by simp [Note.Inert]) hmem)).mono h.subset
  live {t o p} hmem hdel := by
    obtain ⟨⟨ctx, procs, hcore⟩, hproc⟩ :=
      hinv.live (h.mem_of_not_inert (by simp [Note.Inert]) hmem) fun hmem => hdel (h.subset hmem)
    constructor
    -- an object that is still there is as before, and so are its procedures
    · rcases h.core t o with heq | ⟨hnone, -⟩
      · exact ⟨ctx, procs, heq.trans hcore⟩
      · rw [hnone] at hcore
        cases hcore
    · intro hnone
      have hmap := h.procToDat t p
      rw [hnone, Option.map_none] at hmap
      exact hproc (Option.map_eq_none_iff.mp hmap.symm)
  assoc {t o ptr procs p} hcore hp := by
    rcases h.core t o with heq | ⟨-, ptr', hnew⟩
    · exact h.subset (hinv.assoc (heq.symm.trans hcore) hp)
    · rw [hnew, Option.some.injEq, Prod.mk.injEq] at hcore
      rw [← hcore.2] at hp
      exact absurd hp List.not_mem_nil
  procs {t p d} hd := by
    have hmap := h.procToDat t p
    rw [hd, Option.map_some] at hmap
    obtain ⟨d₀, hd₀, hback⟩ := Option.map_eq_some_iff.mp hmap.symm
    obtain ⟨⟨o, hs⟩, hcaller⟩ := hinv.procs hd₀
    refine ⟨⟨o, h.subset hs⟩, ?_⟩
    rw [← hback]
    exact hcaller.mono h.subset fun t o p l hc => h.mem_of_not_inert (by simp [Note.Inert]) hc
  attachers hmem := by
    rcases h.attachers hmem with hmem | hknown
    · exact (hinv.attachers hmem).mono h.subset
    · exact hknown.mono h.subset
  attachments hmem := by
    rcases h.attachments hmem with hmem | hknown
    · exact (hinv.attachments hmem).mono h.subset
    · exact hknown.mono h.subset
  messages {t m} hm := by
    -- a message is an old one, or one that may be sent
    have hold : MessageOk w.log w.procIds t m := by
      obtain ⟨old, mid, new, hold, hnew, -, hok⟩ := h.queues t
      rw [hnew, List.mem_append] at hm
      rcases hm with hm | hm
      · exact hinv.messages (hold ▸ List.mem_append_right _ hm)
      · exact (hok m hm).2
    exact hold.mono h.subset (fun id hid => h.procIds.symm ▸ hid)
      (fun q _ t o hs => h.mem_of_not_inert (by simp [Note.Inert]) hs)
      fun q _ t o p l hc => h.mem_of_not_inert (by simp [Note.Inert]) hc
  startsOnce t := by
    rw [h.filterMap_starts]
    exact hinv.startsOnce t
  startsApart {t t' q} hq hq' := by
    rw [h.filterMap_starts] at hq hq'
    exact hinv.startsApart hq hq'
  settled := h.settled hinv.settled

end Quiet

/-! ## The updates of a handler run -/

/-- A handler runs: for a procedure that has started or for none, on an object in the tables. -/
structure Running (w : World V σ) (t : Nat) (ti : TargetInfo) : Prop where
  size : t < w.size
  caller : ti.procId = none ∨ .started t ti.objId ti.procId ∈ w.log
  object : ∃ oi, (w.threads t).objInfo ti.objId = some oi
  entry : ti.procId = none ∨ (w.threads t).procToDat ti.procId ≠ none

section Updates

variable {t ctx : Nat} {ti : TargetInfo} {es : EventState V} {m : EventVariant V}

theorem Running.known (h : w.Running t ti) : Known w.log ti.objId ti.procId :=
  h.caller.imp_right fun hs => ⟨t, hs⟩

theorem queues_refl (hq : w'.queues = w.queues) (t : Nat) :
    ∃ old mid new, w.queues t = old ++ mid ∧ w'.queues t = mid ++ new ∧ (∀ m ∈ old, Idle m) ∧
      ∀ m ∈ new, Idle m ∧ MessageOk w.log w.procIds t m := by
  refine ⟨[], w.queues t, [], rfl, ?_, fun m hm => absurd hm List.not_mem_nil,
    fun m hm => absurd hm List.not_mem_nil⟩
  rw [hq, List.append_nil]

/-- A push of an idle message. -/
theorem queues_push (hidle : Idle m) (hok : MessageOk w.log w.procIds t m)
    (hq : ∀ t', w'.queues t' = if t' = t then w.queues t' ++ [m] else w.queues t') (t' : Nat) :
    ∃ old mid new, w.queues t' = old ++ mid ∧ w'.queues t' = mid ++ new ∧ (∀ m ∈ old, Idle m) ∧
      ∀ m ∈ new, Idle m ∧ MessageOk w.log w.procIds t' m := by
  by_cases ht : t' = t
  · subst ht
    refine ⟨[], w.queues t', [m], rfl, ?_, fun m hm => absurd hm List.not_mem_nil, ?_⟩
    · rw [hq, if_pos rfl]
    · intro m' hm'
      obtain rfl := List.mem_singleton.mp hm'
      exact ⟨hidle, hok⟩
  · refine ⟨[], w.queues t', [], rfl, ?_, fun m hm => absurd hm List.not_mem_nil,
      fun m hm => absurd hm List.not_mem_nil⟩
    rw [hq, if_neg ht, List.append_nil]

/-- A change of the children of an object keeps what the tables have of it. -/
theorem core_setObject (td : ThreadData V) (htd : td.objInfo = (w.threads t).objInfo) {o : Id}
    {oi oi' : ObjectDataThreaded} (ho : (w.threads t).objInfo o = some oi) (hptr : oi'.ptr = oi.ptr)
    (hprocs : oi'.assocProcs = oi.assocProcs) (t' : Nat) (o' : Id) :
    (w.setThread t (td.setObject o oi')).core t' o' = w.core t' o' := by
  unfold core
  rw [threads_setThread]
  by_cases ht : t' = t
  · subst ht
    rw [if_pos rfl]
    by_cases ho' : o' = o
    · subst ho'
      simp only [ThreadData.setObject, Function.update_self, ho, Option.map_some, hptr, hprocs]
    · simp only [ThreadData.setObject, Function.update_of_ne ho', htd]
  · rw [if_neg ht]

theorem addChild_quiet (h : w.Running t ti) (q : EventQueuedConstruct V) (runThread : Nat) :
    Quiet w (w.addChild t ctx ti q runThread) := by
  obtain ⟨oi, ho⟩ := h.object
  exact {
    size := rfl
    procIds := rfl
    log := ⟨[], (List.append_nil _).symm, fun _ hn => absurd hn List.not_mem_nil⟩
    core := fun t' o => Or.inl (core_setObject (w := w) _ rfl ho (by rw [object_eq ho])
      (by rw [object_eq ho]) t' o)
    procToDat := fun t' p => by
      rw [show ((w.addChild t ctx ti q runThread).threads t').procToDat = (w.threads t').procToDat
        from proj_setThread w t t' _ (fun td => td.procToDat) rfl]
    attachers := fun {t' q' a} ha => Or.inl (by
      rwa [show ((w.addChild t ctx ti q runThread).threads t').alsoNotify =
        (w.threads t').alsoNotify from proj_setThread w t t' _ (fun td => td.alsoNotify) rfl] at ha)
    attachments := fun ha => Or.inl ha
    queues := queues_push ⟨rfl, fun _ _ _ => rfl⟩
      (by show _ = none; rfl)
      fun t' => queues_enqueue _ t t' _ }

theorem dropChild_quiet (h : w.Running t ti) (objId : Id) : Quiet w (w.dropChild t ti objId) := by
  obtain ⟨oi, ho⟩ := h.object
  exact {
    size := rfl
    procIds := rfl
    log := ⟨[], (List.append_nil _).symm, fun _ hn => absurd hn List.not_mem_nil⟩
    core := fun t' o => Or.inl (core_setObject (w := w) _ rfl ho (by rw [object_eq ho])
      (by rw [object_eq ho]) t' o)
    procToDat := fun t' p => by
      rw [show ((w.dropChild t ti objId).threads t').procToDat = (w.threads t').procToDat
        from proj_setThread w t t' _ (fun td => td.procToDat) rfl]
    attachers := fun {t' q' a} ha => Or.inl (by
      rwa [show ((w.dropChild t ti objId).threads t').alsoNotify =
        (w.threads t').alsoNotify from proj_setThread w t t' _ (fun td => td.alsoNotify) rfl] at ha)
    attachments := fun ha => Or.inl ha
    queues := queues_refl rfl }

theorem delete_quiet (thread : Nat) (d : Delete) : Quiet w (w.enqueue thread (.delete d)) where
  size := rfl
  procIds := rfl
  log := ⟨[], (List.append_nil _).symm, fun _ hn => absurd hn List.not_mem_nil⟩
  core _ _ := Or.inl rfl
  procToDat _ _ := rfl
  attachers ha := Or.inl ha
  attachments ha := Or.inl ha
  queues := queues_push ⟨rfl, fun _ _ _ => rfl⟩
    (show MessageOk w.log w.procIds thread (.delete d) from trivial)
    fun t' => queues_enqueue _ thread t' _

/-- A change that leaves the queues and the tables of objects and procedures alone. -/
theorem quiet_of_attachers (hsize : w'.size = w.size) (hids : w'.procIds = w.procIds)
    (hlog : ∃ ns, w'.log = w.log ++ ns ∧ ∀ n ∈ ns, n.Inert)
    (hobj : ∀ t, (w'.threads t).objInfo = (w.threads t).objInfo)
    (hproc : ∀ t, (w'.threads t).procToDat = (w.threads t).procToDat)
    (hnotify : ∀ {t q a}, a ∈ (w'.threads t).alsoNotify q →
      a ∈ (w.threads t).alsoNotify q ∨ Known w.log a.1 a.2)
    (hattached : ∀ {address a}, w'.attached address = some a →
      w.attached address = some a ∨ Known w.log a.address.1 a.address.2)
    (hq : w'.queues = w.queues) : Quiet w w' where
  size := hsize
  procIds := hids
  log := hlog
  core t o := Or.inl (by rw [core, core, hobj])
  procToDat t p := by rw [hproc]
  attachers := hnotify
  attachments := hattached
  queues := queues_refl hq

/-- A change that leaves the attached procedures alone as well. -/
theorem quiet_of_tables (hsize : w'.size = w.size) (hids : w'.procIds = w.procIds)
    (hlog : ∃ ns, w'.log = w.log ++ ns ∧ ∀ n ∈ ns, n.Inert)
    (hobj : ∀ t, (w'.threads t).objInfo = (w.threads t).objInfo)
    (hproc : ∀ t, (w'.threads t).procToDat = (w.threads t).procToDat)
    (hnotify : ∀ t, (w'.threads t).alsoNotify = (w.threads t).alsoNotify)
    (hattached : ∀ {address a}, w'.attached address = some a →
      w.attached address = some a ∨ Known w.log a.address.1 a.address.2)
    (hq : w'.queues = w.queues) : Quiet w w' :=
  quiet_of_attachers hsize hids hlog hobj hproc
    (fun {t q a} ha => Or.inl (by rwa [hnotify] at ha)) hattached hq

/-- A change of the contexts, of the state of the objects or of the loads. -/
theorem quiet_of_contexts (hsize : w'.size = w.size) (hids : w'.procIds = w.procIds)
    (hlog : w'.log = w.log) (hthreads : w'.threads = w.threads)
    (hattached : w'.attached = w.attached) (hq : w'.queues = w.queues) : Quiet w w' :=
  quiet_of_tables hsize hids
    ⟨[], by rw [hlog, List.append_nil], fun _ hn => absurd hn List.not_mem_nil⟩
    (fun _ => by rw [hthreads]) (fun _ => by rw [hthreads]) (fun _ => by rw [hthreads])
    (fun h => Or.inl (hattached ▸ h)) hq

/-- A new attachment with the address of a procedure that is known. -/
theorem attached_update {L : List Note} {table : Nat → Option IoUringAttached}
    {new address : Nat} {a a' : IoUringAttached} (ha : Known L a.address.1 a.address.2)
    (h : Function.update table new (some a) address = some a') :
    table address = some a' ∨ Known L a'.address.1 a'.address.2 := by
  by_cases haddress : address = new
  · rw [haddress, Function.update_self, Option.some.injEq] at h
    exact Or.inr (h ▸ ha)
  · rw [Function.update_of_ne haddress] at h
    exact Or.inl h

theorem addRequest_quiet (prep : Prep V) {a : IoUringAttached}
    (ha : Known w.log a.address.1 a.address.2) : Quiet w (w.addRequest t prep a) :=
  quiet_of_tables rfl rfl ⟨[], (List.append_nil _).symm, fun _ hn => absurd hn List.not_mem_nil⟩
    (fun t' => proj_setThread _ t t' _ (fun td => td.objInfo) rfl)
    (fun t' => proj_setThread _ t t' _ (fun td => td.procToDat) rfl)
    (fun t' => proj_setThread _ t t' _ (fun td => td.alsoNotify) rfl)
    (fun hmem => attached_update ha hmem) rfl

/-- The note of a timer entry has nothing to do with calls. -/
theorem log_noteTimer (q : EventQueuedTimer) (id : Id) :
    ∃ ns, (w.noteTimer t ti q id).log = w.log ++ ns ∧ ∀ n ∈ ns, n.Inert := by
  refine ⟨[_], rfl, fun n hn => ?_⟩
  obtain rfl := List.mem_singleton.mp hn
  split <;> trivial

theorem removeTimer_quiet (q : EventQueuedTimer) (id : Id) (data : TimerData) :
    Quiet w (w.removeTimer t ti q id data) :=
  quiet_of_tables rfl rfl (log_noteTimer q id)
    (fun t' => proj_setThread _ t t' _ (fun td => td.objInfo) rfl)
    (fun t' => proj_setThread _ t t' _ (fun td => td.procToDat) rfl)
    (fun t' => proj_setThread _ t t' _ (fun td => td.alsoNotify) rfl)
    (fun hmem => attached_update (a := .timerUpdate id true) (Or.inl rfl) hmem) rfl

/-- Two assignments to the tables of a thread. -/
theorem proj_setThread_twice {α : Type} (f : ThreadData V → α) {w₁ : World V σ}
    {td td' : ThreadData V} (hw : w₁.threads = w.threads) (h : f td = f (w.threads t))
    (h' : f td' = f td) (t' : Nat) :
    f (((w₁.setThread t td).setThread t td').threads t') = f (w.threads t') := by
  rw [proj_setThread _ t t' td' f (by rw [threads_setThread_self, h']),
    proj_setThread _ t t' td f (by rw [hw, h]), hw]

theorem updateTimer_quiet (q : EventQueuedTimer) (id : Id) (data : TimerData) :
    Quiet w (w.updateTimer t ti q id data) :=
  quiet_of_tables rfl rfl (log_noteTimer q id)
    (proj_setThread_twice (fun td => td.objInfo) rfl rfl (by rw [threads_setThread_self]))
    (proj_setThread_twice (fun td => td.procToDat) rfl rfl (by rw [threads_setThread_self]))
    (proj_setThread_twice (fun td => td.alsoNotify) rfl rfl (by rw [threads_setThread_self]))
    (fun hmem => attached_update (a := .timerUpdate id false) (Or.inl rfl) hmem) rfl

theorem addTimer_quiet (h : w.Running t ti) (q : EventQueuedTimer) :
    Quiet w (w.addTimer t ctx ti q) :=
  quiet_of_tables rfl rfl (log_noteTimer q _)
    (proj_setThread_twice (fun td => td.objInfo) rfl rfl (by rw [threads_setThread_self]))
    (proj_setThread_twice (fun td => td.procToDat) rfl rfl (by rw [threads_setThread_self]))
    (proj_setThread_twice (fun td => td.alsoNotify) rfl rfl (by rw [threads_setThread_self]))
    (fun hmem => attached_update (a := .timer _ ti.objId ti.procId) h.known hmem) rfl

theorem queuedAttach_quiet (h : w.Running t ti) (q : EventQueuedAttach) :
    Quiet w (w.queuedAttach t ctx ti q) := by
  refine quiet_of_attachers rfl rfl ⟨[_], rfl, fun n hn => ?_⟩
    (fun t' => proj_setThread w t t' _ (fun td => td.objInfo) rfl)
    (fun t' => proj_setThread w t t' _ (fun td => td.procToDat) rfl) ?_ (fun h => Or.inl h) rfl
  · obtain rfl := List.mem_singleton.mp hn
    trivial
  · intro t' q' a ha
    simp only [queuedAttach, threads_note, threads_setThread] at ha
    by_cases ht : t' = t
    · subst ht
      simp only [if_true] at ha
      by_cases hq : q' = (w.contexts ctx).translateProcLocal q.targetLocalId
      · subst hq
        rw [Function.update_self, List.mem_append, List.mem_singleton] at ha
        rcases ha with ha | rfl
        · exact Or.inl ha
        · exact Or.inr h.known
      · rw [Function.update_of_ne hq] at ha
        exact Or.inl ha
    · rw [if_neg ht] at ha
      exact Or.inl ha

end Updates

theorem reported_iff {q : Id} : w.Reported q ↔ ∃ s c, .reported q s c ∈ w.log := by
  unfold Reported
  rw [List.any_eq_true]
  constructor
  · rintro ⟨n, hn, hreports⟩
    cases n with
    | reported q' s c =>
      obtain rfl : q' = q := by simpa [Note.reports] using hreports
      exact ⟨s, c, hn⟩
    | _ => exact absurd hreports (by simp [Note.reports])
  · rintro ⟨s, c, hn⟩
    exact ⟨_, hn, by simp [Note.reports]⟩

theorem exists_of_completes_note {t : Nat} {o p q : Id} {n : Note}
    (h : n.completes t o p q = true) :
    ∃ d e, n = .delivered t d e ∧ d.completes o p q = true := by
  cases n with
  | delivered t' d e =>
    simp only [Note.completes, Bool.and_eq_true, beq_iff_eq] at h
    obtain ⟨rfl, hd⟩ := h
    exact ⟨d, e, rfl, hd⟩
  | _ => exact absurd h (by simp [Note.completes])

theorem exists_of_completes {o p q : Id} {m : EventVariant V} (h : m.completes o p q = true) :
    ∃ d, m = .data d ∧ d.completes o p q = true := by
  cases m with
  | data d => exact ⟨d, rfl, h⟩
  | _ => exact absurd h (by simp [EventVariant.completes])

/-- The log of `w'` has one more note. -/
structure Noted (w w' : World V σ) (n : Note) : Prop where
  log : w'.log = w.log ++ [n]

namespace Noted

variable {n : Note} (h : Noted w w' n)

include h

theorem subset : w.log ⊆ w'.log := by
  rw [h.log]
  exact List.subset_append_left _ _

theorem last : n ∈ w'.log := by
  rw [h.log]
  exact List.mem_append_right _ List.mem_cons_self

theorem mem {n' : Note} (hn : n' ∈ w'.log) : n' ∈ w.log ∨ n' = n := by
  rwa [h.log, List.mem_append, List.mem_singleton] at hn

theorem mem_of_ne {n' : Note} (hne : n' ≠ n) (hn : n' ∈ w'.log) : n' ∈ w.log :=
  (h.mem hn).resolve_right hne

theorem reported_iff (hn : ∀ q, n.reports q = false) (q : Id) : w'.Reported q ↔ w.Reported q := by
  unfold Reported
  rw [h.log, List.any_append, List.any_cons, hn, List.any_nil, Bool.or_false, Bool.or_false]

theorem countP_completes {t : Nat} {o p q : Id} (hn : n.completes t o p q = false) :
    w'.log.countP (Note.completes t o p q) = w.log.countP (Note.completes t o p q) := by
  rw [h.log, List.countP_append, List.countP_singleton, hn]
  rfl

/-- A note that is no call, no result and no completion changes nothing for the calls. -/
theorem settled (hs : w.Settled) (hqueues : w'.queues = w.queues)
    (hcalled : ∀ t o p q l, .called t o p q l ≠ n) (hreports : ∀ q, n.reports q = false)
    (hcompletes : ∀ t o p q, n.completes t o p q = false) : w'.Settled := by
  intro t o p q l hn hdel
  have hcount := hs t o p q l (h.mem_of_ne (hcalled t o p q l) hn) fun hd => hdel (h.subset hd)
  rw [hqueues, h.countP_completes (hcompletes t o p q), hcount]
  by_cases hr : w.Reported q
  · rw [if_pos hr, if_pos ((h.reported_iff hreports q).mpr hr)]
  · rw [if_neg hr, if_neg fun hr' => hr ((h.reported_iff hreports q).mp hr')]

end Noted

section NewCall

variable {t ctx : Nat} {ti : TargetInfo} {q : EventQueuedFunction V} {objectId : Id} {target : Nat}

theorem CallInv.starts_taken (h : w.CallInv) {t : Nat} {q : Id}
    (hq : q ∈ (w.queues t).filterMap EventVariant.starts) : Taken w.procIds q := by
  obtain ⟨m, hm, hstarts⟩ := List.mem_filterMap.mp hq
  have hok := h.messages hm
  cases m with
  | functionCall f => exact Option.some.inj hstarts ▸ hok.1
  | rootStart r => exact Option.some.inj hstarts ▸ hok.1
  | _ => exact absurd hstarts (by simp [EventVariant.starts])

/-- Nothing is on its way for a procedure that does not exist yet. -/
theorem CallInv.count_new (h : w.CallInv) {q : Id} (hq : ¬ Taken w.procIds q) (t : Nat) (o p : Id) :
    (w.queues t).countP (EventVariant.completes o p q) + w.log.countP (Note.completes t o p q) =
      if w.Reported q then 1 else 0 := by
  have hreported : ¬ w.Reported q := by
    intro hr
    obtain ⟨s, c, hr⟩ := reported_iff.mp hr
    obtain ⟨t', o', hs⟩ := h.reported hr
    exact hq (h.takenStarted hs)
  have hqueue : (w.queues t).countP (EventVariant.completes o p q) = 0 := by
    rw [List.countP_eq_zero]
    intro m hm hcompletes
    obtain ⟨d, rfl, hd⟩ := exists_of_completes hcompletes
    obtain ⟨⟨l, hcalled⟩, -, -⟩ := (h.messages hm).2 o p q hd
    exact hq (h.takenCalled hcalled)
  have hlog : w.log.countP (Note.completes t o p q) = 0 := by
    rw [List.countP_eq_zero]
    intro n hn hcompletes
    obtain ⟨d, e, rfl, hd⟩ := exists_of_completes_note hcompletes
    obtain ⟨⟨l, hcalled⟩, -, -⟩ := h.delivered hn o p q hd
    exact hq (h.takenCalled hcalled)
  rw [hqueue, hlog, if_neg hreported]

variable (w t ctx ti q objectId target)

theorem noted_addCall : Noted w (w.addCall t ctx ti q objectId target)
    (.called t ti.objId ti.procId (getId w.procIds (some t)).1 q.localId) := ⟨rfl⟩

theorem queues_addCall (t' : Nat) : (w.addCall t ctx ti q objectId target).queues t' =
    if t' = target then w.queues t' ++ [.functionCall {
      call := q.fn
      ci := { threadId := some t, objId := ti.objId, procId := ti.procId }
      ti := { objId := objectId, procId := (getId w.procIds (some t)).1 } }] else w.queues t' :=
  queues_enqueue ..

variable {w t ctx ti q objectId target}

theorem tables_addCall (h : w.Running t ti) (t' : Nat) :
    (∀ o, (w.addCall t ctx ti q objectId target).core t' o = w.core t' o) ∧
    ((w.addCall t ctx ti q objectId target).threads t').procToDat = (w.threads t').procToDat ∧
    ((w.addCall t ctx ti q objectId target).threads t').alsoNotify = (w.threads t').alsoNotify := by
  obtain ⟨oi, ho⟩ := h.object
  refine ⟨fun o => ?_, ?_, ?_⟩
  · exact core_setObject (w := w) _ rfl ho (by rw [object_eq ho]) (by rw [object_eq ho]) t' o
  · exact proj_setThread w t t' _ (fun td => td.procToDat) rfl
  · exact proj_setThread w t t' _ (fun td => td.alsoNotify) rfl

/-- The call is one of a procedure that did not exist. -/
theorem ne_newCall {id : Id} (h : Taken w.procIds id) : id ≠ (getId w.procIds (some t)).1 :=
  fun heq => not_taken_getId w.procIds (some t) (heq ▸ h)

theorem called_addCall {id : Id} (htaken : Taken w.procIds id) {t' : Nat} {o p l : Id}
    (hn : .called t' o p id l ∈ (w.addCall t ctx ti q objectId target).log) :
    .called t' o p id l ∈ w.log := by
  refine (noted_addCall w t ctx ti q objectId target).mem_of_ne (fun heq => ?_) hn
  exact ne_newCall htaken (Note.called.inj heq).2.2.2.1

theorem calledOnce_addCall (hinv : w.CallInv) {t₁ t₂ : Nat} {o₁ p₁ l₁ o₂ p₂ l₂ id : Id}
    (hn : .called t₁ o₁ p₁ id l₁ ∈ (w.addCall t ctx ti q objectId target).log)
    (hn' : .called t₂ o₂ p₂ id l₂ ∈ (w.addCall t ctx ti q objectId target).log) :
    t₁ = t₂ ∧ o₁ = o₂ ∧ p₁ = p₂ ∧ l₁ = l₂ := by
  have hnoted := noted_addCall w t ctx ti q objectId target
  rcases hnoted.mem hn with hn | heq
  · exact hinv.calledOnce hn (called_addCall (hinv.takenCalled hn) hn')
  · rcases hnoted.mem hn' with hn' | heq'
    · exact absurd (Note.called.inj heq).2.2.2.1 (ne_newCall (hinv.takenCalled hn'))
    · obtain ⟨ht, ho, hp, -, hl⟩ := Note.called.inj (heq.trans heq'.symm)
      exact ⟨ht, ho, hp, hl⟩

theorem messages_addCall (hinv : w.CallInv) {t' : Nat} {m : EventVariant V}
    (hm : m ∈ (w.addCall t ctx ti q objectId target).queues t') :
    MessageOk (w.addCall t ctx ti q objectId target).log (getId w.procIds (some t)).2 t' m := by
  have hnoted := noted_addCall w t ctx ti q objectId target
  have hstarted : ∀ {t' o p}, .started t' o p ∈ (w.addCall t ctx ti q objectId target).log →
      .started t' o p ∈ w.log := fun hn => hnoted.mem_of_ne (by simp) hn
  have hmono : m ∈ w.queues t' → MessageOk (w.addCall t ctx ti q objectId target).log
      (getId w.procIds (some t)).2 t' m := fun hm =>
    (hinv.messages hm).mono hnoted.subset (fun id htaken => (taken_getId _ _ id).mpr (Or.inl htaken))
      (fun _ _ _ _ hs => hstarted hs) fun _ htaken _ _ _ _ hn => called_addCall htaken hn
  rw [queues_addCall] at hm
  split at hm
  · rcases List.mem_append.mp hm with hm | hm
    · exact hmono hm
    -- the new message starts a procedure that did not start before
    · obtain rfl := List.mem_singleton.mp hm
      refine ⟨(taken_getId _ _ _).mpr (Or.inr rfl), fun t₁ o₁ hs => ?_,
        Or.inr ⟨t, q.localId, rfl, hnoted.last⟩⟩
      exact not_taken_getId _ _ (hinv.takenStarted (hstarted hs))
  · exact hmono hm

theorem startsOnce_addCall (hinv : w.CallInv) (t' : Nat) :
    (((w.addCall t ctx ti q objectId target).queues t').filterMap EventVariant.starts).Nodup := by
  rw [queues_addCall]
  split
  · rw [List.filterMap_append, List.nodup_append]
    refine ⟨hinv.startsOnce t', List.nodup_cons.mpr ⟨List.not_mem_nil, List.nodup_nil⟩, ?_⟩
    intro a ha b hb
    obtain rfl := List.mem_singleton.mp hb
    exact ne_newCall (hinv.starts_taken ha)
  · exact hinv.startsOnce t'

/-- The new procedure is started in one queue only. -/
theorem starts_addCall {t' : Nat} {id : Id}
    (h : id ∈ ((w.addCall t ctx ti q objectId target).queues t').filterMap EventVariant.starts) :
    id ∈ (w.queues t').filterMap EventVariant.starts ∨
      (t' = target ∧ id = (getId w.procIds (some t)).1) := by
  rw [queues_addCall] at h
  split at h
  · rw [List.filterMap_append, List.mem_append] at h
    exact h.imp_right fun h => ⟨‹_›, List.mem_singleton.mp h⟩
  · exact Or.inl h

theorem startsApart_addCall (hinv : w.CallInv) {t₁ t₂ : Nat} {id : Id}
    (h₁ : id ∈ ((w.addCall t ctx ti q objectId target).queues t₁).filterMap EventVariant.starts)
    (h₂ : id ∈ ((w.addCall t ctx ti q objectId target).queues t₂).filterMap EventVariant.starts) :
    t₁ = t₂ := by
  rcases starts_addCall h₁ with h₁ | ⟨rfl, heq⟩
  · rcases starts_addCall h₂ with h₂ | ⟨-, heq⟩
    · exact hinv.startsApart h₁ h₂
    · exact absurd heq (ne_newCall (hinv.starts_taken h₁))
  · rcases starts_addCall h₂ with h₂ | ⟨rfl, -⟩
    · exact absurd heq (ne_newCall (hinv.starts_taken h₂))
    · rfl

theorem settled_addCall (hinv : w.CallInv) : (w.addCall t ctx ti q objectId target).Settled := by
  have hnoted := noted_addCall w t ctx ti q objectId target
  intro t' o p id l hn hdel
  have hqueue : ((w.addCall t ctx ti q objectId target).queues t').countP
      (EventVariant.completes o p id) = (w.queues t').countP (EventVariant.completes o p id) := by
    rw [queues_addCall]
    split
    · rw [List.countP_append]
      rfl
    · rfl
  have hcount : (w.queues t').countP (EventVariant.completes o p id) +
      w.log.countP (Note.completes t' o p id) = if w.Reported id then 1 else 0 := by
    rcases hnoted.mem hn with hn | heq
    · exact hinv.settled t' o p id l hn fun hd => hdel (hnoted.subset hd)
    · exact hinv.count_new ((Note.called.inj heq).2.2.2.1 ▸ not_taken_getId _ _) t' o p
  have hreported := hnoted.reported_iff (fun _ => rfl) id
  rw [hqueue, hnoted.countP_completes rfl, hcount]
  by_cases hr : w.Reported id
  · rw [if_pos hr, if_pos (hreported.mpr hr)]
  · rw [if_neg hr, if_neg fun hr' => hr (hreported.mp hr')]

/-- A queued call adds a procedure that nothing refers to yet, and the message that starts it. -/
theorem addCall_callInv (hinv : w.CallInv) (h : w.Running t ti) :
    (w.addCall t ctx ti q objectId target).CallInv := by
  have hnoted := noted_addCall w t ctx ti q objectId target
  have hids : ∀ id, Taken w.procIds id → Taken (getId w.procIds (some t)).2 id :=
    fun id htaken => (taken_getId _ _ id).mpr (Or.inl htaken)
  have hstarted : ∀ {t' o p}, .started t' o p ∈ (w.addCall t ctx ti q objectId target).log →
      .started t' o p ∈ w.log := fun hn => hnoted.mem_of_ne (by simp) hn
  exact {
    size := fun {t' o p id l} hn => by
      rcases hnoted.mem hn with hn | heq
      · exact hinv.size hn
      · exact (Note.called.inj heq).1 ▸ h.size
    takenCalled := fun {t' o p id l} hn => by
      rcases hnoted.mem hn with hn | heq
      · exact hids _ (hinv.takenCalled hn)
      · exact (taken_getId _ _ _).mpr (Or.inr (Note.called.inj heq).2.2.2.1)
    takenStarted := fun hn => hids _ (hinv.takenStarted (hstarted hn))
    calledOnce := calledOnce_addCall hinv
    startedOnce := fun hn hn' => hinv.startedOnce (hstarted hn) (hstarted hn')
    caller := fun {t' o p id l} hn => by
      rcases hnoted.mem hn with hn | heq
      · exact (hinv.caller hn).imp_right fun hs => hnoted.subset hs
      · obtain ⟨rfl, rfl, rfl, -, -⟩ := Note.called.inj heq
        exact h.caller.imp_right fun hs => hnoted.subset hs
    reported := fun hn => by
      obtain ⟨t', o, hs⟩ := hinv.reported (hnoted.mem_of_ne (by simp) hn)
      exact ⟨t', o, hnoted.subset hs⟩
    delivered := fun hn => (hinv.delivered (hnoted.mem_of_ne (by simp) hn)).mono hnoted.subset
    live := fun {t' o p} hn hdel => by
      obtain ⟨hcore, hproc, -⟩ := @tables_addCall _ _ _ _ ctx _ q objectId target h t'
      rw [hcore, hproc]
      exact hinv.live (hstarted hn) fun hd => hdel (hnoted.subset hd)
    assoc := fun {t' o ptr procs p} hcore hp => by
      rw [(tables_addCall h t').1] at hcore
      exact hnoted.subset (hinv.assoc hcore hp)
    procs := fun {t' p d} hd => by
      rw [(tables_addCall h t').2.1] at hd
      obtain ⟨⟨o, hs⟩, hcaller⟩ := hinv.procs hd
      exact ⟨⟨o, hnoted.subset hs⟩, hcaller.mono hnoted.subset fun _ _ _ _ hn =>
        called_addCall (hinv.takenStarted hs) hn⟩
    attachers := fun {t' id a} ha => by
      rw [(tables_addCall h t').2.2] at ha
      exact (hinv.attachers ha).mono hnoted.subset
    attachments := fun ha => (hinv.attachments ha).mono hnoted.subset
    messages := messages_addCall hinv
    startsOnce := startsOnce_addCall hinv
    startsApart := startsApart_addCall hinv
    settled := settled_addCall hinv }

end NewCall

section Handlers

variable {t ctx : Nat} {ti : TargetInfo} {es : EventState V}

/-- What a handler run leaves as it is. -/
structure Continues (w w' : World V σ) : Prop where
  size : w'.size = w.size
  subset : w.log ⊆ w'.log
  reported : ∀ q, w'.Reported q ↔ w.Reported q
  deleted : ∀ {t o}, .deleted t o ∈ w'.log → .deleted t o ∈ w.log
  backNotify : ∀ t p, ((w'.threads t).procToDat p).map (·.backNotify) =
    ((w.threads t).procToDat p).map (·.backNotify)

theorem Continues.refl (w : World V σ) : Continues w w :=
  ⟨rfl, List.Subset.refl _, fun _ => Iff.rfl, fun h => h, fun _ _ => rfl⟩

theorem Continues.trans {w'' : World V σ} (h : Continues w w') (h' : Continues w' w'') :
    Continues w w'' :=
  ⟨h'.size.trans h.size, List.Subset.trans h.subset h'.subset,
    fun q => (h'.reported q).trans (h.reported q), fun hd => h.deleted (h'.deleted hd),
    fun t p => (h'.backNotify t p).trans (h.backNotify t p)⟩

theorem Quiet.continues (h : Quiet w w') : Continues w w' :=
  ⟨h.size, h.subset, h.reported_iff, fun hd => h.mem_of_not_inert (by simp [Note.Inert]) hd,
    h.procToDat⟩

theorem addCall_continues (h : w.Running t ti) (q : EventQueuedFunction V) (objectId : Id)
    (target : Nat) : Continues w (w.addCall t ctx ti q objectId target) where
  size := rfl
  subset := (noted_addCall w t ctx ti q objectId target).subset
  reported := (noted_addCall w t ctx ti q objectId target).reported_iff fun _ => rfl
  deleted := (noted_addCall w t ctx ti q objectId target).mem_of_ne (by simp)
  backNotify t' p := by rw [(tables_addCall h t').2.1]

/-- The handler runs on. -/
theorem Running.continues (h : w.Running t ti) (hc : Continues w w')
    (hcore : w'.core t ti.objId = w.core t ti.objId ∨ w.core t ti.objId = none) :
    w'.Running t ti where
  size := hc.size.symm ▸ h.size
  caller := h.caller.imp_right fun hs => hc.subset hs
  object := by
    obtain ⟨oi, ho⟩ := h.object
    have hold : w.core t ti.objId = some (oi.ptr, oi.assocProcs) := by rw [core, ho, Option.map_some]
    rcases hcore with heq | hnone
    · obtain ⟨oi', ho', -⟩ := Option.map_eq_some_iff.mp (heq.trans hold)
      exact ⟨oi', ho'⟩
    · rw [hold] at hnone
      cases hnone
  entry := h.entry.imp_right fun hentry hnone => by
    have hmap := hc.backNotify t ti.procId
    rw [hnone, Option.map_none] at hmap
    exact hentry (Option.map_eq_none_iff.mp hmap.symm)

theorem Running.quiet (h : w.Running t ti) (hq : Quiet w w') : w'.Running t ti :=
  h.continues hq.continues ((hq.core t ti.objId).imp_right fun hnone => hnone.1)

/-- An update keeps the invariant, and the handler runs on. -/
theorem queued_callInv (h : w.CallInv ∧ w.Running t ti) (hq : Queued t ctx ti es w w') :
    (w'.CallInv ∧ w'.Running t ti) ∧ Continues w w' := by
  have hquiet : ∀ {w'}, Quiet w w' → (w'.CallInv ∧ w'.Running t ti) ∧ Continues w w' :=
    fun hquiet => ⟨⟨hquiet.callInv h.1, h.2.quiet hquiet⟩, hquiet.continues⟩
  cases hq with
  | decision => exact hquiet (quiet_of_contexts rfl rfl rfl rfl rfl rfl)
  | child q runThread _ => exact hquiet (addChild_quiet h.2 q runThread)
  | call q info locator target _ _ _ _ _ =>
    have hc := @addCall_continues _ _ _ _ ctx _ h.2 q locator.objectId target
    exact ⟨⟨addCall_callInv h.1 h.2, h.2.continues hc (Or.inl ((tables_addCall h.2 t).1 _))⟩, hc⟩
  | uring q _ _ => exact hquiet (addRequest_quiet _ h.2.known)
  | removeTimer q data _ _ _ => exact hquiet (removeTimer_quiet q _ data)
  | updateTimer q data _ _ _ _ => exact hquiet (updateTimer_quiet q _ data)
  | addTimer q _ _ _ => exact hquiet (addTimer_quiet h.2 q)
  | delete q thread _ _ _ => exact hquiet (delete_quiet thread _)
  | dropChild q _ => exact hquiet (dropChild_quiet h.2 q.objId)
  | attach q _ => exact hquiet (queuedAttach_quiet h.2 q)

theorem processQueued_callInv (hinv : w.CallInv) (h : w.Running t ti)
    (hq : w.processQueued t ctx ti es = .ok w') :
    (w'.CallInv ∧ w'.Running t ti) ∧ Continues w w' := by
  refine transGen_invariant (I := fun w' => (w'.CallInv ∧ w'.Running t ti) ∧ Continues w w')
    (processQueued_queued hq) ⟨⟨hinv, h⟩, Continues.refl w⟩ ?_
  intro w₁ w₂ h₁ hq₂
  obtain ⟨hinv₂, hc₂⟩ := queued_callInv h₁.1 hq₂
  exact ⟨hinv₂, h₁.2.trans hc₂⟩

end Handlers

end World

end LocalSoftware
