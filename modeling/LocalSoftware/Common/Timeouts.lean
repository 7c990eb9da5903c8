import LocalSoftware.Common.LocalIds
import LocalSoftware.Common.TimerKeys
import LocalSoftware.Library.Tickets

/-!
# Timeouts and cancellations

`TimeoutInv` follows each timer on any number of threads: from the note of the call of `timer`,
through the attachment of its timeout and the message for its completion, to the `Timeout` that
`on_yield` receives. Each message is sent and delivered once; and once a timer is cancelled, nothing
of it is on its way. The updates of `process_queued` keep the invariant.
-/

set_option autoImplicit false

namespace LocalSoftware

variable {V : Vocabulary} {σ : Type}

/-- The timer of a `Timeout` that is not the copy for an attached procedure. -/
def Data.expired (d : Data) : Option Id :=
  match d.copy, d.data with
  | false, .timeout g => some g
  | _, _ => none

/-- The copy of a `Timeout` for an attached procedure. -/
def Data.copiesTimeout (d : Data) : Bool :=
  match d.copy, d.data with
  | true, .timeout _ => true
  | _, _ => false

/-- A `Timeout` that is no copy has a timer, and any other event has none. -/
theorem Data.expired_cases {d : Data} (h : d.copiesTimeout = false) :
    (∃ g, d.expired = some g ∧ d.data = .timeout g) ∨
      (d.expired = none ∧ ∀ g, d.data ≠ .timeout g) := by
  obtain ⟨ci, ti, event, copy⟩ := d
  cases event with
  | timeout g =>
    cases copy with
    | false => exact Or.inl ⟨g, rfl, rfl⟩
    | true => cases h
  | _ => cases copy <;> exact Or.inr ⟨rfl, fun _ => EventType.noConfusion⟩

namespace EventVariant

/-- The same for the messages. -/
def expired : EventVariant V → Option Id
  | .data d => d.expired
  | _ => none

/-- The copy of a `Timeout` in a message. -/
def copiesTimeout : EventVariant V → Bool
  | .data d => d.copiesTimeout
  | _ => false

/-- The context that a construction passes on. -/
def sharedContext : EventVariant V → Option Nat
  | .constructorCall c => c.uringData
  | _ => none

end EventVariant

namespace Note

/-- The timer whose `Timeout` was delivered. -/
def expired : Note → Option Id
  | .delivered _ d _ => d.expired
  | _ => none

/-- `on_yield` of the object `o` received a `Timeout` with the local identifier `l`. -/
def timesOut (o l : Id) : Note → Bool
  | .delivered _ d (.timeout l') => d.ti.objId = o && l' = l
  | _ => false

/-- `timer` returned `l` to the object `o`. -/
def sets (o l : Id) : Note → Bool
  | .timerSet _ o' l' _ => o' = o && l' = l
  | _ => false

/-- The object and the local identifier of the call of `timer` that set `g`. -/
def setFor (g : Id) : Note → Option (Id × Id)
  | .timerSet _ o l g' => if g' = g then some (o, l) else none
  | _ => none

/-- The timer that was set. -/
def setTimer : Note → Option Id
  | .timerSet _ _ _ g => some g
  | _ => none

/-- The object and the local identifier of a cancellation. -/
def cancelledCall : Note → Option (Id × Id)
  | .timerCancelled _ o l => some (o, l)
  | _ => none

/-- Notes that tell nothing of timers. -/
def Untimed : Note → Prop
  | .timerSet .. => False
  | .timerCancelled .. => False
  | .delivered _ d event => d.expired = none ∧ ∀ l, event ≠ .timeout l
  | _ => True

theorem timesOut_iff {o l : Id} {n : Note} : n.timesOut o l = true ↔
    ∃ t d, n = .delivered t d (.timeout l) ∧ d.ti.objId = o := by
  constructor
  · intro h
    unfold timesOut at h
    split at h
    · rename_i t d l'
      obtain ⟨ho, hl⟩ := Bool.and_eq_true_iff.mp h
      exact ⟨t, d, by rw [of_decide_eq_true hl], of_decide_eq_true ho⟩
    · cases h
  · rintro ⟨t, d, rfl, rfl⟩
    exact Bool.and_eq_true_iff.mpr ⟨decide_eq_true rfl, decide_eq_true rfl⟩

theorem Untimed.expired {n : Note} (h : n.Untimed) : n.expired = none := by
  cases n with
  | delivered => exact h.1
  | _ => rfl

theorem Untimed.timesOut {n : Note} (h : n.Untimed) (o l : Id) : n.timesOut o l = false := by
  unfold Note.timesOut
  split
  · exact absurd rfl (h.2 _)
  · rfl

end Note

/-- A `Timeout` is not behind the cancellation of its timer. -/
def NotStopped (n n' : Note) : Prop :=
  ∀ t o l, n = .timerCancelled t o l → n'.timesOut o l = false

namespace IoUringData

/-- The tables of timers are the same, and no local identifier is given again. -/
structure SameTims (d d' : IoUringData V) : Prop where
  tims : d'.globalTimToLocalTim = d.globalTimToLocalTim
  timsBack : d'.localTimToGlobalTim = d.localTimToGlobalTim
  counter : d.localTimerId ≤ d'.localTimerId

theorem SameTims.refl (d : IoUringData V) : SameTims d d := ⟨rfl, rfl, Nat.le_refl _⟩

theorem SameTims.trans {d d' d'' : IoUringData V} (h : SameTims d d') (h' : SameTims d' d'') :
    SameTims d d'' :=
  ⟨h'.tims.trans h.tims, h'.timsBack.trans h.timsBack, Nat.le_trans h.counter h'.counter⟩

/-- An event other than a `Timeout` leaves the tables of timers as they are. -/
theorem mapEventData_sameTims (d : IoUringData V) {event : EventType}
    (h : ∀ g, event ≠ .timeout g) :
    SameTims d (d.mapEventData event).2 ∧ ∀ l, (d.mapEventData event).1 ≠ .timeout l := by
  cases event with
  | timeout g => exact absurd rfl (h g)
  | _ => exact ⟨⟨rfl, rfl, Nat.le_refl _⟩, fun _ => EventType.noConfusion⟩

/-- A `Timeout` gets the local identifier of its timer. -/
theorem mapEventData_timeout {d : IoUringData V} {g l : Id} (h : d.globalTimToLocalTim g = some l) :
    d.mapEventData (.timeout g) = (.timeout l, d) := by
  simp only [mapEventData, subscript, h]

end IoUringData

namespace World

variable {w w' w'' : World V σ} {t ctx : Nat} {ti : TargetInfo} {es : EventState V}
  {m : EventVariant V} {rest : List (EventVariant V)} {fired known : List Id}

/-! ## The invariant -/

/-- The timers whose `Timeout` waits in a queue. -/
def expiries (w : World V σ) (t : Nat) : List Id := (w.queues t).filterMap EventVariant.expired

/-- Nothing of the expiry of a timer is on its way to `on_yield`. -/
structure Silent (w : World V σ) (g : Id) : Prop where
  queues : ∀ t < w.size, g ∉ w.expiries t
  completions : ∀ t < w.size, ∀ cqe ∈ (w.threads t).ring.cq, cqe.2 = eTime →
    (w.attached cqe.1).bind (·.timerId) ≠ some g

instance (w : World V σ) (g : Id) : Decidable (w.Silent g) :=
  decidable_of_iff ((∀ t < w.size, g ∉ w.expiries t) ∧
    ∀ t < w.size, ∀ cqe ∈ (w.threads t).ring.cq, cqe.2 = eTime →
      (w.attached cqe.1).bind (·.timerId) ≠ some g)
    ⟨fun h => ⟨h.1, h.2⟩, fun h => ⟨h.queues, h.completions⟩⟩

/-- Each timer that was set is known to its object, each that has fired is delivered at most once,
and each that was cancelled is silent. `fired` are the timers whose completion was read, and `known`
the objects that were constructed. -/
structure TimeoutInv (fired known : List Id) (w : World V σ) : Prop where
  tickets : Tickets (· ∈ fired) w.expiries (w.log.filterMap Note.expired)
  inverse : ∀ ctx, Inverse (w.contexts ctx).globalTimToLocalTim (w.contexts ctx).localTimToGlobalTim
  issued : ∀ {ctx g l}, (w.contexts ctx).globalTimToLocalTim g = some l →
    Taken w.timIds g ∧ ∃ n < (w.contexts ctx).localTimerId, l = some n
  objects : ∀ {t o ctx}, w.ctxAt t o = some ctx → o ∈ known ∧ ctx < w.nextContext
  oneThread : ∀ {t t' o ctx ctx'}, w.ctxAt t o = some ctx → w.ctxAt t' o = some ctx' → t = t'
  shared : ∀ {t m ctx}, m ∈ w.queues t → m.sharedContext = some ctx → ctx < w.nextContext
  timers : ∀ {t o l g}, .timerSet t o l g ∈ w.log → o ∈ known ∧
    ∀ t' ctx, w.ctxAt t' o = some ctx → (w.contexts ctx).globalTimToLocalTim g = some l
  attachments : ∀ {a g o p}, w.attached a = some (.timer g o p) → ∃ t l, .timerSet t o l g ∈ w.log
  messages : ∀ {t d g}, .data d ∈ w.queues t → d.expired = some g →
    ∃ t' l, .timerSet t' d.ti.objId l g ∈ w.log
  cancelled : ∀ {t o l}, .timerCancelled t o l ∈ w.log → o ∈ known ∧
    (∀ t' ctx, w.ctxAt t' o = some ctx → (w.contexts ctx).localTimToGlobalTim l ≠ none) ∧
    ∀ t' g, .timerSet t' o l g ∈ w.log → w.Silent g
  delivered : ∀ {t d l}, .delivered t d (.timeout l) ∈ w.log →
    ∃ t' g, d.expired = some g ∧ .timerSet t' d.ti.objId l g ∈ w.log
  stopped : w.log.Pairwise NotStopped

/-- What a timer is silent for are the queues, the completions and their attachments. -/
theorem Silent.congr {g : Id} (h : w.Silent g) (hsize : w'.size = w.size)
    (hqueues : w'.queues = w.queues) (hcq : ∀ t, (w'.threads t).ring.cq = (w.threads t).ring.cq)
    (hattached : w'.attached = w.attached) : w'.Silent g where
  queues t ht := by
    rw [expiries, hqueues]
    exact h.queues t (hsize ▸ ht)
  completions t ht := by
    rw [hcq, hattached]
    exact h.completions t (hsize ▸ ht)

/-! ## Updates without timers -/

/-- A message that is no `Timeout`, with a context that exists. -/
def Calm (w : World V σ) (m : EventVariant V) : Prop :=
  m.expired = none ∧ ∀ ctx, m.sharedContext = some ctx → ctx < w.nextContext

theorem calm_of_none (hexpired : m.expired = none) (hctx : m.sharedContext = none) : w.Calm m :=
  ⟨hexpired, fun ctx hctx' => by cases hctx.symm.trans hctx'⟩

theorem expiries_enqueue (w : World V σ) (t t' : Nat) (m : EventVariant V) :
    (w.enqueue t m).expiries t' =
      if t' = t then w.expiries t' ++ m.expired.toList else w.expiries t' := by
  rw [expiries, queues_enqueue]
  split
  · rw [List.filterMap_append]
    cases hm : m.expired <;> simp [expiries, hm]
  · rfl

/-- No timer is set or cancelled or expires. -/
structure Untimed (w w' : World V σ) : Prop where
  size : w'.size = w.size
  timIds : w'.timIds = w.timIds
  contexts : ∀ ctx, IoUringData.SameTims (w.contexts ctx) (w'.contexts ctx)
  nextContext : w'.nextContext = w.nextContext
  ctxAt : ∀ {t o ctx}, w'.ctxAt t o = some ctx → w.ctxAt t o = some ctx
  queues : ∀ {t m}, m ∈ w'.queues t → m ∈ w.queues t ∨ w.Calm m
  expiries : ∀ t, w'.expiries t = w.expiries t
  attached : ∀ {a g o p}, w'.attached a = some (.timer g o p) → w.attached a = some (.timer g o p)
  completions : ∀ {t a}, (a, eTime) ∈ (w'.threads t).ring.cq → (a, eTime) ∈ (w.threads t).ring.cq
  log : ∃ ns, w'.log = w.log ++ ns ∧ ∀ n ∈ ns, n.Untimed

namespace Untimed

theorem refl (w : World V σ) : Untimed w w where
  size := rfl
  timIds := rfl
  contexts _ := .refl _
  nextContext := rfl
  ctxAt ho := ho
  queues hm := Or.inl hm
  expiries _ := rfl
  attached ha := ha
  completions ha := ha
  log := ⟨[], (List.append_nil _).symm, fun _ hn => absurd hn List.not_mem_nil⟩

theorem trans (h : Untimed w w') (h' : Untimed w' w'') : Untimed w w'' where
  size := h'.size.trans h.size
  timIds := h'.timIds.trans h.timIds
  contexts ctx := (h.contexts ctx).trans (h'.contexts ctx)
  nextContext := h'.nextContext.trans h.nextContext
  ctxAt ho := h.ctxAt (h'.ctxAt ho)
  queues hm := (h'.queues hm).elim h.queues fun hcalm =>
    Or.inr ⟨hcalm.1, fun ctx hctx => h.nextContext ▸ hcalm.2 ctx hctx⟩
  expiries t := (h'.expiries t).trans (h.expiries t)
  attached ha := h.attached (h'.attached ha)
  completions ha := h.completions (h'.completions ha)
  log := by
    obtain ⟨ns, hns, huntimed⟩ := h.log
    obtain ⟨ns', hns', huntimed'⟩ := h'.log
    refine ⟨ns ++ ns', by rw [hns', hns, List.append_assoc], fun n hn => ?_⟩
    exact (List.mem_append.mp hn).elim (huntimed n) (huntimed' n)

theorem note (h : Untimed w w') {n : Note} (hn : n.Untimed) : Untimed w (w'.note n) :=
  h.trans { refl w' with log := ⟨[n], rfl, fun _ hmem => List.mem_singleton.mp hmem ▸ hn⟩ }

theorem enqueue (h : Untimed w w') (t : Nat) (hm : w'.Calm m) : Untimed w (w'.enqueue t m) := by
  refine h.trans { refl w' with
    queues := fun {t' m'} hm' => ?_
    expiries := fun t' => ?_ }
  · rw [queues_enqueue] at hm'
    split at hm'
    · refine (List.mem_append.mp hm').imp_right fun hm' => ?_
      rw [List.mem_singleton.mp hm']
      exact hm
    · exact Or.inl hm'
  · rw [expiries_enqueue, hm.1]
    split
    · exact List.append_nil _
    · rfl

/-- Other tables of a thread: objects keep their contexts, and no request is completed. -/
theorem setThread (h : Untimed w w') {td : ThreadData V}
    (hobj : ∀ {o ctx}, (td.objInfo o).bind (·.ptr) = some ctx → w'.ctxAt t o = some ctx)
    (hcq : ∀ {a}, (a, eTime) ∈ td.ring.cq → (a, eTime) ∈ (w'.threads t).ring.cq) :
    Untimed w (w'.setThread t td) := by
  refine h.trans { refl w' with
    ctxAt := fun {t' o ctx} ho => ?_
    completions := fun {t' a} ha => ?_ }
  · rw [World.ctxAt, threads_setThread] at ho
    split at ho
    · rename_i ht
      exact ht ▸ hobj ho
    · exact ho
  · rw [threads_setThread] at ha
    split at ha
    · rename_i ht
      exact ht ▸ hcq ha
    · exact ha

/-- Objects and completions are the same. -/
theorem setTables (h : Untimed w w') {td : ThreadData V}
    (hobj : td.objInfo = (w'.threads t).objInfo)
    (hcq : td.ring.cq = (w'.threads t).ring.cq) : Untimed w (w'.setThread t td) := by
  refine h.setThread (fun {o ctx} ho => ?_) (fun {a} ha => ?_)
  · rw [World.ctxAt, ← hobj]
    exact ho
  · exact hcq ▸ ha

/-- The entry of an object changes, but not its context. -/
theorem setObject (h : Untimed w w') {id : Id} {obj : ObjectDataThreaded}
    (hobj : obj.ptr = ((w'.threads t).object id).ptr) :
    Untimed w (w'.setThread t ((w'.threads t).setObject id obj)) := by
  exact h.setThread (fun ho => ptr_of_setObject hobj ho) fun ha => ha

theorem setContext (h : Untimed w w') {d : IoUringData V}
    (hd : IoUringData.SameTims (w'.contexts ctx) d) : Untimed w (w'.setContext ctx d) := by
  refine h.trans { refl w' with contexts := fun ctx' => ?_ }
  rw [contexts_setContext]
  split
  · rename_i hctx
    exact hctx ▸ hd
  · exact .refl _

/-- A request whose attachment is not that of a timeout. -/
theorem addRequest (h : Untimed w w') (t : Nat) (prep : Prep V) {a : IoUringAttached}
    (ha : ∀ g o p, a ≠ .timer g o p) : Untimed w (w'.addRequest t prep a) := by
  have hattached : Untimed w' { w' with
      mallocs := w'.mallocs + 1
      attached := Function.update w'.attached (w'.malloc w'.mallocs) (some a) } :=
    { refl w' with
      attached := fun {a' g o p} ha' => by
        simp only [Function.update_apply] at ha'
        split at ha'
        · exact absurd (Option.some.inj ha') (ha g o p)
        · exact ha' }
  exact (h.trans hattached).setTables rfl rfl

theorem submit (h : Untimed w w') (t : Nat) : Untimed w (w'.submit t) := h.setTables rfl rfl

/-- What was silent stays so. -/
theorem silent (h : Untimed w w') {g : Id} (hg : w.Silent g) : w'.Silent g where
  queues t ht := by
    rw [h.expiries]
    exact hg.queues t (h.size ▸ ht)
  completions t ht := by
    rintro ⟨a, res⟩ hcqe rfl hattached
    obtain ⟨b, hb, hid⟩ := Option.bind_eq_some_iff.mp hattached
    cases b with
    | timer g' o p =>
      refine hg.completions t (h.size ▸ ht) _ (h.completions hcqe) rfl ?_
      rw [h.attached hb]
      exact hid
    | eventData | timerUpdate => cases hid

end Untimed

namespace TimeoutInv

theorem untimed (h : TimeoutInv fired known w) (hw : Untimed w w') :
    TimeoutInv fired known w' := by
  obtain ⟨ns, hlog, huntimed⟩ := hw.log
  have hsub : w.log ⊆ w'.log := hlog ▸ List.subset_append_left _ _
  have hold : ∀ {n : Note}, ¬ n.Untimed → n ∈ w'.log → n ∈ w.log := by
    intro n hn hmem
    rw [hlog] at hmem
    exact (List.mem_append.mp hmem).resolve_right fun hns => hn (huntimed n hns)
  exact {
    tickets := by
      have hnone : ns.filterMap Note.expired = [] :=
        List.filterMap_eq_nil_iff.mpr fun n hn => (huntimed n hn).expired
      rw [hlog, List.filterMap_append, hnone, List.append_nil, funext hw.expiries]
      exact h.tickets
    inverse := fun ctx => by
      rw [(hw.contexts ctx).tims, (hw.contexts ctx).timsBack]
      exact h.inverse ctx
    issued := fun {ctx g l} hg => by
      rw [(hw.contexts ctx).tims] at hg
      obtain ⟨htaken, n, hn, hl⟩ := h.issued hg
      exact ⟨hw.timIds ▸ htaken, n, Nat.lt_of_lt_of_le hn (hw.contexts ctx).counter, hl⟩
    objects := fun ho => hw.nextContext ▸ h.objects (hw.ctxAt ho)
    oneThread := fun ho ho' => h.oneThread (hw.ctxAt ho) (hw.ctxAt ho')
    shared := fun hm hctx => hw.nextContext ▸ (hw.queues hm).elim
      (fun hm => h.shared hm hctx) fun hcalm => hcalm.2 _ hctx
    timers := fun {t o l g} hmem => by
      obtain ⟨ho, hl⟩ := h.timers (hold id hmem)
      refine ⟨ho, fun t' ctx hctx => ?_⟩
      rw [(hw.contexts ctx).tims]
      exact hl t' ctx (hw.ctxAt hctx)
    attachments := fun ha => by
      obtain ⟨t, l, hmem⟩ := h.attachments (hw.attached ha)
      exact ⟨t, l, hsub hmem⟩
    messages := fun hd hg => by
      rcases hw.queues hd with hd | hcalm
      · obtain ⟨t, l, hmem⟩ := h.messages hd hg
        exact ⟨t, l, hsub hmem⟩
      · cases hcalm.1.symm.trans hg
    cancelled := fun hmem => by
      obtain ⟨ho, hl, hsilent⟩ := h.cancelled (hold id hmem)
      refine ⟨ho, fun t' ctx hctx => ?_, fun t' g hset => hw.silent (hsilent t' g (hold id hset))⟩
      rw [(hw.contexts ctx).timsBack]
      exact hl t' ctx (hw.ctxAt hctx)
    delivered := fun hmem => by
      obtain ⟨t, g, hg, hset⟩ := h.delivered (hold (fun hn => hn.2 _ rfl) hmem)
      exact ⟨t, g, hg, hsub hset⟩
    stopped := by
      rw [hlog]
      have hquiet : ∀ n, ∀ n' ∈ ns, NotStopped n n' :=
        fun n n' hn' t o l _ => (huntimed n' hn').timesOut o l
      exact List.pairwise_append.mpr ⟨h.stopped,
        List.pairwise_of_forall_mem_list fun n _ n' hn' => hquiet n n' hn',
        fun n _ n' hn' => hquiet n n' hn'⟩ }

/-! ## Messages, objects and contexts -/

/-- A message is taken; if it is a `Timeout`, it is nowhere else. -/
theorem pop (h : TimeoutInv fired known w) (hq : w.queues t = m :: rest) :
    TimeoutInv fired known (w.pop t rest) ∧ ∀ g, m.expired = some g →
      Free (· ∈ fired) (w.pop t rest).expiries (w.log.filterMap Note.expired) g := by
  have hexpiries : ∀ t', (w.pop t rest).expiries t' =
      if t' = t then rest.filterMap EventVariant.expired else w.expiries t' := by
    intro t'
    rw [expiries, queues_pop]
    split <;> rfl
  have hmem : ∀ {t' m'}, m' ∈ (w.pop t rest).queues t' → m' ∈ w.queues t' := by
    intro t' m' hm'
    rw [queues_pop] at hm'
    split at hm'
    · rename_i ht
      rw [ht, hq]
      exact List.mem_cons_of_mem m hm'
    · exact hm'
  have hsub : ∀ {t' g}, g ∈ (w.pop t rest).expiries t' → g ∈ w.expiries t' := by
    intro t' g hg
    obtain ⟨m', hm', hexpired⟩ := List.mem_filterMap.mp hg
    exact List.mem_filterMap.mpr ⟨m', hmem hm', hexpired⟩
  have htickets : Tickets (· ∈ fired) (w.pop t rest).expiries (w.log.filterMap Note.expired) ∧
      ∀ g, m.expired = some g →
        Free (· ∈ fired) (w.pop t rest).expiries (w.log.filterMap Note.expired) g := by
    cases hm : m.expired with
    | none =>
      have hsame : (w.pop t rest).expiries = w.expiries := by
        funext t'
        rw [hexpiries]
        split
        · rename_i ht
          rw [ht, expiries, hq, List.filterMap_cons, hm]
        · rfl
      rw [hsame]
      exact ⟨h.tickets, fun _ hg => nomatch hg⟩
    | some g =>
      have hhead : w.expiries t = g :: rest.filterMap EventVariant.expired := by
        rw [expiries, hq, List.filterMap_cons, hm]
      obtain ⟨hpop, hfree⟩ := Tickets.pop h.tickets hhead hexpiries
      refine ⟨hpop, fun g' hg' => ?_⟩
      obtain rfl := Option.some.inj hg'
      exact hfree
  refine ⟨?_, htickets.2⟩
  exact { h with
    tickets := htickets.1
    shared := fun hm => h.shared (hmem hm)
    messages := fun hd => h.messages (hmem hd)
    cancelled := fun hn => by
      obtain ⟨ho, hl, hsilent⟩ := h.cancelled hn
      exact ⟨ho, hl, fun t' g hset =>
        { hsilent t' g hset with
          queues := fun t₁ ht₁ hg => (hsilent t' g hset).queues t₁ ht₁ (hsub hg) }⟩ }

/-- A delivery or a cancellation is noted. -/
theorem note (h : TimeoutInv fired known w) {n : Note}
    (htickets : Tickets (· ∈ fired) w.expiries ((w.log ++ [n]).filterMap Note.expired))
    (hset : ∀ t o l g, n ≠ .timerSet t o l g)
    (hcancelled : ∀ t o l, n = .timerCancelled t o l → o ∈ known ∧
      (∀ t' ctx, w.ctxAt t' o = some ctx → (w.contexts ctx).localTimToGlobalTim l ≠ none) ∧
      ∀ t' g, .timerSet t' o l g ∈ w.log → w.Silent g)
    (hdelivered : ∀ t d l, n = .delivered t d (.timeout l) →
      ∃ t' g, d.expired = some g ∧ .timerSet t' d.ti.objId l g ∈ w.log)
    (hstopped : ∀ n' ∈ w.log, NotStopped n' n) : TimeoutInv fired known (w.note n) := by
  have hsub : w.log ⊆ (w.note n).log := List.subset_append_left _ _
  have hold : ∀ {n'}, n' ∈ (w.note n).log → n' ∈ w.log ∨ n = n' := fun hmem =>
    (List.mem_append.mp hmem).imp_right fun hn => (List.mem_singleton.mp hn).symm
  have hsets : ∀ {t o l g}, .timerSet t o l g ∈ (w.note n).log → .timerSet t o l g ∈ w.log :=
    fun hmem => (hold hmem).resolve_right (hset _ _ _ _)
  exact { h with
    tickets := htickets
    timers := fun hmem => h.timers (hsets hmem)
    attachments := fun ha => by
      obtain ⟨t, l, hmem⟩ := h.attachments ha
      exact ⟨t, l, hsub hmem⟩
    messages := fun hd hg => by
      obtain ⟨t, l, hmem⟩ := h.messages hd hg
      exact ⟨t, l, hsub hmem⟩
    cancelled := fun hmem => by
      obtain ⟨ho, hl, hsilent⟩ := (hold hmem).elim h.cancelled (hcancelled _ _ _)
      exact ⟨ho, hl, fun t' g hmem' =>
        (hsilent t' g (hsets hmem')).congr rfl rfl (fun _ => rfl) rfl⟩
    delivered := fun hmem => by
      obtain ⟨t, g, hg, hmem⟩ := (hold hmem).elim h.delivered (hdelivered _ _ _)
      exact ⟨t, g, hg, hsub hmem⟩
    stopped := List.pairwise_append.mpr ⟨h.stopped, List.pairwise_singleton _ _, fun n' hn' _ hn => by
      rw [List.mem_singleton.mp hn]
      exact hstopped n' hn'⟩ }

/-- A `Timeout` is delivered that is nowhere else, for a timer that is not cancelled. -/
theorem deliver (h : TimeoutInv fired known w) {d : Data} {g l : Id} {t' : Nat}
    (hfree : Free (· ∈ fired) w.expiries (w.log.filterMap Note.expired) g)
    (hd : d.expired = some g) (hset : .timerSet t' d.ti.objId l g ∈ w.log)
    (hnot : ∀ t'', .timerCancelled t'' d.ti.objId l ∉ w.log) (t : Nat) :
    TimeoutInv fired known (w.note (.delivered t d (.timeout l))) := by
  refine h.note ?_ (fun _ _ _ _ => Note.noConfusion) (fun _ _ _ => Note.noConfusion)
    (fun t₁ d₁ l₁ heq => ?_) (fun n hn t₁ o₁ l₁ heq => ?_)
  · have hused : [Note.delivered t d (.timeout l)].filterMap Note.expired = [g] := by
      rw [List.filterMap_cons, Note.expired, hd]
      rfl
    rw [List.filterMap_append, hused]
    exact h.tickets.use hfree
  · obtain ⟨-, rfl, hl⟩ := Note.delivered.inj heq
    obtain rfl := EventType.timeout.inj hl
    exact ⟨t', g, hd, hset⟩
  · refine Bool.eq_false_iff.mpr fun htimes => ?_
    obtain ⟨t₂, d₂, heq', rfl⟩ := Note.timesOut_iff.mp htimes
    obtain ⟨-, rfl, hl⟩ := Note.delivered.inj heq'
    obtain rfl := EventType.timeout.inj hl
    exact hnot t₁ (heq ▸ hn)

/-- A timer that is silent is cancelled. -/
theorem cancel (h : TimeoutInv fired known w) {o l g : Id} (ho : w.ctxAt t o = some ctx)
    (hl : (w.contexts ctx).localTimToGlobalTim l = some g) (hg : w.Silent g) :
    TimeoutInv fired known (w.note (.timerCancelled t o l)) := by
  refine h.note ?_ (fun _ _ _ _ => Note.noConfusion) (fun t₁ o₁ l₁ heq => ?_)
    (fun _ _ _ => Note.noConfusion) (fun n hn t₁ o₁ l₁ _ => rfl)
  · rw [List.filterMap_append]
    exact (List.append_nil _).symm ▸ h.tickets
  · obtain ⟨rfl, rfl, rfl⟩ := Note.timerCancelled.inj heq
    refine ⟨(h.objects ho).1, fun t' ctx' hctx' => ?_, fun t' g' hset => ?_⟩
    · obtain rfl := h.oneThread ho hctx'
      rw [ho] at hctx'
      rw [← Option.some.inj hctx', hl]
      exact Option.some_ne_none g
    -- the timer with this local identifier is the one that the context translates
    · have hforth := (h.timers hset).2 t ctx ho
      rw [h.inverse, hl] at hforth
      exact Option.some.inj hforth ▸ hg

/-- An object is entered that was never there. -/
theorem newObject (h : TimeoutInv fired known w) {x : Id} (hx : x ∉ known)
    (hctx : ctx < w.nextContext) (t : Nat) : TimeoutInv fired (known ++ [x])
      (w.setThread t ((w.threads t).setObject x { ptr := some ctx })) := by
  let w' := w.setThread t ((w.threads t).setObject x { ptr := some ctx })
  have hctxAt : ∀ {t' o ctx'}, w'.ctxAt t' o = some ctx' →
      w.ctxAt t' o = some ctx' ∨ (t' = t ∧ o = x ∧ ctx' = ctx) := by
    intro t' o ctx' ho
    rw [World.ctxAt, threads_setThread] at ho
    split at ho
    · rename_i ht
      rw [ThreadData.objInfo_setObject] at ho
      split at ho
      · rename_i heq
        exact Or.inr ⟨ht, heq, (Option.some.inj ho).symm⟩
      · exact Or.inl (ht ▸ ho)
    · exact Or.inl ho
  have hold : ∀ {t' o ctx'}, o ∈ known → w'.ctxAt t' o = some ctx' → w.ctxAt t' o = some ctx' :=
    fun ho hctx' => (hctxAt hctx').resolve_right fun heq => hx (heq.2.1 ▸ ho)
  have hknown : known ⊆ known ++ [x] := List.subset_append_left _ _
  have hcq : ∀ t', (w'.threads t').ring.cq = (w.threads t').ring.cq :=
    fun t' => proj_setThread w t t' _ (·.ring.cq) rfl
  exact { h with
    objects := fun ho => by
      rcases hctxAt ho with ho | ⟨-, rfl, rfl⟩
      · exact (h.objects ho).imp_left fun hmem => hknown hmem
      · exact ⟨List.mem_append_right _ List.mem_cons_self, hctx⟩
    oneThread := fun ho ho' => by
      rcases hctxAt ho with ho | ⟨rfl, rfl, rfl⟩
      · exact h.oneThread ho (hold (h.objects ho).1 ho')
      · rcases hctxAt ho' with ho' | ⟨rfl, -, -⟩
        · exact absurd (h.objects ho').1 hx
        · rfl
    timers := fun hmem => by
      obtain ⟨ho, hl⟩ := h.timers hmem
      exact ⟨hknown ho, fun t' ctx' hctx' => hl t' ctx' (hold ho hctx')⟩
    cancelled := fun hmem => by
      obtain ⟨ho, hl, hsilent⟩ := h.cancelled hmem
      exact ⟨hknown ho, fun t' ctx' hctx' => hl t' ctx' (hold ho hctx'), fun t' g hset =>
        (hsilent t' g hset).congr rfl rfl hcq rfl⟩ }

/-- An object gets the context that is passed to it, or a new one. -/
theorem takeContext (h : TimeoutInv fired known w) {shared : Option Nat}
    (hshared : ∀ ctx, shared = some ctx → ctx < w.nextContext)
    (htake : w.takeContext shared = (ctx, w')) :
    TimeoutInv fired known w' ∧ ctx < w'.nextContext := by
  cases shared with
  | some ctx' =>
    obtain ⟨rfl, rfl⟩ := Prod.mk.inj htake
    exact ⟨h, hshared ctx' rfl⟩
  | none =>
    obtain ⟨rfl, rfl⟩ := Prod.mk.inj htake
    refine ⟨?_, Nat.lt_succ_self _⟩
    exact { h with
      inverse := forall_newContext (K := fun d => Inverse d.globalTimToLocalTim d.localTimToGlobalTim)
        h.inverse inverse_empty
      issued := fun {ctx g l} hg => forall_newContext (K := fun d => d.globalTimToLocalTim g = some l →
        Taken w.timIds g ∧ ∃ n < d.localTimerId, l = some n) (fun _ => h.issued)
        (fun hg => nomatch hg) ctx hg
      objects := fun ho => (h.objects ho).imp_right Nat.lt_succ_of_lt
      shared := fun hm hctx => Nat.lt_succ_of_lt (h.shared hm hctx)
      timers := fun hmem => by
        obtain ⟨ho, hl⟩ := h.timers hmem
        refine ⟨ho, fun t' ctx' hctx' => ?_⟩
        have hentry := hl t' ctx' hctx'
        rwa [← contexts_newContext (h.objects hctx').2] at hentry
      cancelled := fun hmem => by
        obtain ⟨ho, hl, hsilent⟩ := h.cancelled hmem
        refine ⟨ho, fun t' ctx' hctx' => ?_, fun t' g hset =>
          (hsilent t' g hset).congr rfl rfl (fun _ => rfl) rfl⟩
        have hentry := hl t' ctx' hctx'
        rwa [← contexts_newContext (h.objects hctx').2] at hentry }

end TimeoutInv

/-! ## The updates of `process_queued` -/

/-- The updates other than those for timers. -/
theorem Queued.untimed (h : Queued t ctx ti es w w') (htimer : es.timer = [])
    (hctx : ctx < w.nextContext) : Untimed w w' := by
  cases h with
  | decision => exact { Untimed.refl w with }
  | child q runThread _ =>
    let v : World V σ := { w with objIds := (getId w.objIds (some t)).2 }.setContext ctx
      ((w.contexts ctx).setLocator q.idx q.vidx
        { objectId := (getId w.objIds (some t)).1, threadId := [runThread] })
    have hids : Untimed w { w with objIds := (getId w.objIds (some t)).2 } :=
      { Untimed.refl w with }
    have hcontext : Untimed w v := hids.setContext { IoUringData.SameTims.refl _ with }
    refine Untimed.enqueue (hcontext.setObject (t := t) ?_) t ⟨rfl, fun ctx' hctx' => ?_⟩
    · rfl
    -- the context is passed on, or a new one will be made
    · change (if q.shared then some ctx else none) = some ctx' at hctx'
      split at hctx'
      · exact Option.some.inj hctx' ▸ hctx
      · cases hctx'
  | call q info locator target _ _ _ _ _ =>
    have hids : Untimed w { w with procIds := (getId w.procIds (some t)).2 } :=
      { Untimed.refl w with }
    refine Untimed.note (Untimed.enqueue (Untimed.setContext (hids.setObject (t := t) ?_) ?_) target
      (calm_of_none ?_ ?_)) ?_
    · rfl
    · exact { IoUringData.SameTims.refl _ with }
    · rfl
    · rfl
    · trivial
  | uring q _ _ => exact (Untimed.refl w).addRequest t _ fun _ _ _ => IoUringAttached.noConfusion
  | removeTimer q data hq _ _ => exact absurd (htimer ▸ hq) List.not_mem_nil
  | updateTimer q data hq _ _ _ => exact absurd (htimer ▸ hq) List.not_mem_nil
  | addTimer q hq _ _ => exact absurd (htimer ▸ hq) List.not_mem_nil
  | delete q thread _ _ _ => exact (Untimed.refl w).enqueue thread (calm_of_none rfl rfl)
  | dropChild q _ => exact (Untimed.refl w).setObject rfl
  | attach q _ => exact ((Untimed.refl w).setTables (by rfl) (by rfl)).note trivial

/-- The objects and the completions are not touched by a new timer. -/
theorem ctxAt_addTimer (w : World V σ) (q : EventQueuedTimer) (t' : Nat) :
    (w.addTimer t ctx ti q).ctxAt t' = w.ctxAt t' := by
  have hobj : ((w.addTimer t ctx ti q).threads t').objInfo = (w.threads t').objInfo := by
    refine Eq.trans (proj_setThread _ t t' _ (·.objInfo) rfl) ?_
    exact proj_setThread _ t t' _ (·.objInfo) rfl
  funext o
  rw [ctxAt, ctxAt, hobj]

theorem cq_addTimer (w : World V σ) (q : EventQueuedTimer) (t' : Nat) :
    ((w.addTimer t ctx ti q).threads t').ring.cq = (w.threads t').ring.cq := by
  refine Eq.trans (proj_setThread _ t t' _ (·.ring.cq) rfl) ?_
  exact proj_setThread _ t t' _ (·.ring.cq) rfl

/-- What is attached to a completion is not at a free address. -/
theorem TimerInv.cqe_ne (h : TimerInv fired w) {cqe : Nat × Int}
    (hcqe : cqe ∈ (w.threads t).ring.cq) {address : Nat} (hfree : w.attached address = none) :
    cqe.1 ≠ address := by
  intro heq
  exact h.held (List.mem_append_left _ (List.mem_map_of_mem hcqe)) (heq ▸ hfree)

/-- A new timer is not on its way, and those that were silent stay so. -/
theorem silent_addTimer (hkeys : TimerInv fired w) {q : EventQueuedTimer} {g : Id}
    (hfree : w.attached (w.malloc w.mallocs) = none) (hg : w.Silent g) :
    (w.addTimer t ctx ti q).Silent g where
  queues := hg.queues
  completions t' ht' cqe hcqe hres := by
    rw [cq_addTimer] at hcqe
    have hkept : (w.addTimer t ctx ti q).attached cqe.1 = w.attached cqe.1 :=
      Function.update_of_ne (hkeys.cqe_ne hcqe hfree) ..
    rw [hkept]
    exact hg.completions t' ht' cqe hcqe hres

namespace TimeoutInv

theorem silent_new (h : TimeoutInv fired known w) (hkeys : TimerInv fired w) (t : ThreadId) :
    w.Silent (getId w.timIds t).1 where
  queues t' _ hmem := not_taken_getId w.timIds t (hkeys.taken (h.tickets.issuedAhead hmem))
  completions t' _ cqe _ _ hattached := by
    obtain ⟨a, ha, hid⟩ := Option.bind_eq_some_iff.mp hattached
    cases a with
    | timer g o p =>
      obtain rfl := Option.some.inj hid
      exact not_taken_getId w.timIds t (hkeys.unread ha).1
    | eventData | timerUpdate => cases hid

/-- A timer is entered whose local identifier the context does not translate yet. -/
theorem addTimer (h : TimeoutInv fired known w) (hkeys : TimerInv fired w)
    (hctx : w.ctxAt t ti.objId = some ctx) {q : EventQueuedTimer} (hq : q.cancels = false)
    (hissued : ∃ n < (w.contexts ctx).localTimerId, q.localId = some n)
    (hback : (w.contexts ctx).localTimToGlobalTim q.localId = none)
    (hfree : w.attached (w.malloc w.mallocs) = none) :
    TimeoutInv fired known (w.addTimer t ctx ti q) := by
  have hnone : (w.contexts ctx).globalTimToLocalTim (getId w.timIds (some t)).1 = none := by
    by_contra hne
    obtain ⟨l, hl⟩ := Option.ne_none_iff_exists'.mp hne
    exact not_taken_getId w.timIds (some t) (h.issued hl).1
  have hcontexts := contexts_addTimer w (t := t) ctx ti q
  have hlog : (w.addTimer t ctx ti q).log =
      w.log ++ [.timerSet t ti.objId q.localId (getId w.timIds (some t)).1] := by
    refine congrArg (w.log ++ [·]) ?_
    rw [hq]
    rfl
  have hsub : w.log ⊆ (w.addTimer t ctx ti q).log := hlog ▸ List.subset_append_left _ _
  have hold : ∀ {n}, n ∈ (w.addTimer t ctx ti q).log → n ∈ w.log ∨
      n = .timerSet t ti.objId q.localId (getId w.timIds (some t)).1 := by
    intro n hmem
    rw [hlog] at hmem
    exact (List.mem_append.mp hmem).imp_right List.mem_singleton.mp
  exact {
    tickets := by
      rw [hlog, List.filterMap_append]
      exact (List.append_nil _).symm ▸ h.tickets
    inverse := fun ctx' => by
      rw [hcontexts]
      split
      · exact (h.inverse ctx).enter hnone hback
      · exact h.inverse ctx'
    issued := fun {ctx' g l} hg => by
      rw [hcontexts] at hg ⊢
      split at hg
      · rename_i heq
        rw [if_pos heq]
        simp only [IoUringData.globalToLocalTim, Function.update_apply] at hg
        split at hg
        · rename_i hgid
          rw [hgid, ← Option.some.inj hg]
          exact ⟨(taken_getId ..).mpr (Or.inr rfl), hissued⟩
        · exact (h.issued hg).imp_left fun hid => (taken_getId ..).mpr (Or.inl hid)
      · rename_i hne
        rw [if_neg hne]
        exact (h.issued hg).imp_left fun hid => (taken_getId ..).mpr (Or.inl hid)
    objects := fun ho => h.objects (ctxAt_addTimer w q _ ▸ ho)
    oneThread := fun ho ho' => h.oneThread (ctxAt_addTimer w q _ ▸ ho) (ctxAt_addTimer w q _ ▸ ho')
    shared := h.shared
    timers := fun {t' o l g} hmem => by
      rcases hold hmem with hmem | heq
      · obtain ⟨ho, hl⟩ := h.timers hmem
        refine ⟨ho, fun t₁ ctx' hctx' => ?_⟩
        rw [ctxAt_addTimer] at hctx'
        rw [hcontexts]
        split
        · rename_i heq
          exact Extends.enter hnone _ _ _ (heq ▸ hl t₁ ctx' hctx')
        · exact hl t₁ ctx' hctx'
      · obtain ⟨-, rfl, rfl, rfl⟩ := Note.timerSet.inj heq
        refine ⟨(h.objects hctx).1, fun t₁ ctx' hctx' => ?_⟩
        rw [ctxAt_addTimer] at hctx'
        obtain rfl := h.oneThread hctx hctx'
        obtain rfl := Option.some.inj (hctx.symm.trans hctx')
        rw [hcontexts, if_pos rfl]
        exact Function.update_self ..
    attachments := fun {a g o p} ha => by
      change Function.update _ _ _ a = _ at ha
      rw [Function.update_apply] at ha
      split at ha
      · obtain ⟨rfl, rfl, rfl⟩ := IoUringAttached.timer.inj (Option.some.inj ha)
        exact ⟨t, q.localId, hlog ▸ List.mem_append_right _ (List.mem_singleton.mpr rfl)⟩
      · obtain ⟨t', l, hmem⟩ := h.attachments ha
        exact ⟨t', l, hsub hmem⟩
    messages := fun hd hg => by
      obtain ⟨t', l, hmem⟩ := h.messages hd hg
      exact ⟨t', l, hsub hmem⟩
    cancelled := fun {t' o l} hmem => by
      obtain ⟨ho, hl, hsilent⟩ := h.cancelled ((hold hmem).resolve_right Note.noConfusion)
      refine ⟨ho, fun t₁ ctx' hctx' => ?_, fun t₁ g hset => ?_⟩
      · rw [ctxAt_addTimer] at hctx'
        rw [hcontexts]
        split
        · rename_i heq
          simp only [IoUringData.globalToLocalTim, Function.update_apply]
          split
          · exact Option.some_ne_none _
          · exact heq ▸ hl t₁ ctx' hctx'
        · exact hl t₁ ctx' hctx'
      -- a timer with a new local identifier was not cancelled
      · rcases hold hset with hset | heq
        · exact silent_addTimer hkeys hfree (hsilent t₁ g hset)
        · obtain ⟨-, rfl, rfl, -⟩ := Note.timerSet.inj heq
          exact absurd hback (hl t ctx hctx)
    delivered := fun hmem => by
      obtain ⟨t', g, hg, hset⟩ := h.delivered ((hold hmem).resolve_right Note.noConfusion)
      exact ⟨t', g, hg, hsub hset⟩
    stopped := by
      rw [hlog]
      refine List.pairwise_append.mpr ⟨h.stopped, List.pairwise_singleton _ _, ?_⟩
      intro n _ n' hn' t' o l _
      rw [List.mem_singleton.mp hn']
      rfl }

end TimeoutInv

end World

end LocalSoftware
