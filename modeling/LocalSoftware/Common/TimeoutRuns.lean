import LocalSoftware.Common.FreshObjects
import LocalSoftware.Common.LocalIdRuns
import LocalSoftware.Common.Timeouts
import Mathlib.Data.List.Perm.Subperm

/-!
# Timeouts and cancellations along a run

The invariant of `Timeouts` through the handlers, `process_uring` and the completions of the kernel.
`timeoutsInOrder_of_stopsInTime` says what follows for `on_yield`, for any number of threads: a
`Timeout` comes at most once for each call of `timer`, and none comes after the run that cancelled its
timer, if each timer is cancelled while it has an entry and nothing of its expiry is on its way, and
the kernel lets no cancelled timer expire.
-/

set_option autoImplicit false

namespace LocalSoftware

variable {V : Vocabulary} {σ : Type}

/-! ## What a handler leaves in its object -/

/-- The entries for new timers have local identifiers from `n` to `n'`, each a different one. -/
structure NewTimers (n n' : Nat) (qs : List EventQueuedTimer) : Prop where
  range : ∀ q ∈ qs, q.cancels = false → ∃ k, n ≤ k ∧ k < n' ∧ q.localId = some k
  apart : qs.Pairwise fun q q' => q.cancels = false → q'.cancels = false → q.localId ≠ q'.localId

namespace NewTimers

variable {n n' : Nat} {qs : List EventQueuedTimer}

theorem nil (n n' : Nat) : NewTimers n n' [] := ⟨fun _ hq => absurd hq List.not_mem_nil, .nil⟩

/-- A timer gets the next local identifier. -/
theorem push (h : NewTimers n n' qs) (hn : n ≤ n') (time : Timespec) :
    NewTimers n (n' + 1) (qs ++ [{ localId := some n', time }]) where
  range q hq hset := by
    rcases List.mem_append.mp hq with hq | hq
    · obtain ⟨k, hk, hk', hl⟩ := h.range q hq hset
      exact ⟨k, hk, Nat.lt_succ_of_lt hk', hl⟩
    · rw [List.mem_singleton.mp hq]
      exact ⟨n', hn, Nat.lt_succ_self n', rfl⟩
  apart := by
    refine List.pairwise_append.mpr ⟨h.apart, List.pairwise_singleton _ _, ?_⟩
    intro q hq q' hq' hset _ heq
    obtain ⟨k, -, hk, hl⟩ := h.range q hq hset
    rw [List.mem_singleton.mp hq', hl] at heq
    exact Nat.ne_of_lt hk (Option.some.inj heq)

/-- A cancellation sets no timer. -/
theorem cancel (h : NewTimers n n' qs) (l : Id) (time : Timespec) :
    NewTimers n n' (qs ++ [{ localId := l, time, cancels := true }]) where
  range q hq hset := by
    rcases List.mem_append.mp hq with hq | hq
    · exact h.range q hq hset
    · rw [List.mem_singleton.mp hq] at hset
      cases hset
  apart := by
    refine List.pairwise_append.mpr ⟨h.apart, List.pairwise_singleton _ _, ?_⟩
    intro q _ q' hq' _ hset'
    rw [List.mem_singleton.mp hq'] at hset'
    cases hset'

end NewTimers

/-- A handler that began with the context `d` leaves its timers as they are; the new ones have the next
local identifiers. -/
structure LeavesTimers (d : IoUringData V) (es : EventState V) : Prop where
  tims : IoUringData.SameTims d es.uringData
  new : NewTimers d.localTimerId es.uringData.localTimerId es.timer

namespace LeavesTimers

variable {d : IoUringData V} {s s' : EventState V}

theorem start (d : IoUringData V) : LeavesTimers d { uringData := d } := ⟨.refl d, .nil _ _⟩

/-- An operation that neither sets nor cancels a timer. -/
theorem same (h : LeavesTimers d s) (htims : s'.uringData.globalTimToLocalTim =
      s.uringData.globalTimToLocalTim)
    (hback : s'.uringData.localTimToGlobalTim = s.uringData.localTimToGlobalTim)
    (hcounter : s'.uringData.localTimerId = s.uringData.localTimerId)
    (htimer : s'.timer = s.timer) : LeavesTimers d s' where
  tims := h.tims.trans ⟨htims, hback, Nat.le_of_eq hcounter.symm⟩
  new := by
    rw [hcounter, htimer]
    exact h.new

theorem apply {op : Operation V} (h : LeavesTimers d s) (hs : s.apply op = .ok s') :
    LeavesTimers d s' := by
  cases op with
  | construct shared ty fn =>
    obtain rfl := Except.ok.inj hs
    exact h.same rfl rfl rfl rfl
  | callAt ty idx fn =>
    obtain rfl := Except.ok.inj hs
    exact h.same rfl rfl rfl rfl
  | call ty fn =>
    obtain ⟨r, hr, rfl⟩ := exists_of_map_eq_ok hs
    rw [EventState.call_eq_ok hr]
    exact h.same rfl rfl rfl rfl
  | uring op fn =>
    obtain rfl := Except.ok.inj hs
    exact h.same rfl rfl rfl rfl
  | delete ty idx =>
    obtain ⟨info, locator, -, -, rfl⟩ := EventState.queueDelete_eq_ok hs
    exact h.same rfl rfl rfl rfl
  | attach id =>
    obtain rfl := Except.ok.inj hs
    exact h.same rfl rfl rfl rfl
  | timer ts =>
    obtain rfl := Except.ok.inj hs
    exact ⟨h.tims.trans ⟨rfl, rfl, Nat.le_succ _⟩, h.new.push h.tims.counter ts⟩
  | cancelTimer id =>
    obtain rfl := Except.ok.inj hs
    exact ⟨h.tims, h.new.cancel id _⟩

theorem run {α : Type} {x : Script V α} {a : α} {es : EventState V}
    (h : x.run { uringData := d } = .ok (a, es)) : LeavesTimers d es :=
  Script.run_invariant (Script.uses_of_forall (A := fun _ => True) (fun _ => trivial) x) h (start d)
    fun _ _ _ hs _ hstep => hs.apply hstep

end LeavesTimers

namespace World

variable {w w' w'' : World V σ} {t ctx : Nat} {ti : TargetInfo} {es : EventState V}
  {m : EventVariant V} {rest : List (EventVariant V)} {fired known : List Id} {P : Program V σ}

/-! ## The entries for timers -/

/-- Before the entries for timers, and between them: the identifiers of the table have a silent timer
with an entry. -/
structure TimerStage (fired known : List Id) (t ctx : Nat) (ti : TargetInfo) (table : Id → Bool)
    (w : World V σ) : Prop where
  keys : TimerInv fired w
  inv : TimeoutInv fired known w
  object : w.ctxAt t ti.objId = some ctx
  known : ∀ l, table l = true → ∃ g, (w.contexts ctx).localTimToGlobalTim l = some g ∧
    ((w.threads t).timers g).isSome ∧ w.Silent g

/-- The key of no timer. -/
theorem TimerInv.timers_none (h : TimerInv fired w) (t : Nat) : (w.threads t).timers none = none := by
  have hnone : none ∉ fired := fun hmem => taken_ne_none (h.taken hmem) rfl
  by_contra hne
  obtain ⟨data, hdata⟩ := Option.ne_none_iff_exists'.mp hne
  obtain ⟨⟨o, p, ha⟩, -⟩ := h.entries hdata hnone
  exact taken_ne_none (h.unread ha).1 rfl

namespace TimerStage

variable {table : Id → Bool}

/-- A stage of `process_queued` without timers. -/
theorem queued (h : TimerStage fired known t ctx ti table w) (htimer : es.timer = [])
    (hq : Queued t ctx ti es w w') : TimerStage fired known t ctx ti table w' := by
  have huntimed := hq.untimed htimer (h.inv.objects h.object).2
  refine ⟨h.keys.queued hq, h.inv.untimed huntimed, ?_, fun l hl => ?_⟩
  · rw [hq.ctxAt_eq h.object]
    exact h.object
  · obtain ⟨g, hg, hsome, hsilent⟩ := h.known l hl
    refine ⟨g, ?_, ?_, huntimed.silent hsilent⟩
    · rw [(huntimed.contexts ctx).timsBack]
      exact hg
    · rw [hq.timers_eq htimer]
      exact hsome

theorem keys_queuedTimer {q : EventQueuedTimer} (h : TimerInv fired w)
    (hstep : w.queuedTimer t ctx ti q = .ok w') : TimerInv fired w' := by
  have hqueued : Relation.ReflTransGen (Queued t ctx ti { timer := [q] }) w w' :=
    queuedTimer_queued List.mem_cons_self hstep
  exact transGen_invariant hqueued h fun _ _ h hq => h.queued hq

/-- The identifiers of the table, and one more. -/
theorem extend {q : EventQueuedTimer} (hkeys : TimerInv fired w') (hinv : TimeoutInv fired known w')
    (hobject : w'.ctxAt t ti.objId = some ctx)
    (hself : ∃ g, (w'.contexts ctx).localTimToGlobalTim q.localId = some g ∧
      ((w'.threads t).timers g).isSome ∧ w'.Silent g)
    (hothers : ∀ l ≠ q.localId, table l = true → ∃ g, (w'.contexts ctx).localTimToGlobalTim l = some g ∧
      ((w'.threads t).timers g).isSome ∧ w'.Silent g) :
    TimerStage fired known t ctx ti (fun l => l == q.localId || table l) w' := by
  refine ⟨hkeys, hinv, hobject, fun l hl => ?_⟩
  by_cases heq : l = q.localId
  · exact heq ▸ hself
  · rw [beq_false_of_ne heq, Bool.false_or] at hl
    exact hothers l heq hl

/-- A cancellation whose timer has an entry. -/
theorem cancel {q : EventQueuedTimer} (h : TimerStage fired known t ctx ti table w)
    (hq : q.cancels = true) (htable : table q.localId = true)
    (hstep : w.queuedTimer t ctx ti q = .ok w') :
    TimerStage fired known t ctx ti (fun l => l == q.localId || table l) w' ∧
      w'.contexts = w.contexts := by
  have hobject := ctxAt_queuedTimer h.object hstep
  have hkeys := keys_queuedTimer h.keys hstep
  obtain ⟨g, hg, hsome, hsilent⟩ := h.known _ htable
  obtain ⟨data, hdata⟩ := Option.isSome_iff_exists.mp hsome
  -- up to the note, the timers keep their entries, and nothing else happens to them
  have hnoted : ∀ {v : World V σ}, Untimed w v → v.ctxAt t ti.objId = some ctx →
      v.contexts = w.contexts →
      (∀ g', ((w.threads t).timers g').isSome → ((v.threads t).timers g').isSome) →
      w' = v.note (.timerCancelled t ti.objId q.localId) →
      TimerStage fired known t ctx ti (fun l => l == q.localId || table l) w' ∧
        w'.contexts = w.contexts := by
    rintro v hv hctx hcontexts htimers rfl
    have hgone := (h.inv.untimed hv).cancel hctx (hcontexts ▸ hg) (hv.silent hsilent)
    have hkept : ∀ l, table l = true → ∃ g', (v.contexts ctx).localTimToGlobalTim l = some g' ∧
        ((v.threads t).timers g').isSome ∧
        (v.note (.timerCancelled t ti.objId q.localId)).Silent g' := by
      intro l hl
      obtain ⟨g', hg', hsome', hsilent'⟩ := h.known l hl
      exact ⟨g', hcontexts ▸ hg', htimers g' hsome',
        (hv.silent hsilent').congr rfl rfl (fun _ => rfl) rfl⟩
    exact ⟨extend hkeys hgone hobject (hkept _ htable) fun l _ hl => hkept l hl, hcontexts⟩
  have hglobal : (w.contexts ctx).translateTimLocal q.localId = g := by
    rw [IoUringData.translateTimLocal, hg]
    rfl
  have hnote : ∀ v : World V σ, v.noteTimer t ti q g =
      v.note (.timerCancelled t ti.objId q.localId) := by
    intro v
    rw [noteTimer, hq]
    rfl
  unfold queuedTimer at hstep
  simp only [hglobal, hdata] at hstep
  split at hstep
  · split at hstep
    · obtain rfl := Except.ok.inj hstep
      refine hnoted ((Untimed.refl w).addRequest t (.timeoutRemove data.ptr) (a := .timerUpdate g true)
        fun _ _ _ heq => by cases heq) ?_ rfl (fun g' hg' => ?_) (hnote _)
      · exact hobject
      · rw [timers_addRequest]
        exact hg'
    · obtain rfl := Except.ok.inj hstep
      have htables : Untimed w (w.setThread t { w.threads t with
          timers := Function.update (w.threads t).timers g (some { data with ts := q.time }) }) := by
        refine (Untimed.refl w).setTables ?_ ?_ <;> rfl
      refine hnoted (htables.addRequest t (.timeoutUpdate q.time data.ptr) (a := .timerUpdate g false)
        fun _ _ _ heq => by cases heq) ?_ rfl (fun g' hg' => ?_) (hnote _)
      · exact hobject
      · rw [timers_addRequest, threads_setThread_self]
        simp only [Function.update_apply]
        split
        · rfl
        · exact hg'
  · cases hstep

/-- A new timer. -/
theorem set {q : EventQueuedTimer} (h : TimerStage fired known t ctx ti table w)
    (hq : q.cancels = false) (hissued : ∃ n < (w.contexts ctx).localTimerId, q.localId = some n)
    (hback : (w.contexts ctx).localTimToGlobalTim q.localId = none)
    (hstep : w.queuedTimer t ctx ti q = .ok w') :
    TimerStage fired known t ctx ti (fun l => l == q.localId || table l) w' ∧
      w'.contexts ctx = (w.contexts ctx).globalToLocalTim (getId w.timIds (some t)).1 q.localId := by
  have hobject := ctxAt_queuedTimer h.object hstep
  have hkeys := keys_queuedTimer h.keys hstep
  have hnone : (w.threads t).timers ((w.contexts ctx).translateTimLocal q.localId) = none := by
    rw [IoUringData.translateTimLocal, hback]
    exact h.keys.timers_none t
  unfold queuedTimer at hstep
  simp only [hnone] at hstep
  split at hstep
  · rename_i hsqe
    obtain rfl := Except.ok.inj hstep
    have hcontext : (w.addTimer t ctx ti q).contexts ctx =
        (w.contexts ctx).globalToLocalTim (getId w.timIds (some t)).1 q.localId := by
      rw [contexts_addTimer, if_pos rfl]
    have htimers : ((w.addTimer t ctx ti q).threads t).timers =
        Function.update (w.threads t).timers (getId w.timIds (some t)).1
          (some { ptr := w.malloc w.mallocs, objId := ti.objId, ts := q.time }) := by
      rw [addTimer_eq]
      simp only [noteTimer, threads_note, threads_setThread_self]
    have hadded := h.inv.addTimer h.keys h.object hq hissued hback hsqe.2
    have hsilent : ∀ {g}, w.Silent g → (w.addTimer t ctx ti q).Silent g :=
      fun hg => silent_addTimer h.keys hsqe.2 hg
    refine ⟨extend hkeys hadded hobject ?_ fun l hne hl => ?_, hcontext⟩
    · refine ⟨(getId w.timIds (some t)).1, ?_, ?_, hsilent (h.inv.silent_new h.keys (some t))⟩
      · rw [hcontext]
        exact Function.update_self ..
      · rw [htimers, Function.update_self]
        rfl
    · obtain ⟨g, hg, hsome, hg'⟩ := h.known l hl
      refine ⟨g, ?_, ?_, hsilent hg'⟩
      · rw [hcontext, ← hg]
        exact Function.update_of_ne hne ..
      · rw [htimers, Function.update_apply]
        split
        · rfl
        · exact hsome
  · cases hstep

/-- The entries for timers, each of which makes its identifier known. -/
theorem setTimers {qs : List EventQueuedTimer} (h : TimerStage fired known t ctx ti table w)
    (hknown : KnowsCancelled table qs)
    (hissued : ∀ q ∈ qs, q.cancels = false →
      (∃ n < (w.contexts ctx).localTimerId, q.localId = some n) ∧
        (w.contexts ctx).localTimToGlobalTim q.localId = none)
    (hapart : qs.Pairwise fun q q' =>
      q.cancels = false → q'.cancels = false → q.localId ≠ q'.localId)
    (heach : each (queuedTimer t ctx ti) qs w = .ok w') :
    ∃ table', TimerStage fired known t ctx ti table' w' := by
  induction qs generalizing w table with
  | nil =>
    obtain rfl := Except.ok.inj heach
    exact ⟨table, h⟩
  | cons q qs ih =>
    obtain ⟨hcancel, hrest⟩ := hknown
    obtain ⟨hne, hapart⟩ := List.pairwise_cons.mp hapart
    simp only [each] at heach
    split at heach
    · cases heach
    · rename_i w₁ hstep
      cases hq : q.cancels with
      | true =>
        obtain ⟨hstage, hcontexts⟩ := h.cancel hq (hcancel hq) hstep
        refine ih hstage hrest (fun q' hq' hset => ?_) hapart heach
        rw [hcontexts]
        exact hissued q' (List.mem_cons_of_mem _ hq') hset
      | false =>
        obtain ⟨hn, hback⟩ := hissued q List.mem_cons_self hq
        obtain ⟨hstage, hcontext⟩ := h.set hq hn hback hstep
        refine ih hstage hrest (fun q' hq' hset => ?_) hapart heach
        obtain ⟨hn', hback'⟩ := hissued q' (List.mem_cons_of_mem _ hq') hset
        rw [hcontext]
        refine ⟨hn', ?_⟩
        rw [← hback']
        exact Function.update_of_ne (hne q' hq' hq hset).symm ..

end TimerStage

/-- `process_queued` after a handler that began with the context `d`. -/
theorem TimeoutInv.processQueued {d : IoUringData V} {table : Id → Bool}
    (hstage : TimerStage fired known t ctx ti table w) (hleaves : LeavesTimers d es)
    (htims : IoUringData.SameTims es.uringData (w.contexts ctx))
    (hbelow : ∀ {l g}, d.localTimToGlobalTim l = some g → ∃ n < d.localTimerId, l = some n)
    (hknown : KnowsCancelled table es.timer)
    (hqueued : w.processQueued t ctx ti es = .ok w') :
    TimerInv fired w' ∧ TimeoutInv fired known w' := by
  unfold World.processQueued at hqueued
  obtain ⟨w₁, h₁, hqueued⟩ := bind_eq_ok hqueued
  obtain ⟨w₂, h₂, hqueued⟩ := bind_eq_ok hqueued
  obtain ⟨w₃, h₃, hqueued⟩ := bind_eq_ok hqueued
  obtain ⟨w₄, h₄, hqueued⟩ := bind_eq_ok hqueued
  obtain ⟨w₅, h₅, hattach⟩ := bind_eq_ok hqueued
  -- all but the timers
  let others : EventState V := { es with timer := [] }
  have hbefore : Relation.ReflTransGen (Queued t ctx ti others) w w₃ :=
    ((each_queued (fun q (hq : q ∈ others.construct) _ _ => queuedConstruct_queued hq) h₁).trans
      (each_queued (fun q (hq : q ∈ others.function) _ _ => queuedFunction_queued hq) h₂)).trans
        (each_queued (fun q (hq : q ∈ others.uring) _ _ => queuedUring_queued hq) h₃)
  obtain ⟨hstage, htims⟩ := transGen_invariant (I := fun w =>
    TimerStage fired known t ctx ti table w ∧ IoUringData.SameTims es.uringData (w.contexts ctx))
    hbefore ⟨hstage, htims⟩ fun w w' h hq => ⟨h.1.queued rfl hq,
      h.2.trans ((hq.untimed rfl (h.1.inv.objects h.1.object).2).contexts ctx)⟩
  -- the new timers have the local identifiers from the counter of `d` on
  obtain ⟨table', hstage⟩ := hstage.setTimers hknown (fun q hq hset => by
    obtain ⟨n, hn, hn', hl⟩ := hleaves.new.range q hq hset
    refine ⟨⟨n, Nat.lt_of_lt_of_le hn' htims.counter, hl⟩, ?_⟩
    rw [htims.timsBack, hleaves.tims.timsBack]
    by_contra hne
    obtain ⟨g, hg⟩ := Option.ne_none_iff_exists'.mp hne
    obtain ⟨k, hk, hlk⟩ := hbelow hg
    rw [hl] at hlk
    exact absurd (Option.some.inj hlk) (Nat.ne_of_gt (Nat.lt_of_lt_of_le hk hn))) hleaves.new.apart h₄
  have hafter : Relation.ReflTransGen (Queued t ctx ti others) w₄ w' :=
    (each_queued (fun q (hq : q ∈ others.delete) _ _ => queuedDelete_queued hq) h₅).trans
      (each_queued (fun q (hq : q ∈ others.attach) _ _ hstep => by
        obtain rfl := Except.ok.inj hstep
        exact .single (.attach _ q hq)) hattach)
  have hend := transGen_invariant hafter hstage fun _ _ h hq => h.queued rfl hq
  exact ⟨hend.keys, hend.inv⟩

/-! ## The messages -/

namespace Untimed

theorem afterHandler (h : Untimed w w') (hes : IoUringData.SameTims (w'.contexts ctx) es.uringData)
    (heap : σ) : Untimed w (w'.afterHandler ctx es heap) :=
  (h.setContext hes).trans { refl _ with }

theorem fillSlot {slot : Option (Id × V.TypeIndex × Nat)} {id : Id} (h : Untimed w w')
    (hslot : w'.fillSlot t slot id = .ok w'') : Untimed w w'' := by
  obtain ⟨-, rfl⟩ | ⟨parent, ty, idx, ctx', info, -, -, -, rfl⟩ := fillSlot_cases hslot
  · exact h
  · exact h.setContext { IoUringData.SameTims.refl _ with }

/-- The beginning of a call. -/
theorem enter (h : Untimed w w') {f : FunctionCall V} {o : ObjectDataThreaded}
    (ho : (w'.threads t).objInfo f.ti.objId = some o) : Untimed w (w'.enter t f o) := by
  refine Untimed.note (h.setThread (t := t) (fun {o' ctx'} ho' => ?_) fun {a} ha => ?_) ?_
  · have hentry := objInfo_enter_self (w := w') (t := t) f o o'
    simp only [World.enter, threads_note, threads_setThread_self] at hentry
    rw [hentry] at ho'
    split at ho'
    · rename_i heq
      rw [World.ctxAt, heq, ho]
      exact ho'
    · exact ho'
  · exact ha
  · trivial

theorem respond {f : FunctionCall V} {resp : CallResponse} (h : Untimed w w')
    (hrespond : w'.respond t f resp = .ok w'') : Untimed w w'' := by
  obtain ⟨d, -, -, ⟨-, rfl⟩ | ⟨failed, code, -, ⟨-, rfl⟩ | ⟨t', -, -, rfl⟩⟩⟩ :=
    respond_cases hrespond
  · exact h.setTables rfl rfl
  · exact (h.setTables (by rfl) (by rfl)).note trivial
  · refine Untimed.enqueue (Untimed.note (h.setTables ?_ ?_) ?_) t' (calm_of_none rfl rfl)
    · rfl
    · rfl
    · trivial

theorem report {y : Yielded} (h : Untimed w w') (hreport : w'.report t ti y = .ok w'') :
    Untimed w w'' := by
  obtain ⟨-, rfl⟩ | ⟨failed, code, t', -, -, -, rfl⟩ := report_cases hreport
  · exact h
  · refine Untimed.enqueue (Untimed.note (h.setTables ?_ ?_) ?_) t' (calm_of_none rfl rfl)
    · rfl
    · rfl
    · trivial

/-- The copies for the attached procedures are not counted. -/
theorem forward (h : Untimed w w') (d : Data) (attachers : List (Id × Id)) :
    Untimed w (w'.forward t d attachers) :=
  forward_invariant (I := Untimed w) h fun _ _ _ h =>
    h.enqueue t (calm_of_none rfl rfl)

theorem deleteChildren {ci : CallerInfo} {children : List (Id × ChildObjectInfo)}
    (h : Untimed w w') (hchildren : w'.deleteChildren ci children = .ok w'') : Untimed w w'' :=
  deleteChildren_invariant (I := Untimed w) hchildren h fun _ child _ h _ =>
    h.enqueue child.2.thread (calm_of_none rfl rfl)

theorem erase (h : Untimed w w') (P : Program V σ) (t : Nat) (id : Id) :
    Untimed w (w'.erase P t id) := by
  have hheap : ∀ heap : σ, Untimed w' { w' with heap } := fun _ => { refl w' with }
  refine Untimed.note (Untimed.setThread (h.trans (hheap _)) (fun {o ctx} ho => ?_)
    fun {a} ha => ?_) ?_
  · simp only [Function.update_apply] at ho
    split at ho
    · cases ho
    · exact ho
  · exact ha
  · trivial

end Untimed

namespace TimeoutInv

/-- Objects may be known that were never constructed. -/
theorem weaken {known' : List Id} (h : TimeoutInv fired known w) (hknown : known ⊆ known') :
    TimeoutInv fired known' w :=
  { h with
    objects := fun ho => (h.objects ho).imp_left fun hmem => hknown hmem
    timers := fun hmem => (h.timers hmem).imp_left fun hmem => hknown hmem
    cancelled := fun hmem => (h.cancelled hmem).imp_left fun hmem => hknown hmem }

/-- What a handler queued that began with the timers of its context. -/
theorem ran {d : IoUringData V} {heap : σ} {table : Id → Bool} (h : TimeoutInv fired known w)
    (hkeys : TimerInv fired w) (hctx : w.ctxAt t ti.objId = some ctx)
    (hd : IoUringData.SameTims (w.contexts ctx) d) (hleaves : LeavesTimers d es)
    (htable : ∀ l, table l = true → ∃ g, es.uringData.localTimToGlobalTim l = some g ∧
      ((w.threads t).timers g).isSome ∧ w.Silent g)
    (hknown : KnowsCancelled table es.timer)
    (hqueued : (w.afterHandler ctx es heap).processQueued t ctx ti es = .ok w') :
    TimeoutInv fired known w' := by
  have hafter := (Untimed.refl w).afterHandler (hd.trans hleaves.tims) heap
  have hcontext : (w.afterHandler ctx es heap).contexts ctx = es.uringData :=
    contexts_afterHandler heap
  have hstage : TimerStage fired known t ctx ti table (w.afterHandler ctx es heap) := by
    refine ⟨hkeys.same (afterHandler_sameTimers w ctx es heap), h.untimed hafter, hctx,
      fun l hl => ?_⟩
    obtain ⟨g, hg, hsome, hsilent⟩ := htable l hl
    exact ⟨g, hcontext ▸ hg, hsome, hafter.silent hsilent⟩
  refine (processQueued hstage hleaves ?_ (fun {l g} hl => ?_) hknown hqueued).2
  · rw [hcontext]
    exact .refl _
  · rw [hd.timsBack] at hl
    obtain ⟨n, hn, hln⟩ := (h.issued ((h.inverse ctx g l).mpr hl)).2
    exact ⟨n, Nat.lt_of_lt_of_le hn hd.counter, hln⟩

/-- The next message is delivered: a `Timeout` has the local identifier that `timer` returned. -/
theorem yielded (h : TimeoutInv fired known w) {d : Data} (ht : t < w.size)
    (hq : w.queues t = .data d :: rest) (hcopy : d.copiesTimeout = false)
    (hctx : w.ctxAt t d.ti.objId = some ctx) :
    TimeoutInv fired known ((w.pop t rest).note
      (.delivered t d ((w.contexts ctx).mapEventData d.data).1)) ∧
      IoUringData.SameTims (w.contexts ctx) ((w.contexts ctx).mapEventData d.data).2 := by
  obtain ⟨hpop, hfree⟩ := h.pop hq
  have hhead : .data d ∈ w.queues t := hq ▸ List.mem_cons_self
  rcases Data.expired_cases hcopy with ⟨g, hg, hdata⟩ | ⟨hg, hdata⟩
  · obtain ⟨t', l, hset⟩ := h.messages hhead hg
    rw [hdata, IoUringData.mapEventData_timeout ((h.timers hset).2 t ctx hctx)]
    refine ⟨hpop.deliver (hfree g hg) hg hset (fun t'' hmem => ?_) t, .refl _⟩
    -- the message was on its way, so that its timer is not cancelled
    obtain ⟨-, -, hsilent⟩ := h.cancelled hmem
    exact (hsilent t' g hset).queues t ht (List.mem_filterMap.mpr ⟨_, hhead, hg⟩)
  · obtain ⟨hsame, hevent⟩ := (w.contexts ctx).mapEventData_sameTims hdata
    exact ⟨hpop.untimed ((Untimed.refl _).note ⟨hg, hevent⟩), hsame⟩

end TimeoutInv

/-- The timer of a local identifier has an entry, and behind the next message nothing of its expiry is
on its way. -/
def stoppable (w : World V σ) (t : Nat) (rest : List (EventVariant V)) (d : IoUringData V) (l : Id) :
    Bool :=
  w.hasEntry t d l && decide ((w.pop t rest).Silent (d.translateTimLocal l))

theorem TimerInv.stoppable (h : TimerInv fired w) {d : IoUringData V} {l : Id}
    (hl : w.stoppable t rest d l = true) : ∃ g, d.localTimToGlobalTim l = some g ∧
      ((w.threads t).timers g).isSome ∧ (w.pop t rest).Silent g := by
  obtain ⟨hentry, hsilent⟩ := Bool.and_eq_true_iff.mp hl
  rw [decide_eq_true_eq] at hsilent
  rw [hasEntry] at hentry
  cases hg : d.localTimToGlobalTim l with
  | none =>
    rw [IoUringData.translateTimLocal, hg, Option.getD_none, h.timers_none t] at hentry
    cases hentry
  | some g =>
    rw [IoUringData.translateTimLocal, hg] at hentry hsilent
    exact ⟨g, rfl, hentry, hsilent⟩

/-- A message is handled; an object that it constructs was never there. -/
theorem TimeoutInv.handled (h : TimeoutInv fired known w) (hkeys : TimerInv fired w) (ht : t < w.size)
    (hq : w.queues t = m :: rest) (hfresh : ∀ x ∈ m.builtId, x ∉ known)
    (hcopy : m.copiesTimeout = false)
    (htimer : ∀ ctx ti es, w.handlerState P t m = some (ctx, ti, es) →
      KnowsCancelled (w.stoppable t rest es.uringData) es.timer)
    (hw : Handled P t w w') : TimeoutInv fired (known ++ m.builtId.toList) w' := by
  have hknown : known ++ ([] : List Id) = known := List.append_nil known
  have hpop := (h.pop hq).1
  have hshared : ∀ c, m = .constructorCall c → ∀ ctx, c.uringData = some ctx → ctx < w.nextContext :=
    fun c hc ctx hctx => h.shared (m := .constructorCall c) (hc ▸ hq ▸ List.mem_cons_self) hctx
  cases hw with
  | idle hnil => cases hnil.symm.trans hq
  | @constructed c rest' ctx w₁ w₂ w₃ heap es hq' htake hrun hslot hnew hqueued =>
    obtain ⟨rfl, rfl⟩ := List.cons.inj (hq'.symm.trans hq)
    obtain ⟨htaken, hlt⟩ := hpop.takeContext (hshared c rfl) htake
    have hleaves := LeavesTimers.run hrun
    have hfill := (Untimed.refl (w₁.afterHandler ctx es heap)).fillSlot hslot
    have hsame : Untimed w₁ w₂ := ((Untimed.refl w₁).afterHandler hleaves.tims heap).trans hfill
    have hnew := (htaken.untimed hsame).newObject (hfresh _ rfl) (hsame.nextContext ▸ hlt) t
    have hkeys' : TimerInv fired
        (w₂.setThread t ((w₂.threads t).setObject c.ti.objId { ptr := some ctx })) :=
      hkeys.same ((constructed_sameTimers htake hslot).setThread rfl rfl)
    have htims : IoUringData.SameTims es.uringData (w₂.contexts ctx) :=
      contexts_afterHandler (w := w₁) heap ▸ hfill.contexts ctx
    have hstage : TimerStage fired (known ++ [c.ti.objId]) t ctx c.ti
        (w.stoppable t rest' es.uringData)
        (w₂.setThread t ((w₂.threads t).setObject c.ti.objId { ptr := some ctx })) := by
      refine ⟨hkeys', hnew, ?_, fun l hl => ?_⟩
      · rw [ctxAt, threads_setThread_self, ThreadData.objInfo_setObject, if_pos rfl]
        rfl
      · obtain ⟨g, hg, hsome, hsilent⟩ := hkeys.stoppable hl
        obtain ⟨contexts, nextContext, rfl⟩ := takeContext_eq htake
        refine ⟨g, htims.timsBack ▸ hg, ?_, ?_⟩
        · rw [threads_setThread_self, (filled_same htake hslot).threads]
          exact hsome
        · exact (hsame.silent (hsilent.congr rfl rfl (fun _ => rfl) rfl)).congr rfl rfl
            (fun t' => proj_setThread w₂ t t' _ (·.ring.cq) rfl) rfl
    have hdone := processQueued hstage hleaves htims (fun {l g} hl =>
      (htaken.issued ((htaken.inverse ctx g l).mpr hl)).2)
      (htimer _ _ _ (handlerState_construct htake hrun)) hqueued
    exact hdone.2.untimed ((Untimed.refl _).submit t)
  | @reconstructed c rest' ctx w₁ w₂ heap es o hq' htake hrun hslot hold =>
    obtain ⟨rfl, rfl⟩ := List.cons.inj (hq'.symm.trans hq)
    obtain ⟨htaken, -⟩ := hpop.takeContext (hshared c rfl) htake
    have hfill := ((Untimed.refl w₁).afterHandler (LeavesTimers.run hrun).tims heap).fillSlot hslot
    exact (htaken.untimed (hfill.submit t)).weaken (List.subset_append_left _ _)
  | @called f rest' o ctx resp heap es w₂ w₃ hq' ho hptr hrun hqueued hrespond =>
    obtain ⟨rfl, rfl⟩ := List.cons.inj (hq'.symm.trans hq)
    have henter : Untimed (w.pop t rest') ((w.pop t rest').enter t f o) := (Untimed.refl _).enter ho
    have hkeys' := hkeys.same ((pop_sameTimers w t rest').trans (enter_sameTimers _ t f o))
    have hctx : ((w.pop t rest').enter t f o).ctxAt t f.ti.objId = some ctx := by
      rw [ctxAt, objInfo_enter_self, if_pos rfl, Option.bind_some]
      exact hptr
    have htimers : (((w.pop t rest').enter t f o).threads t).timers = (w.threads t).timers :=
      proj_setThread _ t t _ (·.timers) rfl
    have hran := (hpop.untimed henter).ran hkeys' hctx (.refl _) (LeavesTimers.run hrun)
      (fun l hl => by
        obtain ⟨g, hg, hsome, hsilent⟩ := hkeys.stoppable hl
        exact ⟨g, hg, htimers ▸ hsome, henter.silent hsilent⟩)
      (htimer _ _ _ (handlerState_function ho hptr hrun)) hqueued
    exact hknown.symm ▸ hran.untimed (((Untimed.refl _).respond hrespond).submit t)
  | @delivered d rest' o c ctx y heap es w₂ w₃ hq' ho hd hptr hrun hqueued hreport =>
    obtain ⟨rfl, rfl⟩ := List.cons.inj (hq'.symm.trans hq)
    have hctx : w.ctxAt t d.ti.objId = some ctx := by rw [ctxAt, ho, Option.bind_some, hptr]
    obtain ⟨hnoted, hsame⟩ := h.yielded ht hq hcopy hctx
    have hkeys' := hkeys.same ((pop_sameTimers w t rest').note
      (.delivered t d ((w.contexts ctx).mapEventData d.data).1))
    have hran := hnoted.ran hkeys' hctx hsame (LeavesTimers.run hrun)
      (fun l hl => by
        obtain ⟨g, hg, hsome, hsilent⟩ := hkeys.stoppable hl
        exact ⟨g, hg, hsome, hsilent.congr rfl rfl (fun _ => rfl) rfl⟩)
      (htimer _ _ _ (handlerState_yield ho hd hptr hrun)) hqueued
    have hrest := (((Untimed.refl _).report hreport).forward
      { d with data := ((w.contexts ctx).mapEventData d.data).1 }
      ((w₃.threads t).alsoNotify d.ti.procId) (t := t)).submit t
    exact hknown.symm ▸ hran.untimed hrest
  | dropped hq' hmissing =>
    obtain ⟨rfl, rfl⟩ := List.cons.inj (hq'.symm.trans hq)
    exact hknown.symm ▸ hpop.untimed ((Untimed.refl _).submit t)
  | deleted hq' hchildren =>
    obtain ⟨rfl, rfl⟩ := List.cons.inj (hq'.symm.trans hq)
    have hchildren := (Untimed.refl _).deleteChildren hchildren
    exact hknown.symm ▸ hpop.untimed ((hchildren.erase P t _).submit t)
  | @root r rest' hq' =>
    obtain ⟨rfl, rfl⟩ := List.cons.inj (hq'.symm.trans hq)
    have hpushed : Untimed (w.pop t rest') ((w.pop t rest').rootReceived t r) := by
      refine Untimed.enqueue (Untimed.enqueue (.refl _) t (calm_of_none ?_ ?_)) t
        (calm_of_none ?_ ?_) <;> rfl
    exact hknown.symm ▸ hpop.untimed (hpushed.submit t)

/-! ## Completions -/

theorem ctxAt_setCq (w : World V σ) (t t' : Nat) (cq : List (Nat × Int)) :
    (w.setCq t cq).ctxAt t' = w.ctxAt t' := by
  have hobj : ((w.setCq t cq).threads t').objInfo = (w.threads t').objInfo :=
    proj_setThread w t t' _ (·.objInfo) rfl
  funext o
  rw [ctxAt, ctxAt, hobj]

theorem cq_setCq (w : World V σ) (t t' : Nat) (cq : List (Nat × Int)) :
    ((w.setCq t cq).threads t').ring.cq = if t' = t then cq else (w.threads t').ring.cq := by
  rw [setCq, threads_setThread]
  split <;> rfl

namespace Untimed

/-- An attachment is freed. -/
theorem free (h : Untimed w w') (address : Nat) :
    Untimed w { w' with attached := Function.update w'.attached address none } :=
  h.trans { refl w' with
    attached := fun {a g o p} ha => by
      simp only [Function.update_apply] at ha
      split at ha
      · cases ha
      · exact ha }

/-- A completion is taken from the ring. -/
theorem readCqe (h : Untimed w w') (cqe : Nat × Int) (cqes : List (Nat × Int)) :
    Untimed (w.setCq t (cqe :: cqes)) (w'.setCq t cqes) where
  size := h.size
  timIds := h.timIds
  contexts := h.contexts
  nextContext := h.nextContext
  ctxAt ho := by
    rw [ctxAt_setCq] at ho ⊢
    exact h.ctxAt ho
  queues := h.queues
  expiries := h.expiries
  attached := h.attached
  completions {t' a} ha := by
    rw [cq_setCq] at ha ⊢
    by_cases ht : t' = t
    · rw [if_pos ht] at ha ⊢
      exact List.mem_cons_of_mem cqe ha
    · rw [if_neg ht] at ha ⊢
      exact h.completions ha
  log := h.log

end Untimed

namespace TimeoutInv

/-- More timers may have fired. -/
theorem mono {fired' : List Id} (h : TimeoutInv fired known w) (hfired : fired ⊆ fired') :
    TimeoutInv fired' known w :=
  { h with tickets := h.tickets.mono fun _ hg => hfired hg }

/-- A timer expires that has not fired and is not cancelled: its `Timeout` is sent. -/
theorem expire (h : TimeoutInv fired known w) {g o : Id} (hg : g ∉ fired)
    (hset : ∃ t' l, .timerSet t' o l g ∈ w.log)
    (hnot : ∀ t' o' l, .timerCancelled t' o' l ∈ w.log → ∀ t'', .timerSet t'' o' l g ∉ w.log)
    (t : Nat) (p : Id) :
    TimeoutInv (fired ++ [g]) known (w.enqueue t (.data (ringData o p (.timeout g)))) := by
  have hexpiries := fun t' => expiries_enqueue w t t' (.data (ringData o p (.timeout g)))
  have hmem : ∀ {t' m'}, m' ∈ (w.enqueue t (.data (ringData o p (.timeout g)))).queues t' →
      m' ∈ w.queues t' ∨ m' = .data (ringData o p (.timeout g)) := by
    intro t' m' hm'
    rw [queues_enqueue] at hm'
    split at hm'
    · exact (List.mem_append.mp hm').imp_right List.mem_singleton.mp
    · exact Or.inl hm'
  have hissued : ∀ k, k ∈ fired → k ∈ fired ++ [g] := fun _ hk => List.mem_append_left _ hk
  have hfree : Free (· ∈ fired ++ [g]) w.expiries (w.log.filterMap Note.expired) g :=
    h.tickets.free_of_not_issued hg (List.mem_append_right _ List.mem_cons_self)
  exact { h with
    tickets := (h.tickets.mono hissued).push hfree hexpiries
    shared := fun hm hctx => by
      rcases hmem hm with hm | rfl
      · exact h.shared hm hctx
      · cases hctx
    messages := fun {t' d g'} hd hg' => by
      rcases hmem hd with hd | heq
      · exact h.messages hd hg'
      · obtain rfl := EventVariant.data.inj heq
        obtain rfl := Option.some.inj hg'
        exact hset
    cancelled := fun hn => by
      obtain ⟨ho, hl, hsilent⟩ := h.cancelled hn
      refine ⟨ho, hl, fun t' g' hset' => ⟨fun t₁ ht₁ hin => ?_, (hsilent t' g' hset').completions⟩⟩
      rw [hexpiries] at hin
      split at hin
      · rcases List.mem_append.mp hin with hin | hin
        · exact (hsilent t' g' hset').queues t₁ ht₁ hin
        · obtain rfl : g' = g := List.mem_singleton.mp hin
          exact hnot _ _ _ hn t' hset'
      · exact (hsilent t' g' hset').queues t₁ ht₁ hin }

/-- A completion is read, and its attachment is freed. -/
theorem read {address : Nat} {res : Int} {cqes : List (Nat × Int)} {a : IoUringAttached}
    (h : TimeoutInv fired known (w.setCq t ((address, res) :: cqes)))
    (hkeys : TimerInv fired (w.setCq t ((address, res) :: cqes))) (ht : t < w.size)
    (ha : w.attached address = some a) :
    TimeoutInv (fired ++ a.timerId.toList) known ((w.readCqe t address res a).setCq t cqes) := by
  have hsub : fired ⊆ fired ++ a.timerId.toList := List.subset_append_left _ _
  have hread : ∀ {w'}, Untimed w w' →
      TimeoutInv fired known (({ w' with
        attached := Function.update w'.attached address none } : World V σ).setCq t cqes) :=
    fun hw => h.untimed ((hw.free address).readCqe (address, res) cqes)
  cases a with
  | eventData op o p =>
    exact TimeoutInv.mono (hread ((Untimed.refl w).enqueue t (m := .data (ringData o p
      (.ioUringResult { callingId := p, op, res }))) (calm_of_none rfl rfl))) hsub
  | timer g o p =>
    simp only [World.readCqe, attachment]
    split
    · rename_i hres
      refine expire (hread (.refl w)) (hkeys.unread (a := address) ha).2
        (h.attachments (a := address) ha) (fun t' o' l hn t'' hset => ?_) t p
      -- the completion of a timer that is cancelled is not read
      have hsilent := (h.cancelled hn).2.2 t'' g hset
      refine hsilent.completions t ht (address, res) ?_ hres ?_
      · rw [cq_setCq, if_pos rfl]
        exact List.mem_cons_self
      · exact congrArg (Option.bind · IoUringAttached.timerId) ha
    · exact (hread (.refl w)).mono hsub
  | timerUpdate g remove =>
    simp only [World.readCqe, attachment]
    split
    · exact TimeoutInv.mono (hread ((Untimed.refl w).setTables (by rfl) (by rfl))) hsub
    · exact (hread (.refl w)).mono hsub

/-- The loop of `process_uring`. -/
theorem readCqes {cqes : List (Nat × Int)} (h : TimeoutInv fired known (w.setCq t cqes))
    (hkeys : TimerInv fired (w.setCq t cqes)) (ht : t < w.size)
    (hread : w.readCqes t cqes = .ok w') :
    ∃ fired', TimerInv fired' (w'.setCq t []) ∧ TimeoutInv fired' known (w'.setCq t []) := by
  -- on the completions, with the timers that fired so far
  induction cqes generalizing w fired with
  | nil =>
    obtain rfl := Except.ok.inj hread
    exact ⟨fired, hkeys, h⟩
  | cons cqe cqes ih =>
    obtain ⟨address, res⟩ := cqe
    simp only [World.readCqes] at hread
    split at hread
    · cases hread
    · rename_i a ha
      have hsize : (w.readCqe t address res a).size = w.size := by
        obtain ⟨queues, timers, heq⟩ := attachment_eq w t res a
        rw [World.readCqe, heq]
        rfl
      exact ih (h.read hkeys ht ha) (hkeys.read ha) (hsize ▸ ht) hread

theorem processUring (h : TimeoutInv fired known w) (hkeys : TimerInv fired w) (ht : t < w.size)
    (huring : w.processUring t = .ok w') :
    ∃ fired', TimerInv fired' w' ∧ TimeoutInv fired' known w' := by
  unfold World.processUring at huring
  split at huring
  · cases huring
  · rename_i w₁ hread
    obtain rfl := Except.ok.inj huring
    rw [← setCq_self w t] at h hkeys
    exact h.readCqes hkeys ht hread

end TimeoutInv

/-! ## Runs -/

/-- `timer` was called and `cancel_timer` with what it returned. -/
def Cancelled (w : World V σ) (g : Id) : Prop :=
  ∃ call ∈ w.log.filterMap (Note.setFor g), call ∈ w.log.filterMap Note.cancelledCall

instance (w : World V σ) (g : Id) : Decidable (w.Cancelled g) :=
  inferInstanceAs (Decidable (∃ call ∈ w.log.filterMap (Note.setFor g),
    call ∈ w.log.filterMap Note.cancelledCall))

theorem cancelled_of_mem {t' : Nat} {o l g : Id} (hcancelled : .timerCancelled t o l ∈ w.log)
    (hset : .timerSet t' o l g ∈ w.log) : w.Cancelled g :=
  ⟨(o, l), List.mem_filterMap.mpr ⟨_, hset, if_pos rfl⟩, List.mem_filterMap.mpr ⟨_, hcancelled, rfl⟩⟩

/-- The condition on a step: a handler cancels a timer that has an entry, from the table or from the
same run, and nothing of its expiry is on its way; the kernel completes no timeout of a cancelled
timer with `-ETIME`; and the message is not the copy of a `Timeout`. -/
def StopsInTime (P : Program V σ) (w : World V σ) : Action V → Prop
  | .dequeue t => ∀ m rest, w.queues t = m :: rest →
      m.copiesTimeout = false ∧ ∀ ctx ti es, w.handlerState P t m = some (ctx, ti, es) →
        KnowsCancelled (w.stoppable t rest es.uringData) es.timer
  | .complete t k res => res = eTime → ∀ r, (w.threads t).ring.inflight[k]? = some r →
      ∀ g, (w.attached r.userData).bind (·.timerId) = some g → ¬ w.Cancelled g
  | _ => True

namespace TimeoutInv

/-- The kernel completes a request, but not the timeout of a cancelled timer. -/
theorem complete {k : Nat} {res : Int} (h : TimeoutInv fired known w)
    (hG : w.StopsInTime P (.complete t k res)) : TimeoutInv fired known (w.complete t k res) := by
  unfold World.complete
  simp only
  split
  · exact h
  · rename_i r hr
    let td : ThreadData V := { w.threads t with ring := { (w.threads t).ring with
      inflight := (w.threads t).ring.inflight.eraseIdx k
      cq := (w.threads t).ring.cq ++ [(r.userData, res)] } }
    have hctxAt : ∀ t', (w.setThread t td).ctxAt t' = w.ctxAt t' := by
      intro t'
      have hobj : ((w.setThread t td).threads t').objInfo = (w.threads t').objInfo :=
        proj_setThread w t t' td (·.objInfo) rfl
      funext o
      rw [ctxAt, ctxAt, hobj]
    exact { h with
      objects := fun ho => h.objects (hctxAt _ ▸ ho)
      oneThread := fun ho ho' => h.oneThread (hctxAt _ ▸ ho) (hctxAt _ ▸ ho')
      timers := fun hmem => by
        obtain ⟨ho, hl⟩ := h.timers hmem
        exact ⟨ho, fun t' ctx hctx => hl t' ctx (hctxAt _ ▸ hctx)⟩
      cancelled := fun hmem => by
        obtain ⟨ho, hl, hsilent⟩ := h.cancelled hmem
        refine ⟨ho, fun t' ctx hctx => hl t' ctx (hctxAt _ ▸ hctx), fun t' g hset =>
          ⟨(hsilent t' g hset).queues, fun t₁ ht₁ cqe hcqe hres hattached => ?_⟩⟩
        have hold := (hsilent t' g hset).completions t₁ ht₁
        rw [threads_setThread] at hcqe
        split at hcqe
        · rename_i ht
          rcases List.mem_append.mp hcqe with hcqe | hcqe
          · exact hold cqe (ht ▸ hcqe) hres hattached
          · rw [List.mem_singleton.mp hcqe] at hres hattached
            exact hG hres r hr g hattached (cancelled_of_mem hmem hset)
        · exact hold cqe hcqe hres hattached }

/-- A step that takes no message. -/
theorem other {a : Action V} (h : TimeoutInv fired known w) (hkeys : TimerInv fired w)
    (ha : ∀ t, a ≠ .dequeue t) (hG : w.StopsInTime P a) (hstep : w.step P a = .ok w') :
    ∃ fired', TimerInv fired' w' ∧ TimeoutInv fired' known w' := by
  cases a with
  | dequeue t => exact absurd rfl (ha t)
  | uring t =>
    simp only [step] at hstep
    split at hstep
    · rename_i ht
      exact h.processUring hkeys ht hstep
    · obtain rfl := Except.ok.inj hstep
      exact ⟨fired, hkeys, h⟩
  | complete t k res =>
    obtain rfl := Except.ok.inj hstep
    exact ⟨fired, hkeys.same ((SameTimers.refl w).complete t k res), h.complete hG⟩
  | root constructor init =>
    obtain ⟨-, rfl⟩ := initializeRootEvent_eq hstep
    have hids : Untimed w { w with
        objIds := (getId w.objIds none).2, procIds := (getId w.procIds none).2 } :=
      { Untimed.refl w with }
    exact ⟨fired, hkeys.same { SameTimers.refl w with },
      h.untimed (hids.enqueue 0 (calm_of_none rfl rfl))⟩
  | load _ | iterate _ =>
    obtain rfl := Except.ok.inj hstep
    exact ⟨fired, hkeys.same { SameTimers.refl w with }, h.untimed { Untimed.refl w with }⟩

/-- What holds of the timers, for the objects that were constructed, is kept by a step. -/
theorem step {a : Action V} (h : TimeoutInv fired known w) (hkeys : TimerInv fired w)
    (hnew : Fresh known w) (hG : w.StopsInTime P a) (hstep : w.step P a = .ok w') :
    ∃ fired' known', TimerInv fired' w' ∧ TimeoutInv fired' known' w' ∧ Fresh known' w' := by
  have hother : (∀ t, a ≠ .dequeue t) →
      ∃ fired' known', TimerInv fired' w' ∧ TimeoutInv fired' known' w' ∧ Fresh known' w' := by
    intro ha
    obtain ⟨fired', hkeys', h'⟩ := h.other hkeys ha hG hstep
    exact ⟨fired', known, hkeys', h', hnew.other ha hstep⟩
  cases a with
  | dequeue t =>
    simp only [World.step] at hstep
    split at hstep
    · rename_i ht
      cases hq : w.queues t with
      | nil =>
        simp only [handleDequeue, hq] at hstep
        obtain rfl := Except.ok.inj hstep
        exact ⟨fired, known, hkeys, h, hnew⟩
      | cons m rest =>
        have hhandled := handleDequeue_handled hstep
        obtain ⟨hcopy, htimer⟩ := hG m rest hq
        obtain ⟨hnew', hfresh⟩ := hnew.handled hq hhandled
        exact ⟨fired, _, hkeys.handled hhandled,
          h.handled hkeys ht hq hfresh hcopy htimer hhandled, hnew'⟩
    · obtain rfl := Except.ok.inj hstep
      exact ⟨fired, known, hkeys, h, hnew⟩
  | _ => exact hother fun _ heq => by cases heq

end TimeoutInv

theorem start_timeoutInv (size : Nat) (malloc : Nat → Nat) (heap : σ) :
    TimeoutInv [] [] ({ size, malloc, heap } : World V σ) where
  tickets := (tickets_empty (T := Nat)).mono fun _ hfalse => hfalse
  inverse _ := inverse_empty
  issued hg := nomatch hg
  objects ho := nomatch ho
  oneThread ho := nomatch ho
  shared hm := absurd hm List.not_mem_nil
  timers hmem := absurd hmem List.not_mem_nil
  attachments ha := nomatch ha
  messages hd := absurd hd List.not_mem_nil
  cancelled hmem := absurd hmem List.not_mem_nil
  delivered hmem := absurd hmem List.not_mem_nil
  stopped := .nil

/-- `on_yield` receives a `Timeout` at most once for each call of `timer` that returned its local
identifier, and none after the run that cancelled it. -/
structure TimeoutsInOrder (w : World V σ) : Prop where
  once : ∀ o l, w.log.countP (Note.timesOut o l) ≤ w.log.countP (Note.sets o l)
  inOrder : w.log.Pairwise NotStopped

/-- Deliveries are of timers that were set, and each timer is delivered once. -/
theorem TimeoutInv.timeoutsInOrder (h : TimeoutInv fired known w) : w.TimeoutsInOrder where
  once o l := by
    -- the timers of the deliveries, and those of the calls of `timer`
    let delivered := (w.log.filter (Note.timesOut o l)).filterMap Note.expired
    let calls := (w.log.filter (Note.sets o l)).filterMap Note.setTimer
    have hlength : delivered.length = w.log.countP (Note.timesOut o l) := by
      rw [List.length_filterMap_eq_countP, List.countP_filter]
      refine List.countP_congr fun n hn => ⟨fun htimes => (Bool.and_eq_true_iff.mp htimes).2, ?_⟩
      intro htimes
      obtain ⟨t, d, rfl, rfl⟩ := Note.timesOut_iff.mp htimes
      obtain ⟨t', g, hg, -⟩ := h.delivered hn
      rw [htimes, Note.expired, hg]
      rfl
    have hnodup : delivered.Nodup := h.tickets.once.sublist (List.filter_sublist.filterMap _)
    have hsub : delivered ⊆ calls := by
      intro g hg
      obtain ⟨n, hn, hexpired⟩ := List.mem_filterMap.mp hg
      obtain ⟨hlog, htimes⟩ := List.mem_filter.mp hn
      obtain ⟨t, d, rfl, rfl⟩ := Note.timesOut_iff.mp htimes
      obtain ⟨t', g', hg', hset⟩ := h.delivered hlog
      obtain rfl := Option.some.inj (hexpired.symm.trans hg')
      refine List.mem_filterMap.mpr ⟨_, List.mem_filter.mpr ⟨hset, ?_⟩, rfl⟩
      exact Bool.and_eq_true_iff.mpr ⟨decide_eq_true rfl, decide_eq_true rfl⟩
    calc w.log.countP (Note.timesOut o l) = delivered.length := hlength.symm
      _ ≤ calls.length := (List.Nodup.subperm hnodup hsub).length_le
      _ ≤ (w.log.filter (Note.sets o l)).length := List.length_filterMap_le ..
      _ = w.log.countP (Note.sets o l) := List.countP_eq_length_filter.symm
  inOrder := h.stopped

/-- In every run in which timers are cancelled in time, timeouts come in order. -/
theorem timeoutsInOrder_of_stopsInTime (P : Program V σ) (size : Nat) (malloc : Nat → Nat) (heap : σ)
    (w : World V σ) (h : Reached (World.step P) (fun w a => w.StopsInTime P a)
      { size, malloc, heap } w) : w.TimeoutsInOrder := by
  have hinv : ∃ fired known, TimerInv fired w ∧ TimeoutInv fired known w ∧ Fresh known w := by
    refine Reached.invariant (I := fun w => ∃ fired known, TimerInv fired w ∧
      TimeoutInv fired known w ∧ Fresh known w) h ⟨[], [], start_timerInv size malloc heap,
      start_timeoutInv size malloc heap, tickets_empty.mono fun _ hfalse => hfalse⟩ ?_
    rintro w a w' ⟨fired, known, hkeys, hinv, hnew⟩ hG hstep
    exact hinv.step hkeys hnew hG hstep
  obtain ⟨fired, known, -, hinv, -⟩ := hinv
  exact hinv.timeoutsInOrder

/-! ## An alarm that is stopped twice -/

instance (P : Program V σ) (w : World V σ) : (a : Action V) → Decidable (w.StopsInTime P a)
  | .dequeue t =>
    match hq : w.queues t with
    | [] => isTrue fun m rest h => by rw [hq] at h; cases h
    | m :: rest => decidable_of_iff
        (m.copiesTimeout = false ∧ ∀ state ∈ w.handlerState P t m,
          KnowsCancelled (w.stoppable t rest state.2.2.uringData) state.2.2.timer)
        ⟨fun h m' rest' hq' => by
            obtain ⟨rfl, rfl⟩ := List.cons.inj (hq.symm.trans hq')
            exact ⟨h.1, fun ctx ti es hes => h.2 _ hes⟩,
          fun h => (h m rest hq).imp_right fun hknown _ hstate => hknown _ _ _ hstate⟩
  | .uring _ => isTrue trivial
  | .complete t k res => decidable_of_iff
      (res = eTime → ∀ r ∈ (w.threads t).ring.inflight[k]?,
        ∀ g ∈ (w.attached r.userData).bind (·.timerId), ¬ w.Cancelled g)
      ⟨fun h => h, fun h => h⟩
  | .root _ _ => isTrue trivial
  | .load _ => isTrue trivial
  | .iterate _ => isTrue trivial

/-- The request of the alarm is completed. -/
def requestDone : Note :=
  .delivered 0 (ringData (some 0) (some 0) (.ioUringResult { callingId := some 0, op := 0, res := 4 }))
    (.ioUringResult { callingId := some 0, op := 0, res := 4 })

/-- The time of the alarm is over. -/
def alarmOver : Note :=
  .delivered 0 (ringData (some 0) (some 0) (.timeout (some 0))) (.timeout (some 0))

/-- The object is started. Its timer expires and then its request is completed; both are read at once
if it is `late`. -/
def stopActions (late : Bool) : List (Action alarmVocabulary) :=
  .root () () :: List.replicate 3 (.dequeue 0) ++
    (if late then [.complete 0 0 4, .complete 0 0 eTime, .uring 0, .dequeue 0, .dequeue 0]
      else [.complete 0 1 eTime, .uring 0, .dequeue 0, .complete 0 0 4, .uring 0, .dequeue 0])

/-- The timer is cancelled after its expiry, and once more. -/
theorem alarm_stopped_in_time : ∃ w : World alarmVocabulary Unit,
    Reached (World.step alarm) (fun w a => w.StopsInTime alarm a)
      { size := 1, malloc := id, heap := () } w ∧
    w.log = [.started 0 (some 0) (some 0), .timerSet 0 (some 0) (some 0) (some 0), alarmOver,
      .timerCancelled 0 (some 0) (some 0), requestDone, .timerCancelled 0 (some 0) (some 0)] ∧
    w.TimeoutsInOrder := by
  have hlog : (runActions (World.step alarm) (stopActions false)
      { size := 1, malloc := id, heap := () }).map (·.log) =
      .ok [.started 0 (some 0) (some 0), .timerSet 0 (some 0) (some 0) (some 0), alarmOver,
        .timerCancelled 0 (some 0) (some 0), requestDone, .timerCancelled 0 (some 0) (some 0)] := by
    decide +kernel
  obtain ⟨w, hrun, hlog⟩ := exists_of_map_eq_ok hlog
  have hreached : Reached (World.step alarm) (fun w a => w.StopsInTime alarm a)
      { size := 1, malloc := id, heap := () } w :=
    reached_of_runActions .start (by decide +kernel) hrun
  exact ⟨w, hreached, hlog, timeoutsInOrder_of_stopsInTime alarm 1 id () w hreached⟩

/-- The request and the expiry are both read before the first is delivered: the timer is cancelled, and
its `Timeout` is delivered all the same. -/
theorem alarm_stopped_late : ∃ w : World alarmVocabulary Unit,
    Reached (World.step alarm) (fun _ _ => True) { size := 1, malloc := id, heap := () } w ∧
    w.log = [.started 0 (some 0) (some 0), .timerSet 0 (some 0) (some 0) (some 0), requestDone,
      .timerCancelled 0 (some 0) (some 0), alarmOver, .timerCancelled 0 (some 0) (some 0)] ∧
    ¬ w.TimeoutsInOrder := by
  have hlog : (runActions (World.step alarm) (stopActions true)
      { size := 1, malloc := id, heap := () }).map (·.log) =
      .ok [.started 0 (some 0) (some 0), .timerSet 0 (some 0) (some 0) (some 0), requestDone,
        .timerCancelled 0 (some 0) (some 0), alarmOver, .timerCancelled 0 (some 0) (some 0)] := by
    decide +kernel
  obtain ⟨w, hrun, hlog⟩ := exists_of_map_eq_ok hlog
  refine ⟨w, reached_of_runActions .start (meets_true _ _) hrun, hlog, fun horder => ?_⟩
  have hpairs := horder.inOrder
  rw [hlog] at hpairs
  have hlast : NotStopped (.timerCancelled 0 (some 0) (some 0)) alarmOver := by
    simp only [List.pairwise_cons] at hpairs
    exact hpairs.2.2.2.1 _ List.mem_cons_self
  exact Bool.noConfusion (hlast 0 (some 0) (some 0) rfl)

end World

end LocalSoftware
