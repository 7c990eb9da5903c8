import LocalSoftware.Common.PresenceRuns
import LocalSoftware.Common.Requests

/-!
# The loop of a worker thread

`ThreadData::run` waits for completions, reads them and handles up to 256 messages, over and over. The
threads take turns in any order. `handled_in_rounds` shows that a thread which completes its rounds
handles its messages in their order, 256 in each round, and that it waits for ten seconds only when it
has handled all that waited when the rounds began.
-/

set_option autoImplicit false

namespace LocalSoftware

variable {V : Vocabulary} {σ : Type}

/-- Where a thread is in `run`: at `io_uring_wait_cqes_min_timeout`, at `process_uring`, or in the
`for` loop with this value of `i`. -/
inductive Phase where
  | wait
  | uring
  | drain (i : Nat)
deriving DecidableEq

/-- The runtime with the position and `q_nonempty` of each thread, and with history variables: the
rounds that were completed and the messages that were handled. -/
structure Loop (V : Vocabulary) (σ : Type) where
  world : World V σ
  phase : Nat → Phase := fun _ => .wait
  nonempty : Nat → Bool := fun _ => true
  rounds : Nat → Nat := fun _ => 0
  taken : Nat → List (EventVariant V) := fun _ => []

namespace Loop

/-- What happens next: a wait of a thread ends with the result `res`, a thread goes on, or the kernel
or the `AsyncHandler` does something. -/
inductive Action (V : Vocabulary) where
  | woken (t : Nat) (res : Int)
  | turn (t : Nat)
  | complete (t k : Nat) (res : Int)
  | root (constructor : V.ConstructFunc) (init : V.FunctionFunc)
  | load (loads : Nat → Nat → Rat)
  | iterate (siblings : Iteration)

/-- The arguments of the wait, by `q_nonempty`: `ts`, and the microseconds for which a batch may pile
up. -/
def timeouts (nonempty : Bool) : Timespec × Nat := if nonempty then (⟨0, 100000⟩, 0) else (⟨10, 0⟩, 100)

theorem nonempty_of_timeouts {nonempty : Bool} (h : (timeouts nonempty).1 = ⟨10, 0⟩) :
    nonempty = false := by
  cases nonempty with
  | false => rfl
  | true => cases h

/-- The wait has ended. After an error it is repeated. -/
def woken (l : Loop V σ) (t : Nat) (res : Int) : Loop V σ :=
  { l with
    -- reset on the slow path, and still set on the fast one
    nonempty := Function.update l.nonempty t true
    phase := Function.update l.phase t (if res ≠ eTime ∧ res < 0 then .wait else .uring) }

/-- The `for` loop is left. -/
def leave (l : Loop V σ) (t : Nat) (nonempty : Bool) : Loop V σ :=
  { l with
    phase := Function.update l.phase t .wait
    nonempty := Function.update l.nonempty t nonempty
    rounds := Function.update l.rounds t (l.rounds t + 1) }

/-- The next statement of a thread. -/
def turn (P : Program V σ) (l : Loop V σ) (t : Nat) : Except Fault (Loop V σ) :=
  match l.phase t with
  | .wait => .ok l
  | .uring =>
    (l.world.step P (.uring t)).map fun world =>
      { l with world, phase := Function.update l.phase t (.drain 0) }
  | .drain i =>
    if i < 256 then
      match l.world.queues t with
      | [] => .ok (l.leave t false)
      | m :: _ =>
        (l.world.step P (.dequeue t)).map fun world =>
          { l with
            world
            phase := Function.update l.phase t (.drain (i + 1))
            taken := Function.update l.taken t (l.taken t ++ [m]) }
    else .ok (l.leave t true)

/-- A step of the threads that exist, or of the others. -/
def step (P : Program V σ) (l : Loop V σ) : Action V → Except Fault (Loop V σ)
  | .woken t res => if t < l.world.size ∧ l.phase t = .wait then .ok (l.woken t res) else .ok l
  | .turn t => if t < l.world.size then l.turn P t else .ok l
  | .complete t k res => (l.world.step P (.complete t k res)).map fun world => { l with world }
  | .root constructor init =>
    (l.world.step P (.root constructor init)).map fun world => { l with world }
  | .load loads => (l.world.step P (.load loads)).map fun world => { l with world }
  | .iterate siblings => (l.world.step P (.iterate siblings)).map fun world => { l with world }

/-! ## Messages are handled in rounds -/

end Loop

/-- The messages that were handled in the round so far. -/
def Phase.handled : Phase → Nat
  | .drain i => i
  | _ => 0

namespace World

variable {w w' : World V σ} {t : Nat} {P : Program V σ} {m : EventVariant V}
  {rest : List (EventVariant V)}

/-- Messages were pushed. -/
def Pushed (w w' : World V σ) : Prop := ∀ t, ∃ ms, w'.queues t = w.queues t ++ ms

theorem Pushed.same (h : w'.queues = w.queues) : Pushed w w' :=
  fun t => ⟨[], by rw [h, List.append_nil]⟩

/-- Only `handle_dequeue` takes messages. -/
theorem step_pushed {a : Action V} (ha : ∀ t, a ≠ .dequeue t) (h : w.step P a = .ok w') :
    Pushed w w' := by
  cases a with
  | dequeue t => exact absurd rfl (ha t)
  | uring t =>
    simp only [step] at h
    split at h
    · refine processUring_invariant (I := Pushed w) h (.same rfl) (fun w₁ address res a hw _ => ?_)
        fun w₁ hw => hw
      obtain ⟨⟨ms, hms, -⟩, hothers⟩ := readCqe_answer w₁ t address res a
      intro t'
      obtain ⟨ms', hms'⟩ := hw t'
      by_cases ht : t' = t
      · subst ht
        refine ⟨ms' ++ ms, ?_⟩
        rw [← List.append_assoc, ← hms']
        exact hms
      · exact ⟨ms', (hothers t' ht).trans hms'⟩
    · exact .same (congrArg queues (Except.ok.inj h).symm)
  | complete t k res =>
    obtain rfl := Except.ok.inj h
    refine .same ?_
    unfold complete
    simp only
    split <;> rfl
  | root constructor init =>
    obtain ⟨-, rfl⟩ := initializeRootEvent_eq h
    intro t
    rw [queues_enqueue]
    split
    · exact ⟨_, rfl⟩
    · exact ⟨[], (List.append_nil _).symm⟩
  | load _ | iterate _ =>
    obtain rfl := Except.ok.inj h
    exact .same rfl

/-- A thread takes the head of its queue. -/
theorem dequeue_pushed (ht : t < w.size) (hq : w.queues t = m :: rest)
    (h : w.step P (.dequeue t) = .ok w') :
    (∃ ms, w'.queues t = rest ++ ms) ∧ ∀ t', t' ≠ t → ∃ ms, w'.queues t' = w.queues t' ++ ms := by
  simp only [step, if_pos ht] at h
  have hasking := (handleDequeue_handled h).asking hq
  refine ⟨?_, fun t' hne => ?_⟩
  · obtain ⟨ms, hms, -⟩ := hasking.queues t
    exact ⟨ms, by rw [hms, queues_pop, if_pos rfl]⟩
  · obtain ⟨ms, hms, -⟩ := hasking.queues t'
    exact ⟨ms, by rw [hms, queues_pop, if_neg hne]⟩

end World

namespace Loop

variable {P : Program V σ} {l₀ l l' : Loop V σ} {t : Nat}

/-- What a thread has handled since `l₀`: the first messages of its queue, all of them or 256 for each
round and those of the round that goes on. -/
def Serves (t : Nat) (l₀ l : Loop V σ) (new : List (EventVariant V)) : Prop :=
  l.taken t = l₀.taken t ++ new ∧
  (∃ pushed, l₀.world.queues t ++ pushed = new ++ l.world.queues t) ∧
  ((l₀.world.queues t).length ≤ new.length ∨
    256 * (l.rounds t - l₀.rounds t) + (l.phase t).handled ≤ new.length) ∧
  -- before the long wait, all of them
  (l.nonempty t = false → l₀.rounds t < l.rounds t → (l₀.world.queues t).length ≤ new.length)

structure Served (t : Nat) (l₀ l : Loop V σ) : Prop where
  rounds : l₀.rounds t ≤ l.rounds t
  serves : ∃ new, Serves t l₀ l new

namespace Served

/-- Nothing happens in the loop of the thread, but messages may be pushed. -/
theorem grow (h : Served t l₀ l) (hqueue : ∃ ms, l'.world.queues t = l.world.queues t ++ ms)
    (htaken : l'.taken t = l.taken t) (hrounds : l'.rounds t = l.rounds t)
    (hphase : (l'.phase t).handled = (l.phase t).handled)
    (hnonempty : l'.nonempty t = false → l.nonempty t = false) : Served t l₀ l' := by
  obtain ⟨new, hnew, ⟨pushed, hpushed⟩, hcount, hlong⟩ := h.serves
  obtain ⟨ms, hms⟩ := hqueue
  refine ⟨by rw [hrounds]; exact h.rounds, new, by rw [htaken, hnew], ⟨pushed ++ ms, ?_⟩, ?_, ?_⟩
  · rw [hms, ← List.append_assoc, hpushed, List.append_assoc]
  · rw [hrounds, hphase]
    exact hcount
  · rw [hrounds]
    exact fun hfalse hlt => hlong (hnonempty hfalse) hlt

/-- A message is handled. -/
theorem dequeue (h : Served t l₀ l) {m : EventVariant V} {rest : List (EventVariant V)} {i : Nat}
    (hi : l.phase t = .drain i) (hq : l.world.queues t = m :: rest)
    (hqueue : ∃ ms, l'.world.queues t = rest ++ ms) (htaken : l'.taken t = l.taken t ++ [m])
    (hrounds : l'.rounds t = l.rounds t) (hphase : l'.phase t = .drain (i + 1))
    (hnonempty : l'.nonempty t = l.nonempty t) : Served t l₀ l' := by
  obtain ⟨new, hnew, ⟨pushed, hpushed⟩, hcount, hlong⟩ := h.serves
  obtain ⟨ms, hms⟩ := hqueue
  refine ⟨by rw [hrounds]; exact h.rounds, new ++ [m], ?_, ⟨pushed ++ ms, ?_⟩, ?_, ?_⟩
  · rw [htaken, hnew, List.append_assoc]
  · rw [hms, ← List.append_assoc, hpushed, hq]
    simp only [List.append_assoc, List.cons_append, List.nil_append]
  · rw [hrounds, hphase, List.length_append]
    rw [hi] at hcount
    refine hcount.imp (fun hall => ?_) fun hcount => ?_
    · exact Nat.le_add_right_of_le hall
    · exact Nat.add_le_add_right hcount 1
  · rw [hrounds, hnonempty, List.length_append]
    exact fun hfalse hlt => Nat.le_add_right_of_le (hlong hfalse hlt)

/-- The `for` loop is left because the queue is empty. -/
theorem leave_empty (h : Served t l₀ l) (hq : l.world.queues t = []) :
    Served t l₀ (l.leave t false) := by
  obtain ⟨new, hnew, ⟨pushed, hpushed⟩, -, -⟩ := h.serves
  have hall : (l₀.world.queues t).length ≤ new.length := by
    rw [hq, List.append_nil] at hpushed
    rw [← hpushed, List.length_append]
    exact Nat.le_add_right _ _
  refine ⟨?_, new, hnew, ⟨pushed, hpushed⟩, Or.inl hall, fun _ _ => hall⟩
  simp only [leave, Function.update_self]
  exact Nat.le_succ_of_le h.rounds

/-- The `for` loop is left after 256 messages. -/
theorem leave_full (h : Served t l₀ l) {i : Nat} (hi : l.phase t = .drain i) (hfull : 256 ≤ i) :
    Served t l₀ (l.leave t true) := by
  obtain ⟨new, hnew, hpushed, hcount, -⟩ := h.serves
  have hrounds := h.rounds
  refine ⟨?_, new, hnew, hpushed, ?_, fun hfalse => ?_⟩
  · simp only [leave, Function.update_self]
    exact Nat.le_succ_of_le hrounds
  · rw [hi] at hcount
    refine hcount.imp_right fun hcount => ?_
    simp only [leave, Function.update_self, Phase.handled] at hcount ⊢
    omega
  · simp only [leave, Function.update_self] at hfalse
    cases hfalse

/-- A statement of the thread. -/
theorem turn (h : Served t l₀ l) (ht : t < l.world.size) (hstep : l.turn P t = .ok l') :
    Served t l₀ l' := by
  unfold Loop.turn at hstep
  split at hstep
  · obtain rfl := Except.ok.inj hstep
    exact h
  · rename_i hphase
    obtain ⟨w, hw, rfl⟩ := exists_of_map_eq_ok hstep
    refine h.grow (World.step_pushed (fun _ => by simp) hw t) rfl rfl ?_ id
    simp only [Function.update_self, hphase, Phase.handled]
  · rename_i i hphase
    split at hstep
    · split at hstep
      · rename_i hq
        obtain rfl := Except.ok.inj hstep
        exact h.leave_empty hq
      · rename_i m rest hq
        obtain ⟨w, hw, rfl⟩ := exists_of_map_eq_ok hstep
        exact h.dequeue hphase hq (World.dequeue_pushed ht hq hw).1 (Function.update_self ..) rfl
          (Function.update_self ..) rfl
    · rename_i hfull
      obtain rfl := Except.ok.inj hstep
      exact h.leave_full hphase (Nat.le_of_not_lt hfull)

/-- A statement of another thread. -/
theorem turn_other (h : Served t l₀ l) {t' : Nat} (hne : t ≠ t') (ht : t' < l.world.size)
    (hstep : l.turn P t' = .ok l') : Served t l₀ l' := by
  have hsame : ∀ {α : Type} (f : Nat → α) (a : α), Function.update f t' a t = f t :=
    fun f a => Function.update_of_ne hne ..
  unfold Loop.turn at hstep
  split at hstep
  · obtain rfl := Except.ok.inj hstep
    exact h
  · obtain ⟨w, hw, rfl⟩ := exists_of_map_eq_ok hstep
    refine h.grow (World.step_pushed (fun _ => by simp) hw t) rfl rfl ?_ id
    simp only [hsame]
  · split at hstep
    · split at hstep
      · obtain rfl := Except.ok.inj hstep
        refine h.grow ⟨[], (List.append_nil _).symm⟩ rfl ?_ ?_ ?_ <;> simp only [leave, hsame, imp_self]
      · rename_i m rest hq
        obtain ⟨w, hw, rfl⟩ := exists_of_map_eq_ok hstep
        refine h.grow ((World.dequeue_pushed ht hq hw).2 t hne) ?_ rfl ?_ id <;> simp only [hsame]
    · obtain rfl := Except.ok.inj hstep
      refine h.grow ⟨[], (List.append_nil _).symm⟩ rfl ?_ ?_ ?_ <;> simp only [leave, hsame, imp_self]

end Served

theorem served_of_reached (P : Program V σ) (l₀ l : Loop V σ) (t : Nat) (hphase : l₀.phase t = .wait)
    (h : Reached (step P) (fun _ _ => True) l₀ l) : Served t l₀ l := by
  refine h.invariant (I := Served t l₀) ?_ fun l₁ a l₂ hl _ hstep => ?_
  · refine ⟨Nat.le_refl _, [], (List.append_nil _).symm, ⟨[], List.append_nil _⟩, Or.inr ?_,
      fun _ hlt => absurd hlt (Nat.lt_irrefl _)⟩
    rw [hphase, Nat.sub_self]
    exact Nat.le_refl 0
  · have hother : ∀ {b : World.Action V} {w : World V σ}, (∀ t, b ≠ .dequeue t) →
        l₁.world.step P b = .ok w → Served t l₀ { l₁ with world := w } :=
      fun hb hw => hl.grow (World.step_pushed hb hw t) rfl rfl rfl id
    cases a with
    | woken t' res =>
      simp only [step] at hstep
      split at hstep
      · rename_i hwait
        obtain rfl := Except.ok.inj hstep
        by_cases ht : t = t'
        · subst ht
          refine hl.grow ⟨[], (List.append_nil _).symm⟩ rfl rfl ?_ fun hfalse => ?_
          · simp only [woken, Function.update_self, hwait.2]
            split <;> rfl
          · simp only [woken, Function.update_self] at hfalse
            cases hfalse
        · refine hl.grow ⟨[], (List.append_nil _).symm⟩ rfl rfl ?_ fun hfalse => ?_
          · simp only [woken, Function.update_of_ne ht]
          · simpa only [woken, Function.update_of_ne ht] using hfalse
      · obtain rfl := Except.ok.inj hstep
        exact hl
    | turn t' =>
      simp only [step] at hstep
      split at hstep
      · rename_i ht'
        by_cases ht : t = t'
        · exact hl.turn (ht ▸ ht') (ht ▸ hstep)
        · exact hl.turn_other ht ht' hstep
      · obtain rfl := Except.ok.inj hstep
        exact hl
    | complete t' k res =>
      simp only [step] at hstep
      obtain ⟨w, hw, rfl⟩ := exists_of_map_eq_ok hstep
      exact hother (fun _ => by simp) hw
    | root constructor init =>
      obtain ⟨w, hw, rfl⟩ := exists_of_map_eq_ok hstep
      exact hother (fun _ => by simp) hw
    | load loads =>
      simp only [step] at hstep
      obtain ⟨w, hw, rfl⟩ := exists_of_map_eq_ok hstep
      exact hother (fun _ => by simp) hw
    | iterate siblings =>
      simp only [step] at hstep
      obtain ⟨w, hw, rfl⟩ := exists_of_map_eq_ok hstep
      exact hother (fun _ => by simp) hw

/-- In every run of the threads: since a wait, a thread has handled the messages of its queue, those
that were pushed meanwhile behind the others, in their order; all that were there, or 256 for each round
that it completed; and it waits for ten seconds only after all that were there. -/
theorem handled_in_rounds (P : Program V σ) (l₀ l : Loop V σ) (t : Nat) (hphase : l₀.phase t = .wait)
    (h : Reached (step P) (fun _ _ => True) l₀ l) : ∃ new pushed, l.taken t = l₀.taken t ++ new ∧
      l₀.world.queues t ++ pushed = new ++ l.world.queues t ∧
      (l₀.world.queues t).take (256 * (l.rounds t - l₀.rounds t)) <+: new ∧
      ((timeouts (l.nonempty t)).1 = ⟨10, 0⟩ → l₀.rounds t < l.rounds t →
        l₀.world.queues t <+: new) := by
  obtain ⟨-, new, hnew, ⟨pushed, hpushed⟩, hcount, hlong⟩ := served_of_reached P l₀ l t hphase h
  have hold : l₀.world.queues t <+: new ++ l.world.queues t := ⟨pushed, hpushed⟩
  have hthere : (l₀.world.queues t).length ≤ new.length → l₀.world.queues t <+: new :=
    fun hle => List.prefix_of_prefix_length_le hold (List.prefix_append _ _) hle
  refine ⟨new, pushed, hnew, hpushed, ?_, fun hten hlt =>
    hthere (hlong (nonempty_of_timeouts hten) hlt)⟩
  rcases hcount with hall | hcount
  · exact (List.take_prefix _ _).trans (hthere hall)
  · refine List.prefix_of_prefix_length_le ((List.take_prefix _ _).trans hold)
      (List.prefix_append _ _) ?_
    exact Nat.le_trans (List.length_take_le _ _) (Nat.le_trans (Nat.le_add_right _ _) hcount)

/-- A completion for an object that is not there. -/
def late : Data where
  ci := { threadId := some 0, objId := some 7, procId := some 7 }
  ti := { objId := some 5, procId := some 5 }
  data := .timeout (some 0)

/-- Two threads. Late completions wait for both, more than 256 for the first. -/
def crowd : Loop World.teamVocabulary Unit where
  world :=
    { size := 2, malloc := id, heap := ()
      queues := fun t => List.replicate (if t = 0 then 298 else 3) (.data late) }

/-- The threads take turns: the first is in its round when the second has its own, and in the next round
it starts `team`. -/
def crowdActions : List (Action World.teamVocabulary) :=
  .woken 0 0 :: .replicate 100 (.turn 0) ++ .woken 1 eTime :: .replicate 5 (.turn 1) ++
    .replicate 158 (.turn 0) ++ .woken 0 0 :: .replicate 57 (.turn 0)

/-- In two rounds, the first thread of `crowd` handles the 299 messages and those that come from them. -/
theorem crowd_served : ∃ l₀ l : Loop World.teamVocabulary Unit, l₀.phase 0 = .wait ∧
    Reached (step (World.team true)) (fun _ _ => True) l₀ l ∧
    (l₀.world.queues 0).length = 299 ∧ l.rounds 0 = 2 ∧ l.rounds 1 = 1 ∧ l.nonempty 0 = false ∧
    (l.taken 0).length = 311 ∧
    ∃ new pushed, l.taken 0 = l₀.taken 0 ++ new ∧
      l₀.world.queues 0 ++ pushed = new ++ l.world.queues 0 ∧
      (l₀.world.queues 0).take (256 * (l.rounds 0 - l₀.rounds 0)) <+: new ∧
      ((timeouts (l.nonempty 0)).1 = ⟨10, 0⟩ → l₀.rounds 0 < l.rounds 0 →
        l₀.world.queues 0 <+: new) := by
  have hruns : (runActions (step (World.team true)) [.root () ()] crowd >>= fun l₀ =>
      (runActions (step (World.team true)) crowdActions l₀).map fun l =>
        decide (l₀.phase 0 = .wait ∧ (l₀.world.queues 0).length = 299 ∧ l.rounds 0 = 2 ∧
          l.rounds 1 = 1 ∧ l.nonempty 0 = false ∧ (l.taken 0).length = 311)) = .ok true := by
    decide +kernel
  obtain ⟨l₀, hrun₀, hl⟩ := World.bind_eq_ok hruns
  obtain ⟨l, hrun, hl⟩ := exists_of_map_eq_ok hl
  obtain ⟨hphase, hlength, hrounds, hrounds', hnonempty, htaken⟩ := of_decide_eq_true hl
  have hreached : Reached (step (World.team true)) (fun _ _ => True) l₀ l :=
    reached_of_runActions .start (meets_true _ _) hrun
  exact ⟨l₀, l, hphase, hreached, hlength, hrounds, hrounds', hnonempty, htaken,
    handled_in_rounds (World.team true) l₀ l 0 hphase hreached⟩

end Loop

end LocalSoftware
