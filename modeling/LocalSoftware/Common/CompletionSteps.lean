import LocalSoftware.Common.Completions

/-!
# Completions at each step

The invariant of `Completions` through the parts of a step: a message is taken from its queue, a
procedure starts, a message is delivered to `on_yield`, and a procedure reports a result.
-/

set_option autoImplicit false

namespace LocalSoftware

variable {V : Vocabulary} {σ : Type}

namespace World

variable {w w' : World V σ} {t ctx : Nat} {ti : TargetInfo} {es : EventState V}
  {m : EventVariant V} {rest : List (EventVariant V)}

/-! ## Taking a message -/

theorem quiet_pop (hq : w.queues t = m :: rest) (hidle : Idle m) : Quiet w (w.pop t rest) where
  size := rfl
  procIds := rfl
  log := ⟨[], (List.append_nil _).symm, fun _ hn => absurd hn List.not_mem_nil⟩
  core _ _ := Or.inl rfl
  procToDat _ _ := rfl
  attachers ha := Or.inl ha
  attachments ha := Or.inl ha
  queues t' := by
    by_cases ht : t' = t
    · subst ht
      refine ⟨[m], rest, [], hq, ?_, ?_, fun _ hm => absurd hm List.not_mem_nil⟩
      · rw [queues_pop, if_pos rfl, List.append_nil]
      · intro m' hm'
        obtain rfl := List.mem_singleton.mp hm'
        exact hidle
    · refine ⟨[], w.queues t', [], rfl, ?_, fun _ hm => absurd hm List.not_mem_nil,
        fun _ hm => absurd hm List.not_mem_nil⟩
      rw [queues_pop, if_neg ht, List.append_nil]

/-- Of the completions in a queue, one is taken if it is the head. -/
theorem countP_pop (hq : w.queues t = m :: rest) (t' : Nat) (o p q : Id) :
    (w.queues t').countP (EventVariant.completes o p q) =
      ((w.pop t rest).queues t').countP (EventVariant.completes o p q) +
        if t' = t ∧ m.completes o p q then 1 else 0 := by
  rw [queues_pop]
  by_cases ht : t' = t
  · subst ht
    rw [hq, List.countP_cons, if_pos rfl]
    simp
  · rw [if_neg ht, if_neg fun h => ht h.1, Nat.add_zero]

/-- A message may be taken without effect, unless it is the completion of a living caller. -/
theorem pop_callInv (hinv : w.CallInv) (hq : w.queues t = m :: rest)
    (hlost : ∀ o p q, m.completes o p q = true → .deleted t o ∈ w.log) :
    (w.pop t rest).CallInv where
  size := hinv.size
  takenCalled := hinv.takenCalled
  takenStarted := hinv.takenStarted
  calledOnce := hinv.calledOnce
  startedOnce := hinv.startedOnce
  caller := hinv.caller
  reported := hinv.reported
  delivered := hinv.delivered
  live := hinv.live
  assoc := hinv.assoc
  procs := hinv.procs
  attachers := hinv.attachers
  attachments := hinv.attachments
  messages hm := hinv.messages ((suffix_pop hq _).subset hm)
  startsOnce t' := (hinv.startsOnce t').sublist ((suffix_pop hq t').sublist.filterMap _)
  startsApart h₁ h₂ := hinv.startsApart (((suffix_pop hq _).sublist.filterMap _).subset h₁)
    (((suffix_pop hq _).sublist.filterMap _).subset h₂)
  settled t' o p q l hcalled hdel := by
    have hcount := hinv.settled t' o p q l hcalled hdel
    rw [countP_pop hq, if_neg, Nat.add_zero] at hcount
    · exact hcount
    · rintro ⟨rfl, hcompletes⟩
      exact hdel (hlost o p q hcompletes)

/-- The procedure that the head starts is started by no other message. -/
theorem not_starts_pop (hinv : w.CallInv) (hq : w.queues t = m :: rest) {q : Id}
    (hm : m.starts = some q) (t' : Nat) :
    q ∉ ((w.pop t rest).queues t').filterMap EventVariant.starts := by
  intro hmem
  have hhead : (w.queues t).filterMap EventVariant.starts =
      q :: rest.filterMap EventVariant.starts := by
    rw [hq, List.filterMap_cons_some hm]
  have hthread : t = t' := hinv.startsApart (hhead ▸ List.mem_cons_self)
    (((suffix_pop hq t').sublist.filterMap _).subset hmem)
  subst hthread
  have hnodup := hinv.startsOnce t
  rw [hhead, List.nodup_cons] at hnodup
  rw [queues_pop, if_pos rfl] at hmem
  exact hnodup.1 hmem

/-! ## Starting a procedure -/

section Enter

variable {f : FunctionCall V} {o : ObjectDataThreaded}

theorem log_enter : (w.enter t f o).log = w.log ++ [.started t f.ti.objId f.ti.procId] := rfl

theorem noted_enter (w : World V σ) (t : Nat) (f : FunctionCall V) (o : ObjectDataThreaded) :
    Noted w (w.enter t f o) (.started t f.ti.objId f.ti.procId) := ⟨log_enter⟩

theorem core_enter (t' : Nat) (o' : Id) :
    (w.enter t f o).core t' o' =
      if t' = t ∧ o' = f.ti.objId then some (o.ptr, o.assocProcs ++ [f.ti.procId])
      else w.core t' o' := by
  unfold core enter
  rw [threads_note, threads_setThread]
  by_cases ht : t' = t
  · subst ht
    rw [if_pos rfl]
    by_cases ho : o' = f.ti.objId
    · subst ho
      simp [ThreadData.setProc, ThreadData.setObject]
    · rw [if_neg fun h => ho h.2]
      simp [ThreadData.setProc, ThreadData.setObject, Function.update_of_ne ho]
  · rw [if_neg ht, if_neg fun h => ht h.1]

theorem procToDat_enter (t' : Nat) (p : Id) :
    (((w.enter t f o).threads t').procToDat p).map (·.backNotify) =
      if t' = t ∧ p = f.ti.procId then some (f.ci.threadId, f.ci.objId, f.ci.procId)
      else ((w.threads t').procToDat p).map (·.backNotify) := by
  unfold enter
  rw [threads_note, threads_setThread]
  by_cases ht : t' = t
  · subst ht
    rw [if_pos rfl]
    by_cases hp : p = f.ti.procId
    · subst hp
      simp [ThreadData.setProc]
    · rw [if_neg fun h => hp h.2]
      simp [ThreadData.setProc, ThreadData.setObject, Function.update_of_ne hp]
  · rw [if_neg ht, if_neg fun h => ht h.1]

theorem alsoNotify_enter (t' : Nat) :
    ((w.enter t f o).threads t').alsoNotify = (w.threads t').alsoNotify :=
  proj_setThread w t t' _ (fun td => td.alsoNotify) rfl

theorem called_enter {t' : Nat} {o' p q l : Id} (hn : .called t' o' p q l ∈ (w.enter t f o).log) :
    .called t' o' p q l ∈ w.log :=
  (noted_enter w t f o).mem_of_ne (by simp) hn

/-- The procedure has not started before. -/
theorem startedOnce_enter (hinv : w.CallInv) (hnew : ∀ t o, .started t o f.ti.procId ∉ w.log)
    {t₁ t₂ : Nat} {o₁ o₂ p : Id} (hn : .started t₁ o₁ p ∈ (w.enter t f o).log)
    (hn' : .started t₂ o₂ p ∈ (w.enter t f o).log) : t₁ = t₂ ∧ o₁ = o₂ := by
  have hnoted := noted_enter w t f o
  rcases hnoted.mem hn with hn | heq
  · rcases hnoted.mem hn' with hn' | heq'
    · exact hinv.startedOnce hn hn'
    · exact absurd ((Note.started.inj heq').2.2 ▸ hn) (hnew t₁ o₁)
  · rcases hnoted.mem hn' with hn' | heq'
    · exact absurd ((Note.started.inj heq).2.2 ▸ hn') (hnew t₂ o₂)
    · obtain ⟨rfl, rfl, -⟩ := Note.started.inj heq
      obtain ⟨rfl, rfl, -⟩ := Note.started.inj heq'
      exact ⟨rfl, rfl⟩

/-- What was entered before is still there, and the new procedure is. -/
theorem live_enter (hinv : w.CallInv) {ctx : Nat} (hptr : o.ptr = some ctx) {t' : Nat} {o' p : Id}
    (hn : .started t' o' p ∈ (w.enter t f o).log) (hdel : .deleted t' o' ∉ (w.enter t f o).log) :
    (∃ ctx procs, (w.enter t f o).core t' o' = some (some ctx, procs)) ∧
      ((w.enter t f o).threads t').procToDat p ≠ none := by
  have hnoted := noted_enter w t f o
  have hproc : ((w.threads t').procToDat p ≠ none ∨ (t' = t ∧ p = f.ti.procId)) →
      ((w.enter t f o).threads t').procToDat p ≠ none := by
    intro h hnone
    have hmap := procToDat_enter (w := w) (t := t) (f := f) (o := o) t' p
    rw [hnone, Option.map_none] at hmap
    split at hmap
    · cases hmap
    · rename_i hne
      exact h.resolve_right hne (Option.map_eq_none_iff.mp hmap.symm)
  rcases hnoted.mem hn with hn | heq
  · obtain ⟨⟨ctx', procs, hcore'⟩, hold⟩ := hinv.live hn fun hd => hdel (hnoted.subset hd)
    refine ⟨?_, hproc (Or.inl hold)⟩
    rw [core_enter]
    split
    · exact ⟨ctx, _, by rw [hptr]⟩
    · exact ⟨ctx', procs, hcore'⟩
  · obtain ⟨rfl, rfl, rfl⟩ := Note.started.inj heq
    refine ⟨⟨ctx, o.assocProcs ++ [f.ti.procId], ?_⟩, hproc (Or.inr ⟨rfl, rfl⟩)⟩
    rw [core_enter, if_pos ⟨rfl, rfl⟩, hptr]

theorem assoc_enter (hinv : w.CallInv) (ho : (w.threads t).objInfo f.ti.objId = some o) {t' : Nat}
    {o' p : Id} {ptr : Option Nat} {procs : List Id}
    (hcore' : (w.enter t f o).core t' o' = some (ptr, procs)) (hp : p ∈ procs) :
    .started t' o' p ∈ (w.enter t f o).log := by
  have hnoted := noted_enter w t f o
  have hcore : w.core t f.ti.objId = some (o.ptr, o.assocProcs) := by
    rw [core, ho, Option.map_some]
  rw [core_enter] at hcore'
  split at hcore'
  · rename_i h
    obtain ⟨rfl, rfl⟩ := h
    rw [Option.some.injEq, Prod.mk.injEq] at hcore'
    rw [← hcore'.2, List.mem_append, List.mem_singleton] at hp
    rcases hp with hp | rfl
    · exact hnoted.subset (hinv.assoc hcore hp)
    · exact hnoted.last
  · exact hnoted.subset (hinv.assoc hcore' hp)

theorem procs_enter (hinv : w.CallInv)
    (hcaller : CallerNote w.log f.ti.procId (f.ci.threadId, f.ci.objId, f.ci.procId)) {t' : Nat}
    {p : Id} {d : CallDataThreaded} (hd : ((w.enter t f o).threads t').procToDat p = some d) :
    (∃ o', .started t' o' p ∈ (w.enter t f o).log) ∧
      CallerNote (w.enter t f o).log p d.backNotify := by
  have hnoted := noted_enter w t f o
  have hmap := procToDat_enter (w := w) (t := t) (f := f) (o := o) t' p
  rw [hd, Option.map_some] at hmap
  split at hmap
  · rename_i h
    obtain ⟨rfl, rfl⟩ := h
    refine ⟨⟨f.ti.objId, hnoted.last⟩, ?_⟩
    rw [Option.some.inj hmap]
    exact hcaller.mono hnoted.subset fun _ _ _ _ hn => called_enter hn
  · obtain ⟨d₀, hd₀, hback⟩ := Option.map_eq_some_iff.mp hmap.symm
    obtain ⟨⟨o', hs⟩, hcaller'⟩ := hinv.procs hd₀
    exact ⟨⟨o', hnoted.subset hs⟩,
      hback ▸ hcaller'.mono hnoted.subset fun _ _ _ _ hn => called_enter hn⟩

/-- A procedure that starts now did not start before, and no message is going to start it. -/
theorem enter_callInv (hinv : w.CallInv) (hok : MessageOk w.log w.procIds t (.functionCall f))
    (hnot : ∀ t', f.ti.procId ∉ (w.queues t').filterMap EventVariant.starts) {ctx : Nat}
    (ho : (w.threads t).objInfo f.ti.objId = some o) (hptr : o.ptr = some ctx) :
    (w.enter t f o).CallInv := by
  obtain ⟨htaken, hnew, hcaller⟩ := hok
  have hnoted := noted_enter w t f o
  exact {
    size := fun hn => hinv.size (called_enter hn)
    takenCalled := fun hn => hinv.takenCalled (called_enter hn)
    takenStarted := fun hn => by
      rcases hnoted.mem hn with hn | heq
      · exact hinv.takenStarted hn
      · exact (Note.started.inj heq).2.2 ▸ htaken
    calledOnce := fun hn hn' => hinv.calledOnce (called_enter hn) (called_enter hn')
    startedOnce := startedOnce_enter hinv hnew
    caller := fun hn => (hinv.caller (called_enter hn)).imp_right fun hs => hnoted.subset hs
    reported := fun hn => by
      obtain ⟨t', o', hs⟩ := hinv.reported (hnoted.mem_of_ne (by simp) hn)
      exact ⟨t', o', hnoted.subset hs⟩
    delivered := fun hn => (hinv.delivered (hnoted.mem_of_ne (by simp) hn)).mono hnoted.subset
    live := live_enter hinv hptr
    assoc := assoc_enter hinv ho
    procs := procs_enter hinv hcaller
    attachers := fun {t' q a} ha => by
      rw [alsoNotify_enter] at ha
      exact (hinv.attachers ha).mono hnoted.subset
    attachments := fun ha => (hinv.attachments ha).mono hnoted.subset
    messages := fun {t' m} hm => by
      refine (hinv.messages hm).mono hnoted.subset (fun _ h => h) ?_ fun _ _ _ _ _ _ hn =>
        called_enter hn
      intro q hq t₁ o₁ hs
      refine (hnoted.mem hs).resolve_right fun heq => hnot t' ?_
      rw [← (Note.started.inj heq).2.2]
      exact List.mem_filterMap.mpr ⟨m, hm, hq⟩
    startsOnce := hinv.startsOnce
    startsApart := hinv.startsApart
    settled := hnoted.settled hinv.settled rfl (by simp) (fun _ => rfl) fun _ _ _ _ => rfl }

end Enter

/-! ## Delivering a message -/

section Deliver

variable {d : Data} {event : EventType}

/-- A message that reaches `on_yield`. A completion moves from the queue to the log. -/
theorem deliver_callInv (hinv : w.CallInv) (hq : w.queues t = .data d :: rest) :
    ((w.pop t rest).note (.delivered t d event)).CallInv := by
  have horigin : Origin w.log t d :=
    (hinv.messages (hq.symm ▸ List.mem_cons_self : EventVariant.data d ∈ w.queues t)).2
  have hnoted : Noted w ((w.pop t rest).note (.delivered t d event)) (.delivered t d event) := ⟨rfl⟩
  have hcalled : ∀ {t' o p q l}, .called t' o p q l ∈
      ((w.pop t rest).note (.delivered t d event)).log → .called t' o p q l ∈ w.log :=
    fun hn => hnoted.mem_of_ne (by simp) hn
  have hstarted : ∀ {t' o p}, .started t' o p ∈
      ((w.pop t rest).note (.delivered t d event)).log → .started t' o p ∈ w.log :=
    fun hn => hnoted.mem_of_ne (by simp) hn
  have hreported := hnoted.reported_iff fun _ => rfl
  exact {
    size := fun hn => hinv.size (hcalled hn)
    takenCalled := fun hn => hinv.takenCalled (hcalled hn)
    takenStarted := fun hn => hinv.takenStarted (hstarted hn)
    calledOnce := fun hn hn' => hinv.calledOnce (hcalled hn) (hcalled hn')
    startedOnce := fun hn hn' => hinv.startedOnce (hstarted hn) (hstarted hn')
    caller := fun hn => (hinv.caller (hcalled hn)).imp_right fun hs => hnoted.subset hs
    reported := fun hn => by
      obtain ⟨t', o', hs⟩ := hinv.reported (hnoted.mem_of_ne (by simp) hn)
      exact ⟨t', o', hnoted.subset hs⟩
    delivered := fun hn => by
      rcases hnoted.mem hn with hn | heq
      · exact (hinv.delivered hn).mono hnoted.subset
      · obtain ⟨rfl, rfl, -⟩ := Note.delivered.inj heq
        exact horigin.mono hnoted.subset
    live := fun hn hdel => hinv.live (hstarted hn) fun hd => hdel (hnoted.subset hd)
    assoc := fun hcore hp => hnoted.subset (hinv.assoc hcore hp)
    procs := fun hd => by
      obtain ⟨⟨o', hs⟩, hcaller⟩ := hinv.procs hd
      exact ⟨⟨o', hnoted.subset hs⟩, hcaller.mono hnoted.subset fun _ _ _ _ hn => hcalled hn⟩
    attachers := fun ha => (hinv.attachers ha).mono hnoted.subset
    attachments := fun ha => (hinv.attachments ha).mono hnoted.subset
    messages := fun hm => (hinv.messages ((suffix_pop hq _).subset hm)).mono hnoted.subset (fun _ h => h)
      (fun _ _ _ _ hs => hstarted hs) fun _ _ _ _ _ _ hn => hcalled hn
    startsOnce := fun t' => (hinv.startsOnce t').sublist ((suffix_pop hq t').sublist.filterMap _)
    startsApart := fun h₁ h₂ => hinv.startsApart (((suffix_pop hq _).sublist.filterMap _).subset h₁)
      (((suffix_pop hq _).sublist.filterMap _).subset h₂)
    -- the message leaves the queue and its note enters the log: the sum stays
    settled := fun t' o p q l hn hdel => by
      have hcount := hinv.settled t' o p q l (hcalled hn) fun hd => hdel (hnoted.subset hd)
      have hlog : ((w.pop t rest).note (.delivered t d event)).log.countP (Note.completes t' o p q) =
          w.log.countP (Note.completes t' o p q) +
            if t' = t ∧ (EventVariant.data (V := V) d).completes o p q then 1 else 0 := by
        rw [log_note, List.countP_append, List.countP_singleton]
        have hiff : Note.completes t' o p q (.delivered t d event) = true ↔
            t' = t ∧ (EventVariant.data (V := V) d).completes o p q = true := by
          simp only [Note.completes, EventVariant.completes, Bool.and_eq_true, beq_iff_eq]
          exact and_congr_left fun _ => eq_comm
        by_cases h : t' = t ∧ (EventVariant.data (V := V) d).completes o p q = true
        · rw [if_pos h, if_pos (hiff.mpr h)]
          rfl
        · rw [if_neg h, if_neg fun h' => h (hiff.mp h')]
          rfl
      rw [countP_pop hq] at hcount
      rw [hlog]
      by_cases hr : w.Reported q
      · rw [if_pos ((hreported q).mpr hr)]
        rw [if_pos hr] at hcount
        show ((w.pop t rest).queues t').countP _ + _ = 1
        omega
      · rw [if_neg fun hr' => hr ((hreported q).mp hr')]
        rw [if_neg hr] at hcount
        show ((w.pop t rest).queues t').countP _ + _ = 0
        omega }

end Deliver

/-! ## Reporting a result -/

theorem filterMap_starts_enqueue {d : Data} (t' : Nat) :
    ((w.enqueue t (.data d)).queues t').filterMap EventVariant.starts =
      (w.queues t').filterMap EventVariant.starts := by
  rw [queues_enqueue]
  split
  · rw [List.filterMap_append]
    exact List.append_nil _
  · rfl

section Report

variable {status s : CallStatus} {code : Int} {o p o' p' q : Id}

theorem completes_completion : (completion t ti o p s code).completes o' p' q = true ↔
    o' = o ∧ p' = p ∧ q = ti.procId := by
  simp only [Data.completes, completion, Bool.and_eq_true, Bool.not_false, beq_iff_eq, true_and,
    TargetInfo.mk.injEq]
  constructor
  · rintro ⟨⟨rfl, rfl⟩, -, rfl⟩
    exact ⟨rfl, rfl, rfl⟩
  · rintro ⟨rfl, rfl, rfl⟩
    exact ⟨⟨rfl, rfl⟩, rfl, rfl⟩

/-- A result is noted for a procedure that has started. -/
theorem note_reported_base (h : w.CallBase) {t : Nat} (hs : .started t o q ∈ w.log) :
    (w.note (.reported q s code)).CallBase := by
  have hnoted : Noted w (w.note (.reported q s code)) (.reported q s code) := ⟨rfl⟩
  have hcalled : ∀ {t' o p id l}, .called t' o p id l ∈ (w.note (.reported q s code)).log →
      .called t' o p id l ∈ w.log := fun hn => hnoted.mem_of_ne (by simp) hn
  have hstarted : ∀ {t' o p}, .started t' o p ∈ (w.note (.reported q s code)).log →
      .started t' o p ∈ w.log := fun hn => hnoted.mem_of_ne (by simp) hn
  exact {
    size := fun hn => h.size (hcalled hn)
    takenCalled := fun hn => h.takenCalled (hcalled hn)
    takenStarted := fun hn => h.takenStarted (hstarted hn)
    calledOnce := fun hn hn' => h.calledOnce (hcalled hn) (hcalled hn')
    startedOnce := fun hn hn' => h.startedOnce (hstarted hn) (hstarted hn')
    caller := fun hn => (h.caller (hcalled hn)).imp_right fun hs => hnoted.subset hs
    reported := fun hn => by
      rcases hnoted.mem hn with hn | heq
      · obtain ⟨t', o', hs'⟩ := h.reported hn
        exact ⟨t', o', hnoted.subset hs'⟩
      · exact ⟨t, o, hnoted.subset ((Note.reported.inj heq).1 ▸ hs)⟩
    delivered := fun hn => (h.delivered (hnoted.mem_of_ne (by simp) hn)).mono hnoted.subset
    live := fun hn hdel => h.live (hstarted hn) fun hd => hdel (hnoted.subset hd)
    assoc := fun hcore hp => hnoted.subset (h.assoc hcore hp)
    procs := fun hd => by
      obtain ⟨⟨o', hs'⟩, hcaller⟩ := h.procs hd
      exact ⟨⟨o', hnoted.subset hs'⟩, hcaller.mono hnoted.subset fun _ _ _ _ hn => hcalled hn⟩
    attachers := fun ha => (h.attachers ha).mono hnoted.subset
    attachments := fun ha => (h.attachments ha).mono hnoted.subset
    messages := fun hm => (h.messages hm).mono hnoted.subset (fun _ hid => hid)
      (fun _ _ _ _ hs => hstarted hs) fun _ _ _ _ _ _ hn => hcalled hn
    startsOnce := h.startsOnce
    startsApart := h.startsApart }

/-- A message is sent. -/
theorem enqueue_data_base (h : w.CallBase) {d : Data} (hd : MessageOk w.log w.procIds t
    (.data d : EventVariant V)) : (w.enqueue t (.data d)).CallBase where
  size := h.size
  takenCalled := h.takenCalled
  takenStarted := h.takenStarted
  calledOnce := h.calledOnce
  startedOnce := h.startedOnce
  caller := h.caller
  reported := h.reported
  delivered := h.delivered
  live := h.live
  assoc := h.assoc
  procs := h.procs
  attachers := h.attachers
  attachments := h.attachments
  messages {t' m'} hm := by
    rw [queues_enqueue] at hm
    split at hm
    · rename_i ht
      subst ht
      rcases List.mem_append.mp hm with hm | hm
      · exact h.messages hm
      · obtain rfl := List.mem_singleton.mp hm
        exact hd
    · exact h.messages hm
  startsOnce t' := by
    rw [filterMap_starts_enqueue]
    exact h.startsOnce t'
  startsApart h₁ h₂ := by
    rw [filterMap_starts_enqueue] at h₁ h₂
    exact h.startsApart h₁ h₂

/-- A root reports to nobody. -/
theorem report_root (hinv : w.CallInv) {t : Nat} (hs : .started t o q ∈ w.log)
    (hroot : ∀ t o p l, .called t o p q l ∉ w.log) : (w.note (.reported q s code)).CallInv where
  toCallBase := note_reported_base hinv.toCallBase hs
  settled t' o' p' id l hn hdel := by
    have hn' : .called t' o' p' id l ∈ w.log := by
      rw [log_note, List.mem_append, List.mem_singleton] at hn
      exact hn.resolve_right (by simp)
    have hne : q ≠ id := by
      rintro rfl
      exact hroot t' o' p' l hn'
    have hcount := hinv.settled t' o' p' id l hn' fun hd => hdel (List.mem_append_left _ hd)
    have hreported : (w.note (.reported q s code)).Reported id ↔ w.Reported id := by
      unfold Reported
      rw [log_note, List.any_append]
      simp [Note.reports, hne]
    rw [log_note, List.countP_append]
    by_cases hr : w.Reported id
    · rw [if_pos (hreported.mpr hr)]
      rw [if_pos hr] at hcount
      exact hcount
    · rw [if_neg fun hr' => hr (hreported.mp hr')]
      rw [if_neg hr] at hcount
      exact hcount

/-- The first result of a procedure is sent to its caller. -/
theorem report_caller (hinv : w.CallInv) {t t' : Nat} {l : Id} (hs : .started t o q ∈ w.log)
    (hq : ti.procId = q) (hcalled : .called t' o' p' q l ∈ w.log)
    (hwelcome : .deleted t' o' ∈ w.log ∨ (p' ≠ none ∧ ¬ w.Reported q)) :
    ((w.note (.reported q s code)).enqueue t' (.data (completion t ti o' p' s code))).CallInv where
  toCallBase := by
    refine enqueue_data_base (note_reported_base hinv.toCallBase hs) ⟨?_, ?_⟩
    · have hknown : Known w.log o' p' := (hinv.caller hcalled).imp_right fun hs => ⟨t', hs⟩
      exact hknown.mono (List.subset_append_left _ _)
    · intro o₁ p₁ q₁ hcompletes
      obtain ⟨rfl, rfl, rfl⟩ := completes_completion.mp hcompletes
      refine ⟨⟨l, List.mem_append_left _ (hq ▸ hcalled)⟩, ⟨s, code, ?_⟩, ?_⟩
      · rw [hq, log_note]
        exact List.mem_append_right _ List.mem_cons_self
      · exact hwelcome.elim (fun hd => Or.inr (List.mem_append_left _ hd)) fun h => Or.inl h.1
  settled t₁ o₁ p₁ id l₁ hn hdel := by
    have hn' : .called t₁ o₁ p₁ id l₁ ∈ w.log := by
      rw [log_enqueue, log_note, List.mem_append, List.mem_singleton] at hn
      exact hn.resolve_right (by simp)
    have hdel' : .deleted t₁ o₁ ∉ w.log := fun hd => hdel (List.mem_append_left _ hd)
    have hcount := hinv.settled t₁ o₁ p₁ id l₁ hn' hdel'
    have hlog : List.countP (Note.completes t₁ o₁ p₁ id)
        ((w.note (.reported q s code)).enqueue t' (.data (completion t ti o' p' s code))).log =
          w.log.countP (Note.completes t₁ o₁ p₁ id) := by
      rw [log_enqueue, log_note, List.countP_append]
      rfl
    have hreported : ((w.note (.reported q s code)).enqueue t' (.data (completion t ti o' p' s
        code))).Reported id ↔ w.Reported id ∨ q = id := by
      unfold Reported
      rw [log_enqueue, log_note, List.any_append, Bool.or_eq_true]
      simp [Note.reports]
    rw [hlog, queues_enqueue, queues_note]
    by_cases hid : q = id
    · -- the call that has its result now
      subst hid
      obtain ⟨rfl, rfl, rfl, -⟩ := hinv.calledOnce hcalled hn'
      obtain ⟨-, hfirst⟩ := hwelcome.resolve_left hdel'
      -- it was in no queue and not delivered before, and is in one queue now
      rw [if_neg hfirst] at hcount
      rw [if_pos rfl, if_pos (hreported.mpr (Or.inr rfl)), List.countP_append,
        List.countP_singleton]
      have hcompletes : (EventVariant.data (V := V) (completion t ti o' p' s code)).completes
          o' p' q = true := completes_completion.mpr ⟨rfl, rfl, hq.symm⟩
      rw [if_pos hcompletes]
      omega
    · -- another call
      have hother : (EventVariant.data (V := V) (completion t ti o' p' s code)).completes o₁ p₁ id =
          false := by
        rw [Bool.eq_false_iff]
        exact fun hcompletes => hid (hq ▸ (completes_completion.mp hcompletes).2.2).symm
      have hqueue : (if t₁ = t' then w.queues t₁ ++ [.data (completion t ti o' p' s code)]
          else w.queues t₁).countP (EventVariant.completes o₁ p₁ id) =
            (w.queues t₁).countP (EventVariant.completes o₁ p₁ id) := by
        split
        · rw [List.countP_append, List.countP_singleton, hother]
          rfl
        · rfl
      rw [hqueue, hcount]
      by_cases hr : w.Reported id
      · rw [if_pos hr, if_pos (hreported.mpr (Or.inl hr))]
      · rw [if_neg hr, if_neg fun hr' => (hreported.mp hr').elim hr hid]

/-- The status of a procedure changes, and with it nothing that matters to its caller. -/
theorem setProc_quiet {d : CallDataThreaded} {q : Id}
    (hd : ((w.threads t).procToDat q).map (·.backNotify) = some d.backNotify) :
    Quiet w (w.setThread t ((w.threads t).setProc q d)) where
  size := rfl
  procIds := rfl
  log := ⟨[], (List.append_nil _).symm, fun _ hn => absurd hn List.not_mem_nil⟩
  core t' o := Or.inl (by
    rw [core, core, proj_setThread w t t' ((w.threads t).setProc q d) (fun td => td.objInfo) rfl])
  procToDat t' p := by
    rw [threads_setThread]
    by_cases ht : t' = t
    · subst ht
      rw [if_pos rfl]
      by_cases hp : p = q
      · subst hp
        simp [ThreadData.setProc, hd]
      · simp [ThreadData.setProc, Function.update_of_ne hp]
    · rw [if_neg ht]
  attachers {t' q' a} ha := Or.inl (by
    rwa [proj_setThread w t t' ((w.threads t).setProc q d) (fun td => td.alsoNotify) rfl] at ha)
  attachments ha := Or.inl ha
  queues := queues_refl rfl

/-- The entry of a running procedure. -/
theorem Running.backNotify (h : w.Running t ti) (hp : ti.procId ≠ none) :
    ((w.threads t).procToDat ti.procId).map (·.backNotify) =
      some ((w.threads t).proc ti.procId).backNotify := by
  have hentry := h.entry.resolve_left hp
  cases hd : (w.threads t).procToDat ti.procId with
  | none => exact absurd hd hentry
  | some d => simp [ThreadData.proc, hd]

theorem Running.started (h : w.Running t ti) (hp : ti.procId ≠ none) :
    .started t ti.objId ti.procId ∈ w.log := h.caller.resolve_left hp

/-- The caller that is entered for a running procedure. -/
theorem Running.callerNote (h : w.Running t ti) (hinv : w.CallBase) (hp : ti.procId ≠ none) :
    CallerNote w.log ti.procId ((w.threads t).proc ti.procId).backNotify := by
  obtain ⟨d, hd, hback⟩ := Option.map_eq_some_iff.mp (h.backNotify hp)
  exact hback ▸ (hinv.procs hd).2

/-- The result that `on_yield` returns. A root has no caller, and its result would be sent to a
thread that does not exist. -/
theorem report_callInv (hinv : w.CallInv) (h : w.Running t ti) (hp : ti.procId ≠ none) {y : Yielded}
    (hwelcome : y ≠ none → w.Welcome ti.procId ((w.threads t).proc ti.procId).backNotify)
    (hr : w.report t ti y = .ok w') : w'.CallInv := by
  cases y with
  | none =>
    obtain rfl := Except.ok.inj hr
    exact hinv
  | some result =>
    obtain ⟨failed, code⟩ := result
    obtain ⟨t', hthread, -, rfl⟩ := push_eq_ok hr
    change ((w.threads t).proc ti.procId).backNotify.1 = some t' at hthread
    have hquiet : Quiet w (w.setThread t ((w.threads t).setProc ti.procId
        { (w.threads t).proc ti.procId with status := resultStatus failed })) :=
      setProc_quiet (h.backNotify hp)
    rcases h.callerNote hinv.toCallBase hp with ⟨hnone, -⟩ | ⟨t₀, l, hsome, hcalled⟩
    · rw [hthread] at hnone
      cases hnone
    · obtain rfl := Option.some.inj (hthread.symm.trans hsome)
      exact report_caller (hquiet.callInv hinv) (h.started hp) rfl hcalled
        (hwelcome (Option.some_ne_none _) t' hthread)

/-- The result that a function returns. -/
theorem respond_callInv {f : FunctionCall V} {resp : CallResponse} (hinv : w.CallInv)
    (h : w.Running t f.ti) (hp : f.ti.procId ≠ none)
    (hback : ((w.threads t).proc f.ti.procId).backNotify =
      (f.ci.threadId, f.ci.objId, f.ci.procId))
    (hwelcome : resp.ret ≠ none →
      w.Welcome f.ti.procId (f.ci.threadId, f.ci.objId, f.ci.procId))
    (hr : w.respond t f resp = .ok w') : w'.CallInv := by
  have hset : ∀ d : CallDataThreaded, d.backNotify = ((w.threads t).proc f.ti.procId).backNotify →
      (w.setThread t ((w.threads t).setProc f.ti.procId d)).CallInv := fun d hd =>
    (setProc_quiet (hd ▸ h.backNotify hp)).callInv hinv
  cases hret : resp.ret with
  | none =>
    simp only [respond, hret] at hr
    obtain rfl := Except.ok.inj hr
    refine hset _ ?_
    rfl
  | some result =>
    obtain ⟨failed, code⟩ := result
    have hcaller := h.callerNote hinv.toCallBase hp
    rw [hback] at hcaller
    -- the caller is the program itself, or a procedure that made the call
    rcases hcaller with ⟨hnone, hroot⟩ | ⟨t', l, hsome, hcalled⟩
    · change f.ci.threadId = none at hnone
      simp only [respond, hret, hnone] at hr
      obtain rfl := Except.ok.inj hr
      refine report_root (hset _ ?_) (h.started hp) hroot
      rfl
    · change f.ci.threadId = some t' at hsome
      simp only [respond, hret, hsome] at hr
      split at hr
      · rename_i hle
        exact absurd (hinv.size hcalled) (Nat.not_lt.mpr hle)
      · obtain ⟨t₀, hthread, -, rfl⟩ := push_eq_ok hr
        obtain rfl := Option.some.inj hthread
        refine report_caller (hset _ ?_) (h.started hp) rfl hcalled
          (hwelcome (hret ▸ Option.some_ne_none _) t' hsome)
        rfl

end Report

end World

end LocalSoftware
