import LocalSoftware.Common.CompletionSteps

/-!
# Completions along a run

The invariant of `Completions` through the messages of a worker thread and the other actions, and
`settled_of_guarded`: if the results that the handlers return are all welcome, every call has the
completions that it should have, in every state.
-/

set_option autoImplicit false

namespace LocalSoftware

variable {V : Vocabulary} {σ : Type}

namespace World

variable {w w' : World V σ} {t ctx : Nat} {ti : TargetInfo} {es : EventState V}
  {m : EventVariant V} {rest : List (EventVariant V)} {P : Program V σ}

/-! ## Parts of the handlers -/

theorem afterHandler_quiet (heap : σ) : Quiet w (w.afterHandler ctx es heap) :=
  quiet_of_contexts rfl rfl rfl rfl rfl rfl

theorem takeContext_quiet (shared : Option Nat) : Quiet w (w.takeContext shared).2 := by
  cases shared with
  | some ctx => exact quiet_of_contexts rfl rfl rfl rfl rfl rfl
  | none => exact quiet_of_contexts rfl rfl rfl rfl rfl rfl

theorem fillSlot_quiet {slot : Option (Id × V.TypeIndex × Nat)} {id : Id}
    (h : w.fillSlot t slot id = .ok w') : Quiet w w' := by
  obtain ⟨-, rfl⟩ | ⟨_, _, _, _, _, -, -, -, rfl⟩ := fillSlot_cases h
  · exact quiet_of_contexts rfl rfl rfl rfl rfl rfl
  · exact quiet_of_contexts rfl rfl rfl rfl rfl rfl

/-- A new object comes without procedures. -/
theorem newObject_quiet {o : Id} (ho : (w.threads t).objInfo o = none) (ptr : Option Nat) :
    Quiet w (w.setThread t ((w.threads t).setObject o { ptr })) where
  size := rfl
  procIds := rfl
  log := ⟨[], (List.append_nil _).symm, fun _ hn => absurd hn List.not_mem_nil⟩
  core t' o' := by
    unfold core
    rw [threads_setThread]
    by_cases ht : t' = t
    · subst ht
      rw [if_pos rfl]
      by_cases ho' : o' = o
      · subst ho'
        exact Or.inr ⟨by rw [ho, Option.map_none], ptr, by simp [ThreadData.setObject]⟩
      · exact Or.inl (by simp [ThreadData.setObject, Function.update_of_ne ho'])
    · rw [if_neg ht]
      exact Or.inl rfl
  procToDat t' p := by
    rw [proj_setThread w t t' ((w.threads t).setObject o { ptr }) (fun td => td.procToDat) rfl]
  attachers {t' q a} ha := Or.inl (by
    rwa [proj_setThread w t t' ((w.threads t).setObject o { ptr }) (fun td => td.alsoNotify) rfl]
      at ha)
  attachments ha := Or.inl ha
  queues := queues_refl rfl

/-- A message that completes no call is sent to a known address. -/
theorem enqueue_data_quiet {d : Data} (hknown : Known w.log d.ti.objId d.ti.procId)
    (hd : ∀ o p q, d.completes o p q = false) : Quiet w (w.enqueue t (.data d)) where
  size := rfl
  procIds := rfl
  log := ⟨[], (List.append_nil _).symm, fun _ hn => absurd hn List.not_mem_nil⟩
  core _ _ := Or.inl rfl
  procToDat _ _ := rfl
  attachers ha := Or.inl ha
  attachments ha := Or.inl ha
  queues := queues_push (m := .data d) ⟨rfl, hd⟩
    ⟨hknown, fun o p q h => absurd ((hd o p q).symm.trans h) Bool.false_ne_true⟩
    fun t' => queues_enqueue _ t t' _

theorem forward_callInv {d : Data} {attachers : List (Id × Id)} (hinv : w.CallInv)
    (hknown : ∀ a ∈ attachers, Known w.log a.1 a.2) : (w.forward t d attachers).CallInv := by
  refine (forward_invariant (I := fun w' => w'.CallInv ∧ w'.log = w.log) ⟨hinv, rfl⟩
    fun w' a ha hw' => ⟨?_, hw'.2⟩).1
  have hquiet : Quiet w' (w'.enqueue t (.data { d with
      ti := { objId := a.1, procId := a.2 }, copy := true })) :=
    enqueue_data_quiet (hw'.2 ▸ hknown a ha) fun _ _ _ => rfl
  exact hquiet.callInv hw'.1

theorem deleteChildren_callInv {ci : CallerInfo} {children : List (Id × ChildObjectInfo)}
    (hinv : w.CallInv) (h : w.deleteChildren ci children = .ok w') : w'.CallInv :=
  deleteChildren_invariant h hinv fun _ child _ hw _ =>
    (delete_quiet child.2.thread _).callInv hw

section Erase

variable {o : Id}

theorem log_erase : (w.erase P t o).log = w.log ++ [.deleted t o] := rfl

theorem core_erase (t' : Nat) (o' : Id) :
    (w.erase P t o).core t' o' = if t' = t ∧ o' = o then none else w.core t' o' := by
  unfold core erase
  rw [threads_note, threads_setThread]
  by_cases ht : t' = t
  · subst ht
    by_cases ho : o' = o
    · subst ho
      simp
    · simp [ho]
  · rw [if_neg ht, if_neg (c := t' = t ∧ o' = o) fun h => ht h.1]

theorem procToDat_erase (t' : Nat) (p : Id) :
    ((w.erase P t o).threads t').procToDat p =
      if t' = t ∧ p ∈ ((w.threads t).object o).assocProcs then none
      else (w.threads t').procToDat p := by
  unfold erase
  rw [threads_note, threads_setThread]
  by_cases ht : t' = t
  · subst ht
    simp
  · rw [if_neg ht, if_neg (c := t' = t ∧ p ∈ _) fun h => ht h.1]

/-- The procedures of an object are those in its entry. -/
theorem CallBase.assoc_object (h : w.CallBase) {p : Id}
    (hp : p ∈ ((w.threads t).object o).assocProcs) : .started t o p ∈ w.log := by
  cases ho : (w.threads t).objInfo o with
  | none =>
    rw [ThreadData.object, ho] at hp
    exact absurd hp List.not_mem_nil
  | some oi =>
    rw [object_eq ho] at hp
    exact h.assoc (by rw [core, ho, Option.map_some]) hp

/-- A deleted object takes the procedures along that started on it, and no others. -/
theorem erase_callInv (hinv : w.CallInv) : (w.erase P t o).CallInv := by
  have hnoted : Noted w (w.erase P t o) (.deleted t o) := ⟨log_erase⟩
  have hcalled : ∀ {t' o' p q l}, .called t' o' p q l ∈ (w.erase P t o).log →
      .called t' o' p q l ∈ w.log := fun hn => hnoted.mem_of_ne (by simp) hn
  have hstarted : ∀ {t' o' p}, .started t' o' p ∈ (w.erase P t o).log →
      .started t' o' p ∈ w.log := fun hn => hnoted.mem_of_ne (by simp) hn
  exact {
    size := fun hn => hinv.size (hcalled hn)
    takenCalled := fun hn => hinv.takenCalled (hcalled hn)
    takenStarted := fun hn => hinv.takenStarted (hstarted hn)
    calledOnce := fun hn hn' => hinv.calledOnce (hcalled hn) (hcalled hn')
    startedOnce := fun hn hn' => hinv.startedOnce (hstarted hn) (hstarted hn')
    caller := fun hn => (hinv.caller (hcalled hn)).imp_right fun hs => hnoted.subset hs
    reported := fun hn => by
      obtain ⟨t', o', hs⟩ := hinv.reported (hnoted.mem_of_ne (by simp) hn)
      exact ⟨t', o', hnoted.subset hs⟩
    delivered := fun hn => (hinv.delivered (hnoted.mem_of_ne (by simp) hn)).mono hnoted.subset
    live := fun {t' o' p} hn hdel => by
      have hne : ¬ (t' = t ∧ o' = o) := by
        rintro ⟨rfl, rfl⟩
        exact hdel hnoted.last
      obtain ⟨hcore, hproc⟩ := hinv.live (hstarted hn) fun hd => hdel (hnoted.subset hd)
      rw [core_erase, if_neg hne, procToDat_erase]
      refine ⟨hcore, ?_⟩
      split
      · rename_i h
        obtain ⟨ht, hp⟩ := h
        -- a procedure of the deleted object is of no other
        have heq := hinv.startedOnce (hstarted hn) (hinv.assoc_object hp)
        exact absurd heq hne
      · exact hproc
    assoc := fun {t' o' ptr procs p} hcore hp => by
      rw [core_erase] at hcore
      split at hcore
      · cases hcore
      · exact hnoted.subset (hinv.assoc hcore hp)
    procs := fun {t' p d} hd => by
      rw [procToDat_erase] at hd
      split at hd
      · cases hd
      · obtain ⟨⟨o', hs⟩, hcaller⟩ := hinv.procs hd
        exact ⟨⟨o', hnoted.subset hs⟩, hcaller.mono hnoted.subset fun _ _ _ _ hn => hcalled hn⟩
    attachers := fun {t' q a} ha => by
      rw [show ((w.erase P t o).threads t').alsoNotify = (w.threads t').alsoNotify from
        proj_setThread _ t t' _ (fun td => td.alsoNotify) rfl] at ha
      exact (hinv.attachers ha).mono hnoted.subset
    attachments := fun ha => (hinv.attachments ha).mono hnoted.subset
    messages := fun hm => (hinv.messages hm).mono hnoted.subset (fun _ h => h)
      (fun _ _ _ _ hs => hstarted hs) fun _ _ _ _ _ _ hn => hcalled hn
    startsOnce := hinv.startsOnce
    startsApart := hinv.startsApart
    settled := hnoted.settled hinv.settled rfl (by simp) (fun _ => rfl) fun _ _ _ _ => rfl }

end Erase

/-! ## The messages -/

/-- What is welcome at a message stays so while the handler runs. -/
theorem Welcome.mono {q : Id} {caller : ThreadId × Id × Id} (h : w.Welcome q caller)
    (hsub : w.log ⊆ w'.log) (hr : w'.Reported q → w.Reported q) : w'.Welcome q caller := by
  intro t ht
  exact (h t ht).imp (fun hd => hsub hd) fun hfirst => ⟨hfirst.1, fun h => hfirst.2 (hr h)⟩

theorem Continues.proc_backNotify (hc : Continues w w') (h : w.Running t ti)
    (h' : w'.Running t ti) (hp : ti.procId ≠ none) :
    ((w'.threads t).proc ti.procId).backNotify = ((w.threads t).proc ti.procId).backNotify := by
  have hmap := hc.backNotify t ti.procId
  rw [h.backNotify hp, h'.backNotify hp] at hmap
  exact Option.some.inj hmap

theorem constructCall_callInv {c : ConstructorCall V} (hinv : w.CallInv) (ht : t < w.size)
    (hc : c.ti.procId = none) (h : w.constructCall P t c = .ok w') : w'.CallInv := by
  unfold constructCall at h
  have hinv₁ := (takeContext_quiet c.uringData).callInv hinv
  have hsize : (w.takeContext c.uringData).2.size = w.size := (takeContext_quiet c.uringData).size
  generalize w.takeContext c.uringData = r at h hinv₁ hsize
  obtain ⟨ctx, w₁⟩ := r
  simp only at h hinv₁ hsize
  split at h
  · cases h
  · split at h
    · cases h
    · rename_i heap es hrun _ w₂ hslot
      have hquiet : Quiet (w₁.afterHandler ctx es heap) w₂ := fillSlot_quiet hslot
      have hinv₂ : w₂.CallInv := hquiet.callInv ((afterHandler_quiet heap).callInv hinv₁)
      split at h
      · obtain rfl := Except.ok.inj h
        exact hinv₂
      · rename_i hnone
        refine (processQueued_callInv ((newObject_quiet hnone _).callInv hinv₂) ?_ h).1.1
        exact {
          size := by
            rw [← hsize] at ht
            exact hquiet.size.symm ▸ ht
          caller := Or.inl hc
          object := ⟨_, by rw [threads_setThread_self]; exact Function.update_self ..⟩
          entry := Or.inl hc }

theorem yields_function {f : FunctionCall V} {o : ObjectDataThreaded} {resp : CallResponse}
    {heap : σ} (ho : (w.threads t).objInfo f.ti.objId = some o) (hptr : o.ptr = some ctx)
    (hrun : (P.function f.call f.ti.objId f.ti.procId w.heap).run
      { uringData := w.contexts ctx } = .ok ((resp, heap), es)) :
    w.yields P t (.functionCall f) = resp.ret := by
  obtain ⟨ptr, procs, children⟩ := o
  subst hptr
  simp only [yields, ho, hrun]

/-- A call starts a procedure, whose function may have a result already. -/
theorem functionCall_callInv {f : FunctionCall V} (hinv : w.CallInv) (ht : t < w.size)
    (hq : w.queues t = .functionCall f :: rest)
    (hguard : w.yields P t (.functionCall f) ≠ none →
      w.Welcome f.ti.procId (f.ci.threadId, f.ci.objId, f.ci.procId))
    (h : (w.pop t rest).functionCall P t f = .ok w') : w'.CallInv := by
  have hok : MessageOk w.log w.procIds t (.functionCall f) :=
    hinv.messages (hq.symm ▸ List.mem_cons_self)
  have hp : f.ti.procId ≠ none := taken_ne_none hok.1
  obtain ⟨o, ctx, resp, heap, es, w₂, ho, hptr, hrun, hqueued, hrespond⟩ := functionCall_eq_ok h
  have hpop : (w.pop t rest).CallInv := pop_callInv hinv hq fun _ _ _ hc => by cases hc
  have henter : ((w.pop t rest).enter t f o).CallInv :=
    enter_callInv hpop hok (not_starts_pop hinv hq rfl) ho hptr
  have hnoted := noted_enter (w.pop t rest) t f o
  have hentry := procToDat_enter (w := w.pop t rest) (t := t) (f := f) (o := o) t
    f.ti.procId
  rw [if_pos ⟨rfl, rfl⟩] at hentry
  have hrunning : ((w.pop t rest).enter t f o).Running t f.ti := {
    size := ht
    caller := Or.inr hnoted.last
    object := by
      have hcore := core_enter (w := w.pop t rest) (t := t) (f := f) (o := o) t f.ti.objId
      rw [if_pos ⟨rfl, rfl⟩] at hcore
      obtain ⟨oi, hoi, -⟩ := Option.map_eq_some_iff.mp hcore
      exact ⟨oi, hoi⟩
    entry := Or.inr fun hnone => by
      rw [hnone] at hentry
      cases hentry }
  have hafter : Quiet ((w.pop t rest).enter t f o)
      (((w.pop t rest).enter t f o).afterHandler ctx es heap) := afterHandler_quiet heap
  obtain ⟨⟨hinv₂, hrunning₂⟩, hc⟩ :=
    processQueued_callInv (hafter.callInv henter) (hrunning.quiet hafter) hqueued
  have hc := hafter.continues.trans hc
  refine respond_callInv hinv₂ hrunning₂ hp ?_ (fun hret => ?_) hrespond
  · rw [hc.proc_backNotify hrunning hrunning₂ hp]
    rw [hrunning.backNotify hp] at hentry
    exact Option.some.inj hentry
  · have hyields : w.yields P t (.functionCall f) = resp.ret := yields_function ho hptr hrun
    refine (hguard (hyields ▸ hret)).mono
      (List.Subset.trans hnoted.subset hc.subset) fun hr => ?_
    -- the start of the procedure is no report
    exact (hnoted.reported_iff (fun _ => rfl) _).mp ((hc.reported _).mp hr)

theorem yields_data {d : Data} {o : ObjectDataThreaded} {c : CallDataThreaded} {y : Yielded}
    {heap : σ} (ho : (w.threads t).objInfo d.ti.objId = some o)
    (hd : (w.threads t).procToDat d.ti.procId = some c) (hptr : o.ptr = some ctx)
    (hrun : (P.onYield d.ti.objId ((w.contexts ctx).mapEventData d.data).1 w.heap).run
      { uringData := ((w.contexts ctx).mapEventData d.data).2 } = .ok ((y, heap), es)) :
    w.yields P t (.data d) = y := by
  obtain ⟨ptr, procs, children⟩ := o
  subst hptr
  simp only [yields, ho, hd, hrun]

/-- A message to a procedure is delivered, or dropped when the object or the procedure is not in the
tables any more. -/
theorem dataReceived_callInv {d : Data} (hinv : w.CallInv) (ht : t < w.size)
    (hq : w.queues t = .data d :: rest)
    (hguard : w.yields P t (.data d) ≠ none →
      w.Welcome d.ti.procId ((w.threads t).proc d.ti.procId).backNotify)
    (h : (w.pop t rest).dataReceived P t d = .ok w') : w'.CallInv := by
  have hok : MessageOk w.log w.procIds t (.data d : EventVariant V) :=
    hinv.messages (hq.symm ▸ List.mem_cons_self)
  obtain ⟨o, c, ctx, y, heap, es, w₂, w₃, ho, hd, hptr, hrun, hqueued, hreport, rfl⟩ |
    ⟨hmissing, rfl⟩ := dataReceived_eq_ok h
  · have hp : d.ti.procId ≠ none := by
      obtain ⟨⟨o', hs⟩, -⟩ := hinv.procs hd
      exact taken_ne_none (hinv.takenStarted hs)
    have hdeliver := @deliver_callInv _ _ _ _ _ _
      ((w.contexts ctx).mapEventData d.data).1 hinv hq
    have hrunning : ((w.pop t rest).note (.delivered t d
        ((w.contexts ctx).mapEventData d.data).1)).Running t d.ti := {
      size := ht
      caller := hok.1.imp_right fun ⟨t', hs⟩ => by
        obtain ⟨⟨o', hs'⟩, -⟩ := hinv.procs hd
        obtain ⟨rfl, -⟩ := hinv.startedOnce hs hs'
        exact List.mem_append_left _ hs
      object := ⟨o, ho⟩
      entry := Or.inr fun hnone => by
        have := hd.symm.trans hnone
        cases this }
    have hafter : Quiet ((w.pop t rest).note (.delivered t d
        ((w.contexts ctx).mapEventData d.data).1))
        (((w.pop t rest).note (.delivered t d
          ((w.contexts ctx).mapEventData d.data).1)).afterHandler ctx es heap) :=
      afterHandler_quiet heap
    obtain ⟨⟨hinv₂, hrunning₂⟩, hc⟩ :=
      processQueued_callInv (hafter.callInv hdeliver) (hrunning.quiet hafter) hqueued
    have hc := hafter.continues.trans hc
    have hinv₃ : w₃.CallInv := by
      refine report_callInv hinv₂ hrunning₂ hp (fun hy => ?_) hreport
      rw [hc.proc_backNotify hrunning hrunning₂ hp]
      have hyields : w.yields P t (.data d) = y := yields_data ho hd hptr hrun
      refine (hguard (hyields ▸ hy)).mono
        (List.Subset.trans (List.subset_append_left _ _) hc.subset) fun hr => ?_
      -- the delivery is no report
      obtain ⟨s, code, hn⟩ := reported_iff.mp ((hc.reported _).mp hr)
      rw [log_note, List.mem_append, List.mem_singleton] at hn
      exact reported_iff.mpr ⟨s, code, hn.resolve_right (by simp)⟩
    exact forward_callInv hinv₃ fun a ha => hinv₃.attachers ha
  · refine pop_callInv hinv hq fun o p q hcompletes => ?_
    have hti : d.ti = { objId := o, procId := p } := by
      simp only [EventVariant.completes, Data.completes, Bool.and_eq_true, beq_iff_eq] at hcompletes
      exact hcompletes.1.2
    obtain ⟨⟨l, hcalled⟩, -, hcaller⟩ := hok.2 o p q hcompletes
    -- a caller that is still there is found in the tables
    by_contra hdel
    have hs := (hinv.caller hcalled).resolve_left (hcaller.resolve_right hdel)
    obtain ⟨⟨ctx, procs, hcore⟩, hproc⟩ := hinv.live hs hdel
    obtain ⟨oi, hoi, -⟩ := Option.map_eq_some_iff.mp hcore
    obtain ⟨c, hc⟩ := Option.ne_none_iff_exists'.mp hproc
    refine hmissing oi c ?_ ?_
    · rw [hti]
      exact hoi
    · rw [hti]
      exact hc

theorem deleteReceived_callInv {d : Delete} (hinv : w.CallInv)
    (h : w.deleteReceived P t d = .ok w') : w'.CallInv := by
  unfold deleteReceived at h
  split at h
  · cases h
  · rename_i w₁ hchildren
    obtain rfl := Except.ok.inj h
    exact erase_callInv (deleteChildren_callInv hinv hchildren)

/-- A message that starts a procedure is sent, if no other message does. -/
theorem enqueue_starts_callInv {q : Id} (hinv : w.CallInv) (hm : m.starts = some q)
    (hok : MessageOk w.log w.procIds t m)
    (hnot : ∀ t', q ∉ (w.queues t').filterMap EventVariant.starts) : (w.enqueue t m).CallInv where
  size := hinv.size
  takenCalled := hinv.takenCalled
  takenStarted := hinv.takenStarted
  calledOnce := hinv.calledOnce
  startedOnce := hinv.startedOnce
  caller := hinv.caller
  reported := hinv.reported
  delivered := hinv.delivered
  live := hinv.live
  assoc := hinv.assoc
  procs := hinv.procs
  attachers := hinv.attachers
  attachments := hinv.attachments
  messages {t' m'} hm' := by
    rw [queues_enqueue] at hm'
    split at hm'
    · rename_i ht
      subst ht
      rcases List.mem_append.mp hm' with hm' | hm'
      · exact hinv.messages hm'
      · obtain rfl := List.mem_singleton.mp hm'
        exact hok
    · exact hinv.messages hm'
  startsOnce t' := by
    rw [queues_enqueue]
    split
    · rw [List.filterMap_append, List.filterMap_cons_some hm, List.filterMap_nil,
        List.nodup_append]
      refine ⟨hinv.startsOnce t', List.nodup_cons.mpr ⟨List.not_mem_nil, List.nodup_nil⟩, fun a ha b hb heq => ?_⟩
      rw [heq, List.mem_singleton.mp hb] at ha
      exact hnot t' ha
    · exact hinv.startsOnce t'
  startsApart {t₁ t₂ id} h₁ h₂ := by
    -- a procedure that will start is an old one, or that of the message
    have hcases : ∀ {t'}, id ∈ ((w.enqueue t m).queues t').filterMap EventVariant.starts →
        id ∈ (w.queues t').filterMap EventVariant.starts ∨ (t' = t ∧ id = q) := by
      intro t' hid
      rw [queues_enqueue] at hid
      split at hid
      · rw [List.filterMap_append, List.mem_append, List.filterMap_cons_some hm,
          List.filterMap_nil, List.mem_singleton] at hid
        exact hid.imp_right fun hid => ⟨‹_›, hid⟩
      · exact Or.inl hid
    rcases hcases h₁ with hold₁ | ⟨ht₁, heq₁⟩ <;> rcases hcases h₂ with hold₂ | ⟨ht₂, heq₂⟩
    · exact hinv.startsApart hold₁ hold₂
    · exact absurd (heq₂ ▸ hold₁) (hnot t₁)
    · exact absurd (heq₁ ▸ hold₂) (hnot t₂)
    · exact ht₁.trans ht₂.symm
  settled t' o p id l hn hdel := by
    have hcompletes : m.completes o p id = false := by
      cases m <;> first | rfl | cases hm
    have hcount := hinv.settled t' o p id l hn hdel
    rw [queues_enqueue]
    split
    · rw [List.countP_append, List.countP_singleton, hcompletes]
      exact hcount
    · exact hcount

/-- A root is constructed and then called. -/
theorem rootReceived_callInv {r : RootStart V} (hinv : w.CallInv)
    (hq : w.queues t = .rootStart r :: rest) : ((w.pop t rest).rootReceived t r).CallInv := by
  obtain ⟨htaken, hnew, hroot⟩ : MessageOk w.log w.procIds t (.rootStart r) :=
    hinv.messages (hq.symm ▸ List.mem_cons_self)
  have hpop : (w.pop t rest).CallInv := pop_callInv hinv hq fun _ _ _ hc => by cases hc
  let c : ConstructorCall V :=
    { constructor := { fn := r.constructor, slot := none }
      ci := { threadId := none, objId := none, procId := none }
      ti := { objId := r.ti.objId, procId := none }, uringData := none }
  have hquiet : Quiet (w.pop t rest) ((w.pop t rest).enqueue t (.constructorCall c)) := {
    size := rfl
    procIds := rfl
    log := ⟨[], (List.append_nil _).symm, fun _ hn => absurd hn List.not_mem_nil⟩
    core := fun _ _ => Or.inl rfl
    procToDat := fun _ _ => rfl
    attachers := fun ha => Or.inl ha
    attachments := fun ha => Or.inl ha
    queues := queues_push (m := .constructorCall c) ⟨rfl, fun _ _ _ => rfl⟩ rfl
      fun t' => queues_enqueue _ t t' _ }
  refine enqueue_starts_callInv (hquiet.callInv hpop) rfl ⟨htaken, hnew, Or.inl ⟨rfl, hroot⟩⟩ ?_
  intro t' hmem
  rw [hquiet.filterMap_starts] at hmem
  exact not_starts_pop hinv hq rfl t' hmem

/-! ## The other actions -/

/-- A change of the ring and of the timers. -/
theorem setThread_quiet {td : ThreadData V} (hobj : td.objInfo = (w.threads t).objInfo)
    (hproc : td.procToDat = (w.threads t).procToDat)
    (hnotify : td.alsoNotify = (w.threads t).alsoNotify) : Quiet w (w.setThread t td) :=
  quiet_of_tables rfl rfl ⟨[], (List.append_nil _).symm, fun _ hn => absurd hn List.not_mem_nil⟩
    (fun t' => proj_setThread w t t' td (fun td => td.objInfo) hobj)
    (fun t' => proj_setThread w t t' td (fun td => td.procToDat) hproc)
    (fun t' => proj_setThread w t t' td (fun td => td.alsoNotify) hnotify)
    (fun h => Or.inl h) rfl

theorem ring_quiet (ring : Ring V) : Quiet w (w.setThread t { w.threads t with ring }) :=
  setThread_quiet rfl rfl rfl

theorem handleDequeue_callInv (hinv : w.CallInv) (ht : t < w.size)
    (hG : w.Guarded P (.dequeue t)) (h : w.handleDequeue P t = .ok w') : w'.CallInv := by
  unfold handleDequeue at h
  split at h
  · obtain rfl := Except.ok.inj h
    exact hinv
  · rename_i m rest hq
    split at h
    · cases h
    · rename_i w₁ hreceive
      obtain rfl := Except.ok.inj h
      have hguard := hG m rest hq
      have hok : MessageOk w.log w.procIds t m := hinv.messages (hq.symm ▸ List.mem_cons_self)
      refine (ring_quiet _).callInv ?_
      cases m with
      | constructorCall c =>
        have hquiet := quiet_pop hq ⟨rfl, fun _ _ _ => rfl⟩
        exact constructCall_callInv (hquiet.callInv hinv) ht hok hreceive
      | functionCall f => exact functionCall_callInv hinv ht hq hguard hreceive
      | delete d =>
        have hquiet := quiet_pop hq ⟨rfl, fun _ _ _ => rfl⟩
        exact deleteReceived_callInv (hquiet.callInv hinv) hreceive
      | data d => exact dataReceived_callInv hinv ht hq hguard hreceive
      | rootStart r =>
        obtain rfl := Except.ok.inj hreceive
        exact rootReceived_callInv hinv hq

theorem attachment_quiet {a : IoUringAttached} (ha : Known w.log a.address.1 a.address.2)
    (res : Int) : Quiet w (w.attachment t res a) := by
  have hrefl : Quiet w w := quiet_of_contexts rfl rfl rfl rfl rfl rfl
  cases a with
  | eventData op o p =>
    exact enqueue_data_quiet ha fun _ _ _ => by simp [Data.completes, ringData]
  | timer timerId o p =>
    simp only [attachment]
    split
    · exact enqueue_data_quiet ha fun _ _ _ => by simp [Data.completes, ringData]
    · exact hrefl
  | timerUpdate timerId remove =>
    simp only [attachment]
    split
    · exact setThread_quiet rfl rfl rfl
    · exact hrefl

theorem readCqes_callInv {cqes : List (Nat × Int)} (hinv : w.CallInv)
    (h : w.readCqes t cqes = .ok w') : w'.CallInv := by
  induction cqes generalizing w with
  | nil =>
    obtain rfl := Except.ok.inj h
    exact hinv
  | cons cqe cqes ih =>
    obtain ⟨address, res⟩ := cqe
    simp only [readCqes] at h
    split at h
    · cases h
    · rename_i a ha
      refine ih ?_ h
      have hattachment := (attachment_quiet (t := t) (hinv.attachments ha) res).callInv hinv
      refine Quiet.callInv ?_ hattachment
      refine quiet_of_tables rfl rfl
        ⟨[], (List.append_nil _).symm, fun _ hn => absurd hn List.not_mem_nil⟩
        (fun _ => rfl) (fun _ => rfl) (fun _ => rfl) (fun {address' a'} h' => Or.inl ?_) rfl
      rw [attached_attachment]
      by_cases haddress : address' = address
      · rw [haddress] at h'
        exact absurd ((Function.update_self ..).symm.trans h') (by simp)
      · exact (Function.update_of_ne haddress ..).symm.trans h'

theorem processUring_callInv (hinv : w.CallInv) (h : w.processUring t = .ok w') : w'.CallInv := by
  unfold processUring at h
  split at h
  · cases h
  · rename_i w₁ hcqes
    obtain rfl := Except.ok.inj h
    exact (ring_quiet _).callInv (readCqes_callInv hinv hcqes)

/-- More identifiers are handed out. -/
theorem CallInv.withIds (h : w.CallInv) (hids : ∀ id, Taken w.procIds id → Taken w'.procIds id)
    (hsize : w'.size = w.size) (hlog : w'.log = w.log) (hthreads : w'.threads = w.threads)
    (hattached : w'.attached = w.attached) (hq : w'.queues = w.queues) : w'.CallInv := by
  obtain ⟨size, queues, loads, threads, contexts, nextContext, malloc, mallocs, attached, procIds,
    objIds, timIds, heap, log⟩ := w'
  subst hsize hlog hthreads hattached hq
  exact {
    size := h.size
    takenCalled := fun hn => hids _ (h.takenCalled hn)
    takenStarted := fun hn => hids _ (h.takenStarted hn)
    calledOnce := h.calledOnce
    startedOnce := h.startedOnce
    caller := h.caller
    reported := h.reported
    delivered := h.delivered
    live := h.live
    assoc := h.assoc
    procs := h.procs
    attachers := h.attachers
    attachments := h.attachments
    messages := fun hm => (h.messages hm).mono (List.Subset.refl _) hids (fun _ _ _ _ hs => hs)
      fun _ _ _ _ _ _ hc => hc
    startsOnce := h.startsOnce
    startsApart := h.startsApart
    settled := h.settled }

/-- A root gets a procedure that was never called. -/
theorem initializeRootEvent_callInv {constructor : V.ConstructFunc} {init : V.FunctionFunc}
    (hinv : w.CallInv) (h : w.initializeRootEvent constructor init = .ok w') : w'.CallInv := by
  obtain ⟨-, rfl⟩ := initializeRootEvent_eq h
  have hfresh : ¬ Taken w.procIds (getId w.procIds none).1 := not_taken_getId _ _
  refine enqueue_starts_callInv (@CallInv.withIds _ _ w { w with
      objIds := (getId w.objIds none).2, procIds := (getId w.procIds none).2 } hinv
    (fun id hid => (taken_getId _ _ id).mpr (Or.inl hid)) rfl rfl rfl rfl rfl) rfl ⟨?_, ?_, ?_⟩ ?_
  · exact (taken_getId _ _ _).mpr (Or.inr rfl)
  · exact fun t o hs => hfresh (hinv.takenStarted hs)
  · exact fun t o p l hc => hfresh (hinv.takenCalled hc)
  · exact fun t hmem => hfresh (hinv.starts_taken hmem)

theorem step_callInv {a : Action V} (hinv : w.CallInv) (hG : w.Guarded P a)
    (h : w.step P a = .ok w') : w'.CallInv := by
  cases a with
  | dequeue t =>
    simp only [step] at h
    split at h
    · exact handleDequeue_callInv hinv ‹_› hG h
    · obtain rfl := Except.ok.inj h
      exact hinv
  | uring t =>
    simp only [step] at h
    split at h
    · exact processUring_callInv hinv h
    · obtain rfl := Except.ok.inj h
      exact hinv
  | complete t k res =>
    obtain rfl := Except.ok.inj h
    simp only [complete]
    split
    · exact hinv
    · exact (ring_quiet _).callInv hinv
  | root constructor init => exact initializeRootEvent_callInv hinv h
  | load _ | iterate _ =>
    obtain rfl := Except.ok.inj h
    exact Quiet.callInv (w := w) (quiet_of_contexts rfl rfl rfl rfl rfl rfl) hinv

/-! ## Runs -/

theorem start_callInv (size : Nat) (malloc : Nat → Nat) (heap : σ) :
    ({ size, malloc, heap } : World V σ).CallInv where
  size h := absurd h List.not_mem_nil
  takenCalled h := absurd h List.not_mem_nil
  takenStarted h := absurd h List.not_mem_nil
  calledOnce h := absurd h List.not_mem_nil
  startedOnce h := absurd h List.not_mem_nil
  caller h := absurd h List.not_mem_nil
  reported h := absurd h List.not_mem_nil
  delivered h := absurd h List.not_mem_nil
  live h := absurd h List.not_mem_nil
  assoc h := by cases h
  procs h := by cases h
  attachers h := absurd h List.not_mem_nil
  attachments h := by cases h
  messages h := absurd h List.not_mem_nil
  startsOnce _ := List.nodup_nil
  startsApart h := absurd h List.not_mem_nil
  settled _ _ _ _ _ h := absurd h List.not_mem_nil

/-- In a run in which every result is welcome, every call of an object that was not deleted has one
completion if its procedure has reported, queued or delivered, and none otherwise. -/
theorem settled_of_guarded (P : Program V σ) (size : Nat) (malloc : Nat → Nat) (heap : σ)
    (w : World V σ) (h : Reached (World.step P) (Guarded P) { size, malloc, heap } w) :
    w.Settled :=
  (h.invariant (start_callInv size malloc heap) fun _ _ _ hinv hG hstep =>
    step_callInv hinv hG hstep).settled

/-! ## A parent and a child -/

instance (w : World V σ) (q : Id) (caller : ThreadId × Id × Id) :
    Decidable (w.Welcome q caller) :=
  match h : caller.1 with
  | none => isTrue fun t ht => by rw [h] at ht; cases ht
  | some t =>
    decidable_of_iff (.deleted t caller.2.1 ∈ w.log ∨ (caller.2.2 ≠ none ∧ ¬ w.Reported q))
      (by simp [Welcome, h])

instance (P : Program V σ) (w : World V σ) : (a : Action V) → Decidable (w.Guarded P a)
  | .dequeue t =>
    match h : w.queues t with
    | [] => isTrue fun m rest hq => by rw [h] at hq; cases hq
    | m :: rest =>
      decidable_of_iff (w.yields P t m ≠ none → w.Welcome m.procedure (w.callerOf t m))
        ⟨fun hw m' rest' hq => by
            obtain ⟨rfl, rfl⟩ := List.cons.inj (h.symm.trans hq)
            exact hw,
          fun hG => hG m rest h⟩
  | .uring _ => isTrue trivial
  | .complete _ _ _ => isTrue trivial
  | .root _ _ => isTrue trivial
  | .load _ => isTrue trivial
  | .iterate _ => isTrue trivial

/-- One class, with two constructors and two functions: those of a parent and those of a child. -/
abbrev familyVocabulary : Vocabulary where
  TypeIndex := Unit
  ConstructFunc := Bool
  FunctionFunc := Bool
  Sqe := Empty

/-- The parent calls its child, in its constructor if `early` and else in its function. The child
has its result at once. -/
def family (early : Bool) : Program familyVocabulary Unit where
  construct parent _ _ :=
    if parent then do
      let _ ← Script.i (V := familyVocabulary) () false
      if early then
        let _ ← Script.cAt () 0 false
      pure ()
    else pure ()
  function parent _ _ _ :=
    if parent then do
      if !early then
        let _ ← Script.cAt (V := familyVocabulary) () 0 false
      pure ({ description := "parent", success := true, ret := none, opHint := 0 }, ())
    else pure ({ description := "child", success := true, ret := some (false, 7), opHint := 0 }, ())
  onYield _ _ _ := pure (none, ())
  destroy _ _ := ()

/-- One worker thread. -/
def family₀ : World familyVocabulary Unit := { size := 1, malloc := id, heap := () }

/-- The parent is started, and all messages are handled. -/
def familyActions : List (Action familyVocabulary) :=
  .root true true :: List.replicate 6 (.dequeue 0)

/-- The call of the function is settled: its completion was delivered. -/
theorem functionCall_settled : ∃ w, Reached (World.step (family false)) (Guarded (family false))
    family₀ w ∧ w.log.countP (Note.completes 0 (some 0) (some 0) (some 1000)) = 1 ∧ w.Settled := by
  have hcount : (runActions (World.step (family false)) familyActions family₀).map
      (fun w => w.log.countP (Note.completes 0 (some 0) (some 0) (some 1000))) = .ok 1 := by
    decide +kernel
  obtain ⟨w, hrun, hcount⟩ := exists_of_map_eq_ok hcount
  have hreached : Reached (World.step (family false)) (Guarded (family false)) family₀ w :=
    reached_of_runActions .start (by decide +kernel) hrun
  exact ⟨w, hreached, hcount, settled_of_guarded _ 1 id () w hreached⟩

/-- The call of the constructor is never answered. -/
theorem constructorCall_lost : ∃ w, Reached (World.step (family true)) (fun _ _ => True) family₀ w ∧
    ¬ w.Settled := by
  have hlog : (runActions (World.step (family true)) familyActions family₀).map
      (fun w => (w.log, (w.queues 0).length)) =
        .ok ([.called 0 (some 0) none (some 1000) (some 0), .started 0 (some 0) (some 0),
          .started 0 (some 1000) (some 1000), .reported (some 1000) .finished 7], 0) := by
    decide +kernel
  obtain ⟨w, hrun, hlog⟩ := exists_of_map_eq_ok hlog
  have hreached : Reached (World.step (family true)) (fun _ _ => True) family₀ w :=
    reached_of_runActions .start (by decide +kernel) hrun
  obtain ⟨hlog, hqueue⟩ := Prod.mk.inj hlog
  refine ⟨w, hreached, fun hsettled => ?_⟩
  have hcount := hsettled 0 (some 0) none (some 1000) (some 0) (by simp [hlog]) (by simp [hlog])
  have hreported : w.Reported (some 1000) := by simp [Reported, hlog, Note.reports]
  rw [if_pos hreported, List.length_eq_zero_iff.mp hqueue, hlog] at hcount
  exact absurd hcount (by decide)

end World

end LocalSoftware
