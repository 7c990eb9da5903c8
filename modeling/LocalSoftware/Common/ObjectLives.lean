import LocalSoftware.Common.FamilyRuns
import LocalSoftware.Common.FreshObjects

/-!
# An object has one life

On any number of threads, the entry of an object changes, and its handlers run, only when a message for
it is handled on its thread (`untouched_of_run`). An object that was constructed and is gone never
comes back: none of its handlers runs again (`gone_for_good`).
-/

set_option autoImplicit false

namespace LocalSoftware

variable {V : Vocabulary} {σ : Type}

/-- The object that a message is for. -/
def EventVariant.addressee : EventVariant V → Option Id
  | .constructorCall c => some c.ti.objId
  | .functionCall f => some f.ti.objId
  | .data d => some d.ti.objId
  | .delete d => some d.ti.objId
  | .rootStart _ => none

/-- A function or `on_yield` of an object ran on a thread. -/
def Note.Runs (t : Nat) (o : Id) : Note → Prop
  | .started t' o' _ => t' = t ∧ o' = o
  | .delivered t' d _ => t' = t ∧ d.ti.objId = o
  | _ => False

namespace World

variable {w w' w'' : World V σ} {t t' ctx : Nat} {o : Id} {ti : TargetInfo} {es : EventState V}
  {P : Program V σ} {m : EventVariant V} {rest : List (EventVariant V)}

/-- The entry of an object is the same, and none of its handlers ran. -/
structure Untouched (t : Nat) (o : Id) (w w' : World V σ) : Prop where
  entry : (w'.threads t).objInfo o = (w.threads t).objInfo o
  log : ∃ ns, w'.log = w.log ++ ns ∧ ∀ n ∈ ns, ¬ n.Runs t o

namespace Untouched

theorem refl (t : Nat) (o : Id) (w : World V σ) : Untouched t o w w where
  entry := rfl
  log := ⟨[], (List.append_nil _).symm, fun _ hn => absurd hn List.not_mem_nil⟩

theorem trans (h : Untouched t o w w') (h' : Untouched t o w' w'') : Untouched t o w w'' where
  entry := h'.entry.trans h.entry
  log := by
    obtain ⟨ns, hns, hnot⟩ := h.log
    obtain ⟨ns', hns', hnot'⟩ := h'.log
    refine ⟨ns ++ ns', by rw [hns', hns, List.append_assoc], fun n hn => ?_⟩
    exact (List.mem_append.mp hn).elim (hnot n) (hnot' n)

/-- Other tables, queues and contexts. -/
theorem same (h : Untouched t o w w')
    (hentry : (w''.threads t).objInfo o = (w'.threads t).objInfo o) (hlog : w''.log = w'.log) :
    Untouched t o w w'' :=
  h.trans ⟨hentry, ⟨[], by rw [hlog, List.append_nil], fun _ hn => absurd hn List.not_mem_nil⟩⟩

theorem note (h : Untouched t o w w') {n : Note} (hn : ¬ n.Runs t o) :
    Untouched t o w (w'.note n) :=
  h.trans ⟨rfl, ⟨[n], rfl, fun _ hmem => List.mem_singleton.mp hmem ▸ hn⟩⟩

theorem submit (h : Untouched t o w w') (t' : Nat) : Untouched t o w (w'.submit t') := by
  have hobjInfo : ((w'.submit t').threads t).objInfo = (w'.threads t).objInfo :=
    proj_setThread w' t' t _ (·.objInfo) rfl
  exact h.same (congrFun hobjInfo o) rfl

/-- Another object's entry is written. -/
theorem setObject (h : Untouched t o w w') {id : Id} {obj : ObjectDataThreaded}
    (hid : t' = t → id ≠ o) :
    Untouched t o w (w'.setThread t' ((w'.threads t').setObject id obj)) := by
  refine h.same ?_ rfl
  rw [threads_setThread]
  by_cases ht : t = t'
  · subst ht
    rw [if_pos rfl, ThreadData.objInfo_setObject, if_neg (Ne.symm (hid rfl))]
  · rw [if_neg ht]

end Untouched

/-! ## Handlers of other objects -/

theorem Queued.not_runs (h : Queued t' ctx ti es w w') (t : Nat) (o : Id) :
    ∃ ns, w'.log = w.log ++ ns ∧ ∀ n ∈ ns, ¬ n.Runs t o := by
  have hsame : ∃ ns, w.log = w.log ++ ns ∧ ∀ n ∈ ns, ¬ n.Runs t o :=
    ⟨[], (List.append_nil _).symm, fun _ hn => absurd hn List.not_mem_nil⟩
  have hone : ∀ n : Note, ¬ n.Runs t o →
      ∃ ns, w.log ++ [n] = w.log ++ ns ∧ ∀ n ∈ ns, ¬ n.Runs t o :=
    fun n hn => ⟨[n], rfl, fun n' hn' => List.mem_singleton.mp hn' ▸ hn⟩
  have htimer : ∀ (q : EventQueuedTimer) (id : Id), ¬ (if q.cancels then
      Note.timerCancelled t' ti.objId q.localId else .timerSet t' ti.objId q.localId id).Runs t o := by
    intro q id
    split <;> exact not_false
  cases h with
  | call q info locator target _ _ _ _ _ => exact hone _ id
  | removeTimer q data _ _ _ => exact hone _ (htimer q _)
  | updateTimer q data _ _ _ _ => exact hone _ (htimer q _)
  | addTimer q _ _ _ => exact hone _ (htimer q _)
  | attach q _ => exact hone _ id
  | _ => exact hsame

/-- The updates of `process_queued` write the entry of the object that ran. -/
theorem Queued.untouched (h : Queued t' ctx ti es w w') (ho : t' = t → ti.objId ≠ o) :
    Untouched t o w w' := by
  have hset : ∀ obj, ((w.setThread t' ((w.threads t').setObject ti.objId obj)).threads t).objInfo o =
      (w.threads t).objInfo o :=
    fun obj => ((Untouched.refl t o w).setObject ho).entry
  refine ⟨?_, h.not_runs t o⟩
  rcases h.essential with hsame | hessential
  · by_cases ht : t = t'
    · rw [ht, hsame.objInfo]
    · rw [hsame.threads t ht]
  · cases hessential with
    | child q runThread _ => exact hset _
    | call q info locator target _ _ _ _ _ => exact hset _
    | delete q thread _ _ _ => rfl
    | dropChild q _ => exact hset _

theorem Untouched.processQueued (h : Untouched t o w w') (ho : t' = t → ti.objId ≠ o)
    (hqueued : w'.processQueued t' ctx ti es = .ok w'') : Untouched t o w w'' :=
  transGen_invariant (processQueued_queued hqueued) h fun _ _ hw hq => hw.trans (hq.untouched ho)

theorem Untouched.setProc (h : Untouched t o w w') (t' : Nat) (p : Id) (d : CallDataThreaded) :
    Untouched t o w (w'.setThread t' ((w'.threads t').setProc p d)) := by
  have hobjInfo : ((w'.setThread t' ((w'.threads t').setProc p d)).threads t).objInfo =
      (w'.threads t).objInfo := proj_setThread w' t' t _ (·.objInfo) rfl
  exact h.same (congrFun hobjInfo o) rfl

theorem Untouched.respond {f : FunctionCall V} {resp : CallResponse} (h : Untouched t o w w')
    (hrespond : w'.respond t' f resp = .ok w'') : Untouched t o w w'' := by
  obtain ⟨d, -, -, ⟨-, rfl⟩ | ⟨failed, code, -, ⟨-, rfl⟩ | ⟨t₁, -, -, rfl⟩⟩⟩ :=
    respond_cases hrespond
  · exact h.setProc t' _ d
  · exact (h.setProc t' _ d).note not_false
  · exact ((h.setProc t' _ d).note (n := .reported f.ti.procId _ code) not_false).same rfl rfl

theorem Untouched.report {y : Yielded} (h : Untouched t o w w')
    (hreport : w'.report t' ti y = .ok w'') : Untouched t o w w'' := by
  obtain ⟨-, rfl⟩ | ⟨failed, code, t₁, -, -, -, rfl⟩ := report_cases hreport
  · exact h
  · exact ((h.setProc t' ti.procId _).note (n := .reported ti.procId _ code) not_false).same rfl rfl

theorem Untouched.enter (h : Untouched t o w w') {f : FunctionCall V} {obj : ObjectDataThreaded}
    (hf : t' = t → f.ti.objId ≠ o) : Untouched t o w (w'.enter t' f obj) := by
  have hnot : ¬ (Note.started t' f.ti.objId f.ti.procId).Runs t o := fun hruns =>
    hf hruns.1 hruns.2
  refine Untouched.trans h ⟨?_, ⟨[.started t' f.ti.objId f.ti.procId], rfl, fun n hn =>
    List.mem_singleton.mp hn ▸ hnot⟩⟩
  by_cases ht : t = t'
  · subst ht
    rw [objInfo_enter_self, if_neg (Ne.symm (hf rfl))]
  · rw [World.enter, threads_note, threads_setThread, if_neg ht]

theorem Untouched.erase (h : Untouched t o w w') {id : Id} (hid : t' = t → id ≠ o) :
    Untouched t o w (w'.erase P t' id) := by
  refine Untouched.trans h ⟨?_, ⟨[.deleted t' id], rfl, fun n hn => ?_⟩⟩
  · by_cases ht : t = t'
    · subst ht
      rw [objInfo_erase_self, if_neg (Ne.symm (hid rfl))]
    · rw [World.erase, threads_note, threads_setThread, if_neg ht]
  · rw [List.mem_singleton.mp hn]
    exact not_false

theorem Untouched.deleteChildren {ci : CallerInfo} {children : List (Id × ChildObjectInfo)}
    (h : Untouched t o w w') (hchildren : w'.deleteChildren ci children = .ok w'') :
    Untouched t o w w'' :=
  deleteChildren_invariant (I := Untouched t o w) hchildren h fun _ _ _ hw _ => hw.same rfl rfl

/-- A message for another object, or on another thread. -/
theorem Handled.untouched (h : Handled P t' w w') (hq : w.queues t' = m :: rest)
    (ho : t' = t → m.addressee ≠ some o) : Untouched t o w w' := by
  have hpop : ∀ rest, Untouched t o w (w.pop t' rest) :=
    fun rest => (Untouched.refl t o w).same rfl rfl
  cases h with
  | idle hnil => cases hnil.symm.trans hq
  | @constructed c rest' ctx w₁ w₂ w₃ heap es hq' htake hrun hslot hnew hqueued =>
    obtain ⟨rfl, rfl⟩ := List.cons.inj (hq'.symm.trans hq)
    have hne : t' = t → c.ti.objId ≠ o := fun ht heq => ho ht (congrArg some heq)
    have hsame := filled_same htake hslot
    have hfilled : Untouched t o w w₂ := (hpop rest').same (by rw [hsame.threads]) hsame.log
    exact ((hfilled.setObject hne).processQueued hne hqueued).submit t'
  | @reconstructed c rest' ctx w₁ w₂ heap es obj hq' htake hrun hslot hold =>
    have hsame := filled_same htake hslot
    exact ((hpop rest').same (by rw [hsame.threads]) hsame.log).submit t'
  | @called f rest' obj ctx resp heap es w₂ w₃ hq' hobj hptr hrun hqueued hrespond =>
    obtain ⟨rfl, rfl⟩ := List.cons.inj (hq'.symm.trans hq)
    have hne : t' = t → f.ti.objId ≠ o := fun ht heq => ho ht (congrArg some heq)
    have henter : Untouched t o w (((w.pop t' rest').enter t' f obj).afterHandler ctx es heap) :=
      ((hpop rest').enter hne).same rfl rfl
    exact ((henter.processQueued hne hqueued).respond hrespond).submit t'
  | @delivered d rest' obj c ctx y heap es w₂ w₃ hq' hobj hd hptr hrun hqueued hreport =>
    obtain ⟨rfl, rfl⟩ := List.cons.inj (hq'.symm.trans hq)
    have hne : t' = t → d.ti.objId ≠ o := fun ht heq => ho ht (congrArg some heq)
    have hdeliver : Untouched t o w (((w.pop t' rest').note (.delivered t' d
        ((w.contexts ctx).mapEventData d.data).1)).afterHandler ctx es heap) :=
      ((hpop rest').note (n := .delivered t' d _) fun hruns => hne hruns.1 hruns.2).same rfl rfl
    have hreported := (hdeliver.processQueued hne hqueued).report hreport
    have hforward : Untouched t o w (w₃.forward t'
        { d with data := ((w.contexts ctx).mapEventData d.data).1 }
        ((w₃.threads t').alsoNotify d.ti.procId)) :=
      forward_invariant (I := Untouched t o w) hreported fun _ _ _ hw => hw.same rfl rfl
    exact hforward.submit t'
  | dropped hq' hmissing => exact (hpop _).submit t'
  | @deleted d rest' w₁ hq' hchildren =>
    obtain ⟨rfl, rfl⟩ := List.cons.inj (hq'.symm.trans hq)
    have hne : t' = t → d.ti.objId ≠ o := fun ht heq => ho ht (congrArg some heq)
    exact (((hpop rest').deleteChildren hchildren).erase hne).submit t'
  | @root r rest' hq' =>
    have hroot : Untouched t o w ((w.pop t' rest').rootReceived t' r) := (hpop rest').same rfl rfl
    exact hroot.submit t'

theorem step_untouched {a : Action V} (ha : ∀ t, a ≠ .dequeue t) (h : w.step P a = .ok w') (t : Nat)
    (o : Id) : Untouched t o w w' := by
  have hrefl := Untouched.refl t o w
  have hset : ∀ {w₁ : World V σ} {t' : Nat} {td : ThreadData V}, Untouched t o w w₁ →
      td.objInfo = (w₁.threads t').objInfo → Untouched t o w (w₁.setThread t' td) := by
    intro w₁ t' td h htd
    have hobjInfo : ((w₁.setThread t' td).threads t).objInfo = (w₁.threads t).objInfo :=
      proj_setThread w₁ t' t td (·.objInfo) htd
    exact h.same (congrFun hobjInfo o) rfl
  cases a with
  | dequeue t' => exact absurd rfl (ha t')
  | uring t' =>
    simp only [step] at h
    split at h
    · refine processUring_invariant (I := Untouched t o w) h hrefl (fun w₁ address res b hw _ => ?_)
        fun w₁ hw => hset hw rfl
      obtain ⟨queues, timers, heq⟩ := attachment_eq w₁ t' res b
      rw [heq]
      have hqueues : Untouched t o w { w₁ with queues } := hw.same rfl rfl
      have htimers : Untouched t o w ({ w₁ with queues }.setThread t'
          { w₁.threads t' with timers }) := hset hqueues rfl
      exact htimers.same rfl rfl
    · obtain rfl := Except.ok.inj h
      exact hrefl
  | complete t' k res =>
    obtain rfl := Except.ok.inj h
    simp only [complete]
    split
    · exact hrefl
    · exact hset hrefl rfl
  | root constructor init =>
    obtain ⟨-, rfl⟩ := initializeRootEvent_eq h
    exact hrefl.same rfl rfl
  | load _ | iterate _ =>
    obtain rfl := Except.ok.inj h
    exact hrefl.same rfl rfl

/-- No message for the object is taken on the thread. -/
def LeavesAlone (t : Nat) (o : Id) (w : World V σ) : Action V → Prop
  | .dequeue t' => t' = t → (w.queues t').head?.bind EventVariant.addressee ≠ some o
  | _ => True

instance (t : Nat) (o : Id) (w : World V σ) (a : Action V) : Decidable (w.LeavesAlone t o a) := by
  cases a <;> (unfold LeavesAlone; infer_instance)

/-- As long as no message for an object is handled on a thread, its entry there stays as it is and none
of its handlers runs there, whatever other objects and threads do. -/
theorem untouched_of_run (P : Program V σ) (t : Nat) (o : Id) (w w' : World V σ)
    (h : Reached (step P) (LeavesAlone t o) w w') : Untouched t o w w' := by
  refine h.invariant (I := Untouched t o w) (.refl t o w) fun w₁ a w₂ hw hleaves hstep => hw.trans ?_
  by_cases ha : ∃ t', a = .dequeue t'
  · obtain ⟨t', rfl⟩ := ha
    rcases step_dequeue hstep with rfl | ⟨-, hhandled⟩
    · exact .refl t o w₂
    · cases hq : w₁.queues t' with
      | nil =>
        cases hhandled with
        | idle => exact .refl t o w₁
        | _ => simp_all
      | cons m rest =>
        refine hhandled.untouched hq fun ht hm => hleaves ht ?_
        rw [hq]
        exact hm
  · exact step_untouched (fun t' heq => ha ⟨t', heq⟩) hstep t o

/-! ## Objects that are gone -/

/-- A message for an object that is not there constructs it, or leaves it absent. -/
theorem Handled.absent (h : Handled P t' w w') (hq : w.queues t' = m :: rest)
    (hnone : (w.threads t).objInfo o = none) (hbuilt : m.builtId ≠ some o) :
    Untouched t o w w' := by
  by_cases ho : t' = t → m.addressee ≠ some o
  · exact h.untouched hq ho
  · obtain ⟨rfl, hm⟩ := Classical.not_imp.mp ho
    have hm := Classical.not_not.mp hm
    cases h with
    | idle hnil => cases hnil.symm.trans hq
    | constructed hq' _ _ _ _ _ =>
      obtain ⟨rfl, rfl⟩ := List.cons.inj (hq'.symm.trans hq)
      exact absurd hm hbuilt
    | reconstructed hq' _ _ _ _ =>
      obtain ⟨rfl, rfl⟩ := List.cons.inj (hq'.symm.trans hq)
      exact absurd hm hbuilt
    | called hq' hobj _ _ _ _ =>
      obtain ⟨rfl, rfl⟩ := List.cons.inj (hq'.symm.trans hq)
      rw [Option.some.inj hm, hnone] at hobj
      cases hobj
    | delivered hq' hobj _ _ _ _ _ =>
      obtain ⟨rfl, rfl⟩ := List.cons.inj (hq'.symm.trans hq)
      rw [Option.some.inj hm, hnone] at hobj
      cases hobj
    | @dropped d rest' hq' _ =>
      have hpop : Untouched t' o w (w.pop t' rest') := (Untouched.refl t' o w).same rfl rfl
      exact hpop.submit t'
    | @deleted d rest' w₁ hq' hchildren =>
      obtain ⟨rfl, rfl⟩ := List.cons.inj (hq'.symm.trans hq)
      obtain rfl := Option.some.inj hm
      have hpop : Untouched t' d.ti.objId w (w.pop t' rest') := (Untouched.refl _ _ w).same rfl rfl
      have hchildren' := hpop.deleteChildren hchildren
      refine Untouched.submit (hchildren'.trans ⟨?_, ⟨[.deleted t' d.ti.objId], rfl, fun n hn => ?_⟩⟩) t'
      · rw [objInfo_erase_self, if_pos rfl, hchildren'.entry, hnone]
      · rw [List.mem_singleton.mp hn]
        exact not_false
    | root hq' =>
      obtain ⟨rfl, rfl⟩ := List.cons.inj (hq'.symm.trans hq)
      cases hm

end World

namespace History

variable {P : Program V σ} {s s' : History V σ}

/-- The constructor of an object was called. -/
def Built (s : History V σ) (o : Id) : Prop :=
  ∃ t c, .constructorCall c ∈ s.taken t ∧ c.ti.objId = o

/-- The objects that were constructed are known, and no others wait to be. -/
def Known (taken : Nat → List (EventVariant V)) (w : World V σ) (o : Id) : Prop :=
  ∃ known, World.Fresh known w ∧
    ((∃ t c, .constructorCall c ∈ taken t ∧ c.ti.objId = o) → o ∈ known)

theorem known_invariant {s₀ : History V σ} (h : Reached (step P) (fun _ _ => True) s₀ s) (o : Id)
    (h₀ : Known s₀.taken s₀.world o) : Known s.taken s.world o := by
  refine invariant (I := fun taken w => Known taken w o) h h₀ ?_ ?_
  · rintro s t m rest w' ⟨known, hfresh, hmem⟩ - - hq hhandled
    refine ⟨known ++ m.builtId.toList, (hfresh.handled hq hhandled).1, ?_⟩
    rintro ⟨t', c, hc, hid⟩
    rw [Function.update_apply] at hc
    split at hc
    · rcases List.mem_append.mp hc with hc | hc
      · exact List.mem_append_left _ (hmem ⟨_, c, hc, hid⟩)
      · obtain rfl := List.mem_singleton.mp hc
        exact List.mem_append_right _ (Option.mem_toList.mpr (congrArg some hid))
    · exact List.mem_append_left _ (hmem ⟨t', c, hc, hid⟩)
  · rintro s a w' ⟨known, hfresh, hmem⟩ - ha hstep
    exact ⟨known, hfresh.other ha hstep, hmem⟩

/-- In every run on any number of threads: once the constructor of an object was called, the object
never appears on a thread on which it is not, and none of its handlers runs there any more. -/
theorem gone_for_good (P : Program V σ) (size : Nat) (malloc : Nat → Nat) (heap : σ)
    (s s' : History V σ)
    (h : Reached (step P) (fun _ _ => True) { world := { size, malloc, heap } } s)
    (h' : Reached (step P) (fun _ _ => True) s s') (t : Nat) (o : Id) (hbuilt : s.Built o)
    (hgone : (s.world.threads t).objInfo o = none) :
    (s'.world.threads t).objInfo o = none ∧
      ∃ ns, s'.world.log = s.world.log ++ ns ∧ ∀ n ∈ ns, ¬ n.Runs t o := by
  have hknown : Known s.taken s.world o :=
    known_invariant h o ⟨[], tickets_empty, fun ⟨_, _, hc, _⟩ => absurd hc List.not_mem_nil⟩
  obtain ⟨known, hfresh, hmem⟩ := hknown
  have hI : (∃ known, World.Fresh known s'.world ∧ o ∈ known) ∧
      World.Untouched t o s.world s'.world := by
    refine invariant (I := fun _ w => (∃ known, World.Fresh known w ∧ o ∈ known) ∧
      World.Untouched t o s.world w) h' ⟨⟨known, hfresh, hmem hbuilt⟩, .refl t o s.world⟩ ?_ ?_
    · rintro s₁ t' m rest w' ⟨⟨known, hfresh, ho⟩, huntouched⟩ - - hq hhandled
      obtain ⟨hfresh', hnew⟩ := hfresh.handled hq hhandled
      refine ⟨⟨_, hfresh', List.mem_append_left _ ho⟩, huntouched.trans ?_⟩
      refine hhandled.absent hq (huntouched.entry.trans hgone) fun heq => ?_
      exact hnew o heq ho
    · rintro s₁ a w' ⟨⟨known, hfresh, ho⟩, huntouched⟩ - ha hstep
      exact ⟨⟨known, hfresh.other ha hstep, ho⟩,
        huntouched.trans (World.step_untouched ha hstep t o)⟩
  exact ⟨hI.2.entry.trans hgone, hI.2.log⟩

/-- The root 0 deletes its child 1000 as soon as that reports its result. The child 1000 has reported
before its own child 1001 does, which waits for the child 1002. -/
def chain : Program World.teamVocabulary Unit where
  construct _ id _ := do
    if id ≠ some 1002 then
      let _ ← Script.i (V := World.teamVocabulary) () ()
    pure ()
  function _ id _ _ := do
    if id ≠ some 1002 then
      let _ ← Script.cAt (V := World.teamVocabulary) () 0 ()
    let ret : Yielded := if id = some 0 ∨ id = some 1001 then none else some (false, 0)
    pure ({ description := "", success := true, ret, opHint := 0 }, ())
  onYield id _ _ := do
    if id = some 0 then
      Script.d (V := World.teamVocabulary) () 0
      pure (none, ())
    else
      pure (some (false, 0), ())
  destroy _ _ := ()

/-- The child 1000 is gone when the result of the child 1001 comes in for it. -/
theorem chain_gone : ∃ s s', Reached (step chain) (fun _ _ => True)
      { world := World.team₀ } s ∧
    Reached (step chain) (fun _ _ => True) s s' ∧ s.Built (some 1000) ∧
    ((s'.taken 0).drop 11).filterMap EventVariant.addressee =
      [some 1001, some 1001, some 1000, some 1002] ∧
    (s'.world.threads 0).objInfo (some 1000) = none ∧
      ∃ ns, s'.world.log = s.world.log ++ ns ∧ ∀ n ∈ ns, ¬ n.Runs 0 (some 1000) := by
  have hruns : (runActions (step chain) (World.teamActions 11)
      { world := World.team₀ } >>= fun s => (runActions (step chain) (.replicate 4 (.dequeue 0)) s).map
        fun s' => ((s.taken 0).filterMap EventVariant.builtId,
          ((s.world.threads 0).objInfo (some 1000)).isNone,
          ((s'.taken 0).drop 11).filterMap EventVariant.addressee)) =
      .ok ([some 0, some 1000, some 1001, some 1002], true,
        [some 1001, some 1001, some 1000, some 1002]) := by
    decide +kernel
  obtain ⟨s, hrun, hs⟩ := World.bind_eq_ok hruns
  obtain ⟨s', hrun', hs'⟩ := exists_of_map_eq_ok hs
  obtain ⟨hbuilt, hs'⟩ := Prod.mk.inj hs'
  obtain ⟨hgone, haddressees⟩ := Prod.mk.inj hs'
  have hreached : Reached (step chain) (fun _ _ => True) { world := World.team₀ } s :=
    reached_of_runActions .start (meets_true _ _) hrun
  have hreached' : Reached (step chain) (fun _ _ => True) s s' :=
    reached_of_runActions .start (meets_true _ _) hrun'
  have hmem : some 1000 ∈ (s.taken 0).filterMap EventVariant.builtId := by
    rw [hbuilt]
    decide
  obtain ⟨c, hc, hid⟩ := World.mem_builtId.mp hmem
  exact ⟨s, s', hreached, hreached', ⟨0, c, hc, hid⟩, haddressees,
    gone_for_good chain 1 id () s s' hreached hreached' 0 (some 1000) ⟨0, c, hc, hid⟩
      (Option.isNone_iff_eq_none.mp hgone)⟩

end History

namespace World

/-- While the child of the root has messages, the entry of the root stays as it is. -/
theorem team_untouched : ∃ w w', Reached (step (team true)) (LeavesAlone 0 (some 0)) w w' ∧
    ((w.threads 0).objInfo (some 0)).isSome ∧ w'.log.length = w.log.length + 6 ∧
    Untouched 0 (some 0) w w' := by
  have hruns : (runActions (step (team true)) (teamActions 3) team₀ >>= fun w =>
      (runActions (step (team true)) (.replicate 5 (.dequeue 0)) w).map fun w' =>
        (((w.threads 0).objInfo (some 0)).isSome, w.log.length, w'.log.length,
          decide (Meets (step (team true)) (LeavesAlone 0 (some 0)) (.replicate 5 (.dequeue 0)) w))) =
      .ok (true, 2, 8, true) := by
    decide +kernel
  obtain ⟨w, hrun, hw⟩ := bind_eq_ok hruns
  obtain ⟨w', hrun', hw'⟩ := exists_of_map_eq_ok hw
  obtain ⟨hthere, hw'⟩ := Prod.mk.inj hw'
  obtain ⟨hlog, hw'⟩ := Prod.mk.inj hw'
  obtain ⟨hlog', hmeets⟩ := Prod.mk.inj hw'
  have hreached : Reached (step (team true)) (LeavesAlone 0 (some 0)) w w' :=
    reached_of_runActions .start (of_decide_eq_true hmeets) hrun'
  exact ⟨w, w', hreached, hthere, by rw [hlog, hlog'],
    untouched_of_run (team true) 0 (some 0) w w' hreached⟩

end World

end LocalSoftware
