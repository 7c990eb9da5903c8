import LocalSoftware.Common.CallOrder
import LocalSoftware.Common.ObjectLives

/-!
# Procedures in the tables

On any number of threads, a procedure that was started is in the tables of its thread, with its
object, until this object is deleted there (`enlisted_of_reached`). `KeepsEntries` is what the
handling of a message does between these two.
-/

set_option autoImplicit false

namespace LocalSoftware

variable {V : Vocabulary} {σ : Type}

/-- Neither the start of a procedure nor the end of an object. -/
def Note.Passing : Note → Prop
  | .started .. => False
  | .deleted .. => False
  | _ => True

namespace World

variable {w w' w'' : World V σ} {t t' ctx : Nat} {o : Id} {ti : TargetInfo} {es : EventState V}
  {P : Program V σ} {m : EventVariant V} {rest : List (EventVariant V)}

/-- Objects stay with their procedures, and new ones have none; procedures stay. -/
structure KeepsEntries (w w' : World V σ) : Prop where
  core : ∀ t o, w'.core t o = w.core t o ∨ (w.core t o = none ∧ ∃ ptr, w'.core t o = some (ptr, []))
  procs : ∀ {t p}, (w.threads t).procToDat p ≠ none → (w'.threads t).procToDat p ≠ none
  log : ∃ ns, w'.log = w.log ++ ns ∧ ∀ n ∈ ns, n.Passing

namespace KeepsEntries

theorem refl (w : World V σ) : KeepsEntries w w where
  core _ _ := Or.inl rfl
  procs := id
  log := ⟨[], (List.append_nil _).symm, fun _ hn => absurd hn List.not_mem_nil⟩

theorem trans (h : KeepsEntries w w') (h' : KeepsEntries w' w'') : KeepsEntries w w'' where
  core t o := by
    rcases h'.core t o with heq | ⟨hnone, hnew⟩
    · rw [heq]
      exact h.core t o
    · rcases h.core t o with heq | ⟨hnone', -⟩
      · exact Or.inr ⟨heq ▸ hnone, hnew⟩
      · exact Or.inr ⟨hnone', hnew⟩
  procs hp := h'.procs (h.procs hp)
  log := by
    obtain ⟨ns, hns, hpassing⟩ := h.log
    obtain ⟨ns', hns', hpassing'⟩ := h'.log
    refine ⟨ns ++ ns', by rw [hns', hns, List.append_assoc], fun n hn => ?_⟩
    exact (List.mem_append.mp hn).elim (hpassing n) (hpassing' n)

/-- Other queues, contexts and rings. -/
theorem same (h : KeepsEntries w w')
    (hobjInfo : ∀ t, (w''.threads t).objInfo = (w'.threads t).objInfo)
    (hprocToDat : ∀ t, (w''.threads t).procToDat = (w'.threads t).procToDat)
    (hlog : w''.log = w'.log) : KeepsEntries w w'' :=
  h.trans {
    core := fun t o => Or.inl (by rw [World.core, hobjInfo]; rfl)
    procs := fun hp => by rwa [hprocToDat]
    log := ⟨[], by rw [hlog, List.append_nil], fun _ hn => absurd hn List.not_mem_nil⟩ }

theorem note (h : KeepsEntries w w') {n : Note} (hn : n.Passing) : KeepsEntries w (w'.note n) :=
  h.trans { refl w' with log := ⟨[n], rfl, fun _ hmem => List.mem_singleton.mp hmem ▸ hn⟩ }

theorem submit (h : KeepsEntries w w') (t : Nat) : KeepsEntries w (w'.submit t) :=
  h.same (fun t' => proj_setThread w' t t' _ (·.objInfo) rfl)
    (fun t' => proj_setThread w' t t' _ (·.procToDat) rfl) rfl

/-- An object gets other children, or is entered. -/
theorem setObject (h : KeepsEntries w w') (t : Nat) (id : Id) {obj : ObjectDataThreaded}
    (hprocs : obj.assocProcs = ((w'.threads t).object id).assocProcs)
    (hptr : (w'.threads t).objInfo id ≠ none → obj.ptr = ((w'.threads t).object id).ptr) :
    KeepsEntries w (w'.setThread t ((w'.threads t).setObject id obj)) := by
  refine h.trans { refl w' with
    core := fun t' o => ?_
    procs := fun {t' p} hp => by
      rwa [proj_setThread w' t t' ((w'.threads t).setObject id obj) (·.procToDat) rfl] }
  cases hid : (w'.threads t).objInfo id with
  | none =>
    have hnil : obj.assocProcs = [] := by
      rw [hprocs, ThreadData.object, hid]
      rfl
    by_cases heq : t' = t ∧ o = id
    · obtain ⟨rfl, rfl⟩ := heq
      refine Or.inr ⟨by rw [World.core, hid, Option.map_none], obj.ptr, ?_⟩
      rw [World.core, threads_setThread_self, ThreadData.objInfo_setObject, if_pos rfl,
        Option.map_some, hnil]
    · left
      simp only [World.core, threads_setThread]
      split
      · rename_i ht
        rw [ThreadData.objInfo_setObject, if_neg fun ho => heq ⟨ht, ho⟩, ht]
      · rfl
  | some old =>
    have hold : (w'.threads t).object id = old := object_eq hid
    refine Or.inl (core_setObject _ rfl hid ?_ ?_ t' o)
    · rw [hptr (by rw [hid]; exact Option.some_ne_none old), hold]
    · rw [hprocs, hold]

theorem setProc (h : KeepsEntries w w') (t : Nat) (p : Id) (d : CallDataThreaded) :
    KeepsEntries w (w'.setThread t ((w'.threads t).setProc p d)) := by
  refine h.trans { refl w' with
    core := fun t' o => Or.inl ?_
    procs := fun {t' q} hq => ?_ }
  · rw [World.core, World.core, proj_setThread w' t t' ((w'.threads t).setProc p d) (·.objInfo) rfl]
  · rw [threads_setThread]
    split
    · rename_i ht
      rw [ThreadData.procToDat_setProc]
      split
      · exact Option.some_ne_none d
      · exact ht ▸ hq
    · exact hq

end KeepsEntries

/-! ## The handling of a message -/

theorem Queued.passing (h : Queued t ctx ti es w w') :
    ∃ ns, w'.log = w.log ++ ns ∧ ∀ n ∈ ns, n.Passing := by
  have hsame : ∃ ns, w.log = w.log ++ ns ∧ ∀ n ∈ ns, n.Passing :=
    ⟨[], (List.append_nil _).symm, fun _ hn => absurd hn List.not_mem_nil⟩
  have hone : ∀ n : Note, n.Passing → ∃ ns, w.log ++ [n] = w.log ++ ns ∧ ∀ n ∈ ns, n.Passing :=
    fun n hn => ⟨[n], rfl, fun n' hn' => List.mem_singleton.mp hn' ▸ hn⟩
  have htimer : ∀ (q : EventQueuedTimer) (id : Id), (if q.cancels then
      Note.timerCancelled t ti.objId q.localId else .timerSet t ti.objId q.localId id).Passing := by
    intro q id
    split <;> trivial
  cases h with
  | call q info locator target _ _ _ _ _ => exact hone _ trivial
  | removeTimer q data _ _ _ => exact hone _ (htimer q _)
  | updateTimer q data _ _ _ _ => exact hone _ (htimer q _)
  | addTimer q _ _ _ => exact hone _ (htimer q _)
  | attach q _ => exact hone _ trivial
  | _ => exact hsame

theorem Queued.keepsEntries (h : Queued t ctx ti es w w') : KeepsEntries w w' := by
  have hset : ∀ children, KeepsEntries w (w.setThread t ((w.threads t).setObject ti.objId
      { (w.threads t).object ti.objId with children })) :=
    fun children => (KeepsEntries.refl w).setObject t ti.objId rfl fun _ => rfl
  refine ⟨?_, fun {t' p} hp => by rwa [h.procToDat t'], h.passing⟩
  rcases h.essential with hsame | hessential
  · intro t' o
    left
    simp only [core]
    by_cases ht : t' = t
    · rw [ht, hsame.objInfo]
    · rw [hsame.threads t' ht]
  · cases hessential with
    | child q runThread _ => exact (hset _).core
    | call q info locator target _ _ _ _ _ => exact (hset _).core
    | delete q thread _ _ _ => exact fun _ _ => Or.inl rfl
    | dropChild q _ => exact (hset _).core

namespace KeepsEntries

theorem processQueued (h : KeepsEntries w w') (hqueued : w'.processQueued t ctx ti es = .ok w'') :
    KeepsEntries w w'' :=
  transGen_invariant (processQueued_queued hqueued) h fun _ _ hw hq => hw.trans hq.keepsEntries

theorem respond {f : FunctionCall V} {resp : CallResponse} (h : KeepsEntries w w')
    (hrespond : w'.respond t f resp = .ok w'') : KeepsEntries w w'' := by
  obtain ⟨d, -, -, ⟨-, rfl⟩ | ⟨failed, code, -, ⟨-, rfl⟩ | ⟨t', -, -, rfl⟩⟩⟩ := respond_cases hrespond
  · exact h.setProc t _ d
  · exact (h.setProc t _ d).note trivial
  · exact ((h.setProc t _ d).note (n := .reported f.ti.procId _ code) trivial).same
      (fun _ => rfl) (fun _ => rfl) rfl

theorem report {y : Yielded} (h : KeepsEntries w w') (hreport : w'.report t ti y = .ok w'') :
    KeepsEntries w w'' := by
  obtain ⟨-, rfl⟩ | ⟨failed, code, t', -, -, -, rfl⟩ := report_cases hreport
  · exact h
  · exact ((h.setProc t ti.procId _).note (n := .reported ti.procId _ code) trivial).same
      (fun _ => rfl) (fun _ => rfl) rfl

theorem forward (h : KeepsEntries w w') (d : Data) (attachers : List (Id × Id)) :
    KeepsEntries w (w'.forward t d attachers) :=
  forward_invariant (I := KeepsEntries w) h fun _ _ _ hw => hw.same (fun _ => rfl) (fun _ => rfl) rfl

end KeepsEntries

theorem Handled.idle_eq (h : Handled P t w w') (hq : w.queues t = []) : w' = w := by
  cases h with
  | idle => rfl
  | constructed hq' => cases hq.symm.trans hq'
  | reconstructed hq' => cases hq.symm.trans hq'
  | called hq' => cases hq.symm.trans hq'
  | delivered hq' => cases hq.symm.trans hq'
  | dropped hq' => cases hq.symm.trans hq'
  | deleted hq' => cases hq.symm.trans hq'
  | root hq' => cases hq.symm.trans hq'

/-- What the handling of a message does to the entries, by its kind. -/
theorem Handled.entries (h : Handled P t w w') (hq : w.queues t = m :: rest) :
    ((∀ f, m ≠ .functionCall f) ∧ KeepsEntries w w') ∨
    (∃ f obj, m = .functionCall f ∧ (w.threads t).objInfo f.ti.objId = some obj ∧
      KeepsEntries ((w.pop t rest).enter t f obj) w') ∨
    ∃ d w₁, m = .delete d ∧ Moves w w₁ ∧ KeepsEntries w w₁ ∧
      KeepsEntries (w₁.erase P t d.ti.objId) w' := by
  have hpop : ∀ rest, KeepsEntries w (w.pop t rest) :=
    fun rest => (KeepsEntries.refl w).same (fun _ => rfl) (fun _ => rfl) rfl
  have hfilled : ∀ {rest shared w₁ w₂ ctx heap es slot id},
      (w.pop t rest).takeContext shared = (ctx, w₁) →
      (w₁.afterHandler ctx es heap).fillSlot t slot id = .ok w₂ → KeepsEntries w w₂ := by
    intro rest shared w₁ w₂ ctx heap es slot id htake hslot
    have hsame := filled_same htake hslot
    exact (hpop rest).same (fun t' => by rw [hsame.threads]) (fun t' => by rw [hsame.threads])
      hsame.log
  cases h with
  | idle hnil => cases hnil.symm.trans hq
  | @constructed c rest' ctx w₁ w₂ w₃ heap es hq' htake hrun hslot hnew hqueued =>
    have hobject : KeepsEntries w (w₂.setThread t ((w₂.threads t).setObject c.ti.objId
        { ptr := some ctx })) := by
      refine (hfilled htake hslot).setObject t c.ti.objId ?_ fun hne => absurd hnew hne
      rw [ThreadData.object, hnew]
      rfl
    refine Or.inl ⟨fun f hf => ?_, (hobject.processQueued hqueued).submit t⟩
    cases (hf ▸ hq).symm.trans hq'
  | reconstructed hq' htake hrun hslot hold =>
    refine Or.inl ⟨fun f hf => ?_, (hfilled htake hslot).submit t⟩
    cases (hf ▸ hq).symm.trans hq'
  | @called f rest' obj ctx resp heap es w₂ w₃ hq' hobj hptr hrun hqueued hrespond =>
    obtain ⟨rfl, rfl⟩ := List.cons.inj (hq'.symm.trans hq)
    have hafter : KeepsEntries ((w.pop t rest').enter t f obj)
        (((w.pop t rest').enter t f obj).afterHandler ctx es heap) :=
      (KeepsEntries.refl _).same (fun _ => rfl) (fun _ => rfl) rfl
    exact Or.inr (Or.inl ⟨f, obj, rfl, hobj,
      ((hafter.processQueued hqueued).respond hrespond).submit t⟩)
  | @delivered d rest' obj c ctx y heap es w₂ w₃ hq' hobj hd hptr hrun hqueued hreport =>
    have hdeliver : KeepsEntries w (((w.pop t rest').note (.delivered t d
        ((w.contexts ctx).mapEventData d.data).1)).afterHandler ctx es heap) :=
      ((hpop rest').note (n := .delivered t d _) trivial).same (fun _ => rfl) (fun _ => rfl) rfl
    refine Or.inl ⟨fun f hf => ?_,
      (((hdeliver.processQueued hqueued).report hreport).forward _ _).submit t⟩
    cases (hf ▸ hq).symm.trans hq'
  | dropped hq' hmissing =>
    refine Or.inl ⟨fun f hf => ?_, (hpop _).submit t⟩
    cases (hf ▸ hq).symm.trans hq'
  | @deleted d rest' w₁ hq' hchildren =>
    obtain ⟨rfl, rfl⟩ := List.cons.inj (hq'.symm.trans hq)
    have hentries : KeepsEntries w w₁ :=
      deleteChildren_invariant (I := KeepsEntries w) hchildren (hpop rest') fun _ _ _ hw _ =>
        hw.same (fun _ => rfl) (fun _ => rfl) rfl
    have htaken : Moves w (w.pop t rest') :=
      .move (.refl w) (.taken w.traffic t _ rest' hq rfl) (fun _ _ => rfl) rfl
    exact Or.inr (Or.inr ⟨d, w₁, rfl, htaken.trans (deleteChildren_moves hchildren), hentries,
      (KeepsEntries.refl _).submit t⟩)
  | @root r rest' hq' =>
    have hroot : KeepsEntries w ((w.pop t rest').rootReceived t r) :=
      (hpop rest').same (fun _ => rfl) (fun _ => rfl) rfl
    refine Or.inl ⟨fun f hf => ?_, hroot.submit t⟩
    cases (hf ▸ hq).symm.trans hq'

/-- Who started, and who was deleted. -/
theorem Handled.newNotes (h : Handled P t w w') (hq : w.queues t = m :: rest) :
    ∃ ns, w'.log = w.log ++ ns ∧ ∀ n ∈ ns, n.Passing ∨
      (∃ f, m = .functionCall f ∧ n = .started t f.ti.objId f.ti.procId) ∨
      ∃ d, m = .delete d ∧ n = .deleted t d.ti.objId := by
  obtain ⟨-, hkeeps⟩ | ⟨f, obj, rfl, -, hkeeps⟩ | ⟨d, w₁, rfl, -, hkeeps, herase⟩ := h.entries hq
  · obtain ⟨ns, hns, hpassing⟩ := hkeeps.log
    exact ⟨ns, hns, fun n hn => Or.inl (hpassing n hn)⟩
  · obtain ⟨ns, hns, hpassing⟩ := hkeeps.log
    refine ⟨.started t f.ti.objId f.ti.procId :: ns, ?_, fun n hn => ?_⟩
    · rw [hns, log_enter, List.append_assoc]
      rfl
    · rcases List.mem_cons.mp hn with rfl | hn
      · exact Or.inr (Or.inl ⟨f, rfl, rfl⟩)
      · exact Or.inl (hpassing n hn)
  · obtain ⟨ns, hns, hpassing⟩ := hkeeps.log
    obtain ⟨ns', hns', hpassing'⟩ := herase.log
    refine ⟨ns ++ .deleted t d.ti.objId :: ns', ?_, fun n hn => ?_⟩
    · rw [hns', log_erase, hns, List.append_assoc, List.append_assoc]
      rfl
    · rcases List.mem_append.mp hn with hn | hn
      · exact Or.inl (hpassing n hn)
      · rcases List.mem_cons.mp hn with rfl | hn
        · exact Or.inr (Or.inr ⟨d, rfl, rfl⟩)
        · exact Or.inl (hpassing' n hn)

/-! ## The invariant -/

/-- The procedures of an object were started on it, and a procedure is in the tables with its object
until the object is deleted. -/
structure Enlisted (w : World V σ) : Prop where
  assoc : ∀ {t o ptr procs p}, w.core t o = some (ptr, procs) → p ∈ procs → .started t o p ∈ w.log
  live : ∀ {t o p}, .started t o p ∈ w.log → .deleted t o ∉ w.log →
    w.core t o ≠ none ∧ (w.threads t).procToDat p ≠ none

namespace Enlisted

theorem keeps (h : w.Enlisted) (hw : KeepsEntries w w') : w'.Enlisted := by
  obtain ⟨ns, hns, hpassing⟩ := hw.log
  have hsub : w.log ⊆ w'.log := hns ▸ List.subset_append_left _ _
  constructor
  · intro t o ptr procs p hcore hp
    rcases hw.core t o with heq | ⟨-, ptr', hnew⟩
    · exact hsub (h.assoc (heq ▸ hcore) hp)
    · obtain ⟨-, rfl⟩ := Prod.mk.inj (Option.some.inj (hcore.symm.trans hnew))
      cases hp
  · intro t o p hstarted hdeleted
    have hold : .started t o p ∈ w.log := by
      rw [hns, List.mem_append] at hstarted
      exact hstarted.resolve_right fun hmem => hpassing _ hmem
    obtain ⟨hcore, hproc⟩ := h.live hold fun hd => hdeleted (hsub hd)
    refine ⟨?_, hw.procs hproc⟩
    rcases hw.core t o with heq | ⟨hnone, -⟩
    · rwa [heq]
    · exact absurd hnone hcore

/-- A procedure is started on an object that is there. -/
theorem enter (h : w.Enlisted) {f : FunctionCall V} {obj : ObjectDataThreaded}
    (hobj : (w.threads t).objInfo f.ti.objId = some obj) : (w.enter t f obj).Enlisted := by
  have hsub : w.log ⊆ (w.enter t f obj).log := List.subset_append_left _ _
  have hcore : w.core t f.ti.objId = some (obj.ptr, obj.assocProcs) := by
    rw [core, hobj, Option.map_some]
  constructor
  · intro t' o ptr procs p hentry hp
    rw [core_enter] at hentry
    split at hentry
    · rename_i heq
      obtain ⟨rfl, rfl⟩ := heq
      obtain ⟨-, rfl⟩ := Prod.mk.inj (Option.some.inj hentry)
      rcases List.mem_append.mp hp with hp | hp
      · exact hsub (h.assoc hcore hp)
      · rw [List.mem_singleton.mp hp]
        exact List.mem_append_right _ List.mem_cons_self
    · exact hsub (h.assoc hentry hp)
  · intro t' o p hstarted hdeleted
    have hproc : ((w.enter t f obj).threads t').procToDat p ≠ none ↔
        (t' = t ∧ p = f.ti.procId) ∨ (w.threads t').procToDat p ≠ none := by
      have hback := procToDat_enter (w := w) (t := t) (f := f) (o := obj) t' p
      split at hback
      · rename_i heq
        refine iff_of_true (fun hnone => ?_) (Or.inl heq)
        rw [hnone] at hback
        cases hback
      · rename_i hne
        rw [or_iff_right hne, ← Option.isSome_iff_ne_none, ← Option.isSome_iff_ne_none,
          ← Option.isSome_map, hback, Option.isSome_map]
    rw [core_enter, hproc]
    rcases List.mem_append.mp hstarted with hold | hnew
    · obtain ⟨hcore', hproc'⟩ := h.live hold fun hd => hdeleted (hsub hd)
      refine ⟨?_, Or.inr hproc'⟩
      split
      · exact Option.some_ne_none _
      · exact hcore'
    · obtain ⟨rfl, rfl, rfl⟩ := Note.started.inj (List.mem_singleton.mp hnew)
      exact ⟨by rw [if_pos ⟨rfl, rfl⟩]; exact Option.some_ne_none _, Or.inl ⟨rfl, rfl⟩⟩

/-- The procedures of a deleted object are those that started on it. -/
theorem erase (h : w.Enlisted) (hcalls : w.traffic.CallOrder) (t : Nat) (id : Id) :
    (w.erase P t id).Enlisted := by
  have hsub : w.log ⊆ (w.erase P t id).log := List.subset_append_left _ _
  constructor
  · intro t' o ptr procs p hentry hp
    rw [core_erase] at hentry
    split at hentry
    · cases hentry
    · exact hsub (h.assoc hentry hp)
  · intro t' o p hstarted hdeleted
    have hold : .started t' o p ∈ w.log := by
      rw [log_erase, List.mem_append, List.mem_singleton] at hstarted
      exact hstarted.resolve_right Note.noConfusion
    obtain ⟨hcore, hproc⟩ := h.live hold fun hd => hdeleted (hsub hd)
    have hother : ¬ (t' = t ∧ o = id) := by
      rintro ⟨rfl, rfl⟩
      exact hdeleted (List.mem_append_right _ List.mem_cons_self)
    rw [core_erase, if_neg hother, procToDat_erase]
    refine ⟨hcore, ?_⟩
    split
    · rename_i hmem
      obtain ⟨rfl, hp⟩ := hmem
      -- the deleted object would have started the procedure as well
      have hid : .started t' id p ∈ w.log := by
        cases hobj : (w.threads t').objInfo id with
        | none =>
          rw [ThreadData.object, hobj] at hp
          exact absurd hp List.not_mem_nil
        | some obj =>
          rw [object_eq hobj] at hp
          exact h.assoc (by rw [core, hobj, Option.map_some]) hp
      have hsame := eq_of_nodup_filterMap hcalls.tickets.once hold hid rfl rfl
      exact absurd ⟨rfl, (Note.started.inj hsame).2.1⟩ hother
    · exact hproc

theorem handled (h : w.Enlisted) (hcalls : w.traffic.CallOrder) (hw : Handled P t w w')
    (hq : w.queues t = m :: rest) : w'.Enlisted := by
  obtain ⟨-, hkeeps⟩ | ⟨f, obj, -, hobj, hkeeps⟩ | ⟨d, w₁, -, hmoves, hkeeps, herase⟩ := hw.entries hq
  · exact h.keeps hkeeps
  · have hpop : KeepsEntries w (w.pop t rest) :=
      (KeepsEntries.refl w).same (fun _ => rfl) (fun _ => rfl) rfl
    exact ((h.keeps hpop).enter hobj).keeps hkeeps
  · have hcalls' : w₁.traffic.CallOrder :=
      transGen_invariant hmoves hcalls fun _ _ hT hmove => hT.move hmove
    exact ((h.keeps hkeeps).erase hcalls' t d.ti.objId).keeps herase

end Enlisted

/-- Completions, requests of the kernel and new roots touch no entry. -/
theorem step_keepsEntries {a : Action V} (ha : ∀ t, a ≠ .dequeue t) (h : w.step P a = .ok w') :
    KeepsEntries w w' := by
  have hrefl := KeepsEntries.refl w
  cases a with
  | dequeue t => exact absurd rfl (ha t)
  | uring t =>
    simp only [step] at h
    split at h
    · refine processUring_invariant (I := KeepsEntries w) h hrefl (fun w₁ address res b hw _ => ?_)
        fun w₁ hw => hw.same (fun t' => proj_setThread w₁ t t' _ (·.objInfo) rfl)
          (fun t' => proj_setThread w₁ t t' _ (·.procToDat) rfl) rfl
      obtain ⟨queues, timers, heq⟩ := attachment_eq w₁ t res b
      rw [heq]
      have hqueues : KeepsEntries w { w₁ with queues } := hw.same (fun _ => rfl) (fun _ => rfl) rfl
      exact hqueues.same (fun t' => proj_setThread { w₁ with queues } t t' _ (·.objInfo) rfl)
        (fun t' => proj_setThread { w₁ with queues } t t' _ (·.procToDat) rfl) rfl
    · obtain rfl := Except.ok.inj h
      exact hrefl
  | complete t k res =>
    obtain rfl := Except.ok.inj h
    simp only [complete]
    split
    · exact hrefl
    · exact hrefl.same (fun t' => proj_setThread w t t' _ (·.objInfo) rfl)
        (fun t' => proj_setThread w t t' _ (·.procToDat) rfl) rfl
  | root constructor init =>
    obtain ⟨-, rfl⟩ := initializeRootEvent_eq h
    exact hrefl.same (fun _ => rfl) (fun _ => rfl) rfl
  | load _ | iterate _ =>
    obtain rfl := Except.ok.inj h
    exact hrefl.same (fun _ => rfl) (fun _ => rfl) rfl

/-- In every run, each procedure is started once, and is in the tables until its object is deleted. -/
theorem enlisted_of_reached {size : Nat} {malloc : Nat → Nat} {heap : σ}
    (h : Reached (step P) (fun _ _ => True) { size, malloc, heap } w) :
    w.traffic.CallOrder ∧ w.Enlisted := by
  have hstart : ({ size, malloc, heap } : World V σ).Enlisted := by
    refine ⟨fun hcore => ?_, fun hstarted => absurd hstarted List.not_mem_nil⟩
    cases hcore
  refine h.invariant (I := fun w => w.traffic.CallOrder ∧ w.Enlisted)
    ⟨start_callOrder size malloc heap, hstart⟩ fun w₁ a w₂ hw _ hstep => ⟨?_, ?_⟩
  · exact transGen_invariant (step_moves hstep) hw.1 fun _ _ hT hmove => hT.move hmove
  · by_cases ha : ∃ t, a = .dequeue t
    · obtain ⟨t, rfl⟩ := ha
      rcases step_dequeue hstep with rfl | ⟨-, hhandled⟩
      · exact hw.2
      · cases hq : w₁.queues t with
        | nil =>
          obtain rfl := hhandled.idle_eq hq
          exact hw.2
        | cons m rest => exact hw.2.handled hw.1 hhandled hq
    · exact hw.2.keeps (step_keepsEntries (fun t heq => ha ⟨t, heq⟩) hstep)

end World

end LocalSoftware
