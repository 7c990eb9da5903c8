import LocalSoftware.Common.CallOrder

/-!
# Results are those of the calls

For any program on any number of threads: what `on_yield` of an object receives as the result of a
call, is the result of a procedure that this object and procedure called, as it was reported. Of the
reported results each thread receives some, in the order of the reports (`resultsInOrder`).
-/

set_option autoImplicit false

namespace LocalSoftware

variable {V : Vocabulary} {σ : Type}

namespace Note

/-- The result that was reported. -/
def result : Note → Option (Id × CallStatus × Int)
  | .reported q s c => some (q, s, c)
  | _ => none

/-- The result that was delivered on a thread. -/
def resultOn (t : Nat) : Note → Option (Id × CallStatus × Int)
  | .delivered t' d _ => if t' = t then d.result else none
  | _ => none

/-- Nothing is reported and no result is delivered. -/
def Resultless (n : Note) : Prop := n.result = none ∧ ∀ t, n.resultOn t = none

end Note

/-- The result that a message carries. -/
def EventVariant.result : EventVariant V → Option (Id × CallStatus × Int)
  | .data d => d.result
  | _ => none

/-- The procedure `q` has no caller on a thread, or this one called it. -/
def Calls (L : List Note) (q : Id) (caller : ThreadId × Id × Id) : Prop :=
  ∀ t, caller.1 = some t → ∃ l, .called t caller.2.1 caller.2.2 q l ∈ L

theorem Calls.mono {L L' : List Note} {q : Id} {caller : ThreadId × Id × Id} (h : Calls L q caller)
    (hL : L ⊆ L') : Calls L' q caller := by
  intro t ht
  obtain ⟨l, hl⟩ := h t ht
  exact ⟨l, hL hl⟩

namespace Traffic

variable {T T' : Traffic V} {t : Nat} {m : EventVariant V} {rest : List (EventVariant V)}

/-- The results that were reported, in this order. -/
def results (T : Traffic V) : List (Id × CallStatus × Int) := T.log.filterMap Note.result

/-- The results that `on_yield` received on a thread. -/
def delivered (T : Traffic V) (t : Nat) : List (Id × CallStatus × Int) :=
  T.log.filterMap (Note.resultOn t)

/-- The results that wait in a queue. -/
def underway (T : Traffic V) (t : Nat) : List (Id × CallStatus × Int) :=
  (T.queues t).filterMap EventVariant.result

/-- Results are received in order, and by those who called. -/
structure ResultOrder (T : Traffic V) : Prop where
  order : InOrder T.results T.delivered T.underway
  calls : ∀ {t f}, .functionCall f ∈ T.queues t →
    Calls T.log f.ti.procId (f.ci.threadId, f.ci.objId, f.ci.procId)
  entered : ∀ {t p c}, T.entered t p = some c → Calls T.log p c
  answers : ∀ {t d q s c}, .data d ∈ T.queues t → d.result = some (q, s, c) →
    ∃ l, .called t d.ti.objId d.ti.procId q l ∈ T.log
  answered : ∀ {t d e q s c}, .delivered t d e ∈ T.log → d.result = some (q, s, c) →
    ∃ l, .called t d.ti.objId d.ti.procId q l ∈ T.log

/-- No result is reported, sent or delivered, and what is called and entered has its caller. -/
structure SameResults (T T' : Traffic V) : Prop where
  messages : ∀ {t m}, m ∈ T'.queues t → m ∈ T.queues t ∨ m.result = none ∧
    ∀ f, m = .functionCall f → Calls T'.log f.ti.procId (f.ci.threadId, f.ci.objId, f.ci.procId)
  underway : ∀ t, (T'.underway t).Sublist (T.underway t)
  entered : ∀ {t p c}, T'.entered t p = some c → T.entered t p = some c ∨ Calls T'.log p c
  log : ∃ ns, T'.log = T.log ++ ns ∧ ∀ n ∈ ns, n.Resultless

namespace SameResults

theorem refl (T : Traffic V) : SameResults T T where
  messages hm := Or.inl hm
  underway _ := List.Sublist.refl _
  entered hc := Or.inl hc
  log := ⟨[], (List.append_nil _).symm, fun _ hn => absurd hn List.not_mem_nil⟩

theorem note (h : SameResults T T') {n : Note} (hn : n.Resultless) : SameResults T (T'.note n) where
  messages hm := (h.messages hm).imp_right fun hm =>
    ⟨hm.1, fun f hf => (hm.2 f hf).mono (List.subset_append_left _ _)⟩
  underway := h.underway
  entered hc := (h.entered hc).imp_right fun hc => hc.mono (List.subset_append_left _ _)
  log := by
    obtain ⟨ns, hns, hnone⟩ := h.log
    refine ⟨ns ++ [n], by rw [← List.append_assoc, ← hns]; rfl, fun n' hn' => ?_⟩
    rcases List.mem_append.mp hn' with hn' | hn'
    · exact hnone n' hn'
    · exact List.mem_singleton.mp hn' ▸ hn

theorem push (h : SameResults T T') (t : Nat) (hm : m.result = none)
    (hcall : ∀ f, m = .functionCall f →
      Calls T'.log f.ti.procId (f.ci.threadId, f.ci.objId, f.ci.procId)) :
    SameResults T (T'.push t m) :=
  { h with
    messages := fun {t' m'} hm' => by
      rw [queues_push] at hm'
      split at hm'
      · rcases List.mem_append.mp hm' with hm' | hm'
        · exact h.messages hm'
        · obtain rfl := List.mem_singleton.mp hm'
          exact Or.inr ⟨hm, hcall⟩
      · exact h.messages hm'
    underway := fun t' => by
      rw [Traffic.underway, filterMap_push_none _ _ _ _ _ hm]
      exact h.underway t' }

theorem pop (T : Traffic V) (hq : T.queues t = m :: rest) : SameResults T (T.pop t rest) :=
  { refl T with
    messages := fun {t' m'} hm' => by
      rw [queues_pop] at hm'
      split at hm'
      · rename_i ht
        rw [ht, hq]
        exact Or.inl (List.mem_cons_of_mem _ hm')
      · exact Or.inl hm'
    underway := fun t' => by
      rw [Traffic.underway, filterMap_pop]
      split
      · rename_i ht
        rw [ht, Traffic.underway, hq]
        exact (List.sublist_cons_self m rest).filterMap _
      · exact List.Sublist.refl _ }

theorem enter (h : SameResults T T') (t : Nat) {f : FunctionCall V}
    (hf : Calls T'.log f.ti.procId (f.ci.threadId, f.ci.objId, f.ci.procId)) :
    SameResults T (T'.enter t f) :=
  { h with
    entered := fun {t' p c} hc => by
      simp only [Traffic.enter] at hc
      split at hc
      · rename_i heq
        obtain rfl := Option.some.inj hc
        exact Or.inr (heq.2 ▸ hf)
      · exact h.entered hc }

end SameResults

namespace ResultOrder

theorem subset (hlog : ∃ ns, T'.log = T.log ++ ns) : T.log ⊆ T'.log := by
  obtain ⟨ns, hns⟩ := hlog
  rw [hns]
  exact List.subset_append_left _ _

theorem same (h : T.ResultOrder) (hT : SameResults T T') : T'.ResultOrder := by
  obtain ⟨ns, hlog, hnone⟩ := hT.log
  have hsubset : T.log ⊆ T'.log := subset ⟨ns, hlog⟩
  have hresults : T'.results = T.results := by
    unfold results
    rw [hlog, CallOrder.filterMap_eq fun n hn => (hnone n hn).1]
  have hdelivered : T'.delivered = T.delivered := by
    funext t
    unfold delivered
    rw [hlog, CallOrder.filterMap_eq fun n hn => (hnone n hn).2 t]
  refine ⟨?_, fun hm => ?_, fun hc => ?_, fun hm hd => ?_, fun {t d e q s c} hn hd => ?_⟩
  · rw [hresults, hdelivered]
    exact h.order.drop hT.underway
  · rcases hT.messages hm with hm | ⟨-, hm⟩
    · exact (h.calls hm).mono hsubset
    · exact hm _ rfl
  · exact (hT.entered hc).elim (fun hc => (h.entered hc).mono hsubset) id
  · rcases hT.messages hm with hm | ⟨hm, -⟩
    · obtain ⟨l, hl⟩ := h.answers hm hd
      exact ⟨l, hsubset hl⟩
    · cases hm.symm.trans hd
  · rw [hlog] at hn
    rcases List.mem_append.mp hn with hn | hn
    · obtain ⟨l, hl⟩ := h.answered hn hd
      exact ⟨l, hsubset hl⟩
    · have hresult := (hnone _ hn).2 t
      simp only [Note.resultOn, if_true] at hresult
      cases hresult.symm.trans hd

/-- A result is reported, and nobody is told. -/
theorem result (h : T.ResultOrder) (q : Id) (s : CallStatus) (c : Int) :
    (T.note (.reported q s c)).ResultOrder where
  order := by
    have hresults : (T.note (.reported q s c)).results = T.results ++ [(q, s, c)] :=
      List.filterMap_append
    have hdelivered : (T.note (.reported q s c)).delivered = T.delivered := by
      funext t
      exact CallOrder.filterMap_eq fun n hn => List.mem_singleton.mp hn ▸ rfl
    rw [hresults, hdelivered]
    exact h.order.skip _
  calls hm := (h.calls hm).mono (List.subset_append_left _ _)
  entered hc := (h.entered hc).mono (List.subset_append_left _ _)
  answers hm hd := by
    obtain ⟨l, hl⟩ := h.answers hm hd
    exact ⟨l, List.mem_append_left _ hl⟩
  answered hn hd := by
    have hold := (List.mem_append.mp hn).resolve_right (by simp)
    obtain ⟨l, hl⟩ := h.answered hold hd
    exact ⟨l, List.mem_append_left _ hl⟩

/-- A result is sent to the caller that is entered. -/
theorem completion (h : T.ResultOrder) {t t' : Nat} {d : Data} {q : Id} {s : CallStatus} {c : Int}
    (hd : d.result = some (q, s, c))
    (hcaller : T.entered t q = some (some t', d.ti.objId, d.ti.procId)) :
    ((T.note (.reported q s c)).push t' (.data d)).ResultOrder := by
  obtain ⟨l, hl⟩ := h.entered hcaller t' rfl
  have hreported := h.result q s c
  refine ⟨?_, fun {t₁ f} hm => ?_, hreported.entered, fun {t₁ d' q' s' c'} hm hd' => ?_,
    hreported.answered⟩
  · have hresults : ((T.note (.reported q s c)).push t' (.data d)).results =
        T.results ++ [(q, s, c)] := List.filterMap_append
    have hdelivered : ((T.note (.reported q s c)).push t' (.data d)).delivered = T.delivered := by
      funext t
      exact CallOrder.filterMap_eq fun n hn => List.mem_singleton.mp hn ▸ rfl
    rw [hresults, hdelivered]
    exact h.order.emit fun t₁ => filterMap_push_some (T.note (.reported q s c)) t' t₁ (.data d)
      EventVariant.result hd
  · rw [queues_push] at hm
    split at hm
    · exact hreported.calls ((List.mem_append.mp hm).resolve_right (by simp))
    · exact hreported.calls hm
  · rw [queues_push] at hm
    split at hm
    · rename_i ht
      subst ht
      rcases List.mem_append.mp hm with hm | hm
      · exact hreported.answers hm hd'
      · -- the new message answers the call that was entered
        obtain rfl := EventVariant.data.inj (List.mem_singleton.mp hm)
        obtain ⟨rfl, -⟩ := Prod.mk.inj (Option.some.inj (hd.symm.trans hd'))
        exact ⟨l, List.mem_append_left _ hl⟩
    · exact hreported.answers hm hd'

/-- A result is received. -/
theorem receive (h : T.ResultOrder) {d : Data} {event : EventType} {r : Id × CallStatus × Int}
    (hq : T.queues t = .data d :: rest) (hd : d.result = some r) :
    ((T.pop t rest).note (.delivered t d event)).ResultOrder := by
  have hpop := h.same (SameResults.pop T hq)
  refine ⟨?_, fun hm => (hpop.calls hm).mono (List.subset_append_left _ _),
    fun hc => (hpop.entered hc).mono (List.subset_append_left _ _), fun hm hd' => ?_,
    fun {t' d' e q s c} hn hd' => ?_⟩
  · have hresults : ((T.pop t rest).note (.delivered t d event)).results = T.results :=
      CallOrder.filterMap_eq fun n hn => List.mem_singleton.mp hn ▸ rfl
    have hhead : T.underway t = r :: rest.filterMap EventVariant.result := by
      rw [underway, hq, List.filterMap_cons]
      simp only [EventVariant.result, hd]
    rw [hresults]
    refine h.order.receive hhead (fun t' => filterMap_pop T t t' rest _) fun t' => ?_
    refine Eq.trans List.filterMap_append ?_
    split
    · rename_i heq
      have hon : Note.resultOn t' (.delivered t d event) = some r := by
        rw [heq, Note.resultOn, if_pos rfl, hd]
      rw [List.filterMap_cons, hon]
      rfl
    · rename_i hne
      have hon : Note.resultOn t' (.delivered t d event) = none := if_neg (Ne.symm hne)
      rw [List.filterMap_cons, hon]
      exact List.append_nil _
  · obtain ⟨l, hl⟩ := hpop.answers hm hd'
    exact ⟨l, List.mem_append_left _ hl⟩
  · rcases List.mem_append.mp hn with hn | hn
    · obtain ⟨l, hl⟩ := hpop.answered hn hd'
      exact ⟨l, List.mem_append_left _ hl⟩
    · obtain ⟨rfl, rfl, -⟩ := Note.delivered.inj (List.mem_singleton.mp hn)
      have hmem : EventVariant.data d' ∈ T.queues t' := hq ▸ List.mem_cons_self
      obtain ⟨l, hl⟩ := h.answers hmem hd'
      exact ⟨l, List.mem_append_left _ hl⟩

/-- Every move keeps the order of the results. -/
theorem move (h : T.ResultOrder) (hT : Move T T') : T'.ResultOrder := by
  have hnotCall : ∀ {m : EventVariant V} {L : List Note}, (∀ f, m ≠ .functionCall f) → ∀ f,
      m = .functionCall f → Calls L f.ti.procId (f.ci.threadId, f.ci.objId, f.ci.procId) :=
    fun hm f hf => absurd hf (hm f)
  cases hT with
  | construct t c hc =>
    have hdraw : SameResults T (T.drawObj (some t)) := { SameResults.refl T with }
    exact h.same (hdraw.push t rfl (hnotCall (by simp)))
  | call t target f l htarget hf hci =>
    have hdraw : SameResults T (T.drawProc (some t)) := { SameResults.refl T with }
    refine h.same ((hdraw.note (n := .called t f.ci.objId f.ci.procId f.ti.procId l)
      ⟨rfl, fun _ => rfl⟩).push target rfl fun f' hf' t' ht' => ?_)
    obtain rfl := EventVariant.functionCall.inj hf'
    obtain rfl := Option.some.inj (hci.symm.trans ht')
    exact ⟨l, List.mem_append_right _ List.mem_cons_self⟩
  | delete t d => exact h.same ((SameResults.refl T).push t rfl (hnotCall (by simp)))
  | aside n hn =>
    refine h.same ((SameResults.refl T).note ?_)
    rcases hn with hn | ⟨t, o, rfl⟩
    · cases n <;> first | exact ⟨rfl, fun _ => rfl⟩ | exact absurd hn id
    · exact ⟨rfl, fun _ => rfl⟩
  | result q s c => exact h.result q s c
  | completion t t' d q s c hd hcaller => exact h.completion hd hcaller
  | data t d hd => exact h.same ((SameResults.refl T).push t hd (hnotCall (by simp)))
  | started t f rest ht hq =>
    have hcalls := h.calls (t := t) (f := f) (hq ▸ List.mem_cons_self)
    exact h.same (((SameResults.pop T hq).enter t hcalls).note ⟨rfl, fun _ => rfl⟩)
  | delivered t d event rest hq =>
    cases hd : d.result with
    | some r => exact h.receive hq hd
    | none =>
      refine h.same ((SameResults.pop T hq).note ⟨rfl, fun t' => ?_⟩)
      simp only [Note.resultOn, hd, ite_self]
  | taken t m rest hq hm => exact h.same (SameResults.pop T hq)
  | root t r c f rest ht hq hc hf hci =>
    refine h.same (((SameResults.pop T hq).push t rfl (hnotCall (by simp))).push t rfl ?_)
    intro f' hf' t' ht'
    obtain rfl := EventVariant.functionCall.inj hf'
    cases hci.symm.trans ht'
  | forget entered hentered =>
    refine h.same { SameResults.refl T with entered := fun {t p c} hc => Or.inl ?_ }
    rcases hentered t p with hnone | heq
    · cases hnone.symm.trans hc
    · rw [← heq]
      exact hc
  | rootEvent r hsize hr =>
    have hdraw : SameResults T ((T.drawObj none).drawProc none) := { SameResults.refl T with }
    exact h.same (hdraw.push 0 rfl (hnotCall (by simp)))

end ResultOrder

end Traffic

namespace World

/-- The results of calls go to the callers, in order. -/
structure ResultsInOrder (w : World V σ) : Prop where
  /-- What a thread has received and what waits for it is a part of what was reported. -/
  order : ∀ t, (w.traffic.delivered t ++ w.traffic.underway t).Sublist w.traffic.results
  /-- The object and the procedure that receive a result called the procedure that has it. -/
  answered : ∀ t d e q s c, .delivered t d e ∈ w.log → d.result = some (q, s, c) →
    ∃ l, .called t d.ti.objId d.ti.procId q l ∈ w.log
  /-- No other thread, object or procedure receives results of a procedure. -/
  unique : ∀ t t' d d' e e' q s s' c c', .delivered t d e ∈ w.log → .delivered t' d' e' ∈ w.log →
    d.result = some (q, s, c) → d'.result = some (q, s', c') → t = t' ∧ d.ti = d'.ti

theorem target_ext {ti ti' : TargetInfo} (ho : ti.objId = ti'.objId) (hp : ti.procId = ti'.procId) :
    ti = ti' := by
  cases ti
  cases ti'
  exact congrArg₂ TargetInfo.mk ho hp

/-- In every run on any number of threads, results are received by those who called, and in order. -/
theorem resultsInOrder (P : Program V σ) (size : Nat) (malloc : Nat → Nat) (heap : σ)
    (w : World V σ) (h : Reached (step P) (fun _ _ => True) { size, malloc, heap } w) :
    w.ResultsInOrder := by
  have hstart : ({ size, malloc, heap } : World V σ).traffic.ResultOrder := {
    order := inOrder_empty
    calls := fun hm => absurd hm List.not_mem_nil
    entered := fun hc => by cases hc
    answers := fun hm => absurd hm List.not_mem_nil
    answered := fun hn => absurd hn List.not_mem_nil }
  have hinv : w.traffic.ResultOrder := moves_invariant h hstart fun T T' hT hmove => hT.move hmove
  have hcalls : w.traffic.CallOrder :=
    moves_invariant h (start_callOrder size malloc heap) fun T T' hT hmove => hT.move hmove
  refine ⟨hinv.order, fun t d e q s c hn hd => hinv.answered hn hd,
    fun t t' d d' e e' q s s' c c' hn hn' hd hd' => ?_⟩
  obtain ⟨l, hl⟩ := hinv.answered hn hd
  obtain ⟨l', hl'⟩ := hinv.answered hn' hd'
  -- no procedure was called twice
  have hsame := eq_of_nodup_filterMap hcalls.nodup hl hl' rfl rfl
  obtain ⟨ht, ho, hp, -⟩ := Note.called.inj hsame
  exact ⟨ht, target_ext ho hp⟩

/-- A parent has received the result of its child. -/
theorem family_results : ∃ w, Reached (step (family false)) (fun _ _ => True) family₀ w ∧
    w.traffic.delivered 0 = [(some 1000, .finished, 7)] ∧ w.ResultsInOrder := by
  have hdelivered : (runActions (step (family false)) familyActions family₀).map
      (fun w => w.traffic.delivered 0) = .ok [(some 1000, .finished, 7)] := by
    decide +kernel
  obtain ⟨w, hrun, hdelivered⟩ := exists_of_map_eq_ok hdelivered
  have hreached : Reached (step (family false)) (fun _ _ => True) family₀ w :=
    reached_of_runActions .start (meets_true _ _) hrun
  exact ⟨w, hreached, hdelivered, resultsInOrder (family false) 1 id () w hreached⟩

end World

end LocalSoftware
