import LocalSoftware.Common.Event
import LocalSoftware.Library.Transition

/-!
# A handler run as a sequence of operations

A handler is a tree of operations, of which a run makes those on one branch.
`Script.exists_operations` turns the run into the list of these operations, so that what every
operation keeps is kept by the run: `Script.run_invariant`. `Script.Uses` restricts the operations
of a handler to some of them.

`Holds` tells which children a context knows; a handler run adds none (`run_holds`).
-/

set_option autoImplicit false

namespace LocalSoftware

variable {V : Vocabulary} {α : Type}

/-- An operation of a handler. -/
inductive Operation (V : Vocabulary) where
  | construct (shared : Bool) (ty : V.TypeIndex) (fn : V.ConstructFunc)
  | callAt (ty : V.TypeIndex) (idx : Nat) (fn : V.FunctionFunc)
  | call (ty : V.TypeIndex) (fn : V.FunctionFunc)
  | uring (op : Int) (fn : V.Sqe)
  | delete (ty : V.TypeIndex) (idx : Nat)
  | attach (id : Id)
  | timer (ts : Timespec)
  | cancelTimer (id : Id)

/-- The effect of an operation on the object. -/
def EventState.apply (s : EventState V) : Operation V → Except Fault (EventState V)
  | .construct shared ty fn => .ok (s.queueConstruct shared ty fn).2
  | .callAt ty idx fn => .ok (s.callAt ty idx fn).2
  | .call ty fn => (s.call ty fn).map (·.2)
  | .uring op fn => .ok (s.queueUring op fn)
  | .delete ty idx => s.queueDelete ty idx
  | .attach id => .ok (s.queueAttach id)
  | .timer ts => .ok (s.queueTimer ts).2
  | .cancelTimer id => .ok (s.cancelTimer id)

namespace Script

/-- Every operation that a handler may make is one of `A`. -/
def Uses (A : Operation V → Prop) : Script V α → Prop
  | .pure _ => True
  | .throw _ => True
  | .construct shared ty fn k => A (.construct shared ty fn) ∧ ∀ n, (k n).Uses A
  | .callAt ty idx fn k => A (.callAt ty idx fn) ∧ ∀ l, (k l).Uses A
  | .call ty fn k => A (.call ty fn) ∧ ∀ l, (k l).Uses A
  | .uring op fn k => A (.uring op fn) ∧ k.Uses A
  | .delete ty idx k => A (.delete ty idx) ∧ k.Uses A
  | .attach id k => A (.attach id) ∧ k.Uses A
  | .timer ts k => A (.timer ts) ∧ ∀ l, (k l).Uses A
  | .cancelTimer id k => A (.cancelTimer id) ∧ k.Uses A
  | .child _ _ k => ∀ o, (k o).Uses A

variable {A : Operation V → Prop} {x : Script V α} {s s' : EventState V} {a : α}

theorem uses_of_forall (hA : ∀ op, A op) (x : Script V α) : x.Uses A := by
  induction x with
  | pure a => trivial
  | throw e => trivial
  | construct shared ty fn k ih => exact ⟨hA _, ih⟩
  | callAt ty idx fn k ih => exact ⟨hA _, ih⟩
  | call ty fn k ih => exact ⟨hA _, ih⟩
  | uring op fn k ih => exact ⟨hA _, ih⟩
  | delete ty idx k ih => exact ⟨hA _, ih⟩
  | attach id k ih => exact ⟨hA _, ih⟩
  | timer ts k ih => exact ⟨hA _, ih⟩
  | cancelTimer id k ih => exact ⟨hA _, ih⟩
  | child ty idx k ih => exact ih

/-- One operation, and then those of the rest. -/
theorem operations_cons {op : Operation V} {s₁ : EventState V} (hop : s.apply op = .ok s₁) (hA : A op)
    (h : ∃ ops, runActions EventState.apply ops s₁ = .ok s' ∧ ∀ op ∈ ops, A op) :
    ∃ ops, runActions EventState.apply ops s = .ok s' ∧ ∀ op ∈ ops, A op := by
  obtain ⟨ops, hrun, hops⟩ := h
  refine ⟨op :: ops, ?_, fun op' hop' => ?_⟩
  · simp only [runActions, hop, hrun]
  · rcases List.mem_cons.mp hop' with rfl | hop'
    · exact hA
    · exact hops op' hop'

/-- The operations that a run makes. -/
theorem exists_operations (hx : x.Uses A) (h : x.run s = .ok (a, s')) :
    ∃ ops, runActions EventState.apply ops s = .ok s' ∧ ∀ op ∈ ops, A op := by
  induction x generalizing s with
  | pure a =>
    obtain ⟨-, rfl⟩ := Prod.mk.inj (Except.ok.inj h)
    exact ⟨[], rfl, fun _ hop => absurd hop List.not_mem_nil⟩
  | throw e => cases h
  | construct shared ty fn k ih => exact operations_cons rfl hx.1 (ih _ (hx.2 _) h)
  | callAt ty idx fn k ih => exact operations_cons rfl hx.1 (ih _ (hx.2 _) h)
  | call ty fn k ih =>
    cases hcall : s.call ty fn with
    | error e =>
      simp only [run, hcall] at h
      cases h
    | ok r =>
      simp only [run, hcall] at h
      have hop : s.apply (.call ty fn) = .ok r.2 := by simp only [EventState.apply, hcall, Except.map]
      exact operations_cons hop hx.1 (ih _ (hx.2 _) h)
  | uring op fn k ih => exact operations_cons rfl hx.1 (ih hx.2 h)
  | delete ty idx k ih =>
    cases hdelete : s.queueDelete ty idx with
    | error e =>
      simp only [run, hdelete] at h
      cases h
    | ok s₁ =>
      simp only [run, hdelete] at h
      have hop : s.apply (.delete ty idx) = .ok s₁ := hdelete
      exact operations_cons hop hx.1 (ih hx.2 h)
  | attach id k ih => exact operations_cons rfl hx.1 (ih hx.2 h)
  | timer ts k ih => exact operations_cons rfl hx.1 (ih _ (hx.2 _) h)
  | cancelTimer id k ih => exact operations_cons rfl hx.1 (ih hx.2 h)
  -- a look at a child is no operation
  | child ty idx k ih =>
    cases hinfo : s.uringData.evinfo ty idx with
    | error e =>
      simp only [run, hinfo] at h
      cases h
    | ok info =>
      simp only [run, hinfo] at h
      exact ih _ (hx _) h

/-- What every operation of a handler keeps is kept by its run. -/
theorem run_invariant {K : EventState V → Prop} (hx : x.Uses A) (h : x.run s = .ok (a, s'))
    (hs : K s) (hK : ∀ s op s', K s → A op → s.apply op = .ok s' → K s') : K s' := by
  obtain ⟨ops, hrun, hops⟩ := exists_operations hx h
  clear h
  induction ops generalizing s with
  | nil =>
    obtain rfl := Except.ok.inj hrun
    exact hs
  | cons op ops ih =>
    simp only [runActions] at hrun
    split at hrun
    · cases hrun
    · rename_i s₁ hop
      exact ih (hK s op s₁ hs (hops op List.mem_cons_self) hop)
        hrun fun op' hop' => hops op' (List.mem_cons_of_mem _ hop')

end Script

/-! ## The children that a context knows -/

namespace IoUringData

/-- There is an object with this locator in a slot. -/
def Holds (d : IoUringData V) (locator : Locator) : Prop :=
  ∃ (ty : V.TypeIndex) (idx : Nat) (info : EventInfo),
    (d.slots ty)[idx]? = some (some info) ∧ info.locator = some locator

variable {d d' : IoUringData V} {locator : Locator}

/-- The slots are all that matters. -/
theorem Holds.congr (h : d.Holds locator) (hd : d'.subEvents = d.subEvents) : d'.Holds locator := by
  obtain ⟨ty, idx, info, hslot, hlocator⟩ := h
  refine ⟨ty, idx, info, ?_, hlocator⟩
  rw [IoUringData.slots, hd]
  exact hslot

theorem slots_setSlots (ty ty' : V.TypeIndex) (slots : List (Option EventInfo)) :
    (d.setSlots ty slots).slots ty' = if ty' = ty then slots else d.slots ty' := by
  unfold setSlots IoUringData.slots
  by_cases h : ty' = ty
  · subst h
    simp
  · simp [h]

/-- New slots hold what they held, if no locator is new. -/
theorem holds_of_setSlots {ty : V.TypeIndex} {slots : List (Option EventInfo)}
    (hslots : ∀ (idx : Nat) (info : EventInfo), slots[idx]? = some (some info) → info.locator = some locator →
      d.Holds locator) (h : (d.setSlots ty slots).Holds locator) : d.Holds locator := by
  obtain ⟨ty', idx, info, hslot, hlocator⟩ := h
  rw [slots_setSlots] at hslot
  split at hslot
  · exact hslots idx info hslot hlocator
  · exact ⟨ty', idx, info, hslot, hlocator⟩

end IoUringData

namespace EventState

variable {s s' : EventState V} {locator : Locator}

theorem holds_queueConstruct {shared : Bool} {ty : V.TypeIndex} {fn : V.ConstructFunc}
    (h : (s.queueConstruct shared ty fn).2.uringData.Holds locator) : s.uringData.Holds locator := by
  refine IoUringData.holds_of_setSlots (fun idx info hslot hlocator => ?_) h
  rw [IoUringData.getElem?_place (IoUringData.freeSlot_le _)] at hslot
  split at hslot
  · -- the new object has no locator yet
    obtain rfl := Option.some.inj (Option.some.inj hslot)
    cases hlocator
  · exact ⟨ty, idx, info, hslot, hlocator⟩

theorem queueDelete_eq_ok {ty : V.TypeIndex} {idx : Nat} (h : s.queueDelete ty idx = .ok s') :
    ∃ info locator, (s.uringData.slots ty)[idx]? = some (some info) ∧ info.locator = some locator ∧
      s' = { s with
        delete := s.delete ++ [{ thread := locator.threadId, objId := locator.objectId }]
        uringData := s.uringData.setSlots ty ((s.uringData.slots ty).set idx none) } := by
  unfold queueDelete at h
  split at h
  · cases h
  · rename_i info hinfo
    split at h
    · cases h
    · rename_i locator hlocator
      exact ⟨info, locator, IoUringData.evinfo_eq_ok_iff.mp hinfo, hlocator,
        (Except.ok.inj h).symm⟩

theorem holds_queueDelete {ty : V.TypeIndex} {idx : Nat} (h : s.queueDelete ty idx = .ok s')
    (hs' : s'.uringData.Holds locator) : s.uringData.Holds locator := by
  obtain ⟨info, l, -, -, rfl⟩ := queueDelete_eq_ok h
  refine IoUringData.holds_of_setSlots (fun idx' info' hslot hlocator => ?_) hs'
  rw [List.getElem?_set] at hslot
  split at hslot
  · split at hslot
    · cases hslot
    · cases hslot
  · exact ⟨ty, idx', info', hslot, hlocator⟩

/-- What an operation does to the context and to the deletions that are queued. -/
theorem holds_apply {op : Operation V} (h : s.apply op = .ok s') :
    (s'.uringData.Holds locator → s.uringData.Holds locator) ∧
    ∀ q ∈ s'.delete, q ∈ s.delete ∨ ∃ l, s.uringData.Holds l ∧
      q = { thread := l.threadId, objId := l.objectId } := by
  cases op with
  | construct shared ty fn =>
    obtain rfl := Except.ok.inj h
    exact ⟨holds_queueConstruct, fun q hq => Or.inl hq⟩
  | callAt ty idx fn =>
    obtain rfl := Except.ok.inj h
    exact ⟨fun hs' => hs'.congr rfl, fun q hq => Or.inl hq⟩
  | call ty fn =>
    obtain ⟨r, hr, rfl⟩ := exists_of_map_eq_ok h
    obtain rfl := call_eq_ok hr
    exact ⟨fun hs' => hs'.congr rfl, fun q hq => Or.inl hq⟩
  | uring op fn =>
    obtain rfl := Except.ok.inj h
    exact ⟨fun h => h, fun q hq => Or.inl hq⟩
  | delete ty idx =>
    refine ⟨holds_queueDelete h, fun q hq => ?_⟩
    obtain ⟨info, l, hslot, hlocator, rfl⟩ := queueDelete_eq_ok h
    rcases List.mem_append.mp hq with hq | hq
    · exact Or.inl hq
    · exact Or.inr ⟨l, ⟨ty, idx, info, hslot, hlocator⟩, List.mem_singleton.mp hq⟩
  | attach id =>
    obtain rfl := Except.ok.inj h
    exact ⟨fun h => h, fun q hq => Or.inl hq⟩
  | timer ts =>
    obtain rfl := Except.ok.inj h
    exact ⟨fun hs' => hs'.congr rfl, fun q hq => Or.inl hq⟩
  | cancelTimer id =>
    obtain rfl := Except.ok.inj h
    exact ⟨fun h => h, fun q hq => Or.inl hq⟩

end EventState

/-- The context of a handler holds no new objects after its run, and what the handler deletes was in
a slot before it. -/
theorem run_holds {d : IoUringData V} {x : Script V α} {a : α} {es : EventState V}
    (h : x.run { uringData := d } = .ok (a, es)) :
    (∀ l, es.uringData.Holds l → d.Holds l) ∧
      ∀ q ∈ es.delete, ∃ l, d.Holds l ∧ q = { thread := l.threadId, objId := l.objectId } := by
  refine Script.run_invariant (K := fun s => (∀ l, s.uringData.Holds l → d.Holds l) ∧
    ∀ q ∈ s.delete, ∃ l, d.Holds l ∧ q = { thread := l.threadId, objId := l.objectId })
    (Script.uses_of_forall (A := fun _ => True) (fun _ => trivial) x) h
    ⟨fun _ hl => hl, fun _ hq => absurd hq List.not_mem_nil⟩ ?_
  intro s op s' hK _ hop
  refine ⟨fun l hl => hK.1 l ((EventState.holds_apply hop).1 hl), fun q hq => ?_⟩
  rcases (@EventState.holds_apply _ _ _ ⟨none, []⟩ _ hop).2 q hq with hq | ⟨l, hl, rfl⟩
  · exact hK.2 q hq
  · exact ⟨l, hK.1 l hl, rfl⟩

end LocalSoftware
