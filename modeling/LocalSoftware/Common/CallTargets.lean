import LocalSoftware.Common.QueuedPhases
import Mathlib.Data.List.Nodup

/-!
# Where the calls of a handler run go

A call `c(idx, f)` is queued with the index of a slot, and `process_queued` looks the object up when
the handler has returned. `Traced` follows the objects in the slots through the operations of the
handler, so that the object that a call was made on can be compared with the one it is sent to.
`reaches_iff` says when they are the same.
-/

set_option autoImplicit false

namespace LocalSoftware

variable {V : Vocabulary} {σ : Type}

theorem getElem?_concat_cases {α : Type} {l : List α} {a b : α} {k : Nat}
    (h : (l ++ [a])[k]? = some b) : l[k]? = some b ∨ (k = l.length ∧ b = a) := by
  rcases Nat.lt_or_ge k l.length with hk | hk
  · rw [List.getElem?_append_left hk] at h
    exact Or.inl h
  · rw [List.getElem?_append_right hk, List.getElem?_singleton] at h
    split at h
    · exact Or.inr ⟨by omega, (Option.some.inj h).symm⟩
    · cases h

theorem pair_sublist {α : Type} {l : List α} {a b : α} {j k : Nat} (hlt : j < k)
    (hj : l[j]? = some a) (hk : l[k]? = some b) : [a, b].Sublist l := by
  induction l generalizing j k with
  | nil => cases hj
  | cons x l ih =>
    cases k with
    | zero => exact absurd hlt (Nat.not_lt_zero j)
    | succ k =>
      cases j with
      | zero =>
        obtain rfl := Option.some.inj hj
        exact List.Sublist.cons_cons x (List.singleton_sublist.mpr (List.mem_of_getElem? hk))
      | succ j => exact (ih (Nat.lt_of_succ_lt_succ hlt) hj hk).cons x

/-! ## The slots during a handler run -/

/-- The object in a slot: one that was there before the run, or that of the `n`-th construction that
the run queued. -/
inductive Occupant where
  | placed (locator : Option Locator)
  | queued (n : Nat)
deriving DecidableEq, Repr

/-- A handler run with history variables: the objects in the slots, the object that each queued call
was made on, and the objects that were deleted. -/
structure Traced (V : Vocabulary) where
  state : EventState V
  occupant : V.TypeIndex → Nat → Option Occupant
  calls : List (Option Occupant) := []
  deleted : List Occupant := []

namespace Traced

/-- A handler run begins with the context of its object. -/
def start (d : IoUringData V) : Traced V where
  state := { uringData := d }
  occupant ty idx := (d.slot ty idx).map fun info => .placed info.locator

/-- Another object in a slot. -/
def setOccupant (tr : Traced V) (ty : V.TypeIndex) (idx : Nat) (o : Option Occupant) :
    V.TypeIndex → Nat → Option Occupant :=
  fun ty' idx' => if ty' = ty ∧ idx' = idx then o else tr.occupant ty' idx'

/-- The slot in which an operation puts an object, calls one or deletes one. -/
def slotOf (tr : Traced V) : Operation V → Option (V.TypeIndex × Nat)
  | .construct _ ty _ => some (ty, IoUringData.freeSlot (tr.state.uringData.slots ty))
  | .callAt ty idx _ => some (ty, idx)
  | .call ty _ => some (ty, (tr.state.uringData.slots ty).findIdx fun o => o.isSome)
  | .delete ty idx => some (ty, idx)
  | _ => none

/-- No slot of a call was given to another object since: it is empty or holds the object that the
call was made on. -/
def KeepsSlots (tr : Traced V) : Prop :=
  ∀ (k : Nat) (q : EventQueuedFunction V) (occ : Option Occupant),
    tr.state.function[k]? = some q → tr.calls[k]? = some occ →
      tr.occupant q.idx q.vidx = none ∨ tr.occupant q.idx q.vidx = occ

/-- The effect of an operation on the history variables. -/
def follow (tr : Traced V) (s : EventState V) (op : Operation V) : Traced V :=
  match op, tr.slotOf op with
  | .construct _ _ _, some (ty, idx) =>
    { tr with
      state := s
      occupant := tr.setOccupant ty idx (some (.queued tr.state.construct.length)) }
  | .callAt _ _ _, some (ty, idx) =>
    { tr with state := s, calls := tr.calls ++ [tr.occupant ty idx] }
  | .call _ _, some (ty, idx) =>
    { tr with state := s, calls := tr.calls ++ [tr.occupant ty idx] }
  | .delete _ _, some (ty, idx) =>
    { tr with
      state := s
      occupant := tr.setOccupant ty idx none
      deleted := tr.deleted ++ (tr.occupant ty idx).toList }
  | _, _ => { tr with state := s }

theorem state_follow (tr : Traced V) (s : EventState V) (op : Operation V) :
    (tr.follow s op).state = s := by
  cases op <;> rfl

end Traced

namespace Script

variable {α : Type}

/-- A handler run with its history variables. -/
def traced : Script V α → Traced V → Except Fault (α × Traced V)
  | .pure a, tr => .ok (a, tr)
  | .throw e, _ => .error e
  | .construct shared ty fn k, tr =>
    let r := tr.state.queueConstruct shared ty fn
    (k r.1).traced (tr.follow r.2 (.construct shared ty fn))
  | .callAt ty idx fn k, tr =>
    let r := tr.state.callAt ty idx fn
    (k r.1).traced (tr.follow r.2 (.callAt ty idx fn))
  | .call ty fn k, tr =>
    match tr.state.call ty fn with
    | .error e => .error e
    | .ok (l, s) => (k l).traced (tr.follow s (.call ty fn))
  | .uring op fn k, tr => k.traced (tr.follow (tr.state.queueUring op fn) (.uring op fn))
  | .delete ty idx k, tr =>
    match tr.state.queueDelete ty idx with
    | .error e => .error e
    | .ok s => k.traced (tr.follow s (.delete ty idx))
  | .attach id k, tr => k.traced (tr.follow (tr.state.queueAttach id) (.attach id))
  | .timer ts k, tr =>
    let r := tr.state.queueTimer ts
    (k r.1).traced (tr.follow r.2 (.timer ts))
  | .cancelTimer id k, tr => k.traced (tr.follow (tr.state.cancelTimer id) (.cancelTimer id))
  | .child ty idx k, tr =>
    match tr.state.uringData.evinfo ty idx with
    | .error e => .error e
    | .ok info => (k info.event).traced tr

variable {x : Script V α} {tr tr' : Traced V} {a : α}

/-- The history variables take no part in the run. -/
theorem traced_run (x : Script V α) (tr : Traced V) :
    (x.traced tr).map (fun r => (r.1, r.2.state)) = x.run tr.state := by
  induction x generalizing tr with
  | pure a => rfl
  | throw e => rfl
  | construct shared ty fn k ih => exact ih _ _
  | callAt ty idx fn k ih => exact ih _ _
  | call ty fn k ih =>
    simp only [traced, run]
    cases tr.state.call ty fn with
    | error e => rfl
    | ok r => exact ih _ _
  | uring op fn k ih => exact ih _
  | delete ty idx k ih =>
    simp only [traced, run]
    cases tr.state.queueDelete ty idx with
    | error e => rfl
    | ok s => exact (ih _).trans (by rw [Traced.state_follow])
  | attach id k ih => exact ih _
  | timer ts k ih => exact ih _ _
  | cancelTimer id k ih => exact ih _
  | child ty idx k ih =>
    simp only [traced, run]
    cases tr.state.uringData.evinfo ty idx with
    | error e => rfl
    | ok info => exact ih _ _

/-- Every run can be traced. -/
theorem exists_traced {es : EventState V} (tr : Traced V) (h : x.run tr.state = .ok (a, es)) :
    ∃ tr', x.traced tr = .ok (a, tr') ∧ tr'.state = es := by
  rw [← traced_run] at h
  obtain ⟨⟨a', tr'⟩, htraced, heq⟩ := exists_of_map_eq_ok h
  obtain ⟨rfl, hstate⟩ := Prod.mk.inj heq
  exact ⟨tr', htraced, hstate⟩

/-- What every operation keeps is kept by the run. -/
theorem traced_invariant {K : Traced V → Prop} (h : x.traced tr = .ok (a, tr')) (htr : K tr)
    (hK : ∀ tr op s, K tr → tr.state.apply op = .ok s → K (tr.follow s op)) : K tr' := by
  induction x generalizing tr with
  | pure a =>
    obtain ⟨-, rfl⟩ := Prod.mk.inj (Except.ok.inj h)
    exact htr
  | throw e => cases h
  | construct shared ty fn k ih => exact ih _ h (hK _ _ _ htr rfl)
  | callAt ty idx fn k ih => exact ih _ h (hK _ _ _ htr rfl)
  | call ty fn k ih =>
    simp only [traced] at h
    split at h
    · cases h
    · rename_i l s hcall
      refine ih _ h (hK _ _ _ htr ?_)
      simp only [EventState.apply, hcall, Except.map]
  | uring op fn k ih => exact ih h (hK _ _ _ htr rfl)
  | delete ty idx k ih =>
    simp only [traced] at h
    split at h
    · cases h
    · rename_i s hdelete
      exact ih h (hK _ _ _ htr hdelete)
  | attach id k ih => exact ih h (hK _ _ _ htr rfl)
  | timer ts k ih => exact ih _ h (hK _ _ _ htr rfl)
  | cancelTimer id k ih => exact ih h (hK _ _ _ htr rfl)
  | child ty idx k ih =>
    simp only [traced] at h
    split at h
    · cases h
    · exact ih _ h htr

end Script

namespace Traced

variable {d : IoUringData V} {tr tr' : Traced V}

/-- What is in a slot goes with its object: an object that was there before the run keeps its
locator, and one that was constructed in it has none yet. -/
def Fits (d : IoUringData V) (tr : Traced V) (ty : V.TypeIndex) (idx : Nat) : Prop :=
  match tr.occupant ty idx with
  | none => tr.state.uringData.slot ty idx = none
  | some (.placed l) => (∃ info, tr.state.uringData.slot ty idx = some info ∧ info.locator = l) ∧
      ∀ locator, l = some locator → d.Holds locator
  | some (.queued n) => tr.state.uringData.slot ty idx = some {} ∧
      ∃ q, tr.state.construct[n]? = some q ∧ q.idx = ty ∧ q.vidx = idx

/-- The objects in the slots, the constructions and the calls of a handler run from the context
`d`. -/
structure Inv (d : IoUringData V) (tr : Traced V) : Prop where
  fits : ∀ ty idx, tr.Fits d ty idx
  constructed : ∀ {n : Nat} {q : EventQueuedConstruct V}, tr.state.construct[n]? = some q →
    tr.occupant q.idx q.vidx = some (.queued n)
  length : tr.calls.length = tr.state.function.length
  /-- The object of a call is still in its slot, or deleted. -/
  called : ∀ {k : Nat} {q : EventQueuedFunction V} {occ : Option Occupant},
    tr.state.function[k]? = some q → tr.calls[k]? = some occ → tr.occupant q.idx q.vidx = occ ∨
      ((∀ l, tr.occupant q.idx q.vidx ≠ some (.placed l)) ∧ ∀ x, occ = some x → x ∈ tr.deleted)
  deleted : ∀ {x}, x ∈ tr.deleted → ∃ locator, x = .placed (some locator) ∧ d.Holds locator
  localId : ∀ {k : Nat} {q : EventQueuedFunction V}, tr.state.function[k]? = some q →
    q.localId = some (d.localProcId + k)
  localProcId : tr.state.uringData.localProcId = d.localProcId + tr.state.function.length

theorem start_inv (d : IoUringData V) : (start d).Inv d where
  fits ty idx := by
    unfold Fits start
    cases hslot : d.slot ty idx with
    | none => simp [hslot]
    | some info =>
      simp only [hslot, Option.map_some]
      refine ⟨⟨info, rfl, rfl⟩, fun locator hl => ?_⟩
      exact ⟨ty, idx, info, IoUringData.slot_eq_some_iff.mp hslot, hl⟩
  constructed h := by simp [start] at h
  length := rfl
  called h := by simp [start] at h
  deleted h := absurd h List.not_mem_nil
  localId h := by simp [start] at h
  localProcId := rfl

/-- An operation that leaves slots, constructions and calls alone. -/
theorem Inv.same (h : tr.Inv d) {s : EventState V}
    (hsub : s.uringData.subEvents = tr.state.uringData.subEvents)
    (hproc : s.uringData.localProcId = tr.state.uringData.localProcId)
    (hconstruct : s.construct = tr.state.construct) (hfunction : s.function = tr.state.function) :
    ({ tr with state := s } : Traced V).Inv d where
  fits ty idx := by
    have hfits := h.fits ty idx
    unfold Fits at hfits ⊢
    simp only [IoUringData.slot_congr hsub, hconstruct]
    exact hfits
  constructed hq := h.constructed (hconstruct ▸ hq)
  length := by
    show tr.calls.length = s.function.length
    rw [hfunction]
    exact h.length
  called hq hocc := h.called (hfunction ▸ hq) hocc
  deleted hx := h.deleted hx
  localId hq := h.localId (hfunction ▸ hq)
  localProcId := by
    show s.uringData.localProcId = d.localProcId + s.function.length
    rw [hproc, hfunction]
    exact h.localProcId

theorem Inv.callAt (h : tr.Inv d) (ty : V.TypeIndex) (idx : Nat) (fn : V.FunctionFunc) :
    ({ tr with
      state := (tr.state.callAt ty idx fn).2
      calls := tr.calls ++ [tr.occupant ty idx] } : Traced V).Inv d where
  fits := h.fits
  constructed hq := h.constructed hq
  length := by
    show (tr.calls ++ [_]).length = (tr.state.function ++ [_]).length
    rw [List.length_append, List.length_append, h.length]
    rfl
  called {k q occ} hq hocc := by
    change (tr.state.function ++ [_])[k]? = some q at hq
    change (tr.calls ++ [_])[k]? = some occ at hocc
    rcases getElem?_concat_cases hq with hq | ⟨hk, rfl⟩
    · rw [List.getElem?_append_left (h.length ▸ (List.getElem?_eq_some_iff.mp hq).1)] at hocc
      exact h.called hq hocc
    · -- the call that was queued now
      rw [hk, ← h.length, List.getElem?_concat_length] at hocc
      exact Or.inl (Option.some.inj hocc)
  deleted hx := h.deleted hx
  localId {k q} hq := by
    change (tr.state.function ++ [_])[k]? = some q at hq
    rcases getElem?_concat_cases hq with hq | ⟨rfl, rfl⟩
    · exact h.localId hq
    · exact congrArg some h.localProcId
  localProcId := by
    show tr.state.uringData.localProcId + 1 = d.localProcId + (tr.state.function ++ [_]).length
    rw [h.localProcId, List.length_append]
    rfl

theorem Inv.construct (h : tr.Inv d) (shared : Bool) (ty : V.TypeIndex) (fn : V.ConstructFunc) :
    ({ tr with
      state := (tr.state.queueConstruct shared ty fn).2
      occupant := tr.setOccupant ty (IoUringData.freeSlot (tr.state.uringData.slots ty))
        (some (.queued tr.state.construct.length)) } : Traced V).Inv d := by
  -- the slot that is found free had no occupant
  have hempty : tr.occupant ty (IoUringData.freeSlot (tr.state.uringData.slots ty)) = none := by
    have hfits := h.fits ty (IoUringData.freeSlot (tr.state.uringData.slots ty))
    unfold Fits at hfits
    split at hfits
    · assumption
    · obtain ⟨⟨info, hslot, -⟩, -⟩ := hfits
      cases IoUringData.slot_freeSlot.symm.trans hslot
    · cases IoUringData.slot_freeSlot.symm.trans hfits.1
  have hold : ∀ {n : Nat} {q : EventQueuedConstruct V}, tr.state.construct[n]? = some q →
      (tr.state.queueConstruct shared ty fn).2.construct[n]? = some q := fun {n q} hq =>
    (List.getElem?_append_left (List.getElem?_eq_some_iff.mp hq).1).trans hq
  exact {
    fits := fun ty' idx' => by
      have hslot : (tr.state.queueConstruct shared ty fn).2.uringData.slot ty' idx' = _ :=
        IoUringData.slot_place {}
      have hfits := h.fits ty' idx'
      unfold Fits at hfits ⊢
      simp only [setOccupant, hslot]
      -- the occupant of the slot is the construction that is queued now
      by_cases hnew : ty' = ty ∧ idx' = IoUringData.freeSlot (tr.state.uringData.slots ty)
      · rw [if_pos hnew, if_pos hnew]
        refine ⟨rfl, _, List.getElem?_concat_length, hnew.1.symm, hnew.2.symm⟩
      · rw [if_neg hnew, if_neg hnew]
        cases hocc : tr.occupant ty' idx' with
        | none =>
          rw [hocc] at hfits
          exact hfits
        | some x =>
          rw [hocc] at hfits
          cases x with
          | placed l => exact hfits
          | queued n =>
            obtain ⟨hinfo, q, hq, hq'⟩ := hfits
            exact ⟨hinfo, q, hold hq, hq'⟩
    constructed := fun {n q} hq => by
      simp only [setOccupant]
      rcases getElem?_concat_cases hq with hq | ⟨rfl, rfl⟩
      · have hocc := h.constructed hq
        rw [if_neg, hocc]
        rintro ⟨hty, hidx⟩
        rw [hty, hidx, hempty] at hocc
        cases hocc
      · rw [if_pos ⟨rfl, rfl⟩]
    length := h.length
    called := fun {k q occ} hq hocc => by
      simp only [setOccupant]
      by_cases hnew : q.idx = ty ∧ q.vidx = IoUringData.freeSlot (tr.state.uringData.slots ty)
      · rw [if_pos hnew]
        refine Or.inr ⟨fun l hl => ?_, ?_⟩
        · cases hl
        · rcases h.called hq hocc with heq | ⟨-, hdel⟩
          · rw [hnew.1, hnew.2, hempty] at heq
            subst heq
            exact fun x hx => by cases hx
          · exact hdel
      · rw [if_neg hnew]
        exact h.called hq hocc
    deleted := h.deleted
    localId := h.localId
    localProcId := h.localProcId }

theorem Inv.delete (h : tr.Inv d) {ty : V.TypeIndex} {idx : Nat} {s : EventState V}
    (hs : tr.state.queueDelete ty idx = .ok s) :
    ({ tr with
      state := s
      occupant := tr.setOccupant ty idx none
      deleted := tr.deleted ++ (tr.occupant ty idx).toList } : Traced V).Inv d := by
  obtain ⟨info, locator, hslot, hlocator, rfl⟩ := EventState.queueDelete_eq_ok hs
  have hslot := IoUringData.slot_eq_some_iff.mpr hslot
  -- what can be deleted was there before the run
  obtain ⟨hplaced, hholds⟩ : tr.occupant ty idx = some (.placed (some locator)) ∧
      d.Holds locator := by
    have hfits := h.fits ty idx
    unfold Fits at hfits
    split at hfits
    · cases hfits.symm.trans hslot
    · rename_i l hocc
      obtain ⟨⟨info', hslot', rfl⟩, hl⟩ := hfits
      obtain rfl := Option.some.inj (hslot.symm.trans hslot')
      exact ⟨hocc.trans (by rw [hlocator]), hl locator hlocator⟩
    · obtain rfl := Option.some.inj (hslot.symm.trans hfits.1)
      cases hlocator
  exact {
    fits := fun ty' idx' => by
      have hremove : (tr.state.uringData.setSlots ty
          ((tr.state.uringData.slots ty).set idx none)).slot ty' idx' = _ := IoUringData.slot_remove
      have hfits := h.fits ty' idx'
      unfold Fits at hfits ⊢
      simp only [setOccupant, hremove]
      by_cases hnew : ty' = ty ∧ idx' = idx
      · rw [if_pos hnew, if_pos hnew]
      · rw [if_neg hnew, if_neg hnew]
        exact hfits
    constructed := fun {n q} hq => by
      have hocc := h.constructed hq
      simp only [setOccupant]
      rw [if_neg, hocc]
      rintro ⟨hty, hidx⟩
      rw [hty, hidx, hplaced] at hocc
      cases hocc
    length := h.length
    called := fun {k q occ} hq hocc => by
      simp only [setOccupant]
      by_cases hnew : q.idx = ty ∧ q.vidx = idx
      · rw [if_pos hnew]
        refine Or.inr ⟨fun l hl => ?_, fun x hx => ?_⟩
        · cases hl
        · rcases h.called hq hocc with heq | ⟨hne, -⟩
          · rw [hnew.1, hnew.2] at heq
            refine List.mem_append_right _ ?_
            rw [heq, hx]
            exact List.mem_cons_self
          · rw [hnew.1, hnew.2] at hne
            exact absurd hplaced (hne _)
      · rw [if_neg hnew]
        exact (h.called hq hocc).imp_right fun ⟨hne, hdel⟩ =>
          ⟨hne, fun x hx => List.mem_append_left _ (hdel x hx)⟩
    deleted := fun {x} hx => by
      rcases List.mem_append.mp hx with hx | hx
      · exact h.deleted hx
      · rw [hplaced] at hx
        exact ⟨locator, List.mem_singleton.mp hx, hholds⟩
    localId := h.localId
    localProcId := h.localProcId }

theorem follow_inv (h : tr.Inv d) {op : Operation V} {s : EventState V}
    (hs : tr.state.apply op = .ok s) : (tr.follow s op).Inv d := by
  cases op with
  | construct shared ty fn =>
    obtain rfl := Except.ok.inj hs
    exact h.construct shared ty fn
  | callAt ty idx fn =>
    obtain rfl := Except.ok.inj hs
    exact h.callAt ty idx fn
  | call ty fn =>
    obtain ⟨r, hr, rfl⟩ := exists_of_map_eq_ok hs
    obtain rfl := EventState.call_eq_ok hr
    exact h.callAt ty _ fn
  | uring op fn =>
    obtain rfl := Except.ok.inj hs
    exact h.same rfl rfl rfl rfl
  | delete ty idx => exact h.delete hs
  | attach id =>
    obtain rfl := Except.ok.inj hs
    exact h.same rfl rfl rfl rfl
  | timer ts =>
    obtain rfl := Except.ok.inj hs
    exact h.same rfl rfl rfl rfl
  | cancelTimer id =>
    obtain rfl := Except.ok.inj hs
    exact h.same rfl rfl rfl rfl

theorem traced_inv {α : Type} {x : Script V α} {a : α} (h : x.traced (start d) = .ok (a, tr)) :
    tr.Inv d :=
  Script.traced_invariant h (start_inv d) fun _ _ _ hinv hs => follow_inv hinv hs

end Traced

namespace World

variable {w w' w₀ : World V σ} {t ctx : Nat} {ti : TargetInfo} {P : Program V σ} {tr : Traced V}
  {d : IoUringData V}

/-- The handler runs of a thread: `tr` traces the operations of the handler for the object
`ti.objId` with the context `ctx`, and the last world is the one in which `process_queued` is
called. -/
inductive HandlerRun (P : Program V σ) (t : Nat) (w₀ : World V σ) :
    Nat → TargetInfo → Traced V → World V σ → Prop where
  | construct {c : ConstructorCall V} {rest : List (EventVariant V)} {ctx : Nat}
      {w₁ w₂ : World V σ} {heap : σ} {tr : Traced V}
      (hq : w₀.queues t = .constructorCall c :: rest)
      (htake : (w₀.pop t rest).takeContext c.uringData = (ctx, w₁))
      (hrun : (P.construct c.constructor.fn c.ti.objId w₁.heap).traced
        (.start (w₁.contexts ctx)) = .ok (heap, tr))
      (hslot : (w₁.afterHandler ctx tr.state heap).fillSlot t c.constructor.slot c.ti.objId =
        .ok w₂)
      (hnew : (w₂.threads t).objInfo c.ti.objId = none) :
      HandlerRun P t w₀ ctx c.ti tr
        (w₂.setThread t ((w₂.threads t).setObject c.ti.objId { ptr := some ctx }))
  | function {f : FunctionCall V} {rest : List (EventVariant V)} {o : ObjectDataThreaded}
      {ctx : Nat} {resp : CallResponse} {heap : σ} {tr : Traced V}
      (hq : w₀.queues t = .functionCall f :: rest)
      (ho : (w₀.threads t).objInfo f.ti.objId = some o) (hptr : o.ptr = some ctx)
      (hrun : (P.function f.call f.ti.objId f.ti.procId w₀.heap).traced
        (.start (w₀.contexts ctx)) = .ok ((resp, heap), tr)) :
      HandlerRun P t w₀ ctx f.ti tr (((w₀.pop t rest).enter t f o).afterHandler ctx tr.state heap)
  | yield {m : Data} {rest : List (EventVariant V)} {o : ObjectDataThreaded}
      {c : CallDataThreaded} {ctx : Nat} {y : Yielded} {heap : σ} {tr : Traced V}
      (hq : w₀.queues t = .data m :: rest)
      (ho : (w₀.threads t).objInfo m.ti.objId = some o)
      (hd : (w₀.threads t).procToDat m.ti.procId = some c) (hptr : o.ptr = some ctx)
      (hrun : (P.onYield m.ti.objId ((w₀.contexts ctx).mapEventData m.data).1 w₀.heap).traced
        (.start ((w₀.contexts ctx).mapEventData m.data).2) = .ok ((y, heap), tr)) :
      HandlerRun P t w₀ ctx m.ti tr (((w₀.pop t rest).note (.delivered t m
        ((w₀.contexts ctx).mapEventData m.data).1)).afterHandler ctx tr.state heap)

/-- What `process_queued` needs to know of the handler run from the context `d`: the slots hold what
the handler left in them, up to the pointers to the objects. -/
structure Prepared (ctx : Nat) (d : IoUringData V) (tr : Traced V) (w : World V σ) : Prop where
  inv : tr.Inv d
  taken : ∀ {l}, d.Holds l → Taken w.objIds l.objectId
  locators : w.LocatorsOk
  slots : ∀ ty idx, ((w.contexts ctx).slot ty idx).map (·.locator) =
    (tr.state.uringData.slot ty idx).map (·.locator)

theorem slot_afterHandler {es : EventState V} {heap : σ} (ty : V.TypeIndex) (idx : Nat) :
    ((w.afterHandler ctx es heap).contexts ctx).slot ty idx = es.uringData.slot ty idx := by
  have hcontext : (w.afterHandler ctx es heap).contexts ctx = es.uringData :=
    Function.update_self ..
  rw [hcontext]

/-- Filling in a pointer changes no locator. -/
theorem locator_fillSlot {slot : Option (Id × V.TypeIndex × Nat)} {id : Id}
    (h : w.fillSlot t slot id = .ok w') (ctx : Nat) (ty : V.TypeIndex) (idx : Nat) :
    ((w'.contexts ctx).slot ty idx).map (·.locator) =
      ((w.contexts ctx).slot ty idx).map (·.locator) := by
  obtain ⟨-, rfl⟩ | ⟨parent, ty', idx', ctx', info, -, -, hslot, rfl⟩ := fillSlot_cases h
  · rfl
  · rw [contexts_setContext]
    split
    · rename_i hctx
      subst hctx
      rw [IoUringData.slot_setSlots]
      split
      · rename_i hty
        subst hty
        rw [List.getElem?_set]
        split
        · rename_i hidx
          subst hidx
          rw [IoUringData.slot, hslot, if_pos (List.getElem?_eq_some_iff.mp hslot).1]
          rfl
        · rfl
      · rfl
    · rfl

theorem run_of_traced {α : Type} {x : Script V α} {a : α}
    (h : x.traced (.start d) = .ok (a, tr)) : x.run { uringData := d } = .ok (a, tr.state) := by
  have hrun := Script.traced_run x (.start d)
  rw [h] at hrun
  exact hrun.symm

theorem HandlerRun.prepared (h : HandlerRun P t w₀ ctx ti tr w) (hok : w₀.LocatorsOk) :
    ∃ d, Prepared ctx d tr w := by
  cases h with
  | @construct c rest _ w₁ w₂ heap _ hq htake hrun hslot hnew =>
    have hpop : (w₀.pop t rest).LocatorsOk := hok.of_eq rfl rfl
    have hok₁ : w₁.LocatorsOk := takeContext_locatorsOk hpop htake
    have hids : w₂.objIds = (w₁.afterHandler ctx tr.state heap).objIds := objIds_fillSlot hslot
    refine ⟨w₁.contexts ctx, Traced.traced_inv hrun, fun hl => ?_, ?_, fun ty idx => ?_⟩
    · show Taken w₂.objIds _
      rw [hids]
      exact hok₁.taken hl
    · exact LocatorsOk.of_eq (fillSlot_locatorsOk hok₁ (run_of_traced hrun) hslot) rfl rfl
    · show ((w₂.contexts ctx).slot ty idx).map _ = _
      rw [locator_fillSlot hslot, slot_afterHandler]
  | function hq ho hptr hrun =>
    refine ⟨w₀.contexts ctx, Traced.traced_inv hrun, fun hl => hok.taken hl, ?_, fun ty idx => ?_⟩
    · exact LocatorsOk.mono (LocatorsOk.of_eq hok rfl rfl)
        (holdsLe_afterHandler (run_holds (run_of_traced hrun)).1) fun _ hid => hid
    · rw [slot_afterHandler]
  | yield hq ho hd hptr hrun =>
    refine ⟨_, Traced.traced_inv hrun, fun hl => hok.taken hl.of_mapEventData, ?_, fun ty idx => ?_⟩
    · exact LocatorsOk.mono (LocatorsOk.of_eq hok rfl rfl) (holdsLe_afterHandler fun l hl =>
        ((run_holds (run_of_traced hrun)).1 l hl).of_mapEventData) fun _ hid => hid
    · rw [slot_afterHandler]

/-! ## What is sent -/

/-- What was pushed to a queue. -/
def newMessages (w w' : World V σ) (t' : Nat) : List (EventVariant V) :=
  (w'.queues t').drop (w.queues t').length

/-- What was noted. -/
def newNotes (w w' : World V σ) : List Note := w'.log.drop w.log.length

/-- `f` is the message for the queued call `q`. -/
def Sent (t : Nat) (ti : TargetInfo) (w w' : World V σ) (q : EventQueuedFunction V)
    (f : FunctionCall V) : Prop :=
  (∃ t', .functionCall f ∈ newMessages w w' t') ∧
    .called t ti.objId ti.procId f.ti.procId q.localId ∈ newNotes w w'

/-- The object with this identifier: the one in the slot before the run, or the one for which the
construction was sent. -/
def IsObject (t : Nat) (ti : TargetInfo) (tr : Traced V) (w w' : World V σ) (objId : Id) :
    Occupant → Prop
  | .placed locator => locator.map (·.objectId) = some objId
  | .queued n => ∃ q c, tr.state.construct[n]? = some q ∧
      .constructorCall c ∈ newMessages w w' t ∧
      c.constructor = { fn := q.fn, slot := some (ti.objId, q.idx, q.vidx) } ∧ c.ti.objId = objId

/-- A call that was made on the object `occ` is sent to this object and to no other one, or dropped
because the handler deleted the object. -/
def Reaches (t : Nat) (ti : TargetInfo) (tr : Traced V) (w w' : World V σ)
    (q : EventQueuedFunction V) (occ : Option Occupant) : Prop :=
  (∀ f, Sent t ti w w' q f → ∃ x, occ = some x ∧ IsObject t ti tr w w' f.ti.objId x) ∧
    ∀ x, occ = some x → (∃ f, Sent t ti w w' q f ∧ f.call = q.fn) ∨ x ∈ tr.deleted

/-- Two calls that are sent to one object are in one queue, in the order in which they were made. -/
def InOrder (t : Nat) (ti : TargetInfo) (tr : Traced V) (w w' : World V σ) : Prop :=
  ∀ (k k' : Nat) (q q' : EventQueuedFunction V) (f f' : FunctionCall V), k < k' →
    tr.state.function[k]? = some q → tr.state.function[k']? = some q' →
    Sent t ti w w' q f → Sent t ti w w' q' f' → f.ti.objId = f'.ti.objId →
    ∃ t', [.functionCall f, .functionCall f'].Sublist (newMessages w w' t')

/-- What `process_queued` makes of a handler run. -/
structure Outcome (t : Nat) (ti : TargetInfo) (tr : Traced V) (w w' : World V σ)
    (sent : List (SentCall V)) : Prop where
  messages : ∀ t', ∃ ms : List (EventVariant V), ∃ ds : List Delete,
    newMessages w w' t' = ms ++ ((sent.filter fun s => s.thread = t').map
      fun s => .functionCall s.message) ++ ds.map .delete ∧ ∀ f, .functionCall f ∉ ms
  notes : ∃ ns, newNotes w w' = sent.map (SentCall.note t ti) ++ ns ∧
    ∀ t o p p' l, .called t o p p' l ∉ ns
  nodup : (sent.map fun s => s.message.ti.procId).Nodup
  entries : sent.map (·.entry) =
    tr.state.function.filter fun q => (tr.occupant q.idx q.vidx).isSome
  target : ∀ s ∈ sent, s.message.call = s.entry.fn ∧ ∃ x,
    tr.occupant s.entry.idx s.entry.vidx = some x ∧
    IsObject t ti tr w w' s.message.ti.objId x ∧
    ∀ n, x = .queued n → ¬ Taken w.objIds s.message.ti.objId
  thread : ∀ s ∈ sent, ∀ s' ∈ sent, s.message.ti.objId = s'.message.ti.objId → s.thread = s'.thread

/-- The objects in the slots after the constructions. -/
theorem Prepared.occupied {cs : List (ConstructorCall V)} {w₁ : World V σ}
    (h : Prepared ctx d tr w) (hsent : ConstructsSent t ctx ti w w₁ tr.state.construct cs)
    (hcs : ∀ c ∈ cs, .constructorCall c ∈ newMessages w w' t) (ty : V.TypeIndex) (idx : Nat) :
    (tr.occupant ty idx = none ∧ (w₁.contexts ctx).slot ty idx = none) ∨
      ∃ x info, tr.occupant ty idx = some x ∧ (w₁.contexts ctx).slot ty idx = some info ∧
        ∀ l, info.locator = some l → IsObject t ti tr w w' l.objectId x ∧
          ∀ n, x = .queued n → ¬ Taken w.objIds l.objectId := by
  have hfits := h.inv.fits ty idx
  have hslots := h.slots ty idx
  -- the slots of the constructions are those of the queued objects
  have hold : (∀ n, tr.occupant ty idx ≠ some (.queued n)) →
      (w₁.contexts ctx).slot ty idx = (w.contexts ctx).slot ty idx := by
    intro hne
    refine hsent.slots ty idx fun q hq heq => ?_
    obtain ⟨n, hn⟩ := List.mem_iff_getElem?.mp hq
    have hocc := h.inv.constructed hn
    rw [← heq.1, ← heq.2] at hocc
    exact hne n hocc
  unfold Traced.Fits at hfits
  cases hocc : tr.occupant ty idx with
  | none =>
    refine Or.inl ⟨rfl, ?_⟩
    rw [hold (by rw [hocc]; exact fun n h => nomatch h)]
    simp only [hocc] at hfits
    rw [hfits] at hslots
    exact Option.map_eq_none_iff.mp hslots
  | some x =>
    refine Or.inr ?_
    simp only [hocc] at hfits
    cases x with
    | placed locator =>
      obtain ⟨⟨info, hinfo, rfl⟩, -⟩ := hfits
      rw [hinfo] at hslots
      obtain ⟨info', hinfo', hlocator⟩ := Option.map_eq_some_iff.mp hslots
      refine ⟨_, info', rfl, ?_, fun l hl => ⟨?_, fun n hn => nomatch hn⟩⟩
      · rw [hold (by rw [hocc]; exact fun n h => nomatch h), hinfo']
      · have hl' : info.locator = some l := hlocator.symm.trans hl
        show info.locator.map _ = _
        rw [hl']
        rfl
    | queued n =>
      obtain ⟨-, q, hq, rfl, rfl⟩ := hfits
      obtain ⟨c, hc, hconstructs⟩ := hsent.constructs q (List.mem_of_getElem? hq)
      obtain ⟨info, r, hinfo, hlocator⟩ := hconstructs.slot
      refine ⟨_, info, rfl, hinfo, fun l hl => ?_⟩
      obtain rfl := Option.some.inj (hlocator.symm.trans hl)
      exact ⟨⟨q, c, hq, hcs c hc, hconstructs.constructor, rfl⟩, fun _ _ => hconstructs.fresh⟩

theorem Prepared.apartSlots (h : Prepared ctx d tr w) : tr.state.construct.Pairwise ApartSlots := by
  refine List.pairwise_iff_getElem.mpr fun n n' hn hn' hlt heq => ?_
  have hocc := h.inv.constructed (List.getElem?_eq_getElem hn)
  have hocc' := h.inv.constructed (List.getElem?_eq_getElem hn')
  rw [heq.1, heq.2, hocc'] at hocc
  obtain rfl := Occupant.queued.inj (Option.some.inj hocc)
  exact Nat.lt_irrefl _ hlt

theorem Prepared.constructed (h : Prepared ctx d tr w) {q : EventQueuedConstruct V}
    (hq : q ∈ tr.state.construct) : ((w.contexts ctx).slot q.idx q.vidx).isSome := by
  obtain ⟨n, hn⟩ := List.mem_iff_getElem?.mp hq
  have hfits := h.inv.fits q.idx q.vidx
  unfold Traced.Fits at hfits
  simp only [h.inv.constructed hn] at hfits
  have hslots := h.slots q.idx q.vidx
  rw [hfits.1] at hslots
  obtain ⟨info, hinfo, -⟩ := Option.map_eq_some_iff.mp hslots
  rw [hinfo]
  rfl

/-- Every handler run has an outcome. -/
theorem Prepared.exists_outcome (h : Prepared ctx d tr w)
    (hq : w.processQueued t ctx ti tr.state = .ok w') : ∃ sent, Outcome t ti tr w w' sent := by
  obtain ⟨w₁, w₂, h₁, h₂, hrest⟩ := processQueued_phases hq
  obtain ⟨cs, hcs⟩ := each_queuedConstruct h.apartSlots (fun q hq => h.constructed hq) h₁
  have hok : w₁.LocatorsOk := by
    refine transGen_invariant (I := LocatorsOk) (each_queued (fun q hq _ _ =>
      queuedConstruct_queued hq) h₁) h.locators fun _ _ => queued_locatorsOk
  have hholds : ∀ {ty idx info l}, (w₁.contexts ctx).slot ty idx = some info →
      info.locator = some l → (w₁.contexts ctx).Holds l := fun hslot hl =>
    ⟨_, _, _, IoUringData.slot_eq_some_iff.mp hslot, hl⟩
  obtain ⟨sent, hsent⟩ := each_queuedFunction
    (fun ty idx info l hslot hl => hok.thread (hholds hslot hl)) h₂
  have hdeletes := rest_onlyDeletes hrest
  -- the messages of the run: constructions, then calls, then deletions
  have hmessages : ∀ t', ∃ ds : List Delete, newMessages w w' t' =
      (if t' = t then cs.map .constructorCall else []) ++
        ((sent.filter fun s => s.thread = t').map fun s => .functionCall s.message) ++
          ds.map .delete := by
    intro t'
    obtain ⟨ds, hds⟩ := hdeletes.queues t'
    have hconstructs : w₁.queues t' =
        w.queues t' ++ if t' = t then cs.map .constructorCall else [] := by
      split
      · rename_i ht
        exact ht ▸ hcs.queue
      · rename_i ht
        rw [hcs.queues t' ht, List.append_nil]
    refine ⟨ds, ?_⟩
    rw [newMessages, hds, hsent.queues, hconstructs, List.append_assoc, List.append_assoc,
      List.drop_left, ← List.append_assoc]
  have hmem : ∀ c ∈ cs, .constructorCall c ∈ newMessages w w' t := by
    intro c hc
    obtain ⟨ds, hds⟩ := hmessages t
    rw [hds, if_pos rfl]
    exact List.mem_append_left _ (List.mem_append_left _ (List.mem_map_of_mem hc))
  have hoccupied := h.occupied hcs hmem
  refine ⟨sent, ?_⟩
  exact {
    messages := fun t' => by
      obtain ⟨ds, hds⟩ := hmessages t'
      refine ⟨_, ds, hds, fun f hf => ?_⟩
      split at hf
      · obtain ⟨c, -, hc⟩ := List.mem_map.mp hf
        cases hc
      · cases hf
    notes := by
      obtain ⟨ns, hns, hcalled⟩ := hdeletes.log
      refine ⟨ns, ?_, hcalled⟩
      rw [newNotes, hns, hsent.log, hcs.log, List.append_assoc, List.drop_left]
    nodup := hsent.nodup
    entries := by
      rw [hsent.entries]
      refine List.filter_congr fun q _ => ?_
      obtain ⟨hocc, hslot⟩ | ⟨x, info, hocc, hslot, -⟩ := hoccupied q.idx q.vidx <;>
        rw [hocc, hslot] <;> rfl
    target := fun s hs => by
      obtain ⟨hcall, info, l, hslot, hl, hobj, hthread⟩ := hsent.target s hs
      refine ⟨hcall, ?_⟩
      obtain ⟨hocc, hslot'⟩ | ⟨x, info', hocc, hslot', hx⟩ :=
        hoccupied s.entry.idx s.entry.vidx
      · cases hslot.symm.trans hslot'
      · obtain rfl := Option.some.inj (hslot.symm.trans hslot')
        rw [hobj]
        exact ⟨x, hocc, hx l hl⟩
    thread := fun s hs s' hs' heq => by
      obtain ⟨-, info, l, hslot, hl, hobj, hthread⟩ := hsent.target s hs
      obtain ⟨-, info', l', hslot', hl', hobj', hthread'⟩ := hsent.target s' hs'
      have hll : l = l' := hok.unique (hholds hslot hl) (hholds hslot' hl')
        (hobj.symm.trans (heq.trans hobj'))
      rw [← hll, hthread] at hthread'
      exact List.head_eq_of_cons_eq hthread' }

/-! ## Calls and their objects -/

namespace Outcome

variable {sent : List (SentCall V)} {k : Nat} {q : EventQueuedFunction V} {f : FunctionCall V}

/-- The messages for a queued call. -/
theorem sent_iff (h : Outcome t ti tr w w' sent) : Sent t ti w w' q f ↔
    ∃ s ∈ sent, s.message = f ∧ s.entry.localId = q.localId := by
  obtain ⟨ns, hns, hcalled⟩ := h.notes
  constructor
  · rintro ⟨⟨t', hf⟩, hnote⟩
    obtain ⟨ms, ds, hds, hms⟩ := h.messages t'
    rw [hds] at hf
    rw [hns] at hnote
    have hs₁ : ∃ s ∈ sent, s.message = f := by
      rcases List.mem_append.mp hf with hf | hf
      · rcases List.mem_append.mp hf with hf | hf
        · exact absurd hf (hms f)
        · obtain ⟨s, hs, hmessage⟩ := List.mem_map.mp hf
          exact ⟨s, (List.mem_filter.mp hs).1, EventVariant.functionCall.inj hmessage⟩
      · obtain ⟨d, -, hd⟩ := List.mem_map.mp hf
        cases hd
    have hs₂ : ∃ s ∈ sent, s.message.ti.procId = f.ti.procId ∧ s.entry.localId = q.localId := by
      rcases List.mem_append.mp hnote with hnote | hnote
      · obtain ⟨s, hs, hnote⟩ := List.mem_map.mp hnote
        obtain ⟨-, -, -, hproc, hlocal⟩ := Note.called.inj hnote
        exact ⟨s, hs, hproc, hlocal⟩
      · exact absurd hnote (hcalled _ _ _ _ _)
    obtain ⟨s₁, hmem₁, rfl⟩ := hs₁
    obtain ⟨s₂, hmem₂, hproc, hlocal⟩ := hs₂
    -- the procedure identifier tells the two
    obtain rfl : s₂ = s₁ := List.inj_on_of_nodup_map h.nodup hmem₂ hmem₁ hproc
    exact ⟨s₂, hmem₂, rfl, hlocal⟩
  · rintro ⟨s, hs, rfl, hlocal⟩
    refine ⟨⟨s.thread, ?_⟩, ?_⟩
    · obtain ⟨ms, ds, hds, -⟩ := h.messages s.thread
      rw [hds]
      refine List.mem_append_left _ (List.mem_append_right _ (List.mem_map.mpr ⟨s, ?_, rfl⟩))
      exact List.mem_filter.mpr ⟨hs, by simp⟩
    · rw [hns, ← hlocal]
      exact List.mem_append_left _ (List.mem_map.mpr ⟨s, hs, rfl⟩)

/-- The local identifier tells the calls of a handler. -/
theorem entry_eq (h : Outcome t ti tr w w' sent) (hinv : tr.Inv d)
    (hq : tr.state.function[k]? = some q) {s : SentCall V} (hs : s ∈ sent)
    (hlocal : s.entry.localId = q.localId) : s.entry = q := by
  have hmem : s.entry ∈ tr.state.function.filter fun q => (tr.occupant q.idx q.vidx).isSome := by
    rw [← h.entries]
    exact List.mem_map_of_mem hs
  obtain ⟨j, hj⟩ := List.mem_iff_getElem?.mp (List.mem_filter.mp hmem).1
  rw [hinv.localId hj, hinv.localId hq] at hlocal
  have hjk : j = k := by
    have hsum := Option.some.inj hlocal
    omega
  rw [hjk, hq] at hj
  exact (Option.some.inj hj).symm

/-- A call reaches its object just if the slot is empty or still holds the object in the end. -/
theorem reaches_iff (h : Outcome t ti tr w w' sent) (hprep : Prepared ctx d tr w)
    {occ : Option Occupant} (hq : tr.state.function[k]? = some q) (hocc : tr.calls[k]? = some occ) :
    Reaches t ti tr w w' q occ ↔
      tr.occupant q.idx q.vidx = none ∨ tr.occupant q.idx q.vidx = occ := by
  -- the call is sent if the slot holds an object
  have hsent : ∀ x, tr.occupant q.idx q.vidx = some x → ∃ s ∈ sent, s.entry = q := by
    intro x hx
    have hmem : q ∈ sent.map (·.entry) := by
      rw [h.entries]
      exact List.mem_filter.mpr ⟨List.mem_of_getElem? hq, by rw [hx]; rfl⟩
    exact List.mem_map.mp hmem
  have htarget : ∀ f, Sent t ti w w' q f → ∃ x, tr.occupant q.idx q.vidx = some x ∧
      IsObject t ti tr w w' f.ti.objId x ∧ ∀ n, x = .queued n → ¬ Taken w.objIds f.ti.objId := by
    intro f hf
    obtain ⟨s, hs, rfl, hlocal⟩ := h.sent_iff.mp hf
    have hentry := h.entry_eq hprep.inv hq hs hlocal
    obtain ⟨-, hx⟩ := h.target s hs
    rwa [hentry] at hx
  constructor
  · intro hreaches
    by_contra hne
    obtain ⟨hnone, hocc'⟩ := not_or.mp hne
    rcases hprep.inv.called hq hocc with heq | ⟨hplaced, hdeleted⟩
    · exact hocc' heq
    · -- the slot holds an object that the handler has queued, and the call is sent to it
      obtain ⟨y, hy⟩ := Option.ne_none_iff_exists'.mp hnone
      obtain ⟨s, hs, rfl⟩ := hsent y hy
      obtain ⟨x, hx, hobj⟩ := hreaches.1 s.message (h.sent_iff.mpr ⟨s, hs, rfl, rfl⟩)
      obtain ⟨locator, rfl, hholds⟩ := hprep.inv.deleted (hdeleted x hx)
      obtain ⟨-, y', hy', -, hfresh⟩ := h.target s hs
      obtain rfl := Option.some.inj (hy.symm.trans hy')
      cases y with
      | placed l => exact hplaced l hy
      | queued n =>
        refine hfresh n rfl ?_
        rw [← Option.some.inj hobj]
        exact hprep.taken hholds
  · intro hcond
    refine ⟨fun f hf => ?_, fun x hx => ?_⟩
    · obtain ⟨x, hx, hobj, -⟩ := htarget f hf
      rcases hcond with hnone | heq
      · cases hnone.symm.trans hx
      · exact ⟨x, heq.symm.trans hx, hobj⟩
    · rcases hprep.inv.called hq hocc with heq | ⟨-, hdeleted⟩
      · obtain ⟨s, hs, rfl⟩ := hsent x (heq.trans hx)
        exact Or.inl ⟨s.message, h.sent_iff.mpr ⟨s, hs, rfl, rfl⟩, (h.target s hs).1⟩
      · exact Or.inr (hdeleted x hx)

/-- The calls are sent in the order in which they were made. -/
theorem sent_pair (h : Outcome t ti tr w w' sent) (hinv : tr.Inv d) {k' : Nat}
    {q' : EventQueuedFunction V} {s s' : SentCall V} (hlt : k < k')
    (hq : tr.state.function[k]? = some q) (hq' : tr.state.function[k']? = some q')
    (hs : s ∈ sent) (hs' : s' ∈ sent) (hentry : s.entry = q) (hentry' : s'.entry = q') :
    [s, s'].Sublist sent := by
  have hfunction : tr.state.function.Pairwise fun a b =>
      ∀ n m, a.localId = some n → b.localId = some m → n < m := by
    refine List.pairwise_iff_getElem.mpr fun i j hi hj hij n m hn hm => ?_
    have hn' := Option.some.inj (hn.symm.trans (hinv.localId (List.getElem?_eq_getElem hi)))
    have hm' := Option.some.inj (hm.symm.trans (hinv.localId (List.getElem?_eq_getElem hj)))
    omega
  have hsent : sent.Pairwise fun a b =>
      ∀ n m, a.entry.localId = some n → b.entry.localId = some m → n < m := by
    have hentries := hfunction.filter fun q => (tr.occupant q.idx q.vidx).isSome
    rw [← h.entries] at hentries
    exact List.pairwise_map.mp hentries
  obtain ⟨j, hj, rfl⟩ := List.mem_iff_getElem.mp hs
  obtain ⟨j', hj', rfl⟩ := List.mem_iff_getElem.mp hs'
  have hid := hinv.localId hq
  have hid' := hinv.localId hq'
  rw [← hentry] at hid
  rw [← hentry'] at hid'
  have hjj : j < j' := by
    rcases Nat.lt_trichotomy j j' with hjj | rfl | hjj
    · exact hjj
    · have hkk := Option.some.inj (hid.symm.trans hid')
      omega
    · have hkk := List.pairwise_iff_getElem.mp hsent j' j hj' hj hjj _ _ hid' hid
      omega
  exact pair_sublist hjj (List.getElem?_eq_getElem hj) (List.getElem?_eq_getElem hj')

theorem inOrder (h : Outcome t ti tr w w' sent) (hinv : tr.Inv d) : InOrder t ti tr w w' := by
  intro k k' q q' f f' hlt hq hq' hf hf' hobj
  obtain ⟨s, hs, rfl, hlocal⟩ := h.sent_iff.mp hf
  obtain ⟨s', hs', rfl, hlocal'⟩ := h.sent_iff.mp hf'
  have hpair := h.sent_pair hinv hlt hq hq' hs hs' (h.entry_eq hinv hq hs hlocal)
    (h.entry_eq hinv hq' hs' hlocal')
  have hthread := h.thread s hs s' hs' hobj
  have hfilter := (hpair.filter fun a => decide (a.thread = s.thread)).map
    fun a => EventVariant.functionCall a.message
  rw [List.filter_eq_self.mpr (by simp [hthread])] at hfilter
  obtain ⟨ms, ds, hds, -⟩ := h.messages s.thread
  refine ⟨s.thread, ?_⟩
  rw [hds]
  exact hfilter.trans ((List.sublist_append_right _ _).trans (List.sublist_append_left _ _))

end Outcome

/-- Every call of the handler run reaches its object. -/
def CallsReach (t : Nat) (ti : TargetInfo) (tr : Traced V) (w w' : World V σ) : Prop :=
  ∀ (k : Nat) (q : EventQueuedFunction V) (occ : Option Occupant),
    tr.state.function[k]? = some q → tr.calls[k]? = some occ → Reaches t ti tr w w' q occ

/-- The calls of a handler are sent in the order in which they were made, and all reach the objects
that they were made on just if no slot of a call was given to another object. -/
theorem callsReach_iff (P : Program V σ) (size : Nat) (malloc : Nat → Nat) (heap : σ)
    (hreached : Reached (World.step P) (fun _ _ => True) { size, malloc, heap } w₀)
    (hrun : HandlerRun P t w₀ ctx ti tr w) (hq : w.processQueued t ctx ti tr.state = .ok w') :
    InOrder t ti tr w w' ∧ (CallsReach t ti tr w w' ↔ tr.KeepsSlots) := by
  obtain ⟨d, hprep⟩ := hrun.prepared (locatorsOk P size malloc heap hreached)
  obtain ⟨sent, hout⟩ := hprep.exists_outcome hq
  refine ⟨hout.inOrder hprep.inv, ?_⟩
  exact forall_congr' fun k => forall_congr' fun q => forall_congr' fun occ =>
    forall_congr' fun hfunction => forall_congr' fun hcall =>
      hout.reaches_iff hprep hfunction hcall

/-- The handling of a function call is a handler run. -/
theorem exists_handlerRun {f : FunctionCall V} {rest : List (EventVariant V)}
    (hq : w₀.queues t = .functionCall f :: rest) {w₁ : World V σ}
    (h : w₀.handleDequeue P t = .ok w₁) : ∃ ctx a tr w w',
      ((w₀.threads t).objInfo f.ti.objId).bind (·.ptr) = some ctx ∧
      (P.function f.call f.ti.objId f.ti.procId w₀.heap).traced (.start (w₀.contexts ctx)) =
        .ok (a, tr) ∧
      HandlerRun P t w₀ ctx f.ti tr w ∧ w.processQueued t ctx f.ti tr.state = .ok w' := by
  have hhandled := handleDequeue_handled h
  cases hhandled with
  | called hq' ho hptr hrun hqueued _ =>
    obtain ⟨hhead, rfl⟩ := List.cons.inj (hq'.symm.trans hq)
    obtain rfl := EventVariant.functionCall.inj hhead
    obtain ⟨tr, htr, hstate⟩ := Script.exists_traced (.start _) hrun
    subst hstate
    refine ⟨_, _, tr, _, _, ?_, htr, .function hq ho hptr htr, hqueued⟩
    rw [ho]
    exact hptr
  | _ => simp_all

/-! ## A child that is replaced -/

/-- One class, with a constructor of a parent and one of a child. -/
abbrev swapVocabulary : Vocabulary where
  TypeIndex := Unit
  ConstructFunc := Bool
  FunctionFunc := Unit
  Sqe := Empty

/-- The parent constructs a child. Its function calls the child and deletes it, and constructs
another one if `again`. -/
def swap (again : Bool) : Program swapVocabulary Unit where
  construct parent _ _ :=
    if parent then do
      let _ ← Script.i (V := swapVocabulary) () false
      pure ()
    else pure ()
  function _ _ _ _ := do
    let _ ← Script.cAt (V := swapVocabulary) () 0 ()
    Script.d () 0
    if again then
      let _ ← Script.i () false
    pure ({ description := "parent", success := true, ret := none, opHint := 0 }, ())
  onYield _ _ _ := pure (none, ())
  destroy _ _ := ()

/-- One worker thread. -/
def swap₀ : World swapVocabulary Unit := { size := 1, malloc := id, heap := () }

/-- The parent is constructed. -/
def swapActions : List (Action swapVocabulary) := .root true () :: List.replicate 2 (.dequeue 0)

/-- The function call at the head of a queue. -/
def headCall {V : Vocabulary} {σ : Type} (w : World V σ) : Option TargetInfo :=
  match w.queues 0 with
  | .functionCall f :: _ => some f.ti
  | _ => none

/-- The function of the parent runs: its call is on the child, and its slot is empty in the end or
holds the second child. -/
theorem swap_handlerRun (again : Bool) : ∃ w₀ w w' tr q,
    Reached (World.step (swap again)) (fun _ _ => True) swap₀ w₀ ∧
    HandlerRun (swap again) 0 w₀ 0 ⟨some 0, some 0⟩ tr w ∧
    w.processQueued 0 0 ⟨some 0, some 0⟩ tr.state = .ok w' ∧
    tr.state.function = [q] ∧
    tr.calls = [some (.placed (some ⟨some 1000, [0]⟩))] ∧
    tr.occupant q.idx q.vidx = if again then some (.queued 0) else none := by
  have hfacts : (runActions (World.step (swap again)) swapActions swap₀).map (fun w =>
      (headCall w, ((w.threads 0).objInfo (some 0)).bind (·.ptr),
        (w.handleDequeue (swap again) 0).toOption.isSome)) =
      .ok (some ⟨some 0, some 0⟩, some 0, true) := by
    cases again <;> decide +kernel
  have htraced : (runActions (World.step (swap again)) swapActions swap₀).map (fun w =>
      (((swap again).function () (some 0) (some 0) ()).traced (.start (w.contexts 0))).toOption.map
        fun r => (r.2.state.function.map (·.vidx), r.2.calls, r.2.occupant () 0)) =
      .ok (some ([0], [some (.placed (some ⟨some 1000, [0]⟩))],
        if again then some (.queued 0) else none)) := by
    cases again <;> decide +kernel
  -- the run stops in front of the call of the parent's function
  obtain ⟨w₀, hrun, hfacts⟩ := exists_of_map_eq_ok hfacts
  rw [hrun] at htraced
  obtain ⟨r, htr, hfacts'⟩ := Option.map_eq_some_iff.mp (Except.ok.inj htraced)
  obtain ⟨hhead, hrest⟩ := Prod.mk.inj hfacts
  obtain ⟨hptr, hdequeue⟩ := Prod.mk.inj hrest
  have htr := eq_ok_of_toOption htr
  obtain ⟨w₁, hdequeue⟩ := Option.isSome_iff_exists.mp hdequeue
  have hdequeue := eq_ok_of_toOption hdequeue
  unfold headCall at hhead
  split at hhead
  · rename_i f rest hq
    obtain ⟨ctx, a, tr, w, w', hctx, hcall, hhandler, hqueued⟩ := exists_handlerRun hq hdequeue
    have hti : f.ti = ⟨some 0, some 0⟩ := Option.some.inj hhead
    rw [hti] at hctx hhandler hqueued
    obtain rfl := Option.some.inj (hctx.symm.trans hptr)
    obtain rfl : (a, tr) = r := Except.ok.inj (hcall.symm.trans htr)
    obtain ⟨hfunction, hrest⟩ := Prod.mk.inj hfacts'
    obtain ⟨hcalls, hocc⟩ := Prod.mk.inj hrest
    obtain ⟨q, hq, hvidx⟩ := List.map_eq_singleton_iff.mp hfunction
    refine ⟨w₀, w, w', tr, q, reached_of_runActions .start (meets_true _ _) hrun, hhandler, hqueued,
      hq, hcalls, ?_⟩
    rw [hvidx]
    exact hocc
  · cases hhead

/-- The call reaches the child, which is deleted, when no other child is constructed. -/
theorem swap_callsReach : ∃ w₀ w w' tr,
    Reached (World.step (swap false)) (fun _ _ => True) swap₀ w₀ ∧
    HandlerRun (swap false) 0 w₀ 0 ⟨some 0, some 0⟩ tr w ∧
    w.processQueued 0 0 ⟨some 0, some 0⟩ tr.state = .ok w' ∧
    InOrder 0 ⟨some 0, some 0⟩ tr w w' ∧ (CallsReach 0 ⟨some 0, some 0⟩ tr w w' ↔ tr.KeepsSlots) ∧
    tr.KeepsSlots := by
  obtain ⟨w₀, w, w', tr, q, hreached, hhandler, hqueued, hfunction, hcalls, hocc⟩ :=
    swap_handlerRun false
  obtain ⟨horder, hiff⟩ := callsReach_iff (swap false) 1 id () hreached hhandler hqueued
  refine ⟨w₀, w, w', tr, hreached, hhandler, hqueued, horder, hiff, fun k q' occ hq' _ => ?_⟩
  rw [hfunction] at hq'
  obtain rfl : q = q' := List.mem_singleton.mp (List.mem_of_getElem? hq') |>.symm
  exact Or.inl hocc

/-- The call on the first child is sent to the second one. -/
theorem swap_misdirected : ∃ w₀ w w' tr,
    Reached (World.step (swap true)) (fun _ _ => True) swap₀ w₀ ∧
    HandlerRun (swap true) 0 w₀ 0 ⟨some 0, some 0⟩ tr w ∧
    w.processQueued 0 0 ⟨some 0, some 0⟩ tr.state = .ok w' ∧
    ¬ CallsReach 0 ⟨some 0, some 0⟩ tr w w' := by
  obtain ⟨w₀, w, w', tr, q, hreached, hhandler, hqueued, hfunction, hcalls, hocc⟩ :=
    swap_handlerRun true
  refine ⟨w₀, w, w', tr, hreached, hhandler, hqueued, fun hall => ?_⟩
  obtain ⟨d, hprep⟩ := hhandler.prepared (locatorsOk (swap true) 1 id () hreached)
  obtain ⟨sent, hout⟩ := hprep.exists_outcome hqueued
  have hq₀ : tr.state.function[0]? = some q := by rw [hfunction]; rfl
  have hc₀ : tr.calls[0]? = some (some (.placed (some ⟨some 1000, [0]⟩))) := by rw [hcalls]; rfl
  rcases (hout.reaches_iff hprep hq₀ hc₀).mp (hall 0 q _ hq₀ hc₀) with hnone | heq
  · cases hnone.symm.trans hocc
  · cases heq.symm.trans hocc

end World

end LocalSoftware
