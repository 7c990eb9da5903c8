import LocalSoftware.Common.ThreadShared
import LocalSoftware.Library.Owners
import LocalSoftware.Library.Transition

/-!
# Awaitables for `io_uring` completions

`readiness_api_awaitable` of `coro_types.h` and `coro_types.cpp`, with the part of `thread_data.cpp`
that it uses: `co_register`, `co_update`, `co_deregister`, `co_handle`, and the case `CqeReady` of
`handle_dequeue`. Objects have addresses, and the table `readiness_waiters` of a thread points at
their field `ret`.

`exact_iff_keeps` says which constructions, moves, assignments and destructions keep the tables
exact.
-/

set_option autoImplicit false

namespace LocalSoftware

/-- `Waiters`; `result` is the address of the object whose `ret` it points at. -/
structure Waiters where
  result : Option Nat := none
  handle : Option Nat := none
deriving DecidableEq, Repr

/-- `readiness_api_awaitable`; `data` is the thread of the `ThreadData`, or a null pointer. -/
structure ReadinessApiAwaitable where
  ret : Int
  id : Id
  data : Option Nat
deriving DecidableEq, Repr

/-- What happened in a run so far. -/
inductive CoNote where
  | registered (t : Nat) (id : Id)
  | suspended (id : Id) (handle : Nat)
  | completed (id : Id) (result : Int)
  | resumed (id : Id) (handle : Nat) (ret : Int)
deriving DecidableEq, Repr

/-- The tables of the threads, the objects by their addresses, and the coroutines that are suspended,
with the object that each awaits. `owners` and `log` are history variables: the thread and the
identifier that belong to a live object that was not moved from, and what happened. `F` are the
functions that prepare a request. -/
structure CoState (F : Type) where
  waiters : Nat → Id → Option Waiters := fun _ _ => none
  sqes : Nat → List F := fun _ => []
  objects : Nat → Option ReadinessApiAwaitable := fun _ => none
  frames : Nat → Option Nat := fun _ => none
  ids : Ids := noIds
  owners : Nat → Option (Nat × Id) := fun _ => none
  log : List CoNote := []

namespace CoState

variable {F : Type}

/-- Something that happened. -/
def note (s : CoState F) (n : CoNote) : CoState F := { s with log := s.log ++ [n] }

/-- Assignment to an entry of a table. -/
def setWaiters (s : CoState F) (t : Nat) (id : Id) (w : Option Waiters) : CoState F :=
  { s with waiters := Function.update s.waiters t (Function.update (s.waiters t) id w) }

/-- `co_register`. -/
def coRegister (s : CoState F) (t : Nat) (sfunc : F) (res : Nat) : Id × CoState F :=
  let id := (getId s.ids (some t)).1
  let w := (s.waiters t id).getD {}
  (id, { s.setWaiters t id (some { w with result := some res }) with
    ids := (getId s.ids (some t)).2
    sqes := Function.update s.sqes t (s.sqes t ++ [sfunc])
    log := s.log ++ [.registered t id] })

/-- `co_update`. -/
def coUpdate (s : CoState F) (t : Nat) (id : Id) (res : Nat) : CoState F :=
  match s.waiters t id with
  | some w => s.setWaiters t id (some { w with result := some res })
  | none => s

/-- `co_deregister`. -/
def coDeregister (s : CoState F) (t : Nat) (id : Id) : CoState F := s.setWaiters t id none

/-- `co_preferred`. -/
def coPreferred (t : Nat) : Nat := t

/-- `co_handle`. -/
def coHandle (s : CoState F) (t : Nat) (id : Id) (handle : Option Nat) : CoState F :=
  match handle, s.waiters t id with
  | some h, some w => s.setWaiters t id (some { w with handle := some h })
  | _, _ => s

/-! ## The members of the class -/

/-- The constructor; `ret` is not initialised. `data` is taken from `tdata`, which no code of the
repository assigns: the model assumes that it points to the `ThreadData` of the running thread. -/
def construct (s : CoState F) (x t : Nat) (sfunc : F) (ret : Int) : CoState F :=
  let id := (s.coRegister t sfunc x).1
  { (s.coRegister t sfunc x).2 with
    objects := Function.update s.objects x (some { ret, id, data := some t })
    owners := Function.update s.owners x (some (t, id)) }

/-- The move constructor of `x` from `y`. -/
def moveConstruct (s : CoState F) (x y : Nat) : Except Fault (CoState F) :=
  match s.objects y with
  | none => .error .undefinedBehaviour
  | some other =>
    match other.data with
    | none => .error .undefinedBehaviour
    | some t => .ok { s.coUpdate t other.id x with
        objects := Function.update (Function.update s.objects x (some other)) y
          (some { other with data := none })
        owners := Function.update (Function.update s.owners y none) x (s.owners y) }

/-- The move assignment to `x` from `y`. -/
def moveAssign (s : CoState F) (x y : Nat) : Except Fault (CoState F) :=
  match s.objects x, s.objects y with
  | some self, some other =>
    match self.data with
    | none => .error .undefinedBehaviour
    | some t => .ok { s.coDeregister t self.id with
        objects := Function.update s.objects x (some other)
        owners := Function.update (Function.update s.owners y none) x (s.owners y) }
  | _, _ => .error .undefinedBehaviour

/-- The destructor. A coroutine that awaits the object is destroyed with it. -/
def destroy (s : CoState F) (x : Nat) : Except Fault (CoState F) :=
  match s.objects x with
  | none => .error .undefinedBehaviour
  | some self =>
    match self.data with
    | none => .error .undefinedBehaviour
    | some t => .ok { s.coDeregister t self.id with
        objects := Function.update s.objects x none
        owners := Function.update s.owners x none
        frames := fun h => if s.frames h = some x then none else s.frames h }

/-- `await_suspend`. -/
def awaitSuspend (s : CoState F) (x handle : Nat) : Except Fault (CoState F) :=
  match s.objects x with
  | none => .error .undefinedBehaviour
  | some self =>
    match self.data with
    | none => .error .undefinedBehaviour
    | some t => .ok { s.coHandle t self.id (some handle) with
        objects := Function.update s.objects x (some { self with data := some (coPreferred t) })
        frames := Function.update s.frames handle (some x)
        log := s.log ++ [.suspended self.id handle] }

/-- `await_resume`. -/
def awaitResume (self : ReadinessApiAwaitable) : Int := self.ret

/-- `resume` of a coroutine, up to the end of `await_resume` of the object that it awaits. -/
def resume (s : CoState F) (handle : Nat) : Except Fault (CoState F) :=
  match (s.frames handle).bind s.objects with
  | none => .error .undefinedBehaviour
  | some self => .ok { s with
      frames := Function.update s.frames handle none
      log := s.log ++ [.resumed self.id handle (awaitResume self)] }

/-- `*result = value`. -/
def setRet (s : CoState F) (result : Option Nat) (value : Int) : Except Fault (CoState F) :=
  match result with
  | none => .error .undefinedBehaviour
  | some x =>
    match s.objects x with
    | none => .error .undefinedBehaviour
    | some self => .ok { s with
        objects := Function.update s.objects x (some { self with ret := value }) }

/-- The case `CqeReady` of `handle_dequeue`. -/
def cqeReady (s : CoState F) (t : Nat) (id : Id) (result : Int) : Except Fault (CoState F) :=
  let s := s.note (.completed id result)
  match s.waiters t id with
  | none => .ok s
  | some w =>
    match w.handle with
    | none => .ok s
    | some handle =>
      match s.setRet w.result result with
      | .error e => .error e
      | .ok s => s.resume handle

/-- What can happen next. -/
inductive Action (F : Type) where
  | construct (x t : Nat) (sfunc : F) (ret : Int)
  | moveConstruct (x y : Nat)
  | moveAssign (x y : Nat)
  | destroy (x : Nat)
  | awaitSuspend (x handle : Nat)
  | cqeReady (t : Nat) (id : Id) (result : Int)
deriving DecidableEq, Repr

/-- A step. -/
def step (s : CoState F) : Action F → Except Fault (CoState F)
  | .construct x t sfunc ret => .ok (s.construct x t sfunc ret)
  | .moveConstruct x y => s.moveConstruct x y
  | .moveAssign x y => s.moveAssign x y
  | .destroy x => s.destroy x
  | .awaitSuspend x handle => s.awaitSuspend x handle
  | .cqeReady t id result => s.cqeReady t id result

/-! ## Exact tables -/

/-- The tables have the identifiers of the live objects that were not moved from, each with the
pointer to its present owner. -/
def Exact (s : CoState F) : Prop :=
  (∀ t id, (s.waiters t id).isSome ↔ ∃ x, s.owners x = some (t, id)) ∧
    ∀ x t id w, s.owners x = some (t, id) → s.waiters t id = some w → w.result = some x

/-- The uses of the special members that C++ allows: an object is constructed where none is, and
moved from, assigned to and destroyed while it is live. -/
def Allowed (s : CoState F) : Action F → Prop
  | .construct x _ _ _ => s.objects x = none
  | .moveConstruct x y => s.objects x = none ∧ s.objects y ≠ none
  | .moveAssign x y => s.objects x ≠ none ∧ s.objects y ≠ none
  | .destroy x => s.objects x ≠ none
  | .awaitSuspend _ _ => False
  | .cqeReady _ _ _ => False

/-- Only objects that were not moved from are destroyed, assigned to and moved into new objects, and
an assignment is not from such an object. -/
def Keeps (s : CoState F) : Action F → Prop
  | .construct _ _ _ _ => True
  | .moveConstruct _ y => s.owners y ≠ none
  | .moveAssign x y => s.owners x ≠ none ∧ s.owners y = none
  | .destroy x => s.owners x ≠ none
  | .awaitSuspend _ _ => True
  | .cqeReady _ _ _ => True

variable {s s' : CoState F} {x y t : Nat} {id : Id}

/-- The entries of all tables. -/
def table (s : CoState F) : Nat × Id → Option Waiters := fun k => s.waiters k.1 k.2

theorem table_setWaiters (s : CoState F) (t : Nat) (id : Id) (w : Option Waiters) :
    (s.setWaiters t id w).table = Function.update s.table (t, id) w := by
  funext k
  obtain ⟨t', id'⟩ := k
  simp only [table, setWaiters, Function.update_apply, Prod.mk.injEq]
  by_cases ht : t' = t
  · subst ht
    by_cases hid : id' = id
    · rw [if_pos rfl, if_pos ⟨rfl, hid⟩, Function.update_apply, if_pos hid]
    · rw [if_pos rfl, if_neg fun h => hid h.2, Function.update_apply, if_neg hid]
  · rw [if_neg ht, if_neg fun h => ht h.1]

theorem exact_iff_owned : s.Exact ↔ Owned s.table s.owners (·.result) := by
  constructor
  · rintro ⟨hdomain, haimed⟩
    exact ⟨fun k => hdomain k.1 k.2, fun {x k b} => haimed x k.1 k.2 b⟩
  · rintro ⟨hdomain, haimed⟩
    exact ⟨fun t id => hdomain (t, id), fun x t id w => haimed⟩

/-- What the special members keep: the tables are exact, identifiers in them were drawn, owners have
their identifier and thread, and an object that was moved from has a null pointer. -/
structure Inv (s : CoState F) : Prop where
  exact : s.Exact
  taken : ∀ {t id}, s.waiters t id ≠ none → Taken s.ids id
  owned : ∀ {x t id}, s.owners x = some (t, id) →
    ∃ self, s.objects x = some self ∧ self.id = id ∧ self.data = some t
  moved : ∀ {x self}, s.objects x = some self → s.owners x = none → self.data = none

namespace Inv

theorem owner_eq_none (h : s.Inv) (hx : s.objects x = none) : s.owners x = none := by
  cases howner : s.owners x with
  | none => rfl
  | some k =>
    obtain ⟨self, hself, -⟩ := h.owned howner
    cases hx.symm.trans hself

/-- The owner of an identifier, and its entry. -/
theorem exists_entry (h : s.Inv) (hx : s.owners x = some (t, id)) :
    ∃ self w, s.objects x = some self ∧ self.id = id ∧ self.data = some t ∧
      s.waiters t id = some w ∧ w.result = some x := by
  obtain ⟨self, hself, hid, hdata⟩ := h.owned hx
  obtain ⟨w, hw, hresult⟩ := (exact_iff_owned.mp h.exact).exists_entry hx
  exact ⟨self, w, hself, hid, hdata, hw, hresult⟩

/-- An entry that is written has an identifier that was drawn. -/
theorem taken_setWaiters (h : s.Inv) {w : Option Waiters} (hid : w ≠ none → Taken s.ids id)
    {t' : Nat} {id' : Id} (hne : (s.setWaiters t id w).waiters t' id' ≠ none) : Taken s.ids id' := by
  have hentry : (s.setWaiters t id w).table (t', id') ≠ none := hne
  rw [table_setWaiters, Function.update_apply] at hentry
  split at hentry
  · rename_i heq
    rw [(Prod.mk.inj heq).2]
    exact hid hentry
  · exact h.taken hentry

/-- The entry of a new object is a new one. -/
theorem table_construct (h : s.Inv) (x t : Nat) (sfunc : F) (ret : Int) :
    s.table (t, (getId s.ids (some t)).1) = none ∧
      (s.construct x t sfunc ret).table = Function.update s.table (t, (getId s.ids (some t)).1)
        (some { result := some x }) := by
  have hfree : s.waiters t (getId s.ids (some t)).1 = none := by
    by_contra hne
    exact not_taken_getId s.ids (some t) (h.taken hne)
  refine ⟨hfree, (table_setWaiters s t _ _).trans ?_⟩
  rw [hfree]
  rfl

theorem construct (h : s.Inv) (hx : s.objects x = none) (t : Nat) (sfunc : F) (ret : Int) :
    (s.construct x t sfunc ret).Inv := by
  obtain ⟨hfree, htable⟩ := h.table_construct x t sfunc ret
  refine ⟨exact_iff_owned.mpr ?_, fun {t' id'} hne => ?_, fun {x' t' id'} hx' => ?_,
    fun {x' self} hself hx' => ?_⟩
  · rw [htable]
    exact (exact_iff_owned.mp h.exact).enter hfree (h.owner_eq_none hx) rfl
  · have hentry : (s.construct x t sfunc ret).table (t', id') ≠ none := hne
    rw [htable, Function.update_apply] at hentry
    split at hentry
    · rename_i heq
      exact (taken_getId ..).mpr (Or.inr (Prod.mk.inj heq).2)
    · exact (taken_getId ..).mpr (Or.inl (h.taken hentry))
  · simp only [CoState.construct, Function.update_apply] at hx' ⊢
    split at hx'
    · rename_i heq
      obtain ⟨rfl, rfl⟩ := Prod.mk.inj (Option.some.inj hx')
      rw [if_pos heq]
      exact ⟨_, rfl, rfl, rfl⟩
    · rename_i hne
      rw [if_neg hne]
      exact h.owned hx'
  · simp only [CoState.construct, Function.update_apply] at hself hx'
    split at hx'
    · cases hx'
    · rename_i hne
      rw [if_neg hne] at hself
      exact h.moved hself hx'

/-- A move construction from an owner. -/
theorem moveConstruct_eq (h : s.Inv) (howner : s.owners y = some (t, id)) (x : Nat) :
    ∃ self w, s.objects y = some self ∧ self.id = id ∧ self.data = some t ∧
      s.waiters t id = some w ∧ s.moveConstruct x y =
        .ok { s.setWaiters t id (some { w with result := some x }) with
          objects := Function.update (Function.update s.objects x (some self)) y
            (some { self with data := none })
          owners := Function.update (Function.update s.owners y none) x (some (t, id)) } := by
  obtain ⟨self, w, hself, rfl, hdata, hw, -⟩ := h.exists_entry howner
  refine ⟨self, w, hself, rfl, hdata, hw, ?_⟩
  simp only [CoState.moveConstruct, hself, hdata, coUpdate, hw, howner]

/-- The new object is the owner, and its source has nothing. -/
theorem moveConstruct (h : s.Inv) (hx : s.objects x = none) (hy : s.owners y ≠ none) :
    ∃ s', s.moveConstruct x y = .ok s' ∧ s'.Inv := by
  obtain ⟨⟨t, id⟩, howner⟩ := Option.ne_none_iff_exists'.mp hy
  obtain ⟨self, w, hself, rfl, hdata, hw, hstep⟩ := h.moveConstruct_eq howner x
  have hne : x ≠ y := by
    rintro rfl
    cases hx.symm.trans hself
  refine ⟨_, hstep, exact_iff_owned.mpr ?_, fun {t' id'} hne' => ?_, fun {x' t' id'} hx' => ?_,
    fun {x' self'} hself' hx' => ?_⟩
  -- the entry keeps its identifier, and only its owner changes
  · show Owned (s.setWaiters t self.id (some { w with result := some x })).table _ _
    rw [table_setWaiters]
    exact (exact_iff_owned.mp h.exact).transfer howner (h.owner_eq_none hx) rfl
  -- no identifier is drawn
  · exact h.taken_setWaiters (fun _ => h.taken (hw ▸ Option.some_ne_none w)) hne'
  -- an owner is the new object or an old one, and never the source
  · simp only [Function.update_apply] at hx' ⊢
    split at hx'
    · rename_i heq
      obtain ⟨rfl, rfl⟩ := Prod.mk.inj (Option.some.inj hx')
      rw [heq, if_neg hne, if_pos rfl]
      exact ⟨self, rfl, rfl, hdata⟩
    · rename_i hnx
      split at hx'
      · cases hx'
      · rename_i hny
        rw [if_neg hny, if_neg hnx]
        exact h.owned hx'
  -- the source is moved from, and the new object is an owner
  · simp only [Function.update_apply] at hself' hx'
    split at hself'
    · obtain rfl := Option.some.inj hself'
      rfl
    · rename_i hny
      split at hself'
      · rename_i heq
        rw [if_pos heq] at hx'
        cases hx'
      · rename_i hnx
        rw [if_neg hnx, if_neg hny] at hx'
        exact h.moved hself' hx'

/-- An owner gives up its identifier, and what is left at its address has nothing. -/
theorem release (h : s.Inv) (howner : s.owners x = some (t, id))
    {object : Option ReadinessApiAwaitable} (hobject : ∀ self, object = some self → self.data = none)
    (hwaiters : s'.waiters = (s.setWaiters t id none).waiters) (hids : s'.ids = s.ids)
    (hobjects : s'.objects = Function.update s.objects x object)
    (howners : s'.owners = Function.update s.owners x none) : s'.Inv := by
  have htable : s'.table = (s.setWaiters t id none).table :=
    congrArg (fun waiters (k : Nat × Id) => waiters k.1 k.2) hwaiters
  refine ⟨exact_iff_owned.mpr ?_, fun {t' id'} hne => ?_, fun {x' t' id'} hx' => ?_,
    fun {x' self'} hself' hx' => ?_⟩
  -- the entry and its owner go together
  · rw [htable, table_setWaiters, howners]
    exact (exact_iff_owned.mp h.exact).release howner
  · rw [hids]
    rw [hwaiters] at hne
    exact h.taken_setWaiters (fun hsome => absurd rfl hsome) hne
  · simp only [howners, hobjects, Function.update_apply] at hx' ⊢
    split at hx'
    · cases hx'
    · rename_i hne
      rw [if_neg hne]
      exact h.owned hx'
  · simp only [howners, hobjects, Function.update_apply] at hself' hx'
    split at hself'
    · exact hobject self' hself'
    · rename_i hne
      rw [if_neg hne] at hx'
      exact h.moved hself' hx'

/-- An assignment to an owner from an object that was moved from. -/
theorem moveAssign_eq (h : s.Inv) (howner : s.owners x = some (t, id))
    {other : ReadinessApiAwaitable} (hother : s.objects y = some other) (hmoved : s.owners y = none) :
    s.moveAssign x y = .ok { s.setWaiters t id none with
      objects := Function.update s.objects x (some other)
      owners := Function.update s.owners x none } := by
  obtain ⟨self, hself, rfl, hdata⟩ := h.owned howner
  have howners : Function.update (Function.update s.owners y none) x none =
      Function.update s.owners x none := by
    rw [← hmoved, Function.update_eq_self]
  simp only [CoState.moveAssign, hself, hother, hdata, hmoved, howners]
  rfl

/-- An owner gets nothing from an object that has nothing. -/
theorem moveAssign (h : s.Inv) (hx : s.owners x ≠ none) (hy : s.objects y ≠ none)
    (hmoved : s.owners y = none) : ∃ s', s.moveAssign x y = .ok s' ∧ s'.Inv := by
  obtain ⟨⟨t, id⟩, howner⟩ := Option.ne_none_iff_exists'.mp hx
  obtain ⟨other, hother⟩ := Option.ne_none_iff_exists'.mp hy
  refine ⟨_, h.moveAssign_eq howner hother hmoved, h.release howner ?_ rfl rfl rfl rfl⟩
  intro self hself
  obtain rfl := Option.some.inj hself
  exact h.moved hother hmoved

/-- The end of an owner. -/
theorem destroy_eq (h : s.Inv) (howner : s.owners x = some (t, id)) :
    s.destroy x = .ok { s.setWaiters t id none with
      objects := Function.update s.objects x none
      owners := Function.update s.owners x none
      frames := fun h => if s.frames h = some x then none else s.frames h } := by
  obtain ⟨self, hself, rfl, hdata⟩ := h.owned howner
  simp only [CoState.destroy, hself, hdata]
  rfl

theorem destroy (h : s.Inv) (hx : s.owners x ≠ none) : ∃ s', s.destroy x = .ok s' ∧ s'.Inv := by
  obtain ⟨⟨t, id⟩, howner⟩ := Option.ne_none_iff_exists'.mp hx
  refine ⟨_, h.destroy_eq howner, h.release howner ?_ rfl rfl rfl rfl⟩
  intro self hself
  cases hself

/-- A use of a special member that meets the condition succeeds and keeps the invariant. -/
theorem exists_step (h : s.Inv) {a : Action F} (ha : s.Allowed a) (hkeeps : s.Keeps a) :
    ∃ s', s.step a = .ok s' ∧ s'.Inv := by
  cases a with
  | construct x t sfunc ret => exact ⟨_, rfl, h.construct ha t sfunc ret⟩
  | moveConstruct x y => exact h.moveConstruct ha.1 hkeeps
  | moveAssign x y => exact h.moveAssign hkeeps.1 ha.2 hkeeps.2
  | destroy x => exact h.destroy hkeeps
  | awaitSuspend x handle => cases ha
  | cqeReady t id result => cases ha

/-- A use of a special member that does not meet the condition goes through a null pointer or leaves
a table that is not exact. -/
theorem keeps_of_exact (h : s.Inv) {a : Action F} (ha : s.Allowed a) (hstep : s.step a = .ok s')
    (hexact : s'.Exact) : s.Keeps a := by
  have hnull : ∀ {x self}, s.objects x = some self → self.data ≠ none → s.owners x ≠ none :=
    fun hself hdata howner => hdata (h.moved hself howner)
  cases a with
  | construct x t sfunc ret => trivial
  | moveConstruct x y =>
    simp only [step, CoState.moveConstruct] at hstep
    split at hstep
    · cases hstep
    · rename_i other hother
      split at hstep
      · cases hstep
      · rename_i t hdata
        exact hnull hother (by rw [hdata]; exact Option.some_ne_none t)
  | moveAssign x y =>
    simp only [step, CoState.moveAssign] at hstep
    split at hstep
    · rename_i self other hself hother
      split at hstep
      · cases hstep
      · rename_i t hdata
        obtain rfl := Except.ok.inj hstep
        have hx : s.owners x ≠ none := hnull hself (by rw [hdata]; exact Option.some_ne_none t)
        refine ⟨hx, ?_⟩
        by_contra hy
        obtain ⟨⟨ty, idy⟩, howner⟩ := Option.ne_none_iff_exists'.mp hy
        obtain ⟨b, hb, hresult⟩ := (exact_iff_owned.mp hexact).exists_entry
          (x := x) (k := (ty, idy)) ((Function.update_self ..).trans howner)
        -- the entry is still aimed at the source
        have hb' : (s.setWaiters t self.id none).table (ty, idy) = some b := hb
        rw [table_setWaiters, Function.update_apply] at hb'
        split at hb'
        · cases hb'
        · rename_i hne
          obtain ⟨self', w, hself', hid, hdata', hw, hw'⟩ := h.exists_entry howner
          obtain rfl := Option.some.inj (hw.symm.trans hb')
          obtain rfl := Option.some.inj (hw'.symm.trans hresult)
          obtain rfl := Option.some.inj (hself'.symm.trans hself)
          obtain rfl := Option.some.inj (hdata'.symm.trans hdata)
          rw [hid] at hne
          exact hne rfl
    · cases hstep
  | destroy x =>
    simp only [step, CoState.destroy] at hstep
    split at hstep
    · cases hstep
    · rename_i self hself
      split at hstep
      · cases hstep
      · rename_i t hdata
        exact hnull hself (by rw [hdata]; exact Option.some_ne_none t)
  | awaitSuspend x handle => trivial
  | cqeReady t id result => trivial

end Inv

theorem start_inv : ({} : CoState F).Inv where
  exact := exact_iff_owned.mpr Owned.empty
  taken hne := absurd rfl hne
  owned hx := by cases hx
  moved hx := by cases hx

/-- In a run whose special members meet the condition, the tables are exact in every state; and a
next use of a special member leaves them exact, without a null pointer, just if it meets it. -/
theorem exact_iff_keeps (s : CoState F)
    (h : Reached step (fun s a => s.Allowed a ∧ s.Keeps a) ({} : CoState F) s) :
    s.Exact ∧ ∀ a, s.Allowed a → ((∃ s', s.step a = .ok s' ∧ s'.Exact) ↔ s.Keeps a) := by
  have hinv : s.Inv := by
    refine h.invariant start_inv fun s a s' hinv hG hstep => ?_
    obtain ⟨s₁, hs₁, hinv₁⟩ := hinv.exists_step hG.1 hG.2
    obtain rfl := Except.ok.inj (hs₁.symm.trans hstep)
    exact hinv₁
  refine ⟨hinv.exact, fun a ha => ⟨?_, fun hkeeps => ?_⟩⟩
  · rintro ⟨s', hstep, hexact⟩
    exact hinv.keeps_of_exact ha hstep hexact
  · obtain ⟨s', hstep, hinv'⟩ := hinv.exists_step ha hkeeps
    exact ⟨s', hstep, hinv'.exact⟩

instance (s : CoState F) : (a : Action F) → Decidable (s.Allowed a)
  | .construct x _ _ _ => inferInstanceAs (Decidable (s.objects x = none))
  | .moveConstruct x y => inferInstanceAs (Decidable (s.objects x = none ∧ s.objects y ≠ none))
  | .moveAssign x y => inferInstanceAs (Decidable (s.objects x ≠ none ∧ s.objects y ≠ none))
  | .destroy x => inferInstanceAs (Decidable (s.objects x ≠ none))
  | .awaitSuspend _ _ => inferInstanceAs (Decidable False)
  | .cqeReady _ _ _ => inferInstanceAs (Decidable False)

instance (s : CoState F) : (a : Action F) → Decidable (s.Keeps a)
  | .construct _ _ _ _ => isTrue trivial
  | .moveConstruct _ y => inferInstanceAs (Decidable (s.owners y ≠ none))
  | .moveAssign x y => inferInstanceAs (Decidable (s.owners x ≠ none ∧ s.owners y = none))
  | .destroy x => inferInstanceAs (Decidable (s.owners x ≠ none))
  | .awaitSuspend _ _ => isTrue trivial
  | .cqeReady _ _ _ => isTrue trivial

/-- Two objects, of which the first is moved into a third. -/
def twoObjects : List (Action Unit) :=
  [.construct 0 0 () 0, .construct 1 0 () 0, .moveConstruct 2 0]

/-- The tables have both identifiers, and the second object and the new one are their owners. -/
theorem twoObjects_exact : ∃ s : CoState Unit,
    runActions step twoObjects {} = .ok s ∧ s.Exact ∧
      ∀ a, s.Allowed a → ((∃ s', s.step a = .ok s' ∧ s'.Exact) ↔ s.Keeps a) := by
  have hrun : (runActions step twoObjects ({} : CoState Unit)).map (fun s => s.owners 2) =
      .ok (some (0, some 0)) := by
    decide +kernel
  obtain ⟨s, hrun, -⟩ := exists_of_map_eq_ok hrun
  refine ⟨s, hrun, exact_iff_keeps s (reached_of_runActions .start ?_ hrun)⟩
  decide +kernel

/-- After it the source cannot be destroyed without a null pointer, and when the second object is
assigned to the new one, the entry is still aimed at the second one. -/
theorem twoObjects_broken : Meets step (fun s a => s.Allowed a) twoObjects ({} : CoState Unit) ∧
    ∃ s : CoState Unit, runActions step twoObjects {} = .ok s ∧
      s.Allowed (.destroy 0) ∧ s.step (.destroy 0) = .error .undefinedBehaviour ∧
      s.Allowed (.moveAssign 2 1) ∧ ∃ s', s.step (.moveAssign 2 1) = .ok s' ∧ ¬ s'.Exact := by
  have hobjects : (runActions step twoObjects ({} : CoState Unit)).map
      (fun s => (s.objects 0, s.objects 1, s.objects 2)) =
      .ok (some ⟨0, some 0, none⟩, some ⟨0, some 1, some 0⟩, some ⟨0, some 0, some 0⟩) := by
    decide +kernel
  have htables : (runActions step twoObjects ({} : CoState Unit)).map
      (fun s => (s.owners 1, s.waiters 0 (some 1))) =
      .ok (some (0, some 1), some { result := some 1 }) := by
    decide +kernel
  obtain ⟨s, hrun, hobjects⟩ := exists_of_map_eq_ok hobjects
  rw [hrun] at htables
  simp only [Except.map, Except.ok.injEq, Prod.mk.injEq] at htables hobjects
  obtain ⟨h₀, h₁, h₂⟩ := hobjects
  obtain ⟨howner, hentry⟩ := htables
  have hlive : ∀ {x self}, s.objects x = some self → s.objects x ≠ none := by
    intro x self hself hnone
    cases hself.symm.trans hnone
  refine ⟨by decide +kernel, s, hrun, hlive h₀, ?_, ⟨hlive h₂, hlive h₁⟩, _, by simp only [step, moveAssign, h₂, h₁]; rfl,
    fun hexact => ?_⟩
  · simp only [step, destroy, h₀]
  · have hkept : (s.coDeregister 0 (some 0)).waiters 0 (some 1) = some { result := some 1 } := by
      simp only [coDeregister, setWaiters, Function.update_self]
      exact (Function.update_of_ne (by decide) ..).trans hentry
    have howner' : Function.update (Function.update s.owners 1 none) 2 (s.owners 1) 2 =
        some (0, some 1) := by
      rw [Function.update_self, howner]
    cases hexact.2 2 0 (some 1) _ howner' hkept

end CoState

end LocalSoftware
