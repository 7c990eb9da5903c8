import LocalSoftware.Common.ThreadShared
import LocalSoftware.Library.Transition
import Mathlib.Algebra.GroupWithZero.Nat
import Mathlib.Data.List.Nodup

/-!
# Drawing identifiers at the same time

`get_proc_id`, `get_obj_id` and `get_tim_id` of `thread_data.cpp` and the copies of the first two in
`async_handler.cpp`, in 64-bit arithmetic and step by step: the increment of a shared counter is one
step, and the steps of the instances interleave. `step_refines` says that every step is a draw of
`getId` or leaves the identifiers drawn as they are, and `ids_unique` that no identifier is returned
twice.
-/

set_option autoImplicit false

namespace LocalSoftware

/-- The kinds of identifiers. -/
inductive IdKind where
  | proc
  | obj
  | tim
deriving DecidableEq, Repr

/-- `IdBlocks`: the numbers of the next blocks. -/
structure IdBlocks where
  procBlock : UInt64 := 0
  objBlock : UInt64 := 0
  timerBlock : UInt64 := 0
deriving DecidableEq, Repr

namespace IdBlocks

/-- The counter of one kind. -/
def get (b : IdBlocks) : IdKind → UInt64
  | .proc => b.procBlock
  | .obj => b.objBlock
  | .tim => b.timerBlock

/-- The postfix increment of the counter of one kind. -/
def fetchAdd (b : IdBlocks) : IdKind → IdBlocks
  | .proc => { b with procBlock := b.procBlock + 1 }
  | .obj => { b with objBlock := b.objBlock + 1 }
  | .tim => { b with timerBlock := b.timerBlock + 1 }

theorem get_fetchAdd (b : IdBlocks) (kind kind' : IdKind) :
    (b.fetchAdd kind).get kind' = if kind' = kind then b.get kind + 1 else b.get kind' := by
  cases kind <;> cases kind' <;> rfl

end IdBlocks

/-- The members for one kind of identifiers: `p_init`, `proc_id_base` and `proc_id_curr`, and so
on. -/
structure IdCursor where
  init : Bool := false
  base : UInt64
  curr : UInt64
deriving DecidableEq, Repr

/-- The block that is held, and the cursor in it. -/
def IdCursor.block (c : IdCursor) : Option (Nat × Nat) :=
  if c.init then some (c.base.toNat, c.curr.toNat) else none

/-- A `ThreadData` needs a block. -/
def ThreadData.needsBlock (c : IdCursor) : Bool := !c.init || c.curr == c.base + 1000

/-- The `AsyncHandler` needs a block. It is a static object, so its members have values before they
are set. -/
def AsyncHandler.needsBlock (c : IdCursor) : Bool := c.curr == c.base + 1000 || !c.init

/-- The instances: the `AsyncHandler` is `none`. -/
def needsBlock : ThreadId → IdCursor → Bool
  | some _ => ThreadData.needsBlock
  | none => AsyncHandler.needsBlock

/-- The `AsyncHandler` has no `get_tim_id`. -/
def provides : ThreadId → IdKind → Bool
  | none, .tim => false
  | _, _ => true

/-- Where an instance is: in no call, before the increment of a counter, or after it. -/
inductive IdPhase where
  | idle
  | fetching (kind : IdKind)
  | fetched (kind : IdKind) (block : UInt64)
deriving DecidableEq, Repr

/-- All instances and the shared counters. `fetches` and `returned` are history variables: how many
blocks of each kind were taken, and the identifiers that were returned. -/
structure IdDraws where
  blocks : IdBlocks := {}
  cursor : ThreadId → IdKind → IdCursor
  phase : ThreadId → IdPhase := fun _ => .idle
  fetches : IdKind → Nat := fun _ => 0
  returned : List (IdKind × UInt64) := []

namespace IdDraws

/-- What an instance does next. -/
inductive Action where
  | call (t : ThreadId) (kind : IdKind)
  | fetchAdd (t : ThreadId)
  | store (t : ThreadId)
deriving DecidableEq, Repr

/-- Assignment to the members of one instance for one kind. -/
def setCursor (s : IdDraws) (t : ThreadId) (kind : IdKind) (c : IdCursor) : IdDraws :=
  { s with cursor := Function.update s.cursor t (Function.update (s.cursor t) kind c) }

/-- The end of a call: `curr` is returned and incremented. -/
def finish (s : IdDraws) (t : ThreadId) (kind : IdKind) (c : IdCursor) : IdDraws :=
  { s.setCursor t kind { c with curr := c.curr + 1 } with
    phase := Function.update s.phase t .idle
    returned := s.returned ++ [(kind, c.curr)] }

/-- A step of one instance, if it is there. -/
def step (s : IdDraws) : Action → Except Unit IdDraws
  | .call t kind =>
    match s.phase t with
    | .idle =>
      if provides t kind then
        if needsBlock t (s.cursor t kind) then
          .ok { s with phase := Function.update s.phase t (.fetching kind) }
        else .ok (s.finish t kind (s.cursor t kind))
      else .error ()
    | _ => .error ()
  | .fetchAdd t =>
    match s.phase t with
    | .fetching kind =>
      .ok { s with
        blocks := s.blocks.fetchAdd kind
        phase := Function.update s.phase t (.fetched kind (s.blocks.get kind))
        fetches := Function.update s.fetches kind (s.fetches kind + 1) }
    | _ => .error ()
  | .store t =>
    match s.phase t with
    | .fetched kind block =>
      .ok (s.finish t kind { init := true, base := 1000 * block, curr := 1000 * block })
    | _ => .error ()

/-! ## The blocks that are drawn from -/

variable {s s' : IdDraws} {a : IdKind → Ids} {t t' : ThreadId} {kind kind' : IdKind}

/-- The block of an instance and its cursor in it. The first identifier of a block counts as drawn
from the increment on. -/
def drawn (s : IdDraws) (t : ThreadId) (kind : IdKind) : Option (Nat × Nat) :=
  match s.phase t with
  | .fetched kind' block =>
    if kind' = kind then some (1000 * block.toNat, 1000 * block.toNat + 1)
    else (s.cursor t kind).block
  | _ => (s.cursor t kind).block

theorem drawn_fetched {block : UInt64} (h : s.phase t = .fetched kind block) :
    s.drawn t kind = some (1000 * block.toNat, 1000 * block.toNat + 1) := by
  simp only [drawn, h, if_true]

theorem drawn_held (h : ∀ block, s.phase t ≠ .fetched kind block) :
    s.drawn t kind = (s.cursor t kind).block := by
  unfold drawn
  split
  · rename_i kind' block hphase
    apply if_neg
    intro hkind
    subst hkind
    exact h block hphase
  · rfl

/-- The state draws from the blocks `a`: their counters and cursors agree, what was returned was
drawn, once, and so was what an instance is about to return. -/
structure Refines (s : IdDraws) (a : IdKind → Ids) : Prop where
  blocks : ∀ kind, (s.blocks.get kind).toNat = (a kind).block
  fetches : ∀ kind, s.fetches kind = (a kind).block
  cursor : ∀ t kind, (a kind).cursor t = s.drawn t kind
  fetching : ∀ {t kind}, s.phase t = .fetching kind → needsBlock t (s.cursor t kind) = true
  issued : ∀ {kind id}, (kind, id) ∈ s.returned → (a kind).Issued id.toNat
  pending : ∀ {t kind block}, s.phase t = .fetched kind block →
    (a kind).Issued (1000 * block.toNat) ∧
      ∀ {id}, (kind, id) ∈ s.returned → id.toNat ≠ 1000 * block.toNat
  nodup : s.returned.Nodup

theorem needsBlock_eq_false_iff {c : IdCursor} :
    needsBlock t c = false ↔ c.init = true ∧ c.curr ≠ c.base + 1000 := by
  cases t with
  | none => simp [needsBlock, AsyncHandler.needsBlock, and_comm]
  | some t => simp [needsBlock, ThreadData.needsBlock]

/-- A block that is held lies below `2 ^ 64`, so its end does not wrap. -/
theorem Refines.toNat_end (h : Refines s a) (hsmall : 1000 * s.fetches kind < 2 ^ 64)
    (hheld : s.drawn t kind = (s.cursor t kind).block) (hinit : (s.cursor t kind).init = true) :
    (a kind).cursor t = some ((s.cursor t kind).base.toNat, (s.cursor t kind).curr.toNat) ∧
      ((s.cursor t kind).base + 1000).toNat = (s.cursor t kind).base.toNat + 1000 := by
  have hcursor : (a kind).cursor t =
      some ((s.cursor t kind).base.toNat, (s.cursor t kind).curr.toNat) := by
    rw [h.cursor, hheld, IdCursor.block, if_pos hinit]
  obtain ⟨-, -, b, hb, hbase⟩ := (a kind).bounds hcursor
  have hend := @BlockIds.mul_add_le 1000 _ _ hb
  rw [h.fetches] at hsmall
  refine ⟨hcursor, ?_⟩
  rw [UInt64.toNat_add, show (1000 : UInt64).toNat = 1000 from rfl]
  exact Nat.mod_eq_of_lt (by omega)

theorem cursor_setCursor (c : IdCursor) (t' : ThreadId) (kind' : IdKind) :
    (s.setCursor t kind c).cursor t' kind' =
      if t' = t ∧ kind' = kind then c else s.cursor t' kind' := by
  simp only [setCursor, Function.update_apply]
  by_cases ht : t' = t
  · subst ht
    by_cases hkind : kind' = kind
    · rw [if_pos rfl, if_pos ⟨rfl, hkind⟩, Function.update_apply, if_pos hkind]
    · rw [if_pos rfl, if_neg fun h => hkind h.2, Function.update_apply, if_neg hkind]
  · rw [if_neg ht, if_neg fun h => ht h.1]

/-- What an instance draws from when a call returns. -/
theorem drawn_finish {c : IdCursor} (hinit : c.init = true)
    (hphase : ∀ kind' block, s.phase t = .fetched kind' block → kind' = kind) (t' : ThreadId)
    (kind' : IdKind) : (s.finish t kind c).drawn t' kind' =
      if t' = t ∧ kind' = kind then some (c.base.toNat, (c.curr + 1).toNat)
      else s.drawn t' kind' := by
  have hcursor : (s.finish t kind c).cursor t' kind' =
      if t' = t ∧ kind' = kind then { c with curr := c.curr + 1 } else s.cursor t' kind' :=
    cursor_setCursor _ t' kind'
  -- the instance itself draws from its cursor again, and the others are not touched
  by_cases ht : t' = t
  · subst ht
    have hidle : (s.finish t' kind c).phase t' = .idle := Function.update_self ..
    rw [drawn_held (by intro block h; rw [hidle] at h; cases h), hcursor]
    by_cases hkind : kind' = kind
    · rw [if_pos ⟨rfl, hkind⟩, if_pos ⟨rfl, hkind⟩]
      exact if_pos hinit
    · rw [if_neg fun h => hkind h.2, if_neg fun h => hkind h.2, drawn_held]
      exact fun block h => hkind (hphase kind' block h)
  · have hphase' : (s.finish t kind c).phase t' = s.phase t' := Function.update_of_ne ht ..
    rw [if_neg fun h => ht h.1] at hcursor ⊢
    unfold drawn
    rw [hphase', hcursor]

/-- A call returns the next identifier of `b`, which are the blocks of its kind after the draw. -/
theorem Refines.finish {b : Ids} {c : IdCursor} (h : Refines s a)
    (hphase : ∀ kind' block, s.phase t = .fetched kind' block → kind' = kind)
    (hinit : c.init = true) (hblock : b.block = (a kind).block)
    (hcursor : ∀ t', b.cursor t' =
      if t' = t then some (c.base.toNat, (c.curr + 1).toNat) else (a kind).cursor t')
    (hissued : ∀ n, (a kind).Issued n ∨ n = c.curr.toNat → b.Issued n)
    (hnew : (kind, c.curr) ∉ s.returned)
    (hothers : ∀ t' block, t' ≠ t → s.phase t' = .fetched kind block →
      c.curr.toNat ≠ 1000 * block.toNat) :
    Refines (s.finish t kind c) (Function.update a kind b) := by
  -- an instance in the middle of a call is another one, and was so before
  have hphase' : ∀ {t' p}, (s.finish t kind c).phase t' = p → p ≠ .idle → t' ≠ t ∧ s.phase t' = p := by
    intro t' p hp hne
    by_cases ht : t' = t
    · rw [ht] at hp
      exact absurd (hp.symm.trans (Function.update_self ..)) hne
    · exact ⟨ht, (Function.update_of_ne ht ..).symm.trans hp⟩
  -- only the last return is new
  have hreturned : ∀ {r}, r ∈ (s.finish t kind c).returned → r ∈ s.returned ∨ r = (kind, c.curr) := by
    intro r hr
    rcases List.mem_append.mp hr with hr | hr
    · exact Or.inl hr
    · exact Or.inr (List.mem_singleton.mp hr)
  refine ⟨fun kind' => ?_, fun kind' => ?_, fun t' kind' => ?_, fun {t' kind'} hp => ?_,
    fun {kind' id} hr => ?_, fun {t' kind' block} hp => ?_, ?_⟩
  · rw [Function.update_apply]
    split
    · rename_i hkind
      rw [hkind, hblock]
      exact h.blocks kind
    · exact h.blocks kind'
  · rw [Function.update_apply]
    split
    · rename_i hkind
      rw [hkind, hblock]
      exact h.fetches kind
    · exact h.fetches kind'
  · rw [drawn_finish hinit hphase, Function.update_apply]
    by_cases hkind : kind' = kind
    · subst hkind
      rw [if_pos rfl, hcursor]
      by_cases ht : t' = t
      · rw [if_pos ht, if_pos ⟨ht, rfl⟩]
      · rw [if_neg ht, if_neg fun h => ht h.1]
        exact h.cursor t' kind'
    · rw [if_neg hkind, if_neg fun h => hkind h.2]
      exact h.cursor t' kind'
  · obtain ⟨ht, hp⟩ := hphase' hp (fun h => by cases h)
    have hkept : (s.finish t kind c).cursor t' kind' = s.cursor t' kind' :=
      (cursor_setCursor _ t' kind').trans (if_neg fun h => ht h.1)
    rw [hkept]
    exact h.fetching hp
  · rw [Function.update_apply]
    rcases hreturned hr with hr | hr
    · split
      · rename_i hkind
        exact hissued _ (Or.inl (hkind ▸ h.issued hr))
      · exact h.issued hr
    · obtain ⟨hkind, rfl⟩ := Prod.mk.inj hr
      rw [if_pos hkind]
      exact hissued _ (Or.inr rfl)
  -- what another instance is about to return is not what this call returned
  · obtain ⟨ht, hold⟩ := hphase' hp (fun h => by cases h)
    obtain ⟨hpending, hfree⟩ := h.pending hold
    rw [Function.update_apply]
    refine ⟨?_, fun {id} hr => ?_⟩
    · split
      · rename_i hkind
        exact hissued _ (Or.inl (hkind ▸ hpending))
      · exact hpending
    · rcases hreturned hr with hr | hr
      · exact hfree hr
      · obtain ⟨rfl, rfl⟩ := Prod.mk.inj hr
        exact hothers t' block ht hold
  · exact List.nodup_append.mpr ⟨h.nodup, List.nodup_singleton _, fun r hr r' hr' heq =>
      hnew (List.mem_singleton.mp hr' ▸ heq ▸ hr)⟩

/-! ## The steps -/

/-- A call returns from the block that its instance holds. -/
theorem Refines.call (h : Refines s a) (hsmall : 1000 * s.fetches kind < 2 ^ 64)
    (hidle : s.phase t = .idle) (hblock : needsBlock t (s.cursor t kind) = false) :
    Refines (s.finish t kind (s.cursor t kind))
      (Function.update a kind (getId (a kind) t).2) := by
  obtain ⟨hinit, hcurr⟩ := needsBlock_eq_false_iff.mp hblock
  have hheld : s.drawn t kind = (s.cursor t kind).block :=
    drawn_held fun block hp => by rw [hidle] at hp; cases hp
  obtain ⟨hcursor, hend⟩ := h.toNat_end hsmall hheld hinit
  obtain ⟨hle, hle', -⟩ := (a kind).bounds hcursor
  -- `curr` is not the end of the block, and the end does not wrap: it lies below
  have hlt : (s.cursor t kind).curr.toNat < (s.cursor t kind).base.toNat + 1000 := by
    rcases Nat.lt_or_ge (s.cursor t kind).curr.toNat ((s.cursor t kind).base.toNat + 1000) with
      hlt | hge
    · exact hlt
    · exact absurd (UInt64.toNat_inj.mp ((Nat.le_antisymm hle' hge).trans hend.symm)) hcurr
  have hsucc : ((s.cursor t kind).curr + 1).toNat = (s.cursor t kind).curr.toNat + 1 := by
    have hbound := ((s.cursor t kind).base + 1000).toNat_lt
    rw [UInt64.toNat_add, show (1 : UInt64).toNat = 1 from rfl]
    exact Nat.mod_eq_of_lt (by omega)
  -- the draw of the blocks is from the same block
  have hdraw : (getId (a kind) t).2 = (a kind).take t _ _ hcursor hlt := by
    rcases (a kind).next_cases t (by decide) with ⟨base, curr, hb, hlt', hnext⟩ | ⟨hused, -⟩
    · obtain ⟨rfl, rfl⟩ := Prod.mk.inj (Option.some.inj (hb.symm.trans hcursor))
      exact congrArg Prod.snd hnext
    · exact absurd (hused _ _ hcursor) (Nat.not_le_of_lt hlt)
  -- the cursor is in front of all that was drawn from its block
  have hfresh : ¬ (a kind).Issued (s.cursor t kind).curr.toNat := by
    rintro ⟨-, hahead⟩
    rcases hahead t _ _ hcursor with hself | hafter
    · exact Nat.lt_irrefl _ hself
    · exact Nat.not_le_of_lt hlt hafter
  rw [hdraw]
  refine h.finish (fun kind' block hp => ?_) hinit rfl (fun t' => ?_) (fun n hn => ?_) (fun hr => ?_)
    fun t' block _ hp heq => ?_
  · rw [hidle] at hp
    cases hp
  · rw [hsucc]
    exact Function.update_apply ..
  · exact (BlockIds.issued_take hcursor hlt n).mpr hn
  · exact hfresh (h.issued hr)
  · rw [heq] at hfresh
    exact hfresh (h.pending hp).1

/-- A call that needs a block draws nothing yet. -/
theorem Refines.wait (h : Refines s a) (hidle : s.phase t = .idle)
    (hblock : needsBlock t (s.cursor t kind) = true) :
    Refines { s with phase := Function.update s.phase t (.fetching kind) } a := by
  have hfetched : ∀ {t' kind' block},
      Function.update s.phase t (.fetching kind) t' = .fetched kind' block →
        s.phase t' = .fetched kind' block := by
    intro t' kind' block hp
    rw [Function.update_apply] at hp
    split at hp
    · cases hp
    · exact hp
  refine ⟨h.blocks, h.fetches, fun t' kind' => ?_, fun {t' kind'} hp => ?_, h.issued,
    fun hp => h.pending (hfetched hp), h.nodup⟩
  · rw [h.cursor]
    by_cases ht : t' = t
    · have hold : s.drawn t kind' = (s.cursor t kind').block := by
        apply drawn_held
        intro block hp
        rw [hidle] at hp
        cases hp
      rw [ht, hold]
      symm
      apply drawn_held
      intro block hp
      cases (Function.update_self ..).symm.trans hp
    · simp only [drawn, Function.update_of_ne ht]
  · simp only [Function.update_apply] at hp
    split at hp
    · rename_i ht
      obtain rfl := IdPhase.fetching.inj hp
      rw [ht]
      exact hblock
    · exact h.fetching hp

/-! ### The increment of a counter -/

/-- The state after the increment. -/
def increment (s : IdDraws) (t : ThreadId) (kind : IdKind) : IdDraws :=
  { s with
    blocks := s.blocks.fetchAdd kind
    phase := Function.update s.phase t (.fetched kind (s.blocks.get kind))
    fetches := Function.update s.fetches kind (s.fetches kind + 1) }

theorem drawn_fetching (hphase : s.phase t = .fetching kind) (kind' : IdKind) :
    s.drawn t kind' = (s.cursor t kind').block :=
  drawn_held fun block hp => by rw [hphase] at hp; cases hp

/-- The block that is held is used up: `curr` reached its end, and nobody else moves it. -/
theorem Refines.used_up (h : Refines s a) (hsmall : 1000 * s.fetches kind < 2 ^ 64)
    (hphase : s.phase t = .fetching kind) (base curr : Nat)
    (hcursor : (a kind).cursor t = some (base, curr)) : base + 1000 ≤ curr := by
  have hheld := drawn_fetching hphase kind
  rw [h.cursor, hheld, IdCursor.block] at hcursor
  split at hcursor
  · rename_i hinit
    obtain ⟨rfl, rfl⟩ := Prod.mk.inj (Option.some.inj hcursor)
    obtain ⟨-, hend⟩ := h.toNat_end hsmall hheld hinit
    have hneeds := h.fetching hphase
    have hcurr : (s.cursor t kind).curr = (s.cursor t kind).base + 1000 := by
      by_contra hne
      rw [needsBlock_eq_false_iff.mpr ⟨hinit, hne⟩] at hneeds
      cases hneeds
    exact Nat.le_of_eq (by rw [hcurr, hend])
  · cases hcursor

/-- So `getId` takes the next block. -/
theorem Refines.getId_eq_fetch (h : Refines s a) (hsmall : 1000 * s.fetches kind < 2 ^ 64)
    (hphase : s.phase t = .fetching kind) : (getId (a kind) t).2 = (a kind).fetch t (by decide) := by
  rcases (a kind).next_cases t (by decide) with ⟨base, curr, hb, hlt, -⟩ | ⟨-, hnext⟩
  · exact absurd (h.used_up hsmall hphase _ _ hb) (Nat.not_le_of_lt hlt)
  · exact congrArg Prod.snd hnext

/-- Besides the block that was fetched now, the fetched blocks are as before. -/
theorem phase_increment {block : UInt64} (hp : (s.increment t kind).phase t' = .fetched kind' block) :
    (t' = t ∧ kind' = kind ∧ block = s.blocks.get kind) ∨
      (t' ≠ t ∧ s.phase t' = .fetched kind' block) := by
  simp only [increment, Function.update_apply] at hp
  split at hp
  · obtain ⟨rfl, rfl⟩ := IdPhase.fetched.inj hp
    exact Or.inl ⟨‹_›, rfl, rfl⟩
  · exact Or.inr ⟨‹_›, hp⟩

theorem drawn_increment : (s.increment t kind).drawn t kind =
    some (1000 * (s.blocks.get kind).toNat, 1000 * (s.blocks.get kind).toNat + 1) :=
  drawn_fetched (Function.update_self ..)

/-- The other instances, and this one for the other kinds, draw from what they had. -/
theorem drawn_increment_of_ne (hphase : s.phase t = .fetching kind) (hne : t' ≠ t ∨ kind' ≠ kind) :
    (s.increment t kind).drawn t' kind' = s.drawn t' kind' := by
  by_cases ht : t' = t
  · have hkind := hne.resolve_left fun h => h ht
    rw [ht, drawn_fetching hphase]
    apply drawn_held
    intro block hp
    exact hkind (IdPhase.fetched.inj ((Function.update_self ..).symm.trans hp)).1.symm
  · simp only [drawn, increment, Function.update_of_ne ht]

/-- The counter does not wrap. -/
theorem Refines.blocks_increment (h : Refines s a)
    (hsmall' : 1000 * (s.fetches kind + 1) < 2 ^ 64) (kind' : IdKind) :
    ((s.increment t kind).blocks.get kind').toNat =
      (Function.update a kind ((a kind).fetch t (by decide)) kind').block := by
  rw [increment, IdBlocks.get_fetchAdd, Function.update_apply]
  split
  · have hcount := h.fetches kind
    rw [show ((a kind).fetch t (by decide)).block = (a kind).block + 1 from rfl, UInt64.toNat_add,
      h.blocks, show (1 : UInt64).toNat = 1 from rfl]
    exact Nat.mod_eq_of_lt (by omega)
  · exact h.blocks kind'

theorem Refines.cursor_increment (h : Refines s a) (hphase : s.phase t = .fetching kind)
    (t' : ThreadId) (kind' : IdKind) :
    (Function.update a kind ((a kind).fetch t (by decide)) kind').cursor t' =
      (s.increment t kind).drawn t' kind' := by
  rw [Function.update_apply]
  by_cases hkind : kind' = kind
  · subst hkind
    rw [if_pos rfl]
    by_cases ht : t' = t
    · subst ht
      rw [drawn_increment, h.blocks]
      exact Function.update_self ..
    · rw [drawn_increment_of_ne hphase (Or.inl ht), ← h.cursor]
      exact Function.update_of_ne ht ..
  · rw [if_neg hkind, drawn_increment_of_ne hphase (Or.inr hkind)]
    exact h.cursor t' kind'

/-- The increment of a counter takes the next block, and its first identifier. -/
theorem Refines.fetchAdd (h : Refines s a) (hsmall : 1000 * s.fetches kind < 2 ^ 64)
    (hsmall' : 1000 * (s.fetches kind + 1) < 2 ^ 64) (hphase : s.phase t = .fetching kind) :
    Refines (s.increment t kind) (Function.update a kind (getId (a kind) t).2) := by
  have hissued : ∀ n, ((a kind).fetch t (by decide)).Issued n ↔
      (a kind).Issued n ∨ n = 1000 * (a kind).block :=
    fun n => BlockIds.issued_fetch (h.used_up hsmall hphase) n
  have hfresh : ¬ (a kind).Issued (1000 * (a kind).block) := fun hin => Nat.lt_irrefl _ hin.1
  rw [h.getId_eq_fetch hsmall hphase]
  refine ⟨h.blocks_increment hsmall', fun kind' => ?_, h.cursor_increment hphase,
    fun {t' kind'} hp => ?_, fun {kind' id} hr => ?_, fun {t' kind' block} hp => ?_, h.nodup⟩
  · simp only [increment, Function.update_apply]
    split
    · rw [show ((a kind).fetch t (by decide)).block = (a kind).block + 1 from rfl, h.fetches]
    · exact h.fetches kind'
  · simp only [increment, Function.update_apply] at hp
    split at hp
    · cases hp
    · exact h.fetching hp
  · rw [Function.update_apply]
    split
    · rename_i hkind
      exact (hissued _).mpr (Or.inl (hkind ▸ h.issued hr))
    · exact h.issued hr
  · rcases phase_increment hp with ⟨-, rfl, rfl⟩ | ⟨-, hold⟩
    -- the first identifier of the new block was not returned before the increment
    · rw [Function.update_self, h.blocks]
      refine ⟨(hissued _).mpr (Or.inr rfl), fun {id} hr heq => ?_⟩
      rw [← heq] at hfresh
      exact hfresh (h.issued hr)
    · obtain ⟨hin, hfree⟩ := h.pending hold
      refine ⟨?_, hfree⟩
      rw [Function.update_apply]
      split
      · rename_i hkind
        exact (hissued _).mpr (Or.inl (hkind ▸ hin))
      · exact hin

/-! ### The end of a call -/

/-- The call returns the first identifier of the block. -/
theorem Refines.store (h : Refines s a) (hsmall : 1000 * s.fetches kind < 2 ^ 64) {block : UInt64}
    (hphase : s.phase t = .fetched kind block) :
    Refines (s.finish t kind { init := true, base := 1000 * block, curr := 1000 * block }) a := by
  have hcursor : (a kind).cursor t = some (1000 * block.toNat, 1000 * block.toNat + 1) :=
    (h.cursor t kind).trans (drawn_fetched hphase)
  obtain ⟨-, -, b, hb, hbase⟩ := (a kind).bounds hcursor
  have hcount := h.fetches kind
  -- the block lies below 2^64
  have hfirst : (1000 * block).toNat = 1000 * block.toNat := by
    rw [UInt64.toNat_mul, show (1000 : UInt64).toNat = 1000 from rfl]
    exact Nat.mod_eq_of_lt (by omega)
  have hsecond : (1000 * block + 1).toNat = 1000 * block.toNat + 1 := by
    rw [UInt64.toNat_add, hfirst, show (1 : UInt64).toNat = 1 from rfl]
    exact Nat.mod_eq_of_lt (by omega)
  obtain ⟨hissued, hfree⟩ := h.pending hphase
  have hsame : Function.update a kind (a kind) = a := Function.update_eq_self ..
  rw [← hsame]
  refine h.finish (fun kind' block' hp => ?_) rfl rfl (fun t' => ?_) (fun n hn => ?_)
    (fun hr => hfree hr hfirst) fun t' block' ht hp heq => ?_
  · rw [hphase] at hp
    exact (IdPhase.fetched.inj hp).1.symm
  · split
    · rename_i ht
      rw [ht, hcursor]
      exact congrArg some (Prod.ext hfirst.symm hsecond.symm)
    · rfl
  · rcases hn with hn | rfl
    · exact hn
    · rw [hfirst]
      exact hissued
  · -- another instance has another block
    have hsame : 1000 * block'.toNat = 1000 * block.toNat := heq.symm.trans hfirst
    have hother := (h.cursor t' kind).trans (drawn_fetched hp)
    rw [hsame] at hother
    exact ht ((a kind).apart hother hcursor)

/-- Every step is a draw of `getId`, or draws nothing. -/
theorem step_refines {action : Action} (h : Refines s a)
    (hsmall : ∀ kind, 1000 * s'.fetches kind < 2 ^ 64) (hstep : s.step action = .ok s') :
    ∃ a', Refines s' a' ∧
      (a' = a ∨ ∃ t kind, a' = Function.update a kind (getId (a kind) t).2) := by
  cases action with
  | call t kind =>
    simp only [step] at hstep
    split at hstep
    · rename_i hidle
      split at hstep
      · split at hstep
        · rename_i hblock
          obtain rfl := Except.ok.inj hstep
          exact ⟨a, h.wait hidle hblock, Or.inl rfl⟩
        · rename_i hblock
          obtain rfl := Except.ok.inj hstep
          exact ⟨_, h.call (hsmall kind) hidle (Bool.not_eq_true _ ▸ hblock), Or.inr ⟨t, kind, rfl⟩⟩
      · cases hstep
    · cases hstep
  | fetchAdd t =>
    simp only [step] at hstep
    split at hstep
    · rename_i kind hphase
      obtain rfl := Except.ok.inj hstep
      have hnext := hsmall kind
      simp only [Function.update_self] at hnext
      exact ⟨_, h.fetchAdd (by omega) hnext hphase, Or.inr ⟨t, kind, rfl⟩⟩
    · cases hstep
  | store t =>
    simp only [step] at hstep
    split at hstep
    · rename_i kind block hphase
      obtain rfl := Except.ok.inj hstep
      exact ⟨a, h.store (hsmall kind) hphase, Or.inl rfl⟩
    · cases hstep

/-! ## Runs -/

/-- No block was taken yet; the members of the instances have any values. -/
def start (base curr : ThreadId → IdKind → UInt64) : IdDraws where
  cursor t kind := { base := base t kind, curr := curr t kind }

theorem start_refines (base curr : ThreadId → IdKind → UInt64) :
    Refines (start base curr) fun _ => noIds where
  blocks kind := by cases kind <;> rfl
  fetches _ := rfl
  cursor _ _ := rfl
  fetching hp := by cases hp
  issued hr := absurd hr List.not_mem_nil
  pending hp := by cases hp
  nodup := List.nodup_nil

/-- Blocks are only taken. -/
theorem fetches_le {action : Action} (hstep : s.step action = .ok s') (kind : IdKind) :
    s.fetches kind ≤ s'.fetches kind := by
  cases action with
  | call t kind =>
    simp only [step] at hstep
    split at hstep
    · split at hstep
      · split at hstep <;> obtain rfl := Except.ok.inj hstep <;> exact Nat.le_refl _
      · cases hstep
    · cases hstep
  | fetchAdd t =>
    simp only [step] at hstep
    split at hstep
    · obtain rfl := Except.ok.inj hstep
      simp only [Function.update_apply]
      split
      · rename_i hkind
        rw [hkind]
        exact Nat.le_succ _
      · exact Nat.le_refl _
    · cases hstep
  | store t =>
    simp only [step] at hstep
    split at hstep
    · obtain rfl := Except.ok.inj hstep
      exact Nat.le_refl _
    · cases hstep

/-- In a run that takes fewer than `2 ^ 64 / 1000` blocks of each kind, what was returned was drawn
from blocks of numbers without bounds. -/
theorem exists_refines {base curr : ThreadId → IdKind → UInt64}
    (h : Reached step (fun _ _ => True) (start base curr) s)
    (hsmall : ∀ kind, 1000 * s.fetches kind < 2 ^ 64) : ∃ a, Refines s a := by
  -- the counters only grow, so the bound of the last state holds in all states before it
  induction h with
  | start => exact ⟨_, start_refines base curr⟩
  | next action _ _ hstep ih =>
    obtain ⟨a, ha⟩ := ih fun kind =>
      Nat.lt_of_le_of_lt (Nat.mul_le_mul_left 1000 (fetches_le hstep kind)) (hsmall kind)
    obtain ⟨a', ha', -⟩ := step_refines ha hsmall hstep
    exact ⟨a', ha'⟩

/-- In a run that takes fewer than `2 ^ 64 / 1000` blocks of each kind, no identifier of one kind is
returned twice, and none is the sentinel `2 ^ 64 - 1`. -/
theorem ids_unique (base curr : ThreadId → IdKind → UInt64) (s : IdDraws)
    (h : Reached step (fun _ _ => True) (start base curr) s)
    (hsmall : ∀ kind, 1000 * s.fetches kind < 2 ^ 64) :
    s.returned.Nodup ∧ ∀ r ∈ s.returned, r.2.toNat ≠ 2 ^ 64 - 1 := by
  obtain ⟨a, ha⟩ := exists_refines h hsmall
  refine ⟨ha.nodup, ?_⟩
  rintro ⟨kind, id⟩ hr
  have hlt : id.toNat < 1000 * (a kind).block := (ha.issued hr).1
  have hkind := hsmall kind
  rw [ha.fetches] at hkind
  show id.toNat ≠ 2 ^ 64 - 1
  omega

/-- Two instances take a block at the same time, the second of them is done first, and the first one
draws again. -/
def crossing : List Action :=
  [.call (some 0) .proc, .call none .proc, .fetchAdd (some 0), .fetchAdd none, .store none,
    .store (some 0), .call (some 0) .proc, .call none .obj, .fetchAdd none, .store none]

theorem crossing_unique : ∃ s,
    Reached step (fun _ _ => True) (start (fun _ _ => 7) fun _ _ => 7) s ∧
    s.returned = [(.proc, 1000), (.proc, 0), (.proc, 1), (.obj, 0)] ∧
    s.returned.Nodup ∧ ∀ r ∈ s.returned, r.2.toNat ≠ 2 ^ 64 - 1 := by
  have hfacts : (runActions step crossing (start (fun _ _ => 7) fun _ _ => 7)).map
      (fun s => (s.returned, s.fetches .proc, s.fetches .obj, s.fetches .tim)) =
        .ok ([(.proc, 1000), (.proc, 0), (.proc, 1), (.obj, 0)], 2, 1, 0) := by
    decide +kernel
  obtain ⟨s, hrun, hfacts⟩ := exists_of_map_eq_ok hfacts
  simp only [Prod.mk.injEq] at hfacts
  obtain ⟨hreturned, hproc, hobj, htim⟩ := hfacts
  have hreached := reached_of_runActions .start (meets_true _ _) hrun
  refine ⟨s, hreached, hreturned, ids_unique _ _ s hreached fun kind => ?_⟩
  cases kind with
  | proc => omega
  | obj => omega
  | tim => omega

end IdDraws

end LocalSoftware
