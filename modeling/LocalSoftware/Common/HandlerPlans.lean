import LocalSoftware.Common.Operations

/-!
# What a handler asks for

`Script.Plans ops` says of a handler that it asks for requests with the operations `ops`, in this
order, and attaches to no task, whatever the runtime returns to it. `Script.embed` takes a handler of
one class into the vocabulary of a program that has this class among others.
-/

set_option autoImplicit false

namespace LocalSoftware

/-- The vocabulary of a class within that of a program. -/
structure Embedding (V W : Vocabulary) where
  typeIndex : V.TypeIndex → W.TypeIndex
  constructFunc : V.ConstructFunc → W.ConstructFunc
  functionFunc : V.FunctionFunc → W.FunctionFunc
  sqe : V.Sqe → W.Sqe

namespace Script

variable {V W : Vocabulary} {α β : Type}

/-- A handler of a class as one of the program. -/
def embed (e : Embedding V W) : Script V α → Script W α
  | .pure a => .pure a
  | .throw f => .throw f
  | .construct shared ty fn k =>
    .construct shared (e.typeIndex ty) (e.constructFunc fn) fun n => (k n).embed e
  | .callAt ty idx fn k => .callAt (e.typeIndex ty) idx (e.functionFunc fn) fun l => (k l).embed e
  | .call ty fn k => .call (e.typeIndex ty) (e.functionFunc fn) fun l => (k l).embed e
  | .uring op fn k => .uring op (e.sqe fn) (k.embed e)
  | .delete ty idx k => .delete (e.typeIndex ty) idx (k.embed e)
  | .attach id k => .attach id (k.embed e)
  | .timer ts k => .timer ts fun l => (k l).embed e
  | .cancelTimer id k => .cancelTimer id (k.embed e)
  | .child ty idx k => .child (e.typeIndex ty) idx fun o => (k o).embed e

/-- Whenever the handler returns, it has asked for requests with these operations. -/
def Plans : List Int → Script V α → Prop
  | ops, .pure _ => ops = []
  | _, .throw _ => True
  | ops, .construct _ _ _ k => ∀ n, (k n).Plans ops
  | ops, .callAt _ _ _ k => ∀ l, (k l).Plans ops
  | ops, .call _ _ k => ∀ l, (k l).Plans ops
  | ops, .uring op _ k => ∃ rest, ops = op :: rest ∧ k.Plans rest
  | ops, .delete _ _ k => k.Plans ops
  | _, .attach _ _ => False
  | ops, .timer _ k => ∀ l, (k l).Plans ops
  | ops, .cancelTimer _ k => k.Plans ops
  | ops, .child _ _ k => ∀ o, (k o).Plans ops

variable {ops ops' : List Int}

/-- One handler after another. -/
theorem Plans.bind {x : Script V α} {f : α → Script V β} (h : x.Plans ops)
    (hf : ∀ a, (f a).Plans ops') : (x >>= f).Plans (ops ++ ops') := by
  show (x.bind f).Plans (ops ++ ops')
  induction x generalizing ops with
  | pure a =>
    obtain rfl : ops = [] := h
    exact hf a
  | throw e => trivial
  | construct shared ty fn k ih => exact fun n => ih n (h n)
  | callAt ty idx fn k ih => exact fun l => ih l (h l)
  | call ty fn k ih => exact fun l => ih l (h l)
  | uring op fn k ih =>
    obtain ⟨rest, rfl, hk⟩ := h
    exact ⟨rest ++ ops', rfl, ih hk⟩
  | delete ty idx k ih => exact ih h
  | attach l k ih => exact absurd h not_false
  | timer ts k ih => exact fun l => ih l (h l)
  | cancelTimer id k ih => exact ih h
  | child ty idx k ih => exact fun o => ih o (h o)

theorem Plans.embed {x : Script V α} (h : x.Plans ops) (e : Embedding V W) :
    (x.embed e).Plans ops := by
  induction x generalizing ops with
  | pure a => exact h
  | throw e => trivial
  | construct shared ty fn k ih => exact fun n => ih n (h n)
  | callAt ty idx fn k ih => exact fun l => ih l (h l)
  | call ty fn k ih => exact fun l => ih l (h l)
  | uring op fn k ih =>
    obtain ⟨rest, rfl, hk⟩ := h
    exact ⟨rest, rfl, ih hk⟩
  | delete ty idx k ih => exact ih h
  | attach l k ih => exact absurd h not_false
  | timer ts k ih => exact fun l => ih l (h l)
  | cancelTimer id k ih => exact ih h
  | child ty idx k ih => exact fun o => ih o (h o)

/-- What is planned is what is queued. -/
theorem Plans.queued {x : Script V α} {s s' : EventState V} {a : α} (h : x.Plans ops)
    (hrun : x.run s = .ok (a, s')) :
    s'.uring.map (·.op) = s.uring.map (·.op) ++ ops ∧ s'.attach = s.attach := by
  induction x generalizing ops s with
  | pure b =>
    obtain rfl : ops = [] := h
    obtain ⟨-, rfl⟩ := Prod.mk.inj (Except.ok.inj hrun)
    exact ⟨(List.append_nil _).symm, rfl⟩
  | throw e => cases hrun
  | construct shared ty fn k ih =>
    simp only [run] at hrun
    have hk := ih _ (h _) hrun
    exact hk
  | callAt ty idx fn k ih =>
    simp only [run] at hrun
    have hk := ih _ (h _) hrun
    exact hk
  | call ty fn k ih =>
    simp only [run] at hrun
    split at hrun
    · cases hrun
    · rename_i l s₁ hcall
      obtain ⟨-, rfl⟩ := Prod.mk.inj (EventState.call_eq_ok hcall)
      have hk := ih _ (h _) hrun
      exact hk
  | uring op fn k ih =>
    obtain ⟨rest, rfl, hk⟩ := h
    simp only [run] at hrun
    obtain ⟨huring, hattach⟩ := ih hk hrun
    refine ⟨huring.trans ?_, hattach⟩
    rw [EventState.queueUring, List.map_append, List.append_assoc]
    rfl
  | delete ty idx k ih =>
    simp only [run] at hrun
    split at hrun
    · cases hrun
    · rename_i s₁ hdelete
      obtain ⟨info, locator, -, -, rfl⟩ := EventState.queueDelete_eq_ok hdelete
      have hk := ih h hrun
      exact hk
  | attach l k ih => exact absurd h not_false
  | timer ts k ih =>
    simp only [run] at hrun
    have hk := ih _ (h _) hrun
    exact hk
  | cancelTimer l k ih =>
    simp only [run] at hrun
    have hk := ih h hrun
    exact hk
  | child ty idx k ih =>
    simp only [run] at hrun
    split at hrun
    · cases hrun
    · exact ih _ (h _) hrun

end Script

end LocalSoftware
