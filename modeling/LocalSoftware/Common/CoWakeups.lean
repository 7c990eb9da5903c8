import LocalSoftware.Common.CoTypes

/-!
# Wakeups

The runs in which objects of `readiness_api_awaitable` are constructed, moved, awaited once and
destroyed, and every registered request is completed at most once. `Life` says what can happen to an
identifier, and `resumed_once_iff` that a coroutine is resumed with the result of its request just if
it was suspended before the completion was handled.
-/

set_option autoImplicit false

namespace LocalSoftware

/-- The identifier of a note. -/
def CoNote.id : CoNote → Id
  | .registered _ id => id
  | .suspended id _ => id
  | .completed id _ => id
  | .resumed id _ _ => id

/-- The suspension, the completion and the resumption for an identifier. -/
def CoNote.ofLife (id : Id) : CoNote → Bool
  | .registered _ _ => false
  | .suspended id' _ => id' = id
  | .completed id' _ => id' = id
  | .resumed id' _ _ => id' = id

theorem CoNote.id_eq {id : Id} {n : CoNote} (h : n.ofLife id = true) : n.id = id := by
  cases n with
  | registered => cases h
  | suspended => exact of_decide_eq_true h
  | completed => exact of_decide_eq_true h
  | resumed => exact of_decide_eq_true h

/-- The resumption for an identifier. -/
def CoNote.resumes (id : Id) : CoNote → Bool
  | .resumed id' _ _ => id' = id
  | _ => false

/-- What happened to an identifier, with the handle in its entry. -/
inductive Life (id : Id) : List CoNote → Option Nat → Prop where
  | registered : Life id [] none
  | completed (result : Int) : Life id [.completed id result] none
  | waiting (handle : Nat) : Life id [.suspended id handle] (some handle)
  | woken (handle : Nat) (result : Int) :
      Life id [.suspended id handle, .completed id result, .resumed id handle result] (some handle)
  | lost (result : Int) (handle : Nat) :
      Life id [.completed id result, .suspended id handle] (some handle)

/-- An owner that was not suspended has an entry without a handle. -/
theorem Life.handle_eq_none {id : Id} {notes : List CoNote} {handle : Option Nat}
    (h : Life id notes handle) (hidle : ∀ h, .suspended id h ∉ notes) :
    handle = none ∧ (notes = [] ∨ ∃ result, notes = [.completed id result]) := by
  cases h with
  | registered => exact ⟨rfl, Or.inl rfl⟩
  | completed result => exact ⟨rfl, Or.inr ⟨result, rfl⟩⟩
  | waiting handle => exact absurd List.mem_cons_self (hidle handle)
  | woken handle result => exact absurd List.mem_cons_self (hidle handle)
  | lost result handle => exact absurd (List.mem_cons_of_mem _ List.mem_cons_self) (hidle handle)

/-- A coroutine is resumed with the result just if its suspension was the first of the two. -/
theorem Life.resumes_iff {id : Id} {notes : List CoNote} {entry : Option Nat} (h : Life id notes entry)
    {handle : Nat} {result : Int} (hs : .suspended id handle ∈ notes)
    (hc : .completed id result ∈ notes) :
    notes.filter (CoNote.resumes id) = [.resumed id handle result] ↔
      [.suspended id handle, .completed id result].Sublist notes := by
  cases h with
  | registered => cases hs
  | completed result => simp at hs
  | waiting handle => simp at hc
  | woken handle' result' =>
    simp only [List.mem_cons, CoNote.suspended.injEq, true_and, reduceCtorEq, List.not_mem_nil,
      or_false] at hs
    simp only [List.mem_cons, CoNote.completed.injEq, true_and, reduceCtorEq, List.not_mem_nil,
      or_false, false_or] at hc
    subst hs hc
    refine iff_of_true ?_ (.cons_cons _ (.cons_cons _ (List.nil_sublist _)))
    simp [CoNote.resumes]
  | lost result' handle' =>
    refine iff_of_false ?_ ?_
    · simp [CoNote.resumes]
    · intro hsub
      cases hsub with
      | cons _ hsub =>
        cases hsub with
        | cons _ hsub => cases hsub
        | cons_cons _ hsub => cases hsub

namespace CoState

variable {F : Type} {s s' : CoState F} {x y t : Nat} {id : Id}

/-- What happened to an identifier. -/
def life (s : CoState F) (id : Id) : List CoNote := s.log.filter (CoNote.ofLife id)

/-- A suspension for an identifier is noted. -/
def Suspended (s : CoState F) (id : Id) : Prop := ∃ handle, .suspended id handle ∈ s.log

/-- The uses that are meant: a live owner is awaited once, by a coroutine that awaits nothing else, it
is not moved or assigned to afterwards, and a registered request is completed once, on its thread. -/
def Fair (s : CoState F) : Action F → Prop
  | .construct x _ _ _ => s.objects x = none
  | .moveConstruct x y => s.objects x = none ∧
      ∃ t id, s.owners y = some (t, id) ∧ ¬ s.Suspended id
  | .moveAssign x y => (∃ t id, s.owners x = some (t, id) ∧ ¬ s.Suspended id) ∧
      s.objects y ≠ none ∧ s.owners y = none
  | .destroy x => s.owners x ≠ none
  | .awaitSuspend x handle => s.frames handle = none ∧
      ∃ t id, s.owners x = some (t, id) ∧ ¬ s.Suspended id
  | .cqeReady t id _ => .registered t id ∈ s.log ∧ ∀ result, .completed id result ∉ s.log

/-- What such uses keep. -/
structure WakeInv (s : CoState F) : Prop where
  inv : s.Inv
  drawn : ∀ {n}, n ∈ s.log → Taken s.ids n.id
  once : ∀ {t t' id}, .registered t id ∈ s.log → .registered t' id ∈ s.log → t = t'
  registered : ∀ {x t id}, s.owners x = some (t, id) → .registered t id ∈ s.log
  life : ∀ {x t id}, s.owners x = some (t, id) →
    ∃ w, s.waiters t id = some w ∧ Life id (s.life id) w.handle
  awaits : ∀ {x t id handle}, s.owners x = some (t, id) → s.life id = [.suspended id handle] →
    s.frames handle = some x

namespace WakeInv

theorem mem_life {n : CoNote} (hn : n ∈ s.life id) : n ∈ s.log := (List.mem_filter.mp hn).1

/-- The keys of two owners differ. -/
theorem key_ne (h : s.Inv) {x' t' : Nat} {id' : Id} (hx : s.owners x = some (t, id))
    (hx' : s.owners x' = some (t', id')) (hne : x' ≠ x) : (t', id') ≠ (t, id) := by
  intro heq
  exact hne ((exact_iff_owned.mp h.exact).apart (heq ▸ hx') hx)

theorem waiters_setWaiters_of_ne {w : Option Waiters} {t' : Nat} {id' : Id}
    (hne : (t', id') ≠ (t, id)) : (s.setWaiters t id w).waiters t' id' = s.waiters t' id' := by
  have htable := congrFun (table_setWaiters s t id w) (t', id')
  rw [Function.update_of_ne hne] at htable
  exact htable

theorem waiters_setWaiters_self {w : Option Waiters} :
    (s.setWaiters t id w).waiters t id = w := by
  have htable := congrFun (table_setWaiters s t id w) (t, id)
  rw [Function.update_self] at htable
  exact htable

/-- An identifier is released. -/
theorem release (h : s.WakeInv) (hx : s.owners x = some (t, id)) (hinv : s'.Inv)
    (hlog : s'.log = s.log) (hids : s'.ids = s.ids)
    (hwaiters : s'.waiters = (s.setWaiters t id none).waiters)
    (howners : s'.owners = Function.update s.owners x none)
    (hframes : ∀ handle x', x' ≠ x → s.frames handle = some x' → s'.frames handle = some x') :
    s'.WakeInv := by
  have hold : ∀ {x' k}, s'.owners x' = some k → x' ≠ x ∧ s.owners x' = some k := by
    intro x' k hx'
    rw [howners, Function.update_apply] at hx'
    split at hx'
    · cases hx'
    · rename_i hne
      exact ⟨hne, hx'⟩
  have hlife : ∀ id, s'.life id = s.life id := fun id => congrArg (List.filter _) hlog
  refine ⟨hinv, fun hn => ?_, fun hr hr' => ?_, fun hx' => ?_, fun hx' => ?_, fun hx' hw => ?_⟩
  · rw [hids]
    exact h.drawn (hlog ▸ hn)
  · exact h.once (hlog ▸ hr) (hlog ▸ hr')
  · rw [hlog]
    exact h.registered (hold hx').2
  · obtain ⟨hne, hx'⟩ := hold hx'
    rw [hlife, hwaiters, waiters_setWaiters_of_ne (key_ne h.inv hx hx' hne)]
    exact h.life hx'
  · obtain ⟨hne, hx'⟩ := hold hx'
    rw [hlife] at hw
    exact hframes _ _ hne (h.awaits hx' hw)

theorem construct (h : s.WakeInv) (hx : s.objects x = none) (t : Nat) (sfunc : F) (ret : Int) :
    (s.construct x t sfunc ret).WakeInv := by
  have hnew := not_taken_getId s.ids (some t)
  have hlog : (s.construct x t sfunc ret).log =
      s.log ++ [.registered t (getId s.ids (some t)).1] := rfl
  -- `registered` is not part of a life, so no life changes
  have hlife : ∀ id, (s.construct x t sfunc ret).life id = s.life id := by
    intro id
    rw [CoState.life, hlog, List.filter_append]
    exact List.append_nil _
  obtain ⟨hfree, htable⟩ := h.inv.table_construct x t sfunc ret
  -- an owner is the new object or an old one
  have howner : ∀ {x' k}, (s.construct x t sfunc ret).owners x' = some k →
      (x' = x ∧ k = (t, (getId s.ids (some t)).1)) ∨ (x' ≠ x ∧ s.owners x' = some k) := by
    intro x' k hx'
    have hx'' : Function.update s.owners x (some (t, (getId s.ids (some t)).1)) x' = some k := hx'
    rw [Function.update_apply] at hx''
    split at hx''
    · rename_i heq
      exact Or.inl ⟨heq, (Option.some.inj hx'').symm⟩
    · rename_i hne
      exact Or.inr ⟨hne, hx''⟩
  refine ⟨h.inv.construct hx t sfunc ret, fun {n} hn => ?_, fun {t₁ t₂ id} hr hr' => ?_,
    fun {x' t' id} hx' => ?_, fun {x' t' id} hx' => ?_, fun {x' t' id handle} hx' hw => ?_⟩
  · rw [hlog] at hn
    rcases List.mem_append.mp hn with hn | hn
    · exact (taken_getId ..).mpr (Or.inl (h.drawn hn))
    · rw [List.mem_singleton.mp hn]
      exact (taken_getId ..).mpr (Or.inr rfl)
  -- two registrations: the identifier of the new one is in no note before it
  · rw [hlog] at hr hr'
    rcases List.mem_append.mp hr with hin | heq <;> rcases List.mem_append.mp hr' with hin' | heq'
    · exact h.once hin hin'
    · obtain ⟨-, rfl⟩ := CoNote.registered.inj (List.mem_singleton.mp heq')
      exact absurd (h.drawn hin) hnew
    · obtain ⟨-, rfl⟩ := CoNote.registered.inj (List.mem_singleton.mp heq)
      exact absurd (h.drawn hin') hnew
    · obtain ⟨rfl, -⟩ := CoNote.registered.inj (List.mem_singleton.mp heq)
      exact (CoNote.registered.inj (List.mem_singleton.mp heq')).1.symm
  · rw [hlog]
    rcases howner hx' with ⟨-, heq⟩ | ⟨-, hx'⟩
    · obtain ⟨rfl, rfl⟩ := Prod.mk.inj heq
      exact List.mem_append_right _ List.mem_cons_self
    · exact List.mem_append_left _ (h.registered hx')
  · rw [hlife]
    have hentry := congrFun htable (t', id)
    rcases howner hx' with ⟨-, heq⟩ | ⟨-, hx'⟩
    · -- nothing was noted for the new identifier
      obtain ⟨rfl, rfl⟩ := Prod.mk.inj heq
      rw [Function.update_self] at hentry
      refine ⟨_, hentry, ?_⟩
      have hnil : s.life (getId s.ids (some t')).1 = [] := by
        refine List.filter_eq_nil_iff.mpr fun n hn hof => ?_
        have htaken := h.drawn hn
        rw [CoNote.id_eq hof] at htaken
        exact hnew htaken
      rw [hnil]
      exact .registered
    · obtain ⟨w, hw, hlife'⟩ := h.life hx'
      have hne : (t', id) ≠ (t, (getId s.ids (some t)).1) := by
        intro heq
        obtain ⟨rfl, rfl⟩ := Prod.mk.inj heq
        cases hfree.symm.trans hw
      rw [Function.update_of_ne hne] at hentry
      exact ⟨w, hentry.trans hw, hlife'⟩
  -- a suspension under the new identifier would have been noted before the draw
  · rw [hlife] at hw
    rcases howner hx' with ⟨-, heq⟩ | ⟨-, hx'⟩
    · obtain ⟨rfl, rfl⟩ := Prod.mk.inj heq
      have hmem : CoNote.suspended (getId s.ids (some t')).1 handle ∈
          s.life (getId s.ids (some t')).1 := by
        rw [hw]
        exact List.mem_cons_self
      exact absurd (h.drawn (mem_life hmem)) hnew
    · exact h.awaits hx' hw

/-- An identifier that was not suspended has another owner. -/
theorem moveConstruct (h : s.WakeInv) (hx : s.objects x = none) (howner : s.owners y = some (t, id))
    (hidle : ¬ s.Suspended id) : ∃ s', s.moveConstruct x y = .ok s' ∧ s'.WakeInv := by
  obtain ⟨s', hstep, hinv⟩ := h.inv.moveConstruct hx (howner ▸ Option.some_ne_none _)
  obtain ⟨self, w, hself, -, -, hw, heq⟩ := h.inv.moveConstruct_eq howner x
  obtain rfl := Except.ok.inj (heq.symm.trans hstep)
  -- an owner is the new object, which takes over the identifier, or an old one
  have hold : ∀ {x' k}, Function.update (Function.update s.owners y none) x (some (t, id)) x' = some k →
      (x' = x ∧ k = (t, id)) ∨ (x' ≠ y ∧ s.owners x' = some k) := by
    intro x' k hx'
    simp only [Function.update_apply] at hx'
    split at hx'
    · rename_i heq
      exact Or.inl ⟨heq, (Option.some.inj hx').symm⟩
    · split at hx'
      · cases hx'
      · rename_i hne
        exact Or.inr ⟨hne, hx'⟩
  obtain ⟨w', hw', hlife⟩ := h.life howner
  obtain rfl := Option.some.inj (hw.symm.trans hw')
  refine ⟨_, hstep, hinv, h.drawn, h.once, fun {x' t' id'} hx' => ?_, fun {x' t' id'} hx' => ?_,
    fun {x' t' id' handle} hx' hwait => ?_⟩
  · rcases hold hx' with ⟨-, heq⟩ | ⟨-, hx'⟩
    · obtain ⟨rfl, rfl⟩ := Prod.mk.inj heq
      exact h.registered howner
    · exact h.registered hx'
  -- the entry of the identifier keeps its handle, and its life is as before
  · rcases hold hx' with ⟨-, heq⟩ | ⟨hne, hx'⟩
    · obtain ⟨rfl, rfl⟩ := Prod.mk.inj heq
      exact ⟨_, waiters_setWaiters_self, hlife⟩
    · obtain ⟨w', hw', hlife'⟩ := h.life hx'
      exact ⟨w', (waiters_setWaiters_of_ne (key_ne h.inv howner hx' hne)).trans hw', hlife'⟩
  -- the frame of a suspended coroutine still waits at the source: excluded by `hidle`
  · rcases hold hx' with ⟨-, heq⟩ | ⟨-, hx'⟩
    · obtain ⟨rfl, rfl⟩ := Prod.mk.inj heq
      have hmem : CoNote.suspended id' handle ∈ s.life id' := by
        rw [show s.life id' = _ from hwait]
        exact List.mem_cons_self
      exact absurd ⟨handle, mem_life hmem⟩ hidle
    · exact h.awaits hx' hwait

theorem moveAssign (h : s.WakeInv) (hx : s.owners x = some (t, id)) (hy : s.objects y ≠ none)
    (hmoved : s.owners y = none) : ∃ s', s.moveAssign x y = .ok s' ∧ s'.WakeInv := by
  obtain ⟨s', hstep, hinv⟩ := h.inv.moveAssign (hx ▸ Option.some_ne_none _) hy hmoved
  obtain ⟨other, hother⟩ := Option.ne_none_iff_exists'.mp hy
  have heq := h.inv.moveAssign_eq hx hother hmoved
  obtain rfl := Except.ok.inj (heq.symm.trans hstep)
  exact ⟨_, hstep, h.release hx hinv rfl rfl rfl rfl fun _ _ _ hframe => hframe⟩

theorem destroy (h : s.WakeInv) (hx : s.owners x = some (t, id)) :
    ∃ s', s.destroy x = .ok s' ∧ s'.WakeInv := by
  obtain ⟨s', hstep, hinv⟩ := h.inv.destroy (hx ▸ Option.some_ne_none _)
  have heq := h.inv.destroy_eq hx
  obtain rfl := Except.ok.inj (heq.symm.trans hstep)
  refine ⟨_, hstep, h.release hx hinv rfl rfl rfl rfl fun handle x' hne hframe => ?_⟩
  have hother : s.frames handle ≠ some x := fun heq => hne (Option.some.inj (hframe.symm.trans heq))
  exact (if_neg hother).trans hframe

/-- More happens to one identifier. -/
theorem grow (h : s.WakeInv) {ns : List CoNote} (hinv : s'.Inv) (hids : s'.ids = s.ids)
    (howners : s'.owners = s.owners) (hlog : s'.log = s.log ++ ns)
    (hns : ∀ n ∈ ns, n.ofLife id = true) (htaken : Taken s.ids id)
    (hothers : ∀ {x' t' id'}, s.owners x' = some (t', id') → id' ≠ id →
      s'.waiters t' id' = s.waiters t' id' ∧
        ∀ handle, s.frames handle = some x' → s'.frames handle = some x')
    (hlife : ∀ {x t}, s.owners x = some (t, id) →
      (∃ w, s'.waiters t id = some w ∧ Life id (s.life id ++ ns) w.handle) ∧
        ∀ handle, s.life id ++ ns = [.suspended id handle] → s'.frames handle = some x) :
    s'.WakeInv := by
  -- the notes `ns` are all of the life of `id`, and of no other
  have hself : s'.life id = s.life id ++ ns := by
    rw [CoState.life, hlog, List.filter_append, List.filter_eq_self.mpr hns]
    rfl
  have hkept : ∀ {id'}, id' ≠ id → s'.life id' = s.life id' := by
    intro id' hne
    have hnil : ns.filter (CoNote.ofLife id') = [] :=
      List.filter_eq_nil_iff.mpr fun n hn hof =>
        hne ((CoNote.id_eq hof).symm.trans (CoNote.id_eq (hns n hn)))
    rw [CoState.life, hlog, List.filter_append, hnil]
    exact List.append_nil _
  -- no registration is among them
  have hregistered : ∀ {t id'}, .registered t id' ∈ s'.log → .registered t id' ∈ s.log := by
    intro t id' hr
    rw [hlog] at hr
    rcases List.mem_append.mp hr with hr | hr
    · exact hr
    · cases hns _ hr
  refine ⟨hinv, fun {n} hn => ?_, fun hr hr' => h.once (hregistered hr) (hregistered hr'),
    fun hx => ?_, fun {x t id'} hx => ?_, fun {x t id' handle} hx hwait => ?_⟩
  · rw [hids]
    rw [hlog] at hn
    rcases List.mem_append.mp hn with hn | hn
    · exact h.drawn hn
    · rw [CoNote.id_eq (hns n hn)]
      exact htaken
  · rw [hlog]
    exact List.mem_append_left _ (h.registered (howners ▸ hx))
  · rw [howners] at hx
    -- by the identifier: the one that grows, or another with its life as before
    by_cases hid : id' = id
    · subst hid
      rw [hself]
      exact (hlife hx).1
    · obtain ⟨w, hw, hlife'⟩ := h.life hx
      rw [hkept hid, (hothers hx hid).1]
      exact ⟨w, hw, hlife'⟩
  · rw [howners] at hx
    by_cases hid : id' = id
    · subst hid
      rw [hself] at hwait
      exact (hlife hx).2 handle hwait
    · rw [hkept hid] at hwait
      exact (hothers hx hid).2 handle (h.awaits hx hwait)

/-- The owner of an identifier of the log, by the thread of its registration. -/
theorem owner_unique (h : s.WakeInv) {x' t' : Nat} (hx : s.owners x = some (t, id))
    (hx' : s.owners x' = some (t', id)) : x' = x ∧ t' = t := by
  have ht := h.once (h.registered hx') (h.registered hx)
  subst ht
  exact ⟨(exact_iff_owned.mp h.inv.exact).apart hx' hx, rfl⟩

/-- A coroutine is suspended. -/
theorem awaitSuspend (h : s.WakeInv) (hx : s.owners x = some (t, id)) (hidle : ¬ s.Suspended id)
    {handle : Nat} (hframe : s.frames handle = none) :
    ∃ s', s.awaitSuspend x handle = .ok s' ∧ s'.WakeInv := by
  obtain ⟨self, w, hself, rfl, hdata, hw, hresult⟩ := h.inv.exists_entry hx
  -- `coPreferred` finds the thread the entry is at, so the object is written back as it was
  have hobjects : Function.update s.objects x
      (some { self with data := some (coPreferred t) }) = s.objects := by
    have hsame : { self with data := some (coPreferred t) } = self := by
      rw [coPreferred, ← hdata]
    rw [hsame, ← hself, Function.update_eq_self]
  have hstep : s.awaitSuspend x handle =
      .ok { s.setWaiters t self.id (some { w with handle := some handle }) with
        frames := Function.update s.frames handle (some x)
        log := s.log ++ [.suspended self.id handle] } := by
    simp only [CoState.awaitSuspend, hself, hdata, coHandle, hw, hobjects]
    rfl
  obtain ⟨w', hw', hlife⟩ := h.life hx
  obtain rfl := Option.some.inj (hw.symm.trans hw')
  -- the life before is empty, or one completion that nobody waited for
  have hbefore := hlife.handle_eq_none fun handle hin => hidle ⟨handle, mem_life hin⟩
  have htaken : Taken s.ids self.id := h.drawn (h.registered hx)
  refine ⟨_, hstep, h.grow ?_ rfl rfl rfl ?_ htaken ?_ ?_⟩
  · refine ⟨exact_iff_owned.mpr ?_, h.inv.taken_setWaiters fun _ => htaken, h.inv.owned,
      h.inv.moved⟩
    show Owned (s.setWaiters t self.id (some { w with handle := some handle })).table _ _
    rw [table_setWaiters]
    exact (exact_iff_owned.mp h.inv.exact).change hw rfl
  · intro n hn
    rw [List.mem_singleton.mp hn]
    exact decide_eq_true rfl
  · intro x' t' id' hx' hne
    refine ⟨waiters_setWaiters_of_ne fun heq => hne (Prod.mk.inj heq).2, fun handle' hframe' => ?_⟩
    refine (Function.update_of_ne ?_ ..).trans hframe'
    rintro rfl
    cases hframe.symm.trans hframe'
  · intro x' t' hx'
    obtain ⟨rfl, rfl⟩ := h.owner_unique hx hx'
    refine ⟨⟨_, waiters_setWaiters_self, ?_⟩, fun handle' hwait => ?_⟩
    -- a suspension before its completion waits; after it, it is lost
    · rcases hbefore.2 with hnil | ⟨result, hdone⟩
      · rw [hnil]
        exact .waiting handle
      · rw [hdone]
        exact .lost result handle
    · -- the last of the list is the new suspension
      have hlast := congrArg List.getLast? hwait
      rw [List.getLast?_append, List.getLast?_singleton, Option.some_or, List.getLast?_singleton] at hlast
      obtain ⟨-, rfl⟩ := CoNote.suspended.inj (Option.some.inj hlast)
      exact Function.update_self ..

/-- Nothing waits for the completion. -/
theorem cqeReady_eq_note {result : Int}
    (h : ∀ w, s.waiters t id = some w → w.handle = none) :
    s.cqeReady t id result = .ok (s.note (.completed id result)) := by
  cases hw : s.waiters t id with
  | none => simp only [CoState.cqeReady, note, hw]
  | some w => simp only [CoState.cqeReady, note, hw, h w hw]

/-- A completion that only leaves its note. -/
theorem completed (h : s.WakeInv) (hreg : .registered t id ∈ s.log) (result : Int)
    (hidle : ∀ w, s.waiters t id = some w → w.handle = none ∧ s.life id = []) :
    (s.note (.completed id result)).WakeInv := by
  have hinv : (s.note (.completed id result)).Inv :=
    ⟨h.inv.exact, h.inv.taken, h.inv.owned, h.inv.moved⟩
  have htaken : Taken s.ids id := h.drawn hreg
  refine h.grow hinv rfl rfl rfl ?_ htaken (fun _ _ => ⟨rfl, fun _ hframe => hframe⟩) ?_
  · intro n hn
    rw [List.mem_singleton.mp hn]
    exact decide_eq_true rfl
  · intro x t' hx
    have ht := h.once (h.registered hx) hreg
    subst ht
    obtain ⟨w, hw, -⟩ := h.life hx
    obtain ⟨hhandle, hnil⟩ := hidle w hw
    rw [hnil]
    refine ⟨⟨w, hw, ?_⟩, fun handle hwait => ?_⟩
    · rw [hhandle]
      exact .completed result
    · cases List.head_eq_of_cons_eq hwait

/-- The result is stored and the coroutine is resumed. -/
theorem cqeReady_eq_resume (h : s.WakeInv) (hx : s.owners x = some (t, id)) {w : Waiters}
    (hw : s.waiters t id = some w) {handle : Nat} (hhandle : w.handle = some handle)
    (hlog : s.life id = [.suspended id handle]) (result : Int) :
    ∃ self, s.objects x = some self ∧ s.cqeReady t id result =
      .ok { s with
        objects := Function.update s.objects x (some { self with ret := result })
        frames := Function.update s.frames handle none
        log := s.log ++ [.completed id result] ++ [.resumed id handle result] } := by
  obtain ⟨self, w', hself, rfl, -, hw', hresult⟩ := h.inv.exists_entry hx
  obtain rfl := Option.some.inj (hw.symm.trans hw')
  refine ⟨self, hself, ?_⟩
  -- `handle.resume()` reaches the frame that waits at the owner
  have hframe : s.frames handle = some x := h.awaits hx hlog
  simp only [CoState.cqeReady, note, hw, hhandle, setRet, hresult, hself, resume, hframe,
    Option.bind_some, Function.update_self, awaitResume]

theorem woken (h : s.WakeInv) (hx : s.owners x = some (t, id)) {w : Waiters}
    (hw : s.waiters t id = some w) {handle : Nat} (hhandle : w.handle = some handle)
    (hlog : s.life id = [.suspended id handle]) (result : Int) :
    ∃ s', s.cqeReady t id result = .ok s' ∧ s'.WakeInv := by
  obtain ⟨self, hself, hstep⟩ := h.cqeReady_eq_resume hx hw hhandle hlog result
  have htaken : Taken s.ids id := h.drawn (h.registered hx)
  refine ⟨_, hstep, h.grow ?_ rfl rfl (List.append_assoc ..) ?_ htaken ?_ ?_⟩
  · refine ⟨h.inv.exact, h.inv.taken, fun {x' t' id'} hx' => ?_, fun {x' self'} hself' hx' => ?_⟩
    -- `set_ret` changes the result of the owner, not its identifier and thread
    · obtain ⟨self', hself', hid, hdata⟩ := h.inv.owned hx'
      by_cases heq : x' = x
      · subst heq
        obtain rfl := Option.some.inj (hself.symm.trans hself')
        exact ⟨_, Function.update_self .., hid, hdata⟩
      · exact ⟨self', (Function.update_of_ne heq ..).trans hself', hid, hdata⟩
    · have hne : x' ≠ x := by
        rintro rfl
        cases hx.symm.trans hx'
      exact h.inv.moved ((Function.update_of_ne hne ..).symm.trans hself') hx'
  · intro n hn
    rcases List.mem_pair.mp hn with rfl | rfl
    · exact decide_eq_true rfl
    · exact decide_eq_true rfl
  -- the frame that ends is the one of this identifier
  · intro x' t' id' hx' hne
    refine ⟨rfl, fun handle' hframe => ?_⟩
    have hother : handle' ≠ handle := by
      rintro rfl
      obtain rfl := Option.some.inj ((h.awaits hx hlog).symm.trans hframe)
      exact hne (Prod.mk.inj (Option.some.inj (hx'.symm.trans hx))).2
    exact (Function.update_of_ne hother ..).trans hframe
  · intro x' t' hx'
    obtain ⟨rfl, rfl⟩ := h.owner_unique hx hx'
    refine ⟨⟨w, hw, ?_⟩, fun handle' hwait => ?_⟩
    -- the life ends with the completion and its resumption
    · rw [hlog, hhandle]
      exact .woken handle result
    · rw [hlog] at hwait
      cases hwait

/-- A completion is handled. -/
theorem cqeReady (h : s.WakeInv) (hreg : .registered t id ∈ s.log)
    (hdone : ∀ result, .completed id result ∉ s.log) (result : Int) :
    ∃ s', s.cqeReady t id result = .ok s' ∧ s'.WakeInv := by
  have hnone : ∀ result, .completed id result ∉ s.life id :=
    fun result hin => hdone result (mem_life hin)
  cases hw : s.waiters t id with
  | none =>
    have hfree : ∀ w, s.waiters t id ≠ some w := fun w hw' => by cases hw.symm.trans hw'
    exact ⟨_, cqeReady_eq_note fun w hw' => absurd hw' (hfree w),
      h.completed hreg result fun w hw' => absurd hw' (hfree w)⟩
  | some w =>
    obtain ⟨x, hx⟩ := (h.inv.exact.1 t id).mp (by rw [hw]; rfl)
    obtain ⟨w', hw', hlife⟩ := h.life hx
    obtain rfl := Option.some.inj (hw.symm.trans hw')
    generalize hlog : s.life id = notes at hlife hnone
    generalize hhandle : w.handle = handle at hlife
    -- of the five lives, three have a completion already
    cases hlife with
    | registered =>
      have hidle : ∀ w', s.waiters t id = some w' → w'.handle = none ∧ s.life id = [] := by
        intro w' hw'
        obtain rfl := Option.some.inj (hw.symm.trans hw')
        exact ⟨hhandle, hlog⟩
      exact ⟨_, cqeReady_eq_note fun w hw => (hidle w hw).1, h.completed hreg result hidle⟩
    | completed result => exact absurd List.mem_cons_self (hnone result)
    | woken handle result =>
      exact absurd (List.mem_cons_of_mem _ List.mem_cons_self) (hnone result)
    | lost result handle => exact absurd List.mem_cons_self (hnone result)
    -- the only case in which a coroutine is there to be resumed
    | waiting handle =>
      exact h.woken hx hw hhandle hlog result

/-- A meant use does not fail and keeps the invariant. -/
theorem exists_step (h : s.WakeInv) {a : Action F} (ha : s.Fair a) :
    ∃ s', s.step a = .ok s' ∧ s'.WakeInv := by
  cases a with
  | construct x t sfunc ret => exact ⟨_, rfl, h.construct ha t sfunc ret⟩
  | moveConstruct x y =>
    obtain ⟨hx, t, id, howner, hidle⟩ := ha
    exact h.moveConstruct hx howner hidle
  | moveAssign x y =>
    obtain ⟨⟨t, id, howner, -⟩, hy, hmoved⟩ := ha
    exact h.moveAssign howner hy hmoved
  | destroy x =>
    obtain ⟨⟨t, id⟩, howner⟩ := Option.ne_none_iff_exists'.mp ha
    exact h.destroy howner
  | awaitSuspend x handle =>
    obtain ⟨hframe, t, id, howner, hidle⟩ := ha
    exact h.awaitSuspend howner hidle hframe
  | cqeReady t id result => exact h.cqeReady ha.1 ha.2 result

end WakeInv

theorem start_wakeInv : ({} : CoState F).WakeInv where
  inv := start_inv
  drawn hn := by cases hn
  once hr := by cases hr
  registered hx := by cases hx
  life hx := by cases hx
  awaits hx := by cases hx

theorem wakeInv_reached (h : Reached step (fun s a => s.Fair a) ({} : CoState F) s) : s.WakeInv := by
  refine h.invariant start_wakeInv fun s a s' hinv ha hstep => ?_
  obtain ⟨s₁, hs₁, hinv₁⟩ := hinv.exists_step ha
  obtain rfl := Except.ok.inj (hs₁.symm.trans hstep)
  exact hinv₁

theorem filter_resumes_life (s : CoState F) (id : Id) :
    (s.life id).filter (CoNote.resumes id) = s.log.filter (CoNote.resumes id) := by
  rw [CoState.life, List.filter_filter]
  refine List.filter_congr fun n _ => ?_
  cases n with
  | resumed id' handle ret => exact Bool.and_self _
  | registered => rfl
  | suspended => rfl
  | completed => rfl

/-- A sequence of events for one identifier is looked for among what happened to it. -/
theorem sublist_life_iff {notes : List CoNote} (h : ∀ n ∈ notes, n.ofLife id = true) :
    notes.Sublist (s.life id) ↔ notes.Sublist s.log := by
  constructor
  · intro hsub
    exact hsub.trans List.filter_sublist
  · intro hsub
    have hfilter := hsub.filter (CoNote.ofLife id)
    rw [List.filter_eq_self.mpr h] at hfilter
    exact hfilter

/-- In a run of meant uses, a coroutine of a live object whose request was completed was resumed
exactly once, with the result of the completion, just if it was suspended before the completion was
handled. A completion for an identifier that has no owner has no effect, and nothing fails. -/
theorem resumed_once_iff (s : CoState F)
    (h : Reached step (fun s a => s.Fair a) ({} : CoState F) s) :
    (∀ x t id handle result, s.owners x = some (t, id) →
      .suspended id handle ∈ s.log → .completed id result ∈ s.log →
      (s.log.filter (CoNote.resumes id) = [.resumed id handle result] ↔
        [.suspended id handle, .completed id result].Sublist s.log)) ∧
    (∀ t id result, (∀ x, s.owners x ≠ some (t, id)) →
      s.step (.cqeReady t id result) = .ok (s.note (.completed id result))) ∧
    ∀ a, s.Fair a → ∃ s', s.step a = .ok s' := by
  have hinv := wakeInv_reached h
  refine ⟨fun x t id handle result hx hs hc => ?_, fun t id result hfree => ?_, fun a ha => ?_⟩
  · obtain ⟨w, -, hlife⟩ := hinv.life hx
    have hof : ∀ n ∈ [CoNote.suspended id handle, CoNote.completed id result],
        n.ofLife id = true := by
      intro n hn
      rcases List.mem_pair.mp hn with rfl | rfl
      · exact decide_eq_true rfl
      · exact decide_eq_true rfl
    rw [← sublist_life_iff hof, ← filter_resumes_life]
    exact hlife.resumes_iff (List.mem_filter.mpr ⟨hs, decide_eq_true rfl⟩)
      (List.mem_filter.mpr ⟨hc, decide_eq_true rfl⟩)
  · refine WakeInv.cqeReady_eq_note fun w hw => ?_
    obtain ⟨x, hx⟩ := (hinv.inv.exact.1 t id).mp (by rw [hw]; rfl)
    exact absurd hx (hfree x)
  · obtain ⟨s', hstep, -⟩ := hinv.exists_step ha
    exact ⟨s', hstep⟩

/-- An object is constructed and awaited, and its request is completed. -/
def awaited : List (Action Unit) :=
  [.construct 0 0 () 0, .awaitSuspend 0 7, .cqeReady 0 (some 0) 5]

/-- The coroutine is resumed once, with the result. -/
theorem awaited_resumed : ∃ s : CoState Unit, runActions step awaited {} = .ok s ∧
    s.log.filter (CoNote.resumes (some 0)) = [.resumed (some 0) 7 5] := by
  have hrun : (runActions step awaited ({} : CoState Unit)).map (fun s => (s.owners 0, s.log)) =
      .ok (some (0, some 0), [.registered 0 (some 0), .suspended (some 0) 7, .completed (some 0) 5,
        .resumed (some 0) 7 5]) := by
    decide +kernel
  obtain ⟨s, hrun, hs⟩ := exists_of_map_eq_ok hrun
  obtain ⟨howner, hlog⟩ := Prod.mk.inj hs
  have hmeets : Meets step (fun s a => s.Fair a) awaited ({} : CoState Unit) := by
    refine ⟨rfl, ⟨rfl, 0, some 0, rfl, ?_⟩, ⟨List.mem_cons_self, ?_⟩, trivial⟩
    · rintro ⟨handle, hin⟩
      cases List.mem_singleton.mp hin
    · intro result hin
      rcases List.mem_pair.mp hin with heq | heq
      · cases heq
      · cases heq
  have hresumed := (resumed_once_iff s (reached_of_runActions .start hmeets hrun)).1
  refine ⟨s, hrun, (hresumed 0 0 (some 0) 7 5 howner ?_ ?_).mpr ?_⟩
  · rw [hlog]
    decide
  · rw [hlog]
    decide
  · rw [hlog]
    decide

/-- The request is completed before the object is awaited. -/
def awaitedLate : List (Action Unit) :=
  [.construct 0 0 () 0, .cqeReady 0 (some 0) 5, .awaitSuspend 0 7]

/-- The coroutine is suspended and its request was completed, but it was not resumed. -/
theorem awaitedLate_asleep :
    Meets step (fun s a => s.Fair a) awaitedLate ({} : CoState Unit) ∧
    ∃ s : CoState Unit, runActions step awaitedLate {} = .ok s ∧ s.owners 0 = some (0, some 0) ∧
      .suspended (some 0) 7 ∈ s.log ∧ .completed (some 0) 5 ∈ s.log ∧
      s.log.filter (CoNote.resumes (some 0)) = [] := by
  have hrun : (runActions step awaitedLate ({} : CoState Unit)).map (fun s => (s.owners 0, s.log)) =
      .ok (some (0, some 0), [.registered 0 (some 0), .completed (some 0) 5,
        .suspended (some 0) 7]) := by
    decide +kernel
  obtain ⟨s, hrun, hs⟩ := exists_of_map_eq_ok hrun
  obtain ⟨howner, hlog⟩ := Prod.mk.inj hs
  refine ⟨?_, s, hrun, howner, ?_, ?_, ?_⟩
  · refine ⟨rfl, ⟨List.mem_cons_self, ?_⟩, ⟨rfl, 0, some 0, rfl, ?_⟩, trivial⟩
    · intro result hin
      cases List.mem_singleton.mp hin
    · rintro ⟨handle, hin⟩
      rcases List.mem_pair.mp hin with heq | heq
      · cases heq
      · cases heq
  · rw [hlog]
    decide
  · rw [hlog]
    decide
  · rw [hlog]
    decide

end CoState

end LocalSoftware
