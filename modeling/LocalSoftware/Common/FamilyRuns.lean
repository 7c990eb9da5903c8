import LocalSoftware.Common.Family
import LocalSoftware.Common.PresenceRuns

/-!
# No object is left behind: the runs

`no_orphans` collects what `Accounts` and `Family` say about a run with one worker thread: the
procedures in the table are those of the objects; each object other than a root is a child of the
object that constructed it, or its deletion is in the queue; and once the queue is empty, nothing is
left of an object that was deleted, nor of its descendants.
-/

set_option autoImplicit false

namespace LocalSoftware

variable {V : Vocabulary} {σ : Type}

/-- The keys of `proc_to_dat` are the disjoint union of the `assoc_procs` of the objects, which are
the `assoc_obj` of these procedures. -/
structure World.Accounted (w : World V σ) : Prop where
  keys : ∀ p, ((w.threads 0).procToDat p).isSome ↔
    ∃ o obj, (w.threads 0).objInfo o = some obj ∧ p ∈ obj.assocProcs
  disjoint : ∀ o o' obj obj' p, (w.threads 0).objInfo o = some obj →
    (w.threads 0).objInfo o' = some obj' → p ∈ obj.assocProcs → p ∈ obj'.assocProcs → o = o'
  nodup : ∀ o obj, (w.threads 0).objInfo o = some obj → obj.assocProcs.Nodup
  assocObj : ∀ o obj p c, (w.threads 0).objInfo o = some obj → p ∈ obj.assocProcs →
    (w.threads 0).procToDat p = some c → c.assocObj = o

theorem World.Accounts.accounted {w : World V σ} (h : w.Accounts) : w.Accounted := by
  have hlists : ∀ {o obj}, (w.threads 0).objInfo o = some obj →
      w.procLists o = some obj.assocProcs := by
    intro o obj ho
    rw [World.procLists, ho]
    rfl
  have howner : ∀ {o obj p}, (w.threads 0).objInfo o = some obj → p ∈ obj.assocProcs →
      ∃ c, (w.threads 0).procToDat p = some c ∧ c.assocObj = o :=
    fun ho hp => Option.map_eq_some_iff.mp (h.ledger.owned (hlists ho) hp)
  refine ⟨fun p => Iff.intro ?_ ?_, ?_, ?_, ?_⟩
  · intro hp
    obtain ⟨c, hc⟩ := Option.isSome_iff_exists.mp hp
    obtain ⟨l, hl, hmem⟩ := h.ledger.listed (k := c.assocObj) (congrArg (Option.map _) hc)
    obtain ⟨obj, hobj, rfl⟩ := Option.map_eq_some_iff.mp hl
    exact ⟨c.assocObj, obj, hobj, hmem⟩
  · rintro ⟨o, obj, ho, hp⟩
    obtain ⟨c, hc, -⟩ := howner ho hp
    rw [hc]
    rfl
  · exact fun o o' obj obj' p ho ho' hp hp' =>
      h.ledger.disjoint (hlists ho) (hlists ho') hp hp'
  · exact fun o obj ho => h.ledger.nodup (hlists ho)
  · intro o obj p c ho hp hc
    obtain ⟨c', hc', hobj⟩ := howner ho hp
    obtain rfl := Option.some.inj (hc.symm.trans hc')
    exact hobj

theorem World.start_family (malloc : Nat → Nat) (heap : σ) :
    World.Family (fun _ => []) ({ size := 1, malloc, heap } : World V σ) where
  size := rfl
  unique := List.nodup_nil
  takenBuilt o ho := absurd ho List.not_mem_nil
  takenRoot o ho := absurd ho List.not_mem_nil
  rootsApart := List.nodup_nil
  objects ho := nomatch ho
  locators hl := by
    obtain ⟨ty, idx, info, hslot, -⟩ := hl
    cases hslot
  children ho := nomatch ho
  behind := preceded_nil
  gone hd := absurd hd List.not_mem_nil
  cared hc := absurd hc List.not_mem_nil

namespace History

variable {P : Program V σ} {s : History V σ} {parent x : Id}

/-- The object `parent` queued the construction of `x`. -/
def Constructed (s : History V σ) (parent x : Id) : Prop :=
  ∃ c ty idx, .constructorCall c ∈ s.received 0 ∧ c.constructor.slot = some (parent, ty, idx) ∧
    c.ti.objId = x

/-- A root, whose construction no object queued. -/
def IsRoot (s : History V σ) (x : Id) : Prop :=
  ∃ c, .constructorCall c ∈ s.received 0 ∧ c.constructor.slot = none ∧ c.ti.objId = x

/-- Every object that is there or will be constructed, other than a root, is among the children of
the object that constructed it, or its deletion is behind its construction. -/
def NoOrphans (s : History V σ) : Prop :=
  ∀ x, ((s.world.threads 0).objInfo x).isSome ∨
      (∃ c, .constructorCall c ∈ s.world.queues 0 ∧ c.ti.objId = x) → ¬ s.IsRoot x →
    (∃ parent obj, s.Constructed parent x ∧ (s.world.threads 0).objInfo parent = some obj ∧
      x ∈ obj.children.map (·.1)) ∨
    ∃ front d back, s.world.queues 0 = front ++ .delete d :: back ∧ d.ti.objId = x ∧
      ∀ c, .constructorCall c ∈ back → c.ti.objId ≠ x

/-- Once the queue is empty, a deleted object is gone, with its descendants and their procedures. -/
def Cleared (s : History V σ) : Prop :=
  s.world.queues 0 = [] → ∀ d, .delete d ∈ s.taken 0 → ∀ x,
    Relation.ReflTransGen s.Constructed d.ti.objId x →
      (s.world.threads 0).objInfo x = none ∧
        ∀ p c, (s.world.threads 0).procToDat p = some c → c.assocObj ≠ x

theorem noOrphans (h : World.Family s.taken s.world) : s.NoOrphans := by
  intro x hx hroot
  have hpresent : s.world.Present x := by
    refine hx.imp (fun hx => ?_) fun hx => World.mem_builtId.mpr hx
    rw [World.kids, Option.isSome_map]
    exact hx
  have hbuilt : x ∈ (s.received 0).filterMap EventVariant.builtId := by
    rw [received, List.filterMap_append]
    rcases hpresent with hx | hx
    · exact List.mem_append_left _ (h.objects hx)
    · exact List.mem_append_right _ hx
  obtain ⟨c, hc, rfl⟩ := World.mem_builtId.mp hbuilt
  cases hslot : c.constructor.slot with
  | none => exact absurd ⟨c, hc, hslot, rfl⟩ hroot
  | some slot =>
    obtain ⟨parent, ty, idx⟩ := slot
    rcases h.cared hc hslot hpresent with ⟨l, hl, hmem⟩ | ⟨d, hd, hid⟩
    · obtain ⟨obj, hobj, rfl⟩ := Option.map_eq_some_iff.mp hl
      exact Or.inl ⟨parent, obj, ⟨c, ty, idx, hc, hslot, rfl⟩, hobj, hmem⟩
    · obtain ⟨front, back, hqueue⟩ := List.append_of_mem hd
      refine Or.inr ⟨front, d, back, hqueue, hid, fun c' hc' heq => ?_⟩
      have hall : s.taken 0 ++ s.world.queues 0 = (s.taken 0 ++ front) ++ .delete d :: back := by
        rw [hqueue, List.append_assoc]
      have hbehind := h.behind _ _ _ hall _ rfl
      refine h.not_built hall hbehind (World.mem_builtId.mpr ⟨c', List.mem_cons_of_mem _ hc', ?_⟩)
      rw [heq, hid]

/-- With an empty queue, the ancestors of an object are there. -/
theorem ancestor_there (h : World.Family s.taken s.world) (hqueue : s.world.queues 0 = [])
    {o : Id} (hx : Relation.ReflTransGen s.Constructed o x) (hthere : (s.world.kids x).isSome) :
    (s.world.kids o).isSome := by
  induction hx with
  | refl => exact hthere
  | tail _ hstep ih =>
    obtain ⟨c, ty, idx, hc, hslot, rfl⟩ := hstep
    rcases h.cared hc hslot (Or.inl hthere) with ⟨l, hl, -⟩ | ⟨d, hd, -⟩
    · exact ih (by rw [hl]; rfl)
    · rw [hqueue] at hd
      cases hd

theorem cleared (h : World.Family s.taken s.world) (haccounts : s.world.Accounts) : s.Cleared := by
  intro hqueue d hd x hx
  have hnone : (s.world.threads 0).objInfo x = none := by
    by_contra hne
    obtain ⟨obj, hobj⟩ := Option.ne_none_iff_exists'.mp hne
    have hthere := ancestor_there h hqueue hx (by rw [World.kids, hobj]; rfl)
    rw [h.gone hd] at hthere
    cases hthere
  refine ⟨hnone, fun p c hp heq => ?_⟩
  obtain ⟨l, hl, -⟩ := haccounts.ledger.listed (k := c.assocObj) (congrArg (Option.map _) hp)
  rw [heq, World.procLists, hnone] at hl
  cases hl

/-- In every run with one worker thread, procedures have their objects, and no object is left
behind. -/
theorem no_orphans (P : Program V σ) (malloc : Nat → Nat) (heap : σ) (s : History V σ)
    (h : Reached (step P) (fun _ _ => True) { world := { size := 1, malloc, heap } } s) :
    s.world.Accounted ∧ s.NoOrphans ∧ s.Cleared := by
  have hinv : World.Family s.taken s.world ∧ s.world.Accounts ∧ s.world.LocatorsOk := by
    refine invariant (I := fun taken w => World.Family taken w ∧ w.Accounts ∧ w.LocatorsOk) h
      ⟨World.start_family malloc heap, ?_, World.locatorsOk P 1 malloc heap .start⟩ ?_ ?_
    · exact {
        size := rfl
        ledger := Ledger.empty
        takenOwner := fun hp => nomatch hp
        fresh := fun hp => absurd hp List.not_mem_nil
        apart := List.nodup_nil }
    · intro s t m rest w' hI _ ht hq hw
      obtain rfl : t = 0 := Nat.lt_one_iff.mp (hI.1.size ▸ ht)
      exact ⟨World.handled_family hI.1 hI.2.2 hq hw, World.handled_accounts hI.2.1 hw,
        World.handled_locatorsOk hI.2.2 hw⟩
    · intro s a w' hI _ ha hstep
      exact ⟨hI.1.other ha hstep, hI.2.1.other ha hstep, World.step_locatorsOk hI.2.2 hstep⟩
  exact ⟨hinv.2.1.accounted, noOrphans hinv.1, cleared hinv.1 hinv.2.1⟩

/-- The child that waited is deleted, and its children are gone with it, the last one first. -/
theorem team_cleared : ∃ s,
    Reached (step (World.team true)) (fun _ _ => True) { world := World.team₀ } s ∧
    ((s.taken 0).map EventVariant.endedId).filterMap id = [some 1000, some 1002, some 1001] ∧
    (s.world.queues 0).isEmpty ∧ s.world.Accounted ∧ s.NoOrphans ∧ s.Cleared := by
  have htaken : (runActions (step (World.team true)) (.iterate .reversed :: World.teamActions 14)
      { world := World.team₀ }).map (fun s =>
        (((s.taken 0).map EventVariant.endedId).filterMap id, (s.world.queues 0).isEmpty)) =
      .ok ([some 1000, some 1002, some 1001], true) := by
    decide +kernel
  obtain ⟨s, hrun, htaken⟩ := exists_of_map_eq_ok htaken
  obtain ⟨htaken, hqueue⟩ := Prod.mk.inj htaken
  have hreached : Reached (step (World.team true)) (fun _ _ => True) { world := World.team₀ } s :=
    reached_of_runActions .start (meets_true _ _) hrun
  exact ⟨s, hreached, htaken, hqueue, no_orphans (World.team true) id () s hreached⟩

end History

end LocalSoftware
