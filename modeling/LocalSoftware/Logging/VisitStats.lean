import LocalSoftware.Common.Defs
import Mathlib.Algebra.GroupWithZero.Nat
import Mathlib.Algebra.Ring.Int.Defs
import Mathlib.Data.List.Basic
import Mathlib.Data.List.Induction
import Mathlib.Logic.Function.Basic

/-!
# Visit statistics

`VisitStats` of `visit_stats.h` and `visit_stats.cpp`: for each service and endpoint a list of bins of
240 seconds with the number of their accesses. `Inv` ties the lists to the history of the calls, and
`getEndpointStats_eq_count_iff` says when `get_endpoint_stats` counts the accesses of a range.
-/

set_option autoImplicit false

namespace LocalSoftware.Logging

/-- `delta`. -/
def delta : Int := 240

/-- A reading of `system_clock`: nanoseconds since the epoch, in an `int64_t`. -/
structure SystemTime where
  nanoseconds : Int
  positive : 0 < nanoseconds
  bounded : nanoseconds < 2 ^ 63

/-- `curr_bin`. -/
def currBin (now : SystemTime) : Int := (now.nanoseconds.tdiv 1000000000).tdiv delta * delta

/-- The bins of an endpoint, with their times and counts. -/
abbrev Bins := List (Int × Nat)

/-- The map of the endpoints of a service. -/
abbrev Endpoints := Str → Option Bins

/-- `visits_`. -/
abbrev Visits := List (Str × Endpoints)

/-- What `add_access` does with the list of the endpoint. Only the last bin is looked at. -/
def recordAccess (list : Bins) (bin : Int) : Bins :=
  match list.getLast? with
  | none => [(bin, 1)]
  | some (time, count) =>
    if bin = time then list.dropLast ++ [(time, (count + 1) % 2 ^ 64)]
    else list ++ [(bin, 1)]

/-- `add_access`. The clock is read once for each entry of the service. -/
def addAccess (service endpoint : Str) : (Nat → SystemTime) → Visits → Visits
  | _, [] => []
  | now, (name, endpoints) :: visits =>
    if name = service then
      (name, Function.update endpoints endpoint
        (some (recordAccess ((endpoints endpoint).getD []) (currBin (now 0))))) ::
          addAccess service endpoint (fun k => now (k + 1)) visits
    else (name, endpoints) :: addAccess service endpoint now visits

/-- `register_service`. -/
def registerService (service : Str) (visits : Visits) : Visits :=
  visits ++ [(service, fun _ => none)]

/-- `start + delta * (signed)end`, a `time_t`. -/
def lastBin (start : Int) (stop : UInt64) : Except Fault Int :=
  let bound := start + delta * toInt stop.toNat
  if -2 ^ 63 ≤ bound ∧ bound < 2 ^ 63 then .ok bound else .error .undefinedBehaviour

/-- The loop over the bins. -/
def sumBins (start : Int) (stop : UInt64) : Bins → Nat → Except Fault Nat
  | [], total => .ok total
  | (time, count) :: list, total =>
    if start ≤ time then do
      let bound ← lastBin start stop
      sumBins start stop list (if time ≤ bound then (total + count) % 2 ^ 64 else total)
    else sumBins start stop list total

/-- `get_endpoint_stats`. -/
def getEndpointStats (service endpoint : Str) (start : Int) (stop : UInt64) :
    Visits → Except Fault Nat
  | [] => .ok 0
  | (name, endpoints) :: visits =>
    if name = service then
      match endpoints endpoint with
      | some list => sumBins start stop list 0
      | none => getEndpointStats service endpoint start stop visits
    else getEndpointStats service endpoint start stop visits

/-! ## Histories -/

/-- A call, with the clock readings it makes. -/
inductive Call where
  | registerService (service : Str)
  | addAccess (service endpoint : Str) (now : Nat → SystemTime)

/-- The effect of a call. -/
def call (visits : Visits) : Call → Visits
  | .registerService service => registerService service visits
  | .addAccess service endpoint now => addAccess service endpoint now visits

/-- The statistics after some calls. -/
def run (calls : List Call) : Visits := calls.foldl call []

/-- The bin of an access to the endpoint. -/
def Call.binOf (service endpoint : Str) : Call → Option Int
  | .registerService _ => none
  | .addAccess s e now => if s = service ∧ e = endpoint then some (currBin (now 0)) else none

/-- The bins of the accesses to an endpoint, one for each call. -/
def accesses (calls : List Call) (service endpoint : Str) : List Int :=
  calls.filterMap (Call.binOf service endpoint)

/-- Every service is registered before its accesses. -/
def RegisteredFirst (calls : List Call) : Prop :=
  ∀ before after service endpoint now, calls = before ++ .addAccess service endpoint now :: after →
    .registerService service ∈ before

/-- The number of accesses whose bins start within `n` bins from `start`. -/
def countFrom (calls : List Call) (service endpoint : Str) (start : Int) (n : Nat) : Nat :=
  (accesses calls service endpoint).countP fun bin => start ≤ bin ∧ bin ≤ start + delta * n

/-! ## What a list of bins records -/

/-- The count of the bins of a kind. -/
def weight (p : Int → Bool) (list : Bins) : Nat := ((list.filter fun b => p b.1).map Prod.snd).sum

/-- The list has the bins of these accesses, and counts them. -/
structure Records (list : Bins) (bins : List Int) : Prop where
  times : ∀ t, t ∈ list.map Prod.fst ↔ t ∈ bins
  counts : ∀ p, weight p list % 2 ^ 64 = bins.countP p % 2 ^ 64

theorem weight_cons (p : Int → Bool) (list : Bins) (time : Int) (count : Nat) :
    weight p ((time, count) :: list) = (if p time then count else 0) + weight p list := by
  unfold weight
  cases h : p time <;> simp [h]

theorem weight_append (p : Int → Bool) (list : Bins) (time : Int) (count : Nat) :
    weight p (list ++ [(time, count)]) = weight p list + if p time then count else 0 := by
  unfold weight
  rw [List.filter_append, List.map_append, List.sum_append]
  congr 1
  cases h : p time <;> simp [h]

theorem Records.nil : Records [] [] := ⟨fun _ => Iff.rfl, fun _ => rfl⟩

/-- One more access is counted in the last bin, or in a new one. -/
theorem Records.recordAccess {list : Bins} {bins : List Int} (h : Records list bins) (bin : Int) :
    Records (recordAccess list bin) (bins ++ [bin]) := by
  have hnew : Records (list ++ [(bin, 1)]) (bins ++ [bin]) := by
    constructor
    · intro t
      rw [List.map_append, List.mem_append, List.mem_append, h.times t]
      rfl
    · intro p
      rw [weight_append, List.countP_append, Nat.add_mod, h.counts p, ← Nat.add_mod,
        List.countP_singleton]
  rcases List.eq_nil_or_concat list with rfl | ⟨front, ⟨time, count⟩, rfl⟩
  · exact hnew
  · rw [List.concat_eq_append] at h hnew ⊢
    rw [Logging.recordAccess, List.getLast?_concat]
    simp only [List.dropLast_concat]
    by_cases hbin : bin = time
    · subst hbin
      rw [if_pos rfl]
      constructor
      · intro t
        have hold := h.times t
        have hlast : bin ∈ bins := (h.times bin).1 (by simp)
        rw [List.map_append, List.map_singleton] at hold ⊢
        rw [hold, List.mem_append, List.mem_singleton]
        constructor
        · exact Or.inl
        · intro ht
          rcases ht with ht | rfl
          · exact ht
          · exact hlast
      · intro p
        have hold := h.counts p
        rw [weight_append] at hold ⊢
        rw [List.countP_append, List.countP_singleton]
        cases hp : p bin with
        | false =>
          simp only [hp, Bool.false_eq_true, if_false, Nat.add_zero] at hold ⊢
          exact hold
        | true =>
          simp only [hp, if_true] at hold ⊢
          omega
    · rw [if_neg hbin]
      exact hnew

/-! ## The loop over the bins -/

/-- The bins that the loop counts. -/
def counted (start : Int) (stop : UInt64) (time : Int) : Bool :=
  start ≤ time ∧ time ≤ start + delta * toInt stop.toNat

section Loop

variable {start : Int} {stop : UInt64}

theorem lastBin_ok (h : -2 ^ 63 ≤ start + delta * toInt stop.toNat ∧
    start + delta * toInt stop.toNat < 2 ^ 63) :
    lastBin start stop = .ok (start + delta * toInt stop.toNat) := if_pos h

/-- As long as the bound can be computed, the loop adds up the counts. -/
theorem sumBins_eq {list : Bins} {total : Nat} (htotal : total < 2 ^ 64)
    (h : ∀ t ∈ list.map Prod.fst, start ≤ t → lastBin start stop =
      .ok (start + delta * toInt stop.toNat)) :
    sumBins start stop list total = .ok ((total + weight (counted start stop) list) % 2 ^ 64) := by
  induction list generalizing total with
  | nil => exact congrArg Except.ok (Nat.mod_eq_of_lt htotal).symm
  | cons b list ih =>
    obtain ⟨time, count⟩ := b
    have hrest : ∀ t ∈ list.map Prod.fst, start ≤ t → lastBin start stop =
        .ok (start + delta * toInt stop.toNat) :=
      fun t ht => h t (List.mem_cons_of_mem _ ht)
    rw [sumBins]
    by_cases hstart : start ≤ time
    · rw [if_pos hstart, h time (by simp) hstart]
      change sumBins start stop list
        (if time ≤ start + delta * toInt stop.toNat then (total + count) % 2 ^ 64 else total) = _
      by_cases hstop : time ≤ start + delta * toInt stop.toNat
      · have hcounted : counted start stop time = true := decide_eq_true ⟨hstart, hstop⟩
        rw [if_pos hstop, ih (Nat.mod_lt _ (by decide)) hrest, weight_cons, if_pos hcounted,
          Nat.mod_add_mod, Nat.add_assoc]
      · have hcounted : ¬ counted start stop time = true :=
          fun hin => hstop (of_decide_eq_true hin).2
        rw [if_neg hstop, ih htotal hrest, weight_cons, if_neg hcounted, Nat.zero_add]
    · have hcounted : ¬ counted start stop time = true :=
        fun hin => hstart (of_decide_eq_true hin).1
      rw [if_neg hstart, ih htotal hrest, weight_cons, if_neg hcounted, Nat.zero_add]

/-- A bin that is compared with a bound out of range ends the call. -/
theorem sumBins_error {list : Bins} {total : Nat} {e : Fault} (h : lastBin start stop = .error e)
    {t : Int} (ht : t ∈ list.map Prod.fst) (hstart : start ≤ t) :
    sumBins start stop list total = .error e := by
  induction list with
  | nil => cases ht
  | cons b list ih =>
    obtain ⟨time, count⟩ := b
    rw [sumBins]
    by_cases hle : start ≤ time
    · rw [if_pos hle, h]
      rfl
    · rw [if_neg hle]
      rw [List.map_cons, List.mem_cons] at ht
      rcases ht with rfl | ht
      · exact absurd hstart hle
      · exact ih ht

end Loop

/-! ## What the statistics record -/

/-- The entry of a service that is found first. -/
def firstEntry (service : Str) (visits : Visits) : Option Endpoints :=
  (visits.find? fun entry => entry.1 = service).map Prod.snd

/-- The list of an endpoint, if there is one, has its accesses. -/
structure RecordsEndpoint (list : Option Bins) (bins : List Int) : Prop where
  created : list = none → bins = []
  records : Records (list.getD []) bins

/-- What holds of the statistics after some calls. -/
structure Inv (calls : List Call) (visits : Visits) : Prop where
  registered : ∀ service, .registerService service ∈ calls →
    (firstEntry service visits).isSome = true
  first : ∀ service endpoints, firstEntry service visits = some endpoints →
    ∀ endpoint, RecordsEndpoint (endpoints endpoint) (accesses calls service endpoint)
  accessed : ∀ entry ∈ visits, ∀ endpoint list, entry.2 endpoint = some list →
    accesses calls entry.1 endpoint ≠ []

section Steps

variable {visits : Visits} {service endpoint : Str}

theorem firstEntry_cons (entry : Str × Endpoints) (visits : Visits) (service : Str) :
    firstEntry service (entry :: visits) =
      if entry.1 = service then some entry.2 else firstEntry service visits := by
  unfold firstEntry
  rw [List.find?_cons]
  by_cases h : entry.1 = service <;> simp [h]

/-- A registration is seen when the service had no entry. -/
theorem firstEntry_registerService (service' : Str) :
    firstEntry service' (registerService service visits) =
      (firstEntry service' visits).or (if service = service' then some fun _ => none else none) := by
  induction visits with
  | nil => exact firstEntry_cons ..
  | cons entry visits ih =>
    change firstEntry service' (entry :: registerService service visits) = _
    rw [firstEntry_cons, firstEntry_cons, ih]
    split <;> rfl

/-- An access changes the first entry of its service at its endpoint. -/
theorem firstEntry_addAccess (now : Nat → SystemTime) (service' : Str) :
    firstEntry service' (addAccess service endpoint now visits) =
      if service = service' then
        (firstEntry service' visits).map fun endpoints => Function.update endpoints endpoint
          (some (recordAccess ((endpoints endpoint).getD []) (currBin (now 0))))
      else firstEntry service' visits := by
  induction visits generalizing now with
  | nil =>
    rw [addAccess]
    split <;> rfl
  | cons entry visits ih =>
    obtain ⟨name, endpoints⟩ := entry
    rw [addAccess]
    by_cases hname : name = service
    · rw [if_pos hname, firstEntry_cons, firstEntry_cons, ih]
      subst hname
      by_cases hservice : name = service'
      · simp only [if_pos hservice, Option.map_some]
      · simp only [if_neg hservice]
    · rw [if_neg hname, firstEntry_cons, firstEntry_cons, ih]
      by_cases hservice : name = service'
      · have hne : ¬ service = service' := fun heq => hname (hservice.trans heq.symm)
        simp only [if_pos hservice, if_neg hne]
      · simp only [if_neg hservice]

/-- The entries after an access are those before it, but for the lists of its endpoint. -/
theorem mem_addAccess {now : Nat → SystemTime} {entry : Str × Endpoints}
    (h : entry ∈ addAccess service endpoint now visits) :
    ∃ old ∈ visits, entry.1 = old.1 ∧
      ∀ e, entry.2 e = old.2 e ∨ entry.1 = service ∧ e = endpoint := by
  induction visits generalizing now with
  | nil => cases h
  | cons head visits ih =>
    obtain ⟨name, endpoints⟩ := head
    rw [addAccess] at h
    by_cases hname : name = service
    · rw [if_pos hname, List.mem_cons] at h
      rcases h with rfl | h
      · refine ⟨(name, endpoints), List.mem_cons_self, rfl, fun e => ?_⟩
        by_cases he : e = endpoint
        · exact Or.inr ⟨hname, he⟩
        · exact Or.inl (Function.update_of_ne he ..)
      · obtain ⟨old, hold, hsame⟩ := ih h
        exact ⟨old, List.mem_cons_of_mem _ hold, hsame⟩
    · rw [if_neg hname, List.mem_cons] at h
      rcases h with rfl | h
      · exact ⟨(name, endpoints), List.mem_cons_self, rfl, fun e => Or.inl rfl⟩
      · obtain ⟨old, hold, hsame⟩ := ih h
        exact ⟨old, List.mem_cons_of_mem _ hold, hsame⟩

end Steps

section Histories

variable {calls : List Call} {visits : Visits} {service endpoint : Str}

theorem accesses_concat (calls : List Call) (c : Call) (service endpoint : Str) :
    accesses (calls ++ [c]) service endpoint =
      accesses calls service endpoint ++ (c.binOf service endpoint).toList := by
  unfold accesses
  rw [List.filterMap_append, List.filterMap_cons, List.filterMap_nil]
  cases c.binOf service endpoint <;> rfl

theorem RegisteredFirst.of_concat {c : Call} (h : RegisteredFirst (calls ++ [c])) :
    RegisteredFirst calls := by
  intro before after s e now hsplit
  refine h before (after ++ [c]) s e now ?_
  rw [hsplit, List.append_assoc, List.cons_append]

/-- A service with accesses is registered. -/
theorem RegisteredFirst.mem (h : RegisteredFirst calls) (hne : accesses calls service endpoint ≠ []) :
    .registerService service ∈ calls := by
  obtain ⟨bin, hbin⟩ := List.exists_mem_of_ne_nil _ hne
  obtain ⟨c, hc, hof⟩ := List.mem_filterMap.1 hbin
  cases c with
  | registerService s => cases hof
  | addAccess s e now =>
    rw [Call.binOf, Option.ite_none_right_eq_some] at hof
    obtain ⟨before, after, hsplit⟩ := List.append_of_mem hc
    have hbefore := h before after s e now hsplit
    rw [hof.1.1] at hbefore
    rw [hsplit]
    exact List.mem_append_left _ hbefore

/-- A registration keeps what is recorded. -/
theorem Inv.registerService (h : Inv calls visits) (hfirst : RegisteredFirst calls) (s : Str) :
    Inv (calls ++ [.registerService s]) (registerService s visits) := by
  have hsame : ∀ s' e, accesses (calls ++ [.registerService s]) s' e = accesses calls s' e := by
    intro s' e
    rw [accesses_concat]
    exact List.append_nil _
  constructor
  · intro s' hmem
    rw [firstEntry_registerService, Option.isSome_or, Bool.or_eq_true]
    rw [List.mem_append, List.mem_singleton] at hmem
    rcases hmem with hmem | hnew
    · exact Or.inl (h.registered s' hmem)
    · have heq : s' = s := Call.registerService.inj hnew
      rw [if_pos heq.symm]
      exact Or.inr rfl
  · intro s' endpoints hentry e
    rw [hsame]
    rw [firstEntry_registerService, Option.or_eq_some_iff] at hentry
    rcases hentry with hentry | ⟨hnone, hnew⟩
    · exact h.first s' endpoints hentry e
    · -- a first registration: there was no access before it
      have hempty : accesses calls s' e = [] := by
        by_contra hne
        have hsome := h.registered s' (hfirst.mem hne)
        rw [hnone] at hsome
        cases hsome
      rw [Option.ite_none_right_eq_some] at hnew
      rw [← Option.some.inj hnew.2, hempty]
      exact ⟨fun _ => rfl, Records.nil⟩
  · intro entry hentry e list hlist
    rw [hsame]
    rw [Logging.registerService, List.mem_append, List.mem_singleton] at hentry
    rcases hentry with hentry | rfl
    · exact h.accessed entry hentry e list hlist
    · cases hlist

/-- An access is recorded. -/
theorem Inv.addAccess (h : Inv calls visits) (s e : Str) (now : Nat → SystemTime) :
    Inv (calls ++ [.addAccess s e now]) (addAccess s e now visits) := by
  constructor
  · intro s' hmem
    have hold : .registerService s' ∈ calls := by
      rw [List.mem_append, List.mem_singleton] at hmem
      rcases hmem with hmem | hnew
      · exact hmem
      · cases hnew
    have hsome := h.registered s' hold
    rw [firstEntry_addAccess]
    split
    · rw [Option.isSome_map]
      exact hsome
    · exact hsome
  · intro s' endpoints hentry e'
    rw [accesses_concat, Call.binOf]
    rw [firstEntry_addAccess] at hentry
    by_cases hs : s = s'
    · rw [if_pos hs, Option.map_eq_some_iff] at hentry
      obtain ⟨old, hold, rfl⟩ := hentry
      have hrec := h.first s' old hold e'
      by_cases he : e = e'
      · subst he
        rw [if_pos ⟨hs, rfl⟩, Function.update_self]
        refine ⟨fun hnone => ?_, hrec.records.recordAccess _⟩
        cases hnone
      · rw [if_neg fun hand => he hand.2, Function.update_of_ne fun heq => he heq.symm]
        exact (List.append_nil (accesses calls s' e')).symm ▸ hrec
    · rw [if_neg hs] at hentry
      rw [if_neg fun hand => hs hand.1]
      exact (List.append_nil (accesses calls s' e')).symm ▸ h.first s' endpoints hentry e'
  · intro entry hentry e' list hlist
    obtain ⟨old, hold, hname, hlists⟩ := mem_addAccess hentry
    rw [accesses_concat]
    rcases hlists e' with hsame | ⟨hservice, hendpoint⟩
    · rw [hsame] at hlist
      intro hnil
      rw [hname] at hnil
      exact h.accessed old hold e' list hlist (List.append_eq_nil_iff.1 hnil).1
    · rw [Call.binOf, if_pos ⟨hservice.symm, hendpoint.symm⟩]
      exact List.append_ne_nil_of_right_ne_nil _ (List.cons_ne_nil _ _)

theorem inv_run (calls : List Call) (h : RegisteredFirst calls) : Inv calls (run calls) := by
  induction calls using List.reverseRecOn with
  | nil =>
    constructor
    · intro s hmem
      cases hmem
    · intro s endpoints hentry
      cases hentry
    · intro entry hentry
      cases hentry
  | append_singleton calls c ih =>
    have hinv := ih h.of_concat
    rw [run, List.foldl_append]
    cases c with
    | registerService s => exact hinv.registerService h.of_concat s
    | addAccess s e now => exact hinv.addAccess s e now

end Histories

/-! ## What `get_endpoint_stats` counts -/

section Counts

variable {visits : Visits} {service endpoint : Str} {start : Int} {stop : UInt64}

theorem getEndpointStats_first {endpoints : Endpoints} {list : Bins}
    (hentry : firstEntry service visits = some endpoints) (hlist : endpoints endpoint = some list) :
    getEndpointStats service endpoint start stop visits = sumBins start stop list 0 := by
  induction visits with
  | nil => cases hentry
  | cons entry visits ih =>
    obtain ⟨name, m⟩ := entry
    rw [firstEntry_cons] at hentry
    rw [getEndpointStats]
    by_cases hname : name = service
    · rw [if_pos hname] at hentry ⊢
      have hm : m = endpoints := Option.some.inj hentry
      rw [hm, hlist]
    · rw [if_neg hname] at hentry ⊢
      exact ih hentry

theorem getEndpointStats_none
    (h : ∀ entry ∈ visits, entry.1 = service → entry.2 endpoint = none) :
    getEndpointStats service endpoint start stop visits = .ok 0 := by
  induction visits with
  | nil => rfl
  | cons entry visits ih =>
    obtain ⟨name, m⟩ := entry
    have hrest := ih fun entry hentry => h entry (List.mem_cons_of_mem _ hentry)
    rw [getEndpointStats]
    by_cases hname : name = service
    · have hnone : m endpoint = none := h (name, m) List.mem_cons_self hname
      simp only [if_pos hname, hnone, hrest]
    · rw [if_neg hname]
      exact hrest

/-- The answer is the sum over a list that records the accesses, if there are any. -/
theorem getEndpointStats_run {calls : List Call} (h : RegisteredFirst calls) (start : Int)
    (stop : UInt64) :
    accesses calls service endpoint = [] ∧
        getEndpointStats service endpoint start stop (run calls) = .ok 0 ∨
      ∃ list, Records list (accesses calls service endpoint) ∧
        getEndpointStats service endpoint start stop (run calls) = sumBins start stop list 0 := by
  have hinv := inv_run calls h
  by_cases hempty : accesses calls service endpoint = []
  · refine Or.inl ⟨hempty, getEndpointStats_none fun entry hentry hname => ?_⟩
    cases hlist : entry.2 endpoint with
    | none => rfl
    | some list =>
      rw [← hname] at hempty
      exact absurd hempty (hinv.accessed entry hentry endpoint list hlist)
  · obtain ⟨endpoints, hentry⟩ := Option.isSome_iff_exists.1
      (hinv.registered service (h.mem hempty))
    have hrec := hinv.first service endpoints hentry endpoint
    cases hlist : endpoints endpoint with
    | none => exact absurd (hrec.created hlist) hempty
    | some list =>
      refine Or.inr ⟨list, ?_, getEndpointStats_first hentry hlist⟩
      have hrecords := hrec.records
      rw [hlist] at hrecords
      exact hrecords

/-- The conversion of the number of bins never makes it larger, and what is added to `start` is small. -/
theorem delta_toInt_le (n : Nat) : delta * toInt n ≤ delta * n ∧ delta * toInt n < 2 ^ 62 := by
  unfold delta toInt Int.bmod
  dsimp only
  split <;> omega

/-- A bin is a time at which the clock can stand. -/
theorem currBin_lt (now : SystemTime) : currBin now < 2 ^ 34 := by
  have hpos := now.positive
  have hbound := now.bounded
  have hseconds : now.nanoseconds.tdiv 1000000000 = now.nanoseconds / 1000000000 :=
    Int.tdiv_eq_ediv_of_nonneg (by omega)
  have hbins : (now.nanoseconds / 1000000000).tdiv 240 = now.nanoseconds / 1000000000 / 240 :=
    Int.tdiv_eq_ediv_of_nonneg (by omega)
  rw [currBin, delta, hseconds, hbins]
  omega

theorem lt_of_mem_accesses {calls : List Call} {bin : Int}
    (h : bin ∈ accesses calls service endpoint) : bin < 2 ^ 34 := by
  obtain ⟨c, -, hof⟩ := List.mem_filterMap.1 h
  cases c with
  | registerService s => cases hof
  | addAccess s e now =>
    rw [Call.binOf, Option.ite_none_right_eq_some] at hof
    rw [← Option.some.inj hof.2]
    exact currBin_lt (now 0)

/-- Where a weaker predicate counts no more, it holds of no more. -/
theorem imp_of_countP_eq {α : Type} {p q : α → Bool} {l : List α} (himp : ∀ x, p x → q x)
    (heq : l.countP p = l.countP q) : ∀ x ∈ l, q x → p x := by
  induction l with
  | nil =>
    intro x hx
    cases hx
  | cons y l ih =>
    have hle : l.countP p ≤ l.countP q := List.countP_mono_left fun x _ => himp x
    rw [List.countP_cons, List.countP_cons] at heq
    have hy : q y = true → p y = true := by
      intro hqy
      by_contra hpy
      rw [if_neg hpy, if_pos hqy] at heq
      omega
    have hrest : l.countP p = l.countP q := by
      by_cases hpy : p y = true
      · rw [if_pos hpy, if_pos (himp y hpy)] at heq
        omega
      · rw [if_neg hpy, if_neg fun hqy => hpy (hy hqy)] at heq
        exact heq
    intro x hx
    rcases List.mem_cons.1 hx with rfl | hx
    · exact hy
    · exact ih hrest x hx

/-- As long as the bound is a `time_t`, the answer counts the accesses up to it. -/
theorem sumBins_of_records {list : Bins} {bins : List Int} (h : Records list bins)
    (hbound : ∀ bin ∈ bins, start ≤ bin → -2 ^ 63 ≤ start + delta * toInt stop.toNat ∧
      start + delta * toInt stop.toNat < 2 ^ 63) :
    sumBins start stop list 0 = .ok (bins.countP (counted start stop) % 2 ^ 64) := by
  have hsum : sumBins start stop list 0 = _ := sumBins_eq (Nat.two_pow_pos 64)
    fun t ht hstart => lastBin_ok (hbound t ((h.times t).1 ht) hstart)
  rw [hsum, Nat.zero_add, h.counts]

/-- The answer is the number of the accesses in the range exactly when fewer than `2 ^ 64` are, and the
bound that the code computes, with the number of bins converted to `int`, is a `time_t` and leaves out
none of them. -/
theorem getEndpointStats_eq_count_iff {calls : List Call} (h : RegisteredFirst calls)
    (service endpoint : Str) (start : Int) (stop : UInt64) :
    getEndpointStats service endpoint start stop (run calls) =
        .ok (countFrom calls service endpoint start stop.toNat) ↔
      countFrom calls service endpoint start stop.toNat < 2 ^ 64 ∧
        ∀ bin ∈ accesses calls service endpoint, start ≤ bin →
          -2 ^ 63 ≤ start + delta * toInt stop.toNat ∧
            (bin ≤ start + delta * stop.toNat → bin ≤ start + delta * toInt stop.toNat) := by
  have hconv := delta_toInt_le stop.toNat
  rcases getEndpointStats_run h start stop with ⟨hempty, heq⟩ | ⟨list, hrec, heq⟩
  · rw [heq, countFrom, hempty]
    simp
  · rw [heq]
    by_cases hbound : ∀ bin ∈ accesses calls service endpoint, start ≤ bin →
        -2 ^ 63 ≤ start + delta * toInt stop.toNat ∧ start + delta * toInt stop.toNat < 2 ^ 63
    · have himp : ∀ bin, counted start stop bin = true →
          decide (start ≤ bin ∧ bin ≤ start + delta * stop.toNat) = true := by
        intro bin hcounted
        have hin := of_decide_eq_true hcounted
        exact decide_eq_true ⟨hin.1, by omega⟩
      have hle : (accesses calls service endpoint).countP (counted start stop) ≤
          countFrom calls service endpoint start stop.toNat :=
        List.countP_mono_left fun bin _ => himp bin
      rw [sumBins_of_records hrec hbound, Except.ok.injEq]
      constructor
      · intro hcount
        have hmod := Nat.mod_le
          ((accesses calls service endpoint).countP (counted start stop)) (2 ^ 64)
        have hlt := Nat.mod_lt
          ((accesses calls service endpoint).countP (counted start stop)) (Nat.two_pow_pos 64)
        refine ⟨by omega, fun bin hbin hstart => ⟨(hbound bin hbin hstart).1, fun hstop => ?_⟩⟩
        have hsame : (accesses calls service endpoint).countP (counted start stop) =
            countFrom calls service endpoint start stop.toNat := by
          omega
        have hall := imp_of_countP_eq himp hsame bin hbin
        exact (of_decide_eq_true (hall (decide_eq_true ⟨hstart, hstop⟩))).2
      · rintro ⟨hlt, hlast⟩
        have hsame : (accesses calls service endpoint).countP (counted start stop) =
            countFrom calls service endpoint start stop.toNat := by
          refine List.countP_congr fun bin hbin => ⟨himp bin, fun hin => ?_⟩
          have hrange := of_decide_eq_true hin
          exact decide_eq_true ⟨hrange.1, (hlast bin hbin hrange.1).2 hrange.2⟩
        rw [hsame, Nat.mod_eq_of_lt hlt]
    · -- a bin is compared with a bound that is no `time_t`, which is then too small
      rw [not_forall] at hbound
      obtain ⟨bin, hbound⟩ := hbound
      rw [Classical.not_imp, Classical.not_imp] at hbound
      obtain ⟨hbin, hstart, hout⟩ := hbound
      have hlt := lt_of_mem_accesses hbin
      have hbelow : ¬ -2 ^ 63 ≤ start + delta * toInt stop.toNat := by
        intro hle
        exact hout ⟨hle, by omega⟩
      have herror : lastBin start stop = .error .undefinedBehaviour :=
        if_neg fun hin => hbelow hin.1
      rw [sumBins_error herror ((hrec.times bin).2 hbin) hstart]
      constructor
      · intro hcount
        cases hcount
      · intro hright
        exact absurd (hright.2 bin hbin hstart).1 hbelow

end Counts

/-- One second after the epoch. -/
def firstSecond : SystemTime := ⟨1000000000, by decide, by decide⟩

/-- A service with one access. -/
def oneAccess : List Call :=
  [.registerService "service".toList, .addAccess "service".toList "/".toList fun _ => firstSecond]

theorem registeredFirst_oneAccess : RegisteredFirst oneAccess := by
  intro before after service endpoint now hsplit
  cases before with
  | nil => cases hsplit
  | cons c before =>
    obtain ⟨rfl, hrest⟩ := List.cons.inj hsplit
    cases before with
    | nil =>
      have hservice := (Call.addAccess.inj (List.cons.inj hrest).1).1
      rw [← hservice]
      exact List.mem_singleton_self _
    | cons c before =>
      have hnil := (List.cons.inj hrest).2
      exact absurd hnil (by simp)

/-- The access is counted in a range of one bin. -/
theorem oneAccess_counted :
    getEndpointStats "service".toList "/".toList 0 1 (run oneAccess) =
      .ok (countFrom oneAccess "service".toList "/".toList 0 1) :=
  (getEndpointStats_eq_count_iff registeredFirst_oneAccess "service".toList "/".toList 0 1).2
    (by decide)

/-- In a range of `2 ^ 31` bins it is lost: as an `int`, their number is negative. -/
theorem oneAccess_lost :
    RegisteredFirst oneAccess ∧
      getEndpointStats "service".toList "/".toList 0 2147483648 (run oneAccess) = .ok 0 ∧
      countFrom oneAccess "service".toList "/".toList 0 2147483648 = 1 ∧
      ¬ ∀ calls : List Call, RegisteredFirst calls → ∀ (service endpoint : Str) (start : Int)
        (stop : UInt64), delta ∣ start →
          getEndpointStats service endpoint start stop (run calls) =
            .ok (countFrom calls service endpoint start stop.toNat) := by
  have hanswer : getEndpointStats "service".toList "/".toList 0 2147483648 (run oneAccess) =
      .ok 0 := by decide +kernel
  have hcount : countFrom oneAccess "service".toList "/".toList 0 2147483648 = 1 := by decide
  refine ⟨registeredFirst_oneAccess, hanswer, hcount, fun hall => ?_⟩
  have hright := hall oneAccess registeredFirst_oneAccess "service".toList "/".toList 0 2147483648
    (Int.dvd_zero delta)
  rw [hanswer] at hright
  exact absurd (Except.ok.inj (hright.symm)) (by decide)

end LocalSoftware.Logging
