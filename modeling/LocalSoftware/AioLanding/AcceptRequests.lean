import LocalSoftware.AioLanding.LandingAccept
import LocalSoftware.Common.Rearming

/-!
# The accept requests of the landing page

`LandingAccept` makes a request for each of its two sockets, and makes it again whether or not a
connection was accepted. `accepts_armed`: in every run of the runtime, each socket has one request that
is pending or has its result in the queue, until the object is deleted.
-/

set_option autoImplicit false

namespace LocalSoftware.AioLanding

namespace LandingAccept

/-- The handlers of the class. -/
def handlers : Acceptor vocabulary LandingAccept where
  init s := do
    let s ← s.init
    return ({ description := "HTTP accepter", success := true, ret := none,
              opHint := opHintNetwork }, s)
  onYield := onYield

theorem handlers_rearms : handlers.Rearms [0, 1] where
  few := by decide
  init _ := ⟨[1], rfl, [], rfl, rfl⟩
  onYield s event := by
    cases event with
    | ioUringResult res =>
      show (s.onYield (.ioUringResult res)).Plans [res.op]
      simp only [onYield]
      split
      · exact fun _ _ => ⟨[], rfl, rfl⟩
      · exact ⟨[], rfl, rfl⟩
    | childTaskCompletion res => exact rfl
    | callStarted procedureId => exact trivial
    | timeout timerId => exact trivial
    | wakeup taskId => exact trivial

end LandingAccept

variable {V : Vocabulary} {σ : Type}

/-- In every run on any number of threads, each of the two sockets of a `LandingAccept` has one accept
request for each procedure of it that was started: it is pending, or its result is in the queue. -/
theorem accepts_armed (P : Program V σ) (o : Id) (hosts : Hosts P o LandingAccept.handlers)
    (size : Nat) (malloc : Nat → Nat) (heap : σ) (s : RequestHistory V σ)
    (h : Reached (RequestHistory.step P) (fun _ _ => True)
      { history := { world := { size, malloc, heap } } } s)
    (t p : Nat) (hstarted : .started t o (some p) ∈ s.history.world.log)
    (hdeleted : .deleted t o ∉ s.history.world.log) (op : Int) (hop : op = 0 ∨ op = 1) :
    (s.history.world.pending t).count (op, o, some p) +
      ((s.history.world.queues t).filterMap EventVariant.answer).count (op, o, some p) = 1 := by
  refine hosts.armed LandingAccept.handlers_rearms h hstarted hdeleted ?_
  rcases hop with rfl | rfl <;> rfl

/-! ## A connection is accepted -/

/-- `LandingAccept`, and the connections that it constructs. -/
abbrev siteVocabulary : Vocabulary where
  TypeIndex := Unit
  ConstructFunc := Option ChildConstruct
  FunctionFunc := Option ChildCall
  Sqe := AcceptRequest

def siteEmbedding : Embedding vocabulary siteVocabulary where
  typeIndex := id
  constructFunc := some
  functionFunc := some
  sqe := id

/-- The root object is the `LandingAccept`. -/
def site : Program siteVocabulary LandingAccept where
  construct _ _ heap := pure heap
  function _ o _ heap :=
    if o = some 0 then
      (LandingAccept.handlers.init heap).embed siteEmbedding >>= fun r => pure (r.1, r.2)
    else pure ({ description := "start", success := true, ret := none, opHint := opHintNetwork }, heap)
  onYield o event heap :=
    if o = some 0 then
      (LandingAccept.handlers.onYield heap event).embed siteEmbedding >>= fun r => pure (r.1, r.2)
    else pure (none, heap)
  destroy _ heap := heap

/-- The object 0 of `site` is a `LandingAccept`. -/
def siteHosts : Hosts site (some 0) LandingAccept.handlers where
  embedding := siteEmbedding
  get := id
  set s _ := s
  function _ _ _ := rfl
  onYield _ _ := rfl

/-- The first socket accepts a connection, and the handler makes the request again. -/
def siteActions : List (World.Action siteVocabulary) :=
  .root none none :: List.replicate 3 (.dequeue 0) ++ [.complete 0 0 7, .uring 0, .dequeue 0]

/-- After the connection, the accept requests of both sockets are pending. -/
theorem site_armed : ∃ s, Reached (RequestHistory.step site) (fun _ _ => True)
      { history := { world := { size := 1, malloc := id, heap := { useTls := false } } } } s ∧
    s.history.world.pending 0 = [(1, some 0, some 0), (0, some 0, some 0)] ∧
    (s.history.world.pending 0).count (0, some 0, some 0) +
      ((s.history.world.queues 0).filterMap EventVariant.answer).count (0, some 0, some 0) = 1 := by
  have hrun : (runActions (RequestHistory.step site) siteActions
      { history := { world := { size := 1, malloc := id, heap := { useTls := false } } } }).map
        (fun s => decide (s.history.world.pending 0 = [(1, some 0, some 0), (0, some 0, some 0)] ∧
          .started 0 (some 0) (some 0) ∈ s.history.world.log ∧
          .deleted 0 (some 0) ∉ s.history.world.log)) = .ok true := by
    decide +kernel
  obtain ⟨s, hrun, hstate⟩ := exists_of_map_eq_ok hrun
  obtain ⟨hpending, hstarted, hdeleted⟩ := of_decide_eq_true hstate
  have hreached := reached_of_runActions .start (meets_true _ _) hrun
  exact ⟨s, hreached, hpending, accepts_armed site (some 0) siteHosts 1 id { useTls := false } s
    hreached 0 0 hstarted hdeleted 0 (Or.inl rfl)⟩

end LocalSoftware.AioLanding
