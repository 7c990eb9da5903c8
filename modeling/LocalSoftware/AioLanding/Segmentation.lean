import LocalSoftware.AioLanding.LandingServer

/-!
# Requests in pieces

Whole runs of a `Connection` under every split of a stream of valid requests.
`prompt_iff_atMostOneEnd` says for which splits each request is handed on as soon as its last byte
is there and the response before it is written: `read_http` does not look at the bytes that are left
in `buffer_`, so a request that came in one piece with the end of the one before it has to wait for
more input.
-/

set_option autoImplicit false

namespace LocalSoftware.AioLanding

open Http Connection

variable {B : Beast}

/-- The number of requests of the stream that are complete within its first `n` bytes. -/
def completed : List (Str × Request) → Nat → Nat
  | [], _ => 0
  | x :: stream, n => if x.1.length ≤ n then completed stream (n - x.1.length) + 1 else 0

/-- The event sequences that the byte socket can report after `n` bytes of the stream: a read is
completed with the next bytes, at most 4096, and a write with at most the bytes it was given. The
sequence ends when the last response is written. With a `TLSSocket` these are the results that it
reports, and the bytes are those behind the encryption; which results it does report is not modelled
here. -/
def Admissible (site : Site) (stream : List (Str × Request)) :
    Connection B → Nat → List SocketEvent → Prop
  | c, _, [] => c.pending = [.read 4096 false]
  | c, n, .received chunk :: events =>
    c.pending = [.read 4096 false] ∧ chunk ≠ [] ∧ chunk.length ≤ 4096 ∧
      chunk <+: (encoding stream).drop n ∧
      ∀ c', c.step site (.received chunk) = .ok c' →
        Admissible site stream c' (n + chunk.length) events
  | c, n, .sent k :: events =>
    (∃ data, c.pending = [.write data] ∧ 0 < k ∧ k ≤ data.length) ∧
      ∀ c', c.step site (.sent k) = .ok c' → Admissible site stream c' n events

/-- The server object got requests of the stream, in order; and whenever the connection waits for
input, it got every request that is complete within the `n` bytes received. -/
def UpToDate (stream : List (Str × Request)) (c : Connection B) (n : Nat) : Prop :=
  c.server.handled <+: stream.map Prod.snd ∧
    (c.pending = [.read 4096 false] →
      c.server.handled = (stream.take (completed stream n)).map Prod.snd)

/-- No handler throws along the run, and every state is up to date. -/
def Prompt (site : Site) (stream : List (Str × Request)) :
    Connection B → Nat → List SocketEvent → Prop
  | c, n, [] => UpToDate stream c n
  | c, n, .received chunk :: events => UpToDate stream c n ∧
      ∃ c', c.step site (.received chunk) = .ok c' ∧
        Prompt site stream c' (n + chunk.length) events
  | c, n, .sent k :: events => UpToDate stream c n ∧
      ∃ c', c.step site (.sent k) = .ok c' ∧ Prompt site stream c' n events

/-- No piece holds the last bytes of two requests. -/
def AtMostOneEnd (stream : List (Str × Request)) : Nat → List SocketEvent → Prop
  | _, [] => True
  | n, .received chunk :: events =>
    completed stream (n + chunk.length) ≤ completed stream n + 1 ∧
      AtMostOneEnd stream (n + chunk.length) events
  | n, .sent _ :: events => AtMostOneEnd stream n events

theorem completed_le : ∀ (stream : List (Str × Request)) (n : Nat),
    completed stream n ≤ stream.length
  | [], _ => Nat.le_refl _
  | x :: stream, n => by
    unfold completed
    split
    · exact Nat.succ_le_succ (completed_le stream _)
    · exact Nat.zero_le _

theorem completed_append : ∀ (done todo : List (Str × Request)) (k : Nat),
    completed (done ++ todo) ((encoding done).length + k) = done.length + completed todo k
  | [], todo, k => by simp [encoding]
  | x :: done, todo, k => by
    have hlen : (encoding (x :: done)).length = x.1.length + (encoding done).length :=
      List.length_append
    have hle : x.1.length ≤ (encoding (x :: done)).length + k := by omega
    have hsub : (encoding (x :: done)).length + k - x.1.length = (encoding done).length + k := by
      omega
    rw [List.cons_append, completed, if_pos hle, hsub, completed_append done todo k]
    simp only [List.length_cons]
    omega

section

variable {G : Grammar B} {site : Site} {c : Connection B} {done todo : List (Str × Request)}
  {avail : Str}

theorem Prompt.upToDate {stream : List (Str × Request)} {n : Nat} {events : List SocketEvent}
    (h : Prompt site stream c n events) : UpToDate stream c n := by
  cases events with
  | nil => exact h
  | cons e events =>
    cases e with
    | received chunk => exact h.1
    | sent k => exact h.1

theorem handled_isPrefix (h : c.server.handled = done.map Prod.snd) :
    c.server.handled <+: (done ++ todo).map Prod.snd := by
  rw [h, List.map_append]
  exact List.prefix_append _ _

/-- A waiting connection is up to date exactly if no complete request is left over. -/
theorem Connection.Waiting.upToDate_iff (h : Waiting G c done todo avail) :
    UpToDate (done ++ todo) c ((encoding done).length + avail.length) ↔
      completed todo avail.length = 0 := by
  have hcount := completed_append done todo avail.length
  constructor
  · rintro ⟨-, hup⟩
    have hlen := congrArg List.length (hup h.pending)
    have hle := completed_le todo avail.length
    rw [h.handled, hcount] at hlen
    simp only [List.length_map, List.length_take, List.length_append] at hlen
    omega
  · intro hzero
    refine ⟨handled_isPrefix h.handled, fun _ => ?_⟩
    rw [hcount, hzero, h.handled]
    simp

theorem Connection.Writing.upToDate (h : Writing c done todo avail) (n : Nat) :
    UpToDate (done ++ todo) c n := by
  refine ⟨handled_isPrefix h.handled, fun hread => ?_⟩
  rw [h.pending] at hread
  cases hread

/-- The next piece continues the bytes received. -/
theorem received_append {chunk : Str} (h : avail <+: encoding todo)
    (hchunk : chunk <+:
      (encoding (done ++ todo)).drop ((encoding done).length + avail.length)) :
    avail ++ chunk <+: encoding todo := by
  obtain ⟨rest, hrest⟩ := h
  have hsplit : encoding (done ++ todo) = encoding done ++ (avail ++ rest) := by
    rw [hrest]
    exact List.flatMap_append
  rw [hsplit, ← List.append_assoc, ← List.length_append, List.drop_left] at hchunk
  rw [← hrest]
  exact (List.prefix_append_right_inj avail).mpr hchunk

/-- A connection that keeps up stays up to date exactly if no piece ends two requests; one that
writes a response while a further complete request is in its buffer falls behind. -/
theorem prompt_iff (hstream : ∀ x ∈ done ++ todo, G.Encodes x.1 x.2)
    (events : List SocketEvent) :
    (Waiting G c done todo avail → completed todo avail.length = 0 →
      Admissible site (done ++ todo) c ((encoding done).length + avail.length) events →
        (Prompt site (done ++ todo) c ((encoding done).length + avail.length) events ↔
          AtMostOneEnd (done ++ todo) ((encoding done).length + avail.length) events)) ∧
    (Writing c done todo avail →
      Admissible site (done ++ todo) c ((encoding done).length + avail.length) events →
        (Prompt site (done ++ todo) c ((encoding done).length + avail.length) events ↔
          completed todo avail.length = 0 ∧
            AtMostOneEnd (done ++ todo) ((encoding done).length + avail.length) events)) := by
  -- on the events, for both states of a connection at once
  induction events generalizing c done todo avail with
  | nil =>
    refine ⟨fun h hzero _ => iff_of_true (h.upToDate_iff.mpr hzero) trivial, fun h hadm => ?_⟩
    rw [Admissible, h.pending] at hadm
    cases hadm
  | cons e events ih =>
    cases e with
    | received chunk =>
      refine ⟨fun h hzero hadm => ?_, fun h hadm => ?_⟩
      · obtain ⟨-, hne, -, hchunk, hrest⟩ := hadm
        have hpre := received_append h.received hchunk
        cases todo with
        | nil =>
          have hnil : avail ++ chunk = [] := List.prefix_nil.mp hpre
          exact absurd (List.append_eq_nil_iff.mp hnil).2 hne
        | cons x todo =>
          obtain ⟨m, r⟩ := x
          have hm : G.Encodes m r := hstream (m, r) (by simp)
          have hlen : (encoding done).length + avail.length + chunk.length =
              (encoding done).length + (avail ++ chunk).length := by
            rw [List.length_append, Nat.add_assoc]
          have hup := h.upToDate_iff.mpr hzero
          simp only [Prompt, AtMostOneEnd, hlen, completed_append, hzero]
          rw [hlen] at hrest
          -- the piece ends the current request, or it does not
          by_cases hend : m.length ≤ (avail ++ chunk).length
          · obtain ⟨c', hstep, hwrite⟩ := h.received_last site hm hne hpre hend
            have hassoc : done ++ (m, r) :: todo = done ++ [(m, r)] ++ todo := by simp
            have hbytes : (encoding done).length + (avail ++ chunk).length =
                (encoding (done ++ [(m, r)])).length +
                  ((avail ++ chunk).drop m.length).length := by
              have henc : (encoding (done ++ [(m, r)])).length =
                  (encoding done).length + m.length := by simp [encoding]
              rw [henc, List.length_drop]
              omega
            have hcount : completed ((m, r) :: todo) (avail ++ chunk).length =
                completed todo ((avail ++ chunk).drop m.length).length + 1 := by
              rw [List.length_drop]
              exact if_pos hend
            have hadm' := hrest c' hstep
            rw [hassoc] at hstream
            rw [hassoc, hbytes] at hadm'
            have hiff := (ih hstream).2 hwrite hadm'
            rw [← hassoc, ← hbytes] at hiff
            simp only [hstep, Except.ok.injEq, exists_eq_left', hiff, hup, true_and, hcount]
            -- the piece ends one request, and as many more as its rest has
            refine and_congr_left' ?_
            omega
          · obtain ⟨c', hstep, hwait⟩ := h.received_more site hm hne hpre hend
            have hzero' : completed ((m, r) :: todo) (avail ++ chunk).length = 0 := if_neg hend
            have hiff := (ih hstream).1 hwait hzero' (hrest c' hstep)
            simp only [hstep, Except.ok.injEq, exists_eq_left', hzero', hiff, hup, true_and]
            refine (and_iff_right ?_).symm
            omega
      · rw [Admissible, h.pending] at hadm
        cases hadm.1
    | sent k =>
      refine ⟨fun h hzero hadm => ?_, fun h hadm => ?_⟩
      · obtain ⟨⟨data, hdata, -⟩, -⟩ := hadm
        rw [h.pending] at hdata
        cases hdata
      · obtain ⟨⟨data, hdata, hpos, hle⟩, hrest⟩ := hadm
        have htodo : ∀ x ∈ todo, G.Encodes x.1 x.2 := fun x hx =>
          hstream x (List.mem_append_right _ hx)
        by_cases hall : c.http.writeBuffer.data.drop k = []
        · obtain ⟨c', hstep, hwait⟩ := h.sent_all site htodo hpos hall
          have hadm' := hrest c' hstep
          simp only [Prompt, AtMostOneEnd, hstep, Except.ok.injEq, exists_eq_left', h.upToDate,
            true_and]
          constructor
          · intro hprompt
            have hzero := hwait.upToDate_iff.mp hprompt.upToDate
            exact ⟨hzero, ((ih hstream).1 hwait hzero hadm').mp hprompt⟩
          · rintro ⟨hzero, hone⟩
            exact ((ih hstream).1 hwait hzero hadm').mpr hone
        · obtain ⟨c', hstep, hwrite⟩ := h.sent_part site hpos hall
          simp only [Prompt, AtMostOneEnd, hstep, Except.ok.injEq, exists_eq_left', h.upToDate,
            true_and]
          exact (ih hstream).2 hwrite (hrest c' hstep)

/-- Over every stream of valid requests and every way in which the byte socket delivers it: a connection
hands on each request as soon as it is complete and the response before it is written, exactly if
no piece holds the last bytes of two requests. -/
theorem prompt_iff_atMostOneEnd (G : Grammar B) (site : Site) (tls : Bool)
    (stream : List (Str × Request)) (hstream : ∀ x ∈ stream, G.Encodes x.1 x.2)
    (events : List SocketEvent) :
    ∃ c, Connection.start B tls = .ok c ∧ (Admissible site stream c 0 events →
      (Prompt site stream c 0 events ↔ AtMostOneEnd stream 0 events)) := by
  obtain ⟨c, hstart, hwait⟩ := start_waiting hstream tls
  refine ⟨c, hstart, fun hadm => ?_⟩
  have hzero : completed stream ([] : Str).length = 0 := by
    cases stream with
    | nil => rfl
    | cons x stream =>
      have hne : x.1 ≠ [] := G.nonempty (hstream x List.mem_cons_self)
      have hlen : ¬ x.1.length ≤ 0 := by
        have := List.length_pos_iff.mpr hne
        omega
      exact if_neg hlen
  exact (prompt_iff hstream events).1 hwait hzero hadm

end

/-- The text of a response, as `response_serializer` writes it. -/
def responseText (res : Response) : Str :=
  let reason := match res.status with
    | .switchingProtocols => "101 Switching Protocols"
    | .ok => "200 OK"
    | .noContent => "204 No Content"
    | .unauthorized => "401 Unauthorized"
    | .notFound => "404 Not Found"
    | .methodNotAllowed => "405 Method Not Allowed"
    | .other code => String.ofList (toStr code)
  "HTTP/1.1 ".toList ++ (reason.toList ++ "\r\n".toList ++
    res.fields.flatMap (fun f => f.1 ++ ": ".toList ++ f.2 ++ "\r\n".toList) ++
    "\r\n".toList ++ res.body)

/-- The bytes of a request without header fields. -/
def pageText : Str := "GET / HTTP/1.1\r\n\r\n".toList

/-- Its value. -/
def pageRequest : Request := { method := .get, target := "/".toList }

/-- A parser of this one request, which takes it whole. -/
def pageBeast : Beast where
  Parser := Bool
  fresh := false
  put p d := if p then (0, none, p)
    else if pageText <+: d then (pageText.length, none, true)
    else (0, some .needMore, false)
  isDone p := p
  get _ := pageRequest
  serialize := responseText

/-- It is a parser as the code expects it. -/
def pageGrammar : Grammar pageBeast where
  Encodes m r := m = pageText ∧ r = pageRequest
  Reads m w p := w = [] ∧ p = false ∨ w = m ∧ p = true
  nonempty h := by
    rw [h.1]
    decide
  fresh _ := Or.inl ⟨rfl, rfl⟩
  put_reads := by
    rintro m r w p d ⟨rfl, rfl⟩ (⟨rfl, rfl⟩ | ⟨rfl, -⟩) hw -
    · by_cases hd : pageText <+: d
      · have hput : pageBeast.put false d = (pageText.length, none, true) := if_pos hd
        have htake : d.take pageText.length = pageText := (List.prefix_iff_eq_take.mp hd).symm
        rw [hput]
        refine ⟨hd.length_le, ?_, Or.inr ⟨?_, rfl⟩⟩
        · rw [List.nil_append, htake]
        · rw [List.nil_append, htake]
      · have hput : pageBeast.put false d = (0, some .needMore, false) := if_neg hd
        rw [hput]
        exact ⟨Nat.zero_le _, List.nil_prefix, Or.inl ⟨rfl, rfl⟩⟩
    · exact absurd rfl hw
  put_progress := by
    rintro m r w p d ⟨rfl, rfl⟩ (⟨rfl, rfl⟩ | ⟨rfl, -⟩) hw - - hnone
    · by_cases hd : pageText <+: d
      · have hput : pageBeast.put false d = (pageText.length, none, true) := if_pos hd
        rw [hput]
        exact Or.inr rfl
      · have hput : pageBeast.put false d = (0, some .needMore, false) := if_neg hd
        rw [hput] at hnone
        cases hnone
    · exact absurd rfl hw
  put_error := by
    rintro m r w p d e ⟨rfl, rfl⟩ (⟨rfl, rfl⟩ | ⟨rfl, -⟩) hw - - he
    · by_cases hd : pageText <+: d
      · have hput : pageBeast.put false d = (pageText.length, none, true) := if_pos hd
        rw [hput] at he
        cases he
      · have hput : pageBeast.put false d = (0, some .needMore, false) := if_neg hd
        rw [hput] at he
        exact ⟨(Option.some.inj he).symm, hd⟩
    · exact absurd rfl hw
  isDone_iff := by
    rintro m r w p ⟨rfl, rfl⟩ (⟨rfl, rfl⟩ | ⟨rfl, rfl⟩)
    · exact iff_of_false (by decide) (by decide)
    · exact iff_of_true rfl rfl
  get_eq := by
    rintro m r p ⟨rfl, rfl⟩ -
    rfl
  serialize_ne_nil _ := List.append_ne_nil_of_left_ne_nil (by decide) _

/-- A site without files and endpoints. -/
def emptySite : Site where
  fs :=
    { isDirectory := fun _ => .ok false
      canonical := fun _ => .error .filesystemError
      exists' := fun _ => .ok false
      contents := fun _ => .ok none }
  httpManager := { service := [], basePath := rootPath, handlers := fun _ => none }
  responds := HttpManager.handleRequest_isOk fun _ => rfl

/-- Two requests, one after the other. -/
def twoPages : List (Str × Request) := [(pageText, pageRequest), (pageText, pageRequest)]

theorem twoPages_encode : ∀ x ∈ twoPages, pageGrammar.Encodes x.1 x.2 := by
  intro x hx
  simp only [twoPages, List.mem_cons, List.not_mem_nil, or_false, or_self] at hx
  rw [hx]
  exact ⟨rfl, rfl⟩

/-- Requests that arrive one by one are handed on one by one. -/
theorem prompt_one_by_one : ∃ c, Connection.start pageBeast false = .ok c ∧
    Prompt emptySite twoPages c 0
      [.received pageText, .sent 101, .received pageText, .sent 101] := by
  obtain ⟨c, hstart, hiff⟩ := prompt_iff_atMostOneEnd pageGrammar emptySite false twoPages
    twoPages_encode [.received pageText, .sent 101, .received pageText, .sent 101]
  refine ⟨c, hstart, (hiff ?_).mpr ⟨by decide, by decide, trivial⟩⟩
  cases hstart
  refine ⟨rfl, by decide, by decide, by decide, ?_⟩
  rintro _ ⟨⟩
  refine ⟨⟨_, rfl, by decide, by decide⟩, ?_⟩
  rintro _ ⟨⟩
  refine ⟨rfl, by decide, by decide, by decide, ?_⟩
  rintro _ ⟨⟩
  refine ⟨⟨_, rfl, by decide, by decide⟩, ?_⟩
  rintro _ ⟨⟩
  rfl

/-- Two requests in one piece: after the response to the first one the connection waits for more
input, although the second one is complete in its buffer. -/
theorem pipelined_request_waits : ∃ c c₁ c₂, Connection.start pageBeast false = .ok c ∧
    Admissible emptySite twoPages c 0 [.received (pageText ++ pageText), .sent 101] ∧
    c.step emptySite (.received (pageText ++ pageText)) = .ok c₁ ∧
    c₁.step emptySite (.sent 101) = .ok c₂ ∧
    c₂.pending = [.read 4096 false] ∧ c₂.server.handled = [pageRequest] ∧
    completed twoPages (pageText ++ pageText).length = 2 ∧
    ¬ Prompt emptySite twoPages c 0 [.received (pageText ++ pageText), .sent 101] := by
  refine ⟨_, _, _, rfl, ?_, rfl, rfl, rfl, rfl, by decide, ?_⟩
  · refine ⟨rfl, by decide, by decide, by decide, ?_⟩
    rintro _ ⟨⟩
    refine ⟨⟨_, rfl, by decide, by decide⟩, ?_⟩
    rintro _ ⟨⟩
    rfl
  · rintro ⟨-, _, ⟨⟩, -, _, ⟨⟩, -, hup⟩
    exact absurd (hup rfl) (by decide)

end LocalSoftware.AioLanding
