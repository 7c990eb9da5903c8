import LocalSoftware.BandwidthMonitor.MonitoringServer
import Mathlib.Data.List.DropRight

/-!
# The opening handshake

`Handshake req` says that a `GET` request asks for a WebSocket: `upgrade` is among the tokens of its
`Connection` fields and `websocket` among those of its `Upgrade` fields, in any case. `base64` is the
Base64 encoding, three octets at a time, and `base64Encode_eq` shows that `base64_encode` computes it.

`stageHttpRead_meets_iff` shows which requests with a key are served as the protocol says: those that
lack one of the two fields, and those whose first fields have exactly the values `Upgrade` and
`websocket`. The handler drops every other one.
-/

set_option autoImplicit false

namespace LocalSoftware.BandwidthMonitor

open Http

/-! ## Base64 -/

/-- The letter of six bits. -/
def base64Letter (n : Nat) : Char :=
  if n < 26 then Char.ofNat (0x41 + n)
  else if n < 52 then Char.ofNat (0x61 + (n - 26))
  else if n < 62 then Char.ofNat (0x30 + (n - 52))
  else if n = 62 then '+' else '/'

/-- The Base64 encoding: four letters for three octets, and padding for the octets that are missing
at the end. -/
def base64 : List UInt8 → Str
  | [] => []
  | [a] => [base64Letter (a.toNat / 4), base64Letter (a.toNat % 4 * 16), '=', '=']
  | [a, b] =>
    [base64Letter (a.toNat / 4), base64Letter (a.toNat % 4 * 16 + b.toNat / 16),
      base64Letter (b.toNat % 16 * 4), '=']
  | a :: b :: c :: data =>
    base64Letter (a.toNat / 4) :: base64Letter (a.toNat % 4 * 16 + b.toNat / 16) ::
      base64Letter (b.toNat % 16 * 4 + c.toNat / 64) :: base64Letter (c.toNat % 64) :: base64 data

theorem encodeBits_eq (n : Nat) : encodeBits n = base64Letter (n % 64) := by
  have htable : ∀ k < 64, encodingTable.getD k '\x00' = base64Letter k := by decide +kernel
  exact htable _ (Nat.mod_lt n (by decide))

/-- The four letters of a triple of octets. -/
def tripleLetters (a b c : Nat) : Str :=
  let triple := a * 65536 + b * 256 + c
  [encodeBits (triple / 262144), encodeBits (triple / 4096), encodeBits (triple / 64),
    encodeBits triple]

/-- The letters of the loop, without padding. -/
def loopLetters : List UInt8 → Str
  | [] => []
  | [a] => tripleLetters a.toNat 0 0
  | [a, b] => tripleLetters a.toNat b.toNat 0
  | a :: b :: c :: data => tripleLetters a.toNat b.toNat c.toNat ++ loopLetters data

theorem tripleLetters_eq {a b c : Nat} (hb : b < 256) (hc : c < 256) (ha : a < 256) :
    tripleLetters a b c = [base64Letter (a / 4), base64Letter (a % 4 * 16 + b / 16),
      base64Letter (b % 16 * 4 + c / 64), base64Letter (c % 64)] := by
  unfold tripleLetters
  simp only [encodeBits_eq, List.cons.injEq, and_true]
  refine ⟨?_, ?_, ?_, ?_⟩ <;> (congr 1; omega)

theorem length_loopLetters : ∀ data : List UInt8,
    (loopLetters data).length = 4 * ((data.length + 2) / 3)
  | [] => rfl
  | [_] => by simp [loopLetters, tripleLetters]
  | [_, _] => by simp [loopLetters, tripleLetters]
  | _ :: _ :: _ :: data => by
    have hrec := length_loopLetters data
    simp only [loopLetters, tripleLetters, List.length_append, List.length_cons, List.length_nil,
      hrec]
    omega

/-- A triple is written to the next four cells. -/
theorem encodeTriple_append (front rest : Str) (x₀ x₁ x₂ x₃ : Char) (a b c : Nat) :
    encodeTriple (front ++ x₀ :: x₁ :: x₂ :: x₃ :: rest) front.length a b c =
      front ++ tripleLetters a b c ++ rest := by
  unfold encodeTriple tripleLetters
  simp [List.set_append_right]

/-- The loop fills the cells that are left, four for each triple. -/
theorem encodeLoop_append : ∀ (data : List UInt8) (front : Str) (n : Nat),
    n = 4 * ((data.length + 2) / 3) →
      encodeLoop data front.length (front ++ List.replicate n '\x00') = front ++ loopLetters data
  | [], front, n, hn => by
    obtain rfl : n = 0 := by simpa using hn
    rfl
  | [a], front, n, hn => by
    obtain rfl : n = 4 := by simpa using hn
    exact (encodeTriple_append front [] _ _ _ _ a.toNat 0 0).trans (List.append_nil _)
  | [a, b], front, n, hn => by
    obtain rfl : n = 4 := by simpa using hn
    exact (encodeTriple_append front [] _ _ _ _ a.toNat b.toNat 0).trans (List.append_nil _)
  | a :: b :: c :: data, front, n, hn => by
    obtain ⟨m, rfl, hm⟩ : ∃ m, n = 4 + m ∧ m = 4 * ((data.length + 2) / 3) := by
      simp only [List.length_cons] at hn
      exact ⟨4 * ((data.length + 2) / 3), by omega, rfl⟩
    have hrec := encodeLoop_append data (front ++ tripleLetters a.toNat b.toNat c.toNat) m hm
    have hcells : List.replicate (4 + m) '\x00' =
        '\x00' :: '\x00' :: '\x00' :: '\x00' :: List.replicate m '\x00' := List.replicate_add 4 m _
    rw [List.length_append] at hrec
    rw [encodeLoop, hcells, encodeTriple_append]
    exact hrec.trans (List.append_assoc _ _ _)

/-- The padding over the last `k` of `size` letters. -/
def pad (size k : Nat) (out : Str) : Str :=
  (List.range k).foldl (fun cells i => cells.set (size - 1 - i) '=') out

theorem pad_succ (size k : Nat) (out : Str) :
    pad size (k + 1) out = (pad size k out).set (size - 1 - k) '=' := by
  unfold pad
  rw [List.range_succ, List.foldl_append]
  rfl

/-- Letters in front are not touched. -/
theorem pad_append (front : Str) {out : Str} {k : Nat} (hk : k ≤ out.length) :
    pad (front.length + out.length) k (front ++ out) = front ++ pad out.length k out := by
  induction k with
  | zero => rfl
  | succ k ih =>
    rw [pad_succ, pad_succ, ih (by omega), List.set_append_right _ _ (by omega)]
    congr 2
    omega

/-- Padded, the letters of the loop are the encoding. -/
theorem pad_loopLetters : ∀ data : List UInt8,
    pad (loopLetters data).length (modTable (data.length % 3)) (loopLetters data) = base64 data
  | [] => rfl
  | [a] => by
    have ha := a.toNat_lt
    show pad 4 2 (tripleLetters a.toNat 0 0) = _
    rw [tripleLetters_eq (by decide) (by decide) ha]
    rfl
  | [a, b] => by
    have ha := a.toNat_lt
    have hb := b.toNat_lt
    show pad 4 1 (tripleLetters a.toNat b.toNat 0) = _
    rw [tripleLetters_eq hb (by decide) ha]
    rfl
  | a :: b :: c :: data => by
    have hrec := pad_loopLetters data
    have hmod : (a :: b :: c :: data).length % 3 = data.length % 3 := by
      simp only [List.length_cons]
      omega
    have hsize : modTable (data.length % 3) ≤ (loopLetters data).length := by
      rw [length_loopLetters]
      have htable : ∀ r < 3, modTable r ≤ r * 2 := by decide
      have hr := htable _ (Nat.mod_lt data.length (by decide))
      omega
    rw [hmod, loopLetters, List.length_append, pad_append _ hsize, hrec,
      tripleLetters_eq b.toNat_lt c.toNat_lt a.toNat_lt]
    rfl

/-- `base64_encode` computes the Base64 encoding. -/
theorem base64Encode_eq (data : List UInt8) : base64Encode data = base64 data := by
  have hloop := encodeLoop_append data [] _ rfl
  rw [List.nil_append, List.length_nil, List.nil_append] at hloop
  have hlen := length_loopLetters data
  have hpad := pad_loopLetters data
  rw [hlen] at hpad
  unfold base64Encode
  simp only [hloop]
  exact hpad

/-! ## What a handshake is -/

/-- The white space around a token. -/
def isBlank (c : Char) : Bool := c == ' ' || c == '\t'

/-- The tokens of a comma-separated list. -/
def tokens (value : Str) : List Str :=
  (value.splitOn ',').map fun token => (token.dropWhile isBlank).rdropWhile isBlank

/-- One of the fields of a name has a token, in any case. -/
def Names (fields : Fields) (name token : Str) : Prop :=
  ∃ f ∈ fields, iequals f.1 name = true ∧ ∃ t ∈ tokens f.2, iequals t token = true

instance (fields : Fields) (name token : Str) : Decidable (Names fields name token) :=
  inferInstanceAs (Decidable (∃ f ∈ fields, _ ∧ ∃ t ∈ tokens f.2, _))

/-- The request asks for a WebSocket. -/
def Handshake (req : Request) : Prop :=
  Names req.fields Field.connection "upgrade".toList ∧
    Names req.fields Field.upgrade "websocket".toList

instance (req : Request) : Decidable (Handshake req) := inferInstanceAs (Decidable (_ ∧ _))

namespace MonitoringServer

variable {env : Environment} {s : MonitoringServer} {es : EventState vocabulary} {req : Request}
  {key : Str}

/-- The run queued one `write_http`, of a response with a property, and no other call. -/
def Writes (es : EventState vocabulary) (P : Response → Prop)
    (r : Except Fault ((Yielded × MonitoringServer) × EventState vocabulary)) : Prop :=
  ∃ s' es' vidx localId res, r = .ok ((none, s'), es') ∧ P res ∧
    es'.function = es.function ++ [{ idx := .readWriteHttp, vidx, localId, fn := .writeHttp res }]

/-- The response that opens the WebSocket of a key. -/
structure Accepting (env : Environment) (key : Str) (res : Response) : Prop where
  status : res.status = .switchingProtocols
  connection : res.fields.find Field.connection = some connectionUpgrade
  upgrade : res.fields.find Field.upgrade = some upgradeWebsocket
  accept : res.fields.find Field.secWebsocketAccept = some (base64 (env.sha1 (key ++ guid)))

/-- The request is served as the protocol says: it is accepted exactly when it is a handshake, and
answered by the manager when it is none. -/
def Served (env : Environment) (es : EventState vocabulary) (req : Request) (key : Str)
    (r : Except Fault ((Yielded × MonitoringServer) × EventState vocabulary)) : Prop :=
  (Writes es (Accepting env key) r ↔ Handshake req) ∧
    (¬ Handshake req → Writes es (fun res => (env.httpManager.handleRequest env.fs req).2 = .ok res) r)

theorem find_set_ne {fields : Fields} {name name' value : Str} (h : iequals name' name = false) :
    (Fields.set fields name' value).find name = fields.find name := by
  have hother : ∀ {f : Str}, iequals f name = true → iequals f name' = false := by
    intro f hf
    unfold iequals at hf h ⊢
    rw [beq_iff_eq] at hf
    rw [hf, ← h, Bool.beq_comm]
  unfold Fields.set Fields.find
  rw [List.find?_append, List.find?_filter]
  have hlast : List.find? (fun f => iequals f.1 name) [(name', value)] = none := by
    simp [h]
  rw [hlast, Option.or_none]
  congr 2
  funext f
  cases hf : iequals f.1 name with
  | false => simp
  | true => simp [hother hf]

theorem accepting_upgradeResponse {res : Response} (h : upgradeResponse env req key = .ok res) :
    Accepting env key res := by
  unfold upgradeResponse Response.preparePayload at h
  rw [if_neg (by simp)] at h
  obtain rfl := Except.ok.inj h
  constructor
  · rfl
  · simp only
    rw [find_set_ne (by decide), find_set_ne (by decide), find_set_ne (by decide)]
    exact Fields.find_set_self _ _ _
  · simp only
    rw [find_set_ne (by decide), find_set_ne (by decide)]
    exact Fields.find_set_self _ _ _
  · simp only
    rw [find_set_ne (by decide), ← base64Encode_eq]
    exact Fields.find_set_self _ _ _

/-- The manager serves a file or an error, and no upgrade. -/
theorem handleRequest_status {res : Response}
    (h : (env.httpManager.handleRequest env.fs req).2 = .ok res) :
    res.status = .ok ∨ res.status = .notFound := by
  have hprepared : ∀ {headers : Fields} {status : Status} {body : Str} {res : Response},
      HttpManager.prepareResponse headers status body = .ok res → res.status = status := by
    intro headers status body res hres
    unfold HttpManager.prepareResponse Response.preparePayload at hres
    split at hres
    · cases hres
    · obtain rfl := Except.ok.inj hres
      rfl
  rw [HttpManager.handleRequest_file (Environment.no_handlers env _)] at h
  split at h
  · rename_i effects response hserve
    obtain ⟨p, content, -, -, -, hres⟩ := HttpManager.serveFile_eq_ok_some_iff.1 hserve
    obtain rfl := Except.ok.inj h
    exact Or.inl (hprepared hres)
  · exact Or.inr (@hprepared _ _ "Not Found".toList _ h)
  · exact Or.inr (@hprepared _ _ "Not Found".toList _ h)

/-- A run writes one response only. -/
theorem Writes.property {P : Response → Prop} {es' : EventState vocabulary} {s' : MonitoringServer}
    {call : EventQueuedFunction vocabulary} {res : Response} (hcall : call.fn = .writeHttp res)
    (hes : es'.function = es.function ++ [call]) (h : Writes es P (.ok ((none, s'), es'))) :
    P res := by
  obtain ⟨s'', es'', vidx, localId, res', heq, hP, hfunction⟩ := h
  obtain ⟨-, rfl⟩ := Prod.mk.inj (Except.ok.inj heq)
  rw [hes] at hfunction
  have hsame := List.cons.inj (List.append_cancel_left hfunction)
  rw [hsame.1] at hcall
  obtain rfl := ChildCall.writeHttp.inj hcall
  exact hP

theorem writes_of_call {P : Response → Prop} {res : Response} (hP : P res) (s : MonitoringServer) :
    Writes es P (.ok ((none, s), (es.callAt (V := vocabulary) .readWriteHttp 0 (.writeHttp res)).2)) :=
  ⟨_, _, _, _, res, rfl, hP, rfl⟩

theorem names_of_find {fields : Fields} {name value token : Str} (h : fields.find name = some value)
    (ht : ∃ t ∈ tokens value, iequals t token = true) : Names fields name token := by
  obtain ⟨f, hf, rfl⟩ := Option.map_eq_some_iff.1 h
  have hname := List.find?_some (p := fun f : Str × Str => iequals f.1 name) hf
  exact ⟨f, List.mem_of_find?_eq_some hf, hname, ht⟩

theorem not_names_of_find {fields : Fields} {name token : Str} (h : fields.find name = none) :
    ¬ Names fields name token := by
  rintro ⟨f, hf, hname, -⟩
  have hnone := List.find?_eq_none.1 (Option.map_eq_none_iff.1 h) f hf
  exact hnone hname

/-- A `GET` request with a key is served as the protocol says exactly when it lacks a `Connection` or
an `Upgrade` field, or the first ones are `Upgrade` and `websocket` to the letter. -/
theorem stageHttpRead_served_iff (h : Delivered env es.uringData req) (hget : req.method = .get)
    (hkey : req.fields.find Field.secWebsocketKey = some key) :
    Served env es req key ((stageHttpRead env s).run es) ↔
      ∀ connection upgrade, req.fields.find Field.connection = some connection →
        req.fields.find Field.upgrade = some upgrade →
          connection = connectionUpgrade ∧ upgrade = upgradeWebsocket := by
  by_cases hfields : req.fields.find Field.connection = none ∨ req.fields.find Field.upgrade = none
  · -- one field is missing: no handshake, and the manager answers
    have hnot : ¬ Handshake req := by
      rintro ⟨hconnection, hupgrade⟩
      rcases hfields with hnone | hnone
      · exact not_names_of_find hnone hconnection
      · exact not_names_of_find hnone hupgrade
    obtain ⟨res, s', hres, hrun⟩ := run_stageHttpRead_manager (s := s) h hget hfields
    refine iff_of_true ⟨iff_of_false ?_ hnot, fun _ => ?_⟩ ?_
    · intro hwrites
      rw [hrun] at hwrites
      have haccepting : Accepting env key res := Writes.property rfl rfl hwrites
      have hstatus := handleRequest_status hres
      rw [haccepting.status] at hstatus
      exact hstatus.elim Status.noConfusion Status.noConfusion
    · rw [hrun]
      exact writes_of_call hres s'
    · intro connection upgrade hc hu
      rcases hfields with hnone | hnone
      · exact absurd (hnone.symm.trans hc) (by simp)
      · exact absurd (hnone.symm.trans hu) (by simp)
  · rw [not_or] at hfields
    obtain ⟨connection, hc⟩ := Option.ne_none_iff_exists'.1 hfields.1
    obtain ⟨upgrade, hu⟩ := Option.ne_none_iff_exists'.1 hfields.2
    by_cases hw : connection ≠ connectionUpgrade ∨ upgrade ≠ upgradeWebsocket
    · -- the task ends: the request is neither accepted nor answered
      refine iff_of_false ?_ fun hexact => ?_
      · rw [run_stageHttpRead_drop h hget hc hu hw]
        have hdropped : ∀ {P : Response → Prop}, ¬ Writes es P (.ok ((some (true, -1), s), es)) := by
          rintro P ⟨s', es', vidx, localId, res, heq, -⟩
          cases heq
        intro hserved
        by_cases hhandshake : Handshake req
        · exact hdropped (hserved.1.2 hhandshake)
        · exact hdropped (hserved.2 hhandshake)
      · obtain ⟨hc', hu'⟩ := hexact connection upgrade hc hu
        exact hw.elim (fun hne => hne hc') fun hne => hne hu'
    · obtain ⟨rfl, rfl⟩ : connection = connectionUpgrade ∧ upgrade = upgradeWebsocket := by tauto
      have hhandshake : Handshake req :=
        ⟨names_of_find hc ⟨connectionUpgrade, by decide, by decide⟩,
          names_of_find hu ⟨upgradeWebsocket, by decide, by decide⟩⟩
      obtain ⟨res, hres, hrun⟩ := run_stageHttpRead_upgrade (s := s) h hget hc hu hkey
      refine iff_of_true ⟨iff_of_true ?_ hhandshake, fun hnot => absurd hhandshake hnot⟩ ?_
      · rw [hrun]
        exact writes_of_call (accepting_upgradeResponse hres) _
      · intro connection upgrade hc' hu'
        exact ⟨Option.some.inj (hc'.symm.trans hc), Option.some.inj (hu'.symm.trans hu)⟩

/-- An upgrade with a key. -/
def upgradeRequest (connection : Str) : Request :=
  { method := .get, target := "/".toList
    fields := [(Field.connection, connection), (Field.upgrade, upgradeWebsocket),
      (Field.secWebsocketKey, sampleKey)] }

/-- The upgrade of a client that sends `Connection: Upgrade` is served. -/
theorem stageHttpRead_served_upgrade :
    base64 ((siteEnvironment (upgradeRequest connectionUpgrade)).sha1 (sampleKey ++ guid)) =
      "s3pPLMBiTxaQ9kYGzzhZRbK+xOo=".toList ∧
    Served (siteEnvironment (upgradeRequest connectionUpgrade)) readingState
      (upgradeRequest connectionUpgrade) sampleKey
      ((stageHttpRead (siteEnvironment (upgradeRequest connectionUpgrade)) readingServer).run
        readingState) := by
  refine ⟨by decide, ?_⟩
  refine (stageHttpRead_served_iff (delivered_readingState _) rfl (by decide)).2 ?_
  intro connection upgrade hc hu
  exact ⟨(Option.some.inj hc).symm, (Option.some.inj hu).symm⟩

/-- `Connection: keep-alive, Upgrade`, as a browser may send it. -/
def keepAliveUpgrade : Request := upgradeRequest "keep-alive, Upgrade".toList

/-- Such a handshake is dropped. -/
theorem keepAliveUpgrade_dropped :
    keepAliveUpgrade.method = .get ∧
      keepAliveUpgrade.fields.find Field.secWebsocketKey = some sampleKey ∧
      Delivered (siteEnvironment keepAliveUpgrade) readingState.uringData keepAliveUpgrade ∧
      Handshake keepAliveUpgrade ∧
      (stageHttpRead (siteEnvironment keepAliveUpgrade) readingServer).run readingState =
        .ok ((some (true, -1), readingServer), readingState) ∧
      ¬ Served (siteEnvironment keepAliveUpgrade) readingState keepAliveUpgrade sampleKey
        ((stageHttpRead (siteEnvironment keepAliveUpgrade) readingServer).run readingState) := by
  have hrun : (stageHttpRead (siteEnvironment keepAliveUpgrade) readingServer).run readingState =
      .ok ((some (true, -1), readingServer), readingState) := rfl
  have hhandshake : Handshake keepAliveUpgrade := by decide
  refine ⟨rfl, by decide, delivered_readingState _, hhandshake, hrun, fun hserved => ?_⟩
  rw [hrun] at hserved
  obtain ⟨s', es', vidx, localId, res, heq, -⟩ := hserved.1.2 hhandshake
  cases heq

end MonitoringServer

end LocalSoftware.BandwidthMonitor
