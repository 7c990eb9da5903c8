import LocalSoftware.BandwidthMonitor.LogFile
import LocalSoftware.BandwidthMonitor.Stream

/-!
# The history in front of the stream

`frameCalls records` are the frames of the history: the records in pieces of at most 15, and the
marker. `history_stream` shows for every run that the calls of the WebSocket follow this list, one
for each write that succeeded, and that live records come behind it. `Page` is the page of
`monitoringindex.html`, which tells the marker from the records by its length.
-/

set_option autoImplicit false

namespace LocalSoftware.BandwidthMonitor

open Http Websocket Library.Numerals

/-! ## Pieces of a list -/

section Chunks

variable {α : Type} {n : Nat} {l : List α}

/-- A list in pieces of `n` elements; the last one is what is left. -/
def chunks (n : Nat) (l : List α) : List (List α) :=
  if n = 0 ∨ l = [] then [] else l.take n :: chunks n (l.drop n)
termination_by l.length
decreasing_by
  rename_i h
  rw [not_or] at h
  have hpos := List.length_pos_of_ne_nil h.2
  rw [List.length_drop]
  omega

theorem chunks_nil (n : Nat) : chunks n ([] : List α) = [] := by
  rw [chunks, if_pos (Or.inr rfl)]

theorem chunks_of_ne_nil (hn : n ≠ 0) (hl : l ≠ []) :
    chunks n l = l.take n :: chunks n (l.drop n) := by
  rw [chunks, if_neg (not_or.2 ⟨hn, hl⟩)]

/-- The pieces are the list, and none of them is empty or longer than `n`. -/
theorem chunks_spec (hn : n ≠ 0) (l : List α) :
    (chunks n l).flatten = l ∧ ∀ c ∈ chunks n l, 1 ≤ c.length ∧ c.length ≤ n := by
  fun_induction chunks n l with
  | case1 l h =>
    obtain rfl := h.resolve_left hn
    exact ⟨rfl, fun c hc => absurd hc List.not_mem_nil⟩
  | case2 l h ih =>
    obtain ⟨hflatten, hlength⟩ := ih
    rw [not_or] at h
    have hpos := List.length_pos_of_ne_nil h.2
    refine ⟨?_, fun c hc => ?_⟩
    · rw [List.flatten_cons, hflatten, List.take_append_drop]
    · rcases List.mem_cons.1 hc with rfl | hc
      · rw [List.length_take]
        omega
      · exact hlength c hc

end Chunks

/-! ## The frames of the history -/

/-- The calls that send the history. -/
def frameCalls (records : List LogRecord) : List ChildCall :=
  (chunks 15 records).map .writeFrame2 ++ [.writeFrame .marker]

/-- The payloads in front of the marker. -/
def historyPayloads (records : List LogRecord) : List (List UInt8) :=
  (chunks 15 records).map fun chunk => chunk.flatMap LogRecord.bytes

section Frames

variable {env : Environment}

/-- A call reads the next records of the lines, and leaves the lines behind them. -/
theorem readRecords_spec (env : Environment) (room : Nat) (log : List Str) :
    (MonitoringServer.readRecords env room log).1 = (log.filterMap env.scanRecord).take room ∧
      (MonitoringServer.readRecords env room log).2.filterMap env.scanRecord =
        (log.filterMap env.scanRecord).drop room := by
  fun_induction MonitoringServer.readRecords env room log with
  | case1 log => exact ⟨rfl, rfl⟩
  | case2 room h => exact ⟨List.take_nil.symm, List.drop_nil.symm⟩
  | case3 room line log r hscan chunk rest hread ih =>
    rw [hread] at ih
    rw [List.filterMap_cons_some hscan, List.take_succ_cons, List.drop_succ_cons]
    exact ⟨congrArg _ ih.1, ih.2⟩
  | case4 room line log hscan ih =>
    rw [List.filterMap_cons_none hscan]
    exact ih

theorem nextFrame_state (env : Environment) (log : List Str) :
    (nextFrame env log).2.2 = .websocketLogs ∨ (nextFrame env log).2.2 = .websocketLive := by
  unfold nextFrame
  simp only
  split
  · exact Or.inr rfl
  · exact Or.inl rfl

/-- The next frame is the first one of the records that are left. -/
theorem frameCalls_nextFrame (env : Environment) (log : List Str) :
    frameCalls (log.filterMap env.scanRecord) = (nextFrame env log).1 ::
      if (nextFrame env log).2.2 = .websocketLive then []
      else frameCalls ((nextFrame env log).2.1.filterMap env.scanRecord) := by
  obtain ⟨hchunk, hrest⟩ := readRecords_spec env 15 log
  unfold nextFrame frameCalls
  simp only
  by_cases hempty : (MonitoringServer.readRecords env 15 log).1 = []
  · have hnone : log.filterMap env.scanRecord = [] := by
      rw [hchunk] at hempty
      exact (List.take_eq_nil_iff.1 hempty).resolve_left (by decide)
    rw [if_pos hempty, hnone, chunks_nil]
    rfl
  · have hsome : log.filterMap env.scanRecord ≠ [] := by
      rw [hchunk] at hempty
      rintro hnone
      rw [hnone, List.take_nil] at hempty
      exact hempty rfl
    rw [if_neg hempty, if_neg State.noConfusion, hrest, hchunk, chunks_of_ne_nil (by decide) hsome]
    rfl

end Frames

/-! ## The page -/

/-- The page: `isLive`, and what `addHistoryRow` was called with, before the conversions of `Number`.
The chart is left out. -/
structure Page where
  isLive : Bool := false
  rows : List LogRecord := []
deriving DecidableEq, Repr

/-- `getBigUint64` and `getUint32` of a view, the lowest byte first. -/
def getUint (width : Nat) (view : List UInt8) (offset : Nat) : Nat :=
  ofLittleEndian ((view.drop offset).take width)

/-- The record at an offset. -/
def recordAt (view : List UInt8) (offset : Nat) : LogRecord :=
  ⟨getUint 8 view offset, getUint 8 view (offset + 8), getUint 8 view (offset + 16),
    getUint 4 view (offset + 24)⟩

/-- `ws.onmessage`. -/
def Page.onmessage (page : Page) (view : List UInt8) : Page :=
  if page.isLive then page
  else if view.length = 24 ∧ getUint 8 view 0 = 0xFFFFFFFFFFFFFFFF then { page with isLive := true }
  else if view.length % 28 = 0 then
    { page with rows := page.rows ++
        (List.range (view.length / 28)).map fun k => recordAt view (28 * k) }
  else page

/-- The fields fit into their words. -/
structure LogRecord.Fits (r : LogRecord) : Prop where
  timestamp : r.timestamp < 2 ^ 64
  txBytes : r.txBytes < 2 ^ 64
  rxBytes : r.rxBytes < 2 ^ 64
  hour : r.hour < 2 ^ 32

section Page

variable {r : LogRecord} {chunk : List LogRecord} {page : Page}

theorem toUnsigned_lt (width : Nat) (n : Int) : toUnsigned width n < 2 ^ width := by
  have hpos : (0 : Int) < 2 ^ width := Int.pow_pos (by decide)
  have hlt := Int.emod_lt_of_pos n hpos
  have hle := Int.emod_nonneg n (Int.ne_of_gt hpos)
  unfold toUnsigned
  rw [Int.toNat_lt hle]
  exact_mod_cast hlt

theorem scanRecord_fits {line : Str} (h : scanRecord line = some r) : r.Fits := by
  unfold scanRecord at h
  split at h
  · obtain rfl := Option.some.inj h
    exact ⟨toUnsigned_lt _ _, toUnsigned_lt _ _, toUnsigned_lt _ _, toUnsigned_lt _ _⟩
  · cases h

theorem fileRecords_fits (content : Str) : ∀ r ∈ fileRecords content, r.Fits := by
  intro r hr
  obtain ⟨line, -, hline⟩ := List.mem_filterMap.1 hr
  exact scanRecord_fits hline

@[simp] theorem LogRecord.length_bytes (r : LogRecord) : r.bytes.length = 28 := by
  simp [LogRecord.bytes]

theorem length_payload (chunk : List LogRecord) :
    (chunk.flatMap LogRecord.bytes).length = 28 * chunk.length := by
  induction chunk with
  | nil => rfl
  | cons r chunk ih =>
    rw [List.flatMap_cons, List.length_append, LogRecord.length_bytes, ih, List.length_cons]
    omega

/-- The page reads the fields of a record back. -/
theorem recordAt_bytes (h : r.Fits) (rest : List UInt8) : recordAt (r.bytes ++ rest) 0 = r := by
  have h64 : ∀ n, n < 2 ^ 64 → ofLittleEndian (littleEndian 8 n) = n :=
    fun n hn => ofLittleEndian_littleEndian hn
  have h32 : ∀ n, n < 2 ^ 32 → ofLittleEndian (littleEndian 4 n) = n :=
    fun n hn => ofLittleEndian_littleEndian hn
  have hread : ∀ (front word rest : List UInt8),
      ((front ++ (word ++ rest)).drop front.length).take word.length = word := by
    intro front word rest
    rw [List.drop_left, List.take_left]
  obtain ⟨ts, tx, rx, hour⟩ := r
  have h₁ := hread [] (littleEndian 8 ts)
    (littleEndian 8 tx ++ (littleEndian 8 rx ++ (littleEndian 4 hour ++ rest)))
  have h₂ := hread (littleEndian 8 ts) (littleEndian 8 tx)
    (littleEndian 8 rx ++ (littleEndian 4 hour ++ rest))
  have h₃ := hread (littleEndian 8 ts ++ littleEndian 8 tx) (littleEndian 8 rx)
    (littleEndian 4 hour ++ rest)
  have h₄ := hread (littleEndian 8 ts ++ littleEndian 8 tx ++ littleEndian 8 rx)
    (littleEndian 4 hour) rest
  simp only [length_littleEndian, List.length_append, List.length_nil, List.nil_append,
    List.append_assoc] at h₁ h₂ h₃ h₄
  unfold recordAt getUint LogRecord.bytes
  simp only [List.append_assoc, Nat.zero_add]
  rw [h₁, h₂, h₃, h₄, h64 ts h.timestamp, h64 tx h.txBytes, h64 rx h.rxBytes, h32 hour h.hour]

theorem recordAt_drop (view : List UInt8) (i offset : Nat) :
    recordAt (view.drop i) offset = recordAt view (i + offset) := by
  unfold recordAt getUint
  simp only [List.drop_drop, Nat.add_assoc]

/-- It reads the records of a payload back. -/
theorem map_recordAt (h : ∀ r ∈ chunk, r.Fits) :
    (List.range chunk.length).map (fun k => recordAt (chunk.flatMap LogRecord.bytes) (28 * k)) =
      chunk := by
  induction chunk with
  | nil => rfl
  | cons r chunk ih =>
    rw [List.length_cons, List.range_succ_eq_map, List.map_cons, List.map_map, List.flatMap_cons,
      recordAt_bytes (h r List.mem_cons_self)]
    refine congrArg _ (Eq.trans (List.map_congr_left fun k _ => ?_)
      (ih fun r hr => h r (List.mem_cons_of_mem _ hr)))
    have hdrop : (r.bytes ++ chunk.flatMap LogRecord.bytes).drop 28 =
        chunk.flatMap LogRecord.bytes := List.drop_left' r.length_bytes
    rw [Function.comp_apply, Nat.mul_succ, Nat.add_comm, ← recordAt_drop, hdrop]

/-- A frame of records adds its rows; it is not taken for the marker. -/
theorem onmessage_payload (hlive : page.isLive = false) (h : ∀ r ∈ chunk, r.Fits) :
    page.onmessage (chunk.flatMap LogRecord.bytes) = { page with rows := page.rows ++ chunk } := by
  have hlength := length_payload chunk
  have hnot : ¬ ((chunk.flatMap LogRecord.bytes).length = 24 ∧
      getUint 8 (chunk.flatMap LogRecord.bytes) 0 = 0xFFFFFFFFFFFFFFFF) := by
    rintro ⟨h24, -⟩
    omega
  have hmod : 28 * chunk.length % 28 = 0 := Nat.mul_mod_right _ _
  have hdiv : 28 * chunk.length / 28 = chunk.length := Nat.mul_div_cancel_left _ (by decide)
  unfold Page.onmessage
  rw [if_neg (by rw [hlive]; exact Bool.false_ne_true), if_neg hnot, hlength, if_pos hmod, hdiv,
    map_recordAt h]

/-- The page shows the records of the frames, and waits for more. -/
theorem foldl_onmessage {cs : List (List LogRecord)} (hlive : page.isLive = false)
    (h : ∀ c ∈ cs, ∀ r ∈ c, r.Fits) :
    (cs.map fun c => c.flatMap LogRecord.bytes).foldl Page.onmessage page =
      { page with rows := page.rows ++ cs.flatten } := by
  induction cs generalizing page with
  | nil =>
    rw [List.flatten_nil, List.append_nil]
    rfl
  | cons c cs ih =>
    rw [List.map_cons, List.foldl_cons, onmessage_payload hlive (h c List.mem_cons_self)]
    refine (ih ?_ fun c hc => h c (List.mem_cons_of_mem _ hc)).trans ?_
    · exact hlive
    · rw [List.flatten_cons, List.append_assoc]

end Page

/-! ## What is sent -/

namespace Session

variable {env : Environment} {s s' : Session} {records : List LogRecord} {id : Id} {code : Int}

/-- A step reads lines with `sscanf`, and opens the log file with this content. -/
def Reads (content : Str) (s : Session) (a : Environment × SessionEvent) : Prop :=
  a.1.scanRecord = scanRecord ∧
    (s.server.currentOp = .websocketInit → a.1.logFile = getlines [] content)

/-- What was sent in each state of the server object. -/
inductive Progress (records : List LogRecord) (s : Session) : Prop where
  | request (hop : s.server.currentOp = .read ∨ s.server.currentOp = .write ∨
        s.server.currentOp = .websocketInit)
      (hsent : s.sent = []) (hacks : s.acks = 0) (htick : s.tick = none)
  | history (hop : s.server.currentOp = .websocketLogs)
      (hsent : s.sent ++ frameCalls (s.server.log.filterMap scanRecord) = frameCalls records)
      (hacks : s.sent.length = s.acks + 1) (htick : s.tick = none)
  | marker (hop : s.server.currentOp = .websocketLive) (hsent : s.sent = frameCalls records)
      (hacks : s.sent.length = s.acks + 1) (htick : s.tick = none)
  | live (hop : s.server.currentOp = .websocketLive) (n : Nat)
      (hsent : s.sent = frameCalls records ++ List.replicate (n + 1) (.writeFrame .record))
      (hacks : (frameCalls records).length ≤ s.acks) (htick : s.tick ≠ none)

theorem Progress.congr (h : Progress records s) (hserver : s'.server = s.server)
    (hsent : s'.sent = s.sent) (hacks : s'.acks = s.acks) (htick : s'.tick = s.tick) :
    Progress records s' := by
  cases h with
  | request hop hsent' hacks' htick' =>
    rw [← hserver] at hop
    exact .request hop (hsent.trans hsent') (hacks.trans hacks') (htick.trans htick')
  | history hop hsent' hacks' htick' =>
    rw [← hserver] at hop hsent'
    rw [← hsent] at hsent' hacks'
    rw [← hacks] at hacks'
    exact .history hop hsent' hacks' (htick.trans htick')
  | marker hop hsent' hacks' htick' =>
    rw [← hserver] at hop
    rw [← hsent, ← hacks] at hacks'
    exact .marker hop (hsent.trans hsent') hacks' (htick.trans htick')
  | live hop n hsent' hacks' htick' =>
    rw [← hserver] at hop
    rw [← hacks] at hacks'
    rw [← htick] at htick'
    exact .live hop n (hsent.trans hsent') hacks' htick'

/-- The next frame of the history is sent, when those before it are written. -/
theorem progress_addFrame {server : MonitoringServer} {data : IoUringData vocabulary}
    {log : List Str} (hscan : env.scanRecord = scanRecord)
    (hsent : s.sent ++ frameCalls (log.filterMap scanRecord) = frameCalls records)
    (hacks : s.acks = s.sent.length) (htick : s.tick = none)
    (hlog : server.log = (nextFrame env log).2.1)
    (hop : server.currentOp = (nextFrame env log).2.2) :
    Progress records (s.addFrame server data (nextFrame env log).1) := by
  have hlength : (s.addFrame server data (nextFrame env log).1).sent.length =
      (s.addFrame server data (nextFrame env log).1).acks + 1 := by
    simp only [addFrame, List.length_append, List.length_singleton, hacks]
  have hframe := frameCalls_nextFrame env log
  rw [hscan, ← hlog, ← hop] at hframe
  rw [hframe] at hsent
  rcases hop ▸ nextFrame_state env log with hlogs | hlive
  · rw [if_neg (by rw [hlogs]; exact State.noConfusion)] at hsent
    refine .history hlogs ?_ hlength htick
    rw [← hsent, addFrame, List.append_assoc]
    rfl
  · rw [if_pos hlive] at hsent
    exact .marker hlive hsent hlength htick

/-- It is the next one of the list. -/
theorem sent_addFrame {log : List Str} (hscan : env.scanRecord = scanRecord)
    (hsent : s.sent ++ frameCalls (log.filterMap scanRecord) = frameCalls records) :
    s.sent ++ [(nextFrame env log).1] = (frameCalls records).take (s.sent.length + 1) := by
  have hframe := frameCalls_nextFrame env log
  rw [hscan] at hframe
  rw [hframe] at hsent
  rw [← hsent, List.take_append, List.take_of_length_le (Nat.le_succ _)]
  simp

/-- Before the stream no call of the WebSocket is open. -/
theorem Stage.not_isWrite (h : Stage s) (hop : s.server.currentOp = .read ∨
    s.server.currentOp = .write ∨ s.server.currentOp = .websocketInit) :
    ∀ k ∈ s.keys, k.2.isWrite = false := by
  intro k hk
  cases h with
  | request _ hcalls =>
    by_contra hwrite
    have hother := ChildCall.isOther_of_isWrite (Bool.not_eq_false _ ▸ hwrite)
    exact Bool.false_ne_true ((hcalls.2 k hk).symm.trans hother)
  | history hop' =>
    rcases hop with hop | hop | hop <;> rcases hop' with hop' | hop' <;>
      exact absurd (hop.symm.trans hop') (by decide)
  | live hop' => rcases hop with hop | hop | hop <;> exact absurd (hop.symm.trans hop') (by decide)

/-- In the history only such calls are. -/
theorem Stage.of_logs (h : Stage s) (hop : s.server.currentOp = .websocketLogs) :
    HasChild s.data .websocketSocket ∧ ∀ k ∈ s.keys, k.2.isWrite = true := by
  cases h with
  | request hop' =>
    rcases hop' with hop' | hop' | hop' <;> exact absurd (hop.symm.trans hop') (by decide)
  | history _ _ hsocket hcalls => exact ⟨hsocket, fun k hk => (hcalls.2 k hk).1⟩
  | live hop' => exact absurd (hop.symm.trans hop') (by decide)

/-- Before the first tick the call is that of the marker. -/
theorem Stage.of_marker (h : Stage s) (hop : s.server.currentOp = .websocketLive)
    (htick : s.tick = none) : ∀ k ∈ s.keys, k.2 = .writeFrame .marker := by
  cases h with
  | request hop' =>
    rcases hop' with hop' | hop' | hop' <;> exact absurd (hop.symm.trans hop') (by decide)
  | history _ _ _ hcalls => exact fun k hk => (hcalls.2 k hk).2.2 hop
  | live _ _ _ tid wid h => exact absurd (htick.symm.trans h.tick) (by simp)

theorem acks_acknowledge (i : Nat) (id : Id) (fn : ChildCall) (hpos : 0 < code) :
    (s.acknowledge i id fn code).acks = if fn.isWrite = true then s.acks + 1 else s.acks := by
  unfold acknowledge
  simp only [hpos, true_and]

section Deliver

variable {i : Nat} {fn : ChildCall} (hcall : s.calls[i]? = some { id, fn, phase := .done code })
include hcall

/-- The completion of the response of the upgrade, or of a frame of the history, sends the next
frame. -/
theorem deliver_next (h : Inv s) (hp : Progress records s) (hpos : 0 < code)
    (hop : s.server.currentOp = .websocketInit ∨ s.server.currentOp = .websocketLogs)
    (hscan : env.scanRecord = scanRecord)
    (hfile : s.server.currentOp = .websocketInit → env.logFile.filterMap scanRecord = records) :
    ∃ s', s.deliver env i = .ok s' ∧ Progress records s' ∧ Streaming s'.server ∧
      s'.sent = (frameCalls records).take (s.sent.length + 1) := by
  have hack := acks_acknowledge (s := s) i id fn hpos
  cases hp with
  -- the upgrade is answered: the first frame
  | request hop' hsent hacks htick =>
    have hinit : s.server.currentOp = .websocketInit := by
      refine hop.resolve_right fun hlogs => ?_
      rcases hop' with hop' | hop' | hop' <;> exact absurd (hlogs.symm.trans hop') (by decide)
    have hwrite := h.stage.not_isWrite hop' _ (key_of_call hcall)
    rw [if_neg (Bool.eq_false_iff.1 hwrite), hacks] at hack
    have hfirst : ([] : List ChildCall) ++ frameCalls (env.logFile.filterMap scanRecord) =
        frameCalls records := by
      rw [hfile hinit]
      rfl
    have hnone : (s.acknowledge i id fn code).sent = [] := hsent
    refine ⟨_, (deliver_eq hcall env).trans (serverEvent_init env hinit hpos), ?_,
      nextFrame_state env _, ?_⟩
    · refine progress_addFrame hscan ?_ ?_ htick rfl rfl
      · rw [hnone]
        exact hfirst
      · rw [hack, hnone]
        rfl
    · refine sent_addFrame (s := s) hscan ?_
      rw [hsent]
      exact hfirst
  -- one frame of the history is acknowledged: the next one
  | history hlogs hsent hacks htick =>
    obtain ⟨hsocket, hwrite⟩ := h.stage.of_logs hlogs
    rw [if_pos (hwrite _ (key_of_call hcall)), ← hacks] at hack
    exact ⟨_, (deliver_eq hcall env).trans (serverEvent_logs env hlogs hsocket hpos),
      progress_addFrame hscan hsent hack htick rfl rfl, nextFrame_state env _,
      sent_addFrame (s := s) hscan hsent⟩
  | marker hlive =>
    rcases hop with hop | hop <;> exact absurd (hlive.symm.trans hop) (by decide)
  | live hlive =>
    rcases hop with hop | hop <;> exact absurd (hlive.symm.trans hop) (by decide)

/-- A completion before the stream sends nothing. -/
theorem deliver_request (h : Inv s) (hp : Progress records s) (hpos : 0 < code)
    (hop : s.server.currentOp = .read ∨ s.server.currentOp = .write)
    (hstep : s.deliver env i = .ok s') : Progress records s' := by
  have hack := acks_acknowledge (s := s) i id fn hpos
  cases hp with
  | request hop' hsent hacks htick =>
    have hwrite := h.stage.not_isWrite hop' _ (key_of_call hcall)
    rw [if_neg (Bool.eq_false_iff.1 hwrite), hacks] at hack
    rw [deliver_eq hcall env] at hstep
    have hop₁ : (s.acknowledge i id fn code).server.currentOp = .read ∨
        (s.acknowledge i id fn code).server.currentOp = .write := hop
    obtain ⟨hop'', -, data, calls, hs', -⟩ := serverEvent_request hop₁ hpos hstep
    refine .request hop'' ?_ ?_ ?_
    · rw [hs']
      exact hsent
    · rw [hs']
      exact hack
    · rw [hs']
      exact htick
  | history hop' => rcases hop with hop | hop <;> exact absurd (hop.symm.trans hop') (by decide)
  | marker hop' => rcases hop with hop | hop <;> exact absurd (hop.symm.trans hop') (by decide)
  | live hop' => rcases hop with hop | hop <;> exact absurd (hop.symm.trans hop') (by decide)

/-- A live record is sent behind the marker. -/
theorem deliver_live (h : Inv s) (hp : Progress records s)
    (hop : s.server.currentOp = .websocketLive) (hstep : s.deliver env i = .ok s') :
    Progress records s' := by
  have hle : s.acks ≤ (s.acknowledge i id fn code).acks := by
    unfold acknowledge
    simp only
    split
    · exact Nat.le_succ _
    · exact Nat.le_refl _
  -- a completion that is due sends a live record; the others are only noted
  by_cases hdue : s.Due id fn code
  · obtain ⟨server, hop', hstep', -⟩ := deliver_due hcall env h hdue
    obtain rfl := Except.ok.inj (hstep'.symm.trans hstep)
    cases hp with
    | request hop'' =>
      rcases hop'' with hop'' | hop'' | hop'' <;> exact absurd (hop.symm.trans hop'') (by decide)
    | history hop'' => exact absurd (hop.symm.trans hop'') (by decide)
    | marker _ hsent hacks htick =>
      have hack := acks_acknowledge (s := s) i id fn hdue.1
      have hmarker : fn = .writeFrame .marker := h.stage.of_marker hop htick _ (key_of_call hcall)
      rw [if_pos (hmarker ▸ rfl), ← hacks] at hack
      refine .live hop' 0 ?_ ?_ (Option.some_ne_none _)
      · rw [← hsent]
        rfl
      · rw [← hsent]
        exact Nat.le_of_eq hack.symm
    | live _ n hsent hacks htick =>
      refine .live hop' (n + 1) ?_ (hacks.trans hle) (Option.some_ne_none _)
      rw [List.replicate_succ', ← List.append_assoc, ← hsent]
      rfl
  · obtain ⟨server, hop', hstep', -⟩ := deliver_waits hcall env h hop hdue
    obtain rfl := Except.ok.inj (hstep'.symm.trans hstep)
    cases hp with
    | request hop'' =>
      rcases hop'' with hop'' | hop'' | hop'' <;> exact absurd (hop.symm.trans hop'') (by decide)
    | history hop'' => exact absurd (hop.symm.trans hop'') (by decide)
    | marker _ hsent hacks htick =>
      -- the marker is the only call, so a completion that is not due has failed
      have hneg : ¬ 0 < code := by
        intro hpos
        refine hdue ⟨hpos, ?_⟩
        rw [htick]
        exact h.stage.of_marker hop htick _ (key_of_call hcall)
      have hack : (s.acknowledge i id fn code).acks = s.acks := if_neg fun hboth => hneg hboth.1
      refine .marker hop' hsent ?_ htick
      exact hacks.trans (congrArg _ hack.symm)
    | live _ n hsent hacks htick => exact .live hop' n hsent (hacks.trans hle) htick

/-- A completion keeps to the list. -/
theorem deliver_progress (h : Inv s) (hp : Progress records s) (hscan : env.scanRecord = scanRecord)
    (hfile : s.server.currentOp = .websocketInit → env.logFile.filterMap scanRecord = records)
    (hstep : s.deliver env i = .ok s') : Progress records s' := by
  by_cases hpos : 0 < code
  · cases hstate : s.server.currentOp with
    | read => exact deliver_request hcall h hp hpos (Or.inl hstate) hstep
    | write => exact deliver_request hcall h hp hpos (Or.inr hstate) hstep
    | websocketInit =>
      obtain ⟨s'', hstep', hp', -⟩ := deliver_next hcall h hp hpos (Or.inl hstate) hscan hfile
      obtain rfl := Except.ok.inj (hstep'.symm.trans hstep)
      exact hp'
    | websocketLogs =>
      obtain ⟨s'', hstep', hp', -⟩ := deliver_next hcall h hp hpos (Or.inr hstate) hscan hfile
      obtain rfl := Except.ok.inj (hstep'.symm.trans hstep)
      exact hp'
    | websocketLive => exact deliver_live hcall h hp hstate hstep
  · obtain ⟨hstep', -⟩ := deliver_failed hcall env h (Int.not_lt.1 hpos)
    obtain rfl := Except.ok.inj (hstep'.symm.trans hstep)
    exact hp.congr rfl rfl (if_neg fun hboth => hpos hboth.1) rfl

end Deliver

theorem step_progress {content : Str} {a : Environment × SessionEvent} (h : Inv s)
    (hp : Progress (fileRecords content) s) (hreads : Reads content s a) (hstep : s.act a = .ok s') :
    Progress (fileRecords content) s' := by
  obtain ⟨env, event⟩ := a
  by_cases hevent : ∀ i, event ≠ .deliver i
  · obtain ⟨-, htick, hserver, hsent, hacks⟩ := step_others hevent hstep
    exact hp.congr hserver hsent hacks htick
  · simp only [ne_eq, not_forall, not_not] at hevent
    obtain ⟨i, rfl⟩ := hevent
    have hdeliver : s.deliver env i = .ok s' := hstep
    have hsame := hdeliver
    unfold deliver at hsame
    split at hsame
    · rename_i id fn code hcall
      refine deliver_progress hcall h hp hreads.1 (fun hinit => ?_) hdeliver
      rw [hreads.2 hinit]
      rfl
    · obtain rfl := Except.ok.inj hsame
      exact hp

/-! ## What is written -/

/-- A call of the WebSocket that did not run. -/
def waiting (c : OpenCall) : Bool := c.fn.isWrite && decide (c.phase = .queued)

/-- The calls that ran are those that were sent, but for those that wait; each one read its payload
from the server object. -/
structure Written (s : Session) : Prop where
  sent : s.sent = s.written.map Prod.fst ++ (s.calls.filter waiting).map (·.fn)
  payload : ∀ p ∈ s.written, ∃ server : MonitoringServer, p.2 = server.payload p.1

section Filter

variable {α : Type} {p q : α → Bool} {l : List α} {i : Nat} {a b : α}

theorem exists_append_of_getElem? (h : l[i]? = some a) :
    ∃ front rest, l = front ++ a :: rest ∧ front.length = i := by
  obtain ⟨hlt, rfl⟩ := List.getElem?_eq_some_iff.1 h
  refine ⟨l.take i, l.drop (i + 1), ?_, List.length_take_of_le (Nat.le_of_lt hlt)⟩
  rw [← List.drop_eq_getElem_cons hlt, List.take_append_drop]

theorem filter_set_of_not (h : l[i]? = some a) (ha : p a = false) (hb : p b = false) :
    (l.set i b).filter p = l.filter p := by
  obtain ⟨front, rest, rfl, rfl⟩ := exists_append_of_getElem? h
  simp [ha, hb]

theorem filter_eraseIdx_of_not (h : l[i]? = some a) (ha : p a = false) :
    (l.eraseIdx i).filter p = l.filter p := by
  obtain ⟨front, rest, rfl, rfl⟩ := exists_append_of_getElem? h
  simp [List.eraseIdx_append_of_length_le, ha]

/-- The only element that counts is replaced by one that does not. -/
theorem filter_set_of_single (h : l[i]? = some a) (hle : l.countP q ≤ 1)
    (hpq : ∀ x, p x = true → q x = true) (ha : p a = true) (hb : p b = false) :
    l.filter p = [a] ∧ (l.set i b).filter p = [] := by
  obtain ⟨front, rest, rfl, rfl⟩ := exists_append_of_getElem? h
  rw [List.countP_append, List.countP_cons_of_pos (hpq a ha)] at hle
  have hnone : ∀ l' : List α, l'.countP q = 0 → l'.filter p = [] := by
    intro l' hcount
    rw [List.filter_eq_nil_iff]
    intro x hx hpx
    exact List.countP_eq_zero.1 hcount x hx (hpq x hpx)
  have hfront := hnone front (by omega)
  have hrest := hnone rest (by omega)
  simp [hfront, hrest, ha, hb]

end Filter

theorem filter_waiting (calls : List (EventQueuedFunction vocabulary)) :
    ((calls.map fun q => ({ id := q.localId, fn := q.fn } : OpenCall)).filter waiting).map (·.fn) =
      (calls.map (·.fn)).filter ChildCall.isWrite := by
  induction calls with
  | nil => rfl
  | cons q calls ih =>
    rw [List.map_cons, List.map_cons, List.filter_cons, List.filter_cons]
    have hq : waiting { id := q.localId, fn := q.fn } = ChildCall.isWrite q.fn := Bool.and_true _
    rw [hq]
    split
    · rw [List.map_cons, ih]
    · exact ih

theorem serverEvent_written (hw : Written s) {event : EventType}
    (hstep : s.serverEvent env event = .ok s') : Written s' := by
  unfold serverEvent at hstep
  split at hstep
  · cases hstep
  · rename_i y server es hrun
    obtain rfl := Except.ok.inj hstep
    refine ⟨?_, hw.payload⟩
    rw [List.filter_append, List.map_append, filter_waiting, ← List.append_assoc, ← hw.sent]

theorem run_written (h : Inv s) (hw : Written s) {i : Nat} (hrun : s.run i = .ok s') :
    Written s' := by
  unfold run at hrun
  split at hrun
  · rename_i id fn hcall
    split at hrun
    · rename_i hwrite
      split at hrun
      · cases hrun
      · rename_i socket write resp hframe
        obtain rfl := Except.ok.inj hrun
        -- the frame was waiting before, and is on the socket now
        have hbefore : waiting { id, fn } = true := by
          unfold waiting
          rw [hwrite]
          rfl
        have hafter : waiting { id, fn, phase := .running (some write) } = false :=
          Bool.and_false _
        have hwaits : ∀ c, waiting c = true → c.fn.isWrite = true :=
          fun c hc => (Bool.and_eq_true_iff.1 hc).1
        obtain ⟨hold, hnew⟩ := filter_set_of_single hcall h.stage.single.1 hwaits hbefore hafter
        refine ⟨?_, fun p hp => ?_⟩
        · rw [hw.sent, hold, hnew, List.map_append, List.map_nil, List.append_nil]
          rfl
        · rcases List.mem_append.1 hp with hp | hp
          · exact hw.payload p hp
          · rw [List.mem_singleton.1 hp]
            exact ⟨s.server, rfl⟩
    -- a call that is no frame writes nothing
    · rename_i hwrite
      obtain rfl := Except.ok.inj hrun
      refine ⟨?_, hw.payload⟩
      rw [filter_set_of_not hcall ?_ (Bool.and_false _)]
      · exact hw.sent
      · unfold waiting
        rw [Bool.eq_false_iff.2 hwrite]
        rfl
  · obtain rfl := Except.ok.inj hrun
    exact hw

theorem finish_written (hw : Written s) (i : Nat) (code : Int) : Written (s.finish i code) := by
  unfold finish
  split
  · rename_i id fn write hcall
    refine ⟨?_, hw.payload⟩
    rw [filter_set_of_not hcall (Bool.and_false _) (Bool.and_false _)]
    exact hw.sent
  · exact hw

theorem step_written (h : Inv s) (hw : Written s) {event : SessionEvent}
    (hstep : s.step env event = .ok s') : Written s' := by
  cases event with
  | run i => exact run_written h hw hstep
  | finish i code =>
    obtain rfl := Except.ok.inj hstep
    exact finish_written hw i code
  | deliver i =>
    unfold step deliver at hstep
    simp only at hstep
    split at hstep
    · rename_i id fn code hcall
      have hack : Written (s.acknowledge i id fn code) := by
        refine ⟨?_, hw.payload⟩
        unfold acknowledge
        simp only
        rw [filter_eraseIdx_of_not hcall (Bool.and_false _)]
        exact hw.sent
      exact serverEvent_written hack hstep
    · obtain rfl := Except.ok.inj hstep
      exact hw
  | timeout timerId =>
    have hevent : s.serverEvent env (.timeout timerId) = .ok s' := hstep
    exact serverEvent_written hw hevent
  | taken n =>
    obtain rfl := Except.ok.inj hstep
    exact ⟨hw.sent, hw.payload⟩
  | placed ty idx info =>
    obtain rfl := Except.ok.inj hstep
    exact ⟨hw.sent, hw.payload⟩

/-- Live records have some values. -/
theorem payloads_live {written : List (ChildCall × List UInt8)} {n : Nat}
    (hpayload : ∀ p ∈ written, ∃ server : MonitoringServer, p.2 = server.payload p.1)
    (hcalls : written.map Prod.fst <+: List.replicate n (.writeFrame .record)) :
    ∃ live : List LogRecord, written.map Prod.snd = live.map LogRecord.bytes := by
  induction written generalizing n with
  | nil => exact ⟨[], rfl⟩
  | cons p written ih =>
    cases n with
    | zero => exact absurd hcalls (by simp)
    | succ n =>
      rw [List.map_cons, List.replicate_succ, List.cons_prefix_cons] at hcalls
      obtain ⟨live, hlive⟩ := ih (fun p hp => hpayload p (List.mem_cons_of_mem _ hp)) hcalls.2
      obtain ⟨server, hserver⟩ := hpayload p List.mem_cons_self
      rw [hcalls.1] at hserver
      refine ⟨server.record :: live, ?_⟩
      rw [List.map_cons, List.map_cons, hlive, hserver]
      rfl

/-- The payloads of the history are those of its frames, with live records behind them. -/
theorem payloads_prefix {cs : List (List LogRecord)} {n : Nat}
    {written : List (ChildCall × List UInt8)}
    (hpayload : ∀ p ∈ written, ∃ server : MonitoringServer, p.2 = server.payload p.1)
    (hcalls : written.map Prod.fst <+: cs.map .writeFrame2 ++
      .writeFrame .marker :: List.replicate n (.writeFrame .record)) :
    ∃ live : List LogRecord, written.map Prod.snd <+:
      (cs.map fun c => c.flatMap LogRecord.bytes) ++ markerBytes :: live.map LogRecord.bytes := by
  induction cs generalizing written with
  | nil =>
    cases written with
    | nil => exact ⟨[], List.nil_prefix⟩
    | cons p written =>
      rw [List.map_cons, List.map_nil, List.nil_append, List.cons_prefix_cons] at hcalls
      obtain ⟨live, hlive⟩ := payloads_live (fun p hp => hpayload p (List.mem_cons_of_mem _ hp))
        hcalls.2
      obtain ⟨server, hserver⟩ := hpayload p List.mem_cons_self
      rw [hcalls.1] at hserver
      refine ⟨live, ?_⟩
      rw [List.map_cons, hlive, hserver]
      exact List.prefix_rfl
  | cons c cs ih =>
    cases written with
    | nil => exact ⟨[], List.nil_prefix⟩
    | cons p written =>
      rw [List.map_cons, List.map_cons, List.cons_append, List.cons_prefix_cons] at hcalls
      obtain ⟨live, hlive⟩ := ih (fun p hp => hpayload p (List.mem_cons_of_mem _ hp)) hcalls.2
      obtain ⟨server, hserver⟩ := hpayload p List.mem_cons_self
      rw [hcalls.1] at hserver
      refine ⟨live, ?_⟩
      rw [List.map_cons, List.map_cons, List.cons_append, List.cons_prefix_cons]
      exact ⟨hserver, hlive⟩

/-! ## The history stream -/

/-- What is sent in a state of a run over this log file. -/
structure HistoryStream (content : Str) (s : Session) : Prop where
  /-- Nothing is sent before the response of the upgrade is written. -/
  before : ¬ Streaming s.server → s.sent = []
  /-- Then one frame is sent, and one more for each that is written; live records come last. -/
  sent : Streaming s.server → ∃ n, s.sent =
      (frameCalls (fileRecords content)).take (s.acks + 1) ++
        List.replicate n (.writeFrame .record) ∧
    (n ≠ 0 → (frameCalls (fileRecords content)).length ≤ s.acks)
  /-- The completion of the response, or of a frame, sends the next frame. -/
  next : ∀ env i id fn code, Reads content s (env, .deliver i) →
    s.calls[i]? = some { id, fn, phase := .done code } → 0 < code →
    s.server.currentOp = .websocketInit ∨ s.server.currentOp = .websocketLogs →
    ∃ s', s.deliver env i = .ok s' ∧ Streaming s'.server ∧
      s'.sent = (frameCalls (fileRecords content)).take (s.sent.length + 1)
  /-- The payloads are those of the history, of one marker, and of live records. -/
  written : ∃ live : List LogRecord, s.written.map Prod.snd <+:
    historyPayloads (fileRecords content) ++ markerBytes :: live.map LogRecord.bytes

/-- The payloads of the history are the records in pieces, and the page reads them back. -/
structure HistoryPayloads (records : List LogRecord) : Prop where
  bytes : (historyPayloads records).flatten = records.flatMap LogRecord.bytes
  pieces : ∀ data ∈ historyPayloads records, ∃ chunk : List LogRecord,
    data = chunk.flatMap LogRecord.bytes ∧ 1 ≤ chunk.length ∧ chunk.length ≤ 15
  /-- None of them is taken for the marker. -/
  waits : ∀ j, (((historyPayloads records).take j).foldl Page.onmessage {}).isLive = false
  rows : (historyPayloads records ++ [markerBytes]).foldl Page.onmessage {} =
    { isLive := true, rows := records }

theorem historyPayloads_spec (hfits : ∀ r ∈ records, r.Fits) : HistoryPayloads records := by
  obtain ⟨hflatten, hlength⟩ := chunks_spec (n := 15) (by decide) records
  have hfits' : ∀ c ∈ chunks 15 records, ∀ r ∈ c, r.Fits := by
    intro c hc r hr
    refine hfits r ?_
    rw [← hflatten]
    exact List.mem_flatten_of_mem hc hr
  refine
    { bytes := ?_
      pieces := fun data hdata => ?_
      waits := fun j => ?_
      rows := ?_ }
  · unfold historyPayloads
    rw [← List.flatMap_def, ← List.flatMap_assoc, List.flatMap_id', hflatten]
  · obtain ⟨c, hc, rfl⟩ := List.mem_map.1 hdata
    exact ⟨c, rfl, hlength c hc⟩
  · unfold historyPayloads
    rw [← List.map_take, foldl_onmessage rfl fun c hc => hfits' c (List.mem_of_mem_take hc)]
  · unfold historyPayloads
    rw [List.foldl_append, foldl_onmessage rfl hfits', hflatten]
    rfl

/-- What was sent is a part of the whole stream. -/
theorem Progress.sent_prefix (hp : Progress records s) : ∃ n, s.sent <+:
    (chunks 15 records).map .writeFrame2 ++
      .writeFrame .marker :: List.replicate n (.writeFrame .record) := by
  cases hp with
  | request _ hsent =>
    rw [hsent]
    exact ⟨0, List.nil_prefix⟩
  | history _ hsent =>
    refine ⟨0, ⟨frameCalls (s.server.log.filterMap scanRecord), ?_⟩⟩
    rw [hsent, frameCalls]
    rfl
  | marker _ hsent =>
    rw [hsent]
    exact ⟨0, List.prefix_rfl⟩
  | live _ n hsent =>
    refine ⟨n + 1, ?_⟩
    rw [hsent, frameCalls, List.append_assoc]
    exact List.prefix_rfl

/-- For every log file and in every run, the history is sent frame by frame, with one marker behind
it, and the live records come after; the page reads the records of the lines that match, which for a
file of `log_entry` are the values that were logged. -/
theorem history_stream (tls : Bool) (content : Str) {s₀ : Session} (hstart : start tls = .ok s₀)
    (hreached : Reached act (Reads content) s₀ s) :
    HistoryStream content s ∧ HistoryPayloads (fileRecords content) ∧
      ∀ entries : List LogEntry, content = logFile entries →
        fileRecords content = entries.map LogEntry.record := by
  have hall : Inv s ∧ Progress (fileRecords content) s ∧ Written s := by
    refine hreached.invariant
      (I := fun s => Inv s ∧ Progress (fileRecords content) s ∧ Written s)
      ⟨start_inv hstart, ?_, ?_⟩ ?_
    · obtain rfl := Except.ok.inj hstart
      exact .request (Or.inl rfl) rfl rfl rfl
    · obtain rfl := Except.ok.inj hstart
      exact ⟨rfl, fun p hp => absurd hp List.not_mem_nil⟩
    · rintro s a s' ⟨h, hp, hw⟩ hreads hstep
      exact ⟨step_inv h hstep, step_progress h hp hreads hstep, step_written h hw hstep⟩
  obtain ⟨h, hp, hw⟩ := hall
  refine ⟨?_, historyPayloads_spec (fileRecords_fits content), ?_⟩
  · refine
      { before := fun hno => ?_
        sent := fun hstreaming => ?_
        next := fun env i id fn code hreads hcall hpos hop => ?_
        written := ?_ }
    · cases hp with
      | request _ hsent => exact hsent
      | history hop => exact absurd (Or.inl hop) hno
      | marker hop => exact absurd (Or.inr hop) hno
      | live hop => exact absurd (Or.inr hop) hno
    · cases hp with
      | request hop =>
        rcases hop with hop | hop | hop <;> rcases hstreaming with hop' | hop' <;>
          exact absurd (hop.symm.trans hop') (by decide)
      | history _ hsent hacks =>
        refine ⟨0, ?_, fun hne => absurd rfl hne⟩
        rw [← hsent, ← hacks, List.take_left, List.replicate_zero, List.append_nil]
      | marker _ hsent hacks =>
        refine ⟨0, ?_, fun hne => absurd rfl hne⟩
        rw [← hsent, ← hacks, List.take_length, List.replicate_zero, List.append_nil]
      | live _ n hsent hacks =>
        refine ⟨n + 1, ?_, fun _ => hacks⟩
        rw [List.take_of_length_le (Nat.le_succ_of_le hacks)]
        exact hsent
    · have hfile : s.server.currentOp = .websocketInit →
          env.logFile.filterMap scanRecord = fileRecords content := by
        intro hinit
        rw [hreads.2 hinit]
        rfl
      obtain ⟨s', hstep, -, hstreaming, hsent⟩ := deliver_next hcall h hp hpos hop hreads.1 hfile
      exact ⟨s', hstep, hstreaming, hsent⟩
    · obtain ⟨n, hprefix⟩ := hp.sent_prefix
      refine payloads_prefix hw.payload (List.IsPrefix.trans ?_ hprefix)
      rw [hw.sent]
      exact List.prefix_append _ _
  · rintro entries rfl
    exact fileRecords_logFile entries

/-- An hour of traffic. -/
def hourEntry : LogEntry :=
  { ts := 1735689600000000000, d := 1, m := 1, y := 2025, h := 0, tx := 1024, rx := 4096 }

/-- The monitor of a site whose log file has one entry. -/
def hourEnvironment : Environment :=
  { upgradeEnvironment with
    logFile := getlines [] (logFile [hourEntry])
    scanRecord }

/-- The upgrade, the frame of the entry, the marker, and a live record. -/
def hourActions : List (Environment × SessionEvent) :=
  [.placed .readWriteHttp 0 {}, .run 0, .finish 0 1, .deliver 0, .run 0, .finish 0 1, .deliver 0,
    .run 0, .finish 0 30, .deliver 0, .run 0, .finish 0 26, .deliver 0, .run 1].map
      (hourEnvironment, ·)

theorem history_stream_hour : ∃ s₀ s, start false = .ok s₀ ∧ runActions act hourActions s₀ = .ok s ∧
    s.sent = [.writeFrame2 [hourEntry.record], .writeFrame .marker, .writeFrame .record] ∧
    HistoryStream (logFile [hourEntry]) s ∧ HistoryPayloads (fileRecords (logFile [hourEntry])) ∧
    fileRecords (logFile [hourEntry]) = [hourEntry.record] := by
  have hreads : ∀ a ∈ hourActions, ∀ s, Reads (logFile [hourEntry]) s a := by
    intro a ha s
    obtain ⟨event, -, rfl⟩ := List.mem_map.1 ha
    exact ⟨rfl, fun _ => rfl⟩
  cases hstart : start false with
  | error e => cases hstart
  | ok s₀ =>
    have hsent : ((start false).bind (runActions act hourActions)).map (·.sent) =
        .ok [.writeFrame2 [hourEntry.record], .writeFrame .marker, .writeFrame .record] := by
      decide +kernel
    rw [hstart] at hsent
    obtain ⟨s, hrun, hsent⟩ := exists_of_map_eq_ok hsent
    obtain ⟨hstream, hpayloads, hentries⟩ := history_stream false (logFile [hourEntry]) hstart
      (reached_of_runActions .start (meets_of_forall hreads _) hrun)
    exact ⟨s₀, s, rfl, hrun, hsent, hstream, hpayloads, hentries [hourEntry] rfl⟩

end Session

end LocalSoftware.BandwidthMonitor
