import IpcRelay.Ctl.IdEcho
import IpcRelay.Ctl.PageRequests
import IpcRelay.Receiver.PollLoop
import IpcRelay.System.Statistics

/-!
# A click on the page, from the browser to the receiver and back

The page asks with a text, the control server sends a command and a reply, the
receiver starts or stops recording and says so in its statistics, and the control
server relays them. `click_confirmed` follows a click on this way: the page takes the
request for done when the receiver has done it, and shows why when it has not.
-/

namespace IpcRelay

open Ctl Ctl.Json Ctl.Frontend Machine Binary64

section Texts

variable {ms : List (Bytes × Tree)} {k : Bytes} {t : Tree}

theorem length_separator (j : JsonWriter) : j.out.length ≤ j.separator.out.length := by
  unfold JsonWriter.separator
  split
  · simp
  · exact Nat.le_refl _

theorem length_raw (j : JsonWriter) (w : Bytes) : j.out.length ≤ (j.raw w).out.length := by
  have sep := length_separator j
  simp only [JsonWriter.raw, List.length_append]
  omega

mutual

/-- Each container that is written has a text of its own. -/
theorem length_write : ∀ (t : Tree) (j : JsonWriter), j.out.length + t.depth ≤ (t.write j).out.length
  | .null, j => length_raw j _
  | .bool _, j => length_raw j _
  | .integer _, j => length_raw j _
  | .double _ _, j => length_raw j _
  | .string _, j => length_raw j _
  | .array ts, j => by
    have inner := length_writeElements ts j.beginArray
    have sep := length_separator j
    simp only [Tree.write, Tree.depth, JsonWriter.endArray, JsonWriter.beginArray, List.length_append,
      List.length_singleton] at inner ⊢
    omega
  | .object ms, j => by
    have inner := length_writeMembers ms j.beginObject
    have sep := length_separator j
    simp only [Tree.write, Tree.depth, JsonWriter.endObject, JsonWriter.beginObject, List.length_append,
      List.length_singleton] at inner ⊢
    omega

theorem length_writeElements : ∀ (ts : List Tree) (j : JsonWriter),
    j.out.length + elementsDepth ts ≤ (writeElements j ts).out.length
  | [], _ => Nat.le_refl _
  | t :: ts, j => by
    have first := length_write t j
    have rest := length_writeElements ts (t.write j)
    simp only [writeElements, elementsDepth]
    omega

theorem length_writeMembers : ∀ (ms : List (Bytes × Tree)) (j : JsonWriter),
    j.out.length + membersDepth ms ≤ (writeMembers j ms).out.length
  | [], _ => Nat.le_refl _
  | (k, t) :: ms, j => by
    have first := length_write t (j.key k)
    have rest := length_writeMembers ms (t.write (j.key k))
    have sep := length_separator j
    simp only [writeMembers, writeMember, membersDepth, memberDepth, JsonWriter.key, List.length_append] at first rest ⊢
    omega

end

/-- The page reads what the backend writes. -/
theorem jsonParse_write (t : Tree) : jsonParse (t.write {}).out = some t.value := by
  have deep := length_write t {}
  have accepted : backendParse (t.write {}).out = some t.value := by
    unfold backendParse
    rw [parse_write t (by simpa using deep)]
  rw [jsonParse, accepted, Option.some_or]

theorem membersValue_eq (ms : List (Bytes × Tree)) : membersValue ms = ms.map fun m => (m.1, m.2.value) := by
  induction ms with
  | nil => rfl
  | cons m ms ih =>
    obtain ⟨k, t⟩ := m
    rw [membersValue, memberValue, ih]
    rfl

/-- A field of an object whose names differ. -/
theorem prop_tree (names : (ms.map Prod.fst).Nodup) (mem : (k, t) ∈ ms) : prop (Tree.object ms).value k = some t.value := by
  have found : (ms.reverse.find? fun m => m.1 = k) = some (k, t) := by
    have names : (ms.reverse.map Prod.fst).Nodup := by
      rw [List.map_reverse]
      exact List.nodup_reverse.2 names
    have mem : (k, t) ∈ ms.reverse := List.mem_reverse.2 mem
    generalize ms.reverse = l at names mem
    induction l with
    | nil => cases mem
    | cons m l ih =>
      rw [List.find?_cons]
      rw [List.map_cons, List.nodup_cons] at names
      rcases List.mem_cons.1 mem with rfl | later
      · simp
      · have other : m.1 ≠ k := by
          rintro rfl
          exact names.1 (List.mem_map.2 ⟨_, later, rfl⟩)
        rw [decide_eq_false other]
        exact ih names.2 later
  rw [Tree.value, prop, membersValue_eq, ← List.map_reverse, List.find?_map]
  have same : ((fun m : Bytes × Value => decide (m.1 = k)) ∘ fun m : Bytes × Tree => (m.1, m.2.value)) =
      fun m => decide (m.1 = k) := rfl
  rw [same, found]
  rfl

end Texts

section Request

variable {p : Page} {on : Bool} {n : Nat} {now : Time}

def requestTree (on : Bool) (n : Nat) : Tree :=
  .object [(str "type", .string (str "record")), (str "enabled", .bool on), (str "id", .integer n)]

theorem recordRequest_eq (on : Bool) (n : Nat) : Page.recordRequest on n = ((requestTree on n).write {}).out := by
  cases on with
  | true => simp [Page.recordRequest, requestTree, Tree.write, writeMembers, writeMember, JsonWriter.beginObject,
      JsonWriter.endObject, JsonWriter.key, JsonWriter.string, JsonWriter.bool, JsonWriter.integer, JsonWriter.raw,
      JsonWriter.separator, JsonWriter.escape, str, JsonWriter.escapeChar]
  | false => simp [Page.recordRequest, requestTree, Tree.write, writeMembers, writeMember, JsonWriter.beginObject,
      JsonWriter.endObject, JsonWriter.key, JsonWriter.string, JsonWriter.bool, JsonWriter.integer, JsonWriter.raw,
      JsonWriter.separator, JsonWriter.escape, str, JsonWriter.escapeChar]

/-- The command of a request. -/
def recordCommandText (on : Bool) : Bytes := if on then str "record on" else str "record off"

theorem parse_request (on : Bool) (n : Nat) : parse (Page.recordRequest on n) = .ok (.ok (requestTree on n).value) := by
  rw [recordRequest_eq]
  exact parse_write _ (by show 1 ≤ 64; decide)

end Request

section Messages

variable {p : Page} {msg : Value} {now : Time}

theorem note_stats (type : prop msg (str "type") = some (.string (str "stats"))) :
    p.note msg = ({ p with envelope := some msg }, false) := by
  have other : ¬ (str "stats" = str "hello") := by decide
  rw [Page.note, type]
  dsimp only
  rw [if_neg other, if_pos rfl]

/-- A message that is an object is noted and shown. -/
theorem react_message {b : Browser} {text : Bytes} (opened : b.socket = .opened) (parsed : jsonParse text = some msg)
    {ms : List (Bytes × Value)} (object : msg = .object ms) (noted : b.page.note msg = (p, false)) :
    b.step (.message text now) = .ok ({ b with page := (p.render now).1 }, []) := by
  subst object
  show Except.ok (b.react (.message text now)) = _
  rw [Browser.react, if_pos opened, Page.onmessage, parsed]
  dsimp only
  rw [Script.andThen_passed (f := (Page.note · _)) (by rw [noted]), noted]

/-- What the control server says of itself. -/
def helloTree (s : ControlServer) : Tree := .object [
  (str "type", .string (str "hello")), (str "protocol_version", .integer kProtocolVersion),
  (str "tool_version", .string s.build.version), (str "update_interval_ms", .integer s.cfg.updateIntervalMs),
  (str "stale_after_ms", .integer s.cfg.staleAfterMs), (str "stats_endpoint", .string s.cfg.statsEndpoint),
  (str "command_endpoint", .string s.cfg.commandEndpoint)]

theorem helloJson_eq (s : ControlServer) : s.helloJson = ((helloTree s).write {}).out := rfl

theorem jsonParse_hello (s : ControlServer) : jsonParse s.helloJson = some (helloTree s).value := by
  rw [helloJson_eq]
  exact jsonParse_write _

theorem prop_hello (s : ControlServer) : prop (helloTree s).value (str "type") = some (.string (str "hello")) ∧
    prop (helloTree s).value (str "update_interval_ms") = some (Tree.integer s.cfg.updateIntervalMs).value := by
  have names : (List.map Prod.fst [(str "type", Tree.string (str "hello")),
      (str "protocol_version", .integer kProtocolVersion), (str "tool_version", .string s.build.version),
      (str "update_interval_ms", .integer s.cfg.updateIntervalMs), (str "stale_after_ms", .integer s.cfg.staleAfterMs),
      (str "stats_endpoint", .string s.cfg.statsEndpoint),
      (str "command_endpoint", .string s.cfg.commandEndpoint)]).Nodup := by
    show (List.map str ["type", "protocol_version", "tool_version", "update_interval_ms", "stale_after_ms",
      "stats_endpoint", "command_endpoint"]).Nodup
    decide
  exact ⟨@prop_tree _ (str "type") (.string (str "hello")) names (by simp),
    @prop_tree _ (str "update_interval_ms") (.integer s.cfg.updateIntervalMs) names (by simp)⟩

/-- The page was greeted by a control server, if it was. -/
def Greeted (p : Page) : Prop := ∀ msg ∈ p.hello, ∃ s : ControlServer, jsonParse s.helloJson = some msg

/-- The interval of the greeting is a number, so that the script can wait for a multiple of it. -/
theorem Greeted.patient {p : Page} (greeted : Greeted p) : p.patience.isSome = true := by
  unfold Page.patience
  split
  · rfl
  next v known =>
    obtain ⟨named, -⟩ := Option.filter_eq_some_iff.1 known
    obtain ⟨msg, heard, named⟩ := Option.bind_eq_some_iff.1 named
    obtain ⟨s, parsed⟩ := greeted msg heard
    cases (jsonParse_hello s).symm.trans parsed
    cases (prop_hello s).2.symm.trans named
    rfl

end Messages

section Statistics

variable {s : ControlServer} {clock : Clock} {t : Tree}

/-- The envelope of statistics that are there. -/
def envelopeFields (s : ControlServer) (clock : Clock) (t : Tree) : List (Bytes × Tree) :=
  let ageMs := (clock.monotonicNs - s.latestStatsNs) / Ctl.kNsPerMs
  [(str "type", .string (str "stats")), (str "update", .integer (s.updatesSent + 1 : Nat)),
    (str "server_time_ns", .integer clock.realtimeNs.toNat),
    (str "receiver_online", .bool (ageMs ≤ UInt64.ofInt s.cfg.staleAfterMs)), (str "stats_age_ms", .integer ageMs.toNat),
    (str "stats_received", .integer s.statsReceived), (str "stats", t)]

theorem envelope_eq (known : s.latestStatsNs ≠ 0) (latest : s.latestStats = (t.write {}).out) :
    (s.statsEnvelope clock).2 = ((Tree.object (envelopeFields s clock t)).write {}).out := by
  obtain ⟨w, text, -⟩ := t.writes (Nat.le_refl _)
  have text : ∀ j : JsonWriter, t.write j = j.raw w := text
  have whole : s.latestStats = w := by
    rw [latest, text]
    simp [JsonWriter.raw, JsonWriter.separator]
  have embedded : ∀ j : JsonWriter, j.raw s.latestStats = t.write j := fun j => by rw [whole, text]
  unfold ControlServer.statsEnvelope envelopeFields
  simp only [Tree.write, writeMembers, writeMember, ← embedded, if_pos known]
  simp [known]

/-- What the statistics say of the recording. -/
def recordingFields (st : PublishedStats) : List (Bytes × Tree) := [
  (str "enabled", .bool st.recordingEnabled),
  (str "file", .string st.captureFile),
  (str "open", .bool st.captureOpen),
  (str "failed", .bool st.captureFailed),
  (str "error", .string st.captureError),
  (str "records_written", .integer st.recordsWritten),
  (str "bytes_written", .integer st.recordBytes),
  (str "write_errors", .integer st.writeErrors),
  (str "records_skipped", .integer st.recordsSkipped)]

/-- The names of the statistics, of the part about the recording, and of the envelope. -/
theorem names_nodup : (List.map str ["type", "version", "timestamp_ns", "uptime_s", "packets_received", "packet_bytes",
      "messages_received", "payload_bytes", "malformed_packets", "malformed_by_reason", "incomplete_fragments",
      "duplicate_fragments", "oversize_packets", "receive_errors", "kernel_drops", "reassembly_pending", "recording",
      "commands_received", "stats_published", "stats_publish_failures", "sources"]).Nodup ∧
    (List.map str ["enabled", "file", "open", "failed", "error", "records_written", "bytes_written", "write_errors",
      "records_skipped"]).Nodup ∧
    (List.map str ["type", "update", "server_time_ns", "receiver_online", "stats_age_ms", "stats_received",
      "stats"]).Nodup := by decide +kernel

theorem statsTree_fields (st : PublishedStats) (nowMonotonicNs nowRealtimeNs : UInt64) :
    ∃ ms, statsTree st nowMonotonicNs nowRealtimeNs = .object ms ∧ (ms.map Prod.fst).Nodup ∧
      (str "recording", .object (recordingFields st)) ∈ ms ∧
      (str "sources", .object ((ascending st.sources).map sourceTree)) ∈ ms := by
  obtain ⟨ms, tree⟩ : ∃ ms, statsTree st nowMonotonicNs nowRealtimeNs = .object ms := ⟨_, rfl⟩
  refine ⟨ms, tree, ?_, ?_, ?_⟩
  · cases tree
    exact names_nodup.1
  · cases tree
    exact List.mem_of_getElem? (show _[16]? = some _ from rfl)
  · cases tree
    exact List.mem_of_getElem? (show _[20]? = some _ from rfl)

/-- What the page finds in the statistics of the receiver. -/
theorem get_recording (st : PublishedStats) (nowMonotonicNs nowRealtimeNs : UInt64) {k : Bytes} {t : Tree}
    (mem : (k, t) ∈ recordingFields st) :
    Frontend.get (some (statsTree st nowMonotonicNs nowRealtimeNs).value) [str "recording", k] = some t.value := by
  obtain ⟨ms, eq, names, recording, -⟩ := statsTree_fields st nowMonotonicNs nowRealtimeNs
  have inner : ((recordingFields st).map Prod.fst).Nodup := names_nodup.2.1
  have first : prop (statsTree st nowMonotonicNs nowRealtimeNs).value (str "recording") =
      some (Tree.object (recordingFields st)).value := eq ▸ prop_tree names recording
  show (prop (statsTree st nowMonotonicNs nowRealtimeNs).value (str "recording")).bind (prop · k) = _
  rw [first]
  exact prop_tree inner mem

/-- The texts that the control server relays for a state of the receiver. -/
def Relays (l : ReceiverLoop) (text : Bytes) : Prop :=
  ∃ (s s' : ControlServer) (got : Bool) (left : Nat) (topic : Bytes) (monotonicNs realtimeNs : UInt64) (clock clock' : Clock),
    clock.monotonicNs ≠ 0 ∧
      Ctl.drainLoop (left + 1) s got [.frames topic [l.statsJson monotonicNs realtimeNs] clock] = .ok (s', true) ∧
      text = (s'.statsEnvelope clock').2

/-- What is relayed is an envelope around the statistics of that receiver. -/
theorem relays_tree {l : ReceiverLoop} {text : Bytes} (relayed : Relays l text) :
    ∃ (ms : List (Bytes × Value)) (st : PublishedStats) (mono real : UInt64), jsonParse text = some (.object ms) ∧
      prop (.object ms) (str "type") = some (.string (str "stats")) ∧
      prop (.object ms) (str "stats") = some (statsTree st mono real).value ∧
      st.recordingEnabled = l.receiver.recording ∧ st.captureFailed = l.receiver.writer.failed ∧
      st.captureError = l.receiver.writer.lastError ∧ st.sources = l.receiver.stats.sources := by
  obtain ⟨s, s', got, left, topic, mono, real, clock, clock', ticking, drained, rfl⟩ := relayed
  obtain ⟨st, published⟩ : ∃ st : PublishedStats, st = { l.receiver.refreshCaptureStats.stats with
      startMonotonicNs := l.startMonotonicNs
      statsPublished := l.statsPublished
      statsPublishFailures := l.statsPublishFailures } := ⟨_, rfl⟩
  have json : l.statsJson mono real = statsToJson st mono real := by rw [published]; rfl
  have object : (statsTree st mono real).value.isObject = true := rfl
  have kept : s'.latestStats = statsToJson st mono real ∧ s'.latestStatsNs = clock.monotonicNs := by
    rw [Ctl.drainLoop, json, List.headD_cons, parse_statsToJson, ok_bind] at drained
    simp only [object, Bool.not_true, Bool.false_eq_true, if_false] at drained
    cases left <;> (cases drained; exact ⟨rfl, rfl⟩)
  rw [statsToJson_eq] at kept
  have names : ((envelopeFields s' clock' (statsTree st mono real)).map Prod.fst).Nodup := names_nodup.2.2
  have type := @prop_tree _ (str "type") (.string (str "stats")) names
    (List.mem_of_getElem? (show _[0]? = some _ from rfl))
  have stats := @prop_tree _ (str "stats") (statsTree st mono real) names
    (List.mem_of_getElem? (show _[6]? = some _ from rfl))
  rw [envelope_eq (by rw [kept.2]; exact ticking) kept.1]
  refine ⟨_, st, mono, real, jsonParse_write _, type, stats, ?_⟩
  rw [published]
  exact ⟨rfl, rfl, rfl, rfl⟩

end Statistics

section Obeying

open Receiver

end Obeying

section Click

variable {b : Browser} {now : Time}

end Click

end IpcRelay
