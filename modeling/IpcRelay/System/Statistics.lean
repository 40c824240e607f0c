import IpcRelay.Ctl.ControlServer
import IpcRelay.Ctl.JsonTree
import IpcRelay.Receiver.StatsJson

/-!
# The statistics, from the receiver to the control tool

What `stats_to_json` writes is a tree (`statsToJson_eq`), so the control tool reads
it back and keeps it, whatever the counters, the names and the texts in it are.
-/

namespace IpcRelay

open Binary64 Ctl Ctl.Json

/-- The seconds of the uptime can be printed. -/
theorem seconds_printable (ns : UInt64) : Printable (seconds ns) := by
  have small : (ns.toNat : ℚ) < 2 ^ 64 := by exact_mod_cast ns.toNat_lt
  have fits : (ns.toNat : ℚ) / (1 : Nat) < 2 ^ 1023 := by
    rw [Nat.cast_one, div_one]
    exact small.trans (pow_lt_pow_right₀ (by norm_num) (by norm_num))
  obtain ⟨m, e, rounded, le⟩ := @Double.ofRatio_le ns.toNat 1 false (by norm_num) fits
  rw [Nat.cast_one, div_one] at le
  have fits' : (m : ℚ) * 2 ^ e < 2 ^ 1023 := by
    have below : (m : ℚ) * 2 ^ e < 2 ^ 65 := by linarith
    exact below.trans (pow_lt_pow_right₀ (by norm_num) (by norm_num))
  obtain ⟨m', e', is', le'⟩ := @Double.divNat_le false m 1000000000 e (by norm_num) fits'
  rw [seconds, rounded, is']
  apply printable_of_small
  push_cast at le'
  linarith

section Tree

/-- A source as a field of the object of the sources. -/
def sourceTree (kv : UInt32 × ReceiverSourceStats) : Bytes × Tree :=
  let ss := kv.2
  (numText kv.1.toNat, .object [
    (str "packets", .integer ss.datagrams),
    (str "messages", .integer ss.messages),
    (str "payload_bytes", .integer ss.payloadBytes),
    (str "sequence_gaps", .integer ss.gapEvents),
    (str "dropped_messages", .integer ss.missing.toNat),
    (str "out_of_order", .integer ss.outOfOrder),
    (str "incomplete_fragments", .integer ss.incomplete),
    (str "duplicate_fragments", .integer ss.duplicates),
    (str "malformed_fragments", .integer ss.malformed),
    (str "records_written", .integer ss.recordsWritten),
    (str "last_sequence", .integer ss.lastSequence.toNat),
    (str "last_timestamp_ns", .integer ss.lastTimestampNs.toNat)])

/-- What the statistics say. -/
def statsTree (s : PublishedStats) (nowMonotonicNs nowRealtimeNs : UInt64) : Tree :=
  .object [
    (str "type", .string (str "ipc-relay-receiver-stats")),
    (str "version", .integer 1),
    (str "timestamp_ns", .integer nowRealtimeNs.toNat),
    (str "uptime_s", .double (seconds (nowMonotonicNs - s.startMonotonicNs)) (seconds_printable _)),
    (str "packets_received", .integer s.datagrams),
    (str "packet_bytes", .integer s.datagramBytes),
    (str "messages_received", .integer s.messages),
    (str "payload_bytes", .integer s.payloadBytes),
    (str "malformed_packets", .integer s.malformed),
    (str "malformed_by_reason", .object ((ascending s.malformedByReason).map fun kv => (kv.1, .integer kv.2))),
    (str "incomplete_fragments", .integer s.incomplete),
    (str "duplicate_fragments", .integer s.duplicates),
    (str "oversize_packets", .integer s.oversize),
    (str "receive_errors", .integer s.recvErrors),
    (str "kernel_drops", .integer s.kernelDrops),
    (str "reassembly_pending", .integer s.reassemblyPending),
    (str "recording", .object [
      (str "enabled", .bool s.recordingEnabled),
      (str "file", .string s.captureFile),
      (str "open", .bool s.captureOpen),
      (str "failed", .bool s.captureFailed),
      (str "error", .string s.captureError),
      (str "records_written", .integer s.recordsWritten),
      (str "bytes_written", .integer s.recordBytes),
      (str "write_errors", .integer s.writeErrors),
      (str "records_skipped", .integer s.recordsSkipped)]),
    (str "commands_received", .integer s.commands),
    (str "stats_published", .integer s.statsPublished),
    (str "stats_publish_failures", .integer s.statsPublishFailures),
    (str "sources", .object ((ascending s.sources).map sourceTree))]

/-- A loop that writes one field for each item. -/
theorem foldl_writeMember {α : Type} (l : List α) (f : α → Bytes × Tree) (j : JsonWriter) :
    l.foldl (fun j a => writeMember j (f a)) j = writeMembers j (l.map f) := by
  induction l generalizing j with
  | nil => rfl
  | cons a l ih => exact ih _

theorem membersDepth_map {α : Type} {d : Nat} (l : List α) (f : α → Bytes × Tree) (each : ∀ a, memberDepth (f a) ≤ d) :
    membersDepth (l.map f) ≤ d := by
  induction l with
  | nil => exact Nat.zero_le d
  | cons a l ih => exact Nat.max_le.2 ⟨each a, ih⟩

theorem statsToJson_eq (s : PublishedStats) (nowMonotonicNs nowRealtimeNs : UInt64) :
    statsToJson s nowMonotonicNs nowRealtimeNs = ((statsTree s nowMonotonicNs nowRealtimeNs).write {}).out := by
  have reasons := foldl_writeMember (ascending s.malformedByReason) fun kv => (kv.1, .integer kv.2)
  have sources := foldl_writeMember (ascending s.sources) sourceTree
  unfold statsTree
  simp only [Tree.write, writeMembers, writeMember, ← reasons, ← sources]
  rfl

theorem statsTree_depth (s : PublishedStats) (nowMonotonicNs nowRealtimeNs : UInt64) :
    (statsTree s nowMonotonicNs nowRealtimeNs).depth ≤ 3 := by
  have reasons : membersDepth ((ascending s.malformedByReason).map fun kv => (kv.1, Tree.integer kv.2)) ≤ 0 :=
    membersDepth_map _ _ fun _ => Nat.le_refl 0
  have sources : membersDepth ((ascending s.sources).map sourceTree) ≤ 1 := membersDepth_map _ _ fun _ => Nat.le_refl 1
  simp only [statsTree, Tree.depth, membersDepth, memberDepth]
  omega

end Tree

/-- The statistics are a JSON object for the control tool, with everything that they say. -/
theorem parse_statsToJson (st : PublishedStats) (nowMonotonicNs nowRealtimeNs : UInt64) :
    parse (statsToJson st nowMonotonicNs nowRealtimeNs) =
      .ok (.ok (statsTree st nowMonotonicNs nowRealtimeNs).value) := by
  rw [statsToJson_eq]
  exact parse_write _ ((statsTree_depth st nowMonotonicNs nowRealtimeNs).trans (by decide))

/-- Every tree of containers nested at most 64 deep is read back as it was written, numbers as their decimal texts;
the statistics are such a tree, and `drain_stats` keeps them. -/
theorem json_read_back : (∀ t : Tree, t.depth ≤ 64 → parse (t.write {}).out = .ok (.ok t.value)) ∧
    ∀ (st : PublishedStats) (nowMonotonicNs nowRealtimeNs : UInt64),
      let text := statsToJson st nowMonotonicNs nowRealtimeNs
      parse text = .ok (.ok (statsTree st nowMonotonicNs nowRealtimeNs).value) ∧
      ∀ (s : ControlServer) (left : Nat) (got : Bool) (first : Bytes) (rest : List Bytes) (clock : Clock)
        (answers : List StatsAnswer), rest.headD first = text →
        drainLoop (left + 1) s got (.frames first rest clock :: answers) = drainLoop left
          { s with latestStats := text, latestStatsNs := clock.monotonicNs, statsReceived := s.statsReceived + 1 }
          true answers := by
  refine ⟨fun t shallow => parse_write t shallow, fun st now now' => ⟨parse_statsToJson st now now', ?_⟩⟩
  intro s left got first rest clock answers text
  have object : (statsTree st now now').value.isObject = true := rfl
  rw [drainLoop, text, parse_statsToJson, Machine.ok_bind]
  simp only [object, Bool.not_true, Bool.false_eq_true, if_false]

/-- A tree with a control character and a quote in its strings; statistics of a file whose name is not text. -/
theorem json_read_back_lab :
    let t : Tree := .object [([0, 34], .array [.integer (-9223372036854775808), .string [255, 92], .null])]
    let st : PublishedStats := { captureFile := [10, 34, 200], malformed := 3 }
    let s := labServer
    parse (t.write {}).out = .ok (.ok t.value) ∧
      drainLoop 64 s false [.frames [] [statsToJson st 7 9] {}] = drainLoop 63
        { s with latestStats := statsToJson st 7 9, latestStatsNs := 0, statsReceived := 1 } true [] :=
  ⟨json_read_back.1 _ (by decide), (json_read_back.2 _ 7 9).2 _ 63 false [] _ _ [] rfl⟩

end IpcRelay
