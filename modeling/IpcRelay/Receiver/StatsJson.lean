import IpcRelay.Common.JsonWriter
import IpcRelay.Receiver.Receiver

/-!
# The statistics as JSON (`receiver_stats.cpp`)

`stats_to_json` writes the counters of the receiver, one object for the reasons of
malformed datagrams and one for the sources, both in the order of the keys.
-/

namespace IpcRelay

open Binary64

/-- `ReceiverStats` with the start of the program and the counts of its publications, which the machine does not keep. -/
structure PublishedStats extends ReceiverStats where
  startMonotonicNs : UInt64 := 0
  statsPublished : Nat := 0
  statsPublishFailures : Nat := 0

/-- The entries of a map, in the order of its keys. -/
def ascending {κ α : Type} [LE κ] [DecidableLE κ] (m : KeyMap κ α) : List (κ × α) :=
  (m.entries.map fun e => (e.1, e.2)).mergeSort fun a b => a.1 ≤ b.1

namespace JsonWriter

/-- A field whose value is an unsigned integer. -/
def counter (j : JsonWriter) (k : String) (v : Nat) : JsonWriter := (j.key (str k)).integer v

def flag (j : JsonWriter) (k : String) (v : Bool) : JsonWriter := (j.key (str k)).bool v

def text (j : JsonWriter) (k : String) (v : Bytes) : JsonWriter := (j.key (str k)).string v

end JsonWriter

/-- `static_cast<double>(ns) / 1e9`. -/
def seconds (ns : UInt64) : Double := (Double.ofRatio false ns.toNat 1).divNat 1000000000

/-- One source. -/
def writeSource (j : JsonWriter) (kv : UInt32 × ReceiverSourceStats) : JsonWriter :=
  let ss := kv.2
  let j := (j.key (numText kv.1.toNat)).beginObject
  let j := j.counter "packets" ss.datagrams
  let j := j.counter "messages" ss.messages
  let j := j.counter "payload_bytes" ss.payloadBytes
  let j := j.counter "sequence_gaps" ss.gapEvents
  let j := j.counter "dropped_messages" ss.missing.toNat
  let j := j.counter "out_of_order" ss.outOfOrder
  let j := j.counter "incomplete_fragments" ss.incomplete
  let j := j.counter "duplicate_fragments" ss.duplicates
  let j := j.counter "malformed_fragments" ss.malformed
  let j := j.counter "records_written" ss.recordsWritten
  let j := j.counter "last_sequence" ss.lastSequence.toNat
  let j := j.counter "last_timestamp_ns" ss.lastTimestampNs.toNat
  j.endObject

/-- `stats_to_json`. -/
def statsToJson (s : PublishedStats) (nowMonotonicNs nowRealtimeNs : UInt64) : Bytes :=
  let j := ({} : JsonWriter).beginObject
  let j := j.text "type" (str "ipc-relay-receiver-stats")
  let j := j.counter "version" 1
  let j := j.counter "timestamp_ns" nowRealtimeNs.toNat
  let j := (j.key (str "uptime_s")).double (seconds (nowMonotonicNs - s.startMonotonicNs))
  let j := j.counter "packets_received" s.datagrams
  let j := j.counter "packet_bytes" s.datagramBytes
  let j := j.counter "messages_received" s.messages
  let j := j.counter "payload_bytes" s.payloadBytes
  let j := j.counter "malformed_packets" s.malformed
  let j := (j.key (str "malformed_by_reason")).beginObject
  let j := (ascending s.malformedByReason).foldl (fun j kv => (j.key kv.1).integer kv.2) j
  let j := j.endObject
  let j := j.counter "incomplete_fragments" s.incomplete
  let j := j.counter "duplicate_fragments" s.duplicates
  let j := j.counter "oversize_packets" s.oversize
  let j := j.counter "receive_errors" s.recvErrors
  let j := j.counter "kernel_drops" s.kernelDrops
  let j := j.counter "reassembly_pending" s.reassemblyPending
  let j := (j.key (str "recording")).beginObject
  let j := j.flag "enabled" s.recordingEnabled
  let j := j.text "file" s.captureFile
  let j := j.flag "open" s.captureOpen
  let j := j.flag "failed" s.captureFailed
  let j := j.text "error" s.captureError
  let j := j.counter "records_written" s.recordsWritten
  let j := j.counter "bytes_written" s.recordBytes
  let j := j.counter "write_errors" s.writeErrors
  let j := j.counter "records_skipped" s.recordsSkipped
  let j := j.endObject
  let j := j.counter "commands_received" s.commands
  let j := j.counter "stats_published" s.statsPublished
  let j := j.counter "stats_publish_failures" s.statsPublishFailures
  let j := (j.key (str "sources")).beginObject
  let j := (ascending s.sources).foldl writeSource j
  let j := j.endObject
  let j := j.endObject
  j.out

end IpcRelay
