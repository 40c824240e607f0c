import IpcRelay.Common.NetUtil
import IpcRelay.Receiver.Reassembler

/-!
# Receiver configuration (`receiver/receiver_config.hpp`, `receiver/receiver_config.cpp`)

`buildReceiverConfig` returns the configuration with all the errors found; it
is accepted when there is none. `accepted_reassembly` is what the reassembler
relies on, `reassemblerConfig` what it is given.
-/

namespace IpcRelay

structure ReceiverConfig where
  multicastGroupText : Bytes := []
  multicastGroup : UInt32 := 0
  multicastPort : UInt16 := 0
  multicastInterfaceText : Bytes := []
  multicastInterface : UInt32 := 0
  receiveBufferBytes : Int := 4 * 1024 * 1024
  maxDatagramsPerPoll : Int := 64
  captureFile : Bytes := []
  recordOnStart : Bool := true
  captureBufferBytes : Int := 1024 * 1024
  captureFlushIntervalMs : Int := 1000
  captureSyncOnFlush : Bool := false
  reassemblyTimeoutMs : Int := 500
  reassemblyMaxPending : Int := 256
  reassemblyMaxMessageBytes : UInt32 := 16 * 1024 * 1024
  statsEndpoint : Bytes := str "tcp://*:5556"
  statsTopic : Bytes := str "stats"
  statsIntervalMs : Int := 1000
  statsPrint : Bool := false
  commandEndpoint : Bytes := str "tcp://127.0.0.1:5557"
  commandBind : Bool := false
  commandTopic : Bytes := []
  logLevel : LogLevel := .info
  deriving DecidableEq, Repr

namespace ReceiverConfig

open SharedOptions

/-- The `Reader` of the receiver. -/
def reader (sec : ConfigSection) : Reader where
  sec := sec
  errorPrefix e := if e.line > 0 then lineText e.line ++ str " " else []

def kKnownKeys : List Bytes :=
  ["multicast_group", "multicast_port", "multicast_interface", "receive_buffer_bytes", "max_datagrams_per_poll",
    "capture_file", "record_on_start", "capture_buffer_bytes", "capture_flush_interval_ms", "capture_sync_on_flush",
    "reassembly_timeout_ms", "reassembly_max_pending", "reassembly_max_message_bytes", "stats_endpoint",
    "stats_topic", "stats_interval_ms", "stats_print", "command_endpoint", "command_bind", "command_topic",
    "log_level"].map str

def validTcpEndpoint (ep : Bytes) : Bool := str "tcp://" <+: ep ∧ ep.length > 6 ∧ 58 ∈ ep.drop 6

/-- An endpoint is empty or has the form of one. -/
def checkEndpoint (key ep : Bytes) : Errors :=
  if ep ≠ [] ∧ ¬ validTcpEndpoint ep then
    [key ++ str " " ++ quoted ep ++ str " must be tcp://ADDRESS:PORT (or empty to disable)"]
  else []

/-- `build_receiver_config`: the configuration and the errors; it returns true when there are none. -/
def buildReceiverConfig (env : NetEnv) (file : ConfigFile) : ReceiverConfig × Errors :=
  let d : ReceiverConfig := {}
  let g := file.global
  let r := reader g
  let groupText := r.str (str "multicast_group") d.multicastGroupText
  let (group, groupErrors) := readGroup env groupText
  let (port, portErrors) := readPort g
  let interfaceText := r.str (str "multicast_interface") d.multicastInterfaceText
  let (interface, interfaceErrors) := readInterface env interfaceText
  let (bufferBytes, bufferErrors) := r.i32 (str "receive_buffer_bytes") d.receiveBufferBytes 0 (2 ^ 30)
  let (perPoll, perPollErrors) := r.i32 (str "max_datagrams_per_poll") d.maxDatagramsPerPoll 1 100000
  let captureFile := r.str (str "capture_file") d.captureFile
  let (record, recordErrors) := r.boolean (str "record_on_start") d.recordOnStart
  let (captureBuffer, captureBufferErrors) := r.i32 (str "capture_buffer_bytes") d.captureBufferBytes 0 (2 ^ 30)
  let (flush, flushErrors) := r.i32 (str "capture_flush_interval_ms") d.captureFlushIntervalMs 0 3600000
  let (sync, syncErrors) := r.boolean (str "capture_sync_on_flush") d.captureSyncOnFlush
  let (timeout, timeoutErrors) := r.i32 (str "reassembly_timeout_ms") d.reassemblyTimeoutMs 1 3600000
  let (maxPending, maxPendingErrors) := r.i32 (str "reassembly_max_pending") d.reassemblyMaxPending 1 1000000
  let (maxMessage, maxMessageErrors) :=
    r.u32 (str "reassembly_max_message_bytes") d.reassemblyMaxMessageBytes 1 Wire.kMaxMessageLength
  let statsEndpoint := r.str (str "stats_endpoint") d.statsEndpoint
  let statsTopic := r.str (str "stats_topic") d.statsTopic
  let (statsInterval, statsIntervalErrors) := r.i32 (str "stats_interval_ms") d.statsIntervalMs 10 3600000
  let (statsPrint, statsPrintErrors) := r.boolean (str "stats_print") d.statsPrint
  let commandEndpoint := r.str (str "command_endpoint") d.commandEndpoint
  let (commandBind, commandBindErrors) := r.boolean (str "command_bind") d.commandBind
  let commandTopic := r.str (str "command_topic") d.commandTopic
  let (logLevel, logLevelErrors) := readLogLevel g d.logLevel
  ({ multicastGroupText := groupText, multicastGroup := group, multicastPort := port,
     multicastInterfaceText := interfaceText, multicastInterface := interface, receiveBufferBytes := bufferBytes,
     maxDatagramsPerPoll := perPoll, captureFile := captureFile, recordOnStart := record,
     captureBufferBytes := captureBuffer, captureFlushIntervalMs := flush, captureSyncOnFlush := sync,
     reassemblyTimeoutMs := timeout, reassemblyMaxPending := maxPending, reassemblyMaxMessageBytes := maxMessage,
     statsEndpoint := statsEndpoint, statsTopic := statsTopic, statsIntervalMs := statsInterval,
     statsPrint := statsPrint, commandEndpoint := commandEndpoint, commandBind := commandBind,
     commandTopic := commandTopic, logLevel := logLevel },
    unknownOptions kKnownKeys g ++ unknownSections [[]] file ++ groupErrors ++ portErrors ++ interfaceErrors ++
      bufferErrors ++ perPollErrors ++ recordErrors ++
      (if captureFile = [] then [str "capture_file is required"] else []) ++ captureBufferErrors ++ flushErrors ++
      syncErrors ++ timeoutErrors ++ maxPendingErrors ++ maxMessageErrors ++
      checkEndpoint (str "stats_endpoint") statsEndpoint ++ statsIntervalErrors ++ statsPrintErrors ++
      checkEndpoint (str "command_endpoint") commandEndpoint ++ commandBindErrors ++
      (if statsEndpoint ≠ [] ∧ statsEndpoint = commandEndpoint ∧ commandBind then
        [str "stats_endpoint and command_endpoint cannot both bind the same address"] else []) ++ logLevelErrors)

def kNsPerMs : UInt64 := 1000000

/-- `static_cast<std::size_t>` of an `int`. -/
def sizeT (n : Int) : Nat := (n % 2 ^ 64).toNat

/-- `reassembler_config`. -/
def reassemblerConfig (cfg : ReceiverConfig) : Reassembler.Config where
  maxPending := sizeT cfg.reassemblyMaxPending
  timeoutNs := UInt64.ofNat (sizeT cfg.reassemblyTimeoutMs) * kNsPerMs
  maxMessageLength := cfg.reassemblyMaxMessageBytes.toNat

/-- The bounds that an accepted configuration gives the reassembler. -/
structure Sound (cfg : ReceiverConfig) : Prop where
  pending : 1 ≤ cfg.reassemblyMaxPending ∧ cfg.reassemblyMaxPending ≤ 1000000
  timeout : 1 ≤ cfg.reassemblyTimeoutMs ∧ cfg.reassemblyTimeoutMs ≤ 3600000
  message : 1 ≤ cfg.reassemblyMaxMessageBytes.toNat

/-- What `build_receiver_config` leaves in these fields is in range, accepted or not. -/
theorem build_sound (env : NetEnv) (file : ConfigFile) : (buildReceiverConfig env file).1.Sound where
  pending := Reader.i32_range (by decide)
  timeout := Reader.i32_range (by decide)
  message := (Reader.u32_range (by decide) (by decide)).1

theorem default_sound : Sound {} := ⟨by decide, by decide, by decide⟩

section Reassembly

variable {cfg : ReceiverConfig}

theorem sizeT_of_range {n : Int} (lo : 0 ≤ n) (hi : n < 2 ^ 64) : sizeT n = n.toNat := by
  rw [sizeT, Int.emod_eq_of_lt lo hi]

theorem Sound.maxPending_pos (sound : cfg.Sound) : 0 < cfg.reassemblerConfig.maxPending := by
  have := sound.pending
  show 0 < sizeT cfg.reassemblyMaxPending
  rw [sizeT_of_range (by omega) (by omega)]
  omega

/-- The timeout is the configured one in nanoseconds, without wrapping. -/
theorem Sound.timeoutNs (sound : cfg.Sound) :
    cfg.reassemblerConfig.timeoutNs.toNat = cfg.reassemblyTimeoutMs.toNat * 1000000 := by
  have := sound.timeout
  show (UInt64.ofNat (sizeT cfg.reassemblyTimeoutMs) * kNsPerMs).toNat = _
  rw [sizeT_of_range (by omega) (by omega), UInt64.toNat_mul,
    UInt64.toNat_ofNat_of_lt' (show cfg.reassemblyTimeoutMs.toNat < 2 ^ 64 by omega)]
  show cfg.reassemblyTimeoutMs.toNat * 1000000 % 2 ^ 64 = _
  omega

end Reassembly

end ReceiverConfig

end IpcRelay
