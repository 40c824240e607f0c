import IpcRelay.Common.NetUtil
import IpcRelay.Common.WireProtocol

/-!
# Bridge configuration (`bridge/bridge_config.hpp`, `bridge/bridge_config.cpp`)

`buildBridgeConfig` returns the configuration with all the errors found; it is
accepted when there is none. Every check contributes its own errors, in the
order of the source, so an accepted configuration has passed each of them:
`accepted_ids` and `accepted_datagram_size` are what the bridge relies on.
-/

namespace IpcRelay

structure BridgeSourceConfig where
  id : UInt32 := 0
  endpoint : Bytes := []
  /-- Empty: subscribe to everything. -/
  filters : List Bytes := []
  recvHwm : Int := 0
  name : Bytes := []
  deriving DecidableEq, Repr

structure BridgeConfig where
  multicastGroupText : Bytes := []
  multicastGroup : UInt32 := 0
  multicastPort : UInt16 := 0
  multicastInterfaceText : Bytes := []
  multicastInterface : UInt32 := 0
  multicastTtl : Int := 1
  multicastLoopback : Bool := true
  maxDatagramSize : UInt32 := 1400
  sendBufferBytes : Int := 4 * 1024 * 1024
  sendTimeoutMs : Int := 100
  zmqIoThreads : Int := 1
  zmqRecvHwm : Int := 10000
  maxMessagesPerPoll : Int := 32
  reconnectIvlMs : Int := 100
  statsIntervalMs : Int := 5000
  logLevel : LogLevel := .info
  sources : List BridgeSourceConfig := []
  deriving DecidableEq, Repr

namespace BridgeConfig

/-- `fragment_payload()`. -/
def fragmentPayload (cfg : BridgeConfig) : UInt32 :=
  if cfg.maxDatagramSize.toNat > Wire.kHeaderSize then cfg.maxDatagramSize - UInt32.ofNat Wire.kHeaderSize else 0

end BridgeConfig

namespace Bridge

open SharedOptions

/-- The `Reader` of the bridge. -/
def reader (sec : ConfigSection) (errorPrefix : Bytes) : Reader where
  sec := sec
  errorPrefix e := errorPrefix ++ if e.line > 0 then str " " ++ lineText e.line else []

def kKnownGlobalKeys : List Bytes :=
  ["multicast_group", "multicast_port", "multicast_interface", "multicast_ttl", "multicast_loopback",
    "max_datagram_size", "send_buffer_bytes", "send_timeout_ms", "zmq_io_threads", "zmq_recv_hwm",
    "max_messages_per_poll", "reconnect_ivl_ms", "stats_interval_ms", "log_level"].map str

def kKnownSourceKeys : List Bytes := ["id", "endpoint", "filter", "subscribe_all", "recv_hwm", "name"].map str

def unknownGlobals (g : ConfigSection) : Errors := unknownOptions kKnownGlobalKeys g

def unknownSections (file : ConfigFile) : Errors := SharedOptions.unknownSections [[], str "source"] file

/-- The `id` of a source and the ids seen after it. -/
def readId (s : ConfigSection) (errorPrefix : Bytes) (ids : List UInt32) : UInt32 × List UInt32 × Errors :=
  match s.find (str "id") with
  | none => (0, ids, [errorPrefix ++ str "id is required"])
  | some e =>
    match parseU32 e.value with
    | .error err => (0, ids, [errorPrefix ++ str "id: " ++ err])
    | .ok id =>
      if id ∈ ids then (id, ids, [errorPrefix ++ str "duplicate source id " ++ numText id.toNat])
      else (id, id :: ids, [])

/-- The `endpoint` of a source and the endpoints seen after it. -/
def readEndpoint (s : ConfigSection) (errorPrefix : Bytes) (endpoints : List Bytes) :
    Bytes × List Bytes × Errors :=
  let endpoint := ((s.get (str "endpoint")).map trim).getD []
  if endpoint = [] then ([], endpoints, [errorPrefix ++ str "endpoint is required"])
  else
    let form := if str "://" <:+: endpoint then []
      else [errorPrefix ++ str "endpoint " ++ quoted endpoint ++
        str " must be a ZeroMQ endpoint such as ipc:///run/app.sock"]
    if endpoint ∈ endpoints then
      (endpoint, endpoints, form ++ [errorPrefix ++ str "duplicate endpoint " ++ quoted endpoint])
    else (endpoint, endpoint :: endpoints, form)

/-- The filters of a source: none at all when one of them is empty or `subscribe_all` is set. -/
def readFilters (s : ConfigSection) (errorPrefix : Bytes) : List Bytes × Errors :=
  let filters := (s.entries.filter fun e => e.key = str "filter").map ConfigEntry.value
  let (subscribeAll, errors) := match s.find (str "subscribe_all") with
    | none => (false, [])
    | some e =>
      match parseBool e.value with
      | .error err => (false, [errorPrefix ++ str "subscribe_all: " ++ err])
      | .ok b => (b, [])
  (if subscribeAll ∨ [] ∈ filters then [] else filters, errors)

/-- One `[source]` section, the `index`-th, with the ids and the endpoints seen after it. -/
def readSource (index : Nat) (s : ConfigSection) (ids : List UInt32) (endpoints : List Bytes) :
    BridgeSourceConfig × List UInt32 × List Bytes × Errors :=
  let errorPrefix := str "[source] #" ++ numText index ++ str " " ++ lineText s.line ++ str ": "
  let unknown := (s.entries.filter fun e => e.key ∉ kKnownSourceKeys).map fun e =>
    errorPrefix ++ str "unknown option " ++ quoted e.key
  let (id, ids, idErrors) := readId s errorPrefix ids
  let (endpoint, endpoints, endpointErrors) := readEndpoint s errorPrefix endpoints
  let (filters, filterErrors) := readFilters s errorPrefix
  let name := (s.get (str "name")).getD []
  let (recvHwm, hwmErrors) := (reader s errorPrefix).i32 (str "recv_hwm") 0 0 10000000
  ({ id, endpoint, filters, recvHwm, name }, ids, endpoints,
    unknown ++ idErrors ++ endpointErrors ++ filterErrors ++ hwmErrors)

/-- The loop over the `[source]` sections. -/
def readSources : Nat → List ConfigSection → List UInt32 → List Bytes → List BridgeSourceConfig × Errors
  | _, [], _, _ => ([], [])
  | index, s :: rest, ids, endpoints =>
    let (src, ids, endpoints, errors) := readSource (index + 1) s ids endpoints
    let (sources, more) := readSources (index + 1) rest ids endpoints
    (src :: sources, errors ++ more)

end Bridge

open Bridge SharedOptions in
/-- `build_bridge_config`: the configuration and the errors; it returns true when there are none. -/
def buildBridgeConfig (env : NetEnv) (file : ConfigFile) : BridgeConfig × Errors :=
  let d : BridgeConfig := {}
  let g := file.global
  let r := reader g []
  let groupText := r.str (str "multicast_group") d.multicastGroupText
  let (group, groupErrors) := readGroup env groupText
  let (port, portErrors) := readPort g
  let interfaceText := r.str (str "multicast_interface") d.multicastInterfaceText
  let (interface, interfaceErrors) := readInterface env interfaceText
  let (ttl, ttlErrors) := r.i32 (str "multicast_ttl") d.multicastTtl 0 255
  let (loopback, loopbackErrors) := r.boolean (str "multicast_loopback") d.multicastLoopback
  let (size, sizeErrors) :=
    r.u32 (str "max_datagram_size") d.maxDatagramSize (Wire.kHeaderSize + 1) Wire.kMaxUdpPayload
  let (sendBuffer, sendBufferErrors) := r.i32 (str "send_buffer_bytes") d.sendBufferBytes 0 (2 ^ 30)
  let (sendTimeout, sendTimeoutErrors) := r.i32 (str "send_timeout_ms") d.sendTimeoutMs 0 60000
  let (ioThreads, ioThreadsErrors) := r.i32 (str "zmq_io_threads") d.zmqIoThreads 1 64
  let (recvHwm, recvHwmErrors) := r.i32 (str "zmq_recv_hwm") d.zmqRecvHwm 0 10000000
  let (perPoll, perPollErrors) := r.i32 (str "max_messages_per_poll") d.maxMessagesPerPoll 1 100000
  let (reconnect, reconnectErrors) := r.i32 (str "reconnect_ivl_ms") d.reconnectIvlMs 1 600000
  let (statsInterval, statsIntervalErrors) := r.i32 (str "stats_interval_ms") d.statsIntervalMs 0 3600000
  let (logLevel, logLevelErrors) := readLogLevel g d.logLevel
  let (sources, sourceErrors) := readSources 0 (file.named (str "source")) [] []
  ({ multicastGroupText := groupText, multicastGroup := group, multicastPort := port,
     multicastInterfaceText := interfaceText, multicastInterface := interface, multicastTtl := ttl,
     multicastLoopback := loopback, maxDatagramSize := size, sendBufferBytes := sendBuffer,
     sendTimeoutMs := sendTimeout, zmqIoThreads := ioThreads, zmqRecvHwm := recvHwm,
     maxMessagesPerPoll := perPoll, reconnectIvlMs := reconnect, statsIntervalMs := statsInterval,
     logLevel := logLevel, sources := sources },
    unknownGlobals g ++ unknownSections file ++ groupErrors ++ portErrors ++ interfaceErrors ++ ttlErrors ++
      loopbackErrors ++ sizeErrors ++ sendBufferErrors ++ sendTimeoutErrors ++ ioThreadsErrors ++ recvHwmErrors ++
      perPollErrors ++ reconnectErrors ++ statsIntervalErrors ++ logLevelErrors ++ sourceErrors ++
      if sources = [] then [str "at least one [source] section is required"] else [])

namespace Bridge

section Accepted

/-- A source whose section raised no error has an id that was not seen before. -/
theorem readId_ok {s : ConfigSection} {errorPrefix : Bytes} {ids ids' : List UInt32} {id : UInt32}
    (h : readId s errorPrefix ids = (id, ids', [])) : id ∉ ids ∧ ids' = id :: ids := by
  unfold readId at h
  split at h
  · simp at h
  · split at h
    · simp at h
    · split at h
      · simp at h
      · simp only [Prod.mk.injEq, and_true] at h
        obtain ⟨rfl, rfl⟩ := h
        exact ⟨‹_›, rfl⟩

theorem readSource_ok {index : Nat} {s : ConfigSection} {ids ids' : List UInt32} {endpoints endpoints' : List Bytes}
    {src : BridgeSourceConfig} (h : readSource index s ids endpoints = (src, ids', endpoints', [])) :
    src.id ∉ ids ∧ ids' = src.id :: ids := by
  simp only [readSource, Prod.mk.injEq, List.append_eq_nil_iff] at h
  obtain ⟨rfl, rfl, _, ⟨⟨⟨_, clean⟩, _⟩, _⟩, _⟩ := h
  exact readId_ok (Prod.ext rfl (Prod.ext rfl clean))

theorem readSources_ok {index : Nat} {sections : List ConfigSection} {ids : List UInt32} {endpoints : List Bytes}
    {sources : List BridgeSourceConfig} (h : readSources index sections ids endpoints = (sources, [])) :
    (sources.map BridgeSourceConfig.id).Nodup ∧ ∀ src ∈ sources, src.id ∉ ids := by
  induction sections generalizing index ids endpoints sources with
  | nil => cases h; simp
  | cons s rest ih =>
    rcases hr : readSource (index + 1) s ids endpoints with ⟨src, ids', endpoints', errors⟩
    simp only [readSources, hr, Prod.mk.injEq, List.append_eq_nil_iff] at h
    obtain ⟨rfl, rfl, more⟩ := h
    obtain ⟨new, rfl⟩ := readSource_ok hr
    obtain ⟨nodup, fresh⟩ := ih (Prod.ext rfl more)
    refine ⟨?_, ?_⟩
    · rw [List.map_cons, List.nodup_cons]
      refine ⟨?_, nodup⟩
      intro mem
      obtain ⟨other, hother, eq⟩ := List.mem_map.1 mem
      exact fresh other hother (by rw [eq]; exact List.mem_cons_self)
    · intro other hother
      rcases List.mem_cons.1 hother with rfl | hother
      · exact new
      · exact fun mem => fresh other hother (List.mem_cons_of_mem _ mem)

/-- The sources of an accepted configuration have pairwise distinct ids. -/
theorem accepted_ids {env : NetEnv} {file : ConfigFile} {cfg : BridgeConfig}
    (ok : buildBridgeConfig env file = (cfg, [])) : (cfg.sources.map BridgeSourceConfig.id).Nodup := by
  simp only [buildBridgeConfig, Prod.mk.injEq, List.append_eq_nil_iff] at ok
  obtain ⟨rfl, ⟨_, clean⟩, _⟩ := ok
  exact (readSources_ok (Prod.ext rfl clean)).1

/-- Its datagrams hold a header and at least one byte, and fit into UDP. -/
theorem accepted_datagram_size {env : NetEnv} {file : ConfigFile} {cfg : BridgeConfig}
    (ok : buildBridgeConfig env file = (cfg, [])) :
    Wire.kHeaderSize < cfg.maxDatagramSize.toNat ∧ cfg.maxDatagramSize.toNat ≤ Wire.kMaxUdpPayload := by
  simp only [buildBridgeConfig, Prod.mk.injEq] at ok
  obtain ⟨rfl, _⟩ := ok
  exact Reader.u32_range (by decide) (by decide)

theorem accepted_payload {env : NetEnv} {file : ConfigFile} {cfg : BridgeConfig}
    (ok : buildBridgeConfig env file = (cfg, [])) :
    cfg.fragmentPayload.toNat + Wire.kHeaderSize = cfg.maxDatagramSize.toNat := by
  have size := accepted_datagram_size ok
  have fits : UInt32.ofNat Wire.kHeaderSize ≤ cfg.maxDatagramSize := by
    rw [UInt32.le_iff_toNat_le]; exact size.1.le
  rw [BridgeConfig.fragmentPayload, if_pos size.1, UInt32.toNat_sub_of_le _ _ fits]
  show cfg.maxDatagramSize.toNat - 44 + 44 = _
  have : 44 < cfg.maxDatagramSize.toNat := size.1
  omega

end Accepted

end Bridge

/-- A system that knows one address and has no interfaces. -/
def labEnv : NetEnv where
  inetPton s := if s = str "239.1.1.1" then some 0xEF010101 else none
  getIfAddrs := .ok []

/-- One source, and two payload bytes per datagram. -/
def labFile : ConfigFile where
  global := { entries := [⟨str "multicast_group", str "239.1.1.1", 1⟩, ⟨str "multicast_port", str "5000", 2⟩,
    ⟨str "max_datagram_size", str "46", 3⟩] }
  rest := [{ name := str "source", line := 4,
             entries := [⟨str "id", str "7", 5⟩, ⟨str "endpoint", str "ipc:///a", 6⟩] }]

def labCfg : BridgeConfig := (buildBridgeConfig labEnv labFile).1

theorem labFile_accepted : buildBridgeConfig labEnv labFile = (labCfg, []) := Prod.ext rfl (by decide +kernel)

end IpcRelay
