import IpcRelay.Common.Config

/-!
# Network addresses (`common/net_util.cpp`, the address helpers of `common/config.cpp`)

`inet_pton` and `getifaddrs` belong to the system: `NetEnv` is what they answer.
Addresses are in host order.
-/

namespace IpcRelay

/-- An element of the list of `getifaddrs`: its name, and its address if that is an IPv4 one. -/
structure IfAddr where
  name : Option Bytes
  address : Option UInt32
  deriving DecidableEq, Repr

structure NetEnv where
  /-- `inet_pton(AF_INET, …)` on the text up to its first NUL. -/
  inetPton : Bytes → Option UInt32
  /-- The list of `getifaddrs`, or the text of its error. -/
  getIfAddrs : Except Bytes (List IfAddr)

def parseIpv4 (env : NetEnv) (s : Bytes) : Except Bytes UInt32 :=
  match env.inetPton (cStr (trim s)) with
  | none => .error (quoted s ++ str " is not an IPv4 address")
  | some a => .ok a

def isMulticastIpv4 (addr : UInt32) : Bool := addr &&& 0xF0000000 = 0xE0000000

/-- The loop over the interfaces: the address of the first IPv4 element of the name, and
whether the name was seen up to there. -/
def findInterface (s : Bytes) : List IfAddr → Option UInt32 × Bool
  | [] => (none, false)
  | p :: rest =>
    if p.name ≠ some s then findInterface s rest
    else match p.address with
      | none => ((findInterface s rest).1, true)
      | some a => (some a, true)

def resolveInterfaceIpv4 (env : NetEnv) (spec : Bytes) : Except Bytes UInt32 :=
  let s := trim spec
  if s = [] ∨ s = str "any" ∨ s = str "0.0.0.0" ∨ s = str "default" then .ok 0
  else match parseIpv4 env s with
    | .ok a => .ok a
    | .error _ =>
      match env.getIfAddrs with
      | .error err => .error (str "getifaddrs failed: " ++ err)
      | .ok ifs =>
        match findInterface s ifs with
        | (some a, _) => .ok a
        | (none, true) => .error (str "interface " ++ quoted s ++ str " has no IPv4 address")
        | (none, false) => .error (quoted s ++ str " is neither an IPv4 address nor a known interface name")

/-!
Options that the bridge and the receiver check in the same words. Each reader
returns the value, or its default, and the errors it found.
-/

namespace SharedOptions

def lineText (line : Nat) : Bytes := str "(line " ++ numText line ++ str ")"

def unknownOptions (known : List Bytes) (g : ConfigSection) : Errors :=
  (g.entries.filter fun e => e.key ∉ known).map fun e =>
    str "unknown option " ++ quoted e.key ++ str " " ++ lineText e.line

def unknownSections (known : List Bytes) (file : ConfigFile) : Errors :=
  (file.sections.filter fun s => s.name ∉ known).map fun s =>
    str "unknown section [" ++ s.name ++ str "] " ++ lineText s.line

/-- The address of `multicast_group`, which must be given and be a multicast one. -/
def readGroup (env : NetEnv) (text : Bytes) : UInt32 × Errors :=
  if text = [] then (0, [str "multicast_group is required"])
  else match parseIpv4 env text with
    | .error err => (0, [str "multicast_group: " ++ err])
    | .ok a =>
      (a, if isMulticastIpv4 a then []
        else [str "multicast_group " ++ quoted text ++ str " is not a multicast address (224.0.0.0/4)"])

def readPort (g : ConfigSection) : UInt16 × Errors :=
  match g.find (str "multicast_port") with
  | none => (0, [str "multicast_port is required"])
  | some e =>
    match parseU16 e.value with
    | .error err => (0, [str "multicast_port: " ++ err])
    | .ok p => (p, if p = 0 then [str "multicast_port must be 1..65535"] else [])

def readInterface (env : NetEnv) (text : Bytes) : UInt32 × Errors :=
  match resolveInterfaceIpv4 env text with
  | .error err => (0, [str "multicast_interface: " ++ err])
  | .ok a => (a, [])

def readLogLevel (g : ConfigSection) (out : LogLevel) : LogLevel × Errors :=
  match g.find (str "log_level") with
  | none => (out, [])
  | some e =>
    match parseLogLevel e.value with
    | none => (out, [str "log_level: unknown level " ++ quoted e.value])
    | some l => (l, [])

end SharedOptions

end IpcRelay
