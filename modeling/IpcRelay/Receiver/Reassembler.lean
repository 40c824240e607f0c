import IpcRelay.Common.WireFacts
import IpcRelay.Lib.KeyMap
import IpcRelay.Lib.Machine

/-!
# Fragment reassembly (`reassembler.hpp`, `reassembler.cpp`)

`Reassembler` is the receiver's store of partly received messages: the entries
by `(source_id, sequence)`, the queue `order_` of their keys, the buffer of the
last completed message and the eviction counter. A callback is modelled by the
list of its invocations. The eviction loop of `add` ends or does not, depending
on `order_`: `makeRoom` reports the second case as `Fault.diverges`.
-/

namespace IpcRelay

open Wire

structure CompletedMessage where
  sourceId : UInt32 := 0
  sequence : UInt64 := 0
  timestampNs : UInt64 := 0
  flags : UInt16 := 0
  /-- The bytes behind the `data` pointer, of which the first `length` are the message. -/
  data : Bytes := []
  length : Nat := 0
  deriving DecidableEq, Repr

structure ExpiredMessage where
  sourceId : UInt32
  sequence : UInt64
  fragmentsReceived : UInt16
  fragmentCount : UInt16
  deriving DecidableEq, Repr

structure Key where
  sourceId : UInt32
  sequence : UInt64
  deriving DecidableEq, Repr

structure Entry where
  firstSeenNs : UInt64
  timestampNs : UInt64
  flags : UInt16
  fragmentCount : UInt16
  fragmentsReceived : UInt16
  messageLength : UInt32
  buffer : Bytes
  received : List Bool
  deriving DecidableEq, Repr

abbrev Entries := KeyMap Key Entry

structure Reassembler where
  entries : Entries := ∅
  order : List Key := []
  completed : Bytes := []
  evictions : Nat := 0

namespace Reassembler

structure Config where
  maxPending : Nat := 256
  timeoutNs : UInt64 := 500 * 1000000
  maxMessageLength : Nat := 16 * 1024 * 1024
  deriving DecidableEq, Repr

inductive Result where
  | complete
  | incomplete
  | duplicate
  | malformed
  deriving DecidableEq, Repr

/-- The result of `add` with its two output parameters. -/
structure AddOutcome where
  result : Result
  out : CompletedMessage
  newMessage : Bool
  deriving DecidableEq, Repr

/-- The result of `expire` with the invocations of its callback. -/
structure ExpireOutcome where
  expired : Nat
  notified : List ExpiredMessage
  deriving DecidableEq, Repr

/-- `pending()`. -/
def pending (s : Reassembler) : Nat := s.entries.size

def keyOf (h : Header) : Key := ⟨h.sourceId, h.sequence⟩

/-- The arguments of the callback for an entry that is dropped. -/
def expiredOf (k : Key) (e : Entry) : ExpiredMessage :=
  ⟨k.sourceId, k.sequence, e.fragmentsReceived, e.fragmentCount⟩

/-- `received[i]`. -/
def flagAt (received : List Bool) (i : Nat) : Exec Bool :=
  match received[i]? with
  | some b => .ok b
  | none => .error .outOfRange

/-- The search of `evict_oldest`: keys are popped from the front of `order_`
until one is pending. -/
def popPending (entries : Entries) : List Key → Option (Key × Entry × List Key)
  | [] => none
  | k :: rest =>
    match entries.lookup k with
    | none => popPending entries rest
    | some e => some (k, e, rest)

/-- `evict_oldest`, with the invocation of its callback. -/
def evictOldest (s : Reassembler) : Reassembler × Option ExpiredMessage :=
  match popPending s.entries s.order with
  | none => ({ s with order := [] }, none)
  | some (k, e, rest) =>
    ({ s with entries := s.entries.erase k, order := rest, evictions := s.evictions + 1 },
      some (expiredOf k e))

/-- `while (entries_.size() >= cfg_.max_pending) evict_oldest(nullptr);` with at
most `fuel` turns. -/
def makeRoomWithin (cfg : Config) : Nat → Reassembler → Exec Reassembler
  | 0, s => if s.entries.size < cfg.maxPending then .ok s else .error .diverges
  | fuel + 1, s =>
    if s.entries.size < cfg.maxPending then .ok s else makeRoomWithin cfg fuel (evictOldest s).1

/-- The eviction loop. Every turn pops a key of `order_`, and once the queue is
empty a turn changes nothing, so `order_.size()` turns decide whether it ends. -/
def makeRoom (cfg : Config) (s : Reassembler) : Exec Reassembler := makeRoomWithin cfg s.order.length s

/-- The entry that the first fragment of a message opens. -/
def openEntry (h : Header) (now : UInt64) : Entry where
  firstSeenNs := now
  timestampNs := h.timestampNs
  flags := h.flags
  fragmentCount := h.fragmentCount
  fragmentsReceived := 0
  messageLength := h.messageLength
  buffer := List.replicate h.messageLength.toNat 0
  received := List.replicate h.fragmentCount.toNat false

/-- `if (hdr.fragment_length > 0) memcpy(e.buffer.data() + hdr.fragment_offset, payload, hdr.fragment_length);` -/
def copyPayload (buffer : Bytes) (h : Header) (payload : Bytes) : Exec Bytes :=
  if h.fragmentLength > 0 then memcpy buffer h.fragmentOffset.toNat payload h.fragmentLength.toNat
  else .ok buffer

/-- The second half of `add`: the fragment meets the entry of its key, which is in the map. -/
def addToEntry (s : Reassembler) (h : Header) (payload : Bytes) (e : Entry) (newMessage : Bool) :
    Exec (Reassembler × AddOutcome) := do
  let key := keyOf h
  if h.fragmentCount ≠ e.fragmentCount ∨ h.messageLength ≠ e.messageLength then
    .ok ({ s with entries := s.entries.erase key }, ⟨.malformed, {}, newMessage⟩)
  else if ← flagAt e.received h.fragmentIndex.toNat then
    .ok (s, ⟨.duplicate, {}, newMessage⟩)
  else do
    let e := { e with buffer := ← copyPayload e.buffer h payload }
    let e := { e with received := e.received.set h.fragmentIndex.toNat true }
    let e := { e with fragmentsReceived := e.fragmentsReceived + 1 }
    if e.fragmentsReceived < e.fragmentCount then
      .ok ({ s with entries := s.entries.insert key e }, ⟨.incomplete, {}, newMessage⟩)
    else
      .ok ({ s with entries := s.entries.erase key, completed := e.buffer },
        ⟨.complete,
          { sourceId := h.sourceId, sequence := h.sequence, timestampNs := e.timestampNs, flags := e.flags,
            data := e.buffer, length := e.buffer.length }, newMessage⟩)

/-- `add`. -/
def add (cfg : Config) (s : Reassembler) (h : Header) (payload : Bytes) (now : UInt64) :
    Exec (Reassembler × AddOutcome) :=
  if h.fragmentCount = 1 then
    .ok (s, ⟨.complete,
      { sourceId := h.sourceId, sequence := h.sequence, timestampNs := h.timestampNs, flags := h.flags,
        data := payload, length := h.fragmentLength.toNat }, true⟩)
  else if h.messageLength.toNat > cfg.maxMessageLength then
    .ok (s, ⟨.malformed, {}, false⟩)
  else
    match s.entries.lookup (keyOf h) with
    | some e => addToEntry s h payload e false
    | none => do
      let s ← makeRoom cfg s
      let e := openEntry h now
      let s := { s with entries := s.entries.insert (keyOf h) e, order := s.order ++ [keyOf h] }
      addToEntry s h payload e true

/-- The loop of `expire` on the queue and the map, with the invocations of the callback. -/
def expireLoop (cfg : Config) (now : UInt64) : List Key → Entries → List Key × Entries × ExpireOutcome
  | [], entries => ([], entries, ⟨0, []⟩)
  | k :: rest, entries =>
    match entries.lookup k with
    | none => expireLoop cfg now rest entries
    | some e =>
      if now - e.firstSeenNs < cfg.timeoutNs then (k :: rest, entries, ⟨0, []⟩)
      else
        let (order, entries', out) := expireLoop cfg now rest (entries.erase k)
        (order, entries', ⟨out.expired + 1, expiredOf k e :: out.notified⟩)

/-- `order_` without the keys that are no longer pending, once it has grown long. -/
def compact (order : List Key) (entries : Entries) : List Key :=
  if order.length > entries.size * 4 + 64 then order.filter fun k => (entries.lookup k).isSome else order

/-- `expire`. -/
def expire (cfg : Config) (s : Reassembler) (now : UInt64) : Reassembler × ExpireOutcome :=
  let (order, entries, out) := expireLoop cfg now s.order s.entries
  ({ s with entries := entries, order := compact order entries }, out)

/-- A call on the reassembler; fragments come from `parse_datagram`. -/
inductive Op where
  | add (f : Fragment) (now : UInt64)
  | expire (now : UInt64)

inductive Outcome where
  | added (o : AddOutcome)
  | expired (o : ExpireOutcome)
  deriving DecidableEq

/-- The clock value a call is made with. -/
def Op.time : Op → UInt64
  | .add _ now => now
  | .expire now => now

/-- One call. -/
def step (cfg : Config) (s : Reassembler) : Op → Exec (Reassembler × Outcome)
  | .add f now => do
      let (s', o) ← add cfg s f.hdr f.payload now
      .ok (s', .added o)
  | .expire now =>
      let (s', o) := expire cfg s now
      .ok (s', .expired o)

end Reassembler

end IpcRelay
