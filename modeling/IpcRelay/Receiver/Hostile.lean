import IpcRelay.Receiver.ReceiverFacts

/-!
# Hostile datagrams

Whatever bytes arrive, the receiver reads and writes inside its buffers: every
access of the model is checked, and no run of an accepted configuration faults.
-/

namespace IpcRelay.Receiver

open Wire Reassembler Capture Machine

/-- The next fragment that agrees with the entry stays inside its flags and its buffer,
and the counter has counted the flags without wrapping and can count one more. -/
structure Guarded (e : Entry) : Prop where
  index : ∀ f : Fragment, Consistent f e → f.hdr.fragmentIndex.toNat < e.received.length
  copy : ∀ f : Fragment, Consistent f e →
    f.hdr.fragmentOffset.toNat + f.hdr.fragmentLength.toNat ≤ e.buffer.length
  counted : e.fragmentsReceived.toNat = e.received.count true
  bounded : e.fragmentsReceived.toNat < e.fragmentCount.toNat
  noWrap : (e.fragmentsReceived + 1).toNat = e.fragmentsReceived.toNat + 1

theorem guarded_of_ok {e : Entry} (ok : e.Ok) : Guarded e where
  index f same := index_lt ok same
  copy f same := by
    rw [← f.payload_length]
    exact patch_in_buffer ok same
  counted := ok.counted
  bounded := ok.partly
  noWrap := received_succ ok

/-- No sequence of datagrams, clock readings, sweeps and commands makes the receiver leave
its buffers, and every pending entry is guarded against the next datagram. -/
theorem hostile_datagrams_contained (env : NetEnv) (file : ConfigFile) (cfg : ReceiverConfig)
    (accepted : ReceiverConfig.buildReceiverConfig env file = (cfg, [])) (es : List Event) :
    ∃ s rs, run step (create cfg) es = .ok (s, rs) ∧
      ∀ k e, s.reassembler.entries.lookup k = some e → Guarded e := by
  have sound : cfg.Sound := by
    have built := ReceiverConfig.build_sound env file
    rw [accepted] at built
    exact built
  obtain ⟨s, rs, ran, sane⟩ := run_ok sound es (sane_create cfg)
  exact ⟨s, rs, ran, fun k e he => guarded_of_ok (sane.inv.entryOk k e he)⟩

section Site

/-- A network whose resolver knows one address. -/
def siteEnv : NetEnv where
  inetPton s := if s = str "239.1.1.1" then some 0xEF010101 else none
  getIfAddrs := .ok []

def siteFile : ConfigFile where
  global := { entries := [⟨str "multicast_group", str "239.1.1.1", 1⟩, ⟨str "multicast_port", str "5000", 2⟩,
    ⟨str "capture_file", str "out.zmcp", 3⟩, ⟨str "reassembly_max_pending", str "1", 4⟩] }

def siteCfg : ReceiverConfig := (ReceiverConfig.buildReceiverConfig siteEnv siteFile).1

theorem siteFile_accepted : ReceiverConfig.buildReceiverConfig siteEnv siteFile = (siteCfg, []) :=
  Prod.ext rfl (by decide +kernel)

/-- A header alone, no bytes at all, and 44 bytes of the magic number over and over. -/
def hostileEvents : List Event :=
  [.datagram (encodeHeader { flags := 1, messageLength := 0xFFFFFFFF, fragmentCount := 65535 }) 0 {},
    .datagram [] 1 {}, .datagram ((List.replicate 11 (putU32le kMagic)).flatten) 2 {}, .sweep 600000000]

theorem hostile_datagrams_contained_site : ∃ s rs, run step (create siteCfg) hostileEvents = .ok (s, rs) ∧
    ∀ k e, s.reassembler.entries.lookup k = some e → Guarded e :=
  hostile_datagrams_contained siteEnv siteFile siteCfg siteFile_accepted hostileEvents

end Site

end IpcRelay.Receiver
