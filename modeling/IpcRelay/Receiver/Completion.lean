import IpcRelay.Receiver.Assembly

/-!
# What a completed message contains

Two results about every run on accepted fragments, whoever sent them. The
payload of a completed message is the zero-filled buffer overlaid with the
fragments taken in since the entry was opened (`completed_payload`); completion
counts fragments, so a position that none of them covers keeps its zero. The
fragments agree on what the store compares, and the time stamp and the flags
are those of the fragment that opened the entry (`completed_header`).
-/

namespace IpcRelay.Reassembler

open Wire Overlay Machine

section Results

variable {cfg : Config}

/-- A completing call in a run, with the entry behind the message. -/
theorem completed_at {ops : List Op} {os : List Outcome} {s : Reassembler} {i : Nat} {f : Fragment} {now : UInt64}
    {o : AddOutcome} (pos : 0 < cfg.maxPending) (ran : run (step cfg) {} ops = .ok (s, os))
    (hi : (ops.zip os)[i]? = some (.add f now, .added o)) (several : f.Several) (complete : o.result = .complete) :
    ∃ e, Holds f.key e (sinceOpened f.key ((ops.zip os).take (i + 1))) ∧ o.out = completedOf f.key e ∧
      e.fragmentsReceived.toNat = e.fragmentCount.toNat ∧ Consistent f e := by
  obtain ⟨u, u', _, hs, before, split⟩ := run_at ran hi
  obtain ⟨inv, tracked⟩ := tracked_of_trace pos before
  rw [split]
  cases stepCase_of_step inv pos hs with
  | add c => exact completed_holds inv tracked c several complete

/-- The payload of a completed message is made of the fragments taken in since its
entry was opened, one for each index; a position that none covers is still zero. -/
theorem completed_payload (cfg : Config) (pos : 0 < cfg.maxPending) (ops : List Op) :
    ∃ s os, run (step cfg) {} ops = .ok (s, os) ∧
      ∀ i f now o, (ops.zip os)[i]? = some (.add f now, .added o) → f.Several → o.result = .complete →
        let held := sinceOpened f.key ((ops.zip os).take (i + 1))
        (∀ a ∈ held, a.frag.key = f.key) ∧
        (held.map Arrival.index).Perm (List.range f.hdr.fragmentCount.toNat) ∧
        o.out.length = f.hdr.messageLength.toNat ∧ o.out.data.length = o.out.length ∧
        o.out.data = overlay (List.replicate o.out.length 0) (held.map Arrival.patch) ∧
        ∀ p < o.out.length,
          (∃ a ∈ held, a.patch.Covers p ∧ o.out.data[p]? = a.patch.data[p - a.patch.off]?) ∨
            (∀ a ∈ held, ¬ a.patch.Covers p) ∧ o.out.data[p]? = some 0 := by
  obtain ⟨s, os, ran, _⟩ := run_ok pos ops (inv_init cfg)
  refine ⟨s, os, ran, ?_⟩
  intro i f now o hi several complete held
  obtain ⟨e, holds, hout, full, count, length⟩ := completed_at pos ran hi several complete
  have len : o.out.length = e.messageLength.toNat := by rw [hout]; exact holds.buffer_length
  have data : o.out.data = e.buffer := by rw [hout]; rfl
  refine ⟨holds.key, ?_, ?_, ?_, ?_, ?_⟩
  · rw [count]; exact holds.full full
  · rw [len, length]
  · rw [data, len]; exact holds.buffer_length
  · rw [data, len]; exact holds.buffer
  · intro p hp
    rw [data]
    exact holds.byte (by omega)

/-- The fragments behind a completed message agree on the association key, on the fragment
count and on the message length, and they all carry the FRAGMENTED flag; time stamp and
flags of the message are those of the fragment that opened the entry. -/
theorem completed_header (cfg : Config) (pos : 0 < cfg.maxPending) (ops : List Op) :
    ∃ s os, run (step cfg) {} ops = .ok (s, os) ∧
      ∀ i f now o, (ops.zip os)[i]? = some (.add f now, .added o) → f.Several → o.result = .complete →
        let held := sinceOpened f.key ((ops.zip os).take (i + 1))
        o.out.data = overlay (List.replicate o.out.length 0) (held.map Arrival.patch) ∧
        (∀ a ∈ held, a.frag.hdr.sourceId = o.out.sourceId ∧ a.frag.hdr.sequence = o.out.sequence ∧
          a.frag.hdr.fragmentCount = f.hdr.fragmentCount ∧ a.frag.hdr.messageLength = f.hdr.messageLength ∧
          a.frag.hdr.flags &&& kFlagFragmented ≠ 0) ∧
        ∃ a rest, held = a :: rest ∧ o.out.timestampNs = a.frag.hdr.timestampNs ∧ o.out.flags = a.frag.hdr.flags := by
  obtain ⟨s, os, ran, _⟩ := run_ok pos ops (inv_init cfg)
  refine ⟨s, os, ran, ?_⟩
  intro i f now o hi several complete held
  obtain ⟨e, holds, hout, _, count, length⟩ := completed_at pos ran hi several complete
  rw [hout]
  refine ⟨?_, ?_, ?_⟩
  · show e.buffer = overlay (List.replicate e.buffer.length 0) _
    rw [holds.buffer_length]
    exact holds.buffer
  · intro a ha
    have key := holds.key a ha
    have same := holds.same a ha
    refine ⟨congrArg Key.sourceId key, congrArg Key.sequence key, same.1.trans count.symm, same.2.trans length.symm, ?_⟩
    intro flag
    exact holds.several a ha (a.frag.valid.flag.1 flag)
  · obtain ⟨a, rest, hheld, _, stamp, flags⟩ := holds.first
    exact ⟨a, rest, hheld, stamp, flags⟩

end Results

section Runs

/-- The first byte of a message of ten. -/
def firstByte : Fragment :=
  .encode { flags := 1, messageLength := 10, timestampNs := 3, fragmentCount := 2, fragmentLength := 1 } [7]
    rfl (by decide +kernel) rfl

/-- Its last byte, as the second and last fragment, of another time and MULTIPART. -/
def lastByte : Fragment :=
  .encode { flags := 3, messageLength := 10, timestampNs := 4, fragmentOffset := 9, fragmentIndex := 1,
            fragmentCount := 2, fragmentLength := 1 } [8] rfl (by decide +kernel) rfl

def shortRun : List Op := [.add firstByte 0, .add lastByte 0]

/-- What `add` returns for the two. -/
def shortOutcomes : List Outcome :=
  [.added ⟨.incomplete, {}, true⟩,
    .added ⟨.complete, { timestampNs := 3, flags := 1, data := [7, 0, 0, 0, 0, 0, 0, 0, 0, 8], length := 10 }, false⟩]

theorem shortRun_outcomes : observations (step {}) {} shortRun = some shortOutcomes := by decide +kernel

theorem completed_payload_short : ∃ s os o, run (step {}) {} shortRun = .ok (s, os) ∧
    (shortRun.zip os)[1]? = some (.add lastByte 0, .added o) ∧ o.result = .complete ∧
    ((sinceOpened lastByte.key ((shortRun.zip os).take 2)).map Arrival.index).Perm [0, 1] := by
  obtain ⟨s, os, ran, all⟩ := completed_payload {} (by decide) shortRun
  obtain rfl := observations_of_run ran shortRun_outcomes
  exact ⟨s, _, _, ran, rfl, rfl, (all 1 lastByte 0 _ rfl (by decide +kernel) rfl).2.1⟩

theorem completed_header_short : ∃ s os o, run (step {}) {} shortRun = .ok (s, os) ∧
    (shortRun.zip os)[1]? = some (.add lastByte 0, .added o) ∧ o.result = .complete ∧
    ∃ a ∈ sinceOpened lastByte.key ((shortRun.zip os).take 2), o.out.timestampNs = a.frag.hdr.timestampNs := by
  obtain ⟨s, os, ran, all⟩ := completed_header {} (by decide) shortRun
  obtain rfl := observations_of_run ran shortRun_outcomes
  obtain ⟨_, _, a, rest, held, stamp, _⟩ := all 1 lastByte 0 _ rfl (by decide +kernel) rfl
  exact ⟨s, _, _, ran, rfl, rfl, a, by rw [held]; simp, stamp⟩

/-- It is false that every byte of a completed message was carried by a fragment of its
key: two short fragments complete a message of ten bytes. -/
theorem uncovered_bytes_complete :
    ¬ ∀ (cfg : Config) (ops : List Op) (s : Reassembler) (os : List Outcome), 0 < cfg.maxPending →
      run (step cfg) {} ops = .ok (s, os) →
      ∀ i f now o, (ops.zip os)[i]? = some (.add f now, .added o) → f.Several → o.result = .complete →
        ∀ p < o.out.length, ∃ g now', Op.add g now' ∈ ops.take (i + 1) ∧ g.key = f.key ∧ g.patch.Covers p := by
  intro always
  obtain ⟨s, ran⟩ := run_of_observations shortRun_outcomes
  obtain ⟨g, now', mem, _, covers⟩ :=
    always {} shortRun s _ (by decide) ran 1 lastByte 0 _ rfl (by decide +kernel) rfl 5 (by decide)
  simp only [shortRun, List.take_succ_cons, List.take_zero, List.mem_cons, Op.add.injEq, List.not_mem_nil,
    or_false] at mem
  rcases mem with ⟨rfl, _⟩ | ⟨rfl, _⟩
  · exact absurd covers (by decide +kernel)
  · exact absurd covers (by decide +kernel)

/-- It is false that the fragments of a completed message carry its time stamp and its
flags: the second one here has others. -/
theorem other_stamp_completes :
    ¬ ∀ (cfg : Config) (ops : List Op) (s : Reassembler) (os : List Outcome), 0 < cfg.maxPending →
      run (step cfg) {} ops = .ok (s, os) →
      ∀ i f now o, (ops.zip os)[i]? = some (.add f now, .added o) → f.Several → o.result = .complete →
        ∀ a ∈ sinceOpened f.key ((ops.zip os).take (i + 1)),
          a.frag.hdr.timestampNs = o.out.timestampNs ∧ a.frag.hdr.flags = o.out.flags := by
  intro always
  obtain ⟨s, ran⟩ := run_of_observations shortRun_outcomes
  have all := always {} shortRun s _ (by decide) ran 1 lastByte 0 _ rfl (by decide +kernel) rfl
  have held : sinceOpened lastByte.key ((shortRun.zip shortOutcomes).take 2) = [⟨firstByte, 0⟩, ⟨lastByte, 0⟩] := rfl
  have stamp := (all ⟨lastByte, 0⟩ (by rw [held]; simp)).1
  exact absurd stamp (by decide +kernel)

end Runs

end IpcRelay.Reassembler
