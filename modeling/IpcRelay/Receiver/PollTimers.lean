import IpcRelay.Receiver.PollLoop

/-!
# The timers of the receiver

The loop has three periodic duties: it sweeps the reassembler, flushes the capture
file and publishes the statistics. With a clock that does not go back each duty is
done at most once an interval and whenever an interval has passed, and each wait is
the time to the next deadline, rounded up to a millisecond (`duties_on_time`).
-/

namespace IpcRelay

open Capture Machine ReceiverConfig PolledTimer

inductive Duty where
  | sweep
  | flush
  | stats
  deriving DecidableEq, Repr

namespace Duty

/-- A flush interval of 0 turns the flush off. -/
def Enabled (cfg : ReceiverConfig) : Duty → Prop
  | .flush => 0 < cfg.captureFlushIntervalMs
  | _ => True

/-- The interval of a duty in nanoseconds. -/
def interval (cfg : ReceiverConfig) : Duty → Nat
  | .sweep => max 10 (cfg.reassemblyTimeoutMs.toNat / 4) * 1000000
  | .flush => cfg.captureFlushIntervalMs.toNat * 1000000
  | .stats => cfg.statsIntervalMs.toNat * 1000000

end Duty

def LoopReaction.did (o : LoopReaction) : Duty → Bool
  | .sweep => o.swept
  | .flush => o.flushed
  | .stats => o.published

/-- The bounds of an accepted configuration for the timers. -/
structure ReceiverConfig.Timed (cfg : ReceiverConfig) : Prop where
  stats : 10 ≤ cfg.statsIntervalMs ∧ cfg.statsIntervalMs ≤ 3600000
  flush : 0 ≤ cfg.captureFlushIntervalMs ∧ cfg.captureFlushIntervalMs ≤ 3600000

theorem ReceiverConfig.build_timed (env : NetEnv) (file : ConfigFile) : (buildReceiverConfig env file).1.Timed where
  stats := Reader.i32_range (by decide)
  flush := Reader.i32_range (by decide)

theorem ReceiverConfig.default_timed : Timed {} := ⟨by decide, by decide⟩

namespace ReceiverLoop

/-- The deadline of a duty. -/
def next (l : ReceiverLoop) : Duty → UInt64
  | .sweep => l.nextSweepNs
  | .flush => l.nextFlushNs
  | .stats => l.nextStatsNs

/-- The interval as the program computes it. -/
def stepNs (cfg : ReceiverConfig) : Duty → UInt64
  | .sweep => sweepIntervalNs cfg
  | .flush => intervalNs cfg.captureFlushIntervalMs
  | .stats => intervalNs cfg.statsIntervalMs

section Intervals

variable {cfg : ReceiverConfig} {d : Duty}

theorem intervalNs_toNat {ms : Int} (lo : 0 ≤ ms) (hi : ms ≤ 3600000) :
    (intervalNs ms).toNat = ms.toNat * 1000000 := by
  unfold intervalNs
  rw [sizeT_of_range lo (by omega), UInt64.toNat_mul, UInt64.toNat_ofNat_of_lt' (by show _ < 2 ^ 64; omega)]
  show ms.toNat * 1000000 % 2 ^ 64 = _
  omega

theorem sweepIntervalNs_toNat (sound : cfg.Sound) :
    (sweepIntervalNs cfg).toNat = max 10 (cfg.reassemblyTimeoutMs.toNat / 4) * 1000000 := by
  have range := sound.timeout
  unfold sweepIntervalNs
  rw [sizeT_of_range (by omega) (by omega), UInt64.toNat_mul]
  have quarter : (UInt64.ofNat cfg.reassemblyTimeoutMs.toNat / 4).toNat = cfg.reassemblyTimeoutMs.toNat / 4 := by
    rw [UInt64.toNat_div, UInt64.toNat_ofNat_of_lt' (by show _ < 2 ^ 64; omega)]
    rfl
  have most : (max 10 (UInt64.ofNat cfg.reassemblyTimeoutMs.toNat / 4)).toNat =
      max 10 (cfg.reassemblyTimeoutMs.toNat / 4) := by
    rw [← quarter]
    exact (UInt64.toNat_max ..)
  rw [most]
  show _ * 1000000 % 2 ^ 64 = _
  omega

/-- The program's intervals are those of the duties. -/
theorem stepNs_toNat (sound : cfg.Sound) (timed : cfg.Timed) : (stepNs cfg d).toNat = d.interval cfg := by
  cases d with
  | sweep => exact sweepIntervalNs_toNat sound
  | flush => exact intervalNs_toNat timed.flush.1 timed.flush.2
  | stats => exact intervalNs_toNat (by have := timed.stats.1; omega) timed.stats.2

theorem interval_pos (timed : cfg.Timed) (enabled : d.Enabled cfg) : 0 < d.interval cfg := by
  have stats := timed.stats
  cases d with
  | sweep => simp [Duty.interval]
  | flush =>
    have pos : 0 < cfg.captureFlushIntervalMs := enabled
    simp only [Duty.interval]
    omega
  | stats =>
    simp only [Duty.interval]
    omega

theorem interval_small (sound : cfg.Sound) (timed : cfg.Timed) : d.interval cfg < 2 ^ 62 := by
  have stats := timed.stats
  have flush := timed.flush
  have sweep := sound.timeout
  cases d <;> simp only [Duty.interval] <;> omega

end Intervals

section Deadlines

variable {cfg : ReceiverConfig} {l : ReceiverLoop} {r : LoopRound} {d : Duty}

/-- A deadline after a round that came to the timers at `now`. -/
def moved (l : ReceiverLoop) (now : UInt64) (d : Duty) : UInt64 :=
  if l.next d ≤ now then now + stepNs l.receiver.cfg d else l.next d

theorem moved_congr {m : ReceiverLoop} {now : UInt64} (deadline : m.next d = l.next d)
    (ofCfg : m.receiver.cfg = l.receiver.cfg) : m.moved now d = l.moved now d := by
  unfold moved
  rw [deadline, ofCfg]

theorem pollSweep_next (l : ReceiverLoop) (r : LoopRound) :
    (l.pollSweep r).nextSweepNs = l.moved r.now .sweep ∧ (l.pollSweep r).nextFlushNs = l.nextFlushNs ∧
      (l.pollSweep r).nextStatsNs = l.nextStatsNs ∧ (l.pollSweep r).receiver.cfg = l.receiver.cfg := by
  unfold pollSweep moved next
  split
  · exact ⟨rfl, rfl, rfl, Receiver.sweepReassembly_cfg _ _⟩
  · exact ⟨rfl, rfl, rfl, rfl⟩

theorem pollFlush_next (enabled : Duty.flush.Enabled l.receiver.cfg) :
    (l.pollFlush r).nextFlushNs = l.moved r.now .flush := by
  have due : l.flushIsDue r ↔ l.nextFlushNs ≤ r.now := and_iff_right enabled
  unfold pollFlush moved next
  simp only [due]
  split <;> rfl

theorem pollFlush_others (l : ReceiverLoop) (r : LoopRound) :
    (l.pollFlush r).nextSweepNs = l.nextSweepNs ∧ (l.pollFlush r).nextStatsNs = l.nextStatsNs ∧
      (l.pollFlush r).receiver.cfg = l.receiver.cfg := by
  unfold pollFlush
  split
  · exact ⟨rfl, rfl, (Receiver.quiet_pollFlush _ _).books.cfg⟩
  · exact ⟨rfl, rfl, rfl⟩

theorem publishStats_next (l : ReceiverLoop) (r : LoopRound) :
    (l.publishStats r).1.nextSweepNs = l.nextSweepNs ∧ (l.publishStats r).1.nextFlushNs = l.nextFlushNs := by
  unfold publishStats
  generalize l.statsJson r.monotonicNs r.realtimeNs = json
  dsimp only
  split_ifs <;> exact ⟨rfl, rfl⟩

theorem armStats_next (l : ReceiverLoop) (now : UInt64) :
    (l.armStats now).nextSweepNs = l.nextSweepNs ∧ (l.armStats now).nextFlushNs = l.nextFlushNs ∧
      (l.armStats now).nextStatsNs = now + stepNs l.receiver.cfg .stats := by
  cases l
  exact ⟨rfl, rfl, rfl⟩

theorem pollStats_next (l : ReceiverLoop) (r : LoopRound) :
    (l.pollStats r).1.nextStatsNs = l.moved r.now .stats ∧ (l.pollStats r).1.nextSweepNs = l.nextSweepNs ∧
      (l.pollStats r).1.nextFlushNs = l.nextFlushNs := by
  by_cases due : l.nextStatsNs ≤ r.now
  · have published : l.pollStats r = ((l.publishStats r).1.armStats r.now, (l.publishStats r).2) := if_pos due
    obtain ⟨sweep, flush, stats⟩ := armStats_next (l.publishStats r).1 r.now
    obtain ⟨sweep', flush'⟩ := publishStats_next l r
    rw [published]
    refine ⟨?_, sweep.trans sweep', flush.trans flush'⟩
    rw [stats, publishStats_receiver]
    exact (if_pos due).symm
  · have waits : l.pollStats r = (l, none) := if_neg due
    rw [waits]
    exact ⟨(if_neg due).symm, rfl, rfl⟩

/-- What the timers of a round do: each enabled duty that is due, and no other. -/
theorem pollTimers_next (enabled : d.Enabled l.receiver.cfg) :
    (l.pollTimers r).1.next d = l.moved r.now d ∧ (l.pollTimers r).2.did d = decide (l.next d ≤ r.now) ∧
      (l.pollTimers r).2.completed = true := by
  obtain ⟨sweep₁, flush₁, stats₁, cfg₁⟩ := pollSweep_next l r
  obtain ⟨sweep₂, stats₂, cfg₂⟩ := pollFlush_others (l.pollSweep r) r
  obtain ⟨stats₃, sweep₃, flush₃⟩ := pollStats_next ((l.pollSweep r).pollFlush r) r
  have last : (l.pollTimers r).1 = (((l.pollSweep r).pollFlush r).pollStats r).1 := rfl
  rw [last]
  cases d with
  | sweep => exact ⟨sweep₃.trans (sweep₂.trans sweep₁), rfl, rfl⟩
  | flush =>
    have enabled' : Duty.flush.Enabled (l.pollSweep r).receiver.cfg := by rw [cfg₁]; exact enabled
    refine ⟨flush₃.trans ((pollFlush_next enabled').trans (moved_congr flush₁ cfg₁)), ?_, rfl⟩
    have due : (l.pollSweep r).flushIsDue r ↔ l.nextFlushNs ≤ r.now := by
      unfold flushIsDue
      rw [flush₁]
      exact and_iff_right enabled'
    exact decide_eq_decide.2 due
  | stats =>
    have same : ((l.pollSweep r).pollFlush r).nextStatsNs = l.nextStatsNs := stats₂.trans stats₁
    exact ⟨stats₃.trans (moved_congr same (cfg₂.trans cfg₁)), decide_eq_decide.2 (by rw [same]; exact Iff.rfl), rfl⟩

end Deadlines

section Rounds

variable {cfg : ReceiverConfig} {l l' : ReceiverLoop} {r : LoopRound} {o : LoopReaction} {d : Duty}

/-- The loop is between two rounds: each deadline is ahead of the last time that the timers
were looked at, `t`, by an interval at most. -/
structure Armed (cfg : ReceiverConfig) (l : ReceiverLoop) (t : Nat) : Prop where
  sane : Receiver.Sane cfg l.receiver
  ahead : ∀ d : Duty, d.Enabled cfg → t < (l.next d).toNat
  soon : ∀ d : Duty, d.Enabled cfg → (l.next d).toNat ≤ t + d.interval cfg

/-- A wait that is neither too long nor in vain, for these deadlines. -/
structure GoodWait (cfg : ReceiverConfig) (due : Duty → Nat) (r : LoopRound) (o : LoopReaction) : Prop where
  /-- A deadline that has come is not waited for. -/
  ready : ∀ d : Duty, d.Enabled cfg → due d ≤ r.before.toNat → o.timeoutMs = 0
  /-- A wait passes no deadline, but for the rest of its last millisecond. -/
  within : o.timeoutMs ≠ 0 → ∀ d : Duty, d.Enabled cfg → r.before.toNat + o.timeoutMs * 1000000 ≤ due d + 1000000
  bounded : ∀ d : Duty, d.Enabled cfg → o.timeoutMs * 1000000 ≤ d.interval cfg + 1000000
  /-- One of the deadlines comes in it. -/
  enough : o.completed = true → ∃ d : Duty, d.Enabled cfg ∧ due d ≤ r.before.toNat + o.timeoutMs * 1000000
  /-- Timers that are looked at after the whole wait have something to do. -/
  useful : o.completed = true → r.before.toNat + o.timeoutMs * 1000000 ≤ r.now.toNat →
    ∃ d : Duty, d.Enabled cfg ∧ o.did d = true

/-- What a round does, if it is reached with a clock that has not gone back since `t`. -/
structure TimedRound (cfg : ReceiverConfig) (l l' : ReceiverLoop) (r : LoopRound) (o : LoopReaction) (t : Nat) :
    Prop where
  armed : Armed cfg l' (if o.completed then r.now.toNat else t)
  moves : ∀ (timed : cfg.Timed) (d : Duty) (enabled : d.Enabled cfg), (l'.next d).toNat =
    if o.completed then poll (fresh (interval_pos timed enabled)) (l.next d).toNat r.now.toNat else (l.next d).toNat
  does : ∀ d : Duty, d.Enabled cfg → (o.did d = true ↔ o.completed = true ∧ (l.next d).toNat ≤ r.now.toNat)
  wait : GoodWait cfg (fun d => (l.next d).toNat) r o

theorem GoodWait.congr {due due' : Duty → Nat} (good : GoodWait cfg due r o)
    (same : ∀ d : Duty, d.Enabled cfg → due' d = due d) : GoodWait cfg due' r o where
  ready d enabled := by
    rw [same d enabled]
    exact good.ready d enabled
  within waits d enabled := by
    rw [same d enabled]
    exact good.within waits d enabled
  bounded := good.bounded
  enough completed := by
    obtain ⟨d, enabled, comes⟩ := good.enough completed
    exact ⟨d, enabled, by rw [same d enabled]; exact comes⟩
  useful := good.useful

theorem nextDeadline_le (l : ReceiverLoop) (enabled : d.Enabled l.receiver.cfg) :
    l.nextDeadline.toNat ≤ (l.next d).toNat := by
  unfold nextDeadline
  dsimp only
  cases d with
  | flush =>
    have on : 0 < l.receiver.cfg.captureFlushIntervalMs := enabled
    rw [if_pos on, UInt64.toNat_min]
    exact Nat.min_le_right _ _
  | sweep => split_ifs <;> simp only [UInt64.toNat_min, next] <;> omega
  | stats => split_ifs <;> simp only [UInt64.toNat_min, next] <;> omega

theorem min_either (a b : UInt64) : min a b = a ∨ min a b = b := by
  by_cases le : a ≤ b
  · exact .inl (if_pos le)
  · exact .inr (if_neg le)

theorem nextDeadline_mem (l : ReceiverLoop) : ∃ d : Duty, d.Enabled l.receiver.cfg ∧ l.nextDeadline = l.next d := by
  have two : min l.nextStatsNs l.nextSweepNs = l.nextStatsNs ∨ min l.nextStatsNs l.nextSweepNs = l.nextSweepNs :=
    min_either _ _
  have either : ∃ d : Duty, d.Enabled l.receiver.cfg ∧ min l.nextStatsNs l.nextSweepNs = l.next d := by
    rcases two with stats | sweep
    · exact ⟨.stats, trivial, stats⟩
    · exact ⟨.sweep, trivial, sweep⟩
  unfold nextDeadline
  dsimp only
  split_ifs with on
  · rcases min_either (min l.nextStatsNs l.nextSweepNs) l.nextFlushNs with front | flush
    · rw [front]
      exact either
    · exact ⟨.flush, on, flush⟩
  · exact either

/-- The wait is the time to the next deadline, rounded up to a millisecond. -/
theorem timeoutMs_bounds (l : ReceiverLoop) (now : UInt64) :
    l.nextDeadline.toNat ≤ now.toNat + l.timeoutMs now * 1000000 ∧
      (l.timeoutMs now = 0 ∨ now.toNat + l.timeoutMs now * 1000000 ≤ l.nextDeadline.toNat + 1000000) := by
  unfold timeoutMs
  by_cases early : now < l.nextDeadline
  · have lt : now.toNat < l.nextDeadline.toNat := UInt64.lt_iff_toNat_lt.1 early
    have top := l.nextDeadline.toNat_lt
    have value : ((l.nextDeadline - now) / kNsPerMs + 1).toNat = (l.nextDeadline.toNat - now.toNat) / 1000000 + 1 := by
      rw [UInt64.toNat_add, UInt64.toNat_div, UInt64.toNat_sub_of_le _ _ (UInt64.le_of_lt early)]
      show ((l.nextDeadline.toNat - now.toNat) / 1000000 + 1) % 2 ^ 64 = _
      omega
    rw [if_pos early, value]
    omega
  · have ge : l.nextDeadline.toNat ≤ now.toNat := by
      rw [UInt64.lt_iff_toNat_lt] at early
      omega
    rw [if_neg early]
    omega

theorem goodWait {t : Nat} (armed : Armed cfg l t) (later : t ≤ r.before.toNat)
    (asked : o.timeoutMs = l.timeoutMs r.before)
    (does : ∀ d : Duty, d.Enabled cfg → o.completed = true → (l.next d).toNat ≤ r.now.toNat → o.did d = true) :
    GoodWait cfg (fun d => (l.next d).toNat) r o := by
  obtain ⟨enough, most⟩ := timeoutMs_bounds l r.before
  have ofCfg := armed.sane.ofCfg
  have first : ∀ d : Duty, d.Enabled cfg → l.nextDeadline.toNat ≤ (l.next d).toNat := fun d enabled =>
    l.nextDeadline_le (by rw [ofCfg]; exact enabled)
  obtain ⟨last, on, at_⟩ := l.nextDeadline_mem
  rw [ofCfg] at on
  rw [at_] at enough
  constructor
  · intro d enabled come
    have := first d enabled
    rw [asked]
    unfold timeoutMs
    rw [if_neg (by rw [UInt64.lt_iff_toNat_lt]; omega)]
  · intro waits d enabled
    have := first d enabled
    rw [asked] at waits ⊢
    rcases most with zero | most
    · exact absurd zero waits
    · omega
  · intro d enabled
    have := first d enabled
    have soon := armed.soon d enabled
    rw [asked]
    rcases most with zero | most <;> omega
  · intro _
    rw [asked]
    exact ⟨last, on, enough⟩
  · intro completed waited
    rw [asked] at waited
    exact ⟨last, on, does last on completed (enough.trans waited)⟩

/-- A round that does not come to the timers. -/
theorem TimedRound.of_idle {t : Nat} (armed : Armed cfg l t) (later : t ≤ r.before.toNat) (running : Bool) :
    TimedRound cfg l { l with running := running } r { timeoutMs := l.timeoutMs r.before } t where
  armed := ⟨armed.sane, armed.ahead, armed.soon⟩
  moves _ d _ := by cases d <;> rfl
  does d _ := by cases d <;> simp [LoopReaction.did]
  wait := goodWait armed later rfl fun d _ completed => by cases completed

/-- The timers, after the sockets. -/
theorem TimedRound.of_timers {t : Nat} (sound : cfg.Sound) (timed : cfg.Timed) (armed : Armed cfg l t)
    (later : t ≤ r.before.toNat) (waited : r.before.toNat ≤ r.now.toNat) (bound : r.now.toNat < 2 ^ 63)
    {m : ReceiverLoop} (sane : Receiver.Sane cfg m.receiver) (same : ∀ d, m.next d = l.next d) (running : Bool)
    (ticked : Receiver.Sane cfg (m.pollTimers r).1.receiver) :
    TimedRound cfg l { (m.pollTimers r).1 with running := running } r
      { (m.pollTimers r).2 with timeoutMs := l.timeoutMs r.before } t := by
  have completed : (m.pollTimers r).2.completed = true := rfl
  have next_running : ∀ d, ({ (m.pollTimers r).1 with running := running } : ReceiverLoop).next d =
      (m.pollTimers r).1.next d := by
    intro d
    cases d <;> rfl
  have did_timeout : ∀ d, ({ (m.pollTimers r).2 with timeoutMs := l.timeoutMs r.before } : LoopReaction).did d =
      (m.pollTimers r).2.did d := by
    intro d
    cases d <;> rfl
  have spec : ∀ d : Duty, d.Enabled cfg → ((m.pollTimers r).1.next d).toNat =
      (if (l.next d).toNat ≤ r.now.toNat then r.now.toNat + d.interval cfg else (l.next d).toNat) ∧
      ((m.pollTimers r).2.did d = true ↔ (l.next d).toNat ≤ r.now.toNat) := by
    intro d enabled
    obtain ⟨deadline, did, -⟩ := pollTimers_next (l := m) (r := r) (d := d) (by rw [sane.ofCfg]; exact enabled)
    have small := interval_small (d := d) sound timed
    have due : m.next d ≤ r.now ↔ (l.next d).toNat ≤ r.now.toNat := by rw [same d, UInt64.le_iff_toNat_le]
    rw [deadline, did, decide_eq_true_iff]
    refine ⟨?_, due⟩
    unfold moved
    by_cases come : (l.next d).toNat ≤ r.now.toNat
    · rw [if_pos (due.2 come), if_pos come, UInt64.toNat_add, sane.ofCfg, stepNs_toNat sound timed]
      exact Nat.mod_eq_of_lt (by omega)
    · rw [if_neg (fun h => come (due.1 h)), if_neg come, same d]
  refine ⟨⟨ticked, ?_, ?_⟩, ?_, ?_, ?_⟩
  · intro d enabled
    have pos := interval_pos timed enabled
    rw [next_running, (spec d enabled).1, completed, if_pos rfl]
    split <;> omega
  · intro d enabled
    have soon := armed.soon d enabled
    rw [next_running, (spec d enabled).1, completed, if_pos rfl]
    split <;> omega
  · intro timed d enabled
    rw [next_running, (spec d enabled).1, completed, if_pos rfl]
    rfl
  · intro d enabled
    rw [did_timeout, (spec d enabled).2, completed]
    exact (and_iff_right rfl).symm
  · refine goodWait armed later rfl fun d enabled _ passed => ?_
    rw [did_timeout]
    exact (spec d enabled).2.2 passed

theorem TimedRound.of_step {t : Nat} (sound : cfg.Sound) (timed : cfg.Timed) (armed : Armed cfg l t)
    (later : t ≤ r.before.toNat) (waited : r.before.toNat ≤ r.now.toNat) (bound : r.now.toNat < 2 ^ 63)
    (one : step l r = .ok (l', o)) : TimedRound cfg l l' r o t := by
  have sane' : Receiver.Sane cfg l'.receiver := by
    obtain ⟨m, p, ran, reached⟩ := step_reaches sound armed.sane (.refl l.receiver) r
    rw [one] at ran
    cases ran
    exact reached.sane sound armed.sane
  unfold step at one
  cases running : l.running with
  | false =>
    rw [running] at one
    cases one
    exact ⟨armed, fun _ d _ => rfl, fun d _ => by cases d <;> simp [LoopReaction.did],
      ⟨fun _ _ _ => rfl, fun waits => absurd rfl waits, fun d _ => by simp, fun completed => (by cases completed),
        fun completed => by cases completed⟩⟩
  | true =>
    simp only [running, Bool.not_true, Bool.false_eq_true, if_false] at one
    obtain ⟨⟨m, goesOn, p⟩, polled, rest⟩ := bind_ok.1 one
    cases rest
    unfold pollOnce at polled
    cases poll : r.poll with
    | interrupted =>
      rw [poll] at polled
      cases polled
      exact .of_idle armed later true
    | error =>
      rw [poll] at polled
      cases polled
      exact .of_idle armed later false
    | timeout =>
      rw [poll] at polled
      cases polled
      exact .of_timers sound timed armed later waited bound armed.sane (fun _ => rfl) true sane'
    | ready udp commands =>
      rw [poll] at polled
      obtain ⟨s, received, rest⟩ := bind_ok.1 polled
      cases rest
      obtain ⟨s', received', reached⟩ := receive_reaches sound armed.sane (.refl l.receiver) udp commands
      rw [received] at received'
      cases received'
      exact .of_timers sound timed armed later waited bound (m := { l with receiver := s })
        (reached.sane sound armed.sane) (fun d => by cases d <;> rfl) true sane'

end Rounds

section Runs

variable {cfg : ReceiverConfig}

/-- The times at which the timers were looked at. -/
def looks (h : List (LoopRound × LoopReaction)) : List Nat :=
  (h.filter fun x => x.2.completed).map fun x => x.1.now.toNat

/-- The times at which a duty was done. -/
def doneAt (d : Duty) (h : List (LoopRound × LoopReaction)) : List Nat :=
  (h.filter fun x => x.2.did d).map fun x => x.1.now.toNat

/-- The clock of a session from its start on. -/
def readings (now : UInt64) (rounds : List LoopRound) : List Nat :=
  now.toNat :: rounds.flatMap fun r => [r.before.toNat, r.now.toNat]

/-- A duty is done when the policy says so, and no round waits in a bad way. -/
theorem run_timed (sound : cfg.Sound) (timed : cfg.Timed) (rounds : List LoopRound) :
    ∀ {l l' : ReceiverLoop} {os : List LoopReaction} {t : Nat}, Armed cfg l t →
      (t :: rounds.flatMap fun r => [r.before.toNat, r.now.toNat]).Pairwise (· ≤ ·) →
      (∀ r ∈ rounds, r.now.toNat < 2 ^ 63) → run step l rounds = .ok (l', os) →
      (∀ (d : Duty) (enabled : d.Enabled cfg), ∀ i, doneAt d ((rounds.zip os).take i) =
        firings (fresh (interval_pos timed enabled)) (l.next d).toNat (looks ((rounds.zip os).take i))) ∧
      ∀ i x due, (rounds.zip os)[i]? = some x → (∀ (d : Duty) (enabled : d.Enabled cfg), due d =
        deadline (fresh (interval_pos timed enabled)) (l.next d).toNat (looks ((rounds.zip os).take i))) →
        GoodWait cfg due x.1 x.2 := by
  induction rounds with
  | nil =>
    intro l l' os t armed sorted bound ran
    cases ran
    exact ⟨fun d _ i => by simp [doneAt, looks], by simp⟩
  | cons r rounds ih =>
    intro l l' os t armed sorted bound ran
    obtain ⟨m, o, os', one, rest, rfl⟩ := run_cons.1 ran
    rw [List.flatMap_cons] at sorted
    obtain ⟨below, tail⟩ := List.pairwise_cons.1 sorted
    obtain ⟨least, tail'⟩ := List.pairwise_cons.1 (show (r.before.toNat :: r.now.toNat ::
      rounds.flatMap fun r => [r.before.toNat, r.now.toNat]).Pairwise (· ≤ ·) from tail)
    have later : t ≤ r.before.toNat := below _ (by simp)
    have waited : r.before.toNat ≤ r.now.toNat := least _ (by simp)
    have round := TimedRound.of_step sound timed armed later waited (bound r List.mem_cons_self) one
    have sorted' : ((if o.completed then r.now.toNat else t) ::
        rounds.flatMap fun r => [r.before.toNat, r.now.toNat]).Pairwise (· ≤ ·) := by
      split
      · exact tail'
      · exact List.pairwise_cons.2 ⟨fun u mem => below u (by simp [mem]), (List.pairwise_cons.1 tail').2⟩
    obtain ⟨fires, waits⟩ := ih round.armed sorted' (fun r mem => bound r (List.mem_cons_of_mem _ mem)) rest
    constructor
    · intro d enabled i
      cases i with
      | zero => simp [doneAt, looks]
      | succ i =>
      have here := round.does d enabled
      have moves := round.moves timed d enabled
      have later := fires d enabled i
      rw [moves] at later
      unfold doneAt looks at later ⊢
      rw [List.zip_cons_cons, List.take_succ_cons, List.filter_cons, List.filter_cons]
      cases completed : o.completed with
      | false =>
        have idle : o.did d = false := by
          rw [Bool.eq_false_iff]
          intro done
          rw [completed] at here
          exact absurd (here.1 done).1 Bool.false_ne_true
        rw [completed] at later
        simpa [idle, completed] using later
      | true =>
        rw [completed, if_pos rfl] at later
        simp only [if_true, List.map_cons, firings]
        by_cases due : (l.next d).toNat ≤ r.now.toNat
        · have did : o.did d = true := here.2 ⟨completed, due⟩
          simp only [did, if_true, List.map_cons, due, later]
        · have idle : o.did d = false := by
            rw [Bool.eq_false_iff]
            exact fun done => due (here.1 done).2
          simp only [idle, Bool.false_eq_true, if_false, due]
          exact later
    · intro i x due here deadlines
      rw [List.zip_cons_cons] at here deadlines
      cases i with
      | zero =>
        cases here
        exact round.wait.congr deadlines
      | succ i =>
        refine waits i x due here fun d enabled => ?_
        rw [deadlines d enabled, round.moves timed d enabled, List.take_succ_cons]
        unfold looks
        rw [List.filter_cons]
        split <;> rfl

theorem looks_sublist (rounds : List LoopRound) : ∀ os : List LoopReaction,
    (looks (rounds.zip os)).Sublist (rounds.flatMap fun r => [r.before.toNat, r.now.toNat]) := by
  induction rounds with
  | nil => exact fun os => List.Sublist.refl _
  | cons r rounds ih =>
    intro os
    cases os with
    | nil => exact List.nil_sublist _
    | cons o os =>
      have rest := ih os
      unfold looks at rest ⊢
      rw [List.zip_cons_cons, List.filter_cons, List.flatMap_cons]
      split
      · exact List.Sublist.cons _ (List.Sublist.cons_cons _ rest)
      · exact List.Sublist.cons _ (List.Sublist.cons _ rest)

/-- The program starts with every deadline an interval away. -/
theorem armed_init (sound : cfg.Sound) (timed : cfg.Timed) (start now : UInt64) (io : Stdio)
    (bound : now.toNat < 2 ^ 63) : Armed cfg (armTimers ((Receiver.create cfg).init io).1 start now) now.toNat ∧
      ∀ d : Duty, ((armTimers ((Receiver.create cfg).init io).1 start now).next d).toNat = now.toNat + d.interval cfg := by
  have first : (Receiver.create cfg).step (.init io) =
      .ok (((Receiver.create cfg).init io).1, .answered ((Receiver.create cfg).init io).2) := rfl
  have sane : Receiver.Sane cfg ((Receiver.create cfg).init io).1 :=
    Reaches.sane sound (Receiver.sane_create cfg) (Reaches.event (.refl _) first)
  have deadline : ∀ d : Duty,
      ((armTimers ((Receiver.create cfg).init io).1 start now).next d).toNat = now.toNat + d.interval cfg := by
    intro d
    have small := interval_small (d := d) sound timed
    have next : (armTimers ((Receiver.create cfg).init io).1 start now).next d =
        now + stepNs ((Receiver.create cfg).init io).1.cfg d := by
      cases d <;> rfl
    rw [next, sane.ofCfg, UInt64.toNat_add, stepNs_toNat sound timed]
    exact Nat.mod_eq_of_lt (by omega)
  refine ⟨⟨sane, ?_, ?_⟩, deadline⟩
  · intro d enabled
    have pos := interval_pos timed enabled
    rw [deadline]
    omega
  · intro d _
    rw [deadline]

/-- A duty of this interval that is looked at and done at these times, from `now` on. -/
structure OnTime (interval now : Nat) (looks done : List Nat) : Prop where
  first : ∀ t ∈ done, now + interval ≤ t
  spaced : done.Pairwise fun t u => t + interval ≤ u
  /-- Between two looks an interval apart it is done. -/
  punctual : ∀ a ∈ now :: looks, ∀ b ∈ looks, a + interval ≤ b → ∃ t ∈ done, a < t ∧ t ≤ b

/-- When a duty is due after some rounds: an interval after it was last done, or after the start. -/
def deadlineOf (cfg : ReceiverConfig) (now : Nat) (h : List (LoopRound × LoopReaction)) (d : Duty) : Nat :=
  (doneAt d h).getLast?.getD now + d.interval cfg

/-- With a clock that does not go back, in every run of a program that has started: each duty is done at most once an
interval and whenever one has passed, and each wait ends behind the next deadline, within a millisecond of it. -/
theorem duties_on_time (cfg : ReceiverConfig) (sound : cfg.Sound) (timed : cfg.Timed) (x : Session)
    (started : (init cfg x.sockets x.start x.now x.openIo).2 = none)
    (sorted : (readings x.now x.rounds).Pairwise (· ≤ ·)) (bound : ∀ t ∈ readings x.now x.rounds, t < 2 ^ 63) :
    ∃ l os, run step (init cfg x.sockets x.start x.now x.openIo).1 x.rounds = .ok (l, os) ∧
      (∀ d : Duty, d.Enabled cfg →
        OnTime (d.interval cfg) x.now.toNat (looks (x.rounds.zip os)) (doneAt d (x.rounds.zip os))) ∧
      ∀ i y, (x.rounds.zip os)[i]? = some y →
        GoodWait cfg (deadlineOf cfg x.now.toNat ((x.rounds.zip os).take i)) y.1 y.2 := by
  have now := bound x.now.toNat List.mem_cons_self
  obtain ⟨armed, deadline⟩ := armed_init sound timed x.start x.now x.openIo now
  have begins : (init cfg x.sockets x.start x.now x.openIo).1 =
      armTimers ((Receiver.create cfg).init x.openIo).1 x.start x.now := by
    have c := init_cases cfg x.sockets x.start x.now x.openIo
    generalize init cfg x.sockets x.start x.now x.openIo = result at c started
    cases c with
    | sockets => cases started
    | capture => cases started
    | started => rfl
  rw [begins]
  obtain ⟨l, os, ran, -⟩ := run_reaches sound x.rounds armed.sane (.refl _)
  have bounds : ∀ r ∈ x.rounds, r.now.toNat < 2 ^ 63 := fun r mem =>
    bound _ (List.mem_cons_of_mem _ (List.mem_flatMap.2 ⟨r, mem, by simp⟩))
  obtain ⟨fires, waits⟩ := run_timed sound timed x.rounds armed sorted bounds ran
  refine ⟨l, os, ran, fun d enabled => ?_, fun i y here => waits i y _ here fun d enabled => ?_⟩
  · have pos := interval_pos timed enabled
    have clock : (x.now.toNat :: looks (x.rounds.zip os)).Pairwise (· ≤ ·) :=
      sorted.sublist (List.Sublist.cons_cons _ (looks_sublist x.rounds os))
    obtain ⟨first, spaced⟩ := @fresh_spaced _ pos (x.now.toNat + d.interval cfg) (looks (x.rounds.zip os))
    have fired := fires d enabled (x.rounds.zip os).length
    rw [List.take_length, deadline d] at fired
    rw [fired]
    exact ⟨first, spaced, fun a early b late apart =>
      fires_between _ clock (by omega) (Nat.le_refl _) early late apart pos⟩
  · unfold deadlineOf
    rw [fires d enabled i, deadline d, fresh_deadline]

/-- Three seconds with two waits of a flush and statistics interval, and a poll that is interrupted. -/
theorem duties_on_time_lab : let x : Session := { rounds := [{ now := 1000000000, monotonicNs := 1000000000 },
      { before := 1000000000, poll := .interrupted, now := 1500000000 },
      { before := 1500000000, now := 2125000000 }, { before := 2125000000, now := 3000000000 }] }
    ∃ l os, run step (init {} x.sockets x.start x.now x.openIo).1 x.rounds = .ok (l, os) ∧
      (∀ d : Duty, d.Enabled {} →
        OnTime (d.interval {}) x.now.toNat (looks (x.rounds.zip os)) (doneAt d (x.rounds.zip os))) ∧
      ∀ i y, (x.rounds.zip os)[i]? = some y →
        GoodWait {} (deadlineOf {} x.now.toNat ((x.rounds.zip os).take i)) y.1 y.2 :=
  duties_on_time {} ReceiverConfig.default_sound ReceiverConfig.default_timed _ rfl (by decide) (by decide)

end Runs

end ReceiverLoop

end IpcRelay
