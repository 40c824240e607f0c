import IpcRelay.Ctl.FrameCodec
import IpcRelay.Ctl.Replies

/-!
# What a browser reads

`serverFrames` reads the server's side of a WebSocket as RFC 6455 has it. Behind
the response to the upgrade the server has sent such frames, and a close frame
is the last of them (`server_stream`), unless a client's close frame has a
payload of one byte, which is sent back, or the shutdown finds a WebSocket that
is being closed, which is sent a second close frame.
-/

namespace IpcRelay.Ctl

open WsOpcode Machine Incremental

section Reader

/-- The payload length of a frame without a mask, and what follows it. -/
def readExtent : Bytes → Option (Nat × Bytes)
  | [] => none
  | b :: rest =>
    if b < 126 then some (b.toNat, rest)
    else if b = 126 then
      if 2 ≤ rest.length then some (bigEndian (rest.take 2), rest.drop 2) else none
    else if b = 127 then
      if 8 ≤ rest.length ∧ bigEndian (rest.take 8) < 2 ^ 63 then some (bigEndian (rest.take 8), rest.drop 8) else none
    else none

/-- A frame at the front with its FIN bit, no reserved bits and no mask: its opcode, its payload, and what follows it. -/
def serverFrame : Bytes → Option (UInt8 × Bytes × Bytes)
  | [] => none
  | b :: rest =>
    if b &&& 0xF0 = 0x80 then
      match readExtent rest with
      | some (n, rest) => if n ≤ rest.length then some (b &&& 0x0F, rest.take n, rest.drop n) else none
      | none => none
    else none

def serverFramesFrom : Nat → Bytes → Option (List (UInt8 × Bytes))
  | _, [] => some []
  | 0, _ => none
  | fuel + 1, bytes =>
    match serverFrame bytes with
    | some (opcode, p, rest) => (serverFramesFrom fuel rest).map fun frames => (opcode, p) :: frames
    | none => none

/-- The frames of a stream that is a concatenation of frames. -/
def serverFrames (bytes : Bytes) : Option (List (UInt8 × Bytes)) := serverFramesFrom bytes.length bytes

/-- What a server may send. -/
structure WellFormed (frames : List (UInt8 × Bytes)) : Prop where
  opcodes : ∀ f ∈ frames, f.1 ∈ [kText, kPong, kClose]
  control : ∀ f ∈ frames, f.1 ≠ kText → f.2.length ≤ 125
  /-- A close frame has a status code or no payload. -/
  status : ∀ f ∈ frames, f.1 = kClose → f.2.length ≠ 1
  /-- Nothing follows a close frame. -/
  last : ∀ f ∈ frames.dropLast, f.1 ≠ kClose

variable {n : Nat} {opcode : UInt8} {p : Bytes}

theorem readExtent_lengthField (rest : Bytes) (fits : n < 2 ^ 63) : readExtent (lengthField n ++ rest) = some (n, rest) := by
  rw [lengthField_eq (by omega)]
  split
  next short =>
    have value : (UInt8.ofNat n).toNat = n := UInt8.toNat_ofNat_of_lt' (by show _ < 256; omega)
    have low : UInt8.ofNat n < 126 := by
      rw [UInt8.lt_iff_toNat_lt, value]
      exact short
    simp only [List.cons_append, List.nil_append, readExtent, if_pos low, value]
  · split
    next medium =>
      have read := bigEndian_bytes (k := 2) (n := n) (by omega)
      have size := length_bigEndianBytes 2 n
      simp only [List.cons_append, readExtent]
      rw [if_neg (by decide), if_pos trivial, if_pos (by rw [List.length_append]; omega), List.take_left' size,
        List.drop_left' size, read]
    next =>
      have read := bigEndian_bytes (k := 8) (n := n) (by omega)
      have size := length_bigEndianBytes 8 n
      simp only [List.cons_append, readExtent]
      rw [if_neg (by decide), if_neg (by decide), if_pos trivial, List.take_left' size, List.drop_left' size, read,
        if_pos ⟨by rw [List.length_append]; omega, fits⟩]

/-- What the server encodes is read as a frame. -/
theorem serverFrame_encode (rest : Bytes) (known : opcode ∈ [kText, kPong, kClose]) (fits : p.length < 2 ^ 63) :
    serverFrame (wsEncodeFrame opcode p ++ rest) = some (opcode, p, rest) := by
  have bits : ∀ opcode ∈ [kText, kPong, kClose], (0x80 ||| opcode &&& 0x0F) &&& 0xF0 = 0x80 ∧
      (0x80 ||| opcode &&& 0x0F) &&& 0x0F = opcode := by decide +kernel
  obtain ⟨fin, same⟩ := bits opcode known
  have extent := readExtent_lengthField (p ++ rest) fits
  rw [← List.append_assoc] at extent
  simp only [wsEncodeFrame, List.cons_append, serverFrame, fin, if_true, extent, same]
  rw [if_pos (by rw [List.length_append]; omega), List.take_left, List.drop_left]

example : serverFrame (wsEncodeFrame kText (str "hi") ++ [1]) = some (kText, str "hi", [1]) := by decide +kernel

/-- A sequence of frames is read back. -/
theorem serverFrames_encode {frames : List (UInt8 × Bytes)} (known : ∀ f ∈ frames, f.1 ∈ [kText, kPong, kClose])
    (fits : ∀ f ∈ frames, f.2.length < 2 ^ 63) : serverFrames (frames.flatMap fun f => wsEncodeFrame f.1 f.2) = some frames := by
  have from_ (fuel : Nat) (enough : frames.length ≤ fuel) :
      serverFramesFrom fuel (frames.flatMap fun f => wsEncodeFrame f.1 f.2) = some frames := by
    induction frames generalizing fuel with
    | nil => cases fuel <;> rfl
    | cons f frames ih =>
      obtain ⟨fuel, rfl⟩ : ∃ k, fuel = k + 1 := ⟨fuel - 1, by rw [List.length_cons] at enough; omega⟩
      have front := serverFrame_encode (frames.flatMap fun f => wsEncodeFrame f.1 f.2)
        (known f (List.mem_cons_self ..)) (fits f (List.mem_cons_self ..))
      have others := ih (fun f mem => known f (List.mem_cons_of_mem _ mem)) (fun f mem => fits f (List.mem_cons_of_mem _ mem))
        fuel (Nat.le_of_succ_le_succ enough)
      rw [List.flatMap_cons]
      rw [wsEncodeFrame, List.cons_append] at front ⊢
      rw [serverFramesFrom]
      · simp only [front, others, Option.map_some]
      · exact List.cons_ne_nil _ _
  apply from_
  clear from_ known fits
  induction frames with
  | nil => exact Nat.le_refl 0
  | cons f frames ih =>
    rw [List.flatMap_cons, List.length_append, wsEncodeFrame, List.length_cons, List.length_append, List.length_cons]
    omega

end Reader

section Stream

variable {S : ControlServer → Prop} {c : Client} {rs before after : List Reaction} {key : Bytes}

/-- The frames that are sent, in order. -/
def framesOf (rs : List Reaction) : List (UInt8 × Bytes) := rs.filterMap fun
  | .frame opcode p => some (opcode, p)
  | _ => none

theorem mem_framesOf {opcode : UInt8} {p : Bytes} : (opcode, p) ∈ framesOf rs ↔ .frame opcode p ∈ rs := by
  unfold framesOf
  rw [List.mem_filterMap]
  constructor
  · rintro ⟨r, mem, eq⟩
    cases r with
    | frame opcode' p' =>
      cases eq
      exact mem
    | _ => cases eq
  · exact fun mem => ⟨_, mem, rfl⟩

/-- A reaction that is no response. -/
def Reaction.framed : Reaction → Bool
  | .frame .. | .received _ | .command .. => true
  | _ => false

/-- While a WebSocket is open, what is appended are frames. -/
theorem bytes_framesOf (framed : ∀ r ∈ rs, r.framed) :
    rs.flatMap Reaction.bytes = (framesOf rs).flatMap fun f => wsEncodeFrame f.1 f.2 := by
  induction rs with
  | nil => rfl
  | cons r rs ih =>
    have rest := ih fun r mem => framed r (List.mem_cons_of_mem _ mem)
    have first := framed r (List.mem_cons_self ..)
    rw [List.flatMap_cons, rest]
    cases r with
    | frame opcode p => rfl
    | received data => rfl
    | command text frames error => rfl
    | _ => cases first

theorem ofOpen_framed {r : Reaction} (h : r.ofOpen) : r.framed := by
  cases r with
  | frame | received | command => rfl
  | _ => cases h

/-- What comes behind the upgrade, and is a close frame there, is the last. -/
structure Behind (after : List Reaction) : Prop where
  framed : ∀ r ∈ after, r.framed
  last : ∀ f ∈ (framesOf after).dropLast, f.1 ≠ kClose

theorem Shape.behind {ws closing : Bool} (h : Shape ws closing rs) (split : rs = before ++ .upgraded key :: after) :
    Behind after := by
  -- the upgrade is at one place
  have same {first second : List Reaction} {key' : Bytes} (plain : ∀ r ∈ first, r.plain)
      (framed : ∀ r ∈ second, r.framed) (eq : first ++ .upgraded key' :: second = before ++ .upgraded key :: after) :
      second = after := by
    rcases List.append_eq_append_iff.1 eq with ⟨more, rfl, tail⟩ | ⟨more, rfl, tail⟩
    · cases more with
      | nil =>
        cases tail
        rfl
      | cons r more =>
        obtain ⟨rfl, rfl⟩ := List.cons.inj tail
        exact absurd (framed (.upgraded key) (by simp)) (by simp [Reaction.framed])
    · cases more with
      | nil =>
        cases tail
        rfl
      | cons r more =>
        obtain ⟨rfl, rfl⟩ := List.cons.inj tail
        exact absurd (plain (.upgraded key) (by simp)) (by simp [Reaction.plain])
  have openFrames {second : List Reaction} (ofOpen : ∀ r ∈ second, r.ofOpen) : ∀ f ∈ framesOf second, f.1 ≠ kClose := by
    rintro ⟨opcode, p⟩ mem rfl
    have one := ofOpen _ (mem_framesOf.1 mem)
    simp only [Reaction.ofOpen, decide_eq_true_eq] at one
    rcases one with one | one
    · exact absurd one (by decide)
    · exact absurd one (by decide)
  cases h with
  | http plain =>
    exact absurd (plain (.upgraded key) (by rw [split]; simp)) (by simp [Reaction.plain])
  | @opened first second key' plain ofOpen =>
    have framed : ∀ r ∈ second, r.framed := fun r mem => ofOpen_framed (ofOpen r mem)
    obtain rfl := same plain framed split
    exact ⟨framed, fun f mem => openFrames ofOpen f (List.dropLast_subset _ mem)⟩
  | @closed first second key' p plain ofOpen =>
    have framed : ∀ r ∈ second ++ [.frame kClose p], r.framed := by
      intro r mem
      rcases List.mem_append.1 mem with mem | mem
      · exact ofOpen_framed (ofOpen r mem)
      · rw [List.mem_singleton.1 mem]
        rfl
    obtain rfl := same plain framed split
    refine ⟨framed, fun f mem => openFrames ofOpen f ?_⟩
    have ends : framesOf (second ++ [.frame kClose p]) = framesOf second ++ [(kClose, p)] := List.filterMap_append
    rwa [ends, List.dropLast_concat] at mem

/-- A connection that is open at the shutdown, or was closed before, keeps the order of its frames. -/
theorem Ended.shape (steady : Steady S) (h : Ended S (fun c => ¬ c.closeAfterWrite) c rs) :
    ∃ ws closing, Shape ws closing rs := by
  cases h with
  | life life =>
    obtain ⟨closing, shape, _⟩ := (life.connected steady).shape
    exact ⟨_, closing, shape⟩
  | goingAway life takes opened =>
    obtain ⟨closing, shape, same⟩ := (life.connected steady).shape
    unfold takesGoingAway at takes
    simp only [Bool.and_eq_true, Bool.not_eq_true'] at takes
    rw [same (by simp [takes.2]), takes.1, Bool.eq_false_iff.2 opened] at shape
    exact ⟨true, true, shape.close _⟩

theorem length_closePayload (code : UInt16) (reason : Bytes) :
    2 ≤ (wsClosePayload code reason).length ∧ (wsClosePayload code reason).length ≤ 125 := by
  simp only [wsClosePayload, List.length_cons, List.length_take]
  omega

/-- A frame that is explained is a frame that a server may send, if no close frame of one byte came. -/
theorem FrameExplained.allowed {items : List Item} {opcode : UInt8} {p : Bytes} (h : FrameExplained S rs items opcode p)
    (whole : ∀ f, .frame f ∈ items → f.opcode = kClose → f.payload.length ≠ 1) :
    opcode ∈ [kText, kPong, kClose] ∧ (opcode ≠ kText → p.length ≤ 125) ∧ (opcode = kClose → p.length ≠ 1) := by
  cases h with
  | informs _ => exact ⟨by decide, fun control => absurd rfl control, fun close => absurd close (by decide)⟩
  | reply _ _ => exact ⟨by decide, fun control => absurd rfl control, fun close => absurd close (by decide)⟩
  | pong short => exact ⟨by decide, fun _ => short, fun close => absurd close (by decide)⟩
  | @fail code reason =>
    obtain ⟨two, short⟩ := length_closePayload code reason
    exact ⟨by decide, fun _ => short, fun _ => by omega⟩
  | echo mem close =>
    have size := whole _ mem close
    refine ⟨by decide, fun _ => ?_, fun _ => ?_⟩
    · rw [List.length_take]
      omega
    · rw [List.length_take]
      omega

/-- In every run, what a connection is sent behind the response to its upgrade is a stream of frames, if no close frame
of the client has a payload of one byte, and the shutdown finds no WebSocket that is being closed. -/
theorem server_stream (build : CtlBuild) (cfg : ControlServerConfig) (nextUpdateNs : UInt64) (es : List ServerEvent)
    (opened : Throughout ControlWorld.step (.start build cfg nextUpdateNs)
      (fun w e => e = .shutdown → ∀ c ∈ w.clients, takesGoingAway c → ¬ c.closeAfterWrite) es) :
    ∃ w os, run ControlWorld.step (.start build cfg nextUpdateNs) es = .ok (w, os) ∧
      ∀ fd, let rs := ofConnection fd os.flatten
        (∀ p, .frame kText p ∈ rs → p.length < 2 ^ 63) →
        (∀ f, .frame f ∈ itemsOf (received rs) → f.opcode = kClose → f.payload.length ≠ 1) →
        ∀ before key after, rs = before ++ .upgraded key :: after →
          ∃ frames, serverFrames (after.flatMap Reaction.bytes) = some frames ∧ WellFormed frames := by
  obtain ⟨w, os, ran⟩ := control_total build cfg nextUpdateNs es
  have history := control_run (T := fun _ => True) ran (fun _ _ _ _ _ => trivial) opened
  refine ⟨w, os, ran, fun fd => ?_⟩
  obtain ⟨c, _, ended⟩ := history.all fd
  obtain ⟨phase, rest, items, drains, explained⟩ := ended.session (keeps_steady build cfg _)
  obtain ⟨ws, closing, shape⟩ := ended.shape (keeps_steady build cfg _)
  intro rs sizes whole before key after split
  rw [itemsOf_eq drains] at whole
  have behind := shape.behind split
  have allowed : ∀ f ∈ framesOf after, .frame f.1 f.2 ∈ rs ∧ f.1 ∈ [kText, kPong, kClose] ∧
      (f.1 ≠ kText → f.2.length ≤ 125) ∧ (f.1 = kClose → f.2.length ≠ 1) := by
    intro f mem
    have sent : .frame f.1 f.2 ∈ rs := by
      rw [split]
      exact List.mem_append_right _ (List.mem_cons_of_mem _ (mem_framesOf.1 mem))
    exact And.intro sent ((explained.frames f.1 f.2 sent).allowed whole)
  refine ⟨framesOf after, ?_, ?_⟩
  · rw [bytes_framesOf behind.framed]
    refine serverFrames_encode (fun f mem => (allowed f mem).2.1) fun f mem => ?_
    obtain ⟨sent, _, short, _⟩ := allowed f mem
    by_cases data : f.1 = kText
    · rw [data] at sent
      exact sizes f.2 sent
    · have small := short data
      omega
  · exact ⟨fun f mem => (allowed f mem).2.1, fun f mem => (allowed f mem).2.2.1, fun f mem => (allowed f mem).2.2.2,
      behind.last⟩

/-- A client opens a WebSocket and is told at once that the server goes away. -/
def labLeave : List ServerEvent := [labAccept, labReceive labUpgrade, .shutdown]

theorem server_stream_lab : ∃ w os, run ControlWorld.step (.start labServer.build {} 1) labLeave = .ok (w, os) ∧
    ∀ before key after, ofConnection 0 os.flatten = before ++ .upgraded key :: after →
      ∃ frames, serverFrames (after.flatMap Reaction.bytes) = some frames ∧ WellFormed frames := by
  have opened : Throughout ControlWorld.step (.start labServer.build {} 1)
      (fun w e => e = .shutdown → ∀ c ∈ w.clients, takesGoingAway c → ¬ c.closeAfterWrite) labLeave := by
    have check : ((run ControlWorld.step (.start labServer.build {} 1) [labAccept, labReceive labUpgrade]).toOption.all
        fun r => r.1.clients.all fun c => !c.closeAfterWrite) = true := by
      decide +kernel
    intro i e u us here ran leaves c mem _
    rcases i with _ | _ | _ | i
    · cases here
      cases leaves
    · cases here
      cases leaves
    · rw [show labLeave.take 2 = [labAccept, labReceive labUpgrade] from rfl] at ran
      rw [ran] at check
      have one := List.all_eq_true.1 check c mem
      simpa using one
    · cases here
  obtain ⟨w, os, ran, all⟩ := server_stream labServer.build {} 1 labLeave opened
  refine ⟨w, os, ran, all 0 ?_ ?_⟩
  · have sizes : ((run ControlWorld.step (.start labServer.build {} 1) labLeave).toOption.all fun r =>
        (ofConnection 0 r.2.flatten).all fun
          | .frame _ p => p.length < 1000
          | _ => true) = true := by
      decide +kernel
    rw [ran] at sizes
    intro p sent
    have one := List.all_eq_true.1 sizes _ sent
    simp only [decide_eq_true_eq] at one
    omega
  · have closes : ((run ControlWorld.step (.start labServer.build {} 1) labLeave).toOption.all fun r =>
        (itemsOf (received (ofConnection 0 r.2.flatten))).all fun
          | .frame f => f.payload.length ≠ 1
          | _ => true) = true := by
      decide +kernel
    rw [ran] at closes
    intro f found _
    have one := List.all_eq_true.1 closes _ found
    simpa using one

/-- A close frame in front of the last frame behind the handshake. -/
def closesEarly : List Reaction → Bool
  | _ :: .upgraded _ :: after =>
    (serverFrames (after.flatMap Reaction.bytes)).any fun frames => frames.dropLast.any fun f => f.1 = kClose
  | _ => false

/-- It is false without the condition: a client that is being closed is sent a second close frame at the shutdown. -/
theorem server_stream_twice : ¬ ∀ (build : CtlBuild) (cfg : ControlServerConfig) (nextUpdateNs : UInt64)
    (es : List ServerEvent) (w : ControlWorld) (os : List (List (Nat × Reaction))),
    run ControlWorld.step (.start build cfg nextUpdateNs) es = .ok (w, os) →
      ∀ fd before key after, ofConnection fd os.flatten = before ++ .upgraded key :: after →
        ∃ frames, serverFrames (after.flatMap Reaction.bytes) = some frames ∧ WellFormed frames := by
  intro always
  obtain ⟨es, hes⟩ : ∃ es, es = [labAccept, labReceive labUpgrade, labReceive (labFrame kClose []), .shutdown] := ⟨_, rfl⟩
  obtain ⟨w, os, ran⟩ := control_total labServer.build {} 1 es
  have twice : ((run ControlWorld.step (.start labServer.build {} 1) es).toOption.any fun r =>
      closesEarly (ofConnection 0 r.2.flatten)) = true := by
    rw [hes]
    decide +kernel
  rw [ran] at twice
  simp only [Except.toOption, Option.any_some] at twice
  unfold closesEarly at twice
  split at twice
  next first key after split =>
    obtain ⟨frames, read, wellFormed⟩ := always labServer.build {} 1 es w os ran 0 [first] key after split
    rw [read, Option.any_some] at twice
    obtain ⟨f, mem, close⟩ := List.any_eq_true.1 twice
    exact wellFormed.last f mem (by simpa using close)
  next => cases twice

end Stream

end IpcRelay.Ctl
