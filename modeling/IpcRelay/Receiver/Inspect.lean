import IpcRelay.Receiver.VerifyTestpub

/-!
# The inspection of a capture (`inspect` of `tools/capture_inspect.py`)

One pass over the records keeps the last sequence number of each source.
`Follows` is what the pass knows of a source; `strict_gapFree_iff` says for which
orders of the records of a complete capture it finds no gap.
-/

namespace IpcRelay.CaptureInspect

open LittleEndian Capture

section Inspect

/-- The dictionary of a source. -/
structure SourceDict where
  messages : Nat
  payloadBytes : Nat
  firstSequence : Nat
  lastSequence : Nat
  sequenceGaps : Nat
  missing : Nat
  outOfOrder : Nat
  fragmented : Nat
  multipart : Nat
  minPayload : Nat
  maxPayload : Nat
  firstTimestampNs : Nat
  lastTimestampNs : Nat
  testpubErrors : Nat
  deriving DecidableEq, Repr

/-- The dictionary `summary`; the sources are in the order of their first records. -/
structure Summary where
  file : Bytes
  header : Header
  records : Nat := 0
  payloadBytes : Nat := 0
  sources : List (Nat × SourceDict) := []
  deriving DecidableEq, Repr

/-- The options that the checks use. -/
structure Args where
  strict : Bool := false
  verifyTestpub : Bool := false
  expectSources : Option Nat := none
  expectMessages : Option Nat := none
  expectPerSource : Option Nat := none
  deriving DecidableEq, Repr

inductive Problem where
  | testpub (sid sequence : Nat) (detail : TestpubError)
  | sequenceGaps (sid gaps missing : Nat)
  | testpubErrors (sid errors : Nat)
  | sources (expected found : Nat)
  | records (expected found : Nat)
  | recordsOfSource (sid expected found : Nat)
  deriving DecidableEq, Repr

def Problem.text : Problem → Bytes
  | .testpub sid sequence detail =>
    str "source " ++ numText sid ++ str " seq " ++ numText sequence ++ str ": " ++ detail.text
  | .sequenceGaps sid gaps missing =>
    str "source " ++ numText sid ++ str ": " ++ numText gaps ++ str " sequence gap(s), " ++ numText missing ++
      str " message(s) missing"
  | .testpubErrors sid errors =>
    str "source " ++ numText sid ++ str ": " ++ numText errors ++ str " record(s) failed testpub verification"
  | .sources expected found => str "expected " ++ numText expected ++ str " source(s), found " ++ numText found
  | .records expected found => str "expected " ++ numText expected ++ str " record(s), found " ++ numText found
  | .recordsOfSource sid expected found =>
    str "source " ++ numText sid ++ str ": expected " ++ numText expected ++ str " record(s), found " ++ numText found

/-- `setdefault` of a dictionary. -/
def setDefault {α : Type} (m : List (Nat × α)) (k : Nat) (v : α) : List (Nat × α) :=
  if (m.lookup k).isSome then m else m ++ [(k, v)]

/-- The changes of the value at a key. -/
def modifyAt {α : Type} (m : List (Nat × α)) (k : Nat) (f : α → α) : List (Nat × α) :=
  m.map fun e => if e.1 = k then (e.1, f e.2) else e

def firstDict (hdr : RecordDict) : SourceDict where
  messages := 0
  payloadBytes := 0
  firstSequence := hdr.sequence
  lastSequence := hdr.sequence
  sequenceGaps := 0
  missing := 0
  outOfOrder := 0
  fragmented := 0
  multipart := 0
  minPayload := hdr.payloadLength
  maxPayload := hdr.payloadLength
  firstTimestampNs := hdr.timestampNs
  lastTimestampNs := hdr.timestampNs
  testpubErrors := 0

/-- The comparison with the last sequence number. -/
def SourceDict.noteSequence (s : SourceDict) (hdr : RecordDict) : SourceDict :=
  if s.messages > 0 then
    let expected := s.lastSequence + 1
    if hdr.sequence > expected then
      { s with sequenceGaps := s.sequenceGaps + 1, missing := s.missing + (hdr.sequence - expected) }
    else if hdr.sequence < expected then { s with outOfOrder := s.outOfOrder + 1 }
    else s
  else s

/-- The other entries. -/
def SourceDict.noteRecord (s : SourceDict) (hdr : RecordDict) : SourceDict :=
  { s with
    messages := s.messages + 1
    payloadBytes := s.payloadBytes + hdr.payloadLength
    lastSequence := hdr.sequence
    lastTimestampNs := hdr.timestampNs
    minPayload := min s.minPayload hdr.payloadLength
    maxPayload := max s.maxPayload hdr.payloadLength
    fragmented := if hdr.flags &&& 0x0001 ≠ 0 then s.fragmented + 1 else s.fragmented
    multipart := if hdr.flags &&& 0x0002 ≠ 0 then s.multipart + 1 else s.multipart }

/-- One record: the summary and the problems so far. -/
def inspectRecord (args : Args) (st : Summary × List Problem) (hdr : RecordDict) (payload : Bytes) : Summary × List Problem :=
  let (summary, problems) := st
  let sid := hdr.sourceId
  let sources := setDefault summary.sources sid (firstDict hdr)
  let sources := modifyAt sources sid fun s => (s.noteSequence hdr).noteRecord hdr
  let summary := { summary with sources := sources, records := summary.records + 1,
                                payloadBytes := summary.payloadBytes + hdr.payloadLength }
  if args.verifyTestpub then
    match verifyTestpubPayload payload none with
    | .ok _ => (summary, problems)
    | .error detail =>
      let summary := { summary with
        sources := modifyAt summary.sources sid fun s => { s with testpubErrors := s.testpubErrors + 1 } }
      let errors := ((summary.sources.lookup sid).map SourceDict.testpubErrors).getD 0
      (summary, if errors ≤ 5 then problems ++ [.testpub sid hdr.sequence detail] else problems)
  else (summary, problems)

/-- The checks behind the loop. -/
def finalProblems (args : Args) (summary : Summary) : List Problem :=
  (summary.sources.flatMap fun e =>
    (if e.2.sequenceGaps ≠ 0 ∧ args.strict then [.sequenceGaps e.1 e.2.sequenceGaps e.2.missing] else []) ++
    (if e.2.testpubErrors ≠ 0 then [.testpubErrors e.1 e.2.testpubErrors] else [])) ++
  (match args.expectSources with
    | some n => if summary.sources.length ≠ n then [.sources n summary.sources.length] else []
    | none => []) ++
  (match args.expectMessages with
    | some n => if summary.records ≠ n then [.records n summary.records] else []
    | none => []) ++
  match args.expectPerSource with
    | some n => summary.sources.flatMap fun e => if e.2.messages ≠ n then [.recordsOfSource e.1 n e.2.messages] else []
    | none => []

/-- `inspect`: the summary and the problems, or the exception. -/
def inspect (path contents : Bytes) (args : Args) : Exec (Except CaptureError (Summary × List Problem)) :=
  match readFileHeader { contents := contents } with
  | .error e => .ok (.error e)
  | .ok (f, header) => do
    let (records, error) ← iterRecords (contents.length + 1) f
    match error with
    | some e => .ok (.error e)
    | none =>
      let (summary, problems) := records.foldl (fun st r => inspectRecord args st r.2.1 r.2.2)
        ({ file := path, header := header }, [])
      .ok (.ok (summary, problems ++ finalProblems args summary))

end Inspect

section Order

/-- No number is followed by one that is greater by more than 1. -/
def NoJump (l : List Nat) : Prop := l.IsChain fun x y => y ≤ x + 1

/-- Each number is one more than the one before it, or lower than all before it. -/
def Falls (l : List Nat) : Prop :=
  ∀ front x y back, l = front ++ x :: y :: back → y = x + 1 ∨ ∀ z ∈ front ++ [x], y < z

/-- A contiguous range of numbers, each once, in any order. -/
def Complete (l : List Nat) : Prop := ∃ first, l.Perm (List.range' first l.length)

theorem Complete.nodup {l : List Nat} (h : Complete l) : l.Nodup := by
  obtain ⟨first, perm⟩ := h
  exact perm.nodup_iff.2 List.nodup_range'

/-- Steps of at most 1 upwards leave out no number on the way. -/
theorem NoJump.hits {x y z : Nat} {l : List Nat} (h : NoJump (z :: (l ++ [x]))) (above : z ≤ y) (below : y ≤ x) :
    y ∈ z :: (l ++ [x]) := by
  induction l generalizing z with
  | nil =>
    have step : x ≤ z + 1 := (List.isChain_cons_cons.1 h).1
    rcases Nat.lt_or_ge z y with lt | ge
    · have eq : y = x := by omega
      rw [eq]
      exact List.mem_cons_of_mem _ List.mem_cons_self
    · have eq : y = z := by omega
      rw [eq]
      exact List.mem_cons_self
  | cons w l ih =>
    rcases Nat.lt_or_ge z y with lt | ge
    · obtain ⟨step, rest⟩ := List.isChain_cons_cons.1 h
      exact List.mem_cons_of_mem _ (ih rest (by omega))
    · have eq : y = z := by omega
      rw [eq]
      exact List.mem_cons_self

/-- Numbers without repetition have no jump just if they fall. -/
theorem noJump_iff_falls {l : List Nat} (nodup : l.Nodup) : NoJump l ↔ Falls l := by
  constructor
  · rintro chain front x y back rfl
    have step : y ≤ x + 1 := List.isChain_iff_forall_rel_of_append_cons_cons.1 chain rfl
    by_cases next : y = x + 1
    · exact .inl next
    right
    intro z mem
    by_contra le
    obtain ⟨a, b, split⟩ := List.append_of_mem mem
    have whole : front ++ x :: y :: back = a ++ z :: b ++ (y :: back) := by
      rw [← split, List.append_assoc]
      rfl
    have before : y ∈ z :: b := by
      rw [whole] at chain
      have part : NoJump (z :: b) := (List.isChain_append.1 (List.isChain_append.1 chain).1).2.1
      rcases List.eq_nil_or_concat' b with rfl | ⟨c, x', rfl⟩
      · have eq : z = x := by
          have ends := congrArg List.getLast? split
          simpa using ends.symm
        have is' : y = z := by omega
        rw [is']
        exact List.mem_cons_self
      · have eq : x' = x := by
          have ends := congrArg List.getLast? split
          rw [List.getLast?_concat, ← List.cons_append, ← List.append_assoc, List.getLast?_concat] at ends
          exact (Option.some.inj ends).symm
        rw [eq] at part ⊢
        exact @NoJump.hits x y z c part (by omega) (by omega)
    rw [whole] at nodup
    have apart := List.disjoint_of_nodup_append nodup
    exact apart (List.mem_append_right _ before) List.mem_cons_self
  · intro falls
    refine List.isChain_iff_forall_rel_of_append_cons_cons.2 ?_
    intro x y front back split
    rcases falls front x y back split with next | below
    · omega
    · have lt := below x (List.mem_append_right _ List.mem_cons_self)
      omega

end Order

section Sources

variable {args : Args} {sid : Nat} {s : SourceDict} {hdr : RecordDict} {l : List Nat}

/-- What the pass knows of a source with the sequence numbers `l` so far. -/
structure Follows (l : List Nat) (s : SourceDict) : Prop where
  messages : s.messages = l.length
  last : l.getLast? = some s.lastSequence
  gaps : s.sequenceGaps = 0 ↔ NoJump l
  missing : s.missing = 0 ↔ NoJump l

/-- The first record of a source. -/
theorem follows_first (hdr : RecordDict) : Follows [hdr.sequence] (((firstDict hdr).noteSequence hdr).noteRecord hdr) where
  messages := rfl
  last := rfl
  gaps := iff_of_true rfl (List.isChain_singleton _)
  missing := iff_of_true rfl (List.isChain_singleton _)

/-- A further record of a source. -/
theorem Follows.next (h : Follows l s) (hdr : RecordDict) :
    Follows (l ++ [hdr.sequence]) ((s.noteSequence hdr).noteRecord hdr) := by
  obtain ⟨front, rfl⟩ : ∃ front, l = front ++ [s.lastSequence] := List.getLast?_eq_some_iff.1 h.last
  have known : s.messages > 0 := by
    rw [h.messages, List.length_append]
    exact Nat.succ_pos _
  have chain : NoJump (front ++ [s.lastSequence] ++ [hdr.sequence]) ↔
      NoJump (front ++ [s.lastSequence]) ∧ hdr.sequence ≤ s.lastSequence + 1 := by
    rw [List.append_assoc]
    change NoJump (front ++ s.lastSequence :: hdr.sequence :: []) ↔ _
    unfold NoJump
    rw [List.isChain_append_cons_cons, and_iff_left (List.isChain_singleton _)]
  have messages : (s.noteSequence hdr).messages = s.messages := by
    unfold SourceDict.noteSequence
    dsimp only
    split_ifs <;> rfl
  by_cases jump : hdr.sequence > s.lastSequence + 1
  · have noted : s.noteSequence hdr = { s with
        sequenceGaps := s.sequenceGaps + 1
        missing := s.missing + (hdr.sequence - (s.lastSequence + 1)) } := by
      rw [SourceDict.noteSequence, if_pos known]
      exact if_pos jump
    refine ⟨?_, List.getLast?_concat, ?_, ?_⟩
    · rw [List.length_append, ← h.messages, ← messages]
      rfl
    · rw [chain, noted]
      exact iff_of_false (Nat.succ_ne_zero _) fun h => by omega
    · rw [chain, noted]
      refine iff_of_false ?_ fun h => by omega
      change s.missing + (hdr.sequence - (s.lastSequence + 1)) ≠ 0
      omega
  · have gaps : (s.noteSequence hdr).sequenceGaps = s.sequenceGaps ∧ (s.noteSequence hdr).missing = s.missing := by
      rw [SourceDict.noteSequence, if_pos known]
      dsimp only
      rw [if_neg jump]
      split_ifs <;> exact ⟨rfl, rfl⟩
    refine ⟨?_, List.getLast?_concat, ?_, ?_⟩
    · rw [List.length_append, ← h.messages, ← messages]
      rfl
    · rw [chain, and_iff_left (by omega), ← h.gaps, ← gaps.1]
      rfl
    · rw [chain, and_iff_left (by omega), ← h.missing, ← gaps.2]
      rfl

/-- The sequence numbers of a source, in the order of the records. -/
def numbersOf (sid : Nat) (hs : List RecordDict) : List Nat :=
  (hs.filter fun h => h.sourceId = sid).map RecordDict.sequence

theorem numbersOf_snoc (sid : Nat) (hs : List RecordDict) (hdr : RecordDict) :
    numbersOf sid (hs ++ [hdr]) = numbersOf sid hs ++ if hdr.sourceId = sid then [hdr.sequence] else [] := by
  rw [numbersOf, List.filter_append, List.map_append, numbersOf]
  by_cases own : hdr.sourceId = sid
  · rw [if_pos own, List.filter_cons_of_pos (by simpa using own)]
    rfl
  · rw [if_neg own, List.filter_cons_of_neg (by simpa using own)]
    rfl

theorem mem_modifyAt {α : Type} {m : List (Nat × α)} {k : Nat} {f : α → α} {e : Nat × α} (mem : e ∈ modifyAt m k f) :
    ∃ v, (e.1, v) ∈ m ∧ e.2 = if e.1 = k then f v else v := by
  obtain ⟨⟨j, v⟩, there, rfl⟩ := List.mem_map.1 mem
  by_cases own : j = k
  · exact ⟨v, by rwa [if_pos own], by rw [if_pos own, if_pos own]⟩
  · exact ⟨v, by rwa [if_neg own], by rw [if_neg own, if_neg own]⟩

theorem key_modifyAt {α : Type} {m : List (Nat × α)} {j : Nat} (k : Nat) (f : α → α) {v : α} (mem : (j, v) ∈ m) :
    ∃ w, (j, w) ∈ modifyAt m k f := by
  have there := List.mem_map_of_mem (f := fun e : Nat × α => if e.1 = k then (e.1, f e.2) else e) mem
  by_cases own : j = k
  · exact ⟨f v, by rwa [if_pos own] at there⟩
  · exact ⟨v, by rwa [if_neg own] at there⟩

theorem mem_setDefault {α : Type} {m : List (Nat × α)} {k : Nat} {v : α} {e : Nat × α} (mem : e ∈ setDefault m k v) :
    e ∈ m ∨ e = (k, v) ∧ ∀ w, (k, w) ∉ m := by
  unfold setDefault at mem
  split at mem
  next => exact .inl mem
  next missing =>
    rcases List.mem_append.1 mem with mem | mem
    · exact .inl mem
    · refine .inr ⟨List.mem_singleton.1 mem, fun w there => missing ?_⟩
      rw [Option.isSome_iff_ne_none, ne_eq, List.lookup_eq_none_iff]
      intro absent
      have other := absent (k, w) there
      rw [bne_self_eq_false] at other
      cases other

theorem key_setDefault {α : Type} (m : List (Nat × α)) (k : Nat) (v : α) :
    (∃ w, (k, w) ∈ setDefault m k v) ∧ m ⊆ setDefault m k v := by
  unfold setDefault
  split
  next there =>
    obtain ⟨w, eq⟩ := Option.isSome_iff_exists.1 there
    obtain ⟨front, back, split, -⟩ := List.lookup_eq_some_iff.1 eq
    exact ⟨⟨w, by rw [split]; exact List.mem_append_right _ List.mem_cons_self⟩, fun _ h => h⟩
  next => exact ⟨⟨v, List.mem_append_right _ List.mem_cons_self⟩, fun _ h => List.mem_append_left _ h⟩

/-- What the pass knows behind the records `hs`. -/
structure Knows (hs : List RecordDict) (st : Summary × List Problem) : Prop where
  known : ∀ e ∈ st.1.sources, Follows (numbersOf e.1 hs) e.2
  all : ∀ sid, numbersOf sid hs ≠ [] → ∃ s, (sid, s) ∈ st.1.sources
  problems : ∀ p ∈ st.2, ∃ sid sequence detail, p = .testpub sid sequence detail

/-- The loop body on the sources, without the payload check. -/
theorem knows_sources {hs : List RecordDict} {st : Summary × List Problem} (h : Knows hs st) (hdr : RecordDict) :
    let sources := modifyAt (setDefault st.1.sources hdr.sourceId (firstDict hdr)) hdr.sourceId fun s =>
      (s.noteSequence hdr).noteRecord hdr
    (∀ e ∈ sources, Follows (numbersOf e.1 (hs ++ [hdr])) e.2) ∧
      ∀ sid, numbersOf sid (hs ++ [hdr]) ≠ [] → ∃ s, (sid, s) ∈ sources := by
  obtain ⟨key, subset⟩ := key_setDefault st.1.sources hdr.sourceId (firstDict hdr)
  constructor
  · intro e mem
    obtain ⟨v, there, eq⟩ := mem_modifyAt mem
    rw [numbersOf_snoc]
    by_cases own : hdr.sourceId = e.1
    · rw [if_pos own]
      rw [if_pos own.symm] at eq
      rw [eq]
      rcases mem_setDefault there with old | ⟨new, absent⟩
      · exact (h.known _ old).next hdr
      · have first : numbersOf e.1 hs = [] := by
          by_contra numbered
          obtain ⟨s, there⟩ := h.all e.1 numbered
          rw [← own] at there
          exact absent s there
        obtain rfl : v = firstDict hdr := congrArg Prod.snd new
        rw [first]
        exact follows_first hdr
    · rw [if_neg own, List.append_nil]
      rw [if_neg (fun same => own same.symm)] at eq
      rw [eq]
      rcases mem_setDefault there with old | ⟨new, -⟩
      · exact h.known _ old
      · exact absurd (congrArg Prod.fst new).symm own
  · intro sid numbered
    by_cases own : hdr.sourceId = sid
    · subst own
      obtain ⟨w, there⟩ := key
      exact key_modifyAt _ _ there
    · rw [numbersOf_snoc, if_neg own, List.append_nil] at numbered
      obtain ⟨s, there⟩ := h.all sid numbered
      exact key_modifyAt _ _ (subset there)

/-- One record. -/
theorem Knows.next {hs : List RecordDict} {st : Summary × List Problem} (h : Knows hs st) (args : Args) (hdr : RecordDict)
    (payload : Bytes) : Knows (hs ++ [hdr]) (inspectRecord args st hdr payload) := by
  obtain ⟨known, all⟩ := knows_sources h hdr
  unfold inspectRecord
  dsimp only
  by_cases verify : args.verifyTestpub = true
  · rw [if_pos verify]
    cases verifyTestpubPayload payload none with
    | ok found => exact ⟨known, all, h.problems⟩
    | error detail =>
      dsimp only
      refine ⟨?_, ?_, ?_⟩
      · intro e mem
        dsimp only at mem
        obtain ⟨v, there, eq⟩ := mem_modifyAt mem
        have follows := known _ there
        rw [eq]
        split_ifs
        · exact ⟨follows.messages, follows.last, follows.gaps, follows.missing⟩
        · exact follows
      · intro sid numbered
        obtain ⟨s, there⟩ := all sid numbered
        dsimp only
        exact key_modifyAt _ _ there
      · intro p mem
        dsimp only at mem
        split_ifs at mem
        · rcases List.mem_append.1 mem with old | new
          · exact h.problems p old
          · exact ⟨_, _, _, List.mem_singleton.1 new⟩
        · exact h.problems p mem
  · rw [if_neg verify]
    exact ⟨known, all, h.problems⟩

/-- The whole pass. -/
theorem Knows.run (args : Args) (records : List (Nat × RecordDict × Bytes)) {hs : List RecordDict}
    {st : Summary × List Problem} (h : Knows hs st) :
    Knows (hs ++ records.map fun r => r.2.1) (records.foldl (fun st r => inspectRecord args st r.2.1 r.2.2) st) := by
  induction records generalizing hs st with
  | nil => rwa [List.map_nil, List.append_nil]
  | cons r records ih =>
    have rest := ih (h.next args r.2.1 r.2.2)
    rwa [List.append_assoc, List.singleton_append] at rest

end Sources

section Strict

variable {args : Args} {contents : Bytes} {rs : List Record} {hs : List RecordDict} {st : Summary × List Problem}

/-- A capture file that the format describes: a header and the records `rs`, up to the end of the file. -/
structure WellFormed (contents : Bytes) (rs : List Record) : Prop where
  header : Accepted contents
  records : Scans (contents.drop (field contents 6 2)) rs .clean

/-- The files of the receiver are well formed. -/
theorem wellFormed_fileBytes {h : FileHeader} (plain : Receiver.Plain h) (sized : ∀ r ∈ rs, r.Sized) :
    WellFormed (Receiver.fileBytes h rs) rs := by
  have opened : CaptureReader.openFile {} [] (.ok (Receiver.fileBytes h rs)) = _ :=
    CaptureReader.openFile_header plain.version plain.size [] (rs.flatMap Record.bytes)
  have accepted : Accepted (Receiver.fileBytes h rs) := by
    by_contra bad
    obtain ⟨r, refused, -⟩ := openFile_refused [] bad
    rw [opened] at refused
    cases refused
  rw [openFile_accepted [] accepted] at opened
  have behind : (Receiver.fileBytes h rs).drop (field (Receiver.fileBytes h rs) 6 2) = rs.flatMap Record.bytes := by
    injection opened with same
    injection same with same
    injection same
  refine ⟨accepted, ?_⟩
  obtain ⟨k, le, e, scan, inside, -, clean⟩ := scans_take rs sized (rs.flatMap Record.bytes).length
  have all : rs.take k = rs := by
    refine List.take_of_length_le (Nat.le_of_not_lt fun lt => ?_)
    refine absurd ((inside k lt).2 ?_) (Nat.lt_irrefl k)
    nth_rewrite 2 [← List.take_append_drop (k + 1) rs]
    rw [List.flatMap_append, List.length_append]
    exact Nat.le_add_right _ _
  rw [all, List.take_length] at scan
  rw [all] at clean
  rwa [behind, ← (clean le_rfl).2 rfl]

/-- No problem of a sequence gap, and nothing missing of any source. -/
structure GapFree (summary : Summary) (problems : List Problem) : Prop where
  unreported : ∀ sid gaps missing, .sequenceGaps sid gaps missing ∉ problems
  complete : ∀ e ∈ summary.sources, e.2.missing = 0

/-- A file with records of one source. -/
def labRecord (n : UInt64) : Record := ⟨{ sourceId := 1, sequence := n }, []⟩

def labFile (ns : List UInt64) : Bytes :=
  Receiver.fileBytes { version := kFormatVersion, headerLength := 32, createdNs := 0, wireVersion := 1 } (ns.map labRecord)

theorem labFile_wellFormed (ns : List UInt64) : WellFormed (labFile ns) (ns.map labRecord) := by
  refine wellFormed_fileBytes ⟨rfl, rfl⟩ fun r mem => ?_
  obtain ⟨n, -, rfl⟩ := List.mem_map.1 mem
  rfl

theorem numbersOf_lab (sid : Nat) (ns : List UInt64) :
    numbersOf sid ((ns.map labRecord).map fun r => dictOf r.hdr) = if sid = 1 then ns.map UInt64.toNat else [] := by
  unfold numbersOf
  split
  next own =>
    rw [List.filter_eq_self.2]
    · simp only [List.map_map]
      rfl
    · intro h mem
      rw [List.map_map] at mem
      obtain ⟨n, -, rfl⟩ := List.mem_map.1 mem
      exact decide_eq_true own.symm
  next other =>
    rw [List.filter_eq_nil_iff.2, List.map_nil]
    intro h mem
    rw [List.map_map] at mem
    obtain ⟨n, -, rfl⟩ := List.mem_map.1 mem
    exact fun own => other (of_decide_eq_true own).symm

theorem complete_lab {ns : List UInt64} (complete : Complete (ns.map UInt64.toNat)) (sid : Nat) :
    Complete (numbersOf sid ((ns.map labRecord).map fun r => dictOf r.hdr)) := by
  rw [numbersOf_lab]
  split
  · exact complete
  · exact ⟨0, .nil⟩

/-- The checks report the gaps of the sources, if they are to be strict. -/
theorem sequenceGaps_mem_finalProblems {summary : Summary} {sid gaps missing : Nat} :
    .sequenceGaps sid gaps missing ∈ finalProblems args summary ↔
      ∃ s, (sid, s) ∈ summary.sources ∧ (s.sequenceGaps ≠ 0 ∧ args.strict) ∧ gaps = s.sequenceGaps ∧
        missing = s.missing := by
  have sources : .sequenceGaps sid gaps missing ∉ (match args.expectSources with
      | some n => if summary.sources.length ≠ n then [.sources n summary.sources.length] else []
      | none => [] : List Problem) := by
    split <;> try split_ifs
    all_goals simp
  have records : .sequenceGaps sid gaps missing ∉ (match args.expectMessages with
      | some n => if summary.records ≠ n then [.records n summary.records] else []
      | none => [] : List Problem) := by
    split <;> try split_ifs
    all_goals simp
  have perSource : .sequenceGaps sid gaps missing ∉ (match args.expectPerSource with
      | some n => summary.sources.flatMap fun e =>
          if e.2.messages ≠ n then [.recordsOfSource e.1 n e.2.messages] else []
      | none => [] : List Problem) := by
    split
    · intro mem
      obtain ⟨e, -, mem⟩ := List.mem_flatMap.1 mem
      split_ifs at mem <;> simp at mem
    · exact List.not_mem_nil
  rw [finalProblems, List.mem_append, or_iff_left perSource, List.mem_append, or_iff_left records, List.mem_append,
    or_iff_left sources, List.mem_flatMap]
  constructor
  · rintro ⟨⟨sid', s⟩, there, mem⟩
    rcases List.mem_append.1 mem with mem | mem
    · split_ifs at mem with gap
      · cases List.mem_singleton.1 mem
        exact ⟨s, there, gap, rfl, rfl⟩
      · cases mem
    · split_ifs at mem <;> simp at mem
  · rintro ⟨s, there, gap, rfl, rfl⟩
    refine ⟨(sid, s), there, List.mem_append_left _ ?_⟩
    rw [if_pos gap]
    exact List.mem_cons_self

/-- The verdict behind the records `hs`. -/
theorem Knows.gapFree_iff (h : Knows hs st) :
    GapFree st.1 (st.2 ++ finalProblems args st.1) ↔ ∀ sid, NoJump (numbersOf sid hs) := by
  constructor
  · intro free sid
    by_cases unnumbered : numbersOf sid hs = []
    · rw [unnumbered]
      exact List.isChain_nil
    · obtain ⟨s, there⟩ := h.all sid unnumbered
      exact (h.known _ there).missing.1 (free.complete _ there)
  · intro chain
    refine ⟨fun sid gaps missing mem => ?_, fun e there => (h.known e there).missing.2 (chain e.1)⟩
    rcases List.mem_append.1 mem with mem | mem
    · obtain ⟨_, _, _, eq⟩ := h.problems _ mem
      cases eq
    · obtain ⟨s, there, ⟨gap, -⟩, -, -⟩ := sequenceGaps_mem_finalProblems.1 mem
      exact gap ((h.known _ there).gaps.2 (chain sid))

/-- The strict checks report every source with a jump. -/
theorem Knows.reported (h : Knows hs st) (strict : args.strict = true) {sid : Nat} (jump : ¬ NoJump (numbersOf sid hs)) :
    ∃ gaps missing, .sequenceGaps sid gaps missing ∈ st.2 ++ finalProblems args st.1 := by
  have numbered : numbersOf sid hs ≠ [] := by
    intro unnumbered
    rw [unnumbered] at jump
    exact jump List.isChain_nil
  obtain ⟨s, there⟩ := h.all sid numbered
  have gap : s.sequenceGaps ≠ 0 := fun gapless => jump ((h.known _ there).gaps.1 gapless)
  exact ⟨_, _, List.mem_append_right _ (sequenceGaps_mem_finalProblems.2 ⟨s, there, ⟨gap, strict⟩, rfl, rfl⟩)⟩

/-- On a well-formed capture the pass runs over all records. -/
theorem inspect_wellFormed (path : Bytes) (args : Args) (h : WellFormed contents rs) :
    ∃ st, Knows (rs.map fun r => dictOf r.hdr) st ∧
      inspect path contents args = .ok (.ok (st.1, st.2 ++ finalProblems args st.1)) := by
  obtain ⟨f, opened, behind⟩ := (readFileHeader_eq contents).1 h.header
  have enough : (contents.drop (field contents 6 2)).length < contents.length + 1 := by
    rw [List.length_drop]
    omega
  obtain ⟨records, error, iterated, same, clean⟩ := iterRecords_scans h.records behind enough
  obtain rfl : error = none := clean.2 rfl
  have dicts : (records.map fun r => r.2.1) = rs.map fun r => dictOf r.hdr := by
    have firsts := congrArg (List.map Prod.fst) same
    rwa [List.map_map, List.map_map] at firsts
  have start : Knows [] (({ file := path, header := headerOf (fileHeaderOf contents) } : Summary), []) :=
    { known := fun _ mem => by cases mem
      all := fun _ numbered => absurd rfl numbered
      problems := fun _ mem => by cases mem }
  have ran := start.run args records
  rw [List.nil_append, dicts] at ran
  refine ⟨_, ran, ?_⟩
  rw [inspect, opened]
  dsimp only
  rw [iterated]
  rfl

/-- The strict validation of a capture that has each source's numbers once and without a gap, in any order: it finds
no gap just if, in the order of the records, each number of a source is one more than the source's last number or lower
than all the source's numbers before it. Every other source is reported. -/
theorem strict_gapFree_iff (path : Bytes) (strict : args.strict = true) (wellFormed : WellFormed contents rs)
    (complete : ∀ sid, Complete (numbersOf sid (rs.map fun r => dictOf r.hdr))) :
    ∃ summary problems, inspect path contents args = .ok (.ok (summary, problems)) ∧
      (GapFree summary problems ↔ ∀ sid, Falls (numbersOf sid (rs.map fun r => dictOf r.hdr))) ∧
      ∀ sid, ¬ Falls (numbersOf sid (rs.map fun r => dictOf r.hdr)) →
        ∃ gaps missing, .sequenceGaps sid gaps missing ∈ problems := by
  obtain ⟨st, knows, ran⟩ := inspect_wellFormed path args wellFormed
  have order := fun sid => noJump_iff_falls (complete sid).nodup
  refine ⟨_, _, ran, ?_, fun sid up => ?_⟩
  · rw [knows.gapFree_iff]
    exact forall_congr' order
  · exact knows.reported strict (mt (order sid).1 up)

/-- Source 1 with the numbers 2, 3, 0, 1. -/
theorem strict_gapFree_iff_lab : ∃ summary problems,
    inspect (str "t.cap") (labFile [2, 3, 0, 1]) { strict := true } = .ok (.ok (summary, problems)) ∧
      (GapFree summary problems ↔
        ∀ sid, Falls (numbersOf sid ((([2, 3, 0, 1] : List UInt64).map labRecord).map fun r => dictOf r.hdr))) ∧
      ∀ sid, ¬ Falls (numbersOf sid ((([2, 3, 0, 1] : List UInt64).map labRecord).map fun r => dictOf r.hdr)) →
        ∃ gaps missing, .sequenceGaps sid gaps missing ∈ problems :=
  strict_gapFree_iff (str "t.cap") rfl (labFile_wellFormed [2, 3, 0, 1]) (complete_lab ⟨0, by decide⟩)

/-- Source 1 with the numbers 0, 2, 1. -/
theorem complete_capture_reported : WellFormed (labFile [0, 2, 1]) (([0, 2, 1] : List UInt64).map labRecord) ∧
    (∀ sid, Complete (numbersOf sid ((([0, 2, 1] : List UInt64).map labRecord).map fun r => dictOf r.hdr))) ∧
    ∃ summary problems, inspect (str "t.cap") (labFile [0, 2, 1]) { strict := true } = .ok (.ok (summary, problems)) ∧
      problems = [.sequenceGaps 1 1 1] ∧ summary.sources.map (fun e => e.2.missing) = [1] ∧
      ¬ GapFree summary problems := by
  refine ⟨labFile_wellFormed _, complete_lab ⟨0, by decide⟩, ?_⟩
  obtain ⟨st, -, ran⟩ := inspect_wellFormed (str "t.cap") { strict := true } (labFile_wellFormed [0, 2, 1])
  have found : ((inspect (str "t.cap") (labFile [0, 2, 1]) { strict := true }).toOption.any fun r => r.toOption.any fun r =>
      decide (r.2 = [.sequenceGaps 1 1 1] ∧ r.1.sources.map (fun e => e.2.missing) = [1])) = true := by decide +kernel
  rw [ran] at found
  obtain ⟨reported, missing⟩ := of_decide_eq_true found
  refine ⟨_, _, ran, reported, missing, fun free => free.unreported 1 1 1 ?_⟩
  rw [show st.2 ++ finalProblems { strict := true } st.1 = _ from reported]
  exact List.mem_cons_self

end Strict

end IpcRelay.CaptureInspect
