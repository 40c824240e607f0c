import IpcRelay.Common.ConfigText
import IpcRelay.Receiver.Recording

/-!
# The text of a command

`canonical` is the text of a command without what is to be ignored in it: the
case, and which separators stand between its words. `normalizeCommand` trims
before it turns separators into spaces, so one that is not a space is kept at
either end (`Dangling`), and the command is not recognised
(`command_text_iff`).
-/

namespace IpcRelay.Receiver

open Capture

section Spec

/-- Space, `_`, `=` and `:`. -/
def isSeparator (c : UInt8) : Bool := c = 32 ∨ c = 95 ∨ c = 61 ∨ c = 58

/-- The parts between separators that are not empty. -/
def words (s : Bytes) : List Bytes := (s.splitOnP isSeparator).filter (· ≠ [])

/-- In lower case, with one space for every run of separators but those at the ends. -/
def canonical (raw : Bytes) : Bytes := [32].intercalate (words (toLower raw))

/-- After trimming, the text begins or ends with a separator that is not a space. -/
def Dangling (raw : Bytes) : Prop :=
  (∃ c ∈ (trim raw).head?, isSeparator c) ∨ ∃ c ∈ (trim raw).getLast?, isSeparator c

instance (raw : Bytes) : Decidable (Dangling raw) :=
  inferInstanceAs (Decidable ((∃ c ∈ (trim raw).head?, isSeparator c) ∨ ∃ c ∈ (trim raw).getLast?, isSeparator c))

/-- The texts that are recognised. -/
def knownCommands : List Bytes :=
  recordOnCommands ++ recordOffCommands ++ ["record toggle", "flush", "stats", "status"].map str

/-- The commands do the same to the recording, and are answered alike. -/
def SameEffect (s : Receiver) (io : Stdio) (a b : Bytes) : Prop :=
  (s.handleCommand a io).1.recording = (s.handleCommand b io).1.recording ∧
    (s.handleCommand a io).1.writer = (s.handleCommand b io).1.writer ∧
    (s.handleCommand a io).2 = (s.handleCommand b io).2

end Spec

section Collapse

/-- The loop of `handle_command` over the characters, after a space or not, on what separators are replaced in. -/
def collapse (space : Bool) : Bytes → Bytes
  | [] => []
  | c :: s =>
    if isSeparator c then if space then collapse true s else 32 :: collapse true s
    else c :: collapse false s

/-- Whether a space was last. -/
def afterSpace (space : Bool) (s : Bytes) : Bool := (s.getLast?.map isSeparator).getD space

theorem isSeparator_iff (c : UInt8) : isSeparator c = true ↔ c = 32 ∨ c = 95 ∨ c = 61 ∨ c = 58 := by
  simp [isSeparator]

theorem collapse_eq (s norm : Bytes) :
    (s.map fun c => if c = 95 ∨ c = 61 ∨ c = 58 then 32 else c).foldl
      (fun norm c => if c = 32 ∧ norm.getLast? = some 32 then norm else norm ++ [c]) norm =
      norm ++ collapse (decide (norm.getLast? = some 32)) s := by
  induction s generalizing norm with
  | nil => simp [collapse]
  | cons c s ih =>
    rw [List.map_cons, List.foldl_cons, collapse]
    by_cases sep : isSeparator c
    · have replaced : (if c = 95 ∨ c = 61 ∨ c = 58 then 32 else c) = 32 := by
        rcases (isSeparator_iff c).1 sep with rfl | other
        · rfl
        · exact if_pos other
      rw [replaced, if_pos sep]
      by_cases space : norm.getLast? = some 32
      · rw [if_pos ⟨rfl, space⟩, ih, if_pos (by simp [space])]
        simp [space]
      · rw [if_neg (by simp [space]), ih, if_neg (by simp [space])]
        simp
    · have kept : (if c = 95 ∨ c = 61 ∨ c = 58 then 32 else c) = c := by
        rw [if_neg]
        exact fun other => sep ((isSeparator_iff c).2 (.inr other))
      have other : c ≠ 32 := fun same => sep ((isSeparator_iff c).2 (.inl same))
      rw [kept, if_neg sep, if_neg (by simp [other]), ih]
      simp [other]

theorem normalizeCommand_eq (raw : Bytes) : normalizeCommand raw = collapse false (toLower (trim raw)) := by
  unfold normalizeCommand
  simp only [collapse_eq, List.nil_append]
  rfl

theorem collapse_append (space : Bool) (s t : Bytes) :
    collapse space (s ++ t) = collapse space s ++ collapse (afterSpace space s) t := by
  induction s generalizing space with
  | nil => rfl
  | cons c s ih =>
    have next (b : Bool) : afterSpace (isSeparator c) s = afterSpace b (c :: s) := by
      unfold afterSpace
      cases s with
      | nil => rfl
      | cons d s =>
        rw [List.getLast?_cons_cons]
        cases h : (d :: s).getLast? with
        | none => simp at h
        | some e => rfl
    rw [List.cons_append, collapse, collapse]
    by_cases sep : isSeparator c
    · rw [if_pos sep, if_pos sep, ih, ← next space, sep]
      split
      · rfl
      · rfl
    · have no : isSeparator c = false := by simpa using sep
      rw [if_neg sep, if_neg sep, ih, ← next space, no]
      rfl

/-- The text of words: one, and a space before each of the others. -/
theorem intercalate_cons (w : Bytes) (ws : List Bytes) : [32].intercalate (w :: ws) = w ++ ws.flatMap (32 :: ·) := by
  induction ws generalizing w with
  | nil => simp
  | cons v ws ih =>
    rw [List.intercalate_cons_cons, ih, List.flatMap_cons]
    simp

/-- A space at the end that no word follows. -/
def Tail (t : Bytes) : Prop := t = [] ∨ t = [32]

/-- What the loop leaves: the words, and perhaps a space at the end. In a word it goes on with the rest of it. -/
theorem collapse_words (s : Bytes) :
    (∃ first others t, s.splitOnP isSeparator = first :: others ∧ Tail t ∧
      collapse false s = first ++ (others.filter (· ≠ [])).flatMap (32 :: ·) ++ t) ∧
    ∃ t, Tail t ∧ (words s = [] → t = []) ∧ collapse true s = [32].intercalate (words s) ++ t := by
  induction s with
  | nil => exact ⟨⟨[], [], [], by simp, .inl rfl, rfl⟩, [], .inl rfl, fun _ => rfl, rfl⟩
  | cons c s ih =>
    obtain ⟨⟨first, others, t, split, tail, inside⟩, t', tail', empty, after⟩ := ih
    by_cases sep : isSeparator c
    · have split' : (c :: s).splitOnP isSeparator = [] :: s.splitOnP isSeparator := by
        rw [List.splitOnP_cons_eq_if_modifyHead, if_pos sep]
      have same : words (c :: s) = words s := by
        unfold words
        rw [split', List.filter_cons_of_neg (by simp)]
      refine ⟨?_, t', tail', same ▸ empty, ?_⟩
      · rw [collapse, if_pos sep, if_neg (by simp), after]
        cases ws : words s with
        | nil =>
          refine ⟨[], s.splitOnP isSeparator, [32], split', .inr rfl, ?_⟩
          rw [empty ws, show (s.splitOnP isSeparator).filter (· ≠ []) = [] from ws]
          rfl
        | cons w ws' =>
          refine ⟨[], s.splitOnP isSeparator, t', split', tail', ?_⟩
          rw [show (s.splitOnP isSeparator).filter (· ≠ []) = w :: ws' from ws, intercalate_cons]
          simp
      · rw [collapse, if_pos sep, if_pos rfl, after, same]
    · have split' : (c :: s).splitOnP isSeparator = (c :: first) :: others := by
        rw [List.splitOnP_cons_eq_if_modifyHead, if_neg sep, split, List.modifyHead_cons]
      have head : words (c :: s) = (c :: first) :: others.filter (· ≠ []) := by
        unfold words
        rw [split', List.filter_cons_of_pos (by simp)]
      refine ⟨⟨c :: first, others, t, split', tail, ?_⟩, t, tail, ?_, ?_⟩
      · rw [collapse, if_neg sep, inside]
        rfl
      · rw [head]
        exact fun no => absurd no (by simp)
      · rw [collapse, if_neg sep, inside, head, intercalate_cons]
        rfl

end Collapse

section Ends

variable {raw : Bytes}

/-- What is left of spaces is spaces. -/
theorem collapse_spaces {s : Bytes} (spaces : ∀ c ∈ s, isSpace c) (space : Bool) : ∀ c ∈ collapse space s, isSpace c := by
  induction s generalizing space with
  | nil => simp [collapse]
  | cons c s ih =>
    have later := ih fun d mem => spaces d (List.mem_cons_of_mem _ mem)
    have here := spaces c (List.mem_cons_self ..)
    have blank : isSpace 32 := by decide
    rw [collapse]
    split
    · split
      · exact later true
      · intro d mem
        rcases List.mem_cons.1 mem with rfl | mem
        · exact blank
        · exact later true d mem
    · intro d mem
      rcases List.mem_cons.1 mem with rfl | mem
      · exact here
      · exact later false d mem

theorem isSpace_lower (c : UInt8) : isSpace (lowerChar c) = isSpace c := by
  have every : ∀ c : Fin 256, isSpace (lowerChar (UInt8.ofNat c)) = isSpace (UInt8.ofNat c) := by decide +kernel
  have one := every ⟨c.toNat, c.toNat_lt⟩
  rwa [UInt8.ofNat_toNat] at one

theorem isSeparator_lower (c : UInt8) : isSeparator (lowerChar c) = isSeparator c := by
  have every : ∀ c : Fin 256, isSeparator (lowerChar (UInt8.ofNat c)) = isSeparator (UInt8.ofNat c) := by decide +kernel
  have one := every ⟨c.toNat, c.toNat_lt⟩
  rwa [UInt8.ofNat_toNat] at one

/-- A text is its trimmed part between spaces. -/
theorem trim_split (s : Bytes) : ∃ a d, s = a ++ trim s ++ d ∧ (∀ c ∈ a, isSpace c) ∧ (∀ c ∈ d, isSpace c) ∧
    (∀ c ∈ (trim s).head?, ¬ isSpace c) ∧ ∀ c ∈ (trim s).getLast?, ¬ isSpace c := by
  have starts : ∀ u : Bytes, ∀ c ∈ (u.dropWhile isSpace).head?, ¬ isSpace c := by
    intro u c mem
    have no := List.head?_dropWhile_not isSpace u
    rw [Option.mem_def.1 mem] at no
    simpa using no
  obtain ⟨u, hu⟩ : ∃ u, u = s.dropWhile isSpace := ⟨_, rfl⟩
  have turned : u = trim s ++ (u.reverse.takeWhile isSpace).reverse := by
    unfold trim
    rw [← hu, ← List.reverse_append, List.takeWhile_append_dropWhile, List.reverse_reverse]
  refine ⟨s.takeWhile isSpace, (u.reverse.takeWhile isSpace).reverse, ?_, fun c mem => List.mem_takeWhile_imp mem,
    fun c mem => List.mem_takeWhile_imp (List.mem_reverse.1 mem), ?_, ?_⟩
  · rw [List.append_assoc, ← turned, hu, List.takeWhile_append_dropWhile]
  · intro c mem
    refine starts s c ?_
    rw [← hu, turned, List.head?_append, Option.mem_def.1 mem]
    rfl
  · intro c mem
    unfold trim at mem
    rw [List.getLast?_reverse] at mem
    exact starts _ c mem

/-- What neither begins nor ends with a space is trimmed. -/
theorem trim_eq_self {s : Bytes} (first : ∀ c ∈ s.head?, ¬ isSpace c) (last : ∀ c ∈ s.getLast?, ¬ isSpace c) : trim s = s := by
  obtain ⟨a, d, split, ha, hd, _⟩ := trim_split s
  have front : a = [] := by
    cases a with
    | nil => rfl
    | cons c a =>
      refine absurd (ha c (List.mem_cons_self ..)) (first c ?_)
      rw [split]
      rfl
  have back : d = [] := by
    rcases List.eq_nil_or_concat d with empty | ⟨d', c, ends_⟩
    · exact empty
    · rw [List.concat_eq_append] at ends_
      refine absurd (hd c (by simp [ends_])) (last c ?_)
      rw [split, ends_, ← List.append_assoc, List.getLast?_concat]
      rfl
  rw [front, back, List.nil_append, List.append_nil] at split
  exact split.symm

theorem toLower_append (s t : Bytes) : toLower (s ++ t) = toLower s ++ toLower t := List.map_append

theorem spaces_lower {s : Bytes} (spaces : ∀ c ∈ s, isSpace c) : ∀ c ∈ toLower s, isSpace c := by
  intro c mem
  obtain ⟨b, inside, rfl⟩ := List.mem_map.1 mem
  rw [isSpace_lower]
  exact spaces b inside

/-- The loop ends with a space where a separator was last. -/
theorem collapse_last {s : Bytes} (after : afterSpace false s = true) : (collapse false s).getLast? = some 32 := by
  induction s using List.reverseRecOn with
  | nil => cases after
  | append_singleton s c ih =>
    have sep : isSeparator c = true := by
      unfold afterSpace at after
      rw [List.getLast?_concat] at after
      exact after
    rw [collapse_append, collapse, if_pos sep]
    by_cases before : afterSpace false s = true
    · rw [if_pos before]
      simpa [collapse] using ih before
    · rw [if_neg before]
      simp [collapse]

/-- Where no separator is left at the ends, what is recognised is the trimmed text of the words. -/
theorem normalizeCommand_plain (plain : ¬ Dangling raw) : normalizeCommand raw = trim (canonical raw) := by
  obtain ⟨a, d, split, ha, hd, first, last⟩ := trim_split raw
  obtain ⟨_, t, tail, _, looped⟩ := collapse_words (toLower raw)
  have spaces : ∀ c ∈ t, isSpace c := by
    rcases tail with rfl | rfl
    · simp
    · intro c mem
      rw [List.mem_singleton.1 mem]
      decide
  have whole : trim (canonical raw) = trim (collapse true (toLower raw)) := by
    rw [looped, trim_after spaces]
    rfl
  have lower : toLower raw = toLower a ++ toLower (trim raw) ++ toLower d := by
    rw [← toLower_append, ← toLower_append, ← split]
  rw [whole, normalizeCommand_eq, lower, collapse_append, collapse_append, trim_after (collapse_spaces (spaces_lower hd) _),
    trim_before (collapse_spaces (spaces_lower ha) _)]
  cases begins : trim raw with
  | nil => rfl
  | cons c s =>
    have word : isSeparator (lowerChar c) = false := by
      rw [isSeparator_lower]
      by_contra sep
      exact plain (.inl ⟨c, by rw [begins]; rfl, by simpa using sep⟩)
    have start (space : Bool) : collapse space (toLower (c :: s)) = lowerChar c :: collapse false (toLower s) := by
      change collapse space (lowerChar c :: toLower s) = _
      rw [collapse, if_neg (by simp [word])]
    rw [start, start]
    refine (trim_eq_self ?_ ?_).symm
    · rintro x ⟨⟩
      rw [isSpace_lower]
      exact first c (by rw [begins]; rfl)
    · obtain ⟨s', e, ends⟩ : ∃ s' e, trim raw = s' ++ [e] := by
        rcases List.eq_nil_or_concat (trim raw) with empty | ⟨s', e, ends_⟩
        · rw [begins] at empty
          cases empty
        · exact ⟨s', e, ends_.trans (List.concat_eq_append ..)⟩
      have final : (trim raw).getLast? = some e := by rw [ends, List.getLast?_concat]
      have letter : isSeparator (lowerChar e) = false := by
        rw [isSeparator_lower]
        by_contra sep
        exact plain (.inr ⟨e, final, by simpa using sep⟩)
      have stop : collapse false (toLower (trim raw)) = collapse false (toLower s') ++ [lowerChar e] := by
        rw [ends, toLower_append, collapse_append]
        change _ ++ collapse _ [lowerChar e] = _
        rw [collapse, if_neg (by simp [letter])]
        rfl
      rw [← start false, ← begins, stop, List.getLast?_concat]
      rintro x ⟨⟩
      rw [isSpace_lower]
      exact last e final

/-- A separator that is left at an end is a space there. -/
theorem normalizeCommand_dangling (dangling : Dangling raw) :
    (normalizeCommand raw).head? = some 32 ∨ (normalizeCommand raw).getLast? = some 32 := by
  rw [normalizeCommand_eq]
  rcases dangling with ⟨c, begins, sep⟩ | ⟨e, ends, sep⟩
  · left
    obtain ⟨s, eq⟩ := List.head?_eq_some_iff.1 begins
    rw [eq]
    change (collapse false (lowerChar c :: toLower s)).head? = _
    rw [collapse, if_pos (by rw [isSeparator_lower]; exact sep), if_neg (by simp)]
    rfl
  · right
    obtain ⟨s, eq⟩ := List.getLast?_eq_some_iff.1 ends
    refine collapse_last ?_
    rw [eq, toLower_append]
    unfold afterSpace
    change (Option.map isSeparator (toLower s ++ [lowerChar e]).getLast?).getD false = true
    rw [List.getLast?_concat]
    change isSeparator (lowerChar e) = true
    rw [isSeparator_lower]
    exact sep

theorem known_ends : ∀ k ∈ knownCommands, k.head? ≠ some 32 ∧ k.getLast? ≠ some 32 := by decide

theorem dangling_unknown (dangling : Dangling raw) : normalizeCommand raw ∉ knownCommands := by
  intro known
  obtain ⟨first, last⟩ := known_ends _ known
  rcases normalizeCommand_dangling dangling with bad | bad
  · exact first bad
  · exact last bad

end Ends

section Effect

variable {s : Receiver} {io : Stdio} {a b raw : Bytes}

theorem handleCommand_congr (same : normalizeCommand a = normalizeCommand b) : s.handleCommand a io = s.handleCommand b io := by
  unfold handleCommand
  rw [same]

theorem handleCommand_unknown (unknown : normalizeCommand raw ∉ knownCommands) :
    s.handleCommand raw io = ({ s with stats := { s.stats with commands := s.stats.commands + 1 } }, false) := by
  unfold knownCommands at unknown
  simp only [List.mem_append, List.map_cons, List.map_nil, List.mem_cons, List.not_mem_nil, or_false, not_or] at unknown
  obtain ⟨⟨on, off⟩, toggle, flush, stats, status⟩ := unknown
  unfold handleCommand
  simp only
  rw [if_neg on, if_neg off, if_neg toggle, if_neg flush, if_neg (by simp [stats, status])]

/-- A receiver that is recording carries out what it recognises. -/
theorem handleCommand_known (known : normalizeCommand raw ∈ knownCommands) :
    (({ create {} with recording := true, writer := { isOpen := true } } : Receiver).handleCommand raw {}).2 = true := by
  unfold knownCommands at known
  simp only [List.mem_append, List.map_cons, List.map_nil, List.mem_cons, List.not_mem_nil, or_false] at known
  unfold handleCommand
  simp only
  by_cases on : normalizeCommand raw ∈ recordOnCommands
  · rw [if_pos on]
    rfl
  · rw [if_neg on]
    by_cases off : normalizeCommand raw ∈ recordOffCommands
    · rw [if_pos off]
      rfl
    · rw [if_neg off]
      rcases known with (known | known) | toggle | flush | stats | status
      · exact absurd known on
      · exact absurd known off
      · rw [if_pos toggle]
        rfl
      · rw [if_neg (by rw [flush]; decide), if_pos flush]
        rfl
      · rw [if_neg (by rw [stats]; decide), if_neg (by rw [stats]; decide), if_pos (.inl stats)]
      · rw [if_neg (by rw [status]; decide), if_neg (by rw [status]; decide), if_pos (.inr status)]

theorem known_iff (raw : Bytes) : normalizeCommand raw ∈ knownCommands ↔ ¬ Dangling raw ∧ trim (canonical raw) ∈ knownCommands := by
  by_cases dangling : Dangling raw
  · exact ⟨fun known => absurd known (dangling_unknown dangling), fun ⟨plain, _⟩ => absurd dangling plain⟩
  · rw [normalizeCommand_plain dangling]
    exact ⟨fun known => ⟨dangling, known⟩, fun ⟨_, known⟩ => known⟩

/-- Commands that differ in case and separators alone have the same effect, unless they ask for something and one of them
begins or ends with a separator that trimming leaves. -/
theorem command_text_iff (a b : Bytes) (alike : canonical a = canonical b) :
    (∀ (s : Receiver) (io : Stdio), SameEffect s io a b) ↔
      (trim (canonical a) ∈ knownCommands → (Dangling a ↔ Dangling b)) := by
  have ka := known_iff a
  have kb := known_iff b
  rw [← alike] at kb
  constructor
  · intro same known
    have answers := (same { create {} with recording := true, writer := { isOpen := true } } {}).2.2
    by_cases da : Dangling a
    · by_cases db : Dangling b
      · exact iff_of_true da db
      · rw [handleCommand_unknown (dangling_unknown da), handleCommand_known (kb.2 ⟨db, known⟩)] at answers
        cases answers
    · by_cases db : Dangling b
      · rw [handleCommand_known (ka.2 ⟨da, known⟩), handleCommand_unknown (dangling_unknown db)] at answers
        cases answers
      · exact iff_of_false da db
  · intro condition s io
    have equal : s.handleCommand a io = s.handleCommand b io := by
      by_cases known : trim (canonical a) ∈ knownCommands
      · by_cases da : Dangling a
        · have db := (condition known).1 da
          rw [handleCommand_unknown (dangling_unknown da), handleCommand_unknown (dangling_unknown db)]
        · have db : ¬ Dangling b := fun db => da ((condition known).2 db)
          exact handleCommand_congr (by rw [normalizeCommand_plain da, normalizeCommand_plain db, alike])
      · rw [handleCommand_unknown fun inside => known (ka.1 inside).2, handleCommand_unknown fun inside => known (kb.1 inside).2]
    unfold SameEffect
    rw [equal]
    exact ⟨rfl, rfl, rfl⟩

theorem command_text_iff_lab : SameEffect { cfg := {} } {} (str "record on") (str " Record__=ON ") := by
  refine (command_text_iff (str "record on") (str " Record__=ON ") (by decide +kernel)).2 (fun _ => ?_) _ _
  exact iff_of_false (by decide) (by decide)

/-- A separator at the end is not ignored. -/
theorem separator_not_ignored : canonical (str "flush") = canonical (str "flush_") ∧
    ¬ ∀ (s : Receiver) (io : Stdio), SameEffect s io (str "flush") (str "flush_") := by
  refine ⟨by decide +kernel, fun same => ?_⟩
  have answers := (same { cfg := {} } {}).2.2
  revert answers
  decide

end Effect

end IpcRelay.Receiver
