import IpcRelay.Common.JsonUtf8
import IpcRelay.Ctl.JsonMeaning

/-!
# What the parser makes of UTF-8

The strings of a value are UTF-8 if the text is: bytes are copied between ASCII
characters, and an escape is one character or half of one. What the parser
reports of a text is ASCII, whatever the text is.
-/

namespace IpcRelay.Ctl.Json

/-- The text of a string. -/
def Value.texts : Value → List Bytes
  | .string t => [t]
  | _ => []

/-- The text of a value is UTF-8, or are those of its members. -/
def Value.Encoded : Value → Prop
  | .object members => ∀ m ∈ members, ∀ t ∈ m.2.texts, Utf8 t
  | v => ∀ t ∈ v.texts, Utf8 t

/-- What a function yields has a property, and what it reports is ASCII. -/
structure Clean {α : Type} (P : α → Prop) (r : Except Failure α) : Prop where
  yields : ∀ a, r = .ok a → P a
  reports : ∀ what pos, r = .error (.wrong what pos) → Ascii what

section Rules

variable {α β : Type} {P : α → Prop} {Q : β → Prop}

theorem Clean.ok {a : α} (h : P a) : Clean P (.ok a) where
  yields a' same := by
    cases same
    exact h
  reports _ _ same := by cases same

theorem Clean.fault (f : Fault) : Clean P (.error (.fault f)) where
  yields _ same := by cases same
  reports _ _ same := by cases same

theorem clean_fail {what : String} {pos : Nat} (ascii : (what.toList.all fun c => c.toNat < 128) = true := by decide +kernel) :
    Clean P (fail what pos) where
  yields _ same := by cases same
  reports what' pos' same := by
    cases same
    exact ascii_str ascii

theorem Clean.bind {r : Except Failure α} {f : α → Except Failure β} (first : Clean P r)
    (rest : ∀ a, P a → Clean Q (f a)) : Clean Q (r >>= f) := by
  cases r with
  | ok a => exact rest a (first.yields a rfl)
  | error e =>
    constructor
    · exact fun _ same => by cases same
    · intro what pos same
      exact first.reports what pos (by rw [show e = .wrong what pos from Except.error.inj same])

end Rules

section Strings

variable {s : Bytes}

theorem clean_peek (pos : Nat) : Clean (fun c => s[pos]? = some c) (peek s pos) := by
  unfold peek
  split
  next clean => exact .ok clean
  next => exact .fault _

theorem digitValue_lt {c : UInt8} {d : Nat} (h : digitValue c = some d) : d < 16 ∧ c < 0x80 := by
  have every : ∀ c : Fin 256, ∀ d ∈ digitValue (UInt8.ofNat c), d < 16 ∧ UInt8.ofNat c < 0x80 := by decide +kernel
  have one := every ⟨c.toNat, c.toNat_lt⟩ d
  rw [UInt8.ofNat_toNat] at one
  exact one h

theorem clean_hexDigits {start : Nat} (n : Nat) : ∀ i out, Clean (fun cp => cp < (out + 1) * 16 ^ n ∧
    (Utf8 (s.drop (start + i)) → Utf8 (s.drop (start + i + n)))) (hexDigits s start n i out) := by
  induction n with
  | zero => exact fun i out => .ok ⟨by omega, id⟩
  | succ n ih =>
    intro i out
    unfold hexDigits
    refine (clean_peek _).bind fun c here => ?_
    split
    · exact clean_fail
    next d digit =>
      obtain ⟨small, ascii⟩ := digitValue_lt digit
      obtain ⟨yields, reports⟩ := ih (i + 1) (out <<< 4 ||| d)
      refine ⟨fun cp read => ?_, reports⟩
      obtain ⟨bound, rest⟩ := yields cp read
      constructor
      · have sum : out <<< 4 ||| d = out * 16 + d := by
          rw [Nat.shiftLeft_eq, Nat.mul_comm]
          exact (Nat.two_pow_add_eq_or_of_lt (i := 4) small out).symm
        rw [sum] at bound
        calc cp < (out * 16 + d + 1) * 16 ^ n := bound
          _ ≤ ((out + 1) * 16) * 16 ^ n := Nat.mul_le_mul_right _ (by omega)
          _ = (out + 1) * 16 ^ (n + 1) := by ring
      · intro whole
        rw [drop_of_get here] at whole
        have after := rest (whole.tail ascii)
        rwa [show start + (i + 1) + n = start + i + (n + 1) by omega] at after

theorem clean_hex4 (pos : Nat) : Clean (fun r : Parsed Nat => r.1 < 0x10000 ∧
    (Utf8 (s.drop pos) → Utf8 (s.drop r.2))) (hex4 s pos) := by
  unfold hex4
  split
  · exact clean_fail
  · refine (clean_hexDigits 4 0 0).bind fun cp ⟨bound, rest⟩ => .ok ⟨by omega, ?_⟩
    exact rest

theorem clean_unicodeEscape (pos : Nat) : Clean (fun r : Parsed Nat => r.1.isValidChar ∧
    (Utf8 (s.drop pos) → Utf8 (s.drop r.2))) (unicodeEscape s pos) := by
  unfold unicodeEscape
  refine (clean_hex4 pos).bind fun (cp, pos') ⟨bound, rest⟩ => ?_
  dsimp only at bound rest ⊢
  split
  · split
    · exact clean_fail
    next pair =>
      refine (clean_hex4 _).bind fun (lo, pos'') ⟨bound', rest'⟩ => ?_
      dsimp only at bound' rest' ⊢
      split
      · exact clean_fail
      next low =>
        have split : s.drop pos' = 92 :: 117 :: s.drop (pos' + 2) := by
          rw [← List.take_append_drop 2 (s.drop pos'), not_not.1 pair, List.drop_drop]
          rfl
        refine .ok ⟨.inr ?_, fun whole => rest' ?_⟩
        · rw [Nat.shiftLeft_eq]
          omega
        · have after := rest whole
          rw [split] at after
          exact (after.tail (by decide)).tail (by decide)
  · split
    · exact clean_fail
    next single => exact .ok ⟨by unfold Nat.isValidChar; omega, rest⟩

example : (unicodeEscape (str "\\ud83d\\ude00") 2).toOption = some (0x1F600, 12) := by decide +kernel

theorem unescape_ascii {e b : UInt8} (h : unescape e = some b) : e < 0x80 ∧ b < 0x80 := by
  unfold unescape at h
  grind

/-- What was copied and what is to come are one UTF-8 text. -/
theorem clean_stringLoop (fuel : Nat) : ∀ pos out, Clean (fun r : Parsed Bytes => Utf8 (out ++ s.drop pos) → Utf8 r.1)
    (stringLoop s fuel pos out) := by
  induction fuel with
  | zero => exact fun _ _ => .fault _
  | succ fuel ih =>
    intro pos out
    -- the loop goes on
    have next (pos' : Nat) (out' : Bytes) (same : Utf8 (out ++ s.drop pos) → Utf8 (out' ++ s.drop pos')) :
        Clean (fun r : Parsed Bytes => Utf8 (out ++ s.drop pos) → Utf8 r.1) (stringLoop s fuel pos' out') :=
      ⟨fun r read whole => (ih pos' out').yields r read (same whole), (ih pos' out').reports⟩
    unfold stringLoop
    split
    · exact clean_fail
    refine (clean_peek _).bind fun c here => ?_
    have here := drop_of_get here
    split
    next quote =>
      refine .ok fun whole => ?_
      rw [here, quote] at whole
      exact (whole.split (by decide)).1
    split
    · exact clean_fail
    split
    next =>
      refine next _ _ fun whole => ?_
      rw [here] at whole
      rwa [List.append_assoc]
    next backslash =>
      obtain rfl := not_not.1 backslash
      split
      · exact clean_fail
      refine (clean_peek _).bind fun e there => ?_
      rw [drop_of_get there] at here
      have ends (ascii : e < 0x80) (whole : Utf8 (out ++ s.drop pos)) : Utf8 out ∧ Utf8 (s.drop (pos + 2)) := by
        rw [here] at whole
        obtain ⟨before, after⟩ := whole.split (by decide)
        exact ⟨before, after.tail ascii⟩
      split
      next b known =>
        obtain ⟨ascii, ascii'⟩ := unescape_ascii known
        refine next _ _ fun whole => ?_
        obtain ⟨before, after⟩ := ends ascii whole
        exact (before.append (.of_byte ascii')).append after
      next =>
        split
        next isU =>
          refine (clean_unicodeEscape _).bind fun (cp, pos') ⟨valid, rest⟩ => ?_
          refine next _ _ fun whole => ?_
          obtain ⟨before, after⟩ := ends (isU ▸ by decide) whole
          rw [appendUtf8_eq valid]
          exact (before.append ⟨[Char.ofNat cp], by simp [utf8]⟩).append (rest after)
        next => exact clean_fail

theorem clean_string {pos : Nat} (quote : s[pos]? = some 34) :
    Clean (fun r : Parsed Bytes => Utf8 s → Utf8 r.1) (string s pos) := by
  obtain ⟨yields, reports⟩ := clean_stringLoop (s := s) (s.length + 1) (pos + 1) []
  refine ⟨fun r read whole => yields r read ?_, reports⟩
  rw [← List.take_append_drop pos s, drop_of_get quote] at whole
  exact (whole.split (by decide)).2

end Strings

section Values

variable {s : Bytes}

/-- A value of a UTF-8 text is encoded. -/
def YieldsEncoded (s : Bytes) (r : Parsed Value) : Prop := Utf8 s → r.1.Encoded

theorem clean_literal {pos : Nat} {word : String} {v : Value} (plain : v.Encoded) :
    Clean (YieldsEncoded s) (literal s pos word v) := by
  unfold literal
  split
  · exact .ok fun _ => plain
  · exact clean_fail

theorem clean_number (start : Nat) : Clean (YieldsEncoded s) (number s start) := by
  have int (pos : Nat) : Clean (fun _ => True) (intPart s pos) := by
    unfold intPart
    split
    · exact clean_fail
    refine (clean_peek _).bind fun c _ => ?_
    split
    · exact .ok trivial
    split
    · exact .ok trivial
    · exact clean_fail
  have frac (pos : Nat) : Clean (fun _ => True) (fracPart s pos) := by
    unfold fracPart
    split
    · split
      · exact .ok trivial
      · exact clean_fail
    · exact .ok trivial
  have exp (pos : Nat) : Clean (fun _ => True) (expPart s pos) := by
    unfold expPart
    split
    · dsimp only
      split
      · exact .ok trivial
      · exact clean_fail
    · exact .ok trivial
  unfold number
  refine (int _).bind fun _ _ => (frac _).bind fun _ _ => (exp _).bind fun _ _ => .ok fun _ => ?_
  exact fun t mem => by cases mem

/-- The always of the induction over the nesting. -/
structure CleanFor (s : Bytes) (maxDepth fuel : Nat) : Prop where
  value : ∀ pos depth, Clean (YieldsEncoded s) (value s maxDepth fuel pos depth)
  object : ∀ pos depth, Clean (YieldsEncoded s) (object s maxDepth fuel pos depth)
  members : ∀ pos depth, Clean (fun r => Utf8 s → (Value.object r.1).Encoded) (members s maxDepth fuel pos depth)
  array : ∀ pos depth, Clean (YieldsEncoded s) (array s maxDepth fuel pos depth)
  elements : ∀ pos depth, Clean (fun _ => True) (elements s maxDepth fuel pos depth)

theorem Value.Encoded.texts {v : Value} (h : v.Encoded) : ∀ t ∈ v.texts, Utf8 t := by
  cases v with
  | object members => exact fun t mem => by cases mem
  | _ => exact h

theorem cleanFor (s : Bytes) (maxDepth fuel : Nat) : CleanFor s maxDepth fuel := by
  have silent {vs : List Value} : (Value.array vs).Encoded := fun t mem => by cases mem
  induction fuel with
  | zero =>
    refine ⟨?_, ?_, ?_, ?_, ?_⟩ <;> intro pos depth
    · unfold value; exact .fault _
    · unfold object; exact .fault _
    · unfold members; exact .fault _
    · unfold array; exact .fault _
    · unfold elements; exact .fault _
  | succ fuel ih =>
    refine ⟨?_, ?_, ?_, ?_, ?_⟩ <;> intro pos depth
    · unfold value
      split
      · exact clean_fail
      refine (clean_peek _).bind fun c here => ?_
      split
      · exact ih.object _ _
      split
      · exact ih.array _ _
      split
      next quote =>
        rw [quote] at here
        refine (clean_string here).bind fun r valid => .ok fun whole t mem => ?_
        rw [List.mem_singleton.1 mem]
        exact valid whole
      split
      · exact clean_literal fun t mem => by cases mem
      split
      · exact clean_literal fun t mem => by cases mem
      split
      · exact clean_literal fun t mem => by cases mem
      · exact clean_number _
    · unfold object
      split
      · exact clean_fail
      dsimp only
      split
      · exact .ok fun _ m mem => by cases mem
      · exact (ih.members _ _).bind fun _ valid => .ok valid
    · unfold members
      dsimp only
      split
      · exact clean_fail
      next quote =>
        refine (clean_string (not_not.1 quote)).bind fun _ _ => ?_
        split
        · exact clean_fail
        refine (ih.value _ _).bind fun v valid => ?_
        split
        · exact clean_fail
        split
        · refine (ih.members _ _).bind fun r rest => .ok fun whole m mem => ?_
          rcases List.mem_cons.1 mem with rfl | mem
          · exact (valid whole).texts
          · exact rest whole m mem
        split
        · refine .ok fun whole m mem => ?_
          rw [List.mem_singleton.1 mem]
          exact (valid whole).texts
        · exact clean_fail
    · unfold array
      split
      · exact clean_fail
      dsimp only
      split
      · exact .ok fun _ => silent
      · exact (ih.elements _ _).bind fun _ _ => .ok fun _ => silent
    · unfold elements
      refine (ih.value _ _).bind fun _ _ => ?_
      dsimp only
      split
      · exact clean_fail
      split
      · exact (ih.elements _ _).bind fun _ _ => .ok trivial
      split
      · exact .ok trivial
      · exact clean_fail

end Values

/-- The strings of a UTF-8 message are UTF-8. -/
theorem parse_encoded {text : Bytes} {maxDepth : Nat} {v : Value} (h : parse text maxDepth = .ok (.ok v)) (valid : Utf8 text) :
    v.Encoded := by
  unfold parse at h
  split at h
  · cases h
  · cases h
  next v' pos read =>
    dsimp only at h
    split at h
    · cases h
    · cases h
      exact ((cleanFor text maxDepth _).value _ _).yields _ read valid

/-- The error of a text is ASCII. -/
theorem parse_error_ascii {text e : Bytes} {maxDepth : Nat} (h : parse text maxDepth = .ok (.error e)) : Ascii e := by
  unfold parse at h
  split at h
  · cases h
  next what pos eq =>
    cases h
    exact ((((cleanFor text maxDepth _).value _ _).reports _ _ eq).append ascii_str).append (numText_ascii _)
  · dsimp only at h
    split at h
    · cases h
      exact .append ascii_str (numText_ascii _)
    · cases h

end IpcRelay.Ctl.Json
