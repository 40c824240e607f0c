import IpcRelay.Common.Config
import IpcRelay.Lib.Binary64
import IpcRelay.Lib.JsonGrammar
import IpcRelay.Lib.Machine

/-!
# The JSON parser (`tools/ctl/backend/json_value.cpp`)

The functions of `Parser` take the text and the position and return the new one,
or the text of the error with the position where it was found. The recursion
and the loops are bounded by `fuel`.
-/

namespace IpcRelay

open Binary64

/-- `strtod` on a decimal number, in the C locale. -/
def strtod (s : Bytes) : Double :=
  let (negative, s) := match s with
    | 45 :: s => (true, s)
    | 43 :: s => (false, s)
    | s => (false, s)
  let digits := s.takeWhile (isDigit 10)
  let rest := s.dropWhile (isDigit 10)
  let (fraction, rest) := match rest with
    | 46 :: rest => (rest.takeWhile (isDigit 10), rest.dropWhile (isDigit 10))
    | rest => ([], rest)
  let exponent : Int := match rest with
    | e :: rest =>
      if e = 101 ∨ e = 69 then
        match rest with
        | 45 :: rest => -((readDigits 10 rest).1 : Int)
        | 43 :: rest => (readDigits 10 rest).1
        | rest => (readDigits 10 rest).1
      else 0
    | [] => 0
  .ofDecimal negative (readDigits 10 (digits ++ fraction)).1 (exponent - fraction.length)

namespace Ctl.Json

inductive Value where
  | null
  | bool (b : Bool)
  | number (v : Double)
  | string (s : Bytes)
  | array (vs : List Value)
  /-- The members in document order. -/
  | object (members : List (Bytes × Value))
  deriving Repr

namespace Value

def isObject : Value → Bool
  | object _ => true
  | _ => false

/-- `get`: the first member of the key. -/
def get (v : Value) (key : Bytes) : Option Value :=
  match v with
  | object members => (members.find? fun m => m.1 = key).map Prod.snd
  | _ => none

end Value

/-- `error_` with `pos_`, or undefined behaviour. -/
inductive Failure where
  | wrong (what : Bytes) (pos : Nat)
  | fault (f : Fault)
  deriving DecidableEq, Repr

/-- What a function of `Parser` yields, with the position after it. -/
abbrev Parsed (α : Type) := α × Nat

def fail {α : Type} (what : String) (pos : Nat) : Except Failure α := .error (.wrong (str what) pos)

/-- `peek`. -/
def peek (s : Bytes) (pos : Nat) : Except Failure UInt8 :=
  match s[pos]? with
  | some c => .ok c
  | none => .error (.fault .outOfRange)

def skipWs (s : Bytes) (pos : Nat) : Nat := pos + ((s.drop pos).takeWhile JsonGrammar.isWs).length

def literal (s : Bytes) (pos : Nat) (word : String) (v : Value) : Except Failure (Parsed Value) :=
  if str word <+: s.drop pos then .ok (v, pos + (str word).length) else fail "invalid literal" pos

/-- The digits of `hex4`, with `n` to go. -/
def hexDigits (s : Bytes) (start : Nat) : Nat → Nat → Nat → Except Failure Nat
  | 0, _, out => .ok out
  | n + 1, i, out => do
    let c ← peek s (start + i)
    match digitValue c with
    | none => fail "invalid \\u escape" start
    | some d => hexDigits s start n (i + 1) (out <<< 4 ||| d)

/-- `hex4`. -/
def hex4 (s : Bytes) (pos : Nat) : Except Failure (Parsed Nat) :=
  if s.length - pos < 4 then fail "truncated \\u escape" pos
  else do
    let out ← hexDigits s pos 4 0 0
    .ok (out, pos + 4)

def appendUtf8 (cp : Nat) : Bytes :=
  if cp < 0x80 then [UInt8.ofNat cp]
  else if cp < 0x800 then [UInt8.ofNat (0xC0 ||| cp >>> 6), UInt8.ofNat (0x80 ||| cp &&& 0x3F)]
  else if cp < 0x10000 then
    [UInt8.ofNat (0xE0 ||| cp >>> 12), UInt8.ofNat (0x80 ||| cp >>> 6 &&& 0x3F), UInt8.ofNat (0x80 ||| cp &&& 0x3F)]
  else
    [UInt8.ofNat (0xF0 ||| cp >>> 18), UInt8.ofNat (0x80 ||| cp >>> 12 &&& 0x3F),
      UInt8.ofNat (0x80 ||| cp >>> 6 &&& 0x3F), UInt8.ofNat (0x80 ||| cp &&& 0x3F)]

/-- The character that an escape stands for. -/
def unescape (e : UInt8) : Option UInt8 :=
  if e = 34 ∨ e = 92 ∨ e = 47 then some e
  else if e = 98 then some 8
  else if e = 102 then some 12
  else if e = 110 then some 10
  else if e = 114 then some 13
  else if e = 116 then some 9
  else none

/-- The code point of a `\u` escape, from its first digit on. -/
def unicodeEscape (s : Bytes) (pos : Nat) : Except Failure (Parsed Nat) := do
  let (cp, pos) ← hex4 s pos
  if 0xD800 ≤ cp ∧ cp ≤ 0xDBFF then
    if (s.drop pos).take 2 ≠ [92, 117] then fail "unpaired surrogate" pos
    else do
      let (lo, pos) ← hex4 s (pos + 2)
      if lo < 0xDC00 ∨ 0xDFFF < lo then fail "unpaired surrogate" pos
      else .ok (0x10000 + (cp - 0xD800) <<< 10 + (lo - 0xDC00), pos)
  else if 0xDC00 ≤ cp ∧ cp ≤ 0xDFFF then fail "unpaired surrogate" pos
  else .ok (cp, pos)

/-- The loop of `string`. -/
def stringLoop (s : Bytes) : Nat → Nat → Bytes → Except Failure (Parsed Bytes)
  | 0, _, _ => .error (.fault .diverges)
  | fuel + 1, pos, out =>
    if s.length ≤ pos then fail "unterminated string" pos
    else do
      let c ← peek s pos
      if c = 34 then .ok (out, pos + 1)
      else if c < 0x20 then fail "control character in string" (pos + 1)
      else if c ≠ 92 then stringLoop s fuel (pos + 1) (out ++ [c])
      else if s.length ≤ pos + 1 then fail "unterminated escape" (pos + 1)
      else do
        let e ← peek s (pos + 1)
        match unescape e with
        | some b => stringLoop s fuel (pos + 2) (out ++ [b])
        | none =>
          if e = 117 then do
            let (cp, pos) ← unicodeEscape s (pos + 2)
            stringLoop s fuel pos (out ++ appendUtf8 cp)
          else fail "invalid escape" (pos + 2)

/-- `string`, from the opening quote on. -/
def string (s : Bytes) (pos : Nat) : Except Failure (Parsed Bytes) := stringLoop s (s.length + 1) (pos + 1) []

/-- `digits`: the position after them, if there are any. -/
def digits (s : Bytes) (pos : Nat) : Option Nat :=
  let n := ((s.drop pos).takeWhile JsonGrammar.isDigit).length
  if n > 0 then some (pos + n) else none

/-- The integer part of a number. -/
def intPart (s : Bytes) (pos : Nat) : Except Failure Nat := do
  if s.length ≤ pos then fail "invalid number" pos
  else
    let c ← peek s pos
    if c = 48 then .ok (pos + 1)
    else match digits s pos with
      | some pos => .ok pos
      | none => fail "invalid value" pos

/-- The fraction of a number, if it has one. -/
def fracPart (s : Bytes) (pos : Nat) : Except Failure Nat :=
  if s[pos]? = some 46 then
    match digits s (pos + 1) with
    | some pos => .ok pos
    | none => fail "invalid number" (pos + 1)
  else .ok pos

/-- The exponent of a number, if it has one. -/
def expPart (s : Bytes) (pos : Nat) : Except Failure Nat :=
  if s[pos]? = some 101 ∨ s[pos]? = some 69 then
    let pos := if s[pos + 1]? = some 43 ∨ s[pos + 1]? = some 45 then pos + 2 else pos + 1
    match digits s pos with
    | some pos => .ok pos
    | none => fail "invalid number" pos
  else .ok pos

/-- `number`. -/
def number (s : Bytes) (start : Nat) : Except Failure (Parsed Value) := do
  let pos := if s[start]? = some 45 then start + 1 else start
  let pos ← intPart s pos
  let pos ← fracPart s pos
  let pos ← expPart s pos
  .ok (.number (strtod ((s.drop start).take (pos - start))), pos)

mutual

/-- `value`. -/
def value (s : Bytes) (maxDepth : Nat) : Nat → Nat → Nat → Except Failure (Parsed Value)
  | 0, _, _ => .error (.fault .diverges)
  | fuel + 1, pos, depth =>
    if s.length ≤ pos then fail "unexpected end of input" pos
    else do
      let c ← peek s pos
      if c = 123 then object s maxDepth fuel pos (depth + 1)
      else if c = 91 then array s maxDepth fuel pos (depth + 1)
      else if c = 34 then do
        let (text, pos) ← string s pos
        .ok (.string text, pos)
      else if c = 116 then literal s pos "true" (.bool true)
      else if c = 102 then literal s pos "false" (.bool false)
      else if c = 110 then literal s pos "null" .null
      else number s pos

/-- `object`. -/
def object (s : Bytes) (maxDepth : Nat) : Nat → Nat → Nat → Except Failure (Parsed Value)
  | 0, _, _ => .error (.fault .diverges)
  | fuel + 1, pos, depth =>
    if depth > maxDepth then fail "nesting too deep" pos
    else
      let pos := skipWs s (pos + 1)
      if s[pos]? = some 125 then .ok (.object [], pos + 1)
      else do
        let (members, pos) ← members s maxDepth fuel pos depth
        .ok (.object members, pos)

/-- The loop of `object`. -/
def members (s : Bytes) (maxDepth : Nat) : Nat → Nat → Nat → Except Failure (Parsed (List (Bytes × Value)))
  | 0, _, _ => .error (.fault .diverges)
  | fuel + 1, pos, depth =>
    let pos := skipWs s pos
    if s[pos]? ≠ some 34 then fail "expected object key" pos
    else do
      let (key, pos) ← string s pos
      let pos := skipWs s pos
      if s[pos]? ≠ some 58 then fail "expected ':'" pos
      else do
        let (v, pos) ← value s maxDepth fuel (skipWs s (pos + 1)) depth
        let pos := skipWs s pos
        if s.length ≤ pos then fail "unterminated object" pos
        else if s[pos]? = some 44 then do
          let (rest, pos) ← members s maxDepth fuel (pos + 1) depth
          .ok ((key, v) :: rest, pos)
        else if s[pos]? = some 125 then .ok ([(key, v)], pos + 1)
        else fail "expected ',' or '\x7d'" pos

/-- `array`. -/
def array (s : Bytes) (maxDepth : Nat) : Nat → Nat → Nat → Except Failure (Parsed Value)
  | 0, _, _ => .error (.fault .diverges)
  | fuel + 1, pos, depth =>
    if depth > maxDepth then fail "nesting too deep" pos
    else
      let pos := skipWs s (pos + 1)
      if s[pos]? = some 93 then .ok (.array [], pos + 1)
      else do
        let (elements, pos) ← elements s maxDepth fuel pos depth
        .ok (.array elements, pos)

/-- The loop of `array`. -/
def elements (s : Bytes) (maxDepth : Nat) : Nat → Nat → Nat → Except Failure (Parsed (List Value))
  | 0, _, _ => .error (.fault .diverges)
  | fuel + 1, pos, depth => do
    let (v, pos) ← value s maxDepth fuel (skipWs s pos) depth
    let pos := skipWs s pos
    if s.length ≤ pos then fail "unterminated array" pos
    else if s[pos]? = some 44 then do
      let (rest, pos) ← elements s maxDepth fuel (pos + 1) depth
      .ok (v :: rest, pos)
    else if s[pos]? = some 93 then .ok ([v], pos + 1)
    else fail "expected ',' or ']'" pos

end

/-- Enough for a text of `n` bytes. -/
def fuelFor (n : Nat) : Nat := 3 * n + 1

/-- `parse`: the value, or the text of the error. -/
def parse (text : Bytes) (maxDepth : Nat := 64) : Exec (Except Bytes Value) :=
  match value text maxDepth (fuelFor text.length) (skipWs text 0) 0 with
  | .error (.fault f) => .error f
  | .error (.wrong what pos) => .ok (.error (what ++ str " at offset " ++ numText pos))
  | .ok (v, pos) =>
    let pos := skipWs text pos
    if pos ≠ text.length then .ok (.error (str "trailing characters at offset " ++ numText pos)) else .ok (.ok v)

section Scan

variable {s : Bytes} {pos : Nat}

theorem drop_of_get {b : UInt8} (h : s[pos]? = some b) : s.drop pos = b :: s.drop (pos + 1) := by
  obtain ⟨lt, rfl⟩ := List.getElem?_eq_some_iff.1 h
  exact List.drop_eq_getElem_cons lt

theorem peek_of_lt (lt : pos < s.length) : ∃ b, s[pos]? = some b ∧ peek s pos = .ok b := by
  refine ⟨s[pos], List.getElem?_eq_getElem lt, ?_⟩
  rw [peek, List.getElem?_eq_getElem lt]

theorem lt_of_get {b : UInt8} (h : s[pos]? = some b) : pos < s.length := (List.getElem?_eq_some_iff.1 h).1

theorem ws_takeWhile (l : Bytes) : JsonGrammar.Ws l (l.drop (l.takeWhile JsonGrammar.isWs).length) := by
  induction l with
  | nil => exact .nil
  | cons b l ih =>
    by_cases ws : JsonGrammar.isWs b = true
    · rw [List.takeWhile_cons_of_pos ws]
      exact .cons ws ih
    · rw [List.takeWhile_cons_of_neg ws]
      exact .nil

theorem skipWs_spec (le : pos ≤ s.length) : pos ≤ skipWs s pos ∧ skipWs s pos ≤ s.length ∧
    JsonGrammar.Ws (s.drop pos) (s.drop (skipWs s pos)) := by
  have short := (List.takeWhile_sublist (l := s.drop pos) JsonGrammar.isWs).length_le
  rw [List.length_drop] at short
  refine ⟨Nat.le_add_right _ _, by rw [skipWs]; omega, ?_⟩
  rw [skipWs, ← List.drop_drop]
  exact ws_takeWhile _

theorem digits_takeWhile (l : Bytes) (nonempty : 0 < (l.takeWhile JsonGrammar.isDigit).length) :
    JsonGrammar.Digits l (l.drop (l.takeWhile JsonGrammar.isDigit).length) := by
  induction l with
  | nil => exact absurd nonempty (Nat.lt_irrefl 0)
  | cons b l ih =>
    by_cases digit : JsonGrammar.isDigit b = true
    · rw [List.takeWhile_cons_of_pos digit] at nonempty ⊢
      rcases Nat.eq_zero_or_pos (l.takeWhile JsonGrammar.isDigit).length with last | more
      · rw [List.length_cons, last]
        exact .last digit
      · exact .cons digit (ih more)
    · rw [List.takeWhile_cons_of_neg digit] at nonempty
      exact absurd nonempty (Nat.lt_irrefl 0)

theorem digits_spec {pos' : Nat} (le : pos ≤ s.length) (h : digits s pos = some pos') :
    pos < pos' ∧ pos' ≤ s.length ∧ JsonGrammar.Digits (s.drop pos) (s.drop pos') := by
  have short := (List.takeWhile_sublist (l := s.drop pos) JsonGrammar.isDigit).length_le
  rw [List.length_drop] at short
  simp only [digits] at h
  split at h
  next more =>
    cases h
    refine ⟨by omega, by omega, ?_⟩
    rw [← List.drop_drop]
    exact digits_takeWhile _ more
  next => cases h

end Scan

end Ctl.Json

end IpcRelay
