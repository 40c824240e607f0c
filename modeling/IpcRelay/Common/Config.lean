import IpcRelay.Common.Memory

/-!
# Configuration sections and values (`common/config.hpp`, `common/config.cpp`, `common/log.cpp`)

The parsed configuration file and the conversion of its values. A parser with
an output parameter and an error text is a function into `Except Bytes`: on an
error the output keeps what it had. `scanInteger` is `strtoll`/`strtoull` with
base 0 up to the range check.
-/

namespace IpcRelay

structure ConfigEntry where
  key : Bytes
  value : Bytes
  line : Nat := 0
  deriving DecidableEq, Repr

structure ConfigSection where
  name : Bytes := []
  line : Nat := 0
  entries : List ConfigEntry := []
  deriving DecidableEq, Repr

/-- The global section, which is always there, and the named ones. -/
structure ConfigFile where
  global : ConfigSection := {}
  rest : List ConfigSection := []
  deriving DecidableEq, Repr

namespace ConfigSection

/-- The last assignment wins. -/
def find (s : ConfigSection) (key : Bytes) : Option ConfigEntry := s.entries.reverse.find? fun e => e.key = key

def get (s : ConfigSection) (key : Bytes) : Option Bytes := (s.find key).map ConfigEntry.value

end ConfigSection

namespace ConfigFile

def sections (f : ConfigFile) : List ConfigSection := f.global :: f.rest

def named (f : ConfigFile) (name : Bytes) : List ConfigSection := f.sections.filter fun s => s.name = name

end ConfigFile

/-- `isspace` in the C locale. -/
def isSpace (c : UInt8) : Bool := c = 32 ∨ 9 ≤ c ∧ c ≤ 13

def trim (s : Bytes) : Bytes := ((s.dropWhile isSpace).reverse.dropWhile isSpace).reverse

/-- `tolower` in the C locale. -/
def lowerChar (c : UInt8) : UInt8 := if 65 ≤ c ∧ c ≤ 90 then c + 32 else c

def toLower (s : Bytes) : Bytes := s.map lowerChar

/-- What a C function sees of a `std::string`. -/
def cStr (s : Bytes) : Bytes := s.takeWhile (· ≠ 0)

def quoted (s : Bytes) : Bytes := str "'" ++ s ++ str "'"

/-- `std::to_string`. -/
def numText (n : Int) : Bytes := str (toString n)

def digitValue (c : UInt8) : Option Nat :=
  if 48 ≤ c ∧ c ≤ 57 then some (c.toNat - 48)
  else if 97 ≤ c ∧ c ≤ 102 then some (c.toNat - 87)
  else if 65 ≤ c ∧ c ≤ 70 then some (c.toNat - 55)
  else none

def isDigit (base : Nat) (c : UInt8) : Bool := (digitValue c).any fun d => d < base

/-- The number at the front and what follows it. -/
def readDigits (base : Nat) (s : Bytes) : Nat × Bytes :=
  ((s.takeWhile (isDigit base)).foldl (fun n c => n * base + (digitValue c).getD 0) 0, s.dropWhile (isDigit base))

/-- Sign, magnitude and the first character after the number; `none` if there is no number. -/
def scanInteger (s : Bytes) : Option (Bool × Nat × Bytes) :=
  let s := s.dropWhile isSpace
  let neg := s.head? = some 45
  let s := if s.head? = some 45 ∨ s.head? = some 43 then s.drop 1 else s
  if s.head? = some 48 then
    -- a hexadecimal prefix counts only in front of a digit
    if (s[1]? = some 120 ∨ s[1]? = some 88) ∧ s[2]?.any (isDigit 16) then some (neg, readDigits 16 (s.drop 2))
    else some (neg, readDigits 8 s)
  else if s.head?.any (isDigit 10) then some (neg, readDigits 10 s)
  else none

def parseBool (s : Bytes) : Except Bytes Bool :=
  let v := toLower (trim s)
  if v = str "1" ∨ v = str "true" ∨ v = str "yes" ∨ v = str "on" then .ok true
  else if v = str "0" ∨ v = str "false" ∨ v = str "no" ∨ v = str "off" then .ok false
  else .error (quoted s ++ str " is not a boolean (use true/false)")

def parseI64 (s : Bytes) : Except Bytes Int :=
  let v := trim s
  if v = [] then .error (str "empty integer")
  else match scanInteger (cStr v) with
    | none => .error (quoted s ++ str " is not an integer")
    | some (neg, n, rest) =>
      if (if neg then n > 2 ^ 63 else n ≥ 2 ^ 63) ∨ rest ≠ [] then .error (quoted s ++ str " is not an integer")
      else .ok (if neg then -n else n)

def parseU64 (s : Bytes) : Except Bytes Nat :=
  let v := trim s
  if v = [] ∨ v.head? = some 45 then .error (quoted s ++ str " is not an unsigned integer")
  else match scanInteger (cStr v) with
    | none => .error (quoted s ++ str " is not an unsigned integer")
    | some (neg, n, rest) =>
      if n ≥ 2 ^ 64 ∨ rest ≠ [] then .error (quoted s ++ str " is not an unsigned integer")
      else .ok (if neg then (2 ^ 64 - n) % 2 ^ 64 else n)

def parseU32 (s : Bytes) : Except Bytes UInt32 := do
  let v ← parseU64 s
  if v > 0xFFFFFFFF then .error (quoted s ++ str " exceeds 32 bits")
  else .ok (UInt32.ofNat v)

def parseU16 (s : Bytes) : Except Bytes UInt16 := do
  let v ← parseU64 s
  if v > 0xFFFF then .error (quoted s ++ str " exceeds 16 bits")
  else .ok (UInt16.ofNat v)

inductive LogLevel where
  | error
  | warn
  | info
  | debug
  deriving DecidableEq, Repr

def parseLogLevel (text : Bytes) : Option LogLevel :=
  let t := toLower text
  if t = str "error" then some .error
  else if t = str "warn" ∨ t = str "warning" then some .warn
  else if t = str "info" then some .info
  else if t = str "debug" then some .debug
  else none

/-- The errors of a configuration, in the order in which they are found. -/
abbrev Errors := List Bytes

/-- The typed readers of one section; `errorPrefix` is their `where`. Every reader takes the
value that stays where the key is missing or the text is bad. -/
structure Reader where
  sec : ConfigSection
  errorPrefix : ConfigEntry → Bytes

namespace Reader

def str (r : Reader) (key : Bytes) (out : Bytes) : Bytes := (r.sec.get key).getD out

def outside (v lo hi : Int) : Bytes :=
  IpcRelay.str "value " ++ numText v ++ IpcRelay.str " outside [" ++ numText lo ++ IpcRelay.str ", " ++ numText hi ++
    IpcRelay.str "]"

def complain (r : Reader) (e : ConfigEntry) (key err : Bytes) : Errors :=
  [r.errorPrefix e ++ key ++ IpcRelay.str ": " ++ err]

def i32 (r : Reader) (key : Bytes) (out lo hi : Int) : Int × Errors :=
  match r.sec.find key with
  | none => (out, [])
  | some e =>
    match parseI64 e.value with
    | .error err => (out, r.complain e key err)
    | .ok v => if v < lo ∨ v > hi then (out, r.complain e key (outside v lo hi)) else (v, [])

def u32 (r : Reader) (key : Bytes) (out : UInt32) (lo hi : Nat) : UInt32 × Errors :=
  match r.sec.find key with
  | none => (out, [])
  | some e =>
    match parseU64 e.value with
    | .error err => (out, r.complain e key err)
    | .ok v => if v < lo ∨ v > hi then (out, r.complain e key (outside v lo hi)) else (UInt32.ofNat v, [])

def boolean (r : Reader) (key : Bytes) (out : Bool) : Bool × Errors :=
  match r.sec.find key with
  | none => (out, [])
  | some e =>
    match parseBool e.value with
    | .error err => (out, r.complain e key err)
    | .ok v => (v, [])

/-- A number that is in its range before is so after, whatever the file says. -/
theorem i32_range {r : Reader} {key : Bytes} {out lo hi : Int} (h : lo ≤ out ∧ out ≤ hi) :
    lo ≤ (r.i32 key out lo hi).1 ∧ (r.i32 key out lo hi).1 ≤ hi := by
  unfold i32
  split
  · exact h
  · split
    · exact h
    · split
      · exact h
      · rename_i inside
        exact ⟨by dsimp only; omega, by dsimp only; omega⟩

theorem u32_range {r : Reader} {key : Bytes} {out : UInt32} {lo hi : Nat} (small : hi < 2 ^ 32)
    (h : lo ≤ out.toNat ∧ out.toNat ≤ hi) :
    lo ≤ (r.u32 key out lo hi).1.toNat ∧ (r.u32 key out lo hi).1.toNat ≤ hi := by
  unfold u32
  split
  · exact h
  · split
    · exact h
    · split
      · exact h
      · rename_i v _ inside
        rw [show (UInt32.ofNat v).toNat = v from UInt32.toNat_ofNat_of_lt' (by show v < 2 ^ 32; omega)]
        omega

end Reader

end IpcRelay
