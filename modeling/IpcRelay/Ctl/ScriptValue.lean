import IpcRelay.Common.Decimals
import IpcRelay.Ctl.JsonValue
import IpcRelay.Lib.Rounding

/-!
# The values of the script

What the language of `tools/ctl/frontend/app.js` makes of the values that `JSON.parse`
returns: their members, their conversions and the order of numbers. An object with a
member `toString` has none to call, so its conversion throws; there it is `none`.
-/

namespace IpcRelay.Ctl.Frontend

open Binary64
open Json (Value)

section Members

/-- The property of an object. Of members of one name `JSON.parse` keeps the last. -/
def prop (v : Value) (k : Bytes) : Option Value :=
  match v with
  | .object ms => (ms.reverse.find? fun m => m.1 = k).map Prod.snd
  | _ => none

/-- `get`, with `none` for undefined. -/
def get (v : Option Value) (path : List Bytes) : Option Value := path.foldl (fun o k => o.bind (prop · k)) v

/-- Whether a value counts as true. -/
def truthy : Option Value → Bool
  | none | some .null | some (.bool false) => false
  | some (.number (.finite _ m _)) => m ≠ 0
  | some (.string s) => s ≠ []
  | _ => true

/-- The name of an element of an array. -/
def isIndex (name : Bytes) : Bool := name = numText (decimal name) ∧ decimal name < 2 ^ 32 - 1

/-- The length of a text in units of 16 bits. -/
def units (s : Bytes) : Nat := (s.filter fun c => c &&& 0xC0 ≠ 0x80).length + (s.filter (0xF0 ≤ ·)).length

/-- `Object.keys`: of an object, the indices in ascending order, and then the other names in the order of the text. -/
def objectKeys : Value → List Bytes
  | .object ms =>
    let names := (ms.map Prod.fst).reverse.dedup.reverse
    (names.filter (isIndex ·)).insertionSort (fun a b => decimal a ≤ decimal b) ++ names.filter (!isIndex ·)
  | .array vs => (List.range vs.length).map fun (i : Nat) => numText i
  | .string s => (List.range (units s)).map fun (i : Nat) => numText i
  | _ => []

/-- The names that every object has, and those of every array. -/
def objectNames : List Bytes := List.map str ["__defineGetter__", "__defineSetter__", "__lookupGetter__",
  "__lookupSetter__", "__proto__", "constructor", "hasOwnProperty", "isPrototypeOf", "propertyIsEnumerable",
  "toLocaleString", "toString", "valueOf"]

def arrayNames : List Bytes := List.map str ["at", "concat", "copyWithin", "entries", "every", "fill", "filter",
  "find", "findIndex", "findLast", "findLastIndex", "flat", "flatMap", "forEach", "includes", "indexOf", "join",
  "keys", "lastIndexOf", "length", "map", "pop", "push", "reduce", "reduceRight", "reverse", "shift", "slice", "some",
  "sort", "splice", "toReversed", "toSorted", "toSpliced", "unshift", "values", "with"]

/-- `id in v`, which throws unless `v` is an object or an array. -/
def has (v : Value) (id : Bytes) : Option Bool :=
  match v with
  | .object _ => some (id ∈ objectKeys v ∨ id ∈ objectNames)
  | .array _ => some (id ∈ objectKeys v ∨ id ∈ arrayNames ∨ id ∈ objectNames)
  | _ => none

end Members

section Texts

/-- The `n` with `10 ^ (n - 1) ≤ a / d < 10 ^ n`. -/
def decimalPlace (a d : Nat) : Int :=
  let k : Int := ((numText a).length : Int) - (numText d).length
  let (a', d') := scale 10 a d (-k)
  if d' ≤ a' then k + 1 else k

/-- The digits of the shortest decimal that is read as `m * 2 ^ e`, the nearest of them, and where its point is. -/
def shortest (m : Nat) (e : Int) : Bytes × Int :=
  let (a, d) := scale 2 m 1 e
  let n := decimalPlace a d
  let found := (List.range 17).findSome? fun k =>
    let (a', d') := scale 10 a d (k + 1 - n)
    ([roundHalfEven a' d', a' / d', a' / d' + 1].find? fun (s : Nat) =>
      Double.ofDecimal false s (n - (k + 1)) = .finite false m e).map fun (s : Nat) => (s, k + 1)
  let (s, k) := found.getD (m, 0)
  let digits := numText s
  ((digits.reverse.dropWhile (· = 48)).reverse, n + digits.length - k)

/-- `Number::toString`. -/
def numberText : Double → Bytes
  | .infinite negative => (if negative then str "-" else []) ++ str "Infinity"
  | .finite negative m e =>
    if m = 0 then str "0"
    else
      let (digits, n) := shortest m e
      let k := digits.length
      (if negative then str "-" else []) ++
        if k ≤ n ∧ n ≤ 21 then digits ++ List.replicate (n - k).toNat 48
        else if 0 < n ∧ n ≤ 21 then digits.take n.toNat ++ str "." ++ digits.drop n.toNat
        else if -6 < n ∧ n ≤ 0 then str "0." ++ List.replicate (-n).toNat 48 ++ digits
        else
          digits.take 1 ++ (if k = 1 then [] else str "." ++ digits.drop 1) ++ str "e" ++
            (if n < 1 then str "-" else str "+") ++ numText (n - 1).natAbs

mutual

/-- `String(v)`. -/
def toText : Value → Option Bytes
  | .null => some (str "null")
  | .bool b => some (if b then str "true" else str "false")
  | .number x => some (numberText x)
  | .string s => some s
  | .array vs => (elementTexts vs).map fun texts => (texts.intersperse (str ",")).flatten
  | .object ms => if str "toString" ∈ ms.map Prod.fst then none else some (str "[object Object]")

/-- The texts that `join` puts together. -/
def elementTexts : List Value → Option (List Bytes)
  | [] => some []
  | .null :: vs => (elementTexts vs).map ([] :: ·)
  | v :: vs => (toText v).bind fun text => (elementTexts vs).map (text :: ·)

end

/-- A text to be shown, or another one where there is none. -/
def textOr (v : Option Value) (other : Bytes) : Bytes := ((v.filter fun v => truthy (some v)).bind toText).getD other

/-- There is no text to be shown: the conversion throws. -/
def throwing (v : Option Value) : Bool := truthy v && (v.bind toText).isNone

@[simp] theorem throwing_string (s : Bytes) : throwing (some (.string s)) = false := by
  unfold throwing
  cases s <;> rfl

end Texts

section Numbers

/-- White space and the ends of lines. -/
def blanks : List Bytes := [[9], [10], [11], [12], [13], [32], [0xC2, 0xA0], [0xE1, 0x9A, 0x80], [0xE2, 0x80, 0x80],
  [0xE2, 0x80, 0x81], [0xE2, 0x80, 0x82], [0xE2, 0x80, 0x83], [0xE2, 0x80, 0x84], [0xE2, 0x80, 0x85],
  [0xE2, 0x80, 0x86], [0xE2, 0x80, 0x87], [0xE2, 0x80, 0x88], [0xE2, 0x80, 0x89], [0xE2, 0x80, 0x8A],
  [0xE2, 0x80, 0xA8], [0xE2, 0x80, 0xA9], [0xE2, 0x80, 0xAF], [0xE2, 0x81, 0x9F], [0xE3, 0x80, 0x80],
  [0xEF, 0xBB, 0xBF]]

/-- The text without what it begins with of `cut`. -/
def strip (cut : List Bytes) : Nat → Bytes → Bytes
  | 0, s => s
  | fuel + 1, s => match cut.find? (·.isPrefixOf s) with
    | some b => strip cut fuel (s.drop b.length)
    | none => s

def trimmed (s : Bytes) : Bytes :=
  let s := strip blanks s.length s
  (strip (blanks.map List.reverse) s.length s.reverse).reverse

/-- A decimal, behind its sign. -/
def isDecimal (s : Bytes) : Bool :=
  let digits := s.takeWhile (isDigit 10)
  let rest := s.dropWhile (isDigit 10)
  let (fraction, rest) := match rest with
    | 46 :: rest => (rest.takeWhile (isDigit 10), rest.dropWhile (isDigit 10))
    | rest => ([], rest)
  digits ++ fraction ≠ [] && match rest with
    | [] => true
    | e :: rest =>
      let rest := if rest.head? = some 45 ∨ rest.head? = some 43 then rest.drop 1 else rest
      (e = 101 ∨ e = 69) && rest ≠ [] && rest.all (isDigit 10)

/-- The base of an integer in another base. -/
def baseOf (s : Bytes) : Option Nat :=
  match s with
  | 48 :: c :: _ =>
    if c = 120 ∨ c = 88 then some 16
    else if c = 111 ∨ c = 79 then some 8
    else if c = 98 ∨ c = 66 then some 2
    else none
  | _ => none

/-- `Number` of a text, with `none` for NaN. -/
def textNumber (s : Bytes) : Option Double :=
  let s := trimmed s
  let unsigned := if s.head? = some 45 ∨ s.head? = some 43 then s.drop 1 else s
  if s = [] then some (.finite false 0 0)
  else if unsigned = str "Infinity" then some (.infinite (s.head? = some 45))
  else if isDecimal unsigned then some (strtod s)
  else (baseOf s).bind fun base =>
    if s.drop 2 ≠ [] ∧ (s.drop 2).all (isDigit base) then some (.ofRatio false (readDigits base (s.drop 2)).1 1) else none

/-- `Number(v)`, with `some none` for NaN. -/
def toNumber : Value → Option (Option Double)
  | .null => some (some (.finite false 0 0))
  | .bool b => some (some (.finite false (if b then 1 else 0) 0))
  | .number x => some (some x)
  | v => (toText v).map textNumber

def less : Double → Double → Bool
  | .infinite negative, y => negative && y ≠ .infinite true
  | _, .infinite negative => !negative
  | .finite negative m e, .finite negative' m' e' =>
    ((if negative then -1 else 1) * (m * 2 ^ e) : ℚ) < (if negative' then -1 else 1) * (m' * 2 ^ e')

/-- An integer, of 53 bits at most. -/
def natural (n : Nat) : Double := .finite false n 0

/-- `k * x`, for a positive `k`. -/
def times (k : Nat) : Double → Double
  | .finite negative m e =>
    let (n, d) := scale 2 (k * m) 1 e
    .ofRatio negative n d
  | x => x

/-- `n + x`, for an `x` that is not negative. -/
def plus (n : Nat) : Double → Double
  | .finite _ m e =>
    let (k, d) := scale 2 m 1 e
    .ofRatio false (n * d + k) d
  | x => x

/-- `Math.max`. -/
def larger (x y : Double) : Double := if less x y then y else x

example : plus 1700000000000 (.finite false 6598169168332613 (-40)) = .finite false 6963200024580096 (-12) := by decide +kernel

theorem less_natural {x : Double} {a b : Nat} (le : a ≤ b) (before : less x (natural a)) : less x (natural b) := by
  cases x with
  | infinite negative => simpa [less, natural] using before
  | finite negative m e =>
    have order : (a : ℚ) ≤ b := by exact_mod_cast le
    simp only [natural, less, Bool.false_eq_true, if_false, zpow_zero, mul_one, one_mul, decide_eq_true_eq] at before ⊢
    exact before.trans_le order

theorem less_of_natural {a b : Nat} : less (natural a) (natural b) ↔ a < b := by
  simp only [natural, less, Bool.false_eq_true, if_false, zpow_zero, mul_one, one_mul, decide_eq_true_eq, Nat.cast_lt]

theorem larger_natural {x : Double} {a : Nat} : ¬ less (larger x (natural a)) (natural a) := by
  unfold larger
  split
  next => rw [less_of_natural]; exact lt_irrefl a
  next behind => exact behind

theorem plus_finite (n : Nat) (negative : Bool) (m : Nat) (e : Int) : plus n (.finite negative m e) =
    .ofRatio false (n * (scale 2 m 1 e).2 + (scale 2 m 1 e).1) (scale 2 m 1 e).2 := rfl

/-- What comes after an integer comes after it by rounding, too. -/
theorem plus_natural {x : Double} {a n : Nat} (after : ¬ less x (natural a)) (small : n + a ≤ 2 ^ 53) :
    ¬ less (plus n x) (natural (n + a)) := by
  cases x with
  | infinite negative => simpa [plus, less, natural] using after
  | finite negative m e =>
    have positive := scale_pos (n := m) (d := 1) (b := 2) (by norm_num) (by norm_num) e
    have ratio := scale_ratio (n := m) (d := 1) (b := 2) (by norm_num) e
    rw [Nat.cast_one, div_one, Nat.cast_ofNat] at ratio
    have reached : (a : ℚ) ≤ m * 2 ^ e := by
      simp only [natural, less, Bool.false_eq_true, if_false, zpow_zero, mul_one, one_mul, decide_eq_true_eq, not_lt] at after
      have unit : (0 : ℚ) ≤ m * 2 ^ e := by positivity
      split at after
      · linarith
      · linarith
    obtain ⟨sum, rounded⟩ : ∃ sum, plus n (.finite negative m e) = sum := ⟨_, rfl⟩
    rw [rounded]
    rw [plus_finite] at rounded
    cases sum with
    | infinite negative' =>
      obtain rfl := Double.ofRatio_infinite rounded
      simp [less, natural]
    | finite negative' m' e' =>
      obtain ⟨rfl, -⟩ := Double.ofRatio_fits positive rounded
      have fits : Double.Fits (n + a) 0 := ⟨by norm_num, by norm_num, small, by norm_num⟩
      have passed := Double.ofRatio_ge positive fits ?_ rounded
      · simp only [natural, less, Bool.false_eq_true, if_false, one_mul, decide_eq_true_eq, not_lt]
        exact passed
      · have unit : ((scale 2 m 1 e).2 : ℚ) ≠ 0 := by exact_mod_cast positive.ne'
        push_cast
        rw [add_div, mul_div_cancel_right₀ _ unit, ratio, mul_one]
        linarith

/-- `Number(a) - Number(b)` is not positive; NaN is not. -/
def notBehind (a b : Bytes) : Bool :=
  match textNumber a, textNumber b with
  | some x, some y => !less y x
  | _, _ => true

end Numbers

end IpcRelay.Ctl.Frontend
