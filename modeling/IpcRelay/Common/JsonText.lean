import IpcRelay.Common.JsonWriter
import IpcRelay.Lib.Rounding

/-!
# What the serializer writes is JSON

A text `IsValue` if it stands for a JSON value wherever it is put; `InObject` is
a writer within an object whose fields are complete. Strings of any bytes,
integers and embedded documents are values; a `double` is one just if it is
`Printable`: `%.3f` has no text for an infinity, and the buffer must not end
right behind the point.
-/

namespace IpcRelay

open JsonGrammar Binary64

/-- A text for a value, white space around it allowed. -/
def IsValue (v : Bytes) : Prop := ∀ r, ∃ s s', Ws (v ++ r) s ∧ Value s s' ∧ Ws s' r

variable {v : Bytes}

theorem IsValue.of_value (h : ∀ r, Value (v ++ r) r) : IsValue v := fun r => ⟨_, _, .nil, h r, .nil⟩

theorem IsValue.of_document (h : Document v) : IsValue v := by
  obtain ⟨s, s', ws, value, ws'⟩ := h
  exact fun r => ⟨s ++ r, s' ++ r, ws.append r, value.append r, ws'.append r⟩

section Strings

open JsonWriter

theorem hex04_hex : ∀ c : Fin 32, ∃ a b, hex04 (UInt8.ofNat c) = [48, 48, a, b] ∧ isHex a = true ∧ isHex b = true := by
  intro c
  refine ⟨_, _, rfl, ?_, ?_⟩ <;> revert c <;> decide +kernel

/-- A character stands for itself or is escaped. -/
theorem chars_escapeChar {s r : Bytes} (c : UInt8) (h : Chars s r) : Chars (escapeChar c ++ s) r := by
  unfold escapeChar
  split
  · exact .escape (by decide) h
  next quote =>
    split
    · exact .escape (by decide) h
    next backslash =>
      split
      · exact .escape (by decide) h
      split
      · exact .escape (by decide) h
      split
      · exact .escape (by decide) h
      split
      next control =>
        obtain ⟨a, b, hex, ha, hb⟩ := hex04_hex ⟨c.toNat, control⟩
        rw [UInt8.ofNat_toNat] at hex
        rw [hex]
        exact .unicode (by decide) (by decide) ha hb h
      next printable => exact .plain (UInt8.not_lt.1 printable) quote backslash h

theorem chars_escape (s r : Bytes) : Chars (s.flatMap escapeChar ++ 34 :: r) r := by
  induction s with
  | nil => exact .close
  | cons c s ih =>
    rw [List.flatMap_cons, List.append_assoc]
    exact chars_escapeChar c ih

theorem escape_append (s r : Bytes) : escape s ++ r = 34 :: (s.flatMap escapeChar ++ 34 :: r) := by
  simp [escape]

theorem isValue_escape (s : Bytes) : IsValue (escape s) := by
  refine .of_value fun r => ?_
  rw [escape_append]
  exact .string (chars_escape s r)

end Strings

section Numbers

theorem digits_of_all {l : Bytes} (nonempty : l ≠ []) (all : ∀ b ∈ l, JsonGrammar.isDigit b = true) (r : Bytes) : Digits (l ++ r) r := by
  induction l with
  | nil => exact absurd rfl nonempty
  | cons b l ih =>
    have digit := all b (List.mem_cons_self ..)
    cases l with
    | nil => exact .last digit
    | cons c l => exact .cons digit (ih (by simp) fun b mem => all b (List.mem_cons_of_mem _ mem))

theorem numText_nat (n : Nat) : numText n = (Nat.toDigits 10 n).map fun c => UInt8.ofNat c.toNat := by
  show str (toString n) = _
  rw [str, Nat.toString_eq_ofList_toDigits, String.toList_ofList]

theorem numText_digit {n : Nat} : ∀ b ∈ numText n, JsonGrammar.isDigit b = true := by
  rw [numText_nat]
  intro b mem
  obtain ⟨c, there, rfl⟩ := List.mem_map.1 mem
  have digit := Nat.isDigit_of_mem_toDigits (b := 10) (by decide) (by decide) there
  have bounds : ∀ d : Fin 10, JsonGrammar.isDigit (UInt8.ofNat (48 + d)) = true := by decide +kernel
  simp only [Char.isDigit, Bool.and_eq_true, decide_eq_true_eq] at digit
  have low : 48 ≤ c.toNat := UInt32.le_iff_toNat_le.1 digit.1
  have high : c.toNat ≤ 57 := UInt32.le_iff_toNat_le.1 digit.2
  have same := bounds ⟨c.toNat - 48, by omega⟩
  rwa [Nat.add_sub_cancel' low] at same

theorem numText_ne_nil (n : Nat) : numText n ≠ [] := by
  rw [numText_nat]
  simp

theorem length_numText_le {n k : Nat} (pos : 0 < k) : (numText n).length ≤ k ↔ n < 10 ^ k := by
  rw [numText_nat, List.length_map]
  exact Nat.length_toDigits_le_iff (by omega) pos

/-- No number but 0 begins with a zero. -/
theorem numText_head {n : Nat} (pos : 0 < n) : ∃ b l, numText n = b :: l ∧ b ≠ 48 := by
  induction n using Nat.strong_induction_on with
  | _ n ih =>
    rcases Nat.lt_or_ge n 10 with small | large
    · have digit : ∀ d : Fin 10, 0 < d.val → numText d = [UInt8.ofNat (48 + d)] ∧ UInt8.ofNat (48 + d) ≠ 48 := by
        decide +kernel
      exact ⟨_, [], (digit ⟨n, small⟩ pos).1, (digit ⟨n, small⟩ pos).2⟩
    · obtain ⟨b, l, text, head⟩ := ih (n / 10) (by omega) (by omega)
      refine ⟨b, l ++ [UInt8.ofNat (n % 10).digitChar.toNat], ?_, head⟩
      rw [numText_nat, Nat.toDigits_of_base_le (by decide) large, List.map_append, ← numText_nat, text]
      rfl

/-- The digits of a number, or the first of them where there are more than one. -/
theorem intPart_of_digits {n : Nat} {l : Bytes} (nonempty : l ≠ []) (part : l <+: numText n) (whole : n = 0 → l = numText n)
    (r : Bytes) : IntPart (l ++ r) r := by
  rcases Nat.eq_zero_or_pos n with rfl | pos
  · rw [whole rfl]
    exact .zero
  · obtain ⟨b, l', text, head⟩ := numText_head pos
    obtain ⟨more, split⟩ := part
    cases l with
    | nil => exact absurd rfl nonempty
    | cons c l =>
      rw [text] at split
      obtain ⟨rfl, -⟩ := List.cons.inj split
      refine .digits head (digits_of_all (l := c :: l) (by simp) ?_ r)
      intro b mem
      refine numText_digit b (n := n) ?_
      rw [text, ← split]
      exact List.mem_append_left _ mem

theorem sign_append (negative : Bool) (r : Bytes) : Sign ((if negative then str "-" else []) ++ r) r := by
  cases negative with
  | false => exact .none
  | true => exact .minus

theorem numText_negSucc (n : Nat) : numText (.negSucc n) = str "-" ++ numText (n + 1 : Nat) := by
  show str ("-" ++ toString (n + 1)) = _
  rw [str, String.toList_append, List.map_append]
  rfl

/-- The text of an integer. -/
theorem number_integer (i : Int) (r : Bytes) : Number (numText i ++ r) r := by
  have natural : ∀ (n : Nat) (r : Bytes), IntPart (numText n ++ r) r := fun n r =>
    intPart_of_digits (numText_ne_nil n) (List.prefix_refl _) (fun _ => rfl) r
  cases i with
  | ofNat n => exact .mk .none (natural n r) .none .none
  | negSucc n =>
    rw [numText_negSucc]
    exact .mk .minus (natural (n + 1) r) .none .none

theorem isValue_integer (i : Int) : IsValue (numText i) := .of_value fun r => .number (number_integer i r)

/-- `%.3f` of the number, cut at the end of the buffer, is a number. -/
def Printable : Double → Prop
  | .infinite _ => False
  | .finite negative m e =>
    let n := Double.thousandths m e / 1000
    ¬ if negative then 10 ^ 60 ≤ n ∧ n < 10 ^ 61 else 10 ^ 61 ≤ n ∧ n < 10 ^ 62

instance (x : Double) : Decidable (Printable x) :=
  match x with
  | .infinite _ => inferInstanceAs (Decidable False)
  | .finite negative m e =>
    inferInstanceAs (Decidable ¬ if negative then 10 ^ 60 ≤ Double.thousandths m e / 1000 ∧
      Double.thousandths m e / 1000 < 10 ^ 61 else 10 ^ 61 ≤ Double.thousandths m e / 1000 ∧
      Double.thousandths m e / 1000 < 10 ^ 62)

/-- The text of a number that is not huge is not cut. -/
theorem printable_of_small {negative : Bool} {m : Nat} {e : Int} (small : (m : ℚ) * 2 ^ e < 10 ^ 50) :
    Printable (.finite negative m e) := by
  have up := (abs_le.1 (Double.thousandths_near m e)).2
  have bound : (Double.thousandths m e : ℚ) < 10 ^ 54 := by linarith
  have bound : Double.thousandths m e < 10 ^ 54 := by exact_mod_cast bound
  simp only [Printable]
  split <;> omega

theorem pad3_digit (n : Nat) : ∀ b ∈ pad3 n, JsonGrammar.isDigit b = true := by
  have digit : ∀ d : Fin 10, JsonGrammar.isDigit (48 + UInt8.ofNat d) = true := by decide +kernel
  have place : ∀ k : Nat, JsonGrammar.isDigit (48 + UInt8.ofNat (k % 10)) = true := fun k =>
    digit ⟨k % 10, Nat.mod_lt _ (by decide)⟩
  intro b mem
  simp only [pad3, List.mem_cons, List.not_mem_nil, or_false] at mem
  rcases mem with rfl | rfl | rfl <;> exact place _

/-- The number is not cut right behind the point. -/
theorem number_double {x : Double} (printable : Printable x) (r : Bytes) : Number ((fixed3 x).take 63 ++ r) r := by
  cases x with
  | infinite => exact absurd printable id
  | finite negative m e =>
    obtain ⟨n, hn⟩ : ∃ n, n = Double.thousandths m e / 1000 := ⟨_, rfl⟩
    obtain ⟨sign, hsign⟩ : ∃ sign, sign = if negative then str "-" else [] := ⟨_, rfl⟩
    have signed : ∀ r, Sign (sign ++ r) r := fun r => hsign ▸ sign_append negative r
    have one : sign.length = if negative then 1 else 0 := by rw [hsign]; cases negative <;> rfl
    have text : fixed3 (.finite negative m e) = sign ++ (numText n ++ 46 :: pad3 (Double.thousandths m e % 1000)) := by
      rw [hsign, hn, fixed3]
      simp only [List.append_assoc]
      rfl
    -- the digits do not end with the buffer
    have notLast : sign.length + (numText n).length ≠ 62 := by
      have below := fun k pos => length_numText_le (n := n) (k := k) pos
      simp only [Printable, ← hn] at printable
      intro last
      cases negative with
      | true =>
        rw [if_pos rfl] at one
        have upper := (below 61 (by decide)).1 (by omega)
        have lower := mt (below 60 (by decide)).2 (by omega)
        simp only [if_pos] at printable
        omega
      | false =>
        rw [if_neg (by decide)] at one
        have upper := (below 62 (by decide)).1 (by omega)
        have lower := mt (below 61 (by decide)).2 (by omega)
        simp only [Bool.false_eq_true, if_false] at printable
        omega
    rw [text]
    rcases Nat.lt_or_ge (sign.length + (numText n).length) 62 with short | long
    · obtain ⟨k, hk⟩ : ∃ k, 63 = sign.length + ((numText n).length + (k + 2)) :=
        ⟨61 - sign.length - (numText n).length, by omega⟩
      rw [hk, List.take_length_add_append, List.take_length_add_append, List.take_succ_cons]
      simp only [List.append_assoc, List.cons_append]
      refine .mk (signed _) (intPart_of_digits (numText_ne_nil n) (List.prefix_refl _) (fun _ => rfl) _)
        (.digits (digits_of_all ?_ ?_ r)) .none
      · simp [pad3]
      · exact fun b mem => pad3_digit _ b (List.mem_of_mem_take mem)
    · have sized : sign.length ≤ 1 := by rw [one]; split <;> omega
      obtain ⟨k, hk⟩ : ∃ k, 63 = sign.length + (k + 1) := ⟨62 - sign.length, by omega⟩
      have pos : 0 < n := by
        rcases Nat.eq_zero_or_pos n with rfl | pos
        · have := (length_numText_le (n := 0) (k := 1) (by decide)).2 (by decide)
          omega
        · exact pos
      rw [hk, List.take_length_add_append, List.take_append_of_le_length (by omega)]
      simp only [List.append_assoc]
      refine .mk (signed _) (intPart_of_digits ?_ (List.take_prefix _ _) (fun zero => by omega) r) .none .none
      have := numText_ne_nil n
      simp [this]

theorem isValue_double {x : Double} (printable : Printable x) : IsValue ((fixed3 x).take 63) :=
  .of_value fun r => .number (number_double printable r)

end Numbers

section Objects

open JsonWriter

/-- The fields of an object, with more of them or its end behind. -/
structure Fields (f : Bytes) : Prop where
  last : ∀ r, Members (f ++ 125 :: r) r
  more : ∀ t r, Members t r → Members (f ++ 44 :: t) r

theorem Fields.one (k : Bytes) (value : IsValue v) : Fields (escape k ++ 58 :: v) where
  last r := by
    obtain ⟨s, s', ws, derived, ws'⟩ := value (125 :: r)
    rw [List.append_assoc, escape_append, List.cons_append]
    exact .last .nil (chars_escape k _) .nil ws derived ws'
  more t r rest := by
    obtain ⟨s, s', ws, derived, ws'⟩ := value (44 :: t)
    rw [List.append_assoc, escape_append, List.cons_append]
    exact .next .nil (chars_escape k _) .nil ws derived ws' rest

theorem Fields.append {f g : Bytes} (h : Fields f) (h' : Fields g) : Fields (f ++ 44 :: g) where
  last r := by
    rw [List.append_assoc]
    exact h.more _ r (h'.last r)
  more t r rest := by
    rw [List.append_assoc]
    exact h.more _ r (h'.more t r rest)

namespace JsonWriter

/-- The writer is within its object, behind a field that is complete. -/
inductive InObject : JsonWriter → Prop where
  | empty : InObject ⟨[123], false⟩
  | fields {f : Bytes} : Fields f → InObject ⟨123 :: f, true⟩

variable {j : JsonWriter}

theorem InObject.field (h : InObject j) (k : Bytes) (value : IsValue v) : InObject ((j.key k).raw v) := by
  cases h with
  | empty =>
    have one := InObject.fields (Fields.one k value)
    simpa [key, raw, separator] using one
  | fields h =>
    have more := InObject.fields (h.append (Fields.one k value))
    simpa [key, raw, separator] using more

theorem InObject.document (h : InObject j) : Document j.endObject.out := by
  refine ⟨_, [], .nil, ?_, .nil⟩
  cases h with
  | empty => exact .emptyObject .nil
  | fields h => exact .object (h.last [])

end JsonWriter

end Objects

end IpcRelay
