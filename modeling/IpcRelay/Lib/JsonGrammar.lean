import Mathlib

/-!
# The grammar of JSON, over bytes

Each notion of RFC 8259 is a relation between a text and what is left behind it.
Strings may hold every byte from `0x20` on but the quote and the backslash, and
containers may be nested without a limit. A derivation holds with more text behind
it (`Value.append`), and outside its strings a document has few bytes (`Document.bare_outside`).
-/

namespace JsonGrammar

def isWs (b : UInt8) : Bool := b = 32 ∨ b = 9 ∨ b = 10 ∨ b = 13

def isDigit (b : UInt8) : Bool := 48 ≤ b ∧ b ≤ 57

def isHex (b : UInt8) : Bool := 48 ≤ b ∧ b ≤ 57 ∨ 97 ≤ b ∧ b ≤ 102 ∨ 65 ≤ b ∧ b ≤ 70

inductive Ws : List UInt8 → List UInt8 → Prop where
  | nil {r : List UInt8} : Ws r r
  | cons {b : UInt8} {s r : List UInt8} : isWs b = true → Ws s r → Ws (b :: s) r

/-- At least one digit. -/
inductive Digits : List UInt8 → List UInt8 → Prop where
  | last {b : UInt8} {r : List UInt8} : isDigit b = true → Digits (b :: r) r
  | cons {b : UInt8} {s r : List UInt8} : isDigit b = true → Digits s r → Digits (b :: s) r

inductive Sign : List UInt8 → List UInt8 → Prop where
  | none {r : List UInt8} : Sign r r
  | minus {r : List UInt8} : Sign (45 :: r) r

/-- The integer part, without leading zeros. -/
inductive IntPart : List UInt8 → List UInt8 → Prop where
  | zero {r : List UInt8} : IntPart (48 :: r) r
  | digits {b : UInt8} {s r : List UInt8} : b ≠ 48 → Digits (b :: s) r → IntPart (b :: s) r

inductive FracPart : List UInt8 → List UInt8 → Prop where
  | none {r : List UInt8} : FracPart r r
  | digits {s r : List UInt8} : Digits s r → FracPart (46 :: s) r

inductive ExpPart : List UInt8 → List UInt8 → Prop where
  | none {r : List UInt8} : ExpPart r r
  | unsigned {e : UInt8} {s r : List UInt8} : e = 101 ∨ e = 69 → Digits s r → ExpPart (e :: s) r
  | signed {e sign : UInt8} {s r : List UInt8} : e = 101 ∨ e = 69 → sign = 43 ∨ sign = 45 → Digits s r →
      ExpPart (e :: sign :: s) r

inductive Number : List UInt8 → List UInt8 → Prop where
  | mk {s s₁ s₂ s₃ r : List UInt8} : Sign s s₁ → IntPart s₁ s₂ → FracPart s₂ s₃ → ExpPart s₃ r → Number s r

/-- What follows the opening quote of a string, with the closing one. -/
inductive Chars : List UInt8 → List UInt8 → Prop where
  | close {r : List UInt8} : Chars (34 :: r) r
  | plain {b : UInt8} {s r : List UInt8} : 32 ≤ b → b ≠ 34 → b ≠ 92 → Chars s r → Chars (b :: s) r
  | escape {e : UInt8} {s r : List UInt8} : e ∈ [34, 92, 47, 98, 102, 110, 114, 116] → Chars s r → Chars (92 :: e :: s) r
  | unicode {a b c d : UInt8} {s r : List UInt8} : isHex a = true → isHex b = true → isHex c = true → isHex d = true →
      Chars s r → Chars (92 :: 117 :: a :: b :: c :: d :: s) r

mutual

inductive Value : List UInt8 → List UInt8 → Prop where
  | null {r : List UInt8} : Value (110 :: 117 :: 108 :: 108 :: r) r
  | yes {r : List UInt8} : Value (116 :: 114 :: 117 :: 101 :: r) r
  | no {r : List UInt8} : Value (102 :: 97 :: 108 :: 115 :: 101 :: r) r
  | number {s r : List UInt8} : Number s r → Value s r
  | string {s r : List UInt8} : Chars s r → Value (34 :: s) r
  | emptyObject {s r : List UInt8} : Ws s (125 :: r) → Value (123 :: s) r
  | object {s r : List UInt8} : Members s r → Value (123 :: s) r
  | emptyArray {s r : List UInt8} : Ws s (93 :: r) → Value (91 :: s) r
  | array {s r : List UInt8} : Elements s r → Value (91 :: s) r

/-- What follows the opening brace of an object that is not empty, with the closing one. -/
inductive Members : List UInt8 → List UInt8 → Prop where
  | last {s s₁ s₂ s₃ s₄ s₅ r : List UInt8} : Ws s (34 :: s₁) → Chars s₁ s₂ → Ws s₂ (58 :: s₃) → Ws s₃ s₄ →
      Value s₄ s₅ → Ws s₅ (125 :: r) → Members s r
  | next {s s₁ s₂ s₃ s₄ s₅ s₆ r : List UInt8} : Ws s (34 :: s₁) → Chars s₁ s₂ → Ws s₂ (58 :: s₃) → Ws s₃ s₄ →
      Value s₄ s₅ → Ws s₅ (44 :: s₆) → Members s₆ r → Members s r

/-- The same for an array. -/
inductive Elements : List UInt8 → List UInt8 → Prop where
  | last {s s₁ s₂ r : List UInt8} : Ws s s₁ → Value s₁ s₂ → Ws s₂ (93 :: r) → Elements s r
  | next {s s₁ s₂ s₃ r : List UInt8} : Ws s s₁ → Value s₁ s₂ → Ws s₂ (44 :: s₃) → Elements s₃ r → Elements s r

end

/-- A complete JSON document. -/
def Document (t : List UInt8) : Prop := ∃ s s', Ws t s ∧ Value s s' ∧ Ws s' []

theorem Ws.trans {s s' r : List UInt8} (h : Ws s s') (h' : Ws s' r) : Ws s r := by
  induction h with
  | nil => exact h'
  | cons ws _ ih => exact .cons ws (ih h')

theorem Ws.unmarked {b : UInt8} {s r : List UInt8} (h : Ws (b :: s) r) (mark : isWs b = false) : r = b :: s := by
  cases h with
  | nil => rfl
  | cons ws => exact absurd ws (by simp [mark])

/-- White space may come first. -/
theorem Members.of_ws {s s' r : List UInt8} (h : Members s' r) (ws : Ws s s') : Members s r := by
  cases h with
  | last ws₁ key ws₂ ws₃ value ws₄ => exact .last (ws.trans ws₁) key ws₂ ws₃ value ws₄
  | next ws₁ key ws₂ ws₃ value ws₄ rest => exact .next (ws.trans ws₁) key ws₂ ws₃ value ws₄ rest

theorem Elements.of_ws {s s' r : List UInt8} (h : Elements s' r) (ws : Ws s s') : Elements s r := by
  cases h with
  | last ws₁ value ws₂ => exact .last (ws.trans ws₁) value ws₂
  | next ws₁ value ws₂ rest => exact .next (ws.trans ws₁) value ws₂ rest

section Append

/-! A derivation holds with more text behind it. -/

variable {s r : List UInt8}

theorem Ws.append (h : Ws s r) (t : List UInt8) : Ws (s ++ t) (r ++ t) := by
  induction h with
  | nil => exact .nil
  | cons ws _ ih => exact .cons ws ih

theorem Digits.append (h : Digits s r) (t : List UInt8) : Digits (s ++ t) (r ++ t) := by
  induction h with
  | last digit => exact .last digit
  | cons digit _ ih => exact .cons digit ih

theorem Sign.append (h : Sign s r) (t : List UInt8) : Sign (s ++ t) (r ++ t) := by
  cases h with
  | none => exact .none
  | minus => exact .minus

theorem IntPart.append (h : IntPart s r) (t : List UInt8) : IntPart (s ++ t) (r ++ t) := by
  cases h with
  | zero => exact .zero
  | digits first h => exact .digits first (h.append t)

theorem FracPart.append (h : FracPart s r) (t : List UInt8) : FracPart (s ++ t) (r ++ t) := by
  cases h with
  | none => exact .none
  | digits h => exact .digits (h.append t)

theorem ExpPart.append (h : ExpPart s r) (t : List UInt8) : ExpPart (s ++ t) (r ++ t) := by
  cases h with
  | none => exact .none
  | unsigned e h => exact .unsigned e (h.append t)
  | signed e sign h => exact .signed e sign (h.append t)

theorem Number.append (h : Number s r) (t : List UInt8) : Number (s ++ t) (r ++ t) := by
  cases h with
  | mk sign int frac exp => exact .mk (sign.append t) (int.append t) (frac.append t) (exp.append t)

theorem Chars.append (h : Chars s r) (t : List UInt8) : Chars (s ++ t) (r ++ t) := by
  induction h with
  | close => exact .close
  | plain printable quote backslash _ ih => exact .plain printable quote backslash ih
  | escape e _ ih => exact .escape e ih
  | unicode a b c d _ ih => exact .unicode a b c d ih

mutual

theorem Value.append (t : List UInt8) : ∀ {s r : List UInt8}, Value s r → Value (s ++ t) (r ++ t)
  | _, _, .null => .null
  | _, _, .yes => .yes
  | _, _, .no => .no
  | _, _, .number h => .number (h.append t)
  | _, _, .string h => .string (h.append t)
  | _, _, .emptyObject ws => .emptyObject (ws.append t)
  | _, _, .object h => .object (h.append t)
  | _, _, .emptyArray ws => .emptyArray (ws.append t)
  | _, _, .array h => .array (h.append t)

theorem Members.append (t : List UInt8) : ∀ {s r : List UInt8}, Members s r → Members (s ++ t) (r ++ t)
  | _, _, .last ws₁ key ws₂ ws₃ value ws₄ =>
    .last (ws₁.append t) (key.append t) (ws₂.append t) (ws₃.append t) (value.append t) (ws₄.append t)
  | _, _, .next ws₁ key ws₂ ws₃ value ws₄ rest =>
    .next (ws₁.append t) (key.append t) (ws₂.append t) (ws₃.append t) (value.append t) (ws₄.append t) (rest.append t)

theorem Elements.append (t : List UInt8) : ∀ {s r : List UInt8}, Elements s r → Elements (s ++ t) (r ++ t)
  | _, _, .last ws₁ value ws₂ => .last (ws₁.append t) (value.append t) (ws₂.append t)
  | _, _, .next ws₁ value ws₂ rest => .next (ws₁.append t) (value.append t) (ws₂.append t) (rest.append t)

end

end Append

section Outside

/-- The bytes of a text outside its strings; `true` stands for the inside of one. -/
def outside : Bool → List UInt8 → List UInt8
  | _, [] => []
  | false, b :: s => if b = 34 then outside true s else b :: outside false s
  | true, [_] => []
  | true, b :: e :: s =>
    if b = 34 then outside false (e :: s) else if b = 92 then outside true s else outside true (e :: s)

/-- White space, digits, punctuation, and the letters of exponents and literals. -/
def bare (b : UInt8) : Bool :=
  isWs b ∨ isDigit b ∨
    b ∈ [43, 44, 45, 46, 58, 69, 91, 93, 97, 101, 102, 108, 110, 114, 115, 116, 117, 123, 125]

/-- Between `s` and `r` only such bytes stand outside the strings. -/
def Bared (s r : List UInt8) : Prop := ∃ l, outside false s = l ++ outside false r ∧ ∀ b ∈ l, bare b = true

variable {s r : List UInt8}

theorem Bared.refl (s : List UInt8) : Bared s s := ⟨[], rfl, nofun⟩

theorem Bared.trans {m : List UInt8} (h : Bared s m) (h' : Bared m r) : Bared s r := by
  obtain ⟨l, split, all⟩ := h
  obtain ⟨l', split', all'⟩ := h'
  refine ⟨l ++ l', by rw [split, split', List.append_assoc], fun b mem => ?_⟩
  rcases List.mem_append.1 mem with mem | mem
  · exact all b mem
  · exact all' b mem

theorem Bared.cons {b : UInt8} (ok : bare b = true) (quote : b ≠ 34) (h : Bared s r) : Bared (b :: s) r := by
  refine Bared.trans ⟨[b], ?_, by simpa using ok⟩ h
  rw [outside, if_neg quote, List.singleton_append]

theorem outside_plain {b : UInt8} {s : List UInt8} (quote : b ≠ 34) (backslash : b ≠ 92) :
    outside true (b :: s) = outside true s := by
  cases s with
  | nil => simp [outside]
  | cons e s => rw [outside, if_neg quote, if_neg backslash]

theorem Chars.outside_eq (h : Chars s r) : outside true s = outside false r := by
  induction h with
  | @close r => cases r <;> simp [outside]
  | plain _ quote backslash _ ih => rw [outside_plain quote backslash, ih]
  | escape _ _ ih => rw [outside, if_neg (by decide), if_pos rfl, ih]
  | unicode a b c d _ ih =>
    have plain : ∀ x : UInt8, isHex x = true → x ≠ 34 ∧ x ≠ 92 := by
      intro x hex
      constructor <;> (rintro rfl; exact absurd hex (by decide))
    rw [outside, if_neg (by decide), if_pos rfl, outside_plain (plain _ a).1 (plain _ a).2,
      outside_plain (plain _ b).1 (plain _ b).2, outside_plain (plain _ c).1 (plain _ c).2,
      outside_plain (plain _ d).1 (plain _ d).2, ih]

theorem Chars.bared (h : Chars s r) : Bared (34 :: s) r := by
  refine ⟨[], ?_, nofun⟩
  rw [outside, if_pos rfl]
  exact h.outside_eq

theorem Ws.bared (h : Ws s r) : Bared s r := by
  induction h with
  | nil => exact .refl _
  | @cons b s r ws _ ih =>
    refine .cons (by simp [bare, ws]) ?_ ih
    rintro rfl
    exact absurd ws (by decide)

theorem Digits.bared (h : Digits s r) : Bared s r := by
  have one : ∀ b : UInt8, isDigit b = true → bare b = true ∧ b ≠ 34 := by
    intro b digit
    refine ⟨by simp [bare, digit], ?_⟩
    rintro rfl
    exact absurd digit (by decide)
  induction h with
  | last digit => exact .cons (one _ digit).1 (one _ digit).2 (.refl _)
  | cons digit _ ih => exact .cons (one _ digit).1 (one _ digit).2 ih

theorem Sign.bared (h : Sign s r) : Bared s r := by
  cases h with
  | none => exact .refl _
  | minus => exact .cons (by decide) (by decide) (.refl _)

theorem IntPart.bared (h : IntPart s r) : Bared s r := by
  cases h with
  | zero => exact .cons (by decide) (by decide) (.refl _)
  | digits _ h => exact h.bared

theorem FracPart.bared (h : FracPart s r) : Bared s r := by
  cases h with
  | none => exact .refl _
  | digits h => exact .cons (by decide) (by decide) h.bared

theorem ExpPart.bared (h : ExpPart s r) : Bared s r := by
  cases h with
  | none => exact .refl _
  | unsigned e h => rcases e with rfl | rfl <;> exact .cons (by decide) (by decide) h.bared
  | signed e sign h =>
    have digits := h.bared
    rcases e with rfl | rfl <;> rcases sign with rfl | rfl <;>
      exact .cons (by decide) (by decide) (.cons (by decide) (by decide) digits)

theorem Number.bared (h : Number s r) : Bared s r := by
  cases h with
  | mk sign int frac exp => exact (sign.bared.trans int.bared).trans (frac.bared.trans exp.bared)

/-- A byte of a literal or a bracket. -/
theorem Bared.of_mem {b : UInt8} (mem : b ∈ [44, 58, 91, 93, 97, 101, 102, 108, 110, 114, 115, 116, 117, 123, 125])
    (h : Bared s r) : Bared (b :: s) r := by
  have ok : ∀ b ∈ [44, 58, 91, 93, 97, 101, 102, 108, 110, 114, 115, 116, 117, 123, 125],
      bare b = true ∧ b ≠ 34 := by decide +kernel
  exact .cons (ok b mem).1 (ok b mem).2 h

mutual

theorem Value.bared : ∀ {s r : List UInt8}, Value s r → Bared s r
  | _, _, .null => .of_mem (by decide) (.of_mem (by decide) (.of_mem (by decide) (.of_mem (by decide) (.refl _))))
  | _, _, .yes => .of_mem (by decide) (.of_mem (by decide) (.of_mem (by decide) (.of_mem (by decide) (.refl _))))
  | _, _, .no =>
    .of_mem (by decide) (.of_mem (by decide) (.of_mem (by decide) (.of_mem (by decide) (.of_mem (by decide) (.refl _)))))
  | _, _, .number h => h.bared
  | _, _, .string h => h.bared
  | _, _, .emptyObject ws => .of_mem (by decide) (ws.bared.trans (.of_mem (by decide) (.refl _)))
  | _, _, .object h => .of_mem (by decide) h.bared
  | _, _, .emptyArray ws => .of_mem (by decide) (ws.bared.trans (.of_mem (by decide) (.refl _)))
  | _, _, .array h => .of_mem (by decide) h.bared

theorem Members.bared : ∀ {s r : List UInt8}, Members s r → Bared s r
  | _, _, .last ws₁ key ws₂ ws₃ value ws₄ =>
    ws₁.bared.trans (key.bared.trans (ws₂.bared.trans (.of_mem (by decide) (ws₃.bared.trans (value.bared.trans
      (ws₄.bared.trans (.of_mem (by decide) (.refl _))))))))
  | _, _, .next ws₁ key ws₂ ws₃ value ws₄ rest =>
    ws₁.bared.trans (key.bared.trans (ws₂.bared.trans (.of_mem (by decide) (ws₃.bared.trans (value.bared.trans
      (ws₄.bared.trans (.of_mem (by decide) rest.bared)))))))

theorem Elements.bared : ∀ {s r : List UInt8}, Elements s r → Bared s r
  | _, _, .last ws₁ value ws₂ => ws₁.bared.trans (value.bared.trans (ws₂.bared.trans (.of_mem (by decide) (.refl _))))
  | _, _, .next ws₁ value ws₂ rest =>
    ws₁.bared.trans (value.bared.trans (ws₂.bared.trans (.of_mem (by decide) rest.bared)))

end

/-- Outside its strings a document has only such bytes. -/
theorem Document.bare_outside {t : List UInt8} (h : Document t) : ∀ b ∈ outside false t, bare b = true := by
  obtain ⟨s, s', ws, value, ws'⟩ := h
  obtain ⟨l, split, all⟩ := ws.bared.trans (value.bared.trans ws'.bared)
  intro b mem
  rw [split] at mem
  exact all b (by simpa [outside] using mem)

end Outside

end JsonGrammar
