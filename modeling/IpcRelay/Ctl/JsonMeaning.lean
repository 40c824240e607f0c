import IpcRelay.Ctl.JsonValue

/-!
# What a JSON text means

`Denotes d s v r` says that between `s` and `r` stands the value `v`, in which
containers are nested at most `d` deep: the grammar of `JsonGrammar` with the
values, without unpaired surrogates and with the limit on the nesting. The
functions of the parser never leave the text, their `fuel` suffices, and what
they accept means the value that they return (`soundFor`, `value_of_parse`).
-/

namespace IpcRelay.Ctl.Json

open JsonGrammar (isWs isHex Ws Number)

section Meaning

/-- The value of a hexadecimal digit. -/
def hexValue (b : UInt8) : Nat := if b ≤ 57 then b.toNat - 48 else if b ≤ 70 then b.toNat - 55 else b.toNat - 87

/-- Four hexadecimal digits and their value. -/
def Hex4 (l : Bytes) (cp : Nat) (r : Bytes) : Prop :=
  ∃ a b c d, l = a :: b :: c :: d :: r ∧ isHex a = true ∧ isHex b = true ∧ isHex c = true ∧ isHex d = true ∧
    cp = 16 ^ 3 * hexValue a + 16 ^ 2 * hexValue b + 16 * hexValue c + hexValue d

/-- The letters of the short escapes and what they stand for. -/
def escapes : List (UInt8 × UInt8) :=
  [(34, 34), (92, 92), (47, 47), (98, 8), (102, 12), (110, 10), (114, 13), (116, 9)]

def High (cp : Nat) : Prop := 0xD800 ≤ cp ∧ cp ≤ 0xDBFF

def Low (cp : Nat) : Prop := 0xDC00 ≤ cp ∧ cp ≤ 0xDFFF

/-- The character of a pair of surrogates. -/
def pairOf (hi lo : Nat) : Nat := 0x10000 + 0x400 * (hi - 0xD800) + (lo - 0xDC00)

def utf8 (cp : Nat) : Bytes := String.utf8EncodeChar (Char.ofNat cp)

/-- The characters behind an opening quote, up to the closing one. -/
inductive Text : Bytes → Bytes → Bytes → Prop where
  | close {r : Bytes} : Text (34 :: r) [] r
  | plain {b : UInt8} {s t r : Bytes} : 32 ≤ b → b ≠ 34 → b ≠ 92 → Text s t r → Text (b :: s) (b :: t) r
  | escape {e b : UInt8} {s t r : Bytes} : (e, b) ∈ escapes → Text s t r → Text (92 :: e :: s) (b :: t) r
  | unicode {cp : Nat} {l s t r : Bytes} : Hex4 l cp s → ¬ High cp → ¬ Low cp → Text s t r →
      Text (92 :: 117 :: l) (utf8 cp ++ t) r
  | pair {hi lo : Nat} {l l' s t r : Bytes} : Hex4 l hi (92 :: 117 :: l') → High hi → Hex4 l' lo s → Low lo → Text s t r →
      Text (92 :: 117 :: l) (utf8 (pairOf hi lo) ++ t) r

mutual

inductive Denotes : Nat → Bytes → Value → Bytes → Prop where
  | null {d : Nat} {r : Bytes} : Denotes d (str "null" ++ r) .null r
  | yes {d : Nat} {r : Bytes} : Denotes d (str "true" ++ r) (.bool true) r
  | no {d : Nat} {r : Bytes} : Denotes d (str "false" ++ r) (.bool false) r
  | number {d : Nat} {n r : Bytes} : Number (n ++ r) r → Denotes d (n ++ r) (.number (strtod n)) r
  | string {d : Nat} {s t r : Bytes} : Text s t r → Denotes d (34 :: s) (.string t) r
  | emptyObject {d : Nat} {s r : Bytes} : Ws s (125 :: r) → Denotes (d + 1) (123 :: s) (.object []) r
  | object {d : Nat} {s r : Bytes} {ms : List (Bytes × Value)} : Members d s ms r →
      Denotes (d + 1) (123 :: s) (.object ms) r
  | emptyArray {d : Nat} {s r : Bytes} : Ws s (93 :: r) → Denotes (d + 1) (91 :: s) (.array []) r
  | array {d : Nat} {s r : Bytes} {vs : List Value} : Elements d s vs r → Denotes (d + 1) (91 :: s) (.array vs) r

/-- What follows the opening brace of an object that is not empty, with the closing one. -/
inductive Members : Nat → Bytes → List (Bytes × Value) → Bytes → Prop where
  | last {d : Nat} {s s₁ s₂ s₃ s₄ s₅ r k : Bytes} {v : Value} : Ws s (34 :: s₁) → Text s₁ k s₂ → Ws s₂ (58 :: s₃) →
      Ws s₃ s₄ → Denotes d s₄ v s₅ → Ws s₅ (125 :: r) → Members d s [(k, v)] r
  | next {d : Nat} {s s₁ s₂ s₃ s₄ s₅ s₆ r k : Bytes} {v : Value} {ms : List (Bytes × Value)} : Ws s (34 :: s₁) →
      Text s₁ k s₂ → Ws s₂ (58 :: s₃) → Ws s₃ s₄ → Denotes d s₄ v s₅ → Ws s₅ (44 :: s₆) → Members d s₆ ms r →
      Members d s ((k, v) :: ms) r

/-- The same for an array. -/
inductive Elements : Nat → Bytes → List Value → Bytes → Prop where
  | last {d : Nat} {s s₁ s₂ r : Bytes} {v : Value} : Ws s s₁ → Denotes d s₁ v s₂ → Ws s₂ (93 :: r) → Elements d s [v] r
  | next {d : Nat} {s s₁ s₂ s₃ r : Bytes} {v : Value} {vs : List Value} : Ws s s₁ → Denotes d s₁ v s₂ →
      Ws s₂ (44 :: s₃) → Elements d s₃ vs r → Elements d s (v :: vs) r

end

/-- The text is one value with white space around it. -/
def Means (maxDepth : Nat) (text : Bytes) (v : Value) : Prop :=
  ∃ s s', Ws text s ∧ Denotes maxDepth s v s' ∧ Ws s' []

/-- White space may come first. -/
theorem Members.of_ws {d : Nat} {s s' r : Bytes} {ms : List (Bytes × Value)} (h : Members d s' ms r) (ws : Ws s s') :
    Members d s ms r := by
  cases h with
  | last ws₁ key ws₂ ws₃ value ws₄ => exact .last (ws.trans ws₁) key ws₂ ws₃ value ws₄
  | next ws₁ key ws₂ ws₃ value ws₄ rest => exact .next (ws.trans ws₁) key ws₂ ws₃ value ws₄ rest

theorem Elements.of_ws {d : Nat} {s s' r : Bytes} {vs : List Value} (h : Elements d s' vs r) (ws : Ws s s') :
    Elements d s vs r := by
  cases h with
  | last ws₁ value ws₂ => exact .last (ws.trans ws₁) value ws₂
  | next ws₁ value ws₂ rest => exact .next (ws.trans ws₁) value ws₂ rest

/-- What the members mean is meant by parts of the text. -/
theorem Members.denotes : ∀ {d : Nat} {l r : Bytes} {ms : List (Bytes × Value)}, Members d l ms r →
    ∀ p ∈ ms, ∃ l' r', Denotes d l' p.2 r'
  | _, _, _, _, .last _ _ _ _ value _, p, mem => by
    rw [List.mem_singleton.1 mem]
    exact ⟨_, _, value⟩
  | _, _, _, _, .next _ _ _ _ value _ rest, p, mem => by
    rcases List.mem_cons.1 mem with rfl | mem
    · exact ⟨_, _, value⟩
    · exact rest.denotes p mem

/-! What means a value is of the grammar. -/

theorem Hex4.chars {l s r : Bytes} {cp : Nat} (h : Hex4 l cp s) (rest : JsonGrammar.Chars s r) :
    JsonGrammar.Chars (92 :: 117 :: l) r := by
  obtain ⟨a, b, c, d, rfl, ha, hb, hc, hd, -⟩ := h
  exact .unicode ha hb hc hd rest

theorem Text.chars {s t r : Bytes} (h : Text s t r) : JsonGrammar.Chars s r := by
  induction h with
  | close => exact .close
  | plain printable quote backslash _ ih => exact .plain printable quote backslash ih
  | @escape e b _ _ _ known _ ih =>
    have all : ∀ p ∈ escapes, p.1 ∈ [34, 92, 47, 98, 102, 110, 114, 116] := by simp [escapes]
    exact .escape (all _ known) ih
  | unicode hex _ _ _ ih => exact hex.chars ih
  | pair hex _ hex' _ _ ih => exact hex.chars (hex'.chars ih)

mutual

theorem Denotes.grammar : ∀ {d : Nat} {s r : Bytes} {v : Value}, Denotes d s v r → JsonGrammar.Value s r
  | _, _, _, _, .null => .null
  | _, _, _, _, .yes => .yes
  | _, _, _, _, .no => .no
  | _, _, _, _, .number h => .number h
  | _, _, _, _, .string h => .string h.chars
  | _, _, _, _, .emptyObject ws => .emptyObject ws
  | _, _, _, _, .object h => .object h.grammar
  | _, _, _, _, .emptyArray ws => .emptyArray ws
  | _, _, _, _, .array h => .array h.grammar

theorem Members.grammar : ∀ {d : Nat} {s r : Bytes} {ms : List (Bytes × Value)}, Members d s ms r →
    JsonGrammar.Members s r
  | _, _, _, _, .last ws₁ key ws₂ ws₃ value ws₄ => .last ws₁ key.chars ws₂ ws₃ value.grammar ws₄
  | _, _, _, _, .next ws₁ key ws₂ ws₃ value ws₄ rest => .next ws₁ key.chars ws₂ ws₃ value.grammar ws₄ rest.grammar

theorem Elements.grammar : ∀ {d : Nat} {s r : Bytes} {vs : List Value}, Elements d s vs r → JsonGrammar.Elements s r
  | _, _, _, _, .last ws₁ value ws₂ => .last ws₁ value.grammar ws₂
  | _, _, _, _, .next ws₁ value ws₂ rest => .next ws₁ value.grammar ws₂ rest.grammar

end

end Meaning

/-- A parser function that is called at `pos` stays within the text; if it succeeds then it has
gone forward over a text that means its value. -/
def Sound {α : Type} (s : Bytes) (pos : Nat) (meaning : Bytes → α → Bytes → Prop) (r : Except Failure (Parsed α)) :
    Prop :=
  match r with
  | .ok (a, pos') => pos < pos' ∧ pos' ≤ s.length ∧ meaning (s.drop pos) a (s.drop pos')
  | .error (.wrong _ _) => True
  | .error (.fault _) => False

section Rules

variable {α β : Type} {s : Bytes} {pos : Nat} {meaning : Bytes → α → Bytes → Prop}

theorem sound_fail {pos' : Nat} {what : String} : Sound s pos meaning (fail what pos') := trivial

/-- The rule for a call followed by more: the rest is looked at where the call succeeded. -/
theorem Sound.bind {start : Nat} {meaning' : Bytes → β → Bytes → Prop} {r : Except Failure (Parsed α)}
    {f : Parsed α → Except Failure (Parsed β)} (first : Sound s pos meaning r)
    (rest : ∀ a pos', r = .ok (a, pos') → pos < pos' → pos' ≤ s.length → meaning (s.drop pos) a (s.drop pos') →
      Sound s start meaning' (f (a, pos'))) : Sound s start meaning' (r >>= f) := by
  cases r with
  | error e =>
    cases e with
    | wrong what pos' => exact trivial
    | fault f => exact absurd first id
  | ok r =>
    obtain ⟨lt, le, derived⟩ := first
    exact rest r.1 r.2 rfl lt le derived

/-- The same result, seen from an earlier place. -/
theorem Sound.from {pos' : Nat} {meaning' : Bytes → α → Bytes → Prop} {r : Except Failure (Parsed α)}
    (sound : Sound s pos' meaning r) (le : pos ≤ pos')
    (extend : ∀ a t, meaning (s.drop pos') a t → meaning' (s.drop pos) a t) : Sound s pos meaning' r := by
  cases r with
  | error e =>
    cases e with
    | wrong what pos' => exact trivial
    | fault f => exact absurd sound id
  | ok r =>
    obtain ⟨lt, le', derived⟩ := sound
    exact ⟨by omega, le', extend _ _ derived⟩

end Rules

section Strings

variable {s : Bytes}

/-- The program's digits are those of the grammar, with their values. -/
theorem digitValue_eq (c : UInt8) : digitValue c = if isHex c = true then some (hexValue c) else none := by
  have every : ∀ c : Fin 256, digitValue (UInt8.ofNat c) =
      if isHex (UInt8.ofNat c) = true then some (hexValue (UInt8.ofNat c)) else none := by decide +kernel
  have one := every ⟨c.toNat, c.toNat_lt⟩
  rwa [UInt8.ofNat_toNat] at one

theorem hexValue_lt {c : UInt8} (hex : isHex c = true) : hexValue c < 16 := by
  have every : ∀ c : Fin 256, isHex (UInt8.ofNat c) = true → hexValue (UInt8.ofNat c) < 16 := by decide +kernel
  have one := every ⟨c.toNat, c.toNat_lt⟩
  rw [UInt8.ofNat_toNat] at one
  exact one hex

/-- One more digit. -/
theorem shift_or {d : Nat} (small : d < 16) (out : Nat) : out <<< 4 ||| d = 16 * out + d := by
  rw [Nat.shiftLeft_eq, Nat.mul_comm]
  exact (Nat.two_pow_add_eq_or_of_lt (i := 4) small out).symm

/-- The digits that the loop reads, one after the other. -/
theorem hexDigits_cons {start i n out : Nat} {c : UInt8} (here : s[start + i]? = some c) :
    hexDigits s start (n + 1) i out =
      if isHex c = true then hexDigits s start n (i + 1) (16 * out + hexValue c) else fail "invalid \\u escape" start := by
  rw [hexDigits, peek, here, Machine.ok_bind, digitValue_eq]
  by_cases hex : isHex c = true
  · rw [if_pos hex, if_pos hex]
    show hexDigits s start n (i + 1) (out <<< 4 ||| hexValue c) = _
    rw [shift_or (hexValue_lt hex)]
  · rw [if_neg hex, if_neg hex]

theorem hex4_sound (pos : Nat) : Sound s pos Hex4 (hex4 s pos) := by
  unfold hex4
  split
  · exact sound_fail
  next long =>
    obtain ⟨a, ha, -⟩ := peek_of_lt (show pos < s.length by omega)
    obtain ⟨b, hb, -⟩ := peek_of_lt (show pos + 1 < s.length by omega)
    obtain ⟨c, hc, -⟩ := peek_of_lt (show pos + 2 < s.length by omega)
    obtain ⟨d, hd, -⟩ := peek_of_lt (show pos + 3 < s.length by omega)
    have four : s.drop pos = a :: b :: c :: d :: s.drop (pos + 4) := by
      rw [drop_of_get ha, drop_of_get hb, drop_of_get hc, drop_of_get hd]
    rw [hexDigits_cons (show s[pos + 0]? = some a from ha)]
    split
    next hexa =>
      rw [hexDigits_cons hb]
      split
      next hexb =>
        rw [hexDigits_cons hc]
        split
        next hexc =>
          rw [hexDigits_cons hd]
          split
          next hexd =>
            refine ⟨by omega, by omega, a, b, c, d, four, hexa, hexb, hexc, hexd, ?_⟩
            ring
          next => exact sound_fail
        next => exact sound_fail
      next => exact sound_fail
    next => exact sound_fail

theorem pairOf_eq (hi lo : Nat) : 0x10000 + (hi - 0xD800) <<< 10 + (lo - 0xDC00) = pairOf hi lo := by
  have shift : (hi - 0xD800) <<< 10 = 0x400 * (hi - 0xD800) := by
    rw [Nat.shiftLeft_eq]
    exact Nat.mul_comm _ _
  unfold pairOf
  rw [shift]

theorem Hex4.lt {l r : Bytes} {cp : Nat} (h : Hex4 l cp r) : cp < 0x10000 := by
  obtain ⟨a, b, c, d, -, ha, hb, hc, hd, rfl⟩ := h
  have := hexValue_lt ha
  have := hexValue_lt hb
  have := hexValue_lt hc
  have := hexValue_lt hd
  omega

theorem High.pairOf_lt {hi lo : Nat} (high : High hi) (low : Low lo) : pairOf hi lo < 0x110000 := by
  obtain ⟨-, le⟩ := high
  obtain ⟨-, le'⟩ := low
  unfold pairOf
  omega

/-- A code point and how its escape goes on. -/
def Escaped (l : Bytes) (cp : Nat) (r : Bytes) : Prop :=
  cp.isValidChar ∧ ∀ t rest, Text r t rest → Text (92 :: 117 :: l) (utf8 cp ++ t) rest

theorem unicodeEscape_sound (pos : Nat) : Sound s pos Escaped (unicodeEscape s pos) := by
  unfold unicodeEscape
  apply (hex4_sound pos).bind
  intro cp pos' _ lt le hex
  simp only
  split
  next high =>
    split
    · exact sound_fail
    next pair =>
      have pair : (s.drop pos').take 2 = [92, 117] := not_not.1 pair
      have split : s.drop pos' = 92 :: 117 :: s.drop (pos' + 2) := by
        rw [← List.take_append_drop 2 (s.drop pos'), pair, List.drop_drop]
        rfl
      rw [split] at hex
      apply (hex4_sound (pos' + 2)).bind
      intro lo pos'' _ lt' le' hex'
      simp only
      split
      · exact sound_fail
      next low =>
        have isLow : Low lo := ⟨by omega, by omega⟩
        rw [pairOf_eq]
        refine ⟨by omega, le', .inr ⟨?_, High.pairOf_lt high isLow⟩, ?_⟩
        · unfold pairOf
          omega
        · intro t rest text
          exact .pair hex high hex' isLow text
  next notHigh =>
    split
    · exact sound_fail
    next notLow =>
      have small := hex.lt
      refine ⟨lt, le, ?_, fun t rest text => .unicode hex notHigh notLow text⟩
      unfold Nat.isValidChar
      omega

theorem mem_escapes {e b : UInt8} : unescape e = some b ↔ (e, b) ∈ escapes := by
  constructor
  · intro h
    unfold unescape at h
    unfold escapes
    grind
  · intro h
    simp only [escapes, List.mem_cons, Prod.mk.injEq, List.not_mem_nil, or_false] at h
    rcases h with ⟨rfl, rfl⟩ | ⟨rfl, rfl⟩ | ⟨rfl, rfl⟩ | ⟨rfl, rfl⟩ | ⟨rfl, rfl⟩ | ⟨rfl, rfl⟩ | ⟨rfl, rfl⟩ | ⟨rfl, rfl⟩ <;> rfl

/-- The bytes of a code point. -/
theorem appendUtf8_eq {cp : Nat} (valid : cp.isValidChar) : appendUtf8 cp = utf8 cp := by
  have value : (Char.ofNat cp).val.toNat = cp := by
    rw [Char.ofNat, dif_pos valid]
    rfl
  have follows (n : Nat) : 0x80 ||| n &&& 0x3F = n % 64 + 0x80 := by
    have small : n % 2 ^ 6 < 2 ^ 6 := Nat.mod_lt _ (by decide)
    rw [Nat.and_two_pow_sub_one_eq_mod n 6, Nat.add_comm]
    exact (Nat.two_pow_add_eq_or_of_lt small 2).symm
  have leads (k a n : Nat) (small : n < 2 ^ k) : 2 ^ k * a ||| n = n % 2 ^ k + 2 ^ k * a := by
    rw [Nat.mod_eq_of_lt small, Nat.add_comm]
    exact (Nat.two_pow_add_eq_or_of_lt small a).symm
  have bound : cp < 0x110000 := by
    rcases valid with h | h <;> omega
  unfold appendUtf8 utf8 String.utf8EncodeChar
  simp only [value, follows, Nat.shiftRight_eq_div_pow]
  by_cases one : cp < 0x80
  · rw [if_pos one, if_pos (Nat.le_of_lt_succ one)]
  rw [if_neg one, if_neg (show ¬ cp ≤ 0x7F by omega)]
  by_cases two : cp < 0x800
  · have lead : 0xC0 ||| cp / 2 ^ 6 = cp / 64 % 32 + 0xC0 := leads 5 6 (cp / 2 ^ 6) (by omega)
    rw [if_pos two, if_pos (Nat.le_of_lt_succ two), lead]
  rw [if_neg two, if_neg (show ¬ cp ≤ 0x7FF by omega)]
  by_cases three : cp < 0x10000
  · have lead : 0xE0 ||| cp / 2 ^ 12 = cp / 4096 % 16 + 0xE0 := leads 4 14 (cp / 2 ^ 12) (by omega)
    rw [if_pos three, if_pos (Nat.le_of_lt_succ three), lead]
  · have lead : 0xF0 ||| cp / 2 ^ 18 = cp / 262144 % 8 + 0xF0 := leads 3 30 (cp / 2 ^ 18) (by omega)
    rw [if_neg three, if_neg (show ¬ cp ≤ 0xFFFF by omega), lead]

/-- The characters read so far, and those to come. -/
def TextFrom (out : Bytes) (l t r : Bytes) : Prop := ∃ t', t = out ++ t' ∧ Text l t' r

theorem stringLoop_sound (fuel : Nat) : ∀ pos out, pos ≤ s.length → s.length < fuel + pos →
    Sound s pos (TextFrom out) (stringLoop s fuel pos out) := by
  induction fuel with
  | zero => omega
  | succ fuel ih =>
    intro pos out le enough
    unfold stringLoop
    split
    · exact sound_fail
    · obtain ⟨c, hc, peeked⟩ := peek_of_lt (show pos < s.length by omega)
      have here := drop_of_get hc
      -- the rest of the string continues what stands here
      have next : ∀ pos' bs, pos < pos' → pos' ≤ s.length →
          (∀ t r, Text (s.drop pos') t r → Text (s.drop pos) (bs ++ t) r) →
          Sound s pos (TextFrom out) (stringLoop s fuel pos' (out ++ bs)) := by
        intro pos' bs lt le' extend
        refine (ih pos' (out ++ bs) le' (by omega)).from lt.le ?_
        rintro t r ⟨t', rfl, text⟩
        exact ⟨bs ++ t', List.append_assoc _ _ _, extend t' r text⟩
      simp only [peeked, Machine.ok_bind]
      split
      next quote =>
        subst quote
        refine ⟨Nat.lt_succ_self _, by omega, [], (List.append_nil _).symm, ?_⟩
        rw [here]
        exact .close
      next notQuote =>
        split
        · exact sound_fail
        next printable =>
          split
          next plain =>
            apply next (pos + 1) [c] (by omega) (by omega)
            intro t r text
            rw [here]
            exact .plain (UInt8.not_lt.1 printable) notQuote plain text
          next backslash =>
            obtain rfl := not_not.1 backslash
            split
            · exact sound_fail
            · obtain ⟨e, he, peeked'⟩ := peek_of_lt (show pos + 1 < s.length by omega)
              have there := drop_of_get he
              simp only [peeked', Machine.ok_bind]
              split
              next b known =>
                apply next (pos + 2) [b] (by omega) (by omega)
                intro t r text
                rw [here, there]
                exact .escape (mem_escapes.1 known) text
              next =>
                split
                next isU =>
                  subst isU
                  apply (unicodeEscape_sound (pos + 2)).bind
                  intro cp pos' _ lt le' ⟨valid, escaped⟩
                  simp only [appendUtf8_eq valid]
                  apply next pos' (utf8 cp) (by omega) le'
                  intro t r text
                  rw [here, there]
                  exact escaped t r text
                next => exact sound_fail

theorem string_sound {pos : Nat} (quote : s[pos]? = some 34) :
    Sound s pos (fun l t r => ∃ l', l = 34 :: l' ∧ Text l' t r) (string s pos) := by
  have lt := lt_of_get quote
  apply (stringLoop_sound (s.length + 1) (pos + 1) [] lt (by omega)).from (Nat.le_succ pos)
  rintro t r ⟨t', rfl, text⟩
  exact ⟨_, drop_of_get quote, text⟩

end Strings

section Numbers

open JsonGrammar (IntPart FracPart ExpPart Number Sign Digits)

variable {s : Bytes} {pos : Nat}

theorem intPart_spec (le : pos ≤ s.length) : (∃ what pos', intPart s pos = .error (.wrong what pos')) ∨
    ∃ pos', intPart s pos = .ok pos' ∧ pos < pos' ∧ pos' ≤ s.length ∧ IntPart (s.drop pos) (s.drop pos') := by
  unfold intPart
  split
  · exact .inl ⟨_, _, rfl⟩
  · obtain ⟨c, hc, peeked⟩ := peek_of_lt (show pos < s.length by omega)
    have here := drop_of_get hc
    simp only [peeked, Machine.ok_bind]
    split
    next zero =>
      subst zero
      refine .inr ⟨pos + 1, rfl, Nat.lt_succ_self _, lt_of_get hc, ?_⟩
      rw [here]
      exact .zero
    next notZero =>
      cases h : digits s pos with
      | none => exact .inl ⟨_, _, rfl⟩
      | some pos' =>
        obtain ⟨lt, le', derived⟩ := digits_spec le h
        refine .inr ⟨pos', rfl, lt, le', ?_⟩
        rw [here] at derived ⊢
        exact .digits notZero derived

theorem fracPart_spec (le : pos ≤ s.length) : (∃ what pos', fracPart s pos = .error (.wrong what pos')) ∨
    ∃ pos', fracPart s pos = .ok pos' ∧ pos ≤ pos' ∧ pos' ≤ s.length ∧ FracPart (s.drop pos) (s.drop pos') := by
  unfold fracPart
  split
  next point =>
    cases h : digits s (pos + 1) with
    | none => exact .inl ⟨_, _, rfl⟩
    | some pos' =>
      obtain ⟨lt, le', derived⟩ := digits_spec (lt_of_get point) h
      refine .inr ⟨pos', rfl, by omega, le', ?_⟩
      rw [drop_of_get point]
      exact .digits derived
  next => exact .inr ⟨pos, rfl, Nat.le_refl _, le, .none⟩

theorem expPart_spec (le : pos ≤ s.length) : (∃ what pos', expPart s pos = .error (.wrong what pos')) ∨
    ∃ pos', expPart s pos = .ok pos' ∧ pos ≤ pos' ∧ pos' ≤ s.length ∧ ExpPart (s.drop pos) (s.drop pos') := by
  unfold expPart
  split
  next letter =>
    obtain ⟨e, he, isE⟩ : ∃ e, s[pos]? = some e ∧ (e = 101 ∨ e = 69) := by
      rcases letter with h | h
      · exact ⟨_, h, .inl rfl⟩
      · exact ⟨_, h, .inr rfl⟩
    have lt := lt_of_get he
    have here := drop_of_get he
    by_cases sign : s[pos + 1]? = some 43 ∨ s[pos + 1]? = some 45
    · simp only [if_pos sign]
      obtain ⟨c, hc, isSign⟩ : ∃ c, s[pos + 1]? = some c ∧ (c = 43 ∨ c = 45) := by
        rcases sign with h | h
        · exact ⟨_, h, .inl rfl⟩
        · exact ⟨_, h, .inr rfl⟩
      cases h : digits s (pos + 2) with
      | none => exact .inl ⟨_, _, rfl⟩
      | some pos' =>
        obtain ⟨lt', le', derived⟩ := digits_spec (lt_of_get hc) h
        refine .inr ⟨pos', rfl, by omega, le', ?_⟩
        rw [here, drop_of_get hc]
        exact .signed isE isSign derived
    · simp only [if_neg sign]
      cases h : digits s (pos + 1) with
      | none => exact .inl ⟨_, _, rfl⟩
      | some pos' =>
        obtain ⟨lt', le', derived⟩ := digits_spec lt h
        refine .inr ⟨pos', rfl, by omega, le', ?_⟩
        rw [here]
        exact .unsigned isE derived
  next => exact .inr ⟨pos, rfl, Nat.le_refl _, le, .none⟩

theorem number_sound (d : Nat) (le : pos ≤ s.length) : Sound s pos (Denotes d) (number s pos) := by
  obtain ⟨start, hstart, after, short, sign⟩ : ∃ start, (if s[pos]? = some 45 then pos + 1 else pos) = start ∧
      pos ≤ start ∧ start ≤ s.length ∧ Sign (s.drop pos) (s.drop start) := by
    split
    next minus =>
      refine ⟨_, rfl, Nat.le_succ _, lt_of_get minus, ?_⟩
      rw [drop_of_get minus]
      exact .minus
    next => exact ⟨_, rfl, Nat.le_refl _, le, .none⟩
  unfold number
  simp only [hstart]
  rcases intPart_spec short with ⟨what, pos', ran⟩ | ⟨pos₁, ran, lt₁, le₁, int⟩
  · rw [ran]
    exact trivial
  rcases fracPart_spec le₁ with ⟨what, pos', ran'⟩ | ⟨pos₂, ran', lt₂, le₂, frac⟩
  · rw [ran, Machine.ok_bind, ran']
    exact trivial
  rcases expPart_spec le₂ with ⟨what, pos', ran''⟩ | ⟨pos₃, ran'', lt₃, le₃, exp⟩
  · rw [ran, Machine.ok_bind, ran', Machine.ok_bind, ran'']
    exact trivial
  rw [ran, Machine.ok_bind, ran', Machine.ok_bind, ran'', Machine.ok_bind]
  have text : s.drop pos = (s.drop pos).take (pos₃ - pos) ++ s.drop pos₃ := by
    rw [show s.drop pos₃ = (s.drop pos).drop (pos₃ - pos) by rw [List.drop_drop]; congr 1; omega,
      List.take_append_drop]
  have derived : Number (s.drop pos) (s.drop pos₃) := .mk sign int frac exp
  refine ⟨by omega, le₃, ?_⟩
  rw [text] at derived
  have denotes := Denotes.number (d := d) derived
  rwa [← text] at denotes

end Numbers

section Values

variable {s : Bytes} {pos : Nat}

theorem literal_sound {word : String} {v : Value} {d : Nat} (nonempty : 0 < (str word).length)
    (derived : ∀ r, Denotes d (str word ++ r) v r) : Sound s pos (Denotes d) (literal s pos word v) := by
  unfold literal
  split
  next here =>
    obtain ⟨r, hr⟩ := here
    have long := congrArg List.length hr
    rw [List.length_append, List.length_drop] at long
    refine ⟨by omega, by omega, ?_⟩
    rw [← List.drop_drop, ← hr, List.drop_left]
    exact derived r
  next => exact sound_fail

/-- What the induction shows: with enough fuel each function is sound. -/
structure SoundFor (s : Bytes) (maxDepth fuel : Nat) : Prop where
  value : ∀ pos depth, pos ≤ s.length → 3 * (s.length - pos) + 1 ≤ fuel →
    Sound s pos (Denotes (maxDepth - depth)) (value s maxDepth fuel pos depth)
  object : ∀ pos depth, s[pos]? = some 123 → 3 * (s.length - pos) ≤ fuel →
    Sound s pos (Denotes (maxDepth + 1 - depth)) (object s maxDepth fuel pos depth)
  members : ∀ pos depth, pos ≤ s.length → 3 * (s.length - pos) + 2 ≤ fuel →
    Sound s pos (Members (maxDepth - depth)) (members s maxDepth fuel pos depth)
  array : ∀ pos depth, s[pos]? = some 91 → 3 * (s.length - pos) ≤ fuel →
    Sound s pos (Denotes (maxDepth + 1 - depth)) (array s maxDepth fuel pos depth)
  elements : ∀ pos depth, pos ≤ s.length → 3 * (s.length - pos) + 2 ≤ fuel →
    Sound s pos (Elements (maxDepth - depth)) (elements s maxDepth fuel pos depth)

section Step

variable {maxDepth fuel : Nat} (ih : SoundFor s maxDepth fuel)

include ih

theorem value_step (depth : Nat) (le : pos ≤ s.length) (enough : 3 * (s.length - pos) + 1 ≤ fuel + 1) :
    Sound s pos (Denotes (maxDepth - depth)) (value s maxDepth (fuel + 1) pos depth) := by
  have inner : maxDepth + 1 - (depth + 1) = maxDepth - depth := by omega
  unfold value
  split
  · exact sound_fail
  · obtain ⟨c, hc, peeked⟩ := peek_of_lt (show pos < s.length by omega)
    simp only [peeked, Machine.ok_bind]
    split
    next brace =>
      subst brace
      have sound := ih.object pos (depth + 1) hc (by omega)
      rwa [inner] at sound
    next =>
      split
      next bracket =>
        subst bracket
        have sound := ih.array pos (depth + 1) hc (by omega)
        rwa [inner] at sound
      next =>
        split
        next quote =>
          subst quote
          apply (string_sound hc).bind
          rintro text pos' _ lt le' ⟨l, split, chars⟩
          refine ⟨lt, le', ?_⟩
          rw [split]
          exact .string chars
        next =>
          split
          · exact literal_sound (by decide) fun r => .yes
          · split
            · exact literal_sound (by decide) fun r => .no
            · split
              · exact literal_sound (by decide) fun r => .null
              · exact number_sound _ le

theorem object_step (depth : Nat) (brace : s[pos]? = some 123) (enough : 3 * (s.length - pos) ≤ fuel + 1) :
    Sound s pos (Denotes (maxDepth + 1 - depth)) (object s maxDepth (fuel + 1) pos depth) := by
  have lt := lt_of_get brace
  have here := drop_of_get brace
  obtain ⟨after, short, ws⟩ := skipWs_spec (show pos + 1 ≤ s.length from lt)
  unfold object
  split
  · exact sound_fail
  next shallow =>
    have nested : maxDepth + 1 - depth = maxDepth - depth + 1 := by omega
    simp only [nested]
    split
    next close =>
      refine ⟨by omega, lt_of_get close, ?_⟩
      rw [here]
      rw [drop_of_get close] at ws
      exact .emptyObject ws
    next =>
      apply (ih.members (skipWs s (pos + 1)) depth short (by omega)).bind
      intro ms pos' _ lt' le' inner
      refine ⟨by omega, le', ?_⟩
      rw [here]
      exact .object (inner.of_ws ws)

theorem array_step (depth : Nat) (bracket : s[pos]? = some 91) (enough : 3 * (s.length - pos) ≤ fuel + 1) :
    Sound s pos (Denotes (maxDepth + 1 - depth)) (array s maxDepth (fuel + 1) pos depth) := by
  have lt := lt_of_get bracket
  have here := drop_of_get bracket
  obtain ⟨after, short, ws⟩ := skipWs_spec (show pos + 1 ≤ s.length from lt)
  unfold array
  split
  · exact sound_fail
  next shallow =>
    have nested : maxDepth + 1 - depth = maxDepth - depth + 1 := by omega
    simp only [nested]
    split
    next close =>
      refine ⟨by omega, lt_of_get close, ?_⟩
      rw [here]
      rw [drop_of_get close] at ws
      exact .emptyArray ws
    next =>
      apply (ih.elements (skipWs s (pos + 1)) depth short (by omega)).bind
      intro vs pos' _ lt' le' inner
      refine ⟨by omega, le', ?_⟩
      rw [here]
      exact .array (inner.of_ws ws)

theorem members_step (depth : Nat) (le : pos ≤ s.length) (enough : 3 * (s.length - pos) + 2 ≤ fuel + 1) :
    Sound s pos (Members (maxDepth - depth)) (members s maxDepth (fuel + 1) pos depth) := by
  obtain ⟨after, short, ws⟩ := skipWs_spec le
  unfold members
  simp only
  split
  · exact sound_fail
  next quote =>
    have quote := not_not.1 quote
    apply (string_sound quote).bind
    rintro key pos₁ _ lt₁ le₁ ⟨l, split, chars⟩
    rw [split] at ws
    obtain ⟨after₁, short₁, ws₁⟩ := skipWs_spec le₁
    simp only
    split
    · exact sound_fail
    next colon =>
      have colon := not_not.1 colon
      have lt₂ := lt_of_get colon
      rw [drop_of_get colon] at ws₁
      obtain ⟨after₂, short₂, ws₂⟩ := skipWs_spec (show skipWs s pos₁ + 1 ≤ s.length from lt₂)
      apply (ih.value (skipWs s (skipWs s pos₁ + 1)) depth short₂ (by omega)).bind
      intro v pos₃ _ lt₃ le₃ inner
      obtain ⟨after₃, short₃, ws₃⟩ := skipWs_spec le₃
      simp only
      split
      · exact sound_fail
      · split
        next comma =>
          rw [drop_of_get comma] at ws₃
          have lt₄ := lt_of_get comma
          apply (ih.members (skipWs s pos₃ + 1) depth lt₄ (by omega)).bind
          intro rest pos₄ _ lt₅ le₅ more
          exact ⟨by omega, le₅, .next ws chars ws₁ ws₂ inner ws₃ more⟩
        next =>
          split
          next close =>
            rw [drop_of_get close] at ws₃
            exact ⟨by omega, lt_of_get close, .last ws chars ws₁ ws₂ inner ws₃⟩
          next => exact sound_fail

theorem elements_step (depth : Nat) (le : pos ≤ s.length) (enough : 3 * (s.length - pos) + 2 ≤ fuel + 1) :
    Sound s pos (Elements (maxDepth - depth)) (elements s maxDepth (fuel + 1) pos depth) := by
  obtain ⟨after, short, ws⟩ := skipWs_spec le
  unfold elements
  apply (ih.value (skipWs s pos) depth short (by omega)).bind
  intro v pos₃ _ lt₃ le₃ inner
  obtain ⟨after₃, short₃, ws₃⟩ := skipWs_spec le₃
  simp only
  split
  · exact sound_fail
  · split
    next comma =>
      rw [drop_of_get comma] at ws₃
      have lt₄ := lt_of_get comma
      apply (ih.elements (skipWs s pos₃ + 1) depth lt₄ (by omega)).bind
      intro rest pos₄ _ lt₅ le₅ more
      exact ⟨by omega, le₅, .next ws inner ws₃ more⟩
    next =>
      split
      next close =>
        rw [drop_of_get close] at ws₃
        exact ⟨by omega, lt_of_get close, .last ws inner ws₃⟩
      next => exact sound_fail

end Step

theorem soundFor (s : Bytes) (maxDepth fuel : Nat) : SoundFor s maxDepth fuel := by
  induction fuel with
  | zero =>
    constructor
    · omega
    · intro pos depth brace enough
      have := lt_of_get brace
      omega
    · omega
    · intro pos depth bracket enough
      have := lt_of_get bracket
      omega
    · omega
  | succ fuel ih =>
    exact ⟨fun _ depth => value_step ih depth, fun _ depth => object_step ih depth, fun _ depth => members_step ih depth,
      fun _ depth => array_step ih depth, fun _ depth => elements_step ih depth⟩

/-- The parser ends without leaving the text, and what it accepts means the value. -/
theorem parse_means (text : Bytes) (maxDepth : Nat) :
    ∃ r, parse text maxDepth = .ok r ∧ ∀ v, r = .ok v → Means maxDepth text v := by
  obtain ⟨after, short, ws⟩ := skipWs_spec (Nat.zero_le text.length)
  have sound := (soundFor text maxDepth (fuelFor text.length)).value (skipWs text 0) 0 short (by unfold fuelFor; omega)
  unfold parse
  cases r : value text maxDepth (fuelFor text.length) (skipWs text 0) 0 with
  | error e =>
    cases e with
    | wrong what pos => exact ⟨_, rfl, fun v h => by cases h⟩
    | fault f =>
      rw [r] at sound
      exact absurd sound id
  | ok p =>
    rw [r] at sound
    obtain ⟨_, le, derived⟩ := sound
    obtain ⟨_, _, ws'⟩ := skipWs_spec le
    simp only
    split
    · exact ⟨_, rfl, fun v h => by cases h⟩
    next whole =>
      refine ⟨_, rfl, fun v read => ?_⟩
      cases read
      refine ⟨_, _, ws, derived, ?_⟩
      rw [not_not.1 whole, List.drop_length] at ws'
      exact ws'

/-- What is accepted is a JSON document. -/
theorem parse_sound (text : Bytes) (maxDepth : Nat) :
    ∃ r, parse text maxDepth = .ok r ∧ ∀ v, r = .ok v → JsonGrammar.Document text := by
  obtain ⟨r, ran, means⟩ := parse_means text maxDepth
  refine ⟨r, ran, fun v read => ?_⟩
  obtain ⟨s, s', ws, value, ws'⟩ := means v read
  exact ⟨s, s', ws, value.grammar, ws'⟩

end Values

end IpcRelay.Ctl.Json
