import IpcRelay.Ctl.JsonMeaning

/-!
# The parser accepts every JSON text

The other direction of `parse_means`: what means a value is accepted, with this
value. A scanner takes as much as it can, so a number is found whole just where
what stands behind it cannot belong to it (`Follow`), as behind every value of a
text. `parse_exact` is both directions together.
-/

namespace IpcRelay.Ctl.Json

open JsonGrammar (isWs isHex Ws Number Digits IntPart FracPart ExpPart Sign)

/-- The function yields the value, and stands before `r`. -/
def Finds {α : Type} (s r : Bytes) (a : α) (result : Except Failure (Parsed α)) : Prop :=
  ∃ pos', result = .ok (a, pos') ∧ pos' ≤ s.length ∧ s.drop pos' = r

/-- White space, a comma or a closing bracket, or nothing. -/
def Follow (r : Bytes) : Prop := ∀ b ∈ r.head?, isWs b = true ∨ b = 44 ∨ b = 93 ∨ b = 125

section Scanners

variable {s l r : Bytes} {pos : Nat}

theorem get_of_drop {b : UInt8} (here : s.drop pos = b :: l) : s[pos]? = some b ∧ s.drop (pos + 1) = l := by
  constructor
  · have first := congrArg List.head? here
    rwa [List.head?_drop, List.head?_cons] at first
  · rw [← List.drop_drop, here, List.drop_one, List.tail_cons]

theorem lt_of_drop {b : UInt8} (here : s.drop pos = b :: l) : pos < s.length := lt_of_get (get_of_drop here).1

/-- The scanner stops at what is not white space. -/
theorem takeWhile_ws (ws : Ws l r) (stop : ∀ b ∈ r.head?, isWs b = false) : l.drop (l.takeWhile isWs).length = r := by
  induction ws with
  | @nil r =>
    cases r with
    | nil => rfl
    | cons b r =>
      have no := stop b rfl
      rw [List.takeWhile_cons_of_neg (by simp [no])]
      rfl
  | cons ws _ ih =>
    rw [List.takeWhile_cons_of_pos ws]
    exact ih stop

theorem drop_skipWs (here : s.drop pos = l) (ws : Ws l r) (stop : ∀ b ∈ r.head?, isWs b = false) :
    s.drop (skipWs s pos) = r := by
  rw [skipWs, ← List.drop_drop, here]
  exact takeWhile_ws ws stop

/-- Where a mark is expected the scanner finds it. -/
theorem skipWs_mark {b : UInt8} (here : s.drop pos = l) (ws : Ws l (b :: r)) (mark : isWs b = false) :
    s[skipWs s pos]? = some b ∧ s.drop (skipWs s pos + 1) = r := by
  apply get_of_drop
  apply drop_skipWs here ws
  rintro _ ⟨⟩
  exact mark

theorem takeWhile_digits (digits : Digits l r) (stop : ∀ b ∈ r.head?, JsonGrammar.isDigit b = false) :
    0 < (l.takeWhile JsonGrammar.isDigit).length ∧ l.drop (l.takeWhile JsonGrammar.isDigit).length = r := by
  induction digits with
  | @last b r digit =>
    rw [List.takeWhile_cons_of_pos digit]
    refine ⟨Nat.succ_pos _, ?_⟩
    cases r with
    | nil => rfl
    | cons c r =>
      have no := stop c rfl
      rw [List.takeWhile_cons_of_neg (by simp [no])]
      rfl
  | cons digit _ ih =>
    rw [List.takeWhile_cons_of_pos digit]
    exact ⟨Nat.succ_pos _, (ih stop).2⟩

theorem digits_complete (here : s.drop pos = l) (derived : Digits l r)
    (stop : ∀ b ∈ r.head?, JsonGrammar.isDigit b = false) : ∃ pos', digits s pos = some pos' ∧ s.drop pos' = r := by
  obtain ⟨nonempty, rest⟩ := takeWhile_digits derived stop
  rw [← here] at nonempty rest
  refine ⟨_, if_pos nonempty, ?_⟩
  rw [← List.drop_drop]
  exact rest

end Scanners

section Strings

variable {s l r : Bytes} {pos : Nat}

theorem hex4_complete {cp : Nat} (here : s.drop pos = l) (hex : Hex4 l cp r) :
    hex4 s pos = .ok (cp, pos + 4) ∧ s.drop (pos + 4) = r := by
  obtain ⟨a, b, c, d, rfl, hexa, hexb, hexc, hexd, rfl⟩ := hex
  obtain ⟨ha, here₁⟩ := get_of_drop here
  obtain ⟨hb, here₂⟩ := get_of_drop here₁
  obtain ⟨hc, here₃⟩ := get_of_drop here₂
  obtain ⟨hd, here₄⟩ := get_of_drop here₃
  have last := lt_of_get hd
  refine ⟨?_, here₄⟩
  rw [hex4, if_neg (by omega), hexDigits_cons (show s[pos + 0]? = some a from ha), if_pos hexa, hexDigits_cons hb,
    if_pos hexb, hexDigits_cons (show s[pos + (1 + 1)]? = some c from hc), if_pos hexc,
    hexDigits_cons (show s[pos + (1 + 1 + 1)]? = some d from hd), if_pos hexd]
  have value : 16 * (16 * (16 * (16 * 0 + hexValue a) + hexValue b) + hexValue c) + hexValue d =
      16 ^ 3 * hexValue a + 16 ^ 2 * hexValue b + 16 * hexValue c + hexValue d := by ring
  show Except.ok (16 * (16 * (16 * (16 * 0 + hexValue a) + hexValue b) + hexValue c) + hexValue d, pos + 4) = _
  rw [value]

/-- One round of the loop. -/
theorem stringLoop_plain {b : UInt8} {fuel : Nat} {out : Bytes} (here : s.drop pos = b :: l) (printable : 32 ≤ b)
    (quote : b ≠ 34) (backslash : b ≠ 92) : stringLoop s (fuel + 1) pos out = stringLoop s fuel (pos + 1) (out ++ [b]) := by
  have lt := lt_of_drop here
  obtain ⟨get, -⟩ := get_of_drop here
  rw [stringLoop, if_neg (by omega), peek, get, Machine.ok_bind, if_neg quote, if_neg (UInt8.not_lt.2 printable),
    if_pos backslash]

theorem stringLoop_escape {e : UInt8} {fuel : Nat} {out : Bytes} (here : s.drop pos = 92 :: e :: l) :
    stringLoop s (fuel + 1) pos out =
      match unescape e with
      | some b => stringLoop s fuel (pos + 2) (out ++ [b])
      | none =>
        if e = 117 then do
          let (cp, pos) ← unicodeEscape s (pos + 2)
          stringLoop s fuel pos (out ++ appendUtf8 cp)
        else fail "invalid escape" (pos + 2) := by
  obtain ⟨get, here₁⟩ := get_of_drop here
  obtain ⟨get', -⟩ := get_of_drop here₁
  have lt := lt_of_get get
  have lt' := lt_of_get get'
  rw [stringLoop, if_neg (by omega), peek, get, Machine.ok_bind, if_neg (by decide), if_neg (by decide),
    if_neg (by decide), if_neg (by omega), peek, get']
  rfl

/-- The escape of a character, with the rest of the string behind it. -/
theorem stringLoop_code {cp pos₁ fuel : Nat} {out t : Bytes} (valid : cp.isValidChar)
    (here : s.drop pos = 92 :: 117 :: l) (code : unicodeEscape s (pos + 2) = .ok (cp, pos₁))
    (behind : ∃ pos', stringLoop s fuel pos₁ (out ++ utf8 cp) = .ok (out ++ utf8 cp ++ t, pos') ∧ s.drop pos' = r) :
    ∃ pos', stringLoop s (fuel + 1) pos out = .ok (out ++ (utf8 cp ++ t), pos') ∧ s.drop pos' = r := by
  obtain ⟨pos', ran, rest⟩ := behind
  refine ⟨pos', ?_, rest⟩
  rw [stringLoop_escape here]
  show (if (117 : UInt8) = 117 then _ else _) = _
  rw [if_pos rfl, code, Machine.ok_bind]
  show stringLoop s fuel pos₁ (out ++ appendUtf8 cp) = _
  rw [appendUtf8_eq valid, ran, List.append_assoc]

theorem unicodeEscape_single {cp : Nat} (here : s.drop pos = l) (hex : Hex4 l cp r) (high : ¬ High cp) (low : ¬ Low cp) :
    unicodeEscape s pos = .ok (cp, pos + 4) ∧ s.drop (pos + 4) = r := by
  obtain ⟨code, behind⟩ := hex4_complete here hex
  refine ⟨?_, behind⟩
  rw [unicodeEscape, code, Machine.ok_bind]
  simp only
  rw [if_neg (show ¬ (0xD800 ≤ cp ∧ cp ≤ 0xDBFF) from high), if_neg (show ¬ (0xDC00 ≤ cp ∧ cp ≤ 0xDFFF) from low)]

theorem unicodeEscape_pair {hi lo : Nat} {l' : Bytes} (here : s.drop pos = l) (hex : Hex4 l hi (92 :: 117 :: l'))
    (high : High hi) (hex' : Hex4 l' lo r) (low : Low lo) :
    unicodeEscape s pos = .ok (pairOf hi lo, pos + 4 + 2 + 4) ∧ s.drop (pos + 4 + 2 + 4) = r := by
  obtain ⟨code, behind⟩ := hex4_complete here hex
  obtain ⟨code', behind'⟩ := @hex4_complete _ _ _ (pos + 4 + 2) _ (get_of_drop (get_of_drop behind).2).2 hex'
  have inside : ¬ (lo < 0xDC00 ∨ 0xDFFF < lo) := by
    unfold Low at low
    omega
  refine ⟨?_, behind'⟩
  rw [unicodeEscape, code, Machine.ok_bind]
  simp only
  rw [if_pos (show 0xD800 ≤ hi ∧ hi ≤ 0xDBFF from high), behind, if_neg (by simp), code', Machine.ok_bind]
  simp only
  rw [if_neg inside, pairOf_eq]

theorem Hex4.shorter {cp : Nat} (hex : Hex4 l cp r) : r.length < l.length := by
  obtain ⟨a, b, c, d, rfl, -⟩ := hex
  simp only [List.length_cons]
  omega

/-- A whole string is read, its characters as they are meant. -/
theorem stringLoop_complete {t : Bytes} (text : Text l t r) :
    ∀ {pos fuel : Nat} {out : Bytes}, s.drop pos = l → l.length < fuel →
      ∃ pos', stringLoop s fuel pos out = .ok (out ++ t, pos') ∧ s.drop pos' = r := by
  induction text with
  | close =>
    rintro pos (_ | fuel) out here enough
    · omega
    · have lt := lt_of_drop here
      obtain ⟨get, rest⟩ := get_of_drop here
      refine ⟨pos + 1, ?_, rest⟩
      rw [stringLoop, if_neg (by omega), peek, get, Machine.ok_bind, if_pos rfl, List.append_nil]
  | @plain b _ t _ printable quote backslash _ ih =>
    rintro pos (_ | fuel) out here enough
    · omega
    · obtain ⟨pos', ran, rest⟩ := @ih (pos + 1) fuel (out ++ [b]) (get_of_drop here).2 (Nat.lt_of_succ_lt_succ enough)
      refine ⟨pos', ?_, rest⟩
      rw [stringLoop_plain here printable quote backslash, ran, List.append_assoc]
      rfl
  | @escape e b _ t _ known _ ih =>
    rintro pos (_ | fuel) out here enough
    · omega
    · rw [List.length_cons, List.length_cons] at enough
      obtain ⟨pos', ran, rest⟩ := @ih (pos + 2) fuel (out ++ [b]) (get_of_drop (get_of_drop here).2).2 (by omega)
      refine ⟨pos', ?_, rest⟩
      rw [stringLoop_escape here, mem_escapes.2 known]
      show stringLoop s fuel (pos + 2) (out ++ [b]) = _
      rw [ran, List.append_assoc]
      rfl
  | @unicode cp l s' t _ hex high low _ ih =>
    rintro pos (_ | fuel) out here enough
    · omega
    · have small := hex.lt
      have shorter := hex.shorter
      have valid : cp.isValidChar := by
        unfold Nat.isValidChar
        unfold High Low at *
        omega
      rw [List.length_cons, List.length_cons] at enough
      obtain ⟨code, behind⟩ := @unicodeEscape_single _ _ _ (pos + 2) _ (get_of_drop (get_of_drop here).2).2 hex high low
      exact stringLoop_code valid here code (ih behind (by omega))
  | @pair hi lo l l' s' t _ hex high hex' low _ ih =>
    rintro pos (_ | fuel) out here enough
    · omega
    · have shorter := hex.shorter
      have shorter' := hex'.shorter
      have valid : (pairOf hi lo).isValidChar := by
        refine .inr ⟨?_, High.pairOf_lt high low⟩
        unfold pairOf
        omega
      rw [List.length_cons, List.length_cons] at enough shorter
      obtain ⟨code, behind⟩ :=
        @unicodeEscape_pair _ _ _ (pos + 2) _ _ _ (get_of_drop (get_of_drop here).2).2 hex high hex' low
      exact stringLoop_code valid here code (ih behind (by omega))

theorem string_complete {t : Bytes} (here : s.drop pos = 34 :: l) (text : Text l t r) : Finds s r t (string s pos) := by
  have quote := get_of_drop here
  have lt := lt_of_get quote.1
  have long := congrArg List.length here
  rw [List.length_drop, List.length_cons] at long
  obtain ⟨pos', ran, rest⟩ := @stringLoop_complete s l r t text (pos + 1) (s.length + 1) [] quote.2 (by omega)
  have sound := string_sound quote.1
  rw [string, ran] at sound
  exact ⟨pos', ran, sound.2.1, rest⟩

/-- The characters of a string are told from the text in one way. -/
theorem Text.unique {t t' r' : Bytes} (h : Text l t r) (h' : Text l t' r') : t = t' ∧ r = r' := by
  obtain ⟨pos, ran, -, rest⟩ := @string_complete (34 :: l) _ _ 0 _ rfl h
  obtain ⟨pos', ran', -, rest'⟩ := @string_complete (34 :: l) _ _ 0 _ rfl h'
  rw [ran] at ran'
  cases ran'
  exact ⟨rfl, rest.symm.trans rest'⟩

end Strings

section Numbers

variable {s l r : Bytes} {pos : Nat}

/-- Behind a value stands nothing that a number can go on with. -/
theorem Follow.stop (follow : Follow r) :
    ∀ b ∈ r.head?, JsonGrammar.isDigit b = false ∧ b ≠ 46 ∧ b ≠ 101 ∧ b ≠ 69 := by
  intro b first
  have every : ∀ b : Fin 256, isWs (UInt8.ofNat b) = true ∨ UInt8.ofNat b = 44 ∨ UInt8.ofNat b = 93 ∨ UInt8.ofNat b = 125 →
      JsonGrammar.isDigit (UInt8.ofNat b) = false ∧ UInt8.ofNat b ≠ 46 ∧ UInt8.ofNat b ≠ 101 ∧ UInt8.ofNat b ≠ 69 := by
    decide +kernel
  have one := every ⟨b.toNat, b.toNat_lt⟩
  rw [UInt8.ofNat_toNat] at one
  exact one (follow b first)

theorem expPart_stop (exp : ExpPart l r) (follow : Follow r) :
    ∀ b ∈ l.head?, JsonGrammar.isDigit b = false ∧ b ≠ 46 := by
  cases exp with
  | none =>
    intro b first
    obtain ⟨digit, point, -⟩ := follow.stop b first
    exact ⟨digit, point⟩
  | unsigned letter =>
    rintro _ ⟨⟩
    rcases letter with rfl | rfl <;> decide
  | signed letter =>
    rintro _ ⟨⟩
    rcases letter with rfl | rfl <;> decide

theorem fracPart_stop (frac : FracPart l r) (stop : ∀ b ∈ r.head?, JsonGrammar.isDigit b = false ∧ b ≠ 46) :
    ∀ b ∈ l.head?, JsonGrammar.isDigit b = false := by
  cases frac with
  | none => exact fun b first => (stop b first).1
  | digits =>
    rintro _ ⟨⟩
    decide

theorem sign_complete {l' : Bytes} (here : s.drop pos = l) (sign : Sign l l') (int : IntPart l' r) :
    s.drop (if s[pos]? = some 45 then pos + 1 else pos) = l' := by
  cases sign with
  | minus =>
    obtain ⟨get, rest⟩ := get_of_drop here
    rw [if_pos get, rest]
  | none =>
    have first : s[pos]? ≠ some 45 := by
      cases int with
      | zero =>
        rw [(get_of_drop here).1]
        decide
      | digits _ derived =>
        rw [(get_of_drop here).1]
        rintro ⟨⟩
        cases derived with
        | last digit => exact absurd digit (by decide)
        | cons digit => exact absurd digit (by decide)
    rw [if_neg first, here]

theorem intPart_complete (here : s.drop pos = l) (int : IntPart l r)
    (stop : ∀ b ∈ r.head?, JsonGrammar.isDigit b = false) : ∃ pos', intPart s pos = .ok pos' ∧ s.drop pos' = r := by
  cases int with
  | zero =>
    obtain ⟨get, rest⟩ := get_of_drop here
    have lt := lt_of_get get
    refine ⟨pos + 1, ?_, rest⟩
    rw [intPart, if_neg (by omega), peek, get, Machine.ok_bind, if_pos rfl]
  | digits notZero derived =>
    obtain ⟨get, -⟩ := get_of_drop here
    have lt := lt_of_get get
    obtain ⟨pos', read, rest⟩ := digits_complete here derived stop
    refine ⟨pos', ?_, rest⟩
    rw [intPart, if_neg (by omega), peek, get, Machine.ok_bind, if_neg notZero, read]

theorem fracPart_complete (here : s.drop pos = l) (frac : FracPart l r)
    (stop : ∀ b ∈ r.head?, JsonGrammar.isDigit b = false ∧ b ≠ 46) :
    ∃ pos', fracPart s pos = .ok pos' ∧ s.drop pos' = r := by
  cases frac with
  | none =>
    have first : s[pos]? ≠ some 46 := by
      intro get
      have point := stop 46 (by rw [← here, List.head?_drop, get]; rfl)
      exact point.2 rfl
    exact ⟨pos, if_neg first, here⟩
  | digits derived =>
    obtain ⟨get, behind⟩ := get_of_drop here
    obtain ⟨pos', read, rest⟩ := digits_complete behind derived fun b first => (stop b first).1
    refine ⟨pos', ?_, rest⟩
    rw [fracPart, if_pos get, read]

theorem expPart_complete (here : s.drop pos = l) (exp : ExpPart l r) (follow : Follow r) :
    ∃ pos', expPart s pos = .ok pos' ∧ s.drop pos' = r := by
  have letterOf : ∀ {e : UInt8} {t : Bytes}, s.drop pos = e :: t → e = 101 ∨ e = 69 →
      s[pos]? = some 101 ∨ s[pos]? = some 69 := by
    rintro e t here (rfl | rfl)
    · exact .inl (get_of_drop here).1
    · exact .inr (get_of_drop here).1
  have stop : ∀ b ∈ r.head?, JsonGrammar.isDigit b = false := fun b first => (follow.stop b first).1
  cases exp with
  | none =>
    have first : ¬ (s[pos]? = some 101 ∨ s[pos]? = some 69) := by
      intro letter
      rw [← List.head?_drop, here] at letter
      rcases letter with first | first
      · exact (follow.stop _ first).2.2.1 rfl
      · exact (follow.stop _ first).2.2.2 rfl
    exact ⟨pos, if_neg first, here⟩
  | unsigned letter derived =>
    have behind := (get_of_drop here).2
    obtain ⟨pos', read, rest⟩ := digits_complete behind derived stop
    have sign : ¬ (s[pos + 1]? = some 43 ∨ s[pos + 1]? = some 45) := by
      rw [← List.head?_drop, behind]
      cases derived with
      | last digit => rintro (⟨⟨⟩⟩ | ⟨⟨⟩⟩) <;> exact absurd digit (by decide)
      | cons digit => rintro (⟨⟨⟩⟩ | ⟨⟨⟩⟩) <;> exact absurd digit (by decide)
    refine ⟨pos', ?_, rest⟩
    rw [expPart, if_pos (letterOf here letter)]
    simp only [if_neg sign, read]
  | signed letter isSign derived =>
    have behind := (get_of_drop here).2
    obtain ⟨pos', read, rest⟩ := @digits_complete _ _ _ (pos + 2) (get_of_drop behind).2 derived stop
    have sign : s[pos + 1]? = some 43 ∨ s[pos + 1]? = some 45 := by
      rw [(get_of_drop behind).1]
      rcases isSign with rfl | rfl
      · exact .inl rfl
      · exact .inr rfl
    refine ⟨pos', ?_, rest⟩
    rw [expPart, if_pos (letterOf here letter)]
    simp only [if_pos sign, read]

/-- A number begins with a byte that begins no other value. -/
theorem number_first (derived : Number l r) : ∃ b t, l = b :: t ∧ isWs b = false ∧ b ∉ [123, 91, 93, 34, 116, 102, 110] := by
  have every : ∀ b : Fin 256, UInt8.ofNat b = 45 ∨ JsonGrammar.isDigit (UInt8.ofNat b) = true →
      isWs (UInt8.ofNat b) = false ∧ UInt8.ofNat b ∉ [123, 91, 93, 34, 116, 102, 110] := by decide +kernel
  have one : ∀ b : UInt8, b = 45 ∨ JsonGrammar.isDigit b = true →
      isWs b = false ∧ b ∉ [123, 91, 93, 34, 116, 102, 110] := by
    intro b
    have this := every ⟨b.toNat, b.toNat_lt⟩
    rwa [UInt8.ofNat_toNat] at this
  rcases derived with ⟨sign, int, frac, exp⟩
  cases sign with
  | minus => exact ⟨_, _, rfl, one _ (.inl rfl)⟩
  | none =>
    cases int with
    | zero => exact ⟨_, _, rfl, one _ (.inr rfl)⟩
    | digits _ derived =>
      cases derived with
      | last digit => exact ⟨_, _, rfl, one _ (.inr digit)⟩
      | cons digit => exact ⟨_, _, rfl, one _ (.inr digit)⟩

/-- A number is found whole, unless more of one follows. -/
theorem number_complete {n : Bytes} (here : s.drop pos = n ++ r) (derived : Number (n ++ r) r) (follow : Follow r) :
    Finds s r (.number (strtod n)) (number s pos) := by
  obtain ⟨b, t, first, -⟩ := number_first derived
  have sound := number_sound 0 (lt_of_drop (here.trans first)).le
  cases derived with
  | mk sign int frac exp =>
    obtain ⟨pos₁, ran₁, rest₁⟩ :=
      intPart_complete (sign_complete here sign int) int (fracPart_stop frac (expPart_stop exp follow))
    obtain ⟨pos₂, ran₂, rest₂⟩ := fracPart_complete rest₁ frac (expPart_stop exp follow)
    obtain ⟨pos₃, ran₃, rest₃⟩ := expPart_complete rest₂ exp follow
    have ran : number s pos = .ok (.number (strtod ((s.drop pos).take (pos₃ - pos))), pos₃) := by
      rw [number, ran₁, Machine.ok_bind, ran₂, Machine.ok_bind, ran₃, Machine.ok_bind]
    rw [ran] at sound
    obtain ⟨lt, le', -⟩ := sound
    have whole : (s.drop pos).take (pos₃ - pos) = n := by
      have long := congrArg List.length here
      have short := congrArg List.length rest₃
      rw [List.length_drop, List.length_append] at long
      rw [List.length_drop] at short
      rw [here, show pos₃ - pos = n.length by omega, List.take_left]
    rw [whole] at ran
    exact ⟨pos₃, ran, le', rest₃⟩

end Numbers

section Values

variable {s l r : Bytes} {pos : Nat}

theorem Follow.of_ws {b : UInt8} (ws : Ws l (b :: r)) (mark : b = 44 ∨ b = 93 ∨ b = 125) : Follow l := by
  cases ws with
  | nil =>
    rintro _ ⟨⟩
    exact .inr mark
  | cons ws =>
    rintro _ ⟨⟩
    exact .inl ws

/-- A value begins with a byte that is neither white space nor a closing bracket. -/
theorem Denotes.first {d : Nat} {v : Value} (h : Denotes d l v r) : ∀ b ∈ l.head?, isWs b = false ∧ b ≠ 93 := by
  cases h with
  | number derived =>
    obtain ⟨b, t, first, ws, other⟩ := number_first derived
    rw [first]
    rintro _ ⟨⟩
    exact ⟨ws, fun bracket => other (by simp [bracket])⟩
  | null | yes | no | string | emptyObject | object | emptyArray | array =>
    rintro _ ⟨⟩
    decide

/-- What stands behind an opening brace. -/
theorem Denotes.of_brace {d : Nat} {v : Value} (h : Denotes d (123 :: l) v r) : ∃ d', d = d' + 1 ∧
    (Ws l (125 :: r) ∧ v = .object [] ∨ ∃ ms, Members d' l ms r ∧ v = .object ms) := by
  generalize whole : (123 :: l : Bytes) = l' at h
  cases h with
  | number derived =>
    obtain ⟨b, t, first, -, other⟩ := number_first derived
    rw [first] at whole
    cases whole
    exact absurd (by decide) other
  | emptyObject ws =>
    cases whole
    exact ⟨_, rfl, .inl ⟨ws, rfl⟩⟩
  | object inner =>
    cases whole
    exact ⟨_, rfl, .inr ⟨_, inner, rfl⟩⟩
  | null | yes | no | string | emptyArray | array => exact absurd (List.cons.inj whole).1 (by decide)

theorem Denotes.of_bracket {d : Nat} {v : Value} (h : Denotes d (91 :: l) v r) : ∃ d', d = d' + 1 ∧
    (Ws l (93 :: r) ∧ v = .array [] ∨ ∃ vs, Elements d' l vs r ∧ v = .array vs) := by
  generalize whole : (91 :: l : Bytes) = l' at h
  cases h with
  | number derived =>
    obtain ⟨b, t, first, -, other⟩ := number_first derived
    rw [first] at whole
    cases whole
    exact absurd (by decide) other
  | emptyArray ws =>
    cases whole
    exact ⟨_, rfl, .inl ⟨ws, rfl⟩⟩
  | array inner =>
    cases whole
    exact ⟨_, rfl, .inr ⟨_, inner, rfl⟩⟩
  | null | yes | no | string | emptyObject | object => exact absurd (List.cons.inj whole).1 (by decide)

/-- The members without the white space before the first key. -/
theorem Members.skip {d : Nat} {ms : List (Bytes × Value)} (here : s.drop pos = l) (h : Members d l ms r) :
    Members d (s.drop (skipWs s pos)) ms r ∧ s[skipWs s pos]? = some 34 := by
  cases h with
  | last ws key colon before value close =>
    obtain ⟨quote, -⟩ := skipWs_mark here ws (by decide)
    rw [drop_skipWs here ws (by rintro _ ⟨⟩; decide)]
    exact ⟨.last .nil key colon before value close, quote⟩
  | next ws key colon before value comma rest =>
    obtain ⟨quote, -⟩ := skipWs_mark here ws (by decide)
    rw [drop_skipWs here ws (by rintro _ ⟨⟩; decide)]
    exact ⟨.next .nil key colon before value comma rest, quote⟩

theorem Elements.skip {d : Nat} {vs : List Value} (here : s.drop pos = l) (h : Elements d l vs r) :
    Elements d (s.drop (skipWs s pos)) vs r ∧ s[skipWs s pos]? ≠ some 93 := by
  cases h with
  | last ws value close =>
    have first := value.first
    rw [← List.head?_drop, drop_skipWs here ws fun b eq => (first b eq).1]
    exact ⟨.last .nil value close, fun bracket => (first _ bracket).2 rfl⟩
  | next ws value comma rest =>
    have first := value.first
    rw [← List.head?_drop, drop_skipWs here ws fun b eq => (first b eq).1]
    exact ⟨.next .nil value comma rest, fun bracket => (first _ bracket).2 rfl⟩

/-- What is no other value is a number. -/
theorem finds_number {d : Nat} {v : Value} {b : UInt8} {t : Bytes} (h : Denotes d (b :: t) v r) (follow : Follow r)
    (other : b ∉ [123, 91, 93, 34, 116, 102, 110]) : Finds (b :: t) r v (number (b :: t) 0) := by
  generalize whole : b :: t = l at h
  cases h with
  | number derived => exact number_complete List.drop_zero derived follow
  | null | yes | no | string | emptyObject | object | emptyArray | array =>
    obtain ⟨rfl, -⟩ := List.cons.inj whole
    exact absurd (by decide) other

theorem literal_complete {word : String} {v : Value} (here : s.drop pos = str word ++ r) (nonempty : 0 < (str word).length) :
    Finds s r v (literal s pos word v) := by
  have long := congrArg List.length here
  rw [List.length_drop, List.length_append] at long
  refine ⟨_, if_pos (here ▸ List.prefix_append _ _), by omega, ?_⟩
  rw [← List.drop_drop, here, List.drop_left]

/-- What is found is behind the place where the function was called. -/
theorem Finds.forward {α : Type} {a : α} {meaning : Bytes → α → Bytes → Prop} {result : Except Failure (Parsed α)}
    (found : Finds s r a result) (sound : Sound s pos meaning result) :
    ∃ pos', result = .ok (a, pos') ∧ pos < pos' ∧ pos' ≤ s.length ∧ s.drop pos' = r := by
  obtain ⟨pos', rfl, le, rest⟩ := found
  exact ⟨pos', rfl, sound.1, le, rest⟩

/-- What the induction shows: with enough fuel each function finds what is there. -/
structure CompleteFor (s : Bytes) (maxDepth fuel : Nat) : Prop where
  value : ∀ pos depth l v r, s.drop pos = l → 3 * (s.length - pos) + 1 ≤ fuel → Denotes (maxDepth - depth) l v r →
    Follow r → Finds s r v (value s maxDepth fuel pos depth)
  object : ∀ pos depth l v r, s.drop pos = 123 :: l → 3 * (s.length - pos) ≤ fuel →
    Denotes (maxDepth + 1 - depth) (123 :: l) v r → Finds s r v (object s maxDepth fuel pos depth)
  members : ∀ pos depth l ms r, s.drop pos = l → pos ≤ s.length → 3 * (s.length - pos) + 2 ≤ fuel →
    Members (maxDepth - depth) l ms r → Finds s r ms (members s maxDepth fuel pos depth)
  array : ∀ pos depth l v r, s.drop pos = 91 :: l → 3 * (s.length - pos) ≤ fuel →
    Denotes (maxDepth + 1 - depth) (91 :: l) v r → Finds s r v (array s maxDepth fuel pos depth)
  elements : ∀ pos depth l vs r, s.drop pos = l → pos ≤ s.length → 3 * (s.length - pos) + 2 ≤ fuel →
    Elements (maxDepth - depth) l vs r → Finds s r vs (elements s maxDepth fuel pos depth)

section Step

variable {maxDepth fuel depth : Nat} (ih : CompleteFor s maxDepth fuel)

/-- The first byte of a value tells which function reads it. -/
theorem value_at {b : UInt8} (here : s.drop pos = b :: l) : value s maxDepth (fuel + 1) pos depth =
    if b = 123 then object s maxDepth fuel pos (depth + 1)
    else if b = 91 then array s maxDepth fuel pos (depth + 1)
    else if b = 34 then do
      let (text, pos) ← string s pos
      .ok (.string text, pos)
    else if b = 116 then literal s pos "true" (.bool true)
    else if b = 102 then literal s pos "false" (.bool false)
    else if b = 110 then literal s pos "null" .null
    else number s pos := by
  have lt := lt_of_drop here
  rw [value, if_neg (by omega), peek, (get_of_drop here).1, Machine.ok_bind]

theorem value_number {n : Bytes} (here : s.drop pos = n ++ r) (derived : Number (n ++ r) r) :
    value s maxDepth (fuel + 1) pos depth = number s pos := by
  obtain ⟨b, t, first, -, other⟩ := number_first derived
  simp only [List.mem_cons, List.not_mem_nil, or_false, not_or] at other
  obtain ⟨brace, bracket, -, quote, yes, no, null⟩ := other
  rw [value_at (here.trans first), if_neg brace, if_neg bracket, if_neg quote, if_neg yes, if_neg no, if_neg null]

include ih

theorem value_complete {v : Value} (here : s.drop pos = l) (enough : 3 * (s.length - pos) + 1 ≤ fuel + 1)
    (derived : Denotes (maxDepth - depth) l v r) (follow : Follow r) :
    Finds s r v (value s maxDepth (fuel + 1) pos depth) := by
  have whole := derived
  rw [show maxDepth - depth = maxDepth + 1 - (depth + 1) by omega] at whole
  generalize maxDepth - depth = d at derived
  cases derived with
  | null =>
    rw [value_at here]
    exact literal_complete here (by decide)
  | yes =>
    rw [value_at here]
    exact literal_complete here (by decide)
  | no =>
    rw [value_at here]
    exact literal_complete here (by decide)
  | number derived =>
    rw [value_number here derived]
    exact number_complete here derived follow
  | string text =>
    obtain ⟨pos', ran, le, rest⟩ := string_complete here text
    refine ⟨pos', ?_, le, rest⟩
    rw [value_at here, if_neg (by decide), if_neg (by decide), if_pos rfl, ran, Machine.ok_bind]
  | emptyObject | object =>
    rw [value_at here, if_pos rfl]
    exact ih.object pos (depth + 1) _ _ _ here (by omega) whole
  | emptyArray | array =>
    rw [value_at here, if_neg (by decide), if_pos rfl]
    exact ih.array pos (depth + 1) _ _ _ here (by omega) whole

theorem object_complete {v : Value} (here : s.drop pos = 123 :: l) (enough : 3 * (s.length - pos) ≤ fuel + 1)
    (derived : Denotes (maxDepth + 1 - depth) (123 :: l) v r) : Finds s r v (object s maxDepth (fuel + 1) pos depth) := by
  have lt := lt_of_drop here
  have behind := (get_of_drop here).2
  obtain ⟨after, short, -⟩ := skipWs_spec (show pos + 1 ≤ s.length from lt)
  obtain ⟨d, nested, ⟨ws, rfl⟩ | ⟨ms, inner, rfl⟩⟩ := derived.of_brace
  · obtain ⟨close, rest⟩ := skipWs_mark behind ws (by decide)
    rw [object, if_neg (by omega)]
    exact ⟨_, if_pos close, lt_of_get close, rest⟩
  · obtain ⟨inner, quote⟩ := inner.skip behind
    rw [show d = maxDepth - depth by omega] at inner
    obtain ⟨pos', ran, le, rest⟩ := ih.members (skipWs s (pos + 1)) depth _ ms r rfl short (by omega) inner
    refine ⟨pos', ?_, le, rest⟩
    rw [object, if_neg (by omega)]
    simp only [quote]
    rw [if_neg (by decide), ran, Machine.ok_bind]

theorem array_complete {v : Value} (here : s.drop pos = 91 :: l) (enough : 3 * (s.length - pos) ≤ fuel + 1)
    (derived : Denotes (maxDepth + 1 - depth) (91 :: l) v r) : Finds s r v (array s maxDepth (fuel + 1) pos depth) := by
  have lt := lt_of_drop here
  have behind := (get_of_drop here).2
  obtain ⟨after, short, -⟩ := skipWs_spec (show pos + 1 ≤ s.length from lt)
  obtain ⟨d, nested, ⟨ws, rfl⟩ | ⟨vs, inner, rfl⟩⟩ := derived.of_bracket
  · obtain ⟨close, rest⟩ := skipWs_mark behind ws (by decide)
    rw [array, if_neg (by omega)]
    exact ⟨_, if_pos close, lt_of_get close, rest⟩
  · obtain ⟨inner, open_⟩ := inner.skip behind
    rw [show d = maxDepth - depth by omega] at inner
    obtain ⟨pos', ran, le, rest⟩ := ih.elements (skipWs s (pos + 1)) depth _ vs r rfl short (by omega) inner
    refine ⟨pos', ?_, le, rest⟩
    rw [array, if_neg (by omega)]
    simp only [if_neg open_]
    rw [ran, Machine.ok_bind]

/-- The value of an element, from the white space before it on. -/
theorem element_complete {v : Value} {l' : Bytes} (here : s.drop pos = l) (le : pos ≤ s.length)
    (enough : 3 * (s.length - pos) + 1 ≤ fuel) (ws : Ws l l') (derived : Denotes (maxDepth - depth) l' v r)
    (follow : Follow r) : ∃ pos', value s maxDepth fuel (skipWs s pos) depth = .ok (v, pos') ∧ pos < pos' ∧
      pos' ≤ s.length ∧ s.drop pos' = r := by
  obtain ⟨after, short, -⟩ := skipWs_spec le
  have there := drop_skipWs here ws fun b first => (derived.first b first).1
  have sound := (soundFor s maxDepth fuel).value (skipWs s pos) depth short (by omega)
  obtain ⟨pos', ran, lt, le', rest⟩ :=
    (ih.value (skipWs s pos) depth l' v r there (by omega) derived follow).forward sound
  exact ⟨pos', ran, by omega, le', rest⟩

theorem elements_complete {vs : List Value} (here : s.drop pos = l) (le : pos ≤ s.length)
    (enough : 3 * (s.length - pos) + 2 ≤ fuel + 1) (derived : Elements (maxDepth - depth) l vs r) :
    Finds s r vs (elements s maxDepth (fuel + 1) pos depth) := by
  cases derived with
  | last ws inner close =>
    obtain ⟨pos', ran, lt, le', rest⟩ :=
      element_complete ih here le (by omega) ws inner (.of_ws close (.inr (.inl rfl)))
    obtain ⟨bracket, rest⟩ := skipWs_mark rest close (by decide)
    have inside := lt_of_get bracket
    refine ⟨skipWs s pos' + 1, ?_, inside, rest⟩
    rw [elements, ran, Machine.ok_bind]
    simp only
    rw [if_neg (by omega), bracket, if_neg (by decide), if_pos rfl]
  | next ws inner comma more =>
    obtain ⟨pos', ran, lt, le', rest⟩ := element_complete ih here le (by omega) ws inner (.of_ws comma (.inl rfl))
    obtain ⟨after, -⟩ := skipWs_spec le'
    obtain ⟨mark, rest⟩ := skipWs_mark rest comma (by decide)
    have inside := lt_of_get mark
    obtain ⟨last, ran', le'', rest'⟩ := ih.elements (skipWs s pos' + 1) depth _ _ r rest inside (by omega) more
    refine ⟨last, ?_, le'', rest'⟩
    rw [elements, ran, Machine.ok_bind]
    simp only
    rw [if_neg (by omega), if_pos mark, ran', Machine.ok_bind]

/-- The key and the value of a member, up to the mark behind them. -/
theorem member_complete {k s₁ s₂ s₃ s₄ s₅ t : Bytes} {v : Value} {b : UInt8} (here : s.drop pos = l) (le : pos ≤ s.length)
    (enough : 3 * (s.length - pos) + 2 ≤ fuel + 1) (ws : Ws l (34 :: s₁)) (key : Text s₁ k s₂) (colon : Ws s₂ (58 :: s₃))
    (before : Ws s₃ s₄) (derived : Denotes (maxDepth - depth) s₄ v s₅) (behind : Ws s₅ (b :: t))
    (mark : b = 44 ∨ b = 93 ∨ b = 125) : ∃ pos', pos < pos' ∧ pos' < s.length ∧ s[pos']? = some b ∧
      s.drop (pos' + 1) = t ∧ members s maxDepth (fuel + 1) pos depth =
        if s[pos']? = some 44 then do
          let (rest, pos) ← members s maxDepth fuel (pos' + 1) depth
          .ok ((k, v) :: rest, pos)
        else if s[pos']? = some 125 then .ok ([(k, v)], pos' + 1)
        else fail "expected ',' or '\x7d'" pos' := by
  obtain ⟨after, short, -⟩ := skipWs_spec le
  have there := drop_skipWs here ws (by rintro _ ⟨⟩; decide)
  obtain ⟨quote, -⟩ := skipWs_mark here ws (by decide)
  obtain ⟨pos₁, ran₁, lt₁, le₁, rest₁⟩ := (string_complete there key).forward (string_sound quote)
  obtain ⟨after₁, short₁, -⟩ := skipWs_spec le₁
  obtain ⟨isColon, rest₂⟩ := skipWs_mark rest₁ colon (by decide)
  have lt₂ := lt_of_get isColon
  obtain ⟨pos₃, ran₃, lt₃, le₃, rest₃⟩ :=
    element_complete ih rest₂ lt₂ (by omega) before derived (.of_ws behind mark)
  obtain ⟨after₃, short₃, -⟩ := skipWs_spec le₃
  have notWs : isWs b = false := by rcases mark with rfl | rfl | rfl <;> decide
  obtain ⟨isMark, rest₄⟩ := skipWs_mark rest₃ behind notWs
  have lt₄ := lt_of_get isMark
  refine ⟨skipWs s pos₃, by omega, lt₄, isMark, rest₄, ?_⟩
  rw [members]
  simp only
  rw [if_neg (not_not.2 quote), ran₁, Machine.ok_bind]
  simp only
  rw [if_neg (not_not.2 isColon), ran₃, Machine.ok_bind]
  simp only
  rw [if_neg (by omega)]

theorem members_complete {ms : List (Bytes × Value)} (here : s.drop pos = l) (le : pos ≤ s.length)
    (enough : 3 * (s.length - pos) + 2 ≤ fuel + 1) (derived : Members (maxDepth - depth) l ms r) :
    Finds s r ms (members s maxDepth (fuel + 1) pos depth) := by
  cases derived with
  | last ws key colon before inner close =>
    obtain ⟨pos', -, inside, brace, rest, ran⟩ :=
      member_complete ih here le enough ws key colon before inner close (.inr (.inr rfl))
    refine ⟨pos' + 1, ?_, inside, rest⟩
    rw [ran, brace, if_neg (by decide), if_pos rfl]
  | next ws key colon before inner comma more =>
    obtain ⟨pos', after, inside, mark, rest, ran⟩ :=
      member_complete ih here le enough ws key colon before inner comma (.inl rfl)
    obtain ⟨last, ran', le', rest'⟩ := ih.members (pos' + 1) depth _ _ r rest inside (by omega) more
    refine ⟨last, ?_, le', rest'⟩
    rw [ran, if_pos mark, ran', Machine.ok_bind]

end Step

theorem completeFor (s : Bytes) (maxDepth fuel : Nat) : CompleteFor s maxDepth fuel := by
  induction fuel with
  | zero =>
    constructor
    · omega
    · intro pos depth l v r here enough
      have := lt_of_drop here
      omega
    · omega
    · intro pos depth l v r here enough
      have := lt_of_drop here
      omega
    · omega
  | succ fuel ih =>
    constructor
    · intro pos depth l v r here enough derived follow
      exact value_complete ih here enough derived follow
    · intro pos depth l v r here enough derived
      exact object_complete ih here enough derived
    · intro pos depth l ms r here le enough derived
      exact members_complete ih here le enough derived
    · intro pos depth l v r here enough derived
      exact array_complete ih here enough derived
    · intro pos depth l vs r here le enough derived
      exact elements_complete ih here le enough derived

/-- What means a value is accepted, with this value. -/
theorem parse_complete {text : Bytes} {maxDepth : Nat} {v : Value} (means : Means maxDepth text v) :
    parse text maxDepth = .ok (.ok v) := by
  obtain ⟨l, r, ws, derived, ws'⟩ := means
  have follow : Follow r := by
    cases ws' with
    | nil => exact nofun
    | cons ws =>
      rintro _ ⟨⟩
      exact .inl ws
  obtain ⟨pos, ran, -, le, rest⟩ :=
    element_complete (completeFor text maxDepth (fuelFor text.length)) List.drop_zero (Nat.zero_le _)
      (by unfold fuelFor; omega) ws (show Denotes (maxDepth - 0) l v r from derived) follow
  have last := drop_skipWs rest ws' nofun
  obtain ⟨-, short, -⟩ := skipWs_spec le
  have atEnd := List.drop_eq_nil_iff.1 last
  rw [parse, ran]
  simp only
  rw [if_neg (by omega)]

/-- The parser ends without leaving the text; it accepts exactly the texts that mean a value, with this value. -/
theorem parse_exact (text : Bytes) (maxDepth : Nat) :
    ∃ r, parse text maxDepth = .ok r ∧ ∀ v, r = .ok v ↔ Means maxDepth text v := by
  obtain ⟨r, ran, means⟩ := parse_means text maxDepth
  refine ⟨r, ran, fun v => ⟨means v, fun means' => ?_⟩⟩
  rw [parse_complete means'] at ran
  exact (Except.ok.inj ran).symm

end Values

end IpcRelay.Ctl.Json
