import IpcRelay.Common.Decimals
import IpcRelay.Ctl.JsonTree
import IpcRelay.Ctl.Replies
import IpcRelay.Ctl.ServerStream

/-!
# The id of a message comes back

A string comes back as it is. A number is printed as an integer where it is a small
one and with three decimal places otherwise, in a buffer of 64 characters; it comes
back just if it is `Echoable`, for which the text that is printed is followed through
`strtod` (`echo_small`, `echo_large`, `echo_integer`).
-/

namespace IpcRelay.Ctl

open Binary64 Json JsonWriter JsonGrammar

section Strtod

variable {ds fs : Bytes}

theorem takeWhile_digits_append (all : ∀ b ∈ ds, JsonGrammar.isDigit b = true) {t : Bytes}
    (stop : ∀ b ∈ t.head?, JsonGrammar.isDigit b = false) :
    (ds ++ t).takeWhile (IpcRelay.isDigit 10) = ds ∧ (ds ++ t).dropWhile (IpcRelay.isDigit 10) = t := by
  have all : ∀ b ∈ ds, IpcRelay.isDigit 10 b = true := fun b mem => by rw [isDigit_ten, all b mem]
  rw [List.takeWhile_append_of_pos all, List.dropWhile_append_of_pos all]
  cases t with
  | nil => simp
  | cons b t =>
    have no : ¬ IpcRelay.isDigit 10 b = true := by
      rw [isDigit_ten, stop b rfl]
      decide
    rw [List.takeWhile_cons_of_neg no, List.dropWhile_cons_of_neg no, List.append_nil]
    exact ⟨rfl, rfl⟩

/-- `strtod` behind the sign. -/
def strtodMagnitude (negative : Bool) (s : Bytes) : Double :=
  let digits := s.takeWhile (IpcRelay.isDigit 10)
  let rest := s.dropWhile (IpcRelay.isDigit 10)
  let (fraction, rest) := match rest with
    | 46 :: rest => (rest.takeWhile (IpcRelay.isDigit 10), rest.dropWhile (IpcRelay.isDigit 10))
    | rest => ([], rest)
  let exponent : Int := match rest with
    | e :: rest =>
      if e = 101 ∨ e = 69 then
        match rest with
        | 45 :: rest => -((readDigits 10 rest).1 : Int)
        | 43 :: rest => (readDigits 10 rest).1
        | rest => (readDigits 10 rest).1
      else 0
    | [] => 0
  .ofDecimal negative (readDigits 10 (digits ++ fraction)).1 (exponent - fraction.length)

/-- The sign of a number is read off before its digits. -/
theorem strtod_sign (negative : Bool) (nonempty : ds ≠ []) (all : ∀ b ∈ ds, JsonGrammar.isDigit b = true) (t : Bytes) :
    strtod ((if negative then str "-" else []) ++ ds ++ t) = strtodMagnitude negative (ds ++ t) := by
  cases ds with
  | nil => exact absurd rfl nonempty
  | cons d ds =>
    have digit := all d (List.mem_cons_self ..)
    cases negative with
    | true => rfl
    | false =>
      show strtod (d :: (ds ++ t)) = strtodMagnitude false (d :: (ds ++ t))
      unfold strtod
      split
      next n s spelled =>
        split at spelled
        next eq =>
          rw [(List.cons.inj eq).1] at digit
          exact absurd digit (by decide)
        next eq =>
          rw [(List.cons.inj eq).1] at digit
          exact absurd digit (by decide)
        next =>
          cases spelled
          rfl

theorem strtod_point (negative : Bool) (nonempty : ds ≠ []) (all : ∀ b ∈ ds, JsonGrammar.isDigit b = true)
    (all' : ∀ b ∈ fs, JsonGrammar.isDigit b = true) :
    strtod ((if negative then str "-" else []) ++ ds ++ 46 :: fs) =
      .ofDecimal negative (decimal (ds ++ fs)) (-(fs.length : Int)) := by
  have whole : ∀ b ∈ ds ++ fs, JsonGrammar.isDigit b = true := by
    intro b mem
    rcases List.mem_append.1 mem with mem | mem
    · exact all b mem
    · exact all' b mem
  obtain ⟨front, behind⟩ := takeWhile_digits_append (t := 46 :: fs) all (by rintro _ ⟨⟩; decide)
  obtain ⟨front', behind'⟩ := takeWhile_digits_append (t := []) all' (by rintro _ ⟨⟩)
  rw [List.append_nil] at front' behind'
  rw [strtod_sign negative nonempty all, strtodMagnitude]
  simp only [front, behind, front', behind', readDigits_digits whole, zero_sub]

theorem strtod_digits (negative : Bool) (nonempty : ds ≠ []) (all : ∀ b ∈ ds, JsonGrammar.isDigit b = true) :
    strtod ((if negative then str "-" else []) ++ ds) = .ofDecimal negative (decimal ds) 0 := by
  obtain ⟨front, behind⟩ := takeWhile_digits_append (t := []) all (by rintro _ ⟨⟩)
  have sign := strtod_sign negative nonempty all []
  rw [List.append_nil] at front behind
  rw [List.append_nil, List.append_nil] at sign
  rw [sign, strtodMagnitude]
  simp only [front, behind, List.append_nil, readDigits_digits all]
  rfl

end Strtod

section Printing

variable {negative : Bool} {m : Nat} {e : Int}

/-- The characters of the integer part and its sign fit into the buffer, with the point and a digit behind them
or nothing at all. -/
def InBuffer (negative : Bool) (q : ℚ) : Prop :=
  let p : ℚ := if negative then 10 ^ 60 else 10 ^ 61
  q < p ∨ 10 * p ≤ q ∧ q < 100 * p

/-- A number that is printed without a loss: finite, nearest to a decimal with three places, and short enough. -/
def Echoable : Double → Prop
  | .infinite _ => False
  | .finite negative m e =>
    InBuffer negative (m * 2 ^ e) ∧ ∃ j : Nat, (Double.ofDecimal negative j (-3)).Same (.finite negative m e)

theorem fixed3_text (negative : Bool) (m : Nat) (e : Int) : fixed3 (.finite negative m e) =
    (if negative then str "-" else []) ++ numText (Double.thousandths m e / 1000 : Nat) ++
      46 :: pad3 (Double.thousandths m e % 1000) := by
  rw [fixed3]
  simp only [List.append_assoc]
  rfl

theorem sign_length (negative : Bool) : (if negative then str "-" else []).length = if negative then 1 else 0 := by
  cases negative <;> rfl

/-- A text that is not cut. -/
theorem strtod_whole (small : (m : ℚ) * 2 ^ e < 2 ^ 53) : strtod ((fixed3 (.finite negative m e)).take 63) =
    .ofDecimal negative (Double.thousandths m e) (-3) := by
  have near := (abs_le.1 (Double.thousandths_near m e)).2
  have bound : (Double.thousandths m e : ℚ) < 10 ^ 20 := by linarith
  have bound : Double.thousandths m e < 10 ^ 20 := by exact_mod_cast bound
  have digits := (length_numText_le (n := Double.thousandths m e / 1000) (k := 17) (by decide)).2 (by omega)
  have one : (if negative then str "-" else []).length ≤ 1 := by cases negative <;> decide
  have three : (pad3 (Double.thousandths m e % 1000)).length = 3 := rfl
  have parts : Double.thousandths m e / 1000 * 10 ^ 3 + Double.thousandths m e % 1000 = Double.thousandths m e := by omega
  rw [fixed3_text, List.take_of_length_le, strtod_point negative (numText_ne_nil _) numText_digit (pad3_digit _),
    decimal_append, decimal_numText, decimal_pad3 (Nat.mod_lt _ (by decide)), three, parts]
  · rfl
  · simp only [List.length_append, List.length_cons]
    omega

/-- Large numbers are integers. -/
theorem integer_of_large (fits : Double.Fits m e) (large : (2 : ℚ) ^ 53 ≤ m * 2 ^ e) :
    ∃ n : Nat, (m : ℚ) * 2 ^ e = n := by
  rcases lt_or_ge e 0 with down | up
  · have half : (2 : ℚ) ^ e ≤ 2 ^ (-1 : Int) := zpow_le_zpow_right₀ (by norm_num) (by omega)
    have bits : (m : ℚ) ≤ 2 ^ 53 := by exact_mod_cast fits.bits
    have product : (m : ℚ) * 2 ^ e ≤ 2 ^ 53 * 2 ^ (-1 : Int) := mul_le_mul bits half (by positivity) (by norm_num)
    norm_num at product large
    linarith
  · obtain ⟨k, rfl⟩ := Int.eq_ofNat_of_zero_le up
    refine ⟨m * 2 ^ k, ?_⟩
    push_cast
    rw [zpow_natCast]

/-- The thousandths of an integer. -/
theorem thousandths_integer {n : Nat} (integer : (m : ℚ) * 2 ^ e = n) : Double.thousandths m e = 1000 * n := by
  apply Double.thousandths_unique
  rw [integer]
  push_cast
  rw [sub_self, abs_zero]
  norm_num

/-- The echo of a number that is not large. -/
theorem echo_small (fits : Double.Fits m e) (small : (m : ℚ) * 2 ^ e < 2 ^ 53) :
    (strtod ((fixed3 (.finite negative m e)).take 63)).Same (.finite negative m e) ↔ Echoable (.finite negative m e) := by
  have room : InBuffer negative (m * 2 ^ e) := by
    left
    refine small.trans ?_
    split <;> norm_num
  rw [strtod_whole small, Echoable, and_iff_right room]
  constructor
  · exact fun same => ⟨_, same⟩
  · rintro ⟨j, from_⟩
    by_cases whole : ∃ n : Nat, (m : ℚ) * 2 ^ e = n
    · obtain ⟨n, integer⟩ := whole
      apply Double.ofDecimal_same fits
      rw [thousandths_integer integer, integer]
      push_cast
      norm_num
      ring
    · have fraction := not_exists.1 whole
      obtain ⟨m', e', rounded, same⟩ : ∃ m' e', Double.ofDecimal negative j (-3) = .finite negative m' e' ∧
          (m' : ℚ) * 2 ^ e' = m * 2 ^ e := by
        cases printed : Double.ofDecimal negative j (-3) with
        | infinite =>
          rw [printed] at from_
          cases from_
        | finite negative' m' e' =>
          obtain ⟨rfl, -⟩ := Double.ofDecimal_fits printed
          rw [printed] at from_
          exact ⟨m', e', rfl, Double.same_finite.1 from_⟩
      have positive : 0 < j := by
        rcases Nat.eq_zero_or_pos j with rfl | pos
        · cases rounded
          exact absurd same.symm (by simpa using fraction 0)
        · exact pos
      obtain ⟨-, kept⟩ := Double.ofRatio_thousandths positive rounded fun k => same ▸ fraction k
      rw [Double.thousandths_congr same] at kept
      show (Double.ofRatio negative (Double.thousandths m e) 1000).Same _
      rw [kept]
      exact Double.same_finite.2 same

section Large

variable {n : Nat}

theorem inBuffer_iff (negative : Bool) (n : Nat) : InBuffer negative n ↔
    (if negative then str "-" else []).length + (numText n).length ≤ 61 ∨
      (if negative then str "-" else []).length + (numText n).length = 63 := by
  have below : ∀ k, 0 < k → ((numText n).length ≤ k ↔ (n : ℚ) < 10 ^ k) := by
    intro k pos
    rw [length_numText_le pos]
    exact_mod_cast Iff.rfl
  have above : ∀ k, 0 < k → ((10 : ℚ) ^ k ≤ n ↔ ¬ (numText n).length ≤ k) := by
    intro k pos
    rw [below k pos, not_lt]
  rw [sign_length]
  cases negative with
  | true =>
    show ((n : ℚ) < 10 ^ 60 ∨ 10 * 10 ^ 60 ≤ (n : ℚ) ∧ (n : ℚ) < 100 * 10 ^ 60) ↔ 1 + _ ≤ 61 ∨ 1 + _ = 63
    rw [show (10 : ℚ) * 10 ^ 60 = 10 ^ 61 by norm_num, show (100 : ℚ) * 10 ^ 60 = 10 ^ 62 by norm_num,
      ← below 60 (by decide), ← below 62 (by decide), above 61 (by decide)]
    omega
  | false =>
    show ((n : ℚ) < 10 ^ 61 ∨ 10 * 10 ^ 61 ≤ (n : ℚ) ∧ (n : ℚ) < 100 * 10 ^ 61) ↔ 0 + _ ≤ 61 ∨ 0 + _ = 63
    rw [show (10 : ℚ) * 10 ^ 61 = 10 ^ 62 by norm_num, show (100 : ℚ) * 10 ^ 61 = 10 ^ 63 by norm_num,
      ← below 61 (by decide), ← below 63 (by decide), above 62 (by decide)]
    omega

/-- An integer can be printed if the buffer does not end behind its point. -/
theorem printable_integer (integer : (m : ℚ) * 2 ^ e = n) : Printable (.finite negative m e) ↔
    (if negative then str "-" else []).length + (numText n).length ≠ 62 := by
  have below := fun k pos => length_numText_le (n := n) (k := k) pos
  have h60 := below 60 (by decide)
  have h61 := below 61 (by decide)
  have h62 := below 62 (by decide)
  simp only [Printable, thousandths_integer integer, Nat.mul_div_cancel_left _ (by decide : 0 < 1000), sign_length]
  cases negative with
  | true =>
    simp only [if_pos]
    omega
  | false =>
    simp only [Bool.false_eq_true, if_false]
    omega

/-- The text of an integer with three places. -/
theorem fixed3_integer (integer : (m : ℚ) * 2 ^ e = n) : fixed3 (.finite negative m e) =
    ((if negative then str "-" else []) ++ numText n) ++ 46 :: [48, 48, 48] := by
  have zeros : pad3 0 = [48, 48, 48] := by decide
  rw [fixed3_text, thousandths_integer integer, Nat.mul_div_cancel_left _ (by decide), Nat.mul_mod_right, zeros]

/-- Up to 61 characters some of the places are left. -/
theorem strtod_places (integer : (m : ℚ) * 2 ^ e = n)
    (short : (if negative then str "-" else []).length + (numText n).length ≤ 61) :
    ∃ z : Nat, strtod ((fixed3 (.finite negative m e)).take 63) = .ofDecimal negative (n * 10 ^ z) (-(z : Int)) := by
  obtain ⟨k, hk⟩ : ∃ k, 63 - ((if negative then str "-" else []) ++ numText n).length = k + 1 := by
    rw [List.length_append]
    exact ⟨62 - ((if negative then str "-" else []).length + (numText n).length), by omega⟩
  have places : ∀ b ∈ [48, 48, 48].take k, b = (48 : UInt8) := by
    intro b mem
    have mem := List.mem_of_mem_take mem
    simpa using mem
  have zeros : ([48, 48, 48] : Bytes).take k =
      List.replicate (([48, 48, 48] : Bytes).take k).length 48 :=
    List.eq_replicate_of_mem places
  have nothing : ∀ z, decimal (List.replicate z 48) = 0 := by
    intro z
    induction z with
    | zero => rfl
    | succ z ih =>
      rw [List.replicate_succ, ← List.singleton_append, decimal_append, ih, show decimal [48] = 0 from rfl, Nat.zero_mul]
  refine ⟨(([48, 48, 48] : Bytes).take k).length, ?_⟩
  rw [fixed3_integer integer, List.take_append, List.take_of_length_le (by rw [List.length_append]; omega), hk,
    List.take_succ_cons, strtod_point negative (numText_ne_nil n) numText_digit ?_, decimal_append, decimal_numText]
  · rw [zeros, nothing, Nat.add_zero, List.length_replicate]
  · intro b mem
    rw [places b mem]
    decide

/-- From 63 characters on only digits are left. -/
theorem strtod_cut (integer : (m : ℚ) * 2 ^ e = n)
    (long : 63 ≤ (if negative then str "-" else []).length + (numText n).length) :
    strtod ((fixed3 (.finite negative m e)).take 63) =
      .ofDecimal negative (decimal ((numText n).take (63 - (if negative then str "-" else []).length))) 0 := by
  have one : (if negative then str "-" else []).length ≤ 1 := by cases negative <;> decide
  rw [fixed3_integer integer, List.take_append_of_le_length (by rw [List.length_append]; exact long), List.take_append,
    List.take_of_length_le (by omega), strtod_digits]
  · have nonempty := List.length_pos_of_ne_nil (numText_ne_nil n)
    apply List.ne_nil_of_length_pos
    rw [List.length_take]
    omega
  · exact fun b mem => numText_digit b (List.mem_of_mem_take mem)

/-- The echo of a large number. -/
theorem echo_large (fits : Double.Fits m e) (large : (2 : ℚ) ^ 53 ≤ m * 2 ^ e)
    (printable : Printable (.finite negative m e)) :
    (strtod ((fixed3 (.finite negative m e)).take 63)).Same (.finite negative m e) ↔
      Echoable (.finite negative m e) := by
  obtain ⟨n, integer⟩ := integer_of_large fits large
  have near : ∃ j : Nat, (Double.ofDecimal negative j (-3)).Same (.finite negative m e) := by
    refine ⟨n * 1000, Double.ofDecimal_same fits ?_⟩
    rw [integer]
    push_cast
    norm_num
    ring
  rw [Echoable, and_iff_left near, integer, inBuffer_iff]
  obtain ⟨l, hl⟩ : ∃ l, l = (if negative then str "-" else []).length + (numText n).length := ⟨_, rfl⟩
  have notLast : l ≠ 62 := hl ▸ (printable_integer integer).1 printable
  rw [← hl]
  rcases Nat.lt_or_ge l 62 with short | long
  · obtain ⟨z, read⟩ := @strtod_places negative _ _ _ integer (hl ▸ Nat.le_of_lt_succ short)
    refine iff_of_true ?_ (.inl (Nat.le_of_lt_succ short))
    rw [read]
    apply Double.ofDecimal_same fits
    rw [integer, zpow_neg, zpow_natCast]
    push_cast
    field_simp
  · have cut := @strtod_cut negative _ _ _ integer (show 63 ≤ _ by omega)
    have one : (if negative then str "-" else []).length ≤ 1 := by cases negative <;> decide
    obtain ⟨σ, hσ⟩ : ∃ σ, σ = (if negative then str "-" else []).length := ⟨_, rfl⟩
    rw [← hσ] at hl cut one
    rw [cut]
    rcases Nat.eq_or_lt_of_le (show 63 ≤ l by omega) with exact_ | longer
    · refine iff_of_true ?_ (.inr exact_.symm)
      rw [List.take_of_length_le (by omega), decimal_numText]
      apply Double.ofDecimal_same fits
      rw [integer, zpow_zero, mul_one]
    · refine iff_of_false ?_ (by omega)
      have lost := decimal_take (numText n) (63 - σ)
      rw [decimal_numText] at lost
      obtain ⟨d, hd⟩ : ∃ d, d = decimal ((numText n).take (63 - σ)) := ⟨_, rfl⟩
      have tenth : 10 * d ≤ n := by
        have power : 10 ^ 1 ≤ 10 ^ ((numText n).length - (63 - σ)) := Nat.pow_le_pow_right (by decide) (by omega)
        calc 10 * d = d * 10 ^ 1 := by ring
          _ ≤ d * 10 ^ ((numText n).length - (63 - σ)) := Nat.mul_le_mul_left d power
          _ ≤ n := hd ▸ lost
      rw [← hd]
      intro same
      cases printed : Double.ofDecimal negative d 0 with
      | infinite =>
        rw [printed] at same
        cases same
      | finite negative' m' e' =>
        have le := Double.ofDecimal_le_double printed
        obtain ⟨rfl, -⟩ := Double.ofDecimal_fits printed
        rw [printed, Double.same_finite, integer] at same
        rw [same, zpow_zero, mul_one] at le
        have tenth : (10 : ℚ) * d ≤ n := by exact_mod_cast tenth
        norm_num at large
        linarith

theorem Echoable.printable (fits : Double.Fits m e) (h : Echoable (.finite negative m e)) :
    Printable (.finite negative m e) := by
  rcases lt_or_ge ((m : ℚ) * 2 ^ e) (2 ^ 53) with small | large
  · exact printable_of_small (small.trans (by norm_num))
  · obtain ⟨n, integer⟩ := integer_of_large fits large
    have room := h.1
    rw [integer, inBuffer_iff] at room
    rw [printable_integer integer]
    omega

end Large

section Integers

theorem toInteger_spec {i : Int} (integer : (Double.finite negative m e).toInteger = some i) :
    ∃ n : Nat, (m : ℚ) * 2 ^ e = n ∧ i = if negative then -(n : Int) else n := by
  have ratio := scale_ratio (n := m) (d := 1) (b := 2) (by norm_num) e
  have pos := scale_pos (n := m) (d := 1) (b := 2) (by norm_num) (by norm_num) e
  rw [Nat.cast_one, div_one, Nat.cast_ofNat] at ratio
  simp only [Double.toInteger] at integer
  split at integer
  next whole =>
    refine ⟨(scale 2 m 1 e).1 / (scale 2 m 1 e).2, ?_, (Option.some.inj integer).symm⟩
    rw [← ratio, ratio_split pos, whole, Nat.cast_zero, zero_div, add_zero]
  next => cases integer

/-- An integer comes back. -/
theorem echo_integer {i : Int} (fits : Double.Fits m e) (integer : (Double.finite negative m e).toInteger = some i) :
    (strtod (numText i)).Same (.finite negative m e) := by
  obtain ⟨n, same, rfl⟩ := toInteger_spec integer
  have read := fun negative => strtod_digits negative (numText_ne_nil n) (@numText_digit n)
  have exact_ : ∀ negative, (Double.ofDecimal negative n 0).Same (.finite negative m e) := by
    intro negative
    apply Double.ofDecimal_same fits
    rw [same, zpow_zero, mul_one]
  cases negative with
  | false =>
    have text := read false
    rw [decimal_numText] at text
    show (strtod (numText n)).Same _
    rw [show numText n = (if false then str "-" else []) ++ numText n from rfl, text]
    exact exact_ false
  | true =>
    rcases n with _ | n
    · show (Double.finite false 0 0).Same (.finite true m e)
      rw [Double.Same, Double.toRat, Double.toRat, same]
      · norm_num
      · rintro _ _ ⟨⟩
    · have text : strtod (str "-" ++ numText (n + 1 : Nat)) = .ofDecimal true _ 0 := read true
      rw [decimal_numText] at text
      show (strtod (numText (.negSucc n))).Same _
      rw [numText_negSucc, text]
      exact exact_ true

theorem echoable_integer {i : Int} (fits : Double.Fits m e) (integer : (Double.finite negative m e).toInteger = some i)
    (small : i.natAbs < 9 * 10 ^ 15) : Echoable (.finite negative m e) := by
  obtain ⟨n, same, rfl⟩ := toInteger_spec integer
  have small : n < 9 * 10 ^ 15 := by
    cases negative with
    | false => simpa using small
    | true => simpa using small
  refine ⟨.inl ?_, n * 1000, Double.ofDecimal_same fits ?_⟩
  · rw [same]
    have small : (n : ℚ) < 9 * 10 ^ 15 := by exact_mod_cast small
    refine small.trans ?_
    split <;> norm_num
  · rw [same]
    push_cast
    norm_num
    ring

end Integers

end Printing

/-- The text of a number that cannot be printed is no value. -/
theorem number_unprintable {x : Double} (unprintable : ¬ Printable x) (t : Bytes) :
    ∃ b w, (fixed3 x).take 63 = b :: w ∧ isWs b = false ∧ b ∉ [123, 91, 93, 34, 116, 102, 110] ∧
      ∃ what pos, number (b :: w ++ 44 :: t) 0 = .error (.wrong what pos) := by
  cases x with
  | infinite negative =>
    cases negative with
    | false => exact ⟨105, _, rfl, by decide, by decide, _, _, rfl⟩
    | true => exact ⟨45, _, rfl, by decide, by decide, _, _, rfl⟩
  | finite negative m e =>
    obtain ⟨n, hn⟩ : ∃ n, n = Double.thousandths m e / 1000 := ⟨_, rfl⟩
    obtain ⟨sign, hsign⟩ : ∃ sign, sign = if negative then str "-" else [] := ⟨_, rfl⟩
    have signed : ∀ r, Sign (sign ++ r) r := fun r => hsign ▸ sign_append negative r
    have integer : ∀ r, IntPart (numText n ++ r) r := fun r =>
      intPart_of_digits (numText_ne_nil n) (List.prefix_refl _) (fun _ => rfl) r
    have last : (sign ++ numText n).length = 62 := by
      have below := fun k pos => length_numText_le (n := n) (k := k) pos
      have h60 := below 60 (by decide)
      have h61 := below 61 (by decide)
      have h62 := below 62 (by decide)
      have one := sign_length negative
      rw [← hsign] at one
      simp only [Printable, ← hn, not_not] at unprintable
      rw [List.length_append]
      cases negative with
      | true =>
        simp only [if_pos] at unprintable one
        omega
      | false =>
        simp only [Bool.false_eq_true, if_false] at unprintable one
        omega
    have text : (fixed3 (.finite negative m e)).take 63 = sign ++ numText n ++ [46] := by
      rw [fixed3_text, ← hn, ← hsign, show 63 = (sign ++ numText n).length + 1 by omega, List.take_length_add_append]
      rfl
    obtain ⟨b, w, first, ws, other⟩ := number_first (.mk (signed _) (integer []) .none .none)
    rw [List.append_nil] at first
    obtain ⟨s, hs⟩ : ∃ s, s = sign ++ (numText n ++ 46 :: 44 :: t) := ⟨_, rfl⟩
    have whole : b :: (w ++ [46]) ++ 44 :: t = s := by
      rw [hs, ← List.append_assoc, first]
      simp
    refine ⟨b, w ++ [46], by rw [text, first]; rfl, ws, other, ?_⟩
    rw [whole]
    obtain ⟨pos₁, ran₁, rest₁⟩ := intPart_complete (sign_complete List.drop_zero (hs ▸ signed _) (integer _)) (integer _)
      (by rintro _ ⟨⟩; decide)
    obtain ⟨point, rest₂⟩ := get_of_drop rest₁
    have nodigits : digits s (pos₁ + 1) = none := by
      rw [digits, rest₂]
      rfl
    refine ⟨str "invalid number", pos₁ + 1, ?_⟩
    rw [number, ran₁, Machine.ok_bind, fracPart, if_pos point, nodigits]
    rfl

section Replies

variable {command error : Bytes} {ok : Bool}

/-- A reply whose id is written as a tree is a tree. -/
def replyTree (id : Tree) (command : Bytes) (ok : Bool) (error : Bytes) : Tree :=
  .object [(str "type", .string (str "command_result")), (str "id", id), (str "command", .string command),
    (str "ok", .bool ok), (str "error", .string error)]

theorem parse_replyTree (id : Tree) (leaf : id.depth = 0) : ∃ msg,
    parse ((replyTree id command ok error).write {}).out = .ok (.ok msg) ∧ msg.get (str "id") = some id.value := by
  refine ⟨_, parse_write _ ?_, ?_⟩
  · simp only [replyTree, Tree.depth, membersDepth, memberDepth, leaf]
    decide
  · have other : str "type" ≠ str "id" := by decide
    simp only [replyTree, Tree.value, membersValue, memberValue, Value.get, List.find?_cons]
    rw [decide_eq_false other]
    simp

/-- No reply with an id that cannot be printed is read. -/
theorem parse_unprintable {x : Double} (unprintable : ¬ Printable x) (rest : Bytes) (msg : Value) :
    ¬ Means 64 (123 :: (escape (str "type") ++ 58 :: (escape (str "command_result") ++ 44 ::
      (escape (str "id") ++ 58 :: ((fixed3 x).take 63 ++ 44 :: rest))))) msg := by
  rintro ⟨s, s', ws, value, -⟩
  obtain ⟨b, w, text, start, other, what, pos, failed⟩ := number_unprintable unprintable rest
  obtain rfl := Ws.unmarked ws (by decide)
  obtain ⟨d, -, ⟨close, -⟩ | ⟨ms, members, -⟩⟩ := value.of_brace
  · rw [escape_append] at close
    exact absurd (List.cons.inj (Ws.unmarked close (by decide))).1 (by decide)
  · obtain ⟨v, s₁, first, -, ⟨-, close⟩ | ⟨s₂, ms', -, comma, members'⟩⟩ := Members.first members (by decide)
    · rw [first.of_escape] at close
      exact absurd (List.cons.inj (Ws.unmarked close (by decide))).1 (by decide)
    · rw [first.of_escape] at comma
      obtain ⟨-, rfl⟩ := List.cons.inj (Ws.unmarked comma (by decide))
      rw [text, List.cons_append] at members'
      obtain ⟨v', s₃, second, follow, -⟩ := Members.first members' start
      obtain ⟨pos', ran, -⟩ := finds_number second follow other
      rw [← List.cons_append, failed] at ran
      cases ran

/-- The reply with a number that is printed as it is. -/
theorem commandResult_double {x : Double} (printed : ∀ j, writeJsonNumber j x = j.double x) :
    ∃ rest, commandResult (some (.number x)) command ok error =
      123 :: (escape (str "type") ++ 58 :: (escape (str "command_result") ++ 44 ::
        (escape (str "id") ++ 58 :: ((fixed3 x).take 63 ++ 44 :: rest)))) := by
  refine ⟨escape (str "command") ++ 58 :: (escape command ++ 44 :: (escape (str "ok") ++ 58 ::
    ((if ok then str "true" else str "false") ++ 44 :: (escape (str "error") ++ 58 :: (escape error ++ [125]))))), ?_⟩
  simp only [commandResult, printed, JsonWriter.double, JsonWriter.string, JsonWriter.bool, beginObject, endObject, key, raw,
    separator]
  simp

/-- The same id: strings byte for byte, numbers as numbers. -/
def SameId : Value → Value → Prop
  | .string s, .string t => s = t
  | .number x, .number y => x.Same y
  | _, _ => False

/-- The reply is read with the id. -/
def Echoes (id : Value) (reply : Bytes) : Prop :=
  ∃ msg v, parse reply = .ok (.ok msg) ∧ msg.get (str "id") = some v ∧ SameId v id

theorem echoes_tree {id : Value} {t : Tree} (leaf : t.depth = 0)
    (written : commandResult (some id) command ok error = ((replyTree t command ok error).write {}).out) :
    Echoes id (commandResult (some id) command ok error) ↔ SameId t.value id := by
  obtain ⟨msg, parsed, there⟩ := @parse_replyTree command error ok t leaf
  rw [← written] at parsed
  constructor
  · rintro ⟨msg', v, parsed', there', same⟩
    rw [parsed] at parsed'
    cases parsed'
    rw [there] at there'
    cases there'
    exact same
  · exact fun same => ⟨msg, _, parsed, there, same⟩

theorem commandResult_tree {id : Value} {t : Tree} (same : ∀ j : JsonWriter, (match some id with
      | some (.number v) => writeJsonNumber j v
      | some (.string s) => j.string s
      | _ => j.null) = t.write j) :
    commandResult (some id) command ok error = ((replyTree t command ok error).write {}).out := by
  rw [replyTree]
  simp only [Tree.write, writeMembers, writeMember, ← same]
  rfl

theorem echoes_string (s : Bytes) : Echoes (.string s) (commandResult (some (.string s)) command ok error) :=
  (@echoes_tree command error ok _ (.string s) rfl (commandResult_tree fun _ => rfl)).2 rfl

example : commandResult (some (.string (str "a"))) (str "record on") true [] =
    str "\x7b\"type\":\"command_result\",\"id\":\"a\",\"command\":\"record on\",\"ok\":true,\"error\":\"\"\x7d" := by
  decide +kernel

theorem echoes_number {x : Double} (fits : ∀ negative m e, x = .finite negative m e → Double.Fits m e) :
    Echoes (.number x) (commandResult (some (.number x)) command ok error) ↔ Echoable x := by
  by_cases small : ∃ i, x.toInteger = some i ∧ i.natAbs < 9 * 10 ^ 15
  · obtain ⟨i, whole, small⟩ := small
    have printed : ∀ j, writeJsonNumber j x = j.integer i := by
      intro j
      unfold writeJsonNumber
      rw [whole]
      exact if_pos small
    rw [@echoes_tree command error ok (.number x) (.integer i) rfl (commandResult_tree printed)]
    cases x with
    | infinite => cases whole
    | finite negative m e =>
      have kept := fits negative m e rfl
      exact iff_of_true (echo_integer kept whole) (echoable_integer kept whole small)
  · have printed : ∀ j, writeJsonNumber j x = j.double x := by
      intro j
      unfold writeJsonNumber
      split
      next i whole => rw [if_neg fun lt => small ⟨i, whole, lt⟩]
      next => rfl
    by_cases printable : Printable x
    · rw [@echoes_tree command error ok (.number x) (.double x printable) rfl (commandResult_tree printed)]
      cases x with
      | infinite => exact absurd printable id
      | finite negative m e =>
        rcases lt_or_ge ((m : ℚ) * 2 ^ e) (2 ^ 53) with small | large
        · exact echo_small (fits negative m e rfl) small
        · exact echo_large (fits negative m e rfl) large printable
    · refine iff_of_false ?_ ?_
      · rintro ⟨msg, v, parsed, -⟩
        obtain ⟨rest, written⟩ := @commandResult_double command error ok x printed
        obtain ⟨r, ran, means⟩ := parse_means (commandResult (some (.number x)) command ok error) 64
        rw [parsed] at ran
        cases ran
        have means := means msg rfl
        rw [written] at means
        exact parse_unprintable printable rest msg means
      · intro echoable
        cases x with
        | infinite => exact echoable
        | finite negative m e => exact printable (echoable.printable (fits negative m e rfl))

end Replies

section Messages

/-- An id that a message can have. -/
def IsId : Value → Prop
  | .number _ | .string _ => True
  | _ => False

/-- An id that the reply keeps. -/
def EchoableId : Value → Prop
  | .number x => Echoable x
  | _ => True

theorem strtod_fits {n : Bytes} {negative : Bool} {m : Nat} {e : Int} (number : strtod n = .finite negative m e) :
    Double.Fits m e := by
  unfold strtod at number
  exact (Double.ofDecimal_fits number).2

/-- A number in a text is one of `strtod`. -/
theorem denotes_fits {d : Nat} {l r : Bytes} {negative : Bool} {m : Nat} {e : Int}
    (h : Denotes d l (.number (.finite negative m e)) r) : Double.Fits m e := by
  generalize whole : Value.number (.finite negative m e) = v at h
  cases h with
  | number => exact strtod_fits (Value.number.inj whole).symm
  | _ => cases whole

/-- The members of a message that is an object. -/
theorem get_fits {text : Bytes} {maxDepth : Nat} {msg : Value} (means : Means maxDepth text msg) {k : Bytes}
    {negative : Bool} {m : Nat} {e : Int} (there : msg.get k = some (.number (.finite negative m e))) :
    Double.Fits m e := by
  obtain ⟨l, r, -, derived, -⟩ := means
  cases derived with
  | emptyObject => cases there
  | object members =>
    obtain ⟨p, found, value⟩ := Option.map_eq_some_iff.1 there
    obtain ⟨l', r', derived⟩ := members.denotes p (List.mem_of_find?_eq_some found)
    rw [value] at derived
    exact denotes_fits derived
  | _ => cases there

/-- The reply to a message that is JSON. -/
theorem handleWsMessage_reply (s : ControlServer) (c : Client) (io : ClientIo) (k : Nat) {text : Bytes} {msg id : Value}
    (parsed : parse text = .ok (.ok msg)) (there : msg.get (str "id") = some id) :
    ∃ h reply, handleWsMessage s c io k text = .ok h ∧ framesOf h.reactions = [(WsOpcode.kText, reply)] ∧
      ∃ command ok error, reply = commandResult (some id) command ok error := by
  have object : msg.isObject := by
    cases msg with
    | object => rfl
    | _ => cases there
  have id := (readRequest_id object).trans there
  rw [handleWsMessage, parsed, Machine.ok_bind]
  simp only
  split
  · exact ⟨_, _, rfl, rfl, _, _, _, congrArg (fun i => commandResult i _ _ _) id⟩
  · exact ⟨_, _, rfl, rfl, _, _, _, congrArg (fun i => commandResult i _ _ _) id⟩

/-- The reply to a message that has an id is read with this id just if the id is echoable: a string, or a number that
is finite, nearest to a decimal with three places, and short enough. -/
theorem id_echoed_iff (s : ControlServer) (c : Client) (io : ClientIo) (k : Nat) (text : Bytes) (msg id : Value)
    (parsed : parse text = .ok (.ok msg)) (there : msg.get (str "id") = some id) (kind : IsId id) :
    ∃ h reply, handleWsMessage s c io k text = .ok h ∧ framesOf h.reactions = [(WsOpcode.kText, reply)] ∧
      (Echoes id reply ↔ EchoableId id) := by
  obtain ⟨h, _, ran, frames, command, ok, error, rfl⟩ := handleWsMessage_reply s c io k parsed there
  refine ⟨h, _, ran, frames, ?_⟩
  cases id with
  | number x =>
    apply echoes_number
    rintro negative m e rfl
    obtain ⟨r, ran', means⟩ := parse_means text 64
    rw [parsed] at ran'
    cases ran'
    exact get_fits (means msg rfl) there
  | string bytes => exact iff_of_true (echoes_string bytes) trivial
  | _ => exact absurd kind id

theorem numberId_some {text : Bytes} {x : Double} (reads : numberId text = some x) :
    ∃ msg, parse text = .ok (.ok msg) ∧ msg.get (str "id") = some (.number x) := by
  unfold numberId at reads
  split at reads
  next msg parsed =>
    split at reads
    next y there =>
      cases reads
      exact ⟨msg, parsed, there⟩
    next => cases reads
  next => cases reads

/-- A message whose id is a string of any bytes. -/
def labTree : Tree := .object [(str "id", .string [255, 34, 0])]

/-- Such a string comes back, and so does the number -1.5. -/
theorem id_echoed_iff_lab :
    (∃ h reply, handleWsMessage labServer { fd := 0 } {} 0 (labTree.write {}).out = .ok h ∧
      framesOf h.reactions = [(WsOpcode.kText, reply)] ∧ Echoes (.string [255, 34, 0]) reply) ∧
    ∃ h reply, handleWsMessage labServer { fd := 0 } {} 0 (str "\x7b\"id\":-1.5\x7d") = .ok h ∧
      framesOf h.reactions = [(WsOpcode.kText, reply)] ∧ Echoes (.number (.finite true 6755399441055744 (-52))) reply := by
  constructor
  · obtain ⟨h, reply, ran, frames, iff⟩ := id_echoed_iff labServer { fd := 0 } {} 0 (labTree.write {}).out labTree.value
      (.string [255, 34, 0]) (parse_write labTree (by decide)) (by rfl) trivial
    exact ⟨h, reply, ran, frames, iff.2 trivial⟩
  · have read : numberId (str "\x7b\"id\":-1.5\x7d") = some (.finite true 6755399441055744 (-52)) := by decide +kernel
    obtain ⟨msg, parsed, there⟩ := numberId_some read
    obtain ⟨h, reply, ran, frames, iff⟩ := id_echoed_iff labServer { fd := 0 } {} 0 _ msg
      (.number (.finite true 6755399441055744 (-52))) parsed there trivial
    have rounded : Double.ofDecimal true 1500 (-3) = .finite true 6755399441055744 (-52) := by decide +kernel
    have buffer : InBuffer true ((6755399441055744 : Nat) * 2 ^ (-52 : Int)) := by
      unfold InBuffer
      norm_num
    refine ⟨h, reply, ran, frames, iff.2 ⟨buffer, 1500, ?_⟩⟩
    rw [rounded]
    rfl

/-- It is false without the condition: the id `0.0001` comes back as `0.000`. -/
theorem id_lost : ¬ ∀ (s : ControlServer) (c : Client) (io : ClientIo) (k : Nat) (text : Bytes) (msg id : Value),
    parse text = .ok (.ok msg) → msg.get (str "id") = some id → IsId id →
      ∃ h reply, handleWsMessage s c io k text = .ok h ∧ framesOf h.reactions = [(WsOpcode.kText, reply)] ∧
        Echoes id reply := by
  intro always
  obtain ⟨x, hx⟩ : ∃ x, x = Double.finite false 7378697629483821 (-66) := ⟨_, rfl⟩
  have request : numberId (str "\x7b\"id\":0.0001\x7d") = some x := by
    rw [hx]
    decide +kernel
  obtain ⟨msg, parsed, there⟩ := numberId_some request
  obtain ⟨h, reply, ran, frames, msg', v, parsed', there', same⟩ :=
    always labServer { fd := 0 } {} 0 _ msg (.number x) parsed there trivial
  have answer : ((handleWsMessage labServer { fd := 0 } {} 0 (str "\x7b\"id\":0.0001\x7d")).toOption.map fun h =>
      (framesOf h.reactions).map fun p => numberId p.2) = some [some (.finite false 0 0)] := by decide +kernel
  rw [ran] at answer
  simp only [Except.toOption, Option.map_some, frames, List.map_cons, List.map_nil, Option.some.injEq, List.cons.injEq,
    and_true] at answer
  obtain ⟨msg₂, parsed₂, there₂⟩ := numberId_some answer
  rw [parsed'] at parsed₂
  cases parsed₂
  rw [there'] at there₂
  cases there₂
  have same : (Double.finite false 0 0).Same x := same
  rw [hx, Double.same_finite] at same
  norm_num at same

end Messages

end IpcRelay.Ctl
