import IpcRelay.Common.JsonText

/-!
# Decimal texts

`decimal` is the number that a text of digits stands for. What `numText` and
`pad3` print stands for the number that they print, and a text that is cut has
lost its last places.
-/

namespace IpcRelay

/-- The number of a text of digits. -/
def decimal (l : Bytes) : Nat := l.foldl (fun n c => n * 10 + (digitValue c).getD 0) 0

variable {l l' : Bytes}

theorem decimal_append (l l' : Bytes) : decimal (l ++ l') = decimal l * 10 ^ l'.length + decimal l' := by
  have shifted : ∀ (l : Bytes) (n : Nat), l.foldl (fun n c => n * 10 + (digitValue c).getD 0) n =
      n * 10 ^ l.length + decimal l := by
    intro l
    induction l with
    | nil => simp [decimal]
    | cons c l ih =>
      intro n
      rw [decimal, List.foldl_cons, List.foldl_cons, ih, ih (0 * 10 + _), List.length_cons, Nat.pow_succ]
      ring
  rw [decimal, List.foldl_append]
  exact shifted l' (decimal l)

theorem isDigit_ten (c : UInt8) : isDigit 10 c = JsonGrammar.isDigit c := by
  have every : ∀ c : Fin 256, isDigit 10 (UInt8.ofNat c) = JsonGrammar.isDigit (UInt8.ofNat c) := by decide +kernel
  have one := every ⟨c.toNat, c.toNat_lt⟩
  rwa [UInt8.ofNat_toNat] at one

/-- Digits are read as a whole. -/
theorem readDigits_digits (all : ∀ b ∈ l, JsonGrammar.isDigit b = true) : (readDigits 10 l).1 = decimal l := by
  have whole : l.takeWhile (isDigit 10) = l := List.takeWhile_eq_self_iff.2 fun b mem => by rw [isDigit_ten, all b mem]
  rw [readDigits, whole]
  rfl

theorem decimal_numText (n : Nat) : decimal (numText n) = n := by
  induction n using Nat.strong_induction_on with
  | _ n ih =>
    rcases Nat.lt_or_ge n 10 with small | large
    · have digit : ∀ d : Fin 10, decimal (numText d) = d := by decide +kernel
      exact digit ⟨n, small⟩
    · have last : ∀ d : Fin 10, decimal [UInt8.ofNat (d : Nat).digitChar.toNat] = d := by decide +kernel
      have split : numText n = numText (n / 10 : Nat) ++ [UInt8.ofNat (n % 10).digitChar.toNat] := by
        rw [numText_nat, Nat.toDigits_of_base_le (by decide) large, List.map_append, ← numText_nat]
        rfl
      rw [split, decimal_append, ih (n / 10) (by omega), last ⟨n % 10, Nat.mod_lt _ (by decide)⟩]
      simp only [List.length_singleton]
      omega

theorem decimal_pad3 {n : Nat} (small : n < 1000) : decimal (pad3 n) = n := by
  have every : ∀ n : Fin 1000, decimal (pad3 n) = n := by decide +kernel
  exact every ⟨n, small⟩

/-- A text that is cut. -/
theorem decimal_take (l : Bytes) (k : Nat) : decimal (l.take k) * 10 ^ (l.length - k) ≤ decimal l := by
  have whole := decimal_append (l.take k) (l.drop k)
  rw [List.take_append_drop, List.length_drop] at whole
  omega

end IpcRelay
