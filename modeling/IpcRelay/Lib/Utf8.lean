import Mathlib

/-!
# UTF-8 texts as bytes

A text is `Utf8` if it is the encoding of a list of characters. ASCII texts are,
concatenations are, and so is a text in which ASCII characters were replaced by
ASCII texts. A text may be split at any ASCII character.
-/

/-- The encoding of a list of characters. -/
def Utf8 (t : List UInt8) : Prop := ∃ chars : List Char, t = chars.flatMap String.utf8EncodeChar

/-- A text of 7-bit characters. -/
def Ascii (t : List UInt8) : Prop := ∀ b ∈ t, b < 0x80

instance (t : List UInt8) : Decidable (Ascii t) := inferInstanceAs (Decidable (∀ b ∈ t, b < 0x80))

theorem Ascii.append {t t' : List UInt8} (h : Ascii t) (h' : Ascii t') : Ascii (t ++ t') := by
  intro b mem
  rcases List.mem_append.1 mem with mem | mem
  · exact h b mem
  · exact h' b mem

namespace Utf8

variable {t t' : List UInt8}

theorem nil : Utf8 [] := ⟨[], rfl⟩

theorem append (h : Utf8 t) (h' : Utf8 t') : Utf8 (t ++ t') := by
  obtain ⟨chars, rfl⟩ := h
  obtain ⟨chars', rfl⟩ := h'
  exact ⟨chars ++ chars', List.flatMap_append.symm⟩

theorem byte_high {n : Nat} (low : 0x80 ≤ n) (high : n < 0xF8) : 0x80 ≤ UInt8.ofNat n ∧ UInt8.ofNat n < 0xF8 := by
  have same : (UInt8.ofNat n).toNat = n := UInt8.toNat_ofNat_of_lt' (by show _ < 256; omega)
  rw [UInt8.le_iff_toNat_le, UInt8.lt_iff_toNat_lt, same]
  exact ⟨low, high⟩

/-- A character is one 7-bit byte, or bytes of which none is one. -/
theorem encode_cases (c : Char) : (∃ b : UInt8, b < 0x80 ∧ String.utf8EncodeChar c = [b]) ∨
    ∀ b ∈ String.utf8EncodeChar c, 0x80 ≤ b ∧ b < 0xF8 := by
  unfold String.utf8EncodeChar
  dsimp only
  split
  next small =>
    refine .inl ⟨_, ?_, rfl⟩
    rw [UInt8.lt_iff_toNat_lt, UInt8.toNat_ofNat_of_lt' (by show _ < 256; omega)]
    exact Nat.lt_succ_of_le small
  next =>
    right
    split
    · simp only [List.mem_cons, List.not_mem_nil, or_false, forall_eq_or_imp, forall_eq]
      exact ⟨byte_high (by omega) (by omega), byte_high (by omega) (by omega)⟩
    · split
      · simp only [List.mem_cons, List.not_mem_nil, or_false, forall_eq_or_imp, forall_eq]
        exact ⟨byte_high (by omega) (by omega), byte_high (by omega) (by omega), byte_high (by omega) (by omega)⟩
      · simp only [List.mem_cons, List.not_mem_nil, or_false, forall_eq_or_imp, forall_eq]
        exact ⟨byte_high (by omega) (by omega), byte_high (by omega) (by omega), byte_high (by omega) (by omega),
          byte_high (by omega) (by omega)⟩

theorem of_byte {b : UInt8} (ascii : b < 0x80) : Utf8 [b] := by
  have every : ∀ n : Fin 128, [UInt8.ofNat n] = String.utf8EncodeChar (Char.ofNat n) := by decide +kernel
  have same := every ⟨b.toNat, ascii⟩
  rw [UInt8.ofNat_toNat] at same
  exact ⟨[Char.ofNat b.toNat], by rw [same]; simp⟩

theorem of_ascii (ascii : Ascii t) : Utf8 t := by
  induction t with
  | nil => exact nil
  | cons b t ih =>
    rw [← List.singleton_append]
    exact (of_byte (ascii b (List.mem_cons_self ..))).append (ih fun b mem => ascii b (List.mem_cons_of_mem _ mem))

/-- ASCII characters are replaced by ASCII texts. -/
theorem flatMap {f : UInt8 → List UInt8} (h : Utf8 t) (low : ∀ b < 0x80, Ascii (f b))
    (high : ∀ b, 0x80 ≤ b → f b = [b]) : Utf8 (t.flatMap f) := by
  obtain ⟨chars, rfl⟩ := h
  induction chars with
  | nil => exact nil
  | cons c chars ih =>
    rw [List.flatMap_cons, List.flatMap_append]
    refine append ?_ ih
    rcases encode_cases c with ⟨b, ascii, eq⟩ | bytes
    · rw [eq, List.flatMap_singleton]
      exact of_ascii (low b ascii)
    · have same : (String.utf8EncodeChar c).flatMap f = String.utf8EncodeChar c := by
        rw [List.flatMap_congr fun b mem => high b (bytes b mem).1]
        simp
      rw [same]
      exact ⟨[c], by simp⟩

/-- An ASCII character is no part of another. -/
theorem split {b : UInt8} (h : Utf8 (t ++ b :: t')) (ascii : b < 0x80) : Utf8 t ∧ Utf8 t' := by
  obtain ⟨chars, eq⟩ := h
  induction chars generalizing t with
  | nil => simp at eq
  | cons c chars ih =>
    rw [List.flatMap_cons] at eq
    have first : Utf8 (String.utf8EncodeChar c) := ⟨[c], by simp⟩
    rcases List.append_eq_append_iff.1 eq with ⟨more, begins, rest⟩ | ⟨more, begins, rest⟩
    · cases more with
      | nil =>
        rw [List.append_nil] at begins
        obtain ⟨-, after⟩ := ih (t := []) rest
        exact ⟨begins ▸ first, after⟩
      | cons b' more =>
        -- the character is the byte
        obtain ⟨rfl, rfl⟩ := List.cons.inj rest
        rcases encode_cases c with ⟨b', _, eq⟩ | bytes
        · rw [eq] at begins
          cases t with
          | nil =>
            simp only [List.nil_append, List.cons.injEq] at begins
            rw [← begins.2]
            exact ⟨nil, chars, rfl⟩
          | cons a t => simp at begins
        · have high := (bytes b (by rw [begins]; simp)).1
          exact absurd ascii (UInt8.not_lt.2 high)
    · obtain ⟨before, after⟩ := ih rest.symm
      rw [begins]
      exact ⟨first.append before, after⟩

theorem tail {b : UInt8} (h : Utf8 (b :: t)) (ascii : b < 0x80) : Utf8 t := (split (t := []) h ascii).2

/-- The bytes from `0xF8` on stand in no UTF-8 text. -/
theorem byte_lt (h : Utf8 t) : ∀ b ∈ t, b < 0xF8 := by
  obtain ⟨chars, rfl⟩ := h
  intro b mem
  obtain ⟨c, -, mem⟩ := List.mem_flatMap.1 mem
  rcases encode_cases c with ⟨b', ascii, eq⟩ | bytes
  · rw [eq, List.mem_singleton] at mem
    rw [mem, UInt8.lt_iff_toNat_lt]
    exact Nat.lt_trans (UInt8.lt_iff_toNat_lt.1 ascii) (by decide)
  · exact (bytes b mem).2

end Utf8
