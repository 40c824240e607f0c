import IpcRelay.Common.JsonText
import IpcRelay.Lib.Utf8

/-!
# What the serializer writes is UTF-8

Numbers are ASCII. The characters that are escaped are, so a string is UTF-8
before and after; a writer whose fields are UTF-8 has a text that is.
-/

namespace IpcRelay

open Binary64

theorem ascii_str {s : String} (ascii : (s.toList.all fun c => c.toNat < 128) = true := by decide +kernel) : Ascii (str s) := by
  intro b mem
  obtain ⟨c, there, rfl⟩ := List.mem_map.1 mem
  have small := List.all_eq_true.1 ascii c there
  simp only [decide_eq_true_eq] at small
  rw [UInt8.lt_iff_toNat_lt, UInt8.toNat_ofNat_of_lt' (by show _ < 256; omega)]
  exact small

theorem digit_ascii {b : UInt8} (digit : JsonGrammar.isDigit b = true) : b < 0x80 := by
  simp only [JsonGrammar.isDigit, decide_eq_true_eq] at digit
  exact UInt8.lt_iff_toNat_lt.2 (Nat.lt_of_le_of_lt (UInt8.le_iff_toNat_le.1 digit.2) (by decide))

theorem numText_ascii (i : Int) : Ascii (numText i) := by
  have natural (n : Nat) : Ascii (numText n) := fun b mem => digit_ascii (numText_digit b mem)
  cases i with
  | ofNat n => exact natural n
  | negSucc n =>
    have text : numText (.negSucc n) = str "-" ++ numText (n + 1 : Nat) := by
      show str ("-" ++ toString (n + 1)) = _
      rw [str, String.toList_append, List.map_append]
      rfl
    rw [text]
    exact .append ascii_str (natural _)

theorem fixed3_ascii (x : Double) : Ascii (fixed3 x) := by
  have sign (negative : Bool) : Ascii (if negative then str "-" else []) := by
    cases negative with
    | false => exact fun _ mem => by cases mem
    | true => exact ascii_str
  cases x with
  | infinite negative => exact .append (sign negative) ascii_str
  | finite negative m e =>
    have whole := (((sign negative).append (numText_ascii (Double.thousandths m e / 1000 : Nat))).append (ascii_str (s := "."))).append
      fun b mem => digit_ascii (pad3_digit (Double.thousandths m e % 1000) b mem)
    exact whole

namespace JsonWriter

variable {j : JsonWriter} {v : Bytes}

theorem escapeChar_ascii : ∀ b < 0x80, Ascii (escapeChar b) := by
  intro b low
  unfold escapeChar
  split
  · simp [Ascii]
  split
  · simp [Ascii]
  split
  · simp [Ascii]
  split
  · simp [Ascii]
  split
  · simp [Ascii]
  split
  next control =>
    obtain ⟨x, y, hex, hx, hy⟩ := hex04_hex ⟨b.toNat, control⟩
    rw [UInt8.ofNat_toNat] at hex
    have digit (c : UInt8) (isHex : JsonGrammar.isHex c = true) : c < 0x80 := by
      unfold JsonGrammar.isHex at isHex
      grind
    rw [hex]
    simp only [Ascii, List.mem_append, List.mem_cons, List.not_mem_nil, or_false]
    rintro c ((rfl | rfl) | (rfl | rfl | rfl | rfl))
    · decide
    · decide
    · decide
    · decide
    · exact digit _ hx
    · exact digit _ hy
  · intro c mem
    rw [List.mem_singleton.1 mem]
    exact low

theorem escapeChar_high {b : UInt8} (high : 0x80 ≤ b) : escapeChar b = [b] := by
  have above : ¬ b < 0x20 := by
    rw [UInt8.not_lt]
    exact UInt8.le_trans (by decide) high
  unfold escapeChar
  rw [if_neg, if_neg, if_neg, if_neg, if_neg, if_neg above] <;> rintro rfl <;> exact absurd high (by decide)

theorem utf8_escape (valid : Utf8 v) : Utf8 (escape v) :=
  ((Utf8.of_byte (by decide)).append (valid.flatMap escapeChar_ascii fun _ => escapeChar_high)).append (.of_byte (by decide))

example : escape [0xC3, 0xA9, 9] = [34, 0xC3, 0xA9, 92, 116, 34] := by decide +kernel

/-- What was written is UTF-8. -/
def Encoded (j : JsonWriter) : Prop := Utf8 j.out

theorem Encoded.separator (h : j.Encoded) : j.separator.Encoded := by
  unfold Encoded JsonWriter.separator
  dsimp only
  split
  · exact Utf8.append h (.of_byte (by decide))
  · exact h

/-- A field that is named in ASCII. -/
theorem Encoded.field (h : j.Encoded) {k : String} (value : Utf8 v)
    (name : (k.toList.all fun c => c.toNat < 128) = true := by decide +kernel) : ((j.key (str k)).raw v).Encoded := by
  have key : (j.key (str k)).Encoded :=
    (Utf8.append h.separator (utf8_escape (.of_ascii (ascii_str name)))).append (.of_byte (by decide))
  exact Utf8.append key.separator value

theorem Encoded.string (h : j.Encoded) {k : String} (value : Utf8 v)
    (name : (k.toList.all fun c => c.toNat < 128) = true := by decide +kernel) : ((j.key (str k)).string v).Encoded :=
  h.field (utf8_escape value) name

theorem Encoded.integer (h : j.Encoded) (i : Int) {k : String}
    (name : (k.toList.all fun c => c.toNat < 128) = true := by decide +kernel) : ((j.key (str k)).integer i).Encoded :=
  h.field (.of_ascii (numText_ascii i)) name

theorem Encoded.double (h : j.Encoded) (x : Double) {k : String}
    (name : (k.toList.all fun c => c.toNat < 128) = true := by decide +kernel) : ((j.key (str k)).double x).Encoded :=
  h.field (.of_ascii fun b mem => fixed3_ascii x b (List.mem_of_mem_take mem)) name

theorem Encoded.bool (h : j.Encoded) (b : Bool) {k : String}
    (name : (k.toList.all fun c => c.toNat < 128) = true := by decide +kernel) : ((j.key (str k)).bool b).Encoded := by
  refine h.field (.of_ascii ?_) name
  cases b with
  | false => exact ascii_str
  | true => exact ascii_str

theorem Encoded.null (h : j.Encoded) {k : String}
    (name : (k.toList.all fun c => c.toNat < 128) = true := by decide +kernel) : (j.key (str k)).null.Encoded :=
  h.field (.of_ascii ascii_str) name

theorem encoded_start : ({} : JsonWriter).beginObject.Encoded := .of_byte (by decide)

theorem Encoded.text (h : j.Encoded) : Utf8 j.endObject.out := Utf8.append h (.of_byte (by decide))

end JsonWriter

end IpcRelay
