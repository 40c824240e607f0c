import IpcRelay.Common.JsonText
import IpcRelay.Ctl.JsonExact

/-!
# Trees that are written are read back

A `Tree` is what the serializer is called for; `Tree.write` makes the calls, each
container with what is in it between its two ends. `Writes` says that calls append
one text, whatever was written before, and that it means a value for the parser:
the comma that the writer remembers is the one that the grammar wants.
-/

namespace IpcRelay.Ctl.Json

open JsonGrammar (isWs isHex Ws)
open Binary64 JsonWriter

/-- A tree of what the serializer writes; a `double` only if its text is a number. -/
inductive Tree where
  | null
  | bool (b : Bool)
  | integer (i : Int)
  | double (x : Double) (printable : Printable x)
  | string (s : Bytes)
  | array (ts : List Tree)
  | object (ms : List (Bytes × Tree))

mutual

/-- How deep containers are nested. -/
def Tree.depth : Tree → Nat
  | .array ts => elementsDepth ts + 1
  | .object ms => membersDepth ms + 1
  | _ => 0

def elementsDepth : List Tree → Nat
  | [] => 0
  | t :: ts => max t.depth (elementsDepth ts)

def membersDepth : List (Bytes × Tree) → Nat
  | [] => 0
  | m :: ms => max (memberDepth m) (membersDepth ms)

def memberDepth : Bytes × Tree → Nat
  | (_, t) => t.depth

end

mutual

/-- The calls that write a tree. -/
def Tree.write (j : JsonWriter) : Tree → JsonWriter
  | .null => j.null
  | .bool b => j.bool b
  | .integer i => j.integer i
  | .double x _ => j.double x
  | .string s => j.string s
  | .array ts => (writeElements j.beginArray ts).endArray
  | .object ms => (writeMembers j.beginObject ms).endObject

def writeElements (j : JsonWriter) : List Tree → JsonWriter
  | [] => j
  | t :: ts => writeElements (t.write j) ts

def writeMembers (j : JsonWriter) : List (Bytes × Tree) → JsonWriter
  | [] => j
  | m :: ms => writeMembers (writeMember j m) ms

def writeMember (j : JsonWriter) : Bytes × Tree → JsonWriter
  | (k, t) => t.write (j.key k)

end

mutual

/-- The tree as the parser returns it: a number is the `double` of its decimal text. -/
def Tree.value : Tree → Value
  | .null => .null
  | .bool b => .bool b
  | .integer i => .number (strtod (numText i))
  | .double x _ => .number (strtod ((fixed3 x).take 63))
  | .string s => .string s
  | .array ts => .array (elementsValue ts)
  | .object ms => .object (membersValue ms)

def elementsValue : List Tree → List Value
  | [] => []
  | t :: ts => t.value :: elementsValue ts

def membersValue : List (Bytes × Tree) → List (Bytes × Value)
  | [] => []
  | m :: ms => memberValue m :: membersValue ms

def memberValue : Bytes × Tree → Bytes × Value
  | (k, t) => (k, t.value)

end

section Strings

/-- Escaping and unescaping a control character. -/
theorem hex4_control {c : UInt8} (control : c < 0x20) (r : Bytes) :
    Hex4 (hex04 c ++ r) c.toNat r ∧ utf8 c.toNat = [c] := by
  have every : ∀ c : Fin 32, ∃ a b, hex04 (UInt8.ofNat c) = [48, 48, a, b] ∧ isHex a = true ∧ isHex b = true ∧
      c.val = 16 * hexValue a + hexValue b ∧ utf8 c = [UInt8.ofNat c] := by
    intro c
    refine ⟨_, _, rfl, ?_⟩
    revert c
    decide +kernel
  obtain ⟨a, b, hex, ha, hb, value, single⟩ := every ⟨c.toNat, control⟩
  rw [UInt8.ofNat_toNat] at hex single
  rw [hex]
  refine ⟨⟨48, 48, a, b, rfl, by decide, by decide, ha, hb, ?_⟩, single⟩
  have value : c.toNat = 16 * hexValue a + hexValue b := value
  rw [value, show hexValue 48 = 0 from rfl]
  ring

theorem text_escapeChar {s t r : Bytes} (c : UInt8) (h : Text s t r) : Text (escapeChar c ++ s) (c :: t) r := by
  unfold escapeChar
  split
  next eq =>
    subst eq
    exact .escape (by simp [escapes]) h
  next quote =>
    split
    next eq =>
      subst eq
      exact .escape (by simp [escapes]) h
    next backslash =>
      split
      next eq =>
        subst eq
        exact .escape (by simp [escapes]) h
      split
      next eq =>
        subst eq
        exact .escape (by simp [escapes]) h
      split
      next eq =>
        subst eq
        exact .escape (by simp [escapes]) h
      split
      next control =>
        obtain ⟨hex, single⟩ := hex4_control control s
        have small : c.toNat < 32 := control
        have whole := Text.unicode hex (by unfold High; omega) (by unfold Low; omega) h
        rwa [single] at whole
      next printable => exact .plain (UInt8.not_lt.1 printable) quote backslash h

/-- A string is read as it was written, whatever bytes it has. -/
theorem text_escape (s r : Bytes) : Text (s.flatMap escapeChar ++ 34 :: r) s r := by
  induction s with
  | nil => exact .close
  | cons c s ih =>
    rw [List.flatMap_cons, List.append_assoc]
    exact text_escapeChar c ih

variable {d : Nat} {k l r t : Bytes}

/-- The first member of an object. -/
theorem Members.first {ms : List (Bytes × Value)} {b : UInt8} (h : Members d (escape k ++ 58 :: b :: t) ms r)
    (start : isWs b = false) : ∃ v s, Denotes d (b :: t) v s ∧ Follow s ∧
      (ms = [(k, v)] ∧ Ws s (125 :: r) ∨ ∃ s' ms', ms = (k, v) :: ms' ∧ Ws s (44 :: s') ∧ Members d s' ms' r) := by
  rw [escape_append] at h
  cases h with
  | last ws key colon before value close =>
    obtain ⟨-, rfl⟩ := List.cons.inj (Ws.unmarked ws (by decide))
    obtain ⟨rfl, rfl⟩ := Text.unique (text_escape k _) key
    obtain ⟨-, rfl⟩ := List.cons.inj (Ws.unmarked colon (by decide))
    obtain rfl := Ws.unmarked before start
    exact ⟨_, _, value, .of_ws close (.inr (.inr rfl)), .inl ⟨rfl, close⟩⟩
  | next ws key colon before value comma rest =>
    obtain ⟨-, rfl⟩ := List.cons.inj (Ws.unmarked ws (by decide))
    obtain ⟨rfl, rfl⟩ := Text.unique (text_escape k _) key
    obtain ⟨-, rfl⟩ := List.cons.inj (Ws.unmarked colon (by decide))
    obtain rfl := Ws.unmarked before start
    exact ⟨_, _, value, .of_ws comma (.inl rfl), .inr ⟨_, _, rfl, comma, rest⟩⟩

/-- A string ends where it was ended. -/
theorem Denotes.of_escape {v : Value} {s : Bytes} (h : Denotes d (escape k ++ s) v r) : r = s := by
  rw [escape_append] at h
  generalize whole : (34 :: (k.flatMap escapeChar ++ 34 :: s) : Bytes) = l at h
  cases h with
  | string text =>
    obtain ⟨-, rfl⟩ := List.cons.inj whole
    exact (Text.unique text (text_escape k s)).2
  | number derived =>
    obtain ⟨b, t, first, -, other⟩ := number_first derived
    rw [first] at whole
    obtain ⟨rfl, -⟩ := List.cons.inj whole
    exact absurd (by decide) other
  | null | yes | no | emptyObject | object | emptyArray | array => exact absurd (List.cons.inj whole).1 (by decide)

end Strings

/-- The calls append one text, and it means the value. -/
def Writes (d : Nat) (f : JsonWriter → JsonWriter) (v : Value) : Prop :=
  ∃ w, (∀ j, f j = j.raw w) ∧ ∀ r, Denotes d (w ++ r) v r

/-- The same for the fields of an object, if there are any. -/
def WritesMembers (d : Nat) (f : JsonWriter → JsonWriter) (ms : List (Bytes × Value)) : Prop :=
  (ms = [] ∧ ∀ j, f j = j) ∨ ∃ w, (∀ j, f j = j.raw w) ∧ ∀ r, Members d (w ++ 125 :: r) ms r

def WritesElements (d : Nat) (f : JsonWriter → JsonWriter) (vs : List Value) : Prop :=
  (vs = [] ∧ ∀ j, f j = j) ∨ ∃ w, (∀ j, f j = j.raw w) ∧ ∀ r, Elements d (w ++ 93 :: r) vs r

section Rules

variable {d : Nat} {f g : JsonWriter → JsonWriter}

/-- Two items one after the other have a comma between them. -/
theorem raw_raw (j : JsonWriter) (w w' : Bytes) : (j.raw w).raw w' = j.raw (w ++ 44 :: w') := by
  simp [raw, separator]

theorem raw_key (j : JsonWriter) (k w : Bytes) : (j.key k).raw w = j.raw (escape k ++ 58 :: w) := by
  simp [raw, key, separator]

theorem Writes.string (s : Bytes) : Writes d (fun j => j.string s) (.string s) := by
  refine ⟨escape s, fun _ => rfl, fun r => ?_⟩
  rw [escape_append]
  exact .string (text_escape s r)

theorem Writes.integer (i : Int) : Writes d (fun j => j.integer i) (.number (strtod (numText i))) :=
  ⟨numText i, fun _ => rfl, fun r => .number (number_integer i r)⟩

theorem Writes.double {x : Double} (printable : Printable x) :
    Writes d (fun j => j.double x) (.number (strtod ((fixed3 x).take 63))) :=
  ⟨(fixed3 x).take 63, fun _ => rfl, fun r => .number (number_double printable r)⟩

theorem Writes.bool (b : Bool) : Writes d (fun j => j.bool b) (.bool b) := by
  refine ⟨_, fun _ => rfl, fun r => ?_⟩
  cases b with
  | false => exact .no
  | true => exact .yes

theorem Writes.null : Writes d (fun j => j.null) .null := ⟨_, fun _ => rfl, fun _ => .null⟩

theorem Writes.object {ms : List (Bytes × Value)} (h : WritesMembers d f ms) :
    Writes (d + 1) (fun j => (f j.beginObject).endObject) (.object ms) := by
  rcases h with ⟨rfl, empty⟩ | ⟨w, text, means⟩
  · refine ⟨[123, 125], fun j => ?_, fun r => .emptyObject .nil⟩
    show (f j.beginObject).endObject = _
    rw [empty]
    simp [beginObject, endObject, raw, separator]
  · refine ⟨123 :: w ++ [125], fun j => ?_, fun r => ?_⟩
    · show (f j.beginObject).endObject = _
      rw [text]
      simp [beginObject, endObject, raw, separator]
    · have inner := means r
      rw [List.append_assoc, List.cons_append]
      exact .object inner

theorem Writes.array {vs : List Value} (h : WritesElements d f vs) :
    Writes (d + 1) (fun j => (f j.beginArray).endArray) (.array vs) := by
  rcases h with ⟨rfl, empty⟩ | ⟨w, text, means⟩
  · refine ⟨[91, 93], fun j => ?_, fun r => .emptyArray .nil⟩
    show (f j.beginArray).endArray = _
    rw [empty]
    simp [beginArray, endArray, raw, separator]
  · refine ⟨91 :: w ++ [93], fun j => ?_, fun r => ?_⟩
    · show (f j.beginArray).endArray = _
      rw [text]
      simp [beginArray, endArray, raw, separator]
    · have inner := means r
      rw [List.append_assoc, List.cons_append]
      exact .array inner

theorem WritesMembers.nil : WritesMembers d id [] := .inl ⟨rfl, fun _ => rfl⟩

/-- One more field in front of the others. -/
theorem WritesMembers.cons {k : Bytes} {v : Value} {ms : List (Bytes × Value)} (first : Writes d g v)
    (rest : WritesMembers d f ms) : WritesMembers d (fun j => f (g (j.key k))) ((k, v) :: ms) := by
  obtain ⟨w, text, means⟩ := first
  rcases rest with ⟨rfl, empty⟩ | ⟨w', text', means'⟩
  · refine .inr ⟨escape k ++ 58 :: w, fun j => ?_, fun r => ?_⟩
    · show f (g (j.key k)) = _
      rw [empty, text, raw_key]
    · rw [List.append_assoc, escape_append]
      exact .last .nil (text_escape k _) .nil .nil (means _) .nil
  · refine .inr ⟨escape k ++ 58 :: w ++ 44 :: w', fun j => ?_, fun r => ?_⟩
    · show f (g (j.key k)) = _
      rw [text', text, raw_key, raw_raw]
    · rw [List.append_assoc, List.append_assoc, escape_append]
      exact .next .nil (text_escape k _) .nil .nil (means _) .nil (means' r)

theorem WritesElements.nil : WritesElements d id [] := .inl ⟨rfl, fun _ => rfl⟩

theorem WritesElements.cons {v : Value} {vs : List Value} (first : Writes d g v) (rest : WritesElements d f vs) :
    WritesElements d (fun j => f (g j)) (v :: vs) := by
  obtain ⟨w, text, means⟩ := first
  rcases rest with ⟨rfl, empty⟩ | ⟨w', text', means'⟩
  · refine .inr ⟨w, fun j => ?_, fun r => ?_⟩
    · show f (g j) = _
      rw [empty, text]
    · exact .last .nil (means _) .nil
  · refine .inr ⟨w ++ 44 :: w', fun j => ?_, fun r => ?_⟩
    · show f (g j) = _
      rw [text', text, raw_raw]
    · rw [List.append_assoc]
      exact .next .nil (means _) .nil (means' r)

end Rules

mutual

theorem Tree.writes : ∀ {d : Nat} (t : Tree), t.depth ≤ d → Writes d (fun j => t.write j) t.value
  | _, .null, _ => .null
  | _, .bool b, _ => .bool b
  | _, .integer i, _ => .integer i
  | _, .double _ printable, _ => .double printable
  | _, .string s, _ => .string s
  | _ + 1, .array ts, shallow => .array (writesElements ts (Nat.le_of_succ_le_succ shallow))
  | _ + 1, .object ms, shallow => .object (writesMembers ms (Nat.le_of_succ_le_succ shallow))

theorem writesElements : ∀ {d : Nat} (ts : List Tree), elementsDepth ts ≤ d →
    WritesElements d (fun j => writeElements j ts) (elementsValue ts)
  | _, [], _ => .nil
  | _, t :: ts, shallow =>
    .cons (t.writes (Nat.le_trans (Nat.le_max_left ..) shallow))
      (writesElements ts (Nat.le_trans (Nat.le_max_right ..) shallow))

theorem writesMembers : ∀ {d : Nat} (ms : List (Bytes × Tree)), membersDepth ms ≤ d →
    WritesMembers d (fun j => writeMembers j ms) (membersValue ms)
  | _, [], _ => .nil
  | _, (_, t) :: ms, shallow =>
    .cons (t.writes (Nat.le_trans (Nat.le_max_left ..) shallow))
      (writesMembers ms (Nat.le_trans (Nat.le_max_right ..) shallow))

end

/-- What is written through a new serializer is accepted as the tree that it is. -/
theorem parse_write (t : Tree) {maxDepth : Nat} (shallow : t.depth ≤ maxDepth) :
    parse (t.write {}).out maxDepth = .ok (.ok t.value) := by
  obtain ⟨w, text, means⟩ := t.writes shallow
  apply parse_complete
  rw [show t.write {} = JsonWriter.raw {} w from text {}]
  refine ⟨w ++ [], [], ?_, means [], .nil⟩
  rw [List.append_nil]
  exact .nil

end IpcRelay.Ctl.Json
