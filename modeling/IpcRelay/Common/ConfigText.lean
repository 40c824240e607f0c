import IpcRelay.Common.Config

/-!
# The text of a configuration (`parse_config_text` in `common/config.cpp`)

Each line is stripped of its comment and of the spaces around it, and then
read. What was written as sections and quoted values is read back
(`config_round_trip`): every line has its reading (`readLine_written`), and the
reading of the file is the reading of its lines in order.
-/

namespace IpcRelay

section Parser

/-- `strip_comment`: up to the first `#` or `;` outside double quotes. -/
def stripComment (quoted : Bool) : Bytes → Bytes
  | [] => []
  | c :: rest =>
    let quoted := if c = 34 then !quoted else quoted
    if !quoted ∧ (c = 35 ∨ c = 59) then [] else c :: stripComment quoted rest

def unquote (v : Bytes) : Bytes :=
  if 2 ≤ v.length ∧ v.head? = some 34 ∧ v.getLast? = some 34 then (v.drop 1).take (v.length - 2) else v

/-- The lines that `std::getline` reads; `acc` is what was read of the first. -/
def getLines (acc : Bytes) : Bytes → List Bytes
  | [] => if acc = [] then [] else [acc]
  | b :: rest => if b = 10 then acc :: getLines [] rest else getLines (acc ++ [b]) rest

namespace ConfigFile

def addSection (f : ConfigFile) (s : ConfigSection) : ConfigFile := { f with rest := f.rest ++ [s] }

/-- `out.sections.back().entries.push_back`. -/
def addEntry (f : ConfigFile) (e : ConfigEntry) : ConfigFile :=
  match f.rest.getLast? with
  | none => { f with global := { f.global with entries := f.global.entries ++ [e] } }
  | some s => { f with rest := f.rest.dropLast ++ [{ s with entries := s.entries ++ [e] }] }

end ConfigFile

/-- The body of the loop of `parse_config_text`, for the line of a number. -/
def readLine (f : ConfigFile) (lineno : Nat) (line : Bytes) : Except Bytes ConfigFile :=
  let complain (err : Bytes) : Except Bytes ConfigFile := .error (str "line " ++ numText lineno ++ str ": " ++ err)
  let s := trim (stripComment false line)
  if s = [] then .ok f
  else if s.head? = some 91 then
    if s.getLast? ≠ some 93 then complain (str "unterminated section header")
    else
      let name := trim ((s.drop 1).take (s.length - 2))
      if name = [] then complain (str "empty section name")
      else .ok (f.addSection { name := name, line := lineno })
  else
    match s.findIdx? (· = 61) with
    | none => complain (str "expected key = value")
    | some eq =>
      let key := trim (s.take eq)
      let value := unquote (trim (s.drop (eq + 1)))
      if key = [] then complain (str "empty key")
      else .ok (f.addEntry { key := key, value := value, line := lineno })

/-- The loop, with the number of the lines before: the sections, and the error. -/
def readLines (f : ConfigFile) (before : Nat) : List Bytes → ConfigFile × Option Bytes
  | [] => (f, none)
  | line :: lines =>
    match readLine f (before + 1) line with
    | .error err => (f, some err)
    | .ok f => readLines f (before + 1) lines

/-- `parse_config_text`: the sections, and the error where it returns false. -/
def parseConfigText (text : Bytes) : ConfigFile × Option Bytes := readLines {} 0 (getLines [] text)

end Parser

section Spec

/-- The sections with their keys and values, as they are meant. -/
structure PlainConfig where
  global : List (Bytes × Bytes)
  rest : List (Bytes × List (Bytes × Bytes))

/-- What a line says. -/
inductive ConfigItem where
  | blank
  | header (name : Bytes)
  | entry (key value : Bytes)
  deriving DecidableEq, Repr

namespace PlainConfig

/-- What is written, in order. -/
def items (cfg : PlainConfig) : List ConfigItem :=
  (cfg.global.map fun e => .entry e.1 e.2) ++
    cfg.rest.flatMap fun s => .header s.1 :: s.2.map fun e => .entry e.1 e.2

end PlainConfig

/-- Spaces within a line. -/
def Blank (s : Bytes) : Prop := ∀ b ∈ s, isSpace b ∧ b ≠ 10

instance (s : Bytes) : Decidable (Blank s) := List.decidableBAll (fun b => isSpace b ∧ b ≠ 10) s

/-- Nothing, or a comment. -/
def Comment (s : Bytes) : Prop := 10 ∉ s ∧ (s = [] ∨ s.head? = some 35 ∨ s.head? = some 59)

instance (s : Bytes) : Decidable (Comment s) := inferInstanceAs (Decidable (_ ∧ _))

/-- Neither a quote nor the beginning of a comment nor the end of the line. -/
def Bare (s : Bytes) : Prop := ∀ b ∈ s, b ≠ 34 ∧ b ≠ 35 ∧ b ≠ 59 ∧ b ≠ 10

instance (s : Bytes) : Decidable (Bare s) := List.decidableBAll (fun b => b ≠ 34 ∧ b ≠ 35 ∧ b ≠ 59 ∧ b ≠ 10) s

/-- A name or a key, but for the byte that ends it. -/
structure Token (s : Bytes) : Prop where
  bare : Bare s
  trimmed : trim s = s
  nonempty : s ≠ []

/-- How an item may be written on its line. -/
inductive WrittenAs : ConfigItem → Bytes → Prop where
  | blank {a t : Bytes} : Blank a → Comment t → WrittenAs .blank (a ++ t)
  | header {name a b c d t : Bytes} : Token name → Blank a → Blank b → Blank c → Blank d → Comment t →
      WrittenAs (.header name) (a ++ (str "[" ++ (b ++ name ++ c) ++ str "]") ++ d ++ t)
  | entry {key value a b c d t : Bytes} : Token key → key.head? ≠ some 91 → 61 ∉ key → 34 ∉ value → 10 ∉ value →
      Blank a → Blank b → Blank c → Blank d → Comment t →
      WrittenAs (.entry key value) (a ++ (key ++ b ++ str "=" ++ c ++ (str "\"" ++ value ++ str "\"")) ++ d ++ t)

/-- A text of the configuration: its items in order on a line each, between any blank lines. -/
def PlainConfig.Written (cfg : PlainConfig) (text : Bytes) : Prop :=
  ∃ items lines, items.filter (· ≠ .blank) = cfg.items ∧ List.Forall₂ WrittenAs items lines ∧
    text = [10].intercalate lines

/-- The sections without the line numbers. -/
def ConfigFile.plain (f : ConfigFile) : List (Bytes × List (Bytes × Bytes)) :=
  f.sections.map fun s => (s.name, s.entries.map fun e => (e.key, e.value))

end Spec

section Trim

variable {s a d : Bytes}

theorem dropWhile_blank (blank : ∀ b ∈ a, isSpace b) (s : Bytes) : (a ++ s).dropWhile isSpace = s.dropWhile isSpace := by
  induction a with
  | nil => rfl
  | cons b a ih =>
    rw [List.cons_append, List.dropWhile_cons_of_pos (blank b (List.mem_cons_self ..))]
    exact ih fun c mem => blank c (List.mem_cons_of_mem _ mem)

theorem trim_before (blank : ∀ b ∈ a, isSpace b) (s : Bytes) : trim (a ++ s) = trim s := by
  unfold trim
  rw [dropWhile_blank blank]

theorem trim_after (blank : ∀ b ∈ d, isSpace b) (s : Bytes) : trim (s ++ d) = trim s := by
  have turned : ∀ b ∈ d.reverse, isSpace b := fun b mem => blank b (List.mem_reverse.1 mem)
  unfold trim
  induction s with
  | nil =>
    have gone : d.dropWhile isSpace = [] := List.dropWhile_eq_nil_iff.2 blank
    rw [List.nil_append, gone]
    rfl
  | cons b s ih =>
    by_cases space : isSpace b
    · rw [List.cons_append, List.dropWhile_cons_of_pos space, List.dropWhile_cons_of_pos space]
      exact ih
    · rw [List.cons_append, List.dropWhile_cons_of_neg space, List.dropWhile_cons_of_neg space, ← List.cons_append,
        List.reverse_append, dropWhile_blank turned]

/-- What begins and ends with something else than a space stays. -/
theorem trim_solid {x y : UInt8} (first : ¬ isSpace x) (last : ¬ isSpace y) (m : Bytes) :
    trim (x :: (m ++ [y])) = x :: (m ++ [y]) := by
  unfold trim
  rw [List.dropWhile_cons_of_neg first, ← List.cons_append, List.reverse_append, List.reverse_singleton,
    List.singleton_append, List.dropWhile_cons_of_neg last]
  simp

theorem length_trim_le (s : Bytes) : (trim s).length ≤ s.length := by
  unfold trim
  rw [List.length_reverse]
  refine le_trans (List.length_dropWhile_le ..) ?_
  rw [List.length_reverse]
  exact List.length_dropWhile_le ..

/-- What is trimmed begins with no space. -/
theorem trimmed_head {b : UInt8} {s : Bytes} (trimmed : trim (b :: s) = b :: s) : ¬ isSpace b := by
  intro space
  have shorter : trim (b :: s) = trim s := trim_before (a := [b]) (by simpa using space) s
  have le := length_trim_le s
  rw [← shorter, trimmed, List.length_cons] at le
  omega

end Trim

section Comments

variable {s t : Bytes}

theorem stripComment_bare (bare : Bare s) (rest : Bytes) :
    stripComment false (s ++ rest) = s ++ stripComment false rest := by
  induction s with
  | nil => rfl
  | cons b s ih =>
    obtain ⟨quote, hash, semicolon, _⟩ := bare b (List.mem_cons_self ..)
    have later := ih fun c mem => bare c (List.mem_cons_of_mem _ mem)
    rw [List.cons_append, stripComment]
    simp only [if_neg quote]
    rw [if_neg (by simp [hash, semicolon]), later, List.cons_append]

/-- Within quotes no comment begins. -/
theorem stripComment_quoted {v : Bytes} (free : 34 ∉ v) (rest : Bytes) :
    stripComment false (34 :: (v ++ 34 :: rest)) = 34 :: (v ++ 34 :: stripComment false rest) := by
  have inside : stripComment true (v ++ 34 :: rest) = v ++ 34 :: stripComment false rest := by
    induction v with
    | nil => rfl
    | cons b v ih =>
      obtain ⟨other, free⟩ := List.ne_and_not_mem_of_not_mem_cons free
      rw [List.cons_append, stripComment]
      simp only [if_neg (Ne.symm other), Bool.not_true, Bool.false_eq_true, false_and, if_false, List.cons_append]
      rw [ih free]
  exact congrArg (34 :: ·) inside

theorem stripComment_comment (comment : Comment t) : stripComment false t = [] := by
  obtain ⟨_, rfl | hash | semicolon⟩ := comment
  · rfl
  · obtain ⟨rest, rfl⟩ := List.head?_eq_some_iff.1 hash
    rfl
  · obtain ⟨rest, rfl⟩ := List.head?_eq_some_iff.1 semicolon
    rfl

theorem Blank.bare (blank : Blank s) : Bare s := by
  intro b mem
  obtain ⟨space, line⟩ := blank b mem
  refine ⟨?_, ?_, ?_, line⟩
  · rintro rfl
    exact absurd space (by decide)
  · rintro rfl
    exact absurd space (by decide)
  · rintro rfl
    exact absurd space (by decide)

theorem Blank.spaces (blank : Blank s) : ∀ b ∈ s, isSpace b := fun b mem => (blank b mem).1

theorem bare_singleton {b : UInt8} (other : b ≠ 34 ∧ b ≠ 35 ∧ b ≠ 59 ∧ b ≠ 10) : Bare [b] := by
  intro c mem
  rw [List.mem_singleton.1 mem]
  exact other

theorem Bare.append {s t : Bytes} (hs : Bare s) (ht : Bare t) : Bare (s ++ t) := by
  intro b mem
  rcases List.mem_append.1 mem with mem | mem
  · exact hs b mem
  · exact ht b mem

end Comments

section Lines

variable {f : ConfigFile} {n : Nat}

theorem unquote_quoted (value : Bytes) : unquote (34 :: (value ++ [34])) = value := by
  unfold unquote
  rw [if_pos ⟨by simp, rfl, by rw [← List.cons_append, List.getLast?_append]; rfl⟩, List.drop_one, List.tail_cons,
    List.length_cons, List.length_append]
  exact List.take_left

/-- What an item does to the sections. -/
def ConfigFile.take (f : ConfigFile) (lineno : Nat) : ConfigItem → ConfigFile
  | .blank => f
  | .header name => f.addSection { name := name, line := lineno }
  | .entry key value => f.addEntry { key := key, value := value, line := lineno }

theorem readLine_blank {a t : Bytes} (blank : Blank a) (comment : Comment t) : readLine f n (a ++ t) = .ok f := by
  have stripped : trim (stripComment false (a ++ t)) = [] := by
    rw [stripComment_bare blank.bare, stripComment_comment comment, trim_before blank.spaces]
    rfl
  unfold readLine
  simp only [stripped]
  rw [if_pos trivial]

theorem readLine_header {name a b c d t : Bytes} (token : Token name) (ha : Blank a) (hb : Blank b) (hc : Blank c)
    (hd : Blank d) (comment : Comment t) :
    readLine f n (a ++ (str "[" ++ (b ++ name ++ c) ++ str "]") ++ d ++ t) =
      .ok (f.addSection { name := name, line := n }) := by
  have left : str "[" = [91] := by decide
  have right : str "]" = [93] := by decide
  have bare : Bare (a ++ ([91] ++ (b ++ name ++ c) ++ [93]) ++ d) := by
    have first : Bare [91] := bare_singleton (by decide)
    have second : Bare [93] := bare_singleton (by decide)
    exact (ha.bare.append ((first.append ((hb.bare.append token.bare).append hc.bare)).append second)).append hd.bare
  have inner : trim (b ++ name ++ c) = name := by
    rw [trim_after hc.spaces, trim_before hb.spaces, token.trimmed]
  have stripped : trim (stripComment false (a ++ (str "[" ++ (b ++ name ++ c) ++ str "]") ++ d ++ t)) =
      91 :: ((b ++ name ++ c) ++ [93]) := by
    rw [left, right, stripComment_bare bare, stripComment_comment comment, List.append_nil, trim_after hd.spaces,
      trim_before ha.spaces]
    exact trim_solid (by decide) (by decide) _
  have last : (91 :: (b ++ name ++ c ++ [93])).getLast? = some 93 := by
    rw [← List.cons_append, List.getLast?_append]
    rfl
  have between : (List.drop 1 (91 :: (b ++ name ++ c ++ [93]))).take ((91 :: (b ++ name ++ c ++ [93])).length - 2) =
      b ++ name ++ c := by
    rw [List.drop_one, List.tail_cons, List.length_cons, List.length_append]
    exact List.take_left
  unfold readLine
  simp only [stripped, last, between, inner]
  rw [if_neg (by simp), if_pos List.head?_cons, if_neg (by simp), if_neg token.nonempty]

theorem readLine_entry {key value a b c d t : Bytes} (token : Token key) (plain : key.head? ≠ some 91)
    (equals : 61 ∉ key) (quote : 34 ∉ value) (ha : Blank a) (hb : Blank b) (hc : Blank c) (hd : Blank d) (comment : Comment t) :
    readLine f n (a ++ (key ++ b ++ str "=" ++ c ++ (str "\"" ++ value ++ str "\"")) ++ d ++ t) =
      .ok (f.addEntry { key := key, value := value, line := n }) := by
  have eq : str "=" = [61] := by decide
  have mark : str "\"" = [34] := by decide
  obtain ⟨x, key', spelled⟩ := List.exists_cons_of_ne_nil token.nonempty
  have solid : ¬ isSpace x := trimmed_head (spelled ▸ token.trimmed)
  have front : Bare (a ++ (key ++ b ++ [61] ++ c)) := by
    have sign : Bare [61] := bare_singleton (by decide)
    exact ha.bare.append (((token.bare.append hb.bare).append sign).append hc.bare)
  obtain ⟨line, hline⟩ : ∃ line, line = key ++ b ++ [61] ++ c ++ ([34] ++ value ++ [34]) := ⟨_, rfl⟩
  have stripped : trim (stripComment false
      (a ++ (key ++ b ++ str "=" ++ c ++ (str "\"" ++ value ++ str "\"")) ++ d ++ t)) = line := by
    have quoted : a ++ (key ++ b ++ [61] ++ c ++ ([34] ++ value ++ [34])) ++ d ++ t =
        (a ++ (key ++ b ++ [61] ++ c)) ++ (34 :: (value ++ 34 :: (d ++ t))) := by simp
    have whole : (a ++ (key ++ b ++ [61] ++ c)) ++ (34 :: (value ++ 34 :: d)) = a ++ line ++ d := by simp [hline]
    have ends : line = x :: ((key' ++ b ++ [61] ++ c ++ ([34] ++ value)) ++ [34]) := by simp [hline, spelled]
    rw [eq, mark, quoted, stripComment_bare front, stripComment_quoted quote, stripComment_bare hd.bare,
      stripComment_comment comment, List.append_nil, whole, trim_after hd.spaces, trim_before ha.spaces, ends]
    exact trim_solid solid (by decide) _
  have head : line.head? = key.head? := by
    rw [hline, spelled]
    rfl
  have found : line.findIdx? (· = 61) = some (key ++ b).length := by
    have absent : (key ++ b).findIdx? (· = 61) = none := by
      rw [List.findIdx?_eq_none_iff]
      intro x mem
      rcases List.mem_append.1 mem with mem | mem
      · exact decide_eq_false fun same => equals (same ▸ mem)
      · refine decide_eq_false ?_
        rintro rfl
        exact absurd (hb.spaces _ mem) (by decide)
    rw [hline, List.append_assoc, List.append_assoc, List.findIdx?_append, absent, Option.none_or, List.singleton_append,
      List.findIdx?_cons]
    simp
  have name : trim (line.take (key ++ b).length) = key := by
    rw [hline, List.append_assoc, List.append_assoc, List.take_left, trim_after hb.spaces, token.trimmed]
  have text : unquote (trim (line.drop ((key ++ b).length + 1))) = value := by
    have rest : line.drop ((key ++ b).length + 1) = c ++ (34 :: (value ++ [34])) := by
      have split : line = (key ++ b ++ [61]) ++ (c ++ (34 :: (value ++ [34]))) := by
        rw [hline]
        simp
      have length : (key ++ b).length + 1 = (key ++ b ++ [61]).length := by
        rw [@List.length_append _ (key ++ b) [61]]
        rfl
      rw [split, length, List.drop_left]
    rw [rest, trim_before hc.spaces, trim_solid (by decide) (by decide)]
    exact unquote_quoted value
  unfold readLine
  simp only [stripped, head, found, name, text]
  rw [if_neg, if_neg plain, if_neg token.nonempty]
  rw [hline, spelled]
  simp

/-- A line is read as what it says. -/
theorem readLine_written {item : ConfigItem} {line : Bytes} (written : WrittenAs item line) :
    readLine f n line = .ok (f.take n item) := by
  cases written with
  | blank blank comment => exact readLine_blank blank comment
  | header token ha hb hc hd comment => exact readLine_header token ha hb hc hd comment
  | entry token plain equals quote _ ha hb hc hd comment =>
    exact readLine_entry token plain equals quote ha hb hc hd comment

/-- A written line has no newline of its own. -/
theorem WrittenAs.one_line {item : ConfigItem} {line : Bytes} (written : WrittenAs item line) : 10 ∉ line := by
  have bare : ∀ {s : Bytes}, Bare s → 10 ∉ s := fun h mem => (h 10 mem).2.2.2 rfl
  cases written with
  | blank blank comment =>
    rw [List.mem_append]
    rintro (mem | mem)
    · exact bare blank.bare mem
    · exact comment.1 mem
  | header token ha hb hc hd comment =>
    have brackets : 10 ∉ str "[" ∧ 10 ∉ str "]" := by decide
    simp only [List.mem_append, not_or]
    exact ⟨⟨⟨bare ha.bare, ⟨brackets.1, ⟨bare hb.bare, bare token.bare⟩, bare hc.bare⟩, brackets.2⟩, bare hd.bare⟩, comment.1⟩
  | entry token _ _ _ value ha hb hc hd comment =>
    have signs : 10 ∉ str "=" ∧ 10 ∉ str "\"" := by decide
    simp only [List.mem_append, not_or]
    exact ⟨⟨⟨bare ha.bare, ⟨⟨⟨bare token.bare, bare hb.bare⟩, signs.1⟩, bare hc.bare⟩, ⟨signs.2, value⟩, signs.2⟩, bare hd.bare⟩,
      comment.1⟩

end Lines

section Files

theorem getLines_line {line : Bytes} (one : 10 ∉ line) (acc rest : Bytes) :
    getLines acc (line ++ rest) = getLines (acc ++ line) rest := by
  induction line generalizing acc with
  | nil => rw [List.nil_append, List.append_nil]
  | cons b line ih =>
    obtain ⟨other, one⟩ := List.ne_and_not_mem_of_not_mem_cons one
    rw [List.cons_append, getLines, if_neg (Ne.symm other), ih one, List.append_assoc, List.singleton_append]

/-- Lines are read as they were joined, but for an empty one at the end. -/
theorem getLines_joined (lines : List Bytes) (one : ∀ line ∈ lines, 10 ∉ line) :
    getLines [] ([10].intercalate lines) = lines ∨ lines = getLines [] ([10].intercalate lines) ++ [[]] := by
  induction lines with
  | nil => exact .inl rfl
  | cons line lines ih =>
    have here := one line (List.mem_cons_self ..)
    cases lines with
    | nil =>
      rw [List.intercalate_singleton, ← List.append_nil line, getLines_line here, List.nil_append, List.append_nil, getLines]
      by_cases empty : line = []
      · rw [if_pos empty, empty]
        exact .inr rfl
      · rw [if_neg empty]
        exact .inl rfl
    | cons next lines =>
      have joined : [10].intercalate (line :: next :: lines) = line ++ (10 :: [10].intercalate (next :: lines)) := by
        simp [List.intercalate]
      rw [joined, getLines_line here, List.nil_append, getLines, if_pos rfl]
      rcases ih fun l mem => one l (List.mem_cons_of_mem _ mem) with same | last
      · exact .inl (congrArg (line :: ·) same)
      · exact .inr (congrArg (line :: ·) last)

theorem readLines_empty (f : ConfigFile) (n : Nat) (lines : List Bytes) :
    readLines f n (lines ++ [[]]) = readLines f n lines := by
  induction lines generalizing f n with
  | nil => rfl
  | cons line lines ih =>
    rw [List.cons_append, readLines, readLines]
    cases readLine f (n + 1) line with
    | error err => rfl
    | ok f => exact ih f (n + 1)

/-- What an item does to the sections without line numbers. -/
def takePlain (sections : List (Bytes × List (Bytes × Bytes))) : ConfigItem → List (Bytes × List (Bytes × Bytes))
  | .blank => sections
  | .header name => sections ++ [(name, [])]
  | .entry key value =>
    match sections.getLast? with
    | none => []
    | some s => sections.dropLast ++ [(s.1, s.2 ++ [(key, value)])]

theorem takePlain_entry (before : List (Bytes × List (Bytes × Bytes))) (name key value : Bytes)
    (es : List (Bytes × Bytes)) :
    takePlain (before ++ [(name, es)]) (.entry key value) = before ++ [(name, es ++ [(key, value)])] := by
  unfold takePlain
  rw [List.getLast?_append]
  simp

theorem plain_take (f : ConfigFile) (n : Nat) (item : ConfigItem) : (f.take n item).plain = takePlain f.plain item := by
  cases item with
  | blank => rfl
  | header name =>
    unfold ConfigFile.plain ConfigFile.take ConfigFile.addSection ConfigFile.sections
    rw [← List.cons_append, List.map_append]
    rfl
  | entry key value =>
    obtain ⟨first, rest⟩ := f
    rcases List.eq_nil_or_concat rest with rfl | ⟨before, last, rfl⟩
    · unfold ConfigFile.take ConfigFile.addEntry ConfigFile.plain ConfigFile.sections
      simp only [List.getLast?_nil, List.map_cons, List.map_nil, List.map_append]
      exact (takePlain_entry [] ..).symm
    · unfold ConfigFile.take ConfigFile.addEntry ConfigFile.plain ConfigFile.sections
      simp only [List.concat_eq_append, List.getLast?_concat, List.dropLast_concat, List.map_cons, List.map_nil,
        List.map_append]
      exact (takePlain_entry (_ :: _) ..).symm

theorem written_lines {items : List ConfigItem} {lines : List Bytes} (written : List.Forall₂ WrittenAs items lines) :
    ∀ line ∈ lines, 10 ∉ line := by
  induction written with
  | nil => simp
  | cons one _ ih =>
    intro line mem
    rcases List.mem_cons.1 mem with rfl | mem
    · exact one.one_line
    · exact ih line mem

theorem readLines_written {items : List ConfigItem} {lines : List Bytes} (written : List.Forall₂ WrittenAs items lines)
    (f : ConfigFile) (n : Nat) : ∃ f', readLines f n lines = (f', none) ∧ f'.plain = items.foldl takePlain f.plain := by
  induction written generalizing f n with
  | nil => exact ⟨f, rfl, rfl⟩
  | @cons item line _ _ one _ ih =>
    obtain ⟨f', ran, plain⟩ := ih (f.take (n + 1) item) (n + 1)
    refine ⟨f', ?_, ?_⟩
    · rw [readLines, readLine_written one]
      exact ran
    · rw [plain, plain_take, List.foldl_cons]

theorem takePlain_blanks (items : List ConfigItem) (sections : List (Bytes × List (Bytes × Bytes))) :
    items.foldl takePlain sections = (items.filter (· ≠ .blank)).foldl takePlain sections := by
  induction items generalizing sections with
  | nil => rfl
  | cons item items ih =>
    by_cases blank : item = .blank
    · rw [List.filter_cons_of_neg (by simp [blank]), blank]
      exact ih sections
    · rw [List.filter_cons_of_pos (by simp [blank])]
      exact ih _

theorem takePlain_entries (entries : List (Bytes × Bytes)) (before : List (Bytes × List (Bytes × Bytes))) (name : Bytes)
    (es : List (Bytes × Bytes)) : (entries.map fun e => ConfigItem.entry e.1 e.2).foldl takePlain (before ++ [(name, es)]) =
      before ++ [(name, es ++ entries)] := by
  induction entries generalizing es with
  | nil => rw [List.append_nil]; rfl
  | cons e entries ih =>
    rw [List.map_cons, List.foldl_cons, takePlain_entry, ih, List.append_assoc, List.singleton_append]

theorem takePlain_sections (rest before : List (Bytes × List (Bytes × Bytes))) :
    (rest.flatMap fun s => .header s.1 :: s.2.map fun e => .entry e.1 e.2).foldl takePlain before = before ++ rest := by
  induction rest generalizing before with
  | nil => rw [List.append_nil]; rfl
  | cons s rest ih =>
    rw [List.flatMap_cons, List.foldl_append, List.foldl_cons]
    change List.foldl takePlain (List.foldl takePlain (before ++ [(s.1, [])]) _) _ = _
    rw [takePlain_entries, ih, List.nil_append, List.append_assoc, List.singleton_append]

/-- The items of a configuration make its sections. -/
theorem takePlain_items (cfg : PlainConfig) : cfg.items.foldl takePlain [([], [])] = ([], cfg.global) :: cfg.rest := by
  unfold PlainConfig.items
  have first := takePlain_entries cfg.global [] [] []
  rw [List.nil_append, List.nil_append] at first
  rw [List.foldl_append, first, takePlain_sections]
  rfl

/-- However a configuration was written, with blank lines, spaces and comments, it is read back. -/
theorem config_round_trip (cfg : PlainConfig) (text : Bytes) (written : cfg.Written text) :
    ∃ f, parseConfigText text = (f, none) ∧ f.plain = ([], cfg.global) :: cfg.rest := by
  obtain ⟨items, lines, all, each, rfl⟩ := written
  obtain ⟨f, ran, plain⟩ := readLines_written each {} 0
  refine ⟨f, ?_, ?_⟩
  · unfold parseConfigText
    rcases getLines_joined lines (written_lines each) with same | last
    · rw [same, ran]
    · rw [last, readLines_empty] at ran
      exact ran
  · rw [plain, takePlain_blanks, all]
    exact takePlain_items cfg

/-- A value with all that means something outside quotes. -/
def labConfig : PlainConfig where
  global := [(str "name", str "lab")]
  rest := [(str "bridge", [(str "topic", str " a#b;c=d ")]), (str "receiver", [])]

theorem config_round_trip_lab : ∃ f, parseConfigText
    (str "# lab\nname = \"lab\"\n\n [bridge] ; one\n\ttopic=\" a#b;c=d \"  # \"two\"\n[ receiver ]\n") = (f, none) ∧
      f.plain = [([], [(str "name", str "lab")]), (str "bridge", [(str "topic", str " a#b;c=d ")]), (str "receiver", [])] := by
  have name : Token (str "name") := ⟨by decide, by decide, by decide⟩
  have bridge : Token (str "bridge") := ⟨by decide, by decide, by decide⟩
  have topic : Token (str "topic") := ⟨by decide, by decide, by decide⟩
  have receiver : Token (str "receiver") := ⟨by decide, by decide, by decide⟩
  have blank : Blank [] := by decide
  have space : Blank (str " ") := by decide
  have nothing : Comment [] := by decide
  refine config_round_trip labConfig _ ⟨[.blank, .entry (str "name") (str "lab"), .blank, .header (str "bridge"),
    .entry (str "topic") (str " a#b;c=d "), .header (str "receiver"), .blank], _, by decide,
    .cons (.blank blank (t := str "# lab") (by decide)) <|
    .cons (.entry name (by decide) (by decide) (by decide) (by decide) blank space space blank nothing) <|
    .cons (.blank blank nothing) <|
    .cons (.header bridge space blank blank space (t := str "; one") (by decide)) <|
    .cons (.entry topic (by decide) (by decide) (by decide) (by decide) (a := str "\t") (by decide) blank blank
      (d := str "  ") (by decide) (t := str "# \"two\"") (by decide)) <|
    .cons (.header receiver blank space space blank nothing) <|
    .cons (.blank blank nothing) .nil, ?_⟩
  decide

end Files

end IpcRelay
