import IpcRelay.Ctl.Http

/-!
# The request, there and back

`RawRequest` is a request as a client writes it. The parser reads back what was
written (`http_round_trip`): each of its searches stops at the end of the part
that it looks for.
-/

namespace IpcRelay.Ctl

open Occurrence Machine

section Spec

/-- A request line and headers, as they are sent. -/
structure RawRequest where
  method : Bytes
  target : Bytes
  version : Bytes
  headers : List (Bytes × Bytes) := []

/-- Neither CR nor LF. -/
def OneLine (s : Bytes) : Prop := 13 ∉ s ∧ 10 ∉ s

instance (s : Bytes) : Decidable (OneLine s) := inferInstanceAs (Decidable (_ ∧ _))

/-- A header that stands on a line of its own. -/
structure HeaderField (h : Bytes × Bytes) : Prop where
  name : OneLine h.1
  value : OneLine h.2
  nonempty : h.1 ≠ []
  colon : 58 ∉ h.1
  begins : h.1.head? ≠ some 32 ∧ h.1.head? ≠ some 9

namespace RawRequest

def requestLine (r : RawRequest) : Bytes := r.method ++ str " " ++ r.target ++ str " " ++ r.version

/-- `name:value`. -/
def headerLine (h : Bytes × Bytes) : Bytes := h.1 ++ str ":" ++ h.2

/-- The header lines and the blank line. -/
def renderHeaders (hs : List (Bytes × Bytes)) : Bytes := (hs.flatMap fun h => headerLine h ++ crlf) ++ crlf

def render (r : RawRequest) : Bytes := r.requestLine ++ crlf ++ renderHeaders r.headers

structure WellFormed (r : RawRequest) : Prop where
  method : OneLine r.method ∧ 32 ∉ r.method
  nonempty : r.method ≠ []
  target : OneLine r.target ∧ 32 ∉ r.target
  absolute : r.target.head? = some 47
  version : OneLine r.version ∧ 32 ∉ r.version
  http : str "HTTP/1." <+: r.version
  headers : ∀ h ∈ r.headers, HeaderField h

/-- What is to be read. -/
def request (r : RawRequest) : HttpRequest where
  method := r.method
  target := r.target
  path := r.target.takeWhile (· ≠ 63)
  version := r.version
  headers := r.headers.map fun h => (toLower h.1, trim h.2)

end RawRequest

end Spec

section Lines

variable {line s pat : Bytes} {p : UInt8}

/-- The search from behind a part is the search in the rest. -/
theorem find_behind (pre s pat : Bytes) : find (pre ++ s) pat pre.length = (firstAt pat s).map (pre.length + ·) := by
  unfold find
  rw [if_pos (by simp), List.drop_left]

theorem find_front (s pat : Bytes) : find s pat 0 = firstAt pat s := by
  have h := find_behind [] s pat
  rw [List.nil_append, List.length_nil] at h
  rw [h]
  simp

theorem crlf_eq : crlf = [13, 10] := rfl

/-- A line ends where it should. -/
theorem find_lineEnd (pre : Bytes) (one : OneLine line) (rest : Bytes) :
    find (pre ++ (line ++ (crlf ++ rest))) crlf pre.length = some (pre.length + line.length) := by
  rw [find_behind, crlf_eq, firstAt_line one.1]
  rfl

/-- Behind a line comes the blank line, or a line that is not blank. -/
theorem firstAt_blank_line (one : OneLine line) (other : s.head? ≠ some 13) :
    firstAt (crlf ++ crlf) (line ++ (crlf ++ s)) = (firstAt (crlf ++ crlf) s).map ((line.length + 2) + ·) := by
  have pass : firstAt (crlf ++ crlf) (crlf ++ s) = (firstAt (crlf ++ crlf) s).map (2 + ·) := by
    change firstAt [13, 10, 13, 10] (13 :: 10 :: s) = (firstAt [13, 10, 13, 10] s).map _
    rw [firstAt, if_neg, firstAt, if_neg, Option.map_map]
    · congr 1
      funext i
      simp only [Function.comp]
      omega
    · rintro ⟨t, h⟩
      cases h
    · rintro ⟨t, h⟩
      have same := (List.cons.inj (List.cons.inj h).2).2
      rw [← same] at other
      exact other rfl
  change firstAt (13 :: [10, 13, 10]) _ = _
  rw [firstAt_skip one.1]
  change (firstAt (crlf ++ crlf) (crlf ++ s)).map _ = _
  rw [pass, Option.map_map]
  congr 1
  funext i
  simp only [Function.comp]
  omega

theorem headerLine_one {h : Bytes × Bytes} (field : HeaderField h) : OneLine (RawRequest.headerLine h) := by
  unfold RawRequest.headerLine OneLine
  have colon : str ":" = [58] := by decide
  rw [colon]
  obtain ⟨⟨n1, n2⟩, ⟨v1, v2⟩, _⟩ := field
  simp [n1, n2, v1, v2]

/-- The blank line is found behind the last header. -/
theorem firstAt_headers {hs : List (Bytes × Bytes)} (fields : ∀ h ∈ hs, HeaderField h) (one : OneLine line) (more : Bytes) :
    firstAt (crlf ++ crlf) (line ++ (crlf ++ (RawRequest.renderHeaders hs ++ more))) =
      some (line.length + (RawRequest.renderHeaders hs).length - 2) := by
  induction hs generalizing line with
  | nil =>
    change firstAt (13 :: [10, 13, 10]) (line ++ (13 :: [10, 13, 10] ++ more)) = _
    rw [firstAt_line one.1]
    rfl
  | cons h hs ih =>
    have field := fields h (List.mem_cons_self ..)
    have others := ih (fun g mem => fields g (List.mem_cons_of_mem _ mem)) (headerLine_one field)
    have split : RawRequest.renderHeaders (h :: hs) ++ more =
        RawRequest.headerLine h ++ (crlf ++ (RawRequest.renderHeaders hs ++ more)) := by
      unfold RawRequest.renderHeaders
      simp [List.append_assoc]
    have length : (RawRequest.renderHeaders (h :: hs)).length =
        (RawRequest.headerLine h).length + 2 + (RawRequest.renderHeaders hs).length := by
      unfold RawRequest.renderHeaders
      simp [crlf]
      omega
    have two : 2 ≤ (RawRequest.renderHeaders hs).length := by
      unfold RawRequest.renderHeaders
      simp [crlf]
    rw [split, firstAt_blank_line one, others, length]
    · simp only [Option.map_some, Option.some.injEq]
      omega
    · unfold RawRequest.headerLine
      obtain ⟨b, name, spelled⟩ := List.exists_cons_of_ne_nil field.nonempty
      have free := field.name.1
      rw [spelled] at free ⊢
      simp only [List.cons_append, List.head?_cons, ne_eq, Option.some.injEq]
      rintro rfl
      exact free (List.mem_cons_self ..)

end Lines

section Parse

variable {r : RawRequest}

theorem substr_front (s rest : Bytes) : substr (s ++ rest) 0 s.length = s := by
  unfold substr
  rw [List.drop_zero, List.take_left]

theorem substr_behind (pre s rest : Bytes) : substr (pre ++ (s ++ rest)) pre.length s.length = s := by
  unfold substr
  rw [List.drop_left, List.take_left]

theorem find_take (s : Bytes) (p : UInt8) : (match find s [p] 0 with
    | some q => s.take q
    | none => s) = s.takeWhile (· ≠ p) := by
  rw [find_front]
  induction s with
  | nil => rfl
  | cons b s ih =>
    unfold firstAt
    by_cases same : b = p
    · rw [if_pos (by rw [same]; simp), List.takeWhile_cons_of_neg (by simp [same])]
      rfl
    · rw [if_neg (by rintro ⟨t, h⟩; exact same (List.cons.inj h).1.symm), List.takeWhile_cons_of_pos (by simp [same]), ← ih]
      cases firstAt [p] s <;> rfl

theorem requestLine_one (wf : r.WellFormed) : OneLine r.requestLine := by
  obtain ⟨⟨⟨m1, m2⟩, _⟩, _, ⟨⟨t1, t2⟩, _⟩, _, ⟨⟨v1, v2⟩, _⟩, _, _⟩ := wf
  have space : str " " = [32] := by decide
  unfold RawRequest.requestLine OneLine
  rw [space]
  simp [m1, m2, t1, t2, v1, v2]

/-- The request line is split at its spaces. -/
theorem parseRequestLine_render (wf : r.WellFormed) : parseRequestLine r.requestLine =
    some { method := r.method, target := r.target, path := r.request.path, version := r.version } := by
  have space : str " " = [32] := by decide
  have line : r.requestLine = r.method ++ (32 :: r.target ++ (32 :: r.version)) := by
    unfold RawRequest.requestLine
    rw [space]
    simp [List.append_assoc]
  have line' : r.requestLine = (r.method ++ [32]) ++ (r.target ++ (32 :: r.version)) := by
    rw [line]
    simp
  have line'' : r.requestLine = (r.method ++ [32] ++ r.target ++ [32]) ++ r.version := by
    rw [line]
    simp
  have first : find r.requestLine [32] 0 = some r.method.length := by
    rw [find_front, line]
    exact firstAt_line wf.method.2 [] _
  have second : find r.requestLine [32] (r.method.length + 1) = some (r.method.length + 1 + r.target.length) := by
    have behind := find_behind (r.method ++ [32]) (r.target ++ (32 :: r.version)) [32]
    rw [← line', List.length_append] at behind
    rw [show [(32 : UInt8)].length = 1 from rfl] at behind
    rw [behind, show r.target ++ (32 :: r.version) = r.target ++ ((32 :: []) ++ r.version) from rfl,
      firstAt_line wf.target.2]
    rfl
  have third : find r.requestLine [32] (r.method.length + 1 + r.target.length + 1) = none := by
    have behind := find_behind (r.method ++ [32] ++ r.target ++ [32]) r.version [32]
    rw [← line''] at behind
    simp only [List.length_append, List.length_cons, List.length_nil, Nat.zero_add] at behind
    rw [behind, firstAt_free wf.version.2]
    rfl
  have method : substr r.requestLine 0 r.method.length = r.method := by
    rw [line, substr_front]
  have target : substr r.requestLine (r.method.length + 1) r.target.length = r.target := by
    have behind := substr_behind (r.method ++ [32]) r.target (32 :: r.version)
    rw [← line', List.length_append] at behind
    exact behind
  have version : r.requestLine.drop (r.method.length + 1 + r.target.length + 1) = r.version := by
    have behind := @List.drop_left _ (r.method ++ [32] ++ r.target ++ [32]) r.version
    rw [← line''] at behind
    simp only [List.length_append, List.length_cons, List.length_nil, Nat.zero_add] at behind
    exact behind
  have between : r.method.length + 1 + r.target.length - r.method.length - 1 = r.target.length := by omega
  unfold parseRequestLine
  simp only [space, first, second, third, between, method, target, version, Option.isSome_none, Bool.false_eq_true,
    if_false]
  rw [if_neg]
  · have query : str "?" = [63] := by decide
    rw [query]
    exact congrArg (fun path => some (HttpRequest.mk r.method r.target path r.version [])) (find_take r.target 63)
  · rintro (empty | empty | other | other)
    · exact wf.nonempty empty
    · have absolute := wf.absolute
      rw [empty] at absolute
      cases absolute
    · exact other wf.absolute
    · exact other wf.http

theorem parseHeaderLine_render {h : Bytes × Bytes} (field : HeaderField h) :
    parseHeaderLine (RawRequest.headerLine h) = some (toLower h.1, trim h.2) := by
  have colon : str ":" = [58] := by decide
  have line : RawRequest.headerLine h = h.1 ++ ([58] ++ h.2) := by
    unfold RawRequest.headerLine
    rw [colon, List.append_assoc]
  have found : find (RawRequest.headerLine h) [58] 0 = some h.1.length := by
    rw [find_front, line]
    exact firstAt_line field.colon [] _
  have value : (RawRequest.headerLine h).drop (h.1.length + 1) = h.2 := by
    have behind := @List.drop_left _ (h.1 ++ [58]) h.2
    rw [List.append_assoc, ← line, List.length_append] at behind
    exact behind
  have head : (RawRequest.headerLine h).head? = h.1.head? := by
    obtain ⟨b, name, spelled⟩ := List.exists_cons_of_ne_nil field.nonempty
    rw [line, spelled]
    rfl
  unfold parseHeaderLine
  simp only [colon, found, value, head]
  rw [if_neg, line, List.take_left]
  rintro (empty | space | tab)
  · exact field.nonempty (List.eq_nil_of_length_eq_zero empty)
  · exact field.begins.1 space
  · exact field.begins.2 tab

theorem renderHeaders_cons (h : Bytes × Bytes) (hs : List (Bytes × Bytes)) :
    RawRequest.renderHeaders (h :: hs) = RawRequest.headerLine h ++ (crlf ++ RawRequest.renderHeaders hs) := by
  unfold RawRequest.renderHeaders
  simp [List.append_assoc]

/-- The blank line, and two bytes at least for each header. -/
theorem length_renderHeaders (hs : List (Bytes × Bytes)) : hs.length + 2 ≤ (RawRequest.renderHeaders hs).length := by
  induction hs with
  | nil => exact le_rfl
  | cons h hs ih =>
    have two : crlf.length = 2 := rfl
    rw [renderHeaders_cons, List.length_append, List.length_append, List.length_cons]
    omega

/-- The header lines are read one after the other, up to the blank line. -/
theorem parseHeaderLines_render {hs : List (Bytes × Bytes)} (fields : ∀ h ∈ hs, HeaderField h) (pre : Bytes) (last fuel : Nat)
    (behind : 2 ≤ pre.length) (ends : last + 4 = pre.length + (RawRequest.renderHeaders hs).length)
    (enough : hs.length < fuel) : parseHeaderLines (pre ++ RawRequest.renderHeaders hs) last fuel pre.length =
        .ok (.ok (hs.map fun h => (toLower h.1, trim h.2))) := by
  induction hs generalizing pre fuel with
  | nil =>
    obtain ⟨fuel, rfl⟩ : ∃ n, fuel = n + 1 := ⟨fuel - 1, by simp at enough; omega⟩
    have two : (RawRequest.renderHeaders []).length = 2 := rfl
    unfold parseHeaderLines
    rw [if_neg (by omega)]
    rfl
  | cons h hs ih =>
    obtain ⟨fuel, rfl⟩ : ∃ n, fuel = n + 1 := ⟨fuel - 1, by simp at enough; omega⟩
    have field := fields h (List.mem_cons_self ..)
    have long := length_renderHeaders hs
    have next : (pre ++ RawRequest.headerLine h ++ crlf).length = pre.length + (RawRequest.headerLine h).length + 2 := by
      rw [List.length_append, List.length_append]
      rfl
    have length : (RawRequest.renderHeaders (h :: hs)).length =
        (RawRequest.headerLine h).length + 2 + (RawRequest.renderHeaders hs).length := by
      rw [renderHeaders_cons, List.length_append, List.length_append, ← Nat.add_assoc]
      rfl
    have others := ih (fun g mem => fields g (List.mem_cons_of_mem _ mem)) (pre ++ RawRequest.headerLine h ++ crlf) fuel
      (by omega) (by omega) (by simp at enough; omega)
    rw [next, List.append_assoc, List.append_assoc] at others
    unfold parseHeaderLines
    rw [if_pos (by omega), renderHeaders_cons]
    simp only [find_lineEnd pre (headerLine_one field), Nat.add_sub_cancel_left, substr_behind, parseHeaderLine_render field,
      others, ok_bind]
    rfl

/-- The blank line of a request is its end. -/
theorem find_blank (wf : r.WellFormed) (more : Bytes) :
    find (r.render ++ more) (crlf ++ crlf) 0 = some (r.render.length - 4) := by
  have two : crlf.length = 2 := rfl
  have long := length_renderHeaders r.headers
  rw [find_front]
  unfold RawRequest.render
  rw [List.append_assoc, List.append_assoc, firstAt_headers wf.headers (requestLine_one wf), List.length_append,
    List.length_append]
  congr 1
  omega

/-- A request is read back as it was written, whatever follows it. One that is too long is refused, and a part of one
waits for the rest. -/
theorem http_round_trip (maxHeaderBytes : Nat) (r : RawRequest) (wf : r.WellFormed) :
    (∀ more, r.render.length ≤ maxHeaderBytes →
      parseHttpRequest (r.render ++ more) maxHeaderBytes = .ok (.request r.request r.render.length)) ∧
    (∀ more, maxHeaderBytes < r.render.length →
      parseHttpRequest (r.render ++ more) maxHeaderBytes = .ok (.error (str "request header too large"))) ∧
    ∀ part, part <+: r.render → part ≠ r.render → r.render.length ≤ maxHeaderBytes →
      parseHttpRequest part maxHeaderBytes = .ok .needMore := by
  have four : 4 ≤ r.render.length := by
    have filled := length_renderHeaders r.headers
    have two : crlf.length = 2 := rfl
    unfold RawRequest.render
    rw [List.length_append, List.length_append]
    omega
  refine ⟨?_, ?_, ?_⟩
  · intro more fits
    have lines := parseHeaderLines_render wf.headers (r.requestLine ++ crlf) (r.render.length - 4)
      (r.render.length - 4 + 3) (by simp [crlf])
      (by rw [Nat.sub_add_cancel four, RawRequest.render, List.length_append])
      (by
        have filled := length_renderHeaders r.headers
        have length : r.render.length = (r.requestLine ++ crlf).length + (RawRequest.renderHeaders r.headers).length :=
          List.length_append
        omega)
    have first : find (r.render) crlf 0 = some r.requestLine.length := by
      have found := find_lineEnd [] (requestLine_one wf) (RawRequest.renderHeaders r.headers)
      rw [List.length_nil, Nat.zero_add, List.nil_append, ← List.append_assoc] at found
      exact found
    have line : substr r.render 0 r.requestLine.length = r.requestLine := by
      unfold RawRequest.render
      rw [List.append_assoc, substr_front]
    have read : parseHttpRequest r.render maxHeaderBytes = .ok (.request r.request r.render.length) := by
      have blank := find_blank wf []
      rw [List.append_nil] at blank
      have length : (r.requestLine ++ crlf).length = r.requestLine.length + 2 := List.length_append
      rw [length] at lines
      have headers : parseHeaderLines r.render (r.render.length - 4) (r.render.length - 4 + 3) (r.requestLine.length + 2) =
          .ok (.ok (r.headers.map fun h => (toLower h.1, trim h.2))) := lines
      unfold parseHttpRequest
      simp only [blank, first, line, parseRequestLine_render wf, headers, ok_bind]
      rw [if_neg (by omega), Nat.sub_add_cancel four]
      rfl
    obtain ⟨_, ran, stays⟩ := parse_append r.render more maxHeaderBytes
    rw [read] at ran
    cases ran
    exact stays HttpParse.noConfusion
  · intro more long
    unfold parseHttpRequest
    simp only [find_blank wf more]
    rw [if_pos (by omega)]
  · rintro part ⟨rest, whole⟩ strict fits
    have all := @List.length_append _ part rest
    rw [whole] at all
    unfold parseHttpRequest
    cases found : find part (crlf ++ crlf) 0 with
    | none =>
      simp only
      rw [if_neg (by omega)]
    | some i =>
      have same := find_append found (rest ++ [])
      rw [← List.append_assoc, whole, find_blank wf []] at same
      cases same
      have inside := (find_bounds found).2
      rw [show (crlf ++ crlf).length = 4 from rfl, Nat.sub_add_cancel four] at inside
      have ended : rest = [] := List.eq_nil_of_length_eq_zero (by omega)
      rw [ended, List.append_nil] at whole
      exact absurd whole strict

/-- A request with a query, and a header with spaces around its value. -/
def labRequest : RawRequest where
  method := str "GET"
  target := str "/ws?lab=1"
  version := str "HTTP/1.1"
  headers := [(str "Host", str " lab:8080 "), (str "Upgrade", str "websocket")]

theorem labRequest_wellFormed : labRequest.WellFormed where
  method := by decide
  nonempty := by decide
  target := by decide
  absolute := rfl
  version := by decide
  http := by decide
  headers := by
    have every : ∀ h ∈ labRequest.headers, OneLine h.1 ∧ OneLine h.2 ∧ h.1 ≠ [] ∧ 58 ∉ h.1 ∧
        h.1.head? ≠ some 32 ∧ h.1.head? ≠ some 9 := by decide
    exact fun h mem => match every h mem with
      | ⟨name, value, nonempty, colon, begins⟩ => ⟨name, value, nonempty, colon, begins⟩

theorem http_round_trip_lab :
    parseHttpRequest (labRequest.render ++ str "more") 62 = .ok (.request labRequest.request 62) ∧
      parseHttpRequest labRequest.render 61 = .ok (.error (str "request header too large")) ∧
      parseHttpRequest (labRequest.render.take 61) 62 = .ok .needMore := by
  obtain ⟨whole, _, part⟩ := http_round_trip 62 labRequest labRequest_wellFormed
  obtain ⟨_, long, _⟩ := http_round_trip 61 labRequest labRequest_wellFormed
  have length : labRequest.render.length = 62 := by decide
  have read := whole (str "more") (by decide)
  have refused := long [] (by decide)
  rw [length] at read
  rw [List.append_nil] at refused
  exact ⟨read, refused, part _ (List.take_prefix ..) (by decide) (by decide)⟩

end Parse

end IpcRelay.Ctl
