import IpcRelay.Common.Config
import IpcRelay.Lib.Machine
import IpcRelay.Lib.Occurrence

/-!
# HTTP requests and responses (`tools/ctl/backend/http.cpp`)

`parseHttpRequest` looks at the buffer through `find`, as the program does, and
may fault where that would leave the buffer. It never does (`parse_total`), and
an answer other than "need more" does not change when more bytes come
(`parse_append`).
-/

namespace IpcRelay

open Occurrence

/-- `std::string::find`. -/
def find (s pat : Bytes) (pos : Nat) : Option Nat :=
  if pos ≤ s.length then (firstAt pat (s.drop pos)).map (pos + ·) else none

/-- `std::string::substr`. -/
def substr (s : Bytes) (pos n : Nat) : Bytes := (s.drop pos).take n

namespace Ctl

structure HttpRequest where
  method : Bytes := []
  /-- The request target as it was sent. -/
  target : Bytes := []
  /-- The target without the query. -/
  path : Bytes := []
  version : Bytes := []
  /-- With their names in lower case. -/
  headers : List (Bytes × Bytes) := []
  deriving DecidableEq, Repr

namespace HttpRequest

/-- `header`: the value of the first header of the name. -/
def header (req : HttpRequest) (name : Bytes) : Bytes :=
  ((req.headers.find? fun h => h.1 = name).map Prod.snd).getD []

def hasHeader (req : HttpRequest) (name : Bytes) : Bool := req.headers.any fun h => h.1 = name

end HttpRequest

/-- The outcome of `parse_http_request` with what it returns. -/
inductive HttpParse where
  | needMore
  | request (req : HttpRequest) (consumed : Nat)
  | error (text : Bytes)
  deriving DecidableEq, Repr

def crlf : Bytes := [13, 10]

/-- The request line, split at its two spaces. -/
def parseRequestLine (line : Bytes) : Option HttpRequest :=
  match find line (str " ") 0 with
  | none => none
  | some sp1 =>
    match find line (str " ") (sp1 + 1) with
    | none => none
    | some sp2 =>
      if (find line (str " ") (sp2 + 1)).isSome then none
      else
        let method := substr line 0 sp1
        let target := substr line (sp1 + 1) (sp2 - sp1 - 1)
        let version := line.drop (sp2 + 1)
        if method = [] ∨ target = [] ∨ target.head? ≠ some 47 ∨ ¬ str "HTTP/1." <+: version then none
        else
          let path := match find target (str "?") 0 with
            | some q => target.take q
            | none => target
          some { method := method, target := target, path := path, version := version }

/-- A header line: its name in lower case and its value without the spaces around it. -/
def parseHeaderLine (line : Bytes) : Option (Bytes × Bytes) :=
  match find line (str ":") 0 with
  | none => none
  | some colon =>
    if colon = 0 ∨ line.head? = some 32 ∨ line.head? = some 9 then none
    else some (toLower (line.take colon), trim (line.drop (colon + 1)))

/-- The loop over the header lines, from `pos` up to the blank line that ends at `last + 4`. -/
def parseHeaderLines (buf : Bytes) (last : Nat) : Nat → Nat → Exec (Except Bytes (List (Bytes × Bytes)))
  | 0, _ => .error .diverges
  | fuel + 1, pos =>
    if pos < last + 2 then
      match find buf crlf pos with
      | none => .error .outOfRange
      | some lineEnd =>
        match parseHeaderLine (substr buf pos (lineEnd - pos)) with
        | none => .ok (.error (str "malformed header line"))
        | some h => do
          match ← parseHeaderLines buf last fuel (lineEnd + 2) with
          | .error e => .ok (.error e)
          | .ok hs => .ok (.ok (h :: hs))
    else .ok (.ok [])

/-- `parse_http_request`. -/
def parseHttpRequest (buf : Bytes) (maxHeaderBytes : Nat) : Exec HttpParse :=
  match find buf (crlf ++ crlf) 0 with
  | none => .ok (if buf.length > maxHeaderBytes then .error (str "request header too large") else .needMore)
  | some last =>
    if last + 4 > maxHeaderBytes then .ok (.error (str "request header too large"))
    else
      match find buf crlf 0 with
      | none => .error .outOfRange
      | some lineEnd =>
        match parseRequestLine (substr buf 0 lineEnd) with
        | none => .ok (.error (str "malformed request line"))
        | some req => do
          match ← parseHeaderLines buf last (last + 3) (lineEnd + 2) with
          | .error e => .ok (.error e)
          | .ok hs => .ok (.request { req with headers := hs } (last + 4))

/-- The loop of `header_has_token` over the elements of a comma-separated value; `acc` is the
element up to here. -/
def hasToken (want acc : Bytes) : Bytes → Bool
  | [] => toLower (trim acc) = want
  | b :: rest => if b = 44 then toLower (trim acc) = want || hasToken want [] rest else hasToken want (acc ++ [b]) rest

/-- `header_has_token`. -/
def headerHasToken (value token : Bytes) : Bool := hasToken (toLower token) [] value

def httpReason (status : Nat) : Bytes :=
  match status with
  | 101 => str "Switching Protocols"
  | 200 => str "OK"
  | 400 => str "Bad Request"
  | 403 => str "Forbidden"
  | 404 => str "Not Found"
  | 405 => str "Method Not Allowed"
  | 426 => str "Upgrade Required"
  | 431 => str "Request Header Fields Too Large"
  | 500 => str "Internal Server Error"
  | 503 => str "Service Unavailable"
  | _ => str "Unknown"

/-- `http_response`. -/
def httpResponse (status : Nat) (contentType body : Bytes) (headOnly : Bool) (extraHeaders : List (Bytes × Bytes)) :
    Bytes :=
  str "HTTP/1.1 " ++ numText status ++ str " " ++ httpReason status ++ crlf ++
    (if contentType ≠ [] then str "Content-Type: " ++ contentType ++ crlf else []) ++
    str "Content-Length: " ++ numText body.length ++ crlf ++
    str "Cache-Control: no-store" ++ crlf ++
    str "X-Content-Type-Options: nosniff" ++ crlf ++
    (extraHeaders.flatMap fun h => h.1 ++ str ": " ++ h.2 ++ crlf) ++
    str "Connection: close" ++ crlf ++ crlf ++
    if headOnly then [] else body

section Find

variable {s pat : Bytes} {pos i : Nat}

theorem find_append (h : find s pat pos = some i) (more : Bytes) : find (s ++ more) pat pos = some i := by
  unfold find at h ⊢
  split at h
  next le =>
    obtain ⟨k, hk, rfl⟩ := Option.map_eq_some_iff.1 h
    rw [if_pos (by simp; omega), List.drop_append_of_le_length le, firstAt_append hk]
    rfl
  next => cases h

theorem find_bounds (h : find s pat pos = some i) : pos ≤ i ∧ i + pat.length ≤ s.length := by
  unfold find at h
  split at h
  next le =>
    obtain ⟨k, hk, rfl⟩ := Option.map_eq_some_iff.1 h
    have := firstAt_end hk
    rw [List.length_drop] at this
    omega
  next => cases h

/-- What stands somewhere from `pos` on is found there or before. -/
theorem find_le {j : Nat} (after : pos ≤ j) (at_j : pat <+: s.drop j) (le : j ≤ s.length) :
    ∃ i ≤ j, find s pat pos = some i := by
  have rel : pat <+: (s.drop pos).drop (j - pos) := by
    rw [List.drop_drop, Nat.add_sub_cancel' after]
    exact at_j
  obtain ⟨k, hk, found⟩ := firstAt_le rel (by rw [List.length_drop]; omega)
  refine ⟨pos + k, by omega, ?_⟩
  rw [find, if_pos (by omega), found]
  rfl

theorem find_spec (h : find s pat pos = some i) : pat <+: s.drop i := by
  unfold find at h
  split at h
  next le =>
    obtain ⟨k, hk, rfl⟩ := Option.map_eq_some_iff.1 h
    have found := (firstAt_eq_some.1 hk).1
    rw [List.drop_drop] at found
    exact found
  next => cases h

end Find

section Parse

variable {buf : Bytes} {maxHeaderBytes last : Nat}

/-- A line that begins before the blank line ends before it or with it. -/
theorem lineEnd_le (h : find buf (crlf ++ crlf) 0 = some last) {pos : Nat} (le : pos ≤ last) :
    ∃ lineEnd, find buf crlf pos = some lineEnd ∧ pos ≤ lineEnd ∧ (lineEnd + 2 ≤ last ∨ lineEnd + 2 = last + 2) := by
  have blank := find_spec h
  have fits := (find_bounds h).2
  have len : (crlf ++ crlf).length = 4 := rfl
  obtain ⟨lineEnd, before, found⟩ := find_le le ((List.prefix_append crlf crlf).trans blank) (by omega)
  refine ⟨lineEnd, found, (find_bounds found).1, ?_⟩
  by_contra between
  -- the only place left is one byte before the blank line, where its first byte would be the second one of `crlf`
  have at_pred : lineEnd + 1 = last := by omega
  obtain ⟨t, ht⟩ := find_spec found
  obtain ⟨u, hu⟩ := blank
  have one : buf.drop last = (buf.drop lineEnd).drop 1 := by
    rw [List.drop_drop, at_pred]
  rw [← hu, ← ht] at one
  simp [crlf] at one

theorem parseHeaderLines_append (h : find buf (crlf ++ crlf) 0 = some last) (more : Bytes) (fuel : Nat) :
    ∀ pos, pos ≤ last ∨ pos = last + 2 → last + 3 ≤ fuel + pos →
      ∃ r, parseHeaderLines buf last fuel pos = .ok r ∧ parseHeaderLines (buf ++ more) last fuel pos = .ok r := by
  induction fuel with
  | zero => omega
  | succ fuel ih =>
    intro pos here enough
    rw [parseHeaderLines, parseHeaderLines]
    split
    next inside =>
      obtain ⟨lineEnd, found, le, next⟩ := lineEnd_le h (show pos ≤ last by omega)
      have fits := (find_bounds found).2
      have same : substr (buf ++ more) pos (lineEnd - pos) = substr buf pos (lineEnd - pos) := by
        have size : crlf.length = 2 := rfl
        unfold substr
        rw [List.drop_append_of_le_length (by omega), List.take_append_of_le_length (by rw [List.length_drop]; omega)]
      simp only [found, find_append found more, same]
      cases parseHeaderLine (substr buf pos (lineEnd - pos)) with
      | none => exact ⟨_, rfl, rfl⟩
      | some header =>
        obtain ⟨r, ran, ran'⟩ := ih (lineEnd + 2) next (by omega)
        simp only [ran, ran', bind, Except.bind]
        cases r with
        | error e => exact ⟨_, rfl, rfl⟩
        | ok hs => exact ⟨_, rfl, rfl⟩
    next => exact ⟨_, rfl, rfl⟩

/-- The parser stays within the bytes it was given, and more bytes change its answer only if it asked for them. -/
theorem parse_append (buf more : Bytes) (maxHeaderBytes : Nat) : ∃ r, parseHttpRequest buf maxHeaderBytes = .ok r ∧
    (r ≠ .needMore → parseHttpRequest (buf ++ more) maxHeaderBytes = .ok r) := by
  unfold parseHttpRequest
  cases h : find buf (crlf ++ crlf) 0 with
  | none =>
    refine ⟨_, rfl, ?_⟩
    intro answer
    have large : buf.length > maxHeaderBytes := by
      by_contra small
      exact answer (if_neg small)
    rw [if_pos large]
    cases h' : find (buf ++ more) (crlf ++ crlf) 0 with
    | none =>
      have larger : (buf ++ more).length > maxHeaderBytes := by
        rw [List.length_append]
        omega
      rw [if_pos larger]
    | some last =>
      -- the blank line was not there before, so it ends behind the bytes that were too many
      have beyond : buf.length < last + 4 := by
        by_contra inside
        have at_last : crlf ++ crlf <+: buf.drop last := by
          have found := find_spec h'
          rw [List.drop_append_of_le_length (by omega)] at found
          apply List.prefix_of_prefix_length_le found (List.prefix_append _ _)
          rw [List.length_drop]
          show 4 ≤ _
          omega
        obtain ⟨i, _, found⟩ := find_le (Nat.zero_le last) at_last (by omega)
        rw [h] at found
        cases found
      simp only
      rw [if_pos (by omega)]
  | some last =>
    simp only [find_append h more]
    split
    · exact ⟨_, rfl, fun _ => rfl⟩
    · obtain ⟨lineEnd, found, _, next⟩ := lineEnd_le h (Nat.zero_le last)
      have fits := (find_bounds found).2
      have same : substr (buf ++ more) 0 lineEnd = substr buf 0 lineEnd := by
        have size : crlf.length = 2 := rfl
        unfold substr
        rw [List.drop_zero, List.drop_zero, List.take_append_of_le_length (by omega)]
      simp only [found, find_append found more, same]
      cases parseRequestLine (substr buf 0 lineEnd) with
      | none => exact ⟨_, rfl, fun _ => rfl⟩
      | some req =>
        obtain ⟨r, ran, ran'⟩ := parseHeaderLines_append h more (last + 3) (lineEnd + 2) next (by omega)
        simp only [ran, ran', bind, Except.bind]
        cases r with
        | error e => exact ⟨_, rfl, fun _ => rfl⟩
        | ok hs => exact ⟨_, rfl, fun _ => rfl⟩

theorem parse_total (buf : Bytes) (maxHeaderBytes : Nat) : ∃ r, parseHttpRequest buf maxHeaderBytes = .ok r := by
  obtain ⟨r, ran, _⟩ := parse_append buf [] maxHeaderBytes
  exact ⟨r, ran⟩

/-- A request is taken from the bytes that are there. -/
theorem consumed_bounds {req : HttpRequest} {consumed : Nat}
    (h : parseHttpRequest buf maxHeaderBytes = .ok (.request req consumed)) : 4 ≤ consumed ∧ consumed ≤ buf.length := by
  unfold parseHttpRequest at h
  split at h
  · split at h <;> cases h
  next last found =>
    have fits := (find_bounds found).2
    have size : (crlf ++ crlf).length = 4 := rfl
    split at h
    · cases h
    · split at h
      · cases h
      · split at h
        · cases h
        · obtain ⟨r, _, h⟩ := Machine.bind_ok.1 h
          cases r with
          | error e => cases h
          | ok hs =>
            cases h
            constructor <;> omega

end Parse

end Ctl

end IpcRelay
