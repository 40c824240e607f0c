import IpcRelay.Common.JsonText
import IpcRelay.Ctl.Commands

/-!
# What the server says

A text frame is the server's account of itself, its account of the statistics,
or the reply to a message. The first two are JSON documents in every run; a reply
is one if the id of the message, where it is a number, can be printed
(`replies_are_json`).
-/

namespace IpcRelay.Ctl

open WsOpcode WsClose Machine Incremental JsonGrammar Binary64

section Texts

variable {S : ControlServer → Prop} {rs : List Reaction} {items : List Item}

/-- What holds of the accounts and of the replies holds of every text frame. -/
theorem Explained.texts {P : Bytes → Prop} (explained : Explained S rs items) (informs : ∀ p, Informs S p → P p)
    (reply : ∀ text p, text ∈ textsOf items → Replies rs text p → P p) {p : Bytes} (sent : .frame kText p ∈ rs) : P p := by
  obtain ⟨opcode, eq⟩ : ∃ opcode, opcode = kText := ⟨_, rfl⟩
  have why := explained.frames kText p sent
  rw [← eq] at why
  cases why with
  | informs h => exact informs p h
  | reply mem h => exact reply _ p mem h
  | pong => exact absurd eq (by decide)
  | fail => exact absurd eq (by decide)
  | echo => exact absurd eq (by decide)

end Texts

section Json

open JsonWriter

theorem isValue_bool (b : Bool) : IsValue (if b then str "true" else str "false") := by
  cases b with
  | false => exact .of_value fun _ => .no
  | true => exact .of_value fun _ => .yes

theorem isValue_null : IsValue (str "null") := .of_value fun _ => .null

theorem helloJson_document (s : ControlServer) : Document s.helloJson := by
  have start : InObject ({} : JsonWriter).beginObject := .empty
  exact (((((((start.field _ (isValue_escape _)).field _ (isValue_integer _)).field _ (isValue_escape _)).field _
    (isValue_integer _)).field _ (isValue_integer _)).field _ (isValue_escape _)).field _ (isValue_escape _)).document

/-- The statistics that are kept are embedded as they are. -/
theorem statsEnvelope_document {s : ControlServer} (known : s.latestStatsNs ≠ 0 → Document s.latestStats) (clock : Clock) :
    Document (s.statsEnvelope clock).2 := by
  have start : InObject ({} : JsonWriter).beginObject := .empty
  have head := fun update online => ((((start.field (str "type") (isValue_escape (str "stats"))).field (str "update")
    (isValue_integer update)).field (str "server_time_ns") (isValue_integer clock.realtimeNs.toNat)).field
    (str "receiver_online") (isValue_bool online))
  unfold ControlServer.statsEnvelope
  by_cases have_ : s.latestStatsNs ≠ 0
  · simp only [if_pos have_]
    exact ((((head _ _).field _ (isValue_integer _)).field _ (isValue_integer _)).field _
      (.of_document (known have_))).document
  · simp only [if_neg have_]
    exact ((((head _ _).field _ isValue_null).field _ (isValue_integer _)).field _ isValue_null).document

/-- The id of a message, if it is a number. -/
def numberId (text : Bytes) : Option Double :=
  match Json.parse text with
  | .ok (.ok msg) =>
    match msg.get (str "id") with
    | some (.number x) => some x
    | _ => none
  | _ => none

/-- The id of a message can be printed. -/
def PrintableId (text : Bytes) : Prop := ∀ x ∈ numberId text, Printable x

instance (text : Bytes) : Decidable (PrintableId text) := inferInstanceAs (Decidable (∀ x ∈ numberId text, Printable x))

theorem commandResult_document {id : Option Json.Value} (printable : ∀ x, id = some (.number x) → Printable x)
    (command : Bytes) (ok : Bool) (error : Bytes) : Document (commandResult id command ok error) := by
  have start : InObject ({} : JsonWriter).beginObject := .empty
  have ends : ∀ {j : JsonWriter}, InObject j → Document (((((((j.key (str "command")).string command).key
      (str "ok")).bool ok).key (str "error")).string error).endObject).out := fun h =>
    (((h.field _ (isValue_escape _)).field _ (isValue_bool ok)).field _ (isValue_escape _)).document
  have whole := fun {v : Bytes} (value : IsValue v) =>
    ends ((start.field (str "type") (isValue_escape (str "command_result"))).field (str "id") value)
  unfold commandResult
  dsimp only
  split
  next x =>
    unfold writeJsonNumber
    split
    · split
      · exact whole (isValue_integer _)
      · exact whole (isValue_double (printable x rfl))
    · exact whole (isValue_double (printable x rfl))
  next => exact whole (isValue_escape _)
  next => exact whole isValue_null

/-- The reply has the id of the message, whatever else is wrong with it. -/
theorem readRequest_id {msg : Json.Value} (object : msg.isObject) :
    (readRequest (.ok msg)).id = msg.get (str "id") := by
  unfold readRequest
  simp only [object, Bool.not_true, Bool.false_eq_true, if_false]
  split
  · split
    · split <;> rfl
    · rfl
  · rfl

theorem replies_document {rs : List Reaction} {text p : Bytes} (printable : PrintableId text)
    (replies : Replies rs text p) : Document p := by
  obtain ⟨r, ok, error, parsed, rfl, -⟩ := replies
  refine commandResult_document ?_ _ ok error
  intro x eq
  cases r with
  | error e => cases eq
  | ok msg =>
    have object : msg.isObject := by
      by_contra other
      rw [readRequest, if_pos (by simpa using other)] at eq
      cases eq
    rw [readRequest_id object] at eq
    apply printable
    rw [numberId, parsed]
    simp only [eq]
    rfl

/-- In every run, everything that a connection is sent as JSON is a JSON document, if the numbers that its messages
have as ids can be printed. -/
theorem replies_are_json (build : CtlBuild) (cfg : ControlServerConfig) (nextUpdateNs : UInt64)
    (es : List ServerEvent) : ∃ w os, run ControlWorld.step (.start build cfg nextUpdateNs) es = .ok (w, os) ∧
      ∀ fd, let rs := ofConnection fd os.flatten
        (∀ text ∈ textsOf (itemsOf (received rs)), PrintableId text) →
        (∀ p, .frame kText p ∈ rs → Document p) ∧ ∀ body head, .api body head ∈ rs → Document body := by
  obtain ⟨w, os, ran⟩ := control_total build cfg nextUpdateNs es
  have history := control_run (T := Document) (G := fun _ => True) ran ?_ fun _ _ _ _ _ _ _ _ _ _ => trivial
  · refine ⟨w, os, ran, fun fd => ?_⟩
    obtain ⟨c, _, ended⟩ := history.all fd
    obtain ⟨phase, rest, items, drains, explained⟩ := ended.session (keeps_steady build cfg Document)
    intro rs printable
    rw [itemsOf_eq drains] at printable
    refine ⟨fun p sent => explained.texts ?_ ?_ sent, fun body head sent => ?_⟩
    · intro p ⟨s, hs, eq⟩
      rcases eq with eq | ⟨clock, eq⟩
      · rw [eq]
        exact helloJson_document s
      · rw [eq]
        exact statsEnvelope_document hs.stats clock
    · exact fun text p mem => replies_document (printable text mem)
    · obtain ⟨s, clock, hs, eq⟩ := explained.api body head sent
      rw [eq]
      exact statsEnvelope_document hs.stats clock
  · rintro e - text - ⟨v, parsed, -⟩
    obtain ⟨r, parsed', documents⟩ := Json.parse_sound text 64
    cases parsed.symm.trans parsed'
    exact documents v rfl

/-- A client opens a WebSocket and sends a message. -/
def labTalk (text : String) : List ServerEvent := [labAccept, labReceive labUpgrade, labReceive (labFrame kText (str text))]

/-- A message with an id. -/
def labId (id : String) : List ServerEvent := labTalk ("\x7b\"id\":" ++ id ++ "\x7d")

theorem replies_are_json_lab : ∃ w os, run ControlWorld.step (.start labServer.build {} 1) (labId "0.5") = .ok (w, os) ∧
    (∀ p, .frame kText p ∈ ofConnection 0 os.flatten → Document p) ∧
    ∀ body head, .api body head ∈ ofConnection 0 os.flatten → Document body := by
  obtain ⟨w, os, ran, all⟩ := replies_are_json labServer.build {} 1 (labId "0.5")
  refine ⟨w, os, ran, all 0 ?_⟩
  have printable : ((run ControlWorld.step (.start labServer.build {} 1) (labId "0.5")).toOption.map
      fun r : ControlWorld × List (List (Nat × Reaction)) =>
        decide (∀ text ∈ textsOf (itemsOf (received (ofConnection 0 r.2.flatten))), PrintableId text)) = some true := by
    decide +kernel
  rw [ran] at printable
  simpa [Except.toOption] using printable

/-- A text message that passes a test. -/
def Reaction.isText (test : Bytes → Bool) : Reaction → Bool
  | .frame opcode p => opcode = kText && test p
  | _ => false

theorem Reaction.isText_iff {test : Bytes → Bool} {r : Reaction} :
    r.isText test = true ↔ ∃ p, r = .frame kText p ∧ test p = true := by
  cases r with
  | frame opcode p => simp [isText]
  | _ => simp [isText]

/-- It is false without the condition: the id `1e999` comes back as `inf`. -/
theorem reply_no_json : ¬ ∀ (build : CtlBuild) (cfg : ControlServerConfig) (nextUpdateNs : UInt64) (es : List ServerEvent)
    (w : ControlWorld) (os : List (List (Nat × Reaction))),
    run ControlWorld.step (.start build cfg nextUpdateNs) es = .ok (w, os) →
      ∀ fd p, .frame kText p ∈ ofConnection fd os.flatten → Document p := by
  intro always
  obtain ⟨w, os, ran⟩ := control_total labServer.build {} 1 (labId "1e999")
  have letters : ((run ControlWorld.step (.start labServer.build {} 1) (labId "1e999")).toOption.map fun r =>
      (ofConnection 0 r.2.flatten).any (Reaction.isText fun p => (outside false p).any fun b => !bare b)) = some true := by
    decide +kernel
  rw [ran] at letters
  simp only [Except.toOption, Option.map_some, Option.some.injEq, List.any_eq_true] at letters
  obtain ⟨r, mem, bad⟩ := letters
  obtain ⟨p, rfl, found⟩ := Reaction.isText_iff.1 bad
  obtain ⟨b, there, letter⟩ := List.any_eq_true.1 found
  have ok := (always labServer.build {} 1 _ w os ran 0 p mem).bare_outside b there
  rw [ok] at letter
  cases letter

end Json

end IpcRelay.Ctl
