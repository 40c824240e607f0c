import IpcRelay.Ctl.JsonEncoding
import IpcRelay.Ctl.Replies

/-!
# The encoding of what the server says

Neither a message nor a publication is checked for UTF-8. A text frame is UTF-8
if what it quotes is: the configuration, the publication that is kept, the
strings of the message that a reply repeats, and the error of the command
socket (`texts_are_utf8`). What a UTF-8 message has repeated is UTF-8
(`echoed_utf8`).
-/

namespace IpcRelay.Ctl

open WsOpcode Machine JsonWriter Json Binary64

section Accounts

variable {s : ControlServer}

theorem helloJson_utf8 (version : Utf8 s.build.version) (stats : Utf8 s.cfg.statsEndpoint)
    (command : Utf8 s.cfg.commandEndpoint) : Utf8 s.helloJson := by
  have head := ((encoded_start.string (k := "type") (.of_ascii (ascii_str (s := "hello")))).integer kProtocolVersion
    (k := "protocol_version")).string (k := "tool_version") version
  have times := (head.integer s.cfg.updateIntervalMs (k := "update_interval_ms")).integer s.cfg.staleAfterMs
    (k := "stale_after_ms")
  exact ((times.string (k := "stats_endpoint") stats).string (k := "command_endpoint") command).text

/-- The publication is embedded as it is. -/
theorem statsEnvelope_utf8 (known : s.latestStatsNs ≠ 0 → Utf8 s.latestStats) (clock : Clock) :
    Utf8 (s.statsEnvelope clock).2 := by
  have head := fun update online => (((encoded_start.string (k := "type") (.of_ascii (ascii_str (s := "stats")))).integer
    update (k := "update")).integer clock.realtimeNs.toNat (k := "server_time_ns")).bool online (k := "receiver_online")
  unfold ControlServer.statsEnvelope
  by_cases have_ : s.latestStatsNs ≠ 0
  · simp only [if_pos have_]
    exact ((((head _ _).integer _ (k := "stats_age_ms")).integer _ (k := "stats_received")).field (k := "stats")
      (known have_)).text
  · simp only [if_neg have_]
    exact ((((head _ _).null (k := "stats_age_ms")).integer _ (k := "stats_received")).null (k := "stats")).text

end Accounts

section Replies

/-- The strings of a message that its reply repeats: its id and its type. -/
def echoed (text : Bytes) : List Bytes :=
  match Json.parse text with
  | .ok (.ok msg) => (msg.get (str "id")).toList.flatMap Value.texts ++ (msg.get (str "type")).toList.flatMap Value.texts
  | _ => []

/-- A UTF-8 message has only UTF-8 repeated. -/
theorem echoed_utf8 {text : Bytes} (valid : Utf8 text) : ∀ t ∈ echoed text, Utf8 t := by
  unfold echoed
  split
  next msg parsed =>
    have encoded := parse_encoded parsed valid
    have one (key : Bytes) : ∀ t ∈ (msg.get key).toList.flatMap Value.texts, Utf8 t := by
      intro t mem
      obtain ⟨v, there, eq⟩ := List.mem_flatMap.1 mem
      cases msg with
      | object members =>
        rw [Option.mem_toList, Value.get, Option.map_eq_some_iff] at there
        obtain ⟨m, found, rfl⟩ := there
        exact encoded m (List.mem_of_find?_eq_some found) t eq
      | _ => cases there
    intro t mem
    rcases List.mem_append.1 mem with mem | mem
    · exact one _ t mem
    · exact one _ t mem
  next => exact fun t mem => by cases mem

example : echoed (str "\x7b\"id\":\"a\",\"type\":\"b\"\x7d") = [str "a", str "b"] := by decide +kernel

theorem commandResult_utf8 {id : Option Json.Value} {command error : Bytes} (repeats : ∀ t, id = some (.string t) → Utf8 t)
    (commands : Utf8 command) (reports : Utf8 error) (ok : Bool) : Utf8 (commandResult id command ok error) := by
  have start := encoded_start.string (k := "type") (.of_ascii (ascii_str (s := "command_result")))
  have ends : ∀ {j : JsonWriter}, j.Encoded → Utf8 (((((((j.key (str "command")).string command).key
      (str "ok")).bool ok).key (str "error")).string error).endObject).out := fun h =>
    (((h.string (k := "command") commands).bool ok (k := "ok")).string (k := "error") reports).text
  unfold commandResult
  dsimp only
  split
  next x =>
    unfold writeJsonNumber
    split
    · split
      · exact ends (start.integer _ (k := "id"))
      · exact ends (start.double _ (k := "id"))
    · exact ends (start.double _ (k := "id"))
  next t => exact ends (start.string (k := "id") (repeats t rfl))
  next => exact ends (start.null (k := "id"))

/-- What is found in a message is UTF-8 if what is repeated is. -/
theorem readRequest_utf8 {text : Bytes} {r : Except Bytes Json.Value} (parsed : Json.parse text = .ok r)
    (echoes : ∀ t ∈ echoed text, Utf8 t) :
    (∀ t, (readRequest r).id = some (.string t) → Utf8 t) ∧ Utf8 (readRequest r).command ∧ Utf8 (readRequest r).error := by
  cases r with
  | error e =>
    refine ⟨by simp [readRequest], .nil, ?_⟩
    exact (Utf8.of_ascii ascii_str).append (.of_ascii (parse_error_ascii parsed))
  | ok msg =>
    rw [echoed, parsed] at echoes
    have ids : ∀ t, msg.get (str "id") = some (.string t) → Utf8 t := by
      intro t eq
      apply echoes
      simp [eq, Value.texts]
    unfold readRequest
    dsimp only
    split
    · exact ⟨by simp, .nil, .of_ascii ascii_str⟩
    split
    next type eq =>
      split
      · split
        next enabled _ =>
          refine ⟨ids, ?_, .nil⟩
          cases enabled with
          | false => exact .of_ascii ascii_str
          | true => exact .of_ascii ascii_str
        next => exact ⟨ids, .nil, .of_ascii ascii_str⟩
      · have valid : Utf8 type := by
          apply echoes
          simp [eq, Value.texts]
        exact ⟨ids, .nil, ((Utf8.of_ascii ascii_str).append valid).append (.of_ascii ascii_str)⟩
    next => exact ⟨ids, .nil, .of_ascii ascii_str⟩

theorem replies_utf8 {rs : List Reaction} {text p : Bytes} (echoes : ∀ t ∈ echoed text, Utf8 t)
    (errors : ∀ command frames error, .command command frames (some error) ∈ rs → Utf8 error)
    (replies : Replies rs text p) : Utf8 p := by
  obtain ⟨r, ok, error, parsed, rfl, why⟩ := replies
  obtain ⟨ids, command, reports⟩ := readRequest_utf8 parsed echoes
  refine commandResult_utf8 ids command ?_ ok
  rcases why with eq | ⟨command, frames, sent⟩
  · rw [eq]
    exact reports
  · exact errors command frames error sent

/-- In every run, every text frame is UTF-8 if what it quotes is. -/
theorem texts_are_utf8 (build : CtlBuild) (cfg : ControlServerConfig) (nextUpdateNs : UInt64) (es : List ServerEvent)
    (version : Utf8 build.version) (stats : Utf8 cfg.statsEndpoint) (command : Utf8 cfg.commandEndpoint)
    (offers : ∀ e ∈ es, ∀ text ∈ e.offers, Acceptable text → Utf8 text) :
    ∃ w os, run ControlWorld.step (.start build cfg nextUpdateNs) es = .ok (w, os) ∧
      ∀ fd, let rs := ofConnection fd os.flatten
        (∀ command frames error, .command command frames (some error) ∈ rs → Utf8 error) →
        (∀ text ∈ textsOf (itemsOf (received rs)), ∀ t ∈ echoed text, Utf8 t) →
        ∀ p, .frame kText p ∈ rs → Utf8 p := by
  obtain ⟨w, os, ran⟩ := control_total build cfg nextUpdateNs es
  have history := control_run (T := Utf8) (G := fun _ => True) ran offers fun _ _ _ _ _ _ _ _ _ _ => trivial
  refine ⟨w, os, ran, fun fd => ?_⟩
  obtain ⟨c, _, ended⟩ := history.all fd
  obtain ⟨phase, rest, items, drains, explained⟩ := ended.session (keeps_steady build cfg Utf8)
  intro rs errors echoes p sent
  rw [itemsOf_eq drains] at echoes
  refine explained.texts ?_ ?_ sent
  · intro p ⟨s, hs, eq⟩
    rcases eq with eq | ⟨clock, eq⟩
    · rw [eq]
      apply helloJson_utf8
      · rwa [hs.build]
      · rwa [hs.cfg]
      · rwa [hs.cfg]
    · rw [eq]
      exact statsEnvelope_utf8 hs.stats clock
  · exact fun text p mem => replies_utf8 (echoes text mem) errors

/-- A message whose id has an accent, and statistics with another one. -/
def labAccent : Bytes := str "\x7b\"id\":\"\xc3\xa9\"\x7d"

def labUmlaut : Bytes := str "\x7b\"load\":\"\xc3\xbc\"\x7d"

theorem labTexts_utf8 : Utf8 labAccent ∧ Utf8 labUmlaut :=
  ⟨⟨"\x7b\"id\":\"é\"\x7d".toList, by decide⟩, "\x7b\"load\":\"ü\"\x7d".toList, by decide⟩

def labQuoted : List ServerEvent := [labAccept, labReceive labUpgrade,
  .round { poll := .ready { stats := some [.frames labUmlaut [] { monotonicNs := 7 }] } },
  .round { poll := .timeout, clock := { monotonicNs := 8 } }, labReceive (labFrame kText labAccent)]

/-- The update and the reply are UTF-8, with the statistics and the id in them. -/
theorem texts_are_utf8_lab : ∃ w os, run ControlWorld.step (.start labServer.build {} 1) labQuoted = .ok (w, os) ∧
    (∀ p, .frame kText p ∈ ofConnection 0 os.flatten → Utf8 p) ∧
    (∃ p, .frame kText p ∈ ofConnection 0 os.flatten ∧ 0xBC ∈ p) ∧
    ∃ p, .frame kText p ∈ ofConnection 0 os.flatten ∧ 0xA9 ∈ p := by
  have offers : ∀ e ∈ labQuoted, ∀ text ∈ e.offers, Acceptable text → Utf8 text := by
    intro e mem text offered _
    simp only [labQuoted, List.mem_cons, List.not_mem_nil, or_false] at mem
    rcases mem with rfl | rfl | rfl | rfl | rfl
    · cases offered
    · cases offered
    · rw [List.mem_singleton.1 (show text ∈ [labUmlaut] from offered)]
      exact labTexts_utf8.2
    · cases offered
    · cases offered
  obtain ⟨w, os, ran, all⟩ := texts_are_utf8 labServer.build {} 1 labQuoted (.of_ascii ascii_str)
    (.of_ascii ascii_str) (.of_ascii ascii_str) offers
  have said : ((run ControlWorld.step (.start labServer.build {} 1) labQuoted).toOption.map fun r =>
      (textsOf (itemsOf (received (ofConnection 0 r.2.flatten))), commandsOf (ofConnection 0 r.2.flatten),
        (ofConnection 0 r.2.flatten).any (Reaction.isText fun p => decide ((0xBC : UInt8) ∈ p)),
        (ofConnection 0 r.2.flatten).any (Reaction.isText fun p => decide ((0xA9 : UInt8) ∈ p)))) =
        some ([labAccent], [], true, true) := by
    decide +kernel
  rw [ran] at said
  simp only [Except.toOption, Option.map_some, Option.some.injEq, Prod.mk.injEq, List.any_eq_true] at said
  obtain ⟨texts, commands, ⟨r, sent, quotes⟩, r', sent', quotes'⟩ := said
  obtain ⟨p, rfl, there⟩ := Reaction.isText_iff.1 quotes
  obtain ⟨q, rfl, there'⟩ := Reaction.isText_iff.1 quotes'
  refine ⟨w, os, ran, all 0 ?_ ?_, ⟨p, sent, of_decide_eq_true there⟩, q, sent', of_decide_eq_true there'⟩
  · intro command frames error sent
    have listed : command ∈ commandsOf (ofConnection 0 os.flatten) := List.mem_filterMap.2 ⟨_, sent, rfl⟩
    rw [commands] at listed
    cases listed
  · intro text mem
    rw [texts, List.mem_singleton] at mem
    rw [mem]
    exact echoed_utf8 labTexts_utf8.1

/-- It is false without the conditions: a byte of the id that is in no UTF-8 text comes back. -/
theorem reply_no_utf8 : ¬ ∀ (build : CtlBuild) (cfg : ControlServerConfig) (nextUpdateNs : UInt64) (es : List ServerEvent)
    (w : ControlWorld) (os : List (List (Nat × Reaction))),
    Utf8 build.version → Utf8 cfg.statsEndpoint → Utf8 cfg.commandEndpoint → Utf8 cfg.commandTopic → Utf8 cfg.webRoot →
    run ControlWorld.step (.start build cfg nextUpdateNs) es = .ok (w, os) →
      ∀ fd p, .frame kText p ∈ ofConnection fd os.flatten → Utf8 p := by
  intro always
  obtain ⟨w, os, ran⟩ := control_total labServer.build {} 1 (labId "\"\xff\"")
  have bytes : ((run ControlWorld.step (.start labServer.build {} 1) (labId "\"\xff\"")).toOption.map fun r =>
      (ofConnection 0 r.2.flatten).any (Reaction.isText fun p => decide ((0xFF : UInt8) ∈ p))) = some true := by
    decide +kernel
  rw [ran] at bytes
  simp only [Except.toOption, Option.map_some, Option.some.injEq, List.any_eq_true] at bytes
  obtain ⟨r, mem, bad⟩ := bytes
  obtain ⟨p, rfl, there⟩ := Reaction.isText_iff.1 bad
  have valid := always labServer.build {} 1 _ w os (.of_ascii ascii_str) (.of_ascii ascii_str) (.of_ascii ascii_str)
    .nil .nil ran 0 p mem
  exact absurd (valid.byte_lt 0xFF (of_decide_eq_true there)) (by decide)

end Replies

end IpcRelay.Ctl
