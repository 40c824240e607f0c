import IpcRelay.Ctl.JsonTree
import IpcRelay.Ctl.ScriptValue
import IpcRelay.Lib.Machine
import IpcRelay.Lib.Script

/-!
# The page (`tools/ctl/frontend/app.js`)

`Page` is what the script keeps and what it shows of it; `render` and the handlers
change it. They may throw, and leave the page as it is then: what a message says is
not checked before it is shown. `Browser` adds what the browser knows of the socket
and of the timers of `setTimeout`, and `step` is one event that it calls the script
for. Events that it would not call it for, such as a click on a disabled button, do
nothing.
-/

namespace IpcRelay.Ctl

open Binary64 Machine

namespace Frontend

open Json (Value)

section Parsing

/-- The grammar of the backend, without its limit on the depth. -/
def backendParse (text : Bytes) : Option Value :=
  match Json.parse text text.length with
  | .ok (.ok v) => some v
  | _ => none

/-- The code unit of an escape, behind its `\u`. -/
def codeUnit (s : Bytes) : Option Nat :=
  match Json.hex4 s 0 with
  | .ok (unit, _) => some unit
  | .error _ => none

/-- How an escape is written, behind its `\u`: one of a lone surrogate as the bytes of its code point. With the rest. -/
def spelled (s : Bytes) : Bytes × Bytes :=
  match codeUnit s with
  | none => ([92, 117], s)
  | some unit =>
    let second := if (s.drop 4).take 2 = [92, 117] then codeUnit (s.drop 6) else none
    if unit < 0xD800 ∨ 0xDFFF < unit then ([92, 117] ++ s.take 4, s.drop 4)
    else if unit ≤ 0xDBFF ∧ second.any fun low => 0xDC00 ≤ low ∧ low ≤ 0xDFFF then ([92, 117] ++ s.take 10, s.drop 10)
    else (Json.appendUtf8 unit, s.drop 4)

/-- A text without escapes of lone surrogates. -/
def loosen : Nat → Bytes → Bytes
  | fuel + 1, 92 :: 117 :: s => (spelled s).1 ++ loosen fuel (spelled s).2
  | fuel + 1, 92 :: c :: s => 92 :: c :: loosen fuel s
  | fuel + 1, c :: s => c :: loosen fuel s
  | _, s => s

/-- `JSON.parse` takes what the backend does, and escapes of lone surrogates. -/
def jsonParse (text : Bytes) : Option Value := (backendParse text).or (backendParse (loosen text.length text))

example : loosen 18 (str "\\ud83d\\ude00\\ude00") = str "\\ud83d\\ude00" ++ [0xED, 0xB8, 0x80] := by decide +kernel

end Parsing

/-- The milliseconds that `Date.now` can tell. -/
abbrev Time := Fin (8640000000000000 + 1)

instance {n : Nat} : OfNat Time n := ⟨Fin.ofNat _ n⟩

/-- The text `…`. -/
def ellipsis : Bytes := [0xE2, 0x80, 0xA6]

structure Pending where
  enabled : Bool
  /-- In milliseconds; `none`, for NaN, is never over. -/
  deadline : Option Double

/-- A text and its `data-state`. -/
abbrev Pill := Bytes × Bytes

/-- What the page shows, without the numbers. -/
structure Document where
  linkPill : Pill := ([], [])
  receiverPill : Pill := ([], [])
  recordingPill : Pill := ([], [])
  /-- `btn.dataset.action`. -/
  action : Bytes := []
  recordLabel : Bytes := []
  disabled : Bool := false
  alert : List Bytes := []
  captureFile : Bytes := []
  /-- The children of `#sources`, by the source that each shows. -/
  sources : List Bytes := []

/-- `state`, with `sourceItems` in the order of the map and the document. -/
structure Page where
  ws : Bool := false
  isOpen : Bool := false
  reconnectDelay : Nat := 500
  hello : Option Value := none
  envelope : Option Value := none
  pending : Option Pending := none
  /-- An integer that `++` leaves at `2 ^ 53`. -/
  nextId : Nat := 1
  commandError : Bytes := []
  sourceItems : List Bytes := []
  document : Document := {}

/-- What the script asks the browser for. -/
inductive Request where
  | connect
  | send (text : Bytes)
  /-- `setTimeout(connect, delay)`. -/
  | timeout (delay : Nat)
  deriving DecidableEq, Repr

section Sources

/-- `(stats && stats.sources) || {}`. -/
def sourcesOf (stats : Option Value) : Value :=
  ((get stats [str "sources"]).filter fun v => truthy (some v)).getD (.object [])

/-- `insertBefore` of the document. -/
def insertBefore (l : List Bytes) (id : Bytes) : Option Bytes → List Bytes
  | none => l ++ [id]
  | some next => l.takeWhile (· ≠ next) ++ id :: l.dropWhile (· ≠ next)

/-- `sourceItem`: the source has an item, in numeric order. -/
def sourceItem (p : Page) (id : Bytes) : Page :=
  if id ∈ p.sourceItems then p
  else
    let items := p.sourceItems ++ [id]
    let ids := items.insertionSort (notBehind · ·)
    let next := ids[ids.idxOf id + 1]?
    { p with sourceItems := items, document := { p.document with sources := insertBefore p.document.sources id next } }

/-- The fields of `SOURCE_FIELDS` that are compared with 0. -/
def warnFields : List Bytes := List.map str ["sequence_gaps", "dropped_messages", "out_of_order", "incomplete_fragments",
  "duplicate_fragments", "malformed_fragments"]

/-- What is reported of a source makes the script throw: null has no fields, and the comparisons convert theirs. -/
def unshowable (sources : Value) (id : Bytes) : Bool :=
  let src := match sources with
    | .array vs => vs[decimal id]?
    | v => prop v id
  match src with
  | some .null => true
  | some src => warnFields.any fun k => (prop src k).any fun v => (toText v).isNone
  | none => false

end Sources

namespace Page

variable (p : Page)

/-- `env && env.stats`, where it counts as true. -/
def stats : Option Value := (p.envelope.bind (prop · (str "stats"))).filter fun v => truthy (some v)

def online : Bool := p.isOpen && truthy (p.envelope.bind (prop · (str "receiver_online")))

/-- `recording` of `render`, with `none` for null. -/
def recording : Option Bool := p.stats.map fun s => truthy (get (some s) [str "recording", str "enabled"])

/-- A request is over: the receiver reports the new state, or the time for that has passed. -/
def settle (now : Time) : Page :=
  match p.pending with
  | none => p
  | some r =>
    if p.recording = some r.enabled then { p with pending := none }
    else if r.deadline.any (less · (natural now)) then
      { p with
        commandError := str "Receiver did not confirm " ++ (if r.enabled then str "start" else str "stop") ++
          str " of recording."
        pending := none }
    else p

/-- The pills and the button of `render`. -/
def showState : Page :=
  let recording := p.recording
  let wantStop := match p.pending with
    | some r => !r.enabled
    | none => recording = some true
  { p with document := { p.document with
      linkPill := if p.isOpen then (str "Backend: connected", str "ok") else (str "Backend: disconnected", str "bad")
      receiverPill :=
        if !p.isOpen then (str "Receiver: unknown", str "idle")
        else if p.stats.isNone then (str "Receiver: waiting for statistics", str "idle")
        else if p.online then (str "Receiver: online", str "ok")
        else (str "Receiver: offline", str "bad")
      recordingPill := match recording with
        | none => (str "Recording: unknown", str "idle")
        | some true => (str "Recording", str "rec")
        | some false => (str "Not recording", str "idle")
      action := if wantStop then str "stop" else str "start"
      recordLabel := match p.pending with
        | some r => (if r.enabled then str "Starting" else str "Stopping") ++ ellipsis
        | none => if recording = some true then str "Stop recording" else str "Start recording"
      disabled := !p.online || recording.isNone || p.pending.isSome } }

end Page

section Render

/-- The alert of `render`. -/
def showAlert : Script Page := fun p =>
  let failed := truthy (get p.stats [str "recording", str "failed"])
  let error := get p.stats [str "recording", str "error"]
  if failed && throwing error then (p, true)
  else
    let problems := (if p.commandError ≠ [] then [p.commandError] else []) ++
      (if failed then [str "Capture file failed: " ++ textOr error (str "unknown error")] else [])
    ({ p with document := { p.document with alert := problems } }, false)

/-- The name of the capture file. -/
def showFile : Script Page := fun p =>
  let file := get p.stats [str "recording", str "file"]
  if throwing file then (p, true)
  else ({ p with document := { p.document with captureFile := textOr file (str "-") } }, false)

/-- The item of a source that is reported. -/
def showSource (sources : Value) (id : Bytes) : Script Page := fun p => (sourceItem p id, unshowable sources id)

def showSources : Script Page := fun p => Script.each (showSource (sourcesOf p.stats)) (objectKeys (sourcesOf p.stats)) p

/-- No item for a source that is not reported. -/
def dropSources : Script Page := fun p =>
  let sources := sourcesOf p.stats
  if p.stats.isNone then (p, false)
  else
    ({ p with
      sourceItems := p.sourceItems.filter (has sources · ≠ some false)
      document := { p.document with sources := p.document.sources.filter (has sources · ≠ some false) } },
      p.sourceItems.any fun id => (has sources id).isNone)

end Render

namespace Page

variable (p : Page)

/-- `render`, at the time that `Date.now` tells. -/
def render (now : Time) : Page × Bool :=
  (showAlert.andThen (showFile.andThen (showSources.andThen dropSources))) (p.settle now).showState

/-- `Math.max(5000, 3 * interval)` with the interval of the backend, in milliseconds, and `some none` for NaN. `none` where
`3 * interval` throws. -/
def patience : Option (Option Double) :=
  match (p.hello.bind (prop · (str "update_interval_ms"))).filter fun v => truthy (some v) with
  | none => some (some (natural 5000))
  | some interval => (toNumber interval).map fun x => x.map fun x => larger (times 3 x) (natural 5000)

/-- What the script sends: `JSON.stringify` of the type, the wish and the id. -/
def recordRequest (enabled : Bool) (id : Nat) : Bytes :=
  str "\x7b\"type\":\"record\",\"enabled\":" ++ (if enabled then str "true" else str "false") ++ str ",\"id\":" ++ numText id ++
    str "\x7d"

/-- `connect`. -/
def connect : Page × List Request := ({ p with ws := true }, [.connect])

def onopen (now : Time) : Page := (render { p with isOpen := true, reconnectDelay := 500 } now).1

/-- What a message is taken for. -/
def note (msg : Value) : Page × Bool :=
  match prop msg (str "type") with
  | some (.string type) =>
    if type = str "hello" then ({ p with hello := some msg }, false)
    else if type = str "stats" then ({ p with envelope := some msg }, false)
    else if type = str "command_result" ∧ !truthy (prop msg (str "ok")) then
      if throwing (prop msg (str "error")) then ({ p with pending := none }, true)
      else
        ({ p with
          pending := none
          commandError := str "Command failed: " ++ textOr (prop msg (str "error")) (str "unknown error") }, false)
    else (p, false)
  | _ => (p, false)

/-- `onmessage`. The handler ends at a text that is no JSON, and at null, which has no properties. -/
def onmessage (text : Bytes) (now : Time) : Page :=
  match jsonParse text with
  | none | some .null => p
  | some msg => (Script.andThen (note · msg) (render · now) p).1

def onclose (now : Time) : Page × List Request :=
  let (p, threw) := render { p with isOpen := false, ws := false, pending := none } now
  if threw then (p, [])
  else ({ p with reconnectDelay := min (p.reconnectDelay * 2) 5000 }, [.timeout p.reconnectDelay])

/-- The click on the button. -/
def click (now : Time) : Page × List Request :=
  if !p.isOpen || p.stats.isNone then (p, [])
  else
    let enabled := !truthy (get p.stats [str "recording", str "enabled"])
    match p.patience with
    | none => ({ p with commandError := [] }, [])
    | some wait =>
      let pending : Pending := ⟨enabled, wait.map (plus now)⟩
      ((render { p with commandError := [], pending := some pending, nextId := min (p.nextId + 1) (2 ^ 53) } now).1,
        [.send (recordRequest enabled p.nextId)])

end Page

/-- The state of the script's socket. -/
inductive Socket where
  | none | connecting | opened
  deriving DecidableEq, Repr

structure Browser where
  page : Page := {}
  socket : Socket := .none
  /-- The delays of the timers that are running. -/
  timers : List Nat := []

/-- What the browser calls the script for, with the time in milliseconds. -/
inductive PageEvent where
  | opened (now : Time)
  | message (text : Bytes) (now : Time)
  | closed (now : Time)
  | timer (now : Time)
  | click (now : Time)
  | tick (now : Time)

def PageEvent.now : PageEvent → Time
  | .opened now | .message _ now | .closed now | .timer now | .click now | .tick now => now

namespace Browser

/-- What the script asked for is done. -/
def ask (b : Browser) : Request → Browser
  | .connect => { b with socket := .connecting }
  | .send _ => b
  | .timeout delay => { b with timers := b.timers ++ [delay] }

/-- The script returns. -/
def after (b : Browser) (r : Page × List Request) : Browser × List Request :=
  (r.2.foldl ask { b with page := r.1 }, r.2)

/-- The end of the script. -/
def load (now : Time) : Browser :=
  let (p, threw) := Page.render {} now
  if threw then { page := p } else (after {} p.connect).1

/-- One event. -/
def react (b : Browser) : PageEvent → Browser × List Request
  | .opened now => if b.socket = .connecting then ({ b with page := b.page.onopen now, socket := .opened }, []) else (b, [])
  | .message text now => if b.socket = .opened then ({ b with page := b.page.onmessage text now }, []) else (b, [])
  | .closed now => if b.socket = .none then (b, []) else after { b with socket := .none } (b.page.onclose now)
  | .timer _ => if b.timers = [] then (b, []) else after { b with timers := b.timers.tail } b.page.connect
  | .click now => if b.page.document.disabled then (b, []) else after b (b.page.click now)
  | .tick now => ({ b with page := (b.page.render now).1 }, [])

def step : StepFn Browser PageEvent (List Request) Fault := fun b e => .ok (b.react e)

end Browser

section Rendering

variable {p : Page} {now : Time}

/-- The pages differ in what `render` shows behind the alert. -/
def Page.Later (p p' : Page) : Prop := ∃ items file sources, p' =
  { p with sourceItems := items, document := { p.document with captureFile := file, sources := sources } }

theorem Page.Later.refl (p : Page) : p.Later p := ⟨p.sourceItems, p.document.captureFile, p.document.sources, rfl⟩

theorem Page.Later.trans {a b c : Page} (h : a.Later b) (h' : b.Later c) : a.Later c := by
  obtain ⟨_, _, _, rfl⟩ := h
  obtain ⟨items, file, sources, rfl⟩ := h'
  exact ⟨items, file, sources, rfl⟩

theorem sourceItem_later (p : Page) (id : Bytes) : p.Later (sourceItem p id) := by
  unfold sourceItem
  split
  · exact .refl p
  · exact ⟨_, p.document.captureFile, _, rfl⟩

theorem showFile_later (p : Page) : p.Later (showFile p).1 := by
  unfold showFile
  dsimp only
  split
  · exact .refl p
  · exact ⟨p.sourceItems, _, p.document.sources, rfl⟩

theorem showSources_later (p : Page) : p.Later (showSources p).1 :=
  Script.each_keeps Page.Later.refl Page.Later.trans (fun id _ q => sourceItem_later q id) p

theorem dropSources_later (p : Page) : p.Later (dropSources p).1 := by
  unfold dropSources
  dsimp only
  split
  · exact .refl p
  · exact ⟨_, p.document.captureFile, _, rfl⟩

/-- What `render` does behind the alert. -/
theorem behind_alert (p : Page) : p.Later ((showFile.andThen (showSources.andThen dropSources)) p).1 :=
  Script.andThen_keeps Page.Later.trans (showFile_later p) fun q =>
    Script.andThen_keeps Page.Later.trans (showSources_later q) dropSources_later

/-- What `render` leaves, whether it throws or not. -/
theorem Page.render_eq (p : Page) (now : Time) : ∃ items alert file sources, (p.render now).1 =
    { (p.settle now).showState with
      sourceItems := items
      document := { (p.settle now).showState.document with alert := alert, captureFile := file, sources := sources } } := by
  obtain ⟨q, hq⟩ : ∃ q, q = (p.settle now).showState := ⟨_, rfl⟩
  unfold render
  rw [← hq]
  cases threw : (showAlert q).2 with
  | true =>
    rw [Script.andThen_stopped threw]
    unfold showAlert at threw ⊢
    dsimp only at threw ⊢
    split at threw
    next stuck =>
      rw [if_pos stuck]
      exact ⟨q.sourceItems, q.document.alert, q.document.captureFile, q.document.sources, rfl⟩
    next => cases threw
  | false =>
    rw [Script.andThen_passed threw]
    obtain ⟨items, file, sources, eq⟩ := behind_alert (showAlert q).1
    rw [eq]
    unfold showAlert at threw ⊢
    dsimp only at threw ⊢
    split at threw
    next => cases threw
    next shown =>
      rw [if_neg shown]
      exact ⟨items, _, file, sources, rfl⟩

/-- Why a request is over. -/
inductive Page.Over (p : Page) (now : Time) (r : Pending) : Prop
  | confirmed (reported : p.recording = some r.enabled)
  | overdue {d : Double} (deadline : r.deadline = some d) (late : less d (natural now))

/-- What `render` keeps, and what the button is after it. -/
structure Page.Rendered (p p' : Page) (now : Time) : Prop where
  ws : p'.ws = p.ws
  isOpen : p'.isOpen = p.isOpen
  reconnectDelay : p'.reconnectDelay = p.reconnectDelay
  hello : p'.hello = p.hello
  envelope : p'.envelope = p.envelope
  nextId : p'.nextId = p.nextId
  pending : p'.pending = p.pending ∨ p'.pending = none ∧ ∃ r, p.pending = some r ∧ p.Over now r
  confirmed : ∀ r, p.pending = some r → p.recording = some r.enabled → p'.pending = none
  disabled : p'.document.disabled = (!p'.online || p'.recording.isNone || p'.pending.isSome)

theorem Page.rendered (p : Page) (now : Time) : p.Rendered (p.render now).1 now := by
  obtain ⟨items, alert, file, sources, eq⟩ := p.render_eq now
  rw [eq]
  obtain ⟨q, hq⟩ : ∃ q, q = p.settle now := ⟨_, rfl⟩
  rw [← hq]
  unfold settle at hq
  split at hq
  next free =>
    have nothing : ∀ r, p.pending = some r → p.recording = some r.enabled → p.pending = none := fun _ _ _ => free
    subst hq
    exact ⟨rfl, rfl, rfl, rfl, rfl, rfl, .inl rfl, nothing, rfl⟩
  next r request =>
    split at hq
    next reported =>
      subst hq
      exact ⟨rfl, rfl, rfl, rfl, rfl, rfl, .inr ⟨rfl, r, request, .confirmed reported⟩, fun _ _ _ => rfl, rfl⟩
    next other =>
      have unconfirmed : ∀ r', p.pending = some r' → ¬ p.recording = some r'.enabled := by
        intro r' same
        rw [request] at same
        cases same
        exact other
      split at hq
      next late =>
        subst hq
        obtain ⟨d, deadline, late⟩ := Option.any_eq_true _ _ |>.1 late
        exact ⟨rfl, rfl, rfl, rfl, rfl, rfl, .inr ⟨rfl, r, request, .overdue deadline late⟩,
          fun _ _ _ => rfl, rfl⟩
      next =>
        subst hq
        exact ⟨rfl, rfl, rfl, rfl, rfl, rfl, .inl rfl, fun r' same reported => absurd reported (unconfirmed r' same), rfl⟩

/-- What `settle` leaves alone. -/
theorem Page.settle_keeps (p : Page) (now : Time) : (p.settle now).envelope = p.envelope ∧
    (p.settle now).sourceItems = p.sourceItems ∧ (p.settle now).document = p.document := by
  unfold settle
  split
  · exact ⟨rfl, rfl, rfl⟩
  · split
    · exact ⟨rfl, rfl, rfl⟩
    · split
      · exact ⟨rfl, rfl, rfl⟩
      · exact ⟨rfl, rfl, rfl⟩

theorem Page.shownState_keeps (p : Page) (now : Time) : (p.settle now).showState.stats = p.stats ∧
    (p.settle now).showState.sourceItems = p.sourceItems ∧
    (p.settle now).showState.document.sources = p.document.sources := by
  obtain ⟨envelope, items, document⟩ := p.settle_keeps now
  refine ⟨?_, items, ?_⟩
  · unfold Page.stats
    rw [← envelope]
    rfl
  · rw [← document]
    rfl

end Rendering

section Throwing

/-- What the script reads of the statistics makes `render` throw, with items on the page. -/
def throws (stats : Option Value) (items : List Bytes) : Bool :=
  truthy (get stats [str "recording", str "failed"]) && throwing (get stats [str "recording", str "error"]) ||
    (throwing (get stats [str "recording", str "file"]) || ((objectKeys (sourcesOf stats)).any (unshowable (sourcesOf stats)) ||
      (items ++ objectKeys (sourcesOf stats)).any fun id => (has (sourcesOf stats) id).isNone))

theorem showAlert_keeps (p : Page) : (showAlert p).1.stats = p.stats ∧ (showAlert p).1.sourceItems = p.sourceItems ∧
    (showAlert p).1.document.sources = p.document.sources ∧
    (showAlert p).2 = (truthy (get p.stats [str "recording", str "failed"]) &&
      throwing (get p.stats [str "recording", str "error"])) := by
  unfold showAlert
  dsimp only
  split
  next stuck => exact ⟨rfl, rfl, rfl, stuck.symm⟩
  next shown => exact ⟨rfl, rfl, rfl, (eq_false_of_ne_true shown).symm⟩

theorem showFile_keeps (p : Page) : (showFile p).1.stats = p.stats ∧ (showFile p).1.sourceItems = p.sourceItems ∧
    (showFile p).1.document.sources = p.document.sources ∧
    (showFile p).2 = throwing (get p.stats [str "recording", str "file"]) := by
  unfold showFile
  dsimp only
  split
  next stuck => exact ⟨rfl, rfl, rfl, stuck.symm⟩
  next shown => exact ⟨rfl, rfl, rfl, (eq_false_of_ne_true shown).symm⟩

theorem Page.Later.stats {p p' : Page} (h : p.Later p') : p'.stats = p.stats := by
  obtain ⟨_, _, _, rfl⟩ := h
  rfl

theorem mem_sourceItem (p : Page) (id : Bytes) (a : Bytes) :
    a ∈ (sourceItem p id).sourceItems ↔ a ∈ p.sourceItems ∨ a = id := by
  unfold sourceItem
  split
  next known => exact ⟨.inl, fun either => either.elim (·) fun same => same ▸ known⟩
  next => exact List.mem_append.trans (or_congr_right List.mem_singleton)

theorem mem_items (ids : List Bytes) (p : Page) (a : Bytes) :
    a ∈ (ids.foldl sourceItem p).sourceItems ↔ a ∈ p.sourceItems ∨ a ∈ ids := by
  induction ids generalizing p with
  | nil => simp
  | cons id ids ih => rw [List.foldl_cons, ih, mem_sourceItem, List.mem_cons, or_assoc]

/-- The items of the sources, when none of them throws. -/
theorem showSources_passed {p : Page} (passed : (objectKeys (sourcesOf p.stats)).any (unshowable (sourcesOf p.stats)) = false) :
    showSources p = ((objectKeys (sourcesOf p.stats)).foldl sourceItem p, false) :=
  Script.each_passed (fun _ _ => rfl) p passed

theorem showSources_threw (p : Page) :
    (showSources p).2 = (objectKeys (sourcesOf p.stats)).any (unshowable (sourcesOf p.stats)) :=
  Script.each_threw (f := showSource (sourcesOf p.stats)) (fun _ _ => rfl) _ p

theorem dropSources_threw (p : Page) :
    (dropSources p).2 = p.sourceItems.any fun id => (has (sourcesOf p.stats) id).isNone := by
  unfold dropSources
  dsimp only
  split
  next absent =>
    rw [Option.isNone_iff_eq_none.1 absent, eq_comm, List.any_eq_false]
    exact fun _ _ => Bool.false_ne_true
  next => rfl

/-- When `render` throws. -/
theorem Page.render_threw (p : Page) (now : Time) : (p.render now).2 = throws p.stats p.sourceItems := by
  obtain ⟨stats, items, -⟩ := p.shownState_keeps now
  obtain ⟨q, hq⟩ : ∃ q, q = (p.settle now).showState := ⟨_, rfl⟩
  unfold render
  rw [← hq] at stats items ⊢
  rw [← stats, ← items]
  obtain ⟨stats₁, items₁, -, alert⟩ := showAlert_keeps q
  obtain ⟨stats₂, items₂, -, file⟩ := showFile_keeps (showAlert q).1
  obtain ⟨r, hr⟩ : ∃ r, r = (showFile (showAlert q).1).1 := ⟨_, rfl⟩
  rw [Script.andThen_threw, Script.andThen_threw, Script.andThen_threw, alert, file, ← hr, showSources_threw,
    dropSources_threw, (showSources_later r).stats]
  rw [← hr, stats₁] at stats₂
  rw [← hr, items₁] at items₂
  rw [stats₁, stats₂]
  unfold throws
  cases shown : (objectKeys (sourcesOf q.stats)).any (unshowable (sourcesOf q.stats)) with
  | true => simp
  | false =>
    rw [← stats₂] at shown
    rw [showSources_passed shown, stats₂]
    congr 3
    rw [Bool.eq_iff_iff, List.any_eq_true, List.any_eq_true]
    simp only [mem_items, items₂, List.mem_append]

end Throwing

section Handlers

variable {p : Page}

/-- The script throws only at a reply, whose error it cannot show. -/
theorem Page.note_threw {msg : Value} (threw : (p.note msg).2 = true) : (p.note msg).1 = { p with pending := none } := by
  unfold note at threw ⊢
  split at threw
  next type _ =>
    split at threw
    · cases threw
    next hello =>
      split at threw
      · cases threw
      next stats =>
        split at threw
        next refused =>
          rw [if_neg hello, if_neg stats, if_pos refused]
          split at threw
          next stuck => rw [if_pos stuck]
          next => cases threw
        · cases threw
  · cases threw

/-- What `onmessage` leaves. -/
theorem Page.onmessage_cases (p : Page) (text : Bytes) (now : Time) : p.onmessage text now = p ∨
    ∃ msg, jsonParse text = some msg ∧
      (p.onmessage text now = (p.note msg).1 ∧ (p.note msg).1 = { p with pending := none } ∨
        p.onmessage text now = ((p.note msg).1.render now).1) := by
  unfold onmessage
  split
  · exact .inl rfl
  · exact .inl rfl
  next msg _ parsed =>
    refine .inr ⟨msg, parsed, ?_⟩
    cases threw : (p.note msg).2 with
    | true =>
      rw [Script.andThen_stopped (f := (note · msg)) threw]
      exact .inl ⟨rfl, p.note_threw threw⟩
    | false =>
      rw [Script.andThen_passed (f := (note · msg)) threw]
      exact .inr rfl

theorem load_eq (now : Time) : Browser.load now = (Browser.after {} (Page.connect (Page.render {} now).1)).1 := by
  have passed : (Page.render {} now).2 = false := Page.render_threw {} now
  unfold Browser.load
  dsimp only
  rw [passed]
  rfl

end Handlers

end Frontend

end IpcRelay.Ctl
