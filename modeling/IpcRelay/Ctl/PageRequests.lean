import IpcRelay.Ctl.Frontend

/-!
# What the page asks for

`Turn` is what one event leads to: nothing is sent, and a request that ends is
settled, or the event is a click on a button that can be clicked. `Stranded` is the
way to lose the connection for good: `onclose` throws before it starts the timer.
`page_requests` is the protocol of the requests and of the connection, over all runs
of the page.
-/

namespace IpcRelay.Ctl.Frontend

open Binary64 Machine
open Json (Value)

section Requests

/-- The texts that are sent. -/
def texts (rs : List Request) : List Bytes := rs.filterMap fun
  | .send text => some text
  | _ => none

theorem Page.patience_ge {p : Page} {wait : Option Double} (patient : p.patience = some wait) :
    ∀ w ∈ wait, ¬ less w (natural 5000) := by
  intro w mem
  unfold patience at patient
  split at patient
  · cases patient
    cases mem
    rw [less_of_natural]
    exact lt_irrefl 5000
  · obtain ⟨x, -, rfl⟩ := Option.map_eq_some_iff.1 patient
    obtain ⟨x, -, rfl⟩ := Option.map_eq_some_iff.1 mem
    exact larger_natural

/-- The request was made at the time `t`. -/
def Pending.Since (r : Pending) (t : Time) : Prop := ∀ d ∈ r.deadline, ¬ less d (natural (t + 5000))

/-- A deadline is five seconds ahead at least, also behind the rounding. -/
theorem Page.patience_since {p : Page} {wait : Option Double} (patient : p.patience = some wait) (enabled : Bool) (now : Time) :
    Pending.Since ⟨enabled, wait.map (plus now)⟩ now := by
  intro d mem
  obtain ⟨w, known, rfl⟩ := Option.map_eq_some_iff.1 mem
  have early := now.isLt
  exact plus_natural (Page.patience_ge patient w known) (by omega)

theorem Pending.Since.late {r : Pending} {t now : Time} (since : r.Since t) {d : Double} (deadline : r.deadline = some d)
    (late : less d (natural now)) : (t : Nat) + 5000 < now := by
  by_contra! early
  exact since d deadline (less_natural early late)

/-- Why a request is over that was made at the time `t`, after an event. -/
inductive Settled (enabled : Bool) (t : Time) (p : Page) : PageEvent → Prop
  | lost {now : Time} : Settled enabled t p (.closed now)
  | refused {text : Bytes} {now : Time} {msg : Value} (parsed : jsonParse text = some msg)
      (type : prop msg (str "type") = some (.string (str "command_result"))) (failed : truthy (prop msg (str "ok")) = false) :
      Settled enabled t p (.message text now)
  | confirmed {e : PageEvent} (reported : p.recording = some enabled) : Settled enabled t p e
  | overdue {e : PageEvent} (late : (t : Nat) + 5000 < e.now) : Settled enabled t p e

/-- What an event leads to: it sends nothing, and a request that it ends is settled; or it is a click. -/
inductive Turn (b : Browser) (e : PageEvent) (b' : Browser) : List Request → Prop
  | quiet {rs : List Request} (silent : texts rs = []) (nextId : b'.page.nextId = b.page.nextId)
      (pending : b'.page.pending = b.page.pending ∨
        b'.page.pending = none ∧ ∀ r t, b.page.pending = some r → r.Since t → Settled r.enabled t b'.page e) :
      Turn b e b' rs
  | asked {now : Time} {on : Bool} {r : Pending} (event : e = .click now) (online : b.page.online = true)
      (recording : b.page.recording = some on) (free : b.page.pending = none) (pending : b'.page.pending = some r)
      (enabled : r.enabled = !on) (since : r.Since now) (nextId : b'.page.nextId = min (b.page.nextId + 1) (2 ^ 53)) :
      Turn b e b' [.send (Page.recordRequest (!on) b.page.nextId)]

variable {b : Browser} {p : Page} {now : Time}

theorem Page.Rendered.recording {p' : Page} (h : p.Rendered p' now) : p'.recording = p.recording := by
  unfold Page.recording Page.stats
  rw [h.envelope]

/-- A page that is rendered. -/
theorem Page.render_settles (p : Page) (e : PageEvent) : (p.render e.now).1.pending = p.pending ∨
    (p.render e.now).1.pending = none ∧
      ∀ r t, p.pending = some r → r.Since t → Settled r.enabled t (p.render e.now).1 e := by
  have h := p.rendered e.now
  refine h.pending.imp_right fun ⟨gone, r', request, why⟩ => ⟨gone, fun r t same since => ?_⟩
  rw [request] at same
  cases same
  cases why with
  | confirmed reported => exact .confirmed (h.recording.trans reported)
  | overdue deadline late =>
    exact .overdue (since.late deadline late)

/-- What a message changes before the page is rendered. -/
theorem Page.note_cases (p : Page) (msg : Value) :
    (p.note msg).1.ws = p.ws ∧ (p.note msg).1.isOpen = p.isOpen ∧ (p.note msg).1.reconnectDelay = p.reconnectDelay ∧
      (p.note msg).1.nextId = p.nextId ∧ ((p.note msg).1.pending = p.pending ∨ (p.note msg).1.pending = none ∧
        prop msg (str "type") = some (.string (str "command_result")) ∧ truthy (prop msg (str "ok")) = false) := by
  unfold note
  split
  next type named =>
    split
    · exact ⟨rfl, rfl, rfl, rfl, .inl rfl⟩
    · split
      · exact ⟨rfl, rfl, rfl, rfl, .inl rfl⟩
      · split
        next refused =>
          obtain ⟨rfl, failed⟩ := refused
          split
          · exact ⟨rfl, rfl, rfl, rfl, .inr ⟨rfl, named, by simpa using failed⟩⟩
          · exact ⟨rfl, rfl, rfl, rfl, .inr ⟨rfl, named, by simpa using failed⟩⟩
        next => exact ⟨rfl, rfl, rfl, rfl, .inl rfl⟩
  next => exact ⟨rfl, rfl, rfl, rfl, .inl rfl⟩

/-- What the script keeps and what the browser knows agree: there is not more than a socket or a timer, and the button
can be clicked only where `render` left it so. -/
structure Sane (b : Browser) : Prop where
  alive : b.timers.length ≤ if b.socket = .none then 1 else 0
  ws : b.page.ws = decide (b.socket ≠ .none)
  isOpen : b.page.isOpen = decide (b.socket = .opened)
  delay : 500 ≤ b.page.reconnectDelay ∧ b.page.reconnectDelay ≤ 5000
  waits : ∀ d ∈ b.timers, 500 ≤ d ∧ d ≤ 5000
  clickable : b.page.document.disabled = false →
    b.page.online = true ∧ b.page.recording.isSome = true ∧ b.page.pending = none

theorem Page.Rendered.clickable {p' : Page} (h : p.Rendered p' now) (enabled : p'.document.disabled = false) :
    p'.online = true ∧ p'.recording.isSome = true ∧ p'.pending = none := by
  have button := h.disabled
  rw [enabled, eq_comm, Bool.or_eq_false_iff, Bool.or_eq_false_iff] at button
  obtain ⟨⟨online, recording⟩, free⟩ := button
  exact ⟨by simpa using online, by simpa using recording, by simpa using free⟩

theorem sane_load (now : Time) : Sane (Browser.load now) := by
  have h := Page.rendered {} now
  rw [load_eq]
  refine ⟨Nat.zero_le _, rfl, h.isOpen, ?_, by simp [Browser.after, Browser.ask, Page.connect], h.clickable⟩
  show 500 ≤ (Page.render {} now).1.reconnectDelay ∧ (Page.render {} now).1.reconnectDelay ≤ 5000
  rw [h.reconnectDelay]
  decide

theorem Page.of_recording {on : Bool} (reported : p.recording = some on) :
    p.stats.isNone = false ∧ truthy (get p.stats [str "recording", str "enabled"]) = on := by
  unfold Page.recording at reported
  obtain ⟨s, stats, rfl⟩ := Option.map_eq_some_iff.1 reported
  rw [stats]
  exact ⟨rfl, rfl⟩

/-- The page after a click on the button. -/
def Page.asking (p : Page) (on : Bool) (wait : Option Double) (now : Time) : Page :=
  { p with commandError := [], pending := some ⟨!on, wait.map (plus now)⟩, nextId := min (p.nextId + 1) (2 ^ 53) }

theorem Page.click_eq {on : Bool} {wait : Option Double} (isOpen : p.isOpen = true) (recording : p.recording = some on)
    (patient : p.patience = some wait) :
    p.click now = (((p.asking on wait now).render now).1, [.send (recordRequest (!on) p.nextId)]) := by
  obtain ⟨stats, enabled⟩ := Page.of_recording recording
  rw [click, if_neg (by rw [isOpen, stats]; decide), patient]
  dsimp only
  rw [enabled]
  rfl

/-- The click throws where the interval of the backend is no number and cannot become one. -/
theorem Page.click_threw {on : Bool} (isOpen : p.isOpen = true) (recording : p.recording = some on)
    (stuck : p.patience = none) : p.click now = ({ p with commandError := [] }, []) := by
  obtain ⟨stats, -⟩ := Page.of_recording recording
  rw [click, if_neg (by rw [isOpen, stats]; decide), stuck]

/-- A button that can be clicked. -/
theorem Sane.clicked (sane : Sane b) (enabled : b.page.document.disabled = false) :
    ∃ on, b.page.recording = some on ∧ b.page.online = true ∧ b.page.isOpen = true ∧ b.page.pending = none := by
  obtain ⟨online, recording, free⟩ := sane.clickable enabled
  obtain ⟨on, reported⟩ := Option.isSome_iff_exists.1 recording
  refine ⟨on, reported, online, ?_, free⟩
  unfold Page.online at online
  exact (Bool.and_eq_true_iff.1 online).1

theorem Page.asking_pending {p : Page} {on : Bool} {wait : Option Double} (reported : p.recording = some on)
    (patient : p.patience = some wait) (now : Time) :
    ((p.asking on wait now).render now).1.pending = (p.asking on wait now).pending := by
  rcases ((p.asking on wait now).rendered now).pending with same | ⟨-, r, request, why⟩
  · exact same
  · cases request
    cases why with
    | confirmed again =>
      have again : p.recording = some (!on) := again
      rw [reported] at again
      cases on <;> cases again
    | overdue deadline late =>
      have := (Page.patience_since patient (!on) now).late deadline late
      omega

theorem Page.Rendered.delay {p' : Page} (h : p.Rendered p' now)
    (bounds : 500 ≤ p.reconnectDelay ∧ p.reconnectDelay ≤ 5000) : 500 ≤ p'.reconnectDelay ∧ p'.reconnectDelay ≤ 5000 := by
  rw [h.reconnectDelay]
  exact bounds

theorem sane_react (sane : Sane b) (e : PageEvent) : Sane (b.react e).1 := by
  cases e with
  | opened now =>
    rw [Browser.react]
    split
    next connecting =>
      have h := Page.rendered { b.page with isOpen := true, reconnectDelay := 500 } now
      have alive := sane.alive
      have ws := sane.ws
      rw [connecting] at alive ws
      exact ⟨alive, h.ws.trans ws, h.isOpen, h.delay ⟨le_refl _, by show (500 : Nat) ≤ 5000; decide⟩, sane.waits,
        h.clickable⟩
    next => exact sane
  | message text now =>
    rw [Browser.react]
    split
    next opened =>
      rcases b.page.onmessage_cases text now with same | ⟨msg, -, ⟨left, noted⟩ | rendered⟩
      · rw [same]
        exact sane
      · -- the script has thrown at the reply: the request is given up, and the button is as it was
        rw [left, noted]
        exact ⟨sane.alive, sane.ws, sane.isOpen, sane.delay, sane.waits, fun enabled =>
          ⟨(sane.clickable enabled).1, (sane.clickable enabled).2.1, rfl⟩⟩
      · obtain ⟨ws, isOpen, delay, -⟩ := b.page.note_cases msg
        have h := (b.page.note msg).1.rendered now
        rw [rendered]
        exact ⟨sane.alive, (h.ws.trans ws).trans sane.ws, (h.isOpen.trans isOpen).trans sane.isOpen,
          h.delay (delay.symm ▸ sane.delay), sane.waits, h.clickable⟩
    next => exact sane
  | closed now =>
    rw [Browser.react]
    split
    next => exact sane
    next live =>
      have h := Page.rendered { b.page with isOpen := false, ws := false, pending := none } now
      have delay := sane.delay
      have alive := sane.alive
      rw [if_neg live] at alive
      have free : b.timers = [] := List.length_eq_zero_iff.1 (Nat.le_zero.1 alive)
      unfold Page.onclose
      dsimp only
      split
      next threw =>
        refine ⟨?_, h.ws, h.isOpen, h.delay sane.delay, sane.waits, h.clickable⟩
        show b.timers.length ≤ 1
        omega
      next passed =>
        have timers : b.timers ++
            [(Page.render { b.page with isOpen := false, ws := false, pending := none } now).1.reconnectDelay] =
            [b.page.reconnectDelay] := by
          rw [free, h.reconnectDelay]
          rfl
        refine ⟨(congrArg List.length timers).le, h.ws, h.isOpen, ?_, ?_, h.clickable⟩
        · show 500 ≤ min ((Page.render _ now).1.reconnectDelay * 2) 5000 ∧
            min ((Page.render _ now).1.reconnectDelay * 2) 5000 ≤ 5000
          rw [h.reconnectDelay]
          show 500 ≤ min (b.page.reconnectDelay * 2) 5000 ∧ min (b.page.reconnectDelay * 2) 5000 ≤ 5000
          omega
        · show ∀ d ∈ b.timers ++ [_], _
          rw [timers]
          intro d mem
          rw [List.mem_singleton.1 mem]
          exact delay
  | timer now =>
    rw [Browser.react]
    split
    next => exact sane
    next waiting =>
      have alive := sane.alive
      split at alive
      next closed =>
        have isOpen := sane.isOpen
        have last : b.timers.tail = [] := List.length_eq_zero_iff.1 (by rw [List.length_tail]; omega)
        rw [closed] at isOpen
        rw [last]
        exact ⟨Nat.zero_le _, rfl, isOpen, sane.delay, by simp [Browser.after, Browser.ask, Page.connect], sane.clickable⟩
      next => exact absurd (List.length_eq_zero_iff.1 (Nat.le_zero.1 alive)) waiting
  | click now =>
    rw [Browser.react]
    split
    next => exact sane
    next enabled =>
      obtain ⟨on, recording, -, isOpen, -⟩ := sane.clicked (by simpa using enabled)
      cases patient : b.page.patience with
      | none =>
        rw [Page.click_threw isOpen recording patient]
        exact ⟨sane.alive, sane.ws, sane.isOpen, sane.delay, sane.waits, sane.clickable⟩
      | some wait =>
        have h := (b.page.asking on wait now).rendered now
        rw [Page.click_eq isOpen recording patient]
        exact ⟨sane.alive, h.ws.trans sane.ws, h.isOpen.trans sane.isOpen, h.delay sane.delay, sane.waits, h.clickable⟩
  | tick now =>
    have h := b.page.rendered now
    exact ⟨sane.alive, h.ws.trans sane.ws, h.isOpen.trans sane.isOpen, h.delay sane.delay, sane.waits, h.clickable⟩

/-- What one event can lead to. -/
theorem turn (sane : Sane b) (e : PageEvent) : Turn b e (b.react e).1 (b.react e).2 := by
  cases e with
  | opened now =>
    rw [Browser.react]
    split
    · have h := Page.rendered { b.page with isOpen := true, reconnectDelay := 500 } now
      exact .quiet rfl h.nextId (Page.render_settles { b.page with isOpen := true, reconnectDelay := 500 } (.opened now))
    · exact .quiet rfl rfl (.inl rfl)
  | message text now =>
    rw [Browser.react]
    split
    · rcases b.page.onmessage_cases text now with same | ⟨msg, parsed, ⟨left, noted⟩ | rendered⟩
      · exact .quiet rfl (congrArg Page.nextId same) (.inl (congrArg Page.pending same))
      · obtain ⟨-, -, -, nextId, pending⟩ := b.page.note_cases msg
        rw [← left] at nextId pending
        refine .quiet rfl nextId (pending.imp_right fun ⟨gone, type, failed⟩ => ⟨gone, fun r t _ _ => ?_⟩)
        exact .refused parsed type failed
      · obtain ⟨-, -, -, nextId, pending⟩ := b.page.note_cases msg
        have h := (b.page.note msg).1.rendered now
        rw [rendered]
        refine .quiet rfl (h.nextId.trans nextId) ?_
        rcases pending with same | ⟨gone, type, failed⟩
        · have settles := (b.page.note msg).1.render_settles (.message text now)
          rw [same] at settles
          exact settles
        · exact .inr ⟨h.pending.elim (·.trans gone) (·.1), fun r t _ _ => .refused parsed type failed⟩
    · exact .quiet rfl rfl (.inl rfl)
  | closed now =>
    rw [Browser.react]
    split
    · exact .quiet rfl rfl (.inl rfl)
    · have h := Page.rendered { b.page with isOpen := false, ws := false, pending := none } now
      have gone : (Page.render { b.page with isOpen := false, ws := false, pending := none } now).1.pending = none :=
        h.pending.elim id (·.1)
      unfold Page.onclose
      dsimp only
      split
      · exact .quiet rfl h.nextId (.inr ⟨gone, fun r t _ _ => .lost⟩)
      · exact .quiet rfl h.nextId (.inr ⟨gone, fun r t _ _ => .lost⟩)
  | timer now =>
    rw [Browser.react]
    split
    · exact .quiet rfl rfl (.inl rfl)
    · exact .quiet rfl rfl (.inl rfl)
  | click now =>
    rw [Browser.react]
    split
    · exact .quiet rfl rfl (.inl rfl)
    next enabled =>
      obtain ⟨on, recording, online, isOpen, free⟩ := sane.clicked (by simpa using enabled)
      cases patient : b.page.patience with
      | none =>
        rw [Page.click_threw isOpen recording patient]
        exact .quiet rfl rfl (.inl rfl)
      | some wait =>
        rw [Page.click_eq isOpen recording patient]
        exact .asked rfl online recording free (Page.asking_pending recording patient now) rfl
          (Page.patience_since patient (!on) now) ((b.page.asking on wait now).rendered now).nextId
  | tick now => exact .quiet rfl (b.page.rendered now).nextId (b.page.render_settles (.tick now))

variable {start : Time} {es : List PageEvent} {os : List (List Request)}

theorem turn_of_step {b' : Browser} {e : PageEvent} {rs : List Request} (sane : Sane b) (one : b.step e = .ok (b', rs)) :
    Turn b e b' rs ∧ Sane b' := by
  obtain ⟨rfl, rfl⟩ : (b.react e).1 = b' ∧ (b.react e).2 = rs := Prod.ext_iff.1 (Except.ok.inj one)
  exact ⟨turn sane e, sane_react sane e⟩

/-- In every run, the requests so far are numbered from 1 on. -/
structure Numbered (h : List (PageEvent × List Request)) (b : Browser) : Prop where
  sane : Sane b
  nextId : b.page.nextId = min ((h.flatMap fun x => texts x.2).length + 1) (2 ^ 53)
  numbers : ∃ asks : List Bool,
    (h.flatMap fun x => texts x.2) = asks.mapIdx fun k on => Page.recordRequest on (min (k + 1) (2 ^ 53))

theorem Numbered.step {h : List (PageEvent × List Request)} {b' : Browser} {e : PageEvent} {rs : List Request}
    (known : Numbered h b) (one : b.step e = .ok (b', rs)) : Numbered (h ++ [(e, rs)]) b' := by
  obtain ⟨turned, sane⟩ := turn_of_step known.sane one
  cases turned with
  | quiet silent nextId =>
    refine ⟨sane, ?_, ?_⟩
    · rw [List.flatMap_append, List.flatMap_singleton, silent, List.append_nil, nextId, known.nextId]
    · rw [List.flatMap_append, List.flatMap_singleton, silent, List.append_nil]
      exact known.numbers
  | @asked _ on _ _ _ _ _ _ _ _ nextId =>
    obtain ⟨asks, numbers⟩ := known.numbers
    refine ⟨sane, ?_, asks ++ [!on], ?_⟩
    · rw [List.flatMap_append, List.flatMap_singleton, List.length_append, nextId, known.nextId]
      show min (min (_ + 1) (2 ^ 53) + 1) (2 ^ 53) = min (_ + 1 + 1) (2 ^ 53)
      omega
    · rw [List.flatMap_append, List.flatMap_singleton, List.mapIdx_concat, known.nextId, numbers, List.length_mapIdx]
      rfl

theorem numbered (ran : run Browser.step (.load start) es = .ok (b, os)) : Numbered (es.zip os) b :=
  (Trace.of_run ran).history ⟨sane_load start, by rw [load_eq]; exact (Page.rendered {} start).nextId, [], rfl⟩
    fun _ _ _ _ _ known one => known.step one

/-- The event `i` of a run is a click that asks for recording to be on or off, at the time `t`. -/
structure AskedAt (start : Time) (es : List PageEvent) (i : Nat) (on : Bool) (t : Time) : Prop where
  intro ::
  event : es[i]? = some (.click t)
  asks : ∃ u us u', run Browser.step (.load start) (es.take i) = .ok (u, us) ∧
    u.step (.click t) = .ok (u', [.send (Page.recordRequest on u.page.nextId)]) ∧
    u.socket = .opened ∧ u.page.online = true ∧ u.page.recording = some (!on) ∧ u.page.pending = none ∧
    ∃ r, u'.page.pending = some r ∧ r.enabled = on ∧ r.Since t

theorem Sane.opened (sane : Sane b) (online : b.page.online = true) : b.socket = .opened := by
  have isOpen := sane.isOpen
  unfold Page.online at online
  rw [(Bool.and_eq_true_iff.1 online).1, eq_comm, decide_eq_true_iff] at isOpen
  exact isOpen

/-- What is sent is sent for such a click. -/
theorem askedAt_of_sent (ran : run Browser.step (.load start) es = .ok (b, os)) {i : Nat} {rs : List Request}
    (here : os[i]? = some rs) (sent : texts rs ≠ []) :
    ∃ on t n, AskedAt start es i on t ∧ rs = [.send (Page.recordRequest on n)] := by
  have len := run_length ran
  have lt : i < es.length := by
    have := (List.getElem?_eq_some_iff.1 here).1
    omega
  have zipped : (es.zip os)[i]? = some (es[i], rs) := List.getElem?_zip_eq_some.2 ⟨List.getElem?_eq_getElem lt, here⟩
  obtain ⟨u, u', before, one, -, -⟩ := run_at ran zipped
  have sane := (numbered before).sane
  cases (turn_of_step sane one).1 with
  | quiet silent => exact absurd silent sent
  | @asked now on r clicked online recording free pending enabled since =>
    rw [clicked] at one
    refine ⟨!on, now, _, ⟨?_, u, _, u', before, one, sane.opened online, online, ?_, free, r, pending, enabled, since⟩, rfl⟩
    · rw [List.getElem?_eq_getElem lt, clicked]
    · rw [Bool.not_not]
      exact recording

/-- Between two requests something has settled the first. -/
theorem settled_between {i j : Nat} {t t' : Time} {on on' : Bool} (lt : i < j) (first : AskedAt start es i on t)
    (second : AskedAt start es j on' t') :
    ∃ m e v vs, i < m ∧ m < j ∧ es[m]? = some e ∧ run Browser.step (.load start) (es.take (m + 1)) = .ok (v, vs) ∧
      Settled on t v.page e := by
  obtain ⟨u, us, u', before, one, -, -, -, -, r, pending, enabled, since⟩ := first.asks
  obtain ⟨w, ws, -, before', -, -, -, -, free, -⟩ := second.asks
  have after : run Browser.step (.load start) ((es.take j).take (i + 1)) =
      .ok (u', us ++ [[.send (Page.recordRequest on u.page.nextId)]]) := by
    rw [List.take_take, Nat.min_eq_left lt, List.take_add_one, first.event]
    exact run_snoc.2 ⟨u, us, _, before, one, rfl⟩
  obtain ⟨m, e, v, vs, v', o, le, here, ran, was, step, isnt⟩ :=
    run_breaks (P := fun b => b.page.pending = some r) after pending before' fun same => by
      rw [free] at same
      cases same
  have short : m < j := by
    have := (List.getElem?_eq_some_iff.1 here).1
    rw [List.length_take] at this
    omega
  rw [List.getElem?_take_of_lt short] at here
  rw [List.take_take, Nat.min_eq_left short.le] at ran
  refine ⟨m, e, v', vs ++ [o], le, short, here, ?_, ?_⟩
  · rw [List.take_add_one, here]
    exact run_snoc.2 ⟨v, vs, _, ran, step, rfl⟩
  · cases (turn_of_step (numbered ran).sane step).1 with
    | quiet _ _ pending =>
      rcases pending with same | ⟨-, settled⟩
      · exact absurd (same.trans was) isnt
      · exact enabled ▸ settled r t was since
    | asked _ _ _ free =>
      rw [free] at was
      cases was

theorem browser_total (start : Time) (es : List PageEvent) : ∃ b os, run Browser.step (.load start) es = .ok (b, os) := by
  have safe : ∀ u e, Sane u → ∃ u' o, Browser.step u e = .ok (u', o) ∧ Sane u' := fun u e sane =>
    ⟨_, _, rfl, sane_react sane e⟩
  obtain ⟨b, os, ran, -⟩ := run_total safe es (sane_load start)
  exact ⟨b, os, ran⟩

/-- There is neither a connection nor a timer to the next one. -/
def Browser.Idle (b : Browser) : Prop := b.socket = .none ∧ b.timers = []

/-- The connection was lost while the page held statistics that make `render` throw. -/
def Stranded (start : Time) (es : List PageEvent) : Prop :=
  ∃ (i : Nat) (t : Time) (u : Browser) (us : List (List Request)), es[i]? = some (.closed t) ∧
    run Browser.step (.load start) (es.take i) = .ok (u, us) ∧ u.socket ≠ .none ∧
    throws u.page.stats u.page.sourceItems = true

/-- A page that is left idle stays so, and nothing but a throwing `onclose` leaves it so. -/
theorem idle_react (sane : Sane b) (e : PageEvent) : (b.react e).1.Idle ↔
    b.Idle ∨ ∃ t, e = .closed t ∧ b.socket ≠ .none ∧ throws b.page.stats b.page.sourceItems = true := by
  have same {b' : Browser} (socket : b'.socket = b.socket) (timers : b'.timers = b.timers)
      (other : ∀ t, e ≠ .closed t) : b'.Idle ↔
      b.Idle ∨ ∃ t, e = .closed t ∧ b.socket ≠ .none ∧ throws b.page.stats b.page.sourceItems = true := by
    unfold Browser.Idle
    rw [socket, timers]
    exact ⟨.inl, fun either => either.elim id fun ⟨t, closed, _⟩ => absurd closed (other t)⟩
  cases e with
  | opened now =>
    rw [Browser.react]
    split
    next connecting =>
      constructor
      · rintro ⟨closed, -⟩
        cases closed
      · rintro (⟨closed, -⟩ | ⟨t, other, -⟩)
        · rw [connecting] at closed
          cases closed
        · cases other
    next => exact same rfl rfl (by rintro t ⟨⟩)
  | message text now =>
    rw [Browser.react]
    split
    · exact same rfl rfl (by rintro t ⟨⟩)
    · exact same rfl rfl (by rintro t ⟨⟩)
  | closed now =>
    rw [Browser.react]
    split
    next closed => exact ⟨.inl, fun either => either.elim id fun ⟨_, _, live, _⟩ => absurd closed live⟩
    next live =>
      have alive := sane.alive
      rw [if_neg live] at alive
      have free : b.timers = [] := List.length_eq_zero_iff.1 (Nat.le_zero.1 alive)
      have threw := Page.render_threw { b.page with isOpen := false, ws := false, pending := none } now
      have held : Page.stats { b.page with isOpen := false, ws := false, pending := none } = b.page.stats := rfl
      rw [held] at threw
      unfold Page.onclose
      dsimp only
      rw [threw]
      split
      next bad => exact ⟨fun _ => .inr ⟨now, rfl, live, bad⟩, fun _ => ⟨rfl, free⟩⟩
      next good =>
        constructor
        · rintro ⟨-, timers⟩
          exact absurd timers (List.append_ne_nil_of_right_ne_nil _ (List.cons_ne_nil _ _))
        · rintro (⟨closed, -⟩ | ⟨-, -, -, bad⟩)
          · exact absurd closed live
          · exact absurd bad good
  | timer now =>
    rw [Browser.react]
    split
    next => exact same rfl rfl (by rintro t ⟨⟩)
    next waiting =>
      constructor
      · rintro ⟨closed, -⟩
        cases closed
      · rintro (⟨-, timers⟩ | ⟨t, other, -⟩)
        · exact absurd timers waiting
        · cases other
  | click now =>
    rw [Browser.react]
    split
    next => exact same rfl rfl (by rintro t ⟨⟩)
    next enabled =>
      obtain ⟨on, recording, -, isOpen, -⟩ := sane.clicked (by simpa using enabled)
      cases patient : b.page.patience with
      | none =>
        rw [Page.click_threw isOpen recording patient]
        exact same rfl rfl (by rintro t ⟨⟩)
      | some wait =>
        rw [Page.click_eq isOpen recording patient]
        exact same rfl rfl (by rintro t ⟨⟩)
  | tick now => exact same rfl rfl (by rintro t ⟨⟩)

/-- A page is left without a connection and a timer just if it is stranded. -/
theorem idle_iff (ran : run Browser.step (.load start) es = .ok (b, os)) : b.Idle ↔ Stranded start es := by
  induction es using List.reverseRecOn generalizing b os with
  | nil =>
    cases ran
    rw [load_eq]
    constructor
    · rintro ⟨closed, -⟩
      cases closed
    · rintro ⟨i, t, u, us, here, -⟩
      rw [List.getElem?_nil] at here
      cases here
  | append_singleton es e ih =>
    obtain ⟨u, us, rs, before, one, rfl⟩ := run_snoc.1 ran
    obtain rfl : (u.react e).1 = b := (Prod.ext_iff.1 (Except.ok.inj one)).1
    rw [idle_react (numbered before).sane, ih before]
    constructor
    · rintro (⟨i, t, v, vs, here, reached, live, bad⟩ | ⟨t, rfl, live, bad⟩)
      · have lt := (List.getElem?_eq_some_iff.1 here).1
        refine ⟨i, t, v, vs, ?_, ?_, live, bad⟩
        · rw [List.getElem?_append_left lt]
          exact here
        · rw [List.take_append_of_le_length lt.le]
          exact reached
      · refine ⟨es.length, t, u, us, List.getElem?_concat_length, ?_, live, bad⟩
        rw [List.take_left]
        exact before
    · rintro ⟨i, t, v, vs, here, reached, live, bad⟩
      rcases Nat.lt_or_ge i es.length with lt | ge
      · rw [List.getElem?_append_left lt] at here
        rw [List.take_append_of_le_length lt.le] at reached
        exact .inl ⟨i, t, v, vs, here, reached, live, bad⟩
      · obtain rfl : i = es.length := by
          have := (List.getElem?_eq_some_iff.1 here).1
          rw [List.length_append, List.length_singleton] at this
          omega
        rw [List.getElem?_concat_length, Option.some_inj] at here
        rw [List.take_left, before] at reached
        cases reached
        exact .inr ⟨t, here, live, bad⟩

/-- What a page has that is not idle. -/
theorem Sane.connected (sane : Sane b) (busy : ¬ b.Idle) :
    b.socket ≠ .none ∧ b.timers = [] ∨ b.socket = .none ∧ ∃ d, b.timers = [d] ∧ 500 ≤ d ∧ d ≤ 5000 := by
  have alive := sane.alive
  split at alive
  next closed =>
    have waiting : b.timers ≠ [] := fun free => busy ⟨closed, free⟩
    have one : b.timers.length = 1 := by
      have := List.length_pos_iff.2 waiting
      omega
    obtain ⟨d, timers⟩ := List.length_eq_one_iff.1 one
    exact .inr ⟨closed, d, timers, sane.waits d (by rw [timers]; exact List.mem_singleton_self d)⟩
  next live => exact .inl ⟨live, List.length_eq_zero_iff.1 (Nat.le_zero.1 alive)⟩

/-- Whatever happens to the page, its requests are numbered 1, 2, 3, ... up to `2 ^ 53`, each is made while the socket is
open and the receiver online, and asks for the opposite of what the receiver last reported. There is no request while
another one is open: before the next, the receiver has reported the new state, the command has failed, more than five
seconds have passed, or the connection was lost. There is one socket, or one timer to the next of half a second to five,
unless the connection was lost while the page held statistics that it cannot show: then there is neither, for good. -/
theorem page_requests (start : Time) (es : List PageEvent) : ∃ b os, run Browser.step (.load start) es = .ok (b, os) ∧ Sane b ∧
    (∃ asks : List Bool, os.flatMap texts = asks.mapIdx fun k on => Page.recordRequest on (min (k + 1) (2 ^ 53))) ∧
    (∀ i rs, os[i]? = some rs → texts rs ≠ [] → ∃ on t, AskedAt start es i on t) ∧
    (∀ i j on on' t t', i < j → AskedAt start es i on t → AskedAt start es j on' t' →
      ∃ m e v vs, i < m ∧ m < j ∧ es[m]? = some e ∧ run Browser.step (.load start) (es.take (m + 1)) = .ok (v, vs) ∧
        Settled on t v.page e) ∧
    (b.socket = .none ∧ b.timers = [] ↔ Stranded start es) ∧
    (¬ Stranded start es →
      b.socket ≠ .none ∧ b.timers = [] ∨ b.socket = .none ∧ ∃ d, b.timers = [d] ∧ 500 ≤ d ∧ d ≤ 5000) := by
  obtain ⟨b, os, ran⟩ := browser_total start es
  have known := numbered ran
  have idle := idle_iff ran
  refine ⟨b, os, ran, known.sane, ?_, fun i rs here sent => ?_,
    fun i j on on' t t' lt first second => settled_between lt first second, idle,
    fun safe => known.sane.connected fun left => safe (idle.1 left)⟩
  · obtain ⟨asks, numbers⟩ := known.numbers
    refine ⟨asks, ?_⟩
    rw [← numbers]
    conv_lhs => rw [← List.map_snd_zip (run_length ran).le, List.flatMap_map]
  · obtain ⟨on, t, _, asked, -⟩ := askedAt_of_sent ran here sent
    exact ⟨on, t, asked⟩

/-- Statistics with two sources, as the backend relays them. -/
def labEnvelope (on : Bool) : Bytes :=
  str "\x7b\"type\":\"stats\",\"receiver_online\":true,\"stats\":\x7b\"recording\":\x7b\"enabled\":" ++
    (if on then str "true" else str "false") ++ str "\x7d,\"sources\":\x7b\"2\":\x7b\x7d,\"10\":\x7b\x7d\x7d\x7d\x7d"

/-- Statistics that name a source and say nothing of it. -/
def labNull : Bytes :=
  str "\x7b\"type\":\"stats\",\"receiver_online\":true,\"stats\":\x7b\"recording\":\x7b\"enabled\":false\x7d," ++
    str "\"sources\":\x7b\"1\":null\x7d\x7d\x7d"

/-- Two requests, a click between them that does nothing, and a connection that is lost for good. -/
def labRun : List PageEvent := [.opened 0, .message (labEnvelope false) 1, .click 2, .click 3,
  .message (labEnvelope true) 4, .click 5, .message labNull 6, .closed 7]

theorem page_requests_lab : ∃ b os, run Browser.step (.load 0) labRun = .ok (b, os) ∧
    os = [[], [], [.send (Page.recordRequest true 1)], [], [], [.send (Page.recordRequest false 2)], [], []] ∧
    (∃ on t on' t' m e v vs, AskedAt 0 labRun 2 on t ∧ AskedAt 0 labRun 5 on' t' ∧ 2 < m ∧ m < 5 ∧
      labRun[m]? = some e ∧ run Browser.step (.load 0) (labRun.take (m + 1)) = .ok (v, vs) ∧ Settled on t v.page e) ∧
    Stranded 0 labRun ∧ b.socket = .none ∧ b.timers = [] := by
  obtain ⟨b, os, ran, -, -, asked, between, idle, -⟩ := page_requests 0 labRun
  have seen : ((run Browser.step (.load 0) labRun).toOption.map fun r => (r.2, r.1.socket, r.1.timers)) =
      some ([[], [], [.send (Page.recordRequest true 1)], [], [], [.send (Page.recordRequest false 2)], [], []],
        .none, []) := by decide +kernel
  rw [ran] at seen
  obtain ⟨rfl, socket, timers⟩ : os = _ ∧ b.socket = _ ∧ b.timers = _ := by
    simpa only [Except.toOption, Option.map_some, Option.some_inj, Prod.mk.injEq] using seen
  obtain ⟨on, t, first⟩ := asked 2 _ rfl (by decide)
  obtain ⟨on', t', second⟩ := asked 5 _ rfl (by decide)
  obtain ⟨m, e, v, vs, settled⟩ := between 2 5 on on' t t' (by decide) first second
  exact ⟨b, _, ran, rfl, ⟨on, t, on', t', m, e, v, vs, first, second, settled⟩, idle.1 ⟨socket, timers⟩, socket, timers⟩

end Requests

end IpcRelay.Ctl.Frontend
