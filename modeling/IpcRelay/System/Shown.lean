import IpcRelay.Ctl.PageSources
import IpcRelay.System.Control

/-!
# The sources of the receiver, as the page lists them

What a receiver says of its sources is what the page can show: its statistics never
make the script throw, and name the sources by their numbers. So the list of a page
that hears of a receiver is the sources of that receiver (`receiver_listed`).
-/

namespace IpcRelay

open Ctl Ctl.Json Ctl.Frontend Machine

section Statistics

variable {st : PublishedStats} {mono real : UInt64}

/-- The names of the sources that statistics report. -/
def sourceIds (sources : KeyMap UInt32 ReceiverSourceStats) : List Bytes :=
  (ascending sources).map fun kv => numText kv.1.toNat

theorem sourceIds_numeric (sources : KeyMap UInt32 ReceiverSourceStats) : Numeric (sourceIds sources) := by
  intro id mem
  obtain ⟨kv, -, rfl⟩ := List.mem_map.1 mem
  rw [decimal_numText]
  exact ⟨rfl, kv.1.toNat_lt⟩

theorem sourceIds_ascending (sources : KeyMap UInt32 ReceiverSourceStats) : Ascending (sourceIds sources) := by
  have trans : ∀ a b c : UInt32 × ReceiverSourceStats, decide (a.1 ≤ b.1) = true → decide (b.1 ≤ c.1) = true →
      decide (a.1 ≤ c.1) = true := fun a b c ab bc =>
    decide_eq_true (UInt32.le_trans (of_decide_eq_true ab) (of_decide_eq_true bc))
  have total : ∀ a b : UInt32 × ReceiverSourceStats, (decide (a.1 ≤ b.1) || decide (b.1 ≤ a.1)) = true := fun a b => by
    rcases UInt32.le_total a.1 b.1 with le | le <;> simp [le]
  have sorted := List.pairwise_mergeSort trans total (sources.entries.map fun e => (e.1, e.2))
  have keys : ((ascending sources).map Prod.fst).Nodup := by
    have perm := (List.mergeSort_perm (sources.entries.map fun e => (e.1, e.2)) fun a b => decide (a.1 ≤ b.1)).map Prod.fst
    refine perm.nodup_iff.2 ?_
    rw [List.map_map]
    exact sources.nodupKeys
  refine List.pairwise_map.2 ?_
  have apart : (ascending sources).Pairwise fun a b => a.1 ≠ b.1 := List.pairwise_map.1 keys
  refine (sorted.and apart).imp fun {a b} both => ?_
  rw [decimal_numText, decimal_numText]
  exact UInt32.lt_iff_toNat_lt.1 (UInt32.lt_of_le_of_ne (of_decide_eq_true both.1) both.2)

theorem sourcesOf_stats (st : PublishedStats) (mono real : UInt64) : sourcesOf (some (statsTree st mono real).value) =
    (Tree.object ((ascending st.sources).map sourceTree)).value := by
  obtain ⟨ms, eq, names, -, sources⟩ := statsTree_fields st mono real
  have read := prop_tree names sources
  rw [← eq] at read
  show (((prop (statsTree st mono real).value (str "sources"))).filter fun v => truthy (some v)).getD (.object []) = _
  rw [read]
  rfl

theorem mem_objectKeys {ms : List (Bytes × Value)} {id : Bytes} : id ∈ objectKeys (.object ms) ↔ id ∈ ms.map Prod.fst := by
  unfold objectKeys
  simp only [List.mem_append, List.mem_insertionSort, List.mem_filter, List.mem_reverse, List.mem_dedup]
  cases isIndex id <;> simp

/-- The keys of the sources are their numbers, in order. -/
theorem objectKeys_stats (st : PublishedStats) (mono real : UInt64) :
    objectKeys (sourcesOf (some (statsTree st mono real).value)) = sourceIds st.sources := by
  have same : ∀ id, id ∈ objectKeys (sourcesOf (some (statsTree st mono real).value)) ↔ id ∈ sourceIds st.sources := by
    intro id
    rw [sourcesOf_stats, Tree.value, mem_objectKeys, membersValue_eq, List.map_map, List.map_map]
    exact Iff.rfl
  have numeric := (sourceIds_numeric st.sources).sublist fun id => (same id).1
  exact (objectKeys_ascending numeric).unique (sourceIds_ascending st.sources) same

theorem prop_mem {ms : List (Bytes × Value)} {k : Bytes} {v : Value} (found : prop (.object ms) k = some v) : (k, v) ∈ ms := by
  obtain ⟨m, first, rfl⟩ := Option.map_eq_some_iff.1 found
  have name := List.find?_some first
  have mem := List.mem_of_find?_eq_some first
  rw [← of_decide_eq_true name]
  exact List.mem_reverse.1 mem

theorem unshowable_object {ms fields : List (Bytes × Value)} {id : Bytes} (found : prop (.object ms) id = some (.object fields)) :
    unshowable (.object ms) id = warnFields.any fun k => (prop (.object fields) k).any fun v => (toText v).isNone := by
  unfold unshowable
  simp only [found]

/-- What is reported of a source are numbers, which the page can compare. -/
theorem source_showable {sources : KeyMap UInt32 ReceiverSourceStats} {id : Bytes} (mem : id ∈ sourceIds sources) :
    unshowable (Tree.object ((ascending sources).map sourceTree)).value id = false := by
  obtain ⟨kv, there, rfl⟩ := List.mem_map.1 mem
  have names : (((ascending sources).map sourceTree).map Prod.fst).Nodup := by
    rw [List.map_map]
    exact (sourceIds_ascending sources).nodup
  obtain ⟨fields, eq⟩ : ∃ fields, (sourceTree kv).2.value = .object fields := ⟨_, rfl⟩
  have found : prop (Tree.object ((ascending sources).map sourceTree)).value (numText kv.1.toNat) = some (.object fields) :=
    (prop_tree names (List.mem_map_of_mem there)).trans (congrArg some eq)
  have numbers : ∀ m ∈ fields, (toText m.2).isNone = false := by
    cases eq
    simp [membersValue, memberValue, Tree.value, toText]
  rw [Tree.value] at found ⊢
  rw [unshowable_object found]
  refine List.any_eq_false.2 fun k _ => ?_
  cases known : prop (.object fields) k with
  | none => exact Bool.false_ne_true
  | some v =>
    rw [Option.any_some, numbers (k, v) (prop_mem known)]
    exact Bool.false_ne_true

theorem stats_showable (st : PublishedStats) (mono real : UInt64) : Showable (some (statsTree st mono real).value) := by
  have error := get_recording st mono real
    (List.mem_of_getElem? (show _[4]? = some (str "error", Tree.string _) from rfl))
  have file := get_recording st mono real
    (List.mem_of_getElem? (show _[1]? = some (str "file", Tree.string _) from rfl))
  refine showable_of [] ?_
  unfold throws
  rw [error, file, objectKeys_stats, sourcesOf_stats]
  simp only [Tree.value, throwing_string, Bool.and_false, Bool.false_or, Bool.or_eq_false_iff, List.any_eq_false]
  exact ⟨fun id mem => ne_true_of_eq_false (source_showable mem), fun _ _ => Bool.false_ne_true⟩

end Statistics

section Relayed

variable {l : ReceiverLoop} {text : Bytes}

/-- What the control server relays of a receiver can be shown, and its sources are those of the receiver. -/
theorem relays_shown (relayed : Relays l text) : NumericMessage text ∧ ∃ ms st, jsonParse text = some (.object ms) ∧
    prop (.object ms) (str "type") = some (.string (str "stats")) ∧ prop (.object ms) (str "stats") = some st ∧
    truthy (some st) = true ∧ Showable (some st) ∧
    objectKeys (sourcesOf (some st)) = sourceIds l.receiver.stats.sources := by
  obtain ⟨ms, st, mono, real, parsed, type, stats, -, -, -, sources⟩ := relays_tree relayed
  have keys := objectKeys_stats st mono real
  refine ⟨fun msg read => ?_, ms, _, parsed, type, stats, rfl, stats_showable st mono real, sources ▸ keys⟩
  rw [parsed] at read
  cases read
  rw [stats]
  unfold NumericSources
  rw [keys]
  exact sourceIds_numeric st.sources

/-- A page that hears of a receiver lists the sources of that receiver, and does not lose its connection for good. -/
theorem receiver_listed {b : Browser} (opened : b.socket = .opened) (shown : b.page.Shown) (relayed : Relays l text)
    (t : Time) : ∃ b', b.step (.message text t) = .ok (b', []) ∧ b'.page.Shown ∧
      b'.page.document.sources = sourceIds l.receiver.stats.sources ∧
      throws b'.page.stats b'.page.sourceItems = false := by
  obtain ⟨numeric, ms, st, parsed, type, stats, counts, showable, keys⟩ := relays_shown relayed
  obtain ⟨p, held⟩ : ∃ p, p = { b.page with envelope := some (.object ms) } := ⟨_, rfl⟩
  have noted : b.page.note (.object ms) = (p, false) := by
    rw [held]
    exact note_stats type
  have one : b.step (.message text t) = .ok ({ b with page := (p.render t).1 }, []) :=
    react_message opened parsed rfl noted
  have known : (p.render t).1.stats = some st := by
    unfold Page.stats
    rw [(p.rendered t).envelope, held]
    show ((prop (.object ms) (str "stats")).filter fun v => truthy (some v)) = _
    rw [stats, Option.filter_some, if_pos counts]
  have after := shown_react shown (.message text t) fun _ _ same => by
    cases same
    exact numeric
  rw [show b.react (.message text t) = _ from Except.ok.inj one] at after
  have current := after.current
  rw [show Page.stats _ = some st from known] at current
  refine ⟨_, one, after, (current rfl showable).trans keys, ?_⟩
  rw [show Page.stats _ = some st from known]
  exact showable _

end Relayed

end IpcRelay
