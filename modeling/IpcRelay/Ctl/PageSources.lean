import IpcRelay.Ctl.Frontend
import IpcRelay.Ctl.IdEcho

/-!
# The list of the sources on the page

A source is shown in front of the next one in numeric order, and taken off the page
when the receiver reports it no more. `page_sources`: in every run the list is
ascending, and it is the sources of the last statistics if the page can show them.
-/

namespace IpcRelay.Ctl.Frontend

open Binary64 Machine
open Json (Value)

section Numbers

variable {n : Nat}

/-- White space is no digit. -/
theorem strip_digit {cut : List Bytes} (blank : ∀ b ∈ cut, b.head?.all (fun c => !JsonGrammar.isDigit c) = true ∧ b ≠ [])
    {c : UInt8} (digit : JsonGrammar.isDigit c = true) (fuel : Nat) (s : Bytes) : strip cut fuel (c :: s) = c :: s := by
  cases fuel with
  | zero => rfl
  | succ fuel =>
    have other : cut.find? (·.isPrefixOf (c :: s)) = none := by
      rw [List.find?_eq_none]
      intro b mem begins
      obtain ⟨first, filled⟩ := blank b mem
      cases b with
      | nil => exact filled rfl
      | cons c' b =>
        obtain rfl : c' = c := (List.cons_prefix_cons.1 (List.isPrefixOf_iff_prefix.1 begins)).1
        have first : (!JsonGrammar.isDigit c') = true := first
        rw [digit] at first
        cases first
    rw [strip, other]

theorem strip_digits {cut : List Bytes} (blank : ∀ b ∈ cut, b.head?.all (fun c => !JsonGrammar.isDigit c) = true ∧ b ≠ [])
    {s : Bytes} (filled : s ≠ []) (all : ∀ b ∈ s, JsonGrammar.isDigit b = true) : strip cut s.length s = s := by
  obtain ⟨c, t, rfl⟩ := List.exists_cons_of_ne_nil filled
  exact strip_digit blank (all c List.mem_cons_self) _ t

theorem trimmed_digits {s : Bytes} (filled : s ≠ []) (all : ∀ b ∈ s, JsonGrammar.isDigit b = true) : trimmed s = s := by
  have behind : strip (blanks.map List.reverse) s.reverse.length s.reverse = s.reverse :=
    strip_digits (by decide) (List.reverse_ne_nil_iff.2 filled) fun b mem => all b (List.mem_reverse.1 mem)
  unfold trimmed
  rw [strip_digits (by decide) filled all]
  rw [List.length_reverse] at behind
  dsimp only
  rw [behind, List.reverse_reverse]

theorem isDecimal_digits {s : Bytes} (filled : s ≠ []) (all : ∀ b ∈ s, JsonGrammar.isDigit b = true) :
    isDecimal s = true := by
  obtain ⟨front, behind⟩ := takeWhile_digits_append (t := []) all (by rintro _ ⟨⟩)
  rw [List.append_nil] at front behind
  unfold isDecimal
  simp only [front, behind, List.append_nil]
  simpa using filled

/-- The number of a decimal text. -/
theorem textNumber_numText (few : n < 2 ^ 53) : ∃ negative m e, textNumber (numText n) = some (.finite negative m e) ∧
    (if negative then -1 else 1) * (m * 2 ^ e : ℚ) = n := by
  have filled := numText_ne_nil n
  have all := @numText_digit n
  obtain ⟨c, t, cons⟩ := List.exists_cons_of_ne_nil filled
  have first : JsonGrammar.isDigit c = true := all c (by rw [cons]; exact List.mem_cons_self)
  have unsigned : ¬ ((numText n).head? = some 45 ∨ (numText n).head? = some 43) := by
    rw [cons, List.head?_cons, Option.some_inj, Option.some_inj]
    rintro (rfl | rfl)
    · cases first
    · cases first
  have word : ¬ numText n = str "Infinity" := by
    intro same
    rw [cons] at same
    cases (List.cons.inj same).1
    cases first
  have digits := strtod_digits false filled all
  have read : textNumber (numText n) = some (strtod (numText n)) := by
    unfold textNumber
    simp only [trimmed_digits filled all, if_neg unsigned, if_neg filled, if_neg word, isDecimal_digits filled all, if_true]
  have value : strtod (numText n) = .ofDecimal false n 0 := by
    rw [decimal_numText] at digits
    exact digits
  have fits : Double.Fits n 0 := ⟨by decide, by decide, few.le, by rintro ⟨⟩⟩
  have same := @Double.ofDecimal_same false n n 0 0 fits (by norm_num)
  rw [read, value]
  cases rounded : Double.ofDecimal false n 0 with
  | finite negative m e =>
    rw [rounded, Double.Same, Double.toRat, Double.toRat, Option.some_inj] at same
    · exact ⟨negative, m, e, rfl, by simpa using same⟩
    · rintro _ _ ⟨⟩
  | infinite negative =>
    rw [rounded, Double.Same, Double.toRat, Double.toRat] at same
    · cases same
    · rintro _ _ _ ⟨⟩

theorem notBehind_iff {n' : Nat} (few : n < 2 ^ 53) (few' : n' < 2 ^ 53) :
    notBehind (numText n) (numText n') = true ↔ n ≤ n' := by
  obtain ⟨negative, m, e, read, value⟩ := textNumber_numText few
  obtain ⟨negative', m', e', read', value'⟩ := textNumber_numText few'
  unfold notBehind
  rw [read, read']
  unfold less
  dsimp only
  rw [value, value', Bool.not_eq_true', decide_eq_false_iff_not, not_lt]
  exact_mod_cast Iff.rfl

end Numbers

section Order

/-- The texts are in the order of their numbers. -/
abbrev Ascending (l : List Bytes) : Prop := l.Pairwise fun a b => decimal a < decimal b

/-- The texts are numbers of 32 bits as the backend writes them. -/
def Numeric (l : List Bytes) : Prop := ∀ id ∈ l, id = numText (decimal id) ∧ decimal id < 2 ^ 32

variable {l l' : List Bytes}

theorem Ascending.nodup (h : Ascending l) : l.Nodup := h.imp fun lt => by
  rintro rfl
  exact Nat.lt_irrefl _ lt

/-- An ascending list is known from its members. -/
theorem Ascending.unique (h : Ascending l) (h' : Ascending l') (same : ∀ id, id ∈ l ↔ id ∈ l') : l = l' :=
  ((List.perm_ext_iff_of_nodup h.nodup h'.nodup).2 same).eq_of_pairwise
    (fun _ _ _ _ lt gt => absurd (lt.trans gt) (Nat.lt_irrefl _)) h h'

theorem Numeric.inj (h : Numeric l) {a b : Bytes} (ha : a ∈ l) (hb : b ∈ l) (same : decimal a = decimal b) : a = b := by
  rw [(h a ha).1, (h b hb).1, same]

theorem Numeric.sublist (h : Numeric l) (sub : ∀ id ∈ l', id ∈ l) : Numeric l' := fun id mem => h id (sub id mem)

/-- The numbers of the script are in the order of the decimals. -/
theorem Numeric.notBehind (h : Numeric l) : ∀ a ∈ l, ∀ b ∈ l, notBehind a b = true ↔ decimal a ≤ decimal b := by
  intro a ha b hb
  obtain ⟨text, few⟩ := h a ha
  obtain ⟨text', few'⟩ := h b hb
  rw [text, text', decimal_numText, decimal_numText]
  exact notBehind_iff (by omega) (by omega)

/-- Sorting different numbers. -/
theorem ascending_sort (nodup : l.Nodup) (numeric : Numeric l) :
    Ascending (l.insertionSort fun a b => decimal a ≤ decimal b) := by
  have total : Std.Total fun a b : Bytes => decimal a ≤ decimal b := ⟨fun a b => Nat.le_total _ _⟩
  have trans : IsTrans Bytes fun a b => decimal a ≤ decimal b := ⟨fun _ _ _ => Nat.le_trans⟩
  have sorted := List.pairwise_insertionSort (fun a b : Bytes => decimal a ≤ decimal b) l
  have apart : (l.insertionSort fun a b => decimal a ≤ decimal b).Nodup := (List.perm_insertionSort _ l).nodup_iff.2 nodup
  refine (sorted.and apart).imp_of_mem fun {a b} ha hb both => Nat.lt_of_le_of_ne both.1 fun same => both.2 ?_
  exact numeric.inj ((List.mem_insertionSort _).1 ha) ((List.mem_insertionSort _).1 hb) same

theorem Numeric.sort_eq (h : Numeric l) :
    l.insertionSort (Frontend.notBehind · ·) = l.insertionSort fun a b => decimal a ≤ decimal b := by
  have same := List.map_insertionSort (fun a b => Frontend.notBehind a b = true) (fun a b => decimal a ≤ decimal b) id l
    h.notBehind
  rwa [List.map_id, List.map_id] at same

/-- What stands in front of the next element of an ascending list stands in its place. -/
theorem insertBefore_eq {id : Bytes} (h : Ascending l) (h' : Ascending l') (mem : ∀ a, a ∈ l' ↔ a ∈ l ∨ a = id)
    (new : id ∉ l) : insertBefore l id l'[l'.idxOf id + 1]? = l' := by
  obtain ⟨a, c, rfl⟩ := List.append_of_mem ((mem id).2 (.inr rfl))
  have apart := h'.nodup
  have behind : id ∉ a := fun twice => by
    have := List.nodup_append.1 apart
    exact this.2.2 id twice id List.mem_cons_self rfl
  have rest : l = a ++ c := by
    refine h.unique (h'.sublist (List.Sublist.append_left (List.sublist_cons_self id c) a)) fun x => ?_
    have here := mem x
    rw [List.mem_append, List.mem_cons] at here
    rw [List.mem_append]
    constructor
    · intro known
      rcases here.2 (.inl known) with first | rfl | second
      · exact .inl first
      · exact absurd known new
      · exact .inr second
    · intro other
      rcases here.1 (other.imp_right .inr) with known | rfl
      · exact known
      · rcases other with twice | twice
        · exact absurd twice behind
        · have := List.nodup_append.1 apart
          exact absurd twice (List.nodup_cons.1 this.2.1).1
  have place : (a ++ id :: c).idxOf id = a.length := by
    rw [List.idxOf_append_of_notMem behind, List.idxOf_cons_self, Nat.add_zero]
  rw [place, rest, List.getElem?_append_right (Nat.le_succ _), show a.length + 1 - a.length = 1 by omega]
  cases c with
  | nil => simp [insertBefore]
  | cons next c =>
    have free : ∀ x ∈ a, decide (x ≠ next) = true := by
      intro x known
      rw [decide_eq_true_iff]
      rintro rfl
      have := List.nodup_append.1 apart
      exact this.2.2 x known x (List.mem_cons_of_mem _ List.mem_cons_self) rfl
    show (a ++ next :: c).takeWhile (· ≠ next) ++ id :: (a ++ next :: c).dropWhile (· ≠ next) = _
    rw [List.takeWhile_append_of_pos free, List.dropWhile_append_of_pos free]
    simp

end Order

section Keys

variable {v : Value} {id : Bytes}

theorem numbers_ascending (n : Nat) : Ascending ((List.range n).map fun (i : Nat) => numText i) := by
  refine List.pairwise_map.2 (List.pairwise_lt_range.imp fun lt => ?_)
  rw [decimal_numText, decimal_numText]
  exact lt

/-- The keys of an object whose names are numbers. The number that is no index is the greatest of 32 bits. -/
theorem objectKeys_ascending (numeric : Numeric (objectKeys v)) : Ascending (objectKeys v) := by
  cases v with
  | object ms =>
    unfold objectKeys at numeric ⊢
    dsimp only at numeric ⊢
    obtain ⟨names, listed⟩ : ∃ names, names = (ms.map Prod.fst).reverse.dedup.reverse := ⟨_, rfl⟩
    have nodup : names.Nodup := listed ▸ List.nodup_reverse.2 (List.nodup_dedup _)
    rw [← listed] at numeric ⊢
    have small := numeric.sublist fun id mem => List.mem_append_left _ ((List.mem_insertionSort _).2 mem)
    have large : ∀ id ∈ names.filter (!isIndex ·), decimal id = 2 ^ 32 - 1 := by
      intro id mem
      obtain ⟨text, few⟩ := numeric id (List.mem_append_right _ mem)
      have no : isIndex id = false := by simpa using (List.mem_filter.1 mem).2
      have := mt (And.intro text) (of_decide_eq_false no)
      omega
    refine List.pairwise_append.2 ⟨ascending_sort (nodup.filter _) small, ?_, fun a ha b hb => ?_⟩
    · refine (nodup.filter _).imp_of_mem fun {a b} ha hb apart => absurd ?_ apart
      exact numeric.inj (List.mem_append_right _ ha) (List.mem_append_right _ hb) ((large a ha).trans (large b hb).symm)
    · have index := (List.mem_filter.1 ((List.mem_insertionSort _).1 ha)).2
      rw [large b hb]
      exact (of_decide_eq_true index).2
  | array vs => exact numbers_ascending _
  | string s => exact numbers_ascending _
  | _ => exact .nil

/-- A number is in an object or an array if it is one of its keys. -/
theorem has_number (number : id = numText (decimal id)) {known : Bool} (found : has v id = some known) :
    known = true ↔ id ∈ objectKeys v := by
  have foreign : ∀ name ∈ objectNames ++ arrayNames, name.head?.any JsonGrammar.isDigit = false := by decide
  have other : id ∉ objectNames ++ arrayNames := by
    intro mem
    have first := foreign id mem
    obtain ⟨c, t, cons⟩ := List.exists_cons_of_ne_nil (numText_ne_nil (decimal id))
    have digit := @numText_digit (decimal id) c (by rw [cons]; exact List.mem_cons_self)
    rw [number, cons] at first
    exact absurd (digit.symm.trans first) (by decide)
  rw [List.mem_append, not_or] at other
  unfold has at found
  split at found
  · cases found
    simp [other.1]
  · cases found
    simp [other.1, other.2]
  · cases found

end Keys

section Lists

variable {p : Page} {id : Bytes} {st : Option Value} {now : Time}

/-- The items of the page are those of the map, in numeric order. -/
structure Page.Listed (p : Page) : Prop where
  same : ∀ id, id ∈ p.sourceItems ↔ id ∈ p.document.sources
  nodup : p.sourceItems.Nodup
  numeric : Numeric p.sourceItems
  ascending : Ascending p.document.sources

theorem Page.Listed.congr {p' : Page} (h : p.Listed) (items : p'.sourceItems = p.sourceItems)
    (sources : p'.document.sources = p.document.sources) : p'.Listed := by
  refine ⟨?_, ?_, ?_, ?_⟩
  · rw [items, sources]
    exact h.same
  · rw [items]
    exact h.nodup
  · rw [items]
    exact h.numeric
  · rw [sources]
    exact h.ascending

theorem Page.Listed.sourceItem (h : p.Listed) (number : id = numText (decimal id) ∧ decimal id < 2 ^ 32) :
    (sourceItem p id).Listed := by
  unfold Frontend.sourceItem
  split
  next => exact h
  next new =>
    have nodup : (p.sourceItems ++ [id]).Nodup := by
      rw [List.nodup_append]
      exact ⟨h.nodup, List.nodup_singleton id, fun a mem b only same => new (List.mem_singleton.1 only ▸ same ▸ mem)⟩
    have numeric : Numeric (p.sourceItems ++ [id]) := fun a mem => (List.mem_append.1 mem).elim (h.numeric a) fun only => by
      rw [List.mem_singleton.1 only]
      exact number
    have sorted := ascending_sort nodup numeric
    have mem : ∀ a, a ∈ (p.sourceItems ++ [id]).insertionSort (fun a b => decimal a ≤ decimal b) ↔
        a ∈ p.document.sources ∨ a = id := fun a => by
      rw [List.mem_insertionSort, List.mem_append, List.mem_singleton, h.same]
    have shown := insertBefore_eq h.ascending sorted mem fun mem => new ((h.same id).2 mem)
    dsimp only
    rw [numeric.sort_eq, shown]
    exact ⟨fun a => (List.mem_insertionSort _).symm, nodup, numeric, sorted⟩

/-- The names of the sources are numbers. -/
def NumericSources (st : Option Value) : Prop := Numeric (objectKeys (sourcesOf st))

theorem Page.Listed.items : ∀ {ids : List Bytes} {p : Page}, p.Listed → Numeric ids →
    (ids.foldl Frontend.sourceItem p).Listed := by
  intro ids
  induction ids with
  | nil => exact fun h _ => h
  | cons id ids ih =>
    exact fun h numeric => ih (h.sourceItem (numeric id List.mem_cons_self)) fun a mem =>
      numeric a (List.mem_cons_of_mem _ mem)

theorem Page.Listed.dropSources (h : p.Listed) : (dropSources p).1.Listed := by
  unfold Frontend.dropSources
  dsimp only
  split
  · exact h
  · refine ⟨fun a => ?_, h.nodup.filter _, fun a mem => h.numeric a (List.mem_filter.1 mem).1, h.ascending.filter _⟩
    rw [List.mem_filter, List.mem_filter, h.same]

/-- A part of the script keeps the list in order, for statistics whose sources are numbers. -/
def KeepsList (q q' : Page) : Prop := NumericSources q.stats → q.Listed → NumericSources q'.stats ∧ q'.Listed

theorem KeepsList.trans {a b c : Page} (first : KeepsList a b) (second : KeepsList b c) : KeepsList a c :=
  fun numeric listed => (fun both => second both.1 both.2) (first numeric listed)

theorem showSources_keepsList (q : Page) : KeepsList q (showSources q).1 := fun numeric listed => by
  refine ⟨(showSources_later q).stats ▸ numeric, ?_⟩
  refine Script.each_keeps (R := fun t t' : Page => t.Listed → t'.Listed) (fun _ => id) (fun f g => g ∘ f) ?_ q listed
  exact fun id mem t listed => listed.sourceItem (numeric id mem)

/-- What `render` does with the list, whether it throws or not. -/
theorem Page.Listed.render (h : p.Listed) (numeric : NumericSources p.stats) (now : Time) : (p.render now).1.Listed := by
  have alert (q : Page) : KeepsList q (showAlert q).1 := fun numeric listed =>
    ⟨(showAlert_keeps q).1 ▸ numeric, listed.congr (showAlert_keeps q).2.1 (showAlert_keeps q).2.2.1⟩
  have file (q : Page) : KeepsList q (showFile q).1 := fun numeric listed =>
    ⟨(showFile_keeps q).1 ▸ numeric, listed.congr (showFile_keeps q).2.1 (showFile_keeps q).2.2.1⟩
  have drop (q : Page) : KeepsList q (Frontend.dropSources q).1 := fun numeric listed =>
    ⟨(dropSources_later q).stats ▸ numeric, listed.dropSources⟩
  have lists (q : Page) : KeepsList q ((showSources.andThen Frontend.dropSources) q).1 :=
    Script.andThen_keeps KeepsList.trans (showSources_keepsList q) drop
  have behind (q : Page) : KeepsList q ((showFile.andThen (showSources.andThen Frontend.dropSources)) q).1 :=
    Script.andThen_keeps KeepsList.trans (file q) lists
  obtain ⟨stats, items, shown⟩ := p.shownState_keeps now
  have all : KeepsList (p.settle now).showState (p.render now).1 :=
    Script.andThen_keeps KeepsList.trans (alert (p.settle now).showState) behind
  exact (all (stats ▸ numeric) (h.congr items shown)).2

/-- Statistics that the page can show, whatever it showed before. -/
def Showable (st : Option Value) : Prop := ∀ items, throws st items = false

/-- One item is enough to see that. -/
theorem showable_of (id : Bytes) (passed : throws st [id] = false) : Showable st := by
  have alike (a b : Bytes) : (has (sourcesOf st) a).isNone = (has (sourcesOf st) b).isNone := by
    cases sourcesOf st <;> rfl
  intro items
  unfold throws at passed ⊢
  rw [Bool.or_eq_false_iff, Bool.or_eq_false_iff, Bool.or_eq_false_iff] at passed ⊢
  obtain ⟨alert, file, blocks, inside⟩ := passed
  refine ⟨alert, file, blocks, List.any_eq_false.2 fun a _ => ?_⟩
  rw [alike a id]
  exact List.any_eq_false.1 inside id List.mem_cons_self

/-- What is left when the items of other sources are dropped. -/
theorem Page.Listed.dropped (h : p.Listed) (numeric : NumericSources p.stats) (reported : p.stats.isSome)
    (keys : ∀ id ∈ objectKeys (sourcesOf p.stats), id ∈ p.sourceItems) (passed : (Frontend.dropSources p).2 = false) :
    (Frontend.dropSources p).1.document.sources = objectKeys (sourcesOf p.stats) := by
  have kept (a : Bytes) (there : a ∈ p.sourceItems) :
      has (sourcesOf p.stats) a ≠ some false ↔ a ∈ objectKeys (sourcesOf p.stats) := by
    rw [dropSources_threw, List.any_eq_false] at passed
    obtain ⟨answer, answered⟩ := Option.ne_none_iff_exists'.1 (by simpa using passed a there)
    rw [← has_number (h.numeric a there).1 answered, answered]
    cases answer <;> simp
  have present : p.stats.isNone = false := by
    rw [Option.isNone_eq_false_iff]
    exact reported
  unfold Frontend.dropSources
  rw [present, if_neg Bool.false_ne_true]
  refine Ascending.unique (h.ascending.filter _) (objectKeys_ascending numeric) fun a => ?_
  rw [List.mem_filter, ← h.same, decide_eq_true_iff]
  exact ⟨fun both => (kept a both.1).1 both.2, fun key => ⟨keys a key, (kept a (keys a key)).2 key⟩⟩

/-- And then it shows their sources. -/
theorem Page.Listed.current (h : p.Listed) (numeric : NumericSources p.stats) (reported : p.stats.isSome)
    (showable : Showable p.stats) (now : Time) :
    (p.render now).1.document.sources = objectKeys (sourcesOf p.stats) := by
  obtain ⟨stats, items, shown⟩ := p.shownState_keeps now
  obtain ⟨q, hq⟩ : ∃ q, q = (p.settle now).showState := ⟨_, rfl⟩
  rw [← hq] at stats items shown
  have threw := p.render_threw now
  rw [showable p.sourceItems] at threw
  unfold Page.render at threw ⊢
  rw [← hq] at threw ⊢
  -- no part throws, so that each starts with what the part before it left
  rw [Script.andThen_threw, Script.andThen_threw, Script.andThen_threw, Bool.or_eq_false_iff, Bool.or_eq_false_iff,
    Bool.or_eq_false_iff] at threw
  obtain ⟨alert, file, items', drop⟩ := threw
  rw [Script.andThen_passed alert, Script.andThen_passed file, Script.andThen_passed items']
  obtain ⟨stats₁, items₁, shown₁, -⟩ := showAlert_keeps q
  obtain ⟨stats₂, items₂, shown₂, -⟩ := showFile_keeps (showAlert q).1
  obtain ⟨r, hr⟩ : ∃ r, r = (showFile (showAlert q).1).1 := ⟨_, rfl⟩
  rw [← hr] at stats₂ items₂ shown₂ items' drop ⊢
  have known : r.stats = p.stats := stats₂.trans (stats₁.trans stats)
  have listed : r.Listed := h.congr (items₂.trans (items₁.trans items)) (shown₂.trans (shown₁.trans shown))
  have before := (showSources_later r).stats.trans known
  obtain ⟨-, shows⟩ := showSources_keepsList r (known ▸ numeric) listed
  have all := shows.dropped (before ▸ numeric) (before ▸ reported) ?_ drop
  · rw [before] at all
    exact all
  · rw [showSources_threw] at items'
    rw [before, showSources_passed items', known]
    exact fun id key => (mem_items _ r id).2 (.inr key)

/-- The list of the page is in order, and it is the sources of its statistics if they can be shown. -/
structure Page.Shown (p : Page) : Prop where
  listed : p.Listed
  numeric : NumericSources p.stats
  current : p.stats.isSome → Showable p.stats → p.document.sources = objectKeys (sourcesOf p.stats)

theorem Page.Listed.shown (h : p.Listed) (numeric : NumericSources p.stats) (now : Time) : (p.render now).1.Shown := by
  have stats : (p.render now).1.stats = p.stats := by
    unfold Page.stats
    rw [(p.rendered now).envelope]
  refine ⟨h.render numeric now, stats ▸ numeric, fun reported showable => ?_⟩
  rw [stats] at reported showable ⊢
  exact h.current numeric reported showable now

theorem Page.Shown.congr {p' : Page} (h : p.Shown) (stats : p'.stats = p.stats) (items : p'.sourceItems = p.sourceItems)
    (sources : p'.document.sources = p.document.sources) : p'.Shown := by
  refine ⟨h.listed.congr items sources, stats ▸ h.numeric, ?_⟩
  rw [stats, sources]
  exact h.current

/-- The sources that a message reports, if it reports any, are numbers. -/
def NumericMessage (text : Bytes) : Prop := ∀ msg, jsonParse text = some msg → NumericSources (prop msg (str "stats"))

theorem NumericSources.filter (h : NumericSources st) : NumericSources (st.filter fun v => truthy (some v)) := by
  cases st with
  | none => exact h
  | some v =>
    rw [Option.filter_some]
    split
    · exact h
    · exact fun id mem => absurd mem List.not_mem_nil

theorem Page.Shown.note (h : p.Shown) {msg : Value} (numeric : NumericSources (prop msg (str "stats"))) :
    (p.note msg).1.Listed ∧ NumericSources (p.note msg).1.stats := by
  unfold Page.note
  split
  · split
    · exact ⟨h.listed.congr rfl rfl, h.numeric⟩
    · split
      · exact ⟨h.listed.congr rfl rfl, numeric.filter⟩
      · split
        · split
          · exact ⟨h.listed.congr rfl rfl, h.numeric⟩
          · exact ⟨h.listed.congr rfl rfl, h.numeric⟩
        · exact ⟨h.listed, h.numeric⟩
  · exact ⟨h.listed, h.numeric⟩

/-- What an event leaves is shown as well. -/
theorem shown_react {b : Browser} (h : b.page.Shown) (e : PageEvent)
    (numeric : ∀ text now, e = .message text now → NumericMessage text) : (b.react e).1.page.Shown := by
  cases e with
  | opened now =>
    rw [Browser.react]
    split
    · have before : Page.Listed { b.page with isOpen := true, reconnectDelay := 500 } := h.listed.congr rfl rfl
      exact before.shown h.numeric now
    · exact h
  | message text now =>
    rw [Browser.react]
    split
    · rcases b.page.onmessage_cases text now with same | ⟨msg, parsed, ⟨left, noted⟩ | rendered⟩
      · exact h.congr (congrArg Page.stats same) (congrArg Page.sourceItems same)
          (congrArg (fun p => p.document.sources) same)
      · rw [left, noted]
        exact h.congr rfl rfl rfl
      · obtain ⟨listed, numbers⟩ := h.note (numeric text now rfl msg parsed)
        rw [rendered]
        exact listed.shown numbers now
    · exact h
  | closed now =>
    rw [Browser.react]
    split
    · exact h
    · have before : Page.Listed { b.page with isOpen := false, ws := false, pending := none } := h.listed.congr rfl rfl
      have shown := before.shown h.numeric now
      unfold Page.onclose
      dsimp only
      split
      · exact shown
      · exact shown.congr rfl rfl rfl
  | timer now =>
    rw [Browser.react]
    split
    · exact h
    · exact h.congr rfl rfl rfl
  | click now =>
    rw [Browser.react]
    split
    · exact h
    · unfold Page.click
      split
      · exact h
      · dsimp only
        split
        · exact h.congr rfl rfl rfl
        · have before (pending : Pending) (nextId : Nat) : Page.Listed
              { b.page with commandError := [], pending := some pending, nextId := nextId } := h.listed.congr rfl rfl
          exact (before _ _).shown h.numeric now
  | tick now => exact h.listed.shown h.numeric now

/-- The list of the sources is always in numeric order, and it is the sources of the last statistics where these can be
shown: none is listed twice, none is missing and none is left over. -/
theorem page_sources (start : Time) (es : List PageEvent)
    (numeric : ∀ text now, .message text now ∈ es → NumericMessage text) :
    ∃ b os, run Browser.step (.load start) es = .ok (b, os) ∧ Ascending b.page.document.sources ∧
      ∀ st, b.page.stats = some st → Showable (some st) → b.page.document.sources = objectKeys (sourcesOf (some st)) := by
  have first : (Browser.load start).page.Shown := by
    have nothing : Numeric [] := fun _ mem => absurd mem List.not_mem_nil
    have empty : Page.Listed {} := ⟨fun _ => Iff.rfl, List.nodup_nil, nothing, .nil⟩
    rw [load_eq]
    exact (empty.shown nothing start).congr rfl rfl rfl
  have safe : ∀ (u : Browser) e, u.page.Shown → (∀ text now, e = .message text now → NumericMessage text) →
      ∃ u' o, Browser.step u e = .ok (u', o) ∧ u'.page.Shown := fun u e shown numbers =>
    ⟨_, _, rfl, shown_react shown e numbers⟩
  obtain ⟨b, os, ran, shown⟩ := run_total_on safe es first fun e mem text now same => numeric text now (same ▸ mem)
  refine ⟨b, os, ran, shown.listed.ascending, fun st stats => ?_⟩
  have current := shown.current
  rw [stats] at current
  exact current rfl

/-- Statistics with two sources, which the text names in no order. -/
def labSources : Bytes :=
  str "\x7b\"type\":\"stats\",\"stats\":\x7b\"sources\":\x7b\"10\":\x7b\x7d,\"2\":\x7b\x7d\x7d\x7d\x7d"

theorem labSources_numeric : NumericMessage labSources := by
  have names : (jsonParse labSources).map (fun msg => objectKeys (sourcesOf (prop msg (str "stats")))) =
      some [str "2", str "10"] := by decide +kernel
  intro msg parsed
  rw [parsed, Option.map_some, Option.some_inj] at names
  unfold NumericSources
  rw [names]
  unfold Numeric
  decide +kernel

theorem page_sources_lab : ∃ b os, run Browser.step (.load 0) [.opened 1, .message labSources 2] = .ok (b, os) ∧
    b.page.document.sources = [str "2", str "10"] := by
  have seen : (run Browser.step (.load 0) [.opened 1, .message labSources 2]).toOption.map (fun r =>
      (r.1.page.stats.isSome, throws r.1.page.stats [[]], objectKeys (sourcesOf r.1.page.stats))) =
      some (true, false, [str "2", str "10"]) := by decide +kernel
  obtain ⟨b, os, ran, -, current⟩ := page_sources 0 [.opened 1, .message labSources 2] fun text now mem => by
    have here : text = labSources ∧ now = 2 := by simpa using mem
    exact here.1 ▸ labSources_numeric
  rw [ran] at seen
  obtain ⟨reported, passed, keys⟩ : b.page.stats.isSome = _ ∧ throws b.page.stats [[]] = _ ∧ _ = _ := by
    simpa only [Except.toOption, Option.map_some, Option.some_inj, Prod.mk.injEq] using seen
  obtain ⟨st, stats⟩ := Option.isSome_iff_exists.1 reported
  rw [stats] at passed keys
  exact ⟨b, os, ran, (current st stats (showable_of [] passed)).trans keys⟩

end Lists

end IpcRelay.Ctl.Frontend
