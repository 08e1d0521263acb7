import ExtensibleRegex.Edit.Held
import ExtensibleRegex.Proofs.Results
import Mathlib.Tactic

/-!
# What regexes in use answer

A regex in use answers as a regex with a cursor does that makes no copies. `Yields` says what a task
answers from a state and what can be seen of the state it leads to; here that is the regex and its
cursor, not the copies.

* A copy that has been made is the one that would be made now, so searches answer the same
  (`Held.yields_searchAt?`).
* Everything else is put together from searches. So each task has its answer
  (`RegexTask.yields_perform`), and so has each request to several regexes (`Request.yields_perform`).
-/

namespace ExtensibleRegex

/-! ## 1. Tasks and what shows of their states -/

/-- From a state, a task answers `a` and leads to a state of which `t` is seen. -/
structure Yields {σ τ α : Type} (view : σ → τ) (s : σ) (task : StateM σ α) (a : α) (t : τ) : Prop where
  answers : (task.run s).1 = a
  shows : view (task.run s).2 = t

namespace Yields

variable {σ τ α β : Type} {view : σ → τ} {s : σ} {a : α} {b : β} {t u : τ}

theorem pure (view : σ → τ) (s : σ) (a : α) : Yields view s (Pure.pure a) a (view s) := ⟨rfl, rfl⟩

theorem bind {task : StateM σ α} {next : α → StateM σ β} (h : Yields view s task a t)
    (hnext : ∀ s', view s' = t → Yields view s' (next a) b u) : Yields view s (task >>= next) b u := by
  have hrest := hnext (task.run s).2 h.shows
  rw [← h.answers] at hrest
  exact ⟨hrest.answers, hrest.shows⟩

theorem get {next : σ → StateM σ β} (h : Yields view s (next s) b u) :
    Yields view s (MonadState.get >>= next) b u := ⟨h.answers, h.shows⟩

theorem map (f : α → β) {task : StateM σ α} (h : Yields view s task a t) :
    Yields view s (task >>= fun x => Pure.pure (f x)) (f a) t :=
  h.bind fun s' hs' => hs' ▸ pure view s' (f a)

end Yields

namespace Held

variable {h h' : Held}

theorem regex_eq {l : Live} (hl : h.toLive = l) : h.regex = l.regex := congrArg Live.regex hl

theorem cursor_eq {l : Live} (hl : h.toLive = l) : h.cursor = l.cursor := congrArg Live.cursor hl

/-! ## 2. Searching -/

/-- The copy for searches from a place on is what it would be if it were made now. -/
theorem yields_plainCopy (h : Held) :
    ∃ copy, Yields toLive h plainCopy copy h.toLive ∧ copy.regex = h.regex.plainCopy := by
  cases hplain : h.plain with
  | some copy =>
    refine ⟨copy, ⟨?_, ?_⟩, h.plain_eq copy hplain⟩ <;> simp only [plainCopy, StateT.run, hplain]
  | none =>
    refine ⟨⟨h.regex.plainCopy, 0⟩, ⟨?_, ?_⟩, rfl⟩ <;> simp only [plainCopy, StateT.run, hplain]

/-- The copy for searches at exactly a place is what it would be if it were made now. -/
theorem yields_anchoredCopy? (h : Held) :
    ∃ copy, Yields toLive h anchoredCopy? copy h.toLive ∧
      copy.map Live.regex = h.regex.anchoredCopy? := by
  cases hanchored : h.anchored with
  | some copy =>
    refine ⟨copy, ⟨?_, ?_⟩, h.anchored_eq copy hanchored⟩ <;>
      simp only [anchoredCopy?, StateT.run, hanchored]
  | none =>
    refine ⟨h.regex.anchoredCopy?.map fun re => ⟨re, 0⟩, ⟨?_, ?_⟩, by simp [Function.comp_def]⟩ <;>
      simp only [anchoredCopy?, StateT.run, hanchored]

/-- The engine of the copy for searches at exactly a place runs the second program of the regex. -/
theorem anchored_eq_program (re : Regex) :
    re.engine.anchored = re.anchoredCopy?.map fun copy => copy.engine.program := by
  rw [re.engine.anchored_eq, Regex.anchoredCopy?, Regex.nativeSource]
  unfold Native.Engine.ofSource
  split
  · rename_i program hprogram
    exact hprogram
  · rename_i hnone
    exact hnone

/-- **A search** answers the same, whatever has been copied before, and leaves the cursor. -/
theorem yields_searchAt? (h : Held) (p : Place) (sticky : Bool) :
    Yields toLive h (searchAt? p sticky) (h.regex.searchAt? p sticky) h.toLive := by
  refine .get ?_
  cases sticky with
  | false =>
    obtain ⟨copy, hcopy, hregex⟩ := yields_plainCopy h
    have hmap := hcopy.map fun copy : Live => (copy.regex.engine.search? p).map h.regex.captures
    rw [hregex] at hmap
    exact hmap
  | true =>
    obtain ⟨anchored, hanchored, hprogram⟩ := yields_anchoredCopy? h
    have hengine := anchored_eq_program h.regex
    rw [← hprogram, Option.map_map] at hengine
    refine hanchored.bind fun h' hh' => ?_
    simp only [Regex.searchAt?, if_true, Native.Engine.searchAt?, hengine]
    cases anchored with
    | some copy =>
      simp only [Option.map_some, Function.comp_apply, Native.Engine.search?]
      cases copy.regex.engine.program.search? p with
      | none => exact hh' ▸ .pure toLive h' none
      | some f =>
        simp only
        cases f.groups.getLast? with
        | none => exact hh' ▸ .pure toLive h' none
        | some last =>
          cases last with
          | none =>
            rw [← regex_eq hh']
            exact hh' ▸ .pure toLive h' _
          | some span => exact hh' ▸ .pure toLive h' none
    | none =>
      obtain ⟨copy, hcopy, hregex⟩ := yields_plainCopy h'
      have hsame : copy.regex.engine = h.regex.engine := by
        rw [hregex, regex_eq hh']
        rfl
      rw [hh'] at hcopy
      refine hcopy.bind fun h'' hh'' => ?_
      simp only [Option.map_none, hsame, Native.Engine.search?]
      cases h.regex.engine.program.search? p with
      | none => exact hh'' ▸ .pure toLive h'' none
      | some f =>
        simp only
        split <;> exact hh'' ▸ .pure toLive h'' _

theorem yields_searchFrom? (h : Held) (t : Text) (offset : Nat) (sticky : Bool) :
    Yields toLive h (searchFrom? t offset sticky) (h.regex.searchFrom? t offset sticky) h.toLive := by
  unfold searchFrom? Regex.searchFrom?
  cases Place.atOffset? t offset with
  | some p => exact yields_searchAt? h p sticky
  | none => exact .pure toLive h none

theorem yields_find? (h : Held) (t : Text) :
    Yields toLive h (find? t) (h.regex.find? t) h.toLive := yields_searchAt? h _ false

/-! ## 3. The cursor -/

theorem yields_setCursor (h : Held) (cursor : Nat) :
    Yields toLive h (setCursor cursor) () ⟨h.regex, cursor⟩ := ⟨rfl, rfl⟩

theorem yields_setGlobalCursor (h : Held) (cursor : Nat) :
    Yields toLive h (setGlobalCursor cursor) ()
      ⟨h.regex, if h.regex.global then cursor else h.cursor⟩ := by
  refine .get ?_
  by_cases hglobal : h.regex.global = true
  · simp only [if_pos hglobal]
    exact yields_setCursor h cursor
  · simp only [if_neg hglobal]
    exact .pure toLive h ()

/-- What has been found is answered, after a global regex has had its cursor set. -/
theorem yields_setting {α : Type} {task : HeldM α} {a : α} {h : Held}
    (htask : Yields toLive h task a h.toLive) (cursor : α → Nat) :
    Yields toLive h (task >>= fun x => do setGlobalCursor (cursor x); return x) a
      ⟨h.regex, if h.regex.global then cursor a else h.cursor⟩ := by
  refine htask.bind fun h' hh' => ?_
  have hset := yields_setGlobalCursor h' (cursor a)
  rw [regex_eq hh', cursor_eq hh'] at hset
  exact hset.bind fun h'' hh'' => hh'' ▸ .pure toLive h'' a

theorem yields_search (h : Held) (t : Text) (offset : Nat) (sticky : Option Bool) :
    Yields toLive h (search t offset sticky) (h.regex.search t offset sticky h.cursor).1
      ⟨h.regex, (h.regex.search t offset sticky h.cursor).2⟩ :=
  .get (yields_setting (yields_searchFrom? h t offset _) Regex.cursorAfter)

theorem yields_exec (h : Held) (t : Text) :
    Yields toLive h (exec t) (h.regex.exec t h.cursor).1 ⟨h.regex, (h.regex.exec t h.cursor).2⟩ := by
  refine .get ?_
  unfold Regex.exec
  by_cases hcursor : (h.regex.global || h.regex.sticky) = true
  · simp only [if_pos hcursor]
    refine (yields_searchFrom? h t h.cursor h.regex.sticky).bind fun h' hh' => ?_
    have hset := yields_setCursor h' (Regex.cursorAfter (h.regex.searchFrom? t h.cursor h.regex.sticky))
    rw [regex_eq hh'] at hset
    exact hset.bind fun h'' hh'' => hh'' ▸ .pure toLive h'' _
  · simp only [if_neg hcursor]
    exact yields_searchFrom? h t 0 false

theorem yields_firstMatch? (h : Held) (t : Text) :
    Yields toLive h (firstMatch? t) (h.regex.searchAt? (.first t) h.regex.sticky)
      ⟨h.regex, if h.regex.global then
        Regex.cursorAfter (h.regex.searchAt? (.first t) h.regex.sticky) else h.cursor⟩ :=
  .get (yields_setting (yields_searchAt? h _ _) Regex.cursorAfter)

/-! ## 4. All matches -/

theorem yields_matchesFrom : ∀ (left : Text) (h : Held) (p : Place),
    Yields toLive h (matchesFrom left p) (h.regex.matchesFrom left p) h.toLive
  | left, h, p => by
      unfold matchesFrom Regex.matchesFrom
      refine .get ((yields_searchAt? h p h.regex.sticky).bind fun h' hh' => ?_)
      cases h.regex.searchAt? p h.regex.sticky with
      | none => exact hh' ▸ .pure toLive h' []
      | some c =>
        simp only
        cases c.whole.resume? with
        | none => exact hh' ▸ .pure toLive h' [c]
        | some q =>
          cases left with
          | nil => exact hh' ▸ .pure toLive h' [c]
          | cons x left =>
            have hrest := (yields_matchesFrom left h' q).map (c :: ·)
            rw [hh'] at hrest
            exact hrest

theorem yields_allMatches (h : Held) (t : Text) :
    Yields toLive h (allMatches t) (h.regex.allMatches t) h.toLive := yields_matchesFrom _ _ _

theorem yields_visitAll (h : Held) (t : Text) :
    Yields toLive h (visitAll t) (h.regex.visitAll t h.cursor).1
      ⟨h.regex, (h.regex.visitAll t h.cursor).2⟩ :=
  yields_setting (yields_allMatches h t) fun _ => 0

/-! ## 5. Editing -/

theorem exists_matchesFrom_eq {re : Regex} {p : Place} {c : Captures}
    (h : re.searchAt? p re.sticky = some c) (left : Text) :
    ∃ cs, re.matchesFrom left p = c :: cs := by
  unfold Regex.matchesFrom
  rw [h]
  simp only
  split
  · exact ⟨[], rfl⟩
  · split
    · exact ⟨[], rfl⟩
    · exact ⟨_, rfl⟩

section Replacing

variable {σ : Type} {replacement : Replacement σ} {state state' : σ} {c : Captures}

/-- A replacement that fails for a match ends the copying, in the state that it leaves. -/
theorem run_spliceFrom_of_error {e : Error} (hmiddle : (replacement c).run.run state = (.error e, state'))
    (last : Place) (cs : List Captures) :
    (spliceFrom replacement last (c :: cs)).run.run state = (.error e, state') := by
  rw [spliceFrom, ExceptT.run_bind, StateT.run_bind, hmiddle]
  rfl

/-- Behind a replaced match the copying goes on, in the state that the replacement leaves. -/
theorem run_spliceFrom_of_ok {middle : Text} (hmiddle : (replacement c).run.run state = (.ok middle, state'))
    (last : Place) (cs : List Captures) :
    (spliceFrom replacement last (c :: cs)).run.run state =
      ((spliceFrom replacement c.whole.stop cs).run.run state').map
        (Except.map ((Span.mk last c.whole.start).text ++ middle ++ ·)) id := by
  rw [spliceFrom, ExceptT.run_bind, StateT.run_bind, hmiddle]
  show ((ExceptT.run (spliceFrom replacement c.whole.stop cs >>= fun rest => pure _)).run state') = _
  rw [ExceptT.run_bind, StateT.run_bind]
  rcases (spliceFrom replacement c.whole.stop cs).run.run state' with ⟨_ | _, _⟩ <;> rfl

/-- Replacing while searching is replacing what a search for all matches finds. -/
theorem yields_replaceFrom (replacement : Replacement σ) : ∀ (left : Text) (h : Held) (state : σ)
    (last p : Place), Yields toLive h (replaceFrom replacement left state last p)
      ((spliceFrom replacement last (h.regex.matchesFrom left p)).run.run state) h.toLive
  | left, h, state, last, p => by
      unfold replaceFrom
      refine .get ((yields_searchAt? h p h.regex.sticky).bind fun h' hh' => ?_)
      cases hfound : h.regex.searchAt? p h.regex.sticky with
      | none =>
        unfold Regex.matchesFrom
        rw [hfound]
        exact hh' ▸ .pure toLive h' _
      | some c =>
        obtain ⟨middle, state', hmiddle⟩ : ∃ middle state',
            (replacement c).run.run state = (middle, state') := ⟨_, _, rfl⟩
        simp only [hmiddle]
        cases middle with
        | error e =>
          obtain ⟨cs, hcs⟩ := exists_matchesFrom_eq hfound left
          rw [hcs, run_spliceFrom_of_error hmiddle]
          exact hh' ▸ .pure toLive h' _
        | ok middle =>
          unfold Regex.matchesFrom
          rw [hfound]
          simp only
          cases c.whole.resume? with
          | none =>
            simp only
            rw [run_spliceFrom_of_ok hmiddle]
            exact hh' ▸ .pure toLive h' _
          | some q =>
            cases left with
            | nil =>
              simp only
              rw [run_spliceFrom_of_ok hmiddle]
              exact hh' ▸ .pure toLive h' _
            | cons x left =>
              have hrest := (yields_replaceFrom replacement left h' state' c.whole.stop q).map
                (Prod.map (Except.map ((Span.mk last c.whole.start).text ++ middle ++ ·)) id)
              rw [hh'] at hrest
              simp only
              rw [run_spliceFrom_of_ok hmiddle]
              exact hrest

theorem yields_replaceFirst (replacement : Replacement σ) (h : Held) (t : Text) (state : σ) :
    Yields toLive h (replaceFirst replacement t state)
      ((splice replacement t (h.regex.searchAt? (.first t) h.regex.sticky).toList).run.run state)
      h.toLive := by
  refine .get ((yields_searchAt? h _ h.regex.sticky).bind fun h' hh' => ?_)
  cases h.regex.searchAt? (.first t) h.regex.sticky with
  | none => exact hh' ▸ .pure toLive h' _
  | some c =>
    obtain ⟨middle, state', hmiddle⟩ : ∃ middle state',
        (replacement c).run.run state = (middle, state') := ⟨_, _, rfl⟩
    simp only [Option.toList_some, splice, hmiddle]
    cases middle with
    | error e =>
      rw [run_spliceFrom_of_error hmiddle]
      exact hh' ▸ .pure toLive h' _
    | ok middle =>
      rw [run_spliceFrom_of_ok hmiddle]
      exact hh' ▸ .pure toLive h' _

theorem yields_spliced (replacement : Replacement σ) (h : Held) (t : Text) (state : σ) (all : Bool) :
    Yields toLive h (spliced replacement t state all)
      ((splice replacement t (h.regex.matchesIn t all)).run.run state) h.toLive := by
  cases all with
  | true => exact yields_replaceFrom replacement t h state _ _
  | false => exact yields_replaceFirst replacement h t state

theorem yields_replace (h : Held) (t : Text) (replacement : Replacement σ) (state : σ)
    (extent : Option ReplaceExtent) :
    Yields toLive h (replace t replacement state extent)
      (h.regex.replace t replacement state extent h.cursor).1
      ⟨h.regex, (h.regex.replace t replacement state extent h.cursor).2⟩ := by
  refine .get ((yields_spliced replacement h t state _).bind fun h' hh' => ?_)
  unfold Regex.replace
  rcases (splice replacement t (h.regex.matchesIn t (takesAll h.regex.global extent))).run.run state with
    ⟨e | result, state'⟩
  · exact hh' ▸ .pure toLive h' _
  · have hset := yields_setGlobalCursor h' 0
    rw [hh'] at hset
    exact hset.bind fun h'' hh'' => hh'' ▸ .pure toLive h'' _

end Replacing

theorem yields_pieces (h : Held) (t : Text) :
    Yields toLive h (pieces t) (h.regex.pieces t) h.toLive := by
  refine (yields_allMatches h t).bind fun h' hh' => ?_
  unfold Regex.pieces
  simp only
  split
  · have hempty := yields_find? h' []
    rw [hh'] at hempty
    exact hempty.bind fun h'' hh'' => hh'' ▸ .pure toLive h'' _
  · exact hh' ▸ .pure toLive h' _

end Held

/-! ## 6. Tasks -/

open Held in
/-- **A task for a regex in use** is answered as by a regex with a cursor, which has no copies. -/
theorem RegexTask.yields_perform (h : Held) (task : RegexTask) :
    Yields toLive h task.perform (task.answer h.regex h.cursor).1
      ⟨h.regex, (task.answer h.regex h.cursor).2⟩ := by
  cases task with
  | setCursor offset => exact (yields_setCursor h offset).map fun _ => Reply.nothing
  | exec t => exact (yields_exec h t).map Reply.captures
  | execTest t => exact (yields_exec h t).map (Reply.verdict ·.isSome)
  | search t offset sticky => exact (yields_search h t offset sticky).map Reply.captures
  | searchTest t offset sticky => exact (yields_search h t offset sticky).map (Reply.verdict ·.isSome)
  | isMatch t => exact (yields_find? h t).map (Reply.verdict ·.isSome)
  | findSpan t => exact (yields_find? h t).map fun found => Reply.span (found.map Captures.whole)
  | find t => exact (yields_find? h t).map Reply.captures
  | allMatches t => exact (yields_allMatches h t).map Reply.allCaptures
  | firstMatchText t =>
    exact (yields_firstMatch? h t).map fun found => Reply.text? (found.map Captures.text)
  | allMatchTexts t => exact (yields_visitAll h t).map fun found => Reply.texts (found.map Captures.text)
  | visitAll t => exact (yields_visitAll h t).map Reply.allCaptures
  | replace t replacement state extent =>
    exact (yields_replace h t replacement state extent).map fun answer => Reply.replaced answer.1
  | split t limit => exact ((yields_pieces h t).map (limitPieces limit)).map Reply.texts

/-! ## 7. Requests -/

namespace Held

variable {ι : Type} [DecidableEq ι] {α : Type}

/-- What is seen of several regexes in use. -/
def shown (held : ι → Held) : ι → Live := fun i => (held i).toLive

/-- What is seen of them once the cursors of the global ones among some have been set back. -/
def rewound (held : ι → Held) (ids : List ι) : ι → Live := fun i =>
  ⟨(held i).regex, if (held i).regex.global = true ∧ i ∈ ids then 0 else (held i).cursor⟩

variable {held held' : ι → Held} {i : ι}

theorem rewound_nil (held : ι → Held) : rewound held [] = shown held := by
  funext j
  simp [rewound, shown]

theorem rewound_of_shown {ids ids' : List ι} (h : shown held' = rewound held ids) :
    rewound held' ids' = rewound held (ids ++ ids') := by
  funext j
  have hj : (held' j).toLive = _ := congrFun h j
  simp only [rewound, hj, List.mem_append]
  by_cases hglobal : (held j).regex.global = true
  · by_cases hids : j ∈ ids <;> simp [hglobal, hids]
  · simp [hglobal]

theorem regex_of_shown {ids : List ι} (h : shown held' = rewound held ids) (j : ι) :
    (held' j).regex = (held j).regex := by
  have hj : (held' j).toLive = _ := congrFun h j
  rw [hj, rewound]

theorem rewound_congr {ids ids' : List ι} (h : ∀ j, j ∈ ids ↔ j ∈ ids') :
    rewound held ids = rewound held ids' := by
  funext j
  simp only [rewound, h j]

theorem yields_at {task : HeldM α} {a : α} {l : Live} (h : Yields toLive (held i) task a l) :
    Yields shown held (Held.at i task) a fun j => if j = i then l else (held j).toLive where
  answers := h.answers
  shows := by
    funext j
    show (if j = i then (task.run (held i)).2 else held j).toLive = _
    split
    · exact h.shows
    · rfl

theorem yields_visitAll_at (held : ι → Held) (i : ι) (t : Text) :
    Yields shown held (Held.at i (visitAll t)) ((held i).regex.allMatches t) (rewound held [i]) := by
  have hvisit := yields_at (yields_visitAll (held i) t)
  have hshown : rewound held [i] = fun j => if j = i then
      ⟨(held i).regex, ((held i).regex.visitAll t (held i).cursor).2⟩ else (held j).toLive := by
    funext j
    simp only [rewound, Regex.visitAll, List.mem_singleton]
    by_cases hj : j = i
    · simp [hj]
    · simp [hj]
  exact hshown ▸ hvisit

theorem valuesOfAll_cons (link : Link) (t : Text) (ts : List Text) :
    link.valuesOfAll (t :: ts) =
      (link.values t >>= fun made => (link.valuesOfAll ts).map (made ++ ·)) := by
  unfold Link.valuesOfAll
  rw [List.mapM_cons]
  cases link.values t with
  | error e => rfl
  | ok made => cases List.mapM link.values ts <;> rfl

theorem yields_linkValues (i : ι) (choice : Option GroupChoice) : ∀ (values : List Text)
    (held : ι → Held), Yields shown held (linkValues i choice values)
      (Link.valuesOfAll ⟨(held i).regex, choice⟩ values)
      (rewound held (if values = [] then [] else [i]))
  | [], held => by
      rw [if_pos rfl, rewound_nil]
      exact .pure shown held _
  | value :: values, held => by
      rw [if_neg (List.cons_ne_nil _ _), valuesOfAll_cons]
      refine (yields_visitAll_at held i value).bind fun held' hheld' => ?_
      unfold Link.values
      cases ((held i).regex.allMatches value).mapM (selectGroup choice) with
      | error e => exact hheld' ▸ .pure shown held' _
      | ok made =>
        have hrest := (yields_linkValues i choice values held').map (Except.map (made ++ ·))
        rw [rewound_of_shown hheld', regex_of_shown hheld'] at hrest
        have hids : rewound held [i] = rewound held ([i] ++ if values = [] then [] else [i]) :=
          rewound_congr fun j => by split <;> simp
        exact hids ▸ hrest

theorem yields_runLinks : ∀ (links : List (ι × Option GroupChoice)) (values : List Text)
    (held : ι → Held), values ≠ [] → Yields shown held (Held.runLinks links values)
      (ExtensibleRegex.runLinks (links.map fun l => ⟨(held l.1).regex, l.2⟩) values).1
      (rewound held ((links.take
        (ExtensibleRegex.runLinks (links.map fun l => ⟨(held l.1).regex, l.2⟩) values).2).map Prod.fst))
  | [], values, held, _ => by
      have hnone := rewound_nil held
      exact hnone ▸ .pure shown held _
  | (i, choice) :: links, values, held, hvalues => by
      have hlink := yields_linkValues i choice values held
      rw [if_neg hvalues] at hlink
      refine hlink.bind fun held' hheld' => ?_
      rw [List.map_cons, ExtensibleRegex.runLinks]
      cases Link.valuesOfAll ⟨(held i).regex, choice⟩ values with
      | error e => exact hheld' ▸ .pure shown held' _
      | ok made =>
        cases made with
        | nil => exact hheld' ▸ .pure shown held' _
        | cons v vs =>
          have hrest := yields_runLinks links (v :: vs) held' (List.cons_ne_nil v vs)
          rw [rewound_of_shown hheld'] at hrest
          simp only [regex_of_shown hheld'] at hrest
          exact hrest

end Held

open Held in
/-- **A request to regexes in use** is answered as by regexes with cursors, which have no copies. -/
theorem Request.yields_perform {ι : Type} [DecidableEq ι] (held : ι → Held) (r : Request ι) :
    Yields shown held r.perform (r.answer (fun i => (held i).regex) fun i => (held i).cursor).1
      fun i => ⟨(held i).regex, (r.answer (fun i => (held i).regex) fun i => (held i).cursor).2 i⟩ := by
  cases r with
  | ask i task =>
    have htask := yields_at (task.yields_perform (held i))
    have hshown : (fun j => if j = i then
        ⟨(held i).regex, (task.answer (held i).regex (held i).cursor).2⟩ else (held j).toLive) =
        fun j => (⟨(held j).regex, if j = i then (task.answer (held i).regex (held i).cursor).2
          else (held j).cursor⟩ : Live) := by
      funext j
      split
      · rename_i h
        rw [h]
      · rfl
    exact hshown ▸ htask
  | chain links t =>
    cases links with
    | nil =>
      have hreply := Yields.pure shown held (Reply.chained (.error .emptyChain))
      rw [← rewound_nil] at hreply
      exact hreply
    | cons link links =>
      exact (yields_runLinks (link :: links) [t] held (List.cons_ne_nil _ _)).map Reply.chained

end ExtensibleRegex
