import ExtensibleRegex.Proofs.Regex.Held
import ExtensibleRegex.Proofs.Regex.Iteration

/-!
# Searching from the cursor, again and again

A global or sticky regex that searches from its cursor leaves the cursor at the end of what it finds, and
sets it back to the start when it finds nothing. Asked again and again (`Held.execTimes`), it follows the
walk through the matches of the text: behind a match that is not empty, the walk goes on just where the
cursor stands. (An empty match leaves the cursor in its place, while the walk goes one character further.)

`Held.yields_execTimes_of_walk` is the induction over a walk, and `Held.execTimes_eq_allMatches` the loop
from the start of a text up to the first search that fails.
-/

namespace ExtensibleRegex

/-! ## 1. One search -/

/-- A regex that follows its cursor searches at the place where the cursor stands. -/
theorem Regex.exec_offset {re : Regex} (hflags : re.global = true ∨ re.sticky = true) (p : Place) :
    re.exec p.text p.offset =
      (re.searchAt? p re.sticky, cursorAfter (re.searchAt? p re.sticky)) := by
  rw [exec, if_pos (by simpa using hflags), searchFrom?, p.atOffset?_offset]

namespace Held

/-! ## 2. The loop -/

/-- Searches from the cursor `n` times, and answers for each time what was found and where the cursor
stood afterwards. -/
def execTimes (text : Text) : (n : Nat) → HeldM (List (Option Captures × Nat))
  | 0 => return []
  | n + 1 => do
    let found ← exec text
    let cursor := (← get).cursor
    return (found, cursor) :: (← execTimes text n)

/-- The first search of the loop, and the others from the cursor that it leaves. -/
theorem yields_execTimes_succ {h : Held} {text : Text} {n cursor : Nat} {found : Option Captures}
    {answers : List (Option Captures × Nat)} {l : Live}
    (hexec : h.regex.exec text h.cursor = (found, cursor))
    (hrest : ∀ h' : Held, h'.toLive = ⟨h.regex, cursor⟩ →
      Yields toLive h' (execTimes text n) answers l) :
    Yields toLive h (execTimes text (n + 1)) ((found, cursor) :: answers) l := by
  have hfirst := yields_exec h text
  rw [hexec] at hfirst
  refine hfirst.bind fun h' hh' => .get ?_
  rw [cursor_eq hh']
  exact (hrest h' hh').map ((found, cursor) :: ·)

/-- **The loop follows a walk whose matches are not empty**, from where the cursor stands: it answers
them in order, with the cursor at the end of each, and then a search fails. -/
theorem yields_execTimes_of_walk {re : Regex} (hflags : re.global = true ∨ re.sticky = true)
    {o : Option Place} {cs : List Captures} (hwalk : re.Walk o cs) {text : Text} :
    (∀ c ∈ cs, c.whole.isEmpty = false) → ∀ p, o = some p → p.text = text →
      ∀ h : Held, h.toLive = ⟨re, p.offset⟩ → Yields toLive h (execTimes text (cs.length + 1))
        (cs.map (fun c => (some c, c.whole.stop.offset)) ++ [(none, 0)]) ⟨re, 0⟩ := by
  induction hwalk with
  | past =>
    intro _ p hp
    cases hp
  | @ended p hnone =>
    rintro - _ ⟨rfl⟩ rfl h hh
    have hexec : h.regex.exec p.text h.cursor = (none, 0) := by
      rw [regex_eq hh, cursor_eq hh, Regex.exec_offset hflags, hnone]
      rfl
    refine yields_execTimes_succ hexec fun h' hh' => ?_
    rw [regex_eq hh] at hh'
    exact hh' ▸ .pure toLive h' []
  | @found p c cs hfound _ ih =>
    rintro hmatches _ ⟨rfl⟩ rfl h hh
    have hexec : h.regex.exec p.text h.cursor = (some c, c.whole.stop.offset) := by
      rw [regex_eq hh, cursor_eq hh, Regex.exec_offset hflags, hfound]
      rfl
    obtain ⟨⟨v, hv⟩, w, hw⟩ := Regex.stretch_of_searchAt? hfound
    refine yields_execTimes_succ hexec fun h' hh' => ?_
    rw [regex_eq hh] at hh'
    exact ih (fun d hd => hmatches d (List.mem_cons_of_mem c hd)) c.whole.stop
      (Span.resume?_of_not_empty (hmatches c List.mem_cons_self)) (hv.trans hw).text_eq h' hh'

/-- **The loop and the iterator agree.** Where no match of a text is empty, a global or sticky regex
with its cursor at the start, searching from the cursor again and again, finds the matches that an
iterator answers, all of them in order and with the cursor at the end of each, and then nothing, with
the cursor at the start again. -/
theorem execTimes_eq_allMatches (h : Held) (text : Text) (hcursor : h.cursor = 0)
    (hflags : h.regex.global = true ∨ h.regex.sticky = true)
    (hmatches : ∀ c ∈ h.regex.allMatches text, c.whole.isEmpty = false) :
    ((execTimes text ((h.regex.allMatches text).length + 1)).run h).1 =
      (h.regex.allMatches text).map (fun c => (some c, c.whole.stop.offset)) ++ [(none, 0)] ∧
    ∀ n, MatchIterator.start.answer h.regex text n = (h.regex.allMatches text)[n]? := by
  have hwalk := h.regex.walk_allMatches text
  have hstart : h.toLive = ⟨h.regex, 0⟩ := hcursor ▸ rfl
  have hloop := yields_execTimes_of_walk hflags hwalk hmatches (.first text) rfl rfl h hstart
  exact ⟨hloop.answers, MatchIterator.answer_of_walk hwalk ⟨rfl, rfl⟩⟩

/-- A regex with both flags, on a text that it does not match throughout. -/
theorem execTimes_eq_allMatches_letters : ∃ re, Regex.native ['a'] ['g', 'y'] = .ok re ∧
    (re.global = true ∨ re.sticky = true) ∧
    (∀ c ∈ re.allMatches "aaba".toList, c.whole.isEmpty = false) ∧
    (re.allMatches "aaba".toList).map (·.whole.stop.offset) = [1, 2] ∧
    ((execTimes "aaba".toList ((re.allMatches "aaba".toList).length + 1)).run (create re)).1 =
      (re.allMatches "aaba".toList).map (fun c => (some c, c.whole.stop.offset)) ++ [(none, 0)] := by
  obtain ⟨re, hre, hflags, hmatches, hstops⟩ : ∃ re, Regex.native ['a'] ['g', 'y'] = .ok re ∧
      (re.global = true ∨ re.sticky = true) ∧
      (∀ c ∈ re.allMatches "aaba".toList, c.whole.isEmpty = false) ∧
      (re.allMatches "aaba".toList).map (·.whole.stop.offset) = [1, 2] :=
    ⟨_, rfl, .inl rfl, by decide, by decide⟩
  exact ⟨re, hre, hflags, hmatches, hstops,
    (execTimes_eq_allMatches (create re) "aaba".toList rfl hflags hmatches).1⟩

end Held

end ExtensibleRegex
