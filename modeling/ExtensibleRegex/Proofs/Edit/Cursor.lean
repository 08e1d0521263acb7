import ExtensibleRegex.Proofs.Native.Fragments
import ExtensibleRegex.Proofs.Regex.Held

/-!
# What depends on cursors

Regexes in use are asked one thing after another. `Request.cursor_laws` says how far the cursors matter:

* only a global or sticky regex has its cursor changed, unless a request sets it;
* what is answered does not depend on the cursors, nor on the copies made so far, except where a request
  is to start at the cursor;
* a replacement that fails leaves the cursors alone.

Each law is first shown for one answer of a regex with a cursor. What regexes in use answer follows
(`Request.yields_performAll`).
-/

namespace ExtensibleRegex

/-! ## 1. One task -/

namespace RegexTask

variable {re : Regex} {cursor cursor' : Nat} {task : RegexTask}

theorem cursor_answer (hglobal : re.global = false) (hsticky : re.sticky = false)
    (htask : ∀ offset, task ≠ setCursor offset) : (task.answer re cursor).2 = cursor := by
  cases task with
  | setCursor offset => exact absurd rfl (htask offset)
  | replace t replacement state extent => simp [answer, Regex.replace, hglobal]
  | _ => simp [answer, Regex.exec, Regex.search, Regex.firstMatchText, Regex.allMatchTexts,
      Regex.visitAll, hglobal, hsticky]

theorem reply_answer (htask : task.readsCursor = false) :
    (task.answer re cursor').1 = (task.answer re cursor).1 := by
  cases task with
  | exec t => cases htask
  | execTest t => cases htask
  | _ => rfl

theorem cursor_answer_of_failed {t : Text} {σ : Type} {replacement : Replacement σ} {state : σ}
    {extent : Option ReplaceExtent} {e : Error}
    (h : ((replace t replacement state extent).answer re cursor).1 = .replaced (.error e)) :
    ((replace t replacement state extent).answer re cursor).2 = cursor := by
  have hfailed : (re.replace t replacement state extent cursor).1.1 = .error e := Reply.replaced.inj h
  show (if (re.replace t replacement state extent cursor).1.1.isOk && re.global then 0 else cursor) = cursor
  rw [hfailed]
  rfl

end RegexTask

/-! ## 2. One request -/

namespace Request

variable {ι : Type} [DecidableEq ι] {regexes : ι → Regex} {cursors cursors' : ι → Nat}
  {r : Request ι} {i : ι}

/-- Whether a request is to start at the cursor of a regex. -/
def readsCursor : Request ι → Bool
  | ask _ task => task.readsCursor
  | chain _ _ => false

theorem cursor_answer (hglobal : (regexes i).global = false) (hsticky : (regexes i).sticky = false)
    (hr : ∀ offset, r ≠ ask i (.setCursor offset)) : (r.answer regexes cursors).2 i = cursors i := by
  cases r with
  | ask j task =>
    simp only [answer]
    split
    · rename_i hij
      subst hij
      exact RegexTask.cursor_answer hglobal hsticky fun offset h => hr offset (h ▸ rfl)
    · rfl
  | chain links t => simp [answer, hglobal]

theorem reply_answer (hr : r.readsCursor = false) :
    (r.answer regexes cursors').1 = (r.answer regexes cursors).1 := by
  cases r with
  | ask j task => exact RegexTask.reply_answer hr
  | chain links t => rfl

/-! ## 3. One request after another -/

/-- What regexes with cursors answer to one request after another, and the cursors afterwards. -/
def answerAll (regexes : ι → Regex) : (ι → Nat) → List (Request ι) → List Reply × (ι → Nat)
  | cursors, [] => ([], cursors)
  | cursors, r :: rs =>
    let (reply, cursors) := r.answer regexes cursors
    let (replies, cursors) := answerAll regexes cursors rs
    (reply :: replies, cursors)

open Held in
/-- Requests to regexes in use are answered as by regexes with cursors, which have no copies. -/
theorem yields_performAll : ∀ (rs : List (Request ι)) (held : ι → Held),
    Yields shown held (performAll rs)
      (answerAll (fun i => (held i).regex) (fun i => (held i).cursor) rs).1
      fun i => ⟨(held i).regex,
        (answerAll (fun i => (held i).regex) (fun i => (held i).cursor) rs).2 i⟩
  | [], held => .pure shown held []
  | r :: rs, held => by
      refine (r.yields_perform held).bind fun held' hheld' => ?_
      have hlive (i : ι) : (held' i).toLive = _ := congrFun hheld' i
      have hrest := (yields_performAll rs held').map
        ((r.answer (fun i => (held i).regex) fun i => (held i).cursor).1 :: ·)
      simp only [hlive] at hrest
      exact hrest

theorem cursor_answerAll (regexes : ι → Regex) {i : ι} (hglobal : (regexes i).global = false)
    (hsticky : (regexes i).sticky = false) :
    ∀ (rs : List (Request ι)) (cursors : ι → Nat), (∀ offset, ask i (.setCursor offset) ∉ rs) →
      (answerAll regexes cursors rs).2 i = cursors i
  | [], _, _ => rfl
  | r :: rs, cursors, hrs => by
      have hrest := cursor_answerAll regexes hglobal hsticky rs (r.answer regexes cursors).2
        fun offset h => hrs offset (List.mem_cons_of_mem r h)
      exact hrest.trans (cursor_answer hglobal hsticky fun offset h =>
        hrs offset (h ▸ List.mem_cons_self))

theorem reply_answerAll : ∀ (rs : List (Request ι)) (cursors cursors' : ι → Nat) (k : Nat),
    rs[k]? = some r → r.readsCursor = false →
      ∃ reply, (answerAll regexes cursors rs).1[k]? = some reply ∧
        (answerAll regexes cursors' rs).1[k]? = some reply
  | [], _, _, _, hk, _ => by cases hk
  | r' :: rs, cursors, cursors', 0, hk, hr => by
      cases hk
      exact ⟨_, rfl, congrArg some (reply_answer hr)⟩
  | r' :: rs, cursors, cursors', k + 1, hk, hr =>
      reply_answerAll rs (r'.answer regexes cursors).2 (r'.answer regexes cursors').2 k hk hr

/-- **How far cursors matter**, whatever regexes in use are asked, and in whatever order. A regex that
is neither global nor sticky keeps its cursor, if no request sets it. With other cursors and other
copies made so far, the answers are the same, except to requests that are to start at the cursor.
And a replacement that fails leaves all cursors as they are. -/
theorem cursor_laws (held : ι → Held) (rs : List (Request ι)) :
    (∀ i, (held i).regex.global = false → (held i).regex.sticky = false →
      (∀ offset, ask i (.setCursor offset) ∉ rs) →
      (((performAll rs).run held).2 i).cursor = (held i).cursor) ∧
    (∀ held' : ι → Held, (∀ i, (held' i).regex = (held i).regex) →
      ∀ (k : Nat) (r : Request ι), rs[k]? = some r → r.readsCursor = false →
      ∃ reply, ((performAll rs).run held).1[k]? = some reply ∧
        ((performAll rs).run held').1[k]? = some reply) ∧
    ∀ i t {σ : Type} (replacement : Replacement σ) state extent e,
      ((ask i (.replace t replacement state extent)).perform.run held).1 = .replaced (.error e) →
      ∀ j, (((ask i (.replace t replacement state extent)).perform.run held).2 j).cursor =
        (held j).cursor := by
  have hrun := yields_performAll rs held
  refine ⟨fun i hglobal hsticky hset => ?_, fun held' hregexes k r hk hr => ?_,
    fun i t _ replacement state extent e h j => ?_⟩
  · have hkeeps : (answerAll (fun j => (held j).regex) (fun j => (held j).cursor) rs).2 i =
        (held i).cursor :=
      cursor_answerAll (fun j => (held j).regex) hglobal hsticky rs (fun j => (held j).cursor) hset
    exact (congrArg Live.cursor (congrFun hrun.shows i)).trans hkeeps
  · have hrun' := yields_performAll rs held'
    simp only [hregexes] at hrun'
    rw [hrun.answers, hrun'.answers]
    exact reply_answerAll rs _ _ k hk hr
  · have hone := (ask i (.replace t replacement state extent)).yields_perform held
    have hj : (((ask i (.replace t replacement state extent)).perform.run held).2 j).toLive = _ :=
      congrFun hone.shows j
    rw [hj]
    rw [hone.answers] at h
    show (if j = i then _ else (held j).cursor) = (held j).cursor
    split
    · rename_i hji
      subst hji
      exact RegexTask.cursor_answer_of_failed h
    · rfl

theorem cursor_laws_letter : ∃ re, Regex.native ['a'] [] = .ok re ∧
    let held : Unit → Held := fun _ => { Held.create re with cursor := 5 }
    (((performAll [ask () (.exec ['b', 'a']), ask () (.find ['a'])]).run held).2 ()).cursor = 5 ∧
    (∃ reply, ((performAll [ask () (.exec ['b', 'a']), ask () (.find ['a'])]).run held).1[1]? =
        some reply ∧
      ((performAll [ask () (.exec ['b', 'a']), ask () (.find ['a'])]).run
        fun _ => Held.create re).1[1]? = some reply) ∧
    (((ask () (.replace ['a'] (.template ['$', 'x']) () none)).perform.run held).2 ()).cursor =
      5 := by
  refine ⟨_, rfl, ?_⟩
  intro held
  obtain ⟨hkeeps, hanswers, hfails⟩ :=
    cursor_laws held [ask () (.exec ['b', 'a']), ask () (.find ['a'])]
  refine ⟨hkeeps () rfl rfl (by simp), hanswers _ (fun _ => rfl) 1 _ rfl rfl, ?_⟩
  exact hfails () ['a'] (.template ['$', 'x']) () none (.replacementToken 'x') rfl ()

end Request

end ExtensibleRegex
