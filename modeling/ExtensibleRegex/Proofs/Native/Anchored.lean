import ExtensibleRegex.Proofs.Native.Extension
import ExtensibleRegex.Proofs.Native.Groups

/-!
# The search at exactly a place

An engine searches at a place with a variant of its pattern that has an empty group as last
alternative, or by comparing places when there is no such variant. Both find the match that begins
at the place:

* a search answers the first place that has a match (`Program.searchFrom_eq_some`);
* the lexemes of the variant are those of the pattern and three more (`lexemes?_withEmptyGroup`),
  and they are read the same but for the number of the added group (`Progress.read?_withGroup`);
* so the variant tries the alternatives of the pattern, and the empty group when all of them fail
  (`Progress.run_withEmptyGroup`).

`Engine.searchAt?_eq_matchAt?` puts these together, for patterns without that number
(`Engine.NoNextGroup`). Only a pattern of the lenient grammar can have it.
-/

namespace ExtensibleRegex.Native

/-! ## 1. Leftmost matches -/

namespace Program

variable {p : Program} {place : Place} {f : Found}

theorem start_of_matchAt? (h : p.matchAt? place = some f) : f.whole.start = place := by
  unfold matchAt? at h
  split at h <;> cases h
  rfl

theorem length_groups_of_matchAt? (h : p.matchAt? place = some f) :
    f.groups.length = p.groups := by
  unfold matchAt? at h
  split at h <;> cases h
  exact length_groupSpans _ _

theorem searchFrom_of_matchAt? (h : p.matchAt? place = some f) (left : Text) :
    p.searchFrom left place = some f := by
  cases left with
  | nil => exact h
  | cons c left => simp only [searchFrom, h]

/-- A step goes on by one character, and by at least one byte. -/
theorem lt_of_next? {q : Place} {c : Char} (h : place.next? = some (c, q)) :
    place.index < q.index ∧ place.offset < q.offset := by
  have hq := (Place.next?_eq_some h).2.1
  have hc := c.utf8Size_pos
  constructor
  · rw [q.index_eq, place.index_eq, hq, List.length_cons]
    exact Nat.lt_succ_self _
  · rw [q.offset_eq, place.offset_eq, hq, byteLength_cons]
    omega

/-- What a search finds is a match where it begins, and it begins where the search does or after
it. -/
theorem searchFrom_eq_some : ∀ (left : Text) (place : Place) (f : Found),
    p.searchFrom left place = some f →
    p.matchAt? f.whole.start = some f ∧
      (f.whole.start = place ∨
        place.index < f.whole.start.index ∧ place.offset < f.whole.start.offset)
  | [], place, f, h => by
      have hs := start_of_matchAt? h
      rw [hs]
      exact ⟨h, .inl rfl⟩
  | _ :: left, place, f, h => by
      unfold searchFrom at h
      split at h
      · rename_i g hg
        cases h
        have hs := start_of_matchAt? hg
        rw [hs]
        exact ⟨hg, .inl rfl⟩
      · split at h
        · rename_i c q hq
          have hlt := lt_of_next? hq
          obtain ⟨h1, h2⟩ := searchFrom_eq_some left q f h
          refine ⟨h1, .inr ?_⟩
          rcases h2 with h2 | h2
          · rw [h2]; exact hlt
          · exact ⟨hlt.1.trans h2.1, hlt.2.trans h2.2⟩
        · cases h

/-- **The match at a place is the leftmost match from there, when that begins at the place.** -/
theorem matchAt?_eq_filter_search? (p : Program) (place : Place) :
    p.matchAt? place =
      (p.search? place).filter fun f => f.whole.start.index = place.index := by
  cases hm : p.matchAt? place with
  | some f =>
    have hs := start_of_matchAt? hm
    rw [search?, searchFrom_of_matchAt? hm, Option.filter_some, if_pos (by simp [hs])]
  | none =>
    symm
    rw [Option.filter_eq_none_iff]
    intro f hf hi
    obtain ⟨h1, h2⟩ := searchFrom_eq_some _ _ _ hf
    rcases h2 with h2 | h2
    · rw [h2, hm] at h1
      cases h1
    · have := of_decide_eq_true hi
      omega

end Program

/-! ## 2. Reading a pattern with an empty group as its last alternative -/

/-- The lexemes of the empty group that stands as last alternative. -/
def emptyGroupLexemes : List Lexeme := [.bar, .opening (.capture none), .close]

theorem inert_emptyGroup : Inert ['|', '(', ')'] := by
  refine ⟨by decide, fun h => ?_⟩
  exact absurd h (by decide)

theorem lexAll?_withEmptyGroup {strict named : Bool} {source : Text} {ls : List Lexeme}
    (h : lexAll? strict named 0 source [] = some ls) :
    lexAll? strict named 0 (withEmptyGroup source) [] = some (ls ++ emptyGroupLexemes) := by
  unfold withEmptyGroup
  rw [lexAll?_append inert_emptyGroup 0 source [] ls (Nat.zero_le _) h]
  simp [lexAll?, lexeme?, opening?, emptyGroupLexemes]

theorem lexemes?_withEmptyGroup {strict : Bool} {source : Text} {ls : List Lexeme}
    (h : lexemes? strict source = some ls) :
    lexemes? strict (withEmptyGroup source) = some (ls ++ emptyGroupLexemes) := by
  unfold lexemes? at h ⊢
  split at h
  · rename_i ms hms
    have hnames : (captureNames (ms ++ emptyGroupLexemes)).any Option.isSome =
        (captureNames ms).any Option.isSome := by
      rw [captureNames_append, List.any_append]
      simp [emptyGroupLexemes, captureNames]
    rw [lexAll?_withEmptyGroup hms]
    simp only [hnames]
    split at h
    · rename_i hn
      rw [if_pos hn]
      exact lexAll?_withEmptyGroup h
    · rename_i hn
      rw [if_neg hn]
      cases h
      rfl
  · cases h

theorem distinctNames_append_none : ∀ names : List (Option Text),
    distinctNames (names ++ [none]) = distinctNames names
  | [] => rfl
  | none :: names => distinctNames_append_none names
  | some name :: names => by
      simp only [List.cons_append, distinctNames, distinctNames_append_none names]
      simp

/-! ## 3. Reading with one group more -/

/-- Whether a lexeme is the number of the group after the last of `count`. -/
def Lexeme.isNextGroup (count : Nat) : Lexeme → Bool
  | .decimal digits => readDigits 10 digits == count + 1
  | _ => false

/-- A grammar of a pattern with an unnamed group after all others. -/
def Grammar.withGroup (g : Grammar) : Grammar := { g with names := g.names ++ [none] }

/-- A lexeme is read the same when there is one more group, unless it is the number of that. -/
theorem Progress.read?_withGroup (g : Grammar) (p : Progress) {l : Lexeme}
    (h : l.isNextGroup g.names.length = false) :
    p.read? g.withGroup l = p.read? g l := by
  cases l with
  | decimal digits =>
    have hne : readDigits 10 digits ≠ g.names.length + 1 := by simpa [Lexeme.isNextGroup] using h
    have hiff : readDigits 10 digits ≤ g.withGroup.names.length ↔
        readDigits 10 digits ≤ g.names.length := by
      simp only [Grammar.withGroup, List.length_append, List.length_singleton]
      omega
    simp only [read?, decimal?, hiff]
    rfl
  | namedRef name =>
    have hfind : (g.withGroup.names).findIdx? (· == some name) =
        g.names.findIdx? (· == some name) := by
      simp [Grammar.withGroup, List.findIdx?_append]
    simp only [read?, hfind]
  | _ => rfl

theorem Progress.readAll?_withGroup (g : Grammar) : ∀ (ls : List Lexeme) (p : Progress),
    (∀ l ∈ ls, l.isNextGroup g.names.length = false) →
    readAll? g.withGroup p ls = readAll? g p ls
  | [], _, _ => rfl
  | l :: ls, p, h => by
      simp only [readAll?, read?_withGroup g p (h l List.mem_cons_self)]
      cases p.read? g l with
      | none => rfl
      | some q => exact readAll?_withGroup g ls q fun m hm => h m (List.mem_cons_of_mem _ hm)

theorem Progress.readAll?_append (g : Grammar) : ∀ (ls ms : List Lexeme) (p q : Progress),
    readAll? g p ls = some q → readAll? g p (ls ++ ms) = readAll? g q ms
  | [], _, _, _, h => by cases h; rfl
  | l :: ls, ms, p, q, h => by
      unfold readAll? at h
      split at h
      · rename_i r hr
        simp only [List.cons_append, readAll?, hr]
        exact readAll?_append g ls ms r q h
      · cases h

/-! ## 4. The last alternative -/

/-- The choice between a tree's alternatives, and then `last`. -/
theorem Node.run_foldl_alt (last : Node) (d : Direction) (k : Continuation) (t : Track) :
    ∀ (earlier : List Node) (whole rest : Node),
      (whole.run d k t = match rest.run d k t with
        | some u => some u
        | none => last.run d k t) →
      (earlier.foldl (fun rest n => Node.alt n rest) whole).run d k t =
        match (earlier.foldl (fun rest n => Node.alt n rest) rest).run d k t with
        | some u => some u
        | none => last.run d k t
  | [], _, _, h => h
  | a :: earlier, whole, rest, h => by
      refine run_foldl_alt last d k t earlier (.alt a whole) (.alt a rest) ?_
      simp only [run, h]
      cases a.run d k t <;> rfl

theorem Node.run_altOfReversed_cons (last : Node) (ns : List Node) (hns : ns ≠ [])
    (d : Direction) (k : Continuation) (t : Track) :
    (Node.altOfReversed (last :: ns)).run d k t =
      match (Node.altOfReversed ns).run d k t with
      | some u => some u
      | none => last.run d k t := by
  cases ns with
  | nil => exact absurd rfl hns
  | cons a earlier =>
    refine run_foldl_alt last d k t earlier (.alt a last) a ?_
    cases ha : a.run d k t <;> simp only [run, ha]

/-! ## 5. The two programs of an engine -/

/-- The strict grammar refuses the number of a group that there is not. -/
theorem Progress.read?_eq_none_of_nextGroup {g : Grammar} (hg : g.strict = true) (p : Progress)
    {l : Lexeme} (h : l.isNextGroup g.names.length = true) : p.read? g l = none := by
  cases l with
  | decimal digits =>
    have heq : readDigits 10 digits = g.names.length + 1 := by simpa [Lexeme.isNextGroup] using h
    simp only [read?, decimal?, heq, if_neg (Nat.not_succ_le_self _), hg, if_true]
  | _ => simp [Lexeme.isNextGroup] at h

theorem Progress.isNextGroup_of_readAll? {g : Grammar} (hg : g.strict = true) :
    ∀ (ls : List Lexeme) (p q : Progress), readAll? g p ls = some q →
      ∀ l ∈ ls, l.isNextGroup g.names.length = false
  | m :: ls, p, q, h, l, hl => by
      unfold readAll? at h
      split at h
      · rename_i r hr
        rcases List.mem_cons.1 hl with rfl | hl
        · cases hn : l.isNextGroup g.names.length with
          | false => rfl
          | true =>
            rw [read?_eq_none_of_nextGroup hg p hn] at hr
            cases hr
        · exact isNextGroup_of_readAll? hg ls r q h l hl
      · cases h

/-- The lexemes of a pattern hold no number of the group after its last one. -/
def Engine.NoNextGroup (e : Engine) : Prop :=
  ∀ ls, lexemes? e.mode.unicode e.source = some ls →
    ∀ l ∈ ls, l.isNextGroup e.program.groups = false

/-- With flag `u` there is no such number in a well-formed pattern. -/
theorem Engine.noNextGroup_of_unicode (e : Engine) (h : e.mode.unicode = true) :
    e.NoNextGroup := by
  intro ls hls
  obtain ⟨ms, p, hp, hprogram⟩ := Program.ofSource?_eq_some_iff.1 e.program_eq
  have hms : ms = ls := Option.some.inj (hp.lexed.symm.trans hls)
  subst hms
  rw [hprogram]
  exact Progress.isNextGroup_of_readAll? h ms _ p hp.read

/-- The pass after it has read an empty group as one more alternative. -/
def Progress.withEmptyGroup (p : Progress) : Progress where
  groups := p.groups + 1
  modes := p.modes
  alternatives := p.current :: p.alternatives
  terms := [⟨.group (p.groups + 1) .empty, true, p.groups⟩]
  frames := p.frames

theorem Progress.readAll?_emptyGroup (g : Grammar) (p : Progress) :
    readAll? g p emptyGroupLexemes = some p.withEmptyGroup := rfl

/-- **A pattern with an empty group as its last alternative** has the alternatives of the pattern
and one more, unless the pattern has as many groups as there may be. -/
theorem Program.ofSource?_withEmptyGroup {source : Text} {mode : Mode} {ls : List Lexeme}
    {p : Progress} (h : Program.Reads source mode ls p)
    (hnext : ∀ l ∈ ls, l.isNextGroup p.groups = false) :
    Program.ofSource? (withEmptyGroup source) mode =
      if p.groups < maxGroups then some ⟨p.withEmptyGroup.body, p.groups + 1⟩ else none := by
  have hgroups := h.numbered.2
  have hlexed := lexemes?_withEmptyGroup h.lexed
  have hnames : captureNames (ls ++ emptyGroupLexemes) = captureNames ls ++ [none] := by
    rw [captureNames_append]
    rfl
  have hlen : (captureNames (ls ++ emptyGroupLexemes)).length = p.groups + 1 := by
    rw [hnames, List.length_append, ← hgroups]
    rfl
  by_cases hmax : p.groups < maxGroups
  · rw [if_pos hmax, Program.ofSource?_eq_some_iff]
    refine ⟨ls ++ emptyGroupLexemes, p.withEmptyGroup, ?_, by rw [hlen]⟩
    exact {
      lexed := hlexed
      few := by rw [hlen]; exact hmax
      distinct := by rw [hnames, distinctNames_append_none, h.distinct]
      read := by
        rw [hgroups] at hnext
        have hread := Progress.readAll?_withGroup ⟨mode.unicode, captureNames ls⟩ ls
          (.initial ⟨mode.ignoreCase, mode.multiline, false⟩) hnext
        rw [h.read] at hread
        rw [hnames, ← Progress.readAll?_emptyGroup ⟨mode.unicode, captureNames ls ++ [none]⟩ p]
        exact Progress.readAll?_append _ ls emptyGroupLexemes _ p hread
      closed := h.closed }
  · rw [if_neg hmax]
    cases hv : Program.ofSource? (Native.withEmptyGroup source) mode with
    | none => rfl
    | some v =>
      obtain ⟨ms, q, hq, -⟩ := Program.ofSource?_eq_some_iff.1 hv
      have hms : ms = ls ++ emptyGroupLexemes := by
        have := hq.lexed
        rw [hlexed] at this
        exact (Option.some.inj this).symm
      have := hq.few
      rw [hms, hlen] at this
      omega

/-- The pattern with an empty group as last alternative matches at every place: as the pattern
does, or else with the empty group. -/
theorem Progress.run_withEmptyGroup (p : Progress) (t : Track) :
    p.withEmptyGroup.body.run .forward some t =
      match p.body.run .forward some t with
      | some u => some u
      | none => some (t.record (p.groups + 1) ⟨t.place, t.place⟩) :=
  Node.run_altOfReversed_cons _ (p.current :: p.alternatives) (List.cons_ne_nil _ _) .forward some t

/-- **The search at a place finds the match that begins there**, with the variant of the pattern
and without it. -/
theorem Engine.searchAt?_eq_matchAt? (e : Engine) (h : e.anchored = none ∨ e.NoNextGroup)
    (place : Place) : e.searchAt? place = e.program.matchAt? place := by
  cases ha : e.anchored with
  | none =>
    rw [Program.matchAt?_eq_filter_search?]
    simp only [searchAt?, ha]
    cases e.program.search? place with
    | none => rfl
    | some f => rw [Option.filter_some]; simp
  | some variant =>
    obtain ⟨ls, p, hp, hprogram⟩ := Program.ofSource?_eq_some_iff.1 e.program_eq
    obtain ⟨hnumbered, hgroups⟩ := hp.numbered
    have hnext : ∀ l ∈ ls, l.isNextGroup p.groups = false := by
      rcases h with h | h
      · rw [ha] at h
        cases h
      · have := h ls hp.lexed
        rwa [hprogram, ← hgroups] at this
    have hvariant : variant = ⟨p.withEmptyGroup.body, p.groups + 1⟩ := by
      have := e.anchored_eq
      rw [ha, Program.ofSource?_withEmptyGroup hp hnext] at this
      split at this
      · exact Option.some.inj this
      · cases this
    have hkeeps := Node.run_keeps p.body hnumbered.body .forward some
      (fun t ht u hu => by cases hu; exact ht) ⟨place, []⟩ (by simp [Track.GroupsWithin])
    have hrun := p.run_withEmptyGroup ⟨place, []⟩
    simp only [searchAt?, ha]
    cases hr : p.body.run .forward some ⟨place, []⟩ with
    | some u =>
      rw [hr] at hrun
      have hmatch : variant.matchAt? place =
          some ⟨⟨place, u.place⟩, groupSpans p.groups u.groups ++ [none]⟩ := by
        simp only [Program.matchAt?, hvariant, hrun, groupSpans_succ (hkeeps u hr)]
      have hsearch : variant.search? place = _ := Program.searchFrom_of_matchAt? hmatch _
      rw [hsearch, Program.matchAt?, hprogram]
      simp [hr, hgroups]
    | none =>
      rw [hr] at hrun
      have hmatch : variant.matchAt? place = some ⟨⟨place, place⟩,
          groupSpans (p.groups + 1) [(p.groups + 1, ⟨place, place⟩)]⟩ := by
        simp only [Program.matchAt?, hvariant, hrun, Track.record]
      have hsearch : variant.search? place = _ := Program.searchFrom_of_matchAt? hmatch _
      rw [hsearch, Program.matchAt?, hprogram]
      simp [hr, getLast?_groupSpans_record]

end ExtensibleRegex.Native
