import ExtensibleRegex.Proofs.Regex.Held
import Mathlib.Tactic

/-!
# Chains one after another

A chain works link by link: each link is given all values that the one before has left, and a link that
leaves nothing ends the chain. Two things follow that a reader of results relies on:

* the end that comes early never shows, since links make nothing of nothing (`runLinks_eq`);
* a value goes through the links by itself, whatever other values there are (`throughLinks_iff`). So a
  chain that is cut in two gives what its second part gives for each value of the first, in order
  (`Request.chain_append`), also for regexes in use, with whatever cursors and copies they have.
-/

namespace ExtensibleRegex

/-! ## 1. One link -/

/-- The values that links make of some values, where every link runs. -/
def throughLinks (links : List Link) (values : List Text) : Except Error (List Text) :=
  links.foldlM (fun values link => link.valuesOfAll values) values

section Values

variable {link : Link} {links : List Link} {ts us vs : List Text}

theorem valuesOfAll_nil (link : Link) : link.valuesOfAll [] = .ok [] := rfl

/-- A link makes of two lists of values what it makes of each. -/
theorem valuesOfAll_append : link.valuesOfAll (ts ++ us) = .ok vs ↔
    ∃ as bs, link.valuesOfAll ts = .ok as ∧ link.valuesOfAll us = .ok bs ∧ vs = as ++ bs := by
  unfold Link.valuesOfAll
  simp only [List.mapM_append, bind_eq_ok, pure, Except.pure, Except.ok.injEq]
  constructor
  · rintro ⟨made, ⟨as, has, bs, hbs, rfl⟩, rfl⟩
    exact ⟨as.flatten, bs.flatten, ⟨as, has, rfl⟩, ⟨bs, hbs, rfl⟩, List.flatten_append⟩
  · rintro ⟨_, _, ⟨as, has, rfl⟩, ⟨bs, hbs, rfl⟩, rfl⟩
    exact ⟨as ++ bs, ⟨as, has, bs, hbs, rfl⟩, List.flatten_append⟩

/-! ## 2. Several links -/

theorem throughLinks_cons (link : Link) (links : List Link) (ts : List Text) :
    throughLinks (link :: links) ts = link.valuesOfAll ts >>= throughLinks links :=
  List.foldlM_cons

/-- Links make nothing of nothing. -/
theorem throughLinks_nothing : ∀ links : List Link, throughLinks links [] = .ok []
  | [] => rfl
  | link :: links => by
      rw [throughLinks_cons, valuesOfAll_nil]
      exact throughLinks_nothing links

/-- Links make of two lists of values what they make of each. -/
theorem throughLinks_append : ∀ {links : List Link} {ts us vs : List Text},
    throughLinks links (ts ++ us) = .ok vs ↔
      ∃ as bs, throughLinks links ts = .ok as ∧ throughLinks links us = .ok bs ∧ vs = as ++ bs
  | [], ts, us, vs => by
      constructor
      · intro h
        exact ⟨ts, us, rfl, rfl, (Except.ok.inj h).symm⟩
      · rintro ⟨as, bs, hts, hus, rfl⟩
        cases hts
        cases hus
        rfl
  | link :: links, ts, us, vs => by
      simp only [throughLinks_cons, bind_eq_ok, valuesOfAll_append]
      constructor
      · rintro ⟨_, ⟨as, bs, has, hbs, rfl⟩, h⟩
        obtain ⟨cs, ds, hcs, hds, rfl⟩ := throughLinks_append.1 h
        exact ⟨cs, ds, ⟨as, has, hcs⟩, ⟨bs, hbs, hds⟩, rfl⟩
      · rintro ⟨cs, ds, ⟨as, has, hcs⟩, ⟨bs, hbs, hds⟩, rfl⟩
        exact ⟨as ++ bs, ⟨as, bs, has, hbs, rfl⟩, throughLinks_append.2 ⟨cs, ds, hcs, hds, rfl⟩⟩

/-- **A value goes through links by itself**, whatever values stand beside it. -/
theorem throughLinks_iff : ∀ {ts vs : List Text}, throughLinks links ts = .ok vs ↔
    ∃ parts, List.Forall₂ (fun t part => throughLinks links [t] = .ok part) ts parts ∧
      vs = parts.flatten
  | [], vs => by
      rw [throughLinks_nothing]
      constructor
      · intro h
        cases h
        exact ⟨[], .nil, rfl⟩
      · rintro ⟨parts, hparts, rfl⟩
        cases hparts
        rfl
  | t :: ts, vs => by
      rw [← List.singleton_append, throughLinks_append]
      constructor
      · rintro ⟨part, bs, hpart, hbs, rfl⟩
        obtain ⟨parts, hparts, rfl⟩ := throughLinks_iff.1 hbs
        exact ⟨part :: parts, .cons hpart hparts, rfl⟩
      · rintro ⟨_, hparts, rfl⟩
        obtain ⟨part, parts, hpart, hrest, rfl⟩ := List.forall₂_cons_left_iff.1 hparts
        exact ⟨part, parts.flatten, hpart, throughLinks_iff.2 ⟨parts, hrest, rfl⟩, rfl⟩

/-- **The end that comes early never shows**: after a link that leaves nothing, the others would leave
nothing too. -/
theorem runLinks_eq : ∀ (links : List Link) (values : List Text),
    (runLinks links values).1 = throughLinks links values
  | [], _ => rfl
  | link :: links, values => by
      rw [throughLinks_cons, runLinks]
      cases link.valuesOfAll values with
      | error e => rfl
      | ok made =>
        cases made with
        | nil => exact (throughLinks_nothing links).symm
        | cons v vs => exact runLinks_eq links (v :: vs)

theorem runChain_eq (h : links ≠ []) (t : Text) : (runChain links t).1 = throughLinks links [t] := by
  cases links with
  | nil => exact absurd rfl h
  | cons link links => exact runLinks_eq _ _

/-- **A chain that is cut in two** gives what its second part gives for each value of the first. -/
theorem runChain_append {first second : List Link} (hfirst : first ≠ []) (hsecond : second ≠ [])
    (t : Text) : (runChain (first ++ second) t).1 = .ok vs ↔
      ∃ middle parts, (runChain first t).1 = .ok middle ∧
        List.Forall₂ (fun value part => (runChain second value).1 = .ok part) middle parts ∧
        vs = parts.flatten := by
  have hcut : throughLinks (first ++ second) [t] =
      throughLinks first [t] >>= throughLinks second := List.foldlM_append
  rw [runChain_eq (List.append_ne_nil_of_left_ne_nil hfirst second), hcut, bind_eq_ok,
    runChain_eq hfirst]
  simp only [runChain_eq hsecond]
  constructor
  · rintro ⟨middle, hmiddle, h⟩
    obtain ⟨parts, hparts, hvs⟩ := throughLinks_iff.1 h
    exact ⟨middle, parts, hmiddle, hparts, hvs⟩
  · rintro ⟨middle, parts, hmiddle, hparts, hvs⟩
    exact ⟨middle, hmiddle, throughLinks_iff.2 ⟨parts, hparts, hvs⟩⟩

end Values

/-! ## 3. Regexes in use -/

namespace Request

variable {ι : Type} [DecidableEq ι]

/-- Links of regexes in use, without their cursors and copies. -/
def linksOf (held : ι → Held) (links : List (ι × Option GroupChoice)) : List Link :=
  links.map fun l => ⟨(held l.1).regex, l.2⟩

/-- Asking regexes leaves them the regexes they are. -/
theorem regex_perform (held : ι → Held) (r : Request ι) (i : ι) :
    ((r.perform.run held).2 i).regex = (held i).regex := by
  have hlive : ((r.perform.run held).2 i).toLive = _ := congrFun (yields_perform held r).shows i
  have hregex := Held.regex_eq hlive
  exact hregex

theorem answers_chain (held : ι → Held) (links : List (ι × Option GroupChoice)) (t : Text) :
    ((chain links t).perform.run held).1 = .chained (runChain (linksOf held links) t).1 :=
  (yields_perform held (chain links t)).answers

/-- Chains that are run one after another each give what they would give alone. -/
theorem answers_chains (links : List (ι × Option GroupChoice)) : ∀ (ts : List Text) (held : ι → Held),
    ((performAll (ts.map (chain links))).run held).1 =
      ts.map fun t => Reply.chained (runChain (linksOf held links) t).1
  | [], _ => rfl
  | t :: ts, held => by
      have hrest := answers_chains links ts ((chain links t).perform.run held).2
      simp only [linksOf, regex_perform] at hrest
      show ((chain links t).perform.run held).1 ::
        ((performAll (ts.map (chain links))).run ((chain links t).perform.run held).2).1 = _
      rw [hrest, answers_chain]
      rfl

/-- So do a chain on a text and then another one on several values. -/
theorem answers_chain_chains (held : ι → Held) (first second : List (ι × Option GroupChoice))
    (t : Text) (middle : List Text) :
    ((performAll (chain first t :: middle.map (chain second))).run held).1 =
      .chained (runChain (linksOf held first) t).1 ::
        middle.map fun value => Reply.chained (runChain (linksOf held second) value).1 := by
  have hsame : linksOf ((chain first t).perform.run held).2 second = linksOf held second := by
    simp only [linksOf, regex_perform]
  show ((chain first t).perform.run held).1 ::
    ((performAll (middle.map (chain second))).run ((chain first t).perform.run held).2).1 = _
  rw [answers_chain, answers_chains, hsame]

theorem forall₂_iff_map_eq {links : List Link} : ∀ {middle : List Text} {parts : List (List Text)},
    List.Forall₂ (fun value part => (runChain links value).1 = .ok part) middle parts ↔
      (middle.map fun value => Reply.chained (runChain links value).1) =
        parts.map fun part => Reply.chained (.ok part)
  | [], [] => by simp
  | [], _ :: _ => by simp
  | _ :: _, [] => by simp
  | value :: middle, part :: parts => by
      rw [List.forall₂_cons, List.map_cons, List.map_cons, List.cons.injEq, Reply.chained.injEq,
        forall₂_iff_map_eq]

/-- **Chains compose.** A chain of regexes in use succeeds just if its first part does, and then its
second part does on each value that the first has left, one after another; what it gives is what the
second part gives for these values, in their order. And that a link which leaves nothing ends the chain
never shows: every chain gives what its links make of the text where all of them run. -/
theorem chain_append (held : ι → Held) {first second : List (ι × Option GroupChoice)}
    (hfirst : first ≠ []) (hsecond : second ≠ []) (t : Text) :
    (∀ vs, ((chain (first ++ second) t).perform.run held).1 = .chained (.ok vs) ↔
      ∃ (middle : List Text) (parts : List (List Text)),
        ((performAll (chain first t :: middle.map (chain second))).run held).1 =
          .chained (.ok middle) :: parts.map (fun part => .chained (.ok part)) ∧
        vs = parts.flatten) ∧
    ((chain first t).perform.run held).1 = .chained (throughLinks (linksOf held first) [t]) := by
  have hlinks {links : List (ι × Option GroupChoice)} (h : links ≠ []) : linksOf held links ≠ [] :=
    fun hnil => h (List.map_eq_nil_iff.1 hnil)
  refine ⟨fun vs => ?_, by rw [answers_chain, runChain_eq (hlinks hfirst)]⟩
  have happend : linksOf held (first ++ second) = linksOf held first ++ linksOf held second :=
    List.map_append
  simp only [answers_chain, happend, answers_chain_chains, Reply.chained.injEq, List.cons.injEq,
    runChain_append (hlinks hfirst) (hlinks hsecond), forall₂_iff_map_eq, and_assoc]

/-- The digits of the pairs of a text, the second pair without one. -/
theorem chain_append_digits : ∃ pair digit, Regex.native ['.', '.'] [] = .ok pair ∧
    Regex.native ['\\', 'd'] ['g'] = .ok digit ∧
    let held : Bool → Held := fun i =>
      if i then Held.create pair else { Held.create digit with cursor := 3 }
    let pairs : List (Bool × Option GroupChoice) := [(true, none)]
    let digits : List (Bool × Option GroupChoice) := [(false, some (.number 0))]
    pairs ≠ [] ∧ digits ≠ [] ∧
      ((chain (pairs ++ digits) ['a', '1', 'b', 'c', '2', '3']).perform.run held).1 =
        .chained (.ok [['1'], ['2'], ['3']]) := by
  refine ⟨_, _, rfl, rfl, ?_⟩
  intro held pairs digits
  have hpairs : pairs ≠ [] := List.cons_ne_nil _ _
  have hdigits : digits ≠ [] := List.cons_ne_nil _ _
  have hlaw := (chain_append held hpairs hdigits ['a', '1', 'b', 'c', '2', '3']).1
  refine ⟨hpairs, hdigits, (hlaw _).2 ?_⟩
  refine ⟨[['a', '1'], ['b', 'c'], ['2', '3']], [[['1']], [], [['2'], ['3']]], ?_, rfl⟩
  rw [answers_chain_chains]
  rfl

end Request

end ExtensibleRegex
