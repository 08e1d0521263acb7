import ExtensibleRegex.Proofs.Dialect.Atomicity
import ExtensibleRegex.Proofs.Expansion.Precedence
import ExtensibleRegex.Proofs.Property.Trigger
import Mathlib.Tactic

/-!
# Leads of tokens

A token may name the character that its matches begin with. It is then not tried where another
character stands. For the tokens that a dialect comes with this only saves trying them:

* a lead is sound when each match of the trigger begins with it (`Token.LeadSound`), and taking
  sound leads away changes neither which token goes first nor its match
  (`firstToken?_withoutLead`);
* the leads of the built-in tokens are sound (`leadSound_of_mem_initial`), and so is that of property
  escapes (`leadSound_property`);
* so a dialect with these tokens, whatever its flags, features and properties are, expands as it
  does without leads (`Context.answer_expand_withoutLeads`).
-/

namespace ExtensibleRegex

open Native

/-! ## 1. Sound leads -/

namespace Token

/-- The token with no lead, which is tried before every character. -/
def withoutLead (t : Token) : Token := { t with lead := none }

/-- Each match of the trigger begins with the lead, if there is one. -/
def LeadSound (t : Token) : Prop := ∀ (p : Place) (c : Captures) (lead : Char),
  t.lead = some lead → t.trigger.searchAt? p true = some c → p.ahead.head? = some lead

theorem replaces_withoutLead (t : Token) : t.Replaces t.withoutLead := ⟨rfl, rfl, rfl, rfl, rfl⟩

/-- Without a sound lead a token matches where it did. -/
theorem matchAt?_withoutLead {t : Token} (h : t.LeadSound) (p : Place) (scope : Scope)
    (flags : Text) : t.withoutLead.matchAt? p scope flags = t.matchAt? p scope flags := by
  unfold matchAt? applies withoutLead
  cases hlead : t.lead with
  | none => rfl
  | some lead =>
    by_cases hp : some lead = p.ahead.head?
    · simp [hp]
    · -- here the lead keeps the token from being tried, and its trigger finds nothing
      have hnone : t.trigger.searchAt? p true = none :=
        Option.eq_none_iff_forall_ne_some.2 fun c hc => hp (h p c lead hlead hc).symm
      simp [hp, hnone]

end Token

/-- **Without sound leads the same token goes first**, with the same match. -/
theorem firstToken?_withoutLead {ts : List Token} (h : ∀ t ∈ ts, t.LeadSound) (p : Place)
    (scope : Scope) (flags : Text) :
    firstToken? (ts.map Token.withoutLead) p scope flags =
      (firstToken? ts p scope flags).map fun x => (x.1.withoutLead, x.2) := by
  unfold firstToken?
  induction ts with
  | nil => rfl
  | cons t ts ih =>
    have ih := ih fun u hu => h u (List.mem_cons_of_mem _ hu)
    rw [List.map_cons, List.findSome?_cons, List.findSome?_cons,
      Token.matchAt?_withoutLead (h t List.mem_cons_self)]
    cases t.matchAt? p scope flags with
    | none => exact ih
    | some c => rfl

namespace Dialect

/-- The dialect with no leads. -/
def withoutLeads (d : Dialect) : Dialect := { d with tokens := d.tokens.map Token.withoutLead }

/-- **A dialect with sound leads expands as it does without them.** -/
theorem expand_withoutLeads {d : Dialect} (h : ∀ t ∈ d.tokens, t.LeadSound) (pattern flags : Text)
    (tally : Tally) : d.withoutLeads.expand pattern flags tally = d.expand pattern flags tally := by
  have hmirrored (prepared : Prepared) : RunSetting.MirroredBy Token.withoutLead
      ⟨d.tokens, prepared.flags⟩ ⟨d.withoutLeads.tokens, prepared.flags⟩ :=
    ⟨rfl, Token.replaces_withoutLead, fun p scope => firstToken?_withoutLead h p scope _⟩
  have hfeatures : d.withoutLeads.features = d.features := rfl
  exact expand_mirrored hfeatures rfl rfl (fun prepared _ => hmirrored prepared) tally

end Dialect

/-! ## 2. The built-in tokens -/

/-- Where a function finds a trigger, the lead of its token stands. -/
def TokenSpec.LeadFound (s : TokenSpec) (find : Text → Option Extent) : Prop :=
  ∀ (t : Text) (e : Extent) (lead : Char), s.lead = some lead → find t = some e →
    t.head? = some lead

theorem Token.Works.leadSound {t : Token} {s : TokenSpec} {find : Text → Option Extent}
    (h : t.Works s find) (hs : s.LeadFound find) : t.LeadSound := by
  intro p c lead hlead hc
  rw [h.finds] at hc
  obtain ⟨e, he, -⟩ := Option.map_eq_some_iff.1 hc
  exact hs p.ahead e lead (h.lead.symm.trans hlead) he

namespace Builtin

open Trigger in
/-- The leads of the built-in tokens stand where their triggers match. -/
theorem specs_leadFound : List.Forall₂ TokenSpec.LeadFound specs finders := by
  -- the blanks of free spacing have no lead, every other trigger begins with one fixed character
  refine .cons ?refuse <| .cons ?codePoint <| .cons ?bareClass <| .cons ?openComment <|
    .cons ?comment <| .cons ?blank <| .cons ?dot <| .cons ?namedRef <| .cons ?numbered <|
    .cons ?openNamed <| .cons ?openPlain .nil
  all_goals
    intro t e lead hlead h
    cases hlead
  case refuse =>
    obtain ⟨c, cs, rfl, -⟩ := of_refuse h
    rfl
  case codePoint =>
    obtain ⟨w, rest, -, -, rfl, -⟩ := of_codePoint h
    rfl
  case bareClass => rcases of_bareClass h with ⟨cs, rfl, -⟩ | ⟨cs, rfl, -⟩ <;> rfl
  case openComment =>
    obtain ⟨cs, rfl, -⟩ := of_openComment h
    rfl
  case comment =>
    obtain ⟨w, rest, -, rfl, -⟩ := of_comment h
    rfl
  case dot =>
    obtain ⟨cs, rfl, -⟩ := of_dot h
    rfl
  case namedRef =>
    obtain ⟨w, rest, -, -, rfl, -⟩ := of_namedRef h
    rfl
  case numbered =>
    obtain ⟨w, rest, -, -, -, rfl, -⟩ := of_numbered h
    rfl
  case openNamed =>
    obtain ⟨before, w, rest, rfl | rfl, -, -, rfl, -⟩ := of_openNamed h <;> rfl
  case openPlain =>
    obtain ⟨cs, rfl, -⟩ := of_openPlain h
    rfl

end Builtin

/-- **The leads of the built-in tokens are sound.** -/
theorem leadSound_of_mem_initial {t : Token} (ht : t ∈ Dialect.initial.tokens) : t.LeadSound := by
  have hfound {sf : TokenSpec × (Text → Option Extent)} (h : sf ∈ Builtin.table) :
      sf.1.LeadFound sf.2 :=
    List.forall₂_zip Builtin.specs_leadFound (List.mem_reverse.1 h)
  obtain ⟨i, hi, rfl⟩ := List.getElem_of_mem ht
  have hlength := Dialect.initial_tokens.length_eq
  exact (Dialect.initial_tokens.get hi (hlength ▸ hi)).leadSound (hfound (List.get_mem _ _))

/-! ## 3. Property escapes -/

/-- **The lead of property escapes is sound**: the trigger begins with a backslash. -/
theorem leadSound_property {serial : Nat} {t : Token} (h : Token.ofSpec propertySpec serial = .ok t) :
    t.LeadSound := by
  obtain ⟨e, he, hprogram⟩ := Engine.ofSource_of_program Trigger.program_property
  have hmode := (Engine.ofSource_eq_ok.1 he).2
  have hregex : Regex.native propertySpec.trigger ['u'] =
      .ok ⟨e, false, false, none, none, none, false⟩ :=
    bind_eq_ok.2 ⟨(), rfl, bind_eq_ok.2 ⟨e, he, rfl⟩⟩
  obtain ⟨re, hre, ht⟩ := bind_eq_ok.1 h
  cases hregex.symm.trans hre
  cases ht
  intro p c lead hlead hc
  cases hlead
  have hfree : e.NoNextGroup := Engine.noNextGroup_of_unicode e (by rw [hmode])
  by_contra hhead
  have hrun : Trigger.propertyNode.run .forward some ⟨p, []⟩ = none := Node.run_char_ne hhead _
  simp [Regex.searchAt?, Engine.searchAt?_eq_matchAt? e (.inr hfree), hprogram, Program.matchAt?,
    hrun] at hc

/-! ## 4. The tokens that a dialect comes with -/

namespace Dialect

/-- The tokens are those of a fresh dialect, with or without that of property escapes. -/
def Shipped (d : Dialect) : Prop :=
  d.tokens = initial.tokens ∨ ∃ r, initial.enableProperties = .ok r ∧ d.tokens = r.2.tokens

/-- Properties that are added to a fresh dialect bring no other token. -/
theorem shipped_addProperties {ps : List UnicodeProperty} {d : Dialect}
    (h : initial.addProperties ps = .ok d) : d.Shipped := by
  obtain ⟨_, -, h⟩ := bind_eq_ok.1 h
  obtain ⟨r, hr, h⟩ := bind_eq_ok.1 h
  cases h
  exact .inr ⟨r, hr, rfl⟩

/-- The tokens that a dialect comes with have sound leads. -/
theorem Shipped.leadSound {d : Dialect} (h : d.Shipped) : ∀ t ∈ d.tokens, t.LeadSound := by
  rcases h with h | ⟨r, hr, h⟩
  · rw [h]
    exact fun t => leadSound_of_mem_initial
  · rw [h]
    unfold enableProperties at hr
    split at hr
    · cases hr
      exact fun t => leadSound_of_mem_initial
    · obtain ⟨d', hd', hr⟩ := bind_eq_ok.1 hr
      cases hr
      obtain ⟨_, -, hd'⟩ := bind_eq_ok.1 hd'
      obtain ⟨token, htoken, hd'⟩ := bind_eq_ok.1 hd'
      cases hd'
      rintro t (_ | ⟨_, ht⟩)
      · exact leadSound_property htoken
      · exact leadSound_of_mem_initial ht

end Dialect

namespace Context

/-- The context with no leads. -/
def withoutLeads (c : Context) : Context := c.withDialect c.dialect.withoutLeads

/-- **Leads only save trying tokens.** A context with the tokens that a dialect comes with, whatever
its flags, features and properties are, answers every pattern, and goes on, as it does without
leads. -/
theorem answer_expand_withoutLeads {c : Context} (h : c.dialect.Shipped) (pattern flags : Text) :
    answer (expand pattern flags) c.withoutLeads =
      ((answer (expand pattern flags) c).1, (answer (expand pattern flags) c).2.withoutLeads) := by
  have hfull : c.withoutLeads.dialect.fullFlags flags = c.dialect.fullFlags flags := rfl
  have hkept : c.withoutLeads.kept = c.kept := rfl
  have hexpand : c.withoutLeads.dialect.expand pattern (c.dialect.fullFlags flags)
      c.withoutLeads.tally = c.dialect.expand pattern (c.dialect.fullFlags flags) c.tally :=
    Dialect.expand_withoutLeads h.leadSound _ _ _
  rw [answer_expand_eq, answer_expand_eq, hfull, hkept, hexpand]
  cases c.kept.lookup (pattern, c.dialect.fullFlags flags) with
  | some t => rfl
  | none =>
    simp only [afterExpand]
    cases (c.dialect.expand pattern (c.dialect.fullFlags flags) c.tally).1 <;> rfl

/-- A property escape, a named group, a reference and the dot, with properties and under flag
`s`. -/
theorem answer_expand_withoutLeads_letter :
    let letter : UnicodeProperty := { name := "Letter".toList, bmp := some "A-Za-z".toList }
    let c := (answer (addProperties [letter]) initial).2
    let task := expand "(?<n>\\p\x7bLetter\x7d)\\k<n>.".toList ['s']
    c.dialect.Shipped ∧
      answer task c.withoutLeads = ((answer task c).1, (answer task c).2.withoutLeads) := by
  intro letter c task
  have hshipped : c.dialect.Shipped := by
    obtain ⟨r, hr⟩ := initial.dialect.exists_ok_enableProperties
    have hadd : initial.dialect.addProperties [letter] = .ok
        { r.2 with properties := [letter].foldl PropertyTable.insert r.2.properties } :=
      bind_eq_ok.2 ⟨(), by decide, bind_eq_ok.2 ⟨r, hr, rfl⟩⟩
    have hc := answer_addProperties [letter] initial
    rw [hadd] at hc
    show (answer (addProperties [letter]) initial).2.dialect.Shipped
    rw [hc]
    exact Dialect.shipped_addProperties hadd
  exact ⟨hshipped, answer_expand_withoutLeads hshipped _ _⟩

end Context

end ExtensibleRegex
