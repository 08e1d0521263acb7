import ExtensibleRegex.Proofs.Native.Groups
import ExtensibleRegex.Proofs.Native.Paths

/-!
# Where the groups of a match lie

A match is a span of the text that was searched, and so is each of its groups that took part
(`Regex.liesIn_of_searchAt?`): the ways through a tree set groups to nothing else
(`Node.leads_of_mem_paths`). By its two offsets, what a group stands for can be cut out of the text then.
-/

namespace ExtensibleRegex

namespace Native

/-- A slot that is set holds a span that some group was set to. -/
theorem mem_of_mem_slotsOf {count : Nat} {s : Span} : ∀ {groups : List (Nat × Span)},
    some s ∈ slotsOf count groups → ∃ g ∈ groups, g.2 = s
  | [], h => nomatch List.eq_of_mem_replicate h
  | g :: groups, h => by
      rcases List.mem_or_eq_of_mem_set h with h | h
      · obtain ⟨g', hg', hs⟩ := mem_of_mem_slotsOf h
        exact ⟨g', List.mem_cons_of_mem g hg', hs⟩
      · exact ⟨g, List.mem_cons_self, (Option.some.inj h).symm⟩

/-- A match lies in a text with all its groups. -/
structure Found.LiesIn (f : Found) (text : Text) : Prop where
  whole : f.whole.LiesIn text
  groups : ∀ s, some s ∈ f.groups → s.LiesIn text

variable {place : Place} {f : Found}

theorem Program.liesIn_of_matchAt? {p : Program} (h : p.matchAt? place = some f) :
    f.LiesIn place.text := by
  rw [matchAt?_eq_head?] at h
  obtain ⟨t, ht, rfl⟩ := Option.map_eq_some_iff.1 h
  have hleads := p.node.leads_of_mem_paths (List.mem_of_mem_head? ht)
  refine ⟨hleads.reads, fun s hs => ?_⟩
  rw [groupSpans_eq_slotsOf] at hs
  obtain ⟨g, hg, rfl⟩ := mem_of_mem_slotsOf hs
  exact hleads.groups (fun _ hnone => absurd hnone List.not_mem_nil) g hg

theorem Program.liesIn_of_search? {p : Program} (h : p.search? place = some f) :
    f.LiesIn place.text := by
  obtain ⟨n, -, hmatch, -⟩ := search?_eq_some h
  have hlies := liesIn_of_matchAt? hmatch
  rwa [Place.text_advance] at hlies

theorem Engine.liesIn_of_searchAt? {e : Engine} (h : e.searchAt? place = some f) :
    f.LiesIn place.text := by
  unfold searchAt? at h
  split at h
  · split at h
    · rename_i g hg
      have hlies := Program.liesIn_of_search? hg
      split at h
      · cases h
        exact ⟨hlies.whole, fun s hs => hlies.groups s (List.mem_of_mem_dropLast hs)⟩
      · cases h
    · cases h
  · split at h
    · rename_i g hg
      split at h
      · cases h
        exact Program.liesIn_of_search? hg
      · cases h
    · cases h

end Native

/-- A match of a regex lies in a text with all its groups. -/
structure Captures.LiesIn (c : Captures) (text : Text) : Prop where
  whole : c.whole.LiesIn text
  groups : ∀ s, some s ∈ c.groups → s.LiesIn text

/-- **A match lies in the text that was searched**, with all its groups. -/
theorem Regex.liesIn_of_searchAt? {re : Regex} {p : Place} {sticky : Bool} {c : Captures}
    (h : re.searchAt? p sticky = some c) : c.LiesIn p.text := by
  obtain ⟨f, hf, rfl⟩ := Option.map_eq_some_iff.1 h
  have hlies : f.LiesIn p.text := by
    split at hf
    · exact Native.Engine.liesIn_of_searchAt? hf
    · exact Native.Program.liesIn_of_search? hf
  exact ⟨hlies.whole, hlies.groups⟩

end ExtensibleRegex
