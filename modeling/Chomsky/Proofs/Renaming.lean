import Mathlib.Data.Set.Function
import Mathlib.Logic.Equiv.Basic
import Chomsky.Proofs.Closure
import Chomsky.Proofs.Homomorphism

/-!
# Names are told from tokens by their tag

A grammar may be renamed consistently: each name gives way to another one wherever it stands, and
tokens stay. Nothing that is derived depends on the names, so as long as no two names are confounded
the renamed grammar has the same sentences, also where a name is now spelled like a token. Whatever
compared texts where it should compare symbols would show there.

The renaming maps the rules of the grammar to rules, and a map that takes the names back maps them
back (**`mapsInto_of_rename`**), so what holds of maps that keep rules holds in both directions.
-/

namespace Chomsky

namespace Grammar

/-- The grammar with every name replaced by its image. The productions of names with one image are
united. -/
def rename (f : String → String) (g : Grammar) : Grammar :=
  .ofEntries (g.entries.map fun (name, productions) =>
    (f name, .ofList (productions.toList.map (Production.rename f))))

variable {f : String → String} {g : Grammar} {start : String}

@[simp] theorem mem_rules_rename {rule : Rule} :
    rule ∈ (g.rename f).rules ↔ ∃ source ∈ g.rules, source.rename f = rule := by
  rw [rename, mem_rules_ofEntries]
  constructor
  · rintro ⟨entry, hentry, hleft, hright⟩
    obtain ⟨⟨name, ps⟩, hsource, rfl⟩ := List.mem_map.mp hentry
    have hp : ∃ p ∈ ps, p.rename f = rule.right := by
      simpa [Std.ExtTreeSet.mem_ofList] using hright
    obtain ⟨p, hp, himage⟩ := hp
    refine ⟨⟨name, p⟩, mem_rules.mpr ⟨ps, mem_entries.mp hsource, hp⟩, ?_⟩
    rw [Rule.rename, himage, show f name = rule.left from hleft]
  · rintro ⟨⟨name, p⟩, hrule, rfl⟩
    obtain ⟨ps, hps, hp⟩ := mem_rules.mp hrule
    refine ⟨_, List.mem_map_of_mem (mem_entries.mpr hps), rfl, ?_⟩
    have himage : p.rename f ∈ ps.toList.map (Production.rename f) :=
      List.mem_map_of_mem (Std.ExtTreeSet.mem_toList.mpr hp)
    simpa [Std.ExtTreeSet.mem_ofList] using himage

theorem defines_rename {name : String} :
    (g.rename f).defines name = true ↔ ∃ source, g.defines source = true ∧ f source = name := by
  rw [rename, defines_ofEntries]
  constructor
  · rintro ⟨entry, hentry, hname⟩
    obtain ⟨⟨source, ps⟩, hsource, rfl⟩ := List.mem_map.mp hentry
    exact ⟨source, defines_iff.mpr ⟨ps, mem_entries.mp hsource⟩, hname⟩
  · rintro ⟨source, hsource, rfl⟩
    obtain ⟨ps, hps⟩ := defines_iff.mp hsource
    exact ⟨_, List.mem_map_of_mem (mem_entries.mpr hps), rfl⟩

/-- Every name that a renamed rule uses is the image of a name that is defined. -/
theorem undefinedNames_rename (h : g.undefinedNames = ∅) : (g.rename f).undefinedNames = ∅ := by
  rw [undefinedNames_eq_empty_iff] at h ⊢
  intro rule hrule name hname
  obtain ⟨source, hsource, rfl⟩ := mem_rules_rename.mp hrule
  rw [Rule.right_rename, Production.names_rename] at hname
  obtain ⟨original, horiginal, rfl⟩ := List.mem_map.mp hname
  exact defines_rename.mpr ⟨original, h source hsource original horiginal, rfl⟩

/-! ## There and back -/

theorem mapsInto_rename : MapsInto f g (g.rename f) :=
  fun rule hrule => mem_rules_rename.mpr ⟨rule, hrule, rfl⟩

/-- **The way back.** It is enough that the names that a derivation meets are taken back. -/
theorem mapsInto_of_rename {back : String → String}
    (h : ∀ name, g.Met start name → back (f name) = name) : MapsInto back (g.rename f) g := by
  intro rule hrule
  obtain ⟨source, hsource, rfl⟩ := mem_rules_rename.mp hrule
  have hleft : g.Met start source.left := Or.inl (defines_of_mem_rules hsource)
  have hright : ∀ name ∈ source.right.names, g.Met start name :=
    fun name hname => met_of_mem_names hsource hname
  have hback : (source.rename f).rename back = source :=
    Rule.rename_rename (h source.left hleft) fun name hname => h name (hright name hname)
  rw [hback]
  exact hsource

end Grammar

/-- **Renaming changes nothing.** Let a renaming keep apart the names of a grammar and the start
symbol, as every injective one does; it may spell names like tokens. Then the renamed grammar accepts
the same sentences, and if no name is undefined, the same sentences are found within every bound. -/
theorem accepts_rename_and_sentences_rename (g : Grammar) (start : String) {f : String → String}
    (hf : Set.InjOn f {name | g.Met start name}) :
    (∀ w, (Recogniser.ofGrammar (g.rename f) (f start)).accepts w =
      (Recogniser.ofGrammar g start).accepts w) ∧
    (g.undefinedNames = ∅ → g.defines start = true → ∀ bound e,
      (g.rename f).sentences (f start) bound e = g.sentences start bound e) := by
  let back := Function.invFunOn f {name | g.Met start name}
  have hback : ∀ name, g.Met start name → back (f name) = name := hf.leftInvOn_invFunOn
  have hstartBack : back (f start) = start := hback start (g.met_start start)
  have hthere : Grammar.MapsInto f g (g.rename f) := Grammar.mapsInto_rename
  have hreturn : Grammar.MapsInto back (g.rename f) g := Grammar.mapsInto_of_rename hback
  constructor
  · intro w
    rw [Bool.eq_iff_iff]
    constructor
    · intro h
      -- the way back starts at the image of the start symbol and has to end at the start symbol
      rw [← hstartBack]
      exact Recogniser.accepts_of_mapsInto hreturn h
    · exact Recogniser.accepts_of_mapsInto hthere
  · intro hdefined hstart bound e
    apply Std.ExtTreeSet.ext_mem
    intro w
    constructor
    · intro h
      rw [← hstartBack]
      exact Grammar.mem_sentences_of_mapsInto hreturn (Grammar.undefinedNames_rename hdefined)
        (Grammar.defines_rename.mpr ⟨start, hstart, rfl⟩) h
    · exact Grammar.mem_sentences_of_mapsInto hthere hdefined hstart

/-- The names `S` and `A` of `balanced` may be spelled like the tokens `a` and `b`. -/
theorem accepts_balanced_renamed :
    let f : String → String := (Equiv.swap "S" "a").trans (Equiv.swap "A" "b")
    Set.InjOn f {name | balanced.Met "S" name} ∧
    balanced.undefinedNames = ∅ ∧ balanced.defines "S" = true ∧ f "S" = "a" ∧ f "A" = "b" ∧
    (Recogniser.ofGrammar (balanced.rename f) (f "S")).accepts ["a", "a", "b", "b"] = true ∧
    (balanced.rename f).sentences (f "S") 4 .parallel = {["a", "b"], ["a", "a", "b", "b"]} := by
  intro f
  have hf : Set.InjOn f {name | balanced.Met "S" name} := (Equiv.injective _).injOn
  have hdefined : balanced.undefinedNames = ∅ := by decide +kernel
  have hstart : balanced.defines "S" = true := by decide
  obtain ⟨haccepts, hsentences⟩ := accepts_rename_and_sentences_rename balanced "S" hf
  refine ⟨hf, hdefined, hstart, by decide, by decide, ?_, ?_⟩
  · rw [haccepts]
    decide
  · rw [hsentences hdefined hstart]
    decide +kernel

end Chomsky
