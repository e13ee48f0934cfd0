import Chomsky.Chart.Producers
import Chomsky.Proofs.Grammar.Rules

/-!
# The producers determine the rules

Producers are recorded rule by rule, and each rule opens what it needs on the way: a table under its
left name, a set under its right-hand side. Two lists of rules could therefore lead to the same
producers and leave different traces, an empty table here, an empty set there. They do not:

* **`Canonical`**: no empty table and no empty set is kept. Recording a rule opens nothing that it does
  not fill (`Canonical.record`), so this holds of every list of rules (`canonical_ofRules`).
* **`eq_of_of_eq`**: under this invariant, producers are what they show of each production.
* **`ofGrammar_inverts_rules`**: the producers of a grammar list exactly the names that have a
  production, and they are equal for two grammars exactly when the rules are.
-/

namespace Chomsky.Producers

/-! ## Nothing empty is kept -/

/-- No table and no set of names is empty. -/
structure Canonical (producers : Producers) : Prop where
  table_ne : ∀ (left : String) (table : NameTable), producers.pairs[left]? = some table → table ≠ ∅
  names_ne : ∀ (p : Production) (names : NameSet), producers.of? p = some names → names ≠ ∅

theorem canonical_empty : empty.Canonical where
  table_ne left table h := by
    simp [empty] at h
  names_ne p names h := by
    rw [of?_empty] at h
    exact absurd h (by simp)

theorem add_ne_empty (table : NameTable) (text name : String) : table.add text name ≠ ∅ := by
  unfold NameTable.add
  rw [Ne, Std.ExtTreeMap.alter_eq_empty_iff]
  rintro ⟨-, hnone⟩
  cases hnone

/-- **A rule fills what it opens.** -/
theorem Canonical.record {producers : Producers} (h : producers.Canonical) (rule : Rule) :
    (producers.record rule).Canonical where
  table_ne left table htable := by
    obtain ⟨name, production⟩ := rule
    cases production with
    | unary token => exact h.table_ne left table htable
    | binary left' right =>
      by_cases hleft : left' = left
      · subst hleft
        have hadded : NameTable.add (producers.pairs[left']?.getD ∅) right name = table := by
          simpa [Producers.record] using htable
        rw [← hadded]
        exact add_ne_empty _ right name
      · have hold : producers.pairs[left]? = some table := by
          simpa [Producers.record, Std.ExtTreeMap.getElem?_alter, hleft] using htable
        exact h.table_ne left table hold
  names_ne p names hnames := by
    rw [of?_record] at hnames
    split at hnames
    · rw [← Option.some.inj hnames]
      exact Std.ExtTreeSet.insert_ne_empty
    · exact h.names_ne p names hnames

/-- The invariant is kept from rule to rule. -/
theorem canonical_ofRules (rules : List Rule) : (ofRules rules).Canonical := by
  unfold ofRules
  suffices h : ∀ producers : Producers, producers.Canonical →
      (rules.foldl Producers.record producers).Canonical from h empty canonical_empty
  induction rules with
  | nil => exact fun producers h => h
  | cons rule rest ih => exact fun producers h => ih (producers.record rule) (h.record rule)

/-! ## What producers show

All that can be asked of producers is which names have a production. Where nothing empty is kept, the
answers tell whether a set is listed at all, and then whether a table is. -/

variable {a b producers : Producers}

theorem Canonical.of?_eq (h : producers.Canonical) (p : Production) :
    producers.of? p = if producers.of p = ∅ then none else some (producers.of p) := by
  unfold of
  cases hp : producers.of? p with
  | none => simp
  | some names =>
    have hne := h.names_ne p names hp
    simp [hne]

/-- A table of one side has a counterpart, since it lists something that the other side shows. -/
theorem Canonical.getElem?_pairs_ne_none (ha : a.Canonical) (h : ∀ p, a.of? p = b.of? p)
    {left : String} {table : NameTable} (htable : a.pairs[left]? = some table) :
    b.pairs[left]? ≠ none := by
  intro hnone
  apply ha.table_ne left table htable
  apply Std.ExtTreeMap.ext_getElem?
  intro right
  have hshown := h (.binary left right)
  simpa [of?, htable, hnone] using hshown

theorem eq_of_of?_eq (ha : a.Canonical) (hb : b.Canonical) (h : ∀ p, a.of? p = b.of? p) : a = b := by
  have htokens : a.tokens = b.tokens := Std.ExtTreeMap.ext_getElem? fun token => h (.unary token)
  have hpairs : a.pairs = b.pairs := by
    apply Std.ExtTreeMap.ext_getElem?
    intro left
    cases hta : a.pairs[left]? with
    | none =>
      cases htb : b.pairs[left]? with
      | none => rfl
      | some table => exact absurd hta (hb.getElem?_pairs_ne_none (fun p => (h p).symm) htb)
    | some table =>
      cases htb : b.pairs[left]? with
      | none => exact absurd htb (ha.getElem?_pairs_ne_none h hta)
      | some table' =>
        have hinner : table = table' := by
          apply Std.ExtTreeMap.ext_getElem?
          intro right
          have hpair := h (.binary left right)
          simpa [of?, hta, htb] using hpair
        rw [hinner]
  cases a
  cases b
  rw [Producers.mk.injEq]
  exact ⟨hpairs, htokens⟩

/-- **Producers without empty parts are what they show.** -/
theorem eq_of_of_eq (ha : a.Canonical) (hb : b.Canonical) (h : ∀ p, a.of p = b.of p) : a = b := by
  apply eq_of_of?_eq ha hb
  intro p
  rw [ha.of?_eq, hb.of?_eq, h]

/-! ## The producers of a grammar -/

/-- The names of a production that has any are listed, and no set is listed for the others. -/
theorem of?_ofGrammar_eq_some_iff {g : Grammar} {p : Production} {names : NameSet} :
    (ofGrammar g).of? p = some names ↔
      names ≠ ∅ ∧ ∀ name, name ∈ names ↔ ⟨name, p⟩ ∈ g.rules := by
  have hcanonical : (ofGrammar g).Canonical := canonical_ofRules g.rules
  constructor
  · intro h
    refine ⟨hcanonical.names_ne p names h, fun name => ?_⟩
    rw [← mem_of_ofGrammar, of, h]
    rfl
  · rintro ⟨hne, hnames⟩
    have hsame : (ofGrammar g).of p = names := by
      apply Std.ExtTreeSet.ext_mem
      intro name
      rw [mem_of_ofGrammar, hnames]
    rw [hcanonical.of?_eq, hsame, if_neg hne]

theorem of?_ofGrammar_eq_none_iff {g : Grammar} {p : Production} :
    (ofGrammar g).of? p = none ↔ ∀ name, ⟨name, p⟩ ∉ g.rules := by
  have hcanonical : (ofGrammar g).Canonical := canonical_ofRules g.rules
  constructor
  · intro h name hrule
    have hmem : name ∈ (ofGrammar g).of p := mem_of_ofGrammar.mpr hrule
    rw [of, h] at hmem
    exact absurd hmem Std.ExtTreeSet.not_mem_empty
  · intro h
    have hempty : (ofGrammar g).of p = ∅ := by
      apply Std.ExtTreeSet.ext_mem
      intro name
      rw [mem_of_ofGrammar]
      exact iff_of_false (h name) Std.ExtTreeSet.not_mem_empty
    rw [hcanonical.of?_eq, if_pos hempty]

theorem ofGrammar_eq_iff {g g' : Grammar} :
    ofGrammar g = ofGrammar g' ↔ ∀ rule, rule ∈ g.rules ↔ rule ∈ g'.rules := by
  constructor
  · rintro h ⟨name, p⟩
    rw [← mem_of_ofGrammar, h, mem_of_ofGrammar]
  · intro h
    apply eq_of_of_eq (canonical_ofRules g.rules) (canonical_ofRules g'.rules)
    intro p
    apply Std.ExtTreeSet.ext_mem
    intro name
    show name ∈ (ofGrammar g).of p ↔ name ∈ (ofGrammar g').of p
    rw [mem_of_ofGrammar, h, mem_of_ofGrammar]

/-- **Producers invert the rules, and nothing but the rules.** What is listed for a production is the set
of the names that have it, if there are any. Two grammars have the same producers exactly when they have
the same rules, that is, when they differ at most in names without productions. -/
theorem ofGrammar_inverts_rules :
    (∀ (g : Grammar) (p : Production),
      (∀ names, (ofGrammar g).of? p = some names ↔
        names ≠ ∅ ∧ ∀ name, name ∈ names ↔ ∃ ps, g.productions? name = some ps ∧ p ∈ ps) ∧
      ((ofGrammar g).of? p = none ↔ ¬∃ name ps, g.productions? name = some ps ∧ p ∈ ps)) ∧
    (∀ g g' : Grammar,
      (ofGrammar g = ofGrammar g' ↔ ∀ rule, rule ∈ g.rules ↔ rule ∈ g'.rules) ∧
      (ofGrammar g = ofGrammar g' ↔ ∀ name, g.productions? name = g'.productions? name ∨
        (g.productions? name).getD ∅ = ∅ ∧ (g'.productions? name).getD ∅ = ∅)) := by
  constructor
  · intro g p
    have hrule : ∀ name, ⟨name, p⟩ ∈ g.rules ↔ ∃ ps, g.productions? name = some ps ∧ p ∈ ps :=
      fun name => Grammar.mem_rules
    constructor
    · intro names
      rw [of?_ofGrammar_eq_some_iff]
      simp only [hrule]
    · rw [of?_ofGrammar_eq_none_iff, not_exists]
      simp only [hrule]
  · intro g g'
    refine ⟨ofGrammar_eq_iff, ?_⟩
    rw [ofGrammar_eq_iff, Grammar.forall_mem_rules_iff]

/-- A name that is defined without productions leaves no trace. -/
example : ofGrammar (Grammar.empty.define "A" ∅) = ofGrammar .empty := by decide

end Chomsky.Producers
