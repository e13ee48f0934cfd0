import Chomsky.Grammar.Basic

/-!
# What a grammar shows

Two grammars are equal when they show the same productions of every name
(`Grammar.ext_productions`). The rules, the terminals and the undefined names are read off that view
(`Grammar.mem_rules`, `Grammar.mem_terminals`, `Grammar.mem_undefinedNames`), and a merged grammar
shows of each name what the two grammars show of it together (`Grammar.productions?_merge`).
-/

namespace Chomsky.Grammar

/-! ## Laws of the view

`define` changes the view at one name and nowhere else; what `merge` shows follows from that. -/

/-- A grammar is what its view shows. -/
theorem ext_productions {a b : Grammar} (h : ∀ name, a.productions? name = b.productions? name) :
    a = b := by
  obtain ⟨a⟩ := a
  obtain ⟨b⟩ := b
  exact congrArg _ (Std.ExtTreeMap.ext_getElem? h)

@[simp] theorem productions?_empty (name : String) : empty.productions? name = none := by
  simp [productions?, empty]

@[simp] theorem productions?_define (g : Grammar) (name other : String)
    (productions : Productions) :
    (g.define name productions).productions? other =
      if name = other then some ((g.productions? name).getD ∅ ∪ productions)
      else g.productions? other := by
  simp [productions?, define, Std.ExtTreeMap.getElem?_alter]

@[simp] theorem mem_entries {g : Grammar} {name : String} {productions : Productions} :
    (name, productions) ∈ g.entries ↔ g.productions? name = some productions :=
  Std.ExtTreeMap.mem_toList_iff_getElem?_eq_some

theorem mem_rules {g : Grammar} {rule : Rule} :
    rule ∈ g.rules ↔ ∃ ps, g.productions? rule.left = some ps ∧ rule.right ∈ ps := by
  simp only [rules, List.mem_flatMap, List.mem_map, Std.ExtTreeSet.mem_toList]
  apply Iff.intro
  · intro h
    obtain ⟨⟨name, ps⟩, hentry, p, hp, rfl⟩ := h
    exact ⟨ps, mem_entries.1 hentry, hp⟩
  · intro h
    obtain ⟨ps, hps, hp⟩ := h
    exact ⟨(rule.left, ps), mem_entries.2 hps, rule.right, hp, rfl⟩

/-- A symbol is replaced by a production exactly when it is a name with that rule. -/
theorem exists_mem_options?_iff {g : Grammar} {s : Symbol} {p : Production} :
    (∃ ps, g.options? s = some ps ∧ p ∈ ps) ↔ ∃ name, s = .nonterminal name ∧ ⟨name, p⟩ ∈ g.rules := by
  apply Iff.intro
  · intro h
    obtain ⟨ps, hs, hp⟩ := h
    cases s with
    | terminal text => cases hs
    | nonterminal name => exact ⟨name, rfl, mem_rules.2 ⟨ps, hs, hp⟩⟩
  · intro h
    obtain ⟨name, rfl, hrule⟩ := h
    exact mem_rules.1 hrule

theorem options?_ne_none_of_mem_rules {g : Grammar} {name : String} {p : Production}
    (h : ⟨name, p⟩ ∈ g.rules) : g.options? (.nonterminal name) ≠ none := by
  obtain ⟨ps, hps, -⟩ := mem_rules.1 h
  intro hnone
  exact absurd (hps.symm.trans hnone) (Option.some_ne_none ps)

theorem defines_iff {g : Grammar} {name : String} :
    g.defines name = true ↔ ∃ ps, g.productions? name = some ps :=
  Option.isSome_iff_exists

@[simp] theorem mem_names {g : Grammar} {name : String} : name ∈ g.names ↔ g.defines name = true := by
  rw [names, Std.ExtTreeMap.mem_keys, defines, productions?, Std.ExtTreeMap.mem_iff_isSome_getElem?]

@[simp] theorem mem_terminals {g : Grammar} {token : String} :
    token ∈ g.terminals ↔ ∃ rule ∈ g.rules, token ∈ rule.right.tokens := by
  simp [terminals, Std.ExtTreeSet.mem_ofList]

/-- An undefined name is one that some rule uses and that has no entry. -/
@[simp] theorem mem_undefinedNames {g : Grammar} {name : String} :
    name ∈ g.undefinedNames ↔
      (∃ rule ∈ g.rules, name ∈ rule.right.names) ∧ g.defines name = false := by
  simp [undefinedNames, Std.ExtTreeSet.mem_ofList]

theorem undefinedNames_eq_empty_iff {g : Grammar} :
    g.undefinedNames = ∅ ↔ ∀ rule ∈ g.rules, ∀ name ∈ rule.right.names, g.defines name = true := by
  apply Iff.intro
  · intro hempty rule hrule name hname
    rw [← Bool.not_eq_false]
    intro hundefined
    have hmem : name ∈ g.undefinedNames := mem_undefinedNames.2 ⟨⟨rule, hrule, hname⟩, hundefined⟩
    rw [hempty] at hmem
    exact absurd hmem Std.ExtTreeSet.not_mem_empty
  · intro h
    apply Std.ExtTreeSet.ext_mem
    intro name
    refine iff_of_false (fun hmem => ?_) Std.ExtTreeSet.not_mem_empty
    obtain ⟨⟨rule, hrule, hname⟩, hundefined⟩ := mem_undefinedNames.1 hmem
    rw [h rule hrule name hname] at hundefined
    exact absurd hundefined (by decide)

/-! ## Laws of building

Adding entries shows, at every name, the productions that were there and those that the entries
bring. -/

/-- The productions that a list of entries brings to a name, when it names it at all. -/
def united? (name : String) : List (String × Productions) → Option Productions
  | [] => none
  | entry :: rest =>
    if entry.1 = name then some (entry.2 ∪ (united? name rest).getD ∅) else united? name rest

/-- What two sources show of one name together. -/
def unite? : Option Productions → Option Productions → Option Productions
  | none, b => b
  | a, none => a
  | some a, some b => some (a ∪ b)

theorem productions?_defineAll (g : Grammar) (entries : List (String × Productions))
    (name : String) :
    (g.defineAll entries).productions? name = unite? (g.productions? name) (united? name entries) := by
  induction entries generalizing g with
  | nil => cases h : g.productions? name <;> simp [defineAll, united?, unite?, h]
  | cons entry rest ih =>
    rw [defineAll, List.foldl_cons]
    refine (ih _).trans ?_
    rw [productions?_define]
    by_cases h : entry.1 = name
    · subst h
      have hunion : ∀ a b c : Productions, a ∪ b ∪ c = a ∪ (b ∪ c) := fun a b c =>
        Std.ExtTreeSet.ext_mem fun p => by simp [or_assoc]
      have hempty : ∀ a : Productions, ∅ ∪ a = a ∧ a ∪ ∅ = a := fun a =>
        ⟨Std.ExtTreeSet.ext_mem fun p => by simp, Std.ExtTreeSet.ext_mem fun p => by simp⟩
      cases hg : g.productions? entry.1 <;> cases hr : united? entry.1 rest <;>
        simp [united?, unite?, hr, hunion, hempty]
    · simp [united?, h]

theorem united?_eq_none {name : String} {entries : List (String × Productions)}
    (h : ∀ entry ∈ entries, entry.1 ≠ name) : united? name entries = none := by
  induction entries with
  | nil => rfl
  | cons entry rest ih =>
    rw [united?, if_neg (h entry List.mem_cons_self)]
    exact ih fun e he => h e (List.mem_cons_of_mem _ he)

theorem united?_eq_some {name : String} {ps : Productions} {entries : List (String × Productions)}
    (hdistinct : entries.Pairwise fun a b => a.1 ≠ b.1) (h : (name, ps) ∈ entries) :
    united? name entries = some ps := by
  induction entries with
  | nil => cases h
  | cons entry rest ih =>
    obtain ⟨hentry, hrest⟩ := List.pairwise_cons.1 hdistinct
    rcases List.mem_cons.1 h with rfl | h
    · have hnone : united? name rest = none := united?_eq_none fun e he => (hentry e he).symm
      have hunion : ps ∪ ∅ = ps := Std.ExtTreeSet.ext_mem fun p => by simp
      simp [united?, hnone, hunion]
    · rw [united?, if_neg (hentry _ h)]
      exact ih hrest h

/-- The entries of a grammar bring to each name what the grammar shows of it. -/
@[simp] theorem united?_entries (g : Grammar) (name : String) :
    united? name g.entries = g.productions? name := by
  cases h : g.productions? name with
  | none =>
    refine united?_eq_none fun entry hentry hname => ?_
    have hsome := mem_entries.1 (hname ▸ hentry : (name, entry.2) ∈ g.entries)
    rw [h] at hsome
    cases hsome
  | some ps =>
    refine united?_eq_some ?_ (mem_entries.2 h)
    exact Std.ExtTreeMap.distinct_keys_toList.imp fun hne heq =>
      hne (Std.LawfulEqOrd.compare_eq_iff_eq.2 heq)

/-- The merged grammar shows of each name what the two grammars show of it together. -/
@[simp] theorem productions?_merge (a b : Grammar) (name : String) :
    (a.merge b).productions? name = unite? (a.productions? name) (b.productions? name) := by
  rw [merge, productions?_defineAll, united?_entries]

end Chomsky.Grammar
