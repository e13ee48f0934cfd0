import Chomsky.Grammar.Lemmas

/-!
# A grammar is its rules and its names

The names of a grammar are more than its rules tell: a defined name without productions has none.
Beyond that nothing is lost. Two grammars with the same rules and the same names are equal
(`ext_rules`), a grammar that is built from entries or from rules shows what it was built from
(`mem_rules_ofEntries`, `mem_rules_ofRules`), and a grammar in which every name has a production is
built from its own rules (`ofRules_rules`). Two grammars with the same rules alone differ at most in
names without productions (`forall_mem_rules_iff`).

A merged grammar has the rules and the names of both (`mem_rules_merge`, `defines_merge`). The laws of
merging follow from that, and so does what a list of rules builds: its order and its repetitions are
lost (`ofRules_congr`), a list in two parts builds two grammars merged (`ofRules_append`), and the rules
may as well be merged one at a time (`ofRules_eq_foldl_merge`).
-/

namespace Chomsky.Grammar

variable {g : Grammar} {name : String}

theorem defines_of_mem_rules {rule : Rule} (h : rule ∈ g.rules) : g.defines rule.left = true := by
  obtain ⟨ps, hps, -⟩ := mem_rules.mp h
  exact defines_iff.mpr ⟨ps, hps⟩

/-- The rules of one name are its productions. -/
theorem mem_getD_productions? {p : Production} :
    p ∈ (g.productions? name).getD ∅ ↔ ⟨name, p⟩ ∈ g.rules := by
  rw [mem_rules]
  cases g.productions? name <;> simp

/-- **Rules and names determine a grammar.** -/
theorem ext_rules {a b : Grammar} (hrules : ∀ rule, rule ∈ a.rules ↔ rule ∈ b.rules)
    (hnames : ∀ name, a.defines name = b.defines name) : a = b := by
  apply ext_productions
  intro name
  have hname := hnames name
  unfold defines at hname
  cases ha : a.productions? name with
  | none =>
    cases hb : b.productions? name with
    | none => rfl
    | some qs =>
      rw [ha, hb] at hname
      cases hname
  | some ps =>
    cases hb : b.productions? name with
    | none =>
      rw [ha, hb] at hname
      cases hname
    | some qs =>
      have hmem : ∀ p, p ∈ ps ↔ p ∈ qs := by
        intro p
        have hrule := hrules ⟨name, p⟩
        rw [← mem_getD_productions?, ← mem_getD_productions?, ha, hb] at hrule
        exact hrule
      exact congrArg some (Std.ExtTreeSet.ext_mem fun {p} => hmem p)

/-- Grammars have the same rules when they differ at most in names without productions. -/
theorem forall_mem_rules_iff {a b : Grammar} :
    (∀ rule, rule ∈ a.rules ↔ rule ∈ b.rules) ↔
      ∀ name, a.productions? name = b.productions? name ∨
        (a.productions? name).getD ∅ = ∅ ∧ (b.productions? name).getD ∅ = ∅ := by
  constructor
  · intro h name
    have hsame : (a.productions? name).getD ∅ = (b.productions? name).getD ∅ := by
      apply Std.ExtTreeSet.ext_mem
      intro p
      rw [mem_getD_productions?, h, mem_getD_productions?]
    cases ha : a.productions? name with
    | none =>
      right
      rw [ha] at hsame
      exact ⟨rfl, hsame.symm⟩
    | some ps =>
      cases hb : b.productions? name with
      | none =>
        right
        rw [ha, hb] at hsame
        exact ⟨hsame, rfl⟩
      | some qs =>
        left
        rw [ha, hb] at hsame
        exact congrArg some hsame
  · rintro h ⟨name, p⟩
    rw [← mem_getD_productions?, ← mem_getD_productions?]
    rcases h name with hsame | ⟨ha, hb⟩
    · rw [hsame]
    · rw [ha, hb]

@[simp] theorem mem_rules_merge {a b : Grammar} {rule : Rule} :
    rule ∈ (a.merge b).rules ↔ rule ∈ a.rules ∨ rule ∈ b.rules := by
  rw [mem_rules, mem_rules, mem_rules, productions?_merge]
  cases a.productions? rule.left with
  | none => cases b.productions? rule.left <;> simp [unite?]
  | some ps => cases b.productions? rule.left <;> simp [unite?]

@[simp] theorem defines_merge {a b : Grammar} {name : String} :
    (a.merge b).defines name = (a.defines name || b.defines name) := by
  rw [defines, defines, defines, productions?_merge]
  cases a.productions? name with
  | none => cases b.productions? name <;> rfl
  | some ps => cases b.productions? name <;> rfl

/-! ## Laws of merging

A rule stands in a merged grammar when it stands in one grammar or the other, and the same goes for
a name. So merging obeys the laws of "or", and the empty grammar, which has neither rules nor names,
adds nothing. -/

@[simp] theorem not_mem_rules_empty (rule : Rule) : rule ∉ empty.rules := by
  intro h
  obtain ⟨ps, hps, -⟩ := mem_rules.mp h
  rw [productions?_empty] at hps
  exact absurd hps (by nofun)

@[simp] theorem defines_empty (name : String) : empty.defines name = false := by
  rw [defines, productions?_empty]
  rfl

theorem merge_comm (a b : Grammar) : a.merge b = b.merge a := by
  apply ext_rules
  · intro rule
    rw [mem_rules_merge, mem_rules_merge]
    exact or_comm
  · intro name
    rw [defines_merge, defines_merge]
    exact Bool.or_comm _ _

theorem merge_assoc (a b c : Grammar) : (a.merge b).merge c = a.merge (b.merge c) := by
  apply ext_rules
  · intro rule
    simp only [mem_rules_merge]
    exact or_assoc
  · intro name
    simp only [defines_merge]
    exact Bool.or_assoc _ _ _

@[simp] theorem merge_self (a : Grammar) : a.merge a = a := by
  apply ext_rules
  · intro rule
    rw [mem_rules_merge]
    exact or_self_iff
  · intro name
    rw [defines_merge]
    exact Bool.or_self _

@[simp] theorem merge_empty (a : Grammar) : a.merge empty = a := by
  apply ext_rules
  · intro rule
    rw [mem_rules_merge]
    exact or_iff_left (not_mem_rules_empty rule)
  · intro name
    rw [defines_merge, defines_empty]
    exact Bool.or_false _

@[simp] theorem empty_merge (a : Grammar) : empty.merge a = a := by
  rw [merge_comm, merge_empty]

/-! ## Grammars built from entries and from rules -/

theorem exists_mem_united?_iff {entries : List (String × Productions)} {p : Production} :
    (∃ ps, united? name entries = some ps ∧ p ∈ ps) ↔
      ∃ entry ∈ entries, entry.1 = name ∧ p ∈ entry.2 := by
  induction entries with
  | nil => simp [united?]
  | cons entry rest ih =>
    by_cases hentry : entry.1 = name
    · have hrest : p ∈ (united? name rest).getD ∅ ↔ ∃ ps, united? name rest = some ps ∧ p ∈ ps := by
        cases united? name rest with
        | none => simp
        | some ps => simp
      rw [united?, if_pos hentry]
      simp [hrest, ih, hentry]
    · rw [united?, if_neg hentry, ih]
      simp [hentry]

theorem isSome_united?_iff {entries : List (String × Productions)} :
    (united? name entries).isSome = true ↔ ∃ entry ∈ entries, entry.1 = name := by
  induction entries with
  | nil => simp [united?]
  | cons entry rest ih =>
    by_cases hentry : entry.1 = name
    · rw [united?, if_pos hentry]
      simp [hentry]
    · rw [united?, if_neg hentry, ih]
      simp [hentry]

variable {rules : List Rule}

@[simp] theorem productions?_ofEntries (entries : List (String × Productions)) (name : String) :
    (ofEntries entries).productions? name = united? name entries := by
  rw [ofEntries, productions?_defineAll, productions?_empty]
  rfl

theorem mem_rules_ofEntries {entries : List (String × Productions)} {rule : Rule} :
    rule ∈ (ofEntries entries).rules ↔
      ∃ entry ∈ entries, entry.1 = rule.left ∧ rule.right ∈ entry.2 := by
  rw [mem_rules, productions?_ofEntries, exists_mem_united?_iff]

theorem defines_ofEntries {entries : List (String × Productions)} :
    (ofEntries entries).defines name = true ↔ ∃ entry ∈ entries, entry.1 = name := by
  rw [defines, productions?_ofEntries, isSome_united?_iff]

@[simp] theorem mem_rules_ofRules {rule : Rule} : rule ∈ (ofRules rules).rules ↔ rule ∈ rules := by
  obtain ⟨name, p⟩ := rule
  rw [ofRules, mem_rules_ofEntries]
  apply Iff.intro
  · intro h
    obtain ⟨entry, hentry, hname, hp⟩ := h
    obtain ⟨other, hother, rfl⟩ := List.mem_map.mp hentry
    have hright : other.right = p := by simpa using hp
    rw [← hright, ← show other.left = name from hname]
    exact hother
  · intro h
    exact ⟨(name, {p}), List.mem_map.mpr ⟨⟨name, p⟩, h, rfl⟩, rfl, by simp⟩

theorem defines_ofRules : (ofRules rules).defines name = true ↔ ∃ rule ∈ rules, rule.left = name := by
  rw [ofRules, defines_ofEntries]
  apply Iff.intro
  · intro h
    obtain ⟨entry, hentry, hname⟩ := h
    obtain ⟨rule, hrule, rfl⟩ := List.mem_map.mp hentry
    exact ⟨rule, hrule, hname⟩
  · intro h
    obtain ⟨rule, hrule, rfl⟩ := h
    exact ⟨_, List.mem_map.mpr ⟨rule, hrule, rfl⟩, rfl⟩

/-- The order of the rules does not matter, and neither does their number. -/
theorem ofRules_congr {rules' : List Rule} (h : ∀ rule, rule ∈ rules ↔ rule ∈ rules') :
    ofRules rules = ofRules rules' := by
  apply ext_rules
  · intro rule
    rw [mem_rules_ofRules, mem_rules_ofRules]
    exact h rule
  · intro name
    rw [Bool.eq_iff_iff, defines_ofRules, defines_ofRules]
    simp only [h]

theorem ofRules_append (front back : List Rule) :
    ofRules (front ++ back) = (ofRules front).merge (ofRules back) := by
  apply ext_rules
  · intro rule
    rw [mem_rules_merge]
    simp only [mem_rules_ofRules, List.mem_append]
  · intro name
    rw [defines_merge, Bool.eq_iff_iff, Bool.or_eq_true]
    simp only [defines_ofRules, List.mem_append, or_and_right, exists_or]

theorem foldl_merge_ofRules (g : Grammar) (rules : List Rule) :
    rules.foldl (fun g rule => g.merge (ofRules [rule])) g = g.merge (ofRules rules) := by
  induction rules generalizing g with
  | nil => exact (merge_empty g).symm
  | cons rule rest ih =>
    rw [List.foldl_cons, ih, merge_assoc, ← ofRules_append]
    rfl

/-- **Rules may be merged one at a time.** -/
theorem ofRules_eq_foldl_merge (rules : List Rule) :
    ofRules rules = rules.foldl (fun g rule => g.merge (ofRules [rule])) empty := by
  rw [foldl_merge_ofRules, empty_merge]

/-- A name has a rule when it is defined and has a production. -/
theorem exists_mem_rules_of_defines (hne : g.productions? name ≠ some ∅)
    (h : g.defines name = true) : ∃ rule ∈ g.rules, rule.left = name := by
  obtain ⟨ps, hps⟩ := defines_iff.mp h
  have hnonempty : ps ≠ ∅ := fun hempty => hne (hempty ▸ hps)
  have hlist : ps.toList ≠ [] := by
    intro hnil
    exact hnonempty (Std.ExtTreeSet.isEmpty_iff.mp (by
      rw [← Std.ExtTreeSet.isEmpty_toList, hnil]
      rfl))
  obtain ⟨p, hp⟩ := List.exists_mem_of_ne_nil _ hlist
  exact ⟨⟨name, p⟩, mem_rules.mpr ⟨ps, hps, Std.ExtTreeSet.mem_toList.mp hp⟩, rfl⟩

/-- **A grammar without empty names is built from its rules.** -/
theorem ofRules_rules (h : ∀ name, g.productions? name ≠ some ∅) : ofRules g.rules = g := by
  apply ext_rules
  · intro rule
    exact mem_rules_ofRules
  · intro name
    rw [Bool.eq_iff_iff, defines_ofRules]
    apply Iff.intro
    · intro hrule
      obtain ⟨rule, hmem, rfl⟩ := hrule
      exact defines_of_mem_rules hmem
    · exact exists_mem_rules_of_defines (h name)

theorem productions?_ofRules_ne_empty (rules : List Rule) (name : String) :
    (ofRules rules).productions? name ≠ some ∅ := by
  intro hempty
  have hname : (ofRules rules).defines name = true := defines_iff.mpr ⟨∅, hempty⟩
  obtain ⟨rule, hrule, rfl⟩ := defines_ofRules.mp hname
  obtain ⟨ps, hps, hp⟩ := mem_rules.mp (mem_rules_ofRules.mpr hrule)
  rw [hempty] at hps
  obtain rfl := Option.some.inj hps
  exact absurd hp Std.ExtTreeSet.not_mem_empty

end Chomsky.Grammar
