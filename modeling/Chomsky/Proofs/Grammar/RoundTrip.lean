import Chomsky.Proofs.Derivation.Tree
import Chomsky.Proofs.Grammar.Reading
import Chomsky.Proofs.Grammar.WellFormed
import Chomsky.Proofs.Text.Lines

/-!
# Grammars are written and read back

`render` and `parse` are inverse on the well-formed grammars of a convention, and on no other:

* **`classifier_eq_classifierOf`**: the classifier that the lines are read with is the one of the
  grammar that comes out. Under the declared convention it is made from the lines before any is read,
  so this closes the circle.
* **`parse_eq_ok_iff`**: a text holds a grammar when its lines hold the rules of it, each read by
  the classifier of that grammar.
* **`lines_render`**: the lines of a written grammar are its written rules.
-/

namespace Chomsky.Grammar

variable {g : Grammar} {m : Convention}

/-! ## The classifier of a text -/

/-- Lines that are read declare the names of their rules and no others. -/
theorem filterMap_declaredName? {c : Classifier} {lines : List (List Char)} {rules : List Rule}
    (h : lines.map (Rule.ofLine c) = rules.map .ok) :
    lines.filterMap Rule.declaredName? = rules.map Rule.left := by
  induction lines generalizing rules with
  | nil =>
    rw [List.map_eq_nil_iff.mp h.symm]
    rfl
  | cons line rest ih =>
    cases rules with
    | nil => exact absurd h (by nofun)
    | cons rule more =>
      obtain ⟨hline, hrest⟩ := List.cons.inj h
      rw [List.filterMap_cons, Rule.declaredName?_of_ofLine hline, ih hrest]
      rfl

/-- **The classifier of a text is the one of its grammar.** -/
theorem classifier_eq_classifierOf {c : Classifier} {lines : List (List Char)} {rules : List Rule}
    (h : lines.map (Rule.ofLine c) = rules.map .ok) :
    m.classifier lines = m.classifierOf (ofRules rules) := by
  cases m with
  | uppercase => rfl
  | declared =>
    -- both sets hold the left sides of the rules
    have hset : Std.ExtTreeSet.ofList (lines.filterMap Rule.declaredName?) =
        Std.ExtTreeSet.ofList (ofRules rules).names := by
      apply Std.ExtTreeSet.ext_mem
      intro name
      rw [filterMap_declaredName? h, Std.ExtTreeSet.mem_ofList, Std.ExtTreeSet.mem_ofList,
        List.contains_iff_mem, List.contains_iff_mem, mem_names, defines_ofRules, List.mem_map]
    exact congrArg Classifier.declared hset

/-- **A text holds a grammar when its lines hold the rules of it.** The grammar stands on both
sides: it tells its own names from its own tokens. -/
theorem parse_eq_ok_iff {text : String} :
    parse m text = .ok g ↔ ∃ rules, ofRules rules = g ∧
      (Text.lines text.toList).map (Rule.ofLine (m.classifierOf g)) = rules.map .ok := by
  rw [parse_eq_ok_iff_rules]
  apply Iff.intro
  · intro h
    obtain ⟨rules, rfl, hlines⟩ := h
    rw [classifier_eq_classifierOf hlines] at hlines
    exact ⟨rules, rfl, hlines⟩
  · intro h
    obtain ⟨rules, rfl, hlines⟩ := h
    exact ⟨rules, rfl, (classifier_eq_classifierOf hlines).symm ▸ hlines⟩

/-- **What is read is well-formed.** -/
theorem wellFormed_of_parse {text : String} (h : parse m text = .ok g) : g.WellFormed m := by
  obtain ⟨rules, rfl, hlines⟩ := parse_eq_ok_iff.mp h
  refine wellFormed_iff.mpr ⟨fun rule hrule => ?_, productions?_ofRules_ne_empty rules⟩
  -- every rule of the grammar stands on some line
  obtain ⟨line, -, hline⟩ := (mem_iff_of_map_ofLine hlines).mp (mem_rules_ofRules.mp hrule)
  exact Rule.readableBy_of_ofLine hline

/-! ## Reading what was written -/

theorem toList_render (g : Grammar) :
    g.render.toList = (g.rules.map fun rule => rule.render.toList).flatMap (· ++ ['\n']) := by
  rw [render]
  induction g.rules with
  | nil => rfl
  | cons rule rest ih =>
    rw [List.map_cons, String.join_cons, String.toList_append, ih]
    simp [String.toList_append]

/-- The written form of a readable rule holds no blank but the plain one, so it is one line. -/
theorem not_mem_render {c : Classifier} {rule : Rule} (h : rule.ReadableBy c) {blank : Char}
    (hblank : Text.isBlank blank = true) (hplain : blank ≠ ' ') : blank ∉ rule.render.toList := by
  have hword : ∀ text : String, Text.IsWord text.toList → blank ∉ text.toList := by
    intro text htext hmem
    rw [htext.no_blank blank hmem] at hblank
    exact absurd hblank (by decide)
  have hleft : blank ∉ rule.left.toList := hword rule.left h.left.1
  have harrow : blank ≠ '-' ∧ blank ≠ '>' := by
    apply And.intro
    · intro hdash
      rw [hdash] at hblank
      exact absurd hblank (by decide)
    · intro hpoint
      rw [hpoint] at hblank
      exact absurd hblank (by decide)
  -- the only blank that a right side is written with is the plain one
  have hright : blank ∉ rule.right.render.toList := by
    obtain ⟨name, p⟩ := rule
    cases p with
    | unary token => exact hword token (h.tokens token (by simp)).1
    | binary l r =>
      have hl : blank ∉ l.toList := hword l (h.names l (by simp)).1
      have hr : blank ∉ r.toList := hword r (h.names r (by simp)).1
      show blank ∉ (Production.binary l r).render.toList
      rw [Production.render]
      split
      · simp [String.toList_append, hl, hr]
      · simp [String.toList_append, hl, hr, hplain]
  rw [Rule.toList_render, Rule.toList_arrow]
  simp [hleft, hright, harrow, hplain]

/-- **The lines of a written grammar are its written rules.** -/
theorem lines_render (h : g.Readable m) :
    Text.lines g.render.toList = g.rules.map fun rule => rule.render.toList := by
  rw [toList_render]
  apply Text.lines_flatMap_ended
  · intro line hline
    obtain ⟨rule, hrule, rfl⟩ := List.mem_map.mp hline
    exact not_mem_render (h rule hrule) (by decide) (by decide)
  · intro line hline
    obtain ⟨rule, hrule, rfl⟩ := List.mem_map.mp hline
    exact not_mem_render (h rule hrule) (by decide) (by decide)

/-- **A well-formed grammar is read back from its written form.** -/
theorem parse_render_of_wellFormed (h : g.WellFormed m) : parse m g.render = .ok g := by
  obtain ⟨hreadable, hinhabited⟩ := wellFormed_iff.mp h
  refine parse_eq_ok_iff.mpr ⟨g.rules, ofRules_rules hinhabited, ?_⟩
  rw [lines_render hreadable, List.map_map]
  apply List.map_congr_left
  intro rule hrule
  exact Rule.ofLine_render (hreadable rule hrule)

/-- **Writing and reading are inverse on exactly the well-formed grammars.** Every text that is read
gives one, and a grammar is read back from its written form when it is one. -/
theorem parse_wellFormed_and_parse_render_iff (m : Convention) :
    (∀ text g, parse m text = .ok g → g.WellFormed m) ∧
      ∀ g : Grammar, parse m g.render = .ok g ↔ g.WellFormed m := by
  refine ⟨fun text g h => wellFormed_of_parse h, fun g => ?_⟩
  apply Iff.intro
  · exact wellFormed_of_parse
  · exact parse_render_of_wellFormed

/-- The rules of `balanced`, with the blanks that a hand would write. -/
theorem parse_balanced_and_parse_render_balanced :
    parse .declared "S -> A B\nS -> AC \r\nC -> SB\nA -> a\n B -> b" = .ok balanced ∧
      balanced.WellFormed .declared ∧ parse .declared balanced.render = .ok balanced := by
  have hread : parse .declared "S -> A B\nS -> AC \r\nC -> SB\nA -> a\n B -> b" = .ok balanced := rfl
  have hwell : balanced.WellFormed .declared :=
    (parse_wellFormed_and_parse_render_iff .declared).1 _ _ hread
  exact ⟨hread, hwell, ((parse_wellFormed_and_parse_render_iff .declared).2 balanced).mpr hwell⟩

end Chomsky.Grammar
