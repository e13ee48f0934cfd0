import Chomsky.Proofs.Grammar.Reading
import Chomsky.Proofs.Grammar.Rules
import Chomsky.Proofs.Text.Lines

/-!
# Texts made of texts

A grammar text is little more than a collection of rules. Under the uppercase convention every line is
read on its own, so a text can be read in parts:

* **`parse_append_of_error`**, **`parse_append_of_ok_of_error`**, **`parse_append_of_ok_of_ok`**: the
  first fault of the parts is the first fault of the whole, further down by the lines before its part,
  and the grammars of two parts are merged.

Under the declared convention a line is read by what all the lines declare, so a part of a text may
mean something else than the same lines in the whole. Still they declare a set of names, whatever
their order:

* **`exists_parse_congr`**, **`eq_of_parse_of_parse`**: texts with the same lines are read alike.
-/

namespace Chomsky.Grammar

variable {m : Convention} {g : Grammar}

/-! ## A text in two parts

Under the uppercase convention every text is read with the same classifier, and the lines of a
continued text are those of its parts. -/

section Parts

variable {front back : String} (hended : front = "" ∨ ∃ text, front = text ++ "\n")

include hended

theorem lines_toList_append :
    Text.lines (front ++ back).toList = Text.lines front.toList ++ Text.lines back.toList := by
  have hlist : front.toList = [] ∨ ∃ text, front.toList = text ++ ['\n'] := by
    rcases hended with rfl | ⟨text, rfl⟩
    · exact Or.inl rfl
    · exact Or.inr ⟨text.toList, by rw [String.toList_append]; rfl⟩
  rw [String.toList_append, Text.lines_append hlist]

theorem parse_append_of_error {fault : Located Rule.Fault}
    (h : parse .uppercase front = .error fault) : parse .uppercase (front ++ back) = .error fault := by
  obtain ⟨i, cause, rfl, hfirst⟩ := parse_eq_error_iff.mp h
  refine parse_eq_error_iff.mpr ⟨i, cause, rfl, ?_⟩
  rw [lines_toList_append hended]
  exact firstFault_append_left hfirst _

theorem parse_append_of_ok_of_error {number : Nat} {cause : Rule.Fault}
    (hfront : parse .uppercase front = .ok g)
    (hback : parse .uppercase back = .error ⟨.ofLine number, cause⟩) :
    parse .uppercase (front ++ back) =
      .error ⟨.ofLine ((Text.lines front.toList).length + number), cause⟩ := by
  obtain ⟨i, _, heq, hfirst⟩ := parse_eq_error_iff.mp hback
  obtain ⟨hplace, rfl⟩ := Located.mk.inj heq
  obtain rfl : number = i + 1 := (Location.mk.inj hplace).2
  refine parse_eq_error_iff.mpr ⟨_, cause, rfl, ?_⟩
  rw [lines_toList_append hended]
  exact firstFault_append_right (exists_parse_eq_ok_iff.mp ⟨g, hfront⟩) hfirst

theorem parse_append_of_ok_of_ok {a b : Grammar} (hfront : parse .uppercase front = .ok a)
    (hback : parse .uppercase back = .ok b) : parse .uppercase (front ++ back) = .ok (a.merge b) := by
  obtain ⟨rules, rfl, hrules⟩ := parse_eq_ok_iff_rules.mp hfront
  obtain ⟨more, rfl, hmore⟩ := parse_eq_ok_iff_rules.mp hback
  refine parse_eq_ok_iff_rules.mpr ⟨rules ++ more, ofRules_append rules more, ?_⟩
  rw [lines_toList_append hended, List.map_append, List.map_append, ← hrules, ← hmore]
  rfl

end Parts

/-- **Reading is compositional, with the place of the fault.** Where names start with an uppercase
character, a text that is empty or ended, and then another: the first fault of the first text is that
of both; if it has none, the first fault of the second text is that of both, further down by the lines
of the first; and if neither has one, the two grammars are merged. The fault that is reported is
always that of the first line that is no rule, and a grammar is read only if there is no such line. -/
theorem parse_append_and_parse_eq_error_iff :
    (∀ front back : String, (front = "" ∨ ∃ text, front = text ++ "\n") →
      (∀ fault, parse .uppercase front = .error fault →
        parse .uppercase (front ++ back) = .error fault) ∧
      (∀ a, parse .uppercase front = .ok a →
        (∀ number cause, parse .uppercase back = .error ⟨.ofLine number, cause⟩ →
          parse .uppercase (front ++ back) =
            .error ⟨.ofLine ((Text.lines front.toList).length + number), cause⟩) ∧
        (∀ b, parse .uppercase back = .ok b →
          parse .uppercase (front ++ back) = .ok (a.merge b)))) ∧
    (∀ text fault, parse .uppercase text = .error fault ↔
      ∃ i cause, fault = ⟨.ofLine (i + 1), cause⟩ ∧
        Rule.FirstFault .uppercase (Text.lines text.toList) i cause) ∧
    (∀ text, (∃ g, parse .uppercase text = .ok g) ↔
      ∀ line ∈ Text.lines text.toList, ∃ rule, Rule.ofLine .uppercase line = .ok rule) := by
  refine ⟨fun front back hended => ⟨?_, ?_⟩, ?_, ?_⟩
  · intro fault hfront
    exact parse_append_of_error hended hfront
  · intro a hfront
    refine ⟨fun number cause hback => ?_, fun b hback => ?_⟩
    · exact parse_append_of_ok_of_error hended hfront hback
    · exact parse_append_of_ok_of_ok hended hfront hback
  · intro text fault
    exact parse_eq_error_iff
  · intro text
    exact exists_parse_eq_ok_iff

/-- Both ways of ending a line, a fault in the second text, a fault in the first, and none. -/
theorem parse_append_two_texts :
    parse .uppercase ("S -> AB\r\nA -> a\n" ++ "B -> b\nB b") = .error ⟨.ofLine 4, .noArrow⟩ ∧
      parse .uppercase ("S -> AB\n\n" ++ "B b") = .error ⟨.ofLine 2, .blankLine⟩ ∧
      parse .uppercase ("S -> AB\r\nA -> a\n" ++ "S -> A A\r\n") =
        .ok ((ofRules [⟨"S", .binary "A" "B"⟩, ⟨"A", .unary "a"⟩]).merge
          (ofRules [⟨"S", .binary "A" "A"⟩])) := by
  obtain ⟨happend, -, -⟩ := parse_append_and_parse_eq_error_iff
  have hended : "S -> AB\r\nA -> a\n" = "" ∨ ∃ text, "S -> AB\r\nA -> a\n" = text ++ "\n" :=
    Or.inr ⟨"S -> AB\r\nA -> a", rfl⟩
  refine ⟨?_, ?_, ?_⟩
  · exact ((happend _ _ hended).2 _ rfl).1 2 .noArrow rfl
  · exact (happend _ _ (Or.inr ⟨"S -> AB\n", rfl⟩)).1 _ rfl
  · exact ((happend _ _ hended).2 _ rfl).2 _ rfl

/-! ## The same lines -/

/-- The names that lines declare are a set, whatever order they are declared in. -/
theorem classifier_congr {ls ls' : List (List Char)} (h : ∀ line, line ∈ ls ↔ line ∈ ls') :
    m.classifier ls = m.classifier ls' := by
  cases m with
  | uppercase => rfl
  | declared =>
    have hset : Std.ExtTreeSet.ofList (ls.filterMap Rule.declaredName?) =
        Std.ExtTreeSet.ofList (ls'.filterMap Rule.declaredName?) := by
      apply Std.ExtTreeSet.ext_mem
      intro name
      simp only [Std.ExtTreeSet.mem_ofList, List.contains_iff_mem, List.mem_filterMap, h]
    exact congrArg Classifier.declared hset

variable {text other : String}

theorem exists_parse_congr
    (h : ∀ line, line ∈ Text.lines text.toList ↔ line ∈ Text.lines other.toList) :
    (∃ g, parse m text = .ok g) ↔ ∃ g, parse m other = .ok g := by
  rw [exists_parse_eq_ok_iff, exists_parse_eq_ok_iff, classifier_congr h]
  simp only [h]

theorem eq_of_parse_of_parse {g' : Grammar}
    (h : ∀ line, line ∈ Text.lines text.toList ↔ line ∈ Text.lines other.toList)
    (htext : parse m text = .ok g) (hother : parse m other = .ok g') : g = g' := by
  obtain ⟨rules, rfl, hrules⟩ := parse_eq_ok_iff_rules.mp htext
  obtain ⟨rules', rfl, hrules'⟩ := parse_eq_ok_iff_rules.mp hother
  apply ofRules_congr
  intro rule
  rw [mem_iff_of_map_ofLine hrules, mem_iff_of_map_ofLine hrules', classifier_congr h]
  simp only [h]

/-- **A grammar depends on the set of its lines only.** Under either convention, two texts with the
same lines, in any order and any number, are both read, as the same grammar, or both not read. Merging
is commutative, associative and idempotent, the empty grammar adds nothing, and rules merged one at a
time build the grammar of the rules. -/
theorem parse_alike_of_mem_lines_iff :
    (∀ (m : Convention) (text other : String),
      (∀ line, line ∈ Text.lines text.toList ↔ line ∈ Text.lines other.toList) →
        (∃ g, parse m text = .ok g ∧ parse m other = .ok g) ∨
          ∃ fault fault', parse m text = .error fault ∧ parse m other = .error fault') ∧
    (∀ a b : Grammar, a.merge b = b.merge a) ∧
    (∀ a b c : Grammar, (a.merge b).merge c = a.merge (b.merge c)) ∧
    (∀ a : Grammar, a.merge a = a ∧ a.merge empty = a ∧ empty.merge a = a) ∧
    (∀ rules : List Rule,
      ofRules rules = rules.foldl (fun g rule => g.merge (ofRules [rule])) empty) := by
  refine ⟨?_, merge_comm, merge_assoc, ?_, ofRules_eq_foldl_merge⟩
  · intro m text other h
    cases htext : parse m text with
    | ok g =>
      obtain ⟨g', hother⟩ := (exists_parse_congr h).mp ⟨g, htext⟩
      obtain rfl := eq_of_parse_of_parse h htext hother
      exact Or.inl ⟨g, rfl, hother⟩
    | error fault =>
      cases hother : parse m other with
      | ok g =>
        obtain ⟨g', hread⟩ := (exists_parse_congr h).mpr ⟨g, hother⟩
        exact absurd (htext.symm.trans hread) (by nofun)
      | error fault' => exact Or.inr ⟨fault, fault', rfl, rfl⟩
  · intro a
    exact ⟨merge_self a, merge_empty a, empty_merge a⟩

/-- In the second text the names are declared behind the lines that use them, and one line stands
twice. -/
theorem parse_alike_rearranged :
    let text := "a -> b c\nb -> x\r\nc -> AB"
    let other := "c -> AB\na -> b c\nc -> AB\nb -> x\n"
    let g := ofRules [⟨"a", .binary "b" "c"⟩, ⟨"b", .unary "x"⟩, ⟨"c", .unary "AB"⟩]
    (∀ line, line ∈ Text.lines text.toList ↔ line ∈ Text.lines other.toList) ∧
      parse .declared text = .ok g ∧ parse .declared other = .ok g := by
  intro text other g
  have hlines : ∀ line, line ∈ Text.lines text.toList ↔ line ∈ Text.lines other.toList := by
    have hsame : Text.lines text.toList ⊆ Text.lines other.toList ∧
        Text.lines other.toList ⊆ Text.lines text.toList := by
      decide +kernel
    intro line
    exact ⟨fun h => hsame.1 h, fun h => hsame.2 h⟩
  have hread : parse .declared "a -> b c\nb -> x\r\nc -> AB" = .ok g := rfl
  refine ⟨hlines, hread, ?_⟩
  rcases parse_alike_of_mem_lines_iff.1 .declared _ _ hlines with hok | hfault
  · obtain ⟨g', htext, hother⟩ := hok
    obtain rfl : g = g' := Except.ok.inj (hread.symm.trans htext)
    exact hother
  · obtain ⟨fault, fault', htext, -⟩ := hfault
    exact absurd (hread.symm.trans htext) (by nofun)

end Chomsky.Grammar
