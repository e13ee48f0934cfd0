import Chomsky.Grammar.Parser

/-!
# Reading line by line

Lines are read as rules one by one, with one classifier for all of them. So a text is read when each
of its lines is (`exists_parse_eq_ok_iff`), and its grammar has the rules on its lines
(`parse_eq_ok_iff_rules`). Otherwise the first line that is no rule decides what is reported
(`parse_eq_error_iff`), whatever the lines behind it are.
-/

namespace Chomsky

/-- Of the lines, the one with `i` lines before it is the first that is no rule, for this cause. -/
structure Rule.FirstFault (c : Classifier) (lines : List (List Char)) (i : Nat) (cause : Rule.Fault) :
    Prop where
  fault : ∃ line, lines[i]? = some line ∧ ofLine c line = .error cause
  before : ∀ line ∈ lines.take i, ∃ rule, ofLine c line = .ok rule

namespace Grammar

variable {m : Convention} {c : Classifier} {g : Grammar} {text : String}

/-! ## Reading rules line by line -/

theorem rulesOfLines_eq_ok_iff {c : Classifier} {number : Nat} {lines : List (List Char)}
    {rules : List Rule} :
    rulesOfLines c number lines = .ok rules ↔ lines.map (Rule.ofLine c) = rules.map .ok := by
  induction lines generalizing number rules with
  | nil =>
    rw [rulesOfLines, List.map_nil]
    apply Iff.intro
    · intro h
      rw [← Except.ok.inj h]
      rfl
    · intro h
      rw [List.map_eq_nil_iff.mp h.symm]
  | cons line rest ih =>
    rw [rulesOfLines, List.map_cons]
    cases hline : Rule.ofLine c line with
    | error cause =>
      refine ⟨nofun, fun h => ?_⟩
      cases rules with
      | nil => exact absurd h (by nofun)
      | cons rule more => exact absurd (List.cons.inj h).1 (by nofun)
    | ok rule =>
      show (rulesOfLines c (number + 1) rest).map (rule :: ·) = .ok rules ↔ _
      apply Iff.intro
      · intro h
        cases hrest : rulesOfLines c (number + 1) rest with
        | error fault =>
          rw [hrest] at h
          exact absurd h (by nofun)
        | ok more =>
          rw [hrest] at h
          obtain rfl := Except.ok.inj h
          rw [ih.mp hrest]
          rfl
      · intro h
        cases rules with
        | nil => exact absurd h (by nofun)
        | cons first more =>
          obtain ⟨hfirst, hmore⟩ := List.cons.inj h
          rw [ih.mpr hmore, Except.ok.inj hfirst]
          rfl

/-- Each rule stands on a line, and each line holds a rule. -/
theorem mem_iff_of_map_ofLine {lines : List (List Char)} {rules : List Rule}
    (h : lines.map (Rule.ofLine c) = rules.map .ok) {rule : Rule} :
    rule ∈ rules ↔ ∃ line ∈ lines, Rule.ofLine c line = .ok rule := by
  have hread : Except.ok rule ∈ rules.map (Except.ok (ε := Rule.Fault)) ↔ rule ∈ rules := by
    simp
  rw [← hread, ← h, List.mem_map]

theorem exists_map_ofLine_iff {lines : List (List Char)} :
    (∃ rules : List Rule, lines.map (Rule.ofLine c) = rules.map .ok) ↔
      ∀ line ∈ lines, ∃ rule, Rule.ofLine c line = .ok rule := by
  induction lines with
  | nil => exact iff_of_true ⟨[], rfl⟩ (by simp)
  | cons line rest ih =>
    rw [List.forall_mem_cons, ← ih]
    apply Iff.intro
    · intro h
      obtain ⟨rules, hrules⟩ := h
      cases rules with
      | nil => exact absurd hrules (by nofun)
      | cons rule more =>
        obtain ⟨hline, hrest⟩ := List.cons.inj hrules
        exact ⟨⟨rule, hline⟩, more, hrest⟩
    · intro h
      obtain ⟨⟨rule, hline⟩, more, hrest⟩ := h
      exact ⟨rule :: more, by rw [List.map_cons, hline, hrest, List.map_cons]⟩

/-! ## The first fault -/

theorem not_firstFault_nil {i : Nat} {cause : Rule.Fault} : ¬Rule.FirstFault c [] i cause := by
  intro h
  obtain ⟨line, hline, -⟩ := h.fault
  exact absurd hline (by simp)

theorem firstFault_cons_of_error {line : List Char} {rest : List (List Char)} {i : Nat}
    {found cause : Rule.Fault} (hline : Rule.ofLine c line = .error found) :
    Rule.FirstFault c (line :: rest) i cause ↔ i = 0 ∧ cause = found := by
  apply Iff.intro
  · intro h
    cases i with
    | zero =>
      obtain ⟨first, hfirst, hfault⟩ := h.fault
      obtain rfl : line = first := by simpa using hfirst
      exact ⟨rfl, Except.error.inj (hfault.symm.trans hline)⟩
    | succ i =>
      obtain ⟨rule, hrule⟩ := h.before line (by simp)
      exact absurd (hline.symm.trans hrule) (by nofun)
  · intro h
    obtain ⟨rfl, rfl⟩ := h
    exact ⟨⟨line, rfl, hline⟩, by simp⟩

theorem firstFault_cons_of_ok {line : List Char} {rest : List (List Char)} {i : Nat}
    {rule : Rule} {cause : Rule.Fault} (hline : Rule.ofLine c line = .ok rule) :
    Rule.FirstFault c (line :: rest) i cause ↔
      ∃ j, i = j + 1 ∧ Rule.FirstFault c rest j cause := by
  apply Iff.intro
  · intro h
    cases i with
    | zero =>
      obtain ⟨first, hfirst, hfault⟩ := h.fault
      obtain rfl : line = first := by simpa using hfirst
      exact absurd (hline.symm.trans hfault) (by nofun)
    | succ i =>
      refine ⟨i, rfl, h.fault, fun earlier hmem => h.before earlier ?_⟩
      exact List.mem_cons_of_mem line hmem
  · intro h
    obtain ⟨j, rfl, hfault, hbefore⟩ := h
    exact ⟨hfault, List.forall_mem_cons.mpr ⟨⟨rule, hline⟩, hbefore⟩⟩

/-- A first fault stays where it is, whatever follows the lines. -/
theorem firstFault_append_left {front : List (List Char)} {i : Nat} {cause : Rule.Fault}
    (h : Rule.FirstFault c front i cause) (back : List (List Char)) :
    Rule.FirstFault c (front ++ back) i cause := by
  obtain ⟨⟨line, hline, hfault⟩, hbefore⟩ := h
  have hi : i < front.length := (List.getElem?_eq_some_iff.mp hline).1
  refine ⟨⟨line, ?_, hfault⟩, ?_⟩
  · rw [List.getElem?_append_left hi]
    exact hline
  · rw [List.take_append_of_le_length (Nat.le_of_lt hi)]
    exact hbefore

/-- Behind lines that all hold rules, a first fault moves down by their number. -/
theorem firstFault_append_right {front back : List (List Char)} {i : Nat} {cause : Rule.Fault}
    (hfront : ∀ line ∈ front, ∃ rule, Rule.ofLine c line = .ok rule)
    (h : Rule.FirstFault c back i cause) :
    Rule.FirstFault c (front ++ back) (front.length + i) cause := by
  obtain ⟨⟨line, hline, hfault⟩, hbefore⟩ := h
  refine ⟨⟨line, ?_, hfault⟩, fun earlier hmem => ?_⟩
  · rw [List.getElem?_append_right (Nat.le_add_right _ _), Nat.add_sub_cancel_left]
    exact hline
  · rw [List.take_length_add_append] at hmem
    rcases List.mem_append.mp hmem with hmem | hmem
    · exact hfront earlier hmem
    · exact hbefore earlier hmem

/-- **What is reported is the first fault.** Induction on the lines: the number goes up with each. -/
theorem rulesOfLines_eq_error_iff {number : Nat} {lines : List (List Char)}
    {fault : Located Rule.Fault} :
    rulesOfLines c number lines = .error fault ↔
      ∃ i cause, fault = ⟨.ofLine (number + i), cause⟩ ∧ Rule.FirstFault c lines i cause := by
  induction lines generalizing number with
  | nil =>
    refine ⟨nofun, fun h => ?_⟩
    obtain ⟨i, cause, -, hfirst⟩ := h
    exact absurd hfirst not_firstFault_nil
  | cons line rest ih =>
    rw [rulesOfLines]
    cases hline : Rule.ofLine c line with
    | error found =>
      simp only [firstFault_cons_of_error hline]
      apply Iff.intro
      · intro h
        exact ⟨0, found, (Except.error.inj h).symm, rfl, rfl⟩
      · intro h
        obtain ⟨i, cause, rfl, rfl, rfl⟩ := h
        rfl
    | ok rule =>
      have hrest : (rulesOfLines c (number + 1) rest).map (rule :: ·) = .error fault ↔
          rulesOfLines c (number + 1) rest = .error fault := by
        cases rulesOfLines c (number + 1) rest <;> simp [Except.map]
      simp only [firstFault_cons_of_ok hline]
      rw [hrest, ih]
      apply Iff.intro
      · intro h
        obtain ⟨i, cause, rfl, hfirst⟩ := h
        refine ⟨i + 1, cause, ?_, i, rfl, hfirst⟩
        rw [Nat.add_assoc, Nat.add_comm 1 i]
      · intro h
        obtain ⟨i, cause, rfl, j, rfl, hfirst⟩ := h
        refine ⟨j, cause, ?_, hfirst⟩
        rw [Nat.add_assoc, Nat.add_comm 1 j]

/-! ## What comes of a text -/

theorem parse_eq_ok_iff_rules :
    parse m text = .ok g ↔ ∃ rules, ofRules rules = g ∧
      (Text.lines text.toList).map (Rule.ofLine (m.classifier (Text.lines text.toList))) =
        rules.map .ok := by
  unfold parse ofLines
  generalize Text.lines text.toList = lines
  simp only [← @rulesOfLines_eq_ok_iff _ 1]
  cases rulesOfLines (m.classifier lines) 1 lines with
  | error fault => simp [Except.map]
  | ok rules => simp [Except.map]

theorem parse_eq_error_iff {fault : Located Rule.Fault} :
    parse m text = .error fault ↔ ∃ i cause, fault = ⟨.ofLine (i + 1), cause⟩ ∧
      Rule.FirstFault (m.classifier (Text.lines text.toList)) (Text.lines text.toList) i cause := by
  unfold parse ofLines
  generalize Text.lines text.toList = lines
  simp only [Nat.add_comm _ 1, ← rulesOfLines_eq_error_iff]
  cases rulesOfLines (m.classifier lines) 1 lines with
  | error fault => simp [Except.map]
  | ok rules => simp [Except.map]

theorem exists_parse_eq_ok_iff :
    (∃ g, parse m text = .ok g) ↔ ∀ line ∈ Text.lines text.toList,
      ∃ rule, Rule.ofLine (m.classifier (Text.lines text.toList)) line = .ok rule := by
  rw [← exists_map_ofLine_iff]
  apply Iff.intro
  · intro h
    obtain ⟨g, hg⟩ := h
    obtain ⟨rules, -, hlines⟩ := parse_eq_ok_iff_rules.mp hg
    exact ⟨rules, hlines⟩
  · intro h
    obtain ⟨rules, hlines⟩ := h
    exact ⟨ofRules rules, parse_eq_ok_iff_rules.mpr ⟨rules, rfl, hlines⟩⟩

end Grammar

end Chomsky
