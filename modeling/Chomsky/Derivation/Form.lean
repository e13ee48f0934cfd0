import Chomsky.Grammar.Basic

/-!
# Sentential forms

A sentential form is a sequence of symbols. It is *complete* when no symbol of it may be expanded;
undefined names do not stand in the way, they stay in the sentence as they are spelled. A step
expands a form that is not complete, in one of two ways: at its leftmost expandable symbol, or at
all expandable symbols at once.

A step of either kind lists every form it can lead to. The list is empty for a complete form, and
also for a form that is stuck on a defined name without productions.
-/

namespace Chomsky

/-- A sequence of symbols on the way to a sentence. -/
abbrev Form := List Symbol

/-- How a step expands a form. -/
inductive Expansion where
  | leftmost
  | parallel
  deriving DecidableEq, Repr, Inhabited

namespace Form

/-- The sentence that a form spells, whatever the tags of its symbols. -/
def sentence (form : Form) : Sentence :=
  form.map Symbol.text

end Form

namespace Grammar

/-- Whether no symbol of the form may be expanded. -/
def complete (g : Grammar) (form : Form) : Bool :=
  form.all fun s => !g.expandable s

/-- The forms that expanding the leftmost expandable symbol leads to. -/
def leftmostSteps (g : Grammar) : Form → List Form
  | [] => []
  | s :: rest =>
    match g.options? s with
    | some productions => productions.toList.map fun p => p.symbols ++ rest
    | none => (g.leftmostSteps rest).map (s :: ·)

/-- What may stand in the place of a symbol after a parallel step: the right-hand sides of its
productions, or the symbol itself when it is not expandable. -/
def choices (g : Grammar) (s : Symbol) : List Form :=
  match g.options? s with
  | some productions => productions.toList.map Production.symbols
  | none => [[s]]

/-- The forms that a choice at every position leads to. -/
def jointSteps (g : Grammar) : Form → List Form
  | [] => [[]]
  | s :: rest =>
    let tails := g.jointSteps rest
    (g.choices s).flatMap fun front => tails.map (front ++ ·)

def successors (g : Grammar) : Expansion → Form → List Form
  | .leftmost, form => g.leftmostSteps form
  | .parallel, form => if g.complete form then [] else g.jointSteps form

/-! ## What a step does

A form is complete piece by piece. A leftmost step passes over a complete front and expands the
symbol after it; a joint step chooses for the first symbol and for the rest independently. -/

@[simp] theorem complete_nil (g : Grammar) : g.complete [] = true := rfl

@[simp] theorem complete_cons {g : Grammar} {s : Symbol} {rest : Form} :
    g.complete (s :: rest) = true ↔ g.options? s = none ∧ g.complete rest = true := by
  simp [complete, expandable]

@[simp] theorem complete_append {g : Grammar} {front back : Form} :
    g.complete (front ++ back) = true ↔ g.complete front = true ∧ g.complete back = true := by
  simp [complete]

theorem mem_leftmostSteps {g : Grammar} {form next : Form} :
    next ∈ g.leftmostSteps form ↔
      ∃ front s rest, form = front ++ s :: rest ∧ g.complete front = true ∧
        ∃ ps, g.options? s = some ps ∧ ∃ p ∈ ps, next = front ++ p.symbols ++ rest := by
  induction form generalizing next with
  | nil => simp [leftmostSteps]
  | cons s rest ih =>
    cases hs : g.options? s with
    | some ps =>
      simp only [leftmostSteps, hs, List.mem_map, Std.ExtTreeSet.mem_toList]
      apply Iff.intro
      · intro h
        obtain ⟨p, hp, rfl⟩ := h
        exact ⟨[], s, rest, rfl, complete_nil g, ps, hs, p, hp, rfl⟩
      · intro h
        obtain ⟨front, t, back, hform, hfront, qs, ht, p, hp, rfl⟩ := h
        cases front with
        | nil =>
          obtain ⟨rfl, rfl⟩ := List.cons.inj hform
          obtain rfl := Option.some.inj (hs.symm.trans ht)
          exact ⟨p, hp, rfl⟩
        | cons u front =>
          obtain ⟨rfl, -⟩ := List.cons.inj hform
          simp [(complete_cons.1 hfront).1] at hs
    | none =>
      simp only [leftmostSteps, hs, List.mem_map]
      apply Iff.intro
      · intro h
        obtain ⟨v, hv, rfl⟩ := h
        obtain ⟨front, t, back, rfl, hfront, ps, ht, p, hp, rfl⟩ := ih.1 hv
        exact ⟨s :: front, t, back, rfl, complete_cons.2 ⟨hs, hfront⟩, ps, ht, p, hp, rfl⟩
      · intro h
        obtain ⟨front, t, back, hform, hfront, ps, ht, p, hp, rfl⟩ := h
        cases front with
        | nil =>
          obtain ⟨rfl, -⟩ := List.cons.inj hform
          simp [ht] at hs
        | cons u front =>
          obtain ⟨rfl, rfl⟩ := List.cons.inj hform
          exact ⟨_, ih.2 ⟨front, t, back, rfl, (complete_cons.1 hfront).2, ps, ht, p, hp, rfl⟩,
            rfl⟩

theorem mem_jointSteps_cons {g : Grammar} {s : Symbol} {rest next : Form} :
    next ∈ g.jointSteps (s :: rest) ↔
      ∃ u ∈ g.choices s, ∃ v ∈ g.jointSteps rest, next = u ++ v := by
  simp [jointSteps, eq_comm]

theorem leftmostSteps_of_complete {g : Grammar} {form : Form} (h : g.complete form = true) :
    g.leftmostSteps form = [] := by
  induction form with
  | nil => rfl
  | cons s rest ih =>
    obtain ⟨hs, hrest⟩ := complete_cons.1 h
    simp [leftmostSteps, hs, ih hrest]

/-- No step leads on from a complete form. -/
theorem successors_of_complete {g : Grammar} {form : Form} (e : Expansion)
    (h : g.complete form = true) : g.successors e form = [] := by
  cases e with
  | leftmost => exact leftmostSteps_of_complete h
  | parallel => simp [successors, h]

end Grammar

end Chomsky
