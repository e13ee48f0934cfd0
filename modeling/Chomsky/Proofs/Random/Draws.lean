import Chomsky.Random.Words

/-!
# Draws

What a source of choices was asked, and what it answered, can be written down as a list of draws.
**`Chooser.Answers`** says which draws a source gives from a state on, whoever asks for them.

Two sources are made for the purpose. One keeps a record of the draws of another (`Chooser.recorded`)
and otherwise answers like it (`Answers.recorded`); so the number of choices that a program makes is
the length of the record that it leaves. The other is told its answers in advance
(`Chooser.scripted`), and gives any draws that are wanted (`answers_scripted`).
-/

namespace Chomsky.Random

/-- One answer of a source, together with how many other things there were to choose. -/
structure Draw where
  others : Nat
  pick : Fin (others + 1)

namespace Chooser

variable {σ : Type} {chooser : Chooser σ} {state next after : σ}

/-- From a state on, the source gives these draws, one after the other. -/
inductive Answers (chooser : Chooser σ) : σ → List Draw → σ → Prop where
  | nil (state : σ) : Answers chooser state [] state
  | cons {state next after : σ} {draw : Draw} {draws : List Draw}
      (hdraw : chooser.choose draw.others state = (draw.pick, next))
      (hrest : Answers chooser next draws after) : Answers chooser state (draw :: draws) after

theorem Answers.append {front back : List Draw} (h : chooser.Answers state front next)
    (h' : chooser.Answers next back after) : chooser.Answers state (front ++ back) after := by
  induction h with
  | nil state => exact h'
  | cons hdraw _ ih => exact .cons hdraw (ih h')

theorem Answers.exists_of_append {front back : List Draw}
    (h : chooser.Answers state (front ++ back) after) :
    ∃ next, chooser.Answers state front next ∧ chooser.Answers next back after := by
  induction front generalizing state with
  | nil => exact ⟨state, .nil state, h⟩
  | cons draw front ih =>
    obtain _ | ⟨hdraw, hrest⟩ := h
    obtain ⟨next, hfront, hback⟩ := ih hrest
    exact ⟨next, .cons hdraw hfront, hback⟩

/-- The same source, with a record of its draws. -/
def recorded (chooser : Chooser σ) : Chooser (σ × List Draw) where
  choose n state :=
    let (pick, next) := chooser.choose n state.1
    (pick, next, state.2 ++ [⟨n, pick⟩])

/-- A source whose choices are listed in advance. Behind the last one it chooses what comes
first. -/
def scripted : Chooser (List Nat) where
  choose n script := (⟨script.headD 0 % (n + 1), Nat.mod_lt _ n.succ_pos⟩, script.tail)

theorem Answers.recorded {draws : List Draw} (h : chooser.Answers state draws after)
    (record : List Draw) :
    chooser.recorded.Answers (state, record) draws (after, record ++ draws) := by
  induction h generalizing record with
  | nil state =>
    rw [List.append_nil]
    exact .nil _
  | @cons state next after draw draws hdraw _ ih =>
    have hrecorded : chooser.recorded.choose draw.others (state, record) =
        (draw.pick, next, record ++ [draw]) := by
      show ((chooser.choose draw.others state).1, (chooser.choose draw.others state).2,
        record ++ [⟨draw.others, (chooser.choose draw.others state).1⟩]) = _
      rw [hdraw]
    have hrest := ih (record ++ [draw])
    rw [List.append_assoc, List.singleton_append] at hrest
    exact .cons hrecorded hrest

theorem answers_scripted (draws : List Draw) :
    scripted.Answers (draws.map fun draw => draw.pick.val) draws [] := by
  induction draws with
  | nil => exact .nil []
  | cons draw draws ih =>
    have hpick : draw.pick.val % (draw.others + 1) = draw.pick.val :=
      Nat.mod_eq_of_lt draw.pick.isLt
    exact .cons (congrArg (·, _) (Fin.ext hpick)) ih

end Chooser

end Chomsky.Random
