import Chomsky.Proofs.Derivation.Sampling

/-!
# Granting a random derivation more depth

The depth is looked at before a choice and never after it: a name that has no depth left fails
without a draw, and every other name draws whatever its depth is. So a derivation that is granted
more depth makes the draws of the shallow one first.

* **`Attempt.of_le`**: an attempt that succeeds is the same attempt within any larger depth.
* **`Attempt.exists_more`**: an attempt that fails becomes an attempt within a larger depth when
  further draws are added behind its own.
* **`sample_of_le_depth`**: both for runs, on any source from any of its states.
-/

namespace Chomsky.Grammar

open Chomsky.Random

variable {g : Grammar} {depth deeper : Nat} {name b c : String} {draw : Draw} {draws : List Draw}
variable {result : Option Sentence} {σ : Type} {chooser : Chooser σ} {state after : σ}

/-- **Depth that was not needed changes nothing.** Induction on the attempt. The only case that asks
how much depth is left is the one that fails for lack of it. -/
theorem Attempt.of_le (h : g.Attempt depth name draws result) (hsome : result ≠ none)
    (hle : depth ≤ deeper) : g.Attempt deeper name draws result := by
  induction h generalizing deeper with
  | undefined hname => exact .undefined hname
  | tooDeep => exact absurd rfl hsome
  | barren => exact absurd rfl hsome
  | token hselects =>
    obtain ⟨deeper, rfl⟩ : ∃ d, deeper = d + 1 := ⟨deeper - 1, by omega⟩
    exact .token hselects
  | frontFails => exact absurd rfl hsome
  | backFails => exact absurd rfl hsome
  | pair hselects _ _ ihf ihb =>
    obtain ⟨deeper, rfl⟩ : ∃ d, deeper = d + 1 := ⟨deeper - 1, by omega⟩
    have hbelow := Nat.le_of_succ_le_succ hle
    exact .pair hselects (ihf (by simp) hbelow) (ihb (by simp) hbelow)

/-! ## Going on where the shallow derivation failed

It failed at one place of the tree. Everything to the left of the place had succeeded and stays, the
place itself is derived further, and what is to the right of it is derived for the first time. -/

/-- What comes of the right name decides the pair, if the left name was derived. -/
theorem Attempt.exists_of_front {before after : List Draw} {front : Sentence}
    (hselects : g.Selects draw ⟨name, .binary b c⟩) (hfront : g.Attempt depth b before (some front))
    (hback : g.Attempt depth c after result) :
    ∃ result', g.Attempt (depth + 1) name (draw :: (before ++ after)) result' := by
  cases result with
  | none => exact ⟨_, .backFails hselects hfront hback⟩
  | some back => exact ⟨_, .pair hselects hfront hback⟩

/-- Behind an attempt at the left name of a pair, the source gives what the pair still needs. -/
theorem Attempt.exists_rest {before : List Draw} (chooser : Chooser σ)
    (hselects : g.Selects draw ⟨name, .binary b c⟩) (hfront : g.Attempt depth b before result)
    (state : σ) : ∃ rest result' last,
      g.Attempt (depth + 1) name (draw :: (before ++ rest)) result' ∧
        chooser.Answers state rest last := by
  cases result with
  | none =>
    have hfails : g.Attempt (depth + 1) name (draw :: (before ++ [])) none := by
      rw [List.append_nil]
      exact .frontFails hselects hfront
    exact ⟨[], none, state, hfails, .nil state⟩
  | some front =>
    obtain ⟨rest, hback, hanswers⟩ := exists_attempt chooser g depth c state
    obtain ⟨result', hpair⟩ := Attempt.exists_of_front hselects hfront hback
    exact ⟨rest, result', _, hpair, hanswers⟩

/-- **A failed attempt goes on with more depth.** Its draws are kept, and from the state that they
left the source in come the further ones. Induction on the attempt, down to the name that failed. -/
theorem Attempt.exists_more (h : g.Attempt depth name draws result) (hnone : result = none)
    (hle : depth ≤ deeper) (hanswers : chooser.Answers state draws after) :
    ∃ more result' last, g.Attempt deeper name (draws ++ more) result' ∧
      chooser.Answers after more last := by
  induction h generalizing deeper state after with
  | undefined => exact absurd hnone (Option.some_ne_none _)
  | @tooDeep name ps hname =>
    -- nothing was drawn so far: the whole derivation is still to come
    obtain ⟨more, hmore, hlast⟩ := exists_attempt chooser g deeper name after
    exact ⟨more, _, _, hmore, hlast⟩
  | barren hname hnil =>
    obtain ⟨deeper, rfl⟩ : ∃ d, deeper = d + 1 := ⟨deeper - 1, by omega⟩
    exact ⟨[], none, after, .barren hname hnil, .nil after⟩
  | token => exact absurd hnone (Option.some_ne_none _)
  | @frontFails depth name b c draw draws hselects _ ih =>
    obtain ⟨deeper, rfl⟩ : ∃ d, deeper = d + 1 := ⟨deeper - 1, by omega⟩
    obtain _ | ⟨hdraw, hdraws⟩ := hanswers
    obtain ⟨more, result', middle, hfront, hmore⟩ :=
      ih rfl (Nat.le_of_succ_le_succ hle) hdraws
    -- the left name may succeed now, so the right one is derived for the first time
    obtain ⟨rest, result'', last, hpair, hrest⟩ :=
      Attempt.exists_rest chooser hselects hfront middle
    refine ⟨more ++ rest, result'', last, ?_, hmore.append hrest⟩
    rw [List.cons_append, ← List.append_assoc]
    exact hpair
  | @backFails depth name b c draw before behind front hselects hfront _ _ ih =>
    obtain ⟨deeper, rfl⟩ : ∃ d, deeper = d + 1 := ⟨deeper - 1, by omega⟩
    have hbelow := Nat.le_of_succ_le_succ hle
    obtain _ | ⟨hdraw, hdraws⟩ := hanswers
    obtain ⟨middle, -, hbehind⟩ := hdraws.exists_of_append
    obtain ⟨more, result', last, hback, hmore⟩ := ih rfl hbelow hbehind
    obtain ⟨result'', hpair⟩ :=
      Attempt.exists_of_front hselects (hfront.of_le (by simp) hbelow) hback
    refine ⟨more, result'', last, ?_, hmore⟩
    rw [List.cons_append, List.append_assoc]
    exact hpair
  | pair => exact absurd hnone (Option.some_ne_none _)

/-! ## Runs -/

/-- **More depth never changes a sentence that was drawn.** On any source, from any state: if a run
succeeds within a depth, then within any larger depth it gives the same sentence and leaves the
source in the same state; if it fails, the run within the larger depth first makes the same draws. -/
theorem sample_of_le_depth (chooser : Chooser σ) (g : Grammar) (name : String)
    (hle : depth ≤ deeper) (state : σ) :
    (∀ w after, g.sample chooser depth name state = (some w, after) →
      g.sample chooser deeper name state = (some w, after)) ∧
    (∀ after, g.sample chooser depth name state = (none, after) →
      ∃ draws more result last,
        g.sample chooser.recorded depth name (state, []) = (none, after, draws) ∧
        g.sample chooser.recorded deeper name (state, []) = (result, last, draws ++ more) ∧
        g.sample chooser deeper name state = (result, last)) := by
  obtain ⟨draws, hattempt, hanswers⟩ := exists_attempt chooser g depth name state
  refine ⟨fun w after hrun => ?_, fun after hrun => ?_⟩
  · rw [hrun] at hattempt hanswers
    exact sample_eq_of_attempt (hattempt.of_le (by simp) hle) hanswers
  · rw [hrun] at hattempt hanswers
    obtain ⟨more, result, last, hdeeper, hmore⟩ := hattempt.exists_more rfl hle hanswers
    have hall : chooser.Answers state (draws ++ more) last := hanswers.append hmore
    exact ⟨draws, more, result, last, sample_eq_of_attempt hattempt (hanswers.recorded []),
      sample_eq_of_attempt hdeeper (hall.recorded []), sample_eq_of_attempt hdeeper hall⟩

/-- Two levels suffice for the first rule of `S`. The second one needs more: within two levels it fails
after three draws, and within four the same draws come first. -/
theorem sample_of_le_depth_balanced :
    2 ≤ 4 ∧
      balanced.sample .scripted 4 "S" [0, 0, 0, 7] = (some ["a", "b"], [7]) ∧
      balanced.sample .scripted 2 "S" [1, 0, 0, 0, 0, 0, 0] = (none, [0, 0, 0, 0]) ∧
      ∃ draws more, draws.map (fun draw => draw.pick.val) = [1, 0, 0] ∧
        (balanced.sample Chooser.scripted.recorded 4 "S" ([1, 0, 0, 0, 0, 0, 0], [])) =
          (some ["a", "a", "b", "b"], [], draws ++ more) := by
  have hle : 2 ≤ 4 := by decide
  have hfound : balanced.sample .scripted 2 "S" [0, 0, 0, 7] = (some ["a", "b"], [7]) := by
    decide +kernel
  have hfailed : balanced.sample .scripted 2 "S" [1, 0, 0, 0, 0, 0, 0] = (none, [0, 0, 0, 0]) := by
    decide +kernel
  have hdeep : balanced.sample .scripted 4 "S" [1, 0, 0, 0, 0, 0, 0] =
      (some ["a", "a", "b", "b"], []) := by
    decide +kernel
  obtain ⟨hsame, -⟩ := sample_of_le_depth .scripted balanced "S" hle [0, 0, 0, 7]
  obtain ⟨-, hmore⟩ := sample_of_le_depth .scripted balanced "S" hle [1, 0, 0, 0, 0, 0, 0]
  obtain ⟨draws, more, result, last, hshallow, hrecord, hplain⟩ := hmore _ hfailed
  obtain ⟨rfl, rfl⟩ := Prod.mk.inj (hplain.symm.trans hdeep)
  have hpicks : draws.map (fun draw => draw.pick.val) = [1, 0, 0] := by
    rw [← show (balanced.sample Chooser.scripted.recorded 2 "S"
      ([1, 0, 0, 0, 0, 0, 0], [])).2.2 = draws from by rw [hshallow]]
    decide +kernel
  exact ⟨hle, hsame _ _ hfound, hfailed, draws, more, hpicks, hrecord⟩

end Chomsky.Grammar
