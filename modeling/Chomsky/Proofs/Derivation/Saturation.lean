import Mathlib.Order.Monotone.Basic
import Chomsky.Proofs.Derivation.Enumeration

/-!
# The course of a search

A search within a bound passes through one state after each of its steps, and tells of each how many
forms are in the frontier and how many sentences were found. Nothing in these states depends on the
bound: the search within a larger bound passes through the same ones and goes on.

* **`getElem?_states`**: the states that are told of are those that the search passes through.
* **`found_advance_start`**: the harvest lags one step behind. What was found after `i + 1` steps is
  what is known within the bound `i`.
* **`sentences_eq_of_frontier_isEmpty`**: once the frontier is empty, no larger bound finds more.
-/

namespace Chomsky

namespace Search

variable {g : Grammar} {e : Expansion} {search : Search}

/-! ## Steps one after the other -/

theorem advance_add (g : Grammar) (e : Expansion) (m n : Nat) (search : Search) :
    search.advance g e (m + n) = (search.advance g e m).advance g e n := by
  induction m generalizing search with
  | zero => rw [Nat.zero_add, advance]
  | succ m ih =>
    -- the first of the `m` steps is the first of all steps
    rw [Nat.add_right_comm, advance_succ, advance_succ]
    exact ih (search.step g e)

/-- The last step is a step like the first one. -/
theorem advance_succ_eq_step (n : Nat) :
    search.advance g e (n + 1) = (search.advance g e n).step g e := by
  rw [advance_add, advance_succ, advance]

theorem advance_of_frontier_isEmpty (h : search.frontier.isEmpty = true) (n : Nat) :
    search.advance g e n = search := by
  cases n with
  | zero => rw [advance]
  | succ n => rw [advance, if_pos h]

/-- The states that a search tells of. Induction on the bound; the state moves forward with it. -/
theorem getElem?_states {i bound : Nat} (h : i < bound) :
    (search.states g e bound)[i]? = some (search.advance g e (i + 1)) := by
  induction bound generalizing search i with
  | zero => exact absurd h (Nat.not_lt_zero i)
  | succ bound ih =>
    rw [advance_succ]
    cases i with
    | zero => rfl
    | succ i =>
      show ((search.step g e).states g e bound)[i]? = _
      exact ih (Nat.lt_of_succ_lt_succ h)

/-! ## The harvest

A step takes everything that is known into the harvest, so the harvest never shrinks; and where the
frontier is empty, there is nothing to take in. -/

theorem found_advance_succ (n : Nat) :
    (search.advance g e (n + 1)).found = (search.advance g e n).language g := by
  rw [advance_succ_eq_step]
  rfl

theorem size_found_le_size_language : search.found.size ≤ (search.language g).size :=
  Std.ExtTreeSet.size_left_le_size_union

theorem language_of_frontier_isEmpty (h : search.frontier.isEmpty = true) :
    search.language g = search.found := by
  -- the step that changes nothing would have harvested the rest
  have hstep : search.step g .leftmost = search := step_of_frontier_isEmpty h
  exact congrArg Search.found hstep

end Search

namespace Grammar

variable {g : Grammar} {start : String} {e : Expansion} {i : Nat}

theorem found_advance_start :
    ((Search.start start).advance g e (i + 1)).found = g.sentences start i e :=
  Search.found_advance_succ i

/-- **A larger bound finds at least as many sentences.** -/
theorem monotone_size_sentences (g : Grammar) (start : String) (e : Expansion) :
    Monotone fun bound => (g.sentences start bound e).size := by
  refine monotone_nat_of_le_succ fun bound => ?_
  show (g.sentences start bound e).size ≤ (g.sentences start (bound + 1) e).size
  rw [← found_advance_start]
  exact Search.size_found_le_size_language

/-- **An empty frontier ends the search.** From then on every bound gives the harvest of that
moment. -/
theorem sentences_eq_of_frontier_isEmpty
    (h : ((Search.start start).advance g e (i + 1)).frontier.isEmpty = true) {bound : Nat}
    (hbound : i ≤ bound) : g.sentences start bound e = g.sentences start i e := by
  rcases Nat.eq_or_lt_of_le hbound with rfl | hlt
  · rfl
  · obtain ⟨more, rfl⟩ := Nat.exists_eq_add_of_le (Nat.succ_le_of_lt hlt)
    show ((Search.start start).advance g e (i + 1 + more)).language g = _
    rw [Search.advance_add, Search.advance_of_frontier_isEmpty h,
      Search.language_of_frontier_isEmpty h, found_advance_start]

/-- What is told of a step. -/
theorem getElem?_searchNotices {bound : Nat} (h : i < bound) :
    (g.searchNotices start bound e)[i]? = some ⟨.debug, "Step " ++ toString (i + 1) ++ ": " ++
      toString ((Search.start start).advance g e (i + 1)).frontier.size ++
      " sentences in the frontier, " ++ toString (g.sentences start i e).size ++ " complete"⟩ := by
  rw [searchNotices, List.getElem?_map, List.getElem?_zipIdx, Search.getElem?_states h,
    ← found_advance_start, Nat.add_comm i 1]
  rfl

/-- **The course of a search.** After step `i + 1` of a search within any larger bound, what was found
is what the bound `i` gives, and the frontier holds the forms that exactly `i + 1` steps reach. The
numbers of both are told; the number of sentences never goes down from one step to a later one, and
once the frontier is empty every bound from `i` on gives the same sentences. -/
theorem states_found_frontier_and_notices (g : Grammar) (start : String) (e : Expansion)
    {i bound : Nat} (h : i < bound) :
    ∃ search : Search, ((Search.start start).states g e bound)[i]? = some search ∧
      search = (Search.start start).advance g e (i + 1) ∧
      search.found = g.sentences start i e ∧
      (∀ form, form ∈ search.frontier ↔ Run (g.StepsTo e) (i + 1) [.nonterminal start] form) ∧
      (g.searchNotices start bound e)[i]? = some ⟨.debug, "Step " ++ toString (i + 1) ++ ": " ++
        toString search.frontier.size ++ " sentences in the frontier, " ++
        toString (g.sentences start i e).size ++ " complete"⟩ ∧
      (∀ j, i ≤ j → (g.sentences start i e).size ≤ (g.sentences start j e).size) ∧
      (search.frontier.size = 0 → ∀ k, i ≤ k →
        g.sentences start k e = g.sentences start i e) := by
  have hafter : Search.After g e start (0 + (i + 1)) ((Search.start start).advance g e (i + 1)) :=
    Search.After.start.advance (i + 1)
  rw [Nat.zero_add] at hafter
  refine ⟨_, Search.getElem?_states h, rfl, found_advance_start, hafter.frontier,
    getElem?_searchNotices h, ?_, ?_⟩
  · intro j hj
    exact monotone_size_sentences g start e hj
  · intro hsize k hk
    have hempty : ((Search.start start).advance g e (i + 1)).frontier.isEmpty = true := by
      rw [Std.ExtTreeSet.isEmpty_eq_size_beq_zero, hsize]
      rfl
    exact sentences_eq_of_frontier_isEmpty hempty hk

/-- The third step completes the only sentence of these rules. The fourth one finds it and leaves an
empty frontier, so no bound from 3 on gives anything else. -/
theorem states_found_frontier_and_notices_of_pair :
    let g : Grammar := .ofRules
      [⟨"S", .binary "A" "B"⟩, ⟨"A", .unary "a"⟩, ⟨"B", .unary "b"⟩]
    3 < 5 ∧
      (g.searchNotices "S" 5 .leftmost)[3]? =
        some ⟨.debug, "Step 4: 0 sentences in the frontier, 1 complete"⟩ ∧
      ((Search.start "S").advance g .leftmost 4).frontier.size = 0 ∧
      ∀ k, 3 ≤ k → g.sentences "S" k .leftmost = {["a", "b"]} := by
  intro g
  have hlt : 3 < 5 := by decide
  have hempty : ((Search.start "S").advance g .leftmost 4).frontier.size = 0 := by decide +kernel
  have hone : g.sentences "S" 3 .leftmost = {["a", "b"]} := by decide +kernel
  obtain ⟨_, -, rfl, -, -, hnotice, -, hend⟩ :=
    states_found_frontier_and_notices g "S" .leftmost hlt
  refine ⟨hlt, ?_, hempty, fun k hk => ?_⟩
  · rw [hnotice, hempty, hone]
    decide +kernel
  · rw [hend hempty k hk, hone]

end Grammar

end Chomsky
