import Mathlib.Algebra.BigOperators.Intervals
import Chomsky.Proofs.Samples.Joining

/-!
# Counting the sentences outside a language

The complement is a set, so its size says how many sentences there are only if no candidate is a
repetition of another. With the candidates told apart, the complement can be counted: a candidate is
either a sentence of the language or one of the complement.

* **`nodup_sentencesOfLength`**: sentences that begin with different tokens differ, and those that begin
  with the same token differ later on.
* **`length_sentencesUpTo`**: one power of the size of the alphabet for each length.
* **`mem_complement_iff_and_size`**: the complement has as many sentences as the language leaves of the
  candidates. What the language holds beyond the bound or over other tokens does not count.
-/

namespace Chomsky

/-! ## Sentences over an alphabet -/

variable {tokens : List String}

/-- Each sentence of `n` tokens is listed once. -/
theorem nodup_sentencesOfLength (h : tokens.Nodup) (n : Nat) :
    (sentencesOfLength tokens n).Nodup := by
  induction n with
  | zero => exact List.nodup_singleton []
  | succ n ih =>
    unfold sentencesOfLength
    rw [List.nodup_flatMap]
    constructor
    · intro token _
      exact ih.map fun _ _ heq => (List.cons.inj heq).2
    · refine h.imp fun {a b} hab => ?_
      show List.Disjoint _ _
      rw [List.disjoint_left]
      intro w ha hb
      obtain ⟨u, -, rfl⟩ := List.mem_map.mp ha
      obtain ⟨v, -, heq⟩ := List.mem_map.mp hb
      exact hab (List.cons.inj heq).1.symm

@[simp] theorem length_sentencesOfLength (tokens : List String) (n : Nat) :
    (sentencesOfLength tokens n).length = tokens.length ^ n := by
  induction n with
  | zero => rfl
  | succ n ih =>
    unfold sentencesOfLength
    rw [List.length_flatMap]
    simp only [List.length_map, ih, List.map_const', List.sum_replicate_nat]
    rw [Nat.pow_succ, Nat.mul_comm]

theorem sentencesUpTo_succ (tokens : List String) (bound : Nat) :
    sentencesUpTo tokens (bound + 1) =
      sentencesUpTo tokens bound ++ sentencesOfLength tokens (bound + 1) := by
  unfold sentencesUpTo
  rw [List.range_succ, List.flatMap_append, List.flatMap_singleton]

theorem nodup_sentencesUpTo (h : tokens.Nodup) (bound : Nat) :
    (sentencesUpTo tokens bound).Nodup := by
  induction bound with
  | zero => exact List.nodup_nil
  | succ bound ih =>
    rw [sentencesUpTo_succ]
    refine ih.append (nodup_sentencesOfLength h (bound + 1)) ?_
    -- a sentence of the new length is longer than all that were listed before
    rw [List.disjoint_left]
    intro w hbefore hnew
    have hshort : w.length ≤ bound := (mem_sentencesUpTo.mp hbefore).1.2
    have hlong : w.length = bound + 1 := (mem_sentencesOfLength.mp hnew).1
    omega

@[simp] theorem length_sentencesUpTo (tokens : List String) (bound : Nat) :
    (sentencesUpTo tokens bound).length = ∑ i ∈ Finset.Icc 1 bound, tokens.length ^ i := by
  induction bound with
  | zero => rfl
  | succ bound ih =>
    rw [sentencesUpTo_succ, List.length_append, ih, length_sentencesOfLength,
      Finset.sum_Icc_succ_top (by omega)]

/-! ## Inside and outside a language -/

/-- A candidate is in the complement or in the language, and not in both. -/
theorem size_complement_add (language : Language) (tokens : NameSet) (bound : Nat) :
    (complement language tokens bound).size +
        (language.filter fun w =>
          (1 ≤ w.length ∧ w.length ≤ bound) ∧ ∀ token ∈ w, token ∈ tokens).size =
      (sentencesUpTo tokens.toList bound).length := by
  have hnodup := nodup_sentencesUpTo (nodup_toList tokens) bound
  have houtside : (complement language tokens bound).size =
      ((sentencesUpTo tokens.toList bound).filter fun w => !decide (w ∈ language)).length := by
    apply size_eq_length (hnodup.filter _)
    intro w
    simp [and_assoc]
  have hinside : (language.filter fun w =>
        (1 ≤ w.length ∧ w.length ≤ bound) ∧ ∀ token ∈ w, token ∈ tokens).size =
      ((sentencesUpTo tokens.toList bound).filter fun w => decide (w ∈ language)).length := by
    apply size_eq_length (hnodup.filter _)
    intro w
    simp only [Std.ExtTreeSet.mem_filter, List.mem_filter, mem_sentencesUpTo,
      Std.ExtTreeSet.mem_toList, Std.ExtTreeSet.get_eq, decide_eq_true_eq, exists_prop]
    exact and_comm
  rw [houtside, hinside, Nat.add_comm]
  exact (List.length_eq_length_filter_add _).symm

/-- **The complement names each sentence once and omits none.** The candidates are all different, and a
sentence is in the complement exactly if it is a candidate outside the language. With the candidates
that the language holds, they are one power of the number of tokens for each length up to the bound. -/
theorem mem_complement_iff_and_size (language : Language) (tokens : NameSet) (bound : Nat) :
    (sentencesUpTo tokens.toList bound).Nodup ∧
    (∀ w, w ∈ complement language tokens bound ↔
      (1 ≤ w.length ∧ w.length ≤ bound) ∧ (∀ token ∈ w, token ∈ tokens) ∧ w ∉ language) ∧
    (complement language tokens bound).size +
        (language.filter fun w =>
          (1 ≤ w.length ∧ w.length ≤ bound) ∧ ∀ token ∈ w, token ∈ tokens).size =
      ∑ i ∈ Finset.Icc 1 bound, tokens.size ^ i := by
  refine ⟨nodup_sentencesUpTo (nodup_toList tokens) bound, fun w => mem_complement, ?_⟩
  rw [size_complement_add, length_sentencesUpTo, Std.ExtTreeSet.length_toList]

/-- Of two and four candidates the language holds one; its other sentences are not candidates. -/
example : (complement {["a"], ["c"], ["a", "a", "a"]} {"a", "b"} 2).size = 2 + 4 - 1 := by
  decide +kernel

end Chomsky
