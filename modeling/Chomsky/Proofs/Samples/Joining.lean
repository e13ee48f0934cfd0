import Mathlib.Data.List.Nodup
import Mathlib.Data.Set.Function
import Chomsky.Proofs.Text.Words
import Chomsky.Recogniser
import Chomsky.Samples

/-!
# Joined sentences

Samples are written as lines, and a line may be given by several sentences. Nothing is lost by the
joining as long as different sentences give different lines. Then a sample has as many lines as it
has sentences (`size_ofList_map_toList`, by the list of a set, which repeats nothing), and a line is
negative exactly when its one sentence is not derived (`Samples.negative_join_eq`).

That is so for a separator of blanks between tokens that are words: the sentence is the words of the
line, whatever run of blanks stands between them (**`Recogniser.tokens_joinWith`**).
-/

namespace Chomsky

/-! ## Reading a line back -/

theorem words_joinWith {separator : String} (hne : separator ≠ "")
    (hblank : ∀ c ∈ separator.toList, Text.isBlank c = true) {w : Sentence}
    (hw : ∀ token ∈ w, Text.IsWord token.toList) :
    Text.words (joinWith separator w).toList = w.map String.toList := by
  have hne' : separator.toList ≠ [] := by
    intro hnil
    exact hne (String.toList_eq_nil_iff.mp hnil)
  induction w with
  | nil => rfl
  | cons token rest ih =>
    have htoken : Text.words token.toList = [token.toList] :=
      Text.words_of_isWord (hw token List.mem_cons_self)
    have hrest := ih fun other hother => hw other (List.mem_cons_of_mem token hother)
    cases rest with
    | nil => exact htoken
    | cons next others =>
      -- the separator cuts the line after the first token
      show Text.words (token ++ separator ++ joinWith separator (next :: others)).toList = _
      rw [String.toList_append, String.toList_append, List.append_assoc,
        Text.words_append_blanks_append hne' hblank, htoken, hrest]
      rfl

/-- **A joined sentence is read back as the words of its line.** -/
theorem Recogniser.tokens_joinWith {separator : String} (hne : separator ≠ "")
    (hblank : ∀ c ∈ separator.toList, Text.isBlank c = true) {w : Sentence}
    (hw : ∀ token ∈ w, Text.IsWord token.toList) :
    Recogniser.tokens (joinWith separator w) = w := by
  have hback : String.ofList ∘ String.toList = id := funext fun token => String.ofList_toList
  rw [Recogniser.tokens, words_joinWith hne hblank hw, List.map_map, hback, List.map_id]

/-! ## The size of a set -/

section Size

variable {α β : Type} [Ord α] [Std.TransOrd α] [Std.LawfulEqOrd α]
  [Ord β] [Std.TransOrd β] [Std.LawfulEqOrd β]

theorem nodup_toList (s : Std.ExtTreeSet α) : s.toList.Nodup := by
  refine Std.ExtTreeSet.distinct_toList.imp fun {a b} hab heq => hab ?_
  rw [heq]
  exact Std.ReflOrd.compare_self

/-- A set is as large as a list that names each of its elements once. -/
theorem size_eq_length {s : Std.ExtTreeSet α} {l : List α} (hl : l.Nodup)
    (h : ∀ a, a ∈ s ↔ a ∈ l) : s.size = l.length := by
  have hperm : s.toList.Perm l := by
    rw [List.perm_ext_iff_of_nodup (nodup_toList s) hl]
    intro a
    rw [Std.ExtTreeSet.mem_toList, h]
  rw [← Std.ExtTreeSet.length_toList, hperm.length_eq]

/-- The image of a set under a map that keeps its elements apart is as large as the set. -/
theorem size_ofList_map_toList {s : Std.ExtTreeSet α} {f : α → β}
    (hf : Set.InjOn f {x | x ∈ s}) :
    (Std.ExtTreeSet.ofList (s.toList.map f)).size = s.size := by
  have hnodup : (s.toList.map f).Nodup := by
    apply List.Nodup.map_on _ (nodup_toList s)
    intro a ha b hb hfab
    exact hf (Std.ExtTreeSet.mem_toList.mp ha) (Std.ExtTreeSet.mem_toList.mp hb) hfab
  have hdistinct : (s.toList.map f).Pairwise fun a b => ¬compare a b = .eq :=
    hnodup.imp fun hne heq => hne (Std.LawfulEqOrd.eq_of_compare heq)
  rw [Std.ExtTreeSet.size_ofList hdistinct, List.length_map, Std.ExtTreeSet.length_toList]

end Size

namespace Samples

variable {language underivable : Language} {separator : String}

theorem size_positive_join (hjoin : Set.InjOn (joinWith separator) {w | w ∈ language}) :
    (join language underivable separator).positive.size = language.size :=
  size_ofList_map_toList hjoin

/-- The negative lines are those of the underivable sentences that are not derived after all. -/
theorem negative_join_eq
    (hjoin : Set.InjOn (joinWith separator) {w | w ∈ language ∨ w ∈ underivable}) :
    (join language underivable separator).negative =
      .ofList ((underivable.filter (· ∉ language)).toList.map (joinWith separator)) := by
  apply Std.ExtTreeSet.ext_mem
  intro line
  have hright : line ∈ Std.ExtTreeSet.ofList
      ((underivable.filter (· ∉ language)).toList.map (joinWith separator)) ↔
        ∃ w ∈ underivable, w ∉ language ∧ joinWith separator w = line := by
    simp [Std.ExtTreeSet.mem_ofList, Std.ExtTreeSet.mem_filter, and_assoc]
  rw [mem_negative_join, mem_positive_join, hright]
  constructor
  · rintro ⟨⟨w, hw, rfl⟩, hnew⟩
    exact ⟨w, hw, fun hmem => hnew ⟨w, hmem, rfl⟩, rfl⟩
  · rintro ⟨w, hw, hnew, rfl⟩
    refine ⟨⟨w, hw, rfl⟩, ?_⟩
    -- a derived sentence with the same line would be this sentence
    rintro ⟨v, hv, hline⟩
    have hsame : v = w := hjoin (Or.inl hv) (Or.inr hw) hline
    exact hnew (hsame ▸ hv)

theorem size_negative_join
    (hjoin : Set.InjOn (joinWith separator) {w | w ∈ language ∨ w ∈ underivable}) :
    (join language underivable separator).negative.size =
      (underivable.filter (· ∉ language)).size := by
  rw [negative_join_eq hjoin]
  apply size_ofList_map_toList
  intro u hu v hv huv
  have hmem : ∀ w, w ∈ underivable.filter (· ∉ language) → w ∈ underivable :=
    fun w hw => Std.ExtTreeSet.mem_of_mem_filter hw
  exact hjoin (Or.inr (hmem u hu)) (Or.inr (hmem v hv)) huv

end Samples

end Chomsky
