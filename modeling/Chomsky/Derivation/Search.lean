import Chomsky.Derivation.Form
import Chomsky.Diagnostics

/-!
# Enumerating sentences

Sentences are found breadth first. The search keeps the set of forms that a derivation of the
current length can end in, its *frontier*, and the sentences found so far. A step harvests the
complete forms of the frontier and moves on to the successors of the others, so a sentence is
harvested one step after its form was completed; reading the result harvests once more.

Forms and sentences are kept in sets: a form that is reached twice is expanded once.
-/

namespace Chomsky

/-- The state of a search after some number of steps. -/
structure Search where
  /-- The forms reached by exactly that many steps. -/
  frontier : Std.ExtTreeSet Form
  /-- The sentences harvested on the way. -/
  found : Language

namespace Search

/-- Before the first step only the start symbol has been reached. -/
def start (name : String) : Search :=
  ⟨{[.nonterminal name]}, ∅⟩

def harvest (g : Grammar) (search : Search) : Language :=
  .ofList ((search.frontier.toList.filter g.complete).map Form.sentence)

/-- All sentences known at this point. -/
def language (g : Grammar) (search : Search) : Language :=
  search.found ∪ search.harvest g

def step (g : Grammar) (e : Expansion) (search : Search) : Search :=
  ⟨.ofList (search.frontier.toList.flatMap (g.successors e)), search.language g⟩

/-- The state after a number of further steps. Once the frontier is empty no step changes
anything, so the rest is skipped. -/
def advance (g : Grammar) (e : Expansion) : Nat → Search → Search
  | 0, search => search
  | k + 1, search =>
    if search.frontier.isEmpty then search else advance g e k (search.step g e)

/-- The states after one step, two steps, and so on up to a number of steps. -/
def states (g : Grammar) (e : Expansion) : Nat → Search → List Search
  | 0, _ => []
  | k + 1, search =>
    let next := search.step g e
    next :: states g e k next

/-! ## What a step knows

A sentence is known when it was harvested before or when a complete form of the frontier spells it;
the next frontier holds the successors of the forms in this one. -/

@[simp] theorem mem_harvest {g : Grammar} {search : Search} {w : Sentence} :
    w ∈ search.harvest g ↔
      ∃ form ∈ search.frontier, g.complete form = true ∧ form.sentence = w := by
  simp [harvest, Std.ExtTreeSet.mem_ofList, and_assoc]

@[simp] theorem mem_language {g : Grammar} {search : Search} {w : Sentence} :
    w ∈ search.language g ↔ w ∈ search.found ∨ w ∈ search.harvest g :=
  Std.ExtTreeSet.mem_union_iff

@[simp] theorem mem_frontier_step {g : Grammar} {e : Expansion} {search : Search} {next : Form} :
    next ∈ (search.step g e).frontier ↔
      ∃ form ∈ search.frontier, next ∈ g.successors e form := by
  simp [step, Std.ExtTreeSet.mem_ofList]

/-- A step from an empty frontier changes nothing. -/
theorem step_of_frontier_isEmpty {g : Grammar} {e : Expansion} {search : Search}
    (h : search.frontier.isEmpty = true) : search.step g e = search := by
  obtain ⟨frontier, found⟩ := search
  obtain rfl : frontier = ∅ := Std.ExtTreeSet.isEmpty_iff.1 h
  have hnil : (∅ : Std.ExtTreeSet Form).toList = [] := by simp
  have hunion : found ∪ ∅ = found := Std.ExtTreeSet.ext_mem fun s => by simp
  simp only [step, language, harvest, hnil, List.flatMap_nil, List.filter_nil, List.map_nil,
    Std.ExtTreeSet.ofList_nil, hunion]

/-- Skipping steps from an empty frontier is no different from making them. -/
theorem advance_succ (g : Grammar) (e : Expansion) (k : Nat) (search : Search) :
    search.advance g e (k + 1) = (search.step g e).advance g e k := by
  by_cases h : search.frontier.isEmpty
  · have hk : ∀ k, search.advance g e k = search := fun k => by cases k <;> simp [advance, h]
    rw [step_of_frontier_isEmpty h, hk, hk]
  · simp [advance, h]

end Search

namespace Grammar

/-- The sentences whose derivation from a name is complete after at most `bound` steps. -/
def sentences (g : Grammar) (name : String) (bound : Nat) (e : Expansion) : Language :=
  ((Search.start name).advance g e bound).language g

/-- The tokens of a sentence written one after the other. -/
def spelled (sentence : Sentence) : String :=
  String.join sentence

/-- The texts that the sentences spell. Different sentences can spell the same text. -/
def texts (g : Grammar) (name : String) (bound : Nat) (e : Expansion) : NameSet :=
  .ofList ((g.sentences name bound e).toList.map spelled)

/-- What is told while sentences are enumerated: after each step, the size of the frontier and the
number of sentences found. -/
def searchNotices (g : Grammar) (name : String) (bound : Nat) (e : Expansion) : List Notice :=
  ((Search.start name).states g e bound).zipIdx 1 |>.map fun (search, number) =>
    ⟨.debug, "Step " ++ toString number ++ ": " ++ toString search.frontier.size ++
      " sentences in the frontier, " ++ toString search.found.size ++ " complete"⟩

end Grammar

end Chomsky
