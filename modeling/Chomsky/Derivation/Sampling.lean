import Chomsky.Grammar.Basic
import Chomsky.Random.Words

/-!
# Random sentences

A random sentence is derived from the top: each defined name chooses one of its productions, the
left name of a pair is derived before the right one, and an undefined name stays as it is spelled.
The derivation may be at most `depth` productions deep. A defined name that has no depth left fails
without a choice, and so does a name that has no production to choose; a failure anywhere fails the
sentence, and the choices made before it are spent.
-/

namespace Chomsky.Grammar

open Chomsky.Random

variable {σ : Type}

/-- A random sentence of a name, if its derivation succeeds, and the state of the source after
it. -/
def sample (chooser : Chooser σ) (g : Grammar) (depth : Nat) (name : String) (state : σ) :
    Option Sentence × σ :=
  match g.productions? name, depth with
  | none, _ => (some [name], state)
  | some _, 0 => (none, state)
  | some productions, depth + 1 =>
    match productions.toList with
    | [] => (none, state)
    | first :: others =>
      let (i, state) := chooser.choose others.length state
      match (first :: others)[i] with
      | .unary token => (some [token], state)
      | .binary left right =>
        match g.sample chooser depth left state with
        | (none, state) => (none, state)
        | (some front, state) =>
          match g.sample chooser depth right state with
          | (none, state) => (none, state)
          | (some back, state) => (some (front ++ back), state)

/-- The first of up to `attempts` derivations that succeeds. -/
def sampleWithin (chooser : Chooser σ) (g : Grammar) (depth : Nat) (name : String) :
    (attempts : Nat) → σ → Option Sentence × σ
  | 0, state => (none, state)
  | attempts + 1, state =>
    match g.sample chooser depth name state with
    | (some sentence, state) => (some sentence, state)
    | (none, state) => g.sampleWithin chooser depth name attempts state

/-- Adds the sentences of `amount` further requests, newest first. -/
def samplesOnto (chooser : Chooser σ) (g : Grammar) (depth : Nat) (name : String)
    (attempts : Nat) : (amount : Nat) → List Sentence → σ → List Sentence × σ
  | 0, found, state => (found, state)
  | amount + 1, found, state =>
    match g.sampleWithin chooser depth name attempts state with
    | (none, state) => g.samplesOnto chooser depth name attempts amount found state
    | (some sentence, state) =>
      g.samplesOnto chooser depth name attempts amount (sentence :: found) state

/-- The sentences of `amount` requests, each with up to `attempts` derivations. A request whose
derivations all fail gives nothing. -/
def samples (chooser : Chooser σ) (g : Grammar) (depth : Nat) (name : String)
    (attempts amount : Nat) (state : σ) : List Sentence × σ :=
  let (found, state) := g.samplesOnto chooser depth name attempts amount [] state
  (found.reverse, state)

end Chomsky.Grammar
