import Chomsky.CommandLine.Arguments
import Chomsky.Derivation.Form
import Chomsky.Recogniser
import Chomsky.Rule.Parser

/-!
# Commands

The three things that the program can be asked to do, with all that they need to know, and how they
are asked for.
-/

namespace Chomsky.CommandLine

structure Generate where
  grammar : String
  start : String
  steps : Nat
  positive : String
  negative : String
  maxLength : Nat
  separator : String
  expansion : Expansion
  convention : Convention
  deriving DecidableEq, Repr

/-- Deciding inputs. Without inputs the lines of the standard input are decided. -/
structure Decide where
  grammar : String
  inputs : List String
  start : String
  convention : Convention
  deriving DecidableEq, Repr

/-- Printing random sentences. Without a seed the result cannot be repeated. -/
structure Sample where
  grammar : String
  start : String
  amount : Nat
  maxDepth : Nat
  seed : Option Nat
  separator : String
  convention : Convention
  deriving DecidableEq, Repr

inductive Command where
  | generate (options : Generate)
  | decide (options : Decide)
  | sample (options : Sample)
  deriving DecidableEq, Repr

/-! ## Layouts -/

def declaredFlag : Setting := ⟨"declared", none, none⟩

def startOption : Setting := ⟨"start", some 's', some .text⟩

def separatorOption : Setting := ⟨"separator", none, some .text⟩

/-- What a request for sample files may be given. -/
def generateLayout : Layout where
  options := [⟨"max-length", none, some .count⟩, separatorOption, ⟨"parallel", none, none⟩,
    declaredFlag]
  required := [.path, .text, .stepBound, .path, .path]
  further := none

/-- What a request for decisions may be given. -/
def decideLayout : Layout where
  options := [startOption, declaredFlag]
  required := [.path]
  further := some .text

/-- What a request for random sentences may be given. -/
def sampleLayout : Layout where
  options := [startOption, ⟨"amount", some 'n', some .amount⟩, ⟨"max-depth", none, some .count⟩,
    ⟨"seed", none, some .count⟩, separatorOption, declaredFlag]
  required := [.path]
  further := none

/-! ## From arguments to requests -/

namespace Given

def convention (given : Given) : Convention :=
  if given.has "declared" then .declared else .uppercase

/-- The value of an option or, if it was not given, its default. -/
def valueOr (given : Given) (long default : String) : String :=
  (given.value? long).getD default

/-- The value of a count or, if it was not given, its default. -/
def countOr (given : Given) (long : String) (default : Nat) : Nat :=
  ((given.value? long).bind count?).getD default

end Given

def Generate.ofGiven (given : Given) : Except Stop Generate :=
  match given.positional with
  | [grammar, start, steps, positive, negative] =>
    match stepBound steps with
    | .error _ => .error .mistake
    | .ok steps => .ok {
        grammar, start, steps, positive, negative
        maxLength := given.countOr "max-length" 3
        separator := given.valueOr "separator" ""
        expansion := if given.has "parallel" then .parallel else .leftmost
        convention := given.convention }
  | _ => .error .mistake

def Decide.ofGiven (given : Given) : Except Stop Decide :=
  match given.positional with
  | [] => .error .mistake
  | grammar :: inputs => .ok {
      grammar, inputs
      start := given.valueOr "start" Recogniser.defaultStart
      convention := given.convention }

def Sample.ofGiven (given : Given) : Except Stop Sample :=
  match given.positional with
  | [grammar] => .ok {
      grammar
      start := given.valueOr "start" Recogniser.defaultStart
      amount := ((given.value? "amount").bind amount?).getD 1
      maxDepth := given.countOr "max-depth" 16
      seed := (given.value? "seed").bind count?
      separator := given.valueOr "separator" " "
      convention := given.convention }
  | _ => .error .mistake

/-- The words that name what the program can be asked for. -/
def topics : List String := ["generate", "parse", "sample", "help"]

/-- The request that arguments make. -/
def Command.ofArguments : List String → Except Stop Command
  | [] => .error .mistake
  | "generate" :: args => do return .generate (← Generate.ofGiven (← generateLayout.read args))
  | "parse" :: args => do return .decide (← Decide.ofGiven (← decideLayout.read args))
  | "sample" :: args => do return .sample (← Sample.ofGiven (← sampleLayout.read args))
  | "help" :: topic =>
    match topic with
    | [] => .error .help
    | [topic] => .error (if topic ∈ topics then .help else .mistake)
    | _ => .error .mistake
  | arg :: _ =>
    match shapeOf arg with
    | .long "help" none => .error .help
    | .long "version" none => .error .version
    | .short 'h' _ => .error .help
    | .short 'V' _ => .error .version
    | _ => .error .mistake

end Chomsky.CommandLine
