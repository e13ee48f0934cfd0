import Chomsky.CommandLine.Command
import Chomsky.Derivation.Sampling
import Chomsky.Derivation.Search
import Chomsky.Grammar.Parser
import Chomsky.Random.Words
import Chomsky.Samples

/-!
# Carrying out commands

A command reads and writes files, reads the standard input, and may need a fresh seed. It does so
through a *host*, so that one description serves a machine and a model of one. What the command
prints is part of its result.

The grammar is read before anything else, and nothing is written until both samples are known; the
positive sample is written before the negative one.
-/

namespace Chomsky.CommandLine

/-! ## Hosts -/

/-- Why a file cannot be read or written. -/
inductive FileFault where
  | missing
  | directory
  | notDirectory
  | notText
  /-- Anything else, in the words of the host. -/
  | other (reason : String)
  deriving DecidableEq, Repr

namespace FileFault

def reason : FileFault → String
  | missing => "No such file or directory (os error 2)"
  | directory => "Is a directory (os error 21)"
  | notDirectory => "Not a directory (os error 20)"
  | notText => "stream did not contain valid UTF-8"
  | other reason => reason

instance : Worded FileFault := ⟨fun fault => "File error: " ++ fault.reason⟩

/-- The text that tells of a fault with a file. -/
def render (fault : FileFault) (path : String) : String :=
  Located.render ⟨.ofFile path, fault⟩

end FileFault

/-- What commands need from the world. -/
structure Host (m : Type → Type) where
  readFile : String → m (Except FileFault ByteArray)
  writeFile : String → String → m (Except FileFault Unit)
  /-- All that stands in the standard input. -/
  readInput : m ByteArray
  /-- A seed that no one can foresee. -/
  freshSeed : m UInt64

/-- How a run ends. -/
inductive Status where
  | success
  | failure
  /-- The arguments were mistaken, and no command was run. -/
  | mistake
  deriving DecidableEq, Repr

/-- The number that a status is reported by. -/
def Status.code : Status → Nat
  | success => 0
  | failure => 1
  | mistake => 2

/-- The end of a run and what was printed until then. -/
structure Outcome where
  status : Status
  output : String
  errors : String
  deriving DecidableEq, Repr

namespace Outcome

def succeed (output : String) : Outcome := ⟨.success, output, ""⟩

/-- A run that failed after it printed something. -/
def fail (output message : String) : Outcome := ⟨.failure, output, message ++ "\n"⟩

end Outcome

variable {m : Type → Type} [Monad m]

/-! ## Reading the grammar -/

/-- The grammar in the content of a file, or the text that tells what is wrong with it. -/
def grammarOfContent (path : String) (convention : Convention) (content : ByteArray) :
    Except String Grammar :=
  match String.fromUTF8? content with
  | none => .error (FileFault.notText.render path)
  | some text =>
    match Grammar.parse convention text with
    | .error fault => .error (fault.inFile path).render
    | .ok g => .ok g

def Host.loadGrammar (host : Host m) (path : String) (convention : Convention) :
    m (Except String Grammar) := do
  match ← host.readFile path with
  | .error fault => return .error (fault.render path)
  | .ok content => return grammarOfContent path convention content

/-! ## The commands -/

/-- The samples that a request asks for. -/
def Generate.samples (options : Generate) (g : Grammar) : Samples :=
  let language := g.sentences options.start options.steps options.expansion
  let underivable := complement language g.terminals options.maxLength
  .join language underivable options.separator

/-- Writes sample files. A file that cannot be written ends the run. -/
def Generate.run (options : Generate) (host : Host m) : m Outcome := do
  match ← host.loadGrammar options.grammar options.convention with
  | .error message => return .fail "" message
  | .ok g =>
    let samples := options.samples g
    match ← host.writeFile options.positive (Samples.render samples.positive) with
    | .error fault => return .fail "" (fault.render options.positive)
    | .ok () =>
      match ← host.writeFile options.negative (Samples.render samples.negative) with
      | .error fault => return .fail "" (fault.render options.negative)
      | .ok () => return .succeed ""

/-- What is printed for an input. -/
def verdictLine (r : Recogniser) (input : String) : String :=
  (if r.acceptsText input then "true" else "false") ++ "\t" ++ input ++ "\n"

/-- What is printed for a list of inputs. -/
def verdictLines (r : Recogniser) (inputs : List String) : String :=
  String.join (inputs.map (verdictLine r))

/-- The lines that are text, up to the first one that is not, and whether all of them are. -/
def decodeLines : List (List UInt8) → List String × Bool
  | [] => ([], true)
  | line :: rest =>
    match String.fromUTF8? ⟨line.toArray⟩ with
    | none => ([], false)
    | some text =>
      let (texts, complete) := decodeLines rest
      (text :: texts, complete)

/-- Decides the lines of the standard input. A line that is not text ends the run, and the lines
before it have been answered by then. -/
def decideInput (r : Recogniser) (input : ByteArray) : Outcome :=
  match decodeLines (Text.byteLines input.toList) with
  | (lines, true) => .succeed (verdictLines r lines)
  | (lines, false) => .fail (verdictLines r lines) FileFault.notText.reason

def Decide.run (options : Decide) (host : Host m) : m Outcome := do
  match ← host.loadGrammar options.grammar options.convention with
  | .error message => return .fail "" message
  | .ok g =>
    let r := Recogniser.ofGrammar g options.start
    match options.inputs with
    | [] => return decideInput r (← host.readInput)
    | inputs => return .succeed (verdictLines r inputs)

/-- How often a random sentence is tried before it is given up. -/
def attempts : Nat := 100

/-- Prints random sentences. A sentence that is given up leaves no line. -/
def Sample.run (options : Sample) (host : Host m) : m Outcome := do
  match ← host.loadGrammar options.grammar options.convention with
  | .error message => return .fail "" message
  | .ok g =>
    let seed ← match options.seed with
      | some seed => pure (UInt64.ofNat seed)
      | none => host.freshSeed
    let (sentences, _) := g.samples Random.Words.chooser options.maxDepth options.start attempts
      options.amount (Random.Words.ofSeed seed)
    return .succeed (String.join (sentences.map fun sentence =>
      joinWith options.separator sentence ++ "\n"))

def Command.run (command : Command) (host : Host m) : m Outcome :=
  match command with
  | .generate options => options.run host
  | .decide options => options.run host
  | .sample options => options.run host

/-! ## The program -/

def versionText : String := "cnfkit 0.1.0\n"

def helpText : String :=
  "Usage:\n" ++
  "  cnfkit generate GRAMMAR START STEPS POSITIVE NEGATIVE [--max-length N] [--separator S]\n" ++
  "    [--parallel] [--declared]\n" ++
  "  cnfkit parse GRAMMAR [INPUT...] [--start SYMBOL] [--declared]\n" ++
  "  cnfkit sample GRAMMAR [--start SYMBOL] [--amount N] [--max-depth N] [--seed N]\n" ++
  "    [--separator S] [--declared]\n"

def run (host : Host m) (args : List String) : m Outcome :=
  match Command.ofArguments args with
  | .ok command => command.run host
  | .error .help => return .succeed helpText
  | .error .version => return .succeed versionText
  | .error .mistake => return ⟨.mistake, "", helpText⟩

end Chomsky.CommandLine
