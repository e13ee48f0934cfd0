import Chomsky.CommandLine.Value

/-!
# Options and positional arguments

A command has options, which may stand anywhere and are named, and positional arguments, which are
told apart by their order. Arguments are taken from left to right and each is judged at once, so of
two mistakes the first one ends the reading, and a request for help is granted only if no mistake
stands before it.

* `--name` sets a flag; `--name VALUE` and `--name=VALUE` give an option its value.
* `-n VALUE`, `-nVALUE` and `-n=VALUE` do so by a short name.
* A separate value must not look like an option: it is refused when it starts with a dash, unless
  it is the dash alone.
* After `--` every argument is positional.
* No option may be given twice.
-/

namespace Chomsky.CommandLine

/-- An option of a command. -/
structure Setting where
  long : String
  short : Option Char
  /-- What the value stands for; a flag has none. -/
  value : Option ValueKind

/-- What a command may be given. -/
structure Layout where
  options : List Setting
  /-- The positional arguments that must be given, in order. -/
  required : List ValueKind
  /-- What further positional arguments stand for, if they are allowed. -/
  further : Option ValueKind

/-- What a command was given. -/
structure Given where
  /-- The options by their long names, with their values; the value of a flag is empty. -/
  options : List (String × String)
  /-- The positional arguments in order. -/
  positional : List String

/-- Why the reading of arguments ended early. -/
inductive Stop where
  | help
  | version
  | mistake
  deriving DecidableEq, Repr

/-! ## The shape of one argument -/

/-- What an argument looks like. -/
inductive Shape where
  /-- The two dashes that end the options. -/
  | ending
  /-- A long name, and the value after its first equals sign. -/
  | long (name : String) (value : Option String)
  /-- A short name and the characters after it. -/
  | short (name : Char) (rest : List Char)
  | plain (text : String)

/-- The part before the first equals sign, and the part after it. -/
def splitEquals : List Char → List Char × Option (List Char)
  | [] => ([], none)
  | c :: rest =>
    if c = '=' then ([], some rest)
    else
      let (front, back) := splitEquals rest
      (c :: front, back)

def shapeOf (arg : String) : Shape :=
  match arg.toList with
  | ['-', '-'] => .ending
  | '-' :: '-' :: rest =>
    let (name, value) := splitEquals rest
    .long (String.ofList name) (value.map String.ofList)
  | '-' :: c :: rest => .short c rest
  | _ => .plain arg

/-- Whether an argument may stand as the separate value of an option. -/
def isPlain (arg : String) : Bool :=
  match shapeOf arg with
  | .plain _ => true
  | _ => false

namespace Given

def nothing : Given := ⟨[], []⟩

/-- The value of an option, when it was given. -/
def value? (given : Given) (long : String) : Option String :=
  given.options.lookup long

def has (given : Given) (long : String) : Bool :=
  (given.value? long).isSome

/-- Adds an option that was not given before and whose value is of its kind. -/
def addOption (given : Given) (setting : Setting) (value : String) : Except Stop Given :=
  if given.has setting.long then .error .mistake
  else if setting.value.all fun kind => kind.accepts value then
    .ok { given with options := given.options ++ [(setting.long, value)] }
  else .error .mistake

/-- The kind of the positional argument that comes next. -/
def nextKind (given : Given) (layout : Layout) : Option ValueKind :=
  layout.required[given.positional.length]?.or layout.further

/-- Adds a positional argument that has a place and is of its kind. -/
def addPositional (given : Given) (layout : Layout) (value : String) : Except Stop Given :=
  match given.nextKind layout with
  | none => .error .mistake
  | some kind =>
    if kind.accepts value then .ok { given with positional := given.positional ++ [value] }
    else .error .mistake

end Given

/-! ## Reading all arguments -/

/-- What reading one argument leads to. -/
inductive Progress where
  | done (given : Given)
  /-- The next argument is the value of this option. -/
  | awaiting (setting : Setting)

def readLong (layout : Layout) (given : Given) (name : String) (value : Option String) :
    Except Stop Progress :=
  if name = "help" then .error (if value.isSome then .mistake else .help)
  else match layout.options.find? (·.long = name), value with
    | none, _ => .error .mistake
    | some setting, some value =>
      if setting.value.isSome then (given.addOption setting value).map .done else .error .mistake
    | some setting, none =>
      if setting.value.isSome then
        if given.has setting.long then .error .mistake else .ok (.awaiting setting)
      else (given.addOption setting "").map .done

/-- Reads a short name. Only options with values have one, so the characters after it are the
value. -/
def readShort (layout : Layout) (given : Given) (name : Char) (rest : List Char) :
    Except Stop Progress :=
  if name = 'h' then .error .help
  else match layout.options.find? (·.short = some name), rest with
    | none, _ => .error .mistake
    | some setting, [] => if given.has setting.long then .error .mistake else .ok (.awaiting setting)
    | some setting, '=' :: value => (given.addOption setting (String.ofList value)).map .done
    | some setting, value => (given.addOption setting (String.ofList value)).map .done

def readPositional (layout : Layout) (given : Given) : List String → Except Stop Given
  | [] => .ok given
  | arg :: rest => do readPositional layout (← given.addPositional layout arg) rest

/-- Reads arguments, the first of which is the value of an option that awaits one. -/
def read (layout : Layout) (given : Given) : (awaiting : Option Setting) → List String →
    Except Stop Given
  | none, [] => .ok given
  | some _, [] => .error .mistake
  | some setting, arg :: rest =>
    if isPlain arg then do read layout (← given.addOption setting arg) none rest
    else .error .mistake
  | none, arg :: rest =>
    match shapeOf arg with
    | .ending => readPositional layout given rest
    | .plain value => do read layout (← given.addPositional layout value) none rest
    | .long name value => do
      match ← readLong layout given name value with
      | .done given => read layout given none rest
      | .awaiting setting => read layout given (some setting) rest
    | .short name value => do
      match ← readShort layout given name value with
      | .done given => read layout given none rest
      | .awaiting setting => read layout given (some setting) rest

/-- What a command was given, when all that it requires is there. -/
def Layout.read (layout : Layout) (args : List String) : Except Stop Given := do
  let given ← CommandLine.read layout .nothing none args
  if given.positional.length < layout.required.length then throw .mistake
  return given

end Chomsky.CommandLine
