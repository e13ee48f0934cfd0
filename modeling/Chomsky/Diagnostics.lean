/-!
# Diagnostics

What the operations tell beside their results. A *fault* is a cause with a wording, and where it
happened is kept beside it: in a named file or in a text without a name, at a line counted from one.
Line zero stands for the source as a whole. A *notice* is a remark on the course of an operation that
succeeds. Notices are values: an operation that has something to tell has a companion that lists its
notices in order.
-/

namespace Chomsky

/-! ## Located faults -/

structure Location where
  file : Option String
  line : Nat
  deriving DecidableEq, Repr

namespace Location

def ofLine (line : Nat) : Location := ⟨none, line⟩

def ofFile (file : String) : Location := ⟨some file, 0⟩

def render : Location → String
  | ⟨some file, 0⟩ => file
  | ⟨some file, line⟩ => file ++ ":" ++ toString line
  | ⟨none, 0⟩ => "<input>"
  | ⟨none, line⟩ => "line " ++ toString line

end Location

/-- Causes that can be told to a user. -/
class Worded (ε : Type) where
  message : ε → String

/-- A cause and the place where it arose. -/
structure Located (ε : Type) where
  location : Location
  cause : ε
  deriving DecidableEq, Repr

namespace Located

variable {ε : Type}

/-- Names the file that the source was read from. The line stays. -/
def inFile (file : String) (fault : Located ε) : Located ε :=
  { fault with location := { fault.location with file := some file } }

/-- The text shown to a user: the place in brackets, in bold red, and the wording in bold. -/
def render [Worded ε] (fault : Located ε) : String :=
  "\x1b[31;49;1m[" ++ fault.location.render ++ "]\x1b[39;49;1m  " ++ Worded.message fault.cause ++
    "\x1b[0m"

end Located

/-! ## Notices -/

/-- How much a notice matters. -/
inductive Level where
  | warn | debug | trace
  deriving DecidableEq, Repr

/-- One remark. -/
structure Notice where
  level : Level
  message : String
  deriving DecidableEq, Repr

end Chomsky
