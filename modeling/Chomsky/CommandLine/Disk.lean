import Chomsky.CommandLine.Run

/-!
# A model of a disk

At every *place* of a disk, named by the parts that lead to it from the top, stands nothing, a file
or a directory. A *path* leads to a place part by part, from the top or from the working directory:
a single dot stays, two dots go back up, and all that a path leads through has to be a directory.
So a path through a missing directory leads nowhere, even where two dots would take it back. A place
can be a *link*: a path that comes to it goes on from another place.

A file can be written where a file stands, or where nothing stands in a directory, unless the disk
refuses to write there; a write that fails changes nothing. A path that ends in a slash means a
directory, so no file is read or written by it.
-/

namespace Chomsky.CommandLine

/-! ## Paths -/

/-- A way to a place. -/
structure Path where
  /-- Whether the way starts at the top of the disk, and not at the working directory. -/
  absolute : Bool
  parts : List String
  closed : Bool
  deriving DecidableEq, Repr

/-- The path that a text names. Slashes in a row part no more than one slash does. -/
def Path.ofText (text : String) : Path where
  absolute := text.toList.head? == some '/'
  parts := ((text.toList.splitOn '/').map String.ofList).filter (· ≠ "")
  closed := text.toList.getLast? == some '/'

/-- Where something stands: the names that lead there from the top of the disk. -/
abbrev Place := List String

/-- The place that one part leads to. There is nothing above the top. -/
def Place.next (place : Place) (part : String) : Place :=
  if part = "." then place else if part = ".." then place.dropLast else place ++ [part]

/-! ## Disks -/

inductive Entry where
  | absent
  | file (content : ByteArray)
  | directory

/-- All that stands anywhere, and the directory in which a program is run. -/
structure Disk where
  entry : Place → Entry
  /-- The links and the places that they lead to. No link leads to a link. -/
  links : List (Place × Place)
  workingDirectory : Place
  /-- The places where nothing is written, and what is said when it is tried. -/
  refusals : List (Place × String) := []

namespace Disk

/-- The disk with something else at one place. -/
def put (disk : Disk) (place : Place) (entry : Entry) : Disk :=
  { disk with entry := fun other => if other = place then entry else disk.entry other }

/-- The place from which a path goes on that has come to a place. -/
def follow (disk : Disk) (place : Place) : Place :=
  (disk.links.lookup place).getD place

def origin (disk : Disk) (path : Path) : Place :=
  if path.absolute then [] else disk.workingDirectory

/-- The disk with a file that a path leads to, and with the directories on the way. -/
def install (disk : Disk) (path : Path) (content : ByteArray) : Disk :=
  let (disk, place) := path.parts.foldl
    (fun (disk, place) part => (disk.put place .directory, disk.follow (place.next part)))
    (disk, disk.origin path)
  disk.put place (.file content)

/-! ## Finding one's way -/

/-- Goes one part further from a place, which has to be a directory. -/
def enter (disk : Disk) (place : Place) (part : String) : Except FileFault Place :=
  match disk.entry place with
  | .absent => .error .missing
  | .file _ => .error .notDirectory
  | .directory => .ok (disk.follow (place.next part))

/-- The place that a path leads to. The empty path leads nowhere. -/
def resolve (disk : Disk) (path : Path) : Except FileFault Place :=
  if path.parts.isEmpty && !path.absolute then .error .missing
  else path.parts.foldlM disk.enter (disk.origin path)

/-! ## Reading and writing -/

def read (disk : Disk) (path : Path) : Except FileFault ByteArray :=
  match disk.resolve path with
  | .error fault => .error fault
  | .ok place =>
    match disk.entry place with
    | .absent => .error .missing
    | .file content => if path.closed then .error .notDirectory else .ok content
    | .directory => .error .directory

/-- The place where a file can be written. -/
def target (disk : Disk) (path : Path) : Except FileFault Place :=
  match disk.resolve path with
  | .error fault => .error fault
  | .ok place =>
    match disk.entry place with
    | .directory => .error .directory
    | _ =>
      if path.closed then .error .directory
      else
        match disk.refusals.lookup place with
        | some reason => .error (.other reason)
        | none => .ok place

/-- The disk after a file was written. -/
def write (disk : Disk) (path : Path) (text : String) : Except FileFault Disk :=
  (disk.target path).map fun place => disk.put place (.file text.toUTF8)

/-! ## What a write leaves -/

@[simp] theorem entry_put_self (disk : Disk) (place : Place) (entry : Entry) :
    (disk.put place entry).entry place = entry := by
  simp [put]

@[simp] theorem entry_put_of_ne (disk : Disk) {place other : Place} (entry : Entry) (h : other ≠ place) :
    (disk.put place entry).entry other = disk.entry other := by
  simp [put, h]

/-- A file where no directory stood is in no path's way. -/
theorem foldlM_enter_put {disk : Disk} {place : Place} (content : ByteArray)
    (h : disk.entry place ≠ .directory) (parts : List String) {start stop : Place}
    (hs : parts.foldlM disk.enter start = .ok stop) :
    parts.foldlM (disk.put place (.file content)).enter start = .ok stop := by
  induction parts generalizing start with
  | nil => exact hs
  | cons part rest ih =>
    rw [List.foldlM_cons] at hs ⊢
    cases hd : disk.entry start with
    | absent => simp [enter, hd, bind, Except.bind] at hs
    | file => simp [enter, hd, bind, Except.bind] at hs
    | directory =>
      have hne : start ≠ place := fun he => h (he ▸ hd)
      simp only [enter, hd, entry_put_of_ne disk _ hne, bind, Except.bind] at hs ⊢
      exact ih hs

/-- What a path leads to stays where it is when a file is written. -/
theorem resolve_put {disk : Disk} {place : Place} (content : ByteArray)
    (h : disk.entry place ≠ .directory) {path : Path} {stop : Place}
    (hs : disk.resolve path = .ok stop) :
    (disk.put place (.file content)).resolve path = .ok stop := by
  unfold resolve at hs ⊢
  split at hs
  · simp at hs
  · rw [if_neg ‹_›]
    exact foldlM_enter_put content h _ hs

/-- A file can be written exactly where a path leads without a slash at its end, no directory stands
and nothing is refused. -/
theorem target_eq_ok_iff {disk : Disk} {path : Path} {place : Place} :
    disk.target path = .ok place ↔
      disk.resolve path = .ok place ∧ disk.entry place ≠ .directory ∧ path.closed = false ∧
        disk.refusals.lookup place = none := by
  unfold target
  cases disk.resolve path with
  | error => simp
  | ok stop => cases he : disk.entry stop <;> grind

end Disk

end Chomsky.CommandLine
