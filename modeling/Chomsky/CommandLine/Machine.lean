import Chomsky.CommandLine.Disk

/-!
# A model of a machine

A machine is a disk with standard streams. Some places of the disk hold no content of their own but
stand for a *device*: what is read there comes from the standard input, and what is written there
goes to a standard stream or is lost. The standard input is read up once, whether it is read as a
file or as itself.

A machine on which nothing has been put yet has the standard directories, the devices, and a directory
in which the program is run.
-/

namespace Chomsky.CommandLine

/-! ## Devices -/

/-- What a place can stand for instead of a content. -/
inductive Device where
  /-- Keeps nothing. What is read from it, which may be without end, is left out: it reads as
  empty. -/
  | null
  | input
  | output
  | errors
  deriving DecidableEq, Repr

namespace Device

/-- The places where devices stand. The streams are the open files with the first numbers. -/
def places : List (Place × Device) :=
  ["null", "random", "urandom", "zero"].map (fun name => (["dev", name], .null)) ++
  [(["proc", "self", "fd", "0"], .input), (["proc", "self", "fd", "1"], .output),
    (["proc", "self", "fd", "2"], .errors)]

/-- Other ways to the streams. -/
def links : List (Place × Place) :=
  [(["dev", "fd"], ["proc", "self", "fd"]), (["dev", "stdin"], ["proc", "self", "fd", "0"]),
    (["dev", "stdout"], ["proc", "self", "fd", "1"]),
    (["dev", "stderr"], ["proc", "self", "fd", "2"])]

end Device

/-! ## Machines -/

/-- A disk and the standard streams. -/
structure Machine where
  disk : Disk
  devices : List (Place × Device)
  /-- What is still to be read from the standard input. -/
  input : ByteArray
  /-- What was written to the standard output as a file. -/
  output : String
  /-- What was written to the standard error stream as a file. -/
  errors : String

namespace Machine

/-- The directory in which a program is run. No part of a path is empty, so none names it: only
"where I am" leads to it from elsewhere. -/
def workingDirectory : Place := ["tmp", ""]

/-- The top, the directories of the standard hierarchy in it and in `usr` and `var`, those in which
devices stand, and the one in which a program is run. Nothing else stands in the standard ones; a path may
lead to them, and is then one that leads to no file. -/
def directories : List Place :=
  [] :: workingDirectory :: ["proc", "self"] :: ["proc", "self", "fd"] ::
    (["bin", "boot", "dev", "etc", "home", "lib", "media", "mnt", "opt", "proc", "root", "run", "sbin",
      "srv", "sys", "tmp", "usr", "var"].map ([·]) ++
    ["bin", "games", "include", "lib", "libexec", "local", "sbin", "share", "src"].map (["usr", ·]) ++
    ["cache", "lib", "local", "log", "mail", "opt", "spool", "tmp"].map (["var", ·]))

/-- A disk with places for devices. Paths lead to devices as they lead to files. -/
def deviceDisk : Disk where
  entry place :=
    if place ∈ directories then .directory
    else if (Device.places.lookup place).isSome then .file .empty
    else .absent
  links := (["proc", "self", "cwd"], workingDirectory) :: (["proc", "self", "root"], []) :: Device.links
  workingDirectory := workingDirectory

/-- A machine on which nothing has been run yet. -/
def fresh (input : ByteArray) : Machine where
  disk := deviceDisk
  devices := Device.places
  input := input
  output := ""
  errors := ""

/-- The device that a path leads to. -/
def device? (machine : Machine) (path : Path) : Option Device :=
  match machine.disk.resolve path with
  | .ok place => machine.devices.lookup place
  | .error _ => none

/-- Reads all that stands in the standard input. Nothing is left there. -/
def readInput : StateM Machine ByteArray :=
  fun machine => (machine.input, { machine with input := .empty })

/-- Reads what a path leads to. Nothing can be read from the streams that are written to. -/
def readFile (path : Path) : StateM Machine (Except FileFault ByteArray) := fun machine =>
  match machine.disk.read path with
  | .error fault => (.error fault, machine)
  | .ok content =>
    match machine.device? path with
    | none => (.ok content, machine)
    | some .input => (.ok machine.input, { machine with input := .empty })
    | some _ => (.ok .empty, machine)

/-- What a machine is after a text was written to a device. A stream takes the text after what it
took before. -/
def take (machine : Machine) (device : Device) (text : String) : Machine :=
  match device with
  | .output => { machine with output := machine.output ++ text }
  | .errors => { machine with errors := machine.errors ++ text }
  | .null | .input => machine

/-- Writes to what a path leads to. -/
def writeFile (path : Path) (text : String) : StateM Machine (Except FileFault Unit) :=
  fun machine =>
    match machine.disk.write path text with
    | .error fault => (.error fault, machine)
    | .ok disk =>
      match machine.device? path with
      | none => (.ok (), { machine with disk := disk })
      | some device => (.ok (), machine.take device text)

/-- The host that a machine makes, together with a seed. -/
def host (seed : UInt64) : Host (StateM Machine) where
  readFile path := readFile (.ofText path)
  writeFile path text := writeFile (.ofText path) text
  readInput := readInput
  freshSeed := pure seed

/-- Runs the program. What it printed follows what it wrote to the streams as files. -/
def run (machine : Machine) (seed : UInt64) (args : List String) : Outcome × Machine :=
  let (outcome, after) := (CommandLine.run (host seed) args).run machine
  (⟨outcome.status, after.output ++ outcome.output, after.errors ++ outcome.errors⟩, after)

/-! ## Where no device stands -/

theorem device?_of_devices_nil {machine : Machine} (h : machine.devices = []) (path : Path) :
    machine.device? path = none := by
  unfold device?
  cases machine.disk.resolve path with
  | error => rfl
  | ok place => rw [h]; rfl

/-- Where a path leads to no device, it reads the disk. -/
theorem readFile_of_device?_eq_none {machine : Machine} {path : Path}
    (h : machine.device? path = none) :
    readFile path machine = (machine.disk.read path, machine) := by
  unfold readFile
  rw [h]
  cases machine.disk.read path <;> rfl

end Machine

end Chomsky.CommandLine
