import Chomsky.CommandLine.Machine

/-!
# Files before and after a write

A path is followed part by part on the disk as it is, and a write changes the disk. That a write is
nevertheless only felt where it was made rests on one fact:

* **`Disk.resolve_put_eq_ok_iff`**: a file is written where no directory stood, so no path went
  through that place before and none does afterwards. Every path leads where it led.

From it follow what a path reads after a write (`Disk.read_put`), that no write brings a device into a
path's way (`Machine.device?_holding`), and what differs after one write and after two
(`sameBut_holding`, `SameBut.holding`).

Programs that run on a machine are followed step by step: **`run_bind_of_run_eq`** passes from one step
to the next, and **`exists_loadGrammar_run`** is the first step of every command, the reading of the
grammar, which leaves the machine as it was. `run_of_command` says what the program makes of a command.
-/

namespace Chomsky.CommandLine

/-! ## Where paths lead after a write -/

namespace Disk

variable {disk : Disk} {place stop : Place} {path : Path} {content : ByteArray}

/-- A way that leads past a file led there without the file. -/
theorem foldlM_enter_of_put (parts : List String) {start : Place}
    (h : parts.foldlM (disk.put place (.file content)).enter start = .ok stop) :
    parts.foldlM disk.enter start = .ok stop := by
  induction parts generalizing start with
  | nil => exact h
  | cons part rest ih =>
    rw [List.foldlM_cons] at h ⊢
    -- the way goes on from `start`, so no file stands there
    have hne : start ≠ place := by
      intro heq
      simp [enter, heq, bind, Except.bind] at h
    have hsame : (disk.put place (.file content)).enter start part = disk.enter start part := by
      unfold enter
      rw [entry_put_of_ne disk _ hne]
      rfl
    rw [hsame] at h
    cases henter : disk.enter start part with
    | error fault => simp [henter, bind, Except.bind] at h
    | ok next =>
      simp only [henter, bind, Except.bind] at h ⊢
      exact ih h

/-- **A file that is written where no directory stood moves no path.** -/
theorem resolve_put_eq_ok_iff (hplace : disk.entry place ≠ .directory) :
    (disk.put place (.file content)).resolve path = .ok stop ↔ disk.resolve path = .ok stop := by
  constructor
  · intro h
    unfold resolve at h ⊢
    split at h
    · simp at h
    · rw [if_neg ‹_›]
      exact foldlM_enter_of_put _ h
  · exact resolve_put content hplace

/-- A path reads what was written last at the place that it leads to. -/
theorem read_put (hplace : disk.entry place ≠ .directory) (hstop : disk.resolve path = .ok stop)
    (hopen : path.closed = false) :
    (disk.put place (.file content)).read path =
      if stop = place then .ok content else disk.read path := by
  have hresolve := resolve_put content hplace hstop
  unfold read
  rw [hresolve, hstop, hopen]
  by_cases hsame : stop = place
  · subst hsame
    simp
  · simp [hsame]

end Disk

/-! ## Writing on a machine -/

namespace Machine

variable {machine : Machine} {path : Path} {place : Place}

/-- The machine with a text as the file at a place. -/
def holding (machine : Machine) (place : Place) (text : String) : Machine :=
  { machine with disk := machine.disk.put place (.file text.toUTF8) }

theorem writeFile_of_target_error (text : String) {fault : FileFault}
    (htarget : machine.disk.target path = .error fault) :
    writeFile path text machine = (.error fault, machine) := by
  simp [writeFile, Disk.write, htarget, Except.map]

theorem writeFile_of_target_ok (h : machine.device? path = none) (text : String)
    (htarget : machine.disk.target path = .ok place) :
    writeFile path text machine = (.ok (), machine.holding place text) := by
  simp [writeFile, Disk.write, htarget, h, Except.map, holding]

theorem device?_eq_none_iff :
    machine.device? path = none ↔
      ∀ place, machine.disk.resolve path = .ok place → machine.devices.lookup place = none := by
  unfold device?
  cases machine.disk.resolve path with
  | error fault => simp
  | ok place => simp

theorem device?_holding (hplace : machine.disk.entry place ≠ .directory)
    (h : machine.device? path = none) (text : String) :
    (machine.holding place text).device? path = none := by
  rw [device?_eq_none_iff] at h ⊢
  intro stop hstop
  exact h stop ((Disk.resolve_put_eq_ok_iff hplace).mp hstop)

/-- The machines differ at most in what stands at the given places. -/
def SameBut (places : List Place) (before after : Machine) : Prop :=
  ∃ entry : Place → Entry, after = { before with disk := { before.disk with entry := entry } } ∧
    ∀ place, place ∉ places → entry place = before.disk.entry place

theorem SameBut.holding {before : Machine} {places : List Place} (h : before.SameBut places machine)
    (place : Place) (text : String) : before.SameBut (place :: places) (machine.holding place text) := by
  obtain ⟨entry, rfl, hentry⟩ := h
  refine ⟨_, rfl, fun other hother => ?_⟩
  have hne : other ≠ place := fun heq => hother (heq ▸ List.mem_cons_self)
  rw [if_neg hne]
  exact hentry other fun hmem => hother (List.mem_cons_of_mem place hmem)

theorem sameBut_holding (machine : Machine) (place : Place) (text : String) :
    machine.SameBut [place] (machine.holding place text) :=
  SameBut.holding ⟨machine.disk.entry, rfl, fun _ _ => rfl⟩ place text

end Machine

/-! ## Programs on a machine -/

variable {machine : Machine}

/-- A program goes on from the state that its first step has come to. -/
theorem run_bind_of_run_eq {α β : Type} {first : StateM Machine α} {next : α → StateM Machine β}
    {after : Machine} {a : α} (h : first.run machine = (a, after)) :
    (first >>= next).run machine = (next a).run after := by
  rw [StateT.run_bind, h]
  rfl

/-- A path leads to a file that is text, and the text is that of a grammar. -/
def Disk.HasGrammar (disk : Disk) (path : String) (convention : Convention) (g : Grammar) : Prop :=
  ∃ content text, disk.read (.ofText path) = .ok content ∧ String.fromUTF8? content = some text ∧
    Grammar.parse convention text = .ok g

variable {path : String}

theorem grammarOfContent_eq_ok_iff {convention : Convention} {content : ByteArray} {g : Grammar} :
    grammarOfContent path convention content = .ok g ↔
      ∃ text, String.fromUTF8? content = some text ∧ Grammar.parse convention text = .ok g := by
  unfold grammarOfContent
  cases String.fromUTF8? content with
  | none => simp
  | some text => cases hparse : Grammar.parse convention text <;> simp [hparse]

/-- **Reading the grammar leaves the machine as it was**, and succeeds where there is one. -/
theorem exists_loadGrammar_run (seed : UInt64) (convention : Convention)
    (h : machine.device? (.ofText path) = none) :
    ∃ loaded, ((Machine.host seed).loadGrammar path convention).run machine = (loaded, machine) ∧
      ∀ g, loaded = .ok g ↔ machine.disk.HasGrammar path convention g := by
  have hread : ((Machine.host seed).readFile path).run machine =
      (machine.disk.read (.ofText path), machine) := Machine.readFile_of_device?_eq_none h
  unfold Host.loadGrammar Disk.HasGrammar
  rw [run_bind_of_run_eq hread]
  cases hcontent : machine.disk.read (.ofText path) with
  | error fault => exact ⟨.error (fault.render path), rfl, fun g => by simp⟩
  | ok content =>
    refine ⟨grammarOfContent path convention content, rfl, fun g => ?_⟩
    rw [grammarOfContent_eq_ok_iff]
    simp

/-- The program does what the command does, and prints after what was written to the streams as files. -/
theorem run_of_command {seed : UInt64} {args : List String} {command : Command}
    (hargs : Command.ofArguments args = .ok command) {outcome : Outcome} {after : Machine}
    (hrun : (command.run (Machine.host seed)).run machine = (outcome, after)) :
    machine.run seed args = (⟨outcome.status, after.output ++ outcome.output,
      after.errors ++ outcome.errors⟩, after) := by
  have hcommand : CommandLine.run (Machine.host seed) args = command.run (Machine.host seed) := by
    unfold CommandLine.run
    rw [hargs]
  unfold Machine.run
  rw [hcommand, hrun]

end Chomsky.CommandLine
