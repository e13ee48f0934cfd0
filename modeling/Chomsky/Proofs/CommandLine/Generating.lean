import Chomsky.Proofs.CommandLine.Files

/-!
# Writing sample files

A request for sample files reads one file and writes two, and any of the three can fail. What stands on
the machine afterwards is said for each way in which the request can end:

* **`run_of_no_grammar`**, **`run_of_first_unwritable`**, **`run_of_second_unwritable`** and
  **`run_of_both_written`**: the outcome of a run and the machine that it leaves, exactly.
* **`HasSample`**: a file holds the lines of a sample, each ended, in ascending order.
  `hasSample_holding` says what a path reads after a sample was written where any path leads.
* **`generate_changes_only_outputs`**: a request that fails has written nothing but, at most, the positive
  sample, and one that succeeds nothing but the two samples.

Nothing is demanded of the three paths. They may lead to one place: the samples are those of the grammar
that stood there before the run, and the negative one, written last, remains.
-/

namespace Chomsky.CommandLine

variable {machine : Machine} {seed : UInt64} {options : Generate}

/-! ## The ways in which a request can end -/

/-- The paths of a request lead to no device. -/
structure Generate.AvoidsDevices (options : Generate) (machine : Machine) : Prop where
  grammar : machine.device? (.ofText options.grammar) = none
  positive : machine.device? (.ofText options.positive) = none
  negative : machine.device? (.ofText options.negative) = none

/-- On a machine without devices no path leads to one. -/
theorem Generate.AvoidsDevices.of_devices_nil (h : machine.devices = []) :
    options.AvoidsDevices machine where
  grammar := Machine.device?_of_devices_nil h _
  positive := Machine.device?_of_devices_nil h _
  negative := Machine.device?_of_devices_nil h _

/-- The content of the positive file. -/
def Generate.positiveText (options : Generate) (g : Grammar) : String :=
  Samples.render (options.samples g).positive

/-- The content of the negative file. -/
def Generate.negativeText (options : Generate) (g : Grammar) : String :=
  Samples.render (options.samples g).negative

section Runs

variable (hfiles : options.AvoidsDevices machine) {g : Grammar} {place other : Place}
  {fault : FileFault}

include hfiles

theorem run_of_no_grammar (seed : UInt64)
    (h : ∀ g, ¬machine.disk.HasGrammar options.grammar options.convention g) :
    ∃ message, (options.run (Machine.host seed)).run machine = (.fail "" message, machine) := by
  obtain ⟨loaded, hload, hiff⟩ := exists_loadGrammar_run seed options.convention hfiles.grammar
  unfold Generate.run
  rw [run_bind_of_run_eq hload]
  cases loaded with
  | error message => exact ⟨message, rfl⟩
  | ok g => exact absurd ((hiff g).mp rfl) (h g)

variable (hgrammar : machine.disk.HasGrammar options.grammar options.convention g)

include hgrammar

/-- A run that has read the grammar is its two writes. -/
theorem run_of_grammar :
    (options.run (Machine.host seed)).run machine =
      StateT.run (do
        match ← (Machine.host seed).writeFile options.positive (options.positiveText g) with
        | .error fault => return .fail "" (fault.render options.positive)
        | .ok () =>
          match ← (Machine.host seed).writeFile options.negative (options.negativeText g) with
          | .error fault => return .fail "" (fault.render options.negative)
          | .ok () => return .succeed "") machine := by
  obtain ⟨loaded, hload, hiff⟩ := exists_loadGrammar_run seed options.convention hfiles.grammar
  have hloaded : loaded = .ok g := (hiff g).mpr hgrammar
  unfold Generate.run
  rw [run_bind_of_run_eq hload, hloaded]
  rfl

theorem run_of_first_unwritable
    (hfirst : machine.disk.target (.ofText options.positive) = .error fault) :
    (options.run (Machine.host seed)).run machine =
      (.fail "" (fault.render options.positive), machine) := by
  have hwrite : ((Machine.host seed).writeFile options.positive (options.positiveText g)).run
      machine = (.error fault, machine) := Machine.writeFile_of_target_error _ hfirst
  rw [run_of_grammar hfiles hgrammar, run_bind_of_run_eq hwrite]
  rfl

variable (hfirst : machine.disk.target (.ofText options.positive) = .ok place)

include hfirst

/-- A run that has written the positive sample is its second write. -/
theorem run_of_first_written :
    (options.run (Machine.host seed)).run machine =
      StateT.run (do
        match ← (Machine.host seed).writeFile options.negative (options.negativeText g) with
        | .error fault => return .fail "" (fault.render options.negative)
        | .ok () => return .succeed "") (machine.holding place (options.positiveText g)) := by
  have hwrite : ((Machine.host seed).writeFile options.positive (options.positiveText g)).run
      machine = (.ok (), machine.holding place (options.positiveText g)) :=
    Machine.writeFile_of_target_ok hfiles.positive _ hfirst
  rw [run_of_grammar hfiles hgrammar, run_bind_of_run_eq hwrite]

theorem run_of_second_unwritable
    (hsecond : (machine.holding place (options.positiveText g)).disk.target
      (.ofText options.negative) = .error fault) :
    (options.run (Machine.host seed)).run machine =
      (.fail "" (fault.render options.negative),
        machine.holding place (options.positiveText g)) := by
  have hwrite : ((Machine.host seed).writeFile options.negative (options.negativeText g)).run
      (machine.holding place (options.positiveText g)) =
        (.error fault, machine.holding place (options.positiveText g)) :=
    Machine.writeFile_of_target_error _ hsecond
  rw [run_of_first_written hfiles hgrammar hfirst, run_bind_of_run_eq hwrite]
  rfl

theorem run_of_both_written
    (hsecond : (machine.holding place (options.positiveText g)).disk.target
      (.ofText options.negative) = .ok other) :
    (options.run (Machine.host seed)).run machine =
      (.succeed "", (machine.holding place (options.positiveText g)).holding other
        (options.negativeText g)) := by
  have hplace : machine.disk.entry place ≠ .directory := (Disk.target_eq_ok_iff.mp hfirst).2.1
  -- the first write has brought no device into the way of the second
  have hdevice := Machine.device?_holding hplace hfiles.negative (options.positiveText g)
  have hwrite : ((Machine.host seed).writeFile options.negative (options.negativeText g)).run
      (machine.holding place (options.positiveText g)) =
        (.ok (), (machine.holding place (options.positiveText g)).holding other
          (options.negativeText g)) :=
    Machine.writeFile_of_target_ok hdevice _ hsecond
  rw [run_of_first_written hfiles hgrammar hfirst, run_bind_of_run_eq hwrite]
  rfl

end Runs

/-- The program does what the request does. -/
theorem run_of_generate {args : List String}
    (hargs : Command.ofArguments args = .ok (.generate options)) {outcome : Outcome}
    {after : Machine} (hrun : (options.run (Machine.host seed)).run machine = (outcome, after)) :
    (machine.run seed args).1.status = outcome.status ∧ (machine.run seed args).2 = after := by
  rw [run_of_command hargs hrun]
  exact ⟨rfl, rfl⟩

/-! ## What the files hold -/

/-- A path leads to a file of the lines of a sample, each on its own and ended, in strictly ascending
order. -/
def Disk.HasSample (disk : Disk) (path : String) (texts : NameSet) : Prop :=
  ∃ lines : List String, lines.Pairwise (· < ·) ∧ (∀ line, line ∈ lines ↔ line ∈ texts) ∧
    disk.read (.ofText path) = .ok (String.join (lines.map (· ++ "\n"))).toUTF8

theorem hasSample_of_read {disk : Disk} {path : String} {texts : NameSet}
    (h : disk.read (.ofText path) = .ok (Samples.render texts).toUTF8) :
    disk.HasSample path texts := by
  refine ⟨texts.toList, ?_, fun line => Std.ExtTreeSet.mem_toList, h⟩
  refine (Std.ExtTreeSet.ordered_toList (t := texts)).imp fun {a b} hlt => ?_
  have hless : compareOfLessAndEq a b = .lt := hlt
  exact compareOfLessAndEq_eq_lt.mp hless

variable {path path' : String} {place place' : Place} {texts texts' : NameSet}

theorem hasSample_holding_self (h : machine.disk.target (.ofText path) = .ok place)
    (texts : NameSet) :
    (machine.holding place (Samples.render texts)).disk.HasSample path texts := by
  obtain ⟨hresolve, hplace, hopen, -⟩ := Disk.target_eq_ok_iff.mp h
  apply hasSample_of_read
  show (machine.disk.put place _).read _ = _
  rw [Disk.read_put hplace hresolve hopen, if_pos rfl]

/-- A file that held a sample holds it still after another was written, unless it was written there. -/
theorem hasSample_holding (h : machine.disk.target (.ofText path) = .ok place)
    (hsample : machine.disk.HasSample path texts)
    (h' : machine.disk.target (.ofText path') = .ok place') (texts' : NameSet) :
    (machine.holding place' (Samples.render texts')).disk.HasSample path
      (if place' = place then texts' else texts) := by
  by_cases hsame : place' = place
  · subst hsame
    rw [if_pos rfl]
    exact hasSample_holding_self h texts'
  · rw [if_neg hsame]
    obtain ⟨hresolve, -, hopen, -⟩ := Disk.target_eq_ok_iff.mp h
    obtain ⟨lines, hascending, hlines, hread⟩ := hsample
    refine ⟨lines, hascending, hlines, ?_⟩
    show (machine.disk.put place' _).read _ = _
    rw [Disk.read_put (Disk.target_eq_ok_iff.mp h').2.1 hresolve hopen, if_neg (Ne.symm hsame)]
    exact hread

/-- What could be written can be written again. -/
theorem target_holding_self (h : machine.disk.target (.ofText path) = .ok place) (text : String) :
    (machine.holding place text).disk.target (.ofText path) = .ok place := by
  obtain ⟨hresolve, hplace, hopen, hallowed⟩ := Disk.target_eq_ok_iff.mp h
  apply Disk.target_eq_ok_iff.mpr
  refine ⟨Disk.resolve_put _ hplace hresolve, ?_, hopen, hallowed⟩
  show (machine.disk.put place _).entry place ≠ _
  rw [Disk.entry_put_self]
  exact nofun

/-! ## What a request leaves -/

/-- **Only the outputs change, whatever fails.** Without a grammar to read, or with a positive file that
cannot be written, the run fails and the machine is as it was. Otherwise the positive file holds its
sample. If then the negative file cannot be written, the run fails and nothing else has changed; if it can,
the run succeeds, the negative file holds its sample, also if it is the positive file, and nothing else
has changed. Both samples are those of the grammar that stood on the disk before the run. -/
theorem generate_changes_only_outputs (machine : Machine) (seed : UInt64) (args : List String)
    (options : Generate) (hargs : Command.ofArguments args = .ok (.generate options))
    (hfiles : options.AvoidsDevices machine) :
    let status := (machine.run seed args).1.status
    let after := (machine.run seed args).2
    ((∀ g, ¬machine.disk.HasGrammar options.grammar options.convention g) →
      status = .failure ∧ after = machine) ∧
    ∀ g, machine.disk.HasGrammar options.grammar options.convention g →
      ((∀ place, machine.disk.target (.ofText options.positive) ≠ .ok place) →
        status = .failure ∧ after = machine) ∧
      ∀ place, machine.disk.target (.ofText options.positive) = .ok place →
        let samples := options.samples g
        let written := machine.holding place (Samples.render samples.positive)
        ((∀ place', written.disk.target (.ofText options.negative) ≠ .ok place') →
          status = .failure ∧ after.disk.HasSample options.positive samples.positive ∧
            machine.SameBut [place] after) ∧
        ∀ place', written.disk.target (.ofText options.negative) = .ok place' →
          status = .success ∧ after.disk.HasSample options.negative samples.negative ∧
            after.disk.HasSample options.positive
              (if place' = place then samples.negative else samples.positive) ∧
            machine.SameBut [place', place] after := by
  intro status after
  refine ⟨fun hnone => ?_, fun g hgrammar => ⟨fun hfirst => ?_, fun place hfirst => ?_⟩⟩
  · obtain ⟨message, hrun⟩ := run_of_no_grammar hfiles seed hnone
    exact run_of_generate hargs hrun
  · cases htarget : machine.disk.target (.ofText options.positive) with
    | ok place => exact absurd htarget (hfirst place)
    | error fault => exact run_of_generate hargs (run_of_first_unwritable hfiles hgrammar htarget)
  · intro samples written
    have hpositive : written.disk.HasSample options.positive samples.positive :=
      hasSample_holding_self hfirst samples.positive
    have hchanged : machine.SameBut [place] written := Machine.sameBut_holding machine place _
    constructor
    · intro hsecond
      cases htarget : written.disk.target (.ofText options.negative) with
      | ok place' => exact absurd htarget (hsecond place')
      | error fault =>
        obtain ⟨hstatus, hafter⟩ : status = .failure ∧ after = written :=
          run_of_generate hargs (run_of_second_unwritable hfiles hgrammar hfirst htarget)
        rw [hafter]
        exact ⟨hstatus, hpositive, hchanged⟩
    · intro place' hsecond
      obtain ⟨hstatus, hafter⟩ : status = .success ∧
          after = written.holding place' (Samples.render samples.negative) :=
        run_of_generate hargs (run_of_both_written hfiles hgrammar hfirst hsecond)
      have hagain : written.disk.target (.ofText options.positive) = .ok place :=
        target_holding_self hfirst _
      rw [hafter]
      exact ⟨hstatus, hasSample_holding_self hsecond samples.negative,
        hasSample_holding hagain hpositive hsecond samples.negative,
        hchanged.holding place' _⟩

/-- A machine on which a grammar was put where programs are run. -/
def workshop : Machine :=
  { Machine.fresh .empty with
    disk := (Machine.fresh .empty).disk.install (.ofText "ab.cnf") "S -> AB\nA -> a\nB -> b\n".toUTF8 }

/-- The same machine, on which nothing may be written to `n`. -/
def guardedWorkshop : Machine :=
  { workshop with
    disk := { workshop.disk with
      refusals := [(Machine.workingDirectory ++ ["n"], "Permission denied (os error 13)")] } }

/-- Three runs on one grammar. Into two files: each sample is found in its own. Then the positive sample
takes the place of the grammar that it was computed from, and the negative one, by another path to the
same file, the place of the positive one. Where the negative file is refused, the positive one is still
written. -/
theorem generate_in_workshop :
    let home := fun name => Machine.workingDirectory ++ [name]
    let args := fun positive negative =>
      ["generate", "ab.cnf", "S", "3", positive, negative, "--max-length", "1"]
    let request := fun positive negative =>
      (⟨"ab.cnf", "S", 3, positive, negative, 1, "", .leftmost, .uppercase⟩ : Generate)
    let g := Grammar.ofRules [⟨"S", .binary "A" "B"⟩, ⟨"A", .unary "a"⟩, ⟨"B", .unary "b"⟩]
    let apart := args "p" "n"
    let onto := args "ab.cnf" "/proc/self/cwd/ab.cnf"
    Command.ofArguments apart = .ok (.generate (request "p" "n")) ∧
    Command.ofArguments onto = .ok (.generate (request "ab.cnf" "/proc/self/cwd/ab.cnf")) ∧
    (request "p" "n").AvoidsDevices workshop ∧ (request "p" "n").AvoidsDevices guardedWorkshop ∧
    (request "ab.cnf" "/proc/self/cwd/ab.cnf").AvoidsDevices workshop ∧
    workshop.disk.HasGrammar "ab.cnf" .uppercase g ∧
    guardedWorkshop.disk.HasGrammar "ab.cnf" .uppercase g ∧
    ((workshop.run 0 apart).1.status = .success ∧
      (workshop.run 0 apart).2.disk.HasSample "p" (.ofList ["ab"]) ∧
      (workshop.run 0 apart).2.disk.HasSample "n" (.ofList ["a", "b"]) ∧
      workshop.SameBut [home "n", home "p"] (workshop.run 0 apart).2) ∧
    (workshop.disk.target (.ofText "ab.cnf") = .ok (home "ab.cnf") ∧
      workshop.disk.target (.ofText "/proc/self/cwd/ab.cnf") = .ok (home "ab.cnf") ∧
      (workshop.run 0 onto).1.status = .success ∧
      (workshop.run 0 onto).2.disk.HasSample "ab.cnf" (.ofList ["a", "b"]) ∧
      workshop.SameBut [home "ab.cnf", home "ab.cnf"] (workshop.run 0 onto).2) ∧
    (guardedWorkshop.run 0 apart).1.status = .failure ∧
      (guardedWorkshop.run 0 apart).2.disk.HasSample "p" (.ofList ["ab"]) ∧
      guardedWorkshop.SameBut [home "p"] (guardedWorkshop.run 0 apart).2 := by
  intro home args request g apart onto
  have happart : Command.ofArguments apart = .ok (.generate (request "p" "n")) := rfl
  have honto : Command.ofArguments onto =
      .ok (.generate (request "ab.cnf" "/proc/self/cwd/ab.cnf")) := rfl
  have hfiles : (request "p" "n").AvoidsDevices workshop := ⟨by decide, by decide, by decide⟩
  have hguarded : (request "p" "n").AvoidsDevices guardedWorkshop :=
    ⟨by decide, by decide, by decide⟩
  have hone : (request "ab.cnf" "/proc/self/cwd/ab.cnf").AvoidsDevices workshop :=
    ⟨by decide, by decide, by decide⟩
  have hgrammar : workshop.disk.HasGrammar "ab.cnf" .uppercase g :=
    ⟨_, "S -> AB\nA -> a\nB -> b\n", rfl, rfl, rfl⟩
  have hguardedGrammar : guardedWorkshop.disk.HasGrammar "ab.cnf" .uppercase g :=
    ⟨_, "S -> AB\nA -> a\nB -> b\n", rfl, rfl, rfl⟩
  have hsamples : (request "ab.cnf" "/proc/self/cwd/ab.cnf").samples g =
      (request "p" "n").samples g := rfl
  have hpositive : ((request "p" "n").samples g).positive = .ofList ["ab"] := by decide +kernel
  have hnegative : ((request "p" "n").samples g).negative = .ofList ["a", "b"] := by decide +kernel
  refine ⟨happart, honto, hfiles, hguarded, hone, hgrammar, hguardedGrammar, ?_, ?_, ?_⟩
  · -- two files
    obtain ⟨-, hread⟩ := generate_changes_only_outputs workshop 0 apart _ happart hfiles
    have htarget : workshop.disk.target (.ofText "p") = .ok (home "p") := rfl
    have htarget' : ∀ text, (workshop.holding (home "p") text).disk.target (.ofText "n") =
        .ok (home "n") := fun _ => rfl
    obtain ⟨-, hwritten⟩ := hread g hgrammar
    obtain ⟨-, hboth⟩ := hwritten (home "p") htarget
    obtain ⟨hstatus, hlast, hfirst, hsame⟩ := hboth (home "n") (htarget' _)
    rw [hnegative] at hlast
    rw [if_neg (by decide), hpositive] at hfirst
    exact ⟨hstatus, hfirst, hlast, hsame⟩
  · -- one file, by two paths
    obtain ⟨-, hread⟩ := generate_changes_only_outputs workshop 0 onto _ honto hone
    have htarget : workshop.disk.target (.ofText "ab.cnf") = .ok (home "ab.cnf") := rfl
    have htarget' : workshop.disk.target (.ofText "/proc/self/cwd/ab.cnf") =
        .ok (home "ab.cnf") := rfl
    obtain ⟨-, hwritten⟩ := hread g hgrammar
    obtain ⟨-, hboth⟩ := hwritten (home "ab.cnf") htarget
    obtain ⟨hstatus, -, hfirst, hsame⟩ := hboth (home "ab.cnf") (target_holding_self htarget' _)
    rw [if_pos rfl, hsamples, hnegative] at hfirst
    exact ⟨htarget, htarget', hstatus, hfirst, hsame⟩
  · -- the second file is refused
    obtain ⟨-, hread⟩ :=
      generate_changes_only_outputs guardedWorkshop 0 apart _ happart hguarded
    have htarget : guardedWorkshop.disk.target (.ofText "p") = .ok (home "p") := rfl
    have hrefusal : ∀ text, (guardedWorkshop.holding (home "p") text).disk.target (.ofText "n") =
        .error (.other "Permission denied (os error 13)") := fun _ => rfl
    obtain ⟨-, hwritten⟩ := hread g hguardedGrammar
    obtain ⟨hrefused, -⟩ := hwritten (home "p") htarget
    obtain ⟨hstatus, hfirst, hsame⟩ :=
      hrefused fun place' hplace => nomatch (hrefusal _).symm.trans hplace
    rw [hpositive] at hfirst
    exact ⟨hstatus, hfirst, hsame⟩

end Chomsky.CommandLine
