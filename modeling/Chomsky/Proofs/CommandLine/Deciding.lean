import Chomsky.Proofs.CommandLine.Generating
import Chomsky.Proofs.CommandLine.Requests
import Chomsky.Proofs.Text.Lines

/-!
# Deciding arguments and lines

Inputs are decided as they stand among the arguments or, if there are none, as the lines of the standard
input. The two ways meet in the answers that are printed:

* **`decodeLines_map_encode_append`**: lines that are text are read one after the other, whatever
  comes behind them. So what is answered does not depend on what is still to come, and stays answered when
  a later line turns out to be no text.
* **`run_of_arguments`**, **`run_of_input`**: what a request comes to in either way, once the grammar is
  read.
* **`arguments_eq_lines_and_stops_before_bad_line`**: inputs that are written on lines of their own, with
  either line ending, are answered like inputs that are given as arguments; a line that is no text ends the
  run after the answers to the lines before it.
-/

namespace Chomsky.CommandLine

open Text (encode OnLines byteLines)

/-! ## Reading lines as texts -/

theorem fromUTF8?_encode (text : String) : String.fromUTF8? ⟨(encode text).toArray⟩ = some text := by
  have hbytes : (⟨(encode text).toArray⟩ : ByteArray) = text.toByteArray := by
    rw [encode, Text.toList_eq_data_toList]
    rfl
  rw [hbytes, String.fromUTF8?, dif_pos text.isValidUTF8]
  rfl

/-- Bytes that are not the encoding of any text are not read. -/
theorem fromUTF8?_eq_none {line : List UInt8} (h : ∀ text, encode text ≠ line) :
    String.fromUTF8? ⟨line.toArray⟩ = none := by
  unfold String.fromUTF8?
  rw [dif_neg]
  intro hvalid
  apply h (String.fromUTF8 ⟨line.toArray⟩ hvalid)
  rw [encode, Text.toList_eq_data_toList]
  rfl

/-- **Lines that are text are read, whatever comes behind them.** -/
theorem decodeLines_map_encode_append (texts : List String) (rest : List (List UInt8)) :
    decodeLines (texts.map encode ++ rest) =
      (texts ++ (decodeLines rest).1, (decodeLines rest).2) := by
  induction texts with
  | nil => rfl
  | cons text texts ih =>
    rw [List.map_cons, List.cons_append, decodeLines, fromUTF8?_encode, ih]
    rfl

/-- Of lines not all of which are text there is a first one that is not. -/
theorem exists_first_bad_line {lines : List (List UInt8)}
    (h : ∃ line ∈ lines, ∀ text, encode text ≠ line) :
    ∃ (texts : List String) (bad : List UInt8) (rest : List (List UInt8)),
      lines = texts.map encode ++ bad :: rest ∧ ∀ text, encode text ≠ bad := by
  induction lines with
  | nil => simp at h
  | cons line rest ih =>
    by_cases htext : ∃ text, encode text = line
    · obtain ⟨text, rfl⟩ := htext
      obtain ⟨bad, hmem, hbad⟩ := h
      -- the line that is no text is not the first one, which is
      have hrest : bad ∈ rest := (List.mem_cons.mp hmem).resolve_left fun heq => hbad text heq.symm
      obtain ⟨texts, first, more, rfl, hfirst⟩ := ih ⟨bad, hrest, hbad⟩
      exact ⟨text :: texts, first, more, rfl, hfirst⟩
    · exact ⟨[], line, rest, rfl, not_exists.mp htext⟩

theorem decideInput_of_texts (r : Recogniser) {input : ByteArray} {texts : List String}
    (h : byteLines input.toList = texts.map encode) :
    decideInput r input = .succeed (verdictLines r texts) := by
  have hread : decodeLines (byteLines input.toList) = (texts, true) := by
    rw [h, ← List.append_nil (texts.map encode), decodeLines_map_encode_append]
    simp [decodeLines]
  unfold decideInput
  rw [hread]

theorem decideInput_of_bad_line (r : Recogniser) {input : ByteArray} {texts : List String}
    {bad : List UInt8} {rest : List (List UInt8)}
    (h : byteLines input.toList = texts.map encode ++ bad :: rest)
    (hbad : ∀ text, encode text ≠ bad) :
    decideInput r input = .fail (verdictLines r texts) FileFault.notText.reason := by
  have hread : decodeLines (byteLines input.toList) = (texts, false) := by
    rw [h, decodeLines_map_encode_append, decodeLines, fromUTF8?_eq_none hbad]
    simp
  unfold decideInput
  rw [hread]

/-! ## The two ways to run -/

variable {machine : Machine} {seed : UInt64} {options : Decide} {g : Grammar}

/-- The machine with other bytes to be read from the standard input. -/
def Machine.withInput (machine : Machine) (input : ByteArray) : Machine :=
  { machine with input := input }

/-- What does not stand in the standard input is read the same whatever stands there. -/
theorem exists_readFile_run_withInput {path : Path} (h : machine.device? path ≠ some .input) :
    ∃ content, ∀ input, (Machine.readFile path).run (machine.withInput input) =
      (content, machine.withInput input) := by
  have hdevice : ∀ input, (machine.withInput input).device? path = machine.device? path := fun _ => rfl
  have hdisk : ∀ input, (machine.withInput input).disk = machine.disk := fun _ => rfl
  cases hread : machine.disk.read path with
  | error fault =>
    refine ⟨.error fault, fun input => ?_⟩
    simp [Machine.readFile, StateT.run, hdisk, hread]
  | ok content =>
    cases hd : machine.device? path with
    | none =>
      refine ⟨.ok content, fun input => ?_⟩
      simp [Machine.readFile, StateT.run, hdisk, hdevice, hread, hd]
    | some device =>
      refine ⟨.ok .empty, fun input => ?_⟩
      cases device with
      | input => exact absurd hd h
      | null => simp [Machine.readFile, StateT.run, hdisk, hdevice, hread, hd]
      | output => simp [Machine.readFile, StateT.run, hdisk, hdevice, hread, hd]
      | errors => simp [Machine.readFile, StateT.run, hdisk, hdevice, hread, hd]

/-- A grammar that is not itself read from the standard input is the same whatever stands there, and all
of it still stands there afterwards. -/
theorem loadGrammar_run_withInput {path : String} {convention : Convention}
    (h : machine.device? (.ofText path) ≠ some .input)
    (hload : (((Machine.host seed).loadGrammar path convention).run machine).1 = .ok g)
    (input : ByteArray) :
    ((Machine.host seed).loadGrammar path convention).run (machine.withInput input) =
      (.ok g, machine.withInput input) := by
  obtain ⟨content, hcontent⟩ := exists_readFile_run_withInput h
  have hread : ∀ input, ((Machine.host seed).readFile path).run (machine.withInput input) =
      (content, machine.withInput input) := hcontent
  have hown : machine = machine.withInput machine.input := rfl
  unfold Host.loadGrammar at hload ⊢
  rw [hown, run_bind_of_run_eq (hread machine.input)] at hload
  rw [run_bind_of_run_eq (hread input)]
  cases content with
  | error fault => exact absurd hload nofun
  | ok bytes =>
    have hgrammar : grammarOfContent path convention bytes = .ok g := hload
    show (grammarOfContent path convention bytes, machine.withInput input) = _
    rw [hgrammar]

/-- No grammar is read from the empty path. -/
theorem ne_empty_of_load {path : String} {convention : Convention}
    (hload : (((Machine.host seed).loadGrammar path convention).run machine).1 = .ok g) :
    path ≠ "" := by
  intro hempty
  subst hempty
  have hmissing : machine.disk.read (.ofText "") = .error .missing := by
    have hresolve : machine.disk.resolve (.ofText "") = .error .missing := rfl
    rw [Disk.read, hresolve]
  have hread : ((Machine.host seed).readFile "").run machine = (.error .missing, machine) := by
    show Machine.readFile (.ofText "") machine = _
    rw [Machine.readFile, hmissing]
  unfold Host.loadGrammar at hload
  rw [run_bind_of_run_eq hread] at hload
  have hfailed : ∀ message, (.error message : Except String Grammar) ≠ .ok g := by simp
  exact hfailed _ hload

section Runs

variable (hgrammar : machine.device? (.ofText options.grammar) ≠ some .input)
  (hload : (((Machine.host seed).loadGrammar options.grammar options.convention).run machine).1 = .ok g)

include hgrammar hload

theorem run_of_arguments (hinputs : options.inputs ≠ []) :
    (options.run (Machine.host seed)).run machine =
      (.succeed (verdictLines (.ofGrammar g options.start) options.inputs), machine) := by
  have hread := loadGrammar_run_withInput hgrammar hload machine.input
  have hown : machine = machine.withInput machine.input := rfl
  rw [← hown] at hread
  unfold Decide.run
  rw [run_bind_of_run_eq hread]
  obtain ⟨first, rest, hcons⟩ := List.exists_cons_of_ne_nil hinputs
  simp only [hcons]
  rfl

theorem run_of_input (input : ByteArray) :
    (({ options with inputs := [] } : Decide).run (Machine.host seed)).run
        (machine.withInput input) =
      (decideInput (.ofGrammar g options.start) input, machine.withInput .empty) := by
  unfold Decide.run
  rw [run_bind_of_run_eq (loadGrammar_run_withInput hgrammar hload input)]
  rfl

end Runs

/-! ## The two ways agree -/

/-- **Inputs are answered alike among the arguments and on lines, up to the first line that is no text.**
The grammar is any that can be read, from anywhere but the standard input itself. Any inputs can be given
as arguments. If they are written on lines instead, each with either ending, the run prints the same and
ends in the same way. If some line is no text, exactly the lines before the first such line are answered,
and the run fails. -/
theorem arguments_eq_lines_and_stops_before_bad_line (machine : Machine) (seed : UInt64) (g : Grammar)
    (options : Decide) (hgrammar : machine.device? (.ofText options.grammar) ≠ some .input)
    (hload : (((Machine.host seed).loadGrammar options.grammar options.convention).run machine).1 =
      .ok g) :
    (∀ inputs, ∃ args, Command.ofArguments args = .ok (.decide { options with inputs := inputs })) ∧
    ∀ args args', Command.ofArguments args = .ok (.decide options) →
      Command.ofArguments args' = .ok (.decide { options with inputs := [] }) →
      let answers := fun inputs =>
        machine.output ++ verdictLines (.ofGrammar g options.start) inputs
      let given := (machine.run seed args).1
      let typed := fun input => ((machine.withInput input).run seed args').1
      (options.inputs ≠ [] →
        (∀ x ∈ options.inputs, '\n' ∉ x.toList ∧ x.toList.getLast? ≠ some '\r') →
        ∀ text, OnLines options.inputs text →
          given = typed text.toUTF8 ∧ given.status = .success ∧
            given.output = answers options.inputs) ∧
      (∀ input : ByteArray, (∃ line ∈ byteLines input.toList, ∀ text, encode text ≠ line) →
        ∃ (texts : List String) (bad : List UInt8) (rest : List (List UInt8)),
          byteLines input.toList = texts.map encode ++ bad :: rest ∧
          (∀ text, encode text ≠ bad) ∧ (typed input).status = .failure ∧
          (typed input).output = answers texts) := by
  have hexpressible : ∀ inputs, (Command.decide { options with inputs := inputs }).Expressible :=
    fun _ => ⟨ne_empty_of_load hload⟩
  refine ⟨fun inputs => ⟨_, Command.ofArguments_arguments (hexpressible inputs)⟩, ?_⟩
  intro args args' hargs hargs' answers given typed
  -- what is printed for lines is what is made of them, after the same beginning
  have htyped : ∀ input, typed input =
      let outcome := decideInput (.ofGrammar g options.start) input
      ⟨outcome.status, machine.output ++ outcome.output, machine.errors ++ outcome.errors⟩ := by
    intro input
    show ((machine.withInput input).run seed args').1 = _
    rw [run_of_command hargs' (run_of_input hgrammar hload input)]
    rfl
  constructor
  · intro hinputs hfree text hlines
    have hbytes : byteLines text.toUTF8.toList = options.inputs.map encode :=
      Text.byteLines_of_onLines hlines hfree
    have hgiven : given = ⟨.success, answers options.inputs, machine.errors ++ ""⟩ := by
      show (machine.run seed args).1 = _
      rw [run_of_command hargs (run_of_arguments hgrammar hload hinputs)]
      rfl
    refine ⟨?_, by rw [hgiven], by rw [hgiven]⟩
    rw [hgiven, htyped, decideInput_of_texts _ hbytes]
    rfl
  · intro input hbad
    obtain ⟨texts, bad, rest, hlines, hfirst⟩ := exists_first_bad_line hbad
    refine ⟨texts, bad, rest, hlines, hfirst, ?_⟩
    rw [htyped, decideInput_of_bad_line _ hlines hfirst]
    exact ⟨rfl, rfl⟩

/-- Three inputs, one of them empty and one that looks like an option, decided in both ways; and lines of
which the second is no text. -/
theorem arguments_eq_lines_in_workshop :
    let options : Decide := ⟨"ab.cnf", ["a b", "", "-b a"], "S", .uppercase⟩
    let g := Grammar.ofRules [⟨"S", .binary "A" "B"⟩, ⟨"A", .unary "a"⟩, ⟨"B", .unary "b"⟩]
    let typed := fun input => ((workshop.withInput input).run 0 ["parse", "ab.cnf"]).1
    let input : ByteArray := ⟨#[97, 32, 98, 10, 255, 10, 97]⟩
    (workshop.run 0 options.arguments).1 = typed "a b\r\n\n-b a".toUTF8 ∧
    (workshop.run 0 options.arguments).1.output = "true\ta b\nfalse\t\nfalse\t-b a\n" ∧
    (typed input).status = .failure ∧
    ∃ (texts : List String) (bad : List UInt8) (rest : List (List UInt8)),
      [[97, 32, 98], [255], [97]] = texts.map encode ++ bad :: rest ∧ (∀ text, encode text ≠ bad) ∧
        (typed input).output = verdictLines (.ofGrammar g "S") texts := by
  intro options g typed input
  have hload : (((Machine.host 0).loadGrammar "ab.cnf" .uppercase).run workshop).1 = .ok g := rfl
  have hdevice : workshop.device? (.ofText "ab.cnf") = none := rfl
  have hgrammar : workshop.device? (.ofText "ab.cnf") ≠ some .input := by simp [hdevice]
  have hfree : ∀ x ∈ options.inputs, '\n' ∉ x.toList ∧ x.toList.getLast? ≠ some '\r' := by decide
  have hlast : OnLines ["-b a"] "-b a" := .unended (by decide)
  have hempty : OnLines ["", "-b a"] ("" ++ "\n" ++ "-b a") := .lf hlast
  have hlines : OnLines options.inputs ("a b" ++ "\r\n" ++ ("" ++ "\n" ++ "-b a")) := .crlf hempty
  have hcut : byteLines input.toList = [[97, 32, 98], [255], [97]] := by decide +kernel
  have hbad : ∀ text, encode text ≠ [255] := by
    intro text htext
    have hread := fromUTF8?_encode text
    rw [htext] at hread
    have hnone : String.fromUTF8? ⟨[255].toArray⟩ = none := by decide +kernel
    exact absurd (hnone.symm.trans hread) nofun
  have hmem : ∃ line ∈ byteLines input.toList, ∀ text, encode text ≠ line :=
    ⟨[255], by rw [hcut]; decide, hbad⟩
  obtain ⟨-, hboth⟩ :=
    arguments_eq_lines_and_stops_before_bad_line workshop 0 g options hgrammar hload
  have hexpressible : (Command.decide options).Expressible := ⟨by decide⟩
  obtain ⟨halike, hstops⟩ :=
    hboth options.arguments ["parse", "ab.cnf"] (Command.ofArguments_arguments hexpressible) rfl
  obtain ⟨heq, -, houtput⟩ := halike (by decide) hfree _ hlines
  obtain ⟨texts, bad, rest, hdecomposed, hfirst, hstatus, hprinted⟩ := hstops input hmem
  have hanswers : verdictLines (.ofGrammar g "S") options.inputs =
      "true\ta b\nfalse\t\nfalse\t-b a\n" := by decide +kernel
  have hnothing : ∀ lines, workshop.output ++ lines = lines := fun _ => String.empty_append
  rw [hcut] at hdecomposed
  exact ⟨heq, houtput.trans ((hnothing _).trans hanswers), hstatus, texts, bad, rest, hdecomposed,
    hfirst, hprinted.trans (hnothing _)⟩

end Chomsky.CommandLine
