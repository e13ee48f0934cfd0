import Chomsky.CommandLine.Command
import Chomsky.Proofs.CommandLine.Arguments
import Chomsky.Proofs.CommandLine.Value

/-!
# Which requests can be made

A request is written down with all its options, those included that have their default value, and is
read back as it was written (`ofArguments_arguments`). So no option is ignored: whatever a request asks
for, some arguments ask for it.

**`exists_ofArguments_iff`** says which requests there are. The paths are not empty, since an empty
argument is no path, and the numbers fit into machine words; nothing else is required.
-/

namespace Chomsky.CommandLine

/-! ## The layouts -/

theorem generateLayout_sound : generateLayout.Sound := ⟨by decide, by decide, by decide⟩

theorem decideLayout_sound : decideLayout.Sound := ⟨by decide, by decide, by decide⟩

theorem sampleLayout_sound : sampleLayout.Sound := ⟨by decide, by decide, by decide⟩

/-! ## Requests as they are given -/

/-- The flag of the convention that is not the usual one. -/
def declaredGiven : Convention → List (String × String)
  | .uppercase => []
  | .declared => [("declared", "")]

def parallelGiven : Expansion → List (String × String)
  | .leftmost => []
  | .parallel => [("parallel", "")]

def seedGiven : Option Nat → List (String × String)
  | none => []
  | some seed => [("seed", seed.repr)]

def Generate.given (options : Generate) : Given where
  options := [("max-length", options.maxLength.repr), ("separator", options.separator)] ++
    (parallelGiven options.expansion ++ declaredGiven options.convention)
  positional :=
    [options.grammar, options.start, options.steps.repr, options.positive, options.negative]

def Decide.given (options : Decide) : Given where
  options := ("start", options.start) :: declaredGiven options.convention
  positional := options.grammar :: options.inputs

def Sample.given (options : Sample) : Given where
  options := [("start", options.start), ("amount", options.amount.repr),
      ("max-depth", options.maxDepth.repr), ("separator", options.separator)] ++
    (seedGiven options.seed ++ declaredGiven options.convention)
  positional := [options.grammar]

/-! ## Requests that can be made -/

structure Generate.Expressible (options : Generate) : Prop where
  grammar : options.grammar ≠ ""
  steps : options.steps ≤ Text.maxWord64
  positive : options.positive ≠ ""
  negative : options.negative ≠ ""
  maxLength : options.maxLength ≤ Text.maxWord64

structure Decide.Expressible (options : Decide) : Prop where
  grammar : options.grammar ≠ ""

structure Sample.Expressible (options : Sample) : Prop where
  grammar : options.grammar ≠ ""
  amount : options.amount ≤ Text.maxWord32
  maxDepth : options.maxDepth ≤ Text.maxWord64
  seed : ∀ seed ∈ options.seed, seed ≤ Text.maxWord64

/-! ## Requests are read back -/

open ValueKind

theorem declaredGiven_admits {layout : Layout} (h : declaredFlag ∈ layout.options)
    (convention : Convention) : ∀ option ∈ declaredGiven convention, layout.Admits option := by
  cases convention with
  | uppercase => exact fun _ hmem => absurd hmem List.not_mem_nil
  | declared =>
    rw [declaredGiven, List.forall_mem_singleton]
    exact ⟨declaredFlag, h, rfl, rfl⟩

theorem Given.countOr_le (given : Given) (long : String) {default : Nat}
    (hdefault : default ≤ Text.maxWord64) : given.countOr long default ≤ Text.maxWord64 := by
  unfold Given.countOr
  cases hcount : (given.value? long).bind count? with
  | none => exact hdefault
  | some n =>
    obtain ⟨text, -, htext⟩ := Option.bind_eq_some_iff.mp hcount
    exact le_of_count? htext

section Generate

variable {options : Generate} {given : Given}

theorem Generate.ofGiven_given (h : options.Expressible) :
    Generate.ofGiven options.given = .ok options := by
  -- every option that has a default is given, so only the flags make a difference
  obtain ⟨grammar, start, steps, positive, negative, maxLength, separator, expansion, convention⟩ :=
    options
  have hsteps : stepBound steps.repr = .ok steps := stepBound_repr h.steps
  have hlength : count? maxLength.repr = some maxLength := count?_repr h.maxLength
  cases expansion <;> cases convention <;>
    simp [Generate.ofGiven, Generate.given, declaredGiven, parallelGiven, Given.countOr,
      Given.valueOr, Given.convention, Given.has, Given.value?, List.lookup_cons, hsteps, hlength]

theorem parallelGiven_admits (expansion : Expansion) :
    ∀ option ∈ parallelGiven expansion, generateLayout.Admits option := by
  cases expansion with
  | leftmost => exact fun _ hmem => absurd hmem List.not_mem_nil
  | parallel =>
    rw [parallelGiven, List.forall_mem_singleton]
    exact ⟨_, List.mem_of_getElem? (i := 2) rfl, rfl, rfl⟩

theorem Generate.allowed_given (h : options.Expressible) :
    options.given.Allowed generateLayout where
  nodup := by
    cases hexpansion : options.expansion <;> cases hconvention : options.convention <;>
      simp [Generate.given, declaredGiven, parallelGiven, hexpansion, hconvention]
  admits := by
    have hlength : generateLayout.Admits ("max-length", options.maxLength.repr) :=
      ⟨_, List.mem_of_getElem? (i := 0) rfl, rfl, accepts_count_repr h.maxLength⟩
    have hseparator : generateLayout.Admits ("separator", options.separator) :=
      ⟨separatorOption, List.mem_of_getElem? (i := 1) rfl, rfl, rfl⟩
    have hparallel := parallelGiven_admits options.expansion
    have hflag : declaredFlag ∈ generateLayout.options := List.mem_of_getElem? (i := 3) rfl
    have hdeclared := declaredGiven_admits hflag options.convention
    simp only [Generate.given, List.forall_mem_append, List.forall_mem_cons]
    exact ⟨⟨hlength, hseparator, nofun⟩, hparallel, hdeclared⟩
  places := by
    intro i hi
    match i, hi with
    | 0, _ => exact ⟨.path, rfl, accepts_path_iff.mpr h.grammar⟩
    | 1, _ => exact ⟨.text, rfl, rfl⟩
    | 2, _ => exact ⟨.stepBound, rfl, accepts_stepBound_repr h.steps⟩
    | 3, _ => exact ⟨.path, rfl, accepts_path_iff.mpr h.positive⟩
    | 4, _ => exact ⟨.path, rfl, accepts_path_iff.mpr h.negative⟩

theorem Generate.expressible_of_ofGiven (hallowed : given.Allowed generateLayout)
    (h : Generate.ofGiven given = .ok options) : options.Expressible := by
  unfold Generate.ofGiven at h
  split at h
  · next grammar start text positive negative hpositional =>
    have hplaces := hallowed.places
    rw [hpositional] at hplaces
    split at h
    · exact absurd h nofun
    · next steps hsteps =>
      obtain rfl := Except.ok.inj h
      exact {
        grammar := accepts_path_iff.mp (hplaces.accepts (i := 0) (by simp) rfl)
        steps := (stepBound_eq_ok_iff.mp hsteps).2
        positive := accepts_path_iff.mp (hplaces.accepts (i := 3) (by simp) rfl)
        negative := accepts_path_iff.mp (hplaces.accepts (i := 4) (by simp) rfl)
        maxLength := given.countOr_le _ (by decide) }
  · exact absurd h nofun

end Generate

section Decide

variable {options : Decide} {given : Given}

theorem Decide.ofGiven_given (options : Decide) : Decide.ofGiven options.given = .ok options := by
  obtain ⟨grammar, inputs, start, convention⟩ := options
  cases convention <;>
    simp [Decide.ofGiven, Decide.given, declaredGiven, Given.valueOr, Given.convention, Given.has,
      Given.value?, List.lookup_cons]

theorem Decide.allowed_given (h : options.Expressible) : options.given.Allowed decideLayout where
  nodup := by
    cases hconvention : options.convention <;> simp [Decide.given, declaredGiven, hconvention]
  admits := by
    have hstart : decideLayout.Admits ("start", options.start) :=
      ⟨startOption, List.mem_of_getElem? (i := 0) rfl, rfl, rfl⟩
    have hflag : declaredFlag ∈ decideLayout.options := List.mem_of_getElem? (i := 1) rfl
    have hdeclared := declaredGiven_admits hflag options.convention
    exact List.forall_mem_cons.mpr ⟨hstart, hdeclared⟩
  places := by
    intro i hi
    match i, hi with
    | 0, _ => exact ⟨.path, rfl, accepts_path_iff.mpr h.grammar⟩
    | _ + 1, _ => exact ⟨.text, rfl, rfl⟩

theorem Decide.expressible_of_ofGiven (hallowed : given.Allowed decideLayout)
    (h : Decide.ofGiven given = .ok options) : options.Expressible := by
  unfold Decide.ofGiven at h
  split at h
  · exact absurd h nofun
  · next grammar inputs hpositional =>
    have hplaces := hallowed.places
    rw [hpositional] at hplaces
    obtain rfl := Except.ok.inj h
    exact ⟨accepts_path_iff.mp (hplaces.accepts (i := 0) (by simp) rfl)⟩

end Decide

section Sample

variable {options : Sample} {given : Given}

theorem Sample.ofGiven_given (h : options.Expressible) :
    Sample.ofGiven options.given = .ok options := by
  -- without a seed none is given: there is no default that could be written down
  obtain ⟨grammar, start, amount, maxDepth, seed, separator, convention⟩ := options
  have hamount : amount? amount.repr = some amount := amount?_repr h.amount
  have hdepth : count? maxDepth.repr = some maxDepth := count?_repr h.maxDepth
  cases seed with
  | none =>
    cases convention <;>
      simp [Sample.ofGiven, Sample.given, seedGiven, declaredGiven, Given.countOr, Given.valueOr,
        Given.convention, Given.has, Given.value?, List.lookup_cons, hamount, hdepth]
  | some seed =>
    have hseed : count? seed.repr = some seed := count?_repr (h.seed seed rfl)
    cases convention <;>
      simp [Sample.ofGiven, Sample.given, seedGiven, declaredGiven, Given.countOr, Given.valueOr,
        Given.convention, Given.has, Given.value?, List.lookup_cons, hamount, hdepth, hseed]

theorem seedGiven_admits {seed : Option Nat} (h : ∀ n ∈ seed, n ≤ Text.maxWord64) :
    ∀ option ∈ seedGiven seed, sampleLayout.Admits option := by
  cases seed with
  | none => exact fun _ hmem => absurd hmem List.not_mem_nil
  | some n =>
    rw [seedGiven, List.forall_mem_singleton]
    exact ⟨_, List.mem_of_getElem? (i := 3) rfl, rfl, accepts_count_repr (h n rfl)⟩

theorem Sample.allowed_given (h : options.Expressible) : options.given.Allowed sampleLayout where
  nodup := by
    cases hseed : options.seed <;> cases hconvention : options.convention <;>
      simp [Sample.given, seedGiven, declaredGiven, hseed, hconvention]
  admits := by
    have hstart : sampleLayout.Admits ("start", options.start) :=
      ⟨startOption, List.mem_of_getElem? (i := 0) rfl, rfl, rfl⟩
    have hamount : sampleLayout.Admits ("amount", options.amount.repr) :=
      ⟨_, List.mem_of_getElem? (i := 1) rfl, rfl, accepts_amount_repr h.amount⟩
    have hdepth : sampleLayout.Admits ("max-depth", options.maxDepth.repr) :=
      ⟨_, List.mem_of_getElem? (i := 2) rfl, rfl, accepts_count_repr h.maxDepth⟩
    have hseparator : sampleLayout.Admits ("separator", options.separator) :=
      ⟨separatorOption, List.mem_of_getElem? (i := 4) rfl, rfl, rfl⟩
    have hseed := seedGiven_admits h.seed
    have hflag : declaredFlag ∈ sampleLayout.options := List.mem_of_getElem? (i := 5) rfl
    have hdeclared := declaredGiven_admits hflag options.convention
    simp only [Sample.given, List.forall_mem_append, List.forall_mem_cons]
    exact ⟨⟨hstart, hamount, hdepth, hseparator, nofun⟩, hseed, hdeclared⟩
  places := by
    intro i hi
    match i, hi with
    | 0, _ => exact ⟨.path, rfl, accepts_path_iff.mpr h.grammar⟩

theorem Sample.expressible_of_ofGiven (hallowed : given.Allowed sampleLayout)
    (h : Sample.ofGiven given = .ok options) : options.Expressible := by
  unfold Sample.ofGiven at h
  split at h
  · next grammar hpositional =>
    have hplaces := hallowed.places
    rw [hpositional] at hplaces
    obtain rfl := Except.ok.inj h
    refine ⟨accepts_path_iff.mp (hplaces.accepts (i := 0) (by simp) rfl), ?_,
      given.countOr_le _ (by decide), fun seed hseed => ?_⟩
    · show ((given.value? "amount").bind amount?).getD 1 ≤ _
      cases hamount : (given.value? "amount").bind amount? with
      | none => decide
      | some n =>
        obtain ⟨text, -, htext⟩ := Option.bind_eq_some_iff.mp hamount
        exact le_of_amount? htext
    · obtain ⟨text, -, htext⟩ := Option.bind_eq_some_iff.mp hseed
      exact le_of_count? htext
  · exact absurd h nofun

end Sample

/-! ## Requests and arguments -/

def Generate.arguments (options : Generate) : List String :=
  "generate" :: options.given.arguments generateLayout

def Decide.arguments (options : Decide) : List String :=
  "parse" :: options.given.arguments decideLayout

def Sample.arguments (options : Sample) : List String :=
  "sample" :: options.given.arguments sampleLayout

namespace Command

/-- Arguments that make a request. -/
def arguments : Command → List String
  | generate options => options.arguments
  | decide options => options.arguments
  | sample options => options.arguments

/-- The paths are not empty and the numbers fit. -/
def Expressible : Command → Prop
  | generate options => options.Expressible
  | decide options => options.Expressible
  | sample options => options.Expressible

variable {command : Command}

section Reading

variable {α : Type} {layout : Layout} {ofGiven : Given → Except Stop α} {make : α → Command}
  {args : List String}

theorem request_eq_ok {given : Given} {options : α} (hread : layout.read args = .ok given)
    (hgiven : ofGiven given = .ok options) :
    (do return make (← ofGiven (← layout.read args))) = Except.ok (make options) := by
  rw [hread]
  show (ofGiven given >>= fun options => .ok (make options)) = _
  rw [hgiven]
  rfl

/-- Requests are made of what their layouts allow. -/
theorem exists_allowed_of_request_eq_ok (hsound : layout.Sound)
    (h : (do return make (← ofGiven (← layout.read args))) = Except.ok command) :
    ∃ given options, given.Allowed layout ∧ ofGiven given = .ok options ∧
      command = make options := by
  obtain ⟨given, hread, hgiven⟩ := exists_of_bind_eq_ok h
  obtain ⟨options, hoptions, hmake⟩ := exists_of_bind_eq_ok hgiven
  have hallowed := ((exists_read_eq_ok_iff hsound).mp ⟨args, hread⟩).1
  exact ⟨given, options, hallowed, hoptions, (Except.ok.inj hmake).symm⟩

end Reading

/-- **Requests are read back as they are written.** -/
theorem ofArguments_arguments (h : command.Expressible) :
    ofArguments command.arguments = .ok command := by
  cases command with
  | generate options =>
    exact request_eq_ok
      (read_arguments generateLayout_sound (Generate.allowed_given h) (Nat.le_refl 5))
      (Generate.ofGiven_given h)
  | decide options =>
    exact request_eq_ok
      (read_arguments decideLayout_sound (Decide.allowed_given h) (Nat.le_add_left 1 _))
      (Decide.ofGiven_given options)
  | sample options =>
    exact request_eq_ok
      (read_arguments sampleLayout_sound (Sample.allowed_given h) (Nat.le_refl 1))
      (Sample.ofGiven_given h)

/-- A request as it is written. The start symbol looks like an option and stands behind the dashes. -/
example :
    (generate ⟨"ab.cnf", "-S", 3, "p", "n", 2, "", .parallel, .declared⟩).arguments =
      ["generate", "--max-length=2", "--separator=", "--parallel", "--declared", "--", "ab.cnf", "-S",
        "3", "p", "n"] := by
  decide

theorem expressible_of_ofArguments {args : List String} (h : ofArguments args = .ok command) :
    command.Expressible := by
  unfold ofArguments at h
  split at h
  · exact absurd h nofun
  · obtain ⟨given, options, hallowed, hgiven, rfl⟩ :=
      exists_allowed_of_request_eq_ok generateLayout_sound h
    exact Generate.expressible_of_ofGiven hallowed hgiven
  · obtain ⟨given, options, hallowed, hgiven, rfl⟩ :=
      exists_allowed_of_request_eq_ok decideLayout_sound h
    exact Decide.expressible_of_ofGiven hallowed hgiven
  · obtain ⟨given, options, hallowed, hgiven, rfl⟩ :=
      exists_allowed_of_request_eq_ok sampleLayout_sound h
    exact Sample.expressible_of_ofGiven hallowed hgiven
  -- whoever asks for help, or for nothing that there is, makes no request
  · repeat' split at h
    all_goals exact absurd h nofun
  · repeat' split at h
    all_goals exact absurd h nofun

/-- **Which requests there are.** A request is made by some arguments exactly when its paths are not empty
and its numbers fit. -/
theorem exists_ofArguments_iff :
    (∃ args, ofArguments args = .ok command) ↔ command.Expressible :=
  ⟨fun ⟨_, h⟩ => expressible_of_ofArguments h, fun h => ⟨_, ofArguments_arguments h⟩⟩

end Command

end Chomsky.CommandLine
