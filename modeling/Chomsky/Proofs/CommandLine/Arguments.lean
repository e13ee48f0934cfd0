import Chomsky.CommandLine.Arguments

/-!
# What reading arguments ends with

Arguments are read one after the other, and what was given is collected. The collection can be written
down again, with every option by its long name and the positional arguments behind two dashes, so that
none of them is mistaken for an option.

* **`Given.Allowed`**: what may be collected under a layout. Reading keeps it, argument after argument
  (`allowed_of_read`).
* **`read_arguments`**: whatever is allowed is read back as it was written.
* **`exists_read_eq_ok_iff`**: so reading ends with what is allowed, when nothing required is missing, and
  with nothing else.
-/

namespace Chomsky.CommandLine

/-! ## What a layout allows -/

/-- The options of a layout have different names. None is empty, asks for help or holds an equals sign,
so that a name and its value are told apart, and only options with values have short names. -/
structure Layout.Sound (layout : Layout) : Prop where
  nodup : (layout.options.map (·.long)).Nodup
  long_ne : ∀ setting ∈ layout.options, setting.long ≠ "" ∧ setting.long ≠ "help" ∧
    '=' ∉ setting.long.toList
  short : ∀ setting ∈ layout.options, setting.short.isSome → setting.value.isSome

/-- The values of an option are those of its kind; a flag has the empty one only. -/
def Setting.Takes (setting : Setting) (value : String) : Prop :=
  match setting.value with
  | some kind => kind.accepts value = true
  | none => value = ""

/-- An option of the layout, with a value of its own. -/
def Layout.Admits (layout : Layout) (option : String × String) : Prop :=
  ∃ setting ∈ layout.options, setting.long = option.1 ∧ setting.Takes option.2

/-- The positional arguments have places and are of the kinds of their places. -/
def Layout.Places (layout : Layout) (positional : List String) : Prop :=
  ∀ i (h : i < positional.length), ∃ kind, layout.required[i]?.or layout.further = some kind ∧
    kind.accepts positional[i] = true

theorem Layout.Places.accepts {layout : Layout} {positional : List String}
    (h : layout.Places positional) {i : Nat} (hi : i < positional.length) {kind : ValueKind}
    (hkind : layout.required[i]?.or layout.further = some kind) :
    kind.accepts positional[i] = true := by
  obtain ⟨kind', hkind', haccepts⟩ := h i hi
  rw [Option.some.inj (hkind.symm.trans hkind')]
  exact haccepts

/-- Options of the layout are given, each of them once, and positional arguments that have places. -/
structure Given.Allowed (given : Given) (layout : Layout) : Prop where
  nodup : (given.options.map Prod.fst).Nodup
  admits : ∀ option ∈ given.options, layout.Admits option
  places : layout.Places given.positional

variable {layout : Layout} {given given' : Given} {setting : Setting} {value : String}

theorem Given.has_eq_false_iff {long : String} :
    given.has long = false ↔ long ∉ given.options.map Prod.fst := by
  rw [Given.has, Given.value?, Option.isSome_eq_false_iff, Option.isNone_iff_eq_none,
    List.lookup_eq_none_iff, List.mem_map]
  constructor
  · rintro h ⟨option, hmem, rfl⟩
    simpa using h option hmem
  · intro h option hmem
    have hne : long ≠ option.1 := fun heq => h ⟨option, hmem, heq.symm⟩
    simpa using hne

/-- Among different names, each is found. -/
theorem find?_long_of_nodup {settings : List Setting} (hnodup : (settings.map (·.long)).Nodup)
    (hmem : setting ∈ settings) : settings.find? (·.long = setting.long) = some setting := by
  induction settings with
  | nil => exact absurd hmem List.not_mem_nil
  | cons first rest ih =>
    obtain ⟨hfirst, hrest⟩ := List.nodup_cons.mp hnodup
    rcases List.mem_cons.mp hmem with rfl | hmem
    · simp
    · have hne : first.long ≠ setting.long := fun heq =>
        hfirst (List.mem_map.mpr ⟨setting, hmem, heq.symm⟩)
      rw [List.find?_cons_of_neg (by simpa using hne)]
      exact ih hrest hmem

/-! ## Writing down what was given -/

/-- An option with its value, or a flag. -/
def Setting.written (setting : Setting) (value : String) : String :=
  if setting.value.isSome then "--" ++ setting.long ++ "=" ++ value else "--" ++ setting.long

/-- An option of a layout as it is given. -/
def Layout.written (layout : Layout) (option : String × String) : String :=
  ((layout.options.find? (·.long = option.1)).map (·.written option.2)).getD ""

/-- Arguments by which all this is given. -/
def Given.arguments (given : Given) (layout : Layout) : List String :=
  given.options.map layout.written ++ "--" :: given.positional

theorem splitEquals_append {front : List Char} (h : '=' ∉ front) (back : List Char) :
    splitEquals (front ++ '=' :: back) = (front, some back) := by
  induction front with
  | nil => simp [splitEquals]
  | cons c rest ih =>
    rw [List.mem_cons, not_or] at h
    rw [List.cons_append, splitEquals, if_neg (Ne.symm h.1), ih h.2]

theorem splitEquals_of_not_mem {text : List Char} (h : '=' ∉ text) :
    splitEquals text = (text, none) := by
  induction text with
  | nil => rfl
  | cons c rest ih =>
    rw [List.mem_cons, not_or] at h
    rw [splitEquals, if_neg (Ne.symm h.1), ih h.2]

theorem shapeOf_of_toList {text : String} {rest : List Char} (htext : text.toList = '-' :: '-' :: rest)
    (hne : rest ≠ []) :
    shapeOf text =
      .long (String.ofList (splitEquals rest).1) ((splitEquals rest).2.map String.ofList) := by
  unfold shapeOf
  rw [htext]
  cases rest with
  | nil => exact absurd rfl hne
  | cons c rest => rfl

theorem shapeOf_written (hne : setting.long ≠ "") (hequals : '=' ∉ setting.long.toList)
    (value : String) :
    shapeOf (setting.written value) =
      .long setting.long (if setting.value.isSome then some value else none) := by
  unfold Setting.written
  cases setting.value.isSome with
  | true =>
    have htext : ("--" ++ setting.long ++ "=" ++ value).toList =
        '-' :: '-' :: (setting.long.toList ++ '=' :: value.toList) := by
      simp [String.toList_append]
    rw [if_pos rfl, shapeOf_of_toList htext (by simp), splitEquals_append hequals]
    simp
  | false =>
    have htext : ("--" ++ setting.long).toList = '-' :: '-' :: setting.long.toList := by
      simp [String.toList_append]
    rw [if_neg Bool.false_ne_true,
      shapeOf_of_toList htext (mt String.toList_eq_nil_iff.mp hne), splitEquals_of_not_mem hequals]
    simp

/-! ## Reading what was written down -/

/-- What was given, with one more option. -/
def Given.adding (given : Given) (option : String × String) : Given :=
  { given with options := given.options ++ [option] }

theorem addOption_of_takes (hnew : setting.long ∉ given.options.map Prod.fst)
    (htakes : setting.Takes value) :
    given.addOption setting value = .ok (given.adding (setting.long, value)) := by
  have haccepts : setting.value.all (fun kind => kind.accepts value) = true := by
    unfold Setting.Takes at htakes
    cases hvalue : setting.value with
    | none => rfl
    | some kind =>
      rw [hvalue] at htakes
      exact htakes
  rw [Given.addOption, Given.has_eq_false_iff.mpr hnew, haccepts]
  rfl

/-- A written option is read and added to what was given before. -/
theorem read_written (hsound : layout.Sound) (hmem : setting ∈ layout.options)
    (hnew : setting.long ∉ given.options.map Prod.fst) (htakes : setting.Takes value)
    (rest : List String) :
    read layout given none (setting.written value :: rest) =
      read layout (given.adding (setting.long, value)) none rest := by
  obtain ⟨hne, hhelp, hequals⟩ := hsound.long_ne setting hmem
  have hadd := addOption_of_takes hnew htakes
  have hlong : readLong layout given setting.long
      (if setting.value.isSome then some value else none) =
        .ok (.done (given.adding (setting.long, value))) := by
    unfold readLong
    rw [if_neg hhelp, find?_long_of_nodup hsound.nodup hmem]
    cases hvalue : setting.value with
    | some kind =>
      simp only [Option.isSome_some, if_true, hvalue, hadd]
      rfl
    | none =>
      -- a flag takes the empty value
      have hempty : value = "" := by simpa [Setting.Takes, hvalue] using htakes
      subst hempty
      simp only [Option.isSome_none, Bool.false_eq_true, if_false, hvalue, hadd]
      rfl
  rw [read, shapeOf_written hne hequals]
  show (readLong layout given setting.long _ >>= _) = _
  rw [hlong]
  rfl

/-- Options that are different from each other and from those before are read and added in order. -/
theorem read_options (hsound : layout.Sound) (options : List (String × String))
    (hnodup : ((given.options ++ options).map Prod.fst).Nodup)
    (hadmits : ∀ option ∈ options, layout.Admits option) (rest : List String) :
    read layout given none (options.map layout.written ++ rest) =
      read layout { given with options := given.options ++ options } none rest := by
  induction options generalizing given with
  | nil => rw [List.append_nil]; rfl
  | cons option more ih =>
    -- the first is not among those before, and is one of them for the rest
    obtain ⟨⟨setting, hmem, hlong, hvalue⟩, hmore⟩ := List.forall_mem_cons.mp hadmits
    have hwritten : layout.written option = setting.written option.2 := by
      rw [Layout.written, ← hlong, find?_long_of_nodup hsound.nodup hmem]
      rfl
    have hsplit : given.options ++ option :: more = (given.adding option).options ++ more := by
      rw [Given.adding, List.append_assoc, List.singleton_append]
    have hnew : setting.long ∉ given.options.map Prod.fst := by
      rw [List.map_append, List.nodup_append] at hnodup
      intro hold
      exact hnodup.2.2 _ hold _ List.mem_cons_self hlong
    have hadding : given.adding (setting.long, option.2) = given.adding option := by rw [hlong]
    rw [List.map_cons, List.cons_append, hwritten, read_written hsound hmem hnew hvalue, hadding,
      ih (hsplit ▸ hnodup) hmore, hsplit]
    rfl

/-- Positional arguments are read when all of them have places. -/
theorem readPositional_of_places (more : List String)
    (h : layout.Places (given.positional ++ more)) :
    readPositional layout given more =
      .ok { given with positional := given.positional ++ more } := by
  induction more generalizing given with
  | nil => rw [List.append_nil]; rfl
  | cons arg rest ih =>
    obtain ⟨kind, hkind, haccepts⟩ := h given.positional.length (by simp)
    have hadd : given.addPositional layout arg =
        .ok { given with positional := given.positional ++ [arg] } := by
      rw [List.getElem_append_right (Nat.le_refl _)] at haccepts
      have harg : kind.accepts arg = true := by simpa using haccepts
      rw [Given.addPositional, Given.nextKind, hkind]
      simp only [harg, if_true]
    rw [readPositional, hadd]
    show readPositional layout { given with positional := given.positional ++ [arg] } rest = _
    rw [ih (by rwa [List.append_assoc, List.singleton_append]), List.append_assoc,
      List.singleton_append]

/-- **What was written down is read back.** -/
theorem read_arguments (hsound : layout.Sound) (h : given.Allowed layout)
    (henough : layout.required.length ≤ given.positional.length) :
    layout.read (given.arguments layout) = .ok given := by
  -- the options are added to nothing; then, behind the dashes, all that is left is positional
  have hnodup : ((Given.nothing.options ++ given.options).map Prod.fst).Nodup := h.nodup
  have hoptions : read layout .nothing none (given.arguments layout) =
      read layout ⟨given.options, []⟩ none ("--" :: given.positional) :=
    read_options hsound given.options hnodup h.admits ("--" :: given.positional)
  have hpositional : readPositional layout ⟨given.options, []⟩ given.positional = .ok given :=
    readPositional_of_places given.positional h.places
  have hread : read layout .nothing none (given.arguments layout) = .ok given :=
    hoptions.trans hpositional
  unfold Layout.read
  rw [hread]
  show (if given.positional.length < layout.required.length then _ else _) = _
  rw [if_neg (by omega)]
  rfl

/-! ## What reading ends with -/

theorem exists_of_bind_eq_ok {ε α β : Type} {first : Except ε α} {next : α → Except ε β} {b : β}
    (h : first >>= next = .ok b) : ∃ a, first = .ok a ∧ next a = .ok b := by
  cases first with
  | error e => exact absurd h nofun
  | ok a => exact ⟨a, rfl, h⟩

theorem allowed_nothing (layout : Layout) : Given.nothing.Allowed layout where
  nodup := List.nodup_nil
  admits := fun _ hmem => absurd hmem List.not_mem_nil
  places := fun _ hlt => absurd hlt (Nat.not_lt_zero _)

/-- An option that is added was not there before, and its value is of its kind. -/
theorem Given.Allowed.addOption (h : given.Allowed layout) (hmem : setting ∈ layout.options)
    (hvalue : setting.value.isSome ∨ value = "") (hadd : given.addOption setting value = .ok given') :
    given'.Allowed layout := by
  unfold Given.addOption at hadd
  split at hadd
  · exact absurd hadd nofun
  · next hhas =>
    split at hadd
    · next haccepts =>
      obtain rfl := Except.ok.inj hadd
      -- the name was looked up before, so it is a new one
      have hnew := Given.has_eq_false_iff.mp (Bool.not_eq_true _ ▸ hhas)
      refine ⟨?_, fun option hoption => ?_, h.places⟩
      · rw [List.map_append, List.map_singleton, List.nodup_append]
        refine ⟨h.nodup, List.pairwise_singleton _ _, fun name hold other hlast heq => hnew ?_⟩
        rwa [heq, List.mem_singleton.mp hlast] at hold
      · rcases List.mem_append.mp hoption with hold | hlast
        · exact h.admits option hold
        · rw [List.mem_singleton.mp hlast]
          refine ⟨setting, hmem, rfl, ?_⟩
          unfold Setting.Takes
          cases hkind : setting.value with
          | none => exact hvalue.resolve_left (by simp [hkind])
          | some kind => simpa [hkind] using haccepts
    · exact absurd hadd nofun

theorem Given.Allowed.addPositional (h : given.Allowed layout)
    (hadd : given.addPositional layout value = .ok given') : given'.Allowed layout := by
  unfold Given.addPositional at hadd
  split at hadd
  · exact absurd hadd nofun
  · next kind hkind =>
    split at hadd
    · next haccepts =>
      obtain rfl := Except.ok.inj hadd
      refine ⟨h.nodup, h.admits, fun i hi => ?_⟩
      by_cases hlast : i = given.positional.length
      · subst hlast
        exact ⟨kind, hkind, by simpa using haccepts⟩
      · have hold : i < given.positional.length := by
          simp only [List.length_append, List.length_singleton] at hi
          omega
        obtain ⟨kind', hkind', haccepts'⟩ := h.places i hold
        exact ⟨kind', hkind', by rwa [List.getElem_append_left hold]⟩
    · exact absurd hadd nofun

/-- What is collected is allowed, and only an option of the layout awaits a value. -/
def Progress.Allowed (layout : Layout) : Progress → Prop
  | .done given => given.Allowed layout
  | .awaiting setting => setting ∈ layout.options ∧ setting.value.isSome

theorem allowed_of_map_addOption (h : given.Allowed layout) (hmem : setting ∈ layout.options)
    (hvalue : setting.value.isSome ∨ value = "") {progress : Progress}
    (hadd : (given.addOption setting value).map .done = .ok progress) : progress.Allowed layout := by
  cases hresult : given.addOption setting value with
  | error stop =>
    rw [hresult] at hadd
    exact absurd hadd nofun
  | ok given' =>
    rw [hresult] at hadd
    obtain rfl := Except.ok.inj hadd
    exact h.addOption hmem hvalue hresult

theorem allowed_of_readLong (h : given.Allowed layout) {name : String} {text : Option String}
    {progress : Progress} (hread : readLong layout given name text = .ok progress) :
    progress.Allowed layout := by
  unfold readLong at hread
  split at hread
  · exact absurd hread nofun
  · split at hread
    · exact absurd hread nofun
    · next setting value hfind =>
      have hmem := List.mem_of_find?_eq_some hfind
      split at hread
      · next hsome => exact allowed_of_map_addOption h hmem (.inl hsome) hread
      · exact absurd hread nofun
    · next setting hfind =>
      have hmem := List.mem_of_find?_eq_some hfind
      split at hread
      · next hsome =>
        split at hread
        · exact absurd hread nofun
        · obtain rfl := Except.ok.inj hread
          exact ⟨hmem, hsome⟩
      · exact allowed_of_map_addOption h hmem (.inr rfl) hread

theorem allowed_of_readShort (hsound : layout.Sound) (h : given.Allowed layout) {name : Char}
    {text : List Char} {progress : Progress}
    (hread : readShort layout given name text = .ok progress) : progress.Allowed layout := by
  have hshort : ∀ setting, layout.options.find? (·.short = some name) = some setting →
      setting ∈ layout.options ∧ setting.value.isSome := by
    intro setting hfind
    have hmem := List.mem_of_find?_eq_some hfind
    have hname : setting.short = some name := by simpa using List.find?_some hfind
    exact ⟨hmem, hsound.short setting hmem (by rw [hname]; rfl)⟩
  unfold readShort at hread
  split at hread
  · exact absurd hread nofun
  · split at hread
    · exact absurd hread nofun
    · next setting hfind =>
      split at hread
      · exact absurd hread nofun
      · obtain rfl := Except.ok.inj hread
        exact hshort setting hfind
    · next setting value hfind =>
      obtain ⟨hmem, hsome⟩ := hshort setting hfind
      exact allowed_of_map_addOption h hmem (.inl hsome) hread
    · next hfind _ _ =>
      obtain ⟨hmem, hsome⟩ := hshort _ hfind
      exact allowed_of_map_addOption h hmem (.inl hsome) hread

theorem allowed_of_readPositional (args : List String) (h : given.Allowed layout)
    (hread : readPositional layout given args = .ok given') : given'.Allowed layout := by
  induction args generalizing given with
  | nil => exact Except.ok.inj hread ▸ h
  | cons arg rest ih =>
    rw [readPositional] at hread
    obtain ⟨next, hnext, hrest⟩ := exists_of_bind_eq_ok hread
    exact ih (h.addPositional hnext) hrest

/-- **Reading keeps what is allowed**, argument after argument. -/
theorem allowed_of_read (hsound : layout.Sound) (args : List String) {awaiting : Option Setting}
    (h : given.Allowed layout)
    (hawaiting : ∀ setting, awaiting = some setting → setting ∈ layout.options ∧ setting.value.isSome)
    (hread : read layout given awaiting args = .ok given') : given'.Allowed layout := by
  -- on the arguments, for whatever was given before and whichever option awaits its value
  induction args generalizing given awaiting with
  | nil =>
    cases awaiting with
    | none =>
      rw [read] at hread
      exact Except.ok.inj hread ▸ h
    | some setting =>
      -- the value of the last option is missing
      rw [read] at hread
      exact absurd hread nofun
  | cons arg rest ih =>
    -- after an option was begun or finished, the rest is read
    have hprogress : ∀ progress : Progress, progress.Allowed layout →
        (match progress with
          | .done given => read layout given none rest
          | .awaiting setting => read layout given (some setting) rest) = .ok given' →
        given'.Allowed layout := by
      intro progress hallowed hrest
      cases progress with
      | done next => exact ih hallowed (by simp) hrest
      | awaiting setting =>
        exact ih h (fun _ heq => Option.some.inj heq ▸ hallowed) hrest
    cases awaiting with
    | some setting =>
      obtain ⟨hmem, hsome⟩ := hawaiting setting rfl
      rw [read] at hread
      split at hread
      · obtain ⟨next, hnext, hrest⟩ := exists_of_bind_eq_ok hread
        exact ih (h.addOption hmem (.inl hsome) hnext) (by simp) hrest
      · exact absurd hread nofun
    | none =>
      rw [read] at hread
      split at hread
      · exact allowed_of_readPositional rest h hread
      · obtain ⟨next, hnext, hrest⟩ := exists_of_bind_eq_ok hread
        exact ih (h.addPositional hnext) (by simp) hrest
      · obtain ⟨progress, hlong, hrest⟩ := exists_of_bind_eq_ok hread
        exact hprogress progress (allowed_of_readLong h hlong) hrest
      · obtain ⟨progress, hshort, hrest⟩ := exists_of_bind_eq_ok hread
        exact hprogress progress (allowed_of_readShort hsound h hshort) hrest

/-- **Reading ends with what the layout allows**, when nothing is missing, and with nothing else. -/
theorem exists_read_eq_ok_iff (hsound : layout.Sound) :
    (∃ args, layout.read args = .ok given) ↔
      given.Allowed layout ∧ layout.required.length ≤ given.positional.length := by
  constructor
  · rintro ⟨args, hread⟩
    obtain ⟨final, hfinal, hrest⟩ := exists_of_bind_eq_ok hread
    have hallowed := allowed_of_read hsound args (allowed_nothing layout) (by simp) hfinal
    by_cases hmissing : final.positional.length < layout.required.length
    · rw [if_pos hmissing] at hrest
      exact absurd hrest nofun
    · rw [if_neg hmissing] at hrest
      obtain rfl : final = given := Except.ok.inj hrest
      exact ⟨hallowed, by omega⟩
  · rintro ⟨hallowed, henough⟩
    exact ⟨_, read_arguments hsound hallowed henough⟩

end Chomsky.CommandLine
