import Chomsky.Proofs.Rule.Arrow

/-!
# What is on a rule line

Reading a line is described by what it accepts. **`Production.ReadFrom`** says which words make
which production: two nonterminals apart, two nonterminals of one character written together, or
one word that is neither. `rightSide_eq_ok_iff` and `ofLine_eq_ok_iff` say that reading finds exactly
that. From there both directions are short:

* **`readableBy_of_ofLine`**: a rule that was read consists of words, each of the kind that its place
  in the rule demands. Such a rule is *readable* by the classifier.
* **`ofLine_render`**: a readable rule is read back from its written form. The arrow is found at its
  place: an arrow needs two plain blanks, and a side that is written has one at most.
-/

namespace Chomsky

namespace Classifier

/-- The text is one word, and a nonterminal. -/
def TakesForName (c : Classifier) (name : String) : Prop :=
  Text.IsWord name.toList ∧ c.isNonterminal name.toList = true

/-- The text is one word, and neither a nonterminal nor two of them written together. -/
def TakesForToken (c : Classifier) (token : String) : Prop :=
  Text.IsWord token.toList ∧ c.isNonterminal token.toList = false ∧ c.pair? token.toList = none

theorem pair?_eq_some_iff {c : Classifier} {word l r : List Char} :
    c.pair? word = some (l, r) ↔ ∃ a b, word = [a, b] ∧ l = [a] ∧ r = [b] ∧
      c.isNonterminal [a] = true ∧ c.isNonterminal [b] = true := by
  apply Iff.intro
  · intro h
    unfold pair? at h
    split at h
    · next a b =>
      split at h
      · next hab =>
        obtain ⟨rfl, rfl⟩ := Prod.mk.inj (Option.some.inj h)
        have hboth := Bool.and_eq_true_iff.mp hab
        exact ⟨a, b, rfl, rfl, rfl, hboth.1, hboth.2⟩
      · exact absurd h (by nofun)
    · exact absurd h (by nofun)
  · intro h
    obtain ⟨a, b, rfl, rfl, rfl, ha, hb⟩ := h
    rw [pair?, ha, hb]
    rfl

end Classifier

theorem length_eq_one_iff {name : String} : name.length = 1 ↔ ∃ a, name.toList = [a] := by
  rw [← String.length_toList, List.length_eq_one_iff]

/-! ## The right side -/

/-- The words that a classifier reads as a production. -/
inductive Production.ReadFrom (c : Classifier) : List (List Char) → Production → Prop where
  | token {t : String} (ht : c.TakesForToken t) : ReadFrom c [t.toList] (.unary t)
  | together {l r : String} (hl : c.TakesForName l) (hr : c.TakesForName r)
      (hlone : l.length = 1) (hrone : r.length = 1) :
      ReadFrom c [l.toList ++ r.toList] (.binary l r)
  | apart {l r : String} (hl : c.TakesForName l) (hr : c.TakesForName r) :
      ReadFrom c [l.toList, r.toList] (.binary l r)

namespace Rule

variable {c : Classifier}

theorem oneWord_eq_ok_iff {word : List Char} {p : Production} (hword : Text.IsWord word) :
    oneWord c word = .ok p ↔ Production.ReadFrom c [word] p := by
  apply Iff.intro
  · intro h
    unfold oneWord at h
    split at h
    · next l r hpair =>
      obtain rfl := Except.ok.inj h
      obtain ⟨a, b, rfl, rfl, rfl, ha, hb⟩ := Classifier.pair?_eq_some_iff.mp hpair
      have htogether := Production.ReadFrom.together (c := c) (l := String.ofList [a])
        (r := String.ofList [b])
        ⟨by simpa using hword.singleton (by simp), by simpa using ha⟩
        ⟨by simpa using hword.singleton (by simp), by simpa using hb⟩ (by simp) (by simp)
      simpa using htogether
    · next hpair =>
      split at h
      · next hterminal =>
        obtain rfl := Except.ok.inj h
        have htoken := Production.ReadFrom.token (c := c) (t := String.ofList word)
          ⟨by simpa using hword, by simpa using hterminal, by simpa using hpair⟩
        simpa using htoken
      · split at h
        · exact absurd h (by nofun)
        · exact absurd h (by nofun)
  · intro h
    generalize hwords : [word] = ws at h
    cases h with
    | @token t ht =>
      obtain ⟨rfl, -⟩ := List.cons.inj hwords
      obtain ⟨-, hterminal, hpair⟩ := ht
      rw [oneWord, hpair]
      simp [hterminal]
    | @together l r hl hr hlone hrone =>
      obtain ⟨rfl, -⟩ := List.cons.inj hwords
      obtain ⟨a, ha⟩ := length_eq_one_iff.mp hlone
      obtain ⟨b, hb⟩ := length_eq_one_iff.mp hrone
      have hpair : c.pair? (l.toList ++ r.toList) = some (l.toList, r.toList) :=
        Classifier.pair?_eq_some_iff.mpr
          ⟨a, b, by rw [ha, hb]; rfl, ha, hb, ha ▸ hl.2, hb ▸ hr.2⟩
      rw [oneWord, hpair]
      simp
    | apart hl hr => exact absurd (List.cons.inj hwords).2 (by nofun)

theorem twoWords_eq_ok_iff {l r : List Char} {p : Production} (hl : Text.IsWord l)
    (hr : Text.IsWord r) : twoWords c l r = .ok p ↔ Production.ReadFrom c [l, r] p := by
  apply Iff.intro
  · intro h
    unfold twoWords at h
    split at h
    · exact absurd h (by nofun)
    · next hln =>
      split at h
      · exact absurd h (by nofun)
      · next hrn =>
        obtain rfl := Except.ok.inj h
        have hapart := Production.ReadFrom.apart (c := c) (l := String.ofList l)
          (r := String.ofList r) ⟨by simpa using hl, by simpa using hln⟩
          ⟨by simpa using hr, by simpa using hrn⟩
        simpa using hapart
  · intro h
    generalize hwords : [l, r] = ws at h
    cases h with
    | token ht => exact absurd (List.cons.inj hwords).2 (by nofun)
    | together hl' hr' _ _ => exact absurd (List.cons.inj hwords).2 (by nofun)
    | @apart l' r' hl' hr' =>
      obtain ⟨rfl, hrest⟩ := List.cons.inj hwords
      obtain ⟨rfl, -⟩ := List.cons.inj hrest
      simp [twoWords, hl'.2, hr'.2]

/-- **The right side is read from its words.** -/
theorem rightSide_eq_ok_iff {right : List Char} {p : Production} :
    rightSide c right = .ok p ↔ Production.ReadFrom c (Text.words right) p := by
  have hword : ∀ word ∈ Text.words right, Text.IsWord word :=
    fun word h => Text.isWord_of_mem_words h
  unfold rightSide
  split
  · next hnone =>
    rw [hnone]
    exact ⟨nofun, nofun⟩
  · next word hone =>
    rw [hone] at hword ⊢
    exact oneWord_eq_ok_iff (hword word (by simp))
  · next l r htwo =>
    rw [htwo] at hword ⊢
    exact twoWords_eq_ok_iff (hword l (by simp)) (hword r (by simp))
  · next ws hnil hone htwo =>
    refine ⟨nofun, fun h => ?_⟩
    generalize hwords : Text.words right = ws at h
    cases h with
    | token ht => exact absurd hwords (hone _)
    | together hl hr _ _ => exact absurd hwords (hone _)
    | apart hl hr => exact absurd hwords (htwo _ _)

/-! ## The left side -/

theorem leftSide_eq_ok_iff {left : List Char} {name : String} :
    leftSide c left = .ok name ↔ left = name.toList ∧ c.TakesForName name := by
  unfold leftSide
  split
  · next hempty =>
    refine ⟨nofun, fun h => ?_⟩
    obtain ⟨rfl, hname⟩ := h
    exact absurd (List.isEmpty_iff.mp hempty) hname.1.ne_nil
  · next hne =>
    split
    · next hbad =>
      refine ⟨nofun, fun h => ?_⟩
      obtain ⟨rfl, hname⟩ := h
      -- a name is refused for a blank in it or for not being a nonterminal; a word has neither
      rcases Bool.or_eq_true_iff.mp hbad with hblank | hterminal
      · obtain ⟨d, hd, hdblank⟩ := List.any_eq_true.mp hblank
        rw [hname.1.no_blank d hd] at hdblank
        exact absurd hdblank (by decide)
      · rw [hname.2] at hterminal
        exact absurd hterminal (by decide)
    · next hgood =>
      obtain ⟨hblank, hname⟩ := Bool.or_eq_false_iff.mp ((Bool.not_eq_true _).mp hgood)
      have hword : Text.IsWord left :=
        ⟨fun hnil => hne (List.isEmpty_iff.mpr hnil), by simpa using hblank⟩
      refine ⟨fun h => ?_, fun h => ?_⟩
      · obtain rfl := Except.ok.inj h
        exact ⟨by simp, by simpa using hword, by simpa using hname⟩
      · rw [h.1, String.ofList_toList]

/-! ## The line -/

/-- **The line is read from its two sides.** -/
theorem ofLine_eq_ok_iff {line : List Char} {rule : Rule} :
    ofLine c line = .ok rule ↔ ∃ left right, sides line = .ok (left, right) ∧
      left = rule.left.toList ∧ c.TakesForName rule.left ∧
        Production.ReadFrom c (Text.words right) rule.right := by
  unfold ofLine
  cases hsides : sides line with
  | error cause => exact ⟨nofun, nofun⟩
  | ok pair =>
    obtain ⟨left, right⟩ := pair
    show (leftSide c left >>= fun name => rightSide c right >>= fun p =>
      pure (⟨name, p⟩ : Rule)) = Except.ok rule ↔ _
    apply Iff.intro
    · intro h
      -- an error on either side is the result of the line
      cases hl : leftSide c left with
      | error cause =>
        rw [hl] at h
        exact absurd h (by nofun)
      | ok name =>
        cases hr : rightSide c right with
        | error cause =>
          rw [hl, hr] at h
          exact absurd h (by nofun)
        | ok p =>
          rw [hl, hr] at h
          obtain rfl := Except.ok.inj h
          obtain ⟨hleft, hname⟩ := leftSide_eq_ok_iff.mp hl
          exact ⟨left, right, rfl, hleft, hname, rightSide_eq_ok_iff.mp hr⟩
    · intro h
      obtain ⟨l, r, hok, hleft, hname, hread⟩ := h
      obtain ⟨rfl, rfl⟩ := Prod.mk.inj (Except.ok.inj hok)
      rw [leftSide_eq_ok_iff.mpr ⟨hleft, hname⟩, rightSide_eq_ok_iff.mpr hread]
      rfl

/-- A line that is read declares the name of its rule, under any convention. -/
theorem declaredName?_of_ofLine {line : List Char} {rule : Rule} (h : ofLine c line = .ok rule) :
    declaredName? line = some rule.left := by
  obtain ⟨left, right, hsides, rfl, hname, -⟩ := ofLine_eq_ok_iff.mp h
  obtain ⟨first, rest, hcons⟩ := List.exists_cons_of_ne_nil hname.1.ne_nil
  rw [declaredName?, hsides, hcons]
  show some (String.ofList (first :: rest)) = some rule.left
  rw [← hcons, String.ofList_toList]

/-! ## Readable rules -/

/-- Every name and every token of the rule is a word that the classifier takes for what it is. -/
structure ReadableBy (c : Classifier) (rule : Rule) : Prop where
  left : c.TakesForName rule.left
  names : ∀ name ∈ rule.right.names, c.TakesForName name
  tokens : ∀ token ∈ rule.right.tokens, c.TakesForToken token

/-- **What is read is readable.** -/
theorem readableBy_of_ofLine {line : List Char} {rule : Rule} (h : ofLine c line = .ok rule) :
    rule.ReadableBy c := by
  obtain ⟨left, right, -, -, hname, hread⟩ := ofLine_eq_ok_iff.mp h
  obtain ⟨name, p⟩ := rule
  generalize Text.words right = ws at hread
  cases hread with
  | token ht => exact ⟨hname, by simp, by simpa using ht⟩
  -- together or apart, the rule is the same
  | together hl hr _ _ =>
    exact ⟨hname, by simpa using ⟨hl, hr⟩, by simp⟩
  | apart hl hr =>
    exact ⟨hname, by simpa using ⟨hl, hr⟩, by simp⟩

/-- Classifiers decide whether words make a production, and never which one. -/
theorem readFrom_of_taken {c' : Classifier} {ws : List (List Char)} {p : Production}
    (h : Production.ReadFrom c ws p) (hnames : ∀ name ∈ p.names, c'.TakesForName name)
    (htokens : ∀ token ∈ p.tokens, c'.TakesForToken token) : Production.ReadFrom c' ws p := by
  cases h with
  | token ht => exact .token (htokens _ (by simp))
  | together hl hr hlone hrone =>
    exact .together (hnames _ (by simp)) (hnames _ (by simp))
      hlone hrone
  | apart hl hr =>
    exact .apart (hnames _ (by simp)) (hnames _ (by simp))

/-- **A line is read alike by every classifier that its rule is readable by.** -/
theorem ofLine_of_readableBy {c' : Classifier} {line : List Char} {rule : Rule}
    (h : ofLine c line = .ok rule) (hreadable : rule.ReadableBy c') : ofLine c' line = .ok rule := by
  obtain ⟨left, right, hsides, hleft, -, hread⟩ := ofLine_eq_ok_iff.mp h
  have hread' : Production.ReadFrom c' (Text.words right) rule.right :=
    readFrom_of_taken hread hreadable.names hreadable.tokens
  exact ofLine_eq_ok_iff.mpr ⟨left, right, hsides, hleft, hreadable.left, hread'⟩

/-- The written form of a readable right side: its words, and at most one plain blank. -/
theorem readFrom_render {rule : Rule} (h : rule.ReadableBy c) :
    Production.ReadFrom c (Text.words rule.right.render.toList) rule.right ∧
      rule.right.render.toList.count ' ' < 2 := by
  obtain ⟨name, p⟩ := rule
  have hcount : ∀ text : String, Text.IsWord text.toList → text.toList.count ' ' = 0 := by
    intro text hword
    refine List.count_eq_zero.mpr fun hmem => ?_
    exact absurd (hword.no_blank ' ' hmem) (by decide)
  cases p with
  | unary t =>
    have ht : c.TakesForToken t := h.tokens t (by simp)
    show Production.ReadFrom c (Text.words t.toList) (.unary t) ∧ t.toList.count ' ' < 2
    rw [Text.words_of_isWord ht.1, hcount t ht.1]
    exact ⟨.token ht, by decide⟩
  | binary l r =>
    have hl : c.TakesForName l := h.names l (by simp)
    have hr : c.TakesForName r := h.names r (by simp)
    show Production.ReadFrom c (Text.words (Production.binary l r).render.toList) (.binary l r) ∧
      (Production.binary l r).render.toList.count ' ' < 2
    by_cases hone : l.length = 1 ∧ r.length = 1
    · -- two names of one character make one word
      have hword : Text.IsWord (l.toList ++ r.toList) := by
        refine ⟨fun hnil => hl.1.ne_nil (List.append_eq_nil_iff.mp hnil).1, fun d hd => ?_⟩
        rcases List.mem_append.mp hd with hd | hd
        · exact hl.1.no_blank d hd
        · exact hr.1.no_blank d hd
      rw [Production.render, if_pos hone, String.toList_append, Text.words_of_isWord hword,
        List.count_append, hcount l hl.1, hcount r hr.1]
      exact ⟨.together hl hr hone.1 hone.2, by decide⟩
    · have htext : (l ++ " " ++ r).toList = l.toList ++ ' ' :: r.toList := by
        simp [String.toList_append]
      rw [Production.render, if_neg hone, htext, Text.words_pair hl.1 hr.1, List.count_append,
        List.count_cons, hcount l hl.1, hcount r hr.1]
      exact ⟨.apart hl hr, by decide⟩

theorem toList_render (rule : Rule) :
    rule.render.toList = rule.left.toList ++ (arrow.toList ++ rule.right.render.toList) := by
  rw [render, String.toList_append, String.toList_append, List.append_assoc]

/-- **A readable rule is read back from its written form.** -/
theorem ofLine_render {rule : Rule} (h : rule.ReadableBy c) :
    ofLine c rule.render.toList = .ok rule := by
  obtain ⟨hread, hcount⟩ := readFrom_render h
  have hword : Text.IsWord rule.left.toList := h.left.1
  have hspace : ' ' ∉ rule.left.toList :=
    fun hmem => absurd (hword.no_blank ' ' hmem) (by decide)
  have hleft : ¬arrow.toList <:+: rule.left.toList ++ [' ', '-', '>'] := by
    apply not_isInfix_of_count_lt_two
    rw [List.count_append, List.count_eq_zero.mpr hspace]
    decide
  have hright : ¬arrow.toList <:+: rule.right.render.toList := not_isInfix_of_count_lt_two hcount
  have hsides : sides rule.render.toList =
      .ok (rule.left.toList, Text.trim rule.right.render.toList) :=
    sides_eq_ok_iff.mpr
      ⟨_, _, toList_render rule, hleft, hright, Text.trim_of_isWord hword, rfl⟩
  refine ofLine_eq_ok_iff.mpr ⟨_, _, hsides, rfl, h.left, ?_⟩
  rw [Text.words_trim]
  exact hread

end Rule

end Chomsky
