import Mathlib.Data.List.Basic
import Chomsky.Text.Blank
import Chomsky.Text.Lines

/-!
# Lines of continued texts

A text that ends in a line feed can be continued without disturbing a line: the lines of the two
texts follow each other (`lines_append`). In particular, lines that hold no ending of their own are
found again in the text that ends each of them (`lines_flatMap_ended`).

A text can also be cut into lines after it was encoded (`byteLines_of_onLines`): all bytes of a
character beyond ASCII have their highest bit set, so the bytes of a line ending occur in the
encoding only where the line ending itself occurs in the text.
-/

namespace Chomsky.Text

/-! ## Continuing a text

The pieces between the line feeds are cut at a line feed like anywhere else, and a piece that has one
after it is a line whatever follows. -/

theorem endedLines_append {cr : Char} {pieces more : List (List Char)} (hne : more ≠ []) :
    endedLines cr (pieces ++ more) = pieces.map (dropReturn cr) ++ endedLines cr more := by
  induction pieces with
  | nil => rfl
  | cons piece rest ih =>
    obtain ⟨next, others, hcons⟩ :=
      List.exists_cons_of_ne_nil (List.append_ne_nil_of_right_ne_nil rest hne)
    rw [List.cons_append, List.map_cons, List.cons_append, ← ih, hcons]
    rfl

theorem lines_append_lf (text rest : List Char) :
    lines (text ++ '\n' :: rest) =
      (text.splitOn '\n').map (dropReturn '\r') ++ lines rest := by
  have hcut : (text ++ '\n' :: rest).splitOn '\n' = text.splitOn '\n' ++ rest.splitOn '\n' := by
    simp only [List.splitOn_eq_splitOnP]
    exact splitOnP_append_cut (by simp) text rest
  rw [lines, linesBy, hcut, endedLines_append (List.splitOn_ne_nil '\n' rest)]
  rfl

/-- **The lines of a text and of its continuation**, when the text is empty or ends in a line feed. -/
theorem lines_append {front : List Char} (h : front = [] ∨ ∃ text, front = text ++ ['\n'])
    (back : List Char) : lines (front ++ back) = lines front ++ lines back := by
  have hnil : lines [] = [] := linesBy_nil
  rcases h with rfl | ⟨text, rfl⟩
  · rw [hnil]
    rfl
  · rw [List.append_assoc, List.singleton_append, lines_append_lf, lines_append_lf, hnil,
      List.append_nil]

/-! ## Texts made of lines -/

theorem dropReturn_of_not_mem {line : List Char} (h : '\r' ∉ line) : dropReturn '\r' line = line := by
  rw [dropReturn, if_neg]
  intro hlast
  exact h (List.mem_of_getLast? (by simpa using hlast))

/-- Lines without endings of their own, each ended, are read back. -/
theorem lines_flatMap_ended {ls : List (List Char)} (hlf : ∀ line ∈ ls, '\n' ∉ line)
    (hcr : ∀ line ∈ ls, '\r' ∉ line) : lines (ls.flatMap (· ++ ['\n'])) = ls := by
  induction ls with
  | nil => exact linesBy_nil
  | cons line rest ih =>
    have hrest : lines (rest.flatMap (· ++ ['\n'])) = rest :=
      ih (fun l hl => hlf l (List.mem_cons_of_mem _ hl))
        (fun l hl => hcr l (List.mem_cons_of_mem _ hl))
    rw [List.flatMap_cons, List.append_assoc]
    show linesBy '\n' '\r' (line ++ '\n' :: rest.flatMap (· ++ ['\n'])) = line :: rest
    rw [linesBy_append_lf (hlf line List.mem_cons_self),
      dropReturn_of_not_mem (hcr line List.mem_cons_self)]
    exact congrArg (line :: ·) hrest

/-! ## Encoded texts -/

/-- The bytes that a text is encoded by. -/
def encode (text : String) : List UInt8 :=
  text.toUTF8.toList

theorem toList_loop_eq (bytes : ByteArray) (i : Nat) (read : List UInt8) :
    ByteArray.toList.loop bytes i read = read.reverse ++ bytes.data.toList.drop i := by
  fun_induction ByteArray.toList.loop bytes i read with
  | case1 i read h ih =>
    have hi : i < bytes.data.toList.length := by simpa using h
    rw [ih, List.drop_eq_getElem_cons hi]
    simp [ByteArray.get!, h]
  | case2 i read h =>
    have hi : bytes.data.toList.length ≤ i := by simpa using h
    rw [List.drop_eq_nil_of_le hi, List.append_nil]

theorem toList_eq_data_toList (bytes : ByteArray) : bytes.toList = bytes.data.toList := by
  rw [ByteArray.toList, toList_loop_eq]
  simp

theorem encode_eq_flatMap (text : String) :
    encode text = text.toList.flatMap String.utf8EncodeChar := by
  rw [encode, String.toUTF8_eq_toByteArray, toList_eq_data_toList, ← String.utf8Encode_toList,
    List.utf8Encode, List.toList_data_toByteArray]

theorem encode_ne_nil {text : String} (h : text ≠ "") : encode text ≠ [] := by
  obtain ⟨c, rest, hcons⟩ := List.exists_cons_of_ne_nil (mt String.toList_eq_nil_iff.mp h)
  rw [encode_eq_flatMap, hcons, List.flatMap_cons]
  exact List.append_ne_nil_of_left_ne_nil String.utf8EncodeChar_ne_nil _

@[simp] theorem encode_append (front back : String) :
    encode (front ++ back) = encode front ++ encode back := by
  simp only [encode_eq_flatMap, String.toList_append, List.flatMap_append]

/-- A byte below 128 is found in the encoding of the one character that it is the code of. -/
theorem toNat_eq_of_mem_utf8EncodeChar {c : Char} {b : UInt8} (h : b ∈ String.utf8EncodeChar c)
    (hb : b.toNat < 128) : c.toNat = b.toNat := by
  -- every byte of a longer encoding is a remainder with 128 or more added to it
  have hlarge : ∀ n k, 128 ≤ k → k + n < 256 → b ≠ UInt8.ofNat (n + k) := by
    rintro n k hk hn rfl
    rw [UInt8.toNat_ofNat_of_lt' (show n + k < 2 ^ 8 by omega)] at hb
    omega
  show c.val.toNat = b.toNat
  unfold String.utf8EncodeChar at h
  simp only at h
  split at h
  · rw [List.mem_singleton.mp h, UInt8.toNat_ofNat_of_lt' (show c.val.toNat < 2 ^ 8 by omega)]
  · exfalso
    split at h
    · simp only [List.mem_cons, List.not_mem_nil, or_false] at h
      rcases h with h | h <;> exact hlarge _ _ (by omega) (by omega) h
    split at h
    · simp only [List.mem_cons, List.not_mem_nil, or_false] at h
      rcases h with h | h | h <;> exact hlarge _ _ (by omega) (by omega) h
    · simp only [List.mem_cons, List.not_mem_nil, or_false] at h
      rcases h with h | h | h | h <;> exact hlarge _ _ (by omega) (by omega) h

theorem lf_not_mem_encode {text : String} (h : '\n' ∉ text.toList) : 10 ∉ encode text := by
  intro hmem
  rw [encode_eq_flatMap, List.mem_flatMap] at hmem
  obtain ⟨c, hc, hbyte⟩ := hmem
  have hcode : c.toNat = 10 := toNat_eq_of_mem_utf8EncodeChar hbyte (by decide)
  obtain rfl : c = '\n' := Char.toNat_inj.mp hcode
  exact h hc

/-- The last byte of a text belongs to its last character. -/
theorem getLast?_encode_ne_cr {text : String} (h : text.toList.getLast? ≠ some '\r') :
    (encode text).getLast? ≠ some 13 := by
  intro hlast
  rw [encode_eq_flatMap] at hlast
  rcases List.eq_nil_or_concat text.toList with hnil | ⟨front, c, hfront⟩
  · simp [hnil] at hlast
  · rw [List.concat_eq_append] at hfront
    rw [hfront, List.flatMap_append, List.flatMap_singleton,
      List.getLast?_append_of_ne_nil _ String.utf8EncodeChar_ne_nil] at hlast
    have hcode : c.toNat = 13 :=
      toNat_eq_of_mem_utf8EncodeChar (List.mem_of_getLast? hlast) (by decide)
    obtain rfl : c = '\r' := Char.toNat_inj.mp hcode
    exact h (by rw [hfront, List.getLast?_concat])

/-- The ways to write texts on lines of their own: each is ended by a line feed, or by a carriage
return and a line feed, and the last one need not be ended unless it is empty. -/
inductive OnLines : List String → String → Prop where
  | nil : OnLines [] ""
  | unended {line : String} (h : line ≠ "") : OnLines [line] line
  | lf {line : String} {rest : List String} {text : String} (h : OnLines rest text) :
      OnLines (line :: rest) (line ++ "\n" ++ text)
  | crlf {line : String} {rest : List String} {text : String} (h : OnLines rest text) :
      OnLines (line :: rest) (line ++ "\r\n" ++ text)

/-- Without line feeds and final carriage returns of their own, texts are found again among the lines
of their bytes. Induction on the way in which they are written. -/
theorem byteLines_of_onLines {texts : List String} {text : String} (h : OnLines texts text)
    (hfree : ∀ line ∈ texts, '\n' ∉ line.toList ∧ line.toList.getLast? ≠ some '\r') :
    byteLines (encode text) = texts.map encode := by
  induction h with
  | nil =>
    have hnil : encode "" = [] := by decide +kernel
    rw [hnil]
    exact linesBy_nil
  | @unended line hne =>
    exact linesBy_of_not_mem (encode_ne_nil hne) (lf_not_mem_encode (hfree line List.mem_cons_self).1)
  | @lf line rest text h ih =>
    obtain ⟨⟨hlf, hcr⟩, hrest⟩ := List.forall_mem_cons.mp hfree
    have hend : encode "\n" = [10] := by decide +kernel
    have hline : dropReturn 13 (encode line) = encode line := by
      rw [dropReturn, if_neg (by simpa using getLast?_encode_ne_cr hcr)]
    rw [encode_append, encode_append, hend, List.append_assoc, List.singleton_append, byteLines,
      linesBy_append_lf (lf_not_mem_encode hlf), hline]
    exact congrArg (encode line :: ·) (ih hrest)
  | @crlf line rest text h ih =>
    obtain ⟨⟨hlf, -⟩, hrest⟩ := List.forall_mem_cons.mp hfree
    have hend : encode "\r\n" = [13] ++ [10] := by decide +kernel
    have hline : dropReturn 13 (encode line ++ [13]) = encode line := by
      simp [dropReturn]
    have hnot : 10 ∉ encode line ++ [13] := by
      simpa using lf_not_mem_encode hlf
    rw [encode_append, encode_append, hend, ← List.append_assoc, List.append_assoc _ [10],
      List.singleton_append, byteLines, linesBy_append_lf hnot, hline]
    exact congrArg (encode line :: ·) (ih hrest)

end Chomsky.Text
