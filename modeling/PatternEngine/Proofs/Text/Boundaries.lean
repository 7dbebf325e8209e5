import PatternEngine.Proofs.Match.Characters

/-!
# Character boundaries

A text is cut between characters and nowhere else. Whether an offset is between two characters is
told by the byte there alone: it is none that goes on with a character. A byte of ASCII is a
character of its own, so that there is a boundary on either side of it.
-/

namespace PatternEngine.Utf8

/-- The offset is at the start or the end of the text or at a byte that a character starts with. -/
def isBoundary (text : Bytes) (pos : Nat) : Bool :=
  pos == 0 || pos == text.length || text[pos]?.any fun b => !isContinuation b

/-- The string between two offsets, which must be in order and each at a boundary. -/
def cut? (text : Bytes) (start stop : Nat) : Option String :=
  if start ≤ stop ∧ isBoundary text start ∧ isBoundary text stop then
    decode? (text.slice start stop)
  else none

/-- The bytes are the encoding of characters. -/
def IsText (text : Bytes) : Prop := ∃ chars : List Char, text = chars.flatMap String.utf8EncodeChar

variable {text : Bytes} {b : UInt8} {chars : List Char} {start stop pos : Nat}

theorem isText_ofString (s : String) : IsText (Bytes.ofString s) :=
  ⟨s.toList, by rw [← Bytes.ofString_ofList, String.ofList_toList]⟩

/-- A well-formed text is decoded. -/
theorem decode?_flatMap (chars : List Char) :
    decode? (chars.flatMap String.utf8EncodeChar) = some (String.ofList chars) := by
  rw [decode?, scan_flatMap, allChars_map_some]
  rfl

theorem not_isContinuation_of_ascii (h : b < 0x80) : isContinuation b = false := by
  revert b
  decide +kernel

/-- No character starts with a byte that goes on with one. -/
theorem lead_of_isContinuation (h : isContinuation b = true) : lead b = .invalid := by
  revert b
  decide +kernel

theorem announcedWidth_of_ascii (h : b < 0x80) : announcedWidth b = 1 := by
  revert b
  decide +kernel

/-- The bytes of a character but the first go on with it, and there are none behind a byte of
ASCII. -/
theorem exists_utf8EncodeChar (c : Char) : ∃ first rest, String.utf8EncodeChar c = first :: rest ∧
    isContinuation first = false ∧ (∀ b ∈ rest, isContinuation b = true) ∧
    (first < 0x80 → rest = []) := by
  obtain ⟨first, rest, hc, hlen, hrest⟩ := exists_announced c
  refine ⟨first, rest, hc, Bool.eq_false_iff.mpr fun hfirst => ?_, hrest, fun hfirst => ?_⟩
  · have hscan := scanFrom_utf8EncodeChar c []
    rw [hc, List.append_nil, scanFrom_cons, lead_of_isContinuation hfirst] at hscan
    cases hscan
  · exact List.length_eq_zero_iff.mp (Nat.succ.inj (hlen.trans (announcedWidth_of_ascii hfirst)))

/-! ## Boundaries and characters -/

theorem isBoundary_zero (text : Bytes) : isBoundary text 0 = true := rfl

theorem isBoundary_length (text : Bytes) : isBoundary text text.length = true := by
  simp [isBoundary]

theorem isBoundary_of_getElem? (hb : text[pos]? = some b) (h : isContinuation b = false) :
    isBoundary text pos = true := by
  simp [isBoundary, hb, h]

theorem le_length_of_isBoundary (h : isBoundary text pos = true) : pos ≤ text.length := by
  by_contra hlt
  have hnone : text[pos]? = none := List.getElem?_eq_none (by omega)
  have hne : pos ≠ 0 ∧ pos ≠ text.length := by omega
  simp [isBoundary, hnone, hne] at h

/-- At a boundary that is not at the end there is a byte that starts a character. -/
theorem not_isContinuation_of_isBoundary (h : isBoundary text pos = true) (hpos : 0 < pos)
    (hb : text[pos]? = some b) : isContinuation b = false := by
  have hlt : pos < text.length := (List.getElem?_eq_some_iff.mp hb).1
  simpa [isBoundary, hb, hpos.ne', hlt.ne] using h

/-- A boundary of a text is one of what is left of the text. -/
theorem isBoundary_drop (h : isBoundary text stop = true) (hle : start ≤ stop) :
    isBoundary (text.drop start) (stop - start) = true := by
  obtain ⟨more, rfl⟩ := Nat.exists_eq_add_of_le hle
  rw [Nat.add_sub_cancel_left]
  rcases Nat.eq_zero_or_pos more with rfl | hpos
  · exact isBoundary_zero _
  rcases Nat.eq_or_lt_of_le (le_length_of_isBoundary h) with heq | hlt
  · have hmore : more = (text.drop start).length := by
      rw [List.length_drop]
      omega
    rw [hmore]
    exact isBoundary_length _
  · have hget : text[start + more]? = some text[start + more] := List.getElem?_eq_getElem hlt
    have hfirst := not_isContinuation_of_isBoundary h (by omega) hget
    rw [← List.getElem?_drop] at hget
    exact isBoundary_of_getElem? hget hfirst

/-- A boundary has whole characters on both sides. -/
theorem exists_split (h : isBoundary (chars.flatMap String.utf8EncodeChar) pos = true) :
    ∃ front back, chars = front ++ back ∧
      pos = (front.flatMap String.utf8EncodeChar).length := by
  induction chars generalizing pos with
  | nil => exact ⟨[], [], rfl, Nat.le_zero.mp (le_length_of_isBoundary h)⟩
  | cons c chars ih =>
    obtain ⟨first, rest, hc, -, hrest, -⟩ := exists_utf8EncodeChar c
    rcases Nat.eq_zero_or_pos pos with rfl | hpos
    · exact ⟨[], c :: chars, rfl, rfl⟩
    -- Within the bytes of the character there is no boundary.
    have hwidth : (String.utf8EncodeChar c).length ≤ pos := by
      by_contra hlt
      obtain ⟨i, rfl⟩ := Nat.exists_eq_succ_of_ne_zero hpos.ne'
      have hi : i < rest.length := by
        rw [hc, List.length_cons] at hlt
        omega
      have hget : (List.flatMap String.utf8EncodeChar (c :: chars))[i + 1]? = some rest[i] := by
        simp [hc, List.getElem?_append_left hi]
      cases (hrest _ (List.getElem_mem hi)).symm.trans
        (not_isContinuation_of_isBoundary h hpos hget)
    have hbehind := isBoundary_drop h hwidth
    rw [List.flatMap_cons, List.drop_left] at hbehind
    obtain ⟨front, back, rfl, hpos⟩ := ih hbehind
    refine ⟨c :: front, back, rfl, ?_⟩
    rw [List.flatMap_cons, List.length_append]
    omega

/-- What is left of a text at a boundary is a text. -/
theorem IsText.drop (ht : IsText text) (h : isBoundary text pos = true) :
    IsText (text.drop pos) := by
  obtain ⟨chars, rfl⟩ := ht
  obtain ⟨front, back, rfl, rfl⟩ := exists_split h
  exact ⟨back, by rw [List.flatMap_append, List.drop_left]⟩

/-- What stands before a boundary is a text. -/
theorem IsText.take (ht : IsText text) (h : isBoundary text pos = true) :
    IsText (text.take pos) := by
  obtain ⟨chars, rfl⟩ := ht
  obtain ⟨front, back, rfl, rfl⟩ := exists_split h
  exact ⟨front, by rw [List.flatMap_append, List.take_left]⟩

/-! ## ASCII -/

theorem isBoundary_of_ascii (hb : text[pos]? = some b) (h : b < 0x80) :
    isBoundary text pos = true :=
  isBoundary_of_getElem? hb (not_isContinuation_of_ascii h)

/-- Behind a byte of ASCII there is a boundary. -/
theorem IsText.isBoundary_succ (ht : IsText text) (hb : text[pos]? = some b) (h : b < 0x80) :
    isBoundary text (pos + 1) = true := by
  obtain ⟨chars, hchars⟩ := ht.drop (isBoundary_of_ascii hb h)
  have hdrop := List.drop_eq_getElem_cons (List.getElem?_eq_some_iff.mp hb).1
  rw [(List.getElem?_eq_some_iff.mp hb).2, hchars] at hdrop
  cases chars with
  | nil => cases hdrop
  | cons c chars =>
    obtain ⟨first, rest, hc, -, -, hone⟩ := exists_utf8EncodeChar c
    rw [List.flatMap_cons, hc, List.cons_append] at hdrop
    obtain ⟨rfl, hrest⟩ := List.cons.inj hdrop
    rw [hone h, List.nil_append] at hrest
    -- What is behind the byte is empty or starts with another character.
    cases chars with
    | nil =>
      have hlen := congrArg List.length hrest
      have hlt := (List.getElem?_eq_some_iff.mp hb).1
      rw [List.flatMap_nil, List.length_nil, List.length_drop] at hlen
      have hend : pos + 1 = text.length := by omega
      rw [hend]
      exact isBoundary_length text
    | cons d chars =>
      obtain ⟨next, others, hd, hnext, -⟩ := exists_utf8EncodeChar d
      have hget : text[pos + 1]? = some next := by
        rw [← List.head?_drop, ← hrest, List.flatMap_cons, hd]
        rfl
      exact isBoundary_of_getElem? hget hnext

/-- Bytes of ASCII between a boundary and an offset make the offset a boundary. -/
theorem IsText.isBoundary_add (ht : IsText text) (h : isBoundary text start = true) {bytes : Bytes}
    (hbytes : bytes <+: text.drop start) (hascii : bytes.IsAscii) :
    isBoundary text (start + bytes.length) = true := by
  rcases List.eq_nil_or_concat bytes with rfl | ⟨bytes, last, rfl⟩
  · exact h
  · rw [List.concat_eq_append] at hbytes hascii ⊢
    obtain ⟨tail, htail⟩ := hbytes
    have hget : text[start + bytes.length]? = some last := by
      rw [← List.getElem?_drop, ← htail]
      simp
    rw [List.length_append, List.length_singleton, ← Nat.add_assoc]
    exact ht.isBoundary_succ hget (hascii last (by simp))

/-! ## Cuts -/

/-- A cut between boundaries gives the string of the bytes between them. -/
theorem IsText.exists_cut? (ht : IsText text) (hle : start ≤ stop)
    (hstart : isBoundary text start = true) (hstop : isBoundary text stop = true) :
    ∃ s, cut? text start stop = some s ∧ Bytes.ofString s = text.slice start stop := by
  obtain ⟨chars, hchars⟩ := (ht.drop hstart).take (isBoundary_drop hstop hle)
  refine ⟨String.ofList chars, ?_, ?_⟩
  · rw [cut?, if_pos ⟨hle, hstart, hstop⟩, Bytes.slice, hchars, decode?_flatMap]
  · rw [Bytes.ofString_ofList, ← hchars, Bytes.slice]

example : cut? (Bytes.ofString "é") 1 2 = none := by cbv

/-- A cut that is made is one of the bytes between two boundaries. -/
theorem IsText.of_cut? (ht : IsText text) {s : String} (h : cut? text start stop = some s) :
    Bytes.ofString s = text.slice start stop := by
  by_cases hc : start ≤ stop ∧ isBoundary text start = true ∧ isBoundary text stop = true
  · obtain ⟨s', hs', heq⟩ := ht.exists_cut? hc.1 hc.2.1 hc.2.2
    cases h.symm.trans hs'
    exact heq
  · rw [cut?, if_neg hc] at h
    cases h

/-- A cut of ASCII bytes gives the string of their characters. -/
theorem IsText.cut?_ascii (ht : IsText text) (hstart : isBoundary text start = true)
    {bytes : Bytes} (hbytes : bytes <+: text.drop start) (hascii : bytes.IsAscii) :
    cut? text start (start + bytes.length) = some bytes.toAscii := by
  obtain ⟨s, hs, heq⟩ :=
    ht.exists_cut? (Nat.le_add_right _ _) hstart (ht.isBoundary_add hstart hbytes hascii)
  rw [Bytes.slice, Nat.add_sub_cancel_left, ← List.prefix_iff_eq_take.mp hbytes,
    ← Bytes.ofString_toAscii hascii] at heq
  rw [hs, Bytes.ofString_injective heq]

/-- The first character of a text is that of the string. -/
theorem firstChar_ofString (s : String) :
    firstChar (Bytes.ofString s) = s.toList.headD (Char.ofNat 0) := by
  obtain ⟨chars, rfl⟩ : ∃ chars, s = String.ofList chars := ⟨s.toList, String.ofList_toList.symm⟩
  rw [Bytes.ofString_ofList, String.toList_ofList]
  cases chars with
  | nil => rfl
  | cons c chars =>
    have hwidth : (String.utf8EncodeChar c).length ≤ 4 := by
      rw [String.length_utf8EncodeChar]
      exact c.utf8Size_le_four
    rw [firstChar, decodeLossyChars, scan, List.flatMap_cons, List.take_append,
      List.take_of_length_le hwidth, scanFrom_utf8EncodeChar]
    rfl

end PatternEngine.Utf8
