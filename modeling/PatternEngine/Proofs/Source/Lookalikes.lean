import PatternEngine.Proofs.Source.Expressions

/-!
# What looks like a statement

A name that leads over blanks to an equals sign looks like a binding, and one of four words looks
like the start of another statement. No expression holds the first: the name is read as items, and
the equals sign is none. It can hold the second, in a reference that has such a word for its prefix.
-/

namespace PatternEngine.Expr

variable {c d : Cursor} {e : Expr} {levels : Nat} {inner inner' : Option (Parse Expr)}

/-- The words that a statement may start with, besides the names of bindings. -/
def statementWords : List String := ["package", "import", "local", "alias"]

/-- Each of the words is read as a name, and the language keeps it for itself. -/
theorem of_mem_statementWords {word : String} (h : word ∈ statementWords) :
    Ident.nameAhead (Bytes.ofString word) = Bytes.ofString word ∧ Bytes.ofString word ≠ [] ∧
      (Bytes.ofString word).toAscii = word ∧ Ident.isKeyword ⟨none, word⟩ = true := by
  have hwords : ∀ word ∈ statementWords,
      Ident.nameAhead (Bytes.ofString word) = Bytes.ofString word ∧ Bytes.ofString word ≠ [] ∧
      (Bytes.ofString word).toAscii = word ∧ Ident.isKeyword ⟨none, word⟩ = true := by decide
  exact hwords word h

/-- Some reference has one of these words for its prefix. -/
def usesStatementWord (e : Expr) : Bool :=
  e.references.any fun (name, _) => name.qualifier.any statementWords.contains

mutual

/-- Some reference outside of predicates has one of these words for its prefix. -/
def exposesStatementWord : Expr → Bool
  | .literal _ | .set _ | .any | .inputStart | .inputEnd | .lookahead _ _ => false
  | .ref name _ => name.qualifier.any statementWords.contains
  | .seq items | .choice items => someExposesStatementWord items
  | .repetition body _ _ => exposesStatementWord body

/-- Some expression of a list has such a reference. -/
def someExposesStatementWord : List Expr → Bool
  | [] => false
  | item :: items => exposesStatementWord item || someExposesStatementWord items

end

@[simp] theorem someExposesStatementWord_eq_any (items : List Expr) :
    someExposesStatementWord items = items.any exposesStatementWord := by
  induction items with
  | nil => rfl
  | cons item items ih => rw [someExposesStatementWord, ih, List.any_cons]

mutual

theorem exposesStatementWord_shift (k : Nat) : ∀ e : Expr,
    (e.shift k).exposesStatementWord = e.exposesStatementWord
  | .literal _ | .set _ | .any | .inputStart | .inputEnd | .lookahead _ _ | .ref _ _ => rfl
  | .seq items | .choice items => someExposesStatementWord_shift k items
  | .repetition body _ _ => exposesStatementWord_shift k body

theorem someExposesStatementWord_shift (k : Nat) : ∀ items : List Expr,
    someExposesStatementWord (shiftAll k items) = someExposesStatementWord items
  | [] => rfl
  | item :: items => by
    rw [shiftAll, someExposesStatementWord, someExposesStatementWord,
      exposesStatementWord_shift k item, someExposesStatementWord_shift k items]

end

theorem usesStatementWord_shift (k : Nat) (e : Expr) :
    (e.shift k).usesStatementWord = e.usesStatementWord := by
  rw [usesStatementWord, references_shift, List.any_map]
  rfl

/-! ## Items that are names -/

/-- The bytes that an item may start with, besides those of names. -/
def itemMarks : List UInt8 := [0x3e, 0x21, 0x22, 0x5b, 0x2e, 0x5e, 0x24, 0x28, 0x7b]

theorem not_mem_itemMarks_of_isPart {b : UInt8} (hb : Ident.isPart b = true) : b ∉ itemMarks := by
  have hmarks : itemMarks.any Ident.isPart = false := by decide
  exact Bytes.not_mem_of_any hmarks hb

/-- The bytes that a sequence ends before. -/
def closingMarks : List UInt8 := [0x2f, 0x29, 0x7d]

/-- At another byte a sequence ends only where a statement starts. -/
theorem endsSequence_of_not_mem (inSource : Bool) {b : UInt8} (hp : c.peek? = some b)
    (hb : b ∉ closingMarks) : endsSequence inSource c = (inSource && startsStatement c) := by
  simp only [closingMarks, List.mem_cons, List.not_mem_nil, or_false, not_or] at hb
  simp [endsSequence, hp, hb]

/-- At another byte an item is a name with its repetitions. -/
theorem itemOf_of_plain (inSource : Bool) {b : UInt8} (hp : c.peek? = some b) (hb : b ∉ itemMarks) :
    itemOf inSource levels inner c = match Ident.ahead? c.rest with
      | some (name, width) =>
        if name.isKeyword then c.fail (.reservedWord name)
        else repeated levels (.ref name (c.pos + 1)) (c.advance width)
      | none => c.fail (.unexpected (Utf8.firstChar c.rest)) := by
  simp only [itemMarks, List.mem_cons, List.not_mem_nil, or_false, not_or] at hb
  have hmark : c.peek?.bind lookaheadMark? = none := by
    rw [hp]
    simp [lookaheadMark?, hb]
  unfold itemOf
  rw [hmark]
  dsimp only
  unfold operand
  rw [hp]
  simp only [beq_iff_eq, hb, if_false]
  cases Ident.ahead? c.rest with
  | none => rfl
  | some read =>
    obtain ⟨name, width⟩ := read
    dsimp only
    split
    · rfl
    · rfl

/-- Where no name starts, no item does. -/
theorem itemOf_ne_ok (inSource : Bool) {b : UInt8} (hp : c.peek? = some b) (hb : b ∉ itemMarks)
    (hstart : Ident.isStart b = false) : itemOf inSource levels inner c ≠ .ok (e, d) := by
  have hnone : Ident.ahead? c.rest = none := by
    refine Ident.ahead?_eq_none_iff.mpr (Ident.nameAhead_eq_nil_iff.mpr ?_)
    rw [Cursor.peek?] at hp
    rwa [hp]
  rw [itemOf_of_plain inSource hp hb, hnone]
  intro h
  cases h

/-- An item that starts with a name is a reference with its repetitions. -/
theorem exists_of_itemOf {inSource : Bool} {b : UInt8} (hp : c.peek? = some b)
    (hpart : Ident.isPart b = true) (h : itemOf inSource levels inner c = .ok (e, d)) :
    ∃ name width, Ident.ahead? c.rest = some (name, width) ∧ name.isKeyword = false ∧
      repeated levels (.ref name (c.pos + 1)) (c.advance width) = .ok (e, d) := by
  rw [itemOf_of_plain inSource hp (not_mem_itemMarks_of_isPart hpart)] at h
  split at h
  · rename_i name width hname
    split at h
    · cases h
    · rename_i hkeyword
      exact ⟨name, width, hname, Bool.eq_false_iff.mpr hkeyword, h⟩
  · cases h

/-- The bytes that a repetition mark may start with. -/
def repetitionMarks : List UInt8 := [0x7b, 0x2a, 0x2b, 0x3f]

/-- At another byte there are no repetitions. -/
theorem repeated_of_no_mark {b : UInt8} (hp : c.peek? = some b) (hb : b ∉ repetitionMarks)
    (body : Expr) : repeated levels body c = .ok (body, c) := by
  simp only [repetitionMarks, List.mem_cons, List.not_mem_nil, or_false, not_or] at hb
  have hmark : repetitionMark c = .ok (none, c) := by
    rw [repetitionMark, hp]
    simp [hb]
  unfold repeated
  rw [hmark]
  rfl

/-- What repetitions have in common with their operand. -/
theorem eq_of_repeated {α : Type} (f : Expr → α)
    (hf : ∀ body least most, f (.repetition body least most) = f body) {body : Expr} {c d : Cursor}
    (h : repeated levels body c = .ok (e, d)) : f e = f body := by
  induction levels generalizing body c with
  | zero =>
    unfold repeated at h
    obtain ⟨⟨mark, c'⟩, -, h⟩ := Except.exists_of_bind_eq_ok h
    cases mark with
    | none =>
      cases h
      rfl
    | some bounds => cases h
  | succ levels ih =>
    unfold repeated at h
    obtain ⟨⟨mark, c'⟩, -, h⟩ := Except.exists_of_bind_eq_ok h
    cases mark with
    | none =>
      cases h
      rfl
    | some bounds =>
      have hrest : f e = f (.repetition body bounds.1 bounds.2) := ih h
      rw [hrest, hf]

theorem references_repeated {body : Expr} (h : repeated levels body c = .ok (e, d)) :
    e.references = body.references :=
  eq_of_repeated references (fun _ _ _ => rfl) h

theorem exposesStatementWord_repeated {body : Expr} (h : repeated levels body c = .ok (e, d)) :
    e.exposesStatementWord = body.exposesStatementWord :=
  eq_of_repeated exposesStatementWord (fun _ _ _ => rfl) h

/-! ## What looks like a binding -/

/-- A run of name bytes and dots, which may be empty, leads over blanks to an equals sign. -/
def LeadsToEquals (bytes : Bytes) : Prop :=
  ∃ run blanks rest, bytes = run ++ (blanks ++ 0x3d :: rest) ∧
    (∀ b ∈ run, Ident.isPart b || b == 0x2e) ∧ ∀ b ∈ blanks, Ascii.isBlank b

/-- Where none of the words is ahead, a statement starts with a name that has an equals sign behind
it. -/
theorem startsStatement_of_no_word (hword : ∀ word ∈ statementWords, c.atWord word = false) :
    startsStatement c = (c.peek?.any Ident.isStart &&
      equalsAhead (c.rest.dropWhile fun b => Ident.isPart b || b == 0x2e)) := by
  have hany : ["package", "import", "local", "alias"].any c.atWord = false := by
    refine List.any_eq_false.mpr fun word hmem => ?_
    rw [hword word hmem]
    exact Bool.false_ne_true
  rw [startsStatement_eq, hany, Bool.false_or]

/-- Where a statement seems to start without one of the words, a name leads to an equals sign. -/
theorem leadsToEquals_of_startsStatement (h : startsStatement c = true)
    (hword : ∀ word ∈ statementWords, c.atWord word = false) : LeadsToEquals c.rest := by
  rw [startsStatement_of_no_word hword, Bool.and_eq_true, equalsAhead, Bool.and_eq_true,
    beq_iff_eq] at h
  obtain ⟨-, hequals, -⟩ := h
  obtain ⟨rest, hrest⟩ := List.head?_eq_some_iff.mp hequals
  refine ⟨c.rest.takeWhile fun b => Ident.isPart b || b == 0x2e,
    (c.rest.dropWhile fun b => Ident.isPart b || b == 0x2e).takeWhile Ascii.isBlank, rest,
    ?_, ?_, fun b hb => List.mem_takeWhile_imp hb⟩
  · rw [← hrest, List.takeWhile_append_dropWhile, List.takeWhile_append_dropWhile]
  · intro b hb
    exact List.mem_takeWhile_imp (p := fun b => Ident.isPart b || b == 0x2e) hb

/-- A text that leads to an equals sign starts with a byte of what leads there. -/
theorem LeadsToEquals.exists_head {bytes : Bytes} (h : LeadsToEquals bytes) :
    ∃ b, bytes.head? = some b ∧
      (Ident.isPart b || b == 0x2e || Ascii.isBlank b || b == 0x3d) = true := by
  obtain ⟨run, blanks, rest, rfl, hrun, hblanks⟩ := h
  cases run with
  | nil =>
    cases blanks with
    | nil => exact ⟨_, rfl, by simp⟩
    | cons b blanks => exact ⟨b, rfl, by simp [hblanks b (by simp)]⟩
  | cons b run => exact ⟨b, rfl, by simp [hrun b (by simp)]⟩

/-- No repetition is marked on the way to an equals sign. -/
theorem repeated_of_leadsToEquals (h : LeadsToEquals c.rest) (body : Expr) :
    repeated levels body c = .ok (body, c) := by
  obtain ⟨b, hb, hkind⟩ := h.exists_head
  have hmarks : (repetitionMarks.any fun mark =>
      Ident.isPart mark || mark == 0x2e || Ascii.isBlank mark || mark == 0x3d) = false := by decide
  exact repeated_of_no_mark hb (Bytes.not_mem_of_any hmarks hkind) body

/-- No name goes on in a blank. -/
theorem not_part_of_isBlank {b : UInt8} (hb : Ascii.isBlank b = true) :
    Ident.isPart b = false ∧ b ≠ 0x2e := by
  simp only [Ascii.isBlank, Bool.or_eq_true, beq_iff_eq, or_assoc] at hb
  rcases hb with rfl | rfl | rfl | rfl | rfl <;> decide

/-- No name goes on in the blanks before an equals sign. -/
theorem not_part_of_equals {blanks : Bytes} (rest : Bytes)
    (hblanks : ∀ b ∈ blanks, Ascii.isBlank b) :
    ∀ b ∈ (blanks ++ 0x3d :: rest).head?, Ident.isPart b = false ∧ b ≠ 0x2e := by
  intro b hb
  cases blanks with
  | nil =>
    cases hb
    decide
  | cons b' blanks =>
    cases hb
    exact not_part_of_isBlank (hblanks b (by simp))

/-- At a dot there is an item that takes one byte. -/
theorem itemOf_of_dot (inSource : Bool) (hp : c.peek? = some 0x2e) :
    itemOf inSource levels inner c = repeated levels .any (c.advance 1) := by
  unfold itemOf
  rw [hp]
  change (operand inSource levels inner c >>= _) = _
  unfold operand
  rw [hp]
  rfl

/-- What is read of a run that leads to an equals sign is a part of the run. -/
theorem leadsToEquals_of_itemOf (hc : LeadsToEquals c.rest)
    (h : itemOf false levels inner c = .ok (e, d)) : c.Passes d ∧ LeadsToEquals d.rest := by
  obtain ⟨run, blanks, rest, hrest, hrun, hblanks⟩ := hc
  have hbehind := not_part_of_equals rest hblanks
  -- What is left behind a part of the run leads to the same equals sign.
  have hleft : ∀ n, 0 < n → n ≤ run.length →
      c.Passes (c.advance n) ∧ LeadsToEquals (c.advance n).rest := by
    intro n hpos hn
    have hle : n ≤ c.rest.length := by
      rw [hrest, List.length_append]
      omega
    refine ⟨Cursor.passes_advance hpos hle, run.drop n, blanks, rest, ?_,
      fun b hb => hrun b (List.mem_of_mem_drop hb), hblanks⟩
    rw [Cursor.rest_advance, hrest, List.drop_append_of_le_length hn]
  obtain ⟨b, hp, hkind⟩ := LeadsToEquals.exists_head ⟨run, blanks, rest, hrest, hrun, hblanks⟩
  cases hpart : Ident.isPart b with
  | true =>
    obtain ⟨name, width, hname, -, h⟩ := exists_of_itemOf hp hpart h
    rw [hrest, Ident.ahead?_append hbehind] at hname
    obtain ⟨hpos, hle⟩ := Ident.ahead?_width hname
    have hc' := hleft width hpos hle
    rw [repeated_of_leadsToEquals hc'.2] at h
    cases h
    exact hc'
  | false =>
    by_cases hdot : b = 0x2e
    · subst hdot
      have hpos : 1 ≤ run.length := by
        refine List.length_pos_iff.mpr fun hnil => ?_
        rw [hrest, hnil, List.nil_append] at hp
        exact (hbehind _ hp).2 rfl
      have hc' := hleft 1 Nat.one_pos hpos
      rw [itemOf_of_dot false hp, repeated_of_leadsToEquals hc'.2] at h
      cases h
      exact hc'
    · have hmarks : (itemMarks.any fun mark => mark != 0x2e &&
          (Ident.isPart mark || mark == 0x2e || Ascii.isBlank mark || mark == 0x3d)) = false := by
        decide
      have hmark : b ∉ itemMarks :=
        Bytes.not_mem_of_any hmarks (Bool.and_eq_true_iff.mpr ⟨bne_iff_ne.mpr hdot, hkind⟩)
      have hstart : Ident.isStart b = false := by
        refine Bool.eq_false_iff.mpr fun hstart => ?_
        cases (Ident.isPart_of_isStart hstart).symm.trans hpart
      exact absurd h (itemOf_ne_ok false hp hmark hstart)

/-- Blanks are a part of the way to an equals sign. -/
theorem LeadsToEquals.skipBlanks (h : LeadsToEquals c.rest) : LeadsToEquals c.skipBlanks.rest := by
  obtain ⟨run, blanks, rest, hrest, hrun, hblanks⟩ := h
  cases run with
  | cons b run =>
    have hp : c.peek? = some b := by
      rw [Cursor.peek?, hrest]
      rfl
    have hkind := hrun b (by simp)
    have hblank : Ascii.isBlank b = false := by
      refine Bool.eq_false_iff.mpr fun hb => ?_
      obtain ⟨hpart, hdot⟩ := not_part_of_isBlank hb
      rw [hpart, Bool.false_or, beq_iff_eq] at hkind
      exact hdot hkind
    have hdash : b ≠ 0x2d := by
      rintro rfl
      revert hkind
      decide
    rw [Cursor.skipBlanks_of_peek hp hblank hdash]
    exact ⟨b :: run, blanks, rest, hrest, hrun, hblanks⟩
  | nil =>
    obtain ⟨pos, bytes⟩ := c
    cases hrest
    change LeadsToEquals (⟨pos, blanks ++ 0x3d :: rest⟩ : Cursor).skipBlanks.rest
    clear hrun
    induction blanks generalizing pos with
    | nil => exact ⟨[], [], rest, rfl, by simp, by simp⟩
    | cons b blanks ih =>
      have hskip : (⟨pos, b :: blanks ++ 0x3d :: rest⟩ : Cursor).skipBlanks =
          (⟨pos + 1, blanks ++ 0x3d :: rest⟩ : Cursor).skipBlanks :=
        if_pos (hblanks b (by simp))
      rw [hskip]
      exact ih (fun b' hb' => hblanks b' (by simp [hb'])) (pos + 1)

/-- Nothing that leads to an equals sign is read as items. -/
theorem itemsFrom_ne_ok_of_leadsToEquals (steps : Bytes) {read items : List Expr} {c d : Cursor}
    (hsteps : c.rest.length ≤ steps.length) (hc : LeadsToEquals c.skipBlanks.rest) :
    itemsFrom false (itemOf false levels inner) steps read c ≠ .ok (items, d) := by
  induction steps generalizing read c with
  | nil =>
    have hnil : c.rest = [] := List.length_eq_zero_iff.mp (Nat.le_zero.mp hsteps)
    obtain ⟨b, hb, -⟩ := hc.exists_head
    rw [Cursor.skipBlanks_of_nil hnil, hnil] at hb
    cases hb
  | cons step steps ih =>
    intro h
    obtain ⟨b, hp, hkind⟩ := hc.exists_head
    have hmarks : (closingMarks.any fun mark =>
        Ident.isPart mark || mark == 0x2e || Ascii.isBlank mark || mark == 0x3d) = false := by
      decide
    have hon : ¬endsSequence false c.skipBlanks = true := by
      rw [endsSequence_of_not_mem false hp (Bytes.not_mem_of_any hmarks hkind)]
      exact Bool.false_ne_true
    rw [itemsFrom] at h
    obtain ⟨⟨next, c'⟩, hnext, h⟩ := Except.exists_of_bind_eq_ok ((if_neg hon).symm.trans h)
    obtain ⟨hpass, hc'⟩ := leadsToEquals_of_itemOf hc hnext
    have hsteps' : c'.rest.length ≤ steps.length :=
      ((Cursor.reaches_skipBlanks c).trans_passes hpass).steps_left hsteps
    exact ih hsteps' hc'.skipBlanks h

/-- Where items are read, only one of the words makes the look of a statement. -/
theorem exists_word_of_itemsFrom {steps : Bytes} {read items : List Expr}
    (hsteps : c.rest.length ≤ steps.length)
    (h : itemsFrom false (itemOf false levels inner) steps read c = .ok (items, d))
    (hstarts : startsStatement c.skipBlanks = true) :
    ∃ word ∈ statementWords, c.skipBlanks.atWord word = true := by
  refine Classical.byContradiction fun hno => ?_
  refine itemsFrom_ne_ok_of_leadsToEquals steps hsteps ?_ h
  refine leadsToEquals_of_startsStatement hstarts fun word hword => ?_
  exact Bool.eq_false_iff.mpr fun hat => hno ⟨word, hword, hat⟩

/-! ## What looks like another statement -/

/-- Ahead is an identifier that has a word of statements for its prefix. -/
def AtPrefixedWord (c : Cursor) : Prop :=
  ∃ word ∈ statementWords, ∃ base width, Ident.ahead? c.rest = some (⟨some word, base⟩, width)

/-- A text that starts with an identifier starts with a byte that may begin one. -/
theorem exists_peek_of_ahead? {read : Ident × Nat} (h : Ident.ahead? c.rest = some read) :
    ∃ b, c.peek? = some b ∧ Ident.isStart b = true := by
  have hsome : c.peek?.any Ident.isStart = true := by
    refine Bool.not_eq_false _ ▸ fun hno => ?_
    rw [Ident.ahead?_eq_none_iff.mpr (Ident.nameAhead_eq_nil_iff.mpr hno)] at h
    cases h
  cases hp : c.peek? with
  | none =>
    rw [hp] at hsome
    cases hsome
  | some b =>
    rw [hp] at hsome
    exact ⟨b, rfl, hsome⟩

theorem AtPrefixedWord.exists_peek (h : AtPrefixedWord c) :
    ∃ b, c.peek? = some b ∧ Ident.isStart b = true := by
  obtain ⟨word, -, base, width, hahead⟩ := h
  exact exists_peek_of_ahead? hahead

/-- There are no blanks before an identifier. -/
theorem skipBlanks_of_isStart {b : UInt8} (hp : c.peek? = some b) (hb : Ident.isStart b = true) :
    c.skipBlanks = c := by
  refine Cursor.skipBlanks_of_peek hp (Bool.eq_false_iff.mpr fun hblank => ?_) ?_
  · cases (Ident.isPart_of_isStart hb).symm.trans (not_part_of_isBlank hblank).1
  · rintro rfl
    revert hb
    decide

/-- A word that ends ahead is the name that the text starts with. -/
theorem nameAhead_of_atWord {word : String}
    (hword : Ident.nameAhead (Bytes.ofString word) = Bytes.ofString word)
    (h : c.atWord word = true) : Ident.nameAhead c.rest = Bytes.ofString word := by
  rw [Cursor.atWord, Bool.and_eq_true, Bool.not_eq_true'] at h
  obtain ⟨more, hmore⟩ := List.isPrefixOf_iff_prefix.mp h.1
  have hend : ∀ b ∈ more.head?, Ident.isPart b = false := by
    intro b hb
    have hnext := h.2
    rw [← hmore, List.drop_left, hb] at hnext
    exact hnext
  rw [← hmore, Ident.nameAhead_append hend, hword]

/-- The name that a text starts with is a word that ends ahead. -/
theorem atWord_of_nameAhead {word : String} (hne : Ident.nameAhead c.rest ≠ [])
    (h : Ident.nameAhead c.rest = Bytes.ofString word) : c.atWord word = true := by
  have hend := Ident.not_isPart_behind_name hne
  rw [h] at hend
  rw [Cursor.atWord, Bool.and_eq_true, hend]
  exact ⟨List.isPrefixOf_iff_prefix.mpr (h ▸ Ident.nameAhead_isPrefixOf c.rest), rfl⟩

/-- An item that starts with one of the words is a reference with the word for its prefix. -/
theorem prefixedWord_of_itemOf {inSource : Bool} {word : String} (hword : word ∈ statementWords)
    (hat : c.atWord word = true) (h : itemOf inSource levels inner c = .ok (e, d)) :
    AtPrefixedWord c ∧ e.usesStatementWord = true := by
  obtain ⟨hself, hne, hascii, hkey⟩ := of_mem_statementWords hword
  have hname := nameAhead_of_atWord hself hat
  have hsome : ∃ read, Ident.ahead? c.rest = some read := by
    refine Option.ne_none_iff_exists'.mp fun hnone => hne ?_
    rw [← hname]
    exact Ident.ahead?_eq_none_iff.mp hnone
  obtain ⟨read, hread⟩ := hsome
  obtain ⟨b, hp, hstart⟩ := exists_peek_of_ahead? hread
  obtain ⟨name, width, hahead, hnotKey, hrep⟩ :=
    exists_of_itemOf hp (Ident.isPart_of_isStart hstart) h
  obtain ⟨-, hcases⟩ := Ident.ahead?_cases hahead
  rw [hname, hascii] at hcases
  rcases hcases with ⟨rfl, -⟩ | ⟨rest, -, -, rfl, -⟩
  · cases hkey.symm.trans hnotKey
  · refine ⟨⟨word, hword, _, _, hahead⟩, ?_⟩
    rw [usesStatementWord, references_repeated hrep]
    simp [references, hword]

/-- A prefixed word looks like a statement. -/
theorem startsStatement_of_prefixedWord (h : AtPrefixedWord c) : startsStatement c = true := by
  obtain ⟨word, hword, base, width, hahead⟩ := h
  obtain ⟨hne, hcases⟩ := Ident.ahead?_cases hahead
  rcases hcases with ⟨hname, -⟩ | ⟨rest, -, -, hname, -⟩
  · cases hname
  · obtain ⟨-, -, hascii, -⟩ := of_mem_statementWords hword
    have hfirst : Ident.nameAhead c.rest = Bytes.ofString word := by
      refine Bytes.toAscii_injective ?_
      rw [hascii]
      exact (Option.some.inj (congrArg Ident.qualifier hname)).symm
    rw [startsStatement_eq, Bool.or_eq_true]
    exact .inl (List.any_eq_true.mpr ⟨word, hword, atWord_of_nameAhead hne hfirst⟩)

/-- In a source a sequence ends also where a statement starts. -/
theorem endsSequence_inSource (c : Cursor) :
    endsSequence true c = (endsSequence false c || startsStatement c) := by
  unfold endsSequence
  cases c.peek? with
  | none => rfl
  | some b => simp

end PatternEngine.Expr
