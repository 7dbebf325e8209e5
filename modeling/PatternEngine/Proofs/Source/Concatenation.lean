import PatternEngine.Proofs.Source.Lookalikes
import PatternEngine.Proofs.Source.Statements

/-!
# One source behind another

Statements have no terminator: a binding ends where another statement seems to start. A source can
follow another on a new line, unless the last statement of the first is a binding, the first
statement of the second is a binding without modifiers, and a comment stands between its name and
its equals sign. The name is then taken for a part of the expression before it, and the equals sign
for a fault.
-/

namespace PatternEngine

open Cursor (seam)

namespace Expr

variable {c d : Cursor} {k : Nat} {tail : Bytes} {inSource : Bool} {e : Expr} {item : Parse Expr}

/-! ## Expressions that run on -/

/-- The lines behind a text go on with items and come to a fault. -/
def Stalls (inSource : Bool) (item : Parse Expr) (tail : Bytes) : Prop :=
  ∀ pos (steps : Bytes) read result, (seam pos tail).rest.length ≤ steps.length →
    itemsFrom inSource item steps read (seam pos tail) ≠ .ok result

/-- There is a fault in the lines behind, so there are some. -/
theorem Stalls.ne_nil (hstalls : Stalls inSource item tail) : tail ≠ [] := by
  rintro rfl
  exact hstalls 0 [] [] _ (Nat.le_refl 0) rfl

/-- Where the text is at its end, what is read next are the lines behind with their fault. -/
theorem itemsFrom_ne_ok_of_nil (htail : tail.OnNewLine) (hstalls : Stalls inSource item tail)
    (hc : c.skipBlanks.rest = []) (steps : Bytes) (read : List Expr)
    (result : List Expr × Cursor) :
    itemsFrom inSource item (steps ++ tail) read (c.embed k tail) ≠ .ok result := by
  have hlong : (seam (k + (c.pos + c.rest.length)) tail).rest.length ≤ (steps ++ tail).length := by
    have hle : (seam (k + (c.pos + c.rest.length)) tail).rest.length ≤ tail.length :=
      (Cursor.reaches_skipBlanks _).length_le
    rw [List.length_append]
    omega
  have hskip := Cursor.skipBlanks_embed_of_nil (k := k) htail hc
  have hread := hstalls (k + (c.pos + c.rest.length)) (steps ++ tail) read result hlong
  cases hfuel : steps ++ tail with
  | nil => exact absurd (List.append_eq_nil_iff.mp hfuel).2 hstalls.ne_nil
  | cons step fuel =>
    rw [hfuel, itemsFrom, Cursor.skipBlanks_seam] at hread
    rw [itemsFrom, hskip]
    exact hread

/-- Items that go to the end of the text run on to the fault. -/
theorem itemsFrom_ne_ok_of_stalls (htail : Follows tail) (hitem : Moves k tail item)
    (hstalls : Stalls inSource item tail) (steps : Bytes) {read items : List Expr} {c d : Cursor}
    (hsteps : c.rest.length ≤ steps.length)
    (h : itemsFrom inSource item steps read c = .ok (items, d)) (hd : d.rest = [])
    (read' : List Expr) (result : List Expr × Cursor) :
    itemsFrom inSource item (steps ++ tail) read' (c.embed k tail) ≠ .ok result := by
  induction steps generalizing read c read' with
  | nil =>
    have hc : c.rest = [] := List.length_eq_zero_iff.mp (Nat.le_zero.mp hsteps)
    refine itemsFrom_ne_ok_of_nil htail.onNewLine hstalls ?_ [] read' result
    rwa [Cursor.skipBlanks_of_nil hc]
  | cons step steps ih =>
    by_cases hnow : endsSequence inSource c.skipBlanks = true
    · rw [itemsFrom_of_ends _ read hsteps hnow] at h
      cases h
      exact itemsFrom_ne_ok_of_nil htail.onNewLine hstalls hd _ read' result
    · rw [itemsFrom] at h
      obtain ⟨⟨next, c'⟩, hnext, h⟩ := Except.exists_of_bind_eq_ok ((if_neg hnow).symm.trans h)
      have hsteps' : c'.rest.length ≤ steps.length :=
        ((Cursor.reaches_skipBlanks c).trans_passes (hitem hnext).1).steps_left hsteps
      rw [List.cons_append, itemsFrom_embed_of_item htail hitem hnow hnext]
      exact ih hsteps' h (next.shift k :: read')

/-- A sequence that goes to the end of the text runs on to the fault. -/
theorem sequence_ne_ok_of_stalls (htail : Follows tail) (hitem : Moves k tail item)
    (hstalls : Stalls inSource item tail) (h : sequence inSource item c = .ok (e, d))
    (hd : d.rest = []) (result : Expr × Cursor) :
    sequence inSource item (c.embed k tail) ≠ .ok result := by
  obtain ⟨⟨items, c'⟩, hitems, h⟩ := Except.exists_of_bind_eq_ok h
  change (if items.isEmpty then _ else _) = _ at h
  split at h
  · cases h
  · obtain ⟨rfl, rfl⟩ := Prod.mk.inj (Except.ok.inj h)
    intro hread
    obtain ⟨items', hitems', -⟩ := Except.exists_of_bind_eq_ok hread
    exact itemsFrom_ne_ok_of_stalls htail hitem hstalls c.rest le_rfl hitems hd [] items' hitems'

/-- Further alternatives that go to the end of the text run on to the fault. -/
theorem alternativesFrom_ne_ok_of_stalls (htail : Follows tail) (hitem : Moves k tail item)
    (hstalls : Stalls inSource item tail) (steps : Bytes) {read alternatives : List Expr}
    {c d : Cursor} (hsteps : c.rest.length ≤ steps.length) (hblank : c.skipBlanks = c)
    (hne : c.rest ≠ []) (h : alternativesFrom inSource item steps read c = .ok (alternatives, d))
    (hd : d.rest = []) (steps' : Bytes) (hlong : (c.embed k tail).rest.length ≤ steps'.length)
    (read' : List Expr) (result : List Expr × Cursor) :
    alternativesFrom inSource item steps' read' (c.embed k tail) ≠ .ok result := by
  induction steps generalizing read c steps' read' with
  | nil => exact absurd (List.length_eq_zero_iff.mp (Nat.le_zero.mp hsteps)) hne
  | cons step steps ih =>
    by_cases hslash : c.peek? = some 0x2f
    · rw [alternativesFrom, hblank] at h
      obtain ⟨⟨next, c'⟩, hnext, h⟩ :=
        Except.exists_of_bind_eq_ok ((if_pos (beq_iff_eq.mpr hslash)).symm.trans h)
      have hmoves : MovesOn inSource k tail (sequence inSource item) :=
        sequence_movesOn htail hitem
      obtain ⟨hpass, hblank', -⟩ := hmoves hnext
      have hpass' : c.Passes c' :=
        (Cursor.passes_of_peek hslash).trans ((Cursor.reaches_skipBlanks _).trans_passes hpass)
      have hlt := hpass'.length_lt
      rw [List.length_cons] at hsteps
      rw [Cursor.rest_embed, List.length_append] at hlong
      cases steps' with
      | nil =>
        rw [List.length_nil] at hlong
        omega
      | cons step' steps' =>
        rw [alternativesFrom_embed_of_slash htail hblank hslash hpass.rest_ne_nil]
        intro hread
        obtain ⟨⟨next', e⟩, hnext', hread⟩ := Except.exists_of_bind_eq_ok hread
        by_cases hc' : c'.rest = []
        · exact sequence_ne_ok_of_stalls htail hitem hstalls hnext hc' _ hnext'
        · cases (hmoves.of_ne_nil htail hnext hc').symm.trans hnext'
          have hsteps' : c'.rest.length ≤ steps.length := by omega
          have hlong' : (c'.embed k tail).rest.length ≤ steps'.length := by
            rw [Cursor.rest_embed, List.length_append]
            rw [List.length_cons] at hlong
            omega
          exact ih hsteps' hblank' hc' h steps' hlong' (next.shift k :: read') hread
    · rw [alternativesFrom_of_no_slash _ read hblank hslash] at h
      cases h
      exact absurd hd hne

/-- Alternatives that go to the end of the text run on to the fault. -/
theorem choiceOf_ne_ok_of_stalls (htail : Follows tail) (hitem : Moves k tail item)
    (hstalls : Stalls inSource item tail) (h : choiceOf inSource item c = .ok (e, d))
    (hd : d.rest = []) (result : Expr × Cursor) :
    choiceOf inSource item (c.embed k tail) ≠ .ok result := by
  obtain ⟨⟨first, c'⟩, hfirst, h⟩ := Except.exists_of_bind_eq_ok h
  obtain ⟨⟨alternatives, d'⟩, hmore, h⟩ := Except.exists_of_bind_eq_ok h
  obtain ⟨rfl, rfl⟩ := Prod.mk.inj (Except.ok.inj h)
  have hmoves : MovesOn inSource k tail (sequence inSource item) :=
    sequence_movesOn htail hitem
  obtain ⟨-, hblank, -⟩ := hmoves hfirst
  intro hread
  obtain ⟨⟨first', f⟩, hfirst', hread⟩ := Except.exists_of_bind_eq_ok hread
  obtain ⟨more', hmore', -⟩ := Except.exists_of_bind_eq_ok hread
  by_cases hc' : c'.rest = []
  · exact sequence_ne_ok_of_stalls htail hitem hstalls hfirst hc' _ hfirst'
  · cases (hmoves.of_ne_nil htail hfirst hc').symm.trans hfirst'
    exact alternativesFrom_ne_ok_of_stalls htail hitem hstalls c'.rest le_rfl hblank hc' hmore hd
      _ le_rfl [first.shift k] more' hmore'

/-- An expression that goes to the end of the text runs on to the fault. -/
theorem expression_ne_ok_of_stalls (htail : Follows tail)
    (hstalls : Stalls inSource (Expr.item inSource nestingLimit) tail)
    (h : expression inSource c = .ok (e, d)) (hd : d.rest = []) (result : Expr × Cursor) :
    expression inSource (c.embed k tail) ≠ .ok result :=
  choiceOf_ne_ok_of_stalls htail (item_moves htail nestingLimit) hstalls h hd result

/-! ## Faults at an equals sign -/

/-- No statement starts with an equals sign. -/
theorem startsStatement_of_equals (hp : c.peek? = some 0x3d) : startsStatement c = false := by
  have hname : Ident.nameAhead c.rest = [] := by
    refine Ident.nameAhead_eq_nil_iff.mpr ?_
    rw [Cursor.peek?] at hp
    rw [hp]
    rfl
  have hwords : ∀ word ∈ statementWords, c.atWord word = false := by
    intro word hword
    refine Bool.eq_false_iff.mpr fun hat => ?_
    obtain ⟨hself, hne, -⟩ := of_mem_statementWords hword
    exact hne ((nameAhead_of_atWord hself hat).symm.trans hname)
  rw [startsStatement_of_no_word hwords, hp]
  rfl

/-- Every item reader is made from one for the next level down, if there is one. -/
theorem exists_item_eq (inSource : Bool) (levels : Nat) :
    ∃ inner, Expr.item inSource levels = itemOf inSource levels inner := by
  cases levels with
  | zero => exact ⟨_, rfl⟩
  | succ levels => exact ⟨_, rfl⟩

/-- Items are not read over an equals sign. -/
theorem itemsFrom_ne_ok_of_equals {levels : Nat} (steps : Bytes) (read : List Expr)
    (hsteps : c.rest.length ≤ steps.length) (hp : c.skipBlanks.peek? = some 0x3d)
    (result : List Expr × Cursor) :
    itemsFrom true (Expr.item true levels) steps read c ≠ .ok result := by
  obtain ⟨inner, hitem⟩ := exists_item_eq true levels
  cases steps with
  | nil =>
    have hc : c.rest = [] := List.length_eq_zero_iff.mp (Nat.le_zero.mp hsteps)
    rw [Cursor.skipBlanks_of_nil hc] at hp
    exact absurd hc (Cursor.rest_ne_nil_of_peek hp)
  | cons step steps =>
    have hon : ¬endsSequence true c.skipBlanks = true := by
      rw [endsSequence_of_not_mem true hp (by decide), startsStatement_of_equals hp]
      exact Bool.false_ne_true
    intro hread
    rw [itemsFrom, hitem] at hread
    obtain ⟨⟨next, d⟩, hnext, -⟩ := Except.exists_of_bind_eq_ok ((if_neg hon).symm.trans hread)
    exact itemOf_ne_ok true hp (by decide) (by decide) hnext

/-- No expression starts with an equals sign. -/
theorem expression_ne_ok_of_equals (hp : c.skipBlanks.peek? = some 0x3d) (result : Expr × Cursor) :
    expression true c ≠ .ok result := by
  intro hread
  obtain ⟨first, hfirst, -⟩ := Except.exists_of_bind_eq_ok hread
  obtain ⟨items, hitems, -⟩ := Except.exists_of_bind_eq_ok hfirst
  exact itemsFrom_ne_ok_of_equals c.rest [] le_rfl hp items hitems

end Expr

namespace Statement

variable {c d : Cursor} {k : Nat} {tail text : Bytes} {s : Statement} {ss ts : List Statement}

/-! ## How statements start -/

/-- A binding without modifiers. -/
def isPlainBinding : Statement → Bool
  | .bind definition => !definition.isLocal && !definition.isAlias
  | _ => false

/-- A modifier is one of the two words, and sets one of the two marks. -/
theorem Modifiers.add?_cases {modifiers more : Modifiers} {word : Ident}
    (h : modifiers.add? word = some more) :
    (word = ⟨none, "local"⟩ ∨ word = ⟨none, "alias"⟩) ∧ (more.isLocal || more.isAlias) = true := by
  unfold Modifiers.add? at h
  split at h
  · rename_i hlocal
    cases h
    simp only [Bool.and_eq_true, decide_eq_true_eq] at hlocal
    exact ⟨.inl hlocal.1.1, rfl⟩
  · split at h
    · rename_i halias
      cases h
      simp only [Bool.and_eq_true, decide_eq_true_eq] at halias
      exact ⟨.inr halias.1, Bool.or_true _⟩
    · cases h

/-- Where no modifier is read the word is the name of the binding. -/
theorem modifiersFrom_cases (steps : Nat) {modifiers modifiers' : Modifiers} {word name : Ident}
    {c d : Cursor} (h : modifiersFrom steps modifiers word c = .ok ((modifiers', name), d)) :
    modifiers' = modifiers ∧ name = word ∧ d = c ∨
      (modifiers'.isLocal || modifiers'.isAlias) = true := by
  induction steps generalizing modifiers word c with
  | zero =>
    cases h
    exact .inl ⟨rfl, rfl, rfl⟩
  | succ steps ih =>
    rw [modifiersFrom] at h
    split at h
    · cases h
      exact .inl ⟨rfl, rfl, rfl⟩
    · rename_i more hadd
      dsimp only at h
      split at h
      · cases h
      · rcases ih h with ⟨rfl, -, -⟩ | hsome
        · exact .inr (Modifiers.add?_cases hadd).2
        · exact .inr hsome

/-- Where a name is a word, the word is ahead. -/
theorem atWord_of_ahead? {word : String} {width : Nat}
    (hword : (Bytes.ofString word).toAscii = word)
    (h : Ident.ahead? c.rest = some (⟨none, word⟩, width)) : c.atWord word = true := by
  obtain ⟨hne, hname, -⟩ := Ident.ahead?_plain h
  exact Expr.atWord_of_nameAhead hne (Bytes.toAscii_injective (hname.symm.trans hword.symm))

/-- A binding starts with one of the words for modifiers, or it is a name, blanks and a single
equals sign. -/
theorem binding_start {first : Cursor} {word : Ident} {definition : Binding}
    (h : binding first word c = .ok (definition, d)) :
    (bind definition).isPlainBinding = false ∧ (word = ⟨none, "local"⟩ ∨ word = ⟨none, "alias"⟩) ∨
      (bind definition).isPlainBinding = true ∧ word.qualifier = none ∧ word.isKeyword = false ∧
        c.skipBlanks.peek? = some 0x3d ∧ (c.skipBlanks.advance 1).peek? ≠ some 0x3d := by
  obtain ⟨⟨⟨modifiers, name⟩, e⟩, hname, h⟩ := Except.exists_of_bind_eq_ok h
  dsimp only at h
  split at h
  · cases h
  rename_i hqualifier
  split at h
  · cases h
  rename_i hkeyword
  split at h
  · cases h
  rename_i hequals
  split at h
  · cases h
  obtain ⟨⟨body, f⟩, hbody, h⟩ := Except.exists_of_bind_eq_ok h
  obtain ⟨rfl, rfl⟩ := Prod.mk.inj (Except.ok.inj h)
  have hpeek : e.skipBlanks.peek? = some 0x3d := by simpa using hequals
  rcases modifiersFrom_cases 3 hname with ⟨rfl, rfl, rfl⟩ | hsome
  · refine .inr ⟨rfl, by simpa using hqualifier, Bool.eq_false_iff.mpr hkeyword, hpeek, ?_⟩
    intro hdouble
    have hskip : (e.skipBlanks.advance 1).skipBlanks.skipBlanks = e.skipBlanks.advance 1 := by
      rw [Cursor.skipBlanks_skipBlanks,
        Cursor.skipBlanks_of_peek hdouble (by decide) (by decide)]
    exact Expr.expression_ne_ok_of_equals (hskip.symm ▸ hdouble) _ hbody
  · refine .inl ⟨?_, ?_⟩
    · change (!modifiers.isLocal && !modifiers.isAlias) = false
      rw [← Bool.not_or, hsome]
      rfl
    · rw [modifiersFrom] at hname
      split at hname
      · cases hname
        cases hsome
      · rename_i more hadd
        exact (Modifiers.add?_cases hadd).1

/-- A statement starts with one of the words, or it is a binding without modifiers: its name, blanks
and a single equals sign. -/
theorem statement_start (h : statement c = .ok (s, d)) :
    s.isPlainBinding = false ∧ (∃ word ∈ Expr.statementWords, c.atWord word = true) ∨
      s.isPlainBinding = true ∧ ∃ name width, Ident.ahead? c.rest = some (⟨none, name⟩, width) ∧
        Ident.isKeyword ⟨none, name⟩ = false ∧ (c.advance width).skipBlanks.peek? = some 0x3d ∧
        ((c.advance width).skipBlanks.advance 1).peek? ≠ some 0x3d := by
  unfold statement at h
  split at h
  · cases h
  rename_i word width hword
  dsimp only at h
  split at h
  · rename_i hpackage
    subst hpackage
    obtain ⟨⟨name, e⟩, -, h⟩ := Except.exists_of_bind_eq_ok h
    obtain ⟨rfl, rfl⟩ := Prod.mk.inj (Except.ok.inj h)
    exact .inl ⟨rfl, "package", by decide, atWord_of_ahead? (by decide) hword⟩
  split at h
  · rename_i himport
    subst himport
    obtain ⟨⟨decls, e⟩, -, h⟩ := Except.exists_of_bind_eq_ok h
    obtain ⟨rfl, rfl⟩ := Prod.mk.inj (Except.ok.inj h)
    exact .inl ⟨rfl, "import", by decide, atWord_of_ahead? (by decide) hword⟩
  · obtain ⟨⟨definition, e⟩, hdefinition, h⟩ := Except.exists_of_bind_eq_ok h
    obtain ⟨rfl, rfl⟩ := Prod.mk.inj (Except.ok.inj h)
    rcases binding_start hdefinition with ⟨hplain, rfl | rfl⟩ | ⟨hplain, hqualifier, hrest⟩
    · exact .inl ⟨hplain, "local", by decide, atWord_of_ahead? (by decide) hword⟩
    · exact .inl ⟨hplain, "alias", by decide, atWord_of_ahead? (by decide) hword⟩
    · obtain ⟨qualifier, name⟩ := word
      cases hqualifier
      exact .inr ⟨hplain, name, width, hword, hrest⟩

/-- A statement starts with a byte that may begin a name. -/
theorem exists_peek_of_statement (h : statement c = .ok (s, d)) :
    ∃ b, c.peek? = some b ∧ Ident.isStart b = true := by
  unfold statement at h
  split at h
  · cases h
  · rename_i word width hword
    exact Expr.exists_peek_of_ahead? hword

/-- No statement starts with the word that renames an import. -/
theorem not_atWord_as (h : statement c = .ok (s, d)) : c.atWord "as" = false := by
  refine Bool.eq_false_iff.mpr fun has => ?_
  have hname := Expr.nameAhead_of_atWord (by decide) has
  rcases statement_start h with ⟨-, word, hword, hat⟩ | ⟨-, name, width, hahead, hkeyword, -⟩
  · have hwords : ∀ word ∈ Expr.statementWords, Bytes.ofString word ≠ Bytes.ofString "as" := by
      decide
    have hname' := Expr.nameAhead_of_atWord (Expr.of_mem_statementWords hword).1 hat
    exact hwords word hword (hname'.symm.trans hname)
  · obtain ⟨-, rfl, -⟩ := Ident.ahead?_plain hahead
    rw [hname] at hkeyword
    revert hkeyword
    decide

/-- A comment stands between the first name of a text and what follows it. -/
def commentBehindName (text : Bytes) : Bool :=
  let c := (Cursor.start text).skipBlanks
  match Ident.ahead? c.rest with
  | some (_, width) => ((c.rest.drop width).dropWhile Ascii.isBlank).head? == some 0x2d
  | none => false

/-- Blanks before anything but a dash are all that is passed over. -/
theorem rest_skipBlanks (h : (c.rest.dropWhile Ascii.isBlank).head? ≠ some 0x2d) :
    c.skipBlanks.rest = c.rest.dropWhile Ascii.isBlank := by
  obtain ⟨pos, bytes⟩ := c
  induction bytes generalizing pos with
  | nil => rfl
  | cons b bytes ih =>
    cases hb : Ascii.isBlank b with
    | true =>
      have hdrop : (b :: bytes).dropWhile Ascii.isBlank = bytes.dropWhile Ascii.isBlank := by
        rw [List.dropWhile_cons, if_pos hb]
      have hskip : (⟨pos, b :: bytes⟩ : Cursor).skipBlanks =
          (⟨pos + 1, bytes⟩ : Cursor).skipBlanks := if_pos hb
      rw [hskip]
      dsimp only at h ⊢
      rw [hdrop] at h ⊢
      exact ih (pos + 1) h
    | false =>
      have hdrop : (b :: bytes).dropWhile Ascii.isBlank = b :: bytes := by
        rw [List.dropWhile_cons, if_neg (Bool.eq_false_iff.mp hb)]
      dsimp only at h ⊢
      rw [hdrop] at h ⊢
      have hdash : b ≠ 0x2d := fun heq => h (congrArg some heq)
      rw [Cursor.skipBlanks_of_peek rfl hb hdash]

/-- What is passed over before an equals sign starts with a blank or a dash. -/
theorem exists_peek_before_equals (h : c.skipBlanks.peek? = some 0x3d) :
    ∃ b, c.peek? = some b ∧ (Ascii.isBlank b = true ∨ b = 0x2d ∨ b = 0x3d) := by
  cases hp : c.peek? with
  | none =>
    rw [Cursor.skipBlanks_of_nil (Cursor.peek?_eq_none_iff.mp hp), hp] at h
    cases h
  | some b =>
    refine ⟨b, rfl, ?_⟩
    cases hblank : Ascii.isBlank b with
    | true => exact .inl rfl
    | false =>
      by_cases hdash : b = 0x2d
      · exact .inr (.inl hdash)
      · rw [Cursor.skipBlanks_of_peek hp hblank hdash, hp] at h
        exact .inr (.inr (Option.some.inj h))

/-- No name goes on in what is passed over before an equals sign, or in the equals sign. -/
theorem not_part_before_equals (h : c.skipBlanks.peek? = some 0x3d) :
    ∀ b ∈ c.rest.head?, (Ident.isPart b || b == 0x2e) = false := by
  obtain ⟨b', hp, hkind⟩ := exists_peek_before_equals h
  intro b hb
  cases hp.symm.trans hb
  rcases hkind with hblank | rfl | rfl
  · obtain ⟨hpart, hdot⟩ := Expr.not_part_of_isBlank hblank
    rw [hpart, Bool.false_or]
    exact beq_eq_false_iff_ne.mpr hdot
  · decide
  · decide

/-- A single equals sign is behind blanks where no comment is. -/
theorem equalsAhead_of_peek (hequals : c.skipBlanks.peek? = some 0x3d)
    (hsingle : (c.skipBlanks.advance 1).peek? ≠ some 0x3d) : Expr.equalsAhead c.rest =
      !((c.rest.dropWhile Ascii.isBlank).head? == some 0x2d) := by
  unfold Expr.equalsAhead
  by_cases hdash : (c.rest.dropWhile Ascii.isBlank).head? = some 0x2d
  · rw [hdash]
    rfl
  · have hrest := rest_skipBlanks hdash
    rw [Cursor.peek?, hrest] at hequals
    rw [Cursor.peek?, Cursor.rest_advance, hrest, List.head?_drop] at hsingle
    rw [hequals, bne_iff_ne.mpr hsingle]
    rfl

/-- The name of a binding looks like a statement unless there is a comment behind it. -/
theorem startsStatement_of_name {name : String} {width : Nat}
    (hahead : Ident.ahead? c.rest = some (⟨none, name⟩, width))
    (hkeyword : Ident.isKeyword ⟨none, name⟩ = false)
    (hequals : (c.advance width).skipBlanks.peek? = some 0x3d)
    (hsingle : ((c.advance width).skipBlanks.advance 1).peek? ≠ some 0x3d) :
    Expr.startsStatement c =
      !(((c.rest.drop width).dropWhile Ascii.isBlank).head? == some 0x2d) := by
  obtain ⟨hne, rfl, rfl⟩ := Ident.ahead?_plain hahead
  obtain ⟨b, hp, hb⟩ := Expr.exists_peek_of_ahead? hahead
  have hwords : ∀ word ∈ Expr.statementWords, c.atWord word = false := by
    intro word hword
    refine Bool.eq_false_iff.mpr fun hat => ?_
    obtain ⟨hself, -, hascii, hkeyword'⟩ := Expr.of_mem_statementWords hword
    rw [Expr.nameAhead_of_atWord hself hat, hascii] at hkeyword
    cases hkeyword'.symm.trans hkeyword
  -- The name is left behind, and no further name or dot follows at once.
  have hbehind : (c.rest.dropWhile fun b => Ident.isPart b || b == 0x2e) =
      (c.advance (Ident.nameAhead c.rest).length).rest := by
    obtain ⟨rest, hrest⟩ := Ident.nameAhead_isPrefixOf c.rest
    have hdrop : (c.advance (Ident.nameAhead c.rest).length).rest = rest :=
      (congrArg (List.drop _) hrest.symm).trans List.drop_left
    have hstop := not_part_before_equals hequals
    have hall : ∀ b ∈ Ident.nameAhead c.rest, (Ident.isPart b || b == 0x2e) = true := by
      intro b hb
      rw [Ident.isPart_of_mem_nameAhead hb]
      rfl
    rw [hdrop] at hstop ⊢
    conv_lhs => rw [← hrest]
    rw [Bytes.dropWhile_append_tail hstop, List.dropWhile_eq_nil_iff.mpr hall]
    rfl
  rw [Expr.startsStatement_of_no_word hwords, hp, hbehind, equalsAhead_of_peek hequals hsingle]
  change (Ident.isStart b && _) = _
  rw [hb, Bool.true_and]
  rfl

/-- The name of a binding that does not look like a statement is read as an item, and its equals
sign is a fault. -/
theorem itemsFrom_ne_ok_of_statement (h : statement c = .ok (s, d))
    (hplain : s.isPlainBinding = true) (hstarts : Expr.startsStatement c = false) {levels : Nat}
    (steps : Bytes) (read : List Expr)
    (hsteps : c.rest.length ≤ steps.length) (result : List Expr × Cursor) :
    Expr.itemsFrom true (Expr.item true levels) steps read c ≠ .ok result := by
  rcases statement_start h with ⟨hno, -⟩ | ⟨-, name, width, hahead, hkeyword, hequals, -⟩
  · cases hplain.symm.trans hno
  obtain ⟨b, hp, hb⟩ := Expr.exists_peek_of_ahead? hahead
  obtain ⟨hpos, hle⟩ := Ident.ahead?_width hahead
  have hpart := Ident.isPart_of_isStart hb
  cases steps with
  | nil =>
    rw [List.length_nil] at hsteps
    omega
  | cons step steps =>
    have hon : ¬Expr.endsSequence true c.skipBlanks = true := by
      have hmarks : Expr.closingMarks.any Ident.isStart = false := by decide
      rw [Expr.skipBlanks_of_isStart hp hb,
        Expr.endsSequence_of_not_mem true hp (Bytes.not_mem_of_any hmarks hb), hstarts]
      exact Bool.false_ne_true
    have hitem : Expr.item true levels c =
        .ok (.ref ⟨none, name⟩ (c.pos + 1), c.advance width) := by
      obtain ⟨inner, hinner⟩ := Expr.exists_item_eq true levels
      rw [hinner, Expr.itemOf_of_plain true hp (Expr.not_mem_itemMarks_of_isPart hpart), hahead]
      dsimp only
      rw [if_neg (Bool.eq_false_iff.mp hkeyword)]
      obtain ⟨b', hp', hkind⟩ := exists_peek_before_equals hequals
      refine Expr.repeated_of_no_mark hp' ?_ _
      rcases hkind with hblank | rfl | rfl
      · have hmarks : Expr.repetitionMarks.any Ascii.isBlank = false := by decide
        exact Bytes.not_mem_of_any hmarks hblank
      · decide
      · decide
    have hsteps' : (c.advance width).rest.length ≤ steps.length := by
      rw [Cursor.rest_advance, List.length_drop]
      rw [List.length_cons] at hsteps
      omega
    intro hread
    rw [Expr.itemsFrom] at hread
    replace hread := (if_neg hon).symm.trans hread
    rw [Expr.skipBlanks_of_isStart hp hb, hitem] at hread
    exact Expr.itemsFrom_ne_ok_of_equals steps _ hsteps' hequals result hread

/-! ## What a source puts behind another -/

/-- Behind a line feed the first word of a text is at the seam. -/
theorem seam_newline (pos : Nat) (text : Bytes) :
    seam pos (0x0a :: text) = (Cursor.start text).skipBlanks.embed (pos + 1) [] := by
  rw [← Cursor.skipBlanks_embed_nil, Cursor.embed]
  change (⟨pos + 1, text⟩ : Cursor).skipBlanks = _
  rw [Cursor.start, List.append_nil]
  rfl

/-- The first statement of a source is at the seam, with its positions moved. -/
theorem statement_seam (h : Reads (Cursor.start text) ss) (hs : s ∈ ss.head?) (pos : Nat) :
    ∃ d, statement (seam pos (0x0a :: text)) = .ok (s.shift (pos + 1), d) := by
  cases h with
  | done _ => cases hs
  | step h hrest =>
    cases hs
    obtain ⟨-, -, hcarried⟩ := statement_embed (k := pos + 1) follows_nil h
    obtain ⟨d', hs', -⟩ := hcarried fun _ _ => Expr.ends_nil true
    rw [seam_newline]
    exact ⟨d', hs'⟩

/-- Nothing but a statement is at the seam. -/
theorem seam_cases (h : Reads (Cursor.start text) ss) (pos : Nat) :
    (seam pos (0x0a :: text)).rest = [] ∨
      ∃ s ∈ ss.head?, ∃ d, statement (seam pos (0x0a :: text)) = .ok (s.shift (pos + 1), d) := by
  cases ss with
  | nil =>
    cases h with
    | done h =>
      rw [seam_newline, Cursor.rest_embed, h]
      exact .inl rfl
  | cons s ss => exact .inr ⟨s, rfl, statement_seam h rfl pos⟩

/-- A byte at the seam is the first of a name. -/
theorem isStart_of_peek_seam (h : Reads (Cursor.start text) ss) {pos : Nat} {b : UInt8}
    (hb : (seam pos (0x0a :: text)).peek? = some b) : Ident.isStart b = true := by
  rcases seam_cases h pos with hnil | ⟨s, -, d, hs⟩
  · cases (Cursor.peek?_eq_none_iff.mpr hnil).symm.trans hb
  · obtain ⟨b', hp, hstart⟩ := exists_peek_of_statement hs
    cases hp.symm.trans hb
    exact hstart

/-- A source can stand behind statements on a new line. -/
theorem follows_of_reads (h : Reads (Cursor.start text) ss) : Follows (0x0a :: text) where
  onNewLine := .inr ⟨text, rfl⟩
  no_equals := by
    intro hequals
    have hrest : (seam 0 (0x0a :: text)).rest = (0x0a :: text).dropWhile Ascii.isBlank := by
      refine rest_skipBlanks (c := ⟨0, 0x0a :: text⟩) ?_
      rw [hequals]
      decide
    have hpeek : (seam 0 (0x0a :: text)).peek? = some 0x3d := by
      rw [Cursor.peek?, hrest, hequals]
    have hstart := isStart_of_peek_seam h hpeek
    revert hstart
    decide
  no_as pos := by
    rcases seam_cases h pos with hnil | ⟨s, -, d, hs⟩
    · rw [Cursor.atWord, hnil]
      rfl
    · exact not_atWord_as hs
  no_comma pos hcomma := by
    have hstart := isStart_of_peek_seam h hcomma
    revert hstart
    decide

@[simp] theorem isPlainBinding_shift (k : Nat) (s : Statement) :
    (s.shift k).isPlainBinding = s.isPlainBinding := by
  cases s <;> rfl

/-- At the seam a statement seems to start unless it is a binding without modifiers that has a
comment behind its name. -/
theorem startsStatement_seam (h : Reads (Cursor.start text) ss) (hs : s ∈ ss.head?) (pos : Nat) :
    Expr.startsStatement (seam pos (0x0a :: text)) =
      !(s.isPlainBinding && commentBehindName text) := by
  obtain ⟨d, hread⟩ := statement_seam h hs pos
  rcases statement_start hread with ⟨hplain, word, hword, hat⟩ |
    ⟨hplain, name, width, hahead, hkeyword, hequals, hsingle⟩
  · rw [isPlainBinding_shift] at hplain
    rw [hplain, Expr.startsStatement_eq, Bool.or_eq_true_iff.mpr (.inl ?_)]
    · rfl
    · exact List.any_eq_true.mpr ⟨word, hword, hat⟩
  · rw [isPlainBinding_shift] at hplain
    rw [hplain, Bool.true_and, startsStatement_of_name hahead hkeyword hequals hsingle]
    have hrest : (seam pos (0x0a :: text)).rest = (Cursor.start text).skipBlanks.rest := by
      rw [seam_newline, Cursor.rest_embed, List.append_nil]
    rw [hrest] at hahead ⊢
    rw [commentBehindName, hahead]

/-- A source whose first statement looks like one ends an expression that is in front of it. -/
theorem ends_of_reads (h : Reads (Cursor.start text) ss)
    (hlooks : (ss.head?.any isPlainBinding && commentBehindName text) = false) :
    Expr.Ends true (0x0a :: text) where
  endsSequence pos := by
    rcases seam_cases h pos with hnil | ⟨s, hs, -⟩
    · exact Expr.endsSequence_of_nil hnil
    · rw [hs] at hlooks
      change (s.isPlainBinding && commentBehindName text) = false at hlooks
      rw [Expr.endsSequence_inSource, startsStatement_seam h hs, hlooks]
      exact Bool.or_true _
  no_slash pos hslash := by
    have hstart := isStart_of_peek_seam h hslash
    revert hstart
    decide

/-- A source whose first statement does not look like one lets an expression in front of it run on.
-/
theorem stalls_of_reads (h : Reads (Cursor.start text) ss)
    (hlooks : (ss.head?.any isPlainBinding && commentBehindName text) = true) :
    Expr.Stalls true (Expr.item true nestingLimit) (0x0a :: text) := by
  intro pos steps read result hsteps
  cases hs : ss.head? with
  | none =>
    rw [hs] at hlooks
    cases hlooks
  | some s =>
    rw [hs] at hlooks
    change (s.isPlainBinding && commentBehindName text) = true at hlooks
    obtain ⟨d, hread⟩ := statement_seam h hs pos
    have hstarts := startsStatement_seam h hs pos
    rw [hlooks] at hstarts
    have hplain : (s.shift (pos + 1)).isPlainBinding = true := by
      rw [isPlainBinding_shift]
      exact (Bool.and_eq_true_iff.mp hlooks).1
    exact itemsFrom_ne_ok_of_statement hread hplain hstarts steps read hsteps result

/-- The first statement of the second source runs on from the last of the first. -/
def runsOn (ss ts : List Statement) (text : Bytes) : Bool :=
  ss.getLast?.any isBinding && ts.head?.any isPlainBinding && commentBehindName text

/-- A binding that goes to the end of the text runs on to the fault. -/
theorem statement_ne_ok_of_stalls (htail : Expr.Follows tail)
    (hstalls : Expr.Stalls true (Expr.item true nestingLimit) tail)
    (h : statement c = .ok (s, d)) (hbinding : s.isBinding = true) (hd : d.rest = [])
    (result : Statement × Cursor) : statement (c.embed k tail) ≠ .ok result := by
  unfold statement at h ⊢
  rw [Cursor.rest_embed, Ident.ahead?_append (Ident.not_part_of_onNewLine htail.onNewLine)]
  split at h
  · cases h
  rename_i word width hword
  have hle := (Ident.ahead?_width hword).2
  dsimp only at h ⊢
  rw [← Cursor.embed_advance hle]
  split at h
  · obtain ⟨name, -, h⟩ := Except.exists_of_bind_eq_ok h
    cases h
    cases hbinding
  rename_i hpackage
  rw [if_neg hpackage]
  split at h
  · obtain ⟨decls, -, h⟩ := Except.exists_of_bind_eq_ok h
    cases h
    cases hbinding
  rename_i himport
  rw [if_neg himport]
  obtain ⟨⟨definition, e⟩, hdefinition, h⟩ := Except.exists_of_bind_eq_ok h
  obtain ⟨rfl, rfl⟩ := Prod.mk.inj (Except.ok.inj h)
  obtain ⟨f, -, hbody, heq⟩ := binding_embed_eq (k := k) htail.onNewLine hdefinition
  intro hread
  obtain ⟨definition', hdefinition', -⟩ := Except.exists_of_bind_eq_ok hread
  obtain ⟨body', hbody', -⟩ := Except.exists_of_bind_eq_ok (heq.symm.trans hdefinition')
  exact Expr.expression_ne_ok_of_stalls htail hstalls hbody hd body' hbody'

/-- Statements whose last runs on to the fault are no statements. -/
theorem Reads.not_append (htail : Follows tail)
    (hstalls : Expr.Stalls true (Expr.item true nestingLimit) tail) (h : Reads c ss)
    (hlast : ∃ s ∈ ss.getLast?, s.isBinding = true) (ts : List Statement) :
    ¬Reads (c.embed k tail) ts := by
  induction h generalizing ts with
  | done h =>
    obtain ⟨s, hs, -⟩ := hlast
    cases hs
  | step h hreads ih =>
    rename_i c d s ss
    obtain ⟨hpass, hblank, hcarried⟩ := statement_embed (k := k) htail h
    have hskip := Cursor.skipBlanks_embed (k := k) htail.onNewLine hpass.rest_ne_nil
    intro hall
    cases hall with
    | done hend =>
      rw [hskip, Cursor.rest_embed] at hend
      exact hpass.rest_ne_nil (List.append_eq_nil_iff.mp hend).1
    | step h' hrest' =>
      rename_i e t ts
      rw [hskip] at h'
      cases hreads with
      | done hd =>
        -- The last statement is a binding, which does not stop at the end of its text.
        obtain ⟨last, hmem, hbinding⟩ := hlast
        cases hmem
        rw [hblank hbinding] at hd
        exact statement_ne_ok_of_stalls htail.toFollows hstalls h hbinding hd _ h'
      | step hnext hmore =>
        have hreads := Reads.step hnext hmore
        obtain ⟨d', hs, hd'⟩ := hcarried fun hbinding hd => by
          rw [hblank hbinding] at hnext
          exact absurd hd (passes_of_statement hnext).rest_ne_nil
        obtain ⟨-, rfl⟩ := Prod.mk.inj (Except.ok.inj (hs.symm.trans h'))
        refine ih ?_ ts (hrest'.congr hd'.symm)
        rwa [List.getLast?_cons_cons] at hlast

/-- The statements of a source are at the seam, their positions moved. -/
theorem reads_seam (h : Reads (Cursor.start text) ss) (pos : Nat) :
    Reads (seam pos (0x0a :: text)) (ss.map (shift (pos + 1))) := by
  have hend : ∀ pos, Reads (seam pos []) [] := fun pos => .done rfl
  have hmoved :=
    Reads.append (k := pos + 1) follows_nil h (fun _ _ _ => Expr.ends_nil true) (hend _)
  rw [List.append_nil] at hmoved
  refine hmoved.congr ?_
  rw [seam_newline, Cursor.skipBlanks_embed_nil, Cursor.skipBlanks_embed_nil,
    Cursor.skipBlanks_skipBlanks]

/-- The statements of a source, and behind them those of a second one on a new line, their positions
moved; where its first statement runs on from the last before it, nothing is read. -/
theorem listOfBytes_append {text' : Bytes} (h : listOfBytes text = .ok ss)
    (h' : listOfBytes text' = .ok ts) (hpackage : (∀ t ∈ ts, t.isPackage = false) ∨ ss = []) :
    (runsOn ss ts text' = false →
      listOfBytes (text ++ 0x0a :: text') = .ok (ss ++ ts.map (shift (text.length + 1)))) ∧
    (runsOn ss ts text' = true → ∀ us, listOfBytes (text ++ 0x0a :: text') ≠ .ok us) := by
  obtain ⟨hreads, hnone⟩ := listOfBytes_eq_ok_iff.mp h
  obtain ⟨hreads', hnone'⟩ := listOfBytes_eq_ok_iff.mp h'
  have htail := follows_of_reads hreads'
  have hstart : (Cursor.start text).embed 0 (0x0a :: text') =
      Cursor.start (text ++ 0x0a :: text') := rfl
  constructor
  · intro hlooks
    refine listOfBytes_eq_ok_iff.mpr ⟨?_, ?_⟩
    · have hends : ∀ s ∈ ss.getLast?, s.isBinding = true → Expr.Ends true (0x0a :: text') := by
        intro s hs hbinding
        refine ends_of_reads hreads' ?_
        rwa [runsOn, hs, Option.any_some, hbinding, Bool.true_and] at hlooks
      have hrest : Reads (seam (0 + (0 + text.length)) (0x0a :: text'))
          (ts.map (shift (text.length + 1))) := by
        rw [Nat.zero_add, Nat.zero_add]
        exact reads_seam hreads' text.length
      have hall := hreads.append htail hends hrest
      rwa [funext shift_zero, List.map_id'] at hall
    · rcases hpackage with hpackage | rfl
      · have hmoved : ∀ s ∈ ts.map (shift (text.length + 1)), s.isPackage = false := by
          simpa using hpackage
        cases ss with
        | nil => exact fun s hs => hmoved s (List.mem_of_mem_tail hs)
        | cons first ss =>
          intro s hs
          rcases List.mem_append.mp hs with hs | hs
          · exact hnone s hs
          · exact hmoved s hs
      · intro s hs
        rw [List.nil_append, ← List.map_tail] at hs
        obtain ⟨t, ht, rfl⟩ := List.mem_map.mp hs
        exact (isPackage_shift _ t).trans (hnone' t ht)
  · intro hruns us hus
    obtain ⟨hall, -⟩ := listOfBytes_eq_ok_iff.mp hus
    obtain ⟨hfirst, hcomment⟩ := Bool.and_eq_true_iff.mp hruns
    obtain ⟨hlast, hplain⟩ := Bool.and_eq_true_iff.mp hfirst
    have hstalls := stalls_of_reads hreads' (Bool.and_eq_true_iff.mpr ⟨hplain, hcomment⟩)
    exact hreads.not_append htail hstalls ((Option.any_eq_true _ _).mp hlast) us hall

/-- A source behind another is read behind it, its positions moved; where its first statement runs
on from the last before it, nothing is read. -/
theorem listOfText_append {a b : String} {as bs : List Statement} (ha : listOfText a = .ok as)
    (hb : listOfText b = .ok bs) (hpackage : (∀ s ∈ bs, s.isPackage = false) ∨ as = []) :
    (runsOn as bs (Bytes.ofString b) = false → listOfText (a ++ "\n" ++ b) =
      .ok (as ++ bs.map (shift ((Bytes.ofString a).length + 1)))) ∧
    (runsOn as bs (Bytes.ofString b) = true → ∃ fault, listOfText (a ++ "\n" ++ b) =
      .error fault) := by
  replace ha := Except.mapError_eq_ok.mp ha
  replace hb := Except.mapError_eq_ok.mp hb
  obtain ⟨hread, hfault⟩ := listOfBytes_append ha hb hpackage
  have hbytes : Bytes.ofString (a ++ "\n" ++ b) = Bytes.ofString a ++ 0x0a :: Bytes.ofString b := by
    rw [Bytes.ofString_append, Bytes.ofString_append, List.append_assoc]
    rfl
  simp only [listOfText, Except.mapError_eq_ok, hbytes]
  refine ⟨hread, fun hruns => ?_⟩
  cases hresult : listOfBytes (Bytes.ofString a ++ 0x0a :: Bytes.ofString b) with
  | error fault => exact ⟨fault.toViolation, rfl⟩
  | ok us => exact absurd hresult (hfault hruns us)

/-- A comment behind the modifier of a binding does no harm. -/
theorem listOfText_append_alias :
    listOfText "a = \"x\" -- end" =
      .ok [.bind ⟨"a", .literal (Bytes.ofString "x"), false, false, 1⟩] ∧
    listOfText "alias -- c\nb = a" = .ok [.bind ⟨"b", .ref ⟨none, "a"⟩ 16, true, false, 1⟩] ∧
    listOfText ("a = \"x\" -- end" ++ "\n" ++ "alias -- c\nb = a") = .ok [
      .bind ⟨"a", .literal (Bytes.ofString "x"), false, false, 1⟩,
      .bind ⟨"b", .ref ⟨none, "a"⟩ 31, true, false, 16⟩] := by
  have ha : listOfText "a = \"x\" -- end" =
      .ok [.bind ⟨"a", .literal (Bytes.ofString "x"), false, false, 1⟩] := by cbv
  have hb : listOfText "alias -- c\nb = a" =
      .ok [.bind ⟨"b", .ref ⟨none, "a"⟩ 16, true, false, 1⟩] := by cbv
  have hpackage : ∀ s ∈ [Statement.bind ⟨"b", .ref ⟨none, "a"⟩ 16, true, false, 1⟩],
      s.isPackage = false := by simp [isPackage]
  exact ⟨ha, hb, (listOfText_append ha hb (.inl hpackage)).1 rfl⟩

/-- A comment behind the name of a binding: the source is accepted on its own and refused behind
another. -/
theorem not_listOfText_append_comment :
    listOfText "x = \"a\"" = .ok [.bind ⟨"x", .literal (Bytes.ofString "a"), false, false, 1⟩] ∧
    listOfText "y -- c\n= \"b\"" =
      .ok [.bind ⟨"y", .literal (Bytes.ofString "b"), false, false, 1⟩] ∧
    listOfText ("x = \"a\"" ++ "\n" ++ "y -- c\n= \"b\"") ≠ .ok [
      .bind ⟨"x", .literal (Bytes.ofString "a"), false, false, 1⟩,
      .bind ⟨"y", .literal (Bytes.ofString "b"), false, false, 9⟩] := by
  have hread : ∃ fault, listOfText ("x = \"a\"" ++ "\n" ++ "y -- c\n= \"b\"") = .error fault :=
    ⟨_, by cbv⟩
  obtain ⟨fault, hfault⟩ := hread
  refine ⟨by cbv, by cbv, ?_⟩
  rw [hfault]
  intro h
  cases h

end Statement

end PatternEngine
