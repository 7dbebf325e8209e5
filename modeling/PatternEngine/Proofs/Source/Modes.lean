import PatternEngine.Proofs.Source.Lookalikes
import PatternEngine.Source.Parser

/-!
# Expressions within a source

On its own an expression is read as far as it goes; within a source it ends where a statement seems
to start. The two readings are the same where no reference has one of the words for its prefix that
statements start with. A reference with such a prefix is taken for a statement, which it cannot be,
unless it stands directly behind the mark of a predicate, where no end is looked for.
-/

namespace PatternEngine.Expr

variable {c d : Cursor} {e : Expr} {levels : Nat} {inner inner' : Option (Parse Expr)}

/-! ## The two readings -/

/-- What the first reader accepts is read alike by the second, and exposes a word of statements only
if the text looks like a statement; or else it uses such a word and the second fails. -/
def Agrees (read read' : Parse Expr) : Prop :=
  ∀ ⦃c : Cursor⦄ ⦃e : Expr⦄ ⦃d : Cursor⦄, read c = .ok (e, d) →
    read' c = .ok (e, d) ∧ (startsStatement c = false → e.exposesStatementWord = false) ∨
      e.usesStatementWord = true ∧ ∀ e' d', read' c ≠ .ok (e', d')

/-- What the first reader accepts is read alike by the second, and exposes no word of statements; or
else it uses such a word and the second fails or comes to an end at it. -/
def AgreesOn (read read' : Parse Expr) : Prop :=
  ∀ ⦃c : Cursor⦄ ⦃e : Expr⦄ ⦃d : Cursor⦄, read c = .ok (e, d) →
    read' c = .ok (e, d) ∧ e.exposesStatementWord = false ∨
      e.usesStatementWord = true ∧ ∀ e' d', read' c = .ok (e', d') → AtPrefixedWord d'

theorem usesStatementWord_of_mem {items : List Expr} (he : e ∈ items)
    (h : e.usesStatementWord = true) : items.any usesStatementWord = true :=
  List.any_eq_true.mpr ⟨e, he, h⟩

theorem usesStatementWord_all (items : List Expr) :
    ((referencesOfAll items).any fun (name, _) => name.qualifier.any statementWords.contains) =
      items.any usesStatementWord := by
  induction items with
  | nil => rfl
  | cons item items ih => rw [referencesOfAll, List.any_append, ih]; rfl

theorem usesStatementWord_ofItems (items : List Expr) :
    (ofItems items).usesStatementWord = items.any usesStatementWord := by
  match items with
  | [] => rfl
  | [item] => simp [ofItems]
  | item :: item' :: items => exact usesStatementWord_all _

theorem usesStatementWord_ofAlternatives (alternatives : List Expr) :
    (ofAlternatives alternatives).usesStatementWord = alternatives.any usesStatementWord := by
  match alternatives with
  | [] => rfl
  | [alternative] => simp [ofAlternatives]
  | alternative :: alternative' :: alternatives => exact usesStatementWord_all _

theorem exposesStatementWord_ofItems (items : List Expr) :
    (ofItems items).exposesStatementWord = items.any exposesStatementWord := by
  match items with
  | [] => rfl
  | [item] => simp [ofItems]
  | item :: item' :: items => exact someExposesStatementWord_eq_any _

theorem exposesStatementWord_ofAlternatives (alternatives : List Expr) :
    (ofAlternatives alternatives).exposesStatementWord =
      alternatives.any exposesStatementWord := by
  match alternatives with
  | [] => rfl
  | [alternative] => simp [ofAlternatives]
  | alternative :: alternative' :: alternatives => exact someExposesStatementWord_eq_any _

/-- Items that have been read stay read. -/
theorem mem_of_itemsFrom {item : Parse Expr} (steps : Bytes) {read items : List Expr} {c d : Cursor}
    (h : itemsFrom false item steps read c = .ok (items, d)) : ∀ e ∈ read, e ∈ items := by
  induction steps generalizing read c with
  | nil =>
    cases h
    exact fun e he => List.mem_reverse.mpr he
  | cons step steps ih =>
    rw [itemsFrom] at h
    dsimp only at h
    split at h
    · cases h
      exact fun e he => List.mem_reverse.mpr he
    · obtain ⟨⟨next, c'⟩, -, h⟩ := Except.exists_of_bind_eq_ok h
      exact fun e he => ih h e (List.mem_cons_of_mem next he)

/-- The items of a sequence are read alike. -/
theorem itemsFrom_agrees (hitem : Agrees (itemOf false levels inner) (itemOf true levels inner'))
    (hpass : ∀ ⦃c e d⦄, itemOf false levels inner c = .ok (e, d) → c.Passes d)
    (steps : Bytes) {read items : List Expr} {c d : Cursor} (hsteps : c.rest.length ≤ steps.length)
    (h : itemsFrom false (itemOf false levels inner) steps read c = .ok (items, d))
    (hread : read.any exposesStatementWord = false) :
    itemsFrom true (itemOf true levels inner') steps read c = .ok (items, d) ∧
        items.any exposesStatementWord = false ∨
      items.any usesStatementWord = true ∧ ∀ items' d',
        itemsFrom true (itemOf true levels inner') steps read c = .ok (items', d') →
          AtPrefixedWord d' := by
  have hreverse : read.reverse.any exposesStatementWord = false := by rwa [List.any_reverse]
  induction steps generalizing read c with
  | nil =>
    cases h
    exact .inl ⟨rfl, hreverse⟩
  | cons step steps ih =>
    have hfull := h
    rw [itemsFrom] at h ⊢
    dsimp only at h ⊢
    rw [endsSequence_inSource]
    split at h
    · rename_i hends
      rw [hends, Bool.true_or]
      cases h
      exact .inl ⟨rfl, hreverse⟩
    · rename_i hends
      obtain ⟨⟨next, c'⟩, hnext, h⟩ := Except.exists_of_bind_eq_ok h
      have hmem : next ∈ items := mem_of_itemsFrom steps h next List.mem_cons_self
      rw [Bool.eq_false_iff.mpr hends, Bool.false_or]
      cases hstarts : startsStatement c.skipBlanks with
      | true =>
        obtain ⟨word, hword, hat⟩ := exists_word_of_itemsFrom hsteps hfull hstarts
        obtain ⟨hprefixed, huses⟩ := prefixedWord_of_itemOf hword hat hnext
        refine .inr ⟨usesStatementWord_of_mem hmem huses, fun items' d' h' => ?_⟩
        cases h'
        exact hprefixed
      | false =>
        rcases hitem hnext with ⟨hnext', hexposes⟩ | ⟨huses, hfails⟩
        · have hsteps' : c'.rest.length ≤ steps.length :=
            ((Cursor.reaches_skipBlanks c).trans_passes (hpass hnext)).steps_left hsteps
          have hread' : (next :: read).any exposesStatementWord = false := by
            rw [List.any_cons, hexposes hstarts, hread]
            rfl
          have hrest := ih hsteps' h hread' (by rwa [List.any_reverse])
          rw [hnext']
          exact hrest
        · refine .inr ⟨usesStatementWord_of_mem hmem huses, fun items' d' h' => ?_⟩
          obtain ⟨⟨next', c''⟩, hnext', -⟩ := Except.exists_of_bind_eq_ok h'
          exact absurd hnext' (hfails next' c'')

/-- A sequence is read alike. -/
theorem sequence_agreesOn (hitem : Agrees (itemOf false levels inner) (itemOf true levels inner'))
    (hpass : ∀ ⦃c e d⦄, itemOf false levels inner c = .ok (e, d) → c.Passes d) :
    AgreesOn (sequence false (itemOf false levels inner))
      (sequence true (itemOf true levels inner')) := by
  intro c e d h
  obtain ⟨⟨items, c'⟩, hitems, h⟩ := Except.exists_of_bind_eq_ok h
  rcases itemsFrom_agrees hitem hpass c.rest le_rfl hitems rfl with
    ⟨hitems', hexposes⟩ | ⟨huses, hstray⟩
  · refine .inl ⟨(Except.bind_of_eq_ok hitems').trans h, ?_⟩
    change (if items.isEmpty then _ else _) = _ at h
    split at h
    · cases h
    · obtain ⟨rfl, rfl⟩ := Prod.mk.inj (Except.ok.inj h)
      exact (exposesStatementWord_ofItems items).trans hexposes
  · change (if items.isEmpty then _ else _) = _ at h
    split at h
    · cases h
    · obtain ⟨rfl, rfl⟩ := Prod.mk.inj (Except.ok.inj h)
      refine .inr ⟨(usesStatementWord_ofItems items).trans huses, fun e' d' h' => ?_⟩
      obtain ⟨⟨items', c''⟩, hitems', h'⟩ := Except.exists_of_bind_eq_ok h'
      change (if items'.isEmpty then _ else _) = _ at h'
      split at h'
      · cases h'
      · obtain ⟨rfl, rfl⟩ := Prod.mk.inj (Except.ok.inj h')
        exact hstray items' c'' hitems'

/-- Behind a prefixed word there are no further alternatives. -/
theorem alternativesFrom_of_prefixedWord {item : Parse Expr} (steps : Bytes) (read : List Expr)
    (h : AtPrefixedWord c) : alternativesFrom true item steps read c = .ok (read.reverse, c) := by
  obtain ⟨b, hp, hb⟩ := h.exists_peek
  refine alternativesFrom_of_no_slash steps read (skipBlanks_of_isStart hp hb) ?_
  rw [hp]
  rintro ⟨⟩
  revert hb
  decide

variable {item item' : Parse Expr}

/-- Alternatives that have been read stay read. -/
theorem mem_of_alternativesFrom (steps : Bytes) {read alternatives : List Expr} {c d : Cursor}
    (h : alternativesFrom false item steps read c = .ok (alternatives, d)) :
    ∀ e ∈ read, e ∈ alternatives := by
  induction steps generalizing read c with
  | nil =>
    cases h
    exact fun e he => List.mem_reverse.mpr he
  | cons step steps ih =>
    rw [alternativesFrom] at h
    dsimp only at h
    split at h
    · obtain ⟨⟨next, c'⟩, -, h⟩ := Except.exists_of_bind_eq_ok h
      exact fun e he => ih h e (List.mem_cons_of_mem next he)
    · cases h
      exact fun e he => List.mem_reverse.mpr he

/-- Further alternatives are read alike. -/
theorem alternativesFrom_agrees (hseq : AgreesOn (sequence false item) (sequence true item'))
    (steps : Bytes) {read alternatives : List Expr} {c d : Cursor}
    (h : alternativesFrom false item steps read c = .ok (alternatives, d))
    (hread : read.any exposesStatementWord = false) :
    alternativesFrom true item' steps read c = .ok (alternatives, d) ∧
        alternatives.any exposesStatementWord = false ∨
      alternatives.any usesStatementWord = true ∧ ∀ alternatives' d',
        alternativesFrom true item' steps read c = .ok (alternatives', d') → AtPrefixedWord d' := by
  have hreverse : read.reverse.any exposesStatementWord = false := by rwa [List.any_reverse]
  induction steps generalizing read c with
  | nil =>
    cases h
    exact .inl ⟨rfl, hreverse⟩
  | cons step steps ih =>
    rw [alternativesFrom] at h ⊢
    dsimp only at h ⊢
    split at h
    · rename_i hslash
      rw [if_pos hslash]
      obtain ⟨⟨next, c'⟩, hnext, h⟩ := Except.exists_of_bind_eq_ok h
      rcases hseq hnext with ⟨hnext', hexposes⟩ | ⟨huses, hstray⟩
      · have hread' : (next :: read).any exposesStatementWord = false := by
          rw [List.any_cons, hexposes, hread]
          rfl
        have hrest := ih h hread' (by rwa [List.any_reverse])
        rw [hnext']
        exact hrest
      · have hmem : next ∈ alternatives :=
          mem_of_alternativesFrom steps h next List.mem_cons_self
        refine .inr ⟨usesStatementWord_of_mem hmem huses, fun alternatives' d' h' => ?_⟩
        obtain ⟨⟨next', c''⟩, hnext', h'⟩ := Except.exists_of_bind_eq_ok h'
        have hprefixed := hstray next' c'' hnext'
        cases (alternativesFrom_of_prefixedWord steps (next' :: read) hprefixed).symm.trans h'
        exact hprefixed
    · rename_i hslash
      rw [if_neg hslash]
      cases h
      exact .inl ⟨rfl, hreverse⟩

/-- Alternatives are read alike. -/
theorem choiceOf_agreesOn (hseq : AgreesOn (sequence false item) (sequence true item')) :
    AgreesOn (choiceOf false item) (choiceOf true item') := by
  intro c e d h
  obtain ⟨⟨first, c'⟩, hfirst, h⟩ := Except.exists_of_bind_eq_ok h
  obtain ⟨⟨alternatives, d'⟩, hmore, h⟩ := Except.exists_of_bind_eq_ok h
  obtain ⟨rfl, rfl⟩ := Prod.mk.inj (Except.ok.inj h)
  rw [usesStatementWord_ofAlternatives, exposesStatementWord_ofAlternatives]
  rcases hseq hfirst with ⟨hfirst', hexposes⟩ | ⟨huses, hstray⟩
  · have hread : [first].any exposesStatementWord = false := by simpa using hexposes
    rcases alternativesFrom_agrees hseq c'.rest hmore hread with
      ⟨hmore', hexposes'⟩ | ⟨huses, hstray⟩
    · exact .inl ⟨(Except.bind_of_eq_ok hfirst').trans (Except.bind_of_eq_ok hmore'), hexposes'⟩
    · refine .inr ⟨huses, fun e' f h' => ?_⟩
      replace h' := (Except.bind_of_eq_ok hfirst').symm.trans h'
      obtain ⟨⟨alternatives', f'⟩, hmore', h'⟩ := Except.exists_of_bind_eq_ok h'
      obtain ⟨rfl, rfl⟩ := Prod.mk.inj (Except.ok.inj h')
      exact hstray alternatives' f' hmore'
  · have hmem := mem_of_alternativesFrom c'.rest hmore first List.mem_cons_self
    refine .inr ⟨usesStatementWord_of_mem hmem huses, fun e' f h' => ?_⟩
    obtain ⟨⟨first', f'⟩, hfirst', h'⟩ := Except.exists_of_bind_eq_ok h'
    have hprefixed := hstray first' f' hfirst'
    have hlast : alternativesFrom true item' f'.rest [first'] f' = .ok ([first'], f') :=
      alternativesFrom_of_prefixedWord f'.rest [first'] hprefixed
    replace h' := (Except.bind_of_eq_ok hlast).symm.trans h'
    obtain ⟨rfl, rfl⟩ := Prod.mk.inj (Except.ok.inj h')
    exact hprefixed

/-- The readers of the next level down, of which there are two or none. -/
def InnerAgrees : Option (Parse Expr) → Option (Parse Expr) → Prop
  | none, none => True
  | some item, some item' =>
    Agrees item item' ∧ AgreesOn (choiceOf false item) (choiceOf true item')
  | _, _ => False

/-- A group is read alike. A prefixed word cannot stand where its bracket closes. -/
theorem group_agrees (hinner : InnerAgrees inner inner') {close : UInt8}
    (hclose : Ident.isStart close = false) {what : Expected}
    (h : group false inner close what c = .ok (e, d)) :
    group true inner' close what c = .ok (e, d) ∧ e.exposesStatementWord = false ∨
      e.usesStatementWord = true ∧ ∀ e' d', group true inner' close what c ≠ .ok (e', d') := by
  cases inner with
  | none => cases h
  | some item =>
    cases inner' with
    | none => exact hinner.elim
    | some item' =>
      obtain ⟨⟨body, c'⟩, hbody, h⟩ := Except.exists_of_bind_eq_ok h
      rcases hinner.2 hbody with ⟨hbody', hexposes⟩ | ⟨huses, hstray⟩
      · refine .inl ⟨(Except.bind_of_eq_ok hbody').trans h, ?_⟩
        change (if c'.skipBlanks.peek? == some close then _ else _) = _ at h
        split at h
        · obtain ⟨rfl, rfl⟩ := Prod.mk.inj (Except.ok.inj h)
          exact hexposes
        · cases h
      · change (if c'.skipBlanks.peek? == some close then _ else _) = _ at h
        split at h
        · obtain ⟨rfl, rfl⟩ := Prod.mk.inj (Except.ok.inj h)
          refine .inr ⟨huses, fun e' d' h' => ?_⟩
          obtain ⟨⟨body', c''⟩, hbody', h'⟩ := Except.exists_of_bind_eq_ok h'
          obtain ⟨b, hp, hb⟩ := (hstray body' c'' hbody').exists_peek
          change (if c''.skipBlanks.peek? == some close then _ else _) = _ at h'
          rw [skipBlanks_of_isStart hp hb, hp] at h'
          split at h'
          · rename_i heq
            rw [beq_iff_eq, Option.some.injEq] at heq
            rw [heq] at hb
            cases hb.symm.trans hclose
          · cases h'
        · cases h

/-- Operands other than groups hold no expressions. -/
theorem operand_of_no_group (inner inner' : Option (Parse Expr)) (hround : c.peek? ≠ some 0x28)
    (hcurly : c.peek? ≠ some 0x7b) :
    operand false levels inner c = operand true levels inner' c := by
  unfold operand
  cases hp : c.peek? with
  | none => rfl
  | some b =>
    rw [hp, Ne, Option.some.injEq] at hround hcurly
    simp only [beq_iff_eq, hround, hcurly, if_false]

/-- A reference with such a word for its prefix looks like a statement. -/
theorem exposesStatementWord_of_no_group (hround : c.peek? ≠ some 0x28)
    (hcurly : c.peek? ≠ some 0x7b) (h : operand false levels inner c = .ok (e, d))
    (hstarts : startsStatement c = false) : e.exposesStatementWord = false := by
  unfold operand at h
  cases hp : c.peek? with
  | none =>
    rw [hp] at h
    cases h
  | some b =>
    rw [hp, Ne, Option.some.injEq] at hround hcurly
    rw [hp] at h
    simp only [beq_iff_eq, hround, hcurly, if_false] at h
    split at h
    · obtain ⟨_, -, h⟩ := Except.exists_of_bind_eq_ok h
      cases h
      rfl
    split at h
    · obtain ⟨_, -, h⟩ := Except.exists_of_bind_eq_ok h
      cases h
      rfl
    split at h
    · cases h
      rfl
    split at h
    · cases h
      rfl
    split at h
    · cases h
      rfl
    split at h
    · rename_i name width hahead
      split at h
      · cases h
      · cases h
        refine Bool.eq_false_iff.mpr fun hexposes => ?_
        obtain ⟨qualifier, base⟩ := name
        cases qualifier with
        | none => cases hexposes
        | some word =>
          have hword : word ∈ statementWords := List.contains_iff_mem.mp hexposes
          have hat : AtPrefixedWord c := ⟨word, hword, base, width, hahead⟩
          cases (startsStatement_of_prefixedWord hat).symm.trans hstarts
    · cases h

/-- An operand is read alike. -/
theorem operand_agrees (hinner : InnerAgrees inner inner') (levels : Nat) :
    Agrees (operand false levels inner) (operand true levels inner') := by
  intro c e d h
  by_cases hround : c.peek? = some 0x28
  · have hgroup : ∀ inSource inner, operand inSource levels inner c =
        group inSource inner 0x29 .closingParenthesis (c.advance 1) := by
      intro inSource inner
      rw [operand, hround]
      rfl
    rw [hgroup] at h ⊢
    exact (group_agrees hinner rfl h).imp_left fun hread => ⟨hread.1, fun _ => hread.2⟩
  by_cases hcurly : c.peek? = some 0x7b
  · have hgroup : ∀ inSource inner, operand inSource levels inner c =
        group inSource inner 0x7d .closingBrace (c.advance 1) := by
      intro inSource inner
      rw [operand, hcurly]
      rfl
    rw [hgroup] at h ⊢
    exact (group_agrees hinner rfl h).imp_left fun hread => ⟨hread.1, fun _ => hread.2⟩
  · refine .inl ⟨(operand_of_no_group inner inner' hround hcurly).symm.trans h, fun hstarts => ?_⟩
    exact exposesStatementWord_of_no_group hround hcurly h hstarts

/-- An item is read alike where the next level down is. -/
theorem itemOf_agrees (hinner : InnerAgrees inner inner') (levels : Nat) :
    Agrees (itemOf false levels inner) (itemOf true levels inner') := by
  intro c e d h
  unfold itemOf at h ⊢
  cases hkind : c.peek?.bind lookaheadMark? with
  | some kind =>
    rw [hkind] at h
    cases inner with
    | none => cases h
    | some item =>
      cases inner' with
      | none => exact hinner.elim
      | some item' =>
        obtain ⟨⟨body, c'⟩, hbody, h⟩ := Except.exists_of_bind_eq_ok h
        obtain ⟨rfl, rfl⟩ := Prod.mk.inj (Except.ok.inj h)
        rcases hinner.1 hbody with ⟨hbody', -⟩ | ⟨huses, hfails⟩
        · exact .inl ⟨Except.bind_of_eq_ok hbody', fun _ => rfl⟩
        · refine .inr ⟨huses, fun e' d' h' => ?_⟩
          obtain ⟨⟨body', c''⟩, hbody', -⟩ := Except.exists_of_bind_eq_ok h'
          exact hfails body' c'' hbody'
  | none =>
    rw [hkind] at h
    obtain ⟨⟨body, c'⟩, hbody, h⟩ := Except.exists_of_bind_eq_ok h
    rcases operand_agrees hinner levels hbody with ⟨hbody', hexposes⟩ | ⟨huses, hfails⟩
    · refine .inl ⟨(Except.bind_of_eq_ok hbody').trans h, fun hstarts => ?_⟩
      rw [exposesStatementWord_repeated h]
      exact hexposes hstarts
    · have huses' : e.usesStatementWord = true := by
        rw [usesStatementWord, references_repeated h]
        exact huses
      refine .inr ⟨huses', fun e' d' h' => ?_⟩
      obtain ⟨⟨body', c''⟩, hbody', -⟩ := Except.exists_of_bind_eq_ok h'
      exact hfails body' c'' hbody'

/-- Alternatives are read alike where items are. -/
theorem choiceOf_item_agreesOn (levels : Nat)
    (hitem : Agrees (Expr.item false levels) (Expr.item true levels)) :
    AgreesOn (choiceOf false (Expr.item false levels)) (choiceOf true (Expr.item true levels)) := by
  have hpass : ∀ ⦃c e d⦄, Expr.item false levels c = .ok (e, d) → c.Passes d :=
    fun _ _ _ h => (item_moves (k := 0) follows_nil levels h).1
  cases levels with
  | zero => exact choiceOf_agreesOn (sequence_agreesOn hitem hpass)
  | succ levels => exact choiceOf_agreesOn (sequence_agreesOn hitem hpass)

/-- An item is read alike. -/
theorem item_agrees (levels : Nat) : Agrees (Expr.item false levels) (Expr.item true levels) := by
  induction levels with
  | zero =>
    have hinner : InnerAgrees none none := trivial
    exact itemOf_agrees hinner 0
  | succ levels ih =>
    have hinner : InnerAgrees (some (Expr.item false levels)) (some (Expr.item true levels)) :=
      ⟨ih, choiceOf_item_agreesOn levels ih⟩
    exact itemOf_agrees hinner (levels + 1)

/-- An expression is read alike. -/
theorem expression_agreesOn : AgreesOn (expression false) (expression true) :=
  choiceOf_item_agreesOn nestingLimit (item_agrees nestingLimit)

end PatternEngine.Expr

namespace PatternEngine.Statement

open PatternEngine.Expr (AtPrefixedWord)

variable {c : Cursor}

/-- Blanks that lead to the end of the text end the statements. -/
theorem statementsFrom_of_nil (steps : Nat) (read : List Statement) (h : c.skipBlanks.rest = []) :
    statementsFrom steps read c = .ok read.reverse := by
  cases steps with
  | zero => rfl
  | succ steps => exact if_pos (Cursor.atEnd_iff.mpr h)

/-- No statement starts with a prefix. -/
theorem statement_ne_ok (h : AtPrefixedWord c) (s : Statement) (d : Cursor) :
    statement c ≠ .ok (s, d) := by
  obtain ⟨word, -, base, width, hahead⟩ := h
  unfold statement
  rw [hahead]
  nofun

/-- Where a prefixed word stands the statements cannot be read on. -/
theorem statementsFrom_ne_ok (steps : Nat) (read : List Statement) (h : AtPrefixedWord c)
    (statements : List Statement) : statementsFrom (steps + 1) read c ≠ .ok statements := by
  obtain ⟨b, hp, hb⟩ := h.exists_peek
  have hskip := Expr.skipBlanks_of_isStart hp hb
  have hnot : ¬c.skipBlanks.atEnd = true := by
    rw [hskip, Cursor.atEnd_iff]
    exact Cursor.rest_ne_nil_of_peek hp
  intro hread
  rw [statementsFrom] at hread
  obtain ⟨⟨s, d⟩, hs, -⟩ := Except.exists_of_bind_eq_ok ((if_neg hnot).symm.trans hread)
  rw [hskip] at hs
  exact statement_ne_ok h s d hs

/-- A binding that opens a source: its expression is read behind the blanks behind the equals
sign. -/
theorem listOfBytes_binding (bytes : Bytes) (hne : (Cursor.start bytes).skipBlanks.rest ≠ []) :
    listOfBytes (0x78 :: 0x20 :: 0x3d :: 0x20 :: bytes) = (do
      let (body, d) ← Expr.expression true ((Cursor.start bytes).skipBlanks.embed 4 [])
      statementsFrom (bytes.length + 4) [.bind ⟨"x", body, false, false, 1⟩] d) := by
  have hskip : (⟨3, 0x20 :: bytes⟩ : Cursor).skipBlanks =
      (Cursor.start bytes).skipBlanks.embed 4 [] := by
    rw [← Cursor.skipBlanks_embed Bytes.onNewLine_nil hne, Cursor.embed, List.append_nil]
    rfl
  have hnot : ¬((Cursor.start bytes).skipBlanks.embed 4 []).atEnd = true := by
    rw [Cursor.atEnd_iff, Cursor.rest_embed, List.append_nil]
    exact hne
  have hahead : Ident.ahead? (Cursor.start (0x78 :: 0x20 :: 0x3d :: 0x20 :: bytes)).rest =
      some (⟨none, "x"⟩, 1) := rfl
  have hbinding : binding (Cursor.start (0x78 :: 0x20 :: 0x3d :: 0x20 :: bytes)) ⟨none, "x"⟩
      ⟨1, 0x20 :: 0x3d :: 0x20 :: bytes⟩ = (do
        let (body, d) ← Expr.expression true ((Cursor.start bytes).skipBlanks.embed 4 [])
        .ok (⟨"x", body, false, false, 1⟩, d)) := by
    rw [← hskip] at hnot ⊢
    exact if_neg hnot
  rw [listOfBytes, statementsFrom]
  change (statement (Cursor.start (0x78 :: 0x20 :: 0x3d :: 0x20 :: bytes)) >>= _) = _
  unfold statement
  rw [hahead]
  change ((binding _ _ ⟨1, 0x20 :: 0x3d :: 0x20 :: bytes⟩ >>= _) >>= _) = _
  rw [hbinding]
  cases Expr.expression true ((Cursor.start bytes).skipBlanks.embed 4 []) with
  | error fault => rfl
  | ok read => rfl

/-- An expression that is accepted on its own exposes no word of statements and is the body of the
binding, its references moved; or else it uses such a word and the source is refused. -/
theorem listOfBytes_binding_cases {bytes : Bytes} {e : Expr} (h : Expr.ofBytes bytes = .ok e) :
    listOfBytes (0x78 :: 0x20 :: 0x3d :: 0x20 :: bytes) =
          .ok [.bind ⟨"x", e.shift 4, false, false, 1⟩] ∧ e.exposesStatementWord = false ∨
      e.usesStatementWord = true ∧ ∀ statements,
        listOfBytes (0x78 :: 0x20 :: 0x3d :: 0x20 :: bytes) ≠ .ok statements := by
  unfold Expr.ofBytes at h
  dsimp only at h
  split at h
  · cases h
  rename_i hnot
  obtain ⟨⟨e', c⟩, he, h⟩ := Except.exists_of_bind_eq_ok h
  dsimp only at h
  split at h
  · rename_i hend
    cases h
    have hreading := listOfBytes_binding bytes fun hc => hnot (Cursor.atEnd_iff.mpr hc)
    obtain ⟨-, hblank, hcarried⟩ := Expr.expression_movesOn (k := 4) Expr.follows_nil he
    rcases Expr.expression_agreesOn (hcarried fun _ => Expr.ends_nil false) with
      ⟨hbody, hexposes⟩ | ⟨huses, hstray⟩
    · rw [Expr.exposesStatementWord_shift] at hexposes
      have hcend : (c.embed 4 []).skipBlanks.skipBlanks.rest = [] := by
        rw [Cursor.skipBlanks_skipBlanks, Cursor.skipBlanks_embed_nil, Cursor.rest_embed,
          List.append_nil]
        exact Cursor.atEnd_iff.mp hend
      exact .inl ⟨hreading.trans ((Except.bind_of_eq_ok hbody).trans
        (statementsFrom_of_nil _ _ hcend)), hexposes⟩
    · rw [Expr.usesStatementWord_shift] at huses
      refine .inr ⟨huses, fun statements hs => ?_⟩
      obtain ⟨⟨body, d⟩, hbody, hs⟩ := Except.exists_of_bind_eq_ok (hreading.symm.trans hs)
      exact statementsFrom_ne_ok _ _ (hstray body d hbody) statements hs
  · cases h

/-- An expression that is accepted on its own is read alike as the body of a binding, its
references moved. -/
theorem listOfText_binding {text : String} {e : Expr} (h : Expr.ofText text = .ok e) :
    (e.usesStatementWord = false → listOfText ("x = " ++ text) =
      .ok [.bind ⟨"x", e.shift 4, false, false, 1⟩]) ∧
    (e.exposesStatementWord = true → ∃ fault, listOfText ("x = " ++ text) = .error fault) ∧
    ∀ statements, listOfText ("x = " ++ text) = .ok statements →
      statements = [.bind ⟨"x", e.shift 4, false, false, 1⟩] := by
  have hbytes : Bytes.ofString ("x = " ++ text) =
      0x78 :: 0x20 :: 0x3d :: 0x20 :: Bytes.ofString text := by
    rw [Bytes.ofString_append]
    rfl
  simp only [listOfText, Except.mapError_eq_ok, hbytes]
  rcases listOfBytes_binding_cases (Except.mapError_eq_ok.mp h) with
    ⟨hread, hexposes⟩ | ⟨huses, hfails⟩
  · refine ⟨fun _ => hread, fun hyes => ?_, fun statements hs => ?_⟩
    · cases hyes.symm.trans hexposes
    · exact Except.ok.inj (hs.symm.trans hread)
  · refine ⟨fun hno => ?_, fun _ => ?_, fun statements hs => absurd hs (hfails statements)⟩
    · cases huses.symm.trans hno
    · cases hresult : listOfBytes (0x78 :: 0x20 :: 0x3d :: 0x20 :: Bytes.ofString text) with
      | error fault => exact ⟨fault.toViolation, rfl⟩
      | ok statements => exact absurd hresult (hfails statements)

/-- Names that only begin like one of the words, and words within a text and behind a comment. -/
theorem listOfText_binding_packages :
    Expr.ofText "packages.a / -- local x = 1\n \"alias y\" (as_ b)+" = .ok (.choice [
      .ref ⟨some "packages", "a"⟩ 1,
      .seq [.literal (Bytes.ofString "alias y"),
        .repetition (.seq [.ref ⟨none, "as_"⟩ 41, .ref ⟨none, "b"⟩ 45]) 1 none]]) ∧
    listOfText ("x = " ++ "packages.a / -- local x = 1\n \"alias y\" (as_ b)+") = .ok [.bind ⟨"x",
      .choice [
        .ref ⟨some "packages", "a"⟩ 5,
        .seq [.literal (Bytes.ofString "alias y"),
          .repetition (.seq [.ref ⟨none, "as_"⟩ 45, .ref ⟨none, "b"⟩ 49]) 1 none]],
      false, false, 1⟩] := by
  have htext : Expr.ofText "packages.a / -- local x = 1\n \"alias y\" (as_ b)+" = .ok (.choice [
      .ref ⟨some "packages", "a"⟩ 1,
      .seq [.literal (Bytes.ofString "alias y"),
        .repetition (.seq [.ref ⟨none, "as_"⟩ 41, .ref ⟨none, "b"⟩ 45]) 1 none]]) := by cbv
  exact ⟨htext, (listOfText_binding htext).1 rfl⟩

/-- A package that is visible under one of the words: the expression is refused as the body of a
binding. -/
theorem not_listOfText_binding_package :
    Expr.ofText "package.foo" = .ok (.ref ⟨some "package", "foo"⟩ 1) ∧
      listOfText ("x = " ++ "package.foo") ≠
        .ok [.bind ⟨"x", .ref ⟨some "package", "foo"⟩ 5, false, false, 1⟩] := by
  have hread : ∃ fault, listOfText ("x = " ++ "package.foo") = .error fault :=
    ⟨_, by cbv⟩
  obtain ⟨fault, hfault⟩ := hread
  refine ⟨by cbv, ?_⟩
  rw [hfault]
  intro h
  cases h

end PatternEngine.Statement
