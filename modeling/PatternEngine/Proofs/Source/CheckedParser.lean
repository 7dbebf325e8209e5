import PatternEngine.Proofs.Source.CheckedOperands
import PatternEngine.Proofs.Source.Grammar
import PatternEngine.Proofs.Source.Statements

/-!
# Reading expressions and sources with checks

The parser with checks of expressions and statements. Every part that it reads starts and ends
between two characters of the text, and leaves the counter of nested parts as it was; so no check
fails, every text is read as the readers on cursors read it, and a violation is at a place of the
text.
-/

namespace PatternEngine.CheckedParser

open Move (broken offset throw)

variable (text : Bytes) (inSource : Bool)

/-! ## Expressions -/

/-- Pass over the items of a sequence. The items read so far are in reverse. -/
def itemsFrom (item : Move Expr) : (rounds : Nat) → List Expr → Move (List Expr)
  | 0, _ => broken
  | rounds + 1, read => do
    skipSpace text
    let ahead ← peek text
    match ahead with
    | none => pure read.reverse
    | some b =>
      if b == 0x2f || b == 0x29 || b == 0x7d then pure read.reverse
      else
        let ends ← atStatementStart text inSource
        if ends then pure read.reverse
        else
          let next ← item
          itemsFrom item rounds (next :: read)

/-- Pass over a sequence of at least one item. -/
def parseSequence (item : Move Expr) : Move Expr := do
  let items ← itemsFrom text inSource item (rounds text) []
  if items.isEmpty then refuse text (.expected .expression) else pure (Expr.ofItems items)

/-- Pass over further alternatives. The alternatives read so far are in reverse. -/
def alternativesFrom (item : Move Expr) : (rounds : Nat) → List Expr → Move (List Expr)
  | 0, _ => broken
  | rounds + 1, read => do
    skipSpace text
    let ahead ← peek text
    if ahead == some 0x2f then
      advance text 1
      skipSpace text
      let next ← parseSequence text inSource item
      alternativesFrom item rounds (next :: read)
    else pure read.reverse

/-- Pass over alternatives. -/
def parseChoice (item : Move Expr) : Move Expr := do
  let first ← parseSequence text inSource item
  let alternatives ← alternativesFrom text inSource item (rounds text) [first]
  pure (Expr.ofAlternatives alternatives)

/-- Pass over a group from its opening bracket on. -/
def parseGroup (item : Move Expr) (close : UInt8) (what : Expected) : Move Expr := do
  advance text 1
  skipSpace text
  descend text
  let body ← parseChoice text inSource item
  ascend 1
  expect text close what
  pure body

/-- Pass over an operand. -/
def parseAtom (item : Move Expr) : Move Expr := do
  let start ← offset
  let ahead ← peek text
  match ahead with
  | none => refuse text .endOfExpression
  | some b =>
    if b == 0x22 then
      let bytes ← parseLiteral text
      pure (.literal bytes)
    else if b == 0x5b then
      advance text 1
      let members ← parseSet text (nestingLimit + 1) start
      pure (.set members)
    else if b == 0x2e then
      advance text 1
      pure .any
    else if b == 0x5e then
      advance text 1
      pure .inputStart
    else if b == 0x24 then
      advance text 1
      pure .inputEnd
    else if b == 0x28 then parseGroup text inSource item 0x29 .closingParenthesis
    else if b == 0x7b then parseGroup text inSource item 0x7d .closingBrace
    else
      let word ← scanIdentifier text
      match word with
      | some name =>
        if name.isKeyword then
          goTo text start
          refuse text (.reservedWord name)
        else pure (.ref name (start + 1))
      | none =>
        let c ← peekChar text
        refuse text (.unexpected c)

/-- Pass over a repetition mark; none when there is none. -/
def repetitionMark : Move (Option (Nat × Option Nat)) := do
  let ahead ← peek text
  match ahead with
  | none => pure none
  | some b =>
    if b == 0x7b then scanBounds text
    else if b == 0x2a then
      advance text 1
      pure (some (0, none))
    else if b == 0x2b then
      advance text 1
      pure (some (1, none))
    else if b == 0x3f then
      advance text 1
      pure (some (0, some 1))
    else pure none

/-- Pass over repetition marks, of which each is one part more around what is read; behind the last
of them they are all left again. -/
def marksFrom : (rounds : Nat) → (repeats : Nat) → Expr → Move Expr
  | 0, _, _ => broken
  | rounds + 1, repeats, body => do
    let mark ← repetitionMark text
    match mark with
    | none =>
      ascend repeats
      pure body
    | some (least, most) =>
      descend text
      marksFrom rounds (repeats + 1) (.repetition body least most)

/-- Pass over an item of a sequence, the items of its groups being given. -/
def parsePrefixedOf (item : Move Expr) : Move Expr := do
  let ahead ← peek text
  match ahead.bind Expr.lookaheadMark? with
  | some kind =>
    advance text 1
    skipSpace text
    descend text
    let body ← item
    ascend 1
    pure (.lookahead kind body)
  | none =>
    let body ← parseAtom text inSource item
    marksFrom text (nestingLimit + 1) 0 body

/-- Pass over an item of a sequence, with at most so many calls one within the other. -/
def parsePrefixed : (calls : Nat) → Move Expr
  | 0 => broken
  | calls + 1 => parsePrefixedOf text inSource (parsePrefixed calls)

/-- Pass over an expression. -/
def passExpression : Move Expr :=
  parseChoice text inSource (parsePrefixed text inSource (nestingLimit + 1))

/-- The expression that the text is. -/
def wholeExpression : Move Expr := do
  skipSpace text
  let empty ← atEnd text
  if empty then refuse text .emptyExpression
  else
    let e ← passExpression text false
    skipSpace text
    let ends ← atEnd text
    if ends then pure e
    else
      let c ← peekChar text
      refuse text (.unexpected c)

/-! ## Statements -/

/-- Pass over one entry of an import statement. -/
def importDecl : Move ImportDecl := do
  skipSpace text
  let name ← expectPlainIdentifier text .packageName
  skipSpace text
  let renamed ← lookaheadKeyword text "as"
  if renamed then
    advance text 2
    skipSpace text
    let rename ← expectPlainIdentifier text .importAlias
    pure ⟨name, some rename⟩
  else pure ⟨name, none⟩

/-- Pass over the entries of an import statement. The entries read so far are in reverse. -/
def importDeclsFrom : (rounds : Nat) → List ImportDecl → Move (List ImportDecl)
  | 0, _ => broken
  | rounds + 1, read => do
    let decl ← importDecl text
    skipSpace text
    let ahead ← peek text
    if ahead == some 0x2c then
      advance text 1
      importDeclsFrom rounds (decl :: read)
    else pure (decl :: read).reverse

/-- Pass over words while they are modifiers, the last word read being given. -/
def modifiersFrom : (rounds : Nat) → Statement.Modifiers → Ident →
    Move (Statement.Modifiers × Ident)
  | 0, _, _ => broken
  | rounds + 1, modifiers, word =>
    match modifiers.add? word with
    | none => pure (modifiers, word)
    | some modifiers => do
      skipSpace text
      let next ← scanIdentifier text
      match next with
      | none => refuse text (.expected .bindingName)
      | some next => modifiersFrom rounds modifiers next

/-- Pass over a binding, its first word and the offset of this being given. -/
def parseBinding (start : Nat) (word : Ident) : Move Binding := do
  let bound ← modifiersFrom text 3 {} word
  if bound.2.qualifier.isSome then
    goTo text start
    refuse text (.qualifiedBinding bound.2)
  else if bound.2.isKeyword then
    goTo text start
    refuse text (.reservedWord bound.2)
  else
    skipSpace text
    let ahead ← peek text
    if ahead != some 0x3d then refuse text (.missingEquals bound.2)
    else
      advance text 1
      skipSpace text
      let ends ← atEnd text
      if ends then refuse text (.missingExpression bound.2)
      else
        let body ← passExpression text true
        pure ⟨bound.2.base, body, bound.1.isAlias, bound.1.isLocal, start + 1⟩

/-- Pass over a statement. -/
def parseStatement : Move Statement := do
  let start ← offset
  let word ← scanIdentifier text
  match word with
  | none => refuse text (.expected .statement)
  | some word =>
    if word = ⟨none, "package"⟩ then
      skipSpace text
      let name ← expectPlainIdentifier text .packageName
      pure (.package name (start + 1))
    else if word = ⟨none, "import"⟩ then
      let decls ← importDeclsFrom text (rounds text) []
      pure (.imports decls (start + 1))
    else
      let definition ← parseBinding text start word
      pure (.bind definition)

/-- Where a package declaration stands. -/
def packagePos? : Statement → Option Nat
  | .package _ pos => some pos
  | _ => none

/-- Pass over statements up to the end of the text. The statements read so far are in reverse. -/
def statementsFrom : (rounds : Nat) → List Statement → Move (List Statement)
  | 0, _ => broken
  | rounds + 1, read => do
    skipSpace text
    let ends ← atEnd text
    if ends then pure read.reverse
    else
      let next ← parseStatement text
      match packagePos? next with
      | some pos =>
        if read.isEmpty then statementsFrom rounds (next :: read)
        else throw { cause := .parsing .packageNotFirst, pos := some pos }
      | none => statementsFrom rounds (next :: read)

/-- What is parsed from the start of the text on. -/
def Move.outcome {α : Type} (p : Move α) : Option (Except Violation α) :=
  (p.run {}).map fun result => result.map Prod.fst

/-- Parse a text as an expression. -/
def parseExpression (s : String) : Option (Except Violation Expr) :=
  (wholeExpression (Bytes.ofString s)).outcome

/-- Parse a text as a source. -/
def parseSource (s : String) : Option (Except Violation (List Statement)) :=
  (statementsFrom (Bytes.ofString s) (rounds (Bytes.ofString s)) []).outcome

/-! ## Items, sequences and alternatives -/

variable {text : Bytes} {inSource : Bool} {c d : Cursor} {depth levels more : Nat} {b : UInt8}
  {item : Move Expr}

/-- From every place between characters, items are passed over as they are read with so many levels.
-/
def FollowsItems (text : Bytes) (inSource : Bool) (depth levels : Nat) (item : Move Expr) : Prop :=
  ∀ ⦃c : Cursor⦄, c.OnChar text → Follows text depth (fun d => d.OnChar text)
    (item.run ⟨c.pos, depth⟩) (Expr.item inSource levels c)

theorem endsSequence_of_peek (hb : c.peek? = some b) : Expr.endsSequence inSource c =
    ((b == 0x2f || b == 0x29 || b == 0x7d) || (inSource && Expr.startsStatement c)) := by
  rw [Expr.endsSequence, hb]

theorem follows_itemsFrom (ht : Utf8.IsText text)
    (hitem : FollowsItems text inSource depth levels item) {steps : Bytes} {read : List Expr}
    (hc : c.OnChar text) (hsteps : c.rest.length ≤ steps.length) (hmore : c.rest.length < more) :
    Follows text depth (fun d => d.OnChar text)
      ((itemsFrom text inSource item more read).run ⟨c.pos, depth⟩)
      (Expr.itemsFrom inSource (Expr.item inSource levels) steps read c) := by
  induction more generalizing c steps read with
  | zero => exact absurd hmore (Nat.not_lt_zero _)
  | succ more ih =>
    have hblank := onChar_skipBlanks ht hc
    have hreach := Cursor.reaches_skipBlanks c
    rw [itemsFrom]
    refine .step (skipSpace_eq hc.inText) (.step (peek_eq hblank.inText) ?_)
    cases steps with
    | nil =>
      have hnil := List.length_eq_zero_iff.mp (Nat.le_zero.mp hsteps)
      rw [Cursor.skipBlanks_of_nil hnil, Cursor.peek?_eq_none_iff.mpr hnil]
      exact .done hc
    | cons step steps =>
      rw [Expr.itemsFrom]
      dsimp only
      cases hb : c.skipBlanks.peek? with
      | none =>
        rw [Expr.endsSequence_of_nil (Cursor.peek?_eq_none_iff.mp hb)]
        exact .done hblank
      | some b =>
        rw [endsSequence_of_peek hb]
        dsimp only
        split_ifs with hclose hends hends
        · exact .done hblank
        · rw [hclose, Bool.true_or] at hends
          exact absurd rfl hends
        · rw [Bool.eq_false_iff.mpr hclose, Bool.false_or] at hends
          refine .step (atStatementStart_eq hblank.inText inSource) ?_
          rw [hends]
          exact .done hblank
        · rw [Bool.eq_false_iff.mpr hclose, Bool.false_or] at hends
          refine .step (atStatementStart_eq hblank.inText inSource) ?_
          rw [Bool.eq_false_iff.mpr hends]
          refine (hitem hblank).bind fun next d hd hin => ?_
          have hpass := hreach.trans_passes (Written.passes_item hd)
          exact ih hin (hpass.steps_left hsteps)
            (hpass.rounds_left hmore)

theorem follows_parseSequence (ht : Utf8.IsText text)
    (hitem : FollowsItems text inSource depth levels item) (hc : c.OnChar text) :
    Follows text depth (fun d => d.OnChar text)
      ((parseSequence text inSource item).run ⟨c.pos, depth⟩)
      (Expr.sequence inSource (Expr.item inSource levels) c) := by
  unfold parseSequence Expr.sequence
  refine (follows_itemsFrom ht hitem hc (Nat.le_refl _) (length_lt_rounds hc.inText)).bind
    fun items d _ hd => ?_
  dsimp only
  split_ifs
  · exact follows_refuse (by simp) hd.inText depth
  · exact .done hd

theorem follows_alternativesFrom (ht : Utf8.IsText text)
    (hitem : FollowsItems text inSource depth levels item) {steps : Bytes} {read : List Expr}
    (hc : c.OnChar text) (hsteps : c.rest.length ≤ steps.length) (hmore : c.rest.length < more) :
    Follows text depth (fun d => d.OnChar text)
      ((alternativesFrom text inSource item more read).run ⟨c.pos, depth⟩)
      (Expr.alternativesFrom inSource (Expr.item inSource levels) steps read c) := by
  induction more generalizing c steps read with
  | zero => exact absurd hmore (Nat.not_lt_zero _)
  | succ more ih =>
    have hblank := onChar_skipBlanks ht hc
    have hreach := Cursor.reaches_skipBlanks c
    rw [alternativesFrom]
    refine .step (skipSpace_eq hc.inText) (.step (peek_eq hblank.inText) ?_)
    cases steps with
    | nil =>
      have hnil := List.length_eq_zero_iff.mp (Nat.le_zero.mp hsteps)
      rw [Cursor.skipBlanks_of_nil hnil, Cursor.peek?_eq_none_iff.mpr hnil]
      exact .done hc
    | cons step steps =>
      rw [Expr.alternativesFrom]
      dsimp only
      split_ifs with hslash
      · have hpeek := beq_iff_eq.mp hslash
        have hone := onChar_advance_one ht hblank.inText hpeek (by decide)
        have hnext := onChar_skipBlanks ht hone
        have hbehind := (Cursor.passes_of_peek hpeek).trans_reaches
          (Cursor.reaches_skipBlanks (c.skipBlanks.advance 1))
        refine .step (advance_one_eq hblank.inText hpeek) (.step (skipSpace_eq hone.inText) ?_)
        refine (follows_parseSequence ht hitem hnext).bind fun next d hd hin => ?_
        have hpass := hreach.trans_passes (hbehind.trans (Written.passes_sequence hd))
        exact ih hin (hpass.steps_left hsteps)
          (hpass.rounds_left hmore)
      · exact .done hblank

theorem follows_parseChoice (ht : Utf8.IsText text)
    (hitem : FollowsItems text inSource depth levels item) (hc : c.OnChar text) :
    Follows text depth (fun d => d.OnChar text)
      ((parseChoice text inSource item).run ⟨c.pos, depth⟩)
      (Expr.choiceOf inSource (Expr.item inSource levels) c) := by
  unfold parseChoice Expr.choiceOf
  refine (follows_parseSequence ht hitem hc).bind fun first d _ hd => ?_
  refine (follows_alternativesFrom ht hitem hd (Nat.le_refl _)
    (length_lt_rounds hd.inText)).bind fun alternatives e _ he => ?_
  exact .done he

/-! ## Operands, marks and items -/

/-- Items one level further down are passed over as they are read; where no level is left there is
none. -/
def FollowsInner (text : Bytes) (inSource : Bool) (depth : Nat) (item : Move Expr) :
    (levels : Nat) → Prop
  | 0 => nestingLimit ≤ depth
  | levels + 1 => depth < nestingLimit ∧ FollowsItems text inSource (depth + 1) levels item

theorem follows_parseGroup (ht : Utf8.IsText text)
    (hinner : FollowsInner text inSource depth item levels) (hc : c.OnChar text)
    (hb : c.peek? = some b) (hascii : b < 0x80) {close : UInt8} (hclose : close < 0x80)
    (what : Expected) :
    Follows text depth (fun d => d.OnChar text)
      ((parseGroup text inSource item close what).run ⟨c.pos, depth⟩)
      (Expr.group inSource (Written.inner inSource levels) close what (c.advance 1)) := by
  have hone := onChar_advance_one ht hc.inText hb hascii
  have hnext := onChar_skipBlanks ht hone
  unfold parseGroup Expr.group
  refine .step (advance_one_eq hc.inText hb) (.step (skipSpace_eq hone.inText) ?_)
  cases levels with
  | zero => exact follows_tooDeep _ hinner hnext.inText
  | succ levels =>
    obtain ⟨hless, hitem⟩ := hinner
    refine .step (descend_eq hless _) ((follows_parseChoice ht hitem hnext).bind
      fun body d _ hd => ?_)
    refine .step (ascend_eq d.pos depth 1) ?_
    refine ((follows_expect ht hd.inText hclose what).bind (g := fun read => .ok (body, read.2))
      fun _ e _ he => .done he).of_eq ?_
    dsimp only
    split_ifs <;> rfl

/-- An operand ends between two characters: with a byte of ASCII, or with a name. -/
theorem follows_parseAtom (ht : Utf8.IsText text) (hlevels : depth + levels = nestingLimit)
    (hinner : FollowsInner text inSource depth item levels) (hc : c.OnChar text) :
    Follows text depth (fun d => d.OnChar text)
      ((parseAtom text inSource item).run ⟨c.pos, depth⟩)
      (Expr.operand inSource levels (Written.inner inSource levels) c) := by
  unfold parseAtom Expr.operand
  refine .step (offset_eq _) (.step (peek_eq hc.inText) ?_)
  cases hb : c.peek? with
  | none => exact follows_refuse (by simp) hc.inText depth
  | some b =>
    refine .ite (fun _ => ?_) fun _ => .ite (fun _ => ?_) fun _ => .ite (fun hdot => ?_) fun _ =>
      .ite (fun hcaret => ?_) fun _ => .ite (fun hdollar => ?_) fun _ =>
      .ite (fun hparen => ?_) fun _ => .ite (fun hbrace => ?_) fun _ => ?_
    · exact (follows_parseLiteral ht hc.inText hb).bind fun _ _ _ hd => .done hd
    · have hnext := in_advance_one hc.inText hb
      exact .step (advance_one_eq hc.inText hb) ((follows_parseSet ht (by omega) hlevels hc.inText
        hnext).bind fun _ _ _ hd => .done hd)
    · exact follows_mark ht hc.inText hb (isAscii_of_beq hdot (by decide)) _
    · exact follows_mark ht hc.inText hb (isAscii_of_beq hcaret (by decide)) _
    · exact follows_mark ht hc.inText hb (isAscii_of_beq hdollar (by decide)) _
    · exact follows_parseGroup ht hinner hc hb (isAscii_of_beq hparen (by decide)) (by decide) _
    · exact follows_parseGroup ht hinner hc hb (isAscii_of_beq hbrace (by decide)) (by decide) _
    · cases h : Ident.ahead? c.rest with
      | none =>
        exact .step (scanIdentifier_of_none hc.inText h)
          (.step (peekChar_eq ht hc) (follows_refuse (by simp) hc.inText depth))
      | some ahead =>
        obtain ⟨name, width⟩ := ahead
        refine .step (scanIdentifier_of_some ht hc h) ?_
        dsimp only
        split_ifs
        · exact .step (goTo_eq hc.inText _) (follows_refuse (by simp) hc.inText depth)
        · exact .done (onChar_advance_ahead? ht hc h)

theorem repetitionMark_of_peek (hb : c.peek? = some b) : Expr.repetitionMark c =
    if b == 0x7b then Bounds.bounds c
    else if b == 0x2a then .ok (some (0, none), c.advance 1)
    else if b == 0x2b then .ok (some (1, none), c.advance 1)
    else if b == 0x3f then .ok (some (0, some 1), c.advance 1)
    else .ok (none, c) := by
  rw [Expr.repetitionMark, hb]
  split <;> simp_all

theorem follows_repetitionMark (ht : Utf8.IsText text) (hc : c.OnChar text) :
    Follows text depth (fun d => d.OnChar text) ((repetitionMark text).run ⟨c.pos, depth⟩)
      (Expr.repetitionMark c) := by
  unfold repetitionMark
  refine .step (peek_eq hc.inText) ?_
  cases hb : c.peek? with
  | none =>
    rw [Expr.repetitionMark, hb]
    exact .done hc
  | some b =>
    rw [repetitionMark_of_peek hb]
    refine .ite (fun hbrace => ?_) fun _ => .ite (fun hstar => ?_) fun _ =>
      .ite (fun hplus => ?_) fun _ => .ite (fun hquestion => ?_) fun _ => ?_
    · exact follows_scanBounds ht hc (beq_iff_eq.mp hbrace ▸ hb)
    · exact follows_mark ht hc.inText hb (isAscii_of_beq hstar (by decide)) _
    · exact follows_mark ht hc.inText hb (isAscii_of_beq hplus (by decide)) _
    · exact follows_mark ht hc.inText hb (isAscii_of_beq hquestion (by decide)) _
    · exact .done hc

/-- The parts that repetition marks stand for are left again, as many as there are. -/
theorem follows_marksFrom (ht : Utf8.IsText text) (repeats : Nat)
    (hlevels : depth + repeats + levels = nestingLimit) (hmore : levels < more) (body : Expr)
    (hc : c.OnChar text) :
    Follows text depth (fun d => d.OnChar text)
      ((marksFrom text more repeats body).run ⟨c.pos, depth + repeats⟩)
      (Expr.repeated levels body c) := by
  induction more generalizing levels repeats body c with
  | zero => exact absurd hmore (Nat.not_lt_zero _)
  | succ more ih =>
    rw [marksFrom, Expr.repeated.eq_def]
    refine (follows_repetitionMark ht hc).bind fun mark d _ hd => ?_
    dsimp only
    cases mark with
    | none => exact .step (ascend_eq d.pos depth repeats) (.done hd)
    | some bounds =>
      obtain ⟨least, most⟩ := bounds
      cases levels with
      | zero => exact follows_tooDeep _ hlevels.ge hd.inText
      | succ levels =>
        have hless : depth + repeats < nestingLimit := by omega
        have hdeeper : depth + (repeats + 1) + levels = nestingLimit := by omega
        exact .step (descend_eq hless _) (ih _ hdeeper (Nat.lt_of_succ_lt_succ hmore) _ hd)

theorem isAscii_of_lookaheadMark? {kind : Lookahead} (h : Expr.lookaheadMark? b = some kind) :
    b < 0x80 := by
  unfold Expr.lookaheadMark? at h
  split_ifs at h with hpresent habsent
  · exact isAscii_of_beq hpresent (by decide)
  · exact isAscii_of_beq habsent (by decide)

theorem follows_parsePrefixedOf (ht : Utf8.IsText text) (hlevels : depth + levels = nestingLimit)
    (hinner : FollowsInner text inSource depth item levels) (hc : c.OnChar text) :
    Follows text depth (fun d => d.OnChar text)
      ((parsePrefixedOf text inSource item).run ⟨c.pos, depth⟩)
      (Expr.itemOf inSource levels (Written.inner inSource levels) c) := by
  unfold parsePrefixedOf Expr.itemOf
  refine .step (peek_eq hc.inText) ?_
  cases hkind : c.peek?.bind Expr.lookaheadMark? with
  | none =>
    refine (follows_parseAtom ht hlevels hinner hc).bind fun body d _ hd => ?_
    exact follows_marksFrom ht 0 hlevels (by omega) body hd
  | some kind =>
    obtain ⟨b, hb, hmark⟩ := Option.bind_eq_some_iff.mp hkind
    have hone := onChar_advance_one ht hc.inText hb (isAscii_of_lookaheadMark? hmark)
    have hnext := onChar_skipBlanks ht hone
    refine .step (advance_one_eq hc.inText hb) (.step (skipSpace_eq hone.inText) ?_)
    cases levels with
    | zero => exact follows_tooDeep _ hinner hnext.inText
    | succ levels =>
      obtain ⟨hless, hitem⟩ := hinner
      refine .step (descend_eq hless _) ((hitem hnext).bind fun body d _ hd => ?_)
      exact .step (ascend_eq d.pos depth 1) (.done hd)

/-- Items are passed over as long as a level is left for each part of them. -/
theorem follows_parsePrefixed (ht : Utf8.IsText text) {calls : Nat} (hcalls : levels < calls)
    (hlevels : depth + levels = nestingLimit) :
    FollowsItems text inSource depth levels (parsePrefixed text inSource calls) := by
  induction calls generalizing levels depth with
  | zero => exact absurd hcalls (Nat.not_lt_zero _)
  | succ calls ih =>
    intro c hc
    rw [parsePrefixed, Written.item_eq]
    refine follows_parsePrefixedOf ht hlevels ?_ hc
    cases levels with
    | zero => exact hlevels.ge
    | succ levels => exact ⟨by omega, ih (Nat.lt_of_succ_lt_succ hcalls) (by omega)⟩

theorem follows_passExpression (ht : Utf8.IsText text) (hc : c.OnChar text) :
    Follows text 0 (fun d => d.OnChar text) ((passExpression text inSource).run ⟨c.pos, 0⟩)
      (Expr.expression inSource c) :=
  follows_parseChoice ht
    (follows_parsePrefixed ht (Nat.lt_succ_self nestingLimit) (Nat.zero_add nestingLimit)) hc

/-! ## Imports and bindings -/

theorem follows_importDecl (ht : Utf8.IsText text) (hc : c.OnChar text) :
    Follows text depth (fun d => d.OnChar text) ((importDecl text).run ⟨c.pos, depth⟩)
      (Statement.importDecl c) := by
  unfold importDecl Statement.importDecl
  refine .step (skipSpace_eq hc.inText) ((follows_expectPlainIdentifier ht
    (onChar_skipBlanks ht hc) _).bind fun name d _ hd => ?_)
  have hblank := onChar_skipBlanks ht hd
  refine .step (skipSpace_eq hd.inText) (.step (lookaheadKeyword_eq hblank.inText "as") ?_)
  dsimp only
  split_ifs with hword
  · rw [Cursor.atWord, Bool.and_eq_true] at hword
    obtain ⟨rest, hrest⟩ := List.isPrefixOf_iff_prefix.mp hword.1
    have htwo := onChar_advance_two ht hblank.inText hrest.symm (by decide)
    have hlen : 2 ≤ d.skipBlanks.rest.length := by
      rw [← hrest, List.length_append]
      exact Nat.le_add_right 2 _
    refine .step (advance_eq hblank.inText hlen) (.step (skipSpace_eq htwo.inText) ?_)
    exact (follows_expectPlainIdentifier ht (onChar_skipBlanks ht htwo) _).bind
      fun _ _ _ he => .done he
  · exact .done hblank

theorem follows_importDeclsFrom (ht : Utf8.IsText text) {steps : Nat} {read : List ImportDecl}
    (hc : c.OnChar text) (hsteps : c.rest.length < steps) (hmore : c.rest.length < more) :
    Follows text depth (fun d => d.OnChar text)
      ((importDeclsFrom text more read).run ⟨c.pos, depth⟩)
      (Statement.importDeclsFrom steps read c) := by
  induction more generalizing c steps read with
  | zero => exact absurd hmore (Nat.not_lt_zero _)
  | succ more ih =>
    obtain ⟨steps, rfl⟩ := Nat.exists_eq_succ_of_ne_zero (Nat.ne_zero_of_lt hsteps)
    rw [importDeclsFrom, Statement.importDeclsFrom]
    refine (follows_importDecl ht hc).bind fun decl d hdecl hd => ?_
    have hblank := onChar_skipBlanks ht hd
    refine .step (skipSpace_eq hd.inText) (.step (peek_eq hblank.inText) ?_)
    dsimp only
    split_ifs with hcomma
    · have hpeek := beq_iff_eq.mp hcomma
      have hnext := onChar_advance_one ht hblank.inText hpeek (by decide)
      have hpass : c.Passes (d.skipBlanks.advance 1) :=
        (Statement.importDecl_embed (k := 0) Statement.follows_nil hdecl).1.trans_reaches
          ((Cursor.reaches_skipBlanks d).trans (Cursor.passes_of_peek hpeek).reaches)
      exact .step (advance_one_eq hblank.inText hpeek) (ih hnext
        (hpass.rounds_left hsteps)
        (hpass.rounds_left hmore))
    · exact .done hblank

/-- Modifiers that can follow. -/
def modifiersLeft (modifiers : Statement.Modifiers) : Nat :=
  if modifiers.isAlias then 0 else if modifiers.isLocal then 1 else 2

theorem modifiersLeft_add? {modifiers modifiers' : Statement.Modifiers} {word : Ident}
    (h : modifiers.add? word = some modifiers') :
    modifiersLeft modifiers' < modifiersLeft modifiers := by
  obtain ⟨isLocal, isAlias⟩ := modifiers
  unfold Statement.Modifiers.add? at h
  split_ifs at h with hlocal halias
  · cases h
    cases isLocal <;> cases isAlias <;> simp_all [modifiersLeft]
  · cases h
    cases isLocal <;> cases isAlias <;> simp_all [modifiersLeft]

theorem follows_modifiersFrom (ht : Utf8.IsText text) {modifiers : Statement.Modifiers}
    {word : Ident} (hc : c.OnChar text) (hleft : modifiersLeft modifiers < more) :
    Follows text depth (fun d => d.OnChar text)
      ((modifiersFrom text more modifiers word).run ⟨c.pos, depth⟩)
      (Statement.modifiersFrom more modifiers word c) := by
  induction more generalizing c modifiers word with
  | zero => exact absurd hleft (Nat.not_lt_zero _)
  | succ more ih =>
    rw [modifiersFrom, Statement.modifiersFrom]
    cases hadd : modifiers.add? word with
    | none => exact .done hc
    | some modifiers' =>
      have hblank := onChar_skipBlanks ht hc
      have hless := modifiersLeft_add? hadd
      refine .step (skipSpace_eq hc.inText) ?_
      dsimp only
      cases h : Ident.ahead? c.skipBlanks.rest with
      | none =>
        exact .step (scanIdentifier_of_none hblank.inText h)
          (follows_refuse (by simp) hblank.inText depth)
      | some ahead =>
        obtain ⟨next, width⟩ := ahead
        exact .step (scanIdentifier_of_some ht hblank h)
          (ih (onChar_advance_ahead? ht hblank h) (by omega))

theorem follows_parseBinding (ht : Utf8.IsText text) {first : Cursor} (hfirst : first.In text)
    (word : Ident) (hc : c.OnChar text) :
    Follows text 0 (fun d => d.OnChar text) ((parseBinding text first.pos word).run ⟨c.pos, 0⟩)
      (Statement.binding first word c) := by
  unfold parseBinding Statement.binding
  refine (follows_modifiersFrom ht hc (by decide)).bind fun bound d _ hd => ?_
  obtain ⟨modifiers, name⟩ := bound
  dsimp only
  have hblank := onChar_skipBlanks ht hd
  split_ifs with hqualified hkeyword hequals hends
  · exact .step (goTo_eq hfirst _) (follows_refuse (by simp) hfirst 0)
  · exact .step (goTo_eq hfirst _) (follows_refuse (by simp) hfirst 0)
  all_goals refine .step (skipSpace_eq hd.inText) (.step (peek_eq hblank.inText) ?_)
  · rw [if_pos hequals]
    exact follows_refuse (by simp) hblank.inText 0
  all_goals
    have hpeek : d.skipBlanks.peek? = some 0x3d := by simpa using hequals
    have hone := onChar_advance_one ht hblank.inText hpeek (by decide)
    have hnext := onChar_skipBlanks ht hone
    rw [if_neg hequals]
    refine .step (advance_one_eq hblank.inText hpeek) (.step (skipSpace_eq hone.inText)
      (.step (atEnd_eq hnext.inText) ?_))
  · rw [hends]
    exact follows_refuse (by simp) hnext.inText 0
  · rw [Bool.eq_false_iff.mpr hends]
    exact (follows_passExpression ht hnext).bind fun _ _ _ he => .done he

/-- A package declaration stands where its statement starts. -/
theorem packagePos?_of_statement {s : Statement} (h : Statement.statement c = .ok (s, d)) :
    packagePos? s = if s.isPackage then some (c.pos + 1) else none := by
  unfold Statement.statement at h
  cases hword : Ident.ahead? c.rest with
  | none =>
    rw [hword] at h
    cases h
  | some ahead =>
    rw [hword] at h
    dsimp only at h
    split_ifs at h
    · obtain ⟨name, -, h⟩ := Except.exists_of_bind_eq_ok h
      cases h
      rfl
    · obtain ⟨decls, -, h⟩ := Except.exists_of_bind_eq_ok h
      cases h
      rfl
    · obtain ⟨definition, -, h⟩ := Except.exists_of_bind_eq_ok h
      cases h
      rfl

theorem follows_parseStatement (ht : Utf8.IsText text) (hc : c.OnChar text) :
    Follows text 0 (fun d => d.OnChar text) ((parseStatement text).run ⟨c.pos, 0⟩)
      (Statement.statement c) := by
  unfold parseStatement Statement.statement
  refine .step (offset_eq _) ?_
  cases hword : Ident.ahead? c.rest with
  | none =>
    exact .step (scanIdentifier_of_none hc.inText hword) (follows_refuse (by simp) hc.inText 0)
  | some ahead =>
    obtain ⟨word, width⟩ := ahead
    have hbehind := onChar_advance_ahead? ht hc hword
    refine .step (scanIdentifier_of_some ht hc hword) ?_
    dsimp only
    split_ifs
    · exact .step (skipSpace_eq hbehind.inText) ((follows_expectPlainIdentifier ht
        (onChar_skipBlanks ht hbehind) _).bind fun _ _ _ hd => .done hd)
    · exact (follows_importDeclsFrom ht hbehind (Nat.lt_succ_self _)
        (length_lt_rounds hbehind.inText)).bind fun _ _ _ hd => .done hd
    · exact (follows_parseBinding ht hc.inText word hbehind).bind fun _ _ _ hd => .done hd

/-! ## Texts -/

variable {α β : Type} {p : Move α} {f : α → Move β} {s s' : State} {a : α} {Q : Cursor → Prop}

/-- What is parsed from a state on is what is read, or both refuse the text at a place in it. -/
inductive Ends (text : Bytes) {α : Type} :
    Option (Except Violation (α × State)) → Except ParseError α → Prop
  /-- There is a value. -/
  | done (a : α) (s : State) : Ends text (some (.ok (a, s))) (.ok a)
  /-- There is a violation. -/
  | refused {e : ParseError} (h : e.place.In text) : Ends text (some (.error e.toViolation))
      (.error e)

theorem Ends.step {result : Except ParseError β} (h : p.run s = some (.ok (a, s')))
    (hf : Ends text ((f a).run s') result) : Ends text ((p >>= f).run s) result := by
  rwa [bind_of_done h]

/-- What follows a reader ends as what is read behind it. -/
theorem Follows.ends {result : Except ParseError (α × Cursor)}
    {g : α × Cursor → Except ParseError β} (h : Follows text depth Q (p.run s) result)
    (hf : ∀ a d, result = .ok (a, d) → Q d → Ends text ((f a).run ⟨d.pos, depth⟩) (g (a, d))) :
    Ends text ((p >>= f).run s) (result >>= g) := by
  rw [run_bind]
  generalize p.run s = run at h
  cases h with
  | done h => exact hf _ _ rfl h
  | refused h => exact .refused h

theorem ends_refuse {cause : ParseCause} (hcause : cause ≠ .packageNotFirst) (hc : c.In text) :
    Ends text ((refuse (α := α) text cause).run ⟨c.pos, depth⟩) (c.fail cause) := by
  have hrefuse : Follows text depth (fun _ => True)
      ((refuse (α := α) text cause).run ⟨c.pos, depth⟩) (c.fail cause) :=
    follows_refuse hcause hc depth
  generalize (refuse (α := α) text cause).run ⟨c.pos, depth⟩ = run at hrefuse
  cases hrefuse with
  | refused h => exact .refused h

theorem onChar_start (text : Bytes) : (Cursor.start text).OnChar text :=
  ⟨in_start text, Utf8.isBoundary_zero text⟩

theorem ends_wholeExpression (ht : Utf8.IsText text) :
    Ends text ((wholeExpression text).run {}) (Expr.ofBytes text) := by
  have hblank := onChar_skipBlanks ht (onChar_start text)
  unfold wholeExpression Expr.ofBytes
  refine .step (skipSpace_eq (in_start text)) (.step (atEnd_eq hblank.inText) ?_)
  dsimp only
  split_ifs
  · exact ends_refuse (by simp) hblank.inText
  · refine (follows_passExpression ht hblank).ends fun e d _ hd => ?_
    have hend := onChar_skipBlanks ht hd
    refine .step (skipSpace_eq hd.inText) (.step (atEnd_eq hend.inText) ?_)
    dsimp only
    split_ifs
    · exact .done e _
    · exact .step (peekChar_eq ht hend) (ends_refuse (by simp) hend.inText)

theorem ends_statementsFrom (ht : Utf8.IsText text) (steps : Nat) (read : List Statement)
    (hc : c.OnChar text) (hsteps : c.rest.length < steps) (hmore : c.rest.length < more) :
    Ends text ((statementsFrom text more read).run ⟨c.pos, 0⟩)
      (Statement.statementsFrom steps read c) := by
  induction more generalizing c steps read with
  | zero => exact absurd hmore (Nat.not_lt_zero _)
  | succ more ih =>
    obtain ⟨steps, rfl⟩ := Nat.exists_eq_succ_of_ne_zero (Nat.ne_zero_of_lt hsteps)
    have hblank := onChar_skipBlanks ht hc
    rw [statementsFrom, Statement.statementsFrom]
    refine .step (skipSpace_eq hc.inText) (.step (atEnd_eq hblank.inText) ?_)
    dsimp only
    by_cases hends : c.skipBlanks.atEnd = true
    · rw [if_pos hends, if_pos hends]
      exact .done _ _
    · rw [if_neg hends, if_neg hends]
      refine (follows_parseStatement ht hblank).ends fun next d hnext hd => ?_
      have hpass := (Cursor.reaches_skipBlanks c).trans_passes (Statement.passes_of_statement hnext)
      have hrest := ih steps (next :: read) hd
        (hpass.rounds_left hsteps)
        (hpass.rounds_left hmore)
      dsimp only
      rw [packagePos?_of_statement hnext]
      cases next.isPackage with
      | false => exact hrest
      | true =>
        cases read.isEmpty with
        | true => exact hrest
        | false =>
          exact Ends.refused (e := ⟨.packageNotFirst, c.skipBlanks⟩) hblank.inText

/-- Where what is parsed ends as what is read, a violation has a position of the text. -/
theorem Ends.outcome_eq {result : Except ParseError α} (h : Ends text (p.run {}) result) :
    p.outcome = some (result.mapError ParseError.toViolation) ∧
      ∀ v, result.mapError ParseError.toViolation = .error v →
        ∃ pos, v.pos = some pos ∧ 1 ≤ pos ∧ pos ≤ text.length + 1 := by
  rw [Move.outcome]
  generalize p.run {} = run at h
  cases h with
  | done a s => exact ⟨rfl, fun v hv => by cases hv⟩
  | @refused e h =>
    refine ⟨rfl, fun v hv => ?_⟩
    cases hv
    exact ⟨_, rfl, Nat.le_add_left 1 _, Nat.succ_le_succ (pos_le h)⟩

/-- No check fails, whatever the text is: in the parse of every text as an expression or as a source
the cursor stays in the text, the counter of nested parts does not fall below zero, strings are cut
out between characters, and no loop and no call runs out of rounds. Both parses come to what the
readers on cursors come to, and every violation that is found is at a byte of the text or at its
end. -/
theorem parse_eq_some (s : String) :
    parseExpression s = some (Expr.ofText s) ∧
    parseSource s = some (Statement.listOfText s) ∧
    ∀ v, Expr.ofText s = .error v ∨ Statement.listOfText s = .error v →
      ∃ pos, v.pos = some pos ∧ 1 ≤ pos ∧ pos ≤ (Bytes.ofString s).length + 1 := by
  have ht := Utf8.isText_ofString s
  have hstart := onChar_start (Bytes.ofString s)
  obtain ⟨hexpression, hplace⟩ := (ends_wholeExpression ht).outcome_eq
  obtain ⟨hsource, hplace'⟩ := (ends_statementsFrom ht _ [] hstart (Nat.lt_succ_self _)
    (length_lt_rounds hstart.inText)).outcome_eq
  exact ⟨hexpression, hsource, fun v hv => hv.elim (hplace v) (hplace' v)⟩

/-- A literal with a character of two bytes in it, and the same character behind the literal. -/
def accented : String := "\"é\" é"

/-- The character that is shown is cut out of the text as a whole. -/
theorem parse_eq_some_accented :
    parseExpression accented =
        some (.error ⟨.parsing (.unexpected 'é'), none, some 6, some "é"⟩) ∧
      6 ≤ (Bytes.ofString accented).length + 1 := by
  have hv : Expr.ofText accented =
      .error ⟨.parsing (.unexpected 'é'), none, some 6, some "é"⟩ := by cbv
  obtain ⟨hparse, -, hplace⟩ := parse_eq_some accented
  obtain ⟨pos, hpos, -, hle⟩ := hplace _ (.inl hv)
  cases hpos
  exact ⟨hparse.trans (congrArg some hv), hle⟩

end PatternEngine.CheckedParser
