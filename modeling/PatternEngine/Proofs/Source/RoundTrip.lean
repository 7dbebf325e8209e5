import PatternEngine.Proofs.Source.Lookalikes
import PatternEngine.Proofs.Source.Printing

/-!
# Printed expressions are read again

What is printed for an expression is written as the grammar demands, with a group for each operand.
Reading it gives the expression back, with each reference at the place where its name is printed,
as long as the groups and predicates are within the limit.
-/

namespace PatternEngine

open PatternEngine.Expr (closingMarks endsSequence repetitionMark repetitionMarks)
open PatternEngine.Written (Alternatives Body Choice Group ItemWithin Items Operand exprOf loadOf
  loadOfItems)

namespace Layout

variable (layout : Layout)

mutual

/-- How an expression is written that is printed behind so many bytes. -/
def written (offset : Nat) : Expr → Body
  | .literal bytes => [[.plain (.literal bytes) (by rw [Expr.nesting])]]
  | .set members => [[.set members 0]]
  | .any => [[.plain .any (by rw [Expr.nesting])]]
  | .inputStart => [[.plain .inputStart (by rw [Expr.nesting])]]
  | .inputEnd => [[.plain .inputEnd (by rw [Expr.nesting])]]
  | .ref name _ => [[.plain (.ref name (offset + 1)) (by rw [Expr.nesting])]]
  | .seq items => [writtenOperands [] layout.gap offset items]
  | .choice items =>
    (writtenOperands [] layout.slash offset items).map fun item => [item]
  | .repetition body least most => [[.repetition (.group (written (offset + 1) body)) least most]]
  | .lookahead kind body => [[.lookahead kind (.group (written (offset + 2) body))]]

/-- How operands are written that are printed behind so many bytes. -/
def writtenOperands (lead separator : Bytes) (offset : Nat) : List Expr → List Written
  | [] => []
  | item :: items =>
    .group (written (offset + lead.length + 1) item) ::
      writtenOperands separator separator
        (offset + lead.length + (Lexeme.print (Lexeme.enclosed (layout.lexemes item))).length) items

end

/-- The second expression is the first with each reference at the place where its name is printed
behind so many bytes. -/
structure PlacedAt (offset : Nat) (e read : Expr) : Prop where
  unplaced : read.unplaced = e.unplaced
  references : read.references = Lexeme.places offset (layout.lexemes e)

variable {layout} {e : Expr} {items : List Expr} {lead separator tail : Bytes} {offset depth : Nat}
  {c : Cursor}

/-! ## What is written -/

theorem length_writtenOperands :
    (layout.writtenOperands lead separator offset items).length = items.length := by
  induction items generalizing lead offset with
  | nil => rfl
  | cons item items ih => rw [writtenOperands, List.length_cons, ih, List.length_cons]

theorem loadOf_map_singleton (items : List Written) :
    loadOf (items.map fun item => [item]) = loadOfItems items := by
  induction items with
  | nil => simp
  | cons item items ih => simp [ih]

mutual

/-- The load of what is printed. -/
theorem loadOf_written (layout : Layout) (offset : Nat) : ∀ e : Expr,
    loadOf (layout.written offset e) = e.printedLevels
  | .literal _ | .set _ | .any | .inputStart | .inputEnd | .ref _ _ => by
    simp [written, Expr.printedLevels]
  | .seq items => by
    have hitems := loadOfItems_writtenOperands layout [] layout.gap offset items
    simp [written, Expr.printedLevels, hitems]
  | .choice items => by
    rw [written, loadOf_map_singleton, Expr.printedLevels]
    exact loadOfItems_writtenOperands layout _ _ _ items
  | .repetition body _ _ => by
    simp [written, Expr.printedLevels, loadOf_written layout (offset + 1) body, Written.marks]
  | .lookahead _ body => by
    simp [written, Expr.printedLevels, loadOf_written layout (offset + 2) body]

theorem loadOfItems_writtenOperands (layout : Layout) (lead separator : Bytes) (offset : Nat) :
    ∀ items : List Expr, loadOfItems (layout.writtenOperands lead separator offset items) =
      Expr.levelsOfOperands items
  | [] => by simp [writtenOperands, Expr.levelsOfOperands]
  | item :: items => by
    simp [writtenOperands, Expr.levelsOfOperands, loadOf_written layout _ item,
      loadOfItems_writtenOperands layout separator separator _ items]

end

/-- The expressions of operands that are written are the operands, with each reference placed. -/
theorem placedAt_operands (lead separator : Bytes) (offset : Nat) (h : ∀ item ∈ items, ∀ offset,
      layout.PlacedAt offset item (exprOf (layout.written offset item))) :
    Expr.unplacedAll ((layout.writtenOperands lead separator offset items).map Written.expr) =
        Expr.unplacedAll items ∧
      Expr.referencesOfAll ((layout.writtenOperands lead separator offset items).map Written.expr) =
        Lexeme.places offset (layout.operands lead separator items) := by
  induction items generalizing lead offset with
  | nil => exact ⟨rfl, rfl⟩
  | cons item items ih =>
    have hitem := h item List.mem_cons_self (offset + lead.length + 1)
    obtain ⟨hexprs, hplaces⟩ := ih separator
      (offset + lead.length + (Lexeme.print (Lexeme.enclosed (layout.lexemes item))).length)
      fun item hmem => h item (List.mem_cons_of_mem _ hmem)
    constructor
    · rw [writtenOperands, List.map_cons, Expr.unplacedAll, Written.expr, hexprs, Expr.unplacedAll]
      exact congrArg (· :: _) hitem.unplaced
    · rw [writtenOperands, List.map_cons, Expr.referencesOfAll, Written.expr, hplaces, operands,
        List.cons_append, Lexeme.places, Lexeme.places_append, Lexeme.places_enclosed]
      exact congrArg (· ++ _) hitem.references

/-- Several items in a row are a sequence. -/
theorem exprOf_items {items : List Written} (hlen : 2 ≤ items.length) :
    exprOf [items] = .seq (items.map Written.expr) := by
  match items, hlen with
  | first :: second :: items, _ =>
    rw [exprOf, Written.exprsOfAlternatives_eq_map]
    rfl

/-- Several alternatives of one item each are a choice of the items. -/
theorem exprOf_alternatives {items : List Written} (hlen : 2 ≤ items.length) :
    exprOf (items.map fun item => [item]) = .choice (items.map Written.expr) := by
  match items, hlen with
  | first :: second :: items, _ =>
    rw [exprOf, Written.exprsOfAlternatives_eq_map, List.map_map]
    rfl

/-- What is written is the expression, with each reference placed. -/
theorem placedAt_written (h : e.Printable) (offset : Nat) :
    layout.PlacedAt offset e (exprOf (layout.written offset e)) := by
  induction h generalizing offset with
  | literal bytes => exact ⟨rfl, rfl⟩
  | set members => exact ⟨rfl, rfl⟩
  | any => exact ⟨rfl, rfl⟩
  | inputStart => exact ⟨rfl, rfl⟩
  | inputEnd => exact ⟨rfl, rfl⟩
  | ref h pos => exact ⟨rfl, rfl⟩
  | @seq items hlen h ih =>
    obtain ⟨hexprs, hplaces⟩ := placedAt_operands [] layout.gap offset ih
    rw [written, exprOf_items (by rwa [length_writtenOperands])]
    exact ⟨congrArg Expr.seq hexprs, hplaces⟩
  | @choice items hlen h ih =>
    obtain ⟨hexprs, hplaces⟩ := placedAt_operands [] layout.slash offset ih
    rw [written, exprOf_alternatives (by rwa [length_writtenOperands])]
    exact ⟨congrArg Expr.choice hexprs, hplaces⟩
  | @repetition body least most h hleast hmost ih =>
    obtain ⟨hexpr, hplaces⟩ := ih (offset + 1)
    refine ⟨congrArg (Expr.repetition · least most) hexpr, hplaces.trans ?_⟩
    rw [lexemes, Lexeme.places_append, Lexeme.places_enclosed]
    exact (List.append_nil _).symm
  | @lookahead body kind h ih =>
    obtain ⟨hexpr, hplaces⟩ := ih (offset + 2)
    refine ⟨congrArg (Expr.lookahead kind) hexpr, hplaces.trans ?_⟩
    rw [lexemes, Lexeme.places, Lexeme.places_enclosed]
    rfl

/-! ## Where it is written -/

/-- Nothing goes on here: the text ends or a parenthesis is closed. -/
def Stops (tail : Bytes) : Prop := ∀ b ∈ tail.head?, b = 0x29

namespace Stops

variable (h : Stops c.rest)
include h

theorem skipBlanks : c.skipBlanks = c := by
  cases hp : c.peek? with
  | none => exact Cursor.skipBlanks_of_nil (Cursor.peek?_eq_none_iff.mp hp)
  | some b =>
    obtain rfl : b = 0x29 := h b hp
    exact Cursor.skipBlanks_of_peek hp (by decide) (by decide)

theorem endsSequence : endsSequence false c = true := by
  cases hp : c.peek? with
  | none => exact Expr.endsSequence_of_nil (Cursor.peek?_eq_none_iff.mp hp)
  | some b =>
    obtain rfl : b = 0x29 := h b hp
    rw [Expr.endsSequence, hp]
    rfl

theorem no_slash : c.peek? ≠ some 0x2f := fun hp => absurd (h _ hp) (by decide)

end Stops

theorem Stops.no_mark (h : Stops tail) : ∀ b ∈ tail.head?, b ∉ repetitionMarks := by
  intro b hb
  rw [h b hb]
  decide

/-- Where no repetition mark stands there is none. -/
theorem repetitionMark_eq_none (h : ∀ b ∈ c.rest.head?, b ∉ repetitionMarks) :
    repetitionMark c = .ok (none, c) := by
  cases hp : c.peek? with
  | none => rw [repetitionMark, hp]
  | some b =>
    have hb := h b hp
    simp only [repetitionMarks, List.mem_cons, List.not_mem_nil, or_false, not_or] at hb
    rw [repetitionMark, hp]
    simp [hb]

/-- Blanks are passed over one by one. -/
theorem skipBlanks_of_blanks (hlead : ∀ b ∈ lead, Ascii.isBlank b = true)
    (h : c.rest = lead ++ tail) : c.skipBlanks = (c.advance lead.length).skipBlanks := by
  induction lead generalizing c with
  | nil => rfl
  | cons b lead ih =>
    have hstep : c.skipBlanks = (c.advance 1).skipBlanks := by
      obtain ⟨pos, bytes⟩ := c
      cases h
      exact if_pos (hlead b List.mem_cons_self)
    have hrest : (c.advance 1).rest = lead ++ tail := by
      rw [Cursor.rest_advance, h]
      rfl
    rw [hstep, ih (fun b hb => hlead b (List.mem_cons_of_mem _ hb)) hrest, Cursor.advance_advance,
      List.length_cons, Nat.add_comm]

/-- Blanks may be passed over before items, since their reader does so itself. -/
theorem items_skipBlanks {R : Cursor → Written → Cursor → Prop} {items : List Written} {d : Cursor}
    (h : Items false R c items d) : Items false R c.skipBlanks items d := by
  cases h with
  | done hends =>
    have hdone : Items false R c.skipBlanks [] c.skipBlanks.skipBlanks :=
      .done (by simpa using hends)
    rwa [Cursor.skipBlanks_skipBlanks] at hdone
  | next hends h hrest => exact .next (by simpa using hends) (by simpa using h) hrest

theorem alternatives_skipBlanks {R : Cursor → Written → Cursor → Prop} {body : Body} {d : Cursor}
    (h : Alternatives false R c body d) : Alternatives false R c.skipBlanks body d := by
  cases h with
  | done hp =>
    have hdone : Alternatives false R c.skipBlanks [] c.skipBlanks.skipBlanks :=
      .done (by simpa using hp)
    rwa [Cursor.skipBlanks_skipBlanks] at hdone
  | next hp h hne hrest => exact .next (by simpa using hp) (by simpa using h) hne hrest

theorem choice_skipBlanks {R : Cursor → Written → Cursor → Prop} {body : Body} {d : Cursor}
    (h : Choice false R c body d) : Choice false R c.skipBlanks body d := by
  cases h with
  | intro h hne hrest => exact .intro (items_skipBlanks h) hne hrest

variable (layout) in
/-- Wherever the expression is printed it is written as an expression, with so many groups and
predicates around its parts. -/
def WrittenWithin (depth : Nat) (e : Expr) : Prop :=
  ∀ (c : Cursor) (tail : Bytes), c.rest = layout.print e ++ tail → Stops tail →
    Choice false (ItemWithin false depth) c (layout.written c.pos e)
      (c.advance (layout.print e).length)

/-- An expression between parentheses is an operand. -/
theorem operand_of_enclosed (hbody : layout.WrittenWithin depth e)
    (h : c.rest = Lexeme.print (Lexeme.enclosed (layout.lexemes e)) ++ tail) :
    Operand false (ItemWithin false depth) c (.group (layout.written (c.pos + 1) e))
      (c.advance (Lexeme.print (Lexeme.enclosed (layout.lexemes e))).length) := by
  rw [Lexeme.print_enclosed] at h ⊢
  have hrest : (c.advance 1).rest = layout.print e ++ 0x29 :: tail := by
    rw [Cursor.rest_advance, h]
    simp [print]
  have hchoice := hbody (c.advance 1) (0x29 :: tail) hrest (by simp [Stops])
  have hbehind : ((c.advance 1).advance (layout.print e).length).rest = 0x29 :: tail :=
    Cursor.rest_advance_append hrest
  have hstop : Stops ((c.advance 1).advance (layout.print e).length).rest := by
    rw [hbehind]
    simp [Stops]
  have hgroup := Group.intro (choice_skipBlanks hchoice)
    (by rw [hstop.skipBlanks]; exact Cursor.peek?_of_cons hbehind)
  rw [hstop.skipBlanks, Cursor.advance_advance, Cursor.advance_advance] at hgroup
  have hlen : 1 + ((layout.print e).length + 1) =
      (0x28 :: Lexeme.print (layout.lexemes e) ++ [0x29]).length := by
    simp [print, Nat.add_comm]
  rw [hlen] at hgroup
  exact .round (Cursor.peek?_of_cons h) hgroup

theorem peek?_of_enclosed (h : c.rest = Lexeme.print (Lexeme.enclosed (layout.lexemes e)) ++ tail) :
    c.peek? = some 0x28 := by
  rw [Lexeme.print_enclosed] at h
  exact Cursor.peek?_of_cons h

/-- An operand is an item where no repetition mark stands behind it. -/
theorem item_of_enclosed (hbody : layout.WrittenWithin depth e)
    (h : c.rest = Lexeme.print (Lexeme.enclosed (layout.lexemes e)) ++ tail)
    (hmark : ∀ b ∈ tail.head?, b ∉ repetitionMarks) :
    ItemWithin false (depth + 1) c (.group (layout.written (c.pos + 1) e))
      (c.advance (Lexeme.print (Lexeme.enclosed (layout.lexemes e))).length) := by
  have hbehind := Cursor.rest_advance_append h
  refine .marked (by rw [peek?_of_enclosed h]; rfl) (operand_of_enclosed hbody h)
    (.done (repetitionMark_eq_none ?_))
  rwa [hbehind]

/-- Items behind an operand are items with it. -/
theorem items_cons {items : List Written} {d : Cursor}
    (hlead : ∀ b ∈ lead, Ascii.isBlank b = true) (hbody : layout.WrittenWithin depth e)
    (h : c.rest = lead ++ (Lexeme.print (Lexeme.enclosed (layout.lexemes e)) ++ tail))
    (hmark : ∀ b ∈ tail.head?, b ∉ repetitionMarks)
    (hrest : Items false (ItemWithin false (depth + 1))
      (c.advance (lead.length + (Lexeme.print (Lexeme.enclosed (layout.lexemes e))).length)) items
      d) :
    Items false (ItemWithin false (depth + 1)) c
      (.group (layout.written (c.pos + lead.length + 1) e) :: items) d := by
  have hopening := Cursor.rest_advance_append h
  have hp := peek?_of_enclosed hopening
  have hskip : c.skipBlanks = c.advance lead.length :=
    (skipBlanks_of_blanks hlead h).trans (Cursor.skipBlanks_of_peek hp (by decide) (by decide))
  have hitem := item_of_enclosed hbody hopening hmark
  rw [Cursor.advance_advance] at hitem
  refine .next ?_ ?_ hrest
  · rw [hskip]
    exact Expr.endsSequence_of_not_mem false hp (by decide)
  · rwa [hskip]

/-- Behind an operand stands no repetition mark where none begins the separator. -/
theorem no_mark_operands (hseparator : ∀ b ∈ (separator ++ [0x28]).head?, b ∉ repetitionMarks)
    (hstop : Stops tail) : ∀ b ∈ (Lexeme.print (layout.operands separator separator items) ++
      tail).head?, b ∉ repetitionMarks := by
  cases items with
  | nil => exact hstop.no_mark
  | cons item items =>
    rw [print_operands_cons, Lexeme.print_enclosed]
    cases separator with
    | nil => exact hseparator
    | cons b separator => exact hseparator

theorem no_mark_of_blank {b : UInt8} (hb : Ascii.isBlank b = true) : b ∉ repetitionMarks := by
  have hmarks : repetitionMarks.any Ascii.isBlank = false := by decide
  exact Bytes.not_mem_of_any hmarks hb

/-- No repetition mark begins what stands between operands. -/
theorem no_mark_gap (layout : Layout) {b' : UInt8} (hb' : b' ∉ repetitionMarks) (tail : Bytes) :
    ∀ b ∈ (layout.gap ++ b' :: tail).head?, b ∉ repetitionMarks := by
  cases hgap : layout.gap with
  | nil =>
    intro b hb
    cases hb
    exact hb'
  | cons first gap =>
    intro b hb
    cases hb
    exact no_mark_of_blank (layout.gap_blank first (by simp [hgap]))

/-- Operands with blanks between them are the items of a sequence. -/
theorem items_operands (hitems : ∀ item ∈ items, layout.WrittenWithin depth item)
    (hlead : ∀ b ∈ lead, Ascii.isBlank b = true)
    (h : c.rest = Lexeme.print (layout.operands lead layout.gap items) ++ tail)
    (hstop : Stops tail) :
    Items false (ItemWithin false (depth + 1)) c
      (layout.writtenOperands lead layout.gap c.pos items)
      (c.advance (Lexeme.print (layout.operands lead layout.gap items)).length) := by
  induction items generalizing lead c with
  | nil =>
    have hc : Stops c.rest := by rwa [h]
    have hdone : Items false (ItemWithin false (depth + 1)) c [] c.skipBlanks :=
      .done (by rw [hc.skipBlanks, hc.endsSequence])
    rwa [hc.skipBlanks] at hdone
  | cons item items ih =>
    rw [print_operands_cons, List.append_assoc, List.append_assoc] at h
    have hbehind := Cursor.rest_advance_append (Cursor.rest_advance_append h)
    rw [Cursor.advance_advance] at hbehind
    have hrest := ih (fun item hmem => hitems item (List.mem_cons_of_mem _ hmem))
      layout.gap_blank hbehind
    rw [Cursor.advance_advance] at hrest
    rw [writtenOperands, print_operands_cons, List.length_append, List.length_append,
      ← Nat.add_assoc]
    exact items_cons hlead (hitems item List.mem_cons_self) h
      (no_mark_operands (no_mark_gap layout (by decide) []) hstop)
      (by simpa [Nat.add_assoc] using hrest)

/-- Before a slash blanks are passed over. -/
theorem peek?_of_slash (h : c.rest = layout.slash ++ tail) :
    c.skipBlanks = c.advance layout.gap.length ∧
      (c.advance layout.gap.length).peek? = some 0x2f := by
  rw [slash, List.append_assoc, List.cons_append] at h
  have hp := Cursor.peek?_of_cons (Cursor.rest_advance_append h)
  exact ⟨(skipBlanks_of_blanks layout.gap_blank h).trans
    (Cursor.skipBlanks_of_peek hp (by decide) (by decide)), hp⟩

/-- An alternative ends before further ones. -/
theorem endsSequence_operands
    (h : c.rest = Lexeme.print (layout.operands layout.slash layout.slash items) ++ tail)
    (hstop : Stops tail) : endsSequence false c.skipBlanks = true := by
  cases items with
  | nil =>
    have hc : Stops c.rest := by rwa [h]
    rw [hc.skipBlanks, hc.endsSequence]
  | cons item items =>
    rw [print_operands_cons, List.append_assoc] at h
    obtain ⟨hskip, hp⟩ := peek?_of_slash h
    rw [hskip, endsSequence, hp]
    rfl

/-- An operand is an alternative where the end or further alternatives stand behind it. -/
theorem alternative_of_enclosed (hlead : ∀ b ∈ lead, Ascii.isBlank b = true)
    (hbody : layout.WrittenWithin depth e)
    (h : c.rest = lead ++ (Lexeme.print (Lexeme.enclosed (layout.lexemes e)) ++
      (Lexeme.print (layout.operands layout.slash layout.slash items) ++ tail)))
    (hstop : Stops tail) :
    Items false (ItemWithin false (depth + 1)) c
      [.group (layout.written (c.pos + lead.length + 1) e)]
      (c.advance (lead.length +
        (Lexeme.print (Lexeme.enclosed (layout.lexemes e))).length)).skipBlanks := by
  have hbehind := Cursor.rest_advance_append (Cursor.rest_advance_append h)
  rw [Cursor.advance_advance] at hbehind
  have hslash : ∀ b ∈ (layout.slash ++ [0x28]).head?, b ∉ repetitionMarks := by
    rw [slash, List.append_assoc]
    exact no_mark_gap layout (by decide) _
  exact items_cons hlead hbody h (no_mark_operands hslash hstop)
    (.done (endsSequence_operands hbehind hstop))

/-- Operands with slashes between them are alternatives. -/
theorem alternatives_operands (hitems : ∀ item ∈ items, layout.WrittenWithin depth item)
    (h : c.rest = Lexeme.print (layout.operands layout.slash layout.slash items) ++ tail)
    (hstop : Stops tail) :
    Alternatives false (ItemWithin false (depth + 1)) c
      ((layout.writtenOperands layout.slash layout.slash c.pos items).map fun item => [item])
      (c.advance (Lexeme.print (layout.operands layout.slash layout.slash items)).length) := by
  induction items generalizing c with
  | nil =>
    have hc : Stops c.rest := by rwa [h]
    have hdone : Alternatives false (ItemWithin false (depth + 1)) c [] c.skipBlanks :=
      .done (by rw [hc.skipBlanks]; exact hc.no_slash)
    rwa [hc.skipBlanks] at hdone
  | cons item items ih =>
    rw [print_operands_cons, List.append_assoc, List.append_assoc] at h
    obtain ⟨hskip, hp⟩ := peek?_of_slash h
    have hbehind := Cursor.rest_advance_append (Cursor.rest_advance_append h)
    rw [Cursor.advance_advance] at hbehind
    have hrest := ih (fun item hmem => hitems item (List.mem_cons_of_mem _ hmem)) hbehind
    rw [Cursor.advance_advance, Cursor.pos_advance, ← Nat.add_assoc c.pos] at hrest
    have hinside : (c.advance (layout.gap.length + 1)).rest = layout.gap ++
        (Lexeme.print (Lexeme.enclosed (layout.lexemes item)) ++
          (Lexeme.print (layout.operands layout.slash layout.slash items) ++ tail)) := by
      rw [Cursor.rest_advance, h, slash]
      simp
    have hlen (n : Nat) : layout.gap.length + 1 + (layout.gap.length + n) =
        layout.slash.length + n := by
      simp only [slash, List.length_append, List.length_cons]
      omega
    have hitem := alternative_of_enclosed layout.gap_blank (hitems item List.mem_cons_self) hinside
      hstop
    rw [Cursor.advance_advance, Cursor.pos_advance, Nat.add_assoc, Nat.add_assoc, hlen, hlen,
      ← Nat.add_assoc] at hitem
    rw [writtenOperands, List.map_cons, print_operands_cons, List.length_append, List.length_append,
      ← Nat.add_assoc]
    refine .next (by rwa [hskip]) ?_ (List.cons_ne_nil _ _) (alternatives_skipBlanks hrest)
    rw [hskip, Cursor.advance_advance]
    exact items_skipBlanks hitem

/-- The items of a sequence are an expression where it ends behind them. -/
theorem choice_of_items {R : Cursor → Written → Cursor → Prop} {items : List Written} {d : Cursor}
    (h : Items false R c items d) (hne : items ≠ []) (hstop : Stops d.rest) :
    Choice false R c [items] d := by
  have hdone : Alternatives false R d [] d.skipBlanks :=
    .done (by rw [hstop.skipBlanks]; exact hstop.no_slash)
  rw [hstop.skipBlanks] at hdone
  exact .intro h hne hdone

/-- The byte is one that no blanks, comment or end of a sequence begins with. -/
structure Begins (b : UInt8) : Prop where
  not_blank : Ascii.isBlank b = false
  not_dash : b ≠ 0x2d
  not_closing : b ∉ closingMarks

theorem begins_of_isStart {b : UInt8} (hb : Ident.isStart b = true) : Begins b := by
  have hclosing : closingMarks.any Ident.isStart = false := by decide
  refine ⟨Bool.eq_false_iff.mpr fun hblank => ?_, ?_, Bytes.not_mem_of_any hclosing hb⟩
  · cases (Ident.isPart_of_isStart hb).symm.trans (Expr.not_part_of_isBlank hblank).1
  · rintro rfl
    cases hb

/-- An item is an expression where it ends behind it. -/
theorem choice_of_item {w : Written} {b : UInt8} {d : Cursor} (hb : Begins b)
    (hp : c.peek? = some b) (h : ItemWithin false depth c w d) (hstop : Stops d.rest) :
    Choice false (ItemWithin false depth) c [[w]] d := by
  have hskip := Cursor.skipBlanks_of_peek hp hb.not_blank hb.not_dash
  have hdone : Items false (ItemWithin false depth) d [] d.skipBlanks :=
    .done (by rw [hstop.skipBlanks, hstop.endsSequence])
  rw [hstop.skipBlanks] at hdone
  refine choice_of_items (.next ?_ ?_ hdone) (List.cons_ne_nil _ _) hstop
  · rw [hskip]
    exact Expr.endsSequence_of_not_mem false hp hb.not_closing
  · rwa [hskip]

/-- An expression that is printed as an operand without parts is written as one. -/
theorem writtenWithin_of_operand {w : Nat → Written} {b : UInt8} {bytes : Bytes}
    (hwritten : ∀ offset, layout.written offset e = [[w offset]])
    (hprint : layout.print e = b :: bytes) (hb : Begins b) (hmark : Expr.lookaheadMark? b = none)
    (h : ∀ (c : Cursor) (tail : Bytes) (R : Cursor → Written → Cursor → Prop),
      c.rest = layout.print e ++ tail → Stops tail → c.peek? = some b →
      Operand false R c (w c.pos) (c.advance (layout.print e).length)) :
    layout.WrittenWithin depth e := by
  intro c tail hrest hstop
  have hbehind : Stops (c.advance (layout.print e).length).rest := by
    rwa [Cursor.rest_advance_append hrest]
  have hp : c.peek? = some b := Cursor.peek?_of_cons (by rw [hrest, hprint, List.cons_append])
  have hitem (R : Cursor → Written → Cursor → Prop) :
      Written.ItemOf false R c (w c.pos) (c.advance (layout.print e).length) :=
    .marked (by rw [hp]; exact hmark) (h c tail R hrest hstop hp)
      (.done (repetitionMark_eq_none hbehind.no_mark))
  rw [hwritten]
  refine choice_of_item hb hp ?_ hbehind
  cases depth with
  | zero => exact hitem _
  | succ depth => exact hitem _

/-- A literal is written as it is printed. -/
theorem writtenWithin_literal (layout : Layout) (depth : Nat) (bytes : Bytes) :
    layout.WrittenWithin depth (.literal bytes) := by
  refine writtenWithin_of_operand (fun offset => by rw [written]) (print_literal layout bytes)
    ⟨by decide, by decide, by decide⟩ rfl fun c tail R h _ hp => .literal hp ?_
  rw [print_literal] at h ⊢
  exact literal_eq_ok h

/-- A set is written as it is printed. -/
theorem writtenWithin_set (layout : Layout) (depth : Nat) (members : ByteSet) :
    layout.WrittenWithin depth (.set members) := by
  have hwritten : ∀ offset, layout.written offset (.set members) = [[.set members 0]] :=
    fun offset => by rw [written]
  refine writtenWithin_of_operand hwritten (print_set layout members)
    ⟨by decide, by decide, by decide⟩ rfl fun c tail R h _ hp => ?_
  rw [print_set] at h ⊢
  exact .set hp (bracket_members h)

/-- A reference is written as it is printed. -/
theorem writtenWithin_ref (layout : Layout) (depth : Nat) {name : Ident} (hname : name.Referable)
    (pos : Nat) : layout.WrittenWithin depth (.ref name pos) := by
  obtain ⟨b, bytes, hbytes, hstart⟩ := hname.exists_start
  have hmark : b ∉ Expr.itemMarks :=
    Expr.not_mem_itemMarks_of_isPart (Ident.isPart_of_isStart hstart)
  simp only [Expr.itemMarks, List.mem_cons, List.not_mem_nil, or_false, not_or] at hmark
  have hprint := (print_ref layout name pos).trans hbytes
  refine writtenWithin_of_operand (fun offset => by rw [written]) hprint
    (begins_of_isStart hstart) (by simp [Expr.lookaheadMark?, hmark])
    fun c tail R h hstop hp => ?_
  rw [print_ref] at h ⊢
  have hahead : Ident.ahead? (Bytes.ofString name.toText ++ tail) =
      some (name, (Bytes.ofString name.toText).length) := hname.ahead?_eq_some fun b hb => by
    rw [hstop b hb]
    decide
  refine .ref hp (by simp [Written.operandMarks, hmark]) ?_ hname.not_keyword
  rw [h, hahead]

/-- A sequence is written as it is printed where its operands are. -/
theorem writtenWithin_seq (hne : items ≠ [])
    (hitems : ∀ item ∈ items, layout.WrittenWithin depth item) :
    layout.WrittenWithin (depth + 1) (.seq items) := by
  intro c tail h hstop
  have hrow : Items false (ItemWithin false (depth + 1)) c
      (layout.writtenOperands [] layout.gap c.pos items)
      (c.advance (layout.print (.seq items)).length) := items_operands hitems (by simp) h hstop
  have hsome : layout.writtenOperands [] layout.gap c.pos items ≠ [] := by
    rwa [← List.length_pos_iff, length_writtenOperands, List.length_pos_iff]
  exact choice_of_items hrow hsome (by rwa [← Cursor.rest_advance_append h] at hstop)

/-- A choice is written as it is printed where its operands are. -/
theorem writtenWithin_choice (hne : items ≠ [])
    (hitems : ∀ item ∈ items, layout.WrittenWithin depth item) :
    layout.WrittenWithin (depth + 1) (.choice items) := by
  intro c tail h hstop
  obtain ⟨first, others, rfl⟩ := List.exists_cons_of_ne_nil hne
  have hprint : layout.print (.choice (first :: others)) =
      Lexeme.print (Lexeme.enclosed (layout.lexemes first)) ++
        Lexeme.print (layout.operands layout.slash layout.slash others) :=
    layout.print_operands_cons first
  rw [hprint, List.append_assoc] at h
  have hbehind := Cursor.rest_advance_append h
  have hfirst : Items false (ItemWithin false (depth + 1)) c
      [.group (layout.written (c.pos + ([] : Bytes).length + 1) first)] _ :=
    alternative_of_enclosed (List.forall_mem_nil _) (hitems first List.mem_cons_self) h hstop
  rw [List.length_nil, Nat.zero_add] at hfirst
  have hothers := alternatives_operands
    (fun item hitem => hitems item (List.mem_cons_of_mem _ hitem)) hbehind hstop
  rw [Cursor.advance_advance, ← List.length_append, ← hprint] at hothers
  exact .intro hfirst (List.cons_ne_nil _ _) (alternatives_skipBlanks hothers)

/-- A repetition is written as it is printed where its body is. -/
theorem writtenWithin_repetition {least : Nat} {most : Option Nat} (hleast : least < Bounds.limit)
    (hmost : ∀ m ∈ most, least ≤ m ∧ m < Bounds.limit) (hbody : layout.WrittenWithin depth e) :
    layout.WrittenWithin (depth + 1) (.repetition e least most) := by
  intro c tail h hstop
  rw [print_repetition] at h ⊢
  have hbehind : Stops (c.advance (Lexeme.print (Lexeme.enclosed (layout.lexemes e)) ++
      bounds least most).length).rest := by
    rwa [Cursor.rest_advance_append h]
  rw [List.append_assoc] at h
  have hmark := repetitionMark_bounds hleast hmost (Cursor.rest_advance_append h)
  rw [Cursor.advance_advance, ← List.length_append] at hmark
  refine choice_of_item ⟨by decide, by decide, by decide⟩ (peek?_of_enclosed h) ?_ hbehind
  exact .marked (by rw [peek?_of_enclosed h]; rfl) (operand_of_enclosed hbody h)
    (.next hmark (.done (repetitionMark_eq_none hbehind.no_mark)))

/-- A predicate is written as it is printed where its body is. -/
theorem writtenWithin_lookahead (kind : Lookahead) (hbody : layout.WrittenWithin depth e) :
    layout.WrittenWithin (depth + 2) (.lookahead kind e) := by
  intro c tail h hstop
  have hbehind : Stops (c.advance (layout.print (.lookahead kind e)).length).rest := by
    rwa [Cursor.rest_advance_append h]
  rw [print_lookahead, List.cons_append] at h
  have hinside : (c.advance 1).rest =
      Lexeme.print (Lexeme.enclosed (layout.lexemes e)) ++ tail := by
    rw [Cursor.rest_advance, h]
    rfl
  have hskip : (c.advance 1).skipBlanks = c.advance 1 :=
    Cursor.skipBlanks_of_peek (peek?_of_enclosed hinside) (by decide) (by decide)
  have hitem := item_of_enclosed hbody hinside hstop.no_mark
  rw [Cursor.advance_advance, Nat.add_comm 1, ← List.length_cons, ← print_lookahead] at hitem
  have hp := Cursor.peek?_of_cons h
  have hmark : Begins (lookaheadMark kind) ∧
      Expr.lookaheadMark? (lookaheadMark kind) = some kind := by
    cases kind with
    | present => exact ⟨⟨by decide, by decide, by decide⟩, rfl⟩
    | absent => exact ⟨⟨by decide, by decide, by decide⟩, rfl⟩
  refine choice_of_item hmark.1 hp (.lookahead (by rw [hp]; exact hmark.2) ?_) hbehind
  rw [hskip]
  exact hitem

theorem levelsOfOperands_le_iff {n : Nat} :
    Expr.levelsOfOperands items ≤ n ↔ ∀ item ∈ items, item.printedLevels + 1 ≤ n := by
  induction items with
  | nil => simp [Expr.levelsOfOperands]
  | cons item items ih => simp [Expr.levelsOfOperands, ih]

/-- Several operands open a level. -/
theorem exists_level (hlen : 2 ≤ items.length) (hdepth : Expr.levelsOfOperands items ≤ depth) :
    ∃ inside, depth = inside + 1 ∧ ∀ item ∈ items, item.printedLevels ≤ inside := by
  rw [levelsOfOperands_le_iff] at hdepth
  obtain ⟨first, hfirst⟩ := List.exists_mem_of_length_pos (Nat.zero_lt_of_lt hlen)
  have hpos : 0 < depth := Nat.zero_lt_of_lt (hdepth first hfirst)
  refine ⟨depth - 1, by omega, fun item hitem => ?_⟩
  have hle := hdepth item hitem
  omega

/-- What is printed is written as an expression, wherever it stands. -/
theorem writtenWithin (h : e.Printable) (hdepth : e.printedLevels ≤ depth) :
    layout.WrittenWithin depth e := by
  -- The operands stand in groups, so what is known of them is known with one level less.
  induction h generalizing depth with
  | literal bytes => exact writtenWithin_literal layout depth bytes
  | set members => exact writtenWithin_set layout depth members
  | any =>
    exact writtenWithin_of_operand (fun offset => by rw [written]) rfl
      ⟨by decide, by decide, by decide⟩ rfl fun c tail R _ _ hp => .any hp
  | inputStart =>
    exact writtenWithin_of_operand (fun offset => by rw [written]) rfl
      ⟨by decide, by decide, by decide⟩ rfl fun c tail R _ _ hp => .inputStart hp
  | inputEnd =>
    exact writtenWithin_of_operand (fun offset => by rw [written]) rfl
      ⟨by decide, by decide, by decide⟩ rfl fun c tail R _ _ hp => .inputEnd hp
  | ref h pos => exact writtenWithin_ref layout depth h pos
  | @seq items hlen h ih =>
    obtain ⟨inside, rfl, hinside⟩ := exists_level hlen hdepth
    exact writtenWithin_seq (List.ne_nil_of_length_pos (Nat.zero_lt_of_lt hlen))
      fun item hitem => ih item hitem (hinside item hitem)
  | @choice items hlen h ih =>
    obtain ⟨inside, rfl, hinside⟩ := exists_level hlen hdepth
    exact writtenWithin_choice (List.ne_nil_of_length_pos (Nat.zero_lt_of_lt hlen))
      fun item hitem => ih item hitem (hinside item hitem)
  | @repetition body least most h hleast hmost ih =>
    rw [Expr.printedLevels] at hdepth
    obtain ⟨inside, rfl⟩ : ∃ inside, depth = inside + 1 := ⟨depth - 1, by omega⟩
    exact writtenWithin_repetition hleast hmost (ih (by omega))
  | @lookahead body kind h ih =>
    rw [Expr.printedLevels] at hdepth
    obtain ⟨inside, rfl⟩ : ∃ inside, depth = inside + 2 := ⟨depth - 2, by omega⟩
    exact writtenWithin_lookahead kind (ih (by omega))

/-! ## The printed text -/

theorem isAscii_append {first second : Bytes} :
    Bytes.IsAscii (first ++ second) ↔ first.IsAscii ∧ second.IsAscii := List.forall_mem_append

theorem isAscii_between {bytes : Bytes} {b b' : UInt8} (hb : b < 0x80) (hb' : b' < 0x80)
    (h : bytes.IsAscii) : Bytes.IsAscii (b :: bytes ++ [b']) :=
  List.forall_mem_cons.mpr ⟨hb, isAscii_append.mpr ⟨h, by simpa [Bytes.IsAscii] using hb'⟩⟩

theorem isAscii_escapes (layout : Layout) (bytes : Bytes) :
    Bytes.IsAscii (bytes.flatMap layout.escape) := by
  have hdigit : ∀ (capital : Bool), ∀ n < 16, Ascii.hexDigit capital n < 0x80 := by decide
  intro b hb
  obtain ⟨b', -, hb⟩ := List.mem_flatMap.mp hb
  have hhigh := hdigit layout.capitals (b'.toNat / 16) (by have := b'.toNat_lt; omega)
  have hlow := hdigit layout.capitals (b'.toNat % 16) (Nat.mod_lt _ (by decide))
  simp only [escape, List.mem_cons, List.not_mem_nil, or_false] at hb
  rcases hb with rfl | rfl | rfl | rfl
  · decide
  · decide
  · exact hhigh
  · exact hlow

theorem isAscii_bounds (least : Nat) (most : Option Nat) : Bytes.IsAscii (bounds least most) := by
  refine isAscii_between (by decide) (by decide) fun b hb => ?_
  have hpart := isPart_of_mem_boundsBody hb
  simp only [Ascii.isDigit, Bool.or_eq_true, Bool.and_eq_true, decide_eq_true_eq, beq_iff_eq,
    UInt8.le_iff_toNat_le, ← UInt8.toNat_inj, UInt8.reduceToNat] at hpart
  refine UInt8.lt_iff_toNat_lt.mpr ?_
  change b.toNat < 128
  omega

theorem isAscii_gap (layout : Layout) : Bytes.IsAscii layout.gap := by
  intro b hb
  have hblank := layout.gap_blank b hb
  simp only [Ascii.isBlank, Bool.or_eq_true, beq_iff_eq, or_assoc] at hblank
  rcases hblank with rfl | rfl | rfl | rfl | rfl <;> decide

theorem isAscii_enclosed (h : Bytes.IsAscii (layout.print e)) :
    Bytes.IsAscii (Lexeme.print (Lexeme.enclosed (layout.lexemes e))) := by
  rw [Lexeme.print_enclosed]
  exact isAscii_between (by decide) (by decide) h

theorem isAscii_operands (hitems : ∀ item ∈ items, Bytes.IsAscii (layout.print item))
    (hlead : lead.IsAscii) (hseparator : separator.IsAscii) :
    Bytes.IsAscii (Lexeme.print (layout.operands lead separator items)) := by
  induction items generalizing lead with
  | nil => exact List.forall_mem_nil _
  | cons item items ih =>
    rw [print_operands_cons, isAscii_append, isAscii_append]
    exact ⟨hlead, isAscii_enclosed (hitems item List.mem_cons_self),
      ih (fun item hmem => hitems item (List.mem_cons_of_mem _ hmem)) hseparator⟩

/-- Everything that is printed is in ASCII. -/
theorem isAscii_print (h : e.Printable) : Bytes.IsAscii (layout.print e) := by
  induction h with
  | literal bytes =>
    rw [print_literal]
    exact isAscii_between (by decide) (by decide) (isAscii_escapes layout bytes)
  | set members =>
    rw [print_set]
    exact isAscii_between (by decide) (by decide) (isAscii_escapes layout members.toList)
  | any => simp [print, lexemes, Lexeme.bytes, Bytes.IsAscii]
  | inputStart => simp [print, lexemes, Lexeme.bytes, Bytes.IsAscii]
  | inputEnd => simp [print, lexemes, Lexeme.bytes, Bytes.IsAscii]
  | ref h pos =>
    rw [print_ref]
    exact h.isAscii
  | seq hlen h ih => exact isAscii_operands ih (List.forall_mem_nil _) (isAscii_gap layout)
  | choice hlen h ih =>
    refine isAscii_operands ih (List.forall_mem_nil _) (isAscii_append.mpr ⟨isAscii_gap layout, ?_⟩)
    exact List.forall_mem_cons.mpr ⟨by decide, isAscii_gap layout⟩
  | @repetition body least most h hleast hmost ih =>
    rw [print_repetition]
    exact isAscii_append.mpr ⟨isAscii_enclosed ih, isAscii_bounds least most⟩
  | @lookahead body kind h ih =>
    rw [print_lookahead]
    refine List.forall_mem_cons.mpr ⟨?_, isAscii_enclosed ih⟩
    cases kind with
    | present => decide
    | absent => decide

theorem ofString_text (h : e.Printable) : Bytes.ofString (layout.text e) = layout.print e :=
  Bytes.ofString_toAscii (isAscii_print h)

/-- Where an expression is written the text does not end. -/
theorem atEnd_of_choice {R : Cursor → Written → Cursor → Prop} {body : Body} {d : Cursor}
    (h : Choice false R c body d) : c.skipBlanks.atEnd = false := by
  rw [Bool.eq_false_iff, ne_eq, Cursor.atEnd_iff]
  intro hnil
  cases h with
  | intro h hne hrest =>
    cases h with
    | done hends => exact hne rfl
    | next hends h hrest =>
      rw [Expr.endsSequence_of_nil hnil] at hends
      cases hends

/-- What is printed is a text of the grammar. -/
theorem textOf_text (layout : Layout) (h : e.Printable) :
    Written.TextOf (Bytes.ofString (layout.text e)) (exprOf (layout.written 0 e))
      [layout.written 0 e] := by
  have hrest : (Cursor.start (layout.print e)).rest = layout.print e ++ [] :=
    (List.append_nil _).symm
  have hchoice : Choice false (ItemWithin false e.printedLevels) (Cursor.start (layout.print e))
      (layout.written 0 e) _ := writtenWithin h le_rfl _ [] hrest (by simp [Stops])
  have hstop : ((Cursor.start (layout.print e)).advance (layout.print e).length).rest = [] :=
    Cursor.rest_advance_append hrest
  rw [ofString_text h]
  refine .intro (atEnd_of_choice hchoice) ⟨_, choice_skipBlanks hchoice⟩ ?_
  rw [Cursor.skipBlanks_of_nil hstop, Cursor.atEnd_iff, hstop]

/-- Whether what is printed is read depends on its levels only. -/
theorem decides_text (layout : Layout) (h : e.Printable) :
    Decides nestingLimit e.printedLevels (exprOf (layout.written 0 e))
      (Expr.ofBytes (Bytes.ofString (layout.text e))) := by
  have hdecides := (textOf_text layout h).decides
  rwa [Written.greatestLoad_cons, Written.greatestLoad_nil, Nat.max_zero, loadOf_written]
    at hdecides

end Layout

/-! ## Reading what is printed -/

namespace Expr

variable {e : Expr}

mutual

/-- The references of an expression without their positions. -/
theorem references_unplaced : ∀ e : Expr,
    e.unplaced.references = e.references.map fun reference => (reference.1, 0)
  | .literal _ | .set _ | .any | .inputStart | .inputEnd | .ref _ _ => rfl
  | .seq items | .choice items => by
    rw [unplaced, references, references, referencesOfAll_unplacedAll items]
  | .repetition body _ _ | .lookahead _ body => by
    rw [unplaced, references, references, references_unplaced body]

/-- The references of some expressions without their positions. -/
theorem referencesOfAll_unplacedAll : ∀ items : List Expr,
    referencesOfAll (unplacedAll items) =
      (referencesOfAll items).map fun reference => (reference.1, 0)
  | [] => rfl
  | item :: items => by
    rw [unplacedAll, referencesOfAll, referencesOfAll, references_unplaced item,
      referencesOfAll_unplacedAll items, List.map_append]

end

theorem length_references {e e' : Expr} (h : e.unplaced = e'.unplaced) :
    e.references.length = e'.references.length := by
  have hmap := congrArg (fun e => e.references.length) h
  simpa only [references_unplaced, List.length_map] using hmap

mutual

/-- Nothing but the positions of its references is missing where those are left out. -/
theorem eq_of_unplaced : ∀ {e e' : Expr}, e.unplaced = e'.unplaced →
    e.references = e'.references → e = e'
  | .literal _, e', h, _ | .set _, e', h, _ | .any, e', h, _ | .inputStart, e', h, _
  | .inputEnd, e', h, _ => by
    cases e' <;> first | exact h | cases h
  | .ref _ _, e', h, hplaces => by
    cases e' with
    | ref _ _ =>
      cases hplaces
      rfl
    | _ => cases h
  | .seq items, e', h, hplaces => by
    cases e' with
    | seq items' => exact congrArg seq (eq_of_unplacedAll (seq.inj h) hplaces)
    | _ => cases h
  | .choice items, e', h, hplaces => by
    cases e' with
    | choice items' => exact congrArg choice (eq_of_unplacedAll (choice.inj h) hplaces)
    | _ => cases h
  | .repetition body _ _, e', h, hplaces => by
    cases e' with
    | repetition body' least most =>
      obtain ⟨hbody, rfl, rfl⟩ := repetition.inj h
      exact congrArg (repetition · _ _) (eq_of_unplaced hbody hplaces)
    | _ => cases h
  | .lookahead _ body, e', h, hplaces => by
    cases e' with
    | lookahead kind body' =>
      obtain ⟨rfl, hbody⟩ := lookahead.inj h
      exact congrArg (lookahead _) (eq_of_unplaced hbody hplaces)
    | _ => cases h

/-- The same for the expressions of lists. -/
theorem eq_of_unplacedAll : ∀ {items items' : List Expr}, unplacedAll items = unplacedAll items' →
    referencesOfAll items = referencesOfAll items' → items = items'
  | [], items', h, _ => by
    cases items' with
    | nil => rfl
    | cons item' items' => cases h
  | item :: items, items', h, hplaces => by
    cases items' with
    | nil => cases h
    | cons item' items' =>
      obtain ⟨hitem, hitems⟩ := List.cons.inj h
      obtain ⟨hplace, hplaces⟩ := List.append_inj hplaces (length_references hitem)
      rw [eq_of_unplaced hitem hplace, eq_of_unplacedAll hitems hplaces]

end

/-- **What is printed is read again.** A printed expression whose groups and predicates are within
the limit is read as the same expression, with each reference at the place where its name begins,
counted in bytes from one. -/
theorem ofText_text (layout : Layout) (h : e.Printable)
    (hlevels : e.printedLevels ≤ nestingLimit) :
    ∃ read, Expr.ofText (layout.text e) = .ok read ∧ layout.PlacedAt 0 e read ∧
      (e.references = Lexeme.places 0 (layout.lexemes e) → read = e) ∧
      ∀ name pos, (name, pos) ∈ read.references → 0 < pos ∧
        Bytes.ofString name.toText <+: (Bytes.ofString (layout.text e)).drop (pos - 1) := by
  have hread := (layout.decides_text h).accepts hlevels
  have hplaced : layout.PlacedAt 0 e _ := Layout.placedAt_written h 0
  refine ⟨_, Except.mapError_eq_ok.mpr hread, hplaced, fun hself => ?_, fun name pos hmem => ?_⟩
  · exact eq_of_unplaced hplaced.unplaced (hplaced.references.trans hself.symm)
  · rw [hplaced.references] at hmem
    obtain ⟨before, rfl, hbegins⟩ := Lexeme.places_spec hmem
    rw [Layout.ofString_text h, Nat.zero_add, Nat.add_sub_cancel]
    exact ⟨Nat.succ_pos _, hbegins⟩

/-- A digit, a name and two bytes, or twice to five times no address. -/
def mixed : Expr :=
  .choice [.seq [.set (.range 0x30 0x31), .ref ⟨none, "name"⟩ 0, .literal [0x22, 0xff]],
    .repetition (.lookahead .absent (.ref ⟨some "net", "ip"⟩ 0)) 2 (some 5)]

/-- A single space between operands, and small letters as digits. -/
def spaced : Layout := ⟨[0x20], by simp [Ascii.isBlank], false⟩

theorem printable_mixed : mixed.Printable := by
  have hname : Ident.Referable ⟨none, "name"⟩ :=
    ⟨⟨0x6e, [0x61, 0x6d, 0x65], rfl, by decide +kernel, rfl⟩, nofun, by decide⟩
  have hip : Ident.Referable ⟨some "net", "ip"⟩ := by
    refine ⟨⟨0x69, [0x70], rfl, by decide +kernel, rfl⟩, fun qualifier h => ?_, by decide⟩
    obtain rfl := Option.some.inj h
    exact ⟨0x6e, [0x65, 0x74], rfl, by decide +kernel, rfl⟩
  have hseq : ∀ item ∈ [.set (.range 0x30 0x31), .ref ⟨none, "name"⟩ 0, .literal [0x22, 0xff]],
      Printable item := by
    simp only [List.forall_mem_cons]
    exact ⟨.set _, .ref hname _, .literal _, List.forall_mem_nil _⟩
  refine .choice le_rfl ?_
  simp only [List.forall_mem_cons]
  exact ⟨.seq (by decide) hseq, .repetition (.lookahead _ (.ref hip _)) (by decide)
    (by decide), List.forall_mem_nil _⟩

/-- The text of the expression and the places of the names in it. -/
theorem ofText_text_mixed : mixed.Printable ∧ mixed.printedLevels ≤ nestingLimit ∧
    spaced.text mixed =
      "(([\\x30\\x31]) (name) (\"\\x22\\xff\")) / ((!(net.ip)){2,5})" ∧
    ∃ read, Expr.ofText (spaced.text mixed) = .ok read ∧ read.unplaced = mixed.unplaced ∧
      read.references = [(⟨none, "name"⟩, 16), (⟨some "net", "ip"⟩, 42)] := by
  have hlevels : mixed.printedLevels ≤ nestingLimit := by decide
  refine ⟨printable_mixed, hlevels, by decide +kernel, ?_⟩
  obtain ⟨read, hread, hplaced, -⟩ := ofText_text spaced printable_mixed hlevels
  exact ⟨read, hread, hplaced.unplaced, hplaced.references.trans (by decide +kernel)⟩

/-- A printed expression whose groups and predicates are beyond the limit is refused. -/
theorem refused_text (layout : Layout) (h : e.Printable)
    (hlevels : nestingLimit < e.printedLevels) :
    RefusedForNesting (Expr.ofText (layout.text e)) :=
  ((layout.decides_text h).refuses hlevels).refused

end Expr

end PatternEngine
