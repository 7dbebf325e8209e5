import PatternEngine.Proofs.Source.Expressions
import PatternEngine.Proofs.Source.NestedBrackets
import PatternEngine.Proofs.Source.Written

/-!
# The grammar of expressions

How expressions are written, however many levels they open. The reader of expressions reads what is
written so if it has the levels that are needed, and fails for its levels if it has not; and it
reads nothing else.
-/

namespace PatternEngine.Written

open PatternEngine.Expr (endsSequence repetitionMark lookaheadMark?)

/-! ## What is written -/

/-- The items of a sequence up to where it ends, given how an item is written. -/
inductive Items (inSource : Bool) (R : Cursor → Written → Cursor → Prop) :
    Cursor → List Written → Cursor → Prop
  | done {c : Cursor} (hends : endsSequence inSource c.skipBlanks = true) :
      Items inSource R c [] c.skipBlanks
  | next {c d e : Cursor} {w : Written} {items : List Written}
      (hends : endsSequence inSource c.skipBlanks = false) (h : R c.skipBlanks w d)
      (hrest : Items inSource R d items e) : Items inSource R c (w :: items) e

/-- Further alternatives, each behind a slash. -/
inductive Alternatives (inSource : Bool) (R : Cursor → Written → Cursor → Prop) :
    Cursor → List (List Written) → Cursor → Prop
  | done {c : Cursor} (hp : c.skipBlanks.peek? ≠ some 0x2f) :
      Alternatives inSource R c [] c.skipBlanks
  | next {c d e : Cursor} {items : List Written} {alternatives : List (List Written)}
      (hp : c.skipBlanks.peek? = some 0x2f)
      (h : Items inSource R (c.skipBlanks.advance 1).skipBlanks items d) (hne : items ≠ [])
      (hrest : Alternatives inSource R d alternatives e) :
      Alternatives inSource R c (items :: alternatives) e

/-- Alternatives. -/
inductive Choice (inSource : Bool) (R : Cursor → Written → Cursor → Prop) :
    Cursor → List (List Written) → Cursor → Prop
  | intro {c d e : Cursor} {items : List Written} {alternatives : List (List Written)}
      (h : Items inSource R c items d) (hne : items ≠ [])
      (hrest : Alternatives inSource R d alternatives e) :
      Choice inSource R c (items :: alternatives) e

/-- A group behind its opening bracket. -/
inductive Group (inSource : Bool) (R : Cursor → Written → Cursor → Prop) (closing : UInt8) :
    Cursor → List (List Written) → Cursor → Prop
  | intro {c d : Cursor} {alternatives : List (List Written)}
      (h : Choice inSource R c.skipBlanks alternatives d)
      (hp : d.skipBlanks.peek? = some closing) :
      Group inSource R closing c alternatives (d.skipBlanks.advance 1)

/-- The bytes that begin an operand which is not a name. -/
def operandMarks : List UInt8 := [0x22, 0x5b, 0x2e, 0x5e, 0x24, 0x28, 0x7b]

/-- An operand. -/
inductive Operand (inSource : Bool) (R : Cursor → Written → Cursor → Prop) :
    Cursor → Written → Cursor → Prop
  | literal {c d : Cursor} {bytes : Bytes} (hp : c.peek? = some 0x22)
      (h : Literal.literal c = .ok (bytes, d)) :
      Operand inSource R c (.plain (.literal bytes) (by rw [Expr.nesting])) d
  | set {c d : Cursor} {members : ByteSet} {depth n : Nat} (hp : c.peek? = some 0x5b)
      (h : Bracket.WrittenWithin depth c (c.advance 1) members n d) :
      Operand inSource R c (.set members n) d
  | any {c : Cursor} (hp : c.peek? = some 0x2e) :
      Operand inSource R c (.plain .any (by rw [Expr.nesting])) (c.advance 1)
  | inputStart {c : Cursor} (hp : c.peek? = some 0x5e) :
      Operand inSource R c (.plain .inputStart (by rw [Expr.nesting])) (c.advance 1)
  | inputEnd {c : Cursor} (hp : c.peek? = some 0x24) :
      Operand inSource R c (.plain .inputEnd (by rw [Expr.nesting])) (c.advance 1)
  | round {c d : Cursor} {alternatives : List (List Written)} (hp : c.peek? = some 0x28)
      (h : Group inSource R 0x29 (c.advance 1) alternatives d) :
      Operand inSource R c (.group alternatives) d
  | curly {c d : Cursor} {alternatives : List (List Written)} (hp : c.peek? = some 0x7b)
      (h : Group inSource R 0x7d (c.advance 1) alternatives d) :
      Operand inSource R c (.group alternatives) d
  | ref {c : Cursor} {b : UInt8} {name : Ident} {width : Nat} (hp : c.peek? = some b)
      (hmark : b ∉ operandMarks) (h : Ident.ahead? c.rest = some (name, width))
      (hkeyword : name.isKeyword = false) :
      Operand inSource R c (.plain (.ref name (c.pos + 1)) (by rw [Expr.nesting]))
        (c.advance width)

/-- Repetition marks behind an item, and the item with them. -/
inductive Marks : Written → Cursor → Written → Cursor → Prop
  | done {w : Written} {c d : Cursor} (h : repetitionMark c = .ok (none, d)) : Marks w c w d
  | next {w w' : Written} {c d e : Cursor} {least : Nat} {most : Option Nat}
      (h : repetitionMark c = .ok (some (least, most), d))
      (hrest : Marks (.repetition w least most) d w' e) : Marks w c w' e

/-- An item, given how the items one level further down are written. -/
inductive ItemOf (inSource : Bool) (R : Cursor → Written → Cursor → Prop) :
    Cursor → Written → Cursor → Prop
  | lookahead {c d : Cursor} {w : Written} {kind : Lookahead}
      (hp : c.peek?.bind lookaheadMark? = some kind) (h : R (c.advance 1).skipBlanks w d) :
      ItemOf inSource R c (.lookahead kind w) d
  | marked {c d e : Cursor} {w w' : Written} (hp : c.peek?.bind lookaheadMark? = none)
      (h : Operand inSource R c w d) (hmarks : Marks w d w' e) : ItemOf inSource R c w' e

/-- An item with at most so many groups and predicates around its parts. -/
def ItemWithin (inSource : Bool) : (depth : Nat) → Cursor → Written → Cursor → Prop
  | 0 => ItemOf inSource fun _ _ _ => False
  | depth + 1 => ItemOf inSource (ItemWithin inSource depth)

/-- Alternatives of items. -/
def WrittenAt (inSource : Bool) (c : Cursor) (alternatives : List (List Written)) (d : Cursor) :
    Prop := ∃ depth, Choice inSource (ItemWithin inSource depth) c alternatives d

/-- The reader of the items one level further down, if there is a level for them. -/
def inner (inSource : Bool) : (levels : Nat) → Option (Parse Expr)
  | 0 => none
  | levels + 1 => some (Expr.item inSource levels)

theorem item_eq (inSource : Bool) (levels : Nat) :
    Expr.item inSource levels = Expr.itemOf inSource levels (inner inSource levels) := by
  cases levels <;> rfl

/-! ## What is written is decided -/

variable {inSource : Bool} {R : Cursor → Written → Cursor → Prop} {c d : Cursor} {e : Expr}
  {w w' : Written} {items : List Written} {alternatives : List (List Written)} {levels : Nat}

theorem passes_item (h : Expr.item inSource levels c = .ok (e, d)) : c.Passes d :=
  (Expr.item_moves (k := 0) Expr.follows_nil levels h).1

theorem passes_sequence (h : Expr.sequence inSource (Expr.item inSource levels) c = .ok (e, d)) :
    c.Passes d :=
  (Expr.sequence_movesOn (k := 0) Expr.follows_nil (Expr.item_moves Expr.follows_nil levels) h).1

/-- The reader of items decides on what is written so. -/
def ItemsDecided (inSource : Bool) (R : Cursor → Written → Cursor → Prop) : Prop :=
  ∀ levels c w d, R c w d → Decides levels w.load (w.expr, d) (Expr.item inSource levels c)

/-- The items of a sequence are decided where items are. -/
theorem Items.decides (hR : ItemsDecided inSource R) (h : Items inSource R c items d)
    (steps : Bytes) (hsteps : c.rest.length ≤ steps.length) (read : List Expr) :
    Decides levels (loadOfItems items) (read.reverse ++ items.map expr, d)
      (Expr.itemsFrom inSource (Expr.item inSource levels) steps read c) := by
  induction h generalizing steps read with
  | done hends =>
    rw [Expr.itemsFrom_of_ends steps read hsteps hends, loadOfItems_nil]
    exact .of_eq (by simp)
  | @next c d e w items hends h hrest ih =>
    have hne : c.rest ≠ [] := by
      intro hc
      rw [Cursor.skipBlanks_of_nil hc, Expr.endsSequence_of_nil hc] at hends
      cases hends
    obtain ⟨step, steps, rfl⟩ := exists_step hne hsteps
    have hitem := hR levels _ w d h
    rw [Expr.itemsFrom]
    dsimp only
    rw [if_neg (Bool.eq_false_iff.mp hends), loadOfItems_cons]
    refine hitem.bind fun hload => ?_
    have hpass := (Cursor.reaches_skipBlanks c).trans_passes (passes_item (hitem.accepts hload))
    have hothers := ih steps (hpass.steps_left hsteps) (w.expr :: read)
    rw [List.reverse_cons, List.append_assoc, List.singleton_append] at hothers
    exact hothers

/-- A sequence is decided where items are. -/
theorem Items.decides_sequence (levels : Nat) (hR : ItemsDecided inSource R)
    (h : Items inSource R c items d) (hne : items ≠ []) :
    Decides levels (loadOfItems items) (Expr.ofItems (items.map expr), d)
      (Expr.sequence inSource (Expr.item inSource levels) c) := by
  refine (h.decides hR c.rest le_rfl []).map fun _ => ?_
  exact if_neg (by simpa using hne)

/-- Further alternatives are decided where items are. -/
theorem Alternatives.decides (hR : ItemsDecided inSource R)
    (h : Alternatives inSource R c alternatives d) (steps : Bytes)
    (hsteps : c.rest.length ≤ steps.length) (read : List Expr) :
    Decides levels (loadOf alternatives) (read.reverse ++ exprsOfAlternatives alternatives, d)
      (Expr.alternativesFrom inSource (Expr.item inSource levels) steps read c) := by
  induction h generalizing steps read with
  | @done c hp =>
    rw [loadOf_nil, exprsOfAlternatives, List.append_nil]
    refine .of_eq ?_
    cases steps with
    | nil =>
      rw [Cursor.skipBlanks_of_nil (List.length_eq_zero_iff.mp (Nat.le_zero.mp hsteps))]
      rfl
    | cons step steps =>
      rw [Expr.alternativesFrom]
      exact if_neg (by simpa using hp)
  | @next c d e items alternatives hp h hne hrest ih =>
    have hslash : c.Passes (c.skipBlanks.advance 1) :=
      (Cursor.reaches_skipBlanks c).trans_passes (Cursor.passes_of_peek hp)
    obtain ⟨step, steps, rfl⟩ := exists_step hslash.rest_ne_nil hsteps
    have hitems := h.decides_sequence levels hR hne
    rw [Expr.alternativesFrom]
    dsimp only
    rw [if_pos (beq_iff_eq.mpr hp), loadOf_cons]
    refine hitems.bind fun hload => ?_
    have hpass := hslash.trans ((Cursor.reaches_skipBlanks _).trans_passes
      (passes_sequence (hitems.accepts hload)))
    have hothers := ih steps (hpass.steps_left hsteps) (Expr.ofItems (items.map expr) :: read)
    rw [List.reverse_cons, List.append_assoc, List.singleton_append] at hothers
    rw [exprsOfAlternatives, exprsOfItems_eq_map]
    exact hothers

/-- Alternatives are decided where items are. -/
theorem Choice.decides (hR : ItemsDecided inSource R) (h : Choice inSource R c alternatives d) :
    Decides levels (loadOf alternatives) (exprOf alternatives, d)
      (Expr.choiceOf inSource (Expr.item inSource levels) c) := by
  cases h with
  | @intro _ _ items alternatives h hne hrest =>
    rw [loadOf_cons, exprOf, exprsOfAlternatives, exprsOfItems_eq_map]
    refine (h.decides_sequence levels hR hne).bind fun _ => ?_
    exact (hrest.decides hR _ le_rfl [Expr.ofItems (items.map expr)]).map fun _ => rfl

/-- A group takes a level, and is decided where items are. -/
theorem Group.decides {closing : UInt8} (hR : ItemsDecided inSource R)
    (h : Group inSource R closing c alternatives d) (what : Expected) :
    Decides levels (loadOf alternatives + 1) (exprOf alternatives, d)
      (Expr.group inSource (inner inSource levels) closing what c) := by
  cases h with
  | intro h hp =>
    cases levels with
    | zero => exact .of_tooDeep ⟨_, rfl⟩ (Nat.succ_pos _)
    | succ levels =>
      refine (h.decides hR).deeper.map fun _ => ?_
      exact if_pos (beq_iff_eq.mpr hp)

/-- An operand is decided where items are. -/
theorem Operand.decides (hR : ItemsDecided inSource R) (h : Operand inSource R c w d) :
    Decides levels w.load (w.expr, d)
      (Expr.operand inSource levels (inner inSource levels) c) := by
  unfold Expr.operand
  cases h with
  | literal hp h =>
    rw [hp, load_plain]
    exact .of_eq (Except.bind_of_eq_ok h)
  | set hp h =>
    rw [hp, load_set]
    exact (h.decides levels).map fun _ => rfl
  | any hp | inputStart hp | inputEnd hp =>
    rw [hp, load_plain]
    exact .of_eq rfl
  | round hp h | curly hp h =>
    rw [hp, load_group]
    exact h.decides hR _
  | @ref b name width hp hmark h hkeyword =>
    simp only [operandMarks, List.mem_cons, List.not_mem_nil, or_false, not_or] at hmark
    rw [hp, load_plain]
    refine .of_eq ?_
    simp [hmark, h, hkeyword, expr]

/-- There is no repetition mark on an operand itself. -/
theorem Operand.marks_eq_zero (h : Operand inSource R c w d) : w.marks = 0 := by
  cases h <;> rfl

theorem Marks.marks_le (h : Marks w c w' d) : w.marks ≤ w'.marks := by
  induction h with
  | done => exact le_rfl
  | next _ _ ih => exact (Nat.le_succ _).trans ih

/-- The marks take their levels beside those that the item behind which they stand takes. -/
theorem Marks.load_eq (h : Marks w c w' d) : w'.load = max w.load w'.marks := by
  induction h with
  | @done w c d h =>
    have := w.marks_le_load
    omega
  | @next w w' c d e least most h hrest ih =>
    have hle := hrest.marks_le
    rw [load_repetition] at ih
    rw [marks] at hle
    omega

/-- Repetition marks take a level each. -/
theorem Marks.decides (h : Marks w c w' d) (levels : Nat) :
    Decides levels (w'.marks - w.marks) (w'.expr, d) (Expr.repeated levels w.expr c) := by
  induction h generalizing levels with
  | done h =>
    rw [Nat.sub_self, Expr.repeated.eq_def]
    exact .of_eq (Except.bind_of_eq_ok h)
  | @next w w' c d e least most h hrest ih =>
    have hle := hrest.marks_le
    rw [marks] at hle ih
    rw [Expr.repeated.eq_def]
    dsimp only
    rw [Except.bind_of_eq_ok h]
    cases levels with
    | zero => exact .of_tooDeep ⟨_, rfl⟩ (by omega)
    | succ levels =>
      have hmore := (ih levels).deeper
      have hone : w'.marks - (w.marks + 1) + 1 = w'.marks - w.marks := by omega
      rwa [hone] at hmore

/-- An item is decided where the items one level further down are. -/
theorem ItemOf.decides (hR : ItemsDecided inSource R) :
    ItemsDecided inSource (ItemOf inSource R) := by
  intro levels c w d h
  rw [item_eq, Expr.itemOf]
  cases h with
  | lookahead hp h =>
    rw [hp, load_lookahead]
    cases levels with
    | zero => exact .of_tooDeep ⟨_, rfl⟩ (Nat.succ_pos _)
    | succ levels => exact (hR levels _ _ _ h).deeper.map fun _ => rfl
  | marked hp h hmarks =>
    have hmarked := hmarks.decides levels
    rw [h.marks_eq_zero, Nat.sub_zero] at hmarked
    rw [hp, hmarks.load_eq]
    exact (h.decides hR).bind fun _ => hmarked

/-- Items are decided. -/
theorem ItemWithin.decides (inSource : Bool) (depth : Nat) :
    ItemsDecided inSource (ItemWithin inSource depth) := by
  induction depth with
  | zero => exact ItemOf.decides fun _ _ _ _ h => h.elim
  | succ depth ih => exact ItemOf.decides ih

/-! ## What is read is written -/

/-- What the reader of items reads, with so many levels, is written so. -/
def ItemsWritten (inSource : Bool) (R : Cursor → Written → Cursor → Prop) (levels : Nat) : Prop :=
  ∀ c e d, Expr.item inSource levels c = .ok (e, d) → ∃ w, R c w d ∧ w.expr = e ∧ w.load ≤ levels

/-- The items of a sequence are written where items are. -/
theorem items_of_itemsFrom (hR : ItemsWritten inSource R levels) (steps : Bytes)
    (hsteps : c.rest.length ≤ steps.length) {read exprs : List Expr}
    (h : Expr.itemsFrom inSource (Expr.item inSource levels) steps read c = .ok (exprs, d)) :
    ∃ items, Items inSource R c items d ∧ exprs = read.reverse ++ items.map expr ∧
      loadOfItems items ≤ levels := by
  induction steps generalizing read c with
  | nil =>
    have hc : c.rest = [] := List.length_eq_zero_iff.mp (Nat.le_zero.mp hsteps)
    have hends : Expr.endsSequence inSource c.skipBlanks = true := by
      rw [Cursor.skipBlanks_of_nil hc, Expr.endsSequence_of_nil hc]
    rw [Expr.itemsFrom_of_ends [] read hsteps hends] at h
    cases h
    exact ⟨[], .done hends, by simp, by simp⟩
  | cons step steps ih =>
    rw [Expr.itemsFrom] at h
    dsimp only at h
    split at h
    · rename_i hends
      cases h
      exact ⟨[], .done hends, by simp, by simp⟩
    · rename_i hends
      obtain ⟨⟨e, c'⟩, he, h⟩ := Except.exists_of_bind_eq_ok h
      obtain ⟨w, hw, rfl, hload⟩ := hR _ e c' he
      have hpass := (Cursor.reaches_skipBlanks c).trans_passes (passes_item he)
      obtain ⟨items, hitems, rfl, hloads⟩ := ih (hpass.steps_left hsteps) h
      exact ⟨w :: items, .next (Bool.eq_false_iff.mpr hends) hw hitems, by simp,
        by simpa using ⟨hload, hloads⟩⟩

/-- A sequence is written where items are. -/
theorem items_of_sequence (hR : ItemsWritten inSource R levels)
    (h : Expr.sequence inSource (Expr.item inSource levels) c = .ok (e, d)) :
    ∃ items, Items inSource R c items d ∧ items ≠ [] ∧ Expr.ofItems (items.map expr) = e ∧
      loadOfItems items ≤ levels := by
  obtain ⟨⟨exprs, c'⟩, hexprs, h⟩ := Except.exists_of_bind_eq_ok h
  obtain ⟨items, hitems, rfl, hload⟩ := items_of_itemsFrom hR c.rest le_rfl hexprs
  dsimp only at h
  split at h
  · cases h
  · rename_i hne
    cases h
    exact ⟨items, hitems, by simpa using hne, rfl, hload⟩

/-- Further alternatives are written where items are. -/
theorem alternatives_of_alternativesFrom (hR : ItemsWritten inSource R levels) (steps : Bytes)
    (hsteps : c.rest.length ≤ steps.length) {read exprs : List Expr}
    (h : Expr.alternativesFrom inSource (Expr.item inSource levels) steps read c =
      .ok (exprs, d)) :
    ∃ alternatives, Alternatives inSource R c alternatives d ∧
      exprs = read.reverse ++ exprsOfAlternatives alternatives ∧ loadOf alternatives ≤ levels := by
  induction steps generalizing read c with
  | nil =>
    have hc : c.rest = [] := List.length_eq_zero_iff.mp (Nat.le_zero.mp hsteps)
    have hblank : c.skipBlanks = c := Cursor.skipBlanks_of_nil hc
    have hp : c.skipBlanks.peek? ≠ some 0x2f := by
      rw [hblank, Cursor.peek?_eq_none_iff.mpr hc]
      nofun
    have hdone : Alternatives inSource R c [] c.skipBlanks := .done hp
    rw [hblank] at hp hdone
    rw [Expr.alternativesFrom_of_no_slash [] read hblank hp] at h
    cases h
    exact ⟨[], hdone, by simp [exprsOfAlternatives], by simp⟩
  | cons step steps ih =>
    rw [Expr.alternativesFrom] at h
    dsimp only at h
    split at h
    · rename_i hp
      obtain ⟨⟨e, c'⟩, he, h⟩ := Except.exists_of_bind_eq_ok h
      obtain ⟨items, hitems, hne, rfl, hload⟩ := items_of_sequence hR he
      have hslash : c.Passes (c.skipBlanks.advance 1) :=
        (Cursor.reaches_skipBlanks c).trans_passes (Cursor.passes_of_peek (beq_iff_eq.mp hp))
      have hpass := hslash.trans ((Cursor.reaches_skipBlanks _).trans_passes (passes_sequence he))
      obtain ⟨alternatives, hrest, rfl, hloads⟩ := ih (hpass.steps_left hsteps) h
      exact ⟨items :: alternatives, .next (beq_iff_eq.mp hp) hitems hne hrest,
        by simp [exprsOfAlternatives, exprsOfItems_eq_map], by simpa using ⟨hload, hloads⟩⟩
    · rename_i hp
      cases h
      exact ⟨[], .done (by simpa using hp), by simp [exprsOfAlternatives], by simp⟩

/-- Alternatives are written where items are. -/
theorem choice_of_choiceOf (hR : ItemsWritten inSource R levels)
    (h : Expr.choiceOf inSource (Expr.item inSource levels) c = .ok (e, d)) :
    ∃ alternatives, Choice inSource R c alternatives d ∧ exprOf alternatives = e ∧
      loadOf alternatives ≤ levels := by
  obtain ⟨⟨first, c'⟩, hfirst, h⟩ := Except.exists_of_bind_eq_ok h
  obtain ⟨items, hitems, hne, rfl, hload⟩ := items_of_sequence hR hfirst
  obtain ⟨⟨exprs, d'⟩, hexprs, h⟩ := Except.exists_of_bind_eq_ok h
  obtain ⟨alternatives, hrest, rfl, hloads⟩ :=
    alternatives_of_alternativesFrom hR c'.rest le_rfl hexprs
  cases h
  refine ⟨items :: alternatives, .intro hitems hne hrest, ?_, by simpa using ⟨hload, hloads⟩⟩
  rw [exprOf, exprsOfAlternatives, exprsOfItems_eq_map]
  rfl

/-- What the reader of items reads one level further down is written so. -/
def InnerWritten (inSource : Bool) (R : Cursor → Written → Cursor → Prop) (levels : Nat) : Prop :=
  ∀ inside, levels = inside + 1 → ItemsWritten inSource R inside

/-- A group is written where the items one level further down are. -/
theorem group_of_group {closing : UInt8} {what : Expected} (hR : InnerWritten inSource R levels)
    (h : Expr.group inSource (inner inSource levels) closing what c = .ok (e, d)) :
    ∃ alternatives, Group inSource R closing c alternatives d ∧ exprOf alternatives = e ∧
      loadOf alternatives + 1 ≤ levels := by
  cases levels with
  | zero => cases h
  | succ inside =>
    obtain ⟨⟨body, c'⟩, hbody, h⟩ := Except.exists_of_bind_eq_ok h
    obtain ⟨alternatives, hchoice, rfl, hload⟩ := choice_of_choiceOf (hR inside rfl) hbody
    dsimp only at h
    split at h
    · rename_i hp
      cases h
      exact ⟨alternatives, .intro hchoice (beq_iff_eq.mp hp), rfl, Nat.succ_le_succ hload⟩
    · cases h

/-- An operand is written where the items one level further down are. -/
theorem operand_of_operand (hR : InnerWritten inSource R levels)
    (h : Expr.operand inSource levels (inner inSource levels) c = .ok (e, d)) :
    ∃ w, Operand inSource R c w d ∧ w.expr = e ∧ w.load ≤ levels := by
  unfold Expr.operand at h
  cases hp : c.peek? with
  | none =>
    rw [hp] at h
    cases h
  | some b =>
    have hb {mark : UInt8} (hmark : (b == mark) = true) : c.peek? = some mark := by
      rw [hp, beq_iff_eq.mp hmark]
    have hno {mark : UInt8} (hmark : ¬(b == mark) = true) : b ≠ mark :=
      fun heq => hmark (beq_iff_eq.mpr heq)
    rw [hp] at h
    dsimp only at h
    split at h
    · rename_i hliteral
      obtain ⟨⟨bytes, c'⟩, hread, h⟩ := Except.exists_of_bind_eq_ok h
      cases h
      exact ⟨_, .literal (hb hliteral) hread, rfl, by simp⟩
    split at h
    · rename_i hset
      obtain ⟨⟨members, c'⟩, hread, h⟩ := Except.exists_of_bind_eq_ok h
      obtain ⟨n, hn, hmembers⟩ := Bracket.writtenWithin_of_bracket hread
      cases h
      exact ⟨_, .set (hb hset) hmembers, rfl, by simpa using hn⟩
    split at h
    · rename_i hany
      cases h
      exact ⟨_, .any (hb hany), rfl, by simp⟩
    split at h
    · rename_i hstart
      cases h
      exact ⟨_, .inputStart (hb hstart), rfl, by simp⟩
    split at h
    · rename_i hend
      cases h
      exact ⟨_, .inputEnd (hb hend), rfl, by simp⟩
    split at h
    · rename_i hround
      obtain ⟨alternatives, hgroup, rfl, hload⟩ := group_of_group hR h
      exact ⟨_, .round (hb hround) hgroup, rfl, by simpa using hload⟩
    split at h
    · rename_i hcurly
      obtain ⟨alternatives, hgroup, rfl, hload⟩ := group_of_group hR h
      exact ⟨_, .curly (hb hcurly) hgroup, rfl, by simpa using hload⟩
    split at h
    · rename_i hliteral hset hany hstart hend hround hcurly _ name width hname
      have hmark : b ∉ operandMarks := by
        simpa [operandMarks] using ⟨hno hliteral, hno hset, hno hany, hno hstart, hno hend,
          hno hround, hno hcurly⟩
      split at h
      · cases h
      · rename_i hkeyword
        cases h
        exact ⟨_, .ref hp hmark hname (Bool.eq_false_iff.mpr hkeyword), rfl, by simp⟩
    · cases h

/-- Repetition marks that are read are written so. -/
theorem marks_of_repeated (h : Expr.repeated levels w.expr c = .ok (e, d)) :
    ∃ w', Marks w c w' d ∧ w'.expr = e ∧ w'.marks ≤ w.marks + levels := by
  induction levels generalizing w c with
  | zero =>
    rw [Expr.repeated] at h
    obtain ⟨⟨mark, c'⟩, hmark, h⟩ := Except.exists_of_bind_eq_ok h
    cases mark with
    | none =>
      cases h
      exact ⟨w, .done hmark, rfl, le_rfl⟩
    | some bounds => cases h
  | succ levels ih =>
    rw [Expr.repeated] at h
    obtain ⟨⟨mark, c'⟩, hmark, h⟩ := Except.exists_of_bind_eq_ok h
    cases mark with
    | none =>
      cases h
      exact ⟨w, .done hmark, rfl, Nat.le_add_right _ _⟩
    | some bounds =>
      obtain ⟨w', hmarks, he, hle⟩ := ih (w := .repetition w bounds.1 bounds.2) h
      refine ⟨w', .next hmark hmarks, he, ?_⟩
      rw [marks] at hle
      omega

/-- An item is written where the items one level further down are. -/
theorem itemOf_written (hR : InnerWritten inSource R levels) :
    ItemsWritten inSource (ItemOf inSource R) levels := by
  intro c e d h
  rw [item_eq, Expr.itemOf] at h
  split at h
  · rename_i kind hkind
    cases levels with
    | zero => cases h
    | succ inside =>
      obtain ⟨⟨body, c'⟩, hbody, h⟩ := Except.exists_of_bind_eq_ok h
      obtain ⟨w, hw, rfl, hload⟩ := hR inside rfl _ _ _ hbody
      cases h
      exact ⟨.lookahead kind w, .lookahead hkind hw, rfl, by simpa using hload⟩
  · rename_i hkind
    obtain ⟨⟨body, c'⟩, hbody, h⟩ := Except.exists_of_bind_eq_ok h
    obtain ⟨w, hw, rfl, hload⟩ := operand_of_operand hR hbody
    obtain ⟨w', hmarks, he, hle⟩ := marks_of_repeated h
    refine ⟨w', .marked hkind hw hmarks, he, ?_⟩
    rw [hw.marks_eq_zero] at hle
    rw [hmarks.load_eq]
    omega

/-- Items that are read are written so. -/
theorem item_written (inSource : Bool) (levels : Nat) :
    ItemsWritten inSource (ItemWithin inSource levels) levels := by
  induction levels with
  | zero => exact itemOf_written fun inside hinside => absurd hinside (Nat.zero_ne_add_one inside)
  | succ levels ih =>
    refine itemOf_written fun inside hinside => ?_
    cases hinside
    exact ih

/-! ## Expressions -/

/-- Expressions are decided. -/
theorem WrittenAt.decides (h : WrittenAt inSource c alternatives d) :
    Decides nestingLimit (loadOf alternatives) (exprOf alternatives, d)
      (Expr.expression inSource c) := by
  obtain ⟨depth, h⟩ := h
  exact h.decides (ItemWithin.decides inSource depth)

/-- Expressions that are read are written so. -/
theorem writtenAt_of_expression (h : Expr.expression inSource c = .ok (e, d)) :
    ∃ alternatives, WrittenAt inSource c alternatives d ∧ exprOf alternatives = e ∧
      loadOf alternatives ≤ nestingLimit := by
  obtain ⟨alternatives, hwritten, he, hload⟩ :=
    choice_of_choiceOf (item_written inSource nestingLimit) h
  exact ⟨alternatives, ⟨nestingLimit, hwritten⟩, he, hload⟩

end PatternEngine.Written
