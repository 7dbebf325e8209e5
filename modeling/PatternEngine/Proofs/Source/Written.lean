import Mathlib.Tactic.Linarith
import Mathlib.Tactic.Ring
import PatternEngine.Expr.Parser

/-!
# Levels of written expressions

An expression as it is written, with its groups and its nested brackets, which are no part of the
expression that is read. Groups, predicates, repetitions and nested brackets open levels. The
nesting counts all of them on the way to the innermost operand. The load counts the repetitions
behind an operand beside the levels inside the operand and not on top of them; it is what readers
keep within a limit.
-/

namespace PatternEngine

namespace Expr

mutual

/-- The greatest number of repetitions and predicates around a part of an expression. -/
def nesting : Expr → Nat
  | .literal _ | .set _ | .any | .inputStart | .inputEnd | .ref _ _ => 0
  | .seq items | .choice items => nestingOfAll items
  | .repetition body _ _ | .lookahead _ body => nesting body + 1

/-- The greatest nesting of the expressions of a list. -/
def nestingOfAll : List Expr → Nat
  | [] => 0
  | item :: items => max (nesting item) (nestingOfAll items)

end

theorem nestingOfAll_le_iff {items : List Expr} {n : Nat} :
    nestingOfAll items ≤ n ↔ ∀ item ∈ items, item.nesting ≤ n := by
  induction items with
  | nil => simp [nestingOfAll]
  | cons item items ih => simp [nestingOfAll, ih]

theorem nesting_ofItems (items : List Expr) : (ofItems items).nesting = nestingOfAll items := by
  match items with
  | [] => rfl
  | [item] => simp [ofItems, nestingOfAll]
  | _ :: _ :: _ => rfl

theorem nesting_ofAlternatives (alternatives : List Expr) :
    (ofAlternatives alternatives).nesting = nestingOfAll alternatives := by
  match alternatives with
  | [] => rfl
  | [alternative] => simp [ofAlternatives, nestingOfAll]
  | _ :: _ :: _ => rfl

end Expr

/-- An item of an expression as it is written. -/
inductive Written where
  /-- An operand without brackets. -/
  | plain (e : Expr) (h : e.nesting = 0)
  /-- A set, and how deep brackets are nested inside its own. -/
  | set (members : ByteSet) (brackets : Nat)
  /-- A group of alternatives, each of them the items of a sequence. -/
  | group (alternatives : List (List Written))
  /-- A repetition mark behind an item. -/
  | repetition (body : Written) (least : Nat) (most : Option Nat)
  /-- A predicate mark before an item. -/
  | lookahead (kind : Lookahead) (body : Written)

namespace Written

/-- To show something of all items it is enough to show it of a group from its items, and of a
repetition and a predicate from what is marked. -/
@[elab_as_elim]
theorem inductionOn {motive : Written → Prop} (w : Written)
    (plain : ∀ e h, motive (.plain e h)) (set : ∀ members brackets, motive (.set members brackets))
    (group : ∀ alternatives, (∀ items ∈ alternatives, ∀ item ∈ items, motive item) →
      motive (.group alternatives))
    (repetition : ∀ body least most, motive body → motive (.repetition body least most))
    (lookahead : ∀ kind body, motive body → motive (.lookahead kind body)) : motive w :=
  match w with
  | .plain e h => plain e h
  | .set members brackets => set members brackets
  | .group alternatives => group alternatives fun items _ item _ =>
      inductionOn item plain set group repetition lookahead
  | .repetition body least most =>
    repetition body least most (inductionOn body plain set group repetition lookahead)
  | .lookahead kind body =>
    lookahead kind body (inductionOn body plain set group repetition lookahead)
termination_by sizeOf w
decreasing_by
  · have := List.sizeOf_lt_of_mem ‹items ∈ alternatives›
    have := List.sizeOf_lt_of_mem ‹item ∈ items›
    simp only [Written.group.sizeOf_spec]
    omega
  · simp only [Written.repetition.sizeOf_spec]
    omega
  · simp only [Written.lookahead.sizeOf_spec]
    omega

mutual

/-- The expression that is written. -/
def expr : Written → Expr
  | .plain e _ => e
  | .set members _ => .set members
  | .group alternatives => Expr.ofAlternatives (exprsOfAlternatives alternatives)
  | .repetition body least most => .repetition (expr body) least most
  | .lookahead kind body => .lookahead kind (expr body)

/-- The expressions of the items of a sequence. -/
def exprsOfItems : List Written → List Expr
  | [] => []
  | item :: items => expr item :: exprsOfItems items

/-- The expressions of alternatives. -/
def exprsOfAlternatives : List (List Written) → List Expr
  | [] => []
  | items :: alternatives => Expr.ofItems (exprsOfItems items) :: exprsOfAlternatives alternatives

end

mutual

/-- How many levels are opened, given how many an item and a repetition mark behind it open that
open so many without the mark. -/
def levels (repeated : Written → Nat → Nat) : Written → Nat
  | .plain _ _ => 0
  | .set _ brackets => brackets
  | .group alternatives => levelsOfAlternatives repeated alternatives + 1
  | .repetition body _ _ => repeated body (levels repeated body)
  | .lookahead _ body => levels repeated body + 1

/-- The greatest number of levels that an item of a sequence opens. -/
def levelsOfItems (repeated : Written → Nat → Nat) : List Written → Nat
  | [] => 0
  | item :: items => max (levels repeated item) (levelsOfItems repeated items)

/-- The greatest number of levels that an item of some alternative opens. -/
def levelsOfAlternatives (repeated : Written → Nat → Nat) : List (List Written) → Nat
  | [] => 0
  | items :: alternatives =>
    max (levelsOfItems repeated items) (levelsOfAlternatives repeated alternatives)

end

/-- The expression of alternatives. -/
def exprOf (alternatives : List (List Written)) : Expr :=
  Expr.ofAlternatives (exprsOfAlternatives alternatives)

/-- The number of repetition marks behind an operand. -/
def marks : Written → Nat
  | .repetition body _ _ => marks body + 1
  | _ => 0

/-- The number of levels around the innermost operand, each repetition being one. -/
def nesting : Written → Nat := levels fun _ inside => inside + 1

/-- The number of levels that a reader needs: the repetition marks of an operand take theirs when
those inside the operand have been given back. -/
def load : Written → Nat := levels fun body inside => max inside (body.marks + 1)

/-- The load of the items of a sequence. -/
def loadOfItems : List Written → Nat :=
  levelsOfItems fun body inside => max inside (body.marks + 1)

/-- The nesting of alternatives. -/
def nestingOf : List (List Written) → Nat := levelsOfAlternatives fun _ inside => inside + 1

/-- The load of alternatives. -/
def loadOf : List (List Written) → Nat :=
  levelsOfAlternatives fun body inside => max inside (body.marks + 1)

variable {repeated : Written → Nat → Nat} {items : List Written}
  {alternatives : List (List Written)} {n : Nat}

theorem levelsOfItems_le_iff :
    levelsOfItems repeated items ≤ n ↔ ∀ item ∈ items, levels repeated item ≤ n := by
  induction items with
  | nil => simp [levelsOfItems]
  | cons item items ih => simp [levelsOfItems, ih]

theorem levelsOfAlternatives_le_iff : levelsOfAlternatives repeated alternatives ≤ n ↔
    ∀ items ∈ alternatives, ∀ item ∈ items, levels repeated item ≤ n := by
  induction alternatives with
  | nil => simp [levelsOfAlternatives]
  | cons items alternatives ih => simp [levelsOfAlternatives, levelsOfItems_le_iff, ih]

theorem nestingOf_le_iff :
    nestingOf alternatives ≤ n ↔ ∀ items ∈ alternatives, ∀ item ∈ items, item.nesting ≤ n :=
  levelsOfAlternatives_le_iff

theorem loadOf_le_iff :
    loadOf alternatives ≤ n ↔ ∀ items ∈ alternatives, ∀ item ∈ items, item.load ≤ n :=
  levelsOfAlternatives_le_iff

theorem exprsOfItems_eq_map (items : List Written) : exprsOfItems items = items.map expr := by
  induction items with
  | nil => rfl
  | cons item items ih => rw [exprsOfItems, ih, List.map_cons]

theorem exprsOfAlternatives_eq_map (alternatives : List (List Written)) :
    exprsOfAlternatives alternatives =
      alternatives.map fun items => Expr.ofItems (items.map expr) := by
  induction alternatives with
  | nil => rfl
  | cons items alternatives ih =>
    rw [exprsOfAlternatives, ih, exprsOfItems_eq_map, List.map_cons]

section Levels

variable (e : Expr) (h : e.nesting = 0) (members : ByteSet) (brackets : Nat) (body : Written)
  (least : Nat) (most : Option Nat) (kind : Lookahead)

@[simp] theorem nesting_plain : (plain e h).nesting = 0 := by simp [nesting, levels]

@[simp] theorem nesting_set : (set members brackets).nesting = brackets := by
  simp [nesting, levels]

@[simp] theorem nesting_group : (group alternatives).nesting = nestingOf alternatives + 1 := by
  simp [nesting, nestingOf, levels]

@[simp] theorem nesting_repetition :
    (repetition body least most).nesting = body.nesting + 1 := by simp [nesting, levels]

@[simp] theorem nesting_lookahead : (lookahead kind body).nesting = body.nesting + 1 := by
  simp [nesting, levels]

@[simp] theorem load_plain : (plain e h).load = 0 := by simp [load, levels]

@[simp] theorem load_set : (set members brackets).load = brackets := by simp [load, levels]

@[simp] theorem load_group : (group alternatives).load = loadOf alternatives + 1 := by
  simp [load, loadOf, levels]

@[simp] theorem load_repetition :
    (repetition body least most).load = max body.load (body.marks + 1) := by simp [load, levels]

@[simp] theorem loadOfItems_nil : loadOfItems [] = 0 := by simp [loadOfItems, levelsOfItems]

@[simp] theorem loadOfItems_cons :
    loadOfItems (body :: items) = max body.load (loadOfItems items) := by
  simp [load, loadOfItems, levelsOfItems]

@[simp] theorem loadOf_nil : loadOf [] = 0 := by simp [loadOf, levelsOfAlternatives]

@[simp] theorem loadOf_cons :
    loadOf (items :: alternatives) = max (loadOfItems items) (loadOf alternatives) := by
  simp [loadOf, loadOfItems, levelsOfAlternatives]

@[simp] theorem load_lookahead : (lookahead kind body).load = body.load + 1 := by
  simp [load, levels]

end Levels

/-! ## Nesting and load -/

theorem marks_le_load (w : Written) : w.marks ≤ w.load := by
  cases w with
  | repetition body least most => simp [marks]
  | _ => exact Nat.zero_le _

theorem marks_le_nesting (w : Written) : w.marks ≤ w.nesting := by
  induction w using inductionOn with
  | repetition body least most ih => simpa [marks] using ih
  | _ => exact Nat.zero_le _

theorem loadOf_le_nestingOf_of_items
    (h : ∀ items ∈ alternatives, ∀ item ∈ items, item.load ≤ item.nesting) :
    loadOf alternatives ≤ nestingOf alternatives :=
  loadOf_le_iff.mpr fun items hitems item hitem =>
    (h items hitems item hitem).trans (nestingOf_le_iff.mp le_rfl items hitems item hitem)

/-- The load is no more than the nesting. -/
theorem load_le_nesting (w : Written) : w.load ≤ w.nesting := by
  induction w using inductionOn with
  | plain e h => simp
  | set members brackets => simp
  | group alternatives ih => simpa using loadOf_le_nestingOf_of_items ih
  | repetition body least most ih =>
    have := body.marks_le_nesting
    simp only [load_repetition, nesting_repetition]
    omega
  | lookahead kind body ih => simpa using ih

theorem loadOf_le_nestingOf (alternatives : List (List Written)) :
    loadOf alternatives ≤ nestingOf alternatives :=
  loadOf_le_nestingOf_of_items fun _ _ item _ => item.load_le_nesting

theorem nestingOf_le_of_items (h : ∀ items ∈ alternatives, ∀ item ∈ items,
    2 * item.nesting ≤ 2 * item.marks + item.load * (item.load + 1)) :
    2 * nestingOf alternatives ≤ loadOf alternatives * (loadOf alternatives + 3) := by
  suffices hle : nestingOf alternatives ≤ loadOf alternatives * (loadOf alternatives + 3) / 2 by
    omega
  refine nestingOf_le_iff.mpr fun items hitems item hitem => ?_
  have hitem' := h items hitems item hitem
  have hload : item.load ≤ loadOf alternatives := loadOf_le_iff.mp le_rfl items hitems item hitem
  have hmarks := item.marks_le_load
  have hmul := Nat.mul_le_mul hload (Nat.add_le_add_right hload 1)
  rw [Nat.le_div_iff_mul_le (by decide)]
  nlinarith

/-- The nesting is bounded by what a reader needs so many levels for: each level can hold the
repetitions of one operand on top of those of the levels around it. -/
theorem nesting_le (w : Written) : 2 * w.nesting ≤ 2 * w.marks + w.load * (w.load + 1) := by
  induction w using inductionOn with
  | plain e h => simp
  | set members brackets =>
    simp only [nesting_set, load_set, marks]
    rcases Nat.eq_zero_or_pos brackets with rfl | hpos
    · rfl
    · nlinarith
  | group alternatives ih =>
    have hinside := nestingOf_le_of_items ih
    simp only [nesting_group, load_group, marks]
    nlinarith
  | repetition body least most ih =>
    have hload : body.load ≤ max body.load (body.marks + 1) := le_max_left _ _
    have hmul := Nat.mul_le_mul hload (Nat.add_le_add_right hload 1)
    simp only [nesting_repetition, load_repetition, marks]
    linarith
  | lookahead kind body ih =>
    have hmarks := body.marks_le_load
    simp only [nesting_lookahead, load_lookahead, marks]
    nlinarith

theorem nestingOf_le (alternatives : List (List Written)) :
    2 * nestingOf alternatives ≤ loadOf alternatives * (loadOf alternatives + 3) :=
  nestingOf_le_of_items fun _ _ item _ => item.nesting_le

theorem nesting_exprOf_le_of_items
    (h : ∀ items ∈ alternatives, ∀ item ∈ items, item.expr.nesting ≤ item.nesting) :
    (exprOf alternatives).nesting ≤ nestingOf alternatives := by
  rw [exprOf, Expr.nesting_ofAlternatives, exprsOfAlternatives_eq_map, Expr.nestingOfAll_le_iff]
  intro e he
  obtain ⟨items, hitems, rfl⟩ := List.mem_map.mp he
  rw [Expr.nesting_ofItems, Expr.nestingOfAll_le_iff]
  intro e he
  obtain ⟨item, hitem, rfl⟩ := List.mem_map.mp he
  exact (h items hitems item hitem).trans (nestingOf_le_iff.mp le_rfl items hitems item hitem)

/-- The repetitions and predicates of the expression that is written are levels of it. -/
theorem nesting_expr_le (w : Written) : w.expr.nesting ≤ w.nesting := by
  induction w using inductionOn with
  | plain e h => simp [expr, h]
  | set members brackets => simp [expr, Expr.nesting]
  | group alternatives ih =>
    have hle := nesting_exprOf_le_of_items ih
    rw [nesting_group, expr]
    exact hle.trans (Nat.le_succ _)
  | repetition body least most ih => simpa [expr, Expr.nesting] using ih
  | lookahead kind body ih => simpa [expr, Expr.nesting] using ih

theorem nesting_exprOf_le (alternatives : List (List Written)) :
    (exprOf alternatives).nesting ≤ nestingOf alternatives :=
  nesting_exprOf_le_of_items fun _ _ item _ => item.nesting_expr_le

/-- No operand that opens levels itself is repeated. -/
inductive Flat : Written → Prop
  | plain (e : Expr) (h : e.nesting = 0) : Flat (.plain e h)
  | set (members : ByteSet) (brackets : Nat) : Flat (.set members brackets)
  | group {alternatives : List (List Written)}
      (h : ∀ items ∈ alternatives, ∀ item ∈ items, Flat item) : Flat (.group alternatives)
  | repetition {body : Written} (h : Flat body) (hbody : body.load = body.marks) (least : Nat)
      (most : Option Nat) : Flat (.repetition body least most)
  | lookahead (kind : Lookahead) {body : Written} (h : Flat body) : Flat (.lookahead kind body)

theorem nestingOf_eq_of_items
    (h : ∀ items ∈ alternatives, ∀ item ∈ items, item.nesting ≤ item.load) :
    nestingOf alternatives = loadOf alternatives :=
  le_antisymm (nestingOf_le_iff.mpr fun items hitems item hitem =>
    (h items hitems item hitem).trans (loadOf_le_iff.mp le_rfl items hitems item hitem))
    (loadOf_le_nestingOf alternatives)

/-- Where no operand that opens levels is repeated, a reader needs as many levels as there are. -/
theorem Flat.nesting_le_load {w : Written} (h : w.Flat) : w.nesting ≤ w.load := by
  induction h with
  | plain e h => simp
  | set members brackets => simp
  | group h ih => simpa using (nestingOf_eq_of_items ih).le
  | repetition h hbody least most ih =>
    simp only [nesting_repetition, load_repetition]
    omega
  | lookahead kind h ih => simpa using ih

theorem nestingOf_eq_of_flat (h : ∀ items ∈ alternatives, ∀ item ∈ items, item.Flat) :
    nestingOf alternatives = loadOf alternatives :=
  nestingOf_eq_of_items fun items hitems item hitem => (h items hitems item hitem).nesting_le_load

end Written

end PatternEngine
