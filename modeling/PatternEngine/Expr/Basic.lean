import PatternEngine.ByteSet.Basic
import PatternEngine.Ident

/-!
# Pattern expressions

An expression as it is written, with its references still by name.
-/

namespace PatternEngine

/-- What a predicate asks of the text ahead. Neither kind consumes anything. -/
inductive Lookahead where
  /-- The operand matches here. -/
  | present
  /-- The operand does not match here. -/
  | absent
  deriving DecidableEq, Repr

/-- A pattern expression. -/
inductive Expr where
  /-- These bytes in this order. -/
  | literal (bytes : Bytes)
  /-- One byte of a set. -/
  | set (members : ByteSet)
  /-- One character. -/
  | any
  /-- The start of the input. -/
  | inputStart
  /-- The end of the input. -/
  | inputEnd
  /-- The binding of a name, with the position of the name in the source, counted from one. -/
  | ref (name : Ident) (pos : Nat)
  /-- All items, one after the other. -/
  | seq (items : List Expr)
  /-- The first alternative that matches. -/
  | choice (alternatives : List Expr)
  /-- At least `least` and at most `most` copies, as many as match. -/
  | repetition (body : Expr) (least : Nat) (most : Option Nat)
  /-- A predicate on the text ahead. -/
  | lookahead (kind : Lookahead) (body : Expr)
  deriving Repr

namespace Expr

mutual

/-- The expression can match without consuming anything, as far as can be told without
looking up its references, which are taken to consume. -/
def nullable : Expr → Bool
  | .literal bytes => bytes.isEmpty
  | .set _ | .any | .ref _ _ => false
  | .inputStart | .inputEnd | .lookahead _ _ => true
  | .seq items => allNullable items
  | .choice alternatives => anyNullable alternatives
  | .repetition body least _ => least == 0 || nullable body

/-- Every expression of a list can match without consuming anything. -/
def allNullable : List Expr → Bool
  | [] => true
  | item :: items => nullable item && allNullable items

/-- Some expression of a list can match without consuming anything. -/
def anyNullable : List Expr → Bool
  | [] => false
  | item :: items => nullable item || anyNullable items

end

mutual

/-- The references of an expression in the order they are written, each with its position. -/
def references : Expr → List (Ident × Nat)
  | .literal _ | .set _ | .any | .inputStart | .inputEnd => []
  | .ref name pos => [(name, pos)]
  | .seq items | .choice items => referencesOfAll items
  | .repetition body _ _ | .lookahead _ body => references body

/-- The references of all expressions of a list in the order they are written. -/
def referencesOfAll : List Expr → List (Ident × Nat)
  | [] => []
  | item :: items => references item ++ referencesOfAll items

end

end Expr

end PatternEngine
