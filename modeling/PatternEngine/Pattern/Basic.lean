import PatternEngine.Expr.Basic

/-!
# Patterns

A pattern is an expression whose references have been replaced by what they stand for, so
it is a finite tree that can be matched without looking anything up.
-/

namespace PatternEngine

/-- A pattern. -/
inductive Pattern where
  /-- These bytes in this order. -/
  | literal (text : SizedBytes)
  /-- One byte of a set. -/
  | set (members : ByteSet)
  /-- One character. -/
  | any
  /-- The start of the input. -/
  | inputStart
  /-- The end of the input. -/
  | inputEnd
  /-- All items, one after the other. -/
  | seq (items : List Pattern)
  /-- The first alternative that matches. -/
  | choice (alternatives : List Pattern)
  /-- At least `least` and at most `most` copies, as many as match. -/
  | repetition (body : Pattern) (least : Nat) (most : Option Nat)
  /-- A predicate on the text ahead. -/
  | lookahead (kind : Lookahead) (body : Pattern)
  /-- A named binding, whose match is recorded. -/
  | capture (name : String) (body : Pattern)
  /-- An alias binding, matched in place. -/
  | transparent (body : Pattern)
  deriving Repr

namespace Pattern

mutual

/-- The pattern can match without consuming anything. -/
def nullable : Pattern → Bool
  | .literal text => text.bytes.isEmpty
  | .set _ | .any => false
  | .inputStart | .inputEnd | .lookahead _ _ => true
  | .seq items => allNullable items
  | .choice alternatives => anyNullable alternatives
  | .repetition body least _ => least == 0 || nullable body
  | .capture _ body | .transparent body => nullable body

/-- Every pattern of a list can match without consuming anything. -/
def allNullable : List Pattern → Bool
  | [] => true
  | item :: items => nullable item && allNullable items

/-- Some pattern of a list can match without consuming anything. -/
def anyNullable : List Pattern → Bool
  | [] => false
  | item :: items => nullable item || anyNullable items

end

mutual

/-- The pattern asks for the start of the input before anything else, so that it can match
nowhere but there. -/
def anchored : Pattern → Bool
  | .inputStart => true
  | .seq items => firstAnchored items
  | .choice alternatives => !alternatives.isEmpty && allAnchored alternatives
  | .capture _ body | .transparent body => anchored body
  | _ => false

/-- The first pattern of a list is anchored. -/
def firstAnchored : List Pattern → Bool
  | [] => false
  | item :: _ => anchored item

/-- Every pattern of a list is anchored. -/
def allAnchored : List Pattern → Bool
  | [] => true
  | item :: items => anchored item && allAnchored items

end

end Pattern

/-- The name under which the match of an expression without a name of its own is recorded. -/
def anonymous : String := "*"

/-- A compiled expression. Its match is always recorded, under the name of the binding that
the expression refers to or as anonymous. -/
structure Program where
  /-- The name of the match. -/
  typeName : String
  /-- What is matched. -/
  body : Pattern
  /-- The expression as it was written. -/
  expression : String
  deriving Repr

namespace Program

/-- The program of a pattern. -/
def ofPattern (root : Pattern) (expression : String) : Program :=
  match root with
  | .capture name body => ⟨name, body, expression⟩
  | body => ⟨anonymous, body, expression⟩

/-- The pattern of a program. -/
def root (p : Program) : Pattern := .capture p.typeName p.body

end Program

end PatternEngine
