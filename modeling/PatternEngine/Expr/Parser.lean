import PatternEngine.Expr.Basic
import PatternEngine.Expr.Bounds
import PatternEngine.Expr.Bracket

/-!
# Reading expressions

From the loosest to the tightest: alternatives separated by slashes, sequences, prefixed
predicates, postfixed repetitions, and operands. Groups, predicates, repetitions and nested
brackets open levels, of which only so many are allowed; the number of levels left is the
measure of the recursion, and the reader of the next level down is handed to each rule that
opens one.

Within a source a sequence also ends where the next statement starts, since statements have
no terminator.
-/

namespace PatternEngine.Expr

/-- A statement starts ahead: one of its keywords, or a name with an equals sign behind it
that is not doubled. -/
def startsStatement (c : Cursor) : Bool :=
  ["package", "import", "local", "alias"].any c.atWord ||
    (c.peek?.any Ident.isStart &&
      let behindName := c.rest.dropWhile fun b => Ident.isPart b || b == 0x2e
      let behind := behindName.dropWhile Ascii.isBlank
      behind.head? == some 0x3d && behind[1]? != some 0x3d)

/-- A sequence ends ahead. -/
def endsSequence (inSource : Bool) (c : Cursor) : Bool :=
  match c.peek? with
  | none => true
  | some b =>
    b == 0x2f || b == 0x29 || b == 0x7d || (inSource && startsStatement c)

/-- Items joined in order, a single one standing for itself. -/
def ofItems : List Expr → Expr
  | [item] => item
  | items => .seq items

/-- Alternatives in order, a single one standing for itself. -/
def ofAlternatives : List Expr → Expr
  | [alternative] => alternative
  | alternatives => .choice alternatives

/-- Read the items of a sequence, given a reader of one item. Each step takes at least one
byte, so the first argument, the bytes ahead, bounds the number of steps. The items read so
far are in reverse. -/
def itemsFrom (inSource : Bool) (item : Parse Expr) : Bytes → List Expr → Parse (List Expr)
  | [], read, c => .ok (read.reverse, c)
  | _ :: steps, read, c =>
    let c := c.skipBlanks
    if endsSequence inSource c then .ok (read.reverse, c)
    else do
      let (next, c) ← item c
      itemsFrom inSource item steps (next :: read) c

/-- Read a sequence of at least one item. -/
def sequence (inSource : Bool) (item : Parse Expr) : Parse Expr := fun c => do
  let (items, c) ← itemsFrom inSource item c.rest [] c
  if items.isEmpty then c.fail (.expected .expression) else .ok (ofItems items, c)

/-- Read further alternatives, each behind a slash. Each step takes at least one byte, so
the first argument, the bytes ahead, bounds the number of steps. The alternatives read so
far are in reverse. -/
def alternativesFrom (inSource : Bool) (item : Parse Expr) :
    Bytes → List Expr → Parse (List Expr)
  | [], read, c => .ok (read.reverse, c)
  | _ :: steps, read, c =>
    let c := c.skipBlanks
    if c.peek? == some 0x2f then do
      let (next, c) ← sequence inSource item (c.advance 1).skipBlanks
      alternativesFrom inSource item steps (next :: read) c
    else .ok (read.reverse, c)

/-- Read alternatives, given a reader of one item. -/
def choiceOf (inSource : Bool) (item : Parse Expr) : Parse Expr := fun c => do
  let (first, c) ← sequence inSource item c
  let (alternatives, c) ← alternativesFrom inSource item c.rest [first] c
  .ok (ofAlternatives alternatives, c)

/-- Read a group behind its opening bracket. -/
def group (inSource : Bool) (inner : Option (Parse Expr)) (close : UInt8) (what : Expected) :
    Parse Expr := fun c =>
  let c := c.skipBlanks
  match inner with
  | none => c.fail .nestingTooDeep
  | some item => do
    let (body, c) ← choiceOf inSource item c
    let c := c.skipBlanks
    if c.peek? == some close then .ok (body, c.advance 1) else c.fail (.expected what)

/-- Read an operand. Brackets may be nested `levels` deep, and the items of a group are read
by `inner`, which is missing when no level is left. -/
def operand (inSource : Bool) (levels : Nat) (inner : Option (Parse Expr)) : Parse Expr :=
  fun c =>
    match c.peek? with
    | none => c.fail .endOfExpression
    | some b =>
      if b == 0x22 then do
        let (bytes, c) ← Literal.literal c
        .ok (.literal bytes, c)
      else if b == 0x5b then do
        let (members, c) ← Bracket.bracket levels c (c.advance 1)
        .ok (.set members, c)
      else if b == 0x2e then .ok (.any, c.advance 1)
      else if b == 0x5e then .ok (.inputStart, c.advance 1)
      else if b == 0x24 then .ok (.inputEnd, c.advance 1)
      else if b == 0x28 then group inSource inner 0x29 .closingParenthesis (c.advance 1)
      else if b == 0x7b then group inSource inner 0x7d .closingBrace (c.advance 1)
      else match Ident.ahead? c.rest with
        | some (name, width) =>
          if name.isKeyword then c.fail (.reservedWord name)
          else .ok (.ref name (c.pos + 1), c.advance width)
        | none => c.fail (.unexpected (Utf8.firstChar c.rest))

/-- Read a repetition mark; none when there is none. -/
def repetitionMark : Parse (Option (Nat × Option Nat)) := fun c =>
  match c.peek? with
  | some 0x7b => Bounds.bounds c
  | some 0x2a => .ok (some (0, none), c.advance 1)
  | some 0x2b => .ok (some (1, none), c.advance 1)
  | some 0x3f => .ok (some (0, some 1), c.advance 1)
  | _ => .ok (none, c)

/-- Read the repetition marks behind an operand, of which each takes one of the levels. -/
def repeated : (levels : Nat) → Expr → Parse Expr
  | levels, body, c => do
    let (mark, c) ← repetitionMark c
    match mark with
    | none => .ok (body, c)
    | some (least, most) =>
      match levels with
      | 0 => c.fail .nestingTooDeep
      | levels + 1 => repeated levels (.repetition body least most) c

/-- The predicate that a byte is the mark of. -/
def lookaheadMark? (b : UInt8) : Option Lookahead :=
  if b == 0x3e then some .present else if b == 0x21 then some .absent else none

/-- Read one item of a sequence, given the reader of the next level down. -/
def itemOf (inSource : Bool) (levels : Nat) (inner : Option (Parse Expr)) : Parse Expr :=
  fun c =>
    match c.peek?.bind lookaheadMark? with
    | some kind =>
      let c := (c.advance 1).skipBlanks
      match inner with
      | none => c.fail .nestingTooDeep
      | some item => do
        let (body, c) ← item c
        .ok (.lookahead kind body, c)
    | none => do
      let (body, c) ← operand inSource levels inner c
      repeated levels body c

/-- Read one item of a sequence that opens at most `levels` levels. -/
def item (inSource : Bool) : (levels : Nat) → Parse Expr
  | 0 => itemOf inSource 0 none
  | levels + 1 => itemOf inSource (levels + 1) (some (item inSource levels))

/-- Read an expression. -/
def expression (inSource : Bool) : Parse Expr := choiceOf inSource (item inSource nestingLimit)

/-- The expression that a text is, with nothing but blanks and comments around it. -/
def ofBytes (text : Bytes) : Except ParseError Expr := do
  let c := (Cursor.start text).skipBlanks
  if c.atEnd then c.fail .emptyExpression
  else
    let (e, c) ← expression false c
    let c := c.skipBlanks
    if c.atEnd then .ok e else c.fail (.unexpected (Utf8.firstChar c.rest))

/-- The expression that a text is, with nothing but blanks and comments around it. -/
def ofText (text : String) : Except Violation Expr :=
  (ofBytes (Bytes.ofString text)).mapError ParseError.toViolation

end PatternEngine.Expr
