import PatternEngine.Expr.Parser
import PatternEngine.Source.Basic

/-!
# Reading sources

Statements follow one another without a separator.
-/

namespace PatternEngine.Statement

/-- Read a name without prefix. A name with one is passed over before it is refused. -/
def plainName (what : Expected) : Parse String := fun c =>
  match Ident.ahead? c.rest with
  | none => c.fail (.expected what)
  | some (name, width) =>
    if name.qualifier.isSome then (c.advance width).fail (.expected what)
    else .ok (name.base, c.advance width)

/-- Read what one entry of an import statement says. -/
def importDecl : Parse ImportDecl := fun c => do
  let (name, c) ← plainName .packageName c.skipBlanks
  let c := c.skipBlanks
  if c.atWord "as" then do
    let (rename, c) ← plainName .importAlias (c.advance 2).skipBlanks
    .ok (⟨name, some rename⟩, c)
  else .ok (⟨name, none⟩, c)

/-- Read the entries of an import statement, separated by commas. Each step takes at least
one byte, so the number of steps is bounded by the number of bytes. The entries read so far
are in reverse. -/
def importDeclsFrom : Nat → List ImportDecl → Parse (List ImportDecl)
  | 0, read, c => .ok (read.reverse, c)
  | steps + 1, read, c => do
    let (decl, c) ← importDecl c
    let c := c.skipBlanks
    if c.peek? == some 0x2c then importDeclsFrom steps (decl :: read) (c.advance 1)
    else .ok ((decl :: read).reverse, c)

/-- The two modifiers of a binding, each given at most once and `local` before `alias`. -/
structure Modifiers where
  /-- The binding is for its own package alone. -/
  isLocal : Bool := false
  /-- Matches of the name are not recorded. -/
  isAlias : Bool := false
  deriving DecidableEq, Repr

/-- The modifiers with one more, which a word names; none when the word is the name that is
bound. -/
def Modifiers.add? (modifiers : Modifiers) (word : Ident) : Option Modifiers :=
  if word = ⟨none, "local"⟩ && !modifiers.isLocal && !modifiers.isAlias then
    some { modifiers with isLocal := true }
  else if word = ⟨none, "alias"⟩ && !modifiers.isAlias then
    some { modifiers with isAlias := true }
  else none

/-- Read words while they are modifiers, the last word read being given. There are at most
two modifiers, so the number of steps is bounded by three. -/
def modifiersFrom : Nat → Modifiers → Ident → Parse (Modifiers × Ident)
  | 0, modifiers, word, c => .ok ((modifiers, word), c)
  | steps + 1, modifiers, word, c =>
    match modifiers.add? word with
    | none => .ok ((modifiers, word), c)
    | some modifiers =>
      let c := c.skipBlanks
      match Ident.ahead? c.rest with
      | none => c.fail (.expected .bindingName)
      | some (next, width) => modifiersFrom steps modifiers next (c.advance width)

/-- Read a binding, its first word being given. -/
def binding (first : Cursor) (word : Ident) : Parse Binding := fun c => do
  let ((modifiers, name), c) ← modifiersFrom 3 {} word c
  if name.qualifier.isSome then first.fail (.qualifiedBinding name)
  else if name.isKeyword then first.fail (.reservedWord name)
  else
    let c := c.skipBlanks
    if c.peek? != some 0x3d then c.fail (.missingEquals name)
    else
      let c := (c.advance 1).skipBlanks
      if c.atEnd then c.fail (.missingExpression name)
      else
        let (body, c) ← Expr.expression true c
        .ok (⟨name.base, body, modifiers.isAlias, modifiers.isLocal, first.pos + 1⟩, c)

/-- Read a statement. -/
def statement : Parse Statement := fun c => do
  match Ident.ahead? c.rest with
  | none => c.fail (.expected .statement)
  | some (word, width) =>
    let behind := c.advance width
    if word = ⟨none, "package"⟩ then do
      let (name, behind) ← plainName .packageName behind.skipBlanks
      .ok (.package name (c.pos + 1), behind)
    else if word = ⟨none, "import"⟩ then do
      let (decls, behind) ← importDeclsFrom (behind.rest.length + 1) [] behind
      .ok (.imports decls (c.pos + 1), behind)
    else do
      let (definition, behind) ← binding c word behind
      .ok (.bind definition, behind)

/-- The statement declares a package. -/
def isPackage : Statement → Bool
  | .package _ _ => true
  | _ => false

/-- Read statements up to the end of the text. Each step takes at least one byte, so the
number of steps is bounded by the number of bytes. The statements read so far are in
reverse. -/
def statementsFrom : Nat → List Statement → Cursor → Except ParseError (List Statement)
  | 0, read, _ => .ok read.reverse
  | steps + 1, read, c =>
    let c := c.skipBlanks
    if c.atEnd then .ok read.reverse
    else do
      let (next, behind) ← statement c
      if next.isPackage && !read.isEmpty then c.fail .packageNotFirst
      else statementsFrom steps (next :: read) behind

/-- The statements of a source. -/
def listOfBytes (text : Bytes) : Except ParseError (List Statement) :=
  statementsFrom (text.length + 1) [] (Cursor.start text)

/-- The statements of a source. -/
def listOfText (text : String) : Except Violation (List Statement) :=
  (listOfBytes (Bytes.ofString text)).mapError ParseError.toViolation

end PatternEngine.Statement
