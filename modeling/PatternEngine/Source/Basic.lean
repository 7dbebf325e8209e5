import PatternEngine.Expr.Basic

/-!
# Sources

A source is a list of statements: at most one package declaration, at its start, and then
imports and bindings in any order.
-/

namespace PatternEngine

/-- The wish to see a package under a prefix. -/
structure ImportDecl where
  /-- The package. -/
  package : String
  /-- The prefix, if it is not the name of the package. -/
  rename : Option String
  deriving DecidableEq, Repr

/-- The prefix under which the bindings of the package become visible. -/
def ImportDecl.visibleAs (decl : ImportDecl) : String := decl.rename.getD decl.package

/-- The definition of a name. -/
structure Binding where
  /-- The name. -/
  name : String
  /-- What it stands for. -/
  body : Expr
  /-- Matches of the name are not recorded. -/
  isAlias : Bool
  /-- The name is for its own package alone. -/
  isLocal : Bool
  /-- Where the statement starts, counted from one. -/
  pos : Nat
  deriving Repr

/-- A statement, with the position of its first byte, counted from one. -/
inductive Statement where
  /-- The source defines the package of this name. -/
  | package (name : String) (pos : Nat)
  /-- The source uses these packages. -/
  | imports (decls : List ImportDecl) (pos : Nat)
  /-- The source defines a name. -/
  | bind (binding : Binding)
  deriving Repr

end PatternEngine
