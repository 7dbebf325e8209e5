import PatternEngine.Dictionary
import PatternEngine.Source.Basic
import PatternEngine.Violation

/-!
# Environments

An environment holds the definitions that expressions are compiled with: a scope at top level
and one for each loaded package. A scope binds names and prefixes; behind a prefix stands the
name of a package, which may not be loaded yet.
-/

namespace PatternEngine

/-- What a name stands for. -/
structure Entry where
  /-- The expression. -/
  body : Expr
  /-- Matches of the name are not recorded. -/
  isAlias : Bool
  /-- The name is for its own package alone. -/
  isLocal : Bool
  deriving Repr

/-- The names and prefixes that an expression may use. -/
structure Scope where
  /-- What the names stand for. -/
  bindings : Dictionary Entry := .empty
  /-- The packages behind the prefixes. -/
  imports : Dictionary String := .empty
  deriving Repr

/-- A loaded package. -/
structure Package where
  /-- Its own names and prefixes. -/
  scope : Scope
  /-- The file it was read from. -/
  origin : Option String
  deriving Repr

/-- The definitions that expressions are compiled with. -/
structure Environment where
  /-- The scope of expressions and of sources that declare no package. -/
  top : Scope := {}
  /-- The loaded packages. -/
  packages : Dictionary Package := .empty
  deriving Repr

namespace Environment

/-- The package is loaded. -/
def hasPackage (env : Environment) (name : String) : Bool := env.packages.contains name

/-- The file that a loaded package was read from. -/
def packageOrigin? (env : Environment) (name : String) : Option String :=
  (env.packages.find? name).bind (·.origin)

/-- Put a name into an ascending list of names. -/
def insertSorted (name : String) : List String → List String
  | [] => [name]
  | other :: names =>
    if other < name then other :: insertSorted name names else name :: other :: names

/-- The names of the loaded packages in ascending order of their characters. -/
def packageNames (env : Environment) : List String :=
  env.packages.keys.foldr insertSorted []

/-- The scope of a package, or the one at top level. -/
def scopeOf? (env : Environment) : Option String → Option Scope
  | none => some env.top
  | some package => (env.packages.find? package).map (·.scope)

/-- Show a loaded package at top level under another prefix or its own name. -/
def bind (env : Environment) (package : String) (rename : Option String) :
    Except Violation Environment :=
  if env.hasPackage package then
    .ok { env with top.imports := env.top.imports.insert (rename.getD package) package }
  else .error { cause := .importing (.notLoaded package) }

end Environment

end PatternEngine
