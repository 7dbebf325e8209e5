import PatternEngine.Environment.Basic
import PatternEngine.Source.Parser

/-!
# Loading sources

A source is stored as a whole or not at all. It is stored when it can be read, defines no name
twice and uses only names and prefixes that it defines or imports; a source without a package
declaration may also use those at top level. Whether the packages behind its prefixes are
loaded is asked only when an expression is compiled.
-/

namespace PatternEngine

/-- The statements of a source by kind. -/
structure SourceUnit where
  /-- The package it declares. -/
  package : Option String := none
  /-- The packages it imports, in order. -/
  imports : List ImportDecl := []
  /-- The first binding of each name, in order. -/
  bindings : List Binding := []
  /-- The further bindings of a name, each with the position of the one before. -/
  duplicates : List (Binding × Nat) := []
  deriving Repr

namespace SourceUnit

/-- Sort statements by kind. The dictionary holds the position of the latest binding of each
name. -/
def collectFrom : SourceUnit → Dictionary Nat → List Statement → SourceUnit
  | sorted, _, [] => sorted
  | sorted, seen, .package name _ :: rest =>
    collectFrom { sorted with package := some name } seen rest
  | sorted, seen, .imports decls _ :: rest =>
    collectFrom { sorted with imports := sorted.imports ++ decls } seen rest
  | sorted, seen, .bind binding :: rest =>
    let latest := seen.insert binding.name binding.pos
    match seen.find? binding.name with
    | some first =>
      collectFrom { sorted with duplicates := sorted.duplicates ++ [(binding, first)] } latest rest
    | none => collectFrom { sorted with bindings := sorted.bindings ++ [binding] } latest rest

/-- Sort the statements of a source by kind. -/
def collect (statements : List Statement) : SourceUnit := collectFrom {} .empty statements

/-- The scope that a source defines. -/
def scope (source : SourceUnit) : Scope where
  bindings := .ofList (source.bindings.map fun b => (b.name, ⟨b.body, b.isAlias, b.isLocal⟩))
  imports := .ofList (source.imports.map fun decl => (decl.visibleAs, decl.package))

/-- The source defines the name. -/
def defines (source : SourceUnit) (name : String) : Bool :=
  source.bindings.any fun b => b.name == name

/-- The source imports a package under the prefix. -/
def importsAs (source : SourceUnit) (qualifier : String) : Bool :=
  source.imports.any fun decl => decl.visibleAs == qualifier

/-- What is wrong with a reference, given the scope that the source may use beside its own. -/
def checkReference? (source : SourceUnit) (outer : Scope) (name : Ident) : Option LoadCause :=
  match name.qualifier with
  | none =>
    if source.defines name.base || outer.bindings.contains name.base then none
    else some (.undefinedName name)
  | some qualifier =>
    if source.importsAs qualifier || outer.imports.contains qualifier then none
    else some (.unknownPrefix qualifier name)

/-- The references of a source that lead nowhere, in the order they are written. -/
def danglingReferences (source : SourceUnit) (outer : Scope) : List Violation :=
  source.bindings.flatMap fun b => b.body.references.filterMap fun (name, pos) =>
    (source.checkReference? outer name).map fun cause =>
      { cause := .loading cause, pos := some pos, fragment := some b.name }

/-- The names that are bound again, in the order they are written. -/
def repeatedBindings (source : SourceUnit) : List Violation :=
  source.duplicates.map fun (b, first) =>
    { cause := .loading (.duplicate b.name first), pos := some b.pos, fragment := some b.name }

/-- What is wrong with the package that a source declares, given the one that is expected. -/
def wrongDeclaration (source : SourceUnit) (expected : String) : List Violation :=
  match source.package with
  | none => [{ cause := .importing (.undeclaredPackage expected) }]
  | some declared =>
    if declared = expected then []
    else [{ cause := .importing (.wrongPackage declared expected) }]

end SourceUnit

/-- A source that was stored. -/
structure Loaded where
  /-- The package that was defined. -/
  package : Option String
  /-- The packages that must be loaded before expressions that use them are compiled. -/
  imports : List ImportDecl
  deriving DecidableEq, Repr

namespace Environment

/-- Define a package, in place of the one of that name. -/
def definePackage (env : Environment) (name : String) (source : SourceUnit)
    (origin : Option String) : Environment :=
  { env with packages := env.packages.insert name ⟨source.scope, origin⟩ }

/-- Define names and prefixes at top level, in place of those that are defined already. -/
def extendTop (env : Environment) (added : Scope) : Environment :=
  { env with
    top.bindings := env.top.bindings.override added.bindings
    top.imports := env.top.imports.override added.imports }

/-- Read a source and sort its statements. -/
def readUnit (text : String) : Except (List Violation) SourceUnit :=
  match Statement.listOfText text with
  | .ok statements => .ok (.collect statements)
  | .error v => .error [v]

/-- Store a source after it was read, if nothing is wrong with it. -/
def store (env : Environment) (source : SourceUnit) (origin : Option String) :
    Except (List Violation) (Loaded × Environment) :=
  match source.package with
  | some name =>
    match source.repeatedBindings ++ source.danglingReferences {} with
    | [] =>
      let env := env.definePackage name source origin
      .ok (⟨some name, source.imports⟩,
        { env with top.imports := env.top.imports.insert name name })
    | problems => .error problems
  | none =>
    match source.repeatedBindings ++ source.danglingReferences env.top with
    | [] => .ok (⟨none, source.imports⟩, env.extendTop source.scope)
    | problems => .error problems

/-- Load a source. One that declares a package defines that package and shows it at top level
under its own name; any other adds its definitions to those at top level. -/
def load (env : Environment) (text : String) (origin : Option String) :
    Except (List Violation) (Loaded × Environment) :=
  ((readUnit text).bind fun source => env.store source origin).mapError
    (List.map (Violation.withOrigin origin))

/-- Load the source of a package without showing it at top level. -/
def loadPackage (env : Environment) (expected text : String) (origin : Option String) :
    Except (List Violation) (Loaded × Environment) :=
  ((readUnit text).bind fun source =>
    match source.repeatedBindings ++ source.wrongDeclaration expected ++
        source.danglingReferences {} with
    | [] => .ok (⟨some expected, source.imports⟩, env.definePackage expected source origin)
    | problems => .error problems).mapError
    (List.map (Violation.withOrigin origin))

end Environment

end PatternEngine
