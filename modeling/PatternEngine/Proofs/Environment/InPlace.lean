import PatternEngine.Environment.Load

/-!
# Loading in place

An environment that is changed in place keeps what was written to it before a step that fails. Here
the requests are given as such steps, with the tests and the writes in the order in which they are
made. Nothing is written before the last test, so the steps leave the environment that
`Environment.load` and its like give back, and where they fail they leave it as it was.
-/

namespace PatternEngine.Environment

/-- Steps on an environment that is changed in place. A failure does not take writes back. -/
abbrev Procedure (α : Type) : Type := ExceptT (List Violation) (StateM Environment) α

namespace Procedure

variable {α β : Type}

/-- What is answered to an environment, and the environment that is left. -/
def perform (steps : Procedure α) (env : Environment) :
    Except (List Violation) α × Environment := steps.run.run env

/-- Go on unless there are problems. -/
def require : List Violation → Procedure Unit
  | [] => pure ()
  | problems => throw problems

/-- Say of each problem which file it is in. -/
def inFile (origin : Option String) (steps : Procedure α) : Procedure α :=
  steps.adapt (List.map (Violation.withOrigin origin))

/-- Write a package. -/
def writePackage (name : String) (source : SourceUnit) (origin : Option String) :
    Procedure Unit :=
  modify fun env => { env with packages := env.packages.insert name ⟨source.scope, origin⟩ }

/-- Write a prefix at top level. -/
def writePrefix (qualifier package : String) : Procedure Unit :=
  modify fun env => { env with top.imports := env.top.imports.insert qualifier package }

/-- Load a source. -/
def load (text : String) (origin : Option String) : Procedure Loaded := inFile origin do
  let source ← liftExcept (readUnit text)
  match source.package with
  | some name =>
    require (source.repeatedBindings ++ source.danglingReferences {})
    writePackage name source origin
    writePrefix name name
    return ⟨some name, source.imports⟩
  | none =>
    let env ← get
    require (source.repeatedBindings ++ source.danglingReferences env.top)
    modify fun env => { env with top.imports := env.top.imports.override source.scope.imports }
    modify fun env => { env with top.bindings := env.top.bindings.override source.scope.bindings }
    return ⟨none, source.imports⟩

/-- Load the source of a package without showing it at top level. -/
def loadPackage (expected text : String) (origin : Option String) : Procedure Loaded :=
  inFile origin do
    let source ← liftExcept (readUnit text)
    require (source.repeatedBindings ++ source.wrongDeclaration expected ++
      source.danglingReferences {})
    writePackage expected source origin
    return ⟨some expected, source.imports⟩

/-- Show a loaded package at top level under another prefix or its own name. -/
def bind (package : String) (rename : Option String) : Procedure Unit := do
  let env ← get
  require (if env.hasPackage package then [] else [{ cause := .importing (.notLoaded package) }])
  writePrefix (rename.getD package) package

/-! ## What steps leave -/

variable {env : Environment}

theorem perform_get_bind (next : Environment → Procedure α) :
    (get >>= next).perform env = (next env).perform env := rfl

/-- An error ends the steps and leaves the environment as it is. -/
theorem perform_liftExcept_bind (result : Except (List Violation) β) (next : β → Procedure α) :
    (liftExcept result >>= next).perform env = match result with
      | .ok value => (next value).perform env
      | .error problems => (.error problems, env) := by
  cases result with
  | ok value => rfl
  | error problems => rfl

/-- Problems end the steps and leave the environment as it is. -/
theorem perform_require_bind (problems : List Violation) (next : Unit → Procedure α) :
    (require problems >>= next).perform env = match problems with
      | [] => (next ()).perform env
      | problems => (.error problems, env) := by
  cases problems with
  | nil => rfl
  | cons problem problems => rfl

theorem perform_inFile (origin : Option String) (steps : Procedure α) :
    (inFile origin steps).perform env =
      ((steps.perform env).1.mapError (List.map (Violation.withOrigin origin)),
        (steps.perform env).2) := rfl

/-- Steps whose value is not used. -/
theorem perform_discard (steps : Procedure α) : (discard steps : Procedure Unit).perform env =
    ((steps.perform env).1.map fun _ => (), (steps.perform env).2) := by
  unfold perform
  rw [Functor.discard, map_const, Function.comp_apply, ExceptT.run_map, StateT.run_map]
  rfl

end Procedure

/-- What is answered and left where the environment gives way to the one that is given back, and
stays as it is where none is. -/
def replacedBy {α : Type} (env : Environment) :
    Except (List Violation) (α × Environment) → Except (List Violation) α × Environment
  | .ok (value, env') => (.ok value, env')
  | .error problems => (.error problems, env)

/-- Loading a source in place leaves what `Environment.load` gives back. -/
theorem perform_load (env : Environment) (text : String) (origin : Option String) :
    (Procedure.load text origin).perform env = env.replacedBy (env.load text origin) := by
  rw [Procedure.load, Procedure.perform_inFile, Procedure.perform_liftExcept_bind, load]
  cases readUnit text with
  | error problems => rfl
  | ok source =>
    dsimp only [Except.bind]
    rw [store]
    cases source.package with
    | none =>
      dsimp only
      rw [Procedure.perform_get_bind, Procedure.perform_require_bind]
      cases source.repeatedBindings ++ source.danglingReferences env.top with
      | nil => rfl
      | cons problem problems => rfl
    | some name =>
      dsimp only
      rw [Procedure.perform_require_bind]
      cases source.repeatedBindings ++ source.danglingReferences {} with
      | nil => rfl
      | cons problem problems => rfl

/-- Loading the source of a package in place leaves what `Environment.loadPackage` gives back. -/
theorem perform_loadPackage (env : Environment) (expected text : String)
    (origin : Option String) : (Procedure.loadPackage expected text origin).perform env =
      env.replacedBy (env.loadPackage expected text origin) := by
  rw [Procedure.loadPackage, Procedure.perform_inFile, Procedure.perform_liftExcept_bind,
    loadPackage]
  cases readUnit text with
  | error problems => rfl
  | ok source =>
    dsimp only [Except.bind]
    rw [Procedure.perform_require_bind]
    cases source.repeatedBindings ++ source.wrongDeclaration expected ++
        source.danglingReferences {} with
    | nil => rfl
    | cons problem problems => rfl

/-- Showing a package in place leaves what `Environment.bind` gives back. -/
theorem perform_bind (env : Environment) (package : String) (rename : Option String) :
    (Procedure.bind package rename).perform env =
      env.replacedBy (((env.bind package rename).map fun env' => ((), env')).mapError ([·])) := by
  rw [Procedure.bind, Procedure.perform_get_bind, Procedure.perform_require_bind, bind]
  cases env.hasPackage package with
  | true => rfl
  | false => rfl

end PatternEngine.Environment
