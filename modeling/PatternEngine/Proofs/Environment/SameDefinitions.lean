import PatternEngine.Environment.Compile
import PatternEngine.Environment.Load

/-!
# Environments with the same definitions

Two environments have the same definitions if every name, prefix and package is the same in both,
in whatever order they were defined. Expressions are compiled alike in both, and a source that is
loaded into both is refused alike or leaves the same definitions again.
-/

namespace PatternEngine.Environment

variable {env env' env'' : Environment} {name text : String} {origin : Option String}

/-- The same names and prefixes stand for the same at top level, and the same packages are loaded.
-/
structure SameDefinitions (env env' : Environment) : Prop where
  bindings : ∀ name, env'.top.bindings.find? name = env.top.bindings.find? name
  imports : ∀ name, env'.top.imports.find? name = env.top.imports.find? name
  packages : ∀ name, env'.packages.find? name = env.packages.find? name

theorem SameDefinitions.refl (env : Environment) : env.SameDefinitions env where
  bindings _ := rfl
  imports _ := rfl
  packages _ := rfl

theorem SameDefinitions.symm (h : env.SameDefinitions env') : env'.SameDefinitions env where
  bindings name := (h.bindings name).symm
  imports name := (h.imports name).symm
  packages name := (h.packages name).symm

theorem SameDefinitions.trans (h : env.SameDefinitions env') (h' : env'.SameDefinitions env'') :
    env.SameDefinitions env'' where
  bindings name := (h'.bindings name).trans (h.bindings name)
  imports name := (h'.imports name).trans (h.imports name)
  packages name := (h'.packages name).trans (h.packages name)

theorem SameDefinitions.hasPackage (h : env.SameDefinitions env') (name : String) :
    env'.hasPackage name = env.hasPackage name := by
  rw [Environment.hasPackage, Environment.hasPackage, Dictionary.contains, Dictionary.contains,
    h.packages]

/-! ## Compiling -/

/-- Names lead to the same bindings. -/
theorem SameDefinitions.lookup (h : env.SameDefinitions env') : env'.lookup = env.lookup := by
  funext name owner
  unfold Environment.lookup
  cases owner with
  | none => simp only [scopeOf?, h.bindings, h.imports, h.packages]
  | some package => simp only [scopeOf?, h.packages]

/-- An environment concerns an expression only by where the names in it lead. -/
theorem expand_congr (h : env'.lookup = env.lookup) : env'.expand = env.expand := by
  have hresolve : env'.resolve = env.resolve := by
    funext levels body around owner name pos
    rw [resolve, resolve, h]
  funext levels
  induction levels with
  | zero => rfl
  | succ levels ih =>
    funext around owner e
    simp only [expand, ih, hresolve]

/-- Expressions are compiled alike. -/
theorem SameDefinitions.compile (h : env.SameDefinitions env') (text : String) :
    env'.compile text = env.compile text := by
  rw [Environment.compile, Environment.compile]
  simp only [compileExpr, expand_congr h.lookup]

/-! ## Loading -/

/-- Outcomes that are the same but for the order of definitions. -/
inductive SameOutcome {ε α : Type} :
    Except ε (α × Environment) → Except ε (α × Environment) → Prop
  | refused (fault : ε) : SameOutcome (.error fault) (.error fault)
  | stored (a : α) {env env' : Environment} (h : env.SameDefinitions env') :
      SameOutcome (.ok (a, env)) (.ok (a, env'))

theorem SameOutcome.mapError {ε ε' α : Type} {x x' : Except ε (α × Environment)} (f : ε → ε')
    (h : SameOutcome x x') : SameOutcome (x.mapError f) (x'.mapError f) := by
  cases h with
  | refused fault => exact .refused (f fault)
  | stored a h => exact .stored a h

/-- The same references lead nowhere. -/
theorem SameDefinitions.danglingReferences (h : env.SameDefinitions env') (source : SourceUnit) :
    source.danglingReferences env'.top = source.danglingReferences env.top := by
  have hbindings : ∀ name, env'.top.bindings.contains name = env.top.bindings.contains name :=
    fun name => congrArg Option.isSome (h.bindings name)
  have himports : ∀ name, env'.top.imports.contains name = env.top.imports.contains name :=
    fun name => congrArg Option.isSome (h.imports name)
  have hcheck : source.checkReference? env'.top = source.checkReference? env.top := by
    funext name
    unfold SourceUnit.checkReference?
    cases name.qualifier with
    | none =>
      dsimp only
      rw [hbindings]
    | some qualifier =>
      dsimp only
      rw [himports]
  rw [SourceUnit.danglingReferences, SourceUnit.danglingReferences, hcheck]

theorem SameDefinitions.definePackage (h : env.SameDefinitions env') (name : String)
    (source : SourceUnit) (origin : Option String) :
    (env.definePackage name source origin).SameDefinitions
      (env'.definePackage name source origin) where
  bindings := h.bindings
  imports := h.imports
  packages other := by
    rw [Environment.definePackage, Environment.definePackage, Dictionary.find?_insert,
      Dictionary.find?_insert, h.packages]

theorem SameDefinitions.extendTop (h : env.SameDefinitions env') (added : Scope) :
    (env.extendTop added).SameDefinitions (env'.extendTop added) where
  bindings name := by
    rw [Environment.extendTop, Environment.extendTop, Dictionary.find?_override,
      Dictionary.find?_override, h.bindings]
  imports name := by
    rw [Environment.extendTop, Environment.extendTop, Dictionary.find?_override,
      Dictionary.find?_override, h.imports]
  packages := h.packages

/-- Prefixes that stand for the same after one was bound again. -/
theorem SameDefinitions.insertImport (h : env.SameDefinitions env') (name package : String) :
    SameDefinitions { env with top.imports := env.top.imports.insert name package }
      { env' with top.imports := env'.top.imports.insert name package } where
  bindings := h.bindings
  imports other := by rw [Dictionary.find?_insert, Dictionary.find?_insert, h.imports]
  packages := h.packages

/-- A source is stored alike. -/
theorem SameDefinitions.store (h : env.SameDefinitions env') (source : SourceUnit)
    (origin : Option String) :
    SameOutcome (env.store source origin) (env'.store source origin) := by
  unfold Environment.store
  cases source.package with
  | some name =>
    dsimp only
    split
    · exact .stored _ ((h.definePackage name source origin).insertImport name name)
    · exact .refused _
  | none =>
    dsimp only
    rw [h.danglingReferences]
    split
    · exact .stored _ (h.extendTop source.scope)
    · exact .refused _

/-- A source is loaded alike. -/
theorem SameDefinitions.load (h : env.SameDefinitions env') (text : String)
    (origin : Option String) : SameOutcome (env.load text origin) (env'.load text origin) := by
  unfold Environment.load
  refine SameOutcome.mapError _ ?_
  cases readUnit text with
  | error problems => exact .refused problems
  | ok source => exact h.store source origin

/-- The source of a package is loaded alike. -/
theorem SameDefinitions.loadPackage (h : env.SameDefinitions env') (expected text : String)
    (origin : Option String) :
    SameOutcome (env.loadPackage expected text origin) (env'.loadPackage expected text origin) := by
  unfold Environment.loadPackage
  refine SameOutcome.mapError _ ?_
  cases readUnit text with
  | error problems => exact .refused problems
  | ok source =>
    dsimp only [Except.bind]
    split
    · exact .stored _ (h.definePackage expected source origin)
    · exact .refused _

end PatternEngine.Environment
