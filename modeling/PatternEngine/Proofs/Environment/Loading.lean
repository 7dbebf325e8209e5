import PatternEngine.Proofs.Environment.InPlace
import PatternEngine.Proofs.Source.Contents

/-!
# Loading

A source that cannot be read, that defines a name twice or that uses a name or a prefix it may not
use is refused and leaves the environment as it was. Any other is stored with all that it says, and
nothing else is changed: at top level it overrides what it says, and a package takes the place of
the one of its name.
-/

namespace PatternEngine.Environment

/-- Something that is asked of an environment. -/
inductive Request where
  /-- Load a source. -/
  | load (text : String) (origin : Option String)
  /-- Load the source of a package. -/
  | loadPackage (expected text : String) (origin : Option String)
  /-- Show a package at top level under a prefix or its own name. -/
  | bind (package : String) (rename : Option String)
  deriving DecidableEq, Repr

/-- The environment that a request leads to, or what is wrong with the request. -/
def answer (env : Environment) : Request → Except (List Violation) Environment
  | .load text origin => (env.load text origin).map (·.2)
  | .loadPackage expected text origin => (env.loadPackage expected text origin).map (·.2)
  | .bind package rename => (env.bind package rename).mapError ([·])

/-- The steps of a request. -/
def Request.steps : Request → Procedure Unit
  | .load text origin => discard (Procedure.load text origin)
  | .loadPackage expected text origin => discard (Procedure.loadPackage expected text origin)
  | .bind package rename => Procedure.bind package rename

/-- What the steps of a request answer, and the environment that they leave. -/
def outcome (env : Environment) (request : Request) :
    Except (List Violation) Unit × Environment := request.steps.perform env

/-- The environment after a request. -/
def serve (env : Environment) (request : Request) : Environment := (env.outcome request).2

/-- A request leaves the environment that it leads to, and where it fails the one that was. -/
theorem outcome_eq (env : Environment) (request : Request) : env.outcome request =
    env.replacedBy ((env.answer request).map fun env' => ((), env')) := by
  cases request with
  | load text origin =>
    rw [outcome, Request.steps, Procedure.perform_discard, perform_load, answer]
    cases env.load text origin with
    | ok loaded => rfl
    | error problems => rfl
  | loadPackage expected text origin =>
    rw [outcome, Request.steps, Procedure.perform_discard, perform_loadPackage, answer]
    cases env.loadPackage expected text origin with
    | ok loaded => rfl
    | error problems => rfl
  | bind package rename =>
    rw [outcome, Request.steps, perform_bind, answer]
    cases env.bind package rename with
    | ok env' => rfl
    | error problem => rfl

/-- A request that does not fail leaves the environment that it leads to. -/
theorem outcome_of_ok {env env' : Environment} {request : Request}
    (h : env.answer request = .ok env') : env.outcome request = (.ok (), env') := by
  rw [outcome_eq, h]
  rfl

/-- A request that fails leaves the environment as it was. -/
theorem outcome_of_error {env : Environment} {problems : List Violation} {request : Request}
    (h : env.answer request = .error problems) : env.outcome request = (.error problems, env) := by
  rw [outcome_eq, h]
  rfl

/-- The scope that a source may use beside its own: the one at top level, unless it declares a
package. -/
def outerScope (env : Environment) (ss : List Statement) : Scope :=
  match Source.declared? ss with
  | none => env.top
  | some _ => {}

/-- The request is one that is granted. -/
def Grants (env : Environment) : Request → Prop
  | .load text _ => ∃ ss, Statement.listOfText text = .ok ss ∧
      Source.WellFormed ss (env.outerScope ss)
  | .loadPackage expected text _ => ∃ ss, Statement.listOfText text = .ok ss ∧
      Source.declared? ss = some expected ∧ Source.WellFormed ss {}
  | .bind package _ => (env.packages.find? package).isSome

/-- The second environment has the source as a package of this name, and else the packages of the
first. -/
structure Replaces (env env' : Environment) (name : String) (ss : List Statement)
    (origin : Option String) : Prop where
  replaced : ∃ package, env'.packages.find? name = some package ∧ package.origin = origin ∧
    Source.Extends ss {} package.scope
  others : ∀ other, other ≠ name → env'.packages.find? other = env.packages.find? other

/-- The second environment has the names of the first at top level, and the prefixes of the first
beside one that stands for this package. -/
structure Shows (env env' : Environment) (qualifier package : String) : Prop where
  bindings : ∀ name, env'.top.bindings.find? name = env.top.bindings.find? name
  imports : ∀ other, env'.top.imports.find? other =
    if other = qualifier then some package else env.top.imports.find? other

/-- What a request that is granted does. -/
inductive Effect (env env' : Environment) : Request → Prop
  /-- A source without package declaration is added to what is at top level. -/
  | extended {text : String} {origin : Option String} {ss : List Statement}
    (hread : Statement.listOfText text = .ok ss) (hnone : Source.declared? ss = none)
    (htop : Source.Extends ss env.top env'.top)
    (hpackages : ∀ name, env'.packages.find? name = env.packages.find? name) :
    Effect env env' (.load text origin)
  /-- A source with a package declaration becomes that package, which is shown. -/
  | defined {text name : String} {origin : Option String} {ss : List Statement}
    (hread : Statement.listOfText text = .ok ss) (hdeclared : Source.declared? ss = some name)
    (hreplaces : env.Replaces env' name ss origin) (hshows : env.Shows env' name name) :
    Effect env env' (.load text origin)
  /-- The source of a package becomes that package, which is not shown. -/
  | loaded {expected text : String} {origin : Option String} {ss : List Statement}
    (hread : Statement.listOfText text = .ok ss) (hdeclared : Source.declared? ss = some expected)
    (hreplaces : env.Replaces env' expected ss origin) (htop : env'.top = env.top) :
    Effect env env' (.loadPackage expected text origin)
  /-- A package is shown. -/
  | shown {package : String} {rename : Option String}
    (hshows : env.Shows env' (rename.getD package) package)
    (hpackages : env'.packages = env.packages) : Effect env env' (.bind package rename)

variable {env : Environment} {text : String} {origin : Option String} {ss : List Statement}

/-! ## Sources -/

/-- A source that can be read is sorted by kind. -/
theorem readUnit_of_ok (hread : Statement.listOfText text = .ok ss) :
    readUnit text = .ok (.collect ss) := by rw [readUnit, hread]

/-- A source that cannot be read is refused. -/
theorem readUnit_of_error {v : Violation} (hread : Statement.listOfText text = .error v) :
    readUnit text = .error [v] := by rw [readUnit, hread]

/-- A package is defined as its source says, and no other package is changed. -/
theorem replaces_definePackage (hwell : Source.WellFormed ss {}) (env : Environment) (name : String)
    (origin : Option String) :
    env.Replaces (env.definePackage name (.collect ss) origin) name ss origin where
  replaced := by
    refine ⟨⟨(SourceUnit.collect ss).scope, origin⟩, ?_, rfl,
      SourceUnit.extends_scope_collect hwell.once⟩
    rw [definePackage, Dictionary.find?_insert, if_pos rfl]
  others other hother := by rw [definePackage, Dictionary.find?_insert, if_neg hother]

/-- What is at top level is overridden by what a source says. -/
theorem extends_extendTop (env : Environment) {scope : Scope} (h : Source.Extends ss {} scope) :
    Source.Extends ss env.top (env.extendTop scope).top where
  bindings name := by
    have hname : (({} : Scope).bindings.find? name) = none := rfl
    rw [extendTop, Dictionary.find?_override, h.bindings, hname, Option.or_none]
  imports qualifier := by
    have hqualifier : (({} : Scope).imports.find? qualifier) = none := rfl
    rw [extendTop, Dictionary.find?_override, h.imports, hqualifier, Option.or_none]

/-- One prefix is set at top level. -/
theorem shows_insert (env : Environment) (packages : Dictionary Package)
    (qualifier package : String) :
    env.Shows { env with packages, top.imports := env.top.imports.insert qualifier package }
      qualifier package where
  bindings _ := rfl
  imports _ := Dictionary.find?_insert _ _ _ _

/-- A request is granted and has its effect, or is refused. -/
def Decided (env : Environment) (request : Request) : Prop :=
  (env.Grants request ∧ ∃ env', env.answer request = .ok env' ∧ env.Effect env' request) ∨
    ¬ env.Grants request ∧ ∃ problems, env.answer request = .error problems

/-- A source is stored where no problems were found. -/
theorem granted_or_refused {request : Request} {granted : Prop} {problems : List Violation}
    {stored : Loaded × Environment} {f : List Violation → List Violation} :
    let result : Except (List Violation) (Loaded × Environment) :=
      match problems with
      | [] => .ok stored
      | problems => .error problems
    (problems = [] ↔ granted) → (granted → env.Effect stored.2 request) →
      (granted ∧ ∃ env', (result.mapError f).map (·.2) = .ok env' ∧ env.Effect env' request) ∨
        ¬ granted ∧ ∃ refused, (result.mapError f).map (·.2) = .error refused := by
  intro result hproblems heffect
  cases problems with
  | nil =>
    have hgranted := hproblems.mp rfl
    exact .inl ⟨hgranted, _, rfl, heffect hgranted⟩
  | cons problem problems => exact .inr ⟨mt hproblems.mpr nofun, _, rfl⟩

/-- A source is loaded where it is well-formed. -/
theorem decided_load (env : Environment) (text : String) (origin : Option String) :
    env.Decided (.load text origin) := by
  cases hread : Statement.listOfText text with
  | error v =>
    refine .inr ⟨?_, _, by rw [answer, load, readUnit_of_error hread]; rfl⟩
    rintro ⟨ss, hss, -⟩
    cases hread.symm.trans hss
  | ok ss =>
    have hgrants : env.Grants (.load text origin) ↔ Source.WellFormed ss (env.outerScope ss) := by
      constructor
      · rintro ⟨ss', hss, hwell⟩
        cases hread.symm.trans hss
        exact hwell
      · exact fun hwell => ⟨ss, hread, hwell⟩
    rw [Decided, hgrants]
    have hpackage := SourceUnit.package_collect (Source.not_isPackage_of_listOfText hread)
    have hload : env.load text origin =
        (env.store (.collect ss) origin).mapError (List.map (Violation.withOrigin origin)) := by
      rw [load, readUnit_of_ok hread]
      rfl
    rw [answer, hload, store, hpackage, outerScope]
    cases hdeclared : Source.declared? ss with
    | none =>
      refine granted_or_refused SourceUnit.problems_collect_eq_nil_iff fun hwell => ?_
      have hextends := SourceUnit.extends_scope_collect hwell.once
      exact .extended hread hdeclared (extends_extendTop env hextends) fun _ => rfl
    | some name =>
      refine granted_or_refused SourceUnit.problems_collect_eq_nil_iff fun hwell => ?_
      have hreplaces := replaces_definePackage hwell env name origin
      exact .defined hread hdeclared ⟨hreplaces.replaced, hreplaces.others⟩
        (shows_insert env _ name name)

/-- Nothing is wrong with the declaration of the package that is expected. -/
theorem wrongDeclaration_eq_nil_iff (source : SourceUnit) (expected : String) :
    source.wrongDeclaration expected = [] ↔ source.package = some expected := by
  unfold SourceUnit.wrongDeclaration
  cases source.package with
  | none => exact iff_of_false nofun nofun
  | some declared =>
    rw [Option.some.injEq]
    dsimp only
    split
    · rename_i hdeclared
      exact iff_of_true rfl hdeclared
    · rename_i hdeclared
      exact iff_of_false nofun hdeclared

/-- The source of a package is loaded where it declares the package and is well-formed. -/
theorem decided_loadPackage (env : Environment) (expected text : String) (origin : Option String) :
    env.Decided (.loadPackage expected text origin) := by
  cases hread : Statement.listOfText text with
  | error v =>
    refine .inr ⟨?_, _, by rw [answer, loadPackage, readUnit_of_error hread]; rfl⟩
    rintro ⟨ss, hss, -⟩
    cases hread.symm.trans hss
  | ok ss =>
    have hgrants : env.Grants (.loadPackage expected text origin) ↔
        Source.declared? ss = some expected ∧ Source.WellFormed ss {} := by
      constructor
      · rintro ⟨ss', hss, hgranted⟩
        cases hread.symm.trans hss
        exact hgranted
      · exact fun hgranted => ⟨ss, hread, hgranted⟩
    have hpackage := SourceUnit.package_collect (Source.not_isPackage_of_listOfText hread)
    have hproblems : (SourceUnit.collect ss).repeatedBindings ++
          (SourceUnit.collect ss).wrongDeclaration expected ++
          (SourceUnit.collect ss).danglingReferences {} = [] ↔
        Source.declared? ss = some expected ∧ Source.WellFormed ss {} := by
      rw [← SourceUnit.problems_collect_eq_nil_iff, List.append_eq_nil_iff, List.append_eq_nil_iff,
        List.append_eq_nil_iff, wrongDeclaration_eq_nil_iff, hpackage]
      tauto
    rw [Decided, hgrants, answer, loadPackage, readUnit_of_ok hread]
    refine granted_or_refused hproblems fun hgranted => ?_
    exact .loaded hread hgranted.1 (replaces_definePackage hgranted.2 env expected origin) rfl

/-- A package is shown where it is loaded. -/
theorem decided_bind (env : Environment) (package : String) (rename : Option String) :
    env.Decided (.bind package rename) := by
  rw [Decided, answer, bind, hasPackage, Dictionary.contains, Grants]
  split
  · rename_i hloaded
    exact .inl ⟨hloaded, _, rfl, .shown (shows_insert env env.packages _ package) rfl⟩
  · rename_i hloaded
    exact .inr ⟨hloaded, _, rfl⟩

theorem decided (env : Environment) (request : Request) : env.Decided request := by
  cases request with
  | load text origin => exact env.decided_load text origin
  | loadPackage expected text origin => exact env.decided_loadPackage expected text origin
  | bind package rename => exact env.decided_bind package rename

/-- What a request that is answered leads to is the effect of the request. -/
theorem effect_of_answer {env' : Environment} {request : Request}
    (h : env.answer request = .ok env') : env.Effect env' request := by
  rcases env.decided request with ⟨-, env'', hanswer, heffect⟩ | ⟨-, problems, hanswer⟩
  · cases h.symm.trans hanswer
    exact heffect
  · cases h.symm.trans hanswer

/-- A request that is answered leads to the environment that it leaves. -/
theorem answer_of_isOk {request : Request} (h : (env.answer request).isOk) :
    env.answer request = .ok (env.serve request) := by
  cases hanswer : env.answer request with
  | ok env' => rw [serve, outcome_of_ok hanswer]
  | error problems =>
    rw [hanswer] at h
    cases h

/-- A request that is granted has its effect and no other, and any other changes nothing: this is so
of the environment that is given back, and of the one that the steps leave. -/
theorem serve_effect (env : Environment) (request : Request) :
    (env.Grants request ∧ env.answer request = .ok (env.serve request) ∧
        env.outcome request = (.ok (), env.serve request) ∧
        env.Effect (env.serve request) request) ∨
      ¬ env.Grants request ∧ ∃ problems, env.answer request = .error problems ∧
        env.outcome request = (.error problems, env) := by
  rcases env.decided request with ⟨hgranted, env', hanswer, heffect⟩ | ⟨hrefused, problems, hanswer⟩
  · have houtcome := outcome_of_ok hanswer
    rw [serve, houtcome]
    exact .inl ⟨hgranted, hanswer, rfl, heffect⟩
  · exact .inr ⟨hrefused, problems, hanswer, outcome_of_error hanswer⟩

end PatternEngine.Environment
