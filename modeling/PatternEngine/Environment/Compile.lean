import PatternEngine.Environment.Basic
import PatternEngine.Expr.Parser
import PatternEngine.Pattern.Basic

/-!
# Compiling expressions

An expression is compiled by putting in place of each reference the pattern of its binding,
resolved in the scope that the binding was written in. A binding that occurs several times is
resolved once and its pattern is used again, so that a pattern may be far larger than the work
of making it; its height is kept to see whether it still fits at the place of a later use.

The depth of the pattern is limited, each reference being one level. The number of levels left
is the measure of the recursion.
-/

namespace PatternEngine

/-- The binding of a name in the scope of a package, or at top level. -/
structure BindingKey where
  /-- The package that the binding was written in. -/
  owner : Option String
  /-- The name that it binds. -/
  base : String
  deriving DecidableEq, Repr

/-- The name under which matches of a binding are recorded. -/
def BindingKey.display (key : BindingKey) : String :=
  match key.owner with
  | none => key.base
  | some package => package ++ "." ++ key.base

/-- A pattern with the number of its levels. -/
structure Sized where
  /-- The pattern. -/
  pattern : Pattern
  /-- The number of levels. -/
  height : Nat
  deriving Repr

namespace Sized

/-- What stands in place of a reference that cannot be resolved. -/
def absent : Sized := ⟨.seq [], 0⟩

/-- A pattern of one level. -/
def leaf (pattern : Pattern) : Sized := ⟨pattern, 1⟩

/-- A pattern around another. -/
def wrap (f : Pattern → Pattern) (inner : Sized) : Sized := ⟨f inner.pattern, inner.height + 1⟩

/-- A pattern around several others. -/
def wrapAll (f : List Pattern → Pattern) (inner : List Sized) : Sized :=
  ⟨f (inner.map (·.pattern)), (inner.map (·.height)).foldl max 0 + 1⟩

end Sized

/-- What is noted while an expression is resolved. -/
structure Expansion where
  /-- The patterns of the bindings that were resolved. -/
  memo : List (BindingKey × Sized) := []
  /-- The problems found, in order. -/
  problems : List Violation := []
  /-- The pattern has too many levels. -/
  tooDeep : Bool := false
  deriving Repr

namespace Expansion

/-- Note a problem with a reference. -/
def report (state : Expansion) (cause : CompileCause) (name : Ident) (pos : Nat) : Expansion :=
  { state with
    problems := state.problems ++
      [{ cause := .compiling cause, pos := some pos, fragment := some name.toText }] }

/-- Note that the pattern has too many levels. -/
def overflow (state : Expansion) : Expansion := { state with tooDeep := true }

/-- Keep the pattern of a binding, unless it is incomplete for want of levels. -/
def remember (state : Expansion) (key : BindingKey) (sized : Sized) : Expansion :=
  if state.tooDeep then state else { state with memo := (key, sized) :: state.memo }

end Expansion

namespace Environment

/-- The binding that a name refers to in the scope of a package, or at top level. A name behind
a prefix is looked for in the package that the scope knows by that prefix, and must not be
local there. -/
def lookup (env : Environment) (name : Ident) (owner : Option String) :
    Except CompileCause (BindingKey × Entry) :=
  match env.scopeOf? owner with
  | none => .error (.notLoaded (owner.getD ""))
  | some scope =>
    match name.qualifier with
    | none =>
      match scope.bindings.find? name.base with
      | none => .error (.undefinedName name)
      | some entry => .ok (⟨owner, name.base⟩, entry)
    | some qualifier =>
      match scope.imports.find? qualifier with
      | none => .error (.unknownPrefix qualifier)
      | some package =>
        match env.packages.find? package with
        | none => .error (.notLoaded package)
        | some loaded =>
          match loaded.scope.bindings.find? name.base with
          | none => .error (.undefinedName name)
          | some entry =>
            if entry.isLocal then .error (.localName name.base package)
            else .ok (⟨some package, name.base⟩, entry)

/-- The pattern of a binding around that of its expression. -/
def wrapBinding (key : BindingKey) (entry : Entry) : Sized → Sized :=
  .wrap (if entry.isAlias then .transparent else .capture key.display)

/-- Resolve a reference with so many levels left, given how to resolve the expression of its
binding in the scope of the binding. The keys are those of the bindings around it. -/
def resolve (env : Environment) (levels : Nat)
    (body : List BindingKey → Option String → Expr → StateM Expansion Sized)
    (around : List BindingKey) (owner : Option String) (name : Ident) (pos : Nat) :
    StateM Expansion Sized := do
  match env.lookup name owner with
  | .error cause =>
    modify (·.report cause name pos)
    return .absent
  | .ok (key, entry) =>
    match (← get).memo.lookup key with
    | some sized =>
      if levels < sized.height then
        modify (·.overflow)
        return .absent
      else return sized
    | none =>
      if around.contains key then
        modify (·.report (.recursive name) name pos)
        return .absent
      else
        let sized := wrapBinding key entry (← body (key :: around) key.owner entry.body)
        modify (·.remember key sized)
        return sized

/-- Resolve an expression in the scope of a package, or at top level, with so many levels left.
The keys are those of the bindings around it. -/
def expand (env : Environment) :
    (levels : Nat) → List BindingKey → Option String → Expr → StateM Expansion Sized
  | 0, _, _, _ => do
    modify (·.overflow)
    return .absent
  | levels + 1, around, owner, e => do
    if (← get).tooDeep then return .absent
    match e with
    | .literal bytes => return .leaf (.literal (.ofBytes bytes))
    | .set members => return .leaf (.set members)
    | .any => return .leaf .any
    | .inputStart => return .leaf .inputStart
    | .inputEnd => return .leaf .inputEnd
    | .seq items => return .wrapAll .seq (← items.mapM (env.expand levels around owner))
    | .choice items => return .wrapAll .choice (← items.mapM (env.expand levels around owner))
    | .repetition body least most =>
      return .wrap (.repetition · least most) (← env.expand levels around owner body)
    | .lookahead kind body =>
      return .wrap (.lookahead kind) (← env.expand levels around owner body)
    | .ref name pos => env.resolve (levels + 1) (env.expand levels) around owner name pos

/-- A program, with what is dubious about it. -/
structure Compiled where
  /-- The program. -/
  program : Program
  /-- What is dubious. -/
  warnings : List Violation
  deriving Repr

/-- The warning about a program that can match without consuming anything. -/
def emptyMatchWarning (text : String) : Violation :=
  { cause := .compiling .matchesEmpty, fragment := some text }

/-- The problem of a pattern with too many levels. -/
def depthProblem (text : String) : Violation :=
  { cause := .compiling .tooDeep, fragment := some text }

/-- Compile an expression that was read from a text. -/
def compileExpr (env : Environment) (e : Expr) (text : String) :
    Except (List Violation) Compiled :=
  let (sized, state) := (env.expand patternDepthLimit [] none e).run {}
  let problems := state.problems ++ if state.tooDeep then [depthProblem text] else []
  match problems with
  | [] =>
    let program := Program.ofPattern sized.pattern text
    .ok ⟨program, if program.root.nullable then [emptyMatchWarning text] else []⟩
  | problems => .error problems

/-- Compile an expression in the scope at top level. -/
def compile (env : Environment) (text : String) : Except (List Violation) Compiled :=
  match Expr.ofText text with
  | .error v => .error [v]
  | .ok e => env.compileExpr e text

end Environment

end PatternEngine
