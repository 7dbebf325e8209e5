import PatternEngine.Proofs.Environment.Loading
import PatternEngine.Proofs.Environment.Problems

/-!
# Stored definitions

What is stored never refers to a name of its own scope that is missing, or to a prefix that is not
known there: a source is checked when it is loaded, and nothing that is done later takes a name or a
prefix away, but for a package that gives way to another as a whole. Behind a prefix there is no
such guarantee, since the package may be replaced by one without the name.

So when an expression does not compile because of a name or a prefix that is not defined, the name
stands in the expression itself, or it has a prefix whose package is loaded without the name.
-/

namespace PatternEngine

/-- Every name that is used in the scope is known there. -/
def Scope.Closed (scope : Scope) : Prop :=
  ∀ base entry, scope.bindings.find? base = some entry →
    ∀ name pos, (name, pos) ∈ entry.body.references → scope.Knows name

theorem Scope.closed_empty : ({} : Scope).Closed := nofun

namespace Source

variable {ss : List Statement} {outer scope : Scope} {name : Ident}

/-- A scope knows what the source provides and what the other scope knows. -/
theorem Extends.knows_iff (h : Extends ss outer scope) :
    scope.Knows name ↔ Provides ss name ∨ outer.Knows name := by
  obtain ⟨qualifier, base⟩ := name
  unfold Scope.Knows Provides
  cases qualifier with
  | none =>
    dsimp only
    rw [h.bindings, Option.isSome_or, Bool.or_eq_true, entryOf?, Option.isSome_map,
      List.find?_isSome]
    simp only [beq_iff_eq]
  | some qualifier =>
    dsimp only
    rw [h.imports, Option.isSome_or, Bool.or_eq_true, packageBehind?, Option.isSome_map,
      List.find?_isSome]
    simp only [List.mem_reverse, beq_iff_eq]

/-- What a well-formed source says keeps a scope closed. -/
theorem Extends.closed (h : Extends ss outer scope) (hwell : WellFormed ss outer)
    (houter : outer.Closed) : scope.Closed := by
  intro base entry hentry name pos href
  rw [h.knows_iff]
  rw [h.bindings] at hentry
  rcases Option.or_eq_some_iff.mp hentry with hown | ⟨-, hold⟩
  · obtain ⟨b, hb, rfl⟩ := Option.map_eq_some_iff.mp hown
    exact hwell.known b (List.mem_of_find?_eq_some hb) name pos href
  · exact .inr (houter base entry hold name pos href)

end Source

namespace Environment

variable {env env' : Environment} {request : Request} {qualifier package : String}

/-- The scopes at top level and of all packages are closed. -/
structure Closed (env : Environment) : Prop where
  top : env.top.Closed
  packages : ∀ name package, env.packages.find? name = some package → package.scope.Closed

theorem closed_empty : ({} : Environment).Closed := ⟨Scope.closed_empty, nofun⟩

/-- A further prefix at top level leaves the scope closed. -/
theorem Shows.closed (h : env.Shows env' qualifier package) (hclosed : env.top.Closed) :
    env'.top.Closed := by
  intro base entry hentry name pos href
  rw [h.bindings] at hentry
  have hknows := hclosed base entry hentry name pos href
  unfold Scope.Knows at hknows ⊢
  split
  · rename_i hplain
    rw [hplain] at hknows
    rwa [h.bindings]
  · rename_i other hother
    rw [hother] at hknows
    rw [h.imports]
    split
    · rfl
    · exact hknows

/-- A well-formed source as a package leaves all packages closed. -/
theorem Replaces.closed {name : String} {ss : List Statement} {origin : Option String}
    (h : env.Replaces env' name ss origin) (hwell : Source.WellFormed ss {})
    (hclosed : ∀ name package, env.packages.find? name = some package → package.scope.Closed) :
    ∀ name package, env'.packages.find? name = some package → package.scope.Closed := by
  intro other package hpackage
  by_cases hother : other = name
  · subst hother
    obtain ⟨replaced, hreplaced, -, hextends⟩ := h.replaced
    cases hpackage.symm.trans hreplaced
    exact hextends.closed hwell Scope.closed_empty
  · rw [h.others other hother] at hpackage
    exact hclosed other package hpackage

/-- A request that is granted leaves all scopes closed. -/
theorem Effect.closed (h : env.Effect env' request) (hgranted : env.Grants request)
    (hclosed : env.Closed) : env'.Closed := by
  cases h with
  | @extended text origin ss hread hnone htop hpackages =>
    obtain ⟨ss', hread', hwell⟩ := hgranted
    cases hread.symm.trans hread'
    rw [outerScope, hnone] at hwell
    exact ⟨htop.closed hwell hclosed.top, fun name package hpackage =>
      hclosed.packages name package (hpackages name ▸ hpackage)⟩
  | @defined text name origin ss hread hdeclared hreplaces hshows =>
    obtain ⟨ss', hread', hwell⟩ := hgranted
    cases hread.symm.trans hread'
    rw [outerScope, hdeclared] at hwell
    exact ⟨hshows.closed hclosed.top, hreplaces.closed hwell hclosed.packages⟩
  | @loaded expected text origin ss hread hdeclared hreplaces htop =>
    obtain ⟨ss', hread', -, hwell⟩ := hgranted
    cases hread.symm.trans hread'
    exact ⟨htop ▸ hclosed.top, hreplaces.closed hwell hclosed.packages⟩
  | shown hshows hpackages => exact ⟨hshows.closed hclosed.top, hpackages ▸ hclosed.packages⟩

/-- An environment that can come about. -/
inductive Reachable : Environment → Prop
  | empty : Reachable {}
  | serve {env : Environment} (h : Reachable env) (request : Request) :
      Reachable (env.serve request)

/-- What holds without definitions and is kept by every request that is granted holds of every
environment that can come about. -/
theorem Reachable.of_effect {P : Environment → Prop} (hempty : P {})
    (hkept : ∀ env env' request, env.Grants request → env.Effect env' request → P env → P env')
    (h : env.Reachable) : P env := by
  induction h with
  | empty => exact hempty
  | @serve env _ request ih =>
    unfold Environment.serve
    rcases env.decided request with ⟨hgranted, env', hanswer, heffect⟩ | ⟨-, problems, hanswer⟩
    · rw [outcome_of_ok hanswer]
      exact hkept env env' request hgranted heffect ih
    · rw [outcome_of_error hanswer]
      exact ih

theorem Reachable.closed (h : env.Reachable) : env.Closed :=
  h.of_effect closed_empty fun _ _ _ hgranted heffect hclosed => heffect.closed hgranted hclosed

/-! ## What is missing -/

variable {owner : Option String} {e : Expr} {v : Violation} {key : BindingKey} {entry : Entry}
  {name : Ident} {pos : Nat} {cause : CompileCause}

/-- The cause is a name or a prefix that is not defined. -/
def Undefined : CompileCause → Prop
  | .undefinedName _ | .unknownPrefix _ => True
  | _ => False

/-- The name has a prefix whose package is loaded, but without the name. -/
def LacksName (env : Environment) (owner : Option String) (name : Ident) : Prop :=
  ∃ qualifier scope package loaded, name.qualifier = some qualifier ∧
    env.scopeOf? owner = some scope ∧ scope.imports.find? qualifier = some package ∧
    env.packages.find? package = some loaded ∧ loaded.scope.bindings.find? name.base = none

/-- In a scope that knows a name, the name cannot be missing but behind its prefix. -/
theorem lacksName_of_lookup {scope : Scope} (hscope : env.scopeOf? owner = some scope)
    (hknows : scope.Knows name) (hlookup : env.lookup name owner = .error cause)
    (hcause : Undefined cause) : cause = .undefinedName name ∧ env.LacksName owner name := by
  unfold lookup at hlookup
  rw [hscope] at hlookup
  unfold Scope.Knows at hknows
  dsimp only at hlookup
  cases hqualifier : name.qualifier with
  | none =>
    rw [hqualifier] at hlookup hknows
    obtain ⟨entry, hentry⟩ := Option.isSome_iff_exists.mp hknows
    rw [hentry] at hlookup
    cases hlookup
  | some qualifier =>
    rw [hqualifier] at hlookup hknows
    obtain ⟨package, hpackage⟩ := Option.isSome_iff_exists.mp hknows
    dsimp only at hlookup
    rw [hpackage] at hlookup
    dsimp only at hlookup
    split at hlookup
    · cases hlookup
      cases hcause
    · rename_i loaded hloaded
      split at hlookup
      · rename_i hmissing
        cases hlookup
        exact ⟨rfl, qualifier, scope, package, loaded, hqualifier, hscope, hpackage, hloaded,
          hmissing⟩
      · split at hlookup
        · cases hlookup
          cases hcause
        · cases hlookup

/-- The expression of a binding is one of a closed scope. -/
theorem Closed.knows (h : env.Closed) (hentry : env.binding? key = some entry)
    (href : (name, pos) ∈ entry.body.references) :
    ∃ scope, env.scopeOf? key.owner = some scope ∧ scope.Knows name := by
  obtain ⟨scope, hscope, hbinding⟩ := Option.bind_eq_some_iff.mp hentry
  refine ⟨scope, hscope, ?_⟩
  obtain ⟨owner, base⟩ := key
  cases owner with
  | none =>
    cases hscope
    exact h.top base entry hbinding name pos href
  | some package =>
    obtain ⟨loaded, hloaded, rfl⟩ := Option.map_eq_some_iff.mp hscope
    exact h.packages package loaded hloaded base entry hbinding name pos href

/-- What a binding that an expression refers to leads to, the expression leads to. -/
theorem Refers.reaches {key' : BindingKey} (h : env.Refers owner e key)
    (hentry : env.binding? key = some entry) (hreaches : env.Reaches key.owner entry.body key') :
    env.Reaches owner e key' := by
  obtain ⟨first, hfirst, hrest⟩ := hreaches
  exact ⟨key, h, .head ⟨entry, hentry, hfirst⟩ hrest⟩

/-- The problem is that a binding that the expression leads to refers to a name that the package
behind its prefix lacks. -/
def BlamesPackage (env : Environment) (owner : Option String) (e : Expr) (v : Violation) : Prop :=
  ∃ key entry name pos, env.Reaches owner e key ∧ env.binding? key = some entry ∧
    (name, pos) ∈ entry.body.references ∧ v = referenceProblem (.undefinedName name) name pos ∧
    env.LacksName key.owner name

/-- A name or a prefix that is not defined stands in the expression itself, or it has a prefix
whose package is loaded without the name. -/
theorem Blames.cases_of_closed (h : env.Blames owner e v) (hclosed : env.Closed)
    (hcause : v.cause = .compiling cause) (hundefined : Undefined cause) :
    (∃ name pos, (name, pos) ∈ e.references ∧ env.lookup name owner = .error cause ∧
      v = referenceProblem cause name pos) ∨ env.BlamesPackage owner e v := by
  induction h with
  | unresolved href hlookup =>
    cases hcause
    exact .inl ⟨_, _, href, hlookup, rfl⟩
  | recursive href =>
    cases hcause
    cases hundefined
  | @inside owner e name pos key entry v href hresolves _ ih =>
    have hrefers : env.Refers owner e key := ⟨name, pos, entry, href, hresolves⟩
    have hentry := hresolves.binding?_eq
    rcases ih hcause with ⟨name', pos', href', hlookup, rfl⟩ | ⟨key', entry', name', pos',
      hreaches, hrest⟩
    · obtain ⟨scope, hscope, hknows⟩ := hclosed.knows hentry href'
      obtain ⟨rfl, hlacks⟩ := lacksName_of_lookup hscope hknows hlookup hundefined
      exact .inr ⟨key, entry, name', pos', ⟨key, hrefers, .refl⟩, hentry, href', rfl, hlacks⟩
    · exact .inr ⟨key', entry', name', pos', hrefers.reaches hentry hreaches, hrest⟩

/-- In every environment that can come about all names in stored bindings are known in the scope of
the binding. So where an expression does not compile because a name or a prefix is not defined, the
name stands in the expression itself, or in a binding that the expression leads to and with a
prefix whose package is loaded without the name. -/
theorem reachable_closed (h : env.Reachable) :
    env.top.Closed ∧
      (∀ name package, env.packages.find? name = some package → package.scope.Closed) ∧
      ∀ text problems v cause, env.compile text = .error problems → v ∈ problems →
        v.cause = .compiling cause → Undefined cause →
        ∃ e, Expr.ofText text = .ok e ∧
          ((∃ name pos, (name, pos) ∈ e.references ∧ env.lookup name none = .error cause ∧
            v = referenceProblem cause name pos) ∨ env.BlamesPackage none e v) := by
  refine ⟨h.closed.top, h.closed.packages, fun text problems v cause hcompile hv hcause hbad => ?_⟩
  rcases compile_problems hcompile hv with hread | ⟨e, hread, rfl | hblames⟩
  · -- What cannot be read is no name that is not defined.
    unfold Expr.ofText at hread
    cases hbytes : Expr.ofBytes (Bytes.ofString text) with
    | ok e =>
      rw [hbytes] at hread
      cases hread
    | error problem =>
      rw [hbytes] at hread
      cases hread
      cases hcause
  · cases hcause
    cases hbad
  · exact ⟨e, hread, hblames.cases_of_closed h.closed hcause hbad⟩

/-- A package without the name that a binding at top level refers to. -/
def lackingPackage : Environment :=
  (({} : Environment).serve (.load "package p\nx = \"a\"" none)).serve (.load "y = p.z" none)

/-- The problem is with the binding that the expression refers to. -/
theorem reachable_closed_lackingPackage :
    lackingPackage.Reachable ∧
      lackingPackage.compile "y" =
        .error [referenceProblem (.undefinedName ⟨some "p", "z"⟩) ⟨some "p", "z"⟩ 5] ∧
      lackingPackage.BlamesPackage none (.ref ⟨none, "y"⟩ 1)
        (referenceProblem (.undefinedName ⟨some "p", "z"⟩) ⟨some "p", "z"⟩ 5) := by
  have h : lackingPackage.Reachable := (Reachable.empty.serve _).serve _
  have hcompile : lackingPackage.compile "y" =
      .error [referenceProblem (.undefinedName ⟨some "p", "z"⟩) ⟨some "p", "z"⟩ 5] := by cbv
  obtain ⟨e, hread, hcases⟩ := (reachable_closed h).2.2 "y" _ _ _ hcompile List.mem_cons_self rfl
    trivial
  have hy : Expr.ofText "y" = .ok (.ref ⟨none, "y"⟩ 1) := by cbv
  cases hy.symm.trans hread
  refine ⟨h, hcompile, hcases.resolve_left ?_⟩
  rintro ⟨name, pos, href, -, hv⟩
  cases List.mem_singleton.mp href
  revert hv
  decide

end Environment

end PatternEngine
