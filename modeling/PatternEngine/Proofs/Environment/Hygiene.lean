import PatternEngine.Proofs.Environment.Loading
import PatternEngine.Proofs.Environment.Problems

/-!
# Packages are hygienic

Inside a package names never lead to what stands at top level: a plain name is one of the package,
and a prefix is one that the package imports. Expansion goes on in the scope of each binding, so an
expression that starts with a prefix is done with the top level after that step. What is defined at
top level later concerns such an expression only by the prefixes that it sets.
-/

namespace PatternEngine

/-- A prefix that a source does not import is behind none of its imports. -/
theorem Source.packageBehind?_eq_none {ss : List Statement} {qualifier : String}
    (h : qualifier ∉ (imports ss).map (·.visibleAs)) :
    packageBehind? ss qualifier = none := by
  rw [packageBehind?, Option.map_eq_none_iff, List.find?_eq_none]
  intro decl hdecl hvisible
  exact h (List.mem_map.mpr ⟨decl, List.mem_reverse.mp hdecl, beq_iff_eq.mp hvisible⟩)

/-- Steps that do the same on every element of a list do the same on the list. -/
theorem mapM_congr {α β σ : Type} {f g : α → StateM σ β} {xs : List α} (h : ∀ x ∈ xs, f x = g x) :
    xs.mapM f = xs.mapM g := by
  induction xs with
  | nil => rfl
  | cons x xs ih =>
    obtain ⟨hx, hxs⟩ := List.forall_mem_cons.mp h
    rw [List.mapM_cons, List.mapM_cons, hx, ih hxs]

namespace Environment

variable {env env' : Environment} {request : Request} {owner : Option String} {name : Ident}
  {key : BindingKey} {entry : Entry} {e : Expr} {qualifier : String}

/-! ## What a request sets at top level -/

/-- The package that a request defines if it is granted. -/
def Request.package? : Request → Option String
  | .load text _ =>
    match Statement.listOfText text with
    | .ok ss => Source.declared? ss
    | .error _ => none
  | .loadPackage expected _ _ => some expected
  | .bind _ _ => none

/-- The prefixes that a request sets at top level if it is granted. -/
def Request.prefixes : Request → List String
  | .load text _ =>
    match Statement.listOfText text with
    | .ok ss =>
      match Source.declared? ss with
      | some name => [name]
      | none => (Source.imports ss).map (·.visibleAs)
    | .error _ => []
  | .loadPackage _ _ _ => []
  | .bind package rename => [rename.getD package]

/-- Any other prefix stands for what it stood for. -/
theorem Effect.imports (h : env.Effect env' request) (hother : qualifier ∉ request.prefixes) :
    env'.top.imports.find? qualifier = env.top.imports.find? qualifier := by
  cases h with
  | extended hread hnone htop hpackages =>
    simp only [Request.prefixes, hread, hnone] at hother
    rw [htop.imports, Source.packageBehind?_eq_none hother, Option.none_or]
  | defined hread hdeclared hreplaces hshows =>
    simp only [Request.prefixes, hread, hdeclared] at hother
    rw [hshows.imports, if_neg (List.ne_of_not_mem_cons hother)]
  | loaded hread hdeclared hreplaces htop => rw [htop]
  | shown hshows hpackages => rw [hshows.imports, if_neg (List.ne_of_not_mem_cons hother)]

/-- The same packages are loaded in both, whatever stands at top level. -/
def SamePackages (env env' : Environment) : Prop :=
  ∀ name, env'.packages.find? name = env.packages.find? name

/-- A request that defines no package leaves all packages as they were. -/
theorem Effect.samePackages (h : env.Effect env' request) (hnone : request.package? = none) :
    env.SamePackages env' := by
  cases h with
  | extended hread hdeclared htop hpackages => exact hpackages
  | defined hread hdeclared hreplaces hshows =>
    simp only [Request.package?, hread, hdeclared] at hnone
    cases hnone
  | loaded hread hdeclared hreplaces htop => cases hnone
  | shown hshows hpackages =>
    intro name
    rw [hpackages]

/-! ## Look-ups -/

/-- Inside a package names lead where they led. -/
theorem SamePackages.lookup_package (h : env.SamePackages env') (name : Ident) (package : String) :
    env'.lookup name (some package) = env.lookup name (some package) := by
  unfold lookup
  simp only [scopeOf?, h package]
  split
  · rfl
  · split
    · rfl
    · split
      · rfl
      · rw [h]

/-- At top level a name behind a prefix leads where it led if the prefix stands for the same. -/
theorem SamePackages.lookup_qualified (h : env.SamePackages env')
    (hqualifier : name.qualifier = some qualifier)
    (himports : env'.top.imports.find? qualifier = env.top.imports.find? qualifier) :
    env'.lookup name none = env.lookup name none := by
  unfold lookup
  simp only [scopeOf?, hqualifier, himports]
  split
  · rfl
  · rw [h]

/-- What is referred to inside a package, or behind a prefix, stands in a package. -/
theorem Resolves.owner_isSome (h : env.Resolves owner name key entry)
    (hinside : owner.isSome ∨ name.qualifier.isSome) : key.owner.isSome := by
  cases h with
  | own hs hb => exact hinside.resolve_right nofun
  | imported hs hi hp hb hl => rfl

/-! ## Expansion -/

/-- Where they stand the references of the expression lead to the same bindings of packages in both
environments, or nowhere for the same reason. -/
structure Settled (env env' : Environment) (owner : Option String) (e : Expr) : Prop where
  same : ∀ name pos, (name, pos) ∈ e.references → env'.lookup name owner = env.lookup name owner
  inside : ∀ name pos, (name, pos) ∈ e.references → owner.isSome ∨ name.qualifier.isSome

/-- Everything that is written in a package is settled. -/
theorem SamePackages.settled (h : env.SamePackages env') (hinside : owner.isSome) (e : Expr) :
    env.Settled env' owner e := by
  obtain ⟨package, rfl⟩ := Option.isSome_iff_exists.mp hinside
  exact ⟨fun name _ _ => h.lookup_package name package, fun _ _ _ => .inl rfl⟩

/-- A part of a settled expression is settled. -/
theorem Settled.part {e' : Expr} (h : env.Settled env' owner e)
    (hpart : e'.references ⊆ e.references) : env.Settled env' owner e' :=
  ⟨fun name pos href => h.same name pos (hpart href),
    fun name pos href => h.inside name pos (hpart href)⟩

/-- A reference is resolved alike where it is looked up alike and its binding is expanded alike. -/
theorem resolve_congr {levels : Nat}
    {body body' : List BindingKey → Option String → Expr → StateM Expansion Sized}
    (around : List BindingKey) (pos : Nat)
    (hlookup : env'.lookup name owner = env.lookup name owner)
    (hbody : ∀ key entry, env.lookup name owner = .ok (key, entry) →
      body' (key :: around) key.owner entry.body = body (key :: around) key.owner entry.body) :
    env'.resolve levels body' around owner name pos =
      env.resolve levels body around owner name pos := by
  rw [resolve, resolve, hlookup]
  cases hfound : env.lookup name owner with
  | error cause => rfl
  | ok found =>
    obtain ⟨key, entry⟩ := found
    dsimp only
    rw [hbody key entry hfound]

/-- A settled expression is expanded alike: the binding that a reference leads to stands in a
package, so that its own expression is settled too. -/
theorem SamePackages.expand (h : env.SamePackages env') (levels : Nat) (around : List BindingKey)
    (hsettled : env.Settled env' owner e) :
    env'.expand levels around owner e = env.expand levels around owner e := by
  induction levels generalizing around owner e with
  | zero => rfl
  | succ levels ih =>
    have hitems : ∀ items, Expr.referencesOfAll items ⊆ e.references →
        items.mapM (env'.expand levels around owner) =
          items.mapM (env.expand levels around owner) :=
      fun items hsubset => mapM_congr fun item hitem =>
        ih around (hsettled.part (List.Subset.trans (references_subset item hitem) hsubset))
    cases e with
    | literal bytes => rfl
    | set members => rfl
    | any => rfl
    | inputStart => rfl
    | inputEnd => rfl
    | seq items => simp only [Environment.expand, hitems items (List.Subset.refl _)]
    | choice items => simp only [Environment.expand, hitems items (List.Subset.refl _)]
    | repetition body least most =>
      simp only [Environment.expand, ih around (hsettled.part (List.Subset.refl body.references))]
    | lookahead kind body =>
      simp only [Environment.expand, ih around (hsettled.part (List.Subset.refl body.references))]
    | ref name pos =>
      have href : (name, pos) ∈ (Expr.ref name pos).references := List.mem_singleton.mpr rfl
      have hbody : ∀ key entry, env.lookup name owner = .ok (key, entry) →
          env'.expand levels (key :: around) key.owner entry.body =
            env.expand levels (key :: around) key.owner entry.body := by
        intro key entry hfound
        -- From here on the expression is one of a package, where all names are settled.
        have howner := (lookup_eq_ok.mp hfound).owner_isSome (hsettled.inside name pos href)
        exact ih (key :: around) (h.settled howner entry.body)
      simp only [Environment.expand,
        resolve_congr around pos (hsettled.same name pos href) hbody]

/-! ## Compiling -/

/-- All references of the expression have prefixes, and none that the request sets. -/
def Request.Spares (request : Request) (e : Expr) : Prop :=
  ∀ name pos, (name, pos) ∈ e.references →
    ∃ qualifier, name.qualifier = some qualifier ∧ qualifier ∉ request.prefixes

/-- An expression that a request at top level spares is settled. -/
theorem Effect.settled (h : env.Effect env' request) (hnone : request.package? = none)
    (hspares : request.Spares e) : env.Settled env' none e where
  same name pos href := by
    obtain ⟨qualifier, hqualifier, hother⟩ := hspares name pos href
    exact (h.samePackages hnone).lookup_qualified hqualifier (h.imports hother)
  inside name pos href := by
    obtain ⟨qualifier, hqualifier, -⟩ := hspares name pos href
    exact .inr (hqualifier ▸ rfl)

/-- Packages are hygienic: where a source without package declaration is loaded or a package is
shown, an expression all of whose references have prefixes that this does not set is compiled to the
same program with the same warnings, or refused with the same problems, as before. -/
theorem compile_hygienic {text : String} (hanswer : env.answer request = .ok env')
    (hnone : request.package? = none) (hspares : ∀ e, Expr.ofText text = .ok e → request.Spares e) :
    env'.compile text = env.compile text := by
  have heffect := effect_of_answer hanswer
  rw [compile, compile]
  cases hread : Expr.ofText text with
  | error v => rfl
  | ok e =>
    dsimp only
    rw [compileExpr, compileExpr, (heffect.samePackages hnone).expand patternDepthLimit []
      (heffect.settled hnone (hspares e hread))]

/-- Two packages that are shown, the first of which has a local name and uses one of the second. -/
def pairedPackages : Environment where
  top.imports := ⟨[("p", "p"), ("q", "q")]⟩
  packages := ⟨[
    ("p", {
      scope.imports := ⟨[("q", "q")]⟩
      scope.bindings := ⟨[("digit", ⟨.literal [0x30], false, true⟩),
        ("number", ⟨.seq [.ref ⟨none, "digit"⟩ 1, .ref ⟨some "q", "sep"⟩ 7], false, false⟩)]⟩
      origin := none }),
    ("q", { scope.bindings := ⟨[("sep", ⟨.literal [0x2c], false, false⟩)]⟩, origin := none })]⟩

/-- A source that defines all names of the packages anew at top level, one of them as local. -/
def shadowingSource : Request :=
  .load "import q as n\ndigit = n.sep\nlocal number = digit\nsep = number" none

/-- The names of the source at top level are not those of the packages. -/
theorem compile_hygienic_shadowingSource :
    let text := "{p.number q.sep}"
    pairedPackages.answer shadowingSource = .ok (pairedPackages.serve shadowingSource) ∧
      shadowingSource.package? = none ∧
      (∀ e, Expr.ofText text = .ok e → shadowingSource.Spares e) ∧
      (pairedPackages.serve shadowingSource).compile text = pairedPackages.compile text := by
  intro text
  have hanswer := answer_of_isOk (show (pairedPackages.answer shadowingSource).isOk by cbv)
  have hnone : shadowingSource.package? = none := by cbv
  have hprefixes : shadowingSource.prefixes = ["n"] := by cbv
  have hread : Expr.ofText text =
      .ok (.seq [.ref ⟨some "p", "number"⟩ 2, .ref ⟨some "q", "sep"⟩ 11]) := by cbv
  have hspares : ∀ e, Expr.ofText text = .ok e → shadowingSource.Spares e := by
    intro e he name pos href
    cases hread.symm.trans he
    rw [hprefixes]
    rcases List.mem_cons.mp href with h | h
    · cases h
      exact ⟨"p", rfl, by decide⟩
    · cases List.mem_singleton.mp h
      exact ⟨"q", rfl, by decide⟩
  exact ⟨hanswer, hnone, hspares, compile_hygienic hanswer hnone hspares⟩

end Environment

end PatternEngine
