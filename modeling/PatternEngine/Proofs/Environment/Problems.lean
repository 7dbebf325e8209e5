import PatternEngine.Proofs.Environment.Expansion

/-!
# The problems that are reported

Each problem with an expression, but for the depth of its pattern, is one with a reference: either
with one that is written in the expression, or with one that is written in a binding that the
expression leads to.
-/

namespace PatternEngine.Environment

variable {env : Environment} {around : List BindingKey} {levels : Nat} {owner : Option String}
  {before : Expansion} {e e' : Expr} {v : Violation} {text : String}

/-- The problem with a reference. -/
def referenceProblem (cause : CompileCause) (name : Ident) (pos : Nat) : Violation where
  cause := .compiling cause
  pos := some pos
  fragment := some name.toText

/-- The problem is one with a reference of the expression, or with one of a binding that it leads
to. -/
inductive Blames (env : Environment) : Option String → Expr → Violation → Prop
  /-- A reference that cannot be resolved. -/
  | unresolved {owner : Option String} {e : Expr} {name : Ident} {pos : Nat} {cause : CompileCause}
    (href : (name, pos) ∈ e.references) (hlookup : env.lookup name owner = .error cause) :
    Blames env owner e (referenceProblem cause name pos)
  /-- A reference to a binding that is around it. -/
  | recursive {owner : Option String} {e : Expr} {name : Ident} {pos : Nat}
    (href : (name, pos) ∈ e.references) :
    Blames env owner e (referenceProblem (.recursive name) name pos)
  /-- A problem with the binding that a reference leads to. -/
  | inside {owner : Option String} {e : Expr} {name : Ident} {pos : Nat} {key : BindingKey}
    {entry : Entry} {v : Violation} (href : (name, pos) ∈ e.references)
    (hresolves : env.Resolves owner name key entry) (h : Blames env key.owner entry.body v) :
    Blames env owner e v

/-- The problems with an expression are problems with any other that has its references. -/
theorem Blames.mono (h : env.Blames owner e v) (hsub : e.references ⊆ e'.references) :
    env.Blames owner e' v := by
  cases h with
  | unresolved href hlookup => exact .unresolved (hsub href) hlookup
  | recursive href => exact .recursive (hsub href)
  | inside href hresolves h => exact .inside (hsub href) hresolves h

/-- Further problems were noted, each with the expression. -/
def Notes (env : Environment) (owner : Option String) (e : Expr) (before after : Expansion) :
    Prop :=
  ∀ v ∈ after.problems, v ∈ before.problems ∨ env.Blames owner e v

theorem Notes.refl (before : Expansion) : env.Notes owner e before before := fun _ => .inl

theorem Notes.mono {after : Expansion} (h : env.Notes owner e before after)
    (hsub : e.references ⊆ e'.references) : env.Notes owner e' before after := fun v hv =>
  (h v hv).imp_right fun hblames => hblames.mono hsub

theorem Notes.trans {middle after : Expansion} (h : env.Notes owner e before middle)
    (h' : env.Notes owner e middle after) : env.Notes owner e before after := fun v hv =>
  (h' v hv).elim (h v) .inr

/-- A problem with a reference is one with each expression that has the reference. -/
theorem notes_report {cause : CompileCause} {name : Ident} {pos : Nat}
    (h : env.Blames owner e (referenceProblem cause name pos)) :
    env.Notes owner e before (before.report cause name pos) := by
  intro v hv
  rcases List.mem_append.mp hv with hold | hnew
  · exact .inl hold
  · rw [List.mem_singleton.mp hnew]
    exact .inr h

/-- The problems that are noted with the items of a list are problems with the items. -/
theorem notes_mapM (h : ∀ before item, env.Notes owner item before
      ((env.expand levels around owner item).run before).2) (items : List Expr)
    (hsub : ∀ item ∈ items, item.references ⊆ e.references) (before : Expansion) :
    env.Notes owner e before ((items.mapM (env.expand levels around owner)).run before).2 := by
  induction items generalizing before with
  | nil => exact .refl before
  | cons item items ih =>
    obtain ⟨hitem, hitems⟩ := List.forall_mem_cons.mp hsub
    rw [run_mapM_cons]
    exact ((h before item).mono hitem).trans (ih hitems _)

/-- Resolving a reference notes problems with the reference. -/
theorem notes_resolve {body : List BindingKey → Option String → Expr → StateM Expansion Sized}
    {name : Ident} {pos : Nat}
    (h : ∀ around owner e, env.Notes owner e before ((body around owner e).run before).2) :
    env.Notes owner (.ref name pos) before
      ((env.resolve levels body around owner name pos).run before).2 := by
  have href : (name, pos) ∈ (Expr.ref name pos).references := List.mem_cons_self
  rw [run_resolve]
  cases hlookup : env.lookup name owner with
  | error cause => exact notes_report (.unresolved href hlookup)
  | ok found =>
    obtain ⟨key, entry⟩ := found
    dsimp only
    split
    · split
      · exact .refl before
      · exact .refl before
    · split
      · exact notes_report (.recursive href)
      · intro v hv
        rw [Expansion.problems_remember] at hv
        exact (h _ _ _ v hv).imp_right (.inside href (lookup_eq_ok.mp hlookup))

/-- The references of a list are those of its items. -/
theorem references_subset {items : List Expr} : ∀ item ∈ items,
    item.references ⊆ Expr.referencesOfAll items := by
  induction items with
  | nil => nofun
  | cons item items ih =>
    rw [Expr.referencesOfAll, List.forall_mem_cons]
    exact ⟨List.subset_append_left _ _,
      fun other hother => List.subset_append_of_subset_right _ (ih other hother)⟩

/-- Expanding an expression notes problems with it. -/
theorem notes_expand (e : Expr) :
    env.Notes owner e before ((env.expand levels around owner e).run before).2 := by
  induction levels generalizing around owner before e with
  | zero => exact .refl before
  | succ levels ih =>
    by_cases hdeep : before.tooDeep = true
    · rw [run_expand_of_tooDeep e hdeep]
      exact .refl before
    · rw [run_expand_succ (Bool.eq_false_iff.mpr hdeep)]
      cases e with
      | literal bytes => exact .refl before
      | set members => exact .refl before
      | any => exact .refl before
      | inputStart => exact .refl before
      | inputEnd => exact .refl before
      | seq items => exact notes_mapM (fun _ item => ih item) items references_subset before
      | choice items => exact notes_mapM (fun _ item => ih item) items references_subset before
      | repetition body least most => exact (ih body).mono (List.Subset.refl _)
      | lookahead kind body => exact (ih body).mono (List.Subset.refl _)
      | ref name pos => exact notes_resolve fun _ _ e => ih e

/-- Where an expression does not compile, each problem is that it cannot be read, that its pattern
has too many levels, or one with a reference. -/
theorem compile_problems {problems : List Violation} (h : env.compile text = .error problems)
    (hv : v ∈ problems) : Expr.ofText text = .error v ∨
      ∃ e, Expr.ofText text = .ok e ∧ (v = depthProblem text ∨ env.Blames none e v) := by
  unfold compile at h
  cases hread : Expr.ofText text with
  | error problem =>
    rw [hread] at h
    cases h
    exact .inl (congrArg Except.error (List.mem_singleton.mp hv).symm)
  | ok e =>
    rw [hread] at h
    dsimp only at h
    have hnotes : env.Notes none e {} ((env.expand patternDepthLimit [] none e).run {}).2 :=
      notes_expand e
    refine .inr ⟨e, rfl, ?_⟩
    unfold compileExpr at h
    generalize (env.expand patternDepthLimit [] none e).run {} = outcome at h hnotes
    obtain ⟨sized, state⟩ := outcome
    dsimp only at h
    split at h
    · cases h
    · cases h
      rcases List.mem_append.mp hv with hnoted | hdeep
      · exact .inr ((hnotes v hnoted).resolve_left nofun)
      · split at hdeep
        · exact .inl (List.mem_singleton.mp hdeep)
        · cases hdeep

end PatternEngine.Environment
