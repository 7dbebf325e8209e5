import PatternEngine.Environment.Load
import PatternEngine.Proofs.Environment.Problems

/-!
# Errors and warnings

What cannot be compiled, stored or loaded is refused for some problems, and all of these are errors.
Of what can be compiled there are warnings at most.
-/

namespace PatternEngine

namespace Violation

/-- All violations are errors but one. -/
theorem isError_iff {v : Violation} :
    v.isError = true ↔ v.cause ≠ .compiling .matchesEmpty := by
  rw [isError, decide_eq_true_iff]
  unfold Cause.severity
  split <;> simp_all

end Violation

/-- The violations are what something is refused for: there are some, and all of them are errors. -/
structure Refusal (problems : List Violation) : Prop where
  ne_nil : problems ≠ []
  isError : ∀ v ∈ problems, v.isError = true

theorem Refusal.singleton {v : Violation} (h : v.isError = true) : Refusal [v] :=
  ⟨List.cons_ne_nil v [], List.forall_mem_singleton.mpr h⟩

theorem Refusal.any_isError {problems : List Violation} (h : Refusal problems) :
    problems.any (·.isError) = true := by
  obtain ⟨v, hv⟩ := List.exists_mem_of_ne_nil _ h.ne_nil
  exact List.any_eq_true.mpr ⟨v, hv, h.isError v hv⟩

/-- If there is no result, something is refused. -/
def Refuses {α : Type} (result : Except (List Violation) α) : Prop :=
  ∀ problems, result = .error problems → Refusal problems

namespace Refuses

variable {α β : Type} {result : Except (List Violation) α}

theorem ok (a : α) : Refuses (.ok a) := nofun

theorem error {problems : List Violation} (h : Refusal problems) :
    Refuses (.error problems : Except (List Violation) α) := by
  rintro _ ⟨⟩
  exact h

theorem bind {next : α → Except (List Violation) β} (h : Refuses result)
    (hnext : ∀ a, Refuses (next a)) : Refuses (result.bind next) := by
  cases result with
  | error problems => exact error (h problems rfl)
  | ok a => exact hnext a

/-- To name the file of a source makes no difference. -/
theorem withOrigin (h : Refuses result) (origin : Option String) :
    Refuses (result.mapError (List.map (Violation.withOrigin origin))) := by
  cases result with
  | error problems =>
    have hrefusal := h problems rfl
    exact error ⟨mt List.map_eq_nil_iff.mp hrefusal.ne_nil,
      List.forall_mem_map.mpr hrefusal.isError⟩
  | ok a => exact ok a

/-- A text that cannot be read is refused. -/
theorem toViolation (read : Except ParseError α) :
    ∀ v, read.mapError ParseError.toViolation = .error v → Refusal [v] := by
  intro v h
  cases read with
  | error problem =>
    cases h
    exact .singleton rfl
  | ok a => cases h

end Refuses

namespace Environment

variable {env : Environment} {text : String} {problems : List Violation}

/-- No reference is refused for matching the empty text. -/
theorem lookup_ne_matchesEmpty {name : Ident} {owner : Option String} {cause : CompileCause}
    (h : env.lookup name owner = .error cause) : cause ≠ .matchesEmpty := by
  rintro rfl
  unfold lookup at h
  repeat' split at h
  all_goals cases h

/-- All problems with an expression are errors. -/
theorem Blames.isError {owner : Option String} {e : Expr} {v : Violation}
    (h : env.Blames owner e v) : v.isError = true := by
  induction h with
  | unresolved _ hlookup =>
    exact Violation.isError_iff.mpr (mt Cause.compiling.inj (lookup_ne_matchesEmpty hlookup))
  | recursive _ => rfl
  | inside _ _ _ ih => exact ih

/-- An expression is compiled or refused. -/
theorem refuses_compile (env : Environment) (text : String) : Refuses (env.compile text) := by
  refine fun problems h => ⟨?_, fun v hv => ?_⟩
  · rintro rfl
    unfold compile at h
    split at h
    · cases h
    · unfold compileExpr at h
      generalize (env.expand patternDepthLimit [] none _).run {} = outcome at h
      obtain ⟨sized, state⟩ := outcome
      dsimp only at h
      split at h
      · cases h
      · rename_i hne
        exact hne (Except.error.inj h)
  · rcases compile_problems h hv with hread | ⟨e, -, rfl | hblames⟩
    · exact (Refuses.toViolation _ v hread).isError v (List.mem_singleton_self v)
    · rfl
    · exact hblames.isError

/-- Of an expression that is compiled there are warnings at most. -/
theorem isError_of_compile {compiled : Compiled} (h : env.compile text = .ok compiled) :
    ∀ v ∈ compiled.warnings, v.isError = false := by
  unfold compile at h
  split at h
  · cases h
  · unfold compileExpr at h
    generalize (env.expand patternDepthLimit [] none _).run {} = outcome at h
    obtain ⟨sized, state⟩ := outcome
    dsimp only at h
    split at h
    · cases h
      intro v hv
      dsimp only at hv
      split at hv
      · rw [List.mem_singleton.mp hv]
        rfl
      · cases hv
    · cases h

/-- A source is read or refused. -/
theorem refuses_readUnit (text : String) : Refuses (readUnit text) := by
  unfold readUnit
  split
  · exact .ok _
  · rename_i hread
    exact .error (Refuses.toViolation _ _ hread)

/-- The names that are bound again are errors, and so are the references that lead nowhere. -/
theorem isError_storing (source : SourceUnit) (outer : Scope) :
    (∀ v ∈ source.repeatedBindings, v.isError = true) ∧
      ∀ v ∈ source.danglingReferences outer, v.isError = true := by
  refine ⟨fun v hv => ?_, fun v hv => ?_⟩
  · obtain ⟨⟨b, first⟩, -, rfl⟩ := List.mem_map.mp hv
    rfl
  · obtain ⟨b, -, hb⟩ := List.mem_flatMap.mp hv
    obtain ⟨⟨reference, pos⟩, -, hreference⟩ := List.mem_filterMap.mp hb
    obtain ⟨cause, -, rfl⟩ := Option.map_eq_some_iff.mp hreference
    rfl

/-- To declare no package is an error, and so is to declare another than the one that is expected.
-/
theorem isError_wrongDeclaration (source : SourceUnit) (expected : String) :
    ∀ v ∈ source.wrongDeclaration expected, v.isError = true := by
  unfold SourceUnit.wrongDeclaration
  split
  · exact List.forall_mem_singleton.mpr rfl
  · split
    · exact nofun
    · exact List.forall_mem_singleton.mpr rfl

/-- A source is stored or refused. -/
theorem refuses_store (env : Environment) (source : SourceUnit) (origin : Option String) :
    Refuses (env.store source origin) := by
  have hall : ∀ outer, ∀ v ∈ source.repeatedBindings ++ source.danglingReferences outer,
      v.isError = true := fun outer => List.forall_mem_append.mpr (isError_storing source outer)
  unfold store
  split <;> split
  · exact .ok _
  · rename_i hne
    exact .error ⟨hne, hall {}⟩
  · exact .ok _
  · rename_i hne
    exact .error ⟨hne, hall env.top⟩

/-- A source is loaded or refused. -/
theorem refuses_load (env : Environment) (text : String) (origin : Option String) :
    Refuses (env.load text origin) :=
  ((refuses_readUnit text).bind fun source => env.refuses_store source origin).withOrigin origin

/-- The source of a package is loaded or refused. -/
theorem refuses_loadPackage (env : Environment) (expected text : String) (origin : Option String) :
    Refuses (env.loadPackage expected text origin) := by
  refine ((refuses_readUnit text).bind fun source => ?_).withOrigin origin
  obtain ⟨hrepeated, hdangling⟩ := isError_storing source {}
  split
  · exact .ok _
  · rename_i hne
    have hdeclaration := isError_wrongDeclaration source expected
    exact .error ⟨hne, List.forall_mem_append.mpr
      ⟨List.forall_mem_append.mpr ⟨hrepeated, hdeclaration⟩, hdangling⟩⟩

end Environment

end PatternEngine
