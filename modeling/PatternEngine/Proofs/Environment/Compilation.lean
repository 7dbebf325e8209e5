import Mathlib
import PatternEngine.Proofs.Environment.Expansion

/-!
# What compiling accepts

An expression is compiled exactly when it can be read, every reference that it leads to resolves,
it leads to no cycle and its pattern has few enough levels; when only the levels are too many, that
is the one problem reported. The program is the pattern that the expression stands for, as if
every reference were followed anew, so it does not show what the memo held.
-/

namespace PatternEngine

/-- The pattern with its match recorded: as it is when it is a binding that is no alias, and else
without a name. -/
def Pattern.captured : Pattern → Pattern
  | .capture name body => .capture name body
  | body => .capture anonymous body

/-- The root of a program is the pattern it was made of, with its match recorded. -/
theorem Program.root_ofPattern (p : Pattern) (text : String) :
    (ofPattern p text).root = p.captured := by
  cases p <;> rfl

namespace Environment

variable {env : Environment} {e : Expr} {p : Pattern} {text : String}

/-- Nothing is wrong before anything is expanded. -/
private theorem clean_empty : ({} : Expansion).Clean := ⟨rfl, rfl⟩

/-- Nothing is kept before anything is expanded. -/
private theorem valid_empty : ({} : Expansion).Valid env := by
  intro key sized h
  cases h

/-- At top level no binding is around the expression. -/
private theorem surrounds_nil (levels : Nat) : env.Surrounds [] levels := by
  intro key entry p hk
  cases hk

/-- Expanding an expression that stands for a pattern finds no problem but too many levels. -/
private theorem expand_top (hp : env.Inlines none e p) {sized : Sized} {state : Expansion}
    (h : (env.expand patternDepthLimit [] none e).run {} = (sized, state)) :
    state.problems = [] ∧ (state.tooDeep = true ↔ patternDepthLimit < p.height) ∧
      (state.tooDeep = false → sized = p.sized) := by
  have hx : env.Expands [] patternDepthLimit (env.target none e) {} (sized, state) :=
    h ▸ expands_expand e
  obtain ⟨hproblems, hdeep⟩ := hx.complete p hp (surrounds_nil _) clean_empty valid_empty
  refine ⟨hproblems, hdeep, fun hshallow => ?_⟩
  obtain ⟨-, q, hq, -, hform⟩ := (hx.sound ⟨hproblems, hshallow⟩).2 valid_empty
  cases hp.unique hq
  exact hform

/-- An expression that stands for a pattern of few enough levels is compiled to that pattern. -/
theorem compileExpr_of_inlines (hp : env.Inlines none e p) (hle : p.height ≤ patternDepthLimit) :
    ∃ warnings, env.compileExpr e text = .ok ⟨.ofPattern p text, warnings⟩ := by
  unfold compileExpr
  cases h : (env.expand patternDepthLimit [] none e).run {} with
  | mk sized state =>
    obtain ⟨hproblems, hdeep, hsized⟩ := expand_top hp h
    have hshallow : state.tooDeep = false :=
      Bool.eq_false_iff.mpr (mt hdeep.mp (Nat.not_lt.mpr hle))
    simp only [hproblems, hshallow, hsized hshallow]
    exact ⟨_, rfl⟩

/-- Of an expression whose pattern has too many levels nothing else is reported. -/
theorem compileExpr_of_height (hp : env.Inlines none e p) (hlt : patternDepthLimit < p.height) :
    env.compileExpr e text = .error [depthProblem text] := by
  unfold compileExpr
  cases h : (env.expand patternDepthLimit [] none e).run {} with
  | mk sized state =>
    obtain ⟨hproblems, hdeep, -⟩ := expand_top hp h
    simp only [hproblems, hdeep.mpr hlt]
    rfl

/-- An expression that is compiled stands for the pattern of its program, which has few enough
levels. -/
theorem inlines_of_compileExpr {compiled : Compiled}
    (h : env.compileExpr e text = .ok compiled) :
    ∃ p, env.Inlines none e p ∧ p.height ≤ patternDepthLimit ∧
      compiled.program = .ofPattern p text := by
  have hx : env.Expands [] patternDepthLimit (env.target none e) {} _ := expands_expand e
  unfold compileExpr at h
  generalize (env.expand patternDepthLimit [] none e).run {} = outcome at h hx
  obtain ⟨sized, state⟩ := outcome
  dsimp only at h
  split at h
  · rename_i hproblems
    obtain ⟨hnone, hdeep⟩ := List.append_eq_nil_iff.mp hproblems
    have hclean : state.Clean := ⟨hnone, by simpa using hdeep⟩
    obtain ⟨-, p, hp, hle, rfl⟩ := (hx.sound hclean).2 valid_empty
    cases h
    exact ⟨p, hp, hle, rfl⟩
  · cases h

/-- An expression is compiled exactly when it can be read, every reference that it leads to
resolves, it leads to no cycle and its pattern has few enough levels. When only the pattern has too
many levels, that is the one problem. -/
theorem compile_accepts (env : Environment) (text : String) :
    ((∃ compiled, env.compile text = .ok compiled) ↔
      ∃ e, Expr.ofText text = .ok e ∧ env.Resolved none e ∧ env.Acyclic none e ∧
        ∃ p, env.Inlines none e p ∧ p.height ≤ 400) ∧
      ∀ e, Expr.ofText text = .ok e → env.Resolved none e → env.Acyclic none e →
        ∃ p, env.Inlines none e p ∧
          (400 < p.height → env.compile text = .error [depthProblem text]) := by
  refine ⟨⟨fun ⟨compiled, h⟩ => ?_, fun ⟨e, he, _, _, p, hp, hle⟩ => ?_⟩, fun e he hb ha => ?_⟩
  · unfold compile at h
    split at h
    · cases h
    · rename_i e he
      obtain ⟨p, hp, hle, -⟩ := inlines_of_compileExpr h
      obtain ⟨hb, ha⟩ := exists_inlines_iff.mp ⟨p, hp⟩
      exact ⟨e, he, hb, ha, p, hp, hle⟩
  · rw [compile, he]
    obtain ⟨warnings, h⟩ := compileExpr_of_inlines hp hle
    exact ⟨_, h⟩
  · obtain ⟨p, hp⟩ := exists_inlines_iff.mpr ⟨hb, ha⟩
    refine ⟨p, hp, fun hlt => ?_⟩
    rw [compile, he]
    exact compileExpr_of_height hp hlt

/-- The root of a program is the one pattern that its expression stands for, recorded without a
name unless it has one. -/
theorem compile_inlines {compiled : Compiled} (h : env.compile text = .ok compiled) :
    ∃ e p, Expr.ofText text = .ok e ∧ (∀ q, env.Inlines none e q ↔ q = p) ∧
      compiled.program.root = p.captured := by
  unfold compile at h
  split at h
  · cases h
  · rename_i e he
    obtain ⟨p, hp, -, hprogram⟩ := inlines_of_compileExpr h
    refine ⟨e, p, he, fun q => ⟨fun hq => hq.unique hp, fun hq => hq ▸ hp⟩, ?_⟩
    rw [hprogram, Program.root_ofPattern]

/-- A package that is shown under two prefixes and has an alias of one of its own bindings. -/
def twicePrefixed : Environment where
  top.imports := ⟨[("n", "numbers"), ("m", "numbers")]⟩
  packages := ⟨[("numbers", {
    scope.bindings := ⟨[("zero", ⟨.literal [0x30], false, false⟩),
      ("zeros", ⟨.repetition (.ref ⟨none, "zero"⟩ 1) 1 none, true, false⟩)]⟩
    origin := none })]⟩

/-- The pattern of the binding is first met inside the alias and used again behind it, where it is
referred to under another prefix. -/
theorem compile_inlines_twicePrefixed :
    let zero := Pattern.capture "numbers.zero" (.literal (.ofBytes [0x30]))
    let whole := Pattern.seq [.transparent (.repetition zero 1 none), zero]
    twicePrefixed.compile "{m.zeros n.zero}" = .ok ⟨⟨"*", whole, "{m.zeros n.zero}"⟩, []⟩ ∧
      ∃ e p, Expr.ofText "{m.zeros n.zero}" = .ok e ∧
        (∀ q, twicePrefixed.Inlines none e q ↔ q = p) ∧ Pattern.capture "*" whole = p.captured := by
  intro zero whole
  have h : twicePrefixed.compile "{m.zeros n.zero}" =
      .ok ⟨⟨"*", whole, "{m.zeros n.zero}"⟩, []⟩ := by cbv
  exact ⟨h, compile_inlines h⟩

end Environment

end PatternEngine
