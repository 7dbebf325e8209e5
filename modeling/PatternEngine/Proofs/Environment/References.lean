import Mathlib.Data.Fintype.Card
import Mathlib.Data.Set.Finite.List
import Mathlib.Logic.Relation
import PatternEngine.Proofs.Environment.Inlining

/-!
# The graph of references

The keys of the bindings are the vertices, and an edge leads from a binding to each binding that
its expression refers to. An expression stands for a pattern exactly when every reference that is
reached from it resolves and no binding that is reached from it is reached from itself.

Going along an edge lowers the pattern, so where there is a pattern there is no cycle. The graph
is finite, so where there is no cycle going along edges is well-founded, and the patterns are built
by induction on it.
-/

namespace PatternEngine.Environment

variable {env : Environment} {owner : Option String} {e : Expr} {key key' : BindingKey}

/-- The expression refers to the binding. -/
def Refers (env : Environment) (owner : Option String) (e : Expr) (key : BindingKey) : Prop :=
  ∃ name pos entry, (name, pos) ∈ e.references ∧ env.Resolves owner name key entry

/-- The expression of the first binding refers to the second. -/
def Leads (env : Environment) (key key' : BindingKey) : Prop :=
  ∃ entry, env.binding? key = some entry ∧ env.Refers key.owner entry.body key'

/-- The expression leads to the binding through any number of others. -/
def Reaches (env : Environment) (owner : Option String) (e : Expr) (key : BindingKey) : Prop :=
  ∃ first, env.Refers owner e first ∧ Relation.ReflTransGen env.Leads first key

/-- Every reference of the expression itself resolves. -/
def Bound (env : Environment) (owner : Option String) (e : Expr) : Prop :=
  ∀ name pos, (name, pos) ∈ e.references → ∃ key entry, env.Resolves owner name key entry

/-- Every reference that the expression leads to resolves, its own ones among them. -/
def Resolved (env : Environment) (owner : Option String) (e : Expr) : Prop :=
  env.Bound owner e ∧
    ∀ key entry, env.Reaches owner e key → env.binding? key = some entry →
      env.Bound key.owner entry.body

/-- No binding that the expression leads to leads back to itself. -/
def Acyclic (env : Environment) (owner : Option String) (e : Expr) : Prop :=
  ∀ key, env.Reaches owner e key → ¬ Relation.TransGen env.Leads key key

/-- A binding that is referred to leads below the pattern of the expression. -/
theorem Refers.lower {p : Pattern} (h : env.Refers owner e key) (hi : env.Inlines owner e p) :
    ∃ entry q, env.binding? key = some entry ∧ env.Inlines key.owner entry.body q ∧
      q.height < p.height := by
  obtain ⟨name, pos, entry, hm, hr⟩ := h
  obtain ⟨key', entry', q, hr', hq, hlt⟩ := hi.lower hm
  obtain ⟨rfl, rfl⟩ := hr.unique hr'
  exact ⟨entry, q, hr.binding?_eq, hq, hlt⟩

/-- Going along an edge leads to a binding of a lower pattern. -/
theorem Leads.lower {entry : Entry} {p : Pattern} (h : env.Leads key key')
    (he : env.binding? key = some entry) (hi : env.Inlines key.owner entry.body p) :
    ∃ entry' q, env.binding? key' = some entry' ∧ env.Inlines key'.owner entry'.body q ∧
      q.height < p.height := by
  obtain ⟨found, hf, hr⟩ := h
  cases he.symm.trans hf
  exact hr.lower hi

/-- Going along edges leads to a binding of a lower pattern. -/
theorem lower_of_transGen {entry : Entry} {p : Pattern} (h : Relation.TransGen env.Leads key key')
    (he : env.binding? key = some entry) (hi : env.Inlines key.owner entry.body p) :
    ∃ entry' q, env.binding? key' = some entry' ∧ env.Inlines key'.owner entry'.body q ∧
      q.height < p.height := by
  induction h with
  | single hl => exact hl.lower he hi
  | tail _ hl ih =>
    obtain ⟨entry', q, he', hq, hlt⟩ := ih
    obtain ⟨entry'', q', he'', hq', hlt'⟩ := hl.lower he' hq
    exact ⟨entry'', q', he'', hq', Nat.lt_trans hlt' hlt⟩

/-- Every binding that an expression leads to has a pattern if the expression has one. -/
theorem Reaches.inlines {p : Pattern} (h : env.Reaches owner e key)
    (hi : env.Inlines owner e p) :
    ∃ entry q, env.binding? key = some entry ∧ env.Inlines key.owner entry.body q := by
  obtain ⟨first, hf, hl⟩ := h
  obtain ⟨entry, q, he, hq, -⟩ := hf.lower hi
  rcases Relation.reflTransGen_iff_eq_or_transGen.mp hl with rfl | hl
  · exact ⟨entry, q, he, hq⟩
  · obtain ⟨entry', q', he', hq', -⟩ := lower_of_transGen hl he hq
    exact ⟨entry', q', he', hq'⟩

/-- The references of an expression that has a pattern resolve. -/
theorem Inlines.bound {p : Pattern} (h : env.Inlines owner e p) : env.Bound owner e := by
  intro name pos hm
  obtain ⟨key, entry, -, hr, -⟩ := h.lower hm
  exact ⟨key, entry, hr⟩

/-- Every reference that an expression with a pattern leads to resolves. -/
theorem Inlines.resolved {p : Pattern} (h : env.Inlines owner e p) : env.Resolved owner e := by
  refine ⟨h.bound, fun key entry hk he => ?_⟩
  obtain ⟨found, q, hf, hq⟩ := hk.inlines h
  cases he.symm.trans hf
  exact hq.bound

/-- An expression with a pattern leads to no cycle, whose patterns would be lower than
themselves. -/
theorem Inlines.acyclic {p : Pattern} (h : env.Inlines owner e p) : env.Acyclic owner e := by
  intro key hk hc
  obtain ⟨entry, q, he, hq⟩ := hk.inlines h
  obtain ⟨entry', q', he', hq', hlt⟩ := lower_of_transGen hc he hq
  cases he.symm.trans he'
  cases hq.unique hq'
  exact Nat.lt_irrefl _ hlt

mutual

/-- An expression has a pattern if the bindings that it refers to have one. -/
theorem inlines_of_references : ∀ (e : Expr),
    (∀ name pos, (name, pos) ∈ e.references → ∃ key entry q, env.Resolves owner name key entry ∧
      env.Inlines key.owner entry.body q) → ∃ p, env.Inlines owner e p
  | .literal _, _ => ⟨_, .literal⟩
  | .set _, _ => ⟨_, .set⟩
  | .any, _ => ⟨_, .any⟩
  | .inputStart, _ => ⟨_, .inputStart⟩
  | .inputEnd, _ => ⟨_, .inputEnd⟩
  | .ref name pos, h => by
    obtain ⟨key, entry, q, hr, hq⟩ := h name pos (by simp [Expr.references])
    exact ⟨_, .ref hr hq⟩
  | .seq items, h => by
    obtain ⟨ps, hs, -⟩ := inlines_of_referencesOfAll items (by simpa [Expr.references] using h)
    exact ⟨_, hs⟩
  | .choice items, h => by
    obtain ⟨ps, -, hc⟩ := inlines_of_referencesOfAll items (by simpa [Expr.references] using h)
    exact ⟨_, hc⟩
  | .repetition body _ _, h => by
    obtain ⟨p, hp⟩ := inlines_of_references body (by simpa [Expr.references] using h)
    exact ⟨_, .repetition hp⟩
  | .lookahead _ body, h => by
    obtain ⟨p, hp⟩ := inlines_of_references body (by simpa [Expr.references] using h)
    exact ⟨_, .lookahead hp⟩

/-- The expressions of a list have patterns if the bindings that they refer to have one. -/
theorem inlines_of_referencesOfAll : ∀ (items : List Expr),
    (∀ name pos, (name, pos) ∈ Expr.referencesOfAll items →
      ∃ key entry q, env.Resolves owner name key entry ∧ env.Inlines key.owner entry.body q) →
    ∃ ps, env.Inlines owner (.seq items) (.seq ps) ∧ env.Inlines owner (.choice items) (.choice ps)
  | [], _ => ⟨[], .seqNil, .choiceNil⟩
  | item :: items, h => by
    simp only [Expr.referencesOfAll, List.mem_append] at h
    obtain ⟨p, hp⟩ := inlines_of_references item fun name pos hm => h name pos (.inl hm)
    obtain ⟨ps, hs, hc⟩ := inlines_of_referencesOfAll items fun name pos hm => h name pos (.inr hm)
    exact ⟨p :: ps, .seqCons hp hs, .choiceCons hp hc⟩

end

/-- The keys of all bindings, at top level and in the packages. -/
def boundKeys (env : Environment) : List BindingKey :=
  env.top.bindings.keys.map (⟨none, ·⟩) ++
    env.packages.entries.flatMap fun (name, package) =>
      package.scope.bindings.keys.map (⟨some name, ·⟩)

/-- A value is found among the pairs of a dictionary. -/
private theorem mem_entries {α : Type} {d : Dictionary α} {k : String} {v : α}
    (h : d.find? k = some v) : (k, v) ∈ d.entries := by
  obtain ⟨before, after, he, -⟩ := List.lookup_eq_some_iff.mp h
  rw [he]
  exact List.mem_append_right _ List.mem_cons_self

/-- What is bound has one of the keys. -/
theorem mem_boundKeys {entry : Entry} (h : env.binding? key = some entry) :
    key ∈ env.boundKeys := by
  obtain ⟨owner, base⟩ := key
  obtain ⟨scope, hs, hb⟩ := Option.bind_eq_some_iff.mp h
  have hk : base ∈ scope.bindings.keys := List.mem_map_of_mem (mem_entries hb)
  refine List.mem_append.mpr ?_
  cases owner with
  | none =>
    cases hs
    exact .inl (List.mem_map_of_mem hk)
  | some name =>
    obtain ⟨package, hp, rfl⟩ := Option.map_eq_some_iff.mp hs
    exact .inr (List.mem_flatMap.mpr ⟨_, mem_entries hp, List.mem_map_of_mem hk⟩)

/-- What an expression leads to is bound. -/
theorem Reaches.binding? (h : env.Reaches owner e key) :
    ∃ entry, env.binding? key = some entry := by
  obtain ⟨first, ⟨_, _, entry, -, hr⟩, hl⟩ := h
  induction hl with
  | refl => exact ⟨entry, hr.binding?_eq⟩
  | tail _ hl _ =>
    obtain ⟨_, _, _, _, entry', -, hr'⟩ := hl
    exact ⟨entry', hr'.binding?_eq⟩

/-- An expression leads to finitely many bindings. -/
instance finite_reaches : Finite { key // env.Reaches owner e key } := by
  refine Set.Finite.subset (List.finite_toSet env.boundKeys) fun key hk => ?_
  obtain ⟨entry, he⟩ := Reaches.binding? hk
  exact mem_boundKeys he

/-- Where an expression leads to no cycle, going along edges comes to an end. -/
theorem Acyclic.wellFounded (h : env.Acyclic owner e) :
    WellFounded fun (k k' : { key // env.Reaches owner e key }) =>
      Relation.TransGen env.Leads k'.1 k.1 := by
  let below (k k' : { key // env.Reaches owner e key }) := Relation.TransGen env.Leads k'.1 k.1
  have : IsTrans _ below := ⟨fun _ _ _ hl hr => hr.trans hl⟩
  have : Std.Irrefl below := ⟨fun k => h k.1 k.2⟩
  exact Finite.wellFounded_of_trans_of_irrefl below

/-- Every binding that is reached has a pattern if every reference resolves and there is no
cycle. -/
theorem inlines_of_reaches (hb : env.Resolved owner e) (ha : env.Acyclic owner e)
    (reached : { key // env.Reaches owner e key }) :
    ∃ entry q, env.binding? reached.1 = some entry ∧
      env.Inlines reached.1.owner entry.body q := by
  induction reached using ha.wellFounded.induction with
  | h reached ih =>
    obtain ⟨key, hk⟩ := reached
    obtain ⟨entry, he⟩ := hk.binding?
    have hbody : ∃ q, env.Inlines key.owner entry.body q := by
      refine inlines_of_references entry.body fun name pos hm => ?_
      obtain ⟨key', entry', hr⟩ := hb.2 key entry hk he name pos hm
      have hl : env.Leads key key' := ⟨entry, he, name, pos, entry', hm, hr⟩
      obtain ⟨first, hf, hp⟩ := hk
      obtain ⟨found, q, hfound, hq⟩ := ih ⟨key', first, hf, hp.tail hl⟩ (.single hl)
      cases hr.binding?_eq.symm.trans hfound
      exact ⟨key', entry', q, hr, hq⟩
    obtain ⟨q, hq⟩ := hbody
    exact ⟨entry, q, he, hq⟩

/-- An expression stands for a pattern if every reference that it leads to resolves and it leads
to no cycle. -/
theorem inlines_of_acyclic (hb : env.Resolved owner e) (ha : env.Acyclic owner e) :
    ∃ p, env.Inlines owner e p := by
  refine inlines_of_references e fun name pos hm => ?_
  obtain ⟨key, entry, hr⟩ := hb.1 name pos hm
  obtain ⟨found, q, hf, hq⟩ := inlines_of_reaches hb ha
    ⟨key, key, ⟨name, pos, entry, hm, hr⟩, Relation.ReflTransGen.refl⟩
  cases hr.binding?_eq.symm.trans hf
  exact ⟨key, entry, q, hr, hq⟩

/-- An expression stands for a pattern exactly when every reference that it leads to resolves and
it leads to no cycle. -/
theorem exists_inlines_iff :
    (∃ p, env.Inlines owner e p) ↔ env.Resolved owner e ∧ env.Acyclic owner e :=
  ⟨fun ⟨_, hp⟩ => ⟨hp.resolved, hp.acyclic⟩, fun ⟨hb, ha⟩ => inlines_of_acyclic hb ha⟩

end PatternEngine.Environment
