import PatternEngine.Proofs.Environment.References

/-!
# The expander against the relation

Compiling keeps the pattern of each binding it has met, a stack of the bindings it is inside and
the number of levels that are left. It accepts exactly the expressions that stand for a pattern
of few enough levels, and the program is that pattern.

Two statements about an expansion are carried through it together. Where nothing is wrong in the
end, the result is the pattern and the memo still holds only patterns of its keys. Where there is
a pattern, no problem is noted and there are too few levels exactly when the pattern has more;
the stack never holds the binding that is met, whose pattern would be inside itself.
-/

namespace PatternEngine

/-- A pattern with its number of levels. -/
def Pattern.sized (p : Pattern) : Sized := ⟨p, p.height⟩

@[simp] theorem Pattern.sized_pattern (p : Pattern) : p.sized.pattern = p := rfl

@[simp] theorem Pattern.sized_height (p : Pattern) : p.sized.height = p.height := rfl

/-- The levels of a list are counted from the left as from the right. -/
private theorem foldl_max_height (ps : List Pattern) (n : Nat) :
    ((ps.map Pattern.sized).map (·.height)).foldl max n = max n (Pattern.heightOfAll ps) := by
  induction ps generalizing n with
  | nil => simp [Pattern.heightOfAll]
  | cons p ps ih =>
    simp only [List.map_cons, List.foldl_cons, Pattern.sized_height, Pattern.heightOfAll, ih]
    omega

/-- A pattern around several others has one level more than the highest. -/
theorem Sized.wrapAll_sized (f : List Pattern → Pattern) (ps : List Pattern) :
    Sized.wrapAll f (ps.map Pattern.sized) = ⟨f ps, Pattern.heightOfAll ps + 1⟩ := by
  rw [Sized.wrapAll, foldl_max_height]
  simp [Function.comp_def]

/-- The pattern of a binding around a pattern that is known with its levels. -/
theorem Environment.wrapBinding_sized (key : BindingKey) (entry : Entry) (p : Pattern) :
    wrapBinding key entry p.sized = (entry.around key p).sized := by
  unfold wrapBinding Entry.around
  cases entry.isAlias <;> rfl

namespace Expansion

/-- Nothing is wrong so far. -/
def Clean (state : Expansion) : Prop := state.problems = [] ∧ state.tooDeep = false

/-- Every pattern in the memo is that of its binding. -/
def Valid (env : Environment) (state : Expansion) : Prop :=
  ∀ key sized, state.memo.lookup key = some sized → ∃ entry p, env.binding? key = some entry ∧
    env.Inlines key.owner entry.body p ∧ sized = (entry.around key p).sized

@[simp] theorem problems_overflow (state : Expansion) :
    state.overflow.problems = state.problems := rfl

@[simp] theorem tooDeep_overflow (state : Expansion) : state.overflow.tooDeep = true := rfl

@[simp] theorem problems_remember (state : Expansion) (key : BindingKey) (sized : Sized) :
    (state.remember key sized).problems = state.problems := by
  unfold remember
  split <;> rfl

@[simp] theorem tooDeep_remember (state : Expansion) (key : BindingKey) (sized : Sized) :
    (state.remember key sized).tooDeep = state.tooDeep := by
  unfold remember
  split <;> rfl

theorem clean_remember {state : Expansion} {key : BindingKey} {sized : Sized} :
    (state.remember key sized).Clean ↔ state.Clean := by
  simp [Clean]

theorem not_clean_overflow (state : Expansion) : ¬ state.overflow.Clean := by
  simp [Clean]

theorem not_clean_report (state : Expansion) (cause : CompileCause) (name : Ident) (pos : Nat) :
    ¬ (state.report cause name pos).Clean := by
  simp [Clean, report]

/-- The memo takes in the pattern of a binding. -/
theorem Valid.remember {env : Environment} {state : Expansion} {key : BindingKey} {entry : Entry}
    {p : Pattern} (h : state.Valid env) (he : env.binding? key = some entry)
    (hp : env.Inlines key.owner entry.body p) :
    (state.remember key (entry.around key p).sized).Valid env := by
  unfold Expansion.remember
  split
  · exact h
  · intro other sized hl
    rw [lookup_cons_ite] at hl
    split at hl
    · rename_i ho
      subst ho
      cases hl
      exact ⟨entry, p, he, hp, rfl⟩
    · exact h other sized hl

end Expansion

namespace Environment

/-- What is to be put in place of a part of an expression: which patterns stand for it, how many
levels they have and in what form they are returned. -/
structure Target (α β : Type) where
  /-- These stand for the part. -/
  stands : α → Prop
  /-- The number of levels. -/
  height : α → Nat
  /-- The form in which they are returned. -/
  form : α → β

/-- The pattern of one expression. -/
def target (env : Environment) (owner : Option String) (e : Expr) : Target Pattern Sized :=
  ⟨env.Inlines owner e, Pattern.height, Pattern.sized⟩

/-- The patterns of a list of expressions. -/
def targets (env : Environment) (owner : Option String) (es : List Expr) :
    Target (List Pattern) (List Sized) :=
  ⟨List.Forall₂ (env.Inlines owner) es, Pattern.heightOfAll, List.map Pattern.sized⟩

/-- The bindings on the stack stand for patterns of at least so many levels. -/
def Surrounds (env : Environment) (around : List BindingKey) (levels : Nat) : Prop :=
  ∀ key entry p, key ∈ around → env.binding? key = some entry →
    env.Inlines key.owner entry.body p → levels ≤ p.height

theorem Surrounds.mono {env : Environment} {around : List BindingKey} {n m : Nat}
    (h : env.Surrounds around n) (hle : m ≤ n) : env.Surrounds around m :=
  fun key entry p hk he hp => Nat.le_trans hle (h key entry p hk he hp)

/-- A binding is put on the stack for the time that its expression is expanded. -/
theorem Surrounds.push {env : Environment} {around : List BindingKey} {key : BindingKey}
    {entry : Entry} {p : Pattern} (h : env.Surrounds around (p.height + 1))
    (he : env.binding? key = some entry) (hp : env.Inlines key.owner entry.body p) :
    env.Surrounds (key :: around) p.height := by
  intro other entry' q hk he' hq
  rcases List.mem_cons.mp hk with rfl | hk
  · cases he.symm.trans he'
    cases hp.unique hq
    exact Nat.le_refl _
  · exact Nat.le_of_succ_le (h other entry' q hk he' hq)

/-- What is known about the outcome of an expansion with so many levels left. -/
structure Expands {α β : Type} (env : Environment) (around : List BindingKey) (levels : Nat)
    (goal : Target α β) (before : Expansion) (outcome : β × Expansion) : Prop where
  /-- Where nothing is wrong in the end, nothing was before and the result is the pattern. -/
  sound : outcome.2.Clean → before.Clean ∧ (before.Valid env → outcome.2.Valid env ∧
    ∃ p, goal.stands p ∧ goal.height p ≤ levels ∧ outcome.1 = goal.form p)
  /-- Where there is a pattern, nothing can be wrong but its height. -/
  complete : ∀ p, goal.stands p → env.Surrounds around (goal.height p) → before.Clean →
    before.Valid env →
      outcome.2.problems = [] ∧ (outcome.2.tooDeep = true ↔ levels < goal.height p)

section Steps

variable {env : Environment} {around : List BindingKey} {levels : Nat} {owner : Option String}
  {before : Expansion}

/-- Without levels nothing is expanded, and every pattern would have one. -/
theorem expands_overflow {e : Expr} :
    env.Expands around 0 (env.target owner e) before (.absent, before.overflow) where
  sound h := absurd h before.not_clean_overflow
  complete p hp _ hc _ := by
    have hpos : 0 < p.height := by cases hp <;> simp [Pattern.height]
    exact ⟨hc.1, by simpa [target] using hpos⟩

/-- A part that stands for one pattern of one level. -/
theorem expands_leaf {e : Expr} {p : Pattern} (hp : env.Inlines owner e p) (hh : p.height = 1) :
    env.Expands around (levels + 1) (env.target owner e) before (.leaf p, before) where
  sound h := ⟨h, fun hv => ⟨hv, p, hp, by simp [target, hh],
    by simp [target, Pattern.sized, Sized.leaf, hh]⟩⟩
  complete q hq _ hc _ := by
    cases hp.unique hq
    refine ⟨hc.1, ?_⟩
    rw [hc.2]
    simp [target, hh]

/-- One level around the parts. -/
theorem Expands.wrap {α α' β β' : Type} {inner : Target α β} {outer : Target α' β'} {f : α → α'}
    {g : β → β'} {outcome : β × Expansion} (h : env.Expands around levels inner before outcome)
    (hstands : ∀ q, outer.stands q ↔ ∃ p, inner.stands p ∧ q = f p)
    (hheight : ∀ p, outer.height (f p) = inner.height p + 1)
    (hform : ∀ p, outer.form (f p) = g (inner.form p)) :
    env.Expands around (levels + 1) outer before (g outcome.1, outcome.2) where
  sound hc := by
    obtain ⟨hb, hv⟩ := h.sound hc
    refine ⟨hb, fun hvalid => ?_⟩
    obtain ⟨ha, p, hp, hle, he⟩ := hv hvalid
    refine ⟨ha, f p, (hstands _).mpr ⟨p, hp, rfl⟩, ?_, ?_⟩
    · rw [hheight]
      exact Nat.succ_le_succ hle
    · rw [hform, he]
  complete q hq hs hc hv := by
    obtain ⟨p, hp, rfl⟩ := (hstands q).mp hq
    rw [hheight] at hs ⊢
    obtain ⟨hproblems, hdeep⟩ := h.complete p hp (hs.mono (Nat.le_succ _)) hc hv
    exact ⟨hproblems, hdeep.trans Nat.succ_lt_succ_iff.symm⟩

/-- The first of several parts is expanded before the others, which are left alone when there were
too few levels for it. -/
theorem Expands.cons {e : Expr} {es : List Expr} {first : Sized × Expansion}
    {rest : List Sized × Expansion}
    (h : env.Expands around levels (env.target owner e) before first)
    (hrest : env.Expands around levels (env.targets owner es) first.2 rest)
    (hidle : first.2.tooDeep = true → rest.2 = first.2) :
    env.Expands around levels (env.targets owner (e :: es)) before
      (first.1 :: rest.1, rest.2) where
  sound hc := by
    obtain ⟨hm, hvm⟩ := hrest.sound hc
    obtain ⟨hb, hvb⟩ := h.sound hm
    refine ⟨hb, fun hvalid => ?_⟩
    obtain ⟨hmid, p, hp, hle, he⟩ := hvb hvalid
    obtain ⟨hafter, ps, hps, hles, hes⟩ := hvm hmid
    refine ⟨hafter, p :: ps, .cons hp hps, Nat.max_le.mpr ⟨hle, hles⟩, ?_⟩
    rw [he, hes]
    rfl
  complete qs hqs hs hc hv := by
    obtain _ | @⟨_, p, _, ps, hp, hps⟩ := hqs
    have hmax : (env.targets owner (e :: es)).height (p :: ps) =
      max p.height (Pattern.heightOfAll ps) := rfl
    rw [hmax] at hs ⊢
    obtain ⟨hproblems, hdeep⟩ := h.complete p hp (hs.mono (Nat.le_max_left _ _)) hc hv
    change _ ↔ levels < p.height at hdeep
    by_cases hfirst : levels < p.height
    · have ht := hdeep.mpr hfirst
      rw [hidle ht]
      exact ⟨hproblems, by simp [ht, hfirst]⟩
    · have hclean : first.2.Clean := ⟨hproblems, Bool.eq_false_iff.mpr (mt hdeep.mp hfirst)⟩
      obtain ⟨hpr, hd⟩ := hrest.complete ps hps (hs.mono (Nat.le_max_right _ _)) hclean
        ((h.sound hclean).2 hv).1
      refine ⟨hpr, hd.trans ?_⟩
      change levels < Pattern.heightOfAll ps ↔ _
      omega

/-- What is done with a reference, by what its name resolves to and what the memo and the stack
hold. -/
theorem run_resolve {body : List BindingKey → Option String → Expr → StateM Expansion Sized}
    {name : Ident} {pos : Nat} : (env.resolve levels body around owner name pos).run before =
      match env.lookup name owner with
      | .error cause => (.absent, before.report cause name pos)
      | .ok (key, entry) =>
        match before.memo.lookup key with
        | some sized =>
          if levels < sized.height then (.absent, before.overflow) else (sized, before)
        | none =>
          if around.contains key then (.absent, before.report (.recursive name) name pos)
          else
            let inner := (body (key :: around) key.owner entry.body).run before
            let sized := wrapBinding key entry inner.1
            (sized, inner.2.remember key sized) := by
  unfold resolve
  cases env.lookup name owner with
  | error cause => rfl
  | ok found =>
    obtain ⟨key, entry⟩ := found
    simp only [StateT.run_bind, StateT.run_get, pure_bind]
    cases before.memo.lookup key with
    | some sized =>
      dsimp only
      split <;> rfl
    | none =>
      dsimp only
      split <;> rfl

/-- A pattern from the memo is used where it has few enough levels. -/
theorem expands_kept {e : Expr} {sized : Sized} (hdeep : before.tooDeep = false)
    (hkept : before.Valid env → ∃ p, env.Inlines owner e p ∧ sized = p.sized) :
    env.Expands around levels (env.target owner e) before
      (if levels < sized.height then (.absent, before.overflow) else (sized, before)) := by
  split
  · rename_i hlt
    refine ⟨fun hc => absurd hc before.not_clean_overflow, fun q hq _ hc hv => ?_⟩
    obtain ⟨p, hp, rfl⟩ := hkept hv
    cases hp.unique hq
    exact ⟨hc.1, iff_of_true rfl hlt⟩
  · rename_i hle
    refine ⟨fun hc => ⟨hc, fun hv => ?_⟩, fun q hq _ hc hv => ?_⟩
    · obtain ⟨p, hp, rfl⟩ := hkept hv
      exact ⟨hv, p, hp, Nat.not_lt.mp hle, rfl⟩
    · obtain ⟨p, hp, rfl⟩ := hkept hv
      cases hp.unique hq
      exact ⟨hc.1, iff_of_false (by simp [hdeep]) hle⟩

/-- A binding is kept with its pattern, one level around that of its expression, in which it is
not met again. -/
theorem Expands.binding {name : Ident} {pos : Nat} {key : BindingKey} {entry : Entry}
    {inner : Sized × Expansion} (hr : env.Resolves owner name key entry)
    (h : env.Expands (key :: around) levels (env.target key.owner entry.body) before inner) :
    env.Expands around (levels + 1) (env.target owner (.ref name pos)) before
      (wrapBinding key entry inner.1, inner.2.remember key (wrapBinding key entry inner.1)) where
  sound hc := by
    obtain ⟨hb, hv⟩ := h.sound (Expansion.clean_remember.mp hc)
    refine ⟨hb, fun hvalid => ?_⟩
    obtain ⟨hmid, p, hp, hle, hform⟩ := hv hvalid
    have hsized : wrapBinding key entry inner.1 = (entry.around key p).sized := by
      rw [hform]
      exact wrapBinding_sized key entry p
    rw [hsized]
    refine ⟨hmid.remember hr.binding?_eq hp, _, .ref hr hp, ?_, rfl⟩
    simpa [target] using hle
  complete q hq hs hc hv := by
    obtain ⟨p, hp, rfl⟩ := (inlines_ref_iff hr).mp hq
    have hheight : (env.target owner (.ref name pos)).height (entry.around key p) = p.height + 1 :=
      entry.height_around key p
    rw [hheight] at hs ⊢
    obtain ⟨hproblems, hdeep⟩ := h.complete p hp (hs.push hr.binding?_eq hp) hc hv
    refine ⟨by simpa using hproblems, ?_⟩
    simpa [target] using hdeep

/-- A reference that cannot be followed leaves a problem, and stands for nothing. -/
theorem expands_report {e : Expr} {cause : CompileCause} {name : Ident} {pos : Nat}
    (hno : ∀ p, env.Inlines owner e p → ¬ env.Surrounds around p.height) :
    env.Expands around levels (env.target owner e) before
      (.absent, before.report cause name pos) where
  sound hc := absurd hc (before.not_clean_report cause name pos)
  complete p hp hs _ _ := absurd hs (hno p hp)

/-- A reference is expanded as its binding, given that the expression of the binding is expanded
with one level less. -/
theorem expands_resolve
    {body : List BindingKey → Option String → Expr → StateM Expansion Sized} {name : Ident}
    {pos : Nat} (hdeep : before.tooDeep = false)
    (hbody : ∀ around owner e, env.Expands around levels (env.target owner e) before
      ((body around owner e).run before)) :
    env.Expands around (levels + 1) (env.target owner (.ref name pos)) before
      ((env.resolve (levels + 1) body around owner name pos).run before) := by
  rw [run_resolve]
  cases hl : env.lookup name owner with
  | error cause =>
    refine expands_report fun p hp => ?_
    cases hp with
    | ref hr _ => cases hl.symm.trans (lookup_eq_ok.mpr hr)
  | ok found =>
    obtain ⟨key, entry⟩ := found
    have hr : env.Resolves owner name key entry := lookup_eq_ok.mp hl
    dsimp only
    cases hmemo : before.memo.lookup key with
    | some sized =>
      refine expands_kept hdeep fun hv => ?_
      obtain ⟨entry', p, he, hp, hs⟩ := hv key sized hmemo
      cases hr.binding?_eq.symm.trans he
      exact ⟨_, .ref hr hp, hs⟩
    | none =>
      dsimp only
      split
      · -- The pattern of the binding would be inside itself.
        rename_i hstack
        refine expands_report fun q hq hs => ?_
        obtain ⟨p, hp, rfl⟩ := (inlines_ref_iff hr).mp hq
        have hle := hs key entry p (List.contains_iff_mem.mp hstack) hr.binding?_eq hp
        rw [Entry.height_around] at hle
        exact Nat.not_succ_le_self _ hle
      · exact (hbody (key :: around) key.owner entry.body).binding hr

/-- An expansion that has found too few levels changes nothing more. -/
theorem run_expand_of_tooDeep (e : Expr) (h : before.tooDeep = true) :
    ((env.expand levels around owner e).run before).2 = before := by
  cases levels with
  | zero =>
    cases before
    cases h
    rfl
  | succ levels =>
    rw [expand.eq_def]
    simp only [StateT.run_bind, StateT.run_get, pure_bind, h, if_true]
    rfl

/-- Several expressions are expanded from the left. -/
theorem run_mapM_cons (e : Expr) (es : List Expr) :
    ((e :: es).mapM (env.expand levels around owner)).run before =
      let first := (env.expand levels around owner e).run before
      let rest := (es.mapM (env.expand levels around owner)).run first.2
      (first.1 :: rest.1, rest.2) := by
  rw [List.mapM_cons]
  rfl

theorem run_mapM_of_tooDeep (es : List Expr) (h : before.tooDeep = true) :
    ((es.mapM (env.expand levels around owner)).run before).2 = before := by
  induction es with
  | nil => rfl
  | cons e es ih =>
    rw [run_mapM_cons]
    dsimp only
    rw [run_expand_of_tooDeep e h, ih]

/-- All parts are expanded if each is, whatever is noted before it. -/
theorem expands_mapM (h : ∀ before e, env.Expands around levels (env.target owner e) before
      ((env.expand levels around owner e).run before)) (es : List Expr) (before : Expansion) :
    env.Expands around levels (env.targets owner es) before
      ((es.mapM (env.expand levels around owner)).run before) := by
  induction es generalizing before with
  | nil =>
    refine ⟨fun hc => ⟨hc, fun hv => ⟨hv, [], .nil, Nat.zero_le _, rfl⟩⟩, fun ps hps _ hc _ => ?_⟩
    cases hps
    exact ⟨hc.1, iff_of_false (Bool.eq_false_iff.mp hc.2) (Nat.not_lt_zero _)⟩
  | cons e es ih =>
    rw [run_mapM_cons]
    exact (h before e).cons (ih _) (run_mapM_of_tooDeep es)

/-- What the expander does with an expression while nothing was found to be too deep. -/
theorem run_expand_succ {e : Expr} (h : before.tooDeep = false) :
    (env.expand (levels + 1) around owner e).run before =
      match e with
      | .literal bytes => (.leaf (.literal (.ofBytes bytes)), before)
      | .set members => (.leaf (.set members), before)
      | .any => (.leaf .any, before)
      | .inputStart => (.leaf .inputStart, before)
      | .inputEnd => (.leaf .inputEnd, before)
      | .seq items =>
        let inner := (items.mapM (env.expand levels around owner)).run before
        (.wrapAll .seq inner.1, inner.2)
      | .choice items =>
        let inner := (items.mapM (env.expand levels around owner)).run before
        (.wrapAll .choice inner.1, inner.2)
      | .repetition body least most =>
        let inner := (env.expand levels around owner body).run before
        (.wrap (.repetition · least most) inner.1, inner.2)
      | .lookahead kind body =>
        let inner := (env.expand levels around owner body).run before
        (.wrap (.lookahead kind) inner.1, inner.2)
      | .ref name pos =>
        (env.resolve (levels + 1) (env.expand levels) around owner name pos).run before := by
  rw [expand.eq_def]
  simp only [StateT.run_bind, StateT.run_get, pure_bind, h, Bool.false_eq_true, if_false]
  cases e <;> rfl

/-- Nothing is claimed about an expansion behind one that had too few levels. -/
theorem expands_of_tooDeep {α β : Type} {goal : Target α β} {outcome : β × Expansion}
    (h : before.tooDeep = true) (hrun : outcome.2 = before) :
    env.Expands around levels goal before outcome where
  sound hc := by
    rw [hrun] at hc
    cases h.symm.trans hc.2
  complete _ _ _ hc _ := by
    cases h.symm.trans hc.2

/-- An expansion accounts for the expression, whatever was noted before it. -/
theorem expands_expand (e : Expr) :
    env.Expands around levels (env.target owner e) before
      ((env.expand levels around owner e).run before) := by
  induction levels generalizing around owner before e with
  | zero => exact expands_overflow
  | succ levels ih =>
    by_cases hdeep : before.tooDeep = true
    · exact expands_of_tooDeep hdeep (run_expand_of_tooDeep e hdeep)
    · have hdeep := Bool.eq_false_iff.mpr hdeep
      rw [run_expand_succ hdeep]
      cases e with
      | literal bytes => exact expands_leaf .literal rfl
      | set members => exact expands_leaf .set rfl
      | any => exact expands_leaf .any rfl
      | inputStart => exact expands_leaf .inputStart rfl
      | inputEnd => exact expands_leaf .inputEnd rfl
      | seq items =>
        exact (expands_mapM (fun _ e => ih e) items before).wrap (fun q => inlines_seq_iff)
          (fun _ => rfl) fun ps => (Sized.wrapAll_sized .seq ps).symm
      | choice items =>
        exact (expands_mapM (fun _ e => ih e) items before).wrap (fun q => inlines_choice_iff)
          (fun _ => rfl) fun ps => (Sized.wrapAll_sized .choice ps).symm
      | repetition body least most =>
        exact (ih body).wrap (fun q => inlines_repetition_iff) (fun _ => rfl) fun _ => rfl
      | lookahead kind body =>
        exact (ih body).wrap (fun q => inlines_lookahead_iff) (fun _ => rfl) fun _ => rfl
      | ref name pos => exact expands_resolve hdeep fun _ _ e => ih e

end Steps

end Environment

end PatternEngine
