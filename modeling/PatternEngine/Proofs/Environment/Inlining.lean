import Mathlib.Data.List.Forall2
import PatternEngine.Environment.Compile

/-!
# Inlining as a relation

What an expression stands for in the scope that it was written in is said here without a memo, a
stack of bindings or a count of levels: every reference is replaced by what the expression of its
binding stands for in the scope of that binding, under the name of the binding unless it is an
alias. The relation determines the pattern, and the pattern of a reference is one level higher
than that of its binding.
-/

namespace PatternEngine

namespace Pattern

mutual

/-- The number of levels of a pattern. -/
def height : Pattern → Nat
  | .literal _ | .set _ | .any | .inputStart | .inputEnd => 1
  | .seq items | .choice items => heightOfAll items + 1
  | .repetition body _ _ | .lookahead _ body | .capture _ body | .transparent body =>
    height body + 1

/-- The number of levels of the highest pattern of a list. -/
def heightOfAll : List Pattern → Nat
  | [] => 0
  | item :: items => max (height item) (heightOfAll items)

end

end Pattern

/-- The pattern of a binding around that of its expression. -/
def Entry.around (entry : Entry) (key : BindingKey) (body : Pattern) : Pattern :=
  if entry.isAlias then .transparent body else .capture key.display body

/-- The pattern of a binding is one level higher than that of its expression. -/
@[simp] theorem Entry.height_around (entry : Entry) (key : BindingKey) (body : Pattern) :
    (entry.around key body).height = body.height + 1 := by
  unfold Entry.around
  split <;> rfl

namespace Environment

variable {env : Environment} {owner : Option String} {name : Ident} {key : BindingKey}
  {entry : Entry}

/-- What a key is bound to. -/
def binding? (env : Environment) (key : BindingKey) : Option Entry :=
  (env.scopeOf? key.owner).bind (·.bindings.find? key.base)

/-- The rules of scope: a name is looked for in the scope it was written in, and a name behind a
prefix in the package that this scope imports under the prefix, where it must not be local. -/
inductive Resolves (env : Environment) (owner : Option String) :
    Ident → BindingKey → Entry → Prop where
  | own {scope : Scope} {base : String} {entry : Entry} (hs : env.scopeOf? owner = some scope)
      (hb : scope.bindings.find? base = some entry) :
      Resolves env owner ⟨none, base⟩ ⟨owner, base⟩ entry
  | imported {scope : Scope} {qualifier base package : String} {loaded : Package} {entry : Entry}
      (hs : env.scopeOf? owner = some scope)
      (hi : scope.imports.find? qualifier = some package)
      (hp : env.packages.find? package = some loaded)
      (hb : loaded.scope.bindings.find? base = some entry) (hl : entry.isLocal = false) :
      Resolves env owner ⟨some qualifier, base⟩ ⟨some package, base⟩ entry

/-- The look-up of a name follows the rules of scope. -/
theorem lookup_eq_ok : env.lookup name owner = .ok (key, entry) ↔
    env.Resolves owner name key entry := by
  obtain ⟨qualifier, base⟩ := name
  constructor
  · intro h
    unfold lookup at h
    split at h
    · cases h
    · rename_i scope hs
      cases qualifier with
      | none =>
        dsimp only at h
        split at h
        · cases h
        · rename_i found hb
          cases h
          exact .own hs hb
      | some qualifier =>
        dsimp only at h
        split at h
        · cases h
        · rename_i package hi
          split at h
          · cases h
          · rename_i loaded hp
            split at h
            · cases h
            · rename_i found hb
              split at h
              · cases h
              · rename_i hl
                cases h
                exact .imported hs hi hp hb (Bool.eq_false_iff.mpr hl)
  · intro h
    cases h with
    | own hs hb => simp [lookup, hs, hb]
    | imported hs hi hp hb hl => simp [lookup, hs, hi, hp, hb, hl]

/-- A name resolves in one way. -/
theorem Resolves.unique {key' : BindingKey} {entry' : Entry} (h : env.Resolves owner name key entry)
    (h' : env.Resolves owner name key' entry') : key = key' ∧ entry = entry' := by
  have he := (lookup_eq_ok.mpr h).symm.trans (lookup_eq_ok.mpr h')
  cases he
  exact ⟨rfl, rfl⟩

/-- What a name resolves to is bound, so its key alone tells what it stands for. -/
theorem Resolves.binding?_eq (h : env.Resolves owner name key entry) :
    env.binding? key = some entry := by
  cases h with
  | own hs hb => simp [binding?, hs, hb]
  | imported hs hi hp hb hl => simp [binding?, scopeOf?, hp, hb]

/-- In the scope of a package, or at top level, the expression stands for this pattern. -/
inductive Inlines (env : Environment) : Option String → Expr → Pattern → Prop where
  | literal {owner : Option String} {bytes : Bytes} :
      Inlines env owner (.literal bytes) (.literal (.ofBytes bytes))
  | set {owner : Option String} {members : ByteSet} :
      Inlines env owner (.set members) (.set members)
  | any {owner : Option String} : Inlines env owner .any .any
  | inputStart {owner : Option String} : Inlines env owner .inputStart .inputStart
  | inputEnd {owner : Option String} : Inlines env owner .inputEnd .inputEnd
  | seqNil {owner : Option String} : Inlines env owner (.seq []) (.seq [])
  | seqCons {owner : Option String} {e : Expr} {es : List Expr} {p : Pattern} {ps : List Pattern}
      (h : Inlines env owner e p) (hrest : Inlines env owner (.seq es) (.seq ps)) :
      Inlines env owner (.seq (e :: es)) (.seq (p :: ps))
  | choiceNil {owner : Option String} : Inlines env owner (.choice []) (.choice [])
  | choiceCons {owner : Option String} {e : Expr} {es : List Expr} {p : Pattern}
      {ps : List Pattern} (h : Inlines env owner e p)
      (hrest : Inlines env owner (.choice es) (.choice ps)) :
      Inlines env owner (.choice (e :: es)) (.choice (p :: ps))
  | repetition {owner : Option String} {e : Expr} {p : Pattern} {least : Nat} {most : Option Nat}
      (h : Inlines env owner e p) :
      Inlines env owner (.repetition e least most) (.repetition p least most)
  | lookahead {owner : Option String} {kind : Lookahead} {e : Expr} {p : Pattern}
      (h : Inlines env owner e p) : Inlines env owner (.lookahead kind e) (.lookahead kind p)
  /-- A reference stands for its binding, whose expression is read in the scope of the binding. -/
  | ref {owner : Option String} {name : Ident} {pos : Nat} {key : BindingKey} {entry : Entry}
      {p : Pattern} (hr : env.Resolves owner name key entry)
      (h : Inlines env key.owner entry.body p) :
      Inlines env owner (.ref name pos) (entry.around key p)

/-- An expression stands for one pattern. -/
theorem Inlines.unique {e : Expr} {p q : Pattern} (h : env.Inlines owner e p)
    (h' : env.Inlines owner e q) : p = q := by
  induction h generalizing q with
  | literal | set | any | inputStart | inputEnd | seqNil | choiceNil => cases h'; rfl
  | seqCons _ _ ih ihr =>
    cases h' with
    | seqCons h hr =>
      obtain rfl := Pattern.seq.inj (ihr hr)
      rw [ih h]
  | choiceCons _ _ ih ihr =>
    cases h' with
    | choiceCons h hr =>
      obtain rfl := Pattern.choice.inj (ihr hr)
      rw [ih h]
  | repetition _ ih =>
    cases h' with
    | repetition h => rw [ih h]
  | lookahead _ ih =>
    cases h' with
    | lookahead h => rw [ih h]
  | ref hr _ ih =>
    cases h' with
    | ref hr' h =>
      obtain ⟨rfl, rfl⟩ := hr.unique hr'
      rw [ih h]

/-- The patterns of a sequence are those of its items. -/
theorem inlines_seq_iff {es : List Expr} {q : Pattern} : env.Inlines owner (.seq es) q ↔
    ∃ ps, List.Forall₂ (env.Inlines owner) es ps ∧ q = .seq ps := by
  constructor
  · intro h
    induction es generalizing q with
    | nil =>
      cases h
      exact ⟨[], .nil, rfl⟩
    | cons e es ih =>
      cases h with
      | seqCons h hrest =>
        obtain ⟨ps, hps, he⟩ := ih hrest
        cases he
        exact ⟨_, .cons h hps, rfl⟩
  · rintro ⟨ps, hps, rfl⟩
    induction hps with
    | nil => exact .seqNil
    | cons h _ ih => exact .seqCons h ih

/-- The patterns of a choice are those of its alternatives. -/
theorem inlines_choice_iff {es : List Expr} {q : Pattern} : env.Inlines owner (.choice es) q ↔
    ∃ ps, List.Forall₂ (env.Inlines owner) es ps ∧ q = .choice ps := by
  constructor
  · intro h
    induction es generalizing q with
    | nil =>
      cases h
      exact ⟨[], .nil, rfl⟩
    | cons e es ih =>
      cases h with
      | choiceCons h hrest =>
        obtain ⟨ps, hps, he⟩ := ih hrest
        cases he
        exact ⟨_, .cons h hps, rfl⟩
  · rintro ⟨ps, hps, rfl⟩
    induction hps with
    | nil => exact .choiceNil
    | cons h _ ih => exact .choiceCons h ih

/-- The pattern of a repetition is a repetition of that of its body. -/
theorem inlines_repetition_iff {e : Expr} {least : Nat} {most : Option Nat} {q : Pattern} :
    env.Inlines owner (.repetition e least most) q ↔
      ∃ p, env.Inlines owner e p ∧ q = .repetition p least most := by
  constructor
  · intro h
    cases h with
    | repetition hp => exact ⟨_, hp, rfl⟩
  · rintro ⟨p, hp, rfl⟩
    exact .repetition hp

/-- The pattern of a predicate is a predicate on that of its operand. -/
theorem inlines_lookahead_iff {e : Expr} {kind : Lookahead} {q : Pattern} :
    env.Inlines owner (.lookahead kind e) q ↔
      ∃ p, env.Inlines owner e p ∧ q = .lookahead kind p := by
  constructor
  · intro h
    cases h with
    | lookahead hp => exact ⟨_, hp, rfl⟩
  · rintro ⟨p, hp, rfl⟩
    exact .lookahead hp

/-- The patterns of a reference are around those of its binding. -/
theorem inlines_ref_iff {pos : Nat} {q : Pattern} (hr : env.Resolves owner name key entry) :
    env.Inlines owner (.ref name pos) q ↔
      ∃ p, env.Inlines key.owner entry.body p ∧ q = entry.around key p := by
  constructor
  · intro h
    cases h with
    | ref hr' hp =>
      obtain ⟨rfl, rfl⟩ := hr.unique hr'
      exact ⟨_, hp, rfl⟩
  · rintro ⟨p, hp, rfl⟩
    exact .ref hr hp

/-- A reference in an expression is to a binding whose expression stands for a lower pattern. -/
theorem Inlines.lower {e : Expr} {p : Pattern} {pos : Nat} (h : env.Inlines owner e p)
    (hm : (name, pos) ∈ e.references) : ∃ key entry q, env.Resolves owner name key entry ∧
      env.Inlines key.owner entry.body q ∧ q.height < p.height := by
  induction h with
  | literal | set | any | inputStart | inputEnd | seqNil | choiceNil => cases hm
  | seqCons _ _ ih ihr | choiceCons _ _ ih ihr =>
    rw [Expr.references, Expr.referencesOfAll, List.mem_append] at hm
    rw [Pattern.height] at ihr ⊢
    rw [Pattern.heightOfAll]
    rcases hm with hm | hm
    · obtain ⟨key, entry, q, hr, hq, hlt⟩ := ih hm
      exact ⟨key, entry, q, hr, hq, by omega⟩
    · obtain ⟨key, entry, q, hr, hq, hlt⟩ := ihr hm
      exact ⟨key, entry, q, hr, hq, by omega⟩
  | repetition _ ih | lookahead _ ih =>
    obtain ⟨key, entry, q, hr, hq, hlt⟩ := ih hm
    exact ⟨key, entry, q, hr, hq, Nat.lt_succ_of_lt hlt⟩
  | ref hr h _ =>
    cases List.mem_singleton.mp hm
    exact ⟨_, _, _, hr, h, by simp⟩

end Environment

end PatternEngine
