import PatternEngine.Proofs.Environment.Compilation
import PatternEngine.Proofs.Environment.DisplayNames
import PatternEngine.Proofs.Match.Dissolving
import PatternEngine.Proofs.Source.Printing

/-!
# Aliases

Whether a binding is an alias concerns the trees of matches and nothing else. An expression that is
compiled with the binding as an alias stands for the pattern that it stands for without, but that
the captures of the binding are transparent, since no other binding is recorded under its name. So
both programs match alike, and the matches of the binding give way to those inside them.
-/

namespace PatternEngine

/-- What a name stands for, without the positions of references. -/
def Entry.unplaced (entry : Entry) : Entry := { entry with body := entry.body.unplaced }

/-- The pattern of a binding that is made an alias. -/
theorem Entry.aliased_around_self {entry found : Entry} {key : BindingKey} {body : Pattern}
    (h : entry.isAlias = false) (hfound : found.isAlias = true) :
    (entry.around key body).aliased key.display = found.around key (body.aliased key.display) := by
  rw [Entry.around, Entry.around, h, hfound]
  exact if_pos rfl

/-- The pattern of a binding that is recorded under another name than those that are made
aliases. -/
theorem Entry.aliased_around_of_ne {entry found : Entry} {name : String} {key : BindingKey}
    {body : Pattern} (hname : key.display ≠ name) (hfound : found.isAlias = entry.isAlias) :
    (entry.around key body).aliased name = found.around key (body.aliased name) := by
  rw [Entry.around, Entry.around, hfound]
  split
  · rfl
  · exact if_neg hname

/-- A pattern that is no binding of the name is recorded alike when the bindings of the name are
made aliases. -/
theorem Pattern.captured_aliased {name : String} {p : Pattern} (hname : anonymous ≠ name)
    (hp : ∀ body, p ≠ .capture name body) :
    (p.aliased name).captured = p.captured.aliased name := by
  cases p with
  | capture other body =>
    have hother : other ≠ name := fun heq => hp body (heq ▸ rfl)
    simp only [Pattern.captured, Pattern.aliased, if_neg hother]
  | literal | set | any | inputStart | inputEnd | seq | choice | repetition | lookahead
  | transparent => simp only [Pattern.captured, Pattern.aliased, if_neg hname]

/-- A pattern that is no binding of the name makes no program of that name. -/
theorem Program.typeName_ofPattern_ne {name : String} {p : Pattern} (text : String)
    (hname : anonymous ≠ name) (hp : ∀ body, p ≠ .capture name body) :
    (ofPattern p text).typeName ≠ name := by
  cases p with
  | capture other body =>
    rintro rfl
    exact hp body rfl
  | literal | set | any | inputStart | inputEnd | seq | choice | repetition | lookahead
  | transparent => exact hname

namespace Environment

variable {env env' : Environment} {owner : Option String} {name : Ident} {key other : BindingKey}
  {entry : Entry} {e : Expr} {p : Pattern} {text : String}

/-! ## Positions -/

mutual

/-- What an expression stands for does not depend on the positions of its references. -/
theorem inlines_unplaced_iff : ∀ (e : Expr) {p : Pattern},
    env.Inlines owner e.unplaced p ↔ env.Inlines owner e p
  | .literal _, _ | .set _, _ | .any, _ | .inputStart, _ | .inputEnd, _ => Iff.rfl
  | .ref name pos, _ => by
    constructor <;> intro h <;> cases h with
    | ref hr hq => exact .ref hr hq
  | .seq items, _ => by
    rw [Expr.unplaced, inlines_seq_iff, inlines_seq_iff]
    simp only [inlinesAll_unplaced_iff items]
  | .choice items, _ => by
    rw [Expr.unplaced, inlines_choice_iff, inlines_choice_iff]
    simp only [inlinesAll_unplaced_iff items]
  | .repetition body _ _, _ => by
    rw [Expr.unplaced, inlines_repetition_iff, inlines_repetition_iff]
    simp only [inlines_unplaced_iff body]
  | .lookahead _ body, _ => by
    rw [Expr.unplaced, inlines_lookahead_iff, inlines_lookahead_iff]
    simp only [inlines_unplaced_iff body]

/-- What some expressions stand for does not depend on the positions of their references. -/
theorem inlinesAll_unplaced_iff : ∀ (items : List Expr) {ps : List Pattern},
    List.Forall₂ (env.Inlines owner) (Expr.unplacedAll items) ps ↔
      List.Forall₂ (env.Inlines owner) items ps
  | [], _ => Iff.rfl
  | _ :: _, [] => iff_of_false nofun nofun
  | item :: items, _ :: _ => by
    rw [Expr.unplacedAll, List.forall₂_cons, List.forall₂_cons, inlines_unplaced_iff item,
      inlinesAll_unplaced_iff items]

end

/-- Expressions that are the same but for the positions of their references stand for the same. -/
theorem Inlines.of_unplaced {e' : Expr} (h : env.Inlines owner e p)
    (he : e'.unplaced = e.unplaced) : env.Inlines owner e' p := by
  rwa [← inlines_unplaced_iff, he, inlines_unplaced_iff]

/-! ## Environments with an alias -/

/-- The package that a prefix stands for in the scope of a package, or at top level. -/
def import? (env : Environment) (owner : Option String) (qualifier : String) : Option String :=
  (env.scopeOf? owner).bind (·.imports.find? qualifier)

/-- What a key is bound to, whatever the position of the references. -/
def definition? (env : Environment) (key : BindingKey) : Option Entry :=
  (env.binding? key).map Entry.unplaced

/-- The environments differ only in whether one binding is an alias, which it is in the second, and
in the positions of references. -/
structure AliasedAt (env env' : Environment) (key : BindingKey) : Prop where
  /-- The binding is the same but for being an alias. -/
  binding : ∃ entry, env.definition? key = some entry ∧ entry.isAlias = false ∧
    env'.definition? key = some { entry with isAlias := true }
  /-- All other bindings are the same. -/
  others : ∀ other, other ≠ key → env'.definition? other = env.definition? other
  /-- All prefixes stand for the same. -/
  imports : ∀ owner qualifier, env'.import? owner qualifier = env.import? owner qualifier
  /-- The same packages are loaded. -/
  packages : ∀ name, env'.hasPackage name = env.hasPackage name

/-- A plain name is bound in the scope it was written in, and one behind a prefix in the package
that the prefix stands for there, where it is not local. -/
def Denotes (env : Environment) (owner : Option String) (name : Ident) (key : BindingKey)
    (entry : Entry) : Prop :=
  match name.qualifier with
  | none => key = ⟨owner, name.base⟩
  | some qualifier => ∃ package, env.import? owner qualifier = some package ∧
      key = ⟨some package, name.base⟩ ∧ entry.isLocal = false

/-- What a name resolves to depends on the bindings and on what the prefixes stand for. -/
theorem resolves_iff : env.Resolves owner name key entry ↔
    env.binding? key = some entry ∧ env.Denotes owner name key entry := by
  constructor
  · intro h
    refine ⟨h.binding?_eq, ?_⟩
    cases h with
    | own hs hb => rfl
    | imported hs hi hp hb hl => exact ⟨_, by rw [import?, hs]; exact hi, rfl, hl⟩
  · obtain ⟨qualifier, base⟩ := name
    rintro ⟨hbinding, hdenotes⟩
    cases qualifier with
    | none =>
      cases hdenotes
      obtain ⟨scope, hs, hb⟩ := Option.bind_eq_some_iff.mp hbinding
      exact .own hs hb
    | some qualifier =>
      obtain ⟨package, himport, rfl, hl⟩ := hdenotes
      obtain ⟨scope, hs, hi⟩ := Option.bind_eq_some_iff.mp himport
      obtain ⟨inner, hinner, hb⟩ := Option.bind_eq_some_iff.mp hbinding
      obtain ⟨loaded, hp, rfl⟩ := Option.map_eq_some_iff.mp hinner
      exact .imported hs hi hp hb hl

/-- What a name denotes depends on the prefixes and on which bindings are local. -/
theorem AliasedAt.denotes (h : env.AliasedAt env' key) {found : Entry}
    (hlocal : found.isLocal = entry.isLocal) (hdenotes : env.Denotes owner name other entry) :
    env'.Denotes owner name other found := by
  unfold Denotes at hdenotes ⊢
  split
  · rename_i hqualifier
    rwa [hqualifier] at hdenotes
  · rename_i qualifier hqualifier
    rw [hqualifier] at hdenotes
    rwa [h.imports, hlocal]

/-- A name that resolves to the binding resolves to the alias. -/
theorem AliasedAt.resolves_self (h : env.AliasedAt env' key)
    (hr : env.Resolves owner name key entry) : entry.isAlias = false ∧
      ∃ found, env'.Resolves owner name key found ∧ found.isAlias = true ∧
        found.body.unplaced = entry.body.unplaced := by
  obtain ⟨hbinding, hdenotes⟩ := resolves_iff.mp hr
  obtain ⟨same, hsame, hnamed, haliased⟩ := h.binding
  rw [definition?, hbinding] at hsame
  obtain rfl := Option.some.inj hsame
  obtain ⟨found, hfound, heq⟩ := Option.map_eq_some_iff.mp haliased
  obtain ⟨hbody, halias, hlocal⟩ := Entry.mk.inj heq
  exact ⟨hnamed, found, resolves_iff.mpr ⟨hfound, h.denotes hlocal hdenotes⟩, halias, hbody⟩

/-- A name that resolves to another binding still does. -/
theorem AliasedAt.resolves_other (h : env.AliasedAt env' key) (hne : other ≠ key)
    (hr : env.Resolves owner name other entry) :
    ∃ found, env'.Resolves owner name other found ∧ found.isAlias = entry.isAlias ∧
      found.body.unplaced = entry.body.unplaced := by
  obtain ⟨hbinding, hdenotes⟩ := resolves_iff.mp hr
  have hsame : env'.definition? other = some entry.unplaced := by
    rw [h.others other hne, definition?, hbinding]
    rfl
  obtain ⟨found, hfound, heq⟩ := Option.map_eq_some_iff.mp hsame
  obtain ⟨hbody, halias, hlocal⟩ := Entry.mk.inj heq
  exact ⟨found, resolves_iff.mpr ⟨hfound, h.denotes hlocal hdenotes⟩, halias, hbody⟩

/-- The binding has a name that can be written where all have. -/
theorem AliasedAt.named_key (h : env.AliasedAt env' key) (hnamed : env.Named) : key.Named := by
  obtain ⟨same, hsame, -⟩ := h.binding
  obtain ⟨entry, hentry, -⟩ := Option.map_eq_some_iff.mp hsame
  exact hnamed.named_key hentry

/-- With the binding as an alias an expression stands for the same pattern, but for the captures of
the binding. -/
theorem AliasedAt.inlines (h : env.AliasedAt env' key) (hnamed : env.Named)
    (hi : env.Inlines owner e p) : env'.Inlines owner e (p.aliased key.display) := by
  induction hi with
  | literal => exact .literal
  | set => exact .set
  | any => exact .any
  | inputStart => exact .inputStart
  | inputEnd => exact .inputEnd
  | seqNil => exact .seqNil
  | seqCons _ _ ih ihrest => exact .seqCons ih ihrest
  | choiceNil => exact .choiceNil
  | choiceCons _ _ ih ihrest => exact .choiceCons ih ihrest
  | repetition _ ih => exact .repetition ih
  | lookahead _ ih => exact .lookahead ih
  | @ref owner name pos other entry body hr _ ih =>
    -- Only the captures of the binding itself bear its name, so those of all others stay.
    by_cases hkey : other = key
    · subst hkey
      obtain ⟨hentry, found, hr', hfound, hbody⟩ := h.resolves_self hr
      rw [Entry.aliased_around_self hentry hfound]
      exact .ref hr' (ih.of_unplaced hbody)
    · obtain ⟨found, hr', hfound, hbody⟩ := h.resolves_other hkey hr
      have hother := (hnamed.named_key hr.binding?_eq).display_ne (h.named_key hnamed) hkey
      rw [Entry.aliased_around_of_ne hother hfound]
      exact .ref hr' (ih.of_unplaced hbody)

/-- The expression is just a reference to the binding. -/
def IsReference (env : Environment) (e : Expr) (key : BindingKey) : Prop :=
  ∃ name pos entry, e = .ref name pos ∧ env.Resolves none name key entry

/-- Only a reference to a binding stands for the capture of the binding. -/
theorem isReference_of_inlines {body : Pattern} (hnamed : env.Named) (hkey : key.Named)
    (hi : env.Inlines none e (.capture key.display body)) : env.IsReference e key := by
  generalize hp : Pattern.capture key.display body = p at hi
  cases hi with
  | @ref owner name pos other entry q hr h =>
    unfold Entry.around at hp
    split at hp
    · cases hp
    · have hdisplay := (Pattern.capture.inj hp).1
      cases hkey.display_injective (hnamed.named_key hr.binding?_eq) hdisplay
      exact ⟨name, pos, entry, rfl, hr⟩
  | literal | set | any | inputStart | inputEnd | seqNil | seqCons | choiceNil | choiceCons
  | repetition | lookahead => cases hp

/-- The program of an expression that is no reference to the binding is the same with the binding as
an alias, but for the captures of the binding, none of which is its root. -/
theorem AliasedAt.compileExpr {compiled compiled' : Compiled} (h : env.AliasedAt env' key)
    (hnamed : env.Named) (hcompile : env.compileExpr e text = .ok compiled)
    (hcompile' : env'.compileExpr e text = .ok compiled') (hnot : ¬ env.IsReference e key) :
    compiled'.program.root = compiled.program.root.aliased key.display ∧
      compiled.program.typeName ≠ key.display := by
  have hkey := h.named_key hnamed
  obtain ⟨p, hp, -, hprogram⟩ := inlines_of_compileExpr hcompile
  obtain ⟨p', hp', -, hprogram'⟩ := inlines_of_compileExpr hcompile'
  cases hp'.unique (h.inlines hnamed hp)
  have hroot : ∀ body, p ≠ .capture key.display body := by
    rintro body rfl
    exact hnot (isReference_of_inlines hnamed hkey hp)
  have hanonymous := hkey.display_ne_anonymous.symm
  refine ⟨?_, ?_⟩
  · rw [hprogram, hprogram', Program.root_ofPattern, Program.root_ofPattern,
      Pattern.captured_aliased hanonymous hroot]
  · rw [hprogram]
    exact Program.typeName_ofPattern_ne text hanonymous hroot

/-- Aliases change the tree, never the match: where an environment that can come about and another
one differ only in whether a binding is an alias, an expression that is compiled in both and is not
just a reference to the binding matches alike in both wherever no limit cuts the search short, and
the tree with the alias is the one without in which each match of the binding gives way to those
inside it. -/
theorem search_of_aliasedAt {compiled compiled' : Compiled} (hreachable : env.Reachable)
    (haliased : env.AliasedAt env' key) (hcompile : env.compile text = .ok compiled)
    (hcompile' : env'.compile text = .ok compiled')
    (hnot : ∀ e, Expr.ofText text = .ok e → ¬ env.IsReference e key)
    (input : Bytes) (start : Nat) (limits limits' : Limits) (room room' : Nat)
    (habend : (compiled.program.search input start limits room).1.abend = false)
    (habend' : (compiled'.program.search input start limits' room').1.abend = false) :
    (compiled.program.search input start limits room).1.DissolvesTo key.display
      (compiled'.program.search input start limits' room').1 := by
  rw [compile] at hcompile hcompile'
  cases hread : Expr.ofText text with
  | error v =>
    rw [hread] at hcompile
    cases hcompile
  | ok e =>
    rw [hread] at hcompile hcompile'
    obtain ⟨hroot, hname⟩ :=
      haliased.compileExpr hreachable.named hcompile hcompile' (hnot e hread)
    exact Program.search_aliased hroot hname habend habend'

/-- A binding that is used in another one. -/
def namedZero : Environment :=
  ({} : Environment).serve (.load "zero = \"0\"\nzeros = zero+" none)

/-- The same source with the binding as an alias. -/
def aliasedZero : Environment :=
  ({} : Environment).serve (.load "alias zero = \"0\"\nzeros = zero+" none)

/-- The environments differ only in whether the binding is an alias, and in where the other one
refers to it. -/
theorem aliasedAt_aliasedZero : namedZero.AliasedAt aliasedZero ⟨none, "zero"⟩ := by
  have hnamed : namedZero = { top.bindings := ⟨[
    ("zeros", ⟨.repetition (.ref ⟨none, "zero"⟩ 20) 1 none, false, false⟩),
    ("zero", ⟨.literal [0x30], false, false⟩)]⟩ } := by cbv
  have haliased : aliasedZero = { top.bindings := ⟨[
    ("zeros", ⟨.repetition (.ref ⟨none, "zero"⟩ 26) 1 none, false, false⟩),
    ("zero", ⟨.literal [0x30], true, false⟩)]⟩ } := by cbv
  rw [hnamed, haliased]
  refine ⟨⟨⟨.literal [0x30], false, false⟩, rfl, rfl, rfl⟩, ?_, ?_, fun _ => rfl⟩
  · rintro ⟨owner, base⟩ hne
    cases owner with
    | none =>
      have hbase : base ≠ "zero" := fun heq => hne (heq ▸ rfl)
      by_cases hzeros : base = "zeros"
      · subst hzeros
        rfl
      · simp [definition?, binding?, scopeOf?, Dictionary.find?, lookup_cons_ite, hbase, hzeros]
    | some package => rfl
  · intro owner qualifier
    cases owner with
    | none => rfl
    | some package => rfl

/-- The zeros between two letters are matched alike, and in the tree the matches of the alias are
missing. -/
theorem search_of_aliasedAt_zeros :
    let plain : Program :=
      ⟨"zeros", .repetition (.capture "zero" (.literal (.ofBytes [0x30]))) 1 none, "zeros"⟩
    let aliased : Program :=
      ⟨"zeros", .repetition (.transparent (.literal (.ofBytes [0x30]))) 1 none, "zeros"⟩
    let input : Bytes := [0x61, 0x30, 0x30, 0x61]
    namedZero.Reachable ∧ namedZero.AliasedAt aliasedZero ⟨none, "zero"⟩ ∧
      namedZero.compile "zeros" = .ok ⟨plain, []⟩ ∧
      aliasedZero.compile "zeros" = .ok ⟨aliased, []⟩ ∧
      (plain.search input 1 ⟨20, 5⟩ 0).1 =
        ⟨some (.node "zeros" 1 3 [.node "zero" 1 2 [], .node "zero" 2 3 []]), 1, false⟩ ∧
      (aliased.search input 1 ⟨20, 5⟩ 0).1 = ⟨some (.node "zeros" 1 3 []), 1, false⟩ ∧
      (plain.search input 1 ⟨20, 5⟩ 0).1.DissolvesTo "zero"
        (aliased.search input 1 ⟨20, 5⟩ 0).1 := by
  intro plain aliased input
  have hreachable : namedZero.Reachable := Reachable.empty.serve _
  have hplain : namedZero.compile "zeros" = .ok ⟨plain, []⟩ := by cbv
  have haliased : aliasedZero.compile "zeros" = .ok ⟨aliased, []⟩ := by cbv
  have hnot : ∀ e, Expr.ofText "zeros" = .ok e → ¬ namedZero.IsReference e ⟨none, "zero"⟩ := by
    rintro e he ⟨name, pos, entry, rfl, hr⟩
    have hread : Expr.ofText "zeros" = .ok (.ref ⟨none, "zeros"⟩ 1) := by cbv
    cases hread.symm.trans he
    have hkey : (⟨none, "zero"⟩ : BindingKey) = ⟨none, "zeros"⟩ := (resolves_iff.mp hr).2
    exact absurd hkey (by decide)
  have hfound : (plain.search input 1 ⟨20, 5⟩ 0).1 =
      ⟨some (.node "zeros" 1 3 [.node "zero" 1 2 [], .node "zero" 2 3 []]), 1, false⟩ := by cbv
  have hfound' : (aliased.search input 1 ⟨20, 5⟩ 0).1 =
      ⟨some (.node "zeros" 1 3 []), 1, false⟩ := by cbv
  refine ⟨hreachable, aliasedAt_aliasedZero, hplain, haliased, hfound, hfound', ?_⟩
  exact search_of_aliasedAt hreachable aliasedAt_aliasedZero hplain haliased hnot input 1 ⟨20, 5⟩
    ⟨20, 5⟩ 0 0 (by rw [hfound]) (by rw [hfound'])

end Environment

end PatternEngine
