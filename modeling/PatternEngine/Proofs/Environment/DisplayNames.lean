import Mathlib.Data.List.Basic
import PatternEngine.Proofs.Environment.Closure
import PatternEngine.Proofs.Source.Lexemes
import PatternEngine.Proofs.Source.Names

/-!
# The names of matches

In an environment that can come about every package and every binding has a name that can be
written. No dot stands in such a name, so that different bindings are recorded under different
names, and none under that of a match without a name.
-/

namespace PatternEngine

/-- No dot stands in a name. -/
theorem IsName.dot_notMem {name : String} (h : IsName name) : '.' ∉ name.toList := by
  obtain ⟨bytes, hbytes, rfl⟩ := h
  intro hdot
  rw [Bytes.toAscii, String.toList_ofList] at hdot
  obtain ⟨b, hb, heq⟩ := List.mem_map.mp hdot
  have hpart := hbytes b hb
  cases Ascii.toChar_injective (heq.trans (show '.' = Ascii.toChar 0x2e from rfl))
  revert hpart
  decide

/-- The name of a match without a name is none that can be written. -/
theorem not_isName_anonymous : ¬ IsName anonymous := by
  intro h
  have hbytes : Bytes.ofString anonymous = [0x2a] := by decide
  have hpart := h.isPart_of_mem 0x2a (by rw [hbytes]; exact List.mem_singleton_self _)
  revert hpart
  decide

namespace BindingKey

variable {key key' : BindingKey}

/-- The binding and its package have names that can be written. -/
structure Named (key : BindingKey) : Prop where
  base : IsName key.base
  owner : ∀ package ∈ key.owner, IsName package

/-- The characters of the name under which a binding of a package is recorded. -/
theorem toList_display (package base : String) :
    (BindingKey.display ⟨some package, base⟩).toList = package.toList ++ '.' :: base.toList := by
  simp [display]

/-- A binding at top level is recorded under another name than one of a package. -/
theorem Named.display_ne_package {base package base' : String} (h : Named ⟨none, base⟩) :
    BindingKey.display ⟨none, base⟩ ≠ BindingKey.display ⟨some package, base'⟩ := by
  intro heq
  apply h.base.dot_notMem
  have hlist : base.toList = package.toList ++ '.' :: base'.toList :=
    (congrArg String.toList heq).trans (toList_display package base')
  rw [hlist]
  exact List.mem_append_right _ List.mem_cons_self

/-- Different bindings are recorded under different names. -/
theorem Named.display_injective (h : key.Named) (h' : key'.Named)
    (heq : key.display = key'.display) : key = key' := by
  obtain ⟨owner, base⟩ := key
  obtain ⟨owner', base'⟩ := key'
  cases owner with
  | none =>
    cases owner' with
    | none => rw [show base = base' from heq]
    | some package' => exact absurd heq h.display_ne_package
  | some package =>
    cases owner' with
    | none => exact absurd heq.symm h'.display_ne_package
    | some package' =>
      have hlist := congrArg String.toList heq
      rw [toList_display, toList_display] at hlist
      have hpackage := (h.owner package rfl).dot_notMem
      obtain ⟨howner, -, hbase⟩ :=
        (List.append_cons_inj_of_notMem hpackage h.base.dot_notMem).mp hlist
      cases String.toList_injective howner
      cases String.toList_injective hbase
      rfl

theorem Named.display_ne (h : key.Named) (h' : key'.Named) (hne : key ≠ key') :
    key.display ≠ key'.display :=
  mt (h.display_injective h') hne

/-- No binding is recorded like a match without a name. -/
theorem Named.display_ne_anonymous (h : key.Named) : key.display ≠ anonymous := by
  obtain ⟨owner, base⟩ := key
  cases owner with
  | none =>
    rintro rfl
    exact not_isName_anonymous h.base
  | some package =>
    intro heq
    have hlist := congrArg String.toList heq
    rw [toList_display] at hlist
    have hdot : '.' ∈ anonymous.toList :=
      hlist ▸ List.mem_append_right _ List.mem_cons_self
    revert hdot
    decide

end BindingKey

/-- All names that are bound in the scope can be written. -/
def Scope.Named (scope : Scope) : Prop :=
  ∀ base entry, scope.bindings.find? base = some entry → IsName base

/-- What a source says leaves all names of a scope such that they can be written. -/
theorem Source.Extends.named {ss : List Statement} {outer scope : Scope} {c : Cursor}
    (h : Source.Extends ss outer scope) (hread : Statement.Reads c ss) (houter : outer.Named) :
    scope.Named := by
  intro base entry hentry
  rw [h.bindings] at hentry
  rcases Option.or_eq_some_iff.mp hentry with hown | ⟨-, hold⟩
  · obtain ⟨b, hb, -⟩ := Option.map_eq_some_iff.mp hown
    obtain ⟨s, hs, hbinding⟩ := List.mem_filterMap.mp (List.mem_of_find?_eq_some hb)
    have hsame := List.find?_some hb
    have hname : b.name = base := beq_iff_eq.mp hsame
    cases s with
    | package name pos => cases hbinding
    | imports decls pos => cases hbinding
    | bind definition =>
      cases hbinding
      exact hname ▸ hread.isName_of_bind b hs
  · exact houter base entry hold

/-- A source that is read declares a package with a name that can be written. -/
theorem Source.isName_of_declared? {ss : List Statement} {c : Cursor} {name : String}
    (hread : Statement.Reads c ss) (h : Source.declared? ss = some name) : IsName name := by
  obtain ⟨s, hs, hdeclared⟩ := List.exists_of_findSome?_eq_some h
  have hnames := hread.namesPackages s hs
  cases s with
  | package declared pos =>
    cases hdeclared
    exact hnames
  | imports decls pos => cases hdeclared
  | bind definition => cases hdeclared

namespace Environment

variable {env env' : Environment} {request : Request} {key : BindingKey} {entry : Entry}

/-- All packages, and all names that are bound at top level and in them, can be written. -/
structure Named (env : Environment) : Prop where
  top : env.top.Named
  packages : ∀ name package, env.packages.find? name = some package →
    IsName name ∧ package.scope.Named

theorem named_empty : ({} : Environment).Named := ⟨nofun, nofun⟩

/-- A source that is read is one of statements. -/
theorem reads_of_listOfText {text : String} {ss : List Statement}
    (h : Statement.listOfText text = .ok ss) :
    Statement.Reads (Cursor.start (Bytes.ofString text)) ss :=
  (Statement.listOfBytes_eq_ok_iff.mp (Except.mapError_eq_ok.mp h)).1

/-- A source as a package leaves all packages such that their names can be written. -/
theorem Replaces.named {name text : String} {ss : List Statement} {origin : Option String}
    (h : env.Replaces env' name ss origin) (hread : Statement.listOfText text = .ok ss)
    (hdeclared : Source.declared? ss = some name) (hnamed : env.Named) :
    ∀ other package, env'.packages.find? other = some package →
      IsName other ∧ package.scope.Named := by
  have hreads := reads_of_listOfText hread
  intro other package hpackage
  by_cases hother : other = name
  · subst hother
    obtain ⟨replaced, hreplaced, -, hextends⟩ := h.replaced
    cases hpackage.symm.trans hreplaced
    exact ⟨Source.isName_of_declared? hreads hdeclared, hextends.named hreads nofun⟩
  · exact hnamed.packages other package (h.others other hother ▸ hpackage)

/-- A further prefix at top level leaves the names there as they were. -/
theorem Shows.named {qualifier package : String} (h : env.Shows env' qualifier package)
    (hnamed : env.top.Named) : env'.top.Named :=
  fun base entry hentry => hnamed base entry (h.bindings base ▸ hentry)

/-- A request that is granted leaves all names such that they can be written. -/
theorem Effect.named (h : env.Effect env' request) (hnamed : env.Named) : env'.Named := by
  cases h with
  | extended hread hnone htop hpackages =>
    exact ⟨htop.named (reads_of_listOfText hread) hnamed.top, fun name package hpackage =>
      hnamed.packages name package (hpackages name ▸ hpackage)⟩
  | defined hread hdeclared hreplaces hshows =>
    exact ⟨hshows.named hnamed.top, hreplaces.named hread hdeclared hnamed⟩
  | loaded hread hdeclared hreplaces htop =>
    exact ⟨htop ▸ hnamed.top, hreplaces.named hread hdeclared hnamed⟩
  | shown hshows hpackages =>
    exact ⟨hshows.named hnamed.top, hpackages ▸ hnamed.packages⟩

/-- All names of an environment that can come about can be written. -/
theorem Reachable.named (h : env.Reachable) : env.Named :=
  h.of_effect named_empty fun _ _ _ _ heffect hnamed => heffect.named hnamed

/-- What is bound has a name that can be written. -/
theorem Named.named_key (h : env.Named) (hentry : env.binding? key = some entry) : key.Named := by
  obtain ⟨scope, hscope, hbinding⟩ := Option.bind_eq_some_iff.mp hentry
  obtain ⟨owner, base⟩ := key
  cases owner with
  | none =>
    cases hscope
    exact ⟨h.top base entry hbinding, nofun⟩
  | some name =>
    obtain ⟨package, hpackage, rfl⟩ := Option.map_eq_some_iff.mp hscope
    obtain ⟨hname, hscope⟩ := h.packages name package hpackage
    refine ⟨hscope base entry hbinding, fun other hother => ?_⟩
    cases hother
    exact hname

end Environment

end PatternEngine
