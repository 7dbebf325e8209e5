import PatternEngine.Environment.Load
import PatternEngine.Proofs.Source.Statements

/-!
# What a source says

A source declares a package or none, binds names and imports packages under prefixes. Sorting its
statements by kind finds just this: each binding where no name is bound twice, and else a name that
is. The scope of the source has what it says, the last import of a prefix being the one that counts,
and nothing is wrong with the source where every name in it is one that it may use.
-/

namespace PatternEngine

/-! ## Finite maps of lists -/

/-- Looking up a key in a list of pairs is looking for the first element with the key. -/
theorem lookup_map_pair {α β : Type} (key : α → String) (value : α → β) (other : String)
    (xs : List α) : (xs.map fun x => (key x, value x)).lookup other =
      (xs.find? (key · == other)).map value := by
  induction xs with
  | nil => rfl
  | cons x xs ih =>
    rw [List.map_cons, lookup_cons_ite, List.find?_cons, ih]
    by_cases h : other = key x
    · simp [h]
    · have hne : (key x == other) = false := beq_eq_false_iff_ne.mpr (Ne.symm h)
      rw [if_neg h, hne]

/-- In a map of a list of pairs the last pair of a key counts. -/
theorem Dictionary.find?_ofList {α : Type} (pairs : List (String × α)) (key : String) :
    (Dictionary.ofList pairs).find? key = pairs.reverse.lookup key := by
  induction pairs using List.reverseRecOn with
  | nil => rfl
  | append_singleton pairs pair ih =>
    have hlast : Dictionary.ofList (pairs ++ [pair]) =
        (Dictionary.ofList pairs).insert pair.1 pair.2 := List.foldl_append
    rw [hlast, Dictionary.find?_insert, List.reverse_concat, lookup_cons_ite, ih]

/-- Where the keys are distinct the order does not matter. -/
theorem find?_reverse_of_nodup {α : Type} (key : α → String) (other : String) {xs : List α}
    (h : (xs.map key).Nodup) :
    xs.reverse.find? (key · == other) = xs.find? (key · == other) := by
  cases hfind : xs.find? (key · == other) with
  | none =>
    rw [List.find?_eq_none] at hfind ⊢
    exact fun x hx => hfind x (List.mem_reverse.mp hx)
  | some x =>
    have hx := List.mem_of_find?_eq_some hfind
    have hkey := List.find?_some hfind
    have hsome : (xs.reverse.find? (key · == other)).isSome :=
      List.find?_isSome.mpr ⟨x, List.mem_reverse.mpr hx, hkey⟩
    obtain ⟨y, hy⟩ := Option.isSome_iff_exists.mp hsome
    have hmem := List.mem_reverse.mp (List.mem_of_find?_eq_some hy)
    have hkey' := List.find?_some hy
    have hsame : key y = key x := (beq_iff_eq.mp hkey').trans (beq_iff_eq.mp hkey).symm
    rw [hy, List.inj_on_of_nodup_map h hmem hx hsame]

namespace Statement

/-- The package that a statement declares. -/
def declared? : Statement → Option String
  | .package name _ => some name
  | .imports _ _ | .bind _ => none

/-- The imports of a statement. -/
def importDecls : Statement → List ImportDecl
  | .imports decls _ => decls
  | .package _ _ | .bind _ => []

/-- The binding of a statement. -/
def binding? : Statement → Option Binding
  | .bind binding => some binding
  | .package _ _ | .imports _ _ => none

end Statement

/-- What a name stands for by its binding. -/
def Binding.entry (b : Binding) : Entry := ⟨b.body, b.isAlias, b.isLocal⟩

namespace Source

variable (ss : List Statement)

/-- The package that a source declares. -/
def declared? : Option String := ss.findSome? Statement.declared?

/-- The imports of a source. -/
def imports : List ImportDecl := ss.flatMap Statement.importDecls

/-- The bindings of a source. -/
def bindings : List Binding := ss.filterMap Statement.binding?

/-- What a source binds a name to. -/
def entryOf? (name : String) : Option Entry :=
  ((bindings ss).find? (·.name == name)).map Binding.entry

/-- The package that a source imports under a prefix. The last import of the prefix counts. -/
def packageBehind? (qualifier : String) : Option String :=
  ((imports ss).reverse.find? (·.visibleAs == qualifier)).map (·.package)

/-- The source binds the name, or imports a package under the prefix of the name. -/
def Provides (name : Ident) : Prop :=
  match name.qualifier with
  | none => ∃ b ∈ bindings ss, b.name = name.base
  | some qualifier => ∃ decl ∈ imports ss, decl.visibleAs = qualifier

end Source

/-- The scope knows the name, or the prefix of the name. -/
def Scope.Knows (scope : Scope) (name : Ident) : Prop :=
  match name.qualifier with
  | none => (scope.bindings.find? name.base).isSome
  | some qualifier => (scope.imports.find? qualifier).isSome

namespace Source

/-- No name is bound twice, and each name in a binding is provided by the source or known to the
scope that it may use beside its own. -/
structure WellFormed (ss : List Statement) (outer : Scope) : Prop where
  once : ((bindings ss).map (·.name)).Nodup
  known : ∀ b ∈ bindings ss, ∀ name pos, (name, pos) ∈ b.body.references →
    Provides ss name ∨ outer.Knows name

/-- The scope is the other one overridden by what the source says. -/
structure Extends (ss : List Statement) (outer scope : Scope) : Prop where
  bindings : ∀ name, scope.bindings.find? name = (entryOf? ss name).or (outer.bindings.find? name)
  imports : ∀ qualifier, scope.imports.find? qualifier =
    (packageBehind? ss qualifier).or (outer.imports.find? qualifier)

end Source

/-- Only the first statement of a source may declare a package. -/
theorem Source.not_isPackage_of_listOfText {text : String} {ss : List Statement}
    (h : Statement.listOfText text = .ok ss) : ∀ s ∈ ss.tail, s.isPackage = false :=
  (Statement.listOfBytes_eq_ok_iff.mp (Except.mapError_eq_ok.mp h)).2

/-! ## Sorting the statements -/

namespace SourceUnit

open Source

variable {ss : List Statement} {sorted : SourceUnit} {seen : Dictionary Nat} {outer : Scope}

theorem imports_collectFrom (ss : List Statement) (sorted : SourceUnit) (seen : Dictionary Nat) :
    (collectFrom sorted seen ss).imports = sorted.imports ++ Source.imports ss := by
  induction ss generalizing sorted seen with
  | nil => exact (List.append_nil _).symm
  | cons s ss ih =>
    cases s with
    | package name pos => exact ih _ _
    | imports decls pos =>
      refine (ih _ _).trans ?_
      rw [List.append_assoc]
      rfl
    | bind binding =>
      rw [collectFrom]
      split
      · exact ih _ _
      · exact ih _ _

/-- Statements that declare no package leave the package that was found. -/
theorem package_collectFrom (h : ∀ s ∈ ss, s.isPackage = false) (sorted : SourceUnit)
    (seen : Dictionary Nat) : (collectFrom sorted seen ss).package = sorted.package := by
  induction ss generalizing sorted seen with
  | nil => rfl
  | cons s ss ih =>
    obtain ⟨hs, hss⟩ := List.forall_mem_cons.mp h
    cases s with
    | package name pos => cases hs
    | imports decls pos => exact ih hss _ _
    | bind binding =>
      rw [collectFrom]
      split
      · exact ih hss _ _
      · exact ih hss _ _

/-- Names that were found to be bound twice stay so. -/
theorem duplicates_collectFrom (ss : List Statement) (sorted : SourceUnit)
    (seen : Dictionary Nat) :
    ∃ more, (collectFrom sorted seen ss).duplicates = sorted.duplicates ++ more := by
  induction ss generalizing sorted seen with
  | nil => exact ⟨[], (List.append_nil _).symm⟩
  | cons s ss ih =>
    cases s with
    | package name pos => exact ih _ _
    | imports decls pos => exact ih _ _
    | bind binding =>
      rw [collectFrom]
      split
      · obtain ⟨more, hmore⟩ := ih
          { sorted with duplicates := sorted.duplicates ++ [(binding, _)] } _
        exact ⟨_ :: more, hmore.trans (List.append_assoc _ _ _)⟩
      · exact ih _ _

/-- The names seen are those of the bindings found. -/
def Remembers (seen : Dictionary Nat) (found : List Binding) : Prop :=
  ∀ name, (seen.find? name).isSome ↔ name ∈ found.map (·.name)

theorem Remembers.insert {found : List Binding} (h : Remembers seen found) (b : Binding) :
    Remembers (seen.insert b.name b.pos) (found ++ [b]) := by
  intro name
  rw [Dictionary.find?_insert, List.map_append, List.mem_append, ← h name]
  split <;> rename_i hname <;> simp [hname]

/-- A name that is bound again is remembered already. -/
theorem Remembers.insert_of_mem {found : List Binding} (h : Remembers seen found) {b : Binding}
    (hmem : (seen.find? b.name).isSome) : Remembers (seen.insert b.name b.pos) found := by
  intro name
  rw [Dictionary.find?_insert, ← h name]
  split
  · rename_i hname
    rw [hname]
    exact iff_of_true rfl hmem
  · exact Iff.rfl

/-- Where no name is bound twice all bindings are found. -/
theorem bindings_collectFrom (hseen : Remembers seen sorted.bindings)
    (h : ((sorted.bindings ++ Source.bindings ss).map (·.name)).Nodup) :
    (collectFrom sorted seen ss).bindings = sorted.bindings ++ Source.bindings ss ∧
      (collectFrom sorted seen ss).duplicates = sorted.duplicates := by
  induction ss generalizing sorted seen with
  | nil => exact ⟨(List.append_nil _).symm, rfl⟩
  | cons s ss ih =>
    cases s with
    | package name pos => exact ih hseen h
    | imports decls pos => exact ih hseen h
    | bind b =>
      have hbindings : sorted.bindings ++ Source.bindings (.bind b :: ss) =
          (sorted.bindings ++ [b]) ++ Source.bindings ss := by
        rw [List.append_assoc]
        rfl
      rw [hbindings] at h ⊢
      have hnew : ¬ (seen.find? b.name).isSome := by
        rw [hseen]
        rw [List.map_append, List.map_append] at h
        have hdisjoint := List.disjoint_of_nodup_append (List.nodup_append.mp h).1
        exact fun hmem => hdisjoint hmem List.mem_cons_self
      rw [collectFrom, Option.not_isSome_iff_eq_none.mp hnew]
      exact ih (hseen.insert b) h

/-- Where none of the bindings is a duplicate no name is bound twice. -/
theorem nodup_of_collectFrom (hseen : Remembers seen sorted.bindings)
    (hsorted : (sorted.bindings.map (·.name)).Nodup)
    (h : (collectFrom sorted seen ss).duplicates = sorted.duplicates) :
    ((sorted.bindings ++ Source.bindings ss).map (·.name)).Nodup := by
  induction ss generalizing sorted seen with
  | nil => simpa [Source.bindings] using hsorted
  | cons s ss ih =>
    cases s with
    | package name pos => exact @ih { sorted with package := some name } seen hseen hsorted h
    | imports decls pos =>
      exact @ih { sorted with imports := sorted.imports ++ decls } seen hseen hsorted h
    | bind b =>
      rw [collectFrom] at h
      split at h
      · rename_i first hfirst
        obtain ⟨more, hmore⟩ := duplicates_collectFrom ss
          { sorted with duplicates := sorted.duplicates ++ [(b, first)] }
          (seen.insert b.name b.pos)
        have hlength := congrArg List.length (hmore.symm.trans h)
        simp at hlength
      · rename_i hnew
        have hmem : b.name ∉ sorted.bindings.map (·.name) := by
          rw [← hseen, hnew]
          exact Bool.false_ne_true
        have hnext : ((sorted.bindings ++ [b]).map (·.name)).Nodup := by
          rw [List.map_append]
          exact hsorted.append (List.nodup_singleton _) (List.disjoint_singleton.mpr hmem)
        have hmore := ih (hseen.insert b) hnext h
        rw [List.append_assoc] at hmore
        exact hmore

/-! ## Whole sources -/

theorem imports_collect (ss : List Statement) : (collect ss).imports = Source.imports ss :=
  imports_collectFrom ss {} .empty

/-- The package is that of the first statement, since no other declares one. -/
theorem package_collect (h : ∀ s ∈ ss.tail, s.isPackage = false) :
    (collect ss).package = Source.declared? ss := by
  have hnone : ∀ ts : List Statement, (∀ s ∈ ts, s.isPackage = false) →
      Source.declared? ts = none := by
    intro ts hts
    refine List.findSome?_eq_none_iff.mpr fun s hs => ?_
    have hs := hts s hs
    cases s with
    | package name pos => cases hs
    | imports decls pos => rfl
    | bind binding => rfl
  cases ss with
  | nil => rfl
  | cons s ss =>
    cases s with
    | package name pos => exact package_collectFrom h _ _
    | imports decls pos =>
      exact (package_collectFrom h _ _).trans (hnone ss h).symm
    | bind b => exact (package_collectFrom h _ _).trans (hnone ss h).symm

/-- Nothing is seen at first. -/
theorem remembers_empty : Remembers .empty ({} : SourceUnit).bindings :=
  fun _ => iff_of_false Bool.false_ne_true nofun

/-- There are duplicates unless no name is bound twice. -/
theorem duplicates_collect_eq_nil_iff :
    (collect ss).duplicates = [] ↔ ((Source.bindings ss).map (·.name)).Nodup :=
  ⟨fun h => nodup_of_collectFrom remembers_empty List.nodup_nil h,
    fun h => (bindings_collectFrom remembers_empty h).2⟩

theorem bindings_collect (h : ((Source.bindings ss).map (·.name)).Nodup) :
    (collect ss).bindings = Source.bindings ss := (bindings_collectFrom remembers_empty h).1

/-- The scope of a source where no name is bound twice is what the source says. -/
theorem extends_scope_collect (h : ((Source.bindings ss).map (·.name)).Nodup) :
    Extends ss {} (collect ss).scope where
  bindings name := by
    have hpair : (fun b : Binding => (b.name, (⟨b.body, b.isAlias, b.isLocal⟩ : Entry))) =
        fun b => (b.name, b.entry) := rfl
    rw [scope, Dictionary.find?_ofList, bindings_collect h, ← List.map_reverse, hpair,
      lookup_map_pair, find?_reverse_of_nodup _ _ h, ← entryOf?]
    exact Option.or_none.symm
  imports qualifier := by
    rw [scope, Dictionary.find?_ofList, imports_collect, ← List.map_reverse, lookup_map_pair,
      ← packageBehind?]
    exact Option.or_none.symm

/-- Nothing is wrong with a reference to a name that the source may use. -/
theorem checkReference?_collect (h : ((Source.bindings ss).map (·.name)).Nodup) (outer : Scope)
    (name : Ident) : (collect ss).checkReference? outer name = none ↔
      Provides ss name ∨ outer.Knows name := by
  obtain ⟨qualifier, base⟩ := name
  unfold checkReference? Provides Scope.Knows
  cases qualifier with
  | none =>
    simp only [ite_eq_left_iff, reduceCtorEq, imp_false, not_not, Bool.or_eq_true, defines,
      bindings_collect h, List.any_eq_true, beq_iff_eq, Dictionary.contains]
  | some qualifier =>
    simp only [ite_eq_left_iff, reduceCtorEq, imp_false, not_not, Bool.or_eq_true, importsAs,
      imports_collect, List.any_eq_true, beq_iff_eq, Dictionary.contains]

/-- Nothing is wrong with a source where it is well-formed. -/
theorem problems_collect_eq_nil_iff :
    (collect ss).repeatedBindings ++ (collect ss).danglingReferences outer = [] ↔
      WellFormed ss outer := by
  rw [List.append_eq_nil_iff, repeatedBindings, List.map_eq_nil_iff, duplicates_collect_eq_nil_iff]
  have hdangling (h : ((Source.bindings ss).map (·.name)).Nodup) :
      (collect ss).danglingReferences outer = [] ↔
        ∀ b ∈ Source.bindings ss, ∀ name pos, (name, pos) ∈ b.body.references →
          Provides ss name ∨ outer.Knows name := by
    simp [danglingReferences, bindings_collect h, checkReference?_collect h]
  constructor
  · rintro ⟨honce, hknown⟩
    exact ⟨honce, (hdangling honce).mp hknown⟩
  · rintro ⟨honce, hknown⟩
    exact ⟨honce, (hdangling honce).mpr hknown⟩

end SourceUnit

end PatternEngine
