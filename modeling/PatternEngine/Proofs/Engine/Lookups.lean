import PatternEngine.Proofs.Engine.Importing

/-!
# Look-ups

An import goes from package to package as far as their imports lead. The rules below say so without
a bound on the way, and note each look-up on the library path with what came of it. Whatever the
packages import, themselves and one another included, there is exactly one way through the rules,
and it is the one that is taken. It looks up a name once at most and no package that is loaded
already, and all goes well if and only if each look-up leads to a package that is loaded.
-/

namespace PatternEngine.Import

variable {fs : FileSystem} {libpath source : Bytes} {names : List Bytes} {env : Environment}

/-! ## The rules -/

/-- What comes of looking up a package. -/
inductive Finding where
  /-- The package is loaded, and these are the definitions with it. -/
  | loaded (loaded : Loaded) (env : Environment)
  /-- No directory holds the package, or something is wrong with its source. -/
  | refused (problems : List Violation)
  /-- The search fails, and the call with it. -/
  | fault (fault : EngineError)

/-- The package is loaded. -/
def Finding.isLoaded : Finding → Bool
  | .loaded _ _ => true
  | _ => false

/-- What there is to report. -/
def Finding.problems : Finding → List Violation
  | .refused problems => problems
  | _ => []

@[simp] theorem Finding.isLoaded_loaded (loaded : Loaded) (env : Environment) :
    (Finding.loaded loaded env).isLoaded = true := rfl

/-- Look up a package on the library path and load it. -/
def lookUp (fs : FileSystem) (libpath : Bytes) (env : Environment) (source : Bytes) : Finding :=
  match findIn fs source (directories libpath) with
  | .error fault => .fault fault
  | .ok none =>
    .refused [{ cause :=
      .importing (.notFound (Utf8.decodeLossy source) (Utf8.decodeLossy libpath)) }]
  | .ok (some (path, content)) =>
    match env.loadPackage (Utf8.decodeLossy source) (Utf8.decodeLossy content) (some path) with
    | .error problems => .refused problems
    | .ok (loaded, env) => .loaded loaded env

/-- A look-up of a package. -/
structure Lookup where
  /-- The name that is looked up. -/
  name : String
  /-- What comes of it. -/
  finding : Finding

/-- The package is loaded or was looked up before. -/
def Known (state : ImportState) (source : Bytes) : Prop :=
  state.env.hasPackage (Utf8.decodeLossy source) = true ∨ Utf8.decodeLossy source ∈ state.seen

/-- The state in which a package is being looked up. -/
def lookingUp (state : ImportState) (source : Bytes) : ImportState :=
  { state with seen := Utf8.decodeLossy source :: state.seen }

/-- The packages of a list are imported, each with the packages that it imports in turn, by these
look-ups. -/
inductive Imports (fs : FileSystem) (libpath : Bytes) :
    ImportState → List Bytes → List Lookup → Except EngineError Bool → ImportState → Prop
  /-- Nothing is left to be done. -/
  | done (state : ImportState) : Imports fs libpath state [] [] (.ok true) state
  /-- A package that is known is passed over. -/
  | known {state after : ImportState} {source : Bytes} {names : List Bytes} {lookups : List Lookup}
    {result : Except EngineError Bool} (hknown : Known state source)
    (hrest : Imports fs libpath state names lookups result after) :
    Imports fs libpath state (source :: names) lookups result after
  /-- A search that fails ends the call. -/
  | fault {state : ImportState} {source : Bytes} {names : List Bytes} {fault : EngineError}
    (hnew : ¬Known state source) (hfind : lookUp fs libpath state.env source = .fault fault) :
    Imports fs libpath state (source :: names) [⟨Utf8.decodeLossy source, .fault fault⟩]
      (.error fault) (lookingUp state source)
  /-- A package that is refused does not keep the others from being imported. -/
  | refused {state after : ImportState} {source : Bytes} {names : List Bytes}
    {lookups : List Lookup} {problems : List Violation} {result : Except EngineError Bool}
    (hnew : ¬Known state source) (hfind : lookUp fs libpath state.env source = .refused problems)
    (hrest : Imports fs libpath { lookingUp state source with
      messages := state.messages ++ problems } names lookups result after) :
    Imports fs libpath state (source :: names)
      (⟨Utf8.decodeLossy source, .refused problems⟩ :: lookups) (result.map fun _ => false) after
  /-- The imports of a package that is loaded come before the others. -/
  | loaded {state middle after : ImportState} {source : Bytes} {names : List Bytes}
    {inner outer : List Lookup} {loaded : Loaded} {env : Environment} {ok : Bool}
    {result : Except EngineError Bool}
    (hnew : ¬Known state source) (hfind : lookUp fs libpath state.env source = .loaded loaded env)
    (hinner : Imports fs libpath { lookingUp state source with env } (namesOf loaded.imports) inner
      (.ok ok) middle)
    (houter : Imports fs libpath middle names outer result after) :
    Imports fs libpath state (source :: names)
      (⟨Utf8.decodeLossy source, .loaded loaded env⟩ :: (inner ++ outer)) (result.map (ok && ·))
      after
  /-- A search that fails among the imports of a package ends the call, too. -/
  | innerFault {state after : ImportState} {source : Bytes} {names : List Bytes}
    {inner : List Lookup} {loaded : Loaded} {env : Environment} {fault : EngineError}
    (hnew : ¬Known state source) (hfind : lookUp fs libpath state.env source = .loaded loaded env)
    (hinner : Imports fs libpath { lookingUp state source with env } (namesOf loaded.imports) inner
      (.error fault) after) :
    Imports fs libpath state (source :: names)
      (⟨Utf8.decodeLossy source, .loaded loaded env⟩ :: inner) (.error fault) after

variable {before middle after after' : ImportState} {lookups lookups' : List Lookup}
  {result result' : Except EngineError Bool}

/-- There is one way through the rules at most. -/
theorem Imports.unique (h : Imports fs libpath before names lookups result after)
    (h' : Imports fs libpath before names lookups' result' after') :
    lookups' = lookups ∧ result' = result ∧ after' = after := by
  induction h generalizing lookups' result' after' with
  | done state =>
    cases h'
    exact ⟨rfl, rfl, rfl⟩
  | known hknown hrest ih =>
    cases h' with
    | known _ hrest' => exact ih hrest'
    | _ => contradiction
  | fault hnew hfind =>
    cases h' with
    | known hknown _ => contradiction
    | fault _ hfind' =>
      cases hfind.symm.trans hfind'
      exact ⟨rfl, rfl, rfl⟩
    | _ => cases hfind.symm.trans ‹lookUp _ _ _ _ = _›
  | refused hnew hfind hrest ih =>
    cases h' with
    | known hknown _ => contradiction
    | refused _ hfind' hrest' =>
      cases hfind.symm.trans hfind'
      obtain ⟨rfl, rfl, rfl⟩ := ih hrest'
      exact ⟨rfl, rfl, rfl⟩
    | _ => cases hfind.symm.trans ‹lookUp _ _ _ _ = _›
  | loaded hnew hfind hinner houter ihinner ihouter =>
    cases h' with
    | known hknown _ => contradiction
    | loaded _ hfind' hinner' houter' =>
      cases hfind.symm.trans hfind'
      obtain ⟨rfl, hok, rfl⟩ := ihinner hinner'
      cases hok
      obtain ⟨rfl, rfl, rfl⟩ := ihouter houter'
      exact ⟨rfl, rfl, rfl⟩
    | innerFault _ hfind' hinner' =>
      cases hfind.symm.trans hfind'
      obtain ⟨-, hfault, -⟩ := ihinner hinner'
      cases hfault
    | _ => cases hfind.symm.trans ‹lookUp _ _ _ _ = _›
  | innerFault hnew hfind hinner ihinner =>
    cases h' with
    | known hknown _ => contradiction
    | loaded _ hfind' hinner' _ =>
      cases hfind.symm.trans hfind'
      obtain ⟨-, hok, -⟩ := ihinner hinner'
      cases hok
    | innerFault _ hfind' hinner' =>
      cases hfind.symm.trans hfind'
      obtain ⟨rfl, hfault, rfl⟩ := ihinner hinner'
      cases hfault
      exact ⟨rfl, rfl, rfl⟩
    | _ => cases hfind.symm.trans ‹lookUp _ _ _ _ = _›

/-! ## What the rules come to -/

/-- Each look-up notes its name. -/
theorem Imports.seen_eq (h : Imports fs libpath before names lookups result after) :
    after.seen = (lookups.map (·.name)).reverse ++ before.seen := by
  induction h with
  | done state => rfl
  | known hknown hrest ih => exact ih
  | fault hnew hfind => rfl
  | refused hnew hfind hrest ih => simp [ih, lookingUp]
  | loaded hnew hfind hinner houter ihinner ihouter => simp [ihinner, ihouter, lookingUp]
  | innerFault hnew hfind hinner ih => simp [ih, lookingUp]

/-- What there is to report is that of the look-ups in order. -/
theorem Imports.messages_eq (h : Imports fs libpath before names lookups result after) :
    after.messages = before.messages ++ lookups.flatMap (·.finding.problems) := by
  induction h with
  | done state => simp
  | known hknown hrest ih => exact ih
  | fault hnew hfind => simp [Finding.problems, lookingUp]
  | refused hnew hfind hrest ih => simp [ih, Finding.problems]
  | loaded hnew hfind hinner houter ihinner ihouter =>
    simp [ihinner, ihouter, Finding.problems, lookingUp]
  | innerFault hnew hfind hinner ih => simp [ih, Finding.problems, lookingUp]

/-- No name is looked up that was looked up before. -/
theorem Imports.nodup (h : Imports fs libpath before names lookups result after)
    (hbefore : before.seen.Nodup) : after.seen.Nodup := by
  have hlooking : ∀ {state source}, ¬Known state source → state.seen.Nodup →
      (lookingUp state source).seen.Nodup := fun hnew hstate =>
    hstate.cons fun hseen => hnew (.inr hseen)
  induction h with
  | done state => exact hbefore
  | known hknown hrest ih => exact ih hbefore
  | fault hnew hfind => exact hlooking hnew hbefore
  | refused hnew hfind hrest ih => exact ih (hlooking hnew hbefore)
  | loaded hnew hfind hinner houter ihinner ihouter =>
    exact ihouter (ihinner (hlooking hnew hbefore))
  | innerFault hnew hfind hinner ih => exact ih (hlooking hnew hbefore)

/-- All goes well if and only if each look-up leads to a package that is loaded. -/
theorem Imports.ok_iff (h : Imports fs libpath before names lookups result after) :
    result = .ok true ↔ ∀ l ∈ lookups, l.finding.isLoaded = true := by
  induction h with
  | done state => simp
  | known hknown hrest ih => exact ih
  | fault hnew hfind => simp [Finding.isLoaded]
  | @refused _ _ _ _ _ _ result _ _ _ _ => cases result <;> simp [Except.map, Finding.isLoaded]
  | @loaded _ _ _ _ _ _ _ _ _ ok result _ _ _ _ ihinner ihouter =>
    have hboth : result.map (ok && ·) = .ok true ↔ ok = true ∧ result = .ok true := by
      cases result <;> simp [Except.map]
    rw [Except.ok.injEq] at ihinner
    rw [hboth, ihinner, ihouter]
    simp [Finding.isLoaded, or_imp, forall_and]
  | innerFault hnew hfind hinner ih =>
    refine ⟨nofun, fun hall => ?_⟩
    cases ih.mpr fun l hl => hall l (List.mem_cons_of_mem _ hl)

theorem not_known_iff {state : ImportState} : ¬Known state source ↔
    state.env.hasPackage (Utf8.decodeLossy source) = false ∧
      Utf8.decodeLossy source ∉ state.seen := by
  rw [Known, not_or, Bool.not_eq_true]

theorem lookUp_eq_loaded {loaded : Loaded} {env' : Environment}
    (h : lookUp fs libpath env source = .loaded loaded env') :
    ∃ path content, findIn fs source (directories libpath) = .ok (some (path, content)) ∧
      env.loadPackage (Utf8.decodeLossy source) (Utf8.decodeLossy content) (some path) =
        .ok (loaded, env') := by
  unfold lookUp at h
  split at h
  · cases h
  · cases h
  · rename_i path content hfound
    split at h
    · cases h
    · rename_i hload
      cases h
      exact ⟨path, content, hfound, hload⟩

/-- A look-up that goes well loads the package and no other, and leaves a file fewer to find. -/
theorem grows_of_lookUp {state : ImportState} {loaded : Loaded} (hnew : ¬Known state source)
    (hfind : lookUp fs libpath state.env source = .loaded loaded env) :
    Grows fs state { lookingUp state source with env } ∧
      (∀ p, env.hasPackage p = true ↔
        Utf8.decodeLossy source = p ∨ state.env.hasPackage p = true) ∧
      missing fs env < missing fs state.env := by
  obtain ⟨path, content, hfound, hload⟩ := lookUp_eq_loaded hfind
  obtain ⟨unit, -, -, rfl, hgrows, -, hlt⟩ :=
    grows_of_loadPackage (not_known_iff.mp hnew).1 hfound hload
  refine ⟨hgrows, fun p => ?_, hlt⟩
  rw [Environment.hasPackage, Dictionary.contains, Environment.find?_definePackage]
  by_cases hp : p = Utf8.decodeLossy source
  · simp [hp]
  · simp [hp, Ne.symm hp, Environment.hasPackage, Dictionary.contains]

theorem Imports.grows (h : Imports fs libpath before names lookups result after) :
    Grows fs before after := by
  induction h with
  | done state => exact .refl fs state
  | known hknown hrest ih => exact ih
  | fault hnew hfind => exact ⟨fun p _ => rfl, (Grows.refl fs _).added⟩
  | refused hnew hfind hrest ih => exact ⟨ih.kept, ih.added⟩
  | loaded hnew hfind hinner houter ihinner ihouter =>
    exact ((grows_of_lookUp hnew hfind).1.trans ihinner).trans ihouter
  | innerFault hnew hfind hinner ih => exact (grows_of_lookUp hnew hfind).1.trans ih

/-- Only packages are looked up that are not loaded. -/
theorem Imports.not_hasPackage (h : Imports fs libpath before names lookups result after) :
    ∀ l ∈ lookups, before.env.hasPackage l.name = false := by
  have hmono : ∀ {state state' : ImportState} {p}, Grows fs state state' →
      state'.env.hasPackage p = false → state.env.hasPackage p = false := by
    intro state state' p hgrows hp
    exact Bool.eq_false_iff.mpr fun hbefore => Bool.eq_false_iff.mp hp (hgrows.hasPackage hbefore)
  induction h with
  | done state => exact nofun
  | known hknown hrest ih => exact ih
  | fault hnew hfind => exact List.forall_mem_singleton.mpr (not_known_iff.mp hnew).1
  | refused hnew hfind hrest ih => exact List.forall_mem_cons.mpr ⟨(not_known_iff.mp hnew).1, ih⟩
  | loaded hnew hfind hinner houter ihinner ihouter =>
    have hgrows := (grows_of_lookUp hnew hfind).1
    refine List.forall_mem_cons.mpr ⟨(not_known_iff.mp hnew).1, fun l hl => ?_⟩
    rcases List.mem_append.mp hl with hl | hl
    · exact hmono hgrows (ihinner l hl)
    · exact hmono (hgrows.trans hinner.grows) (ihouter l hl)
  | innerFault hnew hfind hinner ih =>
    refine List.forall_mem_cons.mpr ⟨(not_known_iff.mp hnew).1, fun l hl => ?_⟩
    exact hmono (grows_of_lookUp hnew hfind).1 (ih l hl)

/-- Loaded is what was loaded before, and what is by a look-up. -/
theorem Imports.hasPackage_iff (h : Imports fs libpath before names lookups result after)
    (p : String) : after.env.hasPackage p = true ↔ before.env.hasPackage p = true ∨
      ∃ l ∈ lookups, l.name = p ∧ l.finding.isLoaded = true := by
  induction h with
  | done state => simp
  | known hknown hrest ih => exact ih
  | fault hnew hfind => simp [lookingUp, Finding.isLoaded]
  | refused hnew hfind hrest ih => simpa [lookingUp, Finding.isLoaded] using ih
  | loaded hnew hfind hinner houter ihinner ihouter =>
    rw [ihouter, ihinner, (grows_of_lookUp hnew hfind).2.1, List.exists_mem_cons_iff]
    simp only [List.mem_append, or_and_right, exists_or, Finding.isLoaded_loaded, and_true,
      or_assoc]
    exact or_left_comm
  | innerFault hnew hfind hinner ih =>
    rw [ih, (grows_of_lookUp hnew hfind).2.1, List.exists_mem_cons_iff]
    simp only [Finding.isLoaded_loaded, and_true, or_assoc]
    exact or_left_comm

/-! ## The way that is taken -/

variable {deeper : List Bytes → Importing Bool} {levels : Nat}

/-- Importing one package is passing it over or looking it up, and importing what it imports. -/
theorem run_importOne_eq (fs : FileSystem) (libpath : Bytes) (deeper : List Bytes → Importing Bool)
    (source : Bytes) (state : ImportState) [Decidable (Known state source)] :
    (importOne fs libpath deeper source).run.run state =
      if Known state source then (.ok true, state)
      else match lookUp fs libpath state.env source with
        | .fault fault => (.error fault, lookingUp state source)
        | .refused problems =>
          (.ok false, { lookingUp state source with messages := state.messages ++ problems })
        | .loaded loaded env =>
          (deeper (namesOf loaded.imports)).run.run { lookingUp state source with env } := by
  rw [run_importOne]
  dsimp only
  by_cases hknown : Known state source
  · rw [if_pos hknown, if_pos]
    rwa [Bool.or_eq_true, List.contains_iff_mem]
  · rw [if_neg hknown, if_neg]
    · unfold lookUp
      cases findIn fs source (directories libpath) with
      | error fault => rfl
      | ok file =>
        cases file with
        | none => rfl
        | some file =>
          dsimp only
          cases state.env.loadPackage _ _ _ with
          | error problems => rfl
          | ok stored => rfl
    · rwa [Bool.or_eq_true, List.contains_iff_mem]

/-- As long as there are fewer files to find than levels left, the rules are followed. -/
def Follows (fs : FileSystem) (libpath : Bytes) (levels : Nat)
    (importing : List Bytes → Importing Bool) : Prop :=
  ∀ names state, missing fs state.env < levels → ∃ lookups,
    Imports fs libpath state names lookups ((importing names).run.run state).1
      ((importing names).run.run state).2

theorem follows_importEach (hdeeper : Follows fs libpath levels deeper) :
    Follows fs libpath (levels + 1) (importEach fs libpath deeper) := by
  classical
  intro names
  induction names with
  | nil => exact fun state _ => ⟨[], .done state⟩
  | cons source names ih =>
    intro state hlevels
    rw [run_importEach_cons, run_importOne_eq]
    by_cases hknown : Known state source
    · rw [if_pos hknown]
      obtain ⟨lookups, hrest⟩ := ih state hlevels
      refine ⟨lookups, .known hknown ?_⟩
      dsimp only
      cases hresult : ((importEach fs libpath deeper names).run.run state).1 <;>
        rw [hresult] at hrest <;> exact hrest
    rw [if_neg hknown]
    cases hfind : lookUp fs libpath state.env source with
    | fault fault => exact ⟨_, .fault hknown hfind⟩
    | refused problems =>
      obtain ⟨lookups, hrest⟩ := ih { lookingUp state source with
        messages := state.messages ++ problems } hlevels
      exact ⟨_, .refused hknown hfind hrest⟩
    | loaded loaded env =>
      obtain ⟨-, -, hlt⟩ := grows_of_lookUp hknown hfind
      obtain ⟨inner, hinner⟩ := hdeeper (namesOf loaded.imports) { lookingUp state source with env }
        (by dsimp only; omega)
      dsimp only
      cases hrun :
          (deeper (namesOf loaded.imports)).run.run { lookingUp state source with env } with
      | mk first middle =>
        rw [hrun] at hinner
        cases first with
        | error fault => exact ⟨_, .innerFault hknown hfind hinner⟩
        | ok ok =>
          have hless : missing fs middle.env ≤ missing fs env :=
            missing_mono fun p => hinner.grows.hasPackage
          obtain ⟨outer, houter⟩ := ih middle (by omega)
          exact ⟨_, .loaded hknown hfind hinner houter⟩

theorem follows_importAll (fs : FileSystem) (libpath : Bytes) (levels : Nat) :
    Follows fs libpath levels (importAll fs libpath levels) := by
  induction levels with
  | zero => exact fun names state hlevels => absurd hlevels (Nat.not_lt_zero _)
  | succ levels ih => exact follows_importEach ih

/-- An import comes to an end by the rules. -/
theorem exists_imports (fs : FileSystem) (libpath : Bytes) (env : Environment)
    (names : List Bytes) : ∃ lookups, Imports fs libpath { env } names lookups
      (run fs libpath env names).1 (run fs libpath env names).2 :=
  follows_importAll fs libpath _ names { env } (Nat.lt_succ_of_le (missing_le fs env))

/-- Whatever the files are and whatever the packages in them import, an import comes to an end, in
one way. It looks up no name twice and no package that was loaded before, leaves these alone, and
goes well if and only if each package that it looks up is found and loaded. -/
theorem imports_terminate (fs : FileSystem) (libpath : Bytes) (env : Environment)
    (names : List Bytes) :
    ∃ lookups,
      (∀ lookups' result after, Imports fs libpath { env } names lookups' result after ↔
        lookups' = lookups ∧ (result, after) = run fs libpath env names) ∧
      (lookups.map (·.name)).Nodup ∧
      (∀ l ∈ lookups, env.hasPackage l.name = false) ∧
      (∀ p, env.hasPackage p = true →
        (run fs libpath env names).2.env.packages.find? p = env.packages.find? p) ∧
      ((run fs libpath env names).1 = .ok true ↔ ∀ l ∈ lookups, l.finding.isLoaded = true) ∧
      ∀ l ∈ lookups, l.finding.isLoaded = (run fs libpath env names).2.env.hasPackage l.name := by
  obtain ⟨lookups, h⟩ := exists_imports fs libpath env names
  have hnodup : (lookups.map (·.name)).Nodup := by
    have hseen := h.nodup List.nodup_nil
    rw [h.seen_eq, List.append_nil] at hseen
    exact List.nodup_reverse.mp hseen
  refine ⟨lookups, fun lookups' result after => ⟨fun h' => ?_, ?_⟩, hnodup, h.not_hasPackage,
    h.grows.kept, h.ok_iff, fun l hl => ?_⟩
  · obtain ⟨hlookups, hresult, hafter⟩ := h.unique h'
    exact ⟨hlookups, Prod.ext hresult hafter⟩
  · rintro ⟨rfl, hrun⟩
    rw [← hrun] at h
    exact h
  · -- The package can only have been loaded by this look-up, the one of its name.
    rw [Bool.eq_iff_iff, h.hasPackage_iff]
    refine ⟨fun hloaded => .inr ⟨l, hl, rfl, hloaded⟩, ?_⟩
    rintro (hbefore | ⟨l', hl', hname, hloaded⟩)
    · cases (h.not_hasPackage l hl).symm.trans hbefore
    · rwa [← List.inj_on_of_nodup_map hnodup hl' hl hname]

end PatternEngine.Import
