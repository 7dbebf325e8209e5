import PatternEngine.Proofs.Engine.PackageFiles

/-!
# What an import loads

A package is loaded before the packages that it imports, and a name is looked for at most once.
Packages that were loaded before are left alone. When all goes well, the names that were asked for
are loaded and so is whatever the packages import that were loaded, however far away: the bound on
the levels is never met, since each level has a file fewer to find.
-/

namespace PatternEngine

/-! ## Loading a source -/

namespace Environment

variable {env env' : Environment} {name text : String} {origin : Option String} {loaded : Loaded}

theorem hasPackage_eq_true_iff : env.hasPackage name = true ↔
    ∃ package, env.packages.find? name = some package := Option.isSome_iff_exists

theorem hasPackage_eq_false_iff : env.hasPackage name = false ↔ env.packages.find? name = none :=
  Option.isSome_eq_false_iff.trans Option.isNone_iff_eq_none

/-- A package is stored as its source says. -/
theorem loadPackage_eq_ok (h : env.loadPackage name text origin = .ok (loaded, env')) :
    ∃ source, readUnit text = .ok source ∧ source.package = some name ∧
      loaded.imports = source.imports ∧ env' = env.definePackage name source origin := by
  obtain ⟨source, hsource, h⟩ := Except.exists_of_bind_eq_ok (Except.mapError_eq_ok.mp h)
  split at h
  · rename_i hproblems
    cases h
    refine ⟨source, hsource, ?_, rfl, rfl⟩
    have hdeclared := (List.append_eq_nil_iff.mp (List.append_eq_nil_iff.mp hproblems).1).2
    unfold SourceUnit.wrongDeclaration at hdeclared
    split at hdeclared
    · cases hdeclared
    · rename_i declared hpackage
      split at hdeclared
      · rename_i heq
        rw [hpackage, heq]
      · cases hdeclared
  · cases h

theorem find?_definePackage (env : Environment) (name other : String) (source : SourceUnit)
    (origin : Option String) : (env.definePackage name source origin).packages.find? other =
      if other = name then some ⟨source.scope, origin⟩ else env.packages.find? other :=
  Dictionary.find?_insert _ _ _ _

/-- A source that declares a package is stored as that package, and no other package is changed. -/
theorem load_eq_ok (h : env.load text origin = .ok (loaded, env')) :
    ∃ source, readUnit text = .ok source ∧ loaded = ⟨source.package, source.imports⟩ ∧
      (∀ p, source.package = some p → env'.packages.find? p = some ⟨source.scope, origin⟩) ∧
      ∀ p, source.package ≠ some p → env'.packages.find? p = env.packages.find? p := by
  obtain ⟨source, hsource, h⟩ := Except.exists_of_bind_eq_ok (Except.mapError_eq_ok.mp h)
  refine ⟨source, hsource, ?_⟩
  unfold store at h
  split at h
  · rename_i name hname
    split at h
    · cases h
      rw [hname]
      refine ⟨rfl, fun p hp => ?_, fun p hp => ?_⟩
      · cases hp
        exact (find?_definePackage env name name source origin).trans (if_pos rfl)
      · refine (find?_definePackage env name p source origin).trans (if_neg ?_)
        exact fun heq => hp (congrArg some heq.symm)
    · cases h
  · rename_i hname
    split at h
    · cases h
      rw [hname]
      exact ⟨rfl, nofun, fun p _ => rfl⟩
    · cases h

end Environment

namespace Import

variable {fs : FileSystem} {libpath source : Bytes} {deeper : List Bytes → Importing Bool}
  {names : List Bytes} {result : Except EngineError Bool} {before after : ImportState}
  {levels : Nat}

/-- A step goes on where the one before it succeeded. -/
theorem run_bind {α β : Type} (x : Importing α) (f : α → Importing β) (state : ImportState) :
    (x >>= f).run.run state = match x.run.run state with
      | (.ok a, next) => (f a).run.run next
      | (.error fault, next) => (.error fault, next) := by
  rw [ExceptT.run_bind, StateT.run_bind]
  obtain ⟨result, next⟩ := x.run.run state
  cases result <;> rfl

/-- What importing one package does: nothing when it is known, and otherwise it is looked for, and
loaded before the packages that it imports. -/
inductive One (fs : FileSystem) (libpath : Bytes) (deeper : List Bytes → Importing Bool)
    (source : Bytes) (before : ImportState) : Except EngineError Bool → ImportState → Prop
  | known (h : before.env.hasPackage (Utf8.decodeLossy source) = true ∨
      Utf8.decodeLossy source ∈ before.seen) :
    One fs libpath deeper source before (.ok true) before
  | failed {result : Except EngineError Bool} {after : ImportState} (hresult : result ≠ .ok true)
      (henv : after.env = before.env)
      (hseen : after.seen = Utf8.decodeLossy source :: before.seen) :
    One fs libpath deeper source before result after
  | loaded {path : String} {content : Bytes} {loaded : Loaded} {env : Environment}
      {result : Except EngineError Bool} {after : ImportState}
      (hnew : before.env.hasPackage (Utf8.decodeLossy source) = false)
      (hfound : findIn fs source (directories libpath) = .ok (some (path, content)))
      (hload : before.env.loadPackage (Utf8.decodeLossy source) (Utf8.decodeLossy content)
        (some path) = .ok (loaded, env))
      (hdeeper : (deeper (namesOf loaded.imports)).run.run { before with
        seen := Utf8.decodeLossy source :: before.seen, env } = (result, after)) :
    One fs libpath deeper source before result after

/-- Reports change neither the definitions nor the names that were looked for. -/
theorem forM_report (problems : List Violation) (state : ImportState) :
    (problems.forM report).run.run state =
      (.ok (), { state with messages := state.messages ++ problems }) := by
  induction problems generalizing state with
  | nil =>
    rw [List.append_nil]
    rfl
  | cons problem problems ih =>
    change (problems.forM report).run.run
      { state with messages := state.messages ++ [problem] } = _
    rw [ih, List.append_assoc]
    rfl

/-- What importing one package comes to. -/
theorem run_importOne (fs : FileSystem) (libpath : Bytes) (deeper : List Bytes → Importing Bool)
    (source : Bytes) (state : ImportState) :
    (importOne fs libpath deeper source).run.run state =
      if state.env.hasPackage (Utf8.decodeLossy source) ||
          state.seen.contains (Utf8.decodeLossy source) then (.ok true, state)
      else
        let searched := { state with seen := Utf8.decodeLossy source :: state.seen }
        match findIn fs source (directories libpath) with
        | .error fault => (.error fault, searched)
        | .ok none => (.ok false, { searched with messages := state.messages ++
            [{ cause := .importing (.notFound (Utf8.decodeLossy source)
                (Utf8.decodeLossy libpath)) }] })
        | .ok (some (path, content)) =>
          match state.env.loadPackage (Utf8.decodeLossy source) (Utf8.decodeLossy content)
              (some path) with
          | .error problems => (.ok false, { searched with messages := state.messages ++ problems })
          | .ok (loaded, env) =>
            (deeper (namesOf loaded.imports)).run.run { searched with env } := by
  unfold importOne
  change StateT.run (ExceptT.run (if _ then _ else _)) state = _
  split
  · rfl
  cases findIn fs source (directories libpath) with
  | error fault => rfl
  | ok file =>
    cases file with
    | none => rfl
    | some file =>
      obtain ⟨path, content⟩ := file
      dsimp only
      cases hload : state.env.loadPackage (Utf8.decodeLossy source) (Utf8.decodeLossy content)
          (some path) with
      | error problems =>
        change StateT.run (ExceptT.run (problems.forM report >>= fun _ => pure false)) _ = _
        rw [run_bind, forM_report]
        rfl
      | ok stored => rfl

/-- What importing packages one after another comes to. -/
theorem run_importEach_cons (fs : FileSystem) (libpath : Bytes)
    (deeper : List Bytes → Importing Bool) (source : Bytes) (names : List Bytes)
    (state : ImportState) :
    (importEach fs libpath deeper (source :: names)).run.run state =
      match (importOne fs libpath deeper source).run.run state with
      | (.error fault, middle) => (.error fault, middle)
      | (.ok first, middle) =>
        let others := (importEach fs libpath deeper names).run.run middle
        (others.1.map (first && ·), others.2) := by
  rw [importEach, run_bind]
  cases (importOne fs libpath deeper source).run.run state with
  | mk first middle =>
    cases first with
    | error fault => rfl
    | ok first =>
      dsimp only
      rw [run_bind]
      cases (importEach fs libpath deeper names).run.run middle with
      | mk others last => cases others <;> rfl

theorem one_of_importOne
    (h : (importOne fs libpath deeper source).run.run before = (result, after)) :
    One fs libpath deeper source before result after := by
  rw [run_importOne] at h
  dsimp only at h
  split at h
  · rename_i hknown
    cases h
    rw [Bool.or_eq_true, List.contains_iff_mem] at hknown
    exact .known hknown
  rename_i hknown
  rw [Bool.or_eq_true, not_or] at hknown
  split at h
  · cases h
    exact .failed nofun rfl rfl
  · cases h
    exact .failed nofun rfl rfl
  · rename_i hfound
    split at h
    · cases h
      exact .failed nofun rfl rfl
    · rename_i hload
      exact .loaded (Bool.eq_false_iff.mpr hknown.1) hfound hload h

/-! ## What is loaded -/

/-- The source that a file holds. -/
def unitOfFile? (fs : FileSystem) (path : String) : Option SourceUnit :=
  match fs.openForReading (Bytes.ofString path) with
  | .error _ => none
  | .ok content => (Environment.readUnit (Utf8.decodeLossy (content.getD []))).toOption

/-- The package is stored as the source in its file says. -/
def FromFile (fs : FileSystem) (name : String) (package : Package) : Prop :=
  ∃ path source, unitOfFile? fs path = some source ∧ source.package = some name ∧
    package = ⟨source.scope, some path⟩

/-- All that an import changes: packages that were not loaded are, each as its file says. -/
structure Grows (fs : FileSystem) (before after : ImportState) : Prop where
  kept : ∀ p, before.env.hasPackage p = true →
    after.env.packages.find? p = before.env.packages.find? p
  added : ∀ p package, before.env.hasPackage p = false →
    after.env.packages.find? p = some package → FromFile fs p package

theorem Grows.refl (fs : FileSystem) (state : ImportState) : Grows fs state state where
  kept _ _ := rfl
  added p package hp hpackage := by
    cases (Environment.hasPackage_eq_false_iff.mp hp).symm.trans hpackage

/-- A package that is loaded stays so. -/
theorem Grows.hasPackage (h : Grows fs before after) {p : String}
    (hp : before.env.hasPackage p = true) : after.env.hasPackage p = true := by
  rw [Environment.hasPackage, Dictionary.contains, h.kept p hp]
  exact hp

theorem Grows.trans {middle : ImportState} (h : Grows fs before middle)
    (h' : Grows fs middle after) : Grows fs before after where
  kept p hp := (h'.kept p (h.hasPackage hp)).trans (h.kept p hp)
  added p package hp hpackage := by
    cases hmiddle : middle.env.hasPackage p with
    | false => exact h'.added p package hmiddle hpackage
    | true => exact h.added p package hp ((h'.kept p hmiddle).symm.trans hpackage)

/-- All goes well: the names that are asked for are loaded and so are the imports of the packages
that are, unless they were looked for before. -/
structure Complete (fs : FileSystem) (names : List Bytes) (before after : ImportState) : Prop where
  asked : ∀ source ∈ names, after.env.hasPackage (Utf8.decodeLossy source) = true ∨
    Utf8.decodeLossy source ∈ before.seen
  seen : ∀ p ∈ after.seen, p ∈ before.seen ∨ after.env.hasPackage p = true
  imports : ∀ p path unit, before.env.hasPackage p = false →
    after.env.packageOrigin? p = some path → unitOfFile? fs path = some unit →
    ∀ decl ∈ unit.imports, after.env.hasPackage decl.package = true ∨ decl.package ∈ before.seen

/-- Nothing is to be done for names that are known. -/
theorem Complete.of_known (h : ∀ source ∈ names, before.env.hasPackage (Utf8.decodeLossy source) =
    true ∨ Utf8.decodeLossy source ∈ before.seen) : Complete fs names before before where
  asked := h
  seen p hp := .inl hp
  imports p path unit hp hpath := by
    rw [Environment.packageOrigin?, Environment.hasPackage_eq_false_iff.mp hp] at hpath
    cases hpath

/-- One import after another. -/
theorem Complete.append {middle : ImportState} {more : List Bytes} (hgrows' : Grows fs middle after)
    (h : Complete fs names before middle) (h' : Complete fs more middle after) :
    Complete fs (names ++ more) before after := by
  -- What was looked for in the meantime was found.
  have hseen : ∀ p, after.env.hasPackage p = true ∨ p ∈ middle.seen →
      after.env.hasPackage p = true ∨ p ∈ before.seen := by
    rintro p (hp | hp)
    · exact .inl hp
    · exact (h.seen p hp).symm.imp_left hgrows'.hasPackage
  refine ⟨fun source hsource => ?_, fun p hp => ?_, fun p path unit hp hpath hunit decl hdecl => ?_⟩
  · rcases List.mem_append.mp hsource with hsource | hsource
    · exact (h.asked source hsource).imp_left hgrows'.hasPackage
    · exact hseen _ (h'.asked source hsource)
  · rcases h'.seen p hp with hp | hp
    · exact (h.seen p hp).imp_right hgrows'.hasPackage
    · exact .inr hp
  · cases hmiddle : middle.env.hasPackage p with
    | false => exact hseen _ (h'.imports p path unit hmiddle hpath hunit decl hdecl)
    | true =>
      have horigin : middle.env.packageOrigin? p = some path := by
        rw [← hpath, Environment.packageOrigin?, Environment.packageOrigin?, hgrows'.kept p hmiddle]
      exact (h.imports p path unit hp horigin hunit decl hdecl).imp_left hgrows'.hasPackage

/-- Importing with fewer files to find than levels left is complete if it goes well. -/
def Sound (fs : FileSystem) (levels : Nat) (importing : List Bytes → Importing Bool) : Prop :=
  ∀ {names before result after}, (importing names).run.run before = (result, after) →
    Grows fs before after ∧ (missing fs before.env < levels → result = .ok true →
      Complete fs names before after)

/-- The packages that the source in a file imports have names that can be written. -/
theorem namesPackages_of_unitOfFile? {path : String} {unit : SourceUnit}
    (h : unitOfFile? fs path = some unit) : unit.NamesPackages := by
  unfold unitOfFile? at h
  split at h
  · cases h
  · rename_i content hcontent
    cases hread : Environment.readUnit (Utf8.decodeLossy (content.getD [])) with
    | error problems =>
      rw [hread] at h
      cases h
    | ok source =>
      rw [hread] at h
      cases h
      exact SourceUnit.namesPackages_of_readUnit hread

/-- A package that is found is loaded as its file says, and then there is a file fewer to find. -/
theorem grows_of_loadPackage {path : String} {content : Bytes} {loaded : Loaded} {env : Environment}
    (hnew : before.env.hasPackage (Utf8.decodeLossy source) = false)
    (hfound : findIn fs source (directories libpath) = .ok (some (path, content)))
    (hload : before.env.loadPackage (Utf8.decodeLossy source) (Utf8.decodeLossy content)
      (some path) = .ok (loaded, env)) :
    ∃ unit, unitOfFile? fs path = some unit ∧ loaded.imports = unit.imports ∧
      env = before.env.definePackage (Utf8.decodeLossy source) unit (some path) ∧
      Grows fs before { before with seen := Utf8.decodeLossy source :: before.seen, env } ∧
      env.hasPackage (Utf8.decodeLossy source) = true ∧ missing fs env < missing fs before.env := by
  obtain ⟨unit, hread, hdeclared, himports, rfl⟩ := Environment.loadPackage_eq_ok hload
  have hname := (SourceUnit.namesPackages_of_readUnit hread).package _ hdeclared
  have hfile : unitOfFile? fs path = some unit := by
    rw [unitOfFile?, (of_findIn hfound).2]
    dsimp only [Option.getD_some]
    rw [hread]
    rfl
  have hother : ∀ p, p ≠ Utf8.decodeLossy source →
      (before.env.definePackage (Utf8.decodeLossy source) unit (some path)).packages.find? p =
        before.env.packages.find? p := fun p hp =>
    (Environment.find?_definePackage _ _ _ _ _).trans (if_neg hp)
  have hself : (before.env.definePackage (Utf8.decodeLossy source) unit (some path)).packages.find?
      (Utf8.decodeLossy source) = some ⟨unit.scope, some path⟩ :=
    (Environment.find?_definePackage _ _ _ _ _).trans (if_pos rfl)
  have hloaded : (before.env.definePackage (Utf8.decodeLossy source) unit (some path)).hasPackage
      (Utf8.decodeLossy source) = true :=
    Environment.hasPackage_eq_true_iff.mpr ⟨_, hself⟩
  have hgrows : Grows fs before { before with
      seen := Utf8.decodeLossy source :: before.seen
      env := before.env.definePackage (Utf8.decodeLossy source) unit (some path) } := by
    refine ⟨fun p hp => hother p ?_, fun p package hp hpackage => ?_⟩
    · rintro rfl
      cases hnew.symm.trans hp
    · by_cases heq : p = Utf8.decodeLossy source
      · subst heq
        cases hself.symm.trans hpackage
        exact ⟨path, unit, hfile, hdeclared, rfl⟩
      · rw [Environment.hasPackage_eq_false_iff, ← hother p heq] at hp
        cases hp.symm.trans hpackage
  refine ⟨unit, hfile, himports, rfl, hgrows, hloaded, ?_⟩
  rw [hname.eq_ofString] at hfound
  have hfile' := exists_file_of_findIn hname hfound
  exact missing_lt (fun p hp => hgrows.hasPackage hp) hfile' hnew hloaded

/-- One package is imported with one level more than the packages that it imports. -/
theorem sound_importOne (hdeeper : Sound fs levels deeper)
    (h : (importOne fs libpath deeper source).run.run before = (result, after)) :
    Grows fs before after ∧ (missing fs before.env < levels + 1 → result = .ok true →
      Complete fs [source] before after) := by
  cases one_of_importOne h with
  | known hknown =>
    exact ⟨.refl fs before, fun _ _ => .of_known (List.forall_mem_singleton.mpr hknown)⟩
  | failed hresult henv hseen =>
    refine ⟨⟨fun p _ => by rw [henv], fun p package hp hpackage => ?_⟩,
      fun _ hok => absurd hok hresult⟩
    rw [henv] at hpackage
    cases (Environment.hasPackage_eq_false_iff.mp hp).symm.trans hpackage
  | loaded hnew hfound hload hrun =>
    rename_i path content loaded env
    obtain ⟨unit, hfile, himports, henv, hgrows, hloaded, hlt⟩ :=
      grows_of_loadPackage hnew hfound hload
    obtain ⟨hgrows', hcomplete⟩ := hdeeper hrun
    refine ⟨hgrows.trans hgrows', fun hlevels hok => ?_⟩
    have hall := hcomplete (by dsimp only; omega) hok
    have hself := hgrows'.hasPackage hloaded
    -- The package itself is among those that were looked for.
    have hseen : ∀ p, after.env.hasPackage p = true ∨ p ∈ Utf8.decodeLossy source :: before.seen →
        after.env.hasPackage p = true ∨ p ∈ before.seen := by
      rintro p (hp | hp)
      · exact .inl hp
      · rcases List.mem_cons.mp hp with rfl | hp
        · exact .inl hself
        · exact .inr hp
    refine ⟨List.forall_mem_singleton.mpr (.inl hself), fun p hp => ?_,
      fun p path unit' hp hpath hunit decl hdecl => ?_⟩
    · rcases hall.seen p hp with hp | hp
      · exact (hseen p (.inr hp)).symm
      · exact .inr hp
    · cases hmiddle : env.hasPackage p with
      | false => exact hseen _ (hall.imports p path unit' hmiddle hpath hunit decl hdecl)
      | true =>
        -- Only the package itself was loaded before its imports were.
        have hpackage : p = Utf8.decodeLossy source := by
          by_contra hne
          rw [henv, Environment.hasPackage, Dictionary.contains, Environment.find?_definePackage,
            if_neg hne] at hmiddle
          cases hp.symm.trans hmiddle
        subst hpackage
        rw [Environment.packageOrigin?, hgrows'.kept _ hloaded] at hpath
        dsimp only at hpath
        rw [henv, Environment.find?_definePackage, if_pos rfl] at hpath
        cases hpath
        cases hfile.symm.trans hunit
        have hname := (namesPackages_of_unitOfFile? hfile).imports decl hdecl
        have hasked := hall.asked (Bytes.ofString decl.package)
          (List.mem_map.mpr ⟨decl, himports ▸ hdecl, rfl⟩)
        rw [hname.decodeLossy_ofString] at hasked
        exact hseen _ hasked

/-- Packages are imported one after another, each with one level more than those that it imports. -/
theorem sound_importEach (hdeeper : Sound fs levels deeper) :
    Sound fs (levels + 1) (importEach fs libpath deeper) := by
  intro names before result after h
  induction names generalizing before result after with
  | nil =>
    cases h
    exact ⟨.refl fs before, fun _ _ => .of_known nofun⟩
  | cons source names ih =>
    rw [run_importEach_cons] at h
    cases hfirst : (importOne fs libpath deeper source).run.run before with
    | mk first middle =>
      rw [hfirst] at h
      obtain ⟨hgrows, hcomplete⟩ := sound_importOne hdeeper hfirst
      cases first with
      | error fault =>
        cases h
        exact ⟨hgrows, fun _ => nofun⟩
      | ok first =>
        dsimp only at h
        cases hothers : (importEach fs libpath deeper names).run.run middle with
        | mk others last =>
          rw [hothers] at h
          obtain ⟨hgrows', hcomplete'⟩ := ih hothers
          cases h
          refine ⟨hgrows.trans hgrows', fun hlevels hok => ?_⟩
          have hlevels' : missing fs middle.env < levels + 1 :=
            (missing_mono fun p => hgrows.hasPackage).trans_lt hlevels
          cases others with
          | error fault => cases hok
          | ok others =>
            obtain ⟨rfl, rfl⟩ := Bool.and_eq_true_iff.mp (Except.ok.inj hok)
            exact (hcomplete hlevels rfl).append hgrows' (hcomplete' hlevels' rfl)

/-- Importing at most so many imports away is complete if there are fewer files to find. -/
theorem sound_importAll (fs : FileSystem) (libpath : Bytes) (levels : Nat) :
    Sound fs levels (importAll fs libpath levels) := by
  induction levels with
  | zero =>
    intro names before result after h
    cases h
    exact ⟨.refl fs before, fun hlevels => absurd hlevels (Nat.not_lt_zero _)⟩
  | succ levels ih => exact sound_importEach ih

variable {env : Environment}

/-- An import leaves loaded packages alone. When it goes well, it loads all names that it is asked
for and all imports of the packages that it loads. -/
theorem run_sound (h : run fs libpath env names = (result, after)) : Grows fs { env } after ∧
    (result = .ok true → Complete fs names { env } after) := by
  obtain ⟨hgrows, hcomplete⟩ := sound_importAll fs libpath _ h
  refine ⟨hgrows, hcomplete ?_⟩
  exact Nat.lt_succ_of_le (missing_le fs env)

end Import

end PatternEngine
