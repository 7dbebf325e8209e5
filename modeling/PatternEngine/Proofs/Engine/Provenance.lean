import PatternEngine.Engine.Basic
import PatternEngine.Proofs.Engine.Importing

/-!
# Where loaded packages come from

A package that is loaded is stored as a source says: the one in the file it was read from, or else
the text that it was loaded from last. Which packages it imports is asked of that source, since the
package itself keeps no more than what stands behind its prefixes. A request that goes well leaves
no import of a loaded package behind that is not loaded, unless there was one before.
-/

namespace PatternEngine

/-- Definitions, with the texts that packages were loaded from that were not read from a file. -/
structure Holdings where
  /-- The definitions. -/
  env : Environment := {}
  /-- The text that each package was loaded from last. -/
  texts : Dictionary String := .empty

namespace Holdings

variable {fs : FileSystem} {before middle after : Holdings} {p q : String}

/-- The source that a package comes from, which was read from this file, if any. -/
def unitFrom? (fs : FileSystem) (texts : Dictionary String) (p : String) :
    Option String → Option SourceUnit
  | some path => Import.unitOfFile? fs path
  | none => (texts.find? p).bind fun text => (Environment.readUnit text).toOption

/-- The source of a loaded package. -/
def unit? (fs : FileSystem) (held : Holdings) (p : String) : Option SourceUnit :=
  (held.env.packages.find? p).bind fun package => unitFrom? fs held.texts p package.origin

/-- The first package is loaded, and its source imports the second. -/
def Declares (fs : FileSystem) (held : Holdings) (p q : String) : Prop :=
  ∃ unit ∈ held.unit? fs p, ∃ decl ∈ unit.imports, decl.package = q

/-- All packages that the package imports are loaded. -/
def Settled (fs : FileSystem) (held : Holdings) (p : String) : Prop :=
  ∀ q, held.Declares fs p q → held.env.hasPackage q = true

/-- Each loaded package is stored as its source says. -/
def Sourced (fs : FileSystem) (held : Holdings) : Prop :=
  ∀ p package, held.env.packages.find? p = some package →
    ∃ unit ∈ held.unit? fs p, unit.package = some p ∧ package.scope = unit.scope

/-- What a request does that went well, or did not. -/
structure Step (fs : FileSystem) (ok : Bool) (before after : Holdings) : Prop where
  sourced : before.Sourced fs → after.Sourced fs
  settled : ok = true → (∀ p, before.Settled fs p) → ∀ p, after.Settled fs p

theorem Step.refl (fs : FileSystem) (ok : Bool) (held : Holdings) : Step fs ok held held :=
  ⟨id, fun _ => id⟩

theorem Step.trans {ok ok' : Bool} (h : Step fs ok before middle) (h' : Step fs ok' middle after) :
    Step fs (ok && ok') before after where
  sourced hbefore := h'.sourced (h.sourced hbefore)
  settled hok hbefore := by
    obtain ⟨hfirst, hsecond⟩ := Bool.and_eq_true_iff.mp hok
    exact h'.settled hsecond (h.settled hfirst hbefore)

theorem Step.of_false {ok : Bool} (h : Step fs ok before after) : Step fs false before after :=
  ⟨h.sourced, nofun⟩

/-- A source names packages that can be written. -/
theorem namesPackages_of_unitFrom? {texts : Dictionary String} {origin : Option String}
    {unit : SourceUnit} (h : unitFrom? fs texts p origin = some unit) : unit.NamesPackages := by
  cases origin with
  | some path => exact Import.namesPackages_of_unitOfFile? h
  | none =>
    obtain ⟨text, -, hread⟩ := Option.bind_eq_some_iff.mp h
    cases hunit : Environment.readUnit text with
    | error problems =>
      rw [hunit] at hread
      cases hread
    | ok unit' =>
      rw [hunit] at hread
      cases hread
      exact SourceUnit.namesPackages_of_readUnit hunit

theorem namesPackages_of_unit? {unit : SourceUnit} (h : before.unit? fs p = some unit) :
    unit.NamesPackages := by
  obtain ⟨package, -, hunit⟩ := Option.bind_eq_some_iff.mp h
  exact namesPackages_of_unitFrom? hunit

/-- The names of loaded packages can be written. -/
theorem Sourced.isName (h : before.Sourced fs) (hp : before.env.hasPackage p = true) :
    IsName p := by
  obtain ⟨package, hpackage⟩ := Environment.hasPackage_eq_true_iff.mp hp
  obtain ⟨unit, hunit, hname, -⟩ := h p package hpackage
  exact (namesPackages_of_unit? hunit).package p hname

/-- What is the same package from the same text comes from the same source. -/
theorem unit?_congr (hpackage : after.env.packages.find? p = before.env.packages.find? p)
    (htexts : after.texts.find? p = before.texts.find? p) :
    after.unit? fs p = before.unit? fs p := by
  rw [unit?, unit?, hpackage]
  cases before.env.packages.find? p with
  | none => rfl
  | some package =>
    obtain ⟨scope, origin⟩ := package
    cases origin with
    | none => exact congrArg (Option.bind · _) htexts
    | some path => rfl

theorem settled_of_not_hasPackage (h : before.env.hasPackage p = false) : before.Settled fs p := by
  rintro q ⟨unit, hunit, -⟩
  rw [unit?, Environment.hasPackage_eq_false_iff.mp h] at hunit
  cases hunit

/-- A package that is kept stays settled. -/
theorem Settled.mono (hunit : after.unit? fs p = before.unit? fs p)
    (henv : ∀ q, before.env.hasPackage q = true → after.env.hasPackage q = true)
    (h : before.Settled fs p) : after.Settled fs p := by
  rintro q ⟨unit, hmem, hdecl⟩
  exact henv q (h q ⟨unit, hunit ▸ hmem, hdecl⟩)

/-! ## Imports -/

variable {libpath : Bytes} {names : List Bytes} {result : Except EngineError Bool}
  {imported : ImportState}

/-- A package that an import loads comes from its file. -/
theorem exists_unit?_of_fromFile {package : Package} (after : Holdings)
    (hpackage : after.env.packages.find? p = some package) (h : Import.FromFile fs p package) :
    ∃ path unit, after.env.packageOrigin? p = some path ∧
      Import.unitOfFile? fs path = some unit ∧ after.unit? fs p = some unit ∧
      unit.package = some p ∧ package.scope = unit.scope := by
  obtain ⟨path, unit, hfile, hname, rfl⟩ := h
  refine ⟨path, unit, ?_, hfile, ?_, hname, rfl⟩
  · rw [Environment.packageOrigin?, hpackage]
    rfl
  · rw [unit?, hpackage]
    exact hfile

/-- Imports store packages as their files say. -/
theorem Sourced.run (hsourced : before.Sourced fs)
    (h : Import.run fs libpath before.env names = (result, imported)) :
    Sourced fs { before with env := imported.env } := by
  obtain ⟨hgrows, -⟩ := Import.run_sound h
  intro p package hpackage
  cases hp : before.env.hasPackage p with
  | true =>
    have hkept := hgrows.kept p hp
    have hunit : unit? fs { before with env := imported.env } p = before.unit? fs p :=
      unit?_congr hkept rfl
    rw [hunit]
    exact hsourced p package (hkept.symm.trans hpackage)
  | false =>
    obtain ⟨path, unit, -, -, hunit, hname, hscope⟩ :=
      exists_unit?_of_fromFile { before with env := imported.env } hpackage
        (hgrows.added p package hp hpackage)
    exact ⟨unit, hunit, hname, hscope⟩

/-- An import that goes well settles what it loads, and what it was asked for the imports of. -/
theorem settled_run (before : Holdings)
    (h : Import.run fs libpath before.env names = (.ok true, imported))
    (hp : before.env.hasPackage p = true →
      before.Settled fs p ∨ ∀ q, before.Declares fs p q → Bytes.ofString q ∈ names) :
    Settled fs { before with env := imported.env } p := by
  obtain ⟨hgrows, hcomplete⟩ := Import.run_sound h
  have hall := hcomplete rfl
  cases hbefore : before.env.hasPackage p with
  | true =>
    have hunit : unit? fs { before with env := imported.env } p = before.unit? fs p :=
      unit?_congr (hgrows.kept p hbefore) rfl
    rcases hp hbefore with hsettled | hasked
    · exact hsettled.mono hunit fun q => hgrows.hasPackage
    · rintro q ⟨unit, hmem, decl, hdecl, rfl⟩
      rw [hunit] at hmem
      have hname := (namesPackages_of_unit? hmem).imports decl hdecl
      have hloaded := hall.asked _ (hasked _ ⟨unit, hmem, decl, hdecl, rfl⟩)
      rw [hname.decodeLossy_ofString] at hloaded
      exact hloaded.resolve_right List.not_mem_nil
  | false =>
    rintro q ⟨unit, hmem, decl, hdecl, rfl⟩
    obtain ⟨package, hpackage, -⟩ := Option.bind_eq_some_iff.mp hmem
    obtain ⟨path, unit', horigin, hfile, hunit, -⟩ :=
      exists_unit?_of_fromFile { before with env := imported.env } hpackage
        (hgrows.added p package hbefore hpackage)
    cases hunit.symm.trans hmem
    exact (hall.imports p path unit hbefore horigin hfile decl hdecl).resolve_right List.not_mem_nil

theorem eq_ok_true (h : result.toOption.any id = true) : result = .ok true := by
  cases result with
  | error fault => cases h
  | ok ok => exact congrArg Except.ok h

/-- What imports do. -/
theorem step_run (before : Holdings)
    (h : Import.run fs libpath before.env names = (result, imported)) :
    Step fs (result.toOption.any id) before { before with env := imported.env } where
  sourced hsourced := hsourced.run h
  settled hok hsettled p := by
    cases eq_ok_true hok
    exact settled_run before h fun _ => .inl (hsettled p)

/-! ## Sources -/

variable {source : String} {origin : Option String} {w : Workspace} {loaded : Loaded}
  {env : Environment}

/-- A source is stored before its imports are loaded. -/
theorem load_of_env_load (h : w.env.load source origin = .ok (loaded, env))
    (hrun : Import.run fs w.libpath env (Import.namesOf loaded.imports) = (result, imported)) :
    ((w.load fs source origin).1.toOption.any (·.ok) = result.toOption.any id) ∧
      (w.load fs source origin).2.env = imported.env := by
  rw [Workspace.load, h]
  dsimp only
  rw [hrun]
  cases result with
  | error fault => exact ⟨rfl, rfl⟩
  | ok ok => exact ⟨rfl, rfl⟩

/-- A source that is refused changes nothing. -/
theorem load_of_env_load_error (fs : FileSystem) {problems : List Violation}
    (h : w.env.load source origin = .error problems) :
    (w.load fs source origin).1.toOption.any (·.ok) = false ∧ (w.load fs source origin).2 = w := by
  rw [Workspace.load, h]
  exact ⟨rfl, rfl⟩

/-- What loading a source does where it is recorded which source its package comes from. -/
theorem step_load (hbefore : before.env = w.env)
    (hafter : after.env = (w.load fs source origin).2.env)
    (h : w.env.load source origin = .ok (loaded, env))
    (hself : ∀ unit p, Environment.readUnit source = .ok unit → unit.package = some p →
      unitFrom? fs after.texts p origin = some unit)
    (hother : ∀ p, loaded.package ≠ some p → after.texts.find? p = before.texts.find? p) :
    Step fs ((w.load fs source origin).1.toOption.any (·.ok)) before after := by
  obtain ⟨unit, hread, rfl, hnew, hkept⟩ := Environment.load_eq_ok h
  cases hrun : Import.run fs w.libpath env (Import.namesOf unit.imports) with
  | mk result imported =>
    obtain ⟨hok, henv⟩ := load_of_env_load h hrun
    let stored : Holdings := ⟨env, after.texts⟩
    have hdone : after = { stored with env := imported.env } := by
      rw [← henv, ← hafter]
    have hunit : ∀ p, unit.package = some p → stored.unit? fs p = some unit := by
      intro p hp
      rw [unit?, hnew p hp]
      exact hself unit p hread hp
    have hunit' : ∀ p, unit.package ≠ some p → stored.unit? fs p = before.unit? fs p := by
      intro p hp
      refine unit?_congr ?_ (hother p hp)
      rw [hbefore]
      exact hkept p hp
    have hloaded : ∀ p, before.env.hasPackage p = true → stored.env.hasPackage p = true := by
      intro p hp
      rw [Environment.hasPackage_eq_true_iff]
      by_cases hpackage : unit.package = some p
      · exact ⟨_, hnew p hpackage⟩
      · rw [hkept p hpackage, ← hbefore]
        exact Environment.hasPackage_eq_true_iff.mp hp
    have hsourced : before.Sourced fs → stored.Sourced fs := by
      intro hsourced p package hfind
      by_cases hpackage : unit.package = some p
      · cases (hnew p hpackage).symm.trans hfind
        exact ⟨unit, hunit p hpackage, hpackage, rfl⟩
      · rw [hunit' p hpackage]
        refine hsourced p package ?_
        rw [hbefore, ← hkept p hpackage]
        exact hfind
    rw [hok, hdone]
    refine ⟨fun hbefore => (hsourced hbefore).run hrun, fun hall hsettled p => ?_⟩
    cases eq_ok_true hall
    refine settled_run stored hrun fun _ => ?_
    by_cases hpackage : unit.package = some p
    · refine .inr ?_
      rintro q ⟨unit', hmem, decl, hdecl, rfl⟩
      cases (hunit p hpackage).symm.trans hmem
      exact List.mem_map.mpr ⟨decl, hdecl, rfl⟩
    · exact .inl ((hsettled p).mono (hunit' p hpackage) hloaded)

/-! ## Requests -/

/-- Packages that are the same packages from the same texts are in the same state. -/
theorem Step.of_packages {ok : Bool} (hpackages : after.env.packages = before.env.packages)
    (htexts : after.texts = before.texts) : Step fs ok before after := by
  have hunit : ∀ p, after.unit? fs p = before.unit? fs p := fun p =>
    unit?_congr (by rw [hpackages]) (by rw [htexts])
  refine ⟨fun hsourced p package hpackage => ?_, fun _ hsettled p => ?_⟩
  · rw [hunit]
    exact hsourced p package (hpackages ▸ hpackage)
  · refine (hsettled p).mono (hunit p) fun q hq => ?_
    rwa [Environment.hasPackage, hpackages]

/-- To show a package changes no package. -/
theorem packages_showPackage (w : Workspace) (name : String) (rename : Option String)
    (messages : List Violation) :
    (w.showPackage name rename messages).2.env.packages = w.env.packages := by
  unfold Workspace.showPackage
  split
  · rename_i env hbind
    unfold Environment.bind at hbind
    split at hbind
    · cases hbind
      rfl
    · cases hbind
  · rfl

/-- A package that is loaded already is shown, and any other is imported before it is. -/
theorem importPackage_cases (w : Workspace) (fs : FileSystem) (bytes : Bytes)
    (rename : Option String) :
    w.env.hasPackage (Utf8.decodeLossy bytes) = true ∧
        (w.importPackage fs bytes rename).2.env.packages = w.env.packages ∨
      w.env.hasPackage (Utf8.decodeLossy bytes) = false ∧
        ∃ result imported, Import.run fs w.libpath w.env [bytes] = (result, imported) ∧
          (w.importPackage fs bytes rename).2.env.packages = imported.env.packages ∧
          ((w.importPackage fs bytes rename).1.toOption.any (·.ok) = true → result = .ok true) := by
  unfold Workspace.importPackage
  dsimp only
  cases hloaded : w.env.hasPackage (Utf8.decodeLossy bytes) with
  | true => exact .inl ⟨rfl, packages_showPackage _ _ _ _⟩
  | false =>
    refine .inr ⟨rfl, ?_⟩
    cases hrun : Import.run fs w.libpath w.env [bytes] with
    | mk result imported =>
      refine ⟨result, imported, rfl, ?_⟩
      cases result with
      | error fault => exact ⟨rfl, fun h => by cases h⟩
      | ok ok =>
        cases ok with
        | false => exact ⟨rfl, fun h => by cases h⟩
        | true => exact ⟨packages_showPackage _ _ _ _, fun _ => rfl⟩

/-- What importing a package does. -/
theorem step_importPackage (fs : FileSystem) (texts : Dictionary String) (w : Workspace)
    (bytes : Bytes) (rename : Option String) :
    Step fs ((w.importPackage fs bytes rename).1.toOption.any (·.ok)) ⟨w.env, texts⟩
      ⟨(w.importPackage fs bytes rename).2.env, texts⟩ := by
  rcases importPackage_cases w fs bytes rename with
    ⟨-, hpackages⟩ | ⟨-, result, imported, hrun, hpackages, hok⟩
  · exact .of_packages hpackages rfl
  · have hshown : Step fs true ⟨imported.env, texts⟩
        ⟨(w.importPackage fs bytes rename).2.env, texts⟩ := .of_packages hpackages rfl
    have hstep := (step_run ⟨w.env, texts⟩ hrun).trans hshown
    refine ⟨hstep.sourced, fun hreply => hstep.settled ?_⟩
    rw [hok hreply]
    rfl

/-- What loading the source in a file does. -/
theorem step_loadFile (fs : FileSystem) (texts : Dictionary String) (w : Workspace)
    (path : String) :
    Step fs ((w.loadFile fs path).1.toOption.any (·.ok)) ⟨w.env, texts⟩
      ⟨(w.loadFile fs path).2.env, texts⟩ := by
  cases hcontent : fs.openForReading (Bytes.ofString path) with
  | error fault =>
    rw [Workspace.loadFile, hcontent]
    exact .refl _ _ _
  | ok content =>
    rw [Workspace.loadFile, hcontent]
    dsimp only
    cases hload : w.env.load (Utf8.decodeLossy (content.getD [])) (some path) with
    | error problems =>
      obtain ⟨-, hworkspace⟩ := load_of_env_load_error fs hload
      rw [hworkspace]
      exact .refl _ _ _
    | ok stored =>
      obtain ⟨loaded, env⟩ := stored
      refine step_load rfl rfl hload (fun unit p hread _ => ?_) fun p _ => rfl
      rw [unitFrom?, Import.unitOfFile?, hcontent]
      dsimp only
      rw [hread]
      rfl

/-- What one setting of an rc-file does. -/
theorem step_applyEntry (fs : FileSystem) (texts : Dictionary String) (w : Workspace)
    (entry : RcEntry) :
    Step fs ((w.applyEntry fs entry).1.toOption.any id) ⟨w.env, texts⟩
      ⟨(w.applyEntry fs entry).2.env, texts⟩ := by
  have hmap : ∀ reply : Except EngineError LoadReply,
      (reply.map (·.ok)).toOption.any id = reply.toOption.any (·.ok) := by
    intro reply
    cases reply <;> rfl
  obtain ⟨key, value⟩ := entry
  unfold Workspace.applyEntry
  cases key with
  | libpath => exact .refl _ _ _
  | colors => exact .refl _ _ _
  | loadfile =>
    dsimp only
    cases Utf8.decode? value with
    | none => exact .refl _ _ _
    | some path =>
      dsimp only
      rw [hmap]
      exact step_loadFile fs texts w path
  | importPackage =>
    dsimp only
    rw [hmap]
    exact step_importPackage fs texts w value none

/-- What the settings of an rc-file do. -/
theorem step_applyEntries (fs : FileSystem) (texts : Dictionary String) (w : Workspace)
    (entries : List RcEntry) :
    Step fs ((w.applyEntries fs entries).1.toOption.any id) ⟨w.env, texts⟩
      ⟨(w.applyEntries fs entries).2.env, texts⟩ := by
  induction entries generalizing w with
  | nil => exact .refl _ _ _
  | cons entry entries ih =>
    have hfirst := step_applyEntry fs texts w entry
    rw [Workspace.applyEntries]
    cases hresult : w.applyEntry fs entry with
    | mk first middle =>
      rw [hresult] at hfirst
      cases first with
      | error fault => exact hfirst
      | ok first =>
        have hall := hfirst.trans (ih middle)
        dsimp only
        cases hrest : middle.applyEntries fs entries with
        | mk rest last =>
          rw [hrest] at hall
          cases rest with
          | error fault => exact hall.of_false
          | ok rest => exact hall

/-- What an rc-file does. -/
theorem step_executeRcFile (fs : FileSystem) (texts : Dictionary String) (w : Workspace)
    (path : Bytes) (isDefault : Bool) :
    Step fs ((w.executeRcFile fs path isDefault).1.toOption.any (·.2)) ⟨w.env, texts⟩
      ⟨(w.executeRcFile fs path isDefault).2.env, texts⟩ := by
  unfold Workspace.executeRcFile
  split
  · exact .refl _ _ _
  · exact .refl _ _ _
  · exact .refl _ _ _
  · rename_i entries _
    have hall := step_applyEntries fs texts w entries
    dsimp only
    cases hresult : w.applyEntries fs entries with
    | mk result last =>
      rw [hresult] at hall
      cases result with
      | error fault => exact hall
      | ok ok => exact hall

end Holdings

end PatternEngine
