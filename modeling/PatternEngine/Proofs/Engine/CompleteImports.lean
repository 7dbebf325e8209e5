import PatternEngine.Proofs.Engine.Provenance

/-!
# Complete imports

An import that goes well makes a package usable: all packages that can be reached from it through
imports are loaded. This holds as long as no earlier request went wrong. A package whose imports
could not be loaded stays loaded, and later imports pass it over as one that is loaded already.
-/

namespace PatternEngine

namespace Engine

/-- A request that can load packages, or change where they are looked for. -/
inductive SourceRequest where
  /-- Load a source. -/
  | load (source : String)
  /-- Load the source in a file. -/
  | loadFile (path : String)
  /-- Import a package. -/
  | importPackage (name : String) (rename : Option String)
  /-- Look for packages in other directories. -/
  | setLibpath (path : String)
  /-- Carry out an rc-file. -/
  | executeRcFile (filename : Option String)
  deriving DecidableEq, Repr

/-- Whether a request goes well, and the engine after it. -/
def answer (fs : FileSystem) (e : Engine) : SourceRequest → Bool × Engine
  | .load source =>
    let (reply, e) := e.load fs source
    (reply.toOption.any (·.ok), e)
  | .loadFile path =>
    let (reply, e) := e.loadFile fs path
    (reply.toOption.any (·.ok), e)
  | .importPackage name rename =>
    let (reply, e) := e.importPackage fs name rename
    (reply.toOption.any (·.ok), e)
  | .setLibpath path => (true, e.setLibpath path)
  | .executeRcFile filename =>
    let (outcome, e) := e.executeRcFile fs filename
    (outcome.toOption.any (·.noErrors), e)

end Engine

/-- An engine, with the text that each package was loaded from last that was not read from a file.
-/
structure Session where
  /-- The engine. -/
  engine : Engine
  /-- The texts. -/
  texts : Dictionary String := .empty

namespace Session

open Engine (SourceRequest)

variable {fs : FileSystem} {s : Session} {request : SourceRequest} {requests : List SourceRequest}
  {name p q : String}

/-- A session that begins with an engine that was just booted. -/
def boot (id : Nat) (installation : Installation) : Session := ⟨.boot id installation, .empty⟩

/-- The definitions of a session. -/
def holdings (s : Session) : Holdings := ⟨s.engine.workspace.env, s.texts⟩

/-- The texts after a request: a source that is loaded takes the place of the one before. -/
def textsAfter (s : Session) : SourceRequest → Dictionary String
  | .load source =>
    match s.engine.workspace.env.load source none with
    | .ok (⟨some package, _⟩, _) => s.texts.insert package source
    | _ => s.texts
  | _ => s.texts

/-- The session after a request. -/
def serve (fs : FileSystem) (s : Session) (request : SourceRequest) : Session :=
  ⟨(s.engine.answer fs request).2, s.textsAfter request⟩

/-- The session after several requests. -/
def serveAll (fs : FileSystem) (s : Session) (requests : List SourceRequest) : Session :=
  requests.foldl (serve fs) s

/-- All requests go well. -/
def allGoWell (fs : FileSystem) : Session → List SourceRequest → Bool
  | _, [] => true
  | s, request :: requests =>
    (s.engine.answer fs request).1 && (s.serve fs request).allGoWell fs requests

/-- The package is loaded. -/
def IsLoaded (s : Session) (p : String) : Prop := s.engine.workspace.env.hasPackage p = true

/-- The second package is found by following the imports of loaded packages from the first. -/
def Reaches (fs : FileSystem) (s : Session) : String → String → Prop :=
  Relation.ReflTransGen (s.holdings.Declares fs)

/-- To strip the messages of a reply does not change whether all went well. -/
theorem ok_settleLoad (e : Engine) (result : Except EngineError LoadReply × Workspace) :
    (e.settleLoad result).1.toOption.any (·.ok) = result.1.toOption.any (·.ok) := by
  obtain ⟨reply, w⟩ := result
  cases reply <;> rfl

/-- What loading a source does. -/
theorem step_load (s : Session) (source : String) :
    Holdings.Step fs (s.engine.answer fs (.load source)).1 s.holdings
      (s.serve fs (.load source)).holdings := by
  have hok : (s.engine.answer fs (.load source)).1 = _ := ok_settleLoad s.engine _
  rw [hok]
  cases hload : s.engine.workspace.env.load source none with
  | error problems =>
    obtain ⟨-, hworkspace⟩ := Holdings.load_of_env_load_error fs hload
    have htexts : s.textsAfter (.load source) = s.texts := by rw [textsAfter, hload]
    exact .of_packages (congrArg (·.env.packages) hworkspace) htexts
  | ok stored =>
    obtain ⟨⟨package, imports⟩, env⟩ := stored
    refine Holdings.step_load rfl rfl hload (fun unit p hread hp => ?_) fun p hp => ?_
    · obtain ⟨unit', hread', hloaded, -⟩ := Environment.load_eq_ok hload
      cases hread.symm.trans hread'
      cases hloaded
      have htexts : s.textsAfter (.load source) = s.texts.insert p source := by
        rw [textsAfter, hload, hp]
      have hfind : (s.textsAfter (.load source)).find? p = some source := by
        rw [htexts, Dictionary.find?_insert, if_pos rfl]
      change ((s.textsAfter (.load source)).find? p).bind _ = _
      rw [hfind, Option.bind_some, hread]
      rfl
    · change (s.textsAfter (.load source)).find? p = s.texts.find? p
      cases package with
      | none => rw [textsAfter, hload]
      | some other =>
        have hne : p ≠ other := fun heq => hp (congrArg some heq.symm)
        rw [textsAfter, hload]
        dsimp only
        rw [Dictionary.find?_insert, if_neg hne]

/-- What a request does. -/
theorem step_serve (fs : FileSystem) (s : Session) (request : SourceRequest) :
    Holdings.Step fs (s.engine.answer fs request).1 s.holdings (s.serve fs request).holdings := by
  cases request with
  | load source => exact step_load s source
  | loadFile path =>
    have hok : (s.engine.answer fs (.loadFile path)).1 = _ := ok_settleLoad s.engine _
    rw [hok]
    exact Holdings.step_loadFile fs s.texts s.engine.workspace path
  | importPackage name rename =>
    have hok : (s.engine.answer fs (.importPackage name rename)).1 = _ := ok_settleLoad s.engine _
    rw [hok]
    exact Holdings.step_importPackage fs s.texts s.engine.workspace (Bytes.ofString name) rename
  | setLibpath path => exact .refl _ _ _
  | executeRcFile filename =>
    let file := s.engine.rcFileName filename
    have hstep := Holdings.step_executeRcFile fs s.texts s.engine.workspace
      (Bytes.ofString file.1) file.2
    have hok : (s.engine.answer fs (.executeRcFile filename)).1 =
        (s.engine.workspace.executeRcFile fs (Bytes.ofString file.1) file.2).1.toOption.any
          (·.2) := by
      have hmap : ∀ outcome : Except EngineError (Bool × Bool),
          (outcome.map fun found =>
            (⟨file.1, found.1, found.2⟩ : RcFileOutcome)).toOption.any (·.noErrors) =
              outcome.toOption.any (·.2) := by
        intro outcome
        cases outcome <;> rfl
      exact hmap _
    rw [hok]
    exact hstep

/-- What requests do. -/
theorem step_serveAll (fs : FileSystem) (s : Session) (requests : List SourceRequest) :
    Holdings.Step fs (s.allGoWell fs requests) s.holdings (s.serveAll fs requests).holdings := by
  induction requests generalizing s with
  | nil => exact .refl _ _ _
  | cons request requests ih => exact (step_serve fs s request).trans (ih (s.serve fs request))

/-- Before the first request no package is loaded. -/
theorem sourced_boot (fs : FileSystem) (id : Nat) (installation : Installation) :
    (boot id installation).holdings.Sourced fs := nofun

theorem settled_boot (fs : FileSystem) (id : Nat) (installation : Installation) (p : String) :
    (boot id installation).holdings.Settled fs p :=
  Holdings.settled_of_not_hasPackage rfl

/-- What an import does that goes well: the package is loaded, and so are the imports of all
packages that were not loaded before. -/
theorem importPackage_loads (hsourced : s.holdings.Sourced fs) {rename : Option String}
    (h : (s.engine.answer fs (.importPackage name rename)).1 = true) :
    (s.serve fs (.importPackage name rename)).IsLoaded name ∧
      ∀ p, ¬s.IsLoaded p → (s.serve fs (.importPackage name rename)).holdings.Settled fs p := by
  have hsourced' := (step_serve fs s (.importPackage name rename)).sourced hsourced
  have hreply := (ok_settleLoad s.engine _).symm.trans h
  -- The name that is asked for is the one that is loaded.
  have hname : (s.serve fs (.importPackage name rename)).IsLoaded
      (Utf8.decodeLossy (Bytes.ofString name)) →
        (s.serve fs (.importPackage name rename)).IsLoaded name := by
    intro hloaded
    have hbytes := (hsourced'.isName hloaded).eq_ofString
    have heq : Utf8.decodeLossy (Bytes.ofString name) = name := Bytes.ofString_injective hbytes.symm
    rwa [heq] at hloaded
  rcases Holdings.importPackage_cases s.engine.workspace fs (Bytes.ofString name) rename with
    ⟨hloaded, hpackages⟩ | ⟨-, result, imported, hrun, hpackages, hresult⟩
  · -- The package was loaded before, and no other is loaded.
    have hsame : ∀ p, (s.serve fs (.importPackage name rename)).IsLoaded p ↔ s.IsLoaded p := by
      intro p
      exact iff_of_eq (congrArg (fun packages => Dictionary.contains packages p = true) hpackages)
    refine ⟨hname ((hsame _).mpr hloaded), fun p hp => ?_⟩
    refine Holdings.settled_of_not_hasPackage (Bool.eq_false_iff.mpr fun hafter => hp ?_)
    exact (hsame p).mp hafter
  · cases hresult hreply
    have hloads : ∀ p, imported.env.hasPackage p = true →
        (s.serve fs (.importPackage name rename)).IsLoaded p := fun p hp =>
      (congrArg (fun packages => Dictionary.contains packages p) hpackages).trans hp
    obtain ⟨-, hcomplete⟩ := Import.run_sound hrun
    have hasked := (hcomplete rfl).asked _ (List.mem_singleton_self _)
    refine ⟨hname (hloads _ (hasked.resolve_right List.not_mem_nil)), fun p hp => ?_⟩
    let stored : Holdings := { s.holdings with env := imported.env }
    have hsettled : stored.Settled fs p :=
      Holdings.settled_run s.holdings hrun fun hbefore => absurd hbefore hp
    have hpackage : (s.serve fs (.importPackage name rename)).holdings.env.packages.find? p =
        stored.env.packages.find? p :=
      congrArg (fun packages => Dictionary.find? packages p) hpackages
    exact Holdings.Settled.mono (Holdings.unit?_congr hpackage rfl) hloads hsettled

/-- After an import that goes well, all packages that can be reached from the package through
imports are loaded, unless one of them was loaded before and lacks an import. None does when all
requests before went well. -/
theorem importPackage_complete (fs : FileSystem) (id : Nat) (installation : Installation)
    (requests : List SourceRequest) (name : String) (rename : Option String) {reply : LoadReply}
    (h : (((boot id installation).serveAll fs requests).engine.importPackage fs name rename).1 =
      .ok reply) (hok : reply.ok = true) :
    let before := (boot id installation).serveAll fs requests
    let after := before.serve fs (.importPackage name rename)
    ((∀ p, after.Reaches fs name p → after.IsLoaded p) ↔
      ∀ p, after.Reaches fs name p → before.IsLoaded p → after.holdings.Settled fs p) ∧
    ((boot id installation).allGoWell fs requests = true →
      ∀ p, after.Reaches fs name p → after.IsLoaded p) := by
  intro before after
  have hstep := step_serveAll fs (boot id installation) requests
  have hwell : (before.engine.answer fs (.importPackage name rename)).1 = true := by
    change Option.any (·.ok) (Except.toOption (before.engine.importPackage fs name rename).1) = true
    rw [h]
    exact hok
  have hsourced : before.holdings.Sourced fs := hstep.sourced (sourced_boot fs id installation)
  obtain ⟨hname, hnew⟩ := importPackage_loads hsourced hwell
  have hreach : (∀ p, after.Reaches fs name p → before.IsLoaded p → after.holdings.Settled fs p) →
      ∀ p, after.Reaches fs name p → after.IsLoaded p := by
    intro hold p hp
    induction hp with
    | refl => exact hname
    | tail hp hdeclares ih =>
      rename_i p q
      by_cases hbefore : before.IsLoaded p
      · exact hold p hp hbefore q hdeclares
      · exact hnew p hbefore q hdeclares
  refine ⟨⟨fun hall p hp _ q hdeclares => hall q (hp.tail hdeclares), hreach⟩, fun hgood => ?_⟩
  refine hreach fun p _ _ => ?_
  have hsettled := hstep.settled hgood (settled_boot fs id installation)
  exact (step_serve fs before (.importPackage name rename)).settled hwell hsettled p

/-- A package in one directory that imports a package in another. -/
def twoDirectories : FileSystem where
  files := [([Bytes.ofString "one", Bytes.ofString "a.rpl"],
      Bytes.ofString "package a\nimport b\nx = b.y"),
    ([Bytes.ofString "two", Bytes.ofString "b.rpl"], Bytes.ofString "package b\ny = \"y\"")]

/-- A session that begins with an installation without packages. -/
def bare : Session := boot 1 ⟨"/opt", "/opt/lib/boot.lua", "/opt/rpl", .installation, "/root/.rc"⟩

/-- The imported package is loaded when both directories are looked into. -/
theorem importPackage_complete_twoDirectories :
    let before := bare.serveAll twoDirectories [.setLibpath "one:two"]
    let after := before.serve twoDirectories (.importPackage "a" none)
    (before.engine.importPackage twoDirectories "a" none).1 = .ok ⟨true, some "a", ⟨[]⟩⟩ ∧
      after.Reaches twoDirectories "a" "b" ∧ after.IsLoaded "b" := by
  intro before after
  have h : (before.engine.importPackage twoDirectories "a" none).1 =
      .ok ⟨true, some "a", ⟨[]⟩⟩ := by cbv
  have hunit : after.holdings.unit? twoDirectories "a" = some {
      package := some "a"
      imports := [⟨"b", none⟩]
      bindings := [⟨"x", .ref ⟨some "b", "y"⟩ 24, false, false, 20⟩] } := by cbv
  have hreaches : after.Reaches twoDirectories "a" "b" :=
    .single ⟨_, hunit, _, List.mem_singleton_self _, rfl⟩
  obtain ⟨-, hcomplete⟩ :=
    importPackage_complete twoDirectories 1 _ [.setLibpath "one:two"] "a" none h rfl
  exact ⟨h, hreaches, hcomplete rfl "b" hreaches⟩

/-- The imported package is not found at first, and is not looked for again. -/
theorem not_importPackage_complete_retried :
    let before := bare.serveAll twoDirectories
      [.setLibpath "one", .importPackage "a" none, .setLibpath "one:two"]
    let after := before.serve twoDirectories (.importPackage "a" none)
    (before.engine.importPackage twoDirectories "a" none).1 = .ok ⟨true, some "a", ⟨[]⟩⟩ ∧
      after.Reaches twoDirectories "a" "b" ∧ ¬after.IsLoaded "b" := by
  intro before after
  have h : (before.engine.importPackage twoDirectories "a" none).1 =
      .ok ⟨true, some "a", ⟨[]⟩⟩ := by cbv
  have hunit : after.holdings.unit? twoDirectories "a" = some {
      package := some "a"
      imports := [⟨"b", none⟩]
      bindings := [⟨"x", .ref ⟨some "b", "y"⟩ 24, false, false, 20⟩] } := by cbv
  have hmissing : after.engine.workspace.env.hasPackage "b" = false := by cbv
  exact ⟨h, .single ⟨_, hunit, _, List.mem_singleton_self _, rfl⟩, Bool.eq_false_iff.mp hmissing⟩

end Session

end PatternEngine
