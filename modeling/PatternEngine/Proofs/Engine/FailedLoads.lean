import PatternEngine.Proofs.Engine.Registries
import PatternEngine.Proofs.Environment.SameDefinitions

/-!
# Failed loads

A load or an import that fails commits nothing if it was its own source that was refused. If it was
an import of the source, the definitions of the source stay, and so do the packages that were loaded
on the way. What leaves the definitions as they were leaves no trace: all later requests are
answered alike.
-/

namespace PatternEngine

/-- Both answers are the same, and what is left behind is related. -/
def SameAnswer {α σ : Type} (R : σ → σ → Prop) (x x' : α × σ) : Prop := x'.1 = x.1 ∧ R x.2 x'.2

theorem SameAnswer.exists_eq {α σ : Type} {R : σ → σ → Prop} {x x' : α × σ}
    (h : SameAnswer R x x') : ∃ a s s', x = (a, s) ∧ x' = (a, s') ∧ R s s' :=
  ⟨x.1, x.2, x'.2, rfl, Prod.ext h.1 rfl, h.2⟩

namespace Import

variable {fs : FileSystem} {libpath source : Bytes} {deeper : List Bytes → Importing Bool}
  {names : List Bytes} {result : Except EngineError Bool} {before after : ImportState}

/-! ## What an import adds -/

/-- An import adds packages from their files and leaves everything else alone. -/
structure Adds (fs : FileSystem) (env env' : Environment) : Prop where
  top : env'.top = env.top
  grows : Grows fs { env } { env := env' }

/-- If no package was added the definitions are the same. -/
theorem Adds.sameDefinitions {env env' : Environment} (h : Adds fs env env')
    (hnone : ∀ p, env'.hasPackage p = true → env.hasPackage p = true) :
    env.SameDefinitions env' where
  bindings _ := by rw [h.top]
  imports _ := by rw [h.top]
  packages p := by
    cases hp : env.hasPackage p with
    | true => exact h.grows.kept p hp
    | false =>
      have hp' : env'.hasPackage p = false :=
        Bool.eq_false_iff.mpr fun hadded => by cases hp.symm.trans (hnone p hadded)
      rw [Environment.hasPackage_eq_false_iff.mp hp, Environment.hasPackage_eq_false_iff.mp hp']

/-- Importing does not concern what is defined at top level. -/
def KeepsTop (importing : List Bytes → Importing Bool) : Prop :=
  ∀ names state, ((importing names).run.run state).2.env.top = state.env.top

theorem keepsTop_importOne (fs : FileSystem) (libpath : Bytes) (hdeeper : KeepsTop deeper)
    (source : Bytes) (state : ImportState) :
    ((importOne fs libpath deeper source).run.run state).2.env.top = state.env.top := by
  rw [run_importOne]
  dsimp only
  split
  · rfl
  split
  · rfl
  · rfl
  · split
    · rfl
    · rename_i loaded env hload
      obtain ⟨-, -, -, -, rfl⟩ := Environment.loadPackage_eq_ok hload
      exact hdeeper _ _

theorem keepsTop_importEach (hdeeper : KeepsTop deeper) :
    KeepsTop (importEach fs libpath deeper) := by
  intro names
  induction names with
  | nil => exact fun _ => rfl
  | cons source names ih =>
    intro state
    have hfirst := keepsTop_importOne fs libpath hdeeper source state
    rw [run_importEach_cons]
    split
    · rename_i hone
      rwa [hone] at hfirst
    · rename_i middle hone
      rw [hone] at hfirst
      exact (ih middle).trans hfirst

theorem keepsTop_importAll (fs : FileSystem) (libpath : Bytes) (levels : Nat) :
    KeepsTop (importAll fs libpath levels) := by
  induction levels with
  | zero => exact fun _ _ => rfl
  | succ levels ih => exact keepsTop_importEach ih

/-- Whether an import goes well or not, it does nothing but add packages. -/
theorem adds_importAll (fs : FileSystem) (libpath : Bytes) (levels : Nat) (names : List Bytes)
    (state : ImportState) :
    Adds fs state.env ((importAll fs libpath levels names).run.run state).2.env where
  top := keepsTop_importAll fs libpath levels names state
  grows := by
    cases hrun : (importAll fs libpath levels names).run.run state with
    | mk result after =>
      obtain ⟨hgrows, -⟩ := sound_importAll fs libpath levels hrun
      exact ⟨hgrows.kept, hgrows.added⟩

/-- The import of one package is one step. -/
theorem env_run_singleton (fs : FileSystem) (libpath source : Bytes) (env : Environment) :
    (run fs libpath env [source]).2.env =
      ((importOne fs libpath (importAll fs libpath fs.files.length) source).run.run
        { env }).2.env := by
  rw [run, levelsFor, importAll, run_importEach_cons]
  split
  · rename_i hone
    rw [hone]
  · rename_i hone
    rw [hone]
    rfl

/-! ## Imports into the same definitions -/

/-- States of an import that are the same but for the order of definitions. -/
structure SameState (state state' : ImportState) : Prop where
  definitions : state.env.SameDefinitions state'.env
  messages : state'.messages = state.messages
  seen : state'.seen = state.seen

/-- Importing into the same definitions has the same outcome. -/
def Respectful (importing : List Bytes → Importing Bool) : Prop :=
  ∀ names {state state' : ImportState}, SameState state state' →
    SameAnswer SameState ((importing names).run.run state) ((importing names).run.run state')

theorem respectful_importOne (fs : FileSystem) (libpath : Bytes) (hdeeper : Respectful deeper)
    (source : Bytes) {state state' : ImportState} (h : SameState state state') :
    SameAnswer SameState ((importOne fs libpath deeper source).run.run state)
      ((importOne fs libpath deeper source).run.run state') := by
  rw [run_importOne, run_importOne, h.definitions.hasPackage, h.seen, h.messages]
  dsimp only
  split
  · exact ⟨rfl, h⟩
  split
  · exact ⟨rfl, h.definitions, rfl, rfl⟩
  · exact ⟨rfl, h.definitions, rfl, rfl⟩
  · rename_i path content _
    have hload := h.definitions.loadPackage (Utf8.decodeLossy source) (Utf8.decodeLossy content)
      (some path)
    generalize state.env.loadPackage _ _ _ = outcome at hload ⊢
    generalize state'.env.loadPackage _ _ _ = outcome' at hload ⊢
    cases hload with
    | refused problems => exact ⟨rfl, h.definitions, rfl, rfl⟩
    | stored loaded hsame => exact hdeeper _ ⟨hsame, rfl, rfl⟩

theorem respectful_importEach (hdeeper : Respectful deeper) :
    Respectful (importEach fs libpath deeper) := by
  intro names
  induction names with
  | nil => exact fun h => ⟨rfl, h⟩
  | cons source names ih =>
    intro state state' h
    obtain ⟨first, middle, middle', hone, hone', hmiddle⟩ :=
      (respectful_importOne fs libpath hdeeper source h).exists_eq
    rw [run_importEach_cons, run_importEach_cons, hone, hone']
    cases first with
    | error fault => exact ⟨rfl, hmiddle⟩
    | ok first =>
      obtain ⟨hothers, hlast⟩ := ih hmiddle
      exact ⟨congrArg (Except.map (first && ·)) hothers, hlast⟩

theorem respectful_importAll (fs : FileSystem) (libpath : Bytes) (levels : Nat) :
    Respectful (importAll fs libpath levels) := by
  induction levels with
  | zero => exact fun _ _ _ h => ⟨rfl, h⟩
  | succ levels ih => exact respectful_importEach ih

/-- Imports into the same definitions have the same outcome. -/
theorem respectful_run (fs : FileSystem) (libpath : Bytes) {env env' : Environment}
    (h : env.SameDefinitions env') (names : List Bytes) :
    SameAnswer SameState (run fs libpath env names) (run fs libpath env' names) :=
  respectful_importAll fs libpath _ names ⟨h, rfl, rfl⟩

end Import

/-! ## Workspaces -/

namespace Workspace

variable {w w' : Workspace}

/-- Workspaces that are the same but for the order of definitions. -/
inductive Interchangeable : Workspace → Workspace → Prop
  | intro (w : Workspace) {env env' : Environment} (h : env.SameDefinitions env') :
      Interchangeable { w with env } { w with env := env' }

theorem Interchangeable.refl (w : Workspace) : Interchangeable w w := .intro w (.refl w.env)

theorem Interchangeable.load (h : Interchangeable w w') (fs : FileSystem) (source : String)
    (origin : Option String) :
    SameAnswer Interchangeable (w.load fs source origin) (w'.load fs source origin) := by
  cases h with
  | @intro w env env' h =>
    have hload := h.load source origin
    unfold Workspace.load
    dsimp only
    generalize env.load source origin = outcome at hload ⊢
    generalize env'.load source origin = outcome' at hload ⊢
    cases hload with
    | refused problems => exact ⟨rfl, .intro w h⟩
    | stored loaded hsame =>
      obtain ⟨hresult, hstate⟩ :=
        Import.respectful_run fs w.libpath hsame (Import.namesOf loaded.imports)
      refine ⟨?_, .intro w hstate.definitions⟩
      simp only [settle, hresult, hstate.messages]

theorem Interchangeable.loadFile (h : Interchangeable w w') (fs : FileSystem) (path : String) :
    SameAnswer Interchangeable (w.loadFile fs path) (w'.loadFile fs path) := by
  unfold Workspace.loadFile
  split
  · exact ⟨rfl, h⟩
  · exact h.load fs _ _

/-- A package can be shown if it is loaded. -/
theorem showPackage_eq (w : Workspace) (name : String) (rename : Option String)
    (messages : List Violation) : w.showPackage name rename messages =
      if w.env.hasPackage name then
        (⟨true, some name, ⟨messages⟩⟩, { w with
          env := { w.env with top.imports := w.env.top.imports.insert (rename.getD name) name } })
      else
        (⟨false, none, ⟨messages ++ [{ cause := .importing (.notLoaded name) }]⟩⟩, w) := by
  unfold Workspace.showPackage Environment.bind
  by_cases h : w.env.hasPackage name = true
  · rw [if_pos h, if_pos h]
  · rw [if_neg h, if_neg h]

theorem Interchangeable.showPackage (h : Interchangeable w w') (name : String)
    (rename : Option String) (messages : List Violation) :
    SameAnswer Interchangeable (w.showPackage name rename messages)
      (w'.showPackage name rename messages) := by
  cases h with
  | @intro w env env' h =>
    rw [showPackage_eq, showPackage_eq]
    dsimp only
    rw [h.hasPackage]
    split
    · exact ⟨rfl, .intro w (h.insertImport _ _)⟩
    · exact ⟨rfl, .intro w h⟩

theorem Interchangeable.importPackage (h : Interchangeable w w') (fs : FileSystem) (source : Bytes)
    (rename : Option String) :
    SameAnswer Interchangeable (w.importPackage fs source rename)
      (w'.importPackage fs source rename) := by
  have hshow := h.showPackage (Utf8.decodeLossy source) rename []
  cases h with
  | @intro w env env' h =>
    unfold Workspace.importPackage
    dsimp only
    rw [h.hasPackage]
    split
    · exact ⟨congrArg Except.ok hshow.1, hshow.2⟩
    · obtain ⟨result, imported, imported', hrun, hrun', hstate⟩ :=
        (Import.respectful_run fs w.libpath h [source]).exists_eq
      have hloaded : Interchangeable { w with env := imported.env }
          { w with env := imported'.env } := .intro w hstate.definitions
      rw [hrun, hrun']
      dsimp only [settle]
      rw [hstate.messages]
      cases result with
      | error fault => exact ⟨rfl, hloaded⟩
      | ok ok =>
        cases ok with
        | false => exact ⟨rfl, hloaded⟩
        | true =>
          have hshown := hloaded.showPackage (Utf8.decodeLossy source) rename imported.messages
          exact ⟨congrArg Except.ok hshown.1, hshown.2⟩

theorem Interchangeable.applyEntry (h : Interchangeable w w') (fs : FileSystem) (entry : RcEntry) :
    SameAnswer Interchangeable (w.applyEntry fs entry) (w'.applyEntry fs entry) := by
  unfold Workspace.applyEntry
  split
  · cases h with
    | intro w h => exact ⟨rfl, .intro (w.setLibpath entry.value .rcFile) h⟩
  · cases h with
    | intro w h => exact ⟨rfl, .intro { w with palette := w.palette.set entry.value } h⟩
  · split
    · exact ⟨rfl, h⟩
    · obtain ⟨hreply, hafter⟩ := h.loadFile fs ‹String›
      exact ⟨congrArg (Except.map LoadReply.ok) hreply, hafter⟩
  · obtain ⟨hreply, hafter⟩ := h.importPackage fs entry.value none
    exact ⟨congrArg (Except.map LoadReply.ok) hreply, hafter⟩

theorem Interchangeable.applyEntries (h : Interchangeable w w') (fs : FileSystem)
    (entries : List RcEntry) :
    SameAnswer Interchangeable (w.applyEntries fs entries) (w'.applyEntries fs entries) := by
  induction entries generalizing w w' with
  | nil => exact ⟨rfl, h⟩
  | cons entry entries ih =>
    obtain ⟨first, middle, middle', hfirst, hfirst', hmiddle⟩ := (h.applyEntry fs entry).exists_eq
    unfold Workspace.applyEntries
    rw [hfirst, hfirst']
    cases first with
    | error fault => exact ⟨rfl, hmiddle⟩
    | ok first =>
      obtain ⟨hrest, hlast⟩ := ih hmiddle
      exact ⟨congrArg (Except.map (first && ·)) hrest, hlast⟩

theorem Interchangeable.executeRcFile (h : Interchangeable w w') (fs : FileSystem) (path : Bytes)
    (isDefault : Bool) : SameAnswer Interchangeable (w.executeRcFile fs path isDefault)
      (w'.executeRcFile fs path isDefault) := by
  unfold Workspace.executeRcFile
  split
  · exact ⟨rfl, h⟩
  · exact ⟨rfl, h⟩
  · exact ⟨rfl, h⟩
  · obtain ⟨hresult, hafter⟩ := h.applyEntries fs ‹List RcEntry›
    exact ⟨congrArg (Except.map fun ok => (true, ok)) hresult, hafter⟩

theorem Interchangeable.compile (h : Interchangeable w w') (expression : String) :
    ∃ program messages after after', w.compile expression = (program, messages, after) ∧
      w'.compile expression = (program, messages, after') ∧ Interchangeable after after' := by
  cases h with
  | @intro w env env' h =>
    unfold Workspace.compile
    dsimp only
    rw [h.compile expression]
    cases env.compile expression with
    | error problems => exact ⟨_, _, _, _, rfl, rfl, .intro w h⟩
    | ok compiled =>
      exact ⟨_, _, _, _, rfl, rfl, .intro { w with
        programs := (w.lastKey + 1, compiled.program) :: w.programs
        expressions := (w.lastKey + 1, expression) :: w.expressions
        lastKey := w.lastKey + 1 } h⟩

theorem Interchangeable.release (h : Interchangeable w w') (key : Nat) :
    Interchangeable (w.release key) (w'.release key) := by
  cases h with
  | @intro w env env' h =>
    unfold Workspace.release isIssued
    dsimp only
    split
    · exact .intro { w with
        programs := w.programs.filter fun entry => entry.1 != key
        expressions := w.expressions.filter fun entry => entry.1 != key } h
    · exact .intro w h

end Workspace

/-! ## Engines -/

namespace Engine

variable {e e' : Engine}

/-- A request that is about patterns or about sources. -/
inductive AnyRequest where
  /-- Compile an expression or give up a pattern. -/
  | pattern (request : Request)
  /-- A request that is about sources, the files being these. -/
  | source (fs : FileSystem) (request : SourceRequest)

/-- The reply to a request. -/
inductive Reply where
  /-- The outcome of compiling an expression. -/
  | compiled (reply : Except EngineError CompileReply)
  /-- The outcome of a load or an import. -/
  | loaded (reply : Except EngineError LoadReply)
  /-- The outcome of carrying out an rc-file. -/
  | executed (outcome : Except EngineError RcFileOutcome)
  /-- There is nothing to tell. -/
  | done
  deriving Repr

/-- The reply to a request, and the engine after it. -/
def respond (e : Engine) : AnyRequest → Reply × Engine
  | .pattern (.compile expression) =>
    let (reply, e) := e.compile expression
    (.compiled reply, e)
  | .pattern (.free pattern) => (.done, e.free pattern)
  | .source fs (.load source) =>
    let (reply, e) := e.load fs source
    (.loaded reply, e)
  | .source fs (.loadFile path) =>
    let (reply, e) := e.loadFile fs path
    (.loaded reply, e)
  | .source fs (.importPackage name rename) =>
    let (reply, e) := e.importPackage fs name rename
    (.loaded reply, e)
  | .source _ (.setLibpath path) => (.done, e.setLibpath path)
  | .source fs (.executeRcFile filename) =>
    let (outcome, e) := e.executeRcFile fs filename
    (.executed outcome, e)

/-- The replies to several requests. -/
def replies (e : Engine) : List AnyRequest → List Reply
  | [] => []
  | request :: requests =>
    let (reply, e) := e.respond request
    reply :: e.replies requests

/-- Engines that are the same but for the order of definitions. -/
inductive Interchangeable : Engine → Engine → Prop
  | intro (e : Engine) {w w' : Workspace} (h : w.Interchangeable w') :
      Interchangeable { e with workspace := w } { e with workspace := w' }

theorem Interchangeable.compile (h : e.Interchangeable e') (expression : String) :
    SameAnswer Interchangeable (e.compile expression) (e'.compile expression) := by
  cases h with
  | @intro e w w' h =>
    obtain ⟨program, messages, after, after', hcompile, hcompile', hafter⟩ := h.compile expression
    unfold Engine.compile
    dsimp only
    rw [hcompile, hcompile']
    cases program with
    | none => exact ⟨rfl, .intro e hafter⟩
    | some stored =>
      dsimp only
      cases e.handles.insert ⟨stored.1, stored.2⟩ with
      | none => exact ⟨rfl, .intro e (hafter.release stored.1)⟩
      | some issued => exact ⟨rfl, .intro { e with handles := issued.2 } hafter⟩

theorem Interchangeable.free (h : e.Interchangeable e') (pattern : PatternHandle) :
    Interchangeable (e.free pattern) (e'.free pattern) := by
  cases h with
  | @intro e w w' h =>
    unfold Engine.free
    dsimp only
    split
    · cases e.handles.remove pattern.raw with
      | none => exact .intro e h
      | some removed => exact .intro { e with handles := removed.2 } (h.release removed.1.key)
    · exact .intro e h

theorem Interchangeable.respond (h : e.Interchangeable e') (request : AnyRequest) :
    SameAnswer Interchangeable (e.respond request) (e'.respond request) := by
  have hsettle : ∀ (e : Engine) {x x' : Except EngineError LoadReply × Workspace},
      SameAnswer Workspace.Interchangeable x x' →
      SameAnswer Interchangeable (e.settleLoad x) (e.settleLoad x') := by
    intro e x x' hx
    obtain ⟨reply, after, after', rfl, rfl, hafter⟩ := hx.exists_eq
    exact ⟨rfl, .intro e hafter⟩
  cases request with
  | pattern request =>
    cases request with
    | compile expression =>
      obtain ⟨hreply, hafter⟩ := h.compile expression
      exact ⟨congrArg Reply.compiled hreply, hafter⟩
    | free pattern => exact ⟨rfl, h.free pattern⟩
  | source fs request =>
    cases h with
    | @intro e w w' h =>
      cases request with
      | load source =>
        obtain ⟨hreply, hafter⟩ := hsettle e (h.load fs source none)
        exact ⟨congrArg Reply.loaded hreply, hafter⟩
      | loadFile path =>
        obtain ⟨hreply, hafter⟩ := hsettle e (h.loadFile fs path)
        exact ⟨congrArg Reply.loaded hreply, hafter⟩
      | importPackage name rename =>
        obtain ⟨hreply, hafter⟩ := hsettle e (h.importPackage fs (Bytes.ofString name) rename)
        exact ⟨congrArg Reply.loaded hreply, hafter⟩
      | setLibpath path =>
        cases h with
        | intro w h => exact ⟨rfl, .intro e (.intro (w.setLibpath (Bytes.ofString path) .api) h)⟩
      | executeRcFile filename =>
        obtain ⟨hresult, hafter⟩ := h.executeRcFile fs
          (Bytes.ofString (e.rcFileName filename).1) (e.rcFileName filename).2
        have hreply := congrArg (Except.map fun outcome : Bool × Bool =>
          (⟨(e.rcFileName filename).1, outcome.1, outcome.2⟩ : RcFileOutcome)) hresult
        exact ⟨congrArg Reply.executed hreply, .intro e hafter⟩

/-- Engines that are the same but for the order of definitions reply alike. -/
theorem Interchangeable.replies (h : e.Interchangeable e') (requests : List AnyRequest) :
    e'.replies requests = e.replies requests := by
  induction requests generalizing e e' with
  | nil => rfl
  | cons request requests ih =>
    obtain ⟨reply, after, after', hrespond, hrespond', hafter⟩ := (h.respond request).exists_eq
    rw [Engine.replies, Engine.replies, hrespond, hrespond']
    dsimp only
    rw [ih hafter]

end Engine

/-! ## What is committed -/

namespace Workspace

variable {fs : FileSystem} {w w' : Workspace} {own : Option Environment}

/-- The definitions with those of a source, if nothing is wrong with it. -/
def withSource? (w : Workspace) (source : String) (origin : Option String) : Option Environment :=
  (w.env.load source origin).toOption.map (·.2)

/-- The definitions with those of the source in a file, if there is one and nothing is wrong with
it. -/
def withFile? (w : Workspace) (fs : FileSystem) (path : String) : Option Environment :=
  match fs.openForReading (Bytes.ofString path) with
  | .error _ => none
  | .ok content => w.withSource? (Utf8.decodeLossy (content.getD [])) (some path)

/-- The definitions with those of a package, if it is found and nothing is wrong with it. -/
def withPackage? (w : Workspace) (fs : FileSystem) (source : Bytes) : Option Environment :=
  match Import.findIn fs source (Import.directories w.libpath) with
  | .ok (some (path, content)) => (w.env.loadPackage (Utf8.decodeLossy source)
      (Utf8.decodeLossy content) (some path)).toOption.map (·.2)
  | _ => none

/-- What a request for a source commits, given the definitions with those of the source: nothing
without them, and otherwise them and packages from their files. -/
inductive Commits (fs : FileSystem) (w : Workspace) : Option Environment → Workspace → Prop
  | nothing : Commits fs w none w
  | source {own env : Environment}
      (hkept : ∀ p, w.env.hasPackage p = true → own.hasPackage p = true)
      (hadds : Import.Adds fs own env) : Commits fs w (some own) { w with env }

/-- The definitions are as before where those of the source were there before and no package was
added. -/
theorem Commits.sameDefinitions_iff (h : w.Commits fs own w') :
    w.env.SameDefinitions w'.env ↔ ∀ env ∈ own, w.env.SameDefinitions env ∧
      ∀ p, w'.env.hasPackage p = true → env.hasPackage p = true := by
  cases h with
  | nothing => exact ⟨fun _ => nofun, fun _ => .refl _⟩
  | @source own env hkept hadds =>
    constructor
    · intro hsame own' hown
      cases hown
      have hnone : ∀ p, env.hasPackage p = true → own.hasPackage p = true :=
        fun p hp => hkept p ((hsame.hasPackage p).symm.trans hp)
      exact ⟨hsame.trans (hadds.sameDefinitions hnone).symm, hnone⟩
    · intro hall
      obtain ⟨hsame, hnone⟩ := hall own rfl
      exact hsame.trans (hadds.sameDefinitions hnone)

/-- A workspace with the same definitions is the same but for their order. -/
theorem Commits.interchangeable (h : w.Commits fs own w')
    (hsame : w.env.SameDefinitions w'.env) : w.Interchangeable w' := by
  cases h with
  | nothing => exact .refl w
  | source hkept hadds => exact .intro w hsame

theorem commits_load (w : Workspace) (fs : FileSystem) (source : String) (origin : Option String) :
    w.Commits fs (w.withSource? source origin) (w.load fs source origin).2 := by
  unfold withSource? Workspace.load
  cases hload : w.env.load source origin with
  | error problems => exact .nothing
  | ok stored =>
    obtain ⟨loaded, own⟩ := stored
    obtain ⟨unit, -, -, hself, hother⟩ := Environment.load_eq_ok hload
    refine .source (fun p hp => ?_) (Import.adds_importAll fs w.libpath _ _ { env := own })
    rw [Environment.hasPackage_eq_true_iff] at hp ⊢
    by_cases hpackage : unit.package = some p
    · exact ⟨_, hself p hpackage⟩
    · rwa [hother p hpackage]

theorem commits_loadFile (w : Workspace) (fs : FileSystem) (path : String) :
    w.Commits fs (w.withFile? fs path) (w.loadFile fs path).2 := by
  unfold withFile? Workspace.loadFile
  cases fs.openForReading (Bytes.ofString path) with
  | error fault => exact .nothing
  | ok content => exact w.commits_load fs _ _

/-- What importing a package commits that was not loaded, before it is shown. -/
theorem commits_run (w : Workspace) (fs : FileSystem) (source : Bytes)
    (hnew : w.env.hasPackage (Utf8.decodeLossy source) = false) :
    w.Commits fs (w.withPackage? fs source)
      { w with env := (Import.run fs w.libpath w.env [source]).2.env } := by
  rw [Import.env_run_singleton, Import.run_importOne, if_neg (by simp [hnew])]
  unfold withPackage?
  dsimp only
  cases Import.findIn fs source (Import.directories w.libpath) with
  | error fault => exact .nothing
  | ok file =>
    cases file with
    | none => exact .nothing
    | some file =>
      dsimp only
      cases hload : w.env.loadPackage (Utf8.decodeLossy source) (Utf8.decodeLossy file.2)
          (some file.1) with
      | error problems => exact .nothing
      | ok stored =>
        obtain ⟨loaded, own⟩ := stored
        obtain ⟨unit, -, -, -, rfl⟩ := Environment.loadPackage_eq_ok hload
        have hadds := Import.adds_importAll fs w.libpath fs.files.length
          (Import.namesOf loaded.imports)
          { env := w.env.definePackage (Utf8.decodeLossy source) unit (some file.1)
            seen := [Utf8.decodeLossy source] }
        refine .source (fun p hp => ?_) hadds
        rw [Environment.hasPackage_eq_true_iff] at hp ⊢
        rw [Environment.find?_definePackage]
        split
        · exact ⟨_, rfl⟩
        · exact hp

/-- An import that goes wrong commits nothing, or the package and packages from their files. -/
theorem commits_importPackage (w : Workspace) (fs : FileSystem) (source : Bytes)
    (rename : Option String)
    (hfailed : (w.importPackage fs source rename).1.toOption.any (·.ok) = false) :
    w.Commits fs (w.withPackage? fs source) (w.importPackage fs source rename).2 := by
  -- It is not because of the top level that the import goes wrong.
  have hshown : ∀ (w : Workspace) messages, w.env.hasPackage (Utf8.decodeLossy source) = true →
      (w.showPackage (Utf8.decodeLossy source) rename messages).1.ok = true := by
    intro w messages hloaded
    rw [showPackage_eq, if_pos hloaded]
  unfold Workspace.importPackage at hfailed ⊢
  dsimp only at hfailed ⊢
  split at hfailed
  · rename_i hloaded
    have hok := hshown w [] hloaded
    change (w.showPackage _ rename []).1.ok = false at hfailed
    rw [hok] at hfailed
    cases hfailed
  · rename_i hnew
    rw [if_neg hnew]
    have hcommits := w.commits_run fs source (Bool.eq_false_iff.mpr hnew)
    cases hrun : Import.run fs w.libpath w.env [source] with
    | mk result imported =>
      rw [hrun] at hfailed hcommits
      cases result with
      | error fault => exact hcommits
      | ok ok =>
        cases ok with
        | false => exact hcommits
        | true =>
          obtain ⟨-, hcomplete⟩ := Import.run_sound hrun
          have hloaded := (hcomplete rfl).asked source (List.mem_singleton_self source)
          have hok := hshown { w with env := imported.env } imported.messages
            (hloaded.resolve_right List.not_mem_nil)
          change (Workspace.showPackage _ _ rename imported.messages).1.ok = false at hfailed
          rw [hok] at hfailed
          cases hfailed

end Workspace

namespace Engine

variable {fs : FileSystem} {request : SourceRequest} {outcome : Except EngineError LoadReply}

/-- The definitions with those of the source that a request is for: the source that is loaded, or
that of the package that is imported. -/
def withOwn? (e : Engine) (fs : FileSystem) : SourceRequest → Option Environment
  | .load source => e.workspace.withSource? source none
  | .loadFile path => e.workspace.withFile? fs path
  | .importPackage name _ => e.workspace.withPackage? fs (Bytes.ofString name)
  | .setLibpath _ | .executeRcFile _ => none

/-- A load or an import that does not go well commits nothing if something is wrong with its own
source or there is none. Otherwise it commits the source and packages from their files, and nothing
else. So the definitions are as before if and only if those of the source were there before and no
package was added, and then all requests are answered as if there had been no load. -/
theorem failed_load_commits (e : Engine) (fs : FileSystem) (request : SourceRequest)
    (h : (e.respond (.source fs request)).1 = .loaded outcome)
    (hfailed : outcome.toOption.any (·.ok) = false) :
    let after := (e.respond (.source fs request)).2
    after = { e with workspace := after.workspace } ∧
    e.workspace.Commits fs (e.withOwn? fs request) after.workspace ∧
    (e.workspace.env.SameDefinitions after.workspace.env ↔ ∀ env ∈ e.withOwn? fs request,
      e.workspace.env.SameDefinitions env ∧
        ∀ p, after.workspace.env.hasPackage p = true → env.hasPackage p = true) ∧
    (e.workspace.env.SameDefinitions after.workspace.env →
      ∀ requests, after.replies requests = e.replies requests) := by
  intro after
  have hother : after = { e with workspace := after.workspace } := by
    cases request <;> rfl
  have hcommits : e.workspace.Commits fs (e.withOwn? fs request) after.workspace := by
    cases request with
    | load source => exact e.workspace.commits_load fs source none
    | loadFile path => exact e.workspace.commits_loadFile fs path
    | importPackage name rename =>
      cases h
      exact e.workspace.commits_importPackage fs (Bytes.ofString name) rename
        ((Session.ok_settleLoad e _).symm.trans hfailed)
    | setLibpath path => cases h
    | executeRcFile filename => cases h
  refine ⟨hother, hcommits, hcommits.sameDefinitions_iff, fun hsame requests => ?_⟩
  have hinterchangeable : e.Interchangeable after := by
    rw [hother]
    exact .intro e (hcommits.interchangeable hsame)
  exact hinterchangeable.replies requests

/-- A source that uses a name which is not defined commits nothing, and compiling is answered as
without it. -/
theorem failed_load_commits_undefined :
    let e := Session.bare.engine
    let after := (e.respond (.source {} (.load "x = y"))).2
    (e.load {} "x = y").1.toOption.map (·.ok) = some false ∧
      after.replies [.pattern (.compile "x")] = e.replies [.pattern (.compile "x")] := by
  intro e after
  have hreply : (e.load {} "x = y").1.toOption.map (·.ok) = some false := by cbv
  have hnone : e.withOwn? {} (.load "x = y") = none := by cbv
  have hfailed : (e.load {} "x = y").1.toOption.any (·.ok) = false := by cbv
  obtain ⟨-, -, hsame, hreplies⟩ := failed_load_commits e {} (.load "x = y") rfl hfailed
  refine ⟨hreply, hreplies (hsame.mpr fun env henv => ?_) _⟩
  rw [hnone] at henv
  cases henv

/-- The definitions of a source stay when a package is missing that it imports. -/
theorem not_failed_load_commits_nothing :
    let e := Session.bare.engine
    let after := (e.load {} "import missing\nx = \"a\"").2
    e.Reachable ∧
      (e.load {} "import missing\nx = \"a\"").1.toOption.map (·.ok) = some false ∧
      ¬e.workspace.env.SameDefinitions after.workspace.env ∧
      (e.compile "x").1.toOption.map (·.pattern) = some none ∧
      (after.compile "x").1.toOption.map (·.pattern) = some (some ⟨1, 1⟩) := by
  intro e after
  have hbefore : e.workspace.env.top.bindings.contains "x" = false := by cbv
  have hafter : after.workspace.env.top.bindings.contains "x" = true := by cbv
  refine ⟨.boot _ _, by cbv, fun hsame => ?_, by cbv, by cbv⟩
  rw [Dictionary.contains, hsame.bindings, ← Dictionary.contains, hbefore] at hafter
  cases hafter

end Engine

end PatternEngine
