import PatternEngine.Proofs.Engine.FailedLoads
import PatternEngine.Proofs.Engine.Lookups
import PatternEngine.Proofs.Engine.Outputs
import PatternEngine.Proofs.Environment.Refusals
import PatternEngine.Proofs.Text.JsonLayouts

/-!
# What is reported

A reply tells by a flag whether all went well, and by records what there is to report. The text of
the records is read back as the violations that were come upon, in order. An error is among them if
and only if the flag tells of one: an expression is compiled, a source stored or a package loaded
with warnings at most, and is refused for one error at least.
-/

namespace PatternEngine

/-! ## Records -/

/-- A record as it is read from a report. -/
structure Record where
  /-- The stage that found the problem. -/
  who : String
  /-- How grave the problem is. -/
  severity : String
  /-- The wording of the problem. -/
  message : String
  /-- The file the source was read from. -/
  origin : Option String
  /-- Where in the source. -/
  pos : Option Nat
  /-- The part of the source that is concerned. -/
  ast : Option String
  deriving DecidableEq, Repr

namespace Json

/-- The member of an object under a key. -/
def field? (value : Json) (key : String) : Option Json :=
  match value with
  | .obj members => members.lookup key
  | _ => none

/-- The string that a value is. -/
def string : Json → Option String
  | .str s => some s
  | _ => none

/-- The natural number that a value is. -/
def natural : Json → Option Nat
  | .int (.ofNat n) => some n
  | _ => none

/-- A member that may be left out, and else has to be what is read. -/
def optional? {α : Type} (value : Json) (key : String) (read : Json → Option α) :
    Option (Option α) :=
  match value.field? key with
  | none => some none
  | some item => (read item).map some

end Json

namespace Record

/-- Read a record. -/
def ofJson? (value : Json) : Option Record := do
  let who ← (value.field? "who").bind Json.string
  let severity ← (value.field? "severity").bind Json.string
  let message ← (value.field? "message").bind Json.string
  let origin ← value.optional? "origin" Json.string
  let pos ← value.optional? "pos" Json.natural
  let ast ← value.optional? "ast" Json.string
  some { who, severity, message, origin, pos, ast }

/-- Read the records of a report; there are none where it is not one. -/
def listOfText (text : String) : List Record :=
  match Json.read? text with
  | some (.arr items) => (items.mapM ofJson?).getD []
  | _ => []

end Record

/-- The record of a violation. -/
def Violation.record (v : Violation) : Record where
  who := v.cause.stage.name
  severity := v.cause.severity.name
  message := v.cause.message
  origin := v.origin
  pos := v.pos
  ast := v.fragment

/-- The record of a violation is read back. -/
theorem Record.ofJson?_toJson (v : Violation) : ofJson? v.toJson = some v.record := by
  obtain ⟨cause, origin, pos, fragment⟩ := v
  cases origin <;> cases pos <;> cases fragment <;> rfl

namespace Diagnostics

/-- The records that the text of a report is read as. -/
def decoded (d : Diagnostics) : List Record := d.toText?.elim [] Record.listOfText

/-- The report has no text if it has no records, and else the text of an array that is read as the
records of these violations, in order. -/
structure Reports (d : Diagnostics) (violations : List Violation) : Prop where
  absent : d.toText? = none ↔ d.decoded = []
  read : ∀ text, d.toText? = some text → ∃ items, Json.read? text = some (.arr items) ∧
    items.mapM Record.ofJson? = some (violations.map Violation.record)
  decoded : d.decoded = violations.map Violation.record

theorem toText?_eq_none_iff {d : Diagnostics} : d.toText? = none ↔ d.records = [] := by
  simp [toText?, isEmpty]

/-- The violations of a report are what its text is read as. -/
theorem reports (d : Diagnostics) : d.Reports d.records := by
  have hread : ∀ text, d.toText? = some text →
      Json.read? text = some (.arr (d.records.map Violation.toJson)) ∧
        (d.records.map Violation.toJson).mapM Record.ofJson? =
          some (d.records.map Violation.record) := by
    intro text htext
    unfold toText? at htext
    split at htext
    · cases htext
    · cases htext
      refine ⟨Json.read?_compact _, ?_⟩
      rw [List.mapM_map]
      exact mapM_eq_some_map fun v _ => Record.ofJson?_toJson v
  have hdecoded : d.decoded = d.records.map Violation.record := by
    unfold decoded
    cases htext : d.toText? with
    | none =>
      rw [toText?_eq_none_iff.mp htext]
      rfl
    | some text =>
      obtain ⟨hvalue, hrecords⟩ := hread text htext
      rw [Option.elim_some, Record.listOfText, hvalue]
      exact congrArg (Option.getD · []) hrecords
  exact ⟨by rw [toText?_eq_none_iff, hdecoded, List.map_eq_nil_iff], fun text htext =>
    ⟨_, hread text htext⟩, hdecoded⟩

end Diagnostics

namespace Violation

/-- The record of an error says so, and so does that of a warning. -/
theorem severity_record (v : Violation) :
    v.record.severity = if v.isError then "error" else "warning" := by
  unfold isError record
  cases v.cause.severity <;> rfl

end Violation

/-- To leave out the parts of sources makes no difference. -/
theorem Diagnostics.hasErrors_strip (d : Diagnostics) : d.strip.hasErrors = d.hasErrors :=
  List.any_map

/-- A report has errors if there are records that say so. -/
theorem Diagnostics.hasErrors_iff (d : Diagnostics) :
    d.hasErrors = true ↔ ∃ r ∈ d.decoded, r.severity = "error" := by
  rw [d.reports.decoded, hasErrors, List.any_eq_true]
  simp [Violation.severity_record]

/-! ## Look-ups -/

namespace Import

variable {fs : FileSystem} {libpath source : Bytes} {names : List Bytes} {env : Environment}
  {before after : ImportState} {lookups : List Lookup} {result : Except EngineError Bool}

/-- A package that is not loaded is refused, unless the search fails. -/
theorem refusal_of_lookUp {problems : List Violation}
    (h : lookUp fs libpath env source = .refused problems) : Refusal problems := by
  unfold lookUp at h
  split at h
  · cases h
  · cases h
    exact .singleton rfl
  · split at h
    · rename_i hload
      cases h
      exact Environment.refuses_loadPackage _ _ _ _ _ hload
    · cases h

/-- The look-ups come upon an error if and only if not all goes well. -/
theorem Imports.any_isError (h : Imports fs libpath before names lookups result after) {ok : Bool}
    (hok : result = .ok ok) :
    (lookups.flatMap (·.finding.problems)).any (·.isError) = !ok := by
  induction h generalizing ok with
  | done state =>
    cases hok
    rfl
  | known hknown hrest ih => exact ih hok
  | fault hnew hfind => cases hok
  | @refused _ _ _ _ _ _ result hnew hfind hrest ih =>
    cases result with
    | error fault => cases hok
    | ok rest =>
      cases hok
      -- However the others go, the refusal has an error of its own.
      rw [List.flatMap_cons, List.any_append]
      exact Bool.or_eq_true_iff.mpr (.inl (refusal_of_lookUp hfind).any_isError)
  | @loaded _ _ _ _ _ _ _ _ _ first result hnew hfind hinner houter ihinner ihouter =>
    cases result with
    | error fault => cases hok
    | ok rest =>
      cases hok
      rw [List.flatMap_cons, List.flatMap_append, List.any_append, List.any_append, ihinner rfl,
        ihouter rfl, Bool.not_and]
      rfl
  | innerFault hnew hfind hinner ih => cases hok

end Import

/-! ## Requests -/

/-- The violations that compiling an expression comes upon: what it is refused for, or what is
dubious about it. -/
def Environment.violationsOf (env : Environment) (expression : String) : List Violation :=
  match env.compile expression with
  | .error problems => problems
  | .ok compiled => compiled.warnings

namespace Workspace

/-- The violations that loading a source comes upon: what it is refused for, or what the look-ups
of the packages come upon that it imports. -/
inductive Produces (fs : FileSystem) (w : Workspace) (source : String) (origin : Option String) :
    List Violation → Prop
  /-- The source is refused. -/
  | refused {problems : List Violation} (h : w.env.load source origin = .error problems) :
    Produces fs w source origin problems
  /-- The source is stored, and the packages that it imports are loaded. -/
  | stored {loaded : Loaded} {env : Environment} {lookups : List Import.Lookup} {ok : Bool}
    {after : ImportState} (h : w.env.load source origin = .ok (loaded, env))
    (himports : Import.Imports fs w.libpath { env } (Import.namesOf loaded.imports) lookups
      (.ok ok) after) :
    Produces fs w source origin (lookups.flatMap (·.finding.problems))

variable {fs : FileSystem} {w : Workspace} {reply : LoadReply}

/-- An import that does not fail is one by look-ups, and reports what these come upon. -/
theorem exists_imports_of_run {libpath : Bytes} {env : Environment} {names : List Bytes} {ok : Bool}
    {after : ImportState} (h : Import.run fs libpath env names = (.ok ok, after)) :
    ∃ lookups, Import.Imports fs libpath { env } names lookups (.ok ok) after ∧
      after.messages = lookups.flatMap (·.finding.problems) ∧
      (Diagnostics.mk after.messages).hasErrors = !ok := by
  obtain ⟨lookups, himports⟩ := Import.exists_imports fs libpath env names
  rw [h] at himports
  have hmessages : after.messages = lookups.flatMap (·.finding.problems) :=
    himports.messages_eq.trans (List.nil_append _)
  refine ⟨lookups, himports, hmessages, ?_⟩
  rw [hmessages]
  exact himports.any_isError rfl

/-- What is reported of a source is what loading it comes upon, with an error if and only if not
all went well. -/
theorem load_reports {source : String} {origin : Option String}
    (h : (w.load fs source origin).1 = .ok reply) :
    w.Produces fs source origin reply.messages.records ∧ reply.messages.hasErrors = !reply.ok := by
  unfold Workspace.load at h
  split at h
  · rename_i problems hload
    cases h
    exact ⟨.refused hload, (Environment.refuses_load _ _ _ _ hload).any_isError⟩
  · rename_i loaded env hload
    cases hrun : Import.run fs w.libpath env (Import.namesOf loaded.imports) with
    | mk result after =>
      rw [hrun] at h
      cases result with
      | error fault => cases h
      | ok ok =>
        cases h
        obtain ⟨lookups, himports, hmessages, herrors⟩ := exists_imports_of_run hrun
        refine ⟨?_, herrors⟩
        change Produces fs w source origin after.messages
        rw [hmessages]
        exact .stored hload himports

end Workspace

namespace Engine

/-- The violations that a load or an import comes upon. -/
inductive Produces (fs : FileSystem) (e : Engine) : SourceRequest → List Violation → Prop
  /-- A source is loaded. -/
  | load {source : String} {violations : List Violation}
    (h : e.workspace.Produces fs source none violations) : Produces fs e (.load source) violations
  /-- The file of a source cannot be opened. -/
  | unopened {path : String} {fault : FileFault}
    (h : fs.openForReading (Bytes.ofString path) = .error fault) :
    Produces fs e (.loadFile path)
      [{ cause := .loading (.cannotOpen (fault.describe path)), origin := some path }]
  /-- The source in a file is loaded. -/
  | opened {path : String} {content : Option Bytes} {violations : List Violation}
    (h : fs.openForReading (Bytes.ofString path) = .ok content)
    (hload : e.workspace.Produces fs (Utf8.decodeLossy (content.getD [])) (some path) violations) :
    Produces fs e (.loadFile path) violations
  /-- A package that is loaded is shown. -/
  | present {name : String} {rename : Option String}
    (h : e.workspace.env.hasPackage (Utf8.decodeLossy (Bytes.ofString name)) = true) :
    Produces fs e (.importPackage name rename) []
  /-- A package that is not loaded is looked up. -/
  | lookedUp {name : String} {rename : Option String} {lookups : List Import.Lookup} {ok : Bool}
    {after : ImportState}
    (h : e.workspace.env.hasPackage (Utf8.decodeLossy (Bytes.ofString name)) = false)
    (himports : Import.Imports fs e.workspace.libpath { env := e.workspace.env }
      [Bytes.ofString name] lookups (.ok ok) after) :
    Produces fs e (.importPackage name rename) (lookups.flatMap (·.finding.problems))

variable {fs : FileSystem} {e : Engine} {reply : LoadReply}

/-- The reply tells what the request comes upon, with an error if and only if not all went well. -/
structure Replies (fs : FileSystem) (e : Engine) (request : SourceRequest) (reply : LoadReply) :
    Prop where
  produces : e.Produces fs request reply.messages.records
  hasErrors : reply.messages.hasErrors = !reply.ok

theorem loadFile_replies {path : String} (h : (e.workspace.loadFile fs path).1 = .ok reply) :
    e.Replies fs (.loadFile path) reply := by
  unfold Workspace.loadFile at h
  split at h
  · rename_i fault hopen
    cases h
    exact ⟨.unopened hopen, rfl⟩
  · rename_i content hopen
    obtain ⟨hproduces, herrors⟩ := Workspace.load_reports h
    exact ⟨.opened hopen hproduces, herrors⟩

theorem importPackage_replies {name : String} {rename : Option String}
    (h : (e.workspace.importPackage fs (Bytes.ofString name) rename).1 = .ok reply) :
    e.Replies fs (.importPackage name rename) reply := by
  unfold Workspace.importPackage at h
  dsimp only at h
  split at h
  · rename_i hpresent
    rw [Workspace.showPackage_eq, if_pos hpresent] at h
    cases h
    exact ⟨.present hpresent, rfl⟩
  · rename_i habsent
    cases hrun : Import.run fs e.workspace.libpath e.workspace.env [Bytes.ofString name] with
    | mk result after =>
      rw [hrun] at h
      cases result with
      | error fault => cases h
      | ok ok =>
        obtain ⟨lookups, himports, hmessages, herrors⟩ := Workspace.exists_imports_of_run hrun
        have hproduces : e.Produces fs (.importPackage name rename) after.messages := by
          rw [hmessages]
          exact .lookedUp (Bool.eq_false_iff.mpr habsent) himports
        cases ok with
        | false =>
          cases h
          exact ⟨hproduces, herrors⟩
        | true =>
          -- The package is loaded now, so that it can be shown.
          obtain ⟨-, hcomplete⟩ := Import.run_sound hrun
          have hloaded := (hcomplete rfl).asked _ (List.mem_singleton_self _)
          have hshown : Except.ok (Workspace.showPackage { e.workspace with env := after.env }
              (Utf8.decodeLossy (Bytes.ofString name)) rename after.messages).1 =
                (.ok reply : Except EngineError LoadReply) := h
          rw [Workspace.showPackage_eq, if_pos (hloaded.resolve_right List.not_mem_nil)] at hshown
          cases hshown
          exact ⟨hproduces, herrors⟩

/-- The reply to a load or an import is that of the workspace without the parts of sources. -/
theorem respond_source {request : SourceRequest}
    (h : (e.respond (.source fs request)).1 = .loaded (.ok reply)) :
    ∃ whole, e.Replies fs request whole ∧
      reply = { whole with messages := whole.messages.strip } := by
  have hsettle : ∀ {result : Except EngineError LoadReply × Workspace},
      (e.settleLoad result).1 = .ok reply → ∃ whole, result.1 = .ok whole ∧
        reply = { whole with messages := whole.messages.strip } := by
    rintro ⟨whole, w⟩ hreply
    cases whole with
    | error fault => cases hreply
    | ok whole =>
      cases hreply
      exact ⟨whole, rfl, rfl⟩
  cases request with
  | load source =>
    obtain ⟨whole, hload, hreply⟩ := hsettle (Reply.loaded.inj h)
    obtain ⟨hproduces, herrors⟩ := Workspace.load_reports hload
    exact ⟨whole, ⟨.load hproduces, herrors⟩, hreply⟩
  | loadFile path =>
    obtain ⟨whole, hload, hreply⟩ := hsettle (Reply.loaded.inj h)
    exact ⟨whole, loadFile_replies hload, hreply⟩
  | importPackage name rename =>
    obtain ⟨whole, himport, hreply⟩ := hsettle (Reply.loaded.inj h)
    exact ⟨whole, importPackage_replies himport, hreply⟩
  | setLibpath path => cases h
  | executeRcFile filename => cases h

/-- What is reported of an expression is what compiling it comes upon, with an error if and only if
there is no pattern. -/
theorem compile_reports {expression : String} {reply : CompileReply}
    (h : (e.compile expression).1 = .ok reply) :
    reply.messages.records = e.workspace.env.violationsOf expression ∧
      reply.messages.hasErrors = reply.pattern.isNone := by
  unfold Engine.compile Workspace.compile at h
  unfold Environment.violationsOf
  cases hcompile : e.workspace.env.compile expression with
  | error problems =>
    rw [hcompile] at h
    cases h
    exact ⟨rfl, (e.workspace.env.refuses_compile expression problems hcompile).any_isError⟩
  | ok compiled =>
    rw [hcompile] at h
    dsimp only at h
    split at h
    · cases h
      exact ⟨rfl, List.any_eq_false.mpr fun v hv =>
        Bool.eq_false_iff.mp (Environment.isError_of_compile hcompile v hv)⟩
    · cases h

/-- What is reported agrees with whether all went well. An expression that is compiled leads to a
pattern or to an error among the records, and where it leads to a pattern all records are warnings.
A load or an import goes well or there is an error among the records, none of which holds a part of
a source. The records are those of the violations that the request comes upon, in order, and the
text is absent if there are none. -/
theorem diagnostics_agree (e : Engine) (fs : FileSystem) :
    (∀ expression reply, (e.compile expression).1 = .ok reply →
      (reply.pattern = none ↔ ∃ r ∈ reply.messages.decoded, r.severity = "error") ∧
      (reply.pattern ≠ none → ∀ r ∈ reply.messages.decoded, r.severity = "warning") ∧
      reply.messages.Reports (e.workspace.env.violationsOf expression)) ∧
    ∀ request reply, (e.respond (.source fs request)).1 = .loaded (.ok reply) →
      (reply.ok = false ↔ ∃ r ∈ reply.messages.decoded, r.severity = "error") ∧
      (∀ r ∈ reply.messages.decoded, r.ast = none) ∧
      ∃ violations, e.Produces fs request violations ∧
        reply.messages.Reports (violations.map Violation.strip) := by
  refine ⟨fun expression reply h => ?_, fun request reply h => ?_⟩
  · obtain ⟨hrecords, herrors⟩ := compile_reports h
    have hreports := reply.messages.reports
    refine ⟨?_, fun hpattern => ?_, hrecords ▸ hreports⟩
    · rw [← reply.messages.hasErrors_iff, herrors, Option.isNone_iff_eq_none]
    · have hnone : reply.messages.hasErrors = false := by
        rw [herrors]
        exact Bool.eq_false_iff.mpr (mt Option.isNone_iff_eq_none.mp hpattern)
      rw [hreports.decoded, List.forall_mem_map]
      intro v hv
      rw [v.severity_record, if_neg (List.any_eq_false.mp hnone v hv)]
  · obtain ⟨whole, hreplies, rfl⟩ := respond_source h
    have hreports := whole.messages.strip.reports
    refine ⟨?_, ?_, whole.messages.records, hreplies.produces, hreports⟩
    · rw [← Diagnostics.hasErrors_iff, Diagnostics.hasErrors_strip, hreplies.hasErrors,
        Bool.not_eq_true']
    · rw [hreports.decoded]
      intro r hr
      obtain ⟨v, hv, rfl⟩ := List.mem_map.mp hr
      obtain ⟨whole, -, rfl⟩ := List.mem_map.mp hv
      rfl

/-- The source is stored and the package that it imports is missing; the expression is compiled
though it is dubious. -/
theorem diagnostics_agree_bare :
    let e := Session.bare.engine
    (∃ reply, (e.respond (.source {} (.load "import missing\nx = \"a\""))).1 =
        .loaded (.ok reply) ∧
      reply.ok = false ∧ ∃ r ∈ reply.messages.decoded, r.severity = "error") ∧
    ∃ reply, (e.compile "\"a\"*").1 = .ok reply ∧ reply.pattern = some ⟨1, 1⟩ ∧
      reply.messages.decoded.map (·.severity) = ["warning"] := by
  intro e
  obtain ⟨hcompile, hload⟩ := diagnostics_agree e {}
  let missing : LoadReply :=
    ⟨false, none, ⟨[{ cause := .importing (.notFound "missing" "/opt/rpl") }]⟩⟩
  let dubious : CompileReply :=
    ⟨some ⟨1, 1⟩, ⟨[Environment.emptyMatchWarning "\"a\"*"]⟩⟩
  have hmissing : (e.load {} "import missing\nx = \"a\"").1 = .ok missing := by cbv
  have hdubious : (e.compile "\"a\"*").1 = .ok dubious := by cbv
  obtain ⟨hok, -⟩ := hload (.load "import missing\nx = \"a\"") missing
    (congrArg Reply.loaded hmissing)
  obtain ⟨-, -, hreports⟩ := hcompile "\"a\"*" dubious hdubious
  have hviolations : e.workspace.env.violationsOf "\"a\"*" =
      [Environment.emptyMatchWarning "\"a\"*"] := by cbv
  refine ⟨⟨missing, congrArg Reply.loaded hmissing, rfl, hok.mp rfl⟩, dubious, hdubious, rfl, ?_⟩
  rw [hreports.decoded, hviolations]
  rfl

end Engine

end PatternEngine
