import PatternEngine.Boundary.Calls
import PatternEngine.Proofs.Engine.Reports

/-!
# Places for messages

A caller who names a place for messages looks there when the call is over: a text without a place of
its own says that there are none, and any other is read and released. So every call has to write to
the place, or the caller finds again what an earlier call has left there and was released since.

A compilation always writes. A load and an import write once there is an engine and a text that says
what is meant; without one of these they come to an end before, and leave the place as it is.
-/

namespace PatternEngine.Boundary

/-! ## Calls -/

/-- How a text says what is to be loaded. -/
inductive Supply where
  /-- The text is a source. -/
  | source
  /-- The text is the path of a source. -/
  | file
  /-- The text is the name of a package, to be imported under a prefix if one is passed. -/
  | package (rename : TextArgument)

/-- What a call with a place for messages is for. -/
inductive Errand where
  /-- Compile an expression. -/
  | compile (expression : TextArgument) (pattern : Cell Int32)
  /-- Load or import what a text supplies, the files being these. -/
  | obtain (fs : FileSystem) (supply : Supply) (text : TextArgument) (ok : Cell Int32)
      (name : Cell ForeignText)

/-- A call with a place for messages. -/
structure MessageCall where
  /-- An engine is passed. -/
  hasEngine : Bool
  /-- What the call is for. -/
  errand : Errand

/-- Load or import at the boundary. -/
def Supply.cross (engine : Option Engine) (fs : FileSystem) (text : TextArgument)
    (cells : LoadCells) : Supply → Answer LoadCells × Option Engine
  | .source => load engine fs text cells
  | .file => loadFile engine fs text cells
  | .package rename => importPackage engine fs text rename cells

/-- What the place for messages holds after an errand, and the engine. -/
def Errand.run (engine : Option Engine) (old : ForeignText) :
    Errand → Cell ForeignText × Option Engine
  | .compile expression pattern =>
    let (answer, engine) := Boundary.compile engine expression ⟨pattern, some old⟩
    (answer.cells.messages, engine)
  | .obtain fs supply text ok name =>
    let (answer, engine) := supply.cross engine fs text ⟨ok, name, some old⟩
    (answer.cells.messages, engine)

/-- What the place for messages holds after a call, and the engine. -/
def MessageCall.run (e : Engine) (old : ForeignText) (call : MessageCall) :
    Cell ForeignText × Engine :=
  let (messages, engine) := call.errand.run (if call.hasEngine then some e else none) old
  (messages, engine.getD e)

/-- The texts that a caller finds at the one place for messages after each of some calls, the place
holding a text before the first. -/
def found (e : Engine) (old : ForeignText) : List MessageCall → List (Cell ForeignText)
  | [] => []
  | call :: calls =>
    let (messages, e) := call.run e old
    messages :: found e (messages.getD old) calls

/-! ## What there is to report -/

/-- What is reported of an engine's reply. -/
def reportOf : Except EngineError Diagnostics → Option String
  | .ok messages => messages.toText?
  | .error _ => some faultMessage

/-- What an engine does for a load or an import. -/
def Supply.perform (e : Engine) (fs : FileSystem) (text : String) :
    Supply → Except EngineError LoadReply × Engine
  | .source => e.load fs text
  | .file => e.loadFile fs text
  | .package rename => e.importPackage fs text rename.string?

/-- A call has this to report and leads to this engine. -/
inductive Reports (e : Engine) : MessageCall → Option String → Engine → Prop
  /-- What is asked for is compiled. -/
  | compiled {expression : TextArgument} {pattern : Int32} {text : String} {after : Engine}
      {result : Except EngineError CompileReply} (htext : expression.string? = some text)
      (h : e.compile text = (result, after)) :
      Reports e ⟨true, .compile expression (some pattern)⟩
        (reportOf (result.map (·.messages))) after
  /-- Nothing is compiled without an engine, an expression and a place for the pattern. -/
  | notCompiled {hasEngine : Bool} {expression : TextArgument} {pattern : Cell Int32}
      (h : hasEngine = false ∨ expression.string? = none ∨ pattern = none) :
      Reports e ⟨hasEngine, .compile expression pattern⟩ none e
  /-- What is asked for is loaded or imported. -/
  | obtained {fs : FileSystem} {supply : Supply} {text : TextArgument} {ok : Cell Int32}
      {name : Cell ForeignText} {meant : String} {after : Engine}
      {result : Except EngineError LoadReply} (htext : text.string? = some meant)
      (h : supply.perform e fs meant = (result, after)) :
      Reports e ⟨true, .obtain fs supply text ok name⟩
        (reportOf (result.map (·.messages))) after

/-- A text says what there is to report: it is null when there is nothing, and else it has a place
of its own, unless there is more than a length can count. -/
inductive Conveys : Option String → ForeignText → Prop
  /-- There is nothing to report. -/
  | nothing : Conveys none .null
  /-- There is a text for what is to be reported. -/
  | message {report : String} (h : (Bytes.ofString report).length < UInt32.size) :
      Conveys (some report) (.bytes (.ofString report))
  /-- What is to be reported is too long for a text. -/
  | tooLong {report : String} (h : ¬(Bytes.ofString report).length < UInt32.size) :
      Conveys (some report) (.ofCode Status.outOfMemory)

/-- The call is a load or an import without an engine or without a text. -/
inductive Lacking : MessageCall → Prop
  | engine {fs : FileSystem} {supply : Supply} {text : TextArgument} {ok : Cell Int32}
      {name : Cell ForeignText} : Lacking ⟨false, .obtain fs supply text ok name⟩
  | text {hasEngine : Bool} {fs : FileSystem} {supply : Supply} {text : TextArgument}
      {ok : Cell Int32} {name : Cell ForeignText} (htext : text.string? = none) :
      Lacking ⟨hasEngine, .obtain fs supply text ok name⟩

/-- What a caller finds after each call: what the call has to report, or else, where the call lacks
what it needs, what was found before it. -/
inductive Finds : Engine → ForeignText → List MessageCall → List (Cell ForeignText) → Prop
  /-- There is no call. -/
  | nil (e : Engine) (old : ForeignText) : Finds e old [] []
  /-- The call writes what it has to report. -/
  | written {e after : Engine} {old : ForeignText} {call : MessageCall} {calls : List MessageCall}
      {report : Option String} {text : ForeignText} {rest : List (Cell ForeignText)}
      (h : Reports e call report after) (htext : Conveys report text)
      (hrest : Finds after text calls rest) : Finds e old (call :: calls) (some text :: rest)
  /-- The call leaves what an earlier one has written. -/
  | stale {e : Engine} {old : ForeignText} {call : MessageCall} {calls : List MessageCall}
      {rest : List (Cell ForeignText)} (h : Lacking call) (hrest : Finds e old calls rest) :
      Finds e old (call :: calls) (some old :: rest)

variable {e after : Engine} {call : MessageCall} {report : Option String} {old : ForeignText}

theorem conveys_ofString? (report : Option String) : Conveys report (.ofString? report) := by
  cases report with
  | none => exact .nothing
  | some report =>
    simp only [ForeignText.ofString?, ForeignText.ofString, ForeignText.ofBytes]
    split_ifs with h
    · exact .message h
    · exact .tooLong h

/-- A load and an import take the same way. -/
theorem Supply.cross_eq (supply : Supply) (engine : Option Engine) (fs : FileSystem)
    (text : TextArgument) (cells : LoadCells) : supply.cross engine fs text cells =
      loadWith (fun e meant => supply.perform e fs meant) engine text cells := by
  cases supply <;> rfl

/-- A call that has something to report writes it, whatever the place held. -/
theorem Reports.run_eq (h : Reports e call report after) (old : ForeignText) :
    call.run e old = (some (.ofString? report), after) := by
  cases h with
  | @compiled expression pattern text after result htext h =>
    unfold MessageCall.run Errand.run Boundary.compile
    simp only [htext, h, if_true]
    cases result with
    | error fault => rfl
    | ok reply => rfl
  | @notCompiled hasEngine expression pattern h =>
    unfold MessageCall.run Errand.run Boundary.compile
    rcases h with rfl | htext | rfl
    · rfl
    · simp only [htext]
      cases hasEngine with
      | false => rfl
      | true => cases pattern <;> rfl
    · cases hasEngine <;> rfl
  | @obtained fs supply text ok name meant after result htext h =>
    simp only [MessageCall.run, Errand.run, Supply.cross_eq, loadWith, htext, h, if_true]
    cases result with
    | error fault => rfl
    | ok reply => rfl

/-- A call that lacks what it needs leaves the place and the engine as they are. -/
theorem Lacking.run_eq (h : Lacking call) (e : Engine) (old : ForeignText) :
    call.run e old = (some old, e) := by
  cases h with
  | engine =>
    simp only [MessageCall.run, Errand.run, Supply.cross_eq]
    rfl
  | @text hasEngine fs supply text ok name htext =>
    cases hasEngine <;> simp [MessageCall.run, Errand.run, Supply.cross_eq, loadWith, htext]

/-- Every call either has something to report, or nothing, or lacks what it needs. -/
theorem reports_or_lacking (e : Engine) (call : MessageCall) :
    (∃ report after, Reports e call report after) ∨ Lacking call := by
  obtain ⟨hasEngine, errand⟩ := call
  cases errand with
  | compile expression pattern =>
    refine .inl ?_
    cases hasEngine with
    | false => exact ⟨_, _, .notCompiled (.inl rfl)⟩
    | true =>
      cases htext : expression.string? with
      | none => exact ⟨_, _, .notCompiled (.inr (.inl htext))⟩
      | some text =>
        cases pattern with
        | none => exact ⟨_, _, .notCompiled (.inr (.inr rfl))⟩
        | some pattern => exact ⟨_, _, .compiled htext rfl⟩
  | obtain fs supply text ok name =>
    cases hasEngine with
    | false => exact .inr .engine
    | true =>
      cases htext : text.string? with
      | none => exact .inr (.text htext)
      | some meant => exact .inl ⟨_, _, .obtained htext rfl⟩

/-- What a caller finds after some calls is what they have to report, but for those that lack what
they need. -/
theorem finds_found (e : Engine) (old : ForeignText) (calls : List MessageCall) :
    Finds e old calls (found e old calls) := by
  induction calls generalizing e old with
  | nil => exact .nil e old
  | cons call calls ih =>
    rcases reports_or_lacking e call with ⟨report, after, h⟩ | h
    · rw [found, h.run_eq]
      exact .written h (conveys_ofString? report) (ih after _)
    · rw [found, h.run_eq]
      exact .stale h (ih e old)

/-- A call writes to the place for messages unless it is a load or an import that lacks an engine
or a text, and such a call leaves there what an earlier call has written. Whatever calls a caller
makes, what is found after each that lacks nothing is what this call has to report: null when it is
nothing, and else a text of its own. -/
theorem messages_written (e : Engine) :
    (∀ call : MessageCall,
      (∃ text, ∀ old, (call.run e old).1 = some text) ↔ ¬Lacking call) ∧
    ∀ (old : ForeignText) (calls : List MessageCall), Finds e old calls (found e old calls) := by
  refine ⟨fun call => ⟨?_, fun h => ?_⟩, finds_found e⟩
  · rintro ⟨text, htext⟩ h
    have hnull : ForeignText.null = text := by simpa [h.run_eq] using htext .null
    have hbytes : ForeignText.bytes [] = text := by simpa [h.run_eq] using htext (.bytes [])
    cases hnull.trans hbytes.symm
  · obtain ⟨report, after, hreports⟩ := (reports_or_lacking e call).resolve_right h
    exact ⟨.ofString? report, fun old => by rw [hreports.run_eq]⟩

/-- A load without a source does not write to the place. -/
theorem not_messages_written :
    ¬∀ (e : Engine) (call : MessageCall), ∃ text, ∀ old, (call.run e old).1 = some text := by
  intro h
  obtain ⟨text, htext⟩ := h (.boot 1 ⟨"/opt", "/opt/lib/boot.lua", "/opt/rpl", .installation, ""⟩)
    ⟨true, .obtain {} .source none none none⟩
  have hnull : ForeignText.null = text := Option.some.inj (htext .null)
  have hbytes : ForeignText.bytes [] = text := Option.some.inj (htext (.bytes []))
  cases hnull.trans hbytes.symm

/-- The text that a compilation has left is found once more after a load without a source. -/
example : ∃ content, found (.boot 1 ⟨"/opt", "/opt/lib/boot.lua", "/opt/rpl", .installation, ""⟩)
    .null [⟨true, .compile (some (.ofString "[0-9")) (some 0)⟩,
      ⟨true, .obtain {} .source none none none⟩] =
    [some (.bytes content), some (.bytes content)] := by
  cbv
  exact ⟨_, rfl⟩

end PatternEngine.Boundary
