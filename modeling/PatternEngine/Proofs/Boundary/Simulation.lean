import PatternEngine.Boundary.Calls
import PatternEngine.Proofs.Engine.Deliveries
import PatternEngine.Proofs.Engine.Isolation
import PatternEngine.Proofs.Text.Encoding

/-!
# The boundary and the engine

A caller behind the boundary gets from every call what the engine replies. The reply is written to
places: as a number of a pattern, as a flag, as a count, and as a text that either has a place, with
exactly the bytes of the reply, or has none and carries a code. An empty text has a place as well,
so it is not taken for a status, nor for the lack of a text.

The output of a search takes a way of its own. It is taken out of the result and lent to the caller,
while a status stays where it is, and from both together the result is made up again.

A text that a caller passes is the encoding of a string and is decoded to this string, so the engine
is called with what the caller meant. It is the same engine afterwards.
-/

namespace PatternEngine

/-- What keeps a call from being carried out is told by a code that is not zero. -/
theorem EngineError.code_ne_success (fault : EngineError) : fault.code ≠ Status.success := by
  cases fault <;>
    simp [code, Status.success, Status.outOfMemory, Status.encodingFailed, Status.callFailed,
      Status.noInstallation]

/-! ## Texts and numbers -/

namespace Boundary

/-- The length of a text can be passed. -/
def Fits (content : Bytes) : Prop := content.length < UInt32.size

/-- The length of the encoding of a string, if there is one, can be passed. -/
def TextFits (text : Option String) : Prop := ∀ s ∈ text, Fits (.ofString s)

instance : DecidablePred Fits := fun content =>
  inferInstanceAs (Decidable (content.length < UInt32.size))

instance : DecidablePred TextFits := fun text =>
  inferInstanceAs (Decidable (∀ s ∈ text, Fits (.ofString s)))

namespace ForeignText

/-- The text has a place, where exactly these bytes are. -/
structure Holds (text : ForeignText) (content : Bytes) : Prop where
  placed : text.header.isNull = false
  length : text.header.length.toNat = content.length
  bytes : text.bytes? = some content

/-- The text has no place and carries a code. -/
structure Carries (text : ForeignText) (code : Int) : Prop where
  null : text.header.isNull = true
  code : text.header.code.toInt = code
  bytes : text.bytes? = none

/-- The text is that of a string, or there is none. -/
def Shows (text : ForeignText) : Option String → Prop
  | some s => text.Holds (.ofString s)
  | none => text.header = ⟨true, 0⟩ ∧ text.bytes? = none

variable {content : Bytes} {code : Int} {text : Option String}

theorem ofBytes_eq (h : Fits content) : ofBytes content = .bytes content := if_pos h

/-- Bytes that fit have a place, even if there are none. -/
theorem holds_ofBytes (h : Fits content) : (ofBytes content).Holds content := by
  have hheader : (ofBytes content).header = ⟨false, UInt32.ofNat content.length⟩ := by
    rw [ofBytes_eq h]
    exact if_pos h
  refine ⟨by rw [hheader], ?_, by rw [ofBytes_eq h, bytes?]⟩
  rw [hheader]
  exact UInt32.toNat_ofNat_of_lt' h

/-- A code of 32 bits is carried as it is. -/
theorem carries_ofCode (hlo : -2147483648 ≤ code) (hhi : code ≤ 2147483647) :
    (ofCode code).Carries code where
  null := rfl
  code := Int32.toInt_ofInt_of_le hlo (Int.lt_add_one_of_le hhi)
  bytes := rfl

theorem shows_ofString? (h : TextFits text) : (ofString? text).Shows text := by
  cases text with
  | none => exact ⟨rfl, rfl⟩
  | some s => exact holds_ofBytes (h s rfl)

end ForeignText

/-- A string is passed as it is. -/
theorem string?_ofString {s : String} (h : Fits (.ofString s)) :
    TextArgument.string? (some (.ofString s)) = some s := by
  rw [TextArgument.string?, Option.bind_some, ForeignText.ofString, ForeignText.ofBytes_eq h,
    ForeignText.string?, ForeignText.bytes?, Option.map_some, Utf8.decodeLossy_ofString]

/-- Bytes are passed as they are. -/
theorem bytes?_ofBytes {content : Bytes} (h : Fits content) :
    TextArgument.bytes? (some (.ofBytes content)) = some content := by
  rw [TextArgument.bytes?, Option.bind_some, ForeignText.ofBytes_eq h, ForeignText.bytes?]

theorem fits_faultMessage : Fits (.ofString faultMessage) := by decide

/-- A name without null byte is passed as it is. -/
theorem string?_ofName {name : String} (h : (0 : UInt8) ∉ Bytes.ofString name) :
    NameArgument.string? (some (.ofString name)) = some name := by
  have hall : (Bytes.ofString name).takeWhile (· != 0) = Bytes.ofString name := by
    rw [List.takeWhile_eq_self_iff]
    intro b hb
    exact bne_iff_ne.mpr (ne_of_mem_of_not_mem hb h)
  rw [NameArgument.string?, Option.map_some, hall, Utf8.decodeLossy_ofString]

theorem toInt_clamp {n : Int} (hlo : -2147483648 ≤ n) (hhi : n ≤ 2147483647) :
    (clamp n).toInt = n := by
  rw [clamp, min_eq_left hhi, max_eq_right hlo]
  exact Int32.toInt_ofInt_of_le hlo (Int.lt_add_one_of_le hhi)

/-! ## Calls -/

/-- A call that names all of its places, with what these hold before it. -/
inductive Call where
  /-- Compile an expression. -/
  | compile (expression : String) (pattern : Int32) (messages : ForeignText)
  /-- Give up a pattern. -/
  | free (pattern : Int32)
  /-- Search an input. -/
  | matchInput (pattern start : Int32) (encoder : String) (input : Bytes) (found : ForeignMatch)
  /-- Search an input and show the log. -/
  | trace (pattern start : Int32) (style : String) (input : Bytes) (isMatch : Int32)
      (log : ForeignText)
  /-- Load a source, the files being these. -/
  | load (fs : FileSystem) (source : String) (ok : Int32) (name messages : ForeignText)
  /-- Import a package, the files being these. -/
  | importPackage (fs : FileSystem) (package : String) (rename : Option String) (ok : Int32)
      (name messages : ForeignText)

/-- What a call gives back. -/
inductive Returned where
  /-- The answer to a compilation. -/
  | compiled (answer : Answer CompileCells)
  /-- A pattern was given up. -/
  | freed (answer : Answer Unit)
  /-- The answer to a search. -/
  | matched (answer : Answer (Cell ForeignMatch))
  /-- The answer to a trace. -/
  | traced (answer : Answer TraceCells)
  /-- The answer to a load or an import. -/
  | loaded (answer : Answer LoadCells)

/-- The code that is given back. -/
def Returned.code : Returned → Int
  | .compiled answer => answer.code
  | .freed answer => answer.code
  | .matched answer => answer.code
  | .traced answer => answer.code
  | .loaded answer => answer.code

namespace Call

/-- Make the call at the boundary. -/
def cross (engine : Option Engine) : Call → Returned × Option Engine
  | .compile expression pattern messages =>
    let (answer, engine) :=
      Boundary.compile engine (some (.ofString expression)) ⟨some pattern, some messages⟩
    (.compiled answer, engine)
  | .free pattern =>
    let (answer, engine) := Boundary.free engine pattern
    (.freed answer, engine)
  | .matchInput pattern start encoder input found =>
    (.matched (Boundary.matchInput engine pattern start (some (.ofString encoder))
      (some (.ofBytes input)) (some found)), engine)
  | .trace pattern start style input isMatch log =>
    (.traced (Boundary.trace engine pattern start (some (.ofString style)) (some (.ofBytes input))
      ⟨some isMatch, some log⟩), engine)
  | .load fs source ok name messages =>
    let (answer, engine) := Boundary.load engine fs (some (.ofString source))
      ⟨some ok, some name, some messages⟩
    (.loaded answer, engine)
  | .importPackage fs package rename ok name messages =>
    let (answer, engine) := Boundary.importPackage engine fs (some (.ofString package))
      (rename.map .ofString) ⟨some ok, some name, some messages⟩
    (.loaded answer, engine)

/-- The call of an engine that is meant. Numbers of patterns are those of this engine. -/
def direct (e : Engine) : Call → Engine.Call
  | .compile expression _ _ => .request (.pattern (.compile expression))
  | .free pattern => .request (.pattern (.free (e.handleOf pattern)))
  | .matchInput pattern start encoder input _ =>
    .matchInput (e.handleOf pattern) start.toInt encoder input
  | .trace pattern start style input _ _ => .trace (e.handleOf pattern) start.toInt style input
  | .load fs source _ _ _ => .request (.source fs (.load source))
  | .importPackage fs package rename _ _ _ =>
    .request (.source fs (.importPackage package rename))

/-- The texts of a call can be passed. -/
def Fits : Call → Prop
  | .compile expression _ _ => Boundary.Fits (.ofString expression)
  | .free _ => True
  | .matchInput _ _ name input _ | .trace _ _ name input _ _ =>
    (0 : UInt8) ∉ Bytes.ofString name ∧ Boundary.Fits input
  | .load _ source _ _ _ => Boundary.Fits (.ofString source)
  | .importPackage _ package rename _ _ _ =>
    Boundary.Fits (.ofString package) ∧ TextFits rename

instance : DecidablePred Call.Fits
  | .compile expression _ _ => inferInstanceAs (Decidable (Boundary.Fits (.ofString expression)))
  | .free _ => .isTrue trivial
  | .matchInput _ _ name input _ | .trace _ _ name input _ _ =>
    inferInstanceAs (Decidable ((0 : UInt8) ∉ Bytes.ofString name ∧ Boundary.Fits input))
  | .load _ source _ _ _ => inferInstanceAs (Decidable (Boundary.Fits (.ofString source)))
  | .importPackage _ package rename _ _ _ =>
    inferInstanceAs (Decidable (Boundary.Fits (.ofString package) ∧ TextFits rename))

end Call

/-! ## Replies -/

/-- The output of a search, if there is one, can be passed. -/
def DataFits : MatchData → Prop
  | .buffer output | .text output => Fits output
  | .status _ => True

/-- The texts of a reply can be passed. -/
def ReplyFits : Engine.CallReply → Prop
  | .replied (.compiled (.ok reply)) => TextFits reply.messages.toText?
  | .replied (.loaded (.ok reply)) => TextFits reply.name ∧ TextFits reply.messages.toText?
  | .matched result => DataFits result.data
  | .traced (.ok reply) => DataFits reply.data
  | _ => True

/-- The text holds the output of a search, or it carries the status. -/
def ShowsData (text : ForeignText) : MatchData → Prop
  | .buffer output | .text output => text.Holds output
  | .status code => text.Carries code

/-- The number is that of the pattern, which is positive, or zero when there is none. -/
def ShowsPattern (number : Int32) : Option PatternHandle → Prop
  | some pattern => number = pattern.raw ∧ 0 < number
  | none => number = 0

/-- What kept an engine from carrying out a call. -/
def fault? : Engine.CallReply → Option EngineError
  | .replied (.compiled (.error fault)) | .replied (.loaded (.error fault))
  | .traced (.error fault) => some fault
  | _ => none

/-- What is given back shows the reply of an engine. -/
inductive Represents : Engine.CallReply → Returned → Prop
  | compiled {reply : CompileReply} {number : Int32} {messages : ForeignText}
      (hpattern : ShowsPattern number reply.pattern)
      (hmessages : messages.Shows reply.messages.toText?) :
      Represents (.replied (.compiled (.ok reply)))
        (.compiled ⟨Status.success, ⟨some number, some messages⟩⟩)
  | compileFault {fault : EngineError} {messages : ForeignText}
      (hmessages : messages.Shows (some faultMessage)) :
      Represents (.replied (.compiled (.error fault)))
        (.compiled ⟨fault.code, ⟨some 0, some messages⟩⟩)
  | freed : Represents (.replied .done) (.freed ⟨Status.success, ()⟩)
  | matched {result : MatchResult} {found : ForeignMatch}
      (hdata : ShowsData found.data result.data)
      (hleftover : found.leftover.toInt = result.leftover)
      (habend : found.abend = if result.abend then 1 else 0) :
      Represents (.matched result) (.matched ⟨Status.success, some found⟩)
  | traced {reply : TraceReply} {log : ForeignText} (hdata : ShowsData log reply.data) :
      Represents (.traced (.ok reply))
        (.traced ⟨Status.success, ⟨some (if reply.isMatch then 1 else 0), some log⟩⟩)
  | traceFault {fault : EngineError} {log : ForeignText} (hlog : log.Shows none) :
      Represents (.traced (.error fault)) (.traced ⟨fault.code, ⟨some 0, some log⟩⟩)
  | loaded {reply : LoadReply} {name messages : ForeignText} (hname : name.Shows reply.name)
      (hmessages : messages.Shows reply.messages.toText?) :
      Represents (.replied (.loaded (.ok reply)))
        (.loaded ⟨Status.success, ⟨some (if reply.ok then 1 else 0), some name, some messages⟩⟩)
  | loadFault {fault : EngineError} {name messages : ForeignText} (hname : name.Shows none)
      (hmessages : messages.Shows (some faultMessage)) :
      Represents (.replied (.loaded (.error fault)))
        (.loaded ⟨fault.code, ⟨some 0, some name, some messages⟩⟩)

/-- The code tells whether the call was carried out, and if not, why. -/
theorem Represents.code {reply : Engine.CallReply} {returned : Returned}
    (h : Represents reply returned) :
    (returned.code = Status.success ↔ fault? reply = none) ∧
      ∀ fault ∈ fault? reply, returned.code = fault.code := by
  cases h with
  | compileFault | traceFault | loadFault =>
    refine ⟨⟨fun h => absurd h (EngineError.code_ne_success _), nofun⟩, ?_⟩
    rintro _ ⟨⟩
    rfl
  | compiled | freed | matched | traced | loaded => exact ⟨⟨fun _ => rfl, fun _ => rfl⟩, nofun⟩

end Boundary

/-! ## What an engine replies -/

namespace Engine

variable {e : Engine} {pattern : PatternHandle} {start : Int} {input : Bytes}

/-- The number of a pattern that is handed out is positive. -/
theorem raw_pos_of_compile {expression : String} {reply : CompileReply} (he : e.Reachable)
    (h : (e.compile expression).1 = .ok reply) (hpattern : reply.pattern = some pattern) :
    0 < pattern.raw := by
  unfold compile at h
  split at h
  · cases h
    cases hpattern
  · split at h
    · rename_i raw handles hinsert
      cases h
      cases hpattern
      exact (HandleTable.get?_insert he.registered.sound hinsert).1
    · cases h

/-- The statuses of searches and traces. -/
def statuses : List Int :=
  [Status.noPattern, Status.noEncoder, Status.noMatch, Status.isMatch]

theorem mem_statuses_of_matchWith {w : Workspace} {key first : Nat} {encoder : String} {code : Int}
    (h : (w.matchWith key encoder first input).data = .status code) : code ∈ statuses := by
  unfold Workspace.matchWith at h
  split at h
  · split at h
    · rcases Workspace.of_replyOf_eq_status h with rfl | rfl | ⟨rfl, -, -⟩ <;> simp [statuses]
    · cases h
      exact List.mem_cons_self
  · cases h
    exact List.mem_cons_self

theorem mem_statuses_of_matchInput {encoder : String} {code : Int}
    (h : (e.matchInput pattern start encoder input).data = .status code) : code ∈ statuses := by
  unfold matchInput at h
  split at h
  · cases h
    exact List.mem_cons_self
  · split at h
    · dsimp only at h
      split at h
      · cases h
      · rename_i hdata
        cases h
        rcases Encoder.of_encode_eq_status hdata with rfl | rfl <;> simp [statuses]
    · dsimp only at h
      split at h
      · cases h
      · rename_i hdata
        cases h
        exact mem_statuses_of_matchWith hdata

theorem mem_statuses_of_trace {style : String} {reply : TraceReply} {code : Int}
    (h : e.trace pattern start style input = .ok reply) (hdata : reply.data = .status code) :
    code ∈ statuses := by
  unfold trace at h
  split at h
  · cases h
    cases hdata
    exact List.mem_cons_self
  · split at h
    · split at h
      · cases h
        cases hdata
      · cases h
    · cases h
      cases hdata
      exact List.mem_cons_self

/-- A count of bytes has 31 bits. -/
theorem leftover_le (e : Engine) (pattern : PatternHandle) (start : Int) (encoder : String)
    (input : Bytes) : (e.matchInput pattern start encoder input).leftover ≤ 2147483647 := by
  unfold matchInput
  split
  · exact Nat.zero_le _
  · split <;> exact Nat.min_le_right _ _

end Engine

namespace Boundary

/-- A status of a search or a trace is carried as it is. -/
theorem carries_of_mem {code : Int} (h : code ∈ Engine.statuses) :
    (ForeignText.ofCode code).Carries code := by
  apply ForeignText.carries_ofCode
  all_goals
    revert code
    decide

/-- What a search or a trace gives is shown as a text. -/
theorem showsData_dataText {data : MatchData} (hfits : DataFits data)
    (hstatus : ∀ code, data = .status code → code ∈ Engine.statuses) :
    ShowsData (dataText data) data := by
  cases data with
  | buffer output | text output => exact ForeignText.holds_ofBytes hfits
  | status code => exact carries_of_mem (hstatus code rfl)

/-- What is lent and what stays behind make up the result. -/
theorem ofLent_lend {result : MatchResult} (hfits : DataFits result.data) :
    ForeignMatch.ofLent (lend result) =
      .ok ⟨dataText result.data, clamp result.leftover, flag result.abend⟩ := by
  obtain ⟨data, leftover, abend⟩ := result
  cases data with
  | buffer output | text output =>
    have hview : ForeignText.ofBytes output = .bytes output := ForeignText.ofBytes_eq hfits
    simp only [lend, ForeignMatch.ofLent, dataText, hview]
  | status code => rfl

/-! ## One call -/

/-- The caller gets what the engine replies, and the engine is the same afterwards. -/
structure Simulates (e : Engine) (call : Call) : Prop where
  reply : Represents (e.call (call.direct e)).1 (call.cross (some e)).1
  engine : (call.cross (some e)).2 = some (e.call (call.direct e)).2

variable {e : Engine}

/-- A compilation gives the number of the pattern, or zero, and what there is to report. -/
theorem simulates_compile {expression : String} {pattern : Int32} {messages : ForeignText}
    (he : e.Reachable) (hcall : (Call.compile expression pattern messages).Fits)
    (hreply : ReplyFits (.replied (.compiled (e.compile expression).1))) :
    Simulates e (.compile expression pattern messages) := by
  have hcross : (Call.compile expression pattern messages).cross (some e) =
      (.compiled (CompileCells.write ⟨some pattern, some .null⟩ (e.compile expression).1),
        some (e.compile expression).2) := by
    unfold Call.cross compile
    simp only [string?_ofString hcall, Cell.put_some]
  have hdirect : e.call ((Call.compile expression pattern messages).direct e) =
      (.replied (.compiled (e.compile expression).1), (e.compile expression).2) := rfl
  refine ⟨?_, by rw [hcross, hdirect]⟩
  rw [hcross, hdirect]
  cases hresult : (e.compile expression).1 with
  | error fault => exact .compileFault (ForeignText.holds_ofBytes fits_faultMessage)
  | ok reply =>
    rw [hresult] at hreply
    refine .compiled ?_ (ForeignText.shows_ofString? hreply)
    cases hpattern : reply.pattern with
    | none => rfl
    | some handle => exact ⟨rfl, Engine.raw_pos_of_compile he hresult hpattern⟩

theorem simulates_free (pattern : Int32) : Simulates e (.free pattern) :=
  ⟨.freed, rfl⟩

/-- A search gives its output as it was before it was lent, or its status. -/
theorem simulates_matchInput {pattern start : Int32} {encoder : String} {input : Bytes}
    {found : ForeignMatch} (hcall : (Call.matchInput pattern start encoder input found).Fits)
    (hreply : ReplyFits
      (.matched (e.matchInput (e.handleOf pattern) start.toInt encoder input))) :
    Simulates e (.matchInput pattern start encoder input found) := by
  refine ⟨?_, rfl⟩
  have hdata := showsData_dataText hreply fun _ => Engine.mem_statuses_of_matchInput
  have hleftover := e.leftover_le (e.handleOf pattern) start.toInt encoder input
  have hcross : ((Call.matchInput pattern start encoder input found).cross (some e)).1 =
      let result := e.matchInput (e.handleOf pattern) start.toInt encoder input
      .matched ⟨Status.success, some ⟨dataText result.data, clamp result.leftover,
        flag result.abend⟩⟩ := by
    simp only [Call.cross, matchInput, string?_ofName hcall.1, bytes?_ofBytes hcall.2,
      ofLent_lend hreply, Cell.put_some]
  rw [hcross]
  exact .matched hdata (toInt_clamp (by omega) (by omega)) rfl

/-- A trace gives its output or its status, and says whether there was a match. -/
theorem simulates_trace {pattern start : Int32} {style : String} {input : Bytes}
    {isMatch : Int32} {log : ForeignText}
    (hcall : (Call.trace pattern start style input isMatch log).Fits)
    (hreply : ReplyFits (.traced (e.trace (e.handleOf pattern) start.toInt style input))) :
    Simulates e (.trace pattern start style input isMatch log) := by
  refine ⟨?_, rfl⟩
  simp only [Call.cross, trace, string?_ofName hcall.1, bytes?_ofBytes hcall.2, Cell.put_some]
  change Represents (.traced (e.trace (e.handleOf pattern) start.toInt style input)) _
  cases hresult : e.trace (e.handleOf pattern) start.toInt style input with
  | error fault => exact .traceFault ⟨rfl, rfl⟩
  | ok reply =>
    rw [hresult] at hreply
    exact .traced (showsData_dataText hreply fun _ => Engine.mem_statuses_of_trace hresult)

/-- A call that writes the outcome of a load or an import to its places gives back what the engine
replies. -/
theorem simulates_of_write {call : Call} {result : Except EngineError LoadReply} {after : Engine}
    {ok : Int32} {name messages : ForeignText}
    (hcross : call.cross (some e) =
      (.loaded (LoadCells.write ⟨some ok, some name, some messages⟩ result), some after))
    (hdirect : e.call (call.direct e) = (.replied (.loaded result), after))
    (hreply : ReplyFits (.replied (.loaded result))) : Simulates e call := by
  refine ⟨?_, by rw [hcross, hdirect]⟩
  rw [hcross, hdirect]
  cases result with
  | error fault =>
    exact .loadFault ⟨rfl, rfl⟩ (ForeignText.holds_ofBytes fits_faultMessage)
  | ok reply =>
    exact .loaded (ForeignText.shows_ofString? hreply.1) (ForeignText.shows_ofString? hreply.2)

theorem simulates_load {fs : FileSystem} {source : String} {ok : Int32}
    {name messages : ForeignText} (hcall : (Call.load fs source ok name messages).Fits)
    (hreply : ReplyFits (.replied (.loaded (e.load fs source).1))) :
    Simulates e (.load fs source ok name messages) := by
  have hcross : (Call.load fs source ok name messages).cross (some e) =
      (.loaded (LoadCells.write ⟨some ok, some name, some messages⟩ (e.load fs source).1),
        some (e.load fs source).2) := by
    simp only [Call.cross, load, loadWith, string?_ofString hcall]
  exact simulates_of_write hcross rfl hreply

/-- An import that is given no prefix passes none. -/
theorem simulates_importPackage {fs : FileSystem} {package : String} {rename : Option String}
    {ok : Int32} {name messages : ForeignText}
    (hcall : (Call.importPackage fs package rename ok name messages).Fits)
    (hreply : ReplyFits (.replied (.loaded (e.importPackage fs package rename).1))) :
    Simulates e (.importPackage fs package rename ok name messages) := by
  have hrename : TextArgument.string? (rename.map .ofString) = rename := by
    cases rename with
    | none => rfl
    | some s => exact string?_ofString (hcall.2 s rfl)
  have hcross : (Call.importPackage fs package rename ok name messages).cross (some e) =
      (.loaded (LoadCells.write ⟨some ok, some name, some messages⟩
        (e.importPackage fs package rename).1), some (e.importPackage fs package rename).2) := by
    simp only [Call.cross, importPackage, loadWith, hrename, string?_ofString hcall.1]
  exact simulates_of_write hcross rfl hreply

/-- Every call at the boundary does what the call of the engine does. -/
theorem simulates {call : Call} (he : e.Reachable) (hcall : call.Fits)
    (hreply : ReplyFits (e.call (call.direct e)).1) : Simulates e call := by
  cases call with
  | compile => exact simulates_compile he hcall hreply
  | free => exact simulates_free _
  | matchInput => exact simulates_matchInput hcall hreply
  | trace => exact simulates_trace hcall hreply
  | load => exact simulates_load hcall hreply
  | importPackage => exact simulates_importPackage hcall hreply

/-- A call leads to an engine that can come about. -/
theorem reachable_call (he : e.Reachable) (call : Call) :
    (e.call (call.direct e)).2.Reachable := by
  cases call with
  | compile expression => exact he.serve (.compile expression)
  | free pattern => exact he.serve (.free (e.handleOf pattern))
  | matchInput | trace => exact he
  | load fs source => exact he.answer fs (.load source)
  | importPackage fs package rename => exact he.answer fs (.importPackage package rename)

/-! ## Several calls -/

/-- Make calls at the boundary, one after the other. -/
def crossAll (engine : Option Engine) : List Call → List Returned × Option Engine
  | [] => ([], engine)
  | call :: calls =>
    let (returned, engine) := call.cross engine
    let (later, last) := crossAll engine calls
    (returned :: later, last)

/-- Make the calls of an engine that are meant, one after the other. -/
def directAll (e : Engine) : List Call → List Engine.CallReply × Engine
  | [] => ([], e)
  | call :: calls =>
    let (reply, e) := e.call (call.direct e)
    let (later, last) := directAll e calls
    (reply :: later, last)

/-- The boundary simulates the engine: after any calls whose texts and replies can be passed the
engine is the same, and each call gave back what the engine replied, with a code that is zero
exactly when the call was carried out and else tells why it was not. -/
theorem boundary_simulates {calls : List Call} (he : e.Reachable)
    (hcalls : ∀ call ∈ calls, call.Fits)
    (hreplies : ∀ reply ∈ (directAll e calls).1, ReplyFits reply) :
    (crossAll (some e) calls).2 = some (directAll e calls).2 ∧
      List.Forall₂ (fun reply returned => Represents reply returned ∧
        (returned.code = Status.success ↔ fault? reply = none) ∧
        ∀ fault ∈ fault? reply, returned.code = fault.code)
        (directAll e calls).1 (crossAll (some e) calls).1 := by
  induction calls generalizing e with
  | nil => exact ⟨rfl, .nil⟩
  | cons call calls ih =>
    obtain ⟨hcall, hcalls⟩ := List.forall_mem_cons.mp hcalls
    obtain ⟨hreply, hreplies⟩ := List.forall_mem_cons.mp hreplies
    have hone : Simulates e call := simulates he hcall hreply
    -- The engine behind the first call can come about, too, and is the one that both go on with.
    obtain ⟨hlast, hall⟩ := ih (reachable_call he call) hcalls hreplies
    rw [← hone.engine] at hlast hall
    exact ⟨hlast, .cons ⟨hone.reply, hone.reply.code⟩ hall⟩

/-- A letter is compiled and searched for, with an output, with a status and with the number of no
pattern, and then traced in a style that there is not. -/
def fiveCalls : List Call :=
  [.compile "\"a\"" 5 .null, .matchInput 1 1 "subs" [0x62, 0x61] {},
    .matchInput 1 1 "bool" [0x62] {}, .matchInput 2 1 "line" [0x62] {},
    .trace 1 1 "odd" [0x61] 3 .null]

/-- The first four calls are carried out and the last one is not. -/
theorem boundary_simulates_fiveCalls :
    let e := Session.bare.engine
    e.Reachable ∧ (∀ call ∈ fiveCalls, call.Fits) ∧
      (∀ reply ∈ (directAll e fiveCalls).1, ReplyFits reply) ∧
      (crossAll (some e) fiveCalls).2 = some (directAll e fiveCalls).2 ∧
      List.Forall₂ Represents
        [.replied (.compiled (.ok ⟨some ⟨1, 1⟩, ⟨[]⟩⟩)), .matched ⟨.text [0x61], 0, false⟩,
          .matched ⟨.status Status.noMatch, 1, false⟩,
          .matched ⟨.status Status.noPattern, 0, false⟩, .traced (.error .runtime)]
        (crossAll (some e) fiveCalls).1 := by
  intro e
  have he : e.Reachable := .boot _ _
  have hreplies : (directAll e fiveCalls).1 =
      [.replied (.compiled (.ok ⟨some ⟨1, 1⟩, ⟨[]⟩⟩)), .matched ⟨.text [0x61], 0, false⟩,
        .matched ⟨.status Status.noMatch, 1, false⟩,
        .matched ⟨.status Status.noPattern, 0, false⟩, .traced (.error .runtime)] := by cbv
  have hcalls : ∀ call ∈ fiveCalls, call.Fits := by decide
  have hfits : ∀ reply ∈ (directAll e fiveCalls).1, ReplyFits reply := by
    rw [hreplies]
    simp [ReplyFits, DataFits, Fits, TextFits, Diagnostics.toText?, Diagnostics.isEmpty]
  obtain ⟨hlast, hall⟩ := boundary_simulates he hcalls hfits
  rw [hreplies] at hall
  exact ⟨he, hcalls, hfits, hlast, hall.imp fun _ _ h => h.1⟩

end Boundary

end PatternEngine
