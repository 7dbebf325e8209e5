import PatternEngine.Proofs.Engine.Deliveries
import PatternEngine.Proofs.Engine.EncoderPaths
import PatternEngine.Proofs.Engine.WrittenFiles

/-!
# Matched files

Matching a file takes its content apart into pieces and searches each of them the way that a single
input is searched. Each piece is counted once. What a search puts out is a line of the output, a
piece without a match is a line of the errors, and a piece that matches without output is a line of
neither.
-/

namespace PatternEngine

/-- The bytes that a search puts out. -/
def MatchData.output? : MatchData → Option Bytes
  | .buffer output | .text output => some output
  | .status _ => none

/-- A search puts out bytes or reports a match. -/
def MatchData.accepts : MatchData → Bool
  | .buffer _ | .text _ => true
  | .status code => code == Status.isMatch

/-- The bytes that an encoder puts out. -/
def Encoded.output? : Encoded → Option Bytes
  | .bytes output => some output
  | .status _ => none

/-- An encoder puts out bytes or reports a match. -/
def Encoded.accepts : Encoded → Bool
  | .bytes _ => true
  | .status code => code == Status.isMatch

namespace FileCounts

/-- The counts of the parts of a file. -/
def ofParts (parts : List Bytes) (accepts : Bytes → Bool) : FileCounts :=
  ⟨parts.length, parts.countP accepts, parts.countP fun part => !accepts part, none⟩

/-- The counts are those of the parts of a file, and each part counts once. -/
structure Partitions (counts : FileCounts) (parts : List Bytes) (accepts : Bytes → Bool) :
    Prop where
  no_fault : counts.fault = none
  pieces : counts.pieces = parts.length
  matched : counts.matched = parts.countP accepts
  unmatched : counts.unmatched = parts.countP fun part => !accepts part
  total : counts.pieces = counts.matched + counts.unmatched

theorem length_eq_countP_add_countP_not (parts : List Bytes) (accepts : Bytes → Bool) :
    parts.length = parts.countP accepts + parts.countP fun part => !accepts part := by
  simpa [Bool.not_eq_true] using List.length_eq_countP_add_countP accepts (l := parts)

theorem partitions_ofParts (parts : List Bytes) (accepts : Bytes → Bool) :
    (ofParts parts accepts).Partitions parts accepts := by
  have hlen := length_eq_countP_add_countP_not parts accepts
  refine ⟨rfl, rfl, rfl, rfl, ?_⟩
  simp only [ofParts]
  omega

end FileCounts

namespace MatchFile

/-! ## Lines -/

variable {content : Bytes} {parts before : List Bytes}

/-- The parts are the lines of a text. None of them holds a line feed. With a line feed behind each
they are the text, or else they are so but for the last of them, which is not empty and has none. -/
structure AreLines (content : Bytes) (parts : List Bytes) : Prop where
  no_feed : ∀ part ∈ parts, 0x0a ∉ part
  joined : parts.flatMap (· ++ lineEnd) = content ∨
    ∃ before last, last ≠ [] ∧ parts = before ++ [last] ∧
      before.flatMap (· ++ lineEnd) ++ last = content

theorem splitOn_flatMap (hbefore : ∀ piece ∈ before, 0x0a ∉ piece) (tail : Bytes) :
    Bytes.splitOn 0x0a (before.flatMap (· ++ lineEnd) ++ tail) =
      before ++ Bytes.splitOn 0x0a tail := by
  induction before with
  | nil => rfl
  | cons piece before ih =>
    obtain ⟨hpiece, hbefore⟩ := List.forall_mem_cons.mp hbefore
    have hjoin : (piece :: before).flatMap (· ++ lineEnd) ++ tail =
        piece ++ 0x0a :: (before.flatMap (· ++ lineEnd) ++ tail) := by
      simp [lineEnd]
    rw [hjoin, Bytes.splitOn_append, Bytes.splitOn_of_not_mem hpiece, ih hbefore,
      List.singleton_append, List.cons_append]

/-- A text is its pieces, with a line feed behind all but the last. -/
theorem exists_splitOn_eq (content : Bytes) :
    ∃ before last, Bytes.splitOn 0x0a content = before ++ [last] ∧
      (∀ piece ∈ before ++ [last], 0x0a ∉ piece) ∧
      before.flatMap (· ++ lineEnd) ++ last = content := by
  induction content with
  | nil => exact ⟨[], [], rfl, by simp, rfl⟩
  | cons b content ih =>
    obtain ⟨before, last, hsplit, hfeed, hjoin⟩ := ih
    rw [Bytes.splitOn]
    split
    · rename_i hb
      rw [beq_iff_eq.mp hb, hsplit]
      refine ⟨[] :: before, last, rfl, ?_, ?_⟩
      · exact List.forall_mem_cons.mpr ⟨List.not_mem_nil, hfeed⟩
      · rw [List.flatMap_cons, List.append_assoc, hjoin]
        rfl
    · rename_i hb
      have hne : 0x0a ≠ b := fun heq => hb (beq_iff_eq.mpr heq.symm)
      cases before with
      | nil =>
        rw [hsplit]
        refine ⟨[], b :: last, rfl, ?_, by rw [← hjoin]; rfl⟩
        simpa [hne] using hfeed
      | cons piece before =>
        rw [hsplit]
        refine ⟨(b :: piece) :: before, last, rfl, ?_, by rw [← hjoin]; rfl⟩
        rw [List.cons_append, List.forall_mem_cons] at hfeed ⊢
        exact ⟨by simpa [hne] using hfeed.1, hfeed.2⟩

theorem lines_eq {last : Bytes} (h : Bytes.splitOn 0x0a content = before ++ [last]) :
    lines content = if last = [] then before else before ++ [last] := by
  rw [lines, h]
  simp

/-- Each text has one list of lines. -/
theorem areLines_iff : AreLines content parts ↔ lines content = parts := by
  constructor
  · rintro ⟨hfeed, rfl | ⟨before, last, hne, rfl, rfl⟩⟩
    · have hsplit := splitOn_flatMap hfeed []
      rw [List.append_nil] at hsplit
      rw [lines_eq hsplit, if_pos rfl]
    · rw [List.forall_mem_append] at hfeed
      have hlast : 0x0a ∉ last := hfeed.2 last List.mem_cons_self
      have hsplit := splitOn_flatMap hfeed.1 last
      rw [Bytes.splitOn_of_not_mem hlast] at hsplit
      rw [lines_eq hsplit, if_neg hne]
  · rintro rfl
    obtain ⟨before, last, hsplit, hfeed, hjoin⟩ := exists_splitOn_eq content
    rw [lines_eq hsplit]
    split
    · rename_i hnil
      rw [hnil, List.append_nil] at hjoin
      exact ⟨(List.forall_mem_append.mp hfeed).1, .inl hjoin⟩
    · rename_i hne
      exact ⟨hfeed, .inr ⟨before, last, hne, rfl, hjoin⟩⟩

/-! ## Counting -/

/-- The line that a piece adds when this comes out of the search in it. -/
def lineOf (piece : Bytes) : Encoded → Option (Channel × Bytes)
  | .bytes output => some (.output, output)
  | .status code => if code = Status.isMatch then none else some (.errors, piece)

/-- A piece is counted once, and adds one line at most. -/
theorem Tally.add_eq (tally : Tally) (piece : Bytes) (data : Encoded) :
    tally.add piece data =
      { pieces := tally.pieces + 1
        matched := tally.matched + data.accepts.toNat
        unmatched := tally.unmatched + (!data.accepts).toNat
        lines := (lineOf piece data).toList ++ tally.lines } := by
  cases data with
  | bytes output => rfl
  | status code =>
    rw [add, lineOf]
    dsimp only [Encoded.accepts]
    by_cases hcode : code = Status.isMatch
    · simp [hcode]
    · have hbeq : (code == Status.isMatch) = false := beq_false_of_ne hcode
      simp [hcode, hbeq]

variable (data : Bytes → Encoded)

/-- Pieces are counted by whether they match, and add their lines in order. -/
theorem foldl_add (parts : List Bytes) (tally : Tally) :
    parts.foldl (fun tally piece => tally.add piece (data piece)) tally =
      { pieces := tally.pieces + parts.length
        matched := tally.matched + parts.countP fun piece => (data piece).accepts
        unmatched := tally.unmatched + parts.countP fun piece => !(data piece).accepts
        lines := (parts.filterMap fun piece => lineOf piece (data piece)).reverse ++
          tally.lines } := by
  induction parts generalizing tally with
  | nil => rfl
  | cons piece parts ih =>
    rw [List.foldl_cons, ih, Tally.add_eq, Tally.mk.injEq]
    refine ⟨?_, ?_, ?_, ?_⟩
    · rw [List.length_cons, Nat.add_assoc, Nat.add_comm 1]
    · rw [List.countP_cons, Nat.add_assoc, Nat.add_comm (Bool.toNat _)]
      cases (data piece).accepts <;> rfl
    · rw [List.countP_cons, Nat.add_assoc, Nat.add_comm (Bool.toNat _)]
      cases (data piece).accepts <;> rfl
    · cases hline : lineOf piece (data piece) with
      | none => simp [hline]
      | some line => simp [hline]

theorem textOf_cons (channel channel' : Channel) (line : Bytes) (lines : Lines) :
    textOf channel ((channel', line) :: lines) =
      (if channel' = channel then line ++ lineEnd else []) ++ textOf channel lines := by
  by_cases h : channel' = channel
  · simp [textOf, h]
  · simp [textOf, h]

/-- The output has what the searches put out. -/
theorem textOf_output (parts : List Bytes) :
    textOf .output (parts.filterMap fun piece => lineOf piece (data piece)) =
      (parts.filterMap fun piece => (data piece).output?).flatMap (· ++ lineEnd) := by
  induction parts with
  | nil => rfl
  | cons piece parts ih =>
    rw [List.filterMap_cons, List.filterMap_cons]
    cases data piece with
    | bytes output => rw [lineOf, Encoded.output?, List.flatMap_cons, textOf_cons, if_pos rfl, ih]
    | status code =>
      rw [lineOf, Encoded.output?]
      by_cases hcode : code = Status.isMatch
      · simp [hcode, ih]
      · simp [hcode, ih, textOf_cons]

/-- The errors have the pieces that do not match. -/
theorem textOf_errors (parts : List Bytes) :
    textOf .errors (parts.filterMap fun piece => lineOf piece (data piece)) =
      (parts.filter fun piece => !(data piece).accepts).flatMap (· ++ lineEnd) := by
  induction parts with
  | nil => rfl
  | cons piece parts ih =>
    rw [List.filterMap_cons, List.filter_cons]
    cases data piece with
    | bytes output =>
      rw [lineOf, textOf_cons, if_neg (by decide), List.nil_append, ih]
      rfl
    | status code =>
      rw [lineOf, Encoded.accepts]
      by_cases hcode : code = Status.isMatch
      · simp [hcode, ih]
      · simp [hcode, ih, textOf_cons]

/-! ## Files -/

/-- What there is to read under a name. -/
def Reads (host : Host) (name : String) (content : Bytes) : Prop :=
  if isStream name then host.input = content
  else host.files.openForReading (Bytes.ofString name) = .ok (some content)

/-- Where what is written under a name goes. -/
def Writes (host : Host) (name : String) : Sink → Prop
  | .stream => isStream name = true
  | .file place => isStream name = false ∧ host.files.LeadsTo (Bytes.ofString name) place

/-- The files can be used: there is something to read, and what is written goes to two streams or
to places that differ. -/
structure Usable (host : Host) (input output errors : String) (content : Bytes)
    (outputSink errorSink : Sink) : Prop where
  input : Reads host input content
  output : Writes host output outputSink
  errors : Writes host errors errorSink
  distinct : outputSink = errorSink → outputSink = .stream

/-- What a sink has after a run that it did not have before: on a stream a text behind what was
there, in a file that text and nothing else, to be read under its name. -/
def Receives (name : String) (sink : Sink) (text before after : Bytes) (files : FileSystem) :
    Prop :=
  match sink with
  | .stream => after = before ++ text
  | .file _ => after = before ∧ files.openForReading (Bytes.ofString name) = .ok (some text)

/-- What a run has written, and nothing else. -/
structure Delivers (host host' : Host) (output errors : String) (outputSink errorSink : Sink)
    (outputText errorText : Bytes) : Prop where
  output : Receives output outputSink outputText host.output host'.output host'.files
  errors : Receives errors errorSink errorText host.errors host'.errors host'.files
  others : ∀ place, Sink.file place ≠ outputSink → Sink.file place ≠ errorSink →
    host'.files.find? place = host.files.find? place

/-- The host with the sink open. -/
def openedAt (host : Host) : Sink → Host
  | .stream => host
  | .file place => { host with files := host.files.put place [] }

variable {host : Host} {name input output errors : String} {sink outputSink errorSink : Sink}

theorem readInput_eq_ok (h : Reads host name content) :
    ∃ host', readInput host name = .ok (content, host') ∧ host'.files = host.files ∧
      host'.output = host.output ∧ host'.errors = host.errors := by
  rw [Reads] at h
  rw [readInput]
  split at h
  · rename_i hstream
    rw [if_pos hstream, h]
    exact ⟨_, rfl, rfl, rfl, rfl⟩
  · rename_i hstream
    rw [if_neg hstream, h]
    exact ⟨host, rfl, rfl, rfl, rfl⟩

theorem openSink_eq_ok (h : Writes host name sink) (what : String) :
    openSink host what name = .ok (sink, openedAt host sink) := by
  cases sink with
  | stream => exact if_pos h
  | file place =>
    obtain ⟨hstream, hleads⟩ := h
    have hopen : host.files.openForWriting (Bytes.ofString name) =
        .ok (place, host.files.put place []) :=
      FileSystem.openForWriting_eq_ok_iff.mpr ⟨hleads, rfl⟩
    rw [openSink, if_neg (Bool.eq_false_iff.mp hstream), hopen]
    rfl

/-- What can be written can be written when something else is open. -/
theorem Writes.openedAt {name' : String} {sink' : Sink} (h : Writes host name sink)
    (h' : Writes host name' sink') : Writes (openedAt host sink') name sink := by
  cases sink with
  | stream => exact h
  | file place =>
    cases sink' with
    | stream => exact h
    | file place' => exact ⟨h.1, h.2.put h'.2 []⟩

/-- What is put where a sink goes leaves the files in other places as they are. -/
theorem find?_put_of_sink_ne {fs : FileSystem} {place other : List Bytes} (text : Bytes)
    (hne : Sink.file other ≠ .file place) : (fs.put place text).find? other = fs.find? other := by
  rw [FileSystem.find?_put, if_neg fun heq => hne (congrArg Sink.file heq)]

theorem find?_openedAt {other : List Bytes} (host : Host) (hne : Sink.file other ≠ sink) :
    (openedAt host sink).files.find? other = host.files.find? other := by
  cases sink with
  | stream => rfl
  | file place => exact find?_put_of_sink_ne [] hne

theorem find?_writeOutput {other : List Bytes} (host : Host) (text : Bytes)
    (hne : Sink.file other ≠ sink) :
    (writeOutput host text sink).files.find? other = host.files.find? other := by
  cases sink with
  | stream => rfl
  | file place => exact find?_put_of_sink_ne text hne

theorem find?_writeErrors {other : List Bytes} (host : Host) (text : Bytes)
    (hne : Sink.file other ≠ sink) :
    (writeErrors host text sink).files.find? other = host.files.find? other := by
  cases sink with
  | stream => rfl
  | file place => exact find?_put_of_sink_ne text hne

/-- Lines go to sinks that differ, each as it is. -/
theorem delivers_writeLines (houtput : Writes host output outputSink)
    (herrors : Writes host errors errorSink)
    (hdistinct : outputSink = errorSink → outputSink = .stream) (lines : Lines) :
    Delivers host (writeLines (openedAt (openedAt host outputSink) errorSink) lines outputSink
      errorSink) output errors outputSink errorSink (textOf .output lines)
      (textOf .errors lines) := by
  have hseparate : ¬(outputSink = errorSink && outputSink != .stream) = true := by
    rw [Bool.and_eq_true, decide_eq_true_iff, bne_iff_ne]
    exact fun h => h.2 (hdistinct h.1)
  rw [writeLines, if_neg hseparate]
  have hothers : ∀ place, Sink.file place ≠ outputSink → Sink.file place ≠ errorSink →
      (writeErrors (writeOutput (openedAt (openedAt host outputSink) errorSink)
        (textOf .output lines) outputSink) (textOf .errors lines) errorSink).files.find? place =
      host.files.find? place := by
    intro place hne hne'
    rw [find?_writeErrors _ _ hne', find?_writeOutput _ _ hne, find?_openedAt _ hne',
      find?_openedAt _ hne]
  -- What has been put in between leaves the paths of the two files where they lead.
  cases outputSink with
  | stream =>
    cases errorSink with
    | stream => exact ⟨rfl, rfl, hothers⟩
    | file place =>
      exact ⟨rfl, ⟨rfl, (herrors.2.put herrors.2 []).openForReading_put⟩, hothers⟩
  | file place =>
    have hopened := houtput.2.put houtput.2 []
    cases errorSink with
    | stream => exact ⟨⟨rfl, hopened.openForReading_put⟩, rfl, hothers⟩
    | file place' =>
      have hne : place ≠ place' := fun heq => nomatch hdistinct (congrArg Sink.file heq)
      have hopened' := herrors.2.put houtput.2 []
      obtain ⟨hread, hread'⟩ := (hopened.put hopened' []).openForReading_put_put
        (hopened'.put hopened' []) hne (textOf .errors lines)
      exact ⟨⟨rfl, hread⟩, ⟨rfl, hread'⟩, hothers⟩

theorem Writes.congr {host' : Host} (h : Writes host name sink)
    (hfiles : host'.files = host.files) : Writes host' name sink := by
  cases sink with
  | stream => exact h
  | file place => exact ⟨h.1, hfiles ▸ h.2⟩

/-- A run counts the pieces of its input and writes a line for each that calls for one. -/
theorem run_eq (reply : Bytes → MatchReply) (whole : Bool)
    (h : Usable host input output errors content outputSink errorSink)
    (hparts : pieces whole content = parts) :
    ∃ host', run reply whole host input output errors =
        (.ofParts parts fun part => (reply part).data.accepts, host') ∧
      Delivers host host' output errors outputSink errorSink
        ((parts.filterMap fun part => (reply part).data.output?).flatMap (· ++ lineEnd))
        ((parts.filter fun part => !(reply part).data.accepts).flatMap (· ++ lineEnd)) := by
  obtain ⟨host₁, hread, hfiles, hout, herr⟩ := readInput_eq_ok h.input
  have hw := h.output.congr hfiles
  have hw' := h.errors.congr hfiles
  have hdelivers := delivers_writeLines hw hw' h.distinct
    (parts.filterMap fun part => lineOf part (reply part).data)
  rw [textOf_output, textOf_errors] at hdelivers
  have hcounted := foldl_add (fun part => (reply part).data) parts {}
  refine ⟨_, ?_, ⟨hout ▸ hdelivers.output, herr ▸ hdelivers.errors, hfiles ▸ hdelivers.others⟩⟩
  rw [run, hread]
  dsimp only
  rw [openSink_eq_ok hw]
  dsimp only
  rw [openSink_eq_ok (hw'.openedAt hw)]
  dsimp only
  rw [tallyOf, hparts, hcounted, FileCounts.ofParts]
  simp

end MatchFile

namespace Engine

open MatchFile (AreLines Delivers Usable lineEnd)

variable {e : Engine} {pattern : PatternHandle} {held : HeldPattern}

/-- A search in the workspace puts out the bytes, and reports the match, that the search of a single
input does. -/
theorem data_matchWith (h : e.Registered) (hheld : e.held? pattern = some held) (encoder : String)
    (start : Int) (input : Bytes) :
    (e.workspace.matchWith held.key encoder (startOf start) input).data.output? =
        (e.matchInput pattern start encoder input).data.output? ∧
      (e.workspace.matchWith held.key encoder (startOf start) input).data.accepts =
        (e.matchInput pattern start encoder input).data.accepts := by
  obtain ⟨hissued, hprogram⟩ := h.of_held? hheld
  cases hname : Encoder.ofName? encoder with
  | none =>
    rw [matchInput, hheld]
    dsimp only
    rw [hname]
    dsimp only
    cases (e.workspace.matchWith held.key encoder (startOf start) input).data with
    | bytes output => exact ⟨rfl, rfl⟩
    | status code => exact ⟨rfl, rfl⟩
  | some short =>
    have htext : TextEncoder.ofName? encoder = none := by
      obtain rfl : short.name = encoder := by simpa using List.find?_some hname
      cases short <;> rfl
    rw [matchInput, hheld, Workspace.matchWith, if_pos hissued, hprogram]
    dsimp only
    rw [Workspace.replyOf, htext, hname]
    dsimp only
    cases short.encode (held.program.find input (startOf start)) input with
    | bytes output => exact ⟨rfl, rfl⟩
    | status code => exact ⟨rfl, rfl⟩

/-- The names of the encoders that there are. -/
def encoderNames : List String :=
  Encoder.all.map Encoder.name ++ TextEncoder.all.map TextEncoder.name

/-- With an encoder that there is no search tells that there is none. -/
theorem matchWith_ne (h : e.Registered) (hheld : e.held? pattern = some held) {encoder : String}
    (hencoder : encoder ∈ encoderNames) (start : Nat) (input : Bytes) :
    (e.workspace.matchWith held.key encoder start input).data ≠ .status Status.noEncoder := by
  obtain ⟨hissued, hprogram⟩ := h.of_held? hheld
  rw [Workspace.matchWith, if_pos hissued, hprogram]
  intro hstatus
  rcases Workspace.of_replyOf_eq_status hstatus with hcode | hcode | ⟨-, htext, hname⟩
  · cases hcode
  · cases hcode
  · have hknown : ∀ encoder ∈ encoderNames,
        (TextEncoder.ofName? encoder).isSome || (Encoder.ofName? encoder).isSome := by decide
    have hsome := hknown encoder hencoder
    rw [htext, hname] at hsome
    cases hsome

/-- A host with a file of four lines, the last of them without a line feed. -/
def fourLines : Host where
  files := ⟨[([Bytes.ofString "in"], Bytes.ofString "1a\n2\n\nxyz")]⟩

end Engine

end PatternEngine
