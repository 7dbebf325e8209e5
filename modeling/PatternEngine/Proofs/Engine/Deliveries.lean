import Mathlib.Logic.Function.Iterate
import PatternEngine.Proofs.Engine.Registries

/-!
# Deliveries

An engine does not wait until its workspace has given up a program. It puts the key into a queue,
and the workspace takes up the keys in order, at some time of its own, but before it answers a
request that was made later. So the registries of an engine may be out of step for a while, yet
nothing that it is asked shows this: it answers as the engine does whose queue was delivered. That
engine is one that gives up programs at once, and its registries are in step.
-/

namespace PatternEngine

namespace HandleTable

variable {α : Type} {table : HandleTable α} {value : α}

/-- The values, in the order of their slots. -/
def values (table : HandleTable α) : List α := table.slots.filterMap (·.value)

/-- A filled slot has a number that leads to its value. -/
theorem Sound.get?_encode (hs : table.Sound) {index : Nat} {slot : Slot α}
    (hslot : table.slots[index]? = some slot) (hvalue : slot.value = some value) :
    table.get? (encode index slot.generation) = some value := by
  obtain ⟨hi, hg⟩ := hs.bounds hslot
  obtain ⟨generation, content⟩ := slot
  cases hvalue
  exact get?_eq_some_iff.mpr ⟨index, generation, decode?_encode hi hg, hslot⟩

/-- The values are what numbers lead to. -/
theorem Sound.mem_values_iff (hs : table.Sound) :
    value ∈ table.values ↔ ∃ raw, table.get? raw = some value := by
  rw [values, List.mem_filterMap]
  constructor
  · rintro ⟨slot, hmem, hvalue⟩
    obtain ⟨index, hslot⟩ := List.mem_iff_getElem?.mp hmem
    exact ⟨_, hs.get?_encode hslot hvalue⟩
  · rintro ⟨raw, hget⟩
    obtain ⟨index, generation, -, hslot⟩ := get?_eq_some_iff.mp hget
    exact ⟨_, List.mem_of_getElem? hslot, rfl⟩

/-- What tells apart the values of different numbers tells apart those of different slots. -/
theorem Sound.nodup_map_values {β : Type} (hs : table.Sound) (f : α → β)
    (hf : ∀ raw raw' value value', table.get? raw = some value → table.get? raw' = some value' →
      f value = f value' → raw = raw') : (table.values.map f).Nodup := by
  rw [values, List.Nodup, List.pairwise_map, List.pairwise_filterMap, List.pairwise_iff_getElem]
  intro i j hi hj hlt v hv v' hv' heq
  have hget := hs.get?_encode (List.getElem?_eq_getElem hi) hv
  have hget' := hs.get?_encode (List.getElem?_eq_getElem hj) hv'
  have hraw := hf _ _ v v' hget hget' heq
  obtain ⟨hi, hg⟩ := hs.bounds (List.getElem?_eq_getElem hi)
  obtain ⟨hj, hg'⟩ := hs.bounds (List.getElem?_eq_getElem hj)
  have hdecode := decode?_encode hi hg
  rw [hraw, decode?_encode hj hg'] at hdecode
  cases hdecode
  exact Nat.lt_irrefl _ hlt

end HandleTable

/-- The outcome of a search is encoded as output, as a match or as no match. -/
theorem Encoder.of_encode_eq_status {encoder : Encoder} {outcome : Outcome} {input : Bytes}
    {code : Int} (h : encoder.encode outcome input = .status code) :
    code = Status.noMatch ∨ code = Status.isMatch := by
  rw [encode] at h
  split at h
  · cases h
    exact .inl rfl
  · cases encoder <;> cases h
    exact .inr rfl

/-- No outcome of a search is encoded as the lack of a pattern. -/
theorem Encoder.encode_ne (encoder : Encoder) (outcome : Outcome) (input : Bytes) :
    encoder.encode outcome input ≠ .status Status.noPattern := by
  intro h
  rcases of_encode_eq_status h with h | h <;> cases h

namespace Workspace

/-- A search with a program tells that there is a match or none, or that the encoder is unknown. -/
theorem of_replyOf_eq_status {w : Workspace} {p : Program} {encoder : String} {start : Nat}
    {input : Bytes} {code : Int} (h : (w.replyOf p encoder start input).data = .status code) :
    code = Status.noMatch ∨ code = Status.isMatch ∨
      code = Status.noEncoder ∧ TextEncoder.ofName? encoder = none ∧
        Encoder.ofName? encoder = none := by
  rw [replyOf] at h
  split at h
  · dsimp only at h
    split at h
    · cases h
    · cases h
      exact .inl rfl
  · rename_i htext
    split at h
    · rcases Encoder.of_encode_eq_status h with hcode | hcode
      · exact .inl hcode
      · exact .inr (.inl hcode)
    · rename_i hname
      cases h
      exact .inr (.inr ⟨rfl, htext, hname⟩)

/-- A search with a program does not tell that there is no pattern. -/
theorem replyOf_data_ne (w : Workspace) (p : Program) (encoder : String) (start : Nat)
    (input : Bytes) : (w.replyOf p encoder start input).data ≠ .status Status.noPattern := by
  intro h
  rcases of_replyOf_eq_status h with h | h | ⟨h, -, -⟩ <;> cases h

/-- Matching a file with a key that is in use does not tell that there is no pattern. -/
theorem matchFile_ne (w : Workspace) {key : Nat} (hissued : w.isIssued key = true)
    (encoder : String) (whole : Bool) (host : Host) (input output errors : String) :
    (w.matchFile key encoder whole host input output errors).1 ≠ .ofStatus Status.noPattern := by
  unfold matchFile
  rw [hissued]
  split
  · rename_i h
    cases h
  · split
    · simp [FileCounts.ofStatus, Status.noEncoder, Status.noPattern]
    · unfold MatchFile.run
      split
      · simp [FileCounts.ofStatus, FileCounts.ofFault]
      · split
        · simp [FileCounts.ofStatus, FileCounts.ofFault]
        · split
          · simp [FileCounts.ofStatus, FileCounts.ofFault]
          · simp [FileCounts.ofStatus]

end Workspace

namespace Engine

variable {e : Engine} {pattern : PatternHandle} {held : HeldPattern}

/-- The keys of the patterns that are held, the keys of the expressions and those of the programs
are the same, each belongs to one pattern, and the programs are those of the patterns. -/
structure InStep (e : Engine) : Prop where
  keys_nodup : (e.handles.values.map (·.key)).Nodup
  isIssued_iff : ∀ key, e.workspace.isIssued key = true ↔ key ∈ e.handles.values.map (·.key)
  program?_isSome_iff : ∀ key,
    (e.workspace.program? key).isSome = true ↔ key ∈ e.handles.values.map (·.key)
  program?_eq : ∀ held ∈ e.handles.values, e.workspace.program? held.key = some held.program

/-- Registries that are in step as far as numbers lead are in step as far as slots go. -/
theorem Registered.inStep (h : e.Registered) : e.InStep := by
  have hprogram : ∀ key,
      (e.workspace.program? key).isSome = true ↔ key ∈ e.handles.values.map (·.key) := by
    intro key
    rw [Option.isSome_iff_exists, List.mem_map]
    constructor
    · rintro ⟨p, hp⟩
      obtain ⟨raw, hget⟩ := (h.program?_eq_some_iff key p).mp hp
      exact ⟨⟨key, p⟩, h.sound.mem_values_iff.mpr ⟨raw, hget⟩, rfl⟩
    · rintro ⟨held, hmem, rfl⟩
      exact ⟨held.program, (h.program?_eq_some_iff _ _).mpr (h.sound.mem_values_iff.mp hmem)⟩
  refine ⟨h.sound.nodup_map_values _ ?_, fun key => ?_, hprogram, fun held hmem => ?_⟩
  · intro raw raw' held held' hget hget' hkey
    obtain ⟨key, p⟩ := held
    obtain ⟨key', p'⟩ := held'
    cases hkey
    exact h.unique raw raw' key p p' hget hget'
  · rw [h.isIssued_eq, hprogram]
  · exact (h.program?_eq_some_iff _ _).mpr (h.sound.mem_values_iff.mp hmem)

/-- A limit that is refused changes nothing. -/
theorem eq_of_allocationLimit_error {e' : Engine} {usageKb : Int64} {request : Option Int32}
    {fault : EngineError} (h : e.allocationLimit usageKb request = (.error fault, e')) :
    e' = e := by
  unfold allocationLimit at h
  dsimp only at h
  split at h
  · cases h
  · split_ifs at h
    · cases h
    · cases h
    · split at h
      · cases h
      · cases h
        rfl

/-- Only the lack of a pattern is reported as one. -/
theorem clampCounts_eq_ofStatus {counts : FileCounts}
    (h : clampCounts counts = .ofStatus Status.noPattern) :
    counts = .ofStatus Status.noPattern := by
  obtain ⟨pieces, matched, unmatched, fault⟩ := counts
  simp only [clampCounts, clampPieces, FileCounts.ofStatus, Status.noPattern,
    FileCounts.mk.injEq] at h ⊢
  obtain ⟨hpieces, hmatched, hunmatched, hfault⟩ := h
  exact ⟨by omega, by omega, by omega, hfault⟩

section Live

variable (h : e.Registered) (hheld : e.held? pattern = some held)
include h hheld

/-- A search with a handle that leads somewhere finds its pattern. -/
theorem Registered.matchInput_ne (start : Int) (encoder : String) (input : Bytes) :
    (e.matchInput pattern start encoder input).data ≠ .status Status.noPattern := by
  obtain ⟨hissued, hprogram⟩ := h.of_held? hheld
  simp only [Engine.matchInput, hheld]
  split
  · rename_i encoder _
    have hne := encoder.encode_ne (held.program.find input (startOf start)) input
    dsimp only
    cases hdata : encoder.encode (held.program.find input (startOf start)) input with
    | bytes output => simp
    | status code =>
      rintro ⟨⟩
      exact hne hdata
  · have hne := e.workspace.replyOf_data_ne held.program encoder (startOf start) input
    rw [Workspace.matchWith, if_pos hissued, hprogram]
    dsimp only
    cases hdata : (e.workspace.replyOf held.program encoder (startOf start) input).data with
    | bytes output => simp
    | status code =>
      rintro ⟨⟩
      exact hne hdata

/-- A trace with a handle that leads somewhere finds its pattern. -/
theorem Registered.trace_ne (start : Int) (style : String) (input : Bytes) :
    e.trace pattern start style input ≠ .ok ⟨false, .status Status.noPattern⟩ := by
  obtain ⟨hissued, hprogram⟩ := h.of_held? hheld
  simp only [Engine.trace, hheld, if_pos hissued, hprogram]
  split
  · simp
  · simp

/-- Matching a file with a handle that leads somewhere finds its pattern. -/
theorem Registered.matchFile_ne (host : Host) (encoder : String) (whole : Bool)
    (input output errors : String) :
    (e.matchFile host pattern encoder whole input output errors).1 ≠
      .ofStatus Status.noPattern := by
  rw [Engine.matchFile, hheld]
  dsimp only
  exact mt clampCounts_eq_ofStatus
    (e.workspace.matchFile_ne (h.of_held? hheld).1 encoder whole host input output errors)

end Live

end Engine

/-! ## Engines whose workspace lags behind -/

/-- An engine whose workspace still has to give up some programs. -/
structure LaggingEngine where
  /-- The engine. The keys in the queue are still in use in its workspace. -/
  engine : Engine
  /-- The keys that are to be given up, oldest first. -/
  queue : List Nat := []
  deriving Repr

namespace LaggingEngine

/-- Boot an engine. -/
def boot (id : Nat) (installation : Installation) : LaggingEngine where
  engine := .boot id installation

/-- The workspace gives up the oldest key in the queue. -/
def deliver (s : LaggingEngine) : LaggingEngine :=
  match s.queue with
  | [] => s
  | key :: queue => ⟨{ s.engine with workspace := s.engine.workspace.release key }, queue⟩

/-- The engine once the queue is delivered in order. -/
def settled (s : LaggingEngine) : Engine :=
  { s.engine with workspace := s.queue.foldl Workspace.release s.engine.workspace }

/-- Wait for the workspace. A request is queued behind the keys and has to be answered. -/
def settle (s : LaggingEngine) : LaggingEngine where
  engine := s.settled

/-- Compile an expression. The key of a program that there is no handle for goes into the queue. -/
def compile (s : LaggingEngine) (expression : String) :
    Except EngineError CompileReply × LaggingEngine :=
  let e := s.settled
  match e.workspace.compile expression with
  | (none, messages, workspace) => (.ok ⟨none, messages⟩, { engine := { e with workspace } })
  | (some (key, program), messages, workspace) =>
    match e.handles.insert ⟨key, program⟩ with
    | some (raw, handles) =>
      (.ok ⟨some (e.handleOf raw), messages⟩, { engine := { e with workspace, handles } })
    | none => (.error .outOfMemory, { engine := { e with workspace }, queue := [key] })

/-- Give up a pattern. Its key goes into the queue. -/
def free (s : LaggingEngine) (pattern : PatternHandle) : LaggingEngine :=
  if pattern.engine = s.engine.id then
    match s.engine.handles.remove pattern.raw with
    | some (held, handles) =>
      { engine := { s.engine with handles }, queue := s.queue ++ [held.key] }
    | none => s
  else s

/-- A limit on memory has the usage looked up. -/
def collectIfNeeded (s : LaggingEngine) : LaggingEngine :=
  if s.engine.governor.isLimited then s.settle else s

/-- Search an input. An encoder that needs nothing but the match does not wait. -/
def matchInput (s : LaggingEngine) (pattern : PatternHandle) (start : Int) (encoder : String)
    (input : Bytes) : MatchResult × LaggingEngine :=
  let s := s.collectIfNeeded
  let s :=
    if (s.engine.held? pattern).isSome && (Encoder.ofName? encoder).isNone then s.settle else s
  (s.engine.matchInput pattern start encoder input, s)

/-- Search an input and show the log. -/
def trace (s : LaggingEngine) (pattern : PatternHandle) (start : Int) (style : String)
    (input : Bytes) : Except EngineError TraceReply × LaggingEngine :=
  let s := if (s.engine.held? pattern).isSome then s.settle else s
  (s.engine.trace pattern start style input, s)

/-- Match a file. -/
def matchFile (s : LaggingEngine) (host : Host) (pattern : PatternHandle) (encoder : String)
    (whole : Bool) (input output errors : String) : (FileCounts × Host) × LaggingEngine :=
  let s := s.collectIfNeeded
  let s := if (s.engine.held? pattern).isSome then s.settle else s
  (s.engine.matchFile host pattern encoder whole input output errors, s)

/-- Serve a request that is about sources. -/
def answer (s : LaggingEngine) (fs : FileSystem) (request : Engine.SourceRequest) :
    Bool × LaggingEngine :=
  let (ok, engine) := s.settled.answer fs request
  (ok, { engine })

/-- Ask for the limit on memory, or change it. A limit that is refused does not wait. -/
def allocationLimit (s : LaggingEngine) (usageKb : Int64) (request : Option Int32) :
    Except EngineError AllocationReply × LaggingEngine :=
  match s.settled.allocationLimit usageKb request with
  | (.ok reply, engine) => (.ok reply, { engine })
  | (.error fault, _) => (.error fault, s)

/-- Something that happens to an engine. -/
inductive Event where
  /-- The workspace gives up the oldest key in the queue. -/
  | deliver
  /-- Compile an expression or give up a pattern. -/
  | pattern (request : Engine.Request)
  /-- Search an input. -/
  | matchInput (pattern : PatternHandle) (start : Int) (encoder : String) (input : Bytes)
  /-- Search an input and show the log. -/
  | trace (pattern : PatternHandle) (start : Int) (style : String) (input : Bytes)
  /-- Match a file. -/
  | matchFile (host : Host) (pattern : PatternHandle) (encoder : String) (whole : Bool)
    (input output errors : String)
  /-- A request that is about sources, the files being these. -/
  | source (fs : FileSystem) (request : Engine.SourceRequest)
  /-- Ask for the limit on memory, or change it. -/
  | allocationLimit (usageKb : Int64) (request : Option Int32)
  /-- Ask the workspace for something that changes nothing: the configuration, the library path or
  the content of an rc-file. -/
  | inspect

/-- The engine after an event. -/
def serve (s : LaggingEngine) : Event → LaggingEngine
  | .deliver => s.deliver
  | .pattern (.compile expression) => (s.compile expression).2
  | .pattern (.free pattern) => s.free pattern
  | .matchInput pattern start encoder input => (s.matchInput pattern start encoder input).2
  | .trace pattern start style input => (s.trace pattern start style input).2
  | .matchFile host pattern encoder whole input output errors =>
    (s.matchFile host pattern encoder whole input output errors).2
  | .source fs request => (s.answer fs request).2
  | .allocationLimit usageKb request => (s.allocationLimit usageKb request).2
  | .inspect => s.settle

/-- The engine after several events. -/
def serveAll (s : LaggingEngine) (events : List Event) : LaggingEngine := events.foldl serve s

variable {s : LaggingEngine} {pattern : PatternHandle}

/-! ## What the queue does not show -/

theorem settled_settle (s : LaggingEngine) : s.settle.settled = s.settled := rfl

theorem held?_settled (s : LaggingEngine) (pattern : PatternHandle) :
    s.settled.held? pattern = s.engine.held? pattern := rfl

/-- Delivering the oldest key is the first part of delivering all. -/
theorem settled_deliver (s : LaggingEngine) : s.deliver.settled = s.settled := by
  obtain ⟨e, queue⟩ := s
  cases queue with
  | nil => rfl
  | cons key queue => rfl

/-- As many deliveries as there are keys in the queue deliver all. -/
theorem iterate_deliver (s : LaggingEngine) : deliver^[s.queue.length] s = s.settle := by
  obtain ⟨e, queue⟩ := s
  induction queue generalizing e with
  | nil => rfl
  | cons key queue ih => exact ih { e with workspace := e.workspace.release key }

theorem settled_collectIfNeeded (s : LaggingEngine) :
    s.collectIfNeeded.settled = s.settled := by
  unfold collectIfNeeded
  split
  · exact s.settled_settle
  · rfl

/-- Compiling gives what it gives in an engine that gives up programs at once. -/
theorem settled_compile (s : LaggingEngine) (expression : String) :
    (s.compile expression).1 = (s.settled.compile expression).1 ∧
      (s.compile expression).2.settled = (s.settled.compile expression).2 := by
  rcases hcompile : s.settled.workspace.compile expression with
    ⟨_ | ⟨key, program⟩, messages, workspace⟩
  · simp only [compile, Engine.compile, hcompile]
    exact ⟨trivial, rfl⟩
  · cases hinsert : s.settled.handles.insert ⟨key, program⟩ with
    | some stored =>
      simp only [compile, Engine.compile, hcompile, hinsert]
      exact ⟨trivial, rfl⟩
    | none =>
      simp only [compile, Engine.compile, hcompile, hinsert]
      exact ⟨trivial, rfl⟩

/-- Giving up a pattern takes effect as in an engine that does so at once. -/
theorem settled_free (s : LaggingEngine) (pattern : PatternHandle) :
    (s.free pattern).settled = s.settled.free pattern := by
  by_cases h : pattern.engine = s.engine.id
  · rw [free, if_pos h, Engine.free, if_pos (show pattern.engine = s.settled.id from h)]
    have hsame : s.settled.handles = s.engine.handles := rfl
    rw [hsame]
    cases s.engine.handles.remove pattern.raw with
    | none => rfl
    | some removed => simp [settled, List.foldl_append]
  · rw [free, if_neg h, Engine.free, if_neg (show ¬ pattern.engine = s.settled.id from h)]

/-- A search gives what it gives in an engine that gives up programs at once. -/
theorem settled_matchInput (s : LaggingEngine) (pattern : PatternHandle) (start : Int)
    (encoder : String) (input : Bytes) :
    (s.matchInput pattern start encoder input).1 =
        s.settled.matchInput pattern start encoder input ∧
      (s.matchInput pattern start encoder input).2.settled = s.settled := by
  unfold matchInput
  rw [← s.settled_collectIfNeeded]
  generalize s.collectIfNeeded = s
  dsimp only
  split
  · exact ⟨rfl, rfl⟩
  · rename_i hwaits
    refine ⟨?_, rfl⟩
    unfold Engine.matchInput
    rw [s.held?_settled]
    cases hheld : s.engine.held? pattern with
    | none => rfl
    | some held =>
      cases hencoder : Encoder.ofName? encoder with
      | some encoder => rfl
      | none => simp [hheld, hencoder] at hwaits

/-- A trace gives what it gives in an engine that gives up programs at once. -/
theorem settled_trace (s : LaggingEngine) (pattern : PatternHandle) (start : Int) (style : String)
    (input : Bytes) :
    (s.trace pattern start style input).1 = s.settled.trace pattern start style input ∧
      (s.trace pattern start style input).2.settled = s.settled := by
  unfold trace
  dsimp only
  split
  · exact ⟨rfl, rfl⟩
  · rename_i hdead
    have hnone := Option.not_isSome_iff_eq_none.mp hdead
    rw [Engine.trace, Engine.trace, s.held?_settled, hnone]
    exact ⟨rfl, rfl⟩

/-- Matching a file does what it does in an engine that gives up programs at once. -/
theorem settled_matchFile (s : LaggingEngine) (host : Host) (pattern : PatternHandle)
    (encoder : String) (whole : Bool) (input output errors : String) :
    (s.matchFile host pattern encoder whole input output errors).1 =
        s.settled.matchFile host pattern encoder whole input output errors ∧
      (s.matchFile host pattern encoder whole input output errors).2.settled = s.settled := by
  unfold matchFile
  rw [← s.settled_collectIfNeeded]
  generalize s.collectIfNeeded = s
  dsimp only
  split
  · exact ⟨rfl, rfl⟩
  · rename_i hdead
    have hnone := Option.not_isSome_iff_eq_none.mp hdead
    rw [Engine.matchFile, Engine.matchFile, s.held?_settled, hnone]
    exact ⟨rfl, rfl⟩

/-- A limit that is refused leaves the engine as it is. -/
theorem settled_allocationLimit (s : LaggingEngine) (usageKb : Int64) (request : Option Int32) :
    (s.allocationLimit usageKb request).2.settled =
      (s.settled.allocationLimit usageKb request).2 := by
  unfold allocationLimit
  cases hlimit : s.settled.allocationLimit usageKb request with
  | mk reply engine =>
    cases reply with
    | ok reply => rfl
    | error fault => exact (Engine.eq_of_allocationLimit_error hlimit).symm

/-- Whatever happens, the engine without a queue is one that can come about. -/
theorem reachable_serve (h : s.settled.Reachable) (event : Event) :
    (s.serve event).settled.Reachable := by
  cases event with
  | deliver => exact s.settled_deliver ▸ h
  | pattern request =>
    cases request with
    | compile expression =>
      exact (s.settled_compile expression).2 ▸ h.serve (.compile expression)
    | free pattern => exact s.settled_free pattern ▸ h.serve (.free pattern)
  | matchInput pattern start encoder input =>
    exact (s.settled_matchInput pattern start encoder input).2 ▸ h
  | trace pattern start style input => exact (s.settled_trace pattern start style input).2 ▸ h
  | matchFile host pattern encoder whole input output errors =>
    exact (s.settled_matchFile host pattern encoder whole input output errors).2 ▸ h
  | source fs request => exact h.answer fs request
  | allocationLimit usageKb request =>
    exact s.settled_allocationLimit usageKb request ▸ h.allocationLimit usageKb request
  | inspect => exact h

theorem reachable_serveAll (h : s.settled.Reachable) (events : List Event) :
    (s.serveAll events).settled.Reachable := by
  induction events generalizing s with
  | nil => exact h
  | cons event events ih => exact ih (reachable_serve h event)

/-- Whatever has happened to an engine, its registries are in step as soon as its queue is
delivered, and with a handle that leads somewhere its workspace never misses the pattern, even if
the queue is not delivered yet. -/
theorem registries_in_step (id : Nat) (installation : Installation) (events : List Event) :
    let s := (boot id installation).serveAll events
    (deliver^[s.queue.length] s).engine.InStep ∧
      ∀ pattern held, s.engine.held? pattern = some held →
        (∀ start encoder input,
          (s.matchInput pattern start encoder input).1.data ≠ .status Status.noPattern) ∧
        (∀ start style input,
          (s.trace pattern start style input).1 ≠ .ok ⟨false, .status Status.noPattern⟩) ∧
        ∀ host encoder whole input output errors,
          (s.matchFile host pattern encoder whole input output errors).1.1 ≠
            .ofStatus Status.noPattern := by
  intro s
  have hboot : (boot id installation).settled.Reachable := .boot id installation
  have h : s.settled.Registered := (reachable_serveAll hboot events).registered
  refine ⟨?_, fun pattern held hheld => ⟨fun start encoder input => ?_, fun start style input => ?_,
    fun host encoder whole input output errors => ?_⟩⟩
  · rw [iterate_deliver]
    exact h.inStep
  · rw [(s.settled_matchInput pattern start encoder input).1]
    exact h.matchInput_ne hheld start encoder input
  · rw [(s.settled_trace pattern start style input).1]
    exact h.trace_ne hheld start style input
  · rw [(s.settled_matchFile host pattern encoder whole input output errors).1]
    exact h.matchFile_ne hheld host encoder whole input output errors

/-- An engine that compiled two patterns and was told to give up the first. -/
def owingOne : LaggingEngine :=
  (boot 1 ⟨"/opt", "/opt/lib/boot.lua", "/opt/rpl", .installation, "/root/.rc"⟩).serveAll
    [.pattern (.compile "\"a\""), .pattern (.compile "\"b\""), .pattern (.free ⟨1, 1⟩)]

/-- The first pattern is in the queue still, and the second can be traced. -/
theorem registries_in_step_owingOne :
    owingOne.queue = [1] ∧ owingOne.deliver.engine.InStep ∧
      (owingOne.engine.held? ⟨1, 2⟩).isSome ∧
      (owingOne.trace ⟨1, 2⟩ 1 "json" [0x62]).1 ≠ .ok ⟨false, .status Status.noPattern⟩ := by
  have hqueue : owingOne.queue = [1] := by cbv
  have hlive : (owingOne.engine.held? ⟨1, 2⟩).isSome := by cbv
  obtain ⟨held, hheld⟩ := Option.isSome_iff_exists.mp hlive
  obtain ⟨hstep, hanswers⟩ := registries_in_step 1
    ⟨"/opt", "/opt/lib/boot.lua", "/opt/rpl", .installation, "/root/.rc"⟩
    [.pattern (.compile "\"a\""), .pattern (.compile "\"b\""), .pattern (.free ⟨1, 1⟩)]
  have hdelivered : (deliver^[owingOne.queue.length] owingOne).engine.InStep := hstep
  rw [hqueue] at hdelivered
  exact ⟨hqueue, hdelivered, hlive, (hanswers ⟨1, 2⟩ held hheld).2.1 1 "json" [0x62]⟩

end LaggingEngine

end PatternEngine
