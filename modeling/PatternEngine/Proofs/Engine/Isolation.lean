import Mathlib.Logic.Equiv.Basic
import PatternEngine.Engine.Launcher
import PatternEngine.Proofs.Engine.FailedLoads

/-!
# Engines side by side

Engines that are booted by one launcher are told apart by their numbers, and share nothing else.
Their first patterns have the same number, but a handle holds the number of its engine, too, and
every call that takes a handle looks at that first. So an engine replies as it would if it were the
only one, and the handles of the others lead nowhere on it.
-/

namespace PatternEngine

/-! ## Other numbers -/

/-- The handle when engines have other numbers. -/
def PatternHandle.rename (f : Nat → Nat) (p : PatternHandle) : PatternHandle :=
  { p with engine := f p.engine }

/-- The reply when engines have other numbers. -/
def CompileReply.rename (f : Nat → Nat) (reply : CompileReply) : CompileReply :=
  { reply with pattern := reply.pattern.map (.rename f) }

namespace Engine

/-- A call of an engine that writes no files. -/
inductive Call where
  /-- A request about patterns or about sources. -/
  | request (request : AnyRequest)
  /-- Search an input. -/
  | matchInput (pattern : PatternHandle) (start : Int) (encoder : String) (input : Bytes)
  /-- Search an input and show the log. -/
  | trace (pattern : PatternHandle) (start : Int) (style : String) (input : Bytes)

/-- The reply to a call. -/
inductive CallReply where
  /-- The reply to a request. -/
  | replied (reply : Reply)
  /-- The outcome of a search. -/
  | matched (result : MatchResult)
  /-- The outcome of a trace. -/
  | traced (result : Except EngineError TraceReply)

/-- The reply to a call, and the engine after it. -/
def call (e : Engine) : Call → CallReply × Engine
  | .request request =>
    let (reply, e) := e.respond request
    (.replied reply, e)
  | .matchInput pattern start encoder input =>
    (.matched (e.matchInput pattern start encoder input), e)
  | .trace pattern start style input => (.traced (e.trace pattern start style input), e)

/-- The engine with another number. -/
def renumber (f : Nat → Nat) (e : Engine) : Engine := { e with id := f e.id }

/-- The request when engines have other numbers. -/
def AnyRequest.rename (f : Nat → Nat) : AnyRequest → AnyRequest
  | .pattern (.free p) => .pattern (.free (p.rename f))
  | request => request

/-- The reply when engines have other numbers. -/
def Reply.rename (f : Nat → Nat) : Reply → Reply
  | .compiled reply => .compiled (reply.map (.rename f))
  | reply => reply

/-- The call when engines have other numbers. -/
def Call.rename (f : Nat → Nat) : Call → Call
  | .request r => .request (r.rename f)
  | .matchInput p start encoder input => .matchInput (p.rename f) start encoder input
  | .trace p start style input => .trace (p.rename f) start style input

/-- The reply when engines have other numbers. -/
def CallReply.rename (f : Nat → Nat) : CallReply → CallReply
  | .replied reply => .replied (reply.rename f)
  | reply => reply

variable {f : Nat → Nat} {e : Engine} {p : PatternHandle}

/-- A handle leads where it led: it is still one of this engine, or still one of another. -/
theorem held?_renumber (hf : f.Injective) :
    (e.renumber f).held? (p.rename f) = e.held? p := by
  simp only [held?, renumber, PatternHandle.rename, hf.eq_iff]

theorem compile_renumber (expression : String) :
    (e.renumber f).compile expression =
      ((e.compile expression).1.map (.rename f), (e.compile expression).2.renumber f) := by
  unfold compile renumber
  dsimp only
  split
  · rfl
  · split <;> rfl

theorem free_renumber (hf : f.Injective) :
    (e.renumber f).free (p.rename f) = (e.free p).renumber f := by
  simp only [free, renumber, PatternHandle.rename, hf.eq_iff]
  split
  · cases e.handles.remove p.raw <;> rfl
  · rfl

theorem matchInput_renumber (hf : f.Injective) (start : Int) (encoder : String) (input : Bytes) :
    (e.renumber f).matchInput (p.rename f) start encoder input =
      e.matchInput p start encoder input := by
  unfold matchInput
  rw [held?_renumber hf]
  rfl

theorem trace_renumber (hf : f.Injective) (start : Int) (style : String) (input : Bytes) :
    (e.renumber f).trace (p.rename f) start style input = e.trace p start style input := by
  unfold trace
  rw [held?_renumber hf]
  rfl

/-- An engine with another number replies alike, but for the numbers in handles. -/
theorem call_renumber (hf : f.Injective) (c : Call) :
    (e.renumber f).call (c.rename f) = ((e.call c).1.rename f, (e.call c).2.renumber f) := by
  cases c with
  | request request =>
    cases request with
    | pattern request =>
      cases request with
      | compile expression =>
        have h := compile_renumber (f := f) (e := e) expression
        exact congrArg (fun outcome => (CallReply.replied (.compiled outcome.1), outcome.2)) h
      | free pattern => exact congrArg (CallReply.replied .done, ·) (free_renumber hf)
    | source fs request => cases request <;> rfl
  | matchInput pattern start encoder input =>
    exact congrArg (fun result => (CallReply.matched result, e.renumber f))
      (matchInput_renumber hf start encoder input)
  | trace pattern start style input =>
    exact congrArg (fun result => (CallReply.traced result, e.renumber f))
      (trace_renumber hf start style input)

/-- A call is answered by the same engine. -/
theorem id_call (e : Engine) (c : Call) : (e.call c).2.id = e.id := by
  cases c with
  | request request =>
    cases request with
    | pattern request =>
      cases request with
      | compile expression => exact e.id_serve (.compile expression)
      | free pattern => exact e.id_serve (.free pattern)
    | source fs request => cases request <;> rfl
  | matchInput pattern start encoder input => rfl
  | trace pattern start style input => rfl

/-- The engine has no pattern for the handle, and there is nothing to give up. -/
structure Ignores (e : Engine) (p : PatternHandle) : Prop where
  matchInput : ∀ start encoder input,
    e.matchInput p start encoder input = ⟨.status Status.noPattern, 0, false⟩
  trace : ∀ start style input, e.trace p start style input = .ok ⟨false, .status Status.noPattern⟩
  matchFile : ∀ host encoder whole input output errors,
    e.matchFile host p encoder whole input output errors = (.ofStatus Status.noPattern, host)
  free : e.free p = e

/-- The handles of other engines are ignored. -/
theorem ignores_of_ne (h : p.engine ≠ e.id) : e.Ignores p := by
  have hheld : e.held? p = none := by rw [held?, if_neg h]
  exact {
    matchInput := fun start encoder input => by rw [Engine.matchInput, hheld]
    trace := fun start style input => by rw [Engine.trace, hheld]
    matchFile := fun host encoder whole input output errors => by rw [Engine.matchFile, hheld]
    free := by rw [Engine.free, if_neg h] }

/-- A pattern that is handed out is of the engine that hands it out. -/
theorem engine_of_call {c : Call} {reply : CompileReply}
    (h : (e.call c).1 = .replied (.compiled (.ok reply))) (hp : reply.pattern = some p) :
    p.engine = e.id := by
  have hcompile : ∀ expression, (e.compile expression).1 = .ok reply → p.engine = e.id := by
    intro expression hreply
    unfold compile at hreply
    split at hreply
    · cases hreply
      cases hp
    · split at hreply
      · cases hreply
        cases hp
        rfl
      · cases hreply
  cases c with
  | request request =>
    have hreply := CallReply.replied.inj h
    cases request with
    | pattern request =>
      cases request with
      | compile expression => exact hcompile expression (Reply.compiled.inj hreply)
      | free pattern => cases hreply
    | source fs request => cases request <;> cases hreply
  | matchInput pattern start encoder input => cases h
  | trace pattern start style input => cases h

end Engine

/-! ## Several engines -/

/-- Engines that were booted by one launcher. -/
structure Fleet where
  /-- What they share. -/
  launcher : Launcher
  /-- The engines in the order in which they were booted. -/
  engines : List Engine := []

namespace Fleet

/-- Something that happens. -/
inductive Event where
  /-- An engine is booted. -/
  | boot (installation : Installation)
  /-- An engine is called; nothing happens as long as it was not booted. -/
  | call (index : Nat) (call : Engine.Call)

/-- What happens when engines have other numbers. -/
def Event.rename (f : Nat → Nat) : Event → Event
  | .boot installation => .boot installation
  | .call index c => .call index (c.rename f)

/-- The reply to a call, with the engine that was called, and the engines after it. -/
def serve (fleet : Fleet) : Event → Option (Nat × Engine.CallReply) × Fleet
  | .boot installation =>
    let (engine, launcher) := fleet.launcher.boot installation
    (none, { launcher, engines := fleet.engines ++ [engine] })
  | .call index c =>
    match fleet.engines[index]? with
    | none => (none, fleet)
    | some e =>
      let (reply, e) := e.call c
      (some (index, reply), { fleet with engines := fleet.engines.set index e })

/-- The engines after all of this. -/
def serveAll (fleet : Fleet) (events : List Event) : Fleet :=
  events.foldl (fun fleet event => (fleet.serve event).2) fleet

/-- The replies in order, each with the engine that was called. -/
def log (fleet : Fleet) : List Event → List (Nat × Engine.CallReply)
  | [] => []
  | event :: events =>
    let (reply, fleet) := fleet.serve event
    reply.toList ++ fleet.log events

/-- The reply, if it is one of the engine. -/
def replyOf? (k : Nat) (entry : Nat × Engine.CallReply) : Option Engine.CallReply :=
  if entry.1 = k then some entry.2 else none

/-- The replies of one engine. -/
def repliesOf (k : Nat) (fleet : Fleet) (events : List Event) : List Engine.CallReply :=
  (fleet.log events).filterMap (replyOf? k)

/-- What happens to one engine, when so many were booted before. -/
def alone (k : Nat) : (booted : Nat) → List Event → List Event
  | _, [] => []
  | booted, .boot installation :: events =>
    if booted = k then .boot installation :: alone k (booted + 1) events
    else alone k (booted + 1) events
  | booted, .call index c :: events =>
    if index = k then .call 0 c :: alone k booted events else alone k booted events

variable {f : Nat → Nat} {k before : Nat} {fleet single : Fleet} {events : List Event}

/-- The engines have the numbers behind one, in the order in which they were booted. -/
structure Numbered (before : Nat) (fleet : Fleet) : Prop where
  lastEngine : fleet.launcher.lastEngine = before + fleet.engines.length
  id : ∀ i e, fleet.engines[i]? = some e → e.id = before + i + 1

/-- The engine that is booted comes last. -/
theorem getElem?_engines_boot (fleet : Fleet) (installation : Installation) (i : Nat) :
    (fleet.serve (.boot installation)).2.engines[i]? =
      if i = fleet.engines.length then
        some (.boot (fleet.launcher.lastEngine + 1) installation)
      else fleet.engines[i]? := by
  change (fleet.engines ++ [_])[i]? = _
  split
  · subst i
    exact List.getElem?_concat_length
  · rename_i hne
    by_cases hlt : i < fleet.engines.length
    · exact List.getElem?_append_left hlt
    · rw [List.getElem?_eq_none (by rw [List.length_append, List.length_singleton]; omega),
        List.getElem?_eq_none (by omega)]

/-- A call of an engine that was not booted does nothing. -/
theorem serve_call_none {index : Nat} (h : fleet.engines[index]? = none) (c : Engine.Call) :
    fleet.serve (.call index c) = (none, fleet) := by
  rw [serve, h]

/-- A call changes the engine that is called and no other. -/
theorem serve_call_some {index : Nat} {e : Engine} (h : fleet.engines[index]? = some e)
    (c : Engine.Call) : fleet.serve (.call index c) = (some (index, (e.call c).1),
      { fleet with engines := fleet.engines.set index (e.call c).2 }) := by
  rw [serve, h]

theorem getElem?_engines_set {index : Nat} {e : Engine} (h : fleet.engines[index]? = some e)
    (e' : Engine) (i : Nat) :
    (fleet.engines.set index e')[i]? = if i = index then some e' else fleet.engines[i]? := by
  obtain ⟨hlt, -⟩ := List.getElem?_eq_some_iff.mp h
  rw [List.getElem?_set, if_pos hlt]
  exact if_congr eq_comm rfl rfl

/-- Whatever happens, engines are numbered in the order in which they were booted. -/
theorem Numbered.serve (h : fleet.Numbered before) (event : Event) :
    (fleet.serve event).2.Numbered before := by
  cases event with
  | boot installation =>
    refine ⟨?_, fun i e he => ?_⟩
    · change fleet.launcher.lastEngine + 1 = before + (fleet.engines ++ [_]).length
      rw [List.length_append, h.lastEngine]
      rfl
    · rw [getElem?_engines_boot] at he
      split at he
      · rename_i hi
        cases he
        rw [hi, ← h.lastEngine]
        rfl
      · exact h.id i e he
  | call index c =>
    cases hindex : fleet.engines[index]? with
    | none =>
      rw [serve_call_none hindex]
      exact h
    | some called =>
      rw [serve_call_some hindex]
      refine ⟨h.lastEngine.trans (by rw [List.length_set]), fun i e he => ?_⟩
      rw [getElem?_engines_set hindex] at he
      split at he
      · rename_i hi
        cases he
        rw [hi, called.id_call]
        exact h.id index called hindex
      · exact h.id i e he

/-- The engine of the second that is the only one is that of the first but for its number. -/
structure Mirrors (f : Nat → Nat) (before k : Nat) (fleet single : Fleet) : Prop where
  lastEngine : single.launcher.lastEngine = before + single.engines.length
  engines : single.engines = (fleet.engines[k]?.map (.renumber f)).toList

/-- The engine is booted. -/
theorem Mirrors.boot_own (h : Mirrors f before k fleet single) (hfleet : fleet.Numbered before)
    (hf : f (before + k + 1) = before + 1) (hlength : fleet.engines.length = k)
    (installation : Installation) :
    Mirrors f before k (fleet.serve (.boot installation)).2
      (single.serve (.boot installation)).2 := by
  have hsingle : single.engines = [] := by
    rw [h.engines, List.getElem?_eq_none (Nat.le_of_eq hlength)]
    rfl
  have hlast : single.launcher.lastEngine = before := by
    rw [h.lastEngine, hsingle]
    rfl
  refine ⟨?_, ?_⟩
  · change single.launcher.lastEngine + 1 = before + (single.engines ++ [_]).length
    rw [hlast, hsingle]
    rfl
  · change single.engines ++ [Engine.boot (single.launcher.lastEngine + 1) installation] = _
    rw [getElem?_engines_boot, if_pos hlength.symm, hsingle, hlast, hfleet.lastEngine, hlength,
      ← hf]
    rfl

/-- Another engine is booted. -/
theorem Mirrors.boot_other (h : Mirrors f before k fleet single)
    (hlength : fleet.engines.length ≠ k) (installation : Installation) :
    Mirrors f before k (fleet.serve (.boot installation)).2 single where
  lastEngine := h.lastEngine
  engines := by rw [getElem?_engines_boot, if_neg hlength.symm, h.engines]

/-- The engine is called, if it was booted. -/
theorem Mirrors.call_own (h : Mirrors f before k fleet single) (hf : f.Injective)
    (c : Engine.Call) :
    (single.serve (.call 0 (c.rename f))).1.toList.filterMap (replyOf? 0) =
        ((fleet.serve (.call k c)).1.toList.filterMap (replyOf? k)).map (.rename f) ∧
      Mirrors f before k (fleet.serve (.call k c)).2 (single.serve (.call 0 (c.rename f))).2 := by
  have hsingle := h.engines
  cases hcalled : fleet.engines[k]? with
  | none =>
    rw [hcalled] at hsingle
    have hzero : single.engines[0]? = none := by
      rw [hsingle]
      rfl
    rw [serve_call_none hcalled, serve_call_none hzero]
    exact ⟨rfl, h⟩
  | some e =>
    rw [hcalled] at hsingle
    have hzero : single.engines[0]? = some (e.renumber f) := by
      rw [hsingle]
      rfl
    rw [serve_call_some hcalled, serve_call_some hzero, Engine.call_renumber hf]
    refine ⟨?_, h.lastEngine.trans (by rw [List.length_set]), ?_⟩
    · simp [replyOf?]
    · rw [getElem?_engines_set hcalled, if_pos rfl, hsingle]
      rfl

/-- Another engine is called, if it was booted. -/
theorem Mirrors.call_other (h : Mirrors f before k fleet single) {index : Nat} (hindex : index ≠ k)
    (c : Engine.Call) : (fleet.serve (.call index c)).1.toList.filterMap (replyOf? k) = [] ∧
      Mirrors f before k (fleet.serve (.call index c)).2 single := by
  cases hcalled : fleet.engines[index]? with
  | none =>
    rw [serve_call_none hcalled]
    exact ⟨rfl, h⟩
  | some e =>
    rw [serve_call_some hcalled]
    refine ⟨?_, h.lastEngine, ?_⟩
    · simp [replyOf?, hindex]
    · rw [getElem?_engines_set hcalled, if_neg hindex.symm, h.engines]

theorem log_cons (fleet : Fleet) (event : Event) (events : List Event) :
    fleet.log (event :: events) =
      (fleet.serve event).1.toList ++ (fleet.serve event).2.log events := rfl

theorem repliesOf_cons (k : Nat) (fleet : Fleet) (event : Event) (events : List Event) :
    repliesOf k fleet (event :: events) =
      (fleet.serve event).1.toList.filterMap (replyOf? k) ++
        repliesOf k (fleet.serve event).2 events := by
  rw [repliesOf, log_cons, List.filterMap_append]
  rfl

theorem length_serve_call (fleet : Fleet) (index : Nat) (c : Engine.Call) :
    (fleet.serve (.call index c)).2.engines.length = fleet.engines.length := by
  cases hcalled : fleet.engines[index]? with
  | none => rw [serve_call_none hcalled]
  | some e => rw [serve_call_some hcalled, List.length_set]

/-- An engine replies as if it were the only one, but for the numbers in handles. -/
theorem Mirrors.replies (h : Mirrors f before k fleet single) (hfleet : fleet.Numbered before)
    (hf : f.Injective) (hk : f (before + k + 1) = before + 1) (events : List Event) :
    repliesOf 0 single ((alone k fleet.engines.length events).map (.rename f)) =
      (repliesOf k fleet events).map (.rename f) := by
  -- The second fleet stands still while the others are booted or called, so the induction is over
  -- what happens to the first, and what carries it is that the second mirrors the first.
  induction events generalizing fleet single with
  | nil => rfl
  | cons event events ih =>
    have hserved := hfleet.serve event
    rw [repliesOf_cons, List.map_append]
    cases event with
    | boot installation =>
      have hlength : (fleet.serve (.boot installation)).2.engines.length =
          fleet.engines.length + 1 := List.length_append
      rw [alone]
      split
      · rename_i hown
        rw [List.map_cons, repliesOf_cons, ← hlength]
        exact ih (h.boot_own hfleet hk hown installation) hserved
      · rename_i hother
        rw [← hlength]
        exact ih (h.boot_other hother installation) hserved
    | call index c =>
      rw [alone, ← length_serve_call fleet index c]
      split
      · rename_i hown
        subst hown
        obtain ⟨hreplies, hmirrors⟩ := h.call_own hf c
        rw [List.map_cons, repliesOf_cons, ← hreplies, ← ih hmirrors hserved]
        rfl
      · rename_i hother
        obtain ⟨hreplies, hmirrors⟩ := h.call_other hother c
        rw [hreplies, ← ih hmirrors hserved]
        rfl

/-- The handles in the replies are of the engines that replied. -/
theorem Numbered.log (h : fleet.Numbered before) (events : List Event) {j : Nat}
    {reply : CompileReply} {p : PatternHandle}
    (hlog : (j, .replied (.compiled (.ok reply))) ∈ fleet.log events)
    (hp : reply.pattern = some p) : p.engine = before + j + 1 := by
  induction events generalizing fleet with
  | nil => cases hlog
  | cons event events ih =>
    rw [log_cons] at hlog
    rcases List.mem_append.mp hlog with hfirst | hrest
    · cases event with
      | boot installation => cases hfirst
      | call index c =>
        cases hcalled : fleet.engines[index]? with
        | none =>
          rw [serve_call_none hcalled] at hfirst
          cases hfirst
        | some e =>
          rw [serve_call_some hcalled] at hfirst
          obtain ⟨hindex, hreply⟩ := Prod.mk.inj (List.mem_singleton.mp hfirst)
          rw [Engine.engine_of_call hreply.symm hp, hindex]
          exact h.id index e hcalled
    · exact ih (h.serve event) hrest

theorem Numbered.serveAll (h : fleet.Numbered before) (events : List Event) :
    (fleet.serveAll events).Numbered before := by
  induction events generalizing fleet with
  | nil => exact h
  | cons event events ih => exact ih (h.serve event)

/-- Engines do not interfere with each other. Whatever engines are booted and called in whatever
order, each replies as if only it had been booted and called, but for the number that its handles
hold; and a handle that one of them handed out, given up or not, leads nowhere on all others. -/
theorem engines_do_not_interfere (l : Launcher) (events : List Event) :
    (∀ k, let f := Equiv.swap (l.lastEngine + k + 1) (l.lastEngine + 1)
      repliesOf 0 { launcher := l } ((alone k 0 events).map (.rename f)) =
        (repliesOf k { launcher := l } events).map (.rename f)) ∧
    ∀ j reply p, (j, .replied (.compiled (.ok reply))) ∈ log { launcher := l } events →
      reply.pattern = some p → ∀ k e, k ≠ j →
        (serveAll { launcher := l } events).engines[k]? = some e → e.Ignores p := by
  have hnumbered : Numbered l.lastEngine { launcher := l } := ⟨rfl, nofun⟩
  refine ⟨fun k => ?_, fun j reply p hlog hp k e hne he => ?_⟩
  · have hmirrors : Mirrors (Equiv.swap (l.lastEngine + k + 1) (l.lastEngine + 1)) l.lastEngine k
        { launcher := l } { launcher := l } := ⟨rfl, rfl⟩
    exact hmirrors.replies hnumbered (Equiv.injective _) (Equiv.swap_apply_left _ _) events
  · have hid := (hnumbered.serveAll events).id k e he
    have hengine := hnumbered.log events hlog hp
    exact Engine.ignores_of_ne (by omega)

/-- Two engines each compile an expression, and the second is given the handle of the first. -/
def twoEngines : List Event :=
  [.boot Session.bare.engine.installation, .boot Session.bare.engine.installation,
    .call 0 (.request (.pattern (.compile "\"a\""))),
    .call 1 (.request (.pattern (.compile "\"b\""))),
    .call 1 (.matchInput ⟨1, 1⟩ 1 "matches" [0x61]),
    .call 1 (.request (.pattern (.free ⟨1, 1⟩))),
    .call 1 (.matchInput ⟨2, 1⟩ 1 "matches" [0x62])]

/-- The patterns of both engines have the number one, and the handle of the first leads nowhere on
the second. -/
theorem engines_do_not_interfere_two :
    (log { launcher := {} } twoEngines)[0]? =
        some (0, .replied (.compiled (.ok ⟨some ⟨1, 1⟩, ⟨[]⟩⟩))) ∧
      (log { launcher := {} } twoEngines)[1]? =
        some (1, .replied (.compiled (.ok ⟨some ⟨2, 1⟩, ⟨[]⟩⟩))) ∧
      repliesOf 0 { launcher := {} } ((alone 1 0 twoEngines).map (.rename (Equiv.swap 2 1))) =
        (repliesOf 1 { launcher := {} } twoEngines).map (.rename (Equiv.swap 2 1)) ∧
      ∃ e, (serveAll { launcher := {} } twoEngines).engines[1]? = some e ∧ e.Ignores ⟨1, 1⟩ := by
  obtain ⟨halone, hignores⟩ := engines_do_not_interfere {} twoEngines
  have hfirst : (log { launcher := {} } twoEngines)[0]? =
      some (0, .replied (.compiled (.ok ⟨some ⟨1, 1⟩, ⟨[]⟩⟩))) := by cbv
  have hsecond : (log { launcher := {} } twoEngines)[1]? =
      some (1, .replied (.compiled (.ok ⟨some ⟨2, 1⟩, ⟨[]⟩⟩))) := by cbv
  have hbooted : (serveAll { launcher := {} } twoEngines).engines[1]?.isSome = true := by cbv
  obtain ⟨e, he⟩ := Option.isSome_iff_exists.mp hbooted
  exact ⟨hfirst, hsecond, halone 1, e, he,
    hignores 0 _ ⟨1, 1⟩ (List.mem_of_getElem? hfirst) rfl 1 e (by decide) he⟩

end Fleet

end PatternEngine
