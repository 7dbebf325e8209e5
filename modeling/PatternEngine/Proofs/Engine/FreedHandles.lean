import Mathlib
import PatternEngine.Engine.Basic
import PatternEngine.Proofs.Engine.Generations

/-!
# Freed handles

A handle that was given up leads nowhere until its slot has been given up as often as there are
generations, and then leads to whatever is in the slot. A request moves on the generation of a
slot exactly when it gives up what is in it, so a run of requests is described by how often it
does so.
-/

namespace PatternEngine.Engine

open HandleTable (generationLimit)

/-- A request that changes which handles lead somewhere. -/
inductive Request where
  /-- Compile an expression. -/
  | compile (expression : String)
  /-- Give up a pattern. -/
  | free (pattern : PatternHandle)
  deriving DecidableEq, Repr

variable {e : Engine} {pattern : PatternHandle} {request : Request} {index generation : Nat}

/-- The engine after a request. -/
def serve (e : Engine) : Request → Engine
  | .compile expression => (e.compile expression).2
  | .free pattern => e.free pattern

/-- The engine after several requests. -/
def serveAll (e : Engine) (requests : List Request) : Engine := requests.foldl serve e

@[simp] theorem serveAll_append (e : Engine) (requests later : List Request) :
    e.serveAll (requests ++ later) = (e.serveAll requests).serveAll later :=
  List.foldl_append

@[simp] theorem serveAll_singleton (e : Engine) (request : Request) :
    e.serveAll [request] = e.serve request := rfl

/-- The request gives up what is in the slot. -/
def givesUp (e : Engine) (index : Nat) : Request → Bool
  | .compile _ => false
  | .free pattern =>
    (e.held? pattern).isSome && (HandleTable.decode? pattern.raw).any (·.1 == index)

/-- How often requests give up what is in the slot. -/
def releases (e : Engine) (index : Nat) : List Request → Nat
  | [] => 0
  | request :: requests =>
    (e.givesUp index request).toNat + (e.serve request).releases index requests

/-- The handle leads nowhere: the table has nothing under its number, and every operation with it
reports that there is no pattern or leaves the engine as it is. -/
structure Dead (e : Engine) (pattern : PatternHandle) : Prop where
  get? : e.handles.get? pattern.raw = none
  remove : e.handles.remove pattern.raw = none
  free : e.free pattern = e
  matchInput : ∀ start encoder input,
    e.matchInput pattern start encoder input = ⟨.status Status.noPattern, 0, false⟩
  trace : ∀ start style input,
    e.trace pattern start style input = .ok ⟨false, .status Status.noPattern⟩
  matchFile : ∀ host encoder whole input output errors,
    e.matchFile host pattern encoder whole input output errors =
      (.ofStatus Status.noPattern, host)

/-- A handle of the engine is dead as soon as the table has nothing under its number. -/
theorem dead_iff (h : pattern.engine = e.id) :
    e.Dead pattern ↔ e.handles.get? pattern.raw = none := by
  refine ⟨Dead.get?, fun hg => ?_⟩
  have hr : e.handles.remove pattern.raw = none := by
    rw [← Option.map_eq_none_iff, HandleTable.map_remove, hg]
  have hh : e.held? pattern = none := by rw [held?, if_pos h, hg]
  exact {
    get? := hg
    remove := hr
    free := by rw [Engine.free, if_pos h, hr]
    matchInput := fun start encoder input => by rw [Engine.matchInput, hh]
    trace := fun start style input => by rw [Engine.trace, hh]
    matchFile := fun host encoder whole input output errors => by rw [Engine.matchFile, hh] }

/-- Compiling leaves the handles alone or stores one pattern. -/
theorem compile_handles (e : Engine) (expression : String) :
    (e.compile expression).2.id = e.id ∧ ((e.compile expression).2.handles = e.handles ∨
      ∃ held raw, e.handles.insert held = some (raw, (e.compile expression).2.handles)) := by
  unfold compile
  split
  · exact ⟨rfl, .inl rfl⟩
  · split
    · rename_i h
      exact ⟨rfl, .inr ⟨_, _, h⟩⟩
    · exact ⟨rfl, .inl rfl⟩

/-- Freeing passes over a handle that leads nowhere and gives up what any other leads to. -/
theorem free_handles (e : Engine) (pattern : PatternHandle) :
    (e.free pattern).id = e.id ∧ (e.held? pattern = none ∧ e.free pattern = e ∨
      ∃ held, e.held? pattern = some held ∧
        e.handles.remove pattern.raw = some (held, (e.free pattern).handles)) := by
  unfold free held?
  split
  · rw [← HandleTable.map_remove]
    split
    · rename_i held handles h
      exact ⟨rfl, .inr ⟨held, by rw [h]; rfl, h⟩⟩
    · rename_i h
      exact ⟨rfl, .inl ⟨by rw [h]; rfl, rfl⟩⟩
  · exact ⟨rfl, .inl ⟨rfl, rfl⟩⟩

/-- What a handle of the engine leads to is given up with its program. -/
theorem free_of_remove {held : HeldPattern} {handles : HandleTable HeldPattern}
    (h : pattern.engine = e.id) (hr : e.handles.remove pattern.raw = some (held, handles)) :
    e.free pattern = { e with handles, workspace := e.workspace.release held.key } := by
  rw [free, if_pos h, hr]

/-- A request is served by the same engine. -/
@[simp] theorem id_serve (e : Engine) (request : Request) : (e.serve request).id = e.id := by
  cases request with
  | compile expression => exact (compile_handles e expression).1
  | free pattern => exact (free_handles e pattern).1

@[simp] theorem id_serveAll (e : Engine) (requests : List Request) :
    (e.serveAll requests).id = e.id := by
  induction requests generalizing e with
  | nil => rfl
  | cons request requests ih => exact (ih (e.serve request)).trans (id_serve e request)

/-- A handle that leads somewhere is of the engine and holds a slot and a generation. -/
theorem of_held? {held : HeldPattern} (h : e.held? pattern = some held) :
    pattern.engine = e.id ∧ e.handles.get? pattern.raw = some held := by
  unfold held? at h
  split at h
  · exact ⟨‹_›, h⟩
  · cases h

/-- A request moves on the generation of a slot exactly when it gives up what is in it. -/
theorem generation?_serve (hg : e.handles.generation? index = some generation)
    (hlt : generation < generationLimit) :
    (e.serve request).handles.generation? index =
      some ((generation + (e.givesUp index request).toNat) % generationLimit) := by
  have hmod : generation % generationLimit = generation := Nat.mod_eq_of_lt hlt
  cases request with
  | compile expression =>
    simp only [givesUp, Bool.toNat_false, Nat.add_zero, hmod]
    rcases (compile_handles e expression).2 with h | ⟨held, raw, h⟩
    · exact (congrArg (·.generation? index) h).trans hg
    · exact HandleTable.generation?_insert h hg
  | free pattern =>
    rcases (free_handles e pattern).2 with ⟨hn, h⟩ | ⟨held, hh, h⟩
    · simp [givesUp, serve, h, hn, hg, hmod]
    · have hget := Option.isSome_of_eq_some (of_held? hh).2
      obtain ⟨i, g, hd⟩ := HandleTable.exists_decode? hget
      rw [serve, HandleTable.generation?_remove h hd]
      by_cases hi : index = i
      · subst hi
        cases hg.symm.trans ((HandleTable.get?_isSome_iff hd).mp hget).1
        simp [givesUp, hh, hd]
      · have hne : (i == index) = false := beq_eq_false_iff_ne.mpr (Ne.symm hi)
        simp [givesUp, hh, hd, hi, hne, hg, hmod]

/-- A run of requests moves on the generation of a slot as often as it gives up what is in it. -/
theorem generation?_serveAll (requests : List Request)
    (hg : e.handles.generation? index = some generation) (hlt : generation < generationLimit) :
    (e.serveAll requests).handles.generation? index =
      some ((generation + e.releases index requests) % generationLimit) := by
  induction requests generalizing e generation with
  | nil => simpa [serveAll, releases, Nat.mod_eq_of_lt hlt] using hg
  | cons request requests ih =>
    have hnext : (e.serve request).handles.generation? index =
        some ((generation + (e.givesUp index request).toNat) % generationLimit) :=
      generation?_serve hg hlt
    have hrest := ih hnext (Nat.mod_lt _ (by decide))
    rw [Nat.mod_add_mod, Nat.add_assoc] at hrest
    exact hrest

/-- After a handle was freed and requests were served, the table has something under its number
exactly when its slot is filled and was given up a multiple of the number of generations. -/
theorem get?_after_free_iff {held : HeldPattern} (h : e.held? pattern = some held)
    (hd : HandleTable.decode? pattern.raw = some (index, generation)) (requests : List Request) :
    (((e.free pattern).serveAll requests).handles.get? pattern.raw).isSome ↔
      (((e.free pattern).serveAll requests).handles.content? index).isSome ∧
        generationLimit ∣ 1 + (e.free pattern).releases index requests := by
  have hlt := HandleTable.decode?_generation_lt hd
  have hfree : (e.free pattern).handles.generation? index =
      some ((generation + 1) % generationLimit) := by
    rcases (free_handles e pattern).2 with ⟨hn, -⟩ | ⟨held', -, hr⟩
    · cases h.symm.trans hn
    · simp [HandleTable.generation?_remove hr hd]
  have hrun := generation?_serveAll requests hfree (Nat.mod_lt _ (by decide))
  rw [Nat.mod_add_mod, Nat.add_assoc] at hrun
  rw [HandleTable.get?_isSome_iff hd, hrun, Option.some_inj, and_comm]
  refine and_congr_right fun _ => ?_
  simp only [generationLimit] at *
  omega

/-- A request gives up what is in a slot at most once. -/
theorem releases_le_length (e : Engine) (index : Nat) (requests : List Request) :
    e.releases index requests ≤ requests.length := by
  induction requests generalizing e with
  | nil => exact Nat.le_refl _
  | cons request requests ih =>
    have h := ih (e.serve request)
    have hone := Bool.toNat_le (e.givesUp index request)
    rw [releases, List.length_cons]
    omega

/-- A handle that led somewhere is dead, after it was freed and requests were served, exactly when
the table has nothing under its number. -/
theorem dead_after_free_iff_get? {held : HeldPattern} (h : e.held? pattern = some held)
    (requests : List Request) : ((e.free pattern).serveAll requests).Dead pattern ↔
      ((e.free pattern).serveAll requests).handles.get? pattern.raw = none := by
  apply dead_iff
  rw [id_serveAll, (free_handles e pattern).1, (of_held? h).1]

/-- A freed handle stays dead while there were fewer requests than generations. -/
theorem dead_after_free_of_length_lt {requests : List Request} (h : (e.held? pattern).isSome)
    (hfew : requests.length + 1 < generationLimit) :
    ((e.free pattern).serveAll requests).Dead pattern := by
  obtain ⟨held, hh⟩ := Option.isSome_iff_exists.mp h
  obtain ⟨index, generation, hd⟩ :=
    HandleTable.exists_decode? (Option.isSome_of_eq_some (of_held? hh).2)
  rw [dead_after_free_iff_get? hh, ← Option.not_isSome_iff_eq_none, get?_after_free_iff hh hd]
  rintro ⟨-, hdvd⟩
  have hle := releases_le_length (e.free pattern) index requests
  have hge := Nat.le_of_dvd (by omega) hdvd
  omega

/-- A freed handle is dead after any requests, unless its slot is filled again and was given up,
the first time included, a multiple of the number of generations. -/
theorem dead_after_free_iff (h : (e.held? pattern).isSome) :
    ∃ index generation, HandleTable.decode? pattern.raw = some (index, generation) ∧
      ∀ requests, ((e.free pattern).serveAll requests).Dead pattern ↔
        ¬ ((((e.free pattern).serveAll requests).handles.content? index).isSome ∧
          generationLimit ∣ 1 + (e.free pattern).releases index requests) := by
  obtain ⟨held, hh⟩ := Option.isSome_iff_exists.mp h
  obtain ⟨index, generation, hd⟩ :=
    HandleTable.exists_decode? (Option.isSome_of_eq_some (of_held? hh).2)
  refine ⟨index, generation, hd, fun requests => ?_⟩
  rw [dead_after_free_iff_get? hh, ← get?_after_free_iff hh hd, Option.not_isSome_iff_eq_none]

/-- An engine whose one pattern is in the first slot. -/
def holdingOne : Engine :=
  ((boot 1 ⟨"/opt", "/opt/lib/boot.lua", "/opt/rpl", .installation, "/root/.rc"⟩).compile
    "\"a\"").2

/-- The handle stays dead when its slot goes to the next pattern. -/
theorem dead_after_free_iff_reused :
    (holdingOne.held? ⟨1, 1⟩).isSome ∧
      ((holdingOne.free ⟨1, 1⟩).serveAll [.compile "\"b\""]).Dead ⟨1, 1⟩ := by
  have h : (holdingOne.held? ⟨1, 1⟩).isSome := by cbv
  obtain ⟨index, generation, hd, hdead⟩ := dead_after_free_iff h
  have hindex : HandleTable.decode? 1 = some (0, 0) := by decide
  cases hindex.symm.trans hd
  refine ⟨h, (hdead _).mpr ?_⟩
  rintro ⟨-, hdvd⟩
  have hreleases : (holdingOne.free ⟨1, 1⟩).releases 0 [.compile "\"b\""] = 0 := rfl
  rw [hreleases] at hdvd
  exact absurd hdvd (by decide)

/-- The engine has one slot, which is empty and of this generation, and no definitions. -/
def Vacant (e : Engine) (generation : Nat) : Prop :=
  e.id = 1 ∧ e.handles = ⟨[⟨generation, none⟩], [0], 0⟩ ∧ e.workspace.env = {}

/-- The engine has one slot, which is filled and of this generation, and no definitions. -/
def Filled (e : Engine) (generation : Nat) : Prop :=
  e.id = 1 ∧ (∃ held, e.handles = ⟨[⟨generation, some held⟩], [], 1⟩) ∧ e.workspace.env = {}

/-- A filled slot is vacated when its pattern is freed, and moves on to the next generation. -/
theorem Filled.free (h : e.Filled generation) (hlt : generation < generationLimit) :
    (e.serve (.free ⟨1, HandleTable.encode 0 generation⟩)).Vacant
      ((generation + 1) % generationLimit) := by
  obtain ⟨hid, ⟨held, hhandles⟩, henv⟩ := h
  have hd : HandleTable.decode? (HandleTable.encode 0 generation) = some (0, generation) :=
    HandleTable.decode?_encode (by decide) hlt
  have hremove : e.handles.remove (HandleTable.encode 0 generation) =
      some (held, ⟨[⟨(generation + 1) % generationLimit, none⟩], [0], 0⟩) := by
    simp [hhandles, HandleTable.remove, HandleTable.slotOf?, hd]
  have hfree : e.serve (.free ⟨1, HandleTable.encode 0 generation⟩) = _ :=
    free_of_remove hid.symm hremove
  rw [hfree]
  refine ⟨hid, rfl, ?_⟩
  unfold Workspace.release
  split
  · exact henv
  · exact henv

/-- Compile an expression and free its handle again, so many times. -/
def cycles (expression : String) : (generation count : Nat) → List Request
  | _, 0 => []
  | generation, count + 1 =>
    .compile expression :: .free ⟨1, HandleTable.encode 0 generation⟩ ::
      cycles expression ((generation + 1) % generationLimit) count

section Cycles

variable {expression : String} {compiled : Environment.Compiled}
  (hc : ({} : Environment).compile expression = .ok compiled)
include hc

/-- A vacant slot is filled when an expression is compiled. -/
theorem Vacant.compile (h : e.Vacant generation) :
    (e.serve (.compile expression)).Filled generation := by
  obtain ⟨hid, hhandles, henv⟩ := h
  have hinsert (held : HeldPattern) : e.handles.insert held =
      some (HandleTable.encode 0 generation, ⟨[⟨generation, some held⟩], [], 1⟩) := by
    rw [hhandles]
    rfl
  simp only [serve, Engine.compile, Workspace.compile, henv, hc, hinsert]
  exact ⟨hid, ⟨_, rfl⟩, rfl⟩

/-- Each cycle moves on the slot by one generation. -/
theorem Vacant.serveAll_cycles (h : e.Vacant generation)
    (hlt : generation < generationLimit) (count : Nat) :
    (e.serveAll (cycles expression generation count)).Vacant
      ((generation + count) % generationLimit) := by
  induction count generalizing e generation with
  | zero => simpa [cycles, serveAll, Nat.mod_eq_of_lt hlt] using h
  | succ count ih =>
    have hnext := ih ((h.compile hc).free hlt) (Nat.mod_lt _ (by decide))
    rw [Nat.mod_add_mod, Nat.add_right_comm] at hnext
    exact hnext

end Cycles

/-- The first number leads to what fills a slot of the first generation. -/
theorem Filled.get? (h : e.Filled 0) : e.handles.get? 1 ≠ none := by
  obtain ⟨-, ⟨held, hhandles⟩, -⟩ := h
  have hd : HandleTable.decode? 1 = some (0, 0) := by decide
  simp [hhandles, HandleTable.get?, HandleTable.slotOf?, hd]

/-- After as many cycles as there are generations the freed handle leads to a pattern that was
compiled from another expression. -/
theorem not_dead_after_all_generations :
    (holdingOne.held? ⟨1, 1⟩).isSome ∧
      ¬ ((holdingOne.free ⟨1, 1⟩).serveAll
        (cycles "\"b\"" 1 2047 ++ [.compile "\"b\""])).Dead ⟨1, 1⟩ := by
  refine ⟨by cbv, fun hdead => ?_⟩
  obtain ⟨compiled, hc⟩ : ∃ compiled, ({} : Environment).compile "\"b\"" = .ok compiled :=
    ⟨_, by cbv⟩
  have hvacant : (holdingOne.free ⟨1, 1⟩).Vacant 1 := ⟨by cbv, by cbv, by cbv⟩
  have hcycled := hvacant.serveAll_cycles hc (by decide) 2047
  have hwrap : (1 + 2047) % generationLimit = 0 := by decide
  rw [hwrap] at hcycled
  have hget := hdead.get?
  rw [serveAll_append, serveAll_singleton] at hget
  exact (hcycled.compile hc).get? hget

end PatternEngine.Engine
