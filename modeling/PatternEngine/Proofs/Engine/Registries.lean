import PatternEngine.Proofs.Engine.CompleteImports
import PatternEngine.Proofs.Engine.FreedHandles
import PatternEngine.Proofs.Engine.HandleMap

/-!
# Registries of programs

An engine knows its programs in three places: under handles, and in the workspace the programs and
the expressions under keys. In every engine that can come about these are in step: a key belongs to
one handle, and the workspace has under it the program of that handle and nothing else. Only
compiling and giving up patterns concern them.
-/

namespace PatternEngine

namespace Workspace

variable {w w' w'' : Workspace} {key other : Nat}

/-- The programs and their keys are the same. -/
structure SamePrograms (w w' : Workspace) : Prop where
  programs : w'.programs = w.programs
  expressions : w'.expressions = w.expressions
  lastKey : w'.lastKey = w.lastKey

theorem SamePrograms.refl (w : Workspace) : w.SamePrograms w := ⟨rfl, rfl, rfl⟩

theorem SamePrograms.trans (h : w.SamePrograms w') (h' : w'.SamePrograms w'') :
    w.SamePrograms w'' where
  programs := h'.programs.trans h.programs
  expressions := h'.expressions.trans h.expressions
  lastKey := h'.lastKey.trans h.lastKey

variable (w) (fs : FileSystem)

theorem samePrograms_load (source : String) (origin : Option String) :
    w.SamePrograms (w.load fs source origin).2 := by
  unfold load
  split
  · exact .refl w
  · exact ⟨rfl, rfl, rfl⟩

theorem samePrograms_loadFile (path : String) : w.SamePrograms (w.loadFile fs path).2 := by
  unfold loadFile
  split
  · exact .refl w
  · exact w.samePrograms_load fs _ _

theorem samePrograms_showPackage (name : String) (rename : Option String)
    (messages : List Violation) :
    w.SamePrograms (w.showPackage name rename messages).2 := by
  unfold showPackage
  split
  · exact ⟨rfl, rfl, rfl⟩
  · exact .refl w

theorem samePrograms_importPackage (name : Bytes) (rename : Option String) :
    w.SamePrograms (w.importPackage fs name rename).2 := by
  have hsettle : ∀ result, w.SamePrograms (w.settle result).2 := fun _ => ⟨rfl, rfl, rfl⟩
  unfold importPackage
  dsimp only
  split
  · exact w.samePrograms_showPackage _ _ _
  · have hrun := hsettle (Import.run fs w.libpath w.env [name])
    split <;> rename_i heq <;> rw [heq] at hrun
    · exact hrun
    · exact hrun
    · exact hrun.trans (samePrograms_showPackage _ _ _ _)

theorem samePrograms_applyEntry (entry : RcEntry) :
    w.SamePrograms (w.applyEntry fs entry).2 := by
  unfold applyEntry
  split
  · exact ⟨rfl, rfl, rfl⟩
  · exact ⟨rfl, rfl, rfl⟩
  · split
    · exact .refl w
    · exact w.samePrograms_loadFile fs _
  · exact w.samePrograms_importPackage fs _ _

theorem samePrograms_applyEntries (entries : List RcEntry) :
    w.SamePrograms (w.applyEntries fs entries).2 := by
  induction entries generalizing w with
  | nil => exact .refl w
  | cons entry entries ih =>
    have hfirst := w.samePrograms_applyEntry fs entry
    unfold applyEntries
    split <;> rename_i heq <;> rw [heq] at hfirst
    · exact hfirst
    · exact hfirst.trans (ih _)

theorem samePrograms_executeRcFile (path : Bytes) (isDefault : Bool) :
    w.SamePrograms (w.executeRcFile fs path isDefault).2 := by
  unfold executeRcFile
  split
  · exact .refl w
  · exact .refl w
  · exact .refl w
  · exact w.samePrograms_applyEntries fs _

/-! ## Keys -/

theorem isIssued_release :
    (w.release key).isIssued other = if other = key then false else w.isIssued other := by
  unfold release
  split
  · unfold isIssued
    dsimp only
    rw [lookup_filter_key (· != key)]
    by_cases h : other = key <;> simp [h]
  · rename_i hissued
    split
    · rename_i h
      rw [h]
      simpa using hissued
    · rfl

theorem program?_release (h : w.isIssued key = true) :
    (w.release key).program? other = if other = key then none else w.program? other := by
  unfold release
  rw [if_pos h]
  unfold program?
  dsimp only
  rw [lookup_filter_key (· != key)]
  by_cases h : other = key <;> simp [h]

theorem lastKey_release : (w.release key).lastKey = w.lastKey := by
  unfold release
  split <;> rfl

end Workspace

namespace Engine

variable {e e' : Engine} {raw raw' : Int32} {key : Nat} {p p' : Program}

/-- An engine that can come about. Each request may find other files. -/
inductive Reachable : Engine → Prop
  | boot (id : Nat) (installation : Installation) : Reachable (.boot id installation)
  | serve {e : Engine} (h : Reachable e) (request : Request) : Reachable (e.serve request)
  | answer {e : Engine} (h : Reachable e) (fs : FileSystem) (request : SourceRequest) :
      Reachable (e.answer fs request).2
  | allocationLimit {e : Engine} (h : Reachable e) (usageKb : Int64) (request : Option Int32) :
      Reachable (e.allocationLimit usageKb request).2

/-- The registries are in step. -/
structure Registered (e : Engine) : Prop where
  /-- The table of handles is in step with itself. -/
  sound : e.handles.Sound
  /-- The workspace has a program under a key where a handle has the key and the program. -/
  program?_eq_some_iff : ∀ key p,
    e.workspace.program? key = some p ↔ ∃ raw, e.handles.get? raw = some ⟨key, p⟩
  /-- The keys in use are those with a program. -/
  isIssued_eq : ∀ key, e.workspace.isIssued key = (e.workspace.program? key).isSome
  /-- A key belongs to one handle. -/
  unique : ∀ raw raw' key p p', e.handles.get? raw = some ⟨key, p⟩ →
    e.handles.get? raw' = some ⟨key, p'⟩ → raw = raw'
  /-- The keys in use are no greater than the key given last. -/
  le_lastKey : ∀ key, e.workspace.isIssued key = true → key ≤ e.workspace.lastKey

theorem get?_boot (id : Nat) (installation : Installation) (raw : Int32) :
    (boot id installation).handles.get? raw = none := HandleTable.get?_empty raw

theorem registered_boot (id : Nat) (installation : Installation) :
    (boot id installation).Registered where
  sound := HandleTable.sound_empty
  program?_eq_some_iff key p := by
    constructor
    · intro h
      cases h
    · rintro ⟨raw, h⟩
      rw [get?_boot] at h
      cases h
  isIssued_eq _ := rfl
  unique raw _ _ _ _ h := by
    rw [get?_boot] at h
    cases h
  le_lastKey _ h := by cases h

/-- Registries that show the same are in step if one of them is. -/
theorem Registered.congr (h : e.Registered) (hhandles : e'.handles = e.handles)
    (hprogram : ∀ key, e'.workspace.program? key = e.workspace.program? key)
    (hissued : ∀ key, e'.workspace.isIssued key = e.workspace.isIssued key)
    (hlast : e.workspace.lastKey ≤ e'.workspace.lastKey) : e'.Registered where
  sound := hhandles ▸ h.sound
  program?_eq_some_iff key p := by
    rw [hprogram, hhandles]
    exact h.program?_eq_some_iff key p
  isIssued_eq key := by rw [hprogram, hissued, h.isIssued_eq]
  unique := hhandles ▸ h.unique
  le_lastKey key hkey := (h.le_lastKey key (hissued key ▸ hkey)).trans hlast

/-- What leaves the programs and the handles alone leaves the registries in step. -/
theorem Registered.of_samePrograms (h : e.Registered) (hhandles : e'.handles = e.handles)
    (hsame : e.workspace.SamePrograms e'.workspace) : e'.Registered := by
  refine h.congr hhandles (fun key => ?_) (fun key => ?_) (Nat.le_of_eq hsame.lastKey.symm)
  · rw [Workspace.program?, Workspace.program?, hsame.programs]
  · rw [Workspace.isIssued, Workspace.isIssued, hsame.expressions]

/-- A key that is new has no program, and no handle has it. -/
theorem Registered.not_isIssued (h : e.Registered) (hkey : e.workspace.lastKey < key) :
    e.workspace.isIssued key = false := by
  rw [← Bool.not_eq_true]
  intro hissued
  exact absurd (h.le_lastKey key hissued) (Nat.not_le.mpr hkey)

theorem Registered.program?_eq_none (h : e.Registered) (hkey : e.workspace.lastKey < key) :
    e.workspace.program? key = none := by
  rw [← Option.not_isSome_iff_eq_none, ← h.isIssued_eq, h.not_isIssued hkey]
  exact Bool.false_ne_true

theorem Registered.get?_ne (h : e.Registered) (hkey : e.workspace.lastKey < key) (raw : Int32)
    (p : Program) : e.handles.get? raw ≠ some ⟨key, p⟩ := by
  intro hget
  have hnone := h.program?_eq_none hkey
  rw [(h.program?_eq_some_iff key p).mpr ⟨raw, hget⟩] at hnone
  cases hnone

/-- A program that is stored under a new key and a new handle is in step with the others. -/
theorem Registered.stored {handles : HandleTable HeldPattern} {workspace : Workspace}
    (h : e.Registered) (hkey : e.workspace.lastKey < key)
    (hinsert : e.handles.insert ⟨key, p⟩ = some (raw, handles))
    (hprograms : workspace.programs = (key, p) :: e.workspace.programs)
    (hexpressions : ∃ text, workspace.expressions = (key, text) :: e.workspace.expressions)
    (hlast : workspace.lastKey = key) : Registered { e with handles, workspace } := by
  obtain ⟨text, hexpressions⟩ := hexpressions
  obtain ⟨-, hvacant, hget⟩ := HandleTable.get?_insert h.sound hinsert
  have hget' : ∀ r other q, handles.get? r = some ⟨other, q⟩ ↔
      (r = raw ∧ other = key ∧ q = p) ∨ e.handles.get? r = some ⟨other, q⟩ := by
    intro r other q
    rw [hget]
    split
    · rename_i hr
      simp [hr, hvacant, eq_comm]
    · rename_i hr
      simp [hr]
  have hprogram : ∀ other q, workspace.program? other = some q ↔
      (other = key ∧ q = p) ∨ e.workspace.program? other = some q := by
    intro other q
    rw [Workspace.program?, hprograms, lookup_cons_ite]
    split
    · rename_i hother
      have hnone := h.program?_eq_none hkey
      simp [hother, hnone, eq_comm]
    · rename_i hother
      simp [hother, Workspace.program?]
  have hissued : ∀ other, workspace.isIssued other =
      (decide (other = key) || e.workspace.isIssued other) := by
    intro other
    rw [Workspace.isIssued, hexpressions, lookup_cons_ite]
    split <;> rename_i hother <;> simp [hother, Workspace.isIssued]
  refine ⟨h.sound.insert hinsert, fun other q => ?_, fun other => ?_,
    fun r r' other q q' hr hr' => ?_, fun other hother => ?_⟩
  · simp [hprogram, hget', exists_or, h.program?_eq_some_iff]
  · rw [Bool.eq_iff_iff, Option.isSome_iff_exists]
    simp [hprogram, hissued, h.isIssued_eq, Option.isSome_iff_exists, exists_or]
  · rcases (hget' r other q).mp hr with ⟨rfl, rfl, -⟩ | hold <;>
      rcases (hget' r' other q').mp hr' with ⟨rfl, hother, -⟩ | hold'
    · rfl
    · exact absurd hold' (h.get?_ne hkey r' q')
    · exact absurd (hother ▸ hold) (h.get?_ne hkey r q)
    · exact h.unique r r' other q q' hold hold'
  · rw [hissued, Bool.or_eq_true, decide_eq_true_eq] at hother
    rw [hlast]
    rcases hother with rfl | hother
    · exact Nat.le_refl _
    · exact (h.le_lastKey other hother).trans (Nat.le_of_lt hkey)

/-- A program that is given up with its key and its handle leaves the others in step. -/
theorem Registered.released {handles : HandleTable HeldPattern} (h : e.Registered)
    (hremove : e.handles.remove raw = some (⟨key, p⟩, handles)) :
    Registered { e with handles, workspace := e.workspace.release key } := by
  obtain ⟨hheld, hget⟩ := HandleTable.get?_remove hremove
  have hprogram : e.workspace.program? key = some p :=
    (h.program?_eq_some_iff key p).mpr ⟨raw, hheld⟩
  have hissued : e.workspace.isIssued key = true := by
    rw [h.isIssued_eq, hprogram]
    rfl
  have hget' : ∀ r other q, handles.get? r = some ⟨other, q⟩ ↔
      r ≠ raw ∧ e.handles.get? r = some ⟨other, q⟩ := by
    intro r other q
    rw [hget]
    split <;> rename_i hr <;> simp [hr]
  have hprogram' : ∀ other, (e.workspace.release key).program? other =
      if other = key then none else e.workspace.program? other :=
    fun other => e.workspace.program?_release hissued
  refine ⟨h.sound.remove hremove, fun other q => ?_, fun other => ?_,
    fun r r' other q q' hr hr' => ?_, fun other hother => ?_⟩
  · simp only [hprogram', hget']
    split
    · rename_i hother
      subst hother
      simp only [reduceCtorEq, false_iff]
      rintro ⟨r, hne, hr⟩
      exact hne (h.unique r raw other q p hr hheld)
    · rename_i hother
      rw [h.program?_eq_some_iff]
      refine exists_congr fun r => ⟨fun hr => ⟨?_, hr⟩, fun hr => hr.2⟩
      rintro rfl
      cases hheld.symm.trans hr
      exact hother rfl
  · simp only [hprogram', Workspace.isIssued_release]
    split
    · rfl
    · exact h.isIssued_eq other
  · exact h.unique r r' other q q' ((hget' r other q).mp hr).2 ((hget' r' other q').mp hr').2
  · simp only [Workspace.isIssued_release] at hother
    rw [Workspace.lastKey_release]
    split at hother
    · cases hother
    · exact h.le_lastKey other hother

theorem Registered.compile (h : e.Registered) (expression : String) :
    (e.compile expression).2.Registered := by
  unfold Engine.compile Workspace.compile
  cases e.workspace.env.compile expression with
  | error problems => exact h
  | ok compiled =>
    have hkey : e.workspace.lastKey < e.workspace.lastKey + 1 := Nat.lt_succ_self _
    dsimp only
    cases hinsert : e.handles.insert ⟨e.workspace.lastKey + 1, compiled.program⟩ with
    | some stored => exact h.stored hkey hinsert rfl ⟨_, rfl⟩ rfl
    | none =>
      -- Without a handle the key that was just given is taken back.
      refine h.congr rfl (fun other => ?_) (fun other => ?_) ?_
      · rw [Workspace.program?_release _ (by simp [Workspace.isIssued])]
        split
        · rename_i hother
          rw [hother, h.program?_eq_none hkey]
        · rename_i hother
          simp [Workspace.program?, lookup_cons_ite, hother]
      · rw [Workspace.isIssued_release]
        split
        · rename_i hother
          rw [hother, h.not_isIssued hkey]
        · rename_i hother
          simp [Workspace.isIssued, lookup_cons_ite, hother]
      · rw [Workspace.lastKey_release]
        exact Nat.le_succ _

theorem Registered.free (h : e.Registered) (pattern : PatternHandle) :
    (e.free pattern).Registered := by
  unfold Engine.free
  split
  · split
    · rename_i held handles hremove
      exact h.released hremove
    · exact h
  · exact h

/-- Requests that are about sources leave the programs and the handles alone. -/
theorem samePrograms_answer (e : Engine) (fs : FileSystem) (request : SourceRequest) :
    (e.answer fs request).2.handles = e.handles ∧
      e.workspace.SamePrograms (e.answer fs request).2.workspace := by
  cases request with
  | load source => exact ⟨rfl, e.workspace.samePrograms_load fs source none⟩
  | loadFile path => exact ⟨rfl, e.workspace.samePrograms_loadFile fs path⟩
  | importPackage name rename =>
    exact ⟨rfl, e.workspace.samePrograms_importPackage fs (Bytes.ofString name) rename⟩
  | setLibpath path => exact ⟨rfl, rfl, rfl, rfl⟩
  | executeRcFile filename => exact ⟨rfl, e.workspace.samePrograms_executeRcFile fs _ _⟩

/-- A limit on memory leaves the workspace and the handles alone. -/
theorem workspace_allocationLimit (e : Engine) (usageKb : Int64) (request : Option Int32) :
    (e.allocationLimit usageKb request).2.handles = e.handles ∧
      (e.allocationLimit usageKb request).2.workspace = e.workspace := by
  unfold allocationLimit
  split
  · exact ⟨rfl, rfl⟩
  · split_ifs
    · exact ⟨rfl, rfl⟩
    · exact ⟨rfl, rfl⟩
    · split <;> exact ⟨rfl, rfl⟩

/-- In every engine that can come about the registries are in step. -/
theorem Reachable.registered (h : e.Reachable) : e.Registered := by
  induction h with
  | boot id installation => exact registered_boot id installation
  | serve _ request ih =>
    cases request with
    | compile expression => exact ih.compile expression
    | free pattern => exact ih.free pattern
  | @answer e _ fs request ih =>
    obtain ⟨hhandles, hsame⟩ := e.samePrograms_answer fs request
    exact ih.of_samePrograms hhandles hsame
  | @allocationLimit e _ usageKb request ih =>
    obtain ⟨hhandles, hworkspace⟩ := e.workspace_allocationLimit usageKb request
    exact ih.of_samePrograms hhandles (hworkspace ▸ .refl _)

/-- The workspace finds the program of a handle that leads somewhere. -/
theorem Registered.of_held? {pattern : PatternHandle} {held : HeldPattern} (h : e.Registered)
    (hheld : e.held? pattern = some held) : e.workspace.isIssued held.key = true ∧
      e.workspace.program? held.key = some held.program := by
  have hprogram : e.workspace.program? held.key = some held.program :=
    (h.program?_eq_some_iff held.key held.program).mpr ⟨pattern.raw, (Engine.of_held? hheld).2⟩
  rw [h.isIssued_eq, hprogram]
  exact ⟨rfl, rfl⟩

end Engine

end PatternEngine
