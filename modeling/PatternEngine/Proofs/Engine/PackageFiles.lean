import PatternEngine.Engine.Import
import PatternEngine.Proofs.Source.Names

/-!
# The files of packages

The source of a package is looked for in a file that has the name of the package, whatever the
directory. So each package that is loaded from the library path has a file of its own, and the files
of packages that are not loaded are counted down when one is.
-/

namespace PatternEngine

/-- Fewer elements pass a test that is stricter on one of them. -/
theorem List.countP_lt_countP {α : Type} {p q : α → Bool} {xs : List α}
    (h : ∀ x ∈ xs, q x = true → p x = true) {x : α} (hx : x ∈ xs) (hp : p x = true)
    (hq : q x = false) : xs.countP q < xs.countP p := by
  obtain ⟨before, after, rfl⟩ := List.append_of_mem hx
  have hbefore : before.countP q ≤ before.countP p :=
    List.countP_mono_left fun y hy => h y (List.mem_append_left _ hy)
  have hafter : after.countP q ≤ after.countP p :=
    List.countP_mono_left fun y hy => h y (List.mem_append_right _ (List.mem_cons_of_mem _ hy))
  rw [List.countP_append, List.countP_append, List.countP_cons, List.countP_cons, if_pos hp,
    if_neg (Bool.eq_false_iff.mp hq)]
  omega

namespace FileSystem

variable {fs : FileSystem} {found : List Bytes} {content : Bytes}

/-- Outside of the tree there are no files. -/
theorem outside_eq_ok {components : List Bytes} {target : FileTarget}
    (h : outside components = .ok target) : target = .directory := by
  induction components with
  | nil =>
    cases h
    rfl
  | cons component components ih =>
    rw [outside] at h
    split at h
    · exact ih h
    · split at h
      · cases h
      · cases h

/-- Components that lead to a file end with its name. -/
theorem follow_eq_file {location components : List Bytes}
    (h : fs.follow location components = .ok (.file found content)) :
    found.getLast? = components.getLast? ∧ (found, content) ∈ fs.files := by
  induction components generalizing location with
  | nil => cases h
  | cons component components ih =>
    have hmore : ∀ location, fs.follow location components = .ok (.file found content) →
        found.getLast? = (component :: components).getLast? ∧ (found, content) ∈ fs.files := by
      intro location h
      obtain ⟨hlast, hmem⟩ := ih h
      cases components with
      | nil => cases h
      | cons next components => exact ⟨hlast.trans List.getLast?_cons_cons.symm, hmem⟩
    rw [follow] at h
    dsimp only at h
    split at h
    · exact hmore _ h
    split at h
    · split at h
      · cases outside_eq_ok h
      · exact hmore _ h
    split at h
    · cases h
    split at h
    · exact hmore _ h
    · split at h
      · rename_i hfind
        cases h
        obtain ⟨before, after, hfiles, -⟩ := List.lookup_eq_some_iff.mp hfind
        refine ⟨List.getLast?_concat, ?_⟩
        rw [hfiles]
        exact List.mem_append_right _ List.mem_cons_self
      · cases h
      · cases h
      · cases h

/-- A path that leads to a file ends with its name. -/
theorem exists_file_of_openForReading {path : Bytes}
    (h : fs.openForReading path = .ok (some content)) :
    ∃ found, found.getLast? = (components path).getLast? ∧ (found, content) ∈ fs.files := by
  obtain ⟨target, htarget, h⟩ := Except.exists_of_bind_eq_ok h
  obtain ⟨-, -, hwalk⟩ := Except.exists_of_bind_eq_ok htarget
  unfold walk at hwalk
  split at h
  · rename_i found _
    cases h
    split at hwalk
    · cases outside_eq_ok hwalk
    · exact ⟨found, follow_eq_file hwalk⟩
  · cases h
  · cases h

end FileSystem

namespace Import

variable {fs : FileSystem} {name path : String} {content : Bytes}

/-- The source of a package is in a file that can be read. -/
theorem of_findIn {source : Bytes} {dirs : List Bytes}
    (h : findIn fs source dirs = .ok (some (path, content))) :
    (∃ dir, Utf8.decode? (sourcePath dir source) = some path) ∧
      fs.openForReading (Bytes.ofString path) = .ok (some content) := by
  induction dirs with
  | nil => cases h
  | cons dir dirs ih =>
    rw [findIn] at h
    split at h
    · cases h
    rename_i path' hpath
    split at h
    · exact ih h
    · cases h
    · rename_i content' hcontent
      cases h
      exact ⟨⟨dir, hpath⟩, hcontent⟩

/-- The package that a file would be of by its name. -/
def packageOf (location : List Bytes) : String :=
  let file := location.getLastD []
  Utf8.decodeLossy (file.take (file.length - 4))

/-- A package that is found has a file of its own. -/
theorem exists_file_of_findIn (hname : IsName name) {dirs : List Bytes}
    (h : findIn fs (Bytes.ofString name) dirs = .ok (some (path, content))) :
    ∃ file ∈ fs.files, packageOf file.1 = name := by
  obtain ⟨⟨dir, hpath⟩, hcontent⟩ := of_findIn h
  have hascii : Bytes.IsAscii (0x2f :: (Bytes.ofString name ++ Bytes.ofString ".rpl")) := by
    have hsuffix : ((Bytes.ofString ".rpl").all fun b => b < 0x80) = true := by decide
    refine List.forall_mem_cons.mpr ⟨by decide, fun b hb => ?_⟩
    rcases List.mem_append.mp hb with hb | hb
    · exact hname.isAscii b hb
    · exact of_decide_eq_true (List.all_eq_true.mp hsuffix b hb)
  have hslash : 0x2f ∉ Bytes.ofString name ++ Bytes.ofString ".rpl" := by
    intro hmem
    rcases List.mem_append.mp hmem with hmem | hmem
    · have hpart := hname.isPart_of_mem _ hmem
      revert hpart
      decide
    · revert hmem
      decide
  have hsource : sourcePath dir (Bytes.ofString name) =
      dir ++ 0x2f :: (Bytes.ofString name ++ Bytes.ofString ".rpl") := by
    simp [sourcePath]
  rw [hsource] at hpath
  obtain ⟨first, hfirst⟩ := Utf8.exists_of_decode?_append hascii hpath
  obtain ⟨found, hlast, hmem⟩ := FileSystem.exists_file_of_openForReading hcontent
  refine ⟨_, hmem, ?_⟩
  have hfile : found.getLastD [] = Bytes.ofString name ++ Bytes.ofString ".rpl" := by
    rw [List.getLastD_eq_getLast?, hlast, hfirst, FileSystem.components, Bytes.splitOn_append,
      Bytes.splitOn_of_not_mem hslash, List.getLast?_concat]
    rfl
  have hlength : (Bytes.ofString ".rpl").length = 4 := by decide
  rw [packageOf, hfile, List.length_append, hlength, Nat.add_sub_cancel, List.take_left,
    hname.decodeLossy_ofString]

/-- How many files are of packages that are not loaded. -/
def missing (fs : FileSystem) (env : Environment) : Nat :=
  fs.files.countP fun file => !env.hasPackage (packageOf file.1)

theorem missing_le (fs : FileSystem) (env : Environment) : missing fs env ≤ fs.files.length :=
  List.countP_le_length

variable {env env' : Environment}

/-- No further file is of a package that is not loaded when more packages are. -/
theorem missing_mono (h : ∀ p, env.hasPackage p = true → env'.hasPackage p = true) :
    missing fs env' ≤ missing fs env := by
  refine List.countP_mono_left fun file _ hfile => ?_
  rw [Bool.not_eq_true'] at hfile ⊢
  exact Bool.eq_false_iff.mpr fun hloaded => Bool.eq_false_iff.mp hfile (h _ hloaded)

/-- A file fewer is of a package that is not loaded when a package is loaded that has one. -/
theorem missing_lt (h : ∀ p, env.hasPackage p = true → env'.hasPackage p = true)
    (hfile : ∃ file ∈ fs.files, packageOf file.1 = name) (hbefore : env.hasPackage name = false)
    (hafter : env'.hasPackage name = true) : missing fs env' < missing fs env := by
  obtain ⟨file, hmem, rfl⟩ := hfile
  refine List.countP_lt_countP ?_ hmem ?_ ?_
  · intro file _ hfile
    rw [Bool.not_eq_true'] at hfile ⊢
    exact Bool.eq_false_iff.mpr fun hloaded => Bool.eq_false_iff.mp hfile (h _ hloaded)
  · rw [hbefore]
    rfl
  · rw [hafter]
    rfl

end Import

end PatternEngine
