import PatternEngine.Proofs.Engine.PackageFiles

/-!
# Files that are written

A path that can be opened for writing leads to the place of one file. What is written there is what
the path leads to from then on. What is written elsewhere does not lead it astray, since a file is
put into a directory that exists, and no file is a directory.
-/

namespace PatternEngine

/-- The place of a file that is there or can be made. -/
def FileTarget.place? : FileTarget → Option (List Bytes)
  | .file location _ | .vacant location => some location
  | .directory => none

namespace FileSystem

variable {fs : FileSystem} {place other location parts : List Bytes} {content path : Bytes}
  {target : FileTarget}

/-- The file at a place, or that there is none. -/
def targetAt (fs : FileSystem) (place : List Bytes) : FileTarget :=
  match fs.find? place with
  | some content => .file place content
  | none => .vacant place

/-- Components lead from a directory to the place of a file: all but the last of them lead to
directories, and the last does not. -/
inductive Leads (fs : FileSystem) (place : List Bytes) : List Bytes → List Bytes → Prop
  | stay {location rest : List Bytes} {component : Bytes} (hstay : isStay component = true)
      (hrest : Leads fs place location rest) : Leads fs place location (component :: rest)
  | rise {location rest : List Bytes} {component : Bytes} (hstay : isStay component = false)
      (hrise : isRise component = true) (hne : location ≠ [])
      (hrest : Leads fs place location.dropLast rest) :
      Leads fs place location (component :: rest)
  | enter {location rest : List Bytes} {component : Bytes} (hstay : isStay component = false)
      (hrise : isRise component = false) (hlong : isTooLong component = false)
      (h : fs.isDirectory (location ++ [component]) = true)
      (hrest : Leads fs place (location ++ [component]) rest) :
      Leads fs place location (component :: rest)
  | last {location : List Bytes} {component : Bytes} (hstay : isStay component = false)
      (hrise : isRise component = false) (hlong : isTooLong component = false)
      (hplace : location ++ [component] = place) (h : fs.isDirectory place = false) :
      Leads fs place location [component]

/-- Where components can be followed to the place of a file they lead there. -/
theorem leads_of_follow (h : fs.follow location parts = .ok target)
    (hplace : target.place? = some place) : fs.Leads place location parts := by
  induction parts generalizing location with
  | nil =>
    cases h
    cases hplace
  | cons component rest ih =>
    rw [follow] at h
    split at h
    · rename_i hstay
      exact .stay hstay (ih h)
    rename_i hstay
    split at h
    · rename_i hrise
      split at h
      · cases outside_eq_ok h
        cases hplace
      · rename_i hne
        exact .rise (Bool.eq_false_iff.mpr hstay) hrise hne (ih h)
    rename_i hrise
    split at h
    · cases h
    rename_i hlong
    dsimp only at h
    split at h
    · rename_i hdirectory
      exact .enter (Bool.eq_false_iff.mpr hstay) (Bool.eq_false_iff.mpr hrise)
        (Bool.eq_false_iff.mpr hlong) hdirectory (ih h)
    · rename_i hdirectory
      have hlast (heq : location ++ [component] = place) : fs.Leads place location [component] :=
        .last (Bool.eq_false_iff.mpr hstay) (Bool.eq_false_iff.mpr hrise)
          (Bool.eq_false_iff.mpr hlong) heq (Bool.eq_false_iff.mpr (heq ▸ hdirectory))
      split at h
      · cases h
        exact hlast (Option.some.inj hplace)
      · cases h
      · cases h
        exact hlast (Option.some.inj hplace)
      · cases h

/-- Components that lead to a place are followed to what is there. -/
theorem Leads.follow_eq (h : fs.Leads place location parts) :
    fs.follow location parts = .ok (fs.targetAt place) := by
  induction h with
  | stay hstay hrest ih => rw [follow, if_pos hstay, ih]
  | rise hstay hrise hne hrest ih =>
    rw [follow, if_neg (Bool.eq_false_iff.mp hstay), if_pos hrise, if_neg hne, ih]
  | enter hstay hrise hlong h hrest ih =>
    rw [follow, if_neg (Bool.eq_false_iff.mp hstay), if_neg (Bool.eq_false_iff.mp hrise),
      if_neg (Bool.eq_false_iff.mp hlong)]
    exact (if_pos h).trans ih
  | last hstay hrise hlong hplace h =>
    rw [follow, if_neg (Bool.eq_false_iff.mp hstay), if_neg (Bool.eq_false_iff.mp hrise),
      if_neg (Bool.eq_false_iff.mp hlong), hplace]
    refine (if_neg (Bool.eq_false_iff.mp h)).trans ?_
    rw [targetAt]
    cases fs.find? place <;> rfl

/-! ## Directories -/

theorem isDirectory_iff : fs.isDirectory location = true ↔
    location = [] ∨ ∃ file ∈ fs.files, location <+: file.1 ∧ location.length < file.1.length := by
  simp [isDirectory, List.isEmpty_iff, List.isPrefixOf_iff_prefix]

/-- A file that is put makes the places above it directories, and no others. -/
theorem isDirectory_put_iff : (fs.put other content).isDirectory location = true ↔
    fs.isDirectory location = true ∨ location <+: other ∧ location.length < other.length := by
  rw [isDirectory_iff, isDirectory_iff, put]
  constructor
  · rintro (hnil | ⟨file, hfile, hbelow⟩)
    · exact .inl (.inl hnil)
    · rcases List.mem_cons.mp hfile with rfl | hfile
      · exact .inr hbelow
      · exact .inl (.inr ⟨file, List.mem_of_mem_filter hfile, hbelow⟩)
  · rintro ((hnil | ⟨file, hfile, hbelow⟩) | hbelow)
    · exact .inl hnil
    · by_cases heq : file.1 = other
      · exact .inr ⟨_, List.mem_cons_self, heq ▸ hbelow⟩
      · refine .inr ⟨file, List.mem_cons_of_mem _ (List.mem_filter.mpr ⟨hfile, ?_⟩), hbelow⟩
        rwa [bne_iff_ne]
    · exact .inr ⟨_, List.mem_cons_self, hbelow⟩

/-- The place of a file is no directory. -/
theorem Leads.not_directory (h : fs.Leads place location parts) :
    fs.isDirectory place = false := by
  induction h with
  | stay _ _ ih => exact ih
  | rise _ _ _ _ ih => exact ih
  | enter _ _ _ _ _ ih => exact ih
  | last _ _ _ _ h => exact h

/-- The places above the place of a file are directories. -/
theorem Leads.directory_above (h : fs.Leads place location parts)
    (hlocation : ∀ above, above <+: location → fs.isDirectory above = true) {above : List Bytes}
    (habove : above <+: place) (hlen : above.length < place.length) :
    fs.isDirectory above = true := by
  induction h with
  | stay _ _ ih => exact ih hlocation
  | @rise location rest component _ _ _ _ ih =>
    exact ih fun above habove => hlocation above (habove.trans (List.dropLast_prefix location))
  | @enter location rest component _ _ _ h _ ih =>
    refine ih fun above habove => ?_
    rcases List.prefix_concat_iff.mp habove with rfl | habove
    · exact h
    · exact hlocation above habove
  | last _ _ _ hplace h =>
    subst hplace
    rcases List.prefix_concat_iff.mp habove with rfl | habove
    · exact absurd hlen (Nat.lt_irrefl _)
    · exact hlocation above habove

/-- Components go on to lead to a place when a file is put that is not below it. -/
theorem Leads.put (h : fs.Leads place location parts)
    (hother : ¬(place <+: other ∧ place.length < other.length)) :
    (fs.put other content).Leads place location parts := by
  induction h with
  | stay hstay _ ih => exact .stay hstay ih
  | rise hstay hrise hne _ ih => exact .rise hstay hrise hne ih
  | enter hstay hrise hlong h _ ih =>
    exact .enter hstay hrise hlong (isDirectory_put_iff.mpr (.inl h)) ih
  | last hstay hrise hlong hplace h =>
    refine .last hstay hrise hlong hplace (Bool.eq_false_iff.mpr fun hdirectory => ?_)
    rcases isDirectory_put_iff.mp hdirectory with hdirectory | hbelow
    · exact Bool.eq_false_iff.mp h hdirectory
    · exact hother hbelow

/-! ## Paths -/

/-- A path leads to the place of a file. -/
structure LeadsTo (fs : FileSystem) (path : Bytes) (place : List Bytes) : Prop where
  is_path : checkPath path = .ok ()
  no_directory : path.getLast? ≠ some 0x2f
  relative : path.head? ≠ some 0x2f
  leads : fs.Leads place [] (components path)

theorem LeadsTo.walk_eq (h : fs.LeadsTo path place) : fs.walk path = .ok (fs.targetAt place) := by
  rw [walk, if_neg h.relative, h.leads.follow_eq]

/-- The paths that can be opened for writing are those that lead to the place of a file, which is
emptied. -/
theorem openForWriting_eq_ok_iff {fs' : FileSystem} :
    fs.openForWriting path = .ok (place, fs') ↔ fs.LeadsTo path place ∧ fs' = fs.put place [] := by
  constructor
  · intro h
    obtain ⟨⟨⟩, hpath, h⟩ := Except.exists_of_bind_eq_ok h
    split at h
    · obtain ⟨-, -, h⟩ := Except.exists_of_bind_eq_ok h
      cases h
    rename_i hslash
    obtain ⟨target, htarget, h⟩ := Except.exists_of_bind_eq_ok h
    have hplace : target.place? = some place ∧ fs' = fs.put place [] := by
      cases target with
      | file location content =>
        cases h
        exact ⟨rfl, rfl⟩
      | vacant location =>
        cases h
        exact ⟨rfl, rfl⟩
      | directory => cases h
    rw [walk] at htarget
    split at htarget
    · cases outside_eq_ok htarget
      cases hplace.1
    · rename_i hhead
      exact ⟨⟨hpath, hslash, hhead, leads_of_follow htarget hplace.1⟩, hplace.2⟩
  · rintro ⟨h, rfl⟩
    refine (Except.bind_of_eq_ok h.is_path).trans ((if_neg h.no_directory).trans ?_)
    refine (Except.bind_of_eq_ok h.walk_eq).trans ?_
    rw [targetAt]
    cases fs.find? place <;> rfl

/-- A path that leads to a file is how its content is read. -/
theorem LeadsTo.openForReading_eq (h : fs.LeadsTo path place)
    (hfile : fs.find? place = some content) : fs.openForReading path = .ok (some content) := by
  have hresolve : fs.resolve path = .ok (.file place content) := by
    refine (Except.bind_of_eq_ok h.is_path).trans ?_
    rw [h.walk_eq, targetAt, hfile]
  exact Except.bind_of_eq_ok hresolve

/-- What is put at the place of a file leaves paths where they lead. -/
theorem LeadsTo.put (h : fs.LeadsTo path place) {path' : Bytes} (h' : fs.LeadsTo path' other)
    (content : Bytes) : (fs.put other content).LeadsTo path place := by
  refine ⟨h.is_path, h.no_directory, h.relative, h.leads.put fun ⟨hbegins, hlen⟩ => ?_⟩
  have hroot : ∀ above, above <+: [] → fs.isDirectory above = true := by
    intro above habove
    rw [List.prefix_nil.mp habove]
    rfl
  have hdirectory := h'.leads.directory_above hroot hbegins hlen
  rw [h.leads.not_directory] at hdirectory
  cases hdirectory

/-- What is written to a file is read from it again. -/
theorem LeadsTo.openForReading_put (h : fs.LeadsTo path place) :
    (fs.put place content).openForReading path = .ok (some content) :=
  (h.put h content).openForReading_eq (by rw [find?_put, if_pos rfl])

/-- What is written to two files is read from them again. -/
theorem LeadsTo.openForReading_put_put (h : fs.LeadsTo path place) {path' : Bytes}
    (h' : fs.LeadsTo path' other) (hne : place ≠ other) (content' : Bytes) :
    ((fs.put place content).put other content').openForReading path = .ok (some content) ∧
      ((fs.put place content).put other content').openForReading path' = .ok (some content') := by
  have hboth : ((fs.put place content).put other content').LeadsTo path place :=
    (h.put h content).put (h'.put h content) content'
  have hboth' : ((fs.put place content).put other content').LeadsTo path' other :=
    (h'.put h content).put (h'.put h content) content'
  refine ⟨hboth.openForReading_eq ?_, hboth'.openForReading_eq ?_⟩
  · rw [find?_put, if_neg hne, find?_put, if_pos rfl]
  · rw [find?_put, if_pos rfl]

end FileSystem

end PatternEngine
