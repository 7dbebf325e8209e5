import PatternEngine.Environment.Load
import PatternEngine.Proofs.Source.Statements
import PatternEngine.Proofs.Text.Ascii

/-!
# The packages that sources name

The package that a source declares and the packages that it imports have names of ASCII letters,
digits and underscores. Such a name is all that is left of it when it is written into a path and
read again.
-/

namespace PatternEngine

/-- The string consists of bytes that may stand in a name. -/
def IsName (name : String) : Prop :=
  ∃ bytes : Bytes, (∀ b ∈ bytes, Ident.isPart b = true) ∧ name = bytes.toAscii

namespace IsName

variable {name : String}

/-- The encoding of a name consists of bytes that may stand in it. -/
theorem isPart_of_mem (h : IsName name) : ∀ b ∈ Bytes.ofString name, Ident.isPart b = true := by
  obtain ⟨bytes, hbytes, rfl⟩ := h
  rwa [Bytes.ofString_toAscii fun b hb => Ident.lt_of_isPart (hbytes b hb)]

/-- A name is in ASCII. -/
theorem isAscii (h : IsName name) : Bytes.IsAscii (Bytes.ofString name) := fun b hb =>
  Ident.lt_of_isPart (h.isPart_of_mem b hb)

/-- A name is the string of the characters of its encoding. -/
theorem toAscii_ofString (h : IsName name) : Bytes.toAscii (Bytes.ofString name) = name := by
  obtain ⟨bytes, hbytes, rfl⟩ := h
  rw [Bytes.ofString_toAscii fun b hb => Ident.lt_of_isPart (hbytes b hb)]

/-- A name is read as it was written. -/
theorem decodeLossy_ofString (h : IsName name) : Utf8.decodeLossy (Bytes.ofString name) = name := by
  rw [Utf8.decodeLossy_of_ascii h.isAscii, h.toAscii_ofString]

/-- Only its own bytes are read as a name. -/
theorem eq_ofString {source : Bytes} (h : IsName (Utf8.decodeLossy source)) :
    source = Bytes.ofString (Utf8.decodeLossy source) := by
  obtain ⟨bytes, hbytes, heq⟩ := h
  have hsource := Utf8.eq_of_decodeLossyChars hbytes (String.ofList_injective heq)
  rw [heq, Bytes.ofString_toAscii fun b hb => Ident.lt_of_isPart (hbytes b hb), hsource]

end IsName

namespace Statement

variable {c d : Cursor} {s : Statement} {ss : List Statement}

/-- The packages that a statement names have names that can be written. -/
def NamesPackages : Statement → Prop
  | .package name _ => IsName name
  | .imports decls _ => ∀ decl ∈ decls, IsName decl.package
  | .bind _ => True

/-- A name without prefix is a name. -/
theorem isName_of_plainName {what : Expected} {name : String}
    (h : plainName what c = .ok (name, d)) : IsName name := by
  unfold plainName at h
  split at h
  · cases h
  rename_i word width hword
  split at h
  · cases h
  rename_i hplain
  cases h
  obtain ⟨qualifier, base⟩ := word
  cases qualifier with
  | some qualifier => exact absurd rfl hplain
  | none =>
    obtain ⟨-, hbase, -⟩ := Ident.ahead?_plain hword
    exact ⟨_, fun b hb => Ident.isPart_of_mem_nameAhead hb, hbase⟩

/-- An import names a package. -/
theorem isName_of_importDecl {decl : ImportDecl} (h : importDecl c = .ok (decl, d)) :
    IsName decl.package := by
  obtain ⟨⟨name, e⟩, hname, h⟩ := Except.exists_of_bind_eq_ok h
  have hisName := isName_of_plainName hname
  change (if e.skipBlanks.atWord "as" then _ else _) = _ at h
  split at h
  · obtain ⟨⟨rename, f⟩, -, h⟩ := Except.exists_of_bind_eq_ok h
    obtain ⟨rfl, -⟩ := Prod.mk.inj (Except.ok.inj h)
    exact hisName
  · obtain ⟨rfl, -⟩ := Prod.mk.inj (Except.ok.inj h)
    exact hisName

/-- All imports of a statement name packages. -/
theorem isName_of_importDeclsFrom (steps : Nat) {read decls : List ImportDecl}
    (hread : ∀ decl ∈ read, IsName decl.package)
    (h : importDeclsFrom steps read c = .ok (decls, d)) : ∀ decl ∈ decls, IsName decl.package := by
  induction steps generalizing read c with
  | zero =>
    obtain ⟨rfl, -⟩ := Prod.mk.inj (Except.ok.inj h)
    exact fun decl hdecl => hread decl (List.mem_reverse.mp hdecl)
  | succ steps ih =>
    obtain ⟨⟨next, e⟩, hnext, h⟩ := Except.exists_of_bind_eq_ok h
    have hmore : ∀ decl ∈ next :: read, IsName decl.package :=
      List.forall_mem_cons.mpr ⟨isName_of_importDecl hnext, hread⟩
    change (if e.skipBlanks.peek? == some 0x2c then _ else _) = _ at h
    split at h
    · exact ih hmore h
    · obtain ⟨rfl, -⟩ := Prod.mk.inj (Except.ok.inj h)
      exact fun decl hdecl => hmore decl (List.mem_reverse.mp hdecl)

/-- A statement that is read names packages. -/
theorem namesPackages_of_statement (h : statement c = .ok (s, d)) : s.NamesPackages := by
  unfold statement at h
  split at h
  · cases h
  dsimp only at h
  split at h
  · obtain ⟨⟨name, e⟩, hname, h⟩ := Except.exists_of_bind_eq_ok h
    obtain ⟨rfl, -⟩ := Prod.mk.inj (Except.ok.inj h)
    exact isName_of_plainName hname
  split at h
  · obtain ⟨⟨decls, e⟩, hdecls, h⟩ := Except.exists_of_bind_eq_ok h
    obtain ⟨rfl, -⟩ := Prod.mk.inj (Except.ok.inj h)
    exact isName_of_importDeclsFrom _ (List.forall_mem_nil _) hdecls
  · obtain ⟨⟨definition, e⟩, -, h⟩ := Except.exists_of_bind_eq_ok h
    obtain ⟨rfl, -⟩ := Prod.mk.inj (Except.ok.inj h)
    trivial

/-- All statements of a source name packages. -/
theorem Reads.namesPackages (h : Reads c ss) : ∀ s ∈ ss, s.NamesPackages := by
  induction h with
  | done _ => nofun
  | step h _ ih => exact List.forall_mem_cons.mpr ⟨namesPackages_of_statement h, ih⟩

/-- What follows the prefix of an identifier is a name. -/
theorem isName_of_ahead? {bytes : Bytes} {word : Ident} {width : Nat}
    (h : Ident.ahead? bytes = some (word, width)) : IsName word.base := by
  obtain ⟨-, ⟨rfl, -⟩ | ⟨rest, -, -, rfl, -⟩⟩ := Ident.ahead?_cases h
  · exact ⟨_, fun b hb => Ident.isPart_of_mem_nameAhead hb, rfl⟩
  · exact ⟨_, fun b hb => Ident.isPart_of_mem_nameAhead hb, rfl⟩

/-- The word behind the modifiers is a name. -/
theorem isName_of_modifiersFrom (steps : Nat) {modifiers modifiers' : Modifiers}
    {word name : Ident} (hword : IsName word.base)
    (h : modifiersFrom steps modifiers word c = .ok ((modifiers', name), d)) :
    IsName name.base := by
  induction steps generalizing modifiers word c with
  | zero =>
    cases h
    exact hword
  | succ steps ih =>
    rw [modifiersFrom] at h
    split at h
    · cases h
      exact hword
    · dsimp only at h
      split at h
      · cases h
      · rename_i hnext
        exact ih (isName_of_ahead? hnext) h

/-- A binding binds a name. -/
theorem isName_of_binding {first : Cursor} {word : Ident} {definition : Binding}
    (hword : IsName word.base) (h : binding first word c = .ok (definition, d)) :
    IsName definition.name := by
  obtain ⟨⟨⟨modifiers, name⟩, e⟩, hname, h⟩ := Except.exists_of_bind_eq_ok h
  have hisName := isName_of_modifiersFrom 3 hword hname
  dsimp only at h
  split at h
  · cases h
  split at h
  · cases h
  split at h
  · cases h
  split at h
  · cases h
  obtain ⟨⟨body, f⟩, -, h⟩ := Except.exists_of_bind_eq_ok h
  obtain ⟨rfl, -⟩ := Prod.mk.inj (Except.ok.inj h)
  exact hisName

/-- A statement that binds something binds a name. -/
theorem isName_of_bind {definition : Binding} (h : statement c = .ok (.bind definition, d)) :
    IsName definition.name := by
  unfold statement at h
  split at h
  · cases h
  rename_i word width hword
  dsimp only at h
  split at h
  · obtain ⟨⟨name, e⟩, -, h⟩ := Except.exists_of_bind_eq_ok h
    cases h
  split at h
  · obtain ⟨⟨decls, e⟩, -, h⟩ := Except.exists_of_bind_eq_ok h
    cases h
  · obtain ⟨⟨found, e⟩, hfound, h⟩ := Except.exists_of_bind_eq_ok h
    cases h
    exact isName_of_binding (isName_of_ahead? hword) hfound

/-- All bindings of a source bind names. -/
theorem Reads.isName_of_bind (h : Reads c ss) :
    ∀ definition, .bind definition ∈ ss → IsName definition.name := by
  induction h with
  | done _ => nofun
  | step h _ ih =>
    intro definition hmem
    rcases List.mem_cons.mp hmem with rfl | hmem
    · exact Statement.isName_of_bind h
    · exact ih definition hmem

end Statement

namespace SourceUnit

/-- The packages that a source declares and imports have names that can be written. -/
structure NamesPackages (source : SourceUnit) : Prop where
  package : ∀ name ∈ source.package, IsName name
  imports : ∀ decl ∈ source.imports, IsName decl.package

/-- Sorting the statements of a source keeps what they name. -/
theorem namesPackages_collectFrom {sorted : SourceUnit} {seen : Dictionary Nat}
    {statements : List Statement} (hsorted : sorted.NamesPackages)
    (h : ∀ s ∈ statements, s.NamesPackages) :
    (collectFrom sorted seen statements).NamesPackages := by
  induction statements generalizing sorted seen with
  | nil => exact hsorted
  | cons s statements ih =>
    obtain ⟨hs, hrest⟩ := List.forall_mem_cons.mp h
    cases s with
    | package name pos =>
      refine ih ⟨fun other hother => ?_, hsorted.imports⟩ hrest
      cases hother
      exact hs
    | imports decls pos =>
      refine ih ⟨hsorted.package, fun decl hdecl => ?_⟩ hrest
      rcases List.mem_append.mp hdecl with hold | hnew
      · exact hsorted.imports decl hold
      · exact hs decl hnew
    | bind binding =>
      rw [collectFrom]
      split
      · exact ih ⟨hsorted.package, hsorted.imports⟩ hrest
      · exact ih ⟨hsorted.package, hsorted.imports⟩ hrest

/-- A source that can be read names packages. -/
theorem namesPackages_of_readUnit {text : String} {source : SourceUnit}
    (h : Environment.readUnit text = .ok source) : source.NamesPackages := by
  unfold Environment.readUnit at h
  split at h
  · rename_i statements hstatements
    cases h
    have hbytes := Except.mapError_eq_ok.mp hstatements
    have hreads := (Statement.listOfBytes_eq_ok_iff.mp hbytes).1
    exact namesPackages_collectFrom ⟨nofun, nofun⟩ hreads.namesPackages
  · cases h

end SourceUnit

end PatternEngine
