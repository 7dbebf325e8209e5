import PatternEngine.Proofs.Engine.RcFiles
import PatternEngine.Proofs.Source.Cursors
import PatternEngine.Proofs.Text.Ascii

/-!
# Rc-files as they are written

A setting is written on a line of its own, with blanks around its parts, and lines that say nothing
may stand anywhere between settings. A line ends with a line feed, before which a carriage return
may stand. Whatever the layout is, and whatever bytes but line feeds the values hold, the settings
of the text are the ones that were written; and a single line that is none of these makes all of it
malformed.
-/

namespace PatternEngine.RcFile

/-! ## Layouts -/

/-- Blanks within a line. -/
structure Gap where
  /-- The blanks. -/
  bytes : Bytes
  /-- There is nothing else. -/
  blank : Blank bytes
  /-- They are on one line. -/
  unbroken : (0x0a : UInt8) ∉ bytes

/-- Any bytes that are on one line. -/
structure OneLine where
  /-- The bytes. -/
  bytes : Bytes
  /-- They are on one line. -/
  unbroken : (0x0a : UInt8) ∉ bytes

/-- A line as it is written. -/
inductive Line where
  /-- There are only blanks. -/
  | blank (gap : Gap)
  /-- Two dashes come first. -/
  | comment (before : Gap) (text : OneLine)
  /-- A key and a value between quotes are joined by an equals sign. -/
  | setting (key : RcKey) (value : OneLine) (before beside behind after : Gap)

/-- The end of a line. -/
inductive LineEnd where
  /-- A line feed. -/
  | lineFeed
  /-- A carriage return and a line feed. -/
  | returnLineFeed

/-- The text of a line. -/
def Line.bytes : Line → Bytes
  | .blank gap => gap.bytes
  | .comment before text => before.bytes ++ 0x2d :: 0x2d :: text.bytes
  | .setting key value before beside behind after =>
    before.bytes ++ (Bytes.ofString key.name ++ (beside.bytes ++ 0x3d :: (behind.bytes ++ 0x22 ::
      (value.bytes ++ 0x22 :: after.bytes))))

/-- What a line sets. -/
def Line.entry : Line → List RcEntry
  | .blank _ | .comment _ _ => []
  | .setting key value _ _ _ _ => [⟨key, value.bytes⟩]

/-- The text of the end of a line. -/
def LineEnd.bytes : LineEnd → Bytes
  | .lineFeed => [0x0a]
  | .returnLineFeed => [0x0d, 0x0a]

/-- The lines of an rc-file, each with its end, and the one that the text ends with. -/
structure Layout where
  /-- The lines. -/
  lines : List (Line × LineEnd)
  /-- What stands behind the end of the last of them. -/
  last : Line

/-- The text of lines. -/
def textOf (lines : List (Line × LineEnd)) (last : Line) : Bytes :=
  lines.flatMap (fun line => line.1.bytes ++ line.2.bytes) ++ last.bytes

/-- The text of an rc-file. -/
def Layout.text (layout : Layout) : Bytes := textOf layout.lines layout.last

/-- What an rc-file sets, in order. -/
def Layout.entries (layout : Layout) : List RcEntry :=
  layout.lines.flatMap (·.1.entry) ++ layout.last.entry

/-- The text has this line, which goes from the start of the text or the end of another line to the
end of the line or the text. -/
def HasLine (content line : Bytes) : Prop :=
  ∃ before after, content = before ++ (line ++ after) ∧ (0x0a : UInt8) ∉ line ∧
    (before = [] ∨ ∃ above, before = above ++ [0x0a]) ∧
    (after = [] ∨ ∃ (lineEnd : LineEnd) (below : Bytes), after = lineEnd.bytes ++ below)

/-! ## Line ends -/

variable {line bytes tail content : Bytes} {entry : RcEntry}

theorem blank_concat_return (h : Blank bytes) : Blank (bytes ++ [0x0d]) :=
  List.forall_mem_append.mpr ⟨h, List.forall_mem_singleton.mpr rfl⟩

/-- What ends with another byte has its carriage return from what is appended. -/
theorem exists_of_concat_return {start : Bytes} {b : UInt8} (hb : b ≠ 0x0d)
    (h : line ++ [0x0d] = start ++ b :: bytes) :
    ∃ before, bytes = before ++ [0x0d] ∧ line = start ++ b :: before := by
  rcases List.eq_nil_or_concat bytes with rfl | ⟨before, last, rfl⟩
  · obtain ⟨-, hlast⟩ := List.append_inj' h rfl
    exact absurd (List.singleton_inj.mp hlast).symm hb
  · rw [List.concat_eq_append, ← List.cons_append, ← List.append_assoc] at h
    obtain ⟨hline, hlast⟩ := List.append_inj' h rfl
    exact ⟨before, by rw [List.concat_eq_append, ← List.singleton_inj.mp hlast], hline⟩

/-- A carriage return at the end of a line does not make it say something. -/
theorem silent_concat_return : Silent (line ++ [0x0d]) ↔ Silent line := by
  constructor
  · intro h
    generalize htext : line ++ [0x0d] = text at h
    cases h with
    | blank h =>
      rw [← htext] at h
      exact .blank (List.forall_mem_append.mp h).1
    | @comment before hbefore text =>
      have hdash := htext.trans (List.append_cons before 0x2d (0x2d :: text))
      obtain ⟨text, -, hline⟩ := exists_of_concat_return (b := 0x2d) (by decide) hdash
      rw [hline, ← List.append_cons]
      exact .comment hbefore text
  · intro h
    cases h with
    | blank h => exact .blank (blank_concat_return h)
    | comment hbefore text =>
      rw [List.append_assoc]
      exact .comment hbefore (text ++ [0x0d])

/-- Nor does it change what the line sets. -/
theorem sets_concat_return : Sets (line ++ [0x0d]) entry ↔ Sets line entry := by
  constructor
  · intro h
    generalize htext : line ++ [0x0d] = text at h
    obtain ⟨key, value, hbefore, hbeside, hbehind, hafter⟩ := h
    rename_i before beside behind after
    have hassoc : before ++ (Bytes.ofString key.name ++ (beside ++ 0x3d :: (behind ++ 0x22 ::
        (value ++ 0x22 :: after)))) =
          (before ++ (Bytes.ofString key.name ++ (beside ++ 0x3d :: (behind ++ 0x22 :: value)))) ++
            0x22 :: after := by simp
    rw [hassoc] at htext
    obtain ⟨after, rfl, rfl⟩ := exists_of_concat_return (by decide) htext
    have hintro : Sets _ ⟨key, value⟩ :=
      .intro key value hbefore hbeside hbehind (List.forall_mem_append.mp hafter).1
    simpa using hintro
  · rintro ⟨key, value, hbefore, hbeside, hbehind, hafter⟩
    have hintro : Sets _ ⟨key, value⟩ :=
      .intro key value hbefore hbeside hbehind (blank_concat_return hafter)
    simpa using hintro

/-- A line is as it is without a carriage return at its end, or has this one more. -/
theorem dropReturn_cases (line : Bytes) :
    dropReturn line = line ∨ dropReturn line ++ [0x0d] = line := by
  unfold dropReturn
  split_ifs with h
  · exact .inr (List.dropLast_append_getLast? _ h)
  · exact .inl rfl

theorem dropReturn_concat (line : Bytes) : dropReturn (line ++ [0x0d]) = line := by
  simp [dropReturn]

/-- The lines of a text that begins with a line. -/
theorem lines_append (h : (0x0a : UInt8) ∉ line) (tail : Bytes) :
    lines (line ++ 0x0a :: tail) = dropReturn line :: lines tail := by
  rw [lines, Bytes.splitOn_append, Bytes.splitOn_of_not_mem h]
  rfl

theorem lines_of_not_mem (h : (0x0a : UInt8) ∉ line) : lines line = [dropReturn line] := by
  rw [lines, Bytes.splitOn_of_not_mem h]
  rfl

/-- What is behind the end of a line is made of lines of its own. -/
theorem lines_above (above tail : Bytes) :
    lines (above ++ 0x0a :: tail) = lines above ++ lines tail := by
  rw [lines, Bytes.splitOn_append, List.map_append, lines, lines]

/-! ## Lines that say the same -/

/-- Two lines say the same. -/
structure SaysAs (line line' : Bytes) : Prop where
  /-- Either both say nothing or none does. -/
  silent : Silent line ↔ Silent line'
  /-- They set the same. -/
  sets : ∀ entry, Sets line entry ↔ Sets line' entry

variable {line' : Bytes}

theorem SaysAs.refl (line : Bytes) : SaysAs line line := ⟨.rfl, fun _ => .rfl⟩

theorem SaysAs.malformed_iff (h : SaysAs line line') : Malformed line ↔ Malformed line' := by
  simp only [Malformed, h.silent, h.sets]

theorem dropReturn_saysAs (line : Bytes) : SaysAs (dropReturn line) line := by
  rcases dropReturn_cases line with h | h
  · rw [h]
    exact .refl line
  · refine ⟨?_, fun entry => ?_⟩
    · rw [← silent_concat_return, h]
    · rw [← sets_concat_return, h]

/-- The first line of a text says what was written, with either end; the others are those of what
is behind the end. -/
theorem exists_lines_lineEnd (h : (0x0a : UInt8) ∉ line) (lineEnd : LineEnd) (tail : Bytes) :
    ∃ first, SaysAs first line ∧ lines (line ++ (lineEnd.bytes ++ tail)) = first :: lines tail := by
  cases lineEnd with
  | lineFeed => exact ⟨_, dropReturn_saysAs line, lines_append h tail⟩
  | returnLineFeed =>
    have hreturn : (0x0a : UInt8) ∉ line ++ [0x0d] := by simpa using h
    have hlines := lines_append hreturn tail
    rw [dropReturn_concat, List.append_assoc] at hlines
    exact ⟨line, .refl line, hlines⟩

/-- A line of a text is among its lines, but for a carriage return at its end. -/
theorem HasLine.exists_mem (h : HasLine content line) :
    ∃ found ∈ lines content, SaysAs found line := by
  obtain ⟨before, after, rfl, hline, habove, hbelow⟩ := h
  have hfirst : ∃ found ∈ lines (line ++ after), SaysAs found line := by
    rcases hbelow with rfl | ⟨lineEnd, below, rfl⟩
    · rw [List.append_nil, lines_of_not_mem hline]
      exact ⟨_, List.mem_singleton_self _, dropReturn_saysAs line⟩
    · obtain ⟨first, hfirst, hlines⟩ := exists_lines_lineEnd hline lineEnd below
      rw [hlines]
      exact ⟨first, List.mem_cons_self, hfirst⟩
  rcases habove with rfl | ⟨above, rfl⟩
  · exact hfirst
  · obtain ⟨found, hmem, hfound⟩ := hfirst
    refine ⟨found, ?_, hfound⟩
    rw [List.append_assoc, List.singleton_append, lines_above]
    exact List.mem_append_right _ hmem

/-! ## The settings of a layout -/

theorem Line.unbroken (line : Line) : (0x0a : UInt8) ∉ line.bytes := by
  cases line with
  | blank gap => exact gap.unbroken
  | comment before text => simp [bytes, before.unbroken, text.unbroken]
  | setting key value before beside behind after =>
    have hkey : (0x0a : UInt8) ∉ Bytes.ofString key.name := by cases key <;> decide
    simp [bytes, hkey, value.unbroken, before.unbroken, beside.unbroken, behind.unbroken,
      after.unbroken]

/-- A line that says what was written sets what it was written to set. -/
theorem Settings.write {lines : List Bytes} {entries : List RcEntry}
    (hrest : Settings lines entries) {first : Bytes} {line : Line}
    (h : SaysAs first line.bytes) :
    Settings (first :: lines) (line.entry ++ entries) := by
  cases line with
  | blank gap => exact .silent (h.silent.mpr (.blank gap.blank)) hrest
  | comment before text => exact .silent (h.silent.mpr (.comment before.blank text.bytes)) hrest
  | setting key value before beside behind after =>
    exact .setting ((h.sets _).mpr
      (.intro key value.bytes before.blank beside.blank behind.blank after.blank)) hrest

/-- The lines of a text set what was written, in order. -/
theorem settings_textOf (written : List (Line × LineEnd)) (last : Line) :
    Settings (lines (textOf written last)) (written.flatMap (·.1.entry) ++ last.entry) := by
  induction written with
  | nil =>
    have hlast : Settings [dropReturn last.bytes] (last.entry ++ []) :=
      Settings.nil.write (dropReturn_saysAs last.bytes)
    rw [List.append_nil] at hlast
    change Settings (lines last.bytes) last.entry
    rw [lines_of_not_mem last.unbroken]
    exact hlast
  | cons line written ih =>
    obtain ⟨first, hfirst, hlines⟩ :=
      exists_lines_lineEnd line.1.unbroken line.2 (textOf written last)
    have htext : textOf (line :: written) last =
        line.1.bytes ++ (line.2.bytes ++ textOf written last) := by simp [textOf]
    rw [htext, hlines, List.flatMap_cons, List.append_assoc]
    exact ih.write hfirst

/-- The settings of a text are the ones that were written. -/
theorem entriesOf?_layout (layout : Layout) :
    entriesOf? (lines layout.text) = some layout.entries :=
  entriesOf?_eq_some_iff.mpr (settings_textOf layout.lines layout.last)

/-- A line that is malformed leaves no settings of the others. -/
theorem entriesOf?_of_malformed (h : HasLine content line) (hbad : Malformed line) :
    entriesOf? (lines content) = none := by
  obtain ⟨found, hmem, hfound⟩ := h.exists_mem
  refine Option.eq_none_iff_forall_ne_some.mpr fun entries hentries => ?_
  exact exists_settings_iff.mp ⟨entries, entriesOf?_eq_some_iff.mp hentries⟩ found hmem
    (hfound.malformed_iff.mpr hbad)

theorem blank_singleton {b : UInt8} (h : Ascii.isBlank b = true) : Blank [b] :=
  List.forall_mem_singleton.mpr h

/-- No blanks. -/
def noGap : Gap := ⟨[], nofun, nofun⟩

/-- A comment, a setting with quotes in its value behind a tab, and no line at the end. -/
def commented : Layout where
  lines :=
    [(.comment noGap ⟨Bytes.ofString " where", by decide⟩, .returnLineFeed),
      (.setting .libpath ⟨Bytes.ofString "a\" = \"--", by decide⟩
        ⟨[0x09], blank_singleton rfl, by decide⟩ noGap noGap noGap, .lineFeed)]
  last := .blank noGap

/-! ## Large texts -/

/-- Many comments and one setting. -/
def chatty : Layout where
  lines :=
    List.replicate 100000 (.comment noGap ⟨Bytes.ofString " comment", by decide⟩, .lineFeed) ++
      [(.setting .libpath ⟨Bytes.ofString "one", by decide⟩ noGap
        ⟨[0x20], blank_singleton rfl, by decide⟩ ⟨[0x20], blank_singleton rfl, by decide⟩ noGap,
        .lineFeed)]
  last := .blank noGap

end PatternEngine.RcFile
