import Mathlib.Data.List.TakeWhile
import PatternEngine.Proofs.Engine.CompleteImports

/-!
# Carrying out rc-files

An rc-file that has a malformed line is passed over as a whole. Any other is carried out setting by
setting, in the order of its lines, and each setting is carried out where the ones before it led,
also if one of them did not go well.
-/

namespace PatternEngine

/-! ## Lines -/

namespace RcFile

variable {line bytes rest value : Bytes} {lines : List Bytes} {entry : RcEntry}
  {entries : List RcEntry}

/-- There is nothing but blanks. -/
def Blank (bytes : Bytes) : Prop := ∀ b ∈ bytes, Ascii.isBlank b = true

/-- A line that says nothing. -/
inductive Silent : Bytes → Prop
  /-- There is nothing on the line. -/
  | blank {line : Bytes} (h : Blank line) : Silent line
  /-- Two dashes come first. -/
  | comment {before : Bytes} (h : Blank before) (text : Bytes) :
    Silent (before ++ 0x2d :: 0x2d :: text)

/-- A line that says what the setting is: a key and a quoted value joined by an equals sign, with
blanks around them. Any bytes may stand in the value, quotes included. -/
inductive Sets : Bytes → RcEntry → Prop
  | intro {before beside behind after : Bytes} (key : RcKey) (value : Bytes)
    (hbefore : Blank before) (hbeside : Blank beside) (hbehind : Blank behind)
    (hafter : Blank after) :
    Sets (before ++ (Bytes.ofString key.name ++ (beside ++ 0x3d :: (behind ++ 0x22 ::
      (value ++ 0x22 :: after))))) ⟨key, value⟩

/-- A line that says something else. -/
def Malformed (line : Bytes) : Prop := ¬Silent line ∧ ∀ entry, ¬Sets line entry

/-- The settings of some lines, in order. -/
inductive Settings : List Bytes → List RcEntry → Prop
  /-- There is no line. -/
  | nil : Settings [] []
  /-- A line that says nothing is passed over. -/
  | silent {line : Bytes} {lines : List Bytes} {entries : List RcEntry} (h : Silent line)
    (hrest : Settings lines entries) : Settings (line :: lines) entries
  /-- A line has one setting. -/
  | setting {line : Bytes} {lines : List Bytes} {entry : RcEntry} {entries : List RcEntry}
    (h : Sets line entry) (hrest : Settings lines entries) :
    Settings (line :: lines) (entry :: entries)

theorem trimStart_append (h : Blank bytes) (rest : Bytes) :
    Bytes.trimStart (bytes ++ rest) = rest.trimStart := List.dropWhile_append_of_pos h

theorem trimStart_cons {b : UInt8} (h : Ascii.isBlank b = false) (rest : Bytes) :
    Bytes.trimStart (b :: rest) = b :: rest := List.dropWhile_cons_of_neg (Bool.eq_false_iff.mp h)

theorem exists_trimStart (bytes : Bytes) : ∃ before, Blank before ∧
    bytes = before ++ bytes.trimStart :=
  ⟨bytes.takeWhile Ascii.isBlank, fun _ => List.mem_takeWhile_imp,
    List.takeWhile_append_dropWhile.symm⟩

theorem exists_trimEnd (bytes : Bytes) : ∃ after, Blank after ∧ bytes = bytes.trimEnd ++ after := by
  obtain ⟨after, hafter, heq⟩ := exists_trimStart bytes.reverse
  refine ⟨after.reverse, fun b hb => hafter b (List.mem_reverse.mp hb), ?_⟩
  rw [Bytes.trimEnd, ← List.reverse_append]
  exact List.reverse_eq_iff.mp heq

/-- Lines are passed over that are blank or start with two dashes. -/
theorem isSilent_iff : isSilent line = true ↔ Silent line := by
  constructor
  · intro h
    obtain ⟨before, hbefore, heq⟩ := exists_trimStart line
    rcases Bool.or_eq_true_iff.mp h with hempty | hdashes
    · rw [List.isEmpty_iff.mp hempty, List.append_nil] at heq
      rw [heq]
      exact .blank hbefore
    · obtain ⟨text, htext⟩ := List.isPrefixOf_iff_prefix.mp hdashes
      rw [heq, ← htext]
      exact .comment hbefore text
  · rintro (hline | ⟨hbefore, text⟩)
    · rw [isSilent, Bytes.trimStart, List.dropWhile_eq_nil_iff.mpr hline]
      rfl
    · rw [isSilent, trimStart_append hbefore, trimStart_cons rfl]
      rfl

/-- The value ends before the last quote, behind which there are only blanks. -/
theorem value?_eq_some_iff : value? rest = some value ↔
    ∃ after, Blank after ∧ rest = value ++ 0x22 :: after := by
  unfold value?
  dsimp only
  constructor
  · intro h
    split at h
    · rename_i hquote
      cases h
      obtain ⟨after, hafter, heq⟩ := exists_trimEnd rest
      refine ⟨after, hafter, ?_⟩
      rw [← List.singleton_append, ← List.append_assoc, List.dropLast_append_getLast? _ hquote]
      exact heq
    · cases h
  · rintro ⟨after, hafter, rfl⟩
    have htrim : Bytes.trimEnd (value ++ 0x22 :: after) = value ++ [0x22] := by
      have hblank : Blank after.reverse := fun b hb => hafter b (List.mem_reverse.mp hb)
      have hreverse : (value ++ 0x22 :: after).reverse =
          after.reverse ++ 0x22 :: value.reverse := by simp
      rw [Bytes.trimEnd, hreverse]
      change (Bytes.trimStart _).reverse = _
      rw [trimStart_append hblank, trimStart_cons rfl]
      simp
    rw [htrim, if_pos List.getLast?_concat, List.dropLast_concat]

/-- A key is known by its name alone. -/
theorem ofName?_eq_some_iff {text : Bytes} {key : RcKey} :
    RcKey.ofName? text = some key ↔ Bytes.ofString key.name = text := by
  constructor
  · intro h
    unfold RcKey.ofName? at h
    have hname := List.find?_some h
    exact eq_of_beq hname
  · rintro rfl
    cases key <;> cbv

theorem isKeyPart_of_mem_name (key : RcKey) :
    ∀ b ∈ Bytes.ofString key.name, isKeyPart b = true := by
  cases key <;> decide +kernel

theorem isBlank_eq_false_of_isKeyPart {b : UInt8} (h : isKeyPart b = true) :
    Ascii.isBlank b = false := by
  revert b
  decide +kernel

/-- A key ends where a blank or the equals sign stands. -/
theorem takeWhile_isKeyPart {beside : Bytes} (key : RcKey) (h : Blank beside) (rest : Bytes) :
    (Bytes.ofString key.name ++ (beside ++ 0x3d :: rest)).takeWhile isKeyPart =
      Bytes.ofString key.name := by
  rw [List.takeWhile_append_of_pos (isKeyPart_of_mem_name key)]
  have hstop : (beside ++ 0x3d :: rest).takeWhile isKeyPart = [] := by
    cases beside with
    | nil => rfl
    | cons b beside =>
      refine List.takeWhile_cons_of_neg fun hpart => ?_
      cases (h b List.mem_cons_self).symm.trans (isBlank_eq_false_of_isKeyPart hpart)
  rw [hstop, List.append_nil]

/-- A key starts the line that it stands on, but for blanks. -/
theorem trimStart_name (key : RcKey) (rest : Bytes) :
    Bytes.trimStart (Bytes.ofString key.name ++ rest) = Bytes.ofString key.name ++ rest := by
  cases key <;> exact trimStart_cons rfl _

/-- A line is read as what it sets. -/
theorem sets_iff : entry? line = some entry ↔ Sets line entry := by
  constructor
  · intro h
    unfold entry? at h
    dsimp only at h
    obtain ⟨before, hbefore, hline⟩ := exists_trimStart line
    generalize line.trimStart = text at h hline
    obtain ⟨beside, hbeside, hsign⟩ :=
      exists_trimStart (text.drop (text.takeWhile isKeyPart).length)
    split at h
    · rename_i rest heq
      obtain ⟨behind, hbehind, hquote⟩ := exists_trimStart rest
      split at h
      · rename_i rest' heq'
        obtain ⟨key, hkey, h⟩ := Option.bind_eq_some_iff.mp h
        obtain ⟨value, hvalue, h⟩ := Option.bind_eq_some_iff.mp h
        cases h
        obtain ⟨after, hafter, hrest'⟩ := value?_eq_some_iff.mp hvalue
        have htext : text = Bytes.ofString key.name ++
            (beside ++ 0x3d :: (behind ++ 0x22 :: (value ++ 0x22 :: after))) := by
          rw [ofName?_eq_some_iff.mp hkey, ← hrest', ← heq', ← hquote, ← heq, ← hsign]
          exact (List.prefix_iff_eq_append.mp (List.takeWhile_prefix isKeyPart)).symm
        rw [hline, htext]
        exact .intro key value hbefore hbeside hbehind hafter
      · cases h
    · cases h
  · rintro ⟨key, value, hbefore, hbeside, hbehind, hafter⟩
    unfold entry?
    simp only [trimStart_append hbefore, trimStart_name, takeWhile_isKeyPart key hbeside,
      List.drop_left, trimStart_append hbeside, trimStart_append hbehind,
      trimStart_cons (b := 0x3d) rfl, trimStart_cons (b := 0x22) rfl]
    rw [ofName?_eq_some_iff.mpr rfl, value?_eq_some_iff.mpr ⟨_, hafter, rfl⟩]
    rfl

/-- A line that sets something is not passed over. -/
theorem Sets.not_silent (h : Sets line entry) : isSilent line = false := by
  obtain ⟨key, value, hbefore, hbeside, hbehind, hafter⟩ := h
  rw [isSilent, trimStart_append hbefore, trimStart_name]
  cases key <;> rfl

/-- The settings of a file are those of its lines. -/
theorem entriesOf?_eq_some_iff : entriesOf? lines = some entries ↔ Settings lines entries := by
  constructor
  · intro h
    induction lines generalizing entries with
    | nil =>
      cases h
      exact .nil
    | cons line lines ih =>
      unfold entriesOf? at h
      cases hsilent : isSilent line with
      | true =>
        rw [List.filter_cons_of_neg (by simp [hsilent])] at h
        exact .silent (isSilent_iff.mp hsilent) (ih h)
      | false =>
        rw [List.filter_cons_of_pos (by simp [hsilent]), List.mapM_cons] at h
        obtain ⟨entry, hentry, h⟩ := Option.bind_eq_some_iff.mp h
        obtain ⟨rest, hrest, h⟩ := Option.bind_eq_some_iff.mp h
        cases h
        exact .setting (sets_iff.mp hentry) (ih hrest)
  · intro h
    induction h with
    | nil => rfl
    | silent h hrest ih =>
      rw [entriesOf?, List.filter_cons_of_neg (by simp [isSilent_iff.mpr h])]
      exact ih
    | setting h hrest ih =>
      rw [entriesOf?, List.filter_cons_of_pos (by simp [h.not_silent]), List.mapM_cons,
        sets_iff.mpr h]
      change (entriesOf? _).bind _ = _
      rw [ih]
      rfl

/-- A file has settings unless one of its lines is malformed. -/
theorem exists_settings_iff :
    (∃ entries, Settings lines entries) ↔ ∀ line ∈ lines, ¬Malformed line := by
  constructor
  · rintro ⟨entries, h⟩
    induction h with
    | nil => exact nofun
    | silent h hrest ih => exact List.forall_mem_cons.mpr ⟨fun hbad => hbad.1 h, ih⟩
    | setting h hrest ih => exact List.forall_mem_cons.mpr ⟨fun hbad => hbad.2 _ h, ih⟩
  · intro h
    induction lines with
    | nil => exact ⟨[], .nil⟩
    | cons line lines ih =>
      obtain ⟨hline, hlines⟩ := List.forall_mem_cons.mp h
      obtain ⟨entries, hentries⟩ := ih hlines
      by_cases hsilent : Silent line
      · exact ⟨entries, .silent hsilent hentries⟩
      · obtain ⟨entry, hentry⟩ : ∃ entry, Sets line entry := by
          by_contra hnone
          exact hline ⟨hsilent, not_exists.mp hnone⟩
        exact ⟨entry :: entries, .setting hentry hentries⟩

end RcFile

/-! ## Settings -/

namespace Engine

variable {fs : FileSystem} {e middle after : Engine} {entry : RcEntry} {entries : List RcEntry}
  {ok : Bool} {oks : List Bool}

/-- Carrying out a setting leads from one engine to another; a load and an import tell whether all
went well. -/
inductive Performs (fs : FileSystem) : Engine → RcEntry → Bool → Engine → Prop
  /-- Packages are looked for in other directories, as the rc-file says. -/
  | libpath (e : Engine) (value : Bytes) : Performs fs e ⟨.libpath, value⟩ true
      { e with workspace := e.workspace.setLibpath value .rcFile }
  /-- The colours are set. -/
  | colors (e : Engine) (value : Bytes) : Performs fs e ⟨.colors, value⟩ true
      { e with workspace.palette := e.workspace.palette.set value }
  /-- The source in a file is loaded. -/
  | loadfile {e after : Engine} {value : Bytes} {path : String} {reply : LoadReply}
    (hpath : Utf8.decode? value = some path) (h : e.loadFile fs path = (.ok reply, after)) :
    Performs fs e ⟨.loadfile, value⟩ reply.ok after
  /-- A package is imported under its own name, which may be any bytes. -/
  | importPackage {e after : Engine} {value : Bytes} {reply : LoadReply}
    (h : e.settleLoad (e.workspace.importPackage fs value none) = (.ok reply, after)) :
    Performs fs e ⟨.importPackage, value⟩ reply.ok after

/-- Settings are carried out one after the other, and this is how each of them goes. -/
inductive Replays (fs : FileSystem) : Engine → List RcEntry → List Bool → Engine → Prop
  /-- There is nothing to carry out. -/
  | nil (e : Engine) : Replays fs e [] [] e
  /-- The first setting is carried out, and then the others, however it went. -/
  | cons {e middle after : Engine} {entry : RcEntry} {entries : List RcEntry} {ok : Bool}
    {oks : List Bool} (h : Performs fs e entry ok middle)
    (hrest : Replays fs middle entries oks after) :
    Replays fs e (entry :: entries) (ok :: oks) after

/-- A load that comes to an end changes the workspace, and the reply tells whether all went well. -/
theorem exists_settleLoad_iff {result : Except EngineError LoadReply × Workspace} :
    (∃ reply, e.settleLoad result = (.ok reply, after) ∧ ok = reply.ok) ↔
      ∃ w, (result.1.map (·.ok), result.2) = (.ok ok, w) ∧ after = { e with workspace := w } := by
  obtain ⟨reply, w⟩ := result
  cases reply with
  | error fault => simp [settleLoad, Except.map]
  | ok reply => simp [settleLoad, Except.map, eq_comm, and_comm]

/-- To carry out a setting is to change the workspace. -/
theorem performs_iff : Performs fs e entry ok after ↔
    ∃ w, e.workspace.applyEntry fs entry = (.ok ok, w) ∧ after = { e with workspace := w } := by
  constructor
  · intro h
    cases h with
    | libpath value => exact ⟨_, rfl, rfl⟩
    | colors value => exact ⟨_, rfl, rfl⟩
    | loadfile hpath h =>
      obtain ⟨w, hw, rfl⟩ := exists_settleLoad_iff.mp ⟨_, h, rfl⟩
      refine ⟨w, ?_, rfl⟩
      simp only [Workspace.applyEntry, hpath]
      exact hw
    | importPackage h =>
      obtain ⟨w, hw, rfl⟩ := exists_settleLoad_iff.mp ⟨_, h, rfl⟩
      exact ⟨w, hw, rfl⟩
  · rintro ⟨w, hw, rfl⟩
    obtain ⟨key, value⟩ := entry
    cases key with
    | libpath =>
      cases hw
      exact .libpath e value
    | colors =>
      cases hw
      exact .colors e value
    | loadfile =>
      simp only [Workspace.applyEntry] at hw
      split at hw
      · cases hw
      · rename_i path hpath
        obtain ⟨reply, hreply, rfl⟩ := exists_settleLoad_iff.mpr ⟨w, hw, rfl⟩
        exact .loadfile hpath hreply
    | importPackage =>
      obtain ⟨reply, hreply, rfl⟩ := exists_settleLoad_iff.mpr ⟨w, hw, rfl⟩
      exact .importPackage hreply

/-- To carry out settings is to carry out each where the ones before it led. -/
theorem replays_iff : (∃ oks : List Bool, Replays fs e entries oks after ∧ ok = oks.all (·)) ↔
    ∃ w, e.workspace.applyEntries fs entries = (.ok ok, w) ∧ after = { e with workspace := w } := by
  induction entries generalizing e ok with
  | nil =>
    constructor
    · rintro ⟨oks, ⟨⟩, rfl⟩
      exact ⟨_, rfl, rfl⟩
    · rintro ⟨w, hw, rfl⟩
      cases hw
      exact ⟨[], .nil _, rfl⟩
  | cons entry entries ih =>
    rw [Workspace.applyEntries]
    constructor
    · rintro ⟨oks, hreplays, rfl⟩
      cases hreplays with
      | cons hfirst hrest =>
        -- The others start where the first one led, whatever it told.
        obtain ⟨w, hw, rfl⟩ := performs_iff.mp hfirst
        obtain ⟨w', hw', rfl⟩ := ih.mp ⟨_, hrest, rfl⟩
        rw [hw]
        dsimp only at hw' ⊢
        rw [hw']
        exact ⟨w', rfl, rfl⟩
    · rintro ⟨w, hw, rfl⟩
      cases hfirst : e.workspace.applyEntry fs entry with
      | mk first w' =>
        rw [hfirst] at hw
        cases first with
        | error fault => cases hw
        | ok first =>
          cases hrest : w'.applyEntries fs entries with
          | mk rest w'' =>
            dsimp only at hw
            rw [hrest] at hw
            cases rest with
            | error fault => cases hw
            | ok rest =>
              cases hw
              obtain ⟨oks, hreplays, rfl⟩ :=
                (ih (e := { e with workspace := w' })).mpr ⟨w'', hrest, rfl⟩
              exact ⟨first :: oks, .cons (performs_iff.mpr ⟨w', hfirst, rfl⟩) hreplays, rfl⟩

/-- What is told of a file is how its settings went. -/
theorem replays_outcome_iff {file : String} {outcome : RcFileOutcome} :
    ((e.workspace.applyEntries fs entries).1.map fun ok => (⟨file, true, ok⟩ : RcFileOutcome),
        { e with workspace := (e.workspace.applyEntries fs entries).2 }) = (.ok outcome, after) ↔
      ∃ oks, Replays fs e entries oks after ∧ outcome = ⟨file, true, oks.all (·)⟩ := by
  constructor
  · intro h
    cases hrun : e.workspace.applyEntries fs entries with
    | mk result w =>
      rw [hrun] at h
      cases result with
      | error fault => cases h
      | ok ok =>
        cases h
        obtain ⟨oks, hreplays, rfl⟩ := replays_iff.mpr ⟨w, hrun, rfl⟩
        exact ⟨oks, hreplays, rfl⟩
  · rintro ⟨oks, hreplays, rfl⟩
    obtain ⟨w, hw, rfl⟩ := replays_iff.mp ⟨oks, hreplays, rfl⟩
    rw [hw]
    rfl

/-- The settings of an rc-file that looks for a package in two directories. -/
def twoAttempts : List RcEntry :=
  [⟨.libpath, Bytes.ofString "one"⟩, ⟨.importPackage, Bytes.ofString "b"⟩,
    ⟨.libpath, Bytes.ofString "two"⟩, ⟨.importPackage, Bytes.ofString "b"⟩]

/-- The text of the rc-file. -/
def twoAttemptsText : Bytes := Bytes.ofString
  "libpath = \"one\"\nimport = \"b\"\n-- again\nlibpath = \"two\"\nimport = \"b\"\n"

/-- The rc-file, and the package in the second directory. -/
def retrying : FileSystem where
  files := [([Bytes.ofString "two", Bytes.ofString "b.rpl"], Bytes.ofString "package b\ny = \"y\""),
    ([Bytes.ofString "rc"], twoAttemptsText)]

end Engine

end PatternEngine
