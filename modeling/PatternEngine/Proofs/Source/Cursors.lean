import Mathlib
import PatternEngine.Parse

/-!
# Cursors in a longer text

What a reader makes of a text does not depend on what stands in front of it or on the lines behind
it. A cursor is carried over to a longer text by counting the bytes in front and appending the lines
behind, which begin with a line feed where there are any: a line feed ends a comment, is no part of
a name and stands inside no repetition bounds.

The one thing that the lines behind change is where blanks end: blanks and comments at the end of
the text go on into them.
-/

namespace PatternEngine

variable {c d e : Cursor} {k n : Nat} {tail : Bytes}

/-- The step from a successful reader to the next one. -/
theorem Except.exists_of_bind_eq_ok {ε α β : Type} {x : Except ε α} {f : α → Except ε β} {b : β}
    (h : (x >>= f) = .ok b) : ∃ a, x = .ok a ∧ f a = .ok b := by
  cases x with
  | error fault => cases h
  | ok a => exact ⟨a, rfl, h⟩

/-- The step from a reader that is known to succeed to the next one. -/
theorem Except.bind_of_eq_ok {ε α β : Type} {x : Except ε α} {f : α → Except ε β} {a : α}
    (h : x = .ok a) : (x >>= f) = f a := by
  rw [h]
  rfl

/-- The words of a fault are not the fault of a result. -/
theorem Except.mapError_eq_ok {ε ε' α : Type} {f : ε → ε'} {x : Except ε α} {a : α} :
    x.mapError f = .ok a ↔ x = .ok a := by
  cases x with
  | error fault => exact ⟨nofun, nofun⟩
  | ok b => simp [Except.mapError]

/-- The bytes of two strings in a row. -/
theorem Bytes.ofString_append (s t : String) :
    Bytes.ofString (s ++ t) = Bytes.ofString s ++ Bytes.ofString t := by
  simp [Bytes.ofString]

/-- The text is empty or begins a new line. -/
def Bytes.OnNewLine (tail : Bytes) : Prop := tail = [] ∨ ∃ rest, tail = 0x0a :: rest

theorem Bytes.onNewLine_nil : Bytes.OnNewLine [] := .inl rfl

/-- What does not hold of a line feed does not hold of the first byte of the lines behind. -/
theorem Bytes.OnNewLine.stops (htail : tail.OnNewLine) {p : UInt8 → Bool} (hp : p 0x0a = false) :
    ∀ b ∈ tail.head?, p b = false := by
  rcases htail with rfl | ⟨rest, rfl⟩
  · nofun
  · intro b hb
    cases hb
    exact hp

/-- A byte that passes a test that none of the marks passes is no mark. -/
theorem Bytes.not_mem_of_any {p : UInt8 → Bool} {marks : List UInt8} (hmarks : marks.any p = false)
    {b : UInt8} (hb : p b = true) : b ∉ marks := by
  intro hmem
  cases (List.any_eq_true.mpr ⟨b, hmem, hb⟩).symm.trans hmarks

/-- A run ends before a byte that does not belong to it. -/
theorem Bytes.takeWhile_append_tail {p : UInt8 → Bool} (hstop : ∀ b ∈ tail.head?, p b = false)
    (bytes : Bytes) : (bytes ++ tail).takeWhile p = bytes.takeWhile p := by
  induction bytes with
  | nil =>
    cases tail with
    | nil => rfl
    | cons b tail => simp [hstop b rfl]
  | cons b bytes ih => simp [List.takeWhile_cons, ih]

/-- What is left behind a run is what is left when as many bytes are dropped. -/
theorem Bytes.drop_length_takeWhile (p : UInt8 → Bool) (bytes : Bytes) :
    bytes.drop (bytes.takeWhile p).length = bytes.dropWhile p := by
  have hleft := @List.drop_left _ (bytes.takeWhile p) (bytes.dropWhile p)
  rwa [List.takeWhile_append_dropWhile] at hleft

/-- What is left behind a run is left with a text that the run does not go on in. -/
theorem Bytes.dropWhile_append_tail {p : UInt8 → Bool} (hstop : ∀ b ∈ tail.head?, p b = false)
    (bytes : Bytes) : (bytes ++ tail).dropWhile p = bytes.dropWhile p ++ tail := by
  induction bytes with
  | nil =>
    cases tail with
    | nil => rfl
    | cons b tail => simp [hstop b rfl]
  | cons b bytes ih =>
    cases hb : p b with
    | false => simp [hb]
    | true => simpa [hb] using ih

/-- The first byte of the lines behind is a line feed. -/
theorem Bytes.head?_append_tail (htail : tail.OnNewLine) {b : UInt8} (hb : b ≠ 0x0a)
    (bytes : Bytes) : (bytes ++ tail).head? = some b ↔ bytes.head? = some b := by
  cases bytes with
  | nil =>
    rcases htail with rfl | ⟨rest, rfl⟩
    · rfl
    · simp [Ne.symm hb]
  | cons _ _ => rfl

/-- What does not hold of a line feed holds of no first byte of the lines behind. -/
theorem Bytes.any_head?_append_tail (htail : tail.OnNewLine) {p : UInt8 → Bool}
    (hp : p 0x0a = false) (bytes : Bytes) :
    (bytes ++ tail).head?.any p = bytes.head?.any p := by
  cases bytes with
  | nil =>
    rcases htail with rfl | ⟨rest, rfl⟩
    · rfl
    · simpa using hp
  | cons _ _ => rfl

/-- A text without a line feed does not begin in one text and go on in the lines behind it. -/
theorem Bytes.isPrefixOf_append_tail (htail : tail.OnNewLine) {start : Bytes}
    (hstart : 0x0a ∉ start) (bytes : Bytes) :
    start.isPrefixOf (bytes ++ tail) = start.isPrefixOf bytes := by
  induction start generalizing bytes with
  | nil => rfl
  | cons b start ih =>
    rw [List.mem_cons, not_or] at hstart
    cases bytes with
    | nil =>
      rcases htail with rfl | ⟨rest, rfl⟩
      · rfl
      · simp [List.isPrefixOf, Ne.symm hstart.1]
    | cons b' bytes => simp [List.isPrefixOf, ih hstart.2]

/-! ## Pieces between separators -/

namespace Bytes

variable {separator : UInt8} {bytes : Bytes}

theorem splitOn_ne_nil (separator : UInt8) (bytes : Bytes) : splitOn separator bytes ≠ [] := by
  cases bytes with
  | nil => exact List.cons_ne_nil _ _
  | cons b bytes =>
    rw [splitOn]
    split
    · exact List.cons_ne_nil _ _
    · split
      · exact List.cons_ne_nil _ _
      · exact List.cons_ne_nil _ _

/-- A text without the separator is one piece. -/
theorem splitOn_of_not_mem (h : separator ∉ bytes) : splitOn separator bytes = [bytes] := by
  induction bytes with
  | nil => rfl
  | cons b bytes ih =>
    have hb : b ≠ separator := fun heq => h (heq ▸ List.mem_cons_self)
    rw [splitOn, if_neg (mt beq_iff_eq.mp hb), ih fun hmem => h (List.mem_cons_of_mem _ hmem)]

/-- The pieces of two texts that a separator joins. -/
theorem splitOn_append (bytes tail : Bytes) : splitOn separator (bytes ++ separator :: tail) =
    splitOn separator bytes ++ splitOn separator tail := by
  induction bytes with
  | nil =>
    rw [List.nil_append]
    exact if_pos (beq_self_eq_true separator)
  | cons b bytes ih =>
    rw [List.cons_append, splitOn, splitOn, ih]
    split
    · rfl
    · cases hpieces : splitOn separator bytes with
      | nil => exact absurd hpieces (splitOn_ne_nil separator bytes)
      | cons piece pieces => rfl

end Bytes

namespace Cursor

@[simp] theorem pos_advance : (c.advance n).pos = c.pos + n := rfl

@[simp] theorem rest_advance : (c.advance n).rest = c.rest.drop n := rfl

theorem advance_advance (m : Nat) : (c.advance n).advance m = c.advance (n + m) := by
  simp [advance, Nat.add_assoc]

/-! ## The way of a cursor -/

/-- The second cursor is in the same text, not before the first. -/
def Reaches (c d : Cursor) : Prop := ∃ n, n ≤ c.rest.length ∧ d = c.advance n

/-- The second cursor is in the same text, behind the first. -/
def Passes (c d : Cursor) : Prop := ∃ n, 0 < n ∧ n ≤ c.rest.length ∧ d = c.advance n

@[refl] theorem Reaches.refl (c : Cursor) : c.Reaches c := ⟨0, Nat.zero_le _, rfl⟩

theorem Reaches.trans (h : c.Reaches d) (h' : d.Reaches e) : c.Reaches e := by
  obtain ⟨n, hn, rfl⟩ := h
  obtain ⟨m, hm, rfl⟩ := h'
  rw [rest_advance, List.length_drop] at hm
  exact ⟨n + m, by omega, advance_advance m⟩

theorem Passes.reaches (h : c.Passes d) : c.Reaches d := by
  obtain ⟨n, -, hn, rfl⟩ := h
  exact ⟨n, hn, rfl⟩

theorem Passes.trans_reaches (h : c.Passes d) (h' : d.Reaches e) : c.Passes e := by
  obtain ⟨n, hpos, hn, rfl⟩ := h
  obtain ⟨m, hm, rfl⟩ := h'
  rw [rest_advance, List.length_drop] at hm
  exact ⟨n + m, by omega, by omega, advance_advance m⟩

theorem Reaches.trans_passes (h : c.Reaches d) (h' : d.Passes e) : c.Passes e := by
  obtain ⟨n, hn, rfl⟩ := h
  obtain ⟨m, hpos, hm, rfl⟩ := h'
  rw [rest_advance, List.length_drop] at hm
  exact ⟨n + m, by omega, by omega, advance_advance m⟩

theorem Passes.trans (h : c.Passes d) (h' : d.Passes e) : c.Passes e := h.trans_reaches h'.reaches

theorem Passes.length_lt (h : c.Passes d) : d.rest.length < c.rest.length := by
  obtain ⟨n, hpos, hn, rfl⟩ := h
  rw [rest_advance, List.length_drop]
  omega

/-- Where something is read in one step the other steps are enough for what is behind it. -/
theorem Passes.steps_left {step : UInt8} {steps : Bytes} (h : c.Passes d)
    (hsteps : c.rest.length ≤ (step :: steps).length) : d.rest.length ≤ steps.length :=
  Nat.le_of_lt_succ (h.length_lt.trans_le hsteps)

/-- So are the other rounds where there were more of them than bytes. -/
theorem Passes.rounds_left {rounds : Nat} (h : c.Passes d) (hrounds : c.rest.length < rounds + 1) :
    d.rest.length < rounds :=
  h.length_lt.trans_le (Nat.le_of_lt_succ hrounds)

theorem Reaches.length_le (h : c.Reaches d) : d.rest.length ≤ c.rest.length := by
  obtain ⟨n, -, rfl⟩ := h
  rw [rest_advance, List.length_drop]
  omega

/-- Before the end of the text there is a byte. -/
theorem Passes.rest_ne_nil (h : c.Passes d) : c.rest ≠ [] := by
  intro hc
  have hlt := h.length_lt
  rw [hc] at hlt
  exact Nat.not_lt_zero _ hlt

/-- At the end of the text there is nowhere to go. -/
theorem Reaches.eq_of_nil (h : c.Reaches d) (hc : c.rest = []) : d.rest = [] := by
  have hle := h.length_le
  rw [hc] at hle
  exact List.length_eq_zero_iff.mp (Nat.le_zero.mp hle)

theorem reaches_advance (h : n ≤ c.rest.length) : c.Reaches (c.advance n) := ⟨n, h, rfl⟩

theorem passes_advance (hpos : 0 < n) (h : n ≤ c.rest.length) : c.Passes (c.advance n) :=
  ⟨n, hpos, h, rfl⟩

/-- Where there is a byte, the cursor can pass it. -/
theorem passes_of_peek {b : UInt8} (h : c.peek? = some b) : c.Passes (c.advance 1) := by
  obtain ⟨pos, bytes⟩ := c
  cases bytes with
  | nil => cases h
  | cons _ _ => exact passes_advance Nat.one_pos (by simp)

/-! ## The longer text -/

/-- The cursor in a text with `k` more bytes in front and with `tail` behind. -/
def embed (k : Nat) (tail : Bytes) (c : Cursor) : Cursor := ⟨k + c.pos, c.rest ++ tail⟩

@[simp] theorem pos_embed : (c.embed k tail).pos = k + c.pos := rfl

@[simp] theorem rest_embed : (c.embed k tail).rest = c.rest ++ tail := rfl

theorem embed_advance (h : n ≤ c.rest.length) :
    (c.advance n).embed k tail = (c.embed k tail).advance n := by
  simp only [embed, advance, List.drop_append_of_le_length h, Nat.add_assoc]

theorem embed_advance_one {b : UInt8} (h : c.peek? = some b) :
    (c.advance 1).embed k tail = (c.embed k tail).advance 1 := by
  obtain ⟨pos, bytes⟩ := c
  cases bytes with
  | nil => cases h
  | cons _ _ => rfl

theorem peek?_embed {b : UInt8} (h : c.peek? = some b) : (c.embed k tail).peek? = some b := by
  obtain ⟨pos, bytes⟩ := c
  cases bytes with
  | nil => cases h
  | cons _ _ => exact h

theorem peek?_embed_of_ne_nil (h : c.rest ≠ []) : (c.embed k tail).peek? = c.peek? := by
  obtain ⟨pos, bytes⟩ := c
  cases bytes with
  | nil => exact absurd rfl h
  | cons _ _ => rfl

theorem rest_ne_nil_of_peek {b : UInt8} (h : c.peek? = some b) : c.rest ≠ [] := by
  rintro hc
  rw [peek?, hc] at h
  cases h

theorem atEnd_iff : c.atEnd = true ↔ c.rest = [] := List.isEmpty_iff

theorem peek?_eq_none_iff : c.peek? = none ↔ c.rest = [] := List.head?_eq_none_iff

/-! ## Blanks and comments -/

/-- The place behind blanks is in the same text. -/
theorem reaches_behindBlanks (comment : Bool) (pos : Nat) (bytes : Bytes) :
    (⟨pos, bytes⟩ : Cursor).Reaches (behindBlanks comment pos bytes) := by
  induction bytes generalizing comment pos with
  | nil =>
    cases comment
    · exact .refl _
    · exact .refl _
  | cons b bytes ih =>
    have hstep : (⟨pos, b :: bytes⟩ : Cursor).Reaches ⟨pos + 1, bytes⟩ := ⟨1, by simp, rfl⟩
    cases comment with
    | true => exact hstep.trans (ih _ _)
    | false =>
      rw [behindBlanks]
      split
      · exact hstep.trans (ih _ _)
      · split
        · exact hstep.trans (ih _ _)
        · exact .refl _

theorem reaches_skipBlanks (c : Cursor) : c.Reaches c.skipBlanks := reaches_behindBlanks _ _ _

/-- Behind blanks there are no more of them. -/
theorem skipBlanks_behindBlanks (comment : Bool) (pos : Nat) (bytes : Bytes) :
    (behindBlanks comment pos bytes).skipBlanks = behindBlanks comment pos bytes := by
  induction bytes generalizing comment pos with
  | nil => cases comment <;> rfl
  | cons b bytes ih =>
    cases comment with
    | true => exact ih _ _
    | false =>
      rw [behindBlanks]
      split
      · exact ih _ _
      · split
        · exact ih _ _
        · rename_i hb hc
          simp [skipBlanks, behindBlanks, hb, hc]

@[simp] theorem skipBlanks_skipBlanks (c : Cursor) : c.skipBlanks.skipBlanks = c.skipBlanks :=
  skipBlanks_behindBlanks _ _ _

/-- At the end of a text there are no blanks. -/
theorem skipBlanks_of_nil (h : c.rest = []) : c.skipBlanks = c := by
  obtain ⟨pos, bytes⟩ := c
  cases h
  rfl

/-- A byte that is neither a blank nor a dash is where blanks end. -/
theorem skipBlanks_of_peek {b : UInt8} (h : c.peek? = some b) (hblank : Ascii.isBlank b = false)
    (hdash : b ≠ 0x2d) : c.skipBlanks = c := by
  obtain ⟨pos, bytes⟩ := c
  cases bytes with
  | nil => cases h
  | cons _ _ =>
    cases h
    simp [skipBlanks, behindBlanks, hblank, hdash]

/-- Blanks and comments that end within the text end at the same byte of the longer text. -/
theorem behindBlanks_append (htail : tail.OnNewLine) (comment : Bool) (pos : Nat) (bytes : Bytes)
    (h : (behindBlanks comment pos bytes).rest ≠ []) :
    behindBlanks comment (k + pos) (bytes ++ tail) =
      (behindBlanks comment pos bytes).embed k tail := by
  induction bytes generalizing comment pos with
  | nil => cases comment <;> exact absurd rfl h
  | cons b bytes ih =>
    cases comment with
    | true =>
      exact ih (b != 0x0a) (pos + 1) h
    | false =>
      have hdash : ((bytes ++ tail).head? == some 0x2d) = (bytes.head? == some 0x2d) := by
        rw [Bool.eq_iff_iff, beq_iff_eq, beq_iff_eq]
        exact Bytes.head?_append_tail htail (by decide) bytes
      rw [List.cons_append, behindBlanks, hdash]
      rw [behindBlanks] at h ⊢
      split at h
      · rename_i hb
        rw [if_pos hb, if_pos hb]
        exact ih false (pos + 1) h
      · rename_i hb
        rw [if_neg hb, if_neg hb]
        split at h
        · rename_i hd
          rw [if_pos hd, if_pos hd]
          exact ih true (pos + 1) h
        · rename_i hd
          rw [if_neg hd, if_neg hd]
          rfl

/-- Blanks and comments that go to the end of the text go on in the lines behind it. -/
theorem behindBlanks_append_of_nil (htail : tail.OnNewLine) (comment : Bool) (pos : Nat)
    (bytes : Bytes) (h : (behindBlanks comment pos bytes).rest = []) :
    behindBlanks comment (k + pos) (bytes ++ tail) =
      behindBlanks false (k + (pos + bytes.length)) tail := by
  induction bytes generalizing comment pos with
  | nil =>
    rcases htail with rfl | ⟨rest, rfl⟩
    · cases comment <;> rfl
    · cases comment <;> rfl
  | cons b bytes ih =>
    have hpos : pos + 1 + bytes.length = pos + (b :: bytes).length := by
      rw [List.length_cons]
      omega
    cases comment with
    | true =>
      have hn := ih (b != 0x0a) (pos + 1) h
      rwa [hpos] at hn
    | false =>
      rw [List.cons_append, behindBlanks]
      rw [behindBlanks] at h
      split at h
      · rename_i hb
        rw [if_pos hb]
        have hn := ih false (pos + 1) h
        rwa [hpos] at hn
      · rename_i hb
        rw [if_neg hb]
        split at h
        · rename_i hd
          have hd' : (b == 0x2d && (bytes ++ tail).head? == some 0x2d) = true := by
            cases bytes with
            | nil => simp at hd
            | cons _ _ => simpa using hd
          rw [if_pos hd']
          have hn := ih true (pos + 1) h
          rwa [hpos] at hn
        · cases h

/-- Blanks that end within the text end at the same place of the longer text. -/
theorem skipBlanks_embed (htail : tail.OnNewLine) (h : c.skipBlanks.rest ≠ []) :
    (c.embed k tail).skipBlanks = c.skipBlanks.embed k tail :=
  behindBlanks_append htail _ _ _ h

/-- Where there are no blanks in the text there are none in the longer text. -/
theorem skipBlanks_embed_self (htail : tail.OnNewLine) (hblank : c.skipBlanks = c)
    (hne : c.rest ≠ []) : (c.embed k tail).skipBlanks = c.embed k tail := by
  rw [skipBlanks_embed htail (hblank.symm ▸ hne), hblank]

/-- The place where the blanks end that stand between the end of the text and the next word in the
lines behind it. -/
def seam (pos : Nat) (tail : Bytes) : Cursor := (⟨pos, tail⟩ : Cursor).skipBlanks

@[simp] theorem skipBlanks_seam (pos : Nat) (tail : Bytes) :
    (seam pos tail).skipBlanks = seam pos tail := skipBlanks_skipBlanks _

/-- Blanks that go to the end of the text lead to the seam. -/
theorem skipBlanks_embed_of_nil (htail : tail.OnNewLine) (h : c.skipBlanks.rest = []) :
    (c.embed k tail).skipBlanks = seam (k + (c.pos + c.rest.length)) tail :=
  behindBlanks_append_of_nil htail _ _ _ h

/-- All places of a text have the same end. -/
theorem Reaches.end_eq (h : c.Reaches d) : d.pos + d.rest.length = c.pos + c.rest.length := by
  obtain ⟨n, hn, rfl⟩ := h
  rw [pos_advance, rest_advance, List.length_drop]
  omega

/-- At the end of a text, the end is counted by the position. -/
theorem Reaches.pos_of_nil (h : c.Reaches d) (hd : d.rest = []) :
    d.pos = c.pos + c.rest.length := by
  rw [← h.end_eq, hd]
  rfl

/-- To pass over the blanks in the text first changes nothing. -/
theorem skipBlanks_embed_skipBlanks (htail : tail.OnNewLine) (c : Cursor) :
    (c.skipBlanks.embed k tail).skipBlanks = (c.embed k tail).skipBlanks := by
  by_cases h : c.skipBlanks.rest = []
  · have hpos := (reaches_skipBlanks c).pos_of_nil h
    have hend : c.skipBlanks.skipBlanks.rest = [] := by rwa [skipBlanks_skipBlanks]
    rw [skipBlanks_embed_of_nil htail h, skipBlanks_embed_of_nil htail hend, hpos, h]
    rfl
  · have hmid : c.skipBlanks.skipBlanks.rest ≠ [] := by rwa [skipBlanks_skipBlanks]
    rw [skipBlanks_embed htail h, skipBlanks_embed htail hmid, skipBlanks_skipBlanks]

/-- Without lines behind, blanks end at the same place. -/
theorem skipBlanks_embed_nil (c : Cursor) :
    (c.embed k []).skipBlanks = c.skipBlanks.embed k [] := by
  have hend : (c.skipBlanks.embed k []).skipBlanks = c.skipBlanks.embed k [] := by
    by_cases h : c.skipBlanks.rest = []
    · refine skipBlanks_of_nil ?_
      rw [rest_embed, h]
      rfl
    · have hmid : c.skipBlanks.skipBlanks.rest ≠ [] := by rwa [skipBlanks_skipBlanks]
      rw [skipBlanks_embed Bytes.onNewLine_nil hmid, skipBlanks_skipBlanks]
  rw [← skipBlanks_embed_skipBlanks Bytes.onNewLine_nil, hend]

/-! ## Words -/

/-- A word that holds no line feed is seen where it is seen without the lines behind. -/
theorem atWord_embed (htail : tail.OnNewLine) {word : String}
    (hword : 0x0a ∉ Bytes.ofString word) : (c.embed k tail).atWord word = c.atWord word := by
  have hprefix := Bytes.isPrefixOf_append_tail htail hword c.rest
  simp only [atWord, rest_embed, hprefix]
  cases hp : (Bytes.ofString word).isPrefixOf c.rest with
  | false => rfl
  | true =>
    have hle := (List.isPrefixOf_iff_prefix.mp hp).length_le
    rw [List.drop_append_of_le_length hle, Bytes.any_head?_append_tail htail (by decide)]

end Cursor

end PatternEngine
