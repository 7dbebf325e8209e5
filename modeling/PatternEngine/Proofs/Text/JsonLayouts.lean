import Mathlib.Data.List.Forall2
import PatternEngine.Proofs.Text.JsonReading

/-!
# Layouts of JSON values

The compact and the indented form of a value are one layout of it with different blanks. What is
laid out is read back, whatever the blanks are, so both forms are read as the value. Putting the
members of objects in order gives the same value.
-/

namespace PatternEngine.Json

variable {rest cs : List Char} {steps levels level : Nat}

/-! ## Layouts -/

/-- Where the blanks of a text are. -/
structure Layout where
  /-- In front of an item at a level of indentation, and of a closing bracket. -/
  line : (level : Nat) → List Char
  /-- Behind a colon. -/
  gap : List Char
  /-- There are only blanks in front of items. -/
  isBlank_line : ∀ level, ∀ c ∈ line level, isBlank c = true
  /-- There are only blanks behind colons. -/
  isBlank_gap : ∀ c ∈ gap, isBlank c = true

namespace Layout

/-- Pieces of text that are separated by commas. -/
def lines (l : Layout) (level : Nat) : List (List Char) → List Char
  | [] => []
  | [piece] => l.line level ++ piece
  | piece :: pieces => l.line level ++ piece ++ ',' :: l.lines level pieces

/-- Pieces of text between brackets. -/
def bracketed (l : Layout) (level : Nat) (opening closing : Char) :
    List (List Char) → List Char
  | [] => [opening, closing]
  | piece :: pieces =>
    opening :: l.lines (level + 1) (piece :: pieces) ++ l.line level ++ [closing]

/-- A member of an object, given the text of its value. -/
def member (l : Layout) (key : String) (value : List Char) : List Char :=
  quote key ++ ':' :: l.gap ++ value

/-- The characters of a value at a level of indentation. -/
def chars (l : Layout) (level : Nat) : Json → List Char
  | .null => ['n', 'u', 'l', 'l']
  | .bool true => ['t', 'r', 'u', 'e']
  | .bool false => ['f', 'a', 'l', 's', 'e']
  | .int n => decimal n
  | .str s => quote s
  | .arr items => l.bracketed level '[' ']' (items.map fun item => l.chars (level + 1) item)
  | .obj members =>
    l.bracketed level '\x7b' '\x7d'
      (members.map fun entry => l.member entry.1 (l.chars (level + 1) entry.2))
termination_by value => sizeOf value
decreasing_by
  · have := List.sizeOf_lt_of_mem ‹_›
    simp only [Json.arr.sizeOf_spec]
    omega
  · have := List.sizeOf_lt_of_mem ‹_›
    have hpair : sizeOf entry = 1 + sizeOf entry.1 + sizeOf entry.2 := rfl
    simp only [Json.obj.sizeOf_spec]
    omega

/-- No blanks at all. -/
def compact : Layout where
  line _ := []
  gap := []
  isBlank_line _ _ hc := absurd hc List.not_mem_nil
  isBlank_gap _ hc := absurd hc List.not_mem_nil

/-- One item to a line. -/
def indented : Layout where
  line := newline
  gap := [' ']
  isBlank_line level c hc := by
    rcases List.mem_cons.mp hc with rfl | hc
    · rfl
    · rw [List.eq_of_mem_replicate hc]
      rfl
  isBlank_gap c hc := by
    rw [List.mem_singleton.mp hc]
    rfl

@[simp] theorem line_compact (level : Nat) : compact.line level = [] := rfl

@[simp] theorem gap_compact : compact.gap = [] := rfl

@[simp] theorem line_indented (level : Nat) : indented.line level = newline level := rfl

@[simp] theorem gap_indented : indented.gap = [' '] := rfl

theorem lines_compact_items (level : Nat) : ∀ items : List Json,
    compact.lines level (items.map compactChars) = compactItems items
  | [] => rfl
  | [item] => by simp [lines, compactItems]
  | item :: next :: items => by
    simpa [lines, compactItems] using lines_compact_items level (next :: items)

theorem lines_compact_members (level : Nat) : ∀ members : List (String × Json),
    compact.lines level (members.map fun entry => compact.member entry.1 entry.2.compactChars) =
      compactMembers members
  | [] => rfl
  | [(key, value)] => by simp [lines, member, compactMembers]
  | (key, value) :: next :: members => by
    simpa [lines, member, compactMembers] using lines_compact_members level (next :: members)

/-- The compact form of a value is a layout of it. -/
theorem chars_compact (value : Json) (level : Nat) :
    compact.chars level value = value.compactChars := by
  induction value using inductionOn generalizing level with
  | null => rw [chars, compactChars]
  | bool b => cases b <;> rw [chars, compactChars]
  | int n => rw [chars, compactChars]
  | str s => rw [chars, compactChars]
  | arr items ih =>
    rw [chars, compactChars, List.map_congr_left fun item h => ih item h (level + 1)]
    cases items with
    | nil => rfl
    | cons item items =>
      simp [bracketed, ← lines_compact_items (level + 1)]
  | obj members ih =>
    rw [chars, compactChars, List.map_congr_left fun entry h =>
      congrArg (compact.member entry.1) (ih entry h (level + 1))]
    cases members with
    | nil => rfl
    | cons entry members =>
      simp [bracketed, ← lines_compact_members (level + 1)]

theorem lines_indented_items (level : Nat) : ∀ items : List Json,
    indented.lines level (items.map (indentedChars level)) = indentedItems level items
  | [] => rfl
  | [item] => by simp [lines, indentedItems]
  | item :: next :: items => by
    simpa [lines, indentedItems] using lines_indented_items level (next :: items)

theorem lines_indented_members (level : Nat) : ∀ members : List (String × Json),
    indented.lines level
        (members.map fun entry => indented.member entry.1 (entry.2.indentedChars level)) =
      indentedMembers level members
  | [] => rfl
  | [(key, value)] => by simp [lines, member, indentedMembers]
  | (key, value) :: next :: members => by
    simpa [lines, member, indentedMembers] using lines_indented_members level (next :: members)

/-- The indented form of a value is a layout of it. -/
theorem chars_indented (value : Json) (level : Nat) :
    indented.chars level value = value.indentedChars level := by
  induction value using inductionOn generalizing level with
  | null => rw [chars, indentedChars]
  | bool b => cases b <;> rw [chars, indentedChars]
  | int n => rw [chars, indentedChars]
  | str s => rw [chars, indentedChars]
  | arr items ih =>
    rw [chars, List.map_congr_left fun item h => ih item h (level + 1)]
    cases items with
    | nil => rw [indentedChars]; rfl
    | cons item items =>
      rw [indentedChars, ← lines_indented_items]
      rfl
  | obj members ih =>
    rw [chars, List.map_congr_left fun entry h =>
      congrArg (indented.member entry.1) (ih entry h (level + 1))]
    cases members with
    | nil => rw [indentedChars]; rfl
    | cons entry members =>
      rw [indentedChars, ← lines_indented_members]
      rfl

/-! ## Reading layouts -/

variable (l : Layout) {blanks behind : List Char} {closing : Char}

theorem skipBlanks_append (h : ∀ c ∈ blanks, isBlank c = true) :
    skipBlanks (blanks ++ rest) = skipBlanks rest :=
  List.dropWhile_append_of_pos h

theorem skipBlanks_cons {c : Char} (h : isBlank c = false) :
    skipBlanks (c :: rest) = c :: rest := by
  simp [skipBlanks, h]

theorem endsNumber_cons {c : Char} (h : c.isDigit = false) : EndsNumber (c :: rest) := by
  rintro _ ⟨⟩
  exact h

theorem endsNumber_append (h : ∀ c ∈ blanks, isBlank c = true) (hrest : EndsNumber rest) :
    EndsNumber (blanks ++ rest) := by
  cases blanks with
  | nil => exact hrest
  | cons c blanks =>
    refine endsNumber_cons ?_
    have hc := h c List.mem_cons_self
    simp only [isBlank, Bool.or_eq_true, decide_eq_true_eq] at hc
    rcases hc with ((rfl | rfl) | rfl) | rfl <;> rfl

/-- A character that begins a value or a member. -/
def Begins (c : Char) : Prop := isBlank c = false ∧ c ≠ ']' ∧ c ≠ '\x7d'

theorem exists_bracketed_eq (level : Nat) (opening closing : Char) (pieces : List (List Char)) :
    ∃ cs, l.bracketed level opening closing pieces = opening :: cs := by
  cases pieces with
  | nil => exact ⟨_, rfl⟩
  | cons piece pieces => exact ⟨_, rfl⟩

/-- A value begins with a character that is neither a blank nor a closing bracket. -/
theorem exists_chars_eq (value : Json) (level : Nat) :
    ∃ c cs, l.chars level value = c :: cs ∧ Begins c := by
  unfold Begins
  cases value with
  | null => exact ⟨'n', _, by rw [chars], by decide⟩
  | bool b => cases b <;> exact ⟨_, _, by rw [chars], by decide⟩
  | int n =>
    obtain ⟨c, cs, hcs, hc⟩ := exists_decimal_eq n
    refine ⟨c, cs, by rw [chars, hcs], ?_⟩
    rcases hc with rfl | hdigit
    · decide
    · have hne : ∀ other : Char, other.isDigit = false → c ≠ other := by
        rintro other hother rfl
        exact absurd hdigit (by simp [hother])
      simp [isBlank, hne ' ' rfl, hne '\t' rfl, hne '\n' rfl, hne '\r' rfl, hne ']' rfl,
        hne '\x7d' rfl]
  | str s => exact ⟨'"', _, by rw [chars, quote, List.cons_append], by decide⟩
  | arr items =>
    obtain ⟨cs, hcs⟩ := l.exists_bracketed_eq level '[' ']' (items.map (l.chars (level + 1)))
    exact ⟨'[', cs, by rw [chars, hcs], by decide⟩
  | obj members =>
    obtain ⟨cs, hcs⟩ := l.exists_bracketed_eq level '\x7b' '\x7d'
      (members.map fun entry => l.member entry.1 (l.chars (level + 1) entry.2))
    exact ⟨'\x7b', cs, by rw [chars, hcs], by decide⟩

/-- A piece of a list is no longer than the list. -/
theorem length_le_lines (level : Nat) {pieces : List (List Char)} {piece : List Char}
    (h : piece ∈ pieces) : piece.length ≤ (l.lines level pieces).length := by
  induction pieces with
  | nil => cases h
  | cons first pieces ih =>
    cases pieces with
    | nil =>
      rw [List.mem_singleton.mp h, lines, List.length_append]
      omega
    | cons next pieces =>
      simp only [lines, List.length_append, List.length_cons]
      rcases List.mem_cons.mp h with rfl | h
      · omega
      · have := ih h
        omega

/-- A piece between brackets is shorter than the pieces with the brackets. -/
theorem length_lt_bracketed (level : Nat) (opening closing : Char)
    {pieces : List (List Char)} {piece : List Char} (h : piece ∈ pieces) :
    piece.length < (l.bracketed level opening closing pieces).length := by
  cases pieces with
  | nil => cases h
  | cons first pieces =>
    have hle := l.length_le_lines (level + 1) h
    simp only [bracketed, List.cons_append, List.length_cons, List.length_append]
    omega

/-- Things that are read back one by one are read back from the list of them. -/
theorem listOf?_lines {α : Type} {one : List Char → Option (α × List Char)}
    {things : List (α × List Char)} (hne : things ≠ [])
    (hone : ∀ thing ∈ things, ∀ behind, EndsNumber behind →
      one (l.line level ++ (thing.2 ++ behind)) = some (thing.1, behind))
    (hblanks : ∀ c ∈ blanks, isBlank c = true) (hcomma : closing ≠ ',')
    (hblank : isBlank closing = false) (hdigit : closing.isDigit = false)
    (hsteps : (l.lines level (things.map (·.2))).length < steps) :
    listOf? one closing steps (l.lines level (things.map (·.2)) ++ (blanks ++ closing :: rest)) =
      some (things.map (·.1), rest) := by
  induction things generalizing steps with
  | nil => exact absurd rfl hne
  | cons thing things ih =>
    obtain ⟨steps, rfl⟩ := Nat.exists_eq_succ_of_ne_zero (Nat.ne_of_gt (Nat.zero_lt_of_lt hsteps))
    cases things with
    | nil =>
      have hfirst := hone thing List.mem_cons_self (blanks ++ closing :: rest)
        (endsNumber_append hblanks (endsNumber_cons hdigit))
      simp only [List.map_cons, List.map_nil, lines, List.append_assoc]
      rw [listOf?, hfirst, Option.bind_eq_bind, Option.bind_some]
      dsimp only
      rw [skipBlanks_append hblanks, skipBlanks_cons hblank]
      simp [hcomma]
    | cons next things =>
      simp only [List.map_cons, lines, List.append_assoc, List.cons_append, List.length_append,
        List.length_cons] at hsteps ⊢
      have hfirst := hone thing List.mem_cons_self (',' :: (l.lines level
        (next.2 :: things.map (·.2)) ++ (blanks ++ closing :: rest))) (endsNumber_cons rfl)
      have hothers := ih (by simp) (fun other h => hone other (List.mem_cons_of_mem _ h))
        (show _ < steps by simp only [List.map_cons]; omega)
      simp only [List.map_cons] at hothers
      rw [listOf?, hfirst, Option.bind_eq_bind, Option.bind_some]
      dsimp only
      rw [skipBlanks_cons (by decide)]
      simp [hothers]

/-- Things that are read back one by one are read back from between brackets. -/
theorem bracketed?_bracketed {α : Type} {one : List Char → Option (α × List Char)}
    (level : Nat) (things : List (α × List Char)) (opening closing : Char) (rest : List Char)
    (hone : ∀ thing ∈ things, ∀ behind, EndsNumber behind →
      one (l.line (level + 1) ++ (thing.2 ++ behind)) = some (thing.1, behind))
    (hbegins : ∀ thing ∈ things, ∃ c cs, thing.2 = c :: cs ∧ isBlank c = false ∧ c ≠ closing)
    (hcomma : closing ≠ ',') (hblank : isBlank closing = false)
    (hdigit : closing.isDigit = false) : ∃ tail,
      l.bracketed level opening closing (things.map (·.2)) ++ rest = opening :: tail ∧
        bracketed? one closing tail = some (things.map (·.1), rest) := by
  cases things with
  | nil =>
    refine ⟨closing :: rest, rfl, ?_⟩
    rw [bracketed?, skipBlanks_cons hblank]
    simp
  | cons thing things =>
    let inside := l.lines (level + 1) ((thing :: things).map (·.2))
    refine ⟨inside ++ (l.line level ++ closing :: rest), by simp [bracketed, inside], ?_⟩
    obtain ⟨c, cs, hcs, hc, hne⟩ := hbegins thing List.mem_cons_self
    have hinside : ∃ tail, inside = l.line (level + 1) ++ (c :: tail) := by
      cases things with
      | nil => exact ⟨cs, by simp [inside, lines, hcs]⟩
      | cons next things => exact ⟨_, by simp [inside, lines, hcs]; rfl⟩
    obtain ⟨tail, htail⟩ := hinside
    have hhead : (skipBlanks (inside ++ (l.line level ++ closing :: rest))).head? ≠
        some closing := by
      rw [htail, List.append_assoc, skipBlanks_append (l.isBlank_line _), List.cons_append,
        skipBlanks_cons hc]
      simpa using hne
    have hsteps : inside.length < (inside ++ (l.line level ++ closing :: rest)).length := by
      simp only [List.length_append, List.length_cons]
      omega
    rw [bracketed?, if_neg hhead]
    exact l.listOf?_lines (List.cons_ne_nil _ _) hone (l.isBlank_line level) hcomma hblank hdigit
      hsteps

/-- A member is read back where its value is. -/
theorem member?_member {read : List Char → Option (Json × List Char)} {value : Json}
    (key : String) (text : List Char) (hcs : skipBlanks cs = l.member key text ++ rest)
    (hread : read (l.gap ++ (text ++ rest)) = some (value, rest)) :
    member? read cs = some ((key, value), rest) := by
  have hkey : string? (skipBlanks cs) = some (key, ':' :: (l.gap ++ (text ++ rest))) := by
    rw [hcs, member, List.append_assoc, List.append_assoc, List.cons_append]
    exact string?_quote key _
  rw [member?, hkey, Option.bind_eq_bind, Option.bind_some]
  dsimp only
  rw [skipBlanks_cons (by decide)]
  simp [hread]

/-- A value is read back from its layout. -/
theorem value?_chars (value : Json) (level : Nat)
    (hcs : skipBlanks cs = l.chars level value ++ rest)
    (hlevels : (l.chars level value).length < levels) (hrest : EndsNumber rest) :
    value? levels cs = some (value, rest) := by
  induction value using inductionOn generalizing level levels rest cs with
  | null =>
    obtain ⟨levels, rfl⟩ := Nat.exists_eq_add_of_lt hlevels
    rw [chars] at hcs
    rw [value?, hcs]
    rfl
  | bool b =>
    obtain ⟨levels, rfl⟩ := Nat.exists_eq_add_of_lt hlevels
    cases b <;>
    · rw [chars] at hcs
      rw [value?, hcs]
      rfl
  | int n =>
    obtain ⟨levels, rfl⟩ := Nat.exists_eq_add_of_lt hlevels
    obtain ⟨c, digits, hdigits, hc⟩ := exists_decimal_eq n
    have hother : ∀ other : Char, other ≠ '-' → other.isDigit = false → c ≠ other := by
      rintro other hminus hdigit rfl
      rcases hc with h | h
      · exact hminus h
      · rw [hdigit] at h
        cases h
    have hn := integer?_decimal n hrest
    rw [chars, hdigits, List.cons_append] at hcs
    rw [hdigits, List.cons_append] at hn
    rw [value?, hcs]
    simp [hother 'n' (by decide) rfl, hother 't' (by decide) rfl, hother 'f' (by decide) rfl,
      hother '"' (by decide) rfl, hother '[' (by decide) rfl, hother '\x7b' (by decide) rfl, hn]
  | str s =>
    obtain ⟨levels, rfl⟩ := Nat.exists_eq_add_of_lt hlevels
    have hs := string?_quote s rest
    obtain ⟨tail, htail⟩ : ∃ tail, quote s ++ rest = '"' :: tail := ⟨_, rfl⟩
    rw [chars, htail] at hcs
    rw [htail] at hs
    rw [value?, hcs]
    simp [hs]
  | arr items ih =>
    obtain ⟨levels, rfl⟩ := Nat.exists_eq_add_of_lt hlevels
    let things := items.map fun item => (item, l.chars (level + 1) item)
    have hone : ∀ thing ∈ things, ∀ behind, EndsNumber behind →
        value? ((l.chars level (.arr items)).length + levels)
          (l.line (level + 1) ++ (thing.2 ++ behind)) = some (thing.1, behind) := by
      intro thing hthing behind hbehind
      obtain ⟨item, hitem, rfl⟩ := List.mem_map.mp hthing
      obtain ⟨c, cs', hcs', hc, -⟩ := l.exists_chars_eq item (level + 1)
      refine ih item hitem (level + 1) ?_ ?_ hbehind
      · rw [skipBlanks_append (l.isBlank_line _), hcs', List.cons_append, skipBlanks_cons hc]
      · have hpiece := l.length_lt_bracketed level '[' ']'
          (List.mem_map_of_mem (f := fun item => l.chars (level + 1) item) hitem)
        rw [chars]
        omega
    have hbegins : ∀ thing ∈ things, ∃ c cs, thing.2 = c :: cs ∧ isBlank c = false ∧ c ≠ ']' := by
      intro thing hthing
      obtain ⟨item, hitem, rfl⟩ := List.mem_map.mp hthing
      obtain ⟨c, cs, hcs, hblank, hclose, -⟩ := l.exists_chars_eq item (level + 1)
      exact ⟨c, cs, hcs, hblank, hclose⟩
    obtain ⟨tail, htail, hread⟩ := l.bracketed?_bracketed level things '[' ']' rest
      hone hbegins (by decide) (by decide) (by decide)
    simp only [things, List.map_map, Function.comp_def, List.map_id'] at htail hread
    rw [chars, htail] at hcs
    rw [value?, hcs]
    simp [hread]
  | obj members ih =>
    obtain ⟨levels, rfl⟩ := Nat.exists_eq_add_of_lt hlevels
    let things := members.map fun entry =>
      (entry, l.member entry.1 (l.chars (level + 1) entry.2))
    have hone : ∀ thing ∈ things, ∀ behind, EndsNumber behind →
        member? (value? ((l.chars level (.obj members)).length + levels))
          (l.line (level + 1) ++ (thing.2 ++ behind)) = some (thing.1, behind) := by
      intro thing hthing behind hbehind
      obtain ⟨entry, hentry, rfl⟩ := List.mem_map.mp hthing
      obtain ⟨c, cs', hcs', hc, -⟩ := l.exists_chars_eq entry.2 (level + 1)
      refine l.member?_member entry.1 (l.chars (level + 1) entry.2) ?_ ?_
      · rw [skipBlanks_append (l.isBlank_line _), member, quote]
        exact skipBlanks_cons (by decide)
      · refine ih entry hentry (level + 1) ?_ ?_ hbehind
        · rw [skipBlanks_append l.isBlank_gap, hcs', List.cons_append, skipBlanks_cons hc]
        · have hpiece := l.length_lt_bracketed level '\x7b' '\x7d' (List.mem_map_of_mem
              (f := fun entry => l.member entry.1 (l.chars (level + 1) entry.2)) hentry)
          rw [chars]
          simp only [member, List.length_append] at hpiece ⊢
          omega
    have hbegins : ∀ thing ∈ things,
        ∃ c cs, thing.2 = c :: cs ∧ isBlank c = false ∧ c ≠ '\x7d' := by
      intro thing hthing
      obtain ⟨entry, hentry, rfl⟩ := List.mem_map.mp hthing
      exact ⟨'"', _, rfl, by decide⟩
    obtain ⟨tail, htail, hread⟩ := l.bracketed?_bracketed level things '\x7b' '\x7d'
      rest hone hbegins (by decide) (by decide) (by decide)
    simp only [things, List.map_map, Function.comp_def, List.map_id'] at htail hread
    rw [chars, htail] at hcs
    rw [value?, hcs]
    simp [hread]

/-- The text of a layout is read as the value. -/
theorem read?_chars (value : Json) : read? (String.ofList (l.chars 0 value)) = some value := by
  obtain ⟨c, cs, hcs, hc, -⟩ := l.exists_chars_eq value 0
  have hskip : skipBlanks (l.chars 0 value) = l.chars 0 value ++ [] := by
    rw [List.append_nil, hcs, skipBlanks_cons hc]
  have hread := l.value?_chars value 0 hskip (Nat.lt_succ_self _) (by rintro _ ⟨⟩)
  rw [read?, String.toList_ofList, hread]
  rfl

end Layout

/-- A value is read back from its compact form. -/
theorem read?_compact (value : Json) : read? value.compact = some value := by
  rw [compact, ← Layout.chars_compact value 0]
  exact Layout.compact.read?_chars value

/-- Different values are written differently. -/
theorem compact_injective : Function.Injective compact := fun first second heq => by
  have hfirst := read?_compact first
  rw [heq, read?_compact] at hfirst
  exact (Option.some.inj hfirst).symm

/-- A value is read back from its indented form. -/
theorem read?_pretty (value : Json) : read? value.pretty = some value := by
  rw [pretty, ← Layout.chars_indented]
  exact Layout.indented.read?_chars value

/-! ## The same value -/

/-- Two values are the same but for the order of the members of objects. -/
inductive Same : Json → Json → Prop
  | null : Same .null .null
  | bool (b : Bool) : Same (.bool b) (.bool b)
  | int (n : Int) : Same (.int n) (.int n)
  | str (s : String) : Same (.str s) (.str s)
  | arr {items items' : List Json} (h : List.Forall₂ Same items items') :
      Same (.arr items) (.arr items')
  | obj {members matched members' : List (String × Json)}
      (hkeys : members.map (·.1) = matched.map (·.1))
      (hvalues : List.Forall₂ Same (members.map (·.2)) (matched.map (·.2)))
      (hperm : matched.Perm members') : Same (.obj members) (.obj members')

theorem perm_insertMember (entry : String × Json) (members : List (String × Json)) :
    (entry :: members).Perm (insertMember entry members) := by
  induction members with
  | nil => exact .refl _
  | cons other members ih =>
    rw [insertMember]
    split
    · exact (List.Perm.swap other entry members).trans (ih.cons other)
    · exact .refl _

theorem perm_sortKeysMembers (members : List (String × Json)) :
    (members.map fun entry => (entry.1, entry.2.sortKeys)).Perm (sortKeysMembers members) := by
  induction members with
  | nil => exact .refl _
  | cons entry members ih =>
    obtain ⟨key, value⟩ := entry
    rw [sortKeysMembers]
    exact (ih.cons _).trans (perm_insertMember _ _)

theorem sortKeysItems_eq_map (items : List Json) : sortKeysItems items = items.map sortKeys := by
  induction items with
  | nil => rfl
  | cons item items ih => rw [sortKeysItems, ih, List.map_cons]

/-- To put members in order does not change the value. -/
theorem same_sortKeys (value : Json) : Same value value.sortKeys := by
  induction value using inductionOn with
  | null => exact .null
  | bool b => exact .bool b
  | int n => exact .int n
  | str s => exact .str s
  | arr items ih =>
    rw [sortKeys, sortKeysItems_eq_map]
    refine .arr (List.forall₂_map_right_iff.mpr ?_)
    exact List.forall₂_same.mpr ih
  | obj members ih =>
    rw [sortKeys]
    refine .obj (by simp) ?_ (perm_sortKeysMembers members)
    rw [List.map_map, List.forall₂_map_left_iff, List.forall₂_map_right_iff]
    exact List.forall₂_same.mpr ih

end PatternEngine.Json
