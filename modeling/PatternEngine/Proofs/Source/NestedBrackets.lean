import PatternEngine.Proofs.Source.Lexemes

/-!
# Nested brackets

How bracket expressions are written, however deep they are nested. The reader reads what is written
so if it has the levels that are needed, and fails for its levels if it has not; and it reads
nothing else.
-/

namespace PatternEngine

/-- The outcome of a reader that has no level left where one is opened. -/
def TooDeep {α : Type} (result : Except ParseError α) : Prop :=
  ∃ place : Cursor, result = place.fail .nestingTooDeep

/-- The outcome, with so many levels, of reading something that needs so many: it is read if there
are as many, and there is no level left where one is opened if there are not. -/
structure Decides {α : Type} (levels needed : Nat) (value : α) (result : Except ParseError α) :
    Prop where
  accepts : needed ≤ levels → result = .ok value
  refuses : levels < needed → TooDeep result

/-- Where there is something ahead there is a step to take. -/
theorem exists_step {c : Cursor} {steps : Bytes} (hne : c.rest ≠ [])
    (hsteps : c.rest.length ≤ steps.length) : ∃ step steps', steps = step :: steps' := by
  refine List.exists_cons_of_ne_nil fun hnil => ?_
  have hpos := List.length_pos_iff.mpr hne
  rw [hnil, List.length_nil] at hsteps
  omega

namespace Decides

variable {α β : Type} {levels n m : Nat} {a : α} {b : β} {x : Except ParseError α}
  {f : α → Except ParseError β}

/-- What opens no level is read. -/
theorem of_eq (h : x = .ok a) : Decides levels 0 a x :=
  ⟨fun _ => h, fun hlt => absurd hlt (Nat.not_lt_zero _)⟩

theorem of_tooDeep (h : TooDeep x) (hlt : levels < n) : Decides levels n a x :=
  ⟨fun hle => absurd hlt (Nat.not_lt.mpr hle), fun _ => h⟩

/-- What is one level further down has one level less. -/
theorem deeper (h : Decides levels n a x) : Decides (levels + 1) (n + 1) a x :=
  ⟨fun hle => h.accepts (Nat.le_of_succ_le_succ hle),
    fun hlt => h.refuses (Nat.lt_of_succ_lt_succ hlt)⟩

/-- What is read one after the other needs as many levels as what needs more of them. -/
theorem bind (hx : Decides levels n a x) (hf : n ≤ levels → Decides levels m b (f a)) :
    Decides levels (max n m) b (x >>= f) where
  accepts hle := by
    obtain ⟨hn, hm⟩ := max_le_iff.mp hle
    rw [Except.bind_of_eq_ok (hx.accepts hn)]
    exact (hf hn).accepts hm
  refuses hlt := by
    by_cases hn : n ≤ levels
    · have hm : levels < m := by omega
      rw [Except.bind_of_eq_ok (hx.accepts hn)]
      exact (hf hn).refuses hm
    · obtain ⟨place, hplace⟩ := hx.refuses (Nat.not_le.mp hn)
      exact ⟨place, by rw [hplace]; rfl⟩

/-- What is done with what was read opens no level. -/
theorem map (hx : Decides levels n a x) (hf : n ≤ levels → f a = .ok b) :
    Decides levels n b (x >>= f) := by
  have hbind := hx.bind (m := 0) fun hn => of_eq (hf hn)
  rwa [Nat.max_zero] at hbind

end Decides

namespace Bracket

variable {R : Cursor → Cursor → ByteSet → Nat → Cursor → Prop} {opening c d : Cursor}
  {s members : ByteSet} {levels n : Nat}

/-- The items of a set up to and including its closing bracket, united with a set, and how deep
brackets are nested in them, given how a nested bracket expression is written behind its opening
bracket. -/
inductive Items (R : Cursor → Cursor → ByteSet → Nat → Cursor → Prop) :
    ByteSet → Cursor → ByteSet → Nat → Cursor → Prop
  | closed {s : ByteSet} {c : Cursor} (hp : c.peek? = some 0x5d) : Items R s c s 0 (c.advance 1)
  | nested {s t members : ByteSet} {c d e : Cursor} {n m : Nat} (hp : c.peek? = some 0x5b)
      (h : R c (c.advance 1) t n d) (hrest : Items R (s.union t) d members m e) :
      Items R s c members (max (n + 1) m) e
  | single {s t members : ByteSet} {c d e : Cursor} {b : UInt8} {m : Nat} (hp : c.peek? = some b)
      (hclosing : b ≠ 0x5d) (hopening : b ≠ 0x5b) (h : byteOrRange c = .ok (t, d))
      (hrest : Items R (s.union t) d members m e) : Items R s c members m e

/-- What stands behind an opening bracket. -/
inductive WrittenOf (R : Cursor → Cursor → ByteSet → Nat → Cursor → Prop) (opening : Cursor) :
    Cursor → ByteSet → Nat → Cursor → Prop
  | named {c d : Cursor} {members : ByteSet} (hp : c.peek? = some 0x3a)
      (h : namedClass opening c = .ok (members, d)) : WrittenOf R opening c members 0 d
  | list {c d : Cursor} {members : ByteSet} {n : Nat} (hp : c.peek? ≠ some 0x3a)
      (h : Items R .empty (if c.peek? == some 0x5e then c.advance 1 else c) members n d) :
      WrittenOf R opening c (complementIf (c.peek? == some 0x5e) members) n d

/-- What stands behind an opening bracket, brackets being nested at most so deep. -/
def WrittenWithin : (depth : Nat) → Cursor → Cursor → ByteSet → Nat → Cursor → Prop
  | 0 => WrittenOf fun _ _ _ _ _ => False
  | depth + 1 => WrittenOf (WrittenWithin depth)

/-- The reader of nested brackets, if there is a level for them. -/
def inner : (levels : Nat) → Option (Cursor → Parse ByteSet)
  | 0 => none
  | levels + 1 => some (bracket levels)

theorem bracket_eq (levels : Nat) : bracket levels = bracketOf (inner levels) := by
  cases levels <;> rfl

theorem passes_bracket (h : bracket levels opening c = .ok (members, d)) : c.Passes d :=
  (carries_bracket (k := 0) Bytes.onNewLine_nil levels opening opening h).1

/-- What the reader of items does at a byte. -/
theorem itemsFrom_of_peek {nested : Option (Cursor → Parse ByteSet)} {b : UInt8}
    (hp : c.peek? = some b) (step : UInt8) (steps : Bytes) :
    itemsFrom nested opening (step :: steps) s c =
      if b == 0x5d then .ok (s, c.advance 1)
      else if b == 0x5b then
        match nested with
        | none => (c.advance 1).fail .nestingTooDeep
        | some bracket => do
          let (t, c) ← bracket c (c.advance 1)
          itemsFrom nested opening steps (s.union t) c
      else (do
        let (t, c) ← byteOrRange c
        itemsFrom nested opening steps (s.union t) c) := by
  rw [itemsFrom.eq_def]
  dsimp only
  generalize c.peek? = ahead at hp
  cases hp
  rfl

/-- Items are decided where nested brackets are. -/
theorem Items.decides
    (hR : ∀ levels opening c t n d, R opening c t n d →
      Decides levels n (t, d) (bracket levels opening c))
    (h : Items R s c members n d) (levels : Nat) (opening : Cursor) (steps : Bytes)
    (hsteps : c.rest.length ≤ steps.length) :
    Decides levels n (members, d) (itemsFrom (inner levels) opening steps s c) := by
  induction h generalizing steps with
  | closed hp =>
    obtain ⟨step, steps, rfl⟩ := exists_step (Cursor.rest_ne_nil_of_peek hp) hsteps
    rw [itemsFrom_of_peek hp]
    exact .of_eq rfl
  | @nested s t members c d e n m hp h hrest ih =>
    obtain ⟨step, steps, rfl⟩ := exists_step (Cursor.rest_ne_nil_of_peek hp) hsteps
    rw [itemsFrom_of_peek hp]
    cases levels with
    | zero => exact .of_tooDeep ⟨_, rfl⟩ (by omega)
    | succ levels =>
      have hone : c.Passes (c.advance 1) := Cursor.passes_of_peek hp
      have hnested := hR levels c (c.advance 1) t n d h
      refine hnested.deeper.bind fun hn => ih steps ?_
      have hread := passes_bracket (hnested.accepts (Nat.le_of_succ_le_succ hn))
      exact (hone.trans hread).steps_left hsteps
  | @single s t members c d e b m hp hclosing hopening h hrest ih =>
    obtain ⟨step, steps, rfl⟩ := exists_step (Cursor.rest_ne_nil_of_peek hp) hsteps
    have hpass : c.Passes d := (byteOrRange_embed (k := 0) Bytes.onNewLine_nil h).1
    have hrest' := ih steps (hpass.steps_left hsteps)
    rw [itemsFrom_of_peek hp, if_neg (by simpa using hclosing), if_neg (by simpa using hopening),
      Except.bind_of_eq_ok h]
    exact hrest'

/-- What stands behind an opening bracket is decided where nested brackets are. -/
theorem WrittenOf.decides
    (hR : ∀ levels opening c t n d, R opening c t n d →
      Decides levels n (t, d) (bracket levels opening c))
    (h : WrittenOf R opening c members n d) (levels : Nat) :
    Decides levels n (members, d) (bracket levels opening c) := by
  rw [bracket_eq, bracketOf]
  cases h with
  | named hp h =>
    rw [if_pos (beq_iff_eq.mpr hp)]
    exact .of_eq h
  | list hp h =>
    rw [if_neg (by simpa using hp)]
    exact (h.decides hR levels opening _ le_rfl).map fun _ => rfl

/-- Bracket expressions are decided. -/
theorem WrittenWithin.decides {depth : Nat} (h : WrittenWithin depth opening c members n d)
    (levels : Nat) : Decides levels n (members, d) (bracket levels opening c) := by
  induction depth generalizing levels opening c members n d with
  | zero => exact WrittenOf.decides (fun _ _ _ _ _ _ hnone => hnone.elim) h levels
  | succ depth ih => exact WrittenOf.decides (fun levels _ _ _ _ _ hR => ih hR levels) h levels

/-- The items that are read are written so, where nested brackets are. -/
theorem items_of_itemsFrom
    (hR : ∀ read ∈ inner levels, ∀ opening c t d, read opening c = .ok (t, d) →
      ∃ n, n + 1 ≤ levels ∧ R opening c t n d)
    (steps : Bytes) (h : itemsFrom (inner levels) opening steps s c = .ok (members, d)) :
    ∃ n ≤ levels, Items R s c members n d := by
  induction steps generalizing s c with
  | nil => cases h
  | cons step steps ih =>
    cases hp : c.peek? with
    | none =>
      rw [itemsFrom_of_nil _ s (Cursor.peek?_eq_none_iff.mp hp)] at h
      cases h
    | some b =>
      rw [itemsFrom_of_peek hp] at h
      split at h
      · rename_i hclosing
        cases h
        exact ⟨0, Nat.zero_le _, .closed (by rw [hp, beq_iff_eq.mp hclosing])⟩
      · rename_i hclosing
        split at h
        · rename_i hopening
          split at h
          · cases h
          · rename_i read hread
            obtain ⟨⟨t, e⟩, ht, h⟩ := Except.exists_of_bind_eq_ok h
            obtain ⟨n, hn, hnested⟩ := hR read hread c (c.advance 1) t e ht
            obtain ⟨m, hm, hrest⟩ := ih h
            exact ⟨max (n + 1) m, max_le hn hm,
              .nested (by rw [hp, beq_iff_eq.mp hopening]) hnested hrest⟩
        · rename_i hopening
          obtain ⟨⟨t, e⟩, ht, h⟩ := Except.exists_of_bind_eq_ok h
          obtain ⟨m, hm, hrest⟩ := ih h
          exact ⟨m, hm, .single hp (by simpa using hclosing) (by simpa using hopening) ht hrest⟩

theorem writtenOf_of_bracketOf (levels : Nat)
    (hR : ∀ read ∈ inner levels, ∀ opening c t d, read opening c = .ok (t, d) →
      ∃ n, n + 1 ≤ levels ∧ R opening c t n d)
    (h : bracketOf (inner levels) opening c = .ok (members, d)) :
    ∃ n ≤ levels, WrittenOf R opening c members n d := by
  rw [bracketOf] at h
  split at h
  · rename_i hp
    exact ⟨0, Nat.zero_le _, .named (beq_iff_eq.mp hp) h⟩
  · rename_i hp
    obtain ⟨⟨t, e⟩, ht, h⟩ := Except.exists_of_bind_eq_ok h
    cases h
    obtain ⟨n, hn, hitems⟩ := items_of_itemsFrom hR _ ht
    exact ⟨n, hn, .list (by simpa using hp) hitems⟩

/-- The bracket expressions that are read are written so. -/
theorem writtenWithin_of_bracket (h : bracket levels opening c = .ok (members, d)) :
    ∃ n ≤ levels, WrittenWithin levels opening c members n d := by
  induction levels generalizing opening c members d with
  | zero => exact writtenOf_of_bracketOf 0 (fun _ hread => by cases hread) h
  | succ levels ih =>
    refine writtenOf_of_bracketOf (levels + 1) (fun read hread opening c t d ht => ?_) h
    cases hread
    obtain ⟨n, hn, hwritten⟩ := ih ht
    exact ⟨n, Nat.succ_le_succ hn, hwritten⟩

end Bracket

end PatternEngine
