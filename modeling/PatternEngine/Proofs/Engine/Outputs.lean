import PatternEngine.Engine.Workspace
import PatternEngine.Proofs.Engine.EncoderPaths
import PatternEngine.Proofs.Match.Checked

/-!
# Outputs cut within the input

The encoders and the renderer of traces once more, each cut out of the input checked. A text that is
cut by offsets has to be that between two of them in order; one that is cut by places counted from
one may not lean on places that are moved to the ends of the input.

Well-formed matches and attempts within the input never fail a check, and those are all that a
search finds and notes.
-/

namespace PatternEngine

/-- The bytes from one place up to another, both included and counted from one, if there are such
places; the second may be the one before the first. -/
def Bytes.between? (bytes : Bytes) (first last : Int) : Option Bytes :=
  if 1 ≤ first ∧ first ≤ last + 1 ∧ last ≤ bytes.length then some (bytes.between first last)
  else none

theorem Bytes.between?_eq_some {bytes : Bytes} {start stop : Nat} (hle : start ≤ stop)
    (hstop : stop ≤ bytes.length) :
    bytes.between? (start + 1) stop = some (bytes.between (start + 1) stop) :=
  if_pos ⟨by omega, by omega, by omega⟩

/-- Steps that succeed one by one succeed along a list. -/
theorem mapM_eq_some_map {α β : Type} {f : α → Option β} {g : α → β} {items : List α}
    (h : ∀ item ∈ items, f item = some (g item)) : items.mapM f = some (items.map g) := by
  induction items with
  | nil => rfl
  | cons item items ih =>
    obtain ⟨hitem, hitems⟩ := List.forall_mem_cons.mp h
    rw [List.mapM_cons, hitem, ih hitems]
    rfl

namespace MatchTree

variable {input : Bytes}

/-- What is inside a well-formed match lies between its ends. -/
theorem WellFormed.between {name : String} {start stop : Nat} {subs : List MatchTree}
    (h : (MatchTree.node name start stop subs).WellFormed) : Between start stop subs := by
  cases h with
  | node hle hwithin hordered hsubs => exact ⟨hle, hwithin, hordered, hsubs⟩

theorem WellFormed.start_le_stop {tree : MatchTree} (h : tree.WellFormed) :
    tree.start ≤ tree.stop := by
  cases h with
  | node hle _ _ _ => exact hle

/-- The text of a match that ends within the input can be cut out of it. -/
theorem WellFormed.slice? {name : String} {start stop : Nat} {subs : List MatchTree}
    (h : (MatchTree.node name start stop subs).WellFormed) (hstop : stop ≤ input.length) :
    input.slice? start stop = some (input.slice start stop) :=
  Bytes.slice?_eq_some h.start_le_stop hstop

/-- A match inside a well-formed one is so itself and ends no later. -/
theorem WellFormed.of_mem_subs {tree sub : MatchTree} (h : tree.WellFormed)
    (hsub : sub ∈ tree.subs) : sub.WellFormed ∧ sub.stop ≤ tree.stop := by
  obtain ⟨name, start, stop, subs⟩ := tree
  have hb := h.between
  exact ⟨hb.wellFormed sub hsub, (hb.within sub hsub).2⟩

/-- The first of the matches between two offsets starts behind the one, and the others lie between
its end and the other. -/
theorem Between.of_cons {start stop : Nat} {tree : MatchTree} {forest : List MatchTree}
    (h : Between start stop (tree :: forest)) :
    start ≤ tree.start ∧ tree.stop ≤ stop ∧ tree.WellFormed ∧ Between tree.stop stop forest := by
  obtain ⟨hfirst, hrest⟩ := List.pairwise_cons.mp h.ordered
  have htree := h.within tree List.mem_cons_self
  refine ⟨htree.1, htree.2, h.wellFormed tree List.mem_cons_self, htree.2, fun later hl => ?_, hrest,
    fun later hl => h.wellFormed later (List.mem_cons_of_mem _ hl)⟩
  exact ⟨hfirst later hl, (h.within later (List.mem_cons_of_mem _ hl)).2⟩

/-- The match and all matches inside it begin no later than they end, and end within an input of
this length. They may lie anywhere in it. -/
inductive InRange (size : Nat) : MatchTree → Prop
  | node {name : String} {start stop : Nat} {subs : List MatchTree} (hle : start ≤ stop)
      (hstop : stop ≤ size) (hsubs : ∀ sub ∈ subs, InRange size sub) :
      InRange size (.node name start stop subs)

/-- Well-formed matches that end within the input lie within it. -/
theorem WellFormed.inRange {size : Nat} {tree : MatchTree} (h : tree.WellFormed)
    (hstop : tree.stop ≤ size) : tree.InRange size := by
  induction h with
  | node hle hwithin _ _ ih =>
    exact .node hle hstop fun sub hsub => ih sub hsub ((hwithin sub hsub).2.trans hstop)

/-! ## Matches by offsets -/

/-- The text of a match, if its ends are offsets of the input. -/
def text? (input : Bytes) (tree : MatchTree) : Option Bytes := input.slice? tree.start tree.stop

theorem text?_eq_some {tree : MatchTree} (h : tree.InRange input.length) :
    tree.text? input = some (tree.text input) := by
  cases h with
  | node hle hstop _ => exact Bytes.slice?_eq_some hle hstop

mutual

/-- The members that describe a match, with every text checked. -/
def toJson? (input : Bytes) : MatchTree → Option Json
  | .node name start stop subs => do
    let data ← input.slice? start stop
    let members : List (String × Json) :=
      [("type", .str name), ("s", .nat (start + 1)), ("e", .nat (stop + 1)),
        ("data", .str (Utf8.decodeLossy data))]
    match subs with
    | [] => pure (.obj members)
    | sub :: subs =>
      let inner ← toJsonList? input (sub :: subs)
      pure (.obj (members ++ [("subs", .arr inner)]))

/-- The descriptions of a list of matches, with every text checked. -/
def toJsonList? (input : Bytes) : List MatchTree → Option (List Json)
  | [] => some []
  | tree :: trees => do
    let first ← toJson? input tree
    let others ← toJsonList? input trees
    pure (first :: others)

end

mutual

theorem toJson?_eq_some : ∀ {tree : MatchTree}, tree.InRange input.length →
    tree.toJson? input = some (tree.toJson input)
  | .node name start stop [], .node hle hstop _ => by
    rw [toJson?, toJson, Bytes.slice?_eq_some hle hstop]
    rfl
  | .node name start stop (sub :: subs), .node hle hstop hsubs => by
    rw [toJson?, toJson, Bytes.slice?_eq_some hle hstop]
    simp only [Option.bind_eq_bind, Option.bind_some, toJsonList?_eq_some hsubs]
    rfl

theorem toJsonList?_eq_some : ∀ {trees : List MatchTree},
    (∀ tree ∈ trees, tree.InRange input.length) →
    toJsonList? input trees = some (toJsonList input trees)
  | [], _ => rfl
  | tree :: trees, h => by
    obtain ⟨hfirst, hrest⟩ := List.forall_mem_cons.mp h
    rw [toJsonList?, toJsonList, toJson?_eq_some hfirst, toJsonList?_eq_some hrest]
    rfl

end

mutual

/-- A match as a table, with every text checked. -/
def table? (input : Bytes) : MatchTree → Option MatchTable
  | .node name start stop subs => do
    let data ← input.slice? start stop
    let inner ← tableList? input subs
    pure (.node name (start + 1) (stop + 1) (Utf8.decodeLossy data) inner)

/-- The matches of a list as tables, with every text checked. -/
def tableList? (input : Bytes) : List MatchTree → Option (List MatchTable)
  | [] => some []
  | tree :: trees => do
    let first ← table? input tree
    let others ← tableList? input trees
    pure (first :: others)

end

mutual

theorem table?_eq_some : ∀ {tree : MatchTree}, tree.WellFormed → tree.stop ≤ input.length →
    tree.table? input = some (tree.table input)
  | .node name start stop subs, h, hstop => by
    rw [table?, table, h.slice? hstop,
      tableList?_eq_some h.between hstop]
    rfl

theorem tableList?_eq_some : ∀ {trees : List MatchTree} {start stop : Nat},
    Between start stop trees → stop ≤ input.length →
    tableList? input trees = some (tableList input trees)
  | [], _, _, _, _ => rfl
  | tree :: trees, _, _, h, hstop => by
    obtain ⟨-, hle, hfirst, hrest⟩ := h.of_cons
    rw [tableList?, tableList, table?_eq_some hfirst (hle.trans hstop),
      tableList?_eq_some hrest hstop]
    rfl

end

end MatchTree

namespace Encoder

/-- The output for a match, with every text checked. -/
def encodeTree? (encoder : Encoder) (tree : MatchTree) (input : Bytes) : Option Encoded :=
  match encoder with
  | .json => (tree.toJson? input).map fun json => .bytes (Bytes.ofString json.compact)
  | .line => some (.bytes input)
  | .bool => some (.status Status.isMatch)
  | .text => (tree.text? input).map .bytes

theorem encodeTree?_eq_some {tree : MatchTree} {input : Bytes} (encoder : Encoder)
    (h : tree.InRange input.length) :
    encoder.encodeTree? tree input = some (encoder.encodeTree tree input) := by
  cases encoder with
  | json => rw [encodeTree?, MatchTree.toJson?_eq_some h]; rfl
  | line | bool => rfl
  | text => rw [encodeTree?, MatchTree.text?_eq_some h]; rfl

/-- The output for the outcome of a search, with every text checked. -/
def encode? (encoder : Encoder) (outcome : Outcome) (input : Bytes) : Option Encoded :=
  match outcome.tree with
  | none => some (.status Status.noMatch)
  | some tree => encoder.encodeTree? tree input

end Encoder

/-! ## Matches by places -/

namespace MatchTable

/-- The text of a match, if its places are there. -/
def text? (input : Bytes) (table : MatchTable) : Option Bytes :=
  input.between? table.first (table.behind - 1)

mutual

/-- The pieces of a match, with every text checked. -/
def paint? (palette : Palette) (input : Bytes) : MatchTable → Option (List Segment)
  | .node name first behind data [] => do
    let text ← text? input (.node name first behind data [])
    pure [.painted (palette.colorOf name) text]
  | .node _ first behind _ (sub :: subs) => paintFrom? palette input behind first (sub :: subs)

/-- The pieces from a place up to the end of a match, with every text checked. -/
def paintFrom? (palette : Palette) (input : Bytes) (behind : Int) :
    Int → List MatchTable → Option (List Segment)
  | pos, [] => do
    let text ← input.between? pos (behind - 1)
    pure [.plain text]
  | pos, sub :: subs => do
    let text ← input.between? pos (sub.first - 1)
    let inner ← paint? palette input sub
    let others ← paintFrom? palette input behind sub.behind subs
    pure (.plain text :: inner ++ others)

end

end MatchTable

namespace MatchTree

variable {input : Bytes} {palette : Palette}

theorem first_table (tree : MatchTree) : (tree.table input).first = tree.start + 1 := by
  cases tree
  rfl

theorem behind_table (tree : MatchTree) : (tree.table input).behind = tree.stop + 1 := by
  cases tree
  rfl

theorem text?_table {tree : MatchTree} (h : tree.WellFormed) (hstop : tree.stop ≤ input.length) :
    MatchTable.text? input (tree.table input) = some (MatchTable.text input (tree.table input)) := by
  rw [MatchTable.text?, MatchTable.text, first_table, behind_table, Int.add_sub_cancel]
  exact Bytes.between?_eq_some h.start_le_stop hstop

mutual

theorem paint?_table : ∀ {tree : MatchTree}, tree.WellFormed → tree.stop ≤ input.length →
    (tree.table input).paint? palette input = some ((tree.table input).paint palette input)
  | .node name start stop [], h, hstop => by
    have ht := text?_table h hstop
    rw [table, tableList] at ht ⊢
    rw [MatchTable.paint?, MatchTable.paint, ht]
    rfl
  | .node name start stop (sub :: subs), h, hstop => by
    have hfrom := paintFrom?_tables h.between hstop
    rw [tableList] at hfrom
    rw [table, tableList, MatchTable.paint?, MatchTable.paint]
    exact hfrom

theorem paintFrom?_tables : ∀ {trees : List MatchTree} {start stop : Nat},
    Between start stop trees → stop ≤ input.length →
    MatchTable.paintFrom? palette input (stop + 1) (start + 1) (tableList input trees) =
      some (MatchTable.paintFrom palette input (stop + 1) (start + 1) (tableList input trees))
  | [], start, stop, h, hstop => by
    rw [tableList, MatchTable.paintFrom?, MatchTable.paintFrom, Int.add_sub_cancel,
      Bytes.between?_eq_some h.le hstop]
    rfl
  | tree :: trees, start, stop, h, hstop => by
    obtain ⟨hstart, hle, hfirst, hrest⟩ := h.of_cons
    have htree := hle.trans hstop
    rw [tableList, MatchTable.paintFrom?, MatchTable.paintFrom, first_table, behind_table,
      Int.add_sub_cancel, Bytes.between?_eq_some hstart (hfirst.start_le_stop.trans htree),
      paint?_table hfirst htree, paintFrom?_tables hrest hstop]
    rfl

end

end MatchTree

namespace TextEncoder

/-- The output for a match, with every text checked. -/
def encodeTable? (encoder : TextEncoder) (palette : Palette) (table : MatchTable) (input : Bytes) :
    Option Bytes :=
  match encoder with
  | .indentedJson => some (Bytes.ofString table.toJson.sortKeys.pretty)
  | .color => (table.paint? palette input).map fun pieces => pieces.flatMap Segment.render
  | .subs =>
    match table.subs with
    | [] => table.text? input
    | first :: others => ((first :: others).mapM (MatchTable.text? input)).map joinLines

theorem encodeTable?_eq_some {tree : MatchTree} {input : Bytes} (encoder : TextEncoder)
    (palette : Palette) (h : tree.WellFormed) (hstop : tree.stop ≤ input.length) :
    encoder.encodeTable? palette (tree.table input) input =
      some (encoder.encodeTable palette (tree.table input) input) := by
  cases encoder with
  | indentedJson => rfl
  | color =>
    rw [encodeTable?, MatchTree.paint?_table h hstop]
    rfl
  | subs =>
    have htexts (table : MatchTable) (ht : table ∈ (tree.table input).subs) :
        table.text? input = some (table.text input) := by
      rw [MatchTree.subs_table] at ht
      obtain ⟨sub, hsub, rfl⟩ := List.mem_map.mp ht
      obtain ⟨hwf, hle⟩ := h.of_mem_subs hsub
      exact MatchTree.text?_table hwf (hle.trans hstop)
    rw [encodeTable?, encodeTable]
    cases hsubs : (tree.table input).subs with
    | nil => exact MatchTree.text?_table h hstop
    | cons first others =>
      rw [hsubs] at htexts
      simp only [mapM_eq_some_map htexts]
      rfl

end TextEncoder

/-! ## Traces -/

namespace Trace

/-- A line with the text that was matched, which is checked. -/
def fullLine? (input : Bytes) (attempt : Attempt) : Option String :=
  let start := (attempt.start + 1).repr
  let place := indent attempt.depth ++ attempt.name ++ " at " ++ start ++ ": "
  match attempt.stop with
  | some stop => do
    let text ← input.slice? attempt.start stop
    pure (place ++ "matched " ++ Quoted.quote (Utf8.decodeLossy text) ++
      " (" ++ start ++ ".." ++ (stop + 1).repr ++ ")\n")
  | none => some (place ++ "no match\n")

/-- The output of a trace, with every text checked. -/
def render? (trace : Trace) (p : Program) (input : Bytes) : TraceStyle → Option String
  | .json => some (trace.toJson p).compact
  | .full => do
    let lines ← trace.attempts.mapM (fullLine? input)
    pure (heading p input ++ String.join lines ++ trace.footing)
  | .condensed => some (String.join (trace.attempts.map condensedLine) ++ trace.footing)

theorem fullLine?_eq_some {input : Bytes} {attempt : Attempt} (h : attempt.Within input) :
    fullLine? input attempt = some (fullLine input attempt) := by
  obtain ⟨name, depth, start, stop⟩ := attempt
  cases stop with
  | none => rfl
  | some stop =>
    obtain ⟨hle, hstop⟩ := h.stop stop rfl
    simp only [fullLine?, fullLine, Bytes.slice?_eq_some hle hstop]
    rfl

theorem render?_eq_some {trace : Trace} {input : Bytes} (p : Program) (style : TraceStyle)
    (h : ∀ attempt ∈ trace.attempts, attempt.Within input) :
    trace.render? p input style = some (trace.render p input style) := by
  cases style with
  | json | condensed => rfl
  | full =>
    rw [render?, mapM_eq_some_map fun attempt hattempt => fullLine?_eq_some (h attempt hattempt)]
    rfl

end Trace

/-! ## What a search finds -/

namespace Program

variable {p : Program} {input : Bytes} {start room : Nat} {limits : Limits}

theorem encode?_search (encoder : Encoder) :
    encoder.encode? (p.search input start limits room).1 input =
      some (encoder.encode (p.search input start limits room).1 input) := by
  rw [Encoder.encode?, Encoder.encode]
  cases htree : (p.search input start limits room).1.tree with
  | none => rfl
  | some tree =>
    obtain ⟨-, hstop, hwf, -⟩ := search_tree htree
    exact encoder.encodeTree?_eq_some (hwf.inRange (by omega))

theorem render?_trace (style : TraceStyle) :
    (p.trace input start).render? p input style =
      some ((p.trace input start).render p input style) := by
  refine Trace.render?_eq_some p style fun attempt hattempt => ?_
  exact within_of_search attempt (List.mem_reverse.mp hattempt)

/-- Every evaluation that starts within the input and matches ends within it, not before it started.
So no check fails: not in a search with checked offsets, which finds and notes what the search on
places does, nor in any encoder or in the renderer of traces. The match that a search finds begins
at its first offset or behind, all behind the match is left over, the matches inside it lie in it in
order and without overlap, and there are no more levels of them than captures may be nested. -/
theorem search_in_range (p : Program) (input : Bytes) (start : Nat) (limits : Limits) (room : Nat) :
    (∀ (q : Pattern) (maxDepth depth pos : Nat) (run after : Run) (behind : Place),
      pos ≤ input.length →
      q.eval maxDepth depth (.within input pos) run = (.matched behind, after) →
        ∃ stop, behind = .within input stop ∧ pos ≤ stop ∧ stop ≤ input.length) ∧
      (∃ s, Checked.search p input start limits room =
          some ((p.search input start limits room).1, s) ∧
        s.log.toList = (p.search input start limits room).2.attempts.reverse ∧
        s.truncated = (p.search input start limits room).2.truncated) ∧
      (∀ encoder : Encoder, encoder.encode? (p.search input start limits room).1 input =
        some (encoder.encode (p.search input start limits room).1 input)) ∧
      (∀ style, (p.trace input start).render? p input style =
        some ((p.trace input start).render p input style)) ∧
      ∀ tree, (p.search input start limits room).1.tree = some tree →
        tree.table? input = some (tree.table input) ∧
        (∀ (encoder : TextEncoder) (palette : Palette),
          encoder.encodeTable? palette (tree.table input) input =
            some (encoder.encodeTable palette (tree.table input) input)) ∧
        max start 1 - 1 ≤ tree.start ∧
        tree.stop + (p.search input start limits room).1.leftover = input.length ∧
        tree.WellFormed ∧ tree.levels ≤ limits.depth := by
  refine ⟨fun q maxDepth depth pos run after behind => Pattern.eval_bounds,
    Checked.search_eq_some p input start limits room, encode?_search, render?_trace,
    fun tree htree => ?_⟩
  obtain ⟨hstart, hstop, hwf, hlevels⟩ := search_tree htree
  have hend : tree.stop ≤ input.length := by omega
  exact ⟨MatchTree.table?_eq_some hwf hend,
    fun encoder palette => encoder.encodeTable?_eq_some palette hwf hend, hstart, hstop, hwf, hlevels⟩

/-- A character and what follows it, each in a capture of its own. -/
def characterAndRest : Program where
  typeName := "*"
  body := .seq [.capture "first" .any, .capture "rest" (.repetition .any 0 none)]
  expression := "first rest"

/-- A character of two bytes in front of a letter is found behind a first letter, in two levels of
matches, which are as many as there may be. -/
theorem search_in_range_two_levels :
    (characterAndRest.search [0x61, 0xc3, 0xa9, 0x62] 2 ⟨20, 2⟩ 3).1 =
        ⟨some (.node "*" 1 4 [.node "first" 1 3 [], .node "rest" 3 4 []]), 0, false⟩ ∧
      (∃ s, Checked.search characterAndRest [0x61, 0xc3, 0xa9, 0x62] 2 ⟨20, 2⟩ 3 =
        some ((characterAndRest.search [0x61, 0xc3, 0xa9, 0x62] 2 ⟨20, 2⟩ 3).1, s)) ∧
      (MatchTree.node "*" 1 4 [.node "first" 1 3 [], .node "rest" 3 4 []]).WellFormed ∧
      (MatchTree.node "*" 1 4 [.node "first" 1 3 [], .node "rest" 3 4 []]).levels ≤ 2 := by
  have hfound : (characterAndRest.search [0x61, 0xc3, 0xa9, 0x62] 2 ⟨20, 2⟩ 3).1 =
      ⟨some (.node "*" 1 4 [.node "first" 1 3 [], .node "rest" 3 4 []]), 0, false⟩ := by rfl
  obtain ⟨-, ⟨s, hs, -⟩, -, -, htree⟩ :=
    search_in_range characterAndRest [0x61, 0xc3, 0xa9, 0x62] 2 ⟨20, 2⟩ 3
  obtain ⟨-, -, -, -, hwf, hlevels⟩ := htree _ (congrArg Outcome.tree hfound)
  exact ⟨hfound, ⟨s, hs⟩, hwf, hlevels⟩

end Program

end PatternEngine
