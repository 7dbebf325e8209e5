import PatternEngine.Proofs.Engine.Registries
import PatternEngine.Proofs.Text.Ascii
import PatternEngine.Proofs.Text.JsonLayouts

/-!
# Two ways to encode a match

Searches with the encoders of a workspace take another way than those with encoders that need
nothing but the match: the program is found by the key of the handle, and the match is handed over
as a table. Both ways find the same match, the table has the places of the match, and so what is
put out for it agrees.
-/

namespace PatternEngine

/-! ## Tables of matches -/

/-- Places that are counted from one stand for the offsets before them. -/
theorem Bytes.between_eq_slice (bytes : Bytes) (start stop : Nat) :
    bytes.between (start + 1) stop = bytes.slice start stop := by
  have hfirst : placeOf bytes.length (start + 1) = start + 1 := if_neg (by omega)
  have hlast : placeOf bytes.length stop = stop := if_neg (by omega)
  have hstart : ((max (start + 1 : Int) 1) - 1).toNat = start := by omega
  have hstop : (min (stop : Int) bytes.length).toNat = min stop bytes.length := by omega
  rw [between, hfirst, hlast, hstart, hstop, slice, slice, List.take_eq_take_iff]
  rw [List.length_drop]
  omega

namespace MatchTree

variable (input : Bytes)

theorem tableList_eq_map (trees : List MatchTree) :
    tableList input trees = trees.map (table input) := by
  induction trees with
  | nil => rfl
  | cons tree trees ih => rw [tableList, ih, List.map_cons]

theorem subs_table (tree : MatchTree) : (tree.table input).subs = tree.subs.map (table input) := by
  obtain ⟨name, start, stop, subs⟩ := tree
  rw [table, MatchTable.subs, tableList_eq_map]
  rfl

/-- The text of a table is the text of the match. -/
theorem text_table (tree : MatchTree) : (tree.table input).text input = tree.text input := by
  obtain ⟨name, start, stop, subs⟩ := tree
  rw [table, MatchTable.text, MatchTable.first, MatchTable.behind, Int.add_sub_cancel]
  exact Bytes.between_eq_slice input start stop

mutual

/-- A table has the members that describe the match. -/
theorem toJson_table : ∀ tree, (table input tree).toJson = toJson input tree
  | .node name start stop [] => by
    simp [table, tableList, MatchTable.toJson, toJson, Json.nat]
  | .node name start stop (sub :: subs) => by
    have hsubs := toJsonList_tableList (sub :: subs)
    simp only [tableList] at hsubs
    simp [table, tableList, MatchTable.toJson, toJson, Json.nat, hsubs]

theorem toJsonList_tableList : ∀ trees,
    MatchTable.toJsonList (tableList input trees) = toJsonList input trees
  | [] => rfl
  | tree :: trees => by
    rw [tableList, MatchTable.toJsonList, toJsonList, toJson_table tree, toJsonList_tableList trees]

end

end MatchTree

namespace TextEncoder

variable (palette : Palette) (input : Bytes) (tree : MatchTree)

theorem joinLines_eq_intercalate (lines : List Bytes) :
    joinLines lines = List.intercalate [0x0a] lines := by
  induction lines with
  | nil => rfl
  | cons line lines ih =>
    cases lines with
    | nil => simp [joinLines, List.intercalate]
    | cons next lines =>
      have hrest : joinLines (line :: next :: lines) =
          line ++ 0x0a :: joinLines (next :: lines) := rfl
      rw [hrest, ih]
      simp [List.intercalate]

theorem encodeTable_indentedJson :
    encodeTable .indentedJson palette (tree.table input) input =
      Bytes.ofString (tree.toJson input).sortKeys.pretty := by
  rw [encodeTable, MatchTree.toJson_table]

theorem encodeTable_subs_of_nil (h : tree.subs = []) :
    encodeTable .subs palette (tree.table input) input = tree.text input := by
  rw [encodeTable, MatchTree.subs_table, h]
  exact tree.text_table input

theorem encodeTable_subs_of_ne_nil (h : tree.subs ≠ []) :
    encodeTable .subs palette (tree.table input) input =
      List.intercalate [0x0a] (tree.subs.map fun sub => input.slice sub.start sub.stop) := by
  have htexts : (MatchTable.text input) ∘ (MatchTree.table input) = MatchTree.text input :=
    funext fun sub => sub.text_table input
  rw [encodeTable, MatchTree.subs_table]
  cases hsubs : tree.subs with
  | nil => exact absurd hsubs h
  | cons sub subs =>
    rw [List.map_cons]
    dsimp only
    rw [← List.map_cons, List.map_map, htexts, joinLines_eq_intercalate]
    rfl

end TextEncoder

/-- The text that some bytes are denotes a value. -/
def Json.Denotes (output : Bytes) (value : Json) : Prop :=
  ∃ text, output = Bytes.ofString text ∧ Json.read? text = some value

/-- Bytes denote at most one value. -/
theorem Json.Denotes.unique {output : Bytes} {value value' : Json} (h : Denotes output value)
    (h' : Denotes output value') : value = value' := by
  obtain ⟨text, rfl, hread⟩ := h
  obtain ⟨text', heq, hread'⟩ := h'
  cases Bytes.ofString_injective heq
  exact Option.some.inj (hread.symm.trans hread')

namespace Engine

variable {e : Engine} {pattern : PatternHandle} {held : HeldPattern}

/-- Two results that report a match or report none alike: output that was made in the workspace on
one side and output that was not on the other, or no match on either. -/
structure Agrees (general fast : MatchResult) : Prop where
  data : (∃ output output', general.data = .text output ∧ fast.data = .buffer output') ∨
    general.data = .status Status.noMatch ∧ fast.data = .status Status.noMatch
  leftover : general.leftover = fast.leftover
  abend : general.abend = fast.abend

/-- A search with an encoder that needs nothing but the match. -/
theorem matchInput_encoder (hheld : e.held? pattern = some held) (start : Int) (encoder : Encoder)
    (input : Bytes) : e.matchInput pattern start encoder.name input =
      let outcome := held.program.find input (startOf start)
      ⟨match encoder.encode outcome input with
        | .bytes output => .buffer output
        | .status code => .status code,
        clampCount outcome.leftover, outcome.abend⟩ := by
  have hname : Encoder.ofName? encoder.name = some encoder := by cases encoder <;> rfl
  rw [matchInput, hheld]
  dsimp only
  generalize Encoder.ofName? encoder.name = found at hname ⊢
  cases hname
  rfl

/-- A search with an encoder of the workspace finds what the program of the handle finds. -/
theorem matchInput_textEncoder (h : e.Registered) (hheld : e.held? pattern = some held)
    (start : Int) (encoder : TextEncoder) (input : Bytes) :
    e.matchInput pattern start encoder.name input =
      let outcome := held.program.find input (startOf start)
      ⟨match outcome.tree with
        | some tree =>
          .text (encoder.encodeTable e.workspace.palette (tree.table input) input)
        | none => .status Status.noMatch,
        clampCount outcome.leftover, outcome.abend⟩ := by
  have hname : Encoder.ofName? encoder.name = none := by cases encoder <;> rfl
  have hname' : TextEncoder.ofName? encoder.name = some encoder := by cases encoder <;> rfl
  obtain ⟨hissued, hprogram⟩ := h.of_held? hheld
  rw [matchInput, hheld, hname]
  dsimp only
  rw [Workspace.matchWith, if_pos hissued, hprogram]
  dsimp only
  rw [Workspace.replyOf, hname']
  dsimp only
  cases (held.program.find input (startOf start)).tree <;> rfl

/-- What a search puts out with an encoder that needs nothing but the match. -/
theorem data_encoder (hheld : e.held? pattern = some held) (encoder : Encoder) {start : Int}
    {input output : Bytes} {tree : MatchTree}
    (htree : (held.program.find input (startOf start)).tree = some tree)
    (houtput : encoder.encodeTree tree input = .bytes output) :
    (e.matchInput pattern start encoder.name input).data = .buffer output := by
  rw [matchInput_encoder hheld]
  dsimp only
  rw [Encoder.encode, htree]
  dsimp only
  rw [houtput]

/-- What a search puts out with an encoder of the workspace is made from a match. -/
theorem exists_tree_of_data (h : e.Registered) (hheld : e.held? pattern = some held)
    (encoder : TextEncoder) {start : Int} {input output : Bytes}
    (hdata : (e.matchInput pattern start encoder.name input).data = .text output) :
    ∃ tree, (held.program.find input (startOf start)).tree = some tree ∧
      output = encoder.encodeTable e.workspace.palette (tree.table input) input := by
  rw [matchInput_textEncoder h hheld] at hdata
  dsimp only at hdata
  cases htree : (held.program.find input (startOf start)).tree with
  | none =>
    rw [htree] at hdata
    cases hdata
  | some tree =>
    rw [htree] at hdata
    cases hdata
    exact ⟨tree, rfl, rfl⟩

theorem agrees_textEncoder (h : e.Registered) (hheld : e.held? pattern = some held)
    (start : Int) (encoder : TextEncoder) (input : Bytes) :
    Agrees (e.matchInput pattern start encoder.name input)
      (e.matchInput pattern start Encoder.json.name input) := by
  rw [matchInput_textEncoder h hheld, matchInput_encoder hheld]
  refine ⟨?_, rfl, rfl⟩
  simp only [Encoder.encode]
  cases (held.program.find input (startOf start)).tree with
  | none => exact .inr ⟨rfl, rfl⟩
  | some tree => exact .inl ⟨_, _, rfl, rfl⟩

/-- Where a handle leads somewhere, searches with an encoder of the workspace agree with those that
take the short way. The indented output denotes the value that the compact output denotes. The
texts of the matches inside the match are put out one to a line, and where there are none the text
of the match is. -/
theorem matchInput_agrees (h : e.Reachable) (hheld : e.held? pattern = some held) (start : Int)
    (input : Bytes) :
    (∀ encoder ∈ ["subs", "jsonpp", "color"],
      Agrees (e.matchInput pattern start encoder input) (e.matchInput pattern start "json" input)) ∧
    (∀ indented, (e.matchInput pattern start "jsonpp" input).data = .text indented →
      ∃ compact value value', (e.matchInput pattern start "json" input).data = .buffer compact ∧
        Json.Denotes indented value ∧ Json.Denotes compact value' ∧ Json.Same value' value) ∧
    (∀ output, (e.matchInput pattern start "subs" input).data = .text output →
      ∃ tree, (held.program.find input (startOf start)).tree = some tree ∧
        (tree.subs = [] →
          (e.matchInput pattern start "matches" input).data = .buffer output) ∧
        (tree.subs ≠ [] → output =
          List.intercalate [0x0a] (tree.subs.map fun sub => input.slice sub.start sub.stop))) := by
  have hregistered := h.registered
  refine ⟨fun encoder hencoder => ?_, fun indented hindented => ?_, fun output houtput => ?_⟩
  · simp only [List.mem_cons, List.not_mem_nil, or_false] at hencoder
    rcases hencoder with rfl | rfl | rfl
    · exact agrees_textEncoder hregistered hheld start .subs input
    · exact agrees_textEncoder hregistered hheld start .indentedJson input
    · exact agrees_textEncoder hregistered hheld start .color input
  · obtain ⟨tree, htree, rfl⟩ := exists_tree_of_data hregistered hheld .indentedJson hindented
    have hcompact : (e.matchInput pattern start "json" input).data =
        .buffer (Bytes.ofString (tree.toJson input).compact) :=
      data_encoder hheld .json htree rfl
    exact ⟨_, (tree.toJson input).sortKeys, tree.toJson input, hcompact,
      ⟨_, TextEncoder.encodeTable_indentedJson _ _ _, Json.read?_pretty _⟩,
      ⟨_, rfl, Json.read?_compact _⟩, Json.same_sortKeys _⟩
  · obtain ⟨tree, htree, rfl⟩ := exists_tree_of_data hregistered hheld .subs houtput
    refine ⟨tree, htree, fun hnil => ?_, fun hne => ?_⟩
    · rw [TextEncoder.encodeTable_subs_of_nil _ _ _ hnil]
      exact data_encoder hheld .text htree rfl
    · exact TextEncoder.encodeTable_subs_of_ne_nil _ _ _ hne

/-- An engine whose one pattern records any two characters one by one. -/
def recordingTwo : Engine :=
  (((boot 1 ⟨"/opt", "/opt/lib/boot.lua", "/opt/rpl", .installation, "/root/.rc"⟩).answer ⟨[]⟩
    (.load "d = .")).2).serve (.compile "d d")

/-- The two ways agree on an input that is not text. -/
theorem matchInput_agrees_recordingTwo :
    recordingTwo.Reachable ∧ ∃ held, recordingTwo.held? ⟨1, 1⟩ = some held ∧
      Agrees (recordingTwo.matchInput ⟨1, 1⟩ 1 "color" [0x61, 0xff, 0x62])
        (recordingTwo.matchInput ⟨1, 1⟩ 1 "json" [0x61, 0xff, 0x62]) ∧
      (recordingTwo.matchInput ⟨1, 1⟩ 1 "subs" [0x61, 0xff, 0x62]).data =
        .text [0x61, 0x0a, 0xff] ∧
      ∃ tree, (held.program.find [0x61, 0xff, 0x62] 1).tree = some tree ∧
        (tree.subs ≠ [] → ([0x61, 0x0a, 0xff] : Bytes) = List.intercalate [0x0a]
          (tree.subs.map fun sub => Bytes.slice [0x61, 0xff, 0x62] sub.start sub.stop)) := by
  have hreachable : recordingTwo.Reachable := .serve (.answer (.boot _ _) _ _) _
  have hheld : (recordingTwo.held? ⟨1, 1⟩).isSome := by cbv
  obtain ⟨held, hheld⟩ := Option.isSome_iff_exists.mp hheld
  obtain ⟨hagrees, -, hsubs⟩ := matchInput_agrees hreachable hheld 1 [0x61, 0xff, 0x62]
  have houtput : (recordingTwo.matchInput ⟨1, 1⟩ 1 "subs" [0x61, 0xff, 0x62]).data =
      .text [0x61, 0x0a, 0xff] := by cbv
  obtain ⟨tree, htree, -, hlines⟩ := hsubs _ houtput
  exact ⟨hreachable, held, hheld, hagrees "color" (by simp), houtput, tree, htree, hlines⟩

end Engine

end PatternEngine
