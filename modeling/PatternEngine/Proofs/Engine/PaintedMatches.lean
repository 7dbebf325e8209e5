import PatternEngine.Proofs.Engine.Outputs

/-!
# The text in painted matches

The pieces that the colour encoder puts out for a match are the text of the match, cut at the ends
of the matches inside it that have none inside themselves. These are painted, each in its own colour
or in that of names without one, which is there whatever colours are set.
-/

namespace PatternEngine

variable {input : Bytes} {palette : Palette}

/-- Two slices that meet are one slice. -/
theorem Bytes.slice_append {start mid stop : Nat} (bytes : Bytes) (hstart : start ≤ mid)
    (hstop : mid ≤ stop) :
    bytes.slice start mid ++ bytes.slice mid stop = bytes.slice start stop := by
  have hmid : bytes.drop mid = (bytes.drop start).drop (mid - start) := by
    rw [List.drop_drop, Nat.add_sub_cancel' hstart]
  have hlength : stop - start = (mid - start) + (stop - mid) := by omega
  rw [slice, slice, slice, hmid, hlength, List.take_add]

/-! ## Colours -/

namespace Palette

/-- The colours after some settings, one after the other. -/
def ofSettings (settings : List Bytes) : Palette := settings.foldl set initial

/-- The colour is that of the name, or that of names without a colour if the name has none. -/
def Gives (palette : Palette) (name : String) (color : Bytes) : Prop :=
  palette.lookup (Bytes.ofString name) = some color ∨
    palette.lookup (Bytes.ofString name) = none ∧
      palette.lookup (Bytes.ofString "default") = some color

/-- A name that has a colour has one whatever is set. -/
theorem isSome_lookup_set {key : Bytes} (setting : Bytes) (h : (palette.lookup key).isSome = true) :
    ((palette.set setting).lookup key).isSome = true := by
  rw [set]
  generalize setting.splitOn 0x3a = pieces
  induction pieces generalizing palette with
  | nil => exact h
  | cons piece pieces ih =>
    rw [List.foldl_cons]
    apply ih
    split
    · rw [List.lookup_cons]
      split
      · rfl
      · exact h
    · exact h

theorem isSome_lookup_ofSettings {key : Bytes} (settings : List Bytes)
    (h : (initial.lookup key).isSome = true) :
    ((ofSettings settings).lookup key).isSome = true := by
  rw [ofSettings]
  generalize initial = palette at h
  induction settings generalizing palette with
  | nil => exact h
  | cons setting settings ih => exact ih _ (isSome_lookup_set setting h)

/-- There is a colour for every name, whatever is set. -/
theorem gives_colorOf (settings : List Bytes) (name : String) :
    (ofSettings settings).Gives name ((ofSettings settings).colorOf name) := by
  obtain ⟨color, hdefault⟩ := Option.isSome_iff_exists.mp
    (@isSome_lookup_ofSettings (Bytes.ofString "default") settings (by decide))
  rw [Gives, colorOf, hdefault]
  cases (ofSettings settings).lookup (Bytes.ofString name) with
  | none => exact .inr ⟨rfl, rfl⟩
  | some own => exact .inl rfl

end Palette

/-! ## Pieces -/

/-- The piece is painted. -/
def Segment.isPainted : Segment → Bool
  | .plain _ => false
  | .painted _ _ => true

namespace MatchTree

mutual

/-- The matches in a match that have none inside themselves, in order. -/
def leaves : MatchTree → List MatchTree
  | .node name start stop [] => [.node name start stop []]
  | .node _ _ _ (sub :: subs) => leavesOfAll (sub :: subs)

/-- Such matches in the matches of a list, in order. -/
def leavesOfAll : List MatchTree → List MatchTree
  | [] => []
  | tree :: trees => leaves tree ++ leavesOfAll trees

end

/-- A match in its colour. -/
def inColor (palette : Palette) (input : Bytes) (leaf : MatchTree) : Segment :=
  .painted (palette.colorOf leaf.name) (leaf.text input)

/-- A match with none inside it is one piece. -/
theorem paint_leaf (name : String) (start stop : Nat) :
    ((node name start stop []).table input).paint palette input =
      [inColor palette input (.node name start stop [])] := by
  have htext := text_table input (.node name start stop [])
  rw [table, tableList] at htext ⊢
  rw [MatchTable.paint, htext]
  rfl

/-- A match with others inside it is in the pieces between its ends. -/
theorem paint_inner (name : String) (start stop : Nat) {subs : List MatchTree} (hne : subs ≠ []) :
    ((node name start stop subs).table input).paint palette input =
      MatchTable.paintFrom palette input (stop + 1) (start + 1) (tableList input subs) := by
  cases subs with
  | nil => exact absurd rfl hne
  | cons sub subs => rw [table, tableList, MatchTable.paint]

mutual

/-- The pieces of a match have its text. -/
theorem flatMap_text_paint : ∀ {tree : MatchTree}, tree.WellFormed →
    ((tree.table input).paint palette input).flatMap Segment.text = tree.text input
  | .node name start stop [], _ => by
    rw [paint_leaf]
    exact List.flatMap_singleton _ _
  | .node name start stop (sub :: subs), h => by
    rw [paint_inner name start stop (List.cons_ne_nil sub subs)]
    exact flatMap_text_paintFrom h.between

/-- The pieces between two offsets have the text between them. -/
theorem flatMap_text_paintFrom : ∀ {trees : List MatchTree} {start stop : Nat},
    Between start stop trees →
    (MatchTable.paintFrom palette input (stop + 1) (start + 1) (tableList input trees)).flatMap
      Segment.text = input.slice start stop
  | [], start, stop, _ => by
    rw [tableList, MatchTable.paintFrom, Int.add_sub_cancel, Bytes.between_eq_slice]
    exact List.flatMap_singleton _ _
  | tree :: trees, start, stop, h => by
    obtain ⟨hstart, hle, hfirst, hrest⟩ := h.of_cons
    -- In front of the match, the match itself, and what is behind it.
    have hfront : input.between (start + 1) (tree.start + 1 - 1) =
        input.slice start tree.start := by
      rw [Int.add_sub_cancel, Bytes.between_eq_slice]
    have htree := flatMap_text_paint hfirst
    have hbehind := flatMap_text_paintFrom hrest
    rw [tableList, MatchTable.paintFrom, first_table, behind_table, hfront, List.cons_append,
      List.flatMap_cons, List.flatMap_append, htree, hbehind]
    calc input.slice start tree.start ++ (tree.text input ++ input.slice tree.stop stop)
        = input.slice start tree.start ++ input.slice tree.start stop := by
          rw [text, Bytes.slice_append input hfirst.start_le_stop hle]
      _ = input.slice start stop :=
          Bytes.slice_append input hstart (hfirst.start_le_stop.trans hle)

end

mutual

/-- The painted pieces of a match are its innermost matches in their colours. -/
theorem filter_isPainted_paint : ∀ tree : MatchTree,
    ((tree.table input).paint palette input).filter Segment.isPainted =
      tree.leaves.map (inColor palette input)
  | .node name start stop [] => by
    rw [paint_leaf]
    rfl
  | .node name start stop (sub :: subs) => by
    rw [paint_inner name start stop (List.cons_ne_nil sub subs), leaves]
    exact filter_isPainted_paintFrom (sub :: subs) _ _

theorem filter_isPainted_paintFrom : ∀ (trees : List MatchTree) (behind first : Int),
    (MatchTable.paintFrom palette input behind first (tableList input trees)).filter
      Segment.isPainted = (leavesOfAll trees).map (inColor palette input)
  | [], behind, first => rfl
  | tree :: trees, behind, first => by
    rw [tableList, MatchTable.paintFrom, leavesOfAll, List.map_append, List.cons_append,
      List.filter_cons_of_neg (by exact Bool.false_ne_true), List.filter_append,
      filter_isPainted_paint tree, filter_isPainted_paintFrom trees]

end

end MatchTree

namespace Program

/-- The colour encoder puts out any match that a search finds, whatever colours are set. Its output
is a sequence of pieces, some of them painted, that have the text of the match. The painted ones are
the matches without others inside them, in order, each with its own text and in its own colour or in
the one of names without a colour. -/
theorem paint_search {p : Program} {input : Bytes} {start room : Nat} {limits : Limits}
    {tree : MatchTree} (settings : List Bytes)
    (htree : (p.search input start limits room).1.tree = some tree) :
    ∃ pieces : List Segment,
      TextEncoder.color.encodeTable? (.ofSettings settings) (tree.table input) input =
        some (TextEncoder.color.encodeTable (.ofSettings settings) (tree.table input) input) ∧
      TextEncoder.color.encodeTable (.ofSettings settings) (tree.table input) input =
        pieces.flatMap Segment.render ∧
      pieces.flatMap Segment.text = input.slice tree.start tree.stop ∧
      List.Forall₂ (fun piece leaf => ∃ color, piece = .painted color (leaf.text input) ∧
          (Palette.ofSettings settings).Gives leaf.name color)
        (pieces.filter Segment.isPainted) tree.leaves := by
  obtain ⟨-, hstop, hwf, -⟩ := search_tree htree
  refine ⟨(tree.table input).paint (.ofSettings settings) input,
    TextEncoder.encodeTable?_eq_some .color _ hwf (by omega), rfl,
    MatchTree.flatMap_text_paint hwf, ?_⟩
  rw [MatchTree.filter_isPainted_paint, List.forall₂_map_left_iff, List.forall₂_same]
  exact fun leaf _ => ⟨_, rfl, Palette.gives_colorOf settings leaf.name⟩

/-- A character of two bytes in red and the letter behind it in green. -/
theorem paint_search_two_colors :
    (characterAndRest.search [0x61, 0xc3, 0xa9, 0x62] 2 ⟨20, 2⟩ 3).1.tree =
        some (.node "*" 1 4 [.node "first" 1 3 [], .node "rest" 3 4 []]) ∧
      ∃ pieces : List Segment, pieces.flatMap Segment.text = [0xc3, 0xa9, 0x62] ∧
        pieces.filter Segment.isPainted =
          [.painted (Bytes.ofString "31") [0xc3, 0xa9],
            .painted (Bytes.ofString "1;32") [0x62]] := by
  have htree : (characterAndRest.search [0x61, 0xc3, 0xa9, 0x62] 2 ⟨20, 2⟩ 3).1.tree =
      some (.node "*" 1 4 [.node "first" 1 3 [], .node "rest" 3 4 []]) := by rfl
  obtain ⟨pieces, -, -, htext, hpainted⟩ := paint_search [Bytes.ofString "first=red"] htree
  have hfirst : (Palette.ofSettings [Bytes.ofString "first=red"]).lookup (Bytes.ofString "first") =
      some (Bytes.ofString "31") := by cbv
  have hrest : (Palette.ofSettings [Bytes.ofString "first=red"]).lookup (Bytes.ofString "rest") =
      none := by cbv
  have hdefault : (Palette.ofSettings [Bytes.ofString "first=red"]).lookup
      (Bytes.ofString "default") = some (Bytes.ofString "1;32") := by cbv
  refine ⟨htree, pieces, htext, ?_⟩
  generalize pieces.filter Segment.isPainted = painted at hpainted ⊢
  obtain _ | ⟨⟨color, rfl, hcolor⟩, _ | ⟨⟨color', rfl, hcolor'⟩, _ | _⟩⟩ := hpainted
  simp only [Palette.Gives, MatchTree.name, hfirst, hrest, hdefault, Option.some.injEq,
    reduceCtorEq, false_and, or_false, false_or, true_and] at hcolor hcolor'
  subst hcolor hcolor'
  rfl

end Program

end PatternEngine
