import PatternEngine.Proofs.Engine.Outputs
import PatternEngine.Proofs.Engine.Reports
import PatternEngine.Proofs.Text.Ascii
import PatternEngine.Proofs.Text.JsonGrammar

/-!
# Matches as JSON

The text of a match is a JSON text of the members that describe it. The match is read back from
these members: the texts of matches are replaced where they are not well-formed, but the places of
matches are not, and a match without matches inside it is the only one without a member for them.
-/

namespace PatternEngine

namespace MatchTree

/-! ## Descriptions -/

/-- The members of an object say what a match is, whatever is inside it. -/
structure Tells (input : Bytes) (members : List (String × Json)) (name : String)
    (start stop : Nat) : Prop where
  nodup : (members.map Prod.fst).Nodup
  type : members.lookup "type" = some (.str name)
  s : members.lookup "s" = some (.nat (start + 1))
  e : members.lookup "e" = some (.nat (stop + 1))
  data : members.lookup "data" = some (.str (Utf8.decodeLossy (input.slice start stop)))

/-- The value describes a match: it has a member for the matches inside, which describes them in
order, unless there are none. -/
inductive Describes (input : Bytes) : Json → MatchTree → Prop
  | leaf {members : List (String × Json)} {name : String} {start stop : Nat}
    (h : Tells input members name start stop) (hsubs : members.lookup "subs" = none) :
    Describes input (.obj members) (.node name start stop [])
  | inner {members : List (String × Json)} {name : String} {start stop : Nat}
    {items : List Json} {subs : List MatchTree} (h : Tells input members name start stop)
    (hne : subs ≠ []) (hsubs : members.lookup "subs" = some (.arr items))
    (hitems : List.Forall₂ (Describes input) items subs) :
    Describes input (.obj members) (.node name start stop subs)

variable {input : Bytes}

mutual

/-- The members that a match is written as describe it. -/
theorem describes_toJson : ∀ tree : MatchTree, Describes input (tree.toJson input) tree
  | .node name start stop [] => by
    rw [toJson]
    exact .leaf ⟨by simp, rfl, rfl, rfl, rfl⟩ rfl
  | .node name start stop (sub :: subs) => by
    rw [toJson]
    exact .inner ⟨by simp, rfl, rfl, rfl, rfl⟩ (List.cons_ne_nil _ _) rfl
      (describes_toJsonList (sub :: subs))

theorem describes_toJsonList : ∀ trees : List MatchTree,
    List.Forall₂ (Describes input) (toJsonList input trees) trees
  | [] => .nil
  | tree :: trees => .cons (describes_toJson tree) (describes_toJsonList trees)

end

/-! ## Reading matches -/

mutual

/-- Read a match. -/
def ofJson? : Json → Option MatchTree
  | .obj members => do
    let name ← (members.lookup "type").bind Json.string
    let s ← (members.lookup "s").bind Json.natural
    let e ← (members.lookup "e").bind Json.natural
    let subs ← subsOfJson? members
    some (.node name (s - 1) (e - 1) subs)
  | _ => none

/-- Read the matches inside a match from its members. There are none without a member for them. -/
def subsOfJson? : List (String × Json) → Option (List MatchTree)
  | [] => some []
  | (key, value) :: members => if key = "subs" then arrayOfJson? value else subsOfJson? members

/-- Read an array of matches. -/
def arrayOfJson? : Json → Option (List MatchTree)
  | .arr items => listOfJson? items
  | _ => none

/-- Read a list of matches. -/
def listOfJson? : List Json → Option (List MatchTree)
  | [] => some []
  | item :: items => do
    let first ← ofJson? item
    let others ← listOfJson? items
    some (first :: others)

end

theorem subsOfJson?_eq (members : List (String × Json)) :
    subsOfJson? members = (members.lookup "subs").elim (some []) arrayOfJson? := by
  induction members with
  | nil => rfl
  | cons entry members ih =>
    obtain ⟨key, value⟩ := entry
    rw [subsOfJson?, List.lookup_cons, ih]
    by_cases hkey : key = "subs"
    · rw [if_pos hkey, hkey]
      rfl
    · have hbeq : ("subs" == key) = false := beq_eq_false_iff_ne.mpr (Ne.symm hkey)
      rw [if_neg hkey, hbeq]

mutual

/-- A match is read from any value that describes it. -/
theorem ofJson?_of_describes : ∀ {value : Json} {tree : MatchTree}, Describes input value tree →
    ofJson? value = some tree
  | _, _, .leaf h hsubs => by
    rw [ofJson?, h.type, h.s, h.e, subsOfJson?_eq, hsubs]
    rfl
  | _, _, .inner h hne hsubs hitems => by
    rw [ofJson?, h.type, h.s, h.e, subsOfJson?_eq, hsubs, Option.elim_some, arrayOfJson?,
      listOfJson?_of_describes hitems]
    rfl

theorem listOfJson?_of_describes : ∀ {items : List Json} {trees : List MatchTree},
    List.Forall₂ (Describes input) items trees → listOfJson? items = some trees
  | _, _, .nil => rfl
  | _, _, .cons hfirst hrest => by
    rw [listOfJson?, ofJson?_of_describes hfirst, listOfJson?_of_describes hrest]
    rfl

end

theorem ofJson?_toJson (tree : MatchTree) : ofJson? (tree.toJson input) = some tree :=
  ofJson?_of_describes (describes_toJson tree)

/-- Different matches have different descriptions. -/
theorem toJson_injective : Function.Injective (toJson input) := fun first second heq => by
  have hfirst : ofJson? (toJson input first) = some first := ofJson?_toJson first
  rw [heq, ofJson?_toJson] at hfirst
  exact (Option.some.inj hfirst).symm

end MatchTree

namespace Encoder

/-- The encoding of matches that lie within the input never fails. It is a JSON text, and the value
that it is read as describes the match, which is read back from it. So different matches have
different encodings. -/
theorem json_faithful {tree : MatchTree} {input : Bytes} (h : tree.InRange input.length) :
    ∃ text value, json.encodeTree? tree input = some (json.encodeTree tree input) ∧
      json.encodeTree tree input = .bytes (Bytes.ofString text) ∧
      Json.IsText text ∧ Json.read? text = some value ∧ tree.Describes input value ∧
      MatchTree.ofJson? value = some tree ∧
      ∀ other : MatchTree, json.encodeTree other input = json.encodeTree tree input →
        other = tree := by
  refine ⟨(tree.toJson input).compact, tree.toJson input, json.encodeTree?_eq_some h, rfl,
    Json.isText_compact _, Json.read?_compact _, tree.describes_toJson, tree.ofJson?_toJson,
    fun other heq => ?_⟩
  apply MatchTree.toJson_injective
  exact Json.compact_injective (Bytes.ofString_injective (Encoded.bytes.inj heq))

/-- A match with an empty match inside it, in the middle of a character, has another encoding than
the match without it. -/
theorem json_faithful_empty :
    (MatchTree.node "\"" 0 2 [.node "a" 1 1 []]).InRange 3 ∧
      json.encodeTree (.node "\"" 0 2 []) [0xe2, 0x82, 0xac] ≠
        json.encodeTree (.node "\"" 0 2 [.node "a" 1 1 []]) [0xe2, 0x82, 0xac] := by
  have hrange : (MatchTree.node "\"" 0 2 [.node "a" 1 1 []]).InRange 3 :=
    .node (by decide) (by decide) (by simpa using .node (by decide) (by decide) (by simp))
  obtain ⟨text, value, -, -, -, -, -, -, hunique⟩ :=
    @json_faithful (.node "\"" 0 2 [.node "a" 1 1 []]) [0xe2, 0x82, 0xac] hrange
  exact ⟨hrange, fun heq => by cases hunique _ heq⟩

end Encoder

end PatternEngine
