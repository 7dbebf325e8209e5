import PatternEngine.Bytes

/-!
# Writers

A writer gathers what is written to a file and puts it there in blocks, each behind the one
before. Two writers of one file have a place each, so that a block of one covers what the
other has put in the same place.
-/

namespace PatternEngine

/-- Bytes for a file. -/
structure Block where
  /-- Where they go. -/
  offset : Nat
  /-- The bytes. -/
  bytes : Bytes
  deriving DecidableEq, Repr

namespace Block

/-- The content of a file when the block is in its place. -/
def cover (content : Bytes) (block : Block) : Bytes :=
  content.take block.offset ++ block.bytes ++ content.drop (block.offset + block.bytes.length)

/-- The content of a file that was empty, when blocks are put there in order. -/
def coverAll (blocks : List Block) : Bytes := blocks.foldl cover []

end Block

/-- A writer between two writes. -/
structure FileWriter where
  /-- Where the next block goes. -/
  offset : Nat := 0
  /-- The pieces gathered for it, latest first. -/
  gathered : List Bytes := []
  /-- The bytes of these pieces. -/
  size : Nat := 0
  deriving DecidableEq, Repr

namespace FileWriter

/-- Bytes that a writer can gather. -/
def capacity : Nat := 8192

/-- What was gathered. -/
def pending (w : FileWriter) : Bytes := w.gathered.reverse.flatten

/-- Gather a piece. -/
def gather (w : FileWriter) (piece : Bytes) : FileWriter :=
  { w with gathered := piece :: w.gathered, size := w.size + piece.length }

/-- The block of what was gathered, and the writer behind it. -/
def flush (w : FileWriter) : Block × FileWriter :=
  (⟨w.offset, w.pending⟩, { offset := w.offset + w.size })

/-- Write a piece. What was gathered goes into the file when there is no room left for the
piece, and so does a piece that fills the room alone. -/
def write (w : FileWriter) (piece : Bytes) : List Block × FileWriter :=
  let size := piece.length
  if w.size + size ≤ capacity && size < capacity then ([], w.gather piece)
  else
    let (block, w) := w.flush
    if size < capacity then ([block], w.gather piece)
    else ([block, ⟨w.offset, piece⟩], { offset := w.offset + size })

/-- A write loses nothing and adds nothing but its piece: what goes into the file, and behind it
what is gathered then, is what was gathered before, and behind it the piece. -/
theorem write_pending (w : FileWriter) (piece : Bytes) :
    (w.write piece).1.flatMap Block.bytes ++ (w.write piece).2.pending = w.pending ++ piece := by
  simp only [write]
  split
  · simp [gather, pending]
  · split <;> simp [flush, gather, pending]

end FileWriter

end PatternEngine
