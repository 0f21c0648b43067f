/-!
# The BLAKE3 hash function

The message is cut into chunks of 1024 bytes and each chunk into blocks of 64.
The blocks of a chunk are chained; the chunks are the leaves of a binary tree
whose left subtrees are complete, and the root of that tree is compressed once
more with a flag of its own.

The tree is never built.  Finished subtrees wait in a list of strictly growing
heights, and a new chunk merges with its neighbour as long as the heights agree,
as in a binary counter.

## Main definitions

* `compress` — one call of the compression function, cut to its chaining value.
* `Node` — a compression that has not been made yet, since only the caller knows
  whether it is the root.
* `chunkNode`, `parentNode` — the two kinds of node.
* `hash` — the 32-byte digest of a message.
-/

namespace StreamPlan
namespace Blake3

/-- Eight words carried from one compression to the next. -/
abbrev Chaining := Vector UInt32 8

/-- Sixteen words: a message block, or the state of a compression. -/
abbrev Block := Vector UInt32 16

/-! ### The compression function -/

/-- The initial chaining value. -/
def initial : Chaining :=
  #v[0x6a09e667, 0xbb67ae85, 0x3c6ef372, 0xa54ff53a, 0x510e527f, 0x9b05688c, 0x1f83d9ab,
    0x5be0cd19]

/-- Which word of a block each word of the next round is taken from. -/
def schedule : Vector (Fin 16) 16 :=
  #v[2, 6, 3, 10, 7, 0, 4, 13, 1, 11, 12, 5, 9, 14, 15, 8]

/-- Rotation to the right, by fewer than 32 bits and by at least one. -/
@[inline] def rotateRight (w n : UInt32) : UInt32 := (w >>> n) ||| (w <<< (32 - n))

/-- The quarter round on four words of the state with two words of the message. -/
def mix (v : Block) (a b c d : Fin 16) (x y : UInt32) : Block :=
  let a₁ := v[a] + v[b] + x
  let d₁ := rotateRight (v[d] ^^^ a₁) 16
  let c₁ := v[c] + d₁
  let b₁ := rotateRight (v[b] ^^^ c₁) 12
  let a₂ := a₁ + b₁ + y
  let d₂ := rotateRight (d₁ ^^^ a₂) 8
  let c₂ := c₁ + d₂
  let b₂ := rotateRight (b₁ ^^^ c₂) 7
  (((v.set a a₂).set b b₂).set c c₂).set d d₂

/-- One round: the four columns, then the four diagonals. -/
def round (v m : Block) : Block :=
  let v := mix v 0 4 8 12 m[0] m[1]
  let v := mix v 1 5 9 13 m[2] m[3]
  let v := mix v 2 6 10 14 m[4] m[5]
  let v := mix v 3 7 11 15 m[6] m[7]
  let v := mix v 0 5 10 15 m[8] m[9]
  let v := mix v 1 6 11 12 m[10] m[11]
  let v := mix v 2 7 8 13 m[12] m[13]
  mix v 3 4 9 14 m[14] m[15]

/-- The message words in the order of the next round. -/
def permute (m : Block) : Block := Vector.ofFn fun i => m[schedule[i]]

/-- A number of rounds, the message permuted after each. -/
def rounds : Nat → Block → Block → Block
  | 0, v, _ => v
  | n + 1, v, m => rounds n (round v m) (permute m)

/-- The state before the first round. -/
def start (chaining : Chaining) (counter : UInt64) (length flags : UInt32) : Block :=
  #v[chaining[0], chaining[1], chaining[2], chaining[3], chaining[4], chaining[5], chaining[6],
    chaining[7], initial[0], initial[1], initial[2], initial[3], counter.toUInt32,
    (counter >>> 32).toUInt32, length, flags]

/-- The chaining value after seven rounds: the two halves of the state, added
bit by bit. -/
def compress (chaining : Chaining) (block : Block) (counter : UInt64) (length flags : UInt32) :
    Chaining :=
  let v := rounds 7 (start chaining counter length flags) block
  Vector.ofFn fun i : Fin 8 => v[i.val] ^^^ v[i.val + 8]

/-! ### Nodes of the tree -/

/-- Marks the first block of a chunk. -/
def chunkStart : UInt32 := 1

/-- Marks the last block of a chunk. -/
def chunkEnd : UInt32 := 2

/-- Marks a node with two children. -/
def parent : UInt32 := 4

/-- Marks the root. -/
def root : UInt32 := 8

/-- A compression that has not been made yet. -/
structure Node where
  /-- The chaining value that enters. -/
  chaining : Chaining
  /-- A piece of the message, or the chaining values of two children. -/
  block : Block
  /-- The number of the chunk, zero for a parent. -/
  counter : UInt64
  /-- How many bytes of the block belong to the message. -/
  length : UInt32
  /-- The flags of the node, the root's apart. -/
  flags : UInt32

/-- The chaining value of a node below the root. -/
def Node.chain (n : Node) : Chaining := compress n.chaining n.block n.counter n.length n.flags

/-- The output of a node that is the root. -/
def Node.output (n : Node) : Chaining :=
  compress n.chaining n.block n.counter n.length (n.flags ||| root)

/-- The byte at a position, zero beyond the end. -/
@[inline] def byteAt (message : ByteArray) (i : Nat) : UInt32 :=
  if h : i < message.size then (message[i]).toUInt32 else 0

/-- The little-endian word that starts at a position. -/
def wordAt (message : ByteArray) (i : Nat) : UInt32 :=
  byteAt message i ||| (byteAt message (i + 1) <<< 8) ||| (byteAt message (i + 2) <<< 16) |||
    (byteAt message (i + 3) <<< 24)

/-- The block that starts at a position, padded with zeros. -/
def blockAt (message : ByteArray) (i : Nat) : Block :=
  Vector.ofFn fun k : Fin 16 => wordAt message (i + 4 * k.val)

/-- The last compression of a chunk, all earlier blocks having been chained. -/
def chunkNode (message : ByteArray) (index : Nat) : Node :=
  let offset := 1024 * index
  let length := min 1024 (message.size - offset)
  -- The last block is never empty unless the whole message is.
  let earlier := (length - 1) / 64
  let flag (i : Nat) : UInt32 := if i = 0 then chunkStart else 0
  let counter := UInt64.ofNat index
  let chaining := (List.range earlier).foldl (fun chaining i =>
    compress chaining (blockAt message (offset + 64 * i)) counter 64 (flag i)) initial
  ⟨chaining, blockAt message (offset + 64 * earlier), counter, UInt32.ofNat (length - 64 * earlier),
    flag earlier ||| chunkEnd⟩

/-- The node above two subtrees. -/
def parentNode (left right : Chaining) : Node := ⟨initial, left ++ right, 0, 64, parent⟩

/-- A finished subtree: `2 ^ height` chunks. -/
structure Subtree where
  /-- The height of the subtree. -/
  height : Nat
  /-- The chaining value of its top. -/
  chain : Chaining

/-- Adds a subtree to the right of those that wait, nearest first. -/
def addSubtree (t : Subtree) : List Subtree → List Subtree
  | [] => [t]
  | s :: rest =>
    if s.height = t.height then
      addSubtree ⟨t.height + 1, (parentNode s.chain t.chain).chain⟩ rest
    else t :: s :: rest

/-- The root of the tree over the chunks of a message. -/
def rootNode (message : ByteArray) : Node :=
  let last := (message.size - 1) / 1024
  let waiting := (List.range last).foldl (fun waiting i =>
    addSubtree ⟨0, (chunkNode message i).chain⟩ waiting) []
  waiting.foldl (fun node s => parentNode s.chain node.chain) (chunkNode message last)

/-- The 32-byte digest of a message. -/
def hash (message : ByteArray) : Vector UInt8 32 :=
  let words := (rootNode message).output
  Vector.ofFn fun i : Fin 32 =>
    (words[i.val / 4] >>> UInt32.ofNat (8 * (i.val % 4))).toUInt8

end Blake3
end StreamPlan
