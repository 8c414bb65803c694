import Mathlib.Algebra.Order.Floor.Div
import XzmjxRpc.Lib.Blocks
import XzmjxRpc.Lib.Run

/-!
# XzmjxRpc.Utils.ByteArray

The chunked byte buffer `ByteArray` (`utils/byte_array.cpp`), node by node:
a chain of `Node`s of `base_size` cells each, an offset `m_position` and a
node pointer `m_cur` that walks the chain beside it.

The chain from `m_root` is the list `nodes`; a `Node*` is an index into it,
and `none` is the null pointer.  Every `p->size` or `p->ptr` through a null
pointer is undefined behaviour in the source, and is the outcome
`Fault.nullNode` here; `std::out_of_range` is `Fault.outOfRange`.  The loops
of the source walk the chain from `m_cur` by `->next`; here they recurse on
the part of the chain that is left.

The cell type `α` is a parameter — the code only copies cells — and a cell
of a fresh node, which `new char[s]` leaves indeterminate, is `default`.
-/

namespace XzmjxRpc

/-- How an operation of the program ends when it does not return. -/
inductive Fault where
  /-- `throw std::out_of_range(what)`. -/
  | outOfRange (what : String)
  /-- `throw std::length_error`. -/
  | lengthError
  /-- `throw std::bad_alloc`. -/
  | badAlloc
  /-- A member of `*p` is used and `p` is the null `Node*`. -/
  | nullNode
  /-- A read past the end of a string's characters. -/
  | overrun
  deriving DecidableEq, Repr

/-- `what()` of the exception, in the words of libstdc++, when it is one that a
`catch (...)` catches. -/
def Fault.what : Fault → Option String
  | outOfRange what => some what
  | lengthError => some "basic_string::_M_replace_aux"
  | badAlloc => some "std::bad_alloc"
  | nullNode => none
  | overrun => none

/-- `ByteArray`: the members the buffer functions use. -/
structure ByteArray (α : Type u) where
  position : Nat
  baseSize : Nat
  capacity : Nat
  size : Nat
  nodes : List (List α)
  cur : Option Nat
  deriving DecidableEq, Repr

/-- `iovec`: `len` cells of node number `node` from offset `off` on. -/
structure Iovec where
  node : Nat
  off : Nat
  len : Nat
  deriving DecidableEq, Repr

namespace ByteArray

variable {α : Type u}

/-- `a - b` on `size_t`. -/
def sizeSub (a b : Nat) : Nat := if b ≤ a then a - b else a + 2 ^ 64 - b

/-! ## construction, capacity, clear -/

/-- `explicit ByteArray(size_t base_size)`. -/
def new [Inhabited α] (baseSize : Nat) : ByteArray α where
  position := 0
  baseSize := baseSize
  capacity := baseSize
  size := 0
  nodes := [List.replicate baseSize default]
  cur := some 0

/-- The pointer to node number `i`, null past the end of the chain. -/
def nodeAt (b : ByteArray α) (i : Nat) : Option Nat := if i < b.nodes.length then some i else none

/-- `getReadSize()`. -/
def getReadSize (b : ByteArray α) : Nat := sizeSub b.size b.position

/-- `getCapacity()`: what can be written before the chain has to grow. -/
def getCapacity (b : ByteArray α) : Nat := sizeSub b.capacity b.position

/-- `addCapacity(size)`: append whole nodes until `size` cells fit after the
position.  The source computes the node count as a `double`, `ceil((1.0 *
size) / m_base_size)`, which is the exact ceiling for sizes below `2 ^ 53`. -/
def addCapacity [Inhabited α] (b : ByteArray α) (size : Nat) : ByteArray α :=
  if size = 0 then b
  else if size ≤ b.getCapacity then b
  else
    let nodeCount := (size - b.getCapacity) ⌈/⌉ b.baseSize
    { b with
      nodes := b.nodes ++ List.replicate nodeCount (List.replicate b.baseSize default)
      capacity := b.capacity + nodeCount * b.baseSize
      cur := if b.getCapacity = 0 then some b.nodes.length else b.cur }

/-- `clear()`: back to one node, whose cells stay as they are. -/
def clear (b : ByteArray α) : ByteArray α :=
  { b with position := 0, size := 0, capacity := b.baseSize, cur := some 0,
           nodes := b.nodes.take 1 }

/-! ## write -/

/-- The `while (size > 0)` loop of `write`, on the chain from `m_cur` on:
the chain with `d` stored from offset `npos` of its first node, and how many
times `m_cur` moved to the next node. -/
def writeNodes (npos : Nat) : List (List α) → List α → Except Fault (List (List α) × Nat)
  | chain, [] => .ok (chain, 0)
  | [], _ :: _ => .error .nullNode
  | node :: rest, d =>
      let ncap := node.length - npos
      if d.length ≤ ncap then
        .ok (Blocks.splice npos d node :: rest, if node.length = npos + d.length then 1 else 0)
      else
        match writeNodes 0 rest (d.drop ncap) with
        | .ok (rest', k) => .ok (Blocks.splice npos (d.take ncap) node :: rest', k + 1)
        | .error e => .error e

/-- `write(buf, size)`, with `d` the `size` cells at `buf`. -/
def write [Inhabited α] (b : ByteArray α) (d : List α) : Except Fault (ByteArray α) :=
  if d = [] then .ok b
  else
    let b := b.addCapacity d.length
    match b.cur with
    | none => .error .nullNode
    | some i =>
        match writeNodes (b.position % b.baseSize) (b.nodes.drop i) d with
        | .error e => .error e
        | .ok (chain, k) =>
            .ok { b with
              nodes := b.nodes.take i ++ chain
              cur := b.nodeAt (i + k)
              position := b.position + d.length
              size := max b.size (b.position + d.length) }

/-! ## read -/

/-- The `while (size > 0)` loop of the cursor `read`, on the chain from
`m_cur` on: the `n` cells read from offset `npos`, and how many times `m_cur`
moved on.  In the last node it moves on when `m_cur->size == size`, whatever
`npos` is. -/
def readNodes (npos : Nat) : List (List α) → Nat → Except Fault (List α × Nat)
  | _, 0 => .ok ([], 0)
  | [], _ + 1 => .error .nullNode
  | node :: rest, n =>
      let ncap := node.length - npos
      if n ≤ ncap then
        .ok ((node.drop npos).take n, if node.length = n then 1 else 0)
      else
        match readNodes 0 rest (n - ncap) with
        | .ok (out, k) => .ok (node.drop npos ++ out, k + 1)
        | .error e => .error e

/-- `read(buf, size)`: the `n` cells at the position, which moves past them.
`m_cur->size` is used before the loop, so a null `m_cur` is a fault even when
nothing is asked for. -/
def read (b : ByteArray α) (n : Nat) : Except Fault (List α × ByteArray α) :=
  if b.getReadSize < n then .error (.outOfRange "not enough data to read")
  else
    match b.cur with
    | none => .error .nullNode
    | some i =>
        match readNodes (b.position % b.baseSize) (b.nodes.drop i) n with
        | .error e => .error e
        | .ok (out, k) => .ok (out, { b with position := b.position + n, cur := b.nodeAt (i + k) })

/-- Successive reads `read(n₁), read(n₂), …` and what each returned. -/
def readAll (b : ByteArray α) : List Nat → Except Fault (List (List α) × ByteArray α)
  | [] => .ok ([], b)
  | n :: ns =>
      match b.read n with
      | .error e => .error e
      | .ok (out, b') =>
          match readAll b' ns with
          | .error e => .error e
          | .ok (outs, b'') => .ok (out :: outs, b'')

/-- `read(buf, size, position)`: the `n` cells at `position`, in a chain walked
from the root; neither the position nor `m_cur` moves.  The loop is that of the
cursor `read`. -/
def readAt (b : ByteArray α) (n position : Nat) : Except Fault (List α) :=
  if sizeSub b.size position < n then .error (.outOfRange "not enough data to read")
  else
    match b.nodes.drop (position / b.baseSize) with
    | [] => .error .nullNode
    | node :: rest => (readNodes (position % b.baseSize) (node :: rest) n).map Prod.fst

/-- `toString()`: what is left to read. -/
def toString (b : ByteArray α) : Except Fault (List α) := b.readAt b.getReadSize b.position

/-! ## setPosition -/

/-- The loop of `setPosition` and the test after it, on the chain from `m_cur`
on: how many times `m_cur` moved on.  The node whose size is taken off `pos` is
the one moved to. -/
def seek : List (List α) → Nat → Except Fault Nat
  | [], _ => .error .nullNode
  | [node], pos =>
      if node.length < pos then .error .nullNode
      else .ok (if pos = node.length then 1 else 0)
  | node :: next :: rest, pos =>
      if node.length < pos then
        match seek (next :: rest) (pos - next.length) with
        | .ok k => .ok (k + 1)
        | .error e => .error e
      else .ok (if pos = node.length then 1 else 0)

/-- `setPosition(pos)`: a position past the written data enlarges the size. -/
def setPosition (b : ByteArray α) (pos : Nat) : Except Fault (ByteArray α) :=
  if b.capacity < pos then .error (.outOfRange "setPostion out of range")
  else
    match seek b.nodes pos with
    | .error e => .error e
    | .ok k => .ok { b with position := pos, size := max b.size pos, cur := b.nodeAt k }

/-! ## scatter and gather -/

/-- The `while (len > 0)` loop that `getReadBuffers`, its positional overload
and `getWriteBuffers` share: the segments it pushes, on the chain whose first
node has number `i`.  `len` is what the caller asked for, in every round. -/
def gather (len : Nat) : (npos i : Nat) → List (List α) → Except Fault (List Iovec)
  | _, _, [] => .error .nullNode
  | npos, i, node :: rest =>
      let ncap := node.length - npos
      if len ≤ ncap then .ok [⟨i, npos, len⟩]
      else
        match gather len 0 (i + 1) rest with
        | .ok segs => .ok (⟨i, npos, ncap⟩ :: segs)
        | .error e => .error e

/-- `getReadBuffers(buffers, len)`: the returned count and `buffers` after
the call. -/
def getReadBuffers (b : ByteArray α) (buffers : List Iovec) (len : Nat) :
    Except Fault (Nat × List Iovec) :=
  let len := if b.getReadSize < len then b.getReadSize else len
  if len = 0 then .ok (0, buffers)
  else
    match b.cur with
    | none => .error .nullNode
    | some i => (gather len (b.position % b.baseSize) i (b.nodes.drop i)).map (len, ·)

/-- `getReadBuffers(buffers, len, position)`.  The walk to node number
`position / m_base_size` uses no member of the nodes it passes except `next`. -/
def getReadBuffersAt (b : ByteArray α) (buffers : List Iovec) (len position : Nat) :
    Except Fault (Nat × List Iovec) :=
  let len := if sizeSub b.size position < len then sizeSub b.size position else len
  if len = 0 then .ok (0, buffers)
  else
    (gather len (position % b.baseSize) (position / b.baseSize)
      (b.nodes.drop (position / b.baseSize))).map (len, ·)

/-- `getWriteBuffers(buffers, len)`: the returned count, `buffers` and the
array after the call. -/
def getWriteBuffers [Inhabited α] (b : ByteArray α) (buffers : List Iovec) (len : Nat) :
    Except Fault (Nat × List Iovec × ByteArray α) :=
  if len = 0 then .ok (0, buffers, b)
  else
    let b := b.addCapacity len
    match b.cur with
    | none => .error .nullNode
    | some i => (gather len (b.position % b.baseSize) i (b.nodes.drop i)).map (len, ·, b)

/-! ## what the cells hold -/

/-- All cells of the chain in order; cell `i` is the cell at position `i`. -/
def cells (b : ByteArray α) : List α := b.nodes.flatten

/-- The content: the cells below the size. -/
def content (b : ByteArray α) : List α := b.cells.take b.size

/-- The cells a segment covers. -/
def segment (b : ByteArray α) (v : Iovec) : List α :=
  (((b.nodes[v.node]?).getD []).drop v.off).take v.len

/-- Filling the segments, in order, with `d`: what `recvmsg` does with an
`iovec` array when `d` arrives. -/
def fill (b : ByteArray α) : List Iovec → List α → ByteArray α
  | [], _ => b
  | v :: vs, d =>
      fill { b with nodes := b.nodes.modify v.node (Blocks.splice v.off (d.take v.len)) } vs
        (d.drop v.len)

end ByteArray

end XzmjxRpc
