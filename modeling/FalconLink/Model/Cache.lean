import FalconLink.Foundation.Chain
import FalconLink.Foundation.Program
import FalconLink.Model.Bytes
import Mathlib.Data.List.AList

/-! # The cache

`Cache` keeps its nodes in a doubly linked list between two sentinels and finds them by
name through a hash map. Its functions are programs over single accesses to that memory,
so that they can be run by one thread or interleaved with others.
-/

namespace FalconLink

/-- The address of a node. -/
abbrev Addr := ℕ

/-- A raw pointer to a node; `none` is `nullptr`. -/
abbrev Ptr := Option Addr

structure CacheNode where
  identifier : Bytes
  data : Bytes
  lastAccess : ℕ
  prev : Ptr
  next : Ptr
  deriving DecidableEq, Repr

/-- The members of a `Cache`, the nodes allocated for it, and the readings that the system
clock will give to `getTimeUTC`. -/
structure Cache where
  mapping : AList fun _ : Bytes => Addr
  capacity : UInt64
  occupancy : UInt64
  nodes : Addr → Option CacheNode
  fresh : Addr
  clock : ℕ → ℕ

namespace Cache

def header : Addr := 0

def tailer : Addr := 1

/-- The constructor. Each sentinel is stamped with a reading of the clock. -/
def new (capacity : UInt64) (clock : ℕ → ℕ) : Cache where
  mapping := ∅
  capacity := capacity
  occupancy := 0
  nodes := fun a =>
    if a = header then some ⟨[], [], clock 0, none, some tailer⟩
    else if a = tailer then some ⟨[], [], clock 1, some header, none⟩
    else none
  fresh := 2
  clock := fun n => clock (n + 2)

/-- The node a pointer refers to, when there is one. -/
def deref (c : Cache) : Ptr → Except Fault (Addr × CacheNode)
  | none => .error .invalidPointer
  | some a =>
      match c.nodes a with
      | some n => .ok (a, n)
      | none => .error .invalidPointer

def setNode (c : Cache) (a : Addr) (n : Option CacheNode) : Cache :=
  { c with nodes := Function.update c.nodes a n }

/-- Single accesses to the memory of a cache. -/
inductive Instr where
  | readPrev (p : Ptr)
  | readNext (p : Ptr)
  | writePrev (p v : Ptr)
  | writeNext (p v : Ptr)
  | readIdentifier (p : Ptr)
  | readData (p : Ptr)
  | writeLastAccess (p : Ptr) (time : ℕ)
  | getTimeUTC
  | makeNode (identifier data : Bytes) (time : ℕ)
  | find (key : Bytes)
  | isEmpty
  | count
  | emplace (key : Bytes) (node : Addr)
  | erase (key : Bytes)
  | clearMapping
  | getCapacity
  | getOccupancy
  | setOccupancy (n : UInt64)

abbrev Instr.Answer : Instr → Type
  | readPrev _ => Ptr
  | readNext _ => Ptr
  | writePrev _ _ => Unit
  | writeNext _ _ => Unit
  | readIdentifier _ => Bytes
  | readData _ => Bytes
  | writeLastAccess _ _ => Unit
  | getTimeUTC => ℕ
  | makeNode _ _ _ => Addr
  | find _ => Option Addr
  | isEmpty => Bool
  | count => ℕ
  | emplace _ _ => Unit
  | erase _ => Unit
  | clearMapping => Unit
  | getCapacity => UInt64
  | getOccupancy => UInt64
  | setOccupancy _ => Unit

/-- The effect of one access. The map owns its nodes: an erased node is freed. -/
def exec : Prog.Exec Instr Instr.Answer Fault Cache
  | .readPrev p, c => (c.deref p).map fun (_, n) => (n.prev, c)
  | .readNext p, c => (c.deref p).map fun (_, n) => (n.next, c)
  | .writePrev p v, c => (c.deref p).map fun (a, n) => ((), c.setNode a (some { n with prev := v }))
  | .writeNext p v, c => (c.deref p).map fun (a, n) => ((), c.setNode a (some { n with next := v }))
  | .readIdentifier p, c => (c.deref p).map fun (_, n) => (n.identifier, c)
  | .readData p, c => (c.deref p).map fun (_, n) => (n.data, c)
  | .writeLastAccess p t, c =>
      (c.deref p).map fun (a, n) => ((), c.setNode a (some { n with lastAccess := t }))
  | .getTimeUTC, c => .ok (c.clock 0, { c with clock := fun n => c.clock (n + 1) })
  | .makeNode identifier data t, c =>
      .ok (c.fresh, { c.setNode c.fresh (some ⟨identifier, data, t, none, none⟩) with
        fresh := c.fresh + 1 })
  | .find key, c => .ok (c.mapping.lookup key, c)
  | .isEmpty, c => .ok (c.mapping.entries.isEmpty, c)
  | .count, c => .ok (c.mapping.entries.length, c)
  | .emplace key node, c =>
      match c.mapping.lookup key with
      | some _ => .ok ((), c)
      | none => .ok ((), { c with mapping := c.mapping.insert key node })
  | .erase key, c =>
      match c.mapping.lookup key with
      | some a => .ok ((), { c.setNode a none with mapping := c.mapping.erase key })
      | none => .ok ((), c)
  | .clearMapping, c =>
      .ok ((), { c with
        mapping := ∅
        nodes := fun a => if c.mapping.entries.any (·.2 = a) then none else c.nodes a })
  | .getCapacity, c => .ok (c.capacity, c)
  | .getOccupancy, c => .ok (c.occupancy, c)
  | .setOccupancy n, c => .ok ((), { c with occupancy := n })

/-- Code of the cache. -/
abbrev Code := Prog Instr Instr.Answer Fault

abbrev access (i : Instr) : Code i.Answer :=
  Prog.op i

/-- `CacheNode::serialize`. -/
def serialize (node : Addr) (destination : Bytes) : Code Bytes := do
  let data ← access (.readData (some node))
  return destination ++ data

/-- `CacheNode::updateTimestamp`. -/
def updateTimestamp (node : Addr) : Code Unit := do
  let time ← access .getTimeUTC
  access (.writeLastAccess (some node) time)

def removeFromList (node : Addr) : Code Unit := do
  let nodePrev ← access (.readPrev (some node))
  let nodeNext ← access (.readNext (some node))
  access (.writeNext nodePrev nodeNext)
  access (.writePrev nodeNext nodePrev)

def appendToTail (node : Addr) : Code Unit := do
  let nodePrev ← access (.readPrev (some tailer))
  access (.writeNext nodePrev (some node))
  access (.writePrev (some tailer) (some node))
  access (.writePrev (some node) nodePrev)
  access (.writeNext (some node) (some tailer))

def evictOne : Code Unit := do
  let firstNode ← access (.readNext (some header))
  let data ← access (.readData firstNode)
  let identifier ← access (.readIdentifier firstNode)
  match ← access (.find identifier) with
  | none => .fail .assertionFailed
  | some node => do
      removeFromList node
      access (.erase identifier)
      let occupancy ← access .getOccupancy
      access (.setOccupancy (occupancy - UInt64.ofNat data.length))

/-- The condition of the eviction loop. The subtraction is on `size_t` and wraps. -/
def needsEviction (sourceSize : ℕ) : Code Bool := do
  let empty ← access .isEmpty
  let capacity ← access .getCapacity
  let occupancy ← access .getOccupancy
  return !empty && decide ((capacity - occupancy).toNat < sourceSize)

/-- The eviction loop, for at most `rounds` rounds. -/
def evictWhile (sourceSize : ℕ) : ℕ → Code Unit
  | 0 => return ()
  | rounds + 1 => do
      if ← needsEviction sourceSize then
        evictOne
        evictWhile sourceSize rounds
      else
        return ()

/-- The destination after the call is the second component. -/
def tryLoad (resourceUrl destination : Bytes) : Code (Bool × Bytes) := do
  match ← access (.find resourceUrl) with
  | some node => do
      let destination ← serialize node destination
      removeFromList node
      appendToTail node
      updateTimestamp node
      return (true, destination)
  | none => return (false, destination)

/-- The eviction loop needs no more rounds than the map has entries, since each round
erases one. -/
def tryInsert (resourceUrl source : Bytes) : Code Bool := do
  match ← access (.find resourceUrl) with
  | some _ => return false
  | none => do
      let capacity ← access .getCapacity
      if capacity.toNat < source.length then
        return false
      else
        let rounds ← access .count
        evictWhile source.length rounds
        let time ← access .getTimeUTC
        let node ← access (.makeNode resourceUrl source time)
        appendToTail node
        let occupancy ← access .getOccupancy
        access (.setOccupancy (occupancy + UInt64.ofNat source.length))
        access (.emplace resourceUrl node)
        return true

def clear : Code Unit := do
  access (.writeNext (some header) (some tailer))
  access (.writePrev (some tailer) (some header))
  access .clearMapping
  access (.setOccupancy 0)

/-! ## Calls made by request handlers -/

/-- A call that takes the lock of the cache. -/
inductive Call where
  | tryLoad (resourceUrl destination : Bytes)
  | tryInsert (resourceUrl source : Bytes)
  deriving DecidableEq, Repr

abbrev Call.Result : Call → Type
  | tryLoad _ _ => Bool × Bytes
  | tryInsert _ _ => Bool

def Call.code : (call : Call) → Code call.Result
  | tryLoad resourceUrl destination => Cache.tryLoad resourceUrl destination
  | tryInsert resourceUrl source => Cache.tryInsert resourceUrl source

/-- A call as one step. -/
def Call.exec : Prog.Exec Call Call.Result Fault Cache :=
  fun call c => call.code.run Cache.exec c

/-! ## Sequences of calls -/

/-- A call of the public interface. -/
inductive Op where
  | tryLoad (resourceUrl destination : Bytes)
  | tryInsert (resourceUrl source : Bytes)
  | clear

/-- What a caller sees of a call: the returned flag, the destination, and what
`getOccupancy` then says. -/
structure Seen where
  returned : Option Bool
  destination : Bytes
  occupancy : ℕ
  deriving DecidableEq, Repr

def Op.code : Op → Code (Option Bool × Bytes)
  | tryLoad resourceUrl destination => do
      let answer ← Cache.tryLoad resourceUrl destination
      return (some answer.1, answer.2)
  | tryInsert resourceUrl source => do
      let inserted ← Cache.tryInsert resourceUrl source
      return (some inserted, [])
  | clear => do
      Cache.clear
      return (none, [])

/-- Calls made one at a time. -/
def runOps : List Op → Cache → Except Fault (List Seen × Cache)
  | [], c => .ok ([], c)
  | op :: ops, c => do
      let (answer, c) ← op.code.run exec c
      let (rest, c') ← runOps ops c
      return (⟨answer.1, answer.2, c.occupancy.toNat⟩ :: rest, c')

end Cache

end FalconLink
