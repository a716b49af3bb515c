import OSCoreSim.Util.Str
import Mathlib.Data.List.Sort
import Std.Data.ExtTreeMap
import Mathlib.Data.UInt
/-!
# Dynamic partition allocator

`MemoryManager` keeps the physical memory as one table of contiguous blocks.
Iterators into `blocks_` are positions in the list, and `std::sort` by `start`
is a stable insertion sort.  That settles the order of blocks with the same
`start`, which exist only behind the import of a table with empty blocks.
-/

namespace OSCoreSim

open Std (ExtTreeMap)

inductive AllocAlgorithm where
  | firstFit
  | bestFit
  | worstFit
  deriving DecidableEq, Repr

inductive MemoryBlockType where
  | free
  | process
  | kernel
  | swapped
  deriving DecidableEq, Repr

/-- One contiguous run of physical memory, in KB. -/
structure MemoryBlock where
  start : UInt32 := 0
  size : UInt32 := 0
  type : MemoryBlockType := .free
  pid : UInt32 := 0
  owner : Str := []
  tag : Str := []
  deriving DecidableEq, Repr

def MemoryBlockType.toText : MemoryBlockType → Str
  | .free => str "FREE"
  | .process => str "PROCESS"
  | .kernel => str "KERNEL"
  | .swapped => str "SWAPPED"

def AllocAlgorithm.toText : AllocAlgorithm → Str
  | .firstFit => str "FIRST_FIT"
  | .bestFit => str "BEST_FIT"
  | .worstFit => str "WORST_FIT"

def freeBlock (start size : UInt32) : MemoryBlock :=
  { start := start, size := size, type := .free, pid := 0, owner := [], tag := [] }

structure MemoryManager where
  totalMemoryKB : UInt32 := 1024
  algorithm : AllocAlgorithm := .firstFit
  blocks : List MemoryBlock := [freeBlock 0 1024]
  deriving DecidableEq, Repr

/-- `CompactionResult`, whose `success` is always true. -/
structure CompactionResult where
  message : Str
  pidNewStart : ExtTreeMap UInt32 UInt32

namespace MemoryManager

/-! ## The block table -/

def sortBlocks (blocks : List MemoryBlock) : List MemoryBlock :=
  blocks.insertionSort fun left right => left.start ≤ right.start

/-- The loop of `mergeFreeBlocksLocked`; `last` is `merged.back()`. -/
def mergeLoop : MemoryBlock → List MemoryBlock → List MemoryBlock
  | last, [] => [last]
  | last, block :: rest =>
    if last.type = .free ∧ block.type = .free ∧ last.start + last.size = block.start then
      mergeLoop { last with size := last.size + block.size } rest
    else last :: mergeLoop block rest

def mergeSorted : List MemoryBlock → List MemoryBlock
  | [] => []
  | block :: rest => mergeLoop block rest

def mergeFreeBlocks (blocks : List MemoryBlock) : List MemoryBlock :=
  mergeSorted (sortBlocks blocks)

/-- The loop of `findFreeBlockLocked`: `i` is the position of the block under the
iterator and `best` the best candidate so far. -/
def findFreeBlockLoop (algorithm : AllocAlgorithm) (sizeKB : UInt32) :
    List MemoryBlock → Nat → Option (Nat × MemoryBlock) → Option Nat
  | [], _, best => best.map Prod.fst
  | block :: rest, i, best =>
    if block.type ≠ .free ∨ block.size < sizeKB then
      findFreeBlockLoop algorithm sizeKB rest (i + 1) best
    else if algorithm = .firstFit then some i
    else match best with
      | none => findFreeBlockLoop algorithm sizeKB rest (i + 1) (some (i, block))
      | some (j, candidate) =>
        if algorithm = .bestFit ∧ block.size < candidate.size then
          findFreeBlockLoop algorithm sizeKB rest (i + 1) (some (i, block))
        else if algorithm = .worstFit ∧ candidate.size < block.size then
          findFreeBlockLoop algorithm sizeKB rest (i + 1) (some (i, block))
        else findFreeBlockLoop algorithm sizeKB rest (i + 1) (some (j, candidate))

def findFreeBlock (m : MemoryManager) (sizeKB : UInt32) : Option Nat :=
  findFreeBlockLoop m.algorithm sizeKB m.blocks 0 none

/-! ## Allocation -/

/-- `allocateLocked`: the new state, the start of the block and the message. -/
def allocateLocked (m : MemoryManager) (owner : Str) (pid : UInt32) (tag : Str)
    (sizeKB : UInt32) (type : MemoryBlockType) :
    Except Str (MemoryManager × UInt32 × Str) :=
  if owner = [] then .error (str "Allocation failed: user must login first.")
  else if sizeKB = 0 then .error (str "Allocation failed: sizeKB must be greater than 0.")
  else match m.findFreeBlock sizeKB with
    | none => .error (str "Allocation failed: no suitable free block.")
    | some i =>
      match m.blocks[i]? with
      | none => .error (str "Allocation failed: no suitable free block.")
      | some it =>
        let allocated : MemoryBlock :=
          { start := it.start, size := sizeKB, type := type, pid := pid, owner := owner, tag := tag }
        let blocks :=
          if it.size = sizeKB then m.blocks.set i allocated
          else
            -- the free block is shortened from its low end and stays behind the new one
            (m.blocks.set i { it with start := it.start + sizeKB, size := it.size - sizeKB }).insertIdx
              i allocated
        .ok ({ m with blocks := sortBlocks blocks }, it.start,
          str "[OK] Allocated " ++ decimal sizeKB.toNat ++ str "KB at start=" ++
            decimal it.start.toNat ++ str "KB using " ++ m.algorithm.toText ++ str ".")

def allocateManual (m : MemoryManager) (owner tag : Str) (sizeKB : UInt32) :
    Except Str (MemoryManager × UInt32 × Str) :=
  m.allocateLocked owner 0 tag sizeKB .kernel

def allocateForProcess (m : MemoryManager) (owner : Str) (pid : UInt32) (processName : Str)
    (sizeKB : UInt32) : Except Str (MemoryManager × UInt32 × Str) :=
  m.allocateLocked owner pid processName sizeKB .process

/-! ## Release -/

/-- `*it = MemoryBlock{it->start, it->size, FREE, 0, "", ""}` and the merge after it. -/
def release (m : MemoryManager) (i : Nat) (it : MemoryBlock) : MemoryManager :=
  { m with blocks := mergeFreeBlocks (m.blocks.set i (freeBlock it.start it.size)) }

/-- `std::find_if`: the position of the first block that satisfies the test, and the block. -/
def findBlock (m : MemoryManager) (p : MemoryBlock → Bool) : Option (Nat × MemoryBlock) :=
  match m.blocks.findIdx? p with
  | none => none
  | some i => m.blocks[i]?.map fun it => (i, it)

def isProcessBlock (owner : Str) (pid : UInt32) (block : MemoryBlock) : Bool :=
  block.type = .process ∧ block.owner = owner ∧ block.pid = pid

def freeByAddress (m : MemoryManager) (owner : Str) (addr : UInt32) :
    Except Str (MemoryManager × Str) :=
  match m.findBlock (·.start = addr) with
  | none => .error (str "Free failed: no memory block starts at the given address.")
  | some (i, it) =>
    if it.type = .free then .error (str "Free failed: target block is already free.")
    else if it.owner ≠ owner then
      .error (str "Free failed: memory block belongs to another user.")
    else if it.type = .process then
      .error (str "Free failed: process memory must be released by kill_pcb or swap_out.")
    else .ok (m.release i it,
      str "[OK] Freed memory at start=" ++ decimal addr.toNat ++ str "KB, size=" ++
        decimal it.size.toNat ++ str "KB.")

def freeByPid (m : MemoryManager) (owner : Str) (pid : UInt32) :
    Except Str (MemoryManager × Str) :=
  match m.findBlock (isProcessBlock owner pid) with
  | none => .error (str "Free failed: process memory block not found.")
  | some (i, it) => .ok (m.release i it,
      str "[OK] Released PID=" ++ decimal pid.toNat ++ str " memory at start=" ++
        decimal it.start.toNat ++ str "KB, size=" ++ decimal it.size.toNat ++ str "KB.")

def swapOutProcess (m : MemoryManager) (owner : Str) (pid : UInt32) :
    Except Str (MemoryManager × Str) :=
  match m.findBlock (isProcessBlock owner pid) with
  | none =>
    .error (str "Swap out failed: process memory block not found or already swapped out.")
  | some (i, it) => .ok (m.release i it,
      str "[OK] PID=" ++ decimal pid.toNat ++ str " swapped out. Released " ++
        decimal it.size.toNat ++ str "KB physical memory.")

/-! ## Compaction -/

/-- The relocation loop of `compact`: the moved blocks and the final `cursor`. -/
def relocate : UInt32 → List MemoryBlock → List MemoryBlock × UInt32
  | cursor, [] => ([], cursor)
  | cursor, block :: rest =>
    let (moved, last) := relocate (cursor + block.size) rest
    ({ block with start := cursor } :: moved, last)

def movedText (old new : MemoryBlock) : Str :=
  if old.start ≠ new.start then
    str "\nMoved " ++ old.type.toText ++ str " tag=" ++ old.tag ++ str " pid=" ++
      decimal old.pid.toNat ++ str ": " ++ decimal old.start.toNat ++ str "KB -> " ++
      decimal new.start.toNat ++ str "KB"
  else []

/-- `result.pidNewStart[block.pid] = block.start` over the moved process blocks. -/
def pidNewStarts (moved : List MemoryBlock) : ExtTreeMap UInt32 UInt32 :=
  moved.foldl (fun starts block =>
    if block.type = .process then starts.insert block.pid block.start else starts) ∅

def compact (m : MemoryManager) : MemoryManager × CompactionResult :=
  let allocated := m.blocks.filter (·.type ≠ .free)
  let (moved, cursor) := relocate 0 allocated
  let packed :=
    if cursor < m.totalMemoryKB then moved ++ [freeBlock cursor (m.totalMemoryKB - cursor)]
    else moved
  let blocks := if packed = [] then [freeBlock 0 m.totalMemoryKB] else packed
  ({ m with blocks := blocks },
    { message := str "[OK] Memory compacted." ++ (allocated.zipWith movedText moved).flatten
      pidNewStart := pidNewStarts moved })

/-! ## Queries and settings -/

def usedMemoryKB (m : MemoryManager) : UInt32 :=
  ((m.blocks.filter (·.type ≠ .free)).map (·.size)).sum

def freeMemoryKB (m : MemoryManager) : UInt32 :=
  ((m.blocks.filter (·.type = .free)).map (·.size)).sum

def showBlock (owner : Str) (block : MemoryBlock) : Str :=
  let free : Bool := block.type = .free
  let owned : Bool := !free && block.owner = owner
  setw 8 (decimal block.start.toNat) ++
    setw 8 (decimal (block.start + block.size - 1).toNat) ++
    setw 9 (decimal block.size.toNat) ++
    setw 10 block.type.toText ++
    setw 12 (if free then str "-" else if owned then block.owner else str "OTHER_USER") ++
    setw 7 (if free then str "-" else decimal block.pid.toNat) ++
    (if free then str "-" else block.tag) ++ str "\n"

def mapSegment (block : MemoryBlock) : Str :=
  match block.type with
  | .free => str "|--FREE:" ++ decimal block.size.toNat ++ str "KB--"
  | .process =>
    str "|##P" ++ decimal block.pid.toNat ++ str ":" ++ decimal block.size.toNat ++ str "KB"
  | _ => str "|##" ++ block.tag ++ str ":" ++ decimal block.size.toNat ++ str "KB"

def blockTableHeader : Str :=
  setw 8 (str "Start") ++ setw 8 (str "End") ++ setw 9 (str "SizeKB") ++
    setw 10 (str "Type") ++ setw 12 (str "Owner") ++ setw 7 (str "PID") ++ str "Tag\n"

def showMemory (m : MemoryManager) (owner : Str) : Str :=
  str "=== Memory Blocks ===\n" ++ blockTableHeader ++
    m.blocks.flatMap (showBlock owner) ++
    str "\nMemory Map (0-" ++ decimal m.totalMemoryKB.toNat ++ str "KB):\n" ++
    m.blocks.flatMap mapSegment ++ str "|"

def largestFree (blocks : List MemoryBlock) : UInt32 :=
  (blocks.filter (·.type = .free)).foldl (fun acc block => max acc block.size) 0

def memoryStat (m : MemoryManager) (floats : FloatFormat) : Str :=
  str "=== Memory Statistics ===\n" ++
    str "Total Memory: " ++ decimal m.totalMemoryKB.toNat ++ str " KB\n" ++
    str "Used Memory: " ++ decimal m.usedMemoryKB.toNat ++ str " KB\n" ++
    str "Free Memory: " ++ decimal m.freeMemoryKB.toNat ++ str " KB\n" ++
    str "Allocated Blocks: " ++ decimal (m.blocks.filter (·.type ≠ .free)).length ++ str "\n" ++
    str "Free Blocks: " ++ decimal (m.blocks.filter (·.type = .free)).length ++ str "\n" ++
    str "Largest Free Block: " ++ decimal (largestFree m.blocks).toNat ++ str " KB\n" ++
    str "External Fragmentation: " ++
    floats.fragmentationText (largestFree m.blocks) m.freeMemoryKB ++ str "%"

def setAlgorithm (m : MemoryManager) (algoName : Str) : Except Str (MemoryManager × Str) :=
  let normalized := toUpper algoName
  let changed (algorithm : AllocAlgorithm) : MemoryManager × Str :=
    ({ m with algorithm := algorithm },
      str "[OK] Allocation algorithm changed to " ++ algorithm.toText ++ str ".")
  if normalized = str "FF" ∨ normalized = str "FIRST" ∨ normalized = str "FIRST_FIT" then
    .ok (changed .firstFit)
  else if normalized = str "BF" ∨ normalized = str "BEST" ∨ normalized = str "BEST_FIT" then
    .ok (changed .bestFit)
  else if normalized = str "WF" ∨ normalized = str "WORST" ∨ normalized = str "WORST_FIT" then
    .ok (changed .worstFit)
  else .error (str "Set algorithm failed: supported values are FF, BF, WF.")

/-! ## Validation and import -/

/-- The loop of `validateBlocks`: the final `expectedStart`, or the refusal. -/
def validateLoop (totalMemoryKB : UInt32) : UInt32 → List MemoryBlock → Except Str UInt32
  | expectedStart, [] => .ok expectedStart
  | expectedStart, block :: rest =>
    if block.size = 0 then
      .error (str "Memory validation failed: block size cannot be zero.")
    else if block.start ≠ expectedStart then
      .error (str "Memory validation failed: blocks are not contiguous or sorted.")
    else if totalMemoryKB < block.size ∨ totalMemoryKB - block.size < block.start then
      .error (str "Memory validation failed: block exceeds total memory range.")
    else if block.type = .free ∧ (block.pid ≠ 0 ∨ block.owner ≠ []) then
      .error (str "Memory validation failed: FREE block contains owner or PID.")
    else validateLoop totalMemoryKB (block.start + block.size) rest

/-- `validateBlocks`: the message on success and on failure. -/
def validateBlocks (m : MemoryManager) : Except Str Str :=
  if m.totalMemoryKB = 0 then
    .error (str "Memory validation failed: total memory must be greater than 0.")
  else if m.blocks = [] then
    .error (str "Memory validation failed: block table is empty.")
  else match validateLoop m.totalMemoryKB 0 m.blocks with
    | .error message => .error message
    | .ok expectedStart =>
      if expectedStart ≠ m.totalMemoryKB then
        .error (str "Memory validation failed: blocks do not cover total memory.")
      else .ok (str "Memory validation passed.")

def importBlocks (m : MemoryManager) (blocks : List MemoryBlock) : MemoryManager :=
  { m with blocks := mergeFreeBlocks (sortBlocks blocks) }

end MemoryManager

end OSCoreSim
