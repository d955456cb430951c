
import Emerald.IncreasingHeapAllocator.Layout

/-!
# The heap allocator

`libraries/increasing_heap_allocator/src/allocator.rs`: a list of free blocks in increasing order of
their addresses, doubly linked through headers in the blocks themselves. Memory is a function from
the addresses of 64-bit words to their contents, and a pointer is an address, null if it is zero.
`none` is a panic, or a walk along pointers that does not end.
-/

namespace Emerald.IncreasingHeapAllocator

open MemoryManagement (alignUp isAligned)

abbrev HeapMemory := Nat → Nat

variable (memory : HeapMemory)

def HeapMemory.write (address word : Nat) : HeapMemory :=
  fun a => if a = address then word else memory a

/-- The size of `HeapFreeBlock`: the words `prev`, `next` and `size`. -/
def heapFreeBlockSize : Nat := 24

namespace HeapFreeBlock

def prev (block : Nat) : Nat := memory block
def next (block : Nat) : Nat := memory (block + 8)
def size (block : Nat) : Nat := memory (block + 16)

variable (block word : Nat)

def setPrev : HeapMemory := memory.write block word
def setNext : HeapMemory := memory.write (block + 8) word
def setSize : HeapMemory := memory.write (block + 16) word

/-- `if !block.is_null() { (*block).prev = word }`. -/
def setPrevOf : HeapMemory :=
  if block ≠ 0 then setPrev memory block word else memory

end HeapFreeBlock

def heapMagic : Nat := 0xF0B0CAFE

namespace AllocatedHeapBlockInfo

/-- The magic number is in the lower half of the first word. -/
def magic (info : Nat) : Nat := memory info % 2 ^ 32
def size (info : Nat) : Nat := memory (info + 8)
def prePadding (info : Nat) : Nat := memory (info + 16)

/-- The three assignments to `*allocated_block_info`. -/
def store (info size prePadding : Nat) : HeapMemory :=
  ((memory.write info (memory info / 2 ^ 32 * 2 ^ 32 + heapMagic)).write (info + 8) size).write
    (info + 16) prePadding

end AllocatedHeapBlockInfo

/-- `HeapAllocator`, with the memory it works on and a page allocator in some state. -/
structure HeapAllocator (π : Type) where
  heapStart : Nat
  totalHeapSize : Nat
  freeListAddr : Nat
  freeSize : Nat
  usedSize : Nat
  pageAllocator : π
  memory : HeapMemory

open HeapFreeBlock

/-! ## Walks along the list -/

/-- There are no more addresses than this, so a longer walk does not end. -/
def walkLimit : Nat := 2 ^ 64

/-- The blocks `iter_free_blocks` yields from a block on. -/
def freeBlocksFrom (memory : HeapMemory) : Nat → Nat → Option (List Nat)
  | 0, _ => none
  | limit + 1, block =>
    if block = 0 then some []
    else (freeBlocksFrom memory limit (next memory block)).map (block :: ·)

/-- The loop of `is_free_blocks_in_cycle`. -/
def floyd (memory : HeapMemory) : Nat → Nat → Nat → Option Bool
  | 0, _, _ => none
  | limit + 1, slow, fast =>
    if fast = slow then some true
    else if fast = 0 ∨ next memory fast = 0 ∨ slow = 0 then some false
    else floyd memory limit (next memory slow) (next memory (next memory fast))

/-- The number of blocks that `prev` leads over from a block on. -/
def countBackward (memory : HeapMemory) : Nat → Nat → Option Nat
  | 0, _ => none
  | limit + 1, block =>
    if block = 0 then some 0 else (countBackward memory limit (prev memory block)).map (· + 1)

/-- What the loop of `free_block` has found: the free blocks that end where the freed one starts and
start where it ends, and the last one before it. -/
structure Around where
  prevBlock : Nat
  nextBlock : Nat
  closestPrevBlock : Nat
  deriving DecidableEq

/-- The body of that loop, after its checks. -/
def Around.visit (around : Around) (memory : HeapMemory) (start stop block : Nat) : Around where
  prevBlock := if block + size memory block = start then block else around.prevBlock
  nextBlock :=
    if block + size memory block ≠ start ∧ stop = block then block else around.nextBlock
  closestPrevBlock :=
    if block < start ∧ (around.closestPrevBlock = 0 ∨ around.closestPrevBlock < block) then block
    else around.closestPrevBlock

/-- The loop of `free_block`. A double free panics, and so does a block that overlaps a free one. -/
def lookAround (memory : HeapMemory) (start stop : Nat) : List Nat → Around → Option Around
  | [], around => some around
  | block :: rest, around =>
    if block = start then none
    else if stop ≤ block ∨ block + size memory block ≤ start then
      lookAround memory start stop rest (around.visit memory start stop block)
    else none

/-- The loop of `get_free_block`: the smallest block that is large enough, the first one of them. -/
def bestBlock (memory : HeapMemory) (wanted : Nat) : List Nat → Nat → Nat
  | [], best => best
  | block :: rest, best =>
    if wanted ≤ size memory block ∧ (best = 0 ∨ size memory block < size memory best) then
      bestBlock memory wanted rest block
    else bestBlock memory wanted rest best

namespace HeapAllocator
variable {π : Type}

variable (s : HeapAllocator π)

/-- `iter_free_blocks`. -/
def iterFreeBlocks : Option (List Nat) :=
  freeBlocksFrom s.memory walkLimit s.freeListAddr

/-- `debug_free_blocks`: the free blocks with their sizes. -/
def debugFreeBlocks : Option (List (Nat × Nat)) :=
  s.iterFreeBlocks.map fun blocks => blocks.map fun block => (block, size s.memory block)

/-- `is_free_blocks_in_cycle`. -/
def isFreeBlocksInCycle : Option Bool :=
  if s.freeListAddr = 0 then some false
  else floyd s.memory walkLimit s.freeListAddr (next s.memory s.freeListAddr)

/-- `check_free_blocks`: the walk forward and the walk back from the last block differ in length. -/
def checkFreeBlocks : Option Bool := do
  let blocks ← s.iterFreeBlocks
  let backward ← countBackward s.memory walkLimit (blocks.getLast?.getD 0)
  some (blocks.length != backward)

/-- `check_issues`. -/
def checkIssues : Option Bool := do
  let cycle ← s.isFreeBlocksInCycle
  if cycle then some true else s.checkFreeBlocks

/-- `if self.check_issues() { panic!() }`. -/
def checked : Option (HeapAllocator π) := do
  let issues ← s.checkIssues
  if issues then none else some s

/-! ## `free_block` -/

/-- `if !prev.is_null() { (*prev).next = block } else { self.free_list_addr = block }`. -/
def linkFrom (prevBlock block : Nat) : HeapAllocator π :=
  if prevBlock ≠ 0 then { s with memory := setNext s.memory prevBlock block }
  else { s with freeListAddr := block }

/-- The freed block lies between two free ones. -/
def mergeBoth (newBlock nextBlock freed : Nat) : HeapAllocator π :=
  let m := setSize s.memory newBlock
    (size s.memory newBlock + (freed + size s.memory nextBlock))
  let m := setPrevOf m (next m nextBlock) newBlock
  let s := { s with memory := m }.linkFrom (prev m nextBlock) newBlock
  { s with memory := setNext s.memory newBlock (next s.memory nextBlock) }

/-- There is a free block right before the freed one. -/
def mergePrev (prevBlock freed : Nat) : HeapAllocator π :=
  { s with memory := setSize s.memory prevBlock (size s.memory prevBlock + freed) }

/-- There is a free block right after the freed one. -/
def mergeNext (newBlock nextBlock freed : Nat) : HeapAllocator π :=
  let m := setSize s.memory newBlock (size s.memory nextBlock + freed)
  let m := setPrev m newBlock (prev m nextBlock)
  let m := setNext m newBlock (next m nextBlock)
  let m := setPrevOf m (next m nextBlock) newBlock
  { s with memory := m }.linkFrom (prev m nextBlock) newBlock

/-- There is no free block around the freed one: it goes behind the closest one before it. -/
def insertFree (newBlock closestPrevBlock freed : Nat) : HeapAllocator π :=
  if closestPrevBlock = 0 then
    let m := setPrev s.memory newBlock 0
    let m := setNext m newBlock s.freeListAddr
    let m := setSize m newBlock freed
    { s with memory := setPrevOf m (next m newBlock) newBlock, freeListAddr := newBlock }
  else
    let closestNextBlock := next s.memory closestPrevBlock
    let m := setPrev s.memory newBlock closestPrevBlock
    let m := setNext m newBlock closestNextBlock
    let m := setSize m newBlock freed
    let m := setNext m closestPrevBlock newBlock
    { s with memory := setPrevOf m closestNextBlock newBlock }

/-- The four ways to put the freed block into the list. -/
def putFree (freeingBlock freed : Nat) (around : Around) : HeapAllocator π :=
  if around.prevBlock ≠ 0 ∧ around.nextBlock ≠ 0 then
    s.mergeBoth around.prevBlock around.nextBlock freed
  else if around.prevBlock ≠ 0 then s.mergePrev around.prevBlock freed
  else if around.nextBlock ≠ 0 then s.mergeNext freeingBlock around.nextBlock freed
  else s.insertFree freeingBlock around.closestPrevBlock freed

/-- `free_block`. -/
def freeBlock (freeingBlock freed : Nat) : Option (HeapAllocator π) :=
  if freeingBlock ≤ s.heapStart + s.totalHeapSize ∧
      freeingBlock + freed ≤ s.heapStart + s.totalHeapSize then do
    let blocks ← s.iterFreeBlocks
    let around ← lookAround s.memory freeingBlock (freeingBlock + freed) blocks ⟨0, 0, 0⟩
    some (s.putFree freeingBlock freed around)
  else none

/-! ## `alloc` and `dealloc`

`allocatePages` is the provider's `allocate_pages`, for pages of `pageSize` bytes. -/

section
variable (pageSize : Nat) (allocatePages : π → Nat → Option (Nat × π))

/-- The new pages put into the list. -/
def addPages (newHeapStart bytes : Nat) : Option (HeapAllocator π) :=
  if s.freeListAddr = 0 then
    let m := setPrev s.memory newHeapStart 0
    let m := setNext m newHeapStart 0
    let m := setSize m newHeapStart bytes
    some { s with memory := m, freeListAddr := newHeapStart }
  else s.freeBlock newHeapStart bytes

/-- `allocate_more_pages`. -/
def allocateMorePages (s : HeapAllocator π) (pages : Nat) : Option (HeapAllocator π) :=
  if 0 < pages then do
    let (newHeapStart, pageAllocator) ← allocatePages s.pageAllocator pages
    let bytes := pages * pageSize
    let s ← { s with
      heapStart := if s.totalHeapSize = 0 then newHeapStart else s.heapStart
      totalHeapSize := s.totalHeapSize + bytes
      pageAllocator := pageAllocator }.addPages newHeapStart bytes
    some { s with freeSize := s.freeSize + bytes }
  else none

/-- `get_free_block`, which calls itself after each growth of the heap, with the size rounded up to
pages. -/
def getFreeBlock : Nat → HeapAllocator π → Nat → Option (Nat × HeapAllocator π)
  | 0, _, _ => none
  | calls + 1, s, wanted =>
    let grow : Option (Nat × HeapAllocator π) := do
      let wanted := alignUp wanted pageSize
      let s ← s.allocateMorePages pageSize allocatePages (wanted / pageSize)
      getFreeBlock calls s wanted
    if s.totalHeapSize = 0 then grow
    else do
      let blocks ← s.iterFreeBlocks
      let best := bestBlock s.memory wanted blocks 0
      if best = 0 then grow else some (best, s)

/-- The offset of the allocated memory in a block: aligned, with room for the info before it. -/
def blockOffset (base align : Nat) : Nat :=
  let possibleNextOffset := alignUp base align - base
  if possibleNextOffset < kernelHeapBlockInfoSize then
    possibleNextOffset + max kernelHeapBlockInfoSize align
  else possibleNextOffset

/-- The end of the block goes back into the list, in the place of the whole block. -/
def splitBlock (block allocationSize : Nat) : HeapAllocator π :=
  let newBlock := block + allocationSize
  let blockSize := size s.memory block
  let m := setPrev s.memory newBlock (prev s.memory block)
  let m := setNext m newBlock (next m block)
  let m := setSize m newBlock (blockSize - allocationSize)
  let m := setPrevOf m (next m newBlock) newBlock
  { s with memory := m }.linkFrom (prev m newBlock) newBlock

/-- The block is taken out of the list. -/
def unlinkBlock (block : Nat) : HeapAllocator π :=
  let s := s.linkFrom (prev s.memory block) (next s.memory block)
  { s with memory := setPrevOf s.memory (next s.memory block) (prev s.memory block) }

/-- The allocation is taken from the block: its end is split off if a free block fits into it. The
size of the allocation is returned. -/
def takeBlock (block allocationSize : Nat) : Nat × HeapAllocator π :=
  if allocationSize + heapFreeBlockSize < size s.memory block then
    (allocationSize, s.splitBlock block allocationSize)
  else (size s.memory block, s.unlinkBlock block)

/-- `alloc` in the free block it has found. -/
def allocIn (layout : Layout)
    (block allocationSize blockOffsetFromHeader : Nat) : Option (Nat × HeapAllocator π) :=
  let offset := blockOffset block layout.align
  let allocationSize := allocationSize + (offset - blockOffsetFromHeader)
  if isAligned block Layout.blockInfo.align ∧ kernelHeapBlockInfoSize ≤ offset ∧
      allocationSize ≤ size s.memory block then do
    let (thisAllocationSize, s) := s.takeBlock block allocationSize
    let s ← { s with
      freeSize := s.freeSize - thisAllocationSize
      usedSize := s.usedSize + thisAllocationSize }.checked
    let allocatedPtr := block + offset
    if isAligned allocatedPtr layout.align then
      let memory := AllocatedHeapBlockInfo.store s.memory
        (allocatedPtr - kernelHeapBlockInfoSize) thisAllocationSize offset
      some (allocatedPtr, { s with memory := memory })
    else none
  else none

/-- `alloc`. The recursion of `get_free_block` ends with its second call: see
`getFreeBlock_calls`. -/
def alloc (s : HeapAllocator π) (layout : Layout) : Option (Nat × HeapAllocator π) := do
  let (allocationSize, blockOffsetFromHeader) ← wholeBlock layout
  let (block, s) ← getFreeBlock pageSize allocatePages 2 s allocationSize
  if block = 0 then some (0, s)
  else s.allocIn layout block allocationSize blockOffsetFromHeader

end

/-- `dealloc`. -/
def dealloc (ptr : Nat) (layout : Layout) : Option (HeapAllocator π) := do
  let (sizeToFreeFromLayout, _) ← wholeBlock layout
  let info := ptr - kernelHeapBlockInfoSize
  let thisAllocationSize := AllocatedHeapBlockInfo.size s.memory info
  let prePadding := AllocatedHeapBlockInfo.prePadding s.memory info
  if ptr ≠ 0 ∧ AllocatedHeapBlockInfo.magic s.memory info = heapMagic ∧
      sizeToFreeFromLayout ≤ thisAllocationSize ∧ kernelHeapBlockInfoSize ≤ prePadding then do
    let s ← s.freeBlock (ptr - prePadding) thisAllocationSize
    { s with
      usedSize := s.usedSize - thisAllocationSize
      freeSize := s.freeSize + thisAllocationSize }.checked
  else none

/-- `HeapAllocator::new`, on a memory with any contents. -/
def new (pageAllocator : π) (memory : HeapMemory) : HeapAllocator π :=
  ⟨0, 0, 0, 0, 0, pageAllocator, memory⟩

end HeapAllocator

end Emerald.IncreasingHeapAllocator
