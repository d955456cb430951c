
import Emerald.Misc.Cursor
import Emerald.MemoryManagement.MemoryLayout

/-!
# Virtual space allocator

`VirtualSpaceAllocator` of `kernel/src/memory_management/virtual_space.rs`. The allocator is
its `entries` list. An operation answers `none` where the source panics (a failed `assert!`),
and otherwise the `Result` it returns together with the list it leaves behind.

The sums of virtual addresses are plain: the region ends one page below `2 ^ 64`, so none of
them wraps while the entries cover it. Physical addresses are arbitrary, and their sums wrap.
-/

namespace Emerald.MemoryManagement

inductive VirtualSpaceError where
  | outOfSpace
  | alreadyMapped
  | notFullRange
  | entryNotFound
  deriving DecidableEq, Repr

structure VirtualSpaceEntry where
  physicalStart : Option Nat
  virtualStart : Nat
  size : Nat
  deriving DecidableEq, Repr

namespace VirtualSpaceAllocator

/-- What an operation returns and the entries it leaves; `none` is a panic. -/
abbrev Outcome (α : Type) := Option (Except VirtualSpaceError α × List VirtualSpaceEntry)

/-- The loop of `get_entry_containing`: the first mapped entry that holds the requested
physical start, and whether it holds the whole request. -/
def entryContaining (reqPhyStart reqSize : Nat) :
    List VirtualSpaceEntry → Option (VirtualSpaceEntry × Bool)
  | [] => none
  | entry :: rest =>
    match entry.physicalStart with
    | some currentPhyStart =>
      if currentPhyStart ≤ reqPhyStart ∧ reqPhyStart < wrapAdd currentPhyStart entry.size then
        some (entry, decide (wrapAdd reqPhyStart reqSize ≤ wrapAdd currentPhyStart entry.size))
      else entryContaining reqPhyStart reqSize rest
    | none => entryContaining reqPhyStart reqSize rest

/-- The asserts at the head of `get_entry_containing`, `allocate` and `deallocate`. -/
def validRange (start size : Nat) : Bool :=
  decide (0 < size) && isAligned start page4K && isAligned size page4K

/-- The loop of `allocate`: the first free entry that is large enough is split, its front
part becomes the allocation. -/
def splitFirstFit (phyStart size : Nat) (before : List VirtualSpaceEntry) :
    List VirtualSpaceEntry → Option (Nat × List VirtualSpaceEntry)
  | [] => none
  | entry :: rest =>
    if entry.physicalStart = none ∧ size ≤ entry.size then
      let newEntry : VirtualSpaceEntry :=
        { physicalStart := none, virtualStart := entry.virtualStart + size,
          size := entry.size - size }
      let cursor : Cursor VirtualSpaceEntry := ⟨before, entry :: rest⟩
      let shrunk := cursor.setCurrent { entry with size := size, physicalStart := some phyStart }
      some (entry.virtualStart, (shrunk.insertAfter newEntry).list)
    else splitFirstFit phyStart size (entry :: before) rest

/-- The entry pushed by the first allocation. -/
def wholeRange : VirtualSpaceEntry :=
  { physicalStart := none, virtualStart := kernelExtraMemoryBase, size := kernelExtraMemorySize }

/-- The body of `allocate`, with its recursive call as `again`. -/
def allocateBody (again : List VirtualSpaceEntry → Outcome Nat) (phyStart size : Nat)
    (entries : List VirtualSpaceEntry) : Outcome Nat :=
  if ¬ validRange phyStart size then none
  else if (entryContaining phyStart size entries).isSome then
    some (.error .alreadyMapped, entries)
  else
    match splitFirstFit phyStart size [] entries with
    | some (virtualAddress, entries') => some (.ok virtualAddress, entries')
    | none =>
      if entries.isEmpty then
        if isAligned kernelExtraMemorySize page4K then again [wholeRange] else none
      else some (.error .outOfSpace, entries)

/-- `allocate`. The recursive call is made on a list with an entry in it and so makes no
further one; `allocate_eq` is the recursion of the source. -/
def allocate (phyStart size : Nat) (entries : List VirtualSpaceEntry) : Outcome Nat :=
  allocateBody (allocateBody (fun _ => none) phyStart size) phyStart size entries

variable (current : VirtualSpaceEntry)

/-- `deallocate`, "merge with next": the cursor left by `remove_current` stands on it. -/
def mergeNext (cursor : Cursor VirtualSpaceEntry) : VirtualSpaceEntry × Cursor VirtualSpaceEntry :=
  match cursor.current with
  | some nextEntry =>
    if nextEntry.physicalStart = none then
      ({ current with size := current.size + nextEntry.size }, cursor.removeCurrent)
    else (current, cursor)
  | none => (current, cursor)

/-- `deallocate`, "merge with prev": the cursor has been moved back onto it. -/
def mergePrev (cursor : Cursor VirtualSpaceEntry) : Cursor VirtualSpaceEntry :=
  match cursor.current with
  | some prevEntry =>
    if prevEntry.physicalStart = none then
      cursor.setCurrent { prevEntry with size := prevEntry.size + current.size }
    else cursor
  | none => cursor

/-- Merging the freed entry with its neighbours and putting it back. -/
def mergeAndInsert (cursor : Cursor VirtualSpaceEntry) : List VirtualSpaceEntry :=
  let (current, cursor) := mergeNext current cursor
  -- `current` is put back on every path, also where `mergePrev` has just absorbed it
  ((mergePrev current cursor.movePrev).insertAfter current).list

/-- The test of the loop of `deallocate`: the address lies inside the entry. -/
def holds (entry : VirtualSpaceEntry) (reqVirtualStart : Nat) : Prop :=
  entry.virtualStart ≤ reqVirtualStart ∧ reqVirtualStart < entry.virtualStart + entry.size

instance (entry : VirtualSpaceEntry) (reqVirtualStart : Nat) :
    Decidable (holds entry reqVirtualStart) :=
  inferInstanceAs (Decidable (_ ∧ _))

/-- The loop of `deallocate`. -/
def deallocateFrom (reqVirtualStart reqSize : Nat) (before : List VirtualSpaceEntry) :
    List VirtualSpaceEntry → Outcome Unit
  | [] => some (.error .entryNotFound, before.reverse)
  | entry :: rest =>
    if holds entry reqVirtualStart then
      if reqVirtualStart ≠ entry.virtualStart ∨ reqSize ≠ entry.size then
        some (.error .notFullRange, before.reverse ++ entry :: rest)
      else if entry.physicalStart = none then none
      else
        let current := { entry with physicalStart := none }
        some (.ok (), mergeAndInsert current (Cursor.removeCurrent ⟨before, current :: rest⟩))
    else deallocateFrom reqVirtualStart reqSize (entry :: before) rest

def deallocate (reqVirtualStart reqSize : Nat) (entries : List VirtualSpaceEntry) :
    Outcome Unit :=
  if ¬ validRange reqVirtualStart reqSize then none
  else deallocateFrom reqVirtualStart reqSize [] entries

/-- The allocator and the virtual ranges it has handed out and not taken back. -/
structure State where
  entries : List VirtualSpaceEntry
  live : List (Nat × Nat)
  deriving DecidableEq, Repr

/-- `VirtualSpaceAllocator::empty`. -/
def empty : State := { entries := [], live := [] }

/-- The live ranges after an `allocate` of `size` bytes. -/
def liveAfter (size : Nat) (live : List (Nat × Nat)) :
    Except VirtualSpaceError Nat → List (Nat × Nat)
  | .ok virtualAddress => (virtualAddress, size) :: live
  | .error _ => live

inductive Call where
  | allocate (phyStart size : Nat)
  | deallocate (virtualStart size : Nat)
  deriving DecidableEq, Repr

/-- One call: an `allocate` with any answer, or a `deallocate` of a live range, as
`VirtualSpace::drop` issues it. There is no next state after a panic, and `drop` panics on an
`Err`. -/
def step (s : State) : Call → Option State
  | .allocate phyStart size =>
    match allocate phyStart size s.entries with
    | some (result, entries) => some { entries, live := liveAfter size s.live result }
    | none => none
  | .deallocate virtualStart size =>
    if (virtualStart, size) ∈ s.live then
      match deallocate virtualStart size s.entries with
      | some (.ok (), entries) => some { entries, live := s.live.erase (virtualStart, size) }
      | _ => none
    else none

end VirtualSpaceAllocator

end Emerald.MemoryManagement
