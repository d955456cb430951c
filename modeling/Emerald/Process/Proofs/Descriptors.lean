
import Emerald.Misc.Reachable
import Emerald.Process.FileDescriptors

/-!
# The next file descriptor

Runs of the descriptor table of a process from its creation. The counter has to stay clear of the
open descriptors, or the next `push_fs_node` panics with "fd already exists". `push_fs_node` moves
the counter up by one and `attach_fs_node_to_fd` moves it right behind the attached descriptor,
wherever that is, so each of them may put the counter on an open descriptor.
-/

namespace Emerald.Process

open MemoryManagement (wrapAdd)

variable {ν : Type}
variable {fd : Nat}

namespace FsNodes

/-- `fd` is a key of `open_filesystem_nodes`. -/
def IsOpen (t : FsNodes ν) (fd : Nat) : Prop := (t.openFilesystemNodes.get? fd).isSome = true

instance (t : FsNodes ν) (fd : Nat) : Decidable (t.IsOpen fd) := inferInstanceAs (Decidable (_ = _))

/-- The next value of `file_index_allocator` is not an open descriptor. -/
def NextFree (t : FsNodes ν) : Prop := ¬ t.IsOpen t.fileIndexAllocator.nextId

instance (t : FsNodes ν) : Decidable t.NextFree := inferInstanceAs (Decidable (¬ _))

theorem not_isOpen_iff {t : FsNodes ν} : ¬ t.IsOpen fd ↔ t.openFilesystemNodes.get? fd = none := by
  simp [IsOpen]

theorem isOpen_insert (m : SortedMap ν) (a : GoingUpAllocator) (fd other : Nat) (file : ν) :
    IsOpen ⟨m.insert fd file, a⟩ other ↔ other = fd ∨ IsOpen ⟨m, a⟩ other := by
  by_cases same : other = fd <;> simp [IsOpen, SortedMap.get?_insert, same]

theorem isOpen_erase (m : SortedMap ν) (a : GoingUpAllocator) (fd other : Nat) :
    IsOpen ⟨m.erase fd, a⟩ other ↔ other ≠ fd ∧ IsOpen ⟨m, a⟩ other := by
  by_cases same : other = fd <;> simp [IsOpen, SortedMap.get?_erase, same]

/-- The assertion of `push_fs_node` and `put_fs_node` passes just where the descriptor is not
open. -/
theorem insertNew_eq_some_iff {t t' : FsNodes ν} {file : ν} :
    t.insertNew fd file = some t' ↔
      ¬ t.IsOpen fd ∧
        t' = { t with openFilesystemNodes := t.openFilesystemNodes.insert fd file } := by
  rw [not_isOpen_iff, insertNew]
  cases present : t.openFilesystemNodes.get? fd with
  | some node => simp
  | none => simp [eq_comm]

theorem pushFsNode_eq_some_iff {t t' : FsNodes ν} {file : ν} :
    t.pushFsNode file = some (fd, t') ↔
      t.NextFree ∧ fd = t.fileIndexAllocator.nextId ∧
        t' = ⟨t.openFilesystemNodes.insert fd file, ⟨wrapAdd fd 1⟩⟩ := by
  constructor
  · intro pushed
    obtain ⟨after, inserted, rest⟩ := bind_eq_some.mp pushed
    obtain ⟨free, rfl⟩ := insertNew_eq_some_iff.mp inserted
    cases rest
    exact ⟨free, rfl, rfl⟩
  · rintro ⟨free, rfl, rfl⟩
    exact bind_eq_some.mpr ⟨_, insertNew_eq_some_iff.mpr ⟨free, rfl⟩, rfl⟩

end FsNodes

inductive DescriptorCall (ν : Type) where
  | finishStdio
  | pushFsNode (file : ν)
  | attachFsNodeToFd (fd : Nat) (file : ν)
  | takeFsNode (fd : Nat)
  | putFsNode (fd : Nat) (file : ν)

/-- The table, and the descriptor the last call took out of it, if it was a `take_fs_node` that
found a node. -/
structure DescriptorRun (ν : Type) where
  table : FsNodes ν
  justTaken : Option Nat

namespace DescriptorRun

def start : DescriptorRun ν := ⟨FsNodes.new, none⟩

variable (s : DescriptorRun ν) {c : DescriptorCall ν}

def step : DescriptorCall ν → Option (DescriptorRun ν)
  | .finishStdio => s.table.finishStdio.map (⟨·, none⟩)
  | .pushFsNode file => (s.table.pushFsNode file).map (⟨·.2, none⟩)
  | .attachFsNodeToFd fd file => some ⟨(s.table.attachFsNodeToFd fd file).2, none⟩
  | .takeFsNode fd =>
    let (node, table) := s.table.takeFsNode fd
    some ⟨table, node.map fun _ => fd⟩
  | .putFsNode fd file => (s.table.putFsNode fd file).map (⟨·, none⟩)

/-- A node is put back only where it has just been taken. -/
def Allowed : DescriptorCall ν → Prop
  | .putFsNode fd _ => s.justTaken = some fd
  | _ => True

/-- The place the call moves the counter to is not open. -/
def KeepsNextFree : DescriptorCall ν → Prop
  | .finishStdio => s.table.fileIndexAllocator.nextId < 3 → ¬ s.table.IsOpen 3
  | .pushFsNode _ => ¬ s.table.IsOpen (wrapAdd s.table.fileIndexAllocator.nextId 1)
  | .attachFsNodeToFd fd _ => s.table.IsOpen fd ∨ ¬ s.table.IsOpen (wrapAdd fd 1)
  | .takeFsNode _ | .putFsNode _ _ => True

instance (s : DescriptorRun ν) : (c : DescriptorCall ν) → Decidable (s.Allowed c)
  | .putFsNode _ _ => inferInstanceAs (Decidable (_ = _))
  | .finishStdio | .pushFsNode _ | .attachFsNodeToFd _ _ | .takeFsNode _ =>
    inferInstanceAs (Decidable True)

instance (s : DescriptorRun ν) : (c : DescriptorCall ν) → Decidable (s.KeepsNextFree c)
  | .finishStdio => inferInstanceAs (Decidable (_ → _))
  | .pushFsNode _ => inferInstanceAs (Decidable (¬ _))
  | .attachFsNodeToFd _ _ => inferInstanceAs (Decidable (_ ∨ _))
  | .takeFsNode _ | .putFsNode _ _ => inferInstanceAs (Decidable True)

/-- A run whose calls all meet `guard`. -/
def Reached (guard : DescriptorRun ν → DescriptorCall ν → Prop) (s : DescriptorRun ν) : Prop :=
  Reachable (fun s c t => step s c = some t) (fun s c => s.Allowed c ∧ guard s c) (· = start) s

/-- The counter is clear of the open descriptors and of the one that may be put back. -/
structure Inv (s : DescriptorRun ν) : Prop where
  nextFree : s.table.NextFree
  takenApart : ∀ fd, s.justTaken = some fd → s.table.fileIndexAllocator.nextId ≠ fd

theorem wrapAdd_one_ne : wrapAdd fd 1 ≠ fd := by
  unfold wrapAdd
  omega

theorem inv_of_nextFree {table : FsNodes ν} (free : table.NextFree) : Inv ⟨table, none⟩ :=
  ⟨free, fun _ taken => nomatch taken⟩

/-- One call: the counter is clear of the open descriptors afterwards just where it was moved to a
place that is not open. -/
theorem nextFree_step_iff {s t : DescriptorRun ν} (inv : Inv s)
    (allowed : s.Allowed c) (taken : step s c = some t) :
    t.table.NextFree ↔ s.KeepsNextFree c := by
  cases c with
  | finishStdio =>
    obtain ⟨table, done, rfl⟩ := Option.map_eq_some_iff.mp taken
    have free := inv.nextFree
    obtain ⟨-, done⟩ := Option.ite_none_right_eq_some.mp done
    split at done
    · rename_i below
      cases done
      exact ⟨fun free _ => free, fun keeps => keeps below⟩
    · rename_i above
      cases done
      exact ⟨fun _ below => absurd below above, fun _ => free⟩
  | pushFsNode file =>
    obtain ⟨⟨fd, table⟩, pushed, rfl⟩ := Option.map_eq_some_iff.mp taken
    obtain ⟨free, rfl, rfl⟩ := FsNodes.pushFsNode_eq_some_iff.mp pushed
    refine not_congr ((FsNodes.isOpen_insert _ _ _ _ _).trans ?_)
    exact or_iff_right wrapAdd_one_ne
  | attachFsNodeToFd fd file =>
    cases taken
    cases present : s.table.openFilesystemNodes.get? fd with
    | some node =>
      have opened : s.table.IsOpen fd := by simp [FsNodes.IsOpen, present]
      simp only [FsNodes.attachFsNodeToFd, present]
      exact ⟨fun _ => .inl opened, fun _ => inv.nextFree⟩
    | none =>
      have closed : ¬ s.table.IsOpen fd := FsNodes.not_isOpen_iff.mpr present
      simp only [FsNodes.attachFsNodeToFd, present]
      refine Iff.trans (not_congr ((FsNodes.isOpen_insert _ _ _ _ _).trans ?_))
        (or_iff_right closed).symm
      exact or_iff_right wrapAdd_one_ne
  | takeFsNode fd =>
    cases taken
    refine iff_of_true ?_ trivial
    exact fun opened => inv.nextFree ((FsNodes.isOpen_erase _ _ _ _).mp opened).2
  | putFsNode fd file =>
    obtain ⟨table, done, rfl⟩ := Option.map_eq_some_iff.mp taken
    obtain ⟨closed, rfl⟩ := FsNodes.insertNew_eq_some_iff.mp done
    refine iff_of_true ?_ trivial
    intro opened
    cases (FsNodes.isOpen_insert _ _ _ _ _).mp opened with
    | inl same => exact inv.takenApart fd allowed same
    | inr opened => exact inv.nextFree opened

/-- Only a descriptor that was open is remembered as taken. -/
theorem takenApart_step {s t : DescriptorRun ν} (inv : Inv s) (taken : step s c = some t) :
    ∀ fd, t.justTaken = some fd → t.table.fileIndexAllocator.nextId ≠ fd := by
  cases c with
  | takeFsNode fd =>
    cases taken
    intro fd' remembered same
    obtain ⟨node, present, rfl⟩ := Option.map_eq_some_iff.mp remembered
    apply inv.nextFree
    have opened : s.table.IsOpen fd := by simp [FsNodes.IsOpen, present]
    exact (congrArg s.table.IsOpen same).mpr opened
  | finishStdio | pushFsNode file | putFsNode fd file =>
    obtain ⟨table, done, rfl⟩ := Option.map_eq_some_iff.mp taken
    exact fun _ remembered => nomatch remembered
  | attachFsNodeToFd fd file =>
    cases taken
    exact fun _ remembered => nomatch remembered

theorem inv_of_reached : ∀ s : DescriptorRun ν, Reached KeepsNextFree s → Inv s := by
  refine Reachable.invariant ?_ ?_
  · intro s first
    cases first
    exact inv_of_nextFree (by simp [FsNodes.new, FsNodes.NextFree, FsNodes.IsOpen])
  · intro s c t inv allowed taken
    exact ⟨(nextFree_step_iff inv allowed.1 taken).mpr allowed.2, takenApart_step inv taken⟩

/-- As long as no call moves the counter onto an open descriptor, the next descriptor is free and
`push_fs_node` does not panic; and a call that does move it there ends this. -/
theorem nextFree_of_reached (s : DescriptorRun ν) (reached : Reached KeepsNextFree s) :
    s.table.NextFree ∧ (∀ file, ∃ t, s.table.pushFsNode file =
        some (s.table.fileIndexAllocator.nextId, t)) ∧
      ∀ c t, s.Allowed c → step s c = some t → (t.table.NextFree ↔ s.KeepsNextFree c) := by
  have inv := inv_of_reached s reached
  refine ⟨inv.nextFree, ?_, fun c t allowed taken => nextFree_step_iff inv allowed taken⟩
  exact fun file => ⟨_, FsNodes.pushFsNode_eq_some_iff.mpr ⟨inv.nextFree, rfl, rfl⟩⟩

/-- The three standard descriptors attached in order, as `sys_spawn` inherits them; then a file is
opened, taken and put back. -/
def standardCalls : List (DescriptorCall Unit) :=
  [.attachFsNodeToFd 0 (), .attachFsNodeToFd 1 (), .attachFsNodeToFd 2 (), .finishStdio,
    .pushFsNode (), .takeFsNode 3, .putFsNode 3 ()]

theorem nextFree_standardCalls :
    ∃ s : DescriptorRun Unit, Reached KeepsNextFree s ∧
      s.table.fileIndexAllocator.nextId = 4 ∧ s.table.NextFree := by
  obtain ⟨s, reached, next⟩ : ∃ s, Reached KeepsNextFree s ∧
      s.table.fileIndexAllocator.nextId = 4 :=
    Reachable.exists_of_run rfl standardCalls (by decide +kernel)
  exact ⟨s, reached, next, (nextFree_of_reached s reached).1⟩

/-- The descriptors of a child whose parent maps one of its own to 3: `sys_spawn` attaches the
mapping first and the inherited standard descriptors after it. -/
def mappedFirstCalls : List (DescriptorCall Unit) :=
  [.attachFsNodeToFd 3 (), .attachFsNodeToFd 0 (), .attachFsNodeToFd 1 (),
    .attachFsNodeToFd 2 (), .finishStdio]

/-- After these calls the counter stands on the open descriptor 3 and the first `push_fs_node` of
the child panics. -/
theorem not_nextFree_mappedFirstCalls :
    ∃ s : DescriptorRun Unit, Reached (fun _ _ => True) s ∧
      ¬ s.table.NextFree ∧ s.table.pushFsNode () = none := by
  obtain ⟨s, reached, onOpen, panics⟩ : ∃ s, Reached (fun _ _ => True) s ∧
      ¬ s.table.NextFree ∧ (s.table.pushFsNode ()).isNone :=
    Reachable.exists_of_run rfl mappedFirstCalls (by decide +kernel)
  exact ⟨s, reached, onOpen, Option.isNone_iff_eq_none.mp panics⟩

end DescriptorRun

end Emerald.Process
