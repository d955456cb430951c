
import Emerald.Executable.LoadElf

/-!
# What a failed load leaves behind

The loader disables the interrupts and switches to the new address space before its first read, and
`?` leaves it in the middle of the loop: neither is undone.
-/

namespace Emerald.Executable

open Fs MemoryManagement

variable {ι η : Type} {vm kernel : VirtualMemoryMapper} {reads : Nat → List (Answer η)}
  {elf : Elf} {m m' : ProcessMetadata} {s t : Loader ι η} {e : FileSystemError}

/-- No segment touches the interrupts or the page table in use. -/
theorem loadSegments_keeps {segments : List ElfProgram} {a : Addresses}
    {r : Except FileSystemError Addresses}
    (run : loadSegments vm reads segments a s = some (r, t)) :
    t.cpu = s.cpu ∧ t.cr3 = s.cr3 := by
  induction segments generalizing a s with
  | nil =>
    obtain ⟨rfl, rfl⟩ : .ok a = r ∧ s = t := by simpa [loadSegments] using run
    exact ⟨rfl, rfl⟩
  | cons segment rest ih =>
    unfold loadSegments at run
    cases ty : segment.ty with
    | load =>
      simp only [ty, bind_eq_some] at run
      obtain ⟨-, -, physical, -, run⟩ := run
      split at run
      · obtain ⟨-, -, run⟩ := bind_eq_some.mp run
        have kept := ih run
        exact kept
      · cases run
        exact ⟨rfl, rfl⟩
      · cases run
    | programHeader | other => simp only [ty] at run; exact ih run

/-- A load that returns an error leaves the page table and the count of `push_cli` as they were. -/
def RestoresOnError (kernel : VirtualMemoryMapper) (reads : Nat → List (Answer η)) (elf : Elf)
    (m : ProcessMetadata) (vm : VirtualMemoryMapper) (s : Loader ι η) : Prop :=
  ∀ e m' t, loadElfToVm kernel reads elf m vm s = some (.error e, m', t) →
    t.cr3 = s.cr3 ∧ t.cpu.nCli = s.cpu.nCli

/-- No error is undone: the interrupts are off and disabled once more than before, and the address
space is the one that was being filled. -/
theorem failed_load_never_restored
    (failed : loadElfToVm kernel reads elf m vm s = some (.error e, m', t)) :
    t.cpu.nCli = s.cpu.nCli + 1 ∧ t.cpu.interruptFlag = false ∧ t.cr3 = vm.pageMapL4 ∧
      ¬ RestoresOnError kernel reads elf m vm s := by
  have returned := failed
  unfold loadElfToVm at failed
  simp only [bind_eq_some] at failed
  obtain ⟨cpu, pushed, ⟨result, u⟩, run, left⟩ := failed
  obtain ⟨more, off, -⟩ := Cpu.pushCli_spec pushed
  obtain ⟨keptCpu, keptCr3⟩ := loadSegments_keeps run
  cases result with
  | error =>
    obtain ⟨-, -, rfl⟩ := left
    rw [keptCpu, keptCr3]
    refine ⟨more, off, rfl, fun restores => ?_⟩
    have same := (restores _ _ _ returned).2
    rw [keptCpu, more] at same
    omega
  | ok a =>
    simp [Option.bind_eq_some_iff] at left

/-- A machine with four free pages that is about to load a file into an address space of its own. -/
def beforeLoad : Loader Unit Unit where
  cpu := ⟨false, 0, none, 0, false, true⟩
  cr3 := 0
  physical :=
    { memory := fun _ _ => 0#64
      allocator := ⟨(List.range 4).map fun k => kernelBase + page4K * (k + 2), 0, kernelBase,
        kernelBase + page4K * 6, 0, 0⟩ }
  file := ⟨(), 0, false, .none, (), ⟨true, false⟩⟩
  written := []

/-- An executable with one segment. -/
def oneSegment : Elf := ⟨[⟨.load, 5#32, 0, 0x400000, 0x400000, 16, 16⟩], []⟩

/-- A disk that fails with the first read. -/
def failingDisk (_ : Nat) : List (Answer Unit) := [⟨.error (.diskReadError 0 .deviceError), ()⟩]

theorem failed_load_oneSegment :
    ∃ m t, loadElfToVm ⟨0, false⟩ failingDisk oneSegment ⟨0, 0, 0, 0, 0, 0, 0⟩ ⟨page4K, true⟩
        beforeLoad = some (.error (.diskReadError 0 .deviceError), m, t) ∧
      t.cpu.nCli = 1 ∧ t.cpu.interruptFlag = false ∧ t.cr3 = page4K := by
  obtain ⟨m, t, failed⟩ : ∃ m t, loadElfToVm ⟨0, false⟩ failingDisk oneSegment
      ⟨0, 0, 0, 0, 0, 0, 0⟩ ⟨page4K, true⟩ beforeLoad =
        some (.error (.diskReadError 0 .deviceError), m, t) := ⟨_, _, rfl⟩
  obtain ⟨more, off, cr3, -⟩ := failed_load_never_restored failed
  exact ⟨m, t, failed, more, off, cr3⟩

theorem load_not_restored_after_disk_error :
    ¬ RestoresOnError ⟨0, false⟩ failingDisk oneSegment ⟨0, 0, 0, 0, 0, 0, 0⟩ ⟨page4K, true⟩
      beforeLoad := by
  intro restores
  obtain ⟨-, same⟩ := restores _ _ _ rfl
  exact absurd same (by decide)

end Emerald.Executable
