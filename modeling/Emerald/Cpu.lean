
import Emerald.Misc.Outcome

/-!
# The processor

`kernel/src/cpu/mod.rs`: the per-processor record and the nested disabling of interrupts, with the
interrupt flag of the hardware beside it, and `kernel/src/sync/spin/mutex.rs`, whose guards disable
interrupts for as long as they live. There is one processor (`cpu()` is always `CPUS[0]`), and
`none` is a panic.
-/

namespace Emerald

/-- The registers a context switch exchanges (`process/mod.rs`, `ProcessContext`). Those no code
but the switch itself looks at are kept together in `others`. -/
structure ProcessContext where
  rflags : BitVec 64
  rip : BitVec 64
  cs : BitVec 64
  rsp : BitVec 64
  ss : BitVec 64
  rax : BitVec 64
  others : List (BitVec 64)
  deriving DecidableEq

/-- `flags::IF` in a saved `rflags`. -/
def ProcessContext.interruptsEnabled (context : ProcessContext) : Bool :=
  context.rflags &&& 0x200#64 ≠ 0#64

/-- `cs & 0x3`: the privilege level the context runs with. -/
def ProcessContext.ring (context : ProcessContext) : BitVec 64 := context.cs &&& 3#64

structure Cpu where
  oldInterruptEnable : Bool
  /-- The number of times `push_cli` was called and not undone. -/
  nCli : Nat
  context : Option ProcessContext
  processId : Nat
  scheduling : Bool
  /-- The interrupt flag of the hardware: `rflags() & flags::IF != 0`. -/
  interruptFlag : Bool
  deriving DecidableEq

namespace Cpu

/-- `usize::MAX`. -/
def usizeMax : Nat := 2 ^ 64 - 1

/-- The part of `push_cli` that runs at depth zero: save the flag and clear it. -/
def saveInterrupts (cpu : Cpu) : Cpu :=
  if cpu.nCli = 0 then
    { cpu with interruptFlag := false, oldInterruptEnable := cpu.interruptFlag }
  else cpu

def pushCli (cpu : Cpu) : Option Cpu :=
  if cpu.nCli < usizeMax ∧ cpu.saveInterrupts.interruptFlag = false then
    some { cpu.saveInterrupts with nCli := cpu.nCli + 1 }
  else none

def popCli (cpu : Cpu) : Option Cpu :=
  if 0 < cpu.nCli ∧ cpu.interruptFlag = false then
    some { cpu with
      nCli := cpu.nCli - 1
      interruptFlag := cpu.nCli - 1 = 0 ∧ cpu.oldInterruptEnable = true }
  else none

/-- Entering an interrupt handler clears the interrupt flag. -/
def enterInterrupt (cpu : Cpu) : Cpu := { cpu with interruptFlag := false }

/-- `iretq` loads the flags of the frame it returns to. -/
def returnFromInterrupt (cpu : Cpu) (frame : ProcessContext) : Cpu :=
  { cpu with interruptFlag := frame.interruptsEnabled }

/-! ## One step of each -/

variable {cpu cpu' : Cpu}

/-- What `push_cli` leaves unchanged: everything but the nesting depth and the flags. -/
structure SameRun (cpu cpu' : Cpu) : Prop where
  context : cpu'.context = cpu.context
  processId : cpu'.processId = cpu.processId
  scheduling : cpu'.scheduling = cpu.scheduling

theorem SameRun.refl (cpu : Cpu) : SameRun cpu cpu := ⟨rfl, rfl, rfl⟩

theorem SameRun.trans {a b c : Cpu} (first : SameRun a b) (second : SameRun b c) : SameRun a c :=
  ⟨second.context.trans first.context, second.processId.trans first.processId,
    second.scheduling.trans first.scheduling⟩

theorem pushCli_spec (pushed : cpu.pushCli = some cpu') :
    cpu'.nCli = cpu.nCli + 1 ∧ cpu'.interruptFlag = false ∧ SameRun cpu cpu' ∧
      (cpu.nCli = 0 → cpu'.oldInterruptEnable = cpu.interruptFlag) ∧
      (cpu.nCli ≠ 0 → cpu.interruptFlag = false ∧
        cpu'.oldInterruptEnable = cpu.oldInterruptEnable) := by
  simp only [pushCli, Option.ite_none_right_eq_some, Option.some.injEq] at pushed
  obtain ⟨⟨-, flag⟩, rfl⟩ := pushed
  refine ⟨rfl, flag, ?_, ?_, ?_⟩
  · unfold saveInterrupts
    split <;> exact ⟨rfl, rfl, rfl⟩
  · intro outer
    simp [saveInterrupts, outer]
  · intro nested
    simp only [saveInterrupts, nested, if_false] at flag ⊢
    exact ⟨flag, trivial⟩

theorem popCli_spec (popped : cpu.popCli = some cpu') :
    cpu.nCli = cpu'.nCli + 1 ∧ cpu.interruptFlag = false ∧ SameRun cpu cpu' ∧
      cpu'.oldInterruptEnable = cpu.oldInterruptEnable ∧
      (cpu'.interruptFlag = true ↔ cpu'.nCli = 0 ∧ cpu.oldInterruptEnable = true) := by
  simp only [popCli, Option.ite_none_right_eq_some, Option.some.injEq] at popped
  obtain ⟨⟨nested, flag⟩, rfl⟩ := popped
  refine ⟨?_, flag, ⟨rfl, rfl, rfl⟩, rfl, ?_⟩
  · show cpu.nCli = cpu.nCli - 1 + 1
    omega
  · simp

/-- A stretch of code that keeps the nesting depth and the interrupt flag. While interrupts are
disabled by an outer `push_cli` it also keeps the flag that one saved. -/
structure Balanced (cpu cpu' : Cpu) : Prop where
  nCli : cpu'.nCli = cpu.nCli
  interruptFlag : cpu'.interruptFlag = cpu.interruptFlag
  saved : cpu.nCli ≠ 0 → cpu'.oldInterruptEnable = cpu.oldInterruptEnable

theorem Balanced.refl (cpu : Cpu) : Balanced cpu cpu := ⟨rfl, rfl, fun _ => rfl⟩

theorem Balanced.trans {a b c : Cpu} (first : Balanced a b) (second : Balanced b c) :
    Balanced a c := by
  refine ⟨second.nCli.trans first.nCli, second.interruptFlag.trans first.interruptFlag, ?_⟩
  intro nested
  rw [second.saved (by rw [first.nCli]; exact nested), first.saved nested]

theorem balanced_context (cpu : Cpu) (context : Option ProcessContext) :
    Balanced cpu { cpu with context := context } := ⟨rfl, rfl, fun _ => rfl⟩

/-- `push_cli`, balanced code, `pop_cli`: balanced again. -/
theorem Balanced.of_push_pop {a b c d : Cpu} (pushed : a.pushCli = some b) (inner : Balanced b c)
    (popped : c.popCli = some d) : Balanced a d := by
  obtain ⟨up, -, -, outer, nested⟩ := pushCli_spec pushed
  obtain ⟨down, -, -, kept, flag⟩ := popCli_spec popped
  have depth : d.nCli = a.nCli := by
    have := inner.nCli
    omega
  have saved : c.oldInterruptEnable = b.oldInterruptEnable := inner.saved (by omega)
  refine ⟨depth, ?_, ?_⟩
  · by_cases top : a.nCli = 0
    · rw [Bool.eq_iff_iff, flag, saved, outer top, depth]
      simp [top]
    · rw [(nested top).1, ← Bool.not_eq_true, flag, depth]
      simp [top]
  · intro top
    rw [kept, saved, (nested top).2]

/-- `push_cli` can be called `n` times, one call within the other: the counter has room, and inside
another `push_cli` the interrupts are disabled. -/
def Pushable (cpu : Cpu) (n : Nat) : Prop :=
  cpu.nCli + n ≤ usizeMax ∧ (cpu.nCli = 0 ∨ cpu.interruptFlag = false)

instance (cpu : Cpu) (n : Nat) : Decidable (cpu.Pushable n) :=
  inferInstanceAs (Decidable (_ ∧ _))

theorem pushable_of_disabled (disabled : cpu.interruptFlag = false) (n : Nat) :
    cpu.Pushable n ↔ cpu.nCli + n ≤ usizeMax := and_iff_left (.inr disabled)

theorem Pushable.le {n k : Nat} (room : cpu.Pushable n) (fewer : k ≤ n) : cpu.Pushable k :=
  ⟨(Nat.add_le_add_left fewer _).trans room.1, room.2⟩

theorem Balanced.pushable (balanced : Balanced cpu cpu') (n : Nat) :
    cpu'.Pushable n ↔ cpu.Pushable n := by
  unfold Pushable
  rw [balanced.nCli, balanced.interruptFlag]

theorem pushCli_isSome_iff : cpu.pushCli.isSome ↔ cpu.Pushable 1 := by
  unfold pushCli Pushable saveInterrupts
  by_cases outer : cpu.nCli = 0 <;> simp [outer, Nat.add_one_le_iff]

/-- The calls after the first one. -/
theorem pushable_succ_iff (pushed : cpu.pushCli = some cpu') (n : Nat) :
    cpu.Pushable (n + 1) ↔ cpu'.Pushable n := by
  obtain ⟨up, disabled, -⟩ := pushCli_spec pushed
  have once : cpu.Pushable 1 := pushCli_isSome_iff.mp (by rw [pushed]; rfl)
  rw [pushable_of_disabled disabled, up, Pushable, and_iff_left once.2]
  omega

theorem push_pop {a b c : Cpu} (pushed : a.pushCli = some b) (popped : b.popCli = some c) :
    Balanced a c ∧ SameRun a c :=
  ⟨.of_push_pop pushed (.refl b) popped,
    (pushCli_spec pushed).2.2.1.trans (popCli_spec popped).2.2.1⟩

end Cpu

/-- `sync::spin::mutex::Mutex`: whether this processor holds it, and the data behind it. -/
structure Mutex (α : Type) where
  locked : Bool
  data : α
  deriving DecidableEq

namespace Mutex
variable {α : Type} {cpu cpu' : Cpu}

/-- `Mutex::new`. -/
def new (data : α) : Mutex α := ⟨false, data⟩

/-- `Mutex::lock`: interrupts are disabled first; a second lock by the same processor panics. -/
def lock (mutex : Mutex α) (cpu : Cpu) : Option (Mutex α × Cpu) := do
  let cpu ← cpu.pushCli
  if mutex.locked then none else some ({ mutex with locked := true }, cpu)

/-- `MutexGuard::drop`, with the data the guard's holder leaves. -/
def unlock (mutex : Mutex α) (data : α) (cpu : Cpu) : Option (Mutex α × Cpu) := do
  let cpu ← cpu.popCli
  some ({ mutex with locked := false, data := data }, cpu)

theorem lock_spec {mutex mutex' : Mutex α} (taken : mutex.lock cpu = some (mutex', cpu')) :
    mutex.locked = false ∧ mutex' = { mutex with locked := true } ∧ cpu.pushCli = some cpu' := by
  simp only [lock, bind_eq_some, Option.ite_none_left_eq_some] at taken
  obtain ⟨pushed, push, free, rfl, rfl⟩ := taken
  exact ⟨by simpa using free, rfl, push⟩

theorem unlock_spec {mutex mutex' : Mutex α} {data : α}
    (dropped : mutex.unlock data cpu = some (mutex', cpu')) :
    mutex' = { mutex with locked := false, data := data } ∧ cpu.popCli = some cpu' := by
  simp only [unlock, bind_eq_some, Option.some.injEq, Prod.mk.injEq] at dropped
  obtain ⟨popped, pop, same, rfl⟩ := dropped
  exact ⟨same.symm, pop⟩

end Mutex

end Emerald
