
import Emerald.MemoryManagement.MemoryLayout
import Emerald.Misc.Outcome
import Emerald.Misc.Stores

/-!
# The stack of a new process

`Process::prepare_stack` of `kernel/src/process/mod.rs`: the arguments are copied to the end of the
stack, then an empty string, the array of their addresses, the address of the array and their
number. The state is what has been stored in the memory of the process, which is kept when an
assertion fails or a subtraction overflows. The change to the page tables of the process and back
does nothing to it.
-/

namespace Emerald.Process

open MemoryManagement (alignDown)

/-- The only error is a panic. -/
abbrev StackM := EStateM Unit (List Store)

def store (address : Nat) (bytes : List UInt8) : StackM Unit :=
  modify (· ++ [⟨address, bytes⟩])

/-- Subtraction of `u64`. -/
def subU64 (a b : Nat) : StackM Nat := if b ≤ a then pure (a - b) else throw ()

/-- `assert!(rsp >= stack_top)`. -/
def assertOnStack (stackTop rsp : Nat) : StackM Unit :=
  if stackTop ≤ rsp then pure () else throw ()

/-- One round of the loop: the next stack pointer and the address of the argument. -/
def pushArg (stackTop : Nat) (arg : List UInt8) (rsp : Nat) : StackM (Nat × Nat) := do
  let rsp ← subU64 rsp arg.length
  let argPtr ← subU64 rsp 1
  let rsp := argPtr - argPtr % 8
  assertOnStack stackTop rsp
  store argPtr arg
  store (argPtr + arg.length) [0]
  return (rsp, argPtr)

def pushArgs (stackTop : Nat) : List (List UInt8) → Nat → StackM (Nat × List Nat)
  | [], rsp => pure (rsp, [])
  | arg :: argv, rsp => do
    let (rsp, argPtr) ← pushArg stackTop arg rsp
    let (rsp, argvPtrs) ← pushArgs stackTop argv rsp
    return (rsp, argPtr :: argvPtrs)

/-- What follows the strings. The array is stored before the stack pointer below it is checked. -/
def pushArray (stackTop argc : Nat) (argvPtrs : List Nat) (rsp : Nat) :
    StackM (Nat × Nat × Nat) := do
  let argvArrayPtr ← subU64 rsp (argvPtrs.length * 8)
  store argvArrayPtr (argvPtrs.flatMap (toLE 8))
  let rsp ← subU64 argvArrayPtr 8
  assertOnStack stackTop rsp
  store rsp (toLE 8 argvArrayPtr)
  let rsp ← subU64 rsp 8
  assertOnStack stackTop rsp
  store rsp (toLE 8 argc)
  let rsp ← subU64 (alignDown rsp 16) 8
  return (rsp, argc, argvArrayPtr)

/-- `Process::prepare_stack`: the stack pointer, `argc` and the address of the array. -/
def prepareStack (argv : List (List UInt8)) (rsp stackTop : Nat) :
    StackM (Nat × Nat × Nat) := do
  let argc := argv.length
  let (rsp, argvPtrs) ← pushArgs stackTop argv rsp
  let rsp := rsp - rsp % 8
  assertOnStack stackTop rsp
  let nullPtr ← subU64 rsp 1
  store nullPtr [0]
  let rsp := nullPtr - nullPtr % 8
  assertOnStack stackTop rsp
  pushArray stackTop argc (argvPtrs ++ [nullPtr]) rsp

end Emerald.Process
