
import Emerald.Process.Proofs.StackLayout
import Emerald.Process.Proofs.UserPointers
import Emerald.Process.Spawn

/-!
# Arguments from the parent to the child

The strings that `sys_spawn` reads out of the memory of the parent are the ones a new process finds
on its stack. An empty string is taken for the end of the array, so that a process never gets it nor
any string after it.
-/

namespace Emerald.Process

open Fs (FileSystemError)
open MemoryManagement (alignDown kernelBase)

/-! ## What the parent passes -/

/-- A pointer of the process to the bytes of a string and a NUL. -/
structure StringAt (user : UserSpace) (ptr : Nat) (string : String) : Prop where
  notNull : ptr ≠ 0
  inside : ptr + (utf8Bytes string).length < 2 ^ 64
  mapped : ∀ i ≤ (utf8Bytes string).length, isUserAddressMapped user.vm user.tables (ptr + i) = true
  bytes : readBytes user.byte ptr (utf8Bytes string).length = utf8Bytes string
  ends : user.byte (ptr + (utf8Bytes string).length) = 0

/-- An array of such pointers, with a null pointer at its end. -/
def ArgvAt (user : UserSpace) : Nat → List String → Prop
  | ptr, [] => ptr + 8 ≤ 2 ^ 64 ∧ wordAt user.byte ptr = 0
  | ptr, string :: strings =>
    StringAt user (wordAt user.byte ptr) string ∧ ArgvAt user (ptr + 8) strings

/-- The process passes the strings in an array at the address. -/
structure PassesArgv (user : UserSpace) (arrayPtr : Nat) (strings : List String) : Prop where
  notNull : arrayPtr ≠ 0
  mapped : ∀ i < 8, isUserAddressMapped user.vm user.tables (arrayPtr + i) = true
  array : ArgvAt user arrayPtr strings
  nulFree : ∀ string ∈ strings, 0 ∉ utf8Bytes string

section
variable {user : UserSpace} {byte : Nat → UInt8} {ptr arrayPtr room : Nat} {string : String}
  {strings : List String}

theorem cStr_eq {bytes : List UInt8} (enough : bytes.length < room)
    (read : readBytes byte ptr bytes.length = bytes) (ends : byte (ptr + bytes.length) = 0)
    (nulFree : 0 ∉ bytes) : cStr byte room ptr = some bytes := by
  induction bytes generalizing room ptr with
  | nil =>
    cases room with
    | zero => cases enough
    | succ room => exact if_pos ends
  | cons b bytes ih =>
    cases room with
    | zero => cases enough
    | succ room =>
      rw [List.length_cons, readBytes_succ, List.cons.injEq] at read
      obtain ⟨first, rest⟩ := read
      have some : ¬ byte ptr = 0 := by
        intro zero
        rw [← first, zero] at nulFree
        exact nulFree List.mem_cons_self
      rw [cStr, if_neg some, ih (Nat.lt_of_succ_lt_succ enough) rest, first]
      · rfl
      · rw [List.length_cons] at ends
        rw [← ends, add_assoc, add_comm 1]
      · exact fun mem => nulFree (List.mem_cons_of_mem _ mem)

theorem fromUTF8?_utf8Bytes (string : String) :
    String.fromUTF8? ⟨(utf8Bytes string).toArray⟩ = some string := by
  have bytes : (⟨(utf8Bytes string).toArray⟩ : ByteArray) = string.toUTF8 := by
    rw [utf8Bytes]
  have valid : string.toUTF8.IsValidUTF8 := string.isValidUTF8
  rw [bytes, String.fromUTF8?, dif_pos valid]
  rfl

/-- Such a string is read back. -/
theorem StringAt.sysArgToStr (there : StringAt user ptr string) (nulFree : 0 ∉ utf8Bytes string) :
    sysArgToStr user ptr = some (.ok string) := by
  have checked : checkPtr user.vm user.tables ptr 1 = .ok () := by
    have inside := there.inside
    have mapped := there.mapped 0 (Nat.zero_le _)
    refine (checkPtr_eq_ok_iff Nat.one_pos rfl).mpr ⟨there.notNull, mapped, ?_⟩
    rw [Nat.mod_eq_of_lt (by omega)]
    exact mapped
  have inside := there.inside
  unfold Process.sysArgToStr
  rw [checked, cStr_eq (by omega) there.bytes there.ends nulFree]
  simp only [Option.map_some, fromUTF8?_utf8Bytes]

/-- The loop ends at the first empty string. -/
theorem ArgvAt.strArrayFrom (there : ArgvAt user arrayPtr strings)
    (nulFree : ∀ string ∈ strings, 0 ∉ utf8Bytes string) (enough : strings.length < room) :
    strArrayFrom user room arrayPtr =
      some (.ok (strings.takeWhile fun string => !string.isEmpty)) := by
  induction strings generalizing arrayPtr room with
  | nil =>
    cases room with
    | zero => cases enough
    | succ room =>
      rw [Process.strArrayFrom]
      simp only [there.2, if_true, List.takeWhile_nil]
  | cons string strings ih =>
    cases room with
    | zero => cases enough
    | succ room =>
      have rest := ih there.2 (fun other mem => nulFree other (List.mem_cons_of_mem _ mem))
        (Nat.lt_of_succ_lt_succ enough)
      have read := there.1.sysArgToStr (nulFree string List.mem_cons_self)
      rw [Process.strArrayFrom]
      simp only [there.1.notNull, read, List.takeWhile_cons]
      cases string.isEmpty with
      | true => rfl
      | false => simp [rest, Except.map]

theorem ArgvAt.inside (there : ArgvAt user arrayPtr strings) :
    arrayPtr + 8 * (strings.length + 1) ≤ 2 ^ 64 := by
  induction strings generalizing arrayPtr with
  | nil => exact there.1
  | cons string strings ih =>
    have rest := ih there.2
    rw [List.length_cons]
    omega

/-- `sys_arg_to_str_array` returns the strings before the first empty one. -/
theorem PassesArgv.sysArgToStrArray (passes : PassesArgv user arrayPtr strings) :
    sysArgToStrArray user arrayPtr =
      some (.ok (strings.takeWhile fun string => !string.isEmpty)) := by
  have inside := passes.array.inside
  have checked : ptrAsRef user.vm user.tables 8 arrayPtr = .ok arrayPtr := by
    have word : 0 < 8 := by decide
    refine checkedPtr_eq_ok_iff.mpr ⟨(checkPtr_eq_ok_iff word rfl).mpr
      ⟨passes.notNull, passes.mapped 0 (by decide), ?_⟩, rfl⟩
    rw [Nat.mod_eq_of_lt (by omega)]
    exact passes.mapped 7 (by decide)
  rw [Process.sysArgToStrArray, checked]
  exact passes.array.strArrayFrom passes.nulFree (by omega)

end

/-! ## What the child receives -/

/-- The process starts with the number of the strings in `rdi`, and in `rsi` the address of an array
of pointers to their bytes, each with a NUL after them. -/
structure Receives (start : StartState) (strings : List String) : Prop where
  count : start.rdi = strings.length
  strings : ∀ i, (below : i < strings.length) →
    readBytes start.memory (wordAt start.memory (start.rsi + 8 * i))
      ((utf8Bytes strings[i]).length + 1) = utf8Bytes strings[i] ++ [0]

/-- The strings leave four words on the stack of a new process, besides one for each of them. -/
def FitsOnStack (strings : List String) : Prop :=
  argsSize 0 (strings.map utf8Bytes) + 8 * (strings.length + 4) ≤ stackSize - 8

/-- A word of an array of words. -/
theorem wordAt_flatMap {memory : Nat → UInt8} {words : List Nat} {address i word : Nat}
    (read : readBytes memory address (words.flatMap (toLE 8)).length = words.flatMap (toLE 8))
    (found : words[i]? = some word) (small : word < 2 ^ 64) :
    wordAt memory (address + 8 * i) = word := by
  induction words generalizing address i with
  | nil => cases found
  | cons first words ih =>
    rw [List.flatMap_cons, List.length_append, readBytes_add, length_toLE] at read
    obtain ⟨here, rest⟩ := List.append_inj read (by simp)
    cases i with
    | zero =>
      cases found
      rw [wordAt, Nat.add_zero, here, fromLE_toLE]
      omega
    | succ i =>
      rw [← ih rest found, Nat.mul_succ, Nat.add_comm (8 * i), Nat.add_assoc]

/-- No segment of the program is mapped over the stack of the new process, which `prepare_stack` has
filled by then. -/
def OffStack (image : Image) : Prop :=
  ∀ w ∈ image.segments, ∀ a, w.Covers a → a < stackStart ∨ stackEnd ≤ a

section
variable {image : Image} {memory : Nat → UInt8} {stores : List Store}

section
variable (offStack : OffStack image) {strings : List String}
include offStack

/-- What is stored on the stack is still there when the program has been loaded. -/
theorem readBytes_start {w : Store} (separate : Separate stackStart (stackEnd - 8) stores)
    (mem : w ∈ stores) :
    readBytes (runStores memory
        (stores ++ image.segments ++ [⟨processMetaAddr, image.processMeta⟩])) w.address
      w.bytes.length = w.bytes := by
  have above : stackEnd ≤ processMetaAddr := by decide
  rw [List.append_assoc, runStores_append, readBytes_runStores_outside]
  · exact separate.readBytes_store mem memory
  · intro v later a covers inside
    have bounds := separate.inside w mem a inside
    cases List.mem_append.mp later with
    | inl segment =>
      have off := offStack v segment a covers
      omega
    | inr last =>
      rw [List.mem_singleton.mp last] at covers
      have low : processMetaAddr ≤ a := covers.1
      omega

/-- The stack of a new process holds its arguments. -/
theorem receives_of_argsPlaced {argvPtr rsp : Nat}
    (placed : ArgsPlaced stackStart (stackEnd - 8) (strings.map utf8Bytes) argvPtr stores) :
    Receives ⟨runStores memory
      (stores ++ image.segments ++ [⟨processMetaAddr, image.processMeta⟩]), image.entryPoint, rsp,
      strings.length, argvPtr⟩ strings := by
  refine ⟨rfl, ?_⟩
  intro i below
  obtain ⟨argvPtrs, nullPtr, copied, addresses, array⟩ := placed.placed
  have length : argvPtrs.length = strings.length := by
    rw [← copied.length_eq, List.length_map]
  have here : i < argvPtrs.length := by omega
  have small : argvPtrs[i] < 2 ^ 64 :=
    lt_trans (addresses _ (List.getElem_mem here)) (by decide)
  have pointer : (argvPtrs ++ [nullPtr])[i]? = some argvPtrs[i] := by
    rw [List.getElem?_append_left here, List.getElem?_eq_getElem here]
  have word := wordAt_flatMap (@readBytes_start image memory _ offStack _ placed.separate array)
    pointer small
  obtain ⟨bytes, nul⟩ : Copied stores (utf8Bytes strings[i]) argvPtrs[i] := by
    have both := copied.get (by rw [List.length_map]; exact below) here
    simpa using both
  have first := @readBytes_start image memory _ offStack _ placed.separate bytes
  have last := @readBytes_start image memory _ offStack _ placed.separate nul
  simp only [word, readBytes_add]
  rw [first]
  exact congrArg _ last

/-- `allocate_process` starts a process with its arguments if they fit on the stack. -/
theorem allocateProcess_receives (fits : FitsOnStack strings)
    (mapped : image.isEntryMapped = true) (user : image.entryPoint < kernelBase) :
    ∃ start, allocateProcess (some (.ok image)) memory strings = some (.ok start) ∧
      Receives start strings := by
  have enough : stackStart + 8 * ((strings.map utf8Bytes).length + 4) +
      argsSize ((stackEnd - 8) % 8) (strings.map utf8Bytes) ≤ alignDown (stackEnd - 8) 8 := by
    have slack : (stackEnd - 8) % 8 = 0 := by decide
    have whole : alignDown (stackEnd - 8) 8 = stackStart + (stackSize - 8) := by decide
    unfold FitsOnStack at fits
    rw [slack, whole, List.length_map]
    omega
  have spec := prepareStack_spec (strings.map utf8Bytes) (stackEnd - 8)
    (show 16 ≤ stackStart by decide)
  cases run : prepareStack (strings.map utf8Bytes) (stackEnd - 8) stackStart [] with
  | error _ stores => exact absurd (spec.of_error run) (by omega)
  | ok done stores =>
    obtain ⟨rsp, argc, argvPtr⟩ := done
    obtain ⟨count, placed⟩ := spec.of_ok run
    have argcIs : argc = strings.length := count.trans (List.length_map ..)
    subst argcIs
    refine ⟨_, ?_, @receives_of_argsPlaced image memory stores offStack strings argvPtr rsp placed⟩
    simp only [allocateProcess, run, mapped, user, decide_true, Bool.and_self, if_true]

end

theorem argc_of_allocateProcess {loadElf : Option (Except FileSystemError Image)}
    {argv : List String} {start : StartState}
    (allocated : allocateProcess loadElf memory argv = some (.ok start)) :
    start.rdi = argv.length := by
  have spec := prepareStack_spec (argv.map utf8Bytes) (stackEnd - 8)
    (show 16 ≤ stackStart by decide)
  unfold allocateProcess at allocated
  split at allocated
  · cases allocated
  · rename_i rsp argc argvPtr stores run
    obtain ⟨count, -⟩ := spec.of_ok run
    split at allocated
    · cases allocated
    · cases allocated
    · split at allocated
      · cases allocated
        exact count.trans (List.length_map ..)
      · cases allocated

end

/-- A process with all pages mapped and these bytes in its memory. -/
def spaceOf (stores : List Store) : UserSpace where
  vm := ⟨0, true⟩
  tables := fun _ _ => 1#64
  byte := runStores (fun _ => 0) stores

theorem mapped_spaceOf (stores : List Store) (a : Nat) :
    isUserAddressMapped (spaceOf stores).vm (spaceOf stores).tables a = true := by
  have present : MemoryManagement.isPresent 1#64 = true := by decide
  simp only [isUserAddressMapped, MemoryManagement.VirtualMemoryMapper.isAddressMapped, spaceOf,
    present, Bool.or_true, Bool.and_self]

/-- `ls -l`. -/
def listing : UserSpace := spaceOf [⟨0x2000, [0x3000, 0x3008].flatMap (toLE 8)⟩,
  ⟨0x3000, utf8Bytes "ls"⟩, ⟨0x3008, utf8Bytes "-l"⟩]

/-- `a`, an empty string and `b`. -/
def withEmptyString : UserSpace := spaceOf [⟨0x2000, [0x3000, 0x3001, 0x3002].flatMap (toLE 8)⟩,
  ⟨0x3000, utf8Bytes "a"⟩, ⟨0x3002, utf8Bytes "b"⟩]

/-- A program with a segment in the last page of the stack. -/
def overStack : Image := ⟨0x400000, true, [⟨stackEnd - 4096, List.replicate 4096 0⟩], []⟩

end Emerald.Process
