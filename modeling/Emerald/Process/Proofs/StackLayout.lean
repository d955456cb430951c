
import Emerald.Process.PrepareStack

/-!
# Where the arguments of a process go

`prepare_stack` works its way down from the end of the stack, so that its stores never meet. Two of
them, the empty string after the arguments and the array, are made before the address is checked,
and the stack pointer it returns is not checked at all.
-/

namespace Emerald.Process

open MemoryManagement (alignDown alignUp)

variable {rsp address argc : Nat} {arg : List UInt8} {argvPtrs : List Nat}

/-- The space of the strings, each up to a multiple of 8. The first one also uses the `slack` bytes
above the last multiple. -/
def argsSize : Nat → List (List UInt8) → Nat
  | _, [] => 0
  | slack, arg :: argv => alignUp (arg.length + 1 - slack) 8 + argsSize 0 argv

/-- No byte below the stack is stored. -/
def Above (stackTop : Nat) (stores : List Store) : Prop :=
  ∀ w ∈ stores, ∀ a, w.Covers a → stackTop ≤ a

/-- The stores are on the stack and do not meet, and the stack pointer is on it, as it is after a
call. -/
structure WellPlaced (stackTop rsp0 rsp : Nat) (stores : List Store) : Prop where
  separate : Separate stackTop rsp0 stores
  aligned : rsp % 16 = 8
  onStack : stackTop ≤ rsp

/-- The argument is at the address, with a NUL after it. -/
def Copied (stores : List Store) (arg : List UInt8) (address : Nat) : Prop :=
  ⟨address, arg⟩ ∈ stores ∧ ⟨address + arg.length, [0]⟩ ∈ stores

section
variable {α : Type} {stackTop hi : Nat} {stores stores' : List Store} {post : α → List Store → Prop}
  {fail : Unit → List Store → Prop}

theorem meets_subU64 {a b : Nat} {f : Nat → StackM α} :
    Meets (subU64 a b >>= f) stores post fail ↔
      if b ≤ a then Meets (f (a - b)) stores post fail else fail () stores := by
  unfold subU64
  split
  · rfl
  · rfl

theorem meets_assertOnStack {f : Unit → StackM α} :
    Meets (assertOnStack stackTop rsp >>= f) stores post fail ↔
      if stackTop ≤ rsp then Meets (f ()) stores post fail else fail () stores := by
  unfold assertOnStack
  split
  · rfl
  · rfl

theorem meets_store {bytes : List UInt8} {f : Unit → StackM α} :
    Meets (store address bytes >>= f) stores post fail ↔
      Meets (f ()) (stores ++ [⟨address, bytes⟩]) post fail := Iff.rfl

theorem above_append {w : Store} :
    Above stackTop (stores ++ [w]) ↔
      Above stackTop stores ∧ (w.bytes ≠ [] → stackTop ≤ w.address) := by
  constructor
  · intro above
    refine ⟨fun v mem => above v (List.mem_append_left _ mem), ?_⟩
    intro nonempty
    have pos := List.length_pos_iff.mpr nonempty
    exact above w (List.mem_append_right _ (List.mem_singleton_self w)) w.address ⟨le_rfl, by omega⟩
  · intro both v mem a covers
    cases List.mem_append.mp mem with
    | inl earlier => exact both.1 v earlier a covers
    | inr last =>
      rw [List.mem_singleton.mp last] at covers
      have nonempty : w.bytes ≠ [] := by
        intro empty
        have low := covers.1
        have high := covers.2
        rw [empty, List.length_nil] at high
        omega
      exact le_trans (both.2 nonempty) covers.1

theorem above_of_separate (separate : Separate stackTop hi stores) : Above stackTop stores :=
  fun w mem a covers => (separate.inside w mem a covers).1

theorem Copied.append (copied : Copied stores arg address) (later : List Store) :
    Copied (stores ++ later) arg address :=
  ⟨List.mem_append_left _ copied.1, List.mem_append_left _ copied.2⟩

/-! ## The strings -/

/-- What the loop leaves: the strings are below each other, and all of them on the stack. -/
structure ArgsPushed (stackTop hi rsp : Nat) (argv : List (List UInt8)) (rsp' : Nat)
    (argvPtrs : List Nat) (stores stores' : List Store) : Prop where
  lower : rsp' ≤ rsp
  used : alignDown rsp' 8 + argsSize (rsp % 8) argv = alignDown rsp 8
  separate : Separate rsp' hi stores'
  onStack : Separate stackTop hi stores'
  kept : ∃ later, stores' = stores ++ later
  copied : List.Forall₂ (Copied stores') argv argvPtrs
  addresses : ∀ p ∈ argvPtrs, p < rsp

/-- One round either panics before it stores anything or pushes the argument. -/
theorem meets_pushArg {f : Nat × Nat → StackM α} :
    Meets (pushArg stackTop arg rsp >>= f) stores post fail ↔
      if arg.length + 1 ≤ rsp ∧ stackTop ≤ alignDown (rsp - (arg.length + 1)) 8 then
        Meets (f (alignDown (rsp - (arg.length + 1)) 8, rsp - (arg.length + 1)))
          (stores ++ [⟨rsp - (arg.length + 1), arg⟩] ++
            [⟨rsp - (arg.length + 1) + arg.length, [0]⟩]) post fail
      else fail () stores := by
  simp only [pushArg, bind_assoc, meets_subU64, meets_assertOnStack, meets_store, pure_bind,
    alignDown]
  by_cases enough : arg.length + 1 ≤ rsp
  · have first : arg.length ≤ rsp := by omega
    have second : 1 ≤ rsp - arg.length := by omega
    simp only [first, second, enough, if_true, true_and, Nat.sub_sub]
  · simp only [enough, false_and]
    by_cases first : arg.length ≤ rsp
    · have second : ¬ 1 ≤ rsp - arg.length := by omega
      simp only [first, second, if_true, if_false]
    · simp only [first, if_false]

theorem alignDown_eight_mod (address : Nat) : alignDown address 8 % 8 = 0 := by
  unfold alignDown
  omega

/-- The first string below the stack pointer, and the rest below it. -/
theorem ArgsPushed.cons {rsp' : Nat} {argv : List (List UInt8)}
    (ends : address + (arg.length + 1) = rsp)
    (pushed : ArgsPushed stackTop hi (alignDown address 8) argv rsp' argvPtrs
      (stores ++ [⟨address, arg⟩] ++ [⟨address + arg.length, [0]⟩]) stores') :
    ArgsPushed stackTop hi rsp (arg :: argv) rsp' (address :: argvPtrs) stores stores' := by
  have below : alignDown address 8 ≤ address := Nat.sub_le _ _
  obtain ⟨later, rfl⟩ := pushed.kept
  have lower := pushed.lower
  refine ⟨by omega, ?_, pushed.separate, pushed.onStack, ?_, ?_, ?_⟩
  · have used := pushed.used
    rw [alignDown_eight_mod] at used
    simp only [argsSize, alignUp]
    unfold alignDown at used ⊢
    omega
  · exact ⟨[⟨address, arg⟩, ⟨address + arg.length, [0]⟩] ++ later, by simp⟩
  · refine List.Forall₂.cons ?_ pushed.copied
    constructor
    · simp
    · simp
  · intro p mem
    cases List.mem_cons.mp mem with
    | inl here => omega
    | inr later =>
      have := pushed.addresses p later
      omega

/-- A string and its NUL, below all other stores. -/
theorem separate_copied (ordered : rsp ≤ hi) (separate : Separate rsp hi stores)
    (ends : address + (arg.length + 1) = rsp) :
    Separate address hi (stores ++ [⟨address, arg⟩] ++ [⟨address + arg.length, [0]⟩]) := by
  have first : Separate address hi (stores ++ [⟨address, arg⟩]) :=
    separate.below ordered (show address + arg.length ≤ rsp by omega) (le_refl address)
  apply first.concat
  · intro a covers
    have low : address + arg.length ≤ a := covers.1
    have high : a < address + arg.length + 1 := covers.2
    exact ⟨by omega, by omega⟩
  · intro v earlier a covers again
    have low : address + arg.length ≤ a := again.1
    have high : a < address + arg.length + 1 := again.2
    cases List.mem_append.mp earlier with
    | inl before =>
      have bounds := separate.inside v before a covers
      omega
    | inr string =>
      rw [List.mem_singleton.mp string] at covers
      have end_ : a < address + arg.length := covers.2
      omega

/-- The loop, from a stack pointer below all stores so far. It panics exactly if the strings do not
fit. -/
theorem pushArgs_spec {argv : List (List UInt8)} {rsp : Nat} (ordered : rsp ≤ hi)
    (separate : Separate rsp hi stores) (above : Separate stackTop hi stores) :
    Meets (pushArgs stackTop argv rsp) stores
      (fun done stores' => ArgsPushed stackTop hi rsp argv done.1 done.2 stores stores')
      (fun _ stores' => alignDown rsp 8 < stackTop + argsSize (rsp % 8) argv ∧
        Separate stackTop hi stores') := by
  induction argv generalizing rsp stores with
  | nil =>
    refine ⟨le_rfl, rfl, separate, above, ⟨[], by simp⟩, List.Forall₂.nil, ?_⟩
    intro p mem
    cases mem
  | cons arg argv ih =>
    rw [pushArgs, meets_pushArg]
    generalize placed : rsp - (arg.length + 1) = address
    have below : alignDown address 8 ≤ address := Nat.sub_le _ _
    split
    · rename_i fits
      have ends : address + (arg.length + 1) = rsp := by omega
      have first := separate_copied ordered separate ends
      have rest := ih (le_trans below (by omega)) (first.weaken below)
        (first.weaken (le_trans fits.2 below))
      refine Meets.bind (fun done stores' => ArgsPushed stackTop hi (alignDown address 8) argv
        done.1 done.2 (stores ++ [⟨address, arg⟩] ++ [⟨address + arg.length, [0]⟩]) stores')
        (rest.mono (fun _ _ pushed => pushed) ?_) ?_
      · intro _ stores' stopped
        refine ⟨?_, stopped.2⟩
        have short := stopped.1
        rw [alignDown_eight_mod] at short
        simp only [argsSize, alignUp]
        unfold alignDown at short ⊢
        omega
      · intro done stores' pushed
        exact pushed.cons ends
    · rename_i short
      refine ⟨?_, above⟩
      simp only [argsSize, alignUp]
      unfold alignDown at short ⊢
      omega

/-- What follows the strings is below the multiple of 8 where they end. -/
theorem ArgsPushed.below {rsp' : Nat} {argv : List (List UInt8)}
    (pushed : ArgsPushed stackTop hi rsp argv rsp' argvPtrs stores stores') :
    argvPtrs.length = argv.length ∧ alignDown rsp' 8 % 8 = 0 ∧ alignDown rsp' 8 ≤ rsp ∧
      Separate (alignDown rsp' 8) hi stores' :=
  ⟨pushed.copied.length_eq.symm, alignDown_eight_mod _,
    le_trans (Nat.sub_le _ _) pushed.lower, pushed.separate.weaken (Nat.sub_le _ _)⟩

/-! ## What follows them -/

/-- The address below the strings. -/
def stringsBottom (argv : List (List UInt8)) (rsp0 : Nat) : Nat :=
  alignDown rsp0 8 - argsSize (rsp0 % 8) argv

/-- If the strings fit, then so does the empty string after them. If there is more space, then there
is enough for the array, which has one address more than there are strings. And if the two last
words fit as well, then there are 8 bytes left on the stack below the next multiple of 16. -/
structure StackSafe (argv : List (List UInt8)) (rsp0 stackTop : Nat) : Prop where
  emptyString : stackTop + argsSize (rsp0 % 8) argv ≤ alignDown rsp0 8 →
    stringsBottom argv rsp0 ≠ 0 → stackTop + 1 ≤ stringsBottom argv rsp0
  array : stackTop + 8 + argsSize (rsp0 % 8) argv ≤ alignDown rsp0 8 →
    8 * (argv.length + 2) ≤ stringsBottom argv rsp0 →
    stackTop + 8 * (argv.length + 2) ≤ stringsBottom argv rsp0
  pointer : stackTop + 8 * (argv.length + 4) + argsSize (rsp0 % 8) argv ≤ alignDown rsp0 8 →
    alignDown (stringsBottom argv rsp0 - 8 * (argv.length + 4)) 16 ≠ 0 →
    stackTop + 8 ≤ alignDown (stringsBottom argv rsp0 - 8 * (argv.length + 4)) 16

theorem length_words (words : List Nat) : (words.flatMap (toLE 8)).length = 8 * words.length := by
  induction words with
  | nil => rfl
  | cons word words ih =>
    rw [List.flatMap_cons, List.length_append, length_toLE, List.length_cons]
    omega

theorem separate_array (ordered : rsp ≤ hi) (separate : Separate rsp hi stores)
    (whole : address + argvPtrs.length * 8 = rsp) :
    Separate address hi (stores ++ [⟨address, argvPtrs.flatMap (toLE 8)⟩]) := by
  have ends : address + (argvPtrs.flatMap (toLE 8)).length ≤ rsp := by
    rw [length_words]
    omega
  exact separate.below ordered ends (le_refl address)

theorem separate_word {lo : Nat} (ordered : lo ≤ hi) (separate : Separate lo hi stores)
    (room : 8 ≤ lo) (value : Nat) :
    Separate (lo - 8) hi (stores ++ [⟨lo - 8, toLE 8 value⟩]) := by
  have ends : lo - 8 + (toLE 8 value).length ≤ lo := by
    rw [length_toLE]
    omega
  exact separate.below ordered ends le_rfl

/-- The rest of `prepare_stack` below the strings. -/
theorem pushArray_wellPlaced_iff (ordered : rsp ≤ hi) (even : rsp % 8 = 0)
    (separate : Separate rsp hi stores) (onStack : stackTop ≤ rsp) (nonempty : argvPtrs ≠ []) :
    Meets (pushArray stackTop argc argvPtrs rsp) stores
        (fun done stores' => WellPlaced stackTop hi done.1 stores')
        (fun _ stores' => Above stackTop stores') ↔
      (argvPtrs.length * 8 ≤ rsp → stackTop + argvPtrs.length * 8 ≤ rsp) ∧
      (stackTop + argvPtrs.length * 8 + 16 ≤ rsp →
        alignDown (rsp - (argvPtrs.length * 8 + 16)) 16 ≠ 0 →
        stackTop + 8 ≤ alignDown (rsp - (argvPtrs.length * 8 + 16)) 16) := by
  have above : Above stackTop stores := above_of_separate (separate.weaken onStack)
  have words : argvPtrs.flatMap (toLE 8) ≠ [] := by
    intro empty
    have length := length_words argvPtrs
    rw [empty, List.length_nil] at length
    exact nonempty (List.length_eq_zero_iff.mp (by omega))
  simp only [pushArray, meets_subU64, meets_store, meets_assertOnStack]
  by_cases room : argvPtrs.length * 8 ≤ rsp
  · simp only [room, if_true]
    generalize below : rsp - argvPtrs.length * 8 = address
    have whole : address + argvPtrs.length * 8 = rsp := by omega
    have array := separate_array ordered separate whole
    by_cases first : 8 ≤ address ∧ stackTop ≤ address - 8
    · simp only [first.1, first.2, if_true]
      have lastWord := separate_word (by omega) array first.1 address
      by_cases second : 8 ≤ address - 8 ∧ stackTop ≤ address - 8 - 8
      · simp only [second.1, second.2]
        have placed := separate_word (by omega) lastWord second.1 argc
        rw [show rsp - (argvPtrs.length * 8 + 16) = address - 8 - 8 by omega]
        by_cases final : 8 ≤ alignDown (address - 8 - 8) 16
        · rw [if_pos final]
          constructor
          · intro well
            have onStack := well.onStack
            exact ⟨by omega, fun _ _ => by omega⟩
          · intro both
            refine ⟨placed.weaken second.2, ?_, by omega⟩
            unfold alignDown at final ⊢
            omega
        · rw [if_neg final]
          refine iff_of_true (above_of_separate (placed.weaken second.2)) ⟨by omega, ?_⟩
          intro _ nonzero
          unfold alignDown at final nonzero
          omega
      · refine iff_of_true ?_ ⟨by omega, fun more => by omega⟩
        have kept := above_of_separate (lastWord.weaken first.2)
        split
        · rename_i left
          rw [if_neg fun onStack => second ⟨left, onStack⟩]
          exact kept
        · exact kept
    · refine Iff.trans (b := Above stackTop (stores ++ [⟨address, argvPtrs.flatMap (toLE 8)⟩]))
        ?_ ?_
      · split
        · rename_i left
          rw [if_neg fun onStack => first ⟨left, onStack⟩]
        · rfl
      · rw [above_append]
        simp only [above, words, ne_eq, not_false_eq_true, true_implies, true_and]
        constructor
        · intro low
          exact ⟨by omega, fun more => by omega⟩
        · intro both
          omega
  · rw [if_neg room]
    refine iff_of_true above ⟨fun absurd => (room absurd).elim, ?_⟩
    intro more
    omega

/-- What `prepare_stack` does below the strings, which end at the address. -/
theorem belowStrings_wellPlaced_iff (ordered : address ≤ hi) (even : address % 8 = 0)
    (separate : Separate address hi stores) (kept : Above stackTop stores) :
    Meets (do
        assertOnStack stackTop address
        let nullPtr ← subU64 address 1
        store nullPtr [0]
        let rsp := nullPtr - nullPtr % 8
        assertOnStack stackTop rsp
        pushArray stackTop argc (argvPtrs ++ [nullPtr]) rsp) stores
        (fun done stores' => WellPlaced stackTop hi done.1 stores')
        (fun _ stores' => Above stackTop stores') ↔
      (stackTop ≤ address → address ≠ 0 → stackTop + 1 ≤ address) ∧
      (stackTop + 8 ≤ address → 8 * (argvPtrs.length + 2) ≤ address →
        stackTop + 8 * (argvPtrs.length + 2) ≤ address) ∧
      (stackTop + 8 * (argvPtrs.length + 4) ≤ address →
        alignDown (address - 8 * (argvPtrs.length + 4)) 16 ≠ 0 →
        stackTop + 8 ≤ alignDown (address - 8 * (argvPtrs.length + 4)) 16) := by
  simp only [meets_assertOnStack, meets_subU64, meets_store]
  by_cases onStack : stackTop ≤ address ∧ 1 ≤ address
  · rw [if_pos onStack.1, if_pos onStack.2]
    rw [show address - 1 - (address - 1) % 8 = address - 8 by omega]
    by_cases more : stackTop ≤ address - 8
    · rw [if_pos more]
      have null : Separate (address - 8) hi (stores ++ [⟨address - 1, [0]⟩]) :=
        separate.below ordered (show address - 1 + 1 ≤ address by omega)
          (show address - 8 ≤ address - 1 by omega)
      rw [pushArray_wellPlaced_iff (by omega) (by omega) null more (by simp),
        List.length_append, List.length_singleton,
        show address - 8 - ((argvPtrs.length + 1) * 8 + 16) =
          address - 8 * (argvPtrs.length + 4) by omega]
      constructor
      · intro both
        refine ⟨fun _ _ => by omega, ?_, fun room => both.2 (by omega)⟩
        intro _ room
        omega
      · intro safe
        refine ⟨?_, fun room => safe.2.2 (by omega)⟩
        intro room
        omega
    · rw [if_neg more, above_append]
      constructor
      · intro both
        have first : stackTop ≤ address - 1 := both.2 (List.cons_ne_nil _ _)
        exact ⟨fun _ _ => by omega, fun _ => by omega, fun _ => by omega⟩
      · intro safe
        refine ⟨kept, fun _ => ?_⟩
        show stackTop ≤ address - 1
        omega
  · refine iff_of_true ?_ ⟨fun fits nonzero => by omega, fun fits => by omega, fun fits => by omega⟩
    split
    · rename_i above
      rw [if_neg fun pos => onStack ⟨above, pos⟩]
      exact kept
    · exact kept

/-- If it returns, the array is where it says, and all stores are on the stack. -/
theorem pushArray_spec (ordered : rsp ≤ hi) (separate : Separate rsp hi stores) :
    Meets (pushArray stackTop argc argvPtrs rsp) stores
      (fun done stores' => done.2 = (argc, rsp - argvPtrs.length * 8) ∧
        Separate stackTop hi stores' ∧ ∃ later, stores' = stores ++
          ⟨rsp - argvPtrs.length * 8, argvPtrs.flatMap (toLE 8)⟩ :: later)
      (fun _ _ => rsp < stackTop + argvPtrs.length * 8 + 16 ∨ rsp < argvPtrs.length * 8 + 32) := by
  simp only [pushArray, meets_subU64, meets_store, meets_assertOnStack, meets_pure]
  by_cases room : argvPtrs.length * 8 ≤ rsp
  · generalize below : rsp - argvPtrs.length * 8 = address
    have whole : address + argvPtrs.length * 8 = rsp := by omega
    have array := separate_array ordered separate whole
    by_cases words : 16 ≤ address ∧ stackTop ≤ address - 8 - 8
    · have lastWord := separate_word (by omega) array (by omega) address
      have placed := separate_word (by omega) lastWord (by omega) argc
      rw [if_pos room, if_pos (by omega), if_pos (by omega), if_pos (by omega), if_pos words.2]
      split
      · exact ⟨trivial, placed.weaken words.2,
          [⟨address - 8, toLE 8 address⟩, ⟨address - 8 - 8, toLE 8 argc⟩], by simp⟩
      · rename_i short
        right
        unfold alignDown at short
        omega
    · rw [if_pos room]
      split
      · split
        · split
          · split
            · omega
            · omega
          · omega
        · omega
      · omega
  · rw [if_neg room]
    omega

end

/-- What a process finds on its stack: the strings, and the array of their addresses. -/
structure ArgsPlaced (stackTop rsp0 : Nat) (argv : List (List UInt8)) (argvPtr : Nat)
    (stores : List Store) : Prop where
  separate : Separate stackTop rsp0 stores
  placed : ∃ argvPtrs nullPtr, List.Forall₂ (Copied stores) argv argvPtrs ∧
    (∀ p ∈ argvPtrs, p < rsp0) ∧
    ⟨argvPtr, (argvPtrs ++ [nullPtr]).flatMap (toLE 8)⟩ ∈ stores

/-- `prepare_stack` places the arguments, or else the stack is too small for them and four words. -/
theorem prepareStack_spec (argv : List (List UInt8)) (rsp0 : Nat) {stackTop : Nat}
    (pos : 16 ≤ stackTop) :
    Meets (prepareStack argv rsp0 stackTop) []
      (fun done stores => done.2.1 = argv.length ∧
        ArgsPlaced stackTop rsp0 argv done.2.2 stores)
      (fun _ _ => alignDown rsp0 8 <
        stackTop + 8 * (argv.length + 4) + argsSize (rsp0 % 8) argv) := by
  have spec := @pushArgs_spec stackTop rsp0 [] argv rsp0 le_rfl separate_nil separate_nil
  refine Meets.bind _ (spec.mono (fun _ _ pushed => pushed) ?_) ?_
  · intro _ _ stopped
    omega
  · intro done stores pushed
    have used := pushed.used
    obtain ⟨length, even, highest, separate⟩ := pushed.below
    simp only [meets_assertOnStack, meets_subU64, meets_store]
    rw [show done.1 - done.1 % 8 = alignDown done.1 8 from rfl]
    generalize alignDown done.1 8 = address at *
    split
    · split
      · rw [show address - 1 - (address - 1) % 8 = address - 8 by omega]
        split
        · have null : Separate (address - 8) rsp0 (stores ++ [⟨address - 1, [0]⟩]) :=
            separate.below highest (show address - 1 + 1 ≤ address by omega)
              (show address - 8 ≤ address - 1 by omega)
          refine (pushArray_spec (by omega) null).mono ?_ ?_
          · intro result stores' placed
            obtain ⟨values, onStack, later, rfl⟩ := placed
            refine ⟨by rw [values], onStack, done.2, address - 1, ?_, pushed.addresses, ?_⟩
            · refine pushed.copied.imp ?_
              intro arg p copied
              rw [List.append_assoc]
              exact copied.append _
            · rw [values]
              simp
          · intro _ _ short
            rw [List.length_append, List.length_singleton] at short
            omega
        · omega
      · omega
    · omega

/-- `prepare_stack` keeps its stores on the stack and apart, whether it returns or panics, and
returns a stack pointer as it is after a call, exactly if the stack is safe for the arguments. -/
theorem prepareStack_wellPlaced_iff (argv : List (List UInt8)) (rsp0 stackTop : Nat) :
    Meets (prepareStack argv rsp0 stackTop) []
        (fun done stores => WellPlaced stackTop rsp0 done.1 stores)
        (fun _ stores => Above stackTop stores) ↔
      StackSafe argv rsp0 stackTop := by
  have spec := @pushArgs_spec stackTop rsp0 [] argv rsp0 le_rfl separate_nil separate_nil
  cases run : pushArgs stackTop argv rsp0 [] with
  | error stop stores =>
    obtain ⟨short, separate⟩ := spec.of_error run
    unfold Meets
    rw [prepareStack, bind_of_error run]
    refine iff_of_true (above_of_separate separate) ⟨?_, ?_, ?_⟩
    · intro fits
      omega
    · intro fits
      omega
    · intro fits
      omega
  | ok done stores =>
    obtain ⟨rsp, argvPtrs⟩ := done
    have pushed : ArgsPushed stackTop rsp0 rsp0 argv rsp argvPtrs [] stores := spec.of_ok run
    have used := pushed.used
    have bottom : stringsBottom argv rsp0 = alignDown rsp 8 := by
      unfold stringsBottom
      omega
    obtain ⟨length, even, highest, separate⟩ := pushed.below
    rw [prepareStack, meets_after run]
    refine (belowStrings_wellPlaced_iff highest even separate
      (above_of_separate pushed.onStack)).trans ?_
    rw [length, ← bottom]
    constructor
    · intro safe
      exact ⟨fun fits => safe.1 (by omega), fun fits => safe.2.1 (by omega),
        fun fits => safe.2.2 (by omega)⟩
    · intro safe
      exact ⟨fun fits => safe.emptyString (by omega), fun fits => safe.array (by omega),
        fun fits => safe.pointer (by omega)⟩

/-- The bytes of `init`. -/
def initName : List UInt8 := [0x69, 0x6E, 0x69, 0x74]

/-- With 24 bytes of stack the array is stored below it before the panic. With 48 bytes the stack
pointer that is returned is below it. -/
theorem prepareStack_leaves_stack :
    (∃ stores w, prepareStack [initName] 0x1018 0x1000 [] = .error () stores ∧ w ∈ stores ∧
      w.Covers 0xFF8) ∧
      ∃ stores, prepareStack [initName] 0x1030 0x1000 [] = .ok (0xFF8, 1, 0x1010) stores := by
  constructor
  · refine ⟨[⟨0x1013, initName⟩, ⟨0x1017, [0]⟩, ⟨0x100F, [0]⟩,
      ⟨0xFF8, [0x1013, 0x100F].flatMap (toLE 8)⟩], ⟨0xFF8, [0x1013, 0x100F].flatMap (toLE 8)⟩,
      rfl, ?_, ?_⟩
    · simp
    · constructor
      · decide
      · decide
  · exact ⟨_, rfl⟩

end Emerald.Process
