
import Emerald.Fs.Fat.Filesystem
import Emerald.Misc.Outcome

/-!
# Reading and writing sectors

What each access of the disk can do: it takes place, or the operation stops and nothing has
changed but the accesses left before the next fault.
-/

namespace Emerald.Fs

theorem stateAfter_meets {σ α : Type} {p : EStateM Failure σ α} {s t : σ} {post : α → σ → Prop}
    {fail : Failure → σ → Prop} (met : Meets p s post fail) (left : stateAfter (p s) = some t) :
    (∃ a, post a t) ∨ ∃ e, fail (.err e) t := by
  cases run : p s with
  | ok a u =>
    rw [run] at left
    cases left
    exact .inl ⟨a, met.of_ok run⟩
  | error e u =>
    rw [run] at left
    cases e with
    | err e =>
      cases left
      exact .inr ⟨e, met.of_error run⟩
    | panic why => cases left

variable (b : FatBootSector)

theorem FatBootSector.bytesPerSector_eq : b.bytesPerSector = 512 ∨
    b.bytesPerSector = 1024 ∨ b.bytesPerSector = 2048 ∨ b.bytesPerSector = 4096 := by
  simpa using b.bytesPerSector_mem

theorem FatBootSector.sector_fits : b.bytesPerSector * 1 ≤ MemoryManagement.kernelHeapSize := by
  have sizes := b.bytesPerSector_eq
  have heap : (4096 : Nat) ≤ MemoryManagement.kernelHeapSize := by decide
  omega

section Programs
variable {α : Type} {fs : FatFilesystem} {post : α → FatFilesystem → Prop}
  {fail : Failure → FatFilesystem → Prop}

theorem Meets.assertThat {condition : Bool} {post : Unit → FatFilesystem → Prop}
    (holds : condition = true → post () fs)
    (fails : condition = false → fail (.panic .assertion) fs) :
    Meets (assertThat condition) fs post fail := by
  cases condition with
  | true => exact holds rfl
  | false => exact fails rfl

theorem Meets.orPanic {value : Option α} (found : ∀ a, value = some a → post a fs)
    (missing : value = none → fail (.panic .assertion) fs) :
    Meets (orPanic value) fs post fail := by
  cases value with
  | some a => exact found a rfl
  | none => exact missing rfl

theorem Meets.orError {result : Except FatError α} (found : ∀ a, result = .ok a → post a fs)
    (refused : ∀ e, result = .error e → fail (.err (.fatError e)) fs) :
    Meets (orError result) fs post fail := by
  cases result with
  | ok a => exact found a rfl
  | error e => exact refused e rfl

end Programs

/-- The operation stopped on a disk access. -/
def Failure.IsDisk (e : Failure) : Prop :=
  ∃ sector error, e = .err (.diskReadError sector error)

namespace FatFilesystem

/-- The filesystem with another number of accesses before the next fault. -/
def withFaultIn (fs : FatFilesystem) (faultIn : FaultIn) : FatFilesystem :=
  { fs with disk := { fs.disk with faultIn := faultIn } }

section
variable (fs : FatFilesystem)

@[simp] theorem withFaultIn_self : fs.withFaultIn fs.disk.faultIn = fs := rfl

variable (startSector : Nat) (data : List UInt8)

@[simp] theorem storeSectors_bootSector :
    (fs.storeSectors startSector data).bootSector = fs.bootSector := rfl
theorem storeSectors_bytes : (fs.storeSectors startSector data).disk.bytes =
    writeBytes fs.disk.bytes (startSector * fs.bootSector.bytesPerSector) data := rfl

theorem storeSectors_nil : fs.storeSectors startSector [] = fs := by
  have same : ∀ start, writeBytes fs.disk.bytes start [] = fs.disk.bytes :=
    fun start => funext fun a => writeBytes_outside _ (by simp; omega)
  unfold storeSectors
  rw [same]

end

end FatFilesystem

theorem FatBootSector.bytesPerSector_pos : 0 < b.bytesPerSector := by
  have := b.bytesPerSector_eq
  omega

theorem FatBootSector.four_dvd_bytesPerSector : 4 ∣ b.bytesPerSector := by
  have := b.bytesPerSector_eq
  omega

theorem FatBootSector.sectorsPerCluster_pos : 0 < b.sectorsPerCluster := by
  have := b.sectorsPerCluster_mem
  simp only [List.mem_cons, List.not_mem_nil, or_false] at this
  omega

section
variable (fs : FatFilesystem) (startSector count : Nat)

/-- An access changes the number of accesses before the next fault and nothing else. -/
theorem accessDisk_meets :
    Meets (accessDisk startSector) fs (fun _ t => ∃ f, t = fs.withFaultIn f)
      (fun e t => e.IsDisk ∧ ∃ f, t = fs.withFaultIn f) := by
  unfold Meets accessDisk
  cases fs.disk.faultIn with
  | none => exact ⟨_, rfl⟩
  | some fault =>
    obtain ⟨left, error⟩ := fault
    cases left with
    | zero => exact ⟨⟨_, _, rfl⟩, _, rfl⟩
    | succ left => exact ⟨_, rfl⟩

theorem readSectorsNoCache_meets :
    Meets (readSectorsNoCache startSector count) fs
      (fun data t => (∃ f, t = fs.withFaultIn f) ∧
        data = readBytes fs.disk.bytes (startSector * fs.bootSector.bytesPerSector)
          (fs.bootSector.bytesPerSector * count) ∧
        fs.bootSector.bytesPerSector * count ≤ MemoryManagement.kernelHeapSize)
      (fun e t => (e = .panic .assertion ∨ e.IsDisk) ∧ ∃ f, t = fs.withFaultIn f) := by
  unfold readSectorsNoCache
  split
  · rename_i none
    subst none
    refine ⟨⟨fs.disk.faultIn, rfl⟩, by simp [readBytes], by simp⟩
  · apply meets_get_bind.mpr
    apply Meets.bind (fun _ t => t = fs ∧ fs.bootSector.bytesPerSector * count ≤
      MemoryManagement.kernelHeapSize)
    · apply Meets.assertThat
      · intro fits
        exact ⟨rfl, of_decide_eq_true fits⟩
      · intro _
        exact ⟨.inl rfl, fs.disk.faultIn, rfl⟩
    · rintro - _ ⟨rfl, fits⟩
      apply meets_bind.mpr
      refine (accessDisk_meets _ startSector).mono ?_ ?_
      · rintro - _ ⟨f, rfl⟩
        exact ⟨⟨f, rfl⟩, rfl, fits⟩
      · rintro e t ⟨disk, f, rfl⟩
        exact ⟨.inr disk, f, rfl⟩

/-- A write stores all of its data or stops and stores nothing. -/
theorem writeSectors_meets (data : List UInt8) :
    Meets (writeSectors startSector data) fs
      (fun _ t => ∃ f, t = (fs.storeSectors startSector data).withFaultIn f)
      (fun e t => (e = .panic .assertion ∨ e.IsDisk) ∧ ∃ f, t = fs.withFaultIn f) := by
  unfold writeSectors
  split
  · rename_i none
    subst none
    exact ⟨fs.disk.faultIn, by rw [FatFilesystem.storeSectors_nil]; rfl⟩
  · apply meets_get_bind.mpr
    apply Meets.bind (fun _ t => t = fs)
    · apply Meets.assertThat
      · intro _
        rfl
      · intro _
        exact ⟨.inl rfl, fs.disk.faultIn, rfl⟩
    · rintro - _ rfl
      apply meets_bind.mpr
      refine (accessDisk_meets _ startSector).mono ?_ ?_
      · rintro - _ ⟨f, rfl⟩
        exact ⟨f, rfl⟩
      · rintro e t ⟨disk, f, rfl⟩
        exact ⟨.inr disk, f, rfl⟩

end

/-! ## The table -/

theorem writeFatEntry_meets (fs : FatFilesystem) (entry : Nat) (fatEntry : FatEntry) :
    Meets (writeFatEntry entry fatEntry) fs
      (fun _ t =>
        ∃ fat, fs.fat.writeFatEntry entry fatEntry = some fat ∧ t = { fs with fat := fat })
      (fun e t => e = .panic .assertion ∧ t = fs) := by
  apply meets_get_bind.mpr
  apply Meets.bind (fun fat t => fs.fat.writeFatEntry entry fatEntry = some fat ∧ t = fs)
  · apply Meets.orPanic
    · intro fat write
      exact ⟨write, rfl⟩
    · intro _
      exact ⟨rfl, rfl⟩
  · rintro fat _ ⟨write, rfl⟩
    exact ⟨fat, write, rfl⟩

/-- A result of the table: the entry of the chain, an error or a panic. -/
theorem nextCluster_meets (fs : FatFilesystem) (cluster : Nat) :
    Meets (nextCluster cluster) fs
      (fun next t => t = fs ∧ fs.fat.nextCluster cluster = some (.ok next))
      (fun e t => t = fs ∧ (e = .panic .assertion ∨ ∃ error, e = .err (.fatError error))) := by
  apply meets_get_bind.mpr
  apply Meets.bind (fun result t => t = fs ∧ fs.fat.nextCluster cluster = some result)
  · apply Meets.orPanic
    · intro result found
      exact ⟨rfl, found⟩
    · intro _
      exact ⟨rfl, .inl rfl⟩
  · rintro result _ ⟨rfl, found⟩
    apply Meets.orError
    · rintro next rfl
      exact ⟨rfl, found⟩
    · rintro e rfl
      exact ⟨rfl, .inr ⟨e, rfl⟩⟩

/-! ## A volume to start from -/

/-- A blank volume with one table of one sector. -/
def blankBoot : FatBootSector where
  ty := .fat12
  bytesPerSector := 512
  sectorsPerCluster := 1
  reservedSectorsCount := 1
  numberOfFats := 1
  rootEntryCount := 16
  fatSizeInSectors := 1
  rootCluster := 0
  bytesPerSector_mem := by decide
  sectorsPerCluster_mem := by decide

/-- The blank volume after its mount. -/
def blankMounted : FatFilesystem :=
  match mount 0 blankBoot ⟨fun _ => 0, none⟩ with
  | .ok _ fs => fs
  | .error _ fs => fs

theorem mount_blankBoot : mount 0 blankBoot ⟨fun _ => 0, none⟩ = .ok () blankMounted := rfl

end Emerald.Fs
