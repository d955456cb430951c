
import Emerald.Fs.Fat.Proofs.Contents
import Emerald.Fs.Fat.Proofs.Entries

/-!
# Growing and shrinking chains

`set_file_size` rewrites the table one link at a time. It appends clusters that were free to the
chain of the file, or gives the last clusters of the chain back, and leaves the rest of the table.
-/

namespace Emerald.Fs

/-! ## Single writes -/

section
variable {fs : FatFilesystem}

theorem writeFatEntry_ok {entry : Nat} {value : FatEntry} {fat : Fat}
    (done : fs.fat.writeFatEntry entry value = some fat) :
    writeFatEntry entry value fs = .ok () { fs with fat := fat } := by
  unfold writeFatEntry
  rw [get_bind, bind_of_ok (orPanic_ok done)]
  rfl

end

namespace Fat
variable {fat : Fat}

/-- The numbers that a link can hold. -/
def IsCluster (fat : Fat) (c : Nat) : Prop := 2 ≤ c ∧ c ≤ fat.fatType.endOfChain - 2

/-- The free clusters with numbers below the limit. -/
def spareClusters (fat : Fat) (limit : Nat) : List Nat :=
  (List.range' 2 (limit - 2)).filter fun c => decide (fat.readFatEntry c = some .free)

theorem mem_spareClusters {limit c : Nat} :
    c ∈ fat.spareClusters limit ↔ (2 ≤ c ∧ c < limit) ∧ fat.readFatEntry c = some .free := by
  unfold spareClusters
  rw [List.mem_filter, List.mem_range'_1, decide_eq_true_iff]
  constructor
  · rintro ⟨range, free⟩
    exact ⟨by omega, free⟩
  · rintro ⟨range, free⟩
    exact ⟨by omega, free⟩

theorem spareClusters_nodup (limit : Nat) : (fat.spareClusters limit).Nodup :=
  List.Nodup.filter _ List.nodup_range'

end Fat

end Emerald.Fs
