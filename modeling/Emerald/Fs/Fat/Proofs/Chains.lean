
import Emerald.Fs.Fat.Table

/-!
# Chains of clusters

The clusters of a file are linked in the table: each entry names the next cluster and the last one
ends the chain. A chain is determined by its first cluster, so no cluster is in it twice.
-/

namespace Emerald.Fs
variable {chain : List Nat}

namespace Fat

/-- Each cluster of the list is followed by the next one, and the last one ends the chain. -/
def Linked (fat : Fat) : List Nat → Prop
  | [] => True
  | [last] => fat.readFatEntry last = some .endOfChain
  | cluster :: next :: rest =>
    fat.readFatEntry cluster = some (.next next) ∧ Linked fat (next :: rest)

theorem readFatEntry_congr {fat fat' : Fat} (buffer : fat'.buffer = fat.buffer)
    (fatType : fat'.fatType = fat.fatType) (cluster : Nat) :
    fat'.readFatEntry cluster = fat.readFatEntry cluster := by
  unfold readFatEntry
  rw [buffer, fatType]

variable {fat : Fat} {cluster : Nat} {rest : List Nat}

theorem Linked.congr {fat' : Fat} (linked : fat.Linked chain)
    (same : ∀ c ∈ chain, fat'.readFatEntry c = fat.readFatEntry c) : fat'.Linked chain := by
  induction chain with
  | nil => exact trivial
  | cons cluster rest ih =>
    have here := same cluster (by simp)
    cases rest with
    | nil => exact here.trans linked
    | cons next rest =>
      exact ⟨here.trans linked.1, ih linked.2 fun c mem => same c (by simp [mem])⟩

theorem Linked.tail (linked : fat.Linked (cluster :: rest)) :
    fat.Linked rest := by
  cases rest with
  | nil => exact trivial
  | cons next rest => exact linked.2

theorem Linked.nextCluster_head
    (linked : fat.Linked (cluster :: rest)) : fat.nextCluster cluster = some (.ok rest.head?) := by
  unfold nextCluster
  cases rest with
  | nil =>
    have last : fat.readFatEntry cluster = some .endOfChain := linked
    rw [last]
    rfl
  | cons next rest =>
    rw [linked.1]
    rfl

theorem Linked.drop (linked : fat.Linked chain) (k : Nat) : fat.Linked (chain.drop k) := by
  induction k generalizing chain with
  | zero => exact linked
  | succ k ih =>
    cases chain with
    | nil => exact trivial
    | cons cluster rest => exact ih linked.tail

/-- The cluster after the one with index `k` is the one with index `k + 1`. -/
theorem Linked.nextCluster (linked : fat.Linked chain) {k : Nat}
    (found : chain[k]? = some cluster) : fat.nextCluster cluster = some (.ok chain[k + 1]?) := by
  obtain ⟨inside, here⟩ := List.getElem?_eq_some_iff.mp found
  have split : chain.drop k = cluster :: chain.drop (k + 1) := by
    rw [List.drop_eq_getElem_cons inside, here]
  have linked := linked.drop k
  rw [split] at linked
  rw [linked.nextCluster_head, List.head?_drop]

/-- The chain from a cluster is determined by the table. -/
theorem Linked.unique {first second : List Nat}
    (linked : fat.Linked (cluster :: first)) (linked' : fat.Linked (cluster :: second)) :
    first = second := by
  induction first generalizing cluster second with
  | nil =>
    have ends : fat.nextCluster cluster = some (.ok none) := linked.nextCluster_head
    rw [linked'.nextCluster_head] at ends
    cases second with
    | nil => rfl
    | cons next rest => cases ends
  | cons next rest ih =>
    have goes : fat.nextCluster cluster = some (.ok (some next)) := linked.nextCluster_head
    rw [linked'.nextCluster_head] at goes
    cases second with
    | nil => cases goes
    | cons next' rest' =>
      cases goes
      rw [ih linked.2 linked'.2]

/-- No cluster is in a chain twice. -/
theorem Linked.nodup (linked : fat.Linked chain) : chain.Nodup := by
  induction chain with
  | nil => exact List.nodup_nil
  | cons cluster rest ih =>
    refine List.nodup_cons.mpr ⟨fun mem => ?_, ih linked.tail⟩
    obtain ⟨before, after, split⟩ := List.append_of_mem mem
    have again : fat.Linked (cluster :: after) := by
      have dropped := linked.tail.drop before.length
      rwa [split, List.drop_left] at dropped
    have same := linked.unique again
    have longer := congrArg List.length split
    rw [same, List.length_append, List.length_cons] at longer
    omega

end Fat

end Emerald.Fs
