
import Emerald.Process.Proofs.InterruptBalance

/-!
# The scheduler's bookkeeping over whole runs

Every pid is in one place: in the heap, among the running and waiting processes, or among the
exited ones. Each effect of a step on the three containers keeps that.
-/

namespace Emerald

open Machine (Reprioritised newProcess changeFirst picks prepare)

variable {l rest : List SchedulerProcess} {pid : Nat} {top : SchedulerProcess}
  {exited : List Process} {e : Process}
variable {p' : SchedulerProcess} {s : Scheduler}

namespace Scheduler
variable {p : SchedulerProcess} {next : Nat}

/-- The processes that have not exited. -/
def live (s : Scheduler) : List SchedulerProcess :=
  s.scheduledProcesses ++ s.runningWaitingProcs.values

/-- The pids of the processes that are scheduled, running or waiting. -/
def livePids (s : Scheduler) : List Nat := s.live.map (·.process.id)

/-- The pids of the processes in the three containers. -/
def pids (s : Scheduler) : List Nat :=
  s.live.map (·.process.id) ++ s.exitedProcesses.map (·.id)

/-- The bookkeeping, where `next` is the next pid to be given. -/
structure Wf (next : Nat) (s : Scheduler) : Prop where
  keyed : ∀ entry ∈ s.runningWaitingProcs.entries, entry.2.process.id = entry.1
  distinct : s.pids.Nodup
  below : ∀ pid ∈ s.pids, pid < next
  waiting : ∀ entry ∈ s.runningWaitingProcs.entries, entry.2.state ≠ .scheduled
  user : ∀ entry ∈ s.runningWaitingProcs.entries, ∀ pid, entry.2.state = .waitingForPid pid →
    entry.2.process.context.ring = 3#64
  scheduled : ∀ p ∈ s.scheduledProcesses, p.state = .scheduled
  exits : ∀ p ∈ s.live, ∀ pid, p.process.childrenExits.get? pid ≠ none →
    pid < next ∧ pid ∉ s.pids

/-! ## The changes of the containers -/

theorem values_eq (m : SortedMap SchedulerProcess) : m.values = m.entries.map Prod.snd := rfl

theorem mem_live :
    p ∈ s.live ↔ p ∈ s.scheduledProcesses ∨ ∃ entry ∈ s.runningWaitingProcs.entries,
      entry.2 = p := by
  simp [live, SortedMap.values]

/-- The bookkeeping only depends on where the pids are and on what is recorded for each. -/
theorem Wf.rearrange {s' : Scheduler} (wf : Wf next s) (perm : s'.pids.Perm s.pids)
    (exits : ∀ p' ∈ s'.live, ∃ p ∈ s.live, ∀ pid, p'.process.childrenExits.get? pid ≠ none →
      p.process.childrenExits.get? pid ≠ none)
    (entries : ∀ entry ∈ s'.runningWaitingProcs.entries, entry.2.process.id = entry.1 ∧
      entry.2.state ≠ .scheduled ∧ ∀ pid, entry.2.state = .waitingForPid pid →
        entry.2.process.context.ring = 3#64)
    (scheduled : ∀ p ∈ s'.scheduledProcesses, p.state = .scheduled) : Wf next s' := by
  refine ⟨fun entry mem => (entries entry mem).1, perm.nodup_iff.mpr wf.distinct, ?_,
    fun entry mem => (entries entry mem).2.1, fun entry mem => (entries entry mem).2.2,
    scheduled, ?_⟩
  · intro pid mem
    exact wf.below pid (perm.mem_iff.mp mem)
  · intro p' mem pid recorded
    obtain ⟨p, present, known⟩ := exits p' mem
    rw [perm.mem_iff]
    exact wf.exits p present pid (known pid recorded)

theorem Wf.entries (wf : Wf next s) :
    ∀ entry ∈ s.runningWaitingProcs.entries, entry.2.process.id = entry.1 ∧
      entry.2.state ≠ .scheduled ∧ ∀ pid, entry.2.state = .waitingForPid pid →
        entry.2.process.context.ring = 3#64 :=
  fun entry mem => ⟨wf.keyed entry mem, wf.waiting entry mem, wf.user entry mem⟩

theorem Wf.id_eq {key : Nat} (wf : Wf next s)
    (found : s.runningWaitingProcs.get? key = some p) : p.process.id = key :=
  wf.keyed _ (s.runningWaitingProcs.get?_eq_some_iff.mp found)

theorem Wf.mono {next' : Nat} (wf : Wf next s) (le : next ≤ next') : Wf next' s :=
  { wf with
    below := fun pid mem => lt_of_lt_of_le (wf.below pid mem) le
    exits := fun p mem pid recorded =>
      ⟨lt_of_lt_of_le (wf.exits p mem pid recorded).1 le,
        (wf.exits p mem pid recorded).2⟩ }

section
variable {next key : Nat} {s : Scheduler} {p : SchedulerProcess} {f : Process → Process}

theorem live_dropProc (found : s.runningWaitingProcs.get? key = some p) :
    s.live.Perm (p :: (s.dropProc key).live) := by
  have split := (s.runningWaitingProcs.perm_erase found).map Prod.snd
  refine ((List.Perm.refl s.scheduledProcesses).append split).trans ?_
  exact List.perm_middle

theorem live_putProc (s : Scheduler) (key : Nat) (p' : SchedulerProcess) :
    (s.putProc key p').live.Perm (p' :: (s.dropProc key).live) := by
  have split := (s.runningWaitingProcs.perm_insert key p').map Prod.snd
  refine ((List.Perm.refl s.scheduledProcesses).append split).trans ?_
  exact List.perm_middle

section
variable (found : s.runningWaitingProcs.get? key = some p)
include found

theorem pids_dropProc : s.pids.Perm (p.process.id :: (s.dropProc key).pids) :=
  ((live_dropProc found).map _).append_right _

theorem livePids_putProc
    (id : p'.process.id = p.process.id) : (s.putProc key p').livePids.Perm s.livePids := by
  refine ((live_putProc s key p').map (·.process.id)).trans ?_
  rw [List.map_cons, id]
  exact ((live_dropProc found).map (·.process.id)).symm

theorem mem_live_of_dropProc {q : SchedulerProcess} (mem : q ∈ (s.dropProc key).live) :
    q ∈ s.live :=
  (live_dropProc found).mem_iff.mpr (List.mem_cons_of_mem _ mem)

theorem mem_live_of_get? : p ∈ s.live :=
  (live_dropProc found).mem_iff.mpr (by simp)

end

section
variable (wf : Wf next s) (found : s.runningWaitingProcs.get? key = some p) {frame : ProcessContext}
include wf found

/-- One running or waiting process replaced by one with the same pid that records no more. -/
theorem Wf.putProc (id : p'.process.id = p.process.id)
    (exits : ∀ pid, p'.process.childrenExits.get? pid ≠ none →
      p.process.childrenExits.get? pid ≠ none) (state : p'.state ≠ .scheduled)
    (user : ∀ pid, p'.state = .waitingForPid pid → p'.process.context.ring = 3#64) :
    Wf next (s.putProc key p') := by
  refine wf.rearrange ((livePids_putProc found id).append_right _) ?_ ?_ wf.scheduled
  · intro q mem
    rcases List.mem_cons.mp ((live_putProc s key p').mem_iff.mp mem) with rfl | other
    · exact ⟨p, mem_live_of_get? found, exits⟩
    · exact ⟨q, mem_live_of_dropProc found other, fun _ recorded => recorded⟩
  · intro entry mem
    rcases s.runningWaitingProcs.mem_entries_insert.mp mem with rfl | ⟨-, older⟩
    · refine ⟨?_, state, user⟩
      rw [id]
      exact wf.id_eq found
    · exact wf.entries entry older

theorem Wf.exit {exitCode : BitVec 32} :
    Wf next ((s.dropProc key).pushExited ((p.saved frame).process.exit exitCode)) := by
  have perm : ((s.dropProc key).pushExited ((p.saved frame).process.exit exitCode)).pids.Perm
      s.pids := by
    refine List.Perm.trans ?_ (pids_dropProc found).symm
    show ((s.dropProc key).live.map _ ++ (s.exitedProcesses ++ [_]).map _).Perm _
    rw [List.map_append, ← List.append_assoc]
    exact List.perm_append_singleton _ _
  refine wf.rearrange perm ?_ ?_ wf.scheduled
  · intro q mem
    exact ⟨q, mem_live_of_dropProc found mem, fun _ recorded => recorded⟩
  · intro entry mem
    exact wf.entries entry (s.runningWaitingProcs.mem_entries_erase.mp mem).2

theorem Wf.yield :
    Wf next ((s.dropProc key).rescheduleProcess false (p.saved frame)) := by
  have perm : ((s.dropProc key).rescheduleProcess false (p.saved frame)).pids.Perm s.pids :=
    (pids_dropProc found).symm
  refine wf.rearrange perm ?_ ?_ ?_
  · intro q mem
    rcases List.mem_cons.mp mem with rfl | other
    · exact ⟨p, mem_live_of_get? found, fun _ recorded => recorded⟩
    · exact ⟨q, mem_live_of_dropProc found other, fun _ recorded => recorded⟩
  · intro entry mem
    exact wf.entries entry (s.runningWaitingProcs.mem_entries_erase.mp mem).2
  · intro q mem
    rcases List.mem_cons.mp mem with rfl | other
    · rfl
    · exact wf.scheduled q other

theorem Wf.takeExit (pid : Nat) :
    Wf next (s.putProc key { p with process := (p.process.getChildExit pid).2 }) := by
  have mem := s.runningWaitingProcs.get?_eq_some_iff.mp found
  refine wf.putProc found rfl ?_ (wf.waiting _ mem) (wf.user _ mem)
  intro k recorded
  simp only [Process.getChildExit, SortedMap.get?_erase] at recorded
  split at recorded
  · exact absurd rfl recorded
  · exact recorded

end

theorem Wf.push {parentId : Nat} {context : ProcessContext} (wf : Wf next s) :
    Wf (next + 1) (s.pushProcess false (newProcess next parentId context)) := by
  have fresh : next ∉ s.pids := fun mem => lt_irrefl _ (wf.below next mem)
  refine ⟨wf.keyed, List.nodup_cons.mpr ⟨fresh, wf.distinct⟩, ?_, wf.waiting, wf.user, ?_, ?_⟩
  · intro pid mem
    rcases List.mem_cons.mp mem with rfl | older
    · exact Nat.lt_succ_self _
    · exact Nat.lt_succ_of_lt (wf.below pid older)
  · intro q mem
    rcases List.mem_cons.mp mem with rfl | older
    · rfl
    · exact wf.scheduled q older
  · intro q mem pid recorded
    rcases List.mem_cons.mp mem with rfl | older
    · exact absurd (SortedMap.get?_empty pid) recorded
    · obtain ⟨below, absent⟩ := wf.exits q older pid recorded
      refine ⟨Nat.lt_succ_of_lt below, ?_⟩
      intro found
      rcases List.mem_cons.mp found with rfl | other
      · exact lt_irrefl _ below
      · exact absent other

/-- The heap rewritten in place. -/
theorem Wf.setScheduled (wf : Wf next s)
    (ids : l.map (·.process.id) = s.scheduledProcesses.map (·.process.id))
    (each : ∀ p' ∈ l, p'.state = .scheduled ∧ ∃ p ∈ s.scheduledProcesses,
      p'.process.childrenExits = p.process.childrenExits) :
    Wf next { s with scheduledProcesses := l } := by
  have perm : ({ s with scheduledProcesses := l } : Scheduler).pids.Perm s.pids := by
    simp only [pids, live, List.map_append, ids]
    exact List.Perm.refl _
  refine wf.rearrange perm ?_ wf.entries fun q mem => (each q mem).1
  intro q mem
  rcases mem_live.mp mem with inHeap | waits
  · obtain ⟨p, present, same⟩ := (each q inHeap).2
    exact ⟨p, mem_live.mpr (.inl present), fun pid recorded => same ▸ recorded⟩
  · exact ⟨q, mem_live.mpr (.inr waits), fun _ recorded => recorded⟩

/-! ## Another priority -/

/-- The process without its priority, if it is the one with this pid. -/
def blank (pid : Nat) (p : SchedulerProcess) : SchedulerProcess :=
  if p.process.id = pid then { p with process := { p.process with priority := .normal } } else p

@[simp] theorem blank_id (p : SchedulerProcess) : (blank pid p).process.id = p.process.id := by
  unfold blank
  split <;> rfl

@[simp] theorem blank_state (p : SchedulerProcess) : (blank pid p).state = p.state := by
  unfold blank
  split <;> rfl

@[simp] theorem blank_priorityCounter (p : SchedulerProcess) :
    (blank pid p).priorityCounter = p.priorityCounter := by
  unfold blank
  split <;> rfl

/-- The second process is the first one, with another priority if that has the pid. -/
def SameProcess (pid : Nat) (p p' : SchedulerProcess) : Prop :=
  ∃ level, p' = { p with process := { p.process with priority := level } } ∧
    (p.process.id ≠ pid → p' = p)

theorem sameProcess_of_blank (same : blank pid p' = blank pid p) : SameProcess pid p p' := by
  have id : p'.process.id = p.process.id := by
    simpa using congrArg (·.process.id) same
  unfold blank at same
  rw [id] at same
  split at same
  · rename_i here
    refine ⟨p'.process.priority, ?_, fun other => absurd here other⟩
    exact congrArg (fun q : SchedulerProcess =>
      { q with process := { q.process with priority := p'.process.priority } }) same
  · exact ⟨p.process.priority, same, fun _ => same⟩

/-- Nothing has changed but the priority of the process with this pid. -/
structure Rewritten (pid : Nat) (s s' : Scheduler) : Prop where
  heap : s'.scheduledProcesses.map (blank pid) = s.scheduledProcesses.map (blank pid)
  map : ∀ key, (s'.runningWaitingProcs.get? key).map (blank pid) =
    (s.runningWaitingProcs.get? key).map (blank pid)
  ids : s'.livePids.Perm s.livePids
  exited : s'.exitedProcesses = s.exitedProcesses
  level : s'.maxPriority = s.maxPriority

theorem blank_changeFirst {l' : List SchedulerProcess}
    (only : ∀ process, ∃ level, f process = { process with priority := level })
    (changed : changeFirst pid f l = some l') : l'.map (blank pid) = l.map (blank pid) := by
  induction l generalizing l' with
  | nil => cases changed
  | cons q rest ih =>
    unfold changeFirst at changed
    split at changed
    · rename_i here
      cases changed
      obtain ⟨level, same⟩ := only q.process
      have id : q.process.id = pid := by simpa using here
      simp [blank, same, id]
    · obtain ⟨rest', later, rfl⟩ := Option.map_eq_some_iff.mp changed
      rw [List.map_cons, ih later, List.map_cons]

/-- The entry with the pid changed. -/
theorem rewritten_putProc (level : PriorityLevel) (found : s.runningWaitingProcs.get? pid = some p)
    (id : p.process.id = pid) :
    Rewritten pid s (s.putProc pid { p with process := { p.process with priority := level } }) := by
  refine ⟨rfl, fun key => ?_, livePids_putProc found rfl, rfl, rfl⟩
  rw [Scheduler.putProc, SortedMap.get?_insert]
  split
  · rename_i here
    simp [here, found, blank, id]
  · rfl

/-- The first scheduled process with the pid changed. -/
theorem rewritten_changeFirst
    (only : ∀ process, ∃ level, f process = { process with priority := level })
    (changed : changeFirst pid f s.scheduledProcesses = some l) :
    Rewritten pid s { s with scheduledProcesses := l } := by
  have heap := blank_changeFirst only changed
  refine ⟨heap, fun _ => rfl, ?_, rfl, rfl⟩
  have ids := congrArg (List.map (·.process.id)) heap
  simp only [List.map_map, Function.comp_def, blank_id] at ids
  simp only [livePids, live, List.map_append, ids]
  exact List.Perm.refl _

theorem Wf.reprioritised {level : Option PriorityLevel} {s' : Scheduler} (wf : Wf next s)
    (changed : Reprioritised pid level s s') : Rewritten pid s s' := by
  obtain ⟨priority, changed⟩ := changed
  unfold Machine.changeProcess at changed
  split at changed
  · rename_i p found
    cases changed
    exact rewritten_putProc _ found (wf.id_eq found)
  · simp only [bind_eq_some] at changed
    obtain ⟨p, -, l, found, -, rfl⟩ := changed
    exact rewritten_changeFirst (fun _ => ⟨_, rfl⟩) found

section
variable {s' : Scheduler} {p' : SchedulerProcess} (rewritten : Rewritten pid s s')
include rewritten

theorem Rewritten.symm : Rewritten pid s' s :=
  ⟨rewritten.heap.symm, fun key => (rewritten.map key).symm, rewritten.ids.symm,
    rewritten.exited.symm, rewritten.level.symm⟩

theorem Rewritten.mem_scheduled (mem : p' ∈ s'.scheduledProcesses) :
    ∃ p ∈ s.scheduledProcesses, SameProcess pid p p' := by
  have shown := List.mem_map_of_mem (f := blank pid) mem
  rw [rewritten.heap] at shown
  obtain ⟨p, present, same⟩ := List.mem_map.mp shown
  exact ⟨p, present, sameProcess_of_blank same.symm⟩

theorem Rewritten.get? (found : s'.runningWaitingProcs.get? key = some p') :
    ∃ p, s.runningWaitingProcs.get? key = some p ∧ SameProcess pid p p' := by
  have same := rewritten.map key
  rw [found] at same
  obtain ⟨p, present, same⟩ := Option.map_eq_some_iff.mp same.symm
  exact ⟨p, present, sameProcess_of_blank same.symm⟩

theorem Rewritten.mem_live (mem : p' ∈ s'.live) :
    ∃ p ∈ s.live, SameProcess pid p p' := by
  rcases Scheduler.mem_live.mp mem with inHeap | ⟨entry, inMap, rfl⟩
  · obtain ⟨p, present, same⟩ := rewritten.mem_scheduled inHeap
    exact ⟨p, Scheduler.mem_live.mpr (.inl present), same⟩
  · obtain ⟨p, found, same⟩ :=
      rewritten.get? (s'.runningWaitingProcs.get?_eq_some_iff.mpr inMap)
    exact ⟨p, mem_live_of_get? found, same⟩

theorem Rewritten.wf (wf : Wf next s) : Wf next s' := by
  refine wf.rearrange ?_ ?_ ?_ ?_
  · rw [pids, rewritten.exited]
    exact rewritten.ids.append_right _
  · intro p' mem
    obtain ⟨p, present, level, rfl, -⟩ := rewritten.mem_live mem
    exact ⟨p, present, fun _ recorded => recorded⟩
  · rintro ⟨key, p'⟩ mem
    obtain ⟨p, found, level, rfl, -⟩ :=
      rewritten.get? (s'.runningWaitingProcs.get?_eq_some_iff.mpr mem)
    exact wf.entries (key, p) (s.runningWaitingProcs.get?_eq_some_iff.mp found)
  · intro p' mem
    obtain ⟨p, present, level, rfl, -⟩ := rewritten.mem_scheduled mem
    exact wf.scheduled p present

end

theorem Wf.reset (wf : Wf next s) : Wf next s.resetScheduledProcessesCounters := by
  apply wf.setScheduled
  · simp
  · intro p' mem
    obtain ⟨q, present, rfl⟩ := List.mem_map.mp mem
    exact ⟨wf.scheduled q present, q, present, rfl⟩

theorem removals_perm {α : Type} {l rest : List α} {x : α} (taken : (x, rest) ∈ removals l) :
    l.Perm (x :: rest) := by
  induction l generalizing rest with
  | nil => simp [removals] at taken
  | cons y l ih =>
    simp only [removals, List.mem_cons, Prod.mk.injEq, List.mem_map, Prod.exists] at taken
    rcases taken with ⟨rfl, rfl⟩ | ⟨x', rest', later, rfl, rfl⟩
    · exact List.Perm.refl _
    · exact ((ih later).cons y).trans (List.Perm.swap x' y rest')

theorem picks_perm {heap : List SchedulerProcess} (legal : (some top, rest) ∈ picks heap) :
    heap.Perm (top :: rest) := by
  cases heap with
  | nil => simp [picks] at legal
  | cons q heap =>
    simp only [picks, List.mem_map, Prod.exists, pops, List.mem_filter] at legal
    obtain ⟨x, rest', ⟨taken, -⟩, rfl, rfl⟩ := legal
    exact removals_perm taken

/-- The scheduler without the process at the top of the heap. -/
theorem live_pick (legal : (some top, rest) ∈ picks s.scheduledProcesses) :
    s.live.Perm (top :: ({ s with scheduledProcesses := rest } : Scheduler).live) :=
  (picks_perm legal).append_right _

section
variable (wf : Wf next s) (legal : (some top, rest) ∈ picks s.scheduledProcesses)
include wf legal

/-- The process at the top of the heap is not among the running and waiting ones. -/
theorem Wf.get?_pick : s.runningWaitingProcs.get? top.process.id = none := by
  have pidsPerm : s.pids.Perm
      (top.process.id :: ({ s with scheduledProcesses := rest } : Scheduler).pids) :=
    ((live_pick legal).map _).append_right _
  have elsewhere := (List.nodup_cons.mp (pidsPerm.nodup_iff.mp wf.distinct)).1
  rw [SortedMap.get?_eq_none_iff]
  intro mem
  obtain ⟨entry, present, same⟩ := List.mem_map.mp mem
  apply elsewhere
  refine List.mem_append_left _ (List.mem_map.mpr ⟨entry.2, ?_, ?_⟩)
  · exact mem_live.mpr (.inr ⟨entry, present, rfl⟩)
  · rw [wf.keyed entry present, same]

/-- It joins them in its place. -/
theorem Wf.live_run (p' : SchedulerProcess) :
    (({ s with scheduledProcesses := rest } : Scheduler).putProc top.process.id p').live.Perm
      (p' :: ({ s with scheduledProcesses := rest } : Scheduler).live) := by
  have alone : ({ s with scheduledProcesses := rest } : Scheduler).dropProc top.process.id =
      { s with scheduledProcesses := rest } := by
    unfold dropProc
    rw [s.runningWaitingProcs.erase_of_get?_none (wf.get?_pick legal)]
  have put := live_putProc { s with scheduledProcesses := rest } top.process.id p'
  rwa [alone] at put

/-- The process at the top of the heap goes to the processor. -/
theorem Wf.run {counter : Nat} :
    Wf next { ({ s with scheduledProcesses := rest } : Scheduler).putProc top.process.id
      { top with state := .running, priorityCounter := counter } with maxPriority := counter } := by
  have livePerm := live_pick legal
  have putLive := wf.live_run legal { top with state := .running, priorityCounter := counter }
  have pidsPerm := (livePerm.map (·.process.id)).append_right (s.exitedProcesses.map (·.id))
  have put := (putLive.map (·.process.id)).append_right (s.exitedProcesses.map (·.id))
  refine wf.rearrange (put.trans pidsPerm.symm) ?_ ?_ ?_
  · intro q mem
    rcases List.mem_cons.mp (putLive.mem_iff.mp mem) with rfl | other
    · exact ⟨top, livePerm.mem_iff.mpr (by simp), fun _ recorded => recorded⟩
    · exact ⟨q, livePerm.mem_iff.mpr (List.mem_cons_of_mem _ other), fun _ recorded => recorded⟩
  · intro entry mem
    rcases s.runningWaitingProcs.mem_entries_insert.mp mem with rfl | ⟨-, older⟩
    · exact ⟨rfl, by simp, by simp⟩
    · exact wf.entries entry older
  · intro q mem
    exact wf.scheduled q ((picks_perm legal).mem_iff.mpr (List.mem_cons_of_mem _ mem))

end

end

/-! ## The waking pass -/

section
variable {next : Nat} {timeNow : ClockTime} {s s' : Scheduler}
variable {entries : List (Nat × SchedulerProcess)} {p : SchedulerProcess}
variable {entry : Nat × SchedulerProcess}

theorem seen_sublist (entries : List (Nat × SchedulerProcess)) (exited : List Process)
    (key : Nat) : (seen entries exited key).Sublist exited :=
  List.filter_sublist

theorem unclaimed_sublist (entries : List (Nat × SchedulerProcess)) (exited : List Process) :
    (unclaimed entries exited).Sublist exited :=
  List.filter_sublist

theorem Wf.distinct_exited (wf : Wf next s) : (s.exitedProcesses.map Process.id).Nodup :=
  (List.nodup_append.mp wf.distinct).2.1

theorem mem_pids_of_exited (mem : e ∈ s.exitedProcesses) : e.id ∈ s.pids :=
  List.mem_append_right _ (List.mem_map_of_mem mem)

theorem mem_pids_of_live (mem : p ∈ s.live) : p.process.id ∈ s.pids :=
  List.mem_append_left _ (List.mem_map_of_mem mem)

/-- Nobody has recorded the exit of a process that is still among the exited ones. -/
theorem Wf.fresh (wf : Wf next s) (mem : p ∈ s.live) (exited : e ∈ s.exitedProcesses) :
    p.process.childrenExits.get? e.id = none := by
  by_contra recorded
  exact (wf.exits p mem e.id recorded).2 (mem_pids_of_exited exited)

theorem visitWaiting_isSome (timeNow : ClockTime) (key : Nat) (state : p.state ≠ .scheduled)
    (distinct : (exited.map Process.id).Nodup)
    (fresh : ∀ e ∈ exited, p.process.childrenExits.get? e.id = none)
    (user : ∀ pid, p.state = .waitingForPid pid → p.process.context.ring = 3#64) :
    (visitWaiting timeNow key p exited).isSome := by
  have looked := visitExited_isSome distinct (fun e mem _ => fresh e mem) user
  unfold visitWaiting
  cases known : p.state with
  | scheduled => exact absurd known state
  | waitingForTime t => rfl
  | running => exact looked
  | waitingForPid pid => exact looked

theorem extractEntries_isSome (distinct : (exited.map Process.id).Nodup)
    (each : ∀ entry ∈ entries, entry.2.state ≠ .scheduled ∧
      (∀ e ∈ exited, entry.2.process.childrenExits.get? e.id = none) ∧
      ∀ pid, entry.2.state = .waitingForPid pid → entry.2.process.context.ring = 3#64) :
    (SortedMap.extractEntries (visitWaiting timeNow) exited entries).isSome := by
  induction entries generalizing exited with
  | nil => rfl
  | cons entry rest ih =>
    obtain ⟨key, p⟩ := entry
    obtain ⟨state, fresh, user⟩ := each (key, p) (by simp)
    obtain ⟨⟨take, p', left⟩, visit⟩ := Option.isSome_iff_exists.mp
      (visitWaiting_isSome timeNow key state distinct fresh user)
    obtain ⟨-, -, rfl⟩ := visitWaiting_eq_some visit
    have fewer : (p.leaves exited).Sublist exited := by
      unfold SchedulerProcess.leaves
      split
      · exact List.filter_sublist
      · exact List.Sublist.refl _
    have later :
        (SortedMap.extractEntries (visitWaiting timeNow) (p.leaves exited) rest).isSome := by
      apply ih (distinct.sublist (fewer.map _))
      intro entry mem
      obtain ⟨state, fresh, user⟩ := each entry (by simp [mem])
      exact ⟨state, fun e present => fresh e (fewer.subset present), user⟩
    obtain ⟨⟨state', kept, taken⟩, done⟩ := Option.isSome_iff_exists.mp later
    simp only [SortedMap.extractEntries, visit, done]
    split <;> rfl

theorem recordExit_isSome
    (fresh : ∀ p ∈ l, e.parentId = p.process.id → p.process.childrenExits.get? e.id = none) :
    (recordExit e l).isSome := by
  induction l with
  | nil => rfl
  | cons p rest ih =>
    obtain ⟨rest', done⟩ := Option.isSome_iff_exists.mp (ih fun q mem => fresh q (by simp [mem]))
    simp only [recordExit, Process.recordExited_of_fresh (fresh p (by simp)), done, some_bind,
      Option.isSome_some]

theorem drainExited_isSome (distinct : (exited.map Process.id).Nodup)
    (fresh : ∀ p ∈ l, ∀ e ∈ exited, e.parentId = p.process.id →
      p.process.childrenExits.get? e.id = none) : (drainExited exited l).isSome := by
  induction exited generalizing l with
  | nil => rfl
  | cons e rest ih =>
    obtain ⟨absent, distinct⟩ := List.nodup_cons.mp distinct
    obtain ⟨l', first⟩ := Option.isSome_iff_exists.mp
      (recordExit_isSome fun p mem => fresh p mem e (by simp))
    have same := recordExit_eq_some first
    have later : (drainExited rest l').isSome := by
      apply ih distinct
      intro q mem e' present parent
      rw [same] at mem
      obtain ⟨p, inHeap, rfl⟩ := List.mem_map.mp mem
      simp only [recorded, Process.withExits_cons, Process.withExits_nil, Process.withExit_id,
        Process.get?_withExit] at parent ⊢
      rw [if_neg]
      · exact fresh p inHeap e' (by simp [present]) parent
      · rintro ⟨-, equal⟩
        exact absent (equal ▸ List.mem_map_of_mem present)
    simpa only [drainExited, first, some_bind] using later

/-- A process the pass takes out of the map was there and is woken. -/
theorem mem_awakened : p' ∈ s.awakened timeNow ↔ ∃ entry ∈ s.runningWaitingProcs.entries,
      WakesUp timeNow s.runningWaitingProcs.entries s.exitedProcesses entry ∧
      p' = rescheduled s.maxPriority (afterVisit s.runningWaitingProcs.entries
        s.exitedProcesses entry).2 := by
  simp only [awakened, List.mem_map, List.mem_filter, wokenIn_iff, exists_exists_and_eq_and]
  constructor
  · rintro ⟨entry, ⟨mem, wakes⟩, rfl⟩
    exact ⟨entry, mem, wakes, rfl⟩
  · rintro ⟨entry, mem, wakes, rfl⟩
    exact ⟨entry, ⟨mem, wakes⟩, rfl⟩

/-- A process whose children the pass over the heap still has to record did not look through the
exited ones itself. -/
theorem not_absorbs_of_unclaimed (mem : entry ∈ entries)
    (left : e ∈ unclaimed entries exited) (parent : e.parentId = entry.2.process.id) :
    entry.2.absorbs = false := by
  simp only [unclaimed, List.mem_filter, Bool.not_eq_true', List.any_eq_false] at left
  have := left.2 entry mem
  simpa [claims, parent] using this

/-- The waking pass does not panic. -/
theorem Wf.tryWake_isSome (wf : Wf next s) (timeNow : ClockTime) :
    (s.tryWakeWaitingProcesses false timeNow).isSome := by
  have pass : (SortedMap.extractEntries (visitWaiting timeNow) s.exitedProcesses
      s.runningWaitingProcs.entries).isSome := by
    apply extractEntries_isSome wf.distinct_exited
    intro entry mem
    have here : entry.2 ∈ s.live := mem_live.mpr (.inr ⟨entry, mem, rfl⟩)
    exact ⟨wf.waiting entry mem, fun e exited => wf.fresh here exited, wf.user entry mem⟩
  obtain ⟨⟨left, kept, taken⟩, done⟩ :=
    Option.isSome_iff_exists.mp (SortedMap.extractIf_isSome pass)
  have start : s.exitedProcesses = unclaimed [] s.exitedProcesses := by simp [unclaimed]
  have closed := SortedMap.extractIf_eq_some.mp done
  rw [start] at closed
  obtain ⟨rfl, -, takenEq⟩ := extractEntries_from [] s.runningWaitingProcs.sorted closed
  have heap : ∀ left, rescheduleAll false taken
      { s with runningWaitingProcs := kept, exitedProcesses := left } =
        { s with
          runningWaitingProcs := kept
          exitedProcesses := left
          scheduledProcesses := (s.awakened timeNow).reverse ++ s.scheduledProcesses } := by
    intro left
    rw [rescheduleAll_false, takenEq]
    rfl
  have drained : (drainExited (unclaimed s.runningWaitingProcs.entries s.exitedProcesses)
      ((s.awakened timeNow).reverse ++ s.scheduledProcesses)).isSome := by
    apply drainExited_isSome
    · exact wf.distinct_exited.sublist ((unclaimed_sublist _ _).map _)
    · intro p mem e present parent
      have exited := (unclaimed_sublist _ _).subset present
      rcases List.mem_append.mp mem with woken | inHeap
      · obtain ⟨entry, found, -, rfl⟩ := mem_awakened.mp (List.mem_reverse.mp woken)
        have parent' : e.parentId = entry.2.process.id := by
          simpa [rescheduled, afterVisit] using parent
        have idle := not_absorbs_of_unclaimed found present parent'
        simp only [rescheduled, afterVisit, SchedulerProcess.visited, idle]
        exact wf.fresh (mem_live.mpr (.inr ⟨entry, found, rfl⟩)) exited
      · exact wf.fresh (mem_live.mpr (.inl inHeap)) exited
  obtain ⟨l, drain⟩ := Option.isSome_iff_exists.mp drained
  simp only [tryWakeWaitingProcesses, done, some_bind, List.nil_append, heap, drain,
    Option.isSome_some]

theorem awakened_pids : (s.awakened timeNow).map (·.process.id) =
    (s.runningWaitingProcs.entries.filter (wokenIn timeNow s.runningWaitingProcs.entries
      s.exitedProcesses)).map (·.2.process.id) := by
  simp [awakened, rescheduled, afterVisit]

/-- The waking pass moves processes between the heap and the map; the exited ones are gone. -/
theorem wake_pids (done : s.tryWakeWaitingProcesses false timeNow = some s') :
    (s'.pids ++ s.exitedProcesses.map (·.id)).Perm s.pids := by
  obtain ⟨exited, -, entries, scheduled⟩ := tryWakeWaitingProcesses_eq_some done
  have split := (List.filter_append_perm (wokenIn timeNow s.runningWaitingProcs.entries
    s.exitedProcesses) s.runningWaitingProcs.entries).map (·.2.process.id)
  have heap : s'.scheduledProcesses.map (·.process.id) =
      ((s.awakened timeNow).map (·.process.id)).reverse ++
        s.scheduledProcesses.map (·.process.id) := by
    rw [scheduled]
    simp [Function.comp_def, recorded]
  have map : s'.runningWaitingProcs.entries.map (·.2.process.id) =
      (s.runningWaitingProcs.entries.filter (fun entry => !wokenIn timeNow
        s.runningWaitingProcs.entries s.exitedProcesses entry)).map (·.2.process.id) := by
    rw [entries]
    simp [afterVisit]
  simp only [pids, live, List.map_append, exited, List.map_nil, List.append_nil, heap, map,
    awakened_pids, values_eq, List.map_map, Function.comp_def]
  refine List.Perm.append_right _ ?_
  rw [List.map_append] at split
  refine (((List.reverse_perm _).append_right _).append_right _).trans ?_
  refine (List.perm_append_comm.append_right _).trans ?_
  rw [List.append_assoc]
  exact split.append_left _

theorem live_of_entry (mem : entry ∈ s.runningWaitingProcs.entries) : entry.2 ∈ s.live :=
  mem_live.mpr (.inr ⟨entry, mem, rfl⟩)

/-- What the visit of the exited processes leaves of the recorded exits. -/
theorem get?_visited {key : Nat} (other : ∀ e ∈ exited, e.id ≠ key) :
    (p.visited exited).process.childrenExits.get? key = p.process.childrenExits.get? key := by
  unfold SchedulerProcess.visited
  split
  · rw [SchedulerProcess.meets_childrenExits]
    exact Process.get?_withExits_of_forall fun e mem _ => other e mem
  · rfl

/-- A process after the pass is one from before it, with nothing new about a pid that has not
exited. -/
theorem wake_live (done : s.tryWakeWaitingProcesses false timeNow = some s') (mem : p' ∈ s'.live) :
    ∃ p ∈ s.live, p'.process.id = p.process.id ∧
      ∀ key, (∀ e ∈ s.exitedProcesses, e.id ≠ key) →
        p'.process.childrenExits.get? key = p.process.childrenExits.get? key := by
  obtain ⟨-, -, entries, scheduled⟩ := tryWakeWaitingProcesses_eq_some done
  have recordedKey : ∀ (q : SchedulerProcess) (key : Nat), (∀ e ∈ s.exitedProcesses, e.id ≠ key) →
      (recorded (unclaimed s.runningWaitingProcs.entries s.exitedProcesses) q
        ).process.childrenExits.get? key = q.process.childrenExits.get? key := by
    intro q key other
    refine Process.get?_withExits_of_forall fun e left _ => other e ?_
    exact (unclaimed_sublist _ _).subset left
  have visitedKey : ∀ (entry : Nat × SchedulerProcess) (key : Nat),
      (∀ e ∈ s.exitedProcesses, e.id ≠ key) →
      (afterVisit s.runningWaitingProcs.entries s.exitedProcesses entry
        ).2.process.childrenExits.get? key = entry.2.process.childrenExits.get? key := by
    intro entry key other
    exact get?_visited fun e left => other e ((seen_sublist _ _ _).subset left)
  cases mem_live.mp mem with
  | inl inHeap =>
    rw [scheduled] at inHeap
    obtain ⟨q, present, rfl⟩ := List.mem_map.mp inHeap
    cases List.mem_append.mp present with
    | inl awake =>
      obtain ⟨entry, inMap, -, rfl⟩ := mem_awakened.mp (List.mem_reverse.mp awake)
      refine ⟨entry.2, live_of_entry inMap, ?_, fun key other => ?_⟩
      · simp [recorded, rescheduled, afterVisit]
      · rw [recordedKey _ key other]
        exact visitedKey entry key other
    | inr old =>
      refine ⟨q, mem_live.mpr (.inl old), ?_, fun key other => recordedKey q key other⟩
      simp [recorded]
  | inr inMap =>
    obtain ⟨entry, present, rfl⟩ := inMap
    rw [entries] at present
    obtain ⟨old, kept, rfl⟩ := List.mem_map.mp present
    refine ⟨old.2, live_of_entry (List.mem_filter.mp kept).1, ?_, fun key other => ?_⟩
    · simp [afterVisit]
    · exact visitedKey old key other

theorem Wf.wake (wf : Wf next s) (done : s.tryWakeWaitingProcesses false timeNow = some s') :
    Wf next s' := by
  have perm := wake_pids done
  obtain ⟨distinct, -, apart⟩ := List.nodup_append.mp (perm.nodup_iff.mpr wf.distinct)
  have inside : ∀ pid ∈ s'.pids, pid ∈ s.pids := fun pid mem =>
    perm.mem_iff.mp (List.mem_append_left _ mem)
  obtain ⟨-, -, entries, scheduled⟩ := tryWakeWaitingProcesses_eq_some done
  have fromMap : ∀ entry' ∈ s'.runningWaitingProcs.entries,
      ∃ entry ∈ s.runningWaitingProcs.entries,
        entry' = afterVisit s.runningWaitingProcs.entries s.exitedProcesses entry := by
    intro entry' mem
    rw [entries] at mem
    obtain ⟨entry, present, rfl⟩ := List.mem_map.mp mem
    exact ⟨entry, (List.mem_filter.mp present).1, rfl⟩
  refine ⟨?_, distinct, fun pid mem => wf.below pid (inside pid mem), ?_, ?_, ?_, ?_⟩
  · intro entry' mem
    obtain ⟨entry, present, rfl⟩ := fromMap entry' mem
    simpa [afterVisit] using wf.keyed entry present
  · intro entry' mem
    obtain ⟨entry, present, rfl⟩ := fromMap entry' mem
    simpa [afterVisit] using wf.waiting entry present
  · intro entry' mem
    obtain ⟨entry, present, rfl⟩ := fromMap entry' mem
    simpa [afterVisit] using wf.user entry present
  · intro p' mem
    rw [scheduled] at mem
    obtain ⟨p, present, rfl⟩ := List.mem_map.mp mem
    rcases List.mem_append.mp present with woken | inHeap
    · obtain ⟨entry, -, -, rfl⟩ := mem_awakened.mp (List.mem_reverse.mp woken)
      rfl
    · exact wf.scheduled p inHeap
  · intro p' mem pid recorded
    by_cases exited : ∃ e ∈ s.exitedProcesses, e.id = pid
    · -- what is recorded anew is the pid of an exited process, which the pass removes
      obtain ⟨e, present, rfl⟩ := exited
      refine ⟨wf.below _ (mem_pids_of_exited present), fun found => ?_⟩
      exact apart _ found _ (List.mem_map_of_mem present) rfl
    · obtain ⟨p, before, -, same⟩ := wake_live done mem
      rw [same pid fun e present equal => exited ⟨e, present, equal⟩] at recorded
      obtain ⟨below, absent⟩ := wf.exits p before pid recorded
      exact ⟨below, fun found => absent (inside pid found)⟩

theorem Wf.prepare (wf : Wf next s) (prepared : Machine.prepare false timeNow s = some s') :
    Wf next s' := by
  obtain ⟨woken, done, ⟨-, rfl⟩ | ⟨-, rfl⟩⟩ := Machine.prepare_cases prepared
  · exact wf.wake done
  · exact (wf.wake done).reset

end

end Scheduler

/-! ## Runs before a shutdown -/

namespace Machine

open Scheduler

theorem le_nextAfter (m : Machine) (a : Action) : m.nextProcessId ≤ m.nextAfter a := by
  cases a <;> simp [nextAfter]

theorem Effect.wf {m m' : Machine} {a : Action} (effect : Effect m a m')
    (wf : Wf m.nextProcessId m.scheduler.data) : Wf (m.nextAfter a) m'.scheduler.data := by
  cases effect with
  | same quiet data run =>
    rw [data]
    exact wf.mono (m.le_nextAfter a)
  | push parentId context data run =>
    rw [data]
    exact wf.push
  | exit exitCode frame p current data off =>
    rw [data]
    exact wf.exit current.1
  | suspend p frame state quiet current waits user data off =>
    rw [data]
    refine Wf.mono ?_ (m.le_nextAfter a)
    exact wf.putProc current.1 rfl (fun _ recorded => recorded) waits.1 fun _ _ => user
  | yield frame p current data off =>
    rw [data]
    exact wf.yield current.1
  | takeExit pid p current data run =>
    rw [data]
    exact wf.takeExit current.1 pid
  | priority pid level changed run => exact (wf.reprioritised changed).wf wf
  | schedule frame pass =>
    cases pass with
    | halt rest free prepared idle run => exact wf.prepare prepared
    | run s top rest free prepared legal data on pid =>
      rw [data]
      exact (wf.prepare prepared).run legal

/-- Every step but the start of a shutdown keeps the bookkeeping. -/
theorem step_wf {m m' : Machine} {a : Action} (running : m.shutdown = false)
    (wf : Wf m.nextProcessId m.scheduler.data) (going : a ≠ .stop)
    (stepped : m.step a = some m') :
    m'.shutdown = false ∧ Wf m'.nextProcessId m'.scheduler.data := by
  obtain ⟨effect, running', next, -⟩ := step_effect running going stepped
  rw [next]
  exact ⟨running', effect.wf wf⟩

/-- The states of the system before a shutdown. -/
def Running : Machine → Prop :=
  Reachable (fun m a m' => m.step a = some m') (fun _ a => a ≠ .stop) (fun m => m = boot)

theorem wf_of_running {m : Machine} (reached : Running m) :
    m.shutdown = false ∧ Wf m.nextProcessId m.scheduler.data := by
  refine Reachable.invariant (P := fun m => m.shutdown = false ∧
    Wf m.nextProcessId m.scheduler.data) ?_ ?_ m reached
  · rintro m rfl
    refine ⟨rfl, ?_, List.nodup_nil, ?_, ?_, ?_, ?_, ?_⟩
    all_goals simp [boot, Mutex.new, Scheduler.new, SortedMap.empty, pids, live, SortedMap.values]
  · rintro m a m' ⟨running, wf⟩ going stepped
    exact step_wf running wf going stepped

end Machine

end Emerald
