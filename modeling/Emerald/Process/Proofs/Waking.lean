
import Emerald.Process.Scheduler

/-!
# What `try_wake_waiting_processes` computes

The nested loops of the waking pass in closed form: what each visited process becomes, which of
the exited processes are left for the ones visited after it, and who is woken.
-/

namespace Emerald
variable {process e : Process} {exited : List Process} {p p' : SchedulerProcess}
  {timeNow : ClockTime}

namespace Process

/-- The exit recorded, if the process is the parent of the one that exited. -/
def withExit (process exited : Process) : Process :=
  if exited.parentId = process.id then
    { process with childrenExits := process.childrenExits.insert exited.id exited.exitCode }
  else process

theorem recordExited_eq_some {process' exited : Process}
    (recorded : process.recordExited exited = some process') :
    process' = process.withExit exited := by
  unfold recordExited addChildExit at recorded
  unfold withExit
  split at recorded
  · rename_i parent
    split at recorded
    · rw [if_pos parent, ← Option.some.inj recorded]
    · simp at recorded
  · rename_i parent
    rw [if_neg parent, ← Option.some.inj recorded]

theorem recordExited_of_fresh {exited : Process}
    (fresh : exited.parentId = process.id → process.childrenExits.get? exited.id = none) :
    process.recordExited exited = some (process.withExit exited) := by
  unfold recordExited addChildExit withExit
  split
  · rename_i parent
    rw [if_pos (fresh parent)]
  · rfl

theorem withExit_frame (process exited : Process) :
    (process.withExit exited).id = process.id ∧
      (process.withExit exited).parentId = process.parentId ∧
      (process.withExit exited).context = process.context ∧
      (process.withExit exited).priority = process.priority ∧
      (process.withExit exited).exitCode = process.exitCode := by
  unfold withExit
  split <;> exact ⟨rfl, rfl, rfl, rfl, rfl⟩

@[simp] theorem withExit_id (process exited : Process) :
    (process.withExit exited).id = process.id := (withExit_frame process exited).1

theorem get?_withExit (process exited : Process) (k : Nat) :
    (process.withExit exited).childrenExits.get? k =
      if exited.parentId = process.id ∧ k = exited.id then some exited.exitCode
      else process.childrenExits.get? k := by
  unfold withExit
  by_cases parent : exited.parentId = process.id
  · simp [parent, SortedMap.get?_insert]
  · simp [parent]

/-- All the exits recorded, in order. -/
def withExits (process : Process) (exited : List Process) : Process :=
  exited.foldl withExit process

@[simp] theorem withExits_nil (process : Process) : process.withExits [] = process := rfl

@[simp] theorem withExits_cons (process e : Process) (rest : List Process) :
    process.withExits (e :: rest) = (process.withExit e).withExits rest := rfl

theorem withExits_frame (process : Process) (exited : List Process) :
    (process.withExits exited).id = process.id ∧
      (process.withExits exited).parentId = process.parentId ∧
      (process.withExits exited).context = process.context ∧
      (process.withExits exited).priority = process.priority ∧
      (process.withExits exited).exitCode = process.exitCode := by
  induction exited generalizing process with
  | nil => exact ⟨rfl, rfl, rfl, rfl, rfl⟩
  | cons e rest ih =>
    obtain ⟨id, parentId, context, priority, exitCode⟩ := ih (process.withExit e)
    obtain ⟨id', parentId', context', priority', exitCode'⟩ := withExit_frame process e
    exact ⟨id.trans id', parentId.trans parentId', context.trans context',
      priority.trans priority', exitCode.trans exitCode'⟩

@[simp] theorem withExits_id (process : Process) (exited : List Process) :
    (process.withExits exited).id = process.id := (withExits_frame process exited).1

/-- A pid none of the children among the exited ones has is recorded as before. -/
theorem get?_withExits_of_forall {k : Nat}
    (other : ∀ e ∈ exited, e.parentId = process.id → e.id ≠ k) :
    (process.withExits exited).childrenExits.get? k = process.childrenExits.get? k := by
  induction exited generalizing process with
  | nil => rfl
  | cons e rest ih =>
    rw [withExits_cons, ih, get?_withExit, if_neg]
    · rintro ⟨parent, same⟩
      exact other e (by simp) parent same.symm
    · intro e' mem parent
      exact other e' (by simp [mem]) (by simpa using parent)

/-- Every child among the exited ones is recorded with its exit code, when pids are distinct. -/
theorem get?_withExits_of_mem (distinct : (exited.map Process.id).Nodup) (mem : e ∈ exited)
    (parent : e.parentId = process.id) :
    (process.withExits exited).childrenExits.get? e.id = some e.exitCode := by
  induction exited generalizing process with
  | nil => simp at mem
  | cons e' rest ih =>
    obtain ⟨absent, distinct⟩ := List.nodup_cons.mp distinct
    rw [withExits_cons]
    rcases List.mem_cons.mp mem with rfl | later
    · rw [get?_withExits_of_forall, get?_withExit, if_pos ⟨parent, rfl⟩]
      intro e' mem' _ same
      exact absent (same ▸ List.mem_map_of_mem mem')
    · exact ih distinct later (by simpa using parent)

end Process

namespace SchedulerProcess

/-- One exited process met: `rax` is set if it is the one waited for, its exit recorded in its
parent. -/
def met (p : SchedulerProcess) (e : Process) : SchedulerProcess :=
  let process := p.process.withExit e
  if p.state = .waitingForPid e.id then
    { p with process := { process with
      context := { process.context with rax := e.exitCode.signExtend 64 } } }
  else { p with process := process }

/-- All of them met, in order. -/
def meets (p : SchedulerProcess) (exited : List Process) : SchedulerProcess :=
  exited.foldl met p

section
variable (p : SchedulerProcess)

@[simp] theorem meets_nil : p.meets [] = p := rfl

@[simp] theorem meets_cons (e : Process) (rest : List Process) :
    p.meets (e :: rest) = (p.met e).meets rest := rfl

@[simp] theorem met_state (e : Process) : (p.met e).state = p.state := by
  unfold met
  split <;> rfl

@[simp] theorem met_id (e : Process) : (p.met e).process.id = p.process.id := by
  unfold met
  split <;> simp

theorem met_childrenExits (e : Process) :
    (p.met e).process.childrenExits = (p.process.withExit e).childrenExits := by
  unfold met
  split <;> rfl

/-- Meeting changes nothing of the machine state of a process but `rax`. -/
theorem met_ring (e : Process) : (p.met e).process.context.ring = p.process.context.ring := by
  unfold met
  split <;> simp [ProcessContext.ring, (Process.withExit_frame p.process e).2.2.1]

@[simp] theorem meets_state (exited : List Process) : (p.meets exited).state = p.state := by
  induction exited generalizing p with
  | nil => rfl
  | cons e rest ih => rw [meets_cons, ih, met_state]

@[simp] theorem meets_id (exited : List Process) : (p.meets exited).process.id = p.process.id := by
  induction exited generalizing p with
  | nil => rfl
  | cons e rest ih => rw [meets_cons, ih, met_id]

@[simp] theorem meets_ring (exited : List Process) :
    (p.meets exited).process.context.ring = p.process.context.ring := by
  induction exited generalizing p with
  | nil => rfl
  | cons e rest ih => rw [meets_cons, ih, met_ring]

end

theorem withExit_childrenExits_congr {a b : Process} (id : a.id = b.id)
    (exits : a.childrenExits = b.childrenExits) :
    (a.withExit e).childrenExits = (b.withExit e).childrenExits := by
  unfold Process.withExit
  rw [id]
  split <;> simp [exits]

theorem withExits_childrenExits_congr {a b : Process} (id : a.id = b.id)
    (exits : a.childrenExits = b.childrenExits) :
    (a.withExits exited).childrenExits = (b.withExits exited).childrenExits := by
  induction exited generalizing a b with
  | nil => exact exits
  | cons e rest ih =>
    exact ih (by simpa using id) (withExit_childrenExits_congr id exits)

theorem meets_childrenExits (p : SchedulerProcess) (exited : List Process) :
    (p.meets exited).process.childrenExits = (p.process.withExits exited).childrenExits := by
  induction exited generalizing p with
  | nil => rfl
  | cons e rest ih =>
    rw [meets_cons, ih]
    exact withExits_childrenExits_congr (by simp) (met_childrenExits p e)

/-- A waiter ends with the exit code of the process it waits for in `rax`. -/
theorem meets_rax (distinct : (exited.map Process.id).Nodup) (mem : e ∈ exited)
    (waits : p.state = .waitingForPid e.id) :
    (p.meets exited).process.context.rax = e.exitCode.signExtend 64 := by
  induction exited generalizing p with
  | nil => simp at mem
  | cons e' rest ih =>
    obtain ⟨absent, distinct⟩ := List.nodup_cons.mp distinct
    rw [meets_cons]
    rcases List.mem_cons.mp mem with rfl | later
    · have unchanged : ∀ (l : List Process) (q : SchedulerProcess),
          q.state = .waitingForPid e.id → e.id ∉ l.map Process.id →
            (q.meets l).process.context.rax = q.process.context.rax := by
        intro l
        induction l with
        | nil => exact fun _ _ _ => rfl
        | cons x l ihl =>
          intro q qWaits missing
          simp only [List.map_cons, List.mem_cons, not_or] at missing
          rw [meets_cons, ihl _ (by rw [met_state, qWaits]) missing.2]
          have : q.state ≠ .waitingForPid x.id := by
            rw [qWaits]
            simpa using missing.1
          simp [met, this, (Process.withExit_frame q.process x).2.2.1]
      rw [unchanged rest _ (by rw [met_state, waits]) absent]
      simp [met, waits]
    · exact ih distinct later (by rw [met_state, waits])

/-- The states in which a process looks through the exited ones. -/
def absorbs (p : SchedulerProcess) : Bool :=
  match p.state with
  | .running | .waitingForPid _ => true
  | _ => false

/-- Whether the process is woken when it meets these exited ones. -/
def woken (timeNow : ClockTime) (p : SchedulerProcess) (exited : List Process) : Bool :=
  match p.state with
  | .waitingForPid pid => exited.any (fun e => e.id = pid)
  | .waitingForTime t => t ≤ timeNow
  | _ => false

/-- What the process becomes in the waking pass. -/
def visited (p : SchedulerProcess) (exited : List Process) : SchedulerProcess :=
  if p.absorbs then p.meets exited else p

/-- The exited processes it leaves for the ones visited after it. -/
def leaves (p : SchedulerProcess) (exited : List Process) : List Process :=
  if p.absorbs then exited.filter (fun e => e.parentId ≠ p.process.id) else exited

@[simp] theorem visited_id (p : SchedulerProcess) (exited : List Process) :
    (p.visited exited).process.id = p.process.id := by
  unfold visited
  split <;> simp

@[simp] theorem visited_state (p : SchedulerProcess) (exited : List Process) :
    (p.visited exited).state = p.state := by
  unfold visited
  split <;> simp

@[simp] theorem visited_ring (p : SchedulerProcess) (exited : List Process) :
    (p.visited exited).process.context.ring = p.process.context.ring := by
  unfold visited
  split <;> simp

end SchedulerProcess

namespace Scheduler
variable {left : List Process}

theorem meetExited_eq_some (done : meetExited p e = some p') : p' = p.met e := by
  simp only [meetExited, bind_eq_some] at done
  obtain ⟨inner, added, rest⟩ := done
  obtain rfl := Process.recordExited_eq_some added
  unfold SchedulerProcess.met
  split at rest
  · rename_i waits
    split at rest
    · simpa [waits] using rest.symm
    · simp at rest
  · rename_i waits
    simpa [waits] using rest.symm

theorem meetExited_isSome
    (fresh : e.parentId = p.process.id → p.process.childrenExits.get? e.id = none)
    (user : p.state = .waitingForPid e.id → p.process.context.ring = 3#64) :
    meetExited p e = some (p.met e) := by
  have sameContext : (p.process.withExit e).context = p.process.context :=
    (Process.withExit_frame p.process e).2.2.1
  simp only [meetExited, Process.recordExited_of_fresh fresh, some_bind, SchedulerProcess.met]
  split
  · rename_i waits
    rw [sameContext, if_pos (user waits)]
  · rfl

theorem visitExited_eq_some {kept : List Process} {remove : Bool}
    (done : visitExited p exited = some (remove, p', kept)) :
    remove = exited.any (fun e => p.state = .waitingForPid e.id) ∧ p' = p.meets exited ∧
      kept = exited.filter (fun e => e.parentId ≠ p.process.id) := by
  induction exited generalizing p remove kept with
  | nil =>
    cases done
    exact ⟨rfl, rfl, rfl⟩
  | cons e rest ih =>
    simp only [visitExited, bind_eq_some, Option.some.injEq, Prod.exists] at done
    obtain ⟨q, first, remove', p'', kept', later, rfl, rfl, rfl⟩ := done
    obtain rfl := meetExited_eq_some first
    obtain ⟨rfl, rfl, rfl⟩ := ih later
    refine ⟨?_, by simp, ?_⟩
    · simp only [List.any_cons, SchedulerProcess.met_state, Bool.decide_or, Bool.decide_eq_true]
    by_cases parent : e.parentId = p.process.id
    · simp [parent]
    · simp [parent]

theorem visitExited_isSome (distinct : (exited.map Process.id).Nodup)
    (fresh : ∀ e ∈ exited, e.parentId = p.process.id → p.process.childrenExits.get? e.id = none)
    (user : ∀ pid, p.state = .waitingForPid pid → p.process.context.ring = 3#64) :
    (visitExited p exited).isSome := by
  induction exited generalizing p with
  | nil => rfl
  | cons e rest ih =>
    obtain ⟨absent, distinct⟩ := List.nodup_cons.mp distinct
    have later : (visitExited (p.met e) rest).isSome := by
      apply ih distinct
      · intro e' mem parent
        rw [SchedulerProcess.met_childrenExits, Process.get?_withExit, if_neg]
        · exact fresh e' (by simp [mem]) (by simpa using parent)
        · rintro ⟨-, same⟩
          exact absent (same ▸ List.mem_map_of_mem mem)
      · intro pid waits
        rw [SchedulerProcess.met_ring]
        exact user pid (by simpa using waits)
    obtain ⟨result, done⟩ := Option.isSome_iff_exists.mp later
    simp only [visitExited, meetExited_isSome (fresh e (by simp)) (user e.id), done, some_bind,
      Option.isSome_some]

/-- One visit of the waking pass. -/
theorem visitWaiting_eq_some {pid : Nat} {take : Bool}
    (done : visitWaiting timeNow pid p exited = some (take, p', left)) :
    take = p.woken timeNow exited ∧ p' = p.visited exited ∧ left = p.leaves exited := by
  unfold visitWaiting at done
  unfold SchedulerProcess.woken SchedulerProcess.visited SchedulerProcess.leaves
    SchedulerProcess.absorbs
  cases state : p.state with
  | scheduled => simp [state] at done
  | waitingForTime t =>
    simp only [state, Option.some.injEq, Prod.mk.injEq] at done ⊢
    exact ⟨done.1.symm, by simpa using done.2.1.symm, by simpa using done.2.2.symm⟩
  | running =>
    rw [state] at done
    obtain ⟨rfl, rfl, rfl⟩ := visitExited_eq_some done
    refine ⟨?_, by simp, by simp⟩
    simp [state]
  | waitingForPid q =>
    rw [state] at done
    obtain ⟨rfl, rfl, rfl⟩ := visitExited_eq_some done
    refine ⟨?_, by simp, by simp⟩
    simp [state, eq_comm]

/-! ## The pass over the waiting processes -/

/-- The process has looked through the exited ones and taken this one away. -/
def claims (entry : Nat × SchedulerProcess) (e : Process) : Bool :=
  entry.2.absorbs && decide (e.parentId = entry.2.process.id)

variable (entries : List (Nat × SchedulerProcess))

/-- What is left of the exited processes after these entries. -/
def unclaimed (exited : List Process) : List Process :=
  exited.filter (fun e => !entries.any (fun entry => claims entry e))

/-- What is left of the exited processes when the entry with this key is visited. -/
def seen (exited : List Process) (key : Nat) : List Process :=
  unclaimed (entries.filter (fun entry => entry.1 < key)) exited

theorem leaves_unclaimed (pre : List (Nat × SchedulerProcess)) (entry : Nat × SchedulerProcess)
    (exited : List Process) :
    entry.2.leaves (unclaimed pre exited) = unclaimed (pre ++ [entry]) exited := by
  unfold SchedulerProcess.leaves unclaimed claims
  split
  · rename_i absorbs
    simp [absorbs, Bool.and_comm]
  · rename_i absorbs
    simp [absorbs]

theorem filter_before {pre post : List (Nat × SchedulerProcess)} (entry : Nat × SchedulerProcess)
    (sorted : (pre ++ entry :: post).Pairwise (fun a b => a.1 < b.1)) :
    (pre ++ entry :: post).filter (fun other => other.1 < entry.1) = pre := by
  obtain ⟨-, right, across⟩ := List.pairwise_append.mp sorted
  have above := (List.pairwise_cons.mp right).1
  rw [List.filter_append, List.filter_eq_self.mpr, List.filter_eq_nil_iff.mpr, List.append_nil]
  · intro other mem
    rcases List.mem_cons.mp mem with rfl | later
    · simp
    · have := above other later
      simp only [decide_eq_true_eq]
      omega
  · intro other mem
    simpa using across other mem entry (by simp)

/-- What the pass makes of one entry. -/
def afterVisit (exited : List Process) (entry : Nat × SchedulerProcess) : Nat × SchedulerProcess :=
  (entry.1, entry.2.visited (seen entries exited entry.1))

/-- Whether the pass wakes it. -/
def wokenIn (timeNow : ClockTime) (entries : List (Nat × SchedulerProcess)) (exited : List Process)
    (entry : Nat × SchedulerProcess) : Bool :=
  entry.2.woken timeNow (seen entries exited entry.1)

/-- When a process is woken: its deadline has come, or the process it waits for has exited and none
of the processes with a smaller pid has taken that one away. -/
def WakesUp (timeNow : ClockTime) (entries : List (Nat × SchedulerProcess)) (exited : List Process)
    (entry : Nat × SchedulerProcess) : Prop :=
  match entry.2.state with
  | .waitingForTime t => t ≤ timeNow
  | .waitingForPid pid => ∃ e ∈ exited, e.id = pid ∧
      ∀ other ∈ entries, other.1 < entry.1 → claims other e = false
  | _ => False

theorem mem_seen {entries : List (Nat × SchedulerProcess)} {key : Nat} :
    e ∈ seen entries exited key ↔
      e ∈ exited ∧ ∀ other ∈ entries, other.1 < key → claims other e = false := by
  simp only [seen, unclaimed, List.mem_filter, Bool.not_eq_true', List.any_eq_false,
    decide_eq_true_eq, Bool.not_eq_true]
  constructor
  · rintro ⟨mem, free⟩
    exact ⟨mem, fun other present before => free other ⟨present, before⟩⟩
  · rintro ⟨mem, free⟩
    exact ⟨mem, fun other present => free other present.1 present.2⟩

theorem wokenIn_iff {entries : List (Nat × SchedulerProcess)} {entry : Nat × SchedulerProcess} :
    wokenIn timeNow entries exited entry = true ↔ WakesUp timeNow entries exited entry := by
  unfold wokenIn SchedulerProcess.woken WakesUp
  cases state : entry.2.state with
  | running => simp
  | scheduled => simp
  | waitingForTime t => simp
  | waitingForPid pid =>
    simp only [List.any_eq_true, decide_eq_true_eq, mem_seen]
    constructor
    · rintro ⟨e, ⟨mem, free⟩, same⟩
      exact ⟨e, mem, same, free⟩
    · rintro ⟨e, mem, same, free⟩
      exact ⟨e, ⟨mem, free⟩, same⟩

instance (timeNow : ClockTime) (entries : List (Nat × SchedulerProcess)) (exited : List Process)
    (entry : Nat × SchedulerProcess) : Decidable (WakesUp timeNow entries exited entry) :=
  decidable_of_iff _ wokenIn_iff

/-- The pass in closed form, from any point of the list on. -/
theorem extractEntries_from (pre : List (Nat × SchedulerProcess))
    {post kept taken : List (Nat × SchedulerProcess)}
    (sorted : (pre ++ post).Pairwise (fun a b => a.1 < b.1))
    (done : SortedMap.extractEntries (visitWaiting timeNow) (unclaimed pre exited) post =
      some (left, kept, taken)) :
    left = unclaimed (pre ++ post) exited ∧
      kept = (post.filter (fun entry => !wokenIn timeNow (pre ++ post) exited entry)).map
        (afterVisit (pre ++ post) exited) ∧
      taken = (post.filter (wokenIn timeNow (pre ++ post) exited)).map
        (afterVisit (pre ++ post) exited) := by
  induction post generalizing pre kept taken with
  | nil =>
    obtain ⟨rfl, rfl, rfl⟩ := done
    simp
  | cons entry rest ih =>
    obtain ⟨key, p⟩ := entry
    obtain ⟨take, p', mid, kept', taken', visit, later, rfl, rfl⟩ :=
      SortedMap.extractEntries_cons done
    obtain ⟨rfl, rfl, rfl⟩ := visitWaiting_eq_some visit
    have shift : pre ++ (key, p) :: rest = (pre ++ [(key, p)]) ++ rest := by simp
    have here : seen (pre ++ (key, p) :: rest) exited key = unclaimed pre exited := by
      unfold seen
      rw [filter_before (key, p) sorted]
    rw [leaves_unclaimed pre (key, p)] at later
    obtain ⟨rfl, rfl, rfl⟩ := ih _ (shift ▸ sorted) later
    have visited : afterVisit (pre ++ (key, p) :: rest) exited (key, p) =
        (key, p.visited (unclaimed pre exited)) := by
      simp only [afterVisit, here]
    have woken : wokenIn timeNow (pre ++ (key, p) :: rest) exited (key, p) =
        p.woken timeNow (unclaimed pre exited) := by
      simp only [wokenIn, here]
    rw [← shift]
    refine ⟨rfl, ?_, ?_⟩
    · by_cases up : p.woken timeNow (unclaimed pre exited) = true
      · simp [woken, up]
      · simp [woken, visited, up]
    · by_cases up : p.woken timeNow (unclaimed pre exited) = true
      · simp [woken, visited, up]
      · simp [woken, up]

/-! ## The pass over the scheduled processes -/

/-- A process put back in the heap by `reschedule_process`. -/
def rescheduled (maxPriority : Nat) (p : SchedulerProcess) : SchedulerProcess :=
  { p with priorityCounter := maxPriority, state := .scheduled }

theorem rescheduleAll_false (extracted : List (Nat × SchedulerProcess)) (s : Scheduler) :
    rescheduleAll false extracted s = { s with scheduledProcesses :=
      (extracted.map (fun entry => rescheduled s.maxPriority entry.2)).reverse ++
        s.scheduledProcesses } := by
  induction extracted generalizing s with
  | nil => rfl
  | cons entry rest ih =>
    rw [rescheduleAll, ih]
    simp [rescheduleProcess, rescheduled]

/-- The exits recorded in a scheduled process. -/
def recorded (exited : List Process) (p : SchedulerProcess) : SchedulerProcess :=
  { p with process := p.process.withExits exited }

theorem recordExit_eq_some {l l' : List SchedulerProcess} (done : recordExit e l = some l') :
    l' = l.map (recorded [e]) := by
  induction l generalizing l' with
  | nil => simpa [recordExit] using done.symm
  | cons p rest ih =>
    simp only [recordExit, bind_eq_some, Option.some.injEq] at done
    obtain ⟨inner, added, rest', later, rfl⟩ := done
    rw [Process.recordExited_eq_some added, ih later]
    rfl

theorem drainExited_eq_some {l l' : List SchedulerProcess} (done : drainExited exited l = some l') :
    l' = l.map (recorded exited) := by
  induction exited generalizing l with
  | nil =>
    have : recorded [] = id := rfl
    simpa [drainExited, this] using done.symm
  | cons e rest ih =>
    simp only [drainExited, bind_eq_some] at done
    obtain ⟨mid, first, later⟩ := done
    rw [ih later, recordExit_eq_some first, List.map_map]
    rfl

/-- What the waking pass, before a shutdown, makes of the scheduler. -/
def awakened (timeNow : ClockTime) (s : Scheduler) : List SchedulerProcess :=
  ((s.runningWaitingProcs.entries.filter
    (wokenIn timeNow s.runningWaitingProcs.entries s.exitedProcesses)).map
      (afterVisit s.runningWaitingProcs.entries s.exitedProcesses)).map
        (fun entry => rescheduled s.maxPriority entry.2)

theorem tryWakeWaitingProcesses_eq_some {s s' : Scheduler}
    (done : s.tryWakeWaitingProcesses false timeNow = some s') :
    s'.exitedProcesses = [] ∧ s'.maxPriority = s.maxPriority ∧
      s'.runningWaitingProcs.entries =
        (s.runningWaitingProcs.entries.filter (fun entry =>
          !wokenIn timeNow s.runningWaitingProcs.entries s.exitedProcesses entry)).map
            (afterVisit s.runningWaitingProcs.entries s.exitedProcesses) ∧
      s'.scheduledProcesses = ((s.awakened timeNow).reverse ++ s.scheduledProcesses).map
        (recorded (unclaimed s.runningWaitingProcs.entries s.exitedProcesses)) := by
  simp only [tryWakeWaitingProcesses, bind_eq_some, Prod.exists] at done
  obtain ⟨left, kept, taken, extracted, scheduled, drained, same⟩ := done
  have pass := SortedMap.extractIf_eq_some.mp extracted
  have start : s.exitedProcesses = unclaimed [] s.exitedProcesses := by simp [unclaimed]
  rw [start] at pass
  obtain ⟨rfl, keptEq, takenEq⟩ := extractEntries_from [] s.runningWaitingProcs.sorted pass
  rw [rescheduleAll_false] at drained same
  obtain rfl := drainExited_eq_some drained
  cases same
  refine ⟨rfl, rfl, keptEq, ?_⟩
  rw [takenEq]
  rfl

theorem awakened_eq_nil_iff {s : Scheduler} :
    s.awakened timeNow = [] ↔ ∀ entry ∈ s.runningWaitingProcs.entries,
      ¬ WakesUp timeNow s.runningWaitingProcs.entries s.exitedProcesses entry := by
  simp only [awakened, List.map_eq_nil_iff, List.filter_eq_nil_iff, wokenIn_iff]

end Scheduler

end Emerald
