
import Emerald.Process.Spawn

/-!
# A `sys_spawn` that fails

The descriptors of the mappings are moved to the new process one after another, and only then are
the standard files looked at that the new process inherits. If one of them is missing or is a
directory, the call fails, and the files that were moved are closed with the new process.
-/

namespace Emerald.Process

open Fs (File FilesystemNode)

variable {mappings : List SpawnFileMapping}

/-- No descriptor of the parent is mapped twice, and none of the new process. -/
abbrev Distinct (mappings : List SpawnFileMapping) : Prop :=
  mappings.Pairwise fun m m' => m.srcFd ≠ m'.srcFd ∧ m.dstFd ≠ m'.dstFd

/-- `sys_arg_to_file_mappings_array` accepts the mappings that are distinct in both descriptors. -/
theorem hasDuplicates_eq_false_iff (earlier mappings : List SpawnFileMapping) :
    hasDuplicates earlier mappings = false ↔
      Distinct mappings ∧
        ∀ m ∈ earlier, ∀ m' ∈ mappings, m.srcFd ≠ m'.srcFd ∧ m.dstFd ≠ m'.dstFd := by
  induction mappings generalizing earlier with
  | nil => simp [hasDuplicates]
  | cons mapping mappings ih =>
    have first : isDuplicate earlier mapping = false ↔
        ∀ m ∈ earlier, m.srcFd ≠ mapping.srcFd ∧ m.dstFd ≠ mapping.dstFd := by
      simp only [isDuplicate, List.any_eq_false, Bool.or_eq_true, beq_iff_eq, not_or]
      constructor
      · intro apart m before
        exact ⟨Ne.symm (apart m before).1, Ne.symm (apart m before).2⟩
      · intro apart m before
        exact ⟨Ne.symm (apart m before).1, Ne.symm (apart m before).2⟩
    rw [hasDuplicates, Bool.or_eq_false_iff, first, ih, Distinct, Distinct, List.pairwise_cons]
    constructor
    · intro both
      obtain ⟨here, later, apart⟩ := both
      refine ⟨⟨fun m' mem => apart mapping (by simp) m' mem, later⟩, ?_⟩
      intro m before m' mem
      cases List.mem_cons.mp mem with
      | inl same =>
        rw [same]
        exact here m before
      | inr after => exact apart m (List.mem_append_left _ before) m' after
    · intro both
      obtain ⟨⟨here, later⟩, apart⟩ := both
      refine ⟨fun m before => apart m before mapping List.mem_cons_self, later, ?_⟩
      intro m before m' mem
      cases List.mem_append.mp before with
      | inl earlier => exact apart m earlier m' (List.mem_cons_of_mem _ mem)
      | inr same =>
        rw [List.mem_singleton.mp same]
        exact here m' mem

section
variable {ι η δ α : Type} {env : SpawnEnv ι η} {s t : SpawnState ι η δ}
  {nodes : SortedMap (FilesystemNode ι η δ)}

/-! ## The mappings -/

/-- The files of the mappings have been moved to the new process. -/
structure Taken (mappings : List SpawnFileMapping) (s t : SpawnState ι η δ) : Prop where
  nodes : ∀ fd, t.nodes.openFilesystemNodes.get? fd =
    if fd ∈ mappings.map (·.srcFd) then none else s.nodes.openFilesystemNodes.get? fd
  child : ∀ fd node, t.child.openFilesystemNodes.get? fd = some node ↔
    s.child.openFilesystemNodes.get? fd = some node ∨
      ∃ m ∈ mappings, m.dstFd = fd ∧ s.nodes.openFilesystemNodes.get? m.srcFd = some node
  pushed : t.pushed = s.pushed

theorem attachToChild_eq {fd : Nat} {node : FilesystemNode ι η δ}
    (free : s.child.openFilesystemNodes.get? fd = none) :
    ∃ child, attachToChild env fd node s = .ok () { s with child := child } ∧
      child.openFilesystemNodes = s.child.openFilesystemNodes.insert fd node := by
  refine ⟨(s.child.attachFsNodeToFd fd node).2, ?_, ?_⟩
  · have attached : s.child.attachFsNodeToFd fd node =
        (true, (s.child.attachFsNodeToFd fd node).2) := by
      simp [FsNodes.attachFsNodeToFd, free]
    unfold attachToChild
    rw [get_bind, attached]
    rfl
  · simp [FsNodes.attachFsNodeToFd, free]

/-- One mapping is moved, and then the rest. -/
theorem Taken.cons {mapping : SpawnFileMapping} {node : FilesystemNode ι η δ}
    {u : SpawnState ι η δ} (taken : Taken mappings u t)
    (found : s.nodes.openFilesystemNodes.get? mapping.srcFd = some node)
    (apart : ∀ m ∈ mappings, mapping.srcFd ≠ m.srcFd ∧ mapping.dstFd ≠ m.dstFd)
    (nodes : u.nodes = (s.nodes.takeFsNode mapping.srcFd).2) (child : u.child.openFilesystemNodes =
      s.child.openFilesystemNodes.insert mapping.dstFd node)
    (free : s.child.openFilesystemNodes.get? mapping.dstFd = none) (pushed : u.pushed = s.pushed) :
    Taken (mapping :: mappings) s t := by
  have erased : ∀ fd, u.nodes.openFilesystemNodes.get? fd =
      if fd = mapping.srcFd then none else s.nodes.openFilesystemNodes.get? fd := by
    intro fd
    rw [nodes]
    exact SortedMap.get?_erase _ _ _
  refine ⟨?_, ?_, taken.pushed.trans pushed⟩
  · intro fd
    rw [taken.nodes, erased]
    by_cases here : fd = mapping.srcFd
    · simp [here]
    · simp [here]
  · intro fd other
    rw [taken.child, child, SortedMap.get?_insert]
    constructor
    · intro either
      cases either with
      | inl attached =>
        split at attached
        · rename_i here
          cases attached
          exact .inr ⟨mapping, List.mem_cons_self, here.symm, found⟩
        · exact .inl attached
      | inr later =>
        obtain ⟨m, mem, dst, there⟩ := later
        rw [erased] at there
        split at there
        · cases there
        · exact .inr ⟨m, List.mem_cons_of_mem _ mem, dst, there⟩
    · intro either
      cases either with
      | inl before =>
        left
        rw [if_neg]
        · exact before
        · intro same
          rw [same, free] at before
          cases before
      | inr moved =>
        obtain ⟨m, mem, dst, there⟩ := moved
        cases List.mem_cons.mp mem with
        | inl same =>
          subst same
          left
          rw [if_pos dst.symm, ← there, found]
        | inr later =>
          refine .inr ⟨m, later, dst, ?_⟩
          rw [erased, if_neg (Ne.symm (apart m later).1)]
          exact there

/-- All files of the mappings are there, so all of them are moved. -/
theorem takeMapped_spec {stdNeeded : List Nat} (distinct : Distinct mappings)
    (present : ∀ m ∈ mappings, (s.nodes.openFilesystemNodes.get? m.srcFd).isSome)
    (free : ∀ m ∈ mappings, s.child.openFilesystemNodes.get? m.dstFd = none) :
    ∃ t, takeMapped env mappings stdNeeded s =
        .ok (stdNeeded.filter fun fd => mappings.all (fd != ·.dstFd)) t ∧
      Taken mappings s t := by
  induction mappings generalizing s stdNeeded with
  | nil =>
    refine ⟨s, ?_, ?_, ?_, rfl⟩
    · simp [takeMapped]
      rfl
    · intro fd
      simp
    · intro fd node
      simp
  | cons mapping mappings ih =>
    obtain ⟨apart, distinct⟩ := List.pairwise_cons.mp distinct
    obtain ⟨node, found⟩ := Option.isSome_iff_exists.mp (present mapping List.mem_cons_self)
    have vacant := free mapping List.mem_cons_self
    obtain ⟨child, attached, inserted⟩ := @attachToChild_eq _ _ _ env
      { s with nodes := (s.nodes.takeFsNode mapping.srcFd).2 } mapping.dstFd node vacant
    have moved : takeMapped env (mapping :: mappings) stdNeeded s =
        takeMapped env mappings (stdNeeded.filter (· != mapping.dstFd))
          { s with nodes := (s.nodes.takeFsNode mapping.srcFd).2, child := child } := by
      have taken : s.nodes.takeFsNode mapping.srcFd =
          (some node, (s.nodes.takeFsNode mapping.srcFd).2) :=
        Prod.ext found rfl
      rw [takeMapped, get_bind, taken]
      exact bind_of_ok attached
    have erased : ∀ m ∈ mappings, (s.nodes.takeFsNode mapping.srcFd).2.openFilesystemNodes.get?
        m.srcFd = s.nodes.openFilesystemNodes.get? m.srcFd := by
      intro m mem
      exact (SortedMap.get?_erase _ _ _).trans (if_neg (Ne.symm (apart m mem).1))
    obtain ⟨t, rest, taken⟩ := @ih
      { s with nodes := (s.nodes.takeFsNode mapping.srcFd).2, child := child }
      (stdNeeded.filter (· != mapping.dstFd)) distinct
      (fun m mem => by rw [erased m mem]; exact present m (List.mem_cons_of_mem _ mem))
      (fun m mem => by
        rw [inserted, SortedMap.get?_insert, if_neg (Ne.symm (apart m mem).2)]
        exact free m (List.mem_cons_of_mem _ mem))
    refine ⟨t, ?_, taken.cons found apart rfl inserted vacant rfl⟩
    rw [moved, rest, List.filter_filter]
    congr 1
    apply List.filter_congr
    intro fd _
    rw [List.all_cons, Bool.and_comm]

/-! ## The standard files -/

/-- Among the descriptors that the new process needs, one is missing or a directory, and the files
before it are inherited, and closed again, without a panic. -/
inductive FailsToInherit (env : SpawnEnv ι η) (nodes : SortedMap (FilesystemNode ι η δ)) :
    List Nat → Prop
  | missing {fd : Nat} {stdNeeded : List Nat} (absent : nodes.get? fd = none) :
    FailsToInherit env nodes (fd :: stdNeeded)
  | directory {fd : Nat} {stdNeeded : List Nat} {d : δ}
      (found : nodes.get? fd = some (.directory d)) :
    FailsToInherit env nodes (fd :: stdNeeded)
  | later {fd : Nat} {stdNeeded : List Nat} {file : File ι η}
    (found : nodes.get? fd = some (.file file)) (cloned : env.clonesDevice file.inode = true)
    (closed : env.closes file.inode env.defaultHelper = true)
    (rest : FailsToInherit env nodes stdNeeded) : FailsToInherit env nodes (fd :: stdNeeded)

theorem failsToInherit_file_iff {fd : Nat} {stdNeeded : List Nat} {file : File ι η}
    (found : nodes.get? fd = some (.file file)) :
    FailsToInherit env nodes (fd :: stdNeeded) ↔
      env.clonesDevice file.inode = true ∧ env.closes file.inode env.defaultHelper = true ∧
        FailsToInherit env nodes stdNeeded := by
  constructor
  · intro fails
    cases fails with
    | missing absent =>
      rw [found] at absent
      cases absent
    | directory there =>
      rw [found] at there
      cases there
    | later there cloned closed rest =>
      rw [found] at there
      cases there
      exact ⟨cloned, closed, rest⟩
  · intro all
    exact .later found all.1 all.2.1 all.2.2

/-- The new process can be dropped. -/
def Closable (env : SpawnEnv ι η) (nodes : SortedMap (FilesystemNode ι η δ)) : Prop :=
  ∀ fd node, nodes.get? fd = some node → closesNode env node = true

theorem closable_iff :
    nodes.values.all (closesNode env) = true ↔ Closable env nodes := by
  rw [List.all_eq_true]
  constructor
  · intro all fd node found
    exact all node (List.mem_map_of_mem (nodes.get?_eq_some_iff.mp found))
  · intro closable node mem
    obtain ⟨entry, present, rfl⟩ := List.mem_map.mp mem
    exact closable entry.1 entry.2 (nodes.get?_eq_some_iff.mpr present)

theorem closable_insert_iff {fd : Nat} {node : FilesystemNode ι η δ} (free : nodes.get? fd = none) :
    Closable env (nodes.insert fd node) ↔ closesNode env node = true ∧ Closable env nodes := by
  constructor
  · intro closable
    refine ⟨closable fd node (SortedMap.get?_insert_self _ _ _), ?_⟩
    intro other node' found
    refine closable other node' ?_
    rw [SortedMap.get?_insert, if_neg]
    · exact found
    · intro same
      rw [same, free] at found
      cases found
  · intro both other node' found
    rw [SortedMap.get?_insert] at found
    split at found
    · cases found
      exact both.1
    · exact both.2 other node' found

/-- The loop changes only the table of the new process, and fails with an error that can be returned
exactly if it fails to inherit. -/
theorem inheritStd_spec {stdNeeded : List Nat} (distinct : stdNeeded.Nodup)
    (free : ∀ fd ∈ stdNeeded, s.child.openFilesystemNodes.get? fd = none) :
    Meets (inheritStd env stdNeeded) s
      (fun _ t => t.nodes = s.nodes ∧ t.pushed = s.pushed ∧
        ¬ FailsToInherit env s.nodes.openFilesystemNodes stdNeeded)
      (fun stop t => t.nodes = s.nodes ∧ t.pushed = s.pushed ∧
        ((stop ≠ .panics ∧ Closable env t.child.openFilesystemNodes) ↔
          Closable env s.child.openFilesystemNodes ∧
            FailsToInherit env s.nodes.openFilesystemNodes stdNeeded)) := by
  induction stdNeeded generalizing s with
  | nil =>
    refine ⟨rfl, rfl, ?_⟩
    intro fails
    cases fails
  | cons fd stdNeeded ih =>
    obtain ⟨apart, distinct⟩ := List.nodup_cons.mp distinct
    rw [inheritStd, meets_get_bind]
    cases found : s.nodes.openFilesystemNodes.get? fd with
    | none =>
      refine ⟨rfl, rfl, ?_⟩
      simp [FailsToInherit.missing found]
    | some node =>
      cases node with
      | directory d =>
        refine ⟨rfl, rfl, ?_⟩
        simp [FailsToInherit.directory found]
      | file file =>
        rw [failsToInherit_file_iff found]
        cases cloned : env.clonesDevice file.inode with
        | false =>
          simp only [cloned]
          refine ⟨rfl, rfl, ?_⟩
          simp
        | true =>
          have vacant := free fd List.mem_cons_self
          obtain ⟨child, attached, inserted⟩ := @attachToChild_eq _ _ _ env s fd
            (.file (cloneInherit env file)) vacant
          have rest := @ih { s with child := child } distinct (by
            intro other mem
            rw [inserted, SortedMap.get?_insert, if_neg]
            · exact free other (List.mem_cons_of_mem _ mem)
            · intro same
              rw [same] at mem
              exact apart mem)
          have closes : Closable env child.openFilesystemNodes ↔
              env.closes file.inode env.defaultHelper = true ∧
                Closable env s.child.openFilesystemNodes := by
            rw [inserted]
            exact closable_insert_iff vacant
          simp only [cloned, if_true, true_and]
          rw [meets_after attached]
          refine rest.mono ?_ ?_
          · intro _ t done
            exact ⟨done.1, done.2.1, fun fails => done.2.2 fails.2⟩
          · intro stop t stopped
            refine ⟨stopped.1, stopped.2.1, ?_⟩
            rw [stopped.2.2]
            tauto

/-! ## The files of the new process -/

/-- The descriptors that are left when those of the mappings have been taken. -/
def remaining (mappings : List SpawnFileMapping) (nodes : SortedMap (FilesystemNode ι η δ)) :
    SortedMap (FilesystemNode ι η δ) :=
  mappings.foldr (fun mapping nodes => nodes.erase mapping.srcFd) nodes

/-- The standard descriptors that no mapping gives. -/
def stdNeeded (mappings : List SpawnFileMapping) : List Nat :=
  [0, 1, 2].filter fun fd => mappings.all (fd != ·.dstFd)

/-- The new process fails to inherit a standard file after the files of the mappings have been moved
to it, and is dropped without a panic. -/
structure DropsFiles (env : SpawnEnv ι η) (mappings : List SpawnFileMapping)
    (nodes : SortedMap (FilesystemNode ι η δ)) : Prop where
  closed : ∀ m ∈ mappings, ∀ node, nodes.get? m.srcFd = some node → closesNode env node = true
  fails : FailsToInherit env (remaining mappings nodes) (stdNeeded mappings)

theorem get?_remaining (mappings : List SpawnFileMapping)
    (nodes : SortedMap (FilesystemNode ι η δ)) (fd : Nat) :
    (remaining mappings nodes).get? fd =
      if fd ∈ mappings.map (·.srcFd) then none else nodes.get? fd := by
  induction mappings with
  | nil => rfl
  | cons mapping mappings ih =>
    rw [remaining, List.foldr_cons, SortedMap.get?_erase]
    by_cases here : fd = mapping.srcFd
    · simp [here]
    · rw [show List.foldr _ nodes mappings = remaining mappings nodes from rfl, ih]
      simp [here]

theorem Taken.nodes_eq (taken : Taken mappings s t) :
    t.nodes.openFilesystemNodes = remaining mappings s.nodes.openFilesystemNodes := by
  apply SortedMap.eq_of_get?
  intro fd
  rw [taken.nodes, get?_remaining]

theorem Taken.closable_iff (taken : Taken mappings s t) (empty : s.child = FsNodes.new) :
    Closable env t.child.openFilesystemNodes ↔ ∀ m ∈ mappings, ∀ node,
      s.nodes.openFilesystemNodes.get? m.srcFd = some node → closesNode env node = true := by
  constructor
  · intro closable m mem node found
    exact closable m.dstFd node ((taken.child _ _).mpr (.inr ⟨m, mem, rfl, found⟩))
  · intro closed fd node found
    cases (taken.child _ _).mp found with
    | inl before =>
      rw [empty] at before
      cases before
    | inr moved =>
      obtain ⟨m, mem, -, there⟩ := moved
      exact closed m mem node there

/-- The files are moved and inherited, or the call stops with the files of the mappings taken. -/
theorem moveFiles_spec (distinct : Distinct mappings)
    (present : ∀ m ∈ mappings, (s.nodes.openFilesystemNodes.get? m.srcFd).isSome)
    (empty : s.child = FsNodes.new) :
    Meets (droppingChild env (takeMapped env mappings [0, 1, 2] >>= inheritStd env)) s
      (fun _ t => t.pushed = s.pushed ∧
        ¬ DropsFiles env mappings s.nodes.openFilesystemNodes)
      (fun stop t => t.pushed = s.pushed ∧
        t.nodes.openFilesystemNodes = remaining mappings s.nodes.openFilesystemNodes ∧
        (stop ≠ .panics ↔ DropsFiles env mappings s.nodes.openFilesystemNodes)) := by
  obtain ⟨u, moved, taken⟩ := @takeMapped_spec mappings _ _ _ env s [0, 1, 2] distinct present
    (fun m _ => by rw [empty]; rfl)
  have needed : (stdNeeded mappings).Nodup := List.Nodup.filter _ (by decide)
  have spec := @inheritStd_spec _ _ _ env u (stdNeeded mappings) needed (by
    intro fd mem
    cases there : u.child.openFilesystemNodes.get? fd with
    | none => rfl
    | some node =>
      cases (taken.child fd node).mp there with
      | inl before =>
        rw [empty] at before
        cases before
      | inr given =>
        obtain ⟨m, listed, dst, -⟩ := given
        have other := List.all_eq_true.mp (List.mem_filter.mp mem).2 m listed
        rw [dst] at other
        simp at other)
  rw [taken.closable_iff empty, taken.nodes_eq] at spec
  have body : (takeMapped env mappings [0, 1, 2] >>= inheritStd env) s =
      inheritStd env (stdNeeded mappings) u := bind_of_ok moved
  unfold Meets droppingChild
  rw [body]
  cases run : inheritStd env (stdNeeded mappings) u with
  | ok done t =>
    obtain ⟨-, pushed, inherits⟩ := spec.of_ok run
    exact ⟨pushed.trans taken.pushed, fun drops => inherits drops.fails⟩
  | error stop t =>
    obtain ⟨nodes, pushed, fails⟩ := spec.of_error run
    have same : t.nodes.openFilesystemNodes = remaining mappings s.nodes.openFilesystemNodes := by
      rw [nodes]
      exact taken.nodes_eq
    have drops : DropsFiles env mappings s.nodes.openFilesystemNodes ↔
        stop ≠ .panics ∧ Closable env t.child.openFilesystemNodes := by
      rw [fails]
      exact ⟨fun drops => ⟨drops.closed, drops.fails⟩, fun both => ⟨both.1, both.2⟩⟩
    by_cases closable : t.child.openFilesystemNodes.values.all (closesNode env) = true
    · simp only [closable]
      refine ⟨pushed.trans taken.pushed, same, ?_⟩
      rw [drops]
      exact ⟨fun returned => ⟨returned, closable_iff.mp closable⟩, fun both => both.1⟩
    · simp only [closable]
      refine ⟨pushed.trans taken.pushed, same, ?_⟩
      rw [drops]
      exact ⟨fun absurd => (absurd rfl).elim, fun both => (closable (closable_iff.mpr both.2)).elim⟩

/-! ## The call -/

/-- The arguments of `sys_spawn`. -/
structure SpawnArgs where
  path : Nat
  argv : Nat
  fileMappings : Nat
  fileMappingsSize : Nat

/-- The call gets as far as moving the files of the mappings. -/
structure Reaches (env : SpawnEnv ι η) (user : UserSpace) (args : SpawnArgs)
    (nodes : SortedMap (FilesystemNode ι η δ)) (mappings : List SpawnFileMapping) : Prop where
  opened : ∃ path file, sysArgToStr user args.path = some (.ok path) ∧ env.openFile path = .ok file
  accepted : sysArgToFileMappingsArray user args.fileMappings args.fileMappingsSize =
    .ok mappings
  present : ∀ m ∈ mappings, (nodes.get? m.srcFd).isSome
  loaded : env.elfLoads = true
  allocated : ∃ argv start, sysArgToStrArray user args.argv = some (.ok argv) ∧
    allocateProcess env.loadElf env.memory argv = some (.ok start)

/-- Whatever the call returns an error for, the parent has the files it had and nothing has been
pushed. -/
def Unaffected (s : SpawnState ι η δ) (stop : Stop) (t : SpawnState ι η δ) : Prop :=
  stop ≠ .panics →
    t.nodes.openFilesystemNodes = s.nodes.openFilesystemNodes ∧ t.pushed = s.pushed

theorem meets_argument {β : Type} {toArgErr : SyscallArgError → SyscallError}
    {arg : Option (Except SyscallArgError β)} {f : β → SpawnM ι η δ α}
    {post : α → SpawnState ι η δ → Prop} :
    Meets (argument toArgErr arg >>= f) s post (Unaffected s) ↔
      ∀ value, arg = some (.ok value) → Meets (f value) s post (Unaffected s) := by
  cases arg with
  | none =>
    refine iff_of_true (fun panics => (panics rfl).elim) ?_
    intro value read
    cases read
  | some result =>
    cases result with
    | error err =>
      refine iff_of_true (fun _ => ⟨rfl, rfl⟩) ?_
      intro value read
      cases read
    | ok value =>
      constructor
      · intro met value' read
        cases read
        exact met
      · intro all
        exact all value rfl

theorem meets_checkMappings {f : Unit → SpawnM ι η δ α} {post : α → SpawnState ι η δ → Prop} :
    Meets (checkMappings mappings >>= f) s post (Unaffected s) ↔
      ((∀ m ∈ mappings, (s.nodes.openFilesystemNodes.get? m.srcFd).isSome) →
        Meets (f ()) s post (Unaffected s)) := by
  induction mappings with
  | nil =>
    constructor
    · intro met _
      exact met
    · intro met
      exact met (fun _ mem => nomatch mem)
  | cons mapping mappings ih =>
    rw [checkMappings, bind_assoc, meets_get_bind]
    cases found : s.nodes.openFilesystemNodes.get? mapping.srcFd with
    | none =>
      refine iff_of_true (fun _ => ⟨rfl, rfl⟩) ?_
      intro present
      have there := present mapping List.mem_cons_self
      rw [found] at there
      cases there
    | some node =>
      simp only [List.forall_mem_cons, found, Option.isSome_some, true_and]
      exact ih

theorem meets_closingProgram {body : SpawnM ι η δ α} :
    Meets (closingProgram env body) s (fun _ _ => True) (Unaffected s) ↔
      (env.closesProgram = true → Meets body s (fun _ _ => True) (Unaffected s)) := by
  unfold Meets closingProgram
  cases closes : env.closesProgram with
  | false =>
    refine iff_of_true ?_ (fun absurd => nomatch absurd)
    cases body s with
    | ok a t | error stop t => exact fun panics => (panics rfl).elim
  | true =>
    cases body s with
    | ok a t => simp
    | error stop t => simp

theorem remaining_eq_iff (present : ∀ m ∈ mappings, (nodes.get? m.srcFd).isSome) :
    remaining mappings nodes = nodes ↔ mappings = [] := by
  constructor
  · intro same
    cases mappings with
    | nil => rfl
    | cons mapping mappings =>
      have there := present mapping List.mem_cons_self
      rw [← same, get?_remaining] at there
      simp at there
  · intro empty
    rw [empty]
    rfl

theorem pushChild_unaffected {id parentId : Nat} {argv : List String} {start : StartState} :
    Meets (pushChild id parentId argv start) t (fun _ _ => True) (Unaffected s) := by
  unfold pushChild
  rw [meets_get_bind]
  cases t.child.finishStdio with
  | none => exact fun panics => (panics rfl).elim
  | some nodes => exact trivial

section
variable {argv : List String}
variable (distinct : Distinct mappings)
  (present : ∀ m ∈ mappings, (s.nodes.openFilesystemNodes.get? m.srcFd).isSome)
include distinct present

/-- From where the files of the mappings are moved on, the parent loses them exactly if there are
any and they are dropped. -/
theorem moveFiles_unaffected_iff {u : SpawnState ι η δ} {id parentId : Nat}
    {start : StartState} (nodes : u.nodes = s.nodes) (empty : u.child = FsNodes.new)
    (pushed : u.pushed = s.pushed) :
    Meets (do
        droppingChild env do
          let stdNeeded ← takeMapped env mappings [0, 1, 2]
          inheritStd env stdNeeded
        pushChild id parentId argv start) u (fun _ _ => True) (Unaffected s) ↔
      (mappings ≠ [] → ¬ DropsFiles env mappings s.nodes.openFilesystemNodes) := by
  have spec := @moveFiles_spec mappings _ _ _ env u distinct (nodes ▸ present) empty
  rw [nodes, pushed] at spec
  cases run : droppingChild env (takeMapped env mappings [0, 1, 2] >>= inheritStd env) u with
  | ok done t =>
    obtain ⟨-, keeps⟩ := spec.of_ok run
    rw [meets_after run]
    exact iff_of_true pushChild_unaffected fun _ => keeps
  | error stop t =>
    obtain ⟨same, left, fails⟩ := spec.of_error run
    unfold Meets
    rw [bind_of_error run]
    show (stop ≠ .panics → _) ↔ _
    rw [left, remaining_eq_iff present]
    tauto

/-- The same from where the program has been opened. -/
theorem spawnProgram_unaffected_iff {parentId : Nat} :
    Meets (do
        let (id, start) ← newProcess env argv
        droppingChild env do
          let stdNeeded ← takeMapped env mappings [0, 1, 2]
          inheritStd env stdNeeded
        pushChild id parentId argv start) s (fun _ _ => True) (Unaffected s) ↔
      ((∃ start, allocateProcess env.loadElf env.memory argv = some (.ok start)) →
        mappings ≠ [] → ¬ DropsFiles env mappings s.nodes.openFilesystemNodes) := by
  rw [newProcess]
  cases result : allocateProcess env.loadElf env.memory argv with
  | none =>
    refine iff_of_true (fun panics => (panics rfl).elim) ?_
    intro allocated
    obtain ⟨start, allocated⟩ := allocated
    cases allocated
  | some outcome =>
    cases outcome with
    | error e =>
      refine iff_of_true (fun _ => ⟨rfl, rfl⟩) ?_
      intro allocated
      obtain ⟨start, allocated⟩ := allocated
      cases allocated
    | ok start =>
      simp only [Option.some.injEq, Except.ok.injEq, exists_eq', true_implies]
      exact moveFiles_unaffected_iff distinct present rfl rfl rfl

end

theorem distinct_of_accepted {user : UserSpace} {arrayPtr arraySize : Nat}
    (accepted : sysArgToFileMappingsArray user arrayPtr arraySize = .ok mappings) :
    Distinct mappings := by
  unfold sysArgToFileMappingsArray at accepted
  split at accepted
  · cases accepted
  · simp only at accepted
    split at accepted
    · cases accepted
    · rename_i none
      cases accepted
      exact ((hasDuplicates_eq_false_iff [] _).mp (Bool.not_eq_true _ ▸ none)).1

/-- A `sys_spawn` that returns an error leaves the descriptors of the parent as they were, and
pushes no process, exactly unless it gets to moving files of mappings and drops them. -/
theorem sysSpawn_unaffected_iff (env : SpawnEnv ι η) (user : UserSpace) (currentPid : Nat)
    (args : SpawnArgs) (s : SpawnState ι η δ) :
    Meets (sysSpawn env user currentPid args.path args.argv args.fileMappings
        args.fileMappingsSize) s (fun _ _ => True)
        (fun stop t => stop ≠ .panics →
          t.nodes.openFilesystemNodes = s.nodes.openFilesystemNodes ∧ t.pushed = s.pushed) ↔
      ∀ mappings, Reaches env user args s.nodes.openFilesystemNodes mappings →
        env.closesProgram = true → mappings ≠ [] →
        ¬ DropsFiles env mappings s.nodes.openFilesystemNodes := by
  show Meets _ s _ (Unaffected s) ↔ _
  unfold sysSpawn
  simp only [meets_argument, meets_checkMappings, Option.some.injEq]
  constructor
  · intro met mappings reaches closes nonempty
    obtain ⟨path, file, pathRead, opened⟩ := reaches.opened
    obtain ⟨argv, start, argvRead, allocated⟩ := reaches.allocated
    have rest := met path pathRead argv argvRead mappings reaches.accepted reaches.present
    rw [opened] at rest
    simp only [reaches.loaded] at rest
    exact (spawnProgram_unaffected_iff (distinct_of_accepted reaches.accepted)
      reaches.present).mp (meets_closingProgram.mp rest closes) ⟨start, allocated⟩ nonempty
  · intro keeps path pathRead argv argvRead mappings accepted present
    cases opened : env.openFile path with
    | error error =>
      cases converted : SyscallError.fromFileSystemError error with
      | none =>
        simp only [converted]
        exact fun panics => (panics rfl).elim
      | some result =>
        simp only [converted]
        exact fun _ => ⟨rfl, rfl⟩
    | ok file =>
      apply meets_closingProgram.mpr
      intro closes
      cases loaded : env.elfLoads with
      | false => exact fun _ => ⟨rfl, rfl⟩
      | true =>
        apply (spawnProgram_unaffected_iff (distinct_of_accepted accepted) present).mpr
        intro allocated nonempty
        obtain ⟨start, allocated⟩ := allocated
        exact keeps mappings ⟨⟨path, file, pathRead, opened⟩, accepted, present, loaded, argv,
          start, argvRead, allocated⟩ closes nonempty

end

/-! ## A parent that moves its standard input -/

/-- All pages are mapped. There is a path at `0x1000`, an empty array at `0x2000`, and at `0x3000` a
mapping of descriptor 0 to 5. -/
def movingSpace : UserSpace where
  vm := ⟨0, true⟩
  tables := fun _ _ => 1#64
  byte := fun a => if a = 0x1000 then 97 else if a = 0x3008 then 5 else 0

/-- A file that is open for reading and writing. -/
def plainFile : File Unit Unit := ⟨(), 0, false, .none, (), ⟨true, true⟩⟩

def plainEnv : SpawnEnv Unit Unit where
  openFile := fun _ => .ok plainFile
  elfLoads := true
  loadElf := some (.ok (.bare 0x400000))
  memory := fun _ => 0
  closesProgram := true
  closes := fun _ _ => true
  clonesDevice := fun _ => true
  defaultHelper := ()

/-- A process with the three standard files. -/
def standardState : SpawnState Unit Unit Unit where
  nodes := ⟨((SortedMap.empty.insert 0 (.file plainFile)).insert 1 (.file plainFile)).insert 2
    (.file plainFile), ⟨3⟩⟩
  child := FsNodes.new
  processIdAllocator := ⟨1⟩
  pushed := []

/-- The new process would need a standard input, so that the call fails, and the parent has none any
more. -/
theorem sysSpawn_loses_stdin :
    ∃ t, sysSpawn plainEnv movingSpace 0 0x1000 0x2000 0x3000 1 standardState =
        .error (.returns .invalidFileIndex) t ∧
      t.nodes.openFilesystemNodes.keys = [1, 2] ∧
      standardState.nodes.openFilesystemNodes.keys = [0, 1, 2] := by
  refine ⟨?_, ?_, ?_, ?_⟩
  rotate_left
  · rfl
  · rfl
  · rfl

end Emerald.Process
