
import Emerald.Devices.Pipe

/-!
# Pipes are first in, first out

In every interleaving the bytes read and those in the buffer are together the bytes written, and
each side counts its handles, so that a side is closed only when its handles are gone.
-/

namespace Emerald.Devices

open Fs (FileSystemError)

variable {index : Nat}

/-! ## The buffer -/

/-- The bytes popped are the oldest ones. -/
theorem popBytes_append (len : Nat) (buffer : List UInt8) :
    (popBytes len buffer).1 ++ (popBytes len buffer).2.reverse = buffer.reverse := by
  induction len generalizing buffer with
  | zero => rfl
  | succ len ih =>
    rw [popBytes]
    split
    · rename_i byte last
      have whole : buffer.dropLast ++ [byte] = buffer := List.dropLast_append_getLast? byte last
      show byte :: ((popBytes len buffer.dropLast).1 ++ _) = _
      rw [ih, ← List.reverse_concat, whole]
    · rfl

theorem popBytes_eq_nil {len : Nat} {buffer : List UInt8} (none : (popBytes len buffer).1 = []) :
    (popBytes len buffer).2 = buffer := by
  have whole := popBytes_append len buffer
  rw [none] at whole
  exact List.reverse_injective whole

/-! ## The handles -/

namespace PipeFile

/-- The mode and access that `create_pipe_pair` opens a side with. -/
structure Opened (f : PipeFile) : Prop where
  mode : f.blockingMode = if f.isReadSide then .block 1 else .none
  access : f.fileAccess = ⟨f.isReadSide, !f.isReadSide⟩

variable {f : PipeFile} {device : PipeSide}

theorem Opened.advance (opened : f.Opened) (result : Except FileSystemError Nat) :
    (f.advance result).Opened := by
  cases result with
  | ok count => exact ⟨opened.mode, opened.access⟩
  | error e => exact opened

@[simp] theorem isReadSide_advance (result : Except FileSystemError Nat) :
    (f.advance result).isReadSide = f.isReadSide := by
  cases result with
  | ok count => rfl
  | error e => rfl

/-- The ways a round of `read` on a handle of a pipe can end. -/
inductive ReadEffect (f : PipeFile) (pipe : InnerPipe) :
    List UInt8 → ReadRound → InnerPipe → Prop
  | refused : f.isReadSide = false →
      ReadEffect f pipe [] (.returned (.error .readNotSupported)) pipe
  | ended : f.isReadSide = true → pipe.writeSideAvailable = false → pipe.buffer = [] →
      ReadEffect f pipe [] (.returned (.ok 0)) pipe
  | waits : f.isReadSide = true → ReadEffect f pipe [] (.again []) pipe
  | takes (bytes rest : List UInt8) : f.isReadSide = true → bytes ≠ [] →
      bytes ++ rest.reverse = pipe.buffer.reverse →
      ReadEffect f pipe bytes (.returned (.ok bytes.length)) { pipe with buffer := rest }

/-- What a round of `read` does. -/
theorem read_effect (opened : f.Opened)
    (side : device.isReadSide = f.isReadSide) (pipe : InnerPipe) (len : Nat) (got : List UInt8) :
    ∃ bytes round pipe', f.read device pipe len got = some (bytes, round, pipe') ∧
      ReadEffect f pipe bytes round pipe' := by
  unfold read
  rw [opened.access, opened.mode]
  cases kind : f.isReadSide with
  | false => exact ⟨_, _, _, rfl, .refused kind⟩
  | true =>
    rw [kind] at side
    simp only [PipeSide.read, side]
    by_cases atEnd : pipe.writeSideAvailable = false ∧ pipe.buffer = []
    · rw [if_pos atEnd]
      exact ⟨_, _, _, rfl, .ended kind atEnd.1 atEnd.2⟩
    · rw [if_neg atEnd]
      have whole := popBytes_append len pipe.buffer
      have unread := @popBytes_eq_nil len pipe.buffer
      cases popped : popBytes len pipe.buffer with
      | mk bytes rest =>
        rw [popped] at whole unread
        cases bytes with
        | nil =>
          have same : { pipe with buffer := rest } = pipe := by
            rw [show rest = pipe.buffer from unread rfl]
          refine ⟨[], .again [], pipe, ?_, .waits kind⟩
          exact congrArg (fun pipe => some ([], ReadRound.again [], pipe)) same
        | cons byte bytes =>
          exact ⟨_, _, _, rfl, .takes (byte :: bytes) rest kind (List.cons_ne_nil _ _) whole⟩

/-- The ways `write` on a handle of a pipe can end. -/
inductive WriteEffect (f : PipeFile) (pipe : InnerPipe) (buf : List UInt8) :
    Except FileSystemError Nat → InnerPipe → Prop
  | refused : f.isReadSide = true → WriteEffect f pipe buf (.error .writeNotSupported) pipe
  | ended : f.isReadSide = false → pipe.readSideAvailable = false →
      WriteEffect f pipe buf (.error .endOfFile) pipe
  | puts : f.isReadSide = false →
      WriteEffect f pipe buf (.ok buf.length) { pipe with buffer := buf.reverse ++ pipe.buffer }

/-- What `write` does. -/
theorem write_effect (opened : f.Opened)
    (side : device.isReadSide = f.isReadSide) (pipe : InnerPipe) (buf : List UInt8) :
    WriteEffect f pipe buf (f.write device pipe buf).1 (f.write device pipe buf).2 := by
  unfold write
  rw [opened.access]
  cases kind : f.isReadSide with
  | true => exact .refused kind
  | false =>
    rw [kind] at side
    simp only [PipeSide.write, side, List.foldl_flip_cons_eq_append']
    by_cases atEnd : pipe.readSideAvailable = false
    · rw [if_pos atEnd]
      exact .ended kind atEnd
    · rw [if_neg atEnd]
      exact .puts kind

end PipeFile

/-- `File::read` reports the end of the file. -/
def ReadRound.IsEndOfFile (round : ReadRound) : Prop :=
  round = .returned (.ok 0) ∨ round = .returned (.error .endOfFile)

theorem ReadRound.not_isEndOfFile_of_ne_nil {bytes : List UInt8} (some : bytes ≠ []) :
    ¬ (returned (.ok bytes.length)).IsEndOfFile := by
  rintro (ends | ends)
  · injection ends with ends
    injection ends with ends
    exact some (List.length_eq_zero_iff.mp ends)
  · cases ends

/-- Whether a side is still open. -/
def InnerPipe.available (pipe : InnerPipe) (isReadSide : Bool) : Bool :=
  if isReadSide then pipe.readSideAvailable else pipe.writeSideAvailable

namespace Pipe
variable {p q : Pipe}
variable {f : PipeFile} {result : Except FileSystemError Nat} {round : ReadRound} {got : List UInt8}

/-! ## Counting the handles -/

@[simp] theorem live_cons (p : Pipe) (f : PipeFile) (files : List PipeFile) (side : Bool) :
    live { p with files := f :: files } side =
      live { p with files := files } side + if f.isReadSide = side then 1 else 0 := by
  unfold live
  rw [List.countP_cons]
  simp only [beq_iff_eq]

theorem live_erase (found : p.files[index]? = some f) (side : Bool) :
    live { p with files := p.files.eraseIdx index } side + (if f.isReadSide = side then 1 else 0) =
      p.live side := by
  obtain ⟨below, rfl⟩ := List.getElem?_eq_some_iff.mp found
  rw [← live_cons]
  exact (List.getElem_cons_eraseIdx_perm below).countP_eq _

theorem live_set {f' : PipeFile} (found : p.files[index]? = some f)
    (same : f'.isReadSide = f.isReadSide) (side : Bool) :
    live { p with files := p.files.set index f' } side = p.live side := by
  obtain ⟨below, rfl⟩ := List.getElem?_eq_some_iff.mp found
  have sides : (p.files.set index f').map PipeFile.isReadSide =
      p.files.map PipeFile.isReadSide := by
    have inside : index < (p.files.map PipeFile.isReadSide).length := by
      rw [List.length_map]
      exact below
    have here : (p.files.map PipeFile.isReadSide)[index] = p.files[index].isReadSide :=
      List.getElem_map _
    rw [List.map_set, same, ← here, List.set_getElem_self inside]
  have count := congrArg (List.countP (· == side)) sides
  rw [List.countP_map, List.countP_map] at count
  exact count

theorem live_pos (found : p.files[index]? = some f) : 0 < p.live f.isReadSide := by
  have count := live_erase found f.isReadSide
  rw [if_pos rfl] at count
  omega

/-! ## The invariant -/

/-- What holds between the calls. -/
structure Sound (p : Pipe) : Prop where
  opened : ∀ f ∈ p.files, f.Opened
  side : ∀ side, (p.device side).isReadSide = side
  counts : ∀ side, (p.device side).clones = p.live side
  order : p.delivered ++ p.inner.buffer.reverse = p.accepted
  closing : ∀ side ∈ p.closing, p.live side = 0
  closed : ∀ side, p.inner.available side = false → p.live side = 0

theorem sound_createPipePair : Sound createPipePair where
  opened := by
    intro f mem
    simp only [createPipePair, List.mem_cons, List.not_mem_nil, or_false] at mem
    rcases mem with rfl | rfl
    · exact ⟨rfl, rfl⟩
    · exact ⟨rfl, rfl⟩
  side := by decide
  counts := by decide
  order := rfl
  closing := by simp [createPipePair]
  closed := by decide

section
variable (sound : p.Sound)
include sound

/-- A call on a handle that leaves the sides as they are. -/
theorem Sound.access {f' : PipeFile} (found : p.files[index]? = some f)
    (opened : f'.Opened) (same : f'.isReadSide = f.isReadSide) {inner : InnerPipe}
    (available : ∀ side, inner.available side = p.inner.available side)
    {accepted delivered : List UInt8} (order : delivered ++ inner.buffer.reverse = accepted) :
    Sound { p with
      inner := inner, files := p.files.set index f', accepted := accepted,
      delivered := delivered } := by
  have count : ∀ side, live { p with
      inner := inner, files := p.files.set index f', accepted := accepted,
      delivered := delivered } side = p.live side := live_set found same
  refine ⟨?_, sound.side, ?_, order, ?_, ?_⟩
  · intro g mem
    rcases List.mem_or_eq_of_mem_set mem with old | rfl
    · exact sound.opened g old
    · exact opened
  · intro side
    rw [count]
    exact sound.counts side
  · intro side mem
    rw [count]
    exact sound.closing side mem
  · intro side closed
    rw [count]
    exact sound.closed side ((available side).symm.trans closed)

/-- What a round of `read` does to the pipe. -/
theorem Sound.read_eq {len : Nat} (done : p.read index len got = some (round, q)) :
    ∃ f f' bytes inner, p.files[index]? = some f ∧ f'.Opened ∧ f'.isReadSide = f.isReadSide ∧
      f.ReadEffect p.inner bytes round inner ∧
      q = { p with
        inner := inner, files := p.files.set index f', delivered := p.delivered ++ bytes } := by
  obtain ⟨f, found, done⟩ := Option.bind_eq_some_iff.mp done
  have opened := sound.opened f (List.mem_of_getElem? found)
  obtain ⟨bytes, round', inner, effect, how⟩ :=
    PipeFile.read_effect opened (sound.side f.isReadSide) p.inner len got
  obtain ⟨result, taken, done⟩ := Option.bind_eq_some_iff.mp done
  cases effect.symm.trans taken
  cases done
  cases round with
  | returned result =>
    exact ⟨f, _, bytes, inner, found, opened.advance result, f.isReadSide_advance result, how, rfl⟩
  | again got => exact ⟨f, f, bytes, inner, found, opened, rfl, how, rfl⟩

theorem Sound.read {index len : Nat} (done : p.read index len got = some (round, q)) : q.Sound := by
  obtain ⟨f, f', bytes, inner, found, opened, same, effect, rfl⟩ := sound.read_eq done
  refine sound.access found opened same ?_ ?_
  · intro side
    cases effect <;> rfl
  · cases effect with
    | takes bytes rest _ _ whole => rw [List.append_assoc, whole, sound.order]
    | _ => rw [List.append_nil, sound.order]

/-- What `write` does to the pipe. -/
theorem Sound.write_eq {buf : List UInt8} (done : p.write index buf = some (result, q)) :
    ∃ f f' inner, p.files[index]? = some f ∧ f'.Opened ∧ f'.isReadSide = f.isReadSide ∧
      f.WriteEffect p.inner buf result inner ∧
      q = { p with
        inner := inner, files := p.files.set index f',
        accepted := p.accepted ++ acceptedBytes buf result } := by
  obtain ⟨f, found, done⟩ := Option.bind_eq_some_iff.mp done
  have opened := sound.opened f (List.mem_of_getElem? found)
  have how := PipeFile.write_effect opened (sound.side f.isReadSide) p.inner buf
  cases ran : f.write (p.device f.isReadSide) p.inner buf with
  | mk result' inner =>
    rw [ran] at done how
    cases done
    exact ⟨f, _, inner, found, opened.advance result, f.isReadSide_advance result, how, rfl⟩

theorem Sound.write {buf : List UInt8} (done : p.write index buf = some (result, q)) : q.Sound := by
  obtain ⟨f, f', inner, found, opened, same, effect, rfl⟩ := sound.write_eq done
  refine sound.access found opened same ?_ ?_
  · intro side
    cases effect <;> rfl
  · cases effect with
    | puts =>
      rw [acceptedBytes, List.take_length, List.reverse_append, List.reverse_reverse,
        ← List.append_assoc, sound.order]
    | _ => rw [acceptedBytes, List.append_nil, sound.order]

end

/-- What `clone_inherit` does to the pipe. -/
theorem clone_eq (done : p.clone index = some q) :
    ∃ f, p.files[index]? = some f ∧ q.files = f.cloneInherit :: p.files ∧ q.inner = p.inner ∧
      q.closing = p.closing ∧ q.accepted = p.accepted ∧ q.delivered = p.delivered ∧
      ∀ side, q.device side =
        if f.isReadSide = side then (p.device side).cloneDevice else p.device side := by
  obtain ⟨f, found, done⟩ := Option.bind_eq_some_iff.mp done
  cases done
  refine ⟨f, found, ?_⟩
  cases kind : f.isReadSide with
  | false | true =>
    refine ⟨rfl, rfl, rfl, rfl, rfl, fun side => ?_⟩
    cases side <;> rfl

theorem Sound.clone (sound : p.Sound) (done : p.clone index = some q) : q.Sound := by
  obtain ⟨f, found, files, inner, closing, accepted, delivered, device⟩ := clone_eq done
  have alive := live_pos found
  have count : ∀ side, q.live side = p.live side + if f.isReadSide = side then 1 else 0 := by
    intro side
    unfold live
    rw [files, List.countP_cons]
    simp only [beq_iff_eq]
    rfl
  refine ⟨?_, ?_, ?_, ?_, ?_, ?_⟩
  · intro g mem
    rw [files] at mem
    rcases List.mem_cons.mp mem with rfl | old
    · have opened := sound.opened f (List.mem_of_getElem? found)
      exact ⟨opened.mode, opened.access⟩
    · exact sound.opened g old
  · intro side
    rw [device]
    split
    · exact sound.side side
    · exact sound.side side
  · intro side
    rw [device, count]
    split
    · exact congrArg (· + 1) (sound.counts side)
    · exact sound.counts side
  · rw [inner, accepted, delivered]
    exact sound.order
  · intro side mem
    rw [closing] at mem
    have gone := sound.closing side mem
    rw [count, if_neg (by rintro rfl; omega), gone]
  · intro side closed
    rw [inner] at closed
    have gone := sound.closed side closed
    rw [count, if_neg (by rintro rfl; omega), gone]

/-- What the drop of a handle does to the pipe. -/
theorem drop_eq (done : p.drop index = some q) :
    ∃ f, p.files[index]? = some f ∧ q.files = p.files.eraseIdx index ∧ q.inner = p.inner ∧
      q.closing = (if (p.device f.isReadSide).clones = 1 then f.isReadSide :: p.closing
        else p.closing) ∧
      q.accepted = p.accepted ∧ q.delivered = p.delivered ∧
      ∀ side, q.device side =
        if f.isReadSide = side then (p.device side).closeHandle.2 else p.device side := by
  obtain ⟨f, found, done⟩ := Option.bind_eq_some_iff.mp done
  cases done
  refine ⟨f, found, ?_⟩
  simp only [beq_iff_eq]
  cases kind : f.isReadSide with
  | false | true =>
    refine ⟨rfl, rfl, rfl, rfl, rfl, fun side => ?_⟩
    cases side <;> rfl

theorem Sound.drop (sound : p.Sound) (done : p.drop index = some q) : q.Sound := by
  obtain ⟨f, found, files, inner, closing, accepted, delivered, device⟩ := drop_eq done
  have count : ∀ side, q.live side + (if f.isReadSide = side then 1 else 0) = p.live side := by
    intro side
    rw [← live_erase found side]
    unfold live
    rw [files]
  have counted := sound.counts f.isReadSide
  refine ⟨?_, ?_, ?_, ?_, ?_, ?_⟩
  · intro g mem
    rw [files] at mem
    exact sound.opened g (List.mem_of_mem_eraseIdx mem)
  · intro side
    rw [device]
    split
    · exact sound.side side
    · exact sound.side side
  · intro side
    have here := count side
    have before := sound.counts side
    rw [device]
    split at here
    · rename_i same
      rw [if_pos same]
      show (p.device side).clones - 1 = _
      omega
    · rename_i other
      rw [if_neg other]
      omega
  · rw [inner, accepted, delivered]
    exact sound.order
  · intro side mem
    have here := count side
    have old : side ∈ p.closing → q.live side = 0 := by
      intro mem
      have gone := sound.closing side mem
      omega
    rw [closing] at mem
    split at mem
    · rcases List.mem_cons.mp mem with rfl | mem
      · rw [if_pos rfl] at here
        omega
      · exact old mem
    · exact old mem
  · intro side closed
    have here := count side
    rw [inner] at closed
    have gone := sound.closed side closed
    omega

theorem Sound.finishClose (sound : p.Sound) {isReadSide : Bool}
    (done : p.finishClose isReadSide = some q) : q.Sound := by
  obtain ⟨pending, done⟩ := Option.ite_none_right_eq_some.mp done
  cases done
  have kind := sound.side isReadSide
  refine ⟨sound.opened, sound.side, sound.counts, ?_, ?_, ?_⟩
  · have buffer : ((p.device isReadSide).closeSide p.inner).buffer = p.inner.buffer := by
      unfold PipeSide.closeSide
      split <;> rfl
    show p.delivered ++ ((p.device isReadSide).closeSide p.inner).buffer.reverse = p.accepted
    rw [buffer, sound.order]
  · exact fun side mem => sound.closing side (List.mem_of_mem_erase mem)
  · intro side closed
    by_cases same : side = isReadSide
    · rw [same]
      exact sound.closing isReadSide pending
    · refine sound.closed side (Eq.trans ?_ closed)
      show _ = ((p.device isReadSide).closeSide p.inner).available side
      unfold PipeSide.closeSide
      rw [kind]
      cases isReadSide <;> cases side <;> first | rfl | exact absurd rfl same

theorem Sound.step (sound : p.Sound) (call : PipeCall) (done : p.step call = some q) :
    q.Sound := by
  cases call with
  | read index len got =>
    obtain ⟨⟨round, q⟩, ran, rfl⟩ := Option.map_eq_some_iff.mp done
    exact sound.read ran
  | write index buf =>
    obtain ⟨⟨result, q⟩, ran, rfl⟩ := Option.map_eq_some_iff.mp done
    exact sound.write ran
  | clone index => exact sound.clone done
  | drop index => exact sound.drop done
  | finishClose isReadSide => exact sound.finishClose done

theorem Reached.sound : ∀ p, Reached p → p.Sound := by
  refine Reachable.invariant ?_ ?_
  · rintro p rfl
    exact sound_createPipePair
  · exact fun p call q sound _ done => sound.step call done

/-- In every interleaving the bytes read are the first of those written and the rest is in the
buffer; `read` reports the end of the file only when the handles of the write side are closed and
the buffer is empty; `write` on a handle of the write side fails only when those of the read side
are closed; each side counts its handles; and no call on a handle panics. -/
theorem first_in_first_out (p : Pipe) (reached : Reached p) :
    p.delivered <+: p.accepted ∧ p.delivered ++ p.inner.buffer.reverse = p.accepted ∧
      (∀ index len got round q, p.read index len got = some (round, q) → round.IsEndOfFile →
        p.live false = 0 ∧ p.inner.buffer = []) ∧
      (∀ index f buf e q, p.files[index]? = some f → p.write index buf = some (.error e, q) →
        if f.isReadSide then e = .writeNotSupported else e = .endOfFile ∧ p.live true = 0) ∧
      (p.readDevice.clones = p.live true ∧ p.writeDevice.clones = p.live false) ∧
      ∀ index < p.files.length, (∀ len got, (p.read index len got).isSome) ∧
        (∀ buf, (p.write index buf).isSome) ∧ (p.clone index).isSome ∧ (p.drop index).isSome := by
  have sound := Reached.sound p reached
  refine ⟨⟨_, sound.order⟩, sound.order, ?_, ?_, ⟨sound.counts true, sound.counts false⟩, ?_⟩
  · intro index len got round q done ends
    obtain ⟨f, f', bytes, inner, -, -, -, effect, -⟩ := sound.read_eq done
    cases effect with
    | ended _ closed empty => exact ⟨sound.closed false closed, empty⟩
    | takes bytes rest _ some => exact absurd ends (ReadRound.not_isEndOfFile_of_ne_nil some)
    | refused | waits => rcases ends with ends | ends <;> cases ends
  · intro index f buf e q found done
    obtain ⟨g, g', inner, found', -, -, effect, -⟩ := sound.write_eq done
    cases found.symm.trans found'
    cases effect with
    | refused kind => rw [kind]; rfl
    | ended kind closed =>
      rw [kind]
      exact ⟨rfl, sound.closed true closed⟩
  · intro index below
    have found : p.files[index]? = some p.files[index] := List.getElem?_eq_getElem below
    have opened := sound.opened _ (List.getElem_mem below)
    refine ⟨fun len got => ?_, fun buf => ?_, ?_, ?_⟩
    · obtain ⟨bytes, round, inner, ran, -⟩ :=
        PipeFile.read_effect opened (sound.side _) p.inner len got
      unfold Pipe.read
      rw [found, Option.bind_eq_bind, Option.bind_some, ran]
      rfl
    · unfold Pipe.write
      rw [found]
      rfl
    · unfold Pipe.clone
      rw [found]
      rfl
    · unfold Pipe.drop
      rw [found]
      rfl

/-- A pipe with a cloned writer, after it is drained and its writers are dropped. -/
theorem first_in_first_out_drained :
    ∃ p : Pipe, Reached p ∧ p.delivered = [1, 2, 3] ∧ p.delivered <+: p.accepted ∧
      p.writeDevice.clones = p.live false := by
  obtain ⟨p, reached, all⟩ : ∃ p, Reached p ∧ p.delivered = [1, 2, 3] :=
    Reachable.exists_of_run rfl [.clone 1, .write 0 [1, 2], .write 2 [3], .drop 0, .drop 1,
      .read 0 2 [], .read 0 2 [], .finishClose false, .read 0 2 []] (by decide +kernel)
  obtain ⟨first, -, -, -, ⟨-, count⟩, -⟩ := first_in_first_out p reached
  exact ⟨p, reached, all, first, count⟩

end Pipe

end Emerald.Devices
