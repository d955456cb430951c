
import Emerald.Fs.File
import Emerald.Fs.Fat.Proofs.Coherence

/-!
# Reading lines from regular files

`File::read` of `kernel/src/fs/mod.rs` in `BlockingMode::Line` asks the filesystem for one byte at a
time and moves its position only when the loop is over. A regular file gives it the same byte again
and again, and at the end of the file nothing: only a line that consists of its terminator is read.
-/

namespace Emerald.Fs

/-- What the first calls of `read_file` return to a file that asks for one byte at its position. -/
def fatAnswers (position : Nat) : Nat → Session → List (Answer AccessHelper)
  | 0, _ => []
  | calls + 1, s =>
    match readFile position 1 s with
    | .ok (_, bytes) t => ⟨.ok bytes, t.accessHelper⟩ :: fatAnswers position calls t
    | .error (.err e) t => ⟨.error e, t.accessHelper⟩ :: fatAnswers position calls t
    | .error (.panic _) _ => []

/-- The bytes up to the first terminator and with it, or all of them. -/
def lineOf : List UInt8 → List UInt8
  | [] => []
  | char :: rest => if char = 10 ∨ char = 0 then [char] else char :: lineOf rest

/-- The read returns the line at the position of the file, as far as it fits into the buffer, and
leaves the position after the line. -/
def ReadsLine (contents : Nat → UInt8) (s : Session) (len : Nat)
    (f : File FileNode AccessHelper) : Prop :=
  let line := lineOf (readBytes contents f.position (f.inode.size - f.position))
  ∃ calls g, f.read len (fatAnswers f.position calls s) = .returns (.ok (line.take len), g) ∧
    g.position = f.position + line.length

/-! ## The answers of a regular file -/

/-- An open file of the volume whose chain has room for its size. -/
structure OpenedFile (files : Nat → Prop) (chain : List Nat) (s : Session) : Prop where
  volume : VolumeOk files s.fs
  file : FileOk files chain s.fs s.inode
  positioned : Positioned chain s
  size : s.inode.size < 2 ^ 32
  covered : s.inode.size ≤ chain.length * s.fs.bootSector.bytesPerCluster

section
variable {files : Nat → Prop} {chain : List Nat} {s : Session} {position : Nat}

/-- A read gives the bytes of the file, and leaves everything that the next one rests on. -/
theorem OpenedFile.readFile_byte (opened : OpenedFile files chain s) (small : position < 2 ^ 32) :
    ∃ n t, readFile position 1 s = .ok (n, readBytes (s.fs.fileByte chain) position
        (min 1 (s.inode.size - position))) t ∧
      OpenedFile files chain t ∧ t.inode = s.inode ∧
      t.fs.fileByte chain = s.fs.fileByte chain := by
  have size : wrap32 s.inode.size = s.inode.size := Nat.mod_eq_of_lt opened.size
  obtain ⟨r, t, run, rfl, accessed⟩ := (readFile_returns opened.volume opened.file
    opened.positioned (by rw [size]; exact opened.covered) small 1).exists
  have moved := accessed.moved
  rw [size] at run
  refine ⟨_, t, run, ⟨moved.kept.volume, moved.file opened.file, accessed.positioned, ?_, ?_⟩,
    moved.inode, accessed.content⟩
  · rw [moved.inode]
    exact opened.size
  · rw [moved.inode, moved.kept.bootSector]
    exact opened.covered

/-- Every call gives the same bytes. -/
theorem OpenedFile.fatAnswers_eq (opened : OpenedFile files chain s) (small : position < 2 ^ 32)
    (calls : Nat) : (fatAnswers position calls s).map Answer.result = List.replicate calls
      (.ok (readBytes (s.fs.fileByte chain) position (min 1 (s.inode.size - position)))) := by
  induction calls generalizing s with
  | zero => rfl
  | succ calls ih =>
    obtain ⟨n, t, run, opened', inode, content⟩ := opened.readFile_byte small
    have later := ih opened'
    rw [inode, content] at later
    rw [fatAnswers, run, List.map_cons, later, List.replicate_succ]

theorem fatAnswers_nil (large : 2 ^ 32 ≤ position) (calls : Nat) :
    fatAnswers position calls s = [] := by
  cases calls with
  | zero => rfl
  | succ calls => rw [fatAnswers, readFile_panics large]

end

/-! ## The loop -/

section
variable {len : Nat} {f : File FileNode AccessHelper}

/-- The loop goes on as long as it is given no terminator. -/
theorem readLine_waits {bytes : List UInt8}
    (other : ∀ char, bytes = [char] → ¬ (char = 10 ∨ char = 0))
    {answers : List (Answer AccessHelper)} {calls : Nat}
    (same : answers.map Answer.result = List.replicate calls (.ok bytes)) (buf : List UInt8) :
    f.readLine len answers buf = .waits := by
  induction answers generalizing buf f calls with
  | nil => rfl
  | cons a answers ih =>
    cases calls with
    | zero => cases same
    | succ calls =>
    obtain ⟨here, later⟩ := List.cons.inj same
    unfold File.readLine
    rw [here]
    split
    · rename_i char result
      cases result
      rw [if_neg (other char rfl)]
      exact ih later _
    · exact ih later _
    · rename_i result
      cases result
    · rename_i result
      cases result

/-- A terminator ends the loop, and the position moves by what the buffer took of it. -/
theorem readLine_terminator {char : UInt8} (ends : char = 10 ∨ char = 0) {a : Answer AccessHelper}
    (here : a.result = .ok [char]) (answers : List (Answer AccessHelper)) :
    f.readLine len (a :: answers) [] =
      .returns (.ok ([char].take len), (f.answered a).advance ([char].take len).length) := by
  have taken : (if ([] : List UInt8).length < len then [] ++ [char] else []) = [char].take len := by
    cases len with
    | zero => rfl
    | succ len => simp
  unfold File.readLine
  rw [here]
  dsimp only
  rw [taken, if_pos ends]

theorem read_line (readable : f.fileAccess.read = true) (mode : f.blockingMode = .line)
    (answers : List (Answer AccessHelper)) : f.read len answers = f.readLine len answers [] := by
  unfold File.read
  rw [if_pos readable, mode]

end

namespace Traced
variable {catalogue : List StoredFile} {o : Traced} {id : Nat} {file : OpenFile}
  {f : File FileNode AccessHelper} {len : Nat}

/-- The answers to an open file: the byte at its position, or nothing at the end. -/
theorem fatAnswers_of_reached (reached : Reached catalogue o)
    (found : o.world.files.get? id = some file) {position : Nat} (small : position < 2 ^ 32)
    (calls : Nat) : (fatAnswers position calls (o.world.session file none)).map Answer.result =
      List.replicate calls (.ok (readBytes (o.contents file.inode) position
        (min 1 (file.inode.size - position)))) := by
  have coherent := coherent_of_reached o reached
  obtain ⟨stored, mem, same, ok, positioned⟩ := coherent.session found
  have size := coherent.size stored mem
  have covered := coherent.covered stored mem
  have contents := coherent.contents stored mem
  rw [same] at size covered contents
  have opened : OpenedFile (fileClusters catalogue) stored.chain
      ⟨o.world.fs, file.inode, file.accessHelper⟩ :=
    ⟨coherent.volume, ok, positioned, size, covered⟩
  have bytes : readBytes (o.contents file.inode) position (min 1 (file.inode.size - position)) =
      readBytes (o.world.fs.fileByte stored.chain) position
        (min 1 (file.inode.size - position)) :=
    readBytes_congr fun p _ below => contents p (by omega)
  rw [session_healthy coherent.volume.healthy, bytes]
  exact opened.fatAnswers_eq small calls

/-- A line read returns the line and moves past it exactly if the line is a terminator alone and
the buffer takes it. -/
theorem readsLine_iff (reached : Reached catalogue o) (found : o.world.files.get? id = some file)
    (inode : f.inode = file.inode) (readable : f.fileAccess.read = true)
    (mode : f.blockingMode = .line) (len : Nat) :
    ReadsLine (o.contents file.inode) (o.world.session file none) len f ↔
      0 < len ∧ f.position < file.inode.size ∧
        (o.contents file.inode f.position = 10 ∨ o.contents file.inode f.position = 0) := by
  have size : file.inode.size < 2 ^ 32 := by
    have coherent := coherent_of_reached o reached
    obtain ⟨stored, mem, same, -⟩ := coherent.session found
    exact same ▸ coherent.size stored mem
  unfold ReadsLine
  simp only [inode, read_line readable mode]
  by_cases inside : f.position < file.inode.size
  · have answers := fatAnswers_of_reached reached found (by omega : f.position < 2 ^ 32)
    obtain ⟨rest, more⟩ : ∃ rest, file.inode.size - f.position = rest + 1 :=
      ⟨file.inode.size - f.position - 1, by omega⟩
    rw [more] at answers
    rw [more, readBytes_succ]
    generalize o.contents file.inode = contents at *
    by_cases ends : contents f.position = 10 ∨ contents f.position = 0
    · rw [lineOf, if_pos ends]
      constructor
      · rintro ⟨calls, g, read, moved⟩
        refine ⟨?_, inside, ends⟩
        cases calls with
        | zero => cases read
        | succ calls =>
          obtain ⟨a, later, given, here, -⟩ := List.map_eq_cons_iff.mp (answers (calls + 1))
          rw [given, readLine_terminator ends here] at read
          cases read
          -- a buffer without room takes nothing, and the position stays where it was
          by_contra zero
          have none : len = 0 := by omega
          subst none
          have stays : (f.position + 0) % 2 ^ 64 = f.position + 1 := moved
          omega
      · rintro ⟨pos, -, -⟩
        obtain ⟨a, later, given, here, -⟩ := List.map_eq_cons_iff.mp (answers 1)
        refine ⟨1, _, by rw [given, readLine_terminator ends here], ?_⟩
        show (f.position + ([contents f.position].take len).length) % 2 ^ 64 = f.position + 1
        rw [List.length_take, List.length_singleton]
        omega
    · refine iff_of_false ?_ fun all => ends all.2.2
      rintro ⟨calls, g, read, -⟩
      rw [readLine_waits (by rintro char ⟨⟩; exact ends) (answers calls)] at read
      cases read
  · refine iff_of_false ?_ fun all => inside all.2.1
    rintro ⟨calls, g, read, -⟩
    by_cases small : f.position < 2 ^ 32
    · have answers := fatAnswers_of_reached reached found small calls
      rw [show min 1 (file.inode.size - f.position) = 0 by omega] at answers
      rw [readLine_waits (by simp [readBytes]) answers] at read
      cases read
    · rw [fatAnswers_nil (by omega)] at read
      cases read

/-- A file of the volume below that is open for reading lines. -/
def lineFile (position : Nat) : File FileNode AccessHelper :=
  ⟨smallFile.inode, position, false, .line, AccessHelper.new, ⟨true, false⟩⟩

theorem readsLine_terminator : ∃ o file, Reached [smallFile] o ∧
    ReadsLine (o.contents file.inode) (o.world.session file none) 8 (lineFile 0) := by
  obtain ⟨o, file, reached, found, inode, contents⟩ := reached_twoHandles
  have first := (List.cons.inj contents).1
  refine ⟨o, file, reached, (readsLine_iff reached found inode.symm rfl rfl 8).mpr ?_⟩
  rw [inode]
  exact ⟨by decide, by decide, .inr first⟩

/-- The line that follows, of two bytes, is never returned. -/
theorem line_read_does_not_return : ∃ o file, Reached [smallFile] o ∧
    o.world.files.get? 1 = some file ∧ file.inode.size = 3 ∧
    ¬ ReadsLine (o.contents file.inode) (o.world.session file none) 8 (lineFile 1) ∧
    ∀ calls, (lineFile 1).read 8 (fatAnswers 1 calls (o.world.session file none)) = .waits := by
  obtain ⟨o, file, reached, found, inode, contents⟩ := reached_twoHandles
  have second : o.contents smallFile.inode 1 = 7 :=
    (List.cons.inj (List.cons.inj contents).2).1
  have answers := fatAnswers_of_reached reached found (by decide : 1 < 2 ^ 32)
  rw [inode, show min 1 (smallFile.inode.size - 1) = 0 + 1 by decide, readBytes_succ, second]
    at answers
  have waits : ∀ calls, (lineFile 1).read 8 (fatAnswers 1 calls (o.world.session file none)) =
      .waits := fun calls => readLine_waits (by rintro char ⟨⟩; decide) (answers calls) []
  refine ⟨o, file, reached, found, by rw [inode]; rfl, ?_, waits⟩
  rintro ⟨calls, g, read, -⟩
  cases (waits calls).symm.trans read

end Traced

end Emerald.Fs
