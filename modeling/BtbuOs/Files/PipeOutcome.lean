import BtbuOs.Files.PipeLife
import BtbuOs.Vm.KernelStrings
import BtbuOs.Vm.UserAccess

namespace BtbuOs.Files

open Machine
open Sched (Slot)
open Vm (Byte Page Managed Separate Holding Sound copyout outBytes userBytes userTarget)
open Vm.Script (wordBytes)

/-- What `sys_pipe` uses: the descriptors and the open files, the page allocator with the page tables, and the bytes of the user. -/
structure PipeState where
  kernel : Kernel
  memory : Vm.Memory
  ram : Vm.Ram

/-- What a call of `sys_pipe` leaves: its value, the state, and the indices of its stores to `p->files`. -/
structure PipeAnswer where
  value : Int
  after : PipeState
  stores : List (BitVec 64)

/-- The variables `fd0` and `fd1` are unsigned, so that -1 is the largest number. -/
def fdWord : Option Fd → BitVec 64
  | none => -1
  | some fd => BitVec.ofNat 64 fd.val

/-- The store of `fdalloc`. -/
def fdStore (fd : Option Fd) : List (BitVec 64) := (fd.map fun d => BitVec.ofNat 64 d.val).toList

namespace PipeState

/-- A pipe that `pipeclose` gives up goes back to `kfree`. -/
def fileclose (l : Vm.Layout) (st : PipeState) (f : FileIx) : Except String PipeState := do
  let kernel ← Files.fileclose st.kernel f
  match (st.kernel.filepool f).type with
  | .pipe page =>
      if (st.kernel.pipes page).isSome ∧ (kernel.pipes page).isNone then do
        let memory ← Vm.kfree l st.memory page
        .ok { st with kernel, memory }
      else .ok { st with kernel }
  | _ => .ok { st with kernel }

/-- The two numbers go to the array of the user as `int`s. -/
def copyFds (st : PipeState) (root : Page) (fdarray fd0 fd1 : BitVec 64) : Except String (Bool × Vm.Ram) := do
  let (copied, ram) ← copyout st.memory root fdarray (wordBytes 4 fd0) st.ram
  if copied then copyout st.memory root (fdarray + 4) (wordBytes 4 fd1) ram else .ok (false, ram)

/-- The test `fd0 < 0 || fd1 < 0` of unsigned variables never stops the call. -/
def sysPipe (l : Vm.Layout) (st : PipeState) (s : Slot) (root : Page) (fdarray : BitVec 64) : Except String PipeAnswer :=
  match filealloc st.kernel with
  | none => .ok { value := -1, after := st, stores := [] }
  | some (f0, k) =>
      match filealloc k with
      | none => do
          let st ← { st with kernel := k }.fileclose l f0
          .ok { value := -1, after := st, stores := [] }
      | some (f1, k) =>
          let (page, memory) := Vm.kalloc st.memory
          match pipealloc k f0 f1 page with
          | none => do
              let st ← { st with kernel := k, memory }.fileclose l f0
              let st ← st.fileclose l f1
              .ok { value := -1, after := st, stores := [] }
          | some k => do
              let (fd0, k) := fdalloc k s f0
              let (fd1, k) := fdalloc k s f1
              let (copied, ram) ← { st with memory }.copyFds root fdarray (fdWord fd0) (fdWord fd1)
              if copied then .ok { value := 0, after := { kernel := k, memory, ram }, stores := fdStore fd0 ++ fdStore fd1 }
              else
                let st : PipeState := { kernel := clearFd (clearFd k s fd0) s fd1, memory, ram }
                let st ← st.fileclose l f0
                let st ← st.fileclose l f1
                .ok { value := -1, after := st, stores := fdStore fd0 ++ fdStore fd1 ++ [fdWord fd0, fdWord fd1] }

end PipeState

/-- Two descriptors that were free name the ends of a pipe on a page that was free, and the user sees their numbers. -/
structure Connects (st after : PipeState) (s : Slot) (root : Page) (fdarray : BitVec 64) (first second : Fd) : Prop where
  apart : first ≠ second
  free : (st.kernel.pool s).files first = none ∧ (st.kernel.pool s).files second = none
  others : ∀ d, d ≠ first → d ≠ second → (after.kernel.pool s).files d = (st.kernel.pool s).files d
  ends : ∃ f0 f1 page, page ∈ st.memory.free ∧ after.kernel.pipes page = some (Ipc.pipealloc fun _ => 5) ∧
    (after.kernel.pool s).files first = some f0 ∧ after.kernel.filepool f0 = readEnd (st.kernel.filepool f0) page ∧
    (after.kernel.pool s).files second = some f1 ∧ after.kernel.filepool f1 = writeEnd (st.kernel.filepool f1) page
  shown : userBytes after.memory root fdarray.toNat 8 after.ram = wordBytes 4 (fdWord (some first)) ++ wordBytes 4 (fdWord (some second))

/-- The descriptors, the reference counts of the files and the free pages are as before. -/
structure Restored (st after : PipeState) : Prop where
  files : ∀ r, (after.kernel.pool r).files = (st.kernel.pool r).files
  refs : ∀ f, (after.kernel.filepool f).ref = (st.kernel.filepool f).ref
  free : after.memory.free = st.memory.free

/-- The call returns 0 with a connected pipe or -1 with everything as before, and stores to descriptors only. -/
def AllOrNothing (l : Vm.Layout) (st : PipeState) (s : Slot) (root : Page) (fdarray : BitVec 64) : Prop :=
  ∃ answer, st.sysPipe l s root fdarray = .ok answer ∧ (∀ i ∈ answer.stores, i.toNat < fdBufferSize) ∧
    (answer.value = 0 ∧ (∃ first second, Connects st answer.after s root fdarray first second) ∨
      answer.value = -1 ∧ Restored st answer.after)

/-- No entry of the pool is free, or two of them, a page and two descriptors are. -/
def Stocked (st : PipeState) (s : Slot) : Prop :=
  (∀ f, (st.kernel.filepool f).ref ≠ 0) ∨
    (∃ f g, f ≠ g ∧ (st.kernel.filepool f).ref = 0 ∧ (st.kernel.filepool g).ref = 0) ∧ (Vm.kalloc st.memory).1.isSome ∧
      TwoFree st.kernel s

/-- What the kernel keeps between two calls. -/
structure PipeSound (l : Vm.Layout) (st : PipeState) (h : Holding) (s : Slot) (root : Page) : Prop where
  idle : ∀ f, (st.kernel.filepool f).ref = 0 → (st.kernel.filepool f).type = .none
  unpiped : ∀ page ∈ st.memory.free, st.kernel.pipes page = none
  sound : Sound l st.memory h
  rooted : h.roots s = some root
  empty : h.hand = none

section Outcome

variable {l : Vm.Layout} {st after : PipeState} {h : Holding} {s : Slot} {root page : Page} {fdarray : BitVec 64} {f f0 f1 : FileIx}

theorem filealloc_none {k : Kernel} : filealloc k = none ↔ ∀ f, (k.filepool f).ref ≠ 0 := by
  unfold filealloc
  split
  · rename_i absent
    simp only [List.find?_eq_none, List.mem_finRange, forall_true_left, decide_eq_true_eq] at absent
    simpa using absent
  · rename_i f found
    simp only [reduceCtorEq, false_iff, not_forall, not_not]
    exact ⟨f, by simpa using List.find?_some found⟩

/-- The two numbers are copied out together. -/
theorem copyFds_outcome (st : PipeState) (fdarray : BitVec 64) (separate : Separate st.memory root) (fd0 fd1 : BitVec 64) : ∃ copied ram,
    st.copyFds root fdarray fd0 fd1 = .ok (copied, ram) ∧
      (copied = true → userBytes st.memory root fdarray.toNat 8 ram = wordBytes 4 fd0 ++ wordBytes 4 fd1) ∧
      (copied = false → ∃ i, i < 8 ∧ userTarget st.memory root (fdarray.toNat + i) = none) := by
  have length (word : BitVec 64) : (wordBytes 4 word).length = 4 := by simp [wordBytes]
  rw [PipeState.copyFds, Vm.copyout_bytes]
  cases ran : outBytes st.memory root fdarray.toNat (wordBytes 4 fd0) st.ram with
  | mk done mid =>
      cases done with
      | false =>
          refine ⟨false, mid, rfl, nofun, fun _ => ?_⟩
          by_contra mapped
          push Not at mapped
          have done : (outBytes st.memory root fdarray.toNat (wordBytes 4 fd0) st.ram).1 = true := by
            apply Vm.outBytes_succeeds
            intro i inside
            rw [length] at inside
            exact mapped i (by omega)
          rw [ran] at done
          exact Bool.false_ne_true done
      | true =>
          have near : (fdarray + 4).toNat = fdarray.toNat + 4 := by
            have mapped : userTarget st.memory root (fdarray.toNat + 3) ≠ none := by
              intro unmapped
              have fails : (outBytes st.memory root fdarray.toNat (wordBytes 4 fd0) st.ram).1 = false := by
                apply Vm.outBytes_fails (wordBytes 4 fd0) _ unmapped
                rw [length]
                decide
              rw [ran] at fails
              exact Bool.false_ne_true fails.symm
            obtain ⟨place, mine⟩ := Option.ne_none_iff_exists'.mp mapped
            have low := (Vm.userTarget_some.mp mine).1
            have limit : Vm.maxVpn = 2 ^ 26 := rfl
            have four : (4 : BitVec 64).toNat = 4 := rfl
            rw [BitVec.toNat_add, four]
            omega
          have both : outBytes st.memory root fdarray.toNat (wordBytes 4 fd0 ++ wordBytes 4 fd1) st.ram = _ := Vm.outBytes_append _ _
          rw [ran, if_pos rfl, length] at both
          dsimp only at both
          obtain ⟨copied, last, copies, -, shown, -⟩ :=
            Vm.copyout_exact st.memory root separate fdarray (wordBytes 4 fd0 ++ wordBytes 4 fd1) st.ram
          refine ⟨copied, last, ?_, fun done => ?_, fun failed => ?_⟩
          · show copyout st.memory root (fdarray + 4) (wordBytes 4 fd1) mid = _
            rw [Vm.copyout_bytes, near, ← both, ← Vm.copyout_bytes, copies]
          · have bytes := (shown done).1
            rwa [List.length_append, length, length] at bytes
          · by_contra mapped
            push Not at mapped
            rw [Vm.copyout_bytes, Except.ok.injEq] at copies
            have done : (outBytes st.memory root fdarray.toNat (wordBytes 4 fd0 ++ wordBytes 4 fd1) st.ram).1 = true := by
              apply Vm.outBytes_succeeds
              intro i inside
              rw [List.length_append, length, length] at inside
              exact mapped i inside
            rw [copies, failed] at done
            exact Bool.false_ne_true done

/-- A file without a type cannot be closed. -/
theorem fileclose_idle (type : (st.kernel.filepool f).type = .none) (ref : (st.kernel.filepool f).ref = 1) :
    st.fileclose l f = .error "unknown file type 0\n" := by
  have panics : Files.fileclose st.kernel f = .error "unknown file type 0\n" := by simp [Files.fileclose, type, ref]
  rw [PipeState.fileclose, panics]
  rfl

/-- Closing the two ends of a pipe frees its files and its page. -/
theorem fileclose_both (st : PipeState) {pi : Ipc.Pipe} {file0 file1 : File} (managed : Managed l page) (apart : f1 ≠ f0)
    (read : st.kernel.filepool f0 = readEnd file0 page) (write : st.kernel.filepool f1 = writeEnd file1 page)
    (live : st.kernel.pipes page = some pi) (opened : pi.readopen = true ∧ pi.writeopen = true) :
    ∃ mid after, st.fileclose l f0 = .ok mid ∧ mid.fileclose l f1 = .ok after ∧ after.kernel.pool = st.kernel.pool ∧
      after.kernel.filepool = Function.update (Function.update st.kernel.filepool f0 closedFile) f1 closedFile ∧
      after.memory.free = page :: st.memory.free := by
  have half : Files.fileclose st.kernel f0 =
      .ok ((st.kernel.setPipe page (some { pi with readopen := false })).setFile f0 closedFile) := by
    simp [Files.fileclose, read, readEnd, pipeclose, live, opened.2]
  let mid : PipeState := { st with kernel := (st.kernel.setPipe page (some { pi with readopen := false })).setFile f0 closedFile }
  have first : st.fileclose l f0 = .ok mid := by
    rw [PipeState.fileclose, half, read]
    simp [readEnd, Kernel.setFile, Kernel.setPipe, bind, Except.bind, mid]
  have still : mid.kernel.filepool f1 = writeEnd file1 page := by
    show Function.update st.kernel.filepool f0 closedFile f1 = _
    rw [Function.update_of_ne apart, write]
  have shut : mid.kernel.pipes page = some { pi with readopen := false } := Function.update_self ..
  have rest : Files.fileclose mid.kernel f1 = .ok ((mid.kernel.setPipe page none).setFile f1 closedFile) := by
    simp [Files.fileclose, still, writeEnd, pipeclose, shut]
  obtain ⟨memory, freed, free⟩ : ∃ memory, Vm.kfree l st.memory page = .ok memory ∧ memory.free = page :: st.memory.free := by
    obtain ⟨low, high⟩ := managed
    refine ⟨_, if_neg ?_, rfl⟩
    rw [not_or, Nat.not_lt, Nat.not_le]
    exact ⟨low, high⟩
  refine ⟨mid, { mid with kernel := (mid.kernel.setPipe page none).setFile f1 closedFile, memory }, first, ?_, rfl, rfl, free⟩
  rw [PipeState.fileclose, rest, still]
  simp only [writeEnd, shut, Kernel.setFile, Kernel.setPipe, bind, Except.bind, Function.update_self, Option.isSome_some,
    Option.isNone_none, and_self, if_true]
  rw [show mid.memory = st.memory from rfl, freed]

theorem fileclose_forget (closed : st.fileclose l f = .ok after) : Files.fileclose st.kernel f = .ok after.kernel := by
  obtain ⟨kernel, done, rest⟩ := bind_ok.mp closed
  rw [done]
  split at rest
  · split at rest
    · obtain ⟨memory, -, same⟩ := bind_ok.mp rest
      cases same
      rfl
    · cases rest
      rfl
  · cases rest
    rfl

/-- The call is the one on files with the page and the outcome of the copies that it has. -/
theorem sysPipe_forget {answer : PipeAnswer} (done : st.sysPipe l s root fdarray = .ok answer) : ∃ copied,
    Files.sysPipe st.kernel s (Vm.kalloc st.memory).1 copied = .ok (answer.after.kernel, [.returned answer.value]) := by
  unfold PipeState.sysPipe at done
  unfold Files.sysPipe
  cases alloc0 : filealloc st.kernel with
  | none =>
      rw [alloc0] at done
      cases done
      exact ⟨true, rfl⟩
  | some taken0 =>
      rw [alloc0] at done
      dsimp only at done ⊢
      cases alloc1 : filealloc taken0.2 with
      | none =>
          rw [alloc1] at done
          obtain ⟨closed, first, same⟩ := bind_ok.mp done
          cases same
          exact ⟨true, bind_ok.mpr ⟨closed.kernel, fileclose_forget first, rfl⟩⟩
      | some taken1 =>
          rw [alloc1] at done
          dsimp only at done ⊢
          cases made : pipealloc taken1.2 taken0.1 taken1.1 (Vm.kalloc st.memory).1 with
          | none =>
              rw [made] at done
              obtain ⟨mid, first, rest⟩ := bind_ok.mp done
              obtain ⟨closed, second, same⟩ := bind_ok.mp rest
              cases same
              exact ⟨true, bind_ok.mpr ⟨mid.kernel, fileclose_forget first,
                bind_ok.mpr ⟨closed.kernel, fileclose_forget second, rfl⟩⟩⟩
          | some opened =>
              rw [made] at done
              obtain ⟨⟨copied, ram⟩, -, rest⟩ := bind_ok.mp done
              refine ⟨copied, ?_⟩
              cases copied with
              | true =>
                  cases rest
                  rfl
              | false =>
                  obtain ⟨mid, first, rest⟩ := bind_ok.mp rest
                  obtain ⟨closed, second, same⟩ := bind_ok.mp rest
                  cases same
                  exact bind_ok.mpr ⟨mid.kernel, fileclose_forget first, bind_ok.mpr ⟨closed.kernel, fileclose_forget second, rfl⟩⟩

/-- A call that has two files and a page connects them, or takes everything back when the numbers cannot be copied out. -/
theorem sysPipe_outcome {k0 k1 : Kernel} {memory : Vm.Memory} (fdarray : BitVec 64) (fit : PipeSound l st h s root)
    (alloc0 : filealloc st.kernel = some (f0, k0)) (alloc1 : filealloc k0 = some (f1, k1))
    (allocated : Vm.kalloc st.memory = (some page, memory)) : ∃ opened first second fd0 fd1,
      opened.pool = st.kernel.pool ∧ f1 ≠ f0 ∧ opened.filepool = Function.update (Function.update st.kernel.filepool f0
        (readEnd (st.kernel.filepool f0) page)) f1 (writeEnd (st.kernel.filepool f1) page) ∧
      opened.pipes = Function.update st.kernel.pipes page (some (Ipc.pipealloc fun _ => 5)) ∧
      fdalloc opened s f0 = (fd0, first) ∧ fdalloc first s f1 = (fd1, second) ∧
      ((∃ ram, st.sysPipe l s root fdarray =
          .ok { value := 0, after := { kernel := second, memory, ram }, stores := fdStore fd0 ++ fdStore fd1 } ∧
            userBytes memory root fdarray.toNat 8 ram = wordBytes 4 (fdWord fd0) ++ wordBytes 4 (fdWord fd1)) ∨
        ∃ after, st.sysPipe l s root fdarray =
          .ok { value := -1, after, stores := fdStore fd0 ++ fdStore fd1 ++ [fdWord fd0, fdWord fd1] } ∧ Restored st after ∧
            ∃ i, i < 8 ∧ userTarget memory root (fdarray.toNat + i) = none) := by
  obtain ⟨zero0, rfl⟩ := filealloc_taken alloc0
  obtain ⟨apart, zero1, rfl⟩ := filealloc_second alloc1
  obtain ⟨free, -⟩ := Vm.kalloc_some allocated
  obtain ⟨opened, made⟩ : ∃ opened, pipealloc ((st.kernel.setFile f0 { st.kernel.filepool f0 with ref := 1 }).setFile f1
      { st.kernel.filepool f1 with ref := 1 }) f0 f1 (some page) = some opened := ⟨_, rfl⟩
  obtain ⟨pool, -, filepool, pipes⟩ := pipealloc_made apart made
  cases filled0 : fdalloc opened s f0 with
  | mk fd0 first =>
      cases filled1 : fdalloc first s f1 with
      | mk fd1 second =>
          refine ⟨opened, first, second, fd0, fd1, pool, apart, filepool, pipes, filled0, filled1, ?_⟩
          have separate : Separate memory root := (fit.sound.alloc fit.empty allocated).1.separate fit.rooted
          obtain ⟨copied, ram, copies, shown, unmapped⟩ :=
            copyFds_outcome { st with memory } fdarray separate (fdWord fd0) (fdWord fd1)
          rw [PipeState.sysPipe, alloc0]
          dsimp only
          rw [alloc1]
          dsimp only
          rw [allocated]
          dsimp only
          rw [made]
          dsimp only
          rw [filled0]
          dsimp only
          rw [filled1]
          dsimp only
          rw [copies]
          cases copied with
          | true => exact Or.inl ⟨ram, rfl, shown rfl⟩
          | false =>
              have cleared := clearFd_cleared filled0 filled1
              have managed : Managed l page := fit.sound.owned.freeManaged page (by rw [free]; exact List.mem_cons_self)
              have read : opened.filepool f0 = readEnd (st.kernel.filepool f0) page := by
                rw [filepool, Function.update_of_ne apart.symm, Function.update_self]
              have write : opened.filepool f1 = writeEnd (st.kernel.filepool f1) page := by rw [filepool, Function.update_self]
              have live : opened.pipes page = some (Ipc.pipealloc fun _ => 5) := by rw [pipes, Function.update_self]
              obtain ⟨mid, after, closed0, closed1, same, files, given⟩ :=
                fileclose_both { kernel := clearFd (clearFd second s fd0) s fd1, memory, ram } managed apart
                  (by rw [cleared.same.1, read]) (by rw [cleared.same.1, write]) (by rw [cleared.same.2.1, live]) ⟨rfl, rfl⟩
              refine Or.inr ⟨after, ?_, ⟨fun r => ?_, fun f => ?_, ?_⟩, unmapped rfl⟩
              · exact bind_ok.mpr ⟨(false, ram), rfl, bind_ok.mpr ⟨mid, closed0, bind_ok.mpr ⟨after, closed1, rfl⟩⟩⟩
              · rw [same]
                exact ((cleared.files r).2).trans (by rw [pool])
              · rw [files]
                show (Function.update (Function.update (clearFd (clearFd second s fd0) s fd1).filepool f0 closedFile) f1 closedFile f).ref = _
                rw [cleared.same.1, filepool]
                by_cases last : f = f1
                · rw [last, Function.update_self, zero1]
                  rfl
                · by_cases head : f = f0
                  · rw [head, Function.update_of_ne apart.symm, Function.update_self, zero0]
                    rfl
                  · rw [Function.update_of_ne last, Function.update_of_ne head, Function.update_of_ne last, Function.update_of_ne head]
              · rw [given, free]

theorem setFd_apart {k : Kernel} {d0 d1 : Fd} (distinct : d1 ≠ d0) (f0 f1 : FileIx) :
    (((k.setFd s d0 (some f0)).setFd s d1 (some f1)).pool s).files d0 = some f0 ∧
      (((k.setFd s d0 (some f0)).setFd s d1 (some f1)).pool s).files d1 = some f1 := by
  simp [Kernel.setFd, Kernel.setProcess, distinct.symm]

/-- A call that succeeds has connected two descriptors when it had them. -/
theorem connects_filled {opened second : Kernel} {memory : Vm.Memory} {ram : Vm.Ram} {d0 d1 : Fd}
    (free : page ∈ st.memory.free) (pool : opened.pool = st.kernel.pool) (apart : f1 ≠ f0)
    (filepool : opened.filepool = Function.update (Function.update st.kernel.filepool f0
      (readEnd (st.kernel.filepool f0) page)) f1 (writeEnd (st.kernel.filepool f1) page))
    (pipes : opened.pipes = Function.update st.kernel.pipes page (some (Ipc.pipealloc fun _ => 5)))
    (distinct : d1 ≠ d0) (empty0 : (opened.pool s).files d0 = none) (empty1 : (opened.pool s).files d1 = none)
    (filled : second = (opened.setFd s d0 (some f0)).setFd s d1 (some f1))
    (shown : userBytes memory root fdarray.toNat 8 ram = wordBytes 4 (fdWord (some d0)) ++ wordBytes 4 (fdWord (some d1))) :
    Connects st { kernel := second, memory, ram } s root fdarray d0 d1 := by
  subst filled
  obtain ⟨first, last⟩ := setFd_apart (k := opened) (s := s) distinct f0 f1
  refine ⟨distinct.symm, ⟨?_, ?_⟩, fun d other0 other1 => ?_, ⟨f0, f1, page, free, ?_, first, ?_, last, ?_⟩, shown⟩
  · rw [← pool, empty0]
  · rw [← pool, empty1]
  · show (((opened.setFd s d0 (some f0)).setFd s d1 (some f1)).pool s).files d = _
    rw [Kernel.setFd_files _ _ _ _ _ _ fun same => other1 same.2, Kernel.setFd_files _ _ _ _ _ _ fun same => other0 same.2, pool]
  · show opened.pipes page = _
    rw [pipes, Function.update_self]
  · show opened.filepool f0 = _
    rw [filepool, Function.update_of_ne apart.symm, Function.update_self]
  · show opened.filepool f1 = _
    rw [filepool, Function.update_self]

/-- The only free file is closed without a type. -/
theorem one_file_panics {k0 : Kernel} (fit : PipeSound l st h s root) (alloc0 : filealloc st.kernel = some (f0, k0))
    (alloc1 : filealloc k0 = none) : st.sysPipe l s root fdarray = .error "unknown file type 0\n" := by
  obtain ⟨zero0, taken0⟩ := filealloc_taken alloc0
  rw [PipeState.sysPipe, alloc0]
  dsimp only
  rw [alloc1]
  refine bind_error.mpr (Or.inl (fileclose_idle ?_ ?_))
  · simpa [taken0, Kernel.setFile] using fit.idle f0 zero0
  · simp [taken0, Kernel.setFile]

/-- Without a page the first file is closed without a type. -/
theorem no_page_panics {k0 k1 : Kernel} {memory : Vm.Memory} (fit : PipeSound l st h s root)
    (alloc0 : filealloc st.kernel = some (f0, k0)) (alloc1 : filealloc k0 = some (f1, k1))
    (allocated : Vm.kalloc st.memory = (none, memory)) : st.sysPipe l s root fdarray = .error "unknown file type 0\n" := by
  obtain ⟨zero0, taken0⟩ := filealloc_taken alloc0
  rw [PipeState.sysPipe, alloc0]
  dsimp only
  rw [alloc1]
  dsimp only
  rw [allocated]
  rw [taken0] at alloc1
  obtain ⟨apart, -, taken1⟩ := filealloc_second alloc1
  refine bind_error.mpr (Or.inl (fileclose_idle ?_ ?_))
  · simpa [taken1, Kernel.setFile, apart.symm] using fit.idle f0 zero0
  · simp [taken1, Kernel.setFile, apart.symm]

/-- A panic is neither. -/
theorem panics_neither {message : String} (panics : st.sysPipe l s root fdarray = .error message) :
    ¬AllOrNothing l st s root fdarray := by
  rintro ⟨answer, done, -⟩
  rw [panics] at done
  contradiction

theorem fdWord_small (d : Fd) : (fdWord (some d)).toNat < fdBufferSize := by
  rw [fdWord, BitVec.toNat_ofNat]
  exact Nat.lt_of_le_of_lt (Nat.mod_le _ _) d.isLt

/-- A call with two files and a page is all or nothing exactly when it has two descriptors. -/
theorem two_files_iff {k0 k1 : Kernel} {memory : Vm.Memory} (fit : PipeSound l st h s root)
    (alloc0 : filealloc st.kernel = some (f0, k0)) (alloc1 : filealloc k0 = some (f1, k1))
    (allocated : Vm.kalloc st.memory = (some page, memory)) : AllOrNothing l st s root fdarray ↔ TwoFree st.kernel s := by
  have free : page ∈ st.memory.free := by
    rw [(Vm.kalloc_some allocated).1]
    exact List.mem_cons_self
  obtain ⟨opened, first, second, fd0, fd1, pool, apart, filepool, pipes, filled0, filled1, outcome⟩ :=
    sysPipe_outcome fdarray fit alloc0 alloc1 allocated
  have same : TwoFree opened s ↔ TwoFree st.kernel s := by rw [TwoFree, TwoFree, pool]
  have paired {d0 d1 : Fd} (distinct : d0 ≠ d1) (empty0 : (st.kernel.pool s).files d0 = none)
      (empty1 : (st.kernel.pool s).files d1 = none) : TwoFree st.kernel s := by
    rcases Fin.lt_or_lt_of_ne distinct with order | order
    · exact ⟨d0, d1, order, empty0, empty1⟩
    · exact ⟨d1, d0, order, empty1, empty0⟩
  rcases fdalloc_pair filled0 filled1 with ⟨d0, d1, distinct, empty0, empty1, rfl, rfl, filled⟩ | ⟨few, missing⟩
  · refine ⟨fun _ => paired distinct (pool ▸ empty1) (pool ▸ empty0), fun _ => ?_⟩
    rcases outcome with ⟨ram, done, shown⟩ | ⟨after, done, restored, -⟩
    · refine ⟨_, done, fun i stored => ?_, Or.inl ⟨rfl, d0, d1, ?_⟩⟩
      · have place : i = fdWord (some d0) ∨ i = fdWord (some d1) := by simpa [fdStore, fdWord] using stored
        rcases place with rfl | rfl
        · exact fdWord_small d0
        · exact fdWord_small d1
      · exact connects_filled free pool apart filepool pipes distinct empty0 empty1 filled shown
    · refine ⟨_, done, fun i stored => ?_, Or.inr ⟨rfl, restored⟩⟩
      have place : i = fdWord (some d0) ∨ i = fdWord (some d1) := by
        simp only [fdStore, fdWord, Option.map_some, Option.toList_some, List.cons_append, List.nil_append, List.mem_cons,
          List.not_mem_nil, or_false] at stored ⊢
        tauto
      rcases place with rfl | rfl
      · exact fdWord_small d0
      · exact fdWord_small d1
  · rw [same] at few
    refine ⟨?_, fun two => absurd two few⟩
    rintro ⟨answer, done, inside, result⟩
    exfalso
    rcases outcome with ⟨ram, called, -⟩ | ⟨after, called, -⟩
    · rw [called, Except.ok.injEq] at done
      subst done
      rcases result with ⟨-, d0, d1, connects⟩ | ⟨negative, -⟩
      · exact few (paired connects.apart connects.free.1 connects.free.2)
      · exact absurd (show (0 : Int) = -1 from negative) (by decide)
    · rw [called, Except.ok.injEq] at done
      subst done
      have stored : (-1 : BitVec 64) ∈ fdStore fd0 ++ fdStore fd1 ++ [fdWord fd0, fdWord fd1] := by
        rcases missing with rfl | rfl <;> simp [fdWord]
      exact absurd (inside (-1) stored) (by decide)

/-- The call is all or nothing exactly when no file is free, or two files, a page and two descriptors are. -/
theorem sysPipe_iff (l : Vm.Layout) (st : PipeState) (h : Holding) (s : Slot) (root : Page) (fdarray : BitVec 64)
    (fit : PipeSound l st h s root) : AllOrNothing l st s root fdarray ↔ Stocked st s := by
  cases alloc0 : filealloc st.kernel with
  | none =>
      refine ⟨fun _ => Or.inl (filealloc_none.mp alloc0), fun _ => ⟨{ value := -1, after := st, stores := [] }, ?_, nofun, ?_⟩⟩
      · rw [PipeState.sysPipe, alloc0]
      · exact Or.inr ⟨rfl, fun _ => rfl, fun _ => rfl, rfl⟩
  | some taken0 =>
      obtain ⟨f0, k0⟩ := taken0
      obtain ⟨zero0, taken0⟩ := filealloc_taken alloc0
      have rest (stocked : Stocked st s) : (∃ f g, f ≠ g ∧ (st.kernel.filepool f).ref = 0 ∧ (st.kernel.filepool g).ref = 0) ∧
          (Vm.kalloc st.memory).1.isSome ∧ TwoFree st.kernel s := stocked.resolve_left fun full => full f0 zero0
      cases alloc1 : filealloc k0 with
      | none =>
          refine ⟨fun whole => absurd whole (panics_neither (one_file_panics fit alloc0 alloc1)), fun stocked => ?_⟩
          obtain ⟨⟨f, g, other, free, spare⟩, -⟩ := rest stocked
          have only (f : FileIx) (free : (st.kernel.filepool f).ref = 0) : f = f0 := by
            by_contra apart
            have busy := filealloc_none.mp alloc1 f
            rw [taken0, Kernel.setFile] at busy
            dsimp only at busy
            rw [Function.update_of_ne apart] at busy
            exact busy free
          exact absurd ((only f free).trans (only g spare).symm) other
      | some taken1 =>
          obtain ⟨f1, k1⟩ := taken1
          cases allocated : Vm.kalloc st.memory with
          | mk given memory =>
              cases given with
              | none =>
                  refine ⟨fun whole => absurd whole (panics_neither (no_page_panics fit alloc0 alloc1 allocated)), fun stocked => ?_⟩
                  obtain ⟨-, served, -⟩ := rest stocked
                  rw [allocated] at served
                  contradiction
              | some page =>
                  rw [two_files_iff fit alloc0 alloc1 allocated]
                  refine ⟨fun two => Or.inr ⟨⟨f0, f1, ?_, zero0, ?_⟩, ?_, two⟩, fun stocked => (rest stocked).2.2⟩
                  · rw [taken0] at alloc1
                    exact (filealloc_second alloc1).1.symm
                  · rw [taken0] at alloc1
                    exact (filealloc_second alloc1).2.1
                  · rw [allocated]
                    rfl

end Outcome

/-- The first process opens the file again. -/
def reopen : Action := ⟨0, 0, .fileopen (some ⟨5, tFile⟩) none 0⟩

/-- The first process has opened files until it has no descriptor left. -/
theorem crowded_reached : ∃ k trace, Reaches step (fun _ _ action => action = reopen) Booted k trace ∧ Tidy k ∧
    (∀ page, k.pipes page = none) ∧ (∀ d, (k.pool 0).files d ≠ none) ∧ ∃ f0 k0 f1 k1, filealloc k = some (f0, k0) ∧ filealloc k0 = some (f1, k1) := by
  obtain ⟨k, trace, reached, test⟩ := replay_witness step (fun _ _ action => action = reopen) Booted (List.replicate 13 reopen)
    bootKernel bootKernel_booted (fun k _ => decide (∀ d, (k.pool 0).files d ≠ none) &&
      (filealloc k).any fun first => (filealloc first.2).isSome) (by decide +kernel)
  have kept : Untouched blankKernel k := by
    refine reached.invariant (fun k _ => Untouched blankKernel k) (fun k booted => System.booted_untouched booted) ?_
    intro k trace action after events untouched chosen stepped
    obtain ⟨-, -, settled⟩ := step_cases stepped
    subst chosen
    cases result : operate k reopen.s reopen.t reopen.call with
    | error message =>
        simp only [result, settle, Prod.mk.injEq] at settled
        obtain ⟨rfl, rfl⟩ := settled
        exact ⟨untouched.tidy.same rfl rfl, untouched.pipes⟩
    | ok pair =>
        simp only [result, settle] at settled
        subst settled
        have opened := fileopen_untouched untouched.tidy result
        exact ⟨opened.tidy, opened.pipes.trans untouched.pipes⟩
  rw [Bool.and_eq_true, decide_eq_true_eq, Option.any_eq_true] at test
  obtain ⟨full, ⟨f0, k0⟩, alloc0, more⟩ := test
  obtain ⟨⟨f1, k1⟩, alloc1⟩ := Option.isSome_iff_exists.mp more
  refine ⟨k, trace, reached, kept.tidy, fun page => ?_, full, f0, k0, f1, k1, alloc0, alloc1⟩
  rw [kept.pipes]
  rfl

/-- The first program is loaded, its first page is mapped, and a page is left. -/
theorem paged_reached : ∃ v trace root page memory,
    Reaches (Vm.step (Vm.smallLayout 12)) (fun v _ action => Vm.fed v action = true) (· = Vm.bootKernel (Vm.smallLayout 12)) v trace ∧
      Vm.Kept (Vm.smallLayout 12) v ∧ (v.pool 0).pagetable = some root ∧ Vm.kalloc v.memory = (some page, memory) ∧
      userTarget memory root 0x1000 ≠ none := by
  obtain ⟨v, trace, reached, test⟩ := replay_witness (Vm.step (Vm.smallLayout 12)) (fun v _ action => Vm.fed v action = true)
    (· = Vm.bootKernel (Vm.smallLayout 12)) Vm.loadRun (Vm.bootKernel (Vm.smallLayout 12)) rfl
    (fun v _ => (v.pool 0).pagetable.any fun root => (Vm.kalloc v.memory).1.isSome &&
      (userTarget (Vm.kalloc v.memory).2 root 0x1000).isSome) (by decide +kernel)
  simp only [Option.any_eq_true, Bool.and_eq_true] at test
  obtain ⟨root, rooted, served, mapped⟩ := test
  obtain ⟨page, served⟩ := Option.isSome_iff_exists.mp served
  refine ⟨v, trace, root, page, _, reached, (Vm.reached_kept reached).1, rooted, Prod.ext served rfl, ?_⟩
  intro unmapped
  rw [unmapped] at mapped
  contradiction

theorem sysPipe_iff_crowded : ∃ l st h root, PipeSound l st h 0 root ∧ (AllOrNothing l st 0 root 0x1000#64 ↔ Stocked st 0) := by
  obtain ⟨k, -, -, tidy, unpiped, -, -⟩ := crowded_reached
  obtain ⟨v, -, root, -, -, -, kept, rooted, -, -⟩ := paged_reached
  have fit : PipeSound (Vm.smallLayout 12) ⟨k, v.memory, ⟨fun _ _ => 0, []⟩⟩ v.holding 0 root :=
    ⟨tidy.idle, fun page _ => unpiped page, kept.sound, rooted, rfl⟩
  exact ⟨_, _, _, _, fit, sysPipe_iff _ _ _ 0 root 0x1000#64 fit⟩

/-- A process without a free descriptor calls `pipe`: the call returns 0, and -1 stands in both numbers. When the allocator
has no page, the call panics. -/
theorem pipe_without_descriptors : ∃ k trace v run root ram,
    Reaches step (fun _ _ action => action = reopen) Booted k trace ∧
      Reaches (Vm.step (Vm.smallLayout 12)) (fun v _ action => Vm.fed v action = true) (· = Vm.bootKernel (Vm.smallLayout 12)) v run ∧
      PipeSound (Vm.smallLayout 12) ⟨k, v.memory, ram⟩ v.holding 0 root ∧
      (∃ answer, PipeState.sysPipe (Vm.smallLayout 12) ⟨k, v.memory, ram⟩ 0 root 0x1000#64 = .ok answer ∧ answer.value = 0 ∧
        userBytes answer.after.memory root 0x1000 8 answer.after.ram = List.replicate 8 255) ∧
      ¬AllOrNothing (Vm.smallLayout 12) ⟨k, v.memory, ram⟩ 0 root 0x1000#64 ∧
      PipeState.sysPipe (Vm.smallLayout 12) ⟨k, { v.memory with denials := [true] }, ram⟩ 0 root 0x1000#64 =
        .error "unknown file type 0\n" := by
  obtain ⟨k, trace, reached, tidy, unpiped, full, f0, k0, f1, k1, alloc0, alloc1⟩ := crowded_reached
  obtain ⟨v, run, root, page, memory, ran, kept, rooted, allocated, mapped⟩ := paged_reached
  have fit : PipeSound (Vm.smallLayout 12) ⟨k, v.memory, ⟨fun _ _ => 0, []⟩⟩ v.holding 0 root :=
    ⟨tidy.idle, fun page _ => unpiped page, kept.sound, rooted, rfl⟩
  refine ⟨k, trace, v, run, root, ⟨fun _ _ => 0, []⟩, reached, ran, fit, ?_, ?_, ?_⟩
  · obtain ⟨opened, first, second, fd0, fd1, pool, -, -, -, filled0, filled1, outcome⟩ :=
      sysPipe_outcome 0x1000#64 fit alloc0 alloc1 allocated
    have used (d : Fd) : (opened.pool 0).files d ≠ none := by
      rw [pool]
      exact full d
    rcases fdalloc_filled filled0 with ⟨rfl, rfl, -⟩ | ⟨d, -, free, -⟩
    · rcases fdalloc_filled filled1 with ⟨rfl, rfl, -⟩ | ⟨d, -, free, -⟩
      · rcases outcome with ⟨ram, done, shown⟩ | ⟨after, -, -, i, below, unmapped⟩
        · refine ⟨_, done, rfl, shown.trans ?_⟩
          decide
        · have place : (0x1000#64).toNat + i = 0x1000 + i := rfl
          rw [place, Vm.userTarget_page (show (0x1000 + i) / 4096 = 0x1000 / 4096 by omega)] at unmapped
          exact absurd unmapped mapped
      · exact absurd free (used d)
    · exact absurd free (used d)
  · rw [two_files_iff fit alloc0 alloc1 allocated]
    rintro ⟨d, -, -, free, -⟩
    exact full d free
  · have denied : Sound (Vm.smallLayout 12) { v.memory with denials := [true] } v.holding :=
      kept.sound.congr rfl (Vm.alike_entry (show ({ v.memory with denials := [true] } : Vm.Memory).entry = v.memory.entry from rfl) _)
    have fit : PipeSound (Vm.smallLayout 12) ⟨k, { v.memory with denials := [true] }, ⟨fun _ _ => 0, []⟩⟩ v.holding 0 root :=
      ⟨tidy.idle, fun page _ => unpiped page, denied, rooted, rfl⟩
    exact no_page_panics fit alloc0 alloc1 rfl

end BtbuOs.Files
