import BtbuOs.Files.Kernel
import BtbuOs.Fs.Refusals
import BtbuOs.Vm.Console

namespace BtbuOs.Files

open Vm (Byte Page userTarget outBytes)

/-- What the calls on descriptors use: the descriptors and the memory of the calling process, the open files with their pipes and inodes, and the console. The bytes on the stack are those that an array starts with. -/
structure Desk where
  files : Fd → Option FileIx
  filepool : FileIx → File
  pipes : Nat → Option Ipc.Pipe
  volume : Fs.State
  memory : Vm.Memory
  root : Page
  ram : Vm.Ram
  stack : Nat → Byte
  typed : Nat → Byte
  shown : List Byte

/-- A call returns, gives up the processor in a pipe, or has used the word behind the descriptors as a file. -/
inductive Outcome where
  | returned (value : BitVec 64) (after : Desk)
  | waits (after : Desk)
  | outside

namespace Desk

def setFile (desk : Desk) (f : FileIx) (file : File) : Desk := { desk with filepool := Function.update desk.filepool f file }

def setPipe (desk : Desk) (page : Nat) (pi : Option Ipc.Pipe) : Desk := { desk with pipes := Function.update desk.pipes page pi }

/-- The pipe on a page; a page that was freed has the bytes of `kfree`. -/
def pipe (desk : Desk) (page : Nat) : Ipc.Pipe := (desk.pipes page).getD Ipc.freedPage

/-- The word `files[fd]`; there is none behind the last descriptor. -/
def word (desk : Desk) (fd : Nat) : Option (Option FileIx) := if inside : fd < fdBufferSize then some (desk.files ⟨fd, inside⟩) else none

/-- The bytes of the user from an address on. -/
def source (desk : Desk) (va : BitVec 64) : Nat → Byte := fun k =>
  match userTarget desk.memory desk.root (va.toNat + k) with
  | none => 0
  | some page => desk.ram.byte page ((va.toNat + k) % 4096)

/-- The first of the bytes from an address on that is not mapped. -/
def room (desk : Desk) (va : BitVec 64) (n : Nat) : Fs.Room :=
  (List.range n).find? fun i => (userTarget desk.memory desk.root (va.toNat + i)).isNone

/-- The loop of `pipewrite` up to its end or to the next `yield`. -/
def pipewriteLoop (page : Nat) (va : BitVec 64) (n : Nat) : Nat → Desk → Nat → Except String Outcome
  | 0, desk, w => .ok (.returned (BitVec.ofNat 64 w) desk)
  | rounds + 1, desk, w =>
      match Ipc.pipewritePass 0 (desk.pipe page) n w fun k => UInt8.ofBitVec (desk.source va k) with
      | (.returns value, _, _) => .ok (.returned (BitVec.ofInt 64 value) desk)
      | (.yields _, _, _) => .ok (.waits desk)
      | (.goesOn _, pi, _) =>
          let size := Ipc.writeSize (desk.pipe page) n w
          if (desk.room (va + BitVec.ofNat 64 w) size).isSome then .error "copyin"
          else pipewriteLoop page va n rounds (desk.setPipe page (some pi)) (w + size)

/-- The length of a transfer of a pipe is an `int`. -/
def pipewrite (desk : Desk) (page : Nat) (va len : BitVec 64) : Except String Outcome :=
  let n := (len.setWidth 32).toInt
  if n ≤ 0 then .error "invalid read num" else pipewriteLoop page va n.toNat (n.toNat + 1) desk 0

/-- The second loop of `piperead`. -/
def pipereadLoop (page : Nat) (va : BitVec 64) (n : Nat) : Nat → Desk → Nat → Option Nat → Except String Outcome
  | 0, desk, r, _ => .ok (.returned (BitVec.ofNat 64 r) desk)
  | rounds + 1, desk, r, size =>
      match Ipc.pipereadPass 0 (desk.pipe page) n r size with
      | (.returns value, _, _) => .ok (.returned (BitVec.ofInt 64 value) desk)
      | (.yields _, _, _) => .ok (.waits desk)
      | (.goesOn _, pi, _) =>
          let size := Ipc.readSize (desk.pipe page) n r
          let chunk := (List.range size).map fun k => ((desk.pipe page).data ((desk.pipe page).nread.toNat % Ipc.pipeSize + k)).toBitVec
          match outBytes desk.memory desk.root (va.toNat + r) chunk desk.ram with
          | (false, _) => .error "copyout"
          | (true, ram) => pipereadLoop page va n rounds { desk.setPipe page (some pi) with ram } (r + size) (some size)

def piperead (desk : Desk) (page : Nat) (va len : BitVec 64) : Except String Outcome :=
  let n := (len.setWidth 32).toInt
  if n ≤ 0 then .error "invalid read num"
  else
    match Ipc.pipewaitPass 0 (desk.pipe page) n.toNat with
    | (.returns value, _, _) => .ok (.returned (BitVec.ofInt 64 value) desk)
    | (.yields _, _, _) => .ok (.waits desk)
    | (.goesOn _, _, _) => pipereadLoop page va n.toNat (n.toNat + 1) desk 0 none

/-- The offset of a file behind a transfer. -/
def advance (desk : Desk) (f : FileIx) (r : Int) : Desk :=
  if r > 0 then desk.setFile f { desk.filepool f with off := ((desk.filepool f).off + r.toNat) % 2 ^ 32 } else desk

variable (sb : Fs.Superblock)

/-- Write data to inode. -/
def inodewrite (desk : Desk) (f : FileIx) (ip : InodeIx) (va len : BitVec 64) : Except String Outcome := do
  let volume ← Fs.ivalid sb desk.volume ip
  let n := len.toNat % 2 ^ 32
  let (r, volume) ← Fs.writei sb volume ip (desk.source va) (desk.room va n) (desk.filepool f).off n
  .ok (.returned (BitVec.ofInt 64 r) ({ desk with volume }.advance f r))

/-- Read data from inode. -/
def inoderead (desk : Desk) (f : FileIx) (ip : InodeIx) (va len : BitVec 64) : Except String Outcome := do
  let volume ← Fs.ivalid sb desk.volume ip
  let n := len.toNat % 2 ^ 32
  let (r, data, volume) ← Fs.readi sb volume ip (desk.room va n) (fun _ => 0) (desk.filepool f).off n
  let (_, ram) := outBytes desk.memory desk.root va.toNat ((List.range (if r < 0 then n else r.toNat)).map data) desk.ram
  .ok (.returned (BitVec.ofInt 64 r) ({ desk with volume, ram }.advance f r))

def sysWrite (desk : Desk) (fd : Int) (va len : BitVec 64) : Except String Outcome :=
  if fd < 0 ∨ fdBufferSize < fd then .ok (.returned (-1) desk)
  else
    match desk.word fd.toNat with
    | none => .ok .outside
    | some none => .ok (.returned (-1) desk)
    | some (some f) =>
        match (desk.filepool f).type with
        | .stdio => do
            let (shown, _, result) ← Vm.consoleWrite desk.memory desk.root desk.ram.byte va len desk.stack
            .ok (.returned result { desk with shown := desk.shown ++ shown })
        | .pipe page => desk.pipewrite page va len
        | .inode ip => inodewrite sb desk f ip va len
        | .none => .error "unknown file type 0\n"

def sysRead (desk : Desk) (fd : Int) (va len : BitVec 64) : Except String Outcome :=
  if fd < 0 ∨ fdBufferSize < fd then .ok (.returned (-1) desk)
  else
    match desk.word fd.toNat with
    | none => .ok .outside
    | some none => .ok (.returned (-1) desk)
    | some (some f) =>
        match (desk.filepool f).type with
        | .stdio => do
            let (ram, result) ← Vm.consoleRead desk.memory desk.root va len desk.typed desk.stack desk.ram
            .ok (.returned result { desk with ram, typed := fun k => desk.typed (len.toNat + k) })
        | .pipe page => desk.piperead page va len
        | .inode ip => inoderead sb desk f ip va len
        | .none => .error "unknown file type 0\n"

def pipeclose (desk : Desk) (page : Nat) (writable : Bool) : Desk :=
  match desk.pipes page with
  | none => desk
  | some pi =>
      let pi := pi.shut writable
      desk.setPipe page (if !pi.readopen && !pi.writeopen then none else some pi)

/-- The last descriptor of a file gives back what the file refers to. -/
def fileclose (desk : Desk) (f : FileIx) : Except String Desk :=
  let file := desk.filepool f
  if file.ref < 1 then .error "fileclose"
  else if 0 < file.ref - 1 then .ok (desk.setFile f { file with ref := file.ref - 1 })
  else
    match file.type with
    | .none => .error "unknown file type 0\n"
    | .stdio => .ok (desk.setFile f closedFile)
    | .pipe page => .ok ((desk.pipeclose page file.writable).setFile f closedFile)
    | .inode ip => do
        let volume ← Fs.iput sb desk.volume ip
        .ok ({ desk with volume }.setFile f closedFile)

def sysClose (desk : Desk) (fd : Int) : Except String Outcome :=
  if fd < 0 ∨ fdBufferSize < fd then .ok (.returned (-1) desk)
  else
    match desk.word fd.toNat with
    | none => .ok .outside
    | some none => .ok (.returned (-1) desk)
    | some (some f) => do
        let desk ← desk.fileclose sb f
        .ok (.returned 0 { desk with files := fun d => if (d.val : Int) = fd then none else desk.files d })

/-- The macros `S_IFDIR` and `S_IFREG`. -/
def sIfdir : Nat := 0x040000
def sIfreg : Nat := 0x100000

/-- The bytes of `struct Stat` for an inode. -/
def stat (inode : Fs.Inode) : List Byte :=
  (List.range 80).map (Bytes.store (Bytes.store (Bytes.store (fun _ => 0) 8 8 inode.inum) 16 4 (if inode.type = Fs.tDir then sIfdir else sIfreg)) 20 4
    inode.nlink)

def sysFstat (desk : Desk) (fd : Int) (stVa : BitVec 64) : Except String Outcome :=
  if fd < 0 ∨ fdBufferSize ≤ fd then .ok (.returned (-1) desk)
  else
    match desk.word fd.toNat with
    | none => .ok .outside
    | some none => .ok (.returned (-1) desk)
    | some (some f) =>
        match (desk.filepool f).type with
        | .inode ip => do
            let volume ← Fs.ivalid sb desk.volume ip
            let (copied, ram) := outBytes desk.memory desk.root stVa.toNat (stat (volume.itable ip)) desk.ram
            .ok (.returned (if copied then 0 else -1) { desk with volume, ram })
        | _ => .ok (.returned (-1) desk)

end Desk

/-- The calls on one descriptor. -/
inductive DescriptorCall where
  | read (fd : Int) (va len : BitVec 64)
  | write (fd : Int) (va len : BitVec 64)
  | close (fd : Int)
  | fstat (fd : Int) (stVa : BitVec 64)

def DescriptorCall.fd : DescriptorCall → Int
  | .read fd _ _ => fd
  | .write fd _ _ => fd
  | .close fd => fd
  | .fstat fd _ => fd

def DescriptorCall.run (sb : Fs.Superblock) (desk : Desk) : DescriptorCall → Except String Outcome
  | .read fd va len => desk.sysRead sb fd va len
  | .write fd va len => desk.sysWrite sb fd va len
  | .close fd => desk.sysClose sb fd
  | .fstat fd stVa => desk.sysFstat sb fd stVa

/-- The descriptors, the open files and the pipes are those of the process in the kernel. -/
structure Views (k : Kernel) (s : Sched.Slot) (desk : Desk) : Prop where
  files : desk.files = (k.pool s).files
  filepool : desk.filepool = k.filepool
  pipes : desk.pipes = k.pipes

section Views

variable {sb : Fs.Superblock} {k : Kernel} {s : Sched.Slot} {desk after : Desk} {f : FileIx}

theorem Views.setFile (views : Views k s desk) (f : FileIx) (file : File) : Views (k.setFile f file) s (desk.setFile f file) :=
  ⟨views.files, by rw [Desk.setFile, Kernel.setFile, views.filepool], views.pipes⟩

theorem Views.pipeclose (views : Views k s desk) (page : Nat) (writable : Bool) :
    Views (Files.pipeclose k page writable) s (desk.pipeclose page writable) := by
  rw [Files.pipeclose, Desk.pipeclose]
  cases found : k.pipes page with
  | none =>
      rw [views.pipes, found]
      exact views
  | some pi =>
      rw [views.pipes, found]
      refine ⟨views.files, views.filepool, ?_⟩
      show Function.update desk.pipes page _ = Function.update k.pipes page _
      rw [views.pipes]
      rfl

/-- Closing a file is the same step in both models. -/
theorem Views.fileclose (views : Views k s desk) (done : desk.fileclose sb f = .ok after) :
    ∃ later, Files.fileclose k f = .ok later ∧ Views later s after := by
  have file : desk.filepool f = k.filepool f := congrFun views.filepool f
  rw [Desk.fileclose, file] at done
  rw [Files.fileclose]
  split at done
  · contradiction
  · rename_i held
    rw [if_neg held]
    split at done
    · rename_i more
      cases done
      rw [if_pos more]
      exact ⟨_, rfl, views.setFile f _⟩
    · rename_i last
      rw [if_neg last]
      obtain ⟨kind, type⟩ : ∃ kind, (k.filepool f).type = kind := ⟨_, rfl⟩
      rw [type] at done ⊢
      cases kind with
      | none => cases done
      | stdio =>
          cases done
          exact ⟨_, rfl, views.setFile f _⟩
      | pipe page =>
          cases done
          exact ⟨_, rfl, (views.pipeclose page _).setFile f _⟩
      | inode ip =>
          obtain ⟨volume, -, rest⟩ := Machine.bind_ok.mp done
          cases rest
          refine ⟨_, rfl, ?_⟩
          have kept : Views (iput (k.pin ip 1) ip) s { desk with volume } := ⟨views.files, views.filepool, views.pipes⟩
          exact kept.setFile f _

/-- A close that returns is the same step in both models. -/
theorem Views.sysClose {fd : Int} {value : BitVec 64} (t : Sync.Tid) (views : Views k s desk)
    (done : desk.sysClose sb fd = .ok (.returned value after)) :
    ∃ later result, Files.sysClose k s t fd = .ok (later, [.returned result]) ∧ value = BitVec.ofInt 64 result ∧ Views later s after := by
  have sixteen : (fdBufferSize : Int) = 16 := rfl
  rw [Desk.sysClose] at done
  rw [Files.sysClose]
  split at done
  · rename_i far
    cases done
    rw [if_pos far]
    exact ⟨_, _, rfl, rfl, views⟩
  · rename_i low
    rw [if_neg low]
    by_cases inside : 0 ≤ fd ∧ fd < fdBufferSize
    · have bound : fd.toNat < fdBufferSize := by omega
      have word : desk.word fd.toNat = some ((k.pool s).files ⟨fd.toNat, bound⟩) := by rw [Desk.word, dif_pos bound, views.files]
      rw [dif_pos inside]
      rw [word] at done
      dsimp only at done ⊢
      split at done
      · contradiction
      · rename_i none
        cases done
        rw [Option.some.injEq] at none
        rw [none]
        exact ⟨_, _, rfl, rfl, views⟩
      · rename_i f held
        rw [Option.some.injEq] at held
        obtain ⟨mid, closed, rest⟩ := Machine.bind_ok.mp done
        cases rest
        obtain ⟨later, same, kept⟩ := views.fileclose closed
        refine ⟨later.setFd s ⟨fd.toNat, by omega⟩ none, 0, ?_, rfl, ?_, kept.filepool, kept.pipes⟩
        · rw [held]
          dsimp only
          rw [same]
          rfl
        · funext d
          show (if (d.val : Int) = fd then none else mid.files d) = ((later.setFd s ⟨fd.toNat, bound⟩ none).pool s).files d
          by_cases own : (d.val : Int) = fd
          · have index : d.val = fd.toNat := by omega
            have place : d = ⟨fd.toNat, bound⟩ := Fin.ext index
            rw [if_pos own, place]
            simp [Kernel.setFd, Kernel.setProcess]
          · have place : ¬(s = s ∧ d = ⟨fd.toNat, bound⟩) := by
              rintro ⟨-, same⟩
              have index : d.val = fd.toNat := congrArg Fin.val same
              omega
            rw [if_neg own, Kernel.setFd_files later s s _ d none place, kept.files]
    · have behind : ¬fd.toNat < fdBufferSize := by omega
      rw [Desk.word, dif_neg behind] at done
      cases done

end Views

end BtbuOs.Files
