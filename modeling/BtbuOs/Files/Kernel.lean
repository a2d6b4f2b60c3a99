import BtbuOs.Lib.Machine
import BtbuOs.Ipc.Pipe
import BtbuOs.Sched.Kernel

namespace BtbuOs.Files

open Sync (Tid)
open Sched (nproc Slot ProcState)

/-- The macro `FD_BUFFER_SIZE`. -/
abbrev fdBufferSize : Nat := 16

/-- The macro `FILEPOOLSIZE`. -/
def filepoolSize : Nat := nproc * fdBufferSize

/-- The macro `NINODE`. -/
abbrev ninode : Nat := 50

/-- The macro `ROOTINO`. -/
def rootino : Nat := 1

/-- The value `T_FILE` of an inode's type. -/
def tFile : Nat := 2

/-- The open modes of `fcntl.h` that `fileopen` tests. -/
def oWronly : Nat := 0x001
def oRdwr : Nat := 0x002
def oCreate : Nat := 0x200

abbrev Fd := Fin fdBufferSize

/-- An open file is named by its index in `filepool`. -/
abbrev FileIx := Fin filepoolSize

/-- A cached inode is named by its index in `itable`. -/
abbrev InodeIx := Fin ninode

/-- The pointers `pipe` and `ip` of a file are read under their own type only, so the type carries them. -/
inductive FileType where
  | none
  | pipe (page : Nat)
  | inode (ip : InodeIx)
  | stdio
  deriving DecidableEq

structure File where
  type : FileType
  ref : Int
  readable : Bool
  writable : Bool
  off : Nat

/-- The entry that `fileclose` leaves behind. -/
def closedFile : File := { type := .none, ref := 0, readable := false, writable := false, off := 0 }

/-- The fields of a cached inode that `iget` and `iput` use; the device is always `ROOTDEV`. -/
structure Inode where
  inum : Nat
  ref : Int

/-- The fields of `struct proc` that the operations on files use. -/
structure Process where
  state : ProcState
  pid : Nat
  parent : Option Slot
  exitCode : Int
  files : Fd → Option FileIx

/-- The ghost field `pins` counts the inode references that kernel code has taken and not given back or put in a file. -/
structure Kernel where
  pool : Slot → Process
  filepool : FileIx → File
  pipes : Nat → Option Ipc.Pipe
  itable : InodeIx → Inode
  pins : InodeIx → Int
  nextPid : Nat
  fault : Option (Slot × Tid)
  halted : Bool

inductive Event where
  | returned (value : Int)
  | reaped (pid : Nat) (code : Int)
  | panicked (message : String)
  deriving DecidableEq

namespace Kernel

def setProcess (k : Kernel) (s : Slot) (p : Process) : Kernel := { k with pool := Function.update k.pool s p }

def setFile (k : Kernel) (f : FileIx) (file : File) : Kernel := { k with filepool := Function.update k.filepool f file }

def setInode (k : Kernel) (i : InodeIx) (inode : Inode) : Kernel := { k with itable := Function.update k.itable i inode }

def setPipe (k : Kernel) (page : Nat) (pi : Option Ipc.Pipe) : Kernel := { k with pipes := Function.update k.pipes page pi }

/-- Kernel code takes or gives back a reference of its own. -/
def pin (k : Kernel) (i : InodeIx) (change : Int) : Kernel :=
  { k with pins := Function.update k.pins i (k.pins i + change) }

def setFd (k : Kernel) (s : Slot) (fd : Fd) (f : Option FileIx) : Kernel :=
  k.setProcess s { k.pool s with files := Function.update (k.pool s).files fd f }

@[simp] theorem setFile_pool (k : Kernel) (f : FileIx) (file : File) : (k.setFile f file).pool = k.pool := rfl

@[simp] theorem setFd_state (k : Kernel) (s r : Slot) (fd : Fd) (f : Option FileIx) :
    ((k.setFd s fd f).pool r).state = (k.pool r).state := by
  by_cases own : r = s
  · subst own
    simp [setFd, setProcess]
  · simp [setFd, setProcess, own]

theorem setFd_files (k : Kernel) (s r : Slot) (fd d : Fd) (f : Option FileIx) (other : ¬(r = s ∧ d = fd)) :
    ((k.setFd s fd f).pool r).files d = (k.pool r).files d := by
  by_cases own : r = s
  · subst own
    have apart : d ≠ fd := fun same => other ⟨rfl, same⟩
    simp [setFd, setProcess, apart]
  · simp [setFd, setProcess, own]

end Kernel

/-- The caller owns the reference that it gets. -/
def iget (k : Kernel) (inum : Nat) : Except String (InodeIx × Kernel) :=
  match (List.finRange ninode).find? fun i => 0 < (k.itable i).ref ∧ (k.itable i).inum = inum with
  | some i => .ok (i, (k.setInode i { k.itable i with ref := (k.itable i).ref + 1 }).pin i 1)
  | none =>
      match (List.finRange ninode).find? fun i => (k.itable i).ref = 0 with
      | none => .error "iget: no inodes"
      | some i => .ok (i, (k.setInode i { inum, ref := 1 }).pin i 1)

/-- The caller gives back a reference that it owns. -/
def iput (k : Kernel) (i : InodeIx) : Kernel :=
  (k.setInode i { k.itable i with ref := (k.itable i).ref - 1 }).pin i (-1)

def pipeclose (k : Kernel) (page : Nat) (writable : Bool) : Kernel :=
  match k.pipes page with
  | none => k
  | some pi =>
      let pi := if writable then { pi with writeopen := false } else { pi with readopen := false }
      k.setPipe page (if !pi.readopen && !pi.writeopen then none else some pi)

/-- The file's reference to its inode goes back to the kernel code that drops it. -/
def fileclose (k : Kernel) (f : FileIx) : Except String Kernel :=
  let file := k.filepool f
  if file.ref < 1 then .error "fileclose"
  else if 0 < file.ref - 1 then .ok (k.setFile f { file with ref := file.ref - 1 })
  else
    match file.type with
    | .none => .error "unknown file type 0\n"
    | .stdio => .ok (k.setFile f closedFile)
    | .pipe page => .ok ((pipeclose k page file.writable).setFile f closedFile)
    | .inode i => .ok ((iput (k.pin i 1) i).setFile f closedFile)

/-- The scan of the pool is evaluated by the kernel only. -/
@[irreducible] def filealloc (k : Kernel) : Option (FileIx × Kernel) :=
  match (List.finRange filepoolSize).find? fun f => (k.filepool f).ref = 0 with
  | none => none
  | some f => some (f, k.setFile f { k.filepool f with ref := 1 })

/-- Without a free descriptor the result is -1, which is `none` here. -/
def fdalloc (k : Kernel) (s : Slot) (f : FileIx) : Option Fd × Kernel :=
  match (List.finRange fdBufferSize).find? fun fd => (k.pool s).files fd = none with
  | none => (none, k)
  | some fd => (some fd, k.setFd s fd (some f))

/-- A full pool makes the function write through NULL. -/
def stdioInit (k : Kernel) (fd : Fd) : Option (FileIx × Kernel) :=
  match filealloc k with
  | none => none
  | some (f, k) =>
      some (f, k.setFile f { k.filepool f with
        type := .stdio, ref := 1, readable := fd = 0 ∨ fd = 2, writable := fd = 1 ∨ fd = 2 })

/-- The loop of `init_stdio` over the remaining descriptors; the flag is false when it faulted. -/
def initStdioFrom (s : Slot) : List Fd → Kernel → Bool × Kernel
  | [], k => (true, k)
  | fd :: rest, k =>
      if (k.pool s).files fd ≠ none then (true, k)
      else
        match stdioInit k fd with
        | none => (false, k)
        | some (f, k) => initStdioFrom s rest (k.setFd s fd (some f))

def initStdio (k : Kernel) (s : Slot) : Bool × Kernel := initStdioFrom s [0, 1, 2] k

def allocproc (k : Kernel) : Option (Slot × Kernel) :=
  match (List.finRange nproc).find? fun s => (k.pool s).state = .unused with
  | none => none
  | some s =>
      some (s, { k.setProcess s { state := .used, pid := k.nextPid, parent := none, exitCode := 0, files := fun _ => none } with
        nextPid := k.nextPid + 1 })

/-- The rounds of the loop in `freeproc`, which starts at 0 and goes on while `i > FD_BUFFER_SIZE`. -/
def closeRounds : List Fd := (List.finRange fdBufferSize).takeWhile fun i => fdBufferSize < i.val

def freeproc (k : Kernel) (s : Slot) : Except String Kernel := do
  let k ← closeRounds.foldlM (fun k i =>
    match (k.pool s).files i with
    | none => .ok k
    | some f => fileclose k f) k
  .ok (k.setProcess s { k.pool s with state := .unused })

/-- The loop that copies descriptors of a process to a new one. -/
def shareFiles (s np : Slot) : List Fd → Kernel → Kernel
  | [], k => k
  | fd :: rest, k =>
      match (k.pool s).files fd with
      | none => shareFiles s np rest k
      | some f =>
          shareFiles s np rest
            ((k.setFile f { k.filepool f with ref := (k.filepool f).ref + 1 }).setFd np fd (some f))

/-- What memory management does during a call: it succeeds, it panics, or it faults on a missing page table. -/
inductive Memory where
  | enough
  | panics (message : String)
  | faults
  deriving DecidableEq

/-- What `dirlookup` finds on the disk. -/
structure Entry where
  inum : Nat
  type : Nat
  deriving DecidableEq

def setParent (k : Kernel) (np s : Slot) : Kernel := k.setProcess np { k.pool np with parent := some s }

def fork (k : Kernel) (s : Slot) (t : Tid) (memory : Memory) : Except String (Kernel × List Event) :=
  match allocproc k with
  | none => .error "allocproc\n"
  | some (np, k) =>
      match memory with
      | .panics message => .error message
      | .faults => .ok ({ k with fault := some (s, t) }, [])
      | .enough =>
          let k := setParent (shareFiles s np (List.finRange fdBufferSize) k) np s
          .ok (k, [.returned (k.pool np).pid])

/-- The reference to the root directory is never given back. -/
def namei (k : Kernel) (found : Option Entry) : Except String (Option InodeIx × Kernel) := do
  let (_, k) ← iget k rootino
  match found with
  | none => .ok (none, k)
  | some entry =>
      let (i, k) ← iget k entry.inum
      .ok (some i, k)

/-- The flag `copied` tells whether `copyinstr` succeeds. -/
def sysSpawn (k : Kernel) (s : Slot) (t : Tid) (copied : Bool) (found : Option Entry) (memory : Memory) :
    Except String (Kernel × List Event) :=
  if !copied then .ok (k, [.returned (-1)])
  else do
    let (ip, k) ← namei k found
    match ip with
    | none => .ok (k, [.returned (-1)])
    | some i =>
        match allocproc k with
        | none => .ok (iput k i, [.returned (-1)])
        | some (np, k) =>
            let (through, k) := initStdio (setParent k np s) np
            if !through then .ok ({ k with fault := some (s, t) }, [])
            else
              let k := shareFiles s np ((List.finRange fdBufferSize).drop 3) k
              match memory with
              | .panics message => .error message
              | .faults => .ok ({ k with fault := some (s, t) }, [])
              | .enough => .ok (iput k i, [.returned (k.pool np).pid])

/-- The flag `loads` tells whether `bin_loader` and `push_argv` return; they panic otherwise. -/
def exec (k : Kernel) (found : Option Entry) (loads : Bool) (argc : Nat) : Except String (Kernel × List Event) := do
  let (ip, k) ← namei k found
  match ip with
  | none => .ok (k, [.returned (-1)])
  | some i => if loads then .ok (iput k i, [.returned argc]) else .error "..."

def ivalid (type : Nat) : Except String Unit := if type = 0 then .error "ivalid: no type" else .ok ()

/-- A new inode has the number `fresh`, and `ialloc` panics without one. -/
def create (k : Kernel) (found : Option Entry) (fresh : Option Nat) : Except String (Option InodeIx × Kernel) := do
  let (dp, k) ← iget k rootino
  match found with
  | some entry =>
      let (i, k) ← iget k entry.inum
      let k := iput k dp
      ivalid entry.type
      if entry.type = tFile then .ok (some i, k) else .ok (none, iput k i)
  | none =>
      match fresh with
      | none => .error "ialloc: no inodes"
      | some inum =>
          let (i, k) ← iget k inum
          .ok (some i, iput k dp)

/-- The inode of the path when it exists is a regular file. -/
def openInode (k : Kernel) (found : Option Entry) (fresh : Option Nat) (omode : Nat) :
    Except String (Option InodeIx × Kernel) :=
  if omode &&& oCreate ≠ 0 then create k found fresh
  else do
    let (ip, k) ← namei k found
    match found with
    | none => .ok (ip, k)
    | some entry =>
        ivalid entry.type
        if entry.type ≠ tFile then .error "unsupported file inode type\n" else .ok (ip, k)

def fileopen (k : Kernel) (s : Slot) (found : Option Entry) (fresh : Option Nat) (omode : Nat) :
    Except String (Kernel × List Event) := do
  let (ip, k) ← openInode k found fresh omode
  match ip with
  | none => .ok (k, [.returned (-1)])
  | some i =>
      match filealloc k with
      | none => .ok (iput k i, [.returned (-1)])
      | some (f, k) =>
          match fdalloc k s f with
          | (none, k) =>
              let k ← fileclose k f
              .ok (iput k i, [.returned (-1)])
          | (some fd, k) =>
              let file : File := { k.filepool f with
                type := .inode i
                off := 0
                readable := omode &&& oWronly = 0
                writable := omode &&& oWronly ≠ 0 ∨ omode &&& oRdwr ≠ 0 }
              .ok ((k.setFile f file).pin i (-1), [.returned fd.val])

/-- The page comes from `kalloc`, which fills it with bytes of value five. -/
def pipealloc (k : Kernel) (f0 f1 : FileIx) (page : Option Nat) : Option Kernel :=
  match page with
  | none => none
  | some page =>
      let k := k.setPipe page (some (Ipc.pipealloc fun _ => 5))
      let k := k.setFile f0 { k.filepool f0 with type := .pipe page, readable := true, writable := false }
      some (k.setFile f1 { k.filepool f1 with type := .pipe page, readable := false, writable := true })

/-- The place in front of `files` is the field `exit_code`, which the descriptor -1 names. -/
def clearFd (k : Kernel) (s : Slot) : Option Fd → Kernel
  | none => k.setProcess s { k.pool s with exitCode := 0 }
  | some fd => k.setFd s fd none

/-- The descriptors are unsigned, so the test `fd0 < 0 || fd1 < 0` never stops the call. -/
def sysPipe (k : Kernel) (s : Slot) (page : Option Nat) (copied : Bool) : Except String (Kernel × List Event) :=
  match filealloc k with
  | none => .ok (k, [.returned (-1)])
  | some (f0, k) =>
      match filealloc k with
      | none => do
          let k ← fileclose k f0
          .ok (k, [.returned (-1)])
      | some (f1, k) =>
          match pipealloc k f0 f1 page with
          | none => do
              let k ← fileclose k f0
              let k ← fileclose k f1
              .ok (k, [.returned (-1)])
          | some k =>
              let (fd0, k) := fdalloc k s f0
              let (fd1, k) := fdalloc k s f1
              if copied then .ok (k, [.returned 0])
              else do
                let k := clearFd (clearFd k s fd0) s fd1
                let k ← fileclose k f0
                let k ← fileclose k f1
                .ok (k, [.returned (-1)])

/-- The descriptor 16 passes the test, and the word behind `files` is no address, so the kernel faults. -/
def sysClose (k : Kernel) (s : Slot) (t : Tid) (fd : Int) : Except String (Kernel × List Event) :=
  if fd < 0 ∨ fdBufferSize < fd then .ok (k, [.returned (-1)])
  else if inside : 0 ≤ fd ∧ fd < fdBufferSize then
    let fd : Fd := ⟨fd.toNat, Sync.index_lt inside⟩
    match (k.pool s).files fd with
    | none => .ok (k, [.returned (-1)])
    | some f => do
        let k ← fileclose k f
        .ok (k.setFd s fd none, [.returned 0])
  else .ok ({ k with fault := some (s, t) }, [])

def isChild (k : Kernel) (s : Slot) (pid : Int) (np : Slot) : Bool :=
  (k.pool np).state ≠ .unused && (k.pool np).parent == some s && (pid ≤ 0 || (k.pool np).pid == pid)

/-- One round of `wait`; a caller that gives up the processor gets no answer, and an unmapped `code` faults. -/
def wait (k : Kernel) (s : Slot) (t : Tid) (pid : Int) (mapped : Bool) : Kernel × List Event :=
  match (List.finRange nproc).find? fun np => isChild k s pid np && (k.pool np).state == .zombie with
  | some np =>
      let after := k.setProcess np { k.pool np with state := .unused }
      if mapped then (after, [.reaped (k.pool np).pid (k.pool np).exitCode, .returned (k.pool np).pid])
      else ({ after with fault := some (s, t) }, [])
  | none => if (List.finRange nproc).any (isChild k s pid) then (k, []) else (k, [.returned (-1)])

def exit (k : Kernel) (s : Slot) (t : Tid) (code : Int) : Except String Kernel := do
  if t = 0 then
    let k ← freeproc (k.setProcess s { k.pool s with exitCode := code }) s
    let k := if (k.pool s).parent.isSome then k.setProcess s { k.pool s with state := .zombie } else k
    .ok { k with
      pool := fun np => { k.pool np with parent := if (k.pool np).parent = some s then none else (k.pool np).parent } }
  else .ok k

/-- The calls with the outcomes that other parts of the kernel decide. -/
inductive Call where
  | fork (memory : Memory)
  | spawn (copied : Bool) (found : Option Entry) (memory : Memory)
  | exec (found : Option Entry) (loads : Bool) (argc : Nat)
  | fileopen (found : Option Entry) (fresh : Option Nat) (omode : Nat)
  | pipe (page : Option Nat) (copied : Bool)
  | close (fd : Int)
  | wait (pid : Int) (mapped : Bool)
  | exit (code : Int)
  deriving DecidableEq

/-- Thread `t` of process `s` makes a call. -/
structure Action where
  s : Slot
  t : Tid
  call : Call
  deriving DecidableEq

def operate (k : Kernel) (s : Slot) (t : Tid) : Call → Except String (Kernel × List Event)
  | .fork memory => fork k s t memory
  | .spawn copied found memory => sysSpawn k s t copied found memory
  | .exec found loads argc => exec k found loads argc
  | .fileopen found fresh omode => fileopen k s found fresh omode
  | .pipe page copied => sysPipe k s page copied
  | .close fd => sysClose k s t fd
  | .wait pid mapped => .ok (wait k s t pid mapped)
  | .exit code => do
      let k ← exit { k with fault := none } s t code
      .ok (k, [])

/-- A panic halts the kernel. -/
def settle (k : Kernel) : Except String (Kernel × List Event) → Kernel × List Event
  | .ok result => result
  | .error message => ({ k with halted := true }, [.panicked message])

/-- The allocator never hands out the page of a pipe in use. -/
def Offered (k : Kernel) : Call → Prop
  | .pipe (some page) _ => (k.pipes page).isNone
  | _ => True

instance (k : Kernel) : (call : Call) → Decidable (Offered k call)
  | .pipe (some _) _ => inferInstanceAs (Decidable (_ = _))
  | .pipe none _ | .fork _ | .spawn _ _ _ | .exec _ _ _ | .fileopen _ _ _ | .close _ | .wait _ _ | .exit _ =>
      inferInstanceAs (Decidable True)

/-- A thread that faulted in the kernel makes `exit(-1)` next; otherwise any thread of a process in use runs. -/
def step (k : Kernel) (action : Action) : Option (Kernel × List Event) :=
  if k.halted then none
  else if (k.fault.map fun task => Action.mk task.1 task.2 (.exit (-1))).getD action ≠ action then none
  else if (k.pool action.s).state ≠ .used ∨ ¬Offered k action.call then none
  else some (settle k (operate k action.s action.t action.call))

/-- Nothing is open and no process exists before `load_init_app`. -/
def blankKernel : Kernel where
  pool _ := { state := .unused, pid := 0, parent := none, exitCode := 0, files := fun _ => none }
  filepool _ := closedFile
  pipes _ := none
  itable _ := { inum := 0, ref := 0 }
  pins _ := 0
  nextPid := 1
  fault := none
  halted := false

/-- The first process gets its descriptors, and its program is read from an inode. -/
def loadInitApp (entry : Entry) : Option Kernel :=
  match allocproc blankKernel with
  | none => none
  | some (s, k) =>
      match namei (initStdio k s).2 (some entry) with
      | .ok (some i, k) => some (iput k i)
      | _ => none

/-- The kernel has started its first program. -/
def Booted (k : Kernel) : Prop := ∃ entry, loadInitApp entry = some k

end BtbuOs.Files
