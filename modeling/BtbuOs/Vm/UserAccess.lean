import BtbuOs.Vm.Copy
import BtbuOs.Ipc.Pipe

namespace BtbuOs.Vm

open Machine

/-- A call returns, panics, or goes on with another pass of its loop. -/
inductive Outcome where
  | returned (value : Int)
  | panicked (message : String)
  | goesOn
  deriving DecidableEq

/-- A system call as it accesses the memory of the user. -/
inductive Script where
  | finish (outcome : Outcome)
  | copyout (dstva : BitVec 64) (src : List Byte) (next : Bool → Script)
  | copyin (srcva : BitVec 64) (len : Nat) (next : Option (List Byte) → Script)
  | copyinstr (srcva : BitVec 64) (max : Nat) (next : Option (List Byte) → Script)

namespace Script

def run (m : Memory) (root : Page) : Script → Ram → Except String (Outcome × Ram)
  | .finish outcome, ram => .ok (outcome, ram)
  | .copyout dstva src next, ram => do
      let (done, ram) ← Vm.copyout m root dstva src ram
      (next done).run m root ram
  | .copyin srcva len next, ram => do
      let (bytes, ram) ← Vm.copyin m root srcva len ram
      (next bytes).run m root ram
  | .copyinstr srcva max next, ram => do
      let (bytes, ram) ← Vm.copyinstr m root srcva max ram
      (next bytes).run m root ram

def returns (value : Int) : Script := .finish (.returned value)

/-- A transfer to the user that the call depends on. -/
def store (dstva : BitVec 64) (src : List Byte) (next : Script) : Script :=
  .copyout dstva src fun done => if done then next else returns (-1)

/-- A string that the call depends on. -/
def fetch (srcva : BitVec 64) (max : Nat) (next : List Byte → Script) : Script :=
  .copyinstr srcva max fun bytes =>
    match bytes with
    | none => returns (-1)
    | some bytes => next bytes

/-- The bytes of a word, the lowest one first. -/
def wordBytes (count : Nat) (word : BitVec 64) : List Byte :=
  (List.range count).map fun i => (word >>> (8 * i)).setWidth 8

/-- The macro `MAX_STR_LEN`. -/
def maxStrLen : Nat := 300

def consoleWrite (va len : BitVec 64) : Script :=
  .copyinstr va (min len.toNat maxStrLen) fun _ => returns len.toNat

def consoleRead (va : BitVec 64) (str : List Byte) : Script :=
  .copyout va str fun _ => returns str.length

/-- The macro `CPU_FREQ`. -/
def cpuFreq : BitVec 64 := 12500000

def sysGettimeofday (val cycle : BitVec 64) : Script :=
  .copyout val (wordBytes 8 (cycle / cpuFreq) ++ wordBytes 8 (cycle % cpuFreq * 1000000 / cpuFreq)) fun _ => returns 0

/-- The addresses of the arguments come from `fetchaddr`. -/
def execArgs (result : Int) : List (BitVec 64) → Script
  | [] => returns result
  | arg :: rest => .copyinstr arg maxStrLen fun _ => execArgs result rest

def sysExec (path : BitVec 64) (args : List (BitVec 64)) (result : Int) : Script :=
  .copyinstr path maxStrLen fun _ => execArgs result args

def sysPipe (fdarray : BitVec 64) (fd0 fd1 : BitVec 64) : Script :=
  .store fdarray (wordBytes 4 fd0) (.store (fdarray + 4) (wordBytes 4 fd1) (returns 0))

def sysOpenat (va : BitVec 64) (fileopen : Option (List Byte) → Int) : Script :=
  .copyinstr va 200 fun path => returns (fileopen path)

def sysSpawn (pathVa : BitVec 64) (spawned : List Byte → Int) : Script :=
  .fetch pathVa maxStrLen fun path => returns (spawned path)

def sysLinkat (oldpathVa newpathVa : BitVec 64) (linked : List Byte → List Byte → Int) : Script :=
  .fetch oldpathVa maxStrLen fun oldpath => .fetch newpathVa maxStrLen fun newpath =>
    returns (if oldpath = newpath then -1 else linked oldpath newpath)

def sysUnlinkat (pathVa : BitVec 64) (unlinked : List Byte → Int) : Script :=
  .fetch pathVa maxStrLen fun path => returns (unlinked path)

/-- The fields of `struct Stat` are the device, the inode number, the mode, the number of links and seven words of padding. -/
def statBytes (inum : BitVec 32) (dir : Bool) (nlink : BitVec 16) : List Byte :=
  wordBytes 8 0 ++ wordBytes 8 (inum.setWidth 64) ++ wordBytes 4 (if dir then 0x040000 else 0x100000) ++
    wordBytes 4 (nlink.signExtend 64) ++ List.replicate 56 0

def sysFstat (stVa : BitVec 64) (inum : BitVec 32) (dir : Bool) (nlink : BitVec 16) : Script :=
  .store stVa (statBytes inum dir nlink) (returns 0)

/-- The status is a record of six words of four bytes. -/
def sysNpcGetStatus (stVa : BitVec 64) (status : Option (Fin 6 → BitVec 32)) : Script :=
  match status with
  | none => returns (-1)
  | some words => .store stVa ((List.finRange 6).flatMap fun i => wordBytes 4 ((words i).setWidth 64)) (returns 0)

/-- The number of bytes of the response is cut to the buffer and converted to an unsigned 64-bit number. -/
def chatLen (contentLen respMaxlen : BitVec 32) : BitVec 32 :=
  if contentLen.slt respMaxlen then contentLen else respMaxlen - 1

/-- The response is what kernel memory holds from the address of the content on. -/
def sysNpcAiChat (promptVa respVa : BitVec 64) (respMaxlen : BitVec 32)
    (chat : List Byte → Option (BitVec 32 × (Nat → Byte))) : Script :=
  .fetch promptVa 1024 fun prompt =>
    match chat prompt with
    | none => returns (-1)
    | some (contentLen, content) =>
        let copyLen := (chatLen contentLen respMaxlen).signExtend 64
        .store respVa ((List.range copyLen.toNat).map content)
          (.store (respVa + copyLen) [0] (returns (chatLen contentLen respMaxlen).toInt))

/-- The macro `NPC_MEMORY_L2_SIZE`. -/
def npcMemorySize : Int := 2048

def sysNpcMemorySave (contentVa : BitVec 64) (len : BitVec 32) (saved : List Byte → Int) : Script :=
  if len.toInt ≤ 0 ∨ npcMemorySize ≤ len.toInt then returns (-1)
  else
    .copyin contentVa len.toNat fun content =>
      match content with
      | none => returns (-1)
      | some content => returns (saved content)

def sysNpcMemoryLoad (bufVa : BitVec 64) (loaded : Option (List Byte)) : Script :=
  match loaded with
  | none => returns (-1)
  | some content => .store bufVa (content ++ [0]) (returns content.length)

/-- The macro `BSIZE`. -/
def blockSize : Nat := 1024

/-- The loop of `readi`; the data are what the file holds from the offset on. -/
def readiLoop : Nat → BitVec 64 → Nat → List Byte → Nat → Script
  | 0, _, _, _, tot => returns tot
  | rounds + 1, dst, off, data, tot =>
      if data = [] then returns tot
      else
        let size := min data.length (blockSize - off % blockSize)
        .store dst (data.take size) (readiLoop rounds (dst + BitVec.ofNat 64 size) (off + size) (data.drop size) (tot + size))

def inoderead (va : BitVec 64) (off : Nat) (data : List Byte) : Script := readiLoop data.length va off data 0

/-- The loop of `writei`, which ends at a failure. -/
def writeiLoop : Nat → BitVec 64 → Nat → Nat → Nat → Script
  | 0, _, _, _, tot => returns tot
  | rounds + 1, src, off, n, tot =>
      if n ≤ tot then returns tot
      else
        let size := min (n - tot) (blockSize - off % blockSize)
        .copyin src size fun bytes =>
          match bytes with
          | none => returns tot
          | some _ => writeiLoop rounds (src + BitVec.ofNat 64 size) (off + size) n (tot + size)

def inodewrite (va : BitVec 64) (off n : Nat) : Script := writeiLoop n va off n 0

/-- One pass of the loop in `pipewrite`. -/
def pipewrite (pi : Ipc.Pipe) (addr : BitVec 64) (n w : Nat) : Script :=
  if w < n then
    if pi.readopen = false then returns (-1)
    else if pi.full then .finish .goesOn
    else
      .copyin (addr + BitVec.ofNat 64 w) (Ipc.writeSize pi n w) fun bytes =>
        .finish (if bytes.isNone then .panicked "copyin" else .goesOn)
  else returns w

/-- One pass of the second loop in `piperead`. -/
def piperead (pi : Ipc.Pipe) (addr : BitVec 64) (n r : Nat) (size : Option Nat) : Script :=
  if r < n ∧ size ≠ some 0 then
    if pi.nread = pi.nwrite then returns r
    else
      .copyout (addr + BitVec.ofNat 64 r)
        ((List.range (Ipc.readSize pi n r)).map fun i => (pi.data (pi.nread.toNat % Ipc.pipeSize + i)).toBitVec)
        fun done => .finish (if done then .goesOn else .panicked "copyout")
  else returns r

end Script

/-- The system calls that store results in the memory of the user or load arguments from it. -/
inductive UserCall where
  | consoleWrite (va len : BitVec 64)
  | consoleRead (va : BitVec 64) (str : List Byte)
  | gettimeofday (val cycle : BitVec 64)
  | exec (path : BitVec 64) (args : List (BitVec 64)) (result : Int)
  | pipe (fdarray fd0 fd1 : BitVec 64)
  | openat (va : BitVec 64) (fileopen : Option (List Byte) → Int)
  | spawn (pathVa : BitVec 64) (spawned : List Byte → Int)
  | linkat (oldpathVa newpathVa : BitVec 64) (linked : List Byte → List Byte → Int)
  | unlinkat (pathVa : BitVec 64) (unlinked : List Byte → Int)
  | fstat (stVa : BitVec 64) (inum : BitVec 32) (dir : Bool) (nlink : BitVec 16)
  | npcGetStatus (stVa : BitVec 64) (status : Option (Fin 6 → BitVec 32))
  | npcAiChat (promptVa respVa : BitVec 64) (respMaxlen : BitVec 32)
      (chat : List Byte → Option (BitVec 32 × (Nat → Byte)))
  | npcMemorySave (contentVa : BitVec 64) (len : BitVec 32) (saved : List Byte → Int)
  | npcMemoryLoad (bufVa : BitVec 64) (loaded : Option (List Byte))
  | inoderead (va : BitVec 64) (off : Nat) (data : List Byte)
  | inodewrite (va : BitVec 64) (off n : Nat)
  | pipewrite (pi : Ipc.Pipe) (addr : BitVec 64) (n w : Nat)
  | piperead (pi : Ipc.Pipe) (addr : BitVec 64) (n r : Nat) (size : Option Nat)

def UserCall.script : UserCall → Script
  | .consoleWrite va len => Script.consoleWrite va len
  | .consoleRead va str => Script.consoleRead va str
  | .gettimeofday val cycle => Script.sysGettimeofday val cycle
  | .exec path args result => Script.sysExec path args result
  | .pipe fdarray fd0 fd1 => Script.sysPipe fdarray fd0 fd1
  | .openat va fileopen => Script.sysOpenat va fileopen
  | .spawn pathVa spawned => Script.sysSpawn pathVa spawned
  | .linkat oldpathVa newpathVa linked => Script.sysLinkat oldpathVa newpathVa linked
  | .unlinkat pathVa unlinked => Script.sysUnlinkat pathVa unlinked
  | .fstat stVa inum dir nlink => Script.sysFstat stVa inum dir nlink
  | .npcGetStatus stVa status => Script.sysNpcGetStatus stVa status
  | .npcAiChat promptVa respVa respMaxlen chat => Script.sysNpcAiChat promptVa respVa respMaxlen chat
  | .npcMemorySave contentVa len saved => Script.sysNpcMemorySave contentVa len saved
  | .npcMemoryLoad bufVa loaded => Script.sysNpcMemoryLoad bufVa loaded
  | .inoderead va off data => Script.inoderead va off data
  | .inodewrite va off n => Script.inodewrite va off n
  | .pipewrite pi addr n w => Script.pipewrite pi addr n w
  | .piperead pi addr n r size => Script.piperead pi addr n r size

end BtbuOs.Vm
