import BtbuOs.Files.References

namespace BtbuOs.Files

open Machine RefCount
open Sync (Tid)
open Sched (nproc Slot ProcState)

/-- The value `T_DIR` of an inode's type. -/
def tDir : Nat := 1

/-- The name is written as an entry unless `dirlookup` finds it, and the flag `writes` tells whether the write succeeds. -/
def dirlink (k : Kernel) (taken : Option Entry) (writes : Bool) : Except String (Bool × Kernel) :=
  match taken with
  | some entry => do
      let (i, k) ← iget k entry.inum
      .ok (false, iput k i)
  | none => if writes then .ok (true, k) else .error "dirlink"

/-- The entry that `dirlookup` finds is cleared. -/
def dirunlink (k : Kernel) (found : Option Entry) (writes : Bool) : Except String (Bool × Kernel) :=
  match found with
  | none => .ok (false, k)
  | some entry => do
      let (i, k) ← iget k entry.inum
      if writes then .ok (true, iput k i) else .error "dirunlink"

/-- The flags tell whether both paths are copied and whether they are equal. -/
def sysLinkat (k : Kernel) (copied same : Bool) (found taken : Option Entry) (writes : Bool) :
    Except String (Kernel × List Event) :=
  if !copied || same then .ok (k, [.returned (-1)])
  else do
    let (ip, k) ← namei k found
    match ip, found with
    | some ip, some entry =>
        ivalid entry.type
        if entry.type = tDir then .ok (iput k ip, [.returned (-1)])
        else
          let (dp, k) ← iget k rootino
          let (linked, k) ← dirlink k taken writes
          if linked then .ok (iput (iput k dp) ip, [.returned 0]) else .ok (iput (iput k ip) dp, [.returned (-1)])
    | _, _ => .ok (k, [.returned (-1)])

/-- Both lookups of the path find the same entry, because the directory does not change between them. -/
def sysUnlinkat (k : Kernel) (copied : Bool) (found : Option Entry) (writes : Bool) :
    Except String (Kernel × List Event) :=
  if !copied then .ok (k, [.returned (-1)])
  else do
    let (ip, k) ← namei k found
    match ip, found with
    | some ip, some entry =>
        ivalid entry.type
        if entry.type = tDir then .ok (iput k ip, [.returned (-1)])
        else
          let (dp, k) ← iget k rootino
          let (unlinked, k) ← dirunlink k found writes
          if unlinked then .ok (iput (iput k dp) ip, [.returned 0]) else .ok (iput (iput k ip) dp, [.returned (-1)])
    | _, _ => .ok (k, [.returned (-1)])

/-- The call only reads, and the flag tells whether `copyout` succeeds. -/
def sysFstat (k : Kernel) (s : Slot) (fd : Int) (copied : Bool) : Except String (Kernel × List Event) :=
  if inside : 0 ≤ fd ∧ fd < fdBufferSize then
    match (k.pool s).files ⟨fd.toNat, Sync.index_lt inside⟩ with
    | none => .ok (k, [.returned (-1)])
    | some f =>
        match (k.filepool f).type with
        | .inode _ => .ok (k, [.returned (if copied then 0 else -1)])
        | _ => .ok (k, [.returned (-1)])
  else .ok (k, [.returned (-1)])

/-- `dirls` counts the entries of the root directory and does not give its reference back. -/
def showAllFiles (k : Kernel) (entries : Nat) : Except String (Kernel × List Event) := do
  let (_, k) ← iget k rootino
  .ok (k, [.returned entries])

/-- The calls that use inodes next to those of `Call`. -/
inductive InodeCall where
  | base (call : Call)
  | linkat (copied same : Bool) (found taken : Option Entry) (writes : Bool)
  | unlinkat (copied : Bool) (found : Option Entry) (writes : Bool)
  | fstat (fd : Int) (copied : Bool)
  | showAllFiles (entries : Nat)
  deriving DecidableEq

/-- Thread `t` of process `s` makes a call. -/
structure InodeAction where
  s : Slot
  t : Tid
  call : InodeCall
  deriving DecidableEq

def perform (k : Kernel) (s : Slot) (t : Tid) : InodeCall → Except String (Kernel × List Event)
  | .base call => operate k s t call
  | .linkat copied same found taken writes => sysLinkat k copied same found taken writes
  | .unlinkat copied found writes => sysUnlinkat k copied found writes
  | .fstat fd copied => sysFstat k s fd copied
  | .showAllFiles entries => showAllFiles k entries

/-- The step takes a thread to the end of its call, and the trace lists the calls. -/
def inodeStep (k : Kernel) (action : InodeAction) : Option (Kernel × List InodeAction) :=
  if k.halted then none
  else if (k.fault.map fun task => InodeAction.mk task.1 task.2 (.base (.exit (-1)))).getD action ≠ action then none
  else if (k.pool action.s).state ≠ .used then none
  else some ((settle k (perform k action.s action.t action.call)).1, [action])

/-- The number of open files of an inode. -/
def openFiles (k : Kernel) (i : InodeIx) : Nat :=
  (Finset.univ.filter fun f : FileIx => (k.filepool f).type = .inode i ∧ 0 < (k.filepool f).ref).card

/-- Every reference to an inode belongs to an open file. -/
def References (k : Kernel) : Prop := ∀ i, (k.itable i).ref = openFiles k i

/-- The call gets as far as `namei` or lists the root directory. -/
def Roots : InodeCall → Prop
  | .base (.fileopen _ _ omode) => omode &&& oCreate = 0
  | .base (.exec _ _ _) => True
  | .base (.spawn copied _ _) => copied = true
  | .linkat copied same _ _ _ => copied = true ∧ same = false
  | .unlinkat copied _ _ => copied = true
  | .showAllFiles _ => True
  | _ => False

end BtbuOs.Files
