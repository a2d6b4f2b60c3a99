import BtbuOs.Lib.Machine
import BtbuOs.Lib.Ring
import Mathlib.Data.BitVec

namespace BtbuOs.Ipc

/-- The macro `PIPESIZE`. -/
def pipeSize : Nat := 512

/-- The counters are unsigned 32-bit numbers and wrap. -/
structure Pipe where
  data : Nat → UInt8
  nread : BitVec 32
  nwrite : BitVec 32
  readopen : Bool
  writeopen : Bool

/-- The page comes from `kalloc`, so the ring starts with arbitrary bytes. -/
def pipealloc (page : Nat → UInt8) : Pipe :=
  { data := page, nread := 0, nwrite := 0, readopen := true, writeopen := true }

/-- `kfree` fills the page with bytes of value one. -/
def freedPage : Pipe :=
  { data := fun _ => 1, nread := 0x01010101, nwrite := 0x01010101, readopen := true, writeopen := true }

/-- The ring is full when the writer is one ring ahead of the reader. -/
def Pipe.full (pi : Pipe) : Bool := pi.nwrite == pi.nread + BitVec.ofNat 32 pipeSize

/-- Every chunk is the minimum of the request, the free space and the rest of the ring. -/
def writeSize (pi : Pipe) (n w : Nat) : Nat :=
  min (min (n - w) (pi.nread + BitVec.ofNat 32 pipeSize - pi.nwrite).toNat)
    (pipeSize - pi.nwrite.toNat % pipeSize)

def readSize (pi : Pipe) (n r : Nat) : Nat :=
  min (min (n - r) (pi.nwrite - pi.nread).toNat) (pipeSize - pi.nread.toNat % pipeSize)

/-- A call in progress keeps the local variables of the source. -/
inductive Call where
  | idle
  | writing (n w : Nat)
  | waiting (n : Nat)
  | reading (n r : Nat) (size : Option Nat)

/-- One pass of a loop goes on, gives up the processor or returns. -/
inductive Pass where
  | goesOn (call : Call)
  | yields (call : Call)
  | returns (value : Int)

inductive Event where
  | stored (thread : Nat) (chunk : List UInt8)
  | delivered (thread : Nat) (chunk : List UInt8)
  | writeReturned (thread : Nat) (value : Int)
  | readReturned (thread : Nat) (value : Int)
  | touchedFreed (thread : Nat)

/-- This is one pass of the loop in `pipewrite`; `source` is the mapped user buffer at `addr`. -/
def pipewritePass (thread : Nat) (pi : Pipe) (n w : Nat) (source : Nat → UInt8) :
    Pass × Pipe × List Event :=
  if w < n then
    if pi.readopen = false then (.returns (-1), pi, [.writeReturned thread (-1)])
    else if pi.full then (.yields (.writing n w), pi, [])
    else
      let size := writeSize pi n w
      let chunk := (List.range size).map fun offset => source (w + offset)
      (.goesOn (.writing n (w + size)),
        { pi with
          data := Ring.blit pi.data (pi.nwrite.toNat % pipeSize) chunk
          nwrite := pi.nwrite + BitVec.ofNat 32 size },
        [.stored thread chunk])
  else (.returns w, pi, [.writeReturned thread w])

/-- This is one pass of the first loop in `piperead`. -/
def pipewaitPass (thread : Nat) (pi : Pipe) (n : Nat) : Pass × Pipe × List Event :=
  if pi.nread = pi.nwrite then
    if pi.writeopen then (.yields (.waiting n), pi, [])
    else (.returns (-1), pi, [.readReturned thread (-1)])
  else (.goesOn (.reading n 0 none), pi, [])

/-- This is one pass of the second loop in `piperead`; `none` is the initial size -1. -/
def pipereadPass (thread : Nat) (pi : Pipe) (n r : Nat) (size : Option Nat) :
    Pass × Pipe × List Event :=
  if r < n ∧ size ≠ some 0 then
    if pi.nread = pi.nwrite then (.returns r, pi, [.readReturned thread r])
    else
      let size := readSize pi n r
      let chunk := (List.range size).map fun offset => pi.data (pi.nread.toNat % pipeSize + offset)
      (.goesOn (.reading n (r + size) (some size)),
        { pi with nread := pi.nread + BitVec.ofNat 32 size },
        [.delivered thread chunk])
  else (.returns r, pi, [.readReturned thread r])

/-- Control leaves the thread `running` only at a yield or at the return of the call. -/
structure System where
  pipe : Pipe
  live : Bool
  calls : Nat → Call
  running : Option Nat

/-- The action `pass` carries the content of the caller's user buffer. -/
inductive Action where
  | pipewrite (thread : Nat) (n : Int)
  | piperead (thread : Nat) (n : Int)
  | resume (thread : Nat)
  | pass (source : Nat → UInt8)
  | pipeclose (writable : Bool)
  | recycle (page : Pipe)

/-- A call enters the pipe through an open file, so the pipe is allocated; `n <= 0` panics. -/
def System.enter (sys : System) (thread : Nat) (n : Int) (call : Call) : Option (System × List Event) :=
  match sys.running, sys.calls thread with
  | none, .idle =>
      if sys.live && 0 < n then
        some ({ sys with calls := Function.update sys.calls thread call, running := some thread }, [])
      else none
  | _, _ => none

/-- The pass of a call follows its control location. -/
def callPass (thread : Nat) (pi : Pipe) (source : Nat → UInt8) : Call → Option (Pass × Pipe × List Event)
  | .idle => none
  | .writing n w => some (pipewritePass thread pi n w source)
  | .waiting n => some (pipewaitPass thread pi n)
  | .reading n r size => some (pipereadPass thread pi n r size)

/-- The outcome of a pass decides whether the thread keeps the processor. -/
def System.settle (sys : System) (thread : Nat) : Pass → System
  | .goesOn call => { sys with calls := Function.update sys.calls thread call }
  | .yields call => { sys with calls := Function.update sys.calls thread call, running := none }
  | .returns _ => { sys with calls := Function.update sys.calls thread .idle, running := none }

/-- The flag of the closed end is cleared. -/
def Pipe.shut (pi : Pipe) (writable : Bool) : Pipe :=
  if writable then { pi with writeopen := false } else { pi with readopen := false }

def Pipe.isOpen (pi : Pipe) (writable : Bool) : Bool :=
  if writable then pi.writeopen else pi.readopen

/-- `fileclose` reaches `pipeclose` once for each end, when the end's last descriptor goes. -/
def System.pipeclose (sys : System) (writable : Bool) : Option (System × List Event) :=
  if sys.running.isNone && sys.live && sys.pipe.isOpen writable then
    if (sys.pipe.shut writable).readopen = false ∧ (sys.pipe.shut writable).writeopen = false then
      some ({ sys with pipe := freedPage, live := false }, [])
    else some ({ sys with pipe := sys.pipe.shut writable }, [])
  else none

def step (sys : System) : Action → Option (System × List Event)
  | .pipewrite thread n => sys.enter thread n (.writing n.toNat 0)
  | .piperead thread n => sys.enter thread n (.waiting n.toNat)
  | .resume thread =>
      match sys.running, sys.calls thread with
      | none, .idle => none
      | none, _ => some ({ sys with running := some thread }, [])
      | some _, _ => none
  | .pass source =>
      match sys.running with
      | none => none
      | some thread =>
          (callPass thread sys.pipe source (sys.calls thread)).map fun (outcome, pi, events) =>
            ({ sys with pipe := pi }.settle thread outcome,
              (if sys.live then [] else [.touchedFreed thread]) ++ events)
  | .pipeclose writable => sys.pipeclose writable
  | .recycle page =>
      if sys.running.isNone && !sys.live then some ({ sys with pipe := page }, []) else none

/-- Every pipe starts in the page that `pipealloc` filled. -/
def Initial (sys : System) : Prop :=
  ∃ page, sys = { pipe := pipealloc page, live := true, calls := fun _ => .idle, running := none }

/-- The runs take the steps in any order. -/
abbrev Reaches : System → List Event → Prop :=
  Machine.Reaches step (fun _ _ _ => True) Initial

/-- The bytes that writers stored, in the order of their chunks. -/
def storedBytes (trace : List Event) : List UInt8 :=
  trace.flatMap fun
    | .stored _ chunk => chunk
    | _ => []

/-- The bytes that readers received, in the order of their chunks. -/
def deliveredBytes (trace : List Event) : List UInt8 :=
  trace.flatMap fun
    | .delivered _ chunk => chunk
    | _ => []

end BtbuOs.Ipc
