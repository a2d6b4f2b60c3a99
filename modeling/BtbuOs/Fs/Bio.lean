import Mathlib.Data.Finset.Card
import Mathlib.Data.Fintype.Card
import BtbuOs.Lib.Links
import BtbuOs.Lib.Machine

namespace BtbuOs.Bio

open Machine

/-- The macro `NBUF`, three times `MAXOPBLOCKS`. -/
abbrev nbuf : Nat := 30

/-- The macro `ROOTDEV`. -/
def rootdev : Nat := 1

/-- A buffer is named by its index in `bcache.buf`. -/
abbrev BufId := Fin nbuf

/-- The fields of `struct buf` without its pointers; `refcnt` is a `uint`. -/
structure Buf (Data : Type) where
  valid : Bool
  dev : Nat
  blockno : Nat
  refcnt : Nat
  data : Data

/-- The buffers, the pointers that link them behind `bcache.head`, and the blocks of the disk. -/
structure Bcache (Data : Type) where
  buf : BufId → Buf Data
  links : Links BufId
  disk : Nat → Data

variable {Data : Type}

namespace Bcache

def setBuf (c : Bcache Data) (b : BufId) (buf : Buf Data) : Bcache Data :=
  { c with buf := Function.update c.buf b buf }

end Bcache

/-- The static buffers are zero and the loop of `binit` links each behind the head. -/
def binit (zero : Data) (disk : Nat → Data) : Bcache Data where
  buf _ := { valid := false, dev := 0, blockno := 0, refcnt := 0, data := zero }
  links := (List.finRange nbuf).foldl Links.insert Links.alone
  disk := disk

/-- The buffer caches the block of the device. -/
def caches (c : Bcache Data) (dev blockno : Nat) (b : BufId) : Bool := (c.buf b).dev = dev ∧ (c.buf b).blockno = blockno

/-- A cached block is shared, and otherwise the least recently used buffer without references is recycled. -/
def bget (c : Bcache Data) (dev blockno : Nat) : Option (BufId × Bcache Data) :=
  match Links.walk c.links.next (caches c dev blockno) nbuf (c.links.next none) with
  | none => none
  | some (some b) => some (b, c.setBuf b { c.buf b with refcnt := ((c.buf b).refcnt + 1) % 2 ^ 32 })
  | some none =>
      match Links.walk c.links.prev (fun b => (c.buf b).refcnt = 0) nbuf (c.links.prev none) with
      | none => none
      | some none => none
      | some (some b) => some (b, c.setBuf b { c.buf b with dev, blockno, valid := false, refcnt := 1 })

/-- The transfer between a buffer and its block on the disk. -/
def virtioDiskRw (c : Bcache Data) (b : BufId) (write : Bool) : Bcache Data :=
  if write then { c with disk := Function.update c.disk (c.buf b).blockno (c.buf b).data }
  else c.setBuf b { c.buf b with data := c.disk (c.buf b).blockno }

/-- A failure is the panic of `bget` or an endless walk. -/
def bread (c : Bcache Data) (dev blockno : Nat) : Option (BufId × Bcache Data) :=
  match bget c dev blockno with
  | none => none
  | some (b, c) =>
      if (c.buf b).valid then some (b, c)
      else
        let c := virtioDiskRw c b false
        some (b, c.setBuf b { c.buf b with valid := true })

def bwrite (c : Bcache Data) (b : BufId) : Bcache Data := virtioDiskRw c b true

/-- The last release moves the buffer to the front of the list. -/
def brelse (c : Bcache Data) (b : BufId) : Bcache Data :=
  let c := c.setBuf b { c.buf b with refcnt := ((c.buf b).refcnt + 2 ^ 32 - 1) % 2 ^ 32 }
  if (c.buf b).refcnt = 0 then { c with links := (c.links.unlink b).insert b } else c

/-- A `bread` that was not released yet: the buffer it returned and the block it was called for. -/
abbrev Hold := BufId × Nat

/-- The callers read, change, write and release buffers of the device `ROOTDEV`. -/
inductive Action (Data : Type) where
  | bread (blockno : Nat)
  | modify (hold : Hold) (data : Data)
  | bwrite (hold : Hold)
  | brelse (hold : Hold)

inductive Event (Data : Type) where
  | read (blockno : Nat) (b : BufId) (data : Data)
  | wrote (blockno : Nat) (data : Data)
  deriving DecidableEq

/-- The cache, the current holds, and the buffers that were changed since their last `bwrite`. -/
structure World (Data : Type) where
  cache : Bcache Data
  holds : List Hold
  changed : BufId → Bool

def start (zero : Data) (disk : Nat → Data) : World Data := ⟨binit zero disk, [], fun _ => false⟩

def step (w : World Data) : Action Data → Option (World Data × List (Event Data))
  | .bread blockno =>
      match bread w.cache rootdev blockno with
      | none => none
      | some (b, cache) =>
          some ({ w with cache, holds := (b, blockno) :: w.holds }, [.read blockno b (cache.buf b).data])
  | .modify hold data =>
      let cache := w.cache.setBuf hold.1 { w.cache.buf hold.1 with data }
      some ({ w with cache, changed := Function.update w.changed hold.1 true }, [])
  | .bwrite hold =>
      some ({ w with cache := bwrite w.cache hold.1, changed := Function.update w.changed hold.1 false },
        [.wrote hold.2 (w.cache.buf hold.1).data])
  | .brelse hold => some ({ w with cache := brelse w.cache hold.1, holds := w.holds.erase hold }, [])

/-- The number of holds of a buffer. -/
def holders (w : World Data) (b : BufId) : Nat := w.holds.countP fun hold => hold.1 = b

/-- At most `NBUF` buffers are held, only held buffers are used, and a changed buffer is written before its last release. -/
def Disciplined (w : World Data) (_ : List (Event Data)) : Action Data → Prop
  | .bread blockno => (insert blockno (w.holds.map Prod.snd).toFinset).card ≤ nbuf
  | .modify hold _ => hold ∈ w.holds
  | .bwrite hold => hold ∈ w.holds
  | .brelse hold => hold ∈ w.holds ∧ (holders w hold.1 = 1 → w.changed hold.1 = false)

/-- The callers are disciplined and no block has more holds than a `uint` counts. -/
def Counted (w : World Data) (trace : List (Event Data)) (action : Action Data) : Prop :=
  Disciplined w trace action ∧
    ∀ blockno, action = .bread blockno → (w.holds.countP fun hold => hold.2 = blockno) + 1 < 2 ^ 32

/-- An array of blocks without a cache. -/
def latest (disk : Nat → Data) (trace : List (Event Data)) : Nat → Data :=
  trace.foldl (fun blocks event =>
    match event with
    | .read .. => blocks
    | .wrote blockno data => Function.update blocks blockno data) disk

end BtbuOs.Bio
