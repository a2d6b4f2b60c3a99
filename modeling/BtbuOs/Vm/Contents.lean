import BtbuOs.Vm.Copy
import BtbuOs.Vm.Touched

namespace BtbuOs.Vm

open Machine Partition
open Sched (Slot)

/-- The bytes of the pages that are no tables; the words of the tables are entries of `Memory`. -/
abbrev Bytes := Page → Nat → Byte

/-- `memset` of one page. -/
def Bytes.memset (b : Bytes) (page : Page) (value : Byte) : Bytes := Function.update b page fun _ => value

/-- `memmove` of one page. -/
def Bytes.memmove (b : Bytes) (dst src : Page) : Bytes := Function.update b dst (b src)

@[simp] theorem Bytes.memset_self (b : Bytes) (page : Page) (value : Byte) (offset : Nat) :
    b.memset page value page offset = value := by
  simp [Bytes.memset]

theorem Bytes.memset_other (b : Bytes) (page : Page) (value : Byte) {other : Page} (different : other ≠ page) :
    b.memset page value other = b other := Function.update_of_ne different ..

@[simp] theorem Bytes.memmove_self (b : Bytes) (dst src : Page) : b.memmove dst src dst = b src := by
  simp [Bytes.memmove]

theorem Bytes.memmove_other (b : Bytes) (dst src : Page) {other : Page} (different : other ≠ dst) :
    b.memmove dst src other = b other := Function.update_of_ne different ..

/-- The page that `kalloc` gives is full of bytes of value five. -/
def kallocBytes (m : Memory) (b : Bytes) : Bytes :=
  match (kalloc m).1 with
  | none => b
  | some page => b.memset page 5

/-- A page that is freed holds the link to the next free page and bytes of value one. -/
def kfreeBytes (m : Memory) (b : Bytes) (page : Page) : Bytes :=
  Function.update b page fun offset =>
    if offset < 8 then BitVec.ofNat 8 (4096 * m.free.headD 0 / 256 ^ offset) else 1

theorem kfreeBytes_other (m : Memory) (b : Bytes) (page : Page) {other : Page} (different : other ≠ page) :
    kfreeBytes m b page other = b other := Function.update_of_ne different ..

variable {l : Layout} {m mid after : Memory} {h : Holding} {s : Slot} {root page : Page} {vpn : Nat} {perm : Perm} {b : Bytes}

theorem kallocBytes_none (alloc : kalloc m = (none, after)) : kallocBytes m b = b := by
  rw [kallocBytes, alloc]

theorem kallocBytes_some (alloc : kalloc m = (some page, after)) : kallocBytes m b = b.memset page 5 := by
  rw [kallocBytes, alloc]

/-- Two page numbers of one address space do not share a page of the user. -/
theorem Sound.distinct (sound : Sound l m h) {first second : Nat} (inside : first < maxVpn) (insideSecond : second < maxVpn)
    (mine : userPage (space m (h.roots s) first) = some page) (same : userPage (space m (h.roots s) second) = some page) :
    first = second := by
  have one : occupant m h (.leaf s (px 0 first) (tablePath first)) = some page := by rw [occupant_leaf rfl]; exact mine
  have two : occupant m h (.leaf s (px 0 second) (tablePath second)) = some page := by rw [occupant_leaf rfl]; exact same
  obtain ⟨_, low, path⟩ := Role.leaf.inj (sound.owned.single _ _ page one two)
  exact px_inj inside insideSecond low path

/-- A page of the user is not free. -/
theorem Sound.user_taken (sound : Sound l m h) (mine : userPage (space m (h.roots s) vpn) = some page) : page ∉ m.free := by
  apply sound.owned.apart (.leaf s (px 0 vpn) (tablePath vpn))
  rw [occupant_leaf rfl]
  exact mine

end BtbuOs.Vm
