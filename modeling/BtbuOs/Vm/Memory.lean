import BtbuOs.Lib.Machine
import BtbuOs.Sched.Kernel

namespace BtbuOs.Vm

open Sync (nthread Tid)
open Sched (nproc Slot ProcState)

/-- A physical page is named by its address divided by `PGSIZE`. -/
abbrev Page := Nat

/-- The macro `MAXVA` in pages; a user address is named by its page number. -/
def maxVpn : Nat := 2 ^ 26

/-- The page number of `TRAMPOLINE`. -/
def trampolineVpn : Nat := maxVpn - 1

/-- The page number that `get_thread_trapframe_va` gives. -/
def trapframeVpn (t : Tid) : Nat := maxVpn - 2 - t.val

/-- The link map of the kernel: `kinit` hands out the pages between `ekernel` and `PHYSTOP`. -/
structure Layout where
  ekernel : Page
  phystop : Page
  trampoline : Page
  trapframe : Slot → Tid → Page
  trampoline_lt : trampoline < ekernel
  trapframe_lt : ∀ s t, trapframe s t < ekernel

/-- A machine with a few pages of memory. -/
def smallLayout (pages : Nat) : Layout where
  ekernel := 10000
  phystop := 10000 + pages
  trampoline := 1
  trapframe s t := 2 + nthread * s.val + t.val
  trampoline_lt := by decide
  trapframe_lt s t := by
    have slots : s.val < 128 := s.isLt
    have threads : t.val < 16 := t.isLt
    change 2 + 16 * s.val + t.val < 10000
    omega

/-- The bits `PTE_R`, `PTE_W`, `PTE_X` and `PTE_U`. -/
structure Perm where
  r : Bool
  w : Bool
  x : Bool
  u : Bool
  deriving DecidableEq

/-- A page-table entry; `page` is `PTE2PA` and `valid` is `PTE_V`. -/
structure Pte where
  valid : Bool
  perm : Perm
  page : Page
  deriving DecidableEq

/-- None of the bits is set in an entry that points to a lower table. -/
def noPerm : Perm := { r := false, w := false, x := false, u := false }

/-- A cleared entry is the word 0. -/
def zeroPte : Pte := { valid := false, perm := noPerm, page := 0 }

/-- An entry that points to a lower table is the address of the table with `PTE_V`. -/
def dirPte (page : Page) : Pte := { valid := true, perm := noPerm, page }

/-- The test of `freewalk` for a leaf. -/
def Perm.leaf (perm : Perm) : Bool := perm.r || perm.w || perm.x

/-- The free list and the words of the pages as entries of page tables.
Each `true` among the denials makes one call of `kalloc` return 0. -/
structure Memory where
  free : List Page
  denials : List Bool
  entry : Page → Fin 512 → Pte

/-- The entry that a word of a page shows to a walk. -/
def pteOf (word : Nat) : Pte :=
  { valid := word.testBit 0
    perm := { r := word.testBit 1, w := word.testBit 2, x := word.testBit 3, u := word.testBit 4 }
    page := word / 2 ^ 10 }

namespace Memory

/-- All words of a page are written. -/
def fill (m : Memory) (page : Page) (words : Fin 512 → Pte) : Memory :=
  { m with entry := Function.update m.entry page words }

/-- `memset` with the value 0. -/
def clear (m : Memory) (page : Page) : Memory := m.fill page fun _ => zeroPte

def setEntry (m : Memory) (page : Page) (i : Fin 512) (pte : Pte) : Memory :=
  { m with entry := Function.update m.entry page (Function.update (m.entry page) i pte) }

end Memory

/-- A page that is handed out is full of bytes of value five. -/
def kalloc (m : Memory) : Option Page × Memory :=
  if m.denials.head? = some true then (none, { m with denials := m.denials.tail })
  else
    match m.free with
    | [] => (none, { m with denials := m.denials.tail })
    | page :: rest =>
        (some page, { m with free := rest, denials := m.denials.tail }.fill page fun _ => pteOf 0x0505050505050505)

/-- A page that is freed is full of bytes of value one, but for the link to the next free page. -/
def kfree (l : Layout) (m : Memory) (page : Page) : Except String Memory :=
  if page < l.ekernel ∨ l.phystop ≤ page then .error "kfree"
  else
    .ok ({ m with free := page :: m.free }.fill page fun i =>
      if i = 0 then pteOf (4096 * m.free.headD 0) else pteOf 0x0101010101010101)

/-- The macro `PX`. -/
def px (level vpn : Nat) : Fin 512 := ⟨vpn / 512 ^ level % 512, Nat.mod_lt _ (by decide)⟩

/-- One round of the loop in `walk`. -/
def walkLevel (m : Memory) (table : Page) (i : Fin 512) (alloc : Bool) : Option Page × Memory :=
  if (m.entry table i).valid then (some (m.entry table i).page, m)
  else if !alloc then (none, m)
  else
    match kalloc m with
    | (none, m) => (none, m)
    | (some page, m) => (some page, (m.clear page).setEntry table i (dirPte page))

/-- The result is the lowest table; the entry is at the index `px 0 vpn`. -/
def walk (m : Memory) (root : Page) (vpn : Nat) (alloc : Bool) : Except String (Option Page × Memory) :=
  if maxVpn ≤ vpn then .error "walk"
  else
    match walkLevel m root (px 2 vpn) alloc with
    | (none, m) => .ok (none, m)
    | (some table, m) => .ok (walkLevel m table (px 1 vpn) alloc)

/-- A page number of 0 stands for no address. -/
def walkaddr (m : Memory) (root : Page) (vpn : Nat) : Except String Page :=
  if maxVpn ≤ vpn then .ok 0
  else do
    let (table, _) ← walk m root vpn false
    match table with
    | none => return 0
    | some table =>
        let pte := m.entry table (px 0 vpn)
        return if pte.valid && pte.perm.u then pte.page else 0

/-- One round of the loop in `mappages`; the flag is false when the C function returns -1. -/
def mapPage (m : Memory) (root : Page) (vpn : Nat) (page : Page) (perm : Perm) : Except String (Bool × Memory) := do
  let (table, m) ← walk m root vpn true
  match table with
  | none => return (false, m)
  | some table =>
      if (m.entry table (px 0 vpn)).valid then return (false, m)
      else return (true, m.setEntry table (px 0 vpn) { valid := true, perm, page })

/-- The loop of `mappages`; the first argument counts the pages that remain. -/
def mapRange (root : Page) (perm : Perm) : Nat → Nat → Page → Memory → Except String (Bool × Memory)
  | 0, _, _, m => .ok (true, m)
  | npages + 1, vpn, page, m => do
      let (mapped, m) ← mapPage m root vpn page perm
      if mapped then mapRange root perm npages (vpn + 1) (page + 1) m else return (false, m)

/-- The range reaches from the page of `va` to the page of its last byte. -/
def mappages (m : Memory) (root : Page) (va size pa : Nat) (perm : Perm) : Except String (Bool × Memory) :=
  mapRange root perm ((va + size - 1) / 4096 - va / 4096 + 1) (va / 4096) (pa / 4096) m

/-- The callers in the kernel map one page at an aligned address. -/
theorem mappages_page (m : Memory) (root : Page) (vpn : Nat) (page : Page) (perm : Perm) :
    mappages m root (vpn * 4096) 4096 (page * 4096) perm = mapPage m root vpn page perm := by
  have last : (vpn * 4096 + 4096 - 1) / 4096 = vpn := by
    rw [Nat.add_sub_assoc (by decide), Nat.mul_comm, Nat.mul_add_div (by decide)]
    rfl
  have first : vpn * 4096 / 4096 = vpn := Nat.mul_div_cancel vpn (by decide)
  have place : page * 4096 / 4096 = page := Nat.mul_div_cancel page (by decide)
  rw [mappages, last, first, place, Nat.sub_self, mapRange]
  cases mapPage m root vpn page perm with
  | error message => rfl
  | ok result =>
      obtain ⟨mapped, after⟩ := result
      cases mapped <;> rfl

/-- The first argument counts the pages that remain; what `kalloc` returns is mapped unchecked. -/
def uvmmap (root : Page) (perm : Perm) : Nat → Nat → Memory → Except String (Bool × Memory)
  | 0, _, m => .ok (true, m)
  | npages + 1, vpn, m => do
      let (page, m) := kalloc m
      let (mapped, m) ← mapPage m root vpn (page.getD 0) perm
      if mapped then uvmmap root perm npages (vpn + 1) m else return (false, m)

/-- The loop of `uvmunmap`; the first argument counts the pages that remain. -/
def unmapRange (l : Layout) (root : Page) (doFree : Bool) : Nat → Nat → Memory → Except String Memory
  | 0, _, m => .ok m
  | npages + 1, vpn, m => do
      let (table, _) ← walk m root vpn false
      match table with
      | none => unmapRange l root doFree npages (vpn + 1) m
      | some table =>
          let pte := m.entry table (px 0 vpn)
          let m ←
            if pte.valid then
              if pte.perm = noPerm then .error "uvmunmap: not a leaf"
              else if doFree then kfree l m pte.page
              else .ok m
            else .ok m
          unmapRange l root doFree npages (vpn + 1) (m.setEntry table (px 0 vpn) zeroPte)

def uvmunmap (l : Layout) (m : Memory) (root : Page) (va npages : Nat) (doFree : Bool) : Except String Memory :=
  if va % 4096 ≠ 0 then .error "uvmunmap: not aligned" else unmapRange l root doFree npages (va / 4096) m

/-- The callers in the kernel name an aligned address. -/
theorem uvmunmap_pages (l : Layout) (m : Memory) (root : Page) (vpn npages : Nat) (doFree : Bool) :
    uvmunmap l m root (vpn * 4096) npages doFree = unmapRange l root doFree npages vpn m := by
  rw [uvmunmap, Nat.mul_mod_left, Nat.mul_div_cancel vpn (by decide)]
  rfl

def uvmcreate (l : Layout) (m : Memory) : Except String (Option Page × Memory) :=
  match kalloc m with
  | (none, m) => .ok (none, m)
  | (some root, m) => do
      let (mapped, m) ← mapPage (m.clear root) root trampolineVpn l.trampoline { r := true, w := false, x := true, u := false }
      if mapped then return (some root, m) else .error "mappages fail"

/-- A page table has three levels; the first argument counts the levels that remain. -/
def freewalk (l : Layout) : Nat → Page → Memory → Except String Memory
  | 0, _, _ => .error "freewalk"
  | level + 1, table, m => do
      let m ← (List.finRange 512).foldlM (fun m i => do
        let pte := m.entry table i
        if pte.valid && !pte.perm.leaf then
          let m ← freewalk l level pte.page m
          return m.setEntry table i zeroPte
        else if pte.valid then
          let m ← kfree l m pte.page
          return m.setEntry table i zeroPte
        else return m) m
      kfree l m table

def uvmfree (l : Layout) (m : Memory) (root : Page) (maxPage : Nat) : Except String Memory := do
  let m ← if 0 < maxPage then unmapRange l root true maxPage 0 m else .ok m
  freewalk l 3 root m

/-- What becomes of a call that may touch a missing page table. -/
inductive Attempt where
  | done
  | failed
  | faulted
  deriving DecidableEq

/-- The loop of `uvmcopy`; the first argument counts the pages that remain. -/
def uvmcopy (l : Layout) (old : Page) (new : Option Page) : Nat → Nat → Memory → Except String (Attempt × Memory)
  | 0, _, m => .ok (.done, m)
  | npages + 1, vpn, m => do
      let (table, _) ← walk m old vpn false
      match table with
      | none => uvmcopy l old new npages (vpn + 1) m
      | some table =>
          let pte := m.entry table (px 0 vpn)
          if !pte.valid then uvmcopy l old new npages (vpn + 1) m
          else
            match kalloc m, new with
            | (none, m), none => return (if vpn = 0 then .failed else .faulted, m)
            | (none, m), some root => do
                let m ← unmapRange l root true vpn 0 m
                return (.failed, m)
            | (some _, m), none => return (.faulted, m)
            | (some page, m), some root => do
                let (mapped, m) ← mapPage m root vpn page pte.perm
                if mapped then uvmcopy l old new npages (vpn + 1) m
                else
                  let m ← kfree l m page
                  let m ← unmapRange l root true vpn 0 m
                  return (.failed, m)

end BtbuOs.Vm
