import BtbuOs.Vm.Memory

namespace BtbuOs.Vm

open Sync (nthread Tid ThreadState)
open Sched (nproc Slot ProcState)

/-- The fields of `struct proc` that memory management uses; addresses are page numbers. -/
structure Process where
  state : ProcState
  parent : Option Slot
  pagetable : Option Page
  maxPage : Nat
  ustackBase : Nat
  threads : Tid → ThreadState

/-- A kernel object is a page table of the kernel, a pipe or a network buffer. -/
structure Kernel where
  memory : Memory
  pool : Slot → Process
  objects : Nat → Option Page
  fault : Option (Slot × Tid)
  halted : Bool

/-- The contents of user pages are no part of the state: the events `loaded` and `stored` name the byte of a page that a
call returns or writes, and `counted` the counter that it returns. -/
inductive Event where
  | returned (value : Int)
  | loaded (page : Page) (offset : Nat)
  | stored (page : Page) (offset : Nat) (data : BitVec 8)
  | counted (id : Nat)
  | panicked (message : String)
  deriving DecidableEq

namespace Kernel

def setProcess (k : Kernel) (s : Slot) (p : Process) : Kernel := { k with pool := Function.update k.pool s p }

def setThread (k : Kernel) (s : Slot) (t : Tid) (state : ThreadState) : Kernel :=
  k.setProcess s { k.pool s with threads := Function.update (k.pool s).threads t state }

end Kernel

/-- The test of `freeproc` for a thread that still has its pages. -/
def alive (state : ThreadState) : Bool := state ≠ .unused && state ≠ .exited

/-- A missing page table stays NULL in the new process. -/
def allocproc (l : Layout) (k : Kernel) : Except String (Option Slot × Kernel) :=
  match (List.finRange nproc).find? fun s => (k.pool s).state = .unused with
  | none => .ok (none, k)
  | some s => do
      let (root, m) ← uvmcreate l k.memory
      let p := { k.pool s with state := .used, parent := none, pagetable := root, maxPage := 0 }
      return (some s, { k.setProcess s p with memory := m })

/-- The page number that `get_thread_ustack_base_va` gives. -/
def ustackVpn (p : Process) (t : Tid) : Nat := p.ustackBase + t.val

/-- The part of `allocthread` that maps the user stack of one page. -/
def mapUstack (k : Kernel) (s : Slot) (root : Page) (t : Tid) : Except String Kernel := do
  let vpn := ustackVpn (k.pool s) t
  let (mapped, m) ← uvmmap root { r := true, w := true, x := false, u := true } 1 vpn k.memory
  if mapped then
    return { k.setProcess s { k.pool s with maxPage := max (k.pool s).maxPage (vpn + 1) } with memory := m }
  else .error "map ustack fail"

def allocthread (l : Layout) (k : Kernel) (s : Slot) (root : Page) (allocUserRes : Bool) :
    Except String (Option Tid × Kernel) :=
  match (List.finRange nthread).find? fun t => (k.pool s).threads t = .unused with
  | none => .ok (none, k)
  | some t => do
      let k ← if allocUserRes then mapUstack (k.setThread s t .used) s root t else .ok (k.setThread s t .used)
      let (mapped, m) ← mapPage k.memory root (trapframeVpn t) (l.trapframe s t) { r := true, w := true, x := false, u := false }
      if mapped then return (some t, { k with memory := m }) else .error "map trapframe fail"

/-- A thread that has pages belongs to a process with a page table. -/
def freethread (l : Layout) (k : Kernel) (s : Slot) (t : Tid) : Except String Kernel :=
  match (k.pool s).pagetable with
  | none => .error "fault"
  | some root => do
      let m ← unmapRange l root false 1 (trapframeVpn t) k.memory
      let m ← unmapRange l root true 1 (ustackVpn (k.pool s) t) m
      return { k with memory := m }

def freepagetable (l : Layout) (m : Memory) (root : Page) (maxPage : Nat) : Except String Memory := do
  let m ← unmapRange l root false 1 trampolineVpn m
  uvmfree l m root maxPage

def freeproc (l : Layout) (k : Kernel) (s : Slot) : Except String Kernel := do
  let k ← (List.finRange nthread).foldlM (fun k t => do
    let k ← if alive ((k.pool s).threads t) then freethread l k s t else .ok k
    return k.setThread s t .unused) k
  let m ←
    match (k.pool s).pagetable with
    | none => .ok k.memory
    | some root => freepagetable l k.memory root (k.pool s).maxPage
  let p := { k.pool s with state := .unused, pagetable := none, maxPage := 0, ustackBase := 0 }
  return { k.setProcess s p with memory := m }

/-- The loop of `bin_loader`; the first argument counts the pages that remain. -/
def loadPages (root : Page) : Nat → Nat → Memory → Except String Memory
  | 0, _, m => .ok m
  | npages + 1, vpn, m =>
      match kalloc m with
      | (none, _) => .error "..."
      | (some page, m) => do
          let (mapped, m) ← mapPage m root vpn page { r := true, w := true, x := true, u := true }
          if mapped then loadPages root npages (vpn + 1) m else .error "..."

/-- The pages from `BASE_ADDRESS` on that a program of some length takes. -/
def imagePages (length : BitVec 32) : Nat := (length.toNat + 4095) / 4096

/-- The first access through a missing page table faults, when the first page is already taken. -/
def binLoader (l : Layout) (k : Kernel) (s : Slot) (length : BitVec 32) : Except String (Attempt × Kernel) :=
  match (k.pool s).pagetable with
  | none =>
      match kalloc k.memory with
      | (none, m) => if 0 < imagePages length then .error "..." else .ok (.faulted, { k with memory := m })
      | (some _, m) => .ok (.faulted, { k with memory := m })
  | some root => do
      let m ← loadPages root (imagePages length) 1 k.memory
      let p := { k.pool s with maxPage := 1 + imagePages length, ustackBase := 2 + imagePages length }
      let (tid, k) ← allocthread l { k.setProcess s p with memory := m } s root true
      match tid with
      | some 0 => return (.done, k)
      | _ => .error "proc alloc main thread failed!"

/-- The arguments are copied to the stack of the main thread; the flag tells whether they fit. -/
def pushArgv (k : Kernel) (s : Slot) (fits : Bool) : Except String Unit :=
  if !fits then .error "uset stack overflow!"
  else
    match (k.pool s).pagetable with
    | none => .error "fault"
    | some root => do
        let page ← walkaddr k.memory root (ustackVpn (k.pool s) 0)
        if page = 0 then .error "copy argc failed!" else return ()

def fork (l : Layout) (k : Kernel) (s : Slot) (t : Tid) : Except String (Kernel × List Event) := do
  let (slot, k) ← allocproc l k
  match slot, (k.pool s).pagetable with
  | none, _ => .error "allocproc\n"
  | some _, none => .error "fault"
  | some np, some old =>
      let (copied, m) ← uvmcopy l old (k.pool np).pagetable (k.pool s).maxPage 0 k.memory
      let k := { k with memory := m }
      match copied, (k.pool np).pagetable with
      | .failed, _ => .error "uvmcopy\n"
      | .faulted, _ => return ({ k with fault := some (s, t) }, [])
      | .done, none => return ({ k with fault := some (s, t) }, [])
      | .done, some root =>
          let k := k.setProcess np { k.pool np with
            maxPage := (k.pool s).maxPage, ustackBase := (k.pool s).ustackBase, parent := some s }
          let (tid, k) ← allocthread l k np root false
          match tid with
          | none => .error "threads[-1]"
          | some tid => return (k.setThread np tid .runnable, [])

/-- A failed lookup of the path is the caller's input. -/
def sysSpawn (l : Layout) (k : Kernel) (s : Slot) (t : Tid) (program : Option (BitVec 32)) (fits : Bool) :
    Except String (Kernel × List Event) :=
  match program with
  | none => .ok (k, [.returned (-1)])
  | some length => do
      let (slot, k) ← allocproc l k
      match slot with
      | none => return (k, [.returned (-1)])
      | some np =>
          let (loaded, k) ← binLoader l (k.setProcess np { k.pool np with parent := some s }) np length
          match loaded with
          | .done =>
              pushArgv k np fits
              return (k.setThread np 0 .runnable, [])
          | .failed => .error "..."
          | .faulted => return ({ k with fault := some (s, t) }, [])

/-- A fault before the first program runs stops the kernel. -/
def loadInitApp (l : Layout) (k : Kernel) (length : BitVec 32) (fits : Bool) : Except String (Kernel × List Event) := do
  let (slot, k) ← allocproc l k
  match slot with
  | none => .error "fault"
  | some s =>
      let (loaded, k) ← binLoader l k s length
      match loaded with
      | .done =>
          pushArgv k s fits
          return (k.setThread s 0 .runnable, [])
      | _ => .error "fault"

def exec (l : Layout) (k : Kernel) (s : Slot) (t : Tid) (program : Option (BitVec 32)) (fits : Bool) :
    Except String (Kernel × List Event) :=
  match program, (k.pool s).pagetable with
  | none, _ => .ok (k, [.returned (-1)])
  | some _, none => .error "fault"
  | some length, some root => do
      let k ← freethread l k s t
      let k := k.setThread s t .unused
      let m ← unmapRange l root true (k.pool s).maxPage 0 k.memory
      let (loaded, k) ← binLoader l { k with memory := m } s length
      match loaded with
      | .done =>
          pushArgv k s fits
          return (k.setThread s t .running, [])
      | _ => .error "fault"

def sysThreadCreate (l : Layout) (k : Kernel) (s : Slot) : Except String (Kernel × List Event) :=
  match (k.pool s).pagetable with
  | none => .error "fault"
  | some root => do
      let (tid, k) ← allocthread l k s root true
      match tid with
      | none => return (k, [.returned (-1)])
      | some t => return (k.setThread s t .runnable, [.returned t.val])

def sysWaittid (k : Kernel) (s : Slot) (t : Tid) (tid : Int) : Kernel × List Event :=
  if inside : 0 ≤ tid ∧ tid < nthread then
    let target : Tid := ⟨tid.toNat, Sync.index_lt inside⟩
    if (k.pool s).threads target = .unused ∨ target = t then (k, [.returned (-1)])
    else if (k.pool s).threads target ≠ .exited then (k, [.returned (-2)])
    else (k.setThread s target .unused, [.returned 0])
  else (k, [.returned (-1)])

/-- The condition `va < start + npages * PGSIZE` is computed modulo 2^64 and fails at once after a wrap. -/
def rangeRounds (start : BitVec 64) (npages : Nat) : Nat :=
  if start.toNat / 4096 + npages < 2 ^ 52 then npages else 0

def roundUp (len : BitVec 64) : Nat := (len + 4095).toNat / 4096

/-- The check loops of `sys_mmap` and `sys_munmap`: no page is mapped, or all pages are. -/
def checkRange (m : Memory) (root : Page) (wanted : Bool) : Nat → Nat → Except String Bool
  | 0, _ => .ok true
  | npages + 1, vpn => do
      let (table, _) ← walk m root vpn false
      let mapped :=
        match table with
        | none => false
        | some table => (m.entry table (px 0 vpn)).valid
      if mapped = wanted then checkRange m root wanted npages (vpn + 1) else return false

/-- The mapping loop of `sys_mmap` does not roll back. -/
def mmapLoop (l : Layout) (root : Page) (perm : Perm) : Nat → Nat → Memory → Except String (Int × Memory)
  | 0, _, m => .ok (0, m)
  | npages + 1, vpn, m =>
      match kalloc m with
      | (none, m) => .ok (-1, m)
      | (some page, m) => do
          let (mapped, m) ← mapPage m root vpn page perm
          if mapped then mmapLoop l root perm npages (vpn + 1) m
          else
            let m ← kfree l m page
            return (-1, m)

def sysMmap (l : Layout) (k : Kernel) (s : Slot) (start len : BitVec 64) (prot : BitVec 32) :
    Except String (Kernel × List Event) :=
  match (k.pool s).pagetable with
  | none => .error "fault"
  | some root =>
      if start &&& 4095 ≠ 0 then .ok (k, [.returned (-1)])
      else if prot &&& ~~~7 ≠ 0 then .ok (k, [.returned (-1)])
      else if prot &&& 7 = 0 then .ok (k, [.returned (-1)])
      else if len = 0 then .ok (k, [.returned 0])
      else do
        let vpn := start.toNat / 4096
        let clear ← checkRange k.memory root false (rangeRounds start (roundUp len)) vpn
        if !clear then return (k, [.returned (-1)])
        else
          let perm := { r := prot.getLsbD 0, w := prot.getLsbD 1, x := prot.getLsbD 2, u := true }
          let (value, m) ← mmapLoop l root perm (roundUp len) vpn k.memory
          return ({ k with memory := m }, [.returned value])

def sysMunmap (l : Layout) (k : Kernel) (s : Slot) (start len : BitVec 64) : Except String (Kernel × List Event) :=
  match (k.pool s).pagetable with
  | none => .error "fault"
  | some root =>
      if start &&& 4095 ≠ 0 then .ok (k, [.returned (-1)])
      else if len = 0 then .ok (k, [.returned 0])
      else do
        let vpn := start.toNat / 4096
        let rounds := rangeRounds start (roundUp len)
        let mapped ← checkRange k.memory root true rounds vpn
        if !mapped then return (k, [.returned (-1)])
        else
          let m ← unmapRange l root true rounds vpn k.memory
          return ({ k with memory := m }, [.returned 0])

/-- The page of an address that `sys_trace` may access, when the entry has the bit that the access needs. -/
def traceAddr (m : Memory) (root : Page) (vpn : Nat) (bit : Perm → Bool) : Except String (Option Page) := do
  let (table, _) ← walk m root vpn false
  match table with
  | none => return none
  | some table =>
      let pte := m.entry table (px 0 vpn)
      if pte.valid && pte.perm.u && bit pte.perm then
        let page ← walkaddr m root vpn
        return if page = 0 then none else some page
      else return none

def maxSyscallNum : Nat := 500

def sysTrace (k : Kernel) (s : Slot) (request : BitVec 32) (id : BitVec 64) (data : BitVec 8) : Except String (List Event) :=
  match (k.pool s).pagetable with
  | none => .error "fault"
  | some root =>
      if request = 0 then do
        let page ← traceAddr k.memory root (id.toNat / 4096) Perm.r
        match page with
        | none => return [.returned (-1)]
        | some page => return [.loaded page (id.toNat % 4096)]
      else if request = 1 then do
        let page ← traceAddr k.memory root (id.toNat / 4096) Perm.w
        match page with
        | none => return [.returned (-1)]
        | some page => return [.stored page (id.toNat % 4096) data, .returned 0]
      else if request = 2 then
        if maxSyscallNum ≤ id.toNat then .ok [.returned (-1)] else .ok [.counted id.toNat]
      else .ok [.returned (-1)]

/-- The caller collects the child `np`. -/
def wait (k : Kernel) (s np : Slot) : Kernel × List Event :=
  if (k.pool np).state = .zombie ∧ (k.pool np).parent = some s then
    (k.setProcess np { k.pool np with state := .unused }, [])
  else (k, [.returned (-1)])

def exit (l : Layout) (k : Kernel) (s : Slot) (t : Tid) : Except String (Kernel × List Event) := do
  let k ← freethread l (k.setThread s t .exited) s t
  if t = 0 then
    let k ← freeproc l k s
    let k := if (k.pool s).parent.isSome then k.setProcess s { k.pool s with state := .zombie } else k
    return ({ k with
      pool := fun np => { k.pool np with parent := if (k.pool np).parent = some s then none else (k.pool np).parent } }, [])
  else return (k, [])

/-- A kernel object takes a page or gives it back. -/
def takeObject (k : Kernel) (n : Nat) : Kernel × List Event :=
  match kalloc k.memory with
  | (none, m) => ({ k with memory := m }, [.returned (-1)])
  | (some page, m) => ({ k with memory := m, objects := Function.update k.objects n (some page) }, [])

def dropObject (l : Layout) (k : Kernel) (n : Nat) (page : Page) : Except String (Kernel × List Event) := do
  let m ← kfree l k.memory page
  return ({ k with memory := m, objects := Function.update k.objects n none }, [])

inductive ThreadCall where
  | fork
  | spawn (program : Option (BitVec 32)) (fits : Bool)
  | exec (program : Option (BitVec 32)) (fits : Bool)
  | threadCreate
  | waittid (tid : Int)
  | mmap (start len : BitVec 64) (prot : BitVec 32)
  | munmap (start len : BitVec 64)
  | trace (request : BitVec 32) (id : BitVec 64) (data : BitVec 8)
  | wait (np : Slot)
  | exit
  deriving DecidableEq

/-- The kernel itself loads the first program and manages its objects; everything else is a call of a thread. -/
inductive Call where
  | loadInitApp (length : BitVec 32) (fits : Bool)
  | takeObject (n : Nat)
  | dropObject (n : Nat)
  | thread (s : Slot) (t : Tid) (call : ThreadCall)
  deriving DecidableEq

/-- The denials say which calls of `kalloc` return 0 although pages are free. -/
structure Action where
  call : Call
  denials : List Bool
  deriving DecidableEq

def operate (l : Layout) (k : Kernel) (s : Slot) (t : Tid) : ThreadCall → Except String (Kernel × List Event)
  | .fork => fork l k s t
  | .spawn program fits => sysSpawn l k s t program fits
  | .exec program fits => exec l k s t program fits
  | .threadCreate => sysThreadCreate l k s
  | .waittid tid => .ok (sysWaittid k s t tid)
  | .mmap start len prot => sysMmap l k s start len prot
  | .munmap start len => sysMunmap l k s start len
  | .trace request id data => do
      let events ← sysTrace k s request id data
      return (k, events)
  | .wait np => .ok (wait k s np)
  | .exit => exit l { k with fault := none } s t

/-- A panic halts the kernel. -/
def settle (k : Kernel) : Except String (Kernel × List Event) → Kernel × List Event
  | .ok result => result
  | .error message => ({ k with halted := true }, [.panicked message])

/-- A thread that faulted in the kernel exits next; otherwise any thread that is alive runs. -/
def step (l : Layout) (k : Kernel) (action : Action) : Option (Kernel × List Event) :=
  let ready := { k with memory := { k.memory with denials := action.denials } }
  if k.halted then none
  else
    match action.call with
    | .loadInitApp length fits =>
        if (List.finRange nproc).all fun s => (k.pool s).state = .unused then
          some (settle k (loadInitApp l ready length fits))
        else none
    | .takeObject n => if k.fault = none ∧ k.objects n = none then some (takeObject ready n) else none
    | .dropObject n =>
        match k.fault, k.objects n with
        | none, some page => some (settle k (dropObject l ready n page))
        | _, _ => none
    | .thread s t call =>
        if ¬(k.pool s).state = .used ∨ alive ((k.pool s).threads t) = false then none
        else if k.fault ≠ none ∧ (k.fault ≠ some (s, t) ∨ call ≠ .exit) then none
        else some (settle k (operate l ready s t call))

/-- `kinit` frees the pages from the lowest to the highest address. -/
def bootKernel (l : Layout) : Kernel where
  memory := {
    free := ((List.range (l.phystop - l.ekernel)).map (l.ekernel + ·)).reverse
    denials := []
    entry := fun _ _ => zeroPte }
  pool _ := { state := .unused, parent := none, pagetable := none, maxPage := 0, ustackBase := 0, threads := fun _ => .unused }
  objects _ := none
  fault := none
  halted := false

end BtbuOs.Vm
