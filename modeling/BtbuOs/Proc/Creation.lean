import BtbuOs.Files.Kernel
import BtbuOs.Vm.Fork

namespace BtbuOs.Proc

open Machine
open Sync (Tid)
open Sched (nproc Slot TaskId taskToId)

/-- The parts of the kernel that the creation of a process changes: memory and the pool, the files, and the run queue. -/
structure System where
  vm : Vm.Kernel
  files : Files.Kernel
  queue : Queue TaskId
  ram : Vm.Ram

namespace System

/-- A thread that faults in the kernel returns nothing. -/
def crash (w : System) (s : Slot) (t : Tid) : System := { w with vm := { w.vm with fault := some (s, t) } }

def setParent (w : System) (np s : Slot) : System :=
  { w with vm := w.vm.setProcess np { w.vm.pool np with parent := some s }, files := Files.setParent w.files np s }

end System

/-- The fields of the new process that the files use. -/
def openProcess (k : Files.Kernel) (np : Slot) : Files.Kernel :=
  { k.setProcess np { state := .used, pid := k.nextPid, parent := none, exitCode := 0, files := fun _ => none } with
    nextPid := k.nextPid + 1 }

def allocproc (l : Vm.Layout) (w : System) : Except String (Option Slot × System) := do
  let (slot, vm) ← Vm.allocproc l w.vm
  match slot with
  | none => return (none, { w with vm })
  | some np => return (some np, { w with vm, files := openProcess w.files np })

/-- The assignment of RUNNABLE and the call of `add_task`. -/
def launch (w : System) (np : Slot) (t : Tid) : Except String System :=
  match pushQueue w.queue (taskToId np t) with
  | .error message => .error message
  | .ok queue => .ok { w with vm := w.vm.setThread np t .runnable, queue }

def fork (l : Vm.Layout) (w : System) (s : Slot) (t : Tid) : Except String (System × Option Int) := do
  let (slot, w) ← allocproc l w
  match slot, (w.vm.pool s).pagetable with
  | none, _ => .error "allocproc\n"
  | some _, none => .error "fault"
  | some np, some old =>
      let (copied, m) ← Vm.uvmcopy l old (w.vm.pool np).pagetable (w.vm.pool s).maxPage 0 w.vm.memory
      let w := { w with vm := { w.vm with memory := m } }
      match copied, (w.vm.pool np).pagetable with
      | .failed, _ => .error "uvmcopy\n"
      | .faulted, _ => return (w.crash s t, none)
      | .done, none => return (w.crash s t, none)
      | .done, some root =>
          let p := { w.vm.pool np with maxPage := (w.vm.pool s).maxPage, ustackBase := (w.vm.pool s).ustackBase }
          let files := Files.shareFiles s np (List.finRange Files.fdBufferSize) w.files
          let w := ({ w with vm := w.vm.setProcess np p, files }).setParent np s
          let (tid, vm) ← Vm.allocthread l w.vm np root false
          match tid with
          | none => .error "threads[-1]"
          | some tid =>
              let w ← launch { w with vm } np tid
              return (w, some (w.files.pool np).pid)

/-- The disk gives the entry of a path and the length of its program; the flag tells whether the arguments fit. -/
def sysSpawn (l : Vm.Layout) (w : System) (s : Slot) (t : Tid) (pathVa : BitVec 64)
    (disk : List Vm.Byte → Option (Files.Entry × BitVec 32)) (fits : Bool) : Except String (System × Option Int) :=
  match (w.vm.pool s).pagetable with
  | none => .error "fault"
  | some root => do
      let (path, ram) ← Vm.copyinstr w.vm.memory root pathVa Vm.maxStrLen w.ram
      match path with
      | none => return ({ w with ram }, some (-1))
      | some path =>
          let (ip, files) ← Files.namei w.files ((disk path).map Prod.fst)
          match ip, disk path with
          | some ip, some (entry, length) =>
              let (slot, w) ← allocproc l { w with ram, files }
              match slot with
              | none => return ({ w with files := Files.iput w.files ip }, some (-1))
              | some np =>
                  let w := w.setParent np s
                  let (through, files) := Files.initStdio w.files np
                  if !through then return ({ w with files }.crash s t, none)
                  else
                    let files := Files.shareFiles s np ((List.finRange Files.fdBufferSize).drop 3) files
                    Files.ivalid entry.type
                    let (loaded, vm) ← Vm.binLoader l w.vm np length
                    let w := { w with vm, files }
                    match loaded with
                    | .done =>
                        let w := { w with files := Files.iput w.files ip }
                        Vm.pushArgv w.vm np fits
                        let w ← launch w np 0
                        return (w, some (w.files.pool np).pid)
                    | .failed => .error "..."
                    | .faulted => return (w.crash s t, none)
          | _, _ => return ({ w with ram, files }, some (-1))

/-- A call that is refused changes no state of a process, no reference to a file or to an inode other than the root
directory, no entry of the run queue and no free page. -/
structure Untouched (w after : System) : Prop where
  pool : after.vm.pool = w.vm.pool
  states : ∀ r, (after.files.pool r).state = (w.files.pool r).state
  files : ∀ f, (after.files.filepool f).ref = (w.files.filepool f).ref
  inodes : ∀ i, (after.files.itable i).inum ≠ Files.rootino → (after.files.itable i).ref = (w.files.itable i).ref
  queue : after.queue = w.queue
  memory : after.vm.memory = w.vm.memory

/-- A slot that was free holds a child with a thread in the run queue. -/
structure Created (w after : System) (s np : Slot) (value : Int) : Prop where
  fresh : (w.vm.pool np).state = .unused
  state : (after.vm.pool np).state = .used
  parent : (after.vm.pool np).parent = some s
  others : ∀ r, r ≠ np → after.vm.pool r = w.vm.pool r
  thread : ∃ t, (after.vm.pool np).threads t = .runnable ∧ pushQueue w.queue (taskToId np t) = .ok after.queue
  number : value = (after.files.pool np).pid

variable {l : Vm.Layout} {w after : System} {k mid last : Vm.Kernel} {s np : Slot} {t : Tid} {value : Int}

/-- Nothing but the pages and the threads of one process changes. -/
structure Grows (k after : Vm.Kernel) (np : Slot) : Prop where
  state : (after.pool np).state = (k.pool np).state
  parent : (after.pool np).parent = (k.pool np).parent
  others : ∀ r, r ≠ np → after.pool r = k.pool r

theorem Grows.trans (first : Grows k mid np) (second : Grows mid last np) : Grows k last np where
  state := second.state.trans first.state
  parent := second.parent.trans first.parent
  others r other := (second.others r other).trans (first.others r other)

theorem grows_memory (k : Vm.Kernel) (np : Slot) (m : Vm.Memory) : Grows k { k with memory := m } np :=
  ⟨rfl, rfl, fun _ _ => rfl⟩

/-- A change of other fields of the process and of memory. -/
theorem grows_process (k : Vm.Kernel) (np : Slot) (m : Vm.Memory) {p : Vm.Process} (state : p.state = (k.pool np).state)
    (parent : p.parent = (k.pool np).parent) : Grows k { k.setProcess np p with memory := m } np := by
  have own : (k.setProcess np p).pool np = p := Function.update_self ..
  refine ⟨?_, ?_, fun r other => Function.update_of_ne other ..⟩
  · change ((k.setProcess np p).pool np).state = _
    rw [own, state]
  · change ((k.setProcess np p).pool np).parent = _
    rw [own, parent]

theorem grows_thread (k : Vm.Kernel) (np : Slot) (t : Tid) (state : Sync.ThreadState) : Grows k (k.setThread np t state) np :=
  grows_process k np k.memory rfl rfl

theorem mapUstack_grows {root : Vm.Page} (done : Vm.mapUstack k np root t = .ok last) : Grows k last np := by
  obtain ⟨⟨mapped, m⟩, _, rest⟩ := bind_ok.mp done
  cases mapped with
  | false => simp at rest
  | true =>
      simp only [if_true, pure, Except.pure, Except.ok.injEq] at rest
      subst rest
      exact grows_process k np m rfl rfl

/-- The trap frame is mapped last. -/
theorem trapframe_grows {root pa : Vm.Page} {vpn : Nat} {perm : Vm.Perm} {u : Tid} {tid : Option Tid}
    (done : (do
      let (mapped, m) ← Vm.mapPage k.memory root vpn pa perm
      if mapped then return (some u, { k with memory := m }) else .error "map trapframe fail") = .ok (tid, last)) :
    Grows k last np := by
  obtain ⟨⟨mapped, m⟩, _, result⟩ := bind_ok.mp done
  cases mapped with
  | false => simp at result
  | true =>
      simp only [if_true, pure, Except.pure, Except.ok.injEq, Prod.mk.injEq] at result
      obtain ⟨rfl, rfl⟩ := result
      exact grows_memory k np m

theorem allocthread_grows {root : Vm.Page} {user : Bool} {tid : Option Tid}
    (done : Vm.allocthread l k np root user = .ok (tid, last)) : Grows k last np := by
  unfold Vm.allocthread at done
  split at done
  · simp only [Except.ok.injEq, Prod.mk.injEq] at done
    obtain ⟨rfl, rfl⟩ := done
    exact grows_memory k np k.memory
  · rename_i u found
    have started := grows_thread k np u .used
    cases user with
    | false =>
        simp only [Bool.false_eq_true, if_false] at done
        exact started.trans (trapframe_grows done)
    | true =>
        simp only [if_true] at done
        obtain ⟨mid, stacked, rest⟩ := bind_ok.mp done
        exact (started.trans (mapUstack_grows stacked)).trans (trapframe_grows rest)

theorem binLoader_grows {length : BitVec 32} (done : Vm.binLoader l k np length = .ok (.done, last)) : Grows k last np := by
  unfold Vm.binLoader at done
  split at done
  · split at done
    · split at done
      · simp at done
      · simp at done
    · simp at done
  · obtain ⟨m, _, rest⟩ := bind_ok.mp done
    obtain ⟨⟨tid, mid⟩, threading, result⟩ := bind_ok.mp rest
    simp only at result
    split at result
    · simp only [pure, Except.pure, Except.ok.injEq, Prod.mk.injEq, true_and] at result
      subst result
      refine Grows.trans ?_ (allocthread_grows threading)
      exact grows_process k np m rfl rfl
    · simp at result

/-- A slot that was free is in use. -/
structure Taken (w mid : System) (np : Slot) : Prop where
  fresh : (w.vm.pool np).state = .unused
  state : (mid.vm.pool np).state = .used
  others : ∀ r, r ≠ np → mid.vm.pool r = w.vm.pool r
  queue : mid.queue = w.queue

/-- More pages and threads of the process keep its slot. -/
theorem Taken.grows {mid : System} {vm : Vm.Kernel} (taken : Taken w mid np) (grows : Grows mid.vm vm np)
    (files : Files.Kernel) : Taken w { mid with vm, files } np where
  fresh := taken.fresh
  state := grows.state.trans taken.state
  others r other := (grows.others r other).trans (taken.others r other)
  queue := taken.queue

theorem allocproc_taken {mid : System} (done : allocproc l w = .ok (some np, mid)) : Taken w mid np := by
  obtain ⟨⟨found, vm⟩, allocating, rest⟩ := bind_ok.mp done
  unfold Vm.allocproc at allocating
  split at allocating
  · simp only [Except.ok.injEq, Prod.mk.injEq] at allocating
    obtain ⟨rfl, rfl⟩ := allocating
    simp [pure, Except.pure] at rest
  · rename_i r free
    have unused := List.find?_some free
    rw [decide_eq_true_eq] at unused
    obtain ⟨⟨created, m⟩, _, tail⟩ := bind_ok.mp allocating
    simp only [pure, Except.pure, Except.ok.injEq, Prod.mk.injEq] at tail
    obtain ⟨rfl, rfl⟩ := tail
    simp only [pure, Except.pure, Except.ok.injEq, Prod.mk.injEq, Option.some.injEq] at rest
    obtain ⟨rfl, rfl⟩ := rest
    refine ⟨unused, ?_, fun q other => Function.update_of_ne other .., rfl⟩
    change (Function.update w.vm.pool r _ r).state = _
    rw [Function.update_self]

/-- Without a free slot nothing happens. -/
theorem allocproc_full (full : ∀ r, (w.vm.pool r).state ≠ .unused) : allocproc l w = .ok (none, w) := by
  have none : (List.finRange nproc).find? (fun r => decide ((w.vm.pool r).state = .unused)) = none := by
    apply List.find?_eq_none.mpr
    intro r _
    simpa using full r
  rw [allocproc, Vm.allocproc, none]
  rfl

theorem allocproc_none {mid : System} (done : allocproc l w = .ok (none, mid)) :
    mid = w ∧ ∀ r, (w.vm.pool r).state ≠ .unused := by
  have full (r : Slot) : (w.vm.pool r).state ≠ .unused := by
    intro free
    obtain ⟨⟨found, vm⟩, allocating, rest⟩ := bind_ok.mp done
    unfold Vm.allocproc at allocating
    split at allocating
    · rename_i full
      exact absurd (List.find?_eq_none.mp full r (List.mem_finRange r)) (by simp [free])
    · obtain ⟨⟨created, m⟩, _, tail⟩ := bind_ok.mp allocating
      simp only [pure, Except.pure, Except.ok.injEq, Prod.mk.injEq] at tail
      obtain ⟨rfl, rfl⟩ := tail
      simp [pure, Except.pure] at rest
  rw [allocproc_full full] at done
  exact ⟨(Prod.mk.inj (Except.ok.inj done)).2.symm, full⟩

/-- What `iget` does: an inode that is cached or a free one gets a reference more. -/
theorem iget_refs {k after : Files.Kernel} {inum : Nat} {i : Files.InodeIx} (got : Files.iget k inum = .ok (i, after)) :
    after.itable = Function.update k.itable i { inum, ref := (k.itable i).ref + 1 } ∧
      (0 < (k.itable i).ref ∧ (k.itable i).inum = inum ∨ (k.itable i).ref = 0) ∧
      after.pool = k.pool ∧ after.filepool = k.filepool := by
  unfold Files.iget at got
  split at got
  · rename_i j found
    have held := List.find?_some found
    rw [decide_eq_true_eq] at held
    simp only [Except.ok.injEq, Prod.mk.injEq] at got
    obtain ⟨rfl, rfl⟩ := got
    refine ⟨?_, .inl held, rfl, rfl⟩
    rw [← held.2]
    rfl
  · split at got
    · simp at got
    · rename_i j found
      have free := List.find?_some found
      rw [decide_eq_true_eq] at free
      simp only [Except.ok.injEq, Prod.mk.injEq] at got
      obtain ⟨rfl, rfl⟩ := got
      refine ⟨?_, .inr free, rfl, rfl⟩
      rw [free]
      rfl

/-- A lookup holds a reference to what it finds. -/
structure Named (k after : Files.Kernel) (ip : Option Files.InodeIx) : Prop where
  pool : after.pool = k.pool
  files : after.filepool = k.filepool
  inodes : ∀ i, (after.itable i).inum ≠ Files.rootino →
    (after.itable i).ref = (k.itable i).ref + if ip = some i then 1 else 0

theorem namei_named {k after : Files.Kernel} {found : Option Files.Entry} {ip : Option Files.InodeIx}
    (looked : Files.namei k found = .ok (ip, after)) : Named k after ip := by
  obtain ⟨⟨dp, mid⟩, opened, rest⟩ := bind_ok.mp looked
  obtain ⟨table, root, pool, files⟩ := iget_refs opened
  have own : mid.itable dp = { inum := Files.rootino, ref := (k.itable dp).ref + 1 } := by rw [table, Function.update_self]
  have others (i : Files.InodeIx) (different : i ≠ dp) : mid.itable i = k.itable i := by
    rw [table, Function.update_of_ne different]
  have aside (i : Files.InodeIx) (away : (mid.itable i).inum ≠ Files.rootino) : i ≠ dp := by
    rintro rfl
    exact away (by rw [own])
  cases found with
  | none =>
      simp only [Except.ok.injEq, Prod.mk.injEq] at rest
      obtain ⟨rfl, rfl⟩ := rest
      refine ⟨pool, files, fun i away => ?_⟩
      simp [others i (aside i away)]
  | some entry =>
      obtain ⟨⟨j, last⟩, got, result⟩ := bind_ok.mp rest
      simp only [Except.ok.injEq, Prod.mk.injEq] at result
      obtain ⟨rfl, rfl⟩ := result
      obtain ⟨tableLast, cached, poolLast, filesLast⟩ := iget_refs got
      refine ⟨poolLast.trans pool, filesLast.trans files, fun i away => ?_⟩
      by_cases mine : i = j
      · subst mine
        rw [tableLast, Function.update_self] at away ⊢
        have different : i ≠ dp := by
          rintro rfl
          rw [own] at cached
          rcases cached with ⟨_, same⟩ | free
          · exact away same.symm
          · have count : (k.itable i).ref + 1 = 0 := free
            rcases root with ⟨held, _⟩ | unheld
            · omega
            · omega
        simp [others i different]
      · rw [tableLast, Function.update_of_ne mine] at away ⊢
        simp [others i (aside i away), Ne.symm mine]

/-- The entry of a path decides whether an inode is found. -/
theorem namei_isSome {k after : Files.Kernel} {found : Option Files.Entry} {ip : Option Files.InodeIx}
    (looked : Files.namei k found = .ok (ip, after)) : ip.isSome = found.isSome := by
  obtain ⟨_, _, rest⟩ := bind_ok.mp looked
  cases found with
  | none =>
      simp only [Except.ok.injEq, Prod.mk.injEq] at rest
      rw [← rest.1]
      rfl
  | some entry =>
      obtain ⟨_, _, result⟩ := bind_ok.mp rest
      simp only [Except.ok.injEq, Prod.mk.injEq] at result
      rw [← result.1]
      rfl

/-- The lookup is undone but for the root directory. -/
theorem iput_named {k mid : Files.Kernel} {i : Files.InodeIx} (named : Named k mid (some i)) :
    Named k (Files.iput mid i) none := by
  refine ⟨named.pool, named.files, fun j away => ?_⟩
  by_cases mine : j = i
  · subst mine
    have own : (Files.iput mid j).itable j = { mid.itable j with ref := (mid.itable j).ref - 1 } := Function.update_self ..
    rw [own] at away ⊢
    simp [named.inodes j away]
  · have same : (Files.iput mid i).itable j = mid.itable j := Function.update_of_ne mine ..
    rw [same] at away ⊢
    simp [named.inodes j away, Ne.symm mine]

theorem Named.untouched {files : Files.Kernel} {ram : Vm.Ram} (named : Named w.files files none) :
    Untouched w { w with files, ram } where
  pool := rfl
  states r := by rw [show ({ w with files, ram } : System).files.pool = w.files.pool from named.pool]
  files f := by rw [show ({ w with files, ram } : System).files.filepool = w.files.filepool from named.files]
  inodes i away := by simpa using named.inodes i away
  queue := rfl
  memory := rfl

/-- A child that runs. -/
theorem Taken.launched {mid : System} (taken : Taken w mid np) (parent : (mid.vm.pool np).parent = some s)
    (done : launch mid np t = .ok after) : Created w after s np (after.files.pool np).pid := by
  unfold launch at done
  split at done
  · simp at done
  · rename_i queue pushed
    simp only [Except.ok.injEq] at done
    subst done
    have grows := grows_thread mid.vm np t .runnable
    have own : (mid.vm.setThread np t .runnable).pool np =
        { mid.vm.pool np with threads := Function.update (mid.vm.pool np).threads t .runnable } := Function.update_self ..
    refine ⟨taken.fresh, grows.state.trans taken.state, grows.parent.trans parent,
      fun r other => (grows.others r other).trans (taken.others r other), ⟨t, ?_, ?_⟩, rfl⟩
    · change ((mid.vm.setThread np t .runnable).pool np).threads t = _
      rw [own]
      exact Function.update_self ..
    · rw [← taken.queue]
      exact pushed

theorem setParent_self (w : System) (np s : Slot) :
    (w.setParent np s).vm.pool np = { w.vm.pool np with parent := some s } := Function.update_self ..

theorem Taken.setParent {mid : System} (taken : Taken w mid np) (s : Slot) : Taken w (mid.setParent np s) np where
  fresh := taken.fresh
  state := by
    rw [setParent_self]
    exact taken.state
  others r other := by
    rw [← taken.others r other]
    exact Function.update_of_ne other ..
  queue := taken.queue

/-- The process that `fork` copies the pages to. -/
def copiedProcess (vm : Vm.Kernel) (s np : Slot) : Vm.Process :=
  { vm.pool np with maxPage := (vm.pool s).maxPage, ustackBase := (vm.pool s).ustackBase }

/-- The child with its pages and files. -/
def copiedSystem (mid : System) (m : Vm.Memory) (s np : Slot) : System :=
  ({ mid with
    vm := { mid.vm with memory := m }.setProcess np (copiedProcess mid.vm s np)
    files := Files.shareFiles s np (List.finRange Files.fdBufferSize) mid.files } : System).setParent np s

/-- The parts of a call of `fork` that returns a number. -/
theorem fork_parts (ran : fork l w s t = .ok (after, some value)) : ∃ np mid old root m u vm,
    allocproc l w = .ok (some np, mid) ∧ (mid.vm.pool s).pagetable = some old ∧ (mid.vm.pool np).pagetable = some root ∧
      Vm.uvmcopy l old (some root) (mid.vm.pool s).maxPage 0 mid.vm.memory = .ok (.done, m) ∧
      Vm.allocthread l (copiedSystem mid m s np).vm np root false = .ok (some u, vm) ∧
      launch { copiedSystem mid m s np with vm } np u = .ok after ∧ value = (after.files.pool np).pid := by
  obtain ⟨⟨slot, mid⟩, allocating, rest⟩ := bind_ok.mp ran
  simp only at rest
  split at rest
  · simp at rest
  · simp at rest
  · rename_i np old rooted
    obtain ⟨⟨copied, m⟩, copying, tail⟩ := bind_ok.mp rest
    simp only at tail
    split at tail
    · simp at tail
    · simp [pure, Except.pure] at tail
    · simp [pure, Except.pure] at tail
    · rename_i root created
      have place : (mid.vm.pool np).pagetable = some root := created
      obtain ⟨⟨tid, vm⟩, threading, final⟩ := bind_ok.mp tail
      cases tid with
      | none => simp at final
      | some u =>
          obtain ⟨last, launching, result⟩ := bind_ok.mp final
          simp only [pure, Except.pure, Except.ok.injEq, Prod.mk.injEq, Option.some.injEq] at result
          obtain ⟨rfl, rfl⟩ := result
          rw [place] at copying
          exact ⟨np, mid, old, root, m, u, vm, allocating, rooted, place, copying, threading, launching, rfl⟩

/-- A call of `fork` that returns has created a process. -/
theorem fork_created (ran : fork l w s t = .ok (after, some value)) : ∃ np, Created w after s np value := by
  obtain ⟨np, mid, _, _, m, u, vm, allocating, _, _, _, threading, launching, rfl⟩ := fork_parts ran
  have copy := grows_process mid.vm np m (p := copiedProcess mid.vm s np) rfl rfl
  have taken := ((allocproc_taken allocating).grows copy
    (Files.shareFiles s np (List.finRange Files.fdBufferSize) mid.files)).setParent s
  have threads := allocthread_grows threading
  refine ⟨np, (taken.grows threads _).launched ?_ launching⟩
  rw [threads.parent, copiedSystem, setParent_self]

/-- The models of memory and of files take the same slot when they agree on the free ones. -/
theorem allocproc_views {mid : System} (agree : ∀ r, (w.files.pool r).state = (w.vm.pool r).state)
    (done : allocproc l w = .ok (some np, mid)) :
    Vm.allocproc l w.vm = .ok (some np, mid.vm) ∧ Files.allocproc w.files = some (np, mid.files) := by
  obtain ⟨⟨found, vm⟩, allocating, rest⟩ := bind_ok.mp done
  cases found with
  | none => simp [pure, Except.pure] at rest
  | some r =>
      simp only [pure, Except.pure, Except.ok.injEq, Prod.mk.injEq, Option.some.injEq] at rest
      obtain ⟨rfl, rfl⟩ := rest
      refine ⟨allocating, ?_⟩
      unfold Vm.allocproc at allocating
      split at allocating
      · simp at allocating
      · rename_i q free
        obtain ⟨_, _, tail⟩ := bind_ok.mp allocating
        simp only [pure, Except.pure, Except.ok.injEq, Prod.mk.injEq, Option.some.injEq] at tail
        obtain ⟨rfl, _⟩ := tail
        simp only [Files.allocproc, agree, free]
        rfl

/-- The call does to memory what the model of memory says. -/
theorem fork_vm (ran : fork l w s t = .ok (after, some value)) : Vm.fork l w.vm s t = .ok (after.vm, []) := by
  obtain ⟨np, mid, old, root, m, u, vm, allocating, rooted, created, copying, threading, launching, _⟩ := fork_parts ran
  obtain ⟨⟨found, first⟩, taking, rest⟩ := bind_ok.mp allocating
  cases found with
  | none => simp [pure, Except.pure] at rest
  | some r =>
      simp only [pure, Except.pure, Except.ok.injEq, Prod.mk.injEq, Option.some.injEq] at rest
      obtain ⟨rfl, rfl⟩ := rest
      have twice : (copiedSystem { w with vm := first, files := openProcess w.files r } m s r).vm =
          ({ first with memory := m }.setProcess r (Vm.forked (first.pool r) (first.pool s) s)) := by
        simp only [copiedSystem, System.setParent, Vm.Kernel.setProcess, Function.update_self, Function.update_idem]
        rfl
      rw [twice] at threading
      have place : (first.pool s).pagetable = some old := rooted
      have target : (first.pool r).pagetable = some root := created
      have same : Vm.uvmcopy l old (some root) (first.pool s).maxPage 0 first.memory = .ok (.done, m) := copying
      have queued : after.vm = vm.setThread r u .runnable := by
        unfold launch at launching
        split at launching
        · simp at launching
        · simp only [Except.ok.injEq] at launching
          rw [← launching]
      simp only [Vm.forked, target] at threading
      simp only [Vm.fork, taking, bind, Except.bind, place, target, same]
      rw [queued, threading]
      rfl

/-- A path that cannot be copied or is not found, or a full pool. -/
def Refused (w : System) (s : Slot) (pathVa : BitVec 64) (disk : List Vm.Byte → Option (Files.Entry × BitVec 32)) : Prop :=
  ∃ root, (w.vm.pool s).pagetable = some root ∧ ∃ path ram,
    Vm.copyinstr w.vm.memory root pathVa Vm.maxStrLen w.ram = .ok (path, ram) ∧
      (path.bind disk = none ∨ ∀ r, (w.vm.pool r).state ≠ .unused)

variable {pathVa : BitVec 64} {disk : List Vm.Byte → Option (Files.Entry × BitVec 32)} {fits : Bool}

/-- A call of `sys_spawn` that returns has created a process, or it is refused and changes nothing. -/
theorem sysSpawn_created (ran : sysSpawn l w s t pathVa disk fits = .ok (after, some value)) :
    Refused w s pathVa disk ∧ value = -1 ∧ Untouched w after ∨
      ¬Refused w s pathVa disk ∧ ∃ np, Created w after s np value := by
  unfold sysSpawn at ran
  split at ran
  · simp at ran
  · rename_i root rooted
    obtain ⟨⟨path, ram⟩, copied, rest⟩ := bind_ok.mp ran
    cases path with
    | none =>
        simp only [pure, Except.pure, Except.ok.injEq, Prod.mk.injEq, Option.some.injEq] at rest
        obtain ⟨rfl, rfl⟩ := rest
        exact .inl ⟨⟨root, rooted, none, ram, copied, .inl rfl⟩, rfl, rfl, fun _ => rfl, fun _ => rfl, fun _ _ => rfl, rfl, rfl⟩
    | some path =>
        obtain ⟨⟨ip, files⟩, looked, tail⟩ := bind_ok.mp rest
        have named := namei_named looked
        have present := namei_isSome looked
        cases found : disk path with
        | none =>
            rw [found] at present tail
            obtain rfl : ip = none := by simpa using present
            simp only [pure, Except.pure, Except.ok.injEq, Prod.mk.injEq, Option.some.injEq] at tail
            obtain ⟨rfl, rfl⟩ := tail
            exact .inl ⟨⟨root, rooted, some path, ram, copied, .inl found⟩, rfl, named.untouched⟩
        | some pair =>
            rw [found] at present tail
            obtain ⟨i, rfl⟩ := Option.isSome_iff_exists.mp present
            obtain ⟨⟨slot, mid⟩, allocating, made⟩ := bind_ok.mp tail
            cases slot with
            | none =>
                simp only [pure, Except.pure, Except.ok.injEq, Prod.mk.injEq, Option.some.injEq] at made
                obtain ⟨rfl, rfl⟩ := made
                obtain ⟨rfl, full⟩ := allocproc_none allocating
                exact .inl ⟨⟨root, rooted, some path, ram, copied, .inr full⟩, rfl, (iput_named named).untouched⟩
            | some np =>
                have taken := allocproc_taken allocating
                have own : Taken w mid np := ⟨taken.fresh, taken.state, taken.others, taken.queue⟩
                simp only at made
                split at made
                · simp [pure, Except.pure] at made
                · obtain ⟨_, _, more⟩ := bind_ok.mp made
                  obtain ⟨⟨loaded, vm⟩, loading, final⟩ := bind_ok.mp more
                  cases loaded with
                  | failed => simp at final
                  | faulted => simp [pure, Except.pure] at final
                  | done =>
                      obtain ⟨_, _, final⟩ := bind_ok.mp final
                      obtain ⟨last, launching, result⟩ := bind_ok.mp final
                      simp only [pure, Except.pure, Except.ok.injEq, Prod.mk.injEq, Option.some.injEq] at result
                      obtain ⟨rfl, rfl⟩ := result
                      have grows := binLoader_grows loading
                      have parent : (vm.pool np).parent = some s := by rw [grows.parent, setParent_self]
                      refine .inr ⟨fun refused => ?_, np, ((own.setParent s).grows grows _).launched parent launching⟩
                      obtain ⟨_, same, _, _, again, why⟩ := refused
                      obtain rfl := Option.some.inj (rooted.symm.trans same)
                      obtain ⟨rfl, _⟩ := Prod.mk.inj (Except.ok.inj (copied.symm.trans again))
                      rcases why with missing | full
                      · rw [Option.bind_some, found] at missing
                        simp at missing
                      · exact full np own.fresh

/-- Without a free slot `fork` panics. -/
theorem fork_full (full : ∀ r, (w.vm.pool r).state ≠ .unused) : fork l w s t = .error "allocproc\n" := by
  rw [fork, allocproc_full full]
  rfl

/-- Without memory for the copy `fork` panics. -/
theorem fork_starved {mid : System} {old : Vm.Page} {m : Vm.Memory} (taken : allocproc l w = .ok (some np, mid))
    (rooted : (mid.vm.pool s).pagetable = some old)
    (failed : Vm.uvmcopy l old (mid.vm.pool np).pagetable (mid.vm.pool s).maxPage 0 mid.vm.memory = .ok (.failed, m)) :
    fork l w s t = .error "uvmcopy\n" := by
  rw [fork, taken]
  simp only [bind, Except.bind, rooted, failed]

/-- A call that creates a process and returns has created all of it, or it is a call of `sys_spawn` that is refused and
changes nothing; `fork` panics instead. -/
theorem creation_whole (l : Vm.Layout) (w : System) (s : Slot) (t : Tid) (pathVa : BitVec 64)
    (disk : List Vm.Byte → Option (Files.Entry × BitVec 32)) (fits : Bool) :
    (∀ after value, fork l w s t = .ok (after, some value) → ∃ np, Created w after s np value) ∧
      ((∀ r, (w.vm.pool r).state ≠ .unused) → fork l w s t = .error "allocproc\n") ∧
      (∀ np mid old m, allocproc l w = .ok (some np, mid) → (mid.vm.pool s).pagetable = some old →
        Vm.uvmcopy l old (mid.vm.pool np).pagetable (mid.vm.pool s).maxPage 0 mid.vm.memory = .ok (.failed, m) →
          fork l w s t = .error "uvmcopy\n") ∧
      ∀ after value, sysSpawn l w s t pathVa disk fits = .ok (after, some value) →
        Refused w s pathVa disk ∧ value = -1 ∧ Untouched w after ∨
          ¬Refused w s pathVa disk ∧ ∃ np, Created w after s np value :=
  ⟨fun _ _ => fork_created, fork_full, fun _ _ _ _ => fork_starved, fun _ _ => sysSpawn_created⟩

/-- A kernel with no open files and an empty run queue. -/
def bare (k : Vm.Kernel) : System where
  vm := k
  files := Files.blankKernel
  queue := initQueue Sched.queueSize fun _ => 0
  ram := { byte := fun _ _ => 0, log := [] }

/-- A path that is not found. -/
theorem creation_whole_run : ∃ k trace after,
    Reaches (Vm.step (Vm.smallLayout 10)) (fun k _ action => Vm.fed k action = true) (· = Vm.bootKernel (Vm.smallLayout 10))
        k trace ∧
      sysSpawn (Vm.smallLayout 10) (bare k) 0 0 0x1000 (fun _ => none) true = .ok (after, some (-1)) ∧
      Untouched (bare k) after := by
  obtain ⟨k, trace, reached, test⟩ := replay_witness (Vm.step (Vm.smallLayout 10))
    (fun k _ action => Vm.fed k action = true) (· = Vm.bootKernel (Vm.smallLayout 10)) Vm.loadRun
    (Vm.bootKernel (Vm.smallLayout 10)) rfl
    (fun k _ => (sysSpawn (Vm.smallLayout 10) (bare k) 0 0 0x1000 (fun _ => none) true).toOption.any
      fun result : System × Option Int => decide (result.2 = some (-1))) (by decide +kernel)
  obtain ⟨⟨after, value⟩, ran, refused⟩ := (Option.any_eq_true ..).mp test
  obtain rfl : value = some (-1) := of_decide_eq_true refused
  have spawned := toOption_some.mp ran
  obtain ⟨_, _, untouched⟩ | ⟨_, np, created⟩ :=
    (creation_whole (Vm.smallLayout 10) (bare k) 0 0 0x1000 (fun _ => none) true).2.2.2 after (-1) spawned
  · exact ⟨k, trace, after, reached, spawned, untouched⟩
  · have number := created.number
    omega

/-- Memory is used up while the first program is copied: the call panics. -/
theorem starved_fork_panics : ∃ k trace,
    Reaches (Vm.step (Vm.smallLayout 10)) (fun k _ action => Vm.fed k action = true) (· = Vm.bootKernel (Vm.smallLayout 10))
        k trace ∧
      (k.pool 0).state = .used ∧ fork (Vm.smallLayout 10) (bare k) 0 0 = .error "uvmcopy\n" := by
  obtain ⟨k, trace, reached, test⟩ := replay_witness (Vm.step (Vm.smallLayout 10))
    (fun k _ action => Vm.fed k action = true) (· = Vm.bootKernel (Vm.smallLayout 10)) Vm.loadRun
    (Vm.bootKernel (Vm.smallLayout 10)) rfl
    (fun k _ => decide ((k.pool 0).state = .used) &&
      match fork (Vm.smallLayout 10) (bare k) 0 0 with
      | .error message => decide (message = "uvmcopy\n")
      | .ok _ => false) (by decide +kernel)
  rw [Bool.and_eq_true, decide_eq_true_eq] at test
  obtain ⟨used, panics⟩ := test
  split at panics
  · rename_i message same
    rw [decide_eq_true_eq] at panics
    exact ⟨k, trace, reached, used, panics ▸ same⟩
  · simp at panics

end BtbuOs.Proc
