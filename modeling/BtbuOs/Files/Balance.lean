import BtbuOs.Files.Kernel
import BtbuOs.Lib.RefCount
import Mathlib.Data.Fintype.Prod

namespace BtbuOs.Files

open Machine RefCount
open Sync (Tid)
open Sched (nproc Slot ProcState)

/-- The descriptors of the processes in use. -/
def table (k : Kernel) (cell : Slot × Fd) : Option FileIx :=
  if (k.pool cell.1).state = .used then (k.pool cell.1).files cell.2 else none

/-- The end of a pipe that an open file stands for. -/
def File.pipeEnd (file : File) : Option (Nat × Bool) :=
  match file.type with
  | .pipe page => some (page, file.writable)
  | _ => none

def File.inode (file : File) : Option InodeIx :=
  match file.type with
  | .inode i => some i
  | _ => none

def ends (k : Kernel) (f : FileIx) : Option (Nat × Bool) := (k.filepool f).pipeEnd

def inodes (k : Kernel) (f : FileIx) : Option InodeIx := (k.filepool f).inode

def endOpen (k : Kernel) (page : Nat) (writable : Bool) : Bool :=
  match k.pipes page with
  | none => false
  | some pi => if writable then pi.writeopen else pi.readopen

/-- Each open end of a pipe belongs to exactly one open file. -/
def EndsCounted (k : Kernel) : Prop := ∀ page writable, (endOpen k page writable).toNat = refs (ends k) (page, writable)

/-- Each reference to an inode belongs to an open file or to kernel code. -/
def InodesCounted (k : Kernel) : Prop := ∀ i, (k.itable i).ref = refs (inodes k) i + k.pins i

/-- Each reference to an open file belongs to a descriptor, and a file without references is released. -/
structure Held (k : Kernel) : Prop where
  ref : ∀ f, (k.filepool f).ref = refs (table k) f
  idle : ∀ f, (k.filepool f).ref = 0 → (k.filepool f).type = .none

/-- The invariant of the open files. -/
structure Balanced (k : Kernel) : Prop extends Held k where
  ends : EndsCounted k
  inodes : InodesCounted k

theorem ends_idle {k : Kernel} {f : FileIx} (type : (k.filepool f).type = .none) : ends k f = none := by
  simp [ends, File.pipeEnd, type]

theorem inodes_idle {k : Kernel} {f : FileIx} (type : (k.filepool f).type = .none) : inodes k f = none := by
  simp [inodes, File.inode, type]

/-- The ends depend on the open files and the pipes only. -/
theorem EndsCounted.keep {k after : Kernel} (counted : EndsCounted k) (ends : Files.ends after = Files.ends k)
    (pipes : after.pipes = k.pipes) : EndsCounted after := by
  intro page writable
  rw [endOpen, pipes, ends]
  exact counted page writable

/-- The references to inodes depend on the open files and the inode table only. -/
theorem InodesCounted.keep {k after : Kernel} (counted : InodesCounted k) (inodes : Files.inodes after = Files.inodes k)
    (itable : after.itable = k.itable) (pins : after.pins = k.pins) : InodesCounted after := by
  intro i
  rw [itable, inodes, pins]
  exact counted i

theorem ends_setFile (k : Kernel) (f : FileIx) (file : File) :
    ends (k.setFile f file) = Function.update (ends k) f file.pipeEnd := by
  funext g
  by_cases own : g = f
  · subst own
    simp [ends, Kernel.setFile]
  · simp [ends, Kernel.setFile, own]

theorem inodes_setFile (k : Kernel) (f : FileIx) (file : File) :
    inodes (k.setFile f file) = Function.update (inodes k) f file.inode := by
  funext g
  by_cases own : g = f
  · subst own
    simp [inodes, Kernel.setFile]
  · simp [inodes, Kernel.setFile, own]

/-- A descriptor of a process in use is a cell of the table. -/
theorem table_setFd {k : Kernel} {s : Slot} (used : (k.pool s).state = .used) (fd : Fd) (f : Option FileIx) :
    table (k.setFd s fd f) = Function.update (table k) (s, fd) f := by
  funext cell
  obtain ⟨r, d⟩ := cell
  by_cases row : r = s
  · subst row
    by_cases column : d = fd
    · subst column
      simp [table, Kernel.setFd, Kernel.setProcess, used]
    · simp [table, Kernel.setFd, Kernel.setProcess, used, column]
  · simp [table, Kernel.setFd, Kernel.setProcess, row]

/-- A change of one process keeps the table when its row stays the same. -/
theorem table_setProcess {k : Kernel} {s : Slot} {p : Process}
    (row : ∀ fd, (if p.state = .used then p.files fd else none) = table k (s, fd)) :
    table (k.setProcess s p) = table k := by
  funext cell
  obtain ⟨r, d⟩ := cell
  by_cases own : r = s
  · subst own
    rw [← row d]
    simp [table, Kernel.setProcess]
  · simp [table, Kernel.setProcess, own]

/-- A change that keeps the files and the table keeps the references. -/
theorem Held.same {k after : Kernel} (held : Held k) (cells : table after = table k)
    (filepool : after.filepool = k.filepool) : Held after := by
  constructor
  · intro f
    rw [filepool, cells]
    exact held.ref f
  · rw [filepool]
    exact held.idle

/-- A change outside the files keeps the balance. -/
theorem Balanced.same {k after : Kernel} (balanced : Balanced k) (cells : table after = table k)
    (filepool : after.filepool = k.filepool) (pipes : after.pipes = k.pipes) (inodes : InodesCounted after) :
    Balanced after := by
  refine ⟨balanced.toHeld.same cells filepool, balanced.ends.keep ?_ pipes, inodes⟩
  funext f
  rw [Files.ends, Files.ends, filepool]

/-- A new descriptor of a file goes with one more reference. -/
theorem Held.attach {k after : Kernel} (held : Held k) {cell : Slot × Fd} {f : FileIx} {file : File}
    (empty : table k cell = none) (cells : table after = Function.update (table k) cell (some f))
    (filepool : after.filepool = Function.update k.filepool f file) (ref : file.ref = (k.filepool f).ref + 1) :
    Held after := by
  constructor
  · intro g
    rw [cells, refs_set empty, filepool]
    by_cases own : g = f
    · subst own
      rw [Function.update_self, if_pos rfl, ref, held.ref g]
      omega
    · rw [Function.update_of_ne own, if_neg own, held.ref g, Nat.add_zero]
  · intro g zero
    rw [filepool] at zero ⊢
    by_cases own : g = f
    · subst own
      rw [Function.update_self, ref, held.ref g] at zero
      omega
    · rw [Function.update_of_ne own] at zero ⊢
      exact held.idle g zero

/-- A descriptor that is given up takes its reference along. -/
theorem Held.detach {k after : Kernel} (held : Held k) {cell : Slot × Fd} {f : FileIx} {file : File}
    (named : table k cell = some f) (cells : table after = Function.update (table k) cell none)
    (filepool : after.filepool = Function.update k.filepool f file) (ref : file.ref = (k.filepool f).ref - 1)
    (idle : file.ref = 0 → file.type = .none) : Held after := by
  constructor
  · intro g
    have counted := refs_clear named g
    rw [cells, filepool]
    by_cases own : g = f
    · subst own
      rw [if_pos rfl] at counted
      rw [Function.update_self, ref, held.ref g, ← counted]
      omega
    · rw [if_neg own, Nat.add_zero] at counted
      rw [Function.update_of_ne own, counted, held.ref g]
  · intro g zero
    rw [filepool] at zero ⊢
    by_cases own : g = f
    · subst own
      rw [Function.update_self] at zero ⊢
      exact idle zero
    · rw [Function.update_of_ne own] at zero ⊢
      exact held.idle g zero

/-- Kernel code that handles inodes leaves the processes, the files and the pipes alone. -/
structure Aside (k after : Kernel) : Prop where
  pool : after.pool = k.pool
  filepool : after.filepool = k.filepool
  pipes : after.pipes = k.pipes
  inodes : InodesCounted k → InodesCounted after

theorem Aside.refl (k : Kernel) : Aside k k := ⟨rfl, rfl, rfl, id⟩

theorem Aside.trans {k mid after : Kernel} (first : Aside k mid) (second : Aside mid after) : Aside k after :=
  ⟨second.pool.trans first.pool, second.filepool.trans first.filepool, second.pipes.trans first.pipes,
    fun counted => second.inodes (first.inodes counted)⟩

theorem Balanced.aside {k after : Kernel} (balanced : Balanced k) (aside : Aside k after) : Balanced after := by
  apply balanced.same
  · funext cell
    rw [table, table, aside.pool]
  · exact aside.filepool
  · exact aside.pipes
  · exact aside.inodes balanced.inodes

/-- A reference that kernel code takes or gives back shows in both counts. -/
theorem aside_pin (k : Kernel) (i : InodeIx) {inode : Inode} {change : Int} (ref : inode.ref = (k.itable i).ref + change) :
    Aside k ((k.setInode i inode).pin i change) := by
  refine ⟨rfl, rfl, rfl, fun counted j => ?_⟩
  show (Function.update k.itable i inode j).ref = refs (Files.inodes k) j + Function.update k.pins i (k.pins i + change) j
  by_cases own : j = i
  · subst own
    rw [Function.update_self, Function.update_self, ref, counted j, Int.add_assoc]
  · rw [Function.update_of_ne own, Function.update_of_ne own]
    exact counted j

theorem iget_aside {k after : Kernel} {inum : Nat} {i : InodeIx} (got : iget k inum = .ok (i, after)) : Aside k after := by
  unfold iget at got
  split at got
  · simp only [Except.ok.injEq, Prod.mk.injEq] at got
    obtain ⟨rfl, rfl⟩ := got
    exact aside_pin k _ rfl
  · split at got
    · contradiction
    · rename_i j found
      simp only [Except.ok.injEq, Prod.mk.injEq] at got
      obtain ⟨rfl, rfl⟩ := got
      have free : (k.itable j).ref = 0 := by simpa using List.find?_some found
      apply aside_pin
      rw [free]
      rfl

theorem iput_aside (k : Kernel) (i : InodeIx) : Aside k (iput k i) := aside_pin k i rfl

theorem namei_aside {k after : Kernel} {found : Option Entry} {ip : Option InodeIx}
    (named : namei k found = .ok (ip, after)) : Aside k after := by
  obtain ⟨⟨dp, mid⟩, root, rest⟩ := bind_ok.mp named
  cases found with
  | none =>
      simp only [Except.ok.injEq, Prod.mk.injEq] at rest
      obtain ⟨rfl, rfl⟩ := rest
      exact iget_aside root
  | some entry =>
      obtain ⟨⟨i, last⟩, got, done⟩ := bind_ok.mp rest
      simp only [Except.ok.injEq, Prod.mk.injEq] at done
      obtain ⟨rfl, rfl⟩ := done
      exact (iget_aside root).trans (iget_aside got)

theorem create_aside {k after : Kernel} {found : Option Entry} {fresh : Option Nat} {ip : Option InodeIx}
    (created : create k found fresh = .ok (ip, after)) : Aside k after := by
  obtain ⟨⟨dp, mid⟩, root, rest⟩ := bind_ok.mp created
  cases found with
  | some entry =>
      obtain ⟨⟨i, last⟩, got, typed⟩ := bind_ok.mp rest
      obtain ⟨_, _, done⟩ := bind_ok.mp typed
      have closed := ((iget_aside root).trans (iget_aside got)).trans (iput_aside last dp)
      split at done
      · simp only [Except.ok.injEq, Prod.mk.injEq] at done
        obtain ⟨rfl, rfl⟩ := done
        exact closed
      · simp only [Except.ok.injEq, Prod.mk.injEq] at done
        obtain ⟨rfl, rfl⟩ := done
        exact closed.trans (iput_aside _ i)
  | none =>
      cases fresh with
      | none => simp at rest
      | some inum =>
          obtain ⟨⟨i, last⟩, got, done⟩ := bind_ok.mp rest
          simp only [Except.ok.injEq, Prod.mk.injEq] at done
          obtain ⟨rfl, rfl⟩ := done
          exact ((iget_aside root).trans (iget_aside got)).trans (iput_aside last dp)

theorem openInode_aside {k after : Kernel} {found : Option Entry} {fresh : Option Nat} {omode : Nat}
    {ip : Option InodeIx} (opened : openInode k found fresh omode = .ok (ip, after)) : Aside k after := by
  unfold openInode at opened
  split at opened
  · exact create_aside opened
  · obtain ⟨⟨named, mid⟩, walked, rest⟩ := bind_ok.mp opened
    have aside := namei_aside walked
    cases found with
    | none =>
        simp only [Except.ok.injEq, Prod.mk.injEq] at rest
        obtain ⟨rfl, rfl⟩ := rest
        exact aside
    | some entry =>
        obtain ⟨_, _, done⟩ := bind_ok.mp rest
        split at done
        · contradiction
        · simp only [Except.ok.injEq, Prod.mk.injEq] at done
          obtain ⟨rfl, rfl⟩ := done
          exact aside

/-- What `fileclose` does when it returns. -/
structure Closed (k after : Kernel) (f : FileIx) (file : File) : Prop where
  pool : after.pool = k.pool
  filepool : after.filepool = Function.update k.filepool f file
  ref : file.ref = (k.filepool f).ref - 1
  idle : file.ref = 0 → file.type = .none
  ends : EndsCounted k → EndsCounted after
  inodes : InodesCounted k → InodesCounted after

/-- The only open file of an end closes it. -/
theorem pipeclose_ends {k : Kernel} (counted : EndsCounted k) {f : FileIx} {page : Nat} {writable : Bool}
    (held : ends k f = some (page, writable)) {file : File} (none : file.pipeEnd = none) :
    EndsCounted ((pipeclose k page writable).setFile f file) := by
  have mine := counted page writable
  have positive := refs_pos.mpr ⟨f, held⟩
  have opened : endOpen k page writable = true := by
    cases value : endOpen k page writable with
    | true => rfl
    | false =>
        rw [value] at mine
        simp only [Bool.toNat_false] at mine
        omega
  have openAfter (q : Nat) (w : Bool) :
      endOpen (pipeclose k page writable) q w = (endOpen k q w && !decide ((q, w) = (page, writable))) := by
    cases live : k.pipes page with
    | none => simp [endOpen, live] at opened
    | some pi =>
        by_cases own : q = page
        · subst own
          cases writable <;> cases w <;> cases readopen : pi.readopen <;> cases writeopen : pi.writeopen <;>
            simp [pipeclose, endOpen, Kernel.setPipe, live, readopen, writeopen]
        · simp [pipeclose, endOpen, Kernel.setPipe, live, own]
  have ends : Files.ends (pipeclose k page writable) = Files.ends k := by
    unfold pipeclose
    split <;> rfl
  intro q w
  rw [ends_setFile, none, ends]
  have cleared := refs_clear held (q, w)
  have before := counted q w
  show (endOpen (pipeclose k page writable) q w).toNat = _
  rw [openAfter]
  by_cases own : (q, w) = (page, writable)
  · rw [if_pos own] at cleared
    have one := Bool.toNat_le (endOpen k q w)
    simp only [own, decide_true, Bool.not_true, Bool.and_false, Bool.toNat_false]
    rw [own] at cleared before
    omega
  · rw [if_neg own] at cleared
    simp only [own, decide_false, Bool.not_false, Bool.and_true]
    omega

theorem fileclose_closed {k after : Kernel} {f : FileIx} (closed : fileclose k f = .ok after) :
    ∃ file, Closed k after f file := by
  have endsKept {file : File} (same : file.pipeEnd = ends k f) (counted : EndsCounted k) :
      EndsCounted (k.setFile f file) := by
    intro page writable
    rw [ends_setFile, same, Function.update_eq_self]
    exact counted page writable
  have inodesKept {file : File} (same : file.inode = inodes k f) (counted : InodesCounted k) :
      InodesCounted (k.setFile f file) := by
    intro i
    rw [inodes_setFile, same, Function.update_eq_self]
    exact counted i
  unfold fileclose at closed
  simp only at closed
  split at closed
  · contradiction
  · rename_i held
    split at closed
    · rename_i more
      simp only [Except.ok.injEq] at closed
      subst closed
      refine ⟨_, rfl, rfl, rfl, fun zero => ?_, endsKept rfl, inodesKept rfl⟩
      simp only at zero
      omega
    · rename_i last
      have ref : (0 : Int) = (k.filepool f).ref - 1 := by omega
      cases type : (k.filepool f).type with
      | none => simp [type] at closed
      | stdio =>
          simp only [type, Except.ok.injEq] at closed
          subst closed
          refine ⟨closedFile, rfl, rfl, ref, fun _ => rfl, endsKept ?_, inodesKept ?_⟩
          · show none = ends k f
            simp [File.pipeEnd, ends, type]
          · show none = inodes k f
            simp [File.inode, inodes, type]
      | pipe page =>
          simp only [type, Except.ok.injEq] at closed
          subst closed
          have still : (pipeclose k page (k.filepool f).writable).filepool = k.filepool ∧
              (pipeclose k page (k.filepool f).writable).pool = k.pool ∧
              (pipeclose k page (k.filepool f).writable).itable = k.itable ∧
              (pipeclose k page (k.filepool f).writable).pins = k.pins := by
            unfold pipeclose
            split <;> exact ⟨rfl, rfl, rfl, rfl⟩
          refine ⟨closedFile, still.2.1, ?_, ref, fun _ => rfl, fun counted => ?_, fun counted => ?_⟩
          · show Function.update (pipeclose k page (k.filepool f).writable).filepool f _ = _
            rw [still.1]
          · apply pipeclose_ends counted
            · simp [ends, File.pipeEnd, type]
            · rfl
          · intro i
            rw [inodes_setFile]
            show ((pipeclose k page (k.filepool f).writable).itable i).ref =
              refs (Function.update (inodes (pipeclose k page (k.filepool f).writable)) f none) i +
                (pipeclose k page (k.filepool f).writable).pins i
            have same : inodes (pipeclose k page (k.filepool f).writable) = inodes k := by
              funext g
              rw [inodes, inodes, still.1]
            rw [still.2.2.1, still.2.2.2, same]
            have absent : none = inodes k f := by simp [inodes, File.inode, type]
            rw [absent, Function.update_eq_self]
            exact counted i
      | inode i =>
          simp only [type, Except.ok.injEq] at closed
          subst closed
          refine ⟨closedFile, rfl, rfl, ref, fun _ => rfl, fun counted => ?_, fun counted j => ?_⟩
          · apply endsKept _ counted
            show none = ends k f
            simp [File.pipeEnd, ends, type]
          · have held : inodes k f = some i := by simp [inodes, File.inode, type]
            have cleared := refs_clear held j
            have before := counted j
            rw [inodes_setFile]
            show (Function.update k.itable i { k.itable i with ref := (k.itable i).ref - 1 } j).ref =
              refs (Function.update (inodes k) f none) j +
                Function.update (Function.update k.pins i (k.pins i + 1)) i
                  (Function.update k.pins i (k.pins i + 1) i + -1) j
            by_cases own : j = i
            · subst own
              simp only [Function.update_self, if_true] at cleared ⊢
              omega
            · simp only [own, if_false, Nat.add_zero] at cleared
              simp only [ne_eq, own, not_false_eq_true, Function.update_of_ne]
              omega

end BtbuOs.Files
