import BtbuOs.Files.Runs

namespace BtbuOs.Files

open Machine RefCount
open Sync (Tid)
open Sched (nproc Slot ProcState)

/-- Two descriptors of the process are free. -/
def TwoFree (k : Kernel) (s : Slot) : Prop :=
  ∃ first second : Fd, first < second ∧ (k.pool s).files first = none ∧ (k.pool s).files second = none

instance (k : Kernel) (s : Slot) : Decidable (TwoFree k s) :=
  inferInstanceAs (Decidable (∃ first second : Fd, _ ∧ (k.pool s).files first = none ∧ (k.pool s).files second = none))

/-- The pool has no two free entries. -/
def Exhausted (k : Kernel) : Prop := ((filealloc k).bind fun taken => filealloc taken.2).isNone = true

instance (k : Kernel) : Decidable (Exhausted k) := inferInstanceAs (Decidable (_ = _))

/-- One more end of a pipe is open together with its file. -/
theorem EndsCounted.give {k after : Kernel} (counted : EndsCounted k) {f : FileIx} {page : Nat} {writable : Bool}
    (idle : ends k f = none) (closed : endOpen k page writable = false)
    (ends : Files.ends after = Function.update (Files.ends k) f (some (page, writable)))
    (opens : ∀ q w, endOpen after q w = (endOpen k q w || decide ((q, w) = (page, writable)))) : EndsCounted after := by
  intro q w
  rw [ends, opens, refs_set idle, ← counted q w]
  by_cases own : (q, w) = (page, writable)
  · obtain ⟨rfl, rfl⟩ := Prod.mk.inj own
    simp [closed]
  · simp [own]

/-- Both ends of a new pipe are open and belong to the two files. -/
structure Piped (k after : Kernel) (f0 f1 : FileIx) (file0 file1 : File) : Prop where
  pool : after.pool = k.pool
  filepool : after.filepool = Function.update (Function.update k.filepool f0 file0) f1 file1
  ref : file0.ref = 1 ∧ file1.ref = 1
  ends : EndsCounted after
  inodes : InodesCounted after

/-- The files of the two ends. -/
def readEnd (file : File) (page : Nat) : File := { file with ref := 1, type := .pipe page, readable := true, writable := false }

def writeEnd (file : File) (page : Nat) : File := { file with ref := 1, type := .pipe page, readable := false, writable := true }

/-- A new pipe is open at the ends that belong to its two files. -/
structure Opened (k after : Kernel) (f0 f1 : FileIx) (page : Nat) : Prop where
  pool : after.pool = k.pool
  filepool : after.filepool =
    Function.update (Function.update k.filepool f0 (readEnd (k.filepool f0) page)) f1 (writeEnd (k.filepool f1) page)
  pipes : after.pipes = Function.update k.pipes page (some (Ipc.pipealloc fun _ => 5))
  table : after.itable = k.itable ∧ after.pins = k.pins
  ends : EndsCounted after

/-- A new pipe gets two files that were taken. -/
theorem pipealloc_made {k after : Kernel} {f0 f1 : FileIx} {page : Nat} (apart : f1 ≠ f0)
    (made : pipealloc ((k.setFile f0 { k.filepool f0 with ref := 1 }).setFile f1 { k.filepool f1 with ref := 1 }) f0 f1
      (some page) = some after) : after.pool = k.pool ∧ (after.itable = k.itable ∧ after.pins = k.pins) ∧ after.filepool =
        Function.update (Function.update k.filepool f0 (readEnd (k.filepool f0) page)) f1 (writeEnd (k.filepool f1) page) ∧
      after.pipes = Function.update k.pipes page (some (Ipc.pipealloc fun _ => 5)) := by
  simp only [pipealloc, Option.some.injEq] at made
  subst made
  refine ⟨rfl, ⟨rfl, rfl⟩, ?_, rfl⟩
  funext f
  by_cases second : f = f1
  · subst second
    simp [Kernel.setFile, Kernel.setPipe, apart, writeEnd]
  · by_cases first : f = f0
    · subst first
      simp [Kernel.setFile, Kernel.setPipe, second, readEnd]
    · simp [Kernel.setFile, Kernel.setPipe, first, second]

theorem pipealloc_opened {k after : Kernel} {f0 f1 : FileIx} {page : Nat} (counted : EndsCounted k) (apart : f1 ≠ f0)
    (type0 : (k.filepool f0).type = .none) (type1 : (k.filepool f1).type = .none) (offered : k.pipes page = none)
    (made : pipealloc ((k.setFile f0 { k.filepool f0 with ref := 1 }).setFile f1 { k.filepool f1 with ref := 1 }) f0 f1
      (some page) = some after) : Opened k after f0 f1 page := by
  obtain ⟨pool, table, filepool, pipes⟩ := pipealloc_made apart made
  have shut (w : Bool) : endOpen k page w = false := by simp [endOpen, offered]
  have ends : Files.ends after =
      Function.update (Function.update (Files.ends k) f0 (some (page, false))) f1 (some (page, true)) := by
    funext f
    rw [Files.ends, filepool]
    by_cases second : f = f1
    · subst second
      simp [File.pipeEnd, writeEnd]
    · by_cases first : f = f0
      · subst first
        simp [File.pipeEnd, second, readEnd]
      · simp [first, second, Files.ends]
  let mid : Kernel := { k with
    filepool := Function.update k.filepool f0 (readEnd (k.filepool f0) page)
    pipes := Function.update k.pipes page (some { Ipc.pipealloc fun _ => 5 with writeopen := false }) }
  have half : EndsCounted mid := by
    apply counted.give (ends_idle type0) (shut false)
    · exact ends_setFile k f0 (readEnd (k.filepool f0) page)
    · intro q w
      by_cases own : q = page
      · subst own
        cases w <;> simp [mid, endOpen, offered, Ipc.pipealloc]
      · simp [mid, endOpen, own]
  have idle1 : Files.ends mid f1 = none := by
    show Files.ends (k.setFile f0 (readEnd (k.filepool f0) page)) f1 = none
    rw [ends_setFile, Function.update_of_ne apart]
    exact ends_idle type1
  have shut1 : endOpen mid page true = false := by simp [mid, endOpen]
  refine ⟨pool, filepool, pipes, table, ?_⟩
  apply half.give idle1 shut1
  · rw [ends]
    show _ = Function.update (Files.ends (k.setFile f0 (readEnd (k.filepool f0) page))) f1 _
    rw [ends_setFile]
    rfl
  · intro q w
    rw [endOpen, pipes]
    by_cases own : q = page
    · subst own
      cases w <;> simp [mid, endOpen, Ipc.pipealloc]
    · simp [mid, endOpen, own]

theorem pipealloc_piped {k after : Kernel} {f0 f1 : FileIx} {page : Nat} (balanced : Balanced k) (apart : f1 ≠ f0)
    (zero0 : (k.filepool f0).ref = 0) (zero1 : (k.filepool f1).ref = 0) (offered : k.pipes page = none)
    (made : pipealloc ((k.setFile f0 { k.filepool f0 with ref := 1 }).setFile f1 { k.filepool f1 with ref := 1 }) f0 f1
      (some page) = some after) : ∃ file0 file1, Piped k after f0 f1 file0 file1 := by
  have type0 := balanced.idle f0 zero0
  have type1 := balanced.idle f1 zero1
  have opened := pipealloc_opened balanced.ends apart type0 type1 offered made
  refine ⟨_, _, opened.pool, opened.filepool, ⟨rfl, rfl⟩, opened.ends, ?_⟩
  apply balanced.inodes.keep _ opened.table.1 opened.table.2
  funext f
  rw [inodes, opened.filepool]
  by_cases second : f = f1
  · subst second
    simp [File.inode, inodes_idle type1, writeEnd]
  · by_cases first : f = f0
    · subst first
      simp [File.inode, second, inodes_idle type0, readEnd]
    · simp [first, second, inodes]

/-- Without a page the new entries are closed before they have a type. -/
theorem pipealloc_none {k after : Kernel} {f0 f1 : FileIx} (held : Held k) (apart : f1 ≠ f0)
    (zero0 : (k.filepool f0).ref = 0) :
    fileclose ((k.setFile f0 { k.filepool f0 with ref := 1 }).setFile f1 { k.filepool f1 with ref := 1 }) f0 ≠ .ok after := by
  apply fileclose_untyped
  · simpa [Kernel.setFile, apart.symm] using held.idle f0 zero0
  · simp [Kernel.setFile, apart.symm]

/-- The pipe is closed again when the descriptors cannot be copied out. -/
theorem closePipe_balanced {k piped cleared mid after : Kernel} {f0 f1 : FileIx} {file0 file1 : File}
    (balanced : Balanced k) (apart : f1 ≠ f0) (zero0 : (k.filepool f0).ref = 0) (zero1 : (k.filepool f1).ref = 0)
    (made : Piped k piped f0 f1 file0 file1) (cells : table cleared = table k)
    (same : cleared.filepool = piped.filepool ∧ cleared.pipes = piped.pipes ∧ cleared.itable = piped.itable ∧
      cleared.pins = piped.pins)
    (first : fileclose cleared f0 = .ok mid) (second : fileclose mid f1 = .ok after) : Balanced after := by
  obtain ⟨filepool, pipes, itable, pins⟩ := same
  obtain ⟨closed0, close0⟩ := fileclose_closed first
  obtain ⟨closed1, close1⟩ := fileclose_closed second
  have pool : after.filepool =
      Function.update (Function.update (Function.update (Function.update k.filepool f0 file0) f1 file1) f0 closed0)
        f1 closed1 := by
    rw [close1.filepool, close0.filepool, filepool, made.filepool]
  have ref0 : closed0.ref = 0 := by
    rw [close0.ref, filepool, made.filepool, Function.update_of_ne apart.symm, Function.update_self, made.ref.1]
    rfl
  have ref1 : closed1.ref = 0 := by
    rw [close1.ref, close0.filepool, Function.update_of_ne apart, filepool, made.filepool, Function.update_self,
      made.ref.2]
    rfl
  have rows : table after = table k := by
    rw [← cells]
    funext cell
    rw [table, table, close1.pool, close0.pool]
  constructor
  · constructor
    · intro f
      rw [rows, ← balanced.ref f, pool]
      by_cases last : f = f1
      · subst last
        rw [Function.update_self, ref1, zero1]
      · by_cases head : f = f0
        · subst head
          rw [Function.update_of_ne last, Function.update_self, ref0, zero0]
        · simp [last, head]
    · intro f zero
      rw [pool] at zero ⊢
      by_cases last : f = f1
      · subst last
        rw [Function.update_self]
        exact close1.idle ref1
      · by_cases head : f = f0
        · subst head
          rw [Function.update_of_ne last, Function.update_self]
          exact close0.idle ref0
        · simp only [ne_eq, last, head, not_false_eq_true, Function.update_of_ne] at zero ⊢
          exact balanced.idle f zero
  · apply close1.ends
    apply close0.ends
    apply made.ends.keep _ pipes
    funext f
    rw [ends, ends, filepool]
  · apply close1.inodes
    apply close0.inodes
    apply made.inodes.keep _ itable pins
    funext f
    rw [inodes, inodes, filepool]

/-- What the two calls of `fdalloc` and the two writes behind `err1` do to the descriptors. -/
structure Cleared (k after : Kernel) (s : Slot) : Prop where
  files : ∀ r, (after.pool r).state = (k.pool r).state ∧ (after.pool r).files = (k.pool r).files
  same : after.filepool = k.filepool ∧ after.pipes = k.pipes ∧ after.itable = k.itable ∧ after.pins = k.pins

theorem clearFd_cleared {k first second : Kernel} {s : Slot} {f0 f1 : FileIx} {fd0 fd1 : Option Fd}
    (alloc0 : fdalloc k s f0 = (fd0, first)) (alloc1 : fdalloc first s f1 = (fd1, second)) :
    Cleared k (clearFd (clearFd second s fd0) s fd1) s := by
  constructor
  · intro r
    by_cases own : r = s
    · subst own
      rcases fdalloc_filled alloc0 with ⟨rfl, rfl, _⟩ | ⟨d0, rfl, empty0, rfl⟩ <;>
        rcases fdalloc_filled alloc1 with ⟨rfl, rfl, _⟩ | ⟨d1, rfl, empty1, rfl⟩
      · simp [clearFd, Kernel.setProcess]
      · refine ⟨by simp [clearFd, Kernel.setProcess], ?_⟩
        funext d
        by_cases same : d = d1
        · subst same
          simp [clearFd, Kernel.setFd, Kernel.setProcess, empty1]
        · simp [clearFd, Kernel.setFd, Kernel.setProcess, same]
      · refine ⟨by simp [clearFd, Kernel.setProcess], ?_⟩
        funext d
        by_cases same : d = d0
        · subst same
          simp [clearFd, Kernel.setFd, Kernel.setProcess, empty0]
        · simp [clearFd, Kernel.setFd, Kernel.setProcess, same]
      · refine ⟨by simp [clearFd], ?_⟩
        funext d
        have distinct : d1 ≠ d0 := by
          rintro rfl
          simp [Kernel.setFd, Kernel.setProcess] at empty1
        rw [Kernel.setFd_files _ _ _ _ _ _ fun same => distinct same.2] at empty1
        by_cases last : d = d1
        · subst last
          simp [clearFd, Kernel.setFd, Kernel.setProcess, empty1]
        · by_cases head : d = d0
          · subst head
            simp [clearFd, Kernel.setFd, Kernel.setProcess, last, empty0]
          · simp [clearFd, Kernel.setFd, Kernel.setProcess, last, head]
    · rcases fdalloc_filled alloc0 with ⟨rfl, rfl, _⟩ | ⟨d0, rfl, _, rfl⟩ <;>
        rcases fdalloc_filled alloc1 with ⟨rfl, rfl, _⟩ | ⟨d1, rfl, _, rfl⟩ <;>
        simp [clearFd, Kernel.setFd, Kernel.setProcess, own]
  · rcases fdalloc_filled alloc0 with ⟨rfl, rfl, _⟩ | ⟨d0, rfl, _, rfl⟩ <;>
      rcases fdalloc_filled alloc1 with ⟨rfl, rfl, _⟩ | ⟨d1, rfl, _, rfl⟩ <;>
      exact ⟨rfl, rfl, rfl, rfl⟩

/-- Two calls of `fdalloc` fill two free descriptors, or there are no two. -/
theorem fdalloc_pair {k first second : Kernel} {s : Slot} {f0 f1 : FileIx} {fd0 fd1 : Option Fd}
    (alloc0 : fdalloc k s f0 = (fd0, first)) (alloc1 : fdalloc first s f1 = (fd1, second)) :
    (∃ d0 d1, d1 ≠ d0 ∧ (k.pool s).files d0 = none ∧ (k.pool s).files d1 = none ∧ fd0 = some d0 ∧ fd1 = some d1 ∧
      second = (k.setFd s d0 (some f0)).setFd s d1 (some f1)) ∨ ¬TwoFree k s ∧ (fd0 = none ∨ fd1 = none) := by
  rcases fdalloc_filled alloc0 with ⟨rfl, rfl, taken⟩ | ⟨d0, rfl, empty0, rfl⟩
  · refine Or.inr ⟨?_, Or.inl rfl⟩
    rintro ⟨a, _, _, free, _⟩
    exact taken a free
  · rcases fdalloc_filled alloc1 with ⟨rfl, rfl, taken⟩ | ⟨d1, rfl, empty1, rfl⟩
    · refine Or.inr ⟨?_, Or.inr rfl⟩
      rintro ⟨a, b, order, freeA, freeB⟩
      have left (d : Fd) (other : d ≠ d0) : (k.pool s).files d ≠ none := by
        have still := taken d
        rwa [Kernel.setFd_files _ _ _ _ _ _ fun same => other same.2] at still
      by_cases head : a = d0
      · subst head
        exact left b (Ne.symm (Fin.ne_of_lt order)) freeB
      · exact left a head freeA
    · have distinct : d1 ≠ d0 := by
        rintro rfl
        simp [Kernel.setFd, Kernel.setProcess] at empty1
      rw [Kernel.setFd_files _ _ _ _ _ _ fun same => distinct same.2] at empty1
      exact Or.inl ⟨d0, d1, distinct, empty0, empty1, rfl, rfl, rfl⟩

/-- Two free descriptors are enough for both files. -/
theorem fdalloc_both {k piped first second : Kernel} {s : Slot} {f0 f1 : FileIx} {file0 file1 : File} {fd0 fd1 : Option Fd}
    (balanced : Balanced k) (used : (k.pool s).state = .used) (apart : f1 ≠ f0) (zero0 : (k.filepool f0).ref = 0)
    (zero1 : (k.filepool f1).ref = 0) (made : Piped k piped f0 f1 file0 file1) (free : TwoFree k s)
    (alloc0 : fdalloc piped s f0 = (fd0, first)) (alloc1 : fdalloc first s f1 = (fd1, second)) : Balanced second := by
  have still : TwoFree piped s := by rwa [TwoFree, made.pool]
  rcases fdalloc_pair alloc0 alloc1 with ⟨d0, d1, distinct, empty0, empty1, rfl, rfl, rfl⟩ | ⟨few, -⟩
  · have ready : (piped.pool s).state = .used := by rw [made.pool, used]
    have cells : table piped = table k := by
      funext cell
      rw [table, table, made.pool]
    rw [made.pool] at empty0 empty1
    have vacant0 : table k (s, d0) = none := by simp [table, empty0]
    have half : Held { (piped.setFd s d0 (some f0)) with filepool := Function.update k.filepool f0 file0 } := by
      apply balanced.toHeld.attach vacant0
      · rw [← cells]
        exact table_setFd ready d0 (some f0)
      · rfl
      · rw [zero0, made.ref.1]
        rfl
    have vacant1 : table (piped.setFd s d0 (some f0)) (s, d1) = none := by
      rw [table_setFd ready, Function.update_of_ne (fun same => distinct (Prod.mk.inj same).2), cells]
      simp [table, empty1]
    constructor
    · apply half.attach vacant1
      · exact table_setFd (by simpa using ready) d1 (some f1)
      · exact made.filepool
      · show file1.ref = (Function.update k.filepool f0 file0 f1).ref + 1
        rw [Function.update_of_ne apart, zero1, made.ref.2]
        rfl
    · exact made.ends.keep rfl rfl
    · exact made.inodes.keep rfl rfl rfl
  · exact absurd still few

/-- The second entry differs from the first one. -/
theorem filealloc_second {k after : Kernel} {f0 f1 : FileIx}
    (alloc : filealloc (k.setFile f0 { k.filepool f0 with ref := 1 }) = some (f1, after)) :
    f1 ≠ f0 ∧ (k.filepool f1).ref = 0 ∧
      after = (k.setFile f0 { k.filepool f0 with ref := 1 }).setFile f1 { k.filepool f1 with ref := 1 } := by
  obtain ⟨free, rfl⟩ := filealloc_taken alloc
  have apart : f1 ≠ f0 := by
    rintro rfl
    simp [Kernel.setFile] at free
  have same : (k.setFile f0 { k.filepool f0 with ref := 1 }).filepool f1 = k.filepool f1 := by
    simp [Kernel.setFile, apart]
  rw [same] at free ⊢
  exact ⟨apart, free, rfl⟩

theorem sysPipe_balanced {k after : Kernel} {s : Slot} {page : Option Nat} {copied : Bool} {events : List Event}
    (balanced : Balanced k) (used : (k.pool s).state = .used) (offered : ∀ place, page = some place → k.pipes place = none)
    (accounts : TwoFree k s ∨ copied = false ∨ page = none ∨ Exhausted k)
    (done : sysPipe k s page copied = .ok (after, events)) : Balanced after := by
  unfold sysPipe at done
  cases alloc0 : filealloc k with
  | none =>
      simp only [alloc0, Except.ok.injEq, Prod.mk.injEq] at done
      obtain ⟨rfl, rfl⟩ := done
      exact balanced
  | some taken0 =>
      obtain ⟨f0, mid⟩ := taken0
      obtain ⟨zero0, rfl⟩ := filealloc_taken alloc0
      cases alloc1 : filealloc (k.setFile f0 { k.filepool f0 with ref := 1 }) with
      | none =>
          simp only [alloc0, alloc1] at done
          obtain ⟨closed, impossible, _⟩ := bind_ok.mp done
          refine absurd impossible (fileclose_untyped ?_ ?_ closed)
          · simpa [Kernel.setFile] using balanced.idle f0 zero0
          · simp [Kernel.setFile]
      | some taken1 =>
          obtain ⟨f1, last⟩ := taken1
          obtain ⟨apart, free1, rfl⟩ := filealloc_second alloc1
          simp only [alloc0, alloc1] at done
          cases page with
          | none =>
              simp only [pipealloc] at done
              obtain ⟨closed, impossible, _⟩ := bind_ok.mp done
              exact absurd impossible (pipealloc_none balanced.toHeld apart zero0)
          | some place =>
              split at done
              · rename_i failed
                simp [pipealloc] at failed
              · rename_i piped allocated
                obtain ⟨file0, file1, made⟩ :=
                  pipealloc_piped balanced apart zero0 free1 (offered place rfl) allocated
                cases filled0 : fdalloc piped s f0 with
                | mk fd0 first =>
                    cases filled1 : fdalloc first s f1 with
                    | mk fd1 second =>
                        simp only [filled0, filled1] at done
                        cases copied with
                        | true =>
                            simp only [if_true, Except.ok.injEq, Prod.mk.injEq] at done
                            obtain ⟨rfl, rfl⟩ := done
                            have free : TwoFree k s := by
                              rcases accounts with free | impossible | impossible | full
                              · exact free
                              · simp at impossible
                              · simp at impossible
                              · simp [Exhausted, alloc0, alloc1] at full
                            exact fdalloc_both balanced used apart zero0 free1 made free filled0 filled1
                        | false =>
                            simp only [Bool.false_eq_true, if_false] at done
                            obtain ⟨closed0, closing0, rest⟩ := bind_ok.mp done
                            obtain ⟨closed1, closing1, ended⟩ := bind_ok.mp rest
                            simp only [Except.ok.injEq, Prod.mk.injEq] at ended
                            obtain ⟨rfl, rfl⟩ := ended
                            have cleared := clearFd_cleared filled0 filled1
                            refine closePipe_balanced balanced apart zero0 free1 made ?_ cleared.same closing0 closing1
                            funext cell
                            rw [table, table, (cleared.files cell.1).1, (cleared.files cell.1).2, made.pool]

end BtbuOs.Files
