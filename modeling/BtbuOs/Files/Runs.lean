import BtbuOs.Files.Counted

namespace BtbuOs.Files

open Machine RefCount
open Sync (Tid)
open Sched (nproc Slot ProcState)

theorem Balanced.trap {k : Kernel} (balanced : Balanced k) (fault : Option (Slot × Tid)) :
    Balanced { k with fault } := balanced.same rfl rfl rfl balanced.inodes

/-- The parent pointer is no part of the table. -/
theorem setParent_balanced {k : Kernel} (balanced : Balanced k) (np s : Slot) : Balanced (setParent k np s) := by
  apply balanced.same
  · exact table_setProcess fun fd => rfl
  · rfl
  · rfl
  · exact balanced.inodes

theorem fork_balanced {k after : Kernel} {s : Slot} {t : Tid} {memory : Memory} {events : List Event}
    (balanced : Balanced k) (used : (k.pool s).state = .used) (done : fork k s t memory = .ok (after, events)) :
    Balanced after := by
  unfold fork at done
  cases alloc : allocproc k with
  | none => simp [alloc] at done
  | some pair =>
      obtain ⟨np, mid⟩ := pair
      obtain ⟨free, ready, vacant, others, kept⟩ := allocproc_fresh alloc
      have apart : s ≠ np := by
        rintro rfl
        simp [used] at free
      cases memory with
      | panics message => simp [alloc] at done
      | faults =>
          simp only [alloc, Except.ok.injEq, Prod.mk.injEq] at done
          obtain ⟨rfl, rfl⟩ := done
          exact (kept balanced).trap _
      | enough =>
          simp only [alloc, Except.ok.injEq, Prod.mk.injEq] at done
          obtain ⟨rfl, rfl⟩ := done
          apply setParent_balanced
          apply shareFiles_balanced
          · exact List.nodup_finRange fdBufferSize
          · exact kept balanced
          · rw [others s apart]
            exact used
          · exact ready
          · exact fun fd _ => vacant fd

theorem setParent_files (k : Kernel) (np s r : Slot) :
    ((setParent k np s).pool r).state = (k.pool r).state ∧ ((setParent k np s).pool r).files = (k.pool r).files := by
  by_cases own : r = np
  · subst own
    simp [setParent, Kernel.setProcess]
  · simp [setParent, Kernel.setProcess, own]

theorem sysSpawn_balanced {k after : Kernel} {s : Slot} {t : Tid} {copied : Bool} {found : Option Entry}
    {memory : Memory} {events : List Event} (balanced : Balanced k) (used : (k.pool s).state = .used)
    (done : sysSpawn k s t copied found memory = .ok (after, events)) : Balanced after := by
  unfold sysSpawn at done
  split at done
  · simp only [Except.ok.injEq, Prod.mk.injEq] at done
    obtain ⟨rfl, rfl⟩ := done
    exact balanced
  · obtain ⟨⟨ip, named⟩, walked, rest⟩ := bind_ok.mp done
    have aside := namei_aside walked
    have start := balanced.aside aside
    cases ip with
    | none =>
        simp only [Except.ok.injEq, Prod.mk.injEq] at rest
        obtain ⟨rfl, rfl⟩ := rest
        exact start
    | some i =>
        cases alloc : allocproc named with
        | none =>
            simp only [alloc, Except.ok.injEq, Prod.mk.injEq] at rest
            obtain ⟨rfl, rfl⟩ := rest
            exact start.aside (iput_aside named i)
        | some pair =>
            obtain ⟨np, mid⟩ := pair
            simp only [alloc] at rest
            obtain ⟨free, ready, vacant, others, kept⟩ := allocproc_fresh alloc
            have apart : s ≠ np := by
              rintro rfl
              rw [aside.pool, used] at free
              simp at free
            have parented := setParent_files mid np s
            obtain ⟨stdio, ready, other, empty⟩ := initStdioFrom_balanced [0, 1, 2]
              (setParent_balanced (kept start) np s) ((parented np).1.trans ready)
            split at rest
            · simp only [Except.ok.injEq, Prod.mk.injEq] at rest
              obtain ⟨rfl, rfl⟩ := rest
              exact stdio.trap _
            · have shared : Balanced (shareFiles s np ((List.finRange fdBufferSize).drop 3)
                  (initStdio (setParent mid np s) np).2) := by
                apply shareFiles_balanced
                · decide
                · exact stdio
                · show ((initStdioFrom np [0, 1, 2] (setParent mid np s)).2.pool s).state = .used
                  rw [other s apart, (parented s).1, others s apart, aside.pool]
                  exact used
                · exact ready
                · intro fd member
                  have outside : fd ∉ [(0 : Fd), 1, 2] := by
                    revert fd
                    decide
                  show ((initStdioFrom np [0, 1, 2] (setParent mid np s)).2.pool np).files fd = none
                  rw [empty fd outside, (parented np).2]
                  exact vacant fd
              cases memory with
              | panics message => simp at rest
              | faults =>
                  simp only [Except.ok.injEq, Prod.mk.injEq] at rest
                  obtain ⟨rfl, rfl⟩ := rest
                  exact shared.trap _
              | enough =>
                  simp only [Except.ok.injEq, Prod.mk.injEq] at rest
                  obtain ⟨rfl, rfl⟩ := rest
                  exact shared.aside (iput_aside _ i)

theorem exec_balanced {k after : Kernel} {found : Option Entry} {loads : Bool} {argc : Nat} {events : List Event}
    (balanced : Balanced k) (done : exec k found loads argc = .ok (after, events)) : Balanced after := by
  obtain ⟨⟨ip, named⟩, walked, rest⟩ := bind_ok.mp done
  have start := balanced.aside (namei_aside walked)
  cases ip with
  | none =>
      simp only [Except.ok.injEq, Prod.mk.injEq] at rest
      obtain ⟨rfl, rfl⟩ := rest
      exact start
  | some i =>
      simp only at rest
      split at rest
      · simp only [Except.ok.injEq, Prod.mk.injEq] at rest
        obtain ⟨rfl, rfl⟩ := rest
        exact start.aside (iput_aside named i)
      · simp at rest

/-- Closing an entry that has no type yet panics. -/
theorem fileclose_untyped {k : Kernel} {f : FileIx} (type : (k.filepool f).type = .none) (ref : (k.filepool f).ref = 1)
    (after : Kernel) : fileclose k f ≠ .ok after := by
  simp [fileclose, type, ref]

/-- The reference that `fileopen` got from the path goes to the new open file. -/
theorem InodesCounted.give {k after : Kernel} (counted : InodesCounted k) {f : FileIx} {i : InodeIx}
    (idle : inodes k f = none) (inodes : Files.inodes after = Function.update (Files.inodes k) f (some i))
    (itable : after.itable = k.itable) (pins : after.pins = Function.update k.pins i (k.pins i + -1)) :
    InodesCounted after := by
  intro j
  rw [itable, inodes, pins, refs_set idle, counted j]
  by_cases own : j = i
  · subst own
    rw [if_pos rfl, Function.update_self]
    push_cast
    omega
  · rw [if_neg own, Function.update_of_ne own, Nat.add_zero]

theorem fileopen_balanced {k after : Kernel} {s : Slot} {found : Option Entry} {fresh : Option Nat} {omode : Nat}
    {events : List Event} (balanced : Balanced k) (used : (k.pool s).state = .used)
    (done : fileopen k s found fresh omode = .ok (after, events)) : Balanced after := by
  obtain ⟨⟨ip, opened⟩, walked, rest⟩ := bind_ok.mp done
  have aside := openInode_aside walked
  have start := balanced.aside aside
  cases ip with
  | none =>
      simp only [Except.ok.injEq, Prod.mk.injEq] at rest
      obtain ⟨rfl, rfl⟩ := rest
      exact start
  | some i =>
      cases alloc : filealloc opened with
      | none =>
          simp only [alloc, Except.ok.injEq, Prod.mk.injEq] at rest
          obtain ⟨rfl, rfl⟩ := rest
          exact start.aside (iput_aside opened i)
      | some pair =>
          obtain ⟨f, mid⟩ := pair
          obtain ⟨zero, rfl⟩ := filealloc_taken alloc
          have type := start.idle f zero
          cases filled : fdalloc (opened.setFile f { opened.filepool f with ref := 1 }) s f with
          | mk fd last =>
              simp only [alloc, filled] at rest
              rcases fdalloc_filled filled with ⟨rfl, rfl, _⟩ | ⟨d, rfl, empty, rfl⟩
              · obtain ⟨closed, impossible, _⟩ := bind_ok.mp rest
                refine absurd impossible (fileclose_untyped ?_ ?_ closed)
                · simpa [Kernel.setFile] using type
                · simp [Kernel.setFile]
              · simp only [Except.ok.injEq, Prod.mk.injEq] at rest
                obtain ⟨rfl, rfl⟩ := rest
                have ready : (opened.pool s).state = .used := by rw [aside.pool, used]
                constructor
                · apply start.toHeld.attach
                  · show table opened (s, d) = none
                    have vacant : (opened.pool s).files d = none := empty
                    simp [table, vacant]
                  · exact table_setFd ready d (some f)
                  · exact Function.update_idem _ _ _
                  · rw [zero]
                    simp [Kernel.setFd, Kernel.setProcess, Kernel.setFile]
                · refine start.ends.keep ?_ rfl
                  show ends ((opened.setFile f _).setFile f _) = ends opened
                  rw [ends_setFile, ends_setFile, Function.update_idem]
                  exact Function.update_eq_iff.mpr ⟨(ends_idle type).symm, fun _ _ => rfl⟩
                · apply start.inodes.give (inodes_idle type) (i := i)
                  · show inodes ((opened.setFile f _).setFile f _) = _
                    rw [inodes_setFile, inodes_setFile, Function.update_idem]
                    rfl
                  · rfl
                  · rfl

theorem sysClose_balanced {k after : Kernel} {s : Slot} {t : Tid} {fd : Int} {events : List Event}
    (balanced : Balanced k) (used : (k.pool s).state = .used) (done : sysClose k s t fd = .ok (after, events)) :
    Balanced after := by
  unfold sysClose at done
  split at done
  · simp only [Except.ok.injEq, Prod.mk.injEq] at done
    obtain ⟨rfl, rfl⟩ := done
    exact balanced
  · split at done
    · rename_i inside
      cases named : (k.pool s).files ⟨fd.toNat, by omega⟩ with
      | none =>
          simp only [named, Except.ok.injEq, Prod.mk.injEq] at done
          obtain ⟨rfl, rfl⟩ := done
          exact balanced
      | some f =>
          simp only [named] at done
          obtain ⟨mid, closing, rest⟩ := bind_ok.mp done
          simp only [Except.ok.injEq, Prod.mk.injEq] at rest
          obtain ⟨rfl, rfl⟩ := rest
          obtain ⟨file, closed⟩ := fileclose_closed closing
          have state : (mid.pool s).state = .used := by rw [closed.pool, used]
          have cells : table mid = table k := by
            funext cell
            rw [table, table, closed.pool]
          constructor
          · refine balanced.toHeld.detach (table_eq_some.mpr ⟨used, named⟩) ?_ closed.filepool closed.ref closed.idle
            rw [table_setFd state, cells]
          · exact closed.ends balanced.ends
          · exact closed.inodes balanced.inodes
    · simp only [Except.ok.injEq, Prod.mk.injEq] at done
      obtain ⟨rfl, rfl⟩ := done
      exact balanced.trap _

theorem wait_balanced {k : Kernel} (balanced : Balanced k) (s : Slot) (t : Tid) (pid : Int) (mapped : Bool) :
    Balanced (wait k s t pid mapped).1 := by
  unfold wait
  split
  · rename_i np found
    have zombie : (k.pool np).state = .zombie := by
      have test := List.find?_some found
      simp only [Bool.and_eq_true, beq_iff_eq] at test
      exact test.2
    have collected : Balanced (k.setProcess np { k.pool np with state := .unused }) := by
      apply balanced.same
      · apply table_setProcess
        intro fd
        simp [table, zombie]
      · rfl
      · rfl
      · exact balanced.inodes
    cases mapped with
    | true => exact collected
    | false => exact collected.trap _
  · split <;> exact balanced

/-- The loop in `freeproc` has no rounds. -/
theorem closeRounds_nil : closeRounds = [] := rfl

/-- The row of a process that exits leaves the table. -/
structure Left (k after : Kernel) (s : Slot) : Prop where
  filepool : after.filepool = k.filepool
  pipes : after.pipes = k.pipes
  itable : after.itable = k.itable
  pins : after.pins = k.pins
  gone : ∀ fd, table after (s, fd) = none
  others : ∀ r fd, r ≠ s → table after (r, fd) = table k (r, fd)

theorem exit_left {k after : Kernel} {s : Slot} {code : Int} (done : exit k s 0 code = .ok after) : Left k after s := by
  unfold exit freeproc at done
  rw [if_pos rfl] at done
  simp only [closeRounds_nil, List.foldlM_nil] at done
  obtain ⟨freed, freeing, rest⟩ := bind_ok.mp done
  obtain ⟨same, closing, ended⟩ := bind_ok.mp freeing
  simp only [pure, Except.pure, Except.ok.injEq] at closing
  simp only [Except.ok.injEq] at ended rest
  subst closing
  subst ended
  subst rest
  constructor
  · split <;> rfl
  · split <;> rfl
  · split <;> rfl
  · split <;> rfl
  · intro fd
    split <;> simp [table, Kernel.setProcess]
  · intro r fd other
    split <;> simp [table, Kernel.setProcess, other]

theorem exit_balanced {k after : Kernel} {s : Slot} {t : Tid} {code : Int} (balanced : Balanced k)
    (alone : t = 0 → ∀ fd, (k.pool s).files fd = none) (done : exit k s t code = .ok after) : Balanced after := by
  by_cases main : t = 0
  · subst main
    have left := exit_left done
    apply balanced.same
    · funext cell
      obtain ⟨r, fd⟩ := cell
      by_cases own : r = s
      · subst own
        rw [left.gone, table, alone rfl fd, ite_self]
      · exact left.others r fd own
    · exact left.filepool
    · exact left.pipes
    · apply balanced.inodes.keep _ left.itable left.pins
      funext f
      rw [inodes, inodes, left.filepool]
  · unfold exit at done
    rw [if_neg main] at done
    simp only [Except.ok.injEq] at done
    subst done
    exact balanced

end BtbuOs.Files
