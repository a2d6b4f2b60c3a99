import BtbuOs.Files.References

namespace BtbuOs.Files

open Machine RefCount
open Sync (Tid)
open Sched (nproc Slot ProcState)

/-- A call of `piperead` or `pipewrite` in progress holds the address of its pipe. The ghost field `freed` tells that
`pipeclose` has passed that pipe to `kfree`. -/
structure PipeCall where
  page : Nat
  call : Ipc.Call
  freed : Bool

/-- Control leaves the thread `running` only at a yield or at the return of its call. -/
structure System where
  kernel : Kernel
  calls : Slot → Tid → Option PipeCall
  running : Option (Slot × Tid)

inductive PipeEvent where
  | called (event : Event)
  | returned (s : Slot) (t : Tid) (value : Int)
  | touchedFreed (s : Slot) (t : Tid)
  | panicked (message : String)
  deriving DecidableEq

/-- The action `pass` carries the buffer of the caller and what kernel memory holds where a pipe is no more. -/
inductive PipeAction where
  | call (action : Action)
  | read (s : Slot) (t : Tid) (fd n : Int)
  | write (s : Slot) (t : Tid) (fd n : Int)
  | resume (s : Slot) (t : Tid)
  | pass (source : Nat → UInt8) (found : Ipc.Pipe)

def Call.isExit : Call → Bool
  | .exit _ => true
  | _ => false

namespace System

def setCall (m : System) (s : Slot) (t : Tid) (call : Option PipeCall) : System :=
  { m with calls := Function.update m.calls s (Function.update (m.calls s) t call) }

/-- The main thread takes the other threads of its process along, and `kfree` may take pipes away. -/
def retire (m : System) (action : Action) (after : Kernel) : Slot → Tid → Option PipeCall := fun s t =>
  if action.t = 0 ∧ action.call.isExit ∧ s = action.s then none
  else (m.calls s t).map fun c =>
    { c with freed := c.freed || ((m.kernel.pipes c.page).isSome && (after.pipes c.page).isNone) }

/-- A call on a file from its descriptor to the loop of the pipe. -/
def enter (m : System) (s : Slot) (t : Tid) (fd n : Int) (call : Ipc.Call) : Option (System × List PipeEvent) :=
  if m.running ≠ none ∨ (m.calls s t).isSome ∨ m.kernel.halted ∨ m.kernel.fault ≠ none ∨ (m.kernel.pool s).state ≠ .used then none
  else if fd < 0 ∨ fdBufferSize < fd then some (m, [.returned s t (-1)])
  else if inside : 0 ≤ fd ∧ fd < fdBufferSize then
    match (m.kernel.pool s).files ⟨fd.toNat, Sync.index_lt inside⟩ with
    | none => some (m, [.returned s t (-1)])
    | some f =>
        match (m.kernel.filepool f).type with
        | .pipe page =>
            if n ≤ 0 then some ({ m with kernel := { m.kernel with halted := true } }, [.panicked "invalid read num"])
            else
              some ({ m.setCall s t (some { page, call, freed := (m.kernel.pipes page).isNone }) with running := some (s, t) }, [])
        | .none => some ({ m with kernel := { m.kernel with halted := true } }, [.panicked "unknown file type %d\n"])
        | .stdio => some (m, [])
        | .inode _ => some (m, [])
  else some ({ m with kernel := { m.kernel with fault := some (s, t) } }, [])

/-- The outcome of a pass decides whether the thread keeps the processor. -/
def settle (m : System) (s : Slot) (t : Tid) (c : PipeCall) : Ipc.Pass → System × List PipeEvent
  | .goesOn call => (m.setCall s t (some { c with call }), [])
  | .yields call => ({ m.setCall s t (some { c with call }) with running := none }, [])
  | .returns value => ({ m.setCall s t none with running := none }, [.returned s t value])

/-- One pass reads and writes what lies at the address of the pipe. -/
def pass (m : System) (s : Slot) (t : Tid) (c : PipeCall) (source : Nat → UInt8) (found : Ipc.Pipe) :
    Option (System × List PipeEvent) :=
  match Ipc.callPass t.val ((m.kernel.pipes c.page).getD found) source c.call with
  | none => none
  | some (outcome, pi, _) =>
      let kernel := if (m.kernel.pipes c.page).isSome then m.kernel.setPipe c.page (some pi) else m.kernel
      let (after, events) := ({ m with kernel }).settle s t c outcome
      some (after, (if c.freed then [.touchedFreed s t] else []) ++ events)

def step (m : System) : PipeAction → Option (System × List PipeEvent)
  | .call action =>
      if m.running ≠ none ∨ (m.calls action.s action.t).isSome then none
      else
        (Files.step m.kernel action).map fun (after, events) =>
          ({ m with kernel := after, calls := m.retire action after }, events.map .called)
  | .read s t fd n => m.enter s t fd n (.waiting n.toNat)
  | .write s t fd n => m.enter s t fd n (.writing n.toNat 0)
  | .resume s t =>
      if m.running ≠ none ∨ (m.calls s t).isNone ∨ m.kernel.halted ∨ m.kernel.fault ≠ none then none
      else some ({ m with running := some (s, t) }, [])
  | .pass source found =>
      match m.running with
      | none => none
      | some (s, t) =>
          match m.calls s t with
          | none => none
          | some c => m.pass s t c source found

/-- The first program has started, and nobody uses a pipe. -/
def Initial (m : System) : Prop := Booted m.kernel ∧ m.calls = (fun _ _ => none) ∧ m.running = none

end System

/-- The files in use are counted at the pipes, and every pipe has an open end. -/
structure Tidy (k : Kernel) : Prop where
  ref : ∀ f, 0 ≤ (k.filepool f).ref
  idle : ∀ f, (k.filepool f).ref = 0 → (k.filepool f).type = .none
  ends : EndsCounted k
  useful : ∀ page pi, k.pipes page = some pi → pi.readopen = true ∨ pi.writeopen = true

variable {k mid after : Kernel} {f : FileIx} {file : File} {page : Nat}

/-- A change of other parts of the kernel. -/
theorem Tidy.same (tidy : Tidy k) (filepool : after.filepool = k.filepool) (pipes : after.pipes = k.pipes) : Tidy after := by
  refine ⟨fun f => ?_, fun f => ?_, tidy.ends.keep ?_ pipes, fun page pi => ?_⟩
  · rw [filepool]
    exact tidy.ref f
  · rw [filepool]
    exact tidy.idle f
  · funext f
    rw [Files.ends, Files.ends, filepool]
  · rw [pipes]
    exact tidy.useful page pi

/-- One open file changes and keeps its end of a pipe. -/
theorem Tidy.setFile (tidy : Tidy k) (held : 0 < file.ref) (kept : file.pipeEnd = Files.ends k f) : Tidy (k.setFile f file) := by
  have other (g : FileIx) (apart : g ≠ f) : (k.setFile f file).filepool g = k.filepool g := Function.update_of_ne apart ..
  have own : (k.setFile f file).filepool f = file := Function.update_self ..
  refine ⟨fun g => ?_, fun g zero => ?_, tidy.ends.keep ?_ rfl, tidy.useful⟩
  · by_cases same : g = f
    · rw [same, own]
      omega
    · rw [other g same]
      exact tidy.ref g
  · by_cases same : g = f
    · rw [same, own] at zero
      omega
    · rw [other g same] at zero ⊢
      exact tidy.idle g zero
  · rw [ends_setFile, kept, Function.update_eq_self]

theorem filealloc_tidy (tidy : Tidy k) (alloc : filealloc k = some (f, after)) :
    Tidy after ∧ after.pipes = k.pipes ∧ (after.filepool f).type = .none ∧ (after.filepool f).ref = 1 := by
  obtain ⟨zero, rfl⟩ := filealloc_taken alloc
  refine ⟨tidy.setFile (by simp) rfl, rfl, ?_, ?_⟩
  · simpa [Kernel.setFile] using tidy.idle f zero
  · simp [Kernel.setFile]

/-- A new entry of the pool gets a type that is no pipe. -/
theorem Tidy.typed (tidy : Tidy k) (untyped : (k.filepool f).type = .none) (held : 0 < file.ref) (plain : file.pipeEnd = none) :
    Tidy (k.setFile f file) := by
  apply tidy.setFile held
  rw [plain, ends_idle untyped]

/-- The descriptors are no part of the invariant. -/
theorem Tidy.setProcess (tidy : Tidy k) (s : Slot) (p : Process) : Tidy (k.setProcess s p) := tidy.same rfl rfl

theorem fdalloc_tidy {s : Slot} {fd : Option Fd} (tidy : Tidy k) (alloc : fdalloc k s f = (fd, after)) :
    Tidy after ∧ after.pipes = k.pipes ∧ after.filepool = k.filepool := by
  rcases fdalloc_filled alloc with ⟨_, rfl, _⟩ | ⟨d, _, _, rfl⟩
  · exact ⟨tidy, rfl, rfl⟩
  · exact ⟨tidy.setProcess s _, rfl, rfl⟩

theorem initStdioFrom_tidy (s : Slot) (fds : List Fd) (tidy : Tidy k) :
    Tidy (initStdioFrom s fds k).2 ∧ (initStdioFrom s fds k).2.pipes = k.pipes := by
  induction fds generalizing k with
  | nil => exact ⟨tidy, rfl⟩
  | cons fd rest ih =>
      rw [initStdioFrom]
      split
      · exact ⟨tidy, rfl⟩
      · split
        · exact ⟨tidy, rfl⟩
        · rename_i f opened made
          unfold stdioInit at made
          cases alloc : filealloc k with
          | none => simp [alloc] at made
          | some taken =>
              obtain ⟨g, first⟩ := taken
              simp only [alloc, Option.some.injEq, Prod.mk.injEq] at made
              obtain ⟨rfl, rfl⟩ := made
              obtain ⟨kept, pipes, untyped, _⟩ := filealloc_tidy tidy alloc
              have stdio : Tidy (first.setFile g { first.filepool g with
                  type := .stdio, ref := 1, readable := fd = 0 ∨ fd = 2, writable := fd = 1 ∨ fd = 2 }) :=
                kept.typed untyped (by simp) rfl
              obtain ⟨last, same⟩ := ih (stdio.setProcess s _)
              exact ⟨last, same.trans pipes⟩

theorem shareFiles_tidy (s np : Slot) (fds : List Fd) (tidy : Tidy k) :
    Tidy (shareFiles s np fds k) ∧ (shareFiles s np fds k).pipes = k.pipes := by
  induction fds generalizing k with
  | nil => exact ⟨tidy, rfl⟩
  | cons fd rest ih =>
      rw [shareFiles]
      cases shared : (k.pool s).files fd with
      | none => exact ih tidy
      | some f =>
          have more : 0 < (k.filepool f).ref + 1 := by
            have least := tidy.ref f
            omega
          have grown : Tidy (k.setFile f { k.filepool f with ref := (k.filepool f).ref + 1 }) := tidy.setFile more rfl
          exact ih (grown.setProcess np _)

/-- What every call but `sys_pipe` and `sys_close` does to the pipes. -/
structure Untouched (k after : Kernel) : Prop where
  tidy : Tidy after
  pipes : after.pipes = k.pipes

theorem Untouched.aside (untouched : Untouched k mid) (aside : Aside mid after) : Untouched k after :=
  ⟨untouched.tidy.same aside.filepool aside.pipes, aside.pipes.trans untouched.pipes⟩

theorem Tidy.untouched (tidy : Tidy k) : Untouched k k := ⟨tidy, rfl⟩

theorem allocproc_untouched {np : Slot} (tidy : Tidy k) (alloc : allocproc k = some (np, after)) : Untouched k after := by
  unfold allocproc at alloc
  split at alloc
  · contradiction
  · simp only [Option.some.injEq, Prod.mk.injEq] at alloc
    obtain ⟨rfl, rfl⟩ := alloc
    exact ⟨tidy.same rfl rfl, rfl⟩

theorem fork_untouched {s : Slot} {t : Tid} {memory : Memory} {events : List Event} (tidy : Tidy k)
    (done : fork k s t memory = .ok (after, events)) : Untouched k after := by
  unfold fork at done
  cases alloc : allocproc k with
  | none => simp [alloc] at done
  | some pair =>
      obtain ⟨np, mid⟩ := pair
      have start := allocproc_untouched tidy alloc
      cases memory with
      | panics message => simp [alloc] at done
      | faults =>
          simp only [alloc, Except.ok.injEq, Prod.mk.injEq] at done
          obtain ⟨rfl, rfl⟩ := done
          exact ⟨start.tidy.same rfl rfl, start.pipes⟩
      | enough =>
          simp only [alloc, Except.ok.injEq, Prod.mk.injEq] at done
          obtain ⟨rfl, rfl⟩ := done
          obtain ⟨shared, pipes⟩ := shareFiles_tidy s np (List.finRange fdBufferSize) start.tidy
          exact ⟨shared.setProcess np _, pipes.trans start.pipes⟩

theorem sysSpawn_untouched {s : Slot} {t : Tid} {copied : Bool} {found : Option Entry} {memory : Memory} {events : List Event}
    (tidy : Tidy k) (done : sysSpawn k s t copied found memory = .ok (after, events)) : Untouched k after := by
  unfold sysSpawn at done
  split at done
  · simp only [Except.ok.injEq, Prod.mk.injEq] at done
    obtain ⟨rfl, rfl⟩ := done
    exact tidy.untouched
  · obtain ⟨⟨ip, named⟩, walked, rest⟩ := bind_ok.mp done
    have start := tidy.untouched.aside (namei_aside walked)
    cases ip with
    | none =>
        simp only [Except.ok.injEq, Prod.mk.injEq] at rest
        obtain ⟨rfl, rfl⟩ := rest
        exact start
    | some i =>
        cases alloc : allocproc named with
        | none =>
            simp only [alloc, Except.ok.injEq, Prod.mk.injEq] at rest
            obtain ⟨rfl, rfl⟩ := rest
            exact start.aside (iput_aside named i)
        | some pair =>
            obtain ⟨np, mid⟩ := pair
            simp only [alloc] at rest
            have fresh := allocproc_untouched start.tidy alloc
            obtain ⟨stdio, opened⟩ := initStdioFrom_tidy np [0, 1, 2]
              (fresh.tidy.setProcess np { mid.pool np with parent := some s })
            have upto : (initStdio (setParent mid np s) np).2.pipes = k.pipes :=
              opened.trans (fresh.pipes.trans start.pipes)
            split at rest
            · simp only [Except.ok.injEq, Prod.mk.injEq] at rest
              obtain ⟨rfl, rfl⟩ := rest
              exact ⟨stdio.same rfl rfl, upto⟩
            · obtain ⟨shared, pipes⟩ := shareFiles_tidy s np ((List.finRange fdBufferSize).drop 3) stdio
              cases memory with
              | panics message => simp at rest
              | faults =>
                  simp only [Except.ok.injEq, Prod.mk.injEq] at rest
                  obtain ⟨rfl, rfl⟩ := rest
                  exact ⟨shared.same rfl rfl, pipes.trans upto⟩
              | enough =>
                  simp only [Except.ok.injEq, Prod.mk.injEq] at rest
                  obtain ⟨rfl, rfl⟩ := rest
                  exact Untouched.aside ⟨shared, pipes.trans upto⟩ (iput_aside _ i)

theorem exec_untouched {found : Option Entry} {loads : Bool} {argc : Nat} {events : List Event} (tidy : Tidy k)
    (done : exec k found loads argc = .ok (after, events)) : Untouched k after := by
  obtain ⟨⟨ip, named⟩, walked, rest⟩ := bind_ok.mp done
  have start := tidy.untouched.aside (namei_aside walked)
  cases ip with
  | none =>
      simp only [Except.ok.injEq, Prod.mk.injEq] at rest
      obtain ⟨rfl, rfl⟩ := rest
      exact start
  | some i =>
      simp only at rest
      split at rest
      · simp only [Except.ok.injEq, Prod.mk.injEq] at rest
        obtain ⟨rfl, rfl⟩ := rest
        exact start.aside (iput_aside named i)
      · simp at rest

theorem fileopen_untouched {s : Slot} {found : Option Entry} {fresh : Option Nat} {omode : Nat} {events : List Event}
    (tidy : Tidy k) (done : fileopen k s found fresh omode = .ok (after, events)) : Untouched k after := by
  obtain ⟨⟨ip, opened⟩, walked, rest⟩ := bind_ok.mp done
  have start := tidy.untouched.aside (openInode_aside walked)
  cases ip with
  | none =>
      simp only [Except.ok.injEq, Prod.mk.injEq] at rest
      obtain ⟨rfl, rfl⟩ := rest
      exact start
  | some i =>
      cases alloc : filealloc opened with
      | none =>
          simp only [alloc, Except.ok.injEq, Prod.mk.injEq] at rest
          obtain ⟨rfl, rfl⟩ := rest
          exact start.aside (iput_aside opened i)
      | some pair =>
          obtain ⟨f, mid⟩ := pair
          obtain ⟨kept, pipes, untyped, one⟩ := filealloc_tidy start.tidy alloc
          cases filled : fdalloc mid s f with
          | mk fd last =>
              simp only [alloc, filled] at rest
              obtain ⟨named, same, files⟩ := fdalloc_tidy kept filled
              rw [← files] at untyped one
              cases fd with
              | none =>
                  obtain ⟨closed, impossible, _⟩ := bind_ok.mp rest
                  exact absurd impossible (fileclose_untyped untyped one closed)
              | some d =>
                  simp only [Except.ok.injEq, Prod.mk.injEq] at rest
                  obtain ⟨rfl, rfl⟩ := rest
                  have typed : Tidy (last.setFile f { last.filepool f with
                      type := .inode i, off := 0, readable := omode &&& oWronly = 0,
                      writable := omode &&& oWronly ≠ 0 ∨ omode &&& oRdwr ≠ 0 }) := by
                    apply named.typed untyped _ rfl
                    rw [one]
                    decide
                  exact ⟨typed.same rfl rfl, (same.trans pipes).trans start.pipes⟩

theorem wait_untouched (tidy : Tidy k) (s : Slot) (t : Tid) (pid : Int) (mapped : Bool) :
    Untouched k (wait k s t pid mapped).1 := by
  unfold wait
  split
  · cases mapped with
    | true => exact ⟨tidy.setProcess _ _, rfl⟩
    | false => exact ⟨tidy.same rfl rfl, rfl⟩
  · split <;> exact tidy.untouched

theorem exit_untouched {s : Slot} {t : Tid} {code : Int} (tidy : Tidy k) (done : exit k s t code = .ok after) :
    Untouched k after := by
  by_cases main : t = 0
  · subst main
    have left := exit_left done
    exact ⟨tidy.same left.filepool left.pipes, left.pipes⟩
  · unfold exit at done
    rw [if_neg main] at done
    simp only [Except.ok.injEq] at done
    subst done
    exact tidy.untouched

/-- What `pipeclose` does to the pipes. -/
theorem pipeclose_pipes (k : Kernel) (page : Nat) (writable : Bool) :
    (pipeclose k page writable).filepool = k.filepool ∧
      (∀ q, q ≠ page → (pipeclose k page writable).pipes q = k.pipes q) ∧
      (∀ pi, (pipeclose k page writable).pipes page = some pi → pi.readopen = true ∨ pi.writeopen = true) ∧
      ((pipeclose k page writable).pipes page = none → endOpen k page (!writable) = false) := by
  unfold pipeclose
  cases live : k.pipes page with
  | none => exact ⟨rfl, fun _ _ => rfl, fun pi impossible => by simp [live] at impossible, fun _ => by simp [endOpen, live]⟩
  | some pi =>
      refine ⟨rfl, fun q other => Function.update_of_ne other .., fun last kept => ?_, fun freed => ?_⟩
      · cases writable <;> cases readopen : pi.readopen <;> cases writeopen : pi.writeopen <;>
          simp [Kernel.setPipe, readopen, writeopen] at kept
        · subst kept
          exact Or.inr rfl
        · subst kept
          exact Or.inr rfl
        · subst kept
          exact Or.inl rfl
        · subst kept
          exact Or.inl rfl
      · cases writable <;> cases readopen : pi.readopen <;> cases writeopen : pi.writeopen <;>
          simp [Kernel.setPipe, endOpen, live, readopen, writeopen] at freed ⊢

/-- A call of `fileclose` frees the pipe of its file only, and only as the last one. -/
theorem fileclose_tidy (tidy : Tidy k) (closed : fileclose k f = .ok after) : Tidy after ∧ ∀ q, (k.pipes q).isSome →
    after.pipes q = none → (k.filepool f).ref = 1 ∧ ∃ w, ends k f = some (q, w) ∧ endOpen k q (!w) = false := by
  obtain ⟨file, effect⟩ := fileclose_closed closed
  have kept (useful : ∀ page pi, after.pipes page = some pi → pi.readopen = true ∨ pi.writeopen = true)
      (least : 1 ≤ (k.filepool f).ref) : Tidy after := by
    refine ⟨fun g => ?_, fun g zero => ?_, effect.ends tidy.ends, useful⟩
    · rw [effect.filepool]
      by_cases own : g = f
      · subst own
        rw [Function.update_self, effect.ref]
        omega
      · rw [Function.update_of_ne own]
        exact tidy.ref g
    · rw [effect.filepool] at zero ⊢
      by_cases own : g = f
      · subst own
        rw [Function.update_self] at zero ⊢
        exact effect.idle zero
      · rw [Function.update_of_ne own] at zero ⊢
        exact tidy.idle g zero
  unfold fileclose at closed
  simp only at closed
  split at closed
  · contradiction
  · rename_i held
    have least : 1 ≤ (k.filepool f).ref := by omega
    -- the pipes change for the last reference to an end only
    have plain (pipes : after.pipes = k.pipes) : Tidy after ∧ ∀ q, (k.pipes q).isSome → after.pipes q = none →
        (k.filepool f).ref = 1 ∧ ∃ w, ends k f = some (q, w) ∧ endOpen k q (!w) = false := by
      refine ⟨kept (fun page pi => ?_) least, fun q live gone => ?_⟩
      · rw [pipes]
        exact tidy.useful page pi
      · rw [pipes] at gone
        simp [gone] at live
    split at closed
    · obtain rfl := Except.ok.inj closed
      exact plain rfl
    · rename_i last
      cases type : (k.filepool f).type with
      | none => simp [type] at closed
      | stdio =>
          simp only [type, Except.ok.injEq] at closed
          subst closed
          exact plain rfl
      | inode i =>
          simp only [type, Except.ok.injEq] at closed
          subst closed
          exact plain rfl
      | pipe page =>
          simp only [type, Except.ok.injEq] at closed
          have pipes : after.pipes = (pipeclose k page (k.filepool f).writable).pipes := by
            subst closed
            rfl
          obtain ⟨_, others, useful, freed⟩ := pipeclose_pipes k page (k.filepool f).writable
          refine ⟨kept (fun q pi => ?_) least, fun q live gone => ?_⟩
          · rw [pipes]
            by_cases own : q = page
            · subst own
              exact useful pi
            · rw [others q own]
              exact tidy.useful q pi
          · rw [pipes] at gone
            by_cases own : q = page
            · subst own
              exact ⟨by omega, (k.filepool f).writable, by simp [ends, File.pipeEnd, type], freed gone⟩
            · rw [others q own] at gone
              simp [gone] at live

theorem clearFd_tidy (tidy : Tidy k) (s : Slot) (fd : Option Fd) :
    Tidy (clearFd k s fd) ∧ (clearFd k s fd).pipes = k.pipes ∧ (clearFd k s fd).filepool = k.filepool := by
  cases fd with
  | none => exact ⟨tidy.setProcess s _, rfl, rfl⟩
  | some d => exact ⟨tidy.setProcess s _, rfl, rfl⟩

/-- A call of `sys_pipe` frees no pipe that was there. -/
theorem sysPipe_tidy {s : Slot} {place : Option Nat} {copied : Bool} {events : List Event} (tidy : Tidy k)
    (offered : ∀ page, place = some page → k.pipes page = none) (done : sysPipe k s place copied = .ok (after, events)) :
    Tidy after ∧ ∀ q, (k.pipes q).isSome → (after.pipes q).isSome := by
  unfold sysPipe at done
  cases alloc0 : filealloc k with
  | none =>
      simp only [alloc0, Except.ok.injEq, Prod.mk.injEq] at done
      obtain ⟨rfl, rfl⟩ := done
      exact ⟨tidy, fun _ live => live⟩
  | some taken0 =>
      obtain ⟨f0, mid⟩ := taken0
      obtain ⟨zero0, rfl⟩ := filealloc_taken alloc0
      have type0 := tidy.idle f0 zero0
      cases alloc1 : filealloc (k.setFile f0 { k.filepool f0 with ref := 1 }) with
      | none =>
          simp only [alloc0, alloc1] at done
          obtain ⟨closed, impossible, _⟩ := bind_ok.mp done
          refine absurd impossible (fileclose_untyped ?_ ?_ closed)
          · simpa [Kernel.setFile] using type0
          · simp [Kernel.setFile]
      | some taken1 =>
          obtain ⟨f1, last⟩ := taken1
          obtain ⟨apart, zero1, rfl⟩ := filealloc_second alloc1
          have type1 := tidy.idle f1 zero1
          simp only [alloc0, alloc1] at done
          cases place with
          | none =>
              simp only [pipealloc] at done
              obtain ⟨closed, impossible, _⟩ := bind_ok.mp done
              refine absurd impossible (fileclose_untyped ?_ ?_ closed)
              · simpa [Kernel.setFile, apart.symm] using type0
              · simp [Kernel.setFile, apart.symm]
          | some page =>
              cases made : pipealloc ((k.setFile f0 { k.filepool f0 with ref := 1 }).setFile f1 { k.filepool f1 with ref := 1 })
                  f0 f1 (some page) with
              | none => simp [pipealloc] at made
              | some piped =>
                  simp only [made] at done
                  have opened := pipealloc_opened tidy.ends apart type0 type1 (offered page rfl) made
                  have fresh : Tidy piped := by
                    refine ⟨fun g => ?_, fun g zero => ?_, opened.ends, fun q pi live => ?_⟩
                    · rw [opened.filepool]
                      by_cases second : g = f1
                      · subst second
                        simp [writeEnd]
                      · by_cases first : g = f0
                        · subst first
                          simp [second, readEnd]
                        · simpa [first, second] using tidy.ref g
                    · rw [opened.filepool] at zero ⊢
                      by_cases second : g = f1
                      · subst second
                        simp [writeEnd] at zero
                      · by_cases first : g = f0
                        · subst first
                          simp [second, readEnd] at zero
                        · simp only [ne_eq, first, second, not_false_eq_true, Function.update_of_ne] at zero ⊢
                          exact tidy.idle g zero
                    · rw [opened.pipes] at live
                      by_cases own : q = page
                      · subst own
                        rw [Function.update_self, Option.some.injEq] at live
                        subst live
                        exact Or.inl rfl
                      · rw [Function.update_of_ne own] at live
                        exact tidy.useful q pi live
                  have others (q : Nat) (live : (k.pipes q).isSome) : q ≠ page ∧ piped.pipes q = k.pipes q := by
                    have apartPage : q ≠ page := by
                      rintro rfl
                      simp [offered q rfl] at live
                    exact ⟨apartPage, by rw [opened.pipes, Function.update_of_ne apartPage]⟩
                  cases filled0 : fdalloc piped s f0 with
                  | mk fd0 first =>
                      obtain ⟨tidy0, pipes0, files0⟩ := fdalloc_tidy fresh filled0
                      cases filled1 : fdalloc first s f1 with
                      | mk fd1 second =>
                          obtain ⟨tidy1, pipes1, files1⟩ := fdalloc_tidy tidy0 filled1
                          simp only [filled0, filled1] at done
                          cases copied with
                          | true =>
                              simp only [if_true, Except.ok.injEq, Prod.mk.injEq] at done
                              obtain ⟨rfl, rfl⟩ := done
                              refine ⟨tidy1, fun q live => ?_⟩
                              rw [pipes1, pipes0, (others q live).2]
                              exact live
                          | false =>
                              simp only [Bool.false_eq_true, if_false] at done
                              obtain ⟨closed0, closing0, rest⟩ := bind_ok.mp done
                              obtain ⟨closed1, closing1, ended⟩ := bind_ok.mp rest
                              simp only [Except.ok.injEq, Prod.mk.injEq] at ended
                              obtain ⟨rfl, rfl⟩ := ended
                              obtain ⟨tidy2, pipes2, files2⟩ := clearFd_tidy tidy1 s fd0
                              obtain ⟨tidy3, pipes3, files3⟩ := clearFd_tidy tidy2 s fd1
                              have files : (clearFd (clearFd second s fd0) s fd1).filepool = piped.filepool := by
                                rw [files3, files2, files1, files0]
                              obtain ⟨tidy4, freed0⟩ := fileclose_tidy tidy3 closing0
                              obtain ⟨tidy5, freed1⟩ := fileclose_tidy tidy4 closing1
                              obtain ⟨file, effect⟩ := fileclose_closed closing0
                              refine ⟨tidy5, fun q live => ?_⟩
                              obtain ⟨apartPage, same⟩ := others q live
                              have start : ((clearFd (clearFd second s fd0) s fd1).pipes q).isSome := by
                                rw [pipes3, pipes2, pipes1, pipes0, same]
                                exact live
                              have middle : (closed0.pipes q).isSome := by
                                by_contra gone
                                obtain ⟨_, w, mine, _⟩ := freed0 q start (by simpa using gone)
                                rw [ends, files, opened.filepool, Function.update_of_ne apart.symm, Function.update_self] at mine
                                simp [File.pipeEnd, readEnd, apartPage.symm] at mine
                              by_contra gone
                              obtain ⟨_, w, mine, _⟩ := freed1 q middle (by simpa using gone)
                              rw [ends, effect.filepool, Function.update_of_ne apart, files, opened.filepool,
                                Function.update_self] at mine
                              simp [File.pipeEnd, writeEnd, apartPage.symm] at mine

/-- The descriptor names the last reference to the last open end of the pipe. -/
def ClosesLast (k : Kernel) (s : Slot) (fd : Int) (page : Nat) : Prop :=
  ∃ (d : Fd) (f : FileIx) (w : Bool), (d.val : Int) = fd ∧ (k.pool s).files d = some f ∧ (k.filepool f).ref = 1 ∧
    ends k f = some (page, w) ∧ endOpen k page (!w) = false

theorem sysClose_tidy {s : Slot} {t : Tid} {fd : Int} {events : List Event} (tidy : Tidy k)
    (done : sysClose k s t fd = .ok (after, events)) :
    Tidy after ∧ ∀ q, (k.pipes q).isSome → after.pipes q = none → ClosesLast k s fd q := by
  have spared (kept : Tidy after) (pipes : after.pipes = k.pipes) :
      Tidy after ∧ ∀ q, (k.pipes q).isSome → after.pipes q = none → ClosesLast k s fd q := by
    refine ⟨kept, fun q live gone => ?_⟩
    rw [pipes] at gone
    simp [gone] at live
  unfold sysClose at done
  split at done
  · simp only [Except.ok.injEq, Prod.mk.injEq] at done
    obtain ⟨rfl, rfl⟩ := done
    exact spared tidy rfl
  · split at done
    · rename_i inside
      cases named : (k.pool s).files ⟨fd.toNat, by omega⟩ with
      | none =>
          simp only [named, Except.ok.injEq, Prod.mk.injEq] at done
          obtain ⟨rfl, rfl⟩ := done
          exact spared tidy rfl
      | some f =>
          simp only [named] at done
          obtain ⟨mid, closing, rest⟩ := bind_ok.mp done
          simp only [Except.ok.injEq, Prod.mk.injEq] at rest
          obtain ⟨rfl, rfl⟩ := rest
          obtain ⟨kept, freed⟩ := fileclose_tidy tidy closing
          refine ⟨kept.setProcess s _, fun q live gone => ?_⟩
          obtain ⟨one, w, mine, other⟩ := freed q live gone
          exact ⟨⟨fd.toNat, by omega⟩, f, w, Int.toNat_of_nonneg inside.1, named, one, mine, other⟩
    · simp only [Except.ok.injEq, Prod.mk.injEq] at done
      obtain ⟨rfl, rfl⟩ := done
      exact spared (tidy.same rfl rfl) rfl

/-- A call frees a pipe only when it closes its last open end for the last time. -/
theorem operate_tidy {action : Action} {events : List Event} (tidy : Tidy k) (offered : Offered k action.call)
    (done : operate k action.s action.t action.call = .ok (after, events)) : Tidy after ∧ ∀ q, (k.pipes q).isSome →
      after.pipes q = none → ∃ fd, action.call = .close fd ∧ ClosesLast k action.s fd q := by
  have spared (untouched : Untouched k after) : Tidy after ∧ ∀ q, (k.pipes q).isSome → after.pipes q = none →
      ∃ fd, action.call = .close fd ∧ ClosesLast k action.s fd q := by
    refine ⟨untouched.tidy, fun q live gone => ?_⟩
    rw [untouched.pipes] at gone
    simp [gone] at live
  obtain ⟨s, t, call⟩ := action
  cases call with
  | fork memory => exact spared (fork_untouched tidy done)
  | spawn copied found memory => exact spared (sysSpawn_untouched tidy done)
  | exec found loads argc => exact spared (exec_untouched tidy done)
  | fileopen found fresh omode => exact spared (fileopen_untouched tidy done)
  | pipe place copied =>
      have free (page : Nat) (chosen : place = some page) : k.pipes page = none := by
        subst chosen
        exact Option.isNone_iff_eq_none.mp offered
      obtain ⟨kept, live⟩ := sysPipe_tidy tidy free done
      refine ⟨kept, fun q before gone => ?_⟩
      have still := live q before
      simp [gone] at still
  | close fd =>
      obtain ⟨kept, freed⟩ := sysClose_tidy tidy done
      exact ⟨kept, fun q live gone => ⟨fd, rfl, freed q live gone⟩⟩
  | wait pid mapped =>
      simp only [operate, Except.ok.injEq] at done
      have kept := wait_untouched tidy s t pid mapped
      rw [done] at kept
      exact spared kept
  | exit code =>
      obtain ⟨left, exited, rest⟩ := bind_ok.mp done
      simp only [Except.ok.injEq, Prod.mk.injEq] at rest
      obtain ⟨rfl, rfl⟩ := rest
      have fresh : Tidy { k with fault := none } := tidy.same rfl rfl
      have kept := exit_untouched fresh exited
      exact spared ⟨kept.tidy, kept.pipes⟩

theorem step_tidy {action : Action} {events : List Event} (tidy : Tidy k) (stepped : step k action = some (after, events)) :
    Tidy after ∧ ∀ q, (k.pipes q).isSome → after.pipes q = none →
      ∃ fd, action.call = .close fd ∧ ClosesLast k action.s fd q := by
  obtain ⟨_, offered, settled⟩ := step_cases stepped
  cases result : operate k action.s action.t action.call with
  | error message =>
      simp only [result, settle, Prod.mk.injEq] at settled
      obtain ⟨rfl, rfl⟩ := settled
      refine ⟨tidy.same rfl rfl, fun q live gone => ?_⟩
      change k.pipes q = none at gone
      simp [gone] at live
  | ok pair =>
      simp only [result, settle] at settled
      subst settled
      exact operate_tidy tidy offered result

end BtbuOs.Files
