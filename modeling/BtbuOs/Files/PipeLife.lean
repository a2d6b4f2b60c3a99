import BtbuOs.Files.PipeUse

namespace BtbuOs.Files

open Machine RefCount
open Sync (Tid)
open Sched (nproc Slot ProcState)

namespace System

/-- Every call in progress uses a pipe that is still there. -/
structure Attended (m : System) : Prop where
  tidy : Tidy m.kernel
  live : ∀ s t c, m.calls s t = some c → c.freed = false ∧ (m.kernel.pipes c.page).isSome

/-- A close that frees a pipe finds no call in progress on it. -/
def Undisturbed (m : System) : PipeAction → Prop
  | .call action => ∀ fd page, action.call = .close fd → ClosesLast m.kernel action.s fd page →
      ∀ s t c, m.calls s t = some c → c.page ≠ page
  | _ => True

variable {m after : System} {s : Slot} {t : Tid} {c : PipeCall} {events : List PipeEvent}

/-- The calls after one of them has changed. -/
theorem setCall_cases {r : Slot} {u : Tid} {call : Option PipeCall} {d : PipeCall}
    (known : (m.setCall s t call).calls r u = some d) : call = some d ∨ m.calls r u = some d := by
  by_cases own : r = s ∧ u = t
  · obtain ⟨rfl, rfl⟩ := own
    left
    simpa [setCall] using known
  · right
    by_cases row : r = s
    · subst row
      have other : u ≠ t := fun same => own ⟨rfl, same⟩
      simpa [setCall, other] using known
    · simpa [setCall, row] using known

/-- The passes of a call leave the ends of the pipe as they are. -/
theorem callPass_ends {thread : Nat} {pi next : Ipc.Pipe} {source : Nat → UInt8} {call : Ipc.Call} {outcome : Ipc.Pass}
    {emitted : List Ipc.Event} (passed : Ipc.callPass thread pi source call = some (outcome, next, emitted)) :
    next.readopen = pi.readopen ∧ next.writeopen = pi.writeopen := by
  cases call with
  | idle => simp [Ipc.callPass] at passed
  | writing n w =>
      simp only [Ipc.callPass, Ipc.pipewritePass, Option.some.injEq] at passed
      split_ifs at passed
      all_goals
        simp only [Prod.mk.injEq] at passed
        rw [← passed.2.1]
        exact ⟨rfl, rfl⟩
  | waiting n =>
      simp only [Ipc.callPass, Ipc.pipewaitPass, Option.some.injEq] at passed
      split_ifs at passed
      all_goals
        simp only [Prod.mk.injEq] at passed
        rw [← passed.2.1]
        exact ⟨rfl, rfl⟩
  | reading n r size =>
      simp only [Ipc.callPass, Ipc.pipereadPass, Option.some.injEq] at passed
      split_ifs at passed
      all_goals
        simp only [Prod.mk.injEq] at passed
        rw [← passed.2.1]
        exact ⟨rfl, rfl⟩

/-- A pipe whose ends stay as they are keeps the invariant. -/
theorem setPipe_tidy {k : Kernel} {page : Nat} {pi next : Ipc.Pipe} (tidy : Tidy k) (there : k.pipes page = some pi)
    (ends : next.readopen = pi.readopen ∧ next.writeopen = pi.writeopen) : Tidy (k.setPipe page (some next)) := by
  have opens (q : Nat) (w : Bool) : endOpen (k.setPipe page (some next)) q w = endOpen k q w := by
    by_cases own : q = page
    · subst own
      simp [endOpen, Kernel.setPipe, there, ends.1, ends.2]
    · simp [endOpen, Kernel.setPipe, own]
  refine ⟨tidy.ref, tidy.idle, fun q w => ?_, fun q last live => ?_⟩
  · rw [opens]
    exact tidy.ends q w
  · by_cases own : q = page
    · subst own
      simp only [Kernel.setPipe, Function.update_self, Option.some.injEq] at live
      subst live
      rw [ends.1, ends.2]
      exact tidy.useful q pi there
    · simp only [Kernel.setPipe, Function.update_of_ne own] at live
      exact tidy.useful q last live

/-- A file that is a pipe has its pipe. -/
theorem file_pipe {k : Kernel} {f : FileIx} {page : Nat} (tidy : Tidy k) (type : (k.filepool f).type = .pipe page) :
    (k.pipes page).isSome := by
  have mine : ends k f = some (page, (k.filepool f).writable) := by simp [ends, File.pipeEnd, type]
  have counted := tidy.ends page (k.filepool f).writable
  have positive := refs_pos.mpr ⟨f, mine⟩
  by_contra gone
  have shut : endOpen k page (k.filepool f).writable = false := by
    rw [endOpen, Option.not_isSome_iff_eq_none.mp gone]
  rw [shut] at counted
  simp only [Bool.toNat_false] at counted
  omega

/-- A call that enters a pipe finds it. -/
theorem enter_attended {fd n : Int} {call : Ipc.Call} (attended : Attended m)
    (entered : m.enter s t fd n call = some (after, events)) :
    Attended after ∧ ∀ r u, PipeEvent.touchedFreed r u ∉ events := by
  have quiet (kernel : Kernel) (filepool : kernel.filepool = m.kernel.filepool) (pipes : kernel.pipes = m.kernel.pipes) :
      Attended { m with kernel } := by
    refine ⟨attended.tidy.same filepool pipes, fun r u d known => ?_⟩
    change _ ∧ (kernel.pipes d.page).isSome
    rw [pipes]
    exact attended.live r u d known
  unfold enter at entered
  split at entered
  · simp at entered
  · split at entered
    · simp only [Option.some.injEq, Prod.mk.injEq] at entered
      obtain ⟨rfl, rfl⟩ := entered
      exact ⟨attended, by simp⟩
    · split at entered
      · split at entered
        · simp only [Option.some.injEq, Prod.mk.injEq] at entered
          obtain ⟨rfl, rfl⟩ := entered
          exact ⟨attended, by simp⟩
        · rename_i f named
          split at entered
          · rename_i page type
            split at entered
            · simp only [Option.some.injEq, Prod.mk.injEq] at entered
              obtain ⟨rfl, rfl⟩ := entered
              exact ⟨quiet _ rfl rfl, by simp⟩
            · simp only [Option.some.injEq, Prod.mk.injEq] at entered
              obtain ⟨rfl, rfl⟩ := entered
              have there := file_pipe attended.tidy type
              refine ⟨⟨attended.tidy, fun r u d known => ?_⟩, by simp⟩
              rcases setCall_cases known with new | old
              · obtain rfl := Option.some.inj new
                exact ⟨by simpa using there, there⟩
              · exact attended.live r u d old
          · simp only [Option.some.injEq, Prod.mk.injEq] at entered
            obtain ⟨rfl, rfl⟩ := entered
            exact ⟨quiet _ rfl rfl, by simp⟩
          · simp only [Option.some.injEq, Prod.mk.injEq] at entered
            obtain ⟨rfl, rfl⟩ := entered
            exact ⟨attended, by simp⟩
          · simp only [Option.some.injEq, Prod.mk.injEq] at entered
            obtain ⟨rfl, rfl⟩ := entered
            exact ⟨attended, by simp⟩
      · simp only [Option.some.injEq, Prod.mk.injEq] at entered
        obtain ⟨rfl, rfl⟩ := entered
        exact ⟨quiet _ rfl rfl, by simp⟩

/-- A pass of a call works on a pipe that is there. -/
theorem pass_attended {source : Nat → UInt8} {found : Ipc.Pipe} (attended : Attended m) (known : m.calls s t = some c)
    (passed : m.pass s t c source found = some (after, events)) :
    Attended after ∧ ∀ r u, PipeEvent.touchedFreed r u ∉ events := by
  obtain ⟨unfreed, there⟩ := attended.live s t c known
  obtain ⟨pi, live⟩ := Option.isSome_iff_exists.mp there
  unfold pass at passed
  rw [live] at passed
  simp only [Option.getD_some] at passed
  cases result : Ipc.callPass t.val pi source c.call with
  | none => simp [result] at passed
  | some triple =>
      obtain ⟨outcome, next, emitted⟩ := triple
      simp only [result, Option.isSome_some, if_true, unfreed, Bool.false_eq_true, if_false, List.nil_append,
        Option.some.injEq, Prod.mk.injEq] at passed
      have tidy := setPipe_tidy attended.tidy live (callPass_ends result)
      have still (r : Slot) (u : Tid) (d : PipeCall) (old : m.calls r u = some d) :
          d.freed = false ∧ ((m.kernel.setPipe c.page (some next)).pipes d.page).isSome := by
        obtain ⟨fresh, present⟩ := attended.live r u d old
        refine ⟨fresh, ?_⟩
        by_cases own : d.page = c.page
        · simp [Kernel.setPipe, own]
        · simpa [Kernel.setPipe, own] using present
      obtain ⟨rfl, rfl⟩ := passed
      cases outcome with
      | goesOn call =>
          refine ⟨⟨tidy, fun r u d now => ?_⟩, by simp [settle]⟩
          rcases setCall_cases now with new | old
          · obtain rfl := Option.some.inj new
            exact still s t c known
          · exact still r u d old
      | yields call =>
          refine ⟨⟨tidy, fun r u d now => ?_⟩, by simp [settle]⟩
          rcases setCall_cases now with new | old
          · obtain rfl := Option.some.inj new
            exact still s t c known
          · exact still r u d old
      | returns value =>
          refine ⟨⟨tidy, fun r u d now => ?_⟩, by simp [settle]⟩
          rcases setCall_cases now with new | old
          · simp at new
          · exact still r u d old

/-- A step keeps the invariant when it disturbs no call in progress. -/
theorem step_attended {action : PipeAction} (attended : Attended m) (allowed : m.Undisturbed action)
    (stepped : m.step action = some (after, events)) :
    Attended after ∧ ∀ r u, PipeEvent.touchedFreed r u ∉ events := by
  cases action with
  | call action =>
      simp only [step] at stepped
      split at stepped
      · simp at stepped
      · rw [Option.map_eq_some_iff] at stepped
        obtain ⟨⟨kernel, emitted⟩, called, result⟩ := stepped
        simp only [Prod.mk.injEq] at result
        obtain ⟨rfl, rfl⟩ := result
        obtain ⟨tidy, freed⟩ := step_tidy attended.tidy called
        refine ⟨⟨tidy, fun r u d known => ?_⟩, by simp⟩
        simp only [retire] at known
        split at known
        · simp at known
        · rw [Option.map_eq_some_iff] at known
          obtain ⟨old, before, rfl⟩ := known
          obtain ⟨fresh, present⟩ := attended.live r u old before
          have still : (kernel.pipes old.page).isSome := by
            by_contra gone
            obtain ⟨fd, closing, last⟩ := freed old.page present (Option.not_isSome_iff_eq_none.mp gone)
            exact allowed fd old.page closing last r u old before rfl
          exact ⟨by simpa [fresh] using fun _ => still, still⟩
  | read s t fd n => exact enter_attended attended stepped
  | write s t fd n => exact enter_attended attended stepped
  | resume s t =>
      simp only [step] at stepped
      split at stepped
      · simp at stepped
      · simp only [Option.some.injEq, Prod.mk.injEq] at stepped
        obtain ⟨rfl, rfl⟩ := stepped
        exact ⟨⟨attended.tidy, attended.live⟩, by simp⟩
  | pass source found =>
      simp only [step] at stepped
      split at stepped
      · simp at stepped
      · rename_i s t _
        split at stepped
        · simp at stepped
        · rename_i c known
          exact pass_attended attended known stepped

theorem blankKernel_tidy : Tidy blankKernel := by
  refine ⟨fun f => Int.le_refl 0, fun f _ => rfl, blankKernel_balanced.ends, fun page pi live => ?_⟩
  simp [blankKernel] at live

/-- The boot makes no pipe. -/
theorem booted_untouched {k : Kernel} (booted : Booted k) : Untouched blankKernel k := by
  obtain ⟨entry, loaded⟩ := booted
  unfold loadInitApp at loaded
  cases alloc : allocproc blankKernel with
  | none => simp [alloc] at loaded
  | some pair =>
      obtain ⟨s, first⟩ := pair
      have fresh := allocproc_untouched blankKernel_tidy alloc
      obtain ⟨stdio, pipes⟩ := initStdioFrom_tidy s [0, 1, 2] fresh.tidy
      simp only [alloc] at loaded
      cases named : namei (initStdio first s).2 (some entry) with
      | error message => simp [named] at loaded
      | ok found =>
          obtain ⟨ip, last⟩ := found
          cases ip with
          | none => simp [named] at loaded
          | some i =>
              simp only [named, Option.some.injEq] at loaded
              rw [← loaded]
              have start : Untouched blankKernel (initStdio first s).2 := ⟨stdio, pipes.trans fresh.pipes⟩
              exact (start.aside (namei_aside named)).aside (iput_aside last i)

theorem initial_attended (begun : Initial m) : Attended m := by
  obtain ⟨booted, calls, _⟩ := begun
  exact ⟨(booted_untouched booted).tidy, fun s t c known => by simp [calls] at known⟩

/-- In every run whose closes disturb no call in progress no call touches a pipe that has been freed, and every blocked
thread waits for a pipe with an open end. -/
theorem pipe_outlives_calls {m : System} {trace : List PipeEvent}
    (reached : Reaches step (fun m _ action => m.Undisturbed action) Initial m trace) :
    (∀ s t, PipeEvent.touchedFreed s t ∉ trace) ∧ ∀ s t c, m.calls s t = some c →
      ∃ pi, m.kernel.pipes c.page = some pi ∧ (pi.readopen = true ∨ pi.writeopen = true) := by
  have held : Attended m ∧ ∀ s t, PipeEvent.touchedFreed s t ∉ trace := by
    refine reached.invariant (fun m trace => Attended m ∧ ∀ s t, PipeEvent.touchedFreed s t ∉ trace) ?_ ?_
    · exact fun m begun => ⟨initial_attended begun, by simp⟩
    · intro m trace action after events holds allowed stepped
      obtain ⟨attended, quiet⟩ := step_attended holds.1 allowed stepped
      refine ⟨attended, fun s t listed => ?_⟩
      rcases List.mem_append.mp listed with old | new
      · exact holds.2 s t old
      · exact quiet s t new
  obtain ⟨attended, quiet⟩ := held
  refine ⟨quiet, fun s t c known => ?_⟩
  obtain ⟨pi, live⟩ := Option.isSome_iff_exists.mp (attended.live s t c known).2
  exact ⟨pi, live, attended.tidy.useful c.page pi live⟩

/-- The first program runs, and nobody uses a pipe. -/
def bootSystem : System := { kernel := bootKernel, calls := fun _ _ => none, running := none }

def mainCall (call : Call) : PipeAction := .call { s := 0, t := 0, call }

def blankPass : PipeAction := .pass (fun _ => 0) Ipc.freedPage

/-- A thread waits for a byte that another thread of the process writes. -/
def readRun : List PipeAction :=
  [mainCall (.pipe (some 7) true), .read 0 1 3 1, blankPass, .write 0 0 4 1, blankPass, blankPass, .resume 0 1, blankPass,
    blankPass, blankPass]

/-- Both ends are closed while a thread waits. -/
def closeRun : List PipeAction :=
  [mainCall (.pipe (some 7) true), .read 0 1 3 1, blankPass, mainCall (.close 3), mainCall (.close 4), .resume 0 1, blankPass]

/-- No action of the run closes a descriptor. -/
def keepsOpen : PipeAction → Bool
  | .call { s := _, t := _, call := .close _ } => false
  | _ => true

theorem bootSystem_initial : Initial bootSystem := ⟨bootKernel_booted, rfl, rfl⟩

/-- A read that waits for its byte and returns it. -/
theorem pipe_outlives_calls_run : ∃ m trace, Reaches step (fun m _ action => m.Undisturbed action) Initial m trace ∧
    .returned 0 1 1 ∈ trace ∧ ∀ s t, PipeEvent.touchedFreed s t ∉ trace := by
  obtain ⟨m, trace, reached, answered⟩ := replay_witness step (fun _ _ action => keepsOpen action = true) Initial readRun
    bootSystem bootSystem_initial (fun _ trace => decide (.returned 0 1 1 ∈ trace)) (by decide +kernel)
  have undisturbed : Reaches step (fun m _ action => m.Undisturbed action) Initial m trace := by
    apply reached.weaken
    intro m trace action kept
    cases action with
    | call action =>
        intro fd page closes
        obtain ⟨s, t, call⟩ := action
        simp only at closes
        subst closes
        simp [keepsOpen] at kept
    | read s t fd n => trivial
    | write s t fd n => trivial
    | resume s t => trivial
    | pass source found => trivial
  exact ⟨m, trace, undisturbed, of_decide_eq_true answered, (pipe_outlives_calls undisturbed).1⟩

/-- A thread that waits in `piperead` goes on with a pipe that its sibling has closed. -/
theorem closed_pipe_touched : ∃ m trace, Reaches step (fun _ _ _ => True) Initial m trace ∧
    PipeEvent.touchedFreed 0 1 ∈ trace := by
  obtain ⟨m, trace, reached, touched⟩ := replay_witness step (fun _ _ _ => True) Initial closeRun
    bootSystem bootSystem_initial (fun _ trace => decide (.touchedFreed 0 1 ∈ trace)) (by decide +kernel)
  exact ⟨m, trace, reached, of_decide_eq_true touched⟩

end System

end BtbuOs.Files
