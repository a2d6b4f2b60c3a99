import BtbuOs.Files.PipeCall

namespace BtbuOs.Files

open Machine RefCount
open Sync (Tid)
open Sched (nproc Slot ProcState)

/-- A main thread exits without open descriptors, and a pipe that succeeds gets two descriptors. -/
def Accounts (k : Kernel) (action : Action) : Prop :=
  match action.call with
  | .exit _ => action.t = 0 → ∀ fd, (k.pool action.s).files fd = none
  | .pipe page copied => TwoFree k action.s ∨ copied = false ∨ page = none ∨ Exhausted k
  | _ => True

instance (k : Kernel) : (action : Action) → Decidable (Accounts k action)
  | ⟨s, t, .exit _⟩ => inferInstanceAs (Decidable (t = 0 → ∀ fd, (k.pool s).files fd = none))
  | ⟨s, _, .pipe page copied⟩ =>
      inferInstanceAs (Decidable (TwoFree k s ∨ copied = false ∨ page = none ∨ Exhausted k))
  | ⟨_, _, .fork _⟩ | ⟨_, _, .spawn _ _ _⟩ | ⟨_, _, .exec _ _ _⟩ | ⟨_, _, .fileopen _ _ _⟩ | ⟨_, _, .close _⟩
  | ⟨_, _, .wait _ _⟩ => inferInstanceAs (Decidable True)

/-- Every call keeps the balance when it accounts for its descriptors. -/
theorem operate_balanced {k after : Kernel} {action : Action} {events : List Event} (balanced : Balanced k)
    (used : (k.pool action.s).state = .used) (offered : Offered k action.call) (accounts : Accounts k action)
    (done : operate k action.s action.t action.call = .ok (after, events)) : Balanced after := by
  obtain ⟨s, t, call⟩ := action
  cases call with
  | fork memory => exact fork_balanced balanced used done
  | spawn copied found memory => exact sysSpawn_balanced balanced used done
  | exec found loads argc => exact exec_balanced balanced done
  | fileopen found fresh omode => exact fileopen_balanced balanced used done
  | pipe page copied =>
      apply sysPipe_balanced balanced used _ accounts done
      rintro place rfl
      exact Option.isNone_iff_eq_none.mp offered
  | close fd => exact sysClose_balanced balanced used done
  | wait pid mapped =>
      simp only [operate, Except.ok.injEq] at done
      have kept := wait_balanced balanced s t pid mapped
      rwa [done] at kept
  | exit code =>
      obtain ⟨left, exited, rest⟩ := bind_ok.mp done
      simp only [Except.ok.injEq, Prod.mk.injEq] at rest
      obtain ⟨rfl, rfl⟩ := rest
      exact exit_balanced (balanced.trap none) accounts exited

/-- A step is a call of a process in use. -/
theorem step_cases {k after : Kernel} {action : Action} {events : List Event}
    (stepped : step k action = some (after, events)) :
    (k.pool action.s).state = .used ∧ Offered k action.call ∧
      settle k (operate k action.s action.t action.call) = (after, events) := by
  unfold step at stepped
  split at stepped
  · simp at stepped
  · split at stepped
    · simp at stepped
    · split at stepped
      · simp at stepped
      · rename_i ready
        rw [not_or, not_not, not_not] at ready
        exact ⟨ready.1, ready.2, Option.some.inj stepped⟩

theorem step_balanced {k after : Kernel} {action : Action} {events : List Event} (balanced : Balanced k)
    (accounts : Accounts k action) (stepped : step k action = some (after, events)) : Balanced after := by
  obtain ⟨used, offered, settled⟩ := step_cases stepped
  cases result : operate k action.s action.t action.call with
  | error message =>
      simp only [result, settle, Prod.mk.injEq] at settled
      rw [← settled.1]
      exact balanced.same rfl rfl rfl balanced.inodes
  | ok pair =>
      simp only [result, settle] at settled
      subst settled
      exact operate_balanced balanced used offered accounts result

theorem blankKernel_balanced : Balanced blankKernel := by
  have cells (f : FileIx) : refs (table blankKernel) f = 0 := refs_eq_zero.mpr fun cell => by simp [table, blankKernel]
  constructor
  · constructor
    · intro f
      rw [cells]
      rfl
    · exact fun f _ => rfl
  · intro page writable
    have idle (f : FileIx) : ends blankKernel f ≠ some (page, writable) := by
      rw [ends_idle rfl]
      simp
    rw [refs_eq_zero.mpr idle]
    rfl
  · intro i
    have idle (f : FileIx) : inodes blankKernel f ≠ some i := by
      rw [inodes_idle rfl]
      simp
    rw [refs_eq_zero.mpr idle]
    rfl

theorem booted_balanced {k : Kernel} (booted : Booted k) : Balanced k := by
  obtain ⟨entry, loaded⟩ := booted
  unfold loadInitApp at loaded
  cases alloc : allocproc blankKernel with
  | none => simp [alloc] at loaded
  | some pair =>
      obtain ⟨s, mid⟩ := pair
      obtain ⟨_, ready, _, _, kept⟩ := allocproc_fresh alloc
      have stdio := (initStdioFrom_balanced [0, 1, 2] (kept blankKernel_balanced) ready).1
      simp only [alloc] at loaded
      cases named : namei (initStdio mid s).2 (some entry) with
      | error message => simp [named] at loaded
      | ok found =>
          obtain ⟨ip, last⟩ := found
          cases ip with
          | none => simp [named] at loaded
          | some i =>
              simp only [named, Option.some.injEq] at loaded
              subst loaded
              exact (Balanced.aside stdio (namei_aside named)).aside (iput_aside last i)

/-- Every count of open files is exact in every run whose steps account for their descriptors. -/
theorem file_refs_counted (k : Kernel) (trace : List Event)
    (reached : Reaches step (fun k _ action => Accounts k action) Booted k trace) : Counted k := by
  apply Balanced.counted
  refine reached.invariant (fun k _ => Balanced k) ?_ ?_
  · exact fun k booted => booted_balanced booted
  · exact fun k trace action after events balanced accounts stepped => step_balanced balanced accounts stepped

/-- The kernel that runs a program from inode 2. -/
def bootKernel : Kernel := (loadInitApp ⟨2, tFile⟩).getD blankKernel

theorem bootKernel_booted : Booted bootKernel := by
  have loads : (loadInitApp ⟨2, tFile⟩).isSome = true := by decide +kernel
  obtain ⟨k, loaded⟩ := Option.isSome_iff_exists.mp loads
  refine ⟨⟨2, tFile⟩, ?_⟩
  rw [bootKernel, loaded]
  rfl

/-- A child inherits a pipe and a file, closes everything, exits and is collected. -/
theorem file_refs_counted_run : ∃ k trace,
    Reaches step (fun k _ action => Accounts k action) Booted k trace ∧ .reaped 2 3 ∈ trace ∧ Counted k := by
  obtain ⟨k, trace, reached, collected⟩ := replay_witness step (fun k _ action => Accounts k action) Booted
    [⟨0, 0, .pipe (some 7) true⟩, ⟨0, 0, .fork .enough⟩, ⟨0, 0, .fileopen (some ⟨5, tFile⟩) none oRdwr⟩,
      ⟨1, 0, .close 0⟩, ⟨1, 0, .close 1⟩, ⟨1, 0, .close 2⟩, ⟨1, 0, .close 3⟩, ⟨1, 0, .close 4⟩, ⟨1, 0, .exit 3⟩,
      ⟨0, 0, .wait (-1) true⟩]
    bootKernel bootKernel_booted (fun _ trace => decide (.reaped 2 3 ∈ trace)) (by decide +kernel)
  exact ⟨k, trace, reached, of_decide_eq_true collected, file_refs_counted k trace reached⟩

/-- The exit of the first process leaves the references of its standard descriptors behind. -/
theorem exit_leaks_stdio : ¬∀ k trace, Reaches step (fun _ _ _ => True) Booted k trace → Counted k := by
  intro claim
  obtain ⟨k, trace, reached, leaked⟩ := replay_witness step (fun _ _ _ => True) Booted [⟨0, 0, .exit 0⟩]
    bootKernel bootKernel_booted
    (fun k _ => decide ((∀ s, (k.pool s).state ≠ .used) ∧ (k.filepool ⟨0, by decide⟩).ref = 1)) (by decide +kernel)
  obtain ⟨gone, ref⟩ := of_decide_eq_true leaked
  have counted := (claim k trace reached).ref ⟨0, by decide⟩
  have absent : holders k ⟨0, by decide⟩ = 0 := by
    rw [holders_eq, refs_eq_zero]
    intro cell
    simp [table, gone cell.1]
  rw [ref, absent] at counted
  simp at counted

/-- The condition on exits is exact: a main thread that exits with an open descriptor leaves a count too high. -/
theorem exit_miscounts {k after : Kernel} {s : Slot} {code : Int} {fd : Fd} {f : FileIx} (counted : Counted k)
    (used : (k.pool s).state = .used) (opened : (k.pool s).files fd = some f) (done : exit k s 0 code = .ok after) :
    ¬Counted after := by
  intro claim
  have left := exit_left done
  have before := counted.ref f
  have still := claim.ref f
  rw [holders_eq] at before still
  rw [left.filepool, before] at still
  have cleared := refs_clear (table_eq_some.mpr ⟨used, opened⟩) f
  rw [if_pos rfl] at cleared
  have fewer : refs (table after) f ≤ refs (Function.update (table k) (s, fd) none) f := by
    apply refs_mono
    rintro ⟨r, d⟩ named
    have other : r ≠ s := by
      rintro rfl
      rw [left.gone] at named
      simp at named
    rw [left.others r d other] at named
    rw [Function.update_of_ne fun same => other (Prod.mk.inj same).1]
    exact named
  omega

/-- The condition on pipes is exact: a pipe that succeeds without two descriptors leaves a file that nobody holds. -/
theorem pipe_miscounts {k : Kernel} {s : Slot} {place : Nat} (balanced : Balanced k) (offered : k.pipes place = none)
    (few : ¬TwoFree k s) (available : ¬Exhausted k) :
    ∃ after, sysPipe k s (some place) true = .ok (after, [.returned 0]) ∧ ¬Counted after := by
  cases alloc0 : filealloc k with
  | none => simp [Exhausted, alloc0] at available
  | some taken0 =>
      obtain ⟨f0, mid⟩ := taken0
      obtain ⟨zero0, rfl⟩ := filealloc_taken alloc0
      cases alloc1 : filealloc (k.setFile f0 { k.filepool f0 with ref := 1 }) with
      | none => simp [Exhausted, alloc0, alloc1] at available
      | some taken1 =>
          obtain ⟨f1, last⟩ := taken1
          obtain ⟨apart, zero1, rfl⟩ := filealloc_second alloc1
          cases allocated : pipealloc ((k.setFile f0 { k.filepool f0 with ref := 1 }).setFile f1
              { k.filepool f1 with ref := 1 }) f0 f1 (some place) with
          | none => simp [pipealloc] at allocated
          | some piped =>
              obtain ⟨file0, file1, made⟩ := pipealloc_piped balanced apart zero0 zero1 offered allocated
              cases filled0 : fdalloc piped s f0 with
              | mk fd0 first =>
                  cases filled1 : fdalloc first s f1 with
                  | mk fd1 second =>
                      refine ⟨second, by simp [sysPipe, alloc0, alloc1, allocated, filled0, filled1], fun claim => ?_⟩
                      have unheld : refs (table k) f1 = 0 := by
                        have ref := balanced.ref f1
                        omega
                      have absent := refs_eq_zero.mp unheld
                      have lost : second.filepool = piped.filepool ∧ ∀ cell, table second cell ≠ some f1 := by
                        have cells : table piped = table k := by
                          funext cell
                          rw [table, table, made.pool]
                        rcases fdalloc_filled filled0 with ⟨rfl, rfl, taken⟩ | ⟨d0, rfl, empty0, rfl⟩
                        · rcases fdalloc_filled filled1 with ⟨rfl, rfl, _⟩ | ⟨d1, rfl, empty1, rfl⟩
                          · exact ⟨rfl, by rwa [cells]⟩
                          · exact absurd empty1 (taken d1)
                        · rcases fdalloc_filled filled1 with ⟨rfl, rfl, _⟩ | ⟨d1, rfl, empty1, rfl⟩
                          · refine ⟨rfl, fun cell => ?_⟩
                            obtain ⟨r, d⟩ := cell
                            by_cases own : r = s ∧ d = d0
                            · obtain ⟨rfl, rfl⟩ := own
                              simp [table, Kernel.setFd, Kernel.setProcess, apart.symm]
                            · rw [table, Kernel.setFd_state, Kernel.setFd_files _ _ _ _ _ _ own, made.pool]
                              exact absent (r, d)
                          · have distinct : d1 ≠ d0 := by
                              rintro rfl
                              simp [Kernel.setFd, Kernel.setProcess] at empty1
                            rw [Kernel.setFd_files _ _ _ _ _ _ fun same => distinct same.2, made.pool] at empty1
                            rw [made.pool] at empty0
                            rcases Fin.lt_or_lt_of_ne distinct with order | order
                            · exact absurd ⟨d1, d0, order, empty1, empty0⟩ few
                            · exact absurd ⟨d0, d1, order, empty0, empty1⟩ few
                      have ref := claim.ref f1
                      rw [lost.1, made.filepool, Function.update_self, made.ref.2, holders_eq,
                        refs_eq_zero.mpr lost.2] at ref
                      simp at ref

end BtbuOs.Files
