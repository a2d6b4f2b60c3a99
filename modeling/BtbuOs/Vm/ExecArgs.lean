import BtbuOs.Vm.StackArgs

namespace BtbuOs.Vm

open Machine Partition
open Sync (nthread Tid ThreadState)
open Sched (Slot)

variable {l : Layout} {k loaded : Kernel} {s : Slot} {t : Tid} {root : Page} {length : BitVec 32} {w after : ArgWorld}
  {strs : List (List Byte)} {uargv path : BitVec 64} {image : Bytes} {outcome : ExecOutcome}

/-- A new thread leaves the base of the stacks and the page table as they are. -/
theorem allocthread_base {user : Bool} {tid : Option Tid} (done : allocthread l k s root user = .ok (tid, loaded)) :
    (loaded.pool s).ustackBase = (k.pool s).ustackBase ∧ (loaded.pool s).pagetable = (k.pool s).pagetable := by
  unfold allocthread at done
  split at done
  · simp only [Except.ok.injEq, Prod.mk.injEq] at done
    rw [← done.2]
    exact ⟨rfl, rfl⟩
  · rename_i u found
    have last (mid : Kernel) (base : (mid.pool s).ustackBase = (k.pool s).ustackBase)
        (place : (mid.pool s).pagetable = (k.pool s).pagetable)
        (mapping : ((mapPage mid.memory root (trapframeVpn u) (l.trapframe s u)
            { r := true, w := true, x := false, u := false }).bind fun result =>
          if result.1 then .ok (some u, { mid with memory := result.2 }) else .error "map trapframe fail") =
            .ok (tid, loaded)) :
        (loaded.pool s).ustackBase = (k.pool s).ustackBase ∧ (loaded.pool s).pagetable = (k.pool s).pagetable := by
      obtain ⟨⟨mapped, m⟩, _, result⟩ := bind_ok.mp mapping
      cases mapped with
      | false => simp at result
      | true =>
          simp only [if_true, Except.ok.injEq, Prod.mk.injEq] at result
          rw [← result.2]
          exact ⟨base, place⟩
    cases user with
    | false =>
        simp only [Bool.false_eq_true, if_false] at done
        apply last _ _ _ done
        · rw [setThread_self]
          rfl
        · rw [setThread_self]
          rfl
    | true =>
        simp only [if_true] at done
        obtain ⟨mid, stacked, rest⟩ := bind_ok.mp done
        obtain ⟨_, _, m, _, _, rfl⟩ := mapUstack_ok stacked
        have own := setProcess_self k s (started (k.pool s) u (max (k.pool s).maxPage (ustackVpn (k.pool s) u + 1)))
        apply last _ _ _ rest
        · exact (congrArg Process.ustackBase own).trans rfl
        · exact (congrArg Process.pagetable own).trans rfl

/-- The stack of a new program stands behind its pages. -/
theorem binLoader_base (rooted : (k.pool s).pagetable = some root) (done : binLoader l k s length = .ok (.done, loaded)) :
    (loaded.pool s).ustackBase = 2 + imagePages length ∧ (loaded.pool s).pagetable = some root := by
  unfold binLoader at done
  rw [rooted] at done
  obtain ⟨m, _, rest⟩ := bind_ok.mp done
  obtain ⟨⟨tid, mid⟩, threading, last⟩ := bind_ok.mp rest
  obtain ⟨base, place⟩ := allocthread_base threading
  simp only at last
  split at last
  · simp only [pure, Except.pure, Except.ok.injEq, Prod.mk.injEq, true_and] at last
    subst last
    constructor
    · exact base.trans (congrArg Process.ustackBase (setProcess_self k s _))
    · exact place.trans ((congrArg Process.pagetable (setProcess_self k s _)).trans rooted)
  · simp at last

/-- The stack of a new program lies low in the address space, on a page of its own. -/
theorem stackBase_bounds (base : (loaded.pool s).ustackBase = 2 + imagePages length) :
    (stackBase (loaded.pool s)).toNat = 4096 * ustackVpn (loaded.pool s) 0 ∧ (stackBase (loaded.pool s)).toNat % 4096 = 0 ∧
      8192 ≤ (stackBase (loaded.pool s)).toNat ∧ (stackBase (loaded.pool s)).toNat + 4096 < 2 ^ 64 := by
  have limit := imagePages_le length
  have vpn : ustackVpn (loaded.pool s) 0 = 2 + imagePages length := by
    rw [ustackVpn, base]
    rfl
  have value : (stackBase (loaded.pool s)).toNat = 4096 * (2 + imagePages length) := by
    rw [stackBase, vpn, BitVec.toNat_ofNat]
    exact Nat.mod_eq_of_lt (by omega)
  rw [value, vpn]
  omega

/-- The program starts in the main thread with its arguments. -/
structure Started (after : ArgWorld) (s : Slot) (strs : List (List Byte)) (root : Page) (sp : BitVec 64)
    (ptrs : List (BitVec 64)) : Prop where
  rooted : (after.kernel.pool s).pagetable = some root
  running : (after.kernel.pool s).threads 0 = .running
  argc : after.frames s 0 a0 = BitVec.ofNat 64 strs.length
  argv : after.frames s 0 a1 = sp
  stack : after.frames s 0 spWord = sp
  argued : Argued after.kernel.memory root after.bytes (stackBase (after.kernel.pool s)).toNat strs sp ptrs

/-- The process goes on with a result. -/
structure Unchanged (w after : ArgWorld) (s : Slot) (t : Tid) (value : Int) : Prop where
  kernel : after.kernel = w.kernel
  bytes : after.bytes = w.bytes
  result : after.frames s t a0 = BitVec.ofInt 64 value
  frames : ∀ r u i, ¬(r = s ∧ u = t ∧ i = a0) → after.frames r u i = w.frames r u i

theorem setResult_unchanged (w : ArgWorld) (strpool : Nat → Byte) (s : Slot) (t : Tid) (value : Int) :
    Unchanged w (({ w with strpool } : ArgWorld).setResult s t value) s t value where
  kernel := rfl
  bytes := rfl
  result := by simp [ArgWorld.setResult, ArgWorld.setFrame]
  frames r u i away := by
    by_cases mine : r = s
    · subst mine
      by_cases own : u = t
      · subst own
        have other : i ≠ a0 := fun here => away ⟨rfl, rfl, here⟩
        simp [ArgWorld.setResult, ArgWorld.setFrame, other]
      · simp [ArgWorld.setResult, ArgWorld.setFrame, own]
    · simp [ArgWorld.setResult, ArgWorld.setFrame, mine]

/-- A stack that the user reads is one that the kernel has got a page for. -/
theorem pushArgv_mapped {page : Page} (rooted : (loaded.pool s).pagetable = some root)
    (place : (stackBase (loaded.pool s)).toNat = 4096 * ustackVpn (loaded.pool s) 0)
    (mapped : userTarget loaded.memory root (stackBase (loaded.pool s)).toNat = some page) :
    pushArgv loaded s true = .ok () := by
  have real : page ≠ 0 := fun null => userTarget_ne_zero loaded.memory root _ (null ▸ mapped)
  have translated := walkaddr_target loaded.memory root (stackBase (loaded.pool s)).toNat
  rw [mapped, Option.getD_some, place, Nat.mul_div_cancel_left _ (by decide)] at translated
  simp [pushArgv, rooted, translated, bind, Except.bind, pure, Except.pure, real]

/-- The call does to the kernel what the model without arguments says. -/
theorem execArgs_exec {bare : Kernel} (rooted : (k.pool s).pagetable = some root) (freed : execFree l k s t root = .ok bare)
    (loading : binLoader l bare s length = .ok (.done, loaded)) (argv : pushArgv loaded s true = .ok ()) :
    exec l k s t (some length) true = .ok (loaded.setThread s t .running, []) := by
  obtain ⟨mid, freeing, rest⟩ := bind_ok.mp freed
  obtain ⟨m, unmapping, result⟩ := bind_ok.mp rest
  simp only [pure, Except.pure, Except.ok.injEq] at result
  subst result
  simp only [exec, rooted, freeing, unmapping, loading, argv, bind, Except.bind]
  rfl

/-- An `exec` that returns passes the arguments on, or it finds no program and the process goes on. -/
theorem execArgs_passes {count : Nat} {program : Option (BitVec 32)} (kept : Kept l w.kernel) (led : Led w.kernel)
    (lives : alive ((w.kernel.pool s).threads t) = true) (rooted : (w.kernel.pool s).pagetable = some root)
    (rows : Rows w.strpool 0 strs) (clean : ∀ str ∈ strs, 0 ∉ str) (short : ∀ str ∈ strs, str.length < maxStrLen)
    (few : strs.length ≤ maxArgNum) (all : count = strs.length)
    (ran : execArgs l w s t root count program image = .ok (after, outcome)) :
    (program = none ∧ outcome = .returned (-1) ∧ Unchanged w after s t (-1) ∨
      outcome = .returned strs.length ∧ ∃ sp ptrs, Started after s strs root sp ptrs) ∧ after.strpool = w.strpool := by
  subst all
  unfold execArgs at ran
  split at ran
  · simp only [Except.ok.injEq, Prod.mk.injEq] at ran
    obtain ⟨rfl, rfl⟩ := ran
    exact ⟨.inl ⟨rfl, rfl, setResult_unchanged w w.strpool s t (-1)⟩, rfl⟩
  · rename_i length
    obtain ⟨bare, freed, rest⟩ := bind_ok.mp ran
    obtain ⟨⟨attempt, loaded⟩, loading, more⟩ := bind_ok.mp rest
    cases attempt with
    | failed => simp at more
    | faulted => simp at more
    | done =>
        obtain ⟨pushed, pushing, final⟩ := bind_ok.mp more
        have down := execFree_torn kept lives rooted freed
        have rootedBare : (bare.pool s).pagetable = some root := by
          rw [down.pool, setThread_self]
          exact rooted
        obtain ⟨base, place⟩ := binLoader_base rootedBare loading
        obtain ⟨value, start, high, limit⟩ := stackBase_bounds base
        obtain ⟨sp, b, ptrs, page, rfl, mapped, argued⟩ := pushArgs_argued place rows clean short few start high limit pushing
        have called := execArgs_exec rooted freed loading (pushArgv_mapped place value mapped)
        obtain ⟨rfl, _⟩ := exec_reloads kept led lives rooted called
        simp only [pure, Except.pure, Except.ok.injEq, Prod.mk.injEq] at final
        obtain ⟨rfl, rfl⟩ := final
        have own : (loaded.setThread s 0 .running).pool s = threaded (loaded.pool s) 0 .running := setThread_self ..
        refine ⟨.inr ⟨rfl, sp, ptrs, ?_, ?_, ?_, ?_, ?_, ?_⟩, rfl⟩
        · exact (congrArg Process.pagetable own).trans place
        · exact (congrFun (congrArg Process.threads own) 0).trans (threaded_self ..)
        · simp [ArgWorld.setResult, ArgWorld.setFrame]
        · simp [ArgWorld.setResult, ArgWorld.setFrame, startFrame, a1, a0]
        · simp [ArgWorld.setResult, ArgWorld.setFrame, startFrame, spWord, a0]
        · change Argued loaded.memory root b (stackBase ((loaded.setThread s 0 .running).pool s)).toNat strs sp ptrs
          rw [own]
          exact argued

/-- The strings that a program passes are free of null bytes. -/
theorem ArgArray.clean {m : Memory} {b : Bytes} (array : ArgArray m root b uargv strs) : ∀ str ∈ strs, 0 ∉ str := by
  induction array with
  | stop word => exact fun str listed => absurd listed List.not_mem_nil
  | string word real shown rest ih =>
      intro str listed
      rcases List.mem_cons.mp listed with rfl | later
      · exact shown.2
      · exact ih str later

/-- A call of `exec` with fewer than 32 strings of fewer than 300 bytes each panics or returns; it returns -1 and the process
goes on when the program is not found, and otherwise the new program starts with a copy of the strings on its stack. The call
stores in the rows of its strings alone. -/
theorem sysExec_passes (kept : Kept l w.kernel) (led : Led w.kernel) (lives : alive ((w.kernel.pool s).threads t) = true)
    (rooted : (w.kernel.pool s).pagetable = some root) (passed : Passed w.kernel.memory root w.bytes uargv strs)
    (few : strs.length < maxArgNum) (short : ∀ str ∈ strs, str.length < maxStrLen) (name : Nat → Byte)
    (disk : (Nat → Byte) → Option (BitVec 32)) (ran : sysExec l w s t path uargv name disk image = .ok (after, outcome)) :
    ((∃ file, disk file = none) ∧ outcome = .returned (-1) ∧ Unchanged w after s t (-1) ∨
      outcome = .returned strs.length ∧ ∃ sp ptrs, Started after s strs root sp ptrs) ∧
      ∀ a, maxStrLen * strs.length ≤ a → after.strpool a = w.strpool a := by
  have held : w.kernel.holding.roots s = some root := rooted
  have gathered : (∀ str ∈ strs, 0 ∉ str) ∧ ∃ pool,
      collect l w.kernel.memory root w.bytes maxArgNum 0 uargv w.strpool = .ok (.stopped strs.length pool) ∧
        Rows pool 0 strs ∧ ∀ a, maxStrLen * strs.length ≤ a → pool a = w.strpool a := by
    rcases passed with ⟨rfl, rfl⟩ | ⟨positive, array⟩
    · exact ⟨fun str listed => absurd listed List.not_mem_nil, w.strpool, rfl, fun j inside => absurd inside (Nat.not_lt_zero j),
        fun _ _ => rfl⟩
    · obtain ⟨pool, collected, rows, outside⟩ := collect_passed kept.sound held w.strpool maxArgNum 0 array
        (Nat.le_of_lt few) short positive
      rw [Nat.zero_add] at collected outside
      exact ⟨array.clean, pool, collected, rows, fun a high => outside a (.inr high)⟩
  obtain ⟨clean, pool, collected, rows, outside⟩ := gathered
  unfold sysExec at ran
  rw [rooted] at ran
  obtain ⟨stores, _, rest⟩ := bind_ok.mp ran
  rw [collected] at rest
  obtain ⟨_, same, more⟩ := bind_ok.mp rest
  simp only [Except.ok.injEq] at same
  subst same
  simp only [if_neg (Nat.not_le.mpr few)] at more
  obtain ⟨result, kernelOnly⟩ := execArgs_passes (w := { w with strpool := pool }) kept led lives rooted rows clean short
    (Nat.le_of_lt few) rfl more
  constructor
  · rcases result with ⟨missing, refused, unchanged⟩ | started
    · exact .inl ⟨⟨_, missing⟩, refused, unchanged.kernel, unchanged.bytes, unchanged.result, unchanged.frames⟩
    · exact .inr started
  · intro a high
    rw [kernelOnly]
    exact outside a high

/-- Long strings are stacked far below the top. -/
theorem Argued.room {m : Memory} {b : Bytes} {base size : Nat} {sp : BitVec 64} {ptrs : List (BitVec 64)}
    (argued : Argued m root b base strs sp ptrs) (long : ∀ i (inside : i < strs.length), size ≤ strs[i].length + 1) (i : Nat)
    (inside : i < strs.length) (bound : i < ptrs.length) : ptrs[i].toNat + size * (i + 1) ≤ base + 4096 := by
  induction i with
  | zero =>
      have high := (argued.placed 0 inside bound).2
      have enough := long 0 inside
      omega
  | succ i ih =>
      have step := argued.apart i (i + 1) (Nat.lt_succ_self i) inside bound (by omega)
      have enough := long (i + 1) inside
      have before := ih (by omega) (by omega)
      rw [Nat.mul_succ]
      omega

/-- A page with an array of one string. -/
def greeting (offset : Nat) : Byte :=
  if offset = 0 then 0x10 else if offset = 1 then 0x10 else if offset = 16 then 104 else if offset = 17 then 105 else 0

/-- A world in which all pages have the same contents. -/
def argWorld (k : Kernel) (contents : Nat → Byte) : ArgWorld where
  kernel := k
  bytes := fun _ => contents
  strpool _ := 0
  frames _ _ _ := 0

/-- The first program passes a string of two bytes to a new program. -/
theorem sysExec_passes_run : ∃ k trace root after sp ptrs,
    Reaches (step (smallLayout 30)) (fun k _ action => fed k action = true) (· = bootKernel (smallLayout 30)) k trace ∧
      sysExec (smallLayout 30) (argWorld k greeting) 0 0 0x1010 0x1000 (fun _ => 0) (fun _ => some 1) blankBytes =
        .ok (after, .returned 1) ∧ Started after 0 [[104, 105]] root sp ptrs := by
  obtain ⟨k, trace, reached, test⟩ := replay_witness (step (smallLayout 30)) (fun k _ action => fed k action = true)
    (· = bootKernel (smallLayout 30)) loadRun (bootKernel (smallLayout 30)) rfl
    (fun k _ => alive ((k.pool 0).threads 0) && (k.pool 0).pagetable.any (fun root => (userTarget k.memory root 0x1000).isSome) &&
      (sysExec (smallLayout 30) (argWorld k greeting) 0 0 0x1010 0x1000 (fun _ => 0) (fun _ => some 1)
        blankBytes).toOption.any fun result : ArgWorld × ExecOutcome => decide (result.2 = .returned 1)) (by decide +kernel)
  rw [Bool.and_eq_true, Bool.and_eq_true] at test
  obtain ⟨⟨lives, rooted⟩, test⟩ := test
  obtain ⟨root, rooted, mapped⟩ := (Option.any_eq_true ..).mp rooted
  obtain ⟨page, mapped⟩ := Option.isSome_iff_exists.mp mapped
  obtain ⟨⟨after, outcome⟩, ran, returned⟩ := (Option.any_eq_true ..).mp test
  obtain rfl : outcome = .returned 1 := of_decide_eq_true returned
  have spawned := toOption_some.mp ran
  obtain ⟨kept, led⟩ := reached_kept reached
  have shows (va : Nat) (bytes : List Byte) (low : 0x1000 ≤ va) (high : va + bytes.length ≤ 0x2000)
      (holds : Holds greeting (va - 0x1000) bytes) : ReadsAt k.memory root (fun _ => greeting) va bytes :=
    Holds.reads (b := fun _ => greeting) holds (by decide) mapped low high
  have passed : Passed k.memory root (fun _ => greeting) 0x1000 [[104, 105]] := by
    have first : Word k.memory root (fun _ => greeting) 0x1000 0x1010 :=
      ⟨by decide, shows 0x1000 _ (by decide) (by decide) (by decide)⟩
    have last : Word k.memory root (fun _ => greeting) 0x1008 0 :=
      ⟨by decide, shows 0x1008 _ (by decide) (by decide) (by decide)⟩
    exact .inr ⟨by decide, .string first (by decide)
      ⟨shows 0x1010 _ (by decide) (by decide) (by decide), by decide⟩ (.stop last)⟩
  obtain ⟨⟨⟨file, missing⟩, _⟩ | ⟨_, sp, ptrs, started⟩, _⟩ := sysExec_passes (w := argWorld k greeting) kept led lives
    rooted passed (by decide) (by decide) (fun _ => 0) (fun _ => some 1) spawned
  · simp at missing
  · exact ⟨k, trace, root, after, sp, ptrs, reached, spawned, started⟩

/-- A page with 14 pointers to a string of 299 bytes. -/
def crowd (offset : Nat) : Byte :=
  if offset < 112 then if offset % 8 = 1 then 0x11 else 0 else if 256 ≤ offset ∧ offset < 555 then 1 else 0

/-- The strings of that page. -/
def crowdStrings : List (List Byte) := List.replicate 14 (List.replicate 299 1)

theorem crowd_words : (∀ j, j < 14 → Holds crowd (8 * j) (wordBytes 0x1100)) ∧ Holds crowd (8 * 14) (wordBytes 0) := by
  constructor
  · decide
  · decide

theorem crowd_string : Holds crowd 256 (List.replicate 299 1 ++ [0]) := by
  intro i inside
  rw [List.length_append, List.length_replicate, List.length_singleton] at inside
  by_cases last : i = 299
  · subst last
    rw [List.getElem_concat_length (by rw [List.length_replicate])]
    decide
  · rw [List.getElem_append_left (by rw [List.length_replicate]; omega), List.getElem_replicate, crowd, if_neg (by omega),
      if_pos (by omega)]

/-- The pointers from some place on are an array of strings. -/
theorem crowd_array {m : Memory} {page : Page} (mapped : userTarget m root 0x1000 = some page) (n : Nat) (small : n ≤ 14) :
    ArgArray m root (fun _ => crowd) (BitVec.ofNat 64 (0x1000 + 8 * (14 - n))) (List.replicate n (List.replicate 299 1)) := by
  have value (n : Nat) : (BitVec.ofNat 64 (0x1000 + 8 * (14 - n))).toNat = 0x1000 + 8 * (14 - n) := by
    rw [BitVec.toNat_ofNat]
    exact Nat.mod_eq_of_lt (by omega)
  have shows (va : Nat) (bytes : List Byte) (low : 0x1000 ≤ va) (high : va + bytes.length ≤ 0x2000)
      (holds : Holds crowd (va - 0x1000) bytes) : ReadsAt m root (fun _ => crowd) va bytes :=
    Holds.reads (b := fun _ => crowd) holds (by decide) mapped low high
  induction n with
  | zero =>
      refine .stop ⟨by decide, ?_⟩
      exact shows _ _ (by decide) (by decide) crowd_words.2
  | succ n ih =>
      have next : BitVec.ofNat 64 (0x1000 + 8 * (14 - (n + 1))) + 8 = BitVec.ofNat 64 (0x1000 + 8 * (14 - n)) := by
        apply BitVec.eq_of_toNat_eq
        rw [BitVec.toNat_add, value, value]
        change (0x1000 + 8 * (14 - (n + 1)) + 8) % 2 ^ 64 = _
        omega
      rw [List.replicate_succ]
      have word : Word m root (fun _ => crowd) (BitVec.ofNat 64 (0x1000 + 8 * (14 - (n + 1)))) 0x1100 := by
        rw [Word, value]
        refine ⟨by omega, shows _ _ (by omega) (by rw [wordBytes_length]; omega) ?_⟩
        rw [Nat.add_sub_cancel_left]
        exact crowd_words.1 _ (by omega)
      refine .string word (by decide) ⟨?_, ?_⟩ (next ▸ ih (by omega))
      · apply shows 0x1100 _ (by decide) _ crowd_string
        rw [List.length_append, List.length_replicate, List.length_singleton]
        decide
      · intro listed
        exact absurd (List.eq_of_mem_replicate listed) (by decide)

/-- The first program passes 14 strings that do not fit on a stack: the call panics. -/
theorem crowd_panics : ∃ k trace root message,
    Reaches (step (smallLayout 30)) (fun k _ action => fed k action = true) (· = bootKernel (smallLayout 30)) k trace ∧
      (k.pool 0).pagetable = some root ∧ Passed k.memory root (fun _ => crowd) 0x1000 crowdStrings ∧
      crowdStrings.length < maxArgNum ∧ (∀ str ∈ crowdStrings, str.length < maxStrLen) ∧
      sysExec (smallLayout 30) (argWorld k crowd) 0 0 0x1100 0x1000 (fun _ => 0) (fun _ => some 1) blankBytes =
        .error message := by
  obtain ⟨k, trace, reached, test⟩ := replay_witness (step (smallLayout 30)) (fun k _ action => fed k action = true)
    (· = bootKernel (smallLayout 30)) loadRun (bootKernel (smallLayout 30)) rfl
    (fun k _ => alive ((k.pool 0).threads 0) && (k.pool 0).pagetable.any fun root => (userTarget k.memory root 0x1000).isSome)
    (by decide +kernel)
  rw [Bool.and_eq_true] at test
  obtain ⟨lives, rooted⟩ := test
  obtain ⟨root, rooted, mapped⟩ := (Option.any_eq_true ..).mp rooted
  obtain ⟨page, mapped⟩ := Option.isSome_iff_exists.mp mapped
  obtain ⟨kept, led⟩ := reached_kept reached
  have passed : Passed k.memory root (fun _ => crowd) 0x1000 crowdStrings :=
    .inr ⟨by decide, crowd_array mapped 14 (Nat.le_refl _)⟩
  have few : crowdStrings.length < maxArgNum := by decide
  have short (str : List Byte) (listed : str ∈ crowdStrings) : str.length < maxStrLen := by
    rw [List.eq_of_mem_replicate listed, List.length_replicate]
    decide
  refine ⟨k, trace, root, ?_⟩
  cases ran : sysExec (smallLayout 30) (argWorld k crowd) 0 0 0x1100 0x1000 (fun _ => 0) (fun _ => some 1) blankBytes with
  | error message => exact ⟨message, reached, rooted, passed, few, short, rfl⟩
  | ok result =>
      obtain ⟨after, outcome⟩ := result
      obtain ⟨⟨⟨file, missing⟩, _⟩ | ⟨_, sp, ptrs, started⟩, _⟩ := sysExec_passes (w := argWorld k crowd) kept led lives
        rooted passed few short (fun _ => 0) (fun _ => some 1) ran
      · simp at missing
      · have argued := started.argued
        have count : ptrs.length = 14 := argued.length
        have long (i : Nat) (inside : i < crowdStrings.length) : 300 ≤ crowdStrings[i].length + 1 := by
          rw [List.eq_of_mem_replicate (List.getElem_mem inside), List.length_replicate]
        have room := argued.room long 13 (by decide) (by omega)
        have low := (argued.placed 13 (by decide) (by omega)).1
        have above := argued.above
        omega

end BtbuOs.Vm
