import BtbuOs.Vm.UserAccess
import BtbuOs.Vm.UserCalls

namespace BtbuOs.Vm

open Machine

/-- The page of a user address is mapped without a permission. -/
def lacks (m : Memory) (root : Page) (bit : Perm → Bool) (va : Nat) : Prop :=
  va / 4096 < maxVpn ∧ (space m (some root) (va / 4096)).valid = true ∧ bit (space m (some root) (va / 4096)).perm = false

instance (m : Memory) (root : Page) (bit : Perm → Bool) (va : Nat) : Decidable (lacks m root bit va) :=
  inferInstanceAs (Decidable (_ ∧ _))

/-- One call of a copy function of the kernel. -/
inductive Transfer where
  | copyout (dstva : BitVec 64) (len : Nat)
  | copyin (srcva : BitVec 64) (len : Nat)
  | copyinstr (srcva : BitVec 64) (max : Nat)

namespace Transfer

def va : Transfer → BitVec 64
  | .copyout dstva _ => dstva
  | .copyin srcva _ => srcva
  | .copyinstr srcva _ => srcva

def size : Transfer → Nat
  | .copyout _ len => len
  | .copyin _ len => len
  | .copyinstr _ max => max

/-- A transfer to the user needs `PTE_W`, a transfer from the user needs `PTE_R`. -/
def bit : Transfer → Perm → Bool
  | .copyout _ _ => Perm.w
  | .copyin _ _ => Perm.r
  | .copyinstr _ _ => Perm.r

/-- Every page that the transfer comes to has the permission; it comes to the pages before the first one that is not
mapped for the user. -/
def Permitted (m : Memory) (root : Page) (transfer : Transfer) : Prop :=
  ∀ i, i < transfer.size → (∀ j, j ≤ i → userTarget m root (transfer.va.toNat + j) ≠ none) →
    ¬lacks m root transfer.bit (transfer.va.toNat + i)

end Transfer

/-- A byte without `PTE_R` is not read, and a byte without `PTE_W` is not changed. -/
def Allowed (m : Memory) (root : Page) : Access → Prop
  | .loaded va => ¬lacks m root Perm.r va
  | .stored va old new => lacks m root Perm.w va → old = new

/-- The permissions bind a transfer when, whatever the pages hold, it makes allowed accesses only and fails when it needs a
byte without the permission. -/
def Binds (m : Memory) (root : Page) : Transfer → Prop
  | .copyout dstva len => ∀ byte src done after, src.length = len →
      copyout m root dstva src { byte, log := [] } = .ok (done, after) →
        (∀ access, access ∈ after.log → Allowed m root access) ∧
          ∀ i, i < len → lacks m root Perm.w (dstva.toNat + i) → done = false
  | .copyin srcva len => ∀ byte bytes after, copyin m root srcva len { byte, log := [] } = .ok (bytes, after) →
      (∀ access, access ∈ after.log → Allowed m root access) ∧
        ∀ i, i < len → lacks m root Perm.r (srcva.toNat + i) → bytes = none
  | .copyinstr srcva max => ∀ byte bytes after, copyinstr m root srcva max { byte, log := [] } = .ok (bytes, after) →
      (∀ access, access ∈ after.log → Allowed m root access) ∧
        ∀ i, i < max → lacks m root Perm.r (srcva.toNat + i) →
          (∀ j, j < i → ∀ page, userTarget m root (srcva.toNat + j) = some page →
            byte page ((srcva.toNat + j) % 4096) ≠ 0) → bytes = none

variable {m : Memory} {root : Page} {va n : Nat} {ram : Ram}

/-- A shorter way to the bytes after the first one. -/
theorem mapped_next {i : Nat} {page : Page} (first : userTarget m root va = some page)
    (rest : ∀ j, j ≤ i → userTarget m root (va + 1 + j) ≠ none) (j : Nat) (bound : j ≤ i + 1) :
    userTarget m root (va + j) ≠ none := by
  cases j with
  | zero => simp [first]
  | succ j =>
      have moved : va + (j + 1) = va + 1 + j := by omega
      rw [moved]
      exact rest j (by omega)

/-- A transfer to the user stores to the addresses that it comes to. -/
theorem outBytes_log (src : List Byte) : ∀ access, access ∈ (outBytes m root va src ram).2.log → access ∈ ram.log ∨
    ∃ i old new, i < src.length ∧ access = .stored (va + i) old new ∧ ∀ j, j ≤ i → userTarget m root (va + j) ≠ none := by
  induction src generalizing va ram with
  | nil => exact fun _ listed => Or.inl listed
  | cons value src ih =>
      intro access listed
      rw [outBytes] at listed
      cases first : userTarget m root va with
      | none =>
          rw [first] at listed
          exact Or.inl listed
      | some page =>
          rw [first] at listed
          rcases ih access listed with old | ⟨i, old, new, inside, rfl, mapped⟩
          · rw [Ram.store, List.mem_append, List.mem_singleton] at old
            rcases old with before | rfl
            · exact Or.inl before
            · refine Or.inr ⟨0, _, _, by simp, rfl, fun j bound => ?_⟩
              obtain rfl : j = 0 := by omega
              simp [first]
          · refine Or.inr ⟨i + 1, old, new, by rw [List.length_cons]; omega, ?_, mapped_next first mapped⟩
            congr 1
            omega

/-- The log of a transfer to the user grows. -/
theorem outBytes_grows (src : List Byte) (access : Access) (listed : access ∈ ram.log) :
    access ∈ (outBytes m root va src ram).2.log := by
  induction src generalizing va ram with
  | nil => exact listed
  | cons value src ih =>
      rw [outBytes]
      split
      · exact listed
      · apply ih
        rw [Ram.store]
        exact List.mem_append_left _ listed

/-- A transfer to the user fails at an address that is not mapped. -/
theorem outBytes_fails (src : List Byte) {i : Nat} (inside : i < src.length) (unmapped : userTarget m root (va + i) = none) :
    (outBytes m root va src ram).1 = false := by
  induction src generalizing va i ram with
  | nil => simp at inside
  | cons value src ih =>
      rw [outBytes]
      cases i with
      | zero =>
          rw [Nat.add_zero] at unmapped
          rw [unmapped]
      | succ i =>
          split
          · rfl
          · rw [List.length_cons] at inside
            have moved : va + (i + 1) = va + 1 + i := by omega
            rw [moved] at unmapped
            exact ih (by omega) unmapped

/-- In blank memory a transfer of null bytes followed by another byte changes the last byte. -/
theorem outBytes_change (i : Nat) (rest : List Byte) (blank : ∀ page offset, ram.byte page offset = 0)
    (mapped : ∀ j, j ≤ i → userTarget m root (va + j) ≠ none) :
    .stored (va + i) 0 1 ∈ (outBytes m root va (List.replicate i 0 ++ 1 :: rest) ram).2.log := by
  induction i generalizing va ram with
  | zero =>
      obtain ⟨page, first⟩ := Option.ne_none_iff_exists'.mp (mapped 0 (Nat.le_refl 0))
      rw [Nat.add_zero] at first
      rw [List.replicate_zero, List.nil_append, outBytes, first]
      apply outBytes_grows
      rw [Ram.store, blank]
      exact List.mem_append_right _ (List.mem_singleton.mpr rfl)
  | succ i ih =>
      obtain ⟨page, first⟩ := Option.ne_none_iff_exists'.mp (mapped 0 (Nat.zero_le _))
      rw [Nat.add_zero] at first
      rw [List.replicate_succ, List.cons_append, outBytes, first]
      have moved : va + (i + 1) = va + 1 + i := by omega
      rw [moved]
      apply ih
      · intro other offset
        change Function.update ram.byte page (Function.update (ram.byte page) (va % 4096) 0) other offset = 0
        by_cases own : other = page
        · subst own
          rw [Function.update_self]
          by_cases here : offset = va % 4096
          · rw [here, Function.update_self]
          · rw [Function.update_of_ne here, blank]
        · rw [Function.update_of_ne own, blank]
      · intro j bound
        have next := mapped (j + 1) (by omega)
        rwa [show va + (j + 1) = va + 1 + j by omega] at next

/-- A transfer from the user loads from the addresses that it comes to. -/
theorem inBytes_log (stop : Byte → Bool) (n : Nat) : ∀ access, access ∈ (inBytes m root stop va n ram).2.log →
    access ∈ ram.log ∨ ∃ i, i < n ∧ access = .loaded (va + i) ∧ ∀ j, j ≤ i → userTarget m root (va + j) ≠ none := by
  induction n generalizing va ram with
  | zero => exact fun _ listed => Or.inl listed
  | succ n ih =>
      intro access listed
      rw [inBytes] at listed
      cases first : userTarget m root va with
      | none =>
          rw [first] at listed
          exact Or.inl listed
      | some page =>
          rw [first] at listed
          have loaded (old : access ∈ (ram.load va).log) : access ∈ ram.log ∨
              ∃ i, i < n + 1 ∧ access = .loaded (va + i) ∧ ∀ j, j ≤ i → userTarget m root (va + j) ≠ none := by
            rw [Ram.load, List.mem_append, List.mem_singleton] at old
            rcases old with before | rfl
            · exact Or.inl before
            · refine Or.inr ⟨0, by omega, rfl, fun j bound => ?_⟩
              obtain rfl : j = 0 := by omega
              simp [first]
          simp only at listed
          split at listed
          · exact loaded listed
          · rcases ih access listed with old | ⟨i, inside, rfl, mapped⟩
            · exact loaded old
            · refine Or.inr ⟨i + 1, by omega, ?_, mapped_next first mapped⟩
              congr 1
              omega

theorem inBytes_grows (stop : Byte → Bool) (n : Nat) (access : Access) (listed : access ∈ ram.log) :
    access ∈ (inBytes m root stop va n ram).2.log := by
  induction n generalizing va ram with
  | zero => exact listed
  | succ n ih =>
      have longer : access ∈ (ram.load va).log := by
        rw [Ram.load]
        exact List.mem_append_left _ listed
      rw [inBytes]
      split
      · exact listed
      · split
        · exact longer
        · exact ih longer

/-- No byte before an index stops a transfer. -/
def Unstopped (m : Memory) (root : Page) (stop : Byte → Bool) (va i : Nat) (byte : Page → Nat → Byte) : Prop :=
  ∀ j, j < i → ∀ page, userTarget m root (va + j) = some page → stop (byte page ((va + j) % 4096)) = false

theorem Unstopped.next {stop : Byte → Bool} {i : Nat} {byte : Page → Nat → Byte} (runs : Unstopped m root stop va (i + 1) byte) :
    Unstopped m root stop (va + 1) i byte := by
  intro j bound page mapped
  have later := runs (j + 1) (by omega) page
  rw [show va + (j + 1) = va + 1 + j by omega] at later
  exact later mapped

/-- A transfer from the user fails at an address that is not mapped. -/
theorem inBytes_fails (stop : Byte → Bool) (n : Nat) {i : Nat} (inside : i < n)
    (runs : Unstopped m root stop va i ram.byte) (unmapped : userTarget m root (va + i) = none) :
    (inBytes m root stop va n ram).1 = none := by
  induction n generalizing va i ram with
  | zero => omega
  | succ n ih =>
      rw [inBytes]
      cases i with
      | zero =>
          rw [Nat.add_zero] at unmapped
          rw [unmapped]
      | succ i =>
          cases first : userTarget m root va with
          | none => rfl
          | some page =>
              have goes := runs 0 (by omega) page (by rwa [Nat.add_zero])
              rw [Nat.add_zero] at goes
              simp only
              rw [goes]
              have moved : va + (i + 1) = va + 1 + i := by omega
              rw [moved] at unmapped
              have later : (inBytes m root stop (va + 1) n (ram.load va)).1 = none := ih (by omega) runs.next unmapped
              simp [later]

/-- A transfer from the user loads the bytes up to the one that stops it. -/
theorem inBytes_loads (stop : Byte → Bool) (n : Nat) {i : Nat} (inside : i < n)
    (runs : Unstopped m root stop va i ram.byte) (mapped : ∀ j, j ≤ i → userTarget m root (va + j) ≠ none) :
    .loaded (va + i) ∈ (inBytes m root stop va n ram).2.log := by
  induction n generalizing va i ram with
  | zero => omega
  | succ n ih =>
      obtain ⟨page, first⟩ := Option.ne_none_iff_exists'.mp (mapped 0 (Nat.zero_le _))
      rw [Nat.add_zero] at first
      rw [inBytes, first]
      have here : .loaded va ∈ (ram.load va).log := by
        rw [Ram.load]
        exact List.mem_append_right _ (List.mem_singleton.mpr rfl)
      cases i with
      | zero =>
          simp only
          split
          · exact here
          · exact inBytes_grows stop n _ here
      | succ i =>
          have goes := runs 0 (by omega) page (by rwa [Nat.add_zero])
          rw [Nat.add_zero] at goes
          simp only [goes, Bool.false_eq_true, if_false]
          have moved : va + (i + 1) = va + 1 + i := by omega
          rw [moved]
          have later : Unstopped m root stop (va + 1) i (ram.load va).byte := runs.next
          apply ih (by omega) later
          intro j bound
          have next := mapped (j + 1) (by omega)
          rwa [show va + (j + 1) = va + 1 + j by omega] at next

/-- The permissions bind a transfer to the user exactly when every page that it comes to is writable. -/
theorem copyout_binds (m : Memory) (root : Page) (dstva : BitVec 64) (len : Nat) :
    Binds m root (.copyout dstva len) ↔ (Transfer.copyout dstva len).Permitted m root := by
  constructor
  · intro binds i inside mapped lacking
    have split : (List.replicate i (0 : Byte) ++ 1 :: List.replicate (len - i - 1) 0).length = len := by
      have bound : i < len := inside
      simp only [List.length_append, List.length_replicate, List.length_cons]
      omega
    obtain ⟨allowed, _⟩ := binds (fun _ _ => 0) _ _ _ split (copyout_bytes m root dstva _ _)
    have changed := allowed _ (outBytes_change i _ (fun _ _ => rfl) mapped) lacking
    exact absurd changed (by decide)
  · intro permitted byte src done after length ran
    rw [copyout_bytes, Except.ok.injEq, Prod.ext_iff] at ran
    obtain ⟨flag, last⟩ := ran
    simp only at flag last
    constructor
    · intro access listed
      rw [← last] at listed
      rcases outBytes_log src access listed with old | ⟨i, before, new, inside, rfl, mapped⟩
      · simp at old
      · exact fun lacking => absurd lacking (permitted i (by rwa [← length]) mapped)
    · intro i inside lacking
      by_cases mapped : ∀ j, j ≤ i → userTarget m root (dstva.toNat + j) ≠ none
      · exact absurd lacking (permitted i inside mapped)
      · push Not at mapped
        obtain ⟨j, bound, unmapped⟩ := mapped
        rw [← flag]
        exact outBytes_fails src (by omega) unmapped

/-- What binds a transfer from the user that a byte may stop. -/
theorem inBytes_binds (stop : Byte → Bool) (plain : Byte) (free : stop plain = false) (n : Nat) :
    (∀ byte bytes after, inBytes m root stop va n { byte, log := [] } = (bytes, after) →
        (∀ access, access ∈ after.log → Allowed m root access) ∧
          ∀ i, i < n → lacks m root Perm.r (va + i) → Unstopped m root stop va i byte → bytes = none) ↔
      ∀ i, i < n → (∀ j, j ≤ i → userTarget m root (va + j) ≠ none) → ¬lacks m root Perm.r (va + i) := by
  constructor
  · intro binds i inside mapped
    obtain ⟨allowed, _⟩ := binds (fun _ _ => plain) _ _ rfl
    exact allowed _ (inBytes_loads stop n inside (fun _ _ _ _ => free) mapped)
  · intro permitted byte bytes after ran
    rw [Prod.ext_iff] at ran
    obtain ⟨result, last⟩ := ran
    simp only at result last
    constructor
    · intro access listed
      rw [← last] at listed
      rcases inBytes_log stop n access listed with old | ⟨i, inside, rfl, mapped⟩
      · simp at old
      · exact permitted i inside mapped
    · intro i inside lacking runs
      by_cases mapped : ∀ j, j ≤ i → userTarget m root (va + j) ≠ none
      · exact absurd lacking (permitted i inside mapped)
      · push Not at mapped
        obtain ⟨j, bound, unmapped⟩ := mapped
        rw [← result]
        exact inBytes_fails stop n (by omega) (fun k below => runs k (by omega)) unmapped

theorem copyin_binds (m : Memory) (root : Page) (srcva : BitVec 64) (len : Nat) :
    Binds m root (.copyin srcva len) ↔ (Transfer.copyin srcva len).Permitted m root := by
  change _ ↔ ∀ i, i < len → (∀ j, j ≤ i → userTarget m root (srcva.toNat + j) ≠ none) → ¬lacks m root Perm.r (srcva.toNat + i)
  rw [← inBytes_binds (fun _ => false) 0 rfl len]
  simp only [Binds, copyin_bytes, Except.ok.injEq]
  constructor
  · intro binds byte bytes after ran
    exact ⟨(binds byte bytes after ran).1, fun i inside lacking _ => (binds byte bytes after ran).2 i inside lacking⟩
  · intro binds byte bytes after ran
    exact ⟨(binds byte bytes after ran).1,
      fun i inside lacking => (binds byte bytes after ran).2 i inside lacking fun _ _ _ _ => rfl⟩

theorem copyinstr_binds (m : Memory) (root : Page) (srcva : BitVec 64) (max : Nat) :
    Binds m root (.copyinstr srcva max) ↔ (Transfer.copyinstr srcva max).Permitted m root := by
  change _ ↔ ∀ i, i < max → (∀ j, j ≤ i → userTarget m root (srcva.toNat + j) ≠ none) → ¬lacks m root Perm.r (srcva.toNat + i)
  rw [← inBytes_binds (· = 0) 1 (by decide) max]
  simp only [Binds, copyinstr_bytes, Except.ok.injEq, Unstopped, decide_eq_false_iff_not]

namespace Script

/-- The transfers that a call makes. -/
def transfers (m : Memory) (root : Page) : Script → Ram → List Transfer
  | .finish _, _ => []
  | .copyout dstva src next, ram => .copyout dstva src.length ::
      match Vm.copyout m root dstva src ram with
      | .error _ => []
      | .ok (done, after) => (next done).transfers m root after
  | .copyin srcva len next, ram => .copyin srcva len ::
      match Vm.copyin m root srcva len ram with
      | .error _ => []
      | .ok (bytes, after) => (next bytes).transfers m root after
  | .copyinstr srcva max next, ram => .copyinstr srcva max ::
      match Vm.copyinstr m root srcva max ram with
      | .error _ => []
      | .ok (bytes, after) => (next bytes).transfers m root after

/-- A call whose transfers are permitted makes allowed accesses only. -/
theorem run_allowed (script : Script) {outcome : Outcome} {after : Ram} (ran : script.run m root ram = .ok (outcome, after))
    (permitted : ∀ transfer, transfer ∈ script.transfers m root ram → transfer.Permitted m root) :
    ∀ access, access ∈ after.log → access ∈ ram.log ∨ Allowed m root access := by
  induction script generalizing ram with
  | finish result =>
      simp only [run, Except.ok.injEq, Prod.mk.injEq] at ran
      rw [ran.2]
      exact fun _ listed => Or.inl listed
  | copyout dstva src next ih =>
      rw [run, copyout_bytes] at ran
      rw [transfers, copyout_bytes] at permitted
      intro access listed
      have here := permitted _ List.mem_cons_self
      have later := ih _ ran (fun transfer made => permitted transfer (List.mem_cons_of_mem _ made)) access listed
      rcases later with mid | fine
      · rcases outBytes_log src access mid with old | ⟨i, before, new, inside, rfl, mapped⟩
        · exact Or.inl old
        · exact Or.inr fun lacking => absurd lacking (here i inside mapped)
      · exact Or.inr fine
  | copyin srcva len next ih =>
      rw [run, copyin_bytes] at ran
      rw [transfers, copyin_bytes] at permitted
      intro access listed
      have here := permitted _ List.mem_cons_self
      have later := ih _ ran (fun transfer made => permitted transfer (List.mem_cons_of_mem _ made)) access listed
      rcases later with mid | fine
      · rcases inBytes_log _ len access mid with old | ⟨i, inside, rfl, mapped⟩
        · exact Or.inl old
        · exact Or.inr (here i inside mapped)
      · exact Or.inr fine
  | copyinstr srcva max next ih =>
      rw [run, copyinstr_bytes] at ran
      rw [transfers, copyinstr_bytes] at permitted
      intro access listed
      have here := permitted _ List.mem_cons_self
      have later := ih _ ran (fun transfer made => permitted transfer (List.mem_cons_of_mem _ made)) access listed
      rcases later with mid | fine
      · rcases inBytes_log _ max access mid with old | ⟨i, inside, rfl, mapped⟩
        · exact Or.inl old
        · exact Or.inr (here i inside mapped)
      · exact Or.inr fine

end Script

/-- The permissions bind a transfer exactly when every page that it comes to has the one that it needs, and they bind every
system call whose transfers are such. -/
theorem permissions_bind (m : Memory) (root : Page) :
    (∀ transfer : Transfer, Binds m root transfer ↔ transfer.Permitted m root) ∧
      ∀ (call : UserCall) (byte : Page → Nat → Byte) (outcome : Outcome) (after : Ram),
        call.script.run m root { byte, log := [] } = .ok (outcome, after) →
        (∀ transfer, transfer ∈ call.script.transfers m root { byte, log := [] } → transfer.Permitted m root) →
        ∀ access, access ∈ after.log → Allowed m root access := by
  refine ⟨fun transfer => ?_, fun call byte outcome after ran permitted access listed => ?_⟩
  · cases transfer with
    | copyout dstva len => exact copyout_binds m root dstva len
    | copyin srcva len => exact copyin_binds m root srcva len
    | copyinstr srcva max => exact copyinstr_binds m root srcva max
  · rcases call.script.run_allowed ran permitted access listed with old | fine
    · simp at old
    · exact fine

/-- The image of a program may be read and written. -/
theorem permissions_bind_image : ∃ k trace root, Reaches (step (smallLayout 12)) (fun k _ action => fed k action = true)
    (· = bootKernel (smallLayout 12)) k trace ∧ (k.pool 0).pagetable = some root ∧
      Binds k.memory root (.copyout 0x1000 16) := by
  obtain ⟨k, trace, reached, test⟩ := replay_witness (step (smallLayout 12)) (fun k _ action => fed k action = true)
    (· = bootKernel (smallLayout 12)) loadRun (bootKernel (smallLayout 12)) rfl
    (fun k _ => (k.pool 0).pagetable.any fun root => (List.range 16).all fun i => !decide (lacks k.memory root Perm.w (0x1000 + i)))
    (by decide +kernel)
  rw [Option.any_eq_true] at test
  obtain ⟨root, rooted, writable⟩ := test
  refine ⟨k, trace, root, reached, rooted, ((permissions_bind k.memory root).1 _).mpr fun i inside _ lacking => ?_⟩
  have known := List.all_eq_true.mp writable i (List.mem_range.mpr inside)
  rw [Bool.not_eq_true', decide_eq_false_iff_not] at known
  exact known lacking

/-- A program maps a page that may be read only. -/
def mapReadOnly : List Action := loadRun ++ [firstThread (.mmap 0x100000 4096 1)]

/-- The page is written with the time of one second. -/
def timeCall : UserCall := .gettimeofday 0x100000 Script.cpuFreq

/-- A call that succeeds and changes a byte of a page without `PTE_W`. -/
theorem readonly_changed : ∃ k trace root after,
    Reaches (step (smallLayout 12)) (fun k _ action => fed k action = true) (· = bootKernel (smallLayout 12)) k trace ∧
      (k.pool 0).pagetable = some root ∧
      timeCall.script.run k.memory root { byte := fun _ _ => 0, log := [] } = .ok (.returned 0, after) ∧
      ∃ access, access ∈ after.log ∧ ¬Allowed k.memory root access := by
  obtain ⟨k, trace, reached, test⟩ := replay_witness (step (smallLayout 12)) (fun k _ action => fed k action = true)
    (· = bootKernel (smallLayout 12)) mapReadOnly (bootKernel (smallLayout 12)) rfl
    (fun k _ => (k.pool 0).pagetable.any fun root => decide (lacks k.memory root Perm.w 0x100000) &&
      (timeCall.script.run k.memory root { byte := fun _ _ => 0, log := [] }).toOption.any fun result : Outcome × Ram =>
        decide (result.1 = .returned 0 ∧ (Access.stored 0x100000 0 1) ∈ result.2.log))
    (by decide +kernel)
  rw [Option.any_eq_true] at test
  obtain ⟨root, rooted, written⟩ := test
  rw [Bool.and_eq_true, decide_eq_true_eq, Option.any_eq_true] at written
  obtain ⟨lacking, ⟨outcome, after⟩, ran, shown⟩ := written
  rw [decide_eq_true_eq] at shown
  obtain ⟨rfl, stored⟩ := shown
  have result : timeCall.script.run k.memory root { byte := fun _ _ => 0, log := [] } = .ok (.returned 0, after) := by
    cases called : timeCall.script.run k.memory root { byte := fun _ _ => 0, log := [] } with
    | error message =>
        rw [called] at ran
        contradiction
    | ok result =>
        rw [called] at ran
        exact congrArg Except.ok (Option.some.inj ran)
  exact ⟨k, trace, root, after, reached, rooted, result, _, stored, fun allowed => absurd (allowed lacking) (by decide)⟩

end BtbuOs.Vm
