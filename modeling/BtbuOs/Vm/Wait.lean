import BtbuOs.Vm.CopyRange
import BtbuOs.Vm.Fork

namespace BtbuOs.Vm

open Machine Partition
open Sync (Tid)
open Sched (nproc Slot ProcState)

/-- The kernel with the rest of what `wait` reads and writes. A store to a page that has become a table is told by its
address alone. -/
structure Family where
  kernel : Kernel
  pid : Slot → Nat
  exitCode : Slot → BitVec 32
  kstack : Slot → Nat → Byte
  bytes : Bytes

def kstackSize : Nat := 4096

/-- The physical address of an address of the user, or 0. -/
def useraddr (m : Memory) (root : Page) (va : BitVec 64) : Except String Nat := do
  let page ← walkaddr m root (va.toNat / 4096)
  return if page = 0 then 0 else page * 4096 + va.toNat % 4096

/-- A byte of a word of type `int`, the lowest one first. -/
def intByte (value : BitVec 32) (i : Nat) : Byte := value.extractLsb' (8 * i) 8

def Bytes.storeInt (b : Bytes) (code : Nat) (value : BitVec 32) : Bytes := fun page offset =>
  if offset < 4096 ∧ code ≤ page * 4096 + offset ∧ page * 4096 + offset < code + 4 then
    intByte value (page * 4096 + offset - code)
  else b page offset

/-- A store through NULL or beyond the memory that the kernel maps is a fault. -/
def storable (l : Layout) (code : Nat) : Bool := decide (code / 4096 ≠ 0 ∧ (code + 3) / 4096 < l.phystop)

inductive WaitResult where
  | childless
  | delivered (found : Family) (np : Slot) (stores : List Nat) (after : Family)
  | faulted (found : Family) (np : Slot) (after : Family)

/-- The children that a call asks for. -/
def Family.child (f : Family) (s : Slot) (pid : Int) (np : Slot) : Bool :=
  decide ((f.kernel.pool np).state ≠ .unused ∧ (f.kernel.pool np).parent = some s ∧ (pid ≤ 0 ∨ (f.pid np : Int) = pid))

/-- The first zombie among the children. -/
def Family.zombie (f : Family) (s : Slot) (pid : Int) : Option Slot :=
  (List.finRange nproc).find? fun np => f.child s pid np && decide ((f.kernel.pool np).state = .zombie)

/-- A zombie is freed before its exit code is stored. -/
def Family.free (f : Family) (np : Slot) : Family :=
  { f with kernel := f.kernel.setProcess np { f.kernel.pool np with state := .unused } }

/-- One scan of the pool; there is no result when the thread is queued again. -/
def waitRound (l : Layout) (s : Slot) (t : Tid) (pid : Int) (code : Nat) (f : Family) : Option WaitResult :=
  match f.zombie s pid with
  | some np =>
      let freed := f.free np
      if storable l code then
        some (.delivered f np ((List.range 4).map (code + ·)) { freed with
          bytes := f.bytes.storeInt code (f.exitCode np)
          kstack := Function.update f.kstack np fun offset => if offset < kstackSize then 9 else f.kstack np offset })
      else some (.faulted f np { freed with kernel := { freed.kernel with fault := some (s, t) } })
  | none => if (List.finRange nproc).any (f.child s pid) then none else some .childless

/-- The loop of `wait` over the states that its rounds find; there is no result while the thread waits. -/
def waitLoop (l : Layout) (s : Slot) (t : Tid) (pid : Int) (code : Nat) : List Family → Option WaitResult
  | [] => none
  | f :: later =>
      match waitRound l s t pid code f with
      | some result => some result
      | none => waitLoop l s t pid code later

/-- The address of the user is translated once, in the state of the call. -/
def sysWait (l : Layout) (f : Family) (later : List Family) (s : Slot) (t : Tid) (pid : Int) (va : BitVec 64) :
    Except String (Option WaitResult) :=
  match (f.kernel.pool s).pagetable with
  | none => .error "fault"
  | some root => do
      let code ← useraddr f.kernel.memory root va
      return waitLoop l s t pid code (f :: later)

/-- The state and the child of the round that finds a zombie. -/
def reaping (s : Slot) (pid : Int) : List Family → Option (Family × Slot)
  | [] => none
  | f :: later =>
      match f.zombie s pid with
      | some np => some (f, np)
      | none => if (List.finRange nproc).any (f.child s pid) then reaping s pid later else none

/-- An address of the user denotes the four bytes of a word on one page, which the user may write. -/
def Denotes (f : Family) (s : Slot) (va : BitVec 64) (page : Page) : Prop :=
  va.toNat % 4096 ≤ 4092 ∧ va.toNat / 4096 < maxVpn ∧ page ≠ 0 ∧
    userPage (space f.kernel.memory (f.kernel.pool s).pagetable (va.toNat / 4096)) = some page ∧
      (space f.kernel.memory (f.kernel.pool s).pagetable (va.toNat / 4096)).perm.w = true

instance (f : Family) (s : Slot) (va : BitVec 64) (page : Page) : Decidable (Denotes f s va page) :=
  inferInstanceAs (Decidable (_ ∧ _ ∧ _ ∧ _ ∧ _))

/-- One zombie is freed, and the bytes that an address denotes hold its exit code; nothing else changes. -/
structure Delivers (found after : Family) (s np : Slot) (pid : Int) (va : BitVec 64) (stores : List Nat) (page : Page) :
    Prop where
  wanted : found.child s pid np = true
  zombie : (found.kernel.pool np).state = .zombie
  freed : after.kernel = found.kernel.setProcess np { found.kernel.pool np with state := .unused }
  denotes : Denotes found s va page
  stores : stores = (List.range 4).map fun i => page * 4096 + va.toNat % 4096 + i
  code : ∀ i, i < 4 → after.bytes page (va.toNat % 4096 + i) = intByte (found.exitCode np) i
  bytes : ∀ other offset, offset < 4096 →
    ¬(other = page ∧ va.toNat % 4096 ≤ offset ∧ offset < va.toNat % 4096 + 4) →
      after.bytes other offset = found.bytes other offset
  kstacks : ∀ r, r ≠ np → after.kstack r = found.kstack r
  numbers : after.pid = found.pid ∧ after.exitCode = found.exitCode

/-- A child is lost unless its exit code is delivered. -/
def Exact (s : Slot) (pid : Int) (va : BitVec 64) : Option WaitResult → Prop
  | some (.delivered found np stores after) => ∃ page, Delivers found after s np pid va stores page
  | some (.faulted _ _ _) => False
  | some .childless => True
  | none => True

/-- The address denotes the bytes of a word when a zombie is found, on the page that it had at the call. -/
def Steady (f : Family) (later : List Family) (s : Slot) (pid : Int) (va : BitVec 64) (root : Page) : Prop :=
  ∀ found np, reaping s pid (f :: later) = some (found, np) →
    ∃ page, Denotes found s va page ∧ userTarget f.kernel.memory root va.toNat = some page

variable {l : Layout} {m : Memory} {f found after : Family} {later rounds : List Family} {s np : Slot} {t : Tid} {pid : Int}
  {va : BitVec 64} {root page : Page} {code : Nat}

/-- The connection to the call of the kernel: the child that is collected is a zombie of the caller. -/
theorem zombie_wait (scanned : f.zombie s pid = some np) : f.child s pid np = true ∧
    (f.kernel.pool np).state = .zombie ∧ wait f.kernel s np = ((f.free np).kernel, []) := by
  have test := List.find?_some scanned
  rw [Bool.and_eq_true, decide_eq_true_eq] at test
  obtain ⟨wanted, zombie⟩ := test
  have parent := of_decide_eq_true wanted
  refine ⟨wanted, zombie, ?_⟩
  rw [wait, if_pos ⟨zombie, parent.2.1⟩]
  rfl

/-- The loop ends in the round that finds a zombie. -/
theorem waitLoop_reaping (l : Layout) (s : Slot) (t : Tid) (pid : Int) (code : Nat) (rounds : List Family) : match reaping s pid rounds with
    | some (found, np) => found ∈ rounds ∧ found.zombie s pid = some np ∧
        waitLoop l s t pid code rounds = waitRound l s t pid code found
    | none => waitLoop l s t pid code rounds = none ∨ waitLoop l s t pid code rounds = some .childless := by
  induction rounds with
  | nil => exact .inl rfl
  | cons f later ih =>
      rw [reaping, waitLoop]
      cases scanned : f.zombie s pid with
      | some np =>
          refine ⟨List.mem_cons_self, scanned, ?_⟩
          rw [waitRound, scanned]
          by_cases fits : storable l code
          · simp [fits]
          · simp [fits]
      | none =>
          have round : waitRound l s t pid code f = if (List.finRange nproc).any (f.child s pid) then none else some .childless := by
            rw [waitRound, scanned]
          by_cases queued : (List.finRange nproc).any (f.child s pid)
          · simp only [round, queued, if_true]
            cases searched : reaping s pid later with
            | none =>
                rw [searched] at ih
                exact ih
            | some pair =>
                rw [searched] at ih
                exact ⟨List.mem_cons_of_mem f ih.1, ih.2⟩
          · simp only [round, queued]
            exact .inr rfl

/-- The physical address that the translation of an address gives. -/
def physical (m : Memory) (root : Page) (va : Nat) : Nat :=
  match userTarget m root va with
  | none => 0
  | some page => page * 4096 + va % 4096

theorem useraddr_physical (m : Memory) (root : Page) (va : BitVec 64) :
    useraddr m root va = .ok (physical m root va.toNat) := by
  rw [useraddr, walkaddr_target, physical]
  cases target : userTarget m root va.toNat with
  | none => rfl
  | some page =>
      have real : page ≠ 0 := by
        rintro rfl
        exact userTarget_ne_zero m root va.toNat target
      simp [bind, Except.bind, pure, Except.pure, real]

theorem address_page {page offset : Nat} (inside : offset < 4096) : (page * 4096 + offset) / 4096 = page := by
  omega

/-- A physical address behind page 0 is one of the page that is the target. -/
theorem physical_page {va : Nat} (real : page ≠ 0) (same : physical m root va = page * 4096 + va % 4096) :
    userTarget m root va = some page := by
  have inside : va % 4096 < 4096 := Nat.mod_lt va (by decide)
  have pages := congrArg (· / 4096) same
  rw [physical] at pages
  cases target : userTarget m root va with
  | none =>
      simp only [target, address_page inside, Nat.zero_div] at pages
      exact absurd pages.symm real
  | some first =>
      simp only [target, address_page inside] at pages
      rw [pages]

/-- An address that denotes a word denotes bytes of managed memory. -/
theorem Denotes.managed (kept : Kept l f.kernel) (denotes : Denotes f s va page) : Managed l page := by
  obtain ⟨_, _, _, mine, _⟩ := denotes
  have occupied : occupant f.kernel.memory f.kernel.holding (.leaf s (px 0 (va.toNat / 4096)) (tablePath (va.toNat / 4096))) =
      some page := by
    rw [occupant_leaf rfl]
    exact mine
  exact kept.sound.owned.roleManaged _ page occupied

/-- A byte of memory lies in a word of one page when it is a byte of that page within the word. -/
theorem word_within (page other offset : Nat) {start : Nat} (word : start ≤ 4092) :
    (offset < 4096 ∧ page * 4096 + start ≤ other * 4096 + offset ∧ other * 4096 + offset < page * 4096 + start + 4) ↔
      other = page ∧ start ≤ offset ∧ offset < start + 4 := by
  constructor
  · rintro ⟨inside, low, high⟩
    obtain rfl : other = page := by omega
    omega
  · rintro ⟨rfl, low, high⟩
    omega

/-- The store to the word that an address denotes does what the call is for. -/
theorem storeInt_delivers (f : Family) (denotes : Denotes f s va page) (scanned : f.zombie s pid = some np) (stack : Nat → Byte) :
    Delivers f { f.free np with
      bytes := f.bytes.storeInt (page * 4096 + va.toNat % 4096) (f.exitCode np)
      kstack := Function.update f.kstack np stack } s np pid va
      ((List.range 4).map (page * 4096 + va.toNat % 4096 + ·)) page := by
  obtain ⟨wanted, zombie, _⟩ := zombie_wait scanned
  have word := denotes.1
  constructor
  · exact wanted
  · exact zombie
  · rfl
  · exact denotes
  · rfl
  · intro i inside
    have place := (word_within page page (va.toNat % 4096 + i) word).mpr ⟨rfl, by omega, by omega⟩
    simp only [Bytes.storeInt, if_pos place]
    rw [← Nat.add_assoc, Nat.add_sub_cancel_left]
  · intro other offset _ away
    simp only [Bytes.storeInt, if_neg (away ∘ (word_within page other offset word).mp)]
  · intro r different
    exact Function.update_of_ne different ..
  · exact ⟨rfl, rfl⟩

/-- A delivery stores to the page that its address had at the call. -/
theorem Delivers.target {stores : List Nat} (delivers : Delivers found after s np pid va stores page)
    (same : stores = (List.range 4).map (code + ·)) : code = page * 4096 + va.toNat % 4096 := by
  have first := List.map_inj_left.mp (same.symm.trans delivers.stores) 0 (by simp)
  simpa using first

/-- The store of a delivery is in place, or the address that was translated is another one. -/
theorem waitRound_exact (t : Tid) (kept : Kept l found.kernel) (scanned : found.zombie s pid = some np) :
    Exact s pid va (waitRound l s t pid (physical m root va.toNat) found) ↔
      ∃ page, Denotes found s va page ∧ userTarget m root va.toNat = some page := by
  rw [waitRound, scanned]
  constructor
  · intro exact
    simp only at exact
    split at exact
    · obtain ⟨page, delivers⟩ := exact
      exact ⟨page, delivers.denotes, physical_page delivers.denotes.2.2.1 (delivers.target rfl)⟩
    · exact exact.elim
  · rintro ⟨page, denotes, target⟩
    have managed := denotes.managed kept
    have same : physical m root va.toNat = page * 4096 + va.toNat % 4096 := by rw [physical, target]
    have fits : storable l (page * 4096 + va.toNat % 4096) = true := by
      have word := denotes.1
      have real := denotes.2.2.1
      rw [storable, decide_eq_true_eq, address_page (by omega), Nat.add_assoc, address_page (by omega)]
      exact ⟨real, managed.2⟩
    simp only [same, fits, if_true]
    exact ⟨page, storeInt_delivers found denotes scanned _⟩

/-- The exit code of a child is delivered exactly when the caller's address denotes a word that the user may write at the
time of the delivery, on the page that it had at the call. -/
theorem wait_exact (t : Tid) (pid : Int) (va : BitVec 64) (kept : ∀ g ∈ f :: later, Kept l g.kernel)
    (rooted : (f.kernel.pool s).pagetable = some root) :
    ∃ result, sysWait l f later s t pid va = .ok result ∧ (Exact s pid va result ↔ Steady f later s pid va root) := by
  refine ⟨waitLoop l s t pid (physical f.kernel.memory root va.toNat) (f :: later), ?_, ?_⟩
  · rw [sysWait, rooted]
    simp only [useraddr_physical, bind, Except.bind, pure, Except.pure]
  · have ends := waitLoop_reaping l s t pid (physical f.kernel.memory root va.toNat) (f :: later)
    cases searched : reaping s pid (f :: later) with
    | none =>
        rw [searched] at ends
        have steady : Steady f later s pid va root := fun found np reaped => by simp [searched] at reaped
        rcases ends with waits | childless
        · rw [waits]
          exact ⟨fun _ => steady, fun _ => trivial⟩
        · rw [childless]
          exact ⟨fun _ => steady, fun _ => trivial⟩
    | some pair =>
        obtain ⟨found, np⟩ := pair
        rw [searched] at ends
        obtain ⟨member, scanned, round⟩ := ends
        rw [round, waitRound_exact t (kept found member) scanned]
        constructor
        · intro steady reapedFound reapedNp reaped
          obtain ⟨rfl, rfl⟩ := Prod.mk.inj (Option.some.inj (searched.symm.trans reaped))
          exact steady
        · exact fun steady => steady found np searched

/-- A family whose processes exit with code 7. -/
def numberedFamily (k : Kernel) : Family where
  kernel := k
  pid s := s.val + 1
  exitCode _ := 7
  kstack _ _ := 0
  bytes := blankBytes

/-- The first program forks. -/
def parentRun : List Action := loadRun ++ [firstThread .fork]

/-- The child exits. -/
def childExit : Action := { call := .thread 1 0 .exit, denials := [] }

/-- The first program waits for its child to a word of its image. -/
theorem wait_exact_run : ∃ k trace after events root result,
    Reaches (step (smallLayout 30)) (fun k _ action => fed k action = true) (· = bootKernel (smallLayout 30)) k trace ∧
      step (smallLayout 30) k childExit = some (after, events) ∧ (k.pool 0).pagetable = some root ∧
      sysWait (smallLayout 30) (numberedFamily k) [numberedFamily after] 0 0 (-1) 0x1008 = .ok result ∧
      Exact 0 (-1) 0x1008 result := by
  obtain ⟨k, trace, reached, test⟩ := replay_witness (step (smallLayout 30)) (fun k _ action => fed k action = true)
    (· = bootKernel (smallLayout 30)) parentRun (bootKernel (smallLayout 30)) rfl
    (fun k _ => fed k childExit && (step (smallLayout 30) k childExit).any fun result =>
      (k.pool 0).pagetable.any fun root =>
        (reaping 0 (-1) [numberedFamily k, numberedFamily result.1]).all fun pair =>
          (userTarget k.memory root 0x1008).any fun page => decide (Denotes pair.1 0 0x1008 page)) (by decide +kernel)
  rw [Bool.and_eq_true, Option.any_eq_true] at test
  obtain ⟨allowed, ⟨after, events⟩, stepped, test⟩ := test
  obtain ⟨root, rooted, test⟩ := (Option.any_eq_true ..).mp test
  have kept (g : Family) (listed : g ∈ [numberedFamily k, numberedFamily after]) : Kept (smallLayout 30) g.kernel := by
    rcases List.mem_cons.mp listed with rfl | listed
    · exact (reached_kept reached).1
    · rw [List.mem_singleton.mp listed]
      exact (reached_kept (.next reached allowed stepped)).1
  obtain ⟨result, waited, exact⟩ := wait_exact (s := 0) 0 (-1) 0x1008 kept rooted
  refine ⟨k, trace, after, events, root, result, reached, stepped, rooted, waited, exact.mpr fun found np reaped => ?_⟩
  rw [reaped] at test
  obtain ⟨page, target, denotes⟩ := (Option.any_eq_true ..).mp test
  exact ⟨page, of_decide_eq_true denotes, target⟩

/-- The first program waits to the null address: the kernel faults, and the child is lost. -/
theorem null_wait_faults : ∃ k trace found np after,
    Reaches (step (smallLayout 30)) (fun k _ action => fed k action = true) (· = bootKernel (smallLayout 30)) k trace ∧
      sysWait (smallLayout 30) (numberedFamily k) [] 0 0 (-1) 0 = .ok (some (.faulted found np after)) ∧
      (k.pool np).state = .zombie ∧ (after.kernel.pool np).state = .unused ∧
      ¬Exact 0 (-1) 0 (some (.faulted found np after)) := by
  obtain ⟨k, trace, reached, test⟩ := replay_witness (step (smallLayout 30)) (fun k _ action => fed k action = true)
    (· = bootKernel (smallLayout 30)) (parentRun ++ [childExit]) (bootKernel (smallLayout 30)) rfl
    (fun k _ => (sysWait (smallLayout 30) (numberedFamily k) [] 0 0 (-1) 0).toOption.any fun result : Option WaitResult =>
      result.any fun result =>
        match result with
        | .faulted _ np after => decide ((k.pool np).state = .zombie ∧ (after.kernel.pool np).state = .unused)
        | _ => false) (by decide +kernel)
  obtain ⟨result, waited, test⟩ := (Option.any_eq_true ..).mp test
  obtain ⟨result, rfl, test⟩ := (Option.any_eq_true ..).mp test
  cases result with
  | childless => simp at test
  | delivered found np stores after => simp at test
  | faulted found np after =>
      obtain ⟨zombie, lost⟩ := of_decide_eq_true test
      exact ⟨k, trace, found, np, after, reached, toOption_some.mp waited, zombie, lost, fun exact => exact⟩

end BtbuOs.Vm
