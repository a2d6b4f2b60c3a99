import BtbuOs.Files.Descriptors
import BtbuOs.Fs.FileBytes

namespace BtbuOs.Files

open Vm (Byte Page userTarget outBytes)

variable {sb : Fs.Superblock} {desk after : Desk} {fd : Int} {va len value : BitVec 64} {f : FileIx} {ip : InodeIx} {page n r w rounds : Nat}

/-- The open file of a descriptor. -/
def Desk.opened (desk : Desk) (fd : Int) : Option FileIx := if 0 ≤ fd then (desk.word fd.toNat).join else none

/-- The files, the offsets, the pipes, the input of the console and the contents of the inodes stay. -/
structure Keeps (sb : Fs.Superblock) (desk after : Desk) : Prop where
  files : after.files = desk.files
  filepool : after.filepool = desk.filepool
  pipes : after.pipes = desk.pipes
  typed : after.typed = desk.typed
  content : ∀ i, Fs.content sb after.volume i = Fs.content sb desk.volume i

/-- A call returns -1 and keeps all that it could read or write. -/
def Refuses (sb : Fs.Superblock) (desk : Desk) (result : Except String Outcome) : Prop :=
  ∃ after, result = .ok (.returned (-1) after) ∧ Keeps sb desk after

/-- A call stays inside the descriptors, and it returns -1 and changes nothing when its descriptor is not open; a write on a file that is not writable and a read on a file that is not readable return -1 and keep files and pipes. -/
structure Respects (sb : Fs.Superblock) (desk : Desk) (call : DescriptorCall) : Prop where
  inside : call.run sb desk ≠ .ok .outside
  closed : desk.opened call.fd = none → call.run sb desk = .ok (.returned (-1) desk)
  unwritable : ∀ fd va len f, call = .write fd va len → desk.opened fd = some f → (desk.filepool f).writable = false →
    Refuses sb desk (call.run sb desk)
  unreadable : ∀ fd va len f, call = .read fd va len → desk.opened fd = some f → (desk.filepool f).readable = false →
    Refuses sb desk (call.run sb desk)

/-- A transfer of a pipe has a positive length as an `int`. -/
def Positive (len : BitVec 64) : Prop := 0 < (len.setWidth 32).toInt

/-- A write fails whatever the mode of its file is: the length of a write on the console is -1, the read end of the pipe is closed, or the range of the file is refused. -/
def WriteFails (desk : Desk) (f : FileIx) (len : BitVec 64) : Prop :=
  match (desk.filepool f).type with
  | .none => False
  | .stdio => len = -1
  | .pipe page => Positive len ∧ (desk.pipe page).readopen = false
  | .inode ip =>
      let off := (desk.filepool f).off
      let n := len.toNat % 2 ^ 32
      off > (desk.volume.itable ip).size ∨ (off + n) % 2 ^ 32 < off ∨ (off + n) % 2 ^ 32 > Fs.maxfile * Fs.bsize

/-- A read fails whatever the mode of its file is: the pipe is empty and its write end is closed, or a byte of the user that the read of the file reaches is not mapped. -/
def ReadFails (sb : Fs.Superblock) (desk : Desk) (f : FileIx) (va len : BitVec 64) : Prop :=
  match (desk.filepool f).type with
  | .none | .stdio => False
  | .pipe page => Positive len ∧ (desk.pipe page).nread = (desk.pipe page).nwrite ∧ (desk.pipe page).writeopen = false
  | .inode ip =>
      let off := (desk.filepool f).off
      let n := len.toNat % 2 ^ 32
      off ≤ (desk.volume.itable ip).size ∧ off ≤ (off + n) % 2 ^ 32 ∧ ∃ stop, desk.room va n = some stop ∧
        stop < min n ((desk.volume.itable ip).size - off) ∧ off + stop < Fs.maxfile * Fs.bsize ∧
          ∃ i, Fs.Live desk.volume ip i ∧ Fs.Enough sb desk.volume i (Fs.reach off (stop + 1))

/-- The descriptor is not the one behind the table, and the transfer that its file does not allow fails for another reason. -/
def Meets (sb : Fs.Superblock) (desk : Desk) : DescriptorCall → Prop
  | .read fd va len => fd ≠ 16 ∧ ∀ f, desk.opened fd = some f → (desk.filepool f).readable = false → ReadFails sb desk f va len
  | .write fd _ len => fd ≠ 16 ∧ ∀ f, desk.opened fd = some f → (desk.filepool f).writable = false → WriteFails desk f len
  | .close fd => fd ≠ 16
  | .fstat _ _ => True

/-- The volume meets its invariant, and the inodes of open files are in memory. -/
structure Steady (sb : Fs.Superblock) (desk : Desk) : Prop where
  sound : Fs.Sound sb desk.volume
  live : ∀ fd f ip, desk.files fd = some f → (desk.filepool f).type = .inode ip → ∃ i, Fs.Live desk.volume ip i

section Pipes

/-- A chunk is never longer than what is left. -/
theorem writeSize_le (pi : Ipc.Pipe) (n w : Nat) : Ipc.writeSize pi n w ≤ n - w := by
  rw [Ipc.writeSize]
  omega

theorem readSize_le (pi : Ipc.Pipe) (n r : Nat) : Ipc.readSize pi n r ≤ n - r := by
  rw [Ipc.readSize]
  omega

/-- A count of bytes is not the result -1. -/
theorem count_ne (small : w < 2 ^ 31) : BitVec.ofNat 64 w ≠ (-1 : BitVec 64) := by
  intro same
  have value := congrArg BitVec.toNat same
  rw [BitVec.toNat_ofNat, Nat.mod_eq_of_lt (by omega)] at value
  rw [value] at small
  exact absurd small (by decide)

/-- A write into a pipe whose read end is open does not return -1. -/
theorem pipewriteLoop_open (bound : n < 2 ^ 31) (below : w ≤ n) (reads : (desk.pipe page).readopen = true) :
    Desk.pipewriteLoop page va n rounds desk w ≠ .ok (.returned (-1) after) := by
  induction rounds generalizing desk w with
  | zero =>
      intro done
      simp only [Desk.pipewriteLoop, Except.ok.injEq, Outcome.returned.injEq] at done
      exact count_ne (by omega) done.1
  | succ rounds ih =>
      intro done
      rw [Desk.pipewriteLoop, Ipc.pipewritePass] at done
      by_cases more : w < n
      · rw [if_pos more, if_neg (by rw [reads]; decide)] at done
        by_cases full : (desk.pipe page).full = true
        · rw [if_pos full] at done
          cases done
        · rw [if_neg full] at done
          dsimp only at done
          split at done
          · cases done
          · have size := writeSize_le (desk.pipe page) n w
            apply ih _ _ done
            · omega
            · simp only [Desk.pipe, Desk.setPipe, Function.update_self, Option.getD_some]
              exact reads
      · rw [if_neg more] at done
        simp only [Except.ok.injEq, Outcome.returned.injEq] at done
        rw [BitVec.ofInt_natCast] at done
        exact count_ne (by omega) done.1

/-- Without a change everything is kept. -/
theorem Keeps.refl (sb : Fs.Superblock) (desk : Desk) : Keeps sb desk desk := ⟨rfl, rfl, rfl, rfl, fun _ => rfl⟩

theorem toNat_toInt (positive : Positive len) : 0 < (len.setWidth 32).toInt.toNat ∧ (len.setWidth 32).toInt.toNat < 2 ^ 31 := by
  have bound := BitVec.toInt_lt (x := len.setWidth 32)
  rw [Positive] at positive
  omega

theorem pipewrite_refuses (sb : Fs.Superblock) (desk : Desk) (page : Nat) (va len : BitVec 64) :
    Refuses sb desk (desk.pipewrite page va len) ↔ Positive len ∧ (desk.pipe page).readopen = false := by
  rw [Desk.pipewrite]
  by_cases none : (len.setWidth 32).toInt ≤ 0
  · rw [if_pos none]
    constructor
    · rintro ⟨after, done, -⟩
      contradiction
    · rintro ⟨positive, -⟩
      exact absurd positive (Int.not_lt.mpr none)
  · have positive : Positive len := Int.not_le.mp none
    obtain ⟨more, bound⟩ := toNat_toInt positive
    rw [if_neg none]
    constructor
    · rintro ⟨after, done, -⟩
      refine ⟨positive, ?_⟩
      by_contra opened
      exact pipewriteLoop_open bound (Nat.zero_le _) (Bool.not_eq_false _ ▸ opened) done
    · rintro ⟨-, closed⟩
      refine ⟨desk, ?_, Keeps.refl sb desk⟩
      rw [Desk.pipewriteLoop, Ipc.pipewritePass, if_pos more, if_pos closed]
      rfl

/-- A read of a pipe that has got bytes does not return -1. -/
theorem pipereadLoop_count {size : Option Nat} (bound : n < 2 ^ 31) (below : r ≤ n) :
    Desk.pipereadLoop page va n rounds desk r size ≠ .ok (.returned (-1) after) := by
  induction rounds generalizing desk r size with
  | zero =>
      intro done
      simp only [Desk.pipereadLoop, Except.ok.injEq, Outcome.returned.injEq] at done
      exact count_ne (by omega) done.1
  | succ rounds ih =>
      intro done
      rw [Desk.pipereadLoop, Ipc.pipereadPass] at done
      have stop (value : (Except.ok (Outcome.returned (BitVec.ofInt 64 (r : Nat)) desk) : Except String Outcome) = .ok (.returned (-1) after)) :
          False := by
        simp only [Except.ok.injEq, Outcome.returned.injEq] at value
        rw [BitVec.ofInt_natCast] at value
        exact count_ne (by omega) value.1
      by_cases more : r < n ∧ size ≠ some 0
      · rw [if_pos more] at done
        by_cases empty : (desk.pipe page).nread = (desk.pipe page).nwrite
        · rw [if_pos empty] at done
          exact stop done
        · rw [if_neg empty] at done
          dsimp only at done
          split at done
          · contradiction
          · have chunk := readSize_le (desk.pipe page) n r
            exact ih (by omega) done
      · rw [if_neg more] at done
        exact stop done

theorem piperead_refuses (sb : Fs.Superblock) (desk : Desk) (page : Nat) (va len : BitVec 64) :
    Refuses sb desk (desk.piperead page va len) ↔
      Positive len ∧ (desk.pipe page).nread = (desk.pipe page).nwrite ∧ (desk.pipe page).writeopen = false := by
  rw [Desk.piperead]
  by_cases none : (len.setWidth 32).toInt ≤ 0
  · rw [if_pos none]
    constructor
    · rintro ⟨after, done, -⟩
      contradiction
    · rintro ⟨positive, -⟩
      exact absurd positive (Int.not_lt.mpr none)
  · have positive : Positive len := Int.not_le.mp none
    obtain ⟨-, bound⟩ := toNat_toInt positive
    rw [if_neg none, Ipc.pipewaitPass]
    by_cases empty : (desk.pipe page).nread = (desk.pipe page).nwrite
    · rw [if_pos empty]
      by_cases opened : (desk.pipe page).writeopen = true
      · rw [if_pos opened]
        constructor
        · rintro ⟨after, done, -⟩
          cases done
        · rintro ⟨-, -, closed⟩
          rw [opened] at closed
          contradiction
      · rw [if_neg opened]
        exact ⟨fun _ => ⟨positive, empty, Bool.not_eq_true _ ▸ opened⟩, fun _ => ⟨desk, rfl, Keeps.refl sb desk⟩⟩
    · rw [if_neg empty]
      constructor
      · rintro ⟨after, done, -⟩
        exact absurd done (pipereadLoop_count bound (Nat.zero_le _))
      · rintro ⟨-, same, -⟩
        exact absurd same empty

end Pipes

section Inodes

/-- A file whose inode is in memory is not read from the disk. -/
theorem ivalid_live {s : Fs.State} {i : Nat} (live : Fs.Live s ip i) : Fs.ivalid sb s ip = .ok s := by
  rw [Fs.ivalid, if_pos live.2.1]

theorem ofInt_eq_minus_one {r : Int} (low : -1 ≤ r) (high : r < 2 ^ 63) : BitVec.ofInt 64 r = (-1 : BitVec 64) ↔ r = -1 := by
  constructor
  · intro same
    have value := congrArg BitVec.toInt same
    rw [BitVec.toInt_ofInt_eq_self (by decide) (by omega) (by omega)] at value
    rw [value]
    decide
  · rintro rfl
    rfl

theorem inodewrite_live (sb : Fs.Superblock) (desk : Desk) (f : FileIx) {i : Nat} (live : Fs.Live desk.volume ip i) (va len : BitVec 64) :
    desk.inodewrite sb f ip va len = (Fs.writei sb desk.volume ip (desk.source va) (desk.room va (len.toNat % 2 ^ 32)) (desk.filepool f).off
      (len.toNat % 2 ^ 32)).map fun result => .returned (BitVec.ofInt 64 result.1) ({ desk with volume := result.2 }.advance f result.1) := by
  rw [Desk.inodewrite, ivalid_live live]
  cases wrote : Fs.writei sb desk.volume ip (desk.source va) (desk.room va (len.toNat % 2 ^ 32)) (desk.filepool f).off (len.toNat % 2 ^ 32) with
  | error message =>
      simp only [bind, Except.bind, wrote]
      rfl
  | ok result =>
      simp only [bind, Except.bind, wrote]
      rfl

theorem inodewrite_refuses (desk : Desk) (f : FileIx) {i : Nat} (sound : Fs.Sound sb desk.volume) (live : Fs.Live desk.volume ip i)
    (va len : BitVec 64) : Refuses sb desk (desk.inodewrite sb f ip va len) ↔
      (desk.filepool f).off > (desk.volume.itable ip).size ∨ ((desk.filepool f).off + len.toNat % 2 ^ 32) % 2 ^ 32 < (desk.filepool f).off ∨
        ((desk.filepool f).off + len.toNat % 2 ^ 32) % 2 ^ 32 > Fs.maxfile * Fs.bsize := by
  rw [← Fs.writei_refused_iff sb desk.volume ip (desk.source va) (desk.room va (len.toNat % 2 ^ 32)), inodewrite_live sb desk f live]
  have short : len.toNat % 2 ^ 32 < 2 ^ 32 := Nat.mod_lt _ (by decide)
  constructor
  · rintro ⟨after, done, -⟩
    cases wrote : Fs.writei sb desk.volume ip (desk.source va) (desk.room va (len.toNat % 2 ^ 32)) (desk.filepool f).off (len.toNat % 2 ^ 32) with
    | error message =>
        rw [wrote] at done
        contradiction
    | ok result =>
        obtain ⟨r, volume⟩ := result
        rw [wrote] at done
        simp only [Except.map, Except.ok.injEq, Outcome.returned.injEq] at done
        rcases Fs.writei_saved sound live wrote with ⟨value, -⟩ | ⟨-, count, mid, value, bound, -⟩
        · exact ⟨volume, by rw [value]⟩
        · have same := (ofInt_eq_minus_one (by omega) (by omega)).mp done.1
          omega
  · rintro ⟨volume, wrote⟩
    rcases Fs.writei_saved sound live wrote with ⟨-, same⟩ | ⟨-, count, mid, value, -⟩
    · refine ⟨desk, ?_, Keeps.refl sb desk⟩
      rw [wrote, same]
      rfl
    · omega

theorem inoderead_live (sb : Fs.Superblock) (desk : Desk) (f : FileIx) {i : Nat} (live : Fs.Live desk.volume ip i) (va len : BitVec 64) :
    ∃ ram : Int → Bytes.Memory → Vm.Ram, desk.inoderead sb f ip va len =
      (Fs.readi sb desk.volume ip (desk.room va (len.toNat % 2 ^ 32)) (fun _ => 0) (desk.filepool f).off (len.toNat % 2 ^ 32)).map fun result =>
        .returned (BitVec.ofInt 64 result.1) ({ desk with volume := result.2.2, ram := ram result.1 result.2.1 }.advance f result.1) := by
  refine ⟨fun r data => (outBytes desk.memory desk.root va.toNat
    ((List.range (if r < 0 then len.toNat % 2 ^ 32 else r.toNat)).map data) desk.ram).2, ?_⟩
  rw [Desk.inoderead, ivalid_live live]
  cases got : Fs.readi sb desk.volume ip (desk.room va (len.toNat % 2 ^ 32)) (fun _ => 0) (desk.filepool f).off (len.toNat % 2 ^ 32) with
  | error message =>
      simp only [bind, Except.bind, got]
      rfl
  | ok result =>
      simp only [bind, Except.bind, got]
      rfl

theorem inoderead_refuses (desk : Desk) (f : FileIx) {i : Nat} (sound : Fs.Sound sb desk.volume) (live : Fs.Live desk.volume ip i)
    (va len : BitVec 64) : Refuses sb desk (desk.inoderead sb f ip va len) ↔
      ∃ data volume, Fs.readi sb desk.volume ip (desk.room va (len.toNat % 2 ^ 32)) (fun _ => 0) (desk.filepool f).off (len.toNat % 2 ^ 32) =
        .ok (-1, data, volume) := by
  obtain ⟨ram, same⟩ := inoderead_live sb desk f live va len
  have short : len.toNat % 2 ^ 32 < 2 ^ 32 := Nat.mod_lt _ (by decide)
  rw [same]
  constructor
  · rintro ⟨after, done, -⟩
    cases got : Fs.readi sb desk.volume ip (desk.room va (len.toNat % 2 ^ 32)) (fun _ => 0) (desk.filepool f).off (len.toNat % 2 ^ 32) with
    | error message =>
        rw [got] at done
        contradiction
    | ok result =>
        obtain ⟨r, data, volume⟩ := result
        rw [got] at done
        simp only [Except.map, Except.ok.injEq, Outcome.returned.injEq] at done
        rcases Fs.readi_value got with value | ⟨count, value, bound⟩
        · exact ⟨data, volume, by rw [value]⟩
        · have equal := (ofInt_eq_minus_one (by omega) (by omega)).mp done.1
          omega
  · rintro ⟨data, volume, got⟩
    obtain ⟨-, grown⟩ := Fs.readi_grown sound live got
    refine ⟨{ desk with volume, ram := ram (-1) data }, ?_, rfl, rfl, rfl, rfl, grown.content⟩
    rw [got]
    rfl

end Inodes

section Console

variable {m : Vm.Memory} {root : Page} {b : Vm.Bytes} {str input : Nat → Byte} {ram : Vm.Ram}

/-- A write on the console returns its length. -/
theorem consoleWrite_returns (m : Vm.Memory) (root : Page) (b : Vm.Bytes) (va len : BitVec 64) (str : Nat → Byte) :
    ∃ shown array, Vm.consoleWrite m root b va len str = .ok (shown, array, len) := by
  have array : Vm.maxStrLen = 300 := rfl
  rcases Vm.string_cases m root b va.toNat (min len.toNat Vm.maxStrLen) with
    ⟨i, page, below, plain, mapped, null⟩ | ⟨i, below, plain, unmapped, -⟩ | ⟨plain, -, -⟩
  · have copied := Vm.copyinstrTo_null plain below mapped null str
    rw [if_neg (by omega)] at copied
    exact ⟨_, _, Vm.consoleWrite_copied copied (by rw [Vm.stringBytes_length, Int.toNat_natCast]) (by rw [Vm.stringBytes_length]; omega)⟩
  · have copied := Vm.copyinstrTo_unmapped plain below unmapped str
    rw [if_neg (by omega), ← List.nil_append (Vm.stringBytes m root b va i)] at copied
    exact ⟨_, _, Vm.consoleWrite_copied copied rfl (Nat.zero_le _)⟩
  · have copied := Vm.copyinstrTo_full plain str
    rw [if_neg (by omega), ← List.append_nil (Vm.stringBytes m root b va _)] at copied
    exact ⟨_, _, Vm.consoleWrite_copied copied (by rw [Vm.stringBytes_length, Int.toNat_natCast]) (by rw [Vm.stringBytes_length]; omega)⟩

/-- A read from the console that returns fits in the array. -/
theorem consoleRead_returns {after : Vm.Ram} (done : Vm.consoleRead m root va len input str ram = .ok (after, value)) :
    value = len ∧ len.toNat ≤ Vm.maxStrLen := by
  obtain ⟨array, got, rest⟩ := Machine.bind_ok.mp done
  obtain ⟨⟨copied, last⟩, -, rest⟩ := Machine.bind_ok.mp rest
  cases rest
  refine ⟨rfl, ?_⟩
  by_contra exceeds
  rw [Vm.getStr_outside (Nat.zero_le _) (by omega)] at got
  contradiction

end Console

section Descriptors

/-- A descriptor is outside of the table, right behind it, free or open. -/
theorem descriptor_cases (desk : Desk) (fd : Int) :
    ((fd < 0 ∨ fdBufferSize < fd) ∧ fd ≠ 16 ∧ desk.opened fd = none) ∨
      (fd = 16 ∧ ¬(fd < 0 ∨ fdBufferSize < fd) ∧ desk.word fd.toNat = none ∧ desk.opened fd = none) ∨
      (¬(fd < 0 ∨ fdBufferSize < fd) ∧ fd ≠ 16 ∧ desk.word fd.toNat = some none ∧ desk.opened fd = none) ∨
      (¬(fd < 0 ∨ fdBufferSize < fd) ∧ fd ≠ 16 ∧ ∃ f d, desk.files d = some f ∧ desk.word fd.toNat = some (some f) ∧ desk.opened fd = some f) := by
  have sixteen : (fdBufferSize : Int) = 16 := rfl
  by_cases outside : fd < 0 ∨ fdBufferSize < fd
  · refine Or.inl ⟨outside, by omega, ?_⟩
    rw [Desk.opened]
    split
    · rw [Desk.word, dif_neg (by omega)]
      rfl
    · rfl
  · right
    have positive : 0 ≤ fd := by omega
    by_cases behind : fd = 16
    · subst behind
      exact Or.inl ⟨rfl, outside, rfl, rfl⟩
    · right
      have inside : fd.toNat < fdBufferSize := by omega
      have word : desk.word fd.toNat = some (desk.files ⟨fd.toNat, inside⟩) := dif_pos inside
      have opened : desk.opened fd = desk.files ⟨fd.toNat, inside⟩ := by
        rw [Desk.opened, if_pos positive, word]
        rfl
      rw [word, opened]
      cases held : desk.files ⟨fd.toNat, inside⟩ with
      | none => exact Or.inl ⟨outside, behind, rfl, rfl⟩
      | some f => exact Or.inr ⟨outside, behind, f, _, held, rfl, rfl⟩

theorem pipewriteLoop_inside : Desk.pipewriteLoop page va n rounds desk w ≠ .ok .outside := by
  induction rounds generalizing desk w with
  | zero =>
      intro done
      cases done
  | succ rounds ih =>
      intro done
      rw [Desk.pipewriteLoop] at done
      split at done
      · cases done
      · cases done
      · dsimp only at done
        split at done
        · cases done
        · exact ih done

theorem pipereadLoop_inside {size : Option Nat} : Desk.pipereadLoop page va n rounds desk r size ≠ .ok .outside := by
  induction rounds generalizing desk r size with
  | zero =>
      intro done
      cases done
  | succ rounds ih =>
      intro done
      rw [Desk.pipereadLoop] at done
      split at done
      · cases done
      · cases done
      · dsimp only at done
        split at done
        · cases done
        · exact ih done

/-- A transfer on an open file uses no other file. -/
theorem piperead_inside : desk.piperead page va len ≠ .ok .outside := by
  intro done
  rw [Desk.piperead] at done
  split at done
  · cases done
  · split at done
    · cases done
    · cases done
    · exact pipereadLoop_inside done

theorem pipewrite_inside : desk.pipewrite page va len ≠ .ok .outside := by
  intro done
  rw [Desk.pipewrite] at done
  split at done
  · cases done
  · exact pipewriteLoop_inside done

theorem inodewrite_inside {i : Nat} (live : Fs.Live desk.volume ip i) : desk.inodewrite sb f ip va len ≠ .ok .outside := by
  rw [inodewrite_live sb desk f live]
  intro done
  generalize Fs.writei sb desk.volume ip _ _ _ _ = result at done
  cases result with
  | error message => cases done
  | ok result => cases done

theorem inoderead_inside {i : Nat} (live : Fs.Live desk.volume ip i) : desk.inoderead sb f ip va len ≠ .ok .outside := by
  obtain ⟨ram, same⟩ := inoderead_live sb desk f live va len
  rw [same]
  intro done
  generalize Fs.readi sb desk.volume ip _ _ _ _ = result at done
  cases result with
  | error message => cases done
  | ok result => cases done

/-- A write on an open file stays inside the descriptors, and it is refused when it fails whatever the mode is. -/
theorem sysWrite_open {d : Fd} (steady : Steady sb desk) (low : ¬(fd < 0 ∨ fdBufferSize < fd)) (held : desk.files d = some f)
    (word : desk.word fd.toNat = some (some f)) (va len : BitVec 64) :
    desk.sysWrite sb fd va len ≠ .ok .outside ∧ (Refuses sb desk (desk.sysWrite sb fd va len) ↔ WriteFails desk f len) := by
  rw [Desk.sysWrite, if_neg low, word, WriteFails]
  dsimp only
  cases type : (desk.filepool f).type with
  | none => exact ⟨by simp, by simp [Refuses]⟩
  | stdio =>
      obtain ⟨shown, array, wrote⟩ := consoleWrite_returns desk.memory desk.root desk.ram.byte va len desk.stack
      rw [wrote]
      refine ⟨fun done => (by cases done), ?_⟩
      constructor
      · rintro ⟨after, done, -⟩
        cases done
        rfl
      · rintro rfl
        exact ⟨_, rfl, rfl, rfl, rfl, rfl, fun _ => rfl⟩
  | pipe page => exact ⟨pipewrite_inside, pipewrite_refuses sb desk page va len⟩
  | inode ip =>
      obtain ⟨i, live⟩ := steady.live d f ip held type
      exact ⟨inodewrite_inside live, inodewrite_refuses desk f steady.sound live va len⟩

theorem sysRead_open {d : Fd} (steady : Steady sb desk) (low : ¬(fd < 0 ∨ fdBufferSize < fd)) (held : desk.files d = some f)
    (word : desk.word fd.toNat = some (some f)) (va len : BitVec 64) :
    desk.sysRead sb fd va len ≠ .ok .outside ∧ (Refuses sb desk (desk.sysRead sb fd va len) ↔ ReadFails sb desk f va len) := by
  rw [Desk.sysRead, if_neg low, word, ReadFails]
  dsimp only
  cases type : (desk.filepool f).type with
  | none => exact ⟨by simp, by simp [Refuses]⟩
  | stdio =>
      cases got : Vm.consoleRead desk.memory desk.root va len desk.typed desk.stack desk.ram with
      | error message => exact ⟨fun done => (by cases done), by simp [Refuses, bind, Except.bind]⟩
      | ok result =>
          obtain ⟨ram, value⟩ := result
          obtain ⟨rfl, short⟩ := consoleRead_returns got
          refine ⟨fun done => (by cases done), fun refused => ?_, False.elim⟩
          obtain ⟨after, done, -⟩ := refused
          cases done
          exact absurd short (by decide)
  | pipe page => exact ⟨piperead_inside, piperead_refuses sb desk page va len⟩
  | inode ip =>
      obtain ⟨i, live⟩ := steady.live d f ip held type
      refine ⟨inoderead_inside live, ?_⟩
      rw [inoderead_refuses desk f steady.sound live va len, Fs.readi_refused_iff _ _ _ steady.sound live]
      constructor
      · rintro ⟨inside, wraps, stop, ends, short, small, enough⟩
        exact ⟨inside, wraps, stop, ends, short, small, i, live, enough⟩
      · rintro ⟨inside, wraps, stop, ends, short, small, j, other, enough⟩
        rw [live.2.2.symm.trans other.2.2] at *
        exact ⟨inside, wraps, stop, ends, short, small, enough⟩

/-- The call behind the last descriptor takes a word that is no file. -/
theorem behind_outside (call : DescriptorCall) (behind : call.fd = 16) (fstat : ∀ fd stVa, call ≠ .fstat fd stVa) :
    call.run sb desk = .ok .outside := by
  cases call with
  | read fd va len =>
      cases behind
      rfl
  | write fd va len =>
      cases behind
      rfl
  | close fd =>
      cases behind
      rfl
  | fstat fd stVa => exact absurd rfl (fstat fd stVa)

theorem sysClose_open (low : ¬(fd < 0 ∨ fdBufferSize < fd)) (word : desk.word fd.toNat = some (some f)) :
    desk.sysClose sb fd ≠ .ok .outside := by
  rw [Desk.sysClose, if_neg low, word]
  dsimp only
  cases desk.fileclose sb f with
  | error message => exact fun done => by cases done
  | ok after => exact fun done => by cases done

theorem sysFstat_open {d : Fd} {stVa : BitVec 64} (steady : Steady sb desk) (low : ¬(fd < 0 ∨ fdBufferSize ≤ fd)) (held : desk.files d = some f)
    (word : desk.word fd.toNat = some (some f)) : desk.sysFstat sb fd stVa ≠ .ok .outside := by
  rw [Desk.sysFstat, if_neg low, word]
  dsimp only
  cases type : (desk.filepool f).type with
  | inode ip =>
      obtain ⟨i, live⟩ := steady.live d f ip held type
      dsimp only
      rw [ivalid_live live]
      exact fun done => by cases done
  | none => exact fun done => by cases done
  | stdio => exact fun done => by cases done
  | pipe page => exact fun done => by cases done

/-- A descriptor that is not open is refused without any effect, except by the calls behind the last one. -/
theorem run_unopened {call : DescriptorCall} (free : (call.fd < 0 ∨ fdBufferSize < call.fd) ∨
    ¬(call.fd < 0 ∨ fdBufferSize < call.fd) ∧ call.fd ≠ 16 ∧ desk.word call.fd.toNat = some none) :
    call.run sb desk = .ok (.returned (-1) desk) := by
  have sixteen : (fdBufferSize : Int) = 16 := rfl
  cases call with
  | read fd va len =>
      simp only [DescriptorCall.fd] at free
      show desk.sysRead sb fd va len = _
      rw [Desk.sysRead]
      rcases free with far | ⟨low, -, word⟩
      · rw [if_pos far]
      · rw [if_neg low, word]
  | write fd va len =>
      simp only [DescriptorCall.fd] at free
      show desk.sysWrite sb fd va len = _
      rw [Desk.sysWrite]
      rcases free with far | ⟨low, -, word⟩
      · rw [if_pos far]
      · rw [if_neg low, word]
  | close fd =>
      simp only [DescriptorCall.fd] at free
      show desk.sysClose sb fd = _
      rw [Desk.sysClose]
      rcases free with far | ⟨low, -, word⟩
      · rw [if_pos far]
      · rw [if_neg low, word]
  | fstat fd stVa =>
      simp only [DescriptorCall.fd] at free
      show desk.sysFstat sb fd stVa = _
      rw [Desk.sysFstat]
      rcases free with far | ⟨low, apart, word⟩
      · rw [if_pos (by omega)]
      · rw [if_neg (by omega), word]

/-- A call that is refused for its descriptor respects the table. -/
theorem respects_unopened {call : DescriptorCall} (run : call.run sb desk = .ok (.returned (-1) desk)) (none : desk.opened call.fd = none) :
    Respects sb desk call := by
  constructor
  · rw [run]
    intro done
    cases done
  · exact fun _ => run
  · rintro fd va len f rfl opened
    rw [DescriptorCall.fd, opened] at none
    contradiction
  · rintro fd va len f rfl opened
    rw [DescriptorCall.fd, opened] at none
    contradiction

/-- The calls on descriptors stay inside the table and respect the mode of their file if and only if the descriptor is not the one behind the table, and every transfer that the mode forbids fails for a reason of its own. -/
theorem descriptor_calls_iff (sb : Fs.Superblock) (desk : Desk) (steady : Steady sb desk) (call : DescriptorCall) :
    Respects sb desk call ↔ Meets sb desk call := by
  have sixteen : (fdBufferSize : Int) = 16 := rfl
  rcases descriptor_cases desk call.fd with ⟨far, apart, none⟩ | ⟨behind, low, word, none⟩ | ⟨low, apart, word, none⟩ |
    ⟨low, apart, f, d, held, word, opened⟩
  · refine ⟨fun _ => ?_, fun _ => respects_unopened (run_unopened (Or.inl far)) none⟩
    cases call with
    | read | write => exact ⟨apart, fun f opened => by rw [DescriptorCall.fd] at none; rw [none] at opened; contradiction⟩
    | close => exact apart
    | fstat => exact trivial
  · cases call with
    | read | write | close =>
        constructor
        · exact fun respects => absurd (behind_outside _ behind fun _ _ => nofun) respects.inside
        · intro meets
          exfalso
          first
            | exact meets behind
            | exact meets.1 behind
    | fstat fd stVa =>
        refine ⟨fun _ => trivial, fun _ => respects_unopened ?_ none⟩
        show desk.sysFstat sb fd stVa = _
        have last : fd = 16 := behind
        rw [Desk.sysFstat, if_pos (by omega)]
  · refine ⟨fun _ => ?_, fun _ => respects_unopened (run_unopened (Or.inr ⟨low, apart, word⟩)) none⟩
    cases call with
    | read | write => exact ⟨apart, fun f opened => by rw [DescriptorCall.fd] at none; rw [none] at opened; contradiction⟩
    | close => exact apart
    | fstat => exact trivial
  · have taken (g : FileIx) (same : desk.opened call.fd = some g) : g = f := Option.some.inj (same.symm.trans opened)
    cases call with
    | read fd va len =>
        obtain ⟨inside, refused⟩ := sysRead_open steady low held word va len
        constructor
        · intro respects
          refine ⟨apart, fun g same mode => ?_⟩
          rw [taken g same] at mode ⊢
          exact refused.mp (respects.unreadable fd va len f rfl opened mode)
        · intro meets
          refine ⟨inside, fun none => ?_, fun _ _ _ _ other => ?_, ?_⟩
          · rw [opened] at none
            contradiction
          · contradiction
          · rintro _ _ _ g ⟨⟩ same mode
            rw [taken g same] at mode
            exact refused.mpr (meets.2 f opened mode)
    | write fd va len =>
        obtain ⟨inside, refused⟩ := sysWrite_open steady low held word va len
        constructor
        · intro respects
          refine ⟨apart, fun g same mode => ?_⟩
          rw [taken g same] at mode ⊢
          exact refused.mp (respects.unwritable fd va len f rfl opened mode)
        · intro meets
          refine ⟨inside, fun none => ?_, ?_, fun _ _ _ _ other => ?_⟩
          · rw [opened] at none
            contradiction
          · rintro _ _ _ g ⟨⟩ same mode
            rw [taken g same] at mode
            exact refused.mpr (meets.2 f opened mode)
          · contradiction
    | close fd =>
        refine ⟨fun _ => apart, fun _ => ⟨sysClose_open low word, fun none => ?_, nofun, nofun⟩⟩
        rw [opened] at none
        contradiction
    | fstat fd stVa =>
        have before : fd ≠ 16 := apart
        have low' : ¬(fd < 0 ∨ fdBufferSize < fd) := low
        refine ⟨fun _ => trivial, fun _ => ⟨sysFstat_open steady (by omega) held word, fun none => ?_, nofun, nofun⟩⟩
        rw [opened] at none
        contradiction

end Descriptors

/-- The first open file. -/
def firstFile : FileIx := ⟨0, by decide⟩

/-- The descriptor 3 is an inode that was opened for reading, and every byte of the user is an `A`. -/
def readOnlyDesk (memory : Vm.Memory) (root : Page) : Desk where
  files := fun fd => if fd = 3 then some firstFile else none
  filepool := fun f => if f = firstFile then { type := .inode 0, ref := 1, readable := true, writable := false, off := 0 } else closedFile
  pipes := fun _ => none
  volume := Fs.smallState
  memory := memory
  root := root
  ram := { byte := fun _ _ => 65, log := [] }
  stack := fun _ => 0
  typed := fun _ => 0
  shown := []

theorem readOnly_steady (memory : Vm.Memory) (root : Page) : Steady Fs.smallVolume (readOnlyDesk memory root) := by
  refine ⟨Fs.small_sound, fun fd f ip held type => ⟨1, ?_⟩⟩
  have file : f = firstFile := by
    have chosen : (if fd = 3 then some firstFile else none) = some f := held
    split at chosen
    · exact (Option.some.inj chosen).symm
    · contradiction
  subst file
  have entry : FileType.inode 0 = .inode ip := type
  cases entry
  exact Fs.small_live

theorem descriptor_calls_iff_readOnly :
    Respects Fs.smallVolume (readOnlyDesk { free := [], denials := [], entry := fun _ _ => Vm.zeroPte } 0) (.close 16) ↔
      Meets Fs.smallVolume (readOnlyDesk { free := [], denials := [], entry := fun _ _ => Vm.zeroPte } 0) (.close 16) :=
  descriptor_calls_iff _ _ (readOnly_steady _ _) _

/-- A byte is written through a descriptor that was opened for reading only, and `close(16)` takes the word behind the descriptors for a file. -/
theorem read_only_written : ∃ k trace root,
    Machine.Reaches (Vm.step (Vm.smallLayout 12)) (fun k _ action => Vm.fed k action = true) (· = Vm.bootKernel (Vm.smallLayout 12)) k trace ∧
      (k.pool 0).pagetable = some root ∧ Steady Fs.smallVolume (readOnlyDesk k.memory root) ∧
      (readOnlyDesk k.memory root).opened 3 = some firstFile ∧
      (∃ after, (readOnlyDesk k.memory root).sysWrite Fs.smallVolume 3 0x1000#64 1 = .ok (.returned 1 after) ∧
        Fs.content Fs.smallVolume Fs.smallState 1 0 = 0 ∧ Fs.content Fs.smallVolume after.volume 1 0 = 65) ∧
      ¬Respects Fs.smallVolume (readOnlyDesk k.memory root) (.write 3 0x1000#64 1) ∧
      ¬Respects Fs.smallVolume (readOnlyDesk k.memory root) (.close 16) := by
  obtain ⟨k, trace, root, page, reached, rooted, -, mapped⟩ := Vm.loaded_page
  have steady := readOnly_steady k.memory root
  have word : (readOnlyDesk k.memory root).word (3 : Int).toNat = some (some firstFile) := rfl
  have low : ¬((3 : Int) < 0 ∨ (fdBufferSize : Int) < 3) := by decide
  have refused := (sysWrite_open steady low (d := 3) rfl word 0x1000#64 1).2
  have room : (readOnlyDesk k.memory root).room 0x1000#64 1 = none := by
    show (List.range 1).find? _ = none
    rw [List.find?_eq_none]
    intro i member
    have first : i = 0 := by
      rw [List.mem_range] at member
      omega
    subst first
    show ¬(userTarget k.memory root 0x1000).isNone = true
    rw [mapped]
    exact Bool.false_ne_true
  have source : (readOnlyDesk k.memory root).source 0x1000#64 0 = 65 := by
    have target : userTarget (readOnlyDesk k.memory root).memory (readOnlyDesk k.memory root).root ((0x1000#64).toNat + 0) = some page := mapped
    simp only [Desk.source, target]
    rfl
  have wrote := Fs.writei_refines Fs.smallVolume Fs.smallState 0 1 ((readOnlyDesk k.memory root).source 0x1000#64) none 0 1 Fs.small_sound
    (fun _ => rfl) Fs.small_live (by decide) (by decide) (fun _ absent => absurd absent (by simp))
    (Fs.small_enough (Nat.le_trans (Fs.card_reach (by decide)) (by decide)))
  obtain ⟨volume, done, -⟩ := wrote
  refine ⟨k, trace, root, reached, rooted, steady, rfl, ⟨(({ readOnlyDesk k.memory root with volume } : Desk).advance firstFile 1), ?_, ?_, ?_⟩, ?_, ?_⟩
  · rw [Desk.sysWrite, if_neg low, word]
    show (readOnlyDesk k.memory root).inodewrite Fs.smallVolume firstFile 0 0x1000#64 1 = _
    rw [inodewrite_live Fs.smallVolume _ firstFile Fs.small_live]
    show (Fs.writei Fs.smallVolume Fs.smallState 0 _ ((readOnlyDesk k.memory root).room 0x1000#64 1) 0 1).map _ = _
    rw [room, done]
    rfl
  · decide +kernel
  · show Fs.content Fs.smallVolume volume 1 0 = 65
    rcases Fs.writei_saved Fs.small_sound Fs.small_live done with ⟨value, -⟩ | ⟨-, count, mid, -, -, -, saved, writes⟩
    · contradiction
    · obtain ⟨-, bytes, -⟩ := writes fun _ absent => absurd absent (by simp)
      rw [saved.content 1, bytes, Bytes.splice_inside _ _ (Nat.le_refl 0) (by decide)]
      exact source
  · intro respects
    have fails := refused.mp (respects.unwritable 3 0x1000#64 1 firstFile rfl rfl rfl)
    have range : (0 : Nat) > 2 ∨ (0 + (1 : BitVec 64).toNat % 2 ^ 32) % 2 ^ 32 < 0 ∨
        (0 + (1 : BitVec 64).toNat % 2 ^ 32) % 2 ^ 32 > Fs.maxfile * Fs.bsize := fails
    exact absurd range (by decide)
  · intro respects
    exact respects.inside rfl

end BtbuOs.Files
