import BtbuOs.Files.Descriptors
import BtbuOs.Fs.Creation

namespace BtbuOs.Files

open Bytes Machine
open Fs (Superblock Listed Leaves Live Searchable Linkable Admits Allocatable Sound entries key typeOf rooted)

/-- The open mode `O_TRUNC` of `fcntl.h`. -/
def oTrunc : Nat := 0x400

/-- The mode has the bit of a flag. -/
def asks (omode : BitVec 64) (flag : Nat) : Bool := omode &&& BitVec.ofNat 64 flag ≠ 0

/-- The open file that `fileopen` makes of an inode. -/
def inodeFile (ip : InodeIx) (omode : BitVec 64) (ref : Int) : File where
  type := .inode ip
  ref := ref
  readable := !asks omode oWronly
  writable := asks omode oWronly || asks omode oRdwr
  off := 0

namespace Desk

/-- Add a new system-level table entry for the open file table. -/
@[irreducible] def filealloc (desk : Desk) : Option (FileIx × Desk) :=
  match (List.finRange filepoolSize).find? fun f => (desk.filepool f).ref = 0 with
  | none => none
  | some f => some (f, desk.setFile f { desk.filepool f with ref := 1 })

def fdalloc (desk : Desk) (f : FileIx) : Option (Fd × Desk) :=
  match (List.finRange fdBufferSize).find? fun fd => desk.files fd = none with
  | none => none
  | some fd => some (fd, { desk with files := Function.update desk.files fd (some f) })

variable (sb : Superblock)

/-- Assign a system-level table entry to an opened inode and create a descriptor that points to it. -/
def openInode (desk : Desk) (ip : InodeIx) (omode : BitVec 64) : Except String (Int × Desk) :=
  if (desk.volume.itable ip).type ≠ Fs.tFile then .error "unsupported file inode type\n"
  else
    match desk.filealloc with
    | none => do
        let volume ← Fs.iput sb desk.volume ip
        .ok (-1, { desk with volume })
    | some (f, desk) =>
        match desk.fdalloc f with
        | none => do
            let desk ← desk.fileclose sb f
            let volume ← Fs.iput sb desk.volume ip
            .ok (-1, { desk with volume })
        | some (fd, desk) => do
            let desk := desk.setFile f (inodeFile ip omode (desk.filepool f).ref)
            if asks omode oTrunc ∧ (desk.volume.itable ip).type = Fs.tFile then
              let volume ← Fs.itrunc sb desk.volume ip
              .ok (fd.val, { desk with volume })
            else .ok (fd.val, desk)

/-- A path without an inode is refused. -/
def openFound (desk : Desk) (omode : BitVec 64) : Option InodeIx × Fs.State → Except String (Int × Desk)
  | (none, volume) => .ok (-1, { desk with volume })
  | (some ip, volume) => openInode sb { desk with volume } ip omode

/-- A process creates or opens a file according to its path, and gets the descriptor of the created or opened file. -/
def fileopen (desk : Desk) (path : Bytes.Memory) (omode : BitVec 64) : Except String (Int × Desk) :=
  (if asks omode oCreate then Fs.create sb desk.volume path Fs.tFile else Fs.existing sb desk.volume path) >>= openFound sb desk omode

end Desk

/-- The descriptor was free and refers to the regular file under the path, with the access of the mode. -/
structure Attached (sb : Superblock) (desk after : Desk) (dp : InodeIx) (path : Bytes.Memory) (omode : BitVec 64) (fd : Fd) : Prop where
  free : desk.files fd = none
  bound : ∃ f ip i, (desk.filepool f).ref = 0 ∧ after.files = Function.update desk.files fd (some f) ∧
    after.filepool = Function.update desk.filepool f (inodeFile ip omode 1) ∧ (entries sb after.volume dp Fs.rootino).find (key path) = some i ∧
      Live after.volume ip i ∧ (after.volume.itable ip).type = Fs.tFile
  root : Live after.volume dp Fs.rootino

/-- The descriptors, the references to files and inodes and the root directory are as they were. -/
structure Declined (sb : Superblock) (desk after : Desk) (dp : InodeIx) : Prop where
  files : after.files = desk.files
  filepool : ∀ f, (after.filepool f).ref = (desk.filepool f).ref
  itable : Fs.refs after.volume = Fs.refs desk.volume
  content : Fs.content sb after.volume Fs.rootino = Fs.content sb desk.volume Fs.rootino
  size : (after.volume.itable dp).size = (desk.volume.itable dp).size

/-- The call returns a descriptor of the file, or it returns minus one and nothing has changed. -/
def Opens (sb : Superblock) (desk : Desk) (dp : InodeIx) (path : Bytes.Memory) (omode : BitVec 64) : Prop :=
  ∃ value after, desk.fileopen sb path omode = .ok (value, after) ∧
    ((∃ fd : Fd, value = fd.val ∧ Attached sb desk after dp path omode fd) ∨ value = -1 ∧ Declined sb desk after dp)

/-- The root directory and the inodes are in order, and an unused open file has no type. -/
structure Ready (sb : Superblock) (desk : Desk) (dp : InodeIx) : Prop where
  tidy : Fs.Tidy sb desk.volume dp
  idle : ∀ f, (desk.filepool f).ref = 0 → (desk.filepool f).type = .none

/-- The file pool has an unused open file. -/
def Desk.Pooled (desk : Desk) : Prop := ∃ f, (desk.filepool f).ref = 0

/-- The process has a free descriptor. -/
def Desk.Spare (desk : Desk) : Prop := ∃ fd, desk.files fd = none

/-- The condition on the state under which `fileopen` keeps its promise: each thing that the call takes one after the other is there. Only the file pool may be full, when the path has an entry and the mode has `O_CREATE`. -/
def Openable (sb : Superblock) (desk : Desk) (dp : InodeIx) (path : Bytes.Memory) (omode : BitVec 64) : Prop :=
  Searchable sb desk.volume dp Fs.rootino path ∧
    match (entries sb desk.volume dp Fs.rootino).find (key path) with
    | some i => Admits desk.volume i ∧
        if asks omode oCreate then typeOf sb desk.volume i = Fs.tFile → desk.Pooled → desk.Spare
        else typeOf sb desk.volume i = Fs.tFile ∧ desk.Pooled ∧ desk.Spare
    | none => asks omode oCreate = true ∧ Allocatable sb desk.volume ∧ Linkable sb desk.volume dp Fs.rootino ∧ desk.Pooled ∧ desk.Spare

variable {sb : Superblock} {desk after : Desk} {dp ip : InodeIx} {i : Nat} {path : Bytes.Memory} {omode : BitVec 64} {f : FileIx}

theorem filealloc_outcome (desk : Desk) : (¬desk.Pooled ∧ desk.filealloc = none) ∨
    desk.Pooled ∧ ∃ f, (desk.filepool f).ref = 0 ∧ desk.filealloc = some (f, desk.setFile f { desk.filepool f with ref := 1 }) := by
  unfold Desk.filealloc
  split
  · rename_i search
    refine Or.inl ⟨?_, rfl⟩
    rintro ⟨f, unused⟩
    have busy := List.find?_eq_none.mp search f (List.mem_finRange f)
    rw [decide_eq_true_eq] at busy
    exact busy unused
  · rename_i f search
    have unused := List.find?_some search
    rw [decide_eq_true_eq] at unused
    exact Or.inr ⟨⟨f, unused⟩, f, unused, rfl⟩

theorem fdalloc_outcome (desk : Desk) (f : FileIx) : (¬desk.Spare ∧ desk.fdalloc f = none) ∨
    desk.Spare ∧ ∃ fd, desk.files fd = none ∧ desk.fdalloc f = some (fd, { desk with files := Function.update desk.files fd (some f) }) := by
  unfold Desk.fdalloc
  split
  · rename_i search
    refine Or.inl ⟨?_, rfl⟩
    rintro ⟨fd, free⟩
    have busy := List.find?_eq_none.mp search fd (List.mem_finRange fd)
    rw [decide_eq_true_eq] at busy
    exact busy free
  · rename_i fd search
    have free := List.find?_some search
    rw [decide_eq_true_eq] at free
    exact Or.inr ⟨⟨fd, free⟩, fd, free, rfl⟩

/-- The close of an open file that has no type yet ends in a panic. -/
theorem Desk.fileclose_untyped (sb : Superblock) (last : (desk.filepool f).ref = 1) (untyped : (desk.filepool f).type = .none) :
    desk.fileclose sb f = .error "unknown file type 0\n" := by
  simp only [Desk.fileclose, last, untyped]
  rfl

/-- What `openInode` makes of a regular file: without an open file it gives the inode back, without a descriptor it panics, and otherwise the descriptor refers to the file. -/
theorem openInode_outcome (desk : Desk) (omode : BitVec 64) (idle : ∀ f, (desk.filepool f).ref = 0 → (desk.filepool f).type = .none)
    (listed : Listed sb desk.volume dp Fs.rootino) (live : Live desk.volume ip i) (file : (desk.volume.itable ip).type = Fs.tFile) :
    (¬desk.Pooled ∧ ∃ volume, desk.openInode sb ip omode = .ok (-1, { desk with volume }) ∧ Leaves sb desk.volume volume dp ∧
        Fs.refs volume = Function.update (Fs.refs desk.volume) ip (Fs.refs desk.volume ip - 1)) ∨
      (desk.Pooled ∧ ¬desk.Spare ∧ ∃ message, desk.openInode sb ip omode = .error message) ∨
      desk.Pooled ∧ desk.Spare ∧ ∃ (fd : Fd) (f : FileIx) (after : Desk), desk.openInode sb ip omode = .ok (fd.val, after) ∧ desk.files fd = none ∧
        (desk.filepool f).ref = 0 ∧ after.files = Function.update desk.files fd (some f) ∧
        after.filepool = Function.update desk.filepool f (inodeFile ip omode 1) ∧ Fs.Keeps sb desk.volume after.volume dp Fs.rootino ∧
        Live after.volume ip i ∧ (after.volume.itable ip).type = Fs.tFile := by
  have apart := listed.apart file
  rw [Desk.openInode, if_neg (not_not.mpr file)]
  rcases filealloc_outcome desk with ⟨full, none⟩ | ⟨pooled, f, unused, some⟩
  · obtain ⟨volume, done, leaves, counts⟩ := Fs.iput_leaves listed.sound listed.live live.1 fun same => absurd same apart
    rw [none]
    dsimp only
    rw [done]
    exact Or.inl ⟨full, volume, rfl, leaves, counts⟩
  · right
    rw [some]
    dsimp only
    have own : ((desk.setFile f { desk.filepool f with ref := 1 }).filepool f) = { desk.filepool f with ref := 1 } := Function.update_self ..
    rcases fdalloc_outcome (desk.setFile f { desk.filepool f with ref := 1 }) f with ⟨full, none⟩ | ⟨spare, fd, free, some⟩
    · have stops := Desk.fileclose_untyped sb (by rw [own]) (by rw [own]; exact idle f unused)
      rw [none]
      dsimp only
      rw [stops]
      exact Or.inl ⟨pooled, full, _, rfl⟩
    · right
      refine ⟨pooled, spare, fd, f, ?_⟩
      rw [some]
      dsimp only
      have pool : Function.update (Function.update desk.filepool f { desk.filepool f with ref := 1 }) f (inodeFile ip omode 1) =
          Function.update desk.filepool f (inodeFile ip omode 1) := Function.update_idem ..
      have number : (Function.update desk.filepool f { desk.filepool f with ref := 1 } f).ref = 1 := by rw [Function.update_self]
      simp only [Desk.setFile, number, pool]
      split
      · obtain ⟨volume, done, leaves, still, type⟩ := Fs.itrunc_leaves listed.sound listed.live live apart.symm
        rw [done]
        exact ⟨_, rfl, free, unused, rfl, rfl, leaves.keeps listed, still, type.trans file⟩
      · exact ⟨_, rfl, free, unused, rfl, rfl, ⟨listed, rfl, rfl⟩, live, file⟩

theorem opens_error {message : String} (failed : desk.fileopen sb path omode = .error message) : ¬Opens sb desk dp path omode := by
  rintro ⟨value, after, done, -⟩
  rw [failed] at done
  contradiction

theorem opens_minus (done : desk.fileopen sb path omode = .ok (-1, after)) : Opens sb desk dp path omode ↔ Declined sb desk after dp := by
  constructor
  · rintro ⟨value, last, again, either⟩
    rw [done] at again
    cases again
    rcases either with ⟨fd, same, -⟩ | ⟨-, declined⟩
    · exact absurd same (by omega)
    · exact declined
  · exact fun declined => ⟨-1, after, done, Or.inr ⟨rfl, declined⟩⟩

/-- Behind the inode the call keeps its promise when it has an open file and a descriptor, or when nothing else has changed and the file pool is full. -/
theorem openInode_opens {volume : Fs.State} (idle : ∀ f, (desk.filepool f).ref = 0 → (desk.filepool f).type = .none)
    (done : desk.fileopen sb path omode = { desk with volume }.openInode sb ip omode) (listed : Listed sb volume dp Fs.rootino)
    (found : (entries sb volume dp Fs.rootino).find (key path) = some i) (live : Live volume ip i) (file : (volume.itable ip).type = Fs.tFile)
    {same : Prop} (restored : ∀ last, Leaves sb volume last dp → Fs.refs last = Function.update (Fs.refs volume) ip (Fs.refs volume ip - 1) →
      (Declined sb desk { desk with volume := last } dp ↔ same)) :
    Opens sb desk dp path omode ↔ (same ∧ ¬desk.Pooled) ∨ desk.Pooled ∧ desk.Spare := by
  rcases openInode_outcome { desk with volume } omode idle listed live file with ⟨full, last, opened, leaves, counts⟩ |
    ⟨pooled, full, message, failed⟩ | ⟨pooled, spare, fd, f, after, opened, free, unused, files, filepool, keeps, held, regular⟩
  · have none : ¬desk.Pooled := full
    rw [opens_minus (done.trans opened), restored last leaves counts]
    simp only [none, not_false_eq_true, and_true, false_and, or_false]
  · have some : desk.Pooled := pooled
    have none : ¬desk.Spare := full
    simp only [opens_error (done.trans failed), some, none, not_true_eq_false, and_false, or_false]
  · refine iff_of_true ⟨fd.val, after, done.trans opened, Or.inl ⟨fd, rfl, free, ⟨f, ip, i, unused, files, filepool, ?_, held, regular⟩, keeps.listed.live⟩⟩
      (Or.inr ⟨pooled, spare⟩)
    rw [keeps.entries]
    exact found

/-- The references to the root directory are one more than before. -/
theorem rooted_ne (volume : Fs.State) (dp : InodeIx) : Fs.refs (rooted volume dp) ≠ Fs.refs volume := by
  intro same
  have own := congrFun same dp
  rw [Fs.refs_rooted, Function.update_self] at own
  omega

theorem update_returned (g : InodeIx → Int) (ip : InodeIx) :
    Function.update (Function.update g ip (g ip + 1)) ip (Function.update g ip (g ip + 1) ip - 1) = g := by
  rw [Function.update_self, Function.update_idem, Int.add_sub_cancel, Function.update_eq_self]

/-- With `O_CREATE` a path that has an entry is opened, or it is refused when the inode is no file or the file pool is full. -/
theorem create_opens (ready : Ready sb desk dp) (mode : asks omode oCreate = true) : Opens sb desk dp path omode ↔ Openable sb desk dp path omode := by
  have way := ready.tidy.create path
  generalize made : Fs.create sb desk.volume path Fs.tFile = result at way
  have done : desk.fileopen sb path omode = result >>= Desk.openFound sb desk omode := by rw [Desk.fileopen, if_pos mode, made]
  rw [Openable]
  cases way with
  | starved hungry => exact iff_of_false (opens_error done) fun openable => hungry openable.1
  | crowded found full =>
      rw [found]
      exact iff_of_false (opens_error done) fun openable => full openable.2.1
  | foreign searchable found admits file keeps counts =>
      rw [found]
      refine iff_of_true ((opens_minus done).mpr ⟨rfl, fun _ => rfl, counts, keeps.content, keeps.size⟩) ⟨searchable, admits, ?_⟩
      rw [if_pos mode]
      exact fun same => absurd same file
  | @found i ip volume searchable found admits file keeps counts live type =>
      rw [found]
      have restored (last : Fs.State) (leaves : Leaves sb volume last dp) (returned : Fs.refs last = Function.update (Fs.refs volume) ip (Fs.refs volume ip - 1)) :
          Declined sb desk { desk with volume := last } dp ↔ True := by
        have kept := keeps.trans (leaves.keeps keeps.listed)
        refine iff_true_intro ⟨rfl, fun _ => rfl, ?_, kept.content, kept.size⟩
        rw [returned, counts, update_returned]
      rw [openInode_opens ready.idle done keeps.listed (by rw [keeps.entries]; exact found) live type restored]
      simp only [searchable, admits, mode, file, true_and, if_true, true_implies]
      tauto
  | full absent missing =>
      rw [absent]
      exact iff_of_false (opens_error done) fun openable => missing ⟨openable.2.2.1, openable.2.2.2.1⟩
  | @made i ip volume searchable absent allocatable linkable listed found live type =>
      rw [absent]
      have restored (last : Fs.State) (leaves : Leaves sb volume last dp) (_ : Fs.refs last = Function.update (Fs.refs volume) ip (Fs.refs volume ip - 1)) :
          Declined sb desk { desk with volume := last } dp ↔ False := by
        have kept := leaves.keeps listed
        refine iff_false_intro fun declined => ?_
        have same : entries sb last dp Fs.rootino = entries sb desk.volume dp Fs.rootino := by
          rw [entries, entries, declined.content, declined.size]
        rw [← kept.entries, same, absent] at found
        contradiction
      rw [openInode_opens ready.idle done listed found live type restored]
      simp only [searchable, mode, allocatable, linkable, true_and, false_and, false_or]

/-- Without `O_CREATE` a path that is not opened keeps a reference to the root directory. -/
theorem existing_opens (ready : Ready sb desk dp) (mode : ¬asks omode oCreate = true) : Opens sb desk dp path omode ↔ Openable sb desk dp path omode := by
  have way := ready.tidy.existing path
  generalize taken : Fs.existing sb desk.volume path = result at way
  have done : desk.fileopen sb path omode = result >>= Desk.openFound sb desk omode := by rw [Desk.fileopen, if_neg mode, taken]
  rw [Openable]
  cases way with
  | starved hungry => exact iff_of_false (opens_error done) fun openable => hungry openable.1
  | crowded found full =>
      rw [found]
      exact iff_of_false (opens_error done) fun openable => full openable.2.1
  | absent absent counts =>
      rw [absent]
      refine iff_of_false (fun opens => ?_) fun openable => mode openable.2.1
      have declined := (opens_minus done).mp opens
      exact rooted_ne desk.volume dp (counts.symm.trans declined.itable)
  | @found i ip volume searchable found admits keeps counts live type =>
      rw [found]
      by_cases file : typeOf sb desk.volume i = Fs.tFile
      · have restored (last : Fs.State) (_ : Leaves sb volume last dp) (returned : Fs.refs last = Function.update (Fs.refs volume) ip (Fs.refs volume ip - 1)) :
            Declined sb desk { desk with volume := last } dp ↔ False := by
          refine iff_false_intro fun declined => rooted_ne desk.volume dp ?_
          rw [← declined.itable, returned, counts, update_returned]
        rw [openInode_opens ready.idle done keeps.listed (by rw [keeps.entries]; exact found) live (type.trans file) restored]
        show False ∧ _ ∨ _ ↔ _ ∧ _ ∧ ite _ _ _
        rw [if_neg mode]
        simp only [searchable, admits, file, true_and, false_and, false_or]
      · have refused : ¬(volume.itable ip).type = Fs.tFile := fun same => file (type.symm.trans same)
        have failed : desk.fileopen sb path omode = .error "unsupported file inode type\n" := by
          refine done.trans ?_
          show Desk.openInode sb { desk with volume } ip omode = _
          rw [Desk.openInode, if_pos refused]
        refine iff_of_false (opens_error failed) fun openable => ?_
        have regular := openable.2.2
        rw [if_neg mode] at regular
        exact file regular.1

/-- `fileopen` returns a descriptor of the file, or fails with everything as it was, exactly when the condition holds. -/
theorem fileopen_iff (sb : Superblock) (desk : Desk) (dp : InodeIx) (path : Bytes.Memory) (omode : BitVec 64) (ready : Ready sb desk dp) :
    Opens sb desk dp path omode ↔ Openable sb desk dp path omode := by
  by_cases mode : asks omode oCreate = true
  · exact create_opens ready mode
  · exact existing_opens ready mode

/-- A volume of eight blocks with three inodes. -/
def openVolume : Superblock := { size := 8, ninodes := 3, inodestart := 2, bmapstart := 3 }

/-- The disk has the inode of the root directory and the marks of the four metadata blocks. -/
def openDisk : Nat → Bytes.Memory :=
  Function.update (Function.update (fun _ _ => 0) 3 (Function.update (fun _ => 0) 0 15)) 2 (Function.update (fun _ => 0) 64 1)

/-- The empty root directory is in memory. -/
def openState : Fs.State where
  disk := openDisk
  unwritten := fun _ => none
  itable := fun ip => if ip = 0 then { Fs.idleInode with inum := 1, ref := 1, valid := true, type := Fs.tDir, nlink := 1 } else Fs.idleInode
  taken := []

/-- The first descriptors refer to the console. -/
def openDesk (busy : Nat) : Desk where
  files := fun fd => if fd.val < busy then some ⟨fd.val, Nat.lt_of_lt_of_le fd.isLt (by decide)⟩ else none
  filepool := fun f => if f.val < busy then { type := .stdio, ref := 1, readable := true, writable := true, off := 0 } else closedFile
  pipes := fun _ => none
  volume := openState
  memory := { free := [], denials := [], entry := fun _ _ => Vm.zeroPte }
  root := 0
  ram := { byte := fun _ _ => 0, log := [] }
  stack := fun _ => 0
  typed := fun _ => 0
  shown := []

theorem open_held (ip : InodeIx) (held : 0 < (openState.itable ip).ref) : ip = 0 := by
  by_contra apart
  have entry : openState.itable ip = Fs.idleInode := if_neg apart
  rw [entry] at held
  exact absurd held (Int.lt_irrefl 0)

theorem open_listed : Listed openVolume openState 0 Fs.rootino := by
  have live : Live openState 0 Fs.rootino := by decide
  constructor
  · apply Fs.sound_of_empty
    · exact ⟨by decide, by decide⟩
    · exact fun ip iq first second _ => (open_held ip first).trans (open_held iq second).symm
    · intro ip i held
      have own := open_held ip held.1
      rw [own] at held
      rw [← held.2.2]
      decide
    · decide
    · intro ip k
      by_cases own : ip = 0
      · rw [own]
        rfl
      · have entry : openState.itable ip = Fs.idleInode := if_neg own
        rw [entry]
        rfl
    · decide +kernel
    · decide
    · exact fun _ => rfl
    · rfl
  · exact live
  · rfl
  · rfl
  · decide
  · intro i j k v w inside
    exact absurd inside (Nat.not_lt_zero i)

theorem open_absent (path : Bytes.Memory) : (entries openVolume openState 0 Fs.rootino).find (key path) = none := by
  refine (Slots.Table.find_eq_none_iff _ _).mpr fun i held => ?_
  obtain ⟨j, inside, -⟩ := held
  exact absurd inside (Nat.not_lt_zero j)

theorem open_ready (busy : Nat) : Ready openVolume (openDesk busy) 0 := by
  refine ⟨⟨open_listed, by decide, fun name i found => ?_, fun ip held => ?_⟩, fun f unused => ?_⟩
  · have holds := (Slots.Table.find_eq_some_iff open_listed.unique).mp found
    obtain ⟨j, inside, -⟩ := holds
    exact absurd inside (Nat.not_lt_zero j)
  · rw [open_held ip held]
    have root : (Fs.dinode openVolume openState 1).type ≠ 0 := by decide +kernel
    exact root
  · by_cases own : f.val < busy
    · have entry : ((openDesk busy).filepool f).ref = 1 := congrArg File.ref (if_pos own)
      rw [entry] at unused
      contradiction
    · exact congrArg File.type (if_neg own)

theorem open_enough {ks : Finset Nat} (few : ks.card ≤ 4) : Fs.Enough openVolume openState Fs.rootino ks := by
  have blocks : (Fs.free openVolume openState).card = 4 := by decide +kernel
  rw [Fs.Enough, blocks]
  exact Nat.le_trans (Finset.card_filter_le _ _) few

/-- A path that is absent is created and opened. -/
theorem fileopen_iff_created : Opens openVolume (openDesk 3) 0 Fs.letter 0x601#64 := by
  refine (fileopen_iff openVolume (openDesk 3) 0 Fs.letter 0x601#64 (open_ready 3)).mpr ⟨Or.inr ⟨open_absent _, ?_⟩, ?_⟩
  · exact open_enough (Nat.le_trans (Fs.card_reach (by decide)) (by decide))
  · have absent : (entries openVolume (openDesk 3).volume 0 Fs.rootino).find (key Fs.letter) = none := open_absent _
    rw [absent]
    refine ⟨by decide, ⟨⟨2, by decide, by decide, by decide +kernel⟩, 1, rfl⟩, Or.inr ⟨by decide, ?_⟩, ⟨⟨3, by decide⟩, rfl⟩, 3, rfl⟩
    exact open_enough (Nat.le_trans (Fs.card_reach (by decide)) (by decide))

/-- With all descriptors in use the creation of a file ends in a panic; and a path that is absent is refused, but the root directory keeps a reference. -/
theorem fileopen_panics : (Ready openVolume (openDesk 16) 0 ∧
    (openDesk 16).fileopen openVolume Fs.letter 0x201#64 = .error "unknown file type 0\n" ∧ ¬Opens openVolume (openDesk 16) 0 Fs.letter 0x201#64) ∧
      Ready openVolume (openDesk 3) 0 ∧ ∃ after, (openDesk 3).fileopen openVolume Fs.letter 0#64 = .ok (-1, after) ∧
        (openState.itable 0).ref = 1 ∧ (after.volume.itable 0).ref = 2 ∧ ¬Opens openVolume (openDesk 3) 0 Fs.letter 0#64 := by
  have failed : (openDesk 16).fileopen openVolume Fs.letter 0x201#64 = .error "unknown file type 0\n" := by
    have tested : (match (openDesk 16).fileopen openVolume Fs.letter 0x201#64 with
      | .error message => message == "unknown file type 0\n"
      | .ok _ => false) = true := by decide +kernel
    cases ran : (openDesk 16).fileopen openVolume Fs.letter 0x201#64 with
    | error message =>
        rw [ran] at tested
        rw [beq_iff_eq.mp tested]
    | ok result =>
        rw [ran] at tested
        contradiction
  have tested : (((openDesk 3).fileopen openVolume Fs.letter 0#64).toOption.any fun run =>
      decide (run.1 = (-1 : Int) ∧ (run.2.volume.itable 0).ref = 2)) = true := by decide +kernel
  obtain ⟨⟨value, after⟩, ran, facts⟩ := (Option.any_eq_true ..).mp tested
  have done := toOption_some.mp ran
  rw [decide_eq_true_eq] at facts
  obtain ⟨minus, two⟩ := facts
  dsimp only at minus two
  subst minus
  refine ⟨⟨open_ready 16, failed, opens_error failed⟩, open_ready 3, after, done, rfl, two, fun opens => ?_⟩
  have counts := congrFun ((opens_minus done).mp opens).itable 0
  have one : Fs.refs (openDesk 3).volume 0 = 1 := rfl
  rw [one, Fs.refs, two] at counts
  contradiction

end BtbuOs.Files
