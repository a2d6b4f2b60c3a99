import BtbuOs.Fs.Creation
import BtbuOs.Nfs.Files

namespace BtbuOs.Nfs

open Bytes Fs Machine Ownership State

variable {m : Image} {j k o : Nat} {c name : Memory} {files : List File} {f : File}

/-- The kernel reads the superblock that the program wrote. -/
theorem fsinit_final (good : Good m) : fsinit m.final = .ok sb := by
  have block : m.final 1 = superSector := (final_of_ne (by decide)).trans good.room.super
  rw [fsinit, block, if_pos (by decide), readsb, block]
  rfl

/-- The entry at a place depends on its sixteen bytes. -/
theorem entryAt_shift {d : Memory} (same : ∀ x, x < direntSize → c (direntSize * j + x) = d x) : entryAt c j = entryAt d 0 := by
  have fourteen : dirsiz = 14 := rfl
  have sixteen : direntSize = 16 := rfl
  have number : load c (direntSize * j) 2 = load d (direntSize * 0) 2 := by
    apply load_shift
    intro k below
    rw [Nat.mul_zero, Nat.zero_add]
    exact same k (by omega)
  have text : key (fun k => c (direntSize * j + 2 + k)) = key fun k => d (direntSize * 0 + 2 + k) := by
    apply clip_congr
    intro k _ below
    rw [Nat.mul_zero, Nat.zero_add, Nat.add_assoc]
    exact same (2 + k) (by omega)
  rw [entryAt, entryAt, number, text]

/-- The entries of the root directory are those of the files, in their order, and the others are empty. -/
theorem Written.entryAt (written : Written m files) (few : files.length ≤ 198) (j : Nat) :
    Fs.entryAt (content sb (closed m) rootino) j = (files[j]?).map fun f => (key f.shortname, j + 2) := by
  have sixteen : direntSize = 16 := rfl
  have bytes := written.bytes
  cases found : files[j]? with
  | none =>
      have outside := List.getElem?_eq_none_iff.mp found
      refine (entryAt_shift (d := fun _ => 0) fun x below => ?_).trans entryAt_zero
      rw [bytes, if_neg (by rw [sixteen]; omega)]
  | some f =>
      obtain ⟨inside, -⟩ := List.getElem?_eq_some_iff.mp found
      refine (entryAt_shift (d := dirent (j + 2) f.shortname) fun x below => ?_).trans (entryAt_dirent f.shortname (by omega) (by omega))
      have row : (direntSize * j + x) / direntSize = j := by rw [Nat.mul_add_div (by decide), Nat.div_eq_of_lt below, Nat.add_zero]
      have column : (direntSize * j + x) % direntSize = x := by rw [Nat.mul_add_mod, Nat.mod_eq_of_lt below]
      rw [bytes, if_pos (by rw [sixteen]; omega), rootBytes, row, column, found]
      rfl

/-- The kernel has the root directory in memory. -/
theorem rootDir_closed (written : Written m files) : rootDir sb (closed m) = .ok (0, opening m rootino) := by
  have typed : (dinode sb (taking m rootino) ((taking m rootino).itable 0).inum).type ≠ 0 := by
    rw [taking_entry]
    show (dinode sb (closed m) rootino).type ≠ 0
    rw [written.type]
    decide
  have stale : ((taking m rootino).itable 0).valid = false := by rw [taking_entry]
  have loaded : ivalid sb (taking m rootino) 0 = .ok (opening m rootino) := by
    rw [ivalid, stale, if_neg Bool.false_ne_true]
    exact (if_neg typed).trans (congrArg Except.ok (loaded_taking m rootino))
  rw [rootDir, iget_closed]
  show (ivalid sb (taking m rootino) 0 >>= fun s => .ok (0, s)) = _
  rw [loaded]
  rfl

/-- No two files have the same name in the directory. -/
def Distinct (files : List File) : Prop := files.Pairwise fun f g => key f.shortname ≠ key g.shortname

theorem Distinct.eq (distinct : Distinct files) {i j : Nat} {f g : File} (first : files[i]? = some f) (second : files[j]? = some g)
    (same : key f.shortname = key g.shortname) : i = j := by
  obtain ⟨low, rfl⟩ := List.getElem?_eq_some_iff.mp first
  obtain ⟨high, rfl⟩ := List.getElem?_eq_some_iff.mp second
  have apart := List.pairwise_iff_getElem.mp distinct
  rcases Nat.lt_trichotomy i j with before | equal | behind
  · exact absurd same (apart i j low high before)
  · exact equal
  · exact absurd same.symm (apart j i high low behind)

theorem Written.opened (written : Written m files) : Sound sb (opening m rootino) ∧ Still sb (closed m) (opening m rootino) ∧
    Live (opening m rootino) 0 rootino ∧ ((opening m rootino).itable 0).type = tDir ∧
    ((opening m rootino).itable 0).size = (direntSize * files.length / bsize + 1) * bsize := by
  obtain ⟨sound, still⟩ := opening_sound written.good.sound (by decide : rootino < ninodes)
  have viewed : Viewed m rootino (dinode sb (closed m) rootino) (opening m rootino) := opening_viewed written.good.room
  refine ⟨sound, still, viewed.live, ?_, ?_⟩
  · rw [viewed.entry]
    exact written.type
  · rw [viewed.entry]
    exact written.size

/-- The directory operations of the kernel have their invariant from the start. -/
theorem Written.tidy (written : Written m files) (few : files.length ≤ 198) (distinct : Distinct files) :
    Fs.Tidy sb (opening m rootino) 0 := by
  have sixteen : direntSize = 16 := rfl
  have block : bsize = 1024 := rfl
  obtain ⟨sound, still, live, type, size⟩ := written.opened
  have slot (j : Nat) : (entries sb (opening m rootino) 0 rootino).slot j = (files[j]?).map fun f => (key f.shortname, j + 2) := by
    show Fs.entryAt (content sb (opening m rootino) rootino) j = _
    rw [still.content]
    exact written.entryAt few j
  have named {name : List Byte} {i j : Nat} (held : (entries sb (opening m rootino) 0 rootino).slot j = some (name, i)) :
      ∃ f, files[j]? = some f ∧ key f.shortname = name ∧ j + 2 = i := by
    rw [slot, Option.map_eq_some_iff] at held
    obtain ⟨f, found, same⟩ := held
    exact ⟨f, found, congrArg Prod.fst same, congrArg Prod.snd same⟩
  have unique : (entries sb (opening m rootino) 0 rootino).Unique := by
    intro i j name v w _ _ first second
    obtain ⟨f, mine, rfl, -⟩ := named first
    obtain ⟨g, yours, same, -⟩ := named second
    exact distinct.eq mine yours same.symm
  constructor
  · refine ⟨sound, live, type, ?_, ?_, unique⟩
    · rw [size, sixteen, block]
      omega
    · have whole : maxfile * bsize = 274432 := rfl
      rw [size, sixteen, whole, block]
      omega
  · decide
  · intro name i found
    obtain ⟨j, -, held⟩ := (Slots.Table.find_eq_some_iff unique).mp found
    obtain ⟨f, present, -, rfl⟩ := named held
    obtain ⟨inside, -⟩ := List.getElem?_eq_some_iff.mp present
    refine ⟨?_, ?_⟩
    · have second : sb.ninodes = 200 := rfl
      omega
    · rw [dinode_congr (still.bread _), (written.files j f present).type]
      decide
  · intro ip positive
    by_cases own : ip = 0
    · subst own
      rw [live.2.2, dinode_congr (still.bread _), written.type]
      decide
    · have entry : (opening m rootino).itable ip = idleInode := Function.update_of_ne own ..
      rw [entry] at positive
      exact absurd positive (Int.lt_irrefl 0)

/-- The blocks of the bytes of a file are there. -/
theorem present_of_places {inum len x : Nat} (places : ∀ k, pointer sb (closed m) (inum, k) ≠ 0 ↔ k < blockCount len)
    (small : len ≤ maxfile * bsize) (below : x < len) : x / bsize < maxfile ∧ pointer sb (closed m) (inum, place (x / bsize)) ≠ 0 := by
  have inside : x / bsize < maxfile := Nat.div_lt_of_lt_mul (by rw [Nat.mul_comm]; omega)
  have covered : Covers 0 len (place (x / bsize)) := by
    refine ⟨x, Nat.zero_le x, by omega, ?_⟩
    unfold path place
    split
    · exact Finset.mem_singleton_self _
    · exact Finset.mem_insert_of_mem (Finset.mem_singleton_self _)
  exact ⟨inside, (places _).mpr ((covers_zero len _).mp covered)⟩

/-- The search for the name of a file ends at its entry. -/
theorem Written.firstNamed (written : Written m files) (few : files.length ≤ 198) (distinct : Distinct files) (found : files[k]? = some f)
    (same : key name = key f.shortname) :
    FirstNamed (content sb (closed m) rootino) name ((direntSize * files.length / bsize + 1) * bsize) 0 (direntSize * k) ∧
      load (content sb (closed m) rootino) (direntSize * k) 2 = k + 2 := by
  have sixteen : direntSize = 16 := rfl
  have block : bsize = 1024 := rfl
  obtain ⟨inside, -⟩ := List.getElem?_eq_some_iff.mp found
  have own := written.entryAt few k
  rw [found, Option.map_some] at own
  refine ⟨⟨Nat.zero_le _, ?_, ?_, ?_, fun x _ below aligned => ?_⟩, (entryAt_eq_some_iff.mp own).2.2⟩
  · rw [Nat.mul_mod_right, Nat.zero_mod]
  · rw [sixteen, block]
    omega
  · exact names_iff.mpr ⟨k + 2, by rw [own, same]⟩
  · obtain ⟨j, rfl⟩ : direntSize ∣ x := Nat.dvd_of_mod_eq_zero (aligned.trans (Nat.zero_mod _))
    intro named
    obtain ⟨i, held⟩ := names_iff.mp named
    rw [written.entryAt few j, Option.map_eq_some_iff] at held
    obtain ⟨g, other, entry⟩ := held
    have equal := distinct.eq found other (same.symm.trans (congrArg Prod.fst entry).symm)
    rw [equal] at below
    exact absurd below (Nat.lt_irrefl _)

/-- What the kernel has for a file when it finds it by a name. -/
structure Found (disk : Nat → Memory) (name : Memory) (inum : Nat) (f : File) (ip : InodeIx) (s after : State) : Prop where
  named : namei sb (boot disk) name = .ok (some ip, s)
  loaded : ivalid sb s ip = .ok after
  inum : (after.itable ip).inum = inum
  type : (after.itable ip).type = tFile
  size : (after.itable ip).size = f.size
  reads : ∀ dst off n, off + n ≤ f.size → readi sb after ip none dst off n = .ok (n, splice dst 0 n fun j => f.data (off + j), after)

/-- A name that the directory stores for a file leads to the bytes of the file. -/
theorem Written.found (written : Written m files) (few : files.length ≤ 198) (distinct : Distinct files) (found : files[k]? = some f)
    (fits : f.size ≤ maxfile * bsize) (same : key name = key f.shortname) : ∃ ip s after, Found m.final name (k + 2) f ip s after := by
  have sixteen : direntSize = 16 := rfl
  have block : bsize = 1024 := rfl
  have whole : maxfile * bsize = 274432 := rfl
  obtain ⟨inside, -⟩ := List.getElem?_eq_some_iff.mp found
  obtain ⟨sound, still, live, type, size⟩ := written.opened
  obtain ⟨first, number⟩ := written.firstNamed few distinct found same
  rw [← still.content] at first number
  have small : (direntSize * files.length / bsize + 1) * bsize < 2 ^ 32 := by
    rw [sixteen, block]
    omega
  have searched := findEntry_present sound live first size small (fun x below => by
    rw [still.pointer]
    exact present_of_places written.places (by rw [sixteen]; omega) (by rw [sixteen] at below ⊢; omega))
    (by rw [size, sixteen, block]; omega : direntSize * k < 0 + direntSize * (((opening m rootino).itable 0).size / direntSize + 1))
  rw [number] at searched
  have empty (ip : InodeIx) (apart : ip ≠ 0) : (opening m rootino).itable ip = idleInode := Function.update_of_ne apart ..
  obtain ⟨-, ip, s, got, -⟩ := (iget_outcome (opening m rootino) (k + 2)).resolve_right fun full =>
    full.1 ⟨1, Or.inr (by rw [empty 1 (by decide)]; rfl)⟩
  have taken : s.itable ip = { (opening m rootino).itable ip with inum := k + 2, ref := 1, valid := false } := by
    rcases iget_cases got with ⟨held, root, -⟩ | ⟨-, -, rfl⟩
    · by_cases own : ip = 0
      · rw [own, live.2.2] at root
        exact absurd root (by show 1 ≠ k + 2; omega)
      · rw [empty ip own] at held
        exact absurd held (Int.lt_irrefl 0)
    · exact itable_setInode ..
  have kept := sound.iget got
  have calm := still.trans (sound.iget_still got)
  have held : 0 < (s.itable ip).ref := by rw [taken]; exact Int.one_pos
  have stale : ¬(s.itable ip).valid = true := by rw [taken]; exact Bool.false_ne_true
  have entry : (s.itable ip).inum = k + 2 := by rw [taken]
  have stored := written.files k f found
  have disk : dinode sb s (s.itable ip).inum = dinode sb (closed m) (k + 2) := by rw [entry, dinode_congr (calm.bread _)]
  have good := kept.load held (by rw [entry]; show k + 2 < 200; omega) stale
  have last := calm.trans (kept.load_still held stale).2
  have lives := (live_loaded s (dinode sb s (s.itable ip).inum) ip ip (k + 2)).mpr (Or.inl ⟨rfl, held, entry⟩)
  have loaded : (s.setInode ip ((s.itable ip).loaded (dinode sb s (s.itable ip).inum))).itable ip =
      (s.itable ip).loaded (dinode sb s (s.itable ip).inum) := itable_setInode ..
  refine ⟨ip, s, s.setInode ip ((s.itable ip).loaded (dinode sb s (s.itable ip).inum)), ?_, ?_, ?_, ?_, ?_, fun dst off n within => ?_⟩
  · have rooted : rootDir sb (boot m.final) = .ok (0, opening m rootino) := rootDir_closed written
    rw [namei, rooted]
    show (dirlookup sb (opening m rootino) 0 name >>= _) = _
    rw [dirlookup, if_neg (not_not.mpr type), searched, got]
    rfl
  · rw [ivalid, if_neg stale]
    refine if_neg ?_
    show (dinode sb s (s.itable ip).inum).type ≠ 0
    rw [disk, stored.type]
    decide
  · rw [loaded]
    exact entry
  · rw [loaded]
    exact (congrArg Dinode.type disk).trans stored.type
  · rw [loaded]
    exact (congrArg Dinode.size disk).trans stored.size
  · have bytes (j : Nat) (below : j < n) : content sb (closed m) (k + 2) (off + j) = f.data (off + j) := by
      rw [stored.bytes, if_pos (by omega)]
    rw [readi_present dst off n good lives (by rw [loaded]; exact within.trans_eq ((congrArg Dinode.size disk).trans stored.size).symm)
      (by omega) fun x low high => by
        rw [last.pointer]
        exact present_of_places stored.places fits (by omega)]
    congr 2
    congr 1
    funext x
    rw [last.content]
    by_cases below : 0 ≤ x ∧ x < 0 + n
    · rw [splice_inside _ _ below.1 below.2, splice_inside _ _ below.1 below.2, bytes _ (by omega)]
    · rw [splice_outside _ _ (by omega), splice_outside _ _ (by omega)]

/-- The image of the program is a volume of the kernel: its superblock and invariants are those of the kernel, the root directory lists the
files, each name leads to the bytes of its file, and the free map has exactly the blocks behind them. -/
theorem mkfs_read (few : files.length ≤ 198) (fits : ∀ f ∈ files, f.size ≤ maxfile * bsize) (left : nmeta + blocks files ≤ fssize)
    (distinct : Distinct files) :
    ∃ disk, mkfs files = .ok disk ∧ fsinit disk = .ok sb ∧ Sound sb (boot disk) ∧
      (∃ s, rootDir sb (boot disk) = .ok (0, s) ∧ Fs.Tidy sb s 0) ∧
      (∀ j, Fs.entryAt (content sb (boot disk) rootino) j = (files[j]?).map fun f => (key f.shortname, j + 2)) ∧
      (∀ k f name, files[k]? = some f → key name = key f.shortname → ∃ ip s after, Found disk name (k + 2) f ip s after) ∧
      ∀ b, b < fssize → inUse sb (boot disk) b = decide (b < nmeta + blocks files) := by
  obtain ⟨m, built, written⟩ := mkfs_written few fits left
  refine ⟨m.final, built, fsinit_final written.good, written.good.sound, ⟨_, rootDir_closed written, written.tidy few distinct⟩,
    written.entryAt few, fun k f name found same => ?_, fun b inside => ?_⟩
  · exact written.found few distinct found (fits f (List.mem_of_getElem? found)) same
  · rw [← written.freeblock]
    exact inUse_closed m inside

/-- A file of 1027 bytes and an empty one. -/
def letters : List File :=
  [{ path := [117, 47, 97], data := fun x => BitVec.ofNat 8 x, reads := [1024, 3], text := by decide, positive := by decide, fits := by decide },
    { path := [98], data := fun _ => 0, reads := [], text := by decide, positive := by decide, fits := by decide }]

theorem mkfs_read_letters : ∃ disk ip s after, mkfs letters = .ok disk ∧ namei sb (boot disk) (cstring [97]) = .ok (some ip, s) ∧
    ivalid sb s ip = .ok after ∧ (after.itable ip).size = 1027 := by
  obtain ⟨disk, built, -, -, -, -, found, -⟩ := mkfs_read (by decide : letters.length ≤ 198) (by decide) (by decide) (by unfold Distinct; decide)
  obtain ⟨ip, s, after, read⟩ := found 0 _ (cstring [97]) rfl (by decide)
  exact ⟨disk, ip, s, after, built, read.named, read.loaded, read.size⟩

end BtbuOs.Nfs
