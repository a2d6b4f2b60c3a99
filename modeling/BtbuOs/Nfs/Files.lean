import BtbuOs.Nfs.Building

namespace BtbuOs.Nfs

open Bytes Fs Machine Ownership State

variable {m mid m' : Image} {inum n k b i j off len kind sec : Nat} {p data other : Memory} {files : List File} {f : File}

/-- A sector in front of the free map that the program writes is a block that the kernel writes. -/
theorem closed_wsect (apart : sec ≠ sb.bmapstart) (data : Memory) : closed (wsect m sec data) = (closed m).bwrite sec data := by
  have disk : (wsect m sec data).final = Function.update m.final sec data := Function.update_comm apart ..
  have clean : Function.update (fun _ : Nat => (none : Option Memory)) sec none = fun _ => none := Function.update_eq_self sec _
  rw [closed, boot, disk, State.bwrite]
  show _ = State.mk _ (Function.update (fun _ => none) sec none) _ _
  rw [clean]
  rfl

/-- The pointers of an inode stay when only another inode is written. -/
theorem pointer_clear (good : Good m) (inside : inum < ninodes) (type : Nat) (p : Place) (apart : p.1 ≠ inum) :
    pointer sb ((closed m).bwrite (iblock sb inum) (clearDinode ((closed m).bread (iblock sb inum)) inum type)) p = pointer sb (closed m) p := by
  let after := (closed m).bwrite (iblock sb inum) (clearDinode ((closed m).bread (iblock sb inum)) inum type)
  have same : (dinode sb after p.1).Same (dinode sb (closed m) p.1) :=
    dinode_bwrite_of_ne (closed m) apart fun _ outside => clearDinode_outside _ _ _ outside
  have address (k : Nat) (slot : k ≤ ndirect) : addr sb after p.1 k = addr sb (closed m) p.1 k := by
    have idle (ip : InodeIx) : ¬Live after ip p.1 := closed_idle m ip p.1
    rw [addr_idle idle, addr_closed, same.addrs k slot]
  show pointer sb after p = _
  rw [pointer, pointer]
  split
  · rename_i bounds
    split
    · rename_i slot
      exact address p.2 slot
    · rw [entry, entry, address ndirect (Nat.le_refl _)]
      split
      · rfl
      · rename_i nonzero
        have above := (good.sound.addr_below bounds.1 (Nat.le_refl _) nonzero).1
        have below := iblock_lt good.sound.valid inside
        have between := bmapstart_lt sb
        rw [bread_bwrite_of_ne _ _ (by omega)]
  · rfl

/-- A new inode is an empty file. -/
theorem ialloc_stored (good : Good m) (inside : m.freeinode < ninodes) (small : kind < 2 ^ 16) (data : Memory) :
    ∃ m', ialloc m kind = .ok (m.freeinode, m') ∧ Good m' ∧ m'.freeinode = m.freeinode + 1 ∧ m'.freeblock = m.freeblock ∧
      Stored m' m.freeinode kind data 0 ∧ Elsewhere m m' m.freeinode := by
  generalize number : m.freeinode = inum at inside
  have below := iblock_below inside
  have apart : iblock sb inum ≠ sb.bmapstart := Nat.ne_of_lt below
  have sector : rsect m (iblock sb inum) = .ok (m.disk (iblock sb inum)) := if_pos (Nat.lt_trans below (by decide))
  have same : (closed m).bread (iblock sb inum) = m.disk (iblock sb inum) := (bread_final rfl (closed_clean m) _).trans (final_of_ne apart)
  have written := closed_wsect (m := m) apart (clearDinode ((closed m).bread (iblock sb inum)) inum kind)
  have own : (dinode sb ((closed m).bwrite (iblock sb inum) (clearDinode ((closed m).bread (iblock sb inum)) inum kind)) inum).Same
      { type := kind % 2 ^ 16, nlink := 1, size := 0, addrs := fun _ => 0 } := by
    rw [dinode, bread_bwrite]
    exact getDinode_clearDinode _ _ _
  have pointers := pointer_clear good inside kind
  have sound := good.sound.clearDinode inside kind
  have others (j : Nat) (differ : j ≠ inum) :
      (dinode sb ((closed m).bwrite (iblock sb inum) (clearDinode ((closed m).bread (iblock sb inum)) inum kind)) j).Same (dinode sb (closed m) j) :=
    dinode_bwrite_of_ne (closed m) differ fun _ outside => clearDinode_outside _ _ _ outside
  have reads (b : Nat) (differ : b ≠ iblock sb inum) :=
    bread_bwrite_of_ne (closed m) (clearDinode ((closed m).bread (iblock sb inum)) inum kind) differ
  have idle (ip : InodeIx) (i : Nat) :
      ¬Live ((closed m).bwrite (iblock sb inum) (clearDinode ((closed m).bread (iblock sb inum)) inum kind)) ip i := closed_idle m ip i
  rw [← written] at own pointers sound others reads idle
  rw [same] at own pointers sound others reads idle
  have low := iblock_lt good.sound.valid inside
  have between := bmapstart_lt sb
  generalize image : wsect m (iblock sb inum) (clearDinode (m.disk (iblock sb inum)) inum kind) = after at own pointers sound others reads idle
  have none (k : Nat) : pointer sb (closed after) (inum, k) = 0 := by
    have zero (k : Nat) (slot : k ≤ ndirect) : addr sb (closed after) inum k = 0 := by rw [addr_idle (fun ip => idle ip inum), own.addrs k slot]
    rw [pointer]
    split
    · split
      · rename_i slot
        exact zero k slot
      · rw [entry, if_pos (zero ndirect (Nat.le_refl _))]
    · rfl
  refine ⟨{ after with freeinode := inum + 1 }, ?_, ⟨?_, sound⟩, rfl, ?_, ?_, ?_⟩
  · rw [ialloc, number, sector, ← image]
    rfl
  · have first : nmeta = 16 := rfl
    have place : sb.bmapstart = 15 := rfl
    refine ⟨?_, ?_, fun b high => ?_, ?_⟩
    · rw [← image]
      exact good.room.above
    · rw [← image]
      exact good.room.below
    · rw [← image] at high ⊢
      have above := good.room.above
      have outside : b ≠ iblock sb inum := by
        have high' : m.freeblock ≤ b := high
        omega
      exact (Function.update_of_ne outside ..).trans (good.room.zero b high)
    · rw [← image]
      have kept : Function.update m.disk (iblock sb inum) (clearDinode (m.disk (iblock sb inum)) inum kind) 1 = m.disk 1 :=
        Function.update_of_ne (iblock_ne inum) ..
      exact kept.trans good.room.super
  · rw [← image]
    rfl
  · refine ⟨own.type.trans (Nat.mod_eq_of_lt small), own.size, fun x => ?_, fun k => ?_⟩
    · show content sb (closed after) inum x = _
      rw [content, if_pos (none _), if_neg (Nat.not_lt_zero x)]
    · show pointer sb (closed after) (inum, k) ≠ 0 ↔ _
      rw [none k]
      exact iff_of_false (not_not.mpr rfl) (Nat.not_lt_zero k)
  · refine ⟨fun j _ differ => others j differ, fun j differ => ?_, fun p differ => pointers p differ⟩
    funext x
    show content sb (closed after) j x = content sb (closed m) j x
    rw [content, content, pointers (j, _) differ]
    split
    · rfl
    · rename_i nonzero
      have above := good.sound.owned.above _ nonzero
      rw [reads _ (by omega)]

/-- The bytes of the root directory with the entries of the files in their order; the first file has inode 2. -/
def rootBytes (files : List File) : Memory := fun x =>
  (files[x / direntSize]?).elim 0 fun f => dirent (x / direntSize + 2) f.shortname (x % direntSize)

/-- The blocks that the files and the root directory need. -/
def blocks (files : List File) : Nat := blockCount (direntSize * files.length) + (files.map fun f => blockCount f.size).sum

/-- The image holds the files, and the root directory lists them. -/
structure Filled (m : Image) (files : List File) : Prop where
  good : Good m
  freeinode : m.freeinode = files.length + 2
  freeblock : m.freeblock = nmeta + blocks files
  root : Stored m rootino tDir (rootBytes files) (direntSize * files.length)
  files : ∀ k f, files[k]? = some f → Stored m (k + 2) tFile f.data f.size

/-- An entry that is appended is the one of the next file. -/
theorem rootBytes_append (files : List File) (f : File) : (∀ x, x < direntSize * files.length → rootBytes (files ++ [f]) x = rootBytes files x) ∧
    ∀ x, x < direntSize → dirent (files.length + 2) f.shortname x = rootBytes (files ++ [f]) (direntSize * files.length + x) := by
  have sixteen : direntSize = 16 := rfl
  constructor
  · intro x below
    have row : x / direntSize < files.length := Nat.div_lt_of_lt_mul below
    rw [rootBytes, rootBytes, List.getElem?_append_left row]
  · intro x below
    have row : (direntSize * files.length + x) / direntSize = files.length := by
      rw [Nat.mul_add_div (by decide), Nat.div_eq_of_lt below, Nat.add_zero]
    have column : (direntSize * files.length + x) % direntSize = x := by rw [Nat.mul_add_mod, Nat.mod_eq_of_lt below]
    rw [rootBytes, row, column, List.getElem?_append_right (Nat.le_refl _), Nat.sub_self]
    rfl

theorem blocks_append (files : List File) (f : File) :
    blocks (files ++ [f]) = blockCount (direntSize * files.length + direntSize) + (files.map fun f => blockCount f.size).sum + blockCount f.size := by
  rw [blocks, List.length_append, List.length_singleton, Nat.mul_succ, List.map_append, List.sum_append, List.map_singleton, List.sum_singleton,
    Nat.add_assoc]

theorem le_blocks (files : List File) (f : File) : blocks files ≤ blocks (files ++ [f]) := by
  rw [blocks_append, blocks]
  have mono := blockCount_mono (Nat.le_add_right (direntSize * files.length) direntSize)
  omega

/-- A round of the program adds a file and its entry. -/
theorem addFile_filled (filled : Filled m files) (few : files.length < 198) (fits : f.size ≤ maxfile * bsize)
    (left : nmeta + blocks (files ++ [f]) ≤ fssize) : ∃ m', addFile m f = .ok m' ∧ Filled m' (files ++ [f]) := by
  have sixteen : direntSize = 16 := rfl
  have whole : maxfile * bsize = 274432 := rfl
  have number := filled.freeinode
  obtain ⟨same, next⟩ := rootBytes_append files f
  have total := blocks_append files f
  have before := filled.freeblock
  rw [blocks] at before
  have mono := blockCount_mono (Nat.le_add_right (direntSize * files.length) direntSize)
  have inside : m.freeinode < ninodes := by
    have many : ninodes = 200 := rfl
    omega
  have second : ninodes = 200 := rfl
  have first : rootino = 1 := rfl
  have table : direntSize * files.length + direntSize ≤ maxfile * bsize := by rw [sixteen]; omega
  obtain ⟨m1, allocated, good1, inodes1, blocks1, own1, frame1⟩ := ialloc_stored filled.good inside (by decide : tFile < 2 ^ 16) f.data
  have root1 := (filled.root.congr same).keep frame1 (by omega) (by omega)
  have enough1 := root1.enough (n := direntSize) good1.room (by omega)
  rw [← root1.size] at enough1
  obtain ⟨m2, entered, appended⟩ := iappend_appended (p := dirent m.freeinode f.shortname) good1.room good1.sound (by omega : rootino < ninodes)
    (by rw [root1.size]; exact table) enough1
  obtain ⟨root2, count2⟩ := root1.append appended (by rw [number]; exact next)
  have own2 := own1.keep appended.elsewhere inside (by omega)
  obtain ⟨m3, copied, good3, frame3, inodes3, own3, count3⟩ := appendReads_stored inside ⟨appended.room, appended.sound⟩ own2
    (by rw [Nat.zero_add]; exact fits : 0 + f.reads.sum ≤ maxfile * bsize) (by rw [Nat.zero_add]; show _ + blockCount f.size ≤ _; omega)
  rw [Nat.zero_add] at own3 count3
  have size : f.reads.sum = f.size := rfl
  have nothing : blockCount 0 = 0 := rfl
  rw [size, nothing] at count3
  refine ⟨m3, ?_, ⟨good3, ?_, ?_, ?_, ?_⟩⟩
  · rw [addFile, if_neg (basename_plain f.path), allocated]
    show (iappend m1 rootino (dirent m.freeinode f.shortname) direntSize >>= fun m2 => appendReads m.freeinode f.data f.reads m2 0) = _
    rw [entered]
    exact copied
  · rw [inodes3, appended.freeinode, inodes1, number, List.length_append]
    rfl
  · omega
  · rw [List.length_append, List.length_singleton, Nat.mul_succ]
    exact root2.keep frame3 (by omega) (by omega)
  · intro k g found
    by_cases old : k < files.length
    · rw [List.getElem?_append_left old] at found
      have stored := filled.files k g found
      exact ((stored.keep frame1 (by omega) (by omega)).keep appended.elsewhere (by omega) (by omega)).keep frame3 (by omega) (by omega)
    · rw [List.getElem?_append_right (Nat.not_lt.mp old)] at found
      obtain ⟨zero, rfl⟩ : k - files.length = 0 ∧ f = g := by
        cases index : k - files.length with
        | zero => rw [index] at found; exact ⟨rfl, Option.some.inj found⟩
        | succ rest => rw [index] at found; cases found
      have place : k + 2 = m.freeinode := by omega
      rw [place]
      exact own3

theorem le_blocks_append (less more : List File) : blocks less ≤ blocks (less ++ more) := by
  have mono := blockCount_mono (Nat.le_add_right (direntSize * less.length) (direntSize * more.length))
  rw [blocks, blocks, List.length_append, Nat.mul_add, List.map_append, List.sum_append]
  omega

/-- The image before the first file has no inode with a block. -/
theorem blank_good : Good blank := by
  have disk : blank.disk = Function.update (fun _ _ => 0) 1 superSector := rfl
  have zero (b : Nat) (apart : b ≠ 1) : blank.disk b = fun _ => 0 := by rw [disk, Function.update_of_ne apart]
  have room : Room blank := ⟨by decide, by decide, fun b high => zero b (by
    have first : blank.freeblock = 16 := rfl
    omega), by rw [disk, Function.update_self]⟩
  have addrs (i k : Nat) (inside : i < ninodes) : addr sb (closed blank) i k = 0 := by
    have apart : iblock sb i ≠ sb.bmapstart := Nat.ne_of_lt (iblock_below inside)
    have block : (closed blank).bread (iblock sb i) = fun _ => 0 :=
      ((bread_final rfl (closed_clean blank) _).trans (final_of_ne apart)).trans (zero _ (iblock_ne i).symm)
    rw [addr_closed, dinode, block]
    exact load_zero fun _ _ _ => rfl
  have none (p : Place) : pointer sb (closed blank) p = 0 := by
    rw [pointer]
    split
    · rename_i bounds
      split
      · exact addrs _ _ bounds.1
      · rw [entry, if_pos (addrs _ _ bounds.1)]
    · rfl
  refine ⟨room, ⟨⟨by decide, by decide⟩, ?_, ?_, ?_, ?_, fun _ _ => rfl, fun _ _ _ => rfl, ?_⟩⟩
  · exact fun ip _ first => absurd first (Int.lt_irrefl 0)
  · exact fun ip i live => absurd live (closed_idle blank ip i)
  · exact fun ip i live => absurd live (closed_idle blank ip i)
  · constructor
    · decide
    · exact fun p _ nonzero => absurd (none p) nonzero
    · exact fun p nonzero => absurd (none p) nonzero
    · exact fun p nonzero => absurd (none p) nonzero
    · exact fun p nonzero => absurd (none p) nonzero
    · intro unit low inside
      rw [inUse_closed blank inside, decide_eq_true_eq]
      exact low
  · exact fun call member => absurd member List.not_mem_nil

/-- What the kernel finds when the program has ended: the root directory with its size at the end of a block, and the files. -/
structure Written (m : Image) (files : List File) : Prop where
  good : Good m
  freeblock : m.freeblock = nmeta + blocks files
  type : (dinode sb (closed m) rootino).type = tDir
  size : (dinode sb (closed m) rootino).size = (direntSize * files.length / bsize + 1) * bsize
  bytes : ∀ x, content sb (closed m) rootino x = if x < direntSize * files.length then rootBytes files x else 0
  places : ∀ k, pointer sb (closed m) (rootino, k) ≠ 0 ↔ k < blockCount (direntSize * files.length)
  files : ∀ k f, files[k]? = some f → Stored m (k + 2) tFile f.data f.size

/-- The root directory gets its last size. -/
theorem fixRoot_written (filled : Filled m files) (few : files.length ≤ 198) : ∃ m', fixRoot m = .ok m' ∧ Written m' files := by
  have inside : rootino < ninodes := by decide
  have second : ninodes = 200 := rfl
  have first : rootino = 1 := rfl
  obtain ⟨kept, still⟩ := opening_sound filled.good.sound inside
  have viewed : Viewed m rootino (dinode sb (closed m) rootino) (opening m rootino) := opening_viewed filled.good.room
  have small : ((dinode sb (closed m) rootino).size / bsize + 1) * bsize < 2 ^ 32 := by
    have sixteen : direntSize = 16 := rfl
    have block : bsize = 1024 := rfl
    rw [filled.root.size, sixteen, block]
    omega
  obtain ⟨m', wrote, -, count, sized⟩ := winode_sized viewed kept inside (getDinode_lt _ _).1 (getDinode_lt _ _).2 small
  refine ⟨m', ?_, ⟨⟨sized.room, sized.sound⟩, count.trans filled.freeblock, ?_, ?_, fun x => ?_, fun k => ?_, fun k f found => ?_⟩⟩
  · rw [fixRoot, rinode_closed m inside]
    exact wrote
  · rw [sized.dinode.type, ← filled.root.type]
  · rw [sized.dinode.size, ← filled.root.size]
  · rw [sized.contents, still.content]
    exact filled.root.bytes x
  · rw [sized.pointers, still.pointer]
    exact filled.root.places k
  · obtain ⟨bound, -⟩ := List.getElem?_eq_some_iff.mp found
    have stored := filled.files k f found
    have same := sized.dinodes (k + 2) (by omega) (by omega)
    rw [dinode_congr (still.bread _)] at same
    refine ⟨?_, ?_, fun x => ?_, fun j => ?_⟩
    · rw [same.type, stored.type]
    · rw [same.size, stored.size]
    · rw [sized.contents, still.content]
      exact stored.bytes x
    · rw [sized.pointers, still.pointer]
      exact stored.places j

/-- The program completes for files that fit, and its sectors are those that the kernel finds. -/
theorem mkfs_written (few : files.length ≤ 198) (fits : ∀ f ∈ files, f.size ≤ maxfile * bsize) (left : nmeta + blocks files ≤ fssize) :
    ∃ m, mkfs files = .ok m.final ∧ Written m files := by
  have second : ninodes = 200 := rfl
  obtain ⟨m1, allocated, good, inodes, count, root, -⟩ := ialloc_stored blank_good (by decide) (by decide : tDir < 2 ^ 16) (rootBytes [])
  have start : Filled m1 [] := ⟨good, inodes, count, root, fun _ _ found => by cases found⟩
  obtain ⟨m2, added, filled⟩ := foldlM_total (fun done m => Filled m done) files start fun done f rest m whole filled => by
    have many := congrArg List.length whole
    rw [List.length_append, List.length_cons] at many
    have more := le_blocks_append (done ++ [f]) rest
    rw [List.append_assoc, List.singleton_append, ← whole] at more
    exact addFile_filled filled (by omega) (fits f (whole ▸ List.mem_append_right _ (List.mem_cons_self ..))) (by omega)
  obtain ⟨m3, fixed, written⟩ := fixRoot_written filled few
  have used : m3.freeblock < bsize * 8 := Nat.lt_of_le_of_lt written.good.room.below (by decide)
  refine ⟨m3, ?_, written⟩
  rw [mkfs, allocated]
  show (files.foldlM addFile m1 >>= fun m => fixRoot m >>= fun m => balloc m m.freeblock >>= fun m => .ok m.disk) = _
  rw [added]
  show (fixRoot m2 >>= fun m => balloc m m.freeblock >>= fun m => .ok m.disk) = _
  rw [fixed]
  show (balloc m3 m3.freeblock >>= fun m => .ok m.disk) = _
  rw [balloc, if_pos used]
  rfl

end BtbuOs.Nfs
