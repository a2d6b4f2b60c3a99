import BtbuOs.Nfs.Simulation

namespace BtbuOs.Nfs

open Bytes Fs Machine Ownership State

variable {m m' : Image} {inum n k b j last count : Nat} {din : Dinode} {s s' : State} {p : Memory}

/-- The kernel at boot with the image as its disk. -/
def closed (m : Image) : State := boot m.final

theorem closed_clean (m : Image) : Clean (closed m) := fun _ => rfl

theorem closed_idle (m : Image) (ip : InodeIx) (i : Nat) : ¬Live (closed m) ip i := fun live => absurd live.1 (Int.lt_irrefl 0)

theorem addr_closed (m : Image) (i k : Nat) : addr sb (closed m) i k = (dinode sb (closed m) i).addrs k := addr_idle (fun ip => closed_idle m ip i) k

theorem inUse_closed (m : Image) (inside : b < fssize) : inUse sb (closed m) b = decide (b < m.freeblock) :=
  inUse_final rfl (closed_clean m) inside

theorem iblock_below (inside : inum < ninodes) : iblock sb inum < sb.bmapstart := by
  have place : sb.bmapstart = 15 := rfl
  have first : sb.inodestart = 2 := rfl
  have many : ninodes = 200 := rfl
  have per : ipb = 16 := rfl
  have small : inum / ipb < 13 := Nat.div_lt_of_lt_mul (by omega)
  rw [iblock]
  omega

theorem iblock_ne (inum : Nat) : 1 ≠ iblock sb inum := by
  have first : sb.inodestart = 2 := rfl
  rw [iblock, first]
  generalize inum / ipb = q
  omega

/-- The inode that the program reads is that of the kernel. -/
theorem rinode_closed (m : Image) (inside : inum < ninodes) : rinode m inum = .ok (dinode sb (closed m) inum) := by
  have below := iblock_below inside
  have sector : rsect m (iblock sb inum) = .ok (m.disk (iblock sb inum)) := if_pos (Nat.lt_trans below (by decide))
  have same : (closed m).bread (iblock sb inum) = m.disk (iblock sb inum) :=
    (bread_final rfl (closed_clean m) _).trans (final_of_ne (Nat.ne_of_lt below))
  rw [rinode, sector, dinode, same]
  rfl

/-- The kernel with the inode in memory. -/
def opening (m : Image) (inum : Nat) : State := (closed m).setInode 0 (opened inum (dinode sb (closed m) inum))

/-- The kernel with an entry for the inode that it has not read yet. -/
def taking (m : Image) (inum : Nat) : State := (closed m).setInode 0 { idleInode with inum, ref := 1, valid := false }

theorem taking_entry (m : Image) (inum : Nat) : (taking m inum).itable 0 = { idleInode with inum, ref := 1, valid := false } := itable_setInode ..

theorem iget_closed (m : Image) (inum : Nat) : iget (closed m) inum = .ok (0, taking m inum) := by
  have absent : (List.finRange ninode).find? (fun ip => 0 < ((closed m).itable ip).ref ∧ ((closed m).itable ip).inum = inum) = none :=
    List.find?_eq_none.mpr fun ip _ => by simp [closed, boot, idleInode]
  rw [iget, absent]
  rfl

theorem loaded_taking (m : Image) (inum : Nat) :
    (taking m inum).setInode 0 (((taking m inum).itable 0).loaded (dinode sb (taking m inum) ((taking m inum).itable 0).inum)) = opening m inum := by
  rw [taking_entry, opening]
  show State.mk _ _ (Function.update (Function.update _ _ _) _ _) _ = _
  rw [Function.update_idem]
  rfl

theorem opening_sound (sound : Sound sb (closed m)) (inside : inum < ninodes) :
    Sound sb (opening m inum) ∧ Still sb (closed m) (opening m inum) := by
  have entry := taking_entry m inum
  have got := iget_closed m inum
  have kept := sound.iget got
  have held : 0 < ((taking m inum).itable 0).ref := by
    rw [entry]
    exact Int.one_pos
  have stale : ¬((taking m inum).itable 0).valid = true := by
    rw [entry]
    exact Bool.false_ne_true
  have number : ((taking m inum).itable 0).inum = inum := by rw [entry]
  have loaded := kept.load held (by rwa [number]) stale
  have still := (sound.iget_still got).trans (kept.load_still held stale).2
  rw [loaded_taking] at loaded still
  exact ⟨loaded, still⟩

theorem opening_viewed (room : Room m) : Viewed m inum (dinode sb (closed m) inum) (opening m inum) :=
  ⟨rfl, closed_clean m, rfl, room⟩

/-- The kernel lets go of an inode whose copies in memory and on the disk agree. -/
theorem closing (viewed : Viewed m inum din s) (sound : Sound sb s) (agree : (dinode sb s inum).Same din) :
    Sound sb (closed m) ∧ (∀ b, (closed m).bread b = s.bread b) ∧ ∀ p, pointer sb (closed m) p = pointer sb s p := by
  have reads (b : Nat) : (closed m).bread b = s.bread b := by
    rw [bread_final viewed.disk viewed.clean, bread_final rfl (closed_clean m)]
  have forgotten : Sound sb { s with taken := [] } :=
    ⟨sound.valid, sound.unique, sound.inside, sound.synced, sound.owned, sound.metadata, sound.tables,
      fun call member => absurd member List.not_mem_nil⟩
  refine ⟨?_, reads, ?_⟩
  · apply forgotten.relabel
    · exact viewed.disk.symm
    · funext b
      exact (viewed.clean b).symm
    · rfl
    · exact fun ip _ first => absurd first (Int.lt_irrefl 0)
    · exact fun ip i live => absurd live (closed_idle m ip i)
  · apply pointer_congr
    · intro i inside k slot
      rw [addr_closed, dinode_congr (reads _)]
      by_cases own : i = inum
      · subst own
        rw [addr_live sb sound.unique viewed.live, viewed.entry]
        exact agree.addrs k slot
      · have idle (ip : InodeIx) : ¬Live s ip i := by
          intro live
          by_cases first : ip = 0
          · subst first
            exact own (live.2.2.symm.trans viewed.live.2.2)
          · have positive := live.1
            rw [viewed.table, Function.update_of_ne first] at positive
            exact absurd positive (Int.lt_irrefl 0)
        rw [addr_idle idle]
    · exact fun i _ _ j => by rw [reads]

/-- The blocks that are free in the image. -/
theorem card_free_final (disk : s.disk = m.final) (clean : Clean s) (room : Room m) : (free sb s).card = fssize - m.freeblock := by
  have below := room.below
  have same : free sb s = Finset.Ico m.freeblock fssize := by
    ext b
    rw [free, Finset.mem_filter, Finset.mem_range, Finset.mem_Ico]
    constructor
    · rintro ⟨inside, unused⟩
      rw [inUse_final disk clean inside, decide_eq_false_iff_not] at unused
      exact ⟨Nat.not_lt.mp unused, inside⟩
    · rintro ⟨above, inside⟩
      refine ⟨inside, ?_⟩
      rw [inUse_final disk clean inside, decide_eq_false_iff_not]
      exact Nat.not_lt.mpr above
  rw [same, Nat.card_Ico]

theorem card_free_opening (inum : Nat) (room : Room m) : (free sb (opening m inum)).card = fssize - m.freeblock :=
  card_free_final rfl (closed_clean m) room

/-- What the program does when it appends bytes to an inode. -/
structure Appended (m m' : Image) (inum : Nat) (p : Memory) (n : Nat) : Prop where
  room : Room m'
  sound : Sound sb (closed m')
  freeinode : m'.freeinode = m.freeinode
  content : content sb (closed m') inum = splice (content sb (closed m) inum) (dinode sb (closed m) inum).size n p
  others : ∀ j, j ≠ inum → Fs.content sb (closed m') j = Fs.content sb (closed m) j
  type : (dinode sb (closed m') inum).type = (dinode sb (closed m) inum).type
  size : (dinode sb (closed m') inum).size = (dinode sb (closed m) inum).size + n
  dinodes : ∀ j, j < ninodes → j ≠ inum → (dinode sb (closed m') j).Same (dinode sb (closed m) j)
  places : ∀ k, pointer sb (closed m') (inum, k) ≠ 0 ↔
    pointer sb (closed m) (inum, k) ≠ 0 ∨ Covers (dinode sb (closed m) inum).size n k
  pointers : ∀ p, p.1 ≠ inum → pointer sb (closed m') p = pointer sb (closed m) p
  count : m'.freeblock = m.freeblock + (gained sb (closed m) (closed m') inum).card

/-- The inode is written on both sides. -/
theorem winode_viewed (viewed : Viewed m inum din s) (inside : inum < ninodes) (size : Nat) :
    ∃ m', winode m inum { din with size } = .ok m' ∧ m'.freeinode = m.freeinode ∧ m'.freeblock = m.freeblock ∧
      Viewed m' inum { din with size } (iupdate sb (s.setInode 0 (opened inum { din with size })) 0) := by
  have below := iblock_below inside
  have apart : iblock sb inum ≠ sb.bmapstart := Nat.ne_of_lt below
  have sector : rsect m (iblock sb inum) = .ok (m.disk (iblock sb inum)) := if_pos (Nat.lt_trans below (by decide))
  have same : s.bread (iblock sb inum) = m.disk (iblock sb inum) := (bread_final viewed.disk viewed.clean _).trans (final_of_ne apart)
  refine ⟨wsect m (iblock sb inum) (putDinode (m.disk (iblock sb inum)) inum { din with size }), ?_, rfl, rfl, ?_⟩
  · rw [winode, sector]
    rfl
  have entry : (s.setInode 0 (opened inum { din with size })).itable 0 = opened inum { din with size } := itable_setInode ..
  constructor
  · rw [iupdate, entry]
    show Function.update s.disk (iblock sb inum) (putDinode (s.bread (iblock sb inum)) inum { din with size }) =
      Function.update (Function.update m.disk (iblock sb inum) (putDinode (m.disk (iblock sb inum)) inum { din with size }))
        sb.bmapstart (bitmap m.freeblock)
    rw [same, viewed.disk, Image.final, Function.update_comm apart.symm]
  · intro b
    rw [iupdate]
    exact unwritten_bwrite (s.setInode 0 (opened inum { din with size })) _ (Or.inr (viewed.clean b))
  · show Function.update s.itable 0 (opened inum { din with size }) = _
    rw [viewed.table, Function.update_idem]
  · refine ⟨viewed.room.above, viewed.room.below, fun b high => ?_, ?_⟩
    · have above := viewed.room.above
      have outside : b ≠ iblock sb inum := by
        have place : sb.bmapstart = 15 := rfl
        have first : nmeta = 16 := rfl
        have high' : m.freeblock ≤ b := high
        omega
      exact (Function.update_of_ne outside ..).trans (viewed.room.zero b high)
    · have kept : Function.update m.disk (iblock sb inum) (putDinode (m.disk (iblock sb inum)) inum { din with size }) 1 = m.disk 1 :=
        Function.update_of_ne (iblock_ne inum) ..
      exact kept.trans viewed.room.super

/-- The numbers of an inode that was read from the disk fit their fields. -/
theorem getDinode_lt (block : Memory) (i : Nat) : (getDinode block i).type < 2 ^ 16 ∧ (getDinode block i).nlink < 2 ^ 16 :=
  ⟨load_lt .., load_lt ..⟩

/-- The copy of the kernel in the middle of a write has the fields of the inode that was opened. -/
theorem Viewed.fields {din' : Dinode} (viewed : Viewed m inum din s) (later : Viewed m' inum din' s')
    (extended : Extended sb s s' 0 inum) : din'.type = din.type ∧ din'.nlink = din.nlink ∧ din'.size = din.size := by
  obtain ⟨addrs, entry⟩ := extended.entry 0
  rw [later.entry, viewed.entry] at entry
  exact ⟨congrArg Inode.type entry, congrArg Inode.nlink entry, congrArg Inode.size entry⟩

/-- The inode with its new size when both sides have written it. -/
structure Sized (m' : Image) (inum size : Nat) (din : Dinode) (s : State) : Prop where
  room : Room m'
  sound : Sound sb (closed m')
  dinode : (dinode sb (closed m') inum).Same { din with size }
  dinodes : ∀ j, j < ninodes → j ≠ inum → (Fs.dinode sb (closed m') j).Same (Fs.dinode sb s j)
  pointers : ∀ p, pointer sb (closed m') p = pointer sb s p
  contents : ∀ j, content sb (closed m') j = content sb s j

/-- The program writes back an inode as the kernel does, and the kernel lets go of it. -/
theorem winode_sized (viewed : Viewed m inum din s) (sound : Sound sb s) (inside : inum < ninodes) {size : Nat} (type : din.type < 2 ^ 16)
    (nlink : din.nlink < 2 ^ 16) (small : size < 2 ^ 32) :
    ∃ m', winode m inum { din with size } = .ok m' ∧ m'.freeinode = m.freeinode ∧ m'.freeblock = m.freeblock ∧ Sized m' inum size din s := by
  obtain ⟨m', wrote, inodes, blocks, final⟩ := winode_viewed viewed inside size
  have saved : Saved sb s (iupdate sb (s.setInode 0 (opened inum { din with size })) 0) 0 inum (opened inum { din with size }) := by
    apply save sound viewed.live
    · rw [viewed.entry]
      rfl
    · rw [viewed.entry]
      rfl
    · rw [viewed.entry]
      rfl
    · rw [viewed.entry]
      rfl
  generalize iupdate sb (s.setInode 0 (opened inum { din with size })) 0 = written at final saved
  have agree : (dinode sb written inum).Same { din with size } := by
    refine saved.own.trans ⟨?_, ?_, ?_, fun k slot => ?_⟩
    · exact Nat.mod_eq_of_lt type
    · exact Nat.mod_eq_of_lt nlink
    · exact Nat.mod_eq_of_lt small
    · have fits := sound.addr_mod viewed.live slot
      rwa [viewed.entry] at fits
  obtain ⟨good, reads, pointers⟩ := closing final saved.sound agree
  refine ⟨m', wrote, inodes, blocks, final.room, good, ?_, ?_, fun q => (pointers q).trans (saved.pointers q), ?_⟩
  · rw [dinode_congr (reads _)]
    exact agree
  · intro j bounded apart
    rw [dinode_congr (reads _)]
    exact saved.others j bounded apart
  · intro j
    rw [← saved.content j]
    funext x
    rw [Fs.content, Fs.content, pointers, reads]

/-- The bytes that the program appends to an inode are written as the kernel writes them. -/
theorem iappend_appended (room : Room m) (sound : Sound sb (closed m)) (inside : inum < ninodes)
    (small : (dinode sb (closed m) inum).size + n ≤ maxfile * bsize)
    (enough : Enough sb (closed m) inum (reach (dinode sb (closed m) inum).size n)) :
    ∃ m', iappend m inum p n = .ok m' ∧ Appended m m' inum p n := by
  have whole : maxfile * bsize = 274432 := rfl
  obtain ⟨kept, still⟩ := opening_sound sound inside
  have viewed : Viewed m inum (dinode sb (closed m) inum) (opening m inum) := opening_viewed room
  have live := viewed.live
  generalize read : dinode sb (closed m) inum = din at small enough viewed
  have paths (x : Nat) (low : din.size ≤ x) (high : x < din.size + (n - 0)) :
      x / bsize < maxfile ∧ path (x / bsize) ⊆ reach din.size n := by
    have bounded : x < maxfile * bsize := by omega
    exact ⟨Nat.div_lt_of_lt_mul (by rwa [Nat.mul_comm]), path_subset_reach low (by omega) bounded⟩
  have loop : ∃ result, writeLoop sb 0 p none n n (opening m inum) 0 din.size = .ok result :=
    writeLoop_total kept live (still.enough enough) paths
  obtain ⟨⟨count, last, mid⟩, done⟩ := loop
  obtain ⟨moved, counted, writes⟩ := writeLoop_writes kept live done
  obtain ⟨rfl, bytes, -⟩ := writes (fun _ absent => absurd absent (by simp)) (Nat.zero_le n) (by omega)
  obtain ⟨-, -, ended⟩ := counted (Nat.zero_le count)
  rw [Nat.sub_zero] at ended bytes
  subst ended
  obtain ⟨m1, din1, appended, later⟩ := appendLoop_viewed viewed kept done
  obtain ⟨type, nlink, size⟩ := viewed.fields later moved.extended
  have bounds : din.type < 2 ^ 16 ∧ din.nlink < 2 ^ 16 := read ▸ getDinode_lt _ _
  obtain ⟨m', wrote, inodes, blocks, sized⟩ := winode_sized later moved.sound inside (type ▸ bounds.1) (nlink ▸ bounds.2)
    (by omega : din.size + count < 2 ^ 32)
  refine ⟨m', ?_, ?_⟩
  · rw [iappend, rinode_closed m inside, read]
    show (appendLoop p count count m din 0 din.size >>= _) = _
    rw [appended]
    exact wrote
  · constructor
    · exact sized.room
    · exact sized.sound
    · rw [inodes, appendLoop_freeinode appended]
    · rw [sized.contents, bytes, still.content, read]
      simp only [Nat.zero_add]
    · intro j apart
      rw [sized.contents, moved.others j apart, still.content]
    · rw [sized.dinode.type, type, read]
    · rw [sized.dinode.size, read]
    · intro j bounded apart
      have kept' := sized.dinodes j bounded apart
      rw [moved.extended.dinodes j bounded, dinode_congr (still.bread _)] at kept'
      exact kept'
    · intro k
      rw [sized.pointers, writeLoop_places kept live (Nat.zero_le _) (by omega) done, still.pointer, read, Nat.sub_zero]
    · intro q apart
      rw [sized.pointers, moved.extended.others q apart, still.pointer]
    · have before := card_free_opening inum room
      have after := card_free_final later.disk later.clean later.room
      have gains := moved.extended.card_free moved.sound
      have equal : gained sb (closed m) (closed m') inum = gained sb (opening m inum) mid inum := by
        apply Finset.filter_congr
        intro k _
        rw [sized.pointers, still.pointer]
      have low := room.below
      have high := later.room.below
      rw [equal, blocks]
      omega

end BtbuOs.Nfs
