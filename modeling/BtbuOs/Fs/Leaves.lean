import BtbuOs.Fs.Filling
import BtbuOs.Fs.Namei

namespace BtbuOs.Fs

open Bytes Machine Ownership State Slots

variable {sb : Superblock} {s mid after : State} {dp ip iq : InodeIx} {d i k : Nat}

/-- The blocks of data stay, and the directory in memory at most gets or loses references. -/
structure Leaves (sb : Superblock) (s after : State) (dp : InodeIx) : Prop where
  sound : Sound sb after
  entry : ∃ ref : Int, 0 < ref ∧ after.itable dp = { s.itable dp with ref }
  data : ∀ b, dataStart sb ≤ b → after.bread b = s.bread b

/-- Besides, no block is taken or freed. -/
structure Spares (sb : Superblock) (s after : State) (dp : InodeIx) : Prop where
  leaves : Leaves sb s after dp
  marks : ∀ b, b < sb.size → inUse sb after b = inUse sb s b

theorem Leaves.trans (first : Leaves sb s mid dp) (second : Leaves sb mid after dp) : Leaves sb s after dp := by
  obtain ⟨_, _, one⟩ := first.entry
  obtain ⟨ref, positive, two⟩ := second.entry
  refine ⟨second.sound, ⟨ref, positive, ?_⟩, fun b above => (second.data b above).trans (first.data b above)⟩
  rw [two, one]

theorem Spares.trans (first : Spares sb s mid dp) (second : Spares sb mid after dp) : Spares sb s after dp :=
  ⟨first.leaves.trans second.leaves, fun b inside => (second.marks b inside).trans (first.marks b inside)⟩

theorem Leaves.live (leaves : Leaves sb s after dp) (live : Live s dp d) : Live after dp d := by
  obtain ⟨ref, positive, entry⟩ := leaves.entry
  rw [Live, entry]
  exact ⟨positive, live.2⟩

theorem Leaves.pointer (leaves : Leaves sb s after dp) (sound : Sound sb s) (live : Live s dp d) (k : Nat) :
    pointer sb after (d, k) = pointer sb s (d, k) := by
  obtain ⟨_, _, entry⟩ := leaves.entry
  have slots (j : Nat) : addr sb after d j = addr sb s d j := by
    rw [addr_live sb leaves.sound.unique (leaves.live live), addr_live sb sound.unique live, entry]
  have table (j : Nat) : Fs.entry sb after d j = Fs.entry sb s d j := by
    rw [Fs.entry, Fs.entry, slots]
    split
    · rfl
    · rename_i busy
      have inside := sound.inside dp d live
      rw [leaves.data _ (sound.addr_below inside (Nat.le_refl _) busy).1]
  rw [Fs.pointer, Fs.pointer, slots, table]

theorem Leaves.content (leaves : Leaves sb s after dp) (sound : Sound sb s) (live : Live s dp d) : content sb after d = content sb s d := by
  funext x
  rw [Fs.content, Fs.content, leaves.pointer sound live]
  split
  · rfl
  · rename_i busy
    rw [leaves.data _ (sound.owned.above _ busy)]

/-- The directory in memory has its old bytes. -/
structure Keeps (sb : Superblock) (s after : State) (dp : InodeIx) (d : Nat) : Prop where
  listed : Listed sb after dp d
  content : content sb after d = content sb s d
  size : (after.itable dp).size = (s.itable dp).size

theorem Keeps.trans (first : Keeps sb s mid dp d) (second : Keeps sb mid after dp d) : Keeps sb s after dp d :=
  ⟨second.listed, second.content.trans first.content, second.size.trans first.size⟩

theorem Keeps.entries (keeps : Keeps sb s after dp d) : entries sb after dp d = entries sb s dp d := by
  rw [Fs.entries, Fs.entries, keeps.content, keeps.size]

theorem Leaves.keeps (leaves : Leaves sb s after dp) (listed : Listed sb s dp d) : Keeps sb s after dp d := by
  obtain ⟨_, _, entry⟩ := leaves.entry
  have size : (after.itable dp).size = (s.itable dp).size := by rw [entry]
  have content := leaves.content listed.sound listed.live
  have same : Fs.entries sb after dp d = Fs.entries sb s dp d := by rw [Fs.entries, Fs.entries, content, size]
  refine ⟨⟨leaves.sound, leaves.live listed.live, ?_, ?_, ?_, ?_⟩, content, size⟩
  · rw [entry]
    exact listed.directory
  · rw [size]
    exact listed.whole
  · rw [size]
    exact listed.small
  · rw [same]
    exact listed.unique

theorem keeps_grown (listed : Listed sb s dp d) (sound : Sound sb after) (grown : Grown sb s after dp d) : Keeps sb s after dp d := by
  obtain ⟨next, -, entry⟩ := listed.grown sound grown
  exact ⟨next, grown.content d, by rw [entry]⟩

theorem Spares.enough (spares : Spares sb s after dp) (sound : Sound sb s) (live : Live s dp d) (ks : Finset Nat) :
    Enough sb after d ks ↔ Enough sb s d ks := by
  have blocks : free sb after = free sb s := Finset.filter_congr fun b member => by rw [spares.marks b (Finset.mem_range.mp member)]
  have places : vacant sb after d ks = vacant sb s d ks := Finset.filter_congr fun k _ => by rw [spares.leaves.pointer sound live]
  rw [Enough, Enough, blocks, places]

/-- A search needs the same blocks as before. -/
theorem Spares.searchable (spares : Spares sb s after dp) (listed : Listed sb s dp d) (name : Memory) :
    Searchable sb after dp d name ↔ Searchable sb s dp d name := by
  have keeps := spares.leaves.keeps listed
  simp only [Searchable, keeps.entries, keeps.size, keeps.content, spares.enough listed.sound listed.live]

theorem Spares.linkable (spares : Spares sb s after dp) (listed : Listed sb s dp d) : Linkable sb after dp d ↔ Linkable sb s dp d := by
  have keeps := spares.leaves.keeps listed
  simp only [Linkable, keeps.entries, keeps.size, spares.enough listed.sound listed.live]

/-- Only entries of the table change, and the directory keeps a reference. -/
theorem spares_of_disk (sound : Sound sb after) (entry : ∃ ref : Int, 0 < ref ∧ after.itable dp = { s.itable dp with ref })
    (bread : ∀ b, after.bread b = s.bread b) : Spares sb s after dp :=
  ⟨⟨sound, entry, fun b _ => bread b⟩, fun _ _ => inUse_congr (bread _)⟩

theorem entry_same (live : Live s dp d) (same : after.itable dp = s.itable dp) :
    ∃ ref : Int, 0 < ref ∧ after.itable dp = { s.itable dp with ref } :=
  ⟨(s.itable dp).ref, live.1, same⟩

/-- The numbers of references to the entries of the table. -/
def refs (s : State) (ip : InodeIx) : Int := (s.itable ip).ref

theorem refs_setInode (s : State) (ip : InodeIx) (inode : Inode) : refs (s.setInode ip inode) = Function.update (refs s) ip inode.ref := by
  funext iq
  by_cases own : iq = ip
  · subst own
    rw [Function.update_self, refs, itable_setInode]
  · rw [Function.update_of_ne own, refs, itable_setInode_of_ne s inode own]
    rfl

/-- The references to an entry that has some change to another number. -/
theorem setRef_spares (sound : Sound sb s) (live : Live s dp d) (held : 0 < (s.itable ip).ref) {ref : Int} (kept : ip = dp → 0 < ref) :
    Spares sb s (s.setRef ip ref) dp := by
  have good : Sound sb (s.setRef ip ref) := sound.setInode rfl (fun _ => held) id rfl
  refine spares_of_disk good ?_ fun _ => rfl
  by_cases own : dp = ip
  · subst own
    exact ⟨ref, kept rfl, by rw [setRef, itable_setInode]⟩
  · exact entry_same live (itable_setInode_of_ne s _ own)

/-- A reference is taken. -/
theorem iget_spares (sound : Sound sb s) (live : Live s dp d) (got : iget s i = .ok (ip, after)) :
    Spares sb s after dp ∧ refs after = Function.update (refs s) ip (refs s ip + 1) := by
  have kept := sound.iget got
  rcases iget_cases got with ⟨held, -, rfl⟩ | ⟨-, unused, rfl⟩
  · exact ⟨setRef_spares sound live held fun _ => Int.lt_add_one_of_le (Int.le_of_lt held), refs_setInode s ip _⟩
  · have apart : dp ≠ ip := by
      rintro rfl
      exact Int.ne_of_gt live.1 unused
    refine ⟨spares_of_disk kept (entry_same live (itable_setInode_of_ne s _ apart)) fun _ => rfl, ?_⟩
    have none : refs s ip = 0 := unused
    rw [refs_setInode, none]
    rfl

/-- A reference of the directory is given back, and one is left. -/
theorem iput_dir (sound : Sound sb s) (live : Live s dp d) (more : 1 < refs s dp) :
    iput sb s dp = .ok (s.setRef dp ((s.itable dp).ref - 1)) ∧ Spares sb s (s.setRef dp ((s.itable dp).ref - 1)) dp := by
  have several : 1 < (s.itable dp).ref := more
  refine ⟨?_, setRef_spares sound live live.1 fun _ => by omega⟩
  rw [iput, if_neg]
  rintro ⟨last, -⟩
  omega

/-- A reference is given back, and the directory keeps one. -/
theorem iput_leaves (sound : Sound sb s) (live : Live s dp d) (held : 0 < (s.itable ip).ref) (kept : ip = dp → 1 < refs s dp) :
    ∃ after, iput sb s ip = .ok after ∧ Leaves sb s after dp ∧ refs after = Function.update (refs s) ip (refs s ip - 1) := by
  by_cases final : (s.itable ip).ref = 1 ∧ (s.itable ip).valid = true ∧ (s.itable ip).nlink = 0
  · obtain ⟨last, valid, nlink⟩ := final
    have apart : dp ≠ ip := by
      rintro rfl
      have more : 1 < (s.itable dp).ref := kept rfl
      omega
    obtain ⟨after, done, good, freed⟩ := iput_freed sound ⟨held, valid, rfl⟩ last nlink
    refine ⟨after, done, ⟨good, entry_same live (by rw [freed.table, Function.update_of_ne apart]), freed.data⟩, ?_⟩
    funext iq
    have one : refs s ip = 1 := last
    rw [one, refs, freed.table]
    by_cases own : iq = ip
    · rw [own, Function.update_self, Function.update_self]
      rfl
    · rw [Function.update_of_ne own, Function.update_of_ne own]
      rfl
  · refine ⟨s.setRef ip ((s.itable ip).ref - 1), by rw [iput, if_neg final], ?_, refs_setInode s ip _⟩
    refine (setRef_spares sound live held fun own => ?_).leaves
    have more : 1 < (s.itable dp).ref := kept own
    rw [own]
    omega

/-- An inode in memory goes to the disk. -/
theorem iupdate_spares (sound : Sound sb s) (live : Live s dp d) (other : Live s ip i) : Spares sb s (iupdate sb s ip) dp := by
  have inside : (s.itable ip).inum < sb.ninodes := by
    rw [other.2.2]
    exact sound.inside ip i other
  exact ⟨⟨sound.iupdate other, entry_same live rfl, fun b above => bread_iupdate sound.valid inside above⟩,
    fun b _ => inUse_iupdate sound.valid inside b⟩

/-- A free inode of the disk gets its type. -/
theorem clear_spares (sound : Sound sb s) (live : Live s dp d) (inside : i < sb.ninodes) (type : Nat) :
    Spares sb s (s.bwrite (iblock sb i) (clearDinode (s.bread (iblock sb i)) i type)) dp := by
  have below := iblock_lt sound.valid inside
  have between := bmapstart_lt sb
  refine ⟨⟨sound.clearDinode inside type, entry_same live rfl, fun b above => bread_bwrite_of_ne s _ (by omega)⟩, fun b _ => ?_⟩
  have above := le_bblock sb b
  exact inUse_congr (bread_bwrite_of_ne s _ (by omega))

/-- Another inode loses its content. -/
theorem itrunc_leaves (sound : Sound sb s) (live : Live s dp d) (other : Live s ip i) (apart : dp ≠ ip) :
    ∃ after, itrunc sb s ip = .ok after ∧ Leaves sb s after dp ∧ Live after ip i ∧ (after.itable ip).type = (s.itable ip).type := by
  obtain ⟨after, done, truncated⟩ := itrunc_total sound other
  refine ⟨after, done, ⟨truncated.sound sound other, ?_, truncated.data⟩, (live_truncated truncated.table ip i).mpr other, ?_⟩
  · exact entry_same live (by rw [truncated.table, Function.update_of_ne apart])
  · rw [truncated.table, Function.update_self]
    rfl

end BtbuOs.Fs
