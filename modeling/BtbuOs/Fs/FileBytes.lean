import BtbuOs.Fs.Namei

namespace BtbuOs.Fs

open Bytes Ownership State

variable {sb : Superblock} {s mid after : State} {ip iq : InodeIx} {i j k b n off : Nat} {room : Room} {src dst data : Memory}

/-- Every released buffer holds what its block on the disk has. -/
def Clean (s : State) : Prop := ∀ b, s.unwritten b = none

/-- A buffer that is recycled changes nothing when it holds what the disk has. -/
theorem Clean.recycle (clean : Clean s) (b : Nat) : s.recycle b = s := by
  rw [State.recycle, ← clean b, Function.update_eq_self]

/-- The number of bytes from an offset on that a read of `n` bytes gives. -/
def available (s : State) (ip : InodeIx) (off n : Nat) : Nat := min n ((s.itable ip).size - off)

/-- A read of a range that starts in the file, ends inside the largest file and does not wrap gives the bytes of the data up to the end of the file. -/
def Reads (sb : Superblock) (s : State) (ip : InodeIx) (i : Nat) (data : Memory) : Prop :=
  ∀ room dst off n, off ≤ (s.itable ip).size → off + n < 2 ^ 32 → off + available s ip off n ≤ maxfile * bsize →
    fits room (available s ip off n) → Enough sb s i (reach off (available s ip off n)) →
      ∃ after, readi sb s ip room dst off n = .ok (available s ip off n,
        splice dst 0 (available s ip off n) fun k => data (off + k), after) ∧ Grown sb s after ip i ∧ Clean after

/-- With enough free blocks a read does not panic. -/
theorem readi_total (room : Room) (dst : Memory) (sound : Sound sb s) (live : Live s ip i) (inside : off ≤ (s.itable ip).size) (small : off + n < 2 ^ 32)
    (range : off + available s ip off n ≤ maxfile * bsize) (enough : Enough sb s i (reach off (available s ip off n))) :
    ∃ result, readi sb s ip room dst off n = .ok result := by
  have wraps : ¬(off > (s.itable ip).size ∨ (off + n) % 2 ^ 32 < off) := by
    rw [Nat.mod_eq_of_lt small]
    omega
  have count : (if off + n > (s.itable ip).size then (s.itable ip).size - off else n) = available s ip off n := by
    rw [available]
    split <;> omega
  rw [readi, if_neg wraps]
  dsimp only
  rw [count]
  apply readLoop_total sound live enough
  intro x low high
  rw [Nat.sub_zero] at high
  have bounded : x < maxfile * bsize := by omega
  exact ⟨Nat.div_lt_of_lt_mul (by rwa [Nat.mul_comm]), path_subset_reach low high bounded⟩

/-- An inode in memory reads as the bytes of its blocks. -/
theorem reads_content (sound : Sound sb s) (clean : Clean s) (live : Live s ip i) : Reads sb s ip i (content sb s i) := by
  intro room dst off n inside small range fit enough
  obtain ⟨⟨value, data, after⟩, done⟩ := readi_total room dst sound live inside small range enough
  obtain ⟨result, bytes⟩ := readi_reads sound live inside small fit done
  obtain ⟨-, grown⟩ := readi_grown sound live done
  refine ⟨after, ?_, grown, fun b => grown.written b (clean b)⟩
  rw [done, result, bytes]
  rfl

/-- With enough free blocks a write inside the largest file does not panic. -/
theorem writei_total (src : Memory) (room : Room) (sound : Sound sb s) (live : Live s ip i) (inside : off ≤ (s.itable ip).size)
    (small : off + n ≤ maxfile * bsize) (enough : Enough sb s i (reach off n)) :
    ∃ (count : Nat) (after : State), writei sb s ip src room off n = .ok (count, after) := by
  have whole : maxfile * bsize = 274432 := rfl
  have word : (off + n) % 2 ^ 32 = off + n := Nat.mod_eq_of_lt (by omega)
  have wraps : ¬(off > (s.itable ip).size ∨ (off + n) % 2 ^ 32 < off) := by omega
  have large : ¬(off + n) % 2 ^ 32 > maxfile * bsize := by omega
  have paths (x : Nat) (low : off ≤ x) (high : x < off + (n - 0)) : x / bsize < maxfile ∧ path (x / bsize) ⊆ reach off n := by
    have bounded : x < maxfile * bsize := by omega
    exact ⟨Nat.div_lt_of_lt_mul (by rwa [Nat.mul_comm]), path_subset_reach low (by omega) bounded⟩
  have total : ∃ result, writeLoop sb ip src room n n s 0 off = .ok result := writeLoop_total sound live enough paths
  obtain ⟨⟨count, last, mid⟩, done⟩ := total
  rw [writei, if_neg wraps, if_neg large, done]
  exact ⟨count, _, rfl⟩

/-- What a write of the bytes of a source into an inode does, as the reads see it. -/
structure Written (sb : Superblock) (s after : State) (ip : InodeIx) (i : Nat) (src : Memory) (off n : Nat) : Prop where
  sound : Sound sb after
  clean : Clean after
  live : ∀ iq j, Live after iq j ↔ Live s iq j
  size : (after.itable ip).size = max (s.itable ip).size (off + n)
  before : Reads sb s ip i (content sb s i)
  reads : Reads sb after ip i (splice (content sb s i) off n src)
  table : ∀ iq, iq ≠ ip → after.itable iq = s.itable iq
  others : ∀ iq j, j ≠ i → Live s iq j → Reads sb s iq j (content sb s j) ∧ Reads sb after iq j (content sb s j)
  stored : ∀ j, j < sb.ninodes → j ≠ i → (dinode sb after j).Same (dinode sb s j) ∧ content sb after j = content sb s j
  marks : ∀ b, b < sb.size → (inUse sb after b = true ↔
    inUse sb s b = true ∨ b ≠ 0 ∧ ∃ k, pointer sb s (i, k) = 0 ∧ pointer sb after (i, k) = b)

/-- The entries of other inodes stay as they are. -/
theorem Saved.entry {inode : Inode} (saved : Saved sb mid after ip i inode) (moved : Moved sb s mid ip i) (apart : iq ≠ ip) :
    after.itable iq = s.itable iq := by
  obtain ⟨addrs, table⟩ := moved.extended.table
  rw [saved.table, Function.update_of_ne apart, table, Function.update_of_ne apart]

/-- The entry that was written has its new size. -/
theorem Saved.size {last : Nat} (saved : Saved sb mid after ip i ((mid.itable ip).reaching last)) (moved : Moved sb s mid ip i) :
    after.itable ip = (mid.itable ip).reaching last ∧ (after.itable ip).size = max (s.itable ip).size last := by
  obtain ⟨addrs, entry⟩ := moved.extended.entry ip
  have own : after.itable ip = (mid.itable ip).reaching last := by rw [saved.table, Function.update_self]
  refine ⟨own, ?_⟩
  rw [own, entry]
  rfl

theorem Saved.live {last : Nat} (saved : Saved sb mid after ip i ((mid.itable ip).reaching last)) (moved : Moved sb s mid ip i)
    (iq : InodeIx) (j : Nat) : Live after iq j ↔ Live s iq j := by
  rw [← moved.extended.live iq j]
  by_cases own : iq = ip
  · rw [own, Live, Live, (saved.size moved).1]
    rfl
  · rw [Live, Live, saved.table, Function.update_of_ne own]

/-- The free map changes only where the inode got a block. -/
theorem Saved.marks_given {inode : Inode} (saved : Saved sb mid after ip i inode) (moved : Moved sb s mid ip i) (inside : b < sb.size) :
    inUse sb after b = true ↔ inUse sb s b = true ∨ b ≠ 0 ∧ ∃ k, pointer sb s (i, k) = 0 ∧ pointer sb after (i, k) = b := by
  rw [saved.marks, moved.extended.marks b inside]
  constructor
  · rintro (old | ⟨nonzero, ⟨j, k⟩, empty, same⟩)
    · exact Or.inl old
    · by_cases own : j = i
      · subst own
        exact Or.inr ⟨nonzero, k, empty, (saved.pointers _).trans same⟩
      · rw [moved.extended.others _ own] at same
        exact absurd (same.symm.trans empty) nonzero
  · rintro (old | ⟨nonzero, k, empty, same⟩)
    · exact Or.inl old
    · exact Or.inr ⟨nonzero, (i, k), empty, (saved.pointers _).symm.trans same⟩

/-- A write whose source can be copied returns its length, and every later read sees the file as the old bytes with the range replaced and the other files as they were. -/
theorem writei_refines (sb : Superblock) (s : State) (ip : InodeIx) (i : Nat) (src : Memory) (room : Room) (off n : Nat)
    (sound : Sound sb s) (clean : Clean s) (live : Live s ip i) (inside : off ≤ (s.itable ip).size)
    (small : off + n ≤ maxfile * bsize) (fit : fits room n) (enough : Enough sb s i (reach off n)) :
    ∃ after, writei sb s ip src room off n = .ok (n, after) ∧ Written sb s after ip i src off n := by
  obtain ⟨total, after, done⟩ := writei_total src room sound live inside small enough
  rcases writei_saved sound live done with ⟨refused, -⟩ | ⟨-, count, mid, same, -, moved, saved, writes⟩
  · omega
  · obtain ⟨rfl, bytes, written⟩ := writes fit
    have whole : total = count := by omega
    subst whole
    have fresh (b : Nat) : after.unwritten b = none := saved.written b (written b (clean b))
    have lives := saved.live moved
    have reads (iq : InodeIx) (j : Nat) (held : Live s iq j) := reads_content saved.sound fresh ((lives iq j).mpr held)
    refine ⟨after, done, ?_⟩
    constructor
    · exact saved.sound
    · exact fresh
    · exact lives
    · exact (saved.size moved).2
    · exact reads_content sound clean live
    · rw [← bytes, ← saved.content i]
      exact reads ip i live
    · exact fun iq apart => saved.entry moved apart
    · intro iq j apart held
      refine ⟨reads_content sound clean held, ?_⟩
      rw [← moved.others j apart, ← saved.content j]
      exact reads iq j held
    · intro j bounded apart
      refine ⟨?_, (saved.content j).trans (moved.others j apart)⟩
      rw [← moved.extended.dinodes j bounded]
      exact saved.others j bounded apart
    · exact fun b bounded => saved.marks_given moved bounded

/-- A volume of eight blocks with two inodes. -/
def smallVolume : Superblock := { size := 8, ninodes := 2, inodestart := 2, bmapstart := 3 }

/-- The disk has only the marks of the four metadata blocks in its free map. -/
def smallDisk : Nat → Memory := Function.update (fun _ _ => 0) 3 (Function.update (fun _ => 0) 0 15)

/-- The inode 1 is in memory, with two bytes that no block holds. -/
def smallState : State where
  disk := smallDisk
  unwritten := fun _ => none
  itable := Function.update (fun _ => idleInode) 0
    { inum := 1, ref := 1, valid := true, type := tFile, nlink := 1, size := 2, addrs := fun _ => 0 }
  taken := []

/-- A state without pointers whose metadata is marked meets the invariant. -/
theorem sound_of_empty (valid : sb.Valid) (unique : Unique s) (inside : ∀ ip i, Live s ip i → i < sb.ninodes)
    (positive : 0 < dataStart sb) (memory : ∀ ip k, (s.itable ip).addrs k = 0)
    (disk : ∀ i, i < sb.ninodes → ∀ k, k ≤ ndirect → (dinode sb s i).addrs k = 0)
    (reserved : ∀ b, b < dataStart sb → b < sb.size → inUse sb s b = true) (clean : Clean s) (taken : s.taken = []) : Sound sb s := by
  have slots (i : Nat) (bounded : i < sb.ninodes) (k : Nat) (slot : k ≤ ndirect) : addr sb s i k = 0 := by
    rcases live_or_idle s i with ⟨ip, live⟩ | idle
    · rw [addr_live sb unique live, memory]
    · rw [addr_idle idle, disk i bounded k slot]
  have pointers (p : Place) : pointer sb s p = 0 := by
    unfold pointer
    split
    · rename_i bounded
      split
      · rename_i slot
        exact slots p.1 bounded.1 p.2 slot
      · rw [entry, slots p.1 bounded.1 ndirect (Nat.le_refl _), if_pos rfl]
    · rfl
  constructor
  · exact valid
  · exact unique
  · exact inside
  · intro ip i live k slot nonzero
    exact absurd (disk i (inside ip i live) k slot) nonzero
  · constructor
    · exact positive
    · exact fun p q nonzero => absurd (pointers p) nonzero
    · exact fun p nonzero => absurd (pointers p) nonzero
    · exact fun p nonzero => absurd (pointers p) nonzero
    · exact fun p nonzero => absurd (pointers p) nonzero
    · exact reserved
  · exact fun b _ => clean b
  · exact fun i bounded nonzero => absurd (slots i bounded ndirect (Nat.le_refl _)) nonzero
  · rw [taken]
    exact fun call member => absurd member List.not_mem_nil

theorem small_entry (ip : InodeIx) (apart : ip ≠ 0) : (smallState.itable ip).ref = 0 ∧ ∀ k, (smallState.itable ip).addrs k = 0 := by
  show (Function.update (fun _ => idleInode) 0 _ ip).ref = 0 ∧ ∀ k, (Function.update (fun _ => idleInode) 0 _ ip).addrs k = 0
  rw [Function.update_of_ne apart]
  exact ⟨rfl, fun _ => rfl⟩

theorem small_live : Live smallState 0 1 := by decide

theorem small_empty (i : Nat) (bounded : i < smallVolume.ninodes) (k : Nat) : (dinode smallVolume smallState i).addrs k = 0 := by
  have block : iblock smallVolume i = 2 := by
    have few : i < 2 := bounded
    rw [iblock, Nat.div_eq_of_lt (Nat.lt_trans few (by decide))]
    rfl
  rw [dinode, block]
  exact load_zero fun _ _ _ => rfl

theorem small_sound : Sound smallVolume smallState := by
  have held (ip : InodeIx) (positive : 0 < (smallState.itable ip).ref) : ip = 0 := by
    by_contra apart
    rw [(small_entry ip apart).1] at positive
    exact absurd positive (Int.lt_irrefl 0)
  apply sound_of_empty
  · exact ⟨by decide, by decide⟩
  · exact fun ip iq first second _ => (held ip first).trans (held iq second).symm
  · intro ip i live
    have own := held ip live.1
    rw [own] at live
    rw [← live.2.2]
    decide
  · decide
  · intro ip k
    by_cases own : ip = 0
    · rw [own]
      rfl
    · exact (small_entry ip own).2 k
  · exact fun i bounded k _ => small_empty i bounded k
  · decide
  · exact fun _ => rfl
  · rfl

theorem small_enough {ks : Finset Nat} (few : ks.card ≤ 4) : Enough smallVolume smallState 1 ks := by
  have blocks : (free smallVolume smallState).card = 4 := by decide +kernel
  rw [Enough, blocks]
  exact Nat.le_trans (Finset.card_filter_le _ _) few

theorem card_reach (small : off + n ≤ bsize) : (reach off n).card ≤ 1 := by
  have subset : reach off n ⊆ {0} := by
    intro k member
    rw [reach, Finset.mem_biUnion] at member
    obtain ⟨bn, inside, found⟩ := member
    rw [Finset.mem_filter] at inside
    have first : bn = 0 := by
      by_contra later
      have above := Nat.mul_le_mul_right bsize (Nat.pos_of_ne_zero later)
      omega
    subst first
    exact found
  exact Finset.card_le_card subset

theorem writei_refines_small : ∃ after,
    writei smallVolume smallState 0 (fun k => BitVec.ofNat 8 (65 + k)) none 1 3 = .ok (3, after) ∧
      Written smallVolume smallState after 0 1 (fun k => BitVec.ofNat 8 (65 + k)) 1 3 :=
  writei_refines smallVolume smallState 0 1 _ none 1 3 small_sound (fun _ => rfl) small_live (by decide) (by decide)
    (fun _ absent => absurd absent (by simp)) (small_enough (Nat.le_trans (card_reach (by decide)) (by decide)))

/-- A write whose copy stops after one byte, an empty write and two reads, before and after the buffer of the block is recycled. -/
def tornRun : Except String (State × State × Memory × Memory) := do
  let (_, torn) ← writei smallVolume smallState 0 (fun _ => 65) (some 1) 0 2
  let (_, after) ← writei smallVolume torn 0 (fun _ => 0) none 0 0
  let (_, before, _) ← readi smallVolume torn 0 none (fun _ => 0) 0 2
  let (_, later, _) ← readi smallVolume (after.recycle 4) 0 none (fun _ => 0) 0 2
  .ok (torn, after, before, later)

/-- A read whose end wraps around 32 bits gives nothing, although a byte of the file is left; and a byte that only the buffer of a failed write has is lost with the buffer. -/
theorem wrapped_and_torn : (Sound smallVolume smallState ∧ Clean smallState ∧ Live smallState 0 1 ∧ 1 ≤ (smallState.itable 0).size ∧
    Enough smallVolume smallState 1 (reach 1 (available smallState 0 1 (2 ^ 32 - 1))) ∧ available smallState 0 1 (2 ^ 32 - 1) = 1 ∧
      readi smallVolume smallState 0 none (fun _ => 0) 1 (2 ^ 32 - 1) = .ok (0, fun _ => 0, smallState)) ∧
    ∃ torn after before later, tornRun = .ok (torn, after, before, later) ∧ Sound smallVolume torn ∧ Live torn 0 1 ∧
      before 0 = 65 ∧ later 0 = 0 := by
  refine ⟨⟨small_sound, fun _ => rfl, small_live, by decide, ?_, by decide, ?_⟩, ?_⟩
  · exact small_enough (Nat.le_trans (card_reach (by decide)) (by decide))
  · rw [readi, if_pos (by decide)]
  · have tested : (tornRun.toOption.any fun run => run.2.2.1 0 == 65 && run.2.2.2 0 == 0) = true := by decide +kernel
    obtain ⟨⟨torn, after, before, later⟩, ran, bytes⟩ := (Option.any_eq_true ..).mp tested
    have done := Machine.toOption_some.mp ran
    rw [Bool.and_eq_true, beq_iff_eq, beq_iff_eq] at bytes
    obtain ⟨⟨value, first⟩, wrote, rest⟩ := Machine.bind_ok.mp done
    obtain ⟨⟨_, second⟩, -, rest⟩ := Machine.bind_ok.mp rest
    obtain ⟨⟨_, old, _⟩, -, rest⟩ := Machine.bind_ok.mp rest
    obtain ⟨⟨_, new, _⟩, -, rest⟩ := Machine.bind_ok.mp rest
    cases rest
    have kept : Sound smallVolume torn ∧ Live torn 0 1 := by
      rcases writei_saved small_sound small_live wrote with ⟨-, rfl⟩ | ⟨-, count, mid, -, -, moved, saved, -⟩
      · exact ⟨small_sound, small_live⟩
      · exact ⟨saved.sound, (saved.live moved 0 1).mpr small_live⟩
    exact ⟨torn, after, before, later, done, kept.1, kept.2, bytes⟩

end BtbuOs.Fs
