import BtbuOs.Nfs.Appending

namespace BtbuOs.Nfs

open Bytes Fs Machine Ownership State

variable {m mid m' : Image} {inum n k b i j off len kind : Nat} {p data other : Memory} {reads : List Nat}

/-- The inode has the type and the bytes of a file without holes, and nothing behind them. -/
structure Stored (m : Image) (inum kind : Nat) (data : Memory) (len : Nat) : Prop where
  type : (dinode sb (closed m) inum).type = kind
  size : (dinode sb (closed m) inum).size = len
  bytes : ∀ x, content sb (closed m) inum x = if x < len then data x else 0
  places : ∀ k, pointer sb (closed m) (inum, k) ≠ 0 ↔ k < blockCount len

/-- Only one inode has changed. -/
structure Elsewhere (m m' : Image) (inum : Nat) : Prop where
  dinodes : ∀ j, j < ninodes → j ≠ inum → (dinode sb (closed m') j).Same (dinode sb (closed m) j)
  contents : ∀ j, j ≠ inum → content sb (closed m') j = content sb (closed m) j
  pointers : ∀ p, p.1 ≠ inum → pointer sb (closed m') p = pointer sb (closed m) p

theorem Elsewhere.refl (m : Image) (inum : Nat) : Elsewhere m m inum :=
  ⟨fun _ _ _ => Dinode.Same.refl _, fun _ _ => rfl, fun _ _ => rfl⟩

theorem Elsewhere.trans (first : Elsewhere m mid inum) (second : Elsewhere mid m' inum) : Elsewhere m m' inum :=
  ⟨fun j inside apart => (second.dinodes j inside apart).trans (first.dinodes j inside apart),
    fun j apart => (second.contents j apart).trans (first.contents j apart),
    fun p apart => (second.pointers p apart).trans (first.pointers p apart)⟩

theorem Appended.elsewhere (appended : Appended m m' inum p n) : Elsewhere m m' inum :=
  ⟨appended.dinodes, appended.others, appended.pointers⟩

/-- A file stays as it is when another inode changes. -/
theorem Stored.keep (stored : Stored m j kind data len) (frame : Elsewhere m m' inum) (inside : j < ninodes) (apart : j ≠ inum) :
    Stored m' j kind data len := by
  have same := frame.dinodes j inside apart
  constructor
  · rw [same.type, stored.type]
  · rw [same.size, stored.size]
  · rw [frame.contents j apart]
    exact stored.bytes
  · intro k
    rw [frame.pointers (j, k) apart]
    exact stored.places k

theorem Stored.congr (stored : Stored m inum kind data len) (same : ∀ x, x < len → other x = data x) : Stored m inum kind other len := by
  refine ⟨stored.type, stored.size, fun x => ?_, stored.places⟩
  rw [stored.bytes]
  split
  · rename_i below
    rw [same x below]
  · rfl

theorem blockCount_mono {less more : Nat} (le : less ≤ more) : blockCount less ≤ blockCount more := by
  unfold blockCount ndirect bsize
  split <;> split <;> omega

/-- The blocks that an append needs are those that the longer file has more. -/
theorem Stored.enough (stored : Stored m inum kind data len) (room : Room m)
    (left : m.freeblock + blockCount (len + n) ≤ fssize + blockCount len) : Enough sb (closed m) inum (reach len n) := by
  have subset : vacant sb (closed m) inum (reach len n) ⊆ Finset.Ico (blockCount len) (blockCount (len + n)) := by
    intro k member
    rw [vacant, Finset.mem_filter, reach, Finset.mem_biUnion] at member
    obtain ⟨⟨bn, inside, found⟩, empty⟩ := member
    rw [Finset.mem_filter] at inside
    rw [Finset.mem_Ico, ← covers_zero]
    constructor
    · by_contra low
      exact (stored.places k).mpr (Nat.not_le.mp low) empty
    · refine ⟨bn * bsize, Nat.zero_le _, by omega, ?_⟩
      rwa [Nat.mul_div_cancel bn (by decide)]
  have count := Finset.card_le_card subset
  rw [Nat.card_Ico] at count
  have mono := blockCount_mono (Nat.le_add_right len n)
  rw [Enough, card_free_final rfl (closed_clean m) room]
  omega

/-- Bytes that are appended to a file are behind the bytes that it had. -/
theorem Stored.append (stored : Stored m inum kind data len) (appended : Appended m m' inum p n)
    (same : ∀ x, x < n → p x = data (len + x)) :
    Stored m' inum kind data (len + n) ∧ m'.freeblock + blockCount len = m.freeblock + blockCount (len + n) := by
  have places (k : Nat) : pointer sb (closed m') (inum, k) ≠ 0 ↔ k < blockCount (len + n) := by
    rw [appended.places, stored.places, stored.size, ← covers_zero, ← covers_zero, covers_add, Nat.zero_add]
  constructor
  · constructor
    · rw [appended.type, stored.type]
    · rw [appended.size, stored.size]
    · intro x
      rw [appended.content, stored.size]
      by_cases inside : len ≤ x ∧ x < len + n
      · have index : len + (x - len) = x := by omega
        rw [splice_inside _ _ inside.1 inside.2, same _ (by omega), if_pos inside.2, index]
      · rw [splice_outside _ _ (by omega), stored.bytes]
        by_cases below : x < len
        · rw [if_pos below, if_pos (by omega)]
        · rw [if_neg below, if_neg (by omega)]
    · exact places
  · have gains : gained sb (closed m) (closed m') inum = Finset.Ico (blockCount len) (blockCount (len + n)) := by
      ext k
      rw [mem_gained, Finset.mem_Ico, places]
      have before := stored.places k
      constructor
      · rintro ⟨empty, below⟩
        exact ⟨Nat.not_lt.mp fun low => before.mpr low empty, below⟩
      · rintro ⟨above, below⟩
        exact ⟨by_contra fun nonzero => absurd (before.mp nonzero) (Nat.not_lt.mpr above), below⟩
    have mono := blockCount_mono (Nat.le_add_right len n)
    rw [appended.count, gains, Nat.card_Ico]
    omega

/-- The image can be read by the kernel. -/
structure Good (m : Image) : Prop where
  room : Room m
  sound : Sound sb (closed m)

/-- The rounds over the calls of `read` append the whole file. -/
theorem appendReads_stored (inside : inum < ninodes) (good : Good m) (stored : Stored m inum kind data off)
    (small : off + reads.sum ≤ maxfile * bsize) (left : m.freeblock + blockCount (off + reads.sum) ≤ fssize + blockCount off) :
    ∃ m', appendReads inum data reads m off = .ok m' ∧ Good m' ∧ Elsewhere m m' inum ∧ m'.freeinode = m.freeinode ∧
      Stored m' inum kind data (off + reads.sum) ∧ m'.freeblock + blockCount off = m.freeblock + blockCount (off + reads.sum) := by
  induction reads generalizing m off with
  | nil => exact ⟨m, rfl, good, Elsewhere.refl m inum, rfl, stored, rfl⟩
  | cons cc reads ih =>
      rw [List.sum_cons, ← Nat.add_assoc] at small left ⊢
      have mono := blockCount_mono (Nat.le_add_right (off + cc) reads.sum)
      have first := stored.enough (n := cc) good.room (by omega)
      rw [← stored.size] at first
      obtain ⟨mid, done, appended⟩ := iappend_appended (p := fun k => data (off + k)) good.room good.sound inside
        (by rw [stored.size]; omega) first
      obtain ⟨longer, count⟩ := stored.append appended fun _ _ => rfl
      obtain ⟨m', rest, last, frame, inodes, whole, total⟩ := ih ⟨appended.room, appended.sound⟩ longer small (by omega)
      refine ⟨m', ?_, last, appended.elsewhere.trans frame, inodes.trans appended.freeinode, whole, by omega⟩
      rw [appendReads, done]
      exact rest

end BtbuOs.Nfs
