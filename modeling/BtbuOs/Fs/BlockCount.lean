import BtbuOs.Fs.Transfer
import Mathlib.Order.Interval.Finset.Nat

namespace BtbuOs.Fs

open Bytes Ownership State

variable {sb : Superblock} {s mid after : State} {ip : InodeIx} {i j k b bn n tot off size rounds : Nat} {src : Memory}

/-- The number of blocks of a file without holes, with its indirect block. -/
def blockCount (size : Nat) : Nat :=
  if size ≤ ndirect * bsize then (size + bsize - 1) / bsize else (size + bsize - 1) / bsize + 1

/-- The place belongs to the block of one of the bytes from `off` on. -/
def Covers (off n k : Nat) : Prop := ∃ x, off ≤ x ∧ x < off + n ∧ k ∈ path (x / bsize)

theorem covers_zero (size k : Nat) : Covers 0 size k ↔ k < blockCount size := by
  unfold Covers blockCount path ndirect bsize
  constructor
  · rintro ⟨x, -, below, member⟩
    split at member
    · rw [Finset.mem_singleton] at member
      split <;> omega
    · rw [Finset.mem_insert, Finset.mem_singleton] at member
      split <;> omega
  · intro below
    by_cases low : k < 12
    · refine ⟨k * 1024, Nat.zero_le _, ?_, ?_⟩
      · split at below <;> omega
      · rw [Nat.mul_div_cancel k (by decide), if_pos low, Finset.mem_singleton]
    · split at below
      · omega
      · by_cases table : k = 12
        · refine ⟨12 * 1024, Nat.zero_le _, by omega, ?_⟩
          rw [Nat.mul_div_cancel 12 (by decide), if_neg (Nat.lt_irrefl _), table]
          exact Finset.mem_insert_self ..
        · refine ⟨(k - 1) * 1024, Nat.zero_le _, by omega, ?_⟩
          have next : k = k - 1 + 1 := by omega
          rw [Nat.mul_div_cancel (k - 1) (by decide), if_neg (by omega), ← next]
          exact Finset.mem_insert_of_mem (Finset.mem_singleton_self k)

theorem covers_add (off first second k : Nat) : Covers off (first + second) k ↔ Covers off first k ∨ Covers (off + first) second k := by
  constructor
  · rintro ⟨x, low, high, member⟩
    by_cases early : x < off + first
    · exact Or.inl ⟨x, low, early, member⟩
    · exact Or.inr ⟨x, by omega, by omega, member⟩
  · rintro (⟨x, low, high, member⟩ | ⟨x, low, high, member⟩)
    · exact ⟨x, low, by omega, member⟩
    · exact ⟨x, by omega, by omega, member⟩

/-- The bytes of one block need its places. -/
theorem covers_block {m : Nat} (positive : 0 < m) (inside : m ≤ bsize - off % bsize) (k : Nat) : Covers off m k ↔ k ∈ path (off / bsize) := by
  constructor
  · rintro ⟨x, low, high, member⟩
    rwa [block_of_range inside low high] at member
  · exact fun member => ⟨off, Nat.le_refl _, by omega, member⟩

theorem covers_none (off k : Nat) : ¬Covers off 0 k := fun ⟨_, low, high, _⟩ => absurd low (by omega)

/-- No other place changes when a slot gets its block. -/
theorem slotAddr_others (sound : Sound sb s) (live : Live s ip i) (slot : k ≤ ndirect) (done : slotAddr sb s ip k = .ok (b, after))
    {p : Place} (apart : p ≠ (i, k)) : pointer sb after p = pointer sb s p := by
  rcases slotAddr_cases done with ⟨-, -, rfl⟩ | ⟨empty, mid, found, rfl⟩
  · rfl
  · obtain ⟨below, unused, rfl⟩ := balloc_cases found
    rw [(slotAddr_given sound live slot empty below unused).pointers, if_neg apart]

theorem tableAddr_others (sound : Sound sb s) (live : Live s ip i) (small : j < nindirect) (table : addr sb s i ndirect ≠ 0)
    (done : tableAddr sb s (addr sb s i ndirect) j = .ok (b, after)) {p : Place} (apart : p ≠ (i, ndirect + 1 + j)) :
    pointer sb after p = pointer sb s p := by
  rcases tableAddr_cases done with ⟨-, -, rfl⟩ | ⟨empty, mid, found, rfl⟩
  · rfl
  · obtain ⟨below, unused, rfl⟩ := balloc_cases found
    have given : Given sb s _ ip i (ndirect + 1 + j) b := tableAddr_given sound (sound.inside ip i live) small table empty below unused
    rw [given.pointers, if_neg apart]

/-- A block that is mapped has its places, and no other place changes. -/
theorem bmap_places (sound : Sound sb s) (live : Live s ip i) (done : bmap sb s ip bn = .ok (b, after)) (k : Nat) :
    pointer sb after (i, k) ≠ 0 ↔ pointer sb s (i, k) ≠ 0 ∨ k ∈ path bn := by
  have found := bmap_mapped sound live done
  have filled : pointer sb after (i, place bn) ≠ 0 := by
    rw [found.block]
    exact found.nonzero
  have kept (nonzero : pointer sb s (i, k) ≠ 0) : pointer sb after (i, k) ≠ 0 := by rwa [found.grown.extended.kept _ nonzero]
  rcases bmap_cases done with ⟨direct, slot⟩ | ⟨high, small, table, mid, first, rest⟩
  · rw [place, if_pos direct] at filled
    rw [path, if_pos direct, Finset.mem_singleton]
    by_cases own : k = bn
    · rw [own]
      exact ⟨fun _ => Or.inr rfl, fun _ => filled⟩
    · rw [slotAddr_others sound live (Nat.le_of_lt direct) slot fun same => own (Prod.mk.inj same).2]
      simp [own]
  · have tabled := slotAddr_filled sound live (Nat.le_refl _) first
    have still := (tabled.grown.extended.live ip i).mpr live
    have inside := tabled.sound.inside ip i still
    have address : addr sb mid i ndirect = table := by
      rw [← pointer_slot inside (Nat.le_refl _)]
      exact tabled.block
    have nonzero : addr sb mid i ndirect ≠ 0 := by
      rw [address]
      exact tabled.nonzero
    have index : bn + 1 = ndirect + 1 + (bn - ndirect) := by omega
    have root : pointer sb after (i, ndirect) ≠ 0 := by
      have apart : (i, ndirect) ≠ (i, ndirect + 1 + (bn - ndirect)) := fun same => absurd (Prod.mk.inj same).2 (by omega)
      rw [← address] at rest
      rw [tableAddr_others tabled.sound still small nonzero rest apart, tabled.block]
      exact tabled.nonzero
    rw [place, if_neg high] at filled
    rw [path, if_neg high, Finset.mem_insert, Finset.mem_singleton]
    by_cases own : k = ndirect
    · rw [own]
      exact ⟨fun _ => Or.inr (Or.inl rfl), fun _ => root⟩
    · by_cases other : k = bn + 1
      · rw [other]
        exact ⟨fun _ => Or.inr (Or.inr rfl), fun _ => filled⟩
      · rw [← address] at rest
        rw [tableAddr_others tabled.sound still small nonzero rest fun same => other (by rw [index]; exact (Prod.mk.inj same).2),
          slotAddr_others sound live (Nat.le_refl _) first fun same => own (Prod.mk.inj same).2]
        simp [own, other]

/-- A write from a kernel address that completes gives the inode exactly the blocks of its range. -/
theorem writeLoop_places {count last : Nat} (sound : Sound sb s) (live : Live s ip i) (below : tot ≤ n) (above : n ≤ tot + rounds)
    (done : writeLoop sb ip src none n rounds s tot off = .ok (count, last, after)) (k : Nat) :
    pointer sb after (i, k) ≠ 0 ↔ pointer sb s (i, k) ≠ 0 ∨ Covers off (n - tot) k := by
  induction rounds generalizing s tot off with
  | zero =>
      simp only [writeLoop, Except.ok.injEq, Prod.mk.injEq] at done
      obtain ⟨-, -, rfl⟩ := done
      have all : n - tot = 0 := by omega
      rw [all]
      simp [covers_none]
  | succ rounds ih =>
      by_cases more : tot < n
      · obtain ⟨b, mid, mapped, rest⟩ := writeLoop_round more done
        have found := bmap_mapped sound live mapped
        have places := bmap_places sound live mapped k
        have put := put_bwrite found.sound found.block found.nonzero
          (splice (mid.bread b) (off % bsize) (min (n - tot) (bsize - off % bsize)) fun k => src (tot + k))
        have still := (found.grown.extended.live ip i).mpr live
        have size := round_size off more
        generalize min (n - tot) (bsize - off % bsize) = m at rest put size
        obtain ⟨positive, left, inside⟩ := size
        have whole : n - tot = m + (n - (tot + m)) := by omega
        rw [ih put.sound (put.live.mpr still) (by omega) (by omega) rest, put.pointers, places, whole, covers_add,
          covers_block positive inside, or_assoc]
      · rw [writeLoop, if_neg more] at done
        simp only [Except.ok.injEq, Prod.mk.injEq] at done
        obtain ⟨-, -, rfl⟩ := done
        have all : n - tot = 0 := by omega
        rw [all]
        simp [covers_none]

/-- The places of an inode that got a block. -/
def gained (sb : Superblock) (s after : State) (i : Nat) : Finset Nat :=
  (Finset.range (maxfile + 1)).filter fun k => pointer sb s (i, k) = 0 ∧ pointer sb after (i, k) ≠ 0

theorem mem_gained : k ∈ gained sb s after i ↔ pointer sb s (i, k) = 0 ∧ pointer sb after (i, k) ≠ 0 := by
  rw [gained, Finset.mem_filter, Finset.mem_range]
  refine ⟨And.right, fun both => ⟨?_, both⟩⟩
  by_contra large
  have outside : ¬(i < sb.ninodes ∧ k ≤ maxfile) := fun inside => large (Nat.lt_succ_of_le inside.2)
  exact both.2 (if_neg outside)

/-- The blocks that the free map loses are those that the inode gets. -/
theorem Extended.free_eq (extended : Extended sb s after ip i) (sound : Sound sb after) :
    free sb s = free sb after ∪ (gained sb s after i).image fun k => pointer sb after (i, k) := by
  ext b
  simp only [free, Finset.mem_union, Finset.mem_filter, Finset.mem_range, Finset.mem_image, mem_gained]
  constructor
  · rintro ⟨inside, unused⟩
    by_cases used : inUse sb after b = true
    · rcases (extended.marks b inside).mp used with old | ⟨nonzero, ⟨j, k⟩, empty, same⟩
      · rw [unused] at old
        contradiction
      · have own : j = i := by
          by_contra apart
          rw [extended.others _ apart, empty] at same
          exact nonzero same.symm
        subst own
        exact Or.inr ⟨k, ⟨empty, same ▸ nonzero⟩, same⟩
    · exact Or.inl ⟨inside, Bool.eq_false_iff.mpr used⟩
  · rintro (⟨inside, unused⟩ | ⟨k, ⟨empty, nonzero⟩, rfl⟩)
    · refine ⟨inside, Bool.eq_false_iff.mpr fun used => ?_⟩
      rw [(extended.marks b inside).mpr (Or.inl used)] at unused
      contradiction
    · exact ⟨sound.owned.below _ nonzero, extended.fresh _ empty nonzero⟩

theorem Extended.card_free (extended : Extended sb s after ip i) (sound : Sound sb after) :
    (free sb s).card = (free sb after).card + (gained sb s after i).card := by
  have apart : Disjoint (free sb after) ((gained sb s after i).image fun k => pointer sb after (i, k)) := by
    rw [Finset.disjoint_left]
    intro b unused member
    obtain ⟨k, got, rfl⟩ := Finset.mem_image.mp member
    have marked := sound.owned.marked _ (mem_gained.mp got).2
    rw [free, Finset.mem_filter] at unused
    rw [unused.2] at marked
    contradiction
  have single : Set.InjOn (fun k => pointer sb after (i, k)) (gained sb s after i) := by
    intro k got l _ same
    exact (Prod.mk.inj (sound.owned.apart (i, k) (i, l) (mem_gained.mp got).2 same)).2
  rw [extended.free_eq sound, Finset.card_union_of_disjoint apart, Finset.card_image_of_injOn single]

end BtbuOs.Fs
