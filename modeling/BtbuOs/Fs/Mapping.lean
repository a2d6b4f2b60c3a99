import BtbuOs.Fs.InodeTable
import Mathlib.Data.Finset.Card

namespace BtbuOs.Fs

open Bytes Ownership State

variable {sb : Superblock} {s mid after : State} {ip iq : InodeIx} {i j k b bn : Nat}

/-- The place of the nth block of an inode. -/
def place (bn : Nat) : Nat := if bn < ndirect then bn else bn + 1

/-- The content of an inode as an array of bytes; a block that is missing reads as zero. -/
def content (sb : Superblock) (s : State) (i : Nat) : Memory := fun x =>
  if pointer sb s (i, place (x / bsize)) = 0 then 0 else s.bread (pointer sb s (i, place (x / bsize))) (x % bsize)

theorem Still.content (still : Still sb s after) (j : Nat) : content sb after j = content sb s j := by
  funext x
  rw [Fs.content, Fs.content, still.pointer, still.bread]

theorem place_ne (bn : Nat) : place bn ≠ ndirect := by
  have last : ndirect = 12 := rfl
  rw [place]
  split <;> omega

theorem place_injective {other : Nat} (same : place bn = place other) : bn = other := by
  have last : ndirect = 12 := rfl
  simp only [place] at same
  split at same <;> split at same <;> omega

/-- An empty place gets a free block, which is zero. -/
structure Given (sb : Superblock) (s after : State) (ip : InodeIx) (i k b : Nat) : Prop where
  sound : Sound sb after
  table : ∃ addrs, after.itable = Function.update s.itable ip { s.itable ip with addrs }
  unused : inUse sb s b = false
  below : b < sb.size
  above : dataStart sb ≤ b
  empty : pointer sb s (i, k) = 0
  pointers : ∀ p, pointer sb after p = if p = (i, k) then b else pointer sb s p
  marks : ∀ x, x < sb.size → inUse sb after x = (decide (x = b) || inUse sb s x)
  zero : after.bread b = fun _ => 0
  data : ∀ p, p.2 ≠ ndirect → pointer sb s p ≠ 0 → after.bread (pointer sb s p) = s.bread (pointer sb s p)
  dinodes : ∀ x, x < sb.ninodes → dinode sb after x = dinode sb s x
  written : ∀ x, s.unwritten x = none → after.unwritten x = none

/-- The blocks of an inode in memory may be more, and all other pointers and inodes are the same. -/
structure Extended (sb : Superblock) (s after : State) (ip : InodeIx) (i : Nat) : Prop where
  table : ∃ addrs, after.itable = Function.update s.itable ip { s.itable ip with addrs }
  kept : ∀ p, pointer sb s p ≠ 0 → pointer sb after p = pointer sb s p
  others : ∀ p, p.1 ≠ i → pointer sb after p = pointer sb s p
  fresh : ∀ p, pointer sb s p = 0 → pointer sb after p ≠ 0 → inUse sb s (pointer sb after p) = false
  marks : ∀ b, b < sb.size → (inUse sb after b = true ↔
    inUse sb s b = true ∨ b ≠ 0 ∧ ∃ p, pointer sb s p = 0 ∧ pointer sb after p = b)
  dinodes : ∀ x, x < sb.ninodes → dinode sb after x = dinode sb s x

/-- A step that changes no pointer and no mark extends the inode by nothing. -/
theorem extended_of_same (table : after.itable = s.itable) (pointers : ∀ p, pointer sb after p = pointer sb s p)
    (marks : ∀ b, b < sb.size → inUse sb after b = inUse sb s b)
    (dinodes : ∀ x, x < sb.ninodes → dinode sb after x = dinode sb s x) : Extended sb s after ip i := by
  constructor
  · exact ⟨(s.itable ip).addrs, table.trans (Function.update_eq_self ip s.itable).symm⟩
  · exact fun p _ => pointers p
  · exact fun p _ => pointers p
  · intro p zero nonzero
    exact absurd ((pointers p).trans zero) nonzero
  · intro b below
    rw [marks b below]
    refine ⟨Or.inl, fun either => either.resolve_right ?_⟩
    rintro ⟨nonzero, p, zero, same⟩
    exact nonzero (same.symm.trans ((pointers p).trans zero))
  · exact dinodes

theorem Extended.trans (sound : Sound sb after) (first : Extended sb s mid ip i) (second : Extended sb mid after ip i) :
    Extended sb s after ip i := by
  obtain ⟨old, one⟩ := first.table
  obtain ⟨new, two⟩ := second.table
  constructor
  · refine ⟨new, ?_⟩
    rw [two, one, Function.update_self, Function.update_idem]
  · intro p nonzero
    have same := first.kept p nonzero
    rw [second.kept p (by rwa [same]), same]
  · exact fun p apart => (second.others p apart).trans (first.others p apart)
  · intro p zero nonzero
    by_cases later : pointer sb mid p = 0
    · have free := second.fresh p later nonzero
      have below := sound.owned.below p nonzero
      by_contra used
      rw [Bool.not_eq_false] at used
      have marked := (first.marks _ below).mpr (Or.inl used)
      rw [free] at marked
      exact Bool.false_ne_true marked
    · rw [second.kept p later]
      exact first.fresh p zero later
  · intro b below
    rw [second.marks b below, first.marks b below]
    constructor
    · rintro ((old | ⟨nonzero, p, zero, same⟩) | ⟨nonzero, p, zero, same⟩)
      · exact Or.inl old
      · exact Or.inr ⟨nonzero, p, zero, (second.kept p (by rwa [same])).trans same⟩
      · refine Or.inr ⟨nonzero, p, ?_, same⟩
        by_contra before
        rw [first.kept p before] at zero
        exact before zero
    · rintro (old | ⟨nonzero, p, zero, same⟩)
      · exact Or.inl (Or.inl old)
      · by_cases later : pointer sb mid p = 0
        · exact Or.inr ⟨nonzero, p, later, same⟩
        · rw [second.kept p later] at same
          exact Or.inl (Or.inr ⟨nonzero, p, zero, same⟩)
  · exact fun x inside => (second.dinodes x inside).trans (first.dinodes x inside)

/-- Only the addresses of one entry change. -/
theorem Extended.entry (extended : Extended sb s after ip i) (iq : InodeIx) :
    ∃ addrs, after.itable iq = { s.itable iq with addrs } := by
  obtain ⟨addrs, table⟩ := extended.table
  by_cases own : iq = ip
  · subst own
    exact ⟨addrs, by rw [table, Function.update_self]⟩
  · exact ⟨(s.itable iq).addrs, by rw [table, Function.update_of_ne own]⟩

theorem Extended.live (extended : Extended sb s after ip i) (iq : InodeIx) (x : Nat) : Live after iq x ↔ Live s iq x := by
  obtain ⟨addrs, entry⟩ := extended.entry iq
  rw [Live, Live, entry]

/-- The inode in memory may have more blocks, with the same content of all inodes. -/
structure Grown (sb : Superblock) (s after : State) (ip : InodeIx) (i : Nat) : Prop where
  extended : Extended sb s after ip i
  content : ∀ j, content sb after j = content sb s j
  written : ∀ x, s.unwritten x = none → after.unwritten x = none

theorem Grown.refl (sb : Superblock) (s : State) (ip : InodeIx) (i : Nat) : Grown sb s s ip i :=
  ⟨extended_of_same rfl (fun _ => rfl) (fun _ _ => rfl) fun _ _ => rfl, fun _ => rfl, fun _ => id⟩

theorem Grown.trans (sound : Sound sb after) (first : Grown sb s mid ip i) (second : Grown sb mid after ip i) : Grown sb s after ip i :=
  ⟨first.extended.trans sound second.extended, fun j => (second.content j).trans (first.content j),
    fun x written => second.written x (first.written x written)⟩

/-- A missing block and a block of zeros have the same content. -/
theorem Given.content (given : Given sb s after ip i k b) (j : Nat) : content sb after j = content sb s j := by
  funext x
  rw [Fs.content, Fs.content, given.pointers]
  by_cases own : (j, place (x / bsize)) = (i, k)
  · have zero := given.empty
    rw [← own] at zero
    rw [if_pos own, if_pos zero, given.zero, ite_self]
  · rw [if_neg own]
    split
    · rfl
    · rename_i nonzero
      rw [given.data _ (place_ne _) nonzero]

theorem Given.extended (given : Given sb s after ip i k b) (positive : 0 < dataStart sb) : Extended sb s after ip i := by
  have above := given.above
  have nonzero : b ≠ 0 := by omega
  constructor
  · exact given.table
  · intro p busy
    rw [given.pointers, if_neg]
    rintro rfl
    exact busy given.empty
  · intro p apart
    rw [given.pointers, if_neg]
    rintro rfl
    exact apart rfl
  · intro p zero busy
    rw [given.pointers] at busy ⊢
    split at busy
    · rename_i own
      rw [if_pos own]
      exact given.unused
    · exact absurd zero busy
  · intro x below
    rw [given.marks x below, Bool.or_eq_true, decide_eq_true_eq]
    constructor
    · rintro (rfl | old)
      · exact Or.inr ⟨nonzero, (i, k), given.empty, by rw [given.pointers, if_pos rfl]⟩
      · exact Or.inl old
    · rintro (old | ⟨busy, p, zero, same⟩)
      · exact Or.inr old
      · rw [given.pointers] at same
        split at same
        · exact Or.inl same.symm
        · exact absurd (same.symm.trans zero) busy
  · exact given.dinodes

theorem Given.grown (given : Given sb s after ip i k b) (positive : 0 < dataStart sb) : Grown sb s after ip i :=
  ⟨given.extended positive, given.content, given.written⟩

/-- The free blocks of the volume. -/
def free (sb : Superblock) (s : State) : Finset Nat := (Finset.range sb.size).filter fun b => inUse sb s b = false

/-- The places of the set that have no block. -/
def vacant (sb : Superblock) (s : State) (i : Nat) (ks : Finset Nat) : Finset Nat := ks.filter fun k => pointer sb s (i, k) = 0

/-- There is a free block for each empty place of the set. -/
def Enough (sb : Superblock) (s : State) (i : Nat) (ks : Finset Nat) : Prop := (vacant sb s i ks).card ≤ (free sb s).card

theorem Enough.mono {ks fewer : Finset Nat} (enough : Enough sb s i ks) (subset : fewer ⊆ ks) : Enough sb s i fewer :=
  Nat.le_trans (Finset.card_le_card (Finset.filter_subset_filter _ subset)) enough

theorem Still.enough (still : Still sb s after) {ks : Finset Nat} (enough : Enough sb s i ks) : Enough sb after i ks := by
  have blocks : free sb after = free sb s := Finset.filter_congr fun x _ => by rw [inUse_congr (still.bread _)]
  have places : vacant sb after i ks = vacant sb s i ks := Finset.filter_congr fun k _ => by rw [still.pointer]
  rw [Enough, blocks, places]
  exact enough

/-- The place and the block leave the two sets together. -/
theorem Given.enough (given : Given sb s after ip i k b) (positive : 0 < dataStart sb) {ks : Finset Nat} (member : k ∈ ks)
    (enough : Enough sb s i ks) : Enough sb after i ks := by
  have above := given.above
  have blocks : free sb after = (free sb s).erase b := by
    ext x
    simp only [free, Finset.mem_erase, Finset.mem_filter, Finset.mem_range]
    constructor
    · rintro ⟨below, unused⟩
      rw [given.marks x below, Bool.or_eq_false_iff, decide_eq_false_iff_not] at unused
      exact ⟨unused.1, below, unused.2⟩
    · rintro ⟨apart, below, unused⟩
      rw [given.marks x below, unused, decide_eq_false apart]
      exact ⟨below, rfl⟩
  have places : vacant sb after i ks = (vacant sb s i ks).erase k := by
    ext x
    simp only [vacant, Finset.mem_erase, Finset.mem_filter, given.pointers, Prod.mk.injEq, true_and]
    by_cases own : x = k
    · simp [own]
      omega
    · simp [own]
  have block : b ∈ free sb s := by simp [free, given.below, given.unused]
  have place : k ∈ vacant sb s i ks := by simp [vacant, member, given.empty]
  rw [Enough, blocks, places, Finset.card_erase_of_mem block, Finset.card_erase_of_mem place]
  exact Nat.sub_le_sub_right enough 1

/-- A free block is found when there is one. -/
theorem balloc_total (some : b < sb.size) (unused : inUse sb s b = false) : ∃ x after, balloc sb s = .ok (x, after) := by
  unfold balloc
  split
  · rename_i search
    have absent := List.find?_eq_none.mp search b (List.mem_range.mpr some)
    rw [unused] at absent
    exact absurd rfl absent
  · exact ⟨_, _, rfl⟩

/-- An empty place of a set with enough free blocks gets its block. -/
theorem Enough.balloc {ks : Finset Nat} (enough : Enough sb s i ks) (member : k ∈ ks) (empty : pointer sb s (i, k) = 0) :
    ∃ x after, balloc sb s = .ok (x, after) := by
  have place : k ∈ vacant sb s i ks := by simp [vacant, member, empty]
  have positive := Nat.lt_of_lt_of_le (Finset.card_pos.mpr ⟨k, place⟩) enough
  obtain ⟨b, found⟩ := Finset.card_pos.mp positive
  simp only [free, Finset.mem_filter, Finset.mem_range] at found
  exact balloc_total found.1 found.2

/-- What the search for the address of a slot does. -/
theorem slotAddr_cases (done : slotAddr sb s ip k = .ok (b, after)) :
    (s.itable ip).addrs k ≠ 0 ∧ b = (s.itable ip).addrs k ∧ after = s ∨
      (s.itable ip).addrs k = 0 ∧ ∃ mid, balloc sb s = .ok (b, mid) ∧ after = mid.setAddr ip k b := by
  unfold slotAddr at done
  split at done
  · rename_i empty
    split at done
    · contradiction
    · rename_i new mid found
      cases done
      exact Or.inr ⟨empty, mid, found, rfl⟩
  · rename_i busy
    cases done
    exact Or.inl ⟨busy, rfl, rfl⟩

/-- What the search for the address of an entry of an indirect block does. -/
theorem tableAddr_cases {table : Nat} (done : tableAddr sb s table j = .ok (b, after)) :
    word (s.bread table) j ≠ 0 ∧ b = word (s.bread table) j ∧ after = s ∨
      word (s.bread table) j = 0 ∧ ∃ mid, balloc sb s = .ok (b, mid) ∧ after = mid.bwrite table (setWord (mid.bread table) j b) := by
  unfold tableAddr at done
  split at done
  · rename_i empty
    split at done
    · contradiction
    · rename_i new mid found
      cases done
      exact Or.inr ⟨empty, mid, found, rfl⟩
  · rename_i busy
    cases done
    exact Or.inl ⟨busy, rfl, rfl⟩

/-- The slot of a block, or the indirect block and its entry, give the address of the block. -/
theorem bmap_cases (done : bmap sb s ip bn = .ok (b, after)) :
    bn < ndirect ∧ slotAddr sb s ip bn = .ok (b, after) ∨
      ¬bn < ndirect ∧ bn - ndirect < nindirect ∧ ∃ table mid, slotAddr sb s ip ndirect = .ok (table, mid) ∧
        tableAddr sb mid table (bn - ndirect) = .ok (b, after) := by
  unfold bmap at done
  split at done
  · rename_i direct
    exact Or.inl ⟨direct, done⟩
  · rename_i high
    split at done
    · rename_i small
      split at done
      · contradiction
      · rename_i table mid found
        exact Or.inr ⟨high, small, table, mid, found, done⟩
    · contradiction

/-- A new block in a slot of an inode in memory. -/
theorem slotAddr_given (sound : Sound sb s) (live : Live s ip i) (slot : k ≤ ndirect) (empty : (s.itable ip).addrs k = 0)
    (below : b < sb.size) (unused : inUse sb s b = false) : Given sb s ((allocated sb s b).setAddr ip k b) ip i k b := by
  obtain ⟨kept, spare, same⟩ := sound.allocated below unused
  have inside := sound.inside ip i live
  have still : Live (allocated sb s b) ip i := live
  have address : addr sb (allocated sb s b) i k = 0 := by
    rw [addr_live sb kept.unique still]
    exact empty
  obtain ⟨done, pointers⟩ := kept.setAddr still slot address spare
  have above := spare.above
  constructor
  · exact done
  · exact ⟨_, rfl⟩
  · exact unused
  · exact below
  · exact above
  · rw [pointer_slot inside slot, addr_live sb sound.unique live, empty]
  · intro p
    rw [pointers, same]
  · exact fun x bounded => inUse_allocated above bounded
  · exact spare.zero
  · intro p _ nonzero
    exact bread_allocated below (sound.owned.above p nonzero) (sound.owned.ne_of_free unused below p)
  · exact fun x bounded => dinode_allocated sound.valid above bounded
  · exact fun x written => unwritten_allocated written

/-- A new block in an entry of the indirect block of an inode. -/
theorem tableAddr_given (sound : Sound sb s) (inside : i < sb.ninodes) (small : j < nindirect) (table : addr sb s i ndirect ≠ 0)
    (empty : word (s.bread (addr sb s i ndirect)) j = 0) (below : b < sb.size) (unused : inUse sb s b = false) :
    Given sb s ((allocated sb s b).bwrite (addr sb s i ndirect)
      (setWord ((allocated sb s b).bread (addr sb s i ndirect)) j b)) ip i (ndirect + 1 + j) b := by
  obtain ⟨kept, spare, same⟩ := sound.allocated below unused
  have above := spare.above
  have high := (sound.addr_below inside (Nat.le_refl _) table).1
  have address : addr sb (allocated sb s b) i ndirect = addr sb s i ndirect := by
    rw [← pointer_slot inside (Nat.le_refl _), same, pointer_slot inside (Nat.le_refl _)]
  have free : pointer sb s (i, ndirect + 1 + j) = 0 := by rw [pointer_entry inside small, entry, if_neg table, empty]
  have vacant : entry sb (allocated sb s b) i j = 0 := by rw [← pointer_entry inside small, same, free]
  have step := kept.setEntry inside small (by rwa [address]) vacant spare
  rw [address] at step
  obtain ⟨done, pointers⟩ := step
  constructor
  · exact done
  · exact ⟨(s.itable ip).addrs, (Function.update_eq_self ip s.itable).symm⟩
  · exact unused
  · exact below
  · exact above
  · exact free
  · intro p
    rw [pointers, same]
  · intro x bounded
    rw [inUse_bwrite _ _ bounded high, inUse_allocated above bounded]
  · have apart : b ≠ addr sb s i ndirect := fun equal => sound.addr_ne_of_free inside (Nat.le_refl _) below unused equal.symm
    rw [bread_bwrite_of_ne _ _ apart, spare.zero]
  · intro p other nonzero
    have apart : pointer sb s p ≠ addr sb s i ndirect := by
      rw [← pointer_slot inside (Nat.le_refl _)]
      intro equal
      exact other (congrArg Prod.snd (sound.owned.apart p (i, ndirect) nonzero equal))
    rw [bread_bwrite_of_ne _ _ apart]
    exact bread_allocated below (sound.owned.above p nonzero) (sound.owned.ne_of_free unused below p)
  · intro x bounded
    rw [dinode_bwrite sound.valid _ _ bounded high, dinode_allocated sound.valid above bounded]
  · exact fun x written => unwritten_bwrite _ _ (Or.inr (unwritten_allocated written))

/-- A place of an inode has its block. -/
structure Filled (sb : Superblock) (s after : State) (ip : InodeIx) (i k b : Nat) : Prop where
  sound : Sound sb after
  grown : Grown sb s after ip i
  block : pointer sb after (i, k) = b
  nonzero : b ≠ 0
  supply : ∀ ks, k ∈ ks → Enough sb s i ks → Enough sb after i ks

theorem Given.filled (given : Given sb s after ip i k b) (positive : 0 < dataStart sb) : Filled sb s after ip i k b := by
  have above := given.above
  constructor
  · exact given.sound
  · exact given.grown positive
  · rw [given.pointers, if_pos rfl]
  · omega
  · exact fun ks member => given.enough positive member

theorem filled_refl (sound : Sound sb s) (ip : InodeIx) (block : pointer sb s (i, k) = b) (nonzero : b ≠ 0) :
    Filled sb s s ip i k b :=
  ⟨sound, Grown.refl sb s ip i, block, nonzero, fun _ _ => id⟩

theorem slotAddr_filled (sound : Sound sb s) (live : Live s ip i) (slot : k ≤ ndirect) (done : slotAddr sb s ip k = .ok (b, after)) :
    Filled sb s after ip i k b := by
  have inside := sound.inside ip i live
  rcases slotAddr_cases done with ⟨busy, rfl, rfl⟩ | ⟨empty, mid, found, rfl⟩
  · apply filled_refl sound ip _ busy
    rw [pointer_slot inside slot, addr_live sb sound.unique live]
  · obtain ⟨below, unused, rfl⟩ := balloc_cases found
    exact (slotAddr_given sound live slot empty below unused).filled sound.owned.positive

theorem tableAddr_filled (sound : Sound sb s) (live : Live s ip i) (small : j < nindirect) (table : addr sb s i ndirect ≠ 0)
    (done : tableAddr sb s (addr sb s i ndirect) j = .ok (b, after)) : Filled sb s after ip i (ndirect + 1 + j) b := by
  have inside := sound.inside ip i live
  rcases tableAddr_cases done with ⟨busy, rfl, rfl⟩ | ⟨empty, mid, found, rfl⟩
  · apply filled_refl sound ip _ busy
    rw [pointer_entry inside small, entry, if_neg table]
  · obtain ⟨below, unused, rfl⟩ := balloc_cases found
    exact (tableAddr_given sound inside small table empty below unused).filled sound.owned.positive

/-- The places that `bmap` needs for the nth block. -/
def path (bn : Nat) : Finset Nat := if bn < ndirect then {bn} else {ndirect, bn + 1}

/-- The nth block of the inode is there. -/
structure Mapped (sb : Superblock) (s after : State) (ip : InodeIx) (i bn b : Nat) : Prop where
  sound : Sound sb after
  grown : Grown sb s after ip i
  inside : bn < maxfile
  block : pointer sb after (i, place bn) = b
  nonzero : b ≠ 0
  supply : ∀ ks, path bn ⊆ ks → Enough sb s i ks → Enough sb after i ks

/-- What `bmap` does with an inode in memory. -/
theorem bmap_mapped (sound : Sound sb s) (live : Live s ip i) (done : bmap sb s ip bn = .ok (b, after)) :
    Mapped sb s after ip i bn b := by
  have first : ndirect = 12 := rfl
  have last : maxfile = 268 := rfl
  have many : nindirect = 256 := rfl
  rcases bmap_cases done with ⟨direct, slot⟩ | ⟨high, small, table, mid, found, rest⟩
  · have filled := slotAddr_filled sound live (Nat.le_of_lt direct) slot
    constructor
    · exact filled.sound
    · exact filled.grown
    · omega
    · rw [place, if_pos direct]
      exact filled.block
    · exact filled.nonzero
    · intro ks subset
      apply filled.supply
      apply subset
      simp [path, direct]
  · have tabled := slotAddr_filled sound live (Nat.le_refl _) found
    have still := (tabled.grown.extended.live ip i).mpr live
    have address : addr sb mid i ndirect = table := by
      rw [← pointer_slot (tabled.sound.inside ip i still) (Nat.le_refl _)]
      exact tabled.block
    have index : ndirect + 1 + (bn - ndirect) = bn + 1 := by omega
    rw [← address] at rest
    have filled := tableAddr_filled tabled.sound still small (by rw [address]; exact tabled.nonzero) rest
    rw [index] at filled
    constructor
    · exact filled.sound
    · exact tabled.grown.trans filled.sound filled.grown
    · omega
    · rw [place, if_neg high]
      exact filled.block
    · exact filled.nonzero
    · intro ks subset enough
      have both : ndirect ∈ ks ∧ bn + 1 ∈ ks := by
        constructor <;> apply subset <;> simp [path, high]
      exact filled.supply ks both.2 (tabled.supply ks both.1 enough)

/-- With enough free blocks `bmap` does not panic. -/
theorem bmap_total {ks : Finset Nat} (sound : Sound sb s) (live : Live s ip i) (small : bn < maxfile) (subset : path bn ⊆ ks)
    (enough : Enough sb s i ks) : ∃ b after, bmap sb s ip bn = .ok (b, after) := by
  have slots (k : Nat) (slot : k ≤ ndirect) (member : k ∈ ks) : ∃ b after, slotAddr sb s ip k = .ok (b, after) := by
    by_cases empty : (s.itable ip).addrs k = 0
    · have vacant : pointer sb s (i, k) = 0 := by
        rw [pointer_slot (sound.inside ip i live) slot, addr_live sb sound.unique live, empty]
      obtain ⟨b, after, found⟩ := enough.balloc member vacant
      exact ⟨b, _, by rw [slotAddr, if_pos empty, found]⟩
    · exact ⟨_, _, by rw [slotAddr, if_neg empty]⟩
  unfold bmap
  by_cases direct : bn < ndirect
  · rw [if_pos direct]
    apply slots bn (Nat.le_of_lt direct) (subset _)
    simp [path, direct]
  · have both : ndirect ∈ ks ∧ bn + 1 ∈ ks := by
      constructor <;> apply subset <;> simp [path, direct]
    have index : bn - ndirect < nindirect := by
      have whole : maxfile = ndirect + nindirect := rfl
      omega
    obtain ⟨table, mid, found⟩ := slots ndirect (Nat.le_refl _) both.1
    rw [if_neg direct, if_pos index, found]
    have tabled := slotAddr_filled sound live (Nat.le_refl _) found
    have still := (tabled.grown.extended.live ip i).mpr live
    have inside := tabled.sound.inside ip i still
    have left := tabled.supply ks both.1 enough
    show ∃ b after, tableAddr sb mid table (bn - ndirect) = .ok (b, after)
    by_cases empty : word (mid.bread table) (bn - ndirect) = 0
    · have vacant : pointer sb mid (i, bn + 1) = 0 := by
        have place : bn + 1 = ndirect + 1 + (bn - ndirect) := by omega
        have address := tabled.block
        rw [pointer_slot inside (Nat.le_refl _)] at address
        rw [place, pointer_entry inside index, entry, address, if_neg tabled.nonzero, empty]
      obtain ⟨b, after, taken⟩ := left.balloc both.2 vacant
      exact ⟨b, _, by rw [tableAddr, if_pos empty, taken]⟩
    · exact ⟨_, _, by rw [tableAddr, if_neg empty]⟩

theorem balloc_error {message : String} (failed : balloc sb s = .error message) : message = "balloc: out of blocks" := by
  unfold balloc at failed
  split at failed
  · cases failed
    rfl
  · contradiction

theorem slotAddr_error {message : String} (failed : slotAddr sb s ip k = .error message) : message = "balloc: out of blocks" := by
  unfold slotAddr at failed
  split at failed
  · split at failed
    · rename_i found
      cases failed
      exact balloc_error found
    · contradiction
  · contradiction

theorem tableAddr_error {message : String} {table : Nat} (failed : tableAddr sb s table j = .error message) :
    message = "balloc: out of blocks" := by
  unfold tableAddr at failed
  split at failed
  · split at failed
    · rename_i found
      cases failed
      exact balloc_error found
    · contradiction
  · contradiction

/-- The panics of `bmap`. -/
theorem bmap_error {message : String} (failed : bmap sb s ip bn = .error message) :
    message = "balloc: out of blocks" ∨ message = "bmap: out of range" := by
  unfold bmap at failed
  split at failed
  · exact Or.inl (slotAddr_error failed)
  · split at failed
    · split at failed
      · rename_i found
        cases failed
        exact Or.inl (slotAddr_error found)
      · exact Or.inl (tableAddr_error failed)
    · cases failed
      exact Or.inr rfl

end BtbuOs.Fs
