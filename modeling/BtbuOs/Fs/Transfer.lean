import BtbuOs.Fs.Mapping
import Mathlib.Data.Finset.Union

namespace BtbuOs.Fs

open Bytes Ownership State

variable {sb : Superblock} {s mid after : State} {ip iq : InodeIx} {i j k b bn n tot off : Nat} {room : Room} {src dst : Memory}

/-- The copies of a transfer of `n` bytes all succeed. -/
def fits (room : Room) (n : Nat) : Prop := ∀ limit, room = some limit → n ≤ limit

theorem copied_of_fits (fit : fits room n) {m : Nat} (inside : tot + m ≤ n) : copied room tot m = m := by
  cases room with
  | none => rfl
  | some limit =>
      have bound := fit limit rfl
      exact Nat.min_eq_left (by omega)

theorem copied_le (room : Room) (tot m : Nat) : copied room tot m ≤ m := by
  cases room with
  | none => exact Nat.le_refl m
  | some limit => exact Nat.min_le_left ..

/-- The block of an inode holds its bytes of the content. -/
theorem content_block (block : pointer sb s (i, place bn) = b) (nonzero : b ≠ 0) {x : Nat} (inside : x / bsize = bn) :
    s.bread b (x % bsize) = content sb s i x := by
  rw [content, inside, block, if_neg nonzero]

/-- New data of one block change the bytes of this block. -/
theorem content_put (sound : Sound sb s) (block : pointer sb s (i, place bn) = b) (nonzero : b ≠ 0)
    (pointers : ∀ p, pointer sb after p = pointer sb s p) (others : ∀ x, x ≠ b → after.bread x = s.bread x) (j x : Nat) :
    content sb after j x = if j = i ∧ x / bsize = bn then after.bread b (x % bsize) else content sb s j x := by
  rw [content, content, pointers]
  split
  · rename_i zero
    have apart : ¬(j = i ∧ x / bsize = bn) := by
      rintro ⟨rfl, rfl⟩
      exact nonzero (block.symm.trans zero)
    rw [if_neg apart]
  · rename_i busy
    by_cases own : j = i ∧ x / bsize = bn
    · rw [if_pos own, own.1, own.2, block]
    · rw [if_neg own]
      rw [others]
      intro same
      have place := Prod.mk.inj (sound.owned.apart (j, _) (i, _) busy (same.trans block.symm))
      exact own ⟨place.1, place_injective place.2⟩

/-- The indirect blocks hold no data. -/
theorem Sound.plain (sound : Sound sb s) (block : pointer sb s (i, place bn) = b) (x : Nat) (inside : x < sb.ninodes)
    (table : addr sb s x ndirect ≠ 0) : addr sb s x ndirect ≠ b := by
  rw [← pointer_slot inside (Nat.le_refl _)] at table ⊢
  intro same
  have place := sound.owned.apart (x, ndirect) (i, place bn) table (same.trans block.symm)
  exact place_ne bn (congrArg Prod.snd place).symm

/-- A block of an inode has other data, on the disk or in its buffer. -/
structure Put (sb : Superblock) (s after : State) (i bn : Nat) (data : Memory) : Prop where
  sound : Sound sb after
  table : after.itable = s.itable
  pointers : ∀ p, pointer sb after p = pointer sb s p
  marks : ∀ x, x < sb.size → inUse sb after x = inUse sb s x
  dinodes : ∀ x, x < sb.ninodes → dinode sb after x = dinode sb s x
  content : ∀ j x, content sb after j x = if j = i ∧ x / bsize = bn then data (x % bsize) else content sb s j x

theorem put_bwrite (sound : Sound sb s) (block : pointer sb s (i, place bn) = b) (nonzero : b ≠ 0) (data : Memory) :
    Put sb s (s.bwrite b data) i bn data := by
  have above : dataStart sb ≤ b := by
    rw [← block] at nonzero ⊢
    exact sound.owned.above _ nonzero
  have plain := sound.plain block
  have pointers := sound.pointer_bwrite above plain data
  constructor
  · exact sound.bwrite above plain data
  · rfl
  · exact pointers
  · exact fun x inside => inUse_bwrite s data inside above
  · exact fun x inside => dinode_bwrite sound.valid s data inside above
  · intro j x
    rw [content_put sound block nonzero pointers (fun x apart => bread_bwrite_of_ne s data apart) j x, bread_bwrite]

theorem put_spoil (sound : Sound sb s) (block : pointer sb s (i, place bn) = b) (nonzero : b ≠ 0) (data : Memory) :
    Put sb s (s.spoil b data) i bn data := by
  have above : dataStart sb ≤ b := by
    rw [← block] at nonzero ⊢
    exact sound.owned.above _ nonzero
  have plain := sound.plain block
  have pointers := sound.pointer_spoil above plain data
  constructor
  · exact sound.spoil above plain data
  · rfl
  · exact pointers
  · exact fun x inside => inUse_spoil s data inside above
  · exact fun x inside => dinode_spoil sound.valid s data inside above
  · intro j x
    rw [content_put sound block nonzero pointers (fun x apart => bread_spoil_of_ne s data apart) j x, bread_spoil]

theorem Put.extended {data : Memory} (put : Put sb s after i bn data) (ip : InodeIx) : Extended sb s after ip i :=
  extended_of_same put.table put.pointers put.marks put.dinodes

theorem Put.live {data : Memory} (put : Put sb s after i bn data) : Live after iq k ↔ Live s iq k := by
  rw [Live, Live, put.table]

/-- The data of a block take no free block. -/
theorem Put.enough {data : Memory} (put : Put sb s after j bn data) {ks : Finset Nat} (enough : Enough sb s i ks) :
    Enough sb after i ks := by
  have blocks : free sb after = free sb s := by
    apply Finset.filter_congr
    intro x member
    rw [put.marks x (Finset.mem_range.mp member)]
  have places : vacant sb after i ks = vacant sb s i ks := by
    apply Finset.filter_congr
    intro k _
    rw [put.pointers]
  rw [Enough, blocks, places]
  exact enough

/-- Offsets of one block differ like their places in it. -/
theorem block_offset {x : Nat} (own : x / bsize = off / bsize) :
    (off % bsize ≤ x % bsize ↔ off ≤ x) ∧ x % bsize - off % bsize = x - off := by
  unfold bsize at *
  omega

/-- A range that ends with its block stays in the block. -/
theorem block_of_range {x m : Nat} (inside : m ≤ bsize - off % bsize) (low : off ≤ x) (high : x < off + m) : x / bsize = off / bsize := by
  unfold bsize at *
  omega

/-- A splice inside one block is a splice of the content. -/
theorem splice_of_put {m : Nat} (put : Put sb s after i (off / bsize) (splice (s.bread b) (off % bsize) m src))
    (block : pointer sb s (i, place (off / bsize)) = b) (nonzero : b ≠ 0) (inside : m ≤ bsize - off % bsize) :
    content sb after i = splice (content sb s i) off m src := by
  funext x
  rw [put.content]
  by_cases own : x / bsize = off / bsize
  · obtain ⟨order, offset⟩ := block_offset own
    rw [if_pos ⟨rfl, own⟩]
    by_cases within : off ≤ x ∧ x < off + m
    · rw [splice_inside _ _ (order.mpr within.1) (by omega), splice_inside _ _ within.1 within.2, offset]
    · rw [splice_outside _ _ (by omega), splice_outside _ _ (by omega), content_block block nonzero own]
  · rw [if_neg fun both => own both.2, splice_outside]
    by_contra within
    exact own (block_of_range inside (by omega) (by omega))

/-- What a transfer may change: the blocks of one inode and its content. -/
structure Moved (sb : Superblock) (s after : State) (ip : InodeIx) (i : Nat) : Prop where
  sound : Sound sb after
  extended : Extended sb s after ip i
  others : ∀ j, j ≠ i → content sb after j = content sb s j

theorem Moved.trans (first : Moved sb s mid ip i) (second : Moved sb mid after ip i) : Moved sb s after ip i :=
  ⟨second.sound, first.extended.trans second.sound second.extended,
    fun j apart => (second.others j apart).trans (first.others j apart)⟩

theorem moved_refl (sound : Sound sb s) : Moved sb s s ip i := ⟨sound, (Grown.refl sb s ip i).extended, fun _ _ => rfl⟩

theorem Mapped.moved (mapped : Mapped sb s after ip i bn b) : Moved sb s after ip i :=
  ⟨mapped.sound, mapped.grown.extended, fun j _ => mapped.grown.content j⟩

theorem Put.moved {data : Memory} (put : Put sb s after i bn data) : Moved sb s after ip i := by
  refine ⟨put.sound, put.extended ip, fun j apart => ?_⟩
  funext x
  rw [put.content, if_neg fun both => apart both.1]

/-- One round of a transfer moves some of the bytes that are left, inside one block. -/
theorem round_size (off : Nat) (more : tot < n) :
    0 < min (n - tot) (bsize - off % bsize) ∧ min (n - tot) (bsize - off % bsize) ≤ n - tot ∧
      min (n - tot) (bsize - off % bsize) ≤ bsize - off % bsize := by
  have place : off % bsize < bsize := Nat.mod_lt _ (by decide)
  omega

/-- The bytes of a block that is mapped are those of the content. -/
theorem Mapped.bytes (mapped : Mapped sb s after ip i (off / bsize) b) {m : Nat} (inside : m ≤ bsize - off % bsize) :
    (splice dst tot m fun k => after.bread b (off % bsize + k)) = splice dst tot m fun k => content sb s i (off + k) := by
  apply splice_congr
  intro k below
  have own := block_of_range inside (Nat.le_add_right off k) (by omega)
  have offset := (block_offset own).2
  have order := (block_offset own).1.mpr (Nat.le_add_right off k)
  have index : off % bsize + k = (off + k) % bsize := by omega
  rw [index, content_block mapped.block mapped.nonzero own, mapped.grown.content]

/-- The loop of `readi` keeps the contents, and with room for all bytes it reads them. -/
theorem readLoop_reads {rounds : Nat} {value : Int} {data : Memory} (sound : Sound sb s) (live : Live s ip i)
    (done : readLoop sb ip room n rounds s tot off dst = .ok (value, data, after)) :
    Sound sb after ∧ Grown sb s after ip i ∧ (fits room n → tot ≤ n → n ≤ tot + rounds →
      value = n ∧ data = splice dst tot (n - tot) fun k => content sb s i (off + k)) := by
  induction rounds generalizing s tot off dst with
  | zero =>
      simp only [readLoop, Except.ok.injEq, Prod.mk.injEq] at done
      obtain ⟨rfl, rfl, rfl⟩ := done
      refine ⟨sound, Grown.refl sb s ip i, fun _ below above => ?_⟩
      have all : tot = n := by omega
      rw [all, Nat.sub_self, splice_none]
      exact ⟨rfl, rfl⟩
  | succ rounds ih =>
      rw [readLoop] at done
      split at done
      · rename_i more
        split at done
        · contradiction
        · rename_i b mid mapped
          have found := bmap_mapped sound live mapped
          have still := (found.grown.extended.live ip i).mpr live
          have size := round_size off more
          dsimp only at done
          generalize min (n - tot) (bsize - off % bsize) = m at done size
          obtain ⟨positive, left, inside⟩ := size
          split at done
          · rename_i all
            obtain ⟨kept, grown, reads⟩ := ih found.sound still done
            refine ⟨kept, found.grown.trans kept grown, fun fit below above => ?_⟩
            obtain ⟨result, bytes⟩ := reads fit (by omega) (by omega)
            refine ⟨result, bytes.trans ?_⟩
            have rest : n - tot = m + (n - (tot + m)) := by omega
            rw [rest, ← splice_splice, all, found.bytes inside]
            simp only [found.grown.content, Nat.add_assoc]
          · rename_i some
            simp only [Except.ok.injEq, Prod.mk.injEq] at done
            obtain ⟨rfl, rfl, rfl⟩ := done
            exact ⟨found.sound, found.grown, fun fit _ _ => absurd (copied_of_fits fit (by omega)) some⟩
      · rename_i exceeds
        simp only [Except.ok.injEq, Prod.mk.injEq] at done
        obtain ⟨rfl, rfl, rfl⟩ := done
        refine ⟨sound, Grown.refl sb s ip i, fun _ below _ => ?_⟩
        have all : tot = n := by omega
        rw [all, Nat.sub_self, splice_none]
        exact ⟨rfl, rfl⟩

/-- The loop of `writei` changes the content of one inode, and with room for all bytes it writes them. -/
theorem writeLoop_writes {rounds count last : Nat} (sound : Sound sb s) (live : Live s ip i)
    (done : writeLoop sb ip src room n rounds s tot off = .ok (count, last, after)) :
    Moved sb s after ip i ∧ (tot ≤ n → tot ≤ count ∧ count ≤ n ∧ last = off + (count - tot)) ∧
      (fits room n → tot ≤ n → n ≤ tot + rounds → count = n ∧
        content sb after i = splice (content sb s i) off (n - tot) (fun k => src (tot + k)) ∧
        ∀ x, s.unwritten x = none → after.unwritten x = none) := by
  induction rounds generalizing s tot off with
  | zero =>
      simp only [writeLoop, Except.ok.injEq, Prod.mk.injEq] at done
      obtain ⟨rfl, rfl, rfl⟩ := done
      refine ⟨moved_refl sound, fun below => by omega, fun _ below above => ?_⟩
      have all : tot = n := by omega
      rw [all, Nat.sub_self, splice_none]
      exact ⟨rfl, rfl, fun _ => id⟩
  | succ rounds ih =>
      rw [writeLoop] at done
      split at done
      · rename_i more
        split at done
        · contradiction
        · rename_i b mid mapped
          have found := bmap_mapped sound live mapped
          have still := (found.grown.extended.live ip i).mpr live
          have size := round_size off more
          dsimp only at done
          generalize min (n - tot) (bsize - off % bsize) = m at done size
          obtain ⟨positive, left, inside⟩ := size
          split at done
          · rename_i all
            rw [all] at done
            have put := put_bwrite found.sound found.block found.nonzero
              (splice (mid.bread b) (off % bsize) m fun k => src (tot + k))
            obtain ⟨moved, counted, writes⟩ := ih put.sound (put.live.mpr still) done
            refine ⟨(found.moved.trans put.moved).trans moved, fun below => ?_, fun fit below above => ?_⟩
            · have bounds := counted (by omega)
              omega
            · obtain ⟨result, bytes, clean⟩ := writes fit (by omega) (by omega)
              refine ⟨result, bytes.trans ?_, fun x written => clean x (unwritten_bwrite mid _ (Or.inr (found.grown.written x written)))⟩
              have rest : n - tot = m + (n - (tot + m)) := by omega
              rw [splice_of_put put found.block found.nonzero inside, found.grown.content, rest, ← splice_splice]
              simp only [Nat.add_assoc]
          · rename_i some
            simp only [Except.ok.injEq, Prod.mk.injEq] at done
            obtain ⟨rfl, rfl, rfl⟩ := done
            have put := put_spoil found.sound found.block found.nonzero
              (splice (mid.bread b) (off % bsize) (copied room tot m) fun k => src (tot + k))
            refine ⟨found.moved.trans put.moved, fun below => by omega, fun fit _ _ => ?_⟩
            exact absurd (copied_of_fits fit (by omega)) some
      · rename_i exceeds
        simp only [Except.ok.injEq, Prod.mk.injEq] at done
        obtain ⟨rfl, rfl, rfl⟩ := done
        refine ⟨moved_refl sound, fun below => by omega, fun _ below _ => ?_⟩
        have all : tot = n := by omega
        rw [all, Nat.sub_self, splice_none]
        exact ⟨rfl, rfl, fun _ => id⟩

/-- One round of a write from a kernel address. -/
theorem writeLoop_round {rounds : Nat} {result : Nat × Nat × State} (more : tot < n)
    (done : writeLoop sb ip src none n (rounds + 1) s tot off = .ok result) :
    ∃ b mid, bmap sb s ip (off / bsize) = .ok (b, mid) ∧
      writeLoop sb ip src none n rounds (mid.bwrite b (splice (mid.bread b) (off % bsize) (min (n - tot) (bsize - off % bsize))
        fun k => src (tot + k))) (tot + min (n - tot) (bsize - off % bsize)) (off + min (n - tot) (bsize - off % bsize)) = .ok result := by
  rw [writeLoop, if_pos more] at done
  split at done
  · contradiction
  · rename_i b mid mapped
    exact ⟨b, mid, mapped, by simpa only [copied, if_true] using done⟩

/-- The places of the blocks with the bytes from `off` on. -/
def reach (off n : Nat) : Finset Nat :=
  ((Finset.range maxfile).filter fun bn => off < (bn + 1) * bsize ∧ bn * bsize < off + n).biUnion path

theorem path_subset_reach {x : Nat} (low : off ≤ x) (high : x < off + n) (small : x < maxfile * bsize) :
    path (x / bsize) ⊆ reach off n := by
  apply Finset.subset_biUnion_of_mem
  have quotient := Nat.div_add_mod x bsize
  have place := Nat.mod_lt x (show 0 < bsize by decide)
  have inside : x / bsize < maxfile := Nat.div_lt_of_lt_mul (by rwa [Nat.mul_comm])
  rw [Finset.mem_filter, Finset.mem_range]
  refine ⟨inside, ?_, ?_⟩
  · rw [Nat.add_mul, Nat.mul_comm]
    omega
  · rw [Nat.mul_comm]
    omega

/-- With enough free blocks the loop of `readi` does not panic. -/
theorem readLoop_total {rounds : Nat} {ks : Finset Nat} (sound : Sound sb s) (live : Live s ip i) (enough : Enough sb s i ks)
    (paths : ∀ x, off ≤ x → x < off + (n - tot) → x / bsize < maxfile ∧ path (x / bsize) ⊆ ks) :
    ∃ result, readLoop sb ip room n rounds s tot off dst = .ok result := by
  induction rounds generalizing s tot off dst with
  | zero => exact ⟨_, rfl⟩
  | succ rounds ih =>
      rw [readLoop]
      split
      · rename_i more
        obtain ⟨small, subset⟩ := paths off (Nat.le_refl _) (by omega)
        obtain ⟨b, mid, mapped⟩ := bmap_total sound live small subset enough
        have found := bmap_mapped sound live mapped
        have size := round_size off more
        rw [mapped]
        dsimp only
        generalize min (n - tot) (bsize - off % bsize) = m at size
        split
        · apply ih found.sound ((found.grown.extended.live ip i).mpr live) (found.supply ks subset enough)
          exact fun x low high => paths x (by omega) (by omega)
        · exact ⟨_, rfl⟩
      · exact ⟨_, rfl⟩

/-- With enough free blocks the loop of `writei` does not panic. -/
theorem writeLoop_total {rounds : Nat} {ks : Finset Nat} (sound : Sound sb s) (live : Live s ip i) (enough : Enough sb s i ks)
    (paths : ∀ x, off ≤ x → x < off + (n - tot) → x / bsize < maxfile ∧ path (x / bsize) ⊆ ks) :
    ∃ result, writeLoop sb ip src room n rounds s tot off = .ok result := by
  induction rounds generalizing s tot off with
  | zero => exact ⟨_, rfl⟩
  | succ rounds ih =>
      rw [writeLoop]
      split
      · rename_i more
        obtain ⟨small, subset⟩ := paths off (Nat.le_refl _) (by omega)
        obtain ⟨b, mid, mapped⟩ := bmap_total sound live small subset enough
        have found := bmap_mapped sound live mapped
        have size := round_size off more
        rw [mapped]
        dsimp only
        generalize min (n - tot) (bsize - off % bsize) = m at size
        split
        · have put := put_bwrite found.sound found.block found.nonzero
            (splice (mid.bread b) (off % bsize) (copied room tot m) fun k => src (tot + k))
          have still := put.live.mpr ((found.grown.extended.live ip i).mpr live)
          apply ih put.sound still (put.enough (found.supply ks subset enough))
          exact fun x low high => paths x (by omega) (by omega)
        · exact ⟨_, rfl⟩
      · exact ⟨_, rfl⟩

theorem readLoop_error {rounds : Nat} {message : String} (failed : readLoop sb ip room n rounds s tot off dst = .error message) :
    message = "balloc: out of blocks" ∨ message = "bmap: out of range" := by
  induction rounds generalizing s tot off dst with
  | zero => contradiction
  | succ rounds ih =>
      rw [readLoop] at failed
      split at failed
      · split at failed
        · rename_i found
          cases failed
          exact bmap_error found
        · dsimp only at failed
          split at failed
          · exact ih failed
          · contradiction
      · contradiction

theorem writeLoop_error {rounds : Nat} {message : String} (failed : writeLoop sb ip src room n rounds s tot off = .error message) :
    message = "balloc: out of blocks" ∨ message = "bmap: out of range" := by
  induction rounds generalizing s tot off with
  | zero => contradiction
  | succ rounds ih =>
      rw [writeLoop] at failed
      split at failed
      · split at failed
        · rename_i found
          cases failed
          exact bmap_error found
        · dsimp only at failed
          split at failed
          · exact ih failed
          · contradiction
      · contradiction

end BtbuOs.Fs
