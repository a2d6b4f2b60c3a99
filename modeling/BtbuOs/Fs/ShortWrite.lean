import BtbuOs.Fs.FileBytes

namespace BtbuOs.Fs

open Bytes Ownership State

variable {sb : Superblock} {s mid after : State} {ip iq : InodeIx} {i j k b n off tot limit : Nat} {src dst data : Memory}

/-- Every buffer holds what its block on the disk has. -/
def Coherent (s : State) : Prop := ∀ b, s.bread b = s.disk b

theorem Clean.coherent (clean : Clean s) : Coherent s := by
  intro b
  rw [bread, clean b, Option.getD_none]

theorem Coherent.bwrite (coherent : Coherent s) (b : Nat) (data : Memory) : Coherent (s.bwrite b data) := by
  intro x
  by_cases own : x = b
  · rw [own, bread_bwrite]
    show data = Function.update s.disk b data b
    rw [Function.update_self]
  · rw [bread_bwrite_of_ne s data own, coherent x]
    exact (Function.update_of_ne own _ _).symm

/-- A buffer that is recycled changes nothing that is read. -/
theorem Coherent.recycle (coherent : Coherent s) (b x : Nat) : (s.recycle b).bread x = s.bread x := by
  by_cases own : x = b
  · rw [own, coherent b]
    simp [bread, State.recycle]
  · exact bread_recycle_of_ne s own

theorem balloc_coherent (coherent : Coherent s) (done : balloc sb s = .ok (b, after)) : Coherent after := by
  obtain ⟨-, -, rfl⟩ := balloc_cases done
  exact (coherent.bwrite _ _).bwrite _ _

theorem slotAddr_coherent (coherent : Coherent s) (done : slotAddr sb s ip k = .ok (b, after)) : Coherent after := by
  rcases slotAddr_cases done with ⟨-, -, rfl⟩ | ⟨-, mid, found, rfl⟩
  · exact coherent
  · have kept := balloc_coherent coherent found
    exact fun x => kept x

theorem tableAddr_coherent {table : Nat} (coherent : Coherent s) (done : tableAddr sb s table j = .ok (b, after)) :
    Coherent after := by
  rcases tableAddr_cases done with ⟨-, -, rfl⟩ | ⟨-, mid, found, rfl⟩
  · exact coherent
  · exact (balloc_coherent coherent found).bwrite _ _

/-- The blocks that `bmap` adds go to the disk. -/
theorem bmap_coherent {bn : Nat} (coherent : Coherent s) (done : bmap sb s ip bn = .ok (b, after)) : Coherent after := by
  rcases bmap_cases done with ⟨-, slot⟩ | ⟨-, -, table, mid, found, rest⟩
  · exact slotAddr_coherent coherent slot
  · exact tableAddr_coherent (slotAddr_coherent coherent found) rest

/-- A write that stops in a block: the bytes before the block are written, and the buffer of the block holds the bytes that
were copied before the stop. -/
structure Torn (sb : Superblock) (s mid after : State) (ip : InodeIx) (i : Nat) (src : Memory) (limit off n tot count last b : Nat) :
    Prop where
  moved : Moved sb s mid ip i
  coherent : Coherent mid
  content : content sb mid i = splice (content sb s i) off (count - tot) fun k => src (tot + k)
  started : tot ≤ count
  last_eq : last = off + (count - tot)
  block : pointer sb mid (i, place (last / bsize)) = b
  nonzero : b ≠ 0
  spoiled : after = mid.spoil b (splice (mid.bread b) (last % bsize) (limit - count) fun k => src (count + k))
  reached : count ≤ limit
  inside : limit - count < min (n - count) (bsize - last % bsize)
  boundary : count = tot ∨ last % bsize = 0

/-- The loop of `writei` stops in the block in which the source ends. -/
theorem writeLoop_torn {rounds count last : Nat} (sound : Sound sb s) (live : Live s ip i) (coherent : Coherent s) (more : tot ≤ limit)
    (short : limit < n) (enough : n ≤ tot + rounds)
    (done : writeLoop sb ip src (some limit) n rounds s tot off = .ok (count, last, after)) :
    ∃ mid b, Torn sb s mid after ip i src limit off n tot count last b := by
  induction rounds generalizing s tot off with
  | zero => omega
  | succ rounds ih =>
      have left : tot < n := by omega
      rw [writeLoop, if_pos left] at done
      split at done
      · contradiction
      · rename_i b mid mapped
        have found := bmap_mapped sound live mapped
        have still := (found.grown.extended.live ip i).mpr live
        have kept := bmap_coherent coherent mapped
        have size := round_size off left
        have place : off % bsize < bsize := Nat.mod_lt _ (by decide)
        dsimp only at done
        split at done
        · rename_i all
          rw [all] at done
          have room : min (n - tot) (bsize - off % bsize) ≤ limit - tot := by
            have whole : min (min (n - tot) (bsize - off % bsize)) (limit - tot) = min (n - tot) (bsize - off % bsize) := all
            omega
          have bytes : min (n - tot) (bsize - off % bsize) = bsize - off % bsize := by omega
          rw [bytes] at done size room
          have put := put_bwrite found.sound found.block found.nonzero
            (splice (mid.bread b) (off % bsize) (bsize - off % bsize) fun k => src (tot + k))
          obtain ⟨last_mid, c, torn⟩ := ih put.sound (put.live.mpr still) (kept.bwrite _ _) (by omega) (by omega) done
          refine ⟨last_mid, c, (found.moved.trans put.moved).trans torn.moved, torn.coherent, ?_, ?_, ?_, torn.block, torn.nonzero,
            torn.spoiled, torn.reached, torn.inside, ?_⟩
          · have above := torn.started
            have rest : count - tot = bsize - off % bsize + (count - (tot + (bsize - off % bsize))) := by omega
            rw [torn.content, splice_of_put put found.block found.nonzero (Nat.le_refl _), found.grown.content, rest, ← splice_splice]
            simp only [Nat.add_assoc]
          · have above := torn.started
            omega
          · have above := torn.started
            have behind := torn.last_eq
            omega
          · right
            have behind := torn.last_eq
            have unit : bsize = 1024 := rfl
            rcases torn.boundary with same | whole
            · rw [unit] at behind same ⊢
              omega
            · exact whole
        · rename_i some
          simp only [Except.ok.injEq, Prod.mk.injEq] at done
          obtain ⟨rfl, rfl, rfl⟩ := done
          have part : copied (.some limit) tot (min (n - tot) (bsize - off % bsize)) =
              min (min (n - tot) (bsize - off % bsize)) (limit - tot) := rfl
          rw [part] at some
          have stop : copied (.some limit) tot (min (n - tot) (bsize - off % bsize)) = limit - tot := by omega
          refine ⟨mid, b, found.moved, kept, ?_, Nat.le_refl _, by omega, found.block, found.nonzero, ?_, more, ?_, Or.inl rfl⟩
          · rw [Nat.sub_self, splice_none, found.grown.content]
          · rw [stop]
          · omega

/-- A read of a range that starts in the file, ends inside the largest file and does not wrap gives the bytes of the data up
to the end of the file. -/
def ReadsAs (sb : Superblock) (s : State) (ip : InodeIx) (i : Nat) (data : Memory) : Prop :=
  ∀ room dst off n, off ≤ (s.itable ip).size → off + n < 2 ^ 32 → off + available s ip off n ≤ maxfile * bsize →
    fits room (available s ip off n) → Enough sb s i (reach off (available s ip off n)) →
      ∃ after, readi sb s ip room dst off n = .ok (available s ip off n,
        splice dst 0 (available s ip off n) fun k => data (off + k), after)

/-- An inode in memory reads as the bytes of its blocks and their buffers. -/
theorem readsAs_content (sound : Sound sb s) (live : Live s ip i) : ReadsAs sb s ip i (content sb s i) := by
  intro room dst off n inside small range fit enough
  obtain ⟨⟨value, data, after⟩, done⟩ := readi_total room dst sound live inside small range enough
  obtain ⟨result, bytes⟩ := readi_reads sound live inside small fit done
  refine ⟨after, ?_⟩
  rw [done, result, bytes]
  rfl

/-- Released buffers are recycled in any order. -/
def evict (s : State) (blocks : List Nat) : State := blocks.foldl State.recycle s

/-- Recycled buffers change nothing that is read, when they hold what the disk has. -/
theorem evict_still (sound : Sound sb s) (coherent : Coherent s) (blocks : List Nat) :
    Sound sb (evict s blocks) ∧ (evict s blocks).itable = s.itable ∧ (evict s blocks).bread = s.bread := by
  induction blocks generalizing s with
  | nil => exact ⟨sound, rfl, rfl⟩
  | cons b blocks ih =>
      have same : (s.recycle b).bread = s.bread := funext (coherent.recycle b)
      have next : Coherent (s.recycle b) := by
        intro x
        rw [same]
        exact coherent x
      obtain ⟨kept, table, reads⟩ := ih (sound.recycle b) next
      exact ⟨kept, table, reads.trans same⟩

theorem content_evict (sound : Sound sb s) (coherent : Coherent s) (blocks : List Nat) (i : Nat) :
    content sb (evict s blocks) i = content sb s i := by
  obtain ⟨kept, table, reads⟩ := evict_still sound coherent blocks
  have slots (x k : Nat) : addr sb (evict s blocks) x k = addr sb s x k := by
    rcases live_or_idle s x with ⟨iq, live⟩ | idle
    · have held : Live (evict s blocks) iq x := by rwa [Live, table]
      rw [addr_live sb kept.unique held, addr_live sb sound.unique live, table]
    · have gone (iq : InodeIx) : ¬Live (evict s blocks) iq x := by
        rw [Live, table]
        exact idle iq
      rw [addr_idle gone, addr_idle idle, dinode, dinode, reads]
  have pointers := pointer_congr (fun x _ k _ => slots x k) fun x _ _ j => by rw [reads]
  funext x
  rw [content, content, pointers, reads]

/-- A write has changed what it reports: the file reads as the old bytes with the written ones in their place, the other
files read as before, also when buffers are recycled, and all buffers hold what the disk has. -/
structure Reported (sb : Superblock) (s after : State) (ip : InodeIx) (i : Nat) (src : Memory) (off count : Nat) : Prop where
  coherent : Coherent after
  size : (after.itable ip).size = max (s.itable ip).size (off + count)
  reads : ∀ blocks, ReadsAs sb (evict after blocks) ip i (splice (content sb s i) off count src)
  others : ∀ blocks iq j, j ≠ i → Live s iq j → ReadsAs sb (evict after blocks) iq j (content sb s j)

/-- The bytes written before the block in which the source ends. -/
def wholeBlocks (off limit : Nat) : Nat := if off / bsize = (off + limit) / bsize then 0 else (off + limit) / bsize * bsize - off

/-- A write that is not refused runs its loop and saves the inode. -/
theorem writei_loop {value : Int} {room : Room} (done : writei sb s ip src room off n = .ok (value, after)) (accepted : value ≠ -1) :
    ∃ count last mid, writeLoop sb ip src room n n s 0 off = .ok (count, last, mid) ∧ value = (count : Nat) ∧
      after = iupdate sb (mid.setInode ip ((mid.itable ip).reaching last)) ip := by
  unfold writei at done
  split at done
  · cases done
    exact absurd rfl accepted
  · split at done
    · cases done
      exact absurd rfl accepted
    · split at done
      · contradiction
      · rename_i count last mid wrote
        have sized : (if last > (mid.itable ip).size then mid.setInode ip { mid.itable ip with size := last } else mid) =
            mid.setInode ip ((mid.itable ip).reaching last) := by
          rw [Inode.reaching]
          split
          · rename_i longer
            rw [Nat.max_eq_right (Nat.le_of_lt longer)]
          · rename_i shorter
            rw [Nat.max_eq_left (Nat.not_lt.mp shorter), State.setInode, Function.update_eq_self]
        dsimp only at done
        rw [sized] at done
        cases done
        exact ⟨count, last, mid, wrote, rfl, rfl⟩

/-- A buffer that keeps its data holds what the disk has. -/
theorem Coherent.spoil (coherent : Coherent s) (b : Nat) : Coherent (s.spoil b (s.bread b)) := by
  intro x
  by_cases own : x = b
  · rw [own, bread_spoil, coherent b]
    rfl
  · rw [bread_spoil_of_ne s _ own, coherent x]
    rfl

/-- A buffer with other data that is released without a `bwrite` differs from the disk, also after the inode is saved. -/
theorem spoil_coherent_iff (coherent : Coherent s) {inode : Inode} (apart : b ≠ iblock sb inode.inum) :
    Coherent (iupdate sb ((s.spoil b data).setInode ip inode) ip) ↔ data = s.bread b := by
  constructor
  · intro kept
    have entry : ((s.spoil b data).setInode ip inode).itable ip = inode := itable_setInode ..
    have own := kept b
    have reads : (iupdate sb ((s.spoil b data).setInode ip inode) ip).bread b = data := by
      rw [iupdate, entry, bread_bwrite_of_ne _ _ apart]
      exact bread_spoil s b data
    have disk : (iupdate sb ((s.spoil b data).setInode ip inode) ip).disk b = s.disk b := by
      rw [iupdate, entry]
      exact Function.update_of_ne apart _ _
    rw [reads, disk] at own
    rw [own, coherent b]
  · rintro rfl
    have kept : Coherent ((s.spoil b (s.bread b)).setInode ip inode) := coherent.spoil b
    exact kept.bwrite _ _

/-- The bytes in front of a stop are those of the blocks that are complete. -/
theorem wholeBlocks_eq {count : Nat} (reached : count ≤ limit) (inside : limit - count < bsize - (off + count) % bsize)
    (boundary : count = 0 ∨ (off + count) % bsize = 0) : count = wholeBlocks off limit := by
  have unit : bsize = 1024 := rfl
  rw [unit] at inside boundary
  rw [wholeBlocks, unit]
  split
  · omega
  · omega

theorem Torn.count_eq {count last : Nat} (torn : Torn sb s mid after ip i src limit off n 0 count last b) :
    last = off + count ∧ count = wholeBlocks off limit := by
  have ended := torn.last_eq
  rw [Nat.sub_zero] at ended
  have inside := torn.inside
  have boundary := torn.boundary
  rw [ended] at inside boundary
  exact ⟨ended, wholeBlocks_eq torn.reached (by omega) boundary⟩

/-- The buffer of the block in which the source ends keeps its data when the copied bytes are those of the file. -/
theorem Torn.same_iff {count last : Nat} (torn : Torn sb s mid after ip i src limit off n 0 count last b) :
    splice (mid.bread b) (last % bsize) (limit - count) (fun k => src (count + k)) = mid.bread b ↔
      ∀ k, count ≤ k → k < limit → src k = Fs.content sb s i (off + k) := by
  have ended := torn.count_eq.1
  have inside := torn.inside
  have old (k : Nat) (low : count ≤ k) (high : k < limit) : mid.bread b (last % bsize + (k - count)) = Fs.content sb s i (off + k) := by
    have place : last % bsize + (k - count) = (off + k) % bsize ∧ (off + k) / bsize = last / bsize := by
      have unit : bsize = 1024 := rfl
      rw [unit] at inside ⊢
      omega
    have outside : ¬(off ≤ off + k ∧ off + k < off + (count - 0)) := by omega
    rw [place.1, content_block torn.block torn.nonzero place.2, torn.content, splice, if_neg outside]
  constructor
  · intro same k low high
    have byte := congrFun same (last % bsize + (k - count))
    rw [splice_inside _ _ (by omega) (by omega), old k low high] at byte
    rw [← byte]
    congr 1
    omega
  · intro same
    funext x
    by_cases within : last % bsize ≤ x ∧ x < last % bsize + (limit - count)
    · have byte := same (count + (x - last % bsize)) (by omega) (by omega)
      rw [splice_inside _ _ within.1 within.2, byte, ← old _ (by omega) (by omega)]
      congr 1
      omega
    · rw [splice_outside _ _ (by omega)]

/-- A content that stays, of an inode that stays in memory, reads the same with any buffers recycled. -/
theorem reads_evicted (sound : Sound sb s) (coherent : Coherent s) (live : Live s ip i) (blocks : List Nat) :
    ReadsAs sb (evict s blocks) ip i (content sb s i) := by
  obtain ⟨kept, table, -⟩ := evict_still sound coherent blocks
  have held : Live (evict s blocks) ip i := by rwa [Live, table]
  have reads := readsAs_content kept held
  rwa [content_evict sound coherent] at reads

/-- A write of which the source ends before its last byte reports the bytes of the complete blocks, and it has changed only these if and only if the bytes copied into the block in which the source ends are those of the file. -/
theorem short_write_iff (sb : Superblock) (s after : State) (ip : InodeIx) (i : Nat) (src : Memory) (off limit n : Nat) (value : Int)
    (sound : Sound sb s) (coherent : Coherent s) (live : Live s ip i) (short : limit < n)
    (done : writei sb s ip src (some limit) off n = .ok (value, after)) (accepted : value ≠ -1) :
    ∃ count : Nat, value = count ∧ count < n ∧ count = wholeBlocks off limit ∧
      (Reported sb s after ip i src off count ↔ ∀ k, wholeBlocks off limit ≤ k → k < limit → src k = content sb s i (off + k)) := by
  obtain ⟨count, last, state, wrote, rfl, rfl⟩ := writei_loop done accepted
  obtain ⟨mid, b, torn⟩ := writeLoop_torn sound live coherent (Nat.zero_le _) short (Nat.le_add_left _ _) wrote
  obtain ⟨rfl, whole⟩ := torn.count_eq
  have put := put_spoil torn.moved.sound torn.block torn.nonzero
    (splice (mid.bread b) ((off + count) % bsize) (limit - count) fun k => src (count + k))
  rw [← torn.spoiled] at put
  have moved := torn.moved.trans put.moved
  have held := (moved.extended.live ip i).mpr live
  have saved : Saved sb state _ ip i ((state.itable ip).reaching (off + count)) := save put.sound held rfl rfl rfl rfl
  have inum : ((state.itable ip).reaching (off + count)).inum = i := held.2.2
  have apart : b ≠ iblock sb ((state.itable ip).reaching (off + count)).inum := by
    have above := torn.moved.sound.owned.above (i, place ((off + count) / bsize)) (torn.block ▸ torn.nonzero)
    have below := iblock_lt torn.moved.sound.valid (torn.moved.sound.inside ip i ((torn.moved.extended.live ip i).mpr live))
    have between := bmapstart_lt sb
    rw [torn.block] at above
    rw [inum]
    omega
  have kept : Coherent (iupdate sb (state.setInode ip ((state.itable ip).reaching (off + count))) ip) ↔
      ∀ k, count ≤ k → k < limit → src k = content sb s i (off + k) := by
    rw [← torn.same_iff, ← spoil_coherent_iff torn.coherent apart, ← torn.spoiled]
  refine ⟨count, rfl, Nat.lt_of_le_of_lt torn.reached short, whole, ?_⟩
  rw [← whole, ← kept]
  constructor
  · exact fun reported => reported.coherent
  · intro fine
    have same := torn.same_iff.mpr (kept.mp fine)
    have bytes : content sb state i = splice (content sb s i) off count src := by
      funext x
      rw [put.content, same]
      split
      · rename_i own
        rw [content_block torn.block torn.nonzero own.2, torn.content, Nat.sub_zero]
        simp only [Nat.zero_add]
      · rw [torn.content, Nat.sub_zero]
        simp only [Nat.zero_add]
    constructor
    · exact fine
    · exact (saved.size moved).2
    · intro blocks
      rw [← bytes, ← saved.content i]
      exact reads_evicted saved.sound fine ((saved.live moved ip i).mpr live) blocks
    · intro blocks iq j other entry
      rw [← moved.others j other, ← saved.content j]
      exact reads_evicted saved.sound fine ((saved.live moved iq j).mpr entry) blocks

/-- Two bytes are written, of which only the first can be copied. -/
def shortRun : Except String (Int × State) := writei smallVolume smallState 0 (fun _ => 65) (some 1) 0 2

theorem short_write_iff_small : ∃ after, shortRun = .ok (0, after) ∧ ∃ count : Nat, (0 : Int) = count ∧ count < 2 ∧
    count = wholeBlocks 0 1 ∧ (Reported smallVolume smallState after 0 1 (fun _ => 65) 0 count ↔
      ∀ k, wholeBlocks 0 1 ≤ k → k < 1 → 65 = content smallVolume smallState 1 (0 + k)) := by
  have tested : (shortRun.toOption.any fun run => run.1 == 0) = true := by decide +kernel
  obtain ⟨⟨value, after⟩, ran, zero⟩ := (Option.any_eq_true ..).mp tested
  have done := Machine.toOption_some.mp ran
  rw [beq_iff_eq] at zero
  dsimp only at zero
  subst zero
  exact ⟨after, done, short_write_iff smallVolume smallState after 0 1 (fun _ => 65) 0 1 2 0 small_sound
    (Clean.coherent fun _ => rfl) small_live (by decide) done (by decide)⟩

/-- The byte that was copied stays in the buffer of the block, although the write reports no byte. -/
theorem short_write_torn : Sound smallVolume smallState ∧ Coherent smallState ∧ Live smallState 0 1 ∧
    ∃ after, shortRun = .ok (0, after) ∧ ¬Reported smallVolume smallState after 0 1 (fun _ => 65) 0 0 := by
  have tested : (shortRun.toOption.any fun run => run.1 == 0 && run.2.bread 4 0 == 65 && run.2.disk 4 0 == 0) = true := by
    decide +kernel
  obtain ⟨⟨value, after⟩, ran, bytes⟩ := (Option.any_eq_true ..).mp tested
  have done := Machine.toOption_some.mp ran
  rw [Bool.and_eq_true, Bool.and_eq_true, beq_iff_eq, beq_iff_eq, beq_iff_eq] at bytes
  obtain ⟨⟨zero, buffer⟩, disk⟩ := bytes
  dsimp only at zero buffer disk
  subst zero
  refine ⟨small_sound, Clean.coherent fun _ => rfl, small_live, after, done, ?_⟩
  intro reported
  have same := congrFun (reported.coherent 4) 0
  rw [buffer, disk] at same
  contradiction

end BtbuOs.Fs
