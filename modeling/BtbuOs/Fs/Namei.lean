import BtbuOs.Fs.Directory

namespace BtbuOs.Fs

open Bytes Machine Ownership State

/-- The macro `FSMAGIC`. -/
def fsmagic : Nat := 0x10203040

/-- The fields of `struct superblock` have four bytes each; `readsb` copies them from block 1. -/
def readsb (disk : Nat → Memory) : Superblock where
  size := load (disk 1) 4 4
  ninodes := load (disk 1) 12 4
  inodestart := load (disk 1) 16 4
  bmapstart := load (disk 1) 20 4

def fsinit (disk : Nat → Memory) : Except String Superblock :=
  if load (disk 1) 0 4 = fsmagic then .ok (readsb disk) else .error "invalid file system"

/-- An entry of the table as it is at boot. -/
def idleInode : Inode := { inum := 0, ref := 0, valid := false, type := 0, nlink := 0, size := 0, addrs := fun _ => 0 }

/-- The state in which the kernel finds the disk. -/
def boot (disk : Nat → Memory) : State where
  disk := disk
  unwritten := fun _ => none
  itable := fun _ => idleInode
  taken := []

variable (sb : Superblock)

/-- Return the inode of the root directory. -/
def rootDir (s : State) : Except String (InodeIx × State) := do
  let (r, s) ← iget s rootino
  let s ← ivalid sb s r
  .ok (r, s)

/-- Find the corresponding inode according to the path. -/
def namei (s : State) (path : Memory) : Except String (Option InodeIx × State) := do
  let (dp, s) ← rootDir sb s
  let (found, s) ← dirlookup sb s dp path
  .ok (found.map Prod.fst, s)

variable {sb : Superblock} {s mid after : State} {ip dp : InodeIx} {d i bn n off tot o rounds : Nat} {name : Memory}

/-- The table block of an inode is there with each of its entries. -/
theorem table_of_entry (high : ¬bn < ndirect) (nonzero : pointer sb s (i, place bn) ≠ 0) : addr sb s i ndirect ≠ 0 := by
  intro zero
  rw [place, if_neg high, pointer_of_no_table zero (by omega)] at nonzero
  exact nonzero rfl

/-- A block that is there is found without a change of the state. -/
theorem bmap_present (sound : Sound sb s) (live : Live s ip i) (small : bn < maxfile) (nonzero : pointer sb s (i, place bn) ≠ 0) :
    bmap sb s ip bn = .ok (pointer sb s (i, place bn), s) := by
  have inside := sound.inside ip i live
  have whole : maxfile = ndirect + nindirect := rfl
  by_cases direct : bn < ndirect
  · have spot : pointer sb s (i, place bn) = (s.itable ip).addrs bn := by
      rw [place, if_pos direct, pointer_slot inside (Nat.le_of_lt direct), addr_live sb sound.unique live]
    rw [spot] at nonzero ⊢
    rw [bmap, if_pos direct, slotAddr, if_neg nonzero]
  · have table := table_of_entry direct nonzero
    have index : place bn = ndirect + 1 + (bn - ndirect) := by
      rw [place, if_neg direct]
      omega
    have low : bn - ndirect < nindirect := by omega
    have address := addr_live sb sound.unique live ndirect
    have spot : pointer sb s (i, place bn) = word (s.bread ((s.itable ip).addrs ndirect)) (bn - ndirect) := by
      rw [index, pointer_entry inside low, entry, if_neg table, address]
    rw [address] at table
    rw [spot] at nonzero ⊢
    rw [bmap, if_neg direct, if_pos low, slotAddr, if_neg table]
    show tableAddr sb s ((s.itable ip).addrs ndirect) (bn - ndirect) = _
    rw [tableAddr, if_neg nonzero]

/-- A range whose blocks are all there is read without a change of the state. -/
theorem readLoop_present (dst : Memory) (sound : Sound sb s) (live : Live s ip i)
    (present : ∀ x, off ≤ x → x < off + (n - tot) → x / bsize < maxfile ∧ pointer sb s (i, place (x / bsize)) ≠ 0)
    (below : tot ≤ n) (above : n ≤ tot + rounds) :
    readLoop sb ip none n rounds s tot off dst = .ok (n, splice dst tot (n - tot) fun k => content sb s i (off + k), s) := by
  induction rounds generalizing tot off dst with
  | zero =>
      have all : tot = n := by omega
      rw [readLoop, all, Nat.sub_self, splice_none]
  | succ rounds ih =>
      rw [readLoop]
      by_cases more : tot < n
      · obtain ⟨small, nonzero⟩ := present off (Nat.le_refl _) (by omega)
        have mapped := bmap_present sound live small nonzero
        have found := bmap_mapped sound live mapped
        have size := round_size off more
        rw [if_pos more, mapped]
        dsimp only
        generalize min (n - tot) (bsize - off % bsize) = m at size
        obtain ⟨positive, left, inside⟩ := size
        have rest : n - tot = m + (n - (tot + m)) := by omega
        rw [show copied none tot m = m from rfl, if_pos rfl, found.bytes inside,
          ih _ (fun x low high => present x (by omega) (by omega)) (by omega) (by omega), rest, ← splice_splice]
        simp only [Nat.add_assoc]
      · have all : tot = n := by omega
        rw [if_neg more, all, Nat.sub_self, splice_none]

/-- A read of bytes whose blocks are all there gives them and changes nothing. -/
theorem readi_present (dst : Memory) (off n : Nat) (sound : Sound sb s) (live : Live s ip i) (inside : off + n ≤ (s.itable ip).size) (small : off + n < 2 ^ 32)
    (present : ∀ x, off ≤ x → x < off + n → x / bsize < maxfile ∧ pointer sb s (i, place (x / bsize)) ≠ 0) :
    readi sb s ip none dst off n = .ok (n, splice dst 0 n fun k => content sb s i (off + k), s) := by
  have wraps : ¬(off > (s.itable ip).size ∨ (off + n) % 2 ^ 32 < off) := by
    rw [Nat.mod_eq_of_lt small]
    omega
  rw [readi, if_neg wraps, if_neg (by omega)]
  have loop := readLoop_present dst sound live (by rwa [Nat.sub_zero]) (Nat.zero_le n) (Nat.le_add_left n 0)
  rw [Nat.sub_zero] at loop
  exact loop

/-- The search for a name whose entries are all there only takes a reference to its inode. -/
theorem findEntry_present {size : Nat} (sound : Sound sb s) (live : Live s dp d) (found : FirstNamed (content sb s d) name size off o)
    (sized : (s.itable dp).size = size) (small : size < 2 ^ 32)
    (present : ∀ x, x < o + direntSize → x / bsize < maxfile ∧ pointer sb s (d, place (x / bsize)) ≠ 0)
    (enough : o < off + direntSize * rounds) :
    findEntry sb dp name rounds s off =
      (iget s (load (content sb s d) o 2)).map fun got => (some (got.1, o), got.2) := by
  have sixteen : direntSize = 16 := rfl
  induction rounds generalizing off with
  | zero =>
      have above := found.above
      omega
  | succ rounds ih =>
      have above := found.above
      have inside := found.inside
      have read := readi_present (fun _ => 0) off direntSize sound live (by omega) (by omega)
        fun x low high => present x (by omega)
      rw [findEntry, if_pos (by omega), read]
      dsimp only
      rw [if_neg (by simp)]
      have bytes (k : Nat) (below : k < direntSize) :
          splice (fun _ => 0) 0 direntSize (fun k => content sb s d (off + k)) k = content sb s d (off + k) := by
        rw [splice_inside _ _ (Nat.zero_le k) (by omega), Nat.sub_zero]
      obtain ⟨number, named⟩ := entry_fields name bytes
      rw [number]
      by_cases own : o = off
      · subst own
        rw [if_neg found.named.1, if_pos (named.mpr found.named.2)]
        cases iget s (load (content sb s d) o 2) with
        | error message => rfl
        | ok got => rfl
      · have later : off < o := by omega
        have other := found.first off (Nat.le_refl _) later rfl
        have aligned := found.aligned
        have next := (next_entry above aligned).resolve_left own
        have rest : findEntry sb dp name rounds s (off + direntSize) =
            (iget s (load (content sb s d) o 2)).map fun got => (some (got.1, o), got.2) := by
          apply ih
          · exact ⟨next, by rw [aligned, Nat.add_mod_right], inside, found.named, fun x low high same =>
              found.first x (by omega) high (by rw [same, Nat.add_mod_right])⟩
          · rw [Nat.mul_succ] at enough
            omega
        by_cases zero : load (content sb s d) off 2 = 0
        · rw [if_pos zero, rest]
        · rw [if_neg zero, if_neg fun equal => other ⟨zero, named.mp equal⟩, rest]

end BtbuOs.Fs
