import BtbuOs.Fs.FileBytes
import BtbuOs.Lib.Slots

namespace BtbuOs.Fs

open Bytes Machine Ownership State Slots

variable {sb : Superblock} {s mid after : State} {dp ip iq : InodeIx} {d i j k n o off inum size : Nat} {name c data : Memory}

/-- The part of a name that a directory stores and compares. -/
def key (name : Memory) : List Byte := clip name 0 dirsiz

/-- The entry at the nth place of a directory. -/
def entryAt (c : Memory) (j : Nat) : Option (List Byte × Nat) :=
  if load c (direntSize * j) 2 = 0 then none else some (key fun k => c (direntSize * j + 2 + k), load c (direntSize * j) 2)

/-- The bytes of a directory as a row of entries. -/
def listing (c : Memory) (size : Nat) : Table (List Byte) Nat := { slot := entryAt c, count := size / direntSize }

/-- The entries of a directory in memory. -/
def entries (sb : Superblock) (s : State) (dp : InodeIx) (d : Nat) : Table (List Byte) Nat :=
  listing (content sb s d) (s.itable dp).size

/-- A directory in memory consists of whole entries, and no name has two of them. -/
structure Listed (sb : Superblock) (s : State) (dp : InodeIx) (d : Nat) : Prop where
  sound : Sound sb s
  live : Live s dp d
  directory : (s.itable dp).type = tDir
  whole : (s.itable dp).size % direntSize = 0
  small : (s.itable dp).size ≤ maxfile * bsize
  unique : (entries sb s dp d).Unique

/-- A name that was copied compares like the name. -/
theorem clip_getD (t : Memory) (k n : Nat) : clip (fun x => (clip t k n).getD (x - k) 0) k n = clip t k n := by
  induction n generalizing k with
  | zero => rfl
  | succ n ih =>
      by_cases last : t k = 0
      · have zeros : clip t k (n + 1) = List.replicate (n + 1) 0 := by rw [clip, if_pos last]
        rw [clip, zeros, if_pos]
        rw [Nat.sub_self]
        rfl
      · have more : clip t k (n + 1) = t k :: clip t (k + 1) n := by rw [clip, if_neg last]
        have first : (t k :: clip t (k + 1) n).getD (k - k) 0 = t k := by
          rw [Nat.sub_self]
          rfl
        rw [clip, more, first, if_neg last, List.cons.injEq]
        refine ⟨rfl, Eq.trans (clip_congr ?_) (ih (k + 1))⟩
        intro x above below
        have index : x - k = x - (k + 1) + 1 := by omega
        rw [index]
        rfl

theorem entryAt_eq_some_iff {e : List Byte × Nat} :
    entryAt c j = some e ↔ load c (direntSize * j) 2 ≠ 0 ∧ key (fun k => c (direntSize * j + 2 + k)) = e.1 ∧ load c (direntSize * j) 2 = e.2 := by
  rw [entryAt]
  split
  · rename_i zero
    simp [zero]
  · rename_i busy
    rw [Option.some.injEq, Prod.ext_iff]
    exact ⟨fun same => ⟨busy, same⟩, And.right⟩

theorem entryAt_eq_none_iff : entryAt c j = none ↔ load c (direntSize * j) 2 = 0 := by
  rw [entryAt]
  split
  · rename_i zero
    simp [zero]
  · rename_i busy
    simp [busy]

/-- An entry with the name is a slot with its key. -/
theorem names_iff : Names c name (direntSize * j) ↔ ∃ i, entryAt c j = some (key name, i) := by
  constructor
  · rintro ⟨busy, same⟩
    exact ⟨_, entryAt_eq_some_iff.mpr ⟨busy, same.symm, rfl⟩⟩
  · rintro ⟨i, held⟩
    obtain ⟨busy, same, -⟩ := entryAt_eq_some_iff.mp held
    exact ⟨busy, same.symm⟩

/-- The entry that `dirlink` writes. -/
theorem entryAt_dirent (name : Memory) (positive : 0 < inum) (small : inum < 2 ^ 16) : entryAt (dirent inum name) 0 = some (key name, inum) := by
  have number : load (dirent inum name) (direntSize * 0) 2 = inum := by
    rw [dirent, strncpy, Nat.mul_zero, load_splice_of_disjoint _ _ (Or.inl (by decide : 0 + 2 ≤ 2)), load_store]
    exact Nat.mod_eq_of_lt small
  have text : key (fun k => dirent inum name (direntSize * 0 + 2 + k)) = key name := by
    refine Eq.trans (clip_congr ?_) (clip_getD name 0 dirsiz)
    intro x _ below
    rw [dirent, strncpy, Nat.mul_zero, Nat.zero_add, splice_inside _ _ (Nat.le_add_right 2 x) (by omega), Nat.add_sub_cancel_left, Nat.sub_zero]
  exact entryAt_eq_some_iff.mpr ⟨by rw [number]; exact Nat.ne_of_gt positive, text, number⟩

theorem entryAt_zero : entryAt (fun _ => 0) 0 = none := entryAt_eq_none_iff.mpr (load_zero fun _ _ _ => rfl)

/-- Sixteen bytes that are written at an entry change this entry. -/
theorem listing_splice (c data : Memory) (whole : size % direntSize = 0) (j : Nat) :
    listing (splice c (direntSize * j) direntSize data) (max size (direntSize * j + direntSize)) = (listing c size).put j (entryAt data 0) := by
  have sixteen : direntSize = 16 := rfl
  have fourteen : dirsiz = 14 := rfl
  have count : max size (direntSize * j + direntSize) / direntSize = max (size / direntSize) (j + 1) := by
    rw [sixteen] at whole ⊢
    omega
  have slots : entryAt (splice c (direntSize * j) direntSize data) = Function.update (entryAt c) j (entryAt data 0) := by
    funext x
    by_cases own : x = j
    · subst own
      rw [Function.update_self]
      have number : load (splice c (direntSize * x) direntSize data) (direntSize * x) 2 = load data (direntSize * 0) 2 := by
        apply load_shift
        intro k below
        rw [splice_inside _ _ (Nat.le_add_right _ k) (by omega), Nat.add_sub_cancel_left, Nat.mul_zero, Nat.zero_add]
      have text : key (fun k => splice c (direntSize * x) direntSize data (direntSize * x + 2 + k)) =
          key fun k => data (direntSize * 0 + 2 + k) := by
        apply clip_congr
        intro k _ below
        rw [splice_inside _ _ (by omega) (by omega)]
        congr 1
        omega
      rw [entryAt, entryAt, number, text]
    · rw [Function.update_of_ne own]
      have apart : direntSize * x + direntSize ≤ direntSize * j ∨ direntSize * j + direntSize ≤ direntSize * x := by
        rw [sixteen]
        omega
      have number : load (splice c (direntSize * j) direntSize data) (direntSize * x) 2 = load c (direntSize * x) 2 :=
        load_splice_of_disjoint _ _ (by omega)
      have text : key (fun k => splice c (direntSize * j) direntSize data (direntSize * x + 2 + k)) =
          key fun k => c (direntSize * x + 2 + k) := by
        apply clip_congr
        intro k _ below
        rw [splice_outside _ _ (by omega)]
      rw [entryAt, entryAt, number, text]
  rw [listing, slots, count]
  rfl

/-- The first entry with a name, as a slot. -/
theorem FirstNamed.slot (found : FirstNamed c name size 0 o) :
    ∃ j, o = direntSize * j ∧ j < size / direntSize ∧ entryAt c j = some (key name, load c o 2) := by
  have sixteen : direntSize = 16 := rfl
  have aligned : o % direntSize = 0 := by rw [found.aligned, Nat.zero_mod]
  have inside := found.inside
  have spot : o = direntSize * (o / direntSize) := by
    have quotient := Nat.div_add_mod o direntSize
    omega
  have named := found.named
  rw [spot, names_iff] at named
  obtain ⟨i, held⟩ := named
  refine ⟨o / direntSize, spot, ?_, ?_⟩
  · rw [sixteen] at inside ⊢
    omega
  · have number : load c (direntSize * (o / direntSize)) 2 = i := (entryAt_eq_some_iff.mp held).2.2
    rw [held, ← number, ← spot]

/-- A name without an entry has no slot. -/
theorem Unnamed.slots (absent : Unnamed c name size 0) (i : Nat) : ¬(listing c size).Holds (key name) i := by
  rintro ⟨j, inside, held⟩
  have low : j < size / direntSize := inside
  have sixteen : direntSize = 16 := rfl
  refine absent (direntSize * j) (Nat.zero_le _) ?_ (by simp) (names_iff.mpr ⟨i, held⟩)
  rw [sixteen] at low ⊢
  omega

/-- The blocks that a directory gets for its holes leave its entries. -/
theorem Listed.grown (listed : Listed sb s dp d) (sound : Sound sb mid) (grown : Grown sb s mid dp d) :
    Listed sb mid dp d ∧ entries sb mid dp d = entries sb s dp d ∧ mid.itable dp = { s.itable dp with addrs := (mid.itable dp).addrs } := by
  obtain ⟨addrs, entry⟩ := grown.extended.entry dp
  have same : entries sb mid dp d = entries sb s dp d := by rw [entries, entries, grown.content, entry]
  refine ⟨⟨sound, (grown.extended.live dp d).mpr listed.live, ?_, ?_, ?_, ?_⟩, same, by rw [entry]⟩
  · rw [entry]
    exact listed.directory
  · rw [entry]
    exact listed.whole
  · rw [entry]
    exact listed.small
  · rw [same]
    exact listed.unique

theorem Visited.content (visited : Visited s after) (sound : Sound sb s) (i : Nat) : content sb after i = content sb s i := by
  have pointers := visited.pointer sound (visited.unique sound.unique)
  funext x
  rw [Fs.content, Fs.content, pointers, State.bread, State.bread, visited.disk, visited.unwritten]

theorem Listed.visited (listed : Listed sb s dp d) (visited : Visited s after) :
    Listed sb after dp d ∧ entries sb after dp d = entries sb s dp d := by
  have entry := visited.held dp listed.live.1
  have same : entries sb after dp d = entries sb s dp d := by rw [entries, entries, visited.content listed.sound, entry]
  refine ⟨⟨visited.sound listed.sound, (visited.live dp d).mpr listed.live, ?_, ?_, ?_, ?_⟩, same⟩
  · rw [entry]
    exact listed.directory
  · rw [entry]
    exact listed.whole
  · rw [entry]
    exact listed.small
  · rw [same]
    exact listed.unique

/-- An entry that is written changes one slot, and the other files stay. -/
theorem Listed.written (listed : Listed sb s dp d)
    (done : writei sb s dp data none (direntSize * j) direntSize = .ok (direntSize, after))
    (unique : ((entries sb s dp d).put j (entryAt data 0)).Unique) :
    Listed sb after dp d ∧ entries sb after dp d = (entries sb s dp d).put j (entryAt data 0) ∧
      ∀ i, i ≠ d → content sb after i = content sb s i := by
  have whole := listed.whole
  have before := listed.small
  rcases writei_saved listed.sound listed.live done with ⟨refused, -⟩ | ⟨range, count, mid, -, -, moved, saved, writes⟩
  · contradiction
  · obtain ⟨rfl, bytes, -⟩ := writes fun _ absent => absurd absent (by simp)
    have inside := range (by decide)
    obtain ⟨own, size⟩ := saved.size moved
    obtain ⟨addrs, entry⟩ := moved.extended.entry dp
    have same : entries sb after dp d = (entries sb s dp d).put j (entryAt data 0) := by
      rw [entries, saved.content, bytes, size]
      exact listing_splice (content sb s d) data whole j
    refine ⟨⟨saved.sound, (saved.live moved dp d).mpr listed.live, ?_, ?_, ?_, ?_⟩, same, ?_⟩
    · rw [own, entry]
      exact listed.directory
    · have sixteen : direntSize = 16 := rfl
      rw [size]
      rw [sixteen] at whole ⊢
      omega
    · rw [size]
      omega
    · rw [same]
      exact unique
    · exact fun i apart => (saved.content i).trans (moved.others i apart)

/-- The first place without an entry. -/
theorem free_slot (aligned : o % direntSize = 0) (empty : o < size → load c o 2 = 0)
    (used : ∀ x, x < o → x % direntSize = 0 → load c x 2 ≠ 0) (reached : o ≤ size) :
    (listing c size).Free (o / direntSize) ∧ o = direntSize * (o / direntSize) := by
  have sixteen : direntSize = 16 := rfl
  have spot : o = direntSize * (o / direntSize) := by
    have quotient := Nat.div_add_mod o direntSize
    omega
  refine ⟨⟨?_, ?_, ?_⟩, spot⟩
  · exact Nat.div_le_div_right reached
  · intro inside
    have low : o / direntSize < size / direntSize := inside
    have zero : load c (direntSize * (o / direntSize)) 2 = 0 := by
      rw [← spot]
      rw [sixteen] at low
      exact empty (by omega)
    exact entryAt_eq_none_iff.mpr zero
  · intro i below held
    have zero := entryAt_eq_none_iff.mp held
    rw [sixteen] at below
    exact used (direntSize * i) (by rw [sixteen]; omega) (by simp) zero

/-- A write that is not refused starts inside the file or right behind it. -/
theorem writei_reached {value : Int} {room : Room} (done : writei sb s ip data room off n = .ok (value, after)) (accepted : value ≠ -1) :
    off ≤ (s.itable ip).size := by
  by_contra exceeds
  rw [writei, if_pos (Or.inl (Nat.not_le.mp exceeds))] at done
  cases done
  exact accepted rfl

/-- A write from the kernel that returns writes all its bytes. -/
theorem writei_whole {count : Nat} (sound : Sound sb s) (live : Live s ip i) (done : writei sb s ip data none off n = .ok (count, after)) :
    count = n := by
  rcases writei_saved sound live done with ⟨refused, -⟩ | ⟨-, x, state, counted, -, moved, saved, writes⟩
  · omega
  · obtain ⟨rfl, -⟩ := writes fun _ absent => absurd absent (by simp)
    exact Int.ofNat_inj.mp counted

/-- The content of every inode and what is known of the inodes in memory stay; a hole of the directory may get its block. -/
def Unchanged (sb : Superblock) (s after : State) (dp : InodeIx) (d : Nat) : Prop := ∃ mid, Grown sb s mid dp d ∧ Visited mid after

/-- A call that changes the directory, with its name. -/
inductive DirCall where
  | link (name : Memory) (inum : Nat)
  | unlink (name : Memory)

/-- An inode number is not zero and has 16 bits. -/
def DirCall.Valid : DirCall → Prop
  | .link _ inum => 0 < inum ∧ inum < 2 ^ 16
  | .unlink _ => True

/-- A call as the entries see it. -/
def DirCall.toCall : DirCall → Call (List Byte) Nat
  | .link name inum => .insert (key name) inum
  | .unlink name => .erase (key name)

def DirCall.run (sb : Superblock) (dp : InodeIx) (s : State) : DirCall → Except String (Int × State)
  | .link name inum => dirlink sb s dp name inum
  | .unlink name => dirunlink sb s dp name

/-- A call that returns is a step of the row of entries: it returns zero when it is done, and otherwise it returns minus one and nothing changes. -/
theorem DirCall.step {call : DirCall} {value : Int} (listed : Listed sb s dp d) (valid : call.Valid)
    (done : call.run sb dp s = .ok (value, after)) :
    Listed sb after dp d ∧ (value = 0 ∨ value = -1 ∧ Unchanged sb s after dp d) ∧ (∀ i, i ≠ d → content sb after i = content sb s i) ∧
      Table.Step (entries sb s dp d) call.toCall (decide (value = 0)) (entries sb after dp d) := by
  cases call with
  | link name inum =>
      obtain ⟨mid, kept, grown, cases⟩ := dirlink_cases listed.sound listed.live done
      obtain ⟨next, same, entry⟩ := listed.grown kept grown
      have size : (mid.itable dp).size = (s.itable dp).size := by rw [entry]
      rcases cases with ⟨rfl, visited, o, first⟩ | ⟨rfl, absent, o, aligned, empty, used, wrote⟩
      · obtain ⟨last, equal⟩ := next.visited visited
        obtain ⟨j, -, inside, held⟩ := first.slot
        refine ⟨last, Or.inr ⟨rfl, mid, grown, visited⟩, fun i _ => (visited.content kept i).trans (grown.content i), ?_⟩
        rw [equal, same]
        exact .taken ⟨j, inside, held⟩
      · have reached := writei_reached wrote (by decide)
        rw [size] at reached
        obtain ⟨free, spot⟩ := free_slot aligned empty used reached
        rw [spot] at wrote
        have missing : ∀ old, ¬(entries sb s dp d).Holds (key name) old := absent.slots
        have written := entryAt_dirent name valid.1 valid.2
        have unique : ((entries sb mid dp d).put (o / direntSize) (entryAt (dirent inum name) 0)).Unique := by
          rw [same, written]
          exact free.unique missing listed.unique
        obtain ⟨last, changed, others⟩ := next.written wrote unique
        rw [same, written] at changed
        refine ⟨last, Or.inl rfl, fun i apart => (others i apart).trans (grown.content i), ?_⟩
        rw [changed]
        exact .insert missing free
  | unlink name =>
      obtain ⟨mid, kept, grown, cases⟩ := dirunlink_cases listed.sound listed.live done
      obtain ⟨next, same, entry⟩ := listed.grown kept grown
      rcases cases with ⟨rfl, rfl, absent⟩ | ⟨rfl, o, last, first, visited, wrote⟩
      · refine ⟨next, Or.inr ⟨rfl, _, grown, ⟨rfl, rfl, rfl, fun _ _ => rfl, fun _ => id⟩⟩, fun i _ => grown.content i, ?_⟩
        rw [same]
        exact .absent absent.slots
      · obtain ⟨seen, equal⟩ := next.visited visited
        obtain ⟨j, spot, inside, held⟩ := first.slot
        have low : j < (entries sb s dp d).count := inside
        have full : (entries sb s dp d).slot j = some (key name, load (content sb s d) o 2) := held
        rw [spot] at wrote
        have unique : ((entries sb last dp d).put j (entryAt (fun _ => 0) 0)).Unique := by
          rw [equal, same, entryAt_zero]
          exact listed.unique.erase low
        obtain ⟨final, changed, others⟩ := seen.written wrote unique
        rw [equal, same, entryAt_zero] at changed
        refine ⟨final, Or.inl rfl, fun i apart => (others i apart).trans ((visited.content kept i).trans (grown.content i)), ?_⟩
        rw [changed]
        exact .erase low full

section Space

variable {ks : Finset Nat} {room : Room} {dst : Memory} {tot : Nat} {value : Int}

/-- A read takes free blocks only for the places that it needs. -/
theorem readLoop_supply {rounds : Nat} (sound : Sound sb s) (live : Live s ip i) (enough : Enough sb s i ks)
    (paths : ∀ x, off ≤ x → x < off + (n - tot) → path (x / bsize) ⊆ ks)
    (done : readLoop sb ip room n rounds s tot off dst = .ok (value, data, after)) : Enough sb after i ks := by
  induction rounds generalizing s tot off dst with
  | zero =>
      cases done
      exact enough
  | succ rounds ih =>
      rw [readLoop] at done
      split at done
      · rename_i more
        split at done
        · contradiction
        · rename_i b mid mapped
          have found := bmap_mapped sound live mapped
          have supplied := found.supply ks (paths off (Nat.le_refl _) (by omega)) enough
          have size := round_size off more
          dsimp only at done
          generalize min (n - tot) (bsize - off % bsize) = m at done size
          split at done
          · exact ih found.sound ((found.grown.extended.live ip i).mpr live) supplied
              (fun x low high => paths x (by omega) (by omega)) done
          · cases done
            exact supplied
      · cases done
        exact enough

/-- With enough free blocks an entry inside the directory is read. -/
theorem readi_total_entry (sound : Sound sb s) (live : Live s dp d) (inside : off + direntSize ≤ (s.itable dp).size)
    (small : (s.itable dp).size ≤ maxfile * bsize) (subset : reach off direntSize ⊆ ks) (enough : Enough sb s d ks) :
    ∃ de after, readi sb s dp none (fun _ => 0) off direntSize = .ok (direntSize, de, after) ∧ Enough sb after d ks := by
  have sixteen : direntSize = 16 := rfl
  have whole : maxfile * bsize = 274432 := rfl
  have bytes : available s dp off direntSize = direntSize := by
    rw [available]
    omega
  have low : off ≤ (s.itable dp).size := by omega
  have word : off + direntSize < 2 ^ 32 := by omega
  obtain ⟨⟨value, de, after⟩, done⟩ := readi_total none (fun _ => 0) sound live low word
    (by rw [bytes]; omega) (by rw [bytes]; exact enough.mono subset)
  obtain ⟨number, -⟩ := readi_reads sound live low word (fun _ absent => absurd absent (by simp)) done
  have full : value = direntSize := by omega
  rw [full] at done
  refine ⟨de, after, done, ?_⟩
  rw [readi, if_neg (by omega), if_neg (by omega)] at done
  apply readLoop_supply sound live enough _ done
  intro x low high
  exact Finset.Subset.trans (path_subset_reach low (by omega) (by omega)) subset

/-- The places of a part of a range are places of the range. -/
theorem reach_mono {low count : Nat} (above : off ≤ low) (below : low + count ≤ off + n) : reach low count ⊆ reach off n := by
  apply Finset.biUnion_subset_biUnion_of_subset_left
  intro bn member
  rw [Finset.mem_filter] at member ⊢
  refine ⟨member.1, ?_, ?_⟩
  · omega
  · omega

/-- The search for a name from `off` on comes to the entry. -/
structure Reached (c name : Memory) (off x : Nat) : Prop where
  above : off ≤ x
  aligned : x % direntSize = off % direntSize
  first : ∀ y, off ≤ y → y < x → y % direntSize = off % direntSize → ¬Names c name y

theorem Reached.behind {x : Nat} (reached : Reached c name (off + direntSize) x) (other : ¬Names c name off) : Reached c name off x := by
  have sixteen : direntSize = 16 := rfl
  have above := reached.above
  have aligned := reached.aligned
  rw [Nat.add_mod_right] at aligned
  refine ⟨by omega, aligned, fun y low high same => ?_⟩
  rcases next_entry low same with rfl | later
  · exact other
  · exact reached.first y later high (by rw [Nat.add_mod_right, same])

/-- With enough free blocks for the entries that it comes to the search for a name ends behind the directory, or with the first
entry with the name and `iget`. -/
theorem findEntry_outcome (name : Memory) (rounds : Nat) (sound : Sound sb s) (live : Live s dp d) (sized : (s.itable dp).size = size) (small : size ≤ maxfile * bsize)
    (whole : size % direntSize = 0) (aligned : off % direntSize = 0)
    (subset : ∀ x, x < size → Reached (content sb s d) name off x → reach x direntSize ⊆ ks) (enough : Enough sb s d ks) :
    ∃ mid, Sound sb mid ∧ Grown sb s mid dp d ∧ Enough sb mid d ks ∧
      (findEntry sb dp name rounds s off = .ok (none, mid) ∨ ∃ o, FirstNamed (content sb s d) name size off o ∧
        findEntry sb dp name rounds s off = (iget mid (load (content sb s d) o 2)).map fun got => (some (got.1, o), got.2)) := by
  have sixteen : direntSize = 16 := rfl
  induction rounds generalizing s off with
  | zero => exact ⟨s, sound, Grown.refl sb s dp d, enough, Or.inl rfl⟩
  | succ rounds ih =>
      rw [findEntry]
      by_cases more : off < (s.itable dp).size
      · have inside : off + direntSize ≤ (s.itable dp).size := by
          rw [sixteen] at whole aligned ⊢
          omega
        obtain ⟨de, mid, read, supplied⟩ := readi_total_entry sound live inside (sized ▸ small)
          (subset off (by omega) ⟨Nat.le_refl off, rfl, fun y low high => absurd high (by omega)⟩) enough
        obtain ⟨kept, grown, -, bytes⟩ := readi_entry sound live read (by simp)
        obtain ⟨number, named⟩ := entry_fields name bytes
        have still := (grown.extended.live dp d).mpr live
        have size' : (mid.itable dp).size = size := by
          obtain ⟨addrs, entry⟩ := grown.extended.entry dp
          rw [entry, ← sized]
        rw [if_pos more, read]
        dsimp only
        rw [if_neg (by simp), number]
        have later (other : ¬Names (content sb s d) name off) : ∃ last, Sound sb last ∧ Grown sb s last dp d ∧ Enough sb last d ks ∧
            (findEntry sb dp name rounds mid (off + direntSize) = .ok (none, last) ∨ ∃ o, FirstNamed (content sb s d) name size off o ∧
              findEntry sb dp name rounds mid (off + direntSize) =
                (iget last (load (content sb s d) o 2)).map fun got => (some (got.1, o), got.2)) := by
          obtain ⟨last, good, rest, left, cases⟩ := ih kept still size' (by rw [Nat.add_mod_right, aligned])
            (fun x low reached => subset x low (Reached.behind (by rwa [grown.content d] at reached) other)) supplied
          rw [grown.content d] at cases
          refine ⟨last, good, grown.trans good rest, left, ?_⟩
          rcases cases with none | ⟨o, first, got⟩
          · exact Or.inl none
          · exact Or.inr ⟨o, first.behind other, got⟩
        by_cases zero : load (content sb s d) off 2 = 0
        · rw [if_pos zero]
          exact later fun names => names.1 zero
        · rw [if_neg zero]
          by_cases equal : strncmp name (fun k => de (2 + k)) 0 dirsiz = 0
          · rw [if_pos equal]
            refine ⟨mid, kept, grown, supplied, Or.inr ⟨off, ⟨Nat.le_refl _, rfl, sized ▸ inside, ⟨zero, named.mp equal⟩,
              fun x low high => absurd high (by omega)⟩, ?_⟩⟩
            cases iget mid (load (content sb s d) off 2) with
            | error message => rfl
            | ok got => rfl
          · rw [if_neg equal]
            exact later fun names => equal (named.mpr names.2)
      · rw [if_neg more]
        exact ⟨s, sound, Grown.refl sb s dp d, enough, Or.inl rfl⟩

/-- With enough free blocks the search for an empty entry does not panic. -/
theorem emptyEntry_total (rounds : Nat) (sound : Sound sb s) (live : Live s dp d) (sized : (s.itable dp).size = size) (small : size ≤ maxfile * bsize)
    (whole : size % direntSize = 0) (aligned : off % direntSize = 0) (reached : off ≤ size) (subset : reach 0 size ⊆ ks)
    (enough : Enough sb s d ks) : ∃ o mid, emptyEntry sb dp rounds s off = .ok (o, mid) ∧ o ≤ size ∧ Enough sb mid d ks := by
  have sixteen : direntSize = 16 := rfl
  induction rounds generalizing s off with
  | zero => exact ⟨off, s, rfl, reached, enough⟩
  | succ rounds ih =>
      rw [emptyEntry]
      by_cases more : off < (s.itable dp).size
      · have inside : off + direntSize ≤ (s.itable dp).size := by
          rw [sixteen] at whole aligned ⊢
          omega
        obtain ⟨de, mid, read, supplied⟩ := readi_total_entry sound live inside (sized ▸ small)
          (Finset.Subset.trans (reach_mono (Nat.zero_le off) (by omega)) subset) enough
        obtain ⟨kept, grown, -, -⟩ := readi_entry sound live read (by simp)
        have size' : (mid.itable dp).size = size := by
          obtain ⟨addrs, entry⟩ := grown.extended.entry dp
          rw [entry, ← sized]
        rw [if_pos more, read]
        dsimp only
        rw [if_neg (by simp)]
        split
        · exact ⟨off, mid, rfl, reached, supplied⟩
        · exact ih kept ((grown.extended.live dp d).mpr live) size' (by rw [Nat.add_mod_right, aligned]) (sized ▸ inside) supplied
      · rw [if_neg more]
        exact ⟨off, s, rfl, reached, enough⟩

end Space

/-- The table of inodes in memory has the inode or an unused entry. -/
def Admits (s : State) (inum : Nat) : Prop := ∃ ip, 0 < (s.itable ip).ref ∧ (s.itable ip).inum = inum ∨ (s.itable ip).ref = 0

/-- A reference is taken when the table admits the inode. -/
theorem iget_outcome (s : State) (inum : Nat) : Admits s inum ∧ (∃ ip after, iget s inum = .ok (ip, after) ∧ (after.itable ip).inum = inum) ∨
    ¬Admits s inum ∧ iget s inum = .error "iget: no inodes" := by
  cases got : iget s inum with
  | ok result =>
      obtain ⟨ip, after⟩ := result
      left
      rcases iget_cases got with ⟨held, same, rfl⟩ | ⟨-, free, rfl⟩
      · refine ⟨⟨ip, Or.inl ⟨held, same⟩⟩, ip, _, rfl, ?_⟩
        rw [setRef, itable_setInode]
        exact same
      · refine ⟨⟨ip, Or.inr free⟩, ip, _, rfl, ?_⟩
        rw [itable_setInode]
  | error message =>
      right
      unfold iget at got
      split at got
      · contradiction
      · rename_i absent
        split at got
        · rename_i full
          cases got
          refine ⟨?_, rfl⟩
          rintro ⟨ip, ⟨held, same⟩ | free⟩
          · have failed := List.find?_eq_none.mp absent ip (List.mem_finRange ip)
            simp [held, same] at failed
          · have failed := List.find?_eq_none.mp full ip (List.mem_finRange ip)
            simp [free] at failed
        · contradiction

theorem Grown.admits (grown : Grown sb s mid dp d) (inum : Nat) : Admits mid inum ↔ Admits s inum := by
  apply exists_congr
  intro ip
  obtain ⟨addrs, entry⟩ := grown.extended.entry ip
  rw [entry]

/-- The volume has blocks for the holes of the directory and for one more entry. -/
def Space (sb : Superblock) (s : State) (dp : InodeIx) (d : Nat) : Prop := Enough sb s d (reach 0 ((s.itable dp).size + direntSize))

/-- The directory has an empty entry, or its size is not yet the largest one. -/
def Roomy (sb : Superblock) (s : State) (dp : InodeIx) (d : Nat) : Prop :=
  (∃ j, j < (entries sb s dp d).count ∧ (entries sb s dp d).slot j = none) ∨ (s.itable dp).size < maxfile * bsize

/-- With enough free blocks a lookup finds out whether the name is there, and then it takes a reference to the inode. -/
theorem dirlookup_outcome {ks : Finset Nat} (listed : Listed sb s dp d) (name : Memory)
    (subset : ∀ x, x < (s.itable dp).size → Reached (content sb s d) name 0 x → reach x direntSize ⊆ ks) (enough : Enough sb s d ks) :
    ∃ mid, Sound sb mid ∧ Grown sb s mid dp d ∧ Enough sb mid d ks ∧
      ((entries sb s dp d).find (key name) = none ∧ dirlookup sb s dp name = .ok (none, mid) ∨
        ∃ o i, (entries sb s dp d).find (key name) = some i ∧ FirstNamed (content sb s d) name (s.itable dp).size 0 o ∧
          dirlookup sb s dp name = (iget mid i).map fun got => (some (got.1, o), got.2)) := by
  obtain ⟨mid, kept, grown, left, cases⟩ := findEntry_outcome name ((s.itable dp).size / direntSize + 1)
    listed.sound listed.live rfl listed.small listed.whole (Nat.zero_mod _) subset enough
  have looked : dirlookup sb s dp name = findEntry sb dp name ((s.itable dp).size / direntSize + 1) s 0 := by
    rw [dirlookup, if_neg (not_not.mpr listed.directory)]
  refine ⟨mid, kept, grown, left, ?_⟩
  rw [looked]
  rcases cases with missed | ⟨o, first, got⟩
  · refine Or.inl ⟨?_, missed⟩
    obtain ⟨-, last, -, -, ⟨-, -, absent⟩ | ⟨ip, o, found, -⟩⟩ := dirlookup_cases listed.sound listed.live (looked.trans missed)
    · exact (Table.find_eq_none_iff _ _).mpr absent.slots
    · contradiction
  · obtain ⟨j, -, inside, held⟩ := first.slot
    exact Or.inr ⟨o, _, (Table.find_eq_some_iff listed.unique).mpr ⟨j, inside, held⟩, first, got⟩

/-- The entries of the directory lie in its size. -/
theorem Listed.entry_subset {x : Nat} {ks : Finset Nat} (listed : Listed sb s dp d) (subset : reach 0 (s.itable dp).size ⊆ ks) (inside : x < (s.itable dp).size)
    (reached : Reached c name 0 x) : reach x direntSize ⊆ ks := by
  have sixteen : direntSize = 16 := rfl
  have whole := listed.whole
  have aligned := reached.aligned
  rw [sixteen] at whole aligned
  exact Finset.Subset.trans (reach_mono (Nat.zero_le x) (by omega)) subset

theorem Space.subset (s : State) (dp : InodeIx) : reach 0 (s.itable dp).size ⊆ reach 0 ((s.itable dp).size + direntSize) :=
  reach_mono (Nat.le_refl 0) (by omega)

/-- The three ways in which a lookup ends when there are enough free blocks. -/
theorem dirlookup_ways (listed : Listed sb s dp d) (space : Space sb s dp d) (name : Memory) :
    (∃ i ip o after, (entries sb s dp d).find (key name) = some i ∧ Admits s i ∧
        dirlookup sb s dp name = .ok (some (ip, o), after) ∧ (after.itable ip).inum = i) ∨
      (∃ i, (entries sb s dp d).find (key name) = some i ∧ ¬Admits s i ∧ dirlookup sb s dp name = .error "iget: no inodes") ∨
      (∃ after, (entries sb s dp d).find (key name) = none ∧ dirlookup sb s dp name = .ok (none, after)) := by
  obtain ⟨mid, -, grown, -, ⟨absent, looked⟩ | ⟨o, i, found, -, looked⟩⟩ :=
    dirlookup_outcome listed name (fun _ => listed.entry_subset (Space.subset s dp)) space
  · exact Or.inr (Or.inr ⟨mid, absent, looked⟩)
  · rcases iget_outcome mid i with ⟨admits, ip, last, got, number⟩ | ⟨full, got⟩
    · rw [got] at looked
      exact Or.inl ⟨i, ip, o, last, found, (grown.admits i).mp admits, looked, number⟩
    · rw [got] at looked
      exact Or.inr (Or.inl ⟨i, found, fun admits => full ((grown.admits i).mpr admits), looked⟩)

/-- The four ways in which `dirlink` ends when there are enough free blocks for the entries and for a new one. -/
theorem dirlink_supplied {ks : Finset Nat} (listed : Listed sb s dp d) (subset : reach 0 (s.itable dp).size ⊆ ks) (enough : Enough sb s d ks)
    (place : (∃ j, j < (entries sb s dp d).count ∧ (entries sb s dp d).slot j = none) ∨ reach 0 ((s.itable dp).size + direntSize) ⊆ ks)
    (name : Memory) (inum : Nat) :
    (∃ i after, (entries sb s dp d).find (key name) = some i ∧ Admits s i ∧ dirlink sb s dp name inum = .ok (-1, after)) ∨
      (∃ i, (entries sb s dp d).find (key name) = some i ∧ ¬Admits s i ∧ dirlink sb s dp name inum = .error "iget: no inodes") ∨
      (∃ after, (entries sb s dp d).find (key name) = none ∧ Roomy sb s dp d ∧ dirlink sb s dp name inum = .ok (0, after)) ∨
      ((entries sb s dp d).find (key name) = none ∧ ¬Roomy sb s dp d ∧ dirlink sb s dp name inum = .error "dirlink") := by
  obtain ⟨mid, kept, grown, left, ⟨absent, looked⟩ | ⟨o, i, found, -, looked⟩⟩ :=
    dirlookup_outcome listed name (fun _ => listed.entry_subset subset) enough
  · right
    right
    obtain ⟨next, same, entry⟩ := listed.grown kept grown
    have size : (mid.itable dp).size = (s.itable dp).size := by rw [entry]
    obtain ⟨o, last, searched, reached, supply⟩ := emptyEntry_total ((s.itable dp).size / direntSize + 1) next.sound next.live size listed.small
      listed.whole (Nat.zero_mod _) (Nat.zero_le _) subset left
    obtain ⟨good, more, -, aligned, empty, used⟩ := emptyEntry_cases next.sound next.live searched
    obtain ⟨final, equal, entry'⟩ := next.grown good more
    have size' : (last.itable dp).size = (s.itable dp).size := by rw [entry', size]
    have sixteen : direntSize = 16 := rfl
    have most : maxfile * bsize = 274432 := rfl
    have small := listed.small
    have whole := listed.whole
    rw [Nat.zero_mod] at aligned
    rw [grown.content d] at used
    have early (hole : ∃ j, j < (entries sb s dp d).count ∧ (entries sb s dp d).slot j = none) : o + direntSize ≤ (s.itable dp).size := by
      obtain ⟨j, inside, hole⟩ := hole
      have zero := entryAt_eq_none_iff.mp hole
      have low : j < (s.itable dp).size / direntSize := inside
      have stop : o ≤ direntSize * j := by
        by_contra exceeds
        exact used (direntSize * j) (Nat.zero_le _) (Nat.not_le.mp exceeds) (by simp) zero
      rw [sixteen] at low stop ⊢
      omega
    have roomy : Roomy sb s dp d ↔ o + direntSize ≤ maxfile * bsize := by
      constructor
      · rintro (hole | below)
        · have bound := early hole
          omega
        · rw [sixteen] at whole aligned ⊢
          omega
      · intro inside
        by_cases below : (s.itable dp).size < maxfile * bsize
        · exact Or.inr below
        · left
          have low : o < (s.itable dp).size := by omega
          have spot : direntSize * (o / direntSize) = o := by
            have quotient := Nat.div_add_mod o direntSize
            omega
          refine ⟨o / direntSize, ?_, entryAt_eq_none_iff.mpr ?_⟩
          · show o / direntSize < (s.itable dp).size / direntSize
            rw [sixteen] at whole aligned ⊢
            omega
          · rw [spot, ← grown.content d]
            apply empty
            · rwa [size]
            · rw [size, sixteen]
              omega
    by_cases inside : o + direntSize ≤ maxfile * bsize
    · left
      have supplied : reach o direntSize ⊆ ks := by
        rcases place with hole | more
        · have bound := early hole
          exact Finset.Subset.trans (reach_mono (Nat.zero_le o) (by omega)) subset
        · exact Finset.Subset.trans (reach_mono (Nat.zero_le o) (by omega)) more
      obtain ⟨count, after, wrote⟩ := writei_total (dirent inum name) none final.sound final.live (size' ▸ reached) inside
        (supply.mono supplied)
      have full := writei_whole final.sound final.live wrote
      refine ⟨after, absent, roomy.mpr inside, ?_⟩
      simp only [dirlink, looked, size, searched, wrote, full, bind, Except.bind]
      rfl
    · right
      have refused : writei sb last dp (dirent inum name) none o direntSize = .ok (-1, last) := by
        have word : (o + direntSize) % 2 ^ 32 = o + direntSize := Nat.mod_eq_of_lt (by omega)
        rw [writei, if_neg (by omega), if_pos (by omega)]
      refine ⟨absent, fun good => inside (roomy.mp good), ?_⟩
      simp only [dirlink, looked, size, searched, refused, bind, Except.bind]
      rfl
  · rcases iget_outcome mid i with ⟨admits, ip, last, got, -⟩ | ⟨full, got⟩
    · left
      obtain ⟨after, put, -⟩ := iput_iget sb got
      refine ⟨i, after, found, (grown.admits i).mp admits, ?_⟩
      simp only [dirlink, looked, got, Except.map, put, bind, Except.bind]
    · right
      left
      refine ⟨i, found, fun admits => full ((grown.admits i).mpr admits), ?_⟩
      simp only [dirlink, looked, got, Except.map, bind, Except.bind]

/-- The four ways in which `dirlink` ends when there are enough free blocks. -/
theorem dirlink_outcome (listed : Listed sb s dp d) (space : Space sb s dp d) (name : Memory) (inum : Nat) :
    (∃ i after, (entries sb s dp d).find (key name) = some i ∧ Admits s i ∧ dirlink sb s dp name inum = .ok (-1, after)) ∨
      (∃ i, (entries sb s dp d).find (key name) = some i ∧ ¬Admits s i ∧ dirlink sb s dp name inum = .error "iget: no inodes") ∨
      (∃ after, (entries sb s dp d).find (key name) = none ∧ Roomy sb s dp d ∧ dirlink sb s dp name inum = .ok (0, after)) ∨
      ((entries sb s dp d).find (key name) = none ∧ ¬Roomy sb s dp d ∧ dirlink sb s dp name inum = .error "dirlink") :=
  dirlink_supplied listed (Space.subset s dp) space (Or.inr (Finset.Subset.refl _)) name inum

theorem Visited.enough {ks : Finset Nat} (visited : Visited s after) (sound : Sound sb s) (enough : Enough sb s d ks) : Enough sb after d ks := by
  have pointers := visited.pointer sound (visited.unique sound.unique)
  have reads (b : Nat) : after.bread b = s.bread b := by rw [State.bread, State.bread, visited.disk, visited.unwritten]
  have blocks : free sb after = free sb s := by
    apply Finset.filter_congr
    intro b _
    rw [inUse_congr (reads _)]
  have places : vacant sb after d ks = vacant sb s d ks := by
    apply Finset.filter_congr
    intro k _
    rw [pointers]
  rw [Enough, blocks, places]
  exact enough

/-- The three ways in which `dirunlink` ends when there are enough free blocks. -/
theorem dirunlink_outcome (listed : Listed sb s dp d) (space : Space sb s dp d) (name : Memory) :
    (∃ i after, (entries sb s dp d).find (key name) = some i ∧ Admits s i ∧ dirunlink sb s dp name = .ok (0, after)) ∨
      (∃ i, (entries sb s dp d).find (key name) = some i ∧ ¬Admits s i ∧ dirunlink sb s dp name = .error "iget: no inodes") ∨
      (∃ after, (entries sb s dp d).find (key name) = none ∧ dirunlink sb s dp name = .ok (-1, after)) := by
  obtain ⟨mid, kept, grown, left, ⟨absent, looked⟩ | ⟨o, i, found, first, looked⟩⟩ :=
    dirlookup_outcome listed name (fun _ => listed.entry_subset (Space.subset s dp)) space
  · refine Or.inr (Or.inr ⟨mid, absent, ?_⟩)
    simp only [dirunlink, looked, bind, Except.bind]
  · obtain ⟨next, -, entry⟩ := listed.grown kept grown
    have size : (mid.itable dp).size = (s.itable dp).size := by rw [entry]
    rcases iget_outcome mid i with ⟨admits, ip, last, got, -⟩ | ⟨full, got⟩
    · left
      obtain ⟨state, put, visited⟩ := iput_iget sb got
      obtain ⟨final, -⟩ := next.visited visited
      have size' : (state.itable dp).size = (s.itable dp).size := by rw [visited.held dp next.live.1, size]
      have small := listed.small
      have inside := first.inside
      have range : o + direntSize ≤ maxfile * bsize := by omega
      obtain ⟨count, after, wrote⟩ := writei_total (fun _ => 0) none final.sound final.live (by omega) range
        ((visited.enough next.sound left).mono (reach_mono (Nat.zero_le o) (by omega)))
      have whole := writei_whole final.sound final.live wrote
      refine ⟨i, after, found, (grown.admits i).mp admits, ?_⟩
      simp only [dirunlink, looked, got, Except.map, put, wrote, whole, bind, Except.bind]
      rfl
    · right
      left
      refine ⟨i, found, fun admits => full ((grown.admits i).mpr admits), ?_⟩
      simp only [dirunlink, looked, got, Except.map, bind, Except.bind]

/-- The directory finds the inode number under the name. -/
def Finds (sb : Superblock) (s : State) (dp : InodeIx) (name : Memory) (inum : Nat) : Prop :=
  ∃ ip o after, dirlookup sb s dp name = .ok (some (ip, o), after) ∧ (after.itable ip).inum = inum

/-- The calls on a directory answer from a map of names, and each changes at most its own entry. -/
structure ActsAs (sb : Superblock) (s : State) (dp : InodeIx) (d : Nat) (bound : List Byte → Option Nat) : Prop where
  finds : ∀ name inum, Finds sb s dp name inum ↔ bound (key name) = some inum ∧ Admits s inum
  misses : ∀ name, (∃ after, dirlookup sb s dp name = .ok (none, after)) ↔ bound (key name) = none
  links : ∀ name inum, (∃ after, dirlink sb s dp name inum = .ok (0, after)) ↔ bound (key name) = none ∧ Roomy sb s dp d
  refusesLink : ∀ name inum, (∃ after, dirlink sb s dp name inum = .ok (-1, after)) ↔ ∃ i, bound (key name) = some i ∧ Admits s i
  unlinks : ∀ name, (∃ after, dirunlink sb s dp name = .ok (0, after)) ↔ ∃ i, bound (key name) = some i ∧ Admits s i
  refusesUnlink : ∀ name, (∃ after, dirunlink sb s dp name = .ok (-1, after)) ↔ bound (key name) = none
  panics : ∀ (call : DirCall) message, call.run sb dp s = .error message →
    (message = "iget: no inodes" ∧ ∃ i, bound call.toCall.key = some i ∧ ¬Admits s i) ∨ (message = "dirlink" ∧ ¬Roomy sb s dp d)
  unchanged : ∀ (call : DirCall) value after, call.Valid → call.run sb dp s = .ok (value, after) → value ≠ 0 → Unchanged sb s after dp d
  others : ∀ (call : DirCall) value after i, call.Valid → call.run sb dp s = .ok (value, after) → i ≠ d → content sb after i = content sb s i
  kept : ∀ (call : DirCall) value after j k i, call.Valid → call.run sb dp s = .ok (value, after) → k ≠ call.toCall.key →
    j < (entries sb s dp d).count → (entries sb s dp d).slot j = some (k, i) →
      j < (entries sb after dp d).count ∧ (entries sb after dp d).slot j = some (k, i)
  reuses : ∀ (call : DirCall) value after j, call.Valid → call.run sb dp s = .ok (value, after) →
    (entries sb after dp d).count ≠ (entries sb s dp d).count → j < (entries sb s dp d).count → (entries sb s dp d).slot j ≠ none

/-- The names and numbers of the entries of a directory decide what its calls do. -/
theorem Listed.acts (listed : Listed sb s dp d) (space : Space sb s dp d) : ActsAs sb s dp d (entries sb s dp d).find := by
  constructor
  · intro name inum
    rcases dirlookup_ways listed space name with ⟨i, ip, o, after, found, admits, done, number⟩ | ⟨i, found, full, done⟩ | ⟨after, absent, done⟩
    · rw [Finds, done, found, Option.some.injEq]
      constructor
      · rintro ⟨ir, place, last, same, equal⟩
        cases same
        rw [number] at equal
        exact ⟨equal, equal ▸ admits⟩
      · rintro ⟨rfl, -⟩
        exact ⟨ip, o, after, rfl, number⟩
    · simp only [Finds, done, found, reduceCtorEq, false_and, exists_false, Option.some.injEq, false_iff, not_and]
      rintro rfl
      exact full
    · simp [Finds, done, absent]
  · intro name
    rcases dirlookup_ways listed space name with ⟨i, ip, o, after, found, admits, done, number⟩ | ⟨i, found, full, done⟩ | ⟨after, absent, done⟩
    · simp [done, found]
    · simp [done, found]
    · simp [done, absent]
  · intro name inum
    rcases dirlink_outcome listed space name inum with ⟨i, after, found, admits, done⟩ | ⟨i, found, full, done⟩ |
      ⟨after, absent, roomy, done⟩ | ⟨absent, full, done⟩
    · simp [done, found]
    · simp [done, found]
    · simp [done, absent, roomy]
    · simp [done, absent, full]
  · intro name inum
    rcases dirlink_outcome listed space name inum with ⟨i, after, found, admits, done⟩ | ⟨i, found, full, done⟩ |
      ⟨after, absent, roomy, done⟩ | ⟨absent, full, done⟩
    · simp [done, found, admits]
    · simp [done, found, full]
    · simp [done, absent]
    · simp [done, absent]
  · intro name
    rcases dirunlink_outcome listed space name with ⟨i, after, found, admits, done⟩ | ⟨i, found, full, done⟩ | ⟨after, absent, done⟩
    · simp [done, found, admits]
    · simp [done, found, full]
    · simp [done, absent]
  · intro name
    rcases dirunlink_outcome listed space name with ⟨i, after, found, admits, done⟩ | ⟨i, found, full, done⟩ | ⟨after, absent, done⟩
    · simp [done, found]
    · simp [done, found]
    · simp [done, absent]
  · intro call message failed
    cases call with
    | link name inum =>
        rw [DirCall.run] at failed
        rcases dirlink_outcome listed space name inum with ⟨i, after, -, -, done⟩ | ⟨i, found, full, done⟩ | ⟨after, -, -, done⟩ | ⟨-, full, done⟩
        · rw [done] at failed
          contradiction
        · rw [done] at failed
          cases failed
          exact Or.inl ⟨rfl, i, found, full⟩
        · rw [done] at failed
          contradiction
        · rw [done] at failed
          cases failed
          exact Or.inr ⟨rfl, full⟩
    | unlink name =>
        rw [DirCall.run] at failed
        rcases dirunlink_outcome listed space name with ⟨i, after, -, -, done⟩ | ⟨i, found, full, done⟩ | ⟨after, -, done⟩
        · rw [done] at failed
          contradiction
        · rw [done] at failed
          cases failed
          exact Or.inl ⟨rfl, i, found, full⟩
        · rw [done] at failed
          contradiction
  · intro call value after valid done failed
    obtain ⟨-, result, -⟩ := DirCall.step listed valid done
    exact (result.resolve_left failed).2
  · intro call value after i valid done
    exact (DirCall.step listed valid done).2.2.1 i
  · intro call value after j k i valid done other inside held
    exact (DirCall.step listed valid done).2.2.2.kept inside held other
  · intro call value after j valid done grows inside
    exact (DirCall.step listed valid done).2.2.2.full grows inside

/-- A sequence of calls on a directory with their results, the last call first. -/
inductive DirRun (sb : Superblock) (dp : InodeIx) : State → List (DirCall × Int) → State → Prop where
  | nil {s : State} : DirRun sb dp s [] s
  | call {start s after : State} {log : List (DirCall × Int)} {call : DirCall} {value : Int} : DirRun sb dp start log s → call.Valid → call.run sb dp s = .ok (value, after) →
      DirRun sb dp start ((call, value) :: log) after

/-- The calls of a run on names, with whether they succeeded. -/
def outcomes (log : List (DirCall × Int)) : List (Call (List Byte) Nat × Bool) := log.map fun entry => (entry.1.toCall, decide (entry.2 = 0))

/-- A run on a directory is a run on the row of its entries. -/
theorem DirRun.refines {start : State} {log : List (DirCall × Int)} (run : DirRun sb dp start log s) (listed : Listed sb start dp d) :
    Listed sb s dp d ∧ Table.Run (entries sb start dp d) (outcomes log) (entries sb s dp d) := by
  induction run with
  | nil => exact ⟨listed, .nil⟩
  | call before valid done ih =>
      obtain ⟨last, -, -, step⟩ := DirCall.step ih.1 valid done
      exact ⟨last, .call ih.2 step⟩

/-- What the last successful call on a name left there, or otherwise the entry that the directory had. -/
def bound (sb : Superblock) (start : State) (dp : InodeIx) (d : Nat) (log : List (DirCall × Int)) (k : List Byte) : Option Nat :=
  (last k (outcomes log)).getD ((entries sb start dp d).find k)

/-- After every sequence of calls the directory is the map that the last successful call on each name has made. -/
theorem directory_map (sb : Superblock) (start s : State) (dp : InodeIx) (d : Nat) (log : List (DirCall × Int)) (listed : Listed sb start dp d)
    (run : DirRun sb dp start log s) (space : Space sb s dp d) : ActsAs sb s dp d (bound sb start dp d log) := by
  obtain ⟨last, refined⟩ := run.refines listed
  have same : (entries sb s dp d).find = bound sb start dp d log := funext (refined.find listed.unique)
  rw [← same]
  exact last.acts space

/-- An empty directory is in memory, and references to other inodes fill the table. -/
def crowdedState : State where
  disk := smallDisk
  unwritten := fun _ => none
  itable := fun ip => if ip = 0 then { idleInode with inum := 1, ref := 1, valid := true, type := tDir, nlink := 1 }
    else { idleInode with inum := ip.val + 1, ref := 1 }
  taken := []

theorem crowded_entry (ip : InodeIx) : (crowdedState.itable ip).inum = ip.val + 1 ∧ ((crowdedState.itable ip).valid = true → ip = 0) ∧
    (∀ k, (crowdedState.itable ip).addrs k = 0) ∧ 0 < (crowdedState.itable ip).ref := by
  by_cases own : ip = 0
  · subst own
    exact ⟨rfl, fun _ => rfl, fun _ => rfl, by decide⟩
  · have entry : crowdedState.itable ip = { idleInode with inum := ip.val + 1, ref := 1 } := if_neg own
    rw [entry]
    exact ⟨rfl, fun valid => absurd valid Bool.false_ne_true, fun _ => rfl, Int.one_pos⟩

theorem crowded_listed : Listed smallVolume crowdedState 0 1 := by
  have live : Live crowdedState 0 1 := by decide
  constructor
  · apply sound_of_empty
    · exact ⟨by decide, by decide⟩
    · intro ip iq _ _ same
      rw [(crowded_entry ip).1, (crowded_entry iq).1] at same
      exact Fin.ext (Nat.succ.inj same)
    · intro ip i held
      have own := (crowded_entry ip).2.1 held.2.1
      rw [own] at held
      rw [← held.2.2]
      decide
    · decide
    · exact fun ip k => (crowded_entry ip).2.2.1 k
    · exact fun i bounded k _ => small_empty i bounded k
    · decide
    · exact fun _ => rfl
    · rfl
  · exact live
  · rfl
  · rfl
  · decide
  · intro i j k v w inside
    exact absurd inside (Nat.not_lt_zero i)

/-- A name of one letter. -/
def letter : Memory := fun k => if k = 0 then 97 else 0

/-- An entry is made in the empty directory. -/
theorem crowded_run : ∃ after, DirRun smallVolume 0 crowdedState [(.link letter 200, 0)] after ∧ Space smallVolume after 0 1 ∧
    dirlink smallVolume after 0 letter 200 = .error "iget: no inodes" := by
  have tested : ((dirlink smallVolume crowdedState 0 letter 200).toOption.any fun run =>
      decide (run.1 = (0 : Int) ∧ (run.2.itable 0).size = 16 ∧ 1 ≤ (free smallVolume run.2).card) &&
        match dirlink smallVolume run.2 0 letter 200 with
        | .error message => message == "iget: no inodes"
        | .ok _ => false) = true := by decide +kernel
  obtain ⟨⟨value, after⟩, ran, facts⟩ := (Option.any_eq_true ..).mp tested
  have done := toOption_some.mp ran
  rw [Bool.and_eq_true, decide_eq_true_eq] at facts
  obtain ⟨⟨zero, size, blocks⟩, refused⟩ := facts
  dsimp only at zero size blocks refused
  subst zero
  refine ⟨after, .call .nil ⟨by decide, by decide⟩ done, ?_, ?_⟩
  · rw [Space, size, Enough]
    exact Nat.le_trans (Nat.le_trans (Finset.card_filter_le _ _) (card_reach (by decide))) blocks
  · cases again : dirlink smallVolume after 0 letter 200 with
    | error message =>
        rw [again] at refused
        rw [beq_iff_eq.mp refused]
    | ok result =>
        rw [again] at refused
        contradiction

theorem directory_map_letter : ∃ after, DirRun smallVolume 0 crowdedState [(.link letter 200, 0)] after ∧
    ActsAs smallVolume after 0 1 (bound smallVolume crowdedState 0 1 [(.link letter 200, 0)]) := by
  obtain ⟨after, run, space, -⟩ := crowded_run
  exact ⟨after, run, directory_map smallVolume crowdedState after 0 1 _ crowded_listed run space⟩

/-- A name that was just linked is not refused but ends in a panic, when references to other inodes fill the table. -/
theorem directory_panics : Listed smallVolume crowdedState 0 1 ∧ ∃ after, DirRun smallVolume 0 crowdedState [(.link letter 200, 0)] after ∧
    Space smallVolume after 0 1 ∧ bound smallVolume crowdedState 0 1 [(.link letter 200, 0)] (key letter) = some 200 ∧
      dirlink smallVolume after 0 letter 200 = .error "iget: no inodes" := by
  obtain ⟨after, run, space, failed⟩ := crowded_run
  exact ⟨crowded_listed, after, run, space, by decide, failed⟩

end BtbuOs.Fs
