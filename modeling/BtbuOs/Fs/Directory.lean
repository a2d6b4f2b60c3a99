import BtbuOs.Fs.Content
import BtbuOs.Fs.Truncate

namespace BtbuOs.Fs

open Bytes Machine Ownership State

/-- The comparison of two strings from an offset on. -/
def strncmp (p q : Memory) : Nat → Nat → Int
  | _, 0 => 0
  | k, n + 1 => if p k ≠ 0 ∧ p k = q k then strncmp p q (k + 1) n else (p k).toNat - (q k).toNat

/-- The first bytes of a string, with zeros behind its end. -/
def clip (t : Memory) : Nat → Nat → List Byte
  | _, 0 => []
  | k, n + 1 => if t k = 0 then List.replicate (n + 1) 0 else t k :: clip t (k + 1) n

def strncpy (s : Memory) (start : Nat) (t : Memory) (n : Nat) : Memory := splice s start n fun k => (clip t 0 n).getD k 0

/-- The entry of a directory, whose fields are both overwritten. -/
def dirent (inum : Nat) (name : Memory) : Memory := strncpy (store (fun _ => 0) 0 2 inum) 2 name dirsiz

variable (sb : Superblock)

/-- The loop of `dirlookup` from an offset on. -/
def findEntry (dp : InodeIx) (name : Memory) : Nat → State → Nat → Except String (Option (InodeIx × Nat) × State)
  | 0, s, _ => .ok (none, s)
  | rounds + 1, s, off =>
      if off < (s.itable dp).size then
        match readi sb s dp none (fun _ => 0) off direntSize with
        | .error message => .error message
        | .ok (count, de, s) =>
            if count ≠ direntSize then .error "dirlookup read"
            else if load de 0 2 = 0 then findEntry dp name rounds s (off + direntSize)
            else if strncmp name (fun k => de (2 + k)) 0 dirsiz = 0 then
              match iget s (load de 0 2) with
              | .error message => .error message
              | .ok (ip, s) => .ok (some (ip, off), s)
            else findEntry dp name rounds s (off + direntSize)
      else .ok (none, s)

/-- Look for a directory entry in a directory. -/
def dirlookup (s : State) (dp : InodeIx) (name : Memory) : Except String (Option (InodeIx × Nat) × State) :=
  if (s.itable dp).type ≠ tDir then .error "dirlookup not DIR"
  else findEntry sb dp name ((s.itable dp).size / direntSize + 1) s 0

/-- The loop of `dirlink` that looks for an empty entry. -/
def emptyEntry (dp : InodeIx) : Nat → State → Nat → Except String (Nat × State)
  | 0, s, off => .ok (off, s)
  | rounds + 1, s, off =>
      if off < (s.itable dp).size then
        match readi sb s dp none (fun _ => 0) off direntSize with
        | .error message => .error message
        | .ok (count, de, s) =>
            if count ≠ direntSize then .error "dirlink read"
            else if load de 0 2 = 0 then .ok (off, s)
            else emptyEntry dp rounds s (off + direntSize)
      else .ok (off, s)

/-- Write a new directory entry (name, inum) into the directory dp. -/
def dirlink (s : State) (dp : InodeIx) (name : Memory) (inum : Nat) : Except String (Int × State) := do
  match ← dirlookup sb s dp name with
  | (some (ip, _), s) => .ok (-1, ← iput sb s ip)
  | (none, s) =>
      let (off, s) ← emptyEntry sb dp ((s.itable dp).size / direntSize + 1) s 0
      let (count, s) ← writei sb s dp (dirent inum name) none off direntSize
      if count ≠ direntSize then .error "dirlink" else .ok (0, s)

/-- The entry with the name is cleared. -/
def dirunlink (s : State) (dp : InodeIx) (name : Memory) : Except String (Int × State) := do
  match ← dirlookup sb s dp name with
  | (none, s) => .ok (-1, s)
  | (some (ip, off), s) =>
      let s ← iput sb s ip
      let (count, s) ← writei sb s dp (fun _ => 0) none off direntSize
      if count ≠ direntSize then .error "dirunlink" else .ok (0, s)

variable {sb : Superblock} {s mid after : State} {dp ip : InodeIx} {i n off rounds : Nat} {name : Memory}

/-- Two strings compare as equal when their first bytes agree up to the end. -/
theorem strncmp_eq_zero_iff (p q : Memory) (k n : Nat) : strncmp p q k n = 0 ↔ clip p k n = clip q k n := by
  induction n generalizing k with
  | zero => simp [strncmp, clip]
  | succ n ih =>
      rw [strncmp]
      split
      · rename_i both
        rw [clip, clip, if_neg both.1, if_neg (both.2 ▸ both.1), ih, both.2, List.cons.injEq]
        exact ⟨fun rest => ⟨rfl, rest⟩, And.right⟩
      · rename_i ended
        have bytes : ((p k).toNat : Int) - (q k).toNat = 0 ↔ p k = q k := by
          rw [Int.sub_eq_zero, Int.natCast_inj, BitVec.toNat_inj]
        rw [bytes]
        constructor
        · intro same
          have last : p k = 0 := by
            by_contra more
            exact ended ⟨more, same⟩
          rw [clip, clip, ← same, if_pos last, if_pos last]
        · intro same
          rw [clip, clip] at same
          by_cases left : p k = 0
          · by_cases right : q k = 0
            · rw [left, right]
            · rw [if_pos left, if_neg right, List.replicate_succ, List.cons.injEq] at same
              exact absurd same.1.symm right
          · by_cases right : q k = 0
            · rw [if_neg left, if_pos right, List.replicate_succ, List.cons.injEq] at same
              exact absurd same.1 left
            · rw [if_neg left, if_neg right, List.cons.injEq] at same
              exact same.1

/-- Only the bytes that are compared matter. -/
theorem clip_congr {p q : Memory} {k n : Nat} (same : ∀ x, k ≤ x → x < k + n → p x = q x) : clip p k n = clip q k n := by
  induction n generalizing k with
  | zero => rfl
  | succ n ih =>
      rw [clip, clip, same k (Nat.le_refl _) (by omega), ih fun x above below => same x (by omega) (by omega)]

/-- The entry at the offset is in use and has the name. -/
def Names (c : Memory) (name : Memory) (off : Nat) : Prop :=
  load c off 2 ≠ 0 ∧ clip name 0 dirsiz = clip (fun k => c (off + 2 + k)) 0 dirsiz

instance (c name : Memory) (off : Nat) : Decidable (Names c name off) := inferInstanceAs (Decidable (_ ∧ _))

/-- A read that returns bytes starts inside the largest file. -/
theorem readi_inside {room : Room} {dst data : Memory} {value : Int} (sound : Sound sb s) (live : Live s ip i) (some : 0 < value)
    (done : readi sb s ip room dst off n = .ok (value, data, after)) : off < maxfile * bsize := by
  unfold readi at done
  split at done
  · cases done
    contradiction
  · dsimp only at done
    generalize (if off + n > (s.itable ip).size then (s.itable ip).size - off else n) = count at done
    cases count with
    | zero =>
        simp only [readLoop, Except.ok.injEq, Prod.mk.injEq] at done
        rw [← done.1] at some
        contradiction
    | succ rounds =>
        rw [readLoop, if_pos (Nat.succ_pos rounds)] at done
        split at done
        · contradiction
        · rename_i mapped
          have found := (bmap_mapped sound live mapped).inside
          exact (Nat.div_lt_iff_lt_mul (by decide)).mp found

variable {d inum o : Nat} {c de : Memory} {count : Int}

/-- A read of a whole entry gives its bytes. -/
theorem readi_entry (sound : Sound sb s) (live : Live s dp d)
    (done : readi sb s dp none (fun _ => 0) off direntSize = .ok (count, de, after)) (whole : ¬count ≠ direntSize) :
    Sound sb after ∧ Grown sb s after dp d ∧ off + direntSize ≤ (s.itable dp).size ∧
      ∀ k, k < direntSize → de k = content sb s d (off + k) := by
  have full : count = 16 := not_not.mp whole
  have low := readi_inside sound live (by omega) done
  have inside : off ≤ (s.itable dp).size := by
    by_contra exceeds
    rw [readi, if_pos (Or.inl (Nat.not_le.mp exceeds))] at done
    cases done
    contradiction
  have size : maxfile * bsize = 274432 := rfl
  obtain ⟨kept, grown⟩ := readi_grown sound live done
  obtain ⟨number, bytes⟩ := readi_reads sound live inside (by omega) (fun _ absent => absurd absent (by simp)) done
  have sixteen : direntSize = 16 := rfl
  refine ⟨kept, grown, by omega, fun k below => ?_⟩
  rw [bytes, splice_inside _ _ (Nat.zero_le k) (by omega)]
  rfl

/-- The fields of an entry that was read are those of the directory. -/
theorem entry_fields (name : Memory) (bytes : ∀ k, k < direntSize → de k = c (off + k)) :
    load de 0 2 = load c off 2 ∧ (strncmp name (fun k => de (2 + k)) 0 dirsiz = 0 ↔
      clip name 0 dirsiz = clip (fun k => c (off + 2 + k)) 0 dirsiz) := by
  constructor
  · apply load_shift
    intro k below
    rw [Nat.zero_add]
    exact bytes k (Nat.lt_trans below (by decide))
  · have same : clip (fun k => de (2 + k)) 0 dirsiz = clip (fun k => c (off + 2 + k)) 0 dirsiz := by
      apply clip_congr
      intro k _ below
      have fourteen : dirsiz = 14 := rfl
      have sixteen : direntSize = 16 := rfl
      rw [bytes (2 + k) (by omega), Nat.add_assoc]
    rw [strncmp_eq_zero_iff, same]

/-- The offset is that of the first entry from `off` on with the name. -/
structure FirstNamed (c name : Memory) (size off o : Nat) : Prop where
  above : off ≤ o
  aligned : o % direntSize = off % direntSize
  inside : o + direntSize ≤ size
  named : Names c name o
  first : ∀ x, off ≤ x → x < o → x % direntSize = off % direntSize → ¬Names c name x

/-- No entry from `off` on has the name. -/
def Unnamed (c name : Memory) (size off : Nat) : Prop :=
  ∀ x, off ≤ x → x < size → x % direntSize = off % direntSize → ¬Names c name x

/-- Offsets of entries in a row differ by the size of an entry. -/
theorem next_entry {x : Nat} (above : off ≤ x) (aligned : x % direntSize = off % direntSize) : x = off ∨ off + direntSize ≤ x := by
  unfold direntSize at *
  omega

/-- The entry in front does not have the name, so the search goes on behind it. -/
theorem FirstNamed.behind {size : Nat} (found : FirstNamed c name size (off + direntSize) o) (other : ¬Names c name off) :
    FirstNamed c name size off o := by
  have sixteen : direntSize = 16 := rfl
  have above := found.above
  have aligned := found.aligned
  rw [Nat.add_mod_right] at aligned
  refine ⟨by omega, aligned, found.inside, found.named, fun x low high same => ?_⟩
  rcases next_entry low same with rfl | later
  · exact other
  · exact found.first x later high (by rw [Nat.add_mod_right, same])

theorem Unnamed.behind {size : Nat} (absent : Unnamed c name size (off + direntSize)) (other : ¬Names c name off) :
    Unnamed c name size off := by
  intro x low high same
  rcases next_entry low same with rfl | later
  · exact other
  · exact absent x later high (by rw [Nat.add_mod_right, same])

/-- What the loop of `dirlookup` does: it gives the first entry with the name and takes a reference to its inode. -/
theorem findEntry_cases {result : Option (InodeIx × Nat)} (sound : Sound sb s) (live : Live s dp d)
    (done : findEntry sb dp name rounds s off = .ok (result, after)) :
    ∃ mid, Sound sb mid ∧ Grown sb s mid dp d ∧
      ((result = none ∧ after = mid ∧ ((s.itable dp).size < off + direntSize * rounds → Unnamed (content sb s d) name (s.itable dp).size off)) ∨
        ∃ ip o, result = some (ip, o) ∧ FirstNamed (content sb s d) name (s.itable dp).size off o ∧
          iget mid (load (content sb s d) o 2) = .ok (ip, after)) := by
  induction rounds generalizing s off with
  | zero =>
      cases done
      exact ⟨_, sound, Grown.refl sb _ dp d, Or.inl ⟨rfl, rfl, fun exceeds x low high => absurd high (by omega)⟩⟩
  | succ rounds ih =>
      rw [findEntry] at done
      split at done
      · rename_i more
        split at done
        · contradiction
        · rename_i count de mid read
          split at done
          · contradiction
          · rename_i whole
            obtain ⟨kept, grown, inside, bytes⟩ := readi_entry sound live read whole
            obtain ⟨number, named⟩ := entry_fields name bytes
            have still := (grown.extended.live dp d).mpr live
            have sized : (mid.itable dp).size = (s.itable dp).size := by
              obtain ⟨addrs, entry⟩ := grown.extended.entry dp
              rw [entry]
            have same : content sb mid d = content sb s d := grown.content d
            have later (other : ¬Names (content sb s d) name off)
                (rest : findEntry sb dp name rounds mid (off + direntSize) = .ok (result, after)) :
                ∃ last, Sound sb last ∧ Grown sb s last dp d ∧
                  ((result = none ∧ after = last ∧ ((s.itable dp).size < off + direntSize * (rounds + 1) →
                    Unnamed (content sb s d) name (s.itable dp).size off)) ∨
                    ∃ ip o, result = some (ip, o) ∧ FirstNamed (content sb s d) name (s.itable dp).size off o ∧
                      iget last (load (content sb s d) o 2) = .ok (ip, after)) := by
              obtain ⟨last, good, more, cases⟩ := ih kept still rest
              rw [same, sized] at cases
              refine ⟨last, good, grown.trans good more, ?_⟩
              rcases cases with ⟨none, equal, absent⟩ | ⟨ip, o, found, first, got⟩
              · exact Or.inl ⟨none, equal, fun exceeds => (absent (by rw [Nat.mul_succ] at exceeds; omega)).behind other⟩
              · exact Or.inr ⟨ip, o, found, first.behind other, got⟩
            split at done
            · rename_i zero
              rw [number] at zero
              exact later (fun names => names.1 zero) done
            · rename_i busy
              rw [number] at busy
              split at done
              · rename_i equal
                split at done
                · contradiction
                · rename_i ip final got
                  cases done
                  rw [number] at got
                  have first : FirstNamed (content sb s d) name (s.itable dp).size off off :=
                    ⟨Nat.le_refl _, rfl, inside, ⟨busy, named.mp equal⟩, fun x low high => absurd high (by omega)⟩
                  exact ⟨mid, kept, grown, Or.inr ⟨ip, off, rfl, first, got⟩⟩
              · rename_i other
                exact later (fun names => other (named.mpr names.2)) done
      · rename_i exceeds
        cases done
        exact ⟨_, sound, Grown.refl sb _ dp d, Or.inl ⟨rfl, rfl, fun _ x low high => absurd high (by omega)⟩⟩

/-- What a lookup that returns does: it gives the first entry of the directory with the name and takes a reference to its inode. -/
theorem dirlookup_cases {result : Option (InodeIx × Nat)} (sound : Sound sb s) (live : Live s dp d)
    (done : dirlookup sb s dp name = .ok (result, after)) :
    (s.itable dp).type = tDir ∧ ∃ mid, Sound sb mid ∧ Grown sb s mid dp d ∧
      ((result = none ∧ after = mid ∧ Unnamed (content sb s d) name (s.itable dp).size 0) ∨
        ∃ ip o, result = some (ip, o) ∧ FirstNamed (content sb s d) name (s.itable dp).size 0 o ∧
          iget mid (load (content sb s d) o 2) = .ok (ip, after)) := by
  unfold dirlookup at done
  split at done
  · contradiction
  · rename_i directory
    obtain ⟨mid, kept, grown, cases⟩ := findEntry_cases sound live done
    have enough : (s.itable dp).size < 0 + direntSize * ((s.itable dp).size / direntSize + 1) := by
      have quotient := Nat.div_add_mod (s.itable dp).size direntSize
      have rest := Nat.mod_lt (s.itable dp).size (show 0 < direntSize by decide)
      rw [Nat.mul_succ]
      omega
    refine ⟨not_not.mp directory, mid, kept, grown, ?_⟩
    rcases cases with ⟨none, same, absent⟩ | found
    · exact Or.inl ⟨none, same, absent enough⟩
    · exact Or.inr found

/-- What the search for an empty entry does: it stops at the first one, or behind the last entry. -/
theorem emptyEntry_cases (sound : Sound sb s) (live : Live s dp d) (done : emptyEntry sb dp rounds s off = .ok (o, after)) :
    Sound sb after ∧ Grown sb s after dp d ∧ off ≤ o ∧ o % direntSize = off % direntSize ∧
      (o < (s.itable dp).size → (s.itable dp).size < off + direntSize * rounds → load (content sb s d) o 2 = 0) ∧
      ∀ x, off ≤ x → x < o → x % direntSize = off % direntSize → load (content sb s d) x 2 ≠ 0 := by
  induction rounds generalizing s off with
  | zero =>
      cases done
      exact ⟨sound, Grown.refl sb _ dp d, Nat.le_refl _, rfl, fun low high => absurd low (by omega), fun x low high => absurd high (by omega)⟩
  | succ rounds ih =>
      rw [emptyEntry] at done
      split at done
      · split at done
        · contradiction
        · rename_i count de mid read
          split at done
          · contradiction
          · rename_i whole
            obtain ⟨kept, grown, inside, bytes⟩ := readi_entry sound live read whole
            obtain ⟨number, -⟩ := entry_fields (fun _ => 0) bytes
            rw [number] at done
            split at done
            · rename_i zero
              cases done
              exact ⟨kept, grown, Nat.le_refl _, rfl, fun _ _ => zero, fun x low high => absurd high (by omega)⟩
            · rename_i busy
              obtain ⟨good, more, above, aligned, empty, used⟩ := ih kept ((grown.extended.live dp d).mpr live) done
              have sized : (mid.itable dp).size = (s.itable dp).size := by
                obtain ⟨addrs, entry⟩ := grown.extended.entry dp
                rw [entry]
              rw [grown.content d] at empty used
              rw [sized] at empty
              rw [Nat.add_mod_right] at aligned
              refine ⟨good, grown.trans good more, by omega, aligned, fun low exceeds => empty low (by rw [Nat.mul_succ] at exceeds; omega), fun x low high same => ?_⟩
              rcases next_entry low same with rfl | later
              · exact busy
              · exact used x later high (by rw [Nat.add_mod_right, same])
      · rename_i exceeds
        cases done
        exact ⟨sound, Grown.refl sb _ dp d, Nat.le_refl _, rfl, fun low => absurd low exceeds, fun x low high => absurd high (by omega)⟩

/-- A reference was taken and given back, so at most an unused entry of the table has changed. -/
structure Visited (s after : State) : Prop where
  disk : after.disk = s.disk
  unwritten : after.unwritten = s.unwritten
  taken : after.taken = s.taken
  held : ∀ iq, 0 < (s.itable iq).ref → after.itable iq = s.itable iq
  idle : ∀ iq, ¬0 < (s.itable iq).ref → ¬0 < (after.itable iq).ref

/-- A reference that `iget` has just taken is given back without any other effect. -/
theorem iput_iget (sb : Superblock) (got : iget s inum = .ok (ip, mid)) : ∃ after, iput sb mid ip = .ok after ∧ Visited s after := by
  have later : ¬((mid.itable ip).ref = 1 ∧ (mid.itable ip).valid = true ∧ (mid.itable ip).nlink = 0) := by
    rcases iget_cases got with ⟨held, -, rfl⟩ | ⟨-, -, rfl⟩
    · rw [setRef, itable_setInode]
      rintro ⟨last, -⟩
      simp only at last
      omega
    · rw [itable_setInode]
      rintro ⟨-, valid, -⟩
      contradiction
  refine ⟨mid.setRef ip ((mid.itable ip).ref - 1), by rw [iput, if_neg later], ?_⟩
  rcases iget_cases got with ⟨held, -, rfl⟩ | ⟨-, free, rfl⟩
  · have same (iq : InodeIx) : (((s.setRef ip ((s.itable ip).ref + 1)).setRef ip
        (((s.setRef ip ((s.itable ip).ref + 1)).itable ip).ref - 1)).itable iq) = s.itable iq := by
      by_cases own : iq = ip
      · subst own
        simp only [setRef, itable_setInode, Int.add_sub_cancel]
      · simp only [setRef, itable_setInode_of_ne _ _ own]
    exact ⟨rfl, rfl, rfl, fun iq _ => same iq, fun iq low => by rwa [same]⟩
  · constructor
    · rfl
    · rfl
    · rfl
    · intro iq positive
      have apart : iq ≠ ip := by
        rintro rfl
        rw [free] at positive
        exact absurd positive (Int.lt_irrefl 0)
      rw [setRef, itable_setInode_of_ne _ _ apart, itable_setInode_of_ne _ _ apart]
    · intro iq low
      by_cases own : iq = ip
      · subst own
        simp only [setRef, itable_setInode]
        decide
      · rwa [setRef, itable_setInode_of_ne _ _ own, itable_setInode_of_ne _ _ own]

theorem Visited.live (visited : Visited s after) (iq : InodeIx) (j : Nat) : Live after iq j ↔ Live s iq j := by
  by_cases positive : 0 < (s.itable iq).ref
  · rw [Live, Live, visited.held iq positive]
  · exact ⟨fun live => absurd live.1 (visited.idle iq positive), fun live => absurd live.1 positive⟩

/-- No block changes its place by a visit. -/
theorem Visited.pointer (visited : Visited s after) (sound : Sound sb s) (unique : Unique after) (p : Place) :
    pointer sb after p = pointer sb s p := by
  have bread (b : Nat) : after.bread b = s.bread b := by rw [State.bread, State.bread, visited.disk, visited.unwritten]
  apply pointer_congr
  · intro i _ k _
    rcases live_or_idle s i with ⟨iq, live⟩ | idle
    · rw [addr_live sb unique ((visited.live iq i).mpr live), addr_live sb sound.unique live, visited.held iq live.1]
    · rw [addr_idle fun iq live => idle iq ((visited.live iq i).mp live), addr_idle idle, dinode_congr (bread _)]
  · exact fun i _ _ j => by rw [bread]

theorem Visited.unique (visited : Visited s after) (unique : Unique s) : Unique after := by
  have entry (iq : InodeIx) (positive : 0 < (after.itable iq).ref) : 0 < (s.itable iq).ref ∧ after.itable iq = s.itable iq := by
    by_cases held : 0 < (s.itable iq).ref
    · exact ⟨held, visited.held iq held⟩
    · exact absurd positive (visited.idle iq held)
  intro iq ir first second same
  rw [(entry iq first).2, (entry ir second).2] at same
  exact unique iq ir (entry iq first).1 (entry ir second).1 same

theorem Visited.sound (visited : Visited s after) (sound : Sound sb s) : Sound sb after := by
  apply sound.relabel visited.disk visited.unwritten visited.taken (visited.unique sound.unique)
  intro iq j live
  have before := (visited.live iq j).mp live
  exact ⟨before, by rw [visited.held iq before.1]⟩

/-- What `dirlink` does: the name is there already and nothing changes, or the entry is written at the first empty place. -/
theorem dirlink_cases {value : Int} (sound : Sound sb s) (live : Live s dp d) (done : dirlink sb s dp name inum = .ok (value, after)) :
    ∃ mid, Sound sb mid ∧ Grown sb s mid dp d ∧
      ((value = -1 ∧ Visited mid after ∧ ∃ o, FirstNamed (content sb s d) name (s.itable dp).size 0 o) ∨
        (value = 0 ∧ Unnamed (content sb s d) name (s.itable dp).size 0 ∧ ∃ o, o % direntSize = 0 ∧
          (o < (s.itable dp).size → load (content sb s d) o 2 = 0) ∧
          (∀ x, x < o → x % direntSize = 0 → load (content sb s d) x 2 ≠ 0) ∧
          writei sb mid dp (dirent inum name) none o direntSize = .ok (direntSize, after))) := by
  unfold dirlink at done
  obtain ⟨⟨result, looked⟩, found, rest⟩ := bind_ok.mp done
  obtain ⟨-, mid, kept, grown, cases⟩ := dirlookup_cases sound live found
  rcases cases with ⟨rfl, rfl, absent⟩ | ⟨ip, o, rfl, first, got⟩
  · obtain ⟨⟨o, last⟩, searched, rest⟩ := bind_ok.mp rest
    obtain ⟨⟨count, final⟩, wrote, rest⟩ := bind_ok.mp rest
    have still := (grown.extended.live dp d).mpr live
    obtain ⟨good, more, -, aligned, empty, used⟩ := emptyEntry_cases kept still searched
    have sized : (looked.itable dp).size = (s.itable dp).size := by
      obtain ⟨addrs, entry⟩ := grown.extended.entry dp
      rw [entry]
    have enough : (s.itable dp).size < 0 + direntSize * ((s.itable dp).size / direntSize + 1) := by
      have quotient := Nat.div_add_mod (s.itable dp).size direntSize
      have left := Nat.mod_lt (s.itable dp).size (show 0 < direntSize by decide)
      rw [Nat.mul_succ]
      omega
    rw [grown.content d, sized] at empty
    rw [grown.content d] at used
    dsimp only at rest
    split at rest
    · contradiction
    · rename_i whole
      cases rest
      rw [not_not.mp whole] at wrote
      refine ⟨last, good, grown.trans good more, Or.inr ⟨rfl, absent, o, by simpa using aligned, fun low => empty low enough, ?_, wrote⟩⟩
      exact fun x below same => used x (Nat.zero_le x) below (by simpa using same)
  · obtain ⟨final, put, rest⟩ := bind_ok.mp rest
    obtain ⟨last, given, visited⟩ := iput_iget sb got
    rw [given] at put
    cases put
    cases rest
    exact ⟨mid, kept, grown, Or.inl ⟨rfl, visited, o, first⟩⟩

/-- What `dirunlink` does: the name is not there and nothing changes, or its first entry is cleared. -/
theorem dirunlink_cases {value : Int} (sound : Sound sb s) (live : Live s dp d) (done : dirunlink sb s dp name = .ok (value, after)) :
    ∃ mid, Sound sb mid ∧ Grown sb s mid dp d ∧
      ((value = -1 ∧ after = mid ∧ Unnamed (content sb s d) name (s.itable dp).size 0) ∨
        (value = 0 ∧ ∃ o last, FirstNamed (content sb s d) name (s.itable dp).size 0 o ∧ Visited mid last ∧
          writei sb last dp (fun _ => 0) none o direntSize = .ok (direntSize, after))) := by
  unfold dirunlink at done
  obtain ⟨⟨result, looked⟩, found, rest⟩ := bind_ok.mp done
  obtain ⟨-, mid, kept, grown, cases⟩ := dirlookup_cases sound live found
  rcases cases with ⟨rfl, rfl, absent⟩ | ⟨ip, o, rfl, first, got⟩
  · cases rest
    exact ⟨_, kept, grown, Or.inl ⟨rfl, rfl, absent⟩⟩
  · obtain ⟨final, put, rest⟩ := bind_ok.mp rest
    obtain ⟨last, given, visited⟩ := iput_iget sb got
    rw [given] at put
    cases put
    obtain ⟨⟨count, written⟩, wrote, rest⟩ := bind_ok.mp rest
    dsimp only at rest
    split at rest
    · contradiction
    · rename_i whole
      cases rest
      rw [not_not.mp whole] at wrote
      exact ⟨mid, kept, grown, Or.inr ⟨rfl, o, final, first, visited, wrote⟩⟩

theorem dirlink_sound {value : Int} (sound : Sound sb s) (live : Live s dp d) (done : dirlink sb s dp name inum = .ok (value, after)) :
    Sound sb after := by
  obtain ⟨mid, kept, grown, ⟨-, visited, -⟩ | ⟨-, -, o, -, -, -, wrote⟩⟩ := dirlink_cases sound live done
  · exact visited.sound kept
  · exact writei_sound kept ((grown.extended.live dp d).mpr live) wrote

theorem dirunlink_sound {value : Int} (sound : Sound sb s) (live : Live s dp d) (done : dirunlink sb s dp name = .ok (value, after)) :
    Sound sb after := by
  obtain ⟨mid, kept, grown, ⟨-, same, -⟩ | ⟨-, o, last, -, visited, wrote⟩⟩ := dirunlink_cases sound live done
  · rwa [same]
  · exact writei_sound (visited.sound kept) ((visited.live dp d).mpr ((grown.extended.live dp d).mpr live)) wrote

end BtbuOs.Fs
