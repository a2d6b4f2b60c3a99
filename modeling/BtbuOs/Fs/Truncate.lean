import BtbuOs.Fs.InodeTable

namespace BtbuOs.Fs

open Bytes Machine Ownership State

variable {sb : Superblock} {s mid after : State} {ip : InodeIx} {i k b : Nat}

/-- Some blocks are no longer in use, and the inodes on the disk and the data blocks are the same. -/
structure Cleared (sb : Superblock) (s after : State) (gone : Nat → Prop) : Prop where
  marks : ∀ b, b < sb.size → (inUse sb after b = true ↔ inUse sb s b = true ∧ ¬gone b)
  dinodes : ∀ i, i < sb.ninodes → dinode sb after i = dinode sb s i
  data : ∀ b, dataStart sb ≤ b → after.bread b = s.bread b
  written : ∀ b, s.unwritten b = none → after.unwritten b = none
  taken : after.taken = s.taken

theorem Cleared.refl (sb : Superblock) (s : State) : Cleared sb s s fun _ => False :=
  ⟨fun _ _ => by simp, fun _ _ => rfl, fun _ _ => rfl, fun _ => id, rfl⟩

theorem Cleared.trans {first second : Nat → Prop} (one : Cleared sb s mid first) (two : Cleared sb mid after second) :
    Cleared sb s after fun b => first b ∨ second b := by
  constructor
  · intro b inside
    rw [two.marks b inside, one.marks b inside, not_or, and_assoc]
  · exact fun i inside => (two.dinodes i inside).trans (one.dinodes i inside)
  · exact fun b above => (two.data b above).trans (one.data b above)
  · exact fun b written => two.written b (one.written b written)
  · exact two.taken.trans one.taken

theorem Cleared.congr {first second : Nat → Prop} (cleared : Cleared sb s after first)
    (same : ∀ b, first b ↔ second b) : Cleared sb s after second := by
  refine ⟨fun b inside => ?_, cleared.dinodes, cleared.data, cleared.written, cleared.taken⟩
  rw [← same b]
  exact cleared.marks b inside

/-- The table of inodes is no part of the volume. -/
theorem Cleared.table {gone : Nat → Prop} (cleared : Cleared sb s after gone) (itable : InodeIx → Inode) :
    Cleared sb s { after with itable } gone :=
  ⟨cleared.marks, cleared.dinodes, cleared.data, cleared.written, cleared.taken⟩

/-- A block in use is freed without a panic. -/
theorem bfree_cleared (valid : sb.Valid) (inside : b < sb.size) (marked : inUse sb s b = true) :
    ∃ after, bfree sb s b = .ok after ∧ Cleared sb s after (· = b) ∧ after.itable = s.itable := by
  refine ⟨clear sb s b, ?_, ?_, rfl⟩
  · rw [bfree, if_pos marked]
    rfl
  · constructor
    · intro x _
      rw [inUse_clear]
      simp [and_comm]
    · exact fun x bounded => dinode_clear valid s b bounded
    · exact fun x above => bread_clear s inside above
    · exact fun x written => unwritten_bwrite s _ (Or.inr written)
    · rfl

/-- The block belongs to one of the places of an inode. -/
def among (sb : Superblock) (s : State) (i : Nat) (places : List Nat) (b : Nat) : Prop :=
  b ≠ 0 ∧ ∃ k ∈ places, pointer sb s (i, k) = b

theorem among_snoc (places : List Nat) (k b : Nat) :
    among sb s i (places ++ [k]) b ↔ among sb s i places b ∨ b ≠ 0 ∧ b = pointer sb s (i, k) := by
  simp only [among, List.mem_append, List.mem_singleton]
  constructor
  · rintro ⟨nonzero, x, member | rfl, same⟩
    · exact Or.inl ⟨nonzero, x, member, same⟩
    · exact Or.inr ⟨nonzero, same.symm⟩
  · rintro (⟨nonzero, x, member, same⟩ | ⟨nonzero, rfl⟩)
    · exact ⟨nonzero, x, Or.inl member, same⟩
    · exact ⟨nonzero, k, Or.inr rfl, rfl⟩

/-- An empty place adds nothing. -/
theorem Cleared.skip {places : List Nat} (cleared : Cleared sb s after (among sb s i places)) (empty : pointer sb s (i, k) = 0) :
    Cleared sb s after (among sb s i (places ++ [k])) := by
  apply cleared.congr
  intro b
  rw [among_snoc, empty]
  exact ⟨Or.inl, fun either => either.resolve_right fun both => both.1 both.2⟩

/-- The block of a place that was not visited yet is freed without a panic. -/
theorem Sound.release (sound : Sound sb s) {places : List Nat} (cleared : Cleared sb s mid (among sb s i places))
    (new : k ∉ places) (nonzero : pointer sb s (i, k) ≠ 0) :
    ∃ after, bfree sb mid (pointer sb s (i, k)) = .ok after ∧ Cleared sb s after (among sb s i (places ++ [k])) ∧
      after.itable = mid.itable := by
  have below := sound.owned.below _ nonzero
  have marked : inUse sb mid (pointer sb s (i, k)) = true := by
    rw [cleared.marks _ below]
    refine ⟨sound.owned.marked _ nonzero, ?_⟩
    rintro ⟨-, x, member, same⟩
    have place := sound.owned.apart (i, x) (i, k) (by rwa [same]) same
    exact new ((Prod.mk.inj place).2 ▸ member)
  obtain ⟨after, freed, step, table⟩ := bfree_cleared sound.valid below marked
  refine ⟨after, freed, (cleared.trans step).congr fun b => ?_, table⟩
  rw [among_snoc]
  constructor
  · rintro (old | rfl)
    · exact Or.inl old
    · exact Or.inr ⟨nonzero, rfl⟩
  · rintro (old | ⟨-, new⟩)
    · exact Or.inl old
    · exact Or.inr new

/-- The addresses of the slots in the list are zero. -/
def zeroed (inode : Inode) (done : List Nat) : Inode :=
  { inode with addrs := fun k => if k ∈ done then 0 else inode.addrs k }

theorem zeroed_snoc (inode : Inode) (done : List Nat) (k : Nat) :
    zeroed inode (done ++ [k]) = { zeroed inode done with addrs := Function.update (zeroed inode done).addrs k 0 } := by
  simp only [zeroed, Inode.mk.injEq, true_and]
  ext x
  by_cases own : x = k
  · simp [own]
  · simp [own]

theorem zeroed_skip (inode : Inode) (done : List Nat) {k : Nat} (zero : inode.addrs k = 0) :
    zeroed inode (done ++ [k]) = zeroed inode done := by
  simp only [zeroed, Inode.mk.injEq, true_and]
  ext x
  by_cases own : x = k
  · simp [own, zero]
  · simp [own]

/-- The blocks of the places are free, and the slots of the entry that were visited are empty. -/
structure Emptied (sb : Superblock) (s after : State) (ip : InodeIx) (i : Nat) (places slots : List Nat) : Prop where
  cleared : Cleared sb s after (among sb s i places)
  table : after.itable = Function.update s.itable ip (zeroed (s.itable ip) slots)

theorem Emptied.addrs {places slots : List Nat} (emptied : Emptied sb s after ip i places slots) (new : k ∉ slots) :
    (after.itable ip).addrs k = (s.itable ip).addrs k := by
  rw [emptied.table, Function.update_self]
  exact if_neg new

/-- A slot whose block was freed is set to zero. -/
theorem Emptied.setAddr {places slots : List Nat} (emptied : Emptied sb s after ip i places slots) (k : Nat) :
    Emptied sb s (after.setAddr ip k 0) ip i places (slots ++ [k]) := by
  refine ⟨emptied.cleared.table _, ?_⟩
  show Function.update after.itable ip { after.itable ip with addrs := Function.update (after.itable ip).addrs k 0 } = _
  rw [emptied.table, Function.update_self, Function.update_idem, zeroed_snoc]

/-- One round of the loop over the direct blocks. -/
theorem Sound.freeSlot (sound : Sound sb s) (live : Live s ip i) {done : List Nat} (emptied : Emptied sb s mid ip i done done)
    (slot : k < ndirect) (new : k ∉ done) :
    ∃ after, freeSlot sb ip mid k = .ok after ∧ Emptied sb s after ip i (done ++ [k]) (done ++ [k]) := by
  have place : pointer sb s (i, k) = (s.itable ip).addrs k := by
    rw [pointer_slot (sound.inside ip i live) (Nat.le_of_lt slot), addr_live sb sound.unique live]
  by_cases zero : (s.itable ip).addrs k = 0
  · have same := emptied.addrs new
    refine ⟨mid, ?_, emptied.cleared.skip (place.trans zero), ?_⟩
    · rw [Fs.freeSlot, same, if_neg (not_not_intro zero)]
    · rw [zeroed_skip _ _ zero]
      exact emptied.table
  · obtain ⟨freed, done, cleared, table⟩ := sound.release emptied.cleared new (by rwa [place])
    rw [place] at done
    have kept : Emptied sb s freed ip i _ _ := ⟨cleared, table.trans emptied.table⟩
    refine ⟨freed.setAddr ip k 0, ?_, kept.setAddr k⟩
    rw [Fs.freeSlot, emptied.addrs new, if_pos zero, done]

/-- One round of the loop over the indirect block. -/
theorem Sound.freeEntry (sound : Sound sb s) (live : Live s ip i) (table : (s.itable ip).addrs ndirect ≠ 0) {places slots : List Nat}
    (emptied : Emptied sb s mid ip i places slots) (small : k < nindirect) (new : ndirect + 1 + k ∉ places) :
    ∃ after, freeEntry sb ((s.itable ip).addrs ndirect) mid k = .ok after ∧
      Emptied sb s after ip i (places ++ [ndirect + 1 + k]) slots := by
  have inside := sound.inside ip i live
  have address : addr sb s i ndirect = (s.itable ip).addrs ndirect := addr_live sb sound.unique live ndirect
  have above := (sound.addr_below inside (Nat.le_refl _) (by rwa [address])).1
  have place : pointer sb s (i, ndirect + 1 + k) = word (mid.bread ((s.itable ip).addrs ndirect)) k := by
    rw [pointer_entry inside small, entry, address, if_neg table, emptied.cleared.data _ (address ▸ above)]
  by_cases zero : word (mid.bread ((s.itable ip).addrs ndirect)) k = 0
  · refine ⟨mid, ?_, emptied.cleared.skip (place.trans zero), emptied.table⟩
    rw [Fs.freeEntry, if_neg (not_not_intro zero)]
  · obtain ⟨freed, done, cleared, same⟩ := sound.release emptied.cleared new (by rwa [place])
    rw [place] at done
    refine ⟨freed, ?_, cleared, same.trans emptied.table⟩
    rw [Fs.freeEntry, if_pos zero, done]

/-- The content of the entry that `itrunc` leaves. -/
def Inode.truncated (inode : Inode) : Inode := { inode with size := 0, addrs := fun k => if k ≤ ndirect then 0 else inode.addrs k }

/-- What the truncation of an inode in memory changes. -/
structure Truncated (sb : Superblock) (s after : State) (ip : InodeIx) (i : Nat) : Prop where
  table : after.itable = Function.update s.itable ip (s.itable ip).truncated
  pointers : ∀ p, pointer sb after p = if p.1 = i then 0 else pointer sb s p
  marks : ∀ b, b < sb.size → (inUse sb after b = true ↔ inUse sb s b = true ∧ ∀ k, pointer sb s (i, k) = b → b = 0)
  others : ∀ x, x < sb.ninodes → x ≠ i → (dinode sb after x).Same (dinode sb s x)
  own : (dinode sb after i).Same (s.itable ip).truncated.toDinode.cut
  data : ∀ b, dataStart sb ≤ b → after.bread b = s.bread b
  written : ∀ b, s.unwritten b = none → after.unwritten b = none
  taken : after.taken = s.taken

/-- The places of an inode. -/
def places : List Nat := List.range ndirect ++ (List.range nindirect).map (ndirect + 1 + ·) ++ [ndirect]

theorem mem_places (small : k ≤ maxfile) : k ∈ places := by
  have first : ndirect = 12 := rfl
  have last : nindirect = 256 := rfl
  have whole : maxfile = 268 := rfl
  simp only [places, List.mem_append, List.mem_map, List.mem_range, List.mem_singleton]
  by_cases slot : k < ndirect
  · exact Or.inl (Or.inl slot)
  · by_cases table : k = ndirect
    · exact Or.inr table
    · have index : ndirect + 1 + (k - (ndirect + 1)) = k := by omega
      exact Or.inl (Or.inr ⟨k - (ndirect + 1), by omega, index⟩)

/-- The loop over a range has not visited the number yet. -/
theorem not_mem_of_range {count : Nat} {done rest : List Nat} (whole : List.range count = done ++ k :: rest) : k ∉ done := by
  have distinct := List.nodup_range (n := count)
  rw [whole] at distinct
  intro member
  exact (List.nodup_append.mp distinct).2.2 k member k (by simp) rfl

/-- Without the indirect block the entries are empty. -/
theorem pointer_of_no_table (table : addr sb s i ndirect = 0) (high : ndirect < k) : pointer sb s (i, k) = 0 := by
  rw [pointer]
  split
  · rw [if_neg (Nat.not_le.mpr high), entry, if_pos table]
  · rfl

/-- The free map after the loops has lost the blocks of the inode. -/
theorem Emptied.marks {slots : List Nat} (emptied : Emptied sb s after ip i places slots) (inside : b < sb.size) :
    inUse sb after b = true ↔ inUse sb s b = true ∧ ∀ k, pointer sb s (i, k) = b → b = 0 := by
  rw [emptied.cleared.marks b inside]
  constructor
  · rintro ⟨marked, absent⟩
    refine ⟨marked, fun k same => ?_⟩
    by_contra nonzero
    have small : k ≤ maxfile := by
      by_contra high
      rw [pointer, if_neg fun both => high both.2] at same
      exact nonzero same.symm
    exact absent ⟨nonzero, k, mem_places small, same⟩
  · rintro ⟨marked, absent⟩
    refine ⟨marked, ?_⟩
    rintro ⟨nonzero, k, _, same⟩
    exact nonzero (absent k same)

/-- The indirect block and its entries are freed without a panic. -/
theorem Sound.freeTable (sound : Sound sb s) (live : Live s ip i)
    (emptied : Emptied sb s mid ip i (List.range ndirect) (List.range ndirect)) :
    ∃ after, freeTable sb mid ip = .ok after ∧ Emptied sb s after ip i places (List.range (ndirect + 1)) := by
  have address := addr_live sb sound.unique live ndirect
  have inside := sound.inside ip i live
  have fields := emptied.addrs (k := ndirect) (by simp)
  rw [List.range_succ]
  by_cases table : (s.itable ip).addrs ndirect = 0
  · refine ⟨mid, ?_, ?_, ?_⟩
    · rw [Fs.freeTable, fields, if_neg (not_not_intro table)]
    · apply emptied.cleared.congr
      intro b
      have none (k : Nat) (high : ndirect ≤ k) : pointer sb s (i, k) = 0 := by
        by_cases first : k = ndirect
        · rw [first, pointer_slot inside (Nat.le_refl _), address, table]
        · exact pointer_of_no_table (address.trans table) (by omega)
      constructor
      · rintro ⟨nonzero, k, member, same⟩
        exact ⟨nonzero, k, List.mem_append_left _ (List.mem_append_left _ member), same⟩
      · rintro ⟨nonzero, k, member, same⟩
        have low : k < ndirect := by
          by_contra high
          exact nonzero (same.symm.trans (none k (Nat.not_lt.mp high)))
        exact ⟨nonzero, k, List.mem_range.mpr low, same⟩
    · rw [zeroed_skip _ _ table]
      exact emptied.table
  · have rounds (done : List Nat) (item : Nat) (rest : List Nat) (st : State) (whole : List.range nindirect = done ++ item :: rest)
        (holds : Emptied sb s st ip i (List.range ndirect ++ done.map (ndirect + 1 + ·)) (List.range ndirect)) :
        ∃ after, Fs.freeEntry sb ((s.itable ip).addrs ndirect) st item = .ok after ∧
          Emptied sb s after ip i (List.range ndirect ++ (done ++ [item]).map (ndirect + 1 + ·)) (List.range ndirect) := by
      have small : item < nindirect := by
        rw [← List.mem_range, whole]
        simp
      have new : ndirect + 1 + item ∉ List.range ndirect ++ done.map (ndirect + 1 + ·) := by
        have fresh := not_mem_of_range whole
        simp only [List.mem_append, List.mem_range, List.mem_map, not_or, not_exists, not_and]
        exact ⟨by omega, fun x member same => fresh (Nat.add_left_cancel same ▸ member)⟩
      obtain ⟨next, freed, kept⟩ := sound.freeEntry live table holds small new
      refine ⟨next, freed, ?_⟩
      rw [List.map_append, ← List.append_assoc]
      exact kept
    obtain ⟨entries, loop, done⟩ := foldlM_total _ (List.range nindirect) (by simpa using emptied) rounds
    have place : pointer sb s (i, ndirect) = (s.itable ip).addrs ndirect := by rw [pointer_slot inside (Nat.le_refl _), address]
    have last : ndirect ∉ List.range ndirect ++ (List.range nindirect).map (ndirect + 1 + ·) := by
      simp only [List.mem_append, List.mem_range, List.mem_map, not_or, not_exists, not_and]
      exact ⟨Nat.lt_irrefl _, fun x _ same => by omega⟩
    obtain ⟨final, freed, cleared, same⟩ := sound.release done.cleared last (by rwa [place])
    rw [place] at freed
    have kept : Emptied sb s final ip i places (List.range ndirect) := ⟨cleared, same.trans done.table⟩
    refine ⟨final.setAddr ip ndirect 0, ?_, kept.setAddr ndirect⟩
    rw [Fs.freeTable, fields, if_pos table]
    dsimp only
    rw [loop]
    show (bfree sb entries _ >>= _) = _
    rw [freed]
    rfl

/-- The entry behind the two loops and the assignment of the size. -/
theorem zeroed_truncated (inode : Inode) : { zeroed inode (List.range (ndirect + 1)) with size := 0 } = inode.truncated := by
  simp only [zeroed, Inode.truncated, List.mem_range, Nat.lt_succ_iff]

/-- A truncated entry keeps its identity. -/
theorem itable_truncated (s : State) (ip iq : InodeIx) :
    (Function.update s.itable ip (s.itable ip).truncated iq).ref = (s.itable iq).ref ∧
      (Function.update s.itable ip (s.itable ip).truncated iq).valid = (s.itable iq).valid ∧
      (Function.update s.itable ip (s.itable ip).truncated iq).inum = (s.itable iq).inum := by
  by_cases own : iq = ip
  · rw [own, Function.update_self]
    exact ⟨rfl, rfl, rfl⟩
  · rw [Function.update_of_ne own]
    exact ⟨rfl, rfl, rfl⟩

theorem live_truncated (table : after.itable = Function.update s.itable ip (s.itable ip).truncated) (iq : InodeIx) (x : Nat) :
    Live after iq x ↔ Live s iq x := by
  obtain ⟨ref, valid, inum⟩ := itable_truncated s ip iq
  rw [Live, Live, table, ref, valid, inum]

theorem unique_truncated (unique : Unique s) (table : after.itable = Function.update s.itable ip (s.itable ip).truncated) :
    Unique after := by
  intro iq ir first second same
  rw [table, (itable_truncated s ip iq).1] at first
  rw [table, (itable_truncated s ip ir).1] at second
  rw [table, (itable_truncated s ip iq).2.2, (itable_truncated s ip ir).2.2] at same
  exact unique iq ir first second same

/-- The slots of the inode are empty and the others stay. -/
theorem addr_truncated (sound : Sound sb s) (live : Live s ip i)
    (table : after.itable = Function.update s.itable ip (s.itable ip).truncated)
    (others : ∀ x, x < sb.ninodes → x ≠ i → (dinode sb after x).Same (dinode sb s x)) {x : Nat} (less : x < sb.ninodes)
    (slot : k ≤ ndirect) : addr sb after x k = if x = i then 0 else addr sb s x k := by
  have unique := unique_truncated sound.unique table
  by_cases own : x = i
  · subst own
    rw [if_pos rfl, addr_live sb unique ((live_truncated table ip x).mpr live), table, Function.update_self]
    exact if_pos slot
  · rw [if_neg own]
    rcases live_or_idle s x with ⟨iq, held⟩ | idle
    · have apart : iq ≠ ip := by
        rintro rfl
        exact own (held.2.2.symm.trans live.2.2)
      rw [addr_live sb unique ((live_truncated table iq x).mpr held), addr_live sb sound.unique held, table,
        Function.update_of_ne apart]
    · rw [addr_idle fun iq held => idle iq ((live_truncated table iq x).mp held), addr_idle idle]
      exact (others x less own).addrs k slot

/-- All places of an inode are empty when its slots are. -/
theorem pointer_dropped (sound : Sound sb s)
    (slots : ∀ x, x < sb.ninodes → ∀ k, k ≤ ndirect → addr sb after x k = if x = i then 0 else addr sb s x k)
    (data : ∀ b, dataStart sb ≤ b → after.bread b = s.bread b) (p : Place) :
    pointer sb after p = if p.1 = i then 0 else pointer sb s p := by
  unfold pointer
  split
  · rename_i inside
    split
    · rename_i low
      exact slots p.1 inside.1 p.2 low
    · unfold entry
      rw [slots p.1 inside.1 ndirect (Nat.le_refl _)]
      by_cases own : p.1 = i
      · rw [if_pos own, if_pos own, if_pos rfl]
      · rw [if_neg own, if_neg own]
        split
        · rfl
        · rename_i nonzero
          rw [data _ (sound.addr_below inside.1 (Nat.le_refl _) nonzero).1]
  · rw [ite_self]

/-- The truncation of an inode in memory succeeds and frees exactly its blocks. -/
theorem itrunc_total (sound : Sound sb s) (live : Live s ip i) :
    ∃ after, itrunc sb s ip = .ok after ∧ Truncated sb s after ip i := by
  have inside := sound.inside ip i live
  have begun : Emptied sb s s ip i [] [] := by
    refine ⟨(Cleared.refl sb s).congr fun b => ?_, ?_⟩
    · simp [among]
    · simp [zeroed]
  have rounds (done : List Nat) (item : Nat) (rest : List Nat) (st : State) (whole : List.range ndirect = done ++ item :: rest)
      (holds : Emptied sb s st ip i done done) :
      ∃ after, Fs.freeSlot sb ip st item = .ok after ∧ Emptied sb s after ip i (done ++ [item]) (done ++ [item]) := by
    have slot : item < ndirect := by
      rw [← List.mem_range, whole]
      simp
    exact sound.freeSlot live holds slot (not_mem_of_range whole)
  obtain ⟨slots, loop, direct⟩ := foldlM_total (fun done st => Emptied sb s st ip i done done) (List.range ndirect) begun rounds
  obtain ⟨tables, freed, emptied⟩ := sound.freeTable live direct
  have entry : (tables.itable ip) = zeroed (s.itable ip) (List.range (ndirect + 1)) := by
    rw [emptied.table, Function.update_self]
  let before := tables.setInode ip { tables.itable ip with size := 0 }
  have table : before.itable = Function.update s.itable ip (s.itable ip).truncated := by
    show Function.update tables.itable ip { tables.itable ip with size := 0 } = _
    rw [entry, zeroed_truncated, emptied.table, Function.update_idem]
  have number : (before.itable ip).inum = i := by
    rw [table, Function.update_self]
    exact live.2.2
  have bounded : (before.itable ip).inum < sb.ninodes := by rwa [number]
  refine ⟨iupdate sb before ip, ?_, ?_⟩
  · rw [itrunc, loop]
    show (Fs.freeTable sb slots ip >>= _) = _
    rw [freed]
    rfl
  · have others (x : Nat) (less : x < sb.ninodes) (apart : x ≠ i) : (dinode sb (iupdate sb before ip) x).Same (dinode sb s x) := by
      have same : dinode sb before x = dinode sb s x := emptied.cleared.dinodes x less
      rw [← same]
      exact dinode_iupdate_of_ne (by rwa [number])
    have own : (dinode sb (iupdate sb before ip) i).Same (s.itable ip).truncated.toDinode.cut := by
      have same := dinode_iupdate sb before ip
      rwa [number, table, Function.update_self] at same
    have data (b : Nat) (above : dataStart sb ≤ b) : (iupdate sb before ip).bread b = s.bread b :=
      (bread_iupdate sound.valid bounded above).trans (emptied.cleared.data b above)
    constructor
    · exact table
    · have saved : (iupdate sb before ip).itable = Function.update s.itable ip (s.itable ip).truncated := table
      have dropped (x : Nat) (less : x < sb.ninodes) (k : Nat) (slot : k ≤ ndirect) :
          addr sb (iupdate sb before ip) x k = if x = i then 0 else addr sb s x k :=
        addr_truncated sound live saved others less slot
      exact pointer_dropped sound dropped data
    · intro b small
      rw [inUse_iupdate sound.valid bounded]
      exact emptied.marks small
    · exact others
    · exact own
    · exact data
    · exact fun b written => unwritten_bwrite before _ (Or.inr (emptied.cleared.written b written))
    · exact emptied.cleared.taken

/-- A truncated inode in memory refers to no block, and the others refer to what they did. -/
theorem Truncated.sound (sound : Sound sb s) (live : Live s ip i) (truncated : Truncated sb s after ip i) : Sound sb after := by
  have slots (x : Nat) (less : x < sb.ninodes) {k : Nat} (slot : k ≤ ndirect) :=
    addr_truncated sound live truncated.table truncated.others less slot
  have fewer (p : Place) (nonzero : pointer sb after p ≠ 0) : p.1 ≠ i ∧ pointer sb after p = pointer sb s p := by
    rw [truncated.pointers] at nonzero ⊢
    by_cases own : p.1 = i
    · rw [if_pos own] at nonzero
      contradiction
    · exact ⟨own, if_neg own⟩
  constructor
  · exact sound.valid
  · exact unique_truncated sound.unique truncated.table
  · exact fun iq x held => sound.inside iq x ((live_truncated truncated.table iq x).mp held)
  · intro iq x held y slot nonzero
    have before := (live_truncated truncated.table iq x).mp held
    by_cases own : x = i
    · subst own
      rw [truncated.own.addrs y slot] at nonzero
      have zero : (s.itable ip).truncated.toDinode.cut.addrs y = 0 := by
        simp [Inode.truncated, Inode.toDinode, Dinode.cut, slot]
      exact absurd zero nonzero
    · have apart : iq ≠ ip := by
        rintro rfl
        exact own (before.2.2.symm.trans live.2.2)
      have same := (truncated.others x (sound.inside iq x before) own).addrs y slot
      rw [same] at nonzero ⊢
      rw [truncated.table, Function.update_of_ne apart]
      exact sound.synced iq x before y slot nonzero
  · apply sound.owned.shrink
    · exact fun p nonzero => (fewer p nonzero).2
    · intro p nonzero marked
      have same := fewer p nonzero
      rw [same.2] at nonzero marked ⊢
      rw [truncated.marks _ (sound.owned.below p nonzero)]
      refine ⟨marked, fun k other => ?_⟩
      have place := sound.owned.apart p (i, k) nonzero other.symm
      exact absurd (congrArg Prod.fst place) same.1
    · intro b low inside marked
      rw [truncated.marks b inside]
      refine ⟨marked, fun k other => ?_⟩
      by_contra nonzero
      have above := sound.owned.above (i, k) (by rwa [other])
      rw [other] at above
      exact absurd low (Nat.not_lt.mpr above)
  · exact fun b low => truncated.written b (sound.metadata b low)
  · intro x less nonzero
    rw [slots x less (Nat.le_refl _)] at nonzero ⊢
    by_cases own : x = i
    · rw [if_pos own] at nonzero
      contradiction
    · rw [if_neg own] at nonzero ⊢
      exact truncated.written _ (sound.tables x less nonzero)
  · rw [truncated.taken]
    exact sound.fresh

/-- The entry that the last `iput` of an inode without links leaves. -/
def Inode.freed (inode : Inode) : Inode := { inode.truncated with type := 0, valid := false, ref := 0 }

/-- What the last `iput` of an inode without links changes. -/
structure Freed (sb : Superblock) (s after : State) (ip : InodeIx) (i : Nat) : Prop where
  table : after.itable = Function.update s.itable ip (s.itable ip).freed
  pointers : ∀ p, pointer sb after p = if p.1 = i then 0 else pointer sb s p
  marks : ∀ b, b < sb.size → (inUse sb after b = true ↔ inUse sb s b = true ∧ ∀ k, pointer sb s (i, k) = b → b = 0)
  others : ∀ x, x < sb.ninodes → x ≠ i → (dinode sb after x).Same (dinode sb s x)
  own : (dinode sb after i).Same (s.itable ip).freed.toDinode.cut
  data : ∀ b, dataStart sb ≤ b → after.bread b = s.bread b
  written : ∀ b, s.unwritten b = none → after.unwritten b = none
  taken : after.taken = s.taken

/-- The freed inode is not in memory, and the others stay there. -/
theorem live_freed (unique : Unique s) (live : Live s ip i) (table : after.itable = Function.update s.itable ip (s.itable ip).freed)
    (iq : InodeIx) (x : Nat) : Live after iq x ↔ Live s iq x ∧ x ≠ i := by
  by_cases own : iq = ip
  · subst own
    have never : ¬Live after iq x := by
      rw [Live, table, Function.update_self]
      exact fun held => absurd held.1 (Int.lt_irrefl 0)
    refine ⟨fun held => absurd held never, fun both => absurd ?_ both.2⟩
    exact both.1.2.2.symm.trans live.2.2
  · rw [Live, table, Function.update_of_ne own]
    refine ⟨fun held => ⟨held, ?_⟩, And.left⟩
    rintro rfl
    exact own (unique iq ip held.1 live.1 (held.2.2.trans live.2.2.symm))

theorem addr_freed (sound : Sound sb s) (unique : Unique after) (live : Live s ip i)
    (table : after.itable = Function.update s.itable ip (s.itable ip).freed)
    (others : ∀ x, x < sb.ninodes → x ≠ i → (dinode sb after x).Same (dinode sb s x))
    (own : (dinode sb after i).Same (s.itable ip).freed.toDinode.cut) {x : Nat} (less : x < sb.ninodes)
    (slot : k ≤ ndirect) : addr sb after x k = if x = i then 0 else addr sb s x k := by
  have lives := live_freed sound.unique live table
  by_cases same : x = i
  · subst same
    rw [if_pos rfl, addr_idle fun iq held => ((lives iq x).mp held).2 rfl, own.addrs k slot]
    simp [Inode.freed, Inode.truncated, Inode.toDinode, Dinode.cut, slot]
  · rw [if_neg same]
    rcases live_or_idle s x with ⟨iq, held⟩ | idle
    · have apart : iq ≠ ip := by
        rintro rfl
        exact same (held.2.2.symm.trans live.2.2)
      rw [addr_live sb unique ((lives iq x).mpr ⟨held, same⟩), addr_live sb sound.unique held, table, Function.update_of_ne apart]
    · rw [addr_idle fun iq held => idle iq ((lives iq x).mp held).1, addr_idle idle]
      exact (others x less same).addrs k slot

/-- The last `iput` of an inode without links frees the inode and its blocks. -/
theorem iput_freed (sound : Sound sb s) (live : Live s ip i) (last : (s.itable ip).ref = 1) (nlink : (s.itable ip).nlink = 0) :
    ∃ after, iput sb s ip = .ok after ∧ Sound sb after ∧ Freed sb s after ip i := by
  have inside := sound.inside ip i live
  obtain ⟨mid, done, truncated⟩ := itrunc_total sound live
  have kept := truncated.sound sound live
  have entry : mid.itable ip = (s.itable ip).truncated := by rw [truncated.table, Function.update_self]
  have still : Live mid ip i := (live_truncated truncated.table ip i).mpr live
  let typed := mid.setInode ip { mid.itable ip with type := 0 }
  have fields : typed.itable ip = { (s.itable ip).truncated with type := 0 } := by
    rw [← entry]
    exact itable_setInode ..
  have typedSound : Sound sb typed := kept.setInode rfl id id rfl
  have typedLive : Live typed ip i := by
    rw [Live, fields]
    exact live
  let saved := iupdate sb typed ip
  have savedSound : Sound sb saved := typedSound.iupdate typedLive
  let final := saved.setInode ip { saved.itable ip with valid := false, ref := (saved.itable ip).ref - 1 }
  have finalSound : Sound sb final := by
    have lower : 0 < (saved.itable ip).ref - 1 → 0 < (saved.itable ip).ref := fun positive => by omega
    exact savedSound.setInode rfl lower (fun bad => absurd bad Bool.false_ne_true) rfl
  have number : (typed.itable ip).inum = i := typedLive.2.2
  have bounded : (typed.itable ip).inum < sb.ninodes := by rwa [number]
  have table : final.itable = Function.update s.itable ip (s.itable ip).freed := by
    have zero : (s.itable ip).ref - 1 = 0 := by omega
    show Function.update typed.itable ip { typed.itable ip with valid := false, ref := (typed.itable ip).ref - 1 } = _
    rw [fields]
    show Function.update (Function.update mid.itable ip _) ip { (s.itable ip).truncated with
      type := 0, valid := false, ref := (s.itable ip).ref - 1 } = _
    rw [zero, Function.update_idem, truncated.table, Function.update_idem]
    rfl
  have others (x : Nat) (less : x < sb.ninodes) (apart : x ≠ i) : (dinode sb final x).Same (dinode sb s x) :=
    (dinode_iupdate_of_ne (by rwa [number])).trans (truncated.others x less apart)
  have own : (dinode sb final i).Same (s.itable ip).freed.toDinode.cut := by
    have same := dinode_iupdate sb typed ip
    rw [number, fields] at same
    exact same
  have data (b : Nat) (above : dataStart sb ≤ b) : final.bread b = s.bread b :=
    (bread_iupdate sound.valid bounded above).trans (truncated.data b above)
  refine ⟨final, ?_, finalSound, ?_⟩
  · rw [iput, if_pos ⟨last, live.2.1, nlink⟩, done]
    rfl
  · constructor
    · exact table
    · exact pointer_dropped sound (fun x less k slot => addr_freed sound finalSound.unique live table others own less slot) data
    · intro b small
      show inUse sb saved b = true ↔ _
      rw [inUse_iupdate sound.valid bounded]
      exact truncated.marks b small
    · exact others
    · exact own
    · exact data
    · intro b written
      have before : typed.unwritten b = none := truncated.written b written
      show saved.unwritten b = none
      exact unwritten_bwrite typed _ (Or.inr before)
    · exact truncated.taken

/-- A call of `iput` with a reference never panics. -/
theorem iput_total (sound : Sound sb s) (held : 0 < (s.itable ip).ref) : ∃ after, iput sb s ip = .ok after ∧ Sound sb after := by
  by_cases final : (s.itable ip).ref = 1 ∧ (s.itable ip).valid = true ∧ (s.itable ip).nlink = 0
  · obtain ⟨last, valid, nlink⟩ := final
    obtain ⟨after, done, kept, -⟩ := iput_freed sound ⟨held, valid, rfl⟩ last nlink
    exact ⟨after, done, kept⟩
  · refine ⟨s.setRef ip ((s.itable ip).ref - 1), ?_, sound.setInode rfl (fun _ => held) id rfl⟩
    rw [iput, if_neg final]

end BtbuOs.Fs
