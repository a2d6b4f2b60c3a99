import BtbuOs.Fs.Leaves

namespace BtbuOs.Fs

open Bytes Machine Ownership State Slots

section Model

variable (sb : Superblock)

/-- A new inode gets its name in the root directory. -/
def enter (s : State) (dp ip : InodeIx) (path : Memory) : Except String (Option InodeIx × State) := do
  let (linked, s) ← dirlink sb s dp path (s.itable ip).inum
  if linked < 0 then .error "create: dirlink" else .ok (some ip, ← iput sb s dp)

/-- The part of `create` behind a lookup that found nothing. -/
def createNew (s : State) (dp : InodeIx) (path : Memory) (type : Nat) : Except String (Option InodeIx × State) := do
  let (ip, s) ← ialloc sb s type
  let s ← ivalid sb s ip
  enter sb (iupdate sb s ip) dp ip path

/-- Create a new empty file based on path and type and return its inode. A file that exists under the path is returned as it is, and an inode of another type gives no inode. -/
def create (s : State) (path : Memory) (type : Nat) : Except String (Option InodeIx × State) := do
  let (dp, s) ← rootDir sb s
  let s ← ivalid sb s dp
  match ← dirlookup sb s dp path with
  | (some (ip, _), s) =>
      let s ← iput sb s dp
      let s ← ivalid sb s ip
      if type = tFile ∧ (s.itable ip).type = tFile then .ok (some ip, s) else .ok (none, ← iput sb s ip)
  | (none, s) => createNew sb s dp path type

/-- The inode that `fileopen` takes without `O_CREATE`. -/
def existing (s : State) (path : Memory) : Except String (Option InodeIx × State) := do
  match ← namei sb s path with
  | (none, s) => .ok (none, s)
  | (some ip, s) => .ok (some ip, ← ivalid sb s ip)

/-- The type of an inode, from the copy in memory when there is one. -/
def typeOf (s : State) (i : Nat) : Nat :=
  match (List.finRange ninode).find? fun ip => Live s ip i with
  | some ip => (s.itable ip).type
  | none => (dinode sb s i).type

end Model

variable {sb : Superblock} {s mid after : State} {dp ip iq : InodeIx} {d i k t : Nat} {path : Memory}

theorem typeOf_live (unique : Unique s) (live : Live s ip i) : typeOf sb s i = (s.itable ip).type := by
  cases search : (List.finRange ninode).find? fun ip => Live s ip i with
  | none =>
      have absent := List.find?_eq_none.mp search ip (List.mem_finRange ip)
      simp [live] at absent
  | some iq =>
      have found := List.find?_some search
      rw [decide_eq_true_eq] at found
      have same := unique iq ip found.1 live.1 (found.2.2.trans live.2.2.symm)
      rw [typeOf, search, same]

theorem typeOf_idle (idle : ∀ ip, ¬Live s ip i) : typeOf sb s i = (dinode sb s i).type := by
  have search : (List.finRange ninode).find? (fun ip => Live s ip i) = none :=
    List.find?_eq_none.mpr fun ip _ => by simp [idle ip]
  rw [typeOf, search]

/-- The type of an inode is the same when its copies in memory and on the disk are. -/
theorem typeOf_congr (before : Unique s) (unique : Unique after) (lives : ∀ ip, Live after ip i ↔ Live s ip i)
    (types : ∀ ip, (after.itable ip).type = (s.itable ip).type) (disk : (dinode sb after i).type = (dinode sb s i).type) :
    typeOf sb after i = typeOf sb s i := by
  rcases live_or_idle s i with ⟨ip, live⟩ | idle
  · rw [typeOf_live before live, typeOf_live unique ((lives ip).mpr live), types]
  · rw [typeOf_idle idle, typeOf_idle fun ip live => idle ip ((lives ip).mp live), disk]

/-- The entry of the table refers to an inode of a type, which `ivalid` finds. -/
structure Refers (sb : Superblock) (s : State) (ip : InodeIx) (i t : Nat) : Prop where
  held : 0 < (s.itable ip).ref
  inum : (s.itable ip).inum = i
  live : (s.itable ip).valid = true → (s.itable ip).type = t
  stored : ¬(s.itable ip).valid = true → (dinode sb s i).type = t

theorem iget_refers (sound : Sound sb s) (got : iget s i = .ok (ip, after)) : Refers sb after ip i (typeOf sb s i) := by
  rcases iget_cases got with ⟨held, number, rfl⟩ | ⟨absent, -, rfl⟩
  · have entry : (s.setRef ip ((s.itable ip).ref + 1)).itable ip = { s.itable ip with ref := (s.itable ip).ref + 1 } := itable_setInode ..
    constructor
    · rw [entry]
      exact Int.lt_add_one_of_le (Int.le_of_lt held)
    · rw [entry]
      exact number
    · rw [entry]
      exact fun valid => (typeOf_live sound.unique ⟨held, valid, number⟩).symm
    · rw [entry]
      intro stale
      have idle (iq : InodeIx) (live : Live s iq i) : False := by
        have same := sound.unique iq ip live.1 held (live.2.2.trans number.symm)
        exact stale (same ▸ live.2.1)
      rw [typeOf_idle idle]
      rfl
  · have entry : (s.setInode ip { s.itable ip with inum := i, ref := 1, valid := false }).itable ip =
        { s.itable ip with inum := i, ref := 1, valid := false } := itable_setInode ..
    constructor
    · rw [entry]
      exact Int.one_pos
    · rw [entry]
    · rw [entry]
      exact fun valid => absurd valid Bool.false_ne_true
    · rw [typeOf_idle fun iq live => absent iq live.1 live.2.2]
      exact fun _ => rfl

/-- The references to entries of the table may change when the entry keeps one. -/
theorem Refers.setRef (refers : Refers sb s ip i t) {ref : Int} (kept : ip = iq → 0 < ref) : Refers sb (s.setRef iq ref) ip i t := by
  by_cases own : ip = iq
  · subst own
    have entry : (s.setRef ip ref).itable ip = { s.itable ip with ref } := itable_setInode ..
    constructor
    · rw [entry]
      exact kept rfl
    · rw [entry]
      exact refers.inum
    · rw [entry]
      exact refers.live
    · rw [entry]
      exact refers.stored
  · have entry : (s.setRef iq ref).itable ip = s.itable ip := itable_setInode_of_ne s _ own
    constructor
    · rw [entry]
      exact refers.held
    · rw [entry]
      exact refers.inum
    · rw [entry]
      exact refers.live
    · rw [entry]
      exact refers.stored

/-- An inode that is allocated on the disk is read. -/
theorem Refers.loaded (refers : Refers sb s ip i t) (sound : Sound sb s) (live : Live s dp d) (inside : i < sb.ninodes)
    (allocated : (dinode sb s i).type ≠ 0) :
    ∃ after, ivalid sb s ip = .ok after ∧ Spares sb s after dp ∧ refs after = refs s ∧ Live after ip i ∧ (after.itable ip).type = t := by
  have number := refers.inum
  subst number
  by_cases valid : (s.itable ip).valid = true
  · refine ⟨s, by rw [ivalid, if_pos valid], spares_of_disk sound (entry_same live rfl) fun _ => rfl, rfl, ⟨refers.held, valid, rfl⟩, ?_⟩
    exact refers.live valid
  · have apart : dp ≠ ip := by
      rintro rfl
      exact valid live.2.1
    refine ⟨s.setInode ip ((s.itable ip).loaded (dinode sb s (s.itable ip).inum)), ?_, ?_, ?_, ?_, ?_⟩
    · rw [ivalid, if_neg valid]
      exact if_neg allocated
    · exact spares_of_disk (sound.load refers.held inside valid) (entry_same live (itable_setInode_of_ne s _ apart)) fun _ => rfl
    · rw [refs_setInode]
      exact Function.update_eq_self ip (refs s)
    · rw [Live, itable_setInode]
      exact ⟨refers.held, rfl, rfl⟩
    · rw [itable_setInode]
      exact refers.stored valid

/-- The root directory is in memory, its names are those of inodes that are allocated on the disk, and so is every inode with a reference. -/
structure Tidy (sb : Superblock) (s : State) (dp : InodeIx) : Prop where
  listed : Listed sb s dp rootino
  numbered : sb.ninodes ≤ 2 ^ 16
  named : ∀ name i, (entries sb s dp rootino).find name = some i → i < sb.ninodes ∧ (dinode sb s i).type ≠ 0
  held : ∀ ip, 0 < (s.itable ip).ref → (dinode sb s (s.itable ip).inum).type ≠ 0

/-- The root directory gets a reference more. -/
def rooted (s : State) (dp : InodeIx) : State := s.setRef dp ((s.itable dp).ref + 1)

theorem rootDir_rooted (listed : Listed sb s dp rootino) : rootDir sb s = .ok (dp, rooted s dp) := by
  have live := listed.live
  rcases iget_outcome s rootino with ⟨-, ip, after, got, -⟩ | ⟨refused, -⟩
  · rcases iget_cases got with ⟨held, number, rfl⟩ | ⟨absent, -, -⟩
    · obtain rfl := listed.sound.unique ip dp held live.1 (number.trans live.2.2.symm)
      have valid : ((rooted s ip).itable ip).valid = true := by
        rw [rooted, setRef, itable_setInode]
        exact live.2.1
      refine bind_ok.mpr ⟨_, got, bind_ok.mpr ⟨rooted s ip, ?_, rfl⟩⟩
      show ivalid sb (rooted s ip) ip = _
      rw [ivalid, if_pos valid]
    · exact absurd live.2.2 (absent dp live.1)
  · exact absurd ⟨dp, Or.inl ⟨live.1, live.2.2⟩⟩ refused

theorem rooted_spares (listed : Listed sb s dp rootino) : Spares sb s (rooted s dp) dp := by
  have positive := listed.live.1
  exact setRef_spares listed.sound listed.live positive fun _ => by omega

theorem refs_rooted (s : State) (dp : InodeIx) : refs (rooted s dp) = Function.update (refs s) dp (refs s dp + 1) := refs_setInode s dp _

theorem Extended.refs (extended : Extended sb s after ip i) : refs after = refs s := by
  funext iq
  obtain ⟨addrs, entry⟩ := extended.entry iq
  rw [Fs.refs, Fs.refs, entry]

theorem Extended.typeOf (extended : Extended sb s after ip i) (sound : Sound sb s) (kept : Sound sb after) {j : Nat} (inside : j < sb.ninodes) :
    typeOf sb after j = typeOf sb s j := by
  apply typeOf_congr sound.unique kept.unique (extended.live · j)
  · intro iq
    obtain ⟨addrs, entry⟩ := extended.entry iq
    rw [entry]
  · rw [extended.dinodes j inside]

theorem typeOf_rooted (listed : Listed sb s dp rootino) (i : Nat) : typeOf sb (rooted s dp) i = typeOf sb s i := by
  have positive := listed.live.1
  apply typeOf_congr listed.sound.unique (rooted_spares listed).leaves.sound.unique
  · intro iq
    by_cases own : iq = dp
    · subst own
      rw [Live, Live, rooted, setRef, itable_setInode]
      have more : 0 < (s.itable iq).ref + 1 := by omega
      simp only [more, positive]
    · rw [Live, Live, rooted, setRef, itable_setInode_of_ne s _ own]
  · intro iq
    by_cases own : iq = dp
    · subst own
      rw [rooted, setRef, itable_setInode]
    · rw [rooted, setRef, itable_setInode_of_ne s _ own]
  · rfl

theorem admits_rooted (listed : Listed sb s dp rootino) (i : Nat) : Admits (rooted s dp) i ↔ Admits s i := by
  have positive := listed.live.1
  apply exists_congr
  intro iq
  by_cases own : iq = dp
  · subst own
    rw [rooted, setRef, itable_setInode]
    dsimp only
    constructor
    · rintro (⟨-, number⟩ | unused)
      · exact Or.inl ⟨positive, number⟩
      · omega
    · rintro (⟨-, number⟩ | unused)
      · exact Or.inl ⟨by omega, number⟩
      · omega
  · rw [rooted, setRef, itable_setInode_of_ne s _ own]

/-- The ways in which the search for a path in the root directory ends. -/
inductive Lookup (sb : Superblock) (s : State) (dp : InodeIx) (path : Memory) : Except String (Option (InodeIx × Nat) × State) → Prop where
  | starved {message : String} : ¬Searchable sb s dp rootino path → Lookup sb s dp path (.error message)
  | crowded {i : Nat} {message : String} : (entries sb s dp rootino).find (key path) = some i → ¬Admits s i → Lookup sb s dp path (.error message)
  | absent {mid : State} : Searchable sb s dp rootino path → (entries sb s dp rootino).find (key path) = none →
      dirlookup sb (rooted s dp) dp path = .ok (none, mid) → Sound sb mid → Grown sb (rooted s dp) mid dp rootino → Lookup sb s dp path (.ok (none, mid))
  | found {i o : Nat} {ip : InodeIx} {got : State} : Searchable sb s dp rootino path → (entries sb s dp rootino).find (key path) = some i → Admits s i →
      Keeps sb s got dp rootino → refs got = Function.update (refs (rooted s dp)) ip (refs (rooted s dp) ip + 1) →
      Refers sb got ip i (typeOf sb s i) → (dinode sb got i).type ≠ 0 → Lookup sb s dp path (.ok (some (ip, o), got))

theorem Tidy.lookup (tidy : Tidy sb s dp) (path : Memory) : Lookup sb s dp path (dirlookup sb (rooted s dp) dp path) := by
  have listed := tidy.listed
  have spares := rooted_spares listed
  have keeps := spares.leaves.keeps listed
  by_cases searchable : Searchable sb s dp rootino path
  · obtain ⟨mid, sound, grown, ⟨absent, looked⟩ | ⟨o, i, found, looked⟩⟩ :=
      ((spares.searchable listed path).mpr searchable).outcome keeps.listed
    · rw [keeps.entries] at absent
      rw [looked]
      exact .absent searchable absent looked sound grown
    · rw [keeps.entries] at found
      rw [looked]
      have same : Admits mid i ↔ Admits s i := (grown.admits i).trans (admits_rooted listed i)
      rcases iget_outcome mid i with ⟨admits, ip, got, done, -⟩ | ⟨full, done⟩
      · rw [done]
        obtain ⟨inside, allocated⟩ := tidy.named _ i found
        have more := keeps_grown keeps.listed sound grown
        obtain ⟨taken, counts⟩ := iget_spares sound more.listed.live done
        have type := (grown.extended.typeOf spares.leaves.sound sound inside).trans (typeOf_rooted listed i)
        rw [grown.extended.refs] at counts
        refine .found searchable found (same.mp admits) (keeps.trans (more.trans (taken.leaves.keeps more.listed))) counts ?_ ?_
        · rw [← type]
          exact iget_refers sound done
        · rw [dinode_congr ((sound.iget_still done).bread _), grown.extended.dinodes i inside]
          exact allocated
      · rw [done]
        exact .crowded found fun admits => full (same.mpr admits)
  · cases looked : dirlookup sb (rooted s dp) dp path with
    | error message => exact .starved searchable
    | ok result => exact absurd ((spares.searchable listed path).mp (dirlookup_searchable keeps.listed looked)) searchable

/-- The ways in which the inode under a path is taken without `O_CREATE`; a path without an entry leaves a reference to the root directory. -/
inductive Existing (sb : Superblock) (s : State) (dp : InodeIx) (path : Memory) : Except String (Option InodeIx × State) → Prop where
  | starved {message : String} : ¬Searchable sb s dp rootino path → Existing sb s dp path (.error message)
  | crowded {i : Nat} {message : String} : (entries sb s dp rootino).find (key path) = some i → ¬Admits s i → Existing sb s dp path (.error message)
  | absent {after : State} : (entries sb s dp rootino).find (key path) = none → refs after = refs (rooted s dp) → Existing sb s dp path (.ok (none, after))
  | found {i : Nat} {ip : InodeIx} {after : State} : Searchable sb s dp rootino path → (entries sb s dp rootino).find (key path) = some i → Admits s i →
      Keeps sb s after dp rootino → refs after = Function.update (refs (rooted s dp)) ip (refs (rooted s dp) ip + 1) →
      Live after ip i → (after.itable ip).type = typeOf sb s i → Existing sb s dp path (.ok (some ip, after))

theorem Tidy.existing (tidy : Tidy sb s dp) (path : Memory) : Existing sb s dp path (existing sb s path) := by
  have way := tidy.lookup path
  generalize looked : dirlookup sb (rooted s dp) dp path = result at way
  have named : namei sb s path = result.map fun got => (got.1.map Prod.fst, got.2) := by
    rw [namei, rootDir_rooted tidy.listed]
    show (dirlookup sb (rooted s dp) dp path >>= _) = _
    rw [looked]
    cases result with
    | error message => rfl
    | ok got => rfl
  rw [Fs.existing, named]
  cases way with
  | starved hungry => exact .starved hungry
  | crowded found full => exact .crowded found full
  | absent searchable absent _ sound grown => exact .absent absent grown.extended.refs
  | found searchable found admits keeps counts refers allocated =>
      obtain ⟨inside, -⟩ := tidy.named _ _ found
      obtain ⟨after, done, spares, same, live, type⟩ := refers.loaded keeps.listed.sound keeps.listed.live inside allocated
      show Existing sb s dp path (ivalid sb _ _ >>= _)
      rw [done]
      exact .found searchable found admits (keeps.trans (spares.leaves.keeps keeps.listed)) (same.trans counts) live type

/-- The disk has a free inode, and the table has an unused entry. -/
def Allocatable (sb : Superblock) (s : State) : Prop :=
  (∃ inum, 1 ≤ inum ∧ inum < sb.ninodes ∧ (dinode sb s inum).type = 0) ∧ ∃ ip, (s.itable ip).ref = 0

/-- What a new inode is when `ialloc` returns it. -/
structure Allocated (sb : Superblock) (s after : State) (dp ip : InodeIx) (i type : Nat) : Prop where
  positive : 1 ≤ i
  inside : i < sb.ninodes
  spares : Spares sb s after dp
  unused : refs s ip = 0
  counts : refs after = Function.update (refs s) ip 1
  refers : Refers sb after ip i type
  stored : (dinode sb after i).type = type

/-- A new inode is found exactly when there is one on the disk and a place for it in the table. -/
theorem ialloc_outcome (sound : Sound sb s) (live : Live s dp d) {type : Nat} (small : type < 2 ^ 16)
    (fresh : ∀ ip, 0 < (s.itable ip).ref → (s.itable ip).inum < sb.ninodes → (dinode sb s (s.itable ip).inum).type ≠ 0) :
    (Allocatable sb s ∧ ∃ i ip after, ialloc sb s type = .ok (ip, after) ∧ Allocated sb s after dp ip i type) ∨
      (¬Allocatable sb s ∧ ∃ message, ialloc sb s type = .error message) := by
  cases done : ialloc sb s type with
  | ok result =>
      left
      obtain ⟨ip, after⟩ := result
      obtain ⟨i, positive, inside, zero, got⟩ := ialloc_cases done
      have absent (iq : InodeIx) (held : 0 < (s.itable iq).ref) (same : (s.itable iq).inum = i) : False :=
        fresh iq held (same ▸ inside) (same ▸ zero)
      have cleared := clear_spares sound live inside type
      have type' : (dinode sb (s.bwrite (iblock sb i) (clearDinode (s.bread (iblock sb i)) i type)) i).type = type := by
        rw [dinode, bread_bwrite, (getDinode_clearDinode _ _ _).type]
        exact Nat.mod_eq_of_lt small
      obtain ⟨taken, counts⟩ := iget_spares cleared.leaves.sound (cleared.leaves.live live) got
      have unused : refs s ip = 0 := by
        rcases iget_cases got with ⟨held, number, -⟩ | ⟨-, unused, -⟩
        · exact (absent ip held number).elim
        · exact unused
      refine ⟨⟨⟨i, positive, inside, zero⟩, ip, unused⟩, i, ip, after, rfl, positive, inside, cleared.trans taken, unused, ?_, ?_, ?_⟩
      · have same : refs (s.bwrite (iblock sb i) (clearDinode (s.bread (iblock sb i)) i type)) = refs s := rfl
        rw [counts, same, unused]
        rfl
      · have idle (iq : InodeIx) : ¬Live (s.bwrite (iblock sb i) (clearDinode (s.bread (iblock sb i)) i type)) iq i :=
          fun held => absent iq held.1 held.2.2
        have refers := iget_refers cleared.leaves.sound got
        rwa [typeOf_idle idle, type'] at refers
      · rw [dinode_congr ((cleared.leaves.sound.iget_still got).bread _)]
        exact type'
  | error message =>
      right
      refine ⟨?_, message, rfl⟩
      rintro ⟨⟨i, positive, inside, zero⟩, ip, unused⟩
      unfold ialloc at done
      split at done
      · rename_i search
        have missed := List.find?_eq_none.mp search i (List.mem_range'_1.mpr ⟨positive, by omega⟩)
        rw [decide_eq_true_eq] at missed
        exact missed zero
      · rename_i inum search
        rcases iget_outcome (s.bwrite (iblock sb inum) (clearDinode (s.bread (iblock sb inum)) inum type)) inum with ⟨-, iq, got, given, -⟩ | ⟨full, -⟩
        · rw [given] at done
          contradiction
        · exact full ⟨ip, Or.inr unused⟩

/-- An entry that is linked leaves the other inodes and the references. -/
theorem dirlink_table {name : Memory} {inum : Nat} (sound : Sound sb s) (live : Live s dp d) (done : dirlink sb s dp name inum = .ok (0, after)) :
    (∀ ip, ip ≠ dp → after.itable ip = s.itable ip) ∧ refs after = refs s := by
  obtain ⟨mid, kept, grown, ⟨refused, -⟩ | ⟨-, -, o, -, -, -, wrote⟩⟩ := dirlink_cases sound live done
  · contradiction
  · have still := (grown.extended.live dp d).mpr live
    rcases writei_saved kept still wrote with ⟨refused, -⟩ | ⟨-, count, last, -, -, moved, saved, -⟩
    · contradiction
    · have others (ip : InodeIx) (apart : ip ≠ dp) : after.itable ip = s.itable ip := by
        obtain ⟨addrs, table⟩ := grown.extended.table
        rw [saved.entry moved apart, table, Function.update_of_ne apart]
      refine ⟨others, ?_⟩
      funext ip
      by_cases own : ip = dp
      · rw [← grown.extended.refs, ← moved.extended.refs, own, refs, (saved.size moved).1]
        rfl
      · rw [refs, others ip own]
        rfl

/-- The ways in which the inode under a path is made or taken with `O_CREATE`. -/
inductive Created (sb : Superblock) (s : State) (dp : InodeIx) (path : Memory) : Except String (Option InodeIx × State) → Prop where
  | starved {message : String} : ¬Searchable sb s dp rootino path → Created sb s dp path (.error message)
  | crowded {i : Nat} {message : String} : (entries sb s dp rootino).find (key path) = some i → ¬Admits s i → Created sb s dp path (.error message)
  | foreign {i : Nat} {after : State} : Searchable sb s dp rootino path → (entries sb s dp rootino).find (key path) = some i → Admits s i →
      typeOf sb s i ≠ tFile → Keeps sb s after dp rootino → refs after = refs s → Created sb s dp path (.ok (none, after))
  | found {i : Nat} {ip : InodeIx} {after : State} : Searchable sb s dp rootino path → (entries sb s dp rootino).find (key path) = some i → Admits s i →
      typeOf sb s i = tFile → Keeps sb s after dp rootino → refs after = Function.update (refs s) ip (refs s ip + 1) →
      Live after ip i → (after.itable ip).type = tFile → Created sb s dp path (.ok (some ip, after))
  | full {message : String} : (entries sb s dp rootino).find (key path) = none → ¬(Allocatable sb s ∧ Linkable sb s dp rootino) →
      Created sb s dp path (.error message)
  | made {i : Nat} {ip : InodeIx} {after : State} : Searchable sb s dp rootino path → (entries sb s dp rootino).find (key path) = none →
      Allocatable sb s → Linkable sb s dp rootino → Listed sb after dp rootino → (entries sb after dp rootino).find (key path) = some i →
      Live after ip i → (after.itable ip).type = tFile → Created sb s dp path (.ok (some ip, after))

/-- A reference to the directory that was taken before another one is given back. -/
theorem update_returned (f g : InodeIx → Int) (dp ip : InodeIx) (one : g = Function.update f dp (f dp + 1)) :
    Function.update (Function.update g ip (g ip + 1)) dp (Function.update g ip (g ip + 1) dp - 1) = Function.update f ip (f ip + 1) := by
  subst one
  funext iq
  simp only [Function.update_apply]
  split_ifs
  all_goals grind

/-- The directory is a file of its own. -/
theorem Listed.apart (listed : Listed sb s dp d) (file : (s.itable ip).type = tFile) : ip ≠ dp := by
  rintro rfl
  rw [listed.directory] at file
  contradiction

/-- A new inode gets a name that is absent exactly when the directory has a place for it. -/
theorem enter_outcome (listed : Listed sb s dp rootino) (absent : (entries sb s dp rootino).find (key path) = none) (live : Live s ip i)
    (file : (s.itable ip).type = tFile) (positive : 1 ≤ i) (small : i < 2 ^ 16) (more : 1 < refs s dp) :
    (Linkable sb s dp rootino ∧ ∃ after, enter sb s dp ip path = .ok (some ip, after) ∧ Listed sb after dp rootino ∧
        (entries sb after dp rootino).find (key path) = some i ∧ Live after ip i ∧ (after.itable ip).type = tFile) ∨
      (¬Linkable sb s dp rootino ∧ ∃ message, enter sb s dp ip path = .error message) := by
  have apart := listed.apart file
  have valid : (DirCall.link path i).Valid := ⟨positive, small⟩
  rw [enter, live.2.2]
  cases linked : dirlink sb s dp path i with
  | error message =>
      right
      refine ⟨fun linkable => ?_, message, rfl⟩
      obtain ⟨after, done⟩ := (dirlink_iff listed absent i).mpr linkable
      rw [linked] at done
      contradiction
  | ok result =>
      obtain ⟨value, mid⟩ := result
      have run : (DirCall.link path i).run sb dp s = .ok (value, mid) := linked
      obtain ⟨next, answer, -, step⟩ := DirCall.step listed valid run
      rcases answer with rfl | ⟨rfl, -⟩
      · left
        have found : (entries sb mid dp rootino).find (key path) = some i := by
          rw [step.find listed.unique, decide_eq_true rfl, if_pos rfl, DirCall.toCall, Call.effect, if_pos rfl]
          rfl
        obtain ⟨others, counts⟩ := dirlink_table listed.sound listed.live linked
        obtain ⟨done, spares⟩ := iput_dir next.sound next.live (by rwa [counts])
        have keeps := spares.leaves.keeps next
        have entry : (mid.setRef dp ((mid.itable dp).ref - 1)).itable ip = s.itable ip := by
          rw [setRef, itable_setInode_of_ne mid _ apart, others ip apart]
        refine ⟨(dirlink_iff listed absent i).mp ⟨mid, linked⟩, _, ?_, keeps.listed, ?_, ?_, ?_⟩
        · show (iput sb mid dp >>= _) = _
          rw [done]
          rfl
        · rw [keeps.entries]
          exact found
        · rw [Live, entry]
          exact live
        · rw [entry]
          exact file
      · right
        refine ⟨fun linkable => ?_, "create: dirlink", rfl⟩
        obtain ⟨after, done⟩ := (dirlink_iff listed absent i).mpr linkable
        rw [linked, Except.ok.injEq, Prod.mk.injEq] at done
        exact absurd done.1 (by decide)

/-- A path without an entry gets a new inode when there are an inode, an entry of the table and a place in the directory for it. -/
theorem Tidy.createNew (tidy : Tidy sb s dp) (searchable : Searchable sb s dp rootino path)
    (absent : (entries sb s dp rootino).find (key path) = none) (looked : dirlookup sb (rooted s dp) dp path = .ok (none, mid)) (sound : Sound sb mid)
    (grown : Grown sb (rooted s dp) mid dp rootino) : Created sb s dp path (createNew sb mid dp path tFile) := by
  have listed := tidy.listed
  have positive : 0 < refs s dp := listed.live.1
  have spares := rooted_spares listed
  have first := spares.leaves.keeps listed
  have keeps := first.trans (keeps_grown first.listed sound grown)
  have counts : refs mid = Function.update (refs s) dp (refs s dp + 1) := grown.extended.refs.trans (refs_rooted s dp)
  have same : Linkable sb mid dp rootino ↔ Linkable sb s dp rootino :=
    (looked_linkable first.listed looked).trans (spares.linkable listed)
  have number (iq : InodeIx) : (mid.itable iq).inum = (s.itable iq).inum := by
    obtain ⟨addrs, entry⟩ := grown.extended.entry iq
    rw [entry, rooted, setRef]
    by_cases own : iq = dp
    · rw [own, itable_setInode]
    · rw [itable_setInode_of_ne s _ own]
  have held (iq : InodeIx) : (0 < (mid.itable iq).ref ↔ 0 < (s.itable iq).ref) ∧ ((mid.itable iq).ref = 0 ↔ (s.itable iq).ref = 0) := by
    show (0 < refs mid iq ↔ 0 < refs s iq) ∧ (refs mid iq = 0 ↔ refs s iq = 0)
    rw [counts]
    by_cases own : iq = dp
    · rw [own, Function.update_self]
      omega
    · rw [Function.update_of_ne own]
      exact ⟨Iff.rfl, Iff.rfl⟩
  have disk (x : Nat) (inside : x < sb.ninodes) : dinode sb mid x = dinode sb s x := grown.extended.dinodes x inside
  have allocatable : Allocatable sb mid ↔ Allocatable sb s := by
    refine and_congr (exists_congr fun x => and_congr_right fun _ => and_congr_right fun inside => ?_) (exists_congr fun iq => (held iq).2)
    rw [disk x inside]
  have fresh (iq : InodeIx) (taken : 0 < (mid.itable iq).ref) (inside : (mid.itable iq).inum < sb.ninodes) :
      (dinode sb mid (mid.itable iq).inum).type ≠ 0 := by
    rw [disk _ inside, number]
    exact tidy.held iq ((held iq).1.mp taken)
  rcases ialloc_outcome sound keeps.listed.live (by decide : tFile < 2 ^ 16) fresh with ⟨some, i, ip, got, done, new⟩ | ⟨none, message, failed⟩
  · have kept := (new.spares.leaves.keeps keeps.listed)
    obtain ⟨last, loaded, filled, counted, live, type⟩ := new.refers.loaded kept.listed.sound kept.listed.live new.inside (by rw [new.stored]; decide)
    have full := filled.leaves.keeps kept.listed
    have written := iupdate_spares full.listed.sound full.listed.live live
    have whole := keeps.trans (kept.trans (full.trans (written.leaves.keeps full.listed)))
    have room : Linkable sb (iupdate sb last ip) dp rootino ↔ Linkable sb s dp rootino := by
      rw [written.linkable full.listed, filled.linkable kept.listed, new.spares.linkable keeps.listed, same]
    have more : 1 < refs (iupdate sb last ip) dp := by
      show 1 < refs last dp
      have apart : dp ≠ ip := by
        rintro rfl
        have unused := new.unused
        rw [counts, Function.update_self] at unused
        omega
      rw [counted, new.counts, Function.update_of_ne apart, counts, Function.update_self]
      omega
    have small : i < 2 ^ 16 := Nat.lt_of_lt_of_le new.inside tidy.numbered
    rw [Fs.createNew, done]
    show Created sb s dp path (ivalid sb got ip >>= _)
    rw [loaded]
    show Created sb s dp path (enter sb (iupdate sb last ip) dp ip path)
    rcases enter_outcome whole.listed (by rw [whole.entries]; exact absent) live type new.positive small more with
      ⟨linkable, after, entered, final, found, held, file⟩ | ⟨unlinkable, message, failed⟩
    · rw [entered]
      exact .made searchable absent (allocatable.mp some) (room.mp linkable) final found held file
    · rw [failed]
      exact .full absent fun both => unlinkable (room.mpr both.2)
  · rw [Fs.createNew, failed]
    exact .full absent fun both => none (allocatable.mpr both.1)

/-- The ways in which `create` ends for a file. -/
theorem Tidy.create (tidy : Tidy sb s dp) (path : Memory) : Created sb s dp path (create sb s path tFile) := by
  have listed := tidy.listed
  have positive : 0 < refs s dp := listed.live.1
  have valid : ((rooted s dp).itable dp).valid = true := (rooted_spares listed).leaves.live listed.live |>.2.1
  have way := tidy.lookup path
  generalize looked : dirlookup sb (rooted s dp) dp path = result at way
  rw [Fs.create, rootDir_rooted listed]
  show Created sb s dp path (ivalid sb (rooted s dp) dp >>= _)
  rw [ivalid, if_pos valid]
  show Created sb s dp path (dirlookup sb (rooted s dp) dp path >>= _)
  rw [looked]
  cases way with
  | starved hungry => exact .starved hungry
  | crowded found full => exact .crowded found full
  | absent searchable absent again sound grown => exact tidy.createNew searchable absent again sound grown
  | @found i o ip got searchable found admits keeps counts refers allocated =>
      obtain ⟨inside, -⟩ := tidy.named _ _ found
      have more : 1 < refs got dp := by
        rw [counts, refs_rooted]
        by_cases own : dp = ip
        · rw [own, Function.update_self, Function.update_self]
          rw [own] at positive
          omega
        · rw [Function.update_of_ne own, Function.update_self]
          omega
      obtain ⟨done, returned⟩ := iput_dir keeps.listed.sound keeps.listed.live more
      have kept := returned.leaves.keeps keeps.listed
      have counts' : refs (got.setRef dp ((got.itable dp).ref - 1)) = Function.update (refs s) ip (refs s ip + 1) := by
        rw [← update_returned (refs s) (refs (rooted s dp)) dp ip (refs_rooted s dp), ← counts]
        exact refs_setInode got dp _
      have left : 0 < (got.itable dp).ref - 1 := Int.sub_pos.mpr more
      have refers' : Refers sb (got.setRef dp ((got.itable dp).ref - 1)) ip i (typeOf sb s i) := refers.setRef fun _ => left
      obtain ⟨after, loaded, filled, counted, live, type⟩ := refers'.loaded kept.listed.sound kept.listed.live inside allocated
      have full := filled.leaves.keeps kept.listed
      have whole := keeps.trans (kept.trans full)
      show Created sb s dp path (iput sb got dp >>= _)
      rw [done]
      show Created sb s dp path (ivalid sb _ ip >>= _)
      rw [loaded]
      by_cases file : typeOf sb s i = tFile
      · rw [file] at type
        show Created sb s dp path (ite (tFile = tFile ∧ (after.itable ip).type = tFile) _ _)
        rw [if_pos ⟨rfl, type⟩]
        exact .found searchable found admits file whole (counted.trans counts') live type
      · show Created sb s dp path (ite (tFile = tFile ∧ (after.itable ip).type = tFile) _ _)
        rw [if_neg fun both => file (type.symm.trans both.2)]
        have several : ip = dp → 1 < refs after dp := by
          rintro rfl
          rw [counted, counts', Function.update_self]
          omega
        obtain ⟨final, given, leaves, numbers⟩ := iput_leaves full.listed.sound full.listed.live live.1 several
        show Created sb s dp path (iput sb after ip >>= _)
        rw [given]
        refine .foreign searchable found admits file (whole.trans (leaves.keeps full.listed)) ?_
        rw [numbers, counted, counts', Function.update_self, Function.update_idem, Int.add_sub_cancel, Function.update_eq_self]

end BtbuOs.Fs
