import BtbuOs.Fs.BlockCount
import BtbuOs.Fs.DirectoryMap

namespace BtbuOs.Fs

open Bytes Machine Ownership State Slots

variable {sb : Superblock} {s mid after : State} {dp ip : InodeIx} {d i k n tot off o rounds : Nat} {name src dst data : Memory}

/-- An inode gets a block exactly for the places that it misses. -/
structure Fills (sb : Superblock) (s after : State) (ip : InodeIx) (i : Nat) (places : Nat → Prop) : Prop where
  sound : Sound sb after
  extended : Extended sb s after ip i
  exactly : ∀ k, pointer sb after (i, k) ≠ 0 ↔ pointer sb s (i, k) ≠ 0 ∨ places k

theorem Fills.refl (sound : Sound sb s) (ip : InodeIx) (i : Nat) : Fills sb s s ip i fun _ => False :=
  ⟨sound, (Grown.refl sb s ip i).extended, fun k => by rw [or_false]⟩

theorem Fills.trans {first second : Nat → Prop} (one : Fills sb s mid ip i first) (two : Fills sb mid after ip i second) :
    Fills sb s after ip i fun k => first k ∨ second k := by
  refine ⟨two.sound, one.extended.trans two.sound two.extended, fun k => ?_⟩
  rw [two.exactly, one.exactly, or_assoc]

theorem Fills.congr {first second : Nat → Prop} (fills : Fills sb s after ip i first) (same : ∀ k, first k ↔ second k) :
    Fills sb s after ip i second :=
  ⟨fills.sound, fills.extended, fun k => by rw [fills.exactly, same]⟩

/-- There were blocks for the places that were filled and for those that could be filled then. -/
theorem Fills.enough {places : Nat → Prop} {ks rest : Finset Nat} (fills : Fills sb s after ip i places)
    (covered : ∀ k ∈ ks, places k ∨ k ∈ rest) (left : Enough sb after i rest) : Enough sb s i ks := by
  have subset : vacant sb s i ks ⊆ gained sb s after i ∪ vacant sb after i rest := by
    intro k member
    rw [vacant, Finset.mem_filter] at member
    rw [Finset.mem_union, mem_gained, vacant, Finset.mem_filter]
    by_cases empty : pointer sb after (i, k) = 0
    · rcases covered k member.1 with filled | later
      · exact absurd empty ((fills.exactly k).mpr (Or.inr filled))
      · exact Or.inr ⟨later, empty⟩
    · exact Or.inl ⟨member.2, empty⟩
  calc (vacant sb s i ks).card
      ≤ (gained sb s after i).card + (vacant sb after i rest).card :=
        Nat.le_trans (Finset.card_le_card subset) (Finset.card_union_le _ _)
    _ ≤ (gained sb s after i).card + (free sb after).card := Nat.add_le_add_left left _
    _ = (free sb s).card := by rw [fills.extended.card_free fills.sound, Nat.add_comm]

theorem enough_none (sb : Superblock) (s : State) (i : Nat) : Enough sb s i ∅ := Nat.zero_le _

/-- The places of a range are those of its bytes. -/
theorem covers_of_reach (positive : 0 < n) (member : k ∈ reach off n) : Covers off n k := by
  rw [reach, Finset.mem_biUnion] at member
  obtain ⟨bn, inside, place⟩ := member
  rw [Finset.mem_filter] at inside
  obtain ⟨-, above, below⟩ := inside
  refine ⟨max off (bn * bsize), Nat.le_max_left .., by omega, ?_⟩
  have block : max off (bn * bsize) / bsize = bn := by
    have kilo : bsize = 1024 := rfl
    rw [kilo] at above ⊢
    omega
  rwa [block]

/-- A kernel read that returns has filled the blocks of its range. -/
theorem readLoop_fills {value : Int} (sound : Sound sb s) (live : Live s ip i) (below : tot ≤ n) (above : n ≤ tot + rounds)
    (done : readLoop sb ip none n rounds s tot off dst = .ok (value, data, after)) :
    Fills sb s after ip i (Covers off (n - tot)) := by
  induction rounds generalizing s tot off dst with
  | zero =>
      cases done
      have all : n - tot = 0 := by omega
      rw [all]
      exact (Fills.refl sound ip i).congr fun k => ⟨False.elim, covers_none off k⟩
  | succ rounds ih =>
      rw [readLoop] at done
      split at done
      · rename_i more
        split at done
        · contradiction
        · rename_i b mid mapped
          have found := bmap_mapped sound live mapped
          have one : Fills sb s mid ip i (· ∈ path (off / bsize)) :=
            ⟨found.sound, found.grown.extended, bmap_places sound live mapped⟩
          have size := round_size off more
          dsimp only at done
          generalize min (n - tot) (bsize - off % bsize) = m at done size
          obtain ⟨positive, left, inside⟩ := size
          rw [show copied none tot m = m from rfl, if_pos rfl] at done
          have two := ih found.sound ((found.grown.extended.live ip i).mpr live) (by omega) (by omega) done
          have whole : n - tot = m + (n - (tot + m)) := by omega
          rw [whole]
          exact (one.trans two).congr fun k => by rw [covers_add, covers_block positive inside]
      · cases done
        have all : n - tot = 0 := by omega
        rw [all]
        exact (Fills.refl sound ip i).congr fun k => ⟨False.elim, covers_none off k⟩

/-- A read of a whole entry has filled its block. -/
theorem readi_fills {count : Int} {de : Memory} (sound : Sound sb s) (live : Live s dp d)
    (done : readi sb s dp none (fun _ => 0) off direntSize = .ok (count, de, after)) (whole : ¬count ≠ direntSize) :
    Fills sb s after dp d (Covers off direntSize) := by
  obtain ⟨-, -, inside, -⟩ := readi_entry sound live done whole
  unfold readi at done
  split at done
  · cases done
    exact absurd whole (not_not.mpr (by decide))
  · rw [if_neg (by omega)] at done
    exact readLoop_fills sound live (Nat.zero_le _) (Nat.le_add_left _ _) done

theorem Extended.size (extended : Extended sb s after ip i) (iq : InodeIx) : (after.itable iq).size = (s.itable iq).size := by
  obtain ⟨addrs, entry⟩ := extended.entry iq
  rw [entry]

/-- A search for a name fills the blocks up to the entry that it finds, or up to the end of the directory. -/
theorem findEntry_fills {result : Option (InodeIx × Nat)} (sound : Sound sb s) (live : Live s dp d)
    (whole : (s.itable dp).size % direntSize = 0) (aligned : off % direntSize = 0) (reached : off ≤ (s.itable dp).size)
    (rounded : (s.itable dp).size < off + direntSize * rounds) (done : findEntry sb dp name rounds s off = .ok (result, after)) :
    ∃ mid n, Fills sb s mid dp d (Covers off n) ∧ (result = none → after = mid ∧ off + n = (s.itable dp).size) ∧
      ∀ ip o, result = some (ip, o) → off + n = o + direntSize := by
  have sixteen : direntSize = 16 := rfl
  induction rounds generalizing s off with
  | zero => omega
  | succ rounds ih =>
      have start : Fills sb s s dp d (Covers off 0) := (Fills.refl sound dp d).congr fun k => ⟨False.elim, covers_none off k⟩
      rw [findEntry] at done
      split at done
      · rename_i more
        split at done
        · contradiction
        · rename_i count de mid read
          split at done
          · contradiction
          · rename_i full
            have one := readi_fills sound live read full
            have later (rest : findEntry sb dp name rounds mid (off + direntSize) = .ok (result, after)) :
                ∃ mid n, Fills sb s mid dp d (Covers off n) ∧ (result = none → after = mid ∧ off + n = (s.itable dp).size) ∧
                  ∀ ip o, result = some (ip, o) → off + n = o + direntSize := by
              have size := one.extended.size dp
              obtain ⟨last, n, two, absent, found⟩ := ih one.sound ((one.extended.live dp d).mpr live) (by rwa [size])
                (by rw [Nat.add_mod_right, aligned]) (by rw [size, sixteen] at *; omega) (by rw [size]; rw [Nat.mul_succ] at rounded; omega) rest
              rw [size] at absent
              refine ⟨last, direntSize + n, (one.trans two).congr fun k => (covers_add off direntSize n k).symm, fun none => ?_, fun ip o some => ?_⟩
              · obtain ⟨same, sum⟩ := absent none
                exact ⟨same, by omega⟩
              · have sum := found ip o some
                omega
            split at done
            · exact later done
            · split at done
              · split at done
                · contradiction
                · cases done
                  refine ⟨mid, direntSize, one, fun absent => by contradiction, fun ip o same => ?_⟩
                  cases same
                  rfl
              · exact later done
      · rename_i exceeds
        cases done
        exact ⟨_, 0, start, fun _ => ⟨rfl, by omega⟩, fun ip o some => by contradiction⟩

/-- The search for an empty entry fills nothing behind the end of the directory. -/
theorem emptyEntry_fills (sound : Sound sb s) (live : Live s dp d) (whole : (s.itable dp).size % direntSize = 0)
    (aligned : off % direntSize = 0) (reached : off ≤ (s.itable dp).size) (done : emptyEntry sb dp rounds s off = .ok (o, after)) :
    ∃ n, Fills sb s after dp d (Covers off n) ∧ off + n ≤ (s.itable dp).size := by
  have sixteen : direntSize = 16 := rfl
  induction rounds generalizing s off with
  | zero =>
      cases done
      exact ⟨0, (Fills.refl sound dp d).congr fun k => ⟨False.elim, covers_none _ k⟩, reached⟩
  | succ rounds ih =>
      rw [emptyEntry] at done
      split at done
      · rename_i more
        split at done
        · contradiction
        · rename_i count de mid read
          split at done
          · contradiction
          · rename_i full
            have one := readi_fills sound live read full
            have size := one.extended.size dp
            have inside : off + direntSize ≤ (s.itable dp).size := by
              rw [sixteen] at whole aligned ⊢
              omega
            split at done
            · cases done
              exact ⟨direntSize, one, inside⟩
            · obtain ⟨n, two, bound⟩ := ih one.sound ((one.extended.live dp d).mpr live) (by rwa [size])
                (by rw [Nat.add_mod_right, aligned]) (by rwa [size]) done
              exact ⟨direntSize + n, (one.trans two).congr fun k => (covers_add off direntSize n k).symm, by omega⟩
      · cases done
        exact ⟨0, (Fills.refl sound dp d).congr fun k => ⟨False.elim, covers_none _ k⟩, reached⟩

/-- A write from the kernel that returns its length found a block for each place of its range. -/
theorem writei_enough (sound : Sound sb s) (live : Live s ip i) (positive : 0 < n)
    (done : writei sb s ip src none off n = .ok (n, after)) : Enough sb s i (reach off n) := by
  unfold writei at done
  split at done
  · cases done
  · split at done
    · cases done
    · split at done
      · contradiction
      · rename_i count last mid wrote
        obtain ⟨moved, -⟩ := writeLoop_writes sound live wrote
        have fills : Fills sb s mid ip i (Covers off (n - 0)) :=
          ⟨moved.sound, moved.extended, writeLoop_places sound live (Nat.zero_le _) (Nat.le_add_left _ _) wrote⟩
        rw [Nat.sub_zero] at fills
        exact fills.enough (fun k member => Or.inl (covers_of_reach positive member)) (enough_none sb mid i)

/-- The volume has a block for every hole up to the entry, or for every hole of the directory when the name has no entry. -/
def Searchable (sb : Superblock) (s : State) (dp : InodeIx) (d : Nat) (name : Memory) : Prop :=
  (∃ o, FirstNamed (content sb s d) name (s.itable dp).size 0 o ∧ Enough sb s d (reach 0 (o + direntSize))) ∨
    (entries sb s dp d).find (key name) = none ∧ Enough sb s d (reach 0 (s.itable dp).size)

/-- An entry can be added in an empty slot, or behind the directory with a block for it. -/
def Linkable (sb : Superblock) (s : State) (dp : InodeIx) (d : Nat) : Prop :=
  (∃ j, j < (entries sb s dp d).count ∧ (entries sb s dp d).slot j = none) ∧ Enough sb s d (reach 0 (s.itable dp).size) ∨
    (s.itable dp).size < maxfile * bsize ∧ Enough sb s d (reach 0 ((s.itable dp).size + direntSize))

/-- The name has only one first entry. -/
theorem FirstNamed.single {c : Memory} {size p : Nat} (one : FirstNamed c name size 0 o) (two : FirstNamed c name size 0 p) : o = p := by
  have first := one.aligned
  have second := two.aligned
  by_contra apart
  rcases Nat.lt_or_gt_of_ne apart with low | low
  · exact two.first o (Nat.zero_le o) low first one.named
  · exact one.first p (Nat.zero_le p) low second two.named

theorem rounds_over (size : Nat) : size < 0 + direntSize * (size / direntSize + 1) := by
  have quotient := Nat.div_add_mod size direntSize
  have rest := Nat.mod_lt size (show 0 < direntSize by decide)
  rw [Nat.mul_succ]
  omega

/-- A lookup fills the blocks up to the entry that it finds, or all blocks of the directory. -/
theorem dirlookup_fills {result : Option (InodeIx × Nat)} (listed : Listed sb s dp d)
    (done : dirlookup sb s dp name = .ok (result, after)) : ∃ mid n, Fills sb s mid dp d (Covers 0 n) ∧
      (result = none → after = mid ∧ n = (s.itable dp).size) ∧ ∀ ip o, result = some (ip, o) → n = o + direntSize := by
  have looked : findEntry sb dp name ((s.itable dp).size / direntSize + 1) s 0 = .ok (result, after) := by
    rw [← done, dirlookup, if_neg (not_not.mpr listed.directory)]
  obtain ⟨mid, n, fills, absent, found⟩ :=
    findEntry_fills listed.sound listed.live listed.whole (Nat.zero_mod _) (Nat.zero_le _) (rounds_over _) looked
  simp only [Nat.zero_add] at absent found
  exact ⟨mid, n, fills, absent, found⟩

/-- The blocks that were filled were there. -/
theorem Fills.covered (fills : Fills sb s after ip i (Covers 0 n)) : Enough sb s i (reach 0 n) := by
  cases n with
  | zero => exact enough_none sb s i
  | succ n => exact fills.enough (fun k member => Or.inl (covers_of_reach (Nat.succ_pos n) member)) (enough_none sb after i)

theorem dirlookup_absent (listed : Listed sb s dp d) (looked : dirlookup sb s dp name = .ok (none, after)) :
    (entries sb s dp d).find (key name) = none := by
  obtain ⟨-, _, -, -, ⟨-, -, missing⟩ | ⟨ip, o, found, -⟩⟩ := dirlookup_cases listed.sound listed.live looked
  · exact (Table.find_eq_none_iff _ _).mpr missing.slots
  · contradiction

/-- A lookup that does not panic had the blocks that it needs. -/
theorem dirlookup_searchable {result : Option (InodeIx × Nat)} (listed : Listed sb s dp d)
    (done : dirlookup sb s dp name = .ok (result, after)) : Searchable sb s dp d name := by
  obtain ⟨mid, n, fills, absent, found⟩ := dirlookup_fills listed done
  obtain ⟨-, last, -, -, ⟨rfl, -, missing⟩ | ⟨ip, o, rfl, first, -⟩⟩ := dirlookup_cases listed.sound listed.live done
  · obtain ⟨-, rfl⟩ := absent rfl
    exact Or.inr ⟨(Table.find_eq_none_iff _ _).mpr missing.slots, fills.covered⟩
  · obtain rfl := found ip o rfl
    exact Or.inl ⟨o, first, fills.covered⟩

/-- A lookup that has its blocks finds out whether the name is there. -/
theorem Searchable.outcome (listed : Listed sb s dp d) (searchable : Searchable sb s dp d name) : ∃ mid, Sound sb mid ∧ Grown sb s mid dp d ∧
    ((entries sb s dp d).find (key name) = none ∧ dirlookup sb s dp name = .ok (none, mid) ∨
      ∃ o i, (entries sb s dp d).find (key name) = some i ∧
        dirlookup sb s dp name = (iget mid i).map fun got => (some (got.1, o), got.2)) := by
  rcases searchable with ⟨o, first, enough⟩ | ⟨-, enough⟩
  · have subset (x : Nat) (_ : x < (s.itable dp).size) (reached : Reached (content sb s d) name 0 x) :
        reach x direntSize ⊆ reach 0 (o + direntSize) := by
      have low : x ≤ o := by
        by_contra exceeds
        exact reached.first o (Nat.zero_le o) (Nat.not_le.mp exceeds) first.aligned first.named
      exact reach_mono (Nat.zero_le x) (by omega)
    obtain ⟨mid, kept, grown, -, missed | ⟨p, i, found, -, looked⟩⟩ := dirlookup_outcome listed name subset enough
    · exact ⟨mid, kept, grown, Or.inl missed⟩
    · exact ⟨mid, kept, grown, Or.inr ⟨p, i, found, looked⟩⟩
  · obtain ⟨mid, kept, grown, -, missed | ⟨p, i, found, -, looked⟩⟩ :=
      dirlookup_outcome listed name (fun _ => listed.entry_subset (Finset.Subset.refl _)) enough
    · exact ⟨mid, kept, grown, Or.inl missed⟩
    · exact ⟨mid, kept, grown, Or.inr ⟨p, i, found, looked⟩⟩

/-- After a search that found nothing an entry can be added when it could be added before. -/
theorem looked_linkable (listed : Listed sb s dp d) (looked : dirlookup sb s dp name = .ok (none, after)) :
    Linkable sb after dp d ↔ Linkable sb s dp d := by
  obtain ⟨_, n, fills, missed, -⟩ := dirlookup_fills listed looked
  obtain ⟨rfl, rfl⟩ := missed rfl
  obtain ⟨-, _, sound, grown, ⟨-, rfl, -⟩ | ⟨ip, o, found, -⟩⟩ := dirlookup_cases listed.sound listed.live looked
  · obtain ⟨-, same, entry⟩ := listed.grown sound grown
    have size : (after.itable dp).size = (s.itable dp).size := by rw [entry]
    have supplied {ks : Finset Nat} (subset : reach 0 (s.itable dp).size ⊆ ks) : Enough sb after d ks ↔ Enough sb s d ks := by
      constructor
      · exact fills.enough fun k member => Or.inr member
      · intro enough
        obtain ⟨mid, -, -, left, ⟨-, again⟩ | ⟨o, i, found, -, -⟩⟩ := dirlookup_outcome listed name (fun _ => listed.entry_subset subset) enough
        · rw [looked] at again
          cases again
          exact left
        · rw [(dirlookup_absent listed looked)] at found
          contradiction
    rw [Linkable, Linkable, same, size, supplied (Finset.Subset.refl _), supplied (Space.subset s dp)]
  · contradiction

theorem mem_reach (small : off + n ≤ maxfile * bsize) (covers : Covers off n k) : k ∈ reach off n := by
  obtain ⟨x, low, high, member⟩ := covers
  exact path_subset_reach low high (by omega) member

/-- A name that is absent is linked exactly when there is a slot with its block. -/
theorem dirlink_iff (listed : Listed sb s dp d) (absent : (entries sb s dp d).find (key name) = none) (inum : Nat) :
    (∃ after, dirlink sb s dp name inum = .ok (0, after)) ↔ Linkable sb s dp d := by
  have sixteen : direntSize = 16 := rfl
  have most : maxfile * bsize = 274432 := rfl
  have whole := listed.whole
  constructor
  · rintro ⟨after, done⟩
    unfold dirlink at done
    obtain ⟨⟨result, mid⟩, looked, rest⟩ := bind_ok.mp done
    obtain ⟨_, n, fills, missed, -⟩ := dirlookup_fills listed looked
    cases result with
    | some got =>
        obtain ⟨last, -, same⟩ := bind_ok.mp rest
        cases same
    | none =>
        obtain ⟨rfl, rfl⟩ := missed rfl
        obtain ⟨⟨o, last⟩, searched, rest⟩ := bind_ok.mp rest
        obtain ⟨⟨count, final⟩, wrote, rest⟩ := bind_ok.mp rest
        dsimp only at rest
        split at rest
        · contradiction
        · rename_i full
          have size := fills.extended.size dp
          have live := (fills.extended.live dp d).mpr listed.live
          obtain ⟨m, more, bound⟩ := emptyEntry_fills fills.sound live (by rwa [size]) (Nat.zero_mod _) (Nat.zero_le _) searched
          obtain ⟨-, grown, -, aligned, empty, -⟩ := emptyEntry_cases fills.sound live searched
          rw [not_not.mp full] at wrote
          have still := (more.extended.live dp d).mpr live
          have reached := writei_reached wrote (by decide)
          rw [more.extended.size dp, size] at reached
          rw [size] at bound empty
          rw [Nat.zero_add] at bound
          by_cases low : o < (s.itable dp).size
          · left
            refine ⟨⟨o / direntSize, ?_, entryAt_eq_none_iff.mpr ?_⟩, fills.covered⟩
            · show o / direntSize < (s.itable dp).size / direntSize
              rw [Nat.zero_mod] at aligned
              rw [sixteen] at whole aligned ⊢
              omega
            · have spot : direntSize * (o / direntSize) = o := by
                have quotient := Nat.div_add_mod o direntSize
                rwa [aligned, Nat.zero_mod, Nat.add_zero] at quotient
              have zero := empty low (rounds_over _)
              obtain ⟨-, seen, -, grown', ⟨-, same, -⟩ | ⟨ip, p, found, -⟩⟩ := dirlookup_cases listed.sound listed.live looked
              · rw [spot, ← grown'.content d, ← same]
                exact zero
              · contradiction
          · right
            have last : o = (s.itable dp).size := by omega
            subst last
            have enough := writei_enough more.sound still (by decide) wrote
            rcases writei_saved more.sound still wrote with ⟨refused, -⟩ | ⟨range, -⟩
            · contradiction
            · have small := range (by decide)
              refine ⟨by omega, (fills.trans more).enough (fun k member => ?_) enough⟩
              have covers := covers_of_reach (by omega) member
              rw [covers_add, Nat.zero_add] at covers
              rcases covers with early | late
              · exact Or.inl (Or.inl early)
              · exact Or.inr (mem_reach small late)
  · intro linkable
    have made {ks : Finset Nat} (subset : reach 0 (s.itable dp).size ⊆ ks) (enough : Enough sb s d ks) (roomy : Roomy sb s dp d)
        (place : (∃ j, j < (entries sb s dp d).count ∧ (entries sb s dp d).slot j = none) ∨ reach 0 ((s.itable dp).size + direntSize) ⊆ ks) :
        ∃ after, dirlink sb s dp name inum = .ok (0, after) := by
      rcases dirlink_supplied listed subset enough place name inum with ⟨i, after, found, -⟩ | ⟨i, found, -⟩ | ⟨after, -, -, done⟩ | ⟨-, full, -⟩
      · rw [absent] at found
        contradiction
      · rw [absent] at found
        contradiction
      · exact ⟨after, done⟩
      · exact absurd roomy full
    rcases linkable with ⟨hole, enough⟩ | ⟨low, enough⟩
    · exact made (Finset.Subset.refl _) enough (Or.inl hole) (Or.inl hole)
    · exact made (Space.subset s dp) enough (Or.inr low) (Or.inr (Finset.Subset.refl _))

end BtbuOs.Fs
