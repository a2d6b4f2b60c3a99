import BtbuOs.Fs.Namei

namespace BtbuOs.Fs

open Bytes Ownership State

variable {sb : Superblock} {s mid after : State} {ip : InodeIx} {i b n bn off tot stop rounds : Nat} {room : Room} {src dst data : Memory}

/-- Places that have blocks after a step could all get one before. -/
theorem enough_of_present {ks : Finset Nat} (sound : Sound sb after) (extended : Extended sb s after ip i)
    (present : ∀ k ∈ ks, pointer sb after (i, k) ≠ 0) : Enough sb s i ks := by
  apply Finset.card_le_card_of_injOn fun k => pointer sb after (i, k)
  · intro k member
    obtain ⟨inside, empty⟩ := Finset.mem_filter.mp member
    have nonzero := present k inside
    exact Finset.mem_filter.mpr ⟨Finset.mem_range.mpr (sound.owned.below _ nonzero), extended.fresh _ empty nonzero⟩
  · intro k member j _ same
    have inside := (Finset.mem_filter.mp member).1
    exact congrArg Prod.snd (sound.owned.apart _ _ (present k inside) same)

/-- A block that is there has all places on its path. -/
theorem Mapped.present (mapped : Mapped sb s after ip i bn b) (live : Live after ip i) : ∀ k ∈ path bn, pointer sb after (i, k) ≠ 0 := by
  have nonzero : pointer sb after (i, place bn) ≠ 0 := mapped.block ▸ mapped.nonzero
  intro k member
  by_cases direct : bn < ndirect
  · rw [path, if_pos direct, Finset.mem_singleton] at member
    rw [place, if_pos direct] at nonzero
    rwa [member]
  · rw [path, if_neg direct, Finset.mem_insert, Finset.mem_singleton] at member
    rcases member with rfl | rfl
    · rw [pointer_slot (mapped.sound.inside ip i live) (Nat.le_refl _)]
      exact table_of_entry direct nonzero
    · rwa [place, if_neg direct] at nonzero

/-- A range whose blocks all have their places has the places that it needs. -/
theorem present_reach {last : Nat} (order : off ≤ last) (present : ∀ x, off ≤ x → x ≤ last → ∀ k ∈ path (x / bsize), pointer sb s (i, k) ≠ 0) :
    ∀ k ∈ reach off (last + 1 - off), pointer sb s (i, k) ≠ 0 := by
  intro k member
  obtain ⟨bn, inside, found⟩ := Finset.mem_biUnion.mp member
  obtain ⟨-, above, below⟩ := Finset.mem_filter.mp inside
  have unit : bsize = 1024 := rfl
  have block : max off (bn * bsize) / bsize = bn := by
    rw [unit] at above ⊢
    omega
  apply present (max off (bn * bsize)) (Nat.le_max_left ..) (by omega)
  rwa [block]

/-- A read that stops at a byte of the user has the blocks up to this byte. -/
theorem readLoop_refused (sound : Sound sb s) (live : Live s ip i) (before : ∀ stop, room = some stop → tot ≤ stop)
    (done : readLoop sb ip room n rounds s tot off dst = .ok (-1, data, after)) :
    Sound sb after ∧ Grown sb s after ip i ∧ ∃ stop, room = some stop ∧ stop < n ∧ ∀ x, off ≤ x → x ≤ off + (stop - tot) →
      x / bsize < maxfile ∧ ∀ k ∈ path (x / bsize), pointer sb after (i, k) ≠ 0 := by
  induction rounds generalizing s tot off dst with
  | zero =>
      simp only [readLoop, Except.ok.injEq, Prod.mk.injEq] at done
      have value := done.1
      omega
  | succ rounds ih =>
      rw [readLoop] at done
      split at done
      · rename_i more
        split at done
        · contradiction
        · rename_i b mid mapped
          have found := bmap_mapped sound live mapped
          have still := (found.grown.extended.live ip i).mpr live
          have size := round_size off more
          have present := found.present still
          dsimp only at done
          generalize min (n - tot) (bsize - off % bsize) = m at done size
          obtain ⟨positive, left, inside⟩ := size
          split at done
          · rename_i all
            have reached (stop : Nat) (ends : room = some stop) : tot + m ≤ stop := by
              have low := before stop ends
              rw [ends] at all
              have part : min m (stop - tot) = m := all
              omega
            obtain ⟨kept, grown, stop, ends, short, rest⟩ := ih found.sound still reached done
            have low := reached stop ends
            refine ⟨kept, found.grown.trans kept grown, stop, ends, short, fun x above below => ?_⟩
            by_cases own : x < off + m
            · rw [block_of_range inside above own]
              exact ⟨found.inside, fun k member => by rw [grown.extended.kept _ (present k member)]; exact present k member⟩
            · exact rest x (by omega) (by omega)
          · rename_i part
            cases done
            cases ends : room with
            | none =>
                rw [ends] at part
                exact absurd rfl part
            | some stop =>
                rw [ends] at part
                have low := before stop ends
                have small : ¬min m (stop - tot) = m := part
                refine ⟨found.sound, found.grown, stop, rfl, by omega, fun x above below => ?_⟩
                rw [block_of_range inside above (by omega)]
                exact ⟨found.inside, present⟩
      · simp only [Except.ok.injEq, Prod.mk.injEq] at done
        have value := done.1
        omega

/-- A read stops at the first byte that cannot be copied, when the blocks up to it are there or can be had. -/
theorem readLoop_stops {ks : Finset Nat} (sound : Sound sb s) (live : Live s ip i) (enough : Enough sb s i ks) (low : tot ≤ stop) (short : stop < n)
    (rest : n ≤ tot + rounds) (paths : ∀ x, off ≤ x → x ≤ off + (stop - tot) → x / bsize < maxfile ∧ path (x / bsize) ⊆ ks) :
    ∃ data after, readLoop sb ip (some stop) n rounds s tot off dst = .ok (-1, data, after) := by
  induction rounds generalizing s tot off dst with
  | zero => omega
  | succ rounds ih =>
      have more : tot < n := by omega
      obtain ⟨small, subset⟩ := paths off (Nat.le_refl _) (Nat.le_add_right ..)
      obtain ⟨b, mid, mapped⟩ := bmap_total sound live small subset enough
      have found := bmap_mapped sound live mapped
      have size := round_size off more
      rw [readLoop, if_pos more, mapped]
      dsimp only
      generalize min (n - tot) (bsize - off % bsize) = m at size
      split
      · rename_i all
        have part : min m (stop - tot) = m := all
        exact ih found.sound ((found.grown.extended.live ip i).mpr live) (found.supply ks subset enough) (by omega) (by omega)
          fun x above below => paths x (by omega) (by omega)
      · exact ⟨_, _, rfl⟩

/-- The result of a read is -1 or a number of bytes that were asked for. -/
theorem readLoop_value {value : Int} (below : tot ≤ n) (done : readLoop sb ip room n rounds s tot off dst = .ok (value, data, after)) :
    value = -1 ∨ ∃ count : Nat, value = count ∧ count ≤ n := by
  induction rounds generalizing s tot off dst with
  | zero =>
      cases done
      exact Or.inr ⟨tot, rfl, below⟩
  | succ rounds ih =>
      rw [readLoop] at done
      split at done
      · split at done
        · contradiction
        · dsimp only at done
          split at done
          · exact ih (by omega) done
          · cases done
            exact Or.inl rfl
      · cases done
        exact Or.inr ⟨tot, rfl, below⟩

theorem readi_value {value : Int} (done : readi sb s ip room dst off n = .ok (value, data, after)) :
    value = -1 ∨ ∃ count : Nat, value = count ∧ count ≤ n := by
  rw [readi] at done
  split at done
  · cases done
    exact Or.inr ⟨0, rfl, Nat.zero_le n⟩
  · have bound : (if off + n > (s.itable ip).size then (s.itable ip).size - off else n) ≤ n := by
      split <;> omega
    rcases readLoop_value (Nat.zero_le _) done with refused | ⟨count, value, most⟩
    · exact Or.inl refused
    · exact Or.inr ⟨count, value, Nat.le_trans most bound⟩

/-- A read from the user fails exactly when it stops at a byte of the user that it can reach. -/
theorem readi_refused_iff (room : Room) (dst : Memory) (n : Nat) (sound : Sound sb s) (live : Live s ip i) :
    (∃ data after, readi sb s ip room dst off n = .ok (-1, data, after)) ↔
      off ≤ (s.itable ip).size ∧ off ≤ (off + n) % 2 ^ 32 ∧ ∃ stop, room = some stop ∧ stop < min n ((s.itable ip).size - off) ∧
        off + stop < maxfile * bsize ∧ Enough sb s i (reach off (stop + 1)) := by
  have count : (if off + n > (s.itable ip).size then (s.itable ip).size - off else n) = min n ((s.itable ip).size - off) ∨
      (s.itable ip).size < off := by
    split <;> omega
  constructor
  · rintro ⟨data, after, done⟩
    rw [readi] at done
    split at done
    · cases done
    · rename_i wraps
      dsimp only at done
      rw [count.resolve_right (by omega)] at done
      obtain ⟨kept, grown, stop, ends, short, blocks⟩ := readLoop_refused sound live (fun _ _ => Nat.zero_le _) done
      rw [Nat.sub_zero] at blocks
      refine ⟨by omega, by omega, stop, ends, short, ?_, ?_⟩
      · have last := (blocks (off + stop) (by omega) (Nat.le_refl _)).1
        exact (Nat.div_lt_iff_lt_mul (by decide)).mp last
      · have range : off + stop + 1 - off = stop + 1 := by omega
        rw [← range]
        exact enough_of_present kept grown.extended (present_reach (Nat.le_add_right ..) fun x above below => (blocks x above below).2)
  · rintro ⟨inside, wraps, stop, rfl, short, small, enough⟩
    rw [readi, if_neg (by omega)]
    dsimp only
    rw [count.resolve_right (by omega)]
    apply readLoop_stops sound live enough (Nat.zero_le _) short (Nat.le_add_left ..)
    intro x above below
    have bounded : x < maxfile * bsize := by omega
    exact ⟨Nat.div_lt_of_lt_mul (by rwa [Nat.mul_comm]), path_subset_reach above (by omega) bounded⟩

/-- A write is refused exactly when its range does not start in the file, wraps or ends behind the largest file. -/
theorem writei_refused_iff (sb : Superblock) (s : State) (ip : InodeIx) (src : Memory) (room : Room) (off n : Nat) :
    (∃ after, writei sb s ip src room off n = .ok (-1, after)) ↔
      off > (s.itable ip).size ∨ (off + n) % 2 ^ 32 < off ∨ (off + n) % 2 ^ 32 > maxfile * bsize := by
  rw [writei]
  split
  · rename_i wraps
    simp only [Except.ok.injEq, Prod.mk.injEq, true_and, exists_eq', true_iff]
    omega
  · rename_i wraps
    split
    · rename_i large
      simp only [Except.ok.injEq, Prod.mk.injEq, true_and, exists_eq', true_iff]
      omega
    · rename_i small
      constructor
      · rintro ⟨after, done⟩
        split at done
        · contradiction
        · rename_i count last mid wrote
          simp only [Except.ok.injEq, Prod.mk.injEq] at done
          have value := done.1
          omega
      · intro refused
        omega

end BtbuOs.Fs
