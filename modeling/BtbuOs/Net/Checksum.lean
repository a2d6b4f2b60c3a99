import BtbuOs.Lib.OnesComplement
import BtbuOs.Net.Input

namespace BtbuOs.Net

open Bytes

/-- The first loop of `cksum16`, with the last byte of an odd count; the sum has 32 bits. -/
def wordLoop (addr : Memory) : Nat → Nat → BitVec 32 → BitVec 32
  | _, 0, sum => sum
  | start, 1, sum => sum + (addr start).setWidth 32
  | start, count + 2, sum => wordLoop addr (start + 2) count (sum + (load16 addr start).setWidth 32)

/-- The last loop of `cksum16`, which runs as long as there is a carry. -/
def carryLoop (sum : Nat) : Nat := if sum / 2 ^ 16 = 0 then sum else carryLoop (carryRound sum)
  termination_by sum
  decreasing_by
    unfold carryRound
    omega

/-- The function `cksum16` with the sum of the machine. -/
def cksum16Machine (addr : Memory) (start : Nat) (count : BitVec 16) (init : BitVec 32) : BitVec 16 :=
  ~~~BitVec.ofNat 16 (carryLoop (wordLoop addr start count.toNat init).toNat)

/-- The words of a part of the memory; an odd count ends with a byte. -/
def words (mem : Memory) : Nat → Nat → List Nat
  | _, 0 => []
  | start, 1 => [(mem start).toNat]
  | start, count + 2 => load mem start 2 :: words mem (start + 2) count

variable {mem other : Memory} {start place pos count value : Nat}

theorem words_sum (mem : Memory) (start count : Nat) : (words mem start count).sum = wordSum mem start count := by
  induction start, count using words.induct with
  | case1 => rfl
  | case2 start => rw [words, wordSum, List.sum_singleton]
  | case3 start count ih => rw [words, wordSum, List.sum_cons, ih]

theorem load_two_lt (mem : Memory) (start : Nat) : load mem start 2 < 2 ^ 16 := load_lt mem start 2

theorem words_bounded : ∀ a ∈ words mem start count, a < 2 ^ 16 := by
  induction start, count using words.induct with
  | case1 =>
      intro a listed
      exact absurd listed List.not_mem_nil
  | case2 start =>
      intro a listed
      obtain rfl := List.mem_singleton.mp listed
      exact Nat.lt_trans (mem start).isLt (by decide)
  | case3 start count ih =>
      intro a listed
      rcases List.mem_cons.mp listed with rfl | later
      · exact load_two_lt mem start
      · exact ih a later

/-- The sum of the words of a count in 16 bits has no carry out of 32 bits. -/
theorem wordSum_le (mem : Memory) (start count : Nat) : wordSum mem start count ≤ 65535 * ((count + 1) / 2) := by
  induction start, count using words.induct with
  | case1 => exact Nat.zero_le _
  | case2 start =>
      have byte := (mem start).isLt
      rw [wordSum]
      omega
  | case3 start count ih =>
      have word := load_two_lt mem start
      rw [wordSum]
      omega

theorem wordSum_lt (mem : Memory) (start : Nat) (count : BitVec 16) : wordSum mem start count.toNat < 2 ^ 31 := by
  have bound := wordSum_le mem start count.toNat
  have below := count.isLt
  omega

/-- The sum can be taken from a copy of the bytes. -/
theorem wordSum_shift (same : ∀ k, k < count → mem (start + k) = other (place + k)) :
    wordSum mem start count = wordSum other place count := by
  induction start, count using words.induct generalizing place with
  | case1 => rfl
  | case2 start =>
      rw [wordSum, wordSum]
      exact congrArg BitVec.toNat (same 0 Nat.one_pos)
  | case3 start count ih =>
      have first : load mem start 2 = load other place 2 := load_shift fun k below => same k (by omega)
      have rest : wordSum mem (start + 2) count = wordSum other (place + 2) count := by
        apply ih
        intro k below
        rw [Nat.add_assoc, Nat.add_assoc, Nat.add_comm 2 k]
        exact same (k + 2) (by omega)
      rw [wordSum, wordSum, first, rest]

/-- The loop of the machine counts like natural numbers as long as there is no carry out of 32 bits. -/
theorem wordLoop_toNat {sum : BitVec 32} (small : sum.toNat + wordSum mem start count < 2 ^ 32) :
    (wordLoop mem start count sum).toNat = sum.toNat + wordSum mem start count := by
  induction start, count using words.induct generalizing sum with
  | case1 => rfl
  | case2 start =>
      rw [wordSum] at small ⊢
      have byte := (mem start).isLt
      rw [wordLoop, BitVec.toNat_add, BitVec.toNat_setWidth, Nat.mod_eq_of_lt (by omega : (mem start).toNat < 2 ^ 32),
        Nat.mod_eq_of_lt small]
  | case3 start count ih =>
      rw [wordSum] at small ⊢
      have word := load_two_lt mem start
      have exact : ((load16 mem start).setWidth 32).toNat = load mem start 2 := by
        rw [BitVec.toNat_setWidth, load16, BitVec.toNat_ofNat, Nat.mod_eq_of_lt word, Nat.mod_eq_of_lt (by omega)]
      have next : (sum + (load16 mem start).setWidth 32).toNat = sum.toNat + load mem start 2 := by
        rw [BitVec.toNat_add, exact, Nat.mod_eq_of_lt (by omega)]
      rw [wordLoop, ih (by omega), next, Nat.add_assoc]

/-- The carries of a sum in 32 bits are gone behind two rounds. -/
theorem carryLoop_eq {sum : Nat} (word : sum < 2 ^ 32) : carryLoop sum = carryRound (carryRound sum) := by
  have stops {s : Nat} (small : s < 2 ^ 16) : carryLoop s = s ∧ carryRound s = s := by
    rw [carryLoop, carryRound, Nat.div_eq_of_lt small, Nat.mod_eq_of_lt small]
    exact ⟨if_pos rfl, rfl⟩
  have done := stops (carryRound_twice word)
  have step (s : Nat) : carryLoop s = carryLoop (carryRound s) := by
    rw [carryLoop]
    split
    · rename_i small
      have below : s < 2 ^ 16 := by omega
      rw [(stops below).2, (stops below).1]
    · rfl
  rw [step, step, done.1]

/-- The sum of the machine loses no carry. -/
theorem cksum16Machine_eq {count : BitVec 16} {init : BitVec 32} (small : init.toNat < 2 ^ 31) :
    cksum16Machine mem start count init = cksum16 mem start count init.toNat := by
  have total := wordSum_lt mem start count
  have sum : (wordLoop mem start count.toNat init).toNat = init.toNat + wordSum mem start count.toNat := wordLoop_toNat (by omega)
  rw [cksum16Machine, sum, carryLoop_eq (by omega), cksum16]

/-- The checksum is the complement of the one's-complement sum of the initial value and the words. -/
theorem cksum16_reduce {count : BitVec 16} {init : Nat} (small : init < 2 ^ 31) : cksum16 mem start count init =
    ~~~BitVec.ofNat 16 (OnesComplement.reduce 16 (init + wordSum mem start count.toNat)) := by
  have total := wordSum_lt mem start count
  have folded : carryRound (carryRound (init + wordSum mem start count.toNat)) < 2 ^ 16 := carryRound_twice (by omega)
  have same : carryRound (carryRound (init + wordSum mem start count.toNat)) =
      OnesComplement.reduce 16 (init + wordSum mem start count.toNat) := by
    rw [← OnesComplement.reduce_of_lt folded]
    exact (OnesComplement.reduce_round 16 _).trans (OnesComplement.reduce_round 16 _)
  rw [cksum16, same]

theorem cksum16_sum {count : BitVec 16} (init : BitVec 16) : cksum16 mem start count init.toNat =
    ~~~BitVec.ofNat 16 (OnesComplement.sum 16 (init.toNat :: words mem start count.toNat)) := by
  have bounded : ∀ a ∈ init.toNat :: words mem start count.toNat, a < 2 ^ 16 := by
    intro a listed
    rcases List.mem_cons.mp listed with rfl | later
    · exact init.isLt
    · exact words_bounded a later
  rw [OnesComplement.sum_eq (by decide) bounded, List.sum_cons, words_sum]
  exact cksum16_reduce (Nat.lt_trans init.isLt (by decide))

/-- A sum begins with the sum of the pseudo header. -/
theorem psum_sum (src dst : IpAddr) (protocol : Byte) (len : BitVec 32) :
    psum src dst protocol len = OnesComplement.sum 16 (words (pseudoHdr src dst protocol len) 0 12) := by
  have header := @cksum16_sum (pseudoHdr src dst protocol len) 0 12 0
  have init : (0 : BitVec 16).toNat = 0 := rfl
  have count : (12 : BitVec 16).toNat = 12 := rfl
  rw [init, count, OnesComplement.sum_cons (by decide)] at header
  change cksum16 (pseudoHdr src dst protocol len) 0 12 0 =
    ~~~BitVec.ofNat 16 (OnesComplement.sum 16 (words (pseudoHdr src dst protocol len) 0 12)) at header
  have word : OnesComplement.sum 16 (words (pseudoHdr src dst protocol len) 0 12) < 2 ^ 16 := by
    rw [OnesComplement.sum_eq (by decide) words_bounded]
    exact Nat.lt_succ_of_le (OnesComplement.reduce_le (by decide) _)
  rw [psum, header, BitVec.not_not, BitVec.toNat_ofNat, Nat.mod_eq_of_lt word]

/-- The checksum of data behind its pseudo header is the complement of their one's-complement sum. -/
theorem cksum16_psum {count : BitVec 16} (src dst : IpAddr) (protocol : Byte) (len : BitVec 32) :
    cksum16 mem start count (psum src dst protocol len) =
      ~~~BitVec.ofNat 16 (OnesComplement.sum 16 (words (pseudoHdr src dst protocol len) 0 12 ++ words mem start count.toNat)) := by
  have small : psum src dst protocol len < 2 ^ 16 := BitVec.isLt _
  rw [OnesComplement.sum_append, ← psum_sum, ← OnesComplement.sum_cons small]
  exact cksum16_sum _

/-- A field that is one of the words is a summand. -/
theorem wordSum_store (word : value < 2 ^ 16) (even : (pos - start) % 2 = 0) (above : start ≤ pos) (inside : pos + 2 ≤ start + count) :
    wordSum (store mem pos 2 value) start count + load mem pos 2 = wordSum mem start count + value := by
  induction start, count using words.induct with
  | case1 => omega
  | case2 start => omega
  | case3 start count ih =>
      rw [wordSum, wordSum]
      by_cases here : pos = start
      · subst here
        have rest : wordSum (store mem pos 2 value) (pos + 2) count = wordSum mem (pos + 2) count :=
          wordSum_shift fun k below => if_neg (by omega)
        rw [load_store, rest, Nat.mod_eq_of_lt (show value < 256 ^ 2 from word)]
        omega
      · have later := ih (by omega) (by omega) (by omega)
        rw [load_store_of_disjoint mem value (by omega)]
        omega

theorem cksum16_shift {count : BitVec 16} {init : Nat} (same : ∀ k, k < count.toNat → mem (start + k) = other (place + k)) :
    cksum16 mem start count init = cksum16 other place count init := by
  rw [cksum16, cksum16, wordSum_shift same]

/-- The checksum in its field, which is one of the words, is accepted. -/
theorem cksum16_accepts {count : BitVec 16} {init : Nat} (small : init < 2 ^ 31) (even : (pos - start) % 2 = 0) (above : start ≤ pos)
    (inside : pos + 2 ≤ start + count.toNat) (zero : load mem pos 2 = 0) :
    cksum16 (store mem pos 2 (cksum16 mem start count init).toNat) start count init = 0 := by
  obtain ⟨sum, total⟩ : ∃ sum, sum = init + wordSum mem start count.toNat := ⟨_, rfl⟩
  have below : OnesComplement.reduce 16 sum ≤ OnesComplement.ones 16 := OnesComplement.reduce_le (by decide) sum
  have ones : OnesComplement.ones 16 = 65535 := rfl
  have field : (cksum16 mem start count init).toNat = OnesComplement.ones 16 - OnesComplement.reduce 16 sum := by
    rw [cksum16_reduce small, ← total, BitVec.toNat_not, BitVec.toNat_ofNat, Nat.mod_eq_of_lt (by omega)]
    rfl
  have stored : wordSum (store mem pos 2 (OnesComplement.ones 16 - OnesComplement.reduce 16 sum)) start count.toNat =
      wordSum mem start count.toNat + (OnesComplement.ones 16 - OnesComplement.reduce 16 sum) := by
    rw [← wordSum_store (by omega) even above inside, zero, Nat.add_zero]
  rw [field, cksum16_reduce small, stored, ← Nat.add_assoc, ← total, OnesComplement.reduce_complement (by decide)]
  rfl

end BtbuOs.Net
