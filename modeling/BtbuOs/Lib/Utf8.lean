import BtbuOs.Lib.Text

namespace Utf8

open Bytes

/-- The bytes of a character. -/
def encode (c : Char) : List Byte := (String.utf8EncodeChar c).map UInt8.toBitVec

def encoded (cs : List Char) : List Byte := cs.flatMap encode

/-- The bytes are those of characters. -/
def WellFormed (s : List Byte) : Prop := ∃ cs, s = encoded cs

section Encoding

variable {c d : Char} {x y part : List Byte}

theorem encode_length (c : Char) : (encode c).length = c.utf8Size := by
  rw [encode, List.length_map, String.length_utf8EncodeChar]

theorem encode_length_bounds (c : Char) : 1 ≤ (encode c).length ∧ (encode c).length ≤ 4 := by
  rw [encode_length]
  exact ⟨c.utf8Size_pos, c.utf8Size_le_four⟩

theorem encode_ne_nil (c : Char) : encode c ≠ [] := List.ne_nil_of_length_pos (encode_length_bounds c).1

/-- A character below 128 is its own byte. -/
theorem encode_ascii (low : c.toNat < 128) : encode c = [chr c] := by
  have range : c.val.toNat ≤ 0x7f := Nat.le_of_lt_succ low
  unfold encode String.utf8EncodeChar
  dsimp only
  rw [if_pos range]
  rfl

/-- The bytes of another character are two at least, and each of them is 128 at least. -/
theorem encode_high (high : 128 ≤ c.toNat) : 2 ≤ (encode c).length ∧ ∀ b ∈ encode c, 128 ≤ b.toNat := by
  have range : ¬c.val.toNat ≤ 0x7f := Nat.not_le.mpr high
  have value (n : Nat) : (UInt8.ofNat n).toBitVec.toNat = n % 256 := rfl
  unfold encode String.utf8EncodeChar
  dsimp only
  rw [if_neg range]
  split_ifs
  all_goals
    refine ⟨by simp, ?_⟩
    intro b listed
    simp only [List.map_cons, List.map_nil, List.mem_cons, List.not_mem_nil, or_false] at listed
  · rcases listed with rfl | rfl
    all_goals
      rw [value]
      omega
  · rcases listed with rfl | rfl | rfl
    all_goals
      rw [value]
      omega
  · rcases listed with rfl | rfl | rfl | rfl
    all_goals
      rw [value]
      omega

/-- No character begins another one. -/
theorem encode_prefix (same : encode c ++ x = encode d ++ y) : c = d := by
  have bytes (e : Char) (z : List Byte) : ((encode e ++ z).map UInt8.ofBitVec).toByteArray =
      (String.utf8EncodeChar e).toByteArray ++ (z.map UInt8.ofBitVec).toByteArray := by
    rw [List.map_append, List.toByteArray_append, encode, List.map_map]
    exact congrArg (fun l => List.toByteArray l ++ _) (List.map_id _)
  have first (e : Char) (z : List Byte) : ((encode e ++ z).map UInt8.ofBitVec).toByteArray.utf8DecodeChar? 0 = some e := by
    rw [bytes]
    exact ByteArray.utf8DecodeChar?_utf8EncodeChar_append
  have decoded := first c x
  rw [same, first d y] at decoded
  exact (Option.some.inj decoded).symm

end Encoding

section Texts

variable {c : Char} {cs ds : List Char} {s t part rest : List Byte}

theorem encoded_append (cs ds : List Char) : encoded (cs ++ ds) = encoded cs ++ encoded ds := List.flatMap_append

theorem WellFormed.append (first : WellFormed s) (second : WellFormed t) : WellFormed (s ++ t) := by
  obtain ⟨cs, rfl⟩ := first
  obtain ⟨ds, rfl⟩ := second
  exact ⟨cs ++ ds, (encoded_append cs ds).symm⟩

theorem wellFormed_encode (c : Char) : WellFormed (encode c) := ⟨[c], (List.append_nil _).symm⟩

/-- Bytes of the lower half are characters. -/
theorem wellFormed_low (low : ∀ b ∈ s, b.toNat < 128) : WellFormed s := by
  have letter : ∀ b : Byte, b.toNat < 128 → (Char.ofNat b.toNat).toNat < 128 ∧ chr (Char.ofNat b.toNat) = b := by decide
  induction s with
  | nil => exact ⟨[], rfl⟩
  | cons b s ih =>
      obtain ⟨small, same⟩ := letter b (low b List.mem_cons_self)
      have first : encode (Char.ofNat b.toNat) = [b] := by rw [encode_ascii small, same]
      have single : WellFormed [b] := first ▸ wellFormed_encode _
      exact single.append (ih fun c listed => low c (List.mem_cons_of_mem b listed))

/-- What follows characters in a well formed text is well formed. -/
theorem encoded_rest (whole : WellFormed (encoded cs ++ s)) : WellFormed s := by
  obtain ⟨ds, same⟩ := whole
  induction cs generalizing ds with
  | nil => exact ⟨ds, same⟩
  | cons c cs ih =>
      cases ds with
      | nil => exact absurd (List.append_eq_nil_iff.mp (List.append_eq_nil_iff.mp same).1).1 (encode_ne_nil c)
      | cons d ds =>
          have head : encode c ++ (encoded cs ++ s) = encode d ++ encoded ds := (List.append_assoc ..).symm.trans same
          obtain rfl := encode_prefix head
          exact ih ds (List.append_cancel_left head)

theorem wellFormed_behind : WellFormed (encode c ++ s) ↔ WellFormed s := by
  constructor
  · intro whole
    have single : WellFormed (encoded [c] ++ s) := by rwa [encoded, List.flatMap_singleton]
    exact encoded_rest single
  · exact (wellFormed_encode c).append

theorem encoded_injective (same : encoded cs = encoded ds) : cs = ds := by
  induction cs generalizing ds with
  | nil =>
      cases ds with
      | nil => rfl
      | cons d ds => exact absurd (List.append_eq_nil_iff.mp same.symm).1 (encode_ne_nil d)
  | cons c cs ih =>
      cases ds with
      | nil => exact absurd (List.append_eq_nil_iff.mp same).1 (encode_ne_nil c)
      | cons d ds =>
          have head : encode c ++ encoded cs = encode d ++ encoded ds := same
          obtain rfl := encode_prefix head
          rw [ih (List.append_cancel_left head)]

/-- A character that is cut off leaves no well formed text. -/
theorem cut_malformed (before : WellFormed s) (some_part : part ≠ []) (cut : part ++ rest = encode c) (some_rest : rest ≠ []) :
    ¬WellFormed (s ++ part) := by
  intro whole
  obtain ⟨cs, rfl⟩ := before
  obtain ⟨ds, same⟩ := encoded_rest whole
  cases ds with
  | nil => exact some_part same
  | cons d ds =>
      have head : encode d ++ (encoded ds ++ rest) = encode c ++ [] := by
        rw [List.append_nil, ← cut, same, ← List.append_assoc]
        rfl
      have long := congrArg List.length cut
      obtain rfl := encode_prefix head
      have short := congrArg List.length head
      have positive := List.length_pos_iff.mpr some_rest
      simp only [List.length_append, List.length_nil] at short
      omega

end Texts

end Utf8
