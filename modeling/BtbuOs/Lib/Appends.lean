import BtbuOs.Lib.Text

namespace Bytes

/-- A program on a buffer of a size puts a text behind the string there, and it fails when the text does not fit. -/
structure Appends (size : Nat) (program : Memory → Option Memory) (added : List Byte) : Prop where
  clean : 0 ∉ added
  runs : ∀ base str, 0 ∉ str → str.length < size → program (put base 0 (str ++ [0])) =
    if (str ++ added).length < size then some (put base 0 (str ++ added ++ [0])) else none

namespace Appends

variable {size : Nat} {program next : Memory → Option Memory} {added more : List Byte}

theorem nothing : Appends size some [] := by
  constructor
  · exact List.not_mem_nil
  · intro base str clean room
    rw [List.append_nil, if_pos room]

/-- One program after the other puts both texts there. -/
theorem bind (first : Appends size program added) (second : Appends size next more) :
    Appends size (fun buf => program buf >>= next) (added ++ more) := by
  constructor
  · rw [List.mem_append, not_or]
    exact ⟨first.clean, second.clean⟩
  · intro base str clean room
    change (program (put base 0 (str ++ [0]))).bind next = _
    rw [first.runs base str clean room, ← List.append_assoc]
    split
    · rename_i fits
      rw [Option.bind_some]
      have both : 0 ∉ str ++ added := by
        rw [List.mem_append, not_or]
        exact ⟨clean, first.clean⟩
      exact second.runs base (str ++ added) both fits
    · rename_i full
      have fuller : ¬(str ++ added ++ more).length < size := by
        rw [List.length_append]
        omega
      rw [Option.bind_none, if_neg fuller]

/-- The condition of a branch decides which text is put there. -/
theorem choose {condition : Prop} [Decidable condition] (first : condition → Appends size program added)
    (second : ¬condition → Appends size next more) :
    Appends size (fun buf => if condition then program buf else next buf) (if condition then added else more) := by
  by_cases holds : condition
  · simp only [if_pos holds]
    exact first holds
  · simp only [if_neg holds]
    exact second holds

/-- An emptied buffer takes every text that is shorter than it. -/
theorem emptied (appends : Appends size program added) (base : Memory) (positive : 0 < size) :
    program (put base 0 [0]) = if added.length < size then some (put base 0 (added ++ [0])) else none :=
  appends.runs base [] List.not_mem_nil positive

end Appends

end Bytes
