import BtbuOs.Virtio.Driver
import Mathlib.Data.List.Nodup
import Mathlib.Data.List.Perm.Subperm

namespace BtbuOs.Virtio

open Machine

variable {d after : Disk} {i count : Nat} {idx more : List Nat}

/-- The descriptors of a list are taken. -/
def taken (d : Disk) (idx : List Nat) : Disk := { d with free := fun j => if j ∈ idx then false else d.free j }

/-- The descriptors of a list are cleared and free. -/
def released (d : Disk) (idx : List Nat) : Disk :=
  { d with desc := fun j => if j ∈ idx then .zero else d.desc j, free := fun j => if j ∈ idx then true else d.free j }

/-- Each descriptor of a chain leads to the next one, and the last one leads nowhere. -/
def Linked (d : Disk) : List Nat → Prop
  | [] => False
  | [i] => (d.desc i).flags &&& vringDescFNext = 0
  | i :: j :: rest => (d.desc i).flags &&& vringDescFNext ≠ 0 ∧ (d.desc i).next = j ∧ Linked d (j :: rest)

/-- The descriptors of a list are in use. -/
def Busy (d : Disk) (idx : List Nat) : Prop := ∀ i ∈ idx, i < num ∧ d.free i = false

@[simp] theorem taken_nil (d : Disk) : taken d [] = d := by
  simp [taken]

@[simp] theorem released_nil (d : Disk) : released d [] = d := by
  simp [released]

theorem taken_taken (d : Disk) (i : Nat) (more : List Nat) : taken (taken d [i]) more = taken d (i :: more) := by
  unfold taken
  congr 1
  funext j
  by_cases later : j ∈ more
  · simp [later]
  · simp [later]

/-- What is taken and given back is as before, but for the contents of the descriptors. -/
theorem released_taken (d : Disk) (idx more : List Nat) (inside : ∀ i ∈ more, i ∈ idx) : released (taken d more) idx = released d idx := by
  unfold released taken
  congr 1
  funext j
  by_cases member : j ∈ idx
  · simp [member]
  · have absent : j ∉ more := fun inner => member (inside j inner)
    simp [member, absent]

theorem released_cons (d : Disk) (i : Nat) (rest : List Nat) : released (released d [i]) rest = released d (i :: rest) := by
  unfold released
  congr 1
  all_goals
    funext j
    by_cases later : j ∈ rest
    · simp [later]
    · simp [later]

/-- The descriptor that is found is the first free one. -/
theorem allocDesc_some (found : allocDesc d = some (i, after)) : i < num ∧ d.free i = true ∧ after = taken d [i] := by
  obtain ⟨j, chosen, same⟩ := Option.map_eq_some_iff.mp found
  cases same
  refine ⟨List.mem_range.mp (List.mem_of_find?_eq_some chosen), List.find?_some chosen, ?_⟩
  unfold taken
  congr 1
  funext k
  by_cases own : k = i
  · simp [own]
  · simp [own]

theorem allocDesc_none (none : allocDesc d = none) (inside : i < num) : d.free i = false := by
  have all := List.find?_eq_none.mp (Option.map_eq_none_iff.mp none) i (List.mem_range.mpr inside)
  simpa using all

theorem freeDesc_busy (inside : i < num) (busy : d.free i = false) : freeDesc d i = .ok (released d [i]) := by
  rw [freeDesc, if_neg (Nat.not_le.mpr inside), busy]
  simp only [Bool.false_eq_true, if_false, Except.ok.injEq]
  unfold released
  congr 1
  all_goals
    funext j
    by_cases own : j = i
    · simp [own]
    · simp [own]

theorem Busy.released (busy : Busy d (i :: idx)) (fresh : i ∉ idx) : Busy (released d [i]) idx := by
  intro j member
  have apart : j ≠ i := fun same => fresh (same ▸ member)
  obtain ⟨inside, used⟩ := busy j (List.mem_cons_of_mem i member)
  exact ⟨inside, by simp [Virtio.released, apart, used]⟩

/-- The descriptors that were found so far are given back. -/
theorem foldlM_freeDesc (busy : Busy d idx) (apart : idx.Nodup) : idx.foldlM freeDesc d = .ok (released d idx) := by
  induction idx generalizing d with
  | nil => rw [released_nil]; rfl
  | cons i rest ih =>
      obtain ⟨fresh, others⟩ := List.nodup_cons.mp apart
      obtain ⟨inside, used⟩ := busy i (List.mem_cons_self ..)
      rw [List.foldlM_cons, freeDesc_busy inside used]
      have done := ih (busy.released fresh) others
      rw [released_cons] at done
      exact done

/-- The three descriptors are found, or all that are free are too few and stay free. -/
theorem allocDescs_outcome (count : Nat) (d : Disk) (idx : List Nat) (busy : Busy d idx) (apart : idx.Nodup) :
    ∃ more, (idx ++ more).Nodup ∧ (∀ i ∈ more, i < num ∧ d.free i = true) ∧
      ((more.length = count ∧ allocDescs count idx d = .ok (some (idx ++ more), taken d more)) ∨
        (more.length < count ∧ (∀ i < num, d.free i = true → i ∈ more) ∧ allocDescs count idx d = .ok (none, released d (idx ++ more)))) := by
  induction count generalizing d idx with
  | zero =>
      refine ⟨[], by rwa [List.append_nil], by simp, .inl ⟨rfl, ?_⟩⟩
      rw [allocDescs, List.append_nil, taken_nil]
  | succ count ih =>
      rw [allocDescs]
      cases found : allocDesc d with
      | none =>
          refine ⟨[], by rwa [List.append_nil], by simp, .inr ⟨Nat.succ_pos count, ?_, ?_⟩⟩
          · intro i inside free
            rw [allocDesc_none found inside] at free
            cases free
          · rw [List.append_nil]
            simp only [foldlM_freeDesc busy apart]
            rfl
      | some pair =>
          obtain ⟨i, mid⟩ := pair
          obtain ⟨inside, free, rfl⟩ := allocDesc_some found
          have fresh : i ∉ idx := by
            intro member
            rw [(busy i member).2] at free
            cases free
          have busier : Busy (taken d [i]) (idx ++ [i]) := by
            intro j member
            rcases List.mem_append.mp member with old | new
            · have apart : j ≠ i := fun same => fresh (same ▸ old)
              exact ⟨(busy j old).1, by simp [taken, apart, (busy j old).2]⟩
            · cases List.mem_singleton.mp new
              exact ⟨inside, by simp [taken]⟩
          have larger : (idx ++ [i]).Nodup := by
            rw [← List.concat_eq_append]
            exact apart.concat fresh
          obtain ⟨more, distinct, vacant, outcome⟩ := ih (taken d [i]) (idx ++ [i]) busier larger
          rw [List.append_assoc, List.singleton_append] at distinct outcome
          have absent : i ∉ more := (List.nodup_cons.mp (List.nodup_append.mp distinct).2.1).1
          refine ⟨i :: more, distinct, ?_, ?_⟩
          · intro j member
            rcases List.mem_cons.mp member with rfl | later
            · exact ⟨inside, free⟩
            · obtain ⟨below, open'⟩ := vacant j later
              have apart : j ≠ i := fun same => absent (same ▸ later)
              exact ⟨below, by simpa [taken, apart] using open'⟩
          · rcases outcome with ⟨length, result⟩ | ⟨length, complete, result⟩
            · refine .inl ⟨by rw [List.length_cons, length], ?_⟩
              rw [taken_taken] at result
              exact result
            · refine .inr ⟨by rw [List.length_cons]; omega, ?_, ?_⟩
              · intro j below open'
                by_cases own : j = i
                · rw [own]
                  exact List.mem_cons_self ..
                · exact List.mem_cons_of_mem i (complete j below (by simpa [taken, own] using open'))
              · rw [released_taken d (idx ++ i :: more) [i] (by simp)] at result
                exact result

/-- A call gets three descriptors when there are three free ones, and otherwise the free ones stay free. -/
theorem alloc3Desc_outcome (d : Disk) : ∃ more, more.Nodup ∧ (∀ i ∈ more, i < num ∧ d.free i = true) ∧
    ((more.length = 3 ∧ alloc3Desc d = .ok (some more, taken d more)) ∨
      (more.length < 3 ∧ (∀ i < num, d.free i = true → i ∈ more) ∧ alloc3Desc d = .ok (none, released d more))) :=
  allocDescs_outcome 3 d [] (by simp [Busy]) List.nodup_nil

theorem Linked.released (linked : Linked d idx) (fresh : i ∉ idx) : Linked (released d [i]) idx := by
  induction idx with
  | nil => exact linked
  | cons j rest ih =>
      have own : j ≠ i := fun same => fresh (same ▸ List.mem_cons_self ..)
      have same : (Virtio.released d [i]).desc j = d.desc j := by simp [Virtio.released, own]
      cases rest with
      | nil => rw [Linked, same]; exact linked
      | cons k rest =>
          obtain ⟨flag, next, later⟩ := linked
          rw [Linked, same]
          exact ⟨flag, next, ih later (fun member => fresh (List.mem_cons_of_mem j member))⟩

/-- A chain of descriptors that are in use is given back as a whole. -/
theorem freeChain_linked {rounds : Nat} (linked : Linked d (i :: idx)) (busy : Busy d (i :: idx)) (apart : (i :: idx).Nodup)
    (enough : idx.length < rounds) : freeChain rounds d i = .ok (released d (i :: idx)) := by
  induction idx generalizing d i rounds with
  | nil =>
      obtain ⟨rounds, rfl⟩ := Nat.exists_eq_add_one_of_ne_zero (Nat.ne_of_gt enough)
      obtain ⟨inside, used⟩ := busy i (List.mem_cons_self ..)
      simp only [freeChain, freeDesc_busy inside used]
      have last : ¬(d.desc i).flags &&& vringDescFNext ≠ 0 := not_not.mpr linked
      simp only [bind, Except.bind, if_neg last]
      rfl
  | cons j rest ih =>
      obtain ⟨rounds, rfl⟩ := Nat.exists_eq_add_one_of_ne_zero (by omega : rounds ≠ 0)
      obtain ⟨inside, used⟩ := busy i (List.mem_cons_self ..)
      obtain ⟨flag, next, later⟩ := linked
      obtain ⟨fresh, others⟩ := List.nodup_cons.mp apart
      have rest := ih (later.released fresh) (busy.released fresh) others (by rw [List.length_cons] at enough; omega : rest.length < rounds)
      rw [released_cons] at rest
      simp only [freeChain, freeDesc_busy inside used, bind, Except.bind, if_pos flag, next]
      exact rest

end BtbuOs.Virtio
