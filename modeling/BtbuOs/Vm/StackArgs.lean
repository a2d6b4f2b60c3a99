import BtbuOs.Vm.Argv

namespace BtbuOs.Vm

open Machine Partition
open Sync (Tid)
open Sched (Slot)

/-- Stores to consecutive bytes of one page. -/
def Bytes.store (b : Bytes) (page : Page) (offset : Nat) (src : List Byte) : Bytes :=
  Function.update b page (writeAt (b page) offset src)

/-- Strings stand below an address with their null bytes, each one below the one before it, at multiples of 16. -/
inductive Stacked (b : Bytes) (page : Page) (base : Nat) : Nat → Nat → List (List Byte) → List (BitVec 64) → Prop where
  | nil {top : Nat} : Stacked b page base top top [] []
  | cons {top last : Nat} {ptr : BitVec 64} {str : List Byte} {strs : List (List Byte)} {ptrs : List (BitVec 64)}
      (low : base ≤ ptr.toNat) (aligned : ptr.toNat % 16 = 0) (room : ptr.toNat + str.length + 1 ≤ top)
      (holds : Holds (b page) (ptr.toNat - base) (str ++ [0])) (rest : Stacked b page base ptr.toNat last strs ptrs) :
      Stacked b page base top last (str :: strs) (ptr :: ptrs)

variable {l : Layout} {k loaded : Kernel} {s : Slot} {t : Tid} {length : BitVec 32} {count : Nat} {m : Memory} {root page : Page} {b after : Bytes} {va base top last : Nat} {src bytes str : List Byte}
  {strs : List (List Byte)} {ptrs : List (BitVec 64)} {sp spb ptr : BitVec 64} {strpool : Nat → Byte}

theorem writeAt_nil (mem : Nat → Byte) (start : Nat) : writeAt mem start [] = mem := by
  funext a
  simp [writeAt]

/-- The first byte is stored before the others. -/
theorem writeAt_cons (mem : Nat → Byte) (start : Nat) (value : Byte) (rest : List Byte) :
    writeAt mem start (value :: rest) = writeAt (Function.update mem start value) (start + 1) rest := by
  funext a
  by_cases here : a = start
  · subst here
    rw [writeAt_outside _ (.inl (Nat.lt_succ_self a)), Function.update_self, writeAt, if_pos (Nat.le_refl a), Nat.sub_self]
    rfl
  · by_cases low : a < start
    · rw [writeAt_outside _ (.inl low), writeAt_outside _ (.inl (by omega)), Function.update_of_ne here]
    · obtain ⟨i, rfl⟩ : ∃ i, a = start + 1 + i := ⟨a - (start + 1), by omega⟩
      have back : start + 1 + i - start = i + 1 := by omega
      rw [writeAt, writeAt, if_pos (by omega), if_pos (by omega), back, Nat.add_sub_cancel_left, List.getElem?_cons_succ,
        Function.update_of_ne here]

/-- Moved bytes are stores to one page. -/
theorem moveOut_store (src : List Byte) (ram : Ram) (inside : va % 4096 + src.length ≤ 4096) :
    (moveOut page va src ram).byte = Bytes.store ram.byte page (va % 4096) src := by
  induction src generalizing va ram with
  | nil =>
      rw [Bytes.store, writeAt_nil, Function.update_eq_self]
      rfl
  | cons value rest ih =>
      rw [List.length_cons] at inside
      have first : Bytes.store ram.byte page (va % 4096) (value :: rest) =
          Bytes.store (ram.store page va value).byte page (va % 4096 + 1) rest := by
        simp only [Bytes.store, writeAt_cons, Ram.store, Function.update_self, Function.update_idem]
      rw [first, moveOut]
      cases rest with
      | nil =>
          rw [Bytes.store, writeAt_nil, Function.update_eq_self]
          rfl
      | cons next tail =>
          rw [List.length_cons] at inside
          have same : (va + 1) % 4096 = va % 4096 + 1 := by omega
          rw [ih _ (by rw [List.length_cons]; omega), same]

/-- A copy to one page of the user. -/
theorem copyout_page (mapped : userTarget m root sp.toNat = some page) (inside : sp.toNat % 4096 + src.length ≤ 4096) :
    ∃ ram, copyout m root sp src { byte := b, log := [] } = .ok (true, ram) ∧
      ram.byte = Bytes.store b page (sp.toNat % 4096) src := by
  have moved := outBytes_page { byte := b, log := [] } src [] mapped inside
  rw [List.append_nil] at moved
  refine ⟨_, ?_, moveOut_store src { byte := b, log := [] } inside⟩
  rw [copyout_bytes, moved]
  rfl

/-- A copy that is not empty needs a page. -/
theorem copyout_mapped {ram last : Ram} (something : src ≠ []) (copied : copyout m root sp src ram = .ok (true, last)) :
    ∃ page, userTarget m root sp.toNat = some page := by
  cases src with
  | nil => exact absurd rfl something
  | cons value rest =>
      rw [copyout_bytes, outBytes] at copied
      cases mapped : userTarget m root sp.toNat with
      | none => simp [mapped] at copied
      | some page => exact ⟨page, rfl⟩

/-- All addresses of the stack are on its page. -/
theorem stack_page (m : Memory) (root : Page) {va base : Nat} (start : base % 4096 = 0) (low : base ≤ va) (high : va < base + 4096) :
    userTarget m root va = userTarget m root base ∧ va % 4096 = va - base :=
  ⟨userTarget_page (by omega), by omega⟩

/-- The next address that leaves room is a multiple of 16. -/
theorem below_toNat (sp : BitVec 64) (n : Nat) (room : n + 16 ≤ sp.toNat) : (below sp n).toNat = sp.toNat - n - (sp.toNat - n) % 16 := by
  have bound := sp.isLt
  have less : (BitVec.ofNat 64 n).toNat = n := by
    rw [BitVec.toNat_ofNat]
    exact Nat.mod_eq_of_lt (by omega)
  have first : (sp - BitVec.ofNat 64 n).toNat = sp.toNat - n := by
    rw [BitVec.toNat_sub_of_le (by rw [BitVec.le_def]; omega), less]
  have part : ((sp - BitVec.ofNat 64 n) % 16).toNat = (sp.toNat - n) % 16 := by
    rw [BitVec.toNat_umod, first]
    rfl
  rw [below, BitVec.toNat_sub_of_le, first, part]
  rw [BitVec.le_def, first, part]
  exact Nat.mod_le _ _

namespace Stacked

/-- The last string is the lowest one. -/
theorem bounds (stacked : Stacked b page base top last strs ptrs) :
    last ≤ top ∧ (base ≤ top → base ≤ last) ∧ ptrs.length = strs.length := by
  induction stacked with
  | nil => exact ⟨Nat.le_refl _, id, rfl⟩
  | cons low aligned room holds rest ih =>
      obtain ⟨order, above, length⟩ := ih
      exact ⟨by omega, fun _ => above low, by rw [List.length_cons, List.length_cons, length]⟩

/-- Stores below the last string keep the strings. -/
theorem frame (stacked : Stacked b page base top last strs ptrs)
    (same : ∀ offset, last - base ≤ offset → after page offset = b page offset) :
    Stacked after page base top last strs ptrs := by
  induction stacked with
  | nil => exact .nil
  | cons low aligned room holds rest ih =>
      have order := rest.bounds.1
      refine .cons low aligned room (fun i inside => ?_) (ih same)
      rw [same _ (by omega), holds i inside]

/-- Every string stands between the last one and the top. -/
theorem get (stacked : Stacked b page base top last strs ptrs) (i : Nat) (inside : i < strs.length)
    (bound : i < ptrs.length) : last ≤ ptrs[i].toNat ∧ base ≤ ptrs[i].toNat ∧ ptrs[i].toNat + strs[i].length + 1 ≤ top ∧
      Holds (b page) (ptrs[i].toNat - base) (strs[i] ++ [0]) := by
  induction stacked generalizing i with
  | nil => simp at inside
  | cons low aligned room holds rest ih =>
      cases i with
      | zero => exact ⟨rest.bounds.1, low, room, holds⟩
      | succ i =>
          obtain ⟨above, based, under, held⟩ := ih i (by simpa using inside) (by simpa using bound)
          simp only [List.getElem_cons_succ]
          exact ⟨above, based, by omega, held⟩

/-- A later string stands below an earlier one. -/
theorem ordered (stacked : Stacked b page base top last strs ptrs) {i j : Nat} (less : i < j) (inside : j < strs.length)
    (bound : j < ptrs.length) : ptrs[j].toNat + strs[j].length + 1 ≤ ptrs[i].toNat := by
  induction stacked generalizing i j with
  | nil => simp at inside
  | cons low aligned room holds rest ih =>
      obtain ⟨n, rfl⟩ : ∃ n, j = n + 1 := ⟨j - 1, by omega⟩
      rw [List.length_cons] at inside bound
      simp only [List.getElem_cons_succ]
      cases i with
      | zero => exact (rest.get n (by omega) (by omega)).2.2.1
      | succ i => exact ih (by omega) (by omega) (by omega)

end Stacked

/-- What the loop of `push_argv` does when it gets to its end: it has left the strings on the page of the stack. -/
theorem pushStrings_stacked {argc : Nat} {result : Option (BitVec 64 × List (BitVec 64) × Bytes)}
    (rows : Rows strpool argc strs) (clean : ∀ str ∈ strs, 0 ∉ str) (short : ∀ str ∈ strs, str.length < maxStrLen)
    (few : argc + strs.length ≤ maxArgNum) (start : spb.toNat % 4096 = 0) (high : 8192 ≤ spb.toNat)
    (low : spb.toNat ≤ sp.toNat) (room : sp.toNat ≤ spb.toNat + 4096)
    (done : pushStrings m root spb strpool strs.length argc sp b = .ok result) :
    ∃ last ptrs after, result = some (last, ptrs, after) ∧ spb.toNat ≤ last.toNat ∧ last.toNat ≤ sp.toNat ∧
      ∀ page, userTarget m root spb.toNat = some page →
        Stacked after page spb.toNat sp.toNat last.toNat strs ptrs ∧
          ∀ offset, sp.toNat - spb.toNat ≤ offset → after page offset = b page offset := by
  induction strs generalizing argc sp b result with
  | nil =>
      simp only [List.length_nil, pushStrings, Except.ok.injEq] at done
      subst done
      exact ⟨sp, [], b, rfl, low, Nat.le_refl _, fun page _ => ⟨.nil, fun _ _ => rfl⟩⟩
  | cons str rest ih =>
      rw [List.length_cons] at few done
      have small := short str List.mem_cons_self
      have first := rows 0 (by rw [List.length_cons]; omega)
      simp only [Nat.add_zero, List.getElem_cons_zero] at first
      have found : cstring strpool (maxStrLen * maxArgNum - maxStrLen * argc) (maxStrLen * argc) = some str := by
        apply first.cstring (clean str List.mem_cons_self)
        simp only [maxStrLen, maxArgNum] at small few ⊢
        omega
      rw [pushStrings, if_neg (by omega), found] at done
      simp only at done
      simp only [maxStrLen] at small
      have place := below_toNat sp (str.length + 1) (by omega)
      split at done
      · simp at done
      · rename_i enough
        rw [BitVec.lt_def] at enough
        obtain ⟨⟨copied, ram⟩, copying, more⟩ := bind_ok.mp done
        simp only at more
        split at more
        · simp at more
        · rename_i success
          obtain rfl : copied = true := by simpa using success
          obtain ⟨next, pushing, final⟩ := bind_ok.mp more
          generalize pointer : below sp (str.length + 1) = ptr at place enough copying pushing final
          have above : spb.toNat ≤ ptr.toNat := by omega
          obtain ⟨same, offset⟩ := stack_page m root start above (by omega)
          have later : Rows strpool (argc + 1) rest := by
            intro j inside
            have row := rows (j + 1) (by rw [List.length_cons]; omega)
            rwa [show argc + (j + 1) = argc + 1 + j by omega] at row
          obtain ⟨last, ptrs, after, rfl, lowLast, under, stacked⟩ := ih later
            (fun other listed => clean other (List.mem_cons_of_mem str listed))
            (fun other listed => short other (List.mem_cons_of_mem str listed)) (by omega) (by omega) (by omega) pushing
          simp only [Option.map_some, pure, Except.pure, Except.ok.injEq] at final
          subst final
          refine ⟨last, ptr :: ptrs, after, rfl, lowLast, by omega, fun page mapped => ?_⟩
          obtain ⟨stackedRest, kept⟩ := stacked page mapped
          obtain ⟨_, copiedAgain, stored⟩ := copyout_page (b := b) (same.trans mapped)
            (show ptr.toNat % 4096 + (str ++ [0]).length ≤ 4096 by rw [List.length_append, List.length_singleton]; omega)
          obtain rfl := (Prod.mk.inj (Except.ok.inj (copying.symm.trans copiedAgain))).2
          have onPage : ram.byte page = writeAt (b page) (ptr.toNat - spb.toNat) (str ++ [0]) := by
            rw [stored, Bytes.store, Function.update_self, offset]
          refine ⟨.cons (by omega) (by omega) (by omega) (fun i inside => ?_) stackedRest, fun o above => ?_⟩
          · rw [kept _ (by omega), onPage, writeAt_inside _ inside]
          · rw [kept o (by omega), onPage,
              writeAt_outside _ (.inr (by rw [List.length_append, List.length_singleton]; omega))]

/-- Stored bytes on the page of the stack are read by the user. -/
theorem Holds.reads {va base : Nat} (holds : Holds (b page) (va - base) bytes) (start : base % 4096 = 0)
    (mapped : userTarget m root base = some page) (low : base ≤ va) (high : va + bytes.length ≤ base + 4096) :
    ReadsAt m root b va bytes := by
  intro i inside
  have above : base ≤ va + i := by omega
  obtain ⟨same, offset⟩ := stack_page m root start above (by omega)
  refine ⟨page, same.trans mapped, ?_⟩
  rw [offset, show va + i - base = va - base + i by omega]
  exact holds i inside

theorem flatMap_wordBytes_length (words : List (BitVec 64)) : (words.flatMap wordBytes).length = 8 * words.length := by
  induction words with
  | nil => rfl
  | cons word rest ih =>
      rw [List.flatMap_cons, List.length_append, ih, wordBytes_length, List.length_cons]
      omega

/-- A program finds its arguments on its stack. -/
structure Argued (m : Memory) (root : Page) (b : Bytes) (base : Nat) (strs : List (List Byte)) (sp : BitVec 64)
    (ptrs : List (BitVec 64)) : Prop where
  aligned : sp.toNat % 16 = 0
  above : base ≤ sp.toNat
  length : ptrs.length = strs.length
  words : ReadsAt m root b sp.toNat ((ptrs ++ [0]).flatMap wordBytes)
  strings : ∀ i (inside : i < strs.length) (bound : i < ptrs.length), ReadsAt m root b ptrs[i].toNat (strs[i] ++ [0])
  placed : ∀ i (inside : i < strs.length) (bound : i < ptrs.length),
    sp.toNat + 8 * (strs.length + 1) ≤ ptrs[i].toNat ∧ ptrs[i].toNat + strs[i].length + 1 ≤ base + 4096
  apart : ∀ i j, i < j → ∀ (inside : j < strs.length) (bound : j < ptrs.length) (earlier : i < ptrs.length),
    ptrs[j].toNat + strs[j].length + 1 ≤ ptrs[i].toNat

/-- What `push_argv` does when it returns. -/
theorem pushArgs_argued {result : Option (BitVec 64 × Bytes)} (rooted : (k.pool s).pagetable = some root)
    (rows : Rows strpool 0 strs) (clean : ∀ str ∈ strs, 0 ∉ str) (short : ∀ str ∈ strs, str.length < maxStrLen)
    (few : strs.length ≤ maxArgNum) (start : (stackBase (k.pool s)).toNat % 4096 = 0)
    (high : 8192 ≤ (stackBase (k.pool s)).toNat) (limit : (stackBase (k.pool s)).toNat + 4096 < 2 ^ 64)
    (done : pushArgs k s b strs.length strpool = .ok result) : ∃ sp after ptrs page, result = some (sp, after) ∧
      userTarget k.memory root (stackBase (k.pool s)).toNat = some page ∧
      Argued k.memory root after (stackBase (k.pool s)).toNat strs sp ptrs := by
  unfold pushArgs at done
  rw [rooted] at done
  obtain ⟨pushed, pushing, more⟩ := bind_ok.mp done
  generalize stackBase (k.pool s) = spb at *
  have top : (spb + 4096).toNat = spb.toNat + 4096 := by
    rw [BitVec.toNat_add]
    exact Nat.mod_eq_of_lt limit
  obtain ⟨last, ptrs, mid, rfl, lowLast, under, stacked⟩ := pushStrings_stacked rows clean short (by omega) start high
    (by omega) (by omega) pushing
  simp only at more
  have few : strs.length ≤ 32 := few
  have place := below_toNat last (8 * (strs.length + 1)) (by omega)
  split at more
  · simp at more
  · rename_i enough
    rw [BitVec.lt_def] at enough
    obtain ⟨⟨copied, ram⟩, copying, final⟩ := bind_ok.mp more
    cases copied with
    | false => simp at final
    | true =>
        simp only [if_true, pure, Except.pure, Except.ok.injEq] at final
        subst final
        generalize below last (8 * (strs.length + 1)) = sp at place enough copying
        have above : spb.toNat ≤ sp.toNat := by omega
        obtain ⟨same, offset⟩ := stack_page k.memory root start above (by omega)
        obtain ⟨page, mine⟩ := copyout_mapped (by simp [wordBytes]) copying
        have mapped : userTarget k.memory root spb.toNat = some page := same.symm.trans mine
        obtain ⟨strings, _⟩ := stacked page mapped
        obtain ⟨_, _, length⟩ := strings.bounds
        have size : ((ptrs ++ [0]).flatMap wordBytes).length = 8 * (strs.length + 1) := by
          rw [flatMap_wordBytes_length, List.length_append, length, List.length_singleton]
        obtain ⟨_, copiedAgain, stored⟩ := copyout_page (b := mid) mine
          (show sp.toNat % 4096 + ((ptrs ++ [0]).flatMap wordBytes).length ≤ 4096 by omega)
        obtain rfl := (Prod.mk.inj (Except.ok.inj (copying.symm.trans copiedAgain))).2
        have onPage : ram.byte page = writeAt (mid page) (sp.toNat - spb.toNat) ((ptrs ++ [0]).flatMap wordBytes) := by
          rw [stored, Bytes.store, Function.update_self, offset]
        have framed : Stacked ram.byte page spb.toNat (spb + 4096).toNat last.toNat strs ptrs := by
          apply strings.frame
          intro o above
          rw [onPage, writeAt_outside _ (.inr (by omega))]
        have words : Holds (ram.byte page) (sp.toNat - spb.toNat) ((ptrs ++ [0]).flatMap wordBytes) := by
          intro i inside
          rw [onPage, writeAt_inside _ inside]
        refine ⟨sp, ram.byte, ptrs, page, rfl, mapped, by omega, by omega, length, ?_, ?_, ?_, ?_⟩
        · exact words.reads start mapped (by omega) (by omega)
        · intro i inside bound
          obtain ⟨_, based, room, held⟩ := framed.get i inside bound
          exact held.reads start mapped based (by rw [List.length_append, List.length_singleton]; omega)
        · intro i inside bound
          obtain ⟨above, _, room, _⟩ := framed.get i inside bound
          omega
        · intro i j less inside bound _
          exact framed.ordered less inside bound

end BtbuOs.Vm
