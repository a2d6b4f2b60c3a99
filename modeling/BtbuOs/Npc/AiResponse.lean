import BtbuOs.Lib.Cursor
import BtbuOs.Lib.Decimal
import BtbuOs.Net.IpText

namespace BtbuOs.Npc

open Bytes
open Net (putAt)

def toLower (c : Byte) : Byte := if chr 'A' ≤ c ∧ c ≤ chr 'Z' then c + (chr 'a' - chr 'A') else c

/-- The inner loop of `str_find_i` on readable bytes. A read behind them has no defined result. -/
def startsI : List Byte → List Byte → Option Bool
  | [], _ => none
  | _ :: _, [] => some true
  | h :: haystack, n :: needle => if h = 0 then some false else if toLower h = toLower n then startsI haystack needle else some false

/-- The result is the rest of the haystack from the needle on. -/
def strFindI (haystack needle : List Byte) : Option (Option (List Byte)) :=
  match haystack with
  | [] => none
  | h :: rest =>
      if needle = [] then some (some (h :: rest))
      else if h = 0 then some none
      else (startsI (h :: rest) needle).bind fun found => if found then some (some (h :: rest)) else strFindI rest needle

/-- The tests of the bytes at a pointer, which end with the first one that fails. -/
def beginsI : List Byte → List Byte → Option Bool
  | _, [] => some true
  | [], _ :: _ => none
  | c :: p, n :: word => if toLower c = n then beginsI p word else some false

/-- The target behind `[to ` and the pointer behind it. -/
def readTarget (p : List Byte) : Option (Int × List Byte) := do
  let isNone ← beginsI p (ascii "none")
  if isNone then some (-1, p.drop 5)
  else
    let isNpc ← beginsI p (ascii "npc")
    if isNpc then
      let (target, p) ← Cursor.scan Decimal.isDigit (Decimal.wrapped 32) 0 (p.drop 3)
      let c ← p.head?
      some (target, if c = chr ']' then p.tail else p)
    else some (0, p)

/-- The loops that copy to an array up to a place where they stop. -/
def copyUntil (stops : List Byte → Option Bool) (maxlen : Nat) (dst : Memory) (i : Nat) (p : List Byte) : Option (Memory × Nat) :=
  match p with
  | [] => none
  | c :: p =>
      if c = 0 ∨ ¬(i : Int) < maxlen - 1 then some (dst, i)
      else (stops (c :: p)).bind fun stop =>
        if stop then some (dst, i) else (putAt maxlen dst i [c]).bind fun dst => copyUntil stops maxlen dst (i + 1) p

/-- A message ends at a bracket in front of the letter of a tag. -/
def messageStops : List Byte → Option Bool
  | c :: p => if c = chr '[' then p.head?.map fun d => toLower d = chr 'm' ∨ toLower d = chr 't' else some false
  | [] => none

/-- A memory ends at a bracket. -/
def memoryStops (p : List Byte) : Option Bool := p.head?.map fun c => c = chr '['

/-- The loops that drop what is blank at the end. -/
def trimmed (buf : Memory) : Nat → Nat
  | 0 => 0
  | i + 1 => if buf i = chr ' ' ∨ buf i = chr '\n' then trimmed buf i else i + 1

def copyTrimmed (stops : List Byte → Option Bool) (maxlen : Nat) (dst : Memory) (p : List Byte) : Option Memory := do
  let (dst, i) ← copyUntil stops maxlen dst 0 p
  putAt maxlen dst (trimmed dst i) [0]

/-- The part of `parse_ai_response` for the target and the message. -/
def parseMessage (response : List Byte) (message : Memory) (msgMaxlen : Nat) : Option (Int × Memory) := do
  let found ← strFindI response (ascii "[to ")
  match found with
  | none => some (0, message)
  | some p =>
      let (target, p) ← readTarget (p.drop 4)
      let p ← Cursor.skip (fun c => c = chr ':' ∨ c = chr ' ') p
      let message ← copyTrimmed messageStops msgMaxlen message p
      some (target, message)

/-- The part of `parse_ai_response` for the memory, whose tag may end with a blank in place of a colon. -/
def parseMemory (response : List Byte) (memory : Memory) (memMaxlen : Nat) : Option Memory := do
  let first ← strFindI response (ascii "[memory]:")
  let found ← if first = none then strFindI response (ascii "[memory] ") else some first
  match found with
  | none => some memory
  | some p =>
      let p ← Cursor.skip (fun c => c = chr ' ') (p.drop 9)
      copyTrimmed memoryStops memMaxlen memory p

def parseAiResponse (response : List Byte) (message : Memory) (msgMaxlen : Nat) (memory : Memory) (memMaxlen : Nat) :
    Option (Int × Memory × Memory) := do
  let message ← putAt msgMaxlen message 0 [0]
  let memory ← putAt memMaxlen memory 0 [0]
  let (target, message) ← parseMessage response message msgMaxlen
  let memory ← parseMemory response memory memMaxlen
  some (target, message, memory)

/-- The first rest of a string that begins with a word without regard to case. -/
def findI (word s : List Byte) : Option (List Byte) := s.tails.find? fun t => (word.map toLower).isPrefixOf (t.map toLower)

/-- The string ends with the four letters behind its first `[to `. -/
def CutOff (s : List Byte) : Prop := ∃ p, findI (ascii "[to ") s = some p ∧ (p.drop 4).map toLower = ascii "none"

/-- A text that no part of the format ends or hides. -/
structure Plain (s : List Byte) : Prop where
  bracket : chr '[' ∉ s
  first : s.head? ≠ some (chr ':') ∧ s.head? ≠ some (chr ' ')
  last : s.getLast? ≠ some (chr ' ') ∧ s.getLast? ≠ some (chr '\n')

/-- The parser stays inside of the response and of its arrays, and it finds what a response of the format holds. -/
structure Meets (response : Text) (msgMaxlen memMaxlen : Nat) : Prop where
  safe : ∀ message memory, ∃ target message' memory',
    parseAiResponse (response.bytes ++ [0]) message msgMaxlen memory memMaxlen = some (target, message', memory') ∧
      (∀ k, msgMaxlen ≤ k → message' k = message k) ∧ ∀ k, memMaxlen ≤ k → memory' k = memory k
  addressed : ∀ (k : Nat) (head tag m r : List Byte), 1 ≤ k → k < 2 ^ 31 → head.map toLower = ascii "[to npc" →
    tag.map toLower = ascii "[memory]:" → Plain m → Plain r → m.length < msgMaxlen → r.length < memMaxlen →
    response.bytes = head ++ Decimal.text k ++ ascii "]: " ++ m ++ ascii " " ++ tag ++ ascii " " ++ r →
    ∀ message memory, ∃ message' memory',
      parseAiResponse (response.bytes ++ [0]) message msgMaxlen memory memMaxlen = some ((k : Int), message', memory') ∧
        slice message' 0 (m.length + 1) = m ++ [0] ∧ slice memory' 0 (r.length + 1) = r ++ [0]
  silent : ∀ head rest : List Byte, head.map toLower = ascii "[to none]:" → response.bytes = head ++ rest →
    ∀ message memory, ∃ message' memory',
      parseAiResponse (response.bytes ++ [0]) message msgMaxlen memory memMaxlen = some (-1, message', memory')

section Searching

variable {s word p : List Byte} {c : Byte}

theorem toLower_eq_zero : toLower c = 0 ↔ c = 0 := by
  revert c
  decide

theorem toLower_bracket : toLower c = chr '[' ↔ c = chr '[' := by
  revert c
  decide

theorem startsI_ended (real : 0 ∉ s) : startsI (s ++ [0]) word = some ((word.map toLower).isPrefixOf (s.map toLower)) := by
  induction s generalizing word with
  | nil => cases word <;> rfl
  | cons h s ih =>
      rw [List.mem_cons, not_or] at real
      cases word with
      | nil => rfl
      | cons n word =>
          rw [List.cons_append, startsI, if_neg (Ne.symm real.1), List.map_cons, List.map_cons, List.isPrefixOf_cons_cons]
          by_cases same : toLower h = toLower n
          · rw [if_pos same, ih real.2, same, beq_self_eq_true, Bool.true_and]
          · rw [if_neg same, beq_false_of_ne (Ne.symm same), Bool.false_and]

/-- The search reads nothing behind the null byte and finds the first place. -/
theorem strFindI_ended (real : 0 ∉ s) (some_word : word ≠ []) : strFindI (s ++ [0]) word = some ((findI word s).map (· ++ [0])) := by
  induction s with
  | nil =>
      rw [List.nil_append, strFindI, if_neg some_word, if_pos rfl]
      cases word with
      | nil => exact absurd rfl some_word
      | cons n word => rfl
  | cons h s ih =>
      have first : startsI (h :: s ++ [0]) word = some ((word.map toLower).isPrefixOf ((h :: s).map toLower)) := startsI_ended real
      rw [List.mem_cons, not_or] at real
      rw [List.cons_append] at first ⊢
      rw [strFindI, if_neg some_word, if_neg (Ne.symm real.1), first, Option.bind_some, findI, List.tails_cons, List.find?_cons]
      cases (word.map toLower).isPrefixOf ((h :: s).map toLower) with
      | true => rfl
      | false => exact ih real.2

/-- What is found is a rest of the string that begins with the word. -/
theorem findI_some (found : findI word s = some p) : word.map toLower <+: p.map toLower ∧ p <:+ s := by
  have here := List.find?_some found
  have listed := List.mem_of_find?_eq_some found
  exact ⟨List.isPrefixOf_iff_prefix.mp here, (List.mem_tails ..).mp listed⟩

/-- A string that begins with the word is found whole. -/
theorem findI_here (begins : word.map toLower <+: s.map toLower) : findI word s = some s := by
  have first : (word.map toLower).isPrefixOf (s.map toLower) = true := List.isPrefixOf_iff_prefix.mpr begins
  cases s with
  | nil => exact List.find?_cons_of_pos first
  | cons h s => exact List.find?_cons_of_pos first

/-- The tests of a word end at the null byte. -/
theorem beginsI_ended (real : 0 ∉ word) : beginsI (s ++ [0]) word = some (word.isPrefixOf (s.map toLower)) := by
  induction s generalizing word with
  | nil =>
      cases word with
      | nil => rfl
      | cons n word =>
          have zero : toLower 0 ≠ n := fun same => real (List.mem_cons.mpr (Or.inl same))
          exact if_neg zero
  | cons h s ih =>
      cases word with
      | nil => rfl
      | cons n word =>
          rw [List.mem_cons, not_or] at real
          rw [List.cons_append, beginsI, List.map_cons, List.isPrefixOf_cons_cons]
          by_cases same : toLower h = n
          · rw [if_pos same, ih real.2, same, beq_self_eq_true, Bool.true_and]
          · rw [if_neg same, beq_false_of_ne (Ne.symm same), Bool.false_and]

end Searching

section Copying

variable {stops : List Byte → Option Bool} {maxlen i : Nat} {dst : Memory} {s t rest : List Byte}

/-- The loop ends on every string and writes nothing behind its array. -/
theorem copyUntil_total (total : ∀ c s, ∃ stop, stops (c :: (s ++ [0])) = some stop) (inside : i < maxlen) :
    ∃ t, i + t.length < maxlen ∧ copyUntil stops maxlen dst i (s ++ [0]) = some (put dst i t, i + t.length) := by
  induction s generalizing i dst with
  | nil => exact ⟨[], inside, by rw [List.nil_append, copyUntil, if_pos (Or.inl rfl)]; rfl⟩
  | cons c s ih =>
      obtain ⟨stop, tested⟩ := total c s
      rw [List.cons_append, copyUntil]
      by_cases ended : c = 0 ∨ ¬(i : Int) < maxlen - 1
      · exact ⟨[], inside, if_pos ended⟩
      · rw [if_neg ended, tested, Option.bind_some]
        cases stop with
        | true => exact ⟨[], inside, if_pos rfl⟩
        | false =>
            have room : i + 1 < maxlen := by omega
            obtain ⟨t, bound, copied⟩ : ∃ t, i + 1 + t.length < maxlen ∧
                copyUntil stops maxlen (put dst i [c]) (i + 1) (s ++ [0]) = some (put (put dst i [c]) (i + 1) t, i + 1 + t.length) :=
              ih room
            refine ⟨c :: t, by rw [List.length_cons]; omega, ?_⟩
            rw [if_neg Bool.false_ne_true, putAt, if_pos (by rw [List.length_singleton]; omega), Option.bind_some, copied,
              List.length_cons]
            exact congrArg (fun n => some (put dst i (c :: t), n)) (by omega)

/-- Bytes at which the loop does not stop are copied. -/
theorem copyUntil_passed (passed : ∀ c ∈ t, c ≠ 0 ∧ ∀ p, stops (c :: p) = some false) (room : i + t.length < maxlen) :
    copyUntil stops maxlen dst i (t ++ rest) = copyUntil stops maxlen (put dst i t) (i + t.length) rest := by
  induction t generalizing i dst with
  | nil => rfl
  | cons c t ih =>
      obtain ⟨real, plain⟩ := passed c List.mem_cons_self
      rw [List.length_cons] at room ⊢
      rw [List.cons_append, copyUntil, if_neg (by simp only [real, false_or, not_not]; omega), plain, Option.bind_some,
        if_neg Bool.false_ne_true, putAt, if_pos (by rw [List.length_singleton]; omega), Option.bind_some,
        ih (fun d listed => passed d (List.mem_cons_of_mem c listed)) (by omega), Nat.add_right_comm, Nat.add_assoc]
      rfl

theorem trimmed_le (buf : Memory) (i : Nat) : trimmed buf i ≤ i := by
  induction i with
  | zero => exact Nat.le_refl 0
  | succ i ih =>
      rw [trimmed]
      split
      · exact Nat.le_succ_of_le ih
      · exact Nat.le_refl _

/-- A string without a blank at its end is not trimmed. -/
theorem trimmed_string (holds : slice dst 0 t.length = t) (last : t.getLast? ≠ some (chr ' ') ∧ t.getLast? ≠ some (chr '\n')) :
    trimmed dst t.length = t.length := by
  rcases List.eq_nil_or_concat t with rfl | ⟨front, c, rfl⟩
  · rfl
  · rw [List.concat_eq_append] at holds last ⊢
    rw [List.length_append, List.length_singleton, slice_succ, Nat.zero_add] at holds
    have stored : dst front.length = c := List.singleton_inj.mp (List.append_inj_right' holds rfl)
    rw [List.getLast?_concat] at last
    rw [List.length_append, List.length_singleton, trimmed, stored, if_neg]
    rintro (space | newline)
    · exact last.1 (congrArg some space)
    · exact last.2 (congrArg some newline)

theorem slice_ended (holds : slice dst 0 t.length = t) : slice (put dst t.length [0]) 0 (t.length + 1) = t ++ [0] := by
  have kept : slice (put dst t.length [0]) 0 t.length = slice dst 0 t.length :=
    slice_congr fun k below => put_outside [0] (Or.inl (by omega))
  have last : put dst t.length [0] (0 + t.length) = 0 := by
    rw [Nat.zero_add]
    exact Function.update_self ..
  rw [slice_succ, kept, holds, last]

theorem messageStops_total (c : Byte) (s : List Byte) : ∃ stop, messageStops (c :: (s ++ [0])) = some stop := by
  rw [messageStops]
  split
  · cases s with
    | nil => exact ⟨_, rfl⟩
    | cons d s => exact ⟨_, rfl⟩
  · exact ⟨false, rfl⟩

/-- A copied string that needs no trimming ends behind its last byte. -/
theorem copyTrimmed_string {buf : Memory} {rest : List Byte} (copied : copyUntil stops maxlen dst 0 rest = some (buf, i))
    (holds : slice buf 0 t.length = t) (same : trimmed buf i = t.length) (room : t.length < maxlen) :
    ∃ after, copyTrimmed stops maxlen dst rest = some after ∧ slice after 0 (t.length + 1) = t ++ [0] := by
  refine ⟨put buf t.length [0], ?_, slice_ended holds⟩
  change (copyUntil stops maxlen dst 0 rest).bind _ = _
  rw [copied, Option.bind_some]
  change putAt maxlen buf (trimmed buf i) [0] = _
  rw [same]
  exact if_pos (by rw [List.length_singleton]; omega)

/-- A copy ends inside of its array on every string. -/
theorem copyTrimmed_total (total : ∀ c s, ∃ stop, stops (c :: (s ++ [0])) = some stop) (positive : 0 < maxlen) :
    ∃ after, copyTrimmed stops maxlen dst (s ++ [0]) = some after ∧ ∀ k, maxlen ≤ k → after k = dst k := by
  obtain ⟨t, bound, copied⟩ : ∃ t, 0 + t.length < maxlen ∧
      copyUntil stops maxlen dst 0 (s ++ [0]) = some (put dst 0 t, 0 + t.length) := copyUntil_total total positive
  rw [Nat.zero_add] at bound copied
  have short := trimmed_le (put dst 0 t) t.length
  refine ⟨put (put dst 0 t) (trimmed (put dst 0 t) t.length) [0], ?_, ?_⟩
  · change (copyUntil stops maxlen dst 0 (s ++ [0])).bind _ = _
    rw [copied, Option.bind_some]
    exact if_pos (by rw [List.length_singleton]; omega)
  · intro k outside
    rw [put_outside _ (Or.inr (by rw [List.length_singleton]; omega)), put_outside _ (Or.inr (by omega))]

/-- A memory is copied up to the null byte. -/
theorem copyMemory (plain : Plain t) (real : 0 ∉ t) (room : t.length < maxlen) :
    ∃ after, copyTrimmed memoryStops maxlen dst (t ++ [0]) = some after ∧ slice after 0 (t.length + 1) = t ++ [0] := by
  have passed : ∀ c ∈ t, c ≠ 0 ∧ ∀ p, memoryStops (c :: p) = some false := by
    intro c listed
    refine ⟨fun zero => real (zero ▸ listed), fun p => congrArg some (decide_eq_false fun same => plain.bracket (same ▸ listed))⟩
  have copied : copyUntil memoryStops maxlen dst 0 (t ++ [0]) = some (put dst 0 t, t.length) := by
    rw [copyUntil_passed passed (by omega), Nat.zero_add, copyUntil, if_pos (Or.inl rfl)]
  have holds : slice (put dst 0 t) 0 t.length = t := slice_put dst 0 t
  exact copyTrimmed_string copied holds (trimmed_string holds plain.last) room

/-- A message is copied up to the tag of the memory, with or without a blank between them. -/
theorem copyMessage {w : List Byte} {d : Byte} (plain : Plain t) (real : 0 ∉ t) (between : w = [] ∨ w = [chr ' '])
    (letter : toLower d = chr 'm') (room : t.length < maxlen) : ∃ after,
      copyTrimmed messageStops maxlen dst (t ++ (w ++ chr '[' :: d :: rest)) = some after ∧ slice after 0 (t.length + 1) = t ++ [0] := by
  have passed (c : Byte) (zero : c ≠ 0) (bracket : c ≠ chr '[') : c ≠ 0 ∧ ∀ p, messageStops (c :: p) = some false :=
    ⟨zero, fun p => if_neg bracket⟩
  have stop (buf : Memory) (i : Nat) : copyUntil messageStops maxlen buf i (chr '[' :: d :: rest) = some (buf, i) := by
    have tested : messageStops (chr '[' :: d :: rest) = some true := by simp [messageStops, letter]
    rw [copyUntil, tested, Option.bind_some, if_pos rfl]
    exact ite_self _
  have holds : slice (put dst 0 t) 0 t.length = t := slice_put dst 0 t
  have text : copyUntil messageStops maxlen dst 0 (t ++ (w ++ chr '[' :: d :: rest)) =
      copyUntil messageStops maxlen (put dst 0 t) t.length (w ++ chr '[' :: d :: rest) := by
    rw [copyUntil_passed (fun c listed => passed c (fun zero => real (zero ▸ listed)) fun same => plain.bracket (same ▸ listed))
      (by omega), Nat.zero_add]
  rcases between with rfl | rfl
  · exact copyTrimmed_string (text.trans (stop _ _)) holds (trimmed_string holds plain.last) room
  · by_cases full : t.length + 1 < maxlen
    · have blank : copyUntil messageStops maxlen dst 0 (t ++ ([chr ' '] ++ chr '[' :: d :: rest)) =
          some (put (put dst 0 t) t.length [chr ' '], t.length + 1) := by
        rw [text, copyUntil_passed (fun c listed => passed c (by rw [List.mem_singleton.mp listed]; decide)
          (by rw [List.mem_singleton.mp listed]; decide)) full]
        exact stop _ _
      have kept : slice (put (put dst 0 t) t.length [chr ' ']) 0 t.length = t := by
        rw [slice_congr fun k below => put_outside [chr ' '] (Or.inl (by omega)), holds]
      have last : put (put dst 0 t) t.length [chr ' '] t.length = chr ' ' := Function.update_self ..
      have same : trimmed (put (put dst 0 t) t.length [chr ' ']) (t.length + 1) = t.length := by
        rw [trimmed, if_pos (Or.inl last), trimmed_string kept plain.last]
      exact copyTrimmed_string blank kept same room
    · have ended : copyUntil messageStops maxlen dst 0 (t ++ ([chr ' '] ++ chr '[' :: d :: rest)) = some (put dst 0 t, t.length) := by
        rw [text, List.singleton_append, copyUntil, if_pos (Or.inr (by omega))]
      exact copyTrimmed_string ended holds (trimmed_string holds plain.last) room

end Copying

section Parsing

variable {s word rest : List Byte}

theorem map_toLower_clean (real : 0 ∉ s) : 0 ∉ s.map toLower := by
  intro listed
  obtain ⟨c, member, zero⟩ := List.mem_map.mp listed
  exact real (toLower_eq_zero.mp zero ▸ member)

/-- A target is read from a string that does not end with the letters of `none`. -/
theorem readTarget_total (some_end : s.map toLower ≠ ascii "none") :
    ∃ target q, readTarget (s ++ [0]) = some (target, q ++ [0]) ∧ q <:+ s := by
  have none_tested : beginsI (s ++ [0]) (ascii "none") = some ((ascii "none").isPrefixOf (s.map toLower)) := beginsI_ended (by decide)
  have npc_tested : beginsI (s ++ [0]) (ascii "npc") = some ((ascii "npc").isPrefixOf (s.map toLower)) := beginsI_ended (by decide)
  unfold readTarget
  simp only [none_tested, npc_tested, bind, Option.bind_some]
  by_cases silent : (ascii "none").isPrefixOf (s.map toLower) = true
  · have begins := List.isPrefixOf_iff_prefix.mp silent
    have long : 5 ≤ s.length := by
      have least := begins.length_le
      rw [List.length_map] at least
      by_contra short
      have same : (ascii "none").length = (s.map toLower).length := by
        rw [List.length_map]
        change 4 ≤ s.length at least
        change 4 = s.length
        omega
      exact some_end (begins.eq_of_length same).symm
    rw [if_pos silent, List.drop_append_of_le_length long]
    exact ⟨-1, s.drop 5, rfl, List.drop_suffix 5 s⟩
  · rw [if_neg silent]
    by_cases named : (ascii "npc").isPrefixOf (s.map toLower) = true
    · have long : 3 ≤ s.length := by
        have least := (List.isPrefixOf_iff_prefix.mp named).length_le
        rwa [List.length_map] at least
      have read : Cursor.scan Decimal.isDigit (Decimal.wrapped 32) 0 (s.drop 3 ++ [0]) =
          some (((s.drop 3).takeWhile Decimal.isDigit).foldl (Decimal.wrapped 32) 0, (s.drop 3).dropWhile Decimal.isDigit ++ [0]) :=
        Cursor.scan_stop 0 (by decide)
      have suffix : (s.drop 3).dropWhile Decimal.isDigit <:+ s := (List.dropWhile_suffix _).trans (List.drop_suffix 3 s)
      rw [if_pos named, List.drop_append_of_le_length long, read, Option.bind_some]
      dsimp only
      cases left : (s.drop 3).dropWhile Decimal.isDigit with
      | nil => exact ⟨_, [], rfl, List.nil_suffix⟩
      | cons c q =>
          rw [left] at suffix
          rw [List.cons_append, List.head?_cons, Option.bind_some, List.tail_cons]
          by_cases closed : c = chr ']'
          · rw [if_pos closed]
            exact ⟨_, q, rfl, (List.suffix_cons c q).trans suffix⟩
          · rw [if_neg closed]
            exact ⟨_, c :: q, rfl, suffix⟩
    · rw [if_neg named]
      exact ⟨0, s, rfl, List.suffix_refl s⟩

/-- The message part ends on every string that is not cut off. -/
theorem parseMessage_total {message : Memory} {msgMaxlen : Nat} (real : 0 ∉ s) (positive : 0 < msgMaxlen) (whole : ¬CutOff s) :
    ∃ target after, parseMessage (s ++ [0]) message msgMaxlen = some (target, after) ∧ ∀ k, msgMaxlen ≤ k → after k = message k := by
  unfold parseMessage
  rw [strFindI_ended real (by decide)]
  simp only [bind, Option.bind_some]
  cases found : findI (ascii "[to ") s with
  | none => exact ⟨0, message, rfl, fun k outside => rfl⟩
  | some p =>
      obtain ⟨begins, suffix⟩ := findI_some found
      have long : 4 ≤ p.length := by
        have least := begins.length_le
        rwa [List.length_map, List.length_map] at least
      have some_end : (p.drop 4).map toLower ≠ ascii "none" := fun same => whole ⟨p, found, same⟩
      obtain ⟨target, q, read, -⟩ := readTarget_total some_end
      have skipped : Cursor.skip (fun c => c = chr ':' ∨ c = chr ' ') (q ++ [0]) =
          some (q.dropWhile (fun c => c = chr ':' ∨ c = chr ' ') ++ [0]) := Cursor.skip_stop (by decide)
      obtain ⟨after, copied, frame⟩ : ∃ after, copyTrimmed messageStops msgMaxlen message
          (q.dropWhile (fun c => c = chr ':' ∨ c = chr ' ') ++ [0]) = some after ∧ ∀ k, msgMaxlen ≤ k → after k = message k :=
        copyTrimmed_total messageStops_total positive
      refine ⟨target, after, ?_, frame⟩
      rw [Option.map_some]
      dsimp only
      rw [List.drop_append_of_le_length long, read, Option.bind_some]
      dsimp only
      rw [skipped, Option.bind_some, copied, Option.bind_some]

/-- The memory part ends on every string. -/
theorem parseMemory_total {memory : Memory} {memMaxlen : Nat} (real : 0 ∉ s) (positive : 0 < memMaxlen) :
    ∃ after, parseMemory (s ++ [0]) memory memMaxlen = some after ∧ ∀ k, memMaxlen ≤ k → after k = memory k := by
  have copies (tag : List Byte) (p : List Byte) (found : findI tag s = some p) (length : tag.length = 9) :
      ∃ after, ((Cursor.skip (fun c => c = chr ' ') ((p ++ [0]).drop 9)).bind fun p => copyTrimmed memoryStops memMaxlen memory p) =
        some after ∧ ∀ k, memMaxlen ≤ k → after k = memory k := by
    have long : 9 ≤ p.length := by
      have least := (findI_some found).1.length_le
      rwa [List.length_map, List.length_map, length] at least
    have skipped : Cursor.skip (fun c => c = chr ' ') (p.drop 9 ++ [0]) =
        some ((p.drop 9).dropWhile (fun c => c = chr ' ') ++ [0]) := Cursor.skip_stop (by decide)
    rw [List.drop_append_of_le_length long, skipped, Option.bind_some]
    exact copyTrimmed_total (fun c s => ⟨_, rfl⟩) positive
  unfold parseMemory
  rw [strFindI_ended real (by decide)]
  simp only [bind, Option.bind_some]
  cases found : findI (ascii "[memory]:") s with
  | some p => exact copies _ p found rfl
  | none =>
      rw [strFindI_ended real (by decide)]
      cases second : findI (ascii "[memory] ") s with
      | none => exact ⟨memory, rfl, fun k outside => rfl⟩
      | some p => exact copies _ p second rfl

/-- The parser ends on every string that is not cut off, and stays inside of its arrays. -/
theorem parseAiResponse_total {msgMaxlen memMaxlen : Nat} (real : 0 ∉ s) (first : 0 < msgMaxlen) (second : 0 < memMaxlen)
    (whole : ¬CutOff s) (message memory : Memory) : ∃ target message' memory',
      parseAiResponse (s ++ [0]) message msgMaxlen memory memMaxlen = some (target, message', memory') ∧
        (∀ k, msgMaxlen ≤ k → message' k = message k) ∧ ∀ k, memMaxlen ≤ k → memory' k = memory k := by
  obtain ⟨target, message', parsed, frame⟩ : ∃ target after,
      parseMessage (s ++ [0]) (put message 0 [0]) msgMaxlen = some (target, after) ∧ ∀ k, msgMaxlen ≤ k → after k = put message 0 [0] k :=
    parseMessage_total real first whole
  obtain ⟨memory', kept, still⟩ : ∃ after, parseMemory (s ++ [0]) (put memory 0 [0]) memMaxlen = some after ∧
      ∀ k, memMaxlen ≤ k → after k = put memory 0 [0] k := parseMemory_total real second
  have behind (mem : Memory) {k : Nat} (positive : 1 ≤ k) : put mem 0 [0] k = mem k := put_outside [0] (Or.inr (by simpa using positive))
  refine ⟨target, message', memory', ?_, fun k outside => (frame k outside).trans (behind message (by omega)),
    fun k outside => (still k outside).trans (behind memory (by omega))⟩
  unfold parseAiResponse
  rw [putAt, if_pos (by rw [List.length_singleton]; omega), putAt, if_pos (by rw [List.length_singleton]; omega)]
  simp only [bind, Option.bind_some, parsed, kept]

/-- On a string that is cut off, the pointer passes the null byte and is read there. -/
theorem parseAiResponse_cut {msgMaxlen memMaxlen : Nat} (real : 0 ∉ s) (first : 0 < msgMaxlen) (second : 0 < memMaxlen)
    (cut : CutOff s) (message memory : Memory) : parseAiResponse (s ++ [0]) message msgMaxlen memory memMaxlen = none := by
  obtain ⟨p, found, letters⟩ := cut
  have long : 4 ≤ p.length := by
    have least := (findI_some found).1.length_le
    rwa [List.length_map, List.length_map] at least
  have tested : beginsI (p.drop 4 ++ [0]) (ascii "none") = some true := by
    rw [beginsI_ended (by decide), letters]
    decide
  have length : (p.drop 4).length = 4 := by
    have same := congrArg List.length letters
    rwa [List.length_map] at same
  have passed : (p.drop 4 ++ [0]).drop 5 = [] := List.drop_eq_nil_of_le (by rw [List.length_append, length, List.length_singleton])
  have read : readTarget (p.drop 4 ++ [0]) = some (-1, []) := by
    unfold readTarget
    simp only [tested, bind, Option.bind_some, if_true, passed]
  have parsed (message : Memory) : parseMessage (s ++ [0]) message msgMaxlen = none := by
    unfold parseMessage
    rw [strFindI_ended real (by decide)]
    simp only [bind, Option.bind_some, found, Option.map_some]
    rw [List.drop_append_of_le_length long, read, Option.bind_some]
    rfl
  unfold parseAiResponse
  rw [putAt, if_pos (by rw [List.length_singleton]; omega), putAt, if_pos (by rw [List.length_singleton]; omega)]
  simp only [bind, Option.bind_some, parsed, Option.bind_none]

end Parsing

section Format

variable {s m r head tag : List Byte} {k : Nat}

/-- A word that begins with a bracket is not found before the first bracket. -/
theorem findI_skip {front word : List Byte} (absent : chr '[' ∉ front) :
    findI (chr '[' :: word) (front ++ s) = findI (chr '[' :: word) s := by
  induction front with
  | nil => rfl
  | cons c front ih =>
      rw [List.mem_cons, not_or] at absent
      have other : ((chr '[' :: word).map toLower).isPrefixOf ((c :: (front ++ s)).map toLower) = false := by
        have different : toLower (chr '[') ≠ toLower c := fun same => absent.1 (toLower_bracket.mp (same.symm.trans (by decide))).symm
        rw [List.map_cons, List.map_cons, List.isPrefixOf_cons_cons, beq_false_of_ne different, Bool.false_and]
      rw [List.cons_append, findI, List.tails_cons, List.find?_cons, other]
      exact ih absent.2

/-- A word whose letters are not brackets has no bracket. -/
theorem bracket_absent {y lowered : List Byte} (letters : y.map toLower = lowered) (absent : chr '[' ∉ lowered) : chr '[' ∉ y := by
  intro listed
  apply absent
  rw [← letters]
  exact List.mem_map.mpr ⟨chr '[', listed, by decide⟩

theorem text_bracket (k : Nat) : chr '[' ∉ Decimal.text k := by
  intro listed
  exact absurd (Decimal.text_digits k _ listed) (by decide)

/-- The number of a target is read up to its bracket. -/
theorem readTarget_number {npc rest : List Byte} (named : npc.map toLower = ascii "npc") (small : k < 2 ^ 31) :
    readTarget (npc ++ (Decimal.text k ++ chr ']' :: rest)) = some ((k : Int), rest) := by
  have letters : ascii "npc" = [chr 'n', chr 'p', chr 'c'] := rfl
  rw [letters] at named
  obtain ⟨a, p, rfl, n, more⟩ := List.map_eq_cons_iff.mp named
  obtain ⟨b, p, rfl, second, more⟩ := List.map_eq_cons_iff.mp more
  obtain ⟨c, p, rfl, third, more⟩ := List.map_eq_cons_iff.mp more
  obtain rfl := List.map_eq_nil_iff.mp more
  have silent : beginsI ([a, b, c] ++ (Decimal.text k ++ chr ']' :: rest)) (ascii "none") = some false := by
    have word : ascii "none" = chr 'n' :: chr 'o' :: ascii "ne" := rfl
    have other : toLower b ≠ chr 'o' := by
      rw [second]
      decide
    rw [word, List.cons_append, beginsI, if_pos n, List.cons_append, beginsI, if_neg other]
  have addressed : beginsI ([a, b, c] ++ (Decimal.text k ++ chr ']' :: rest)) (ascii "npc") = some true := by
    rw [letters, List.cons_append, beginsI, if_pos n, List.cons_append, beginsI, if_pos second, List.cons_append, beginsI, if_pos third,
      beginsI]
  have digits : ∀ c ∈ Decimal.text k, Decimal.isDigit c = true := Decimal.text_digits k
  have value : (Decimal.text k).foldl (Decimal.wrapped 32) (0 : Nat) = (k : Int) := by
    have shown : Decimal.appended 0 (Decimal.text k) = k := Decimal.value_text k
    rw [Decimal.foldl_wrapped digits (by omega), shown]
  have read : Cursor.scan Decimal.isDigit (Decimal.wrapped 32) 0 (Decimal.text k ++ chr ']' :: rest) =
      some ((k : Int), chr ']' :: rest) := by
    rw [Cursor.scan_stop 0 (by decide), List.takeWhile_eq_self_iff.mpr digits, List.dropWhile_eq_nil_iff.mpr digits]
    exact congrArg (fun n => some (n, _)) value
  unfold readTarget
  simp only [silent, addressed, bind, Option.bind_some, Bool.false_eq_true, if_false, if_true]
  change (Cursor.scan Decimal.isDigit (Decimal.wrapped 32) 0 (Decimal.text k ++ chr ']' :: rest)).bind _ = _
  rw [read]
  rfl

/-- The tag of a memory is found behind a message. -/
theorem findI_memory {y more : List Byte} {c : Byte} (absent : chr '[' ∉ c :: y) (other : toLower c ≠ chr 'm')
    (tagged : tag.map toLower = ascii "[memory]:") :
    findI (ascii "[memory]:") (chr '[' :: c :: (y ++ (tag ++ more))) = some (tag ++ more) := by
  have first : ((ascii "[memory]:").map toLower).isPrefixOf ((chr '[' :: c :: (y ++ (tag ++ more))).map toLower) = false := by
    have word : (ascii "[memory]:").map toLower = chr '[' :: chr 'm' :: ascii "emory]:" := by decide
    have different : (chr 'm' == toLower c) = false := beq_false_of_ne (Ne.symm other)
    rw [word, List.map_cons, List.map_cons, List.isPrefixOf_cons_cons, List.isPrefixOf_cons_cons, different, Bool.false_and, Bool.and_false]
  have here : (ascii "[memory]:").map toLower <+: (tag ++ more).map toLower := by
    rw [List.map_append, tagged]
    exact List.prefix_append _ _
  rw [findI, List.tails_cons, List.find?_cons, first]
  change findI (ascii "[memory]:") (c :: y ++ (tag ++ more)) = some (tag ++ more)
  have skipped : findI (chr '[' :: ascii "memory]:") (c :: y ++ (tag ++ more)) = findI (chr '[' :: ascii "memory]:") (tag ++ more) :=
    findI_skip absent
  exact skipped.trans (findI_here here)

/-- The colon and the blanks in front of a message are skipped. -/
theorem skip_colon {m rest : List Byte} (first : m.head? ≠ some (chr ':') ∧ m.head? ≠ some (chr ' ')) : ∃ w, (w = [] ∨ w = [chr ' ']) ∧
    Cursor.skip (fun c => c = chr ':' ∨ c = chr ' ') (chr ':' :: chr ' ' :: (m ++ chr ' ' :: chr '[' :: rest)) =
      some (m ++ (w ++ chr '[' :: rest)) := by
  cases m with
  | nil =>
      have skipped : Cursor.skip (fun c => c = chr ':' ∨ c = chr ' ') ([chr ':', chr ' ', chr ' '] ++ chr '[' :: rest) =
          some (chr '[' :: rest) := Cursor.skip_stop (by decide)
      exact ⟨[], Or.inl rfl, skipped⟩
  | cons c m =>
      have stop : decide (c = chr ':' ∨ c = chr ' ') = false := by
        simpa using first
      have skipped : Cursor.skip (fun c => c = chr ':' ∨ c = chr ' ') ([chr ':', chr ' '] ++ c :: (m ++ chr ' ' :: chr '[' :: rest)) =
          some (c :: (m ++ chr ' ' :: chr '[' :: rest)) := Cursor.skip_stop stop
      exact ⟨[chr ' '], Or.inr rfl, skipped⟩

theorem parseMessage_addressed {mid npc more : List Byte} {t d : Byte} {msgMaxlen : Nat} {message : Memory} (real : 0 ∉ s)
    (letter : toLower t = chr 't') (middle : mid.map toLower = [chr 'o', chr ' ']) (name : npc.map toLower = ascii "npc")
    (small : k < 2 ^ 31) (plain : Plain m) (clean : 0 ∉ m) (memo : toLower d = chr 'm') (fits : m.length < msgMaxlen)
    (text : s = chr '[' :: t :: (mid ++ (npc ++ (Decimal.text k ++ chr ']' :: chr ':' :: chr ' ' ::
      (m ++ chr ' ' :: chr '[' :: d :: more))))) :
    ∃ after, parseMessage (s ++ [0]) message msgMaxlen = some ((k : Int), after) ∧ slice after 0 (m.length + 1) = m ++ [0] := by
  have found : findI (ascii "[to ") s = some s := by
    have word : (ascii "[to ").map toLower = chr '[' :: chr 't' :: [chr 'o', chr ' '] := by decide
    have bracket : toLower (chr '[') = chr '[' := by decide
    apply findI_here
    rw [word, text, List.map_cons, List.map_cons, List.map_append, letter, middle, bracket]
    exact List.prefix_append (chr '[' :: chr 't' :: [chr 'o', chr ' ']) _
  have behind : (s ++ [0]).drop 4 = npc ++ (Decimal.text k ++ chr ']' :: chr ':' :: chr ' ' ::
      (m ++ chr ' ' :: chr '[' :: (d :: more ++ [0]))) := by
    have length : mid.length = 2 := by
      have same := congrArg List.length middle
      rwa [List.length_map] at same
    rw [text]
    simp only [List.cons_append, List.append_assoc]
    exact List.drop_left' length
  obtain ⟨w, between, skipped⟩ : ∃ w, (w = [] ∨ w = [chr ' ']) ∧
      Cursor.skip (fun c => c = chr ':' ∨ c = chr ' ') (chr ':' :: chr ' ' :: (m ++ chr ' ' :: chr '[' :: (d :: more ++ [0]))) =
        some (m ++ (w ++ chr '[' :: (d :: more ++ [0]))) := skip_colon plain.first
  obtain ⟨after, copied, holds⟩ : ∃ after, copyTrimmed messageStops msgMaxlen message (m ++ (w ++ chr '[' :: d :: (more ++ [0]))) =
      some after ∧ slice after 0 (m.length + 1) = m ++ [0] := copyMessage plain clean between memo fits
  refine ⟨after, ?_, holds⟩
  unfold parseMessage
  rw [strFindI_ended real (by decide), found]
  simp only [bind, Option.bind_some, Option.map_some]
  rw [behind, readTarget_number name small, Option.bind_some]
  dsimp only
  rw [skipped, Option.bind_some]
  exact congrArg (Option.bind · fun message => some ((k : Int), message)) copied

theorem parseMemory_tagged {memMaxlen : Nat} {memory : Memory} (real : 0 ∉ s)
    (found : findI (ascii "[memory]:") s = some (tag ++ chr ' ' :: r)) (length : tag.length = 9) (plain : Plain r) (clean : 0 ∉ r)
    (room : r.length < memMaxlen) :
    ∃ after, parseMemory (s ++ [0]) memory memMaxlen = some after ∧ slice after 0 (r.length + 1) = r ++ [0] := by
  obtain ⟨after, copied, holds⟩ : ∃ after, copyTrimmed memoryStops memMaxlen memory (r ++ [0]) = some after ∧
      slice after 0 (r.length + 1) = r ++ [0] := copyMemory plain clean room
  have behind : (tag ++ chr ' ' :: r ++ [0]).drop 9 = [chr ' '] ++ (r ++ [0]) := by
    rw [List.append_assoc, List.drop_left' length]
    rfl
  have skipped : Cursor.skip (fun c => c = chr ' ') ([chr ' '] ++ (r ++ [0])) = some (r ++ [0]) := by
    cases r with
    | nil => exact Cursor.skip_stop (by decide)
    | cons c r =>
        have stop : decide (c = chr ' ') = false := by simpa using plain.first.2
        exact Cursor.skip_stop stop
  refine ⟨after, ?_, holds⟩
  unfold parseMemory
  rw [strFindI_ended real (by decide), found]
  simp only [bind, Option.bind_some, Option.map_some, reduceCtorEq, if_false]
  rw [behind, skipped, Option.bind_some, copied]

/-- A response of the format gives its target, its message and its memory. -/
theorem parseAiResponse_addressed {msgMaxlen memMaxlen : Nat} (real : 0 ∉ s) (small : k < 2 ^ 31) (named : head.map toLower = ascii "[to npc")
    (tagged : tag.map toLower = ascii "[memory]:") (plain : Plain m) (memo : Plain r) (fits : m.length < msgMaxlen)
    (room : r.length < memMaxlen)
    (shape : s = head ++ Decimal.text k ++ ascii "]: " ++ m ++ ascii " " ++ tag ++ ascii " " ++ r) (message memory : Memory) :
    ∃ message' memory', parseAiResponse (s ++ [0]) message msgMaxlen memory memMaxlen = some ((k : Int), message', memory') ∧
      slice message' 0 (m.length + 1) = m ++ [0] ∧ slice memory' 0 (r.length + 1) = r ++ [0] := by
  have letters : ascii "[to npc" = chr '[' :: chr 't' :: ([chr 'o', chr ' '] ++ ascii "npc") := rfl
  have word : ascii "[memory]:" = chr '[' :: chr 'm' :: ascii "emory]:" := rfl
  have length : tag.length = 9 := by
    have same := congrArg List.length tagged
    rwa [List.length_map] at same
  have tag_letters := tagged
  rw [word] at tag_letters
  rw [letters] at named
  obtain ⟨a, p, rfl, bracket, more⟩ := List.map_eq_cons_iff.mp named
  obtain ⟨t, p, rfl, letter, more⟩ := List.map_eq_cons_iff.mp more
  obtain ⟨mid, npc, rfl, middle, name⟩ := List.map_eq_append_iff.mp more
  obtain ⟨b, p, rfl, second, more⟩ := List.map_eq_cons_iff.mp tag_letters
  obtain ⟨d, rest, rfl, memo_letter, -⟩ := List.map_eq_cons_iff.mp more
  obtain rfl := toLower_bracket.mp bracket
  obtain rfl := toLower_bracket.mp second
  have text : s = chr '[' :: t :: (mid ++ (npc ++ (Decimal.text k ++ chr ']' :: chr ':' :: chr ' ' ::
      (m ++ chr ' ' :: chr '[' :: d :: (rest ++ chr ' ' :: r))))) := by
    have colon : ascii "]: " = [chr ']', chr ':', chr ' '] := rfl
    have blank : ascii " " = [chr ' '] := rfl
    rw [shape, colon, blank]
    simp only [List.append_assoc, List.cons_append, List.nil_append]
  have clean : 0 ∉ m ∧ 0 ∉ r := by
    rw [shape] at real
    simp only [List.mem_append, not_or] at real
    exact ⟨real.1.1.1.1.2, real.2⟩
  have found : findI (ascii "[memory]:") s = some (chr '[' :: d :: rest ++ chr ' ' :: r) := by
    have front : chr '[' ∉ t :: (mid ++ (npc ++ (Decimal.text k ++ chr ']' :: chr ':' :: chr ' ' :: (m ++ [chr ' '])))) := by
      have first : chr '[' ∉ [t] := bracket_absent (congrArg (fun c => [c]) letter) (by decide)
      have third : chr '[' ∉ [chr ']', chr ':', chr ' '] := by decide
      have fourth : chr '[' ∉ [chr ' '] := by decide
      have whole : chr '[' ∉ [t] ++ (mid ++ (npc ++ (Decimal.text k ++ ([chr ']', chr ':', chr ' '] ++ (m ++ [chr ' ']))))) := by
        simp only [List.mem_append, not_or]
        exact ⟨first, bracket_absent middle (by decide), bracket_absent name (by decide), text_bracket k, third, plain.bracket, fourth⟩
      exact whole
    have other : toLower t ≠ chr 'm' := by
      rw [letter]
      decide
    have here : findI (ascii "[memory]:") (chr '[' :: t :: ((mid ++ (npc ++ (Decimal.text k ++ chr ']' :: chr ':' :: chr ' ' ::
        (m ++ [chr ' '])))) ++ (chr '[' :: d :: rest ++ chr ' ' :: r))) = some (chr '[' :: d :: rest ++ chr ' ' :: r) :=
      findI_memory front other tagged
    rw [text]
    simpa using here
  obtain ⟨message', parsed, holds⟩ : ∃ after, parseMessage (s ++ [0]) (put message 0 [0]) msgMaxlen = some ((k : Int), after) ∧
      slice after 0 (m.length + 1) = m ++ [0] :=
    parseMessage_addressed real letter middle name small plain clean.1 memo_letter fits text
  obtain ⟨memory', kept, memo_holds⟩ : ∃ after, parseMemory (s ++ [0]) (put memory 0 [0]) memMaxlen = some after ∧
      slice after 0 (r.length + 1) = r ++ [0] := parseMemory_tagged real found length memo clean.2 room
  refine ⟨message', memory', ?_, holds, memo_holds⟩
  unfold parseAiResponse
  rw [putAt, if_pos (by rw [List.length_singleton]; omega), putAt, if_pos (by rw [List.length_singleton]; omega)]
  simp only [bind, Option.bind_some, parsed, kept]

/-- A response without a target gives -1. -/
theorem parseAiResponse_silent {rest : List Byte} {msgMaxlen memMaxlen : Nat} (real : 0 ∉ s) (first : 0 < msgMaxlen)
    (second : 0 < memMaxlen) (named : head.map toLower = ascii "[to none]:") (shape : s = head ++ rest) (message memory : Memory) :
    ∃ message' memory', parseAiResponse (s ++ [0]) message msgMaxlen memory memMaxlen = some (-1, message', memory') := by
  have letters : s.map toLower = ascii "[to " ++ (ascii "none" ++ (ascii "]:" ++ rest.map toLower)) := by
    rw [shape, List.map_append, named]
    rfl
  have found : findI (ascii "[to ") s = some s := by
    have word : (ascii "[to ").map toLower = ascii "[to " := by decide
    apply findI_here
    rw [word, letters]
    exact List.prefix_append _ _
  have behind : (s.drop 4).map toLower = ascii "none" ++ (ascii "]:" ++ rest.map toLower) := by
    rw [List.map_drop, letters]
    exact List.drop_left' rfl
  have long : 10 ≤ s.length := by
    have same := congrArg List.length named
    rw [List.length_map] at same
    rw [shape, List.length_append, same]
    exact Nat.le_add_right 10 _
  have whole : ¬CutOff s := by
    rintro ⟨p, here, same⟩
    rw [found] at here
    obtain rfl := Option.some.inj here
    have length := congrArg List.length same
    rw [List.length_map, List.length_drop] at length
    change s.length - 4 = 4 at length
    omega
  obtain ⟨target, message', memory', parsed, -⟩ := parseAiResponse_total real first second whole message memory
  refine ⟨message', memory', ?_⟩
  have tested : beginsI (s.drop 4 ++ [0]) (ascii "none") = some true := by
    rw [beginsI_ended (by decide), behind]
    exact congrArg some (List.isPrefixOf_iff_prefix.mpr (List.prefix_append _ _))
  have read : readTarget (s.drop 4 ++ [0]) = some (-1, (s.drop 4 ++ [0]).drop 5) := by
    unfold readTarget
    simp only [tested, bind, Option.bind_some, if_true]
  have negative (mem after : Memory) (t : Int) (done : parseMessage (s ++ [0]) mem msgMaxlen = some (t, after)) : t = -1 := by
    unfold parseMessage at done
    rw [strFindI_ended real (by decide), found] at done
    simp only [bind, Option.bind_some, Option.map_some] at done
    rw [List.drop_append_of_le_length (by omega), read, Option.bind_some] at done
    obtain ⟨p, -, done⟩ := Option.bind_eq_some_iff.mp done
    obtain ⟨copied, -, done⟩ := Option.bind_eq_some_iff.mp done
    exact (congrArg Prod.fst (Option.some.inj done)).symm
  have same : target = -1 := by
    have steps := parsed
    unfold parseAiResponse at steps
    obtain ⟨mem, -, steps⟩ := Option.bind_eq_some_iff.mp steps
    obtain ⟨memo, -, steps⟩ := Option.bind_eq_some_iff.mp steps
    obtain ⟨⟨t, after⟩, message_done, steps⟩ := Option.bind_eq_some_iff.mp steps
    obtain ⟨kept, -, steps⟩ := Option.bind_eq_some_iff.mp steps
    have targets : t = target := congrArg Prod.fst (Option.some.inj steps)
    rw [← targets]
    exact negative mem after t message_done
  rw [parsed, same]

end Format

/-- The parser keeps its word on every response that does not end with the letters of `none` behind its first tag. -/
theorem meets_iff (response : Text) {msgMaxlen memMaxlen : Nat} (first : 1 ≤ msgMaxlen) (second : 1 ≤ memMaxlen) :
    Meets response msgMaxlen memMaxlen ↔ ¬CutOff response.bytes := by
  constructor
  · intro kept cut
    obtain ⟨target, message', memory', parsed, -⟩ := kept.safe (fun _ => 0) fun _ => 0
    rw [parseAiResponse_cut response.clean first second cut] at parsed
    cases parsed
  · intro whole
    constructor
    · exact parseAiResponse_total response.clean first second whole
    · intro k head tag m r _ small named tagged plain memo fits room shape message memory
      exact parseAiResponse_addressed response.clean small named tagged plain memo fits room shape message memory
    · intro head rest named shape message memory
      exact parseAiResponse_silent response.clean first second named shape message memory

/-- The text is the greeting of the third NPC, in arrays of one byte. -/
theorem meets_iff_greeting : Meets ⟨ascii "[to npc3]: hi", by decide⟩ 1 1 ↔ ¬CutOff (ascii "[to npc3]: hi") :=
  meets_iff ⟨ascii "[to npc3]: hi", by decide⟩ (Nat.le_refl 1) (Nat.le_refl 1)

/-- On a response that ends with `[to none` the parser reads behind the null byte. -/
theorem none_overread : parseAiResponse (ascii "[to none" ++ [0]) (fun _ => 0) 256 (fun _ => 0) 256 = none ∧
    ¬Meets ⟨ascii "[to none", by decide⟩ 256 256 := by
  have cut : CutOff (ascii "[to none") := ⟨ascii "[to none", by decide, by decide⟩
  have stuck : parseAiResponse (ascii "[to none" ++ [0]) (fun _ => 0) 256 (fun _ => 0) 256 = none :=
    parseAiResponse_cut (by decide) (by decide) (by decide) cut (fun _ => 0) fun _ => 0
  refine ⟨stuck, fun kept => ?_⟩
  obtain ⟨target, message', memory', parsed, -⟩ := kept.safe (fun _ => 0) fun _ => 0
  exact absurd (stuck.symm.trans parsed) (by simp)

end BtbuOs.Npc
