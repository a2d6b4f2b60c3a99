import BtbuOs.Lib.Cursor
import BtbuOs.Net.AiApi
import BtbuOs.Net.IpText

namespace BtbuOs.Net.AiApi

open Bytes

/-- The inner loop of `ai_strstr` on readable bytes. A read behind them has no defined result. -/
def startsAt : List Byte → List Byte → Option Bool
  | [], _ => none
  | _ :: _, [] => some true
  | h :: haystack, n :: needle => if h = 0 then some false else if h = n then startsAt haystack needle else some false

def aiStrstrAt (haystack needle : List Byte) : Option (Option (List Byte)) :=
  match haystack with
  | [] => none
  | h :: rest =>
      if h = 0 then some none
      else (startsAt (h :: rest) needle).bind fun found => if found then some (some (h :: rest)) else aiStrstrAt rest needle

/-- The loop of `parse_unicode_escape`; the inner option is empty when the C function returns -1. -/
def parseDigitsAt : Nat → BitVec 32 → List Byte → Option (Option (BitVec 32))
  | 0, val, _ => some (some val)
  | _ + 1, _, [] => none
  | n + 1, val, c :: p =>
      match hexDigit c with
      | none => some none
      | some d => parseDigitsAt n (val <<< 4 ||| d) p

/-- The look-ahead behind the four digits at the pointer, and the bytes that it passes over. -/
def joinSurrogatesAt (codepoint : BitVec 32) (p : List Byte) : Option (BitVec 32 × Nat) :=
  if 0xD800 ≤ codepoint ∧ codepoint ≤ 0xDBFF then
    p[4]?.bind fun first =>
      if first ≠ chr '\\' then some (codepoint, 0)
      else p[5]?.bind fun second =>
        if second ≠ chr 'u' then some (codepoint, 0)
        else (parseDigitsAt 4 0 (p.drop 6)).bind fun low =>
          match low with
          | none => some (codepoint, 0)
          | some low =>
              if 0xDC00 ≤ low ∧ low ≤ 0xDFFF then some (0x10000 + (codepoint - 0xD800) <<< 10 + (low - 0xDC00), 6)
              else some (codepoint, 0)
  else some (codepoint, 0)

/-- The loop of `extract_content` on readable bytes and on an array. -/
def extractLoopAt (contentSize : Nat) (p : List Byte) (i : Nat) (pending : Bool) (content : Memory) : Option (Memory × Nat) :=
  match p with
  | [] => none
  | c :: p =>
      if c = 0 ∨ ¬(i : Int) < contentSize - 4 then some (content, i)
      else if pending then
        if c = chr 'u' then
          (parseDigitsAt 4 0 p).bind fun codepoint =>
            match codepoint with
            | none => (putAt contentSize content i [chr 'u']).bind fun content => extractLoopAt contentSize p (i + 1) false content
            | some codepoint =>
                (joinSurrogatesAt codepoint p).bind fun joined =>
                  let utf8 := encodeUtf8 joined.1 (contentSize - i)
                  (putAt contentSize content i utf8).bind fun content =>
                    extractLoopAt contentSize (p.drop (joined.2 + 4)) (i + utf8.length) false content
        else (putAt contentSize content i [unescape c]).bind fun content => extractLoopAt contentSize p (i + 1) false content
      else if c = chr '\\' then extractLoopAt contentSize p i true content
      else if c = chr '"' then some (content, i)
      else (putAt contentSize content i [c]).bind fun content => extractLoopAt contentSize p (i + 1) false content
  termination_by p.length
  decreasing_by
    all_goals simp only [List.length_cons, List.length_drop]
    all_goals omega

/-- The string ends with a null byte that is readable. -/
def extractContentAt (json : List Byte) (content : Memory) (contentSize : Nat) : Option (Int × Memory) :=
  (aiStrstrAt json (ascii "\"content\":")).bind fun found =>
    match found with
    | none => some (-1, content)
    | some p =>
        (Cursor.skip blank (p.drop 10)).bind fun p =>
          if p.head? = some (chr '"') then
            (extractLoopAt contentSize p.tail 0 false content).bind fun (content, i) =>
              (putAt contentSize content i [0]).map fun content => (↑i, content)
          else some (-1, content)

section Reading

variable {haystack needle s p : List Byte} {c : Byte}

theorem startsAt_ended (real : 0 ∉ haystack) : startsAt (haystack ++ [0]) needle = some (starts haystack needle) := by
  induction haystack generalizing needle with
  | nil => cases needle <;> rfl
  | cons h haystack ih =>
      rw [List.mem_cons, not_or] at real
      cases needle with
      | nil => rfl
      | cons n needle =>
          rw [List.cons_append, startsAt, starts, if_neg (Ne.symm real.1)]
          split
          · exact ih real.2
          · rfl

/-- The search reads nothing behind the null byte. -/
theorem aiStrstrAt_ended (real : 0 ∉ haystack) (some_needle : needle ≠ []) :
    aiStrstrAt (haystack ++ [0]) needle = some ((aiStrstr haystack needle).map (· ++ [0])) := by
  induction haystack with
  | nil => rw [List.nil_append, aiStrstrAt, if_pos rfl, aiStrstr, if_neg some_needle, Option.map_none]
  | cons h haystack ih =>
      have first : startsAt (h :: haystack ++ [0]) needle = some (starts (h :: haystack) needle) := startsAt_ended real
      rw [List.mem_cons, not_or] at real
      rw [List.cons_append] at first ⊢
      rw [aiStrstrAt, if_neg (Ne.symm real.1), first, Option.bind_some, aiStrstr]
      split
      · rfl
      · exact ih real.2

theorem hexDigit_zero : hexDigit 0 = none := by decide

theorem parseDigitsAt_ended (n : Nat) (val : BitVec 32) (s : List Byte) : parseDigitsAt n val (s ++ [0]) = some (parseDigits n val s) := by
  induction s generalizing n val with
  | nil =>
      cases n with
      | zero => rfl
      | succ n => rw [List.nil_append, parseDigitsAt, hexDigit_zero, parseDigits]
  | cons c s ih =>
      cases n with
      | zero => rfl
      | succ n =>
          rw [List.cons_append, parseDigitsAt, parseDigits]
          cases hexDigit c with
          | none => rfl
          | some d => exact ih n (val <<< 4 ||| d)

/-- Four digits are read from four bytes. -/
theorem parseDigits_length {n : Nat} {val d : BitVec 32} (read : parseDigits n val s = some d) : n ≤ s.length := by
  induction s generalizing n val with
  | nil =>
      cases n with
      | zero => exact Nat.zero_le _
      | succ n => cases read
  | cons c s ih =>
      cases n with
      | zero => exact Nat.zero_le _
      | succ n =>
          obtain ⟨digit, -, rest⟩ := Option.bind_eq_some_iff.mp read
          exact Nat.succ_le_succ (ih rest)

/-- The look-ahead reads a byte only behind bytes that are not null. -/
theorem joinSurrogatesAt_ended {codepoint : BitVec 32} (digits : 4 ≤ s.length) : ∃ joined skipped,
    joinSurrogatesAt codepoint (s ++ [0]) = some (joined, skipped) ∧ joinSurrogates codepoint s = (joined, s.drop skipped) ∧
      skipped + 4 ≤ s.length := by
  have stay (plain : joinSurrogatesAt codepoint (s ++ [0]) = some (codepoint, 0)) (same : joinSurrogates codepoint s = (codepoint, s)) :
      ∃ joined skipped, joinSurrogatesAt codepoint (s ++ [0]) = some (joined, skipped) ∧
        joinSurrogates codepoint s = (joined, s.drop skipped) ∧ skipped + 4 ≤ s.length := ⟨codepoint, 0, plain, same, by omega⟩
  by_cases high : 0xD800 ≤ codepoint ∧ codepoint ≤ 0xDBFF
  · obtain ⟨d0, d1, d2, d3, t, rfl⟩ : ∃ d0 d1 d2 d3 t, s = d0 :: d1 :: d2 :: d3 :: t := by
      obtain ⟨d0, d1, d2, d3, front⟩ := List.length_eq_four.mp (List.length_take_of_le digits)
      refine ⟨d0, d1, d2, d3, s.drop 4, ?_⟩
      have whole := List.take_append_drop 4 s
      rw [front] at whole
      exact whole.symm
    cases t with
    | nil => exact stay (by rw [joinSurrogatesAt, if_pos high]; rfl) (by rw [joinSurrogates, if_pos high]; rfl)
    | cons first t =>
        by_cases backslash : first = chr '\\'
        · subst backslash
          cases t with
          | nil => exact stay (by rw [joinSurrogatesAt, if_pos high]; rfl) (by rw [joinSurrogates, if_pos high]; rfl)
          | cons second t =>
              by_cases letter : second = chr 'u'
              · subst letter
                have checked : joinSurrogatesAt codepoint (d0 :: d1 :: d2 :: d3 :: chr '\\' :: chr 'u' :: t ++ [0]) =
                    (parseDigitsAt 4 0 (t ++ [0])).bind fun low => low.elim (some (codepoint, 0)) fun low =>
                      if 0xDC00 ≤ low ∧ low ≤ 0xDFFF then some (0x10000 + (codepoint - 0xD800) <<< 10 + (low - 0xDC00), 6)
                      else some (codepoint, 0) := by
                  rw [joinSurrogatesAt, if_pos high]
                  refine congrArg (Option.bind (parseDigitsAt 4 0 (t ++ [0]))) (funext fun low => ?_)
                  cases low <;> rfl
                have joined : joinSurrogates codepoint (d0 :: d1 :: d2 :: d3 :: chr '\\' :: chr 'u' :: t) =
                    (parseDigits 4 0 t).elim (codepoint, d0 :: d1 :: d2 :: d3 :: chr '\\' :: chr 'u' :: t) fun low =>
                      if 0xDC00 ≤ low ∧ low ≤ 0xDFFF then (0x10000 + (codepoint - 0xD800) <<< 10 + (low - 0xDC00), t)
                      else (codepoint, d0 :: d1 :: d2 :: d3 :: chr '\\' :: chr 'u' :: t) := by
                  have same : parseUnicodeEscape ((d0 :: d1 :: d2 :: d3 :: chr '\\' :: chr 'u' :: t).drop 6) = parseDigits 4 0 t := rfl
                  rw [joinSurrogates, if_pos high, if_pos ⟨rfl, rfl⟩, same]
                  cases parseDigits 4 0 t <;> rfl
                rw [parseDigitsAt_ended, Option.bind_some] at checked
                cases read : parseDigits 4 0 t with
                | none =>
                    rw [read] at checked joined
                    exact stay checked joined
                | some low =>
                    have length := parseDigits_length read
                    rw [read] at checked joined
                    dsimp only [Option.elim] at checked joined
                    by_cases range : 0xDC00 ≤ low ∧ low ≤ 0xDFFF
                    · rw [if_pos range] at checked joined
                      refine ⟨_, 6, checked, joined, ?_⟩
                      simp only [List.length_cons]
                      omega
                    · rw [if_neg range] at checked joined
                      exact stay checked joined
              · have checked : joinSurrogatesAt codepoint (d0 :: d1 :: d2 :: d3 :: chr '\\' :: second :: t ++ [0]) =
                    some (codepoint, 0) := by
                  rw [joinSurrogatesAt, if_pos high]
                  exact if_pos letter
                have plain : joinSurrogates codepoint (d0 :: d1 :: d2 :: d3 :: chr '\\' :: second :: t) =
                    (codepoint, d0 :: d1 :: d2 :: d3 :: chr '\\' :: second :: t) := by
                  rw [joinSurrogates, if_pos high]
                  exact if_neg fun both => letter (Option.some.inj both.2)
                exact stay checked plain
        · have checked : joinSurrogatesAt codepoint (d0 :: d1 :: d2 :: d3 :: first :: t ++ [0]) = some (codepoint, 0) := by
            rw [joinSurrogatesAt, if_pos high]
            exact if_pos backslash
          have plain : joinSurrogates codepoint (d0 :: d1 :: d2 :: d3 :: first :: t) = (codepoint, d0 :: d1 :: d2 :: d3 :: first :: t) := by
            rw [joinSurrogates, if_pos high]
            exact if_neg fun both => backslash (Option.some.inj both.1)
          exact stay checked plain
  · exact stay (if_neg high) (if_neg high)

end Reading

section Writing

variable {contentSize : Nat} {rounds i : Nat} {pending : Bool} {content : Memory} {s bytes : List Byte}

theorem putAt_inside (inside : i + bytes.length ≤ contentSize) : putAt contentSize content i bytes = some (put content i bytes) :=
  if_pos inside

/-- The loop reads nothing behind the null byte and writes nothing behind the array. -/
theorem extractLoopAt_ended (real : 0 ∉ s) (enough : s.length ≤ rounds) (inside : i < contentSize) :
    extractLoopAt contentSize (s ++ [0]) i pending content = some (extractLoop contentSize rounds s i pending content) := by
  induction rounds generalizing s i pending content with
  | zero =>
      obtain rfl := List.eq_nil_of_length_eq_zero (Nat.le_zero.mp enough)
      rw [List.nil_append, extractLoopAt, if_pos (Or.inl rfl)]
      rfl
  | succ rounds ih =>
      cases s with
      | nil =>
          rw [List.nil_append, extractLoopAt, if_pos (Or.inl rfl)]
          rfl
      | cons c s =>
          rw [List.mem_cons, not_or] at real
          rw [List.length_cons] at enough
          rw [List.cons_append, extractLoopAt, extractLoop]
          by_cases room : (i : Int) < contentSize - 4
          · have one (c : Byte) : putAt contentSize content i [c] = some (put content i [c]) :=
              putAt_inside (by rw [List.length_singleton]; omega)
            have plain (c : Byte) : ((putAt contentSize content i [c]).bind fun content =>
                extractLoopAt contentSize (s ++ [0]) (i + 1) false content) =
                some (extractLoop contentSize rounds s (i + 1) false (put content i [c])) := by
              rw [one, Option.bind_some]
              exact ih real.2 (by omega) (by omega)
            rw [if_neg (not_or.mpr ⟨Ne.symm real.1, not_not.mpr room⟩), if_pos room]
            cases pending with
            | true =>
                rw [if_pos rfl, if_pos rfl]
                by_cases letter : c = chr 'u'
                · rw [if_pos letter, if_pos letter, parseDigitsAt_ended, Option.bind_some, parseUnicodeEscape]
                  cases read : parseDigits 4 0 s with
                  | none => exact plain (chr 'u')
                  | some codepoint =>
                      obtain ⟨joined, skipped, ahead, same, left⟩ : ∃ joined skipped,
                          joinSurrogatesAt codepoint (s ++ [0]) = some (joined, skipped) ∧
                            joinSurrogates codepoint s = (joined, s.drop skipped) ∧ skipped + 4 ≤ s.length :=
                        joinSurrogatesAt_ended (parseDigits_length read)
                      dsimp only
                      rw [ahead, same, Option.bind_some]
                      dsimp only
                      have short := encodeUtf8_length joined (contentSize - i)
                      rw [putAt_inside (by omega), Option.bind_some, List.drop_append_of_le_length left, ← List.drop_drop]
                      have clean : 0 ∉ (s.drop skipped).drop 4 := fun listed =>
                        real.2 (List.mem_of_mem_drop (List.mem_of_mem_drop listed))
                      apply ih clean _ (by omega)
                      rw [List.length_drop, List.length_drop]
                      omega
                · rw [if_neg letter, if_neg letter]
                  exact plain (unescape c)
            | false =>
                rw [if_neg Bool.false_ne_true, if_neg Bool.false_ne_true]
                split
                · exact ih real.2 (by omega) inside
                · split
                  · rfl
                  · exact plain c
          · rw [if_pos (Or.inr room), if_neg room]

/-- The loop changes no byte behind the array. -/
theorem extractLoop_outside {k : Nat} {p : List Byte} (outside : contentSize ≤ k) :
    (extractLoop contentSize rounds p i pending content).1 k = content k := by
  induction rounds generalizing p i pending content with
  | zero => rfl
  | succ rounds ih =>
      cases p with
      | nil => rfl
      | cons c p =>
          rw [extractLoop]
          by_cases room : (i : Int) < contentSize - 4
          · have one (c : Byte) : put content i [c] k = content k := put_outside _ (Or.inr (by rw [List.length_singleton]; omega))
            rw [if_pos room]
            cases pending with
            | true =>
                rw [if_pos rfl]
                by_cases letter : c = chr 'u'
                · rw [if_pos letter]
                  cases parseUnicodeEscape p with
                  | none => exact ih.trans (one (chr 'u'))
                  | some codepoint =>
                      dsimp only
                      generalize joinSurrogates codepoint p = joined
                      have short := encodeUtf8_length joined.1 (contentSize - i)
                      exact ih.trans (put_outside _ (Or.inr (by omega)))
                · rw [if_neg letter]
                  exact ih.trans (one (unescape c))
            | false =>
                rw [if_neg Bool.false_ne_true]
                split
                · exact ih
                · split
                  · rfl
                  · exact ih.trans (one c)
          · rw [if_neg room]

end Writing

section Searching

variable {haystack needle p : List Byte}

theorem starts_iff : starts haystack needle = true ↔ needle <+: haystack := by
  induction haystack generalizing needle with
  | nil => cases needle <;> simp [starts]
  | cons h haystack ih =>
      cases needle with
      | nil => simp [starts]
      | cons n needle =>
          rw [starts, List.cons_prefix_cons]
          split
          · rename_i same
            rw [ih, same, and_iff_right rfl]
          · rename_i other
            exact iff_of_false Bool.false_ne_true fun both => other both.1.symm

/-- What is found is a rest of the string that begins with the needle. -/
theorem aiStrstr_some (some_needle : needle ≠ []) (found : aiStrstr haystack needle = some p) : needle <+: p ∧ p <:+ haystack := by
  induction haystack with
  | nil =>
      rw [aiStrstr, if_neg some_needle] at found
      cases found
  | cons h haystack ih =>
      rw [aiStrstr] at found
      split at found
      · rename_i here
        obtain rfl := Option.some.inj found
        exact ⟨starts_iff.mp here, List.suffix_refl _⟩
      · obtain ⟨begins, rest⟩ := ih found
        exact ⟨begins, rest.trans (List.suffix_cons h haystack)⟩

end Searching

/-- The name of the member that `extract_content` looks for. -/
def contentKey : List Byte := ascii "\"content\":"

/-- On a string, the function with checked reads and writes computes the same. -/
theorem extractContentAt_ended (json : Text) (content : Memory) {contentSize : Nat} (room : 0 < contentSize) :
    extractContentAt (json.bytes ++ [0]) content contentSize = some (extractContent json.bytes content contentSize) := by
  have named : contentKey ≠ [] := by decide
  rw [extractContentAt, extractContent]
  change (aiStrstrAt (json.bytes ++ [0]) contentKey).bind _ = some (match aiStrstr json.bytes contentKey with | none => _ | some p => _)
  rw [aiStrstrAt_ended json.clean named, Option.bind_some]
  cases found : aiStrstr json.bytes contentKey with
  | none => rfl
  | some p =>
      obtain ⟨begins, suffix⟩ := aiStrstr_some named found
      have long : 10 ≤ p.length := begins.length_le
      have clean : 0 ∉ (p.drop 10).dropWhile blank := fun listed =>
        json.clean (suffix.subset (List.mem_of_mem_drop ((List.dropWhile_sublist blank).subset listed)))
      have skipped : Cursor.skip blank ((p ++ [0]).drop 10) = some ((p.drop 10).dropWhile blank ++ [0]) := by
        rw [List.drop_append_of_le_length long]
        exact Cursor.skip_stop (by decide)
      rw [Option.map_some]
      dsimp only
      rw [skipped, Option.bind_some]
      cases value : (p.drop 10).dropWhile blank with
      | nil => rfl
      | cons c q =>
          rw [value] at clean
          dsimp only
          rw [List.cons_append, List.head?_cons, List.tail_cons]
          by_cases quote : c = chr '"'
          · have inside : (extractLoop contentSize q.length q 0 false content).2 < (contentSize : Int) := extractLoop_bound (by omega)
            have real : 0 ∉ q := fun listed => clean (List.mem_cons_of_mem c listed)
            rw [if_pos (congrArg some quote), if_pos quote, extractLoopAt_ended real (Nat.le_refl _) room, Option.bind_some]
            rw [putAt_inside (by rw [List.length_singleton]; omega), Option.map_some]
          · rw [if_neg fun same => quote (Option.some.inj same), if_neg quote]

/-- The function fails without a store, or it ends what its loop has written with a null byte. -/
theorem extractContent_cases (json : List Byte) (content : Memory) (contentSize : Int) :
    extractContent json content contentSize = (-1, content) ∨ ∃ q, extractContent json content contentSize =
      (((extractLoop contentSize q.length q 0 false content).2 : Int),
        put (extractLoop contentSize q.length q 0 false content).1 (extractLoop contentSize q.length q 0 false content).2 [0]) := by
  unfold extractContent
  split
  · exact Or.inl rfl
  · split
    · exact Or.inl rfl
    · split
      · exact Or.inr ⟨_, rfl⟩
      · exact Or.inl rfl

/-- The function ends on every string, reads nothing behind its null byte, writes nothing behind the array, and leaves a null
byte at the place that it returns. -/
theorem extractContent_in_bounds (json : Text) (content : Memory) (contentSize : Nat) (room : 5 ≤ contentSize) :
    ∃ ret after, extractContentAt (json.bytes ++ [0]) content contentSize = some (ret, after) ∧
      (∀ k, contentSize ≤ k → after k = content k) ∧ ret < contentSize ∧ (0 ≤ ret → after ret.toNat = 0) := by
  have checked := extractContentAt_ended json content (show 0 < contentSize by omega)
  rcases extractContent_cases json.bytes content contentSize with failed | ⟨q, done⟩
  · rw [failed] at checked
    exact ⟨-1, content, checked, fun k _ => rfl, by omega, fun natural => absurd natural (by decide)⟩
  · have inside : (extractLoop contentSize q.length q 0 false content).2 < (contentSize : Int) := extractLoop_bound (by omega)
    rw [done] at checked
    refine ⟨_, _, checked, fun k outside => ?_, inside, fun _ => Function.update_self ..⟩
    have behind : (extractLoop contentSize q.length q 0 false content).2 + 1 ≤ k := by omega
    exact (put_outside [0] (Or.inr behind)).trans (extractLoop_outside outside)

/-- The string ends between two surrogates, and the array has the least size. -/
theorem extractContent_in_bounds_cut :
    ∃ ret after, extractContentAt (ascii "\"content\":\"\\ud83d\\u" ++ [0]) (fun _ => 1) 5 = some (ret, after) ∧
      (∀ k, 5 ≤ k → after k = 1) ∧ ret < 5 ∧ (0 ≤ ret → after ret.toNat = 0) :=
  extractContent_in_bounds ⟨ascii "\"content\":\"\\ud83d\\u", by decide⟩ (fun _ => 1) 5 (by decide)

end BtbuOs.Net.AiApi
