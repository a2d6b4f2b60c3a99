import BtbuOs.Lib.Decimal
import BtbuOs.Net.Route
import BtbuOs.Tcp.Pcb

namespace BtbuOs.Net

open Bytes
open Tcp (Endpoint)

/-- The macros `IP_ADDR_STR_LEN` and `IP_ENDPOINT_STR_LEN`. -/
def ipAddrStrLen : Nat := 16
def ipEndpointStrLen : Nat := 22

/-- A store outside an array has no defined result. -/
def putAt (size : Nat) (buf : Memory) (pos : Nat) (bytes : List Byte) : Option Memory :=
  if pos + bytes.length ≤ size then some (put buf pos bytes) else none

/-- The first loop of `ip_itoa`, which fills `tmp`. Every round drops a digit, so that the number bounds the rounds. -/
def itoaLoop : Nat → Nat → List Byte → Option (List Byte)
  | 0, _, tmp => some tmp
  | rounds + 1, num, tmp =>
      if num = 0 then some tmp
      else if tmp.length < 4 then itoaLoop rounds (num / 10) (tmp ++ [Decimal.digit (num % 10)])
      else none

/-- The text goes to a place in an array of some size; the number counts its characters. -/
def ipItoa (size num : Nat) (buf : Memory) (pos : Nat) : Option (Memory × Nat) :=
  if num = 0 then (putAt size buf pos [chr '0']).map fun buf => (buf, 1)
  else do
    let tmp ← itoaLoop num num []
    let buf ← putAt size buf pos tmp.reverse
    return (buf, tmp.length)

/-- A byte of an address, in the order of memory. -/
def octet (n : IpAddr) (i : Nat) : Byte := BitVec.ofNat 8 (n.toNat / 256 ^ i)

/-- The flag is false when the C function returns 0. -/
def ipAddrNtop (n : IpAddr) (p : Memory) (size : Nat) : Option (Memory × Bool) :=
  if size < ipAddrStrLen then some (p, false)
  else do
    let pos := 0
    let (p, count) ← ipItoa size (octet n 0).toNat p pos
    let pos := pos + count
    let p ← putAt size p pos [chr '.']
    let pos := pos + 1
    let (p, count) ← ipItoa size (octet n 1).toNat p pos
    let pos := pos + count
    let p ← putAt size p pos [chr '.']
    let pos := pos + 1
    let (p, count) ← ipItoa size (octet n 2).toNat p pos
    let pos := pos + count
    let p ← putAt size p pos [chr '.']
    let pos := pos + 1
    let (p, count) ← ipItoa size (octet n 3).toNat p pos
    let pos := pos + count
    let p ← putAt size p pos [0]
    return (p, true)

/-- A string without an end in its array has no defined length. -/
def strlen (p : Memory) (size : Nat) : Option Nat :=
  if (string p 0 size).length < size then some (string p 0 size).length else none

def ipEndpointNtop (n : Endpoint) (p : Memory) (size : Nat) : Option Memory := do
  let (p, _) ← ipAddrNtop n.addr p size
  let offset ← strlen p size
  if size ≤ offset + 6 then return p
  else
    let p ← putAt size p offset [chr ':']
    let offset := offset + 1
    let (p, count) ← ipItoa size (ntoh16 n.port).toNat p offset
    putAt size p (offset + count) [0]

/-- The parts of a string before and behind the last place of a character. -/
def strrchr (ch : Byte) : List Byte → Option (List Byte × List Byte)
  | [] => none
  | c :: cp =>
      match strrchr ch cp with
      | some (before, behind) => some (c :: before, behind)
      | none => if c = ch then some ([], cp) else none

/-- There is no endpoint when the C function returns -1. An address without room for its null byte has no defined result. -/
def ipEndpointPton (p : List Byte) : Option (Option Endpoint) :=
  match strrchr (chr ':') p with
  | none => some none
  | some (addr, behind) =>
      if ipAddrStrLen ≤ addr.length then none
      else
        match ipAddrPton addr with
        | none => some none
        | some addr =>
            let port := (strtol behind).1
            if port ≤ 0 ∨ 65535 < port then some none
            else some (some ⟨addr, hton16 (BitVec.ofInt 16 port)⟩)

/-- The text of an address has its bytes in decimal. -/
def dotted (n : IpAddr) : List Byte :=
  Decimal.text (octet n 0).toNat ++ [chr '.'] ++ Decimal.text (octet n 1).toNat ++ [chr '.'] ++
    Decimal.text (octet n 2).toNat ++ [chr '.'] ++ Decimal.text (octet n 3).toNat

/-- The text of an endpoint. -/
def endpointText (n : Endpoint) : List Byte := dotted n.addr ++ [chr ':'] ++ Decimal.text (ntoh16 n.port).toNat

section Writing

variable {size num rounds pos : Nat} {buf : Memory} {tmp done s : List Byte}

/-- The scratch array has room for four digits. -/
theorem itoaLoop_eq (enough : num ≤ rounds) : itoaLoop rounds num tmp =
    if num = 0 ∨ tmp.length + (Nat.digits 10 num).length ≤ 4 then some (tmp ++ (Nat.digits 10 num).map Decimal.digit) else none := by
  induction rounds generalizing num tmp with
  | zero =>
      obtain rfl : num = 0 := by omega
      simp [itoaLoop]
  | succ rounds ih =>
      rw [itoaLoop]
      by_cases zero : num = 0
      · simp [zero]
      · have split : Nat.digits 10 num = num % 10 :: Nat.digits 10 (num / 10) := Nat.digits_def' (by decide) (by omega)
        rw [if_neg zero, split, List.length_cons, List.map_cons]
        by_cases room : tmp.length < 4
        · rw [if_pos room, ih (by omega), List.length_append, List.length_singleton, List.append_assoc, List.singleton_append]
          by_cases last : num / 10 = 0
          · rw [if_pos (Or.inl last), if_pos (Or.inr (by rw [last]; simp; omega))]
          · have same : (num / 10 = 0 ∨ tmp.length + 1 + (Nat.digits 10 (num / 10)).length ≤ 4) ↔
                (num = 0 ∨ tmp.length + ((Nat.digits 10 (num / 10)).length + 1) ≤ 4) := by omega
            rw [if_congr same rfl rfl]
        · rw [if_neg room, if_neg (by omega)]

/-- A number of at most four digits is written as its text. -/
theorem ipItoa_fits (small : num < 10000) (room : pos + (Decimal.text num).length ≤ size) :
    ipItoa size num buf pos = some (put buf pos (Decimal.text num), (Decimal.text num).length) := by
  rw [ipItoa]
  split
  · rename_i zero
    have shown : Decimal.text num = [chr '0'] := by rw [zero]; rfl
    rw [shown] at room ⊢
    rw [putAt, if_pos room]
    rfl
  · rename_i positive
    have shown : Decimal.text num = ((Nat.digits 10 num).map Decimal.digit).reverse := if_neg positive
    have short : (Nat.digits 10 num).length ≤ 4 := (Nat.digits_length_le_iff (by decide) num).mpr small
    rw [itoaLoop_eq (Nat.le_refl num), if_pos (Or.inr (by simpa using short)), List.nil_append]
    rw [shown] at room ⊢
    have stored : putAt size buf pos ((Nat.digits 10 num).map Decimal.digit).reverse = some _ := if_pos room
    rw [List.length_reverse]
    simp only [bind, Option.bind, stored, pure]

/-- A number of five digits and more is written outside the scratch array. -/
theorem ipItoa_overflows (large : 10000 ≤ num) : ipItoa size num buf pos = none := by
  have long : ¬(Nat.digits 10 num).length ≤ 4 := by
    rw [Nat.digits_length_le_iff (by decide) num]
    omega
  rw [ipItoa, if_neg (by omega), itoaLoop_eq (Nat.le_refl num), if_neg (by rw [List.length_nil]; omega)]
  rfl

/-- Bytes that fit are put behind those before them. -/
theorem putAt_behind (place : pos = done.length) (room : done.length + s.length ≤ size) :
    putAt size (put buf 0 done) pos s = some (put buf 0 (done ++ s)) := by
  rw [place, putAt, if_pos room, put_append, Nat.zero_add]

theorem ipItoa_behind (place : pos = done.length) (small : num < 10000) (room : done.length + (Decimal.text num).length ≤ size) :
    ipItoa size num (put buf 0 done) pos = some (put buf 0 (done ++ Decimal.text num), (Decimal.text num).length) := by
  rw [place, ipItoa_fits small room, put_append, Nat.zero_add]

end Writing

section Reading

variable {n v : Nat} {s rest : List Byte}

theorem isDigit_eq (c : Byte) : isDigit c = Decimal.isDigit c := rfl

theorem strtolDigits_eq (s : List Byte) (val : Int) : strtolDigits s val = Decimal.scan (Decimal.wrapped 64) val s := by
  induction s generalizing val with
  | nil => rfl
  | cons c s ih =>
      rw [strtolDigits, Decimal.scan, isDigit_eq, ih]
      rfl

/-- The loop keeps the number of its digits while that fits into a `long`. -/
theorem strtolDigits_append (digits : ∀ c ∈ s, Decimal.isDigit c = true) (stops : ∀ c ∈ rest.head?, Decimal.isDigit c = false)
    (small : Decimal.appended n s < 2 ^ 63) : strtolDigits (s ++ rest) n = (((Decimal.appended n s : Nat) : Int), rest) := by
  rw [strtolDigits_eq, Decimal.scan_append _ digits stops, Decimal.foldl_wrapped digits (by omega)]

/-- The text of a number gives its value, up to the first other character. -/
theorem strtol_text (small : v < 2 ^ 63) (stops : ∀ c ∈ rest.head?, Decimal.isDigit c = false) :
    strtol (Decimal.text v ++ rest) = ((v : Int), rest) := by
  have digits := Decimal.text_digits v
  have value : Decimal.appended 0 (Decimal.text v) = v := Decimal.value_text v
  have scanned := strtolDigits_append digits stops (by rw [value]; exact small)
  rw [value] at scanned
  cases text : Decimal.text v with
  | nil => exact absurd text (Decimal.text_ne_nil v)
  | cons c more =>
      rw [text] at digits scanned
      obtain ⟨low, high⟩ := Decimal.isDigit_iff.mp (digits c List.mem_cons_self)
      have other : ∀ d : Byte, d.toNat < 48 → c ≠ d := by
        rintro d small rfl
        omega
      have blank : ¬(c = 32 ∨ c = 9) := fun either => either.elim (other 32 (by decide)) (other 9 (by decide))
      have skipped : ((c :: more) ++ rest).dropWhile (fun c => c = 32 || c = 9) = (c :: more) ++ rest := by
        rw [List.cons_append, List.dropWhile_cons_of_neg]
        simpa using blank
      have head : ((c :: more) ++ rest).headD 0 = c := rfl
      rw [strtol, skipped, head]
      simp only [other 43 (by decide), other 45 (by decide), or_self, if_false]
      rw [Nat.cast_zero] at scanned
      rw [scanned]

/-- One byte of a text is read up to its separator. -/
theorem ptonBytes_octet (b : Byte) (left : Nat) (separated : rest.headD 0 = if left = 0 then 0 else chr '.') :
    ptonBytes (left + 1) (Decimal.text b.toNat ++ rest) = (ptonBytes left rest.tail).map (b :: ·) := by
  have small := b.isLt
  have stops : ∀ c ∈ rest.head?, Decimal.isDigit c = false := by
    intro c first
    cases rest with
    | nil => exact absurd first (Option.not_mem_none c)
    | cons d rest =>
        obtain rfl : d = c := Option.some.inj first
        rw [List.headD_cons] at separated
        rw [separated]
        split <;> rfl
  have scanned : strtol (Decimal.text b.toNat ++ rest) = ((b.toNat : Int), rest) := strtol_text (by omega) stops
  have read : rest.length ≠ (Decimal.text b.toNat ++ rest).length := by
    have some_digit := List.length_pos_iff.mpr (Decimal.text_ne_nil b.toNat)
    rw [List.length_append]
    omega
  have byte : BitVec.ofInt 8 (b.toNat : Int) = b := by
    rw [BitVec.ofInt_natCast, BitVec.ofNat_toNat, BitVec.setWidth_eq]
  have kept : ¬(rest.headD 0 ≠ if left = 0 then 0 else 46) := not_not.mpr separated
  rw [ptonBytes, scanned]
  simp only [if_neg (show ¬((b.toNat : Int) < 0 ∨ 255 < (b.toNat : Int)) by omega), if_neg read, if_neg kept, byte]

end Reading

section Address

variable {n : IpAddr} {size : Nat}

theorem octet_small (n : IpAddr) (i : Nat) : (octet n i).toNat < 10000 := Nat.lt_trans (octet n i).isLt (by decide)

/-- A byte has at most three digits. -/
theorem octet_length (n : IpAddr) (i : Nat) : (Decimal.text (octet n i).toNat).length ≤ 3 := by
  rw [Decimal.length_text_le (by decide)]
  exact Nat.lt_trans (octet n i).isLt (by decide)

theorem dotted_length (n : IpAddr) : (dotted n).length ≤ 15 := by
  have first := octet_length n 0
  have second := octet_length n 1
  have third := octet_length n 2
  have last := octet_length n 3
  simp only [dotted, List.length_append, List.length_singleton]
  omega

/-- The text of an address is written with its null byte. -/
theorem ipAddrNtop_text (n : IpAddr) (p : Memory) (room : ipAddrStrLen ≤ size) :
    ipAddrNtop n p size = some (put p 0 (dotted n ++ [0]), true) := by
  have size_room : 16 ≤ size := room
  have first := octet_length n 0
  have second := octet_length n 1
  have third := octet_length n 2
  have last := octet_length n 3
  obtain ⟨t0, e0⟩ : ∃ t, t = Decimal.text (octet n 0).toNat := ⟨_, rfl⟩
  obtain ⟨t1, e1⟩ : ∃ t, t = Decimal.text (octet n 1).toNat := ⟨_, rfl⟩
  obtain ⟨t2, e2⟩ : ∃ t, t = Decimal.text (octet n 2).toNat := ⟨_, rfl⟩
  obtain ⟨t3, e3⟩ : ∃ t, t = Decimal.text (octet n 3).toNat := ⟨_, rfl⟩
  rw [← e0] at first
  rw [← e1] at second
  rw [← e2] at third
  rw [← e3] at last
  have write0 : ipItoa size (octet n 0).toNat p 0 = some (put p 0 t0, t0.length) := by
    rw [ipItoa_fits (octet_small n 0) (by rw [← e0]; omega), ← e0]
  have dot0 : putAt size (put p 0 t0) (0 + t0.length) [chr '.'] = some (put p 0 (t0 ++ [chr '.'])) :=
    putAt_behind (by omega) (by simp; omega)
  have write1 : ipItoa size (octet n 1).toNat (put p 0 (t0 ++ [chr '.'])) (0 + t0.length + 1) =
      some (put p 0 (t0 ++ [chr '.'] ++ t1), t1.length) := by
    rw [ipItoa_behind (by simp) (octet_small n 1) (by rw [← e1]; simp; omega), ← e1]
  have dot1 : putAt size (put p 0 (t0 ++ [chr '.'] ++ t1)) (0 + t0.length + 1 + t1.length) [chr '.'] =
      some (put p 0 (t0 ++ [chr '.'] ++ t1 ++ [chr '.'])) := putAt_behind (by simp; omega) (by simp; omega)
  have write2 : ipItoa size (octet n 2).toNat (put p 0 (t0 ++ [chr '.'] ++ t1 ++ [chr '.'])) (0 + t0.length + 1 + t1.length + 1) =
      some (put p 0 (t0 ++ [chr '.'] ++ t1 ++ [chr '.'] ++ t2), t2.length) := by
    rw [ipItoa_behind (by simp; omega) (octet_small n 2) (by rw [← e2]; simp; omega), ← e2]
  have dot2 : putAt size (put p 0 (t0 ++ [chr '.'] ++ t1 ++ [chr '.'] ++ t2)) (0 + t0.length + 1 + t1.length + 1 + t2.length)
      [chr '.'] = some (put p 0 (t0 ++ [chr '.'] ++ t1 ++ [chr '.'] ++ t2 ++ [chr '.'])) :=
    putAt_behind (by simp; omega) (by simp; omega)
  have write3 : ipItoa size (octet n 3).toNat (put p 0 (t0 ++ [chr '.'] ++ t1 ++ [chr '.'] ++ t2 ++ [chr '.']))
      (0 + t0.length + 1 + t1.length + 1 + t2.length + 1) =
        some (put p 0 (t0 ++ [chr '.'] ++ t1 ++ [chr '.'] ++ t2 ++ [chr '.'] ++ t3), t3.length) := by
    rw [ipItoa_behind (by simp; omega) (octet_small n 3) (by rw [← e3]; simp; omega), ← e3]
  have ended : putAt size (put p 0 (t0 ++ [chr '.'] ++ t1 ++ [chr '.'] ++ t2 ++ [chr '.'] ++ t3))
      (0 + t0.length + 1 + t1.length + 1 + t2.length + 1 + t3.length) [0] =
        some (put p 0 (t0 ++ [chr '.'] ++ t1 ++ [chr '.'] ++ t2 ++ [chr '.'] ++ t3 ++ [0])) :=
    putAt_behind (by simp; omega) (by simp; omega)
  rw [ipAddrNtop, if_neg (Nat.not_lt.mpr room), dotted, ← e0, ← e1, ← e2, ← e3]
  simp only [bind, Option.bind, write0, dot0, write1, dot1, write2, dot2, write3, ended, pure]

/-- The text of an address is read back. -/
theorem ipAddrPton_dotted (n : IpAddr) : ipAddrPton (dotted n) = some n := by
  have parsed : ptonBytes 4 (dotted n) = some [octet n 0, octet n 1, octet n 2, octet n 3] := by
    have last : ptonBytes 1 (Decimal.text (octet n 3).toNat) = some [octet n 3] := by
      rw [← List.append_nil (Decimal.text _), ptonBytes_octet (octet n 3) 0 rfl]
      rfl
    rw [dotted, List.append_assoc, List.append_assoc, List.append_assoc, List.append_assoc, List.append_assoc,
      ptonBytes_octet (octet n 0) 3 rfl, List.singleton_append, List.tail_cons, ptonBytes_octet (octet n 1) 2 rfl,
      List.singleton_append, List.tail_cons, ptonBytes_octet (octet n 2) 1 rfl, List.singleton_append, List.tail_cons, last]
    rfl
  have whole : load (fun k => [octet n 0, octet n 1, octet n 2, octet n 3].getD k 0) 0 4 = n.toNat % 256 ^ 4 := by
    apply load_digits
    intro k below
    match k, below with
    | 0, _ => rfl
    | 1, _ => rfl
    | 2, _ => rfl
    | 3, _ => rfl
  rw [ipAddrPton, parsed, Option.map_some, load32, whole, Nat.mod_eq_of_lt (show n.toNat < 256 ^ 4 from n.isLt),
    BitVec.ofNat_toNat, BitVec.setWidth_eq]

/-- The text of an address has digits and dots only. -/
theorem dotted_chars (n : IpAddr) : ∀ c ∈ dotted n, Decimal.isDigit c = true ∨ c = chr '.' := by
  intro c listed
  simp only [dotted, List.mem_append, List.mem_singleton] at listed
  rcases listed with (((((digit | dot) | digit) | dot) | digit) | dot) | digit
  · exact Or.inl (Decimal.text_digits _ c digit)
  · exact Or.inr dot
  · exact Or.inl (Decimal.text_digits _ c digit)
  · exact Or.inr dot
  · exact Or.inl (Decimal.text_digits _ c digit)
  · exact Or.inr dot
  · exact Or.inl (Decimal.text_digits _ c digit)

theorem dotted_clean (n : IpAddr) {c : Byte} (digit : Decimal.isDigit c = false) (dot : c ≠ chr '.') : c ∉ dotted n := by
  intro listed
  rcases dotted_chars n c listed with here | here
  · rw [digit] at here
    exact Bool.false_ne_true here
  · exact dot here

end Address

section Endpoint

variable {ep : Endpoint}

theorem strrchr_absent {ch : Byte} {s : List Byte} (absent : ch ∉ s) : strrchr ch s = none := by
  induction s with
  | nil => rfl
  | cons c s ih =>
      rw [List.mem_cons, not_or] at absent
      rw [strrchr, ih absent.2]
      exact if_neg (Ne.symm absent.1)

/-- The last place of a character splits a string. -/
theorem strrchr_append {ch : Byte} {before behind : List Byte} (absent : ch ∉ behind) :
    strrchr ch (before ++ [ch] ++ behind) = some (before, behind) := by
  induction before with
  | nil =>
      rw [List.nil_append, List.singleton_append, strrchr, strrchr_absent absent]
      exact if_pos rfl
  | cons c before ih =>
      rw [List.append_assoc] at ih ⊢
      rw [List.cons_append, strrchr, ih]

theorem byteswap16_byteswap16 (v : BitVec 16) : byteswap16 (byteswap16 v) = v := by
  ext i below
  interval_cases i <;> simp [byteswap16]

/-- The text of a port behind the text of an address is read back. -/
theorem ipEndpointPton_text (positive : 0 < (ntoh16 ep.port).toNat) : ipEndpointPton (endpointText ep) = some (some ep) := by
  have absent : chr ':' ∉ Decimal.text (ntoh16 ep.port).toNat := fun listed =>
    Bool.false_ne_true (Decimal.text_digits _ _ listed)
  have below := (ntoh16 ep.port).isLt
  have short := dotted_length ep.addr
  have room : ¬ipAddrStrLen ≤ (dotted ep.addr).length := by
    have size : ipAddrStrLen = 16 := rfl
    omega
  have port : strtol (Decimal.text (ntoh16 ep.port).toNat) = (((ntoh16 ep.port).toNat : Int), []) := by
    rw [← List.append_nil (Decimal.text _)]
    exact strtol_text (by omega) fun c listed => absurd listed (Option.not_mem_none c)
  have swapped : hton16 (BitVec.ofInt 16 ((ntoh16 ep.port).toNat : Int)) = ep.port := by
    rw [BitVec.ofInt_natCast, BitVec.ofNat_toNat, BitVec.setWidth_eq]
    exact byteswap16_byteswap16 ep.port
  rw [ipEndpointPton, endpointText, strrchr_append absent]
  simp only [if_neg room, ipAddrPton_dotted, port, swapped]
  exact if_neg (by omega)

/-- The text of an address is the string in its buffer, where a colon replaces the null byte. -/
theorem ipEndpointNtop_colon (ep : Endpoint) (buf : Memory) : ipEndpointNtop ep buf ipEndpointStrLen =
    (ipItoa ipEndpointStrLen (ntoh16 ep.port).toNat (put buf 0 (dotted ep.addr ++ [chr ':'])) ((dotted ep.addr).length + 1)).bind
      fun (p, count) => putAt ipEndpointStrLen p ((dotted ep.addr).length + 1 + count) [0] := by
  have short := dotted_length ep.addr
  have size : ipEndpointStrLen = 22 := rfl
  have written : ipAddrNtop ep.addr buf ipEndpointStrLen = some (put buf 0 (dotted ep.addr ++ [0]), true) :=
    ipAddrNtop_text ep.addr buf (by decide)
  have clean : 0 ∉ dotted ep.addr := dotted_clean ep.addr rfl (by decide)
  have length : strlen (put buf 0 (dotted ep.addr ++ [0])) ipEndpointStrLen = some (dotted ep.addr).length := by
    have read : string (put buf 0 (dotted ep.addr ++ [0])) 0 ipEndpointStrLen = dotted ep.addr := string_put _ _ clean (by omega)
    rw [strlen, read]
    exact if_pos (by omega)
  have colon : putAt ipEndpointStrLen (put buf 0 (dotted ep.addr ++ [0])) (dotted ep.addr).length [chr ':'] =
      some (put buf 0 (dotted ep.addr ++ [chr ':'])) := by
    have exceeds := put_over buf 0 (dotted ep.addr) [] 0 (chr ':')
    rw [Nat.zero_add] at exceeds
    rw [putAt, exceeds]
    exact if_pos (by simp; omega)
  rw [ipEndpointNtop]
  simp only [bind, Option.bind, written, length, if_neg (show ¬ipEndpointStrLen ≤ (dotted ep.addr).length + 6 by omega), colon]

/-- A port of at most four digits is written behind the address. -/
theorem ipEndpointNtop_text (small : (ntoh16 ep.port).toNat < 10000) (buf : Memory) :
    ipEndpointNtop ep buf ipEndpointStrLen = some (put buf 0 (endpointText ep ++ [0])) := by
  have short := dotted_length ep.addr
  have size : ipEndpointStrLen = 22 := rfl
  have few : (Decimal.text (ntoh16 ep.port).toNat).length ≤ 4 := (Decimal.length_text_le (by decide)).mpr small
  have port : ipItoa ipEndpointStrLen (ntoh16 ep.port).toNat (put buf 0 (dotted ep.addr ++ [chr ':'])) ((dotted ep.addr).length + 1) =
      some (put buf 0 (endpointText ep), (Decimal.text (ntoh16 ep.port).toNat).length) :=
    ipItoa_behind (by simp) small (by simp; omega)
  have ended : putAt ipEndpointStrLen (put buf 0 (endpointText ep))
      ((dotted ep.addr).length + 1 + (Decimal.text (ntoh16 ep.port).toNat).length) [0] = some (put buf 0 (endpointText ep ++ [0])) :=
    putAt_behind (by simp [endpointText]; omega) (by simp [endpointText]; omega)
  rw [ipEndpointNtop_colon, port]
  exact ended

/-- A port of five digits is written outside the scratch array. -/
theorem ipEndpointNtop_overflows (large : 10000 ≤ (ntoh16 ep.port).toNat) (buf : Memory) :
    ipEndpointNtop ep buf ipEndpointStrLen = none := by
  rw [ipEndpointNtop_colon, ipItoa_overflows large]
  rfl

theorem endpointText_clean (ep : Endpoint) : 0 ∉ endpointText ep := by
  intro listed
  rw [endpointText, List.mem_append, List.mem_append, List.mem_singleton] at listed
  rcases listed with (addr | colon) | port
  · exact dotted_clean ep.addr rfl (by decide) addr
  · exact absurd colon (by decide)
  · exact Bool.false_ne_true (Decimal.text_digits _ _ port)

/-- The text of an address is written inside its buffer and gives the address back. -/
def AddrRoundTrip (n : IpAddr) : Prop := ∀ buf size, ipAddrStrLen ≤ size → ∃ after, ipAddrNtop n buf size = some (after, true) ∧
  string after 0 size = dotted n ∧ (∀ k, size ≤ k → after k = buf k) ∧ ipAddrPton (string after 0 size) = some n

/-- The text of an endpoint is written inside its buffer and gives the endpoint back. -/
def EndpointRoundTrip (ep : Endpoint) : Prop := ∀ buf, ∃ after, ipEndpointNtop ep buf ipEndpointStrLen = some after ∧
  string after 0 ipEndpointStrLen = endpointText ep ∧ (∀ k, ipEndpointStrLen ≤ k → after k = buf k) ∧
    ipEndpointPton (string after 0 ipEndpointStrLen) = some (some ep)

theorem addrRoundTrip (n : IpAddr) : AddrRoundTrip n := by
  intro buf size room
  have short := dotted_length n
  have least : ipAddrStrLen = 16 := rfl
  have clean : 0 ∉ dotted n := dotted_clean n rfl (by decide)
  have read : string (put buf 0 (dotted n ++ [0])) 0 size = dotted n := string_put _ _ clean (by omega)
  refine ⟨put buf 0 (dotted n ++ [0]), ipAddrNtop_text n buf room, read, fun k above => put_outside _ (Or.inr ?_), ?_⟩
  · rw [List.length_append, List.length_singleton]
    omega
  · rw [read]
    exact ipAddrPton_dotted n

/-- Addresses survive their texts, and endpoints do if and only if the port has at most four digits. -/
theorem text_roundTrip (ep : Endpoint) (positive : 0 < (ntoh16 ep.port).toNat) :
    AddrRoundTrip ep.addr ∧ EndpointRoundTrip ep ↔ (ntoh16 ep.port).toNat < 10000 := by
  constructor
  · rintro ⟨-, endpoint⟩
    by_contra large
    obtain ⟨after, written, -⟩ := endpoint fun _ => 0
    rw [ipEndpointNtop_overflows (Nat.le_of_not_lt large)] at written
    cases written
  · intro small
    refine ⟨addrRoundTrip ep.addr, fun buf => ?_⟩
    have short := dotted_length ep.addr
    have few : (Decimal.text (ntoh16 ep.port).toNat).length ≤ 4 := (Decimal.length_text_le (by decide)).mpr small
    have length : (endpointText ep).length ≤ 20 := by
      simp only [endpointText, List.length_append, List.length_singleton]
      omega
    have size : ipEndpointStrLen = 22 := rfl
    have read : string (put buf 0 (endpointText ep ++ [0])) 0 ipEndpointStrLen = endpointText ep :=
      string_put _ _ (endpointText_clean ep) (by omega)
    refine ⟨put buf 0 (endpointText ep ++ [0]), ipEndpointNtop_text small buf, read, fun k above => put_outside _ (Or.inr ?_), ?_⟩
    · rw [List.length_append, List.length_singleton]
      omega
    · rw [read]
      exact ipEndpointPton_text positive

/-- The server of the guest's chats is at port 80. -/
def httpEndpoint : Endpoint := ⟨0x0202000a, hton16 80⟩

/-- The endpoint with the last of the ports. -/
def lastEndpoint : Endpoint := ⟨0x0202000a, hton16 65535⟩

theorem text_roundTrip_http : AddrRoundTrip httpEndpoint.addr ∧ EndpointRoundTrip httpEndpoint :=
  (text_roundTrip httpEndpoint (by decide +kernel)).mpr (by decide +kernel)

theorem last_port_overflows :
    0 < (ntoh16 lastEndpoint.port).toNat ∧ ¬(AddrRoundTrip lastEndpoint.addr ∧ EndpointRoundTrip lastEndpoint) := by
  refine ⟨by decide +kernel, ?_⟩
  rintro ⟨-, endpoint⟩
  obtain ⟨after, written, -⟩ := endpoint fun _ => 0
  rw [ipEndpointNtop_overflows (by decide +kernel)] at written
  cases written

end Endpoint

end BtbuOs.Net
