import BtbuOs.Lib.Cursor
import BtbuOs.Lib.Decimal

namespace BtbuOs.Net.Http

open Bytes

/-- The statement `if (*p == c) p++`. -/
def skipChar (c : Byte) (p : List Byte) : List Byte := if p.head? = some c then p.tail else p

def http : List Byte := ascii "http"

/-- The pointer behind the scheme. -/
def skipScheme (p : List Byte) : List Byte :=
  if http.isPrefixOf p then skipChar (chr '/') (skipChar (chr '/') (skipChar (chr ':') (skipChar (chr 's') (p.drop 4)))) else p

/-- A loop that copies to an array with some room, and the pointer that it leaves. A string ends with its list. -/
def copyWhile (test : Byte → Bool) (room : Nat) : List Byte → List Byte × List Byte
  | [] => ([], [])
  | c :: p =>
      if test c = true ∧ 0 < room then (c :: (copyWhile test (room - 1) p).1, (copyWhile test (room - 1) p).2)
      else ([], c :: p)

def inHost (c : Byte) : Bool := c ≠ chr ':' && c ≠ chr '/'

/-- The number of a port is counted in 16 bits. -/
def portDigit (port : BitVec 16) (c : Byte) : BitVec 16 := port * 10 + (c - chr '0').setWidth 16

/-- The result of the function, and the strings and the number that it stores. -/
structure Parsed where
  ret : Int
  host : List Byte
  port : BitVec 16
  path : List Byte
  deriving DecidableEq

def httpParseUrl (url : List Byte) (hostSize pathSize : Nat) : Parsed :=
  let p := skipScheme url
  let (host, p) := copyWhile inHost (hostSize - 1) p
  let (port, p) := if p.head? = some (chr ':') then Decimal.scan portDigit 0 p.tail else (80, p)
  let path := if p.head? = some (chr '/') then (copyWhile (fun _ => true) (pathSize - 1) p).1 else [chr '/']
  ⟨0, host, port, path⟩

/-- The parts of a URL. -/
structure UrlParts where
  host : List Byte
  port : Nat
  path : List Byte
  deriving DecidableEq

/-- The texts of the schemes. -/
def schemes : List (List Byte) := [ascii "http://", ascii "https://"]

def scheme (url : List Byte) : List Byte := (schemes.find? fun s => s.isPrefixOf url).getD []

/-- The abstract meaning of a URL: behind the scheme come a host, a port of one digit at least, and a path, of which the
last two may be absent. Any other string is not a URL. -/
def urlParts (url : List Byte) : Option UrlParts :=
  let text := url.drop (scheme url).length
  let host := text.takeWhile inHost
  match text.dropWhile inHost with
  | [] => some ⟨host, 80, [chr '/']⟩
  | c :: rest =>
      if c = chr '/' then some ⟨host, 80, c :: rest⟩
      else if rest.takeWhile Decimal.isDigit = [] then none
      else
        match rest.dropWhile Decimal.isDigit with
        | [] => some ⟨host, Decimal.value (rest.takeWhile Decimal.isDigit), [chr '/']⟩
        | c :: path => if c = chr '/' then some ⟨host, Decimal.value (rest.takeWhile Decimal.isDigit), c :: path⟩ else none

/-- Every part fits in the place where it is stored. -/
def UrlParts.Fits (parts : UrlParts) (hostSize pathSize : Nat) : Prop :=
  parts.host.length < hostSize ∧ parts.port < 2 ^ 16 ∧ parts.path.length < pathSize

instance (parts : UrlParts) (hostSize pathSize : Nat) : Decidable (parts.Fits hostSize pathSize) :=
  inferInstanceAs (Decidable (_ ∧ _ ∧ _))

/-- The function gives the parts of a URL if they fit, and fails otherwise. -/
def Exact (url : List Byte) (hostSize pathSize : Nat) : Prop :=
  match urlParts url with
  | none => (httpParseUrl url hostSize pathSize).ret < 0
  | some parts =>
      if parts.Fits hostSize pathSize then
        httpParseUrl url hostSize pathSize = ⟨0, parts.host, BitVec.ofNat 16 parts.port, parts.path⟩
      else (httpParseUrl url hostSize pathSize).ret < 0

section Loops

variable {test : Byte → Bool} {room : Nat} {p s digits : List Byte} {c : Byte}

theorem copyWhile_eq (test : Byte → Bool) (room : Nat) (p : List Byte) :
    copyWhile test room p = ((p.takeWhile test).take room, p.drop ((p.takeWhile test).take room).length) := by
  induction p generalizing room with
  | nil => simp [copyWhile]
  | cons c p ih =>
      rw [copyWhile, List.takeWhile_cons]
      cases room with
      | zero => simp
      | succ room =>
          by_cases passed : test c = true
          · rw [if_pos ⟨passed, Nat.succ_pos room⟩, if_pos passed, Nat.add_sub_cancel, ih]
            rfl
          · rw [if_neg fun both => passed both.1, if_neg passed]
            rfl

/-- The copied part and the rest are no longer than the string. -/
theorem copyWhile_length (test : Byte → Bool) (room : Nat) (p : List Byte) :
    (copyWhile test room p).1.length ≤ p.length ∧ (copyWhile test room p).2.length ≤ p.length := by
  rw [copyWhile_eq, List.length_take, List.length_drop]
  have passed := (List.takeWhile_sublist test (l := p)).length_le
  constructor
  · omega
  · omega

/-- A part that fits is copied whole. -/
theorem copyWhile_fits (fits : (p.takeWhile test).length ≤ room) : copyWhile test room p = (p.takeWhile test, p.dropWhile test) := by
  have split : p.drop (p.takeWhile test).length = p.dropWhile test := by
    conv_lhs => arg 2; rw [← List.takeWhile_append_dropWhile (p := test) (l := p)]
    exact List.drop_left
  rw [copyWhile_eq, List.take_of_length_le fits, split]

theorem copyWhile_all (fits : p.length ≤ room) : (copyWhile (fun _ => true) room p).1 = p := by
  have whole : p.takeWhile (fun _ => true) = p := List.takeWhile_eq_self_iff.mpr fun c _ => rfl
  rw [copyWhile_eq, whole, List.take_of_length_le fits]

/-- The number of a port is taken modulo its width. -/
theorem foldl_portDigit (n : Nat) (all : ∀ c ∈ digits, Decimal.isDigit c = true) :
    digits.foldl portDigit (BitVec.ofNat 16 n) = BitVec.ofNat 16 (Decimal.appended n digits) := by
  induction digits generalizing n with
  | nil => rfl
  | cons c digits ih =>
      have step : portDigit (BitVec.ofNat 16 n) c = BitVec.ofNat 16 (n * 10 + Decimal.digitValue c) := by
        apply BitVec.eq_of_toNat_eq
        have small := Decimal.digitValue_lt (all c List.mem_cons_self)
        rw [Decimal.digitValue] at small ⊢
        have ten : (10 : BitVec 16).toNat = 10 := rfl
        simp only [portDigit, BitVec.toNat_add, BitVec.toNat_mul, BitVec.toNat_ofNat, BitVec.toNat_setWidth, ten]
        omega
      rw [List.foldl_cons, step, ih _ fun d listed => all d (List.mem_cons_of_mem c listed)]
      rfl

end Loops

section Schemes

variable {url : List Byte}

theorem inHost_false {c : Byte} (stop : inHost c = false) : c = chr ':' ∨ c = chr '/' := by
  rw [inHost, Bool.and_eq_false_iff, decide_eq_false_iff_not, decide_eq_false_iff_not, not_not, not_not] at stop
  exact stop

/-- A scheme is skipped whole, and a string without `http` at its start is not skipped. -/
theorem skipScheme_eq (known : scheme url ≠ [] ∨ ¬http <+: url) : skipScheme url = url.drop (scheme url).length := by
  by_cases plain : (ascii "http://").isPrefixOf url = true
  · obtain ⟨rest, rfl⟩ := List.isPrefixOf_iff_prefix.mp plain
    rfl
  · by_cases secure : (ascii "https://").isPrefixOf url = true
    · obtain ⟨rest, rfl⟩ := List.isPrefixOf_iff_prefix.mp secure
      rfl
    · have none : scheme url = [] := by simp [scheme, schemes, plain, secure]
      have other : ¬http.isPrefixOf url = true := by
        rw [List.isPrefixOf_iff_prefix]
        exact known.resolve_left (not_not.mpr none)
      rw [none, skipScheme, if_neg other]
      rfl

end Schemes

/-- The parts that fit are read exactly from the place where the function begins with the host. -/
theorem httpParseUrl_parts {url : List Byte} {parts : UrlParts} {hostSize pathSize : Nat}
    (start : skipScheme url = url.drop (scheme url).length) (read : urlParts url = some parts) (fits : parts.Fits hostSize pathSize) :
    httpParseUrl url hostSize pathSize = ⟨0, parts.host, BitVec.ofNat 16 parts.port, parts.path⟩ := by
  obtain ⟨hostFits, portFits, pathFits⟩ := fits
  obtain ⟨text, shape⟩ : ∃ text, text = url.drop (scheme url).length := ⟨_, rfl⟩
  rw [← shape] at start
  have host (fits : (text.takeWhile inHost).length < hostSize) : copyWhile inHost (hostSize - 1) text =
      (text.takeWhile inHost, text.dropWhile inHost) := copyWhile_fits (by omega)
  have path (p : List Byte) (fits : p.length < pathSize) : (copyWhile (fun _ => true) (pathSize - 1) p).1 = p :=
    copyWhile_all (by omega)
  unfold urlParts at read
  rw [← shape] at read
  dsimp only at read
  rw [httpParseUrl, start]
  split at read
  · rename_i behind
    obtain rfl := Option.some.inj read
    rw [host hostFits, behind]
    rfl
  · rename_i c rest behind
    have stop : inHost c = false := by
      have first := List.head_dropWhile_not inHost (l := text)
      simpa [behind] using first
    split at read
    · rename_i slash
      subst slash
      obtain rfl := Option.some.inj read
      simp only [host hostFits, behind, List.head?_cons, if_neg (show ¬some (chr '/') = some (chr ':') by decide), if_true,
        path _ pathFits]
      rfl
    · rename_i other
      obtain rfl := (inHost_false stop).resolve_right other
      have port : Decimal.scan portDigit 0 rest =
          (BitVec.ofNat 16 (Decimal.value (rest.takeWhile Decimal.isDigit)), rest.dropWhile Decimal.isDigit) := by
        rw [Decimal.scan_eq]
        exact congrArg (fun n => (n, _)) (foldl_portDigit 0 fun c listed => List.mem_takeWhile_imp listed)
      split at read
      · cases read
      · split at read
        · rename_i ended
          obtain rfl := Option.some.inj read
          simp only [host hostFits, behind, List.head?_cons, List.tail_cons, if_true, port, ended]
          rfl
        · rename_i d more ended
          split at read
          · rename_i slash
            subst slash
            obtain rfl := Option.some.inj read
            simp only [host hostFits, behind, List.head?_cons, List.tail_cons, if_true, port, ended, path _ pathFits]
          · cases read

theorem urlParts_host {url : List Byte} {parts : UrlParts} (read : urlParts url = some parts) :
    parts.host = (url.drop (scheme url).length).takeWhile inHost := by
  unfold urlParts at read
  dsimp only at read
  split at read
  · rw [← Option.some.inj read]
  · split at read
    · rw [← Option.some.inj read]
    · split at read
      · cases read
      · split at read
        · rw [← Option.some.inj read]
        · split at read
          · rw [← Option.some.inj read]
          · cases read

/-- A colon stands in front of a digit. -/
theorem urlParts_colon {url rest : List Byte} {parts : UrlParts} (read : urlParts url = some parts)
    (behind : (url.drop (scheme url).length).dropWhile inHost = chr ':' :: rest) : rest.takeWhile Decimal.isDigit ≠ [] := by
  intro empty
  simp [urlParts, behind, empty, chr] at read

theorem urlParts_slash {url rest : List Byte} {parts : UrlParts} (read : urlParts url = some parts)
    (behind : (url.drop (scheme url).length).dropWhile inHost = chr '/' :: rest) : parts.path = chr '/' :: rest := by
  simp only [urlParts, behind, if_true] at read
  rw [← Option.some.inj read]

theorem skipChar_length (c : Byte) (p : List Byte) : (skipChar c p).length ≤ p.length := by
  rw [skipChar]
  split
  · rw [List.length_tail]
    exact Nat.sub_le _ 1
  · exact Nat.le_refl _

theorem skipChar_cons {c d : Byte} (p : List Byte) (other : d ≠ c) : skipChar c (d :: p) = d :: p :=
  if_neg fun same => other (Option.some.inj same)

theorem skipChar_self (c : Byte) (p : List Byte) : skipChar c (c :: p) = p := if_pos rfl

/-- The path is read from what is left behind the host. -/
theorem httpParseUrl_path (url : List Byte) (hostSize pathSize : Nat) :
    (httpParseUrl url hostSize pathSize).path = [chr '/'] ∨
      (httpParseUrl url hostSize pathSize).path.length ≤ (skipScheme url).length := by
  obtain ⟨host, p, copied⟩ : ∃ host p, copyWhile inHost (hostSize - 1) (skipScheme url) = (host, p) := ⟨_, _, rfl⟩
  have first := (copyWhile_length inHost (hostSize - 1) (skipScheme url)).2
  obtain ⟨port, q, counted⟩ : ∃ port q, (if p.head? = some (chr ':') then Decimal.scan portDigit 0 p.tail else (80, p)) = (port, q) :=
    ⟨_, _, rfl⟩
  have second : q.length ≤ p.length := by
    split at counted
    · have left : (Decimal.scan portDigit 0 p.tail).2.length ≤ p.tail.length := Decimal.scan_left 0 p.tail
      rw [counted, List.length_tail] at left
      dsimp only at left
      omega
    · exact Nat.le_of_eq (congrArg List.length (Prod.ext_iff.mp counted).2.symm)
  rw [copied] at first
  have third := (copyWhile_length (fun _ => true) (pathSize - 1) q).1
  simp only [httpParseUrl, copied, counted]
  split
  · exact Or.inr (Nat.le_trans third (Nat.le_trans second first))
  · exact Or.inl rfl

theorem httpParseUrl_host (url : List Byte) (hostSize pathSize : Nat) :
    (httpParseUrl url hostSize pathSize).host = ((skipScheme url).takeWhile inHost).take (hostSize - 1) := by
  rw [httpParseUrl, copyWhile_eq]

/-- The stored strings end within their arrays, and a path begins with a slash. -/
theorem httpParseUrl_fits (url : List Byte) {hostSize pathSize : Nat} (hostRoom : 0 < hostSize) (pathRoom : 1 < pathSize) :
    (httpParseUrl url hostSize pathSize).host.length < hostSize ∧ (httpParseUrl url hostSize pathSize).path.length < pathSize ∧
      (httpParseUrl url hostSize pathSize).path.head? = some (chr '/') := by
  refine ⟨?_, ?_⟩
  · rw [httpParseUrl_host, List.length_take]
    omega
  · obtain ⟨host, p, copied⟩ : ∃ host p, copyWhile inHost (hostSize - 1) (skipScheme url) = (host, p) := ⟨_, _, rfl⟩
    obtain ⟨port, q, counted⟩ : ∃ port q,
      (if p.head? = some (chr ':') then Decimal.scan portDigit 0 p.tail else (80, p)) = (port, q) := ⟨_, _, rfl⟩
    simp only [httpParseUrl, copied, counted]
    split
    · rename_i slash
      obtain ⟨rest, rfl⟩ := List.head?_eq_some_iff.mp slash
      rw [copyWhile_eq, List.takeWhile_cons_of_pos rfl, List.length_take, List.head?_take, if_neg (by omega)]
      exact ⟨by omega, rfl⟩
    · exact ⟨pathRoom, rfl⟩

/-- A string behind `http` and a string without another letter of the scheme. -/
theorem skipChar_host (t : List Byte) : (skipChar (chr 's') t = t ∨ t = chr 's' :: skipChar (chr 's') t) := by
  rw [skipChar]
  split
  · rename_i letter
    obtain ⟨rest, rfl⟩ := List.head?_eq_some_iff.mp letter
    exact Or.inr rfl
  · exact Or.inl rfl

/-- Without a scheme, a host that begins with `http` loses its beginning. -/
theorem httpParseUrl_skips {url : List Byte} {parts : UrlParts} {hostSize pathSize : Nat} (bare : scheme url = [])
    (named : http <+: url) (read : urlParts url = some parts) :
    httpParseUrl url hostSize pathSize ≠ ⟨0, parts.host, BitVec.ofNat 16 parts.port, parts.path⟩ := by
  intro exact
  obtain ⟨t, rfl⟩ := named
  have hosts := congrArg Parsed.host exact
  have paths := congrArg Parsed.path exact
  have letters : ∀ c ∈ http, inHost c = true := by decide
  have whole : parts.host = http ++ t.takeWhile inHost := by
    rw [urlParts_host read, bare, List.length_nil, List.drop_zero, List.takeWhile_append_of_pos letters]
  obtain ⟨u, second⟩ : ∃ u, u = skipChar (chr 's') t := ⟨_, rfl⟩
  have begins : skipScheme (http ++ t) = skipChar (chr '/') (skipChar (chr '/') (skipChar (chr ':') u)) := by
    rw [second]
    rfl
  have size : http.length = 4 := rfl
  rw [httpParseUrl_host, whole, begins] at hosts
  have lengths := congrArg List.length hosts
  rw [List.length_take, List.length_append, size] at lengths
  cases u with
  | nil =>
      change min _ 0 = _ at lengths
      omega
  | cons c u =>
      have behind : t.dropWhile inHost = (c :: u).dropWhile inHost ∧ (c :: u).takeWhile inHost <:+ t.takeWhile inHost := by
        rcases skipChar_host t with same | letter
        · rw [← second] at same
          rw [same]
          exact ⟨rfl, List.suffix_refl _⟩
        · rw [← second] at letter
          rw [letter]
          exact ⟨rfl, List.suffix_cons _ _⟩
      have shorter := behind.2.length_le
      have text : ((http ++ t).drop (scheme (http ++ t)).length).dropWhile inHost = (c :: u).dropWhile inHost := by
        rw [bare, List.length_nil, List.drop_zero, List.dropWhile_append_of_pos letters, behind.1]
      by_cases plain : inHost c = true
      · -- The host that is read is shorter than the one of the URL.
        have colon : c ≠ chr ':' := fun same => absurd plain (by rw [same]; decide)
        have slash : c ≠ chr '/' := fun same => absurd plain (by rw [same]; decide)
        rw [skipChar_cons u colon, skipChar_cons u slash, skipChar_cons u slash] at lengths
        omega
      · rw [List.dropWhile_cons_of_neg plain] at text
        rcases inHost_false (Bool.eq_false_iff.mpr plain) with rfl | rfl
        · -- The digits of the port are read as a host.
          have digits := urlParts_colon read text
          cases u with
          | nil => exact digits rfl
          | cons d v =>
              rw [List.takeWhile_cons] at digits
              have digit : Decimal.isDigit d = true := by
                by_contra other
                exact digits (if_neg other)
              have slash : d ≠ chr '/' := fun same => absurd digit (by rw [same]; decide)
              have colon : d ≠ chr ':' := fun same => absurd digit (by rw [same]; decide)
              have inside : inHost d = true := by
                by_contra stop
                rcases inHost_false (Bool.eq_false_iff.mpr stop) with same | same
                · exact colon same
                · exact slash same
              rw [skipChar_self, skipChar_cons v slash, skipChar_cons v slash, List.takeWhile_cons_of_pos inside] at hosts
              have first := congrArg List.head? hosts
              rw [List.head?_take, List.head?_cons] at first
              split at first
              · cases first
              · have letter : d = chr 'h' := Option.some.inj first
                exact absurd digit (by rw [letter]; decide)
        · -- The path that is read has not the slash that is skipped.
          rw [skipChar_cons u (by decide), skipChar_self] at begins lengths
          have path := httpParseUrl_path (http ++ t) hostSize pathSize
          have short := skipChar_length (chr '/') u
          rw [paths, begins, urlParts_slash read text] at path
          rcases path with single | longer
          · obtain rfl := (List.cons.inj single).2
            change min _ 0 = _ at lengths
            omega
          · rw [List.length_cons] at longer
            omega

/-- The function is exact on the URLs whose parts fit, without a host that begins with `http` in the place of a scheme. -/
theorem httpParseUrl_exact_iff (url : List Byte) (hostSize pathSize : Nat) : Exact url hostSize pathSize ↔
    (∃ parts, urlParts url = some parts ∧ parts.Fits hostSize pathSize) ∧ (scheme url ≠ [] ∨ ¬http <+: url) := by
  have always : ¬(httpParseUrl url hostSize pathSize).ret < 0 := Int.lt_irrefl 0
  rw [Exact]
  cases read : urlParts url with
  | none => simp [always]
  | some parts =>
      dsimp only
      by_cases fits : parts.Fits hostSize pathSize
      · rw [if_pos fits]
        constructor
        · intro exact
          refine ⟨⟨parts, rfl, fits⟩, ?_⟩
          by_contra skipped
          obtain ⟨bare, named⟩ := not_or.mp skipped
          exact httpParseUrl_skips (not_not.mp bare) (not_not.mp named) read exact
        · rintro ⟨-, known⟩
          exact httpParseUrl_parts (skipScheme_eq known) read fits
      · rw [if_neg fits]
        refine iff_of_false always ?_
        rintro ⟨⟨other, same, fitting⟩, -⟩
        obtain rfl := Option.some.inj same
        exact fits fitting

/-- The text of a URL with all parts has them as its meaning. -/
theorem urlParts_text {front host rest : List Byte} (port : Nat) (known : front ∈ [] :: schemes)
    (plain : ∀ c ∈ host, inHost c = true) :
    urlParts (front ++ (host ++ chr ':' :: (Decimal.text port ++ chr '/' :: rest))) = some ⟨host, port, chr '/' :: rest⟩ := by
  obtain ⟨text, shape⟩ : ∃ text, text = host ++ chr ':' :: (Decimal.text port ++ chr '/' :: rest) := ⟨_, rfl⟩
  have bare : ∀ name : List Byte, chr ':' ∉ name → ¬name ++ [chr ':'] ++ [chr '/', chr '/'] <+: text := by
    intro name absent begins
    have colon : chr ':' ∉ host := fun listed => absurd (plain _ listed) (by decide)
    rw [shape] at begins
    have same : name = host :=
      (Cursor.prefix_separated absent colon).mp ((List.prefix_append _ _).trans begins)
    rw [same, List.append_assoc, List.prefix_append_right_inj] at begins
    cases digits : Decimal.text port with
    | nil => exact Decimal.text_ne_nil port digits
    | cons d more =>
        have digit := Decimal.text_digits port d (by rw [digits]; exact List.mem_cons_self)
        rw [digits, List.singleton_append, List.cons_prefix_cons, List.cons_append, List.cons_prefix_cons] at begins
        rw [← begins.2.1] at digit
        exact absurd digit (by decide)
  have drop : (front ++ text).drop (scheme (front ++ text)).length = text := by
    simp only [schemes, List.mem_cons, List.not_mem_nil, or_false] at known
    rcases known with rfl | rfl | rfl
    · have none : scheme text = [] := by
        have first : (ascii "http://").isPrefixOf text = false := by
          rw [Bool.eq_false_iff, ne_eq, List.isPrefixOf_iff_prefix]
          exact bare (ascii "http") (by decide)
        have second : (ascii "https://").isPrefixOf text = false := by
          rw [Bool.eq_false_iff, ne_eq, List.isPrefixOf_iff_prefix]
          exact bare (ascii "https") (by decide)
        simp [scheme, schemes, first, second]
      rw [List.nil_append, none]
      rfl
    · rfl
    · rfl
  have digits : (Decimal.text port ++ chr '/' :: rest).takeWhile Decimal.isDigit = Decimal.text port := by
    rw [List.takeWhile_append_of_pos (Decimal.text_digits port), List.takeWhile_cons_of_neg (by decide), List.append_nil]
  have behind : (Decimal.text port ++ chr '/' :: rest).dropWhile Decimal.isDigit = chr '/' :: rest :=
    Cursor.dropWhile_passed (Decimal.text_digits port) (by decide)
  have hosts : text.takeWhile inHost = host := by
    rw [shape, List.takeWhile_append_of_pos plain, List.takeWhile_cons_of_neg (by decide), List.append_nil]
  have ports : text.dropWhile inHost = chr ':' :: (Decimal.text port ++ chr '/' :: rest) := by
    rw [shape]
    exact Cursor.dropWhile_passed plain (by decide)
  rw [← shape, urlParts, drop]
  simp only [hosts, ports, digits, behind, Decimal.value_text, if_neg (Decimal.text_ne_nil port), if_true,
    if_neg (show ¬chr ':' = chr '/' by decide)]

/-- A port of five digits that does not fit in 16 bits is wrapped, and a host without a scheme loses its beginning. -/
theorem httpParseUrl_wraps : ¬Exact (ascii "10.0.2.2:65616/") 64 128 ∧ ¬Exact (ascii "httpd:80/") 64 128 := by
  have wrapped : urlParts (ascii "10.0.2.2:65616/") = some ⟨ascii "10.0.2.2", 65616, [chr '/']⟩ := by decide +kernel
  have bare : urlParts (ascii "httpd:80/") = some ⟨ascii "httpd", 80, [chr '/']⟩ := by decide +kernel
  rw [Exact, wrapped, Exact, bare]
  decide +kernel

end BtbuOs.Net.Http
