import BtbuOs.Lib.Json
import BtbuOs.Net.Extract

namespace BtbuOs.Net.AiApi

open Bytes
open Json (Item Hex4 Escape)

/-- The character that the loop writes for an item: it does not know two of the escapes. -/
def shown : Item → Char
  | .simple .backspace => 'b'
  | .simple .formFeed => 'f'
  | item => item.character

/-- The bytes that the loop writes for an item with some room; only an unescaped character is cut. -/
def part (room : Int) : Item → List Byte
  | .raw c _ _ => (Utf8.encode c).take room.toNat
  | item => Utf8.encode (shown item)

/-- The bytes that the loop writes before there is no room. -/
def stored (room : Int) : List Item → List Byte
  | [] => []
  | item :: items => if 0 < room then part room item ++ stored (room - (part room item).length) items else []

/-- The end of the room lies inside an unescaped character. -/
def Straddled (room : Int) (items : List Item) : Prop := ∃ before c visible plain after,
  items = before ++ .raw c visible plain :: after ∧ ((Json.bytes before).length : Int) < room ∧
    room < (Json.bytes before).length + (Utf8.encode c).length

/-- A text in which the first key is followed by a string literal. -/
structure Answer where
  before : List Byte
  blanks : List Byte
  items : List Item
  behind : List Byte
  clean : 0 ∉ before ∧ 0 ∉ behind
  clear : Json.Blanks blanks
  first : ∀ k < before.length, ¬contentKey <+: (before ++ contentKey).drop k

namespace Answer

def text (a : Answer) : List Byte := a.before ++ (contentKey ++ (a.blanks ++ (Json.literal a.items ++ a.behind)))

/-- The decoded string. -/
def value (a : Answer) : List Byte := Json.bytes a.items

end Answer

/-- A value that fits is written with its null byte and its length is returned, and whatever is written is well formed. -/
structure Decodes (a : Answer) (content : Memory) (contentSize : Int) : Prop where
  whole : (a.value.length : Int) ≤ contentSize - 4 →
    extractContent a.text content contentSize = ((a.value.length : Int), put content 0 (a.value ++ [0]))
  wellFormed : Utf8.WellFormed
    (slice (extractContent a.text content contentSize).2 0 (extractContent a.text content contentSize).1.toNat)

section Encoding

/-- A mark above a number is added to it. -/
theorem mark_byte (mark i : Nat) {x : BitVec 32} {n : Nat} (value : x.toNat = n) (small : n < 2 ^ i) (known : 2 ^ i * mark < 256) :
    (BitVec.ofNat 32 (2 ^ i * mark) ||| x).setWidth 8 = (UInt8.ofNat (n + 2 ^ i * mark)).toBitVec := by
  apply BitVec.eq_of_toNat_eq
  have sum : 2 ^ i * mark ||| n = 2 ^ i * mark + n := (Nat.two_pow_add_eq_or_of_lt small mark).symm
  have small_mark : 2 ^ i * mark % 2 ^ 32 = 2 ^ i * mark := Nat.mod_eq_of_lt (by omega)
  have byte : (UInt8.ofNat (n + 2 ^ i * mark)).toBitVec.toNat = (n + 2 ^ i * mark) % 256 := rfl
  rw [BitVec.toNat_setWidth, BitVec.toNat_or, BitVec.toNat_ofNat, value, small_mark, sum, byte, Nat.add_comm]

theorem tail_byte (x : BitVec 32) : (0x80 ||| (x &&& 0x3F)).setWidth 8 = (UInt8.ofNat (x.toNat % 0x40 + 0x80)).toBitVec := by
  have value : (x &&& 0x3F).toNat = x.toNat % 2 ^ 6 := by
    rw [BitVec.toNat_and]
    exact Nat.and_two_pow_sub_one_eq_mod x.toNat 6
  exact mark_byte 2 6 value (Nat.mod_lt _ (by decide)) (by decide)

/-- With room for four bytes, the bytes of a character are its encoding. -/
theorem encodeUtf8_char (c : Char) {bufsize : Int} (room : 4 ≤ bufsize) : encodeUtf8 (BitVec.ofNat 32 c.toNat) bufsize = Utf8.encode c := by
  have limit : c.toNat < 0x110000 := by
    have valid := c.valid
    change c.toNat < 0xD800 ∨ 0xDFFF < c.toNat ∧ c.toNat < 0x110000 at valid
    omega
  obtain ⟨x, code⟩ : ∃ x, x = BitVec.ofNat 32 c.toNat := ⟨_, rfl⟩
  have value : x.toNat = c.toNat := by
    rw [code, BitVec.toNat_ofNat]
    omega
  have below (y : BitVec 32) : x < y ↔ c.toNat < y.toNat := by rw [BitVec.lt_def, value]
  have shift (s : Nat) : (x >>> s).toNat = c.toNat / 2 ^ s := by rw [BitVec.toNat_ushiftRight, value, Nat.shiftRight_eq_div_pow]
  have second : (0x80 ||| (x >>> 6 &&& 0x3F)).setWidth 8 = (UInt8.ofNat (c.toNat / 64 % 0x40 + 0x80)).toBitVec := by
    rw [show c.toNat / 64 = (x >>> 6).toNat from (shift 6).symm]
    exact tail_byte (x >>> 6)
  have third : (0x80 ||| (x >>> 12 &&& 0x3F)).setWidth 8 = (UInt8.ofNat (c.toNat / 4096 % 0x40 + 0x80)).toBitVec := by
    rw [show c.toNat / 4096 = (x >>> 12).toNat from (shift 12).symm]
    exact tail_byte (x >>> 12)
  have last : (0x80 ||| (x &&& 0x3F)).setWidth 8 = (UInt8.ofNat (c.toNat % 0x40 + 0x80)).toBitVec := by rw [tail_byte, value]
  rw [← code, encodeUtf8, Utf8.encode, String.utf8EncodeChar, show c.val.toNat = c.toNat from rfl]
  by_cases one : c.toNat < 0x80
  · rw [if_pos ((below 0x80).mpr one), if_neg (by omega), if_pos (Nat.le_of_lt_succ one)]
    have byte : x.setWidth 8 = (UInt8.ofNat c.toNat).toBitVec := by
      rw [code, BitVec.setWidth_ofNat_of_le (by decide)]
      rfl
    exact congrArg (fun b => [b]) byte
  · rw [if_neg ((below 0x80).not.mpr one), if_neg (fun low => one (Nat.lt_succ_of_le low))]
    by_cases two : c.toNat < 0x800
    · have lead : (0xC0 ||| x >>> 6).setWidth 8 = (UInt8.ofNat (c.toNat / 64 % 0x20 + 0xc0)).toBitVec := by
        have small : c.toNat / 64 % 0x20 = c.toNat / 2 ^ 6 := by omega
        rw [small]
        exact mark_byte 6 5 (shift 6) (by omega) (by decide)
      rw [if_pos ((below 0x800).mpr two), if_neg (by omega), if_pos (Nat.le_of_lt_succ two), lead, last]
      rfl
    · rw [if_neg ((below 0x800).not.mpr two), if_neg (fun low => two (Nat.lt_succ_of_le low))]
      by_cases three : c.toNat < 0x10000
      · have lead : (0xE0 ||| x >>> 12).setWidth 8 = (UInt8.ofNat (c.toNat / 4096 % 0x10 + 0xe0)).toBitVec := by
          have small : c.toNat / 4096 % 0x10 = c.toNat / 2 ^ 12 := by omega
          rw [small]
          exact mark_byte 14 4 (shift 12) (by omega) (by decide)
        rw [if_pos ((below 0x10000).mpr three), if_neg (by omega), if_pos (Nat.le_of_lt_succ three), lead, second, last]
        rfl
      · have lead : (0xF0 ||| x >>> 18).setWidth 8 = (UInt8.ofNat (c.toNat / 262144 % 8 + 0xf0)).toBitVec := by
          have small : c.toNat / 262144 % 8 = c.toNat / 2 ^ 18 := by omega
          rw [small]
          exact mark_byte 30 3 (shift 18) (by omega) (by decide)
        rw [if_neg ((below 0x10000).not.mpr three), if_neg (fun low => three (Nat.lt_succ_of_le low)),
          if_pos ((below 0x110000).mpr limit), if_neg (by omega), lead, third, second, last]
        rfl

/-- A digit is put behind a number. -/
theorem shift_digit {n d : Nat} (small : n < 2 ^ 12) (digit : d < 16) :
    BitVec.ofNat 32 n <<< 4 ||| BitVec.ofNat 32 d = BitVec.ofNat 32 (n * 16 + d) := by
  apply BitVec.eq_of_toNat_eq
  have shifted : (BitVec.ofNat 32 n <<< 4).toNat = 2 ^ 4 * n := by
    rw [BitVec.toNat_shiftLeft, BitVec.toNat_ofNat, Nat.shiftLeft_eq]
    omega
  rw [BitVec.toNat_or, shifted, BitVec.toNat_ofNat, BitVec.toNat_ofNat, Nat.mod_eq_of_lt (show d < 2 ^ 32 by omega),
    ← Nat.two_pow_add_eq_or_of_lt digit n]
  omega

theorem hexDigit_byte (h : Json.HexDigit) : hexDigit h.byte = some (BitVec.ofNat 32 h.value) := by
  cases h with
  | digit d =>
      revert d
      decide
  | lower d =>
      revert d
      decide
  | upper d =>
      revert d
      decide

theorem parseUnicodeEscape_text (u : Hex4) (rest : List Byte) : parseUnicodeEscape (u.text ++ rest) = some (BitVec.ofNat 32 u.value) := by
  have first := u.first.value_lt
  have second := u.second.value_lt
  have third := u.third.value_lt
  have fourth := u.fourth.value_lt
  have start : (0 : BitVec 32) = BitVec.ofNat 32 0 := rfl
  rw [parseUnicodeEscape, Hex4.text, Hex4.value]
  simp only [List.cons_append, List.nil_append, parseDigits, hexDigit_byte, Option.bind_some]
  rw [start, shift_digit (by omega) first, Nat.zero_mul, Nat.zero_add, shift_digit (by omega) second, shift_digit (by omega) third,
    shift_digit (by omega) fourth]

theorem joinSurrogates_single {n : Nat} (p : List Byte) (small : n < 2 ^ 16) (plain : ¬(0xD800 ≤ n ∧ n < 0xDC00)) :
    joinSurrogates (BitVec.ofNat 32 n) p = (BitVec.ofNat 32 n, p) := by
  apply if_neg
  rw [BitVec.le_def, BitVec.le_def, BitVec.toNat_ofNat, Nat.mod_eq_of_lt (by omega)]
  change ¬(0xD800 ≤ n ∧ n ≤ 0xDBFF)
  omega

theorem ofNat_sub {a b : Nat} (le : b ≤ a) (small : a < 2 ^ 32) : BitVec.ofNat 32 a - BitVec.ofNat 32 b = BitVec.ofNat 32 (a - b) := by
  apply BitVec.eq_of_toNat_eq
  rw [BitVec.toNat_sub, BitVec.toNat_ofNat, BitVec.toNat_ofNat, BitVec.toNat_ofNat]
  omega

theorem ofNat_shift (n : Nat) : BitVec.ofNat 32 n <<< 10 = BitVec.ofNat 32 (n * 0x400) := by
  apply BitVec.eq_of_toNat_eq
  rw [BitVec.toNat_shiftLeft, BitVec.toNat_ofNat, BitVec.toNat_ofNat, Nat.shiftLeft_eq]
  omega

theorem joinSurrogates_pair {high low : Hex4} (leads : 0xD800 ≤ high.value ∧ high.value < 0xDC00)
    (trails : 0xDC00 ≤ low.value ∧ low.value < 0xE000) (rest : List Byte) :
    joinSurrogates (BitVec.ofNat 32 high.value) (high.text ++ chr '\\' :: chr 'u' :: (low.text ++ rest)) =
      (BitVec.ofNat 32 (0x10000 + (high.value - 0xD800) * 0x400 + (low.value - 0xDC00)), low.text ++ rest) := by
  have first : 0xD800 ≤ BitVec.ofNat 32 high.value ∧ BitVec.ofNat 32 high.value ≤ 0xDBFF := by
    rw [BitVec.le_def, BitVec.le_def, BitVec.toNat_ofNat, Nat.mod_eq_of_lt (by omega)]
    exact ⟨leads.1, Nat.le_of_lt_succ leads.2⟩
  have second : 0xDC00 ≤ BitVec.ofNat 32 low.value ∧ BitVec.ofNat 32 low.value ≤ 0xDFFF := by
    rw [BitVec.le_def, BitVec.le_def, BitVec.toNat_ofNat, Nat.mod_eq_of_lt (by omega)]
    exact ⟨trails.1, Nat.le_of_lt_succ trails.2⟩
  have behind : (high.text ++ chr '\\' :: chr 'u' :: (low.text ++ rest)).drop 6 = low.text ++ rest := rfl
  have joined : 0x10000 + (BitVec.ofNat 32 high.value - 0xD800) <<< 10 + (BitVec.ofNat 32 low.value - 0xDC00) =
      BitVec.ofNat 32 (0x10000 + (high.value - 0xD800) * 0x400 + (low.value - 0xDC00)) := by
    have lead : BitVec.ofNat 32 high.value - 0xD800 = BitVec.ofNat 32 (high.value - 0xD800) := ofNat_sub leads.1 (by omega)
    have trail : BitVec.ofNat 32 low.value - 0xDC00 = BitVec.ofNat 32 (low.value - 0xDC00) := ofNat_sub trails.1 (by omega)
    rw [lead, trail, ofNat_shift, BitVec.ofNat_add, BitVec.ofNat_add]
    rfl
  rw [joinSurrogates, if_pos first, if_pos ⟨rfl, rfl⟩, behind, parseUnicodeEscape_text]
  dsimp only
  rw [if_pos second, joined]

end Encoding

section Loop

variable {contentSize : Int} {rounds i : Nat} {content : Memory} {t rest : List Byte}

/-- Without room the loop ends. -/
theorem extractLoop_full {pending : Bool} (full : ¬i < contentSize - 4) :
    extractLoop contentSize rounds t i pending content = (content, i) := by
  cases rounds with
  | zero => rfl
  | succ rounds =>
      cases t with
      | nil => rfl
      | cons c t => rw [extractLoop, if_neg full]

/-- Plain bytes are copied while there is room. -/
theorem extractLoop_plain (plain : ∀ b ∈ t, b ≠ chr '"' ∧ b ≠ chr '\\') :
    extractLoop contentSize (rounds + t.length) (t ++ rest) i false content =
      extractLoop contentSize rounds rest (i + (t.take (contentSize - 4 - i).toNat).length) false
        (put content i (t.take (contentSize - 4 - i).toNat)) := by
  induction t generalizing i content with
  | nil => simp [put]
  | cons b t ih =>
      obtain ⟨quote, backslash⟩ := plain b List.mem_cons_self
      by_cases room : i < contentSize - 4
      · have left : (contentSize - 4 - i).toNat = (contentSize - 4 - (i + 1 : Nat)).toNat + 1 := by omega
        rw [List.length_cons, List.cons_append, ← Nat.add_assoc, extractLoop, if_pos room, if_neg Bool.false_ne_true, if_neg backslash,
          if_neg quote, ih fun c listed => plain c (List.mem_cons_of_mem b listed), left, List.take_succ_cons, List.length_cons,
          Nat.add_assoc, Nat.add_comm 1]
        rfl
      · have none : (contentSize - 4 - i).toNat = 0 := by omega
        rw [none, List.take_zero, extractLoop_full room, extractLoop_full (by simpa using room)]
        rfl

theorem unescape_letter (e : Escape) : e.letter ≠ chr 'u' ∧ [unescape e.letter] = Utf8.encode (shown (.simple e)) := by
  cases e <;> decide

/-- An item is an unescaped character, or it begins with a backslash and is written whole. -/
theorem item_cases (item : Item) : (∃ c visible plain, item = .raw c visible plain) ∨
    item.text.head? = some (chr '\\') ∧ 2 ≤ item.text.length ∧ ∀ room, part room item = Utf8.encode (shown item) := by
  cases item with
  | raw c visible plain => exact Or.inl ⟨c, visible, plain, rfl⟩
  | simple e => exact Or.inr ⟨rfl, Nat.le_refl 2, fun room => rfl⟩
  | unit u c same => exact Or.inr ⟨rfl, by simp [Item.text], fun room => rfl⟩
  | pair high low c leads trails same => exact Or.inr ⟨rfl, by simp [Item.text], fun room => rfl⟩

/-- With room, an escape is written whole. -/
theorem extractLoop_item {item : Item} (room : i < contentSize - 4) (escapes : item.text.head? = some (chr '\\')) :
    extractLoop contentSize (rounds + 2) (item.text ++ rest) i false content =
      extractLoop contentSize rounds rest (i + (Utf8.encode (shown item)).length) false (put content i (Utf8.encode (shown item))) := by
  have surrogate (c : Char) : ¬(0xD800 ≤ c.toNat ∧ c.toNat < 0xDC00) := by
    have valid := c.valid
    change c.toNat < 0xD800 ∨ 0xDFFF < c.toNat ∧ c.toNat < 0x110000 at valid
    omega
  have begun (s : List Byte) : extractLoop contentSize (rounds + 2) (chr '\\' :: s) i false content =
      extractLoop contentSize (rounds + 1) s i true content := by
    rw [extractLoop, if_pos room, if_neg Bool.false_ne_true, if_pos rfl]
  cases item with
  | raw c visible plain =>
      have first : chr '\\' ∈ Utf8.encode c := List.mem_of_mem_head? escapes
      exact absurd rfl (Json.raw_bytes visible plain _ first).2.2
  | simple e =>
      obtain ⟨letter, written⟩ := unescape_letter e
      rw [← written, Item.text, List.cons_append, List.singleton_append, begun, extractLoop, if_pos room, if_pos rfl, if_neg letter]
      rfl
  | unit u c same =>
      rw [Item.text, List.cons_append, List.cons_append, begun, extractLoop, if_pos room, if_pos rfl, if_pos rfl, parseUnicodeEscape_text]
      dsimp only
      rw [joinSurrogates_single _ u.value_lt (same ▸ surrogate c), same]
      dsimp only
      rw [encodeUtf8_char c (by omega)]
      rfl
  | pair high low c leads trails same =>
      rw [Item.text, List.cons_append, List.cons_append, List.append_assoc, List.cons_append, List.cons_append, begun, extractLoop,
        if_pos room, if_pos rfl, if_pos rfl, parseUnicodeEscape_text]
      dsimp only
      rw [joinSurrogates_pair leads trails, ← same]
      dsimp only
      rw [encodeUtf8_char c (by omega)]
      rfl

/-- The loop writes what it can of the items and ends behind the literal. -/
theorem extractLoop_items {items : List Item} (enough : (Json.inner items).length < rounds) :
    extractLoop contentSize rounds (Json.inner items ++ chr '"' :: rest) i false content =
      (put content i (stored (contentSize - 4 - i) items), i + (stored (contentSize - 4 - i) items).length) := by
  induction items generalizing rounds i content with
  | nil =>
      obtain ⟨n, rfl⟩ : ∃ n, rounds = n + 1 := ⟨rounds - 1, by omega⟩
      simp [Json.inner, stored, extractLoop, put, chr]
  | cons item items ih =>
      have whole : Json.inner (item :: items) = item.text ++ Json.inner items := rfl
      rw [whole, List.length_append] at enough
      rw [whole, List.append_assoc, stored]
      by_cases room : i < contentSize - 4
      · have later (n : Nat) (written : List Byte) (left : (Json.inner items).length < n) :
            extractLoop contentSize n (Json.inner items ++ chr '"' :: rest) (i + written.length) false (put content i written) =
              (put content i (written ++ stored (contentSize - 4 - i - written.length) items),
                i + (written ++ stored (contentSize - 4 - i - written.length) items).length) := by
          have rest_room : contentSize - 4 - ((i + written.length : Nat) : Int) = contentSize - 4 - i - written.length := by omega
          rw [ih left, rest_room, put_append, List.length_append, Nat.add_assoc]
        rw [if_pos (by omega)]
        rcases item_cases item with ⟨c, visible, plain, rfl⟩ | ⟨escapes, long, same⟩
        · rw [Item.text] at enough ⊢
          obtain ⟨n, rfl⟩ : ∃ n, rounds = n + (Utf8.encode c).length := ⟨rounds - (Utf8.encode c).length, by omega⟩
          rw [extractLoop_plain fun b listed => (Json.raw_bytes visible plain b listed).2]
          exact later n _ (by omega)
        · obtain ⟨n, rfl⟩ : ∃ n, rounds = n + 2 := ⟨rounds - 2, by omega⟩
          rw [extractLoop_item room escapes, later n _ (by omega), same]
      · rw [if_neg (by omega), extractLoop_full room]
        rfl

end Loop

section Storing

variable {room : Int} {items : List Item}

theorem shown_length (item : Item) : (Utf8.encode (shown item)).length = (Utf8.encode item.character).length := by
  cases item with
  | simple e => cases e <;> decide
  | raw | unit | pair => rfl

theorem shown_eq_iff (item : Item) : shown item = item.character ↔ item ≠ .simple .backspace ∧ item ≠ .simple .formFeed := by
  cases item with
  | simple e => cases e <;> simp [shown, Item.character, Escape.character]
  | raw | unit | pair => simp [shown]

theorem part_whole {item : Item} (fits : ((Utf8.encode item.character).length : Int) ≤ room) : part room item = Utf8.encode (shown item) := by
  rcases item_cases item with ⟨c, visible, plain, rfl⟩ | ⟨-, -, same⟩
  · change ((Utf8.encode c).length : Int) ≤ room at fits
    exact List.take_of_length_le (by omega)
  · exact same room

theorem stored_none (none : ¬0 < room) : stored room items = [] := by
  cases items with
  | nil => rfl
  | cons item items => exact if_neg none

/-- Items that fit are written whole. -/
theorem stored_whole (fits : ((Json.bytes items).length : Int) ≤ room) : stored room items = Utf8.encoded (items.map shown) := by
  induction items generalizing room with
  | nil => rfl
  | cons item items ih =>
      rw [Json.bytes_cons, List.length_append] at fits
      have positive := (Utf8.encode_length_bounds item.character).1
      rw [stored, if_pos (by omega), part_whole (by omega), ih (by rw [shown_length]; omega)]
      rfl

/-- The written value is the decoded one exactly without the two escapes. -/
theorem shown_bytes_iff : Utf8.encoded (items.map shown) = Json.bytes items ↔
    ∀ item ∈ items, item ≠ .simple .backspace ∧ item ≠ .simple .formFeed := by
  constructor
  · intro same item listed
    have maps := Utf8.encoded_injective same
    exact (shown_eq_iff item).mp (List.map_inj_left.mp maps item listed)
  · intro plain
    rw [Json.bytes, Json.decoded, List.map_congr_left fun item listed => (shown_eq_iff item).mpr (plain item listed)]

theorem straddled_cons (item : Item) (positive : 0 < room) : Straddled room (item :: items) ↔
    (∃ c visible plain, item = .raw c visible plain ∧ room < (Utf8.encode c).length) ∨
      Straddled (room - (Utf8.encode item.character).length) items := by
  constructor
  · rintro ⟨before, c, visible, plain, after, split, below, beyond⟩
    cases before with
    | nil =>
        obtain ⟨rfl, rfl⟩ := List.cons.inj split
        exact Or.inl ⟨c, visible, plain, rfl, by simpa [Json.bytes, Json.decoded, Utf8.encoded] using beyond⟩
    | cons other before =>
        obtain ⟨rfl, rfl⟩ := List.cons.inj split
        rw [Json.bytes_cons, List.length_append] at below beyond
        exact Or.inr ⟨before, c, visible, plain, after, rfl, by omega, by omega⟩
  · rintro (⟨c, visible, plain, rfl, beyond⟩ | ⟨before, c, visible, plain, after, rfl, below, beyond⟩)
    · exact ⟨[], c, visible, plain, items, rfl, positive, by simpa [Json.bytes, Json.decoded, Utf8.encoded] using beyond⟩
    · refine ⟨item :: before, c, visible, plain, after, rfl, ?_, ?_⟩
      · rw [Json.bytes_cons, List.length_append]
        omega
      · rw [Json.bytes_cons, List.length_append]
        omega

/-- What is written is well formed unless the end of the room cuts a character. -/
theorem stored_wellFormed_iff : Utf8.WellFormed (stored room items) ↔ ¬Straddled room items := by
  induction items generalizing room with
  | nil =>
      refine iff_of_true ⟨[], rfl⟩ ?_
      rintro ⟨before, c, visible, plain, after, split, -, -⟩
      exact absurd split (by simp)
  | cons item items ih =>
      by_cases positive : 0 < room
      · rw [stored, if_pos positive, straddled_cons item positive, not_or]
        rcases item_cases item with ⟨c, visible, plain, rfl⟩ | ⟨escapes, -, same⟩
        · by_cases fits : ((Utf8.encode c).length : Int) ≤ room
          · have uncut : ¬∃ d visible' plain', Item.raw c visible plain = .raw d visible' plain' ∧ room < (Utf8.encode d).length := by
              rintro ⟨d, visible', plain', same, beyond⟩
              obtain rfl := Item.raw.inj same
              omega
            have whole : part room (.raw c visible plain) = Utf8.encode (shown (.raw c visible plain)) := part_whole fits
            rw [whole, and_iff_right uncut, shown_length, ← ih]
            exact Utf8.wellFormed_behind
          · refine iff_of_false ?_ fun both => both.1 ⟨c, visible, plain, rfl, not_le.mp fits⟩
            have length : ((Utf8.encode c).take room.toNat).length = room.toNat := by
              rw [List.length_take]
              omega
            have ended : ¬0 < room - ((Utf8.encode c).take room.toNat).length := by omega
            have some_part : (Utf8.encode c).take room.toNat ≠ [] := List.ne_nil_of_length_pos (by omega)
            have some_rest : (Utf8.encode c).drop room.toNat ≠ [] := List.ne_nil_of_length_pos (by rw [List.length_drop]; omega)
            rw [part, stored_none ended, List.append_nil, ← List.nil_append (List.take _ _)]
            exact Utf8.cut_malformed ⟨[], rfl⟩ some_part (List.take_append_drop _ _) some_rest
        · have uncut : ¬∃ c visible plain, item = .raw c visible plain ∧ room < (Utf8.encode c).length := by
            rintro ⟨c, visible, plain, rfl, -⟩
            exact (Json.raw_bytes visible plain _ (List.mem_of_mem_head? escapes)).2.2 rfl
          rw [same, and_iff_right uncut, shown_length, ← ih]
          exact Utf8.wellFormed_behind
      · rw [stored, if_neg positive]
        refine iff_of_true ⟨[], rfl⟩ ?_
        rintro ⟨before, c, visible, plain, after, -, below, -⟩
        omega

end Storing

section Extraction

variable {before rest needle : List Byte}

/-- The search ends at the first place of the needle. -/
theorem aiStrstr_first (first : ∀ k < before.length, ¬needle <+: (before ++ rest).drop k) (here : needle <+: rest)
    (some_rest : rest ≠ []) : aiStrstr (before ++ rest) needle = some rest := by
  induction before with
  | nil =>
      obtain ⟨h, t, rfl⟩ := List.exists_cons_of_ne_nil some_rest
      rw [List.nil_append, aiStrstr, if_pos (starts_iff.mpr here)]
  | cons h before ih =>
      have absent : ¬starts (h :: (before ++ rest)) needle = true := fun found =>
        first 0 (Nat.succ_pos _) (starts_iff.mp found)
      rw [List.cons_append, aiStrstr, if_neg absent]
      exact ih fun k below => first (k + 1) (Nat.succ_lt_succ below)

/-- What comes back is what the loop stores for the items. -/
theorem extractContent_answer (a : Answer) (content : Memory) (contentSize : Int) :
    extractContent a.text content contentSize =
      (((stored (contentSize - 4) a.items).length : Int), put content 0 (stored (contentSize - 4) a.items ++ [0])) := by
  obtain ⟨more, rest⟩ : ∃ more, more = a.blanks ++ (Json.literal a.items ++ a.behind) := ⟨_, rfl⟩
  have text : a.text = a.before ++ (contentKey ++ more) := by rw [rest, Answer.text]
  have found : aiStrstr a.text contentKey = some (contentKey ++ more) := by
    rw [text]
    apply aiStrstr_first
    · intro k below begins
      rw [← List.append_assoc, List.drop_append_of_le_length (by rw [List.length_append]; omega)] at begins
      refine a.first k below (List.prefix_of_prefix_length_le begins (List.prefix_append _ _) ?_)
      rw [List.length_drop, List.length_append]
      omega
    · exact List.prefix_append _ _
    · exact List.cons_ne_nil _ _
  have literal : more.dropWhile blank = chr '"' :: (Json.inner a.items ++ chr '"' :: a.behind) := by
    have shape : more = a.blanks ++ chr '"' :: (Json.inner a.items ++ chr '"' :: a.behind) := by
      rw [rest, Json.literal]
      simp
    rw [shape]
    exact Cursor.dropWhile_passed a.clear (by decide)
  have read : extractLoop contentSize (Json.inner a.items ++ chr '"' :: a.behind).length (Json.inner a.items ++ chr '"' :: a.behind) 0
      false content = (put content 0 (stored (contentSize - 4) a.items), (stored (contentSize - 4) a.items).length) := by
    rw [extractLoop_items (by rw [List.length_append, List.length_cons]; omega), Nat.zero_add]
    simp
  unfold extractContent
  simp only [show aiStrstr a.text (ascii "\"content\":") = some (contentKey ++ more) from found]
  rw [show (contentKey ++ more).drop 10 = more from rfl, literal]
  dsimp only
  rw [if_pos rfl, read, put_append, Nat.zero_add]

/-- The decoder keeps its word exactly when a string that fits has none of two escapes, and the end of the room cuts no
unescaped character. -/
theorem decodes_iff (a : Answer) (content : Memory) (contentSize : Int) : Decodes a content contentSize ↔
    ((a.value.length : Int) ≤ contentSize - 4 → ∀ item ∈ a.items, item ≠ .simple .backspace ∧ item ≠ .simple .formFeed) ∧
      ¬Straddled (contentSize - 4) a.items := by
  have written : slice (put content 0 (stored (contentSize - 4) a.items ++ [0])) 0 (stored (contentSize - 4) a.items).length =
      stored (contentSize - 4) a.items := slice_put_append _ _ _ _
  constructor
  · rintro ⟨whole, wellFormed⟩
    rw [extractContent_answer] at whole wellFormed
    dsimp only at wellFormed
    rw [Int.toNat_natCast, written] at wellFormed
    refine ⟨fun fits => ?_, stored_wellFormed_iff.mp wellFormed⟩
    have same := whole fits
    rw [Prod.mk.injEq, Nat.cast_inj] at same
    have values : stored (contentSize - 4) a.items = a.value := by
      rw [← written, same.2, same.1]
      exact slice_put_append _ _ _ _
    rw [stored_whole fits] at values
    exact shown_bytes_iff.mp values
  · rintro ⟨plain, uncut⟩
    constructor
    · intro fits
      have same : stored (contentSize - 4) a.items = a.value := (stored_whole fits).trans (shown_bytes_iff.mpr (plain fits))
      rw [extractContent_answer, same]
    · rw [extractContent_answer]
      dsimp only
      rw [Int.toNat_natCast, written]
      exact stored_wellFormed_iff.mpr uncut

/-- An answer whose content is one escaped backspace. -/
def backspaceAnswer : Answer where
  before := ascii "\x7b"
  blanks := []
  items := [.simple .backspace]
  behind := ascii "\x7d"
  clean := by decide
  clear := by decide
  first := by decide

/-- An answer whose content is one character of two bytes. -/
def accentAnswer : Answer where
  before := ascii "\x7b"
  blanks := []
  items := [.raw 'é' (by decide) (by decide)]
  behind := ascii "\x7d"
  clean := by decide
  clear := by decide
  first := by decide

/-- A backspace comes back as a letter, and a buffer that ends inside of a character holds a part of it. -/
theorem content_misread :
    Json.Document (.object [("content".toList, .string ['\x08'])]) backspaceAnswer.text ∧
      ¬Decodes backspaceAnswer (fun _ => 0) 4096 ∧
    Json.Document (.object [("content".toList, .string ['é'])]) accentAnswer.text ∧ ¬Decodes accentAnswer (fun _ => 0) 5 := by
  have document (items : List Item) (a : Answer) (shape : a.text = ascii "\x7b\"content\":" ++ Json.literal items ++ ascii "\x7d") :
      Json.Document (.object [("content".toList, .string (Json.decoded items))]) a.text := by
    obtain ⟨key, name, written⟩ : ∃ key, Json.decoded key = "content".toList ∧ Json.inner key = "content".toList.map chr :=
      Json.exists_word (by simp)
    have none : Json.Blanks [] := by decide
    have member : Json.Shows (.members [(Json.decoded key, .string (Json.decoded items))])
        ([] ++ Json.literal key ++ [] ++ chr ':' :: ([] ++ Json.literal items ++ [])) :=
      Json.Shows.member none none (Json.Shows.padded none (Json.Shows.string items) none)
    have whole := Json.Shows.padded none (Json.Shows.object member) none
    rw [name] at whole
    have text : a.text = [] ++ (chr '\x7b' :: ([] ++ Json.literal key ++ [] ++ chr ':' :: ([] ++ Json.literal items ++ [])) ++ [chr '\x7d']) ++ [] := by
      rw [shape, Json.literal, Json.literal, written]
      simp [ascii]
    rw [Json.Document, text]
    exact whole
  refine ⟨document backspaceAnswer.items backspaceAnswer rfl, ?_, document accentAnswer.items accentAnswer rfl, ?_⟩
  · intro kept
    have whole := kept.whole (by decide)
    rw [extractContent_answer] at whole
    have first := congrFun (congrArg Prod.snd whole) 0
    exact absurd first (by decide +kernel)
  · intro kept
    have wellFormed := kept.wellFormed
    rw [extractContent_answer] at wellFormed
    dsimp only at wellFormed
    rw [Int.toNat_natCast, slice_put_append] at wellFormed
    exact stored_wellFormed_iff.mp wellFormed ⟨[], 'é', by decide, by decide, [], rfl, by decide, by decide⟩

end Extraction

end BtbuOs.Net.AiApi
