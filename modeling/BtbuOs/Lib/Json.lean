import BtbuOs.Lib.Decimal
import BtbuOs.Lib.Utf8

namespace Json

open Bytes

/-- The escapes of one letter. -/
inductive Escape where
  | quote | backslash | slash | backspace | formFeed | newline | carriage | tab
  deriving DecidableEq

namespace Escape

def letter : Escape → Byte
  | quote => chr '"'
  | backslash => chr '\\'
  | slash => chr '/'
  | backspace => chr 'b'
  | formFeed => chr 'f'
  | newline => chr 'n'
  | carriage => chr 'r'
  | tab => chr 't'

def character : Escape → Char
  | quote => '"'
  | backslash => '\\'
  | slash => '/'
  | backspace => '\x08'
  | formFeed => '\x0c'
  | newline => '\n'
  | carriage => '\r'
  | tab => '\t'

end Escape

/-- A hexadecimal digit has small or large letters. -/
inductive HexDigit where
  | digit (d : Fin 10)
  | lower (d : Fin 6)
  | upper (d : Fin 6)

namespace HexDigit

def byte : HexDigit → Byte
  | digit d => chr '0' + BitVec.ofNat 8 d
  | lower d => chr 'a' + BitVec.ofNat 8 d
  | upper d => chr 'A' + BitVec.ofNat 8 d

def value : HexDigit → Nat
  | digit d => d
  | lower d => 10 + d
  | upper d => 10 + d

end HexDigit

/-- The four digits of an escape by number. -/
structure Hex4 where
  first : HexDigit
  second : HexDigit
  third : HexDigit
  fourth : HexDigit

namespace Hex4

def text (u : Hex4) : List Byte := [u.first.byte, u.second.byte, u.third.byte, u.fourth.byte]

def value (u : Hex4) : Nat := ((u.first.value * 16 + u.second.value) * 16 + u.third.value) * 16 + u.fourth.value

end Hex4

/-- What stands for a character in a string literal. -/
inductive Item where
  | raw (c : Char) (visible : 0x20 ≤ c.toNat) (plain : c ≠ '"' ∧ c ≠ '\\')
  | simple (e : Escape)
  | unit (u : Hex4) (c : Char) (shown : u.value = c.toNat)
  | pair (high low : Hex4) (c : Char) (leads : 0xD800 ≤ high.value ∧ high.value < 0xDC00)
      (trails : 0xDC00 ≤ low.value ∧ low.value < 0xE000)
      (shown : c.toNat = 0x10000 + (high.value - 0xD800) * 0x400 + (low.value - 0xDC00))

namespace Item

def text : Item → List Byte
  | raw c _ _ => Utf8.encode c
  | simple e => [chr '\\', e.letter]
  | unit u _ _ => chr '\\' :: chr 'u' :: u.text
  | pair high low _ _ _ _ => chr '\\' :: chr 'u' :: (high.text ++ chr '\\' :: chr 'u' :: low.text)

def character : Item → Char
  | raw c _ _ => c
  | simple e => e.character
  | unit _ c _ => c
  | pair _ _ c _ _ _ => c

end Item

/-- The text between the quotes of a literal. -/
def inner (items : List Item) : List Byte := items.flatMap Item.text

def literal (items : List Item) : List Byte := chr '"' :: inner items ++ [chr '"']

def decoded (items : List Item) : List Char := items.map Item.character

/-- The bytes that a literal stands for. -/
def bytes (items : List Item) : List Byte := Utf8.encoded (decoded items)

def isBlank (c : Byte) : Bool := c = chr ' ' ∨ c = chr '\t' ∨ c = chr '\n' ∨ c = chr '\r'

def Blanks (s : List Byte) : Prop := ∀ c ∈ s, isBlank c = true

instance (s : List Byte) : Decidable (Blanks s) := inferInstanceAs (Decidable (∀ c ∈ s, isBlank c = true))

def Digits (s : List Byte) : Prop := s ≠ [] ∧ ∀ c ∈ s, Decimal.isDigit c = true

/-- A sign, digits without leading zeros, a fraction and an exponent. -/
structure IsNumber (sign whole fraction exponent : List Byte) : Prop where
  signed : sign = [] ∨ sign = [chr '-']
  digits : Digits whole
  short : whole.head? = some (chr '0') → whole = [chr '0']
  fractional : fraction = [] ∨ ∃ s, Digits s ∧ fraction = chr '.' :: s
  scaled : exponent = [] ∨ ∃ e sign s, (e = chr 'e' ∨ e = chr 'E') ∧ (sign = [] ∨ sign = [chr '+'] ∨ sign = [chr '-']) ∧
    Digits s ∧ exponent = e :: (sign ++ s)

inductive Value where
  | null
  | boolean (b : Bool)
  | number (text : List Byte)
  | string (cs : List Char)
  | array (elements : List Value)
  | object (members : List (List Char × Value))

namespace Value

/-- The member of an object with a name. -/
def member (name : String) : Value → Option Value
  | object members => members.lookup name.toList
  | _ => none

def element (k : Nat) : Value → Option Value
  | array elements => elements[k]?
  | _ => none

end Value

/-- What the parts of a text stand for: a value, a value between blanks, the elements of an array, the members of an object. -/
inductive Part where
  | value (v : Value)
  | padded (v : Value)
  | elements (vs : List Value)
  | members (ms : List (List Char × Value))

/-- The grammar of texts. -/
inductive Shows : Part → List Byte → Prop where
  | null : Shows (.value .null) (ascii "null")
  | true : Shows (.value (.boolean true)) (ascii "true")
  | false : Shows (.value (.boolean false)) (ascii "false")
  | number {sign whole fraction exponent : List Byte} : IsNumber sign whole fraction exponent →
      Shows (.value (.number (sign ++ whole ++ fraction ++ exponent))) (sign ++ whole ++ fraction ++ exponent)
  | string (items : List Item) : Shows (.value (.string (decoded items))) (literal items)
  | emptyArray {b : List Byte} : Blanks b → Shows (.value (.array [])) (chr '[' :: b ++ [chr ']'])
  | array {vs : List Value} {t : List Byte} : Shows (.elements vs) t → Shows (.value (.array vs)) (chr '[' :: t ++ [chr ']'])
  | emptyObject {b : List Byte} : Blanks b → Shows (.value (.object [])) (chr '\x7b' :: b ++ [chr '\x7d'])
  | object {ms : List (List Char × Value)} {t : List Byte} : Shows (.members ms) t →
      Shows (.value (.object ms)) (chr '\x7b' :: t ++ [chr '\x7d'])
  | padded {v : Value} {b t b' : List Byte} : Blanks b → Shows (.value v) t → Blanks b' → Shows (.padded v) (b ++ t ++ b')
  | element {v : Value} {t : List Byte} : Shows (.padded v) t → Shows (.elements [v]) t
  | elements {v : Value} {vs : List Value} {t t' : List Byte} : Shows (.padded v) t → Shows (.elements vs) t' →
      Shows (.elements (v :: vs)) (t ++ chr ',' :: t')
  | member {items : List Item} {v : Value} {b b' t : List Byte} : Blanks b → Blanks b' → Shows (.padded v) t →
      Shows (.members [(decoded items, v)]) (b ++ literal items ++ b' ++ chr ':' :: t)
  | members {items : List Item} {v : Value} {ms : List (List Char × Value)} {b b' t t' : List Byte} : Blanks b → Blanks b' →
      Shows (.padded v) t → Shows (.members ms) t' →
      Shows (.members ((decoded items, v) :: ms)) (b ++ literal items ++ b' ++ chr ':' :: (t ++ chr ',' :: t'))

/-- A text is a value between blanks. -/
def Document (v : Value) (t : List Byte) : Prop := Shows (.padded v) t

/-- Whether a place is outside the literals, inside of one, or behind a backslash of one. -/
inductive Mode where
  | outside
  | inside
  | escaped
  deriving DecidableEq

/-- The depth of brackets, which literals do not change. -/
def step : Int × Mode → Byte → Int × Mode
  | (depth, .outside), c =>
      if c = chr '"' then (depth, .inside)
      else if c = chr '[' ∨ c = chr '\x7b' then (depth + 1, .outside)
      else if c = chr ']' ∨ c = chr '\x7d' then (depth - 1, .outside)
      else (depth, .outside)
  | (depth, .inside), c => if c = chr '\\' then (depth, .escaped) else if c = chr '"' then (depth, .outside) else (depth, .inside)
  | (depth, .escaped), _ => (depth, .inside)

def scan (start : Int × Mode) (t : List Byte) : Int × Mode := t.foldl step start

/-- The bytes that change the place or the depth. -/
def marks : List Byte := [chr '"', chr '[', chr ']', chr '\x7b', chr '\x7d']

/-- The text is one of characters, with no control character but blanks, and it closes what it opens. -/
structure Balanced (t : List Byte) : Prop where
  wellFormed : Utf8.WellFormed t
  visible : ∀ c ∈ t, 0x20 ≤ c.toNat ∨ isBlank c = true
  level : ∀ depth, scan (depth, .outside) t = (depth, .outside)

section Literals

theorem bytes_append (first second : List Item) : bytes (first ++ second) = bytes first ++ bytes second := by
  rw [bytes, decoded, List.map_append, Utf8.encoded_append]
  rfl

theorem bytes_cons (item : Item) (items : List Item) : bytes (item :: items) = Utf8.encode item.character ++ bytes items := rfl

variable {d : Int} {t : List Byte}

theorem scan_append (start : Int × Mode) (s t : List Byte) : scan start (s ++ t) = scan (scan start s) t := List.foldl_append

theorem chr_toNat {c : Char} (low : c.toNat < 128) : (chr c).toNat = c.toNat := by
  rw [chr, BitVec.toNat_ofNat]
  omega

theorem chr_injective {c e : Char} (low : c.toNat < 128) (small : e.toNat < 128) (same : chr c = chr e) : c = e := by
  have equal := congrArg BitVec.toNat same
  rw [chr_toNat low, chr_toNat small] at equal
  exact Char.toNat_inj.mp equal

/-- The bytes of an unescaped character end no literal and begin no escape. -/
theorem raw_bytes {c : Char} (visible : 0x20 ≤ c.toNat) (plain : c ≠ '"' ∧ c ≠ '\\') :
    ∀ b ∈ Utf8.encode c, 0x20 ≤ b.toNat ∧ b ≠ chr '"' ∧ b ≠ chr '\\' := by
  intro b listed
  by_cases low : c.toNat < 128
  · rw [Utf8.encode_ascii low, List.mem_singleton] at listed
    subst listed
    rw [chr_toNat low]
    exact ⟨visible, fun same => plain.1 (chr_injective low (by decide) same), fun same => plain.2 (chr_injective low (by decide) same)⟩
  · have high := (Utf8.encode_high (Nat.not_lt.mp low)).2 b listed
    refine ⟨by omega, ?_, ?_⟩
    · rintro rfl
      exact absurd high (by decide)
    · rintro rfl
      exact absurd high (by decide)

theorem Escape.letter_visible (e : Escape) : 0x20 ≤ e.letter.toNat := by cases e <;> decide

theorem HexDigit.byte_plain (h : HexDigit) : 0x20 ≤ h.byte.toNat ∧ h.byte ≠ chr '"' ∧ h.byte ≠ chr '\\' := by
  cases h with
  | digit d =>
      revert d
      decide
  | lower d =>
      revert d
      decide
  | upper d =>
      revert d
      decide

theorem HexDigit.byte_low (h : HexDigit) : h.byte.toNat < 128 := by
  cases h with
  | digit d =>
      revert d
      decide
  | lower d =>
      revert d
      decide
  | upper d =>
      revert d
      decide

theorem HexDigit.value_lt (h : HexDigit) : h.value < 16 := by
  cases h <;> simp only [HexDigit.value] <;> omega

theorem Hex4.value_lt (u : Hex4) : u.value < 2 ^ 16 := by
  have first := u.first.value_lt
  have second := u.second.value_lt
  have third := u.third.value_lt
  have fourth := u.fourth.value_lt
  unfold Hex4.value
  omega

theorem Hex4.text_plain (u : Hex4) : ∀ b ∈ u.text, 0x20 ≤ b.toNat ∧ b ≠ chr '"' ∧ b ≠ chr '\\' := by
  intro b listed
  simp only [Hex4.text, List.mem_cons, List.not_mem_nil, or_false] at listed
  rcases listed with rfl | rfl | rfl | rfl
  all_goals exact HexDigit.byte_plain _

theorem Item.text_visible (item : Item) : ∀ b ∈ item.text, 0x20 ≤ b.toNat := by
  intro b listed
  have mark : 0x20 ≤ (chr '\\').toNat ∧ 0x20 ≤ (chr 'u').toNat := by decide
  cases item with
  | raw c visible plain => exact (raw_bytes visible plain b listed).1
  | simple e =>
      simp only [Item.text, List.mem_cons, List.not_mem_nil, or_false] at listed
      rcases listed with rfl | rfl
      · exact mark.1
      · exact e.letter_visible
  | unit u c shown =>
      simp only [Item.text, List.mem_cons] at listed
      rcases listed with rfl | rfl | digit
      · exact mark.1
      · exact mark.2
      · exact (u.text_plain b digit).1
  | pair high low c leads trails shown =>
      simp only [Item.text, List.mem_cons, List.mem_append] at listed
      rcases listed with rfl | rfl | digit | rfl | rfl | digit
      · exact mark.1
      · exact mark.2
      · exact (high.text_plain b digit).1
      · exact mark.1
      · exact mark.2
      · exact (low.text_plain b digit).1

theorem Item.text_wellFormed (item : Item) : Utf8.WellFormed item.text := by
  have digits (u : Hex4) : ∀ b ∈ u.text, b.toNat < 128 := by
    intro b listed
    simp only [Hex4.text, List.mem_cons, List.not_mem_nil, or_false] at listed
    rcases listed with rfl | rfl | rfl | rfl
    all_goals exact HexDigit.byte_low _
  have opening : Utf8.WellFormed [chr '\\', chr 'u'] := Utf8.wellFormed_low (by decide)
  cases item with
  | raw c visible plain => exact Utf8.wellFormed_encode c
  | simple e => cases e <;> exact Utf8.wellFormed_low (by decide)
  | unit u c shown => exact opening.append (Utf8.wellFormed_low (digits u))
  | pair high low c leads trails shown =>
      exact opening.append ((Utf8.wellFormed_low (digits high)).append (opening.append (Utf8.wellFormed_low (digits low))))

theorem wellFormed_inner (items : List Item) : Utf8.WellFormed (inner items) := by
  induction items with
  | nil => exact ⟨[], rfl⟩
  | cons item items ih => exact item.text_wellFormed.append ih

/-- A word of plain ASCII letters is its own literal. -/
theorem exists_word {word : List Char} (plain : ∀ c ∈ word, c.toNat < 128 ∧ 0x20 ≤ c.toNat ∧ c ≠ '"' ∧ c ≠ '\\') :
    ∃ items, decoded items = word ∧ inner items = word.map chr := by
  induction word with
  | nil => exact ⟨[], rfl, rfl⟩
  | cons c word ih =>
      obtain ⟨low, visible, quote, backslash⟩ := plain c List.mem_cons_self
      obtain ⟨items, same, written⟩ := ih fun d listed => plain d (List.mem_cons_of_mem c listed)
      refine ⟨.raw c visible ⟨quote, backslash⟩ :: items, congrArg (c :: ·) same, ?_⟩
      change Utf8.encode c ++ inner items = chr c :: word.map chr
      rw [Utf8.encode_ascii low, written]
      rfl

theorem scan_inside (plain : ∀ b ∈ t, b ≠ chr '"' ∧ b ≠ chr '\\') : scan (d, .inside) t = (d, .inside) := by
  induction t with
  | nil => rfl
  | cons b t ih =>
      have first := plain b List.mem_cons_self
      have here : step (d, .inside) b = (d, .inside) := (if_neg first.2).trans (if_neg first.1)
      rw [scan, List.foldl_cons, here]
      exact ih fun c listed => plain c (List.mem_cons_of_mem b listed)

theorem scan_item (item : Item) : scan (d, .inside) item.text = (d, .inside) := by
  have digits (u : Hex4) : scan (d, .inside) u.text = (d, .inside) := scan_inside fun b listed => (u.text_plain b listed).2
  cases item with
  | raw c visible plain => exact scan_inside fun b listed => (raw_bytes visible plain b listed).2
  | simple e => rfl
  | unit u c shown => exact digits u
  | pair high low c leads trails shown =>
      change scan (d, .inside) (high.text ++ chr '\\' :: chr 'u' :: low.text) = (d, .inside)
      rw [scan_append, digits high]
      exact digits low

theorem scan_inner (items : List Item) : scan (d, .inside) (inner items) = (d, .inside) := by
  induction items with
  | nil => rfl
  | cons item items ih =>
      change scan (d, .inside) (item.text ++ inner items) = (d, .inside)
      rw [scan_append, scan_item, ih]

end Literals

section Texts

variable {s t : List Byte}

theorem Balanced.append (first : Balanced s) (second : Balanced t) : Balanced (s ++ t) where
  wellFormed := first.wellFormed.append second.wellFormed
  visible c listed := (List.mem_append.mp listed).elim (first.visible c) (second.visible c)
  level depth := by rw [scan_append, first.level, second.level]

/-- Bytes of the lower half that are no quotes and no brackets are balanced. -/
theorem balanced_plain (low : ∀ c ∈ t, c.toNat < 128) (plain : ∀ c ∈ t, (0x20 ≤ c.toNat ∨ isBlank c = true) ∧ c ∉ marks) : Balanced t where
  wellFormed := Utf8.wellFormed_low low
  visible c listed := (plain c listed).1
  level depth := by
    induction t with
    | nil => rfl
    | cons c t ih =>
        have first := (plain c List.mem_cons_self).2
        have here : step (depth, .outside) c = (depth, .outside) := by
          simp only [marks, List.mem_cons, not_or] at first
          simp [step, first]
        rw [scan, List.foldl_cons, here]
        exact ih (fun b listed => low b (List.mem_cons_of_mem c listed)) fun b listed => plain b (List.mem_cons_of_mem c listed)

theorem balanced_literal (items : List Item) : Balanced (literal items) where
  wellFormed := ((Utf8.wellFormed_low (by decide : ∀ b ∈ [chr '"'], b.toNat < 128)).append (wellFormed_inner items)).append
    (Utf8.wellFormed_low (by decide))
  visible c listed := by
    rw [literal, List.mem_append, List.mem_cons, List.mem_singleton] at listed
    rcases listed with (rfl | inner) | rfl
    · decide
    · obtain ⟨item, -, written⟩ := List.mem_flatMap.mp inner
      exact Or.inl (item.text_visible c written)
    · decide
  level depth := by
    change scan (depth, .inside) (inner items ++ [chr '"']) = (depth, .outside)
    rw [scan_append, scan_inner]
    rfl

theorem balanced_blanks (blanks : Blanks t) : Balanced t := by
  have plain : ∀ c : Byte, isBlank c = true → c.toNat < 128 ∧ c ∉ marks := by decide
  exact balanced_plain (fun c listed => (plain c (blanks c listed)).1) fun c listed => ⟨Or.inr (blanks c listed), (plain c (blanks c listed)).2⟩

theorem balanced_byte {c : Byte} (visible : 0x20 ≤ c.toNat ∧ c.toNat < 128) (plain : c ∉ marks) : Balanced [c] := by
  apply balanced_plain
  · intro b listed
    rw [List.mem_singleton.mp listed]
    exact visible.2
  · intro b listed
    rw [List.mem_singleton.mp listed]
    exact ⟨Or.inl visible.1, plain⟩

theorem balanced_digits (digits : ∀ c ∈ t, Decimal.isDigit c = true) : Balanced t := by
  have plain : ∀ c : Byte, Decimal.isDigit c = true → c.toNat < 128 ∧ 0x20 ≤ c.toNat ∧ c ∉ marks := by decide
  exact balanced_plain (fun c listed => (plain c (digits c listed)).1) fun c listed =>
    ⟨Or.inl (plain c (digits c listed)).2.1, (plain c (digits c listed)).2.2⟩

theorem IsNumber.balanced {sign whole fraction exponent : List Byte} (number : IsNumber sign whole fraction exponent) :
    Balanced (sign ++ whole ++ fraction ++ exponent) := by
  have none : Balanced [] := balanced_digits fun c listed => absurd listed List.not_mem_nil
  have minus : Balanced [chr '-'] := balanced_byte (by decide) (by decide)
  have plus : Balanced [chr '+'] := balanced_byte (by decide) (by decide)
  have first : Balanced sign := by
    rcases number.signed with rfl | rfl
    · exact none
    · exact minus
  have third : Balanced fraction := by
    rcases number.fractional with rfl | ⟨s, digits, rfl⟩
    · exact none
    · exact (balanced_byte (c := chr '.') (by decide) (by decide)).append (balanced_digits digits.2)
  have last : Balanced exponent := by
    rcases number.scaled with rfl | ⟨e, sign, s, letter, signed, digits, rfl⟩
    · exact none
    · have mark : Balanced [e] := by
        rcases letter with rfl | rfl
        · exact balanced_byte (by decide) (by decide)
        · exact balanced_byte (by decide) (by decide)
      have between : Balanced sign := by
        rcases signed with rfl | rfl | rfl
        · exact none
        · exact plus
        · exact minus
      exact mark.append (between.append (balanced_digits digits.2))
  exact ((first.append (balanced_digits number.digits.2)).append third).append last

/-- Brackets around a balanced text are balanced. -/
theorem Balanced.enclosed {opening closing : Byte} (inner : Balanced t)
    (pair : opening = chr '[' ∧ closing = chr ']' ∨ opening = chr '\x7b' ∧ closing = chr '\x7d') :
    Balanced (opening :: t ++ [closing]) where
  wellFormed := by
    have first : Utf8.WellFormed [opening] := by
      rcases pair with ⟨rfl, -⟩ | ⟨rfl, -⟩
      · exact Utf8.wellFormed_low (by decide)
      · exact Utf8.wellFormed_low (by decide)
    have last : Utf8.WellFormed [closing] := by
      rcases pair with ⟨-, rfl⟩ | ⟨-, rfl⟩
      · exact Utf8.wellFormed_low (by decide)
      · exact Utf8.wellFormed_low (by decide)
    exact (first.append inner.wellFormed).append last
  visible c listed := by
    rw [List.mem_append, List.mem_cons, List.mem_singleton] at listed
    rcases listed with (rfl | member) | rfl
    · rcases pair with ⟨rfl, rfl⟩ | ⟨rfl, rfl⟩ <;> decide
    · exact inner.visible c member
    · rcases pair with ⟨rfl, rfl⟩ | ⟨rfl, rfl⟩ <;> decide
  level depth := by
    have opens : step (depth, .outside) opening = (depth + 1, .outside) := by
      rcases pair with ⟨rfl, rfl⟩ | ⟨rfl, rfl⟩ <;> rfl
    have closes : step (depth + 1, .outside) closing = (depth, .outside) := by
      have back : depth + 1 - 1 = depth := by omega
      rcases pair with ⟨rfl, rfl⟩ | ⟨rfl, rfl⟩ <;> exact congrArg (·, Mode.outside) back
    rw [List.cons_append, scan, List.foldl_cons, opens]
    change scan (depth + 1, .outside) (t ++ [closing]) = (depth, .outside)
    rw [scan_append, inner.level]
    exact closes

/-- Whatever the grammar derives is balanced. -/
theorem Shows.balanced {part : Part} (shown : Shows part t) : Balanced t := by
  have comma : Balanced [chr ','] := balanced_byte (by decide) (by decide)
  have colon : Balanced [chr ':'] := balanced_byte (by decide) (by decide)
  induction shown with
  | null => exact balanced_plain (by decide) (by decide)
  | true => exact balanced_plain (by decide) (by decide)
  | false => exact balanced_plain (by decide) (by decide)
  | number number => exact number.balanced
  | string items => exact balanced_literal items
  | emptyArray blanks => exact (balanced_blanks blanks).enclosed (Or.inl ⟨rfl, rfl⟩)
  | array _ ih => exact ih.enclosed (Or.inl ⟨rfl, rfl⟩)
  | emptyObject blanks => exact (balanced_blanks blanks).enclosed (Or.inr ⟨rfl, rfl⟩)
  | object _ ih => exact ih.enclosed (Or.inr ⟨rfl, rfl⟩)
  | padded before _ behind ih => exact ((balanced_blanks before).append ih).append (balanced_blanks behind)
  | element _ ih => exact ih
  | elements _ _ ih later => exact ih.append (comma.append later)
  | member before behind _ ih =>
      exact (((balanced_blanks before).append (balanced_literal _)).append (balanced_blanks behind)).append (colon.append ih)
  | members before behind _ _ ih later =>
      exact (((balanced_blanks before).append (balanced_literal _)).append (balanced_blanks behind)).append
        (colon.append (ih.append (comma.append later)))

end Texts

end Json
