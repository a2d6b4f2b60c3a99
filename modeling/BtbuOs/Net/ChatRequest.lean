import BtbuOs.Net.Decode

namespace BtbuOs.Net.AiApi

open Bytes
open Json (Item Document Value)

/-- The request up to its prompt. -/
def requestHead (model : List Byte) : List Byte :=
  ascii "\x7b\"model\":\"" ++ model ++ ascii "\",\"messages\":[\x7b\"role\":\"user\",\"content\":\""

def requestTail : List Byte := ascii "\"\x7d]\x7d"

/-- The body that `ai_chat` sends. -/
def requestBody (model prompt : List Byte) (buf : Memory) (bufsize : Int) : List Byte :=
  string (buildChatRequest model prompt buf bufsize).1 0 bufsize.toNat

/-- The content of the first message. -/
def firstContent (v : Value) : Option Value := ((v.member "messages").bind (Value.element 0)).bind (Value.member "content")

/-- A value has a prompt as its message. -/
def Says (v : Value) (prompt : List Byte) : Prop := ∃ cs, firstContent v = some (.string cs) ∧ Utf8.encoded cs = prompt

/-- The control characters that the code escapes. -/
def spelled (c : Byte) : Prop := c = chr '\n' ∨ c = chr '\r' ∨ c = chr '\t'

instance (c : Byte) : Decidable (spelled c) := inferInstanceAs (Decidable (_ ∨ _ ∨ _))

/-- The request fits, and its prompt is a text of characters whose control characters are escaped. -/
structure Sendable (model prompt : List Byte) (bufsize : Int) : Prop where
  fits : (chatRequest model prompt).length < bufsize
  wellFormed : Utf8.WellFormed prompt
  controls : ∀ c ∈ prompt, 0x20 ≤ c.toNat ∨ spelled c

theorem chatRequest_parts (model prompt : List Byte) : chatRequest model prompt = requestHead model ++ escaped prompt ++ requestTail := rfl

section Cutting

variable {buf : Memory} {pos : Nat} {bufsize : Int} {s done : List Byte}

/-- What `ai_strappend` appends is cut off at the last place of the buffer. -/
theorem aiStrappend_cut (buf : Memory) (pos : Nat) (bufsize : Int) (s : List Byte) : ∃ k ≤ s.length,
    aiStrappend buf pos bufsize s = (put buf pos (s.take k ++ [0]), pos + k) ∧ (k < s.length → bufsize ≤ pos + k + 1) ∧
      (k = 0 ∨ pos + k < bufsize) := by
  induction s generalizing buf pos with
  | nil => exact ⟨0, Nat.le_refl 0, rfl, fun short => absurd short (Nat.lt_irrefl 0), Or.inl rfl⟩
  | cons c s ih =>
      by_cases room : (pos : Int) < bufsize - 1
      · obtain ⟨k, within, written, cut, bound⟩ := ih (put buf pos [c]) (pos + 1)
        refine ⟨k + 1, Nat.succ_le_succ within, ?_, fun short => ?_, Or.inr ?_⟩
        · rw [aiStrappend, if_pos room, written, Nat.add_right_comm, Nat.add_assoc]
          rfl
        · have behind := cut (Nat.lt_of_succ_lt_succ short)
          omega
        · omega
      · refine ⟨0, Nat.zero_le _, ?_, fun _ => by omega, Or.inl rfl⟩
        rw [aiStrappend, if_neg room]
        rfl

/-- What `json_escape_string` appends is cut off before an escape that could pass the end of the buffer. -/
theorem jsonEscapeString_cut (buf : Memory) (pos : Nat) (bufsize : Int) (s : List Byte) : ∃ k ≤ s.length,
    jsonEscapeString buf pos bufsize s = (put buf pos (escaped (s.take k) ++ [0]), pos + (escaped (s.take k)).length) ∧
      (k < s.length → bufsize ≤ pos + (escaped (s.take k)).length + 2) ∧ (k = 0 ∨ pos + (escaped (s.take k)).length < bufsize) := by
  induction s generalizing buf pos with
  | nil => exact ⟨0, Nat.le_refl 0, rfl, fun short => absurd short (Nat.lt_irrefl 0), Or.inl rfl⟩
  | cons c s ih =>
      by_cases room : (pos : Int) < bufsize - 2
      · obtain ⟨k, within, written, cut, bound⟩ := ih (put buf pos (escape c)) (pos + (escape c).length)
        have shape : escaped ((c :: s).take (k + 1)) = escape c ++ escaped (s.take k) := rfl
        have size := escape_length c
        refine ⟨k + 1, Nat.succ_le_succ within, ?_, fun short => ?_, Or.inr ?_⟩
        · rw [jsonEscapeString, if_pos room, written, shape, List.append_assoc, List.length_append, ← put_append, Nat.add_assoc]
        · have behind := cut (Nat.lt_of_succ_lt_succ short)
          rw [shape, List.length_append]
          omega
        · rw [shape, List.length_append]
          rcases bound with rfl | bound
          · change ((pos + ((escape c).length + 0) : Nat) : Int) < bufsize
            omega
          · omega
      · refine ⟨0, Nat.zero_le _, ?_, fun _ => ?_, Or.inl rfl⟩
        · rw [jsonEscapeString, if_neg room]
          rfl
        · change bufsize ≤ pos + 0 + 2
          omega

end Cutting

/-- The request that is written may lack the end of its prompt, and then the end of its tail. -/
theorem buildChatRequest_cut (model prompt : List Byte) (buf : Memory) {bufsize : Int} (room : (requestHead model).length < bufsize) :
    ∃ k ≤ prompt.length, ∃ j ≤ 4,
      let body := requestHead model ++ escaped (prompt.take k) ++ requestTail.take j
      buildChatRequest model prompt buf bufsize = (put buf 0 (body ++ [0]), body.length) ∧ body.length < bufsize ∧
        (k < prompt.length → j < 4) := by
  obtain ⟨head, opening⟩ : ∃ head, head = requestHead model := ⟨_, rfl⟩
  have start : buildChatRequest model prompt buf bufsize =
      aiStrappend (jsonEscapeString (put buf 0 (head ++ [0])) head.length bufsize prompt).1
        (jsonEscapeString (put buf 0 (head ++ [0])) head.length bufsize prompt).2 bufsize requestTail := by
    unfold requestHead at room opening
    simp only [List.length_append] at room
    unfold buildChatRequest
    rw [aiStrappend_fits (by omega)]
    dsimp only
    rw [Nat.zero_add, aiStrappend_string (by simp only [List.length_append]; omega)]
    dsimp only
    rw [aiStrappend_string (by simp only [List.length_append]; omega), ← opening]
    rfl
  rw [← opening] at room ⊢
  obtain ⟨k, within, text, cut, bound⟩ := jsonEscapeString_cut (put buf 0 (head ++ [0])) head.length bufsize prompt
  have inside : (head.length + (escaped (prompt.take k)).length : Nat) < bufsize := by
    rcases bound with rfl | bound
    · exact room
    · exact bound
  have joined : put (put buf 0 (head ++ [0])) head.length (escaped (prompt.take k) ++ [0]) =
      put buf 0 (head ++ escaped (prompt.take k) ++ [0]) := by
    have both := put_string buf 0 head (escaped (prompt.take k))
    rwa [Nat.zero_add] at both
  rw [joined] at text
  obtain ⟨j, short, last, -, limit⟩ := aiStrappend_cut (put buf 0 (head ++ escaped (prompt.take k) ++ [0]))
    (head.length + (escaped (prompt.take k)).length) bufsize requestTail
  have tail : requestTail.length = 4 := rfl
  rw [tail] at short
  have taken : (requestTail.take j).length = j := by rw [List.length_take, tail, min_eq_left short]
  have whole : put (put buf 0 (head ++ escaped (prompt.take k) ++ [0])) (head.length + (escaped (prompt.take k)).length)
      (requestTail.take j ++ [0]) = put buf 0 (head ++ escaped (prompt.take k) ++ requestTail.take j ++ [0]) := by
    have both := put_string buf 0 (head ++ escaped (prompt.take k)) (requestTail.take j)
    rwa [Nat.zero_add, List.length_append] at both
  refine ⟨k, within, j, short, ?_, ?_, fun missing => ?_⟩
  · rw [start, text, last, whole, List.length_append, List.length_append, taken]
  · simp only [List.length_append, taken]
    rcases limit with rfl | limit
    · omega
    · exact limit
  · have full := cut missing
    rcases limit with rfl | limit <;> omega

section Reading

variable {d : Int} {s t : List Byte} {c : Byte}

/-- An escaped string stays inside of its literal. -/
theorem scan_escaped : Json.scan (d, .inside) (escaped s) = (d, .inside) := by
  have byte (c : Byte) : Json.scan (d, .inside) (escape c) = (d, .inside) := by
    unfold escape
    split_ifs with special
    · rfl
    · rfl
    · rfl
    · rfl
    · obtain ⟨quote, backslash⟩ := not_or.mp special
      exact Json.scan_inside fun b listed => by rw [List.mem_singleton.mp listed]; exact ⟨quote, backslash⟩
  induction s with
  | nil => rfl
  | cons c s ih =>
      change Json.scan (d, .inside) (escape c ++ escaped s) = (d, .inside)
      rw [Json.scan_append, byte, ih]

/-- Inside of the prompt three brackets are open. -/
theorem scan_requestHead (name : List Item) (depth : Int) : Json.scan (depth, .outside) (requestHead (Json.inner name)) = (depth + 1 + 1 + 1, .inside) := by
  rw [requestHead, Json.scan_append, Json.scan_append]
  change Json.scan (Json.scan (depth + 1, .inside) (Json.inner name)) _ = _
  rw [Json.scan_inner]
  rfl

/-- A request without its end is no document. -/
theorem cut_unbalanced (name : List Item) {j : Nat} (cut : j < 4) :
    ¬Json.Balanced (requestHead (Json.inner name) ++ escaped s ++ requestTail.take j) := by
  have opened : ∀ j < 4, Json.scan (0 + 1 + 1 + 1, .inside) (requestTail.take j) ≠ (0, .outside) := by decide +kernel
  intro balanced
  have ends := balanced.level 0
  rw [Json.scan_append, Json.scan_append, scan_requestHead, scan_escaped] at ends
  exact opened j cut ends

theorem escape_low (low : c.toNat < 128) : ∀ b ∈ escape c, b.toNat < 128 := by
  have letters : ∀ b ∈ [chr '\\', chr 'n', chr 'r', chr 't'], b.toNat < 128 := by decide
  intro b listed
  have either : b = c ∨ b ∈ [chr '\\', chr 'n', chr 'r', chr 't'] := by
    unfold escape at listed
    split_ifs at listed <;> simp at listed ⊢ <;> tauto
  rcases either with rfl | letter
  · exact low
  · exact letters b letter

theorem escape_high (high : 128 ≤ c.toNat) : escape c = [c] := by
  have other {e : Char} (small : (chr e).toNat < 128) : c ≠ chr e := by
    rintro rfl
    omega
  have special : ¬(c = chr '"' ∨ c = chr '\\') := not_or.mpr ⟨other (by decide), other (by decide)⟩
  rw [escape, if_neg special, if_neg (other (by decide)), if_neg (other (by decide)), if_neg (other (by decide))]

theorem escaped_cons (c : Byte) (s t : List Byte) : escaped (c :: s) ++ t = escape c ++ (escaped s ++ t) := List.append_assoc ..

/-- Bytes of the upper half are not escaped, so that they stand in the prompt as they do in the request. -/
theorem escaped_high {hs rest : List Byte} (high : ∀ b ∈ hs, 128 ≤ b.toNat) (same : escaped s ++ chr '"' :: t = hs ++ rest) :
    ∃ later, s = hs ++ later ∧ escaped later ++ chr '"' :: t = rest := by
  induction hs generalizing s with
  | nil => exact ⟨s, rfl, same⟩
  | cons h hs ih =>
      have first := high h List.mem_cons_self
      cases s with
      | nil =>
          obtain rfl := (List.cons.inj same).1
          exact absurd first (by decide)
      | cons c s =>
          rw [escaped_cons] at same
          have above : 128 ≤ c.toNat := by
            by_contra low
            obtain ⟨b, more, shape⟩ := List.exists_cons_of_length_pos (escape_length c).1
            have small := escape_low (Nat.not_le.mp low) b (shape ▸ List.mem_cons_self)
            rw [shape] at same
            rw [(List.cons.inj same).1] at small
            omega
          rw [escape_high above] at same
          obtain ⟨rfl, behind⟩ := List.cons.inj same
          obtain ⟨later, rfl, rest⟩ := ih (fun b listed => high b (List.mem_cons_of_mem c listed)) behind
          exact ⟨later, rfl, rest⟩

/-- The prompt of a well formed request is well formed. -/
theorem escaped_wellFormed (whole : Utf8.WellFormed (escaped s ++ chr '"' :: t)) : Utf8.WellFormed s := by
  induction size : s.length using Nat.strong_induction_on generalizing s with
  | _ n ih =>
  subst size
  cases s with
  | nil => exact ⟨[], rfl⟩
  | cons c s =>
      rw [escaped_cons] at whole
      by_cases low : c.toNat < 128
      · have single : Utf8.WellFormed [c] := Utf8.wellFormed_low fun b listed => by rwa [List.mem_singleton.mp listed]
        obtain ⟨cs, letters⟩ := Utf8.wellFormed_low (escape_low low)
        rw [letters] at whole
        exact single.append (ih s.length (Nat.lt_succ_self _) (Utf8.encoded_rest whole) rfl)
      · obtain ⟨cs, letters⟩ := whole
        rw [escape_high (Nat.not_lt.mp low)] at letters
        cases cs with
        | nil => exact absurd letters (List.cons_ne_nil _ _)
        | cons e cs =>
            change c :: (escaped s ++ chr '"' :: t) = Utf8.encode e ++ Utf8.encoded cs at letters
            have above : 128 ≤ e.toNat := by
              by_contra small
              rw [Utf8.encode_ascii (Nat.not_le.mp small)] at letters
              rw [(List.cons.inj letters).1, Json.chr_toNat (Nat.not_le.mp small)] at low
              exact small (Nat.not_lt.mp low)
            have whole : escaped (c :: s) ++ chr '"' :: t = Utf8.encode e ++ Utf8.encoded cs := by
              rw [escaped_cons, escape_high (Nat.not_lt.mp low)]
              exact letters
            obtain ⟨later, parts, rest⟩ := escaped_high (Utf8.encode_high above).2 whole
            have shorter : later.length < (c :: s).length := by
              have long := (Utf8.encode_length_bounds e).1
              rw [parts, List.length_append]
              omega
            rw [parts]
            exact (Utf8.wellFormed_encode e).append (ih later.length shorter ⟨cs, rest⟩ rfl)

end Reading

section Writing

variable {c : Char} {cs : List Char} {prompt : List Byte}

theorem escaped_append (s t : List Byte) : escaped (s ++ t) = escaped s ++ escaped t := List.flatMap_append

/-- What the code writes for a character is an item of a literal. -/
theorem exists_item (allowed : ∀ b ∈ Utf8.encode c, 0x20 ≤ b.toNat ∨ spelled b) :
    ∃ item : Item, item.character = c ∧ item.text = escaped (Utf8.encode c) := by
  by_cases low : c.toNat < 128
  · rw [Utf8.encode_ascii low] at allowed ⊢
    have byte := allowed (chr c) List.mem_cons_self
    by_cases quote : c = '"'
    · subst quote
      exact ⟨.simple .quote, rfl, rfl⟩
    by_cases backslash : c = '\\'
    · subst backslash
      exact ⟨.simple .backslash, rfl, rfl⟩
    rcases byte with visible | control
    · rw [Json.chr_toNat low] at visible
      have plain : escape (chr c) = [chr c] := by
        have other {e : Char} (small : e.toNat < 128) (different : c ≠ e) : chr c ≠ chr e := fun same =>
          different (Json.chr_injective low small same)
        have printed {e : Char} (small : e.toNat < 0x20) : c ≠ e := by
          rintro rfl
          omega
        have special : ¬(chr c = chr '"' ∨ chr c = chr '\\') := not_or.mpr ⟨other (by decide) quote, other (by decide) backslash⟩
        rw [escape, if_neg special, if_neg (other (by decide) (printed (by decide))), if_neg (other (by decide) (printed (by decide))),
          if_neg (other (by decide) (printed (by decide)))]
      refine ⟨.raw c visible ⟨quote, backslash⟩, rfl, ?_⟩
      change Utf8.encode c = escape (chr c) ++ []
      rw [plain, Utf8.encode_ascii low]
      rfl
    · rcases control with same | same | same
      · obtain rfl := Json.chr_injective low (by decide) same
        exact ⟨.simple .newline, rfl, rfl⟩
      · obtain rfl := Json.chr_injective low (by decide) same
        exact ⟨.simple .carriage, rfl, rfl⟩
      · obtain rfl := Json.chr_injective low (by decide) same
        exact ⟨.simple .tab, rfl, rfl⟩
  · have high := (Utf8.encode_high (Nat.not_lt.mp low)).2
    have same {s : List Byte} (above : ∀ b ∈ s, 128 ≤ b.toNat) : escaped s = s := by
      induction s with
      | nil => rfl
      | cons b s ih =>
          change escape b ++ escaped s = b :: s
          rw [escape_high (above b List.mem_cons_self), ih fun e listed => above e (List.mem_cons_of_mem b listed)]
          rfl
    refine ⟨.raw c (by omega) ⟨?_, ?_⟩, rfl, (same high).symm⟩
    · rintro rfl
      exact low (by decide)
    · rintro rfl
      exact low (by decide)

/-- What the code writes for a text is the inside of a literal for it. -/
theorem exists_items (allowed : ∀ b ∈ Utf8.encoded cs, 0x20 ≤ b.toNat ∨ spelled b) :
    ∃ items, Json.decoded items = cs ∧ Json.inner items = escaped (Utf8.encoded cs) := by
  induction cs with
  | nil => exact ⟨[], rfl, rfl⟩
  | cons c cs ih =>
      obtain ⟨item, character, text⟩ := exists_item (c := c) fun b listed => allowed b (List.mem_append_left _ listed)
      obtain ⟨items, same, written⟩ := ih fun b listed => allowed b (List.mem_append_right _ listed)
      refine ⟨item :: items, ?_, ?_⟩
      · change item.character :: Json.decoded items = c :: cs
        rw [character, same]
      · change item.text ++ Json.inner items = escaped (Utf8.encode c ++ Utf8.encoded cs)
        rw [escaped_append, text, written]

/-- The value of a request. -/
def requestValue (name cs : List Char) : Value :=
  .object [("model".toList, .string name), ("messages".toList, .array [.object [("role".toList, .string "user".toList),
    ("content".toList, .string cs)]])]

theorem requestValue_says (name cs : List Char) : Says (requestValue name cs) (Utf8.encoded cs) := ⟨cs, rfl, rfl⟩

/-- The quoted word and the colon before the value of a member. -/
def key (word : String) : List Byte := chr '"' :: ascii word ++ [chr '"', chr ':']

theorem shows_field (word : String) {v : Value} {t : List Byte} (letters : ∀ c ∈ word.toList, c.toNat < 128 ∧ 0x20 ≤ c.toNat ∧ c ≠ '"' ∧ c ≠ '\\')
    (shown : Json.Shows (.value v) t) : Json.Shows (.members [(word.toList, v)]) (key word ++ t) := by
  obtain ⟨items, name, text⟩ := Json.exists_word letters
  have none : Json.Blanks [] := by decide
  have field : Json.Shows (.members [(Json.decoded items, v)]) ([] ++ Json.literal items ++ [] ++ chr ':' :: ([] ++ t ++ [])) :=
    .member none none (.padded none shown none)
  have shape : key word ++ t = [] ++ Json.literal items ++ [] ++ chr ':' :: ([] ++ t ++ []) := by
    simp [key, Json.literal, text, ascii]
  rw [shape, ← name]
  exact field

theorem shows_fields (word : String) {v : Value} {ms : List (List Char × Value)} {t later : List Byte}
    (letters : ∀ c ∈ word.toList, c.toNat < 128 ∧ 0x20 ≤ c.toNat ∧ c ≠ '"' ∧ c ≠ '\\') (shown : Json.Shows (.value v) t)
    (rest : Json.Shows (.members ms) later) : Json.Shows (.members ((word.toList, v) :: ms)) (key word ++ t ++ chr ',' :: later) := by
  obtain ⟨items, name, text⟩ := Json.exists_word letters
  have none : Json.Blanks [] := by decide
  have fields : Json.Shows (.members ((Json.decoded items, v) :: ms))
      ([] ++ Json.literal items ++ [] ++ chr ':' :: (([] ++ t ++ []) ++ chr ',' :: later)) :=
    .members none none (.padded none shown none) rest
  have shape : key word ++ t ++ chr ',' :: later = [] ++ Json.literal items ++ [] ++ chr ':' :: (([] ++ t ++ []) ++ chr ',' :: later) := by
    simp [key, Json.literal, text, ascii]
  rw [shape, ← name]
  exact fields

/-- The letters of a word stand for themselves. -/
theorem plain_letters {word : List Char} (plain : word.all (fun c => decide (c.toNat < 128 ∧ 0x20 ≤ c.toNat ∧ c ≠ '"' ∧ c ≠ '\\')) = true) :
    ∀ c ∈ word, c.toNat < 128 ∧ 0x20 ≤ c.toNat ∧ c ≠ '"' ∧ c ≠ '\\' :=
  fun c listed => of_decide_eq_true (List.all_eq_true.mp plain c listed)

/-- A complete request stands for the model and the prompt. -/
theorem request_document (name items : List Item) : Document (requestValue (Json.decoded name) (Json.decoded items))
    (requestHead (Json.inner name) ++ Json.inner items ++ requestTail) := by
  have none : Json.Blanks [] := by decide
  obtain ⟨user, userName, userText⟩ : ∃ user, Json.decoded user = "user".toList ∧ Json.inner user = "user".toList.map chr :=
    Json.exists_word (plain_letters (by decide +kernel))
  have role : Json.Shows (.value (.string "user".toList)) (Json.literal user) := userName ▸ Json.Shows.string user
  have message := Json.Shows.object (shows_fields "role" (plain_letters (by decide +kernel)) role
    (shows_field "content" (plain_letters (by decide +kernel)) (Json.Shows.string items)))
  have messages := Json.Shows.array (Json.Shows.element (Json.Shows.padded none message none))
  have whole := Json.Shows.padded none (Json.Shows.object (shows_fields "model" (plain_letters (by decide +kernel)) (Json.Shows.string name)
    (shows_field "messages" (plain_letters (by decide +kernel)) messages))) none
  refine Eq.mp (congrArg (Json.Shows _) ?_) whole
  simp [requestHead, requestTail, key, Json.literal, userText, ascii, chr]

end Writing

section Bodies

variable {model prompt : List Byte} {bufsize : Int}

theorem requestBody_whole {buf : Memory} (clean : 0 ∉ chatRequest model prompt) (fits : (chatRequest model prompt).length < bufsize) :
    requestBody model prompt buf bufsize = chatRequest model prompt := by
  rw [requestBody, buildChatRequest_fits buf fits]
  exact string_put buf 0 clean (by omega)

/-- The body is the whole request, or a part of it that is no document. -/
theorem requestBody_cases (name : List Item) (model prompt : Text) (buf : Memory) (named : model.bytes = Json.inner name)
    (room : (requestHead model.bytes).length < bufsize) :
    (requestBody model.bytes prompt.bytes buf bufsize).length = (buildChatRequest model.bytes prompt.bytes buf bufsize).2 ∧
      ((chatRequest model.bytes prompt.bytes).length < bufsize ∨ ¬Json.Balanced (requestBody model.bytes prompt.bytes buf bufsize)) := by
  obtain ⟨k, within, j, short, written, inside, cut⟩ := buildChatRequest_cut model.bytes prompt.bytes buf room
  obtain ⟨body, part⟩ : ∃ body, body = requestHead model.bytes ++ escaped (prompt.bytes.take k) ++ requestTail.take j := ⟨_, rfl⟩
  rw [← part] at written inside
  have clean : 0 ∉ body := by
    have whole := chatRequest_clean model prompt
    rw [chatRequest_parts] at whole
    simp only [List.mem_append, not_or] at whole
    rw [part, List.mem_append, List.mem_append, not_or, not_or]
    refine ⟨⟨whole.1.1, fun listed => ?_⟩, fun listed => whole.2 (List.mem_of_mem_take listed)⟩
    obtain ⟨c, member, letter⟩ := List.mem_flatMap.mp listed
    exact whole.1.2 (List.mem_flatMap.mpr ⟨c, List.mem_of_mem_take member, letter⟩)
  have read : requestBody model.bytes prompt.bytes buf bufsize = body := by
    rw [requestBody, written]
    exact string_put buf 0 clean (by omega)
  rw [read, written]
  refine ⟨rfl, ?_⟩
  by_cases missing : j < 4
  · right
    rw [part, named]
    exact cut_unbalanced name missing
  · left
    have all : k = prompt.bytes.length := by
      by_contra other
      exact missing (cut (by omega))
    have whole : body = chatRequest model.bytes prompt.bytes := by
      rw [part, all, List.take_length, List.take_of_length_le (Nat.not_lt.mp missing), chatRequest_parts]
    rw [← whole]
    exact inside

/-- The body is a document exactly when the request fits, the prompt is a text of characters, and each control character of it is one that
the code escapes; then its first message is the prompt. -/
theorem chat_request_document (name : List Item) (model prompt : Text) (buf : Memory) (named : model.bytes = Json.inner name)
    (room : (requestHead model.bytes).length < bufsize) :
    (requestBody model.bytes prompt.bytes buf bufsize).length = (buildChatRequest model.bytes prompt.bytes buf bufsize).2 ∧
      ((∃ v, Document v (requestBody model.bytes prompt.bytes buf bufsize)) ↔ Sendable model.bytes prompt.bytes bufsize) ∧
      (Sendable model.bytes prompt.bytes bufsize → ∃ v, Document v (requestBody model.bytes prompt.bytes buf bufsize) ∧ Says v prompt.bytes) := by
  obtain ⟨size, shape⟩ := requestBody_cases name model prompt buf named room
  have sends : Sendable model.bytes prompt.bytes bufsize →
      ∃ v, Document v (requestBody model.bytes prompt.bytes buf bufsize) ∧ Says v prompt.bytes := by
    rintro ⟨fits, ⟨cs, letters⟩, controls⟩
    rw [letters] at controls
    obtain ⟨items, same, text⟩ := exists_items controls
    refine ⟨requestValue (Json.decoded name) cs, ?_, letters ▸ requestValue_says _ _⟩
    rw [requestBody_whole (chatRequest_clean model prompt) fits, chatRequest_parts, named, letters, ← text, ← same]
    exact request_document name items
  refine ⟨size, ⟨?_, fun sendable => ?_⟩, sends⟩
  · rintro ⟨v, document⟩
    have balanced := document.balanced
    have fits := shape.resolve_right (not_not_intro balanced)
    rw [requestBody_whole (chatRequest_clean model prompt) fits, chatRequest_parts] at balanced
    refine ⟨fits, ?_, fun c member => ?_⟩
    · obtain ⟨cs, opening⟩ : Utf8.WellFormed (requestHead model.bytes) := by
        rw [requestHead, named]
        exact ((Utf8.wellFormed_low (by decide +kernel)).append (Json.wellFormed_inner name)).append (Utf8.wellFormed_low (by decide +kernel))
      have whole := balanced.wellFormed
      rw [List.append_assoc, opening] at whole
      exact escaped_wellFormed (Utf8.encoded_rest whole)
    · by_cases visible : 0x20 ≤ c.toNat
      · exact Or.inl visible
      · right
        by_contra other
        have raw : ∀ c : Byte, ¬0x20 ≤ c.toNat → ¬spelled c → escape c = [c] ∧ Json.isBlank c = false := by decide +kernel
        obtain ⟨plain, unblank⟩ := raw c visible other
        have listed : c ∈ escaped prompt.bytes := List.mem_flatMap.mpr ⟨c, member, plain ▸ List.mem_singleton_self c⟩
        rcases balanced.visible c (List.mem_append_left _ (List.mem_append_right _ listed)) with shown | blank
        · exact visible shown
        · rw [unblank] at blank
          exact absurd blank Bool.false_ne_true
  · obtain ⟨v, document, -⟩ := sends sendable
    exact ⟨v, document⟩

/-- A prompt with a quote and a letter of two bytes is sent, and one with an escape character is not. -/
theorem chat_request_document_letters :
    (∃ v, Document v (requestBody (ascii "gpt") (ascii "\"\n" ++ [0xC3, 0xA9]) (fun _ => 0) 2048) ∧ Says v (ascii "\"\n" ++ [0xC3, 0xA9])) ∧
      ¬∃ v, Document v (requestBody (ascii "gpt") [0x1B] (fun _ => 0) 2048) := by
  obtain ⟨name, -, text⟩ : ∃ name, Json.decoded name = "gpt".toList ∧ Json.inner name = "gpt".toList.map chr := Json.exists_word (plain_letters (by decide +kernel))
  have letters : Utf8.WellFormed (ascii "\"\n" ++ [0xC3, 0xA9]) := ⟨['"', '\n', 'é'], by decide⟩
  constructor
  · exact (chat_request_document name ⟨ascii "gpt", by decide⟩ ⟨ascii "\"\n" ++ [0xC3, 0xA9], by decide⟩ (fun _ => 0) text.symm (by decide)).2.2
      ⟨by decide, letters, by decide⟩
  · intro document
    have sendable := (chat_request_document name ⟨ascii "gpt", by decide⟩ ⟨[0x1B], by decide⟩ (fun _ => 0) text.symm (by decide)).2.1.mp document
    exact absurd sendable.controls (by decide)

end Bodies

end BtbuOs.Net.AiApi
