import BtbuOs.Lib.Text

namespace BtbuOs.Net.AiApi

open Bytes

def aiStrappend (buf : Memory) (pos : Nat) (bufsize : Int) : List Byte → Memory × Nat
  | [] => (put buf pos [0], pos)
  | c :: s =>
      if pos < bufsize - 1 then aiStrappend (put buf pos [c]) (pos + 1) bufsize s
      else (put buf pos [0], pos)

/-- The inner loop of `ai_strstr` meets the end of the needle. -/
def starts : List Byte → List Byte → Bool
  | _, [] => true
  | [], _ :: _ => false
  | h :: haystack, n :: needle => if h = n then starts haystack needle else false

/-- The result is the rest of the haystack from the needle on. -/
def aiStrstr (haystack needle : List Byte) : Option (List Byte) :=
  match haystack with
  | [] => if needle = [] then some [] else none
  | h :: rest => if starts (h :: rest) needle then some (h :: rest) else aiStrstr rest needle

/-- The bytes that one round of `json_escape_string` writes. -/
def escape (c : Byte) : List Byte :=
  if c = chr '"' ∨ c = chr '\\' then [chr '\\', c]
  else if c = chr '\n' then [chr '\\', chr 'n']
  else if c = chr '\r' then [chr '\\', chr 'r']
  else if c = chr '\t' then [chr '\\', chr 't']
  else [c]

def jsonEscapeString (buf : Memory) (pos : Nat) (bufsize : Int) : List Byte → Memory × Nat
  | [] => (put buf pos [0], pos)
  | c :: s =>
      if pos < bufsize - 2 then jsonEscapeString (put buf pos (escape c)) (pos + (escape c).length) bufsize s
      else (put buf pos [0], pos)

def buildChatRequest (model prompt : List Byte) (buf : Memory) (bufsize : Int) : Memory × Nat :=
  let (buf, len) := aiStrappend buf 0 bufsize (ascii "\x7b\"model\":\"")
  let (buf, len) := aiStrappend buf len bufsize model
  let (buf, len) := aiStrappend buf len bufsize (ascii "\",\"messages\":[\x7b\"role\":\"user\",\"content\":\"")
  let (buf, len) := jsonEscapeString buf len bufsize prompt
  aiStrappend buf len bufsize (ascii "\"\x7d]\x7d")

def hexDigit (c : Byte) : Option (BitVec 32) :=
  if chr '0' ≤ c ∧ c ≤ chr '9' then some ((c - chr '0').setWidth 32)
  else if chr 'a' ≤ c ∧ c ≤ chr 'f' then some ((c - chr 'a').setWidth 32 + 10)
  else if chr 'A' ≤ c ∧ c ≤ chr 'F' then some ((c - chr 'A').setWidth 32 + 10)
  else none

/-- The loop of `parse_unicode_escape`; the null byte is no digit. -/
def parseDigits : Nat → BitVec 32 → List Byte → Option (BitVec 32)
  | 0, val, _ => some val
  | _ + 1, _, [] => none
  | n + 1, val, c :: p => (hexDigit c).bind fun d => parseDigits n (val <<< 4 ||| d) p

def parseUnicodeEscape (p : List Byte) : Option (BitVec 32) := parseDigits 4 0 p

def encodeUtf8 (codepoint : BitVec 32) (bufsize : Int) : List Byte :=
  if codepoint < 0x80 then
    if bufsize < 1 then [] else [codepoint.setWidth 8]
  else if codepoint < 0x800 then
    if bufsize < 2 then []
    else [(0xC0 ||| codepoint >>> 6).setWidth 8, (0x80 ||| (codepoint &&& 0x3F)).setWidth 8]
  else if codepoint < 0x10000 then
    if bufsize < 3 then []
    else [(0xE0 ||| codepoint >>> 12).setWidth 8, (0x80 ||| (codepoint >>> 6 &&& 0x3F)).setWidth 8,
      (0x80 ||| (codepoint &&& 0x3F)).setWidth 8]
  else if codepoint < 0x110000 then
    if bufsize < 4 then []
    else [(0xF0 ||| codepoint >>> 18).setWidth 8, (0x80 ||| (codepoint >>> 12 &&& 0x3F)).setWidth 8,
      (0x80 ||| (codepoint >>> 6 &&& 0x3F)).setWidth 8, (0x80 ||| (codepoint &&& 0x3F)).setWidth 8]
  else []

/-- The character of a simple escape. -/
def unescape (c : Byte) : Byte :=
  if c = chr 'n' then chr '\n'
  else if c = chr 'r' then chr '\r'
  else if c = chr 't' then chr '\t'
  else if c = chr '"' then chr '"'
  else if c = chr '\\' then chr '\\'
  else c

/-- A high surrogate is joined with the low one that follows its four digits. -/
def joinSurrogates (codepoint : BitVec 32) (p : List Byte) : BitVec 32 × List Byte :=
  if 0xD800 ≤ codepoint ∧ codepoint ≤ 0xDBFF then
    if p[4]? = some (chr '\\') ∧ p[5]? = some (chr 'u') then
      match parseUnicodeEscape (p.drop 6) with
      | some low =>
          if 0xDC00 ≤ low ∧ low ≤ 0xDFFF then
            (0x10000 + (codepoint - 0xD800) <<< 10 + (low - 0xDC00), p.drop 6)
          else (codepoint, p)
      | none => (codepoint, p)
    else (codepoint, p)
  else (codepoint, p)

/-- The loop of `extract_content`. Every round goes on by a byte at least, so that the first argument bounds the rounds. -/
def extractLoop (contentSize : Int) : Nat → List Byte → Nat → Bool → Memory → Memory × Nat
  | rounds + 1, c :: p, i, pending, content =>
      if i < contentSize - 4 then
        if pending then
          if c = chr 'u' then
            match parseUnicodeEscape p with
            | some codepoint =>
                let (codepoint, p) := joinSurrogates codepoint p
                let utf8 := encodeUtf8 codepoint (contentSize - i)
                extractLoop contentSize rounds (p.drop 4) (i + utf8.length) false (put content i utf8)
            | none => extractLoop contentSize rounds p (i + 1) false (put content i [chr 'u'])
          else extractLoop contentSize rounds p (i + 1) false (put content i [unescape c])
        else if c = chr '\\' then extractLoop contentSize rounds p i true content
        else if c = chr '"' then (content, i)
        else extractLoop contentSize rounds p (i + 1) false (put content i [c])
      else (content, i)
  | _, _, i, _, content => (content, i)

def blank (c : Byte) : Bool := c = chr ' ' ∨ c = chr '\t' ∨ c = chr '\n' ∨ c = chr '\r'

def extractContent (json : List Byte) (content : Memory) (contentSize : Int) : Int × Memory :=
  match aiStrstr json (ascii "\"content\":") with
  | none => (-1, content)
  | some p =>
      match (p.drop 10).dropWhile blank with
      | [] => (-1, content)
      | c :: p =>
          if c = chr '"' then
            let (content, i) := extractLoop contentSize p.length p 0 false content
            (i, put content i [0])
          else (-1, content)

/-- The macro `AI_API_MAX_RESPONSE`. -/
def aiApiMaxResponse : Nat := 4096

/-- The buffers that `ai_chat` takes from `memory_alloc`, and the body that the HTTP client took. -/
inductive Buffer where
  | url
  | body
  | authHeader
  | httpBody
  | content
  deriving DecidableEq

inductive Heap where
  | allocated (buffer : Buffer)
  | freed (buffer : Buffer)
  deriving DecidableEq

/-- What `http_post_with_auth` leaves. -/
structure HttpResponse where
  ret : Int
  statusCode : Int
  body : Option (List Byte)
  bodyLen : Int

/-- `struct ai_chat_response`; the content is what memory holds from its address on. -/
structure ChatResponse where
  success : Bool
  content : Option Memory
  contentLen : BitVec 32
  errorCode : Int

/-- What surrounds a call: whether `ai_api_init` has run, which allocations succeed, what the response buffer lies in, and
the answer of the server to a prompt. -/
structure Surroundings where
  initialized : Bool
  allocates : Buffer → Bool
  memory : Memory
  http : Memory → HttpResponse

/-- A buffer is cleared before it is used. -/
def cleared (memory : Memory) (size : Nat) : Memory := fun k => if k < size then 0 else memory k

/-- The pointers that `cleanup` frees are those that are not null. -/
def cleanup (w : Surroundings) : List Heap := ([.url, .body, .authHeader].filter w.allocates).map .freed

def aiChat (w : Surroundings) (prompt : Memory) (resp : ChatResponse) : Int × ChatResponse × List Heap :=
  if !w.initialized then (-1, resp, [])
  else
    let resp : ChatResponse := { success := false, content := none, contentLen := 0, errorCode := 0 }
    let taken : List Heap := ([.url, .body, .authHeader].filter w.allocates).map .allocated
    if !(w.allocates .url && w.allocates .body && w.allocates .authHeader) then (-1, resp, taken ++ cleanup w)
    else
      let httpResp := w.http prompt
      if httpResp.ret < 0 then (httpResp.ret, { resp with errorCode := -1 }, taken ++ cleanup w)
      else if httpResp.statusCode ≠ 200 then
        (httpResp.ret, { resp with errorCode := httpResp.statusCode }, taken ++ [.freed .httpBody] ++ cleanup w)
      else
        match httpResp.body with
        | none => (httpResp.ret, resp, taken ++ cleanup w)
        | some body =>
            if httpResp.bodyLen ≤ 0 ∨ w.allocates .content = false then
              (httpResp.ret, resp, taken ++ [.freed .httpBody] ++ cleanup w)
            else
              let (clen, content) := extractContent body (cleared w.memory aiApiMaxResponse) aiApiMaxResponse
              if 0 < clen then
                (0, { resp with success := true, content := some content, contentLen := BitVec.ofInt 32 clen },
                  taken ++ [.allocated .content, .freed .httpBody] ++ cleanup w)
              else
                (httpResp.ret, { resp with errorCode := -2 },
                  taken ++ [.allocated .content, .freed .content, .freed .httpBody] ++ cleanup w)

/-- `ai_chat_response_free`. -/
def freeResponse (resp : ChatResponse) : List Heap := if resp.content.isSome then [.freed .content] else []

def escaped (s : List Byte) : List Byte := s.flatMap escape

/-- The body of a request without truncation. -/
def chatRequest (model prompt : List Byte) : List Byte :=
  ascii "\x7b\"model\":\"" ++ model ++ ascii "\",\"messages\":[\x7b\"role\":\"user\",\"content\":\"" ++
    escaped prompt ++ ascii "\"\x7d]\x7d"

section Building

variable {buf : Memory} {pos : Nat} {bufsize : Int} {s : List Byte}

/-- A string that fits is appended with its null byte. -/
theorem aiStrappend_fits (fits : pos + s.length < bufsize) :
    aiStrappend buf pos bufsize s = (put buf pos (s ++ [0]), pos + s.length) := by
  induction s generalizing buf pos with
  | nil => rfl
  | cons c s ih =>
      rw [List.length_cons] at fits
      have room : (pos : Int) < bufsize - 1 := by omega
      rw [aiStrappend, if_pos room, ih (by omega), List.length_cons, Nat.add_right_comm, Nat.add_assoc]
      rfl

theorem escape_length (c : Byte) : 1 ≤ (escape c).length ∧ (escape c).length ≤ 2 := by
  unfold escape
  split_ifs <;> simp

/-- An escaped string that fits with a byte to spare is written with its null byte. -/
theorem jsonEscapeString_fits (fits : pos + (escaped s).length + 1 < bufsize) :
    jsonEscapeString buf pos bufsize s = (put buf pos (escaped s ++ [0]), pos + (escaped s).length) := by
  induction s generalizing buf pos with
  | nil => rfl
  | cons c s ih =>
      have written := (escape_length c).1
      have whole : escaped (c :: s) = escape c ++ escaped s := rfl
      rw [whole, List.length_append] at fits
      have room : (pos : Int) < bufsize - 2 := by omega
      rw [jsonEscapeString, if_pos room, ih (by omega), whole, List.length_append, List.append_assoc, ← put_append,
        Nat.add_assoc]

/-- A string that fits is appended to the string in the buffer. -/
theorem aiStrappend_string {done : List Byte} (fits : (done ++ s).length < bufsize) :
    aiStrappend (put buf 0 (done ++ [0])) done.length bufsize s = (put buf 0 (done ++ s ++ [0]), (done ++ s).length) := by
  rw [List.length_append] at fits
  rw [aiStrappend_fits (by omega), ← put_string, Nat.zero_add, List.length_append]

theorem jsonEscapeString_string {done : List Byte} (fits : (done ++ escaped s).length + 1 < bufsize) :
    jsonEscapeString (put buf 0 (done ++ [0])) done.length bufsize s =
      (put buf 0 (done ++ escaped s ++ [0]), (done ++ escaped s).length) := by
  rw [List.length_append] at fits
  rw [jsonEscapeString_fits (by omega), ← put_string, Nat.zero_add, List.length_append]

theorem aiStrappend_bound (buf : Memory) (pos : Nat) (bufsize : Int) (s : List Byte) :
    (aiStrappend buf pos bufsize s).2 < bufsize ∨ (aiStrappend buf pos bufsize s).2 = pos := by
  induction s generalizing buf pos with
  | nil => exact Or.inr rfl
  | cons c s ih =>
      rw [aiStrappend]
      split
      · have bound := ih (put buf pos [c]) (pos + 1)
        omega
      · exact Or.inr rfl

theorem jsonEscapeString_bound (buf : Memory) (pos : Nat) (bufsize : Int) (s : List Byte) :
    (jsonEscapeString buf pos bufsize s).2 < bufsize ∨ (jsonEscapeString buf pos bufsize s).2 = pos := by
  induction s generalizing buf pos with
  | nil => exact Or.inr rfl
  | cons c s ih =>
      rw [jsonEscapeString]
      split
      · have written := (escape_length c).2
        have bound := ih (put buf pos (escape c)) (pos + (escape c).length)
        omega
      · exact Or.inr rfl

end Building

/-- A request that fits is written with its null byte. -/
theorem buildChatRequest_fits {model prompt : List Byte} {bufsize : Int} (buf : Memory)
    (fits : (chatRequest model prompt).length < bufsize) :
    buildChatRequest model prompt buf bufsize =
      (put buf 0 (chatRequest model prompt ++ [0]), (chatRequest model prompt).length) := by
  have tail : (ascii "\"\x7d]\x7d").length = 4 := rfl
  unfold chatRequest at fits ⊢
  simp only [List.length_append] at fits
  unfold buildChatRequest
  rw [aiStrappend_fits (by omega)]
  dsimp only
  rw [Nat.zero_add, aiStrappend_string (by simp only [List.length_append]; omega)]
  dsimp only
  rw [aiStrappend_string (by simp only [List.length_append]; omega)]
  dsimp only
  rw [jsonEscapeString_string (by simp only [List.length_append]; omega)]
  dsimp only
  rw [aiStrappend_string (by simp only [List.length_append]; omega)]

/-- The length that the code reports is the length of the request exactly when the request fits. -/
theorem buildChatRequest_whole_iff (model prompt : List Byte) (buf : Memory) (bufsize : Int) :
    (buildChatRequest model prompt buf bufsize).2 = (chatRequest model prompt).length ↔
      (chatRequest model prompt).length < bufsize := by
  constructor
  · intro whole
    have positive : 0 < (chatRequest model prompt).length := by
      have tail : (ascii "\"\x7d]\x7d").length = 4 := rfl
      simp only [chatRequest, List.length_append]
      omega
    have bound : (buildChatRequest model prompt buf bufsize).2 < bufsize ∨ (buildChatRequest model prompt buf bufsize).2 = 0 := by
      unfold buildChatRequest
      rcases aiStrappend_bound _ _ _ _ with small | same
      · exact Or.inl small
      rw [same]
      rcases jsonEscapeString_bound _ _ _ _ with small | same
      · exact Or.inl small
      rw [same]
      rcases aiStrappend_bound _ _ _ _ with small | same
      · exact Or.inl small
      rw [same]
      rcases aiStrappend_bound _ _ _ _ with small | same
      · exact Or.inl small
      rw [same]
      exact aiStrappend_bound _ _ _ _
    omega
  · intro fits
    rw [buildChatRequest_fits buf fits]

section Extracting

variable {contentSize : Int} {rounds i : Nat} {content : Memory} {rest s : List Byte}

/-- The loop reads an escaped byte back. -/
theorem extractLoop_escape (c : Byte) (room : i < contentSize - 4) :
    extractLoop contentSize (rounds + (escape c).length) (escape c ++ rest) i false content =
      extractLoop contentSize rounds rest (i + 1) false (put content i [c]) := by
  unfold escape
  split_ifs with special newline carriage tab
  · rcases special with rfl | rfl
    · simp [extractLoop, room, chr, unescape]
    · simp [extractLoop, room, chr, unescape]
  · subst newline
    simp [extractLoop, room, chr, unescape]
  · subst carriage
    simp [extractLoop, room, chr, unescape]
  · subst tab
    simp [extractLoop, room, chr, unescape]
  · obtain ⟨plain, real⟩ := not_or.mp special
    simp [extractLoop, room, plain, real]

/-- The loop reads an escaped string back up to the quote behind it. -/
theorem extractLoop_escaped (room : i + s.length ≤ contentSize - 4) (enough : (escaped s).length < rounds) :
    extractLoop contentSize rounds (escaped s ++ chr '"' :: rest) i false content = (put content i s, i + s.length) := by
  induction s generalizing rounds i content with
  | nil =>
      obtain ⟨n, rfl⟩ : ∃ n, rounds = n + 1 := ⟨rounds - 1, by omega⟩
      simp [escaped, extractLoop, put, chr]
  | cons c s ih =>
      have whole : escaped (c :: s) = escape c ++ escaped s := rfl
      rw [List.length_cons] at room
      rw [whole, List.length_append] at enough
      obtain ⟨n, rfl⟩ : ∃ n, rounds = n + (escape c).length := ⟨rounds - (escape c).length, by omega⟩
      rw [whole, List.append_assoc, extractLoop_escape c (by omega), ih (by omega) (by omega), List.length_cons,
        Nat.add_right_comm, Nat.add_assoc]
      rfl

end Extracting

section Bounds

variable {contentSize : Int} {rounds i : Nat} {pending : Bool} {content : Memory} {p : List Byte}

theorem encodeUtf8_length (codepoint : BitVec 32) (bufsize : Int) : (encodeUtf8 codepoint bufsize).length ≤ 4 := by
  unfold encodeUtf8
  split_ifs <;> simp

/-- The loop stays below the end of the buffer. -/
theorem extractLoop_bound (inside : i < contentSize) : (extractLoop contentSize rounds p i pending content).2 < contentSize := by
  induction rounds generalizing p i pending content with
  | zero => exact inside
  | succ rounds ih =>
      cases p with
      | nil => exact inside
      | cons c p =>
          rw [extractLoop]
          by_cases room : i < contentSize - 4
          · rw [if_pos room]
            cases pending with
            | true =>
                rw [if_pos rfl]
                by_cases letter : c = chr 'u'
                · rw [if_pos letter]
                  cases parseUnicodeEscape p with
                  | none => exact ih (by omega)
                  | some codepoint =>
                      dsimp only
                      generalize joinSurrogates codepoint p = joined
                      have short := encodeUtf8_length joined.1 (contentSize - i)
                      exact ih (by omega)
                · rw [if_neg letter]
                  exact ih (by omega)
            | false =>
                rw [if_neg Bool.false_ne_true]
                split
                · exact ih inside
                · split
                  · exact inside
                  · exact ih (by omega)
          · rw [if_neg room]
            exact inside

theorem extractContent_bound (json : List Byte) (content : Memory) (room : 0 < contentSize) :
    (extractContent json content contentSize).1 < contentSize := by
  unfold extractContent
  split
  · change (-1 : Int) < contentSize
    omega
  · split
    · change (-1 : Int) < contentSize
      omega
    · split
      · exact extractLoop_bound (by omega)
      · change (-1 : Int) < contentSize
        omega

end Bounds

/-- A response is complete and holds its buffer, or it holds none and the buffer has been freed if it was taken. -/
theorem aiChat_cases (w : Surroundings) (prompt : Memory) (resp : ChatResponse) :
    (∃ content len events, aiChat w prompt resp =
        (0, { success := true, content := some content, contentLen := len, errorCode := 0 }, events) ∧
      0 < len.toInt ∧ len.toInt < aiApiMaxResponse ∧
      events.count (.allocated .content) = 1 ∧ events.count (.freed .content) = 0) ∨
    ∃ ret resp' events, aiChat w prompt resp = (ret, resp', events) ∧
      (0 ≤ ret → resp'.success = false ∧ resp'.content = none) ∧
      events.count (.allocated .content) = events.count (.freed .content) ∧ events.count (.freed .content) ≤ 1 := by
  have others (ends : List Heap) : (∀ event ∈ ends, event ≠ .allocated .content ∧ event ≠ .freed .content) →
      ends.count (.allocated .content) = 0 ∧ ends.count (.freed .content) = 0 := by
    intro all
    exact ⟨List.count_eq_zero.mpr fun listed => (all _ listed).1 rfl, List.count_eq_zero.mpr fun listed => (all _ listed).2 rfl⟩
  have started := others (([.url, .body, .authHeader].filter w.allocates).map .allocated) (by
    intro event listed
    obtain ⟨buffer, member, rfl⟩ := List.mem_map.mp listed
    have own := (List.mem_filter.mp member).1
    simp only [List.mem_cons, List.not_mem_nil, or_false] at own
    rcases own with rfl | rfl | rfl <;> simp)
  have ended := others (cleanup w) (by
    intro event listed
    obtain ⟨buffer, member, rfl⟩ := List.mem_map.mp listed
    have own := (List.mem_filter.mp member).1
    simp only [List.mem_cons, List.not_mem_nil, or_false] at own
    rcases own with rfl | rfl | rfl <;> simp)
  obtain ⟨taken, held⟩ : ∃ taken, taken = ([Buffer.url, .body, .authHeader].filter w.allocates).map Heap.allocated := ⟨_, rfl⟩
  rw [← held] at started
  unfold aiChat
  rw [← held]
  split
  · exact Or.inr ⟨_, _, _, rfl, by simp⟩
  split
  · exact Or.inr ⟨_, _, _, rfl, by simp, by simp [started, ended]⟩
  dsimp only
  split
  · exact Or.inr ⟨_, _, _, rfl, by simp, by simp [started, ended]⟩
  split
  · exact Or.inr ⟨_, _, _, rfl, by simp, by simp [started, ended]⟩
  split
  · exact Or.inr ⟨_, _, _, rfl, by simp, by simp [started, ended]⟩
  rename_i body _
  split
  · exact Or.inr ⟨_, _, _, rfl, by simp, by simp [started, ended]⟩
  have bound := extractContent_bound body (cleared w.memory aiApiMaxResponse) (show (0 : Int) < aiApiMaxResponse by decide)
  split
  · rename_i full
    have size : aiApiMaxResponse = 4096 := rfl
    refine Or.inl ⟨_, _, _, rfl, ?_, ?_, by simp [started, ended], by simp [started, ended]⟩
    · rw [BitVec.toInt_ofInt, Int.bmod_eq_of_le] <;> omega
    · rw [BitVec.toInt_ofInt, Int.bmod_eq_of_le] <;> omega
  · exact Or.inr ⟨_, _, _, rfl, by simp, by simp [started, ended]⟩

section Searching

variable {needle rest first second : List Byte} {q : Byte}

/-- The search passes over bytes that the needle does not begin with. -/
theorem aiStrstr_skip (absent : q ∉ first) : aiStrstr (first ++ rest) (q :: needle) = aiStrstr rest (q :: needle) := by
  induction first with
  | nil => rfl
  | cons h first ih =>
      rw [List.mem_cons, not_or] at absent
      have different : starts (h :: (first ++ rest)) (q :: needle) = false := if_neg (Ne.symm absent.1)
      rw [List.cons_append, aiStrstr, different, if_neg Bool.false_ne_true, ih absent.2]

/-- Quoted words only match when what follows them matches. -/
theorem starts_quoted (absent : q ∉ first) (absentSecond : q ∉ second)
    (matched : starts (first ++ q :: rest) (second ++ q :: needle) = true) : starts rest needle = true := by
  induction first generalizing second with
  | nil =>
      cases second with
      | nil => simpa [starts] using matched
      | cons n second =>
          have different : q ≠ n := fun same => absentSecond (same ▸ List.mem_cons_self)
          simp [starts, different] at matched
  | cons h first ih =>
      rw [List.mem_cons, not_or] at absent
      cases second with
      | nil => simp [starts, Ne.symm absent.1] at matched
      | cons n second =>
          rw [List.mem_cons, not_or] at absentSecond
          rw [List.cons_append, List.cons_append, starts] at matched
          split at matched
          · exact ih absent.2 absentSecond.2 matched
          · exact absurd matched Bool.false_ne_true

end Searching

theorem content_key : ascii "\"content\":" = chr '"' :: (ascii "content" ++ chr '"' :: ascii ":") := rfl

/-- A word in quotes that no colon follows is not the key. -/
theorem starts_value {model rest : List Byte} (plain : chr '"' ∉ model) :
    starts (chr '"' :: (model ++ chr '"' :: chr ',' :: rest)) (ascii "\"content\":") = false := by
  rw [Bool.eq_false_iff]
  intro matched
  have word : chr '"' ∉ ascii "content" := by decide
  rw [content_key, starts, if_pos rfl] at matched
  exact absurd (starts_quoted plain word matched) Bool.false_ne_true

/-- The key of a request is found before its prompt, which may hold the key again. -/
theorem aiStrstr_request {model prompt : List Byte} (plain : chr '"' ∉ model) :
    aiStrstr (chatRequest model prompt) (ascii "\"content\":") =
      some (ascii "\"content\":\"" ++ escaped prompt ++ ascii "\"\x7d]\x7d") := by
  obtain ⟨tail, behind⟩ : ∃ tail, tail = escaped prompt ++ ascii "\"\x7d]\x7d" := ⟨_, rfl⟩
  have shape : chatRequest model prompt = ascii "\x7b\"model\":" ++ chr '"' ::
      (model ++ chr '"' :: chr ',' :: (ascii "\"messages\":[\x7b\"role\":\"user\"," ++ (ascii "\"content\":\"" ++ tail))) := by
    rw [behind]
    simp [chatRequest, ascii, chr]
  have opening (rest : List Byte) : aiStrstr (ascii "\x7b\"model\":" ++ rest) (ascii "\"content\":") =
      aiStrstr rest (ascii "\"content\":") := rfl
  have middle (rest : List Byte) :
      aiStrstr (chr '"' :: chr ',' :: (ascii "\"messages\":[\x7b\"role\":\"user\"," ++ rest)) (ascii "\"content\":") =
      aiStrstr rest (ascii "\"content\":") := rfl
  rw [shape, opening, aiStrstr, starts_value plain, if_neg Bool.false_ne_true]
  rw [content_key, aiStrstr_skip plain, ← content_key, middle, behind, List.append_assoc]
  rfl

/-- A request has no null byte before its end. -/
theorem chatRequest_clean (model prompt : Text) : 0 ∉ chatRequest model.bytes prompt.bytes := by
  have letter (c : Byte) (real : c ≠ 0) : 0 ∉ escape c := by
    have zero : ¬0#8 = c := Ne.symm real
    unfold escape
    split_ifs <;> simp [chr, zero]
  have inside : 0 ∉ escaped prompt.bytes := by
    intro listed
    obtain ⟨c, member, written⟩ := List.mem_flatMap.mp listed
    refine letter c ?_ written
    rintro rfl
    exact prompt.clean member
  have opening : (0 : Byte) ∉ ascii "\x7b\"model\":\"" := by decide
  have middle : (0 : Byte) ∉ ascii "\",\"messages\":[\x7b\"role\":\"user\",\"content\":\"" := by decide
  have closing : (0 : Byte) ∉ ascii "\"\x7d]\x7d" := by decide
  simp only [chatRequest, List.mem_append, not_or]
  exact ⟨⟨⟨⟨opening, model.clean⟩, middle⟩, inside⟩, closing⟩

/-- The content field of a request that fits is the prompt. -/
theorem chat_request_roundtrip (model prompt : Text) (buf content : Memory) (bufsize contentSize : Int)
    (plain : chr '"' ∉ model.bytes) (fits : (chatRequest model.bytes prompt.bytes).length < bufsize)
    (room : prompt.bytes.length ≤ contentSize - 4) :
    extractContent (string (buildChatRequest model.bytes prompt.bytes buf bufsize).1 0 bufsize.toNat) content contentSize =
      ((prompt.bytes.length : Int), put content 0 (prompt.bytes ++ [0])) := by
  have field : ((ascii "\"content\":\"" ++ escaped prompt.bytes ++ ascii "\"\x7d]\x7d").drop 10).dropWhile blank =
      chr '"' :: (escaped prompt.bytes ++ chr '"' :: ascii "\x7d]\x7d") := rfl
  have content_read : extractLoop contentSize (escaped prompt.bytes ++ chr '"' :: ascii "\x7d]\x7d").length
      (escaped prompt.bytes ++ chr '"' :: ascii "\x7d]\x7d") 0 false content =
      (put content 0 prompt.bytes, 0 + prompt.bytes.length) := by
    apply extractLoop_escaped
    · omega
    · rw [List.length_append, List.length_cons]
      omega
  rw [buildChatRequest_fits buf fits, string_put buf 0 (chatRequest_clean model prompt) (by omega), extractContent,
    aiStrstr_request plain]
  dsimp only
  rw [field]
  dsimp only
  rw [if_pos rfl, content_read, put_append]
  simp

/-- The prompt of this request holds the key, quotes and backslashes. -/
theorem chat_request_roundtrip_key :
    extractContent (string (buildChatRequest (ascii "gpt") (ascii "\\\"content\":\n\\\\\"") (fun _ => 0) 2048).1 0 2048)
      (fun _ => 0) 4096 = (15, put (fun _ => 0) 0 (ascii "\\\"content\":\n\\\\\"" ++ [0])) :=
  chat_request_roundtrip ⟨ascii "gpt", by decide⟩ ⟨ascii "\\\"content\":\n\\\\\"", by decide⟩ (fun _ => 0) (fun _ => 0)
    2048 4096 (by decide) (by decide) (by decide)

end BtbuOs.Net.AiApi
