import BtbuOs.Lib.Cursor
import BtbuOs.Lib.Decimal

namespace BtbuOs.Net.Http

open Bytes

/-- A letter of either case as a small one. -/
def lower (c : Byte) : Byte := if chr 'A' ≤ c ∧ c ≤ chr 'Z' then c + 32 else c

/-- The strings are what is readable from their pointers on. -/
def strcasecmpN : List Byte → List Byte → Nat → Option Int
  | _, _, 0 => some 0
  | c1 :: s1, c2 :: s2, n + 1 =>
      if lower c1 ≠ lower c2 then some ((lower c1).toNat - (lower c2).toNat)
      else if lower c1 = 0 then some 0
      else strcasecmpN s1 s2 n
  | _, _, _ + 1 => none

/-- `struct http_response`; the type is the string in its array, and the body has its null byte. -/
structure Response where
  statusCode : Int
  contentType : List Byte
  contentLength : Int
  body : Option (List Byte)
  bodyLen : Nat
  deriving DecidableEq

/-- The array `content_type` has 64 bytes. -/
def contentTypeSize : Nat := 64

def contentLengthName : List Byte := ascii "Content-Length:"

def contentTypeName : List Byte := ascii "Content-Type:"

/-- The part of the header loop for the header `Content-Length`. -/
def readContentLength (p : List Byte) (resp : Response) : Option Response := do
  let order ← strcasecmpN p (contentLengthName ++ [0]) 15
  if order = 0 then
    let v ← Cursor.skip (· = chr ' ') (p.drop 15)
    let (contentLength, _) ← Cursor.scan Decimal.isDigit (Decimal.wrapped 32) 0 v
    some { resp with contentLength }
  else some resp

/-- The loop that copies the type, with the room that is left in the array. -/
def copyType (room : Nat) : List Byte → Option (List Byte)
  | [] => none
  | c :: v =>
      if c = 0 ∨ c = chr '\r' ∨ c = chr '\n' ∨ c = chr ';' ∨ room = 0 then some []
      else (copyType (room - 1) v).map fun copied => c :: copied

/-- The part of the header loop for the header `Content-Type`. -/
def readContentType (p : List Byte) (resp : Response) : Option Response := do
  let order ← strcasecmpN p (contentTypeName ++ [0]) 13
  if order = 0 then
    let v ← Cursor.skip (· = chr ' ') (p.drop 13)
    let contentType ← copyType (contentTypeSize - 1) v
    some { resp with contentType }
  else some resp

/-- The end of the line of a pointer that is before the end. -/
def lineEnd (p : List Byte) : List Byte := Cursor.skipWithin (· ≠ chr '\n') p

theorem skipWithin_length (test : Byte → Bool) (p : List Byte) : (Cursor.skipWithin test p).length ≤ p.length := by
  rcases List.eq_nil_or_concat p with rfl | ⟨s, z, rfl⟩
  · exact Nat.le_refl _
  · rw [List.concat_eq_append, Cursor.skipWithin_eq, List.length_append, List.length_append]
    exact Nat.add_le_add_right (List.dropWhile_sublist test).length_le _

/-- The loop over the headers, whose pointer is before the end while more than a byte is left. -/
def headerLoop (p : List Byte) (resp : Response) : Option (List Byte × Response) :=
  if _inside : 1 < p.length then
    let length := p.length - (lineEnd p).length
    if length ≤ 1 ∨ length = 2 ∧ p.head? = some (chr '\r') then some ((lineEnd p).tail, resp)
    else do
      let resp ← readContentLength p resp
      let resp ← readContentType p resp
      headerLoop (lineEnd p).tail resp
  else some (p, resp)
  termination_by p.length
  decreasing_by
    have bound := skipWithin_length (· ≠ chr '\n') p
    rw [List.length_tail]
    unfold lineEnd
    omega

/-- The data has the byte `data[datalen]` behind its last one. There is no result when a byte behind that is read. -/
def httpParseResponse (allocates : Bool) (data : List Byte) : Option (Int × Response) :=
  let resp : Response := { statusCode := 0, contentType := [], contentLength := 0, body := none, bodyLen := 0 }
  if data.length - 1 < 12 then some (-1, resp)
  else
    let p := Cursor.skipWithin (· ≠ chr ' ') data
    if p.length ≤ 1 then some (-1, resp)
    else
      let (statusCode, p) := Cursor.scanWithin Decimal.isDigit (Decimal.wrapped 32) 0 p.tail
      let resp := { resp with statusCode }
      let p := lineEnd p
      if p.length ≤ 1 then some (-1, resp)
      else do
        let (p, resp) ← headerLoop p.tail resp
        if 1 < p.length then
          let bodyLen := p.length - 1
          let body := if allocates then some (p.take bodyLen ++ [0]) else none
          some (0, { resp with body, bodyLen })
        else some (0, resp)

/-- A header line: its name has no colon, and the line has no null byte and no end of line. -/
structure Field where
  name : List Byte
  value : List Byte
  named : chr ':' ∉ name
  clean : ∀ c ∈ name ++ value, c ≠ 0 ∧ c ≠ chr '\r' ∧ c ≠ chr '\n'

namespace Field

def line (f : Field) : List Byte := f.name ++ chr ':' :: f.value ++ [chr '\r', chr '\n']

/-- The name is compared without regard to case. -/
def isNamed (name : List Byte) (f : Field) : Bool := f.name.map lower = name

def trimmed (f : Field) : List Byte := f.value.dropWhile (· = chr ' ')

/-- The number of the digits behind the leading spaces. -/
def number (f : Field) : Nat := Decimal.value (f.trimmed.takeWhile Decimal.isDigit)

/-- The value behind the leading spaces up to a semicolon, cut to the array. -/
def type (f : Field) : List Byte := (f.trimmed.takeWhile (· ≠ chr ';')).take (contentTypeSize - 1)

def isContentLength (f : Field) : Bool := f.isNamed (ascii "content-length")

def isContentType (f : Field) : Bool := f.isNamed (ascii "content-type")

end Field

/-- A response as a server sends it. -/
structure Reply where
  version : Byte
  code : List Byte
  reason : List Byte
  fields : List Field
  body : List Byte
  numbered : Decimal.isDigit version = true
  digits : ∀ c ∈ code, Decimal.isDigit c = true
  clean : ∀ c ∈ reason, c ≠ 0 ∧ c ≠ chr '\r' ∧ c ≠ chr '\n'
  codeSmall : Decimal.value code < 2 ^ 31
  lengthSmall : ∀ f ∈ fields, f.isContentLength = true → f.number < 2 ^ 31

namespace Reply

def statusLine (r : Reply) : List Byte :=
  ascii "HTTP/1." ++ r.version :: chr ' ' :: r.code ++ chr ' ' :: r.reason ++ [chr '\r', chr '\n']

def text (r : Reply) : List Byte := r.statusLine ++ r.fields.flatMap Field.line ++ chr '\r' :: chr '\n' :: r.body

def contentLength (r : Reply) : Nat := ((r.fields.filter Field.isContentLength).getLast?.map Field.number).getD 0

def contentType (r : Reply) : List Byte := ((r.fields.filter Field.isContentType).getLast?.map Field.type).getD []

/-- What the parser has to find; an empty body has no memory. -/
def parsed (r : Reply) : Response where
  statusCode := Decimal.value r.code
  contentType := r.contentType
  contentLength := r.contentLength
  body := if r.body = [] then none else some (r.body ++ [0])
  bodyLen := r.body.length

end Reply

section Comparing

variable {p key name more : List Byte} {c : Byte}

theorem lower_eq_zero : lower c = 0 ↔ c = 0 := by
  revert c
  decide

theorem lower_eq_colon : lower c = chr ':' ↔ c = chr ':' := by
  revert c
  decide

/-- The comparison ends in front of the null byte, and it finds the words that are equal without regard to case. -/
theorem strcasecmpN_total (rest : List Byte) (ended : 0 ∈ p) (real : 0 ∉ key) :
    ∃ order, strcasecmpN p (key ++ rest) key.length = some order ∧ (order = 0 ↔ key.map lower <+: p.map lower) := by
  induction key generalizing p with
  | nil => exact ⟨0, by cases p <;> rfl, iff_of_true rfl (List.nil_prefix)⟩
  | cons k key ih =>
      rw [List.mem_cons, not_or] at real
      cases p with
      | nil => exact absurd ended List.not_mem_nil
      | cons c p =>
          rw [List.cons_append, List.length_cons, strcasecmpN]
          by_cases same : lower c = lower k
          · have nonzero : lower c ≠ 0 := by
              rw [same]
              exact fun zero => real.1 (lower_eq_zero.mp zero).symm
            have later : 0 ∈ p := by
              rcases List.mem_cons.mp ended with first | later
              · exact absurd (lower_eq_zero.mpr first.symm) nonzero
              · exact later
            obtain ⟨order, compared, found⟩ := ih later real.2
            refine ⟨order, ?_, ?_⟩
            · rw [if_neg (not_not.mpr same), if_neg nonzero, compared]
            · rw [found, List.map_cons, List.map_cons, same, List.cons_prefix_cons, and_iff_right rfl]
          · refine ⟨_, if_pos same, iff_of_false ?_ ?_⟩
            · intro zero
              have equal : (lower c).toNat = (lower k).toNat := by omega
              exact same (BitVec.eq_of_toNat_eq equal)
            · rw [List.map_cons, List.map_cons, List.cons_prefix_cons]
              exact fun both => same both.1.symm

/-- A header line is compared by its name. -/
theorem strcasecmpN_line (rest : List Byte) (ended : 0 ∈ more) (real : 0 ∉ key ++ [chr ':']) (named : chr ':' ∉ name)
    (plain : chr ':' ∉ key) : ∃ order,
      strcasecmpN (name ++ chr ':' :: more) (key ++ [chr ':'] ++ rest) (key ++ [chr ':']).length = some order ∧
      (order = 0 ↔ name.map lower = key.map lower) := by
  have colon (s : List Byte) (absent : chr ':' ∉ s) : chr ':' ∉ s.map lower := by
    intro listed
    obtain ⟨c, member, same⟩ := List.mem_map.mp listed
    exact absent (lower_eq_colon.mp same ▸ member)
  have whole : 0 ∈ name ++ chr ':' :: more := List.mem_append_right name (List.mem_cons_of_mem _ ended)
  obtain ⟨order, compared, found⟩ := strcasecmpN_total rest whole real
  refine ⟨order, compared, ?_⟩
  rw [found, List.map_append, List.map_append, List.map_cons]
  change List.map lower key ++ [chr ':'] <+: List.map lower name ++ chr ':' :: List.map lower more ↔ _
  rw [Cursor.prefix_separated (colon key plain) (colon name named), eq_comm]

end Comparing

section Headers

variable {f : Field} {resp : Response} {s p rest : List Byte}

theorem Field.line_append (f : Field) (rest : List Byte) :
    f.line ++ rest = f.name ++ chr ':' :: (f.value ++ chr '\r' :: chr '\n' :: rest) := by
  simp [Field.line]

theorem Field.trimmed_clean (f : Field) : ∀ c ∈ f.trimmed, c ≠ 0 ∧ c ≠ chr '\r' ∧ c ≠ chr '\n' := by
  intro c listed
  exact f.clean c (List.mem_append_right _ ((List.dropWhile_sublist _).subset listed))

/-- A loop that stops at a null byte ends in front of it. -/
theorem skip_ended (test : Byte → Bool) (stop : test 0 = false) (ended : 0 ∈ p) : ∃ q, Cursor.skip test p = some q ∧ 0 ∈ q := by
  obtain ⟨before, behind, rfl⟩ := List.append_of_mem ended
  exact ⟨_, Cursor.skip_stop stop, List.mem_append_right _ List.mem_cons_self⟩

theorem copyType_line (room : Nat) (clean : ∀ c ∈ s, c ≠ 0 ∧ c ≠ chr '\r' ∧ c ≠ chr '\n') :
    copyType room (s ++ chr '\r' :: p) = some ((s.takeWhile (· ≠ chr ';')).take room) := by
  induction s generalizing room with
  | nil =>
      rw [List.takeWhile_nil, List.take_nil]
      exact if_pos (by simp)
  | cons c s ih =>
      obtain ⟨zero, carriage, newline⟩ := clean c List.mem_cons_self
      rw [List.cons_append, copyType, List.takeWhile_cons]
      by_cases semicolon : c = chr ';'
      · simp [semicolon]
      · cases room with
        | zero => simp
        | succ room =>
            have plain : ¬(c = 0 ∨ c = chr '\r' ∨ c = chr '\n' ∨ c = chr ';' ∨ room + 1 = 0) := by
              simp only [zero, carriage, newline, semicolon, Nat.succ_ne_zero, or_self, not_false_eq_true]
            rw [if_neg plain, if_pos (by simpa using semicolon), List.take_succ_cons, Nat.add_sub_cancel,
              ih room fun d listed => clean d (List.mem_cons_of_mem c listed), Option.map_some]

theorem copyType_ended (room : Nat) (ended : 0 ∈ p) : ∃ copied, copyType room p = some copied := by
  induction p generalizing room with
  | nil => exact absurd ended List.not_mem_nil
  | cons c p ih =>
      rw [copyType]
      split
      · exact ⟨[], rfl⟩
      · rename_i plain
        have later : 0 ∈ p := (List.mem_cons.mp ended).resolve_left fun zero => plain (Or.inl zero.symm)
        obtain ⟨copied, done⟩ := ih (room - 1) later
        exact ⟨c :: copied, by rw [done, Option.map_some]⟩

/-- A header line begins with a name, or it does not, and its value is behind the name. -/
theorem Field.compared (f : Field) (key : List Byte) (ended : 0 ∈ rest) (real : 0 ∉ key ++ [chr ':']) (plain : chr ':' ∉ key) :
    ∃ order, strcasecmpN (f.line ++ rest) (key ++ [chr ':'] ++ [0]) (key ++ [chr ':']).length = some order ∧
      (order = 0 ↔ f.isNamed (key.map lower) = true) ∧
        (order = 0 → (f.line ++ rest).drop (key ++ [chr ':']).length = f.value ++ chr '\r' :: chr '\n' :: rest) := by
  have later : 0 ∈ f.value ++ chr '\r' :: chr '\n' :: rest :=
    List.mem_append_right _ (List.mem_cons_of_mem _ (List.mem_cons_of_mem _ ended))
  obtain ⟨order, compared, found⟩ := strcasecmpN_line [0] later real f.named plain
  rw [Field.line_append]
  refine ⟨order, compared, ?_, ?_⟩
  · rw [found, Field.isNamed, decide_eq_true_eq]
  · intro same
    have names := congrArg List.length (found.mp same)
    rw [List.length_map, List.length_map] at names
    rw [List.length_append, List.length_singleton, ← names, List.drop_append, List.drop_eq_nil_of_le (by omega), Nat.add_sub_cancel_left]
    rfl

theorem readContentLength_line (ended : 0 ∈ rest) (small : f.isContentLength = true → f.number < 2 ^ 31) :
    readContentLength (f.line ++ rest) resp =
      some { resp with contentLength := if f.isContentLength then (f.number : Int) else resp.contentLength } := by
  obtain ⟨order, compared, found, value⟩ := f.compared (ascii "Content-Length") ended (by decide) (by decide)
  have kind : order = 0 ↔ f.isContentLength = true := found
  change (strcasecmpN _ (ascii "Content-Length" ++ [chr ':'] ++ [0]) (ascii "Content-Length" ++ [chr ':']).length).bind _ = _
  rw [compared, Option.bind_some]
  by_cases same : order = 0
  · have number : (f.trimmed.takeWhile Decimal.isDigit).foldl (Decimal.wrapped 32) (0 : Nat) = (f.number : Int) := by
      have fits := small (kind.mp same)
      rw [Field.number, Decimal.value] at fits
      exact Decimal.foldl_wrapped (fun c listed => List.mem_takeWhile_imp listed) (by omega)
    have skipped : Cursor.skip (· = chr ' ') ((f.line ++ rest).drop 15) = some (f.trimmed ++ chr '\r' :: chr '\n' :: rest) :=
      (congrArg _ (value same)).trans (Cursor.skip_stop (by decide))
    have read : Cursor.scan Decimal.isDigit (Decimal.wrapped 32) 0 (f.trimmed ++ chr '\r' :: chr '\n' :: rest) =
        some ((f.number : Int), f.trimmed.dropWhile Decimal.isDigit ++ chr '\r' :: chr '\n' :: rest) := by
      rw [Cursor.scan_stop 0 (by decide)]
      exact congrArg (fun n => some (n, _)) number
    simp only [if_pos same, skipped, read, if_pos (kind.mp same), bind, Option.bind_some]
  · simp only [if_neg same, if_neg (kind.not.mp same)]

theorem readContentType_line (ended : 0 ∈ rest) : readContentType (f.line ++ rest) resp =
    some { resp with contentType := if f.isContentType then f.type else resp.contentType } := by
  obtain ⟨order, compared, found, value⟩ := f.compared (ascii "Content-Type") ended (by decide) (by decide)
  have kind : order = 0 ↔ f.isContentType = true := found
  change (strcasecmpN _ (ascii "Content-Type" ++ [chr ':'] ++ [0]) (ascii "Content-Type" ++ [chr ':']).length).bind _ = _
  rw [compared, Option.bind_some]
  by_cases same : order = 0
  · have skipped : Cursor.skip (· = chr ' ') ((f.line ++ rest).drop 13) = some (f.trimmed ++ chr '\r' :: chr '\n' :: rest) :=
      (congrArg _ (value same)).trans (Cursor.skip_stop (by decide))
    have copied : copyType (contentTypeSize - 1) (f.trimmed ++ chr '\r' :: chr '\n' :: rest) = some f.type :=
      copyType_line _ f.trimmed_clean
    simp only [if_pos same, skipped, copied, if_pos (kind.mp same), bind, Option.bind_some]
  · simp only [if_neg same, if_neg (kind.not.mp same)]

/-- A line ends at its first line feed. -/
theorem lineEnd_line {more : List Byte} (clean : chr '\n' ∉ s) : lineEnd (s ++ chr '\n' :: more ++ [0]) = chr '\n' :: more ++ [0] := by
  have passed : ∀ c ∈ s, decide (c ≠ chr '\n') = true := by
    intro c listed
    exact decide_eq_true fun newline => clean (newline ▸ listed)
  rw [lineEnd, Cursor.skipWithin_eq, Cursor.dropWhile_passed passed (by decide)]

theorem Field.newline (f : Field) : chr '\n' ∉ f.name ++ chr ':' :: f.value ++ [chr '\r'] := by
  intro listed
  rw [List.mem_append, List.mem_append, List.mem_cons, List.mem_singleton] at listed
  rcases listed with (name | colon | value) | carriage
  · exact (f.clean _ (List.mem_append_left _ name)).2.2 rfl
  · exact absurd colon (by decide)
  · exact (f.clean _ (List.mem_append_right _ value)).2.2 rfl
  · exact absurd carriage (by decide)

/-- What the loop keeps of a header line. -/
def Response.keep (resp : Response) (f : Field) : Response := { resp with
  contentLength := if f.isContentLength then (f.number : Int) else resp.contentLength
  contentType := if f.isContentType then f.type else resp.contentType }

/-- A round reads a header line, which is never blank. -/
theorem headerLoop_line {more : List Byte} (small : f.isContentLength = true → f.number < 2 ^ 31) :
    headerLoop (f.line ++ (more ++ [0])) resp = headerLoop (more ++ [0]) (resp.keep f) := by
  have ended : 0 ∈ more ++ [0] := List.mem_append_right _ List.mem_cons_self
  have shape : f.line ++ (more ++ [0]) = (f.name ++ chr ':' :: f.value ++ [chr '\r']) ++ chr '\n' :: more ++ [0] := by
    simp [Field.line]
  have stop : lineEnd (f.line ++ (more ++ [0])) = chr '\n' :: more ++ [0] := by rw [shape, lineEnd_line f.newline]
  have length : (f.line ++ (more ++ [0])).length = f.name.length + f.value.length + 2 + (more.length + 2) := by
    rw [shape]
    simp only [List.length_append, List.length_cons, List.length_nil]
    omega
  have written : (f.line ++ (more ++ [0])).length - (lineEnd (f.line ++ (more ++ [0]))).length = f.name.length + f.value.length + 2 := by
    rw [length, stop, List.length_append, List.length_cons, List.length_singleton]
    omega
  have full : ¬(f.name.length + f.value.length + 2 ≤ 1 ∨
      f.name.length + f.value.length + 2 = 2 ∧ (f.line ++ (more ++ [0])).head? = some (chr '\r')) := by
    rintro (short | ⟨empty, carriage⟩)
    · omega
    · have name : f.name = [] := List.eq_nil_of_length_eq_zero (by omega)
      rw [Field.line, name] at carriage
      exact absurd (Option.some.inj carriage) (by decide)
  rw [headerLoop, dif_pos (by omega), written]
  simp only [if_neg full, stop, readContentLength_line ended small, readContentType_line ended, bind, Option.bind_some]
  rfl

/-- The loop reads all header lines up to the blank one. -/
theorem headerLoop_fields {fields : List Field} {more : List Byte}
    (small : ∀ f ∈ fields, f.isContentLength = true → f.number < 2 ^ 31) :
    headerLoop (fields.flatMap Field.line ++ chr '\r' :: chr '\n' :: more ++ [0]) resp =
      some (more ++ [0], fields.foldl Response.keep resp) := by
  induction fields generalizing resp with
  | nil =>
      have stop : lineEnd (chr '\r' :: chr '\n' :: more ++ [0]) = chr '\n' :: more ++ [0] := lineEnd_line (s := [chr '\r']) (by decide)
      rw [List.flatMap_nil, List.nil_append, headerLoop, stop, dif_pos (by simp)]
      simp
  | cons f fields ih =>
      have first := small f List.mem_cons_self
      have shape : (f :: fields).flatMap Field.line ++ chr '\r' :: chr '\n' :: more ++ [0] =
          f.line ++ (fields.flatMap Field.line ++ chr '\r' :: chr '\n' :: more ++ [0]) := by simp
      rw [shape, headerLoop_line first]
      exact ih fun g listed => small g (List.mem_cons_of_mem f listed)

/-- The last header of a kind decides. -/
theorem foldl_keep (fields : List Field) (resp : Response) : fields.foldl Response.keep resp = { resp with
    contentLength := ((fields.filter Field.isContentLength).getLast?.map fun f => (f.number : Int)).getD resp.contentLength
    contentType := ((fields.filter Field.isContentType).getLast?.map Field.type).getD resp.contentType } := by
  have split (fields : List Field) (resp : Response) : fields.foldl Response.keep resp = { resp with
      contentLength := fields.foldl (fun old f => if f.isContentLength then (f.number : Int) else old) resp.contentLength
      contentType := fields.foldl (fun old f => if f.isContentType then f.type else old) resp.contentType } := by
    induction fields generalizing resp with
    | nil => rfl
    | cons f fields ih => exact ih (resp.keep f)
  rw [split, Cursor.foldl_last, Cursor.foldl_last]

end Headers

section Parsing

/-- The parser finds the parts of a response that a server sends. -/
theorem httpParseResponse_text (r : Reply) : httpParseResponse true (r.text ++ [0]) = some (0, r.parsed) := by
  obtain ⟨more, shape⟩ : ∃ more, more = r.fields.flatMap Field.line ++ chr '\r' :: chr '\n' :: r.body := ⟨_, rfl⟩
  have text : r.text = ascii "HTTP/1." ++ r.version :: chr ' ' :: (r.code ++ chr ' ' :: (r.reason ++ chr '\r' :: chr '\n' :: more)) := by
    simp [Reply.text, Reply.statusLine, shape]
  have long : ¬(r.text ++ [0]).length - 1 < 12 := by
    rw [text, shape]
    simp [ascii]
    omega
  have version : Cursor.skipWithin (· ≠ chr ' ') (r.text ++ [0]) =
      chr ' ' :: (r.code ++ chr ' ' :: (r.reason ++ chr '\r' :: chr '\n' :: more)) ++ [0] := by
    have name : ∀ c ∈ ascii "HTTP/1." ++ [r.version], decide (c ≠ chr ' ') = true := by
      intro c listed
      rcases List.mem_append.mp listed with fixed | last
      · exact (by decide : ∀ c ∈ ascii "HTTP/1.", decide (c ≠ chr ' ') = true) c fixed
      · rw [List.mem_singleton.mp last]
        apply decide_eq_true
        intro space
        have digit := r.numbered
        rw [space] at digit
        exact absurd digit (by decide)
    rw [text, Cursor.skipWithin_eq, ← List.singleton_append (x := r.version), ← List.append_assoc,
      Cursor.dropWhile_passed name (by decide)]
  have status : Cursor.scanWithin Decimal.isDigit (Decimal.wrapped 32) 0
      (r.code ++ chr ' ' :: (r.reason ++ chr '\r' :: chr '\n' :: more) ++ [0]) =
        ((Decimal.value r.code : Int), chr ' ' :: (r.reason ++ chr '\r' :: chr '\n' :: more) ++ [0]) := by
    have small := r.codeSmall
    rw [Decimal.value] at small
    have value : r.code.foldl (Decimal.wrapped 32) (0 : Nat) = (Decimal.value r.code : Int) := Decimal.foldl_wrapped r.digits (by omega)
    rw [Cursor.scanWithin_eq, Cursor.dropWhile_passed r.digits (by decide), List.takeWhile_append_of_pos r.digits,
      List.takeWhile_cons_of_neg (by decide), List.append_nil]
    exact congrArg (fun n => (n, _)) value
  have line : lineEnd (chr ' ' :: (r.reason ++ chr '\r' :: chr '\n' :: more) ++ [0]) = chr '\n' :: more ++ [0] := by
    have clean : chr '\n' ∉ chr ' ' :: r.reason ++ [chr '\r'] := by
      intro listed
      rw [List.mem_append, List.mem_cons, List.mem_singleton] at listed
      rcases listed with (space | reason) | carriage
      · exact absurd space (by decide)
      · exact (r.clean _ reason).2.2 rfl
      · exact absurd carriage (by decide)
    have whole : chr ' ' :: (r.reason ++ chr '\r' :: chr '\n' :: more) ++ [0] =
        (chr ' ' :: r.reason ++ [chr '\r']) ++ chr '\n' :: more ++ [0] := by simp
    rw [whole, lineEnd_line clean]
  have headers (resp : Response) : headerLoop (more ++ [0]) resp = some (r.body ++ [0], r.fields.foldl Response.keep resp) := by
    rw [shape]
    exact headerLoop_fields r.lengthSmall
  rw [httpParseResponse]
  simp only [if_neg long, version]
  rw [if_neg (by simp)]
  rw [List.cons_append, List.tail_cons]
  simp only [status, line]
  rw [if_neg (by simp), List.cons_append, List.tail_cons, headers, foldl_keep]
  have length : ((r.fields.filter Field.isContentLength).getLast?.map fun f => (f.number : Int)).getD 0 = r.contentLength := by
    rw [Reply.contentLength]
    cases (r.fields.filter Field.isContentLength).getLast? <;> rfl
  simp only [bind, Option.bind_some, length, List.length_append, List.length_singleton, Nat.add_sub_cancel, List.take_left, if_true]
  rw [Reply.parsed, Reply.contentType]
  cases body : r.body with
  | nil => rfl
  | cons c rest =>
      rw [if_pos (by simp), if_neg (List.cons_ne_nil c rest)]

/-- A name that is found is in front of the null byte. -/
theorem compared_total {p key : List Byte} (ended : 0 ∈ p) (real : 0 ∉ key) :
    ∃ order, strcasecmpN p (key ++ [0]) key.length = some order ∧ (order = 0 → 0 ∈ p.drop key.length) := by
  obtain ⟨order, compared, found⟩ := strcasecmpN_total [0] ended real
  refine ⟨order, compared, fun same => ?_⟩
  have equal : (p.take key.length).map lower = key.map lower := by
    have taken := List.prefix_iff_eq_take.mp (found.mp same)
    rw [List.length_map, ← List.map_take] at taken
    exact taken.symm
  rw [← List.take_append_drop key.length p] at ended
  refine (List.mem_append.mp ended).resolve_left fun listed => ?_
  have zero : lower 0 ∈ key.map lower := equal ▸ List.mem_map_of_mem listed
  obtain ⟨c, member, same⟩ := List.mem_map.mp zero
  exact real (lower_eq_zero.mp (same.trans (lower_eq_zero.mpr rfl)) ▸ member)

theorem readContentLength_total {p : List Byte} (resp : Response) (ended : 0 ∈ p) : ∃ resp', readContentLength p resp = some resp' := by
  obtain ⟨order, compared, behind⟩ := compared_total ended (show 0 ∉ contentLengthName by decide)
  change ∃ resp', (strcasecmpN p (contentLengthName ++ [0]) contentLengthName.length).bind _ = some resp'
  rw [compared, Option.bind_some]
  by_cases same : order = 0
  · obtain ⟨q, skipped, real⟩ := skip_ended (· = chr ' ') (by decide) (behind same)
    have read : Cursor.skip (· = chr ' ') (p.drop 15) = some q := skipped
    obtain ⟨before, rest, rfl⟩ := List.append_of_mem real
    have number : Cursor.scan Decimal.isDigit (Decimal.wrapped 32) 0 (before ++ 0 :: rest) = some _ := Cursor.scan_stop 0 (by decide)
    simp only [if_pos same, read, number, bind, Option.bind_some]
    exact ⟨_, rfl⟩
  · exact ⟨resp, if_neg same⟩

theorem readContentType_total {p : List Byte} (resp : Response) (ended : 0 ∈ p) : ∃ resp', readContentType p resp = some resp' := by
  obtain ⟨order, compared, behind⟩ := compared_total ended (show 0 ∉ contentTypeName by decide)
  change ∃ resp', (strcasecmpN p (contentTypeName ++ [0]) contentTypeName.length).bind _ = some resp'
  rw [compared, Option.bind_some]
  by_cases same : order = 0
  · obtain ⟨q, skipped, real⟩ := skip_ended (· = chr ' ') (by decide) (behind same)
    have read : Cursor.skip (· = chr ' ') (p.drop 13) = some q := skipped
    obtain ⟨copied, done⟩ := copyType_ended (contentTypeSize - 1) real
    simp only [if_pos same, read, done, bind, Option.bind_some]
    exact ⟨_, rfl⟩
  · exact ⟨resp, if_neg same⟩

/-- The pointer goes from line to line up to the null byte or to the place behind it. -/
theorem headerLoop_total (s : List Byte) (resp : Response) : ∃ left, headerLoop (s ++ [0]) resp = some left := by
  induction length : s.length using Nat.strong_induction_on generalizing s resp with
  | _ n ih =>
      have ended : 0 ∈ s ++ [0] := List.mem_append_right s List.mem_cons_self
      have stop : lineEnd (s ++ [0]) = s.dropWhile (· ≠ chr '\n') ++ [0] := Cursor.skipWithin_eq s 0
      have shorter := (List.dropWhile_sublist (· ≠ chr '\n') (l := s)).length_le
      rw [headerLoop]
      split
      · dsimp only
        split
        · exact ⟨_, rfl⟩
        · obtain ⟨first, length_read⟩ := readContentLength_total resp ended
          obtain ⟨second, type_read⟩ := readContentType_total first ended
          simp only [length_read, type_read, stop, bind, Option.bind_some]
          cases left : s.dropWhile (· ≠ chr '\n') with
          | nil => exact ⟨([], second), by rw [List.nil_append, List.tail_cons, headerLoop, dif_neg (by simp)]⟩
          | cons c t =>
              rw [left, List.length_cons] at shorter
              exact ih t.length (by omega) t second rfl
      · exact ⟨_, rfl⟩

/-- The parser ends on all data and reads nothing behind the null byte. -/
theorem httpParseResponse_total (allocates : Bool) (s : List Byte) : ∃ result, httpParseResponse allocates (s ++ [0]) = some result := by
  rw [httpParseResponse, Cursor.skipWithin_eq]
  dsimp only
  split
  · exact ⟨_, rfl⟩
  split
  · exact ⟨_, rfl⟩
  rename_i version
  cases left : s.dropWhile (· ≠ chr ' ') with
  | nil => exact absurd version (by rw [left]; decide)
  | cons space p =>
      rw [List.cons_append, List.tail_cons, Cursor.scanWithin_eq]
      dsimp only
      rw [lineEnd, Cursor.skipWithin_eq]
      split
      · exact ⟨_, rfl⟩
      rename_i line
      cases rest : (p.dropWhile Decimal.isDigit).dropWhile (· ≠ chr '\n') with
      | nil => exact absurd line (by rw [rest]; decide)
      | cons newline q =>
          rw [List.cons_append, List.tail_cons]
          obtain ⟨left, ended⟩ := headerLoop_total q _
          rw [ended]
          simp only [bind, Option.bind_some]
          split
          · exact ⟨_, rfl⟩
          · exact ⟨_, rfl⟩

/-- The parser inverts the grammar of responses, and on any data it ends and reads nothing behind the null byte. -/
theorem httpParseResponse_inverts : (∀ r : Reply, httpParseResponse true (r.text ++ [0]) = some (0, r.parsed)) ∧
    ∀ allocates s, ∃ result, httpParseResponse allocates (s ++ [0]) = some result :=
  ⟨httpParseResponse_text, httpParseResponse_total⟩

end Parsing

end BtbuOs.Net.Http
