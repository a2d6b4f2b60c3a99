import BtbuOs.Net.AiApi
import BtbuOs.Net.HttpResponse
import BtbuOs.Net.HttpUrl
import BtbuOs.Net.Input

namespace BtbuOs.Net.Http

open Bytes
open Tcp (Endpoint)

/-- The values of `HTTP_METHOD_*`. -/
inductive Method where
  | get | post
  deriving DecidableEq

/-- `struct http_request`; a string ends within its array, and the body is what memory holds from its address on. -/
structure Request where
  method : Method
  host : List Byte
  port : BitVec 16
  path : List Byte
  body : Option Memory
  bodyLen : Int
  contentType : List Byte
  authorization : List Byte
  rooted : path.head? = some (chr '/')
  hostFits : host.length < 64
  pathFits : path.length < 128
  contentTypeFits : contentType.length < 64
  authorizationFits : authorization.length < 256
  bodyLenFits : bodyLen < 2 ^ 31

/-- The first loop of `itoa_simple`. Every round drops a digit, so that the number bounds the rounds. -/
def itoaDigits : Nat → Nat → List Byte → List Byte
  | 0, _, tmp => tmp
  | rounds + 1, num, tmp => if num = 0 then tmp else itoaDigits rounds (num / 10) (tmp ++ [Decimal.digit (num % 10)])

/-- The text that `itoa_simple` writes, as far as there is room. -/
def itoaSimple (num : Int) (bufsize : Nat) : List Byte :=
  let sign := if num < 0 then [chr '-'] else []
  let tmp := if num = 0 then [chr '0'] else itoaDigits num.natAbs num.natAbs []
  (sign ++ tmp.reverse).take (bufsize - 1)

def strappend (buf : Memory) (pos : Nat) (bufsize : Int) (s : List Byte) : Memory × Nat := AiApi.aiStrappend buf pos bufsize s

def methodStr : Method → List Byte
  | .get => ascii "GET"
  | .post => ascii "POST"

/-- A request has a body when it is a post with a length. -/
def Request.Posts (req : Request) : Prop := req.method = .post ∧ 0 < req.bodyLen

instance (req : Request) : Decidable req.Posts := inferInstanceAs (Decidable (_ ∧ _))

/-- The strings that `http_build_request` appends in front of the body, in their order. -/
def pieces (req : Request) : List (List Byte) :=
  [methodStr req.method, ascii " ", req.path, ascii " HTTP/1.1\r\n", ascii "Host: ", req.host, ascii "\r\n",
    ascii "User-Agent: uCore-HTTP/1.0\r\n", ascii "Connection: close\r\n"] ++
  (if req.Posts then
    [ascii "Content-Type: ", if req.contentType ≠ [] then req.contentType else ascii "application/json", ascii "\r\n",
      ascii "Content-Length: ", itoaSimple req.bodyLen 16, ascii "\r\n"]
  else []) ++
  (if req.authorization ≠ [] then [ascii "Authorization: ", req.authorization, ascii "\r\n"] else []) ++
  [ascii "\r\n"]

/-- The buffer with the request, and its length. A sum of lengths that is no `int` has no defined result. -/
def httpBuildRequest (req : Request) (buf : Memory) (bufsize : Int) : Option (Memory × Nat) :=
  let head : Memory × Nat := (pieces req).foldl (fun done s => strappend done.1 done.2 bufsize s) (buf, 0)
  match req.body with
  | none => some head
  | some body =>
      if req.Posts then
        if 2 ^ 31 ≤ head.2 + req.bodyLen then none
        else if head.2 + req.bodyLen < bufsize then
          some (splice head.1 head.2 req.bodyLen.toNat body, head.2 + req.bodyLen.toNat)
        else some head
      else some head

/-- The loop of `parse_ip` over the bytes that are left. -/
def parseIpLoop : Nat → List Byte → List Byte
  | 0, _ => []
  | left + 1, sp =>
      let (val, sp) := Decimal.scan (fun (val : BitVec 32) c => val * 10 + (c - chr '0').setWidth 32) 0 sp
      val.setWidth 8 :: parseIpLoop left (skipChar (chr '.') sp)

def parseIp (s : List Byte) : IpAddr := load32 (fun k => (parseIpLoop 4 s).getD k 0) 0

/-- What surrounds a call: the buffers, the results of the calls of TCP, the bytes that the calls of `tcp_receive` find
one after the other, and whether there is memory for a body. -/
structure Wire where
  sendbuf : Option Memory
  recvbuf : Option Memory
  tcpOpen : Int
  tcpConnect : Endpoint → Int
  tcpSend : List Byte → Int
  chunks : List (List Byte)
  allocates : Bool

/-- The receive loop: a call gets no more than there is room for, and one without a byte ends the loop. -/
def receiveLoop (room : Nat) : List (List Byte) → List Byte
  | [] => []
  | chunk :: chunks =>
      if room = 0 ∨ chunk = [] then []
      else if chunk.length ≤ room then chunk ++ receiveLoop (room - chunk.length) chunks
      else chunk.take room

/-- The result of a call, the response, and the bytes that went to `tcp_send`. -/
structure Execution where
  ret : Int
  resp : Response
  sent : Option (List Byte)

def httpExecute (w : Wire) (req : Request) (resp : Response) : Option Execution :=
  match w.sendbuf, w.recvbuf with
  | some sendbuf, some _ =>
      if w.tcpOpen < 0 then some ⟨-1, resp, none⟩
      else if w.tcpConnect ⟨parseIp req.host, hton16 req.port⟩ < 0 then some ⟨-1, resp, none⟩
      else
        (httpBuildRequest req sendbuf pgsize).bind fun (sendbuf, sendlen) =>
          let bytes := slice sendbuf 0 sendlen
          if w.tcpSend bytes < 0 then some ⟨-1, resp, some bytes⟩
          else
            let received := receiveLoop (pgsize - 1) w.chunks
            if received = [] then some ⟨-1, resp, some bytes⟩
            else
              (httpParseResponse w.allocates (received ++ [0])).bind fun (ret, resp) => some ⟨ret, resp, some bytes⟩
  | _, _ => some ⟨-1, resp, none⟩

/-- The request of a call; the strings of the caller are cut to their arrays. -/
def request (method : Method) (url : List Byte) (contentType : Option (List Byte)) (body : Option Memory) (bodyLen : BitVec 32)
    (auth : Option (List Byte)) : Request where
  method
  host := (httpParseUrl url 64 128).host
  port := (httpParseUrl url 64 128).port
  path := (httpParseUrl url 64 128).path
  body
  bodyLen := bodyLen.toInt
  contentType := (contentType.getD []).take 63
  authorization := (auth.getD []).take 255
  rooted := (httpParseUrl_fits url (by decide) (by decide)).2.2
  hostFits := (httpParseUrl_fits url (by decide) (by decide)).1
  pathFits := (httpParseUrl_fits url (by decide) (by decide)).2.1
  contentTypeFits := Nat.lt_succ_of_le (List.length_take_le 63 _)
  authorizationFits := Nat.lt_succ_of_le (List.length_take_le 255 _)
  bodyLenFits := by
    have bound := BitVec.toInt_lt (x := bodyLen)
    omega

/-- A call fails without a message when the URL does. -/
def perform (w : Wire) (url : List Byte) (req : Request) (resp : Response) : Option Execution :=
  if (httpParseUrl url 64 128).ret < 0 then some ⟨-1, resp, none⟩ else httpExecute w req resp

def httpGet (w : Wire) (url : List Byte) (resp : Response) : Option Execution :=
  perform w url (request .get url none none 0 none) resp

def httpPost (w : Wire) (url : List Byte) (contentType : Option (List Byte)) (body : Option Memory) (bodyLen : BitVec 32)
    (resp : Response) : Option Execution :=
  perform w url (request .post url contentType body bodyLen none) resp

def httpPostWithAuth (w : Wire) (url : List Byte) (contentType : Option (List Byte)) (body : Option Memory) (bodyLen : BitVec 32)
    (auth : Option (List Byte)) (resp : Response) : Option Execution :=
  perform w url (request .post url contentType body bodyLen auth) resp

/-- The bytes are a request with a target, with header lines, and with a body of the length that the lines announce. -/
structure IsRequest (bytes method target : List Byte) (fields : List (List Byte × List Byte)) (body : List Byte) : Prop where
  text : bytes = method ++ ascii " " ++ target ++ ascii " HTTP/1.1\r\n" ++
    fields.flatMap (fun f => f.1 ++ ascii ": " ++ f.2 ++ ascii "\r\n") ++ ascii "\r\n" ++ body
  target_clean : ∀ c ∈ target, c ≠ chr ' ' ∧ c ≠ chr '\r' ∧ c ≠ chr '\n'
  fields_clean : ∀ f ∈ fields, chr ':' ∉ f.1 ∧ ∀ c ∈ f.1 ++ f.2, c ≠ chr '\r' ∧ c ≠ chr '\n'
  framed : body.length = ((fields.find? fun f => f.1 = ascii "Content-Length").map fun f => Decimal.value f.2).getD 0

/-- The header lines that say what a request holds. -/
def requestFields (req : Request) : List (List Byte × List Byte) :=
  [(ascii "Host", req.host), (ascii "User-Agent", ascii "uCore-HTTP/1.0"), (ascii "Connection", ascii "close")] ++
  (if req.Posts then
    [(ascii "Content-Type", if req.contentType ≠ [] then req.contentType else ascii "application/json"),
      (ascii "Content-Length", Decimal.text req.bodyLen.toNat)]
  else []) ++
  (if req.authorization ≠ [] then [(ascii "Authorization", req.authorization)] else [])

/-- The bytes are the whole request with its body. -/
def Whole (req : Request) (bytes : List Byte) : Prop :=
  ∃ body, IsRequest bytes (methodStr req.method) req.path (requestFields req) body ∧
    (req.Posts → ∃ mem, req.body = some mem ∧ body = slice mem 0 req.bodyLen.toNat)

/-- Whatever surrounds the call, nothing but the whole request is sent. -/
def WellFramed (req : Request) : Prop :=
  ∀ w resp, ∃ e, httpExecute w req resp = some e ∧ ∀ bytes ∈ e.sent, Whole req bytes

/-- The text in front of the body. -/
def headText (req : Request) : List Byte :=
  methodStr req.method ++ ascii " " ++ req.path ++ ascii " HTTP/1.1\r\n" ++
    (requestFields req).flatMap (fun f => f.1 ++ ascii ": " ++ f.2 ++ ascii "\r\n") ++ ascii "\r\n"

/-- No string ends its part of the request. -/
structure Request.Clean (req : Request) : Prop where
  target : ∀ c ∈ req.path, c ≠ chr ' ' ∧ c ≠ chr '\r' ∧ c ≠ chr '\n'
  host : ∀ c ∈ req.host, c ≠ chr '\r' ∧ c ≠ chr '\n'
  type : req.Posts → ∀ c ∈ req.contentType, c ≠ chr '\r' ∧ c ≠ chr '\n'
  auth : ∀ c ∈ req.authorization, c ≠ chr '\r' ∧ c ≠ chr '\n'

section Building

variable {req : Request} {bufsize : Int} {num rounds room : Nat} {tmp : List Byte}

theorem itoaDigits_eq (enough : num ≤ rounds) : itoaDigits rounds num tmp = tmp ++ (Nat.digits 10 num).map Decimal.digit := by
  induction rounds generalizing num tmp with
  | zero =>
      obtain rfl : num = 0 := by omega
      simp [itoaDigits]
  | succ rounds ih =>
      rw [itoaDigits]
      split
      · rename_i zero
        simp [zero]
      · rename_i positive
        rw [ih (by omega), Nat.digits_def' (by decide) (by omega : 0 < num), List.map_cons, List.append_assoc, List.singleton_append]

/-- A positive number that fits is written as its text. -/
theorem itoaSimple_text {n : Int} (positive : 0 < n) (fits : (Decimal.text n.toNat).length < room) :
    itoaSimple n room = Decimal.text n.toNat := by
  have natural : n.natAbs = n.toNat := by omega
  have text : Decimal.text n.toNat = (itoaDigits n.natAbs n.natAbs []).reverse := by
    rw [natural, itoaDigits_eq (Nat.le_refl _), List.nil_append]
    exact if_neg (by omega)
  rw [itoaSimple, if_neg (by omega), if_neg (by omega), List.nil_append, ← text]
  exact List.take_of_length_le (by omega)

/-- The appended strings make up the head. -/
theorem pieces_flatten (req : Request) : (pieces req).flatten = headText req := by
  have number (posts : req.Posts) : itoaSimple req.bodyLen 16 = Decimal.text req.bodyLen.toNat := by
    have small := req.bodyLenFits
    have positive := posts.2
    apply itoaSimple_text positive
    have digits : (Decimal.text req.bodyLen.toNat).length ≤ 10 := (Decimal.length_text_le (by decide)).mpr (by omega)
    omega
  rw [pieces, headText, requestFields]
  by_cases posts : req.Posts
  · rw [if_pos posts, if_pos posts, number posts]
    by_cases auth : req.authorization ≠ []
    · rw [if_pos auth, if_pos auth]
      simp [ascii]
    · rw [if_neg auth, if_neg auth]
      simp [ascii]
  · rw [if_neg posts, if_neg posts]
    by_cases auth : req.authorization ≠ []
    · rw [if_pos auth, if_pos auth]
      simp [ascii]
    · rw [if_neg auth, if_neg auth]
      simp [ascii]

/-- The head always fits in the send buffer. -/
theorem headText_length (req : Request) : (headText req).length < 1024 := by
  have host := req.hostFits
  have path := req.pathFits
  have type := req.contentTypeFits
  have auth := req.authorizationFits
  have method : (methodStr req.method).length ≤ 4 := by cases req.method <;> decide
  have kind : (if req.contentType ≠ [] then req.contentType else ascii "application/json").length < 64 := by
    split
    · exact type
    · decide
  have number : (itoaSimple req.bodyLen 16).length < 16 := Nat.lt_succ_of_le (List.length_take_le 15 _)
  obtain ⟨shown, text⟩ : ∃ shown, shown = if req.contentType ≠ [] then req.contentType else ascii "application/json" := ⟨_, rfl⟩
  rw [← text] at kind
  have posted : ((if req.Posts then [ascii "Content-Type: ", shown, ascii "\r\n", ascii "Content-Length: ", itoaSimple req.bodyLen 16,
      ascii "\r\n"] else []).map List.length).sum ≤ 120 := by
    split
    · simp [ascii]
      omega
    · exact Nat.zero_le _
  have signed : ((if req.authorization ≠ [] then
      [ascii "Authorization: ", req.authorization, ascii "\r\n"] else []).map List.length).sum ≤ 280 := by
    split
    · simp [ascii]
      omega
    · exact Nat.zero_le _
  rw [← pieces_flatten, List.length_flatten, pieces, ← text]
  simp only [List.map_append, List.sum_append]
  have first : ([methodStr req.method, ascii " ", req.path, ascii " HTTP/1.1\r\n", ascii "Host: ", req.host, ascii "\r\n",
      ascii "User-Agent: uCore-HTTP/1.0\r\n", ascii "Connection: close\r\n"].map List.length).sum ≤ 280 := by
    simp [ascii]
    omega
  have last : ([ascii "\r\n"].map List.length).sum = 2 := rfl
  omega

/-- Strings that fit are appended one after the other. -/
theorem foldl_strappend {done : List Byte} (buf : Memory) (strings : List (List Byte)) (fits : (done ++ strings.flatten).length < bufsize) :
    strings.foldl (fun done s => strappend done.1 done.2 bufsize s) (put buf 0 (done ++ [0]), done.length) =
      (put buf 0 (done ++ strings.flatten ++ [0]), (done ++ strings.flatten).length) := by
  induction strings generalizing done with
  | nil => simp
  | cons s strings ih =>
      rw [List.flatten_cons, ← List.append_assoc] at fits ⊢
      have here : (done ++ s).length < bufsize := by
        rw [List.length_append] at fits
        omega
      rw [List.foldl_cons, strappend, AiApi.aiStrappend_string here]
      exact ih fits

/-- The head is built with its null byte. -/
theorem foldl_pieces (buf : Memory) (room : 1024 ≤ bufsize) :
    (pieces req).foldl (fun done s => strappend done.1 done.2 bufsize s) (buf, 0) =
      (put buf 0 (headText req ++ [0]), (headText req).length) := by
  have fits := headText_length req
  obtain ⟨s, strings, shape⟩ : ∃ s strings, pieces req = s :: strings := ⟨_, _, rfl⟩
  have whole := pieces_flatten req
  rw [shape, List.flatten_cons] at whole
  rw [← whole] at fits ⊢
  have first : strappend buf 0 bufsize s = (put buf 0 (s ++ [0]), s.length) := by
    rw [List.length_append] at fits
    rw [strappend, AiApi.aiStrappend_fits (by omega), Nat.zero_add]
  rw [shape, List.foldl_cons, first]
  exact foldl_strappend buf strings (by omega)

/-- The bytes of a body that fits stand behind the head. -/
theorem slice_body (buf mem : Memory) (head : List Byte) (len : Nat) :
    slice (splice (put buf 0 (head ++ [0])) head.length len mem) 0 (head.length + len) = head ++ slice mem 0 len := by
  rw [slice_add, Nat.zero_add, slice_splice, slice_splice_of_disjoint _ _ (by omega), slice_put_append]

/-- What is built is the head, with the body behind it when there is one that fits. -/
theorem httpBuildRequest_eq (buf : Memory) (room : 1024 ≤ bufsize) :
    (httpBuildRequest req buf bufsize).map (fun built => slice built.1 0 built.2) =
      match req.body with
      | none => some (headText req)
      | some mem =>
          if req.Posts then
            if 2 ^ 31 ≤ (headText req).length + req.bodyLen then none
            else if (headText req).length + req.bodyLen < bufsize then some (headText req ++ slice mem 0 req.bodyLen.toNat)
            else some (headText req)
          else some (headText req) := by
  unfold httpBuildRequest
  rw [foldl_pieces buf room]
  dsimp only
  cases req.body with
  | none => exact congrArg some (slice_put_append buf 0 (headText req) [0])
  | some mem =>
      dsimp only
      split
      · split
        · rfl
        · split
          · exact congrArg some (slice_body buf mem (headText req) req.bodyLen.toNat)
          · exact congrArg some (slice_put_append buf 0 (headText req) [0])
      · exact congrArg some (slice_put_append buf 0 (headText req) [0])

/-- The length that the header lines announce. -/
theorem announced (req : Request) :
    (((requestFields req).find? fun f => f.1 = ascii "Content-Length").map fun f => Decimal.value f.2).getD 0 =
      if req.Posts then req.bodyLen.toNat else 0 := by
  rw [requestFields]
  by_cases posts : req.Posts
  · rw [if_pos posts, if_pos posts]
    exact Decimal.value_text req.bodyLen.toNat
  · rw [if_neg posts, if_neg posts]
    by_cases auth : req.authorization ≠ []
    · rw [if_pos auth]
      rfl
    · rw [if_neg auth]
      rfl

/-- The header lines are clean when the strings of the request are. -/
theorem requestFields_clean (clean : req.Clean) :
    ∀ f ∈ requestFields req, chr ':' ∉ f.1 ∧ ∀ c ∈ f.1 ++ f.2, c ≠ chr '\r' ∧ c ≠ chr '\n' := by
  have plain (name value : List Byte) (known : chr ':' ∉ name ∧ ∀ c ∈ name, c ≠ chr '\r' ∧ c ≠ chr '\n')
      (own : ∀ c ∈ value, c ≠ chr '\r' ∧ c ≠ chr '\n') :
      chr ':' ∉ name ∧ ∀ c ∈ name ++ value, c ≠ chr '\r' ∧ c ≠ chr '\n' :=
    ⟨known.1, fun c listed => (List.mem_append.mp listed).elim (known.2 c) (own c)⟩
  intro f listed
  rw [requestFields, List.mem_append, List.mem_append] at listed
  rcases listed with (fixed | posted) | signed
  · simp only [List.mem_cons, List.not_mem_nil, or_false] at fixed
    rcases fixed with rfl | rfl | rfl
    · exact plain (ascii "Host") _ (by decide) clean.host
    · exact plain (ascii "User-Agent") _ (by decide) (by decide)
    · exact plain (ascii "Connection") _ (by decide) (by decide)
  · split at posted
    · rename_i posts
      simp only [List.mem_cons, List.not_mem_nil, or_false] at posted
      rcases posted with rfl | rfl
      · apply plain (ascii "Content-Type") _ (by decide)
        split
        · exact clean.type posts
        · decide
      · apply plain (ascii "Content-Length") _ (by decide)
        intro c digit
        have shown := Decimal.text_digits _ c digit
        constructor
        · rintro rfl
          exact absurd shown (by decide)
        · rintro rfl
          exact absurd shown (by decide)
    · exact absurd posted List.not_mem_nil
  · split at signed
    · obtain rfl := List.mem_singleton.mp signed
      exact plain (ascii "Authorization") _ (by decide) clean.auth
    · exact absurd signed List.not_mem_nil

/-- The strings of a request are parts of its lines. -/
theorem clean_of_isRequest {bytes body : List Byte}
    (is : IsRequest bytes (methodStr req.method) req.path (requestFields req) body) : req.Clean where
  target := is.target_clean
  host c listed := (is.fields_clean (ascii "Host", req.host) (by simp [requestFields])).2 c (List.mem_append_right _ listed)
  type posts c listed := by
    have member : (ascii "Content-Type", req.contentType) ∈ requestFields req := by
      have some_type : req.contentType ≠ [] := List.ne_nil_of_mem listed
      rw [requestFields, if_pos posts, if_pos some_type]
      simp
    exact (is.fields_clean _ member).2 c (List.mem_append_right _ listed)
  auth c listed := by
    have member : (ascii "Authorization", req.authorization) ∈ requestFields req := by
      have some_auth : req.authorization ≠ [] := List.ne_nil_of_mem listed
      rw [requestFields, if_pos some_auth]
      simp
    exact (is.fields_clean _ member).2 c (List.mem_append_right _ listed)

/-- The head and a body are the whole request when the strings are clean and the body is the one of the request. -/
theorem whole_iff (body : List Byte) : Whole req (headText req ++ body) ↔
    req.Clean ∧ if req.Posts then ∃ mem, req.body = some mem ∧ body = slice mem 0 req.bodyLen.toNat else body = [] := by
  constructor
  · rintro ⟨other, is, own⟩
    obtain rfl : body = other := List.append_cancel_left is.text
    refine ⟨clean_of_isRequest is, ?_⟩
    split
    · rename_i posts
      exact own posts
    · rename_i bodiless
      have length := is.framed
      rw [announced, if_neg bodiless] at length
      exact List.eq_nil_of_length_eq_zero length
  · rintro ⟨clean, own⟩
    refine ⟨body, ⟨rfl, clean.target, requestFields_clean clean, ?_⟩, fun posts => by rw [if_pos posts] at own; exact own⟩
    rw [announced]
    split at own
    · rename_i posts
      obtain ⟨mem, -, rfl⟩ := own
      rw [if_pos posts, length_slice]
    · rename_i bodiless
      rw [own, if_neg bodiless]
      rfl

/-- The head alone is the whole of a request without a body. -/
theorem whole_head_iff : Whole req (headText req) ↔ req.Clean ∧ ¬req.Posts := by
  rw [← List.append_nil (headText req), whole_iff]
  refine and_congr_right fun _ => ?_
  split
  · rename_i posts
    have positive := posts.2
    refine iff_of_false ?_ (not_not.mpr posts)
    rintro ⟨mem, -, empty⟩
    have length := congrArg List.length empty
    rw [length_slice, List.length_nil] at length
    omega
  · rename_i bodiless
    exact iff_of_true rfl bodiless

/-- What is built is the whole request exactly when the strings are clean and a body is there and fits. -/
theorem built_whole_iff (buf : Memory) :
    (∃ built, httpBuildRequest req buf pgsize = some built ∧ Whole req (slice built.1 0 built.2)) ↔
      req.Clean ∧ (req.Posts → req.body ≠ none ∧ (headText req).length + req.bodyLen < pgsize) := by
  have page : pgsize = 4096 := rfl
  have mapped : (∃ built, httpBuildRequest req buf pgsize = some built ∧ Whole req (slice built.1 0 built.2)) ↔
      ∃ bytes, (httpBuildRequest req buf pgsize).map (fun built => slice built.1 0 built.2) = some bytes ∧ Whole req bytes := by
    simp only [Option.map_eq_some_iff]
    constructor
    · rintro ⟨built, done, whole⟩
      exact ⟨_, ⟨built, done, rfl⟩, whole⟩
    · rintro ⟨bytes, ⟨built, done, rfl⟩, whole⟩
      exact ⟨built, done, whole⟩
  rw [mapped, httpBuildRequest_eq buf (by rw [page]; decide)]
  by_cases posts : req.Posts
  · have positive := posts.2
    cases body : req.body with
    | none => simp [whole_head_iff, posts]
    | some mem =>
        by_cases fits : (headText req).length + req.bodyLen < pgsize
        · have defined : ¬2 ^ 31 ≤ (headText req).length + req.bodyLen := by omega
          have filled : slice mem 0 req.bodyLen.toNat = slice mem 0 req.bodyLen.toNat := rfl
          simp only [if_pos posts, if_neg defined, if_pos fits, Option.some.injEq, exists_eq_left', whole_iff, body]
          simp [posts, fits]
        · simp only [if_pos posts, if_neg fits]
          refine iff_of_false ?_ fun both => fits (both.2 posts).2
          rintro ⟨bytes, built, whole⟩
          split at built
          · cases built
          · obtain rfl := Option.some.inj built
            exact (whole_head_iff.mp whole).2 posts
  · cases body : req.body with
    | none => simp [whole_head_iff, posts]
    | some mem => simp [whole_head_iff, posts]

/-- Nothing but what is built is sent. -/
theorem httpExecute_sends (w : Wire) (req : Request) (resp : Response) :
    (∃ e, httpExecute w req resp = some e ∧ e.sent = none) ∨
    ∃ buf, (httpBuildRequest req buf pgsize = none ∧ httpExecute w req resp = none) ∨
      ∃ built e, httpBuildRequest req buf pgsize = some built ∧ httpExecute w req resp = some e ∧
        e.sent = some (slice built.1 0 built.2) := by
  unfold httpExecute
  split
  · rename_i sendbuf recvbuf _ _
    split
    · exact Or.inl ⟨_, rfl, rfl⟩
    split
    · exact Or.inl ⟨_, rfl, rfl⟩
    refine Or.inr ⟨sendbuf, ?_⟩
    cases made : httpBuildRequest req sendbuf pgsize with
    | none => exact Or.inl ⟨rfl, rfl⟩
    | some built =>
        refine Or.inr ⟨built, ?_⟩
        rw [Option.bind_some]
        dsimp only
        split
        · exact ⟨_, rfl, rfl, rfl⟩
        split
        · exact ⟨_, rfl, rfl, rfl⟩
        obtain ⟨result, parsed⟩ := httpParseResponse_total w.allocates (receiveLoop (pgsize - 1) w.chunks)
        rw [parsed]
        exact ⟨_, rfl, rfl, rfl⟩
  · exact Or.inl ⟨_, rfl, rfl⟩

end Building

/-- A connection on which every call succeeds until nothing comes back. -/
def openWire : Wire where
  sendbuf := some fun _ => 0
  recvbuf := some fun _ => 0
  tcpOpen := 0
  tcpConnect _ := 0
  tcpSend _ := 0
  chunks := []
  allocates := true

/-- What is sent on an open connection is what is built. -/
theorem WellFramed.built {req : Request} (framed : WellFramed req) :
    ∃ built, httpBuildRequest req (fun _ => 0) pgsize = some built ∧ Whole req (slice built.1 0 built.2) := by
  obtain ⟨e, done, sent⟩ := framed openWire { statusCode := 0, contentType := [], contentLength := 0, body := none, bodyLen := 0 }
  change (httpBuildRequest req (fun _ => 0) pgsize).bind _ = some e at done
  obtain ⟨built, made, rest⟩ := Option.bind_eq_some_iff.mp done
  obtain rfl := Option.some.inj rest
  exact ⟨built, made, sent _ rfl⟩

/-- Everything that is sent is the whole request exactly when the strings are clean and a body is there and fits. -/
theorem wellFramed_iff (req : Request) : WellFramed req ↔
    req.Clean ∧ (req.Posts → req.body ≠ none ∧ (headText req).length + req.bodyLen < pgsize) := by
  constructor
  · intro framed
    exact (built_whole_iff fun _ => 0).mp framed.built
  · intro known w resp
    rcases httpExecute_sends w req resp with ⟨e, done, silent⟩ | ⟨buf, ⟨stuck, -⟩ | ⟨built, e, made, done, sent⟩⟩
    · exact ⟨e, done, by rw [silent]; exact fun bytes none => absurd none (Option.not_mem_none bytes)⟩
    · obtain ⟨built, made, -⟩ := (built_whole_iff buf).mpr known
      rw [stuck] at made
      cases made
    · obtain ⟨other, again, whole⟩ := (built_whole_iff buf).mpr known
      rw [made] at again
      obtain rfl := Option.some.inj again
      refine ⟨e, done, fun bytes listed => ?_⟩
      rw [sent] at listed
      rw [← Option.some.inj listed]
      exact whole

/-- A post of a page of data. -/
def pagePost : Request := request .post (ascii "http://10.0.2.2/") (some (ascii "text/plain")) (some fun _ => chr 'x') 4096 none

/-- The data does not fit behind the head, which announces it all the same. -/
theorem pagePost_bodiless : ¬WellFramed pagePost := by
  intro framed
  have posts : pagePost.Posts := by decide
  have known := ((built_whole_iff fun _ => 0).mp framed.built).2 posts
  have length : pagePost.bodyLen = 4096 := by decide
  have page : pgsize = 4096 := rfl
  omega

end BtbuOs.Net.Http
