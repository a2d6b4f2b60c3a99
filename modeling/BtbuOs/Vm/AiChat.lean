import BtbuOs.Net.AiApi
import BtbuOs.Vm.KernelStrings
import BtbuOs.Vm.UserAccess

namespace BtbuOs.Vm

open Machine Net.AiApi
open Script (chatLen)

/-- The end of `sys_npc_ai_chat` copies the response to the user. -/
def chatCopy (m : Memory) (root : Page) (respVa : BitVec 64) (respMaxlen : BitVec 32) (content : Nat → Byte)
    (contentLen : BitVec 32) (ram : Ram) : Except String (Int × Ram) := do
  let copyLen := chatLen contentLen respMaxlen
  let (done, ram) ← copyout m root respVa (Bytes.slice content 0 (copyLen.signExtend 64).toNat) ram
  if done then
    let (done, ram) ← copyout m root (respVa + copyLen.signExtend 64) [0] ram
    return (if done then copyLen.toInt else -1, ram)
  else return (-1, ram)

/-- The result, the memory of the user, and what happens to the buffers; the array `prompt` and the structure `resp` are
not initialised. -/
def sysNpcAiChat (m : Memory) (root : Page) (promptVa respVa : BitVec 64) (respMaxlen : BitVec 32) (w : Surroundings)
    (prompt : Nat → Byte) (resp : ChatResponse) (ram : Ram) : Except String (Int × Ram × List Heap) := do
  let stores ← copyinstrStores m root 1024 promptVa.toNat 1024 ram
  let (bytes, ram) ← copyinstr m root promptVa 1024 ram
  if bytes.isNone then return (-1, ram, [])
  else
    let (ret, resp, events) := aiChat w (writeAt prompt 0 stores) resp
    if ret < 0 then return (-1, ram, events)
    else if !resp.success then return (-1, ram, events ++ freeResponse resp)
    else
      let (ret, ram) ← chatCopy m root respVa respMaxlen (resp.content.getD w.memory) resp.contentLen ram
      return (ret, ram, events ++ freeResponse resp)

/-- The bytes that kernel code has stored in the memory of the user, with their addresses. -/
def sent (ram : Ram) : List (Nat × Byte) :=
  ram.log.filterMap fun access =>
    match access with
    | .loaded _ => none
    | .stored va _ new => some (va, new)

/-- Bytes at consecutive addresses. -/
def stretch : Nat → List Byte → List (Nat × Byte)
  | _, [] => []
  | va, value :: rest => (va, value) :: stretch (va + 1) rest

/-- What `ai_chat` gives for the prompt of the user. -/
def answer (m : Memory) (root : Page) (promptVa : BitVec 64) (w : Surroundings) (prompt : Nat → Byte) (resp : ChatResponse)
    (b : Bytes) : Int × ChatResponse × List Heap :=
  aiChat w (writeAt prompt 0 (storedBytes m root b promptVa.toNat 1024)) resp

section Sent

variable {m : Memory} {root : Page} {va n : Nat} {ram : Ram}

theorem stretch_length (va : Nat) (src : List Byte) : (stretch va src).length = src.length := by
  induction src generalizing va with
  | nil => rfl
  | cons value src ih => rw [stretch, List.length_cons, ih, List.length_cons]

theorem stretch_append (va : Nat) (first second : List Byte) :
    stretch va (first ++ second) = stretch va first ++ stretch (va + first.length) second := by
  induction first generalizing va with
  | nil => rfl
  | cons value first ih =>
      rw [List.cons_append, stretch, stretch, ih, List.length_cons, List.cons_append, Nat.add_right_comm, Nat.add_assoc]

theorem stretch_range {src : List Byte} {place : Nat × Byte} (listed : place ∈ stretch va src) :
    va ≤ place.1 ∧ place.1 < va + src.length := by
  induction src generalizing va with
  | nil => exact absurd listed (List.not_mem_nil)
  | cons value src ih =>
      rw [List.length_cons]
      rcases List.mem_cons.mp listed with rfl | later
      · omega
      · have range := ih later
        omega

/-- A transfer from the user stores nothing. -/
theorem sent_inBytes (stop : Byte → Bool) (va n : Nat) (ram : Ram) : sent (inBytes m root stop va n ram).2 = sent ram := by
  induction n generalizing va ram with
  | zero => rfl
  | succ n ih =>
      have loads : sent (ram.load va) = sent ram := by simp [sent, Ram.load]
      rw [inBytes]
      split
      · rfl
      · split
        · exact loads
        · exact (ih (va + 1) (ram.load va)).trans loads

/-- A transfer to the user stores its bytes in order, all of them exactly when it succeeds, and the first one unless its
address is not mapped. -/
theorem sent_outBytes (m : Memory) (root : Page) (va : Nat) (src : List Byte) (ram : Ram) : ∃ n, n ≤ src.length ∧
    sent (outBytes m root va src ram).2 = sent ram ++ stretch va (src.take n) ∧
    ((outBytes m root va src ram).1 = true ↔ n = src.length) ∧ (0 < src.length → (n = 0 ↔ userTarget m root va = none)) := by
  induction src generalizing va ram with
  | nil => exact ⟨0, Nat.le_refl 0, by simp [outBytes, stretch], by simp [outBytes], by simp⟩
  | cons value src ih =>
      rw [outBytes]
      cases mapped : userTarget m root va with
      | none => exact ⟨0, Nat.zero_le _, by simp [stretch], by simp, by simp⟩
      | some page =>
          obtain ⟨n, below, bytes, whole, _⟩ := ih (va + 1) (ram.store page va value)
          have first : sent (ram.store page va value) = sent ram ++ [(va, value)] := by simp [sent, Ram.store]
          refine ⟨n + 1, ?_, ?_, ?_, by simp⟩
          · rw [List.length_cons]
            omega
          · dsimp only
            rw [bytes, first, List.take_succ_cons, stretch, List.append_assoc]
            rfl
          · dsimp only
            rw [whole, List.length_cons]
            omega

end Sent

section Copying

variable {m : Memory} {root : Page} {respVa : BitVec 64} {contentLen respMaxlen : BitVec 32} {content : Nat → Byte} {ram : Ram}

/-- A number that is not negative keeps its value in 64 bits. -/
theorem toNat_signExtend {x : BitVec 32} (sign : 0 ≤ x.toInt) : ((x.signExtend 64).toNat : Int) = x.toInt := by
  have wide := BitVec.toInt_signExtend_of_le (x := x) (show 32 ≤ 64 by decide)
  have bound := x.isLt
  rw [← wide] at sign ⊢
  rw [BitVec.toInt_eq_toNat_cond] at sign ⊢
  have limit := (x.signExtend 64).isLt
  split
  · rfl
  · rename_i high
    rw [if_neg high] at sign
    omega

/-- The length of the copy is the length of the response, cut to what leaves room for a null byte. -/
theorem chatLen_clipped (full : 0 < contentLen.toInt) (room : 0 < respMaxlen.toInt) :
    ∃ n : Nat, (chatLen contentLen respMaxlen).toInt = n ∧ ((chatLen contentLen respMaxlen).signExtend 64).toNat = n ∧
      n ≤ contentLen.toInt ∧ n < respMaxlen.toInt := by
  have value : (chatLen contentLen respMaxlen).toInt =
      if contentLen.toInt < respMaxlen.toInt then contentLen.toInt else respMaxlen.toInt - 1 := by
    rw [chatLen]
    by_cases less : contentLen.toInt < respMaxlen.toInt
    · rw [if_pos less, if_pos (BitVec.slt_iff_toInt_lt.mpr less)]
    · have bound := respMaxlen.toInt_lt
      have unit : (1 : BitVec 32).toInt = 1 := rfl
      rw [if_neg less, if_neg (fun short => less (BitVec.slt_iff_toInt_lt.mp short)), BitVec.toInt_sub, unit,
        Int.bmod_eq_of_le (by omega) (by omega)]
  have sign : 0 ≤ (chatLen contentLen respMaxlen).toInt ∧ (chatLen contentLen respMaxlen).toInt ≤ contentLen.toInt ∧
      (chatLen contentLen respMaxlen).toInt < respMaxlen.toInt := by
    rw [value]
    split <;> omega
  have wide := toNat_signExtend sign.1
  exact ⟨_, wide.symm, rfl, by omega, by omega⟩

/-- A buffer without room makes the copy long. -/
theorem chatLen_long (full : 0 < contentLen.toInt) (tight : respMaxlen.toInt ≤ 0) :
    0 < ((chatLen contentLen respMaxlen).signExtend 64).toNat := by
  have long : ¬contentLen.slt respMaxlen = true := by
    rw [BitVec.slt_iff_toInt_lt]
    omega
  rw [chatLen, if_neg long]
  by_contra none_left
  have zero : (respMaxlen - 1).signExtend 64 = 0#64 := BitVec.eq_of_toNat_eq (by simpa using none_left)
  have wide := BitVec.toInt_signExtend_of_le (x := respMaxlen - 1) (show 32 ≤ 64 by decide)
  rw [zero] at wide
  have same : respMaxlen - 1 = 0#32 := BitVec.eq_of_toInt_eq (by rw [← wide]; rfl)
  have one : respMaxlen = 1#32 := by
    have moved := congrArg (· + 1#32) same
    simpa using moved
  rw [one] at tight
  exact absurd tight (by decide)

/-- With room in the buffer, the copy stores the start of the response and perhaps a null byte, and a result that is not
negative counts what it has stored before the null byte. -/
theorem chatCopy_room (full : 0 < contentLen.toInt) (room : 0 < respMaxlen.toInt) :
    ∃ ret after, chatCopy m root respVa respMaxlen content contentLen ram = .ok (ret, after) ∧
      (∃ n : Nat, n ≤ contentLen.toInt ∧ (sent after = sent ram ++ stretch respVa.toNat (Bytes.slice content 0 n) ∨
        sent after = sent ram ++ stretch respVa.toNat (Bytes.slice content 0 n ++ [0]))) ∧
      (0 ≤ ret → ret ≤ contentLen.toInt ∧ ret < respMaxlen.toInt ∧
        sent after = sent ram ++ stretch respVa.toNat (Bytes.slice content 0 ret.toNat ++ [0])) := by
  obtain ⟨n, value, wide, short, inside⟩ := chatLen_clipped full room
  obtain ⟨k, below, first, whole, _⟩ := sent_outBytes m root respVa.toNat (Bytes.slice content 0 n) ram
  rw [Bytes.length_slice] at below whole
  rw [Bytes.take_slice, Nat.min_eq_left below] at first
  rw [chatCopy, wide]
  simp only [copyout_bytes, bind, Except.bind]
  cases done : (outBytes m root respVa.toNat (Bytes.slice content 0 n) ram).1 with
  | false =>
      refine ⟨-1, _, rfl, ⟨k, by omega, Or.inl first⟩, fun sign => absurd sign (by decide)⟩
  | true =>
      obtain rfl : k = n := whole.mp done
      -- the null byte comes right behind the copy, since the copy has ended below MAXVA
      have place : (respVa + (chatLen contentLen respMaxlen).signExtend 64).toNat = respVa.toNat + k := by
        have limit := respVa.isLt
        rw [BitVec.toNat_add, wide]
        apply Nat.mod_eq_of_lt
        by_cases none_left : k = 0
        · omega
        · have last : userTarget m root (respVa.toNat + (k - 1)) ≠ none := by
            intro unmapped
            rw [outBytes_fails _ (by rw [Bytes.length_slice]; omega) unmapped] at done
            exact absurd done Bool.false_ne_true
          obtain ⟨page, mapped⟩ := Option.ne_none_iff_exists'.mp last
          have bound := (userTarget_some.mp mapped).1
          have top : maxVpn = 2 ^ 26 := rfl
          omega
      obtain ⟨l, small, second, all, _⟩ := sent_outBytes m root (respVa.toNat + k) [0]
        (outBytes m root respVa.toNat (Bytes.slice content 0 k) ram).2
      rw [if_pos rfl, place]
      cases stored : (outBytes m root (respVa.toNat + k) [0] (outBytes m root respVa.toNat (Bytes.slice content 0 k) ram).2).1 with
      | false =>
          have nothing : l = 0 := by
            have missed : ¬l = 1 := fun one => by
              have done := all.mpr one
              rw [stored] at done
              exact Bool.false_ne_true done
            rw [List.length_singleton] at small
            omega
          rw [nothing, first, List.take_zero, stretch, List.append_nil] at second
          exact ⟨-1, _, rfl, ⟨k, short, Or.inl second⟩, fun sign => absurd sign (by decide)⟩
      | true =>
          have one : l = 1 := all.mp stored
          have both : stretch respVa.toNat (Bytes.slice content 0 k) ++ stretch (respVa.toNat + k) [0] =
              stretch respVa.toNat (Bytes.slice content 0 k ++ [0]) := by
            rw [stretch_append, Bytes.length_slice]
          rw [one, first, List.append_assoc, List.take_of_length_le (by simp), both] at second
          refine ⟨_, _, rfl, ⟨k, short, Or.inr second⟩, fun _ => ?_⟩
          rw [if_pos rfl, value, Int.toNat_natCast]
          exact ⟨short, inside, second⟩

/-- Without room, the copy fails at once or stores bytes. -/
theorem chatCopy_tight (full : 0 < contentLen.toInt) (tight : respMaxlen.toInt ≤ 0) :
    ∃ ret after, chatCopy m root respVa respMaxlen content contentLen ram = .ok (ret, after) ∧
      (userTarget m root respVa.toNat = none → ret = -1 ∧ sent after = sent ram) ∧
      (userTarget m root respVa.toNat ≠ none → sent after ≠ sent ram) := by
  have long := chatLen_long full tight
  obtain ⟨size, held⟩ : ∃ size, size = ((chatLen contentLen respMaxlen).signExtend 64).toNat := ⟨_, rfl⟩
  rw [← held] at long
  obtain ⟨n, below, first, whole, start⟩ := sent_outBytes m root respVa.toNat (Bytes.slice content 0 size) ram
  rw [Bytes.length_slice] at below whole start
  have stored : userTarget m root respVa.toNat ≠ none → (sent ram).length <
      (sent (outBytes m root respVa.toNat (Bytes.slice content 0 size) ram).2).length := by
    intro mapped
    have some_left : n ≠ 0 := fun zero => mapped ((start long).mp zero)
    rw [first, List.length_append, stretch_length, List.length_take, Bytes.length_slice]
    omega
  rw [chatCopy, ← held]
  simp only [copyout_bytes, bind, Except.bind]
  cases done : (outBytes m root respVa.toNat (Bytes.slice content 0 size) ram).1 with
  | false =>
      refine ⟨-1, _, rfl, fun unmapped => ⟨rfl, ?_⟩, fun mapped same => ?_⟩
      · rw [first, (start long).mpr unmapped, List.take_zero, stretch, List.append_nil]
      · have more := stored mapped
        rw [same] at more
        exact absurd more (Nat.lt_irrefl _)
  | true =>
      obtain ⟨l, _, second, _⟩ := sent_outBytes m root (respVa + (chatLen contentLen respMaxlen).signExtend 64).toNat [0]
        (outBytes m root respVa.toNat (Bytes.slice content 0 size) ram).2
      rw [if_pos rfl]
      refine ⟨_, _, rfl, fun unmapped => ?_, fun mapped same => ?_⟩
      · have zero := (start long).mpr unmapped
        have all := whole.mp done
        omega
      · have more := stored mapped
        have lengths := congrArg List.length second
        rw [same, List.length_append] at lengths
        omega

end Copying

/-- The response buffer is freed as often as it is taken, and once at most. The call stores no bytes, or bytes of the
response and perhaps a null byte. A result that is not negative is the number of bytes before the null byte, and the buffer
has room for them. Without room the result is -1 and nothing is stored. -/
def ChatRespects (m : Memory) (root : Page) (promptVa respVa : BitVec 64) (respMaxlen : BitVec 32) (w : Surroundings)
    (prompt : Nat → Byte) (resp : ChatResponse) (b : Bytes) : Prop :=
  ∃ ret after events,
    sysNpcAiChat m root promptVa respVa respMaxlen w prompt resp { byte := b, log := [] } = .ok (ret, after, events) ∧
      events.count (.allocated .content) = events.count (.freed .content) ∧ events.count (.freed .content) ≤ 1 ∧
      (sent after = [] ∨ ∃ content, (answer m root promptVa w prompt resp b).2.1.content = some content ∧
        ∃ n : Nat, n ≤ (answer m root promptVa w prompt resp b).2.1.contentLen.toInt ∧
          (sent after = stretch respVa.toNat (Bytes.slice content 0 n) ∨
            sent after = stretch respVa.toNat (Bytes.slice content 0 n ++ [0]))) ∧
      (0 ≤ ret → (∀ place ∈ sent after, respVa.toNat ≤ place.1 ∧ place.1 < respVa.toNat + respMaxlen.toInt) ∧
        ∃ content, (answer m root promptVa w prompt resp b).2.1.content = some content ∧
          ret ≤ (answer m root promptVa w prompt resp b).2.1.contentLen.toInt ∧
          sent after = stretch respVa.toNat (Bytes.slice content 0 ret.toNat ++ [0])) ∧
      (respMaxlen.toInt ≤ 0 → ret = -1 ∧ sent after = [])

/-- The prompt is read and `ai_chat` gives a response. -/
def Answered (m : Memory) (root : Page) (promptVa : BitVec 64) (w : Surroundings) (prompt : Nat → Byte) (resp : ChatResponse)
    (b : Bytes) : Prop :=
  (∀ i, i < 1024 → Plain m root b promptVa.toNat i → userTarget m root (promptVa.toNat + i) ≠ none) ∧
    0 ≤ (answer m root promptVa w prompt resp b).1 ∧ (answer m root promptVa w prompt resp b).2.1.success = true

section Respects

variable {m : Memory} {root : Page} {promptVa respVa : BitVec 64} {respMaxlen : BitVec 32} {w : Surroundings}
  {prompt : Nat → Byte} {resp : ChatResponse} {b : Bytes}

/-- A string is not read exactly when an address that is not mapped comes before its end. -/
theorem inBytes_none_iff (m : Memory) (root : Page) (b : Bytes) (va max : Nat) :
    (inBytes m root (· = 0) va max { byte := b, log := [] }).1 ≠ none ↔
      ∀ i, i < max → Plain m root b va i → userTarget m root (va + i) ≠ none := by
  rcases string_cases m root b va max with ⟨i, page, below, plain, mapped, null⟩ | ⟨i, below, plain, unmapped, _⟩ | ⟨plain, _, _⟩
  · obtain ⟨rest, rfl⟩ : ∃ rest, max = i + (rest + 1) := ⟨max - i - 1, by omega⟩
    obtain ⟨log, later⟩ := plain.read { byte := b, log := [] } rfl
    refine iff_of_true ?_ fun n _ other gone => ?_
    · rw [later, inBytes, mapped]
      simp [null]
    · have stops : Stops m root b (va + i) := fun target here => by
        rw [mapped, Option.some.injEq] at here
        exact here ▸ null
      rw [← plain.stops_unique stops other fun target here => by rw [gone] at here; simp at here, mapped] at gone
      simp at gone
  · obtain ⟨rest, rfl⟩ : ∃ rest, max = i + (rest + 1) := ⟨max - i - 1, by omega⟩
    obtain ⟨log, later⟩ := plain.read { byte := b, log := [] } rfl
    refine iff_of_false ?_ fun all => all i below plain unmapped
    rw [later, inBytes, unmapped]
    simp
  · obtain ⟨log, later⟩ := plain.read { byte := b, log := [] } rfl
    rw [Nat.add_zero] at later
    refine iff_of_true ?_ fun n below _ gone => ?_
    · rw [later]
      simp [inBytes]
    · obtain ⟨page, mapped, _⟩ := plain n below
      rw [gone] at mapped
      simp at mapped

/-- A call that reads its prompt goes on with the answer of `ai_chat`, and has stored nothing yet. -/
theorem sysNpcAiChat_read (respVa : BitVec 64) (respMaxlen : BitVec 32)
    (whole : (inBytes m root (· = 0) promptVa.toNat 1024 { byte := b, log := [] }).1 ≠ none)
    {ret : Int} {resp' : ChatResponse} {events : List Heap} (answered : answer m root promptVa w prompt resp b = (ret, resp', events)) :
    ∃ ram, sent ram = [] ∧
      sysNpcAiChat m root promptVa respVa respMaxlen w prompt resp { byte := b, log := [] } =
        if ret < 0 then .ok (-1, ram, events)
        else if !resp'.success then .ok (-1, ram, events ++ freeResponse resp')
        else do
          let (ret, ram) ← chatCopy m root respVa respMaxlen (resp'.content.getD w.memory) resp'.contentLen ram
          return (ret, ram, events ++ freeResponse resp') := by
  refine ⟨(inBytes m root (· = 0) promptVa.toNat 1024 { byte := b, log := [] }).2, sent_inBytes _ _ _ _, ?_⟩
  have answered : aiChat w (writeAt prompt 0 (storedBytes m root b promptVa.toNat 1024)) resp = (ret, resp', events) := answered
  rw [sysNpcAiChat, copyinstrStores_bytes 1024 (Nat.le_refl _), copyinstr_bytes]
  simp only [bind, Except.bind, answered]
  rw [if_neg (by rw [Option.isNone_iff_eq_none]; exact whole)]
  rfl

/-- A call that does not read its prompt does nothing. -/
theorem sysNpcAiChat_unread (respVa : BitVec 64) (respMaxlen : BitVec 32)
    (gone : (inBytes m root (· = 0) promptVa.toNat 1024 { byte := b, log := [] }).1 = none) :
    ∃ ram, sent ram = [] ∧
      sysNpcAiChat m root promptVa respVa respMaxlen w prompt resp { byte := b, log := [] } = .ok (-1, ram, []) := by
  refine ⟨(inBytes m root (· = 0) promptVa.toNat 1024 { byte := b, log := [] }).2, sent_inBytes _ _ _ _, ?_⟩
  rw [sysNpcAiChat, copyinstrStores_bytes 1024 (Nat.le_refl _), copyinstr_bytes]
  simp only [bind, Except.bind]
  rw [if_pos (by rw [Option.isNone_iff_eq_none]; exact gone)]
  rfl

/-- A call that stores nothing and fails respects the buffer. -/
theorem respects_of_failed {after : Ram} {events : List Heap}
    (ran : sysNpcAiChat m root promptVa respVa respMaxlen w prompt resp { byte := b, log := [] } = .ok (-1, after, events))
    (silent : sent after = []) (balanced : events.count (.allocated .content) = events.count (.freed .content))
    (once : events.count (.freed .content) ≤ 1) :
    ChatRespects m root promptVa respVa respMaxlen w prompt resp b :=
  ⟨-1, after, events, ran, balanced, once, Or.inl silent, fun sign => absurd sign (by decide), fun _ => ⟨rfl, silent⟩⟩

section Complete

variable {content : Nat → Byte} {len : BitVec 32} {events : List Heap}

/-- A call with a response ends with the copy and frees the response. -/
theorem sysNpcAiChat_copied (respVa : BitVec 64) (respMaxlen : BitVec 32) (result : Int × Ram → Prop)
    (whole : (inBytes m root (· = 0) promptVa.toNat 1024 { byte := b, log := [] }).1 ≠ none)
    (answered : answer m root promptVa w prompt resp b =
      (0, { success := true, content := some content, contentLen := len, errorCode := 0 }, events))
    (copies : ∀ ram, ∃ ret after, chatCopy m root respVa respMaxlen content len ram = .ok (ret, after) ∧
      (sent ram = [] → result (ret, after))) :
    ∃ ret after, sysNpcAiChat m root promptVa respVa respMaxlen w prompt resp { byte := b, log := [] } =
      .ok (ret, after, events ++ [.freed .content]) ∧ result (ret, after) := by
  obtain ⟨ram, silent, ran⟩ := sysNpcAiChat_read respVa respMaxlen whole answered
  obtain ⟨ret, after, copied, holds⟩ := copies ram
  refine ⟨ret, after, ?_, holds silent⟩
  rw [ran, if_neg (by decide), if_neg (by simp)]
  change (do
    let (ret, ram) ← chatCopy m root respVa respMaxlen content len ram
    return (ret, ram, events ++ freeResponse { success := true, content := some content, contentLen := len, errorCode := 0 })) = _
  rw [copied]
  rfl

theorem respects_room (whole : (inBytes m root (· = 0) promptVa.toNat 1024 { byte := b, log := [] }).1 ≠ none)
    (answered : answer m root promptVa w prompt resp b =
      (0, { success := true, content := some content, contentLen := len, errorCode := 0 }, events))
    (full : 0 < len.toInt) (room : 0 < respMaxlen.toInt)
    (balanced : (events ++ [Heap.freed .content]).count (.allocated .content) =
      (events ++ [Heap.freed .content]).count (.freed .content))
    (once : (events ++ [Heap.freed .content]).count (.freed .content) ≤ 1) :
    ChatRespects m root promptVa respVa respMaxlen w prompt resp b := by
  obtain ⟨ret, after, ran, ⟨n, short, stores⟩, success⟩ := sysNpcAiChat_copied respVa respMaxlen
    (fun result => (∃ n : Nat, n ≤ len.toInt ∧ (sent result.2 = stretch respVa.toNat (Bytes.slice content 0 n) ∨
        sent result.2 = stretch respVa.toNat (Bytes.slice content 0 n ++ [0]))) ∧
      (0 ≤ result.1 → result.1 ≤ len.toInt ∧ result.1 < respMaxlen.toInt ∧
        sent result.2 = stretch respVa.toNat (Bytes.slice content 0 result.1.toNat ++ [0]))) whole answered
    (by
      intro ram
      obtain ⟨ret, after, copied, stores, success⟩ := chatCopy_room full room
      refine ⟨ret, after, copied, fun silent => ?_⟩
      rw [silent] at stores success
      exact ⟨stores, success⟩)
  refine ⟨ret, after, _, ran, balanced, once, Or.inr ⟨content, by rw [answered], n, by rw [answered]; exact short, stores⟩, ?_, ?_⟩
  · intro sign
    obtain ⟨below, inside, all⟩ := success sign
    refine ⟨?_, content, by rw [answered], by rw [answered]; exact below, all⟩
    intro place listed
    rw [all] at listed
    have range := stretch_range listed
    rw [List.length_append, Bytes.length_slice, List.length_singleton] at range
    omega
  · intro tight
    omega

theorem respects_tight_iff (whole : (inBytes m root (· = 0) promptVa.toNat 1024 { byte := b, log := [] }).1 ≠ none)
    (answered : answer m root promptVa w prompt resp b =
      (0, { success := true, content := some content, contentLen := len, errorCode := 0 }, events))
    (full : 0 < len.toInt) (tight : respMaxlen.toInt ≤ 0)
    (balanced : (events ++ [Heap.freed .content]).count (.allocated .content) =
      (events ++ [Heap.freed .content]).count (.freed .content))
    (once : (events ++ [Heap.freed .content]).count (.freed .content) ≤ 1) :
    ChatRespects m root promptVa respVa respMaxlen w prompt resp b ↔ userTarget m root respVa.toNat = none := by
  obtain ⟨ret, after, ran, unmapped, mapped⟩ := sysNpcAiChat_copied respVa respMaxlen
    (fun result => (userTarget m root respVa.toNat = none → result.1 = -1 ∧ sent result.2 = []) ∧
      (userTarget m root respVa.toNat ≠ none → sent result.2 ≠ [])) whole answered
    (by
      intro ram
      obtain ⟨ret, after, copied, unmapped, mapped⟩ := chatCopy_tight full tight
      refine ⟨ret, after, copied, fun silent => ?_⟩
      rw [silent] at unmapped mapped
      exact ⟨unmapped, mapped⟩)
  constructor
  · rintro ⟨_, last, _, other, _, _, _, _, refuses⟩
    simp only [ran, Except.ok.injEq, Prod.mk.injEq] at other
    by_contra here
    rw [← other.2.1] at refuses
    exact mapped here (refuses tight).2
  · intro gone
    obtain ⟨failed, silent⟩ := unmapped gone
    dsimp only at failed silent
    rw [failed] at ran
    exact respects_of_failed ran silent balanced once

end Complete

/-- The call respects the buffer exactly when there is room in it, there is no response, or its first byte is not mapped. -/
theorem chat_respects_iff (m : Memory) (root : Page) (promptVa respVa : BitVec 64) (respMaxlen : BitVec 32) (w : Surroundings)
    (prompt : Nat → Byte) (resp : ChatResponse) (b : Bytes) :
    ChatRespects m root promptVa respVa respMaxlen w prompt resp b ↔
      0 < respMaxlen.toInt ∨ ¬Answered m root promptVa w prompt resp b ∨ userTarget m root respVa.toNat = none := by
  by_cases whole : (inBytes m root (· = 0) promptVa.toNat 1024 { byte := b, log := [] }).1 ≠ none
  · have read := (inBytes_none_iff m root b promptVa.toNat 1024).mp whole
    rcases aiChat_cases w (writeAt prompt 0 (storedBytes m root b promptVa.toNat 1024)) resp with
      ⟨content, len, events, answered, full, _, taken, freed⟩ | ⟨ret, resp', events, answered, missing, balanced, once⟩
    · have answered : answer m root promptVa w prompt resp b = _ := answered
      have reached : Answered m root promptVa w prompt resp b := ⟨read, by rw [answered], by rw [answered]⟩
      have balanced : (events ++ [Heap.freed .content]).count (.allocated .content) =
          (events ++ [Heap.freed .content]).count (.freed .content) := by
        simp [taken, freed]
      have once : (events ++ [Heap.freed .content]).count (.freed .content) ≤ 1 := by
        simp [freed]
      by_cases room : 0 < respMaxlen.toInt
      · exact iff_of_true (respects_room whole answered full room balanced once) (Or.inl room)
      · rw [respects_tight_iff whole answered full (by omega) balanced once]
        simp [room, reached]
    · have answered : answer m root promptVa w prompt resp b = _ := answered
      have silent : ¬Answered m root promptVa w prompt resp b := by
        rintro ⟨_, sign, succeeded⟩
        rw [answered] at sign succeeded
        rw [(missing sign).1] at succeeded
        exact Bool.false_ne_true succeeded
      refine iff_of_true ?_ (Or.inr (Or.inl silent))
      obtain ⟨ram, nothing, ran⟩ := sysNpcAiChat_read respVa respMaxlen whole answered
      by_cases failed : ret < 0
      · rw [if_pos failed] at ran
        exact respects_of_failed ran nothing balanced once
      · obtain ⟨unsuccessful, empty⟩ := missing (by omega)
        rw [if_neg failed, if_pos (by rw [unsuccessful]; rfl)] at ran
        have same : events ++ freeResponse resp' = events := by simp [freeResponse, empty]
        rw [same] at ran
        exact respects_of_failed ran nothing balanced once
  · have silent : ¬Answered m root promptVa w prompt resp b := fun answered =>
      whole ((inBytes_none_iff m root b promptVa.toNat 1024).mpr answered.1)
    obtain ⟨ram, nothing, ran⟩ := sysNpcAiChat_unread respVa respMaxlen (not_not.mp whole)
    exact iff_of_true (respects_of_failed ran nothing rfl (Nat.zero_le _)) (Or.inr (Or.inl silent))

end Respects

/-- The copy is the script of two transfers. -/
theorem chatCopy_script (m : Memory) (root : Page) (respVa : BitVec 64) (respMaxlen : BitVec 32) (content : Nat → Byte)
    (contentLen : BitVec 32) (ram : Ram) :
    (Script.store respVa ((List.range ((chatLen contentLen respMaxlen).signExtend 64).toNat).map content)
      (.store (respVa + (chatLen contentLen respMaxlen).signExtend 64) [0]
        (.returns (chatLen contentLen respMaxlen).toInt))).run m root ram =
      (chatCopy m root respVa respMaxlen content contentLen ram).map fun result => (.returned result.1, result.2) := by
  have bytes : Bytes.slice content 0 ((chatLen contentLen respMaxlen).signExtend 64).toNat =
      (List.range ((chatLen contentLen respMaxlen).signExtend 64).toNat).map content := by
    apply List.map_congr_left
    intro k _
    rw [Nat.zero_add]
  rw [chatCopy, bytes, Script.store, Script.run]
  simp only [copyout_bytes, bind, Except.bind]
  cases (outBytes m root respVa.toNat ((List.range ((chatLen contentLen respMaxlen).signExtend 64).toNat).map content) ram).1 with
  | false => rfl
  | true =>
      rw [if_pos rfl, if_pos rfl, Script.store, Script.run]
      simp only [copyout_bytes, bind, Except.bind]
      cases (outBytes m root (respVa + (chatLen contentLen respMaxlen).signExtend 64).toNat [0]
        (outBytes m root respVa.toNat ((List.range ((chatLen contentLen respMaxlen).signExtend 64).toNat).map content) ram).2).1 with
      | false => rfl
      | true => rfl

/-- Without the buffers, the call is the script that copies the response. -/
theorem sysNpcAiChat_forget (m : Memory) (root : Page) (promptVa respVa : BitVec 64) (respMaxlen : BitVec 32) (w : Surroundings)
    (prompt : Nat → Byte) (resp : ChatResponse) (ram : Ram) :
    (Script.sysNpcAiChat promptVa respVa respMaxlen fun _ =>
      if 0 ≤ (answer m root promptVa w prompt resp ram.byte).1 ∧ (answer m root promptVa w prompt resp ram.byte).2.1.success then
        some ((answer m root promptVa w prompt resp ram.byte).2.1.contentLen,
          (answer m root promptVa w prompt resp ram.byte).2.1.content.getD w.memory)
      else none).run m root ram =
      (sysNpcAiChat m root promptVa respVa respMaxlen w prompt resp ram).map fun result => (.returned result.1, result.2.1) := by
  obtain ⟨ret, resp', events, answered⟩ : ∃ ret resp' events, answer m root promptVa w prompt resp ram.byte = (ret, resp', events) :=
    ⟨_, _, _, rfl⟩
  have called : aiChat w (writeAt prompt 0 (storedBytes m root ram.byte promptVa.toNat 1024)) resp = (ret, resp', events) := answered
  rw [Script.sysNpcAiChat, Script.fetch, Script.run, sysNpcAiChat, copyinstrStores_bytes 1024 (Nat.le_refl _), copyinstr_bytes]
  simp only [bind, Except.bind, called, answered]
  cases (inBytes m root (· = 0) promptVa.toNat 1024 ram).1 with
  | none => rfl
  | some bytes =>
      by_cases failed : ret < 0
      · have refused : ¬(0 ≤ ret ∧ resp'.success = true) := fun both => absurd both.1 (by omega)
        simp only [refused, failed, if_false, if_true, Option.isNone_some, Bool.false_eq_true]
        rfl
      · cases succeeded : resp'.success with
        | false =>
            simp only [failed, and_false, if_false, Option.isNone_some, Bool.false_eq_true, Bool.not_false, if_true]
            rfl
        | true =>
            have sign : 0 ≤ ret := by omega
            simp only [sign, failed, and_self, if_true, if_false, Option.isNone_some, Bool.false_eq_true, Bool.not_true]
            rw [chatCopy_script]
            cases chatCopy m root respVa respMaxlen (resp'.content.getD w.memory) resp'.contentLen
              (inBytes m root (· = 0) promptVa.toNat 1024 ram).2 with
            | error message => rfl
            | ok result => rfl

/-- A server that answers with two bytes. -/
def brief : Surroundings where
  initialized := true
  allocates _ := true
  memory _ := 0
  http _ := { ret := 0, statusCode := 200, body := some (Bytes.ascii "\x7b\"content\":\"ok\"\x7d"), bodyLen := 16 }

theorem brief_answers (prompt : Nat → Byte) (resp : ChatResponse) :
    0 ≤ (aiChat brief prompt resp).1 ∧ (aiChat brief prompt resp).2.1.success = true := ⟨Int.le_refl 0, rfl⟩

/-- A program gives a mapped buffer without room for a byte. -/
theorem chat_overruns : ∃ k trace root,
    Reaches (step (smallLayout 12)) (fun k _ action => fed k action = true) (· = bootKernel (smallLayout 12)) k trace ∧
      (k.pool 0).pagetable = some root ∧
      ¬ChatRespects k.memory root 0x1000#64 0x1000#64 0 brief (fun _ => 0)
        { success := false, content := none, contentLen := 0, errorCode := 0 } (fun _ _ => 0) := by
  obtain ⟨k, trace, root, page, reached, rooted, _, mapped⟩ := loaded_page
  have here : userTarget k.memory root (0x1000#64).toNat = some page := mapped
  refine ⟨k, trace, root, reached, rooted, ?_⟩
  rw [chat_respects_iff]
  rintro (room | silent | gone)
  · exact absurd room (by decide)
  · refine silent ⟨fun i _ plain => ?_, brief_answers _ _⟩
    cases i with
    | zero =>
        rw [Nat.add_zero, here]
        exact Option.some_ne_none page
    | succ i =>
        obtain ⟨_, _, real⟩ := plain 0 (Nat.succ_pos i)
        exact absurd rfl real
  · rw [here] at gone
    simp at gone

end BtbuOs.Vm
