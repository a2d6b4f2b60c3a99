import BtbuOs.Lib.Appends
import BtbuOs.Npc.AiResponse
import BtbuOs.Npc.Memory
import BtbuOs.Npc.Threads

namespace BtbuOs.Npc.Prompt

open Bytes
open Net (putAt)
open Threads (text npcCount)

/-- The macro `L2_MEMORY_SIZE`. -/
def l2MemorySize : Nat := 1024

/-- The macro `L3_HISTORY_SIZE`. -/
def l3HistorySize : Nat := 512

/-- The macro `PROMPT_SIZE`. -/
def promptSize : Nat := 1024

/-- The sizes of the arrays `situation` and `l3_entry`, and of `message` and `memory`. -/
def situationSize : Nat := 128
def l3EntrySize : Nat := 128
def messageSize : Nat := 256

/-- The array `L1_PERSONAS`. -/
def l1Personas : List (List Byte) :=
  [text "你是NPC1，性格外向热情，喜欢主动和别人交流。说话简短友好(20字以内)。",
    text "你是NPC2，性格内向沉稳，喜欢思考问题。说话简短有深度(20字以内)。",
    text "你是NPC3，性格幽默风趣，喜欢开玩笑。说话简短有趣(20字以内)。"]

def persona (npcId : Nat) : List Byte := l1Personas.getD (npcId - 1) []

/-- The function `strlen` on an array of which a number of bytes is left. -/
def strlen (buf : Memory) : Nat → Nat → Option Nat
  | 0, _ => none
  | left + 1, i => if buf i = 0 then some i else strlen buf left (i + 1)

/-- The loop of `str_append`. -/
def copyBehind (size : Nat) (dst : Memory) (i : Nat) : List Byte → Option Memory
  | [] => putAt size dst i [0]
  | c :: src => do copyBehind size (← putAt size dst i [c]) (i + 1) src

/-- The function `str_append`, whose source is a string. The helper knows no size, and a store outside has no defined result. -/
def strAppend (size : Nat) (src : List Byte) (dst : Memory) : Option Memory := do
  copyBehind size dst (← strlen dst size 0) src

/-- The function `append_int`, which puts the digits from its own array behind the string. -/
def appendInt (size : Nat) (n : Int) (buf : Memory) : Option Memory := strAppend size (Threads.appendInt n) buf

/-- The fields of `struct npc_shared` for the conversations. -/
structure History where
  l3History : Memory
  l3Len : Nat

/-- Stores at the end of the history. -/
def History.store (h : History) (bytes : List Byte) : Option History :=
  (putAt l3HistorySize h.l3History h.l3Len bytes).map fun l3History => ⟨l3History, h.l3Len + bytes.length⟩

/-- The part of `append_to_l3` that gives up an old history when the entry does not fit behind it. -/
def makeRoom (h : History) (entryLen : Int) : Option (History × Int) :=
  let remain : Int := l3HistorySize - h.l3Len - 2
  if remain < entryLen then
    (putAt l3HistorySize h.l3History 0 [0]).map fun l3History => (⟨l3History, 0⟩, (l3HistorySize - 2 : Int))
  else some (h, remain)

/-- The part of `append_to_l3` that stores the entry behind a separator. -/
def addEntry (h : History) (remain : Int) (entry : List Byte) : Option History := do
  let h ← (if 0 < h.l3Len then h.store (text ";") else some h)
  let copyLen : Int := if entry.length < remain then entry.length else remain
  let h ← h.store (entry.take copyLen.toNat)
  let l3History ← putAt l3HistorySize h.l3History h.l3Len [0]
  some { h with l3History }

def appendToL3 (h : History) (entry : List Byte) : Option History := do
  let (h, remain) ← makeRoom h entry.length
  addEntry h remain entry

/-- A label with the number of an NPC in front of what was said. -/
def phrase (size : Nat) (label : String) (npc : Int) (between : String) (said : List Byte) (stack : Memory) : Option Memory := do
  let buf ← putAt size stack 0 [0]
  let buf ← strAppend size (text label) buf
  let buf ← appendInt size npc buf
  let buf ← strAppend size (text between) buf
  strAppend size said buf

/-- The situation of a round with a message. -/
def replySituation (inboxFrom : Int) (inbox : List Byte) (stack : Memory) : Option Memory :=
  phrase situationSize "NPC" inboxFrom "对你说: " inbox stack

/-- The entry for a message from another NPC. -/
def receivedEntry (inboxFrom : Int) (inbox : List Byte) (stack : Memory) : Option Memory :=
  phrase l3EntrySize "NPC" inboxFrom ":" inbox stack

/-- The entry for the own utterance. -/
def spokenEntry (targetNpc : Int) (message : List Byte) (stack : Memory) : Option Memory :=
  phrase l3EntrySize "我->NPC" targetNpc ":" message stack

/-- One round of the loop over the other NPCs; the flag is set before the first one. -/
def listPeer (npcId : Nat) (loop : Memory × Bool) (j : Nat) : Option (Memory × Bool) :=
  if j = npcId then some loop
  else do
    let buf ← (if loop.2 then some loop.1 else strAppend situationSize (text ",") loop.1)
    let buf ← strAppend situationSize (text "NPC") buf
    let buf ← appendInt situationSize j buf
    some (buf, false)

/-- The situation of a round without a message. -/
def proactiveSituation (npcId : Nat) (stack : Memory) : Option Memory := do
  let buf ← putAt situationSize stack 0 [0]
  let buf ← strAppend situationSize (text "你想主动找人聊天。可选目标: ") buf
  let loop ← (List.range' 1 npcCount).foldlM (listPeer npcId) (buf, true)
  some loop.1

/-- The bytes that `npc_memory_load` leaves in the array of the prompt. -/
def loadL2 (memories : Memories) (npcId : Nat) (copied : Bool) (stack kernelStack : Memory) : Int × Memory :=
  let (len, bytes) := sysNpcMemoryLoad memories npcId kernelStack l2MemorySize copied
  (len, put stack 0 bytes)

def buildAiPrompt (npcId : Nat) (l2 : Int × Memory) (h : History) (situation : List Byte) (replyTo : Int) (stack : Memory) :
    Option Memory := do
  let prompt ← putAt promptSize stack 0 [0]
  let prompt ← strAppend promptSize (persona npcId) prompt
  let prompt ← strAppend promptSize (text "\n") prompt
  let prompt ← (if 0 < l2.1 then do
      let prompt ← strAppend promptSize (text "你的记忆: ") prompt
      let prompt ← strAppend promptSize (string l2.2 0 l2MemorySize) prompt
      strAppend promptSize (text "\n") prompt
    else some prompt)
  let prompt ← (if 0 < h.l3Len then do
      let prompt ← strAppend promptSize (text "最近对话: ") prompt
      let prompt ← strAppend promptSize (string h.l3History 0 l3HistorySize) prompt
      strAppend promptSize (text "\n") prompt
    else some prompt)
  let prompt ← strAppend promptSize (text "现在情况: ") prompt
  let prompt ← strAppend promptSize situation prompt
  let prompt ← strAppend promptSize (text "\n") prompt
  let prompt ← (if 0 < replyTo then do
      let prompt ← strAppend promptSize (text "你必须回复NPC") prompt
      let prompt ← appendInt promptSize replyTo prompt
      let prompt ← strAppend promptSize (text "，格式:\n") prompt
      let prompt ← strAppend promptSize (text "[to npc") prompt
      let prompt ← appendInt promptSize replyTo prompt
      let prompt ← strAppend promptSize (text "]: 你的回复\n") prompt
      strAppend promptSize (text "或者 [to none]: 不回复\n") prompt
    else do
      let prompt ← strAppend promptSize (text "请用以下格式回复(只回复一行):\n") prompt
      let prompt ← strAppend promptSize (text "[to npc数字]: 你要说的话\n") prompt
      strAppend promptSize (text "或者 [to none]: 不说话\n") prompt)
  strAppend promptSize (text "可选: [memory]: 你想记住的事\n") prompt

/-- The state of an NPC, of its history and of the store in the kernel. -/
structure State where
  threads : Threads.State
  history : History
  memories : Memories

/-- The arrays on the stack before they are written. -/
structure Stack where
  situation : Memory
  l3Entry : Memory
  prompt : Memory
  l2Memory : Memory
  kernel : Memory
  message : Memory
  memory : Memory

/-- The flag tells whether the kernel can copy the log to the user, and a response is the readable bytes of its array. -/
inductive Action where
  | perceive (result : Option (List Byte))
  | think (random : Bool) (stack : Stack) (copied : Bool)
  | decideReply (response : Option (List Byte)) (stack : Stack)
  | communicate (written : Int)
  | remember
  | save (npcId : Int) (content : Option Memory) (len : Int)

/-- The condition of a round of thinking. -/
def starts (shared : Threads.Shared) (random : Bool) : Prop := (shared.hasNewMsg || random) && !shared.hasPendingSend

/-- The condition of an answer to a message. -/
def answers (shared : Threads.Shared) : Prop := shared.hasNewMsg ∧ 0 < shared.inboxFrom

instance (shared : Threads.Shared) (random : Bool) : Decidable (starts shared random) := inferInstanceAs (Decidable (_ = true))

instance (shared : Threads.Shared) : Decidable (answers shared) := inferInstanceAs (Decidable (_ ∧ _))

/-- The situation, the history and the target that go into the prompt. -/
def describe (s : State) (stack : Stack) : Option (List Byte × History × Int) :=
  let shared := s.threads.shared
  if answers shared then do
    let situation ← replySituation shared.inboxFrom shared.inbox stack.situation
    let entry ← receivedEntry shared.inboxFrom shared.inbox stack.l3Entry
    let history ← appendToL3 s.history (string entry 0 l3EntrySize)
    some (string situation 0 situationSize, history, shared.inboxFrom)
  else do
    let situation ← proactiveSituation s.threads.wiring.npcId stack.situation
    some (string situation 0 situationSize, s.history, 0)

/-- The stores of a round before the call of the AI. -/
def ponder (s : State) (stack : Stack) (copied : Bool) : Option History := do
  let npcId := s.threads.wiring.npcId
  let (situation, history, replyTo) ← describe s stack
  let _ ← buildAiPrompt npcId (loadL2 s.memories npcId copied stack.l2Memory stack.kernel) history situation replyTo stack.prompt
  some history

/-- What the parser finds in a response. -/
def readAnswer (response : List Byte) (stack : Stack) : Option Threads.Reply := do
  let (targetNpc, message, memory) ← parseAiResponse response stack.message messageSize stack.memory messageSize
  some ⟨targetNpc, string message 0 messageSize, string memory 0 messageSize⟩

/-- The stores of a round for the own utterance. -/
def recordReply (h : History) (reply : Threads.Reply) (stack : Stack) : Option History :=
  if 0 < reply.targetNpc ∧ reply.message ≠ [] then do
    let entry ← spokenEntry reply.targetNpc reply.message stack.l3Entry
    appendToL3 h (string entry 0 l3EntrySize)
  else some h

/-- The history behind the stores of an action. It is absent when one of them is outside of its buffer. -/
def writes (s : State) : Action → Option History
  | .think random stack copied => if starts s.threads.shared random then ponder s stack copied else some s.history
  | .decideReply (some response) stack => (readAnswer response stack).elim (some s.history) fun reply => recordReply s.history reply stack
  | _ => some s.history

def threadsStep (s : State) : Action → Option (Threads.State × List Threads.Event)
  | .perceive result => Threads.perceive s.threads result
  | .think random _ _ => Threads.think s.threads random
  | .decideReply none _ => Threads.decideReply s.threads none
  | .decideReply (some response) stack => do Threads.decideReply s.threads (some (← readAnswer response stack))
  | .communicate written => Threads.communicate s.threads written
  | .remember => Threads.remember s.threads
  | .save _ _ _ => some (s.threads, [])

/-- The memory thread saves what waits, and any process may save at any time. -/
def storeStep (s : State) : Action → Memories
  | .remember =>
      let shared := s.threads.shared
      if shared.hasPendingMemory ∧ 0 < shared.pendingMemoryLen then
        (sysNpcMemorySave s.memories s.threads.wiring.npcId (some fun k => shared.pendingMemory.getD k 0) shared.pendingMemoryLen).2
      else s.memories
  | .save npcId content len => (sysNpcMemorySave s.memories npcId content len).2
  | _ => s.memories

/-- A step whose stores leave a buffer has no defined result. -/
def step (s : State) (action : Action) : Option (State × List Threads.Event) := do
  let (threads, events) ← threadsStep s action
  let history ← writes s action
  some (⟨threads, history, storeStep s action⟩, events)

/-- The state before the threads run. -/
def Initial (s : State) : Prop := Threads.Initial s.threads ∧ s.history = ⟨fun _ => 0, 0⟩ ∧ Initialised s.memories

/-- All stores of the action are inside of their buffers. -/
def Inside (s : State) (action : Action) : Prop := (writes s action).isSome

/-- The history ends inside of its array. -/
structure History.Terminated (h : History) : Prop where
  len : h.l3Len ≤ l3HistorySize - 1
  null : h.l3History h.l3Len = 0
  clean : 0 ∉ slice h.l3History 0 h.l3Len

/-- The length of a history behind another entry, which is cut when the whole array is too short for it. -/
def lengthened (len entryLen : Nat) : Nat :=
  if l3HistorySize - 2 < len + entryLen then min entryLen (l3HistorySize - 2) else if len = 0 then entryLen else len + 1 + entryLen

/-- The lengths of the lines for the memory and for the history. -/
def memoryLength (s : State) (copied : Bool) : Nat :=
  let loaded := (logsOf s.memories).load s.threads.wiring.npcId l2MemorySize
  if loaded = [] ∨ copied = false then 0 else (loaded.takeWhile (· ≠ 0)).length + 15

def historyLength (len : Nat) : Nat := if len = 0 then 0 else len + 15

/-- The message and the lines of the prompt are short enough. -/
def RoundFits (s : State) (copied : Bool) : Prop :=
  let fixed := (persona s.threads.wiring.npcId).length + memoryLength s copied
  let inboxLen := s.threads.shared.inbox.length
  if answers s.threads.shared then
    inboxLen ≤ 112 ∧ fixed + historyLength (lengthened s.history.l3Len (inboxLen + 5)) + inboxLen ≤ 873
  else fixed + historyLength s.history.l3Len ≤ 817
  deriving Decidable

/-- The own utterance is short enough. -/
def ReplyFits (reply : Threads.Reply) : Prop :=
  0 < reply.targetNpc → reply.message ≠ [] → (Threads.appendInt reply.targetNpc).length + reply.message.length ≤ 118
  deriving Decidable

/-- The texts that an action puts together are short enough. -/
def Fits (s : State) : Action → Prop
  | .think random _ copied => starts s.threads.shared random → RoundFits s copied
  | .decideReply (some response) stack => ∀ reply ∈ readAnswer response stack, ReplyFits reply
  | _ => True

instance (s : State) : (action : Action) → Decidable (Fits s action)
  | .think random _ copied => inferInstanceAs (Decidable (starts s.threads.shared random → RoundFits s copied))
  | .decideReply (some response) stack => inferInstanceAs (Decidable (∀ reply ∈ readAnswer response stack, ReplyFits reply))
  | .perceive _ | .decideReply none _ | .communicate _ | .remember | .save _ _ _ => inferInstanceAs (Decidable True)

section Strings

variable {size : Nat} {src : List Byte}

/-- The length of a string is found when its null byte is inside of the array. -/
theorem strlen_eq (buf : Memory) (left i : Nat) :
    strlen buf left i = if (string buf i left).length < left then some (i + (string buf i left).length) else none := by
  induction left generalizing i with
  | zero => rfl
  | succ left ih =>
      have whole : slice buf i (left + 1) = buf i :: slice buf (i + 1) left := by
        rw [Nat.add_comm, slice_add]
        rfl
      rw [strlen, string, whole, List.takeWhile_cons]
      by_cases zero : buf i = 0
      · simp [zero]
      · rw [if_neg zero, ih, if_pos (decide_eq_true zero), List.length_cons]
        change (if (string buf (i + 1) left).length < left then some (i + 1 + (string buf (i + 1) left).length) else none) =
          if (string buf (i + 1) left).length + 1 < left + 1 then some (i + ((string buf (i + 1) left).length + 1)) else none
        simp only [Nat.add_lt_add_iff_right, Nat.add_assoc, Nat.add_comm 1]

theorem copyBehind_eq (dst : Memory) (i : Nat) (src : List Byte) :
    copyBehind size dst i src = if i + src.length < size then some (put dst i (src ++ [0])) else none := by
  induction src generalizing dst i with
  | nil =>
      rw [copyBehind, putAt]
      rfl
  | cons c src ih =>
      change (putAt size dst i [c]).bind (fun dst => copyBehind size dst (i + 1) src) = _
      rw [putAt, List.length_singleton, List.length_cons]
      split
      · rw [Option.bind_some, ih, Nat.add_right_comm, Nat.add_assoc]
        rfl
      · rw [Option.bind_none, if_neg (by omega)]

/-- The helper puts its source behind the string, and it leaves the array when there is no room. -/
theorem strAppend_appends (clean : 0 ∉ src) : Appends size (strAppend size src) src := by
  constructor
  · exact clean
  · intro base str real room
    change (strlen (put base 0 (str ++ [0])) size 0).bind (fun i => copyBehind size (put base 0 (str ++ [0])) i src) = _
    have stored : string (put base 0 (str ++ [0])) 0 size = str := string_put base 0 real room
    have behind := put_string base 0 str src
    rw [Nat.zero_add] at behind
    rw [strlen_eq, stored, if_pos room, Option.bind_some, copyBehind_eq, Nat.zero_add, behind, List.length_append]

theorem digits_clean (n : Int) : 0 ∉ Threads.appendInt n := by
  unfold Threads.appendInt
  split
  · exact List.not_mem_nil
  · intro listed
    obtain ⟨c, digit, zero⟩ := List.mem_map.mp listed
    have shown := Nat.isDigit_of_mem_toDigits (by decide) (by decide) digit
    rw [Char.isDigit, Bool.and_eq_true, decide_eq_true_eq, decide_eq_true_eq] at shown
    have low : 48 ≤ c.toNat := shown.1
    have high : c.toNat ≤ 57 := shown.2
    have code := congrArg BitVec.toNat zero
    rw [BitVec.toNat_ofNat] at code
    change c.toNat % 256 = 0 at code
    omega

theorem appendInt_appends (n : Int) : Appends size (appendInt size n) (Threads.appendInt n) := strAppend_appends (digits_clean n)

/-- A buffer is emptied before texts are put there. -/
theorem emptied_bind {program : Memory → Option Memory} {added : List Byte} (appends : Appends size program added) (stack : Memory)
    (positive : 0 < size) : (putAt size stack 0 [0]).bind program =
      if added.length < size then some (put stack 0 (added ++ [0])) else none := by
  have room : 0 + [(0 : Byte)].length ≤ size := positive
  rw [putAt, if_pos room, Option.bind_some, appends.emptied stack positive]

end Strings

section Phrases

variable {npc : Int} {said : List Byte} {label between : String}

/-- The text of a phrase. -/
def phraseText (label : String) (npc : Int) (between : String) (said : List Byte) : List Byte :=
  text label ++ (Threads.appendInt npc ++ (text between ++ said))

theorem phrase_eq {size : Nat} (positive : 0 < size) (first : 0 ∉ text label) (second : 0 ∉ text between) (clean : 0 ∉ said)
    (stack : Memory) : phrase size label npc between said stack =
      if (phraseText label npc between said).length < size then some (put stack 0 (phraseText label npc between said ++ [0])) else none := by
  have whole : Appends size (fun buf => strAppend size (text label) buf >>= fun buf => appendInt size npc buf >>= fun buf =>
      strAppend size (text between) buf >>= strAppend size said) (phraseText label npc between said) :=
    (strAppend_appends first).bind ((appendInt_appends npc).bind ((strAppend_appends second).bind (strAppend_appends clean)))
  exact emptied_bind whole stack positive

theorem phraseText_clean (first : 0 ∉ text label) (second : 0 ∉ text between) (clean : 0 ∉ said) :
    0 ∉ phraseText label npc between said := by
  simp only [phraseText, List.mem_append, not_or]
  exact ⟨first, digits_clean npc, second, clean⟩

/-- A buffer that was filled holds its text as a string. -/
theorem phrase_string {size : Nat} {stack buf : Memory} (first : 0 ∉ text label) (second : 0 ∉ text between) (clean : 0 ∉ said)
    (positive : 0 < size) (filled : phrase size label npc between said stack = some buf) :
    string buf 0 size = phraseText label npc between said := by
  rw [phrase_eq positive first second clean] at filled
  split at filled
  · rename_i fits
    rw [← Option.some.inj filled]
    exact string_put stack 0 (phraseText_clean first second clean) fits
  · contradiction

end Phrases

section Prompts

/-- The lines of the prompt for the memory and for the history, and its last lines. -/
def memoryText (l2 : Int × Memory) : List Byte :=
  if 0 < l2.1 then text "你的记忆: " ++ (string l2.2 0 l2MemorySize ++ text "\n") else []

def historyText (h : History) : List Byte :=
  if 0 < h.l3Len then text "最近对话: " ++ (string h.l3History 0 l3HistorySize ++ text "\n") else []

def formatText (replyTo : Int) : List Byte :=
  if 0 < replyTo then
    text "你必须回复NPC" ++ (Threads.appendInt replyTo ++ (text "，格式:\n" ++ (text "[to npc" ++ (Threads.appendInt replyTo ++
      (text "]: 你的回复\n" ++ text "或者 [to none]: 不回复\n")))))
  else text "请用以下格式回复(只回复一行):\n" ++ (text "[to npc数字]: 你要说的话\n" ++ text "或者 [to none]: 不说话\n")

def promptText (npcId : Nat) (l2 : Int × Memory) (h : History) (situation : List Byte) (replyTo : Int) : List Byte :=
  persona npcId ++ (text "\n" ++ (memoryText l2 ++ (historyText h ++ (text "现在情况: " ++ (situation ++ (text "\n" ++
    (formatText replyTo ++ text "可选: [memory]: 你想记住的事\n")))))))

theorem string_clean (mem : Memory) (start size : Nat) : 0 ∉ string mem start size := by
  intro listed
  have real := List.mem_takeWhile_imp listed
  simp at real

theorem persona_clean (npcId : Nat) : 0 ∉ persona npcId := by
  rw [persona, l1Personas]
  match npcId - 1 with
  | 0 | 1 | 2 => decide
  | n + 3 => exact List.not_mem_nil

theorem prompt_literals : 0 ∉ text "\n" ∧ 0 ∉ text "你的记忆: " ∧ 0 ∉ text "最近对话: " ∧ 0 ∉ text "现在情况: " ∧
    0 ∉ text "可选: [memory]: 你想记住的事\n" := by decide

theorem format_literals : (0 ∉ text "你必须回复NPC" ∧ 0 ∉ text "，格式:\n" ∧ 0 ∉ text "[to npc" ∧ 0 ∉ text "]: 你的回复\n" ∧
    0 ∉ text "或者 [to none]: 不回复\n") ∧ 0 ∉ text "请用以下格式回复(只回复一行):\n" ∧
    0 ∉ text "[to npc数字]: 你要说的话\n" ∧ 0 ∉ text "或者 [to none]: 不说话\n" := by decide

theorem proactive_literals : 0 ∉ text "你想主动找人聊天。可选目标: " ∧ 0 ∉ text "NPC" ∧ 0 ∉ text "," := by decide

theorem buildAiPrompt_eq (npcId : Nat) (l2 : Int × Memory) (h : History) {situation : List Byte} (clean : 0 ∉ situation)
    (replyTo : Int) (stack : Memory) : buildAiPrompt npcId l2 h situation replyTo stack =
      if (promptText npcId l2 h situation replyTo).length < promptSize then
        some (put stack 0 (promptText npcId l2 h situation replyTo ++ [0])) else none := by
  have literal {str : String} (real : 0 ∉ text str) : Appends promptSize (strAppend promptSize (text str)) (text str) :=
    strAppend_appends real
  obtain ⟨line, memories, talks, now, choice⟩ := prompt_literals
  obtain ⟨⟨must, form, target, reply, refuse⟩, ask, say, quiet⟩ := format_literals
  have newline := literal line
  have memory := Appends.choose
    (fun _ : 0 < l2.1 => (literal memories).bind ((strAppend_appends (string_clean l2.2 0 l2MemorySize)).bind newline))
    (fun _ => Appends.nothing)
  have history := Appends.choose
    (fun _ : 0 < h.l3Len => (literal talks).bind ((strAppend_appends (string_clean h.l3History 0 l3HistorySize)).bind newline))
    (fun _ => Appends.nothing)
  have number : Appends promptSize (appendInt promptSize replyTo) (Threads.appendInt replyTo) := appendInt_appends replyTo
  have format := Appends.choose
    (fun _ : 0 < replyTo => (literal must).bind (number.bind ((literal form).bind
      ((literal target).bind (number.bind ((literal reply).bind (literal refuse)))))))
    (fun _ => (literal ask).bind ((literal say).bind (literal quiet)))
  have whole := (strAppend_appends (persona_clean npcId)).bind (newline.bind (memory.bind (history.bind
    ((literal now).bind ((strAppend_appends clean).bind (newline.bind (format.bind (literal choice))))))))
  exact emptied_bind whole stack (by decide)

/-- The situation without a message names the two other NPCs. -/
theorem proactiveSituation_eq {npcId : Nat} (first : 1 ≤ npcId) (last : npcId ≤ npcCount) (stack : Memory) :
    proactiveSituation npcId stack = some (put stack 0 (Threads.proactive npcId ++ [0])) := by
  have literal {str : String} (real : 0 ∉ text str) : Appends situationSize (strAppend situationSize (text str)) (text str) :=
    strAppend_appends real
  obtain ⟨want, name, comma⟩ := proactive_literals
  have number (value : Int) : Appends situationSize (appendInt situationSize value) (Threads.appendInt value) :=
    appendInt_appends value
  have named (a b : Int) := (literal want).bind ((literal name).bind ((number a).bind ((literal comma).bind
    ((literal name).bind (number b)))))
  have filled (a b : Int) := emptied_bind (named a b) stack (by decide)
  interval_cases npcId
  · have whole := filled 2 3
    rw [if_pos (by decide)] at whole
    refine Eq.trans ?_ whole
    simp [proactiveSituation, listPeer, List.range', Option.bind_assoc]
  · have whole := filled 1 3
    rw [if_pos (by decide)] at whole
    refine Eq.trans ?_ whole
    simp [proactiveSituation, listPeer, List.range', Option.bind_assoc]
  · have whole := filled 1 2
    rw [if_pos (by decide)] at whole
    refine Eq.trans ?_ whole
    simp [proactiveSituation, listPeer, List.range', Option.bind_assoc]

end Prompts

section Histories

variable {h : History} {bytes entry : List Byte}

/-- The history has no null byte before its end. -/
def History.Clean (h : History) : Prop := 0 ∉ slice h.l3History 0 h.l3Len

theorem Clean.store (clean : h.Clean) (real : 0 ∉ bytes) (room : h.l3Len + bytes.length ≤ l3HistorySize) :
    ∃ after, h.store bytes = some after ∧ after.l3Len = h.l3Len + bytes.length ∧ after.Clean := by
  refine ⟨⟨put h.l3History h.l3Len bytes, h.l3Len + bytes.length⟩, ?_, rfl, ?_⟩
  · rw [History.store, putAt, if_pos room]
    rfl
  · have before : slice (put h.l3History h.l3Len bytes) 0 h.l3Len = slice h.l3History 0 h.l3Len :=
      slice_congr fun k below => put_outside bytes (Or.inl (by omega))
    rw [History.Clean, slice_add, before, Nat.zero_add, slice_put, List.mem_append, not_or]
    exact ⟨clean, real⟩

/-- A history is ended behind its last byte. -/
theorem Clean.ended (clean : h.Clean) (len : h.l3Len ≤ l3HistorySize - 1) :
    ∃ l3History, putAt l3HistorySize h.l3History h.l3Len [0] = some l3History ∧ History.Terminated ⟨l3History, h.l3Len⟩ := by
  have room : h.l3Len + [(0 : Byte)].length ≤ l3HistorySize := by
    have size : l3HistorySize = 512 := rfl
    rw [List.length_singleton]
    omega
  refine ⟨put h.l3History h.l3Len [0], if_pos room, len, Function.update_self .., ?_⟩
  have before : slice (put h.l3History h.l3Len [0]) 0 h.l3Len = slice h.l3History 0 h.l3Len :=
    slice_congr fun k below => put_outside [0] (Or.inl (by omega))
  dsimp only
  rw [before]
  exact clean

/-- An entry for which there is room is stored behind a separator. -/
theorem addEntry_terminated (clean : h.Clean) (real : 0 ∉ entry) (remain : Int) (positive : 0 ≤ remain)
    (room : h.l3Len + remain ≤ l3HistorySize - 2) : ∃ after, addEntry h remain entry = some after ∧ after.Terminated ∧
      after.l3Len = (if h.l3Len = 0 then 0 else h.l3Len + 1) + min entry.length remain.toNat := by
  have size : l3HistorySize = 512 := rfl
  have separated : ∃ g, (if 0 < h.l3Len then h.store (text ";") else some h) = some g ∧ g.Clean ∧
      g.l3Len = if h.l3Len = 0 then 0 else h.l3Len + 1 := by
    by_cases started : 0 < h.l3Len
    · have one : (text ";").length = 1 := by decide
      obtain ⟨g, stored, len, kept⟩ := Clean.store clean (show 0 ∉ text ";" by decide) (by omega)
      refine ⟨g, by rw [if_pos started, stored], kept, ?_⟩
      rw [if_neg (by omega), len, one]
    · exact ⟨h, if_neg started, clean, by rw [if_pos (by omega)]; omega⟩
  obtain ⟨g, separate, kept, len⟩ := separated
  have count : (if (entry.length : Int) < remain then (entry.length : Int) else remain).toNat = min entry.length remain.toNat := by
    split <;> omega
  have bound : g.l3Len ≤ h.l3Len + 1 := by
    rw [len]
    split <;> omega
  have part : 0 ∉ entry.take (min entry.length remain.toNat) := fun listed => real (List.mem_of_mem_take listed)
  have copied : (entry.take (min entry.length remain.toNat)).length = min entry.length remain.toNat := by
    rw [List.length_take]
    omega
  obtain ⟨filled, stored, fill, whole⟩ := Clean.store kept part (by omega)
  obtain ⟨l3History, ended, terminated⟩ := Clean.ended whole (by omega)
  refine ⟨⟨l3History, filled.l3Len⟩, ?_, terminated, by rw [← len, ← copied]; exact fill⟩
  simp only [addEntry, separate, Option.bind_eq_bind, Option.bind_some, count, stored, ended]

/-- Every entry leaves a terminated history. -/
theorem appendToL3_terminated (terminated : h.Terminated) (real : 0 ∉ entry) :
    ∃ after, appendToL3 h entry = some after ∧ after.Terminated ∧ after.l3Len = lengthened h.l3Len entry.length := by
  have size : l3HistorySize = 512 := rfl
  have short := terminated.len
  by_cases full : (l3HistorySize : Int) - h.l3Len - 2 < entry.length
  · have room : makeRoom h entry.length = some (⟨put h.l3History 0 [0], 0⟩, (l3HistorySize - 2 : Int)) := if_pos full
    have empty : History.Clean ⟨put h.l3History 0 [0], 0⟩ := List.not_mem_nil
    obtain ⟨after, added, kept, len⟩ := addEntry_terminated empty real (l3HistorySize - 2) (by omega) (by dsimp only; omega)
    have counted : lengthened h.l3Len entry.length = min entry.length (l3HistorySize - 2) := if_pos (by omega)
    refine ⟨after, ?_, kept, ?_⟩
    · simp only [appendToL3, room, Option.bind_eq_bind, Option.bind_some, added]
    · rw [len, counted, if_pos rfl]
      omega
  · have room : makeRoom h entry.length = some (h, (l3HistorySize : Int) - h.l3Len - 2) := if_neg full
    obtain ⟨after, added, kept, len⟩ := addEntry_terminated terminated.clean real (l3HistorySize - h.l3Len - 2)
      (by omega) (by omega)
    have counted : lengthened h.l3Len entry.length = if h.l3Len = 0 then entry.length else h.l3Len + 1 + entry.length :=
      if_neg (by omega)
    have whole : min entry.length ((l3HistorySize : Int) - h.l3Len - 2).toNat = entry.length := by omega
    refine ⟨after, ?_, kept, ?_⟩
    · simp only [appendToL3, room, Option.bind_eq_bind, Option.bind_some, added]
    · rw [len, counted, whole]
      split
      · exact Nat.zero_add _
      · rfl

/-- The history is read back as a string of its length. -/
theorem History.Terminated.string_length (terminated : h.Terminated) : (string h.l3History 0 l3HistorySize).length = h.l3Len := by
  have size : l3HistorySize = 512 := rfl
  have short := terminated.len
  obtain ⟨rest, whole⟩ : ∃ rest, l3HistorySize = h.l3Len + (1 + rest) := ⟨l3HistorySize - 1 - h.l3Len, by omega⟩
  have end_zero : slice h.l3History (0 + h.l3Len) (1 + rest) = 0 :: slice h.l3History (0 + h.l3Len + 1) rest := by
    rw [slice_add, Nat.zero_add]
    change [h.l3History h.l3Len] ++ _ = _
    rw [terminated.null]
    rfl
  have real : ∀ c ∈ slice h.l3History 0 h.l3Len, decide (c ≠ 0) = true := by
    intro c listed
    rw [decide_eq_true_eq]
    rintro rfl
    exact terminated.clean listed
  rw [string, whole, slice_add, end_zero, List.takeWhile_append_of_pos real]
  simp

end Histories

section Lengths

variable {s : State}

/-- What the threads keep of the NPCs and of the inbox. -/
structure Steady (t : Threads.State) : Prop where
  npc : 1 ≤ t.wiring.npcId ∧ t.wiring.npcId ≤ npcCount
  peers : ∀ k, t.wiring.readFromNpc k ≤ npcCount
  sender : t.shared.inboxFrom ≤ npcCount
  inbox : 0 ∉ t.shared.inbox

/-- What the threads and the kernel keep. -/
structure Sound (s : State) : Prop extends Steady s.threads where
  history : s.history.Terminated
  memories : Tidy s.memories

/-- The number of an NPC has one digit. -/
theorem one_digit {npc : Int} (positive : 0 < npc) (small : npc ≤ npcCount) : (Threads.appendInt npc).length = 1 := by
  have small : npc ≤ 3 := small
  interval_cases npc <;> decide

/-- A string that was stored ends at its first null byte. -/
theorem string_loaded (mem : Memory) {log : List Byte} {size : Nat} (short : log.length < size) :
    string (put mem 0 (log ++ [0])) 0 size = log.takeWhile (· ≠ 0) := by
  obtain ⟨rest, whole⟩ : ∃ rest, size = (log ++ [0]).length + rest := by
    refine ⟨size - (log ++ [0]).length, ?_⟩
    rw [List.length_append, List.length_singleton]
    omega
  rw [string, whole, slice_add, slice_put, List.append_assoc]
  exact Cursor.takeWhile_stop (by decide)

/-- The string of a loaded log ends at its first null byte. -/
theorem loadL2_length (sound : Sound s) (copied : Bool) (stack kernel : Memory) :
    (memoryText (loadL2 s.memories s.threads.wiring.npcId copied stack kernel)).length = memoryLength s copied := by
  have label : (text "你的记忆: ").length = 14 := by decide
  have newline : (text "\n").length = 1 := by decide
  rw [memoryLength]
  cases copied with
  | false =>
      have failed : loadL2 s.memories s.threads.wiring.npcId false stack kernel = (-1, stack) := by
        rw [loadL2, sysNpcMemoryLoad]
        simp only [Bool.not_false, if_true, ite_self]
        rfl
      rw [failed, memoryText, if_neg (show ¬(0 : Int) < -1 by decide)]
      simp
  | true =>
      have loaded := sound.memories.sysLoad (Int.natCast_nonneg s.threads.wiring.npcId) kernel l2MemorySize
      have limit : (if (l2MemorySize : Int) ≤ 0 ∨ (npcMemoryL2Size : Int) < l2MemorySize then npcMemoryL2Size
          else (l2MemorySize : Int).toNat) = l2MemorySize := by decide
      rw [limit] at loaded
      have short : ((logsOf s.memories).load s.threads.wiring.npcId l2MemorySize).length < l2MemorySize := by
        rw [Logs.load, List.length_take]
        exact Nat.lt_of_le_of_lt (Nat.min_le_left _ _) (by decide)
      rw [loadL2, loaded, memoryText]
      dsimp only
      generalize (logsOf s.memories).load s.threads.wiring.npcId l2MemorySize = log at short
      cases log with
      | nil => rfl
      | cons c log =>
          rw [if_pos (by rw [List.length_cons]; omega), if_neg (by simp), List.length_append, List.length_append, label, newline,
            string_loaded stack short]
          omega

theorem historyText_length {h : History} (terminated : h.Terminated) : (historyText h).length = historyLength h.l3Len := by
  have label : (text "最近对话: ").length = 14 := by decide
  have newline : (text "\n").length = 1 := by decide
  rw [historyText, historyLength]
  by_cases empty : h.l3Len = 0
  · rw [if_pos empty, if_neg (by omega)]
    rfl
  · rw [if_neg empty, if_pos (by omega), List.length_append, List.length_append, label, newline, terminated.string_length]
    omega

/-- The last lines name the sender twice, or they let the NPC choose. -/
theorem formatText_length {replyTo : Int} (small : replyTo ≤ npcCount) :
    (formatText replyTo).length = if 0 < replyTo then 82 else 103 := by
  rw [formatText]
  split
  · rename_i positive
    have shown : (text "你必须回复NPC").length = 18 ∧ (text "，格式:\n").length = 11 ∧ (text "[to npc").length = 7 ∧
        (text "]: 你的回复\n").length = 16 ∧ (text "或者 [to none]: 不回复\n").length = 28 := by decide
    simp only [List.length_append, one_digit positive small, shown]
  · have shown : (text "请用以下格式回复(只回复一行):\n").length = 43 ∧ (text "[to npc数字]: 你要说的话\n").length = 32 ∧
        (text "或者 [to none]: 不说话\n").length = 28 := by decide
    simp only [List.length_append, shown]

/-- The length of a prompt adds up the lengths of its parts. -/
theorem promptText_length {h : History} (terminated : h.Terminated) (npcId : Nat) (l2 : Int × Memory) (situation : List Byte)
    (replyTo : Int) (small : replyTo ≤ npcCount) : (promptText npcId l2 h situation replyTo).length =
      (persona npcId).length + (memoryText l2).length + historyLength h.l3Len + situation.length + (if 0 < replyTo then 135 else 156) := by
  have shown : (text "\n").length = 1 ∧ (text "现在情况: ").length = 14 ∧ (text "可选: [memory]: 你想记住的事\n").length = 37 := by decide
  simp only [promptText, List.length_append, historyText_length terminated, formatText_length small, shown]
  split <;> omega

/-- The two texts for a message end inside of their buffers when the message is short enough. -/
theorem received_length {npc : Int} (positive : 0 < npc) (small : npc ≤ npcCount) (inbox : List Byte) :
    (phraseText "NPC" npc "对你说: " inbox).length = inbox.length + 15 ∧ (phraseText "NPC" npc ":" inbox).length = inbox.length + 5 := by
  have shown : (text "NPC").length = 3 ∧ (text "对你说: ").length = 11 ∧ (text ":").length = 1 := by decide
  simp only [phraseText, List.length_append, one_digit positive small, shown]
  omega

theorem proactive_length {npcId : Nat} (first : 1 ≤ npcId) (last : npcId ≤ npcCount) :
    (Threads.proactive npcId).length = 50 ∧ 0 ∉ Threads.proactive npcId := by
  interval_cases npcId <;> decide

end Lengths

section Rounds

variable {s after : State} {trace events : List Threads.Event} {stack : Stack} {copied random : Bool}

/-- The labels of the phrases have no null byte. -/
theorem labels_clean : 0 ∉ text "NPC" ∧ 0 ∉ text "对你说: " ∧ 0 ∉ text ":" ∧ 0 ∉ text "我->NPC" := by decide

/-- A message that fits gives the situation, and its entry goes to the history. -/
theorem describe_answer (stack : Stack) (sound : Sound s) (answering : answers s.threads.shared) (fits : s.threads.shared.inbox.length ≤ 112) :
    ∃ situation history, describe s stack = some (situation, history, s.threads.shared.inboxFrom) ∧
      situation.length = s.threads.shared.inbox.length + 15 ∧ 0 ∉ situation ∧ history.Terminated ∧
      history.l3Len = lengthened s.history.l3Len (s.threads.shared.inbox.length + 5) := by
  obtain ⟨npc, said, colon, -⟩ := labels_clean
  obtain ⟨long, short⟩ := received_length answering.2 sound.sender s.threads.shared.inbox
  have described : replySituation s.threads.shared.inboxFrom s.threads.shared.inbox stack.situation = some _ :=
    (phrase_eq (by decide) npc said sound.inbox _).trans (if_pos (by rw [long, situationSize]; omega))
  have entered : receivedEntry s.threads.shared.inboxFrom s.threads.shared.inbox stack.l3Entry = some _ :=
    (phrase_eq (by decide) npc colon sound.inbox _).trans (if_pos (by rw [short, l3EntrySize]; omega))
  obtain ⟨history, appended, terminated, len⟩ :=
    appendToL3_terminated sound.history
      (show 0 ∉ phraseText "NPC" s.threads.shared.inboxFrom ":" s.threads.shared.inbox from phraseText_clean npc colon sound.inbox)
  refine ⟨phraseText "NPC" s.threads.shared.inboxFrom "对你说: " s.threads.shared.inbox, history, ?_, long,
    phraseText_clean npc said sound.inbox, terminated, by rw [len, short]⟩
  have first := phrase_string npc said sound.inbox (by decide) described
  have second := phrase_string npc colon sound.inbox (by decide) entered
  simp only [describe, if_pos answering, described, entered, Option.bind_eq_bind, Option.bind_some, first, second, appended]

theorem describe_overrun (sound : Sound s) (answering : answers s.threads.shared) (long : ¬s.threads.shared.inbox.length ≤ 112) :
    describe s stack = none := by
  obtain ⟨npc, said, -⟩ := labels_clean
  have length := (received_length answering.2 sound.sender s.threads.shared.inbox).1
  have overrun : replySituation s.threads.shared.inboxFrom s.threads.shared.inbox stack.situation = none :=
    (phrase_eq (by decide) npc said sound.inbox _).trans (if_neg (by rw [length, situationSize]; omega))
  simp only [describe, if_pos answering, overrun, Option.bind_eq_bind, Option.bind_none]

/-- The prompt decides about the rest of the critical section. -/
theorem ponder_described {situation : List Byte} {history : History} {replyTo : Int} (clean : 0 ∉ situation)
    (described : describe s stack = some (situation, history, replyTo)) : ponder s stack copied =
      if (promptText s.threads.wiring.npcId (loadL2 s.memories s.threads.wiring.npcId copied stack.l2Memory stack.kernel) history
        situation replyTo).length < promptSize then some history else none := by
  simp only [ponder, described, Option.bind_eq_bind, Option.bind_some, buildAiPrompt_eq _ _ _ clean]
  split <;> rfl

/-- The first critical section stays inside of its buffers when its texts are short enough, and it keeps the history terminated. -/
theorem ponder_inside (stack : Stack) (copied : Bool) (sound : Sound s) :
    ((ponder s stack copied).isSome ↔ RoundFits s copied) ∧ ∀ history ∈ ponder s stack copied, history.Terminated := by
  rw [RoundFits]
  have size : promptSize = 1024 := rfl
  have memory := loadL2_length sound copied stack.l2Memory stack.kernel
  by_cases answering : answers s.threads.shared
  · rw [if_pos answering]
    by_cases fits : s.threads.shared.inbox.length ≤ 112
    · obtain ⟨situation, history, described, length, clean, terminated, len⟩ := describe_answer stack sound answering fits
      have whole := promptText_length terminated s.threads.wiring.npcId
        (loadL2 s.memories s.threads.wiring.npcId copied stack.l2Memory stack.kernel) situation _ sound.sender
      rw [if_pos answering.2, memory, length, len] at whole
      rw [ponder_described clean described, whole]
      split
      · rename_i room
        refine ⟨iff_of_true rfl ⟨fits, by omega⟩, ?_⟩
        rintro _ ⟨⟩
        exact terminated
      · rename_i full
        exact ⟨iff_of_false Bool.false_ne_true (fun both => full (by omega)), fun _ absent => nomatch absent⟩
    · have overrun : ponder s stack copied = none := by
        simp only [ponder, describe_overrun sound answering fits, Option.bind_eq_bind, Option.bind_none]
      rw [overrun]
      exact ⟨iff_of_false Bool.false_ne_true (fun both => fits both.1), fun _ absent => nomatch absent⟩
  · rw [if_neg answering]
    obtain ⟨length, clean⟩ := proactive_length sound.npc.1 sound.npc.2
    have described : describe s stack = some (Threads.proactive s.threads.wiring.npcId, s.history, 0) := by
      have stored := string_put stack.situation 0 clean (show (Threads.proactive s.threads.wiring.npcId).length < situationSize by
        rw [length]; decide)
      simp only [describe, if_neg answering, proactiveSituation_eq sound.npc.1 sound.npc.2, Option.bind_eq_bind, Option.bind_some, stored]
    have whole := promptText_length sound.history s.threads.wiring.npcId
      (loadL2 s.memories s.threads.wiring.npcId copied stack.l2Memory stack.kernel) (Threads.proactive s.threads.wiring.npcId)
      0 (by decide)
    rw [if_neg (by decide), memory, length] at whole
    rw [ponder_described clean described, whole]
    split
    · rename_i room
      refine ⟨iff_of_true rfl (by omega), ?_⟩
      rintro _ ⟨⟩
      exact sound.history
    · rename_i full
      exact ⟨iff_of_false Bool.false_ne_true (fun fits => full (by omega)), fun _ absent => nomatch absent⟩

/-- A round that stays inside of its buffers leaves the described history. -/
theorem ponder_history (inside : (ponder s stack copied).isSome) :
    ponder s stack copied = (describe s stack).map fun described => described.2.1 := by
  obtain ⟨history, told⟩ := Option.isSome_iff_exists.mp inside
  obtain ⟨described, found, rest⟩ := Option.bind_eq_some_iff.mp told
  obtain ⟨_, -, same⟩ := Option.bind_eq_some_iff.mp rest
  rw [told, found, ← same]
  rfl

/-- A round whose texts fit records the described history. -/
theorem step_think {random : Bool} (sound : Sound s) (starting : starts s.threads.shared random) (fits : RoundFits s copied) :
    step s (.think random stack copied) = (Threads.think s.threads random).bind fun next =>
      (describe s stack).map fun described => (⟨next.1, described.2.1, s.memories⟩, next.2) := by
  have stores : writes s (.think random stack copied) = (describe s stack).map fun described => described.2.1 :=
    (if_pos starting).trans (ponder_history ((ponder_inside stack copied sound).1.mpr fits))
  simp only [step, stores, threadsStep, storeStep]
  cases Threads.think s.threads random with
  | none => rfl
  | some next =>
      cases describe s stack with
      | none => rfl
      | some described => rfl

theorem readAnswer_clean {response : List Byte} {reply : Threads.Reply} (found : readAnswer response stack = some reply) :
    0 ∉ reply.message := by
  obtain ⟨⟨targetNpc, message, memory⟩, -, shape⟩ := Option.bind_eq_some_iff.mp found
  rw [← Option.some.inj shape]
  exact string_clean message 0 messageSize

/-- The entry for the own utterance stays inside of its buffer when the utterance is short enough. -/
theorem recordReply_inside {h : History} {reply : Threads.Reply} (stack : Stack) (terminated : h.Terminated) (clean : 0 ∉ reply.message) :
    ((recordReply h reply stack).isSome ↔ ReplyFits reply) ∧ ∀ history ∈ recordReply h reply stack, history.Terminated := by
  obtain ⟨-, -, colon, own⟩ := labels_clean
  have shown : (text "我->NPC").length = 8 ∧ (text ":").length = 1 := by decide
  have length : (phraseText "我->NPC" reply.targetNpc ":" reply.message).length =
      (Threads.appendInt reply.targetNpc).length + reply.message.length + 9 := by
    simp only [phraseText, List.length_append, shown]
    omega
  have filled : spokenEntry reply.targetNpc reply.message stack.l3Entry = _ := phrase_eq (by decide) own colon clean _
  by_cases spoken : 0 < reply.targetNpc ∧ reply.message ≠ []
  · by_cases fits : (Threads.appendInt reply.targetNpc).length + reply.message.length ≤ 118
    · rw [if_pos (by rw [length, l3EntrySize]; omega)] at filled
      have entry := phrase_string own colon clean (by decide) filled
      obtain ⟨history, appended, ended, -⟩ :=
        appendToL3_terminated terminated
          (show 0 ∉ phraseText "我->NPC" reply.targetNpc ":" reply.message from phraseText_clean own colon clean)
      have stored : recordReply h reply stack = some history := by
        simp only [recordReply, if_pos spoken, filled, Option.bind_eq_bind, Option.bind_some, entry, appended]
      rw [stored]
      refine ⟨iff_of_true rfl (fun _ _ => fits), ?_⟩
      rintro _ ⟨⟩
      exact ended
    · rw [if_neg (by rw [length, l3EntrySize]; omega)] at filled
      have overrun : recordReply h reply stack = none := by
        simp only [recordReply, if_pos spoken, filled, Option.bind_eq_bind, Option.bind_none]
      rw [overrun]
      exact ⟨iff_of_false Bool.false_ne_true (fun short => fits (short spoken.1 spoken.2)), fun _ absent => nomatch absent⟩
  · have silent : recordReply h reply stack = some h := if_neg spoken
    rw [silent]
    refine ⟨iff_of_true rfl (fun target message => absurd ⟨target, message⟩ spoken), ?_⟩
    rintro _ ⟨⟩
    exact terminated

/-- The stores of an action stay inside of their buffers exactly when its texts are short enough. -/
theorem inside_iff (sound : Sound s) (action : Action) :
    (Inside s action ↔ Fits s action) ∧ ∀ history ∈ writes s action, history.Terminated := by
  have idle : (some s.history).isSome = true ∧ ∀ history ∈ some s.history, history.Terminated := by
    refine ⟨rfl, ?_⟩
    rintro _ ⟨⟩
    exact sound.history
  cases action with
  | perceive result => exact ⟨iff_of_true idle.1 trivial, idle.2⟩
  | think random stack copied =>
      rw [Inside, writes, Fits]
      by_cases started : starts s.threads.shared random
      · rw [if_pos started]
        obtain ⟨inside, terminated⟩ := ponder_inside stack copied sound
        exact ⟨inside.trans ⟨fun fits _ => fits, fun fits => fits started⟩, terminated⟩
      · rw [if_neg started]
        exact ⟨iff_of_true idle.1 (fun start => absurd start started), idle.2⟩
  | decideReply response stack =>
      cases response with
      | none => exact ⟨iff_of_true idle.1 trivial, idle.2⟩
      | some response =>
          rw [Inside, writes, Fits]
          cases found : readAnswer response stack with
          | none => exact ⟨iff_of_true idle.1 (fun _ absent => nomatch absent), idle.2⟩
          | some reply =>
              obtain ⟨inside, terminated⟩ := recordReply_inside stack sound.history (readAnswer_clean found)
              refine ⟨inside.trans ⟨?_, fun short => short reply rfl⟩, terminated⟩
              rintro short _ ⟨⟩
              exact short
  | communicate written => exact ⟨iff_of_true idle.1 trivial, idle.2⟩
  | remember => exact ⟨iff_of_true idle.1 trivial, idle.2⟩
  | save npcId content len => exact ⟨iff_of_true idle.1 trivial, idle.2⟩

end Rounds

section Runs

variable {t next : Threads.State} {s after : State} {trace events : List Threads.Event} {action : Action}

/-- Only the wiring and the inbox decide whether the threads are steady. -/
theorem Steady.congr (steady : Steady t) (wiring : next.wiring = t.wiring) (sender : next.shared.inboxFrom ≤ npcCount)
    (inbox : 0 ∉ next.shared.inbox) : Steady next := by
  refine ⟨?_, ?_, sender, inbox⟩
  · rw [wiring]
    exact steady.npc
  · rw [wiring]
    exact steady.peers

theorem Steady.same (steady : Steady t) (wiring : next.wiring = t.wiring) (sender : next.shared.inboxFrom = t.shared.inboxFrom)
    (inbox : next.shared.inbox = t.shared.inbox) : Steady next := by
  apply steady.congr wiring
  · rw [sender]
    exact steady.sender
  · rw [inbox]
    exact steady.inbox

theorem strCopy_clean (src : List Byte) (maxlen : Nat) : 0 ∉ Threads.strCopy src maxlen := by
  intro listed
  have real := List.mem_takeWhile_imp (List.mem_of_mem_take listed)
  simp at real

/-- A stored message comes from a peer and ends at its first null byte. -/
theorem steady_perceive {result : Option (List Byte)} (steady : Steady t)
    (stepped : Threads.perceive t result = some (next, events)) : Steady next := by
  have moved := Threads.nextPipe_same t
  unfold Threads.perceive at stepped
  split at stepped
  · contradiction
  · split at stepped
    · obtain ⟨rfl, rfl⟩ := Prod.mk.inj (Option.some.inj stepped)
      exact steady.same moved.1 (by rw [moved.2.2]) (by rw [moved.2.2])
    · split at stepped
      · obtain ⟨rfl, rfl⟩ := Prod.mk.inj (Option.some.inj stepped)
        exact steady.same rfl rfl rfl
      · obtain ⟨rfl, rfl⟩ := Prod.mk.inj (Option.some.inj stepped)
        exact steady.same moved.1 (by rw [moved.2.2]) (by rw [moved.2.2])
      · rename_i bytes filled
        split at stepped
        · contradiction
        · obtain ⟨rfl, rfl⟩ := Prod.mk.inj (Option.some.inj stepped)
          obtain ⟨wiring, -, shared⟩ :=
            Threads.nextPipe_same { t with shared := Threads.storeMessage t.shared (Threads.incoming t bytes) }
          apply steady.congr wiring
          · rw [shared, Threads.storeMessage]
            split
            · exact steady.sender
            · exact steady.peers t.fd
          · rw [shared, Threads.storeMessage]
            split
            · exact steady.inbox
            · exact strCopy_clean bytes 256

theorem steady_think {random : Bool} (steady : Steady t) (stepped : Threads.think t random = some (next, events)) :
    Steady next := by
  unfold Threads.think at stepped
  split at stepped
  · contradiction
  · split at stepped
    · obtain ⟨rfl, rfl⟩ := Prod.mk.inj (Option.some.inj stepped)
      exact steady.same rfl rfl rfl
    · obtain ⟨rfl, rfl⟩ := Prod.mk.inj (Option.some.inj stepped)
      exact steady.same rfl rfl rfl

theorem conclude_inbox (shared : Threads.Shared) (reply : Option Threads.Reply) :
    (Threads.conclude shared reply).inbox = shared.inbox := by
  unfold Threads.conclude
  split
  · dsimp only
    split_ifs <;> rfl
  · split_ifs <;> rfl

theorem steady_decideReply {reply : Option Threads.Reply} (steady : Steady t)
    (stepped : Threads.decideReply t reply = some (next, events)) : Steady next := by
  unfold Threads.decideReply at stepped
  split at stepped
  · contradiction
  · obtain ⟨rfl, rfl⟩ := Prod.mk.inj (Option.some.inj stepped)
    refine steady.congr ?_ ?_ ?_
    · rfl
    · exact (show (-1 : Int) ≤ npcCount by decide)
    · dsimp only
      rw [conclude_inbox]
      exact steady.inbox

theorem steady_step (steady : Steady s.threads) (stepped : threadsStep s action = some (next, events)) : Steady next := by
  cases action with
  | perceive result => exact steady_perceive steady stepped
  | think random stack copied => exact steady_think steady stepped
  | decideReply response stack =>
      cases response with
      | none => exact steady_decideReply steady stepped
      | some response =>
          obtain ⟨reply, -, decided⟩ := Option.bind_eq_some_iff.mp stepped
          exact steady_decideReply steady decided
  | communicate written =>
      simp only [threadsStep, Threads.communicate] at stepped
      split at stepped
      · contradiction
      · obtain ⟨rfl, rfl⟩ := Prod.mk.inj (Option.some.inj stepped)
        obtain ⟨-, sender, inbox⟩ := Threads.send_same s.threads.wiring s.threads.shared written
        exact steady.same rfl sender inbox
  | remember =>
      simp only [threadsStep, Threads.remember] at stepped
      split at stepped
      · contradiction
      · split at stepped
        · obtain ⟨rfl, rfl⟩ := Prod.mk.inj (Option.some.inj stepped)
          exact steady.same rfl rfl rfl
        · obtain ⟨rfl, rfl⟩ := Prod.mk.inj (Option.some.inj stepped)
          exact steady.same rfl rfl rfl
  | save npcId content len =>
      obtain ⟨rfl, rfl⟩ := Prod.mk.inj (Option.some.inj stepped)
      exact steady

theorem sysSave_tidy {memories : Memories} (tidy : Tidy memories) (npcId : Int) (content : Option Memory) (len : Int) :
    Tidy (sysNpcMemorySave memories npcId content len).2 := by
  rcases sysSave_eq memories npcId content len with refused | ⟨copied, saved, -⟩
  · rw [refused]
    exact tidy
  · rw [saved]
    exact tidy.save_any npcId (some copied) len

theorem storeStep_tidy (tidy : Tidy s.memories) (action : Action) : Tidy (storeStep s action) := by
  unfold storeStep
  split
  · dsimp only
    split
    · exact sysSave_tidy tidy _ _ _
    · exact tidy
  · exact sysSave_tidy tidy _ _ _
  · exact tidy

/-- Every step with a defined result keeps the history terminated. -/
theorem sound_step (sound : Sound s) (stepped : step s action = some (after, events)) : Sound after := by
  obtain ⟨⟨threads, emitted⟩, thread, rest⟩ := Option.bind_eq_some_iff.mp stepped
  obtain ⟨history, written, shape⟩ := Option.bind_eq_some_iff.mp rest
  obtain ⟨rfl, rfl⟩ := Prod.mk.inj (Option.some.inj shape)
  exact ⟨steady_step sound.toSteady thread, (inside_iff sound action).2 history written, storeStep_tidy sound.memories action⟩

theorem sound_initial (initial : Initial s) : Sound s := by
  obtain ⟨⟨npcId, readFds, writeFds, first, last, threads⟩, history, memories⟩ := initial
  have peer (k : Threads.PipeId) : (Threads.peers npcId).getD k.val 0 ≤ npcCount := by
    interval_cases npcId <;> revert k <;> decide
  have steady : Steady s.threads := by
    rw [threads]
    refine ⟨⟨first, last⟩, fun k => ?_, ?_, List.not_mem_nil⟩
    · exact Int.ofNat_le.mpr (peer k)
    · exact (show (-1 : Int) ≤ npcCount by decide)
  have terminated : s.history.Terminated := by
    rw [history]
    exact ⟨Nat.zero_le _, rfl, List.not_mem_nil⟩
  exact ⟨steady, terminated, (initialised_tidy memories).1⟩

theorem sound_reached (reached : Machine.Reaches step (fun s _ action => Fits s action) Initial s trace) : Sound s := by
  apply reached.invariant (fun s _ => Sound s)
  · exact fun _ => sound_initial
  · intro s trace action after events sound fits stepped
    exact sound_step sound stepped

/-- While the texts of all rounds fit, the history stays terminated, and every action stays inside of its buffers exactly when its
texts fit as well. -/
theorem prompts_inside (reached : Machine.Reaches step (fun s _ action => Fits s action) Initial s trace) :
    s.history.Terminated ∧ ∀ action, Inside s action ↔ Fits s action := by
  have sound := sound_reached reached
  exact ⟨sound.history, fun action => (inside_iff sound action).1⟩

def emptyStack : Stack :=
  ⟨fun _ => 0, fun _ => 0, fun _ => 0, fun _ => 0, fun _ => 0, fun _ => 0, fun _ => 0⟩

/-- The first NPC when its threads begin. -/
def firstNpc : State where
  threads := Threads.firstNpc
  history := ⟨fun _ => 0, 0⟩
  memories := npcMemoryInit fun _ => ⟨0, fun _ => 0, 0⟩

theorem firstNpc_initial : Initial firstNpc := ⟨⟨1, _, _, by decide, by decide, rfl⟩, rfl, ⟨_, rfl⟩⟩

/-- A short message and a short answer go to the history. -/
theorem prompts_inside_run : ∃ s trace, Machine.Reaches step (fun s _ action => Fits s action) Initial s trace ∧
    s.history.l3Len = 20 ∧ s.history.Terminated ∧ ∀ action, Inside s action ↔ Fits s action := by
  obtain ⟨first, trace, reached, test⟩ := Machine.replay_witness step (fun s _ action => Fits s action) Initial
    [.perceive (some (ascii "hi"))] firstNpc firstNpc_initial
    (fun s _ => decide (starts s.threads.shared false ∧ RoundFits s true) &&
      ((Threads.think s.threads false).bind fun next => (describe s emptyStack).map fun described =>
        ((⟨next.1, described.2.1, s.memories⟩ : State), next.2)).any fun second =>
          decide (Fits second.1 (.decideReply (some (ascii "[to npc2]: ok" ++ [0])) emptyStack)) &&
            (step second.1 (.decideReply (some (ascii "[to npc2]: ok" ++ [0])) emptyStack)).any fun last =>
              last.1.history.l3Len = 20) (by decide +kernel)
  simp only [Bool.and_eq_true, decide_eq_true_eq, Option.any_eq_true] at test
  obtain ⟨⟨starting, fits⟩, second, thought, allowed, last, stepped, len⟩ := test
  rw [← step_think (sound_reached reached) starting fits] at thought
  have allows : Fits first (.think false emptyStack true) := fun _ => fits
  have thinks := reached.next allows thought
  have replied := thinks.next allowed stepped
  exact ⟨last.1, _, replied, len, prompts_inside replied⟩

/-- A message that fills the inbox does not fit behind the words of the situation. -/
theorem situation_overrun : ¬∀ s trace, Machine.Reaches step (fun _ _ _ => True) Initial s trace → ∀ action, Inside s action := by
  intro claim
  obtain ⟨s, trace, reached, test⟩ := Machine.replay_witness step (fun _ _ _ => True) Initial
    [.perceive (some (List.replicate 255 97))] firstNpc firstNpc_initial
    (fun s _ => decide ((writes s (.think false emptyStack true)).isNone = true)) (by decide +kernel)
  have overrun := of_decide_eq_true test
  have inside : (writes s (.think false emptyStack true)).isSome = true := claim s trace reached (.think false emptyStack true)
  rw [Option.isNone_iff_eq_none.mp overrun] at inside
  contradiction

end Runs

end BtbuOs.Npc.Prompt
