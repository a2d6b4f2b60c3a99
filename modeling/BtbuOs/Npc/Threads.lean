import BtbuOs.Lib.Bytes
import BtbuOs.Lib.Machine
import Mathlib.Data.List.FinRange
import Mathlib.Tactic.IntervalCases

namespace BtbuOs.Npc.Threads

open Bytes

/-- The macro `NPC_COUNT`. -/
abbrev npcCount : Nat := 3

/-- The pipes to the NPC_COUNT - 1 other NPCs have an index. -/
abbrev PipeId := Fin 2

/-- The encoding of a string literal of the source. -/
def text (literal : String) : List Byte := literal.toUTF8.data.toList.map UInt8.toBitVec

/-- `str_copy` into a buffer of `maxlen` bytes, without the end of the string. -/
def strCopy (src : List Byte) (maxlen : Nat) : List Byte := (src.takeWhile (· ≠ 0)).take (maxlen - 1)

/-- The text that `append_int` adds; a negative number adds none. -/
def appendInt (n : Int) : List Byte := if n < 0 then [] else (Nat.toDigits 10 n.toNat).map fun c => BitVec.ofNat 8 c.toNat

/-- The pipes of an NPC and the NPCs at their other ends. -/
structure Wiring where
  npcId : Nat
  readFds : PipeId → Int
  writeFds : PipeId → Int
  readFromNpc : PipeId → Int
  writeToNpc : PipeId → Int

/-- The fields of `struct npc_shared` that the threads write, but for the history `l3_history`, which only the prompt uses. -/
structure Shared where
  inbox : List Byte
  inboxLen : Nat
  inboxFrom : Int
  outbox : List Byte
  outboxLen : Nat
  outboxTo : Int
  hasNewMsg : Bool
  hasPendingSend : Bool
  msgSent : Nat
  msgRecv : Nat
  thinkCount : Nat
  aiCallCount : Nat
  pendingMemory : List Byte
  pendingMemoryLen : Nat
  hasPendingMemory : Bool

/-- What a round of thinking gives to the AI. -/
structure Round where
  replyTo : Int
  situation : List Byte
  deriving DecidableEq

/-- A message that was read from the pipe of its sender. -/
structure Message where
  sender : Int
  bytes : List Byte
  deriving DecidableEq

/-- What `parse_ai_response` finds in a response. -/
structure Reply where
  targetNpc : Int
  message : List Byte
  memory : List Byte

/-- The threads of an NPC while `running` is set: their rounds, the pipe that perception reads next, and the round whose AI
call is under way. -/
structure State where
  wiring : Wiring
  shared : Shared
  perceptionLoop : Nat
  fd : PipeId
  thinkingLoop : Nat
  round : Option Round
  communicationLoop : Nat
  memoryLoop : Nat

inductive Event where
  | read (message : Message)
  | presented (round : Round)
  deriving DecidableEq

/-- A thread ends when its count of rounds is above this. -/
def lastLoop : Nat := 100

/-- Perception goes on to the next pipe, or to its next round. -/
def nextPipe (s : State) : State :=
  if next : s.fd.val + 1 < 2 then { s with fd := ⟨s.fd.val + 1, next⟩ }
  else { s with fd := 0, perceptionLoop := s.perceptionLoop + 1 }

/-- The message that is read from the next pipe. -/
def incoming (s : State) (bytes : List Byte) : Message := ⟨s.wiring.readFromNpc s.fd, bytes⟩

/-- The critical section of `perception_thread`. -/
def storeMessage (shared : Shared) (message : Message) : Shared :=
  if shared.hasNewMsg then shared
  else { shared with
    inbox := strCopy message.bytes 256, inboxLen := message.bytes.length, inboxFrom := message.sender
    hasNewMsg := true, msgRecv := shared.msgRecv + 1 }

/-- One pipe of `perception_thread`; the result of `read` is `none` for an error. -/
def perceive (s : State) (result : Option (List Byte)) : Option (State × List Event) :=
  if lastLoop < s.perceptionLoop then none
  else if s.wiring.readFds s.fd < 0 then some (nextPipe s, [])
  else
    match result with
    | none => some ({ s with fd := 0, perceptionLoop := s.perceptionLoop + 1 }, [])
    | some [] => some (nextPipe s, [])
    | some bytes =>
        if 255 < bytes.length then none
        else some (nextPipe { s with shared := storeMessage s.shared (incoming s bytes) }, [.read (incoming s bytes)])

/-- The situation of a message, without the bound of its buffer. -/
def situationOf (sender : Int) (inbox : List Byte) : List Byte :=
  text "NPC" ++ appendInt sender ++ text "对你说: " ++ inbox

/-- The other NPCs in the order of the arguments of `main`. -/
def peers (npcId : Nat) : List Nat := (List.range' 1 npcCount).filter (· ≠ npcId)

/-- The situation without a message names the other NPCs. -/
def proactive (npcId : Nat) : List Byte :=
  text "你想主动找人聊天。可选目标: " ++
    List.intercalate (text ",") ((peers npcId).map fun j : Nat => text "NPC" ++ appendInt j)

/-- What the first critical section of `thinking_thread` presents. -/
def present (s : State) : Round :=
  if s.shared.hasNewMsg ∧ 0 < s.shared.inboxFrom then
    ⟨s.shared.inboxFrom, situationOf s.shared.inboxFrom s.shared.inbox⟩
  else ⟨0, proactive s.wiring.npcId⟩

/-- The first critical section of `thinking_thread`; `random` is the draw for a round without a message. -/
def think (s : State) (random : Bool) : Option (State × List Event) :=
  if lastLoop < s.thinkingLoop ∨ s.round.isSome then none
  else if (s.shared.hasNewMsg || random) && !s.shared.hasPendingSend then
    some ({ s with shared := { s.shared with thinkCount := s.shared.thinkCount + 1 }, round := some (present s) },
      [.presented (present s)])
  else some ({ s with thinkingLoop := s.thinkingLoop + 1 }, [])

/-- What `thinking_thread` does with the result of the AI call, which is `none` when the call fails. -/
def conclude (shared : Shared) : Option Reply → Shared
  | some reply =>
      let shared := { shared with aiCallCount := shared.aiCallCount + 1 }
      if reply.targetNpc ≠ 0 then
        let shared := { shared with outboxTo := reply.targetNpc }
        let shared :=
          if 0 < reply.targetNpc ∧ reply.message ≠ [] then
            { shared with
              outbox := strCopy reply.message 256, outboxLen := (strCopy reply.message 256).length, hasPendingSend := true }
          else shared
        if reply.memory ≠ [] then
          { shared with
            pendingMemory := strCopy reply.memory 256, pendingMemoryLen := reply.memory.length, hasPendingMemory := true }
        else shared
      else shared
  | none =>
      if shared.hasNewMsg ∧ 0 < shared.inboxFrom then
        { shared with
          outboxTo := shared.inboxFrom, outbox := text "收到!", outboxLen := (text "收到!").length, hasPendingSend := true }
      else shared

/-- The second critical section of `thinking_thread`. -/
def decideReply (s : State) (reply : Option Reply) : Option (State × List Event) :=
  if s.round.isNone then none
  else some ({ s with
    shared := { conclude s.shared reply with hasNewMsg := false, inboxFrom := -1 }
    round := none, thinkingLoop := s.thinkingLoop + 1 }, [])

/-- The function `find_write_fd_idx`. -/
def findWriteFdIdx (w : Wiring) (targetNpc : Int) : Option (PipeId) :=
  (List.finRange 2).find? fun i => w.writeToNpc i = targetNpc

/-- The critical section of `communication_thread`; `written` is the result of `write`. -/
def send (w : Wiring) (shared : Shared) (written : Int) : Shared :=
  if shared.hasPendingSend ∧ 0 < shared.outboxTo then
    let sent := (findWriteFdIdx w shared.outboxTo).any fun i => 0 ≤ w.writeFds i
    { shared with
      msgSent := if sent ∧ 0 < written then shared.msgSent + 1 else shared.msgSent
      hasPendingSend := false, outboxTo := -1, outboxLen := 0 }
  else if shared.hasPendingSend ∧ shared.outboxTo < 0 then { shared with hasPendingSend := false }
  else shared

def communicate (s : State) (written : Int) : Option (State × List Event) :=
  if lastLoop < s.communicationLoop then none
  else some ({ s with shared := send s.wiring s.shared written, communicationLoop := s.communicationLoop + 1 }, [])

/-- The critical section of `memory_thread`. -/
def remember (s : State) : Option (State × List Event) :=
  if lastLoop < s.memoryLoop then none
  else if s.shared.hasPendingMemory ∧ 0 < s.shared.pendingMemoryLen then
    some ({ s with
      shared := { s.shared with hasPendingMemory := false, pendingMemoryLen := 0 }, memoryLoop := s.memoryLoop + 1 }, [])
  else some ({ s with memoryLoop := s.memoryLoop + 1 }, [])

inductive Action where
  | perceive (result : Option (List Byte))
  | think (random : Bool)
  | decideReply (reply : Option Reply)
  | communicate (written : Int)
  | remember

def step (s : State) : Action → Option (State × List Event)
  | .perceive result => perceive s result
  | .think random => think s random
  | .decideReply reply => decideReply s reply
  | .communicate written => communicate s written
  | .remember => remember s

/-- The state before the threads run. -/
def start (npcId : Nat) (readFds writeFds : PipeId → Int) : State where
  wiring := {
    npcId, readFds, writeFds
    readFromNpc := fun k => ((peers npcId).getD k.val 0 : Nat)
    writeToNpc := fun k => ((peers npcId).getD k.val 0 : Nat) }
  shared := {
    inbox := [], inboxLen := 0, inboxFrom := -1, outbox := [], outboxLen := 0, outboxTo := -1
    hasNewMsg := false, hasPendingSend := false, msgSent := 0, msgRecv := 0, thinkCount := 0, aiCallCount := 0
    pendingMemory := [], pendingMemoryLen := 0, hasPendingMemory := false }
  perceptionLoop := 0
  fd := 0
  thinkingLoop := 0
  round := none
  communicationLoop := 0
  memoryLoop := 0

def Initial (s : State) : Prop := ∃ npcId readFds writeFds, 1 ≤ npcId ∧ npcId ≤ npcCount ∧ s = start npcId readFds writeFds

/-- The messages that perception has read. -/
def reads (trace : List Event) : List Message :=
  trace.filterMap fun event => match event with
    | .read message => some message
    | .presented _ => none

/-- The rounds that answer a message. -/
def answers (trace : List Event) : List Round :=
  trace.filterMap fun event => match event with
    | .read _ => none
    | .presented round => if 0 < round.replyTo then some round else none

/-- The round that presents the message; its text ends at the first zero. -/
def Message.round (m : Message) : Round := ⟨m.sender, situationOf m.sender (strCopy m.bytes 256)⟩

/-- Each message that was read has been presented to exactly one round, or is in the inbox. -/
def Accounted (s : State) (trace : List Event) : Prop :=
  ∃ past waiting, reads trace = past ++ waiting ∧ answers trace = past.map Message.round ∧ waiting.length ≤ 1 ∧
    ∀ m ∈ waiting, s.shared.hasNewMsg = true ∧ s.shared.inboxFrom = m.sender ∧ s.shared.inbox = strCopy m.bytes 256

/-- A message is read only while the inbox is free and no AI call is under way. -/
def Free (s : State) (_ : List Event) : Action → Prop
  | .perceive (some (_ :: _)) => s.wiring.readFds s.fd < 0 ∨ (s.shared.hasNewMsg = false ∧ s.round = none)
  | _ => True

instance (s : State) (trace : List Event) : (action : Action) → Decidable (Free s trace action)
  | .perceive (some (_ :: _)) => inferInstanceAs (Decidable (_ ∨ _))
  | .perceive none | .perceive (some []) | .think _ | .decideReply _ | .communicate _ | .remember =>
      inferInstanceAs (Decidable True)

/-- The messages that were read and not presented. -/
def Waiting (s : State) : List Message → Prop
  | [] => s.round = none → s.shared.hasNewMsg = false
  | [m] => s.round = none ∧ 0 < m.sender ∧
      s.shared.hasNewMsg = true ∧ s.shared.inboxFrom = m.sender ∧ s.shared.inbox = strCopy m.bytes 256
  | _ => False

/-- The pipes come from other NPCs, and the messages before those that wait were presented. -/
structure Kept (s : State) (trace : List Event) : Prop where
  peers : ∀ k, 0 < s.wiring.readFromNpc k
  told : ∃ past waiting, reads trace = past ++ waiting ∧ answers trace = past.map Message.round ∧ Waiting s waiting

variable {s after : State} {trace events : List Event}

theorem reads_append (trace events : List Event) : reads (trace ++ events) = reads trace ++ reads events :=
  List.filterMap_append

theorem answers_append (trace events : List Event) : answers (trace ++ events) = answers trace ++ answers events :=
  List.filterMap_append

/-- Only the inbox and the round decide which messages wait. -/
theorem Waiting.congr {waiting : List Message} (waits : Waiting s waiting) (round : after.round = s.round)
    (hasNewMsg : after.shared.hasNewMsg = s.shared.hasNewMsg) (inboxFrom : after.shared.inboxFrom = s.shared.inboxFrom)
    (inbox : after.shared.inbox = s.shared.inbox) : Waiting after waiting := by
  match waiting with
  | [] => simpa [Waiting, round, hasNewMsg] using waits
  | [m] => simpa [Waiting, round, hasNewMsg, inboxFrom, inbox] using waits
  | _ :: _ :: _ => exact waits

/-- A step without events that leaves the inbox and the round alone. -/
theorem Kept.silent (kept : Kept s trace) (wiring : after.wiring = s.wiring) (round : after.round = s.round)
    (hasNewMsg : after.shared.hasNewMsg = s.shared.hasNewMsg) (inboxFrom : after.shared.inboxFrom = s.shared.inboxFrom)
    (inbox : after.shared.inbox = s.shared.inbox) : Kept after (trace ++ []) := by
  obtain ⟨past, waiting, read, answered, waits⟩ := kept.told
  constructor
  · intro k
    rw [wiring]
    exact kept.peers k
  · rw [List.append_nil]
    exact ⟨past, waiting, read, answered, waits.congr round hasNewMsg inboxFrom inbox⟩

theorem nextPipe_same (s : State) :
    (nextPipe s).wiring = s.wiring ∧ (nextPipe s).round = s.round ∧ (nextPipe s).shared = s.shared := by
  unfold nextPipe
  split <;> exact ⟨rfl, rfl, rfl⟩

theorem reads_read (trace : List Event) (m : Message) : reads (trace ++ [.read m]) = reads trace ++ [m] :=
  reads_append trace [.read m]

theorem answers_read (trace : List Event) (m : Message) : answers (trace ++ [.read m]) = answers trace :=
  (answers_append trace [.read m]).trans (List.append_nil _)

theorem reads_presented (trace : List Event) (r : Round) : reads (trace ++ [.presented r]) = reads trace :=
  (reads_append trace [.presented r]).trans (List.append_nil _)

theorem answers_presented (trace : List Event) (r : Round) :
    answers (trace ++ [.presented r]) = if 0 < r.replyTo then answers trace ++ [r] else answers trace := by
  rw [answers_append]
  split
  · rename_i reply
    simp [answers, reply]
  · rename_i proactive
    simp [answers, proactive]

/-- A message that comes while the inbox is free waits there. -/
theorem kept_perceive {result : Option (List Byte)} (kept : Kept s trace) (free : Free s trace (.perceive result))
    (stepped : perceive s result = some (after, events)) : Kept after (trace ++ events) := by
  have same := nextPipe_same s
  unfold perceive at stepped
  split at stepped
  · contradiction
  · split at stepped
    · obtain ⟨rfl, rfl⟩ := Prod.mk.inj (Option.some.inj stepped)
      exact kept.silent same.1 same.2.1 (by rw [same.2.2]) (by rw [same.2.2]) (by rw [same.2.2])
    · rename_i opened
      split at stepped
      · obtain ⟨rfl, rfl⟩ := Prod.mk.inj (Option.some.inj stepped)
        exact kept.silent rfl rfl rfl rfl rfl
      · obtain ⟨rfl, rfl⟩ := Prod.mk.inj (Option.some.inj stepped)
        exact kept.silent same.1 same.2.1 (by rw [same.2.2]) (by rw [same.2.2]) (by rw [same.2.2])
      · rename_i bytes filled
        split at stepped
        · contradiction
        · obtain ⟨rfl, rfl⟩ := Prod.mk.inj (Option.some.inj stepped)
          obtain ⟨empty, idle⟩ : s.shared.hasNewMsg = false ∧ s.round = none := by
            cases bytes with
            | nil => exact absurd rfl filled
            | cons first rest => exact free.resolve_left opened
          obtain ⟨past, waiting, read, answered, waits⟩ := kept.told
          have none_waits : waiting = [] := by
            match waiting with
            | [] => rfl
            | [m] => exact absurd waits.2.2.1 (by simp [empty])
            | _ :: _ :: _ => exact waits.elim
          obtain ⟨wiring, round, shared⟩ :=
            nextPipe_same { s with shared := storeMessage s.shared (incoming s bytes) }
          have stored : Waiting { s with shared := storeMessage s.shared (incoming s bytes) } [incoming s bytes] := by
            simp [Waiting, storeMessage, empty, idle, incoming, kept.peers]
          constructor
          · intro k
            rw [wiring]
            exact kept.peers k
          · refine ⟨past, [incoming s bytes], ?_, ?_, ?_⟩
            · rw [reads_read, read, none_waits, List.append_nil]
            · rw [answers_read, answered]
            · exact stored.congr round (by rw [shared]) (by rw [shared]) (by rw [shared])

/-- A round presents the message that waits. -/
theorem kept_think {random : Bool} (kept : Kept s trace) (stepped : think s random = some (after, events)) :
    Kept after (trace ++ events) := by
  unfold think at stepped
  split at stepped
  · contradiction
  · rename_i ready
    have idle : s.round = none := by
      simp only [not_or, Option.not_isSome_iff_eq_none] at ready
      exact ready.2
    split at stepped
    · obtain ⟨rfl, rfl⟩ := Prod.mk.inj (Option.some.inj stepped)
      obtain ⟨past, waiting, read, answered, waits⟩ := kept.told
      refine ⟨kept.peers, ?_⟩
      match waiting with
      | [] =>
          have empty := waits idle
          refine ⟨past, [], ?_, ?_, fun busy => nomatch busy⟩
          · rw [reads_presented, read]
          · rw [answers_presented, answered]
            simp [present, empty]
      | [m] =>
          obtain ⟨-, sender, full, source, inbox⟩ := waits
          have shown : present s = m.round := by simp [present, Message.round, full, source, inbox, sender]
          refine ⟨past ++ [m], [], ?_, ?_, fun busy => nomatch busy⟩
          · rw [reads_presented, read, List.append_nil]
          · rw [answers_presented, answered, shown, if_pos (show 0 < m.round.replyTo from sender), List.map_append]
            rfl
      | _ :: _ :: _ => exact waits.elim
    · obtain ⟨rfl, rfl⟩ := Prod.mk.inj (Option.some.inj stepped)
      exact kept.silent rfl rfl rfl rfl rfl

/-- The end of a round clears an inbox whose message was presented. -/
theorem kept_decideReply {reply : Option Reply} (kept : Kept s trace)
    (stepped : decideReply s reply = some (after, events)) : Kept after (trace ++ events) := by
  unfold decideReply at stepped
  split at stepped
  · contradiction
  · rename_i busy
    obtain ⟨rfl, rfl⟩ := Prod.mk.inj (Option.some.inj stepped)
    obtain ⟨past, waiting, read, answered, waits⟩ := kept.told
    refine ⟨kept.peers, ?_⟩
    rw [List.append_nil]
    match waiting with
    | [] => exact ⟨past, [], read, answered, fun _ => rfl⟩
    | [m] =>
        rw [waits.1] at busy
        exact absurd rfl busy
    | _ :: _ :: _ => exact waits.elim

theorem send_same (w : Wiring) (shared : Shared) (written : Int) :
    (send w shared written).hasNewMsg = shared.hasNewMsg ∧ (send w shared written).inboxFrom = shared.inboxFrom ∧
      (send w shared written).inbox = shared.inbox := by
  unfold send
  split
  · exact ⟨rfl, rfl, rfl⟩
  · split <;> exact ⟨rfl, rfl, rfl⟩

theorem step_kept {action : Action} (kept : Kept s trace) (free : Free s trace action)
    (stepped : step s action = some (after, events)) : Kept after (trace ++ events) := by
  cases action with
  | perceive result => exact kept_perceive kept free stepped
  | think random => exact kept_think kept stepped
  | decideReply reply => exact kept_decideReply kept stepped
  | communicate written =>
      simp only [step, communicate] at stepped
      split at stepped
      · contradiction
      · obtain ⟨rfl, rfl⟩ := Prod.mk.inj (Option.some.inj stepped)
        obtain ⟨hasNewMsg, inboxFrom, inbox⟩ := send_same s.wiring s.shared written
        exact kept.silent rfl rfl hasNewMsg inboxFrom inbox
  | remember =>
      simp only [step, remember] at stepped
      split at stepped
      · contradiction
      · split at stepped
        · obtain ⟨rfl, rfl⟩ := Prod.mk.inj (Option.some.inj stepped)
          exact kept.silent rfl rfl rfl rfl rfl
        · obtain ⟨rfl, rfl⟩ := Prod.mk.inj (Option.some.inj stepped)
          exact kept.silent rfl rfl rfl rfl rfl

theorem peers_pos {npcId : Nat} (first : 1 ≤ npcId) (last : npcId ≤ npcCount) (k : PipeId) : 0 < (peers npcId).getD k.val 0 := by
  interval_cases npcId
  · decide +revert
  · decide +revert
  · decide +revert

theorem kept_initial (initial : Initial s) : Kept s [] := by
  obtain ⟨npcId, readFds, writeFds, first, last, rfl⟩ := initial
  constructor
  · intro k
    have pos := peers_pos first last k
    simp only [start]
    omega
  · exact ⟨[], [], rfl, rfl, fun _ => rfl⟩

/-- The wiring of the first NPC. -/
def firstNpc : State := start 1 (fun _ => 3) (fun _ => 5)

end BtbuOs.Npc.Threads
