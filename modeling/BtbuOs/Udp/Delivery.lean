import BtbuOs.Udp.Table

namespace BtbuOs.Udp

open Machine
open Bytes (Byte)
open Net (IpAddr UdpPcbState udpPcbSize)
open Tcp (Endpoint)

/-- The datagrams that have been queued for a socket since it was opened. -/
def queuedSince (i : PcbId) (trace : List Event) : List QueueEntry :=
  trace.foldl (fun entries event =>
    match event with
    | .opened j => if j = i then [] else entries
    | .queued j entry => if j = i then entries ++ [entry] else entries
    | _ => entries) []

/-- The datagrams that calls have received from a socket since it was opened. -/
def receivedSince (i : PcbId) (trace : List Event) : List QueueEntry :=
  trace.foldl (fun entries event =>
    match event with
    | .opened j => if j = i then [] else entries
    | .received _ j entry _ => if j = i then entries ++ [entry] else entries
    | _ => entries) []

def Event.leaks : Event → Bool
  | .leaked _ => true
  | _ => false

/-- The event is none of a queue or a page. -/
def Event.silent : Event → Bool
  | .opened _ | .queued _ _ | .leaked _ | .received _ _ _ _ => false
  | _ => true

/-- The datagrams in the queues. -/
def held (s : State) : Nat := ∑ i, (s.pcbs i).queue.length

/-- What a call has received of each datagram is its beginning, in each queue are the datagrams that no call has received, in their order, and
the pages of the layer are two for each of them and those that have been lost. -/
structure Delivered (s : State) (trace : List Event) : Prop where
  bytes : ∀ thread i entry bytes, .received thread i entry bytes ∈ trace → bytes <+: entry.data
  fifo : ∀ i, (s.pcbs i).state ≠ .free → queuedSince i trace = receivedSince i trace ++ (s.pcbs i).queue
  pages : s.pages = 2 * held s + trace.countP Event.leaks

variable {s after : State} {i j : PcbId} {call : Call} {trace events : List Event}

/-- What a step does to the queues and the pages. -/
inductive Effect (s after : State) : List Event → Prop where
  | quiet {events : List Event} (silent : ∀ event ∈ events, event.silent = true) (queues : ∀ j, (after.pcbs j).queue = (s.pcbs j).queue)
      (used : ∀ j, (after.pcbs j).state ≠ .free → (s.pcbs j).state ≠ .free) (pages : after.pages = s.pages) : Effect s after events
  | opened (i : PcbId) (empty : (s.pcbs i).queue = []) (queues : ∀ j, (after.pcbs j).queue = (s.pcbs j).queue)
      (used : ∀ j, j ≠ i → (after.pcbs j).state ≠ .free → (s.pcbs j).state ≠ .free) (pages : after.pages = s.pages) : Effect s after [.opened i]
  | queued (i : PcbId) (entry : QueueEntry) (queue : (after.pcbs i).queue = (s.pcbs i).queue ++ [entry])
      (queues : ∀ j, j ≠ i → (after.pcbs j).queue = (s.pcbs j).queue)
      (used : ∀ j, (after.pcbs j).state ≠ .free → (s.pcbs j).state ≠ .free) (pages : after.pages = s.pages + 2) : Effect s after [.queued i entry]
  | leaked (i : PcbId) (queues : ∀ j, (after.pcbs j).queue = (s.pcbs j).queue)
      (used : ∀ j, (after.pcbs j).state ≠ .free → (s.pcbs j).state ≠ .free) (pages : after.pages = s.pages + 1) : Effect s after [.leaked i]
  | received (thread : Nat) (i : PcbId) (entry : QueueEntry) (size : Nat) (queue : (s.pcbs i).queue = entry :: (after.pcbs i).queue)
      (queues : ∀ j, j ≠ i → (after.pcbs j).queue = (s.pcbs j).queue)
      (used : ∀ j, (after.pcbs j).state ≠ .free → (s.pcbs j).state ≠ .free) (pages : after.pages = s.pages - 2) :
      Effect s after [.received thread i entry (entry.data.take size)]
  | discarded {events : List Event} (silent : ∀ event ∈ events, event.silent = true) (i : PcbId) (free : (after.pcbs i).state = .free)
      (queue : (after.pcbs i).queue = []) (queues : ∀ j, j ≠ i → (after.pcbs j).queue = (s.pcbs j).queue)
      (used : ∀ j, (after.pcbs j).state ≠ .free → (s.pcbs j).state ≠ .free)
      (pages : after.pages = s.pages - 2 * (s.pcbs i).queue.length) : Effect s after events

/-- A change of one control block that keeps its queue is quiet. -/
theorem quiet_set {pcb : UdpPcb} {calls : List Call} (silent : ∀ event ∈ events, event.silent = true) (queue : pcb.queue = (s.pcbs i).queue)
    (used : pcb.state ≠ .free → (s.pcbs i).state ≠ .free) : Effect s { s.setPcb i pcb with calls := calls } events := by
  have other (j : PcbId) (away : j ≠ i) : ({ s.setPcb i pcb with calls := calls } : State).pcbs j = s.pcbs j := setPcb_other s pcb away
  have same : ({ s.setPcb i pcb with calls := calls } : State).pcbs i = pcb := setPcb_self s i pcb
  refine .quiet silent (fun j => ?_) (fun j => ?_) rfl
  · by_cases here : j = i
    · rw [here, same, queue]
    · rw [other j here]
  · by_cases here : j = i
    · rw [here, same]
      exact used
    · rw [other j here]
      exact id

theorem quiet_refl (silent : ∀ event ∈ events, event.silent = true) : Effect s s events :=
  .quiet silent (fun _ => rfl) (fun _ => id) rfl

/-- A release keeps the queue while a call sleeps, and discards it otherwise. -/
theorem release_effect (silent : ∀ event ∈ events, event.silent = true) (used : (s.pcbs i).state ≠ .free) : Effect s (udpPcbRelease s i) events := by
  unfold udpPcbRelease
  dsimp only
  split_ifs with waits
  · exact quiet_set silent rfl fun _ => used
  · have same := setPcb_self s i { s.pcbs i with state := .free, localEnd := anyEnd, queue := [] }
    have other (j : PcbId) (away : j ≠ i) := setPcb_other s { s.pcbs i with state := .free, localEnd := anyEnd, queue := [] } away
    refine .discarded silent i (congrArg UdpPcb.state same) (congrArg UdpPcb.queue same) (fun j away => congrArg UdpPcb.queue (other j away))
      (fun j => ?_) rfl
    by_cases here : j = i
    · exact fun still => absurd (here ▸ congrArg UdpPcb.state same) still
    · exact (congrArg UdpPcb.state (other j here) ▸ id)

/-- A round of the loop in `udp_recvfrom` takes the first datagram or is quiet. -/
theorem receive_effect (used : (s.pcbs call.pcb).state ≠ .free) : Effect s (receive s call).1 (receive s call).2 := by
  unfold receive
  dsimp only
  cases queue : (s.pcbs call.pcb).queue with
  | nil =>
      dsimp only
      split_ifs
      · exact quiet_refl fun event member => by rw [List.mem_singleton.mp member]; rfl
      · exact quiet_set (fun event member => absurd member List.not_mem_nil) queue.symm fun _ => used
  | cons entry rest =>
      have same := setPcb_self s call.pcb { s.pcbs call.pcb with queue := rest }
      have other (j : PcbId) (away : j ≠ call.pcb) := setPcb_other s { s.pcbs call.pcb with queue := rest } away
      refine .received call.thread call.pcb entry call.size.toNat (queue.trans (congrArg (entry :: ·) (congrArg UdpPcb.queue same).symm))
        (fun j away => congrArg UdpPcb.queue (other j away)) (fun j => ?_) rfl
      by_cases here : j = call.pcb
      · exact fun _ => here ▸ used
      · exact (congrArg UdpPcb.state (other j here) ▸ id)

/-- A quiet change before a step does not matter. -/
theorem Effect.after_quiet {mid : State} (queues : ∀ j, (mid.pcbs j).queue = (s.pcbs j).queue)
    (used : ∀ j, (mid.pcbs j).state = (s.pcbs j).state) (pages : mid.pages = s.pages) (effect : Effect mid after events) : Effect s after events := by
  cases effect with
  | quiet silent same still kept => exact .quiet silent (fun j => (same j).trans (queues j)) (fun j => used j ▸ still j) (kept.trans pages)
  | opened i empty same still kept =>
      exact .opened i ((queues i).symm.trans empty) (fun j => (same j).trans (queues j)) (fun j away => used j ▸ still j away) (kept.trans pages)
  | queued i entry queue same still kept =>
      exact .queued i entry (queues i ▸ queue) (fun j away => (same j away).trans (queues j)) (fun j => used j ▸ still j) (pages ▸ kept)
  | leaked i same still kept => exact .leaked i (fun j => (same j).trans (queues j)) (fun j => used j ▸ still j) (pages ▸ kept)
  | received thread i entry size queue same still kept =>
      exact .received thread i entry size ((queues i).symm.trans queue) (fun j away => (same j away).trans (queues j)) (fun j => used j ▸ still j)
        (pages ▸ kept)
  | discarded silent i free queue same still kept =>
      exact .discarded silent i free queue (fun j away => (same j away).trans (queues j)) (fun j => used j ▸ still j) (pages ▸ queues i ▸ kept)

theorem wake_effect (tidy : Tidy s) (listed : call ∈ s.calls) : Effect s (wake s call).1 (wake s call).2 := by
  have used := (tidy.sleeping listed).2
  unfold wake
  dsimp only
  have kept (ctx : SchedCtx) (j : PcbId) :
      (({ s with calls := s.calls.erase call } : State).setPcb call.pcb { s.pcbs call.pcb with ctx }).pcbs j =
        if j = call.pcb then { s.pcbs call.pcb with ctx } else s.pcbs j := by
    by_cases here : j = call.pcb
    · rw [here, setPcb_self, if_pos rfl]
    · rw [setPcb_other _ _ here, if_neg here]
  have queues (ctx : SchedCtx) (j : PcbId) :
      ((({ s with calls := s.calls.erase call } : State).setPcb call.pcb { s.pcbs call.pcb with ctx }).pcbs j).queue = (s.pcbs j).queue := by
    rw [kept]
    split_ifs with here
    · rw [here]
    · rfl
  have states (ctx : SchedCtx) (j : PcbId) :
      ((({ s with calls := s.calls.erase call } : State).setPcb call.pcb { s.pcbs call.pcb with ctx }).pcbs j).state = (s.pcbs j).state := by
    rw [kept]
    split_ifs with here
    · rw [here]
    · rfl
  split_ifs
  · exact (quiet_refl fun event member => by rw [List.mem_singleton.mp member]; rfl).after_quiet (queues _) (states _) rfl
  · exact (release_effect (fun event member => by rw [List.mem_singleton.mp member]; rfl) (by rw [states]; exact used)).after_quiet
      (queues _) (states _) rfl
  · exact (receive_effect (by rw [states]; exact used)).after_quiet (queues _) (states _) rfl

theorem step_effect (tidy : Tidy s) {action : Action} (stepped : step s action = some (after, events)) : Effect s after events := by
  have result {r : State × List Event} (same : r = (after, events)) (effect : Effect s r.1 r.2) : Effect s after events := by
    rwa [same] at effect
  have refused : ∀ event ∈ [Event.refused], event.silent = true := by decide
  cases action with
  | opens =>
      refine result (Option.some.inj stepped) ?_
      unfold udpOpen udpPcbAlloc
      cases found : (List.finRange udpPcbSize).find? fun i => (s.pcbs i).state = .free with
      | none => exact quiet_refl refused
      | some i =>
          have free : (s.pcbs i).state = .free := by simpa using List.find?_some found
          have same := setPcb_self s i { s.pcbs i with state := .opened, ctx := schedCtxInit }
          have other (j : PcbId) (away : j ≠ i) := setPcb_other s { s.pcbs i with state := .opened, ctx := schedCtxInit } away
          change Effect s (s.setPcb i { s.pcbs i with state := .opened, ctx := schedCtxInit }) [.opened i]
          refine .opened i ((tidy.sane i).free free).1 (fun j => ?_) (fun j away => congrArg UdpPcb.state (other j away) ▸ fun still => still) rfl
          by_cases here : j = i
          · rw [here, same]
          · rw [other j here]
  | close id =>
      refine result (Option.some.inj stepped) ?_
      unfold udpClose
      cases found : udpPcbGet s id with
      | none => exact quiet_refl refused
      | some i =>
          refine release_effect (fun event member => by rw [List.mem_singleton.mp member]; rfl) ?_
          rw [(udpPcbGet_some.mp found).2]
          decide
  | bind id localEnd =>
      refine result (Option.some.inj stepped) ?_
      unfold udpBind
      cases found : udpPcbGet s id with
      | none => exact quiet_refl refused
      | some i =>
          dsimp only
          split
          · exact quiet_refl refused
          · exact quiet_set (fun event member => by rw [List.mem_singleton.mp member]; rfl) rfl fun used => used
  | sendto id data foreignEnd iface =>
      refine result (Option.some.inj stepped) ?_
      unfold udpSendto
      cases found : udpPcbGet s id with
      | none => exact quiet_refl refused
      | some i =>
          have silent (localEnd : Endpoint) : ∀ event ∈ [Event.output i localEnd foreignEnd data], event.silent = true := fun event member => by
            rw [List.mem_singleton.mp member]
            rfl
          dsimp only
          split
          · exact quiet_refl refused
          · split_ifs
            · split
              · exact quiet_refl refused
              · exact quiet_set (silent _) rfl fun used => used
            · exact quiet_refl (silent _)
  | recvfrom thread id size =>
      simp only [Udp.step] at stepped
      split_ifs at stepped
      refine result (Option.some.inj stepped) ?_
      unfold udpRecvfrom
      cases found : udpPcbGet s id with
      | none => exact quiet_refl refused
      | some i =>
          refine receive_effect ?_
          rw [(udpPcbGet_some.mp found).2]
          decide
  | wake thread timeout =>
      simp only [Udp.step] at stepped
      split at stepped
      · cases stepped
      · rename_i call found
        split_ifs at stepped
        exact result (Option.some.inj stepped) (wake_effect tidy (List.mem_of_find?_eq_some found))
  | input src dst data entryMemory queueMemory =>
      refine result (Option.some.inj stepped) ?_
      unfold udpInput
      cases found : udpPcbSelect s dst.addr dst.port with
      | none => exact quiet_refl fun event member => absurd member List.not_mem_nil
      | some i =>
          dsimp only
          split_ifs
          · exact quiet_refl fun event member => absurd member List.not_mem_nil
          · exact .leaked i (fun _ => rfl) (fun _ => id) rfl
          · refine .queued i _ (congrArg UdpPcb.queue (setPcb_self s i _)) (fun j away => congrArg UdpPcb.queue (setPcb_other s _ away)) (fun j => ?_) rfl
            by_cases here : j = i
            · rw [here, (udpPcbSelect_some found).1]
              exact fun _ => by decide
            · exact (congrArg UdpPcb.state (setPcb_other s _ here) ▸ id)
  | event =>
      refine result (Option.some.inj stepped) (.quiet (fun event member => absurd member List.not_mem_nil) (fun j => ?_) (fun j => ?_) rfl)
      · simp only [eventHandler]
        split_ifs <;> rfl
      · simp only [eventHandler]
        split_ifs <;> exact id

section Histories

/-- Silent events do not change what has been queued and received. -/
theorem since_silent (silent : ∀ event ∈ events, event.silent = true) (i : PcbId) :
    queuedSince i (trace ++ events) = queuedSince i trace ∧ receivedSince i (trace ++ events) = receivedSince i trace := by
  induction events generalizing trace with
  | nil => simp
  | cons event events ih =>
      have first := silent event List.mem_cons_self
      obtain ⟨queued, received⟩ :
          queuedSince i (trace ++ [event] ++ events) = queuedSince i (trace ++ [event]) ∧
            receivedSince i (trace ++ [event] ++ events) = receivedSince i (trace ++ [event]) :=
        ih fun later member => silent later (List.mem_cons_of_mem event member)
      rw [List.append_assoc, List.singleton_append] at queued received
      rw [queued, received]
      unfold queuedSince receivedSince
      rw [List.foldl_append, List.foldl_append]
      cases event with
      | opened | queued | leaked | received => exact absurd first (by simp [Event.silent])
      | closed | bound | output | interrupted | shut | refused => exact ⟨rfl, rfl⟩

theorem silent_leaks (silent : ∀ event ∈ events, event.silent = true) : (trace ++ events).countP Event.leaks = trace.countP Event.leaks := by
  have none : events.countP Event.leaks = 0 := by
    refine List.countP_eq_zero.mpr fun event member => ?_
    have first := silent event member
    cases event with
    | leaked => exact absurd first (by simp [Event.silent])
    | opened | queued | received | closed | bound | output | interrupted | shut | refused => simp [Event.leaks]
  rw [List.countP_append, none, Nat.add_zero]

theorem queuedSince_queued (i j : PcbId) (entry : QueueEntry) :
    queuedSince j (trace ++ [.queued i entry]) = if i = j then queuedSince j trace ++ [entry] else queuedSince j trace := by
  unfold queuedSince
  rw [List.foldl_append]
  rfl

theorem receivedSince_received (thread : Nat) (i j : PcbId) (entry : QueueEntry) (bytes : List Byte) :
    receivedSince j (trace ++ [.received thread i entry bytes]) = if i = j then receivedSince j trace ++ [entry] else receivedSince j trace := by
  unfold receivedSince
  rw [List.foldl_append]
  rfl

theorem queuedSince_opened (i j : PcbId) : queuedSince j (trace ++ [.opened i]) = if i = j then [] else queuedSince j trace := by
  unfold queuedSince
  rw [List.foldl_append]
  rfl

theorem receivedSince_opened (i j : PcbId) : receivedSince j (trace ++ [.opened i]) = if i = j then [] else receivedSince j trace := by
  unfold receivedSince
  rw [List.foldl_append]
  rfl

theorem queuedSince_received (thread : Nat) (i j : PcbId) (entry : QueueEntry) (bytes : List Byte) :
    queuedSince j (trace ++ [.received thread i entry bytes]) = queuedSince j trace := by
  unfold queuedSince
  rw [List.foldl_append]
  rfl

theorem receivedSince_queued (i j : PcbId) (entry : QueueEntry) : receivedSince j (trace ++ [.queued i entry]) = receivedSince j trace := by
  unfold receivedSince
  rw [List.foldl_append]
  rfl

theorem since_leaked (i j : PcbId) : queuedSince j (trace ++ [.leaked i]) = queuedSince j trace ∧
    receivedSince j (trace ++ [.leaked i]) = receivedSince j trace := by
  unfold queuedSince receivedSince
  rw [List.foldl_append, List.foldl_append]
  exact ⟨rfl, rfl⟩

theorem held_change (queues : ∀ j, j ≠ i → (after.pcbs j).queue = (s.pcbs j).queue) :
    held after + (s.pcbs i).queue.length = held s + (after.pcbs i).queue.length := by
  have parts (t : State) : held t = (t.pcbs i).queue.length + ∑ j ∈ Finset.univ.erase i, (t.pcbs j).queue.length :=
    (Finset.add_sum_erase _ _ (Finset.mem_univ i)).symm
  have rest : ∑ j ∈ Finset.univ.erase i, (after.pcbs j).queue.length = ∑ j ∈ Finset.univ.erase i, (s.pcbs j).queue.length :=
    Finset.sum_congr rfl fun j member => by rw [queues j (Finset.ne_of_mem_erase member)]
  rw [parts, parts, rest]
  omega

theorem held_same (queues : ∀ j, (after.pcbs j).queue = (s.pcbs j).queue) : held after = held s :=
  Finset.sum_congr rfl fun j _ => by rw [queues j]

theorem held_least (i : PcbId) : (s.pcbs i).queue.length ≤ held s := by
  rw [held, ← Finset.add_sum_erase _ _ (Finset.mem_univ i)]
  exact Nat.le_add_right _ _

theorem Delivered.start : Delivered initial [] where
  bytes _ _ _ _ member := absurd member List.not_mem_nil
  fifo i used := absurd rfl used
  pages := by simp [held, initial]

/-- Each queue stays what has been queued and not received. -/
theorem Effect.fifo (effect : Effect s after events)
    (before : ∀ i, (s.pcbs i).state ≠ .free → queuedSince i trace = receivedSince i trace ++ (s.pcbs i).queue) (j : PcbId)
    (inUse : (after.pcbs j).state ≠ .free) : queuedSince j (trace ++ events) = receivedSince j (trace ++ events) ++ (after.pcbs j).queue := by
  cases effect with
  | quiet silent queues used same =>
      rw [(since_silent silent j).1, (since_silent silent j).2, queues]
      exact before j (used j inUse)
  | opened i empty queues used same =>
      rw [queuedSince_opened, receivedSince_opened, queues]
      by_cases here : i = j
      · rw [if_pos here, if_pos here, ← here, empty]
        rfl
      · rw [if_neg here, if_neg here]
        exact before j (used j (Ne.symm here) inUse)
  | queued i entry queue queues used more =>
      rw [queuedSince_queued, receivedSince_queued]
      have known := before j (used j inUse)
      by_cases here : i = j
      · rw [if_pos here, known, ← here, queue, List.append_assoc]
      · rw [if_neg here, known, queues j (Ne.symm here)]
  | leaked i queues used more =>
      rw [(since_leaked i j).1, (since_leaked i j).2, queues]
      exact before j (used j inUse)
  | received thread i entry size queue queues used less =>
      rw [queuedSince_received, receivedSince_received]
      have known := before j (used j inUse)
      by_cases here : i = j
      · rw [if_pos here, known, ← here, queue, List.append_assoc, List.singleton_append]
      · rw [if_neg here, known, queues j (Ne.symm here)]
  | discarded silent i free queue queues used less =>
      have away : j ≠ i := by
        rintro rfl
        exact inUse free
      rw [(since_silent silent j).1, (since_silent silent j).2, queues j away]
      exact before j (used j inUse)

/-- The pages stay two for each datagram in a queue, and those that have been lost. -/
theorem Effect.pages_held (effect : Effect s after events) (before : s.pages = 2 * held s + trace.countP Event.leaks) :
    after.pages = 2 * held after + (trace ++ events).countP Event.leaks := by
  have kept (event : Event) (other : event.leaks = false) : (trace ++ [event]).countP Event.leaks = trace.countP Event.leaks := by
    rw [List.countP_append, List.countP_singleton, other, if_neg Bool.false_ne_true, Nat.add_zero]
  cases effect with
  | quiet silent queues used same => rw [silent_leaks silent, same, before, held_same queues]
  | opened i empty queues used same => rw [kept _ rfl, same, before, held_same queues]
  | queued i entry queue queues used more =>
      have sum := held_change queues
      rw [queue, List.length_append, List.length_singleton] at sum
      rw [kept _ rfl, more, before]
      omega
  | leaked i queues used more => rw [List.countP_append, more, before, held_same queues, Nat.add_assoc]; rfl
  | received thread i entry size queue queues used less =>
      have sum := held_change queues
      have least := held_least (s := s) i
      rw [queue, List.length_cons] at sum least
      rw [kept _ rfl, less, before]
      omega
  | discarded silent i free queue queues used less =>
      have sum := held_change queues
      have least := held_least (s := s) i
      rw [queue, List.length_nil, Nat.add_zero] at sum
      rw [silent_leaks silent, less, before]
      omega

/-- A datagram that a step delivers is cut at its end at most. -/
theorem Effect.prefixed (effect : Effect s after events) {thread : Nat} {entry : QueueEntry} {bytes : List Byte}
    (member : .received thread i entry bytes ∈ events) : bytes <+: entry.data := by
  have loud (silent : ∀ event ∈ events, event.silent = true) : False := absurd (silent _ member) (by simp [Event.silent])
  cases effect with
  | quiet silent => exact (loud silent).elim
  | discarded silent => exact (loud silent).elim
  | opened | queued | leaked => simp at member
  | received =>
      rw [List.mem_singleton, Event.received.injEq] at member
      obtain ⟨-, -, rfl, rfl⟩ := member
      exact List.take_prefix _ _

theorem Delivered.step (delivered : Delivered s trace) (effect : Effect s after events) : Delivered after (trace ++ events) where
  bytes thread i entry bytes member := (List.mem_append.mp member).elim (delivered.bytes thread i entry bytes) effect.prefixed
  fifo := effect.fifo delivered.fifo
  pages := effect.pages_held delivered.pages

end Histories

/-- What every run keeps. -/
theorem reached_kept (reached : Reaches step (fun _ _ _ => True) (· = initial) s trace) : Tidy s ∧ Delivered s trace := by
  apply reached.invariant fun s trace => Tidy s ∧ Delivered s trace
  · rintro s rfl
    exact ⟨.start, .start⟩
  · rintro s trace action after events ⟨tidy, delivered⟩ - stepped
    exact ⟨tidy.step stepped, delivered.step (step_effect tidy stepped)⟩

end BtbuOs.Udp
