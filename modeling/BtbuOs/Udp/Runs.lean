import BtbuOs.Net.IpText
import BtbuOs.Udp.Delivery
import Mathlib.Data.Fintype.Pigeonhole

namespace BtbuOs.Udp

open Machine
open Bytes (Byte)
open Net (IpAddr UdpPcbState udpPcbSize ipAddrAny hton16 ntoh16)
open Tcp (Endpoint)

variable {s after : State} {i j : PcbId} {call : Call} {trace events : List Event} {addr : IpAddr} {port : BitVec 16}

/-- In every run what calls receive from a socket is what has been queued for it, in its order, and no page but those of failed pushes is lost. -/
theorem udp_delivery (reached : Reaches step (fun _ _ _ => True) (· = initial) s trace) : Delivered s trace := (reached_kept reached).2

def hostEnd : Endpoint := { addr := 0x0f02000a, port := hton16 49152 }
def serverEnd : Endpoint := { addr := 0x0202000a, port := hton16 53 }

/-- A socket sends, three answers come back, and a call that has slept receives the first of them; there is no page for the last one. -/
def answeredRun : List Action :=
  [.opens, .sendto 0 [1] serverEnd (some hostEnd.addr), .recvfrom 1 0 2, .input serverEnd hostEnd [2, 3, 4] true true,
    .input serverEnd hostEnd [5] true true, .input serverEnd hostEnd [6] true false, .wake 1 false]

theorem udp_delivery_run : ∃ s trace, Delivered s trace ∧ receivedSince 0 trace = [⟨serverEnd, [2, 3, 4]⟩] ∧
    (s.pcbs 0).queue = [⟨serverEnd, [5]⟩] ∧ s.pages = 3 := by
  obtain ⟨s, trace, reached, test⟩ := replay_witness step (fun _ _ _ => True) (· = initial) answeredRun initial rfl
    (fun s trace => decide (receivedSince 0 trace = [⟨serverEnd, [2, 3, 4]⟩]) && decide ((s.pcbs 0).queue = [⟨serverEnd, [5]⟩]) &&
      decide (s.pages = 3)) (by decide +kernel)
  simp only [Bool.and_eq_true, decide_eq_true_eq] at test
  exact ⟨s, trace, udp_delivery reached, test.1.1, test.1.2, test.2⟩

/-- A call that sleeps goes on with an interrupt, with the first datagram, or with the end of its socket, and needs no timeout for it. The last
call to leave a socket that has been closed frees it. -/
structure Awake (s : State) (call : Call) : Prop where
  used : (s.pcbs call.pcb).state ≠ .free
  interrupted : (s.pcbs call.pcb).ctx.interrupted = true →
    ∃ after, step s (.wake call.thread false) = some (after, [.interrupted call.thread call.pcb])
  data : ∀ entry rest, (s.pcbs call.pcb).ctx.interrupted = false → (s.pcbs call.pcb).state = .opened → (s.pcbs call.pcb).queue = entry :: rest →
    ∃ after, step s (.wake call.thread false) = some (after, [.received call.thread call.pcb entry (entry.data.take call.size.toNat)])
  shut : (s.pcbs call.pcb).ctx.interrupted = false → (s.pcbs call.pcb).state = .closing →
    ∃ after, step s (.wake call.thread false) = some (after, [.shut call.thread call.pcb]) ∧ after.calls = s.calls.erase call ∧
      (∀ i, (after.pcbs i).ctx.interrupted = (s.pcbs i).ctx.interrupted) ∧
      (after.pcbs call.pcb).state = if (s.pcbs call.pcb).ctx.wc = 1 then .free else .closing

theorem Tidy.find (tidy : Tidy s) (listed : call ∈ s.calls) : s.calls.find? (fun other => other.thread = call.thread) = some call := by
  cases found : s.calls.find? fun other => other.thread = call.thread with
  | none => exact absurd (List.find?_eq_none.mp found call listed) (by simp)
  | some other =>
      have same : other.thread = call.thread := by simpa using List.find?_some found
      rw [List.inj_on_of_nodup_map tidy.threads (List.mem_of_find?_eq_some found) listed same]

theorem wake_interrupted (interrupted : (s.pcbs call.pcb).ctx.interrupted = true) : (wake s call).2 = [.interrupted call.thread call.pcb] := by
  unfold wake
  dsimp only
  rw [if_pos interrupted]

theorem wake_data {entry : QueueEntry} {rest : List QueueEntry} (calm : (s.pcbs call.pcb).ctx.interrupted = false)
    (opened : (s.pcbs call.pcb).state = .opened) (queue : (s.pcbs call.pcb).queue = entry :: rest) :
    (wake s call).2 = [.received call.thread call.pcb entry (entry.data.take call.size.toNat)] := by
  unfold wake
  dsimp only
  rw [if_neg (by rw [calm]; exact Bool.false_ne_true), if_neg (by rw [opened]; decide)]
  unfold receive
  simp only [setPcb_self, queue]

theorem release_state (s : State) (i : PcbId) :
    ((udpPcbRelease s i).pcbs i).state = if (s.pcbs i).ctx.wc = 0 then .free else .closing := by
  unfold udpPcbRelease
  dsimp only
  by_cases idle : (s.pcbs i).ctx.wc = 0
  · rw [if_neg (not_not.mpr idle), if_pos idle]
    exact congrArg UdpPcb.state (setPcb_self s i _)
  · rw [if_pos idle, if_neg idle, setPcb_self]

theorem release_interrupted (s : State) (i j : PcbId) : ((udpPcbRelease s i).pcbs j).ctx.interrupted = (s.pcbs j).ctx.interrupted := by
  unfold udpPcbRelease
  dsimp only
  split_ifs
  · simp only [setPcb_apply]
    split_ifs with here
    · rw [here]
    · rfl
  · simp only [setPcb_apply]
    split_ifs with here
    · rw [here]
    · rfl

/-- The last call that leaves a socket that has been closed frees it. -/
theorem wake_shut (calm : (s.pcbs call.pcb).ctx.interrupted = false) (closing : (s.pcbs call.pcb).state = .closing)
    (waits : (s.pcbs call.pcb).ctx.wc ≠ 0) : (wake s call).2 = [.shut call.thread call.pcb] ∧ (wake s call).1.calls = s.calls.erase call ∧
      (∀ i, ((wake s call).1.pcbs i).ctx.interrupted = (s.pcbs i).ctx.interrupted) ∧
      ((wake s call).1.pcbs call.pcb).state = if (s.pcbs call.pcb).ctx.wc = 1 then .free else .closing := by
  have shape : wake s call = (udpPcbRelease (({ s with calls := s.calls.erase call } : State).setPcb call.pcb
      { s.pcbs call.pcb with ctx := { (s.pcbs call.pcb).ctx with wc := (s.pcbs call.pcb).ctx.wc - 1 } }) call.pcb,
      [.shut call.thread call.pcb]) := by
    unfold wake
    dsimp only
    rw [if_neg (by rw [calm]; exact Bool.false_ne_true), if_pos closing]
  have calls (t : State) (i : PcbId) : (udpPcbRelease t i).calls = t.calls := by
    unfold udpPcbRelease
    dsimp only
    split_ifs <;> rfl
  rw [shape]
  refine ⟨rfl, calls _ _, fun i => ?_, ?_⟩
  · rw [release_interrupted]
    by_cases here : i = call.pcb
    · rw [here, setPcb_self]
    · rw [setPcb_other _ _ here]
  · have one : (s.pcbs call.pcb).ctx.wc - 1 = 0 ↔ (s.pcbs call.pcb).ctx.wc = 1 := by omega
    rw [release_state, setPcb_self]
    simp only [one]

theorem Tidy.awake (tidy : Tidy s) (listed : call ∈ s.calls) : Awake s call := by
  obtain ⟨waits, used⟩ := tidy.sleeping listed
  have sane := tidy.sane call.pcb
  have goes (ready : (s.pcbs call.pcb).ctx.ready = true ∨ (s.pcbs call.pcb).ctx.interrupted = true) {events : List Event}
      (same : (Udp.wake s call).2 = events) : Udp.step s (.wake call.thread false) = some ((Udp.wake s call).1, events) := by
    simp only [Udp.step, tidy.find listed]
    rw [if_pos, ← same]
    rcases ready with ready | interrupted
    · simp [ready]
    · simp [interrupted]
  constructor
  · exact used
  · intro interrupted
    exact ⟨_, goes (Or.inr interrupted) (wake_interrupted interrupted)⟩
  · intro entry rest calm opened queue
    exact ⟨_, goes (Or.inl (sane.data (by rw [queue]; exact List.cons_ne_nil _ _))) (wake_data calm opened queue)⟩
  · intro calm closing
    obtain ⟨same, rest⟩ := wake_shut calm closing waits
    exact ⟨_, goes (Or.inl (sane.closing closing waits)) same, rest⟩

/-- In every run the counts of the control blocks are those of the calls that sleep, and no wake-up is lost. -/
theorem udp_awake (reached : Reaches step (fun _ _ _ => True) (· = initial) s trace) :
    (∀ i, (s.pcbs i).ctx.wc = s.calls.countP fun call => call.pcb = i) ∧ ∀ call ∈ s.calls, Awake s call :=
  ⟨(reached_kept reached).1.count, fun _ listed => (reached_kept reached).1.awake listed⟩

/-- A call sleeps on a socket that is closed. -/
def closedRun : List Action := [.opens, .recvfrom 1 0 100, .close 0]

theorem udp_awake_run : ∃ s trace, Reaches step (fun _ _ _ => True) (· = initial) s trace ∧ (s.pcbs 0).ctx.wc = 1 ∧
    ∀ call ∈ s.calls, Awake s call := by
  obtain ⟨s, trace, reached, test⟩ := replay_witness step (fun _ _ _ => True) (· = initial) closedRun initial rfl
    (fun s _ => decide ((s.pcbs 0).ctx.wc = 1)) (by decide +kernel)
  exact ⟨s, trace, reached, of_decide_eq_true test, (udp_awake reached).2⟩

section Closing

/-- The steps without a network event, which the kernel never raises. -/
def Uninterrupted (_ : State) (_ : List Event) : Action → Prop
  | .event => False
  | _ => True

instance (s : State) (trace : List Event) (action : Action) : Decidable (Uninterrupted s trace action) :=
  match action with
  | .event => inferInstanceAs (Decidable False)
  | .opens | .close _ | .bind _ _ | .sendto _ _ _ _ | .recvfrom _ _ _ | .wake _ _ | .input _ _ _ _ _ => inferInstanceAs (Decidable True)

/-- No socket is interrupted, and a call sleeps on each one that has been closed and is not free. -/
structure Calm (s : State) : Prop where
  calm : ∀ i, (s.pcbs i).ctx.interrupted = false
  waits : ∀ i, (s.pcbs i).state = .closing → (s.pcbs i).ctx.wc ≠ 0

theorem Calm.set (calm : Calm s) (i : PcbId) {pcb : UdpPcb} {calls : List Call} {pages : Nat} (clear : pcb.ctx.interrupted = false)
    (waits : pcb.state = .closing → pcb.ctx.wc ≠ 0) : Calm { s.setPcb i pcb with calls := calls, pages := pages } := by
  constructor
  · intro j
    simp only [setPcb_apply]
    split_ifs
    · exact clear
    · exact calm.calm j
  · intro j
    simp only [setPcb_apply]
    split_ifs
    · exact waits
    · exact calm.waits j

theorem release_other (s : State) (other : j ≠ i) : (udpPcbRelease s i).pcbs j = s.pcbs j := by
  unfold udpPcbRelease
  dsimp only
  split_ifs
  · exact setPcb_other s _ other
  · exact setPcb_other s _ other

theorem release_wc (s : State) (i : PcbId) : ((udpPcbRelease s i).pcbs i).ctx.wc = (s.pcbs i).ctx.wc := by
  unfold udpPcbRelease
  dsimp only
  split_ifs
  · rw [setPcb_self]
  · simp only [setPcb_self]

/-- A release leaves no socket without calls behind. -/
theorem calm_release (calm : ∀ j, (s.pcbs j).ctx.interrupted = false) (waits : ∀ j, j ≠ i → (s.pcbs j).state = .closing → (s.pcbs j).ctx.wc ≠ 0) :
    Calm (udpPcbRelease s i) := by
  refine ⟨fun j => (release_interrupted s i j).trans (calm j), fun j closing => ?_⟩
  by_cases here : j = i
  · subst here
    rw [release_wc]
    intro idle
    rw [release_state, if_pos idle] at closing
    cases closing
  · rw [release_other s here] at closing ⊢
    exact waits j here closing

theorem Calm.receive (calm : Calm s) (opened : (s.pcbs call.pcb).state = .opened) : Calm (receive s call).1 := by
  unfold Udp.receive
  dsimp only
  split
  · exact calm.set call.pcb (calm.calm call.pcb) fun closing => absurd (opened.symm.trans closing) (by decide)
  · split_ifs
    · exact calm
    · exact calm.set call.pcb (calm.calm call.pcb) fun closing => absurd (opened.symm.trans closing) (by decide)

theorem Calm.wake (calm : Calm s) (used : (s.pcbs call.pcb).state ≠ .free) : Calm (wake s call).1 := by
  have clear := calm.calm call.pcb
  unfold Udp.wake
  dsimp only
  rw [if_neg (by rw [clear]; exact Bool.false_ne_true)]
  split_ifs with closing
  · refine calm_release (fun j => ?_) fun j other => ?_
    · simp only [setPcb_apply]
      split_ifs
      · exact clear
      · exact calm.calm j
    · rw [setPcb_other _ _ other]
      exact calm.waits j
  · have opened : (s.pcbs call.pcb).state = .opened := by
      cases state : (s.pcbs call.pcb).state with
      | free => exact absurd state used
      | opened => rfl
      | closing => exact absurd state closing
    have left : Calm (({ s with calls := s.calls.erase call } : State).setPcb call.pcb
        { s.pcbs call.pcb with ctx := { (s.pcbs call.pcb).ctx with wc := (s.pcbs call.pcb).ctx.wc - 1 } }) :=
      calm.set call.pcb clear fun still => absurd still closing
    refine left.receive ?_
    rw [setPcb_self]
    exact opened

theorem Calm.step (calm : Calm s) (tidy : Tidy s) {action : Action} (quiet : Uninterrupted s trace action)
    (stepped : step s action = some (after, events)) : Calm after := by
  have result {r : State × List Event} (same : r = (after, events)) (kept : Calm r.1) : Calm after := by rwa [same] at kept
  have plain {i : PcbId} {pcb : UdpPcb} (opened : pcb.state = .opened) (clear : pcb.ctx.interrupted = false) {pages : Nat} :
      Calm { s.setPcb i pcb with pages := pages } :=
    calm.set i clear fun closing => absurd (opened.symm.trans closing) (by decide)
  cases action with
  | opens =>
      refine result (Option.some.inj stepped) ?_
      unfold udpOpen udpPcbAlloc
      cases found : (List.finRange udpPcbSize).find? fun i => (s.pcbs i).state = .free with
      | none => exact calm
      | some i => exact plain rfl rfl
  | close id =>
      refine result (Option.some.inj stepped) ?_
      unfold udpClose
      cases udpPcbGet s id with
      | none => exact calm
      | some i => exact calm_release calm.calm fun j _ => calm.waits j
  | bind id localEnd =>
      refine result (Option.some.inj stepped) ?_
      unfold udpBind
      cases found : udpPcbGet s id with
      | none => exact calm
      | some i =>
          dsimp only
          split
          · exact calm
          · refine plain ?_ ?_
            · exact (udpPcbGet_some.mp found).2
            · exact calm.calm i
  | sendto id data foreignEnd iface =>
      refine result (Option.some.inj stepped) ?_
      unfold udpSendto
      cases found : udpPcbGet s id with
      | none => exact calm
      | some i =>
          dsimp only
          split
          · exact calm
          · split_ifs
            · split
              · exact calm
              · refine plain ?_ ?_
                · exact (udpPcbGet_some.mp found).2
                · exact calm.calm i
            · exact calm
  | recvfrom thread id size =>
      simp only [Udp.step] at stepped
      split_ifs at stepped
      refine result (Option.some.inj stepped) ?_
      unfold udpRecvfrom
      cases found : udpPcbGet s id with
      | none => exact calm
      | some i => exact calm.receive (udpPcbGet_some.mp found).2
  | wake thread timeout =>
      simp only [Udp.step] at stepped
      split at stepped
      · cases stepped
      · rename_i call found
        split_ifs at stepped
        exact result (Option.some.inj stepped) (calm.wake (tidy.sleeping (List.mem_of_find?_eq_some found)).2)
  | input src dst data entryMemory queueMemory =>
      refine result (Option.some.inj stepped) ?_
      unfold udpInput
      cases found : udpPcbSelect s dst.addr dst.port with
      | none => exact calm
      | some i =>
          dsimp only
          split_ifs
          · exact calm
          · exact ⟨calm.calm, calm.waits⟩
          · refine plain ?_ ?_
            · exact (udpPcbSelect_some found).1
            · exact calm.calm i
  | event => exact quiet.elim

/-- The calls that sleep on a socket that has been closed return -1, and the last one frees it. -/
theorem Calm.drains (n : Nat) : ∀ {s : State} {i : PcbId}, Tidy s → Calm s → (s.pcbs i).state = .closing → (s.pcbs i).ctx.wc = n →
    ∀ trace, ∃ actions final more, replay Udp.step Uninterrupted s trace actions = some (final, trace ++ more) ∧
      actions.length = n ∧ (final.pcbs i).state = .free ∧ ∀ event ∈ more, ∃ thread, event = .shut thread i := by
  induction n with
  | zero => exact fun _ calm closing idle => absurd idle (calm.waits _ closing)
  | succ n ih =>
      intro s i tidy calm closing count trace
      obtain ⟨call, listed, same⟩ : ∃ call ∈ s.calls, call.pcb = i := by
        have positive : 0 < s.calls.countP fun call => call.pcb = i := by rw [← tidy.count, count]; exact Nat.succ_pos n
        obtain ⟨call, listed, same⟩ := List.countP_pos_iff.mp positive
        exact ⟨call, listed, of_decide_eq_true same⟩
      subst same
      obtain ⟨after, stepped, calls, -, state⟩ := (tidy.awake listed).shut (calm.calm _) closing
      have first (rest : List Action) : replay Udp.step Uninterrupted s trace (.wake call.thread false :: rest) =
          replay Udp.step Uninterrupted after (trace ++ [.shut call.thread call.pcb]) rest := by
        have allowed : Uninterrupted s trace (.wake call.thread false) := trivial
        rw [replay, if_pos allowed, stepped]
      by_cases last : n = 0
      · subst last
        rw [if_pos count] at state
        exact ⟨[.wake call.thread false], after, [.shut call.thread call.pcb], first [], rfl, state,
          fun event member => ⟨call.thread, List.mem_singleton.mp member⟩⟩
      · rw [if_neg (by omega)] at state
        have next := tidy.step stepped
        have fewer : (after.pcbs call.pcb).ctx.wc = n := by
          rw [next.count, calls, List.countP_erase, if_pos ⟨listed, by simp⟩, ← tidy.count, count, Nat.add_sub_cancel]
        obtain ⟨actions, final, more, replayed, length, free, shut⟩ := ih next
          (calm.step tidy (show Uninterrupted s trace (.wake call.thread false) from trivial) stepped) state fewer
          (trace ++ [.shut call.thread call.pcb])
        refine ⟨.wake call.thread false :: actions, final, .shut call.thread call.pcb :: more, ?_, by rw [List.length_cons, length], free,
          fun event member => ?_⟩
        · rw [first, replayed, List.append_assoc, List.singleton_append]
        · rcases List.mem_cons.mp member with rfl | later
          · exact ⟨call.thread, rfl⟩
          · exact shut event later

/-- Without network events, a socket that has been closed has calls that sleep on it, and is free when each of them has gone on. -/
theorem udp_close_completes (reached : Reaches step Uninterrupted (· = initial) s trace) (closing : (s.pcbs i).state = .closing) :
    0 < (s.pcbs i).ctx.wc ∧ ∃ actions final more, replay step Uninterrupted s trace actions = some (final, trace ++ more) ∧
      actions.length = (s.pcbs i).ctx.wc ∧ (final.pcbs i).state = .free ∧ ∀ event ∈ more, ∃ thread, event = .shut thread i := by
  obtain ⟨tidy, calm⟩ : Tidy s ∧ Calm s := by
    apply reached.invariant fun s _ => Tidy s ∧ Calm s
    · rintro s rfl
      exact ⟨.start, fun _ => rfl, fun _ impossible => by cases impossible⟩
    · rintro s trace action after events ⟨tidy, calm⟩ quiet stepped
      exact ⟨tidy.step stepped, calm.step tidy quiet stepped⟩
  exact ⟨Nat.pos_of_ne_zero (calm.waits i closing), Calm.drains _ tidy calm closing rfl trace⟩

theorem udp_close_completes_run : ∃ s trace, (s.pcbs 0).state = .closing ∧ 0 < (s.pcbs 0).ctx.wc ∧
    ∃ actions final more, replay step Uninterrupted s trace actions = some (final, trace ++ more) ∧
      actions.length = (s.pcbs 0).ctx.wc ∧ (final.pcbs 0).state = .free ∧ ∀ event ∈ more, ∃ thread, event = .shut thread 0 := by
  obtain ⟨s, trace, reached, test⟩ := replay_witness step Uninterrupted (· = initial) closedRun initial rfl
    (fun s _ => decide ((s.pcbs 0).state = .closing)) (by decide +kernel)
  have closing := of_decide_eq_true test
  exact ⟨s, trace, closing, udp_close_completes reached closing⟩

end Closing

section Lost

/-- A socket has been closed, and no call sleeps on it that could free it. -/
def Lost (s : State) (i : PcbId) : Prop := (s.pcbs i).state = .closing ∧ (s.pcbs i).ctx.wc = 0

theorem receive_other (s : State) (other : j ≠ call.pcb) : (receive s call).1.pcbs j = s.pcbs j := by
  unfold receive
  dsimp only
  split
  · exact setPcb_other s _ other
  · split_ifs
    · rfl
    · exact setPcb_other s _ other

theorem wake_other (s : State) (other : j ≠ call.pcb) : (wake s call).1.pcbs j = s.pcbs j := by
  unfold wake
  dsimp only
  split_ifs
  · exact setPcb_other _ _ other
  · exact (release_other _ other).trans (setPcb_other _ _ other)
  · exact (receive_other _ other).trans (setPcb_other _ _ other)

/-- No step changes the control block of a socket that is lost. -/
theorem Tidy.frame (tidy : Tidy s) (lost : Lost s i) {action : Action} (stepped : Udp.step s action = some (after, events)) :
    after.pcbs i = s.pcbs i := by
  have result {r : State × List Event} (same : r = (after, events)) (kept : r.1.pcbs i = s.pcbs i) : after.pcbs i = s.pcbs i := by rwa [same] at kept
  have apart {j : PcbId} (state : (s.pcbs j).state ≠ .closing) : i ≠ j := by
    rintro rfl
    exact state lost.1
  have opened {id : Int} {j : PcbId} (found : udpPcbGet s id = some j) : i ≠ j := apart (by rw [(udpPcbGet_some.mp found).2]; decide)
  cases action with
  | opens =>
      refine result (Option.some.inj stepped) ?_
      unfold udpOpen udpPcbAlloc
      cases found : (List.finRange udpPcbSize).find? fun i => (s.pcbs i).state = .free with
      | none => rfl
      | some j =>
          have free : (s.pcbs j).state = .free := by simpa using List.find?_some found
          exact setPcb_other s _ (apart (by rw [free]; decide))
  | close id =>
      refine result (Option.some.inj stepped) ?_
      unfold udpClose
      cases found : udpPcbGet s id with
      | none => rfl
      | some j => exact release_other s (opened found)
  | bind id localEnd =>
      refine result (Option.some.inj stepped) ?_
      unfold udpBind
      cases found : udpPcbGet s id with
      | none => rfl
      | some j =>
          dsimp only
          split
          · rfl
          · exact setPcb_other s _ (opened found)
  | sendto id data foreignEnd iface =>
      refine result (Option.some.inj stepped) ?_
      unfold udpSendto
      cases found : udpPcbGet s id with
      | none => rfl
      | some j =>
          dsimp only
          split
          · rfl
          · split_ifs
            · split
              · rfl
              · exact setPcb_other s _ (opened found)
            · rfl
  | recvfrom thread id size =>
      simp only [Udp.step] at stepped
      split_ifs at stepped
      refine result (Option.some.inj stepped) ?_
      unfold udpRecvfrom
      cases found : udpPcbGet s id with
      | none => rfl
      | some j => exact receive_other s (opened found)
  | wake thread timeout =>
      simp only [Udp.step] at stepped
      split at stepped
      · cases stepped
      · rename_i call found
        split_ifs at stepped
        refine result (Option.some.inj stepped) (wake_other s ?_)
        rintro rfl
        exact (tidy.sleeping (List.mem_of_find?_eq_some found)).1 lost.2
  | input src dst data entryMemory queueMemory =>
      refine result (Option.some.inj stepped) ?_
      unfold udpInput
      cases found : udpPcbSelect s dst.addr dst.port with
      | none => rfl
      | some j =>
          dsimp only
          split_ifs
          · rfl
          · rfl
          · exact setPcb_other s _ (apart (by rw [(udpPcbSelect_some found).1]; decide))
  | event =>
      refine result (Option.some.inj stepped) ?_
      simp only [eventHandler, lost.1]
      rfl

/-- A socket that has been closed and has no call to free it stays so in every run from there. -/
theorem udp_lost (reached : Reaches step (fun _ _ _ => True) (· = initial) s trace) (lost : Lost s i) {later : State} {more : List Event}
    (run : Reaches step (fun _ _ _ => True) (· = s) later more) : Lost later i ∧ ∀ id, udpPcbGet later id ≠ some i := by
  obtain ⟨-, still⟩ : Tidy later ∧ Lost later i := by
    apply run.invariant fun later _ => Tidy later ∧ Lost later i
    · rintro later rfl
      exact ⟨(reached_kept reached).1, lost⟩
    · rintro mid past action after events ⟨tidy, lost⟩ - stepped
      refine ⟨tidy.step stepped, ?_⟩
      rw [Lost, tidy.frame lost stepped]
      exact lost
  refine ⟨still, fun id found => ?_⟩
  have opened := (udpPcbGet_some.mp found).2
  rw [still.1] at opened
  cases opened

/-- A call is interrupted after its socket has been closed and before it goes on. -/
def lostRun : List Action := [.opens, .recvfrom 1 0 100, .event, .close 0, .wake 1 false]

theorem udp_lost_run : ∃ s trace, Reaches step (fun _ _ _ => True) (· = initial) s trace ∧ Lost s 0 ∧ ∀ {later : State} {more : List Event},
    Reaches step (fun _ _ _ => True) (· = s) later more → Lost later 0 ∧ ∀ id, udpPcbGet later id ≠ some 0 := by
  obtain ⟨s, trace, reached, test⟩ := replay_witness step (fun _ _ _ => True) (· = initial) lostRun initial rfl
    (fun s _ => decide ((s.pcbs 0).state = .closing) && decide ((s.pcbs 0).ctx.wc = 0)) (by decide +kernel)
  rw [Bool.and_eq_true, decide_eq_true_eq, decide_eq_true_eq] at test
  exact ⟨s, trace, reached, test, fun run => udp_lost reached test run⟩

end Lost

section Ends

/-- A port is left for a socket that is not bound, as there are fewer sockets than ports. -/
theorem dynamicPort_some (s : State) (addr : IpAddr) : ∃ port, dynamicPort s addr = some port ∧
    udpSourcePortMin ≤ (ntoh16 port).toNat ∧ udpPcbSelect s addr port = none := by
  have count : udpSourcePortMax + 1 - udpSourcePortMin = 16384 := rfl
  cases found : dynamicPort s addr with
  | some port =>
      obtain ⟨p, member, rfl⟩ := List.mem_map.mp (List.mem_of_find?_eq_some found)
      obtain ⟨low, high⟩ := List.mem_range'_1.mp member
      refine ⟨_, rfl, ?_, by simpa using List.find?_some found⟩
      have bound : udpSourcePortMin = 49152 := rfl
      rw [ntoh16, hton16, Net.byteswap16_byteswap16, BitVec.toNat_ofNat]
      omega
  | none =>
      have taken (k : Fin 17) : ∃ i, (s.pcbs i).localEnd.port = hton16 (BitVec.ofNat 16 (udpSourcePortMin + k.val)) := by
        have bound := k.isLt
        have listed : udpSourcePortMin + k.val ∈ List.range' udpSourcePortMin (udpSourcePortMax + 1 - udpSourcePortMin) :=
          List.mem_range'_1.mpr (by omega)
        have some_socket := List.find?_eq_none.mp found _ (List.mem_map_of_mem listed)
        rw [Option.isNone_iff_eq_none] at some_socket
        obtain ⟨i, selected⟩ := Option.ne_none_iff_exists'.mp some_socket
        exact ⟨i, (udpPcbSelect_some selected).2.2⟩
      obtain ⟨j, k, different, same⟩ := Fintype.exists_ne_map_eq_of_card_lt (fun k => (taken k).choose) (by decide)
      have equal : hton16 (BitVec.ofNat 16 (udpSourcePortMin + j.val)) = hton16 (BitVec.ofNat 16 (udpSourcePortMin + k.val)) :=
        (taken j).choose_spec.symm.trans ((congrArg (fun i => (s.pcbs i).localEnd.port) same).trans (taken k).choose_spec)
      have back (v : BitVec 16) : hton16 (hton16 v) = v := Net.byteswap16_byteswap16 v
      have numbers := congrArg BitVec.toNat (congrArg hton16 equal)
      rw [back, back, BitVec.toNat_ofNat, BitVec.toNat_ofNat] at numbers
      have low : udpSourcePortMin = 49152 := rfl
      have first := j.isLt
      have second := k.isLt
      exact absurd (Fin.ext (by omega)) different

end Ends

end BtbuOs.Udp
