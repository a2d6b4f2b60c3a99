import BtbuOs.Tcp.Turns

namespace BtbuOs.Tcp

open Bytes Machine

/-- The bytes in flight. -/
def inFlight (p : Pcb) : Seq := p.snd.nxt - p.snd.una

/-- The bytes in flight fit the window of the peer. -/
def InWindow (p : Pcb) : Prop := inFlight p ≤ p.snd.wnd.setWidth 32

instance (p : Pcb) : Decidable (InWindow p) := inferInstanceAs (Decidable (_ ≤ _))

/-- One stay of `tcp_send` in the kernel, from the label RETRY on. -/
structure Stay where
  net : Net
  block : PcbId
  data : List Byte
  mss : Nat
  sent : Nat

namespace Stay

/-- The network after some rounds of the loop. -/
def after (stay : Stay) (rounds : Nat) : Net := (sendRounds stay.block stay.data stay.mss rounds stay.net stay.sent).1

/-- The blocks behind the rounds that sent a segment. -/
def emissions (stay : Stay) : List Pcb :=
  ((List.range (stay.data.length + 1)).filter fun round =>
    (stay.after round).log.length < (stay.after (round + 1)).log.length).map fun round =>
      (stay.after (round + 1)).pcbs stay.block

end Stay

/-- The stay that the label RETRY begins, when the block may send. -/
def retryStay (n : Net) (i : PcbId) (data : List Byte) (sent : Nat) : Option Stay :=
  match (n.pcbs i).state with
  | .established | .closeWait => (n.route (n.pcbs i).foreignEnd.addr).map fun iface => ⟨n, i, data, iface.mtu - 40, sent⟩
  | _ => none

/-- A stay runs one round more than the data has bytes. -/
theorem retrySend_of_stay {n : Net} {i : PcbId} {data : List Byte} {sent : Nat} {stay : Stay}
    (begun : retryStay n i data sent = some stay) : (retrySend n i data sent).1 = stay.after (data.length + 1) := by
  unfold retryStay at begun
  unfold retrySend
  split at begun
  · rename_i state
    obtain ⟨iface, route, rfl⟩ := Option.map_eq_some_iff.mp begun
    simp only [state, route]
    rfl
  · rename_i state
    obtain ⟨iface, route, rfl⟩ := Option.map_eq_some_iff.mp begun
    simp only [state, route]
    rfl
  · contradiction

/-- The stay of `tcp_send` that an action begins or goes on with. -/
def Action.stay (n : Net) : Action → Option Stay
  | .send id data => (tcpPcbGet n id).bind fun i => retryStay n i data 0
  | .resume index =>
      match n.calls[index]? with
      | some (.sending i data sent) =>
          if (n.pcbs i).ctx.interrupted then none
          else retryStay ({ n with calls := n.calls.eraseIdx index }.setPcb i
            { n.pcbs i with ctx := { (n.pcbs i).ctx with wc := (n.pcbs i).ctx.wc - 1 } }) i data sent
      | _ => none
  | _ => none

/-- The events of a step are the blocks behind the segments that `tcp_send` sends. -/
def sendStep (n : Net) (action : Action) : Option (Net × List Pcb) :=
  (advance n action).map fun after => (after, (action.stay n).toList.flatMap Stay.emissions)

/-- A stay with data left begins with the bytes in flight inside the window. -/
def Unshrunk (n : Net) (_ : List Pcb) (action : Action) : Prop :=
  ∀ stay ∈ (action.stay n).toList, stay.sent < stay.data.length → InWindow (stay.net.pcbs stay.block)

instance (n : Net) (trace : List Pcb) (action : Action) : Decidable (Unshrunk n trace action) :=
  inferInstanceAs (Decidable (∀ stay ∈ (action.stay n).toList, _ → _))

/-- A segment of at most the free capacity keeps the bytes in flight inside the window. -/
theorem inWindow_advance {p : Pcb} {size : Nat} (inside : InWindow p)
    (fits : size ≤ (p.snd.wnd.setWidth 32 - (p.snd.nxt - p.snd.una)).toNat) :
    InWindow { p with snd := { p.snd with nxt := p.snd.nxt + BitVec.ofNat 32 size } } := by
  unfold InWindow inFlight at *
  dsimp only at *
  generalize flight : p.snd.nxt - p.snd.una = f at *
  have moved : p.snd.nxt + BitVec.ofNat 32 size - p.snd.una = f + BitVec.ofNat 32 size := by
    rw [← flight]
    bv_omega
  rw [moved]
  generalize p.snd.wnd.setWidth 32 = w at *
  rw [BitVec.le_def] at inside ⊢
  rw [BitVec.toNat_sub_of_le (BitVec.le_def.mpr inside)] at fits
  have bound := w.isLt
  rw [BitVec.toNat_add, BitVec.toNat_ofNat, Nat.mod_eq_of_lt (a := size) (by omega), Nat.mod_eq_of_lt (by omega)]
  omega

/-- A block that is given up keeps its numbers or is cleared. -/
theorem giveUp_inWindow {n : Net} {i : PcbId} (inside : InWindow (n.pcbs i)) : InWindow ((giveUp n i).1.pcbs i) := by
  have blocks := (drained_release (2 * ((List.finRange tcpPcbSize).map fun j =>
    ((n.setState i .closed).pcbs j).backlog.length).sum + 2) (n.setState i .closed) i).2.2 i
  unfold giveUp tcpPcbRelease
  dsimp only
  obtain ⟨zero, -⟩ | ⟨backlog, -, same⟩ := blocks
  · rw [zero]
    decide
  · rw [same, Net.setState, Net.setPcb_self]
    exact inside

/-- Each round keeps the bytes in flight inside the window. -/
theorem sendRounds_inWindow (i : PcbId) (data : List Byte) (mss rounds : Nat) : ∀ (n : Net) (sent : Nat),
    InWindow (n.pcbs i) → InWindow ((sendRounds i data mss rounds n sent).1.pcbs i) := by
  induction rounds with
  | zero => exact fun n sent inside => inside
  | succ rounds ih =>
      intro n sent inside
      simp only [sendRounds]
      split
      · exact inside
      · split
        · exact inside
        · generalize size : min (min mss (data.length - sent))
            ((n.pcbs i).snd.wnd.setWidth 32 - ((n.pcbs i).snd.nxt - (n.pcbs i).snd.una)).toNat = slen
          have fits : slen ≤ ((n.pcbs i).snd.wnd.setWidth 32 - ((n.pcbs i).snd.nxt - (n.pcbs i).snd.una)).toNat := by omega
          obtain ⟨queue, block⟩ := tcpOutput_pcbs n i (tcpFlgAck ||| tcpFlgPsh) ((data.drop sent).take slen) i
          split
          · rename_i failure failed
            rw [failed] at block
            apply giveUp_inWindow
            rw [block]
            exact inside
          · rename_i success done
            rw [done] at block
            apply ih
            rw [Net.setPcb_self, block]
            exact inWindow_advance inside fits

/-- A failed output sends nothing. -/
theorem tcpOutput_failed {n failure : Net} {i : PcbId} {flg : Flags} {data : List Byte}
    (failed : tcpOutput n i flg data = (failure, false)) : failure.log = n.log := by
  have queued (seq : Seq) : (tcpRetransmitQueueAdd n i seq flg data).log = n.log := by
    unfold tcpRetransmitQueueAdd
    split <;> rfl
  have silent (m : Net) (segment : Segment) (unsent : tcpOutputSegment m segment = (failure, false)) :
      failure.log = m.log := by
    unfold tcpOutputSegment at unsent
    dsimp only at unsent
    split at unsent
    · exact absurd (congrArg Prod.snd unsent) Bool.true_eq_false.mp
    · simp only [Prod.mk.injEq, and_true] at unsent
      rw [← unsent]
  unfold tcpOutput at failed
  dsimp only at failed
  rw [silent _ _ failed]
  split
  · exact queued _
  · rfl

/-- A segment sent behind a shrunk window is beyond the window, unless the bytes in flight pass 2^32. -/
theorem shrunk_exceeds {stay : Stay} (shrunk : ¬InWindow (stay.net.pcbs stay.block))
    (room : (inFlight (stay.net.pcbs stay.block)).toNat + stay.data.length < 2 ^ 32)
    (sends : (stay.after 0).log.length < (stay.after 1).log.length) : ¬InWindow ((stay.after 1).pcbs stay.block) := by
  obtain ⟨n, i, data, mss, sent⟩ := stay
  unfold Stay.after at sends ⊢
  simp only [sendRounds] at *
  split at sends
  · exact absurd sends (lt_irrefl _)
  · rename_i more
    split at sends
    · exact absurd sends (lt_irrefl _)
    · rename_i capacity
      rw [if_neg more, if_neg capacity]
      generalize size : min (min mss (data.length - sent))
        ((n.pcbs i).snd.wnd.setWidth 32 - ((n.pcbs i).snd.nxt - (n.pcbs i).snd.una)).toNat = slen at *
      have within : slen ≤ data.length := by omega
      obtain ⟨queue, block⟩ := tcpOutput_pcbs n i (tcpFlgAck ||| tcpFlgPsh) ((data.drop sent).take slen) i
      split at sends
      · rename_i failure failed
        have released : (giveUp failure i).1.log = failure.log := (drained_release _ (failure.setState i .closed) i).2.1.2
        rw [released, tcpOutput_failed failed] at sends
        exact absurd sends (lt_irrefl _)
      · rename_i success done
        rw [done] at block
        rw [Net.setPcb_self, block]
        unfold InWindow inFlight at *
        dsimp only at *
        bv_omega

/-- Without data left no segment is sent. -/
theorem emissions_done {stay : Stay} (done : stay.data.length ≤ stay.sent) : stay.emissions = [] := by
  have still (rounds : Nat) : stay.after rounds = stay.net := by
    unfold Stay.after
    cases rounds with
    | zero => rfl
    | succ rounds => rw [sendRounds, if_pos done]
  unfold Stay.emissions
  rw [List.filter_eq_nil_iff.mpr, List.map_nil]
  intro round _
  rw [still, still]
  simp

/-- While no stay begins behind a shrunk window, `tcp_send` never sends beyond the window of the peer. -/
theorem window_respected {n : Net} {trace : List Pcb} (reached : Reaches sendStep Unshrunk Initial n trace) :
    ∀ p ∈ trace, inFlight p ≤ p.snd.wnd.setWidth 32 := by
  apply reached.invariant (fun _ trace => ∀ p ∈ trace, InWindow p)
  · intro n _ p member
    contradiction
  · intro n trace action after events inside unshrunk stepped p member
    obtain ⟨final, _, result⟩ := Option.map_eq_some_iff.mp stepped
    simp only [Prod.mk.injEq] at result
    rw [← result.2] at member
    rcases List.mem_append.mp member with old | new
    · exact inside p old
    · obtain ⟨stay, begun, emitted⟩ := List.mem_flatMap.mp new
      by_cases left : stay.sent < stay.data.length
      · obtain ⟨round, _, rfl⟩ := List.mem_map.mp emitted
        exact sendRounds_inWindow _ _ _ _ _ _ (unshrunk stay begun left)
      · rw [emissions_done (Nat.le_of_not_lt left)] at emitted
        contradiction

/-- An acknowledgment of the peer with a window. -/
def windowUpdate (seq ack : Seq) (wnd : BitVec 16) : Action :=
  .input { src := 2000, dst := 80, seq, ack, off := 0x50, flg := tcpFlgAck, wnd, up := 0 }
    (fun _ => 0) 20 true 0x0a000002 0x0a000001 0x0a0000ff

/-- Two segments fill a window of three bytes. -/
theorem window_respected_run : ∃ n trace, Reaches sendStep Unshrunk Initial n trace ∧ trace.length = 2 ∧
    ∀ p ∈ trace, inFlight p ≤ p.snd.wnd.setWidth 32 := by
  obtain ⟨n, trace, reached, test⟩ := replay_witness sendStep Unshrunk Initial
    [.openRfc793 ⟨0x0a000001, 80⟩ none false, peerSegment 1000 0 tcpFlgSyn 0 0, windowUpdate 1001 1 3,
      .send 0 [97, 98], .send 0 [99, 100]] firstNet ⟨rfl, rfl, rfl⟩
    (fun _ trace => decide (trace.length = 2)) (by decide +kernel)
  exact ⟨n, trace, reached, of_decide_eq_true test, window_respected reached⟩

/-- The peer acknowledges one byte of four and shrinks its window to two bytes, and the next byte is sent beyond it. -/
theorem shrunk_window_exceeded : ¬∀ n trace, Reaches sendStep (fun _ _ _ => True) Initial n trace →
    ∀ p ∈ trace, inFlight p ≤ p.snd.wnd.setWidth 32 := by
  intro claim
  obtain ⟨n, trace, reached, test⟩ := replay_witness sendStep (fun _ _ _ => True) Initial
    (handshake ++ [.send 0 [97, 98, 99, 100], windowUpdate 1001 2 2, .send 0 [101]]) firstNet ⟨rfl, rfl, rfl⟩
    (fun _ trace => decide (∃ p ∈ trace, ¬InWindow p)) (by decide +kernel)
  obtain ⟨p, member, outside⟩ := of_decide_eq_true test
  exact outside (claim n trace reached p member)

end BtbuOs.Tcp
