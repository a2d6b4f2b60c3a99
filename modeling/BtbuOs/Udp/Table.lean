import BtbuOs.Udp.Socket
import Mathlib.Algebra.BigOperators.Fin
import Mathlib.Data.List.Count

namespace BtbuOs.Udp

open Machine
open Bytes (Byte)
open Net (IpAddr UdpPcbState udpPcbSize ipAddrAny hton16)
open Tcp (Endpoint)

/-- A control block that is free is empty, and one with data, or one that a sleeping call has to leave, wakes its calls. -/
structure UdpPcb.Sane (pcb : UdpPcb) : Prop where
  free : pcb.state = .free → pcb.queue = [] ∧ pcb.localEnd = anyEnd ∧ pcb.ctx.wc = 0
  data : pcb.queue ≠ [] → pcb.ctx.ready = true
  closing : pcb.state = .closing → pcb.ctx.wc ≠ 0 → pcb.ctx.ready = true

/-- What the table keeps: a thread sleeps in one call, the counts are those of the calls, and no two open sockets are bound to the same end. -/
structure Tidy (s : State) : Prop where
  threads : (s.calls.map Call.thread).Nodup
  count : ∀ i, (s.pcbs i).ctx.wc = s.calls.countP fun call => call.pcb = i
  sane : ∀ i, (s.pcbs i).Sane
  distinct : ∀ i j, i ≠ j → (s.pcbs i).state = .opened → (s.pcbs j).state = .opened → (s.pcbs i).localEnd.port ≠ 0 →
    (s.pcbs i).localEnd ≠ (s.pcbs j).localEnd

variable {s : State} {i j : PcbId} {pcb : UdpPcb} {call : Call} {addr : IpAddr} {port : BitVec 16} {id : Int}

@[simp] theorem setPcb_self (s : State) (i : PcbId) (pcb : UdpPcb) : (s.setPcb i pcb).pcbs i = pcb := Function.update_self ..

theorem setPcb_other (s : State) (pcb : UdpPcb) (other : j ≠ i) : (s.setPcb i pcb).pcbs j = s.pcbs j := Function.update_of_ne other ..

theorem setPcb_apply (s : State) (i j : PcbId) (pcb : UdpPcb) : (s.setPcb i pcb).pcbs j = if j = i then pcb else s.pcbs j :=
  Function.update_apply ..

@[simp] theorem setPcb_calls (s : State) (i : PcbId) (pcb : UdpPcb) : (s.setPcb i pcb).calls = s.calls := rfl

theorem udpPcbGet_some : udpPcbGet s id = some i ↔ (i.val : Int) = id ∧ (s.pcbs i).state = .opened := by
  constructor
  · intro found
    simpa using List.find?_some found
  · rintro ⟨rfl, state⟩
    refine List.find?_eq_some_iff_getElem.mpr ⟨by simpa using state, i.val, by simp, by simp, fun k before => ?_⟩
    have different : ¬(k : Int) = (i.val : Int) := by omega
    simp [different]

/-- A socket that is selected is open, bound to the port, and to the address or to any. -/
theorem udpPcbSelect_some (found : udpPcbSelect s addr port = some i) :
    (s.pcbs i).state = .opened ∧ ((s.pcbs i).localEnd.addr = ipAddrAny ∨ (s.pcbs i).localEnd.addr = addr) ∧ (s.pcbs i).localEnd.port = port := by
  have fits := List.find?_some found
  simp only [Bool.and_eq_true, Bool.or_eq_true, decide_eq_true_eq] at fits
  exact ⟨fits.1.1, fits.1.2, fits.2⟩

/-- No socket is selected when none fits. -/
theorem udpPcbSelect_none (absent : udpPcbSelect s addr port = none) (opened : (s.pcbs j).state = .opened)
    (near : (s.pcbs j).localEnd.addr = ipAddrAny ∨ (s.pcbs j).localEnd.addr = addr) : (s.pcbs j).localEnd.port ≠ port := by
  intro same
  have unfit := List.find?_eq_none.mp absent j (List.mem_finRange j)
  simp [opened, same] at unfit
  rcases near with any | here
  · exact unfit.1 any
  · exact unfit.2 here

namespace Tidy

theorem start : Tidy initial where
  threads := List.nodup_nil
  count _ := rfl
  sane _ := ⟨fun _ => ⟨rfl, rfl, rfl⟩, fun some_data => absurd rfl some_data, fun impossible => by cases impossible⟩
  distinct _ _ _ opened := by cases opened

/-- The control block of a socket changes, with the calls that sleep on it. -/
theorem change (tidy : Tidy s) {calls : List Call} (pages : Nat) (threads : (calls.map Call.thread).Nodup)
    (count : pcb.ctx.wc = calls.countP fun call => call.pcb = i)
    (others : ∀ k, k ≠ i → calls.countP (fun call => call.pcb = k) = s.calls.countP fun call => call.pcb = k) (sane : pcb.Sane)
    (distinct : pcb.state = .opened → pcb.localEnd.port ≠ 0 → ∀ j, j ≠ i → (s.pcbs j).state = .opened → pcb.localEnd ≠ (s.pcbs j).localEnd) :
    Tidy { s.setPcb i pcb with calls := calls, pages := pages } := by
  have same : ∀ k, ({ s.setPcb i pcb with calls := calls, pages := pages } : State).pcbs k = (s.setPcb i pcb).pcbs k := fun _ => rfl
  constructor
  · exact threads
  · intro k
    rw [same]
    by_cases here : k = i
    · subst here
      rw [setPcb_self, count]
    · rw [setPcb_other s pcb here, others k here]
      exact tidy.count k
  · intro k
    rw [same]
    by_cases here : k = i
    · subst here
      rwa [setPcb_self]
    · rw [setPcb_other s pcb here]
      exact tidy.sane k
  · intro k m different first second bound
    rw [same] at first second bound ⊢
    rw [same]
    by_cases here : k = i
    · subst here
      rw [setPcb_self] at first bound ⊢
      rw [setPcb_other s pcb (Ne.symm different)] at second ⊢
      exact distinct first bound m (Ne.symm different) second
    · rw [setPcb_other s pcb here] at first bound ⊢
      by_cases there : m = i
      · subst there
        rw [setPcb_self] at second ⊢
        intro equal
        rw [equal] at bound
        exact distinct second bound k here first equal.symm
      · rw [setPcb_other s pcb there] at second ⊢
        exact tidy.distinct k m different first second bound

theorem set (tidy : Tidy s) (pages : Nat) (count : pcb.ctx.wc = (s.pcbs i).ctx.wc) (sane : pcb.Sane)
    (distinct : pcb.state = .opened → pcb.localEnd.port ≠ 0 → ∀ j, j ≠ i → (s.pcbs j).state = .opened → pcb.localEnd ≠ (s.pcbs j).localEnd) :
    Tidy { s.setPcb i pcb with pages := pages } :=
  tidy.change pages tidy.threads (count.trans (tidy.count i)) (fun _ _ => rfl) sane distinct

/-- The bound end of a socket stays as it is. -/
theorem same_end (tidy : Tidy s) (i : PcbId) {localEnd : Endpoint} {state : UdpPcbState} (same : localEnd = (s.pcbs i).localEnd)
    (before : state = .opened → (s.pcbs i).state = .opened) :
    state = .opened → localEnd.port ≠ 0 → ∀ j, j ≠ i → (s.pcbs j).state = .opened → localEnd ≠ (s.pcbs j).localEnd := by
  intro opened bound j other second
  rw [same] at bound ⊢
  exact tidy.distinct i j (Ne.symm other) (before opened) second bound

theorem alloc (tidy : Tidy s) (free : (s.pcbs i).state = .free) :
    Tidy (s.setPcb i { s.pcbs i with state := .opened, ctx := schedCtxInit }) := by
  obtain ⟨empty, unbound, idle⟩ := (tidy.sane i).free free
  refine tidy.set (i := i) s.pages idle.symm ⟨fun impossible => absurd impossible (by simp), fun some_data => absurd empty some_data,
    fun impossible => absurd impossible (by simp)⟩ fun _ bound => ?_
  rw [unbound] at bound
  exact absurd rfl bound

theorem release (tidy : Tidy s) (i : PcbId) : Tidy (udpPcbRelease s i) := by
  unfold udpPcbRelease
  dsimp only
  split_ifs with waits
  · exact tidy.set (i := i) s.pages rfl ⟨fun impossible => absurd impossible (by simp), fun _ => rfl, fun _ _ => rfl⟩
      fun impossible => absurd impossible (by simp)
  · rw [not_not] at waits
    exact tidy.set (i := i) _ rfl ⟨fun _ => ⟨rfl, rfl, waits⟩, fun some_data => absurd rfl some_data,
      fun impossible => absurd impossible (by simp)⟩ fun impossible => absurd impossible (by simp)

theorem input (tidy : Tidy s) (src dst : Endpoint) (data : List Byte) (entryMemory queueMemory : Bool) :
    Tidy (udpInput s src dst data entryMemory queueMemory).1 := by
  unfold udpInput
  cases found : udpPcbSelect s dst.addr dst.port with
  | none => exact tidy
  | some i =>
      have opened := (udpPcbSelect_some found).1
      dsimp only
      split_ifs
      · exact tidy
      · exact ⟨tidy.threads, tidy.count, tidy.sane, tidy.distinct⟩
      · refine tidy.set (i := i) _ rfl ⟨fun free => ?_, fun _ => rfl, fun _ _ => rfl⟩ (tidy.same_end i rfl id)
        exact absurd (opened.symm.trans free) (by decide)

theorem event (tidy : Tidy s) : Tidy (eventHandler s) := by
  have state (k : PcbId) : ((eventHandler s).pcbs k).state = (s.pcbs k).state := by
    simp only [eventHandler]
    split_ifs <;> rfl
  have localEnd (k : PcbId) : ((eventHandler s).pcbs k).localEnd = (s.pcbs k).localEnd := by
    simp only [eventHandler]
    split_ifs <;> rfl
  constructor
  · exact tidy.threads
  · intro k
    rw [← show s.calls.countP (fun call => call.pcb = k) = (eventHandler s).calls.countP (fun call => call.pcb = k) from rfl, ← tidy.count k]
    simp only [eventHandler]
    split_ifs <;> rfl
  · intro k
    simp only [eventHandler]
    split_ifs with opened
    · exact ⟨fun free => absurd (opened.symm.trans free) (by decide), (tidy.sane k).data, (tidy.sane k).closing⟩
    · exact tidy.sane k
  · intro k m different first second bound
    rw [state] at first second
    rw [localEnd] at bound ⊢
    rw [localEnd]
    exact tidy.distinct k m different first second bound

theorem bind (tidy : Tidy s) {localEnd : Endpoint} (opened : (s.pcbs i).state = .opened)
    (absent : udpPcbSelect s localEnd.addr localEnd.port = none) : Tidy (s.setPcb i { s.pcbs i with localEnd }) := by
  refine tidy.set (i := i) s.pages rfl ⟨fun free => absurd (opened.symm.trans free) (by decide), (tidy.sane i).data,
    (tidy.sane i).closing⟩ fun _ _ j _ second same => ?_
  have same : localEnd = (s.pcbs j).localEnd := same
  exact udpPcbSelect_none absent second (Or.inr (by rw [same])) (by rw [same])

theorem assign (tidy : Tidy s) (opened : (s.pcbs i).state = .opened)
    (near : (s.pcbs i).localEnd.addr = ipAddrAny ∨ (s.pcbs i).localEnd.addr = addr) (absent : udpPcbSelect s addr port = none) :
    Tidy (s.setPcb i { s.pcbs i with localEnd := { (s.pcbs i).localEnd with port } }) := by
  refine tidy.set (i := i) s.pages rfl ⟨fun free => absurd (opened.symm.trans free) (by decide), (tidy.sane i).data,
    (tidy.sane i).closing⟩ fun _ _ j _ second same => ?_
  have same : ({ (s.pcbs i).localEnd with port } : Endpoint) = (s.pcbs j).localEnd := same
  have address : (s.pcbs i).localEnd.addr = (s.pcbs j).localEnd.addr := by rw [← same]
  have number : port = (s.pcbs j).localEnd.port := by rw [← same]
  rw [address] at near
  exact udpPcbSelect_none absent second near number.symm

/-- A round of the loop in `udp_recvfrom`. -/
theorem receive (tidy : Tidy s) (used : (s.pcbs call.pcb).state = .opened) (outside : call.thread ∉ s.calls.map Call.thread) :
    Tidy (receive s call).1 := by
  have sane := tidy.sane call.pcb
  unfold Udp.receive
  dsimp only
  cases queue : (s.pcbs call.pcb).queue with
  | cons entry rest =>
      refine tidy.set (i := call.pcb) _ rfl ⟨fun free => absurd (used.symm.trans free) (by decide), fun _ => ?_, sane.closing⟩
        (tidy.same_end call.pcb rfl id)
      exact sane.data (by rw [queue]; exact List.cons_ne_nil _ _)
  | nil =>
      dsimp only
      split_ifs with interrupted
      · exact tidy
      · refine tidy.change (i := call.pcb) s.pages ?_ ?_ (fun k away => ?_) ⟨fun free => absurd (used.symm.trans free) (by decide),
          fun some_data => absurd rfl some_data, fun closing => absurd (used.symm.trans closing) (by decide)⟩ (tidy.same_end call.pcb rfl id)
        · rw [List.map_append, List.nodup_append]
          refine ⟨tidy.threads, List.nodup_singleton _, fun thread listed last member same => ?_⟩
          rw [List.map_singleton, List.mem_singleton] at member
          exact outside (member ▸ same ▸ listed)
        · rw [List.countP_append, ← tidy.count, List.countP_singleton, if_pos (by simp)]
        · rw [List.countP_append, List.countP_singleton, if_neg (by simpa using Ne.symm away), Nat.add_zero]

/-- A call that goes on is no longer counted. -/
theorem leave (tidy : Tidy s) (listed : call ∈ s.calls) (interrupted : Bool) :
    Tidy { s.setPcb call.pcb { s.pcbs call.pcb with ctx := { (s.pcbs call.pcb).ctx with wc := (s.pcbs call.pcb).ctx.wc - 1, interrupted } } with
      calls := s.calls.erase call } := by
  have sane := tidy.sane call.pcb
  refine tidy.change (i := call.pcb) s.pages ?_ ?_ (fun k away => ?_) ⟨fun free => ?_, sane.data, fun closing waits => ?_⟩
    (tidy.same_end call.pcb rfl id)
  · exact tidy.threads.sublist ((List.erase_sublist).map _)
  · rw [List.countP_erase, if_pos ⟨listed, by simp⟩, ← tidy.count]
  · rw [List.countP_erase, if_neg fun both => away (of_decide_eq_true both.2).symm, Nat.sub_zero]
  · obtain ⟨empty, unbound, idle⟩ := sane.free free
    exact ⟨empty, unbound, by rw [idle]⟩
  · refine sane.closing closing fun idle => waits ?_
    rw [idle]

theorem left (tidy : Tidy s) (listed : call ∈ s.calls) : call.thread ∉ (s.calls.erase call).map Call.thread := by
  intro again
  obtain ⟨other, member, same⟩ := List.mem_map.mp again
  have one := List.inj_on_of_nodup_map tidy.threads (List.mem_of_mem_erase member) listed same
  subst one
  have unique : s.calls.Nodup := List.Nodup.of_map _ tidy.threads
  exact (List.Nodup.not_mem_erase unique) member

/-- A call sleeps on a socket that is open or closing. -/
theorem sleeping (tidy : Tidy s) (listed : call ∈ s.calls) : (s.pcbs call.pcb).ctx.wc ≠ 0 ∧ (s.pcbs call.pcb).state ≠ .free := by
  have some_call : (s.pcbs call.pcb).ctx.wc ≠ 0 := by
    rw [tidy.count]
    exact Nat.pos_iff_ne_zero.mp (List.countP_pos_iff.mpr ⟨call, listed, by simp⟩)
  exact ⟨some_call, fun free => some_call ((tidy.sane _).free free).2.2⟩

theorem wake (tidy : Tidy s) (listed : call ∈ s.calls) : Tidy (wake s call).1 := by
  unfold Udp.wake
  dsimp only
  split_ifs with interrupted closing
  · exact tidy.leave listed _
  · exact (tidy.leave listed _).release call.pcb
  · refine (tidy.leave listed _).receive ?_ (tidy.left listed)
    have used := (tidy.sleeping listed).2
    change ((s.setPcb call.pcb _).pcbs call.pcb).state = .opened
    rw [setPcb_self]
    cases state : (s.pcbs call.pcb).state with
    | free => exact absurd state used
    | opened => rfl
    | closing => exact absurd state closing

theorem step (tidy : Tidy s) {action : Action} {after : State} {events : List Event} (stepped : step s action = some (after, events)) :
    Tidy after := by
  have result {r : State × List Event} (same : r = (after, events)) (kept : Tidy r.1) : Tidy after := by rwa [same] at kept
  cases action with
  | opens =>
      refine result (Option.some.inj stepped) ?_
      unfold udpOpen udpPcbAlloc
      cases found : (List.finRange udpPcbSize).find? fun i => (s.pcbs i).state = .free with
      | none => exact tidy
      | some i => exact tidy.alloc (by simpa using List.find?_some found)
  | close id =>
      refine result (Option.some.inj stepped) ?_
      unfold udpClose
      cases udpPcbGet s id with
      | none => exact tidy
      | some i => exact tidy.release i
  | bind id localEnd =>
      refine result (Option.some.inj stepped) ?_
      unfold udpBind
      cases found : udpPcbGet s id with
      | none => exact tidy
      | some i =>
          dsimp only
          cases absent : udpPcbSelect s localEnd.addr localEnd.port with
          | none => exact tidy.bind (udpPcbGet_some.mp found).2 absent
          | some other => exact tidy
  | sendto id data foreignEnd iface =>
      refine result (Option.some.inj stepped) ?_
      unfold udpSendto
      cases found : udpPcbGet s id with
      | none => exact tidy
      | some i =>
          dsimp only
          split
          · exact tidy
          · rename_i addr chosen
            split_ifs with unbound
            · cases absent : dynamicPort s addr with
              | none => exact tidy
              | some port =>
                  have free : udpPcbSelect s addr port = none := by simpa using List.find?_some absent
                  refine tidy.assign (udpPcbGet_some.mp found).2 ?_ free
                  split_ifs at chosen with any
                  · exact Or.inl any
                  · exact Or.inr (Option.some.inj chosen)
            · exact tidy
  | recvfrom thread id size =>
      simp only [Udp.step] at stepped
      split_ifs at stepped with asleep
      refine result (Option.some.inj stepped) ?_
      unfold udpRecvfrom
      cases found : udpPcbGet s id with
      | none => exact tidy
      | some i => exact tidy.receive (udpPcbGet_some.mp found).2 asleep
  | wake thread timeout =>
      simp only [Udp.step] at stepped
      split at stepped
      · cases stepped
      · rename_i call found
        split_ifs at stepped
        exact result (Option.some.inj stepped) (tidy.wake (List.mem_of_find?_eq_some found))
  | input src dst data entryMemory queueMemory => exact result (Option.some.inj stepped) (tidy.input src dst data entryMemory queueMemory)
  | event => exact result (Option.some.inj stepped) tidy.event

end Tidy

end BtbuOs.Udp
