import BtbuOs.Lib.Memo
import BtbuOs.Net.Arp

namespace BtbuOs.Net

open Bytes Machine Memo

/-- What an entry of the cache is for, and the address it would give. -/
def ArpCache.slot (entry : ArpCache) : Option (IpAddr × Option HwAddr) :=
  if entry.state = .free then none
  else if entry.state = .incomplete then some (entry.pa, none)
  else some (entry.pa, some entry.ha)

def slots (caches : Caches) : Table (Fin arpCacheSize) IpAddr HwAddr := fun i => (caches i).slot

/-- The senders of the valid messages. -/
def heard (trace : List ArpEvent) : List (IpAddr × HwAddr) :=
  trace.filterMap fun event =>
    match event with
    | .heard spa sha => some (spa, sha)
    | _ => none

/-- Every address that `arp_resolve` found is the one its owner sent last. -/
def Truthful (trace : List ArpEvent) : Prop :=
  ∀ before after pa ha, trace = before ++ .resolved pa (.found ha) :: after → latest (heard before) pa = some ha

variable {caches after : Caches} {trace : List ArpEvent} {i : Fin arpCacheSize} {pa : IpAddr} {ha : HwAddr} {now : Timeval}

theorem slots_update (caches : Caches) (i : Fin arpCacheSize) (entry : ArpCache) :
    slots (Function.update caches i entry) = Function.update (slots caches) i entry.slot := by
  funext j
  rw [slots]
  by_cases own : j = i
  · rw [own, Function.update_self, Function.update_self]
  · rw [Function.update_of_ne own, Function.update_of_ne own, slots]

/-- A slot is empty exactly when its entry is free. -/
theorem slot_eq_none_iff (entry : ArpCache) : entry.slot = none ↔ entry.state = .free := by
  rw [ArpCache.slot]
  split
  · rename_i free
    exact ⟨fun _ => free, fun _ => rfl⟩
  · rename_i taken
    constructor
    · intro empty
      split at empty <;> cases empty
    · exact fun free => absurd free taken

theorem slot_key {entry : ArpCache} (taken : entry.state ≠ .free) : ∃ x, entry.slot = some (entry.pa, x) := by
  rw [ArpCache.slot, if_neg taken]
  split
  · exact ⟨none, rfl⟩
  · exact ⟨some entry.ha, rfl⟩

theorem slot_pa {entry : ArpCache} {x : Option HwAddr} (held : entry.slot = some (pa, x)) : entry.state ≠ .free ∧ entry.pa = pa := by
  have taken : entry.state ≠ .free := by
    intro free
    rw [(slot_eq_none_iff entry).mpr free] at held
    cases held
  obtain ⟨y, own⟩ := slot_key taken
  rw [own] at held
  cases held
  exact ⟨taken, rfl⟩

theorem arpCacheSelect_none (missing : arpCacheSelect caches pa = none) (i : Fin arpCacheSize) (x : Option HwAddr) :
    slots caches i ≠ some (pa, x) := by
  intro held
  obtain ⟨taken, own⟩ := slot_pa held
  have refused := List.find?_eq_none.mp missing i (List.mem_finRange i)
  simp [taken, own] at refused

theorem arpCacheSelect_some (found : arpCacheSelect caches pa = some i) : (caches i).state ≠ .free ∧ (caches i).pa = pa := by
  have chosen := List.find?_some found
  simpa using chosen

/-- An allocated entry is free, and at most one other entry made room for it. -/
theorem arpCacheAlloc_some (got : arpCacheAlloc caches = some (i, after)) :
    (after i).state = .free ∧ ∀ j, slots after j = slots caches j ∨ slots after j = none := by
  unfold arpCacheAlloc at got
  split at got
  · rename_i free
    cases got
    exact ⟨by simpa using List.find?_some free, fun j => Or.inl rfl⟩
  · obtain ⟨oldest, -, rest⟩ := Option.map_eq_some_iff.mp got
    cases rest
    refine ⟨by rw [arpCacheDelete, Function.update_self]; rfl, fun j => ?_⟩
    rw [arpCacheDelete, slots_update]
    by_cases own : j = i
    · rw [own, Function.update_self]
      exact Or.inr rfl
    · rw [Function.update_of_ne own]
      exact Or.inl rfl

section Messages

variable {reports : List (IpAddr × HwAddr)}

theorem arpCacheAlloc_absent (absent : ∀ j x, slots caches j ≠ some (pa, x)) (got : arpCacheAlloc caches = some (i, after)) (j : Fin arpCacheSize)
    (x : Option HwAddr) : slots after j ≠ some (pa, x) := by
  rcases (arpCacheAlloc_some got).2 j with same | gone
  · rw [same]
    exact absent j x
  · rw [gone]
    exact fun held => by cases held

/-- A message updates the entry of its sender, if there is one. -/
theorem arpCacheUpdate_consistent (sound : Consistent (slots caches) reports) (pa : IpAddr) (ha : HwAddr) (now : Timeval) :
    Consistent (slots (arpCacheUpdate caches pa ha now).1) (reports ++ [(pa, ha)]) ∧
      ((arpCacheUpdate caches pa ha now).2 = false →
        ∀ j x, slots (arpCacheUpdate caches pa ha now).1 j ≠ some (pa, x)) := by
  unfold arpCacheUpdate
  split
  · rename_i missing
    have absent := arpCacheSelect_none missing
    exact ⟨sound.ignore absent ha, fun _ => absent⟩
  · rename_i i found
    obtain ⟨taken, own⟩ := arpCacheSelect_some found
    obtain ⟨x, held⟩ := slot_key taken
    rw [own] at held
    rw [slots_update]
    constructor
    · have learned := sound.learn held ha
      rwa [show ({ caches i with state := .resolved, ha, timestamp := now } : ArpCache).slot = some (pa, some ha) by
        rw [← own]; rfl]
    · intro missed
      cases missed

/-- A sender without an entry gets one. -/
theorem arpCacheInsert_consistent (sound : Consistent (slots caches) (reports ++ [(pa, ha)]))
    (absent : ∀ j x, slots caches j ≠ some (pa, x)) (now : Timeval) :
    Consistent (slots (arpCacheInsert caches pa ha now)) (reports ++ [(pa, ha)]) := by
  unfold arpCacheInsert
  split
  · exact sound
  · rename_i i mid got
    have cleared : Consistent (slots mid) (reports ++ [(pa, ha)]) := sound.shrink (arpCacheAlloc_some got).2
    have gone := arpCacheAlloc_absent absent got
    rw [slots_update]
    apply cleared.place gone i
    intro value known
    cases known
    exact latest_append_self reports pa ha

/-- A valid message is one more report, and another message is none. -/
theorem arpInput_consistent (sound : Consistent (slots caches) reports) (data : Memory) (len : Nat) (dev : ArpDevice) (now : Timeval) :
    Consistent (slots (arpInput caches data len dev now).1) (reports ++ heard (arpInput caches data len dev now).2) := by
  obtain ⟨updated, missing⟩ := arpCacheUpdate_consistent sound (readArp data).spa (readArp data).sha now
  unfold arpInput
  split
  · dsimp only
    cases dev.unicast with
    | none => exact updated
    | some unicast =>
        dsimp only
        by_cases own : unicast = (readArp data).tpa
        · rw [if_pos own]
          have events : heard (.heard (readArp data).spa (readArp data).sha ::
              if ntoh16 (readArp data).op = arpOpRequest then
                [arpReply dev unicast (readArp data).sha (readArp data).spa (readArp data).sha] else []) =
              [((readArp data).spa, (readArp data).sha)] := by
            split <;> rfl
          rw [events]
          split
          · exact updated
          · rename_i marge
            exact arpCacheInsert_consistent updated (missing (by simpa using marge)) now
        · rw [if_neg own]
          exact updated
  · rw [show heard [] = [] from rfl, List.append_nil]
    exact sound

/-- A message answers no call. -/
theorem arpInput_silent (caches : Caches) (data : Memory) (len : Nat) (dev : ArpDevice) (now : Timeval) (pa : IpAddr) (result : ArpResolve) :
    .resolved pa result ∉ (arpInput caches data len dev now).2 := by
  unfold arpInput
  split
  · dsimp only
    cases dev.unicast with
    | none => simp
    | some unicast =>
        dsimp only
        split
        · split <;> simp [arpReply]
        · simp
  · simp

/-- A call to `arp_resolve` reports nothing, and what it finds was reported last. -/
theorem arpResolve_consistent (sound : Consistent (slots caches) reports) (iface : ArpIface) (pa : IpAddr) (now : Timeval) :
    Consistent (slots (arpResolve caches iface pa now).1) reports ∧ heard (arpResolve caches iface pa now).2 = [] ∧
      ∀ target ha, .resolved target (.found ha) ∈ (arpResolve caches iface pa now).2 → latest reports target = some ha := by
  unfold arpResolve
  split
  · exact ⟨sound, rfl, by simp⟩
  · split
    · exact ⟨sound, rfl, by simp⟩
    · split
      · rename_i missing
        have absent := arpCacheSelect_none missing
        split
        · exact ⟨sound, rfl, by simp⟩
        · rename_i i mid got
          have cleared : Consistent (slots mid) reports := sound.shrink (arpCacheAlloc_some got).2
          refine ⟨?_, rfl, by simp [arpRequest]⟩
          dsimp only
          rw [slots_update]
          exact cleared.place (arpCacheAlloc_absent absent got) i fun value known => by cases known
      · rename_i i found
        obtain ⟨taken, own⟩ := arpCacheSelect_some found
        split
        · exact ⟨sound, rfl, by simp [arpRequest]⟩
        · rename_i complete
          refine ⟨sound, rfl, ?_⟩
          intro target ha told
          simp only [List.mem_singleton, ArpEvent.resolved.injEq, ArpResolve.found.injEq] at told
          obtain ⟨rfl, rfl⟩ := told
          apply sound.fresh i
          rw [slots, ArpCache.slot, if_neg taken, if_neg complete, own]

/-- The timer only deletes entries. -/
theorem arpTimerHandler_shrinks (caches : Caches) (now : Timeval) (j : Fin arpCacheSize) :
    slots (arpTimerHandler caches now) j = slots caches j ∨ slots (arpTimerHandler caches now) j = none := by
  unfold arpTimerHandler
  generalize List.finRange arpCacheSize = entries
  induction entries generalizing caches with
  | nil => exact Or.inl rfl
  | cons i rest ih =>
      rw [List.foldl_cons]
      rcases ih (if arpExpired (caches i) now then arpCacheDelete caches i else caches) with same | gone
      · rw [same]
        split
        · rw [arpCacheDelete, slots_update]
          by_cases own : j = i
          · rw [own, Function.update_self]
            exact Or.inr rfl
          · rw [Function.update_of_ne own]
            exact Or.inl rfl
        · exact Or.inl rfl
      · exact Or.inr gone

end Messages

theorem heard_append (first second : List ArpEvent) : heard (first ++ second) = heard first ++ heard second := List.filterMap_append

/-- What is found after a truthful trace is told in the new events. -/
theorem Truthful.append (truthful : Truthful trace) {events : List ArpEvent}
    (news : ∀ before later pa ha, events = before ++ .resolved pa (.found ha) :: later → latest (heard (trace ++ before)) pa = some ha) :
    Truthful (trace ++ events) := by
  intro before later pa ha whole
  rcases List.append_eq_append_iff.mp whole with ⟨middle, first, second⟩ | ⟨middle, first, second⟩
  · rw [first]
    exact news middle later pa ha second
  · cases middle with
    | nil =>
        rw [List.append_nil] at first
        rw [← first, ← List.append_nil trace]
        exact news [] later pa ha second.symm
    | cons event rest =>
        obtain ⟨rfl, -⟩ := List.cons.inj second
        exact truthful before rest pa ha first

/-- What holds after every run: consistent entries, and answers that were true. -/
def Answered (caches : Caches) (trace : List ArpEvent) : Prop := Consistent (slots caches) (heard trace) ∧ Truthful trace

theorem arpStep_answered (caches : Caches) (trace : List ArpEvent) (action : ArpAction) (after : Caches) (events : List ArpEvent)
    (earlier : Answered caches trace) (stepped : arpStep caches action = some (after, events)) : Answered after (trace ++ events) := by
  obtain ⟨sound, truthful⟩ := earlier
  cases action with
  | input data len dev now =>
      have kept := arpInput_consistent sound data len dev now
      rw [arpStep, Option.some.injEq] at stepped
      rw [stepped] at kept
      refine ⟨by rwa [heard_append], truthful.append ?_⟩
      intro before later pa ha whole
      have answered : ArpEvent.resolved pa (.found ha) ∈ (arpInput caches data len dev now).2 := by
        rw [stepped, whole]
        exact List.mem_append_right _ (List.mem_cons_self ..)
      exact absurd answered (arpInput_silent caches data len dev now pa (.found ha))
  | resolve iface pa now =>
      obtain ⟨kept, silent, told⟩ := arpResolve_consistent sound iface pa now
      rw [arpStep, Option.some.injEq] at stepped
      rw [stepped] at kept silent told
      refine ⟨by rwa [heard_append, silent, List.append_nil], truthful.append ?_⟩
      intro before later target ha whole
      have quiet : heard before = [] := by
        rw [whole, heard_append] at silent
        exact (List.append_eq_nil_iff.mp silent).1
      rw [heard_append, quiet, List.append_nil]
      apply told
      rw [whole]
      exact List.mem_append_right _ (List.mem_cons_self ..)
  | timer now =>
      rw [arpStep, Option.some.injEq, Prod.mk.injEq] at stepped
      obtain ⟨rfl, rfl⟩ := stepped
      rw [List.append_nil]
      exact ⟨sound.shrink (arpTimerHandler_shrinks caches now), truthful⟩

/-- In every reachable state an address has at most one entry, and `arp_resolve` finds what its owner sent last. -/
theorem arp_cache_consistent (reached : Reaches arpStep (fun _ _ _ => True) ArpInitial caches trace) :
    (∀ i j, (caches i).state ≠ .free → (caches j).state ≠ .free → (caches i).pa = (caches j).pa → i = j) ∧
      ∀ before later pa ha, trace = before ++ .resolved pa (.found ha) :: later → latest (heard before) pa = some ha := by
  have answered : Answered caches trace := by
    apply reached.invariant Answered
    · rintro caches rfl
      exact ⟨Consistent.empty [], fun before later pa ha whole => by cases before <;> cases whole⟩
    · intro caches trace action after events earlier _ stepped
      exact arpStep_answered caches trace action after events earlier stepped
  refine ⟨?_, answered.2⟩
  intro i j first second shared
  obtain ⟨x, left⟩ := slot_key first
  obtain ⟨y, right⟩ := slot_key second
  rw [← shared] at right
  exact answered.1.distinct i j (caches i).pa x y left right

/-- The device of the virtual machine, whose gateway is 10.0.2.2. -/
def guestDevice : ArpDevice where
  type := .ethernet
  addr := #v[0x52, 0x54, 0x00, 0x12, 0x34, 0x56]
  broadcast := Vector.replicate etherAddrLen 0xff
  unicast := some 0x0f02000a

def gatewayAddr : IpAddr := 0x0202000a

def gatewayHa : HwAddr := #v[0x52, 0x55, 0x0a, 0x00, 0x02, 0x02]

/-- The reply of the gateway. -/
def gatewayReply : Memory := fun k =>
  [0x00, 0x01, 0x08, 0x00, 6, 4, 0x00, 0x02, 0x52, 0x55, 0x0a, 0x00, 0x02, 0x02, 10, 0, 2, 2,
    0x52, 0x54, 0x00, 0x12, 0x34, 0x56, 10, 0, 2, 15].getD k (0 : Byte)

/-- The address of the gateway is asked for, told and found. -/
theorem arp_cache_consistent_run : ∃ caches before, Reaches arpStep (fun _ _ _ => True) ArpInitial caches
      (before ++ [.resolved gatewayAddr (.found gatewayHa)]) ∧ latest (heard before) gatewayAddr = some gatewayHa := by
  obtain ⟨caches, trace, reached, test⟩ := replay_witness arpStep (fun _ _ _ => True) ArpInitial
    [.resolve ⟨guestDevice, true, 0x0f02000a⟩ gatewayAddr ⟨1, 0⟩, .input gatewayReply 28 guestDevice ⟨1, 20⟩,
      .resolve ⟨guestDevice, true, 0x0f02000a⟩ gatewayAddr ⟨2, 0⟩]
    (fun _ => ArpCache.zero) rfl
    (fun _ trace => decide (trace = trace.dropLast ++ [.resolved gatewayAddr (.found gatewayHa)])) (by decide +kernel)
  have whole := of_decide_eq_true test
  have told := (arp_cache_consistent reached).2 trace.dropLast [] gatewayAddr gatewayHa whole
  rw [whole] at reached
  exact ⟨caches, trace.dropLast, reached, told⟩

end BtbuOs.Net
