import BtbuOs.Lib.LongestMatch
import BtbuOs.Net.Route
import Mathlib.Data.BitVec
import Mathlib.Tactic.IntervalCases

namespace BtbuOs.Net

open Bytes Machine LongestMatch

/-- The interface of a call. -/
def Origin.iface : Origin → Nat
  | .subnet i => i
  | .gateway i _ => i

/-- The route that a call added, by the present address of its interface. -/
def routeOf (iface : Nat → IpIface) : Origin → IpRoute
  | .subnet i => ⟨(iface i).unicast &&& (iface i).netmask, (iface i).netmask, ipAddrAny, i⟩
  | .gateway i gw => ⟨ipAddrAny, ipAddrAny, gw, i⟩

/-- The netmask of a prefix with this length. -/
def HasLength (netmask : IpAddr) (length : Nat) : Prop := length ≤ 32 ∧ ntoh32 netmask = mask 32 length

def Contiguous (netmask : IpAddr) : Prop := ∃ length, HasLength netmask length

instance (netmask : IpAddr) : Decidable (Contiguous netmask) :=
  decidable_of_iff (∃ length ∈ List.range 33, ntoh32 netmask = mask 32 length)
    ⟨fun ⟨length, member, same⟩ => ⟨length, Nat.le_of_lt_succ (List.mem_range.mp member), same⟩,
      fun ⟨length, bound, same⟩ => ⟨length, List.mem_range.mpr (Nat.lt_succ_of_le bound), same⟩⟩

/-- The destination is in the present subnet of the interface. -/
def InSubnet (r : Routing) (i : Nat) (dst : IpAddr) : Prop :=
  dst &&& (r.iface i).netmask = (r.iface i).unicast &&& (r.iface i).netmask

/-- The gateway that was set last, with its interface. -/
def defaultGateway (history : List Origin) : Option (Nat × IpAddr) :=
  history.findSome? fun origin =>
    match origin with
    | .subnet _ => none
    | .gateway i gw => some (i, gw)

/-- A destination goes along the longest prefix that matches, directly inside a subnet and to the gateway elsewhere. -/
structure Routed (r : Routing) (dst : IpAddr) : Prop where
  missing : ipRouteLookup r.routes dst = none → ∀ route ∈ r.routes, route.fits dst = false
  longest : ∀ route, ipRouteLookup r.routes dst = some route → route ∈ r.routes ∧ route.fits dst = true ∧
    ∀ other ∈ r.routes, other.fits dst = true → ∀ j k, HasLength other.netmask j → HasLength route.netmask k → j ≤ k
  direct : ∀ i ∈ r.ifaces, InSubnet r i dst → ∃ route, ipRouteLookup r.routes dst = some route ∧ route.nexthop = ipAddrAny ∧
    route.iface ∈ r.ifaces ∧ InSubnet r route.iface dst ∧
    ∀ j k, HasLength (r.iface i).netmask j → HasLength (r.iface route.iface).netmask k → j ≤ k
  gateway : (∀ i ∈ r.ifaces, ¬InSubnet r i dst) → ∀ i gw, defaultGateway r.history = some (i, gw) →
    ∃ route, ipRouteLookup r.routes dst = some route ∧ route.iface = i ∧ route.nexthop = gw

/-- Every netmask that a call gives has its ones in front. -/
def OnPrefixes (_ : Routing) (_ : List RouteEvent) : RouteAction → Prop
  | .alloc _ netmask _ => ∀ m ∈ (ipAddrPton netmask).toList, Contiguous m
  | .reconfigure _ _ netmask => Contiguous netmask
  | _ => True

instance (r : Routing) (trace : List RouteEvent) (action : RouteAction) : Decidable (OnPrefixes r trace action) :=
  match action with
  | .alloc _ netmask _ => inferInstanceAs (Decidable (∀ m ∈ (ipAddrPton netmask).toList, Contiguous m))
  | .reconfigure _ _ netmask => inferInstanceAs (Decidable (Contiguous netmask))
  | .register _ _ _ => inferInstanceAs (Decidable True)
  | .setDefaultGateway _ _ _ => inferInstanceAs (Decidable True)

/-- A gateway was set after the interface was registered. -/
def shadowed (i : Nat) : List Origin → Bool
  | [] => false
  | .subnet _ :: rest => shadowed i rest
  | .gateway _ _ :: rest => rest.contains (.subnet i) || shadowed i rest

/-- The interface has a route to a gateway. -/
def hasGateway (i : Nat) (history : List Origin) : Bool :=
  history.any fun origin =>
    match origin with
    | .subnet _ => false
    | .gateway j _ => j = i

/-- The routes to gateways are left alone, and no empty prefix stands behind one of them. -/
def Steady (r : Routing) (trace : List RouteEvent) (action : RouteAction) : Prop :=
  OnPrefixes r trace action ∧
    match action with
    | .setDefaultGateway _ gateway memory =>
        (ipAddrPton gateway).isSome → memory = true → ∀ i ∈ r.ifaces, (r.iface i).netmask ≠ 0
    | .reconfigure i _ netmask => hasGateway i r.history = false ∧ (netmask = 0 → shadowed i r.history = false)
    | _ => True

instance (r : Routing) (trace : List RouteEvent) (action : RouteAction) : Decidable (Steady r trace action) :=
  match action with
  | .alloc _ _ _ => inferInstanceAs (Decidable (_ ∧ True))
  | .register _ _ _ => inferInstanceAs (Decidable (_ ∧ True))
  | .setDefaultGateway _ gateway memory =>
      inferInstanceAs (Decidable (_ ∧ ((ipAddrPton gateway).isSome → memory = true → ∀ i ∈ r.ifaces, (r.iface i).netmask ≠ 0)))
  | .reconfigure i _ netmask =>
      inferInstanceAs (Decidable (_ ∧ hasGateway i r.history = false ∧ (netmask = 0 → shadowed i r.history = false)))

/-- An older subnet with an empty prefix does not stand behind a gateway. -/
def InFront (iface : Nat → IpIface) (newer older : Origin) : Prop :=
  ∀ j gw i, newer = .gateway j gw → older = .subnet i → (iface i).netmask ≠ 0

/-- The routes are those of the calls, by the present addresses. -/
structure Recorded (r : Routing) : Prop where
  routes : r.routes = r.history.map (routeOf r.iface)
  prefixes : ∀ i, i < r.count → Contiguous (r.iface i).netmask
  known : ∀ origin ∈ r.history, origin.iface < r.count
  ordered : r.history.Pairwise (InFront r.iface)
  registered : ∀ i, i ∈ r.ifaces ↔ .subnet i ∈ r.history

variable {r after : Routing} {trace : List RouteEvent} {action : RouteAction} {dst : IpAddr} {route : IpRoute} {i j k : Nat} {gw : IpAddr}

theorem byteswap32_byteswap32 (v : BitVec 32) : byteswap32 (byteswap32 v) = v := by
  unfold byteswap32
  ext i inside
  simp only [BitVec.getElem_or, BitVec.getElem_and, BitVec.getElem_shiftLeft, BitVec.getElem_ushiftRight]
  interval_cases i <;> simp

theorem ntoh32_injective : Function.Injective ntoh32 :=
  Function.LeftInverse.injective byteswap32_byteswap32

/-- Only the empty prefix has no ones. -/
theorem netmask_eq_zero {netmask : IpAddr} (none : (ntoh32 netmask).toNat ≤ (ntoh32 ipAddrAny).toNat) : netmask = 0 := by
  apply ntoh32_injective
  apply BitVec.eq_of_toNat_eq
  have zero : (ntoh32 ipAddrAny).toNat = 0 := by decide
  rw [zero] at none
  rw [Nat.le_zero.mp none]
  exact zero.symm

/-- The key of a route orders the netmasks as numbers. -/
def prefixKey (route : IpRoute) : Nat := (ntoh32 route.netmask).toNat

theorem ipRouteLookup_eq_pick (routes : List IpRoute) (dst : IpAddr) :
    ipRouteLookup routes dst = pick (fun route => route.fits dst) prefixKey routes := by
  unfold ipRouteLookup pick
  congr 1
  funext candidate route
  rw [LongestMatch.round.eq_def]
  cases candidate with
  | none => rfl
  | some best => exact if_congr Iff.rfl (if_congr BitVec.lt_def rfl rfl) rfl

/-- Greater keys are longer prefixes. -/
theorem length_le (first second : IpRoute) (smaller : prefixKey first ≤ prefixKey second) (left : HasLength first.netmask j)
    (right : HasLength second.netmask k) : j ≤ k := by
  apply le_of_mask_le left.1
  rw [← left.2, ← right.2]
  exact smaller

/-- The route that is found comes from a call, with the calls behind which it stands and those in front of it. -/
theorem lookup_split (recorded : Recorded r) (found : ipRouteLookup r.routes dst = some route) :
    route.fits dst = true ∧ ∃ newer origin older, r.history = newer ++ origin :: older ∧ route = routeOf r.iface origin ∧
      (∀ o ∈ newer, (routeOf r.iface o).fits dst = true → prefixKey (routeOf r.iface o) < prefixKey route) ∧
      ∀ o ∈ older, (routeOf r.iface o).fits dst = true → prefixKey (routeOf r.iface o) ≤ prefixKey route := by
  rw [ipRouteLookup_eq_pick] at found
  obtain ⟨fit, before, behind, whole, smaller, bound⟩ := pick_split found
  rw [recorded.routes] at whole
  obtain ⟨newer, rest, split, first, last⟩ := List.map_eq_append_iff.mp whole
  obtain ⟨origin, older, parts, same, tail⟩ := List.map_eq_cons_iff.mp last
  refine ⟨fit, newer, origin, older, by rw [split, parts], same.symm, ?_, ?_⟩
  · intro o member
    exact smaller _ (first ▸ List.mem_map_of_mem member)
  · intro o member
    exact bound _ (tail ▸ List.mem_map_of_mem member)

/-- No route that fits has a greater key than the one found. -/
theorem lookup_greatest (recorded : Recorded r) (found : ipRouteLookup r.routes dst = some route) {origin : Origin}
    (member : origin ∈ r.history) (fit : (routeOf r.iface origin).fits dst = true) : prefixKey (routeOf r.iface origin) ≤ prefixKey route := by
  obtain ⟨-, newer, chosen, older, whole, same, smaller, bound⟩ := lookup_split recorded found
  rw [whole] at member
  rcases List.mem_append.mp member with front | rest
  · exact Nat.le_of_lt (smaller origin front fit)
  · rcases List.mem_cons.mp rest with own | behind
    · rw [own, same]
    · exact bound origin behind fit

theorem lookup_exists (recorded : Recorded r) {origin : Origin} (member : origin ∈ r.history) (fit : (routeOf r.iface origin).fits dst = true) :
    ∃ route, ipRouteLookup r.routes dst = some route := by
  cases found : ipRouteLookup r.routes dst with
  | none =>
      rw [ipRouteLookup_eq_pick, pick_eq_none_iff] at found
      have refused := found (routeOf r.iface origin) (by rw [recorded.routes]; exact List.mem_map_of_mem member)
      rw [fit] at refused
      cases refused
  | some route => exact ⟨route, rfl⟩

theorem fits_subnet_iff : (routeOf r.iface (.subnet i)).fits dst = true ↔ InSubnet r i dst := by
  rw [IpRoute.fits, InSubnet, routeOf]
  exact decide_eq_true_iff

theorem fits_gateway : (routeOf r.iface (.gateway i gw)).fits dst = true := by
  simp [routeOf, IpRoute.fits, ipAddrAny]

/-- Recorded routes are right for every destination. -/
theorem Recorded.routed (recorded : Recorded r) (dst : IpAddr) : Routed r dst := by
  constructor
  · intro none route member
    rw [ipRouteLookup_eq_pick, pick_eq_none_iff] at none
    exact none route member
  · intro route found
    obtain ⟨fit, newer, origin, older, whole, same, -, -⟩ := lookup_split recorded found
    refine ⟨?_, fit, ?_⟩
    · rw [recorded.routes, same, whole]
      exact List.mem_map_of_mem (List.mem_append_right _ (List.mem_cons_self ..))
    · intro other member fits j k left right
      rw [recorded.routes] at member
      obtain ⟨origin, known, rfl⟩ := List.mem_map.mp member
      exact length_le _ route (lookup_greatest recorded found known fits) left right
  · intro i registered inside
    have member := (recorded.registered i).mp registered
    have fit := fits_subnet_iff.mpr inside
    obtain ⟨route, found⟩ := lookup_exists recorded member fit
    obtain ⟨own, newer, origin, older, whole, same, smaller, -⟩ := lookup_split recorded found
    have greatest := lookup_greatest recorded found member fit
    have chosen : origin ∈ r.history := by
      rw [whole]
      exact List.mem_append_right _ (List.mem_cons_self ..)
    cases origin with
    | subnet j =>
        rw [same] at own greatest found
        refine ⟨routeOf r.iface (.subnet j), found, rfl, (recorded.registered j).mpr chosen, fits_subnet_iff.mp own, ?_⟩
        intro m n left right
        exact length_le (routeOf r.iface (.subnet i)) (routeOf r.iface (.subnet j)) greatest left right
    | gateway j gw =>
        rw [same] at greatest smaller
        have empty : (r.iface i).netmask = 0 := netmask_eq_zero greatest
        -- a subnet in front of the gateway would have been found
        rw [whole] at member
        rcases List.mem_append.mp member with front | rest
        · have same : prefixKey (routeOf r.iface (.subnet i)) = prefixKey (routeOf r.iface (.gateway j gw)) := by
            rw [prefixKey, routeOf, empty]
            rfl
          exact absurd (smaller _ front fit) (Nat.not_lt.mpr (Nat.le_of_eq same.symm))
        · rcases List.mem_cons.mp rest with other | behind
          · cases other
          · have ordered := recorded.ordered
            rw [whole] at ordered
            have front := List.rel_of_pairwise_cons (List.pairwise_append.mp ordered).2.1 behind
            exact absurd empty (front j gw i rfl rfl)
  · intro outside i gw set
    obtain ⟨origin, member, is⟩ := List.exists_of_findSome?_eq_some set
    have fit : (routeOf r.iface origin).fits dst = true := by
      cases origin with
      | subnet j => cases is
      | gateway j gw => exact fits_gateway
    obtain ⟨route, found⟩ := lookup_exists recorded member fit
    obtain ⟨own, newer, chosen, older, whole, same, smaller, -⟩ := lookup_split recorded found
    have known : chosen ∈ r.history := by
      rw [whole]
      exact List.mem_append_right _ (List.mem_cons_self ..)
    cases chosen with
    | subnet j =>
        rw [same] at own
        exact absurd (fits_subnet_iff.mp own) (outside j ((recorded.registered j).mpr known))
    | gateway j hop =>
        have first : defaultGateway newer = none := by
          apply List.findSome?_eq_none_iff.mpr
          intro o front
          cases o with
          | subnet k => rfl
          | gateway k other =>
              have less := smaller _ front fits_gateway
              rw [same] at less
              exact absurd less (Nat.lt_irrefl _)
        rw [whole, defaultGateway, List.findSome?_append] at set
        rw [defaultGateway] at first
        rw [first] at set
        cases set
        exact ⟨route, found, by rw [same]; rfl, by rw [same]; rfl⟩

/-- The subnets of the interfaces decide the routes. -/
theorem routeOf_congr {before after : Nat → IpIface} {origin : Origin} (unicast : (after origin.iface).unicast = (before origin.iface).unicast)
    (netmask : (after origin.iface).netmask = (before origin.iface).netmask) : routeOf after origin = routeOf before origin := by
  cases origin with
  | subnet i =>
      rw [Origin.iface] at unicast netmask
      rw [routeOf, routeOf, unicast, netmask]
  | gateway i gw => rfl

/-- An interface that no call has used may be set. -/
theorem Recorded.ipIfaceAlloc (recorded : Recorded r) (unicast netmask : List Byte) (memory : Bool)
    (good : ∀ m ∈ (ipAddrPton netmask).toList, Contiguous m) : Recorded (ipIfaceAlloc r unicast netmask memory).1 := by
  unfold Net.ipIfaceAlloc
  split
  · exact recorded
  · split
    · rename_i address prefixMask first second
      have apart (i : Nat) (old : i < r.count) : i ≠ r.count := Nat.ne_of_lt old
      constructor
      · dsimp only
        rw [recorded.routes]
        apply List.map_congr_left
        intro origin member
        have other := apart _ (recorded.known origin member)
        apply (routeOf_congr _ _).symm <;> rw [Function.update_of_ne other]
      · intro i below
        dsimp only at below ⊢
        by_cases new : i = r.count
        · rw [new, Function.update_self]
          exact good prefixMask (Option.mem_toList.mpr second)
        · rw [Function.update_of_ne new]
          exact recorded.prefixes i (by omega)
      · exact fun origin member => Nat.lt_succ_of_lt (recorded.known origin member)
      · apply recorded.ordered.imp_of_mem
        intro newer older _ member front j gw i gateway subnet
        have below := recorded.known older member
        rw [subnet] at below
        dsimp only
        rw [Function.update_of_ne (apart i below)]
        exact front j gw i gateway subnet
      · exact recorded.registered
    · exact recorded

/-- A device keeps the addresses of its interface. -/
theorem Recorded.netDeviceAddIface (recorded : Recorded r) (dev i : Nat) : Recorded (netDeviceAddIface r dev i).1 := by
  unfold Net.netDeviceAddIface
  split
  · exact recorded
  · have kept (j : Nat) : (Function.update r.iface i { r.iface i with dev := some dev } j).unicast = (r.iface j).unicast ∧
        (Function.update r.iface i { r.iface i with dev := some dev } j).netmask = (r.iface j).netmask := by
      by_cases own : j = i
      · rw [own, Function.update_self]
        exact ⟨rfl, rfl⟩
      · rw [Function.update_of_ne own]
        exact ⟨rfl, rfl⟩
    constructor
    · dsimp only
      rw [recorded.routes]
      apply List.map_congr_left
      intro origin _
      exact (routeOf_congr (kept _).1 (kept _).2).symm
    · intro j below
      rw [(kept j).2]
      exact recorded.prefixes j below
    · exact recorded.known
    · apply recorded.ordered.imp
      intro newer older front j gw k gateway subnet
      rw [(kept k).2]
      exact front j gw k gateway subnet
    · exact recorded.registered

theorem Recorded.ipIfaceRegister (recorded : Recorded r) {i : Nat} (exists_ : i < r.count) (dev : Nat) (memory : Bool) :
    Recorded (ipIfaceRegister r dev i memory).1 := by
  have added := recorded.netDeviceAddIface dev i
  have size : (Net.netDeviceAddIface r dev i).1.count = r.count := by
    unfold Net.netDeviceAddIface
    split <;> rfl
  unfold Net.ipIfaceRegister ipRouteAdd
  generalize Net.netDeviceAddIface r dev i = result at added size
  obtain ⟨mid, taken⟩ := result
  cases taken with
  | false => exact added
  | true =>
      cases memory with
      | false => exact added
      | true =>
          constructor
          · dsimp only
            rw [added.routes]
            rfl
          · exact added.prefixes
          · intro origin member
            rcases List.mem_cons.mp member with new | old
            · rw [new]
              exact size ▸ exists_
            · exact added.known origin old
          · refine List.pairwise_cons.mpr ⟨?_, added.ordered⟩
            intro older _ j gw k gateway
            cases gateway
          · intro j
            change j ∈ i :: mid.ifaces ↔ Origin.subnet j ∈ Origin.subnet i :: mid.history
            rw [List.mem_cons, List.mem_cons, added.registered j, Origin.subnet.injEq]

theorem Recorded.ipRouteSetDefaultGateway (recorded : Recorded r) {i : Nat} (exists_ : i < r.count) (gateway : List Byte) (memory : Bool)
    (masked : (ipAddrPton gateway).isSome → memory = true → ∀ i ∈ r.ifaces, (r.iface i).netmask ≠ 0) :
    Recorded (ipRouteSetDefaultGateway r i gateway memory).1 := by
  unfold Net.ipRouteSetDefaultGateway ipRouteAdd
  cases parsed : ipAddrPton gateway with
  | none => exact recorded
  | some gw =>
      cases memory with
      | false => exact recorded
      | true =>
          constructor
          · dsimp only
            rw [recorded.routes]
            rfl
          · exact recorded.prefixes
          · intro origin member
            rcases List.mem_cons.mp member with new | old
            · rw [new]
              exact exists_
            · exact recorded.known origin old
          · refine List.pairwise_cons.mpr ⟨?_, recorded.ordered⟩
            intro older member j hop k _ subnet
            exact masked (by rw [parsed]; rfl) rfl k ((recorded.registered k).mpr (subnet ▸ member))
          · intro j
            change j ∈ r.ifaces ↔ Origin.subnet j ∈ Origin.gateway i gw :: r.history
            rw [List.mem_cons, recorded.registered j]
            constructor
            · exact Or.inr
            · intro either
              rcases either with new | old
              · cases new
              · exact old

/-- Behind no gateway, a subnet may become empty. -/
theorem not_shadowed {history : List Origin} (clear : shadowed i history = false) :
    history.Pairwise fun newer older => ∀ j gw, newer = .gateway j gw → older ≠ .subnet i := by
  induction history with
  | nil => exact List.Pairwise.nil
  | cons origin rest ih =>
      cases origin with
      | subnet j =>
          rw [shadowed] at clear
          refine List.pairwise_cons.mpr ⟨?_, ih clear⟩
          intro older _ k gw gateway
          cases gateway
      | gateway j gw =>
          rw [shadowed, Bool.or_eq_false_iff] at clear
          refine List.pairwise_cons.mpr ⟨?_, ih clear.2⟩
          rintro older member k hop _ rfl
          rw [List.contains_iff_mem.mpr member] at clear
          cases clear.1

theorem Recorded.ipIfaceReconfigure (recorded : Recorded r) {unicast netmask : IpAddr} (good : Contiguous netmask)
    (free : hasGateway i r.history = false) (clear : netmask = 0 → shadowed i r.history = false) :
    Recorded (ipIfaceReconfigure r i unicast netmask) := by
  have others (j : Nat) (apart : j ≠ i) : (Net.ipIfaceReconfigure r i unicast netmask).iface j = r.iface j :=
    Function.update_of_ne apart _ _
  have own : ((Net.ipIfaceReconfigure r i unicast netmask).iface i).netmask = netmask := by
    change (Function.update r.iface i _ i).netmask = netmask
    rw [Function.update_self]
  constructor
  · unfold Net.ipIfaceReconfigure
    dsimp only
    rw [recorded.routes, List.map_map]
    apply List.map_congr_left
    intro origin member
    dsimp only [Function.comp_apply]
    cases origin with
    | subnet j =>
        by_cases same : j = i
        · rw [same, routeOf, if_pos rfl, routeOf, Function.update_self]
        · rw [routeOf, if_neg same, routeOf, Function.update_of_ne same]
    | gateway j gw =>
        have apart : j ≠ i := by
          intro same
          have refused := List.any_eq_false.mp free _ member
          simp [same] at refused
        rw [routeOf, if_neg apart]
        rfl
  · intro j below
    by_cases same : j = i
    · rw [same, own]
      exact good
    · rw [others j same]
      exact recorded.prefixes j below
  · exact recorded.known
  · have both : (Net.ipIfaceReconfigure r i unicast netmask).history = r.history := rfl
    rw [both]
    by_cases empty : netmask = 0
    · apply recorded.ordered.imp₂ _ (not_shadowed (clear empty))
      intro newer older front unshadowed j gw k gateway subnet
      have apart : k ≠ i := by
        rintro rfl
        exact unshadowed j gw gateway subnet
      rw [others k apart]
      exact front j gw k gateway subnet
    · apply recorded.ordered.imp
      intro newer older front j gw k gateway subnet
      by_cases same : k = i
      · rw [same, own]
        exact empty
      · rw [others k same]
        exact front j gw k gateway subnet
  · exact recorded.registered

theorem routeStep_recorded (recorded : Recorded r) {events : List RouteEvent} (steady : Steady r trace action)
    (stepped : routeStep r action = some (after, events)) : Recorded after := by
  cases action with
  | alloc unicast netmask memory =>
      cases stepped
      exact recorded.ipIfaceAlloc unicast netmask memory steady.1
  | register dev i memory =>
      obtain ⟨inside, done⟩ := Option.ite_none_right_eq_some.mp stepped
      cases done
      exact recorded.ipIfaceRegister inside dev memory
  | setDefaultGateway i gateway memory =>
      obtain ⟨inside, done⟩ := Option.ite_none_right_eq_some.mp stepped
      cases done
      exact recorded.ipRouteSetDefaultGateway inside.1 gateway memory steady.2
  | reconfigure i unicast netmask =>
      obtain ⟨-, done⟩ := Option.ite_none_right_eq_some.mp stepped
      cases done
      exact recorded.ipIfaceReconfigure steady.1 steady.2.1 steady.2.2

/-- While the routes to gateways are left alone, every destination is routed by the present configuration. -/
theorem routes_right (reached : Reaches routeStep Steady RouteInitial r trace) (dst : IpAddr) : Routed r dst := by
  have recorded : Recorded r := by
    apply reached.invariant fun r _ => Recorded r
    · rintro r ⟨count, -, ifaces, routes, history⟩
      constructor
      · rw [routes, history]
        rfl
      · intro i below
        omega
      · rw [history]
        exact fun origin member => absurd member List.not_mem_nil
      · rw [history]
        exact List.Pairwise.nil
      · intro i
        rw [ifaces, history]
        exact iff_of_false List.not_mem_nil List.not_mem_nil
    · intro r trace action after events recorded steady stepped
      exact routeStep_recorded recorded steady stepped
  exact recorded.routed dst

instance (r : Routing) (i : Nat) (dst : IpAddr) : Decidable (InSubnet r i dst) := inferInstanceAs (Decidable (_ = _))

def cstring (s : List Char) : List Byte := s.map fun c => BitVec.ofNat 8 c.toNat

def noRoutes : Routing := ⟨fun _ => ⟨none, 0, 0, 0⟩, 0, fun _ => none, [], [], []⟩

/-- The texts of the address and the netmask of the virtual machine, and of its gateway. -/
def guestUnicast : List Byte := cstring ['1', '0', '.', '0', '.', '2', '.', '1', '5']
def guestNetmask : List Byte := cstring ['2', '5', '5', '.', '2', '5', '5', '.', '2', '5', '5', '.', '0']
def guestGateway : List Byte := cstring ['1', '0', '.', '0', '.', '2', '.', '2']

theorem guestUnicast_pton : ipAddrPton guestUnicast = some 0x0f02000a := by decide +kernel

theorem guestNetmask_pton : ipAddrPton guestNetmask = some 0x00ffffff := by decide +kernel

/-- The virtual machine with its interface, which is not registered yet. -/
def guestRoutes : Routing :=
  { noRoutes with iface := Function.update noRoutes.iface 0 ⟨none, 0x0f02000a, 0x00ffffff, 0xff02000a⟩, count := 1 }

theorem guestRoutes_reached (guard : Routing → List RouteEvent → RouteAction → Prop)
    (allowed : guard noRoutes [] (.alloc guestUnicast guestNetmask true)) :
    Reaches routeStep guard RouteInitial guestRoutes [.allocated (some 0)] := by
  apply Reaches.next (.start (show RouteInitial noRoutes from ⟨rfl, rfl, rfl, rfl, rfl⟩)) allowed
  rw [routeStep, ipIfaceAlloc, guestUnicast_pton, guestNetmask_pton]
  rfl

theorem guestNetmask_contiguous : OnPrefixes noRoutes [] (.alloc guestUnicast guestNetmask true) := by
  intro m member
  rw [guestNetmask_pton] at member
  rw [List.mem_singleton.mp member]
  exact ⟨24, by decide, by decide⟩

/-- The interface moves to the network 10.0.0.0 before its gateway is set; then a distant host is reached through it. -/
theorem routes_right_run : ∃ r trace, Reaches routeStep Steady RouteInitial r trace ∧ Routed r 0x08080808 ∧
    defaultGateway r.history = some (0, 0x0202000a) := by
  obtain ⟨r, trace, reached, test⟩ := replay_extends [.register 0 0 true, .reconfigure 0 0x0100000a 0x000000ff, .setDefaultGateway 0 guestGateway true]
    (guestRoutes_reached Steady ⟨guestNetmask_contiguous, trivial⟩)
    (fun r _ => decide (defaultGateway r.history = some (0, 0x0202000a))) (by decide +kernel)
  exact ⟨r, trace, reached, routes_right reached _, of_decide_eq_true test⟩

/-- A change of the interface of the gateway, even to the address it has, takes the default route away. -/
theorem reconfigured_gateway_lost : ¬∀ r trace, Reaches routeStep OnPrefixes RouteInitial r trace → ∀ dst, Routed r dst := by
  intro claim
  obtain ⟨r, trace, reached, test⟩ := replay_extends [.register 0 0 true, .setDefaultGateway 0 guestGateway true, .reconfigure 0 0x0f02000a 0x00ffffff]
    (guestRoutes_reached OnPrefixes guestNetmask_contiguous)
    (fun r _ => decide (ipRouteLookup r.routes 0x08080808 = none ∧ (∀ i ∈ r.ifaces, ¬InSubnet r i 0x08080808) ∧
      defaultGateway r.history = some (0, 0x0202000a))) (by decide +kernel)
  obtain ⟨missing, outside, set⟩ := of_decide_eq_true test
  obtain ⟨route, found, -⟩ := (claim r trace reached 0x08080808).gateway outside 0 0x0202000a set
  rw [missing] at found
  cases found

end BtbuOs.Net
