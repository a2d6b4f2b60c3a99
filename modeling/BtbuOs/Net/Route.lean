import BtbuOs.Lib.Machine
import BtbuOs.Net.Util

namespace BtbuOs.Net

open Bytes

/-- The constant `IP_ADDR_ANY`. -/
def ipAddrAny : IpAddr := 0

def isDigit (c : Byte) : Bool := 48 ≤ c && c ≤ 57

/-- The loop over the digits of `strtol` in base 10. -/
def strtolDigits : List Byte → Int → Int × List Byte
  | [], val => (val, [])
  | c :: rest, val =>
      if isDigit c then strtolDigits rest ((val * 10 + (c.toNat - 48)).bmod (2 ^ 64)) else (val, c :: rest)

/-- The function `strtol` in base 10: its value, and the text from `endptr` on. -/
def strtol (s : List Byte) : Int × List Byte :=
  let s := s.dropWhile fun c => c = 32 || c = 9
  let neg := s.headD 0 = 45
  let (val, rest) := strtolDigits (if s.headD 0 = 43 ∨ neg then s.tail else s) 0
  (if neg then -val else val, rest)

/-- The loop of `ip_addr_pton` over the bytes that are left; a text ends with its list. -/
def ptonBytes : Nat → List Byte → Option (List Byte)
  | 0, _ => some []
  | left + 1, sp =>
      let (ret, ep) := strtol sp
      if ret < 0 ∨ 255 < ret then none
      else if ep.length = sp.length then none
      else if ep.headD 0 ≠ (if left = 0 then 0 else 46) then none
      else (ptonBytes left ep.tail).map fun bytes => BitVec.ofInt 8 ret :: bytes

def ipAddrPton (p : List Byte) : Option IpAddr := (ptonBytes 4 p).map fun bytes => load32 (fun k => bytes.getD k 0) 0

/-- The fields of `struct ip_iface`; every interface is of the family of IP. -/
structure IpIface where
  dev : Option Nat
  unicast : IpAddr
  netmask : IpAddr
  broadcast : IpAddr
  deriving DecidableEq

/-- `struct ip_route`, with the number of its interface. -/
structure IpRoute where
  network : IpAddr
  netmask : IpAddr
  nexthop : IpAddr
  iface : Nat
  deriving DecidableEq

/-- What a successful call added to the table of routes. -/
inductive Origin where
  | subnet (iface : Nat)
  | gateway (iface : Nat) (gw : IpAddr)
  deriving DecidableEq

/-- The interfaces, the one of each device, those that are registered, and the routes. The history has the calls that added
the routes, the last one first. -/
structure Routing where
  iface : Nat → IpIface
  count : Nat
  devIface : Nat → Option Nat
  ifaces : List Nat
  routes : List IpRoute
  history : List Origin

def ipRouteAdd (r : Routing) (network netmask nexthop : IpAddr) (iface : Nat) (memory : Bool) : Routing × Bool :=
  if memory then ({ r with routes := ⟨network, netmask, nexthop, iface⟩ :: r.routes }, true) else (r, false)

/-- The route has the destination in its network. -/
def IpRoute.fits (route : IpRoute) (dst : IpAddr) : Bool := dst &&& route.netmask = route.network

/-- The loop of `ip_route_lookup`. -/
def ipRouteLookup (routes : List IpRoute) (dst : IpAddr) : Option IpRoute :=
  routes.foldl (fun candidate route =>
    if route.fits dst then
      match candidate with
      | none => some route
      | some best => if ntoh32 best.netmask < ntoh32 route.netmask then some route else candidate
    else candidate) none

def ipRouteSetDefaultGateway (r : Routing) (iface : Nat) (gateway : List Byte) (memory : Bool) : Routing × Int :=
  match ipAddrPton gateway with
  | none => (r, -1)
  | some gw =>
      match ipRouteAdd r ipAddrAny ipAddrAny gw iface memory with
      | (r, false) => (r, -1)
      | (r, true) => ({ r with history := .gateway iface gw :: r.history }, 0)

/-- The number of the new interface is the next one. -/
def ipIfaceAlloc (r : Routing) (unicast netmask : List Byte) (memory : Bool) : Routing × Option Nat :=
  if !memory then (r, none)
  else
    match ipAddrPton unicast, ipAddrPton netmask with
    | some unicast, some netmask =>
        ({ r with
          iface := Function.update r.iface r.count ⟨none, unicast, netmask, (unicast &&& netmask) ||| ~~~netmask⟩
          count := r.count + 1 }, some r.count)
    | _, _ => (r, none)

/-- A device takes one interface of a family. -/
def netDeviceAddIface (r : Routing) (dev iface : Nat) : Routing × Bool :=
  match r.devIface dev with
  | some _ => (r, false)
  | none =>
      ({ r with
        devIface := Function.update r.devIface dev (some iface)
        iface := Function.update r.iface iface { r.iface iface with dev := some dev } }, true)

def ipIfaceRegister (r : Routing) (dev iface : Nat) (memory : Bool) : Routing × Int :=
  match netDeviceAddIface r dev iface with
  | (r, false) => (r, -1)
  | (r, true) =>
      match ipRouteAdd r ((r.iface iface).unicast &&& (r.iface iface).netmask) (r.iface iface).netmask ipAddrAny iface memory with
      | (r, false) => (r, -1)
      | (r, true) => ({ r with ifaces := iface :: r.ifaces, history := .subnet iface :: r.history }, 0)

/-- Every route of the interface becomes the one of its subnet, but keeps its next hop. -/
def ipIfaceReconfigure (r : Routing) (iface : Nat) (unicast netmask : IpAddr) : Routing :=
  { r with
    iface := Function.update r.iface iface
      { r.iface iface with unicast, netmask, broadcast := (unicast &&& netmask) ||| ~~~netmask }
    routes := r.routes.map fun route =>
      if route.iface = iface then { route with network := unicast &&& netmask, netmask } else route }

inductive RouteAction where
  | alloc (unicast netmask : List Byte) (memory : Bool)
  | register (dev iface : Nat) (memory : Bool)
  | setDefaultGateway (iface : Nat) (gateway : List Byte) (memory : Bool)
  | reconfigure (iface : Nat) (unicast netmask : IpAddr)
  deriving DecidableEq

/-- What a call returns. -/
inductive RouteEvent where
  | allocated (iface : Option Nat)
  | returned (value : Int)
  deriving DecidableEq

/-- The calls on interfaces that exist; the text for the log needs the device of the interface. -/
def routeStep (r : Routing) : RouteAction → Option (Routing × List RouteEvent)
  | .alloc unicast netmask memory =>
      let (after, iface) := ipIfaceAlloc r unicast netmask memory
      some (after, [.allocated iface])
  | .register dev iface memory =>
      if iface < r.count then
        let (after, value) := ipIfaceRegister r dev iface memory
        some (after, [.returned value])
      else none
  | .setDefaultGateway iface gateway memory =>
      if iface < r.count ∧ (r.iface iface).dev ≠ none then
        let (after, value) := ipRouteSetDefaultGateway r iface gateway memory
        some (after, [.returned value])
      else none
  | .reconfigure iface unicast netmask =>
      if iface < r.count then some (ipIfaceReconfigure r iface unicast netmask, [.returned 0]) else none

/-- There are no interfaces and no routes at the start. -/
def RouteInitial (r : Routing) : Prop := r.count = 0 ∧ r.devIface = (fun _ => none) ∧ r.ifaces = [] ∧ r.routes = [] ∧ r.history = []

end BtbuOs.Net
