import BtbuOs.Lib.Machine
import BtbuOs.Net.Util
import Mathlib.Data.List.FinRange

namespace BtbuOs.Net

open Bytes

/-- The macro `ETHER_ADDR_LEN`. -/
abbrev etherAddrLen : Nat := 6

abbrev HwAddr := Vector Byte etherAddrLen

/-- The macros `ARP_HRD_ETHER`, `ARP_PRO_IP` and `IP_ADDR_LEN`. -/
def arpHrdEther : BitVec 16 := 0x0001
def arpProIp : BitVec 16 := 0x0800
def ipAddrLen : Nat := 4

/-- The macros `ARP_OP_REQUEST` and `ARP_OP_REPLY`. -/
def arpOpRequest : BitVec 16 := 1
def arpOpReply : BitVec 16 := 2

/-- The macro `ETHER_TYPE_ARP`. -/
def etherTypeArp : BitVec 16 := 0x0806

/-- The macro `ARP_CACHE_SIZE`. -/
abbrev arpCacheSize : Nat := 32

/-- The macro `ARP_CACHE_TIMEOUT`, in seconds. -/
def arpCacheTimeout : Int := 30

/-- The values of `ARP_CACHE_STATE_*`. -/
inductive ArpCacheState where
  | free | incomplete | resolved | static
  deriving DecidableEq

/-- `struct arp_cache`. -/
structure ArpCache where
  state : ArpCacheState
  pa : IpAddr
  ha : HwAddr
  timestamp : Timeval
  deriving DecidableEq

/-- The array `caches`. -/
abbrev Caches := Fin arpCacheSize → ArpCache

/-- An entry in memory that nothing was written to. -/
def ArpCache.zero : ArpCache where
  state := .free
  pa := 0
  ha := Vector.replicate etherAddrLen 0
  timestamp := ⟨0, 0⟩

def arpCacheDelete (caches : Caches) (i : Fin arpCacheSize) : Caches := Function.update caches i ArpCache.zero

/-- The entry that the loop of `arp_cache_alloc` finds when none is free. -/
def oldestCache (caches : Caches) : Option (Fin arpCacheSize) :=
  (List.finRange arpCacheSize).foldl (fun oldest entry =>
    match oldest with
    | none => some entry
    | some i => if timerLater (caches i).timestamp (caches entry).timestamp then some entry else some i) none

def arpCacheAlloc (caches : Caches) : Option (Fin arpCacheSize × Caches) :=
  match (List.finRange arpCacheSize).find? fun i => (caches i).state = .free with
  | some i => some (i, caches)
  | none => (oldestCache caches).map fun i => (i, arpCacheDelete caches i)

def arpCacheSelect (caches : Caches) (pa : IpAddr) : Option (Fin arpCacheSize) :=
  (List.finRange arpCacheSize).find? fun i => (caches i).state ≠ .free && (caches i).pa = pa

/-- The flag is false when no entry has the address. -/
def arpCacheUpdate (caches : Caches) (pa : IpAddr) (ha : HwAddr) (now : Timeval) : Caches × Bool :=
  match arpCacheSelect caches pa with
  | none => (caches, false)
  | some i => (Function.update caches i { caches i with state := .resolved, ha, timestamp := now }, true)

def arpCacheInsert (caches : Caches) (pa : IpAddr) (ha : HwAddr) (now : Timeval) : Caches :=
  match arpCacheAlloc caches with
  | none => caches
  | some (i, caches) => Function.update caches i { state := .resolved, pa, ha, timestamp := now }

/-- The values of `NET_DEVICE_TYPE_*`. -/
inductive DeviceType where
  | dummy | loopback | ethernet
  deriving DecidableEq

/-- What `arp.c` reads of `struct net_device`, and the address of its interface for IP. -/
structure ArpDevice where
  type : DeviceType
  addr : HwAddr
  broadcast : HwAddr
  unicast : Option IpAddr
  deriving DecidableEq

/-- `struct arp_ether_ip`; its fields for more than one byte are in network order. -/
structure ArpEtherIp where
  hrd : BitVec 16
  pro : BitVec 16
  hln : Nat
  pln : Nat
  op : BitVec 16
  sha : HwAddr
  spa : IpAddr
  tha : HwAddr
  tpa : IpAddr
  deriving DecidableEq

/-- The size of `struct arp_ether_ip`. -/
def arpEtherIpSize : Nat := 28

/-- The message in the bytes of a frame. -/
def readArp (data : Memory) : ArpEtherIp where
  hrd := load16 data 0
  pro := load16 data 2
  hln := (data 4).toNat
  pln := (data 5).toNat
  op := load16 data 6
  sha := Vector.ofFn fun k => data (8 + k)
  spa := load32 data 14
  tha := Vector.ofFn fun k => data (18 + k)
  tpa := load32 data 24

/-- The values of `ARP_RESOLVE_*`. -/
inductive ArpResolve where
  | error | incomplete | found (ha : HwAddr)
  deriving DecidableEq

/-- What the calls hear of their senders, what they hand to `net_device_output`, and what `arp_resolve` returns. -/
inductive ArpEvent where
  | heard (spa : IpAddr) (sha : HwAddr)
  | output (type : BitVec 16) (message : ArpEtherIp) (dst : HwAddr)
  | resolved (pa : IpAddr) (result : ArpResolve)
  deriving DecidableEq

def arpRequest (dev : ArpDevice) (unicast tpa : IpAddr) : ArpEvent :=
  .output etherTypeArp {
    hrd := hton16 arpHrdEther, pro := hton16 arpProIp, hln := etherAddrLen, pln := ipAddrLen, op := hton16 arpOpRequest
    sha := dev.addr, spa := unicast, tha := Vector.replicate etherAddrLen 0, tpa } dev.broadcast

def arpReply (dev : ArpDevice) (unicast : IpAddr) (tha : HwAddr) (tpa : IpAddr) (dst : HwAddr) : ArpEvent :=
  .output etherTypeArp {
    hrd := hton16 arpHrdEther, pro := hton16 arpProIp, hln := etherAddrLen, pln := ipAddrLen, op := hton16 arpOpReply
    sha := dev.addr, spa := unicast, tha, tpa } dst

/-- The checks of `arp_input`. -/
def arpValid (data : Memory) (len : Nat) : Bool :=
  let msg := readArp data
  !(len < arpEtherIpSize) && !(ntoh16 msg.hrd ≠ arpHrdEther || msg.hln ≠ etherAddrLen) &&
    !(ntoh16 msg.pro ≠ arpProIp || msg.pln ≠ ipAddrLen)

/-- The message is heard; the last clause of `arp_input` is for the messages to the interface. -/
def arpInput (caches : Caches) (data : Memory) (len : Nat) (dev : ArpDevice) (now : Timeval) : Caches × List ArpEvent :=
  if arpValid data len then
    let msg := readArp data
    let (caches, marge) := arpCacheUpdate caches msg.spa msg.sha now
    match dev.unicast with
    | none => (caches, [.heard msg.spa msg.sha])
    | some unicast =>
        if unicast = msg.tpa then
          (if marge then caches else arpCacheInsert caches msg.spa msg.sha now,
            .heard msg.spa msg.sha :: if ntoh16 msg.op = arpOpRequest then [arpReply dev unicast msg.sha msg.spa msg.sha] else [])
        else (caches, [.heard msg.spa msg.sha])
  else (caches, [])

/-- `struct net_iface`: its device, its family and its address. -/
structure ArpIface where
  dev : ArpDevice
  familyIp : Bool
  unicast : IpAddr
  deriving DecidableEq

def arpResolve (caches : Caches) (iface : ArpIface) (pa : IpAddr) (now : Timeval) : Caches × List ArpEvent :=
  if iface.dev.type ≠ .ethernet then (caches, [.resolved pa .error])
  else if !iface.familyIp then (caches, [.resolved pa .error])
  else
    match arpCacheSelect caches pa with
    | none =>
        match arpCacheAlloc caches with
        | none => (caches, [.resolved pa .error])
        | some (i, caches) =>
            (Function.update caches i { caches i with state := .incomplete, pa, timestamp := now },
              [arpRequest iface.dev iface.unicast pa, .resolved pa .incomplete])
    | some i =>
        if (caches i).state = .incomplete then (caches, [arpRequest iface.dev iface.unicast pa, .resolved pa .incomplete])
        else (caches, [.resolved pa (.found (caches i).ha)])

/-- The entries that `arp_timer_handler` deletes. -/
def arpExpired (entry : ArpCache) (now : Timeval) : Bool :=
  entry.state ≠ .free && entry.state ≠ .static && arpCacheTimeout < (timersub now entry.timestamp).tvSec

def arpTimerHandler (caches : Caches) (now : Timeval) : Caches :=
  (List.finRange arpCacheSize).foldl (fun caches i => if arpExpired (caches i) now then arpCacheDelete caches i else caches) caches

inductive ArpAction where
  | input (data : Memory) (len : Nat) (dev : ArpDevice) (now : Timeval)
  | resolve (iface : ArpIface) (pa : IpAddr) (now : Timeval)
  | timer (now : Timeval)

/-- The calls take place one after the other. -/
def arpStep (caches : Caches) : ArpAction → Option (Caches × List ArpEvent)
  | .input data len dev now => some (arpInput caches data len dev now)
  | .resolve iface pa now => some (arpResolve caches iface pa now)
  | .timer now => some (arpTimerHandler caches now, [])

/-- No address is known at the start. -/
def ArpInitial (caches : Caches) : Prop := caches = fun _ => ArpCache.zero

end BtbuOs.Net
