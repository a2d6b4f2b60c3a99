import BtbuOs.Lib.Bytes

namespace BtbuOs.Net

open Bytes

/-- The type `ip_addr_t`; its first byte in memory is the lowest one. -/
abbrev IpAddr := BitVec 32

def load16 (mem : Memory) (start : Nat) : BitVec 16 := BitVec.ofNat 16 (load mem start 2)

def load32 (mem : Memory) (start : Nat) : BitVec 32 := BitVec.ofNat 32 (load mem start 4)

def byteswap16 (v : BitVec 16) : BitVec 16 := (v &&& 0x00ff) <<< 8 ||| (v &&& 0xff00) >>> 8

def byteswap32 (v : BitVec 32) : BitVec 32 :=
  (v &&& 0x000000ff) <<< 24 ||| (v &&& 0x0000ff00) <<< 8 ||| (v &&& 0x00ff0000) >>> 8 ||| (v &&& 0xff000000) >>> 24

/-- The machine is little-endian. -/
def ntoh16 (n : BitVec 16) : BitVec 16 := byteswap16 n

def hton16 (h : BitVec 16) : BitVec 16 := byteswap16 h

def ntoh32 (n : BitVec 32) : BitVec 32 := byteswap32 n

def hton32 (h : BitVec 32) : BitVec 32 := byteswap32 h

/-- `struct timeval`. -/
structure Timeval where
  tvSec : Int
  tvUsec : Int
  deriving DecidableEq

def timersub (a b : Timeval) : Timeval :=
  if a.tvUsec - b.tvUsec < 0 then ⟨a.tvSec - b.tvSec - 1, a.tvUsec - b.tvUsec + 1000 * 1000⟩
  else ⟨a.tvSec - b.tvSec, a.tvUsec - b.tvUsec⟩

/-- The macro `timercmp` with the comparison `>`. -/
def timerLater (a b : Timeval) : Bool := if a.tvSec = b.tvSec then b.tvUsec < a.tvUsec else b.tvSec < a.tvSec

end BtbuOs.Net
