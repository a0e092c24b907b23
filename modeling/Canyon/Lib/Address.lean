import Mathlib.Algebra.Group.Nat.Defs
import Mathlib.Tactic.Common

/-!
# Addresses of the machine

Virtual addresses have 48 bits, sign extended, and physical ones 52. Making an address from a
number extends or checks it; inside one half of the virtual space it is the number itself. A page
is named by its number, a byte of it by the number and an offset below `0x1000`.
-/

namespace Canyon.Lib

/-- `VirtAddr::new`: an address with bit 47 set and the bits above clear is extended, and one
that has other bits above bit 47 panics. -/
def virtAddrNew (address : Nat) : Option Nat :=
  if address / 0x8000_0000_0000 = 0 ∨ address / 0x8000_0000_0000 = 0x1ffff then some address
  else if address / 0x8000_0000_0000 = 1 then some (address + 0xffff_0000_0000_0000)
  else none

/-- `PhysAddr::new`, which panics above 52 bits. -/
def physAddrNew (address : Nat) : Option Nat :=
  if address < 0x10_0000_0000_0000 then some address else none

/-- `align_up` to a page, which panics when the boundary is beyond 64 bits. -/
def alignUp (address : Nat) : Option Nat :=
  if address % 0x1000 = 0 then some address
  else if 0x1000 * (address / 0x1000 + 1) < 2 ^ 64 then some (0x1000 * (address / 0x1000 + 1))
  else none

/-- The numbers from `low` to `high` are virtual addresses of one half. -/
def Canonical (low high : Nat) : Prop :=
  high < 0x8000_0000_0000 ∨ 0xffff_8000_0000_0000 ≤ low ∧ high < 2 ^ 64

/-- An address of one half is made as it is. -/
theorem Canonical.virtAddrNew_eq {low high address : Nat} (canonical : Canonical low high)
    (above : low ≤ address) (below : address ≤ high) :
    virtAddrNew address = some address := by
  have half : address / 0x8000_0000_0000 = 0 ∨ address / 0x8000_0000_0000 = 0x1ffff := by
    unfold Canonical at canonical
    omega
  rw [virtAddrNew, if_pos half]

/-- A physical address is made as it is. -/
theorem physAddrNew_eq {address : Nat} (small : address < 0x10_0000_0000_0000) :
    physAddrNew address = some address :=
  if_pos small

/-- The boundary at or above an address, when it is an address itself. -/
theorem alignUp_eq {address : Nat} (room : address + 0x1000 ≤ 2 ^ 64) :
    alignUp address = some (0x1000 * ((address + 0xfff) / 0x1000)) := by
  unfold alignUp
  split
  · next aligned =>
    congr 1
    omega
  · next unaligned =>
    have next : (address + 0xfff) / 0x1000 = address / 0x1000 + 1 := by omega
    rw [if_pos (by omega), next]

end Canyon.Lib
