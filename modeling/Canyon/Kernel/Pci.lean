import Canyon.Lib.Lists
import Mathlib.Data.List.Nodup
import Mathlib.Data.Finset.Card
import Mathlib.Order.Interval.Finset.Nat

/-!
# The capability walk

`enable` follows the list of capabilities in the configuration space of a device and gives an
interrupt number to each MSI capability. The space is what the device answers: the walk reads the
next pointer from it after it has written to it, and has no bound and no memory of where it was. It
ends after at most 255 capabilities unless it comes back to one, and it does not come back on a
list that leads to the null pointer and that its own writes leave alone.
-/

namespace Canyon.Kernel

open Canyon.Lib

namespace Pci

/-- What the build checks at run time. -/
structure Build where
  /-- The accesses assert that a doubleword is aligned. -/
  checksAlignment : Bool
  /-- Additions panic on overflow. -/
  checksOverflow : Bool
deriving DecidableEq, Repr

/-- How `enable` panics. -/
inductive PciPanic where
  /-- A doubleword is not aligned. -/
  | misaligned
  /-- `MSI_IRQ` or the number of the vector does not fit in 32 bits. -/
  | overflow
deriving DecidableEq, Repr

/-- The registers of a device by offset. -/
abbrev ConfigSpace := Nat → BitVec 8

/-- `PCI_COMMAND`. -/
def pciCommand : Nat := 0x04

/-- `PCI_CAP_PTR`. -/
def pciCapPtr : Nat := 0x34

/-- `PCI_MSI_CTRL_CAP`. -/
def pciMsiCtrlCap : Nat := 0x00

/-- `PCI_MSI_ADDR`. -/
def pciMsiAddr : Nat := 0x04

/-- `PCI_MSI_DATA_32`. -/
def pciMsiData32 : Nat := 0x08

/-- `PCI_MSI_DATA_64`. -/
def pciMsiData64 : Nat := 0x0C

/-- `PCI_CAP_ID_MSI`. -/
def pciCapIdMsi : BitVec 8 := 0x05

/-- `read8`: the offset is taken within the 256 registers. -/
def read8 (space : ConfigSpace) (offset : Nat) : BitVec 8 :=
  space (offset % 0x100)

/-- First register of the doubleword of an offset. -/
def dword (offset : Nat) : Nat :=
  4 * (offset % 0x100 / 4)

/-- The four registers from an offset on. -/
def word32 (space : ConfigSpace) (base : Nat) : BitVec 32 :=
  space (base + 3) ++ space (base + 2) ++ space (base + 1) ++ space base

/-- The space with the four registers from an offset on replaced. -/
def store32 (space : ConfigSpace) (base : Nat) (value : BitVec 32) : ConfigSpace :=
  fun offset => if base ≤ offset ∧ offset < base + 4 then value.extractLsb' (8 * (offset - base)) 8
    else space offset

/-- `read32`. -/
def read32 (build : Build) (space : ConfigSpace) (offset : Nat) :
    Except PciPanic (BitVec 32) :=
  if build.checksAlignment ∧ offset % 4 ≠ 0 then .error .misaligned
  else .ok (word32 space (dword offset))

/-- `write32`. -/
def write32 (build : Build) (space : ConfigSpace) (offset : Nat) (value : BitVec 32) :
    Except PciPanic ConfigSpace :=
  if build.checksAlignment ∧ offset % 4 ≠ 0 then .error .misaligned
  else .ok (store32 space (dword offset) value)

/-- Addition of `u32`s. -/
def addU32 (build : Build) (left right : Nat) : Except PciPanic Nat :=
  if build.checksOverflow ∧ 2 ^ 32 ≤ left + right then .error .overflow
  else .ok ((left + right) % 2 ^ 32)

/-- What is logged of a capability: where it is, its id and the interrupt that it was given. -/
structure Visit where
  /-- `cap_ptr`. -/
  capPtr : Nat
  /-- `cap_id`. -/
  capId : BitVec 8
  /-- `irq`, of an MSI capability. -/
  irq : Option Nat
deriving DecidableEq, Repr

/-- The variables of the loop. -/
structure Walk where
  /-- The registers of the device. -/
  space : ConfigSpace
  /-- `MSI_IRQ`. -/
  msiIrq : Nat
  /-- `msi_found`. -/
  msiFound : Bool
  /-- `assigned_irq`. -/
  assignedIrq : Option Nat
  /-- `cap_ptr`. -/
  capPtr : Nat
  /-- What was logged. -/
  visits : List Visit

namespace Walk

/-- The register that the interrupt's data goes to. -/
def dataOffset (ctrl : BitVec 32) : Nat :=
  if (ctrl >>> 16) &&& (1 <<< 7) ≠ 0 then pciMsiData64 else pciMsiData32

/-- What the loop does at an MSI capability. -/
def assign (build : Build) (walk : Walk) : Except PciPanic Walk := do
  let origCtrl ← read32 build walk.space (walk.capPtr + pciMsiCtrlCap)
  let space ← write32 build walk.space (walk.capPtr + pciMsiAddr) 0xfee00000
  let irq ← addU32 build walk.msiIrq 1
  let data ← addU32 build irq 32
  let space ← write32 build space (walk.capPtr + dataOffset origCtrl) (BitVec.ofNat 32 data)
  let space ← write32 build space (walk.capPtr + pciMsiCtrlCap) (origCtrl ||| 0x10000)
  .ok { walk with space := space, msiIrq := irq, msiFound := true, assignedIrq := some irq }

/-- The capability is an MSI capability. -/
def AtMsi (walk : Walk) : Prop :=
  read8 walk.space walk.capPtr = pciCapIdMsi

instance (walk : Walk) : Decidable walk.AtMsi :=
  inferInstanceAs (Decidable (_ = _))

/-- The capability is given its interrupt, if it is an MSI capability. -/
def serve (build : Build) (walk : Walk) : Except PciPanic Walk :=
  if walk.AtMsi then walk.assign build else .ok walk

/-- One round of the loop. -/
def step (build : Build) (walk : Walk) : Except PciPanic Walk := do
  let served ← walk.serve build
  let irq := if walk.AtMsi then served.assignedIrq else none
  .ok { served with
    visits := walk.visits ++ [⟨walk.capPtr, read8 walk.space walk.capPtr, irq⟩]
    capPtr := (read8 served.space (walk.capPtr + 1)).toNat }

/-- The loop, for a number of rounds; `none` when it has not ended then. -/
def run (build : Build) : Nat → Walk → Option (Except PciPanic Walk)
  | 0, _ => none
  | rounds + 1, walk =>
    if walk.capPtr = 0 then some (.ok walk)
    else match walk.step build with
      | .error panic => some (.error panic)
      | .ok next => next.run build rounds

/-- The variables when the loop begins. -/
def start (space : ConfigSpace) (msiIrq : Nat) : Walk :=
  ⟨space, msiIrq, false, none, (read8 space pciCapPtr).toNat, []⟩

end Walk

/-- The registers with these bits of the command register set. -/
def command (space : ConfigSpace) (bits : BitVec 16) (left : ConfigSpace) : ConfigSpace :=
  store32 left pciCommand (((word32 space pciCommand).setWidth 16 ||| bits).setWidth 32)

/-- The registers that the loop begins with. -/
def ready (space : ConfigSpace) : ConfigSpace := command space 0x40f space

/-- What `enable` returns and leaves. -/
structure Enabled where
  /-- The interrupt that is returned. -/
  irq : Option Nat
  /-- `MSI_IRQ`. -/
  msiIrq : Nat
  /-- The registers of the device. -/
  space : ConfigSpace

/-- `enable`, with as many rounds of the loop. -/
def enable (build : Build) (rounds : Nat) (space : ConfigSpace) (msiIrq : Nat) :
    Option (Except PciPanic Enabled) :=
  (Walk.run build rounds (Walk.start (ready space) msiIrq)).map fun outcome =>
    outcome.map fun walk =>
      ⟨walk.assignedIrq, walk.msiIrq,
        if walk.msiFound then walk.space else command space 0xf walk.space⟩

namespace Walk

variable {build : Build} {walk next served final : Walk}

/-! ## Where the walk has been -/

/-- Pointers of the capabilities that were visited. -/
def been (walk : Walk) : List Nat :=
  walk.visits.map Visit.capPtr

/-- The visits at which an interrupt number was assigned. -/
def numbered (walk : Walk) : List Visit :=
  walk.visits.filter fun visit => visit.irq.isSome

/-- States of the loop, from the first one on. -/
inductive Reaches (build : Build) (first : Walk) : Walk → Prop where
  /-- The loop begins. -/
  | begin : Reaches build first first
  /-- A round. -/
  | round {walk next : Walk} (reached : Reaches build first walk) (goesOn : walk.capPtr ≠ 0)
      (ran : walk.step build = .ok next) : Reaches build first next

/-- The walk never stands at a capability that it has visited. -/
def NeverReturns (build : Build) (first : Walk) : Prop :=
  ∀ walk, Reaches build first walk → walk.capPtr ∉ walk.been

/-- Serving a capability assigns the next number to an MSI capability and nothing to another. -/
theorem serve_ok (ran : walk.serve build = .ok served) :
    served.visits = walk.visits ∧
      (walk.AtMsi → served.msiIrq = (walk.msiIrq + 1) % 2 ^ 32 ∧
        served.assignedIrq = some served.msiIrq) ∧
      (¬ walk.AtMsi → served = walk) := by
  unfold serve at ran
  split at ran
  · next atMsi =>
    simp only [assign, bind_ok_iff] at ran
    obtain ⟨origCtrl, -, space, -, irq, added, data, -, space, -, space, -, same⟩ := ran
    obtain rfl := Except.ok.inj same
    unfold addU32 at added
    split at added
    · cases added
    · exact ⟨rfl, fun _ => ⟨(Except.ok.inj added).symm, rfl⟩, fun other => absurd atMsi other⟩
  · next other => exact ⟨(Except.ok.inj ran) ▸ rfl, fun atMsi => absurd atMsi other,
      fun _ => (Except.ok.inj ran).symm⟩

/-- A round visits one capability, at which it assigns one number if it is an MSI capability. -/
theorem step_ok (ran : walk.step build = .ok next) :
    next.been = walk.been ++ [walk.capPtr] ∧ next.capPtr < 0x100 ∧
      (walk.AtMsi → next.msiIrq = (walk.msiIrq + 1) % 2 ^ 32 ∧
        next.numbered = walk.numbered ++ [⟨walk.capPtr, pciCapIdMsi, some next.msiIrq⟩]) ∧
      (¬ walk.AtMsi → next.msiIrq = walk.msiIrq ∧ next.numbered = walk.numbered) := by
  unfold step at ran
  obtain ⟨served, ranServe, same⟩ := bind_ok_iff.mp ran
  obtain rfl := Except.ok.inj same
  obtain ⟨visits, atMsi, other⟩ := serve_ok ranServe
  refine ⟨?_, BitVec.isLt _, fun isMsi => ?_, fun isOther => ?_⟩
  · simp only [been, List.map_append, List.map_cons, List.map_nil]
  · obtain ⟨irq, assigned⟩ := atMsi isMsi
    have isId : read8 walk.space walk.capPtr = pciCapIdMsi := isMsi
    refine ⟨irq, ?_⟩
    simp only [numbered, if_pos isMsi, assigned, isId, List.filter_append, List.filter_cons,
      List.filter_nil, Option.isSome_some, if_true]
  · rw [other isOther]
    refine ⟨rfl, ?_⟩
    simp only [numbered, if_neg isOther, List.filter_append, List.filter_cons, List.filter_nil,
      Option.isSome_none, Bool.false_eq_true, if_false, List.append_nil]

/-- The walk has been at different capabilities, none of them null. -/
structure Sound (walk : Walk) : Prop where
  /-- The pointer is a byte. -/
  byte : walk.capPtr < 0x100
  /-- No capability was visited twice. -/
  nodup : walk.been.Nodup
  /-- No null pointer was followed. -/
  inside : ∀ pointer ∈ walk.been, 0 < pointer ∧ pointer < 0x100

/-- The loop begins soundly. -/
theorem sound_start (space : ConfigSpace) (msiIrq : Nat) : (start space msiIrq).Sound :=
  ⟨BitVec.isLt _, List.nodup_nil, fun _ isIn => absurd isIn List.not_mem_nil⟩

/-- A round at a capability that was not visited before keeps the walk sound. -/
theorem Sound.round (sound : walk.Sound) (ran : walk.step build = .ok next)
    (goesOn : walk.capPtr ≠ 0) (isNew : walk.capPtr ∉ walk.been) : next.Sound := by
  obtain ⟨been, byte, -, -⟩ := step_ok ran
  refine ⟨byte, ?_, ?_⟩
  · rw [been]
    exact List.nodup_append.mpr ⟨sound.nodup, List.nodup_singleton _,
      fun pointer isIn other isLast same =>
        isNew (List.mem_singleton.mp isLast ▸ same ▸ isIn)⟩
  · rw [been]
    intro pointer isIn
    rcases List.mem_append.mp isIn with before | isLast
    · exact sound.inside pointer before
    · obtain rfl := List.mem_singleton.mp isLast
      exact ⟨Nat.pos_of_ne_zero goesOn, sound.byte⟩

/-- There are 255 capabilities at most. -/
theorem Sound.length_le (sound : walk.Sound) : walk.been.length ≤ 255 := by
  have within : walk.been.toFinset ⊆ Finset.Ioo 0 0x100 := by
    intro pointer isIn
    exact Finset.mem_Ioo.mpr (sound.inside pointer (List.mem_toFinset.mp isIn))
  have bound := Finset.card_le_card within
  rw [List.toFinset_card_of_nodup sound.nodup, Nat.card_Ioo] at bound
  exact bound

/-- A walk that never returns to a capability ends. -/
theorem run_ne_none {first : Walk} (never : NeverReturns build first) {rounds : Nat}
    (reached : Reaches build first walk) (sound : walk.Sound)
    (enough : 255 < rounds + walk.been.length) : walk.run build rounds ≠ none := by
  induction rounds generalizing walk with
  | zero =>
    have := sound.length_le
    omega
  | succ rounds ih =>
    unfold run
    split
    · exact Option.some_ne_none _
    · next goesOn =>
      cases ran : walk.step build with
      | error panic => exact Option.some_ne_none _
      | ok next =>
        have length : next.been.length = walk.been.length + 1 := by
          rw [(step_ok ran).1, List.length_append, List.length_singleton]
        exact ih (.round reached goesOn ran) (sound.round ran goesOn (never walk reached))
          (by omega)

/-- The state in which the loop ends is one that it reaches. -/
theorem reaches_of_run {first : Walk} {rounds : Nat} (reached : Reaches build first walk)
    (ended : walk.run build rounds = some (.ok final)) : Reaches build first final := by
  induction rounds generalizing walk with
  | zero => cases ended
  | succ rounds ih =>
    unfold run at ended
    split at ended
    · obtain rfl := Except.ok.inj (Option.some.inj ended)
      exact reached
    · next goesOn =>
      cases ran : walk.step build with
      | error panic =>
        rw [ran] at ended
        cases Option.some.inj ended
      | ok next =>
        rw [ran] at ended
        exact ih (.round reached goesOn ran) ended

/-- A walk that never returns is sound throughout. -/
theorem NeverReturns.sound {first : Walk} (never : NeverReturns build first)
    (sound : first.Sound) (reached : Reaches build first walk) : walk.Sound := by
  induction reached with
  | begin => exact sound
  | round reached goesOn ran ih => exact ih.round ran goesOn (never _ reached)

/-- Every number was assigned at an MSI capability. -/
theorem Reaches.numbered_msi {space : ConfigSpace} {msiIrq : Nat}
    (reached : Reaches build (start space msiIrq) walk) :
    (∀ visit ∈ walk.numbered, visit.capId = pciCapIdMsi) ∧
      walk.msiIrq % 2 ^ 32 = (msiIrq + walk.numbered.length) % 2 ^ 32 := by
  induction reached with
  | begin => exact ⟨fun _ isIn => absurd isIn List.not_mem_nil, rfl⟩
  | @round walk next _ _ ran ih =>
    obtain ⟨-, -, atMsi, other⟩ := step_ok ran
    by_cases isMsi : walk.AtMsi
    · obtain ⟨irq, numbered⟩ := atMsi isMsi
      refine ⟨fun visit isIn => ?_, ?_⟩
      · rw [numbered] at isIn
        rcases List.mem_append.mp isIn with before | isLast
        · exact ih.1 visit before
        · rw [List.mem_singleton.mp isLast]
      · rw [numbered, List.length_append, List.length_singleton, irq]
        omega
    · obtain ⟨irq, numbered⟩ := other isMsi
      rw [irq, numbered]
      exact ih

end Walk

/-! ## Well-formed lists -/

/-- Next pointers lead from a pointer through these capabilities to the null pointer. -/
inductive Chain (space : ConfigSpace) : Nat → List Nat → Prop where
  /-- The null pointer ends the list. -/
  | null : Chain space 0 []
  /-- A capability, and the list from its next pointer on. -/
  | link {pointer : Nat} {rest : List Nat} (nonzero : pointer ≠ 0)
      (tail : Chain space (read8 space (pointer + 1)).toNat rest) :
      Chain space pointer (pointer :: rest)

/-- The registers of a capability that get the message's address and data. -/
def messageRegisters (space : ConfigSpace) (pointer : Nat) : List Nat :=
  [dword (pointer + pciMsiAddr), dword (pointer + Walk.dataOffset (word32 space pointer))]

/-- Capabilities at doublewords, none of which lies in the message registers of another. -/
structure Arranged (space : ConfigSpace) (pointers : List Nat) : Prop where
  /-- A capability begins with a doubleword. -/
  aligned : ∀ pointer ∈ pointers, pointer % 4 = 0
  /-- The walk does not write to where a capability begins. -/
  clear : ∀ pointer ∈ pointers, space pointer = pciCapIdMsi →
    ∀ other ∈ pointers, other ∉ messageRegisters space pointer

section Chains

variable {space after : ConfigSpace} {pointer : Nat} {rest : List Nat}

/-- The empty list begins with the null pointer. -/
theorem Chain.eq_zero (chain : Chain space pointer []) : pointer = 0 := by
  cases chain
  rfl

/-- A list begins with its pointer and goes on with the next one. -/
theorem Chain.unlink {first : Nat} (chain : Chain space pointer (first :: rest)) :
    first = pointer ∧ pointer ≠ 0 ∧ Chain space (read8 space (pointer + 1)).toNat rest := by
  cases chain with
  | link nonzero tail => exact ⟨rfl, nonzero, tail⟩

/-- The list from a pointer on is determined by the registers. -/
theorem Chain.unique {others : List Nat} (chain : Chain space pointer rest)
    (chain' : Chain space pointer others) : rest = others := by
  induction chain generalizing others with
  | null =>
    cases chain' with
    | null => rfl
    | link nonzero => exact absurd rfl nonzero
  | link nonzero _ ih =>
    cases chain' with
    | null => exact absurd rfl nonzero
    | link _ tail => rw [ih tail]

/-- From a capability of the list on there is a list that is not longer. -/
theorem Chain.exists_from {member : Nat} (chain : Chain space pointer rest)
    (isIn : member ∈ rest) : ∃ others, Chain space member others ∧ others.length ≤ rest.length := by
  induction chain with
  | null => cases isIn
  | @link pointer rest nonzero tail ih =>
    rcases List.mem_cons.mp isIn with rfl | later
    · exact ⟨_, .link nonzero tail, Nat.le_refl _⟩
    · obtain ⟨others, chain, shorter⟩ := ih later
      exact ⟨others, chain, Nat.le_succ_of_le shorter⟩

/-- A list that ends does not come back. -/
theorem Chain.nodup (chain : Chain space pointer rest) : rest.Nodup := by
  induction chain with
  | null => exact List.nodup_nil
  | @link pointer rest nonzero tail ih =>
    refine List.nodup_cons.mpr ⟨fun again => ?_, ih⟩
    obtain ⟨others, chain, shorter⟩ := tail.exists_from again
    have same := chain.unique (.link nonzero tail)
    rw [same, List.length_cons] at shorter
    omega

/-- Pointers of the list are bytes, and not null. -/
theorem Chain.inside (chain : Chain space pointer rest) (byte : pointer < 0x100) :
    ∀ member ∈ rest, member ≠ 0 ∧ member < 0x100 := by
  induction chain with
  | null => exact fun _ isIn => absurd isIn List.not_mem_nil
  | link nonzero _ ih =>
    intro member isIn
    rcases List.mem_cons.mp isIn with rfl | later
    · exact ⟨nonzero, byte⟩
    · exact ih (BitVec.isLt _) member later

/-- The list stays when the second registers of its capabilities do. -/
theorem Chain.congr (chain : Chain space pointer rest)
    (same : ∀ member ∈ rest, read8 after (member + 1) = read8 space (member + 1)) :
    Chain after pointer rest := by
  induction chain with
  | null => exact .null
  | link nonzero _ ih =>
    refine .link nonzero ?_
    rw [same _ List.mem_cons_self]
    exact ih fun member isIn => same member (List.mem_cons_of_mem _ isIn)

/-- Registers in the doublewords of the capabilities decide how these are arranged. -/
theorem Arranged.tail (arranged : Arranged space (pointer :: rest))
    (same : ∀ member ∈ rest, ∀ index < 4, after (member + index) = space (member + index)) :
    Arranged after rest := by
  refine ⟨fun member isIn => arranged.aligned _ (List.mem_cons_of_mem _ isIn), ?_⟩
  intro member isIn isMsi other otherIn
  have words : word32 after member = word32 space member := by
    unfold word32
    rw [same member isIn 1 (by omega), same member isIn 2 (by omega),
      same member isIn 3 (by omega), show after member = _ from same member isIn 0 (by omega)]
    rfl
  rw [messageRegisters, words]
  exact arranged.clear _ (List.mem_cons_of_mem _ isIn)
    ((same member isIn 0 (by omega)).symm.trans isMsi) _ (List.mem_cons_of_mem _ otherIn)

end Chains

/-- A store leaves the other doublewords alone. -/
theorem store32_of_ne {space : ConfigSpace} {base other index : Nat} {value : BitVec 32}
    (aligned : base % 4 = 0) (alsoAligned : other % 4 = 0) (different : other ≠ base)
    (below : index < 4) : store32 space base value (other + index) = space (other + index) :=
  if_neg (by omega)

/-- The control register is written back with a bit of its third register set, so that the next
pointer stays. -/
theorem next_of_control {space after : ConfigSpace} {base : Nat} :
    store32 after base (word32 space base ||| 0x10000) (base + 1) = space (base + 1) := by
  have clear : (0x10000#32).extractLsb' 8 8 = 0#8 := by decide
  have inside : base ≤ base + 1 ∧ base + 1 < base + 4 := by omega
  rw [store32, if_pos inside, Nat.add_sub_cancel_left]
  show (word32 space base ||| 0x10000#32).extractLsb' 8 8 = _
  rw [BitVec.extractLsb'_or, clear, BitVec.or_zero, word32,
    BitVec.extractLsb'_append_eq_of_le (by omega)]
  exact BitVec.extractLsb'_append_eq_right

section Accesses

variable {build : Build} {space : ConfigSpace} {offset left right : Nat} {value : BitVec 32}

/-- An aligned doubleword is read. -/
theorem read32_eq (aligned : offset % 4 = 0) :
    read32 build space offset = .ok (word32 space (dword offset)) :=
  if_neg fun ⟨_, unaligned⟩ => unaligned aligned

/-- An aligned doubleword is written. -/
theorem write32_eq (aligned : offset % 4 = 0) :
    write32 build space offset value = .ok (store32 space (dword offset) value) :=
  if_neg fun ⟨_, unaligned⟩ => unaligned aligned

/-- A sum of 32 bits. -/
theorem addU32_eq (fits : left + right < 2 ^ 32) :
    addU32 build left right = .ok (left + right) := by
  rw [addU32, if_neg (by omega), Nat.mod_eq_of_lt fits]

end Accesses

namespace Walk

variable {build : Build} {walk next served final : Walk} {rest : List Nat}

/-- The data goes to a doubleword. -/
theorem dataOffset_aligned (ctrl : BitVec 32) : dataOffset ctrl % 4 = 0 := by
  unfold dataOffset
  split <;> rfl

/-- At a doubleword, an MSI capability is given the next interrupt number. -/
theorem assign_eq (build : Build) (aligned : walk.capPtr % 4 = 0) (byte : walk.capPtr < 0x100)
    (room : walk.msiIrq + 33 < 2 ^ 32) : ∃ data, walk.assign build = .ok { walk with
      space := store32 (store32 (store32 walk.space (dword (walk.capPtr + pciMsiAddr)) 0xfee00000)
        (dword (walk.capPtr + dataOffset (word32 walk.space walk.capPtr))) data)
        walk.capPtr (word32 walk.space walk.capPtr ||| 0x10000)
      msiIrq := walk.msiIrq + 1
      msiFound := true
      assignedIrq := some (walk.msiIrq + 1) } := by
  have here : dword (walk.capPtr + pciMsiCtrlCap) = walk.capPtr := by
    unfold dword pciMsiCtrlCap
    omega
  have control : (walk.capPtr + pciMsiCtrlCap) % 4 = 0 := aligned
  have address : (walk.capPtr + pciMsiAddr) % 4 = 0 := by
    unfold pciMsiAddr
    omega
  have data := fun ctrl => show (walk.capPtr + dataOffset ctrl) % 4 = 0 by
    have := dataOffset_aligned ctrl
    omega
  have first : addU32 build walk.msiIrq 1 = .ok (walk.msiIrq + 1) := addU32_eq (by omega)
  have second : addU32 build (walk.msiIrq + 1) 32 = .ok (walk.msiIrq + 1 + 32) :=
    addU32_eq (by omega)
  refine ⟨BitVec.ofNat 32 (walk.msiIrq + 1 + 32), ?_⟩
  unfold assign
  simp only [read32_eq control, write32_eq address, first, second, write32_eq (data _),
    write32_eq control, here, ok_bind]

/-- A capability at a doubleword is served; what changes are its message registers, and a bit of
its control register. -/
theorem exists_serve (build : Build) (aligned : walk.capPtr % 4 = 0) (byte : walk.capPtr < 0x100)
    (room : walk.msiIrq + 33 < 2 ^ 32) :
    ∃ served, walk.serve build = .ok served ∧
      served.space (walk.capPtr + 1) = walk.space (walk.capPtr + 1) ∧
      ∀ other, other % 4 = 0 → other ≠ walk.capPtr →
        (walk.AtMsi → other ∉ messageRegisters walk.space walk.capPtr) →
        ∀ index < 4, served.space (other + index) = walk.space (other + index) := by
  by_cases atMsi : walk.AtMsi
  · obtain ⟨data, assigned⟩ := assign_eq build aligned byte room
    refine ⟨_, (if_pos atMsi).trans assigned, next_of_control, ?_⟩
    intro other alsoAligned different apart index below
    have outside := apart atMsi
    simp only [messageRegisters, List.mem_cons, List.not_mem_nil, or_false, not_or] at outside
    have isDword : ∀ offset, dword offset % 4 = 0 := fun offset => by
      unfold dword
      omega
    exact (store32_of_ne aligned alsoAligned different below).trans
      ((store32_of_ne (isDword _) alsoAligned outside.2 below).trans
        (store32_of_ne (isDword _) alsoAligned outside.1 below))
  · exact ⟨walk, if_neg atMsi, rfl, fun _ _ _ _ _ _ => rfl⟩

/-- A well-formed list is ahead of the walk, and there is a number for each of its capabilities. -/
structure Ahead (walk : Walk) (rest : List Nat) : Prop where
  /-- The next pointers lead through the list. -/
  chain : Chain walk.space walk.capPtr rest
  /-- The walk does not write to where its capabilities begin. -/
  arranged : Arranged walk.space rest
  /-- The pointer is a byte. -/
  byte : walk.capPtr < 0x100
  /-- The numbers and their vectors are `u32`s. -/
  room : walk.msiIrq + rest.length + 32 < 2 ^ 32

/-- The first capability of the list is served; the others stay as they are. -/
theorem Ahead.exists_serve (build : Build) {pointer : Nat} (ahead : walk.Ahead (pointer :: rest)) :
    ∃ served, walk.serve build = .ok served ∧
      served.space (walk.capPtr + 1) = walk.space (walk.capPtr + 1) ∧
      ∀ member ∈ rest, ∀ index < 4,
        served.space (member + index) = walk.space (member + index) := by
  obtain ⟨chain, arranged, byte, room⟩ := ahead
  have distinct := List.nodup_cons.mp chain.nodup
  obtain ⟨rfl, -, -⟩ := chain.unlink
  rw [List.length_cons] at room
  obtain ⟨served, ran, ownNext, others⟩ :=
    Walk.exists_serve build (arranged.aligned _ List.mem_cons_self) byte (by omega)
  refine ⟨served, ran, ownNext, fun member isIn => others member
    (arranged.aligned _ (List.mem_cons_of_mem _ isIn)) (fun equal => distinct.1 (equal ▸ isIn))
    fun atMsi => ?_⟩
  rw [AtMsi, read8, Nat.mod_eq_of_lt byte] at atMsi
  exact arranged.clear _ List.mem_cons_self atMsi _ (List.mem_cons_of_mem _ isIn)

/-- A round at the first capability of the list leaves the rest of it ahead. -/
theorem Ahead.exists_step (build : Build) {pointer : Nat} (ahead : walk.Ahead (pointer :: rest)) :
    ∃ next, walk.step build = .ok next ∧ next.Ahead rest ∧
      (∀ member ∈ rest, next.space member = walk.space member) ∧
      next.been = walk.been ++ [pointer] ∧
      next.numbered.map Visit.capPtr = walk.numbered.map Visit.capPtr ++
        [pointer].filter fun pointer => walk.space pointer = pciCapIdMsi := by
  obtain ⟨served, ran, ownNext, same⟩ := ahead.exists_serve build
  obtain ⟨chain, arranged, byte, room⟩ := ahead
  have bytes := chain.inside byte
  obtain ⟨rfl, -, tail⟩ := chain.unlink
  have within : ∀ member ∈ walk.capPtr :: rest, (member + 1) % 0x100 = member + 1 := by
    intro member isIn
    have small := (bytes member isIn).2
    have atDword := arranged.aligned member isIn
    omega
  have later : ∀ member ∈ rest, read8 served.space (member + 1) =
      read8 walk.space (member + 1) := by
    intro member isIn
    rw [read8, read8, within _ (List.mem_cons_of_mem _ isIn)]
    exact same member isIn 1 (by omega)
  obtain ⟨next, stepped, isSpace, isPointer⟩ : ∃ next, walk.step build = .ok next ∧
      next.space = served.space ∧ next.capPtr = (read8 served.space (walk.capPtr + 1)).toNat :=
    ⟨_, bind_ok_iff.mpr ⟨served, ran, rfl⟩, rfl, rfl⟩
  rw [← isSpace] at same later ownNext isPointer
  obtain ⟨been, nextByte, atMsi, other⟩ := step_ok stepped
  have isId : walk.AtMsi ↔ walk.space walk.capPtr = pciCapIdMsi := by
    rw [AtMsi, read8, Nat.mod_eq_of_lt byte]
  rw [List.length_cons] at room
  refine ⟨next, stepped, ⟨?_, arranged.tail same, nextByte, ?_⟩,
    fun member isIn => same member isIn 0 (by omega), been, ?_⟩
  · rw [isPointer, read8, within _ List.mem_cons_self, ownNext]
    rw [read8, within _ List.mem_cons_self] at tail
    exact tail.congr later
  · by_cases isMsi : walk.AtMsi
    · have := (atMsi isMsi).1
      have := Nat.mod_le (walk.msiIrq + 1) (2 ^ 32)
      omega
    · have := (other isMsi).1
      omega
  · by_cases isMsi : walk.AtMsi
    · rw [(atMsi isMsi).2, List.filter_cons_of_pos (by simpa using isId.mp isMsi), List.map_append]
      rfl
    · rw [(other isMsi).2, List.filter_cons_of_neg (by simpa using mt isId.mpr isMsi),
        List.filter_nil, List.append_nil]

/-- On a well-formed list the walk visits each capability once and ends, and it assigns one number
to each MSI capability. -/
theorem Ahead.run (ahead : walk.Ahead rest) :
    ∃ final, walk.run build (rest.length + 1) = some (.ok final) ∧
      final.been = walk.been ++ rest ∧
      final.numbered.map Visit.capPtr = walk.numbered.map Visit.capPtr ++
        rest.filter fun pointer => walk.space pointer = pciCapIdMsi := by
  induction rest generalizing walk with
  | nil =>
    refine ⟨walk, if_pos ahead.chain.eq_zero, ?_, ?_⟩
    · rw [List.append_nil]
    · rw [List.filter_nil, List.append_nil]
  | cons pointer rest ih =>
    obtain ⟨next, ran, nextAhead, ids, been, numbered⟩ := ahead.exists_step build
    obtain ⟨final, ended, beenFinal, numberedFinal⟩ := ih nextAhead
    obtain ⟨rfl, nonzero, -⟩ := ahead.chain.unlink
    have unfolded : walk.run build ((walk.capPtr :: rest).length + 1) =
        next.run build (rest.length + 1) := by
      rw [List.length_cons, Walk.run, if_neg nonzero, ran]
    have sameFilter : rest.filter (fun pointer => next.space pointer = pciCapIdMsi) =
        rest.filter fun pointer => walk.space pointer = pciCapIdMsi :=
      List.filter_congr fun member isIn => by rw [ids member isIn]
    refine ⟨final, unfolded.trans ended, ?_, ?_⟩
    · rw [beenFinal, been, List.append_assoc, List.singleton_append]
    · rw [numberedFinal, sameFilter, numbered, List.append_assoc, ← List.filter_append,
        List.singleton_append]

/-- Wherever the walk gets, what is left of a well-formed list is ahead. -/
theorem Ahead.reaches {first : Walk} {pointers : List Nat} (ahead : first.Ahead pointers)
    (reached : Reaches build first walk) :
    ∃ passed rest, pointers = passed ++ rest ∧ walk.been = first.been ++ passed ∧
      walk.Ahead rest := by
  induction reached with
  | begin => exact ⟨[], pointers, rfl, (List.append_nil _).symm, ahead⟩
  | @round walk next _ goesOn ran ih =>
    obtain ⟨passed, rest, rfl, been, aheadNow⟩ := ih
    cases rest with
    | nil => exact absurd aheadNow.chain.eq_zero goesOn
    | cons pointer rest =>
      obtain ⟨found, ranAgain, aheadNext, -, beenNext, -⟩ := aheadNow.exists_step build
      obtain rfl := Except.ok.inj (ran.symm.trans ranAgain)
      refine ⟨passed ++ [pointer], rest, ?_, ?_, aheadNext⟩
      · rw [List.append_assoc, List.singleton_append]
      · rw [beenNext, been, List.append_assoc]

/-- A walk does not come back on a well-formed list. -/
theorem Ahead.neverReturns {first : Walk} {pointers : List Nat} (ahead : first.Ahead pointers)
    (begins : first.been = []) : NeverReturns build first := by
  intro walk reached isBack
  obtain ⟨passed, rest, rfl, been, aheadNow⟩ := ahead.reaches reached
  rw [been, begins, List.nil_append] at isBack
  cases rest with
  | nil =>
    rw [aheadNow.chain.eq_zero] at isBack
    exact (ahead.chain.inside ahead.byte 0 (List.mem_append_left _ isBack)).1 rfl
  | cons pointer rest =>
    obtain ⟨rfl, -, -⟩ := aheadNow.chain.unlink
    exact (List.nodup_append.mp ahead.chain.nodup).2.2 _ isBack _ List.mem_cons_self rfl

end Walk

open Walk

/-- A walk that never returns to a capability ends after 255 of them at most, with at most one
number for each MSI capability. On a list that leads to the null pointer, whose capabilities begin
with doublewords outside of each other's message registers, it does not return, visits each
capability once and assigns one number to each MSI capability, as long as the numbers and their
vectors are `u32`s. `enable` ends when its walk does not return. -/
theorem capability_walk_ends (build : Build) (space : ConfigSpace) (msiIrq : Nat) :
    (NeverReturns build (start space msiIrq) →
      ∃ outcome, (start space msiIrq).run build 256 = some outcome ∧
        ∀ final, outcome = .ok final →
          (final.numbered.map Visit.capPtr).Nodup ∧
            ∀ visit ∈ final.numbered, visit.capId = pciCapIdMsi) ∧
    (∀ pointers, Chain space (read8 space pciCapPtr).toNat pointers → Arranged space pointers →
      msiIrq + pointers.length + 32 < 2 ^ 32 →
      NeverReturns build (start space msiIrq) ∧
      ∃ final, (start space msiIrq).run build (pointers.length + 1) = some (.ok final) ∧
        final.been = pointers ∧
        final.numbered.map Visit.capPtr =
          pointers.filter fun pointer => space pointer = pciCapIdMsi) ∧
    (NeverReturns build (start (ready space) msiIrq) →
      ∃ outcome, enable build 256 space msiIrq = some outcome) := by
  have ends : ∀ {registers : ConfigSpace}, NeverReturns build (start registers msiIrq) →
      ∃ outcome, (start registers msiIrq).run build 256 = some outcome := fun never =>
    Option.ne_none_iff_exists'.mp (run_ne_none never .begin (sound_start _ msiIrq) (by omega))
  refine ⟨fun never => ?_, fun pointers chain arranged room => ?_, fun never => ?_⟩
  · obtain ⟨outcome, ended⟩ := ends never
    refine ⟨outcome, ended, ?_⟩
    rintro final rfl
    have reached := reaches_of_run .begin ended
    constructor
    · have sublist : (final.numbered.map Visit.capPtr).Sublist final.been :=
        List.filter_sublist.map _
      exact sublist.nodup (never.sound (sound_start space msiIrq) reached).nodup
    · exact reached.numbered_msi.1
  · have ahead : (start space msiIrq).Ahead pointers := ⟨chain, arranged, BitVec.isLt _, room⟩
    exact ⟨ahead.neverReturns rfl, ahead.run⟩
  · obtain ⟨outcome, ended⟩ := ends never
    exact ⟨_, by rw [enable, ended, Option.map_some]⟩

/-- A device with an MSI capability at `0x40` and another capability at `0x50`. -/
def ordinary : ConfigSpace := fun offset =>
  match offset with
  | 0x34 => 0x40
  | 0x40 => pciCapIdMsi
  | 0x41 => 0x50
  | 0x50 => 1
  | _ => 0

/-- The walk over it ends after two capabilities, with one interrupt assigned; and `enable` ends. -/
theorem capability_walk_ends_ordinary :
    (∃ outcome, (start ordinary 23).run ⟨true, true⟩ 256 = some outcome) ∧
      (∃ final, (start ordinary 23).run ⟨true, true⟩ 3 = some (.ok final) ∧
        final.been = [0x40, 0x50] ∧ final.numbered.map Visit.capPtr = [0x40]) ∧
      ∃ outcome, enable ⟨true, true⟩ 256 ordinary 23 = some outcome := by
  have chain : Chain ordinary (read8 ordinary pciCapPtr).toNat [0x40, 0x50] :=
    .link (by decide) (.link (by decide) .null)
  have readyChain : Chain (ready ordinary) (read8 (ready ordinary) pciCapPtr).toNat [0x40, 0x50] :=
    .link (by decide) (.link (by decide) .null)
  obtain ⟨ends, walks, enables⟩ := capability_walk_ends ⟨true, true⟩ ordinary 23
  obtain ⟨never, visits⟩ := walks _ chain ⟨by decide, by decide⟩ (by decide)
  obtain ⟨outcome, ended, -⟩ := ends never
  obtain ⟨readyNever, -⟩ := (capability_walk_ends ⟨true, true⟩ (ready ordinary) 23).2.1 _ readyChain
    ⟨by decide, by decide⟩ (by decide)
  exact ⟨⟨outcome, ended⟩, visits, enables readyNever⟩

/-- `enable` returns on it. -/
theorem exists_enable_ordinary (build : Build) :
    ∃ enabled, enable build 3 ordinary 23 = some (.ok enabled) := by
  have chain : Chain (ready ordinary) (read8 (ready ordinary) pciCapPtr).toNat [0x40, 0x50] :=
    .link (by decide) (.link (by decide) .null)
  have ahead : (start (ready ordinary) 23).Ahead [0x40, 0x50] :=
    ⟨chain, ⟨by decide, by decide⟩, BitVec.isLt _, by decide⟩
  obtain ⟨final, ended, -⟩ := @Ahead.run build _ _ ahead
  exact ⟨_, congrArg (Option.map _) ended⟩

/-- A device with a capability that is its own successor. -/
def looped : ConfigSpace := fun offset =>
  match offset with
  | 0x34 => 0x40
  | 0x40 => 1
  | 0x41 => 0x40
  | _ => 0

/-- The walk stays at the capability. -/
theorem run_looped {walk : Walk} (rounds : Nat) (space : walk.space = looped)
    (here : walk.capPtr = 0x40) : walk.run ⟨true, true⟩ rounds = none := by
  induction rounds generalizing walk with
  | zero => rfl
  | succ rounds ih =>
    have other : ¬ walk.AtMsi := by
      rw [AtMsi, space, here]
      decide
    have served : walk.serve ⟨true, true⟩ = .ok walk := if_neg other
    unfold run
    rw [if_neg (by omega), step, served]
    refine ih space ?_
    show (read8 walk.space (walk.capPtr + 1)).toNat = 0x40
    rw [space, here]
    rfl

/-- A capability that is its own successor is visited for ever. -/
theorem looped_walk_endless :
    ¬ ∃ rounds outcome, (start looped 23).run ⟨true, true⟩ rounds = some outcome := by
  rintro ⟨rounds, outcome, ended⟩
  rw [run_looped rounds rfl rfl] at ended
  cases ended

end Pci

end Canyon.Kernel
