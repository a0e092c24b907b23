import Mathlib.Data.Fintype.Card
import Mathlib.Logic.Function.Basic

/-!
# Two updates of one register

Two parties each add an entry to a shared list, with no lock over the whole update: a party takes
its turns one by one, reads the list in its second turn and writes back what it read and its own
entry in its third. Whether both entries are in the list at the end depends on the order of the
turns alone: they are unless one party reads between the read and the write of the other.
-/

namespace Canyon.Lib

/-- The two parties. -/
inductive Side where
  | first
  | second
  deriving DecidableEq, Repr

namespace Side

instance : Fintype Side := ⟨{first, second}, by rintro (_ | _) <;> simp⟩

/-- The other party. -/
def other : Side → Side
  | first => second
  | second => first

/-- A party is not the other one. -/
@[simp] theorem other_ne (side : Side) : side.other ≠ side := by cases side <;> decide

/-- A party is this one or the other. -/
theorem eq_or_eq_other (one side : Side) : one = side ∨ one = side.other := by
  cases one <;> cases side <;> decide

end Side

/-- How far the parties are. -/
structure Turns where
  /-- Turns that a party has taken. -/
  taken : Side → Nat
  /-- A party read between the read and the write of the other. -/
  overlapped : Bool

namespace Turns

/-- No turn was taken. -/
def none : Turns := ⟨fun _ => 0, false⟩

/-- One more turn of a party. -/
def take (turns : Turns) (side : Side) : Turns where
  taken := Function.update turns.taken side (turns.taken side + 1)
  overlapped := turns.overlapped || (turns.taken side == 1 && turns.taken side.other == 2)

variable (turns : Turns) (side : Side)

/-- The party whose turn it was is one further. -/
@[simp] theorem taken_take_self : (turns.take side).taken side = turns.taken side + 1 :=
  Function.update_self _ _ _

/-- The other party is where it was. -/
@[simp] theorem taken_take_other : (turns.take side).taken side.other = turns.taken side.other :=
  Function.update_of_ne side.other_ne _ _

end Turns

/-- In this order of turns a party reads between the read and the write of the other. -/
def overlaps (schedule : List Side) : Bool := (schedule.foldl Turns.take Turns.none).overlapped

/-- The shared list, and what the parties have read. -/
structure Register where
  /-- Parties whose entry is in the list. -/
  entries : List Side
  /-- The list as a party read it. -/
  seen : Side → List Side

namespace Register

/-- Nothing was added. -/
def empty : Register := ⟨[], fun _ => []⟩

/-- The turn of a party: the second reads the list, the third writes it. -/
def turn (register : Register) (side : Side) : Nat → Register
  | 1 => { register with seen := Function.update register.seen side register.entries }
  | 2 => { register with entries := register.seen side ++ [side] }
  | _ => register

/-- A party changes nothing that the other has read. -/
theorem seen_turn_of_ne (register : Register) {one side : Side} (different : one ≠ side)
    (count : Nat) : (register.turn side count).seen one = register.seen one := by
  rcases count with _ | _ | _ | more
  · rfl
  · exact Function.update_of_ne different _ _
  · rfl
  · rfl

/-- What is known of the register. While no reads overlapped, the list has the entries of the
parties that have written, and a party that is to write has read the list as it is. Once they
overlapped, both read the empty list and the last write stands alone. -/
structure Consistent (turns : Turns) (register : Register) : Prop where
  /-- A party is listed once. -/
  nodup : register.entries.Nodup
  /-- The parties that have written are listed. -/
  written : turns.overlapped = false → ∀ side, side ∈ register.entries ↔ 3 ≤ turns.taken side
  /-- What was read last is what the list has. -/
  fresh : turns.overlapped = false → ∀ side, turns.taken side = 2 →
    register.seen side = register.entries ∧ turns.taken side.other ≠ 2
  /-- After an overlap both have read. -/
  past : turns.overlapped = true → ∀ side, 2 ≤ turns.taken side
  /-- After an overlap what was read is the empty list. -/
  stale : turns.overlapped = true → ∀ side, turns.taken side = 2 → register.seen side = []
  /-- After an overlap one entry is listed at most. -/
  alone : turns.overlapped = true → register.entries.length ≤ 1

variable {turns : Turns} {register : Register}

/-- The start. -/
theorem consistent_empty : Consistent Turns.none empty where
  nodup := List.nodup_nil
  written := by simp [empty, Turns.none]
  fresh := by simp [Turns.none]
  past := by simp [Turns.none]
  stale := by simp [Turns.none]
  alone := by simp [empty]

namespace Consistent

/-- The list has two entries at most. -/
theorem length_entries_le (consistent : Consistent turns register) :
    register.entries.length ≤ 2 :=
  consistent.nodup.length_le_card

/-- A write takes no entry more than it adds. -/
theorem length_entries_le_seen (consistent : Consistent turns register) {side : Side}
    (ready : turns.taken side = 2) :
    register.entries.length ≤ (register.seen side).length + 1 := by
  cases flag : turns.overlapped with
  | false =>
    rw [(consistent.fresh flag side ready).1]
    exact Nat.le_succ _
  | true => exact Nat.le_trans (consistent.alone flag) (Nat.le_add_left 1 _)

/-- The turn in which a party reads. -/
theorem read (consistent : Consistent turns register) {side : Side}
    (ready : turns.taken side = 1) : Consistent (turns.take side) (register.turn side 1) := by
  have clean : turns.overlapped = false := by
    by_contra flag
    have := consistent.past (by simpa using flag) side
    omega
  have same : ∀ one, 3 ≤ (turns.take side).taken one ↔ 3 ≤ turns.taken one := by
    intro one
    rcases Side.eq_or_eq_other one side with rfl | rfl
    · rw [Turns.taken_take_self, ready]
      decide
    · rw [Turns.taken_take_other]
  have flagEq : (turns.take side).overlapped = (turns.taken side.other == 2) := by
    simp [Turns.take, clean, ready]
  have seenOther : (register.turn side 1).seen side.other = register.seen side.other :=
    Function.update_of_ne side.other_ne _ _
  have seenSelf : (register.turn side 1).seen side = register.entries :=
    Function.update_self _ _ _
  -- Nobody has written when the reads overlap, so the list that both read is empty.
  have nothing : (turns.take side).overlapped = true → register.entries = [] := by
    intro flag
    rw [flagEq, beq_iff_eq] at flag
    refine List.eq_nil_iff_forall_not_mem.mpr fun one listed => ?_
    have wrote := (consistent.written clean one).mp listed
    rcases Side.eq_or_eq_other one side with rfl | rfl <;> omega
  refine ⟨consistent.nodup, ?_, ?_, ?_, ?_, ?_⟩
  · intro _ one
    rw [same]
    exact consistent.written clean one
  · intro flag one isTwo
    rw [flagEq, beq_eq_false_iff_ne] at flag
    rcases Side.eq_or_eq_other one side with rfl | rfl
    · rw [Turns.taken_take_other]
      exact ⟨seenSelf, flag⟩
    · rw [Turns.taken_take_other] at isTwo
      exact absurd isTwo flag
  · intro flag one
    rw [flagEq, beq_iff_eq] at flag
    rcases Side.eq_or_eq_other one side with rfl | rfl
    · rw [Turns.taken_take_self, ready]
    · rw [Turns.taken_take_other, flag]
  · intro flag one _
    have isEmpty := nothing flag
    rw [flagEq, beq_iff_eq] at flag
    rcases Side.eq_or_eq_other one side with rfl | rfl
    · rw [seenSelf, isEmpty]
    · rw [seenOther, (consistent.fresh clean _ flag).1, isEmpty]
  · intro flag
    show register.entries.length ≤ 1
    rw [nothing flag]
    exact Nat.zero_le 1

/-- The turn in which a party writes. -/
theorem write (consistent : Consistent turns register) {side : Side}
    (ready : turns.taken side = 2) : Consistent (turns.take side) (register.turn side 2) := by
  have flagEq : (turns.take side).overlapped = turns.overlapped := by
    simp [Turns.take, ready]
  have entriesEq : (register.turn side 2).entries = register.seen side ++ [side] := rfl
  have late : (turns.take side).taken side = 3 := by rw [Turns.taken_take_self, ready]
  have later : ∀ one, (turns.take side).taken one = 2 → one = side.other := by
    intro one isTwo
    rcases Side.eq_or_eq_other one side with rfl | rfl
    · omega
    · rfl
  cases flag : turns.overlapped with
  | false =>
    obtain ⟨seenEq, notTwo⟩ := consistent.fresh flag side ready
    have absent : side ∉ register.entries := fun listed => by
      have := (consistent.written flag side).mp listed
      omega
    refine ⟨?_, ?_, ?_, ?_, ?_, ?_⟩
    · rw [entriesEq, seenEq, ← List.concat_eq_append]
      exact consistent.nodup.concat absent
    · intro _ one
      rw [entriesEq, seenEq, List.mem_append, List.mem_singleton, consistent.written flag one]
      rcases Side.eq_or_eq_other one side with rfl | rfl
      · simp [ready]
      · rw [Turns.taken_take_other]
        simp
    · intro _ one isTwo
      obtain rfl := later one isTwo
      rw [Turns.taken_take_other] at isTwo
      exact absurd isTwo notTwo
    all_goals
      intro impossible
      rw [flagEq, flag] at impossible
      exact absurd impossible Bool.false_ne_true
  | true =>
    have seenEq := consistent.stale flag side ready
    have single : (register.turn side 2).entries = [side] := by rw [entriesEq, seenEq]; rfl
    refine ⟨?_, ?_, ?_, ?_, ?_, ?_⟩
    · rw [single]
      exact List.nodup_singleton side
    · intro impossible
      rw [flagEq, flag] at impossible
      exact absurd impossible.symm Bool.false_ne_true
    · intro impossible
      rw [flagEq, flag] at impossible
      exact absurd impossible.symm Bool.false_ne_true
    · intro _ one
      rcases Side.eq_or_eq_other one side with rfl | rfl
      · omega
      · rw [Turns.taken_take_other]
        exact consistent.past flag _
    · intro _ one isTwo
      obtain rfl := later one isTwo
      rw [Turns.taken_take_other] at isTwo
      exact consistent.stale flag _ isTwo
    · intro _
      rw [single]
      exact Nat.le_refl 1

/-- A turn in which a party neither reads nor writes. -/
theorem idle (consistent : Consistent turns register) {side : Side}
    (ready : turns.taken side = 0 ∨ 3 ≤ turns.taken side) :
    Consistent (turns.take side) register := by
  have flagEq : (turns.take side).overlapped = turns.overlapped := by
    have notOne : (turns.taken side == 1) = false := beq_eq_false_iff_ne.mpr (by omega)
    simp [Turns.take, notOne]
  have same : ∀ one, 3 ≤ (turns.take side).taken one ↔ 3 ≤ turns.taken one := by
    intro one
    rcases Side.eq_or_eq_other one side with rfl | rfl
    · rw [Turns.taken_take_self]
      omega
    · rw [Turns.taken_take_other]
  have two : ∀ one, (turns.take side).taken one = 2 ↔ turns.taken one = 2 := by
    intro one
    rcases Side.eq_or_eq_other one side with rfl | rfl
    · rw [Turns.taken_take_self]
      omega
    · rw [Turns.taken_take_other]
  have more : ∀ one, 2 ≤ turns.taken one → 2 ≤ (turns.take side).taken one := by
    intro one many
    rcases Side.eq_or_eq_other one side with rfl | rfl
    · rw [Turns.taken_take_self]
      omega
    · rwa [Turns.taken_take_other]
  refine ⟨consistent.nodup, ?_, ?_, ?_, ?_, ?_⟩ <;> rw [flagEq]
  · intro flag one
    rw [same]
    exact consistent.written flag one
  · intro flag one isTwo
    rw [Ne, two]
    exact consistent.fresh flag one ((two one).mp isTwo)
  · intro flag one
    exact more one (consistent.past flag one)
  · intro flag one isTwo
    exact consistent.stale flag one ((two one).mp isTwo)
  · exact consistent.alone

/-- A turn of a party. -/
theorem turn (consistent : Consistent turns register) (side : Side) :
    Consistent (turns.take side) (register.turn side (turns.taken side)) := by
  rcases count : turns.taken side with _ | _ | _ | more
  · exact consistent.idle (.inl count)
  · exact consistent.read count
  · exact consistent.write count
  · exact consistent.idle (.inr (by omega))

/-- When both have written, both are listed unless their updates overlapped. -/
theorem listed_iff (consistent : Consistent turns register)
    (finished : ∀ side, 3 ≤ turns.taken side) :
    (∀ side, side ∈ register.entries) ↔ turns.overlapped = false := by
  cases flag : turns.overlapped with
  | false => simpa using fun side => (consistent.written flag side).mpr (finished side)
  | true =>
    simp only [Bool.true_eq_false, iff_false]
    intro listed
    have both : [Side.first, Side.second].Subperm register.entries :=
      List.subperm_of_subset (by decide) fun side _ => listed side
    have := both.length_le
    have := consistent.alone flag
    simp only [List.length_cons, List.length_nil] at *
    omega

end Consistent

end Register

end Canyon.Lib
