import Mathlib.Data.List.Perm.Subperm
import Mathlib.Data.List.Nodup

/-!
# Shared objects in a bounded queue

An object is known by its pointer. A queue lists the pointers it keeps, and every other
holder of a pointer is a handle, so the number of owners of an object is its number of
queue entries plus its number of handles. A queue entry may leave only while its object
has no other owner, and it leaves by exchange with the last entry.
-/

namespace Canyon.Lib

variable {α : Type}

/-- Take entry `index` out of a list and put the last entry in its place. -/
def swapRemove (entries : List α) (index : Nat) : List α :=
  match entries.getLast? with
  | none => []
  | some last => (entries.set index last).dropLast

/-- On a list with a known last entry, removing the last one drops it and removing another
one overwrites it. -/
theorem swapRemove_concat (front : List α) (last : α) (index : Nat) :
    swapRemove (front ++ [last]) index = front.set index last := by
  simp only [swapRemove, List.getLast?_append, List.getLast?_singleton, Option.some_or]
  by_cases inside : index < front.length
  · rw [List.set_append_left _ _ inside, List.dropLast_concat]
  · have outside : front.length ≤ index := by omega
    rw [List.set_append_right _ _ outside, List.set_eq_of_length_le outside]
    cases index - front.length <;> simp

/-- The removed entry and the entries left are the old entries, in another order. -/
theorem swapRemove_perm (entries : List α) (index : Nat) (removed : α)
    (found : entries[index]? = some removed) :
    (removed :: swapRemove entries index).Perm entries := by
  obtain rfl | ⟨front, last, rfl⟩ := entries.eq_nil_or_concat'
  · simp at found
  rw [swapRemove_concat]
  by_cases inside : index < front.length
  · rw [List.getElem?_append_left inside, List.getElem?_eq_getElem inside,
      Option.some.injEq] at found
    subst found
    refine ((List.set_perm_cons_eraseIdx inside last).cons _).trans ?_
    refine (List.Perm.swap _ _ _).trans ?_
    refine ((List.getElem_cons_eraseIdx_perm inside).cons last).trans ?_
    exact (List.perm_append_singleton last front).symm
  · have outside : front.length ≤ index := by omega
    rw [List.getElem?_append_right outside] at found
    have position : index - front.length = 0 := by
      by_contra positive
      obtain ⟨rest, step⟩ := Nat.exists_eq_succ_of_ne_zero positive
      rw [step] at found
      simp at found
    simp only [position, List.getElem?_cons_zero, Option.some.injEq] at found
    subst found
    rw [List.set_eq_of_length_le outside]
    exact (List.perm_append_singleton last front).symm

/-- Removing keeps a list through any map of its entries. -/
theorem map_swapRemove {γ : Type} (f : α → γ) (entries : List α) (index : Nat) :
    (swapRemove entries index).map f = swapRemove (entries.map f) index := by
  obtain rfl | ⟨front, last, rfl⟩ := entries.eq_nil_or_concat'
  · rfl
  rw [List.map_append, List.map_singleton, swapRemove_concat, swapRemove_concat, List.map_set]

/-- Owners of an object: the queue entries and the handles that point to it. -/
def strongCount (queue handles : List Nat) (pointer : Nat) : Nat :=
  queue.count pointer + handles.count pointer

/-- First queue entry whose object has no owner but that entry. -/
def findEvictable (queue handles : List Nat) : Option Nat :=
  queue.findIdx? fun pointer => strongCount queue handles pointer == 1

/-- An entry found evictable is in the queue, and no handle points to its object. -/
theorem findEvictable_some {queue handles : List Nat} {index : Nat}
    (found : findEvictable queue handles = some index) :
    ∃ pointer, queue[index]? = some pointer ∧ queue.count pointer = 1 ∧ pointer ∉ handles := by
  obtain ⟨inside, alone, -⟩ := List.findIdx?_eq_some_iff_getElem.mp found
  refine ⟨queue[index], List.getElem?_eq_getElem inside, ?_⟩
  have present : 0 < queue.count queue[index] :=
    List.count_pos_iff.mpr (List.getElem_mem inside)
  simp only [strongCount, beq_iff_eq] at alone
  exact ⟨by omega, List.count_eq_zero.mp (by omega)⟩

/-- A queue of distinct pointers with more entries than there are handles has an evictable
entry: otherwise every entry would have a handle of its own. -/
theorem findEvictable_isSome {queue handles : List Nat} (distinct : queue.Nodup)
    (more : handles.length < queue.length) : (findEvictable queue handles).isSome := by
  by_contra none
  rw [Option.not_isSome_iff_eq_none, findEvictable, List.findIdx?_eq_none_iff] at none
  have held : queue ⊆ handles := by
    intro pointer member
    have once := List.count_eq_one_of_mem distinct member
    have owners := none pointer member
    simp only [strongCount, once, beq_eq_false_iff_ne] at owners
    exact List.count_pos_iff.mp (by omega)
  have room := (List.subperm_of_subset distinct held).length_le
  omega

end Canyon.Lib
