import Canyon.Fs.History

/-!
# Lawful calls

The calls that a file system can serve: they name inodes that are there and take no data block
from a file. A session that serves a volume serves the volume after such a call, and the call can
stop for want of room, for a name too long or for a directory out of order only.
-/

namespace Canyon.Fs

open Canyon.Lib

/-- The calls of a user who names inodes that are there and lowers the number of data blocks of no
file. A parent is a file that its tree can describe. -/
def Call.Lawful (volume : Volume) : Call → Prop
  | .create parent _ => ∃ file, volume[parent]? = some file ∧ file.contents.length ≤ l4Max
  | .write inodeNumber contents => contents.length < 2 ^ 64 ∧ ∃ file,
      volume[inodeNumber]? = some file ∧
        dataBlocks file.contents.length ≤ dataBlocks contents.length
  | .inode inodeNumber => inodeNumber < volume.length
  | .subInodes inodeNumber => inodeNumber < volume.length
  | _ => True

/-- The calls of an orderly user are lawful. -/
theorem Call.Tidy.lawful {volume : Volume} {call : Call} (tidy : call.Tidy volume) :
    call.Lawful volume := by
  obtain ⟨addressed, bounded, keeping⟩ := tidy
  cases call with
  | create parent name =>
    obtain ⟨file, found, -⟩ := addressed
    have bound : (appendEntry file.contents volume.length).length ≤ l4Max :=
      bounded parent _ (by rw [Call.written, found]; rfl)
    have grows := lt_length_appendEntry file.contents volume.length
    exact ⟨file, found, by omega⟩
  | write number contents =>
    have found := List.getElem?_eq_getElem addressed
    have bound := bounded number contents rfl
    obtain ⟨-, -, -, -, -, -, -, top⟩ := levelConstants
    exact ⟨by omega, _, found, keeping number contents _ rfl found⟩
  | inode number => exact addressed
  | subInodes number => exact addressed
  | df => trivial
  | flush => trivial
  | drop pointer => trivial

section Serving

variable {totalBlocks inodeBitmapBlocks : Nat} {volume : Volume} {session after : Session}
  {extents : Nat → Extent} {marked : Nat → Bool} {store : Nat → Block} {call : Call}

/-- A session that serves a volume serves the volume after a lawful call. -/
theorem Session.Serves.advance (serves : session.Serves totalBlocks volume extents marked store)
    (lawful : call.Lawful volume) {answer : Answer}
    (ran : session.exec (call.run session.fs) = .ok answer after) :
    ∃ extentsAfter markedAfter storeAfter, after.Serves totalBlocks (volume.after call)
      extentsAfter markedAfter storeAfter := by
  cases call with
  | create parent name =>
    obtain ⟨file, found, bound⟩ := lawful
    obtain ⟨value, ran, -⟩ := Session.exec_map_ok ran
    have contentsEq := extended_eq serves found bound
    have keeps := keeps_appendEntry file.contents volume.length
    rw [← contentsEq] at keeps
    obtain ⟨-, bytes, extent, markedAfter, storeAfter, isName, -, -, -, -, -, servesAfter⟩ :=
      serves.created found keeps ran
    rw [contentsEq] at servesAfter
    simp only [Volume.after, isName, found]
    exact ⟨_, _, _, servesAfter⟩
  | write number contents =>
    obtain ⟨wide, file, found, keeps⟩ := lawful
    obtain ⟨value, ran, -⟩ := Session.exec_map_ok ran
    obtain ⟨-, -, extent, markedAfter, storeAfter, -, -, -, -, servesAfter⟩ :=
      serves.wrote found wide keeps ran
    exact ⟨_, _, _, servesAfter⟩
  | inode number =>
    obtain ⟨pointer, ran, -⟩ := Session.exec_map_ok ran
    obtain ⟨-, -, servesAfter⟩ := serves.looked (List.getElem?_eq_getElem lawful) ran
    exact ⟨_, _, _, servesAfter⟩
  | subInodes number =>
    obtain ⟨numbers, ran, -⟩ := Session.exec_map_ok ran
    obtain ⟨-, -, -, -, -, servesAfter⟩ := serves.listed (List.getElem?_eq_getElem lawful) ran
    exact ⟨_, _, _, servesAfter⟩
  | df =>
    obtain ⟨space, ran, -⟩ := Session.exec_map_ok ran
    exact ⟨_, _, _, (serves.measured ran).2.2⟩
  | flush =>
    obtain ⟨value, ran, -⟩ := Session.exec_map_ok ran
    exact ⟨_, _, _, (serves.flushed ran).2.2⟩
  | drop pointer =>
    obtain ⟨value, ran, -⟩ := Session.exec_map_ok ran
    exact ⟨_, _, _, (serves.dropped ran).2.2⟩

/-- In a run of lawful calls the session serves the volume throughout. -/
theorem Session.Serves.run {first last : Volume × Session}
    (serves : first.2.Serves totalBlocks first.1 extents marked store)
    (run : Relation.ReflTransGen (Advance Call.Lawful) first last) :
    ∃ extentsAfter markedAfter storeAfter,
      last.2.Serves totalBlocks last.1 extentsAfter markedAfter storeAfter := by
  induction run with
  | refl => exact ⟨_, _, _, serves⟩
  | tail _ advance ih =>
    cases advance with
    | call call isAllowed ran =>
      obtain ⟨_, _, _, servesBefore⟩ := ih
      exact servesBefore.advance isAllowed ran

/-- A run of lawful calls from a device just set up. -/
theorem History.serves {device : Disk} (small : totalBlocks < 2 ^ 64)
    (history : History Call.Lawful device totalBlocks inodeBitmapBlocks volume session) :
    ∃ extents marked store, session.Serves totalBlocks volume extents marked store := by
  obtain ⟨start, setUp, run⟩ := history
  obtain ⟨-, -, -, _, serves, -⟩ := Session.serves_of_fromInit small setUp
  exact serves.run run

/-- How a lawful call can panic. -/
def Call.panics : List Panic :=
  [.runOutOfInodeCache, .runOutOfInodeBlock, .runOutOfDataBlock, .nameTooLong, .indexOutOfRange]

/-- A lawful call keeps to five blocks at a time, none of them asked for twice, and panics in one
of these ways only. -/
theorem Session.Serves.wp_call (serves : session.Serves totalBlocks volume extents marked store)
    (lawful : call.Lawful volume) :
    FsM.wp (Prog.deviceRules totalBlocks) (call.run session.fs) session.inodes
      (fun _ _ _ => True) (fun error _ => error ∈ Call.panics) store := by
  have rep := serves.represents
  cases call with
  | create parent name =>
    obtain ⟨file, found, bound⟩ := lawful
    have keeps := keeps_appendEntry file.contents volume.length
    rw [← extended_eq serves found bound] at keeps
    exact FsM.wp_bind.mpr (Cafs.wp_create rep found keeps
      (fun _ _ _ _ _ _ _ _ _ _ _ => trivial) (fun _ => by decide) (fun _ _ => by decide)
      (fun _ _ => by decide) fun _ _ _ _ => by decide)
  | write number contents =>
    obtain ⟨wide, file, found, keeps⟩ := lawful
    exact FsM.wp_bind.mpr (Cafs.wp_write rep found wide keeps (fun _ _ _ _ _ _ _ => trivial)
      (fun _ _ => by decide) fun _ _ _ => by decide)
  | inode number =>
    exact FsM.wp_bind.mpr (Cafs.wp_cainode rep (List.getElem?_eq_getElem lawful)
      (fun _ _ _ => trivial) fun _ _ => by decide)
  | subInodes number =>
    exact FsM.wp_bind.mpr (Cafs.wp_subInodes rep (List.getElem?_eq_getElem lawful)
      (fun _ _ _ _ => trivial) (fun _ _ => by decide) fun _ => by decide)
  | df => exact FsM.wp_bind.mpr (Cafs.wp_df rep trivial)
  | flush => exact FsM.wp_bind.mpr (Cafs.wp_flush trivial)
  | drop pointer => exact FsM.wp_bind.mpr (FsM.wp_dropHandle.mpr trivial)

end Serving

end Canyon.Fs
