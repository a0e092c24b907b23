import Canyon.Fs.Ownership

/-!
# Reading back what was written

What a user sees of a file is its entry in the volume of the history: the contents of the last
write, their length, the type and the name. A write shows in its own file only.
-/

namespace Canyon.Fs

open Canyon.Lib

/-- What a user sees of an inode. -/
structure Stat where
  /-- `inode_type()`. -/
  type : InodeType
  /-- `size()`. -/
  size : Nat
  /-- The bytes that `name()` decodes. -/
  name : NameBytes
  /-- `data()`. -/
  data : List UInt8
  deriving DecidableEq

/-- What there is to see of a file. -/
def File.stat (file : File) : Stat :=
  ⟨file.type, file.contents.length, file.name, file.contents⟩

/-- Ask for an inode and look at it, as `inode(n).data()` does. -/
def Cafs.stat (fs : Cafs) (inodeNumber : Nat) : FsM Stat := do
  let pointer ← fs.inode inodeNumber
  let inode ← deref pointer
  let data ← onBlocks inode.data
  return ⟨inode.type, inode.size, inode.name, data⟩

/-- What a user sees of an inode in a session. -/
def Session.Sees (session : Session) (inodeNumber : Nat) (seen : Stat) : Prop :=
  ∃ after, session.exec (session.fs.stat inodeNumber) = .ok seen after

/-- A look at a file finds its object and reads its data blocks. -/
theorem Cafs.wp_stat {fs : Cafs} {totalBlocks : Nat} {inodes : Inodes} {store : Nat → Block}
    {volume : Volume} {extents : Nat → Extent} {marked : Nat → Bool}
    {failed : Panic → (Nat → Block) → Prop}
    (rep : fs.Represents totalBlocks inodes store volume extents marked) {number : Nat}
    {file : File} (found : volume[number]? = some file)
    {post : Stat → Inodes → (Nat → Block) → Prop}
    (goal : ∀ pointer looked,
      inodes.Looked (fs.inodeOf number file (extents number)) pointer looked →
      post ⟨file.type, file.contents.length, file.name,
        (fs.inodeOf number file (extents number)).bytesOn store⟩ looked store)
    (full : inodes.find number = none →
      Inodes.substitute inodes.queue inodes.handles = .error .runOutOfInodeCache →
      failed .runOutOfInodeCache store) :
    FsM.wp (Prog.deviceRules totalBlocks) (fs.stat number) inodes post failed store := by
  obtain ⟨inside, -⟩ := List.getElem?_eq_some_iff.mp found
  refine FsM.wp_bind.mpr (wp_cainode rep found ?_ full)
  intro pointer looked isLooked
  obtain ⟨-, -, isObject, -⟩ := rep.coherent.looked found isLooked
  refine FsM.wp_bind.mpr (FsM.wp_deref.mpr (FsM.wp_bind.mpr (FsM.wp_onBlocks.mpr ?_)))
  rw [isObject]
  refine CaInode.wp_data _ (fun id idIn => ?_) (goal pointer looked isLooked)
  exact rep.admits inside id (List.mem_append_right _ idIn)

section Runs

variable {totalBlocks inodeBitmapBlocks : Nat} {volume : Volume} {session : Session}
  {extents : Nat → Extent} {marked : Nat → Bool} {store : Nat → Block}

/-- A look at a file shows it, while the inode cache has the file or room for it. -/
theorem Session.Serves.sees (serves : session.Serves totalBlocks volume extents marked store)
    {number : Nat} {file : File} (found : volume[number]? = some file)
    (bound : file.contents.length ≤ l4Max)
    (room : session.inodes.find number = none → ∀ error,
      Inodes.substitute session.inodes.queue session.inodes.handles ≠ .error error) :
    session.Sees number file.stat := by
  obtain ⟨record, -, placed⟩ := serves.represents.holds.placed number file found
  have spec : FsM.wp (Prog.deviceRules totalBlocks) (session.fs.stat number) session.inodes
      (fun seen _ _ => seen = file.stat) (fun _ _ => False) store := by
    refine Cafs.wp_stat serves.represents found (fun pointer looked _ => ?_)
      fun absent stuck => room absent _ stuck
    rw [placed.bytesOn_eq bound]
    rfl
  obtain ⟨_, after, _, ran, -, -, rfl⟩ := serves.backed.returns spec
  exact ⟨after, ran⟩

/-- In a tracked session a look at a file shows it. -/
theorem Tracks.sees
    (tracks : Tracks totalBlocks inodeBitmapBlocks volume session extents marked store)
    {number : Nat} {file : File} (found : volume[number]? = some file)
    (bound : file.contents.length ≤ l4Max) : session.Sees number file.stat := by
  obtain ⟨inside, -⟩ := List.getElem?_eq_some_iff.mp found
  exact tracks.serves.sees found bound fun absent => absurd absent (tracks.find_ne_none inside)

/-- After every step of a run of tidy calls, a look at an allocated inode shows the contents
last written to it, and a tidy write changes what is seen of its own inode only. -/
theorem contents_read_back {device : Disk} (small : totalBlocks < 2 ^ 64)
    (history : History Call.Tidy device totalBlocks inodeBitmapBlocks volume session) :
    (∀ number ∈ session.fs.allocatedInodes session.contents,
      ∃ file, volume[number]? = some file ∧ session.Sees number file.stat) ∧
    ∀ number contents answer after, (Call.write number contents).Tidy volume →
      session.exec ((Call.write number contents).run session.fs) = .ok answer after →
      ∀ other ∈ session.fs.allocatedInodes session.contents, other ≠ number →
        ∃ seen, session.Sees other seen ∧ after.Sees other seen := by
  obtain ⟨isSmall, extents, marked, store, tracks⟩ := history.tidy small
  have seen : ∀ number ∈ session.fs.allocatedInodes session.contents,
      ∃ file, volume[number]? = some file ∧ session.Sees number file.stat := by
    intro number allocated
    rw [tracks.serves.backed.contents_eq, tracks.serves.represents.holds.allocatedInodes_eq,
      List.mem_range] at allocated
    have found := List.getElem?_eq_getElem allocated
    exact ⟨_, found, tracks.sees found (isSmall _ (List.mem_of_getElem? found))⟩
  refine ⟨seen, ?_⟩
  intro number contents answer after tidy ran other allocated different
  obtain ⟨file, found, sees⟩ := seen other allocated
  obtain ⟨smallAfter, _, _, _, tracksAfter⟩ := (history.snoc tidy ran).tidy small
  have foundAfter : (volume.after (.write number contents))[other]? = some file := by
    rw [Volume.after, Volume.getElem?_write_of_ne volume different]
    exact found
  exact ⟨file.stat, sees,
    tracksAfter.sees foundAfter (smallAfter file (List.mem_of_getElem? foundAfter))⟩

/-- The byte written to `test.txt` is read back. -/
theorem contents_read_back_testHistory : ∃ bytes session,
    History Call.Tidy (Disk.new 131072) 131072 2 (testVolume bytes [84]) session ∧
      ∀ number ∈ session.fs.allocatedInodes session.contents,
        ∃ file, (testVolume bytes [84])[number]? = some file ∧ session.Sees number file.stat := by
  obtain ⟨bytes, session, history⟩ := exists_testHistory
  exact ⟨bytes, session, history, (contents_read_back (by decide) history).1⟩

end Runs

end Canyon.Fs
