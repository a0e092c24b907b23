import Canyon.Fs.Roomy
import Canyon.Fs.Vfs

/-!
# Calls on the virtual file system

One specification for each call of `VFS`, from a file system that represents a volume, and for
the construction of the tree when the device is mounted.
-/

namespace Canyon.Fs

open Canyon.Lib

/-- The entry of a file without entries below. -/
def File.dentry (file : File) (inodeNumber : Nat) : DirEntry :=
  .node (nameString file.name) ⟨file.type, inodeNumber⟩ []

/-- The entries of files, by their numbers. -/
def Volume.dentries (volume : Volume) (numbers : List Nat) : List DirEntry :=
  numbers.filterMap fun number => volume[number]?.map fun file => file.dentry number

/-- The tree of a root directory with these files. -/
def Volume.tree (volume : Volume) (root : File) (children : List Nat) : DirEntry :=
  .node (nameString root.name) ⟨root.type, 0⟩ (volume.dentries children)

/-- A walk and a search of the tree agree. -/
theorem findDentry_of_walk {root dentry : DirEntry} {dirs : List String}
    (walked : root.walk dirs = .ok dentry) : findDentry root dirs = .ok dentry := by
  rw [findDentry, walked]
  rfl

/-- A walk that stops is a search that fails. -/
theorem findDentry_of_walk_error {root : DirEntry} {dirs : List String} {name : String}
    (walked : root.walk dirs = .error name) : findDentry root dirs = .error (.notExist name) := by
  rw [findDentry, walked]
  rfl

/-- A call that goes on from a value. -/
theorem FsM.pure_bind {α γ : Type} (value : α) (next : α → FsM γ) :
    (pure value >>= next) = next value :=
  rfl

/-- A path with a `/` is parsed. -/
theorem wp_parsed {rules : Scoped.Discipline Nat} {inodes : Inodes} {store : Nat → Block}
    {failed : Panic → (Nat → Block) → Prop} {path : String} {isPath : Path}
    (isParsed : parsePath path = some isPath) {post : Path → Inodes → (Nat → Block) → Prop}
    (goal : post isPath inodes store) : FsM.wp rules (parsed path) inodes post failed store := by
  rw [parsed, isParsed]
  exact goal

section Calls

variable {fs : Cafs} {totalBlocks : Nat} {inodes : Inodes} {store : Nat → Block} {volume : Volume}
  {extents : Nat → Extent} {marked : Nat → Bool} {failed : Panic → (Nat → Block) → Prop}
  {file : File} {root : DirEntry} {path : String} {isPath : Path}
  {post : Except Error Reply × DirEntry → Inodes → (Nat → Block) → Prop}

/-- `DirEntry::new` visits the inode. -/
theorem wp_newDentry (rep : fs.Represents totalBlocks inodes store volume extents marked)
    {number : Nat} (found : volume[number]? = some file)
    {post : DirEntry → Inodes → (Nat → Block) → Prop}
    (goal : ∀ after, inodes.Visited (fs.inodeOf number file (extents number)) after →
      post (file.dentry number) after store)
    (full : inodes.find number = none →
      Inodes.substitute inodes.queue inodes.handles = .error .runOutOfInodeCache →
      failed .runOutOfInodeCache store) :
    FsM.wp (Prog.deviceRules totalBlocks) (newDentry fs number) inodes post failed store := by
  refine FsM.wp_bind.mpr (Cafs.wp_cainode rep found ?_ full)
  intro pointer looked isLooked
  obtain ⟨-, -, isObject, -⟩ := rep.coherent.looked found isLooked
  refine FsM.wp_bind.mpr (FsM.wp_deref.mpr (FsM.wp_bind.mpr (FsM.wp_dropHandle.mpr ?_)))
  rw [isObject]
  exact goal _ ⟨isLooked⟩

/-- `read_unstable` visits the inode that its path leads to, and returns its bytes. -/
theorem wp_readUnstable (rep : fs.Represents totalBlocks inodes store volume extents marked)
    {dentry : DirEntry} (isParsed : parsePath path = some isPath)
    (walked : root.walk isPath.components = .ok dentry)
    (found : volume[dentry.value.inodeNumber]? = some file)
    (goal : ∀ after, inodes.Visited (fs.inodeOf dentry.value.inodeNumber file
        (extents dentry.value.inodeNumber)) after →
      post (.ok (.contents ((fs.inodeOf dentry.value.inodeNumber file
        (extents dentry.value.inodeNumber)).bytesOn store)), root) after store)
    (full : inodes.find dentry.value.inodeNumber = none →
      Inodes.substitute inodes.queue inodes.handles = .error .runOutOfInodeCache →
      failed .runOutOfInodeCache store) :
    FsM.wp (Prog.deviceRules totalBlocks) ((VfsCall.readUnstable path).run fs root) inodes post
      failed store := by
  obtain ⟨inside, -⟩ := List.getElem?_eq_some_iff.mp found
  refine FsM.wp_bind.mpr (wp_parsed isParsed ?_)
  rw [findDentry_of_walk walked]
  refine FsM.wp_bind.mpr (Cafs.wp_cainode rep found ?_ full)
  intro pointer looked isLooked
  obtain ⟨-, -, isObject, -⟩ := rep.coherent.looked found isLooked
  refine FsM.wp_bind.mpr (FsM.wp_deref.mpr (FsM.wp_bind.mpr (FsM.wp_onBlocks.mpr ?_)))
  rw [isObject]
  refine CaInode.wp_data _ (fun id idIn => ?_) (goal _ ⟨isLooked⟩)
  exact rep.admits inside id (List.mem_append_right _ idIn)

/-- `write` of a virtual file system writes to the inode that its path leads to. -/
theorem wp_vfsWrite {dentry : DirEntry} {rules : Scoped.Discipline Nat} {contents : List UInt8}
    (isParsed : parsePath path = some isPath) (walked : root.walk isPath.components = .ok dentry)
    (wrote : FsM.wp rules (fs.write dentry.value.inodeNumber contents) inodes
      (fun _ after store => post (.ok .done, root) after store) failed store) :
    FsM.wp rules ((VfsCall.write path contents).run fs root) inodes post failed store := by
  refine FsM.wp_bind.mpr (wp_parsed isParsed ?_)
  rw [findDentry_of_walk walked]
  exact FsM.wp_bind.mpr wrote

/-- `create` of a virtual file system makes an inode under the directory that its path leads to,
and adds its entry to the tree. -/
theorem wp_vfsCreate (rep : fs.Represents totalBlocks inodes store volume extents marked)
    {root dir : DirEntry} {path : String} {isPath : Path}
    (isParsed : parsePath path = some isPath) (walked : root.walk isPath.parents = .ok dir)
    {file : File} (found : volume[dir.value.inodeNumber]? = some file)
    (keeps : dataBlocks file.contents.length ≤
      dataBlocks (fs.extended store volume extents dir.value.inodeNumber file).length)
    {post : Except Error Reply × DirEntry → Inodes → (Nat → Block) → Prop}
    (goal : ∀ bytes created extent after markedAfter,
      nameBytes (utf8Bytes isPath.name) = some bytes →
      inodes.Created (fs.inodeOf volume.length ⟨.file, bytes, []⟩ ⟨[], []⟩)
        (fs.inodeOf dir.value.inodeNumber file (extents dir.value.inodeNumber))
        (fs.extended store volume extents dir.value.inodeNumber file).length extent.data
        created →
      fs.Represents totalBlocks { created with handles := inodes.handles } after
        ((volume.add .file bytes).write dir.value.inodeNumber
          (fs.extended store volume extents dir.value.inodeNumber file))
        (Function.update (Function.update extents volume.length ⟨[], []⟩)
          dir.value.inodeNumber extent) markedAfter →
      (file.contents.length ≤ l4Max → after 0 = store 0) →
      post (.ok .done, (File.dentry ⟨.file, bytes, []⟩ volume.length).graft isPath.parents root)
        { created with handles := inodes.handles } after)
    (noInode : volume.length = fs.inodeBitmap.totalCount → failed .runOutOfInodeBlock store)
    (longName : ∀ reached, nameBytes (utf8Bytes isPath.name) = none →
      failed .nameTooLong reached)
    (noCache : ∀ reached, inodeCacheSize ≤ inodes.queue.length + 2 →
      failed .runOutOfInodeCache reached)
    (noData : ∀ reached, fs.dataBitmap.totalCount < fs.dataBitmap.used marked +
        Cafs.growth file.contents.length
          (fs.extended store volume extents dir.value.inodeNumber file).length →
      failed .runOutOfDataBlock reached) :
    FsM.wp (Prog.deviceRules totalBlocks) ((VfsCall.create path).run fs root) inodes post
      failed store := by
  obtain ⟨inside, -⟩ := List.getElem?_eq_some_iff.mp found
  refine FsM.wp_bind.mpr (wp_parsed isParsed ?_)
  rw [findDentry_of_walk walked]
  refine FsM.wp_bind.mpr (Cafs.wp_create rep found keeps ?_ noInode longName noCache
    fun reached _ _ => noData reached)
  intro bytes created extent after markedAfter isName isCreated repAfter used lowest head
  have isNumber : (created.heap inodes.next).inodeNumber = volume.length :=
    isCreated.inodeNumber_next
  have handles : created.handles = inodes.next :: inodes.handles := by
    obtain ⟨-⟩ := isCreated
    rfl
  have foundNew : ((volume.add .file bytes).write dir.value.inodeNumber
      (fs.extended store volume extents dir.value.inodeNumber file))[volume.length]? =
      some ⟨.file, bytes, []⟩ := by
    rw [Volume.getElem?_write_of_ne _ (Nat.ne_of_gt inside)]
    exact Volume.getElem?_add_self ..
  have newIn : inodes.next ∈ created.queue :=
    repAfter.coherent.pinned _ (by rw [handles]; exact List.mem_cons_self)
  refine FsM.wp_bind.mpr (FsM.wp_deref.mpr ?_)
  rw [isNumber]
  refine FsM.wp_bind.mpr (wp_newDentry repAfter foundNew ?_ ?_)
  · rintro _ @⟨looked, pointer, isLooked⟩
    obtain ⟨rfl, rfl⟩ := repAfter.coherent.looked_again newIn isNumber isLooked
    refine FsM.wp_bind.mpr (FsM.wp_dropHandle.mpr ?_)
    have final := goal bytes created extent after markedAfter isName isCreated
      ⟨repAfter.geometry, repAfter.holds, ?_⟩ head
    · dsimp only
      rw [List.erase_cons_head, handles, List.erase_cons_head]
      exact final
    · have dropped := repAfter.coherent.drop inodes.next
      rw [handles, List.erase_cons_head] at dropped
      exact dropped
  · intro absent
    exact absurd isNumber (Inodes.find_none absent inodes.next newIn)

/-! ## Mounting -/

/-- `read_sub_dentry` of a file visits it and finds nothing. -/
theorem wp_readSubDentry_file (rep : fs.Represents totalBlocks inodes store volume extents marked)
    (roomy : inodes.Roomy) {number : Nat} (found : volume[number]? = some file)
    (isFile : file.type = .file) (depth : Nat)
    {post : List DirEntry → Inodes → (Nat → Block) → Prop}
    (goal : ∀ after, fs.Represents totalBlocks after store volume extents marked →
      after.Roomy → after.queue.length ≤ inodes.queue.length + 1 → post [] after store) :
    FsM.wp (Prog.deviceRules totalBlocks) (readSubDentry fs (depth + 1) number) inodes post
      failed store := by
  refine FsM.wp_bind.mpr (Cafs.wp_subInodes rep found ?_
    (fun _ stuck => absurd stuck (roomy.substitute_ok _)) fun malformed => ?_)
  · intro pointer looked isLooked _
    have visited : inodes.Visited (fs.inodeOf number file (extents number)) _ := ⟨isLooked⟩
    rw [Cafs.listing, if_pos (.inl isFile)]
    exact goal _ ⟨rep.geometry, rep.holds, rep.coherent.visited found visited⟩
      (roomy.visited rep.coherent visited) visited.length_le
  · exact absurd (fun isDir => absurd (isFile.symm.trans isDir) (by decide)) malformed

/-- The loop of `read_sub_dentry` over files makes an entry for each. -/
theorem wp_readDentries (rep : fs.Represents totalBlocks inodes store volume extents marked)
    (roomy : inodes.Roomy) {numbers : List Nat}
    (files : ∀ number ∈ numbers, ∃ file, volume[number]? = some file ∧ file.type = .file)
    (depth : Nat) {post : List DirEntry → Inodes → (Nat → Block) → Prop}
    (goal : ∀ after, fs.Represents totalBlocks after store volume extents marked →
      after.Roomy → after.queue.length ≤ inodes.queue.length + 2 * numbers.length →
      post (volume.dentries numbers) after store) :
    FsM.wp (Prog.deviceRules totalBlocks) (readDentries (fun number => do
      let dentry ← newDentry fs number
      return .node dentry.key dentry.value (← readSubDentry fs (depth + 1) number)) numbers)
      inodes post failed store := by
  induction numbers generalizing inodes post with
  | nil => exact goal inodes rep roomy (Nat.le_refl _)
  | cons number rest ih =>
    obtain ⟨file, found, isFile⟩ := files number List.mem_cons_self
    have entry : volume.dentries (number :: rest) = file.dentry number :: volume.dentries rest :=
      List.filterMap_cons_some (by rw [found]; rfl)
    rw [entry] at goal
    refine FsM.wp_bind.mpr (FsM.wp_bind.mpr (wp_newDentry rep found ?_
      fun _ stuck => absurd stuck (roomy.substitute_ok _)))
    intro visitor visited
    have repVisited : fs.Represents totalBlocks visitor store volume extents marked :=
      ⟨rep.geometry, rep.holds, rep.coherent.visited found visited⟩
    refine FsM.wp_bind.mpr (wp_readSubDentry_file repVisited (roomy.visited rep.coherent visited)
      found isFile depth ?_)
    intro reader repReader roomyReader fewReader
    refine FsM.wp_bind.mpr (ih repReader roomyReader
      (fun other otherIn => files other (List.mem_cons_of_mem _ otherIn)) ?_)
    intro after repAfter roomyAfter fewAfter
    refine goal after repAfter roomyAfter ?_
    have fewVisited := visited.length_le
    rw [List.length_cons]
    omega

/-- `VFS::new` reads the tree of a root directory that lists files. -/
theorem wp_newRoot (rep : fs.Represents totalBlocks inodes store volume extents marked)
    (roomy : inodes.Roomy) {root : File} (found : volume[0]? = some root)
    (isDir : root.type = .dir) (bound : root.contents.length ≤ l4Max) {children : List Nat}
    (isListed : root.contents = directoryBytes children)
    (numbers : ∀ child ∈ children, child < 2 ^ 64)
    (files : ∀ child ∈ children, ∃ file, volume[child]? = some file ∧ file.type = .file)
    (depth : Nat) {post : DirEntry → Inodes → (Nat → Block) → Prop}
    (goal : ∀ after, fs.Represents totalBlocks after store volume extents marked →
      after.Roomy → after.queue.length ≤ inodes.queue.length + 2 + 2 * children.length →
      post (volume.tree root children) after store) :
    FsM.wp (Prog.deviceRules totalBlocks) (newRoot fs (depth + 2)) inodes post failed store := by
  obtain ⟨record, -, placed⟩ := rep.holds.placed 0 root found
  obtain ⟨listable, isListing⟩ := Cafs.listing_directoryBytes numbers
  have bytes : (fs.inodeOf 0 root (extents 0)).bytesOn store = directoryBytes children := by
    rw [placed.bytesOn_eq bound, isListed]
  refine FsM.wp_bind.mpr (wp_newDentry rep found ?_
    fun _ stuck => absurd stuck (roomy.substitute_ok _))
  intro visitor visited
  have repVisited : fs.Represents totalBlocks visitor store volume extents marked :=
    ⟨rep.geometry, rep.holds, rep.coherent.visited found visited⟩
  have roomyVisited := roomy.visited rep.coherent visited
  refine FsM.wp_bind.mpr (FsM.wp_bind.mpr (Cafs.wp_subInodes repVisited found ?_
    (fun _ stuck => absurd stuck (roomyVisited.substitute_ok _)) fun malformed => ?_))
  · intro pointer looked isLooked _
    have again : visitor.Visited (fs.inodeOf 0 root (extents 0)) _ := ⟨isLooked⟩
    rw [bytes, isDir, isListing]
    refine wp_readDentries ⟨rep.geometry, rep.holds, repVisited.coherent.visited found again⟩
      (roomyVisited.visited repVisited.coherent again) files depth ?_
    intro after repAfter roomyAfter fewAfter
    refine goal after repAfter roomyAfter ?_
    have fewVisited := visited.length_le
    have fewAgain := again.length_le
    omega
  · rw [bytes, isDir] at malformed
    exact absurd listable malformed

end Calls

end Canyon.Fs
