import Canyon.Fs.Coherence

/-!
# The steps of a creation

`create` reads its parent under the read lock of the parent, and writes the longer contents under
the write lock, in a call of `write` of its own; between the two the parent is not locked. A call
is then four steps that the locks keep whole, and other calls may come between them. Each step has
one specification: what it does to the volume, what it leaves to another call, and why it may
panic.
-/

namespace Canyon.Fs

open Canyon.Lib

/-- How far a call of `create` is, with what its variables hold: the handle of the new inode, the
handle of the parent, and what was read from the parent. -/
inductive Creating where
  /-- Nothing is done yet. -/
  | start
  /-- The new inode is allocated. -/
  | allocated (pointer : Nat)
  /-- The parent was read. -/
  | read (pointer parent parentInodeNumber : Nat) (contents : List UInt8)
  /-- The parent was written. -/
  | wrote (pointer parent : Nat)
  /-- The call has returned. -/
  | returned (pointer : Nat)

namespace Creating

/-- The next step of a call of `create` that the locks keep whole. -/
def step (fs : Cafs) (parent : Nat) (name : String) : Creating → FsM Creating
  | start => do return allocated (← fs.allocInodeMeta .file name)
  | allocated pointer => do
    let (parent, parentInodeNumber, contents) ← fs.readParent parent
    return read pointer parent parentInodeNumber contents
  | read pointer parent parentInodeNumber contents => do
    fs.write parentInodeNumber (appendEntry contents (← deref pointer).inodeNumber)
    return wrote pointer parent
  | wrote pointer parent => do
    cloneHandle pointer
    fs.addInodeCache pointer
    dropHandle parent
    return returned pointer
  | returned pointer => return returned pointer

/-- A number of steps of one call. -/
def steps (fs : Cafs) (parent : Nat) (name : String) : Nat → Creating → FsM Creating
  | 0, call => return call
  | count + 1, call => do steps fs parent name count (← call.step fs parent name)

/-- `create` takes four steps. -/
theorem steps_four (fs : Cafs) (parent : Nat) (name : String) :
    steps fs parent name 4 start = returned <$> fs.create parent name := by
  simp only [steps, step, Cafs.create, bind_assoc, pure_bind, map_bind, map_pure]

/-- Number of steps taken. -/
def rank : Creating → Nat
  | start => 0
  | allocated _ => 1
  | read _ _ _ _ => 2
  | wrote _ _ => 3
  | returned _ => 4

/-- The handle of the new inode. -/
def pointer : Creating → Option Nat
  | start => none
  | allocated pointer => some pointer
  | read pointer _ _ _ => some pointer
  | wrote pointer _ => some pointer
  | returned pointer => some pointer

end Creating

/-! ## What a step does -/

namespace Inodes

/-- What a step of one call leaves of the inode cache for the other: objects keep their inode
numbers, and handles stay, but for those on the parent. -/
structure Keeps (parent : Nat) (before after : Inodes) : Prop where
  /-- Pointers stay in use. -/
  next : before.next ≤ after.next
  /-- Objects keep their numbers. -/
  number : ∀ pointer < before.next,
    (after.heap pointer).inodeNumber = (before.heap pointer).inodeNumber
  /-- Handles on other inodes stay. -/
  handles : ∀ pointer ∈ before.handles, (before.heap pointer).inodeNumber ≠ parent →
    pointer ∈ after.handles

/-- A caller holds an inode that is not the parent. -/
structure Owns (inodes : Inodes) (parent pointer : Nat) : Prop where
  /-- The caller has a handle. -/
  held : pointer ∈ inodes.handles
  /-- The pointer is in use. -/
  inUse : pointer < inodes.next
  /-- The inode is not the parent. -/
  other : (inodes.heap pointer).inodeNumber ≠ parent

variable {parent pointer size : Nat} {blocks queue : List Nat} {object : CaInode}
  {inodes before after : Inodes}

/-- An inode stays with its owner. -/
theorem Owns.keeps (owns : before.Owns parent pointer) (keeps : before.Keeps parent after) :
    after.Owns parent pointer where
  held := keeps.handles pointer owns.held owns.other
  inUse := Nat.lt_of_lt_of_le owns.inUse keeps.next
  other := by
    rw [keeps.number pointer owns.inUse]
    exact owns.other

/-- A new object takes a pointer that was not in use. -/
theorem keeps_inserted (inodes : Inodes) (parent : Nat) (object : CaInode) (queue : List Nat) :
    inodes.Keeps parent (inodes.inserted object queue) where
  next := Nat.le_succ _
  number := fun _ inUse =>
    congrArg CaInode.inodeNumber (Function.update_of_ne (Nat.ne_of_lt inUse) _ _)
  handles := fun _ held _ => List.mem_cons_of_mem _ held

/-- A lookup keeps what the callers have. -/
theorem Looked.keeps (looked : inodes.Looked object pointer after) (parent : Nat) :
    inodes.Keeps parent after := by
  cases looked with
  | hit found =>
    exact ⟨Nat.le_refl _, fun _ _ => rfl, fun _ held _ => List.mem_cons_of_mem _ held⟩
  | miss absent done => exact inodes.keeps_inserted parent object _

/-- The handles after a lookup. -/
theorem Looked.handles_eq (looked : inodes.Looked object pointer after) :
    after.handles = pointer :: inodes.handles := by
  cases looked <;> rfl

/-- A write keeps what the callers have. -/
theorem Looked.keeps_wrote (looked : inodes.Looked object pointer after) (parent size : Nat)
    (blocks : List Nat) : inodes.Keeps parent (after.wrote pointer size blocks) where
  next := (looked.keeps parent).next
  number := by
    intro other inUse
    rw [inodeNumber_wrote, (looked.keeps parent).number other inUse]
  handles := by
    intro other held _
    show other ∈ after.handles.erase pointer
    rw [looked.handles_eq, List.erase_cons_head]
    exact held

end Inodes

namespace Creating

/-- The handles of a call are what the call takes them for. -/
def Valid (parent : Nat) (inodes : Inodes) : Creating → Prop
  | start => True
  | allocated pointer => inodes.Owns parent pointer
  | read pointer parentPointer parentInodeNumber _ => inodes.Owns parent pointer ∧
      parentInodeNumber = parent ∧ parentPointer < inodes.next ∧
      (inodes.heap parentPointer).inodeNumber = parent
  | wrote pointer parentPointer => inodes.Owns parent pointer ∧ parentPointer < inodes.next ∧
      (inodes.heap parentPointer).inodeNumber = parent
  | returned pointer => inodes.Owns parent pointer

/-- What a step does to the volume: the first adds a file, the second reads the contents of the
parent, the third writes them with the entry of the new file. -/
inductive Next (parent : Nat) (volume : Volume) (file : File) (before after : Inodes) :
    Creating → Creating → Volume → File → Prop where
  /-- `alloc_inode_meta`. -/
  | allocate {pointer : Nat} {bytes : NameBytes}
      (isNumber : (after.heap pointer).inodeNumber = volume.length) :
      Next parent volume file before after start (allocated pointer) (volume.add .file bytes) file
  /-- The parent's data. -/
  | read {pointer parentPointer : Nat} :
      Next parent volume file before after (allocated pointer)
        (read pointer parentPointer parent file.contents) volume file
  /-- `write`. -/
  | write {pointer parentPointer : Nat} {contents longer : List UInt8}
      (isLonger : longer = appendEntry contents (before.heap pointer).inodeNumber) :
      Next parent volume file before after (read pointer parentPointer parent contents)
        (wrote pointer parentPointer) (volume.write parent longer) { file with contents := longer }
  /-- `add_inode_cache`. -/
  | insert {pointer parentPointer : Nat} :
      Next parent volume file before after (wrote pointer parentPointer) (returned pointer) volume
        file
  /-- A call that has returned does nothing. -/
  | rest {pointer : Nat} :
      Next parent volume file before after (returned pointer) (returned pointer) volume file

/-- Why a step may panic. -/
def Stuck (fs : Cafs) (name : String) (volume : Volume) (file : File) (marked : Nat → Bool)
    (inodes : Inodes) : Creating → Prop
  | start => volume.length = fs.inodeBitmap.totalCount ∨ nameBytes (utf8Bytes name) = none ∨
      inodes.queue.length = inodeCacheSize
  | read pointer _ _ contents => inodes.queue.length = inodeCacheSize ∨
      fs.dataBitmap.totalCount < fs.dataBitmap.used marked + Cafs.growth file.contents.length
        (appendEntry contents (inodes.heap pointer).inodeNumber).length
  | returned _ => False
  | _ => inodes.queue.length = inodeCacheSize

/-- What a step leaves. -/
structure Stepped (fs : Cafs) (totalBlocks parent : Nat) (volume : Volume) (file : File)
    (marked : Nat → Bool) (inodes : Inodes) (call : Creating) (volumeAfter : Volume)
    (fileAfter : File) (markedAfter : Nat → Bool) (inodesAfter : Inodes)
    (storeAfter : Nat → Block) (callAfter : Creating) : Prop where
  /-- The effect on the volume. -/
  next : Next parent volume file inodes inodesAfter call callAfter volumeAfter fileAfter
  /-- The file system represents the volume. -/
  represents : ∃ extents,
    fs.Represents totalBlocks inodesAfter storeAfter volumeAfter extents markedAfter
  /-- The other call keeps what it has. -/
  keeps : inodes.Keeps parent inodesAfter
  /-- The call has what it needs. -/
  valid : callAfter.Valid parent inodesAfter
  /-- A step adds one entry to the inode cache. -/
  queue : inodesAfter.queue.length + call.rank ≤ inodes.queue.length + callAfter.rank
  /-- A step marks the blocks by which the parent grows. -/
  used : fs.dataBitmap.used markedAfter = fs.dataBitmap.used marked +
    Cafs.growth file.contents.length fileAfter.contents.length

variable {parent totalBlocks pointer : Nat} {name : String} {fs : Cafs} {inodes after : Inodes}
  {store : Nat → Block} {volume : Volume} {extents : Nat → Extent} {marked : Nat → Bool}
  {file : File} {call : Creating}

/-- A call keeps what it needs while the other takes a step. -/
theorem Valid.keeps (valid : call.Valid parent inodes) (keeps : inodes.Keeps parent after) :
    call.Valid parent after := by
  cases call with
  | start => trivial
  | allocated pointer => exact Inodes.Owns.keeps valid keeps
  | read pointer parentPointer parentInodeNumber contents =>
    obtain ⟨owns, isParent, inUse, number⟩ := valid
    exact ⟨owns.keeps keeps, isParent, Nat.lt_of_lt_of_le inUse keeps.next,
      (keeps.number _ inUse).trans number⟩
  | wrote pointer parentPointer =>
    obtain ⟨owns, inUse, number⟩ := valid
    exact ⟨owns.keeps keeps, Nat.lt_of_lt_of_le inUse keeps.next,
      (keeps.number _ inUse).trans number⟩
  | returned pointer => exact Inodes.Owns.keeps valid keeps

section Steps

variable (rep : fs.Represents totalBlocks inodes store volume extents marked)
  (found : volume[parent]? = some file)

include rep found

/-- The step that allocates the new inode. -/
theorem wp_allocate : FsM.wp (Prog.deviceRules totalBlocks) (step fs parent name start) inodes
    (fun callAfter inodesAfter storeAfter => ∃ volumeAfter fileAfter markedAfter,
      Stepped fs totalBlocks parent volume file marked inodes start volumeAfter fileAfter
        markedAfter inodesAfter storeAfter callAfter)
    (fun _ _ => Stuck fs name volume file marked inodes start) store := by
  obtain ⟨inside, -⟩ := List.getElem?_eq_some_iff.mp found
  refine FsM.wp_bind.mpr (Cafs.wp_allocInodeMeta rep ?_ (fun none => .inl none)
    (fun _ long => .inr (.inl long)) fun _ full => .inr (.inr full))
  intro bytes queue storeAfter isName added holds _
  have isNumber : ((inodes.inserted (fs.inodeOf volume.length ⟨.file, bytes, []⟩ ⟨[], []⟩)
      queue).heap inodes.next).inodeNumber = volume.length := by
    rw [Inodes.inserted]
    dsimp only
    rw [Function.update_self, Cafs.inodeOf]
  refine FsM.wp_pure.mpr ⟨_, file, marked, .allocate isNumber,
    ⟨_, rep.geometry, holds, rep.coherent.inserted added⟩,
    inodes.keeps_inserted parent _ queue, ?_, ?_, by rw [Cafs.growth_self, Nat.add_zero]⟩
  · refine ⟨List.mem_cons_self, Nat.lt_succ_self _, ?_⟩
    rw [isNumber]
    exact Nat.ne_of_gt inside
  · obtain ⟨removed, perm⟩ := (Inodes.substituted added).part
    have total := perm.length_eq
    rw [List.length_append] at total
    show (queue ++ [inodes.next]).length + 0 ≤ inodes.queue.length + 1
    rw [List.length_append, List.length_singleton]
    omega

/-- The step that reads the parent. -/
theorem wp_read (bound : file.contents.length ≤ l4Max) (owns : inodes.Owns parent pointer) :
    FsM.wp (Prog.deviceRules totalBlocks) (step fs parent name (allocated pointer)) inodes
      (fun callAfter inodesAfter storeAfter => ∃ volumeAfter fileAfter markedAfter,
        Stepped fs totalBlocks parent volume file marked inodes (allocated pointer) volumeAfter
          fileAfter markedAfter inodesAfter storeAfter callAfter)
      (fun _ _ => Stuck fs name volume file marked inodes (allocated pointer)) store := by
  refine FsM.wp_bind.mpr (Cafs.wp_readParent rep found ?_ ?_)
  swap
  · intro _ stuck
    exact (Inodes.substitute_error stuck).2.1
  intro parentPointer looked isLooked
  obtain ⟨record, -, placed⟩ := rep.holds.placed parent file found
  obtain ⟨coherent, parentIn, isObject, -⟩ := rep.coherent.looked found isLooked
  rw [placed.bytesOn_eq bound]
  refine FsM.wp_pure.mpr ⟨volume, file, marked, .read, ⟨extents, rep.geometry, rep.holds, coherent⟩,
    isLooked.keeps parent, ⟨owns.keeps (isLooked.keeps parent), rfl,
      coherent.allocated _ parentIn, by rw [isObject, Cafs.inodeOf]⟩, ?_,
    by rw [Cafs.growth_self, Nat.add_zero]⟩
  have longer := isLooked.length_queue_le
  show looked.queue.length + 1 ≤ inodes.queue.length + 2
  omega

/-- The step that writes the parent. -/
theorem wp_rewrite {parentPointer : Nat} {contents : List UInt8}
    (valid : (read pointer parentPointer parent contents).Valid parent inodes)
    (wide : (appendEntry contents (inodes.heap pointer).inodeNumber).length < 2 ^ 64)
    (keeps : dataBlocks file.contents.length ≤
      dataBlocks (appendEntry contents (inodes.heap pointer).inodeNumber).length) :
    FsM.wp (Prog.deviceRules totalBlocks)
      (step fs parent name (read pointer parentPointer parent contents)) inodes
      (fun callAfter inodesAfter storeAfter => ∃ volumeAfter fileAfter markedAfter,
        Stepped fs totalBlocks parent volume file marked inodes
          (read pointer parentPointer parent contents) volumeAfter fileAfter markedAfter
          inodesAfter storeAfter callAfter)
      (fun _ _ => Stuck fs name volume file marked inodes
        (read pointer parentPointer parent contents)) store := by
  obtain ⟨owns, -, inUse, isParent⟩ := valid
  refine FsM.wp_bind.mpr (FsM.wp_deref.mpr (FsM.wp_bind.mpr
    (Cafs.wp_write rep found wide keeps ?_ ?_ fun _ _ none => .inr none)))
  swap
  · intro _ stuck
    exact .inl (Inodes.substitute_error stuck).2.1
  intro writer looked extent storeAfter markedAfter isLooked rewritten
  have kept := isLooked.keeps_wrote parent
    (appendEntry contents (inodes.heap pointer).inodeNumber).length extent.data
  refine FsM.wp_pure.mpr ⟨_, _, markedAfter, .write rfl,
    ⟨_, rep.wrote found keeps isLooked rewritten⟩, kept, ⟨owns.keeps kept,
      Nat.lt_of_lt_of_le inUse kept.next, (kept.number _ inUse).trans isParent⟩, ?_,
    rewritten.used⟩
  have longer := isLooked.length_queue_le
  show looked.queue.length + 2 ≤ inodes.queue.length + 3
  omega

omit found in
/-- The step that puts the new inode into the cache again. -/
theorem wp_insert {parentPointer : Nat}
    (valid : (wrote pointer parentPointer).Valid parent inodes) :
    FsM.wp (Prog.deviceRules totalBlocks) (step fs parent name (wrote pointer parentPointer))
      inodes
      (fun callAfter inodesAfter storeAfter => ∃ volumeAfter fileAfter markedAfter,
        Stepped fs totalBlocks parent volume file marked inodes (wrote pointer parentPointer)
          volumeAfter fileAfter markedAfter inodesAfter storeAfter callAfter)
      (fun _ _ => Stuck fs name volume file marked inodes (wrote pointer parentPointer))
      store := by
  obtain ⟨owns, inUse, isParent⟩ := valid
  have pointerIn := rep.coherent.pinned pointer owns.held
  refine FsM.wp_bind.mpr (FsM.wp_cloneHandle.mpr (FsM.wp_bind.mpr (Cafs.wp_addInodeCache ?_ ?_)))
  swap
  · intro stuck
    exact (Inodes.substitute_error stuck).2.1
  intro queue pushed
  have cloned := rep.coherent.clone pointerIn
  have inserted := ((cloned.push (Inodes.substituted pushed).subset (cloned.held pushed)
    ((Inodes.substituted pushed).room cloned.bounded) pointerIn).drop pointer).drop parentPointer
  -- the handle on the parent is the only one that goes
  have kept : inodes.Keeps parent ⟨queue ++ [pointer],
      ((pointer :: inodes.handles).erase pointer).erase parentPointer, inodes.heap,
      inodes.next⟩ := by
    refine ⟨Nat.le_refl _, fun _ _ => rfl, ?_⟩
    intro other held different
    rw [List.erase_cons_head]
    refine (List.mem_erase_of_ne fun same => different ?_).mpr held
    rw [same]
    exact isParent
  refine FsM.wp_bind.mpr (FsM.wp_dropHandle.mpr (FsM.wp_pure.mpr ⟨volume, file, marked, .insert,
    ⟨extents, rep.geometry, rep.holds, inserted⟩, kept, owns.keeps kept, ?_,
    by rw [Cafs.growth_self, Nat.add_zero]⟩))
  obtain ⟨removed, perm⟩ := (Inodes.substituted pushed).part
  have total := perm.length_eq
  rw [List.length_append] at total
  show (queue ++ [pointer]).length + 3 ≤ inodes.queue.length + 4
  rw [List.length_append, List.length_singleton]
  dsimp only at total
  omega

/-- A step does what it is for, unless the device or the inode cache has no room. -/
theorem wp_step (bound : file.contents.length ≤ l4Max) (valid : call.Valid parent inodes)
    (fits : ∀ pointer parentPointer contents,
      call = read pointer parentPointer parent contents →
      (appendEntry contents (inodes.heap pointer).inodeNumber).length < 2 ^ 64 ∧
      dataBlocks file.contents.length ≤
        dataBlocks (appendEntry contents (inodes.heap pointer).inodeNumber).length) :
    FsM.wp (Prog.deviceRules totalBlocks) (call.step fs parent name) inodes
      (fun callAfter inodesAfter storeAfter => ∃ volumeAfter fileAfter markedAfter,
        Stepped fs totalBlocks parent volume file marked inodes call volumeAfter fileAfter
          markedAfter inodesAfter storeAfter callAfter)
      (fun _ _ => call.Stuck fs name volume file marked inodes) store := by
  cases call with
  | start => exact wp_allocate rep found
  | allocated pointer => exact wp_read rep found bound valid
  | read pointer parentPointer parentInodeNumber contents =>
    obtain rfl : parentInodeNumber = parent := valid.2.1
    obtain ⟨wide, keeps⟩ := fits pointer parentPointer contents rfl
    exact wp_rewrite rep found valid wide keeps
  | wrote pointer parentPointer => exact wp_insert rep valid
  | returned pointer =>
    exact FsM.wp_pure.mpr ⟨volume, file, marked, .rest, ⟨extents, rep⟩,
      ⟨Nat.le_refl _, fun _ _ => rfl, fun _ held _ => held⟩, valid, Nat.le_refl _,
      by rw [Cafs.growth_self, Nat.add_zero]⟩

end Steps

/-- What a call holds is its own. -/
theorem Valid.owns (valid : call.Valid parent inodes) (isPointer : call.pointer = some pointer) :
    inodes.Owns parent pointer := by
  cases call with
  | start => cases isPointer
  | allocated own => exact Option.some.inj isPointer ▸ valid
  | read own parentPointer parentInodeNumber contents => exact Option.some.inj isPointer ▸ valid.1
  | wrote own parentPointer => exact Option.some.inj isPointer ▸ valid.1
  | returned own => exact Option.some.inj isPointer ▸ valid

variable {callAfter : Creating} {volumeAfter : Volume} {fileAfter : File}

/-- A call keeps its inode. -/
theorem Next.pointer_eq
    (next : Next parent volume file inodes after call callAfter volumeAfter fileAfter)
    (isPointer : call.pointer = some pointer) : callAfter.pointer = some pointer := by
  cases next with
  | allocate isNumber => cases isPointer
  | read => exact isPointer
  | write isLonger => exact isPointer
  | insert => exact isPointer
  | rest => exact isPointer

/-- A call is one step further. -/
theorem Next.rank_eq
    (next : Next parent volume file inodes after call callAfter volumeAfter fileAfter) :
    callAfter.rank = min 4 (call.rank + 1) := by
  cases next <;> rfl

/-- The inode of a call is the one it had or the one that was added. -/
theorem Next.pointer_cases
    (next : Next parent volume file inodes after call callAfter volumeAfter fileAfter)
    (isPointer : callAfter.pointer = some pointer) :
    call.pointer = some pointer ∨ (after.heap pointer).inodeNumber = volume.length := by
  cases next with
  | allocate isNumber => exact .inr (Option.some.inj isPointer ▸ isNumber)
  | read => exact .inl isPointer
  | write isLonger => exact .inl isPointer
  | insert => exact .inl isPointer
  | rest => exact .inl isPointer

/-- A call adds one file, in its first step. -/
theorem Next.length_le
    (next : Next parent volume file inodes after call callAfter volumeAfter fileAfter) :
    volumeAfter.length + min 1 call.rank ≤ volume.length + min 1 callAfter.rank := by
  cases next with
  | allocate isNumber =>
    rw [Volume.length_add]
    exact Nat.le_refl _
  | read => exact Nat.le_refl _
  | write isLonger =>
    rw [Volume.length_write]
    exact Nat.le_refl _
  | insert => exact Nat.le_refl _
  | rest => exact Nat.le_refl _

/-- The parent after a step. -/
theorem Next.found
    (next : Next parent volume file inodes after call callAfter volumeAfter fileAfter)
    (found : volume[parent]? = some file) :
    volumeAfter[parent]? = some fileAfter ∧ fileAfter.type = file.type ∧
      volume.length ≤ volumeAfter.length := by
  cases next with
  | allocate isNumber =>
    obtain ⟨inside, -⟩ := List.getElem?_eq_some_iff.mp found
    rw [Volume.getElem?_add_of_lt inside, Volume.length_add]
    exact ⟨found, rfl, Nat.le_succ _⟩
  | read => exact ⟨found, rfl, Nat.le_refl _⟩
  | write isLonger =>
    rw [Volume.length_write]
    exact ⟨Volume.getElem?_write_self found _, rfl, Nat.le_refl _⟩
  | insert => exact ⟨found, rfl, Nat.le_refl _⟩
  | rest => exact ⟨found, rfl, Nat.le_refl _⟩

end Creating

end Canyon.Fs
