import Canyon.Fs.Remount

/-!
# Room in the inode cache

What callers that drop their handles leave in the inode cache, whatever the device holds. A lookup
files an inode that has no entry yet, and finds an entry to give up when there is no room; but
`create` files its inode twice, and an inode with two entries is never given up.
-/

namespace Canyon.Fs

open Canyon.Lib
open EStateM (Result)

/-! ## Programs on blocks -/

/-- A program on blocks that does not report a full inode cache. -/
abbrev Prog.Clear {α : Type} (program : Prog α) : Prop := program.Avoids .runOutOfInodeCache

section Clear

variable {α γ : Type} {codec : Codec α} {blockId offset : Nat}

/-- A read of a record. -/
theorem clear_readAt {body : α → Prog γ} (bodies : ∀ value, (body value).Clear) :
    (readAt codec blockId offset body).Clear := by
  refine Scoped.avoids_read fun block => ?_
  split
  · split
    · exact bodies _
    · exact Panic.noConfusion
  · exact Panic.noConfusion

/-- A change of a record. -/
theorem clear_modifyAt {body : α → Prog (γ × α)} (bodies : ∀ value, (body value).Clear) :
    (modifyAt codec blockId offset body).Clear := by
  refine Scoped.avoids_write fun block => ?_
  split
  · split
    · exact (bodies _).bind fun _ => trivial
    · exact Panic.noConfusion
  · exact Panic.noConfusion

/-- A locked access. -/
theorem clear_lockedAt {body : α → Prog (γ × Option α)} (bodies : ∀ value, (body value).Clear) :
    (lockedAt codec blockId offset body).Clear := by
  refine Scoped.avoids_write fun block => ?_
  split
  · split
    · exact (bodies _).bind fun _ => trivial
    · exact Panic.noConfusion
  · exact Panic.noConfusion

/-- An assignment of a record. -/
theorem clear_overwriteAt {value : α} : (overwriteAt codec blockId offset value).Clear := by
  refine Scoped.avoids_write fun block => ?_
  split
  · trivial
  · exact Panic.noConfusion

/-- `u64` subtraction. -/
theorem clear_subtract (left right : Nat) : (subtract left right).Clear := by
  unfold subtract
  split
  · trivial
  · exact Panic.noConfusion

/-- `_to_vec`. -/
theorem IndirectBlock.clear_toVecFrom (filter : Option (List Nat)) (depth : Nat)
    (node : IndirectBlock) (found : List Nat × List Nat) :
    (node.toVecFrom filter depth found).Clear := by
  induction depth generalizing node found with
  | zero => exact Panic.noConfusion
  | succ depth ih =>
    unfold toVecFrom
    split
    · trivial
    · exact Scoped.avoids_foldlM (fun found id => clear_readAt fun child => ih child _) _ _

/-- `Meta::blocks`. -/
theorem Meta.clear_blocks (record : Meta) : record.blocks.Clear := by
  unfold blocks
  split
  · refine (clear_readAt fun node => ?_).bind fun _ => trivial
    exact (node.clear_toVecFrom none callDepth _).bind fun _ => trivial
  · trivial

/-- A loop of `forward`. -/
theorem clear_writeLevel (type : IndirectBlockType) (ids entries : List Nat) :
    (writeLevel type ids entries).Clear := by
  induction ids generalizing entries with
  | nil => trivial
  | cons id ids ih => exact clear_overwriteAt.bind fun _ => ih _

/-- `Meta::forward`. -/
theorem Meta.clear_forward (record : Meta) (info : LevelInfo) (index data : List Nat) :
    (record.forward info index data).Clear := by
  unfold forward
  dsimp only
  split
  · refine Scoped.Avoids.bind ?_ fun _ => trivial
    exact (clear_writeLevel _ _ _).bind fun _ => (clear_writeLevel _ _ _).bind fun _ =>
      (clear_writeLevel _ _ _).bind fun _ => clear_writeLevel _ _ _
  · trivial

/-- The collection of surplus ids. -/
theorem clear_popMany (count : Nat) (ids collected : List Nat) :
    (popMany count ids collected).Clear := by
  induction count generalizing ids collected with
  | zero => trivial
  | succ count ih =>
    unfold popMany
    split
    · exact Panic.noConfusion
    · exact ih _ _

/-- `Meta::extend`. -/
theorem Meta.clear_extend (record : Meta) (newSize : Nat) (newInfo : LevelInfo)
    (newData newIndex : List Nat) : (record.extend newSize newInfo newData newIndex).Clear := by
  unfold extend
  split
  · exact (Meta.clear_blocks _).bind fun _ => Meta.clear_forward _ _ _ _
  · exact Panic.noConfusion

/-- `Meta::shrink`. -/
theorem Meta.clear_shrink (record : Meta) (newSize : Nat) : (record.shrink newSize).Clear := by
  unfold shrink
  split
  · exact (Meta.clear_blocks _).bind fun _ => (clear_subtract _ _).bind fun _ =>
      (clear_popMany _ _ _).bind fun _ => (clear_subtract _ _).bind fun _ =>
      (clear_popMany _ _ _).bind fun _ => (Meta.clear_forward _ _ _ _).bind fun _ => trivial
  · exact Panic.noConfusion

/-- `Bitmap::alloc`. -/
theorem Bitmap.clear_alloc (bitmap : Bitmap) : bitmap.alloc.Clear := by
  suffices search : ∀ ids, (bitmap.allocFrom ids).Clear from search _
  intro ids
  induction ids with
  | nil => trivial
  | cons blockId rest ih =>
    refine Scoped.Avoids.bind (clear_lockedAt fun words => ?_) fun found => ?_
    · split <;> trivial
    · cases found with
      | none => exact ih
      | some bit => trivial

/-- `Bitmap::dealloc`. -/
theorem Bitmap.clear_dealloc (bitmap : Bitmap) (bit : Nat) : (bitmap.dealloc bit).Clear := by
  unfold dealloc
  refine clear_modifyAt fun words => ?_
  split
  · trivial
  · exact Panic.noConfusion

/-- `Bitmap::free_count`. -/
theorem Bitmap.clear_freeCount (bitmap : Bitmap) : bitmap.freeCount.Clear := by
  refine Scoped.avoids_foldlM (fun count blockId => ?_) _ _
  refine Scoped.Avoids.bind (clear_readAt fun words => ?_) fun free => ?_
  · trivial
  · trivial

/-- `CaInode::from`. -/
theorem CaInode.clear_from (inodeNumber blockId offset : Nat) :
    (CaInode.from inodeNumber blockId offset).Clear :=
  clear_readAt fun record => record.clear_blocks.bind fun _ => trivial

/-- `CaInode::data`. -/
theorem CaInode.clear_data (inode : CaInode) : inode.data.Clear := by
  unfold data
  split
  · trivial
  · refine Scoped.avoids_foldlM (fun data id => Scoped.avoids_read fun block => ?_) _ _
    trivial

variable (fs : Cafs)

/-- `alloc_data` a number of times. -/
theorem Cafs.clear_allocMany (count : Nat) (ids : List Nat) : (fs.allocMany count ids).Clear := by
  induction count generalizing ids with
  | zero => trivial
  | succ count ih =>
    refine Scoped.Avoids.bind (fs.dataBitmap.clear_alloc.bind fun found => ?_) fun _ => ih _
    cases found with
    | none => exact Panic.noConfusion
    | some bit => trivial

/-- `dealloc` of every id of a list. -/
theorem Cafs.clear_deallocAll (ids : List Nat) : (fs.deallocAll ids).Clear := by
  induction ids with
  | nil => trivial
  | cons id ids ih => exact (fs.dataBitmap.clear_dealloc id).bind fun _ => ih

/-- The closure of `CAFS::write`. -/
theorem Cafs.clear_resize (record : Meta) (newSize : Nat) : (fs.resize record newSize).Clear := by
  have grows : (fs.grow record newSize).Clear :=
    (clear_subtract _ _).bind fun _ => (fs.clear_allocMany _ _).bind fun _ =>
      (clear_subtract _ _).bind fun _ => (fs.clear_allocMany _ _).bind fun _ =>
      record.clear_extend _ _ _ _
  have cuts : (fs.cut record newSize).Clear :=
    (record.clear_shrink newSize).bind fun _ => (fs.clear_deallocAll _).bind fun _ =>
      (fs.clear_deallocAll _).bind fun _ => trivial
  have finish : ∀ resized : Meta, Prog.Clear (do return (← resized.blocks, resized)) :=
    fun resized => resized.clear_blocks.bind fun _ => trivial
  unfold resize
  split
  · exact grows.bind finish
  · split
    · exact cuts.bind finish
    · exact finish record

/-- The loop of `CAFS::write` over the data blocks. -/
theorem Cafs.clear_fillBlocks (ids : List Nat) (contents : List UInt8) :
    (fillBlocks ids contents).Clear := by
  induction ids generalizing contents with
  | nil => trivial
  | cons id ids ih =>
    refine Scoped.Avoids.bind (Scoped.avoids_write fun block => ?_) fun _ => ih _
    trivial

/-- The loop of `CAFS::sub_inodes`. -/
theorem Cafs.clear_parseEntries (parts : List (List UInt8)) : (parseEntries parts).Clear := by
  induction parts with
  | nil => trivial
  | cons part parts ih =>
    unfold parseEntries
    split
    · exact ih.bind fun _ => trivial
    · exact Panic.noConfusion

end Clear

/-! ## Calls -/

namespace FsM

variable {α γ : Type} {inodes : Inodes}

/-- Whatever the blocks hold, a call that returns leaves an inode cache with `post`. -/
def Leaves (call : FsM α) (inodes : Inodes) (post : α → Inodes → Prop) : Prop :=
  (call.run inodes).Yields fun out => post out.1 out.2

/-- Whatever the blocks hold, a call does not report a full inode cache, and leaves one with
`post` when it returns. -/
def Clears (call : FsM α) (inodes : Inodes) (post : α → Inodes → Prop) : Prop :=
  call.Leaves inodes post ∧ Prog.Clear (call.run inodes)

variable {call : FsM α} {post : α → Inodes → Prop}

/-- The rule of a sequence. -/
theorem leaves_bind {next : α → FsM γ} {post : γ → Inodes → Prop} :
    Leaves (call >>= next) inodes post ↔
      call.Leaves inodes fun value inodes => (next value).Leaves inodes post :=
  Scoped.yields_bind

/-- The rule of a call that returns at once. -/
theorem leaves_pure {value : α} : Leaves (pure value) inodes post ↔ post value inodes :=
  Iff.rfl

/-- The rule of a change of the cache. -/
theorem leaves_modify {change : Inodes → Inodes} {post : PUnit → Inodes → Prop} :
    Leaves (modify change) inodes post ↔ post ⟨⟩ (change inodes) :=
  Iff.rfl

/-- The rule of a new object. -/
theorem leaves_newHandle {inode : CaInode} {post : Nat → Inodes → Prop} :
    Leaves (newHandle inode) inodes post ↔ post inodes.next (inodes.alloc inode).2 :=
  Iff.rfl

/-- The rule of a look behind a pointer. -/
theorem leaves_deref {pointer : Nat} {post : CaInode → Inodes → Prop} :
    Leaves (deref pointer) inodes post ↔ post (inodes.heap pointer) inodes :=
  Iff.rfl

/-- The rule of a program on the blocks. -/
theorem leaves_onBlocks {program : Prog α} (values : ∀ value, post value inodes) :
    Leaves (onBlocks program) inodes post :=
  Scoped.yields_bind.mpr (Scoped.yields_of_forall values)

/-- The rule of a substitution. -/
theorem leaves_substituteInode {post : Unit → Inodes → Prop}
    (done : ∀ queue, Inodes.Substituted inodes.queue inodes.handles queue →
      post () { inodes with queue }) : Leaves substituteInode inodes post := by
  refine leaves_bind.mpr ?_
  show Leaves _ inodes post
  cases outcome : Inodes.substitute inodes.queue inodes.handles with
  | ok queue => exact done queue (Inodes.substituted outcome)
  | error error => trivial

/-- A weaker condition on the cache. -/
theorem Clears.mono {weaker : α → Inodes → Prop} (clears : call.Clears inodes post)
    (values : ∀ value inodes, post value inodes → weaker value inodes) :
    call.Clears inodes weaker :=
  ⟨clears.1.mono fun out => values out.1 out.2, clears.2⟩

/-- The rule of a sequence of calls that do not report a full cache. -/
theorem clears_bind {next : α → FsM γ} {post : γ → Inodes → Prop}
    (clears : call.Clears inodes fun value inodes => (next value).Clears inodes post) :
    Clears (call >>= next) inodes post :=
  ⟨Scoped.yields_bind.mpr (clears.1.mono fun _ => And.left),
    Scoped.avoids_bind.mpr ⟨clears.2, clears.1.mono fun _ => And.right⟩⟩

/-- The rule of a program on the blocks that does not report one. -/
theorem clears_onBlocks {program : Prog α} (clear : program.Clear)
    (yields : program.Yields fun value => post value inodes) :
    Clears (onBlocks program) inodes post :=
  ⟨Scoped.yields_bind.mpr yields, clear.bind fun _ => trivial⟩

/-- The rule of a look at the cache. -/
theorem clears_get {next : Inodes → FsM γ} {post : γ → Inodes → Prop}
    (clears : (next inodes).Clears inodes post) : Clears (get >>= next) inodes post :=
  clears_bind ⟨clears, trivial⟩

/-- The rule of a change of the cache. -/
theorem clears_modify {change : Inodes → Inodes} {post : PUnit → Inodes → Prop}
    (changed : post ⟨⟩ (change inodes)) : Clears (modify change) inodes post :=
  ⟨changed, trivial⟩

/-- The rule of a look behind a pointer. -/
theorem clears_deref {pointer : Nat} {post : CaInode → Inodes → Prop}
    (seen : post (inodes.heap pointer) inodes) : Clears (deref pointer) inodes post :=
  ⟨seen, trivial⟩

/-- The rule of a substitution that finds room. -/
theorem clears_substituteInode {post : Unit → Inodes → Prop}
    (room : ∀ error, Inodes.substitute inodes.queue inodes.handles ≠ .error error)
    (done : ∀ queue, Inodes.Substituted inodes.queue inodes.handles queue →
      post () { inodes with queue }) : Clears substituteInode inodes post := by
  refine clears_get ?_
  cases outcome : Inodes.substitute inodes.queue inodes.handles with
  | ok queue => exact ⟨done queue (Inodes.substituted outcome), trivial⟩
  | error error => exact absurd outcome (room error)

end FsM

/-! ## One entry for each inode -/

namespace Inodes

variable {inodes after : Inodes} {queue handles : List Nat} {object : CaInode}

/-- The inode numbers of the entries. -/
def numbers (inodes : Inodes) : List Nat :=
  inodes.queue.map fun pointer => (inodes.heap pointer).inodeNumber

/-- No two entries have the same inode number. -/
def Sole (inodes : Inodes) : Prop := inodes.numbers.Nodup

/-- A cache whose entries are inodes of their own. -/
structure Apart (inodes : Inodes) : Prop where
  /-- No two entries have the same inode number. -/
  sole : inodes.Sole
  /-- Entries are allocated. -/
  allocated : ∀ pointer ∈ inodes.queue, pointer < inodes.next
  /-- The cache keeps to its size. -/
  bounded : inodes.queue.length ≤ inodeCacheSize

/-- A cache between two calls of a user who keeps no handle. -/
structure Settled (inodes : Inodes) : Prop where
  /-- Every entry is an inode of its own. -/
  apart : inodes.Apart
  /-- Nobody holds an inode. -/
  idle : inodes.handles = []

/-- A cache of which the user holds one inode. -/
structure Lent (inodes : Inodes) (pointer : Nat) : Prop where
  /-- Every entry is an inode of its own. -/
  apart : inodes.Apart
  /-- The one handle. -/
  held : inodes.handles = [pointer]

/-- An entry that occurs twice is not the only one for its inode. -/
theorem not_sole_of_count {pointer : Nat} (twice : 2 ≤ inodes.queue.count pointer) :
    ¬inodes.Sole := by
  intro sole
  have once := List.nodup_iff_count_le_one.mp (List.Nodup.of_map _ sole) pointer
  omega

/-- There is room, or an entry to give up. -/
theorem Settled.substitute_ok (settled : inodes.Settled) (error : Panic) :
    substitute inodes.queue inodes.handles ≠ .error error := by
  intro stuck
  obtain ⟨-, full, none⟩ := substitute_error stuck
  obtain ⟨pointer, pointerIn⟩ := List.exists_mem_of_length_pos
    (show 0 < inodes.queue.length by rw [full]; decide)
  have once := List.count_eq_one_of_mem (List.Nodup.of_map _ settled.apart.sole) pointerIn
  refine findEvictable_ne_none once ?_ none
  rw [settled.idle]
  exact List.not_mem_nil

/-- The inode numbers when a new object is filed behind the entries that are kept. -/
theorem numbers_inserted (allocated : ∀ pointer ∈ queue, pointer < inodes.next)
    (object : CaInode) : (inodes.inserted object queue).numbers =
      (queue.map fun pointer => (inodes.heap pointer).inodeNumber) ++ [object.inodeNumber] := by
  have old : ∀ pointer ∈ queue,
      (inodes.inserted object queue).heap pointer = inodes.heap pointer := fun pointer stays =>
    Function.update_of_ne (Nat.ne_of_lt (allocated pointer stays)) _ _
  have new : (inodes.inserted object queue).heap inodes.next = object := Function.update_self ..
  show ((queue ++ [inodes.next]).map fun pointer => _) = _
  rw [List.map_append, List.map_singleton, new]
  exact congrArg (· ++ _) (List.map_congr_left fun pointer stays => by rw [old pointer stays])

/-- A new object for an inode without an entry. -/
theorem Apart.inserted (apart : inodes.Apart)
    (isSubstituted : Substituted inodes.queue handles queue)
    (absent : ∀ pointer ∈ inodes.queue, (inodes.heap pointer).inodeNumber ≠ object.inodeNumber) :
    (inodes.inserted object queue).Apart := by
  obtain ⟨removed, perm⟩ := isSubstituted.part
  have isNumbers := numbers_inserted (fun pointer stays =>
    apart.allocated pointer (isSubstituted.subset pointer stays)) object
  have kept : (queue.map fun pointer => (inodes.heap pointer).inodeNumber).Nodup := by
    have whole := (perm.map fun pointer => (inodes.heap pointer).inodeNumber).nodup_iff.mpr
      apart.sole
    rw [List.map_append] at whole
    exact whole.of_append_right
  refine ⟨?_, ?_, ?_⟩
  · rw [Sole, isNumbers, List.nodup_append]
    refine ⟨kept, List.nodup_singleton _, ?_⟩
    intro number numberIn other otherIn same
    obtain ⟨pointer, stays, rfl⟩ := List.mem_map.mp numberIn
    rw [List.mem_singleton.mp otherIn] at same
    exact absent pointer (isSubstituted.subset pointer stays) same
  · intro pointer pointerIn
    have split : pointer ∈ queue ++ [inodes.next] := pointerIn
    rw [List.mem_append, List.mem_singleton] at split
    show pointer < inodes.next + 1
    rcases split with stays | rfl
    · exact Nat.lt_succ_of_lt (apart.allocated pointer (isSubstituted.subset pointer stays))
    · exact Nat.lt_succ_self _
  · have room := isSubstituted.room apart.bounded
    show (queue ++ [inodes.next]).length ≤ inodeCacheSize
    rw [List.length_append, List.length_singleton]
    omega

/-- Objects brought up to date keep their entries. -/
theorem Apart.congr (apart : inodes.Apart) (queueEq : after.queue = inodes.queue)
    (nextEq : after.next = inodes.next)
    (numbersEq : ∀ pointer, (after.heap pointer).inodeNumber = (inodes.heap pointer).inodeNumber) :
    after.Apart := by
  refine ⟨?_, ?_, ?_⟩
  · rw [Sole, numbers, queueEq, List.map_congr_left fun pointer _ => numbersEq pointer]
    exact apart.sole
  · rw [queueEq, nextEq]
    exact apart.allocated
  · rw [queueEq]
    exact apart.bounded

/-- The one handle is given back. -/
theorem Lent.release {pointer : Nat} (lent : inodes.Lent pointer) :
    Settled { inodes with handles := inodes.handles.erase pointer } := by
  refine ⟨lent.apart.congr rfl rfl fun _ => rfl, ?_⟩
  show inodes.handles.erase pointer = []
  rw [lent.held, List.erase_cons_head]

end Inodes

/-! ## What calls leave -/

/-- The values of a read of a record. -/
theorem yields_readAt {α γ : Type} {codec : Codec α} {blockId offset : Nat} {body : α → Prog γ}
    {post : γ → Prop} (yields : ∀ value, (body value).Yields post) :
    (readAt codec blockId offset body).Yields post := by
  intro content
  dsimp only
  split
  · split
    · exact yields _
    · trivial
  · trivial

/-- The object that `CaInode::from` makes is for the inode it is asked for. -/
theorem CaInode.yields_from (inodeNumber blockId offset : Nat) :
    (CaInode.from inodeNumber blockId offset).Yields fun inode =>
      inode.inodeNumber = inodeNumber :=
  @yields_readAt Meta CaInode metaCodec blockId offset _ _ fun _ =>
    Scoped.yields_bind.mpr (Scoped.yields_of_forall fun _ => rfl)

namespace Cafs

variable {fs : Cafs} {inodes : Inodes} {number : Nat}

section Clears

/-- A lookup by a user who holds nothing. -/
theorem clears_cainode (settled : inodes.Settled) {post : Nat → Inodes → Prop}
    (goal : ∀ pointer looked, looked.Lent pointer → post pointer looked) :
    (fs.cainode number).Clears inodes post := by
  refine FsM.clears_get ?_
  cases search : inodes.find number with
  | some pointer =>
    refine ⟨goal pointer _ ⟨settled.apart.congr rfl rfl fun _ => rfl, ?_⟩, trivial⟩
    show pointer :: inodes.handles = [pointer]
    rw [settled.idle]
  | none =>
    refine FsM.clears_bind (FsM.clears_substituteInode settled.substitute_ok ?_)
    intro queue isSubstituted
    refine FsM.clears_bind (FsM.clears_onBlocks (CaInode.clear_from _ _ _)
      ((CaInode.yields_from _ _ _).mono ?_))
    rintro object isNumber
    refine ⟨goal inodes.next _ ⟨settled.apart.inserted isSubstituted ?_, ?_⟩, trivial⟩
    · rw [isNumber]
      exact Inodes.find_none search
    · show inodes.next :: inodes.handles = [inodes.next]
      rw [settled.idle]

/-- `write` by a user who holds nothing. -/
theorem clears_write (settled : inodes.Settled) (contents : List UInt8) :
    (fs.write number contents).Clears inodes fun _ after => after.Settled := by
  refine FsM.clears_bind (clears_cainode settled fun pointer looked lent => ?_)
  rw [inodePosOf_eq]
  refine FsM.clears_bind (FsM.clears_onBlocks (clear_modifyAt fun record =>
    fs.clear_resize record _) (Scoped.yields_of_forall fun found => ?_))
  refine FsM.clears_bind (FsM.clears_onBlocks (clear_fillBlocks _ _)
    (Scoped.yields_of_forall fun _ => ?_))
  refine FsM.clears_bind (FsM.clears_modify (FsM.clears_modify ?_))
  refine ⟨lent.apart.congr rfl rfl fun other => ?_, lent.release.idle⟩
  exact Inodes.inodeNumber_wrote looked pointer contents.length found.2 other

/-- `sub_inodes` by a user who holds nothing. -/
theorem clears_subInodes (settled : inodes.Settled) :
    (fs.subInodes number).Clears inodes fun _ after => after.Settled := by
  refine FsM.clears_bind (clears_cainode settled fun pointer looked lent => ?_)
  refine FsM.clears_bind (FsM.clears_deref ?_)
  have drops : Inodes.Settled _ := lent.release
  split
  · exact ⟨drops, trivial⟩
  · refine FsM.clears_bind (FsM.clears_onBlocks (CaInode.clear_data _)
      (Scoped.yields_of_forall fun data => ?_))
    split
    · exact ⟨drops, trivial⟩
    · exact FsM.clears_bind (FsM.clears_onBlocks (clear_parseEntries _)
        (Scoped.yields_of_forall fun _ => ⟨drops, trivial⟩))

end Clears

section Leaves

/-- A lookup hands out one more handle, and keeps the entries that are held. -/
theorem leaves_cainode {post : Nat → Inodes → Prop}
    (goal : ∀ pointer looked, looked.handles = pointer :: inodes.handles →
      (∀ other ∈ inodes.queue, other ∈ inodes.handles → other ∈ looked.queue) →
      post pointer looked) : (fs.cainode number).Leaves inodes post := by
  refine FsM.leaves_bind.mpr ?_
  show FsM.Leaves _ inodes post
  cases search : inodes.find number with
  | some pointer => exact goal pointer _ rfl fun _ otherIn _ => otherIn
  | none =>
    refine FsM.leaves_bind.mpr (FsM.leaves_substituteInode fun queue isSubstituted => ?_)
    rw [inodePosOf_eq]
    refine FsM.leaves_bind.mpr (FsM.leaves_onBlocks fun object => ?_)
    exact goal inodes.next _ rfl fun other otherIn isHeld =>
      List.mem_append_left _ (isSubstituted.held other otherIn isHeld)

/-- `write` gives its handle back, and keeps the entries that are held. -/
theorem leaves_write (contents : List UInt8) {post : Unit → Inodes → Prop}
    (goal : ∀ after, after.handles = inodes.handles →
      (∀ other ∈ inodes.queue, other ∈ inodes.handles → other ∈ after.queue) → post () after) :
    (fs.write number contents).Leaves inodes post := by
  refine FsM.leaves_bind.mpr (leaves_cainode fun pointer looked handles kept => ?_)
  rw [inodePosOf_eq]
  refine FsM.leaves_bind.mpr (FsM.leaves_onBlocks fun found => ?_)
  refine FsM.leaves_bind.mpr (FsM.leaves_onBlocks fun _ => ?_)
  refine FsM.leaves_bind.mpr (FsM.leaves_modify.mpr (FsM.leaves_modify.mpr ?_))
  refine goal _ ?_ kept
  show looked.handles.erase pointer = inodes.handles
  rw [handles, List.erase_cons_head]

/-- An object that is filed has one entry more. -/
theorem leaves_addInodeCache {pointer : Nat} {post : Unit → Inodes → Prop}
    (goal : ∀ queue, Inodes.Substituted inodes.queue inodes.handles queue →
      post () { inodes with
        queue := queue ++ [pointer], handles := inodes.handles.erase pointer }) :
    (fs.addInodeCache pointer).Leaves inodes post :=
  FsM.leaves_bind.mpr (FsM.leaves_substituteInode fun queue isSubstituted =>
    FsM.leaves_bind.mpr (FsM.leaves_modify.mpr (FsM.leaves_modify.mpr
      (goal queue isSubstituted))))

/-- The inode that `alloc_inode_meta` returns is filed and held. -/
theorem leaves_allocInodeMeta {type : InodeType} {name : String} {post : Nat → Inodes → Prop}
    (goal : ∀ pointer after, pointer ∈ after.queue → pointer ∈ after.handles →
      post pointer after) : (fs.allocInodeMeta type name).Leaves inodes post := by
  refine FsM.leaves_bind.mpr (FsM.leaves_onBlocks fun found => ?_)
  cases found with
  | none => trivial
  | some id =>
    dsimp only
    rw [inodePosOf_eq]
    refine FsM.leaves_bind.mpr (FsM.leaves_onBlocks fun object => ?_)
    refine FsM.leaves_bind.mpr (FsM.leaves_newHandle.mpr ?_)
    refine FsM.leaves_bind.mpr (FsM.leaves_modify.mpr ?_)
    refine FsM.leaves_bind.mpr (leaves_addInodeCache fun queue _ => ?_)
    refine goal inodes.next _ (by simp) ?_
    show inodes.next ∈ (inodes.next :: inodes.next :: inodes.handles).erase inodes.next
    rw [List.erase_cons_head]
    exact List.mem_cons_self

/-- `create` files its inode twice. -/
theorem leaves_create {parent : Nat} {name : String} :
    (fs.create parent name).Leaves inodes fun pointer after =>
      2 ≤ after.queue.count pointer := by
  refine FsM.leaves_bind.mpr (leaves_allocInodeMeta fun pointer filed filedIn filedHeld => ?_)
  refine FsM.leaves_bind.mpr
    (FsM.leaves_bind.mpr (leaves_cainode fun held looked handles kept => ?_))
  refine FsM.leaves_bind.mpr (FsM.leaves_deref.mpr (FsM.leaves_bind.mpr
    (FsM.leaves_onBlocks fun contents => FsM.leaves_pure.mpr ?_)))
  have lookedIn := kept pointer filedIn filedHeld
  have lookedHeld : pointer ∈ looked.handles := handles ▸ List.mem_cons_of_mem _ filedHeld
  refine FsM.leaves_bind.mpr (FsM.leaves_deref.mpr ?_)
  refine FsM.leaves_bind.mpr (leaves_write _ fun wrote wroteHandles wroteKept => ?_)
  refine FsM.leaves_bind.mpr (FsM.leaves_modify.mpr (FsM.leaves_bind.mpr
    (leaves_addInodeCache fun queue isSubstituted => ?_)))
  refine FsM.leaves_bind.mpr (FsM.leaves_modify.mpr ?_)
  have stays : pointer ∈ queue := isSubstituted.held pointer
    (wroteKept pointer lookedIn lookedHeld) List.mem_cons_self
  show 2 ≤ (queue ++ [pointer]).count pointer
  have once := List.count_pos_iff.mpr stays
  rw [List.count_append, List.count_singleton_self]
  omega

end Leaves

end Cafs

/-! ## Runs -/

/-- `create`. -/
def Call.IsCreate : Call → Prop
  | .create _ _ => True
  | _ => False

/-- The cache after the user has dropped the handle of an answer. -/
def Inodes.release (inodes : Inodes) : Answer → Inodes
  | .handle pointer => { inodes with handles := inodes.handles.erase pointer }
  | _ => inodes

/-- A call other than `create`, by a user who holds nothing and drops what it returns. -/
theorem Call.clears_run {fs : Cafs} {inodes : Inodes} (settled : inodes.Settled) {call : Call}
    (other : ¬call.IsCreate) :
    (call.run fs).Clears inodes fun answer after => (after.release answer).Settled := by
  cases call with
  | create parent name => exact absurd trivial other
  | write number contents =>
    exact FsM.clears_bind ((Cafs.clears_write settled contents).mono
      fun _ _ settledAfter => ⟨settledAfter, trivial⟩)
  | inode number =>
    exact FsM.clears_bind (Cafs.clears_cainode settled fun _ _ lent => ⟨lent.release, trivial⟩)
  | subInodes number =>
    exact FsM.clears_bind ((Cafs.clears_subInodes settled).mono
      fun _ _ settledAfter => ⟨settledAfter, trivial⟩)
  | df =>
    exact FsM.clears_bind (FsM.clears_bind (FsM.clears_onBlocks fs.dataBitmap.clear_freeCount
      (Scoped.yields_of_forall fun _ => ⟨⟨settled, trivial⟩, trivial⟩)))
  | flush => exact ⟨settled, trivial⟩
  | drop pointer =>
    refine ⟨⟨settled.apart.congr rfl rfl fun _ => rfl, ?_⟩, trivial⟩
    show inodes.handles.erase pointer = []
    rw [settled.idle]
    rfl

/-- After `create` two entries have the same inode number. -/
theorem Call.leaves_run_create {fs : Cafs} {inodes : Inodes} {call : Call}
    (isCreate : call.IsCreate) :
    (call.run fs).Leaves inodes fun answer after => ¬(after.release answer).Sole := by
  cases call with
  | create parent name =>
    exact FsM.leaves_bind.mpr (Cafs.leaves_create.mono fun _ twice =>
      Inodes.not_sole_of_count twice)
  | write | inode | subInodes | df | flush | drop => exact isCreate.elim

namespace Session

variable {α : Type} {session after start : Session} {call : FsM α} {post : α → Inodes → Prop}

/-- What a call that returned has left in the inode cache. -/
theorem left_of_exec (leaves : call.Leaves session.inodes post) {value : α}
    (ran : session.exec call = .ok value after) :
    after.fs = session.fs ∧ post value after.inodes := by
  unfold exec at ran
  cases outcome : Prog.exec (call.run session.inodes) (Memory.idle session.manager) with
  | ok out memory =>
    rw [outcome] at ran
    obtain ⟨rfl, rfl⟩ := Result.ok.inj ran
    have holds := Prog.exec_of_yields leaves outcome
    exact ⟨rfl, holds⟩
  | error error memory =>
    rw [outcome] at ran
    contradiction

/-- A call that clears does not stop for want of room in the inode cache. -/
theorem exec_ne_full (clears : call.Clears session.inodes post) (after : Session) :
    session.exec call ≠ .error .runOutOfInodeCache after := by
  intro ran
  unfold exec at ran
  cases outcome : Prog.exec (call.run session.inodes) (Memory.idle session.manager) with
  | ok out memory =>
    rw [outcome] at ran
    contradiction
  | error error memory =>
    rw [outcome] at ran
    obtain ⟨rfl, -⟩ := Result.error.inj ran
    exact Prog.exec_of_avoids (by decide) clears.2 outcome rfl

/-- A file system just set up, or just opened on any device. -/
inductive Opened : Session → Prop
  /-- `CAFS::init`. -/
  | init {device : Disk} {totalBlocks inodeBitmapBlocks : Nat} {session : Session}
      (small : totalBlocks < 2 ^ 64)
      (isStart : fromInit device totalBlocks inodeBitmapBlocks = some session) : Opened session
  /-- `CAFS::open`. -/
  | mount {device : Disk} {session : Session} (mounted : mount device = some session) :
      Opened session

/-- The session after the user has dropped the handle of an answer. -/
def release (session : Session) (answer : Answer) : Session :=
  { session with inodes := session.inodes.release answer }

/-- One call of a user who drops the handle that it returns. -/
inductive Visit (allowed : Call → Prop) : Session → Session → Prop
  /-- The call was allowed and returned. -/
  | call {session after : Session} {answer : Answer} (call : Call) (isAllowed : allowed call)
      (ran : session.exec (call.run session.fs) = .ok answer after) :
      Visit allowed session (after.release answer)

/-- The inode cache of a file system just set up or opened. -/
theorem Opened.settled (opened : start.Opened) : start.inodes.Settled := by
  cases opened with
  | init small isStart =>
    obtain ⟨-, inodesEq, -⟩ := serves_of_fromInit small isStart
    rw [inodesEq]
    refine ⟨⟨List.nodup_singleton _, ?_, Nat.succ_le_succ (Nat.zero_le 31)⟩, rfl⟩
    intro pointer pointerIn
    rw [List.mem_singleton.mp pointerIn]
    exact Nat.zero_lt_one
  | @mount device _ mounted =>
    unfold Session.mount at mounted
    split at mounted
    · rename_i ran
      obtain rfl := Option.some.inj mounted
      have leaves : (onBlocks Cafs.openFs).Leaves (blank device).inodes
          fun _ inodes => inodes = Inodes.new := FsM.leaves_onBlocks fun _ => rfl
      obtain ⟨-, same⟩ := left_of_exec leaves ran
      rw [same]
      exact ⟨⟨List.nodup_nil, by simp [Inodes.new], Nat.zero_le _⟩, rfl⟩
    · contradiction

/-- Calls other than `create` keep one entry for each inode. -/
theorem Visit.settled (settled : session.inodes.Settled)
    (visit : Visit (fun call => ¬call.IsCreate) session after) : after.inodes.Settled := by
  cases visit with
  | call call other ran => exact (left_of_exec (Call.clears_run settled other).1 ran).2

end Session

/-- In every state that calls other than `create` reach, from a file system just set up or opened
on any device, no two entries of the inode cache have the same number, and none of these calls
stops for want of room in it. Every `create` that returns leaves two entries for its inode. -/
theorem inode_cache_sole_iff {start session : Session} (opened : start.Opened)
    (run : Relation.ReflTransGen (Session.Visit fun call => ¬call.IsCreate) start session) :
    session.inodes.Sole ∧ ∀ call : Call,
      (¬call.IsCreate → ∀ after,
        session.exec (call.run session.fs) ≠ .error .runOutOfInodeCache after) ∧
      ∀ answer after, session.exec (call.run session.fs) = .ok answer after →
        ((after.release answer).inodes.Sole ↔ ¬call.IsCreate) := by
  have settled : session.inodes.Settled := by
    induction run with
    | refl => exact opened.settled
    | tail _ visit ih => exact visit.settled ih
  refine ⟨settled.apart.sole, fun call => ⟨fun other =>
    Session.exec_ne_full (Call.clears_run settled other), fun answer after ran => ⟨?_, ?_⟩⟩⟩
  · intro sole isCreate
    exact (Session.left_of_exec (Call.leaves_run_create isCreate) ran).2 sole
  · intro other
    exact (Session.left_of_exec (Call.clears_run settled other).1 ran).2.apart.sole

section Looks

variable {totalBlocks : Nat} {volume : Volume} {session : Session} {extents : Nat → Extent}
  {marked : Nat → Bool} {store : Nat → Block}

/-- A handle given back leaves a session that serves its volume. -/
theorem Session.Serves.release (serves : session.Serves totalBlocks volume extents marked store)
    (answer : Answer) :
    (session.release answer).Serves totalBlocks volume extents marked store := by
  cases answer with
  | handle pointer =>
    exact ⟨⟨serves.backed.coherent, serves.backed.idle, serves.backed.onDevice⟩,
      { serves.represents with coherent := serves.represents.coherent.drop pointer }⟩
  | inodes | space | done => exact serves

/-- A look at a file that is not in the cache adds an entry at the end of a queue with room. -/
theorem Session.Serves.visit_absent
    (serves : session.Serves totalBlocks volume extents marked store)
    (idle : session.inodes.handles = []) (few : session.inodes.numbers.length < inodeCacheSize)
    {number : Nat} {file : File} (found : volume[number]? = some file)
    (absent : number ∉ session.inodes.numbers) :
    ∃ after, Visit (fun call => ¬call.IsCreate) session after ∧
      after.Serves totalBlocks volume extents marked store ∧ after.inodes.handles = [] ∧
      after.inodes.numbers = session.inodes.numbers ++ [number] := by
  have room : Inodes.substitute session.inodes.queue session.inodes.handles =
      .ok session.inodes.queue := by
    rw [Inodes.numbers, List.length_map] at few
    exact if_neg (Nat.ne_of_lt few)
  have spec : FsM.wp (Prog.deviceRules totalBlocks) ((Call.inode number).run session.fs)
      session.inodes (fun _ _ _ => True) (fun _ _ => False) store :=
    FsM.wp_bind.mpr (Cafs.wp_cainode serves.represents found (fun _ _ _ => trivial)
      fun _ stuck => by simp [room] at stuck)
  obtain ⟨answer, reached, -, ran, -⟩ := serves.backed.returns spec
  obtain ⟨pointer, ranInode, rfl⟩ := Session.exec_map_ok ran
  obtain ⟨isLooked, -, servesAfter⟩ := serves.looked found ranInode
  refine ⟨_, .call (.inode number) id ran, servesAfter.release _, ?_⟩
  show reached.inodes.handles.erase pointer = [] ∧ reached.inodes.numbers = _
  generalize reached.inodes = inodes at isLooked
  cases isLooked with
  | hit isFound =>
    have isNumber := List.find?_some isFound
    rw [beq_iff_eq] at isNumber
    exact absurd (List.mem_map.mpr ⟨pointer, List.mem_of_find?_eq_some isFound, isNumber⟩) absent
  | miss _ done =>
    obtain rfl := Except.ok.inj (room.symm.trans done)
    exact ⟨by simp [Inodes.inserted, idle],
      Inodes.numbers_inserted serves.represents.coherent.allocated _⟩

end Looks

/-- A device of 64 MiB with a file `test.txt` is opened, and both its inodes are looked at: there is
one entry for each. -/
theorem inode_cache_sole_iff_opened : ∃ device start session,
    Session.mount device = some start ∧
      Relation.ReflTransGen (Session.Visit fun call => ¬call.IsCreate) start session ∧
      session.inodes.numbers = [0, 1] ∧ session.inodes.Sole := by
  have small : 131072 < 2 ^ 64 := by decide
  obtain ⟨bytes, before, history⟩ := exists_testHistory
  obtain ⟨-, extents, marked, store, tracks⟩ := history.tidy small
  have headed := history.headed small
  rw [tracks.serves.backed.contents_eq] at headed
  obtain ⟨start, reopened, -, fresh, serves⟩ := tracks.serves.reopens headed
  unfold Session.reopen at reopened
  split at reopened
  · rename_i flushed _
    have empty : start.inodes.numbers = [] := by rw [fresh]; rfl
    obtain ⟨middle, first, servesMiddle, idle, one⟩ := serves.visit_absent (by rw [fresh]; rfl)
      (by rw [empty]; decide) (show (testVolume bytes [84])[0]? = some _ from rfl)
      (by simp [empty])
    rw [empty, List.nil_append] at one
    obtain ⟨session, second, -, -, both⟩ := servesMiddle.visit_absent idle
      (by rw [one]; decide) (show (testVolume bytes [84])[1]? = some _ from rfl) (by simp [one])
    have run := (Relation.ReflTransGen.single first).tail second
    refine ⟨_, start, session, reopened, run, by rw [both, one]; rfl, ?_⟩
    exact (inode_cache_sole_iff (.mount reopened) run).1
  · contradiction

/-! ## Sixteen creates -/

section Crowd

variable {totalBlocks inodeBitmapBlocks : Nat} {volume : Volume} {session : Session}
  {extents : Nat → Extent} {marked : Nat → Bool} {store : Nat → Block}

/-- A handle given back leaves a session tracked. -/
theorem Tracks.release
    (tracks : Tracks totalBlocks inodeBitmapBlocks volume session extents marked store)
    (answer : Answer) :
    Tracks totalBlocks inodeBitmapBlocks volume (session.release answer) extents marked store := by
  cases answer with
  | handle pointer => exact tracks.quiet (tracks.serves.release (.handle pointer)) rfl rfl rfl
  | inodes | space | done => exact tracks

/-- With sixteen inodes in a tracked session, `create` finds no entry to give up. -/
theorem Tracks.create_panics
    (tracks : Tracks totalBlocks inodeBitmapBlocks volume session extents marked store)
    (isSmall : volume.Small) {root : File} (found : volume[0]? = some root) {name : String}
    {bytes : NameBytes} (isName : nameBytes (utf8Bytes name) = some bytes)
    (many : volume.length = 16)
    (free : volume.length < (Cafs.parted totalBlocks inodeBitmapBlocks).inodeBitmap.totalCount)
    (space : volume.blocks + Cafs.growth root.contents.length
        (appendEntry root.contents volume.length).length ≤
      (Cafs.parted totalBlocks inodeBitmapBlocks).dataBitmap.totalCount) :
    ∃ after, session.exec ((Call.create 0 name).run session.fs) =
      .error .runOutOfInodeCache after := by
  have rep := tracks.serves.represents
  have contentsEq := extended_eq tracks.serves found (isSmall root (List.mem_of_getElem? found))
  have keeps := keeps_appendEntry root.contents volume.length
  rw [← tracks.parts] at free
  rw [← tracks.parts, ← rep.holds.used_eq_blocks isSmall, ← contentsEq] at space
  rw [← contentsEq] at keeps
  have spec : FsM.wp (Prog.deviceRules totalBlocks) ((Call.create 0 name).run session.fs)
      session.inodes (fun _ _ _ => False) (fun error _ => error = .runOutOfInodeCache) store := by
    refine FsM.wp_bind.mpr (Cafs.wp_create rep found keeps ?_ (fun none => by omega)
      (fun _ tooLong => ?_) (fun _ _ => rfl) fun _ _ _ short => by omega)
    · -- the seventeenth inode would need two entries more than the cache has
      intro _ created extent _ _ _ isCreated repAfter _ _ _
      have packed := tracks.packed.created rep.coherent rfl rfl tracks.rooted isCreated
      have length := packed.length
      have bounded : created.queue.length ≤ 32 := repAfter.coherent.bounded
      omega
    · rw [isName] at tooLong
      contradiction
  obtain ⟨_, after, ran, rfl⟩ := tracks.serves.backed.panics spec
  exact ⟨after, ran⟩

/-- A root directory with a number of empty files. -/
def crowd (bytes : NameBytes) (count : Nat) : Volume :=
  ⟨.dir, rootName, directoryBytes (List.range' 1 count)⟩ :: List.replicate count ⟨.file, bytes, []⟩

/-- One file more. -/
theorem crowd_succ (bytes : NameBytes) (count : Nat) :
    ((crowd bytes count).add .file bytes).write 0
      (appendEntry (directoryBytes (List.range' 1 count)) (crowd bytes count).length) =
        crowd bytes (count + 1) := by
  have length : (crowd bytes count).length = 1 + count := by
    rw [crowd, List.length_cons, List.length_replicate, Nat.add_comm]
  rw [length, ← directoryBytes_concat, ← List.range'_1_concat, crowd, crowd, List.replicate_succ']
  rfl

/-- Small files fit their trees, and one block holds the directory. -/
theorem crowd_small (bytes : NameBytes) {count : Nat} (few : count ≤ 15) :
    (crowd bytes count).Small ∧ (crowd bytes count).length = count + 1 ∧
      (crowd bytes count).blocks + Cafs.growth (directoryBytes (List.range' 1 count)).length
        (appendEntry (directoryBytes (List.range' 1 count)) (crowd bytes count).length).length ≤
          1 := by
  have empty := File.blocks_empty .file bytes
  have length : (crowd bytes count).length = count + 1 := by
    rw [crowd, List.length_cons, List.length_replicate]
  have taken : (crowd bytes count).blocks =
      (indexBlocks (11 * count - 1)).indexBlockCount + dataBlocks (11 * count - 1) := by
    rw [Volume.blocks, crowd, List.map_cons, List.map_replicate, empty, List.sum_cons,
      List.sum_replicate, smul_zero, Nat.add_zero, File.blocks, length_directoryBytes,
      List.length_range']
  refine ⟨?_, length, ?_⟩
  · intro file fileIn
    obtain ⟨-, -, -, -, -, -, -, top⟩ := levelConstants
    rcases List.mem_cons.mp fileIn with rfl | isFile
    · rw [length_directoryBytes, List.length_range']
      omega
    · rw [(List.mem_replicate.mp isFile).2]
      exact Nat.zero_le _
  · have bound : ∀ count < 16, (indexBlocks (11 * count - 1)).indexBlockCount +
        dataBlocks (11 * count - 1) + Cafs.growth (11 * count - 1) (11 * (count + 1) - 1) ≤ 1 := by
      decide
    rw [taken, length, Nat.add_comm count 1, ← directoryBytes_concat, ← List.range'_1_concat,
      length_directoryBytes, length_directoryBytes, List.length_range', List.length_range']
    exact bound count (Nat.lt_succ_of_le few)

end Crowd

/-- Fifteen creates with handles dropped, on a device of 64 MiB. -/
theorem exists_crowd {start : Session} {bytes : NameBytes}
    (isName : nameBytes (utf8Bytes "f") = some bytes)
    (isStart : Session.fromInit (Disk.new 131072) 131072 2 = some start) {count : Nat}
    (few : count ≤ 15) :
    ∃ session, Relation.ReflTransGen (Session.Visit Call.IsCreate) start session ∧
      ∃ extents marked store, Tracks 131072 2 (crowd bytes count) session extents marked store := by
  induction count with
  | zero =>
    obtain ⟨store, tracks⟩ := tracks_initial (by decide) isStart
    exact ⟨start, .refl, _, _, store, tracks⟩
  | succ count ih =>
    obtain ⟨session, run, extents, marked, store, tracks⟩ := ih (Nat.le_of_succ_le few)
    obtain ⟨isSmall, length, taken⟩ := crowd_small bytes (Nat.le_of_succ_le few)
    have found : (crowd bytes count)[0]? =
        some ⟨.dir, rootName, directoryBytes (List.range' 1 count)⟩ := rfl
    have inodes : (Cafs.parted 131072 2).inodeBitmap.totalCount = 8192 := by decide
    have blocks : 1 ≤ (Cafs.parted 131072 2).dataBitmap.totalCount := by decide
    obtain ⟨pointer, after, ran⟩ := tracks.create_returns isSmall found isName
      (by omega) (by omega) (Nat.le_trans taken blocks)
    obtain ⟨_, isSame, -, extentsAfter, markedAfter, storeAfter, tracksAfter⟩ :=
      tracks.create found rfl (isSmall _ List.mem_cons_self) ran
    obtain rfl := Option.some.inj (isSame.symm.trans isName)
    rw [crowd_succ] at tracksAfter
    have visit : session.exec ((Call.create 0 "f").run session.fs) =
        .ok (.handle pointer) after := by
      refine (Session.exec_map _ _ _).trans ?_
      rw [ran]
    exact ⟨_, run.tail (.call (.create 0 "f") trivial visit), _, _, _,
      tracksAfter.release (.handle pointer)⟩

/-- A user who creates sixteen files in the root directory, and drops every handle at once, runs
out of entries, with inodes and data blocks to spare. -/
theorem sixteenth_create_panics : ∃ start session after,
    Session.fromInit (Disk.new 131072) 131072 2 = some start ∧
      Relation.ReflTransGen (Session.Visit Call.IsCreate) start session ∧
      ¬session.inodes.Sole ∧
      session.exec ((Call.create 0 "f").run session.fs) = .error .runOutOfInodeCache after := by
  obtain ⟨bytes, isName⟩ := (nameBytes_eq_some_iff (utf8Bytes "f")).mpr (by decide)
  obtain ⟨start, isStart⟩ := Session.exists_fromInit (show 131072 < 2 ^ 64 by decide)
    ⟨by decide, by decide⟩ (show 0 < 2 by decide) (Nat.le_refl (Disk.new 131072).totalBlocks)
  obtain ⟨session, run, extents, marked, store, tracks⟩ :=
    exists_crowd isName isStart (Nat.le_refl 15)
  obtain ⟨isSmall, length, taken⟩ := crowd_small bytes (Nat.le_refl 15)
  obtain ⟨pointer, pointerIn, isNumber⟩ := tracks.packed.present 1 (by rw [length]; decide)
  have twice := tracks.packed.twice pointer pointerIn (by rw [isNumber]; decide)
  have found : (crowd bytes 15)[0]? =
      some ⟨.dir, rootName, directoryBytes (List.range' 1 15)⟩ := rfl
  obtain ⟨after, ran⟩ := tracks.create_panics isSmall found isName length
    (by rw [length]; decide) (Nat.le_trans taken (by decide))
  exact ⟨start, session, after, isStart, run, Inodes.not_sole_of_count twice, ran⟩

end Canyon.Fs
