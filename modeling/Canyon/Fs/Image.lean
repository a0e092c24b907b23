import Canyon.Fs.InodeRoom
import Canyon.Fs.Vfs

/-!
# Reading an image

What the calls that only read do on a device with any contents, sound or not. A call may panic, but
when it returns, its result is the one that the contents give: the inode cache has been filled from
the same contents, and no call changes them.
-/

namespace Canyon.Fs

open Canyon.Lib
open EStateM (Result)

/-! ## Programs that only read -/

section ReadOnly

variable {α γ : Type} {codec : Codec α} {blockId offset : Nat}

/-- A read of a record. -/
theorem readOnly_readAt {body : α → Prog γ} (bodies : ∀ value, (body value).ReadOnly) :
    (readAt codec blockId offset body).ReadOnly := by
  refine Scoped.readOnly_read fun block => ?_
  split
  · split
    · exact bodies _
    · trivial
  · trivial

/-- `_to_vec`. -/
theorem IndirectBlock.readOnly_toVecFrom (filter : Option (List Nat)) (depth : Nat)
    (node : IndirectBlock) (found : List Nat × List Nat) :
    (node.toVecFrom filter depth found).ReadOnly := by
  induction depth generalizing node found with
  | zero => trivial
  | succ depth ih =>
    unfold toVecFrom
    split
    · trivial
    · exact Scoped.readOnly_foldlM (fun found id => readOnly_readAt fun child => ih child _) _ _

/-- `Meta::blocks`. -/
theorem Meta.readOnly_blocks (record : Meta) : record.blocks.ReadOnly := by
  unfold blocks
  split
  · refine (readOnly_readAt fun node => ?_).bind fun _ => trivial
    exact (node.readOnly_toVecFrom none callDepth _).bind fun _ => trivial
  · trivial

/-- `CaInode::from`. -/
theorem CaInode.readOnly_from (inodeNumber blockId offset : Nat) :
    (CaInode.from inodeNumber blockId offset).ReadOnly :=
  readOnly_readAt fun record => record.readOnly_blocks.bind fun _ => trivial

/-- `CaInode::data`. -/
theorem CaInode.readOnly_data (inode : CaInode) : inode.data.ReadOnly := by
  unfold data
  split
  · trivial
  · refine Scoped.readOnly_foldlM (fun data id => ?_) _ _
    exact Scoped.readOnly_read fun block => trivial

end ReadOnly

/-! ## Calls that only read -/

namespace FsM

variable {α γ : Type} {inodes : Inodes} {store : Nat → Block}

/-- On these blocks a call changes none of them and does not overflow the stack, and leaves an inode
cache with `post` when it returns. -/
def Reads (store : Nat → Block) (call : FsM α) (inodes : Inodes) (post : α → Inodes → Prop) :
    Prop :=
  (call.run inodes).Reads store (fun out => post out.1 out.2) (· ≠ .stackOverflow)

/-- The rule of a sequence. -/
theorem reads_bind {call : FsM α} {next : α → FsM γ} {post : γ → Inodes → Prop} :
    Reads store (call >>= next) inodes post ↔
      call.Reads store inodes fun value inodes => (next value).Reads store inodes post :=
  Scoped.reads_bind

/-- A weaker condition on the cache. -/
theorem Reads.mono {call : FsM α} {post weaker : α → Inodes → Prop}
    (reads : call.Reads store inodes post)
    (values : ∀ value inodes, post value inodes → weaker value inodes) :
    call.Reads store inodes weaker :=
  Scoped.Reads.mono reads (fun out => values out.1 out.2) fun _ => id

/-- The rule of a look behind a pointer. -/
theorem reads_deref {pointer : Nat} {post : CaInode → Inodes → Prop} :
    Reads store (deref pointer) inodes post ↔ post (inodes.heap pointer) inodes :=
  Iff.rfl

/-- The rule of a program on the blocks. -/
theorem reads_onBlocks {program : Prog α} (readOnly : program.ReadOnly) {values : α → Prop}
    (yields : program.Yields values) (shallow : program.run store ≠ .error .stackOverflow store)
    {post : α → Inodes → Prop}
    (goal : ∀ value, program.value? store = some value → values value → post value inodes) :
    Reads store (onBlocks program) inodes post := by
  refine Scoped.reads_bind.mpr ((readOnly.reads yields store).mono ?_ ?_)
  · rintro value ⟨ran, isValue⟩
    exact goal value (Scoped.value?_of_run ran) isValue
  · rintro error ran rfl
    exact shallow ran

/-- The rule of a substitution. -/
theorem reads_substituteInode {post : Unit → Inodes → Prop}
    (done : ∀ queue, Inodes.Substituted inodes.queue inodes.handles queue →
      post () { inodes with queue }) : Reads store substituteInode inodes post := by
  refine reads_bind.mpr ?_
  show Reads store _ inodes post
  cases outcome : Inodes.substitute inodes.queue inodes.handles with
  | ok queue => exact done queue (Inodes.substituted outcome)
  | error error =>
    obtain ⟨rfl, -⟩ := Inodes.substitute_error outcome
    exact Panic.noConfusion

end FsM

/-! ## What an image says -/

namespace Cafs

variable {fs : Cafs} {store : Nat → Block} {inodes : Inodes} {number : Nat}

/-- The object that `CaInode::from` makes of an inode, unless it panics. -/
def objectOf (fs : Cafs) (store : Nat → Block) (inodeNumber : Nat) : Option CaInode :=
  (CaInode.from inodeNumber (fs.inodePosOf inodeNumber).1
    (fs.inodePosOf inodeNumber).2).value? store

/-- The inodes that a directory lists. -/
def childrenOf (fs : Cafs) (store : Nat → Block) (inodeNumber : Nat) : List Nat :=
  (fs.objectOf store inodeNumber).elim [] fun object =>
    listing object.type ((object.data.value? store).getD [])

/-- The entries of an inode cache are what the blocks say. -/
def Stands (fs : Cafs) (store : Nat → Block) (inodes : Inodes) : Prop :=
  ∀ pointer ∈ inodes.queue, pointer < inodes.next ∧
    fs.objectOf store (inodes.heap pointer).inodeNumber = some (inodes.heap pointer)

/-- An empty inode cache says nothing. -/
theorem stands_new : fs.Stands store Inodes.new :=
  fun _ impossible => absurd impossible List.not_mem_nil

/-- A handle less or more changes nothing. -/
theorem Stands.handles (stands : fs.Stands store inodes) (handles : List Nat) :
    fs.Stands store { inodes with handles } :=
  stands

/-- A new entry that the blocks agree with. -/
theorem Stands.inserted (stands : fs.Stands store inodes) {queue : List Nat}
    (isSubstituted : Inodes.Substituted inodes.queue inodes.handles queue) {object : CaInode}
    (isObject : fs.objectOf store object.inodeNumber = some object) :
    fs.Stands store (inodes.inserted object queue) := by
  intro pointer pointerIn
  show pointer < inodes.next + 1 ∧ fs.objectOf store
    (Function.update inodes.heap inodes.next object pointer).inodeNumber =
      some (Function.update inodes.heap inodes.next object pointer)
  rcases List.mem_append.mp pointerIn with old | new
  · obtain ⟨removed, same⟩ := isSubstituted.part
    have isEntry : pointer ∈ inodes.queue := same.mem_iff.mp (List.mem_append_right _ old)
    obtain ⟨below, isOld⟩ := stands pointer isEntry
    rw [Function.update_of_ne (Nat.ne_of_lt below)]
    exact ⟨Nat.lt_succ_of_lt below, isOld⟩
  · obtain rfl := List.mem_singleton.mp new
    rw [Function.update_self]
    exact ⟨Nat.lt_succ_self _, isObject⟩

/-- The index blocks of an inode do not lead so deep that listing them overflows the stack. -/
def Indexed (fs : Cafs) (store : Nat → Block) (inodeNumber : Nat) : Prop :=
  (CaInode.from inodeNumber (fs.inodePosOf inodeNumber).1 (fs.inodePosOf inodeNumber).2).run
    store ≠ .error .stackOverflow store

/-- A lookup finds the object that the blocks give. -/
theorem reads_cainode (stands : fs.Stands store inodes) (indexed : fs.Indexed store number)
    {post : Nat → Inodes → Prop}
    (goal : ∀ pointer looked, fs.Stands store looked →
      fs.objectOf store number = some (looked.heap pointer) → post pointer looked) :
    (fs.cainode number).Reads store inodes post := by
  refine FsM.reads_bind.mpr ?_
  show FsM.Reads store _ inodes post
  cases search : inodes.find number with
  | some pointer =>
    obtain ⟨isEntry, isNumber⟩ := Inodes.find_some search
    obtain ⟨-, isObject⟩ := stands pointer isEntry
    rw [isNumber] at isObject
    exact goal pointer _ (stands.handles _) isObject
  | none =>
    refine FsM.reads_bind.mpr (FsM.reads_substituteInode fun queue isSubstituted => ?_)
    have shallow : (CaInode.from number (fs.inodeAreaStartBlock + number) 0).run store ≠
        .error .stackOverflow store := by
      rw [Indexed, inodePosOf_eq] at indexed
      exact indexed
    rw [inodePosOf_eq]
    refine FsM.reads_bind.mpr (FsM.reads_onBlocks (CaInode.readOnly_from _ _ _)
      (CaInode.yields_from _ _ _) shallow fun object found isNumber => ?_)
    have isObject : fs.objectOf store number = some object := by
      rw [objectOf, inodePosOf_eq]
      exact found
    have isFresh : (inodes.inserted object queue).heap inodes.next = object :=
      Function.update_self ..
    refine goal inodes.next (inodes.inserted object queue) (stands.inserted isSubstituted ?_) ?_
    · rw [isNumber, isObject]
    · rw [isObject, isFresh]

/-- `data` returns, whatever the blocks hold. -/
theorem run_data (object : CaInode) (store : Nat → Block) :
    object.data.run store = .ok (object.bytesOn store) store := by
  have spec : object.data.wp ⟨1, fun _ => True⟩ []
      (fun data after => data = object.bytesOn store ∧ after = store) (fun _ _ => False) store :=
    CaInode.wp_data object (fun _ _ => ⟨trivial, List.not_mem_nil, Nat.one_pos⟩) ⟨rfl, rfl⟩
  obtain ⟨_, _, ran, rfl, rfl⟩ := Scoped.run_eq_of_wp spec
  exact ran

/-- `sub_inodes` lists what the blocks say. -/
theorem reads_subInodes (stands : fs.Stands store inodes) (indexed : fs.Indexed store number) :
    (fs.subInodes number).Reads store inodes fun numbers after =>
      numbers = fs.childrenOf store number ∧ fs.Stands store after := by
  refine FsM.reads_bind.mpr
    (reads_cainode stands indexed fun pointer looked standsLooked isObject => ?_)
  refine FsM.reads_bind.mpr (FsM.reads_deref.mpr ?_)
  rw [childrenOf, isObject, Option.elim_some]
  split
  · rename_i isFile
    exact ⟨by simp [listing, isFile], standsLooked⟩
  · rename_i isDir
    have returns : (looked.heap pointer).data.run store ≠ .error .stackOverflow store := by
      rw [run_data]
      intro isError
      cases isError
    refine FsM.reads_bind.mpr (FsM.reads_onBlocks (CaInode.readOnly_data _)
      (Scoped.yields_of_forall fun _ => trivial) returns fun data isData _ => ?_)
    rw [isData]
    by_cases empty : data = []
    · simp only [empty, List.isEmpty_nil, ↓reduceIte]
      exact ⟨by simp [listing], standsLooked⟩
    · simp only [List.isEmpty_iff, empty, ↓reduceIte]
      by_cases long : ∀ part ∈ data.splitOnP (· == 0), 10 ≤ part.length
      · rw [parseEntries_eq long]
        exact ⟨by simp [listing, isDir, empty], standsLooked⟩
      · rw [parseEntries_fail long]
        exact Panic.noConfusion

end Cafs

/-- `DirEntry::new` keeps the inode cache in step with the blocks. -/
theorem reads_newDentry {fs : Cafs} {store : Nat → Block} {inodes : Inodes} {number : Nat}
    (stands : fs.Stands store inodes) (indexed : fs.Indexed store number) :
    (newDentry fs number).Reads store inodes fun _ after => fs.Stands store after :=
  FsM.reads_bind.mpr (Cafs.reads_cainode stands indexed fun _ _ standsLooked _ => standsLooked)

end Canyon.Fs
