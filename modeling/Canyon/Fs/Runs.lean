import Canyon.Fs.Packed
import Canyon.Fs.Session

/-!
# Runs of a session

The calls that a user of the file system makes, and what each that returns has done: the
session serves the volume after the call.
-/

namespace Canyon.Fs

open Canyon.Lib
open EStateM (Result)

/-- A call of a user, or the drop of a handle. -/
inductive Call where
  /-- `create(parent, name)`. -/
  | create (parent : Nat) (name : String)
  /-- `write(inode_number, contents)`. -/
  | write (inodeNumber : Nat) (contents : List UInt8)
  /-- `inode(inode_number)`. -/
  | inode (inodeNumber : Nat)
  /-- `sub_inodes(inode_number)`. -/
  | subInodes (inodeNumber : Nat)
  /-- `df()`. -/
  | df
  /-- `flush()`. -/
  | flush
  /-- The user drops a handle. -/
  | drop (pointer : Nat)
  deriving DecidableEq

/-- What a call returns. -/
inductive Answer where
  /-- A handle on an inode. -/
  | handle (pointer : Nat)
  /-- Inode numbers. -/
  | inodes (numbers : List Nat)
  /-- Free and total bytes. -/
  | space (free total : Nat)
  /-- Nothing. -/
  | done
  deriving DecidableEq

/-- The call as a program. -/
def Call.run (fs : Cafs) : Call → FsM Answer
  | .create parent name => do return .handle (← fs.create parent name)
  | .write inodeNumber contents => do return (fun _ => .done) (← fs.write inodeNumber contents)
  | .inode inodeNumber => do return .handle (← fs.inode inodeNumber)
  | .subInodes inodeNumber => do return .inodes (← fs.subInodes inodeNumber)
  | .df => do return (fun space => .space space.1 space.2) (← fs.df)
  | .flush => do return (fun _ => .done) (← fs.flush)
  | .drop pointer => do return (fun _ => .done) (← dropHandle pointer)

namespace Session

variable {α γ : Type} {session after : Session} {totalBlocks : Nat} {volume : Volume}
  {extents : Nat → Extent} {marked : Nat → Bool} {store : Nat → Block}

/-- A call whose value is mapped leaves what the call leaves. -/
theorem exec_map (session : Session) (call : FsM α) (f : α → γ) :
    session.exec (call >>= fun value => pure (f value)) =
      match session.exec call with
      | .ok value after => .ok (f value) after
      | .error error after => .error error after := by
  have sequence : Prog.exec ((call >>= fun value => pure (f value)).run session.inodes)
      (Memory.idle session.manager) =
      Prog.exec ((call.run session.inodes).bind fun out => .pure (f out.1, out.2))
        (Memory.idle session.manager) := rfl
  unfold exec
  rw [sequence, Prog.exec_bind]
  cases Prog.exec (call.run session.inodes) (Memory.idle session.manager) with
  | ok out memory => rfl
  | error error memory => rfl

/-- A call whose value is mapped returns when the call does. -/
theorem exec_map_ok {call : FsM α} {f : α → γ} {answer : γ}
    (ran : session.exec (call >>= fun value => pure (f value)) = .ok answer after) :
    ∃ value, session.exec call = .ok value after ∧ answer = f value := by
  rw [exec_map] at ran
  cases outcome : session.exec call with
  | ok value reached =>
    rw [outcome] at ran
    obtain ⟨rfl, rfl⟩ := Result.ok.inj ran
    exact ⟨value, rfl, rfl⟩
  | error error reached =>
    rw [outcome] at ran
    contradiction

/-- A call whose value is mapped panics when the call does. -/
theorem exec_map_error {call : FsM α} {f : α → γ} {error : Panic} :
    session.exec (call >>= fun value => pure (f value)) = .error error after ↔
      session.exec call = .error error after := by
  rw [exec_map]
  cases session.exec call with
  | ok value reached => simp
  | error error reached => simp

/-- The session serves a volume: the block cache stands for contents that hold it, and the inode
cache describes it. -/
structure Serves (session : Session) (totalBlocks : Nat) (volume : Volume)
    (extents : Nat → Extent) (marked : Nat → Bool) (store : Nat → Block) : Prop where
  /-- The block cache stands for the contents. -/
  backed : session.Backed totalBlocks store
  /-- The contents hold the volume. -/
  represents : session.fs.Represents totalBlocks session.inodes store volume extents marked

/-- What `init` leaves. -/
theorem serves_of_fromInit {device : Disk} {inodeBitmapBlocks : Nat}
    (small : totalBlocks < 2 ^ 64)
    (start : fromInit device totalBlocks inodeBitmapBlocks = some session) :
    session.fs = Cafs.parted totalBlocks inodeBitmapBlocks ∧
      session.inodes = session.fs.initialInodes ∧
      Cafs.Fitting totalBlocks inodeBitmapBlocks ∧
      ∃ store, session.Serves totalBlocks Volume.initial Extent.none (fun _ => false) store ∧
        (store 0).view superBlock 0 = some (Cafs.plan totalBlocks inodeBitmapBlocks) := by
  have backed : (blank device).Backed totalBlocks device.data :=
    ⟨CacheManager.Coherent.new device, rfl, le_of_fromInit start⟩
  unfold fromInit at start
  cases ran : (blank device).exec (Cafs.init totalBlocks inodeBitmapBlocks) with
  | error error after =>
    rw [ran] at start
    contradiction
  | ok fs after =>
    rw [ran] at start
    obtain rfl := Option.some.inj start
    have spec : FsM.wp (Prog.deviceRules totalBlocks) (Cafs.init totalBlocks inodeBitmapBlocks)
        Inodes.new (fun fs inodes store => fs = Cafs.parted totalBlocks inodeBitmapBlocks ∧
          inodes = fs.initialInodes ∧ Cafs.Fitting totalBlocks inodeBitmapBlocks ∧
          fs.Represents totalBlocks inodes store Volume.initial Extent.none (fun _ => false) ∧
          (store 0).view superBlock 0 = some (Cafs.plan totalBlocks inodeBitmapBlocks))
        (fun _ _ => True) device.data := by
      refine Cafs.wp_init small ?_ (fun _ => trivial) fun _ _ => trivial
      intro store fitting _ rep seen
      exact ⟨rfl, rfl, fitting, rep, seen⟩
    obtain ⟨store, backedAfter, -, rfl, inodesEq, fitting, rep, seen⟩ :=
      backed.returned spec ran
    exact ⟨rfl, inodesEq, fitting, store, ⟨⟨backedAfter.coherent, backedAfter.idle,
      backedAfter.onDevice⟩, rep⟩, seen⟩

/-- `init` leaves a super block that describes the parts. -/
theorem headed_of_fromInit {device : Disk} {inodeBitmapBlocks : Nat} (small : totalBlocks < 2 ^ 64)
    (start : fromInit device totalBlocks inodeBitmapBlocks = some session) :
    session.fs.Headed session.contents := by
  obtain ⟨parts, -, fitting, store, serves, seen⟩ := serves_of_fromInit small start
  rw [parts, serves.backed.contents_eq]
  exact Cafs.headed_of_plan small fitting seen

/-- `init` returns on a device with room for the parts. -/
theorem exists_fromInit {device : Disk} {inodeBitmapBlocks : Nat} (small : totalBlocks < 2 ^ 64)
    (fitting : Cafs.Fitting totalBlocks inodeBitmapBlocks) (positive : 0 < inodeBitmapBlocks)
    (onDevice : totalBlocks ≤ device.totalBlocks) :
    ∃ session, fromInit device totalBlocks inodeBitmapBlocks = some session := by
  have backed : (blank device).Backed totalBlocks device.data :=
    ⟨CacheManager.Coherent.new device, rfl, onDevice⟩
  have spec : FsM.wp (Prog.deviceRules totalBlocks) (Cafs.init totalBlocks inodeBitmapBlocks)
      Inodes.new (fun _ _ _ => True) (fun _ _ => False) device.data :=
    Cafs.wp_init small (fun _ _ _ _ _ => trivial) (fun unfit => unfit fitting)
      fun none => absurd none (Nat.ne_of_gt positive)
  obtain ⟨fs, after, store, ran, -⟩ := backed.returns spec
  unfold fromInit
  rw [ran]
  exact ⟨_, rfl⟩

section Returned

variable {number : Nat} {file : File}

section

variable (serves : session.Serves totalBlocks volume extents marked store)

include serves

/-- What `write` has done. -/
theorem Serves.wrote (found : volume[number]? = some file) {contents : List UInt8}
    (wide : contents.length < 2 ^ 64)
    (keeps : dataBlocks file.contents.length ≤ dataBlocks contents.length) {value : Unit}
    (ran : session.exec (session.fs.write number contents) = .ok value after) :
    ∃ pointer looked extent markedAfter storeAfter,
      session.inodes.Looked (session.fs.inodeOf number file (extents number)) pointer looked ∧
      session.fs.Rewritten store number file (extents number) marked contents extent storeAfter
        markedAfter ∧
      after.inodes = looked.wrote pointer contents.length extent.data ∧
      after.fs = session.fs ∧
      after.Serves totalBlocks (volume.write number contents)
        (Function.update extents number extent) markedAfter storeAfter := by
  have spec : FsM.wp (Prog.deviceRules totalBlocks) (session.fs.write number contents)
      session.inodes (fun _ inodes storeAfter => ∃ pointer looked extent markedAfter,
        session.inodes.Looked (session.fs.inodeOf number file (extents number)) pointer looked ∧
        session.fs.Rewritten store number file (extents number) marked contents extent
          storeAfter markedAfter ∧
        inodes = looked.wrote pointer contents.length extent.data) (fun _ _ => True) store :=
    Cafs.wp_write serves.represents found wide keeps
      (fun pointer looked extent storeAfter markedAfter isLooked rewritten =>
        ⟨pointer, looked, extent, markedAfter, isLooked, rewritten, rfl⟩)
      (fun _ _ => trivial) fun _ _ _ => trivial
  obtain ⟨storeAfter, backed, fsEq, pointer, looked, extent, markedAfter, isLooked, rewritten,
    inodesEq⟩ := serves.backed.returned spec ran
  refine ⟨pointer, looked, extent, markedAfter, storeAfter, isLooked, rewritten, inodesEq, fsEq,
    backed, ?_⟩
  rw [fsEq, inodesEq]
  exact serves.represents.wrote found keeps isLooked rewritten

/-- What `create` has done. -/
theorem Serves.created (found : volume[number]? = some file) {name : String}
    (keeps : dataBlocks file.contents.length ≤
      dataBlocks (session.fs.extended store volume extents number file).length)
    {value : Nat} (ran : session.exec (session.fs.create number name) = .ok value after) :
    value = session.inodes.next ∧ ∃ bytes extent markedAfter storeAfter,
      nameBytes (utf8Bytes name) = some bytes ∧
      session.inodes.Created (session.fs.inodeOf volume.length ⟨.file, bytes, []⟩ ⟨[], []⟩)
        (session.fs.inodeOf number file (extents number))
        (session.fs.extended store volume extents number file).length extent.data after.inodes ∧
      session.fs.dataBitmap.used markedAfter = session.fs.dataBitmap.used marked +
        Cafs.growth file.contents.length
          (session.fs.extended store volume extents number file).length ∧
      (Bitmap.Lowest marked → Bitmap.Lowest markedAfter) ∧
      (file.contents.length ≤ l4Max → storeAfter 0 = store 0) ∧
      after.fs = session.fs ∧
      after.Serves totalBlocks ((volume.add .file bytes).write number
          (session.fs.extended store volume extents number file))
        (Function.update (Function.update extents volume.length ⟨[], []⟩) number extent)
        markedAfter storeAfter := by
  have spec : FsM.wp (Prog.deviceRules totalBlocks) (session.fs.create number name)
      session.inodes (fun value inodes storeAfter => value = session.inodes.next ∧
        ∃ bytes extent markedAfter,
        nameBytes (utf8Bytes name) = some bytes ∧
        session.inodes.Created (session.fs.inodeOf volume.length ⟨.file, bytes, []⟩ ⟨[], []⟩)
          (session.fs.inodeOf number file (extents number))
          (session.fs.extended store volume extents number file).length extent.data inodes ∧
        session.fs.dataBitmap.used markedAfter = session.fs.dataBitmap.used marked +
          Cafs.growth file.contents.length
            (session.fs.extended store volume extents number file).length ∧
        (Bitmap.Lowest marked → Bitmap.Lowest markedAfter) ∧
        (file.contents.length ≤ l4Max → storeAfter 0 = store 0) ∧
        session.fs.Represents totalBlocks inodes storeAfter ((volume.add .file bytes).write number
            (session.fs.extended store volume extents number file))
          (Function.update (Function.update extents volume.length ⟨[], []⟩) number extent)
          markedAfter) (fun _ _ => True) store :=
    Cafs.wp_create serves.represents found keeps
      (fun bytes created extent storeAfter markedAfter isName isCreated rep used lowest head =>
        ⟨rfl, bytes, extent, markedAfter, isName, isCreated, used, lowest, head, rep⟩)
      (fun _ => trivial) (fun _ _ => trivial) (fun _ _ => trivial) fun _ _ _ _ => trivial
  obtain ⟨storeAfter, backed, fsEq, isNext, bytes, extent, markedAfter, isName, isCreated, used,
    lowest, head, rep⟩ := serves.backed.returned spec ran
  exact ⟨isNext, bytes, extent, markedAfter, storeAfter, isName, isCreated, used, lowest, head,
    fsEq, backed, fsEq ▸ rep⟩

/-- What `inode` has done. -/
theorem Serves.looked (found : volume[number]? = some file) {pointer : Nat}
    (ran : session.exec (session.fs.inode number) = .ok pointer after) :
    session.inodes.Looked (session.fs.inodeOf number file (extents number)) pointer
        after.inodes ∧
      after.fs = session.fs ∧ after.Serves totalBlocks volume extents marked store := by
  have spec : FsM.wp (Prog.deviceRules totalBlocks) (session.fs.inode number)
      session.inodes (fun pointer inodes storeAfter => storeAfter = store ∧
        session.inodes.Looked (session.fs.inodeOf number file (extents number)) pointer inodes)
      (fun _ _ => True) store :=
    Cafs.wp_cainode serves.represents found (fun _ _ isLooked => ⟨rfl, isLooked⟩)
      fun _ _ => trivial
  obtain ⟨storeAfter, backed, fsEq, rfl, isLooked⟩ := serves.backed.returned spec ran
  refine ⟨isLooked, fsEq, backed, ?_⟩
  rw [fsEq]
  exact { serves.represents with
    coherent := (serves.represents.coherent.looked found isLooked).1 }

/-- What `sub_inodes` has done. -/
theorem Serves.listed (found : volume[number]? = some file) {numbers : List Nat}
    (ran : session.exec (session.fs.subInodes number) = .ok numbers after) :
    ∃ pointer looked,
      session.inodes.Looked (session.fs.inodeOf number file (extents number)) pointer looked ∧
      after.inodes = { looked with handles := looked.handles.erase pointer } ∧
      after.fs = session.fs ∧ after.Serves totalBlocks volume extents marked store := by
  have spec : FsM.wp (Prog.deviceRules totalBlocks) (session.fs.subInodes number)
      session.inodes (fun _ inodes storeAfter => storeAfter = store ∧ ∃ pointer looked,
        session.inodes.Looked (session.fs.inodeOf number file (extents number)) pointer looked ∧
        inodes = { looked with handles := looked.handles.erase pointer })
      (fun _ _ => True) store :=
    Cafs.wp_subInodes serves.represents found
      (fun pointer looked isLooked _ => ⟨rfl, pointer, looked, isLooked, rfl⟩)
      (fun _ _ => trivial) fun _ => trivial
  obtain ⟨storeAfter, backed, fsEq, rfl, pointer, looked, isLooked, inodesEq⟩ :=
    serves.backed.returned spec ran
  refine ⟨pointer, looked, isLooked, inodesEq, fsEq, backed, ?_⟩
  rw [fsEq, inodesEq]
  exact { serves.represents with
    coherent := (serves.represents.coherent.looked found isLooked).1.drop pointer }

/-- What `df` has done. -/
theorem Serves.measured {space : Nat × Nat} (ran : session.exec session.fs.df = .ok space after) :
    after.inodes = session.inodes ∧ after.fs = session.fs ∧
      after.Serves totalBlocks volume extents marked store := by
  have spec : FsM.wp (Prog.deviceRules totalBlocks) session.fs.df session.inodes
      (fun _ inodes storeAfter => inodes = session.inodes ∧ storeAfter = store)
      (fun _ _ => True) store :=
    Cafs.wp_df serves.represents ⟨rfl, rfl⟩
  obtain ⟨storeAfter, backed, fsEq, inodesEq, rfl⟩ := serves.backed.returned spec ran
  refine ⟨inodesEq, fsEq, backed, ?_⟩
  rw [fsEq, inodesEq]
  exact serves.represents

/-- What `flush` has done. -/
theorem Serves.flushed {value : Unit} (ran : session.exec session.fs.flush = .ok value after) :
    after.inodes = session.inodes ∧ after.fs = session.fs ∧
      after.Serves totalBlocks volume extents marked store := by
  have spec : FsM.wp (Prog.deviceRules totalBlocks) session.fs.flush session.inodes
      (fun _ inodes storeAfter => inodes = session.inodes ∧ storeAfter = store)
      (fun _ _ => True) store :=
    Cafs.wp_flush ⟨rfl, rfl⟩
  obtain ⟨storeAfter, backed, fsEq, inodesEq, rfl⟩ := serves.backed.returned spec ran
  refine ⟨inodesEq, fsEq, backed, ?_⟩
  rw [fsEq, inodesEq]
  exact serves.represents

/-- What the drop of a handle has done. -/
theorem Serves.dropped {pointer : Nat} {value : Unit}
    (ran : session.exec (dropHandle pointer) = .ok value after) :
    after.inodes = { session.inodes with handles := session.inodes.handles.erase pointer } ∧
      after.fs = session.fs ∧ after.Serves totalBlocks volume extents marked store := by
  have spec : FsM.wp (Prog.deviceRules totalBlocks) (dropHandle pointer) session.inodes
      (fun _ inodes storeAfter =>
        inodes = { session.inodes with handles := session.inodes.handles.erase pointer } ∧
        storeAfter = store)
      (fun _ _ => True) store :=
    FsM.wp_dropHandle.mpr ⟨rfl, rfl⟩
  obtain ⟨storeAfter, backed, fsEq, inodesEq, rfl⟩ := serves.backed.returned spec ran
  refine ⟨inodesEq, fsEq, backed, ?_⟩
  rw [fsEq, inodesEq]
  exact { serves.represents with coherent := serves.represents.coherent.drop pointer }

end

end Returned

end Session

end Canyon.Fs
