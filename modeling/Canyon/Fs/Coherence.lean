import Canyon.Fs.Remount

/-!
# One object for one inode

The inode cache and the blocks describe the same files, and `write` brings both up to date one
after the other. Between two calls, whatever handles are held or were dropped, the entries and the
handles of an inode are one object, and it says what the `Meta` in the inode area says.
-/

namespace Canyon.Fs

open Canyon.Lib

/-- The sessions of a device: one that `init` gives, those that lawful calls with files that a tree
can describe lead to, and those that a flush and `open` give, with an empty inode cache. -/
inductive Mounted (device : Disk) (totalBlocks inodeBitmapBlocks : Nat) :
    Volume → Session → Prop where
  /-- A device just set up. -/
  | init {session : Session}
      (setUp : Session.fromInit device totalBlocks inodeBitmapBlocks = some session) :
      Mounted device totalBlocks inodeBitmapBlocks Volume.initial session
  /-- A call that returned. -/
  | call {volume : Volume} {session after : Session} {answer : Answer}
      (mounted : Mounted device totalBlocks inodeBitmapBlocks volume session) (call : Call)
      (lawful : call.Lawful volume) (bounded : call.Bounded volume)
      (ran : session.exec (call.run session.fs) = .ok answer after) :
      Mounted device totalBlocks inodeBitmapBlocks (volume.after call) after
  /-- The device was flushed and opened again. -/
  | reopen {volume : Volume} {session after : Session}
      (mounted : Mounted device totalBlocks inodeBitmapBlocks volume session)
      (reopened : session.reopen = some after) :
      Mounted device totalBlocks inodeBitmapBlocks volume after

/-- A mounted session serves its volume. -/
theorem Mounted.serves {device : Disk} {totalBlocks inodeBitmapBlocks : Nat} {volume : Volume}
    {session : Session} (small : totalBlocks < 2 ^ 64)
    (mounted : Mounted device totalBlocks inodeBitmapBlocks volume session) :
    volume.Small ∧ session.fs.Headed session.contents ∧ ∃ extents marked store,
      session.Serves totalBlocks volume extents marked store := by
  induction mounted with
  | init setUp =>
    obtain ⟨-, -, -, store, serves, -⟩ := Session.serves_of_fromInit small setUp
    exact ⟨Volume.small_initial, Session.headed_of_fromInit small setUp, _, _, store, serves⟩
  | call mounted call lawful bounded ran ih =>
    obtain ⟨isSmall, headed, extents, marked, store, serves⟩ := ih
    obtain ⟨parts, head⟩ := serves.head_eq isSmall lawful ran
    refine ⟨isSmall.after bounded, ?_, serves.advance lawful ran⟩
    rw [parts]
    exact headed.congr head
  | reopen mounted reopened ih =>
    obtain ⟨isSmall, headed, extents, marked, store, serves⟩ := ih
    rw [serves.backed.contents_eq] at headed
    obtain ⟨after, again, parts, -, servesAfter⟩ := serves.reopens headed
    obtain rfl := Option.some.inj (again.symm.trans reopened)
    refine ⟨isSmall, ?_, _, _, _, servesAfter⟩
    rw [parts, servesAfter.backed.contents_eq]
    exact headed

/-- An object of the inode cache that an entry or a handle points to. -/
def Inodes.Live (inodes : Inodes) (pointer : Nat) : Prop :=
  pointer ∈ inodes.queue ∨ pointer ∈ inodes.handles

/-- An object says what the `Meta` at the position of its inode says, and lists the data blocks
that `Meta::blocks` finds. -/
def Session.Agrees (session : Session) (object : CaInode) : Prop :=
  ∃ record index, (session.contents (session.fs.inodePosOf object.inodeNumber).1).view metaCodec
      (session.fs.inodePosOf object.inodeNumber).2 = some record ∧
    object.type = record.type ∧ object.size = record.size ∧ object.name = record.name ∧
    record.blocks.run session.contents = .ok (index, object.blocks) session.contents

/-- The bytes that `data` reads from the object that `CaInode::from` makes of an inode. -/
def Session.Reads (session : Session) (inodeNumber : Nat) (bytes : List UInt8) : Prop :=
  ∃ record index blocks, (session.contents (session.fs.inodePosOf inodeNumber).1).view metaCodec
      (session.fs.inodePosOf inodeNumber).2 = some record ∧
    record.blocks.run session.contents = .ok (index, blocks) session.contents ∧
    (⟨inodeNumber, record.type, record.size, (session.fs.inodePosOf inodeNumber).1,
      (session.fs.inodePosOf inodeNumber).2, record.name, blocks⟩ : CaInode).data.run
        session.contents = .ok bytes session.contents

/-- A call that returned and took no data block from a file. `create` writes to the parent what it
reads there and one entry more. -/
inductive Step : Volume × Session → Volume × Session → Prop where
  /-- A lawful call. -/
  | call {volume : Volume} {session after : Session} {answer : Answer} (call : Call)
      (lawful : call.Lawful volume)
      (ran : session.exec (call.run session.fs) = .ok answer after) :
      Step (volume, session) (volume.after call, after)
  /-- A `create` in a parent of any size, where the write takes no data block from the parent. -/
  | create {volume : Volume} {session after : Session} {parent pointer : Nat} {name : String}
      {file : File} {bytes : List UInt8} {stored : NameBytes}
      (found : volume[parent]? = some file)
      (reads : session.Reads parent bytes)
      (keeps : dataBlocks file.contents.length ≤
        dataBlocks (appendEntry bytes volume.length).length)
      (isName : nameBytes (utf8Bytes name) = some stored)
      (ran : session.exec (session.fs.create parent name) = .ok pointer after) :
      Step (volume, session)
        ((volume.add .file stored).write parent (appendEntry bytes volume.length), after)

section Serving

variable {totalBlocks number : Nat} {volume : Volume} {session : Session}
  {extents : Nat → Extent} {marked : Nat → Bool} {store : Nat → Block} {file : File}

/-- The `Meta` of a file, and the blocks that `Meta::blocks` finds there. -/
theorem Session.Serves.exists_record
    (serves : session.Serves totalBlocks volume extents marked store)
    (found : volume[number]? = some file) :
    ∃ record, (session.contents (session.fs.inodePosOf number).1).view metaCodec
        (session.fs.inodePosOf number).2 = some record ∧
      Placed file record session.contents (extents number) ∧
      record.blocks.run session.contents =
        .ok ((extents number).index, (extents number).data) session.contents := by
  obtain ⟨record, seen, placed⟩ := serves.represents.holds.placed number file found
  have stored : session.contents = store := serves.backed.contents_eq
  have free : ∀ id ∈ (extents number).index, Scoped.Discipline.Valid ⟨5, fun _ => True⟩ id ∧
      id ∉ ([] : List Nat) :=
    fun _ _ => ⟨trivial, List.not_mem_nil⟩
  have read : record.blocks.wp ⟨5, fun _ => True⟩ []
      (fun found after => found = ((extents number).index, (extents number).data) ∧
        after = store) (fun _ _ => False) store :=
    placed.laid.wp_blocks record.size free (by decide) ⟨rfl, rfl⟩
  obtain ⟨_, _, ran, rfl, rfl⟩ := Scoped.run_eq_of_wp read
  rw [Cafs.inodePosOf_eq, stored]
  exact ⟨record, seen, placed, ran⟩

/-- What is read of a file is what its object gives. -/
theorem Session.Serves.reads_eq (serves : session.Serves totalBlocks volume extents marked store)
    (found : volume[number]? = some file) {bytes : List UInt8}
    (reads : session.Reads number bytes) :
    bytes = (session.fs.inodeOf number file (extents number)).bytesOn store := by
  obtain ⟨record, index, blocks, seen, ids, ran⟩ := reads
  obtain ⟨same, seenSame, placed, idsSame⟩ := serves.exists_record found
  obtain rfl := Option.some.inj (seen.symm.trans seenSame)
  rw [idsSame] at ids
  obtain ⟨rfl, rfl⟩ : (extents number).index = index ∧ (extents number).data = blocks := by
    simpa using ids
  have read : (session.fs.inodeOf number file (extents number)).data.wp ⟨5, fun _ => True⟩ []
      (fun bytes after => bytes =
        (session.fs.inodeOf number file (extents number)).bytesOn session.contents ∧
          after = session.contents) (fun _ _ => False) session.contents :=
    CaInode.wp_data _ (fun _ _ => ⟨trivial, List.not_mem_nil, by decide⟩) ⟨rfl, rfl⟩
  obtain ⟨_, _, ranSame, rfl, rfl⟩ := Scoped.run_eq_of_wp read
  rw [placed.type, placed.size, placed.name, Cafs.inodePosOf_eq, ← Cafs.inodeOf, ranSame] at ran
  have bytesEq : (session.fs.inodeOf number file (extents number)).bytesOn session.contents =
      bytes := by
    simpa using ran
  rw [← bytesEq, serves.backed.contents_eq]

/-- A session goes on serving its volume. -/
theorem Session.Serves.step {last : Volume × Session}
    (serves : session.Serves totalBlocks volume extents marked store)
    (step : Step (volume, session) last) :
    ∃ extentsAfter markedAfter storeAfter,
      last.2.Serves totalBlocks last.1 extentsAfter markedAfter storeAfter := by
  cases step with
  | call call lawful ran => exact serves.advance lawful ran
  | create found reads keeps isName ran =>
    obtain rfl := serves.reads_eq found reads
    obtain ⟨-, bytes, _, _, _, isBytes, -, -, -, -, -, servesAfter⟩ :=
      serves.created found keeps ran
    obtain rfl := Option.some.inj (isName.symm.trans isBytes)
    exact ⟨_, _, _, servesAfter⟩

/-- A session goes on serving its volume along a run. -/
theorem Session.Serves.steps {first last : Volume × Session}
    (serves : first.2.Serves totalBlocks first.1 extents marked store)
    (steps : Relation.ReflTransGen Step first last) :
    ∃ extentsAfter markedAfter storeAfter,
      last.2.Serves totalBlocks last.1 extentsAfter markedAfter storeAfter := by
  induction steps with
  | refl => exact ⟨_, _, _, serves⟩
  | tail _ step ih =>
    obtain ⟨_, _, _, servesBefore⟩ := ih
    exact servesBefore.step step

end Serving

/-- In every run of calls that name inodes that are there and take no data block from a file, on a
device just set up or mounted, with handles held and dropped anywhere, the entries and handles of
an inode are one object, and it agrees with the `Meta` of the inode. -/
theorem inode_cache_coherent {device : Disk} {totalBlocks inodeBitmapBlocks : Nat}
    {first volume : Volume} {start session : Session} (small : totalBlocks < 2 ^ 64)
    (mounted : Mounted device totalBlocks inodeBitmapBlocks first start)
    (steps : Relation.ReflTransGen Step (first, start) (volume, session)) :
    (∀ left right, session.inodes.Live left → session.inodes.Live right →
      (session.inodes.heap left).inodeNumber = (session.inodes.heap right).inodeNumber →
      left = right) ∧
    ∀ pointer, session.inodes.Live pointer → session.Agrees (session.inodes.heap pointer) := by
  obtain ⟨-, -, _, _, _, servesFirst⟩ := mounted.serves small
  obtain ⟨extents, marked, store, serves⟩ := servesFirst.steps steps
  have coherent := serves.represents.coherent
  have cached : ∀ pointer, session.inodes.Live pointer → pointer ∈ session.inodes.queue := by
    rintro pointer (isEntry | isHandle)
    · exact isEntry
    · exact coherent.pinned pointer isHandle
  constructor
  · intro left right leftLive rightLive same
    exact coherent.unique left (cached left leftLive) right (cached right rightLive) same
  · intro pointer live
    obtain ⟨number, file, found, isObject⟩ := coherent.described pointer (cached pointer live)
    obtain ⟨record, seen, placed, ran⟩ := serves.exists_record found
    rw [isObject]
    exact ⟨record, (extents number).index, seen, placed.type.symm, placed.size.symm,
      placed.name.symm, ran⟩

/-- After `test.txt` was created and written, its object in the cache agrees with its `Meta`. -/
theorem inode_cache_coherent_test : ∃ bytes start session pointer,
    Mounted (Disk.new 131072) 131072 2 Volume.initial start ∧
      Relation.ReflTransGen Step (Volume.initial, start) (testVolume bytes [84], session) ∧
      session.inodes.Live pointer ∧ (session.inodes.heap pointer).inodeNumber = 1 ∧
      session.Agrees (session.inodes.heap pointer) := by
  obtain ⟨bytes, session, history⟩ := exists_testHistory
  obtain ⟨-, extents, marked, store, tracks⟩ := history.tidy (by decide)
  obtain ⟨pointer, isEntry, isNumber⟩ := tracks.packed.present 1 (show 1 < 2 by decide)
  obtain ⟨start, setUp, run⟩ := history
  have steps : Relation.ReflTransGen Step (Volume.initial, start)
      (testVolume bytes [84], session) := by
    refine Relation.ReflTransGen.mono (fun _ _ advance => ?_) _ _ run
    cases advance with
    | call call tidy ran => exact .call call tidy.lawful ran
  have agrees := (inode_cache_coherent (by decide) (.init setUp) steps).2 pointer (.inl isEntry)
  exact ⟨bytes, start, session, pointer, .init setUp, steps, .inl isEntry, isNumber, agrees⟩

end Canyon.Fs
