import Canyon.Fs.Resolution

/-!
# Flush and remount

What a user finds after a flush and a new mount: the same parts of the device, the same bitmaps,
the same files and the same tree, as long as every write is one that a tree can describe. A file
past that reach overwrites the super block, and the device cannot be mounted again.
-/

namespace Canyon.Fs

open Canyon.Lib
open EStateM (Result)

namespace Session

/-- What `sub_inodes` returns in a session. -/
def Lists (session : Session) (inodeNumber : Nat) (numbers : List Nat) : Prop :=
  ∃ after, session.exec (session.fs.subInodes inodeNumber) = .ok numbers after

/-- `CAFS::flush`, and `CAFS::open` on the device. -/
def reopen (session : Session) : Option Session :=
  match session.exec session.fs.flush with
  | .ok _ flushed => mount flushed.manager.device
  | .error _ _ => none

/-- A session finds what another one has left. -/
structure Recovers (session after : Session) : Prop where
  /-- The areas and the bitmaps start where they did. -/
  parts : after.fs = session.fs
  /-- The inode bitmap has the same bits. -/
  inodeBitmap : ∀ bit, after.fs.inodeBitmap.bitOn after.contents bit =
    session.fs.inodeBitmap.bitOn session.contents bit
  /-- The data bitmap has the same bits. -/
  dataBitmap : ∀ bit, after.fs.dataBitmap.bitOn after.contents bit =
    session.fs.dataBitmap.bitOn session.contents bit
  /-- Every allocated inode has the same type, size, name and data. -/
  files : ∀ number ∈ session.fs.allocatedInodes session.contents,
    ∃ seen, session.Sees number seen ∧ after.Sees number seen
  /-- The root directory lists the same inodes. -/
  children : ∃ numbers, session.Lists 0 numbers ∧ after.Lists 0 numbers

end Session

namespace Vfs

/-- What a call returns, or why it stops. -/
def outcome (vfs : Vfs) (call : VfsCall) : Except Panic (Except Error Reply) :=
  match vfs.exec call with
  | .ok reply _ => .ok reply
  | .error error _ => .error error

/-- A virtual file system finds what another one has left. -/
structure Recovers (vfs after : Vfs) : Prop where
  /-- The `CAFS` finds it. -/
  session : vfs.session.Recovers after.session
  /-- The tree has the same names, inode numbers and order. -/
  root : after.root = vfs.root
  /-- `read_unstable` gives the same result for every path. -/
  reads : ∀ path, after.outcome (.readUnstable path) = vfs.outcome (.readUnstable path)

end Vfs

/-! ## Sessions -/

section Sessions

variable {session after : Session} {totalBlocks inodeBitmapBlocks : Nat} {volume : Volume}
  {extents extentsAfter : Nat → Extent} {marked markedAfter : Nat → Bool} {store : Nat → Block}
  {device : Disk}

/-- The inode cache of a session has all files, or room for one more. -/
def Session.Ready (session : Session) (volume : Volume) : Prop :=
  ∀ number < volume.length, session.inodes.find number = none → ∀ error,
    Inodes.substitute session.inodes.queue session.inodes.handles ≠ .error error

/-- A cache with room is ready. -/
theorem Inodes.Roomy.ready (roomy : session.inodes.Roomy) (volume : Volume) :
    session.Ready volume :=
  fun _ _ _ => roomy.substitute_ok

/-- Two sessions that serve one volume from the same blocks show the same. -/
theorem Session.Serves.recovers
    (serves : session.Serves totalBlocks volume extents marked store)
    (servesAfter : after.Serves totalBlocks volume extentsAfter markedAfter store)
    (parts : after.fs = session.fs) (ready : session.Ready volume)
    (readyAfter : after.Ready volume) (isSmall : volume.Small) {root : File}
    (found : volume[0]? = some root) (isDir : root.type = .dir) {numbers : List Nat}
    (isListed : root.contents = directoryBytes numbers)
    (narrow : ∀ child ∈ numbers, child < 2 ^ 64) : session.Recovers after := by
  have rooted : 0 < volume.length := (List.getElem?_eq_some_iff.mp found).1
  have bound := isSmall root (List.mem_of_getElem? found)
  have contentsEq : after.contents = session.contents :=
    servesAfter.backed.contents_eq.trans serves.backed.contents_eq.symm
  refine ⟨parts, fun bit => by rw [parts, contentsEq], fun bit => by rw [parts, contentsEq], ?_,
    numbers, ?_, ?_⟩
  · intro number allocated
    rw [serves.backed.contents_eq, serves.represents.holds.allocatedInodes_eq,
      List.mem_range] at allocated
    have foundFile := List.getElem?_eq_getElem allocated
    have fileBound := isSmall _ (List.mem_of_getElem? foundFile)
    exact ⟨_, serves.sees foundFile fileBound (ready number allocated),
      servesAfter.sees foundFile fileBound (readyAfter number allocated)⟩
  · exact serves.lists found isDir bound isListed narrow (ready 0 rooted)
  · exact servesAfter.lists found isDir bound isListed narrow (readyAfter 0 rooted)

/-- `flush` and `open` give a session that serves the same volume from the same blocks. -/
theorem Session.Serves.reopens
    (serves : session.Serves totalBlocks volume extents marked store)
    (headed : session.fs.Headed store) :
    ∃ after, session.reopen = some after ∧ after.fs = session.fs ∧
      after.inodes = Inodes.new ∧ after.Serves totalBlocks volume extents marked store := by
  have geometry := serves.represents.geometry
  have positive := geometry.positive
  obtain ⟨flushed, ran, onDisk, onDevice⟩ := serves.backed.flush_settled
  obtain ⟨after, mounted, parts, inodesEq, backed⟩ :=
    exists_mount (onDisk ▸ headed) positive onDevice
  rw [onDisk] at backed
  refine ⟨after, ?_, parts, inodesEq, backed, ?_⟩
  · rw [reopen, ran]
    exact mounted
  · rw [parts, inodesEq]
    exact ⟨geometry, serves.represents.holds, Inodes.Coherent.new⟩

/-- A lawful call leaves the super block as it is while the trees can describe all files. -/
theorem Session.Serves.head_eq
    (serves : session.Serves totalBlocks volume extents marked store) (isSmall : volume.Small)
    {call : Call} (lawful : call.Lawful volume) {answer : Answer}
    (ran : session.exec (call.run session.fs) = .ok answer after) :
    after.fs = session.fs ∧ after.contents 0 = session.contents 0 := by
  rw [serves.backed.contents_eq]
  cases call with
  | create parent name =>
    obtain ⟨file, found, bound⟩ := lawful
    obtain ⟨value, ran, -⟩ := Session.exec_map_ok ran
    have keeps := keeps_appendEntry file.contents volume.length
    rw [← extended_eq serves found bound] at keeps
    obtain ⟨-, _, _, _, storeAfter, -, -, -, -, head, parts, servesAfter⟩ :=
      serves.created found keeps ran
    rw [servesAfter.backed.contents_eq]
    exact ⟨parts, head bound⟩
  | write number contents =>
    obtain ⟨value, ran, -⟩ := Session.exec_map_ok ran
    obtain ⟨wide, file, found, keeps⟩ := lawful
    obtain ⟨_, _, _, _, storeAfter, -, rewritten, -, parts, servesAfter⟩ :=
      serves.wrote found wide keeps ran
    rw [servesAfter.backed.contents_eq]
    exact ⟨parts, rewritten.frame 0 (serves.represents.geometry.zero_untouched _ _ _)
      fun _ => .inl (isSmall _ (List.mem_of_getElem? found))⟩
  | inode number =>
    obtain ⟨pointer, ran, -⟩ := Session.exec_map_ok ran
    obtain ⟨-, parts, servesAfter⟩ := serves.looked (List.getElem?_eq_getElem lawful) ran
    exact ⟨parts, by rw [servesAfter.backed.contents_eq]⟩
  | subInodes number =>
    obtain ⟨numbers, ran, -⟩ := Session.exec_map_ok ran
    obtain ⟨_, _, -, -, parts, servesAfter⟩ :=
      serves.listed (List.getElem?_eq_getElem lawful) ran
    exact ⟨parts, by rw [servesAfter.backed.contents_eq]⟩
  | df =>
    obtain ⟨space, ran, -⟩ := Session.exec_map_ok ran
    obtain ⟨-, parts, servesAfter⟩ := serves.measured ran
    exact ⟨parts, by rw [servesAfter.backed.contents_eq]⟩
  | flush =>
    obtain ⟨value, ran, -⟩ := Session.exec_map_ok ran
    obtain ⟨-, parts, servesAfter⟩ := serves.flushed ran
    exact ⟨parts, by rw [servesAfter.backed.contents_eq]⟩
  | drop pointer =>
    obtain ⟨value, ran, -⟩ := Session.exec_map_ok ran
    obtain ⟨-, parts, servesAfter⟩ := serves.dropped ran
    exact ⟨parts, by rw [servesAfter.backed.contents_eq]⟩

/-- Along tidy calls the super block describes the parts of the device. -/
theorem History.headed (small : totalBlocks < 2 ^ 64)
    (history : History Call.Tidy device totalBlocks inodeBitmapBlocks volume session) :
    session.fs.Headed session.contents := by
  obtain ⟨start, setUp, run⟩ := history
  generalize isLast : (volume, session) = last at run
  induction run generalizing volume session with
  | refl =>
    obtain ⟨rfl, rfl⟩ := Prod.mk.inj isLast
    exact Session.headed_of_fromInit small setUp
  | tail before advance ih =>
    subst isLast
    cases advance with
    | call call tidy ran =>
      obtain ⟨isSmall, _, _, _, tracks⟩ := History.tidy small ⟨start, setUp, before⟩
      obtain ⟨parts, head⟩ := tracks.serves.head_eq isSmall tidy.lawful ran
      rw [parts]
      exact (ih rfl).congr head

/-- The calls of a user who leaves directories to `create`, with writes that a tree can
describe. -/
def Call.Neat (volume : Volume) (call : Call) : Prop :=
  call.Filing volume ∧ call.Bounded volume

/-- Neat calls are tidy. -/
theorem Call.Neat.tidy {call : Call} (neat : call.Neat volume) : call.Tidy volume :=
  ⟨neat.1.1, neat.2, neat.1.2.1⟩

/-- The root directory goes on listing all files. -/
theorem Volume.Listed.listed_after {children : Nat → List Nat} (listed : volume.Listed children)
    (onlyRoot : volume.OnlyRoot) {call : Call} (isFiling : call.Filing volume) :
    ∃ childrenAfter, (volume.after call).Listed childrenAfter := by
  obtain ⟨addressed, -, filing⟩ := isFiling
  cases call with
  | create parent name =>
    obtain ⟨file, found, isDir⟩ := addressed
    obtain rfl := onlyRoot parent file found isDir
    cases isName : nameBytes (utf8Bytes name) with
    | none => exact ⟨children, by simpa only [Volume.after, isName] using listed⟩
    | some bytes =>
      simp only [Volume.after, isName, found]
      exact ⟨_, listed.create found bytes⟩
  | write number contents => exact ⟨children, listed.write (filing number contents rfl).2⟩
  | inode | subInodes | df | flush | drop => exact ⟨children, listed⟩

/-- A run of neat calls can be flushed and opened again. -/
theorem History.recovers (small : totalBlocks < 2 ^ 64)
    (history : History Call.Neat device totalBlocks inodeBitmapBlocks volume session) :
    ∃ after, session.reopen = some after ∧ session.Recovers after := by
  have headed := (history.mono fun _ _ neat => neat.tidy).headed small
  obtain ⟨⟨isSmall, children, listed⟩, extents, marked, store, tracks⟩ := history.tracks small
    (fun volume => volume.Small ∧ ∃ children, volume.Listed children)
    ⟨Volume.small_initial, _, .initial⟩
    (fun volume ⟨isSmall, _⟩ _ root found => isSmall root (List.mem_of_getElem? found))
    (fun volume call neat ⟨isSmall, _, listed⟩ onlyRoot =>
      ⟨neat.1.1, neat.1.2.1, fun number contents isWrite => (neat.1.2.2 number contents isWrite).1,
        isSmall.after neat.2, listed.listed_after onlyRoot neat.1⟩)
  rw [tracks.serves.backed.contents_eq] at headed
  obtain ⟨after, reopened, parts, inodesEq, servesAfter⟩ := tracks.serves.reopens headed
  have found := List.getElem?_eq_getElem tracks.rooted
  have ready : session.Ready volume :=
    fun number inside absent => absurd absent (tracks.find_ne_none inside)
  have roomy : after.inodes.Roomy := inodesEq ▸ Inodes.Roomy.new
  refine ⟨after, reopened, tracks.serves.recovers servesAfter parts ready (roomy.ready volume)
    isSmall found (listed.type _ found) (listed.contents _ found) ?_⟩
  intro child childIn
  rw [listed.numbers, List.mem_range'_1] at childIn
  exact tracks.serves.represents.holds.number_lt tracks.serves.represents.geometry (by omega)

end Sessions

/-! ## The virtual file system -/

/-- Entries that tell of files, and have nothing below, are the entries of their files. -/
theorem Volume.dentries_of_tells {volume : Volume} {entries : List DirEntry}
    (tells : ∀ entry ∈ entries, volume.Tells entry.key entry.value)
    (flat : ∀ entry ∈ entries, entry.children = []) :
    volume.dentries (entries.map fun entry => entry.value.inodeNumber) = entries := by
  induction entries with
  | nil => rfl
  | cons entry rest ih =>
    obtain ⟨name, value, below⟩ := entry
    obtain rfl : below = [] := flat _ List.mem_cons_self
    obtain ⟨-, file, found, isFile, isName, isType⟩ := tells _ List.mem_cons_self
    have isEntry : file.dentry value.inodeNumber = .node name value [] := by
      rw [File.dentry, isFile]
      exact congrArg₂ (fun key value => KeyTree.node key value []) isName.symm
        (congrArg (fun type => (⟨type, value.inodeNumber⟩ : Dentry)) isType.symm)
    have first : volume.dentries (value.inodeNumber ::
        rest.map fun entry => entry.value.inodeNumber) =
        file.dentry value.inodeNumber ::
          volume.dentries (rest.map fun entry => entry.value.inodeNumber) :=
      List.filterMap_cons_some (by rw [show volume[value.inodeNumber]? = _ from found]; rfl)
    rw [List.map_cons]
    refine first.trans ?_
    rw [isEntry, ih (fun other otherIn => tells other (List.mem_cons_of_mem _ otherIn))
      fun other otherIn => flat other (List.mem_cons_of_mem _ otherIn)]

namespace Vfs

variable {vfs after : Vfs} {totalBlocks inodeBitmapBlocks depth : Nat} {volume : Volume}
  {children : List Nat} {device : Disk}

/-- A flat tree is the one that a mount builds. -/
theorem Shows.root_eq (shown : vfs.Shows totalBlocks volume children) (flat : vfs.Flat)
    {root : File} (found : volume[0]? = some root) : vfs.root = volume.tree root children := by
  obtain ⟨same, foundSame, isDir, -, key, value⟩ := shown.top
  obtain rfl := Option.some.inj (found.symm.trans foundSame)
  have entries := Volume.dentries_of_tells (fun entry entryIn => (shown.below entry entryIn).root)
    flat
  rw [shown.listed] at entries
  have eta : ∀ tree : DirEntry, tree = .node tree.key tree.value tree.children := fun tree => by
    cases tree
    rfl
  rw [eta vfs.root, key, value, Volume.tree, isDir, entries]

/-- Two virtual file systems with one tree and one volume read the same from every path. -/
theorem Shows.outcome_read (shown : vfs.Shows totalBlocks volume children)
    (shownAfter : after.Shows totalBlocks volume children) (isRoot : after.root = vfs.root)
    (roomy : vfs.session.inodes.Roomy) (roomyAfter : after.session.inodes.Roomy) (path : String) :
    after.outcome (.readUnstable path) = vfs.outcome (.readUnstable path) := by
  cases parses : parsePath (VfsCall.readUnstable path).path with
  | none =>
    rw [outcome, outcome, after.exec_of_parsePath_none parses, vfs.exec_of_parsePath_none parses]
  | some isPath =>
    cases walks : vfs.root.walk ((VfsCall.readUnstable path).searched isPath) with
    | error name =>
      rw [outcome, outcome, vfs.exec_of_walk_error parses walks,
        after.exec_of_walk_error parses (isRoot.symm ▸ walks)]
    | ok dentry =>
      obtain ⟨file, found, -⟩ := shown.found walks
      have isParsed : parsePath path = some isPath := parses
      obtain ⟨_, ran⟩ := shown.reads roomy.substitute_ok isParsed walks found
      obtain ⟨_, ranAfter⟩ := shownAfter.reads roomyAfter.substitute_ok isParsed
        (isRoot.symm ▸ walks) found
      rw [outcome, outcome, ran, ranAfter]

/-- A flat tree is found again. -/
theorem Shows.recovers (shown : vfs.Shows totalBlocks volume children) (flat : vfs.Flat)
    (roomy : vfs.session.inodes.Roomy) (depth : Nat) :
    ∃ after, vfs.remount (depth + 2) = some after ∧ vfs.Recovers after := by
  obtain ⟨root, found, isDir, isListed, -, -⟩ := shown.top
  obtain ⟨after, mounted, shownAfter, roomyAfter, -, isTree, parts, contentsEq⟩ :=
    shown.remounts found depth
  have isRoot : after.root = vfs.root := isTree.trans (shown.root_eq flat found).symm
  obtain ⟨extents, marked, store, serves, -⟩ := shown.served
  obtain ⟨extentsAfter, markedAfter, reached, servesAfter, -⟩ := shownAfter.served
  have sameBlocks : reached = store := by
    rw [← servesAfter.backed.contents_eq, contentsEq, serves.backed.contents_eq]
  subst sameBlocks
  refine ⟨after, mounted, serves.recovers servesAfter parts (roomy.ready volume)
    (roomyAfter.ready volume) shown.small found isDir isListed ?_, isRoot,
    shown.outcome_read shownAfter isRoot roomy roomyAfter⟩
  intro child childIn
  obtain ⟨-, file, foundChild, -⟩ := shown.files child childIn
  exact serves.represents.holds.number_lt serves.represents.geometry
    (List.getElem?_eq_some_iff.mp foundChild).1

end Vfs

/-! ## The super block overwritten -/

/-- An empty block table is a block of zeros. -/
theorem Block.patch_emptyTable (block : Block) :
    block.patch indirectBlock 0 emptyTable = Block.zero := by
  have word : u64.encode 0 = List.replicate 8 0 := by decide
  have words : indirectBlock.encode emptyTable = List.replicate blockSize 0 := by
    show (Vector.replicate indirectLen 0).toList.flatMap u64.encode ++ u64.encode 0 = _
    rw [Vector.toList_replicate, List.flatMap_replicate, word, List.flatten_replicate_replicate,
      List.replicate_append_replicate]
    rfl
  refine Block.ext ?_
  rw [Block.patch, dif_pos (by simp)]
  simp [words, Block.zero, List.drop_of_length_le, block.length_bytes]

section Overwritten

variable {device : Disk} {session : Session} {vfs : Vfs} {totalBlocks : Nat} {volume : Volume}
  {extents : Nat → Extent} {marked : Nat → Bool} {store : Nat → Block}

/-- A device whose super block is cleared cannot be mounted. -/
theorem Session.mount_eq_none (positive : 0 < totalBlocks)
    (onDevice : totalBlocks ≤ device.totalBlocks) (cleared : device.data 0 = Block.zero) :
    mount device = none := by
  have backed : (blank device).Backed totalBlocks device.data :=
    ⟨CacheManager.Coherent.new device, rfl, onDevice⟩
  have seen : (device.data 0).view superBlock 0 = some ⟨0, 0, 0, 0, 0, 0⟩ := by
    rw [cleared]
    decide
  have spec : FsM.wp (Prog.deviceRules totalBlocks) (onBlocks Cafs.openFs) (blank device).inodes
      (fun _ _ _ => False) (fun _ _ => True) device.data := by
    refine FsM.wp_onBlocks.mpr (wp_readAt (by rw [width_superBlock]; decide) seen
      ⟨positive, by simp, Nat.zero_lt_succ 4⟩ ?_)
    rw [if_neg (by decide)]
    trivial
  obtain ⟨error, after, ran, -⟩ := backed.panics spec
  rw [mount, ran]

/-- A file system whose super block is cleared cannot be mounted again. -/
theorem Vfs.remount_eq_none (serves : vfs.session.Serves totalBlocks volume extents marked store)
    (positive : 0 < totalBlocks) (cleared : store 0 = Block.zero) (depth : Nat) :
    vfs.remount depth = none := by
  obtain ⟨flushed, ran, onDisk, onDevice⟩ := serves.backed.flush_settled
  have unmounted := Session.mount_eq_none positive onDevice (by rw [onDisk]; exact cleared)
  rw [remount, ran]
  show new depth flushed.manager.device = none
  rw [new, unmounted]

/-- A write that changes the length of a file past the reach of its tree, but not its number of
data blocks, makes the device unreadable. -/
theorem Vfs.remount_of_spilled
    (serves : vfs.session.Serves totalBlocks volume extents marked store)
    (positive : 0 < totalBlocks) (roomy : vfs.session.inodes.Roomy) {path : String} {isPath : Path}
    (isParsed : parsePath path = some isPath) {dentry : DirEntry}
    (walked : vfs.root.walk isPath.components = .ok dentry) {file : File}
    (found : volume[dentry.value.inodeNumber]? = some file) {contents : List UInt8}
    (wide : contents.length < 2 ^ 64) (past : l4Max < file.contents.length)
    (resized : contents.length ≠ file.contents.length)
    (sameBlocks : dataBlocks contents.length = dataBlocks file.contents.length)
    (free : Cafs.growth file.contents.length contents.length = 0) :
    ∃ after, vfs.exec (.write path contents) = .ok (.ok .done) after ∧
      ∀ depth, after.remount depth = none := by
  have keeps := Nat.le_of_eq sameBlocks.symm
  have space := vfs.session.fs.dataBitmap.used_le marked
  obtain ⟨after, ran⟩ := writes_of_serves roomy.substitute_ok isParsed walked found wide keeps
    serves (by omega)
  obtain ⟨-, -, -, ⟨_, _, _, reached, servesAfter, rewritten⟩, -, -⟩ :=
    wrote_of_serves serves isParsed walked found wide keeps ran
  obtain ⟨block, isPatch⟩ := rewritten.spilled past resized sameBlocks
  refine ⟨after, ran, remount_eq_none servesAfter positive ?_⟩
  rw [isPatch, Block.patch_emptyTable]

end Overwritten

/-- The calls of a user who creates files in directories and takes no data block from a file. -/
def VfsCall.Growing (volume : Volume) (vfs : Vfs) (call : VfsCall) : Prop :=
  call.Filed vfs ∧ call.Keeping volume vfs

/-- `create` in the root directory only adds. -/
theorem VfsCall.growing_create {volume : Volume} {vfs : Vfs} {totalBlocks : Nat}
    {children : List Nat} (shown : vfs.Shows totalBlocks volume children) {path name : String}
    (isParsed : parsePath path = some ⟨[], name⟩) : (VfsCall.create path).Growing volume vfs :=
  ⟨shown.filed_of_top isParsed, VfsCall.keeping_create volume vfs path⟩

/-- A longer write only adds. -/
theorem VfsCall.growing_write {volume : Volume} {vfs : Vfs} {path : String} {isPath : Path}
    (isParsed : parsePath path = some isPath) {dentry : DirEntry}
    (walked : vfs.root.walk isPath.components = .ok dentry) {file : File}
    (found : volume[dentry.value.inodeNumber]? = some file) {contents : List UInt8}
    (wide : contents.length < 2 ^ 64) (longer : file.contents.length ≤ contents.length) :
    (VfsCall.write path contents).Growing volume vfs := by
  refine ⟨fun _ _ _ isCreate => by contradiction, fun effect isEffect => ?_⟩
  rw [VfsCall.effect_write isParsed walked] at isEffect
  obtain rfl := Option.some.inj isEffect
  refine ⟨?_, ?_⟩
  · intro number bytes same written foundSame
    obtain ⟨rfl, rfl⟩ := Prod.mk.inj (Option.some.inj written)
    obtain rfl := Option.some.inj (found.symm.trans foundSame)
    exact dataBlocks_mono longer
  · rintro number bytes ⟨rfl, rfl⟩
    exact wide

/-- The bytes of a file past the reach of its tree. -/
def longContents (more : Nat) : List UInt8 := List.replicate (l4Max + more) 0

/-- Their number. -/
theorem length_longContents (more : Nat) : (longContents more).length = l4Max + more :=
  List.length_replicate

/-- The run to a device with a file past the reach of its tree. -/
theorem exists_longFile : ∃ bytes vfs extents marked store,
    VfsHistory VfsCall.Growing (Disk.new 20000000) 20000000 1 2
      ((testVolume bytes []).write 1 (longContents 1)) vfs ∧ vfs.root = testTree ∧
      vfs.session.Serves 20000000 ((testVolume bytes []).write 1 (longContents 1)) extents marked
        store ∧ vfs.session.inodes.Roomy := by
  have isParsed : parsePath "/a" = some ⟨[], "a"⟩ := by decide
  obtain ⟨bytes, vfs, history, test⟩ := VfsHistory.exists_test (show 20000000 < 2 ^ 64 by decide)
    ⟨by decide, by decide⟩ (show 0 < 1 by decide) (by decide)
    fun vfs fresh => VfsCall.growing_create fresh.shown isParsed
  have walked : vfs.root.walk (⟨[], "a"⟩ : Path).components = .ok (.node "a" ⟨.file, 1⟩ []) := by
    rw [test.root]
    rfl
  have found : (testVolume bytes [])[1]? = some ⟨.file, bytes, []⟩ := rfl
  have wide : (longContents 1).length < 2 ^ 64 := by
    rw [length_longContents]
    decide
  have space : 1 + Cafs.growth 0 (l4Max + 1) ≤
      (Cafs.parted 20000000 1).dataBitmap.totalCount := by decide
  have room : (testVolume bytes []).blocks + Cafs.growth 0 (longContents 1).length ≤
      vfs.session.fs.dataBitmap.totalCount := by
    rw [test.parts, testVolume_empty_blocks, length_longContents]
    exact space
  obtain ⟨after, ran⟩ := test.shown.writes test.roomy.substitute_ok isParsed walked found wide
    (dataBlocks_mono (Nat.zero_le _)) room
  have historyAfter := history.call
    (VfsCall.growing_write isParsed walked found wide (Nat.zero_le _)) ran
  rw [VfsCall.effect_write isParsed walked] at historyAfter
  obtain ⟨extents, marked, store, serves, -⟩ := test.shown.served
  obtain ⟨-, isRoot, -, ⟨_, extentsAfter, markedAfter, reached, servesAfter, -⟩, -, roomyAfter⟩ :=
    Vfs.wrote_of_serves serves isParsed walked found wide (dataBlocks_mono (Nat.zero_le _)) ran
  exact ⟨bytes, after, extentsAfter, markedAfter, reached, historyAfter, isRoot.trans test.root,
    servesAfter, roomyAfter test.roomy⟩

/-! ## Whole runs -/

/-- In every state that tidy calls reach, through the virtual file system or through neat calls on
the `CAFS`, a flush and a new mount find everything again. -/
theorem remount_recovers {device : Disk} {totalBlocks inodeBitmapBlocks : Nat}
    (small : totalBlocks < 2 ^ 64) (depth : Nat) :
    (∀ volume vfs, VfsHistory VfsCall.Tidy device totalBlocks inodeBitmapBlocks (depth + 2) volume
        vfs → ∃ after, vfs.remount (depth + 2) = some after ∧ vfs.Recovers after) ∧
    ∀ volume session, History Call.Neat device totalBlocks inodeBitmapBlocks volume session →
      ∃ after, session.reopen = some after ∧ session.Recovers after := by
  refine ⟨fun volume vfs history => ?_, fun volume session history => history.recovers small⟩
  obtain ⟨⟨children, shown⟩, flat, roomy⟩ := history.flat small
  exact shown.recovers flat roomy depth

/-- A device with a file `a` is found again. -/
theorem remount_recovers_test : ∃ bytes vfs after,
    VfsHistory VfsCall.Tidy (Disk.new 131072) 131072 2 2 (testVolume bytes []) vfs ∧
      vfs.remount 2 = some after ∧ vfs.Recovers after := by
  obtain ⟨bytes, vfs, history, -⟩ := exists_tidyTest
  obtain ⟨after, mounted, recovers⟩ := (remount_recovers (by decide) 0).1 _ _ history
  exact ⟨bytes, vfs, after, history, mounted, recovers⟩

/-- On a device of ten gigabytes, writes of `L4_MAX + 1` and then of `L4_MAX + 2` bytes to the new
file `a` return, and no mount finds the file system again. -/
theorem long_writes_lose_device : ∃ bytes vfs,
    VfsHistory VfsCall.Growing (Disk.new 20000000) 20000000 1 2
      (((testVolume bytes []).write 1 (longContents 1)).write 1 (longContents 2)) vfs ∧
      ∀ depth, vfs.remount depth = none := by
  obtain ⟨bytes, vfs, extents, marked, store, history, isRoot, serves, roomy⟩ := exists_longFile
  have isParsed : parsePath "/a" = some ⟨[], "a"⟩ := by decide
  have walked : vfs.root.walk (⟨[], "a"⟩ : Path).components = .ok (.node "a" ⟨.file, 1⟩ []) := by
    rw [isRoot]
    rfl
  have foundEmpty : (testVolume bytes [])[1]? = some ⟨.file, bytes, []⟩ := rfl
  have found := Volume.getElem?_write_self foundEmpty (longContents 1)
  have wide : (longContents 2).length < 2 ^ 64 := by
    rw [length_longContents]
    decide
  obtain ⟨after, ran, lost⟩ := Vfs.remount_of_spilled serves (by decide) roomy isParsed walked found
    wide (by rw [length_longContents]; exact Nat.lt_succ_self _)
    (by rw [length_longContents, length_longContents]; decide)
    (by rw [length_longContents, length_longContents]; decide)
    (by rw [length_longContents, length_longContents]; decide)
  have longer : (longContents 1).length ≤ (longContents 2).length := by
    rw [length_longContents, length_longContents]
    exact Nat.le_succ _
  have historyAfter :=
    history.call (VfsCall.growing_write isParsed walked found wide longer) ran
  rw [VfsCall.effect_write isParsed walked] at historyAfter
  exact ⟨bytes, after, historyAfter, lost⟩

end Canyon.Fs
