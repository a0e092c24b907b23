import Canyon.Fs.Directories
import Canyon.Fs.VfsCalls

/-!
# Runs of the virtual file system

The invariant of a virtual file system: its `CAFS` serves a volume, nobody holds an inode, and
the tree tells of the files of the volume. The calls keep it, and so does a remount, which reads
the tree from the device again.
-/

namespace Canyon.Fs

open Canyon.Lib
open EStateM (Result)

/-- An entry below the root tells of a file. -/
def Volume.Tells (volume : Volume) (name : String) (dentry : Dentry) : Prop :=
  dentry.inodeNumber ≠ 0 ∧ ∃ file, volume[dentry.inodeNumber]? = some file ∧
    file.type = .file ∧ name = nameString file.name ∧ dentry.inodeType = .file

/-- What ties a virtual file system to a volume; `children` are the files that the root directory
lists. -/
structure Vfs.Shows (vfs : Vfs) (totalBlocks : Nat) (volume : Volume) (children : List Nat) :
    Prop where
  /-- The `CAFS` serves the volume, and the super block describes it. -/
  served : ∃ extents marked store, vfs.session.Serves totalBlocks volume extents marked store ∧
    vfs.session.fs.Headed store
  /-- Nobody holds an inode. -/
  idle : vfs.session.inodes.handles = []
  /-- The trees can describe all files. -/
  small : volume.Small
  /-- The root of the tree tells of the root directory. -/
  top : ∃ root, volume[0]? = some root ∧ root.type = .dir ∧
    root.contents = directoryBytes children ∧ vfs.root.key = nameString root.name ∧
    vfs.root.value = ⟨.dir, 0⟩
  /-- The entries below tell of files. -/
  below : ∀ child ∈ vfs.root.children, child.All volume.Tells
  /-- The entries under the root are those that the root directory lists. -/
  listed : (vfs.root.children.map fun child => child.value.inodeNumber) = children

/-! ## Volumes that go on -/

/-- Files keep their type and name. -/
def Volume.Continues (volume after : Volume) : Prop :=
  ∀ (number : Nat) (file : File), volume[number]? = some file →
    ∃ new : File, after[number]? = some new ∧ new.type = file.type ∧ new.name = file.name

/-- A write keeps types and names. -/
theorem Volume.continues_write (volume : Volume) (number : Nat) (contents : List UInt8) :
    volume.Continues (volume.write number contents) := by
  intro other file found
  by_cases same : other = number
  · subst same
    exact ⟨_, Volume.getElem?_write_self found contents, rfl, rfl⟩
  · exact ⟨file, by rwa [Volume.getElem?_write_of_ne volume same], rfl, rfl⟩

/-- A new file leaves the others as they are. -/
theorem Volume.continues_add (volume : Volume) (type : InodeType) (name : NameBytes) :
    volume.Continues (volume.add type name) := by
  intro other file found
  obtain ⟨inside, -⟩ := List.getElem?_eq_some_iff.mp found
  exact ⟨file, by rwa [Volume.getElem?_add_of_lt inside], rfl, rfl⟩

variable {volume : Volume}

/-- Two changes in a row. -/
theorem Volume.Continues.trans {middle after : Volume} (first : volume.Continues middle)
    (second : middle.Continues after) : volume.Continues after := by
  intro number file found
  obtain ⟨new, foundNew, type, name⟩ := first number file found
  obtain ⟨last, foundLast, lastType, lastName⟩ := second number new foundNew
  exact ⟨last, foundLast, lastType.trans type, lastName.trans name⟩

/-- An entry goes on telling of its file. -/
theorem Volume.Tells.mono {after : Volume} (continues : volume.Continues after) {name : String}
    {dentry : Dentry} (tells : volume.Tells name dentry) : after.Tells name dentry := by
  obtain ⟨notRoot, file, found, isFile, isName, isType⟩ := tells
  obtain ⟨new, foundNew, type, sameName⟩ := continues _ file found
  exact ⟨notRoot, new, foundNew, type.trans isFile, sameName ▸ isName, isType⟩

/-- The entries of files have their inode numbers. -/
theorem Volume.map_dentries {numbers : List Nat}
    (files : ∀ number ∈ numbers, ∃ file, volume[number]? = some file ∧ file.type = .file) :
    ((volume.dentries numbers).map fun child => child.value.inodeNumber) = numbers := by
  induction numbers with
  | nil => rfl
  | cons number rest ih =>
    obtain ⟨file, foundFile, -⟩ := files number List.mem_cons_self
    have entry : volume.dentries (number :: rest) =
        file.dentry number :: volume.dentries rest :=
      List.filterMap_cons_some (by rw [foundFile]; rfl)
    rw [entry, List.map_cons, ih fun child childIn => files child (List.mem_cons_of_mem _ childIn)]
    rfl

namespace Vfs

variable {vfs after : Vfs} {totalBlocks : Nat} {volume : Volume} {children : List Nat}

/-- An entry that a path leads to tells of a file. -/
theorem Shows.tells (shown : vfs.Shows totalBlocks volume children) {isPath : Path}
    {dentry : DirEntry} (walked : vfs.root.walk isPath.components = .ok dentry) :
    volume.Tells dentry.key dentry.value := by
  have named : ∃ first rest, isPath.components = first :: rest := by
    rw [Path.components]
    cases isPath.parents with
    | nil => exact ⟨_, _, rfl⟩
    | cons first rest => exact ⟨_, _, rfl⟩
  obtain ⟨first, rest, isComponents⟩ := named
  rw [isComponents] at walked
  exact (KeyTree.all_of_walk_cons shown.below walked).root

/-- A directory that a path leads to is the root; everything below is a file. -/
theorem Shows.parent (shown : vfs.Shows totalBlocks volume children) {dirs : List String}
    {dir : DirEntry} (walked : vfs.root.walk dirs = .ok dir) :
    dirs = [] ∧ dir = vfs.root ∨ volume.Tells dir.key dir.value := by
  cases dirs with
  | nil => exact .inl ⟨rfl, (Except.ok.inj walked).symm⟩
  | cons first rest => exact .inr (KeyTree.all_of_walk_cons shown.below walked).root

/-- The entry that a path leads to has its file in the volume. -/
theorem Shows.found (shown : vfs.Shows totalBlocks volume children) {dirs : List String}
    {dir : DirEntry} (walked : vfs.root.walk dirs = .ok dir) :
    ∃ file, volume[dir.value.inodeNumber]? = some file ∧ file.contents.length ≤ l4Max := by
  have small : ∀ (number : Nat) (file : File), volume[number]? = some file →
      file.contents.length ≤ l4Max :=
    fun _ file found => shown.small file (List.mem_of_getElem? found)
  rcases shown.parent walked with ⟨-, rfl⟩ | ⟨-, file, found, -⟩
  · obtain ⟨root, found, -, -, -, isRoot⟩ := shown.top
    rw [isRoot]
    exact ⟨root, found, small 0 root found⟩
  · exact ⟨file, found, small _ file found⟩

/-! ## Mounting -/

/-- `VFS::new` on a device that holds a volume whose root directory lists files. -/
theorem exists_new {device : Disk} {fs : Cafs} {extents : Nat → Extent} {marked : Nat → Bool}
    (geometry : fs.Geometry totalBlocks) (headed : fs.Headed device.data)
    (holds : fs.Holds device.data volume extents marked)
    (onDevice : totalBlocks ≤ device.totalBlocks) (small : volume.Small) {root : File}
    (found : volume[0]? = some root) (isDir : root.type = .dir)
    (isListed : root.contents = directoryBytes children)
    (files : ∀ child ∈ children, child ≠ 0 ∧
      ∃ file, volume[child]? = some file ∧ file.type = .file) (depth : Nat) :
    ∃ vfs, new (depth + 2) device = some vfs ∧ vfs.Shows totalBlocks volume children ∧
      vfs.session.inodes.Roomy ∧
      vfs.session.inodes.queue.length ≤ 2 + 2 * children.length ∧
      vfs.root = volume.tree root children ∧
      vfs.session.fs = fs ∧ vfs.session.contents = device.data := by
  have positive := geometry.positive
  obtain ⟨session, mounted, rfl, inodesEq, backed⟩ :=
    Session.exists_mount headed positive onDevice
  have rep : session.fs.Represents totalBlocks session.inodes device.data volume extents
      marked := ⟨geometry, holds, inodesEq ▸ Inodes.Coherent.new⟩
  have numbers : ∀ child ∈ children, child < 2 ^ 64 := by
    intro child childIn
    obtain ⟨-, file, foundChild, -⟩ := files child childIn
    obtain ⟨inside, -⟩ := List.getElem?_eq_some_iff.mp foundChild
    exact holds.number_lt geometry inside
  have spec : FsM.wp (Prog.deviceRules totalBlocks) (newRoot session.fs (depth + 2))
      session.inodes (fun tree inodes store => tree = volume.tree root children ∧
        session.fs.Represents totalBlocks inodes store volume extents marked ∧ inodes.Roomy ∧
        inodes.queue.length ≤ session.inodes.queue.length + 2 + 2 * children.length ∧
        store = device.data) (fun _ _ => False) device.data :=
    wp_newRoot rep (inodesEq ▸ Inodes.Roomy.new) found isDir
      (small root (List.mem_of_getElem? found)) isListed numbers
      (fun child childIn => (files child childIn).2) depth
      fun after repAfter roomyAfter few => ⟨rfl, repAfter, roomyAfter, few, rfl⟩
  obtain ⟨tree, reached, store, ran, backedAfter, fsEq, rfl, repAfter, roomyAfter, few, rfl⟩ :=
    backed.returns spec
  have isNew : new (depth + 2) device = some ⟨reached, volume.tree root children⟩ := by
    rw [new, mounted]
    dsimp only
    rw [ran]
  have tells : ∀ entry ∈ volume.dentries children, entry.All volume.Tells := by
    intro entry entryIn
    obtain ⟨number, numberIn, isEntry⟩ := List.mem_filterMap.mp entryIn
    obtain ⟨notRoot, file, foundFile, isFile⟩ := files number numberIn
    rw [foundFile] at isEntry
    obtain rfl := Option.some.inj isEntry
    exact .node ⟨notRoot, file, foundFile, isFile, rfl, isFile⟩ (by simp)
  have listed := Volume.map_dentries fun child childIn => (files child childIn).2
  refine ⟨_, isNew, ⟨⟨extents, marked, _, ⟨backedAfter, fsEq ▸ repAfter⟩, fsEq ▸ headed⟩,
    roomyAfter.idle, small, ⟨root, found, isDir, isListed, rfl, ?_⟩, tells, listed⟩, roomyAfter,
    ?_, rfl, fsEq, backedAfter.contents_eq⟩
  · show (⟨root.type, 0⟩ : Dentry) = ⟨.dir, 0⟩
    rw [isDir]
  · have empty : session.inodes.queue.length = 0 := by
      rw [inodesEq]
      rfl
    rw [empty] at few
    show reached.inodes.queue.length ≤ _
    omega

/-- The files that the root directory lists are files of the volume. -/
theorem Shows.files (shown : vfs.Shows totalBlocks volume children) :
    ∀ child ∈ children, child ≠ 0 ∧ ∃ file, volume[child]? = some file ∧ file.type = .file := by
  intro child childIn
  rw [← shown.listed] at childIn
  obtain ⟨entry, entryIn, rfl⟩ := List.mem_map.mp childIn
  obtain ⟨notRoot, file, found, isFile, -⟩ := (shown.below entry entryIn).root
  exact ⟨notRoot, file, found, isFile⟩

/-- `flush` and a mount build the tree of the volume again. -/
theorem Shows.remounts (shown : vfs.Shows totalBlocks volume children) {root : File}
    (found : volume[0]? = some root) (depth : Nat) :
    ∃ after, vfs.remount (depth + 2) = some after ∧ after.Shows totalBlocks volume children ∧
      after.session.inodes.Roomy ∧
      after.session.inodes.queue.length ≤ 2 + 2 * children.length ∧
      after.root = volume.tree root children ∧
      after.session.fs = vfs.session.fs ∧ after.session.contents = vfs.session.contents := by
  obtain ⟨extents, marked, store, serves, headed⟩ := shown.served
  obtain ⟨flushed, ran, onDisk, onDevice⟩ := serves.backed.flush_settled
  obtain ⟨same, foundSame, isDir, isListed, -, -⟩ := shown.top
  obtain rfl := Option.some.inj (found.symm.trans foundSame)
  obtain ⟨after, mounted, shownAfter, roomy, few, isTree, fsEq, contentsEq⟩ :=
    exists_new serves.represents.geometry (onDisk ▸ headed) (onDisk ▸ serves.represents.holds)
      onDevice shown.small found isDir isListed shown.files depth
  refine ⟨after, ?_, shownAfter, roomy, few, isTree, fsEq, ?_⟩
  · rw [remount, ran]
    exact mounted
  · rw [contentsEq, onDisk, serves.backed.contents_eq]

/-! ## Calls -/

section Calls

variable {path : String} {isPath : Path} {call : VfsCall} {contents : List UInt8}

/-- A path without `/` stops every call at `pop().unwrap()`. -/
theorem exec_of_parsePath_none (vfs : Vfs) (unparsed : parsePath call.path = none) :
    vfs.exec call = .error .unwrapNone vfs := by
  have stuck : parsed call.path = onBlocks (.fail .unwrapNone) := by rw [parsed, unparsed]
  have stops : call.run vfs.session.fs vfs.root = onBlocks (.fail .unwrapNone) := by
    cases call with
    | create path => exact congrArg (· >>= _) stuck
    | write path contents => exact congrArg (· >>= _) stuck
    | readUnstable path => exact congrArg (· >>= _) stuck
  rw [exec, stops]
  rfl

/-- A path to nothing is refused, and nothing changes. -/
theorem exec_of_walk_error (vfs : Vfs) (isParsed : parsePath call.path = some isPath)
    {name : String} (walked : vfs.root.walk (call.searched isPath) = .error name) :
    vfs.exec call = .ok (.error (.notExist name)) vfs := by
  have goesOn : parsed call.path = pure isPath := by rw [parsed, isParsed]
  have missing := findDentry_of_walk_error walked
  have refuses : call.run vfs.session.fs vfs.root =
      pure (.error (.notExist name), vfs.root) := by
    cases call with
    | create path =>
      refine (congrArg (· >>= _) goesOn).trans ((FsM.pure_bind isPath _).trans ?_)
      rw [show findDentry vfs.root isPath.parents = _ from missing]
    | write path contents =>
      refine (congrArg (· >>= _) goesOn).trans ((FsM.pure_bind isPath _).trans ?_)
      rw [show findDentry vfs.root isPath.components = _ from missing]
    | readUnstable path =>
      refine (congrArg (· >>= _) goesOn).trans ((FsM.pure_bind isPath _).trans ?_)
      rw [show findDentry vfs.root isPath.components = _ from missing]
  rw [exec, refuses]
  rfl

/-- A call returns when its program does. -/
theorem exec_eq_ok {reply : Except Error Reply} :
    vfs.exec call = .ok reply after ↔
      vfs.session.exec (call.run vfs.session.fs vfs.root) = .ok (reply, after.root)
        after.session := by
  obtain ⟨session, root⟩ := after
  rw [exec]
  cases vfs.session.exec (call.run vfs.session.fs vfs.root) with
  | ok out reached =>
    obtain ⟨answer, tree⟩ := out
    simp only [Result.ok.injEq, Vfs.mk.injEq, Prod.mk.injEq]
    tauto
  | error error reached => simp

variable {dir dentry : DirEntry} {file : File} {reply : Except Error Reply}

/-- The files that the root directory lists after `create`. -/
def adopted (isPath : Path) (volume : Volume) (children : List Nat) : List Nat :=
  if isPath.parents = [] then children ++ [volume.length] else children

/-- A new entry of the tree and of its directory: what the tree tells stays true. -/
theorem Shows.grafted (shown : vfs.Shows totalBlocks volume children)
    (walked : vfs.root.walk isPath.parents = .ok dir)
    (found : volume[dir.value.inodeNumber]? = some file)
    (bound : (appendEntry file.contents volume.length).length ≤ l4Max) {bytes : NameBytes}
    (served : ∃ extents marked store, after.session.Serves totalBlocks
      ((volume.add .file bytes).write dir.value.inodeNumber
        (appendEntry file.contents volume.length)) extents marked store ∧
      after.session.fs.Headed store)
    (idle : after.session.inodes.handles = [])
    (isRoot : after.root =
      (File.dentry ⟨.file, bytes, []⟩ volume.length).graft isPath.parents vfs.root) :
    after.Shows totalBlocks ((volume.add .file bytes).write dir.value.inodeNumber
      (appendEntry file.contents volume.length)) (adopted isPath volume children) := by
  obtain ⟨inside, -⟩ := List.getElem?_eq_some_iff.mp found
  obtain ⟨root, foundRoot, isDir, isListed, key, value⟩ := shown.top
  obtain ⟨rooted, -⟩ := List.getElem?_eq_some_iff.mp foundRoot
  have foundAdded : (volume.add .file bytes)[0]? = some root := by
    rw [Volume.getElem?_add_of_lt rooted]
    exact foundRoot
  have continues := (volume.continues_add .file bytes).trans
    (Volume.continues_write _ dir.value.inodeNumber (appendEntry file.contents volume.length))
  have foundNew : ((volume.add .file bytes).write dir.value.inodeNumber
      (appendEntry file.contents volume.length))[volume.length]? = some ⟨.file, bytes, []⟩ := by
    rw [Volume.getElem?_write_of_ne _ (Nat.ne_of_gt inside)]
    exact Volume.getElem?_add_self ..
  refine ⟨served, idle, (shown.small.add .file bytes).write _ bound, ?_, ?_, ?_⟩
  · rw [isRoot, KeyTree.key_graft, KeyTree.value_graft, key, value]
    rcases shown.parent walked with ⟨isTop, rfl⟩ | ⟨notRoot, -⟩
    · rw [value] at found ⊢
      obtain rfl := Option.some.inj (foundRoot.symm.trans found)
      refine ⟨_, Volume.getElem?_write_self foundAdded _, isDir, ?_, rfl, rfl⟩
      rw [adopted, if_pos isTop, directoryBytes_concat, isListed]
    · have below : isPath.parents ≠ [] := by
        intro isTop
        rw [isTop] at walked
        obtain rfl := Except.ok.inj walked
        rw [value] at notRoot
        exact notRoot rfl
      refine ⟨root, ?_, isDir, by rw [adopted, if_neg below, isListed], rfl, rfl⟩
      rw [Volume.getElem?_write_of_ne _ (Ne.symm notRoot)]
      exact foundAdded
  · rw [isRoot]
    refine KeyTree.forall_children_graft (fun child childIn =>
      (shown.below child childIn).mono fun _ _ => Volume.Tells.mono continues) ?_ _
    exact .node ⟨Nat.ne_of_gt rooted, _, foundNew, rfl, rfl, rfl⟩ (by simp)
  · rw [isRoot, adopted]
    cases isPath.parents with
    | nil =>
      rw [if_pos rfl, KeyTree.children_graft_nil, List.map_append, shown.listed]
      rfl
    | cons step rest =>
      rw [if_neg (List.cons_ne_nil _ _),
        KeyTree.map_children_graft_cons fun dentry : Dentry => dentry.inodeNumber]
      exact shown.listed

/-- What `create` has done. -/
theorem Shows.created (shown : vfs.Shows totalBlocks volume children)
    (isParsed : parsePath path = some isPath) (walked : vfs.root.walk isPath.parents = .ok dir)
    (found : volume[dir.value.inodeNumber]? = some file)
    (bound : (appendEntry file.contents volume.length).length ≤ l4Max)
    (ran : vfs.exec (.create path) = .ok reply after) :
    reply = .ok .done ∧ ∃ bytes, nameBytes (utf8Bytes isPath.name) = some bytes ∧
      after.root =
        (File.dentry ⟨.file, bytes, []⟩ volume.length).graft isPath.parents vfs.root ∧
      after.session.fs = vfs.session.fs ∧
      after.Shows totalBlocks ((volume.add .file bytes).write dir.value.inodeNumber
        (appendEntry file.contents volume.length)) (adopted isPath volume children) ∧
      after.session.inodes.queue.length ≤ vfs.session.inodes.queue.length + 3 ∧
      (isPath.parents = [] → vfs.session.inodes.Roomy → after.session.inodes.Roomy) := by
  obtain ⟨extents, marked, store, serves, headed⟩ := shown.served
  obtain ⟨inside, -⟩ := List.getElem?_eq_some_iff.mp found
  have isSmall := shown.small file (List.mem_of_getElem? found)
  have contentsEq := extended_eq serves found isSmall
  have keeps := keeps_appendEntry file.contents volume.length
  rw [← contentsEq] at keeps
  have spec : FsM.wp (Prog.deviceRules totalBlocks)
      ((VfsCall.create path).run vfs.session.fs vfs.root) vfs.session.inodes
      (fun out inodes reached => out.1 = .ok .done ∧ ∃ bytes extent markedAfter,
        nameBytes (utf8Bytes isPath.name) = some bytes ∧
        out.2 = (File.dentry ⟨.file, bytes, []⟩ volume.length).graft isPath.parents vfs.root ∧
        vfs.session.fs.Represents totalBlocks inodes reached
          ((volume.add .file bytes).write dir.value.inodeNumber
            (appendEntry file.contents volume.length))
          (Function.update (Function.update extents volume.length ⟨[], []⟩)
            dir.value.inodeNumber extent) markedAfter ∧
        reached 0 = store 0 ∧ inodes.handles = vfs.session.inodes.handles ∧
        inodes.queue.length ≤ vfs.session.inodes.queue.length + 3 ∧
        (isPath.parents = [] → vfs.session.inodes.Roomy → inodes.Roomy))
      (fun _ _ => True) store := by
    refine wp_vfsCreate serves.represents isParsed walked found keeps ?_ (fun _ => trivial)
      (fun _ _ => trivial) (fun _ _ => trivial) fun _ _ => trivial
    intro bytes created extent reached markedAfter isName isCreated repAfter head
    rw [contentsEq] at repAfter
    refine ⟨rfl, bytes, extent, markedAfter, isName, rfl, repAfter, head isSmall, rfl,
      isCreated.length_le, ?_⟩
    intro isTop roomy
    have isZero : dir.value.inodeNumber = 0 := by
      rw [isTop] at walked
      obtain rfl := Except.ok.inj walked
      obtain ⟨_, -, -, -, -, value⟩ := shown.top
      rw [value]
    rw [isZero] at found isCreated inside
    exact roomy.created serves.represents.coherent inside found isCreated
  obtain ⟨reached, backed, fsEq, isDone, bytes, extent, markedAfter, isName, isRoot, repAfter,
    head, handles, few, roomyAfter⟩ := serves.backed.returned spec (exec_eq_ok.mp ran)
  refine ⟨isDone, bytes, isName, isRoot, fsEq, ?_, few, roomyAfter⟩
  exact shown.grafted walked found bound
    ⟨_, _, reached, ⟨backed, fsEq ▸ repAfter⟩, fsEq ▸ headed.congr head⟩
    (handles.trans shown.idle) isRoot

/-- What `write` has done to the blocks and the inode cache. -/
theorem wrote_of_serves {extents : Nat → Extent} {marked : Nat → Bool} {store : Nat → Block}
    (serves : vfs.session.Serves totalBlocks volume extents marked store)
    (isParsed : parsePath path = some isPath)
    (walked : vfs.root.walk isPath.components = .ok dentry)
    (found : volume[dentry.value.inodeNumber]? = some file) (wide : contents.length < 2 ^ 64)
    (keeps : dataBlocks file.contents.length ≤ dataBlocks contents.length)
    (ran : vfs.exec (.write path contents) = .ok reply after) :
    reply = .ok .done ∧ after.root = vfs.root ∧ after.session.fs = vfs.session.fs ∧
      (∃ extent extentsAfter markedAfter reached, after.session.Serves totalBlocks
          (volume.write dentry.value.inodeNumber contents) extentsAfter markedAfter reached ∧
        vfs.session.fs.Rewritten store dentry.value.inodeNumber file
          (extents dentry.value.inodeNumber) marked contents extent reached markedAfter) ∧
      after.session.inodes.handles = vfs.session.inodes.handles ∧
      (vfs.session.inodes.Roomy → after.session.inodes.Roomy) := by
  have rep := serves.represents
  have spec : FsM.wp (Prog.deviceRules totalBlocks)
      ((VfsCall.write path contents).run vfs.session.fs vfs.root) vfs.session.inodes
      (fun out inodes reached => out = (.ok .done, vfs.root) ∧
        (∃ extent extentsAfter markedAfter, vfs.session.fs.Represents totalBlocks inodes reached
            (volume.write dentry.value.inodeNumber contents) extentsAfter markedAfter ∧
          vfs.session.fs.Rewritten store dentry.value.inodeNumber file
            (extents dentry.value.inodeNumber) marked contents extent reached markedAfter) ∧
        inodes.handles = vfs.session.inodes.handles ∧
        (vfs.session.inodes.Roomy → inodes.Roomy))
      (fun _ _ => True) store := by
    refine wp_vfsWrite isParsed walked (Cafs.wp_write rep found wide keeps ?_
      (fun _ _ => trivial) fun _ _ _ => trivial)
    intro pointer looked extent reached markedAfter isLooked rewritten
    have visited : vfs.session.inodes.Visited _ _ := ⟨isLooked⟩
    refine ⟨rfl, ⟨extent, _, markedAfter, rep.wrote found keeps isLooked rewritten, rewritten⟩,
      visited.handles, fun roomy => ?_⟩
    exact (roomy.visited rep.coherent visited).congr rfl rfl fun other =>
      Inodes.inodeNumber_wrote looked pointer contents.length extent.data other
  obtain ⟨reached, backed, fsEq, isDone, ⟨extent, extentsAfter, markedAfter, repAfter,
    rewritten⟩, handles, roomyAfter⟩ := serves.backed.returned spec (exec_eq_ok.mp ran)
  obtain ⟨rfl, isRoot⟩ := Prod.mk.inj isDone
  exact ⟨rfl, isRoot, fsEq, ⟨extent, extentsAfter, markedAfter, reached,
    ⟨backed, fsEq ▸ repAfter⟩, rewritten⟩, handles, roomyAfter⟩

/-- What `write` has done. -/
theorem Shows.wrote (shown : vfs.Shows totalBlocks volume children)
    (isParsed : parsePath path = some isPath)
    (walked : vfs.root.walk isPath.components = .ok dentry)
    (found : volume[dentry.value.inodeNumber]? = some file) (bound : contents.length ≤ l4Max)
    (keeps : dataBlocks file.contents.length ≤ dataBlocks contents.length)
    (ran : vfs.exec (.write path contents) = .ok reply after) :
    reply = .ok .done ∧ after.root = vfs.root ∧ after.session.fs = vfs.session.fs ∧
      after.Shows totalBlocks (volume.write dentry.value.inodeNumber contents) children ∧
      (vfs.session.inodes.Roomy → after.session.inodes.Roomy) := by
  obtain ⟨extents, marked, store, serves, headed⟩ := shown.served
  have isSmall := shown.small file (List.mem_of_getElem? found)
  have wide : contents.length < 2 ^ 64 := by
    obtain ⟨-, -, -, -, -, -, -, top⟩ := levelConstants
    omega
  obtain ⟨isDone, isRoot, fsEq, ⟨extent, extentsAfter, markedAfter, reached, servesAfter,
    rewritten⟩, handles, roomyAfter⟩ := wrote_of_serves serves isParsed walked found wide keeps ran
  have head : reached 0 = store 0 := rewritten.frame 0
    (serves.represents.geometry.zero_untouched _ _ _) fun _ => .inl isSmall
  have continues := volume.continues_write dentry.value.inodeNumber contents
  refine ⟨isDone, isRoot, fsEq, ⟨⟨extentsAfter, markedAfter, reached, servesAfter,
    fsEq ▸ headed.congr head⟩, handles.trans shown.idle, shown.small.write _ bound, ?_, ?_, ?_⟩,
    roomyAfter⟩
  · obtain ⟨root, foundRoot, rest⟩ := shown.top
    rw [isRoot]
    refine ⟨root, ?_, rest⟩
    rw [Volume.getElem?_write_of_ne _ (Ne.symm (shown.tells walked).1)]
    exact foundRoot
  · rw [isRoot]
    exact fun child childIn =>
      (shown.below child childIn).mono fun _ _ => Volume.Tells.mono continues
  · rw [isRoot]
    exact shown.listed

/-- What `read_unstable` returns, and what it has done. -/
theorem Shows.read (shown : vfs.Shows totalBlocks volume children)
    (isParsed : parsePath path = some isPath)
    (walked : vfs.root.walk isPath.components = .ok dentry)
    (found : volume[dentry.value.inodeNumber]? = some file)
    (ran : vfs.exec (.readUnstable path) = .ok reply after) :
    reply = .ok (.contents file.contents) ∧ after.root = vfs.root ∧
      after.session.fs = vfs.session.fs ∧ after.Shows totalBlocks volume children ∧
      (vfs.session.inodes.Roomy → after.session.inodes.Roomy) := by
  obtain ⟨extents, marked, store, serves, headed⟩ := shown.served
  have rep := serves.represents
  obtain ⟨record, -, placed⟩ := rep.holds.placed _ file found
  have isSmall := shown.small file (List.mem_of_getElem? found)
  have spec : FsM.wp (Prog.deviceRules totalBlocks)
      ((VfsCall.readUnstable path).run vfs.session.fs vfs.root) vfs.session.inodes
      (fun out inodes reached => out = (.ok (.contents file.contents), vfs.root) ∧
        vfs.session.fs.Represents totalBlocks inodes store volume extents marked ∧
        reached = store ∧ inodes.handles = vfs.session.inodes.handles ∧
        (vfs.session.inodes.Roomy → inodes.Roomy))
      (fun _ _ => True) store := by
    refine wp_readUnstable rep isParsed walked found ?_ fun _ _ => trivial
    intro reached visited
    refine ⟨by rw [placed.bytesOn_eq isSmall],
      ⟨rep.geometry, rep.holds, rep.coherent.visited found visited⟩, rfl, visited.handles,
      fun roomy => roomy.visited rep.coherent visited⟩
  obtain ⟨reached, backed, fsEq, isDone, repAfter, rfl, handles, roomyAfter⟩ :=
    serves.backed.returned spec (exec_eq_ok.mp ran)
  obtain ⟨rfl, isRoot⟩ := Prod.mk.inj isDone
  refine ⟨rfl, isRoot, fsEq, ⟨⟨extents, marked, reached, ⟨backed, fsEq ▸ repAfter⟩,
    fsEq ▸ headed⟩, handles.trans shown.idle, shown.small, ?_, ?_, ?_⟩, roomyAfter⟩
  · rw [isRoot]
    exact shown.top
  · rw [isRoot]
    exact shown.below
  · rw [isRoot]
    exact shown.listed

/-- `read_unstable` returns while the inode cache has room. -/
theorem Shows.reads (shown : vfs.Shows totalBlocks volume children)
    (room : ∀ error, Inodes.substitute vfs.session.inodes.queue vfs.session.inodes.handles ≠
      .error error) (isParsed : parsePath path = some isPath)
    (walked : vfs.root.walk isPath.components = .ok dentry)
    (found : volume[dentry.value.inodeNumber]? = some file) :
    ∃ after, vfs.exec (.readUnstable path) = .ok (.ok (.contents file.contents)) after := by
  obtain ⟨extents, marked, store, serves, -⟩ := shown.served
  have spec : FsM.wp (Prog.deviceRules totalBlocks)
      ((VfsCall.readUnstable path).run vfs.session.fs vfs.root) vfs.session.inodes
      (fun _ _ _ => True) (fun _ _ => False) store :=
    wp_readUnstable serves.represents isParsed walked found (fun _ _ => trivial)
      fun _ stuck => absurd stuck (room _)
  obtain ⟨out, reached, -, ran, -⟩ := serves.backed.returns spec
  have returned : vfs.exec (.readUnstable path) = .ok out.1 ⟨reached, out.2⟩ :=
    exec_eq_ok.mpr ran
  obtain ⟨isReply, -⟩ := shown.read isParsed walked found returned
  exact ⟨_, by rw [returned, isReply]⟩

section Write

variable (room : ∀ error, Inodes.substitute vfs.session.inodes.queue vfs.session.inodes.handles ≠
    .error error) (isParsed : parsePath path = some isPath)
  (walked : vfs.root.walk isPath.components = .ok dentry)
  (found : volume[dentry.value.inodeNumber]? = some file) (wide : contents.length < 2 ^ 64)
  (keeps : dataBlocks file.contents.length ≤ dataBlocks contents.length)

include room isParsed walked found wide keeps

/-- `write` returns while the inode cache and the data area have room. -/
theorem writes_of_serves {extents : Nat → Extent} {marked : Nat → Bool} {store : Nat → Block}
    (serves : vfs.session.Serves totalBlocks volume extents marked store)
    (space : vfs.session.fs.dataBitmap.used marked +
      Cafs.growth file.contents.length contents.length ≤ vfs.session.fs.dataBitmap.totalCount) :
    ∃ after, vfs.exec (.write path contents) = .ok (.ok .done) after := by
  have spec : FsM.wp (Prog.deviceRules totalBlocks)
      ((VfsCall.write path contents).run vfs.session.fs vfs.root) vfs.session.inodes
      (fun out _ _ => out = (.ok .done, vfs.root)) (fun _ _ => False) store :=
    wp_vfsWrite isParsed walked (Cafs.wp_write serves.represents found wide keeps
      (fun _ _ _ _ _ _ _ => rfl) (fun _ stuck => absurd stuck (room _))
      fun _ _ tight => by omega)
  obtain ⟨out, reached, -, ran, -, -, rfl⟩ := serves.backed.returns spec
  exact ⟨⟨reached, vfs.root⟩, exec_eq_ok.mpr ran⟩

/-- `write` returns while there is room for what the volume and the contents ask for. -/
theorem Shows.writes (shown : vfs.Shows totalBlocks volume children)
    (space : volume.blocks + Cafs.growth file.contents.length contents.length ≤
      vfs.session.fs.dataBitmap.totalCount) :
    ∃ after, vfs.exec (.write path contents) = .ok (.ok .done) after := by
  obtain ⟨extents, marked, store, serves, -⟩ := shown.served
  have used := serves.represents.holds.used_eq_blocks shown.small
  exact writes_of_serves room isParsed walked found wide keeps serves (by omega)

end Write

/-- `create` returns while there is room of all kinds. -/
theorem Shows.creates (shown : vfs.Shows totalBlocks volume children)
    (few : vfs.session.inodes.queue.length + 2 < inodeCacheSize)
    (isParsed : parsePath path = some isPath) (walked : vfs.root.walk isPath.parents = .ok dir)
    (found : volume[dir.value.inodeNumber]? = some file) {bytes : NameBytes}
    (isName : nameBytes (utf8Bytes isPath.name) = some bytes)
    (free : volume.length < vfs.session.fs.inodeBitmap.totalCount)
    (space : volume.blocks + Cafs.growth file.contents.length
      (appendEntry file.contents volume.length).length ≤ vfs.session.fs.dataBitmap.totalCount) :
    ∃ after, vfs.exec (.create path) = .ok (.ok .done) after := by
  obtain ⟨extents, marked, store, serves, -⟩ := shown.served
  have used := serves.represents.holds.used_eq_blocks shown.small
  have contentsEq := extended_eq serves found (shown.small file (List.mem_of_getElem? found))
  have keeps := keeps_appendEntry file.contents volume.length
  rw [← contentsEq] at keeps space
  have spec : FsM.wp (Prog.deviceRules totalBlocks)
      ((VfsCall.create path).run vfs.session.fs vfs.root) vfs.session.inodes
      (fun out _ _ => out.1 = .ok .done) (fun _ _ => False) store := by
    refine wp_vfsCreate serves.represents isParsed walked found keeps ?_ (fun full => ?_)
      (fun _ tooLong => ?_) (fun _ tight => ?_) fun _ tight => ?_
    · intro bytes created extent reached markedAfter isName isCreated repAfter head
      rfl
    · omega
    · rw [isName] at tooLong
      contradiction
    · omega
    · omega
  obtain ⟨out, reached, -, ran, -, -, isDone⟩ := serves.backed.returns spec
  refine ⟨⟨reached, out.2⟩, ?_⟩
  rw [← isDone]
  exact exec_eq_ok.mpr ran

end Calls

end Vfs

end Canyon.Fs
