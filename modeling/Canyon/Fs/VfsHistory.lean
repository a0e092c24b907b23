import Canyon.Fs.VfsRuns

/-!
# Histories of the virtual file system

Runs of calls and remounts, from a device just set up, with the volume that they are meant to
leave. An invariant of such runs is proved for a file system just mounted and for one call.
-/

namespace Canyon.Fs

open Canyon.Lib
open EStateM (Result)

/-- The call on the `CAFS` that changes the volume; there is none for a path to nothing. -/
def VfsCall.effect (root : DirEntry) (call : VfsCall) : Option Call :=
  match parsePath call.path with
  | none => none
  | some path =>
    match root.walk (call.searched path), call with
    | .ok dir, .create _ => some (.create dir.value.inodeNumber path.name)
    | .ok dentry, .write _ contents => some (.write dentry.value.inodeNumber contents)
    | _, _ => none

/-- The volume after a call that has an effect or none. -/
def Volume.next (volume : Volume) (effect : Option Call) : Volume :=
  effect.elim volume volume.after

variable {root : DirEntry} {path : String} {isPath : Path} {volume : Volume}
  {totalBlocks inodeBitmapBlocks : Nat} {vfs : Vfs}

/-- The effect of `create`. -/
theorem VfsCall.effect_create {dir : DirEntry} (isParsed : parsePath path = some isPath)
    (walked : root.walk isPath.parents = .ok dir) :
    (VfsCall.create path).effect root = some (.create dir.value.inodeNumber isPath.name) := by
  simp only [effect, VfsCall.path, searched, isParsed, walked]

/-- A `create` that has an effect has found its directory. -/
theorem VfsCall.exists_of_effect_create {effect : Call}
    (isEffect : (VfsCall.create path).effect root = some effect) :
    ∃ isPath dir, parsePath path = some isPath ∧ root.walk isPath.parents = .ok dir ∧
      effect = .create dir.value.inodeNumber isPath.name := by
  cases parses : parsePath path with
  | none => simp [VfsCall.effect, VfsCall.path, parses] at isEffect
  | some isPath =>
    cases walks : root.walk isPath.parents with
    | error name => simp [VfsCall.effect, VfsCall.path, VfsCall.searched, parses, walks] at isEffect
    | ok dir =>
      rw [VfsCall.effect_create parses walks] at isEffect
      exact ⟨isPath, dir, rfl, walks, (Option.some.inj isEffect).symm⟩

/-- The effect of `write`. -/
theorem VfsCall.effect_write {dentry : DirEntry} (isParsed : parsePath path = some isPath)
    (walked : root.walk isPath.components = .ok dentry) (contents : List UInt8) :
    (VfsCall.write path contents).effect root =
      some (.write dentry.value.inodeNumber contents) := by
  simp only [effect, VfsCall.path, searched, isParsed, walked]

/-- The volume after `create`. -/
theorem Volume.next_create {parent : Nat} {file : File} (found : volume[parent]? = some file)
    {name : String} {bytes : NameBytes} (isName : nameBytes (utf8Bytes name) = some bytes) :
    volume.next (some (.create parent name)) =
      (volume.add .file bytes).write parent (appendEntry file.contents volume.length) := by
  rw [next, Option.elim_some, after, isName, found]

/-- Every write, those of `create` included, is one that a tree can describe and takes no data
block from its file. -/
def VfsCall.Orderly (volume : Volume) (vfs : Vfs) (call : VfsCall) : Prop :=
  ∀ effect, call.effect vfs.root = some effect → effect.Bounded volume ∧ effect.Keeping volume

/-- Contents are not longer than a slice can be, and a write takes no data block from its
file. -/
def VfsCall.Keeping (volume : Volume) (vfs : Vfs) (call : VfsCall) : Prop :=
  ∀ effect, call.effect vfs.root = some effect → effect.Keeping volume ∧
    ∀ number contents, effect = .write number contents → contents.length < 2 ^ 64

/-- `create` is asked for directories only. -/
def VfsCall.Filed (vfs : Vfs) (call : VfsCall) : Prop :=
  ∀ path isPath dir, call = .create path → parsePath path = some isPath →
    vfs.root.walk isPath.parents = .ok dir → dir.value.inodeType = .dir

/-- The calls of an orderly user who creates files in directories. -/
def VfsCall.Tidy (volume : Volume) (vfs : Vfs) (call : VfsCall) : Prop :=
  call.Orderly volume vfs ∧ call.Filed vfs

/-- One step of a user: a call that returns, or a remount. -/
inductive VfsStep (allowed : Volume → Vfs → VfsCall → Prop) (depth : Nat) :
    Volume × Vfs → Volume × Vfs → Prop where
  /-- The call was allowed and returned. -/
  | call {volume : Volume} {vfs after : Vfs} {reply : Except Error Reply} (call : VfsCall)
      (isAllowed : allowed volume vfs call) (ran : vfs.exec call = .ok reply after) :
      VfsStep allowed depth (volume, vfs) (volume.next (call.effect vfs.root), after)
  /-- The device was flushed and mounted again. -/
  | remount {volume : Volume} {vfs after : Vfs} (mounted : vfs.remount depth = some after) :
      VfsStep allowed depth (volume, vfs) (volume, after)

/-- A run of calls that all return and of remounts, from a device just set up. -/
def VfsHistory (allowed : Volume → Vfs → VfsCall → Prop) (device : Disk)
    (totalBlocks inodeBitmapBlocks depth : Nat) (volume : Volume) (vfs : Vfs) : Prop :=
  ∃ start first, Session.fromInit device totalBlocks inodeBitmapBlocks = some start ∧
    Vfs.new depth start.manager.device = some first ∧
    Relation.ReflTransGen (VfsStep allowed depth) (Volume.initial, first) (volume, vfs)

/-- A virtual file system just mounted. -/
structure Vfs.Fresh (vfs : Vfs) (totalBlocks : Nat) (volume : Volume) (children : List Nat) :
    Prop where
  /-- The tree tells of the volume. -/
  shown : vfs.Shows totalBlocks volume children
  /-- The inode cache has room. -/
  roomy : vfs.session.inodes.Roomy
  /-- The inode cache is as good as empty. -/
  few : vfs.session.inodes.queue.length ≤ 2 + 2 * children.length
  /-- The tree is that of the volume. -/
  isTree : ∃ root, volume[0]? = some root ∧ vfs.root = volume.tree root children

/-- No entry of the root has entries below. -/
def Vfs.Flat (vfs : Vfs) : Prop := ∀ child ∈ vfs.root.children, child.children = []

namespace Vfs

variable {vfs after : Vfs} {totalBlocks inodeBitmapBlocks depth : Nat} {volume : Volume}
  {children : List Nat} {device : Disk} {start : Session}

/-- `VFS::new` on a device just set up. -/
theorem fresh_of_fromInit (small : totalBlocks < 2 ^ 64)
    (isStart : Session.fromInit device totalBlocks inodeBitmapBlocks = some start) (depth : Nat) :
    ∃ vfs, new (depth + 2) start.manager.device = some vfs ∧
      vfs.Fresh totalBlocks Volume.initial [] ∧
      vfs.session.fs = Cafs.parted totalBlocks inodeBitmapBlocks := by
  obtain ⟨parts, -, -, store, serves, -⟩ := Session.serves_of_fromInit small isStart
  have onDisk := Session.settled_of_fromInit small isStart
  have headed := Session.headed_of_fromInit small isStart
  rw [← onDisk] at headed
  rw [serves.backed.contents_eq] at onDisk
  have isListed : ([] : List UInt8) = directoryBytes [] := rfl
  obtain ⟨vfs, mounted, shown, roomy, few, isTree, fsEq, -⟩ := exists_new serves.represents.geometry
    headed (onDisk ▸ serves.represents.holds) serves.backed.onDevice Volume.small_initial rfl
    rfl isListed (by simp) depth
  exact ⟨vfs, mounted, ⟨shown, roomy, few, _, rfl, isTree⟩, fsEq.trans parts⟩

/-- A remount. -/
theorem Shows.fresh (shown : vfs.Shows totalBlocks volume children)
    (mounted : vfs.remount (depth + 2) = some after) :
    after.Fresh totalBlocks volume children ∧ after.session.fs = vfs.session.fs := by
  obtain ⟨root, found, -⟩ := shown.top
  obtain ⟨same, isSame, shownAfter, roomy, few, isTree, fsEq, -⟩ := shown.remounts found depth
  obtain rfl := Option.some.inj (isSame.symm.trans mounted)
  exact ⟨⟨shownAfter, roomy, few, root, found, isTree⟩, fsEq⟩

/-- What a call does that returns: it keeps the tree, or adds an entry to it. -/
theorem Shows.step (shown : vfs.Shows totalBlocks volume children) {call : VfsCall}
    {reply : Except Error Reply} (orderly : call.Orderly volume vfs)
    (ran : vfs.exec call = .ok reply after) :
    after.session.fs = vfs.session.fs ∧
    (after.Shows totalBlocks (volume.next (call.effect vfs.root)) children ∧
      after.root = vfs.root ∧ (vfs.session.inodes.Roomy → after.session.inodes.Roomy) ∨
    ∃ path isPath dir bytes, call = .create path ∧ parsePath path = some isPath ∧
      vfs.root.walk isPath.parents = .ok dir ∧ nameBytes (utf8Bytes isPath.name) = some bytes ∧
      after.root =
        (File.dentry ⟨.file, bytes, []⟩ volume.length).graft isPath.parents vfs.root ∧
      after.Shows totalBlocks (volume.next (call.effect vfs.root))
        (adopted isPath volume children) ∧
      (isPath.parents = [] → vfs.session.inodes.Roomy → after.session.inodes.Roomy)) := by
  cases parses : parsePath call.path with
  | none =>
    rw [exec_of_parsePath_none vfs parses] at ran
    contradiction
  | some isPath =>
    cases walks : vfs.root.walk (call.searched isPath) with
    | error name =>
      have noEffect : call.effect vfs.root = none := by simp only [VfsCall.effect, parses, walks]
      rw [exec_of_walk_error vfs parses walks] at ran
      obtain ⟨-, rfl⟩ := Result.ok.inj ran
      rw [noEffect]
      exact ⟨rfl, .inl ⟨shown, rfl, id⟩⟩
    | ok dentry =>
      obtain ⟨file, found, -⟩ := shown.found walks
      cases call with
      | create path =>
        have effect : (VfsCall.create path).effect vfs.root = _ :=
          VfsCall.effect_create parses walks
        have bound : (appendEntry file.contents volume.length).length ≤ l4Max :=
          (orderly _ effect).1 _ _ (by rw [Call.written, found]; rfl)
        obtain ⟨-, bytes, isName, isRoot, fsEq, shownAfter, -, roomyAfter⟩ :=
          shown.created parses walks found bound ran
        rw [effect, Volume.next_create found isName]
        exact ⟨fsEq, .inr ⟨path, isPath, dentry, bytes, rfl, parses, walks, isName, isRoot,
          shownAfter, roomyAfter⟩⟩
      | write path contents =>
        have effect : (VfsCall.write path contents).effect vfs.root = _ :=
          VfsCall.effect_write parses walks contents
        obtain ⟨bounded, keeping⟩ := orderly _ effect
        obtain ⟨-, isRoot, fsEq, shownAfter, roomyAfter⟩ := shown.wrote parses walks found
          (bounded _ _ rfl) (keeping _ _ file rfl found) ran
        rw [effect]
        exact ⟨fsEq, .inl ⟨shownAfter, isRoot, roomyAfter⟩⟩
      | readUnstable path =>
        have effect : (VfsCall.readUnstable path).effect vfs.root = none := by
          simp only [VfsCall.effect, parses, walks]
        obtain ⟨-, isRoot, fsEq, shownAfter, roomyAfter⟩ := shown.read parses walks found ran
        rw [effect]
        exact ⟨fsEq, .inl ⟨shownAfter, isRoot, roomyAfter⟩⟩

/-- A tree just built is flat. -/
theorem Fresh.flat (fresh : vfs.Fresh totalBlocks volume children) : vfs.Flat := by
  obtain ⟨root, -, isTree⟩ := fresh.isTree
  intro child childIn
  rw [isTree] at childIn
  obtain ⟨number, -, isEntry⟩ := List.mem_filterMap.mp childIn
  obtain ⟨file, -, rfl⟩ := Option.map_eq_some_iff.mp isEntry
  rfl

/-- The only directory is the root. -/
theorem Shows.parents_eq_nil (shown : vfs.Shows totalBlocks volume children) {dirs : List String}
    {dir : DirEntry} (walked : vfs.root.walk dirs = .ok dir)
    (isDir : dir.value.inodeType = .dir) : dirs = [] ∧ dir = vfs.root := by
  rcases shown.parent walked with isRoot | ⟨-, -, -, -, -, isFile⟩
  · exact isRoot
  · rw [isFile] at isDir
    contradiction

/-- The calls of a tidy user keep the tree flat and the inode cache roomy. -/
theorem Shows.step_flat (shown : vfs.Shows totalBlocks volume children) {call : VfsCall}
    {reply : Except Error Reply} (tidy : call.Tidy volume vfs)
    (ran : vfs.exec call = .ok reply after) (flat : vfs.Flat)
    (roomy : vfs.session.inodes.Roomy) : after.Flat ∧ after.session.inodes.Roomy := by
  rcases (shown.step tidy.1 ran).2 with ⟨-, isRoot, roomyAfter⟩ |
    ⟨path, isPath, dir, bytes, rfl, isParsed, walked, -, isRoot, -, roomyAfter⟩
  · rw [Flat, isRoot]
    exact ⟨flat, roomyAfter roomy⟩
  · obtain ⟨isTop, -⟩ :=
      shown.parents_eq_nil walked (tidy.2 path isPath dir rfl isParsed walked)
    refine ⟨?_, roomyAfter isTop roomy⟩
    rw [Flat, isRoot, isTop, KeyTree.children_graft_nil]
    intro child childIn
    rcases List.mem_append.mp childIn with old | last
    · exact flat child old
    · rw [List.mem_singleton.mp last]
      rfl

end Vfs

/-- The invariant rule for runs of orderly calls. -/
theorem VfsHistory.invariant {allowed : Volume → Vfs → VfsCall → Prop} {device : Disk} {depth : Nat}
    (small : totalBlocks < 2 ^ 64)
    (orderly : ∀ {volume vfs call}, allowed volume vfs call → call.Orderly volume vfs)
    (holds : Volume → Vfs → Prop)
    (first : ∀ {vfs}, vfs.Fresh totalBlocks Volume.initial [] →
      vfs.session.fs = Cafs.parted totalBlocks inodeBitmapBlocks → holds Volume.initial vfs)
    (calls : ∀ {volume vfs after children call reply}, vfs.Shows totalBlocks volume children →
      holds volume vfs → allowed volume vfs call → vfs.exec call = .ok reply after →
      holds (volume.next (call.effect vfs.root)) after)
    (again : ∀ {volume vfs after children}, vfs.Shows totalBlocks volume children →
      holds volume vfs → after.Fresh totalBlocks volume children →
      after.session.fs = vfs.session.fs → holds volume after)
    (history : VfsHistory allowed device totalBlocks inodeBitmapBlocks (depth + 2) volume vfs) :
    (∃ children, vfs.Shows totalBlocks volume children) ∧ holds volume vfs := by
  obtain ⟨start, begin, isStart, mounted, steps⟩ := history
  obtain ⟨same, isSame, fresh, parts⟩ := Vfs.fresh_of_fromInit small isStart depth
  obtain rfl := Option.some.inj (isSame.symm.trans mounted)
  generalize isLast : (volume, vfs) = last at steps
  induction steps generalizing volume vfs with
  | refl =>
    obtain ⟨rfl, rfl⟩ := Prod.mk.inj isLast
    exact ⟨⟨[], fresh.shown⟩, first fresh parts⟩
  | tail _ step ih =>
    subst isLast
    cases step with
    | call call isAllowed ran =>
      obtain ⟨⟨children, shown⟩, held⟩ := ih rfl
      refine ⟨?_, calls shown held isAllowed ran⟩
      rcases (shown.step (orderly isAllowed) ran).2 with
        ⟨shownAfter, -⟩ | ⟨_, _, _, _, -, -, -, -, -, shownAfter, -⟩
      · exact ⟨_, shownAfter⟩
      · exact ⟨_, shownAfter⟩
    | remount mounted =>
      obtain ⟨⟨children, shown⟩, held⟩ := ih rfl
      obtain ⟨freshAfter, fsEq⟩ := shown.fresh mounted
      exact ⟨⟨children, freshAfter.shown⟩, again shown held freshAfter fsEq⟩

section Runs

variable {allowed : Volume → Vfs → VfsCall → Prop} {device : Disk}
  {totalBlocks inodeBitmapBlocks depth : Nat} {volume : Volume} {vfs after : Vfs}

/-- The tree of a file system after orderly calls tells of its volume. -/
theorem VfsHistory.shows (small : totalBlocks < 2 ^ 64)
    (history : VfsHistory VfsCall.Orderly device totalBlocks inodeBitmapBlocks (depth + 2) volume
      vfs) : ∃ children, vfs.Shows totalBlocks volume children :=
  (history.invariant small id (fun _ _ => True) (fun _ _ => trivial) (fun _ _ _ _ => trivial)
    fun _ _ _ _ => trivial).1

/-- The tree of a file system after tidy calls is flat, and its inode cache has room. -/
theorem VfsHistory.flat (small : totalBlocks < 2 ^ 64)
    (history : VfsHistory VfsCall.Tidy device totalBlocks inodeBitmapBlocks (depth + 2) volume
      vfs) :
    (∃ children, vfs.Shows totalBlocks volume children) ∧ vfs.Flat ∧
      vfs.session.inodes.Roomy := by
  refine history.invariant small And.left (fun _ vfs => vfs.Flat ∧ vfs.session.inodes.Roomy)
    ?_ ?_ ?_
  · intro vfs fresh parts
    exact ⟨fresh.flat, fresh.roomy⟩
  · intro volume vfs after children call reply shown held tidy ran
    exact shown.step_flat tidy ran held.1 held.2
  · intro volume vfs after children shown held fresh fsEq
    exact ⟨fresh.flat, fresh.roomy⟩

/-- The empty run, on a device with room for the parts. -/
theorem VfsHistory.start (small : totalBlocks < 2 ^ 64)
    (fitting : Cafs.Fitting totalBlocks inodeBitmapBlocks) (positive : 0 < inodeBitmapBlocks)
    (allowed : Volume → Vfs → VfsCall → Prop) (depth : Nat) :
    ∃ vfs, VfsHistory allowed (Disk.new totalBlocks) totalBlocks inodeBitmapBlocks (depth + 2)
        Volume.initial vfs ∧
      vfs.Fresh totalBlocks Volume.initial [] ∧
      vfs.session.fs = Cafs.parted totalBlocks inodeBitmapBlocks := by
  have onDevice : totalBlocks ≤ (Disk.new totalBlocks).totalBlocks := Nat.le_refl _
  obtain ⟨start, isStart⟩ := Session.exists_fromInit small fitting positive onDevice
  obtain ⟨vfs, mounted, fresh, parts⟩ := Vfs.fresh_of_fromInit small isStart depth
  exact ⟨vfs, ⟨start, vfs, isStart, mounted, .refl⟩, fresh, parts⟩

/-- One call more. -/
theorem VfsHistory.call
    (history : VfsHistory allowed device totalBlocks inodeBitmapBlocks depth volume vfs)
    {call : VfsCall} {reply : Except Error Reply} (isAllowed : allowed volume vfs call)
    (ran : vfs.exec call = .ok reply after) :
    VfsHistory allowed device totalBlocks inodeBitmapBlocks depth
      (volume.next (call.effect vfs.root)) after := by
  obtain ⟨start, first, isStart, mounted, steps⟩ := history
  exact ⟨start, first, isStart, mounted, steps.tail (.call call isAllowed ran)⟩

variable {path : String}

/-- Every `create` of an entry that the tree of its directory can describe is orderly. -/
theorem VfsCall.orderly_create
    (bound : ∀ isPath dir file, parsePath path = some isPath →
      vfs.root.walk isPath.parents = .ok dir → volume[dir.value.inodeNumber]? = some file →
      (appendEntry file.contents volume.length).length ≤ l4Max) :
    (VfsCall.create path).Orderly volume vfs := by
  intro effect isEffect
  obtain ⟨isPath, dir, parses, walks, rfl⟩ := VfsCall.exists_of_effect_create isEffect
  refine ⟨?_, Call.keeping_create _ _ _⟩
  intro number contents written
  obtain ⟨file, found, same⟩ := Option.map_eq_some_iff.mp written
  obtain ⟨rfl, rfl⟩ := Prod.mk.inj same
  exact bound isPath dir file parses walks found

/-- `create` takes no data block from its directory. -/
theorem VfsCall.keeping_create (volume : Volume) (vfs : Vfs) (path : String) :
    (VfsCall.create path).Keeping volume vfs := by
  intro effect isEffect
  obtain ⟨isPath, dir, -, -, rfl⟩ := VfsCall.exists_of_effect_create isEffect
  exact ⟨Call.keeping_create _ _ _, fun _ _ isWrite => by contradiction⟩

/-- A run goes on with a `create`, while there is room of all kinds. -/
theorem VfsHistory.created
    (history : VfsHistory allowed device totalBlocks inodeBitmapBlocks depth volume vfs)
    {children : List Nat} (shown : vfs.Shows totalBlocks volume children)
    (few : vfs.session.inodes.queue.length + 2 < inodeCacheSize) {isPath : Path}
    (isParsed : parsePath path = some isPath) {dir : DirEntry}
    (walked : vfs.root.walk isPath.parents = .ok dir) {file : File}
    (found : volume[dir.value.inodeNumber]? = some file) {bytes : NameBytes}
    (isName : nameBytes (utf8Bytes isPath.name) = some bytes)
    (free : volume.length < vfs.session.fs.inodeBitmap.totalCount)
    (space : volume.blocks + Cafs.growth file.contents.length
      (appendEntry file.contents volume.length).length ≤ vfs.session.fs.dataBitmap.totalCount)
    (bound : (appendEntry file.contents volume.length).length ≤ l4Max)
    (isAllowed : allowed volume vfs (.create path)) :
    ∃ after, vfs.exec (.create path) = .ok (.ok .done) after ∧
      VfsHistory allowed device totalBlocks inodeBitmapBlocks depth
        ((volume.add .file bytes).write dir.value.inodeNumber
          (appendEntry file.contents volume.length)) after ∧
      after.Shows totalBlocks ((volume.add .file bytes).write dir.value.inodeNumber
        (appendEntry file.contents volume.length)) (Vfs.adopted isPath volume children) ∧
      after.root = (File.dentry ⟨.file, bytes, []⟩ volume.length).graft isPath.parents vfs.root ∧
      after.session.fs = vfs.session.fs ∧
      after.session.inodes.queue.length ≤ vfs.session.inodes.queue.length + 3 ∧
      (isPath.parents = [] → vfs.session.inodes.Roomy → after.session.inodes.Roomy) := by
  obtain ⟨after, ran⟩ := shown.creates few isParsed walked found isName free space
  obtain ⟨-, stored, isStored, isRoot, fsEq, shownAfter, fewAfter, roomyAfter⟩ :=
    shown.created isParsed walked found bound ran
  obtain rfl := Option.some.inj (isStored.symm.trans isName)
  have historyAfter := history.call isAllowed ran
  rw [VfsCall.effect_create isParsed walked, Volume.next_create found isName] at historyAfter
  exact ⟨after, ran, historyAfter, shownAfter, isRoot, fsEq, fewAfter, roomyAfter⟩

/-- `create` in the root directory is tidy. -/
theorem Vfs.Shows.filed_of_top {children : List Nat} (shown : vfs.Shows totalBlocks volume children)
    {name : String} (isParsed : parsePath path = some ⟨[], name⟩) :
    (VfsCall.create path).Filed vfs := by
  rintro _ isPath dir ⟨rfl⟩ parses walked
  obtain rfl := Option.some.inj (isParsed.symm.trans parses)
  obtain rfl := Except.ok.inj walked
  obtain ⟨-, -, -, -, -, value⟩ := shown.top
  rw [value]

end Runs

/-! ## A run with one file -/

/-- The tree of a root directory with one file `a`. -/
def testTree : DirEntry := .node (nameString rootName) ⟨.dir, 0⟩ [.node "a" ⟨.file, 1⟩ []]

/-- A device with one file `a`, after `create("/a")`. -/
structure Vfs.Test (vfs : Vfs) (totalBlocks inodeBitmapBlocks : Nat) (bytes : NameBytes) :
    Prop where
  /-- The tree tells of the volume. -/
  shown : vfs.Shows totalBlocks (testVolume bytes []) [1]
  /-- The tree has the file. -/
  root : vfs.root = testTree
  /-- The parts are those of `init`. -/
  parts : vfs.session.fs = Cafs.parted totalBlocks inodeBitmapBlocks
  /-- The inode cache has few entries. -/
  few : vfs.session.inodes.queue.length ≤ 5
  /-- The inode cache has room. -/
  roomy : vfs.session.inodes.Roomy

/-- `create` in a volume of short files is orderly. -/
theorem VfsCall.orderly_create_of_short (short : ∀ file ∈ volume, file.contents.length ≤ 100)
    (path : String) : (VfsCall.create path).Orderly volume vfs := by
  refine orderly_create fun isPath dir file _ _ found => ?_
  have longer := length_appendEntry_le file.contents volume.length
  have bound := short file (List.mem_of_getElem? found)
  have limit : 111 ≤ l4Max := by decide
  omega

/-- The run to a device with one file. -/
theorem VfsHistory.exists_test {allowed : Volume → Vfs → VfsCall → Prop}
    (small : totalBlocks < 2 ^ 64) (fitting : Cafs.Fitting totalBlocks inodeBitmapBlocks)
    (positive : 0 < inodeBitmapBlocks)
    (space : 1 ≤ (Cafs.parted totalBlocks inodeBitmapBlocks).dataBitmap.totalCount)
    (isAllowed : ∀ vfs : Vfs, vfs.Fresh totalBlocks Volume.initial [] →
      allowed Volume.initial vfs (.create "/a")) :
    ∃ bytes vfs, VfsHistory allowed (Disk.new totalBlocks) totalBlocks inodeBitmapBlocks 2
        (testVolume bytes []) vfs ∧
      vfs.Test totalBlocks inodeBitmapBlocks bytes := by
  obtain ⟨first, history, fresh, parts⟩ :=
    VfsHistory.start small fitting positive allowed 0
  have few : first.session.inodes.queue.length ≤ 2 := fresh.few
  obtain ⟨root, found, isTree⟩ := fresh.isTree
  obtain rfl : ⟨.dir, rootName, []⟩ = root := Option.some.inj found
  obtain ⟨bytes, isName⟩ := (nameBytes_eq_some_iff (utf8Bytes "a")).mpr (by decide)
  have isParsed : parsePath "/a" = some ⟨[], "a"⟩ := by decide
  have taken : Volume.initial.blocks + Cafs.growth 0 (appendEntry [] 1).length = 1 := by decide
  have inodes : 1 < (Cafs.parted totalBlocks inodeBitmapBlocks).inodeBitmap.totalCount := by
    show 1 < inodeBitmapBlocks * 4096
    omega
  have key : nameString bytes = "a" := by
    rw [nameString_of_nameBytes isName]
    decide
  have isZero : first.root.value.inodeNumber = 0 := by
    rw [isTree]
    rfl
  obtain ⟨vfs, -, historyAfter, shownAfter, isRoot, fsEq, fewAfter, roomyAfter⟩ :=
    history.created fresh.shown (by rw [inodeCacheSize]; omega) isParsed
      (show first.root.walk [] = .ok first.root from rfl) (by rw [isZero]; exact found) isName
      (by rw [parts]; exact inodes) (by rw [parts]; exact Nat.le_trans (Nat.le_of_eq taken) space)
      (by decide) (isAllowed first fresh)
  rw [isZero] at historyAfter shownAfter
  refine ⟨bytes, vfs, historyAfter, shownAfter, ?_, fsEq.trans parts, by omega,
    roomyAfter rfl fresh.roomy⟩
  rw [isRoot, isTree, testTree, ← key]
  rfl

/-- Every `create` on a device with one file is orderly. -/
theorem VfsCall.orderly_test (vfs : Vfs) (bytes : NameBytes) (path : String) :
    (VfsCall.create path).Orderly (testVolume bytes []) vfs := by
  refine VfsCall.orderly_create_of_short (fun file fileIn => ?_) path
  have entry : (appendEntry [] 1).length ≤ 100 := by decide
  rcases List.mem_pair.mp fileIn with rfl | rfl
  · exact entry
  · exact Nat.zero_le _

/-- The empty file has no blocks. -/
theorem testVolume_empty_blocks (bytes : NameBytes) : (testVolume bytes []).blocks = 1 := by
  have empty := File.blocks_empty .file bytes
  rw [testVolume_blocks, empty]

/-- A device with one file has room for another. -/
theorem Vfs.Test.creates {bytes : NameBytes} (test : vfs.Test totalBlocks inodeBitmapBlocks bytes)
    (positive : 0 < inodeBitmapBlocks)
    (space : 2 ≤ (Cafs.parted totalBlocks inodeBitmapBlocks).dataBitmap.totalCount)
    (isParsed : parsePath path = some isPath) {dir : DirEntry}
    (walked : testTree.walk isPath.parents = .ok dir) {file : File}
    (found : (testVolume bytes [])[dir.value.inodeNumber]? = some file)
    (fits : (utf8Bytes isPath.name).length ≤ nameLengthLimit)
    (little : Cafs.growth file.contents.length (appendEntry file.contents 2).length ≤ 1) :
    ∃ after, vfs.exec (.create path) = .ok (.ok .done) after := by
  obtain ⟨stored, isName⟩ := (nameBytes_eq_some_iff _).mpr fits
  rw [← test.root] at walked
  have few := test.few
  refine test.shown.creates (by rw [inodeCacheSize]; omega) isParsed walked found isName ?_ ?_
  · rw [test.parts]
    show 2 < inodeBitmapBlocks * 4096
    omega
  · rw [test.parts, testVolume_empty_blocks]
    show 1 + Cafs.growth file.contents.length (appendEntry file.contents 2).length ≤ _
    omega

end Canyon.Fs
