import Canyon.Fs.Shortage
import Canyon.Fs.VfsHistory

/-!
# Which calls return

A call on the virtual file system with any string as its path. With free inodes, data blocks and
cache slots it returns, and leaves everything as it was when it returns `Err`, unless the path has
no `/` or `create` is asked for a name that does not fit.
-/

namespace Canyon.Fs

open Canyon.Lib
open EStateM (Result)

/-- A call returns, and changes nothing when it returns `Err`. -/
def Vfs.Answers (vfs : Vfs) (call : VfsCall) : Prop :=
  ∃ reply after, vfs.exec call = .ok reply after ∧ ∀ error, reply = .error error → after = vfs

namespace VfsCall

/-- The path has a `/`, and a name that `create` is to store fits. -/
def Proper (vfs : Vfs) (call : VfsCall) : Prop :=
  '/' ∈ call.path.toList ∧ ∀ path isPath dir, call = .create path →
    parsePath path = some isPath → vfs.root.walk isPath.parents = .ok dir →
    (utf8Bytes isPath.name).length ≤ nameLengthLimit

/-- The inode cache and the bitmaps have room for what the call needs. -/
def Supplied (volume : Volume) (vfs : Vfs) (call : VfsCall) : Prop :=
  vfs.session.inodes.queue.length + 2 < inodeCacheSize ∧
    ∀ effect, call.effect vfs.root = some effect →
      ¬effect.Short vfs.session.fs vfs.session.contents volume

end VfsCall

variable {vfs : Vfs} {totalBlocks : Nat} {volume : Volume} {children : List Nat}

/-- The free bits of the bitmaps, from the volume. -/
theorem Vfs.Shows.free (shown : vfs.Shows totalBlocks volume children) :
    vfs.session.fs.dataBitmap.freeOn vfs.session.contents + volume.blocks =
        vfs.session.fs.dataBitmap.totalCount ∧
      (vfs.session.fs.inodeBitmap.freeOn vfs.session.contents = 0 ∨
        volume.length < vfs.session.fs.inodeBitmap.totalCount) := by
  obtain ⟨extents, marked, store, serves, -⟩ := shown.served
  have holds := serves.represents.holds
  rw [serves.backed.contents_eq, ← holds.used_eq_blocks shown.small]
  refine ⟨holds.marks.freeOn_add_used, ?_⟩
  rcases Nat.lt_or_ge volume.length vfs.session.fs.inodeBitmap.totalCount with less | full
  · exact .inr less
  · left
    refine Bitmap.freeOn_eq_zero_iff.mpr fun bit inside => ?_
    rw [holds.inodes.bitOn_eq inside, decide_eq_true_iff]
    omega

/-- A `create` that returns has stored its name. -/
theorem Vfs.Shows.named {after : Vfs} (shown : vfs.Shows totalBlocks volume children)
    {path : String} {isPath : Path} (isParsed : parsePath path = some isPath) {dir : DirEntry}
    (walked : vfs.root.walk isPath.parents = .ok dir) {reply : Except Error Reply}
    (ran : vfs.exec (.create path) = .ok reply after) :
    ∃ bytes, nameBytes (utf8Bytes isPath.name) = some bytes := by
  obtain ⟨extents, marked, store, serves, -⟩ := shown.served
  obtain ⟨file, found, bound⟩ := shown.found walked
  have keeps := keeps_appendEntry file.contents volume.length
  rw [← extended_eq serves found bound] at keeps
  have spec : FsM.wp (Prog.deviceRules totalBlocks)
      ((VfsCall.create path).run vfs.session.fs vfs.root) vfs.session.inodes
      (fun _ _ _ => ∃ bytes, nameBytes (utf8Bytes isPath.name) = some bytes)
      (fun _ _ => True) store :=
    wp_vfsCreate serves.represents isParsed walked found keeps
      (fun bytes _ _ _ _ isName _ _ _ => ⟨bytes, isName⟩) (fun _ => trivial)
      (fun _ _ => trivial) (fun _ _ => trivial) fun _ _ => trivial
  obtain ⟨-, -, -, isName⟩ := serves.backed.returned spec (exec_eq_ok.mp ran)
  exact isName

/-- A call whose path leads somewhere returns `Ok` with enough of everything. -/
theorem Vfs.Shows.returns (shown : vfs.Shows totalBlocks volume children) {call : VfsCall}
    (keeping : call.Keeping volume vfs) (supplied : call.Supplied volume vfs)
    (proper : call.Proper vfs) {isPath : Path} (isParsed : parsePath call.path = some isPath)
    {dentry : DirEntry} (walked : vfs.root.walk (call.searched isPath) = .ok dentry) :
    ∃ reply after, vfs.exec call = .ok (.ok reply) after := by
  obtain ⟨few, supply⟩ := supplied
  obtain ⟨blocks, inodes⟩ := shown.free
  obtain ⟨file, found, -⟩ := shown.found walked
  have room : ∀ error, Inodes.substitute vfs.session.inodes.queue vfs.session.inodes.handles ≠
      .error error := Inodes.substitute_ne_error (by omega)
  cases call with
  | create path =>
    have effect : (VfsCall.create path).effect vfs.root = _ :=
      VfsCall.effect_create isParsed walked
    obtain ⟨someInode, someData⟩ := not_or.mp (supply _ effect)
    obtain ⟨bytes, isName⟩ := (nameBytes_eq_some_iff _).mpr
      (proper.2 path isPath dentry rfl isParsed walked)
    obtain ⟨after, ran⟩ := shown.creates few isParsed walked found isName
      (inodes.resolve_left someInode) (by
        have enough := not_lt.mp fun short => someData ⟨file, found, short⟩
        omega)
    exact ⟨_, after, ran⟩
  | write path contents =>
    have effect : (VfsCall.write path contents).effect vfs.root = _ :=
      VfsCall.effect_write isParsed walked contents
    obtain ⟨keeps, wide⟩ := keeping _ effect
    have enough := not_lt.mp fun short => supply _ effect ⟨file, found, short⟩
    obtain ⟨after, ran⟩ := shown.writes room isParsed walked found (wide _ _ rfl)
      (keeps _ _ file rfl found) (by omega)
    exact ⟨_, after, ran⟩
  | readUnstable path =>
    obtain ⟨after, ran⟩ := shown.reads room isParsed walked found
    exact ⟨_, after, ran⟩

/-- After any orderly calls, and with free inodes, data blocks and cache slots, a call that takes
no data block from a file returns, and changes nothing when it returns `Err`, exactly when its
path has a `/` and a name that it is to store fits. -/
theorem answers_iff {device : Disk} {totalBlocks inodeBitmapBlocks depth : Nat} {volume : Volume}
    {vfs : Vfs} (small : totalBlocks < 2 ^ 64)
    (history : VfsHistory VfsCall.Orderly device totalBlocks inodeBitmapBlocks (depth + 2) volume
      vfs) {call : VfsCall} (keeping : call.Keeping volume vfs)
    (supplied : call.Supplied volume vfs) : vfs.Answers call ↔ call.Proper vfs := by
  obtain ⟨children, shown⟩ := history.shows small
  constructor
  · rintro ⟨reply, after, ran, -⟩
    have hasSlash : '/' ∈ call.path.toList := by
      by_contra none
      rw [vfs.exec_of_parsePath_none ((parsePath_eq_none_iff call.path).mpr none)] at ran
      contradiction
    refine ⟨hasSlash, ?_⟩
    rintro path isPath dir rfl isParsed walked
    exact (nameBytes_eq_some_iff _).mp (shown.named isParsed walked ran)
  · intro proper
    cases parses : parsePath call.path with
    | none => exact absurd proper.1 ((parsePath_eq_none_iff call.path).mp parses)
    | some isPath =>
      cases walks : vfs.root.walk (call.searched isPath) with
      | error name =>
        exact ⟨_, vfs, vfs.exec_of_walk_error parses walks, fun _ _ => rfl⟩
      | ok dentry =>
        obtain ⟨reply, after, ran⟩ := shown.returns keeping supplied proper parses walks
        exact ⟨_, after, ran, by simp⟩

/-- The free bits on a device of 64 MiB just set up. -/
theorem Vfs.Fresh.free (fresh : vfs.Fresh 131072 Volume.initial [])
    (parts : vfs.session.fs = Cafs.parted 131072 2) :
    0 < vfs.session.fs.inodeBitmap.freeOn vfs.session.contents ∧
      0 < vfs.session.fs.dataBitmap.freeOn vfs.session.contents ∧
      vfs.session.inodes.queue.length + 2 < inodeCacheSize := by
  obtain ⟨extents, marked, store, serves, -⟩ := fresh.shown.served
  have holds := serves.represents.holds
  obtain ⟨blocks, -⟩ := fresh.shown.free
  have few : vfs.session.inodes.queue.length ≤ 2 := fresh.few
  have noBlocks : Volume.initial.blocks = 0 := by decide
  have data : 0 < vfs.session.fs.dataBitmap.totalCount := by
    rw [parts]
    decide
  have inodes : 1 < vfs.session.fs.inodeBitmap.totalCount := by
    rw [parts]
    decide
  refine ⟨Nat.pos_of_ne_zero fun none => ?_, by omega, by rw [inodeCacheSize]; omega⟩
  rw [serves.backed.contents_eq, Bitmap.freeOn_eq_zero_iff] at none
  have first := none 1 inodes
  rw [holds.inodes.bitOn_eq inodes] at first
  contradiction

/-- `create("/a")` on a device of 64 MiB just set up. -/
theorem answers_iff_create : ∃ vfs,
    VfsHistory VfsCall.Orderly (Disk.new 131072) 131072 2 2 Volume.initial vfs ∧
      vfs.Answers (.create "/a") := by
  have small : 131072 < 2 ^ 64 := by decide
  obtain ⟨vfs, history, fresh, parts⟩ := VfsHistory.start small ⟨by decide, by decide⟩
    (show 0 < 2 by decide) VfsCall.Orderly 0
  obtain ⟨someInode, someData, few⟩ := fresh.free parts
  obtain ⟨root, found, isTree⟩ := fresh.isTree
  have isParsed : parsePath "/a" = some ⟨[], "a"⟩ := by decide
  have effect := VfsCall.effect_create isParsed (show vfs.root.walk [] = .ok vfs.root from rfl)
  have number : vfs.root.value.inodeNumber = 0 := by
    rw [isTree]
    rfl
  rw [number] at effect
  have keeping := VfsCall.keeping_create Volume.initial vfs "/a"
  have supplied : (VfsCall.create "/a").Supplied Volume.initial vfs := by
    refine ⟨few, fun call isCall => ?_⟩
    obtain rfl := Option.some.inj (effect.symm.trans isCall)
    rintro (none | ⟨file, foundFile, short⟩)
    · omega
    · obtain rfl := Option.some.inj foundFile
      have one : Cafs.growth 0 (appendEntry [] 1).length = 1 := by decide
      have tight : vfs.session.fs.dataBitmap.freeOn vfs.session.contents <
          Cafs.growth 0 (appendEntry [] 1).length := short
      omega
  refine ⟨vfs, history, (answers_iff small history keeping supplied).mpr ⟨by decide, ?_⟩⟩
  rintro path isPath dir isCreate parses -
  obtain rfl := VfsCall.create.inj isCreate
  obtain rfl := Option.some.inj (isParsed.symm.trans parses)
  decide

/-- `create` with a relative path panics on a device of 64 MiB just set up. -/
theorem relative_path_panics : ∃ vfs,
    VfsHistory VfsCall.Orderly (Disk.new 131072) 131072 2 2 Volume.initial vfs ∧
      0 < vfs.session.fs.inodeBitmap.freeOn vfs.session.contents ∧
      0 < vfs.session.fs.dataBitmap.freeOn vfs.session.contents ∧
      vfs.session.inodes.queue.length + 2 < inodeCacheSize ∧
      vfs.exec (.create "a") = .error .unwrapNone vfs ∧ ¬vfs.Answers (.create "a") := by
  obtain ⟨vfs, history, fresh, parts⟩ := VfsHistory.start (by decide : 131072 < 2 ^ 64)
    ⟨by decide, by decide⟩ (show 0 < 2 by decide) VfsCall.Orderly 0
  obtain ⟨someInode, someData, few⟩ := fresh.free parts
  have unparsed : parsePath (VfsCall.create "a").path = none := by decide
  have stopped := vfs.exec_of_parsePath_none unparsed
  refine ⟨vfs, history, someInode, someData, few, stopped, ?_⟩
  rintro ⟨reply, after, ran, -⟩
  rw [stopped] at ran
  contradiction

end Canyon.Fs
