import Canyon.Fs.Resolution
import Canyon.Lib.Contract

/-!
# The file system as a folder

What the virtual file system is for: a folder of named files. A folder says what every call
answers and how it changes the files, and it knows nothing of inodes, blocks and caches. The
events that users see over any number of calls, listings and remounts are those of a folder, as
long as users give each new file a name of its own and let no file shrink by a block.
-/

namespace Canyon.Fs

open Canyon.Lib
open EStateM (Result)

/-- `VFS::ls_root`. -/
def Vfs.lsRoot (vfs : Vfs) : List String := vfs.root.key :: vfs.root.children.map KeyTree.key

/-- Blocks that contents of a length take: data blocks, and index blocks for them. -/
def blocksFor (length : Nat) : Nat := (indexBlocks length).indexBlockCount + dataBlocks length

/-! ## Folders -/

/-- Named files in the order of their making; no two have the same name. -/
structure Folder where
  /-- Names and contents. -/
  files : List (String × List UInt8)
  /-- Names are different. -/
  distinct : (files.map Prod.fst).Nodup

namespace Folder

/-- A folder without files. -/
def empty : Folder := ⟨[], List.nodup_nil⟩

/-- The names of the files. -/
def names (folder : Folder) : List String := folder.files.map Prod.fst

/-- The contents of a file. -/
def look (folder : Folder) (name : String) : Option (List UInt8) :=
  (folder.files.find? fun file => file.1 == name).map Prod.snd

/-- A new file, of a name that no file has. -/
def add (folder : Folder) (name : String) : Folder :=
  if taken : name ∈ folder.names then folder
  else ⟨folder.files ++ [(name, [])], by
    rw [List.map_append, List.map_singleton, ← List.concat_eq_append]
    exact folder.distinct.concat taken⟩

/-- New contents of a file. -/
def put (folder : Folder) (name : String) (contents : List UInt8) : Folder :=
  ⟨folder.files.map fun file => (file.1, if file.1 = name then contents else file.2), by
    rw [List.map_map]
    exact folder.distinct⟩

/-- The files with a new one. -/
theorem files_add {folder : Folder} {name : String} (free : name ∉ folder.names) :
    (folder.add name).files = folder.files ++ [(name, [])] := by
  rw [add, dif_neg free]

/-- The files with new contents of one. -/
theorem files_put (folder : Folder) (name : String) (contents : List UInt8) :
    (folder.put name contents).files =
      folder.files.map fun file => (file.1, if file.1 = name then contents else file.2) :=
  rfl

/-- The first of some names that leads nowhere; nothing is below a file. -/
def missing (folder : Folder) : List String → Option String
  | [] => none
  | name :: rest =>
    match folder.look name with
    | none => some name
    | some _ => rest.head?

/-- What a call returns; a path without `/` lets no call return. -/
def reply (folder : Folder) (call : VfsCall) : Option (Except Error Reply) :=
  (parsePath call.path).map fun path =>
    match folder.missing (call.searched path), call with
    | some name, _ => .error (.notExist name)
    | none, .readUnstable _ => .ok (.contents ((folder.look path.name).getD []))
    | none, _ => .ok .done

/-- The folder after a call. -/
def next (folder : Folder) (call : VfsCall) : Folder :=
  match parsePath call.path with
  | none => folder
  | some path =>
    match folder.missing (call.searched path), call with
    | none, .create _ => folder.add path.name
    | none, .write _ contents => folder.put path.name contents
    | _, _ => folder

/-- Blocks that the files take, and the directory that lists them. -/
def blocks (folder : Folder) : Nat :=
  blocksFor (11 * folder.files.length - 1) +
    (folder.files.map fun file => blocksFor file.2.length).sum

/-- What users may ask for: new files under names of their own, that the directory has room for;
contents that a tree can describe and that take no data block from their file. -/
def Allows (folder : Folder) : VfsCall → Prop
  | .create path => ∀ isPath, parsePath path = some isPath → folder.missing isPath.parents = none →
      isPath.parents = [] ∧ isPath.name ∉ folder.names ∧ '\x00' ∉ isPath.name.toList ∧
        11 * (folder.files.length + 1) ≤ l4Max
  | .write path contents => contents.length ≤ l4Max ∧
      ∀ isPath old, parsePath path = some isPath → folder.look isPath.name = some old →
        dataBlocks old.length ≤ dataBlocks contents.length
  | .readUnstable _ => True

end Folder

/-! ## Events -/

/-- What users of the virtual file system see. -/
inductive VfsEvent where
  /-- A call returned. -/
  | call (call : VfsCall) (reply : Except Error Reply)
  /-- `ls_root` returned. -/
  | lsRoot (names : List String)
  /-- The device was flushed and mounted again. -/
  | remount

/-- One step of the virtual file system. -/
inductive Vfs.Shown (depth : Nat) : Vfs → VfsEvent → Vfs → Prop where
  /-- A call that returns. -/
  | call {vfs after : Vfs} {call : VfsCall} {reply : Except Error Reply}
      (ran : vfs.exec call = .ok reply after) : Shown depth vfs (.call call reply) after
  /-- `ls_root`. -/
  | lsRoot (vfs : Vfs) : Shown depth vfs (.lsRoot vfs.lsRoot) vfs
  /-- A remount. -/
  | remount {vfs after : Vfs} (mounted : vfs.remount depth = some after) :
      Shown depth vfs .remount after

/-- The virtual file system as a folder. -/
def Folder.contract : Contract Folder VfsEvent where
  may folder
    | .call call _ => folder.Allows call
    | .lsRoot _ => True
    | .remount => True
  shall folder
    | .call call reply => folder.reply call = some reply
    | .lsRoot names => names = "/" :: folder.names
    | .remount => True
  next folder
    | .call call _ => folder.next call
    | .lsRoot _ => folder
    | .remount => folder

/-! ## The tree and the folder -/

/-- The contents of a file of a volume. -/
def Volume.contentsAt (volume : Volume) (number : Nat) : List UInt8 :=
  (volume[number]?.map File.contents).getD []

/-- The contents of a file that is there. -/
theorem Volume.contentsAt_eq {volume : Volume} {number : Nat} {file : File}
    (found : volume[number]? = some file) : volume.contentsAt number = file.contents := by
  rw [contentsAt, found]
  rfl

/-- A write leaves the contents of other files. -/
theorem Volume.contentsAt_write_of_ne (volume : Volume) {number other : Nat}
    (different : other ≠ number) (contents : List UInt8) :
    (volume.write number contents).contentsAt other = volume.contentsAt other := by
  rw [contentsAt, contentsAt, Volume.getElem?_write_of_ne _ different]

/-- The blocks of a volume, inode by inode. -/
theorem Volume.blocks_eq_range (volume : Volume) : volume.blocks =
    ((List.range volume.length).map fun number =>
      blocksFor (volume.contentsAt number).length).sum := by
  refine congrArg List.sum (List.ext_getElem (by simp) fun number inside _ => ?_)
  rw [List.length_map] at inside
  rw [List.getElem_map, List.getElem_map, List.getElem_range,
    Volume.contentsAt_eq (List.getElem?_eq_getElem inside)]
  rfl

/-- The files of a folder, from the inodes of its entries. -/
theorem Volume.files_eq {volume : Volume} {entries : List DirEntry}
    (tells : ∀ entry ∈ entries, entry.All volume.Tells) :
    (entries.map fun entry => (entry.key, volume.contentsAt entry.value.inodeNumber)) =
      (entries.map fun entry => entry.value.inodeNumber).map fun number =>
        ((volume[number]?.map fun file => nameString file.name).getD "",
          volume.contentsAt number) := by
  rw [List.map_map]
  refine List.map_congr_left fun entry entryIn => ?_
  obtain ⟨-, file, found, -, isName, -⟩ := (tells entry entryIn).root
  rw [Function.comp_apply, found, isName]
  rfl

/-- The virtual file system is a folder. -/
structure Vfs.Mirrors (vfs : Vfs) (totalBlocks : Nat) (volume : Volume) (children : List Nat)
    (folder : Folder) : Prop where
  /-- The tree tells of the volume. -/
  shown : vfs.Shows totalBlocks volume children
  /-- Nothing is below a file. -/
  flat : vfs.Flat
  /-- The inode cache has room. -/
  roomy : vfs.session.inodes.Roomy
  /-- The entries are all files of the volume, in the order of their inodes. -/
  numbers : children = List.range' 1 (volume.length - 1)
  /-- The root has its name. -/
  key : vfs.root.key = "/"
  /-- The entries are the files of the folder. -/
  files : folder.files = vfs.root.children.map fun child =>
    (child.key, volume.contentsAt child.value.inodeNumber)

namespace Vfs.Mirrors

variable {vfs after : Vfs} {totalBlocks : Nat} {volume : Volume} {children : List Nat}
  {folder : Folder}

section

variable (mirrors : vfs.Mirrors totalBlocks volume children folder)

include mirrors

/-- The folder finds a file where the tree has an entry. -/
theorem look_eq (name : String) :
    folder.look name =
      (vfs.root.child? name).map fun child => volume.contentsAt child.value.inodeNumber := by
  rw [Folder.look, mirrors.files, List.find?_map, Option.map_map]
  rfl

/-- The names of the folder are those of the entries. -/
theorem names_eq : folder.names = vfs.root.children.map KeyTree.key := by
  rw [Folder.names, mirrors.files, List.map_map]
  rfl

/-- `ls_root` lists the root and the names of the folder. -/
theorem lsRoot_eq : vfs.lsRoot = "/" :: folder.names := by
  rw [lsRoot, mirrors.key, mirrors.names_eq]

/-- A walk ends where the folder says. -/
theorem missing_eq (names : List String) : folder.missing names =
      match vfs.root.walk names with
      | .error name => some name
      | .ok _ => none := by
  cases names with
  | nil => rfl
  | cons name rest =>
    rw [Folder.missing, mirrors.look_eq, KeyTree.walk]
    cases step : vfs.root.child? name with
    | none => rfl
    | some child =>
      have leaf := mirrors.flat child (KeyTree.mem_of_child? step)
      cases rest with
      | nil => rfl
      | cons other rest =>
        have stops : child.child? other = none := by rw [KeyTree.child?, leaf]; rfl
        dsimp only [Option.map_some]
        rw [KeyTree.walk, stops]
        rfl

/-- A path that leads to an entry is one name. -/
theorem walk_components {isPath : Path} {dentry : DirEntry}
    (walked : vfs.root.walk isPath.components = .ok dentry) :
    vfs.root.child? isPath.name = some dentry := by
  obtain ⟨parents, name⟩ := isPath
  cases parents with
  | nil =>
    obtain ⟨child, step, walked⟩ := KeyTree.exists_child_of_walk walked
    exact step.trans (congrArg some (Except.ok.inj walked))
  | cons first rest =>
    have isMissing := mirrors.missing_eq (first :: rest ++ [name])
    rw [Path.components] at walked
    rw [walked, List.cons_append, Folder.missing] at isMissing
    cases look : folder.look first with
    | none =>
      rw [look] at isMissing
      contradiction
    | some contents =>
      rw [look] at isMissing
      cases rest with
      | nil => contradiction
      | cons second rest => contradiction

/-- Entries with the same name are the same. -/
theorem eq_of_key {left right : DirEntry} (leftIn : left ∈ vfs.root.children)
    (rightIn : right ∈ vfs.root.children) (same : left.key = right.key) : left = right := by
  have keys : (vfs.root.children.map KeyTree.key).Nodup := by
    rw [← mirrors.names_eq]
    exact folder.distinct
  exact List.inj_on_of_nodup_map keys leftIn rightIn same

/-- Entries with the same inode are the same. -/
theorem eq_of_inodeNumber {left right : DirEntry} (leftIn : left ∈ vfs.root.children)
    (rightIn : right ∈ vfs.root.children)
    (same : left.value.inodeNumber = right.value.inodeNumber) :
    left = right := by
  have numbers : (vfs.root.children.map fun child => child.value.inodeNumber).Nodup := by
    rw [mirrors.shown.listed, mirrors.numbers]
    exact List.nodup_range'
  exact List.inj_on_of_nodup_map numbers leftIn rightIn same

/-- The files of the folder after a write to the inode of one. -/
theorem files_put {name : String} {dentry : DirEntry} (step : vfs.root.child? name = some dentry)
    {file : File} (found : volume[dentry.value.inodeNumber]? = some file) (contents : List UInt8) :
    (folder.put name contents).files = vfs.root.children.map fun child => (child.key,
      (volume.write dentry.value.inodeNumber contents).contentsAt child.value.inodeNumber) := by
  have dentryIn := KeyTree.mem_of_child? step
  rw [Folder.files_put, mirrors.files, List.map_map]
  refine List.map_congr_left fun child childIn => ?_
  show (child.key, if child.key = name then contents else _) = (child.key, _)
  by_cases same : child.key = name
  · obtain rfl := mirrors.eq_of_key childIn dentryIn
      (same.trans (KeyTree.key_of_child? step).symm)
    rw [if_pos same, Volume.contentsAt_eq (Volume.getElem?_write_self found contents)]
  · have other : child.value.inodeNumber ≠ dentry.value.inodeNumber := by
      intro number
      obtain rfl := mirrors.eq_of_inodeNumber childIn dentryIn number
      exact same (KeyTree.key_of_child? step)
    rw [if_neg same, Volume.contentsAt_write_of_ne _ other]

end

variable {path : String} {isPath : Path} {reply : Except Error Reply}

/-- A `create` that returns has added a file to the folder. -/
theorem created (mirrors : vfs.Mirrors totalBlocks volume children folder)
    (isParsed : parsePath path = some isPath) (isTop : isPath.parents = [])
    (free : isPath.name ∉ folder.names) (noNul : '\x00' ∉ isPath.name.toList)
    (room : 11 * (folder.files.length + 1) ≤ l4Max)
    (ran : vfs.exec (.create path) = .ok reply after) :
    reply = .ok .done ∧ ∃ volumeAfter childrenAfter,
      after.Mirrors totalBlocks volumeAfter childrenAfter (folder.add isPath.name) := by
  obtain ⟨root, found, -, isListed, -, value⟩ := mirrors.shown.top
  have walked : vfs.root.walk isPath.parents = .ok vfs.root := by
    rw [isTop]
    rfl
  have entries : children.length = folder.files.length := by
    rw [← mirrors.shown.listed, mirrors.files, List.length_map, List.length_map]
  have bound : (appendEntry root.contents volume.length).length ≤ l4Max := by
    have longer := length_appendEntry_le root.contents volume.length
    have bytes := length_directoryBytes children
    rw [isListed] at longer ⊢
    omega
  have rooted : volume[vfs.root.value.inodeNumber]? = some root := by
    rw [value]
    exact found
  obtain ⟨isReply, bytes, isName, isRoot, -, shownAfter, -, roomyAfter⟩ :=
    mirrors.shown.created isParsed walked rooted bound ran
  have childrenEq : after.root.children =
      vfs.root.children ++ [File.dentry ⟨.file, bytes, []⟩ volume.length] := by
    rw [isRoot, isTop, KeyTree.children_graft_nil]
  -- the new inode has a number above all others, so old entries keep their contents
  have inside : ∀ child ∈ vfs.root.children, child.value.inodeNumber ≠ 0 ∧
      child.value.inodeNumber < volume.length := by
    intro child childIn
    obtain ⟨notRoot, file, foundChild, -⟩ := (mirrors.shown.below child childIn).root
    exact ⟨notRoot, (List.getElem?_eq_some_iff.mp foundChild).1⟩
  have positive : 0 < volume.length := (List.getElem?_eq_some_iff.mp found).1
  refine ⟨isReply, _, _, shownAfter, ?_, roomyAfter isTop mirrors.roomy, ?_, ?_, ?_⟩
  · intro child childIn
    rw [childrenEq] at childIn
    rcases List.mem_append.mp childIn with old | last
    · exact mirrors.flat child old
    · rw [List.mem_singleton.mp last]
      rfl
  · have count : volume.length + 1 - 1 = volume.length - 1 + 1 := by omega
    have last : 1 + (volume.length - 1) = volume.length := by omega
    rw [adopted, if_pos isTop, Volume.length_write, Volume.length_add, count,
      List.range'_1_concat, last, ← mirrors.numbers]
  · rw [isRoot, KeyTree.key_graft, mirrors.key]
  · rw [Folder.files_add free, childrenEq, List.map_append, List.map_singleton, mirrors.files,
      value]
    refine congrArg₂ (· ++ ·) (List.map_congr_left fun child childIn => ?_) ?_
    · obtain ⟨notRoot, below⟩ := inside child childIn
      rw [Volume.contentsAt_write_of_ne _ notRoot, Volume.contentsAt, Volume.contentsAt,
        Volume.getElem?_add_of_lt below]
    · have empty := (volume.add .file bytes).contentsAt_write_of_ne (Nat.ne_of_gt positive)
        (appendEntry root.contents volume.length)
      rw [Volume.contentsAt_eq (volume.getElem?_add_self .file bytes)] at empty
      rw [key_dentry isName, (beforeNul_eq_iff _).mpr noNul]
      exact congrArg (fun contents => [(isPath.name, contents)]) empty.symm

/-- A `write` that returns has put new contents in the folder. -/
theorem wrote (mirrors : vfs.Mirrors totalBlocks volume children folder)
    (isParsed : parsePath path = some isPath) {dentry : DirEntry}
    (walked : vfs.root.walk isPath.components = .ok dentry) {contents : List UInt8}
    (allowed : folder.Allows (.write path contents))
    (ran : vfs.exec (.write path contents) = .ok reply after) :
    reply = .ok .done ∧ after.Mirrors totalBlocks
      (volume.write dentry.value.inodeNumber contents) children
      (folder.put isPath.name contents) := by
  have step := mirrors.walk_components walked
  obtain ⟨file, found, -⟩ := mirrors.shown.found walked
  have looked : folder.look isPath.name = some file.contents := by
    rw [mirrors.look_eq, step, Option.map_some, Volume.contentsAt_eq found]
  obtain ⟨isReply, isRoot, -, shownAfter, roomyAfter⟩ := mirrors.shown.wrote isParsed walked found
    allowed.1 (allowed.2 isPath file.contents isParsed looked) ran
  refine ⟨isReply, shownAfter, ?_, roomyAfter mirrors.roomy, ?_, isRoot ▸ mirrors.key, ?_⟩
  · rw [Flat, isRoot]
    exact mirrors.flat
  · rw [Volume.length_write]
    exact mirrors.numbers
  · rw [isRoot]
    exact mirrors.files_put step found contents

/-- A `read_unstable` that returns has read the folder. -/
theorem read (mirrors : vfs.Mirrors totalBlocks volume children folder)
    (isParsed : parsePath path = some isPath) {dentry : DirEntry}
    (walked : vfs.root.walk isPath.components = .ok dentry)
    (ran : vfs.exec (.readUnstable path) = .ok reply after) :
    reply = .ok (.contents ((folder.look isPath.name).getD [])) ∧
      after.Mirrors totalBlocks volume children folder := by
  obtain ⟨file, found, -⟩ := mirrors.shown.found walked
  obtain ⟨isReply, isRoot, -, shownAfter, roomyAfter⟩ :=
    mirrors.shown.read isParsed walked found ran
  refine ⟨?_, shownAfter, ?_, roomyAfter mirrors.roomy, mirrors.numbers, isRoot ▸ mirrors.key,
    isRoot ▸ mirrors.files⟩
  · rw [isReply, mirrors.look_eq, mirrors.walk_components walked, Option.map_some,
      Option.getD_some, Volume.contentsAt_eq found]
  · rw [Flat, isRoot]
    exact mirrors.flat

/-- A call that returns does what it does to a folder. -/
theorem call (mirrors : vfs.Mirrors totalBlocks volume children folder) {call : VfsCall}
    (allowed : folder.Allows call) (ran : vfs.exec call = .ok reply after) :
    folder.reply call = some reply ∧ ∃ volumeAfter childrenAfter,
      after.Mirrors totalBlocks volumeAfter childrenAfter (folder.next call) := by
  cases parses : parsePath call.path with
  | none =>
    rw [exec_of_parsePath_none vfs parses] at ran
    contradiction
  | some isPath =>
    have missing := mirrors.missing_eq (call.searched isPath)
    cases walks : vfs.root.walk (call.searched isPath) with
    | error name =>
      rw [exec_of_walk_error vfs parses walks] at ran
      obtain ⟨rfl, rfl⟩ := Result.ok.inj ran
      rw [walks] at missing
      simp only [Folder.reply, Folder.next, parses, missing, Option.map_some, true_and]
      exact ⟨volume, children, mirrors⟩
    | ok dentry =>
      rw [walks] at missing
      cases call with
      | create path =>
        obtain ⟨isTop, free, noNul, room⟩ := allowed isPath parses missing
        obtain ⟨rfl, kept⟩ := mirrors.created parses isTop free noNul room ran
        simp only [Folder.reply, Folder.next, parses, missing, Option.map_some, true_and]
        exact kept
      | write path contents =>
        obtain ⟨rfl, kept⟩ := mirrors.wrote parses walks allowed ran
        simp only [Folder.reply, Folder.next, parses, missing, Option.map_some, true_and]
        exact ⟨_, _, kept⟩
      | readUnstable path =>
        obtain ⟨rfl, kept⟩ := mirrors.read parses walks ran
        simp only [Folder.reply, Folder.next, parses, missing, Option.map_some, true_and]
        exact ⟨_, _, kept⟩

/-- A file system just mounted is the folder of its files. -/
theorem of_fresh (mirrors : vfs.Mirrors totalBlocks volume children folder)
    (fresh : after.Fresh totalBlocks volume children) :
    after.Mirrors totalBlocks volume children folder := by
  obtain ⟨root, found, isTree⟩ := fresh.isTree
  obtain ⟨same, foundSame, -, -, key, -⟩ := mirrors.shown.top
  obtain rfl := Option.some.inj (found.symm.trans foundSame)
  refine ⟨fresh.shown, fresh.flat, fresh.roomy, mirrors.numbers, ?_, ?_⟩
  · rw [isTree]
    exact key.symm.trans mirrors.key
  · rw [mirrors.files, Volume.files_eq mirrors.shown.below, Volume.files_eq fresh.shown.below,
      mirrors.shown.listed, fresh.shown.listed]

/-! ## Blocks -/

/-- The blocks of a volume with this directory are those of any folder with these files. -/
theorem blocks_of_files (mirrors : vfs.Mirrors totalBlocks volume children folder)
    {volumeAfter : Volume} {folderAfter : Folder} (length : volumeAfter.length = volume.length)
    (root : volumeAfter[0]? = volume[0]?)
    (files : folderAfter.files = vfs.root.children.map fun child =>
      (child.key, volumeAfter.contentsAt child.value.inodeNumber)) :
    volumeAfter.blocks = folderAfter.blocks := by
  obtain ⟨top, found, -, isListed, -, -⟩ := mirrors.shown.top
  have positive : 0 < volume.length := (List.getElem?_eq_some_iff.mp found).1
  have whole : List.range volumeAfter.length = 0 :: children := by
    have more : volume.length = volume.length - 1 + 1 := by omega
    rw [mirrors.numbers, length, List.range_eq_range', more, List.range'_succ]
    rfl
  have entries : children.length = folderAfter.files.length := by
    rw [← mirrors.shown.listed, files, List.length_map, List.length_map]
  have directory : blocksFor (volumeAfter.contentsAt 0).length =
      blocksFor (11 * folderAfter.files.length - 1) := by
    rw [Volume.contentsAt_eq (root.trans found), isListed, length_directoryBytes, entries]
  have listed : (children.map fun number => blocksFor (volumeAfter.contentsAt number).length) =
      folderAfter.files.map fun file => blocksFor file.2.length := by
    rw [files, ← mirrors.shown.listed, List.map_map, List.map_map]
    rfl
  rw [volumeAfter.blocks_eq_range, whole, List.map_cons, List.sum_cons, directory, listed,
    Folder.blocks]

/-- The blocks of the volume are those of the folder. -/
theorem blocks_eq (mirrors : vfs.Mirrors totalBlocks volume children folder) :
    volume.blocks = folder.blocks :=
  mirrors.blocks_of_files rfl rfl mirrors.files

/-- The blocks of the volume after a write are those of the folder after it. -/
theorem blocks_put (mirrors : vfs.Mirrors totalBlocks volume children folder) {name : String}
    {dentry : DirEntry} (step : vfs.root.child? name = some dentry) {file : File}
    (found : volume[dentry.value.inodeNumber]? = some file) (contents : List UInt8) :
    (volume.write dentry.value.inodeNumber contents).blocks =
      (folder.put name contents).blocks := by
  obtain ⟨notRoot, -⟩ := (mirrors.shown.below dentry (KeyTree.mem_of_child? step)).root
  exact mirrors.blocks_of_files (Volume.length_write ..)
    (Volume.getElem?_write_of_ne _ (Ne.symm notRoot) _) (mirrors.files_put step found contents)

/-- The folder fits on the device. -/
theorem blocks_le (mirrors : vfs.Mirrors totalBlocks volume children folder) :
    folder.blocks ≤ vfs.session.fs.dataBitmap.totalCount := by
  obtain ⟨extents, marked, store, serves, -⟩ := mirrors.shown.served
  rw [← mirrors.blocks_eq, ← serves.represents.holds.used_eq_blocks mirrors.shown.small]
  exact Bitmap.used_le _ marked

end Vfs.Mirrors

/-- What a file takes that loses no data block. -/
theorem blocksFor_add_growth {old new : Nat} (keeps : dataBlocks old ≤ dataBlocks new) :
    blocksFor old + Cafs.growth old new = blocksFor new := by
  have more : (indexBlocks old).indexBlockCount ≤ (indexBlocks new).indexBlockCount := by
    rcases Nat.lt_or_ge new old with less | more
    · have fewer := dataBlocks_mono (Nat.le_of_lt less)
      exact Nat.le_of_eq (indexBlockCount_congr (Nat.le_antisymm keeps fewer))
    · exact indexBlockCount_mono more
  unfold blocksFor Cafs.growth
  omega

/-- The blocks of a volume after a write. -/
theorem Volume.blocks_write {volume : Volume} {number : Nat} {file : File}
    (found : volume[number]? = some file) (contents : List UInt8) :
    (volume.write number contents).blocks + blocksFor file.contents.length =
      volume.blocks + blocksFor contents.length := by
  obtain ⟨inside, rfl⟩ := List.getElem?_eq_some_iff.mp found
  have split : volume = volume.take number ++ volume[number] :: volume.drop (number + 1) := by
    rw [List.getElem_cons_drop, List.take_append_drop]
  have before : volume.blocks = ((volume.take number).map File.blocks).sum +
      (blocksFor volume[number].contents.length +
        ((volume.drop (number + 1)).map File.blocks).sum) := by
    rw [blocks]
    conv_lhs => rw [split, List.map_append, List.map_cons, List.sum_append, List.sum_cons]
    rfl
  have later : (volume.write number contents).blocks =
      ((volume.take number).map File.blocks).sum + (blocksFor contents.length +
        ((volume.drop (number + 1)).map File.blocks).sum) := by
    rw [blocks, write, List.modify_eq_take_cons_drop inside, List.map_append, List.map_cons,
      List.sum_append, List.sum_cons]
    rfl
  omega

namespace Vfs.Mirrors

variable {vfs : Vfs} {totalBlocks : Nat} {volume : Volume} {children : List Nat}
  {folder : Folder} {path : String} {isPath : Path}

/-- `read_unstable` returns. -/
theorem reads (mirrors : vfs.Mirrors totalBlocks volume children folder)
    (isParsed : parsePath path = some isPath) :
    ∃ reply after, vfs.exec (.readUnstable path) = .ok reply after := by
  cases walks : vfs.root.walk isPath.components with
  | error name =>
    have refused : vfs.exec (.readUnstable path) = .ok (.error (.notExist name)) vfs :=
      @exec_of_walk_error isPath (.readUnstable path) vfs isParsed name walks
    exact ⟨_, vfs, refused⟩
  | ok dentry =>
    obtain ⟨file, found, -⟩ := mirrors.shown.found walks
    obtain ⟨after, ran⟩ := mirrors.shown.reads mirrors.roomy.substitute_ok isParsed walks found
    exact ⟨_, after, ran⟩

/-- `write` returns exactly when the folder that it asks for fits on the device. -/
theorem writes_iff (mirrors : vfs.Mirrors totalBlocks volume children folder)
    (isParsed : parsePath path = some isPath) {contents : List UInt8}
    (allowed : folder.Allows (.write path contents)) :
    (∃ reply after, vfs.exec (.write path contents) = .ok reply after) ↔
      (folder.next (.write path contents)).blocks ≤ vfs.session.fs.dataBitmap.totalCount := by
  have missing := mirrors.missing_eq isPath.components
  cases walks : vfs.root.walk isPath.components with
  | error name =>
    rw [walks] at missing
    have same : folder.next (.write path contents) = folder := by
      simp only [Folder.next, VfsCall.path, VfsCall.searched, isParsed, missing]
    have refused : vfs.exec (.write path contents) = .ok (.error (.notExist name)) vfs :=
      @exec_of_walk_error isPath (.write path contents) vfs isParsed name walks
    rw [same]
    exact iff_of_true ⟨_, vfs, refused⟩ mirrors.blocks_le
  | ok dentry =>
    rw [walks] at missing
    have put : folder.next (.write path contents) = folder.put isPath.name contents := by
      simp only [Folder.next, VfsCall.path, VfsCall.searched, isParsed, missing]
    obtain ⟨file, found, -⟩ := mirrors.shown.found walks
    have step := mirrors.walk_components walks
    have looked : folder.look isPath.name = some file.contents := by
      rw [mirrors.look_eq, step, Option.map_some, Volume.contentsAt_eq found]
    have keeps := allowed.2 isPath file.contents isParsed looked
    rw [put]
    constructor
    · rintro ⟨reply, after, ran⟩
      obtain ⟨-, -, fsEq, -⟩ := mirrors.shown.wrote isParsed walks found allowed.1 keeps ran
      rw [← fsEq]
      exact (mirrors.wrote isParsed walks allowed ran).2.blocks_le
    · intro fits
      have wide : contents.length < 2 ^ 64 := by
        obtain ⟨-, -, -, -, -, -, -, top⟩ := levelConstants
        have bound := allowed.1
        omega
      have taken := blocksFor_add_growth keeps
      have more := Volume.blocks_write found contents
      have asked := mirrors.blocks_put step found contents
      obtain ⟨after, ran⟩ := mirrors.shown.writes mirrors.roomy.substitute_ok isParsed walks found
        wide keeps (by omega)
      exact ⟨_, after, ran⟩

end Vfs.Mirrors

section Runs

variable {device : Disk} {totalBlocks inodeBitmapBlocks depth : Nat} {start : Session}
  {first vfs : Vfs} {events : List VfsEvent}

/-- A file system just mounted, whose root directory lists all its files, is a folder. -/
theorem Vfs.Fresh.mirrors {volume : Volume} {children : List Nat} {folder : Folder}
    (fresh : vfs.Fresh totalBlocks volume children)
    (numbers : children = List.range' 1 (volume.length - 1)) {root : File}
    (found : volume[0]? = some root) (isRoot : root.name = rootName)
    (files : folder.files = children.map fun number =>
      ((volume[number]?.map fun file => nameString file.name).getD "",
        volume.contentsAt number)) : vfs.Mirrors totalBlocks volume children folder := by
  refine ⟨fresh.shown, fresh.flat, fresh.roomy, numbers, ?_, ?_⟩
  · obtain ⟨same, foundSame, -, -, key, -⟩ := fresh.shown.top
    obtain rfl := Option.some.inj (found.symm.trans foundSame)
    rw [key, isRoot, nameString_of_nameBytes nameBytes_root]
    decide
  · rw [files, Volume.files_eq fresh.shown.below, fresh.shown.listed]

/-- A file system just set up is an empty folder. -/
theorem Vfs.Fresh.mirrors_empty (fresh : vfs.Fresh totalBlocks Volume.initial []) :
    vfs.Mirrors totalBlocks Volume.initial [] Folder.empty :=
  fresh.mirrors rfl (show Volume.initial[0]? = some ⟨.dir, rootName, []⟩ from rfl) rfl rfl

/-- A run is that of a folder, from any folder on. -/
theorem Vfs.Mirrors.trace {volume : Volume} {children : List Nat} {folder : Folder}
    (mirrors : first.Mirrors totalBlocks volume children folder)
    (trace : Trace (Vfs.Shown (depth + 2)) first events vfs)
    (permits : Folder.contract.Permits folder events) :
    Folder.contract.Explains folder events ∧ ∃ volumeAfter childrenAfter,
      vfs.Mirrors totalBlocks volumeAfter childrenAfter (Folder.contract.after folder events) := by
  refine Contract.explains_of_trace
    (fun vfs folder => ∃ volume children, vfs.Mirrors totalBlocks volume children folder)
    ?_ trace ⟨volume, children, mirrors⟩ permits
  rintro vfs after folder event ⟨volume, children, mirrors⟩ may shown
  cases shown with
  | call ran => exact mirrors.call may ran
  | lsRoot =>
    exact ⟨mirrors.lsRoot_eq, volume, children, mirrors⟩
  | remount again =>
    exact ⟨trivial, volume, children, mirrors.of_fresh (mirrors.shown.fresh again).1⟩

/-- A run on a device just set up is that of a folder. -/
theorem Vfs.mirrors_of_trace (small : totalBlocks < 2 ^ 64)
    (isStart : Session.fromInit device totalBlocks inodeBitmapBlocks = some start)
    (mounted : Vfs.new (depth + 2) start.manager.device = some first)
    (trace : Trace (Vfs.Shown (depth + 2)) first events vfs)
    (permits : Folder.contract.Permits Folder.empty events) :
    Folder.contract.Explains Folder.empty events ∧ ∃ volume children,
      vfs.Mirrors totalBlocks volume children (Folder.contract.after Folder.empty events) := by
  obtain ⟨same, isSame, fresh, -⟩ := Vfs.fresh_of_fromInit small isStart depth
  obtain rfl := Option.some.inj (isSame.symm.trans mounted)
  exact fresh.mirrors_empty.trace trace permits

/-- Whatever users do with a device just set up, over any number of calls, listings and remounts:
as long as each call is one that a folder allows, each answer is the one that the folder gives. -/
theorem vfs_refines_folder (small : totalBlocks < 2 ^ 64)
    (isStart : Session.fromInit device totalBlocks inodeBitmapBlocks = some start)
    (mounted : Vfs.new (depth + 2) start.manager.device = some first)
    (trace : Trace (Vfs.Shown (depth + 2)) first events vfs)
    (permits : Folder.contract.Permits Folder.empty events) :
    Folder.contract.Explains Folder.empty events :=
  (Vfs.mirrors_of_trace small isStart mounted trace permits).1

/-- After any such run every `read_unstable` of a path with a `/` returns, with the answer of the
folder; and an allowed `write` returns exactly when the blocks of the folder that it asks for are
no more than the data bitmap counts. -/
theorem folder_calls_return (small : totalBlocks < 2 ^ 64)
    (isStart : Session.fromInit device totalBlocks inodeBitmapBlocks = some start)
    (mounted : Vfs.new (depth + 2) start.manager.device = some first)
    (trace : Trace (Vfs.Shown (depth + 2)) first events vfs)
    (permits : Folder.contract.Permits Folder.empty events) {path : String}
    (hasSlash : '/' ∈ path.toList) :
    (∃ reply after, vfs.exec (.readUnstable path) = .ok reply after ∧
      (Folder.contract.after Folder.empty events).reply (.readUnstable path) = some reply) ∧
    ∀ contents, (Folder.contract.after Folder.empty events).Allows (.write path contents) →
      ((∃ reply after, vfs.exec (.write path contents) = .ok reply after) ↔
        ((Folder.contract.after Folder.empty events).next (.write path contents)).blocks ≤
          vfs.session.fs.dataBitmap.totalCount) := by
  obtain ⟨-, volume, children, mirrors⟩ :=
    Vfs.mirrors_of_trace small isStart mounted trace permits
  cases parses : parsePath path with
  | none => exact absurd hasSlash ((parsePath_eq_none_iff path).mp parses)
  | some isPath =>
    refine ⟨?_, fun contents allowed => mirrors.writes_iff parses allowed⟩
    obtain ⟨reply, after, ran⟩ := mirrors.reads parses
    have allowed : (Folder.contract.after Folder.empty events).Allows (.readUnstable path) :=
      trivial
    exact ⟨reply, after, ran, (mirrors.call allowed ran).1⟩

end Runs

/-- A run on a device of 64 MiB: `create("/a")`, `write("/a", "T")` and a remount. -/
def testEvents : List VfsEvent :=
  [.call (.create "/a") (.ok .done), .call (.write "/a" [84]) (.ok .done), .remount]

/-- An empty folder allows `create("/a")`. -/
theorem allows_testCreate : Folder.empty.Allows (.create "/a") := by
  intro isPath parses _
  obtain rfl : ⟨[], "a"⟩ = isPath := Option.some.inj parses
  exact ⟨rfl, by decide, by decide, by decide⟩

/-- A folder with an empty file `a` allows `write("/a", "T")`. -/
theorem allows_testWrite : (Folder.empty.next (.create "/a")).Allows (.write "/a" [84]) := by
  refine ⟨by decide, fun isPath old parses looked => ?_⟩
  obtain rfl : ⟨[], "a"⟩ = isPath := Option.some.inj parses
  obtain rfl : [] = old := Option.some.inj looked
  exact dataBlocks_mono (Nat.zero_le _)

/-- The run takes place on every device that is large enough. -/
theorem exists_testEvents {device : Disk} (large : 131072 ≤ device.totalBlocks) :
    ∃ start first vfs, Session.fromInit device 131072 2 = some start ∧
      Vfs.new 2 start.manager.device = some first ∧
      Trace (Vfs.Shown 2) first testEvents vfs := by
  have fitting : Cafs.Fitting 131072 2 := ⟨by decide, by decide⟩
  obtain ⟨start, isStart⟩ := Session.exists_fromInit (by decide) fitting (by decide) large
  obtain ⟨first, mounted, fresh, parts⟩ := Vfs.fresh_of_fromInit (by decide) isStart 0
  have isParsed : parsePath "/a" = some ⟨[], "a"⟩ := by decide
  obtain ⟨bytes, isName⟩ := (nameBytes_eq_some_iff (utf8Bytes "a")).mpr (by decide)
  obtain ⟨root, found, -, -, -, value⟩ := fresh.shown.top
  obtain rfl : ⟨.dir, rootName, []⟩ = root := Option.some.inj found
  have few : first.session.inodes.queue.length + 2 < inodeCacheSize := by
    have queue := fresh.few
    rw [inodeCacheSize]
    simp only [List.length_nil] at queue
    omega
  obtain ⟨created, ranCreate⟩ := fresh.shown.creates few isParsed
    (show first.root.walk [] = .ok first.root from rfl) (by rw [value]; exact found) isName
    (by rw [parts]; decide) (by rw [parts]; decide)
  obtain ⟨-, volume, children, mirrors⟩ := fresh.mirrors_empty.call allows_testCreate ranCreate
  -- the data bitmap of the file system is that of `init` all along
  have partsCreated : created.session.fs = first.session.fs :=
    (fresh.shown.step (VfsCall.orderly_create_of_short (by decide) "/a") ranCreate).1
  have fits : ((Folder.empty.next (.create "/a")).next (.write "/a" [84])).blocks ≤
      created.session.fs.dataBitmap.totalCount := by
    rw [partsCreated, parts]
    decide
  obtain ⟨reply, wrote, ranWrite⟩ := (mirrors.writes_iff isParsed allows_testWrite).mpr fits
  obtain ⟨isReply, volumeAfter, childrenAfter, mirrorsAfter⟩ :=
    mirrors.call allows_testWrite ranWrite
  obtain rfl : .ok .done = reply := Option.some.inj isReply
  obtain ⟨rootAfter, foundAfter, -⟩ := mirrorsAfter.shown.top
  obtain ⟨last, remounted, -⟩ := mirrorsAfter.shown.remounts foundAfter 0
  exact ⟨start, first, last, isStart, mounted, .cons (.call ranCreate) (.cons (.call ranWrite)
    (.cons (.remount remounted) (.nil last)))⟩

/-- `create("/a")`, `write("/a", "T")`, a remount and `ls_root` show what a folder shows. -/
theorem vfs_refines_folder_listed : ∃ start first vfs,
    Session.fromInit (Disk.new 131072) 131072 2 = some start ∧
      Vfs.new 2 start.manager.device = some first ∧
      Trace (Vfs.Shown 2) first (testEvents ++ [.lsRoot vfs.lsRoot]) vfs ∧
      vfs.lsRoot = ["/", "a"] := by
  obtain ⟨start, first, vfs, isStart, mounted, trace⟩ :=
    @exists_testEvents (Disk.new 131072) (Nat.le_refl _)
  have listed : Trace (Vfs.Shown 2) first (testEvents ++ [.lsRoot vfs.lsRoot]) vfs :=
    trace.append (.cons (.lsRoot vfs) (.nil vfs))
  obtain ⟨-, -, -, shown, -⟩ := vfs_refines_folder (by decide) isStart mounted listed
    ⟨allows_testCreate, allows_testWrite, trivial, trivial, trivial⟩
  exact ⟨start, first, vfs, isStart, mounted, listed, shown⟩

/-- `read_unstable("/a")` returns what was written before the remount. -/
theorem folder_calls_return_read : ∃ start first vfs after,
    Session.fromInit (Disk.new 131072) 131072 2 = some start ∧
      Vfs.new 2 start.manager.device = some first ∧
      Trace (Vfs.Shown 2) first testEvents vfs ∧
      vfs.exec (.readUnstable "/a") = .ok (.ok (.contents [84])) after := by
  obtain ⟨start, first, vfs, isStart, mounted, trace⟩ :=
    @exists_testEvents (Disk.new 131072) (Nat.le_refl _)
  obtain ⟨⟨reply, after, ran, isReply⟩, -⟩ := folder_calls_return (by decide) isStart mounted
    trace ⟨allows_testCreate, allows_testWrite, trivial, trivial⟩
    (show '/' ∈ "/a".toList by decide)
  obtain rfl : .ok (.contents [84]) = reply := Option.some.inj isReply
  exact ⟨start, first, vfs, after, isStart, mounted, trace, ran⟩

end Canyon.Fs
