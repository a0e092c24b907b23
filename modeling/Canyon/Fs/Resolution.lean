import Canyon.Fs.VfsHistory

/-!
# What `create` does to paths

Where paths lead after `create`: a path to a file goes on reading what it read, unless the file was
itself made the parent of the new one; and the new path leads to the new inode, unless its name
changes on the way to the tree or is taken.
-/

namespace Canyon.Fs

open Canyon.Lib
open EStateM (Result)

namespace Vfs

/-- A path leads to an entry of the tree. -/
def Resolves (vfs : Vfs) (path : String) (dentry : DirEntry) : Prop :=
  ∃ isPath, parsePath path = some isPath ∧ findDentry vfs.root isPath.components = .ok dentry

/-- `read_unstable` returns bytes. -/
def Reads (vfs : Vfs) (path : String) (bytes : List UInt8) : Prop :=
  ∃ after, vfs.exec (.readUnstable path) = .ok (.ok (.contents bytes)) after

/-- Every path to a file reads the same bytes before and after. -/
def SparesFiles (vfs after : Vfs) : Prop :=
  ∀ path dentry, vfs.Resolves path dentry → dentry.value.inodeType = .file →
    ∃ bytes, vfs.Reads path bytes ∧ after.Reads path bytes

/-- An inode was free before and is allocated after. -/
def Made (vfs after : Vfs) (inodeNumber : Nat) : Prop :=
  inodeNumber < vfs.session.fs.inodeBitmap.totalCount ∧
    vfs.session.fs.inodeBitmap.bitOn vfs.session.contents inodeNumber = false ∧
    after.session.fs.inodeBitmap.bitOn after.session.contents inodeNumber = true

end Vfs

/-- The name that `create` stores is the name it is given, and no sibling has it. -/
def VfsCall.Faithful (vfs : Vfs) (call : VfsCall) : Prop :=
  ∀ path isPath dir, call = .create path → parsePath path = some isPath →
    vfs.root.walk isPath.parents = .ok dir →
    '\x00' ∉ isPath.name.toList ∧ ∀ child ∈ dir.children, child.key ≠ isPath.name

/-- A search that finds an entry is a walk. -/
theorem walk_of_findDentry {root dentry : DirEntry} {dirs : List String}
    (found : findDentry root dirs = .ok dentry) : root.walk dirs = .ok dentry := by
  rw [findDentry] at found
  cases walks : root.walk dirs with
  | error name =>
    rw [walks] at found
    contradiction
  | ok other =>
    rw [walks] at found
    exact congrArg _ (Except.ok.inj found)

namespace Vfs

variable {vfs after : Vfs} {totalBlocks inodeBitmapBlocks depth : Nat} {volume : Volume}
  {children : List Nat} {path : String} {isPath : Path} {dir dentry : DirEntry} {file : File}
  {reply : Except Error Reply} {device : Disk}

/-- What a `create` that returns has done: nothing when its directory is missing. -/
theorem Shows.create_cases (shown : vfs.Shows totalBlocks volume children)
    (orderly : (VfsCall.create path).Orderly volume vfs)
    (ran : vfs.exec (.create path) = .ok reply after) :
    ∃ isPath, parsePath path = some isPath ∧
      ((∃ name, vfs.root.walk isPath.parents = .error name ∧ reply = .error (.notExist name) ∧
        after = vfs) ∨
      ∃ dir file bytes, vfs.root.walk isPath.parents = .ok dir ∧
        volume[dir.value.inodeNumber]? = some file ∧
        nameBytes (utf8Bytes isPath.name) = some bytes ∧
        after.root =
          (File.dentry ⟨.file, bytes, []⟩ volume.length).graft isPath.parents vfs.root ∧
        after.session.fs = vfs.session.fs ∧
        after.Shows totalBlocks ((volume.add .file bytes).write dir.value.inodeNumber
          (appendEntry file.contents volume.length)) (adopted isPath volume children) ∧
        (isPath.parents = [] → vfs.session.inodes.Roomy → after.session.inodes.Roomy)) := by
  cases parses : parsePath (VfsCall.create path).path with
  | none =>
    rw [vfs.exec_of_parsePath_none parses] at ran
    contradiction
  | some isPath =>
    refine ⟨isPath, parses, ?_⟩
    cases walks : vfs.root.walk ((VfsCall.create path).searched isPath) with
    | error name =>
      rw [vfs.exec_of_walk_error parses walks] at ran
      obtain ⟨rfl, rfl⟩ := Result.ok.inj ran
      exact .inl ⟨name, walks, rfl, rfl⟩
    | ok dir =>
      obtain ⟨file, found, -⟩ := shown.found walks
      have bound : (appendEntry file.contents volume.length).length ≤ l4Max :=
        (orderly _ (VfsCall.effect_create parses walks)).1 _ _ (by rw [Call.written, found]; rfl)
      obtain ⟨-, bytes, isName, isRoot, fsEq, shownAfter, -, roomyAfter⟩ :=
        shown.created parses walks found bound ran
      exact .inr ⟨dir, file, bytes, walks, found, isName, isRoot, fsEq, shownAfter, roomyAfter⟩

/-! ## Other files -/

/-- What a path reads is the contents of its file. -/
theorem Shows.reads_eq (shown : vfs.Shows totalBlocks volume children)
    (isParsed : parsePath path = some isPath)
    (walked : vfs.root.walk isPath.components = .ok dentry)
    (found : volume[dentry.value.inodeNumber]? = some file) {bytes : List UInt8}
    (reads : vfs.Reads path bytes) : bytes = file.contents := by
  obtain ⟨after, ran⟩ := reads
  obtain ⟨isReply, -⟩ := shown.read isParsed walked found ran
  exact Reply.contents.inj (Except.ok.inj isReply)

/-- A `create` in the root directory spares all files. -/
theorem Shows.spares_of_filed (shown : vfs.Shows totalBlocks volume children)
    (roomy : vfs.session.inodes.Roomy) (orderly : (VfsCall.create path).Orderly volume vfs)
    (filed : (VfsCall.create path).Filed vfs) (ran : vfs.exec (.create path) = .ok reply after) :
    vfs.SparesFiles after := by
  intro other dentry ⟨isOther, parses, resolved⟩ _
  have walked := walk_of_findDentry resolved
  obtain ⟨notRoot, file, found, -⟩ := shown.tells walked
  have reads : vfs.Reads other file.contents :=
    shown.reads roomy.substitute_ok parses walked found
  refine ⟨file.contents, reads, ?_⟩
  obtain ⟨isPath, isParsed, ⟨-, -, -, rfl⟩ | ⟨dir, parent, bytes, toDir, foundParent, isName,
    isRoot, fsEq, shownAfter, roomyAfter⟩⟩ := shown.create_cases orderly ran
  · exact reads
  obtain ⟨isTop, rfl⟩ :=
    shown.parents_eq_nil toDir (filed path isPath dir rfl isParsed toDir)
  obtain ⟨-, -, -, -, -, value⟩ := shown.top
  obtain ⟨inside, -⟩ := List.getElem?_eq_some_iff.mp found
  -- the path leads to the same inode, whose contents are not those of the root directory
  obtain ⟨same, walkedSame, -, sameValue⟩ := KeyTree.walk_of_graft walked
    (File.dentry ⟨.file, bytes, []⟩ volume.length) isPath.parents
  rw [← isRoot] at walkedSame
  refine shownAfter.reads (roomyAfter isTop roomy).substitute_ok parses walkedSame ?_
  rw [sameValue, value, Volume.getElem?_write_of_ne _ notRoot, Volume.getElem?_add_of_lt inside]
  exact found

/-- A `create` under a file changes what that file reads. -/
theorem Shows.filed_of_spares (shown : vfs.Shows totalBlocks volume children)
    (orderly : (VfsCall.create path).Orderly volume vfs)
    (ran : vfs.exec (.create path) = .ok reply after) (spares : vfs.SparesFiles after) :
    (VfsCall.create path).Filed vfs := by
  rintro _ _ dir ⟨rfl⟩ isParsed toDir
  obtain ⟨isPath, isSame, ⟨name, stopped, -⟩ | ⟨same, parent, bytes, toSame, found, -, isRoot,
    -, shownAfter, -⟩⟩ := shown.create_cases orderly ran
  · obtain rfl := Option.some.inj (isSame.symm.trans isParsed)
    rw [toDir] at stopped
    contradiction
  obtain rfl := Option.some.inj (isSame.symm.trans isParsed)
  obtain rfl := Except.ok.inj (toSame.symm.trans toDir)
  rcases shown.parent toDir with ⟨-, rfl⟩ | ⟨-, file, foundFile, -, -, isFile⟩
  · obtain ⟨-, -, -, -, -, value⟩ := shown.top
    rw [value]
  -- the path to the parent itself reads more than before
  have named : isPath.parents ≠ [] := by
    intro isTop
    rw [isTop] at toDir
    obtain rfl := Except.ok.inj toDir
    obtain ⟨-, -, -, -, -, value⟩ := shown.top
    rw [value] at isFile
    contradiction
  obtain ⟨isOther, parses, components⟩ := components_of_renderPath named fun name nameIn =>
    slash_not_mem_of_parsePath isParsed name (List.mem_append_left _ nameIn)
  rw [← components] at toDir
  obtain ⟨bytesRead, before, later⟩ := spares (renderPath isPath.parents) same
    ⟨isOther, parses, findDentry_of_walk toDir⟩ isFile
  obtain ⟨grown, walkedGrown, -, sameValue⟩ := KeyTree.walk_of_graft toDir
    (File.dentry ⟨.file, bytes, []⟩ volume.length) isPath.parents
  rw [← isRoot] at walkedGrown
  obtain ⟨inside, -⟩ := List.getElem?_eq_some_iff.mp found
  have foundAdded : (volume.add .file bytes)[same.value.inodeNumber]? = some parent := by
    rw [Volume.getElem?_add_of_lt inside]
    exact found
  have foundGrown : ((volume.add .file bytes).write same.value.inodeNumber
      (appendEntry parent.contents volume.length))[grown.value.inodeNumber]? =
      some { parent with contents := appendEntry parent.contents volume.length } := by
    rw [sameValue]
    exact Volume.getElem?_write_self foundAdded _
  have readBefore := shown.reads_eq parses toDir found before
  have readLater := shownAfter.reads_eq parses walkedGrown foundGrown later
  have lengths := congrArg List.length (readBefore.symm.trans readLater)
  have longer := lt_length_appendEntry parent.contents volume.length
  exact absurd lengths (Nat.ne_of_lt longer)

/-! ## New paths -/

/-- The entries under a directory that a path leads to tell of files. -/
theorem Shows.below_dir (shown : vfs.Shows totalBlocks volume children) {dirs : List String}
    (walked : vfs.root.walk dirs = .ok dir) : ∀ child ∈ dir.children, child.All volume.Tells := by
  cases dirs with
  | nil =>
    obtain rfl := Except.ok.inj walked
    exact shown.below
  | cons first rest => exact (KeyTree.all_of_walk_cons shown.below walked).child

/-- The inodes of a volume are allocated. -/
theorem Shows.bitOn_eq (shown : vfs.Shows totalBlocks volume children) {number : Nat}
    (inside : number < vfs.session.fs.inodeBitmap.totalCount) :
    vfs.session.fs.inodeBitmap.bitOn vfs.session.contents number =
      decide (number < volume.length) := by
  obtain ⟨extents, marked, store, serves, -⟩ := shown.served
  rw [serves.backed.contents_eq]
  exact serves.represents.holds.inodes.bitOn_eq inside

/-- The inode that a `create` has made has the next number. -/
theorem Shows.made_iff (shown : vfs.Shows totalBlocks volume children) {bytes : NameBytes}
    {parent : Nat} {contents : List UInt8} {childrenAfter : List Nat}
    (shownAfter : after.Shows totalBlocks ((volume.add .file bytes).write parent contents)
      childrenAfter)
    (fsEq : after.session.fs = vfs.session.fs) (number : Nat) :
    vfs.Made after number ↔ number = volume.length := by
  have more : ((volume.add .file bytes).write parent contents).length = volume.length + 1 := by
    rw [Volume.length_write, Volume.length_add]
  have counted : volume.length + 1 ≤ vfs.session.fs.inodeBitmap.totalCount := by
    obtain ⟨extents, marked, store, serves, -⟩ := shownAfter.served
    rw [← more, ← fsEq]
    exact serves.represents.holds.counted
  constructor
  · rintro ⟨inside, before, later⟩
    rw [shown.bitOn_eq inside, decide_eq_false_iff_not] at before
    rw [shownAfter.bitOn_eq (fsEq ▸ inside), decide_eq_true_iff] at later
    omega
  · rintro rfl
    have inside : volume.length < vfs.session.fs.inodeBitmap.totalCount := by omega
    refine ⟨inside, ?_, ?_⟩
    · rw [shown.bitOn_eq inside, decide_eq_false_iff_not]
      omega
    · rw [shownAfter.bitOn_eq (fsEq ▸ inside), decide_eq_true_iff]
      omega

/-- The key of a new entry. -/
theorem key_dentry {name : String} {bytes : NameBytes}
    (isName : nameBytes (utf8Bytes name) = some bytes) (number : Nat) :
    (File.dentry ⟨.file, bytes, []⟩ number).key = beforeNul name :=
  nameString_of_nameBytes isName

/-- A faithful `create` keeps siblings distinct. -/
theorem distinct_of_faithful (distinct : vfs.root.Distinct)
    (isParsed : parsePath path = some isPath) (walked : vfs.root.walk isPath.parents = .ok dir)
    {bytes : NameBytes} (isName : nameBytes (utf8Bytes isPath.name) = some bytes)
    (faithful : (VfsCall.create path).Faithful vfs) (number : Nat) :
    ((File.dentry ⟨.file, bytes, []⟩ number).graft isPath.parents vfs.root).Distinct := by
  obtain ⟨noNul, fresh⟩ := faithful path isPath dir rfl isParsed walked
  have leaf : (File.dentry ⟨.file, bytes, []⟩ number).Distinct := .node (by simp) (by simp)
  refine distinct.graft leaf walked ?_
  rw [key_dentry isName, (beforeNul_eq_iff _).mpr noNul]
  exact fresh

/-- A search under a directory with one entry more at its end. -/
theorem walk_graft_components (walked : vfs.root.walk isPath.parents = .ok dir) (new : DirEntry) :
    (new.graft isPath.parents vfs.root).walk isPath.components =
      match (dir.children ++ [new]).find? fun child => child.key == isPath.name with
      | some child => .ok child
      | none => .error isPath.name := by
  rw [Path.components, KeyTree.walk_graft walked, KeyTree.walk, KeyTree.child?,
    KeyTree.children_graft_nil]
  cases (dir.children ++ [new]).find? fun child => child.key == isPath.name with
  | none => rfl
  | some child => rfl

/-- The new path leads to the new inode exactly when the `create` was faithful. -/
theorem Shows.leads_iff (shown : vfs.Shows totalBlocks volume children)
    (walked : vfs.root.walk isPath.parents = .ok dir) {bytes : NameBytes}
    (isName : nameBytes (utf8Bytes isPath.name) = some bytes) :
    (∃ dentry, ((File.dentry ⟨.file, bytes, []⟩ volume.length).graft isPath.parents
        vfs.root).walk isPath.components = .ok dentry ∧
      dentry.value.inodeNumber = volume.length) ↔
    '\x00' ∉ isPath.name.toList ∧ ∀ child ∈ dir.children, child.key ≠ isPath.name := by
  rw [walk_graft_components walked, List.find?_append, ← beforeNul_eq_iff, ← key_dentry isName
    volume.length]
  have old : ∀ child ∈ dir.children, child.value.inodeNumber ≠ volume.length := by
    intro child childIn
    obtain ⟨-, file, found, -⟩ := (shown.below_dir walked child childIn).root
    exact Nat.ne_of_lt (List.getElem?_eq_some_iff.mp found).1
  cases search : dir.children.find? fun child => child.key == isPath.name with
  | some child =>
    have childIn := List.mem_of_find?_eq_some search
    have hit := List.find?_some search
    constructor
    · rintro ⟨_, ⟨rfl⟩, isLast⟩
      exact absurd isLast (old child childIn)
    · rintro ⟨-, fresh⟩
      exact absurd (beq_iff_eq.mp hit) (fresh child childIn)
  | none =>
    have fresh : ∀ child ∈ dir.children, child.key ≠ isPath.name := by
      intro child childIn same
      exact List.find?_eq_none.mp search child childIn (beq_iff_eq.mpr same)
    rw [Option.none_or, List.find?_singleton]
    by_cases same : (File.dentry ⟨.file, bytes, []⟩ volume.length).key = isPath.name
    · rw [if_pos (beq_iff_eq.mpr same)]
      exact iff_of_true ⟨_, rfl, rfl⟩ ⟨same, fresh⟩
    · rw [if_neg (mt beq_iff_eq.mp same)]
      exact iff_of_false (by simp) fun kept => same kept.1

/-- The entries of the files that a tree tells of have the names of the tree. -/
theorem keys_dentries {entries : List DirEntry}
    (tells : ∀ entry ∈ entries, volume.Tells entry.key entry.value) :
    (volume.dentries (entries.map fun entry => entry.value.inodeNumber)).map KeyTree.key =
      entries.map KeyTree.key := by
  induction entries with
  | nil => rfl
  | cons entry rest ih =>
    obtain ⟨-, file, found, -, isName, -⟩ := tells entry List.mem_cons_self
    have first : volume.dentries ((entry :: rest).map fun entry => entry.value.inodeNumber) =
        file.dentry entry.value.inodeNumber ::
          volume.dentries (rest.map fun entry => entry.value.inodeNumber) :=
      List.filterMap_cons_some (by rw [found]; rfl)
    rw [first, List.map_cons, List.map_cons,
      ih fun other otherIn => tells other (List.mem_cons_of_mem _ otherIn), isName]
    rfl

/-- A remount keeps siblings distinct. -/
theorem Shows.distinct_of_fresh (shown : vfs.Shows totalBlocks volume children)
    (distinct : vfs.root.Distinct) (fresh : after.Fresh totalBlocks volume children) :
    after.root.Distinct := by
  obtain ⟨root, found, isTree⟩ := fresh.isTree
  have keys := keys_dentries fun entry entryIn => (shown.below entry entryIn).root
  rw [shown.listed] at keys
  rw [isTree]
  refine .node ?_ fun child childIn => ?_
  · rw [keys]
    exact distinct.nodup_keys
  · obtain ⟨number, -, isEntry⟩ := List.mem_filterMap.mp childIn
    obtain ⟨file, -, rfl⟩ := Option.map_eq_some_iff.mp isEntry
    exact .node (by simp) (by simp)

end Vfs

/-- The calls of an orderly user who gives each new file a name of its own. -/
def VfsCall.Careful (volume : Volume) (vfs : Vfs) (call : VfsCall) : Prop :=
  call.Orderly volume vfs ∧ call.Faithful vfs

section Runs

variable {vfs after : Vfs} {totalBlocks inodeBitmapBlocks depth : Nat} {volume : Volume}
  {path : String} {reply : Except Error Reply} {device : Disk}

/-- After any calls of a user who creates files in directories only, a `create` that returns
leaves what every path to a file reads as it was exactly when its own parent is not a file. -/
theorem create_spares_files_iff (small : totalBlocks < 2 ^ 64)
    (history : VfsHistory VfsCall.Tidy device totalBlocks inodeBitmapBlocks (depth + 2) volume vfs)
    (orderly : (VfsCall.create path).Orderly volume vfs)
    (ran : vfs.exec (.create path) = .ok reply after) :
    vfs.SparesFiles after ↔ (VfsCall.create path).Filed vfs := by
  obtain ⟨⟨children, shown⟩, -, roomy⟩ := history.flat small
  exact ⟨fun spares => shown.filed_of_spares orderly ran spares,
    fun filed => shown.spares_of_filed roomy orderly filed ran⟩

/-- The run to a device with one file is tidy. -/
theorem exists_tidyTest : ∃ bytes vfs,
    VfsHistory VfsCall.Tidy (Disk.new 131072) 131072 2 2 (testVolume bytes []) vfs ∧
      vfs.Test 131072 2 bytes := by
  refine VfsHistory.exists_test (by decide) ⟨by decide, by decide⟩ (by decide) (by decide)
    fun vfs fresh => ⟨?_, ?_⟩
  · exact VfsCall.orderly_create_of_short (by decide) "/a"
  · have isParsed : parsePath "/a" = some ⟨[], "a"⟩ := by decide
    exact fresh.shown.filed_of_top isParsed

/-- `create("/b")` beside a file `a` leaves `a` alone. -/
theorem create_spares_files_iff_beside : ∃ bytes vfs after,
    VfsHistory VfsCall.Tidy (Disk.new 131072) 131072 2 2 (testVolume bytes []) vfs ∧
      vfs.exec (.create "/b") = .ok (.ok .done) after ∧ vfs.SparesFiles after := by
  obtain ⟨bytes, vfs, history, test⟩ := exists_tidyTest
  have isParsed : parsePath "/b" = some ⟨[], "b"⟩ := by decide
  obtain ⟨after, ran⟩ := test.creates (by decide) (by decide) isParsed
    (show testTree.walk [] = .ok testTree from rfl)
    (show (testVolume bytes [])[0]? = some _ from rfl) (by decide) (by decide)
  exact ⟨bytes, vfs, after, history, ran, (create_spares_files_iff (by decide) history
    (VfsCall.orderly_test vfs bytes "/b") ran).mpr (test.shown.filed_of_top isParsed)⟩

/-- `create("/a/b")` under the file `a` rewrites `a`. -/
theorem create_under_file_rewrites_it : ∃ bytes vfs after,
    VfsHistory VfsCall.Tidy (Disk.new 131072) 131072 2 2 (testVolume bytes []) vfs ∧
      vfs.exec (.create "/a/b") = .ok (.ok .done) after ∧ ¬vfs.SparesFiles after := by
  obtain ⟨bytes, vfs, history, test⟩ := exists_tidyTest
  have isParsed : parsePath "/a/b" = some ⟨["a"], "b"⟩ := by decide
  have walked : testTree.walk ["a"] = .ok (.node "a" ⟨.file, 1⟩ []) := rfl
  obtain ⟨after, ran⟩ := test.creates (by decide) (by decide) isParsed walked
    (show (testVolume bytes [])[1]? = some _ from rfl) (by decide)
    (show Cafs.growth 0 (appendEntry [] 2).length ≤ 1 by decide)
  refine ⟨bytes, vfs, after, history, ran, fun spares => ?_⟩
  have isDir := test.shown.filed_of_spares (VfsCall.orderly_test vfs bytes "/a/b") ran spares
    "/a/b" _ _ rfl isParsed
    (test.root ▸ walked)
  contradiction

/-- Siblings stay distinct along the calls and remounts of a careful user. -/
theorem VfsHistory.distinct (small : totalBlocks < 2 ^ 64)
    (history : VfsHistory VfsCall.Careful device totalBlocks inodeBitmapBlocks (depth + 2) volume
      vfs) :
    (∃ children, vfs.Shows totalBlocks volume children) ∧ vfs.root.Distinct := by
  refine history.invariant small And.left (fun _ vfs => vfs.root.Distinct) ?_ ?_ ?_
  · intro vfs fresh parts
    obtain ⟨root, -, isTree⟩ := fresh.isTree
    rw [isTree]
    exact .node List.nodup_nil (by simp [Volume.dentries])
  · intro volume vfs after children call reply shown distinct careful ran
    rcases (shown.step careful.1 ran).2 with ⟨-, isRoot, -⟩ |
      ⟨path, isPath, dir, bytes, rfl, isParsed, walked, isName, isRoot, -⟩
    · rw [isRoot]
      exact distinct
    · rw [isRoot]
      exact Vfs.distinct_of_faithful distinct isParsed walked isName careful.2 _
  · intro volume vfs after children shown distinct fresh fsEq
    exact shown.distinct_of_fresh distinct fresh

/-- After any calls and remounts of a careful user, a `create` that returns `Ok` leaves siblings
distinct and its path leading to the inode that it made exactly when its name has no NUL and no
sibling has it. -/
theorem create_resolves_iff (small : totalBlocks < 2 ^ 64)
    (history : VfsHistory VfsCall.Careful device totalBlocks inodeBitmapBlocks (depth + 2) volume
      vfs) (orderly : (VfsCall.create path).Orderly volume vfs)
    (ran : vfs.exec (.create path) = .ok (.ok .done) after) :
    (after.root.Distinct ∧
      ∃ dentry, after.Resolves path dentry ∧ vfs.Made after dentry.value.inodeNumber) ↔
    (VfsCall.create path).Faithful vfs := by
  obtain ⟨⟨children, shown⟩, distinct⟩ := history.distinct small
  obtain ⟨isPath, isParsed, ⟨_, -, failed, -⟩ | ⟨dir, file, bytes, walked, found, isName, isRoot,
    fsEq, shownAfter, -⟩⟩ := shown.create_cases orderly ran
  · contradiction
  have leads := shown.leads_iff walked isName
  have made := shown.made_iff shownAfter fsEq
  constructor
  · rintro ⟨-, dentry, ⟨same, isSame, resolved⟩, isMade⟩ _ other otherDir ⟨rfl⟩ isOther toOther
    obtain rfl := Option.some.inj (isParsed.symm.trans isSame)
    obtain rfl := Option.some.inj (isParsed.symm.trans isOther)
    obtain rfl := Except.ok.inj (walked.symm.trans toOther)
    have toDentry := walk_of_findDentry resolved
    rw [isRoot] at toDentry
    exact leads.mp ⟨dentry, toDentry, (made _).mp isMade⟩
  · intro faithful
    obtain ⟨dentry, toDentry, isLast⟩ := leads.mpr (faithful path isPath dir rfl isParsed walked)
    rw [← isRoot] at toDentry
    refine ⟨?_, dentry, ⟨isPath, isParsed, findDentry_of_walk toDentry⟩, (made _).mpr isLast⟩
    rw [isRoot]
    exact Vfs.distinct_of_faithful distinct isParsed walked isName faithful _

/-- The run to a device with one file is careful. -/
theorem exists_carefulTest : ∃ bytes vfs,
    VfsHistory VfsCall.Careful (Disk.new 131072) 131072 2 2 (testVolume bytes []) vfs ∧
      vfs.Test 131072 2 bytes := by
  refine VfsHistory.exists_test (by decide) ⟨by decide, by decide⟩ (by decide) (by decide)
    fun vfs fresh => ⟨?_, ?_⟩
  · exact VfsCall.orderly_create_of_short (by decide) "/a"
  · rintro _ isPath dir ⟨rfl⟩ parses walked
    have isParsed : parsePath "/a" = some ⟨[], "a"⟩ := by decide
    obtain rfl := Option.some.inj (isParsed.symm.trans parses)
    obtain rfl := Except.ok.inj walked
    obtain ⟨root, -, isTree⟩ := fresh.isTree
    rw [isTree]
    exact ⟨by decide, by simp [Volume.tree, Volume.dentries, KeyTree.children]⟩

/-- `create("/b")` beside a file `a` makes a path to a new inode. -/
theorem create_resolves_iff_beside : ∃ bytes vfs after,
    VfsHistory VfsCall.Careful (Disk.new 131072) 131072 2 2 (testVolume bytes []) vfs ∧
      vfs.exec (.create "/b") = .ok (.ok .done) after ∧ after.root.Distinct ∧
      ∃ dentry, after.Resolves "/b" dentry ∧ vfs.Made after dentry.value.inodeNumber := by
  obtain ⟨bytes, vfs, history, test⟩ := exists_carefulTest
  have isParsed : parsePath "/b" = some ⟨[], "b"⟩ := by decide
  obtain ⟨after, ran⟩ := test.creates (by decide) (by decide) isParsed
    (show testTree.walk [] = .ok testTree from rfl)
    (show (testVolume bytes [])[0]? = some _ from rfl) (by decide) (by decide)
  have faithful : (VfsCall.create "/b").Faithful vfs := by
    rintro _ isPath dir ⟨rfl⟩ parses walked
    obtain rfl := Option.some.inj (isParsed.symm.trans parses)
    obtain rfl := Except.ok.inj walked
    rw [test.root]
    exact ⟨by decide, by simp [testTree, KeyTree.children, KeyTree.key]⟩
  exact ⟨bytes, vfs, after, history, ran,
    (create_resolves_iff (by decide) history (VfsCall.orderly_test vfs bytes "/b") ran).mpr
      faithful⟩

/-- `create("/a")` twice: siblings are no longer distinct, and the path leads to the first. -/
theorem create_twice_shadows : ∃ bytes vfs after,
    VfsHistory VfsCall.Careful (Disk.new 131072) 131072 2 2 (testVolume bytes []) vfs ∧
      vfs.exec (.create "/a") = .ok (.ok .done) after ∧ ¬after.root.Distinct ∧
      ¬∃ dentry, after.Resolves "/a" dentry ∧ vfs.Made after dentry.value.inodeNumber := by
  obtain ⟨bytes, vfs, history, test⟩ := exists_carefulTest
  have isParsed : parsePath "/a" = some ⟨[], "a"⟩ := by decide
  obtain ⟨after, ran⟩ := test.creates (by decide) (by decide) isParsed
    (show testTree.walk [] = .ok testTree from rfl)
    (show (testVolume bytes [])[0]? = some _ from rfl) (by decide) (by decide)
  have top : vfs.root.walk [] = .ok vfs.root := rfl
  obtain ⟨_, isSame, ⟨_, stopped, -⟩ | ⟨dir, file, stored, walked, found, isName, isRoot, fsEq,
    shownAfter, -⟩⟩ := test.shown.create_cases (VfsCall.orderly_test vfs bytes "/a") ran
  · obtain rfl := Option.some.inj (isParsed.symm.trans isSame)
    rw [top] at stopped
    contradiction
  obtain rfl := Option.some.inj (isParsed.symm.trans isSame)
  have isKey : (File.dentry ⟨.file, stored, []⟩ 2).key = "a" := by
    rw [Vfs.key_dentry isName]
    decide
  refine ⟨bytes, vfs, after, history, ran, fun distinct => ?_, ?_⟩
  · have keys : (["a"] ++ [(File.dentry ⟨.file, stored, []⟩ 2).key]).Nodup := by
      have nodup := distinct.nodup_keys
      rw [isRoot, KeyTree.children_graft_nil, test.root, List.map_append] at nodup
      exact nodup
    rw [isKey] at keys
    simp at keys
  · rintro ⟨dentry, ⟨_, isOther, resolved⟩, isMade⟩
    obtain rfl := Option.some.inj (isParsed.symm.trans isOther)
    have toDentry := walk_of_findDentry resolved
    rw [isRoot] at toDentry
    have isLast := (test.shown.made_iff shownAfter fsEq _).mp isMade
    obtain ⟨-, fresh⟩ := (test.shown.leads_iff walked isName).mp ⟨dentry, toDentry, isLast⟩
    obtain rfl := Except.ok.inj walked
    rw [test.root] at fresh
    exact fresh _ List.mem_cons_self rfl

end Runs

end Canyon.Fs
