import Canyon.Fs.ReadBack

/-!
# Directories

What `sub_inodes` returns for a directory that only `create` changes: the inode numbers of the
handles that `create` returned for it, in that order.
-/

namespace Canyon.Fs

open Canyon.Lib

/-- The calls of a user who leaves directories to `create`, and takes no data block from a
file. -/
def Call.Filing (volume : Volume) (call : Call) : Prop :=
  call.Addressed volume ∧ call.Keeping volume ∧
    ∀ number contents, call = .write number contents → contents.length < 2 ^ 64 ∧
      ∀ file, volume[number]? = some file → file.type = .file

/-- The children of each directory after a call: `create` adds the inode of its handle. -/
def Call.adopt (children : Nat → List Nat) (after : Session) : Call → Answer → Nat → List Nat
  | .create parent _, .handle pointer =>
    Function.update children parent
      (children parent ++ [(after.inodes.heap pointer).inodeNumber])
  | _, _ => children

/-- One call that returns, and the children it is meant to leave. -/
inductive Adoption : Volume × Session × (Nat → List Nat) → Volume × Session × (Nat → List Nat) →
    Prop where
  /-- The call was allowed and returned. -/
  | call {volume : Volume} {session after : Session} {children : Nat → List Nat} {answer : Answer}
      (call : Call) (isFiling : call.Filing volume)
      (ran : session.exec (call.run session.fs) = .ok answer after) :
      Adoption (volume, session, children)
        (volume.after call, after, call.adopt children after answer)

/-- The root directory lists the files in the order of their inodes. -/
structure Volume.Listed (volume : Volume) (children : Nat → List Nat) : Prop where
  /-- The root directory is a directory. -/
  type : ∀ root, volume[0]? = some root → root.type = .dir
  /-- Its contents are the entries of its children. -/
  contents : ∀ root, volume[0]? = some root → root.contents = directoryBytes (children 0)
  /-- Its children are all files. -/
  numbers : children 0 = List.range' 1 (volume.length - 1)

namespace Volume.Listed

variable {volume : Volume} {children : Nat → List Nat}

/-- A volume just set up has no files. -/
theorem initial : Volume.initial.Listed fun _ => [] := by
  refine ⟨?_, ?_, rfl⟩
  · intro root found
    obtain rfl := Option.some.inj found
    rfl
  · intro root found
    obtain rfl := Option.some.inj found
    rfl

/-- A write to a file leaves the root directory as it is. -/
theorem write (listed : volume.Listed children) {number : Nat} {contents : List UInt8}
    (isFile : ∀ file, volume[number]? = some file → file.type = .file) :
    (volume.write number contents).Listed children := by
  have kept : ∀ root, (volume.write number contents)[0]? = some root → volume[0]? = some root := by
    intro root found
    by_cases same : 0 = number
    · subst same
      rw [Volume.write, List.getElem?_modify_eq, Option.map_eq_map, Option.map_eq_some_iff] at found
      obtain ⟨old, foundOld, -⟩ := found
      have isDir := listed.type old foundOld
      rw [isFile old foundOld] at isDir
      contradiction
    · rwa [Volume.getElem?_write_of_ne volume same] at found
  refine ⟨fun root found => listed.type root (kept root found),
    fun root found => listed.contents root (kept root found), ?_⟩
  rw [Volume.length_write]
  exact listed.numbers

/-- A new file under the root directory is its last child. -/
theorem create (listed : volume.Listed children) {root : File} (found : volume[0]? = some root)
    (bytes : NameBytes) :
    ((volume.add .file bytes).write 0 (appendEntry root.contents volume.length)).Listed
      (Function.update children 0 (children 0 ++ [volume.length])) := by
  obtain ⟨rooted, -⟩ := List.getElem?_eq_some_iff.mp found
  have foundAdded : (volume.add .file bytes)[0]? = some root := by
    rw [Volume.getElem?_add_of_lt rooted]
    exact found
  have after := Volume.getElem?_write_self foundAdded (appendEntry root.contents volume.length)
  refine ⟨?_, ?_, ?_⟩
  · intro other foundOther
    obtain rfl := Option.some.inj (after.symm.trans foundOther)
    exact listed.type root found
  · intro other foundOther
    obtain rfl := Option.some.inj (after.symm.trans foundOther)
    rw [Function.update_self, directoryBytes_concat, listed.contents root found]
  · rw [Function.update_self, listed.numbers, Volume.length_write, Volume.length_add]
    obtain ⟨count, isCount⟩ := Nat.exists_eq_succ_of_ne_zero (Nat.ne_of_gt rooted)
    rw [isCount, Nat.succ_sub_one, Nat.add_sub_cancel, List.range'_1_concat, Nat.add_comm 1]

/-- The root directory is far from what its tree can describe. -/
theorem small (listed : volume.Listed children) (few : volume.length ≤ 16) {root : File}
    (found : volume[0]? = some root) : root.contents.length ≤ l4Max := by
  obtain ⟨-, -, -, -, -, -, -, top⟩ := levelConstants
  rw [listed.contents root found, length_directoryBytes, listed.numbers, List.length_range']
  omega

end Volume.Listed

section Runs

variable {totalBlocks inodeBitmapBlocks : Nat} {volume : Volume} {session after : Session}
  {extents : Nat → Extent} {marked : Nat → Bool} {store : Nat → Block}
  {children : Nat → List Nat}

/-- A call keeps track of the children. -/
theorem Tracks.adopt
    (tracks : Tracks totalBlocks inodeBitmapBlocks volume session extents marked store)
    (listed : volume.Listed children) {call : Call} (isFiling : call.Filing volume)
    {answer : Answer} (ran : session.exec (call.run session.fs) = .ok answer after) :
    (volume.after call).Listed (call.adopt children after answer) ∧
      ∃ extentsAfter markedAfter storeAfter, Tracks totalBlocks inodeBitmapBlocks
        (volume.after call) after extentsAfter markedAfter storeAfter := by
  obtain ⟨addressed, keeping, filing⟩ := isFiling
  have rootSmall : ∀ root, volume[0]? = some root → root.contents.length ≤ l4Max :=
    fun root found => listed.small tracks.length_le found
  refine ⟨?_, tracks.advance addressed keeping
    (fun number contents isWrite => (filing number contents isWrite).1) rootSmall ran⟩
  cases call with
  | create parent name =>
    obtain ⟨file, found, isDir⟩ := addressed
    obtain ⟨pointer, made, rfl⟩ := Session.exec_map_ok ran
    obtain rfl := tracks.onlyRoot parent file found isDir
    obtain ⟨bytes, isName, isNumber, -⟩ :=
      tracks.create found isDir (rootSmall file found) made
    have grown := listed.create found bytes
    simp only [Volume.after, isName, found, Call.adopt, isNumber]
    exact grown
  | write number contents => exact listed.write (filing number contents rfl).2
  | inode | subInodes | df | flush | drop => exact listed

/-- `sub_inodes` of a directory returns what its contents list, while the inode cache has the
directory or room for it. -/
theorem Session.Serves.lists (serves : session.Serves totalBlocks volume extents marked store)
    {parent : Nat} {file : File} (found : volume[parent]? = some file) (isDir : file.type = .dir)
    (bound : file.contents.length ≤ l4Max) {numbers : List Nat}
    (isListed : file.contents = directoryBytes numbers) (narrow : ∀ child ∈ numbers, child < 2 ^ 64)
    (room : session.inodes.find parent = none → ∀ error,
      Inodes.substitute session.inodes.queue session.inodes.handles ≠ .error error) :
    ∃ after, session.exec (session.fs.subInodes parent) = .ok numbers after := by
  obtain ⟨record, -, placed⟩ := serves.represents.holds.placed parent file found
  obtain ⟨listable, isListing⟩ := Cafs.listing_directoryBytes narrow
  have bytes : (session.fs.inodeOf parent file (extents parent)).bytesOn store =
      directoryBytes numbers := by
    rw [placed.bytesOn_eq bound, isListed]
  have spec : FsM.wp (Prog.deviceRules totalBlocks) (session.fs.subInodes parent) session.inodes
      (fun returned _ _ => returned = numbers) (fun _ _ => False) store := by
    refine Cafs.wp_subInodes serves.represents found (fun pointer looked _ _ => ?_)
      (fun absent stuck => room absent _ stuck) fun malformed => ?_
    · rw [bytes, isDir, isListing]
    · rw [bytes, isDir] at malformed
      exact malformed listable
  obtain ⟨_, after, _, ran, -, -, rfl⟩ := serves.backed.returns spec
  exact ⟨after, ran⟩

/-- In a tracked session `sub_inodes` of a directory returns what its contents list. -/
theorem Tracks.lists
    (tracks : Tracks totalBlocks inodeBitmapBlocks volume session extents marked store)
    (listed : volume.Listed children) {parent : Nat} {file : File}
    (found : volume[parent]? = some file) (isDir : file.type = .dir) :
    ∃ after, session.exec (session.fs.subInodes parent) = .ok (children parent) after := by
  obtain rfl := tracks.onlyRoot parent file found isDir
  have few := tracks.length_le
  have narrow : ∀ child ∈ children 0, child < 2 ^ 64 := by
    intro child childIn
    rw [listed.numbers, List.mem_range'_1] at childIn
    omega
  exact tracks.serves.lists found isDir (listed.small few found) (listed.contents file found)
    narrow fun absent => absurd absent (tracks.find_ne_none tracks.rooted)

/-- A run of filing calls is tracked, and its root directory lists all files. -/
theorem adoptions_tracked {start : Session} {device : Disk} (small : totalBlocks < 2 ^ 64)
    (setUp : Session.fromInit device totalBlocks inodeBitmapBlocks = some start)
    (run : Relation.ReflTransGen Adoption (Volume.initial, start, fun _ => [])
      (volume, session, children)) :
    volume.Listed children ∧ ∃ extents marked store,
      Tracks totalBlocks inodeBitmapBlocks volume session extents marked store := by
  suffices tracked : ∀ state, Relation.ReflTransGen Adoption
      (Volume.initial, start, fun _ => []) state → state.1.Listed state.2.2 ∧
      ∃ extents marked store,
        Tracks totalBlocks inodeBitmapBlocks state.1 state.2.1 extents marked store from
    tracked _ run
  intro state run
  induction run with
  | refl =>
    obtain ⟨store, tracks⟩ := tracks_initial small setUp
    exact ⟨.initial, _, _, _, tracks⟩
  | tail _ adoption ih =>
    cases adoption with
    | call call isFiling ran =>
      obtain ⟨listed, extents, marked, store, tracks⟩ := ih
      exact tracks.adopt listed isFiling ran

/-- In every state of a run in which only `create` changes directories, `sub_inodes` of a
directory returns the inodes created under it, in the order of their creation. -/
theorem subInodes_lists_children {start : Session} {device : Disk} (small : totalBlocks < 2 ^ 64)
    (setUp : Session.fromInit device totalBlocks inodeBitmapBlocks = some start)
    (run : Relation.ReflTransGen Adoption (Volume.initial, start, fun _ => [])
      (volume, session, children)) {parent : Nat} {file : File}
    (found : volume[parent]? = some file) (isDir : file.type = .dir) :
    ∃ after, session.exec (session.fs.subInodes parent) = .ok (children parent) after := by
  obtain ⟨listed, extents, marked, store, tracks⟩ := adoptions_tracked small setUp run
  exact tracks.lists listed found isDir

/-- `create` of `test.txt` in the root directory of a device of 64 MiB is listed. -/
theorem subInodes_lists_children_test : ∃ start session children bytes,
    Session.fromInit (Disk.new 131072) 131072 2 = some start ∧
      Relation.ReflTransGen Adoption (Volume.initial, start, fun _ => [])
        (testVolume bytes [], session, children) ∧ children 0 = [1] ∧
      ∃ after, session.exec (session.fs.subInodes 0) = .ok (children 0) after := by
  have small : 131072 < 2 ^ 64 := by decide
  have fitting : Cafs.Fitting 131072 2 := ⟨by decide, by decide⟩
  obtain ⟨start, setUp⟩ : ∃ start, Session.fromInit (Disk.new 131072) 131072 2 = some start :=
    Session.exists_fromInit small fitting (by decide) (Nat.le_refl 131072)
  obtain ⟨store, tracks⟩ := tracks_initial small setUp
  obtain ⟨bytes, isName⟩ := nameBytes_test
  have found : Volume.initial[0]? = some ⟨.dir, rootName, []⟩ := rfl
  obtain ⟨value, session, ran⟩ := tracks.create_returns Volume.small_initial found isName
    (by decide) (by decide) (by decide)
  have filing : (Call.create 0 "test.txt").Filing Volume.initial := by
    refine ⟨⟨_, found, rfl⟩, ?_, by simp⟩
    rintro _ _ file written foundFile
    obtain ⟨rfl, rfl⟩ := Prod.mk.inj (Option.some.inj written)
    obtain rfl := Option.some.inj foundFile
    decide
  have answered : start.exec ((Call.create 0 "test.txt").run start.fs) =
      .ok (.handle value) session := by
    rw [Call.run, Session.exec_map, ran]
  have run : Relation.ReflTransGen Adoption (Volume.initial, start, fun _ => [])
      (Volume.initial.after (.create 0 "test.txt"), session,
        (Call.create 0 "test.txt").adopt (fun _ => []) session (.handle value)) :=
    .single (.call _ filing answered)
  have volumeEq : Volume.initial.after (.create 0 "test.txt") = testVolume bytes [] := by
    simp only [Volume.after, isName, found]
    rfl
  obtain ⟨_, -, isNumber, -⟩ := tracks.create found rfl (Nat.zero_le l4Max) ran
  have childrenEq : (Call.create 0 "test.txt").adopt (fun _ => []) session (.handle value) 0 =
      [1] := by
    rw [Call.adopt, Function.update_self, isNumber]
    rfl
  rw [volumeEq] at run
  have root : (testVolume bytes [])[0]? = some ⟨.dir, rootName, appendEntry [] 1⟩ := rfl
  exact ⟨start, session, _, bytes, setUp, run, childrenEq,
    subInodes_lists_children small setUp run root rfl⟩

end Runs

end Canyon.Fs
