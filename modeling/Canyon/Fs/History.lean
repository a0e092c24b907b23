import Canyon.Fs.Runs

/-!
# Histories

The volume that a sequence of calls is meant to leave, computed from the calls alone, and the
invariant that ties it to the session in which the calls were made.
-/

namespace Canyon.Fs

open Canyon.Lib

namespace Call

/-- The write that a call makes: `create` rewrites the parent with one more entry. -/
def written (volume : Volume) : Call → Option (Nat × List UInt8)
  | .create parent _ => volume[parent]?.map fun file =>
      (parent, appendEntry file.contents volume.length)
  | .write inodeNumber contents => some (inodeNumber, contents)
  | _ => none

/-- The inodes that a call names are there, and a parent is a directory. -/
def Addressed (volume : Volume) : Call → Prop
  | .create parent _ => ∃ file, volume[parent]? = some file ∧ file.type = .dir
  | .write inodeNumber _ => inodeNumber < volume.length
  | .inode inodeNumber => inodeNumber < volume.length
  | .subInodes inodeNumber => inodeNumber < volume.length
  | _ => True

/-- No write is longer than a file can be. -/
def Bounded (volume : Volume) (call : Call) : Prop :=
  ∀ number contents, call.written volume = some (number, contents) → contents.length ≤ l4Max

/-- No write lowers the number of data blocks of its file. -/
def Keeping (volume : Volume) (call : Call) : Prop :=
  ∀ number contents file, call.written volume = some (number, contents) →
    volume[number]? = some file → dataBlocks file.contents.length ≤ dataBlocks contents.length

/-- The calls of an orderly user: every write, those of `create` included, is one that a tree
can describe and takes no data block from its file. -/
def Tidy (volume : Volume) (call : Call) : Prop :=
  call.Addressed volume ∧ call.Bounded volume ∧ call.Keeping volume

end Call

/-- The trees can describe all files. -/
def Volume.Small (volume : Volume) : Prop :=
  ∀ file ∈ volume, file.contents.length ≤ l4Max

/-- The root directory is empty at first. -/
theorem Volume.small_initial : Volume.initial.Small := by
  simp [Volume.Small, Volume.initial]

/-- The volume after a call. -/
def Volume.after (volume : Volume) : Call → Volume
  | .create parent name =>
    match nameBytes (utf8Bytes name), volume[parent]? with
    | some bytes, some file =>
      (volume.add .file bytes).write parent (appendEntry file.contents volume.length)
    | _, _ => volume
  | .write inodeNumber contents => volume.write inodeNumber contents
  | _ => volume

/-- One call that returns, and the volume it is meant to leave. -/
inductive Advance (allowed : Volume → Call → Prop) : Volume × Session → Volume × Session → Prop
    where
  /-- The call was allowed and returned. -/
  | call {volume : Volume} {session after : Session} {answer : Answer} (call : Call)
      (isAllowed : allowed volume call)
      (ran : session.exec (call.run session.fs) = .ok answer after) :
      Advance allowed (volume, session) (volume.after call, after)

/-- A run of calls that all return, from a device just set up. -/
def History (allowed : Volume → Call → Prop) (device : Disk) (totalBlocks inodeBitmapBlocks : Nat)
    (volume : Volume) (session : Session) : Prop :=
  ∃ start, Session.fromInit device totalBlocks inodeBitmapBlocks = some start ∧
    Relation.ReflTransGen (Advance allowed) (Volume.initial, start) (volume, session)

/-- The root directory is the only directory. -/
def Volume.OnlyRoot (volume : Volume) : Prop :=
  ∀ number file, volume[number]? = some file → file.type = .dir → number = 0

/-- What ties a session to the volume of its history. -/
structure Tracks (totalBlocks inodeBitmapBlocks : Nat) (volume : Volume) (session : Session)
    (extents : Nat → Extent) (marked : Nat → Bool) (store : Nat → Block) : Prop where
  /-- The session serves the volume. -/
  serves : session.Serves totalBlocks volume extents marked store
  /-- The inode cache holds all inodes. -/
  packed : session.inodes.Packed volume.length
  /-- The root directory is the only directory. -/
  onlyRoot : volume.OnlyRoot
  /-- There is a root directory. -/
  rooted : 0 < volume.length
  /-- The parts of the device are those of `init`. -/
  parts : session.fs = Cafs.parted totalBlocks inodeBitmapBlocks
  /-- The lowest data blocks are in use. -/
  lowest : Bitmap.Lowest marked

section Steps

variable {totalBlocks inodeBitmapBlocks : Nat} {volume : Volume} {session after : Session}
  {extents : Nat → Extent} {marked : Nat → Bool} {store : Nat → Block}

/-- A device just set up. -/
theorem tracks_initial {device : Disk} (small : totalBlocks < 2 ^ 64)
    (start : Session.fromInit device totalBlocks inodeBitmapBlocks = some session) :
    ∃ store, Tracks totalBlocks inodeBitmapBlocks Volume.initial session Extent.none
      (fun _ => false) store := by
  obtain ⟨parts, inodesEq, -, store, serves, -⟩ := Session.serves_of_fromInit small start
  refine ⟨store, serves, ?_, ?_, Nat.zero_lt_one, parts, by simp [Bitmap.Lowest]⟩
  · rw [inodesEq]
    refine ⟨fun number inside => ⟨0, by simp [Cafs.initialInodes], ?_⟩, rfl, ?_⟩
    · obtain rfl : number = 0 := Nat.lt_one_iff.mp inside
      exact congrArg CaInode.inodeNumber (Function.update_self 0 _ Inodes.new.heap)
    · intro pointer pointerIn notRoot
      obtain rfl : pointer = 0 := by simpa [Cafs.initialInodes] using pointerIn
      exact absurd (congrArg CaInode.inodeNumber (Function.update_self 0 _ Inodes.new.heap)) notRoot
  · intro number file found _
    obtain ⟨inside, -⟩ := List.getElem?_eq_some_iff.mp found
    exact Nat.lt_one_iff.mp inside

/-- A write keeps the types of the files. -/
theorem Volume.OnlyRoot.write (onlyRoot : volume.OnlyRoot) (number : Nat)
    (contents : List UInt8) : (volume.write number contents).OnlyRoot := by
  intro other file found isDir
  by_cases same : other = number
  · subst same
    rw [Volume.write, List.getElem?_modify_eq, Option.map_eq_map, Option.map_eq_some_iff] at found
    obtain ⟨old, foundOld, rfl⟩ := found
    exact onlyRoot other old foundOld isDir
  · rw [Volume.getElem?_write_of_ne volume same] at found
    exact onlyRoot other file found isDir

/-- A file added is no directory. -/
theorem Volume.OnlyRoot.add (onlyRoot : volume.OnlyRoot) (name : NameBytes) :
    (volume.add .file name).OnlyRoot := by
  intro other file found isDir
  by_cases last : other = volume.length
  · subst last
    rw [Volume.getElem?_add_self] at found
    obtain rfl := Option.some.inj found
    contradiction
  · obtain ⟨inside, -⟩ := List.getElem?_eq_some_iff.mp found
    rw [Volume.length_add] at inside
    rw [Volume.getElem?_add_of_lt (by omega)] at found
    exact onlyRoot other file found isDir

variable {file : File} {parent : Nat}

/-- `write` in a tracked session. -/
theorem Tracks.write
    (tracks : Tracks totalBlocks inodeBitmapBlocks volume session extents marked store)
    {number : Nat} (found : volume[number]? = some file) {contents : List UInt8}
    (wide : contents.length < 2 ^ 64)
    (keeps : dataBlocks file.contents.length ≤ dataBlocks contents.length) {value : Unit}
    (ran : session.exec (session.fs.write number contents) = .ok value after) :
    ∃ extentsAfter markedAfter storeAfter, Tracks totalBlocks inodeBitmapBlocks
      (volume.write number contents) after extentsAfter markedAfter storeAfter := by
  obtain ⟨inside, -⟩ := List.getElem?_eq_some_iff.mp found
  obtain ⟨pointer, looked, extent, markedAfter, storeAfter, isLooked, rewritten, inodesEq, fsEq,
    servesAfter⟩ := tracks.serves.wrote found wide keeps ran
  obtain ⟨-, rfl⟩ := tracks.packed.looked inside isLooked
  refine ⟨_, _, _, servesAfter, ?_, tracks.onlyRoot.write number contents, ?_,
    fsEq.trans tracks.parts, rewritten.lowest tracks.lowest⟩
  · rw [Volume.length_write, inodesEq]
    exact tracks.packed.congr rfl fun other _ => Inodes.inodeNumber_wrote ..
  · rw [Volume.length_write]
    exact tracks.rooted

/-- `create` extends the contents of a parent that its tree can describe. -/
theorem extended_eq (serves : session.Serves totalBlocks volume extents marked store)
    (found : volume[parent]? = some file) (bound : file.contents.length ≤ l4Max) :
    session.fs.extended store volume extents parent file =
      appendEntry file.contents volume.length := by
  obtain ⟨record, -, placed⟩ := serves.represents.holds.placed parent file found
  rw [Cafs.extended, placed.bytesOn_eq bound]

/-- One more entry does not lower the number of data blocks. -/
theorem keeps_appendEntry (contents : List UInt8) (number : Nat) :
    dataBlocks contents.length ≤ dataBlocks (appendEntry contents number).length := by
  refine dataBlocks_mono ?_
  unfold appendEntry
  split <;> simp

/-- `create` takes no data block from its parent. -/
theorem Call.keeping_create (volume : Volume) (parent : Nat) (name : String) :
    (Call.create parent name).Keeping volume := by
  intro number contents file written found
  obtain ⟨old, foundOld, same⟩ := Option.map_eq_some_iff.mp written
  obtain ⟨rfl, rfl⟩ := Prod.mk.inj same
  obtain rfl := Option.some.inj (found.symm.trans foundOld)
  exact keeps_appendEntry file.contents volume.length

/-- The entry of `create` is one that the tree of its parent can describe. -/
theorem Call.bounded_create {volume : Volume} (found : volume[parent]? = some file)
    (bound : (appendEntry file.contents volume.length).length ≤ l4Max) (name : String) :
    (Call.create parent name).Bounded volume := by
  intro number contents written
  rw [Call.written, found] at written
  obtain ⟨rfl, rfl⟩ := Prod.mk.inj (Option.some.inj written)
  exact bound

/-- `create` in a tracked session. -/
theorem Tracks.create
    (tracks : Tracks totalBlocks inodeBitmapBlocks volume session extents marked store)
    (found : volume[parent]? = some file) (isDir : file.type = .dir)
    (bound : file.contents.length ≤ l4Max) {name : String} {value : Nat}
    (ran : session.exec (session.fs.create parent name) = .ok value after) :
    ∃ bytes, nameBytes (utf8Bytes name) = some bytes ∧
      (after.inodes.heap value).inodeNumber = volume.length ∧
      ∃ extentsAfter markedAfter storeAfter, Tracks totalBlocks inodeBitmapBlocks
        ((volume.add .file bytes).write parent (appendEntry file.contents volume.length)) after
        extentsAfter markedAfter storeAfter := by
  obtain rfl := tracks.onlyRoot parent file found isDir
  have contentsEq := extended_eq tracks.serves found bound
  have keeps := keeps_appendEntry file.contents volume.length
  rw [← contentsEq] at keeps
  obtain ⟨rfl, bytes, extent, markedAfter, storeAfter, isName, isCreated, -, lowest, -, fsEq,
    servesAfter⟩ := tracks.serves.created found keeps ran
  rw [contentsEq] at servesAfter
  refine ⟨bytes, isName, isCreated.inodeNumber_next, _, _, _, servesAfter, ?_,
    (tracks.onlyRoot.add bytes).write _ _, ?_,
    fsEq.trans tracks.parts, lowest tracks.lowest⟩
  · rw [Volume.length_write, Volume.length_add]
    exact tracks.packed.created tracks.serves.represents.coherent rfl rfl tracks.rooted isCreated
  · rw [Volume.length_write, Volume.length_add]
    exact Nat.succ_pos _

/-- A lookup in a tracked session is a hit, and changes handles only. -/
theorem Tracks.quiet (tracks : Tracks totalBlocks inodeBitmapBlocks volume session extents marked
      store) (servesAfter : after.Serves totalBlocks volume extents marked store)
    (queue : after.inodes.queue = session.inodes.queue)
    (heap : after.inodes.heap = session.inodes.heap) (fsEq : after.fs = session.fs) :
    Tracks totalBlocks inodeBitmapBlocks volume after extents marked store :=
  ⟨servesAfter, tracks.packed.congr queue fun _ _ => by rw [heap], tracks.onlyRoot,
    tracks.rooted, fsEq.trans tracks.parts, tracks.lowest⟩

/-- Any call in a tracked session. -/
theorem Tracks.advance (tracks : Tracks totalBlocks inodeBitmapBlocks volume session extents
      marked store) {call : Call} (addressed : call.Addressed volume)
    (keeping : call.Keeping volume)
    (wide : ∀ number contents, call = .write number contents → contents.length < 2 ^ 64)
    (rootSmall : ∀ root, volume[0]? = some root → root.contents.length ≤ l4Max)
    {answer : Answer} (ran : session.exec (call.run session.fs) = .ok answer after) :
    ∃ extentsAfter markedAfter storeAfter, Tracks totalBlocks inodeBitmapBlocks
      (volume.after call) after extentsAfter markedAfter storeAfter := by
  cases call with
  | create parent name =>
    obtain ⟨file, found, isDir⟩ := addressed
    obtain ⟨value, ran, -⟩ := Session.exec_map_ok ran
    have isRoot := tracks.onlyRoot parent file found isDir
    obtain ⟨bytes, isName, -, tracksAfter⟩ :=
      tracks.create found isDir (rootSmall file (isRoot ▸ found)) ran
    simp only [Volume.after, isName, found]
    exact tracksAfter
  | write number contents =>
    obtain ⟨value, ran, -⟩ := Session.exec_map_ok ran
    have found := List.getElem?_eq_getElem addressed
    exact tracks.write found (wide number contents rfl)
      (keeping number contents _ rfl found) ran
  | inode number =>
    obtain ⟨pointer, ran, -⟩ := Session.exec_map_ok ran
    obtain ⟨isLooked, fsEq, servesAfter⟩ :=
      tracks.serves.looked (List.getElem?_eq_getElem addressed) ran
    have inside : number < volume.length := addressed
    obtain ⟨-, hit⟩ := tracks.packed.looked inside isLooked
    exact ⟨_, _, _, tracks.quiet servesAfter (by rw [hit]) (by rw [hit]) fsEq⟩
  | subInodes number =>
    obtain ⟨numbers, ran, -⟩ := Session.exec_map_ok ran
    obtain ⟨pointer, looked, isLooked, inodesEq, fsEq, servesAfter⟩ :=
      tracks.serves.listed (List.getElem?_eq_getElem addressed) ran
    have inside : number < volume.length := addressed
    obtain ⟨-, rfl⟩ := tracks.packed.looked inside isLooked
    exact ⟨_, _, _, tracks.quiet servesAfter (by rw [inodesEq]) (by rw [inodesEq]) fsEq⟩
  | df =>
    obtain ⟨space, ran, -⟩ := Session.exec_map_ok ran
    obtain ⟨inodesEq, fsEq, servesAfter⟩ := tracks.serves.measured ran
    exact ⟨_, _, _, tracks.quiet servesAfter (by rw [inodesEq]) (by rw [inodesEq]) fsEq⟩
  | flush =>
    obtain ⟨value, ran, -⟩ := Session.exec_map_ok ran
    obtain ⟨inodesEq, fsEq, servesAfter⟩ := tracks.serves.flushed ran
    exact ⟨_, _, _, tracks.quiet servesAfter (by rw [inodesEq]) (by rw [inodesEq]) fsEq⟩
  | drop pointer =>
    obtain ⟨value, ran, -⟩ := Session.exec_map_ok ran
    obtain ⟨inodesEq, fsEq, servesAfter⟩ := tracks.serves.dropped ran
    exact ⟨_, _, _, tracks.quiet servesAfter (by rw [inodesEq]) (by rw [inodesEq]) fsEq⟩

/-- A tracked session has few files: their entries fit the inode cache. -/
theorem Tracks.length_le (tracks : Tracks totalBlocks inodeBitmapBlocks volume session extents
      marked store) : volume.length ≤ 16 := by
  have bounded : session.inodes.queue.length ≤ 32 := tracks.serves.represents.coherent.bounded
  have length := tracks.packed.length
  omega

end Steps

variable {allowed : Volume → Call → Prop} {device : Disk} {totalBlocks inodeBitmapBlocks : Nat}
  {volume : Volume} {session : Session}

/-- A history is tracked throughout, with what its calls keep true of the volume. -/
theorem History.tracks (small : totalBlocks < 2 ^ 64) (invariant : Volume → Prop)
    (initial : invariant Volume.initial)
    (rootSmall : ∀ volume, invariant volume → volume.length ≤ 16 →
      ∀ root, volume[0]? = some root → root.contents.length ≤ l4Max)
    (step : ∀ volume call, allowed volume call → invariant volume → volume.OnlyRoot →
      call.Addressed volume ∧ call.Keeping volume ∧
        (∀ number contents, call = .write number contents → contents.length < 2 ^ 64) ∧
        invariant (volume.after call))
    (history : History allowed device totalBlocks inodeBitmapBlocks volume session) :
    invariant volume ∧ ∃ extents marked store,
      Tracks totalBlocks inodeBitmapBlocks volume session extents marked store := by
  obtain ⟨start, setUp, run⟩ := history
  suffices tracked : ∀ pair, Relation.ReflTransGen (Advance allowed) (Volume.initial, start) pair →
      invariant pair.1 ∧ ∃ extents marked store,
        Tracks totalBlocks inodeBitmapBlocks pair.1 pair.2 extents marked store from
    tracked _ run
  intro pair run
  induction run with
  | refl =>
    obtain ⟨store, tracks⟩ := tracks_initial small setUp
    exact ⟨initial, _, _, _, tracks⟩
  | tail _ advance ih =>
    cases advance with
    | call call isAllowed ran =>
      obtain ⟨holds, extents, marked, store, tracks⟩ := ih
      obtain ⟨addressed, keeping, wide, next⟩ := step _ call isAllowed holds tracks.onlyRoot
      exact ⟨next, tracks.advance addressed keeping wide
        (rootSmall _ holds tracks.length_le) ran⟩

/-- A run under stricter rules is one under laxer rules. -/
theorem History.mono {laxer : Volume → Call → Prop}
    (history : History allowed device totalBlocks inodeBitmapBlocks volume session)
    (implies : ∀ volume call, allowed volume call → laxer volume call) :
    History laxer device totalBlocks inodeBitmapBlocks volume session := by
  obtain ⟨start, setUp, run⟩ := history
  refine ⟨start, setUp, Relation.ReflTransGen.mono (fun _ _ advance => ?_) _ _ run⟩
  cases advance with
  | call call isAllowed ran => exact .call call (implies _ _ isAllowed) ran

/-- One more call of a run. -/
theorem History.snoc {after : Session}
    (history : History allowed device totalBlocks inodeBitmapBlocks volume session) {call : Call}
    (isAllowed : allowed volume call) {answer : Answer}
    (ran : session.exec (call.run session.fs) = .ok answer after) :
    History allowed device totalBlocks inodeBitmapBlocks (volume.after call) after := by
  obtain ⟨start, setUp, run⟩ := history
  exact ⟨start, setUp, run.tail (.call call isAllowed ran)⟩

/-- A write that the tree can describe keeps the files small. -/
theorem Volume.Small.write (small : volume.Small) (number : Nat) {contents : List UInt8}
    (bound : contents.length ≤ l4Max) : (volume.write number contents).Small := by
  intro file fileIn
  obtain ⟨place, found⟩ := List.mem_iff_getElem?.mp fileIn
  by_cases same : place = number
  · subst same
    rw [Volume.write, List.getElem?_modify_eq, Option.map_eq_map, Option.map_eq_some_iff] at found
    obtain ⟨old, -, rfl⟩ := found
    exact bound
  · rw [Volume.getElem?_write_of_ne volume same] at found
    exact small file (List.mem_of_getElem? found)

/-- A file added is small. -/
theorem Volume.Small.add (small : volume.Small) (type : InodeType) (name : NameBytes) :
    (volume.add type name).Small := by
  intro file fileIn
  rcases List.mem_append.mp fileIn with old | new
  · exact small file old
  · rw [List.mem_singleton.mp new]
    exact Nat.zero_le l4Max

/-- Bounded writes keep the files small. -/
theorem Volume.Small.after (small : volume.Small) {call : Call} (bounded : call.Bounded volume) :
    (volume.after call).Small := by
  cases call with
  | create parent name =>
    cases isName : nameBytes (utf8Bytes name) with
    | none => simpa only [Volume.after, isName] using small
    | some bytes =>
      cases found : volume[parent]? with
      | none => simpa only [Volume.after, isName, found] using small
      | some file =>
        simp only [Volume.after, isName, found]
        refine (small.add .file bytes).write parent (bounded parent _ ?_)
        simp only [Call.written, found, Option.map_some]
  | write number contents => exact small.write number (bounded number contents rfl)
  | inode | subInodes | df | flush | drop => exact small

/-- A run of tidy calls is tracked, and its files are small. -/
theorem History.tidy (small : totalBlocks < 2 ^ 64)
    (history : History Call.Tidy device totalBlocks inodeBitmapBlocks volume session) :
    volume.Small ∧ ∃ extents marked store,
      Tracks totalBlocks inodeBitmapBlocks volume session extents marked store := by
  refine history.tracks small Volume.Small Volume.small_initial ?_ ?_
  · intro volume isSmall _ root found
    exact isSmall root (List.mem_of_getElem? found)
  · rintro volume call ⟨addressed, bounded, keeping⟩ isSmall _
    refine ⟨addressed, keeping, ?_, isSmall.after bounded⟩
    rintro number contents rfl
    have bound := bounded number contents rfl
    obtain ⟨-, -, -, -, -, -, -, top⟩ := levelConstants
    omega

end Canyon.Fs
