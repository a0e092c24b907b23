import Canyon.Fs.Creating
import Canyon.Lib.Race

/-!
# Two creations in one directory

Two calls of `create` on one parent may take their steps in any order. Both entries are there at
the end if neither call reads the parent between the read and the write of the other, and
otherwise the call that writes last removes the entry of the other.
-/

namespace Canyon.Fs

open Canyon.Lib

/-- A file system and two calls of `create` that it serves. -/
structure Pair where
  /-- The file system. -/
  session : Session
  /-- The calls. -/
  calls : Side → Creating

namespace Pair

/-- Both calls are about to start. -/
def start (session : Session) : Pair := ⟨session, fun _ => .start⟩

/-- One call takes its next step, unless it panics there. -/
def turn (parent : Nat) (names : Side → String) (pair : Pair) (side : Side) : Option Pair :=
  match pair.session.exec ((pair.calls side).step pair.session.fs parent (names side)) with
  | .ok call session => some ⟨session, Function.update pair.calls side call⟩
  | .error _ _ => none

/-- The calls take their steps in this order. -/
def run (parent : Nat) (names : Side → String) (schedule : List Side) (pair : Pair) :
    Option Pair :=
  schedule.foldlM (turn parent names) pair

end Pair

/-! ## The two calls together -/

namespace Pair

/-- These are the numbers of the inodes that the calls have made so far. -/
def Numbered (pair : Pair) (numbers : Side → Nat) : Prop :=
  ∀ side pointer, (pair.calls side).pointer = some pointer →
    (pair.session.inodes.heap pointer).inodeNumber = numbers side

/-- The calls have numbers. -/
theorem exists_numbered (pair : Pair) : ∃ numbers, pair.Numbered numbers := by
  refine ⟨fun side => ((pair.calls side).pointer.map fun pointer =>
    (pair.session.inodes.heap pointer).inodeNumber).getD 0, ?_⟩
  intro side pointer isPointer
  simp only [isPointer, Option.map_some, Option.getD_some]

/-- The calls have come this far: the parent has the contents `base` it had in the beginning and
the entries that the register lists, and a call that is to write has read what the register
says. -/
structure Follows (totalBlocks parent : Nat) (origin : Volume) (base : List UInt8) (turns : Turns)
    (register : Register) (pair : Pair) (volume : Volume) (file : File) (marked : Nat → Bool) :
    Prop where
  /-- The session serves the volume. -/
  serves : ∃ extents store, pair.session.Serves totalBlocks volume extents marked store
  /-- The parent. -/
  found : volume[parent]? = some file
  /-- The parent is a directory. -/
  isDir : file.type = .dir
  /-- Files were added only. -/
  grown : origin.length ≤ volume.length
  /-- The register fits the turns. -/
  consistent : Register.Consistent turns register
  /-- The calls have taken their turns. -/
  ranks : ∀ side, (pair.calls side).rank = min 4 (turns.taken side)
  /-- The calls have what they need. -/
  valid : ∀ side, (pair.calls side).Valid parent pair.session.inodes
  /-- The parent has the entries of the register. -/
  contents : ∀ numbers, pair.Numbered numbers →
    file.contents = (register.entries.map numbers).foldl appendEntry base
  /-- A call has read what the register says. -/
  seen : ∀ numbers, pair.Numbered numbers → ∀ side pointer parentPointer number contents,
    pair.calls side = .read pointer parentPointer number contents →
    contents = ((register.seen side).map numbers).foldl appendEntry base
  /-- The inodes of the calls are new. -/
  fresh : ∀ side pointer, (pair.calls side).pointer = some pointer →
    origin.length ≤ (pair.session.inodes.heap pointer).inodeNumber
  /-- The calls have different inodes. -/
  distinct : ∀ side pointer other, (pair.calls side).pointer = some pointer →
    (pair.calls side.other).pointer = some other →
    (pair.session.inodes.heap pointer).inodeNumber ≠ (pair.session.inodes.heap other).inodeNumber

variable {totalBlocks parent : Nat} {origin volume : Volume} {base : List UInt8} {turns : Turns}
  {register : Register} {pair after : Pair} {file : File} {marked : Nat → Bool} {side : Side}
  {names : Side → String}

/-- Before the first turn. -/
theorem follows_start {session : Session} {extents : Nat → Extent} {store : Nat → Block}
    (serves : session.Serves totalBlocks volume extents marked store)
    (found : volume[parent]? = some file) (isDir : file.type = .dir) :
    (start session).Follows totalBlocks parent volume file.contents Turns.none Register.empty
      volume file marked where
  serves := ⟨extents, store, serves⟩
  found := found
  isDir := isDir
  grown := Nat.le_refl _
  consistent := Register.consistent_empty
  ranks := fun _ => rfl
  valid := fun _ => trivial
  contents := fun _ _ => rfl
  seen := fun _ _ _ _ _ _ _ isRead => by cases isRead
  fresh := fun _ _ isPointer => by cases isPointer
  distinct := fun _ _ _ isPointer => by cases isPointer

namespace Follows

variable (follows : pair.Follows totalBlocks parent origin base turns register volume file marked)

include follows

/-- A call that has not returned has taken as many turns as steps. -/
theorem taken_eq {call : Creating} (isCall : pair.calls side = call) (early : call.rank < 4) :
    turns.taken side = call.rank := by
  have rank := follows.ranks side
  rw [isCall] at rank
  omega

/-- The parent has two new entries at most. -/
theorem length_contents_le : file.contents.length ≤ base.length + 22 := by
  obtain ⟨numbers, numbered⟩ := pair.exists_numbered
  have few := follows.consistent.length_entries_le
  have length := length_foldl_appendEntry_le base (register.entries.map numbers)
  rw [follows.contents numbers numbered]
  rw [List.length_map] at length
  omega

/-- The parent never gets shorter, and what a call writes has two new entries at most. -/
theorem length_written {pointer parentPointer number : Nat} {contents : List UInt8}
    (isRead : pair.calls side = .read pointer parentPointer number contents) :
    base.length ≤ file.contents.length ∧
      file.contents.length ≤
        (appendEntry contents (pair.session.inodes.heap pointer).inodeNumber).length ∧
      (appendEntry contents (pair.session.inodes.heap pointer).inodeNumber).length ≤
        base.length + 22 := by
  obtain ⟨numbers, numbered⟩ := pair.exists_numbered
  have ready : turns.taken side = 2 := follows.taken_eq isRead (by simp [Creating.rank])
  have isNumber : (pair.session.inodes.heap pointer).inodeNumber = numbers side :=
    numbered side pointer (by rw [isRead]; rfl)
  have written : appendEntry contents (pair.session.inodes.heap pointer).inodeNumber =
      ((register.seen side ++ [side]).map numbers).foldl appendEntry base := by
    rw [follows.seen numbers numbered side pointer parentPointer number contents isRead, isNumber,
      List.map_append, List.foldl_append]
    rfl
  rw [written, follows.contents numbers numbered]
  refine ⟨?_, ?_, ?_⟩
  · exact @length_foldl_appendEntry_mono base base [] _ (Nat.le_refl _) (Nat.zero_le _)
  · refine length_foldl_appendEntry_mono (Nat.le_refl _) ?_
    simpa using follows.consistent.length_entries_le_seen ready
  · have few : (register.seen side ++ [side]).length ≤ 2 :=
      (follows.consistent.write ready).length_entries_le
    have length := length_foldl_appendEntry_le base ((register.seen side ++ [side]).map numbers)
    rw [List.length_map] at length
    omega

/-- The parent never gets shorter in a turn. -/
theorem length_after {call : Creating} {volumeAfter : Volume} {fileAfter : File}
    {inodesAfter : Inodes}
    (next : Creating.Next parent volume file pair.session.inodes inodesAfter (pair.calls side) call
      volumeAfter fileAfter) :
    base.length ≤ file.contents.length ∧ file.contents.length ≤ fileAfter.contents.length := by
  obtain ⟨numbers, numbered⟩ := pair.exists_numbered
  have longer : base.length ≤ file.contents.length := by
    rw [follows.contents numbers numbered]
    exact @length_foldl_appendEntry_mono base base [] _ (Nat.le_refl _) (Nat.zero_le _)
  refine ⟨longer, ?_⟩
  generalize isCall : pair.calls side = callBefore at next
  cases next with
  | allocate isNumber => exact Nat.le_refl _
  | read => exact Nat.le_refl _
  | write isLonger =>
    rw [isLonger]
    exact (follows.length_written isCall).2.1
  | insert => exact Nat.le_refl _
  | rest => exact Nat.le_refl _

/-- One turn does what the next step of its call is for, unless the device or the inode cache has
no room. -/
theorem stepped (room : base.length + 22 ≤ l4Max) (names : Side → String) (side : Side) :
    match pair.turn parent names side with
    | some after => ∃ call volumeAfter fileAfter markedAfter storeAfter,
        after.calls = Function.update pair.calls side call ∧
        after.session.Backed totalBlocks storeAfter ∧ after.session.fs = pair.session.fs ∧
        Creating.Stepped pair.session.fs totalBlocks parent volume file marked
          pair.session.inodes (pair.calls side) volumeAfter fileAfter markedAfter
          after.session.inodes storeAfter call
    | none => (pair.calls side).Stuck pair.session.fs (names side) volume file marked
        pair.session.inodes := by
  obtain ⟨extents, store, serves⟩ := follows.serves
  have bound := follows.length_contents_le
  have spec := @Creating.wp_step parent totalBlocks (names side) _ _ _ _ _ _ _ _
    serves.represents follows.found (by omega)
    (follows.valid side) ?_
  swap
  · intro pointer parentPointer contents isRead
    obtain ⟨-, longer, short⟩ := follows.length_written isRead
    obtain ⟨-, -, -, -, -, -, -, top⟩ := levelConstants
    exact ⟨by omega, dataBlocks_mono longer⟩
  have outcome := serves.backed.outcome spec
  rw [turn]
  cases ran : pair.session.exec ((pair.calls side).step pair.session.fs parent (names side)) with
  | ok call session =>
    rw [ran] at outcome
    obtain ⟨storeAfter, backed, parts, volumeAfter, fileAfter, markedAfter, stepped⟩ := outcome
    exact ⟨call, volumeAfter, fileAfter, markedAfter, storeAfter, rfl, backed, parts, stepped⟩
  | error error session =>
    rw [ran] at outcome
    exact outcome

section Advance

variable {call : Creating} {volumeAfter : Volume} {fileAfter : File} {markedAfter : Nat → Bool}
  {storeAfter : Nat → Block}
  (calls : after.calls = Function.update pair.calls side call)
  (stepped : Creating.Stepped pair.session.fs totalBlocks parent volume file marked
    pair.session.inodes (pair.calls side) volumeAfter fileAfter markedAfter after.session.inodes
    storeAfter call)

include calls stepped

/-- The inodes of the calls keep their numbers in a turn. -/
theorem numbered {numbers : Side → Nat} (numbered : after.Numbered numbers) :
    pair.Numbered numbers := by
  intro one pointer isPointer
  have owns := (follows.valid one).owns isPointer
  rw [← stepped.keeps.number pointer owns.inUse]
  refine numbered one pointer ?_
  rw [calls]
  by_cases same : one = side
  · rw [same, Function.update_self]
    exact stepped.next.pointer_eq (same ▸ isPointer)
  · rw [Function.update_of_ne same]
    exact isPointer

/-- The inode of a call after a turn: one that it had, with a number that is in the volume, or the
one that was added. -/
theorem pointer_cases {one : Side} {pointer : Nat}
    (isPointer : (after.calls one).pointer = some pointer) :
    ((pair.calls one).pointer = some pointer ∧
      (after.session.inodes.heap pointer).inodeNumber =
        (pair.session.inodes.heap pointer).inodeNumber ∧
      (pair.session.inodes.heap pointer).inodeNumber < volume.length) ∨
    one = side ∧ (after.session.inodes.heap pointer).inodeNumber = volume.length := by
  have old : (pair.calls one).pointer = some pointer →
      (after.session.inodes.heap pointer).inodeNumber =
        (pair.session.inodes.heap pointer).inodeNumber ∧
      (pair.session.inodes.heap pointer).inodeNumber < volume.length := by
    intro had
    obtain ⟨extents, store, serves⟩ := follows.serves
    have owns := (follows.valid one).owns had
    have coherent := serves.represents.coherent
    obtain ⟨entry, found, -⟩ := coherent.entry (coherent.pinned pointer owns.held)
    obtain ⟨inside, -⟩ := List.getElem?_eq_some_iff.mp found
    exact ⟨stepped.keeps.number pointer owns.inUse, inside⟩
  rw [calls] at isPointer
  by_cases same : one = side
  · rw [same, Function.update_self] at isPointer
    rcases stepped.next.pointer_cases isPointer with had | isNew
    · rw [← same] at had
      exact .inl ⟨had, old had⟩
    · exact .inr ⟨same, isNew⟩
  · rw [Function.update_of_ne same] at isPointer
    exact .inl ⟨isPointer, old isPointer⟩

/-- The inodes of the calls stay new and different in a turn. -/
theorem distinct_after : (∀ one pointer, (after.calls one).pointer = some pointer →
      origin.length ≤ (after.session.inodes.heap pointer).inodeNumber) ∧
    ∀ one pointer other, (after.calls one).pointer = some pointer →
      (after.calls one.other).pointer = some other →
      (after.session.inodes.heap pointer).inodeNumber ≠
        (after.session.inodes.heap other).inodeNumber := by
  constructor
  · intro one pointer isPointer
    rcases follows.pointer_cases calls stepped isPointer with ⟨had, same, -⟩ | ⟨-, isNew⟩
    · rw [same]
      exact follows.fresh one pointer had
    · rw [isNew]
      exact follows.grown
  · intro one pointer other isPointer isOther
    rcases follows.pointer_cases calls stepped isPointer with ⟨had, same, inside⟩ | ⟨isSide, isNew⟩
    · rcases follows.pointer_cases calls stepped isOther with ⟨hadOther, sameOther, -⟩ | ⟨-, isNew⟩
      · rw [same, sameOther]
        exact follows.distinct one pointer other had hadOther
      · rw [same, isNew]
        exact Nat.ne_of_lt inside
    · rcases follows.pointer_cases calls stepped isOther with ⟨-, same, inside⟩ | ⟨again, -⟩
      · rw [isNew, same]
        exact Nat.ne_of_gt inside
      · exact absurd (again.trans isSide.symm) one.other_ne

/-- The parent changes as the register does. -/
theorem contents_after {numbers : Side → Nat} (isNumbered : after.Numbered numbers) :
    fileAfter.contents = ((register.turn side (turns.taken side)).entries.map numbers).foldl
      appendEntry base := by
  have before := follows.numbered calls stepped isNumbered
  have isContents := follows.contents numbers before
  have next := stepped.next
  generalize isCall : pair.calls side = callBefore at next
  cases next with
  | allocate isNumber =>
    rw [follows.taken_eq isCall (by simp [Creating.rank])]
    exact isContents
  | read =>
    rw [follows.taken_eq isCall (by simp [Creating.rank])]
    exact isContents
  | @write pointer parentPointer contents longer isLonger =>
    have isNumber : (pair.session.inodes.heap pointer).inodeNumber = numbers side :=
      before side pointer (by rw [isCall]; rfl)
    rw [follows.taken_eq isCall (by simp [Creating.rank])]
    show longer = ((register.seen side ++ [side]).map numbers).foldl appendEntry base
    rw [isLonger, isNumber, follows.seen numbers before side pointer parentPointer parent contents
      isCall, List.map_append, List.foldl_append]
    rfl
  | insert =>
    rw [follows.taken_eq isCall (by simp [Creating.rank])]
    exact isContents
  | rest =>
    have rank := follows.ranks side
    rw [isCall] at rank
    change 4 = min 4 (turns.taken side) at rank
    obtain ⟨more, ready⟩ : ∃ more, turns.taken side = more + 3 :=
      ⟨turns.taken side - 3, by omega⟩
    rw [ready]
    exact isContents

/-- What the calls have read changes as the register does. -/
theorem seen_after {numbers : Side → Nat} (isNumbered : after.Numbered numbers) {one : Side}
    {pointer parentPointer number : Nat} {contents : List UInt8}
    (isRead : after.calls one = .read pointer parentPointer number contents) :
    contents = (((register.turn side (turns.taken side)).seen one).map numbers).foldl
      appendEntry base := by
  have before := follows.numbered calls stepped isNumbered
  rw [calls] at isRead
  by_cases same : one = side
  · rw [same, Function.update_self] at isRead
    have next := stepped.next
    generalize isCall : pair.calls side = callBefore at next
    rw [isRead] at next
    cases next with
    | read =>
      rw [same, follows.taken_eq isCall (by simp [Creating.rank])]
      show _ = ((Function.update register.seen side register.entries side).map numbers).foldl
        appendEntry base
      rw [Function.update_self]
      exact follows.contents numbers before
  · rw [Function.update_of_ne same] at isRead
    rw [register.seen_turn_of_ne same]
    exact follows.seen numbers before one pointer parentPointer number contents isRead

/-- A turn leaves the calls one turn further. -/
theorem advance (backed : after.session.Backed totalBlocks storeAfter)
    (parts : after.session.fs = pair.session.fs) :
    after.Follows totalBlocks parent origin base (turns.take side)
      (register.turn side (turns.taken side)) volumeAfter fileAfter markedAfter := by
  obtain ⟨found, type, grown⟩ := stepped.next.found follows.found
  obtain ⟨fresh, distinct⟩ := follows.distinct_after calls stepped
  obtain ⟨extents, rep⟩ := stepped.represents
  refine ⟨⟨extents, storeAfter, backed, parts ▸ rep⟩, found, type.trans follows.isDir,
    Nat.le_trans follows.grown grown, follows.consistent.turn side, ?_, ?_,
    fun numbers isNumbered => follows.contents_after calls stepped isNumbered,
    fun numbers isNumbered one pointer parentPointer number contents =>
      follows.seen_after calls stepped isNumbered, fresh, distinct⟩
  · intro one
    rw [calls]
    rcases Side.eq_or_eq_other one side with rfl | rfl
    · have rank := follows.ranks one
      rw [Function.update_self, Turns.taken_take_self, stepped.next.rank_eq, rank]
      omega
    · rw [Function.update_of_ne side.other_ne, Turns.taken_take_other]
      exact follows.ranks side.other
  · intro one
    rw [calls]
    rcases Side.eq_or_eq_other one side with rfl | rfl
    · rw [Function.update_self]
      exact stepped.valid
    · rw [Function.update_of_ne side.other_ne]
      exact (follows.valid side.other).keeps stepped.keeps

end Advance

end Follows

/-- A run leaves the calls as many turns further. -/
theorem Follows.run
    (follows : pair.Follows totalBlocks parent origin base turns register volume file marked)
    (room : base.length + 22 ≤ l4Max) {schedule : List Side}
    (ran : pair.run parent names schedule = some after) :
    ∃ registerAfter volumeAfter fileAfter markedAfter, after.Follows totalBlocks parent origin
      base (schedule.foldl Turns.take turns) registerAfter volumeAfter fileAfter markedAfter := by
  induction schedule generalizing pair turns register volume file marked with
  | nil =>
    obtain rfl := Option.some.inj ran
    exact ⟨_, _, _, _, follows⟩
  | cons side rest ih =>
    rw [Pair.run, List.foldlM_cons] at ran
    have stepped := follows.stepped room names side
    cases turned : pair.turn parent names side with
    | none =>
      rw [turned] at ran
      contradiction
    | some middle =>
      rw [turned] at ran stepped
      obtain ⟨call, volumeAfter, fileAfter, markedAfter, storeAfter, calls, backed, parts,
        stepped⟩ := stepped
      exact ih (follows.advance calls stepped backed parts) ran

/-- When both calls have returned, the directory lists its earlier children, and the new inodes
too unless the reads and writes overlapped. -/
theorem Follows.listing_iff
    (follows : pair.Follows totalBlocks parent origin base turns register volume file marked)
    (listable : Cafs.Listable .dir base)
    (there : ∀ child ∈ Cafs.listing .dir base, child < origin.length) {pointers : Side → Nat}
    (returned : ∀ side, pair.calls side = .returned (pointers side)) :
    Cafs.Listable .dir file.contents ∧
      Cafs.listing .dir base ⊆ Cafs.listing .dir file.contents ∧
      ((∀ side, (pair.session.inodes.heap (pointers side)).inodeNumber ∈
          Cafs.listing .dir file.contents) ↔ turns.overlapped = false) := by
  have isPointer : ∀ side, (pair.calls side).pointer = some (pointers side) := by
    intro side
    rw [returned side]
    rfl
  obtain ⟨numbers, numbered⟩ := pair.exists_numbered
  have isNumber : ∀ side, (pair.session.inodes.heap (pointers side)).inodeNumber =
      numbers side := fun side => numbered side (pointers side) (isPointer side)
  have finished : ∀ side, 3 ≤ turns.taken side := by
    intro side
    have rank := follows.ranks side
    rw [returned side] at rank
    change 4 = min 4 (turns.taken side) at rank
    omega
  have narrow : ∀ child ∈ register.entries.map numbers, child < 2 ^ 64 := by
    intro child childIn
    obtain ⟨side, -, rfl⟩ := List.mem_map.mp childIn
    obtain ⟨extents, store, serves⟩ := follows.serves
    have coherent := serves.represents.coherent
    have owns := (follows.valid side).owns (isPointer side)
    obtain ⟨entry, found, -⟩ := coherent.entry (coherent.pinned _ owns.held)
    obtain ⟨inside, -⟩ := List.getElem?_eq_some_iff.mp found
    obtain ⟨-, inodeArea, dataBitmap, dataArea, within, wide⟩ := serves.represents.geometry
    have counted := serves.represents.holds.counted
    rw [isNumber] at inside
    omega
  obtain ⟨longer, listed⟩ := Cafs.listing_foldl_appendEntry listable narrow
  rw [← follows.contents numbers numbered] at longer listed
  refine ⟨longer, listed ▸ List.subset_append_left _ _, ?_⟩
  rw [← follows.consistent.listed_iff finished, listed]
  constructor
  · intro all side
    rcases List.mem_append.mp (all side) with old | new
    · have := there _ old
      have := follows.fresh side _ (isPointer side)
      omega
    · obtain ⟨one, oneIn, same⟩ := List.mem_map.mp new
      rcases Side.eq_or_eq_other one side with rfl | rfl
      · exact oneIn
      · rw [← isNumber] at same
        exact absurd same.symm
          (follows.distinct side _ _ (isPointer side) (isPointer side.other))
  · intro all side
    rw [isNumber]
    exact List.mem_append_right _ (List.mem_map_of_mem (all side))

/-- What `sub_inodes` gives when both calls have returned. -/
theorem Follows.listed
    (follows : pair.Follows totalBlocks parent origin base turns register volume file marked)
    (room : base.length + 22 ≤ l4Max) (listable : Cafs.Listable .dir base)
    (there : ∀ child ∈ Cafs.listing .dir base, child < origin.length) {pointers : Side → Nat}
    (returned : ∀ side, pair.calls side = .returned (pointers side)) :
    match pair.session.exec (pair.session.fs.subInodes parent) with
    | .ok numbers _ => Cafs.listing .dir base ⊆ numbers ∧
        ((∀ side, (pair.session.inodes.heap (pointers side)).inodeNumber ∈ numbers) ↔
          turns.overlapped = false)
    | .error error _ => error = .runOutOfInodeCache ∧
        pair.session.inodes.queue.length = inodeCacheSize := by
  obtain ⟨extents, store, serves⟩ := follows.serves
  obtain ⟨isListable, old, new⟩ := follows.listing_iff listable there returned
  obtain ⟨record, -, placed⟩ := serves.represents.holds.placed parent file follows.found
  have bound := follows.length_contents_le
  have bytes : (pair.session.fs.inodeOf parent file (extents parent)).bytesOn store =
      file.contents := placed.bytesOn_eq (by omega)
  have spec : FsM.wp (Prog.deviceRules totalBlocks) (pair.session.fs.subInodes parent)
      pair.session.inodes (fun numbers _ _ => numbers = Cafs.listing .dir file.contents)
      (fun error _ => error = .runOutOfInodeCache ∧
        pair.session.inodes.queue.length = inodeCacheSize) store := by
    refine Cafs.wp_subInodes serves.represents follows.found ?_ ?_ ?_
    · intro pointer looked isLooked _
      rw [bytes, follows.isDir]
    · intro _ stuck
      exact ⟨rfl, (Inodes.substitute_error stuck).2.1⟩
    · intro malformed
      rw [bytes, follows.isDir] at malformed
      exact absurd isListable malformed
  have outcome := serves.backed.outcome spec
  cases ran : pair.session.exec (pair.session.fs.subInodes parent) with
  | ok numbers reached =>
    rw [ran] at outcome
    obtain ⟨_, -, -, isListing⟩ := outcome
    rw [isListing]
    exact ⟨old, new⟩
  | error error reached =>
    rw [ran] at outcome
    exact outcome

/-! ## Room for both calls -/

/-- A file system with room for two calls of `create`: in the inode cache, for inodes, for the
blocks of the directory, and with names that are short enough. -/
structure Roomy (session : Session) (volume : Volume) (base : List UInt8) (marked : Nat → Bool)
    (names : Side → String) : Prop where
  /-- The inode cache has room for the entries that the steps may add. -/
  queue : session.inodes.queue.length + 8 ≤ inodeCacheSize
  /-- Two inodes are free. -/
  inodes : volume.length + 2 ≤ session.fs.inodeBitmap.totalCount
  /-- The blocks are free by which the directory may grow. -/
  blocks : session.fs.dataBitmap.used marked + Cafs.growth base.length (base.length + 22) ≤
    session.fs.dataBitmap.totalCount
  /-- The names fit. -/
  names : ∀ side, nameBytes (utf8Bytes (names side)) ≠ none

/-- What the calls have taken so far. -/
structure Spent (session : Session) (origin : Volume) (base : List UInt8) (initial : Nat → Bool)
    (pair : Pair) (volume : Volume) (file : File) (marked : Nat → Bool) : Prop where
  /-- The parts of the device stay. -/
  parts : pair.session.fs = session.fs
  /-- A step adds one entry at most. -/
  queue : pair.session.inodes.queue.length ≤
    session.inodes.queue.length + (pair.calls .first).rank + (pair.calls .second).rank
  /-- A call adds one inode. -/
  inodes : volume.length ≤
    origin.length + min 1 (pair.calls .first).rank + min 1 (pair.calls .second).rank
  /-- The directory has grown by its blocks. -/
  blocks : session.fs.dataBitmap.used marked =
    session.fs.dataBitmap.used initial + Cafs.growth base.length file.contents.length

section Room

variable {session : Session} {initial : Nat → Bool}
  (follows : pair.Follows totalBlocks parent origin base turns register volume file marked)
  (spent : pair.Spent session origin base initial volume file marked)

include follows spent

/-- A turn takes no more than its step does. -/
theorem Spent.advance {call : Creating} {volumeAfter : Volume} {fileAfter : File}
    {markedAfter : Nat → Bool} {storeAfter : Nat → Block}
    (calls : after.calls = Function.update pair.calls side call)
    (parts : after.session.fs = pair.session.fs)
    (stepped : Creating.Stepped pair.session.fs totalBlocks parent volume file marked
      pair.session.inodes (pair.calls side) volumeAfter fileAfter markedAfter after.session.inodes
      storeAfter call) :
    after.Spent session origin base initial volumeAfter fileAfter markedAfter := by
  have rank := stepped.next.rank_eq
  have queue := stepped.queue
  have oldQueue := spent.queue
  have oldInodes := spent.inodes
  have added := stepped.next.length_le
  have own : after.calls side = call := by rw [calls, Function.update_self]
  have same : after.calls side.other = pair.calls side.other := by
    rw [calls, Function.update_of_ne side.other_ne]
  refine ⟨parts.trans spent.parts, ?_, ?_, ?_⟩
  · cases side <;> simp only [Side.other] at own same <;> rw [own, same] <;> omega
  · cases side <;> simp only [Side.other] at own same <;> rw [own, same] <;> omega
  · have used := stepped.used
    obtain ⟨longer, longest⟩ := follows.length_after stepped.next
    rw [spent.parts] at used
    rw [used, spent.blocks, Nat.add_assoc, Cafs.growth_add longer longest]

/-- No step is stuck while there is room. -/
theorem Spent.not_stuck (roomy : Roomy session origin base initial names) (side : Side) :
    ¬(pair.calls side).Stuck pair.session.fs (names side) volume file marked
      pair.session.inodes := by
  intro stuck
  have queue := spent.queue
  have inodes := spent.inodes
  have enough := roomy.queue
  have ranks : (pair.calls .first).rank ≤ 4 ∧ (pair.calls .second).rank ≤ 4 := by
    rw [follows.ranks, follows.ranks]
    omega
  have early : (pair.calls side).rank < 4 → pair.session.inodes.queue.length ≠ inodeCacheSize := by
    intro early
    cases side <;> omega
  generalize isCall : pair.calls side = call at stuck early
  cases call with
  | start =>
    rcases stuck with none | long | full
    · have free := roomy.inodes
      have rank : (pair.calls side).rank = 0 := by rw [isCall]; rfl
      rw [spent.parts] at none
      cases side <;> omega
    · exact roomy.names side long
    · exact early (by simp [Creating.rank]) full
  | allocated pointer => exact early (by simp [Creating.rank]) stuck
  | read pointer parentPointer number contents =>
    rcases stuck with full | none
    · exact early (by simp [Creating.rank]) full
    · obtain ⟨longer, longest, short⟩ := follows.length_written isCall
      have free := roomy.blocks
      have whole := Cafs.growth_add longer longest
      have most := Cafs.growth_mono base.length short
      rw [spent.parts, spent.blocks] at none
      omega
  | wrote pointer parentPointer => exact early (by simp [Creating.rank]) stuck
  | returned pointer => exact stuck

/-- With room for both, the calls take their steps in any order. -/
theorem Spent.exists_run (roomy : Roomy session origin base initial names)
    (room : base.length + 22 ≤ l4Max) (schedule : List Side) :
    ∃ after registerAfter volumeAfter fileAfter markedAfter,
      pair.run parent names schedule = some after ∧
      after.Follows totalBlocks parent origin base (schedule.foldl Turns.take turns)
        registerAfter volumeAfter fileAfter markedAfter ∧
      after.Spent session origin base initial volumeAfter fileAfter markedAfter := by
  induction schedule generalizing pair turns register volume file marked with
  | nil => exact ⟨pair, register, volume, file, marked, rfl, follows, spent⟩
  | cons side rest ih =>
    rw [Pair.run, List.foldlM_cons]
    have stepped := follows.stepped room names side
    cases turned : pair.turn parent names side with
    | none =>
      rw [turned] at stepped
      exact absurd stepped (spent.not_stuck follows roomy side)
    | some middle =>
      rw [turned] at stepped
      obtain ⟨call, volumeAfter, fileAfter, markedAfter, storeAfter, calls, backed, parts,
        stepped⟩ := stepped
      exact ih (follows.advance calls stepped backed parts)
        (spent.advance follows calls parts stepped)

end Room

end Pair

/-- A call that has taken all its steps has returned. -/
theorem Creating.exists_returned {call : Creating} (done : call.rank = 4) :
    ∃ pointer, call = .returned pointer := by
  cases call with
  | start | allocated | read | wrote => simp [rank] at done
  | returned pointer => exact ⟨pointer, rfl⟩

/-- What `sub_inodes` has returned is what the contents list. -/
theorem Session.Serves.listing_of_subInodes {session before : Session} {totalBlocks : Nat}
    {volume : Volume} {extents : Nat → Extent} {marked : Nat → Bool} {store : Nat → Block}
    (serves : session.Serves totalBlocks volume extents marked store) {parent : Nat} {file : File}
    (found : volume[parent]? = some file) (isDir : file.type = .dir)
    (bound : file.contents.length ≤ l4Max) {children : List Nat}
    (ran : session.exec (session.fs.subInodes parent) = .ok children before) :
    Cafs.Listable .dir file.contents ∧ Cafs.listing .dir file.contents = children := by
  obtain ⟨record, -, placed⟩ := serves.represents.holds.placed parent file found
  have bytes : (session.fs.inodeOf parent file (extents parent)).bytesOn store =
      file.contents := placed.bytesOn_eq bound
  have spec : FsM.wp (Prog.deviceRules totalBlocks) (session.fs.subInodes parent) session.inodes
      (fun children _ _ => Cafs.Listable .dir file.contents ∧
        Cafs.listing .dir file.contents = children) (fun _ _ => True) store := by
    refine Cafs.wp_subInodes serves.represents found (fun pointer looked _ listable => ?_)
      (fun _ _ => trivial) fun _ => trivial
    rw [bytes, isDir] at listable ⊢
    exact ⟨listable, rfl⟩
  obtain ⟨_, -, -, listed⟩ := serves.backed.returned spec ran
  exact listed

/-- Two calls of `create` on one directory of a mounted device take their steps in some order, and
both return. Then `sub_inodes` returns the earlier children and the two new inodes if and only if
neither call read the directory between the read and the write of the other. -/
theorem concurrent_creates_listed_iff {device : Disk} {totalBlocks inodeBitmapBlocks : Nat}
    {volume : Volume} {session before : Session} (small : totalBlocks < 2 ^ 64)
    (mounted : Mounted device totalBlocks inodeBitmapBlocks volume session) {parent : Nat}
    {file : File} (found : volume[parent]? = some file) (isDir : file.type = .dir)
    (room : file.contents.length + 22 ≤ l4Max) {children : List Nat}
    (listed : session.exec (session.fs.subInodes parent) = .ok children before)
    (there : ∀ child ∈ children, child < volume.length) {names : Side → String}
    {schedule : List Side} {pair : Pair}
    (ran : (Pair.start session).run parent names schedule = some pair) {pointers : Side → Nat}
    (returned : ∀ side, pair.calls side = .returned (pointers side)) :
    match pair.session.exec (pair.session.fs.subInodes parent) with
    | .ok numbers _ => (children ⊆ numbers ∧
        ∀ side, (pair.session.inodes.heap (pointers side)).inodeNumber ∈ numbers) ↔
          overlaps schedule = false
    | .error error _ => error = .runOutOfInodeCache ∧
        pair.session.inodes.queue.length = inodeCacheSize := by
  obtain ⟨-, -, extents, marked, store, serves⟩ := mounted.serves small
  obtain ⟨listable, rfl⟩ := serves.listing_of_subInodes found isDir (by omega) listed
  obtain ⟨register, volumeAfter, fileAfter, markedAfter, follows⟩ :=
    (Pair.follows_start serves found isDir).run room ran
  have outcome := follows.listed room listable there returned
  cases again : pair.session.exec (pair.session.fs.subInodes parent) with
  | ok numbers reached =>
    rw [again] at outcome
    exact ⟨fun both => outcome.2.mp both.2, fun apart => ⟨outcome.1, outcome.2.mpr apart⟩⟩
  | error error reached =>
    rw [again] at outcome
    exact outcome

/-- The names of two new files. -/
def testNames : Side → String
  | .first => "a"
  | .second => "b"

/-- On a device just set up, two calls of `create` return in any order of their steps, and
`sub_inodes` of the root returns too. -/
theorem exists_concurrent_creates {schedule : List Side}
    (complete : ∀ side, 4 ≤ (schedule.foldl Turns.take Turns.none).taken side) :
    ∃ session before pair, ∃ pointers : Side → Nat, ∃ numbers reached,
      Mounted (Disk.new 131072) 131072 2 Volume.initial session ∧
      session.exec (session.fs.subInodes 0) = .ok [] before ∧
      (Pair.start session).run 0 testNames schedule = some pair ∧
      (∀ side, pair.calls side = .returned (pointers side)) ∧
      pair.session.exec (pair.session.fs.subInodes 0) = .ok numbers reached ∧
      ((∀ side, (pair.session.inodes.heap (pointers side)).inodeNumber ∈ numbers) ↔
        overlaps schedule = false) := by
  have small : 131072 < 2 ^ 64 := by decide
  obtain ⟨session, setUp⟩ := @Session.exists_fromInit 131072 (Disk.new 131072) 2 small
    ⟨by decide, by decide⟩ (show 0 < 2 by decide) (Nat.le_refl _)
  obtain ⟨parts, inodesEq, -, store, serves, -⟩ := Session.serves_of_fromInit small setUp
  have found : Volume.initial[0]? = some ⟨.dir, rootName, []⟩ := rfl
  have queue : session.inodes.queue.length = 1 := by rw [inodesEq]; rfl
  have roomy : Pair.Roomy session Volume.initial [] (fun _ => false) testNames := by
    refine ⟨?_, ?_, ?_, ?_⟩
    · rw [queue]
      decide
    · rw [parts]
      decide
    · have unused : session.fs.dataBitmap.used (fun _ => false) = 0 := by simp [Bitmap.used]
      rw [unused, parts]
      decide
    · intro side none
      obtain ⟨bytes, isName⟩ :=
        (nameBytes_eq_some_iff (utf8Bytes (testNames side))).mpr (by cases side <;> decide)
      exact absurd (none.symm.trans isName) (by simp)
  have spent : (Pair.start session).Spent session Volume.initial [] (fun _ => false)
      Volume.initial ⟨.dir, rootName, []⟩ (fun _ => false) :=
    ⟨rfl, Nat.le_refl _, Nat.le_refl _, by rw [List.length_nil, Cafs.growth_self]; rfl⟩
  obtain ⟨pair, register, volume, file, marked, ran, follows, spentAfter⟩ :=
    spent.exists_run (Pair.follows_start serves found rfl) roomy (by decide) schedule
  have done : ∀ side, (pair.calls side).rank = 4 := by
    intro side
    have rank := follows.ranks side
    have many := complete side
    omega
  have finished : ∀ side, ∃ pointer, pair.calls side = .returned pointer :=
    fun side => Creating.exists_returned (done side)
  choose pointers returned using finished
  have outcome := follows.listed (by decide) (fun _ some => absurd rfl some)
    (fun child childIn => absurd childIn (by simp [Cafs.listing])) returned
  obtain ⟨_, tracks⟩ := tracks_initial small setUp
  obtain ⟨before, isListed⟩ := serves.lists found rfl (by decide)
    (show [] = directoryBytes [] from rfl) (by simp)
    fun absent => absurd absent (tracks.find_ne_none tracks.rooted)
  cases again : pair.session.exec (pair.session.fs.subInodes 0) with
  | ok numbers reached =>
    rw [again] at outcome
    exact ⟨session, before, pair, pointers, numbers, reached, .init setUp, isListed, ran, returned,
      again, outcome.2⟩
  | error error reached =>
    rw [again] at outcome
    have few := spentAfter.queue
    rw [done, done, queue, outcome.2] at few
    exact absurd few (by decide)

/-- One call after the other: both new files are in the root directory. -/
theorem concurrent_creates_listed_iff_serial : ∃ session before pair,
    ∃ pointers : Side → Nat, ∃ numbers reached,
      Mounted (Disk.new 131072) 131072 2 Volume.initial session ∧
      session.exec (session.fs.subInodes 0) = .ok [] before ∧
      (Pair.start session).run 0 testNames
        [.first, .first, .first, .first, .second, .second, .second, .second] = some pair ∧
      (∀ side, pair.calls side = .returned (pointers side)) ∧
      pair.session.exec (pair.session.fs.subInodes 0) = .ok numbers reached ∧
      ∀ side, (pair.session.inodes.heap (pointers side)).inodeNumber ∈ numbers := by
  obtain ⟨session, before, pair, pointers, numbers, reached, mounted, listed, ran, returned, again,
    -⟩ := @exists_concurrent_creates
      [.first, .first, .first, .first, .second, .second, .second, .second] (by decide)
  have found : Volume.initial[0]? = some ⟨.dir, rootName, []⟩ := rfl
  have outcome := concurrent_creates_listed_iff (by decide) mounted found rfl (by decide) listed
    (by simp) ran returned
  rw [again] at outcome
  exact ⟨session, before, pair, pointers, numbers, reached, mounted, listed, ran, returned, again,
    (outcome.mpr (by decide)).2⟩

/-- Both calls read the root directory before either writes it: one of the new files is in no
directory. -/
theorem concurrent_create_loses_entry : ∃ session pair,
    ∃ pointers : Side → Nat, ∃ numbers reached side,
      Mounted (Disk.new 131072) 131072 2 Volume.initial session ∧
      (Pair.start session).run 0 testNames
        [.first, .second, .first, .second, .first, .second, .first, .second] = some pair ∧
      (∀ side, pair.calls side = .returned (pointers side)) ∧
      pair.session.exec (pair.session.fs.subInodes 0) = .ok numbers reached ∧
      (pair.session.inodes.heap (pointers side)).inodeNumber ∉ numbers := by
  obtain ⟨session, before, pair, pointers, numbers, reached, mounted, -, ran, returned, again,
    both⟩ := @exists_concurrent_creates
      [.first, .second, .first, .second, .first, .second, .first, .second] (by decide)
  have lost : ¬∀ side, (pair.session.inodes.heap (pointers side)).inodeNumber ∈ numbers := by
    rw [both]
    decide
  obtain ⟨side, missing⟩ := not_forall.mp lost
  exact ⟨session, pair, pointers, numbers, reached, side, mounted, ran, returned, again, missing⟩

end Canyon.Fs
