import Canyon.Fs.Coherence
import Canyon.Fs.Image

/-!
# The descent of a mount

`VFS::new` follows the entries of the root directory, and `read_sub_dentry` calls itself for each
of them with nothing to stop it but the entries themselves. The descent ends on every image whose
directories have no cycle below the root; on one whose root lists itself it does not.
-/

namespace Canyon.Fs

open Canyon.Lib
open EStateM (Result)

/-- Where finitely many places are within reach of one and no step leads back, every descent
ends. -/
theorem acc_of_acyclic {place : Type} {step : place → place → Prop} {start : place}
    (finite : {reached | Relation.ReflTransGen step start reached}.Finite)
    (acyclic : ∀ reached, Relation.ReflTransGen step start reached →
      ¬Relation.TransGen step reached reached) :
    Acc (fun later earlier => step earlier later) start := by
  have isFinite : Finite {reached // Relation.ReflTransGen step start reached} := finite
  let below (later earlier : {reached // Relation.ReflTransGen step start reached}) : Prop :=
    Relation.TransGen step earlier.1 later.1
  have isTrans : IsTrans _ below := ⟨fun _ _ _ first second => second.trans first⟩
  have isIrrefl : Std.Irrefl below := ⟨fun place => acyclic place.1 place.2⟩
  have wellFounded : WellFounded below := Finite.wellFounded_of_trans_of_irrefl below
  have descends : ∀ place : {reached // Relation.ReflTransGen step start reached},
      Acc (fun later earlier => step earlier later) place.1 := by
    intro place
    induction place using wellFounded.induction with
    | _ place ih =>
      refine Acc.intro _ fun later isStep => ?_
      exact ih ⟨later, place.2.tail isStep⟩ (Relation.TransGen.single isStep)
  exact descends ⟨start, .refl⟩

/-- `VFS::new` comes to an end: a stack with room for enough calls does not overflow. -/
def Session.Terminates (session : Session) : Prop :=
  ∃ depth, ∀ more ≥ depth, ∀ after,
    session.exec (newRoot session.fs more) ≠ .error .stackOverflow after

namespace Cafs

/-- Inodes that the inode area has room for. -/
def inodeCount (fs : Cafs) : Nat :=
  (fs.dataBitmap.startBlockId - fs.inodeAreaStartBlock) * (blockSize / metaCodec.width)

/-- A directory, if the inode is one, has entries of ten bytes each with a zero between, and they
name inodes of the inode area. -/
def WellFormed (fs : Cafs) (store : Nat → Block) (inodeNumber : Nat) : Prop :=
  ∀ object, fs.objectOf store inodeNumber = some object → object.type = .dir →
    ∃ data, object.data.value? store = some data ∧ (data = [] ∨
      ∀ part ∈ data.splitOnP (· == 0),
        part.length = 10 ∧ inodeNumberFrom part < fs.inodeCount)

/-- A directory lists an inode. -/
def ListsIn (fs : Cafs) (store : Nat → Block) (parent child : Nat) : Prop :=
  child ∈ fs.childrenOf store parent

/-- An inode can be reached from the root along entries. -/
def Reaches (fs : Cafs) (store : Nat → Block) (inodeNumber : Nat) : Prop :=
  Relation.ReflTransGen (fs.ListsIn store) 0 inodeNumber

variable {fs : Cafs} {store : Nat → Block}

/-- A well-formed directory lists inodes of the inode area. -/
theorem WellFormed.lt_inodeCount {parent child : Nat} (wellFormed : fs.WellFormed store parent)
    (isListed : fs.ListsIn store parent child) : child < fs.inodeCount := by
  unfold ListsIn childrenOf at isListed
  cases isObject : fs.objectOf store parent with
  | none => simp [isObject] at isListed
  | some object =>
    rw [isObject, Option.elim_some, listing] at isListed
    split at isListed
    · simp at isListed
    · rename_i isDir
      rw [not_or] at isDir
      have type : object.type = .dir := by
        cases isType : object.type with
        | file => exact absurd isType isDir.1
        | dir => rfl
      obtain ⟨data, isData, empty | entries⟩ := wellFormed object isObject type
      · simp [isData, empty] at isDir
      · rw [isData, Option.getD_some] at isListed
        obtain ⟨part, partIn, rfl⟩ := List.mem_map.mp isListed
        obtain ⟨length, inside⟩ := entries part partIn
        rwa [List.take_of_length_le (Nat.le_of_eq length)]

/-- The loop over the entries of a directory reads each of them. -/
theorem reads_readDentries {read : Nat → FsM DirEntry} {numbers : List Nat} {inodes : Inodes}
    (reads : ∀ number ∈ numbers, ∀ inodes, fs.Stands store inodes →
      (read number).Reads store inodes fun _ after => fs.Stands store after)
    (stands : fs.Stands store inodes) :
    (readDentries read numbers).Reads store inodes fun _ after => fs.Stands store after := by
  induction numbers generalizing inodes with
  | nil => exact stands
  | cons number rest ih =>
    refine FsM.reads_bind.mpr ((reads number List.mem_cons_self inodes stands).mono ?_)
    intro dentry middle standsMiddle
    exact FsM.reads_bind.mpr (ih (fun other otherIn => reads other (List.mem_cons_of_mem _ otherIn))
      standsMiddle)

/-- Below an inode from which every chain of entries ends, some depth is enough. -/
theorem exists_depth {number : Nat}
    (ends : Acc (fun child parent => fs.ListsIn store parent child) number)
    (indexed : ∀ reached, Relation.ReflTransGen (fs.ListsIn store) number reached →
      fs.Indexed store reached) :
    ∃ depth, ∀ more ≥ depth, ∀ inodes, fs.Stands store inodes →
      (readSubDentry fs more number).Reads store inodes fun _ after => fs.Stands store after := by
  induction ends with
  | intro number _ ih =>
    have deeper : ∀ child, fs.ListsIn store number child → ∃ depth, ∀ more ≥ depth, ∀ inodes,
        fs.Stands store inodes → (readSubDentry fs more child).Reads store inodes
          fun _ after => fs.Stands store after :=
      fun child isListed =>
        ih child isListed fun reached below => indexed reached (.head isListed below)
    choose! enough reads using deeper
    -- one call more than the deepest child needs
    refine ⟨(fs.childrenOf store number).toFinset.sup enough + 1, ?_⟩
    intro more large inodes stands
    obtain ⟨rest, rfl⟩ : ∃ rest, more = rest + 1 := ⟨more - 1, by omega⟩
    refine FsM.reads_bind.mpr ((reads_subInodes stands (indexed number .refl)).mono ?_)
    rintro numbers middle ⟨isListing, standsMiddle⟩
    refine reads_readDentries (fun child inNumbers before standsBefore => ?_) standsMiddle
    have isListed : fs.ListsIn store number child := by
      rw [isListing] at inNumbers
      exact inNumbers
    have isEnough : enough child ≤ (fs.childrenOf store number).toFinset.sup enough :=
      Finset.le_sup (List.mem_toFinset.mpr isListed)
    refine FsM.reads_bind.mpr
      ((reads_newDentry standsBefore (indexed child (.single isListed))).mono ?_)
    intro dentry between standsBetween
    exact FsM.reads_bind.mpr (reads child isListed rest (by omega) between standsBetween)

end Cafs

/-! ## Mounting -/

/-- What a mount has read is what the device has. -/
theorem Session.backed_of_mount {device : Disk} {session : Session}
    (mounted : Session.mount device = some session) :
    session.inodes = Inodes.new ∧ session.manager.Coherent device.data ∧
      session.manager.handles = [] := by
  rw [mount, exec] at mounted
  have readOnly : Cafs.openFs.ReadOnly := readOnly_readAt fun block => by
    dsimp only
    split
    · split <;> trivial
    · trivial
  have reads : Scoped.Reads device.data ((onBlocks Cafs.openFs).run Inodes.new)
      (fun out => out.2 = Inodes.new) fun _ => True :=
    Scoped.reads_bind.mpr ((readOnly.reads (Scoped.yields_of_forall fun _ => trivial) _).mono
      (fun _ _ => rfl) fun _ _ => trivial)
  have outcome := Prog.exec_of_reads
    (Memory.Holding.idle (CacheManager.Coherent.new device) rfl) reads
  cases ran : Prog.exec ((onBlocks Cafs.openFs).run (blank device).inodes)
      (Memory.idle (blank device).manager) with
  | error error final => simp [ran] at mounted
  | ok out final =>
    have same : Prog.exec ((onBlocks Cafs.openFs).run Inodes.new)
        (Memory.idle (CacheManager.new device)) = .ok out final := ran
    rw [same] at outcome
    obtain ⟨fresh, holding, guards⟩ := outcome
    simp only [ran, Option.some.injEq] at mounted
    subst mounted
    exact ⟨fresh, holding.coherent, holding.handles.trans (by rw [guards]; rfl)⟩

/-! ## Images that `flush` leaves -/

namespace Cafs

variable {fs : Cafs} {totalBlocks number : Nat} {inodes : Inodes} {store : Nat → Block}
  {volume : Volume} {extents : Nat → Extent} {marked : Nat → Bool} {file : File}

section

variable (rep : fs.Represents totalBlocks inodes store volume extents marked)

include rep

/-- `CaInode::from` finds the inode of a file. -/
theorem Represents.objectOf_eq (found : volume[number]? = some file) :
    fs.objectOf store number = some (fs.inodeOf number file (extents number)) ∧
      fs.Indexed store number := by
  obtain ⟨record, seen, placed⟩ := rep.holds.placed number file found
  obtain ⟨inside, -⟩ := List.getElem?_eq_some_iff.mp found
  have space := rep.geometry.workspace (Nat.lt_of_lt_of_le inside rep.holds.counted)
  have free : ∀ id ∈ (extents number).index, True ∧ id ∉ [fs.inodeAreaStartBlock + number] :=
    fun id idIn => ⟨trivial,
      (space.area id (rep.holds.inData inside id (List.mem_append_left _ idIn)).1).2⟩
  have spec : (CaInode.from number (fs.inodeAreaStartBlock + number) 0).wp ⟨5, fun _ => True⟩ []
      (fun object after => object = fs.inodeOf number file (extents number) ∧ after = store)
      (fun _ _ => False) store :=
    wp_from placed seen ⟨trivial, List.not_mem_nil, Nat.zero_lt_succ 4⟩ free (Nat.le_refl 5)
      ⟨rfl, rfl⟩
  obtain ⟨_, _, ran, rfl, rfl⟩ := Scoped.run_eq_of_wp spec
  rw [Indexed, objectOf, inodePosOf_eq]
  refine ⟨Scoped.value?_of_run ran, ?_⟩
  rw [ran]
  intro isError
  cases isError

/-- A file lists nothing. -/
theorem Represents.file_lists (found : volume[number]? = some file) (isFile : file.type = .file) :
    fs.childrenOf store number = [] ∧ fs.WellFormed store number := by
  have isObject := (rep.objectOf_eq found).1
  constructor
  · rw [childrenOf, isObject, Option.elim_some, listing, if_pos (.inl isFile)]
  · intro object seen isDir
    obtain rfl := Option.some.inj (isObject.symm.trans seen)
    exact absurd (isFile.symm.trans isDir) (by decide)

/-- A directory lists the children that its contents name. -/
theorem Represents.dir_lists (found : volume[number]? = some file) (isDir : file.type = .dir)
    (bound : file.contents.length ≤ l4Max) {children : List Nat}
    (isListed : file.contents = directoryBytes children)
    (named : ∀ child ∈ children, child < volume.length) :
    fs.childrenOf store number = children ∧ fs.WellFormed store number := by
  have isObject := (rep.objectOf_eq found).1
  obtain ⟨record, -, placed⟩ := rep.holds.placed number file found
  have isData : (fs.inodeOf number file (extents number)).data.value? store =
      some (directoryBytes children) := by
    rw [← isListed, ← placed.bytesOn_eq bound]
    exact Scoped.value?_of_run (run_data _ store)
  obtain ⟨-, inodeArea, dataBitmap, dataArea, within, wide⟩ := rep.geometry
  have counted := rep.holds.counted
  have narrow : ∀ child ∈ children, child < 2 ^ 64 := by
    intro child childIn
    have inside := named child childIn
    omega
  constructor
  · rw [childrenOf, isObject, Option.elim_some, isData, Option.getD_some]
    show listing file.type (directoryBytes children) = children
    rw [isDir]
    exact (listing_directoryBytes narrow).2
  · intro object seen _
    obtain rfl := Option.some.inj (isObject.symm.trans seen)
    refine ⟨_, isData, ?_⟩
    by_cases none : children = []
    · exact .inl (by rw [none]; rfl)
    · refine .inr fun part partIn => ?_
      rw [splitOnP_directoryBytes none] at partIn
      obtain ⟨child, childIn, rfl⟩ := List.mem_map.mp partIn
      have inside := named child childIn
      rw [length_inodeNumberBinary, inodeNumberFrom_inodeNumberBinary (narrow child childIn)]
      refine ⟨rfl, ?_⟩
      show child < (fs.dataBitmap.startBlockId - fs.inodeAreaStartBlock) * 1
      omega

/-- `read_sub_dentry` of a directory that lists itself first uses up every stack. -/
theorem Represents.wp_readSubDentry_endless (roomy : inodes.Roomy)
    (found : volume[number]? = some file) (isDir : file.type = .dir)
    (bound : file.contents.length ≤ l4Max) {others : List Nat}
    (isListed : file.contents = directoryBytes (number :: others))
    (narrow : ∀ child ∈ number :: others, child < 2 ^ 64) (depth : Nat) :
    FsM.wp (Prog.deviceRules totalBlocks) (readSubDentry fs depth number) inodes
      (fun _ _ _ => False) (fun error _ => error = .stackOverflow) store := by
  obtain ⟨record, -, placed⟩ := rep.holds.placed number file found
  obtain ⟨listable, isListing⟩ := listing_directoryBytes narrow
  have bytes : (fs.inodeOf number file (extents number)).bytesOn store =
      directoryBytes (number :: others) := by
    rw [placed.bytesOn_eq bound, isListed]
  induction depth generalizing inodes with
  | zero => exact rfl
  | succ depth ih =>
    refine FsM.wp_bind.mpr (wp_subInodes rep found ?_
      (fun _ stuck => absurd stuck (roomy.substitute_ok _)) fun malformed => ?_)
    · intro pointer looked isLooked _
      have visited : inodes.Visited (fs.inodeOf number file (extents number)) _ := ⟨isLooked⟩
      have repVisited := rep.coherent.visited found visited
      have roomyVisited := roomy.visited rep.coherent visited
      rw [bytes, isDir, isListing]
      refine FsM.wp_bind.mpr (FsM.wp_bind.mpr (wp_newDentry ⟨rep.geometry, rep.holds, repVisited⟩
        found ?_ fun _ stuck => absurd stuck (roomyVisited.substitute_ok _)))
      intro again visitedAgain
      have endless := ih ⟨rep.geometry, rep.holds, repVisited.visited found visitedAgain⟩
        (roomyVisited.visited repVisited visitedAgain)
      exact FsM.wp_bind.mpr (FsM.wp_mono endless fun _ _ _ => False.elim)
    · rw [bytes, isDir] at malformed
      exact absurd listable malformed

end

end Cafs

/-- A mount of a root directory that lists itself first does not end. -/
theorem Session.Serves.not_terminates {session : Session} {totalBlocks : Nat} {volume : Volume}
    {extents : Nat → Extent} {marked : Nat → Bool} {store : Nat → Block} {root : File}
    {others : List Nat} (serves : session.Serves totalBlocks volume extents marked store)
    (roomy : session.inodes.Roomy) (found : volume[0]? = some root) (isDir : root.type = .dir)
    (bound : root.contents.length ≤ l4Max)
    (isListed : root.contents = directoryBytes (0 :: others))
    (narrow : ∀ child ∈ 0 :: others, child < 2 ^ 64) : ¬session.Terminates := by
  rintro ⟨depth, ends⟩
  have rep := serves.represents
  have spec : FsM.wp (Prog.deviceRules totalBlocks) (newRoot session.fs depth) session.inodes
      (fun _ _ _ => False) (fun error _ => error = .stackOverflow) store := by
    refine FsM.wp_bind.mpr (wp_newDentry rep found ?_
      fun _ stuck => absurd stuck (roomy.substitute_ok _))
    intro after visited
    have repVisited : session.fs.Represents totalBlocks after store volume extents marked :=
      ⟨rep.geometry, rep.holds, rep.coherent.visited found visited⟩
    have endless := repVisited.wp_readSubDentry_endless (roomy.visited rep.coherent visited) found
      isDir bound isListed narrow depth
    exact FsM.wp_bind.mpr (FsM.wp_mono endless fun _ _ _ => False.elim)
  obtain ⟨_, after, ran, rfl⟩ := serves.backed.panics spec
  exact ends depth (Nat.le_refl _) after ran

/-- What a flush and a mount give of a session that serves a volume. -/
theorem Session.Serves.exists_image {session : Session} {totalBlocks : Nat} {volume : Volume}
    {extents : Nat → Extent} {marked : Nat → Bool} {store : Nat → Block}
    (serves : session.Serves totalBlocks volume extents marked store)
    (headed : session.fs.Headed store) :
    ∃ flushed after, session.exec session.fs.flush = .ok () flushed ∧
      Session.mount flushed.manager.device = some after ∧ after.inodes = Inodes.new ∧
      after.Serves totalBlocks volume extents marked flushed.manager.device.data := by
  obtain ⟨after, reopened, -, fresh, servesAfter⟩ := serves.reopens headed
  unfold Session.reopen at reopened
  cases ran : session.exec session.fs.flush with
  | error error stuck => simp [ran] at reopened
  | ok done flushed =>
    simp only [ran] at reopened
    obtain ⟨-, coherent, -⟩ := Session.backed_of_mount reopened
    have isStore : flushed.manager.device.data = store :=
      coherent.view_eq.symm.trans servesAfter.backed.contents_eq
    exact ⟨flushed, after, rfl, reopened, fresh, isStore ▸ servesAfter⟩

/-! ## The result -/

/-- `VFS::new` comes to an end on every image whose super block is valid, whose directories within
reach of the root are well formed, whose inodes within reach have index blocks that can be listed,
and where no directory within reach lists itself or one above it. -/
theorem mount_terminates {device : Disk} {session : Session}
    (mounted : Session.mount device = some session)
    (wellFormed : ∀ number, session.fs.Reaches device.data number →
      session.fs.WellFormed device.data number)
    (indexed : ∀ number, session.fs.Reaches device.data number →
      session.fs.Indexed device.data number)
    (acyclic : ∀ number, session.fs.Reaches device.data number →
      ¬Relation.TransGen (session.fs.ListsIn device.data) number number) :
    session.Terminates := by
  obtain ⟨fresh, coherent, idle⟩ := Session.backed_of_mount mounted
  have finite : {number | session.fs.Reaches device.data number}.Finite := by
    refine (Set.finite_Iio (session.fs.inodeCount + 1)).subset fun number reached => ?_
    rcases Relation.ReflTransGen.cases_tail reached with rfl | ⟨parent, isParent, isListed⟩
    · exact Nat.succ_pos _
    · exact Nat.lt_succ_of_lt ((wellFormed parent isParent).lt_inodeCount isListed)
  obtain ⟨depth, reads⟩ := Cafs.exists_depth (acc_of_acyclic finite acyclic) indexed
  refine ⟨depth, fun more large after overflows => ?_⟩
  have stands : session.fs.Stands device.data session.inodes := fresh ▸ Cafs.stands_new
  have whole : (newRoot session.fs more).Reads device.data session.inodes
      fun _ after => session.fs.Stands device.data after := by
    refine FsM.reads_bind.mpr ((reads_newDentry stands (indexed 0 .refl)).mono ?_)
    intro dentry middle standsMiddle
    exact FsM.reads_bind.mpr (reads more large middle standsMiddle)
  have outcome := Prog.exec_of_reads (Memory.Holding.idle coherent idle) whole
  rw [Session.exec] at overflows
  cases ran : Prog.exec ((newRoot session.fs more).run session.inodes)
      (Memory.idle session.manager) with
  | ok out final => simp [ran] at overflows
  | error error final =>
    simp only [ran, Result.error.injEq] at overflows outcome
    obtain ⟨rfl, -⟩ := overflows
    rcases outcome with different | isOwn
    · exact different rfl
    · exact absurd isOwn (by decide)

/-- After `test.txt` was created and written, a flush leaves an image whose mount ends: the root
lists inode 1, which is a file. -/
theorem mount_terminates_test : ∃ device session,
    Session.mount device = some session ∧ session.fs.ListsIn device.data 0 1 ∧
      session.Terminates := by
  obtain ⟨bytes, session, history⟩ := exists_testHistory
  have headed := history.headed (by decide)
  obtain ⟨isSmall, extents, marked, store, tracks⟩ := history.tidy (by decide)
  rw [tracks.serves.backed.contents_eq] at headed
  obtain ⟨flushed, after, -, mounted, -, serves⟩ := tracks.serves.exists_image headed
  have rep := serves.represents
  have rootFound : (testVolume bytes [84])[0]? = some ⟨.dir, rootName, appendEntry [] 1⟩ := rfl
  have fileFound : (testVolume bytes [84])[1]? = some ⟨.file, bytes, [84]⟩ := rfl
  obtain ⟨rootLists, rootFormed⟩ := rep.dir_lists rootFound rfl (by decide)
    (show appendEntry [] 1 = directoryBytes [1] from rfl) (by simp [testVolume])
  obtain ⟨fileLists, fileFormed⟩ := rep.file_lists fileFound rfl
  have lists : ∀ parent child, parent = 0 ∨ parent = 1 →
      after.fs.ListsIn flushed.manager.device.data parent child → parent = 0 ∧ child = 1 := by
    rintro parent child (rfl | rfl) isListed
    · rw [Cafs.ListsIn, rootLists, List.mem_singleton] at isListed
      exact ⟨rfl, isListed⟩
    · rw [Cafs.ListsIn, fileLists] at isListed
      exact absurd isListed List.not_mem_nil
  have reached : ∀ number, after.fs.Reaches flushed.manager.device.data number →
      number = 0 ∨ number = 1 := by
    intro number reaches
    induction reaches with
    | refl => exact .inl rfl
    | tail _ isListed ih => exact .inr (lists _ _ ih isListed).2
  refine ⟨_, after, mounted, by rw [Cafs.ListsIn, rootLists]; exact List.mem_singleton_self 1,
    mount_terminates mounted ?_ ?_ ?_⟩
  · intro number reaches
    rcases reached number reaches with rfl | rfl
    · exact rootFormed
    · exact fileFormed
  · intro number reaches
    rcases reached number reaches with rfl | rfl
    · exact (rep.objectOf_eq rootFound).2
    · exact (rep.objectOf_eq fileFound).2
  · intro number reaches cycle
    -- the first step of a cycle leads to the file, which lists nothing
    obtain ⟨next, first, rest⟩ := Relation.TransGen.head'_iff.mp cycle
    obtain ⟨rfl, rfl⟩ := lists _ _ (reached number reaches) first
    rcases Relation.ReflTransGen.cases_head rest with same | ⟨later, second, -⟩
    · cases same
    · exact absurd (lists _ _ (.inr rfl) second).1 Nat.one_ne_zero

/-- On a device just set up, with the entry of inode 0 written to the root directory, a flush
leaves an image in order whose mount does not end: the root lists itself. -/
theorem self_listing_endless : ∃ start wrote flushed session,
    Session.fromInit (Disk.new 131072) 131072 2 = some start ∧
      start.exec (start.fs.write 0 (inodeNumberBinary 0)) = .ok () wrote ∧
      wrote.exec wrote.fs.flush = .ok () flushed ∧
      Session.mount flushed.manager.device = some session ∧
      (∀ number, session.fs.Reaches flushed.manager.device.data number →
        session.fs.WellFormed flushed.manager.device.data number ∧
          session.fs.Indexed flushed.manager.device.data number) ∧
      ¬session.Terminates := by
  have small : 131072 < 2 ^ 64 := by decide
  have onDevice : 131072 ≤ (Disk.new 131072).totalBlocks := Nat.le_refl 131072
  obtain ⟨start, setUp⟩ := Session.exists_fromInit small ⟨by decide, by decide⟩
    (show 0 < 2 by decide) onDevice
  obtain ⟨store, tracks⟩ := tracks_initial small setUp
  have found : Volume.initial[0]? = some ⟨.dir, rootName, []⟩ := rfl
  have keeps : dataBlocks 0 ≤ dataBlocks (inodeNumberBinary 0).length := by decide
  obtain ⟨⟨⟩, wrote, ran⟩ := tracks.write_returns Volume.small_initial found (by decide) keeps
    (by decide)
  have lawful : (Call.write 0 (inodeNumberBinary 0)).Lawful Volume.initial :=
    ⟨by decide, _, found, keeps⟩
  have bounded : (Call.write 0 (inodeNumberBinary 0)).Bounded Volume.initial := by
    rintro _ _ written
    obtain ⟨rfl, rfl⟩ := Prod.mk.inj (Option.some.inj written)
    decide
  have called : start.exec ((Call.write 0 (inodeNumberBinary 0)).run start.fs) =
      .ok .done wrote := by
    refine (Session.exec_map start _ _).trans ?_
    rw [ran]
  have mountedWrote := (Mounted.init setUp).call _ lawful bounded called
  obtain ⟨-, headed, extents, marked, storeWrote, serves⟩ := mountedWrote.serves small
  rw [serves.backed.contents_eq] at headed
  obtain ⟨flushed, session, flushes, mounted, fresh, servesAfter⟩ := serves.exists_image headed
  have rep := servesAfter.represents
  have rootFound : (Volume.initial.after (.write 0 (inodeNumberBinary 0)))[0]? =
      some ⟨.dir, rootName, inodeNumberBinary 0⟩ := rfl
  have isListed : inodeNumberBinary 0 = directoryBytes [0] := rfl
  obtain ⟨rootLists, rootFormed⟩ := rep.dir_lists rootFound rfl (by decide) isListed
    (by simp [Volume.after, Volume.write, Volume.initial])
  refine ⟨start, wrote, flushed, session, setUp, ran, flushes, mounted, ?_,
    servesAfter.not_terminates (fresh ▸ Inodes.Roomy.new) rootFound rfl (by decide) isListed
      (by simp)⟩
  intro number reaches
  have isRoot : number = 0 := by
    induction reaches with
    | refl => rfl
    | tail _ lists ih =>
      rw [ih, Cafs.ListsIn, rootLists, List.mem_singleton] at lists
      exact lists
  rw [isRoot]
  exact ⟨rootFormed, (rep.objectOf_eq rootFound).2⟩

end Canyon.Fs
