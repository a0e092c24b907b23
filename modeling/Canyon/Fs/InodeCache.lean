import Canyon.Fs.Holds

/-!
# The inode cache

Rules for calls that work on the inode cache and on blocks, and the invariant of the cache:
`Inodes.Coherent` says that its entries are the inodes of a volume, one object for each.
-/

namespace Canyon.Fs

open Canyon.Lib

namespace FsM

variable {α γ : Type}

/-- Weakest precondition of a call, from an inode cache and a store of blocks. -/
def wp (rules : Scoped.Discipline Nat) (call : FsM α) (inodes : Inodes)
    (post : α → Inodes → (Nat → Block) → Prop) (failed : Panic → (Nat → Block) → Prop)
    (store : Nat → Block) : Prop :=
  Scoped.wp rules (call.run inodes) [] (fun out store => post out.1 out.2 store) failed store

variable {rules : Scoped.Discipline Nat} {inodes : Inodes} {failed : Panic → (Nat → Block) → Prop}
  {store : Nat → Block} {post : α → Inodes → (Nat → Block) → Prop} {pointer : Nat}

/-- The rule of a call that returns at once. -/
theorem wp_pure {value : α} :
    wp rules (pure value) inodes post failed store ↔ post value inodes store :=
  Iff.rfl

/-- The rule of a sequence. -/
theorem wp_bind {call : FsM α} {next : α → FsM γ} {post : γ → Inodes → (Nat → Block) → Prop} :
    wp rules (call >>= next) inodes post failed store ↔
      wp rules call inodes
        (fun value inodes store => wp rules (next value) inodes post failed store) failed store :=
  Scoped.wp_bind

/-- A weaker postcondition keeps the precondition. -/
theorem wp_mono {call : FsM α} {weaker : α → Inodes → (Nat → Block) → Prop}
    (holds : wp rules call inodes post failed store)
    (values : ∀ value inodes store, post value inodes store → weaker value inodes store) :
    wp rules call inodes weaker failed store :=
  Scoped.wp_mono holds (fun out store => values out.1 out.2 store) fun _ _ reached => reached

/-- The rule of a program on the blocks. -/
theorem wp_onBlocks {program : Prog α} :
    wp rules (onBlocks program) inodes post failed store ↔
      program.wp rules [] (fun value store => post value inodes store) failed store :=
  Scoped.wp_bind

/-- The rule of a look at the cache. -/
theorem wp_get {post : Inodes → Inodes → (Nat → Block) → Prop} :
    wp rules get inodes post failed store ↔ post inodes inodes store :=
  Iff.rfl

/-- The rule of a look behind a pointer. -/
theorem wp_deref {post : CaInode → Inodes → (Nat → Block) → Prop} :
    wp rules (deref pointer) inodes post failed store ↔
      post (inodes.heap pointer) inodes store :=
  Iff.rfl

/-- The rule of one more handle. -/
theorem wp_cloneHandle {post : Unit → Inodes → (Nat → Block) → Prop} :
    wp rules (cloneHandle pointer) inodes post failed store ↔
      post () { inodes with handles := pointer :: inodes.handles } store :=
  Iff.rfl

/-- The rule of one handle less. -/
theorem wp_dropHandle {post : Unit → Inodes → (Nat → Block) → Prop} :
    wp rules (dropHandle pointer) inodes post failed store ↔
      post () { inodes with handles := inodes.handles.erase pointer } store :=
  Iff.rfl

/-- The rule of a new object. -/
theorem wp_newHandle {inode : CaInode} {post : Nat → Inodes → (Nat → Block) → Prop} :
    wp rules (newHandle inode) inodes post failed store ↔
      post inodes.next (inodes.alloc inode).2 store :=
  Iff.rfl

/-- The rule of a substitution. -/
theorem wp_substituteInode {post : Unit → Inodes → (Nat → Block) → Prop}
    (done : ∀ queue, Inodes.substitute inodes.queue inodes.handles = .ok queue →
      post () { inodes with queue } store)
    (full : ∀ error, Inodes.substitute inodes.queue inodes.handles = .error error →
      failed error store) :
    wp rules substituteInode inodes post failed store := by
  refine wp_bind.mpr (wp_get.mpr ?_)
  cases outcome : Inodes.substitute inodes.queue inodes.handles with
  | ok queue => exact done queue outcome
  | error error => exact full error outcome

end FsM

namespace Inodes

variable {inodes after : Inodes} {fs : Cafs} {volume : Volume} {extents : Nat → Extent}

/-- What a substitution does to the queue: it removes at most one entry, none that a handle
points to, and makes room. -/
structure Substituted (queue handles after : List Nat) : Prop where
  /-- Entries are only removed. -/
  part : ∃ removed, (removed ++ after).Perm queue
  /-- An entry with a handle stays. -/
  held : ∀ pointer ∈ queue, pointer ∈ handles → pointer ∈ after
  /-- There is room for one more. -/
  room : queue.length ≤ inodeCacheSize → after.length < inodeCacheSize

variable {queue handles : List Nat}

/-- The outcome of a substitution. -/
theorem substituted {after : List Nat} (done : substitute queue handles = .ok after) :
    Substituted queue handles after := by
  unfold substitute at done
  split at done
  · rename_i full
    cases search : findEvictable queue handles with
    | none =>
      rw [search] at done
      contradiction
    | some index =>
      rw [search] at done
      obtain rfl := Except.ok.inj done
      obtain ⟨pointer, found, once, unheld⟩ := findEvictable_some search
      have perm := swapRemove_perm queue index pointer found
      refine ⟨⟨[pointer], perm⟩, ?_, ?_⟩
      · intro other otherIn isHeld
        rcases List.mem_cons.mp (perm.mem_iff.mpr otherIn) with rfl | stays
        · exact absurd isHeld unheld
        · exact stays
      · intro _
        have shorter := perm.length_eq
        rw [List.length_cons] at shorter
        omega
  · rename_i notFull
    obtain rfl := Except.ok.inj done
    exact ⟨⟨[], List.Perm.refl _⟩, fun _ otherIn _ => otherIn, fun bound => by omega⟩

/-- A substitution keeps only entries of the queue. -/
theorem Substituted.subset {after : List Nat} (substituted : Substituted queue handles after) :
    ∀ pointer ∈ after, pointer ∈ queue := by
  obtain ⟨removed, perm⟩ := substituted.part
  exact fun pointer pointerIn => perm.mem_iff.mp (List.mem_append_right _ pointerIn)

/-- A substitution fails only with its own panic, on a full queue. -/
theorem substitute_error {error : Panic} (failed : substitute queue handles = .error error) :
    error = .runOutOfInodeCache ∧ queue.length = inodeCacheSize ∧
      findEvictable queue handles = none := by
  unfold substitute at failed
  split at failed
  · rename_i full
    cases search : findEvictable queue handles with
    | none =>
      rw [search] at failed
      exact ⟨(Except.error.inj failed).symm, full, rfl⟩
    | some index =>
      rw [search] at failed
      contradiction
  · contradiction

/-- What a search finds. -/
theorem find_some {inodeNumber pointer : Nat} (found : inodes.find inodeNumber = some pointer) :
    pointer ∈ inodes.queue ∧ (inodes.heap pointer).inodeNumber = inodeNumber := by
  refine ⟨List.mem_of_find?_eq_some found, ?_⟩
  have hit := List.find?_some found
  simpa using hit

/-- What a search that finds nothing says. -/
theorem find_none {inodeNumber : Nat} (nothing : inodes.find inodeNumber = none) :
    ∀ pointer ∈ inodes.queue, (inodes.heap pointer).inodeNumber ≠ inodeNumber := by
  intro pointer pointerIn same
  have missed := List.find?_eq_none.mp nothing pointer pointerIn
  exact missed (beq_iff_eq.mpr same)

/-- The entries of the cache are the inodes of a volume, with one object for each, and every
handle of a caller points to an entry. -/
structure Coherent (inodes : Inodes) (fs : Cafs) (volume : Volume) (extents : Nat → Extent) :
    Prop where
  /-- An entry describes its file. -/
  described : ∀ pointer ∈ inodes.queue, ∃ number file, volume[number]? = some file ∧
    inodes.heap pointer = fs.inodeOf number file (extents number)
  /-- An inode has one object. -/
  unique : ∀ left ∈ inodes.queue, ∀ right ∈ inodes.queue,
    (inodes.heap left).inodeNumber = (inodes.heap right).inodeNumber → left = right
  /-- A handle points to an entry. -/
  pinned : ∀ pointer ∈ inodes.handles, pointer ∈ inodes.queue
  /-- Entries are allocated. -/
  allocated : ∀ pointer ∈ inodes.queue, pointer < inodes.next
  /-- The cache keeps to its size. -/
  bounded : inodes.queue.length ≤ inodeCacheSize

namespace Coherent

/-- The empty cache. -/
theorem new : Inodes.new.Coherent fs volume extents :=
  ⟨by simp [Inodes.new], by simp [Inodes.new], by simp [Inodes.new], by simp [Inodes.new],
    show 0 ≤ 32 by decide⟩

variable {pointer : Nat}

section

variable (coherent : inodes.Coherent fs volume extents)

include coherent

/-- An entry describes the file of its number. -/
theorem entry (pointerIn : pointer ∈ inodes.queue) :
    ∃ file, volume[(inodes.heap pointer).inodeNumber]? = some file ∧ inodes.heap pointer =
      fs.inodeOf (inodes.heap pointer).inodeNumber file
        (extents (inodes.heap pointer).inodeNumber) := by
  obtain ⟨number, file, found, equal⟩ := coherent.described pointer pointerIn
  have numberEq : (inodes.heap pointer).inodeNumber = number := by rw [equal, Cafs.inodeOf]
  rw [numberEq]
  exact ⟨file, found, equal⟩

/-- One more handle on an entry. -/
theorem clone (pointerIn : pointer ∈ inodes.queue) :
    Coherent { inodes with handles := pointer :: inodes.handles } fs volume extents := by
  refine { coherent with pinned := ?_ }
  intro other otherIn
  rcases List.mem_cons.mp otherIn with rfl | old
  · exact pointerIn
  · exact coherent.pinned other old

/-- One handle less. -/
theorem drop (pointer : Nat) :
    Coherent { inodes with handles := inodes.handles.erase pointer } fs volume extents :=
  { coherent with
    pinned := fun other otherIn => coherent.pinned other (List.mem_of_mem_erase otherIn) }

/-- One more entry for an object of the cache. -/
theorem push {queue : List Nat} (part : ∀ other ∈ queue, other ∈ inodes.queue)
    (held : ∀ other ∈ inodes.handles, other ∈ queue) (room : queue.length < inodeCacheSize)
    (pointerIn : pointer ∈ inodes.queue) :
    Coherent { inodes with queue := queue ++ [pointer] } fs volume extents := by
  have old : ∀ other ∈ queue ++ [pointer], other ∈ inodes.queue := by
    intro other otherIn
    rcases List.mem_append.mp otherIn with stays | new
    · exact part other stays
    · exact List.mem_singleton.mp new ▸ pointerIn
  refine ⟨fun other otherIn => coherent.described other (old other otherIn),
    fun left leftIn right rightIn => coherent.unique left (old left leftIn) right
      (old right rightIn),
    fun other otherIn => List.mem_append_left _ (held other otherIn),
    fun other otherIn => coherent.allocated other (old other otherIn), ?_⟩
  simpa using room

/-- A new object for an inode that the cache does not have. -/
theorem insert {queue : List Nat} {number : Nat} {file : File}
    (part : ∀ other ∈ queue, other ∈ inodes.queue) (held : ∀ other ∈ inodes.handles, other ∈ queue)
    (room : queue.length < inodeCacheSize)
    (absent : ∀ other ∈ inodes.queue, (inodes.heap other).inodeNumber ≠ number)
    (found : volume[number]? = some file) :
    Coherent ⟨queue ++ [inodes.next], inodes.next :: inodes.handles,
      Function.update inodes.heap inodes.next (fs.inodeOf number file (extents number)),
      inodes.next + 1⟩ fs volume extents := by
  have old : ∀ other ∈ queue, Function.update inodes.heap inodes.next
      (fs.inodeOf number file (extents number)) other = inodes.heap other :=
    fun other otherIn => Function.update_of_ne
      (Nat.ne_of_lt (coherent.allocated other (part other otherIn))) _ _
  have cases : ∀ other ∈ queue ++ [inodes.next], other ∈ queue ∨ other = inodes.next := by
    simp
  refine ⟨?_, ?_, ?_, ?_, by simpa using room⟩ <;> dsimp only
  · intro other otherIn
    rcases cases other otherIn with stays | rfl
    · rw [old other stays]
      exact coherent.described other (part other stays)
    · exact ⟨number, file, found, Function.update_self _ _ _⟩
  · intro left leftIn right rightIn
    rcases cases left leftIn with leftStays | rfl <;> rcases cases right rightIn with
      rightStays | rfl
    · rw [old left leftStays, old right rightStays]
      exact coherent.unique left (part left leftStays) right (part right rightStays)
    · rw [old left leftStays, Function.update_self]
      exact fun same => absurd same (absent left (part left leftStays))
    · rw [old right rightStays, Function.update_self]
      exact fun same => absurd same.symm (absent right (part right rightStays))
    · exact fun _ => rfl
  · intro other otherIn
    rcases List.mem_cons.mp otherIn with rfl | isHeld
    · simp
    · exact List.mem_append_left _ (held other isHeld)
  · intro other otherIn
    rcases cases other otherIn with stays | rfl
    · exact Nat.lt_succ_of_lt (coherent.allocated other (part other stays))
    · exact Nat.lt_succ_self _

/-- The object of a file that was written, brought up to date. -/
theorem write {file : File} (pointerIn : pointer ∈ inodes.queue) {number : Nat}
    (isNumber : (inodes.heap pointer).inodeNumber = number) (found : volume[number]? = some file)
    (contents : List UInt8) (extent : Extent) :
    Coherent { inodes with
      heap := Function.update inodes.heap pointer
        { inodes.heap pointer with size := contents.length, blocks := extent.data } } fs
      (volume.write number contents) (Function.update extents number extent) := by
  have numbers : ∀ other, (Function.update inodes.heap pointer
      { inodes.heap pointer with size := contents.length, blocks := extent.data }
        other).inodeNumber = (inodes.heap other).inodeNumber := by
    intro other
    by_cases same : other = pointer
    · rw [same, Function.update_self]
    · rw [Function.update_of_ne same]
  refine { coherent with described := ?_, unique := ?_ }
  · intro other otherIn
    by_cases same : other = pointer
    · obtain ⟨old, foundOld, equal⟩ := coherent.entry pointerIn
      rw [isNumber] at foundOld equal
      obtain rfl := Option.some.inj (found.symm.trans foundOld)
      refine ⟨number, { file with contents }, Volume.getElem?_write_self found contents, ?_⟩
      rw [same]
      dsimp only
      rw [Function.update_self, Function.update_self, equal]
      rfl
    · obtain ⟨old, foundOld, equal⟩ := coherent.entry otherIn
      have different : (inodes.heap other).inodeNumber ≠ number := by
        intro again
        exact same (coherent.unique other otherIn pointer pointerIn (again.trans isNumber.symm))
      refine ⟨(inodes.heap other).inodeNumber, old, ?_, ?_⟩
      · rw [Volume.getElem?_write_of_ne volume different]
        exact foundOld
      · dsimp only
        rw [Function.update_of_ne same, Function.update_of_ne different]
        exact equal
  · intro left leftIn right rightIn
    dsimp only
    rw [numbers, numbers]
    exact coherent.unique left leftIn right rightIn

/-- The cache is the same while a file is added. -/
theorem add (type : InodeType) (name : NameBytes) (extent : Extent) :
    inodes.Coherent fs (volume.add type name)
      (Function.update extents volume.length extent) := by
  refine { coherent with described := ?_ }
  intro pointer pointerIn
  obtain ⟨number, file, found, equal⟩ := coherent.described pointer pointerIn
  obtain ⟨inside, -⟩ := List.getElem?_eq_some_iff.mp found
  refine ⟨number, file, ?_, ?_⟩
  · rw [Volume.getElem?_add_of_lt inside]
    exact found
  · rw [Function.update_of_ne (Nat.ne_of_lt inside)]
    exact equal

end

end Coherent

end Inodes

end Canyon.Fs
