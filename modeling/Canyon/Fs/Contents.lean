import Canyon.Fs.Alloc

/-!
# Contents of files

The data blocks of a file hold its contents one block after another: `write` fills them,
`CaInode::data` reads them back, and `CaInode::from` finds them again from the `Meta`.
-/

namespace Canyon.Fs

open Canyon.Lib

variable {store after : Nat → Block} {rules : Scoped.Discipline Nat} {held : List Nat}
  {failed : Panic → (Nat → Block) → Prop}

/-- The first bytes of a filled block are the contents. -/
theorem Block.take_fill (contents : List UInt8) :
    (Block.fill contents).bytes.take contents.length = contents.take blockSize := by
  rw [Block.fill, List.take_take]
  by_cases long : blockSize ≤ contents.length
  · rw [Nat.min_eq_right long, List.take_append_of_le_length long]
  · have short : contents.length ≤ blockSize := by omega
    rw [Nat.min_eq_left short, List.take_append_of_le_length (Nat.le_refl _), List.take_length,
      List.take_of_length_le short]

/-- The loop of `CAFS::write` leaves the contents in the blocks, as far as they reach. -/
theorem Cafs.wp_fillBlocks {ids : List Nat} (distinct : ids.Nodup) {contents : List UInt8}
    (admits : ∀ id ∈ ids, rules.Admits held id) {post : Unit → (Nat → Block) → Prop}
    (goal : ∀ after, (∀ id, id ∉ ids → after id = store id) →
      (contents.length ≤ ids.length * blockSize →
        (ids.flatMap fun id => (after id).bytes).take contents.length = contents) →
      post () after) :
    (Cafs.fillBlocks ids contents).wp rules held post failed store := by
  induction ids generalizing contents store with
  | nil =>
    refine goal store (fun _ _ => rfl) fun short => ?_
    have empty : contents = [] := by simpa using short
    simp [empty]
  | cons id ids ih =>
    obtain ⟨notLater, distinctRest⟩ := List.nodup_cons.mp distinct
    refine Scoped.wp_bind.mpr (Scoped.wp_write.mpr ⟨admits id (by simp), ?_⟩)
    refine ih distinctRest (fun other otherIn => admits other (by simp [otherIn])) ?_
    intro after frame filled
    refine goal after ?_ ?_
    · intro other outside
      obtain ⟨different, notIn⟩ := not_or.mp (List.mem_cons.not.mp outside)
      rw [frame other notIn]
      exact Function.update_of_ne different _ _
    · intro fitsAll
      have first : after id = Block.fill contents := by
        rw [frame id notLater]
        exact Function.update_self _ _ _
      have rest := filled (by
        rw [List.length_cons, Nat.succ_mul] at fitsAll
        rw [List.length_drop]
        omega)
      rw [List.flatMap_cons, List.take_append, first, Block.take_fill,
        (Block.fill contents).length_bytes]
      rw [List.length_drop] at rest
      rw [rest, List.take_append_drop]

/-- What `CaInode::data` collects from the blocks of an inode. -/
def CaInode.bytesOn (inode : CaInode) (store : Nat → Block) : List UInt8 :=
  match inode.blocks.getLast? with
  | none => []
  | some last =>
    inode.blocks.flatMap fun id =>
      if id = last then (store id).bytes.take inode.lastSize else (store id).bytes

/-- The bytes of an inode depend on its blocks only. -/
theorem CaInode.bytesOn_congr (inode : CaInode)
    (same : ∀ id ∈ inode.blocks, after id = store id) :
    inode.bytesOn after = inode.bytesOn store := by
  unfold bytesOn
  cases inode.blocks.getLast? with
  | none => rfl
  | some last =>
    refine List.flatMap_congr fun id idIn => ?_
    rw [same id idIn]

/-- `CaInode::data` reads the blocks of the inode and changes nothing. -/
theorem CaInode.wp_data (inode : CaInode) (admits : ∀ id ∈ inode.blocks, rules.Admits held id)
    {post : List UInt8 → (Nat → Block) → Prop} (goal : post (inode.bytesOn store) store) :
    inode.data.wp rules held post failed store := by
  unfold data
  unfold bytesOn at goal
  cases found : inode.blocks.getLast? with
  | none =>
    rw [found] at goal
    exact goal
  | some last =>
    rw [found] at goal
    refine Scoped.wp_foldlM (fun done data after => store = after ∧ data = done.flatMap fun id =>
      if id = last then (store id).bytes.take inode.lastSize else (store id).bytes) ⟨rfl, rfl⟩ ?_ ?_
    · rintro done id rest data _ whole ⟨rfl, rfl⟩
      refine Scoped.wp_read.mpr ⟨admits id (by simp [whole]), rfl, ?_⟩
      rw [List.flatMap_append, List.flatMap_singleton]
    · rintro data _ ⟨rfl, rfl⟩
      exact goal

/-- An inode with as many blocks as its size asks for holds that many bytes. -/
theorem CaInode.bytesOn_eq {inode : CaInode} (distinct : inode.blocks.Nodup)
    (planned : inode.blocks.length = dataBlocks inode.size) :
    inode.bytesOn store =
      (inode.blocks.flatMap fun id => (store id).bytes).take inode.size := by
  unfold bytesOn
  rcases List.eq_nil_or_concat' inode.blocks with empty | ⟨front, last, whole⟩
  · simp [empty]
  · have lastOnly : ∀ id ∈ front, id ≠ last := by
      rintro id idIn rfl
      rw [whole] at distinct
      exact (List.nodup_append.mp distinct).2.2 id idIn id (by simp) rfl
    have size : inode.size = front.length * blockSize + inode.lastSize := by
      rw [whole, List.length_append, List.length_singleton] at planned
      have block : blockSize = 512 := rfl
      rw [dataBlocks, block] at planned
      by_cases even : inode.size % blockSize = 0
      · have full : inode.lastSize = blockSize := if_neg (not_not.mpr even)
        rw [block] at even full ⊢
        omega
      · have part : inode.lastSize = inode.size % blockSize := if_pos even
        rw [block] at even part ⊢
        omega
    have frontBytes : (front.flatMap fun id => (store id).bytes).length =
        front.length * blockSize := by
      simp [List.length_flatMap, Block.length_bytes]
    rw [whole, List.getLast?_concat]
    dsimp only
    rw [List.flatMap_append, List.flatMap_append, List.take_append, frontBytes,
      List.take_of_length_le (by rw [frontBytes]; omega)]
    congr 1
    · exact List.flatMap_congr fun id idIn => if_neg (lastOnly id idIn)
    · rw [List.flatMap_singleton, List.flatMap_singleton, if_pos rfl]
      congr 1
      omega

/-- An inode has no more bytes than its blocks. -/
theorem CaInode.length_bytesOn_le (inode : CaInode) (store : Nat → Block) :
    (inode.bytesOn store).length ≤ inode.blocks.length * blockSize := by
  unfold bytesOn
  cases inode.blocks.getLast? with
  | none => simp
  | some last =>
    dsimp only
    induction inode.blocks with
    | nil => simp
    | cons id ids ih =>
      have first : (if id = last then (store id).bytes.take inode.lastSize
          else (store id).bytes).length ≤ blockSize := by
        have whole := (store id).length_bytes
        split
        · rw [List.length_take]
          omega
        · omega
      rw [List.flatMap_cons, List.length_append, List.length_cons, Nat.succ_mul]
      omega

/-! ## Inodes on the device -/

/-- An inode has a block to itself. -/
theorem Cafs.inodePosOf_eq (fs : Cafs) (inodeNumber : Nat) :
    fs.inodePosOf inodeNumber = (fs.inodeAreaStartBlock + inodeNumber, 0) := by
  show (fs.inodeAreaStartBlock + inodeNumber / 1, inodeNumber % 1 * 512) = _
  rw [Nat.div_one, Nat.mod_one, Nat.zero_mul]

/-- The inode that the cache keeps for a file. -/
def Cafs.inodeOf (fs : Cafs) (inodeNumber : Nat) (file : File) (extent : Extent) : CaInode :=
  ⟨inodeNumber, file.type, file.contents.length, fs.inodeAreaStartBlock + inodeNumber, 0,
    file.name, extent.data⟩

/-- `CaInode::from` finds the inode of a file. -/
theorem Cafs.wp_from {fs : Cafs} {inodeNumber : Nat} {file : File} {record : Meta}
    {extent : Extent} (placed : Placed file record store extent)
    (seen : (store (fs.inodeAreaStartBlock + inodeNumber)).view metaCodec 0 = some record)
    (admits : rules.Admits [] (fs.inodeAreaStartBlock + inodeNumber))
    (free : ∀ id ∈ extent.index,
      rules.Valid id ∧ id ∉ [fs.inodeAreaStartBlock + inodeNumber])
    (room : 5 ≤ rules.limit) {post : CaInode → (Nat → Block) → Prop}
    (goal : post (fs.inodeOf inodeNumber file extent) store) :
    (CaInode.from inodeNumber (fs.inodeAreaStartBlock + inodeNumber) 0).wp rules [] post failed
      store := by
  refine wp_readAt (by simp) seen admits ?_
  refine Scoped.wp_bind.mpr (placed.laid.wp_blocks record.size free room ?_)
  rw [Cafs.inodeOf, ← placed.type, ← placed.size, ← placed.name] at goal
  exact goal

/-- The data of a stored file is its contents. -/
theorem Placed.bytesOn_eq {file : File} {record : Meta} {extent : Extent} {fs : Cafs}
    {inodeNumber : Nat} (placed : Placed file record store extent)
    (bound : file.contents.length ≤ l4Max) :
    (fs.inodeOf inodeNumber file extent).bytesOn store = file.contents := by
  have planned := (placed.laid.planned (placed.size ▸ bound)).2
  rw [placed.size] at planned
  rw [CaInode.bytesOn_eq (List.nodup_append.mp placed.laid.distinct).2.1 planned]
  exact placed.bytes bound

end Canyon.Fs
