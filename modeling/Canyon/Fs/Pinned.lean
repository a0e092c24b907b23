import Canyon.Fs.Ownership

/-!
# Blocks pinned during a call

A block with a live handle cannot be evicted, and a lock that the call holds itself is never
released for it. `Prog.trace` lists the states of the block cache that a call passes through. A
call that keeps to its rules pins no more blocks than they allow in any of them, so lawful calls
pin at most five.
-/

namespace Canyon.Fs

open Canyon.Lib
open EStateM (Result)

/-- The blocks of the live handles. -/
def CacheManager.pinned (manager : CacheManager) : Finset Nat :=
  (manager.handles.map fun pointer => (manager.heap pointer).blockId).toFinset

/-- There are no more pinned blocks than handles. -/
theorem CacheManager.card_pinned_le (manager : CacheManager) :
    manager.pinned.card ≤ manager.handles.length := by
  have distinct := List.toFinset_card_le
    (manager.handles.map fun pointer => (manager.heap pointer).blockId)
  rwa [List.length_map] at distinct

/-- A call has one handle for each block it holds. -/
theorem Memory.Holding.length_handles {memory : Memory} {held : List Nat}
    {contents : Nat → Block} (holding : memory.Holding held contents) :
    memory.manager.handles.length = held.length := by
  rw [holding.handles, List.length_map, holding.entries.length_eq]

/-- The blocks in the queue. -/
def CacheManager.ids (manager : CacheManager) : List Nat := manager.queue.map Prod.fst

/-- `get` adds the block it is asked for and no other. -/
theorem CacheManager.Coherent.ids_of_get {manager final : CacheManager} {contents : Nat → Block}
    (coherent : manager.Coherent contents) {blockId pointer : Nat}
    (done : manager.get blockId = .ok pointer final) :
    ∀ id ∈ final.ids, id ∈ manager.ids ∨ id = blockId := by
  unfold CacheManager.get at done
  split at done
  · obtain ⟨-, rfl⟩ := Result.ok.inj done
    exact fun id isId => .inl isId
  · cases substituted : manager.substitute with
    | error error middle =>
      rw [substituted] at done
      cases done
    | ok _ middle =>
      rw [substituted] at done
      obtain ⟨-, -, -, -, old, -⟩ := coherent.substitute substituted
      simp only [CacheManager.load] at done
      split at done
      · obtain ⟨-, rfl⟩ := Result.ok.inj done
        intro id isId
        obtain ⟨entry, entryIn, rfl⟩ := List.mem_map.mp isId
        rcases List.mem_append.mp entryIn with stays | new
        · exact .inl (List.mem_map_of_mem (old entry stays))
        · rw [List.mem_singleton.mp new]
          exact .inr rfl
      · cases done

namespace Memory

variable {memory after : Memory} {held : List Nat} {contents : Nat → Block} {blockId pointer : Nat}
  {access : Access}

/-- The entry of a scope adds its block and no other. -/
theorem Holding.ids_of_acquire (holding : memory.Holding held contents)
    (entered : memory.acquire blockId access = .ok pointer after) :
    ∀ id ∈ after.manager.ids, id ∈ memory.manager.ids ∨ id = blockId := by
  unfold Memory.acquire at entered
  cases got : memory.manager.get blockId with
  | error error manager =>
    rw [got] at entered
    cases entered
  | ok found manager =>
    simp only [got] at entered
    split at entered
    · cases entered
    · obtain ⟨-, rfl⟩ := Result.ok.inj entered
      exact holding.coherent.ids_of_get got

/-- The exit of a scope keeps the queue and drops one handle. -/
theorem of_leave {value : Unit} (left : memory.leave pointer = .ok value after) :
    after.manager.ids = memory.manager.ids ∧
      after.manager.handles = memory.manager.handles.erase pointer := by
  unfold Memory.leave CacheManager.release CacheManager.dropped CacheManager.sync at left
  dsimp only at left
  split at left
  · cases left
  · rename_i done
    obtain ⟨-, rfl⟩ := Result.ok.inj left
    split at done
    · split at done
      · split at done
        · obtain ⟨-, rfl⟩ := Result.ok.inj done
          exact ⟨rfl, rfl⟩
        · cases done
      · obtain ⟨-, rfl⟩ := Result.ok.inj done
        exact ⟨rfl, rfl⟩
    · obtain ⟨-, rfl⟩ := Result.ok.inj done
      exact ⟨rfl, rfl⟩

/-- A flush keeps the queue. -/
theorem Holding.ids_of_flush (holding : memory.Holding held contents)
    (ran : memory.flush = .ok () after) : after.manager.ids = memory.manager.ids := by
  obtain ⟨manager, flushed, -, queueEq, -⟩ := holding.coherent.flush
  unfold Memory.flush at ran
  split at ran
  · cases ran
  · simp only [flushed] at ran
    obtain ⟨-, rfl⟩ := Result.ok.inj ran
    exact congrArg (List.map Prod.fst) queueEq

end Memory

namespace Prog

/-- The states of the cache that a program passes through, those in which it gets stuck
included. -/
def trace : {α : Type} → Prog α → Memory → List Memory
  | _, .pure _, memory => [memory]
  | _, .fail _, memory => [memory]
  | _, .reading blockId body next, memory =>
    memory :: match memory.acquire blockId .read with
    | .error _ stuck => [stuck]
    | .ok pointer entered =>
      trace (body (entered.manager.read pointer)) entered ++
        match exec (body (entered.manager.read pointer)) entered with
        | .error _ _ => []
        | .ok found inner =>
          match inner.leave pointer with
          | .error _ stuck => [stuck]
          | .ok _ outer => trace (next found) outer
  | _, .writing blockId body next, memory =>
    memory :: match memory.acquire blockId .write with
    | .error _ stuck => [stuck]
    | .ok pointer entered =>
      trace (body (entered.manager.read pointer)) entered ++
        match exec (body (entered.manager.read pointer)) entered with
        | .error _ _ => []
        | .ok found inner =>
          match (inner.store pointer found.2).leave pointer with
          | .error _ stuck => [stuck]
          | .ok _ outer => trace (next found.1) outer
  | _, .flush next, memory =>
    memory :: match memory.flush with
    | .error _ stuck => [stuck]
    | .ok _ flushed => trace next flushed

/-- What the scopes and flushes of a program that keeps to these rules preserve. -/
structure Kept (rules : Scoped.Discipline Nat) (Inv : Memory → Prop) : Prop where
  /-- The entry of a scope that the rules admit. -/
  enter : ∀ {memory inner : Memory} {held : List Nat} {contents : Nat → Block}
    {blockId pointer : Nat} {access : Access}, memory.Holding held contents →
    rules.Admits held blockId → memory.acquire blockId access = .ok pointer inner →
    Inv memory → Inv inner
  /-- A new block. -/
  store : ∀ {memory : Memory} {pointer : Nat} (new : Option Block), Inv memory →
    Inv (memory.store pointer new)
  /-- The exit of a scope. -/
  leave : ∀ {memory outer : Memory} {pointer : Nat}, memory.leave pointer = .ok () outer →
    Inv memory → Inv outer
  /-- A flush between two scopes. -/
  flush : ∀ {memory final : Memory} {contents : Nat → Block}, memory.Holding [] contents →
    memory.flush = .ok () final → Inv memory → Inv final

section Rules

variable {rules : Scoped.Discipline Nat} {α : Type} {program : Prog α} {held : List Nat}
  {post : α → (Nat → Block) → Prop} {failed : Panic → (Nat → Block) → Prop}
  {contents : Nat → Block} {memory : Memory} {Inv : Memory → Prop}

/-- What the scopes preserve holds in every state that a program passes through, and in the one
that it leaves. -/
theorem Kept.of_wp (kept : Kept rules Inv) (size : rules.limit ≤ cacheSize)
    (onDevice : ∀ blockId, rules.Valid blockId → blockId < memory.manager.device.totalBlocks)
    (holding : memory.Holding held contents)
    (holds : program.wp rules held post failed contents) (before : Inv memory) :
    (∀ seen ∈ program.trace memory, Inv seen) ∧
      ∀ value final, program.exec memory = .ok value final → Inv final := by
  induction program generalizing held contents memory with
  | pure value => simpa [trace, exec] using before
  | fail error => simpa [trace, exec] using before
  | reading blockId body next bodyIH nextIH =>
    obtain ⟨admits, inside⟩ := holds
    obtain ⟨pointer, entered, acquired, enteredHolding, guardsEq, totalEq, readEq⟩ :=
      holding.acquire size onDevice admits .read
    have enteredDevice := totalEq ▸ onDevice
    obtain ⟨bodyTrace, bodyFinal⟩ := bodyIH _ enteredDevice enteredHolding inside
      (kept.enter holding admits acquired before)
    have met := exec_of_wp size enteredDevice enteredHolding inside
    simp only [trace, exec, acquired, readEq, List.forall_mem_cons,
      List.forall_mem_append]
    cases reached : exec (body (contents blockId)) entered with
    | error error final => exact ⟨⟨before, bodyTrace, by simp⟩, by simp⟩
    | ok found inner =>
      rw [reached] at met
      obtain ⟨after, innerHolding, innerGuards, innerTotal, rest⟩ := met
      obtain ⟨outer, left, outerHolding, -, outerTotal⟩ :=
        innerHolding.leave (innerGuards.trans guardsEq)
      have total := outerTotal.trans (innerTotal.trans totalEq)
      simp only [left]
      obtain ⟨nextTrace, nextFinal⟩ := nextIH found (total ▸ onDevice) outerHolding rest
        (kept.leave left (bodyFinal found inner reached))
      exact ⟨⟨before, bodyTrace, nextTrace⟩, nextFinal⟩
  | writing blockId body next bodyIH nextIH =>
    obtain ⟨admits, inside⟩ := holds
    obtain ⟨pointer, entered, acquired, enteredHolding, guardsEq, totalEq, readEq⟩ :=
      holding.acquire size onDevice admits .write
    have enteredDevice := totalEq ▸ onDevice
    obtain ⟨bodyTrace, bodyFinal⟩ := bodyIH _ enteredDevice enteredHolding inside
      (kept.enter holding admits acquired before)
    have met := exec_of_wp size enteredDevice enteredHolding inside
    simp only [trace, exec, acquired, readEq, List.forall_mem_cons,
      List.forall_mem_append]
    cases reached : exec (body (contents blockId)) entered with
    | error error final => exact ⟨⟨before, bodyTrace, by simp⟩, by simp⟩
    | ok found inner =>
      rw [reached] at met
      obtain ⟨after, innerHolding, innerGuards, innerTotal, rest⟩ := met
      obtain ⟨outer, left, outerHolding, -, outerTotal⟩ :=
        innerHolding.store_leave (innerGuards.trans guardsEq) found.2
      have total := outerTotal.trans (innerTotal.trans totalEq)
      simp only [left]
      obtain ⟨nextTrace, nextFinal⟩ := nextIH found.1 (total ▸ onDevice) outerHolding rest
        (kept.leave left (kept.store found.2 (bodyFinal found inner reached)))
      exact ⟨⟨before, bodyTrace, nextTrace⟩, nextFinal⟩
  | flush next ih =>
    obtain ⟨rfl, rest⟩ := holds
    obtain ⟨flushed, ran, flushedHolding, -, total, -⟩ := holding.flush
    obtain ⟨nextTrace, nextFinal⟩ := ih (total ▸ onDevice) flushedHolding rest
      (kept.flush holding ran before)
    simp only [trace, exec, ran, List.forall_mem_cons]
    exact ⟨⟨before, nextTrace⟩, nextFinal⟩

/-- The rules bound the handles. -/
theorem kept_handles (rules : Scoped.Discipline Nat) :
    Kept rules fun memory => memory.manager.handles.length ≤ rules.limit where
  enter := by
    intro memory inner held contents blockId pointer access holding admits entered _
    rw [(holding.acquired entered).1.length_handles, List.length_cons]
    exact admits.room
  store := by
    intro memory pointer new few
    cases new <;> exact few
  leave := by
    intro memory outer pointer left few
    rw [(Memory.of_leave left).2]
    exact Nat.le_trans (List.length_erase_le) few
  flush := by
    intro memory final contents holding ran few
    rw [(holding.flushed ran).1.length_handles]
    exact Nat.zero_le _

/-- The rules name the blocks that come into the cache. -/
theorem kept_ids (rules : Scoped.Discipline Nat) (ids : List Nat) :
    Kept rules fun memory => ∀ id ∈ memory.manager.ids, id ∈ ids ∨ rules.Valid id where
  enter := by
    intro memory inner held contents blockId pointer access holding admits entered named id isId
    rcases holding.ids_of_acquire entered id isId with old | same
    · exact named id old
    · rw [same]
      exact .inr admits.valid
  store := by
    intro memory pointer new named
    cases new <;> exact named
  leave := by
    intro memory outer pointer left named
    rw [(Memory.of_leave left).1]
    exact named
  flush := by
    intro memory final contents holding ran named
    rw [holding.ids_of_flush ran]
    exact named

/-- A program with a specification that leaves no room for failure returns, and only the blocks
that its rules name come into the cache. -/
theorem exec_ids_of_wp (size : rules.limit ≤ cacheSize)
    (onDevice : ∀ blockId, rules.Valid blockId → blockId < memory.manager.device.totalBlocks)
    (holding : memory.Holding held contents)
    (holds : program.wp rules held post (fun _ _ => False) contents) :
    ∃ value final after, program.exec memory = .ok value final ∧ final.Holding held after ∧
      final.manager.device.totalBlocks = memory.manager.device.totalBlocks ∧ post value after ∧
      ∀ id ∈ final.manager.ids, id ∈ memory.manager.ids ∨ rules.Valid id := by
  have named := ((kept_ids rules memory.manager.ids).of_wp size onDevice holding holds
    fun id isId => .inl isId).2
  have met := exec_of_wp size onDevice holding holds
  cases ran : program.exec memory with
  | error error final =>
    rw [ran] at met
    obtain ⟨-, -, -, impossible⟩ := met
    exact impossible.elim
  | ok value final =>
    rw [ran] at met
    obtain ⟨after, finalHolding, -, total, done⟩ := met
    exact ⟨value, final, after, rfl, finalHolding, total, done, named value final ran⟩

end Rules

end Prog

namespace Session

variable {α : Type} {session : Session} {totalBlocks inodeBitmapBlocks : Nat} {volume : Volume}
  {store : Nat → Block}

/-- A call that never has handles to more than `limit` blocks, never finds the block cache full of
pinned blocks and never asks for a lock that it holds itself. -/
structure Spares (session : Session) (call : FsM α) (limit : Nat) : Prop where
  /-- Few blocks are pinned at any point of the call. -/
  pinned : ∀ seen ∈ (call.run session.inodes).trace (Memory.idle session.manager),
    seen.manager.pinned.card ≤ limit
  /-- There is always an entry to substitute. -/
  room : ∀ after, session.exec call ≠ .error .runOutOfBlockCache after
  /-- No lock is asked for twice. -/
  unlocked : ∀ after, session.exec call ≠ .error .deadlock after

/-- A call with a specification that leaves out these failures. -/
theorem Backed.spares (backed : session.Backed totalBlocks store) {call : FsM α}
    {post : α → Inodes → (Nat → Block) → Prop} {failed : Panic → (Nat → Block) → Prop}
    (spec : FsM.wp (Prog.deviceRules totalBlocks) call session.inodes post failed store)
    (room : ∀ store, ¬failed .runOutOfBlockCache store)
    (unlocked : ∀ store, ¬failed .deadlock store) : session.Spares call 5 := by
  constructor
  · intro seen seenIn
    have holding := Memory.Holding.idle backed.coherent backed.idle
    have few := ((Prog.kept_handles _).of_wp (show 5 ≤ cacheSize by decide)
      (fun blockId valid => Nat.lt_of_lt_of_le valid backed.onDevice) holding spec
      (Nat.le_trans (Nat.le_of_eq holding.length_handles) (Nat.zero_le 5))).1 seen seenIn
    exact seen.manager.card_pinned_le.trans few
  · intro after ran
    exact room _ (backed.panicked spec ran)
  · intro after ran
    exact unlocked _ (backed.panicked spec ran)

/-- In every session that lawful calls lead to, whatever its block cache holds at the time, every
next lawful call and every look at the data of an inode pins at most five blocks at a time. -/
theorem block_cache_suffices {device : Disk} (small : totalBlocks < 2 ^ 64)
    (history : History Call.Lawful device totalBlocks inodeBitmapBlocks volume session)
    {manager : CacheManager} (coherent : manager.Coherent session.contents)
    (idle : manager.handles = []) (onDevice : totalBlocks ≤ manager.device.totalBlocks) :
    (∀ call : Call, call.Lawful volume →
      Spares { session with manager } (call.run session.fs) 5) ∧
    ∀ pointer ∈ session.inodes.handles,
      Spares { session with manager } (do onBlocks (← deref pointer).data) 5 := by
  obtain ⟨extents, marked, store, serves⟩ := history.serves small
  rw [serves.backed.contents_eq] at coherent
  have cached : Serves { session with manager } totalBlocks volume extents marked store :=
    ⟨⟨coherent, idle, onDevice⟩, serves.represents⟩
  have absent : Panic.runOutOfBlockCache ∉ Call.panics ∧ Panic.deadlock ∉ Call.panics := by
    decide
  constructor
  · intro call lawful
    exact cached.backed.spares (cached.wp_call lawful) (fun _ => absent.1) fun _ => absent.2
  · intro pointer isHandle
    have isEntry := serves.represents.coherent.pinned pointer isHandle
    obtain ⟨number, file, found, isObject⟩ := serves.represents.coherent.described pointer isEntry
    have admits := serves.represents.admits (List.getElem?_eq_some_iff.mp found).1
    have spec : FsM.wp (Prog.deviceRules totalBlocks)
        (do onBlocks (← deref pointer).data) session.inodes (fun _ _ _ => True)
        (fun _ _ => False) store := by
      refine FsM.wp_bind.mpr (FsM.wp_deref.mpr (FsM.wp_onBlocks.mpr ?_))
      rw [isObject]
      exact CaInode.wp_data _ (fun id idIn => admits id (List.mem_append_right _ idIn)) trivial
    exact cached.backed.spares spec (fun _ => id) fun _ => id

/-- After `test.txt` was created and written, it can be written again with five blocks at most. -/
theorem block_cache_suffices_test : ∃ bytes session,
    History Call.Lawful (Disk.new 131072) 131072 2 (testVolume bytes [84]) session ∧
      session.Spares ((Call.write 1 [84, 84]).run session.fs) 5 := by
  obtain ⟨bytes, session, history⟩ := exists_testHistory
  obtain ⟨-, extents, marked, store, tracks⟩ := history.tidy (by decide)
  have lawful : History Call.Lawful (Disk.new 131072) 131072 2 (testVolume bytes [84]) session :=
    history.mono fun _ _ tidy => tidy.lawful
  have backed := tracks.serves.backed
  have keeps : (Call.write 1 [84, 84]).Lawful (testVolume bytes [84]) :=
    ⟨by decide, ⟨.file, bytes, [84]⟩, rfl, by show dataBlocks 1 ≤ dataBlocks 2; decide⟩
  have spared := block_cache_suffices (by decide) lawful
    (backed.contents_eq ▸ backed.coherent) backed.idle backed.onDevice
  exact ⟨bytes, session, lawful, spared.1 _ keeps⟩

end Session

end Canyon.Fs
