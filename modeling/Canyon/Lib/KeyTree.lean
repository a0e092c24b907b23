import Mathlib.Data.List.Nodup

/-!
# Trees with keys

A tree whose nodes have a key and a value. Siblings may have the same key: a walk along keys
takes the first child with each. A graft adds a last child to the node that a walk ends at.
-/

namespace Canyon.Lib

/-! ## The first element with a property -/

section UpdateFirst

variable {α β : Type} {p : α → Bool} {f : α → α}

/-- Change the first element with a property. -/
def updateFirst (p : α → Bool) (f : α → α) : List α → List α
  | [] => []
  | first :: rest => if p first then f first :: rest else first :: updateFirst p f rest

/-- What the change keeps of each element, it keeps of the list. -/
theorem map_updateFirst {g : α → β} (kept : ∀ element, g (f element) = g element)
    (list : List α) : (updateFirst p f list).map g = list.map g := by
  induction list with
  | nil => rfl
  | cons first rest ih =>
    rw [updateFirst]
    split
    · rw [List.map_cons, List.map_cons, kept]
    · rw [List.map_cons, List.map_cons, ih]

/-- An element after the change was one before, or is the one changed. -/
theorem mem_updateFirst {list : List α} {element : α} (elementIn : element ∈ updateFirst p f list) :
    element ∈ list ∨ ∃ old, list.find? p = some old ∧ element = f old := by
  induction list with
  | nil => exact .inl elementIn
  | cons first rest ih =>
    rw [updateFirst] at elementIn
    by_cases hit : p first = true
    · rw [if_pos hit] at elementIn
      rcases List.mem_cons.mp elementIn with rfl | later
      · exact .inr ⟨first, List.find?_cons_of_pos hit, rfl⟩
      · exact .inl (List.mem_cons_of_mem _ later)
    · rw [if_neg hit] at elementIn
      rcases List.mem_cons.mp elementIn with rfl | later
      · exact .inl List.mem_cons_self
      · rcases ih later with old | ⟨old, found, isOld⟩
        · exact .inl (List.mem_cons_of_mem _ old)
        · exact .inr ⟨old, by rwa [List.find?_cons_of_neg hit], isOld⟩

/-- A search by a property that the change keeps finds the element as it is after the change. -/
theorem find?_updateFirst {q : α → Bool} (kept : ∀ element, q (f element) = q element)
    (same : ∀ left right, p left = true → q left = true → p right = q right) (list : List α)
    {element : α} (found : list.find? q = some element) :
    (updateFirst p f list).find? q = some (if p element then f element else element) := by
  induction list with
  | nil => contradiction
  | cons first rest ih =>
    rw [updateFirst]
    by_cases hit : q first = true
    · rw [List.find?_cons_of_pos hit] at found
      obtain rfl := Option.some.inj found
      split
      · rw [List.find?_cons_of_pos (by rwa [kept])]
      · rw [List.find?_cons_of_pos hit]
    · rw [List.find?_cons_of_neg hit] at found
      by_cases first_p : p first = true
      · have other : p element = false := by
          have qElement := List.find?_some found
          by_contra isP
          rw [Bool.not_eq_false] at isP
          have := same element first isP qElement
          rw [first_p] at this
          exact hit this.symm
        rw [if_pos first_p, List.find?_cons_of_neg (by rwa [kept]), found, other]
        rfl
      · rw [if_neg first_p, List.find?_cons_of_neg hit]
        exact ih found

end UpdateFirst

/-! ## Trees -/

/-- A tree whose nodes have a key and a value. -/
inductive KeyTree (κ α : Type) where
  /-- A node. -/
  | node (key : κ) (value : α) (children : List (KeyTree κ α))

namespace KeyTree

variable {κ α : Type}

/-- The key of the root. -/
def key : KeyTree κ α → κ
  | node key _ _ => key

/-- The value of the root. -/
def value : KeyTree κ α → α
  | node _ value _ => value

/-- The trees below the root. -/
def children : KeyTree κ α → List (KeyTree κ α)
  | node _ _ children => children

/-- Every node has a property. -/
inductive All (p : κ → α → Prop) : KeyTree κ α → Prop where
  /-- The root has it, and all nodes below. -/
  | node {key : κ} {value : α} {children : List (KeyTree κ α)} (root : p key value)
      (below : ∀ child ∈ children, All p child) : All p (node key value children)

/-- No two siblings have the same key. -/
inductive Distinct : KeyTree κ α → Prop where
  /-- The children have different keys, and so have the nodes below. -/
  | node {key : κ} {value : α} {children : List (KeyTree κ α)}
      (keys : (children.map KeyTree.key).Nodup)
      (below : ∀ child ∈ children, Distinct child) : Distinct (node key value children)

variable {tree found new : KeyTree κ α} {p : κ → α → Prop} {keys : List κ}

/-- The children of the root have different keys. -/
theorem Distinct.nodup_keys (distinct : tree.Distinct) : (tree.children.map KeyTree.key).Nodup := by
  obtain ⟨keys, -⟩ := distinct
  exact keys

/-- The root has the property of all nodes. -/
theorem All.root (all : tree.All p) : p tree.key tree.value := by
  obtain ⟨root, -⟩ := all
  exact root

/-- The trees below the root have the property of all nodes. -/
theorem All.child (all : tree.All p) : ∀ child ∈ tree.children, child.All p := by
  obtain ⟨-, below⟩ := all
  exact below

/-- A weaker property holds of all nodes too. -/
theorem All.mono {q : κ → α → Prop} (all : tree.All p)
    (weaker : ∀ key value, p key value → q key value) : tree.All q := by
  induction all with
  | node root below ih => exact .node (weaker _ _ root) ih

variable [BEq κ]

/-- The first child with a key. -/
def child? (tree : KeyTree κ α) (key : κ) : Option (KeyTree κ α) :=
  tree.children.find? fun child => child.key == key

/-- The first child with a key is a child. -/
theorem mem_of_child? {child : KeyTree κ α} {key : κ} (step : tree.child? key = some child) :
    child ∈ tree.children :=
  List.mem_of_find?_eq_some step

/-- Walk from the root along keys; the first key that no child has stops the walk. -/
def walk : List κ → KeyTree κ α → Except κ (KeyTree κ α)
  | [], tree => .ok tree
  | key :: keys, tree =>
    match tree.child? key with
    | some child => walk keys child
    | none => .error key

/-- A walk of at least one step goes through a child. -/
theorem exists_child_of_walk {key : κ} (walked : tree.walk (key :: keys) = .ok found) :
    ∃ child, tree.child? key = some child ∧ child.walk keys = .ok found := by
  rw [walk] at walked
  cases step : tree.child? key with
  | none =>
    rw [step] at walked
    contradiction
  | some child =>
    rw [step] at walked
    exact ⟨child, rfl, walked⟩

/-- Add a last child to the node that a walk ends at. -/
def graft (new : KeyTree κ α) : List κ → KeyTree κ α → KeyTree κ α
  | [], node key value children => node key value (children ++ [new])
  | step :: keys, node key value children =>
    node key value (updateFirst (fun child => child.key == step) (graft new keys) children)

/-- A graft keeps the key of the root. -/
@[simp] theorem key_graft (new tree : KeyTree κ α) (keys : List κ) :
    (graft new keys tree).key = tree.key := by
  cases keys <;> cases tree <;> rfl

/-- A graft keeps the value of the root. -/
@[simp] theorem value_graft (new tree : KeyTree κ α) (keys : List κ) :
    (graft new keys tree).value = tree.value := by
  cases keys <;> cases tree <;> rfl

/-- The nodes below the end of a walk are nodes of the tree. -/
theorem All.walk (all : tree.All p) (walked : tree.walk keys = .ok found) : found.All p := by
  induction keys generalizing tree with
  | nil =>
    obtain rfl := Except.ok.inj walked
    exact all
  | cons key keys ih =>
    obtain ⟨child, step, walked⟩ := exists_child_of_walk walked
    exact ih (all.child child (mem_of_child? step)) walked

/-- A graft of nodes with a property keeps the property. -/
theorem All.graft (all : tree.All p) (isNew : new.All p) (keys : List κ) :
    (KeyTree.graft new keys tree).All p := by
  induction keys generalizing tree with
  | nil =>
    obtain ⟨root, below⟩ := all
    refine .node root fun child childIn => ?_
    rcases List.mem_append.mp childIn with old | last
    · exact below child old
    · exact List.mem_singleton.mp last ▸ isNew
  | cons key keys ih =>
    obtain ⟨root, below⟩ := all
    refine .node root fun child childIn => ?_
    rcases mem_updateFirst childIn with old | ⟨old, found, rfl⟩
    · exact below child old
    · exact ih (below old (List.mem_of_find?_eq_some found))

/-- A graft of nodes with a property keeps the property below the root. -/
theorem forall_children_graft (below : ∀ child ∈ tree.children, child.All p) (isNew : new.All p)
    (keys : List κ) : ∀ child ∈ (KeyTree.graft new keys tree).children, child.All p := by
  obtain ⟨key, value, children⟩ := tree
  intro child childIn
  cases keys with
  | nil =>
    rcases List.mem_append.mp childIn with old | last
    · exact below child old
    · exact List.mem_singleton.mp last ▸ isNew
  | cons step keys =>
    rcases mem_updateFirst childIn with old | ⟨old, found, rfl⟩
    · exact below child old
    · exact (below old (List.mem_of_find?_eq_some found)).graft isNew keys

/-- A walk of at least one step ends below the root. -/
theorem all_of_walk_cons {key : κ} (below : ∀ child ∈ tree.children, child.All p)
    (walked : tree.walk (key :: keys) = .ok found) : found.All p := by
  obtain ⟨child, step, walked⟩ := exists_child_of_walk walked
  exact (below child (mem_of_child? step)).walk walked

/-- A graft further down keeps the values of the children. -/
theorem map_children_graft_cons {γ : Type} (f : α → γ) (new tree : KeyTree κ α) (key : κ)
    (keys : List κ) : (graft new (key :: keys) tree).children.map (fun child => f child.value) =
      tree.children.map fun child => f child.value := by
  obtain ⟨rootKey, value, children⟩ := tree
  exact map_updateFirst (fun child => by rw [value_graft]) children

/-- A graft at the root adds a last child. -/
theorem children_graft_nil (new tree : KeyTree κ α) :
    (graft new [] tree).children = tree.children ++ [new] := by
  cases tree
  rfl

/-- A graft of a key that no sibling has keeps siblings distinct. -/
theorem Distinct.graft (distinct : tree.Distinct) (isNew : new.Distinct)
    (walked : tree.walk keys = .ok found) (fresh : ∀ child ∈ found.children, child.key ≠ new.key) :
    (KeyTree.graft new keys tree).Distinct := by
  induction keys generalizing tree with
  | nil =>
    obtain rfl := Except.ok.inj walked
    obtain ⟨names, below⟩ := distinct
    refine .node ?_ fun child childIn => ?_
    · rw [List.map_append, List.map_singleton, ← List.concat_eq_append]
      refine List.Nodup.concat ?_ names
      rw [List.mem_map]
      rintro ⟨child, childIn, same⟩
      exact fresh child childIn same
    · rcases List.mem_append.mp childIn with old | last
      · exact below child old
      · exact List.mem_singleton.mp last ▸ isNew
  | cons key keys ih =>
    obtain ⟨child, step, walked⟩ := exists_child_of_walk walked
    obtain ⟨names, below⟩ := distinct
    refine .node ?_ fun other otherIn => ?_
    · rw [map_updateFirst fun element => key_graft new element keys]
      exact names
    · rcases mem_updateFirst otherIn with old | ⟨old, hit, rfl⟩
      · exact below other old
      · have isChild : some old = some child := hit.symm.trans step
        obtain rfl := Option.some.inj isChild
        exact ih (below old (List.mem_of_find?_eq_some hit)) walked

variable [LawfulBEq κ]

/-- The first child with a key has the key. -/
theorem key_of_child? {child : KeyTree κ α} {key : κ} (step : tree.child? key = some child) :
    child.key = key :=
  beq_iff_eq.mp (List.find?_some (p := fun child : KeyTree κ α => child.key == key) step)

/-- The child that a walk takes first, after a graft further down. -/
theorem child?_graft_cons {child : KeyTree κ α} {key : κ} (step : tree.child? key = some child)
    (new : KeyTree κ α) (keys : List κ) :
    (graft new (key :: keys) tree).child? key = some (graft new keys child) := by
  obtain ⟨rootKey, value, children⟩ := tree
  have hit : (child.key == key) = true := beq_iff_eq.mpr (key_of_child? step)
  have found := find?_updateFirst (p := fun child => child.key == key)
    (f := graft new keys) (q := fun child => child.key == key)
    (fun element => by rw [key_graft]) (fun _ _ _ _ => rfl) children step
  rw [if_pos hit] at found
  exact found

/-- A walk to the end of a graft's own walk, and on from there. -/
theorem walk_graft (walked : tree.walk keys = .ok found) (new : KeyTree κ α) (rest : List κ) :
    walk (keys ++ rest) (graft new keys tree) = walk rest (graft new [] found) := by
  induction keys generalizing tree with
  | nil =>
    obtain rfl := Except.ok.inj walked
    rfl
  | cons key keys ih =>
    obtain ⟨child, step, walked⟩ := exists_child_of_walk walked
    rw [List.cons_append, walk, child?_graft_cons step]
    exact ih walked

/-- The first child with a key is, after a graft, the same child or what a graft made of it. -/
theorem child?_graft {child : KeyTree κ α} {key : κ} (step : tree.child? key = some child)
    (new : KeyTree κ α) (keys : List κ) :
    (graft new keys tree).child? key = some child ∨
      ∃ rest, keys = key :: rest ∧
        (graft new keys tree).child? key = some (graft new rest child) := by
  cases keys with
  | nil =>
    obtain ⟨rootKey, value, children⟩ := tree
    refine .inl ?_
    show (children ++ [new]).find? (fun child => child.key == key) = some child
    rw [List.find?_append,
      show children.find? (fun child => child.key == key) = some child from step]
    rfl
  | cons first rest =>
    by_cases same : first = key
    · subst same
      exact .inr ⟨rest, rfl, child?_graft_cons step new rest⟩
    · obtain ⟨rootKey, value, children⟩ := tree
      have found := find?_updateFirst (p := fun child => child.key == first)
        (f := graft new rest) (q := fun child => child.key == key)
        (fun element => by rw [key_graft]) (fun left right isFirst isKey => absurd
          ((beq_iff_eq.mp isFirst).symm.trans (beq_iff_eq.mp isKey)) same) children step
      have other : ¬(child.key == first) = true := by
        intro isFirst
        exact same ((beq_iff_eq.mp isFirst).symm.trans (key_of_child? step))
      rw [if_neg other] at found
      exact .inl found

/-- Every walk of the tree ends, after a graft, at a node of the same key and value. -/
theorem walk_of_graft {path : List κ} (walked : tree.walk path = .ok found) (new : KeyTree κ α)
    (keys : List κ) :
    ∃ after, walk path (graft new keys tree) = .ok after ∧ after.key = found.key ∧
      after.value = found.value := by
  induction path generalizing tree keys with
  | nil =>
    obtain rfl := Except.ok.inj walked
    exact ⟨_, rfl, key_graft .., value_graft ..⟩
  | cons key path ih =>
    obtain ⟨child, step, walked⟩ := exists_child_of_walk walked
    rw [walk]
    rcases child?_graft step new keys with same | ⟨rest, -, grafted⟩
    · rw [same]
      exact ⟨found, walked, rfl, rfl⟩
    · rw [grafted]
      exact ih walked rest

end KeyTree

end Canyon.Lib
