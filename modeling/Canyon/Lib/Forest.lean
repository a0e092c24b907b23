import Mathlib.Algebra.Ring.GeomSum
import Mathlib.Data.List.Flatten
import Mathlib.Data.List.Perm.Basic
import Mathlib.Tactic.Ring

/-!
# Forests of a fixed depth

A forest is given by the children of each node. All its roots have one level, the number of
inner levels below them; what stands below the lowest level are its leaves. The same forest
is flattened in two ways: depth first, as a recursive walk visits it, and level by level, as
it is laid out. `Layered.leaves_eq` and `Layered.innerNodes_perm` say that the two agree, on the
leaves in order and on the inner nodes up to order.
-/

namespace Canyon.Lib

section Forest

variable {κ : Type} (children : κ → List κ) (kind : Nat → κ → Prop)

/-- Inner nodes below a node, each before what is below it. -/
def innerNodes : Nat → κ → List κ
  | 0, _ => []
  | level + 1, node => (children node).flatMap fun child => child :: innerNodes level child

/-- Leaves below a node, in order. -/
def leaves : Nat → κ → List κ
  | 0, node => children node
  | level + 1, node => (children node).flatMap (leaves level)

/-- A node and all inner nodes below it are of the kind that their level asks for. -/
def Typed : Nat → κ → Prop
  | 0, node => kind 0 node
  | level + 1, node => kind (level + 1) node ∧ ∀ child ∈ children node, Typed level child

/-- A forest laid out level by level: its roots, the inner nodes below them, the leaves. -/
inductive Layered : Nat → List κ → List κ → List κ → Prop where
  /-- Nodes of the lowest level have leaves as children. -/
  | base {nodes : List κ} (kinds : ∀ node ∈ nodes, kind 0 node) :
      Layered 0 nodes [] (nodes.flatMap children)
  /-- The children of the other nodes are the roots of the levels below. -/
  | step {level : Nat} {nodes index data : List κ} (kinds : ∀ node ∈ nodes, kind (level + 1) node)
      (rest : Layered level (nodes.flatMap children) index data) :
      Layered (level + 1) nodes (nodes.flatMap children ++ index) data

variable {children kind} {level : Nat} {nodes index data : List κ}

/-- The leaves of the depth-first walk are those of the layout, in the same order. -/
theorem Layered.leaves_eq (layered : Layered children kind level nodes index data) :
    nodes.flatMap (leaves children level) = data := by
  induction layered with
  | base kinds => rfl
  | step kinds rest ih =>
    rw [← ih, List.flatMap_assoc]
    rfl

/-- The inner nodes of the depth-first walk are those of the layout. -/
theorem Layered.innerNodes_perm (layered : Layered children kind level nodes index data) :
    (nodes.flatMap (innerNodes children level)).Perm index := by
  induction layered with
  | base kinds => simp [innerNodes]
  | @step level nodes index data kinds rest ih =>
    have walk : nodes.flatMap (innerNodes children (level + 1)) =
        (nodes.flatMap children).flatMap fun child => child :: innerNodes children level child := by
      rw [List.flatMap_assoc]
      rfl
    have parted := List.map_append_flatMap_perm (nodes.flatMap children) id
      (innerNodes children level)
    rw [List.map_id] at parted
    rw [walk]
    exact parted.symm.trans (ih.append_left _)

/-- Every node of a layout is of the kind of its level. -/
theorem Layered.typed (layered : Layered children kind level nodes index data) :
    ∀ node ∈ nodes, Typed children kind level node := by
  induction layered with
  | base kinds => exact kinds
  | step kinds rest ih =>
    intro node nodeIn
    refine ⟨kinds node nodeIn, ?_⟩
    intro child childIn
    exact ih child (List.mem_flatMap.mpr ⟨node, nodeIn, childIn⟩)

/-- Nodes with few children have few children together. -/
theorem length_flatMap_le_mul {width : Nat} (narrow : ∀ node, (children node).length ≤ width)
    (nodes : List κ) : (nodes.flatMap children).length ≤ nodes.length * width := by
  induction nodes with
  | nil => simp
  | cons node nodes ih =>
    have first := narrow node
    rw [List.flatMap_cons, List.length_append, List.length_cons, Nat.succ_mul]
    omega

/-- Nodes with few children have few leaves below them. -/
theorem Layered.length_leaves_le {width : Nat}
    (layered : Layered children kind level nodes index data)
    (narrow : ∀ node, (children node).length ≤ width) :
    data.length ≤ nodes.length * width ^ (level + 1) := by
  induction layered with
  | @base nodes kinds => simpa using length_flatMap_le_mul narrow nodes
  | @step level nodes index data kinds rest ih =>
    calc data.length ≤ (nodes.flatMap children).length * width ^ (level + 1) := ih
      _ ≤ nodes.length * width * width ^ (level + 1) :=
        Nat.mul_le_mul_right _ (length_flatMap_le_mul narrow nodes)
      _ = nodes.length * width ^ (level + 1 + 1) := by
        rw [Nat.mul_assoc, ← Nat.pow_succ']

/-- Nodes with few children have few inner nodes below them. -/
theorem Layered.length_nodes_le {width : Nat}
    (layered : Layered children kind level nodes index data)
    (narrow : ∀ node, (children node).length ≤ width) :
    nodes.length + index.length ≤ nodes.length * ∑ i ∈ Finset.range (level + 1), width ^ i := by
  induction layered with
  | @base nodes kinds => simp
  | @step level nodes index data kinds rest ih =>
    rw [geom_sum_succ, List.length_append]
    calc nodes.length + ((nodes.flatMap children).length + index.length)
        ≤ nodes.length + (nodes.flatMap children).length *
            ∑ i ∈ Finset.range (level + 1), width ^ i := Nat.add_le_add_left ih _
      _ ≤ nodes.length + nodes.length * width * ∑ i ∈ Finset.range (level + 1), width ^ i :=
        Nat.add_le_add_left (Nat.mul_le_mul_right _ (length_flatMap_le_mul narrow nodes)) _
      _ = nodes.length * (width * ∑ i ∈ Finset.range (level + 1), width ^ i + 1) := by ring

/-- A layout depends on its own nodes only. -/
theorem Layered.congr {children' : κ → List κ} {kind' : Nat → κ → Prop}
    (layered : Layered children kind level nodes index data)
    (same : ∀ node ∈ nodes ++ index, children' node = children node ∧
      ∀ level, kind level node → kind' level node) :
    Layered children' kind' level nodes index data := by
  induction layered with
  | @base nodes kinds =>
    have equal : nodes.flatMap children = nodes.flatMap children' :=
      List.flatMap_congr fun node nodeIn => (same node (by simp [nodeIn])).1.symm
    rw [equal]
    exact .base fun node nodeIn => (same node (by simp [nodeIn])).2 0 (kinds node nodeIn)
  | @step level nodes index data kinds rest ih =>
    have equal : nodes.flatMap children = nodes.flatMap children' :=
      List.flatMap_congr fun node nodeIn => (same node (by simp [nodeIn])).1.symm
    have inner := ih fun node nodeIn => same node (List.mem_append_right _ nodeIn)
    rw [equal] at inner ⊢
    exact .step (fun node nodeIn => (same node (by simp [nodeIn])).2 _ (kinds node nodeIn)) inner

end Forest

end Canyon.Lib
