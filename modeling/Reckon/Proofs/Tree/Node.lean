import Mathlib.Data.List.Nodup
import Reckon.Proofs.Tree.PostOrder

/-!
# The nodes of a tree

A node is told by the way that leads to it from the root. In post-order a node comes before another
if it lies below it, or to the left of it where the ways to the two part. The labels that an agenda
writes are those of all the nodes in this order, one label for each node.

## Main definitions

* `Tree.node? t way`: the node that a way leads to, with what lies below it
* `Tree.Before`: the post-order of the ways
* `Tree.ways`: the ways to all nodes, gathered by recursion

## Main results

* `mem_ways`, `pairwise_ways`: the ways lead to every node, in post-order
* `map_label_ways`: the labels of a tree are those of its nodes
* `foldl_appendPostOrder`: the labels of several trees follow one another
* `agenda_walks_in_postOrder`: what is gathered with an agenda
-/

namespace Reckon

namespace Tree

/-- The sides on which a node may have a child. -/
inductive Side where
  | left
  | right
  deriving DecidableEq, Repr

/-- The child of the root on a side. -/
def child? : Tree → Side → Option Tree
  | unary _ r, .right => some r
  | leftOnly _ l, .left => some l
  | binary _ l _, .left => some l
  | binary _ _ r, .right => some r
  | _, _ => none

/-- The node that a way from the root leads to, if there is one, with what lies below it. -/
def node? : Tree → (way : List Side) → Option Tree
  | t, [] => some t
  | t, side :: way => (t.child? side).bind fun c => c.node? way

@[simp] theorem node?_nil (t : Tree) : t.node? [] = some t := rfl

@[simp] theorem node?_cons (t : Tree) (side : Side) (way : List Side) :
    t.node? (side :: way) = (t.child? side).bind fun c => c.node? way := rfl

/-- The order in which the nodes are listed, told by the ways to them: a node comes after all below
it, and what is on its left before what is on its right. -/
inductive Before : List Side → List Side → Prop where
  | beneath (side : Side) (way : List Side) : Before (side :: way) []
  | across (way way' : List Side) : Before (.left :: way) (.right :: way')
  | cons (side : Side) {way way' : List Side} :
      Before way way' → Before (side :: way) (side :: way')

theorem Before.ne {way way' : List Side} (h : Before way way') : way ≠ way' := by
  induction h with
  | beneath | across => simp
  | cons side _ ih => simpa using ih

/-- The ways to the nodes of a tree, the root last. -/
def ways : Tree → List (List Side)
  | leaf _ => [[]]
  | unary _ r => r.ways.map (.right :: ·) ++ [[]]
  | leftOnly _ l => l.ways.map (.left :: ·) ++ [[]]
  | binary _ l r => l.ways.map (.left :: ·) ++ (r.ways.map (.right :: ·) ++ [[]])

/-- The ways are those that lead to a node. -/
theorem mem_ways {t : Tree} {way : List Side} : way ∈ t.ways ↔ (t.node? way).isSome := by
  induction t generalizing way with
  | leaf l =>
    cases way with
    | nil => simp [ways]
    | cons side way => simp [ways, child?]
  | unary l r ih | leftOnly l r ih =>
    cases way with
    | nil => simp [ways]
    | cons side way => cases side <;> simp [ways, child?, ih]
  | binary l left right ihl ihr =>
    cases way with
    | nil => simp [ways]
    | cons side way => cases side <;> simp [ways, child?, ihl, ihr]

/-- One side of a node after another keeps the ways in order. -/
theorem pairwise_map_cons {ws : List (List Side)} (h : ws.Pairwise Before) (side : Side) :
    (ws.map (side :: ·)).Pairwise Before :=
  List.pairwise_map.mpr (h.imp fun hw => .cons side hw)

/-- The root is the last node. -/
theorem pairwise_concat_root {ws : List (List Side)} (h : ws.Pairwise Before)
    (hne : ∀ way ∈ ws, way ≠ []) : (ws ++ [[]]).Pairwise Before := by
  refine List.pairwise_append.mpr ⟨h, List.pairwise_singleton _ _, fun way hway root hroot => ?_⟩
  obtain rfl := List.mem_singleton.mp hroot
  obtain ⟨side, way, rfl⟩ := List.exists_cons_of_ne_nil (hne way hway)
  exact .beneath side way

/-- The ways are in post-order. -/
theorem pairwise_ways (t : Tree) : t.ways.Pairwise Before := by
  induction t with
  | leaf l => exact List.pairwise_singleton _ _
  | unary l r ih | leftOnly l r ih =>
    exact pairwise_concat_root (pairwise_map_cons ih _) (by simp)
  | binary l left right ihl ihr =>
    rw [ways, ← List.append_assoc]
    refine pairwise_concat_root (List.pairwise_append.mpr ⟨pairwise_map_cons ihl _,
      pairwise_map_cons ihr _, ?_⟩) (by simp [or_imp, forall_and])
    intro way hway way' hway'
    obtain ⟨way, -, rfl⟩ := List.mem_map.mp hway
    obtain ⟨way', -, rfl⟩ := List.mem_map.mp hway'
    exact .across way way'

/-- No way occurs twice. -/
theorem nodup_ways (t : Tree) : t.ways.Nodup :=
  (pairwise_ways t).imp Before.ne

/-- The labels of a tree are those of its nodes. -/
theorem map_label_ways (t : Tree) :
    t.ways.map (fun way => (t.node? way).map label) = t.labels.map some := by
  induction t with
  | leaf l => rfl
  | unary l r ih | leftOnly l r ih => simp [ways, labels, child?, label, ← ih]
  | binary l left right ihl ihr =>
    simp [ways, labels, child?, label, ← ihl, ← ihr, Function.comp_def]

/-- The labels of several trees follow one another. -/
theorem foldl_appendPostOrder (out : List Text) (ts : List Tree) :
    ts.foldl appendPostOrder out = out ++ ts.flatMap labels := by
  induction ts generalizing out with
  | nil => simp
  | cons t ts ih => simp [ih, appendPostOrder_eq]

/-- **The agenda walks in post-order.** The labels that are appended to given ones are those of the
tree by recursion, for one tree and for several in turn. They are the labels of all the nodes, each
once, every node after its children and the left child before the right one. -/
theorem agenda_walks_in_postOrder (out : List Text) :
    (∀ t, appendPostOrder out t = out ++ t.labels) ∧
      (∀ ts : List Tree, ts.foldl appendPostOrder out = out ++ ts.flatMap labels) ∧
      ∀ t, ∃ ways : List (List Side), ways.Pairwise Before ∧ ways.Nodup ∧
        (∀ way, way ∈ ways ↔ (node? t way).isSome) ∧
        (appendPostOrder out t).map some =
          out.map some ++ ways.map fun way => (node? t way).map label := by
  refine ⟨appendPostOrder_eq out, foldl_appendPostOrder out, fun t => ⟨t.ways, ?_⟩⟩
  refine ⟨pairwise_ways t, nodup_ways t, fun way => mem_ways, ?_⟩
  rw [appendPostOrder_eq, List.map_append, map_label_ways]

/-- A node with a child on the left only comes after it as well. -/
example : appendPostOrder [['0']] (.binary ['+'] (.leftOnly ['a'] (.leaf ['1'])) (.leaf ['2'])) =
    [['0'], ['1'], ['a'], ['2'], ['+']] := by cbv

end Tree

end Reckon
