import Epica.Lib.Reach
import Mathlib.Data.List.Perm.Basic

/-!
# Stable directed multigraphs: what is relied on, and a graph that has it

`StableDiGraph G` is a family of directed multigraphs `G N E` with node weights `N` and edge
weights `E`.  Nodes are named by indices that stay valid when other nodes are removed:

* `addNode`          picks an index that is not in use;
* `removeNode`       removes the node and every edge that touches it;
* `edgeReferences`   all edges, `edgesDirected` those out of, or into, one node;
* `dfs g s`          the indices a depth-first search from `s` yields, `s` first.

Nothing is said about the order of the edges, hence `List.Perm` in the laws.

`EdgeList` is the plain implementation: a list of node slots, and the edges oldest first.
-/

set_option linter.unusedSectionVars false

namespace Lib

structure EdgeRef (E : Type) where
  source : Nat
  target : Nat
  weight : E

inductive Direction where
  | outgoing
  | incoming
deriving DecidableEq

/-- the end of an edge at which the edges of one direction meet the node -/
def EdgeRef.endpoint {E : Type} (e : EdgeRef E) : Direction → Nat
  | .outgoing => e.source
  | .incoming => e.target

class StableDiGraph (G : Type → Type → Type) where
  new {N E : Type} : G N E
  addNode {N E : Type} : G N E → N → Nat × G N E
  removeNode {N E : Type} : G N E → Nat → G N E
  addEdge {N E : Type} : G N E → Nat → Nat → E → G N E
  nodeWeight {N E : Type} : G N E → Nat → Option N
  edgeReferences {N E : Type} : G N E → List (EdgeRef E)
  edgesDirected {N E : Type} : G N E → Nat → Direction → List (EdgeRef E)
  dfs {N E : Type} : G N E → Nat → List Nat
  nodeWeight_new {N E : Type} (i : Nat) : nodeWeight (new : G N E) i = none
  edgeReferences_new {N E : Type} : edgeReferences (new : G N E) = []
  nodeWeight_fresh {N E : Type} (g : G N E) (n : N) : nodeWeight g (addNode g n).1 = none
  nodeWeight_addNode {N E : Type} (g : G N E) (n : N) (i : Nat) :
    nodeWeight (addNode g n).2 i = if i = (addNode g n).1 then some n else nodeWeight g i
  edgeReferences_addNode {N E : Type} (g : G N E) (n : N) :
    (edgeReferences (addNode g n).2).Perm (edgeReferences g)
  nodeWeight_removeNode {N E : Type} (g : G N E) (i j : Nat) :
    nodeWeight (removeNode g i) j = if j = i then none else nodeWeight g j
  edgeReferences_removeNode {N E : Type} (g : G N E) (i : Nat) :
    (edgeReferences (removeNode g i)).Perm
      ((edgeReferences g).filter fun e => e.source ≠ i ∧ e.target ≠ i)
  nodeWeight_addEdge {N E : Type} (g : G N E) (a b : Nat) (w : E) (i : Nat) :
    nodeWeight (addEdge g a b w) i = nodeWeight g i
  edgeReferences_addEdge {N E : Type} (g : G N E) (a b : Nat) (w : E) :
    (nodeWeight g a).isSome → (nodeWeight g b).isSome →
    (edgeReferences (addEdge g a b w)).Perm (⟨a, b, w⟩ :: edgeReferences g)
  edgesDirected_perm {N E : Type} (g : G N E) (i : Nat) (d : Direction) :
    (edgesDirected g i d).Perm ((edgeReferences g).filter fun e => e.endpoint d = i)
  edge_live {N E : Type} (g : G N E) (e : EdgeRef E) : e ∈ edgeReferences g →
    (nodeWeight g e.source).isSome ∧ (nodeWeight g e.target).isSome
  dfs_head {N E : Type} (g : G N E) (s : Nat) : (nodeWeight g s).isSome → ∃ l, dfs g s = s :: l
  dfs_nodup {N E : Type} (g : G N E) (s : Nat) : (dfs g s).Nodup
  mem_dfs {N E : Type} (g : G N E) (s x : Nat) : (nodeWeight g s).isSome →
    (x ∈ dfs g s ↔ Relation.ReflTransGen
      (fun a b => ∃ e ∈ edgeReferences g, e.source = a ∧ e.target = b) s x)

namespace StableDiGraph

attribute [simp] nodeWeight_new edgeReferences_new nodeWeight_addNode nodeWeight_removeNode
  nodeWeight_addEdge

variable {G : Type → Type → Type} [StableDiGraph G] {N E : Type}

theorem mem_edgesDirected (g : G N E) (i : Nat) (d : Direction) (e : EdgeRef E) :
    e ∈ edgesDirected g i d ↔ e ∈ edgeReferences g ∧ e.endpoint d = i := by
  rw [(edgesDirected_perm g i d).mem_iff, List.mem_filter, decide_eq_true_eq]

end StableDiGraph

/-! ## the plain implementation -/

/-- node slots (a removed node leaves an empty slot) and the edges, oldest first -/
structure EdgeList (N E : Type) where
  nodes : List (Option N)
  edges : List (EdgeRef E)
  live : ∀ e ∈ edges, (nodes[e.source]?.join).isSome ∧ (nodes[e.target]?.join).isSome

namespace EdgeList
variable {N E : Type}

def nodeWeight (g : EdgeList N E) (i : Nat) : Option N := g.nodes[i]?.join

def empty : EdgeList N E where
  nodes := []
  edges := []
  live := by simp

theorem join_concat (l : List (Option N)) (n : N) (i : Nat) :
    (l ++ [some n])[i]?.join = if i = l.length then some n else l[i]?.join := by
  rcases Nat.lt_trichotomy i l.length with h | h | h
  · rw [List.getElem?_append_left h, if_neg (by omega)]
  · rw [h, List.getElem?_concat_length, if_pos rfl]
    rfl
  · rw [List.getElem?_eq_none (by simp; omega), List.getElem?_eq_none (by omega),
      if_neg (by omega)]

theorem join_set_none (l : List (Option N)) (i j : Nat) :
    (l.set i none)[j]?.join = if j = i then none else l[j]?.join := by
  by_cases h : j = i
  · subst h
    rw [if_pos rfl, List.getElem?_set_self']
    cases l[j]? <;> rfl
  · rw [if_neg h, List.getElem?_set_ne (fun e => h e.symm)]

def addNode (g : EdgeList N E) (n : N) : Nat × EdgeList N E :=
  (g.nodes.length,
    { nodes := g.nodes ++ [some n]
      edges := g.edges
      live := by
        intro e he
        obtain ⟨h1, h2⟩ := g.live e he
        rw [join_concat, join_concat]
        constructor
        · split
          · rfl
          · exact h1
        · split
          · rfl
          · exact h2 })

def removeNode (g : EdgeList N E) (i : Nat) : EdgeList N E where
  nodes := g.nodes.set i none
  edges := g.edges.filter fun e => e.source ≠ i ∧ e.target ≠ i
  live := by
    intro e he
    obtain ⟨he, hne⟩ := List.mem_filter.mp he
    obtain ⟨hs, ht⟩ := of_decide_eq_true hne
    rw [join_set_none, join_set_none, if_neg hs, if_neg ht]
    exact g.live e he

def addEdge (g : EdgeList N E) (a b : Nat) (w : E) : EdgeList N E :=
  if h : (g.nodeWeight a).isSome ∧ (g.nodeWeight b).isSome then
    { nodes := g.nodes
      edges := g.edges ++ [⟨a, b, w⟩]
      live := by
        intro e he
        rcases List.mem_append.mp he with he | he
        · exact g.live e he
        · rw [List.mem_singleton.mp he]
          exact h }
  else g

/-- the most recent edge first -/
def edgesDirected (g : EdgeList N E) (i : Nat) (d : Direction) : List (EdgeRef E) :=
  g.edges.reverse.filter fun e => e.endpoint d = i

def search (g : EdgeList N E) (s : Nat) : List Nat :=
  dfs (g.edges.map fun e => (e.source, e.target)) s

theorem edgeStep_iff (g : EdgeList N E) (a b : Nat) :
    EdgeStep (g.edges.map fun e => (e.source, e.target)) a b ↔
      ∃ e ∈ g.edges, e.source = a ∧ e.target = b := by
  unfold EdgeStep
  rw [List.mem_map]
  simp only [Prod.mk.injEq]

instance : StableDiGraph EdgeList where
  new := empty
  addNode := addNode
  removeNode := removeNode
  addEdge := addEdge
  nodeWeight := nodeWeight
  edgeReferences := edges
  edgesDirected := edgesDirected
  dfs := search
  nodeWeight_new i := by
    show ([] : List (Option _))[i]?.join = none
    simp
  edgeReferences_new := rfl
  nodeWeight_fresh g n := by
    show g.nodes[g.nodes.length]?.join = none
    rw [List.getElem?_eq_none (Nat.le_refl _)]
    rfl
  nodeWeight_addNode g n i := join_concat g.nodes n i
  edgeReferences_addNode g n := List.Perm.refl _
  nodeWeight_removeNode g i j := join_set_none g.nodes i j
  edgeReferences_removeNode g i := List.Perm.refl _
  nodeWeight_addEdge g a b w i := by
    unfold addEdge
    split <;> rfl
  edgeReferences_addEdge g a b w ha hb := by
    unfold addEdge
    rw [dif_pos ⟨ha, hb⟩]
    exact List.perm_append_comm
  edgesDirected_perm g i d := (List.reverse_perm g.edges).filter _
  edge_live g e he := g.live e he
  dfs_head g s _ := Lib.dfs_head s
  dfs_nodup g s := Lib.dfs_nodup s
  mem_dfs g s x _ := by
    have h : EdgeStep (g.edges.map fun e => (e.source, e.target)) =
        fun a b => ∃ e ∈ g.edges, e.source = a ∧ e.target = b := by
      funext a b
      exact propext (edgeStep_iff g a b)
    rw [← h]
    exact Lib.mem_dfs s x

end EdgeList
end Lib
