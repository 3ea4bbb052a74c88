import Mathlib.Data.List.Basic
import Mathlib.Order.Lattice
import Mathlib.Tactic.Common

/-!
# Bafs.Lib.CowTree

A copy-on-write B⁺-tree over any ordered key, written as values: a tree of
height `h` is a `Tree κ ι γ h`, so all its leaves are at the same depth by
construction.  Every node carries the address it is stored at and the stamp of
the update that wrote it; an update takes fresh addresses from a counter `n`
and reports the addresses of the nodes it has superseded.

The separator of a node's first child is never read by the routing and never
lowered by an insertion, so it says nothing about the keys below it.  Routing
(`locate`) therefore looks only at the separators behind the first one.

This module has the operations; `Bafs.Lib.CowTree.Ordered` shows what they do to
the contents.
-/

namespace CowTree

/-! ## Trees -/

/-- A leaf: its address, its stamp and its items. -/
structure Leaf (ι γ : Type) where
  addr : Nat
  stamp : γ
  items : List ι

/-- A branch: its address, its stamp, and its children behind their separators. -/
structure Branch (κ γ τ : Type) where
  addr : Nat
  stamp : γ
  kids : List (κ × τ)

/-- Trees of a given height. -/
def Tree (κ ι γ : Type) : Nat → Type
  | 0 => Leaf ι γ
  | h + 1 => Branch κ γ (Tree κ ι γ h)

variable {κ ι γ τ : Type}

/-- A tree that is a single leaf. -/
def Tree.leaf (addr : Nat) (stamp : γ) (items : List ι) : Tree κ ι γ 0 :=
  (⟨addr, stamp, items⟩ : Leaf ι γ)

/-- A branch over children of height `h`. -/
def Tree.branch {h : Nat} (addr : Nat) (stamp : γ) (kids : List (κ × Tree κ ι γ h)) :
    Tree κ ι γ (h + 1) :=
  (⟨addr, stamp, kids⟩ : Branch κ γ (Tree κ ι γ h))

/-- The address of the root node. -/
def Tree.addr : {h : Nat} → Tree κ ι γ h → Nat
  | 0, t => Leaf.addr t
  | _ + 1, t => Branch.addr t

/-- The stamp of the root node. -/
def Tree.stamp : {h : Nat} → Tree κ ι γ h → γ
  | 0, t => Leaf.stamp t
  | _ + 1, t => Branch.stamp t

/-- The items of a leaf. -/
def Tree.entries (t : Tree κ ι γ 0) : List ι := Leaf.items t

/-- The children of a branch. -/
def Tree.kids {h : Nat} (t : Tree κ ι γ (h + 1)) : List (κ × Tree κ ι γ h) := Branch.kids t

/-- The items of the leaves, in order. -/
def Tree.items : {h : Nat} → Tree κ ι γ h → List ι
  | 0, t => t.entries
  | _ + 1, t => t.kids.flatMap fun p => p.2.items

/-- The addresses of all nodes. -/
def Tree.blocks : {h : Nat} → Tree κ ι γ h → List Nat
  | 0, t => [t.addr]
  | _ + 1, t => t.addr :: t.kids.flatMap fun p => p.2.blocks

/-- The items of a list of children. -/
def kidItems {h : Nat} (kids : List (κ × Tree κ ι γ h)) : List ι :=
  kids.flatMap fun p => p.2.items

/-- The addresses of all nodes of a list of children. -/
def kidBlocks {h : Nat} (kids : List (κ × Tree κ ι γ h)) : List Nat :=
  kids.flatMap fun p => p.2.blocks

section Constructors

variable {h : Nat} (addr : Nat) (stamp : γ) (xs : List ι) (kids : List (κ × Tree κ ι γ h))
  (ps qs : List (κ × Tree κ ι γ h)) (p : κ × Tree κ ι γ h)

@[simp] theorem Tree.addr_leaf : (Tree.leaf (κ := κ) addr stamp xs).addr = addr := rfl

@[simp] theorem Tree.stamp_leaf : (Tree.leaf (κ := κ) addr stamp xs).stamp = stamp := rfl

@[simp] theorem Tree.entries_leaf : (Tree.leaf (κ := κ) addr stamp xs).entries = xs := rfl

@[simp] theorem Tree.addr_branch : (Tree.branch addr stamp kids).addr = addr := rfl

@[simp] theorem Tree.stamp_branch : (Tree.branch addr stamp kids).stamp = stamp := rfl

@[simp] theorem Tree.kids_branch : (Tree.branch addr stamp kids).kids = kids := rfl

@[simp] theorem Tree.items_zero (t : Tree κ ι γ 0) : t.items = t.entries := rfl

@[simp] theorem Tree.items_succ (t : Tree κ ι γ (h + 1)) : t.items = kidItems t.kids := rfl

@[simp] theorem Tree.blocks_zero (t : Tree κ ι γ 0) : t.blocks = [t.addr] := rfl

@[simp] theorem Tree.blocks_succ (t : Tree κ ι γ (h + 1)) :
    t.blocks = t.addr :: kidBlocks t.kids := rfl

@[simp] theorem kidItems_nil : kidItems ([] : List (κ × Tree κ ι γ h)) = [] := rfl

@[simp] theorem kidItems_cons : kidItems (p :: ps) = p.2.items ++ kidItems ps := by
  simp [kidItems]

@[simp] theorem kidItems_append : kidItems (ps ++ qs) = kidItems ps ++ kidItems qs := by
  simp [kidItems]

@[simp] theorem kidBlocks_nil : kidBlocks ([] : List (κ × Tree κ ι γ h)) = [] := rfl

@[simp] theorem kidBlocks_cons : kidBlocks (p :: ps) = p.2.blocks ++ kidBlocks ps := by
  simp [kidBlocks]

@[simp] theorem kidBlocks_append : kidBlocks (ps ++ qs) = kidBlocks ps ++ kidBlocks qs := by
  simp [kidBlocks]

theorem mem_kidBlocks {b : Nat} {kids : List (κ × Tree κ ι γ h)} :
    b ∈ kidBlocks kids ↔ ∃ p ∈ kids, b ∈ p.2.blocks := List.mem_flatMap

theorem Tree.addr_mem_blocks (t : Tree κ ι γ h) : t.addr ∈ t.blocks := by
  cases h <;> simp

end Constructors

/-- How a tree is cut into nodes: the key of an item, when a leaf has outgrown
its node and where it is then cut, and how many children a branch may have. -/
structure Layout (κ ι : Type) where
  key : ι → κ
  overfull : List ι → Bool
  cut : List ι → Nat
  fanout : Nat

/-- The first separator of a branch, the first key of a leaf. -/
def Tree.firstKey (L : Layout κ ι) : {h : Nat} → Tree κ ι γ h → Option κ
  | 0, t => t.entries.head?.map L.key
  | _ + 1, t => t.kids.head?.map Prod.fst

/-! ## Items of a leaf -/

section Items

variable [LinearOrder κ] (key : ι → κ)

/-- Insert into a sorted list, in place of an item with the same key. -/
def insertItem (x : ι) : List ι → List ι
  | [] => [x]
  | y :: ys =>
      if key x < key y then x :: y :: ys
      else if key x = key y then x :: ys
      else y :: insertItem x ys

/-- Remove the item with key `k`. -/
def eraseKey (k : κ) (xs : List ι) : List ι := xs.filter fun y => key y ≠ k

/-- The item with key `k`. -/
def findKey (k : κ) (xs : List ι) : Option ι := xs.find? fun y => key y = k

/-- The items with a key in `[mn, mx]`. -/
def inRange (mn mx : κ) (xs : List ι) : List ι := xs.filter fun y => mn ≤ key y ∧ key y ≤ mx

end Items

/-! ## Routing -/

/-- A list with one element in focus. -/
structure Focus (α : Type) where
  pre : List α
  here : α
  post : List α

/-- The whole list, with the element in focus replaced by `xs`. -/
def Focus.plug {α : Type} (f : Focus α) (xs : List α) : List α := f.pre ++ xs ++ f.post

theorem kidItems_plug {h : Nat} (f : Focus (κ × Tree κ ι γ h)) (ps : List (κ × Tree κ ι γ h)) :
    kidItems (f.plug ps) = kidItems f.pre ++ kidItems ps ++ kidItems f.post := by
  simp [Focus.plug]

/-- The child that is responsible for `k`: the last one whose successor's
separator is above `k`. -/
def locate [LinearOrder κ] (k : κ) : List (κ × τ) → Option (Focus (κ × τ))
  | [] => none
  | [p] => some ⟨[], p, []⟩
  | p :: q :: rest =>
      if q.1 ≤ k then (locate k (q :: rest)).map fun f => ⟨p :: f.pre, f.here, f.post⟩
      else some ⟨[], p, q :: rest⟩

/-! ## Operations -/

/-- What an update leaves in place of a node: the node that replaces it, a
right sibling behind its separator when the node was cut in two, the next
fresh address, and the addresses of the superseded nodes. -/
structure Grown (κ τ : Type) where
  left : τ
  right : Option (κ × τ)
  next : Nat
  freed : List Nat

/-- The children that replace a child with separator `s`. -/
def Grown.kids (s : κ) (r : Grown κ τ) : List (κ × τ) := (s, r.left) :: r.right.toList

@[simp] theorem Grown.kids_none (s : κ) (l : τ) (n : Nat) (fr : List Nat) :
    Grown.kids s ⟨l, none, n, fr⟩ = [(s, l)] := rfl

@[simp] theorem Grown.kids_some (s : κ) (l : τ) (q : κ × τ) (n : Nat) (fr : List Nat) :
    Grown.kids s ⟨l, some q, n, fr⟩ = [(s, l), q] := rfl

section Operations

variable [LinearOrder κ] (L : Layout κ ι)

/-- Point lookup. -/
def Tree.lookup (k : κ) : {h : Nat} → Tree κ ι γ h → Option ι
  | 0, t => findKey L.key k t.entries
  | _ + 1, t =>
      match locate k t.kids with
      | none => none
      | some f => f.here.2.lookup k

/-- Scan of the children whose separators do not exclude them: a child is
skipped when its successor's separator is below `mn` or its own above `mx`. -/
def scanKids (scan : τ → List ι) (mn mx : κ) : List (κ × τ) → List ι
  | [] => []
  | p :: rest =>
      (if (rest.head?.any fun q => q.1 < mn) ∨ mx < p.1 then [] else scan p.2) ++
        scanKids scan mn mx rest

/-- Range scan. -/
def Tree.range (mn mx : κ) : {h : Nat} → Tree κ ι γ h → List ι
  | 0, t => inRange L.key mn mx t.entries
  | _ + 1, t => scanKids (fun c => c.range mn mx) mn mx t.kids

/-- Write the items of a leaf to a fresh node, or to two when they outgrow one. -/
def growLeaf (g : γ) (old : Nat) (xs : List ι) (n : Nat) : Grown κ (Tree κ ι γ 0) :=
  if L.overfull xs then
    { left := .leaf (n + 1) g (xs.take (L.cut xs))
      right := (xs.drop (L.cut xs)).head?.map fun y => (L.key y, .leaf n g (xs.drop (L.cut xs)))
      next := n + 2
      freed := [old] }
  else { left := .leaf n g xs, right := none, next := n + 1, freed := [old] }

/-- Write the children of a branch to a fresh node, or to two when there are
too many; the separator of the right half is that of its first child. -/
def growBranch {h : Nat} (g : γ) (old : Nat) (freed : List Nat)
    (kids : List (κ × Tree κ ι γ h)) (n : Nat) : Grown κ (Tree κ ι γ (h + 1)) :=
  if kids.length ≤ L.fanout then
    { left := .branch n g kids, right := none, next := n + 1, freed := freed ++ [old] }
  else
    { left := .branch (n + 1) g (kids.take (kids.length / 2))
      right := (kids.drop (kids.length / 2)).head?.map fun p =>
        (p.1, .branch n g (kids.drop (kids.length / 2)))
      next := n + 2
      freed := freed ++ [old] }

/-- Insert `x` below a node, taking addresses from `n` on. -/
def Tree.insert (x : ι) (g : γ) : {h : Nat} → Tree κ ι γ h → Nat → Grown κ (Tree κ ι γ h)
  | 0, t, n => growLeaf L g t.addr (insertItem L.key x t.entries) n
  | _ + 1, t, n =>
      match locate (L.key x) t.kids with
      | none => growBranch L g t.addr [] [] n
      | some f =>
          let r := f.here.2.insert x g n
          growBranch L g t.addr r.freed (f.plug (r.kids f.here.1)) r.next

/-- Delete the item with key `k`; `none` when there is none. -/
def Tree.delete (k : κ) (g : γ) :
    {h : Nat} → Tree κ ι γ h → Nat → Option (Tree κ ι γ h × Nat × List Nat)
  | 0, t, n =>
      if (findKey L.key k t.entries).isSome then
        some (.leaf n g (eraseKey L.key k t.entries), n + 1, [t.addr])
      else none
  | _ + 1, t, n =>
      match locate k t.kids with
      | none => none
      | some f =>
          (f.here.2.delete k g n).map fun r =>
            (.branch r.2.1 g (f.plug [(f.here.1, r.1)]), r.2.1 + 1, r.2.2 ++ [t.addr])

end Operations

/-! ## Whole trees -/

/-- A tree of some height. -/
structure AnyTree (κ ι γ : Type) where
  height : Nat
  tree : Tree κ ι γ height

namespace AnyTree

def addr (t : AnyTree κ ι γ) : Nat := t.tree.addr

def items (t : AnyTree κ ι γ) : List ι := t.tree.items

def blocks (t : AnyTree κ ι γ) : List Nat := t.tree.blocks

variable [LinearOrder κ] (L : Layout κ ι)

def lookup (k : κ) (t : AnyTree κ ι γ) : Option ι := t.tree.lookup L k

def range (mn mx : κ) (t : AnyTree κ ι γ) : List ι := t.tree.range L mn mx

/-- Insert at the root.  A root that was cut in two gets a new root above it,
and its address is reported once more as superseded. -/
def insert (x : ι) (g : γ) (t : AnyTree κ ι γ) (n : Nat) : AnyTree κ ι γ × Nat × List Nat :=
  match t.tree.insert L x g n with
  | { left, right := none, next, freed } => (⟨t.height, left⟩, next, freed)
  | { left, right := some (k, right), next, freed } =>
      (⟨t.height + 1, .branch next g [((left.firstKey L).getD k, left), (k, right)]⟩,
        next + 1, freed ++ [t.addr])

/-- Delete below the root. -/
def delete (k : κ) (g : γ) (t : AnyTree κ ι γ) (n : Nat) :
    Option (AnyTree κ ι γ × Nat × List Nat) :=
  (t.tree.delete L k g n).map fun r => (⟨t.height, r.1⟩, r.2)

end AnyTree

end CowTree
