import OpenWright.Merkle.Tree
import OpenWright.MerkleTree.Frontier

/-! # The incremental tree

`IncrementalMerkleTree` keeps the right edge of the tree, one optional node per level, and appends
by a binary carry. `Represents` is the invariant that ties it to the list of leaves appended so far;
every operation keeps it, so after every run the incremental root is the recursive tree hash
(`runTree_spec`). -/

namespace OpenWright.Merkle

open Hash MerkleTree

/-! ## The data structure -/

/-- `IncrementalMerkleTree`. -/
structure IncrementalMerkleTree where
  /-- `_frontier`: slot `i` holds the pending subtree of size `2 ^ i`. -/
  frontier : List (Option Bytes)
  /-- `_size`. -/
  size : Nat
deriving DecidableEq

namespace IncrementalMerkleTree

/-- `__init__`. -/
def new : IncrementalMerkleTree := ⟨[], 0⟩

/-- The loop of `append`: the frontier, the carry and the level it ends with. -/
def appendLoop (frontier : List (Option Bytes)) (carry : Bytes) (level : Nat) :
    List (Option Bytes) × Bytes × Nat :=
  match hslot : frontier[level]? with
  | some (some h) => appendLoop (frontier.set level none) (nodeHash h carry) (level + 1)
  | _ => (frontier, carry, level)
termination_by frontier.length - level
decreasing_by
  have := (List.getElem?_eq_some_iff.mp hslot).1
  rw [List.length_set]
  omega

/-- `append`. -/
def append (t : IncrementalMerkleTree) (leaf : Bytes) : IncrementalMerkleTree :=
  let (frontier, carry, level) := appendLoop t.frontier leaf 0
  if level = frontier.length then ⟨frontier ++ [some carry], t.size + 1⟩
  else ⟨frontier.set level (some carry), t.size + 1⟩

/-- `from_leaves`. -/
def fromLeaves (leaves : List Bytes) : IncrementalMerkleTree := leaves.foldl append new

/-- The occupied slots with their levels, the first slot having level `k`. -/
def presentFrom (k : Nat) (frontier : List (Option Bytes)) : List (Nat × Bytes) :=
  (frontier.zipIdx k).filterMap fun slot => slot.1.map fun h => (slot.2, h)

/-- The occupied slots with their levels, as `root` enumerates them. -/
def present (frontier : List (Option Bytes)) : List (Nat × Bytes) := presentFrom 0 frontier

/-- One step of folding the occupied slots. -/
def foldSlot (acc : Bytes) (slot : Nat × Bytes) : Bytes := nodeHash slot.2 acc

/-- `root`: sort the occupied slots, largest level first, and fold them from the last one back. -/
def root (t : IncrementalMerkleTree) : Bytes :=
  let sorted := (present t.frontier).insertionSort fun a b => b.1 ≤ a.1
  match sorted.getLast? with
  | none => emptyRoot
  | some last => sorted.dropLast.reverse.foldl foldSlot last.2

/-! ## Appending -/

/-- An occupied slot is emptied into the carry. -/
theorem appendLoop_occupied {frontier : List (Option Bytes)} {level : Nat} {h : Bytes}
    (hslot : frontier[level]? = some (some h)) (carry : Bytes) :
    appendLoop frontier carry level
      = appendLoop (frontier.set level none) (nodeHash h carry) (level + 1) := by
  rw [appendLoop]
  split
  · next h' heq =>
    rw [hslot] at heq
    rw [Option.some.inj (Option.some.inj heq)]
  · next hnot => exact absurd hslot (hnot h)

/-- A free slot, or the end of the frontier, stops the loop. -/
theorem appendLoop_free {frontier : List (Option Bytes)} {level : Nat}
    (hslot : ∀ h, frontier[level]? ≠ some (some h)) (carry : Bytes) :
    appendLoop frontier carry level = (frontier, carry, level) := by
  rw [appendLoop]
  split
  · next h heq => exact absurd heq (hslot h)
  · rfl

/-- **The loop carries**: below the level everything is done, from the level on it pushes. -/
theorem appendLoop_append (done rest : List (Option Bytes)) (carry : Bytes) :
    ∃ done' rest' carry', appendLoop (done ++ rest) carry done.length
        = (done' ++ rest', carry', done'.length) ∧
      (rest' = [] ∧ done ++ push nodeHash rest carry = done' ++ [some carry'] ∨
        ∃ F, rest' = none :: F ∧ done ++ push nodeHash rest carry = done' ++ some carry' :: F) := by
  induction rest generalizing done carry with
  | nil =>
      refine ⟨done, [], carry, appendLoop_free (fun h => ?_) carry, Or.inl ⟨rfl, rfl⟩⟩
      simp
  | cons slot F ih =>
      cases slot with
      | none =>
          refine ⟨done, none :: F, carry, appendLoop_free (fun h => ?_) carry,
            Or.inr ⟨F, rfl, rfl⟩⟩
          simp
      | some h =>
          have hslot : (done ++ some h :: F)[done.length]? = some (some h) := by simp
          have hset : (done ++ some h :: F).set done.length none = done ++ [none] ++ F := by simp
          obtain ⟨done', rest', carry', hloop, hpush⟩ := ih (done ++ [none]) (nodeHash h carry)
          refine ⟨done', rest', carry', ?_, ?_⟩
          · rw [appendLoop_occupied hslot, hset, ← hloop, List.length_append, List.length_singleton]
          · rw [push, List.append_cons]
            exact hpush

/-- **Appending pushes onto the frontier.** -/
theorem append_eq_push (t : IncrementalMerkleTree) (leaf : Bytes) :
    t.append leaf = ⟨push nodeHash t.frontier leaf, t.size + 1⟩ := by
  obtain ⟨done, rest, carry, hloop, ⟨rfl, hpush⟩ | ⟨F, rfl, hpush⟩⟩ :=
    appendLoop_append [] t.frontier leaf
  · rw [List.nil_append, List.length_nil] at hloop
    rw [List.nil_append] at hpush
    simp only [append, hloop, List.append_nil, if_true, hpush]
  · rw [List.nil_append, List.length_nil] at hloop
    rw [List.nil_append] at hpush
    have hlevel : done.length ≠ (done ++ none :: F).length := by simp
    simp only [append, hloop, if_neg hlevel, hpush]
    simp

/-! ## The root -/

/-- An element below all others goes to the end of a list sorted downwards. -/
theorem orderedInsert_below {a : Nat × Bytes} : ∀ {l : List (Nat × Bytes)}, (∀ b ∈ l, a.1 < b.1) →
    l.orderedInsert (fun a b => b.1 ≤ a.1) a = l ++ [a]
  | [], _ => rfl
  | b :: l, h => by
      have hb : ¬b.1 ≤ a.1 := Nat.not_le.mpr (h b List.mem_cons_self)
      rw [List.orderedInsert_cons, if_neg hb,
        orderedInsert_below fun c hc => h c (List.mem_cons_of_mem b hc), List.cons_append]

/-- Sorting a list of increasing levels downwards reverses it. -/
theorem insertionSort_of_increasing : ∀ {l : List (Nat × Bytes)}, l.Pairwise (fun a b => a.1 < b.1) →
    l.insertionSort (fun a b => b.1 ≤ a.1) = l.reverse
  | [], _ => rfl
  | a :: l, h => by
      obtain ⟨ha, hl⟩ := List.pairwise_cons.mp h
      rw [List.insertionSort_cons, insertionSort_of_increasing hl, List.reverse_cons]
      exact orderedInsert_below fun b hb => ha b (List.mem_reverse.mp hb)

/-- The occupied slots come in increasing levels. -/
theorem presentFrom_increasing (frontier : List (Option Bytes)) (k : Nat) :
    (presentFrom k frontier).Pairwise (fun a b => a.1 < b.1) ∧
      ∀ a ∈ presentFrom k frontier, k ≤ a.1 := by
  induction frontier generalizing k with
  | nil => exact ⟨List.Pairwise.nil, fun a ha => absurd ha List.not_mem_nil⟩
  | cons slot F ih =>
      obtain ⟨hsorted, hle⟩ := ih (k + 1)
      cases slot with
      | none => exact ⟨hsorted, fun a ha => Nat.le_of_succ_le (hle a ha)⟩
      | some h =>
          refine ⟨List.pairwise_cons.mpr ⟨fun a ha => hle a ha, hsorted⟩, fun a ha => ?_⟩
          rcases List.mem_cons.mp ha with rfl | ha
          · exact Nat.le_refl k
          · exact Nat.le_of_succ_le (hle a ha)

/-- Folding the occupied slots upwards, whatever their levels are. -/
theorem foldUp_some (frontier : List (Option Bytes)) (k : Nat) (acc : Bytes) :
    foldUp nodeHash (some acc) frontier = some ((presentFrom k frontier).foldl foldSlot acc) := by
  induction frontier generalizing k acc with
  | nil => rfl
  | cons slot F ih =>
      cases slot with
      | none => exact ih (k + 1) acc
      | some h => exact ih (k + 1) (nodeHash h acc)

/-- The first occupied slot starts the fold. -/
theorem foldUp_none (frontier : List (Option Bytes)) (k : Nat) :
    foldUp nodeHash none frontier =
      match presentFrom k frontier with
      | [] => none
      | slot :: rest => some (rest.foldl foldSlot slot.2) := by
  induction frontier generalizing k with
  | nil => rfl
  | cons slot F ih =>
      cases slot with
      | none => exact ih (k + 1)
      | some h => exact foldUp_some F (k + 1) h

/-- **The root folds the frontier upwards.** -/
theorem root_eq_foldUp (t : IncrementalMerkleTree) :
    t.root = (foldUp nodeHash none t.frontier).getD emptyRoot := by
  have hsort : (present t.frontier).insertionSort (fun a b => b.1 ≤ a.1)
      = (present t.frontier).reverse :=
    insertionSort_of_increasing (presentFrom_increasing t.frontier 0).1
  rw [root, hsort, foldUp_none t.frontier 0, present]
  cases presentFrom 0 t.frontier with
  | nil => rfl
  | cons slot rest => simp

/-! ## The invariant -/

/-- The incremental tree of the given leaves. -/
structure Represents (t : IncrementalMerkleTree) (leaves : List Bytes) : Prop where
  frontier_eq : t.frontier = frontierOf nodeHash leaves
  size_eq : t.size = leaves.length

/-- A new tree represents no leaves. -/
theorem represents_new : new.Represents [] := ⟨(frontierOf_nil nodeHash).symm, rfl⟩

/-- Appending keeps the invariant. -/
theorem Represents.append {t : IncrementalMerkleTree} {leaves : List Bytes}
    (h : t.Represents leaves) (leaf : Bytes) : (t.append leaf).Represents (leaves ++ [leaf]) := by
  rw [append_eq_push]
  constructor
  · rw [h.frontier_eq, push_frontierOf]
  · rw [h.size_eq, List.length_append, List.length_singleton]

/-- A tree built from leaves represents them. -/
theorem represents_fromLeaves (leaves : List Bytes) : (fromLeaves leaves).Represents leaves := by
  have general : ∀ (rest done : List Bytes) (t : IncrementalMerkleTree), t.Represents done →
      (rest.foldl IncrementalMerkleTree.append t).Represents (done ++ rest) := by
    intro rest
    induction rest with
    | nil => intro done t h; rwa [List.append_nil]
    | cons leaf rest ih =>
        intro done t h
        rw [List.foldl_cons, List.append_cons]
        exact ih _ _ (h.append leaf)
  exact general leaves [] new represents_new

/-- **The incremental root is the recursive tree hash.** -/
theorem Represents.root_eq {t : IncrementalMerkleTree} {leaves : List Bytes}
    (h : t.Represents leaves) : t.root = treeHash leaves := by
  rw [root_eq_foldUp, h.frontier_eq]
  cases leaves with
  | nil => rw [frontierOf_nil, treeHash_nil]; rfl
  | cons leaf rest =>
      rw [foldUp_frontierOf nodeHash emptyRoot (leaf :: rest) none (by simp), treeHash_eq_head,
        Option.toList_none, List.append_nil]
      rfl

/-- A slot is occupied exactly when its bit of the size is set. -/
theorem Represents.slot_iff {t : IncrementalMerkleTree} {leaves : List Bytes}
    (h : t.Represents leaves) (i : Nat) :
    ((t.frontier[i]?).join).isSome = leaves.length.testBit i := by
  rw [h.frontier_eq, isSome_getElem?_frontierOf]

/-! ## Runs -/

/-- A call on an incremental tree. -/
inductive TreeCall
  | append (leaf : Bytes)
  | root

/-- One call: the tree after it and what it returns. -/
def call (t : IncrementalMerkleTree) : TreeCall → IncrementalMerkleTree × Option Bytes
  | .append leaf => (t.append leaf, none)
  | .root => (t, some t.root)

/-- Run calls in order: the tree after them and the roots returned on the way. -/
def runTree (t : IncrementalMerkleTree) : List TreeCall → IncrementalMerkleTree × List Bytes
  | [] => (t, [])
  | c :: calls =>
    let (t', r) := t.call c
    let (t'', rs) := runTree t' calls
    (t'', r.toList ++ rs)

/-- The leaves appended by calls. -/
def appended : List TreeCall → List Bytes
  | [] => []
  | .append leaf :: calls => leaf :: appended calls
  | .root :: calls => appended calls

/-- The tree hashes of the leaves appended before each `root` call, after `done`. -/
def expectedRoots (done : List Bytes) : List TreeCall → List Bytes
  | [] => []
  | .append leaf :: calls => expectedRoots (done ++ [leaf]) calls
  | .root :: calls => treeHash done :: expectedRoots done calls

/-- Every run keeps the invariant and returns the tree hashes. -/
theorem represents_runTree (calls : List TreeCall) : ∀ {t : IncrementalMerkleTree}
    {leaves : List Bytes}, t.Represents leaves →
    (t.runTree calls).1.Represents (leaves ++ appended calls) ∧
      (t.runTree calls).2 = expectedRoots leaves calls := by
  induction calls with
  | nil =>
      intro t leaves h
      rw [appended, List.append_nil]
      exact ⟨h, rfl⟩
  | cons c calls ih =>
      intro t leaves h
      cases c with
      | append leaf =>
          rw [appended, List.append_cons]
          exact ih (h.append leaf)
      | root =>
          obtain ⟨hrep, hroots⟩ := ih h
          exact ⟨hrep, congrArg₂ List.cons h.root_eq hroots⟩

/-- **The incremental tree is a drop-in for the recursive one**: after every run of appends and
roots on a fresh tree, each returned root and the current one are the tree hashes of the leaves
appended before it, the size is their number, and slot `i` is occupied exactly when bit `i` of that
number is set. -/
theorem runTree_spec (calls : List TreeCall) :
    (new.runTree calls).2 = expectedRoots [] calls ∧
      (new.runTree calls).1.root = treeHash (appended calls) ∧
      (new.runTree calls).1.size = (appended calls).length ∧
      ∀ i, (((new.runTree calls).1.frontier[i]?).join).isSome = (appended calls).length.testBit i := by
  obtain ⟨hrep, hroots⟩ := represents_runTree calls represents_new
  rw [List.nil_append] at hrep
  exact ⟨hroots, hrep.root_eq, hrep.size_eq, hrep.slot_iff⟩

end IncrementalMerkleTree
end OpenWright.Merkle
