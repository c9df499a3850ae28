import OpenWright.Merkle.Consistency

/-! # Trees of contents

Trees whose leaves are leaf hashes. On strings that do not collide the two prefixes keep leaves,
inner nodes and the empty tree apart, so that a hash tells which contents it is the root of, whatever
sizes and positions are claimed for them.

* **`contentRoot_injective`** — one root, one list of contents.
* **`exists_infix_of_inclusionLoop`** — a node from which a path leads to the root is the root of a
  part of the contents. -/

namespace OpenWright.Merkle

open Hash

/-- The root of the tree with the given contents. -/
def contentRoot (D : List Bytes) : Bytes := treeHash (D.map leafHash)

/-- The strings that are hashed for it. -/
def hashedByContents (D : List Bytes) : List Bytes :=
  D.map (leafPrefix ++ ·) ++ hashedByTreeHash (D.map leafHash)

/-- Everything hashed for the contents is among the given strings. -/
def Within (S D : List Bytes) : Prop := ∀ s ∈ hashedByContents D, s ∈ S

/-- The root of one content is its leaf. -/
@[simp] theorem contentRoot_singleton (d : Bytes) : contentRoot [d] = leafHash d :=
  treeHash_singleton _

/-- Roots have 32 bytes. -/
theorem length_contentRoot (D : List Bytes) : (contentRoot D).length = 32 := by
  refine length_treeHash fun l hl => ?_
  obtain ⟨d, -, rfl⟩ := List.mem_map.mp hl
  exact length_sha256 _

/-! ## The two halves -/

section Halves

variable {S D : List Bytes}

/-- The root of at least two contents joins the roots of the halves. -/
theorem contentRoot_split (hD : 2 ≤ D.length) : contentRoot D
    = nodeHash (contentRoot (D.take (largestPow2Lt D.length)))
        (contentRoot (D.drop (largestPow2Lt D.length))) := by
  have hsplit := treeHash_split (L := D.map leafHash) (by rwa [List.length_map])
  rw [List.length_map, ← List.map_take, ← List.map_drop] at hsplit
  exact hsplit

/-- Contents are hashed. -/
theorem Within.leaf (h : Within S D) {d : Bytes} (hd : d ∈ D) : leafPrefix ++ d ∈ S :=
  h _ (List.mem_append_left _ (List.mem_map_of_mem hd))

/-- Without contents the empty string is hashed. -/
theorem Within.nil (h : Within S []) : [] ∈ S := by
  refine h _ (List.mem_append_right _ ?_)
  rw [List.map_nil, hashedByTreeHash]
  exact List.mem_singleton_self _

/-- For at least two contents the halves are hashed, and then the pair of their roots. -/
theorem Within.split (h : Within S D) (hD : 2 ≤ D.length) :
    Within S (D.take (largestPow2Lt D.length)) ∧ Within S (D.drop (largestPow2Lt D.length)) ∧
      nodePrefix ++ contentRoot (D.take (largestPow2Lt D.length))
        ++ contentRoot (D.drop (largestPow2Lt D.length)) ∈ S := by
  have hsplit := hashedByTreeHash_split (L := D.map leafHash) (by rwa [List.length_map])
  rw [List.length_map, ← List.map_take, ← List.map_drop] at hsplit
  have htree : ∀ s ∈ hashedByTreeHash (D.map leafHash), s ∈ S :=
    fun s hs => h s (List.mem_append_right _ hs)
  rw [hsplit] at htree
  refine ⟨fun s hs => ?_, fun s hs => ?_, ?_⟩
  · rcases List.mem_append.mp hs with hleaf | hnode
    · obtain ⟨d, hd, rfl⟩ := List.mem_map.mp hleaf
      exact h.leaf (List.mem_of_mem_take hd)
    · exact htree s (List.mem_append_left _ (List.mem_append_left _ hnode))
  · rcases List.mem_append.mp hs with hleaf | hnode
    · obtain ⟨d, hd, rfl⟩ := List.mem_map.mp hleaf
      exact h.leaf (List.mem_of_mem_drop hd)
    · exact htree s (List.mem_append_left _ (List.mem_append_right _ hnode))
  · exact htree _ (List.mem_append_right _ (List.mem_singleton_self _))

end Halves

/-! ## What a root tells -/

section Roots

variable {S D : List Bytes} (hS : CollisionFree S) (hD : Within S D)

include hS hD

/-- A leaf hash is the root of its content only. -/
theorem leafHash_eq_contentRoot {d : Bytes} (hd : leafPrefix ++ d ∈ S)
    (h : leafHash d = contentRoot D) : D = [d] := by
  match D, hD, h with
  | [], hD, h =>
      rw [contentRoot, List.map_nil, treeHash_nil] at h
      exact absurd (hS _ hd _ hD.nil h) (by simp [leafPrefix])
  | [e], hD, h =>
      rw [contentRoot_singleton] at h
      rw [List.append_cancel_left (hS _ hd _ (hD.leaf List.mem_cons_self) h)]
  | d₀ :: d₁ :: rest, hD, h =>
      rw [contentRoot_split (by simp)] at h
      have heq := hS _ hd _ (hD.split (by simp)).2.2 h
      simp [leafPrefix, nodePrefix] at heq

/-- The root of the empty tree is that of no contents only. -/
theorem emptyRoot_eq_contentRoot (hnil : [] ∈ S) (h : emptyRoot = contentRoot D) : D = [] := by
  match D, hD, h with
  | [], _, _ => rfl
  | [e], hD, h =>
      rw [contentRoot_singleton] at h
      exact absurd (hS _ hnil _ (hD.leaf List.mem_cons_self) h) (by simp [leafPrefix])
  | d₀ :: d₁ :: rest, hD, h =>
      rw [contentRoot_split (by simp)] at h
      exact absurd (hS _ hnil _ (hD.split (by simp)).2.2 h) (by simp [nodePrefix])

/-- **An inner node is the root of two halves.** One of its children has to have the length of a
digest; otherwise the pair might be cut elsewhere. -/
theorem nodeHash_eq_contentRoot {a b : Bytes} (hab : nodePrefix ++ a ++ b ∈ S)
    (hlen : a.length = 32 ∨ b.length = 32) (h : nodeHash a b = contentRoot D) :
    2 ≤ D.length ∧ a = contentRoot (D.take (largestPow2Lt D.length)) ∧
      b = contentRoot (D.drop (largestPow2Lt D.length)) := by
  match D, hD, h with
  | [], hD, h =>
      rw [contentRoot, List.map_nil, treeHash_nil] at h
      exact absurd (hS _ hab _ hD.nil h) (by simp [nodePrefix])
  | [e], hD, h =>
      rw [contentRoot_singleton] at h
      have heq := hS _ hab _ (hD.leaf List.mem_cons_self) h
      simp [leafPrefix, nodePrefix] at heq
  | d₀ :: d₁ :: rest, hD, h =>
      rw [contentRoot_split (by simp)] at h
      exact ⟨by simp, nodeString_injective hlen (length_contentRoot _) (length_contentRoot _)
        (hS _ hab _ (hD.split (by simp)).2.2 h)⟩

end Roots

/-- **One root, one list of contents.** -/
theorem contentRoot_injective {S : List Bytes} (hS : CollisionFree S) {D E : List Bytes}
    (hD : Within S D) (hE : Within S E) (h : contentRoot D = contentRoot E) : D = E := by
  -- by induction on the size of the first tree, both trees are split at the top
  induction hn : D.length using Nat.strongRecOn generalizing D E with
  | ind n ih =>
      match D, hn with
      | [], _ =>
          rw [contentRoot, List.map_nil, treeHash_nil] at h
          exact (emptyRoot_eq_contentRoot hS hE hD.nil h).symm
      | [d], _ =>
          rw [contentRoot_singleton] at h
          exact (leafHash_eq_contentRoot hS hE (hD.leaf List.mem_cons_self) h).symm
      | d₀ :: d₁ :: rest, hn =>
          have hlen : 2 ≤ (d₀ :: d₁ :: rest).length := by simp
          generalize d₀ :: d₁ :: rest = D at hD h hn hlen
          obtain ⟨hleft, hright, hnode⟩ := hD.split hlen
          rw [contentRoot_split hlen] at h
          obtain ⟨hlen', hl, hr⟩ := nodeHash_eq_contentRoot hS hE hnode
            (Or.inl (length_contentRoot _)) h
          obtain ⟨hleft', hright', -⟩ := hE.split hlen'
          have hlt := largestPow2Lt_lt hlen
          have hpos := largestPow2Lt_pos hlen
          have htake := ih _ (by rw [List.length_take]; omega) hleft hleft' hl rfl
          have hdrop := ih _ (by rw [List.length_drop]; omega) hright hright' hr rfl
          calc D = D.take (largestPow2Lt D.length) ++ D.drop (largestPow2Lt D.length) :=
                (List.take_append_drop _ D).symm
            _ = E.take (largestPow2Lt E.length) ++ E.drop (largestPow2Lt E.length) := by
                rw [htake, hdrop]
            _ = E := List.take_append_drop _ E

/-! ## Paths to a root -/

/-- **A path leads to the root from the roots of parts of the contents only**, whatever index and size
it is followed with. -/
theorem exists_infix_of_inclusionLoop {S D : List Bytes} (hS : CollisionFree S) (hD : Within S D) :
    ∀ {P : List Bytes} {fn sn sn' : Int} {r : Bytes}, r.length = 32 →
      (∀ s ∈ hashedByInclusionLoop fn sn r P, s ∈ S) →
      inclusionLoop fn sn r P = some (sn', contentRoot D) →
      ∃ E, E <:+: D ∧ Within S E ∧ r = contentRoot E
  | [], fn, sn, sn', r, _, _, h => by
      rw [inclusionLoop, Option.some.injEq, Prod.mk.injEq] at h
      exact ⟨D, List.infix_refl D, hD, h.2⟩
  | p :: P, fn, sn, sn', r, hr, hmem, h => by
      rw [inclusionLoop] at h
      rw [hashedByInclusionLoop] at hmem
      split at h
      · cases h
      rename_i hsn
      rw [if_neg hsn] at hmem
      split at h
      · -- the node is on the right
        rename_i hright
        rw [if_pos hright] at hmem
        obtain ⟨E, hE, hEmem, hroot⟩ := exists_infix_of_inclusionLoop hS hD (length_sha256 _)
          (fun s hs => hmem s (List.mem_cons_of_mem _ hs)) h
        obtain ⟨hlen, -, hr'⟩ := nodeHash_eq_contentRoot hS hEmem (hmem _ List.mem_cons_self)
          (Or.inr hr) hroot
        exact ⟨_, (List.drop_suffix _ E).isInfix.trans hE, (hEmem.split hlen).2.1, hr'⟩
      · -- the node is on the left
        rename_i hleft
        rw [if_neg hleft] at hmem
        obtain ⟨E, hE, hEmem, hroot⟩ := exists_infix_of_inclusionLoop hS hD (length_sha256 _)
          (fun s hs => hmem s (List.mem_cons_of_mem _ hs)) h
        obtain ⟨hlen, hr', -⟩ := nodeHash_eq_contentRoot hS hEmem (hmem _ List.mem_cons_self)
          (Or.inl hr) hroot
        exact ⟨_, (List.take_prefix _ E).isInfix.trans hE, (hEmem.split hlen).1, hr'⟩

/-- **A leaf hash that is accepted under a root is that of one of the contents.** -/
theorem mem_of_verifyInclusion {S D : List Bytes} (hS : CollisionFree S) (hD : Within S D)
    {m n : Int} {d : Bytes} {P : List Bytes} (hd : leafPrefix ++ d ∈ S)
    (hrun : ∀ s ∈ hashedByVerifyInclusion m n (leafHash d) P, s ∈ S)
    (h : verifyInclusion m n (leafHash d) P (contentRoot D) = true) : d ∈ D := by
  rw [verifyInclusion] at h
  split at h
  · cases h
  rename_i hrange
  rw [hashedByVerifyInclusion, if_neg hrange] at hrun
  split at h
  · cases h
  rename_i sn r hloop
  rw [decide_eq_true_eq] at h
  obtain ⟨-, rfl⟩ := h
  obtain ⟨E, hE, hEmem, hroot⟩ := exists_infix_of_inclusionLoop hS hD (length_sha256 _) hrun hloop
  rw [leafHash_eq_contentRoot hS hEmem hd hroot] at hE
  exact hE.subset (List.mem_singleton_self d)

end OpenWright.Merkle
