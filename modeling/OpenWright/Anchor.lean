import OpenWright.CheckpointStore
import OpenWright.Merkle.Consistency

/-! # Detecting equivocation

Monitors gather the checkpoints that a producer shows to different parties and look for two signed
heads that no single log has. What is gathered besides the signed heads is from anyone: forged
checkpoints, and the consistency proofs.

The detection compares heads by their tree sizes only. Heads of two logs with one key are heads of
one size like any others, and a proof that does not verify accuses the producer, whoever supplied it.

* **`detectEquivocation_eq_none_iff`** — for a producer whose signed heads are all honest, where the
  detection finds nothing.
* **`detectEquivocation_eq_none_of_one_log`** — heads of one log, with the proofs of that log, are
  never accused. -/

namespace OpenWright.Anchor

open Python Python.Val Merkle Signing Verify CheckpointStore

/-! ## The detection -/

/-- `EquivocationProof`. -/
structure EquivocationProof where
  reason : Str
  treeSize : Int
  checkpointA : Val
  checkpointB : Val

/-- `_is_validly_signed`: whatever is raised is caught. -/
def isValidlySigned (readInt : ReadInt) (ed : Ed25519) (publicKeyRaw : Bytes) (cp : Val) : Bool :=
  match modelValidate readInt cp with
  | .error _ => false
  | .ok c =>
    match c.verify ed publicKeyRaw with
    | .error _ => false
    | .ok valid => valid

/-- `int(cp["tree_size"])`. -/
def intSize (cp : Val) : Except PyErr Int := do
  let treeSize ← cp.getItem (lit "tree_size")
  treeSize.toInt

/-- `bytes.fromhex(cp["root_hash"])`. -/
def rootOf (cp : Val) : Except PyErr Bytes := do
  let rootHash ← cp.getItem (lit "root_hash")
  unhexVal rootHash

/-- `[bytes.fromhex(h) for h in proof]`. -/
def readProof (proof : Val) : Except PyErr (List Bytes) := do
  let items ← proof.iter
  items.mapM unhexVal

/-- The loop that fills `by_size`, whose newest entry is the first: it finds a fork, or returns the
heads by their sizes. -/
def fillBySize (bySize : List (Int × Val)) :
    List Val → Except PyErr (EquivocationProof ⊕ List (Int × Val))
  | [] => .ok (.inr bySize)
  | cp :: cps => do
    let sz ← intSize cp
    match bySize.lookup sz with
    -- the first head of a size, or the next one with the same root
    | none => fillBySize ((sz, cp) :: bySize) cps
    | some prev => do
      let a ← prev.getItem (lit "root_hash")
      let b ← cp.getItem (lit "root_hash")
      if a.eq b then fillBySize ((sz, cp) :: bySize) cps
      else
        return .inl
          { reason := lit "two signed checkpoints at the same tree_size have different roots"
            treeSize := sz
            checkpointA := prev
            checkpointB := cp }

/-- The loop over the supplied proofs. -/
def checkProofs (bySize : List (Int × Val)) :
    List ((Int × Int) × Val) → Except PyErr (Option EquivocationProof)
  | [] => .ok none
  | ((m, n), proof) :: proofs =>
    match bySize.lookup m, bySize.lookup n with
    | some a, some b =>
      -- proofs for other sizes, and for pairs that are not in order, are skipped
      if n ≤ m then checkProofs bySize proofs
      else do
        let first ← rootOf a
        let second ← rootOf b
        let path ← readProof proof
        if verifyConsistency m n first second path then checkProofs bySize proofs
        else
          return some
            { reason := lit "consistency proof between two signed checkpoints does not verify "
                ++ lit "(history was rewritten, not extended)"
              treeSize := n
              checkpointA := a
              checkpointB := b }
    | _, _ => checkProofs bySize proofs

/-- `detect_equivocation`. -/
def detectEquivocation (readInt : ReadInt) (ed : Ed25519) (checkpoints : List Val)
    (publicKeyRaw : Bytes) (consistencyProofs : Option (List ((Int × Int) × Val))) :
    Except PyErr (Option EquivocationProof) := do
  let valid := checkpoints.filter (isValidlySigned readInt ed publicKeyRaw)
  let filled ← fillBySize [] valid
  match filled with
  | .inl fork => return some fork
  | .inr bySize => checkProofs bySize (consistencyProofs.getD [])

/-! ## Honest producers -/

/-- Every checkpoint that is validly signed by the key is a head of the log of its origin. -/
def HonestHeads (ed : Ed25519) (publicKeyRaw : Bytes) (log : Str → List Bytes) : Prop :=
  ∀ c : Checkpoint, c.verify ed publicKeyRaw = .ok true →
    ∃ n ≤ (log c.origin).length, c.treeSize = n ∧
      c.rootHash = hex (treeHash ((log c.origin).take n))

/-- The head that the log of a checkpoint's origin has at its size. -/
def headRoot (log : Str → List Bytes) (c : Checkpoint) : Bytes :=
  treeHash ((log c.origin).take c.treeSize.toNat)

/-- A validly signed checkpoint is gathered, as a dictionary whose size `int` reads. -/
structure Shows (readInt : ReadInt) (ed : Ed25519) (publicKeyRaw : Bytes) (cps : List Val) (z : Int)
    (c : Checkpoint) (cp : Val) : Prop where
  gathered : cp ∈ cps
  validated : modelValidate readInt cp = .ok c
  signed : c.verify ed publicKeyRaw = .ok true
  size : intSize cp = .ok z

variable {readInt : ReadInt} {ed : Ed25519} {publicKeyRaw : Bytes} {log : Str → List Bytes}

/-- What is validly signed is a checkpoint with a signature that verifies. -/
theorem isValidlySigned_iff {cp : Val} : isValidlySigned readInt ed publicKeyRaw cp = true ↔
    ∃ c, modelValidate readInt cp = .ok c ∧ c.verify ed publicKeyRaw = .ok true := by
  rw [isValidlySigned]
  cases hc : modelValidate readInt cp with
  | error err => simp
  | ok c =>
      cases hverify : c.verify ed publicKeyRaw with
      | error err => simp [hverify]
      | ok valid => simp [hverify]

/-- The fields of a validated dictionary. -/
theorem getItem_of_modelValidate {cp : Val} {c : Checkpoint} (h : modelValidate readInt cp = .ok c) :
    cp.getItem (lit "root_hash") = .ok (.str c.rootHash) ∧
      ∃ v, cp.getItem (lit "tree_size") = .ok v ∧ readInt v = some c.treeSize := by
  have hfield : ∀ {kvs : Items} {name s : Str}, strField kvs name = some s →
      kvs.lookup name = some (.str s) := by
    intro kvs name s hs
    rw [strField] at hs
    split at hs
    · rename_i t hlookup
      rw [hlookup, Option.some.inj hs]
    · cases hs
  cases cp with
  | dict kvs =>
      rw [modelValidate] at h
      split at h
      · rename_i origin treeSize rootHash timestamp publicKeyId signature _ hsize hroot _ _ _
        rw [← Except.ok.inj h]
        obtain ⟨v, hlookup, hv⟩ := Option.bind_eq_some_iff.mp hsize
        refine ⟨?_, v, ?_, hv⟩
        · rw [getItem, hfield hroot]
        · rw [getItem, hlookup]
      · cases h
  | _ => cases h

/-! ## The heads by their sizes -/

/-- A dictionary makes an item of `by_size`. -/
def Sized (cp : Val) (item : Int × Val) : Prop := intSize cp = .ok item.1 ∧ item.2 = cp

/-- The items of one size have one root. -/
def OneRoot (items : List (Int × Val)) : Prop :=
  ∀ a ∈ items, ∀ b ∈ items, a.1 = b.1 → entry (lit "root_hash") a.2 = entry (lit "root_hash") b.2

/-- The dictionary has a root, which is a string. -/
def Rooted (cp : Val) : Prop := ∃ s, cp.getItem (lit "root_hash") = .ok (.str s)

/-- The root of a dictionary is its entry. -/
theorem entry_of_getItem {cp v : Val} {k : Str} (h : cp.getItem k = .ok v) : entry k cp = v := by
  cases cp with
  | dict kvs =>
      rw [getItem] at h
      rw [entry_dict]
      split at h
      · rename_i w hlookup
        rw [hlookup, ← Except.ok.inj h]
        rfl
      · cases h
  | _ => cases h

/-- A new item keeps the roots apart where no item of its size has another root. -/
theorem oneRoot_cons {z : Int} {cp : Val} {items : List (Int × Val)} (h : OneRoot items)
    (hnew : ∀ b ∈ items, b.1 = z → entry (lit "root_hash") b.2 = entry (lit "root_hash") cp) :
    OneRoot ((z, cp) :: items) := by
  intro a ha b hb hsize
  rcases List.mem_cons.mp ha with rfl | ha
  · rcases List.mem_cons.mp hb with rfl | hb
    · rfl
    · exact (hnew b hb hsize.symm).symm
  · rcases List.mem_cons.mp hb with rfl | hb
    · exact hnew a ha hsize
    · exact h a ha b hb hsize

/-- **The loop over the heads** goes through exactly where each size is read and no two heads of one
size have different roots. -/
theorem fillBySize_eq_inr {cps : List Val} (hcps : ∀ cp ∈ cps, Rooted cp) :
    ∀ {bySize out : List (Int × Val)}, OneRoot bySize → (∀ a ∈ bySize, Rooted a.2) →
      (fillBySize bySize cps = .ok (.inr out) ↔
        ∃ items, List.Forall₂ Sized cps items ∧ out = items.reverse ++ bySize ∧ OneRoot out) := by
  induction cps with
  | nil =>
      intro bySize out hone _
      simp only [List.forall₂_nil_left_iff, exists_eq_left, List.reverse_nil, List.nil_append]
      constructor
      · intro h
        obtain rfl : bySize = out := Sum.inr.inj (Except.ok.inj h)
        exact ⟨rfl, hone⟩
      · rintro ⟨rfl, -⟩
        rfl
  | cons cp cps ih =>
      intro bySize out hone hrooted
      rw [List.forall_mem_cons] at hcps
      obtain ⟨⟨s, hs⟩, hcps⟩ := hcps
      rw [fillBySize]
      cases hsize : intSize cp with
      | error err =>
          refine iff_of_false (fun h => nomatch h) ?_
          rintro ⟨items, hitems, -⟩
          obtain ⟨a, rest, ⟨ha, -⟩, -⟩ := List.forall₂_cons_left_iff.mp hitems
          rw [hsize] at ha
          cases ha
      | ok sz =>
          have hrooted' : ∀ a ∈ (sz, cp) :: bySize, Rooted a.2 :=
            List.forall_mem_cons.mpr ⟨⟨s, hs⟩, hrooted⟩
          have hitems : (∃ items, List.Forall₂ Sized (cp :: cps) items ∧
              out = items.reverse ++ bySize ∧ OneRoot out) ↔ ∃ items, List.Forall₂ Sized cps items ∧
                out = items.reverse ++ (sz, cp) :: bySize ∧ OneRoot out := by
            constructor
            · rintro ⟨items, hitems, hout, hone⟩
              obtain ⟨⟨z, v⟩, rest, ⟨hz, rfl⟩, hrest, rfl⟩ := List.forall₂_cons_left_iff.mp hitems
              rw [hsize, Except.ok.injEq] at hz
              exact ⟨rest, hrest, by rw [hout, hz]; simp, hone⟩
            · rintro ⟨rest, hrest, hout, hone⟩
              exact ⟨(sz, cp) :: rest, .cons ⟨hsize, rfl⟩ hrest, by rw [hout]; simp, hone⟩
          rw [hitems]
          -- the size is looked up among the heads seen before
          change (match bySize.lookup sz with | none => _ | some prev => _) = _ ↔ _
          cases hlookup : bySize.lookup sz with
          | none =>
              -- a new size: no head seen before has it, so one root each is kept
              refine ih hcps (oneRoot_cons hone fun b hb hbsize => ?_) hrooted'
              have hne := List.lookup_eq_none_iff.mp hlookup b hb
              rw [hbsize] at hne
              simp at hne
          | some prev =>
              obtain ⟨l₁, l₂, hmem, -⟩ := List.lookup_eq_some_iff.mp hlookup
              have hprev : (sz, prev) ∈ bySize := hmem ▸ List.mem_append_right l₁ List.mem_cons_self
              obtain ⟨t, ht⟩ := hrooted _ hprev
              have hroot : entry (lit "root_hash") prev = .str t := entry_of_getItem ht
              have hroot' : entry (lit "root_hash") cp = .str s := entry_of_getItem hs
              dsimp only
              rw [ht, hs]
              by_cases heq : t = s
              -- the same root again: the head takes the place of the earlier one
              · subst heq
                refine Iff.trans ?_ (ih hcps (oneRoot_cons hone fun b hb hbsize => ?_) hrooted')
                · have heq : (Val.str t).eq (.str t) = true := by simp [Val.eq, key, hasNan]
                  change ((if (Val.str t).eq (.str t) = true then _ else _) = _ ↔ _)
                  rw [if_pos heq]
                · rw [hone b hb (sz, prev) hprev hbsize, hroot, hroot']
              -- two roots of one size: the source returns its proof, and no list with both has one
              -- root each
              · refine iff_of_false (fun h => ?_) ?_
                · have hne : ¬(Val.str t).eq (.str s) = true := by simp [Val.eq, key, heq]
                  change (if (Val.str t).eq (.str s) = true then _ else _) = _ at h
                  rw [if_neg hne] at h
                  cases h
                · rintro ⟨items, -, rfl, hout⟩
                  have hsame := hout (sz, prev) (by simp [hprev]) (sz, cp) (by simp) rfl
                  rw [hroot, hroot', Val.str.injEq] at hsame
                  exact heq hsame

/-- The items are those of the dictionaries with their sizes. -/
theorem mem_of_sized {cps : List Val} {items : List (Int × Val)} (h : List.Forall₂ Sized cps items)
    {z : Int} {cp : Val} : (z, cp) ∈ items ↔ cp ∈ cps ∧ intSize cp = .ok z := by
  induction h with
  | nil => simp
  | @cons cp' item cps items hitem _ ih =>
      obtain ⟨z', v⟩ := item
      obtain ⟨hsize, rfl⟩ := hitem
      rw [List.mem_cons, List.mem_cons, ih, Prod.mk.injEq]
      constructor
      · rintro (⟨rfl, rfl⟩ | ⟨hmem, hz⟩)
        · exact ⟨Or.inl rfl, hsize⟩
        · exact ⟨Or.inr hmem, hz⟩
      · rintro ⟨rfl | hmem, hz⟩
        · exact Or.inl ⟨Except.ok.inj (hz.symm.trans hsize), rfl⟩
        · exact Or.inr ⟨hmem, hz⟩

/-- The size of each dictionary is read. -/
theorem exists_intSize_of_sized {cps : List Val} {items : List (Int × Val)}
    (h : List.Forall₂ Sized cps items) : ∀ cp ∈ cps, ∃ z, intSize cp = .ok z := by
  induction h with
  | nil => exact fun cp hcp => absurd hcp List.not_mem_nil
  | cons hitem _ ih => exact List.forall_mem_cons.mpr ⟨⟨_, hitem.1⟩, ih⟩

/-! ## The proofs -/

/-- The proof is read and accepted for the roots of two dictionaries. -/
def ProofAccepted (m n : Int) (a b proof : Val) : Prop :=
  ∃ first second path, rootOf a = .ok first ∧ rootOf b = .ok second ∧
    readProof proof = .ok path ∧ verifyConsistency m n first second path = true

/-- **The loop over the proofs** finds nothing exactly where it accepts each proof for two heads. -/
theorem checkProofs_eq_none {bySize : List (Int × Val)} {proofs : List ((Int × Int) × Val)} :
    checkProofs bySize proofs = .ok none ↔ ∀ m n proof, ((m, n), proof) ∈ proofs → m < n →
      ∀ a b, bySize.lookup m = some a → bySize.lookup n = some b → ProofAccepted m n a b proof := by
  induction proofs with
  | nil => exact iff_of_true rfl fun m n proof h => absurd h List.not_mem_nil
  | cons entry proofs ih =>
      obtain ⟨⟨m, n⟩, proof⟩ := entry
      -- the first proof, and the others by induction
      have hcons : (∀ m' n' proof', ((m', n'), proof') ∈ ((m, n), proof) :: proofs → m' < n' →
            ∀ a b, bySize.lookup m' = some a → bySize.lookup n' = some b →
              ProofAccepted m' n' a b proof') ↔
          (m < n → ∀ a b, bySize.lookup m = some a → bySize.lookup n = some b →
            ProofAccepted m n a b proof) ∧ checkProofs bySize proofs = .ok none := by
        rw [ih]
        constructor
        · exact fun h => ⟨h m n proof List.mem_cons_self, fun m' n' proof' hmem =>
            h m' n' proof' (List.mem_cons_of_mem _ hmem)⟩
        · rintro ⟨hfirst, hrest⟩ m' n' proof' hmem
          rcases List.mem_cons.mp hmem with heq | hmem
          · obtain ⟨⟨rfl, rfl⟩, rfl⟩ : (m' = m ∧ n' = n) ∧ proof' = proof := by simpa using heq
            exact hfirst
          · exact hrest m' n' proof' hmem
      rw [hcons, checkProofs]
      cases hm : bySize.lookup m with
      | none => simp
      | some a =>
          cases hn : bySize.lookup n with
          | none => simp
          | some b =>
              dsimp only
              by_cases hle : n ≤ m
              · rw [if_pos hle, and_iff_right fun hlt => absurd hlt (by omega)]
              · rw [if_neg hle]
                constructor
                · intro h
                  obtain ⟨first, hfirst, h⟩ := bind_eq_ok.mp h
                  obtain ⟨second, hsecond, h⟩ := bind_eq_ok.mp h
                  obtain ⟨path, hpath, h⟩ := bind_eq_ok.mp h
                  split at h
                  · rename_i hverify
                    refine ⟨fun _ a' b' ha hb => ?_, h⟩
                    rw [← Option.some.inj ha, ← Option.some.inj hb]
                    exact ⟨first, second, path, hfirst, hsecond, hpath, hverify⟩
                  · cases h
                · rintro ⟨hfirst, hrest⟩
                  obtain ⟨first, second, path, hfirst, hsecond, hpath, hverify⟩ :=
                    hfirst (by omega) a b rfl rfl
                  refine bind_eq_ok.mpr ⟨first, hfirst, bind_eq_ok.mpr ⟨second, hsecond,
                    bind_eq_ok.mpr ⟨path, hpath, ?_⟩⟩⟩
                  rw [if_pos hverify]
                  exact hrest

/-! ## Where nothing is found -/

/-- The root of an honest head is that of its log. -/
theorem rootHash_of_honest (h : HonestHeads ed publicKeyRaw log) {c : Checkpoint}
    (hc : c.verify ed publicKeyRaw = .ok true) : c.rootHash = hex (headRoot log c) := by
  obtain ⟨n, -, hsize, hroot⟩ := h c hc
  rw [hroot, headRoot, hsize, Int.toNat_natCast]

section Shown

variable {cps : List Val} {z : Int} {c : Checkpoint} {cp : Val}

/-- The entry of an honest head is the root of its log. -/
theorem Shows.entry_eq (hshows : Shows readInt ed publicKeyRaw cps z c cp)
    (h : HonestHeads ed publicKeyRaw log) :
    entry (lit "root_hash") cp = .str (hex (headRoot log c)) := by
  rw [entry_of_getItem (getItem_of_modelValidate hshows.validated).1,
    rootHash_of_honest h hshows.signed]

/-- The root of an honest head is read. -/
theorem Shows.rootOf_eq (hshows : Shows readInt ed publicKeyRaw cps z c cp)
    (h : HonestHeads ed publicKeyRaw log) : rootOf cp = .ok (headRoot log c) := by
  rw [rootOf, (getItem_of_modelValidate hshows.validated).1, rootHash_of_honest h hshows.signed]
  exact unhex_eq_ok.mpr (fromhex_hex _)

/-- A validated size is read exactly where `int` converts it. -/
theorem exists_intSize_iff (h : modelValidate readInt cp = .ok c) :
    (∃ z, intSize cp = .ok z) ↔ Convertible (entry (lit "tree_size") cp) := by
  obtain ⟨v, hv, -⟩ := (getItem_of_modelValidate h).2
  rw [← exists_toInt_iff, entry_of_getItem hv, intSize, hv]
  exact Iff.rfl

end Shown

section Items

variable {cps : List Val} {items : List (Int × Val)}
  (hitems : List.Forall₂ Sized (cps.filter (isValidlySigned readInt ed publicKeyRaw)) items)
include hitems

/-- The items are the signed heads whose sizes are read. -/
theorem mem_items_iff {z : Int} {cp : Val} :
    (z, cp) ∈ items ↔ ∃ c, Shows readInt ed publicKeyRaw cps z c cp := by
  rw [mem_of_sized hitems, List.mem_filter, isValidlySigned_iff]
  constructor
  · rintro ⟨⟨hmem, c, hc, hsigned⟩, hsize⟩
    exact ⟨c, hmem, hc, hsigned, hsize⟩
  · rintro ⟨c, hshows⟩
    exact ⟨⟨hshows.gathered, c, hshows.validated, hshows.signed⟩, hshows.size⟩

/-- The heads have one root for each size where their logs do. -/
theorem oneRoot_iff (h : HonestHeads ed publicKeyRaw log) :
    OneRoot items.reverse ↔ ∀ z c c' cp cp', Shows readInt ed publicKeyRaw cps z c cp →
      Shows readInt ed publicKeyRaw cps z c' cp' → headRoot log c = headRoot log c' := by
  constructor
  · intro hone z c c' cp cp' hcp hcp'
    have hentry := hone (z, cp) (List.mem_reverse.mpr ((mem_items_iff hitems).mpr ⟨c, hcp⟩))
      (z, cp') (List.mem_reverse.mpr ((mem_items_iff hitems).mpr ⟨c', hcp'⟩)) rfl
    rw [hcp.entry_eq h, hcp'.entry_eq h, Val.str.injEq] at hentry
    have hroots := fromhex_hex (headRoot log c)
    rw [hentry, fromhex_hex] at hroots
    exact (Option.some.inj hroots).symm
  · rintro hroots ⟨z, cp⟩ ha ⟨z', cp'⟩ hb rfl
    obtain ⟨c, hcp⟩ := (mem_items_iff hitems).mp (List.mem_reverse.mp ha)
    obtain ⟨c', hcp'⟩ := (mem_items_iff hitems).mp (List.mem_reverse.mp hb)
    rw [hcp.entry_eq h, hcp'.entry_eq h, hroots _ c c' cp cp' hcp hcp']

/-- Each size of a head is bound to a head of that size. -/
theorem exists_lookup {z : Int} {c : Checkpoint} {cp : Val}
    (hcp : Shows readInt ed publicKeyRaw cps z c cp) :
    ∃ a, items.reverse.lookup z = some a := by
  have hmem := (mem_items_iff hitems).mpr ⟨c, hcp⟩
  exact Option.isSome_iff_exists.mp
    (List.lookup_isSome_iff.mpr ⟨(z, cp), List.mem_reverse.mpr hmem, beq_self_eq_true z⟩)

/-- What a size is bound to is a head of that size. -/
theorem shows_of_lookup {z : Int} {a : Val} (hlookup : items.reverse.lookup z = some a) :
    ∃ c, Shows readInt ed publicKeyRaw cps z c a := by
  obtain ⟨l₁, l₂, hmem, -⟩ := List.lookup_eq_some_iff.mp hlookup
  refine (mem_items_iff hitems).mp (List.mem_reverse.mp ?_)
  rw [hmem]
  exact List.mem_append_right l₁ List.mem_cons_self

/-- The proofs are accepted for the heads that the sizes are bound to where they are for the logs. -/
theorem checkProofs_iff (h : HonestHeads ed publicKeyRaw log) (hone : OneRoot items.reverse)
    (proofs : List ((Int × Int) × Val)) :
    checkProofs items.reverse proofs = .ok none ↔ ∀ m n proof, ((m, n), proof) ∈ proofs → m < n →
      ∀ c c' cp cp', Shows readInt ed publicKeyRaw cps m c cp →
        Shows readInt ed publicKeyRaw cps n c' cp' → ∃ path, readProof proof = .ok path ∧
          verifyConsistency m n (headRoot log c) (headRoot log c') path = true := by
  rw [oneRoot_iff hitems h] at hone
  rw [checkProofs_eq_none]
  refine forall₃_congr fun m n proof => forall₂_congr fun _ _ => ?_
  constructor
  -- what is shown of either size is bound to it, and has the root of its log
  · intro haccepted c c' cp cp' hcp hcp'
    obtain ⟨a, ha⟩ := exists_lookup hitems hcp
    obtain ⟨b, hb⟩ := exists_lookup hitems hcp'
    obtain ⟨d, hd⟩ := shows_of_lookup hitems ha
    obtain ⟨d', hd'⟩ := shows_of_lookup hitems hb
    obtain ⟨first, second, path, hfirst, hsecond, hpath, hverify⟩ := haccepted a b ha hb
    rw [hd.rootOf_eq h, Except.ok.injEq] at hfirst
    rw [hd'.rootOf_eq h, Except.ok.injEq] at hsecond
    rw [hone m c d cp a hcp hd, hone n c' d' cp' b hcp' hd', hfirst, hsecond]
    exact ⟨path, hpath, hverify⟩
  · intro haccepted a b ha hb
    obtain ⟨d, hd⟩ := shows_of_lookup hitems ha
    obtain ⟨d', hd'⟩ := shows_of_lookup hitems hb
    obtain ⟨path, hpath, hverify⟩ := haccepted d d' a b hd hd'
    exact ⟨_, _, path, hd.rootOf_eq h, hd'.rootOf_eq h, hpath, hverify⟩

end Items

/-- **Where an honest producer is not accused.** For a producer whose signed heads are all heads of
the logs of their origins, the detection finds nothing exactly where it reads the size of each signed
head, the logs of two heads of one size have one root there, and each supplied proof for the sizes of
two heads is well formed and verifies between their roots. -/
theorem detectEquivocation_eq_none_iff (h : HonestHeads ed publicKeyRaw log) (cps : List Val)
    (proofs : Option (List ((Int × Int) × Val))) :
    detectEquivocation readInt ed cps publicKeyRaw proofs = .ok none ↔
      (∀ cp ∈ cps, isValidlySigned readInt ed publicKeyRaw cp = true →
        Convertible (entry (lit "tree_size") cp)) ∧
      (∀ z c c' cp cp', Shows readInt ed publicKeyRaw cps z c cp →
        Shows readInt ed publicKeyRaw cps z c' cp' → headRoot log c = headRoot log c') ∧
      ∀ m n proof, ((m, n), proof) ∈ proofs.getD [] → m < n →
        ∀ c c' cp cp', Shows readInt ed publicKeyRaw cps m c cp →
          Shows readInt ed publicKeyRaw cps n c' cp' → ∃ path, readProof proof = .ok path ∧
            verifyConsistency m n (headRoot log c) (headRoot log c') path = true := by
  -- a signed head is a checkpoint, so its root is a text and the loop reads it
  have hrooted : ∀ cp ∈ cps.filter (isValidlySigned readInt ed publicKeyRaw), Rooted cp := by
    intro cp hcp
    obtain ⟨c, hc, -⟩ := isValidlySigned_iff.mp (List.mem_filter.mp hcp).2
    exact ⟨_, (getItem_of_modelValidate hc).1⟩
  have hfill : ∀ out, fillBySize [] (cps.filter (isValidlySigned readInt ed publicKeyRaw))
      = .ok (.inr out) ↔ ∃ items, List.Forall₂ Sized
        (cps.filter (isValidlySigned readInt ed publicKeyRaw)) items ∧ out = items.reverse ++ [] ∧
          OneRoot out :=
    fun out => fillBySize_eq_inr hrooted (fun a ha => absurd ha List.not_mem_nil)
      fun a ha => absurd ha List.not_mem_nil
  rw [detectEquivocation]
  constructor
  · intro hnone
    -- two roots of one size stop the loop: something is found then
    obtain ⟨filled, hfilled, hnone⟩ := bind_eq_ok.mp hnone
    cases filled with
    | inl fork => cases hnone
    | inr out =>
        obtain ⟨items, hitems, hout, hone⟩ := (hfill out).mp hfilled
        rw [List.append_nil] at hout
        subst hout
        refine ⟨fun cp hcp hsigned => ?_, (oneRoot_iff hitems h).mp hone,
          (checkProofs_iff hitems h hone _).mp hnone⟩
        obtain ⟨c, hc, -⟩ := isValidlySigned_iff.mp hsigned
        rw [← exists_intSize_iff hc]
        -- the sizes are read, and the loop fills its dictionary with them
        exact exists_intSize_of_sized hitems cp (List.mem_filter.mpr ⟨hcp, hsigned⟩)
  · rintro ⟨hsizes, hroots, hproofs⟩
    have hitems : List.Forall₂ Sized (cps.filter (isValidlySigned readInt ed publicKeyRaw))
        ((cps.filter (isValidlySigned readInt ed publicKeyRaw)).map fun cp =>
          ((intSize cp).toOption.getD 0, cp)) := by
      rw [List.forall₂_map_right_iff, List.forall₂_same]
      intro cp hcp
      obtain ⟨hmem, hsigned⟩ := List.mem_filter.mp hcp
      obtain ⟨c, hc, -⟩ := isValidlySigned_iff.mp hsigned
      obtain ⟨z, hz⟩ := (exists_intSize_iff hc).mpr (hsizes cp hmem hsigned)
      exact ⟨by rw [hz]; rfl, rfl⟩
    have hone := (oneRoot_iff hitems h).mpr hroots
    refine bind_eq_ok.mpr ⟨.inr _, (hfill _).mpr ⟨_, hitems, rfl, ?_⟩, ?_⟩
    · rwa [List.append_nil]
    · rw [List.append_nil]
      exact (checkProofs_iff hitems h hone _).mpr hproofs

/-- Two readings of a size give one number. -/
def ReadInt.Agrees (readInt : ReadInt) : Prop :=
  ∀ v n z, readInt v = some n → v.toInt = .ok z → z = n

/-- The size of a head is the one that was signed. -/
theorem Shows.size_eq (hagrees : ReadInt.Agrees readInt) {cps : List Val} {z : Int} {c : Checkpoint}
    {cp : Val} (h : Shows readInt ed publicKeyRaw cps z c cp) : z = c.treeSize := by
  obtain ⟨v, hv, hread⟩ := (getItem_of_modelValidate h.validated).2
  have hsize := h.size
  rw [intSize, hv] at hsize
  exact hagrees v _ _ hread hsize

/-- **One log is never accused**: heads of one log, with proofs of that log, are not reported, among
whatever is forged. -/
theorem detectEquivocation_eq_none_of_one_log (h : HonestHeads ed publicKeyRaw log)
    (hagrees : ReadInt.Agrees readInt) {cps : List Val}
    (hsizes : ∀ cp ∈ cps, isValidlySigned readInt ed publicKeyRaw cp = true →
      Convertible (entry (lit "tree_size") cp))
    {origin : Str} (horigin : ∀ z c cp, Shows readInt ed publicKeyRaw cps z c cp → c.origin = origin)
    {proofs : Option (List ((Int × Int) × Val))}
    (hproofs : ∀ m n proof, ((m, n), proof) ∈ proofs.getD [] → m < n → n ≤ (log origin).length →
      ∃ path, readProof proof = .ok path ∧
        if m = 0 then path = [] else consistencyProof ((log origin).take n.toNat) m = .ok path) :
    detectEquivocation readInt ed cps publicKeyRaw proofs = .ok none := by
  refine (detectEquivocation_eq_none_iff h cps proofs).mpr ⟨hsizes, ?_, ?_⟩
  · intro z c c' cp cp' hcp hcp'
    -- heads of one size are of one log, so of one root
    rw [headRoot, headRoot, horigin z c cp hcp, horigin z c' cp' hcp', ← hcp.size_eq hagrees,
      ← hcp'.size_eq hagrees]
  · intro m n proof hproof hlt c c' cp cp' hcp hcp'
    obtain ⟨i, -, hi, -⟩ := h c hcp.signed
    obtain ⟨j, hj, hjsize, -⟩ := h c' hcp'.signed
    rw [horigin n c' cp' hcp'] at hj
    have hm : m = i := by rw [hcp.size_eq hagrees, hi]
    have hn : n = j := by rw [hcp'.size_eq hagrees, hjsize]
    subst hm hn
    obtain ⟨path, hpath, hgenuine⟩ := hproofs _ _ proof hproof hlt (by omega)
    refine ⟨path, hpath, ?_⟩
    rw [headRoot, headRoot, horigin _ c cp hcp, horigin _ c' cp' hcp', hi, hjsize,
      Int.toNat_natCast, Int.toNat_natCast]
    -- an empty older tree needs no proof, and else it is the log's own, between its first leaves
    split at hgenuine
    · rename_i hzero
      rw [hgenuine, hzero, verifyConsistency, if_neg (by omega), if_neg (by omega), if_pos rfl]
      rfl
    · rename_i hpos
      rw [Int.toNat_natCast] at hgenuine
      have hverify := verifyConsistency_of_consistencyProof hgenuine
      rwa [List.length_take, min_eq_left hj, Int.toNat_natCast, List.take_take,
        min_eq_left (by omega)] at hverify

/-! ## Two logs with one key -/

/-- A key that signs heads of its logs only is honest. -/
theorem honestHeads_madeBy {made : List (Bytes × Bytes)}
    (hmade : ∀ p ∈ made, ∃ origin, ∃ n ≤ (log origin).length, ∃ timestamp,
      checkpointSigningBytes origin n (hex (treeHash ((log origin).take n))) timestamp = .ok p.1) :
    HonestHeads (madeBy publicKeyRaw made) publicKeyRaw log := by
  intro c hc
  obtain ⟨data, sig, hdata, hed⟩ := c.exists_signed hc
  obtain ⟨-, hmem⟩ := of_decide_eq_true hed
  obtain ⟨origin, n, hn, timestamp, hhead⟩ := hmade _ hmem
  -- the bytes say which head was signed
  obtain ⟨rfl, hsize, hroot, -⟩ := checkpointSigningBytes_injective hhead hdata
  exact ⟨n, hn, hsize.symm, hroot.symm⟩

/-- The logs of two services. -/
def twoLogs (origin : Str) : List Bytes :=
  if origin = lit "billing" then [leafHash [1], leafHash [3]]
  else if origin = lit "support" then [leafHash [2]]
  else []

/-- The head that the log of a service has at a size, with its signature. -/
def serviceHead (origin : String) (size : Nat) (sig : Bytes) : Checkpoint where
  origin := lit origin
  treeSize := size
  rootHash := hex (treeHash ((twoLogs (lit origin)).take size))
  timestamp := lit "2026-01-01T00:00:00Z"
  publicKeyId := keyIdFor sampleKey
  signature := b64encode sig

/-- The producer's signatures of the heads of the one log. -/
def billingSigs : Bytes × Bytes :=
  ([214, 35, 32, 56, 6, 204, 69, 253, 83, 108, 127, 145, 204, 98, 96, 221, 15, 177, 56, 34, 27,
      218, 59, 249, 237, 208, 234, 247, 205, 4, 177, 167, 83, 225, 82, 111, 102, 235, 169, 223, 138,
      5, 156, 143, 198, 110, 172, 158, 128, 105, 200, 233, 23, 123, 24, 201, 204, 177, 70, 5, 126,
      131, 201, 2],
  [133, 179, 235, 139, 209, 123, 168, 13, 224, 219, 94, 166, 19, 58, 21, 78, 192, 29, 8, 108, 48,
      108, 174, 181, 66, 10, 142, 219, 78, 250, 187, 41, 108, 137, 148, 81, 210, 142, 55, 78, 97,
      20, 37, 226, 153, 241, 255, 234, 219, 156, 189, 82, 52, 234, 202, 148, 65, 128, 78, 5, 125,
      174, 22, 1])

/-- That of the head of the other log. -/
def supportSig : Bytes :=
  [188, 89, 50, 192, 235, 232, 156, 10, 47, 144, 222, 13, 164, 169, 79, 43, 122, 123, 127, 79, 242,
    33, 126, 16, 246, 82, 227, 106, 189, 25, 237, 89, 167, 221, 7, 253, 3, 242, 59, 174, 203, 52, 4,
    165, 116, 173, 109, 103, 161, 60, 2, 251, 188, 169, 17, 10, 245, 26, 125, 174, 47, 227, 3, 6]

/-- The heads of the one log. -/
def billingOne : Checkpoint := serviceHead "billing" 1 billingSigs.1

def billingTwo : Checkpoint := serviceHead "billing" 2 billingSigs.2

/-- The head of the other log. -/
def supportOne : Checkpoint := serviceHead "support" 1 supportSig

/-- The signatures of the three heads. -/
def madeTwo : List (Bytes × Bytes) :=
  [billingOne.signedAs billingSigs.1, billingTwo.signedAs billingSigs.2, supportOne.signedAs supportSig]

/-- All heads are honest. -/
theorem honestHeads_madeTwo : HonestHeads (madeBy sampleKey madeTwo) sampleKey twoLogs := by
  have hsigned : ∀ (origin : String) (size : Nat) (sig : Bytes), size ≤ (twoLogs (lit origin)).length →
      ((serviceHead origin size sig).signingBytes.toOption.isSome = true) →
      ∃ o, ∃ n ≤ (twoLogs o).length, ∃ timestamp, checkpointSigningBytes o n
        (hex (treeHash ((twoLogs o).take n))) timestamp
          = .ok ((serviceHead origin size sig).signedAs sig).1 := by
    intro origin size sig hsize hsome
    obtain ⟨data, hdata⟩ := Option.isSome_iff_exists.mp hsome
    have hbytes := eq_ok_of_toOption hdata
    refine ⟨lit origin, size, hsize, lit "2026-01-01T00:00:00Z", ?_⟩
    rw [Checkpoint.signedAs_eq hbytes]
    exact hbytes
  refine honestHeads_madeBy fun p hp => ?_
  simp only [madeTwo, List.mem_cons, List.not_mem_nil, or_false] at hp
  rcases hp with rfl | rfl | rfl
  · exact hsigned "billing" 1 billingSigs.1 (by decide +kernel) (by decide +kernel)
  · exact hsigned "billing" 2 billingSigs.2 (by decide +kernel) (by decide +kernel)
  · exact hsigned "support" 1 supportSig (by decide +kernel) (by decide +kernel)

/-- A head that the producer has not signed: the longer one with the root of the shorter. -/
def forgedTwo : Checkpoint := { billingTwo with rootHash := billingOne.rootHash }

/-- The heads that are gathered: two that are genuine, and the forged one before its size is bound. -/
def gathered : List Val := [billingOne.dump, forgedTwo.dump, billingTwo.dump]

/-- Only the genuine ones are signed. -/
theorem signed_gathered : forgedTwo.verify (madeBy sampleKey madeTwo) sampleKey = .ok false ∧
    billingTwo.verify (madeBy sampleKey madeTwo) sampleKey = .ok true ∧
    verifyConsistency 1 2 (headRoot twoLogs billingOne) (headRoot twoLogs billingTwo) [leafHash [3]]
      = true :=
  ⟨eq_ok_of_toOption (by decide +kernel), eq_ok_of_toOption (by decide +kernel), by decide +kernel⟩

/-- What is shown are the genuine heads, at their sizes. -/
theorem shows_gathered {z : Int} {c : Checkpoint} {cp : Val}
    (h : Shows sampleReadInt (madeBy sampleKey madeTwo) sampleKey gathered z c cp) :
    c = billingOne ∧ z = 1 ∨ c = billingTwo ∧ z = 2 := by
  obtain ⟨hmem, hvalidated, hsigned, hsize⟩ := h
  simp only [gathered, List.mem_cons, List.not_mem_nil, or_false] at hmem
  rcases hmem with rfl | rfl | rfl
  · exact Or.inl ⟨(Except.ok.inj hvalidated).symm, (Except.ok.inj hsize).symm⟩
  · obtain rfl : forgedTwo = c := Except.ok.inj hvalidated
    rw [signed_gathered.1] at hsigned
    cases hsigned
  · exact Or.inr ⟨(Except.ok.inj hvalidated).symm, (Except.ok.inj hsize).symm⟩

/-- Two heads of one log with the proof between them, and a forged one, are not reported. -/
theorem detectEquivocation_eq_none_iff_two :
    isValidlySigned sampleReadInt (madeBy sampleKey madeTwo) sampleKey forgedTwo.dump = false ∧
      isValidlySigned sampleReadInt (madeBy sampleKey madeTwo) sampleKey billingTwo.dump = true ∧
      detectEquivocation sampleReadInt (madeBy sampleKey madeTwo) gathered sampleKey
        (some [((1, 2), .list [.str (hex (leafHash [3]))])]) = .ok none := by
  refine ⟨?_, ?_, (detectEquivocation_eq_none_iff honestHeads_madeTwo gathered _).mpr ⟨?_, ?_, ?_⟩⟩
  -- the forged head does not verify
  · rw [isValidlySigned, show modelValidate sampleReadInt forgedTwo.dump = .ok forgedTwo from rfl]
    dsimp only
    rw [signed_gathered.1]
  · exact isValidlySigned_iff.mpr ⟨billingTwo, rfl, signed_gathered.2.1⟩
  -- every size is an integer
  · intro cp hcp _
    simp only [gathered, List.mem_cons, List.not_mem_nil, or_false] at hcp
    rcases hcp with rfl | rfl | rfl <;> exact trivial
  · intro z c c' cp cp' hcp hcp'
    rcases shows_gathered hcp with ⟨rfl, rfl⟩ | ⟨rfl, rfl⟩ <;>
      rcases shows_gathered hcp' with ⟨rfl, hz⟩ | ⟨rfl, hz⟩ <;> first | rfl | cases hz
  · intro m n proof hproof _ c c' cp cp' hcp hcp'
    obtain ⟨⟨rfl, rfl⟩, rfl⟩ : (m = 1 ∧ n = 2) ∧ proof = .list [.str (hex (leafHash [3]))] := by
      simpa using hproof
    rcases shows_gathered hcp with ⟨rfl, -⟩ | ⟨-, hz⟩
    · rcases shows_gathered hcp' with ⟨-, hz⟩ | ⟨rfl, -⟩
      · cases hz
      · refine ⟨[leafHash [3]], ?_, signed_gathered.2.2⟩
        exact mapM_eq_ok.mpr (.cons (by rw [unhexVal, unhex, fromhex_hex]) .nil)
    · cases hz

/-- **Two honest logs with one key are reported as a fork.** -/
theorem detectEquivocation_accuses : ¬∀ (readInt : ReadInt) (ed : Ed25519) (publicKeyRaw : Bytes)
    (log : Str → List Bytes), readInt.Sound → HonestHeads ed publicKeyRaw log →
      ∀ cps proofs, detectEquivocation readInt ed cps publicKeyRaw proofs = .ok none := by
  intro h
  have hnone := h sampleReadInt (madeBy sampleKey madeTwo) sampleKey twoLogs (fun _ => rfl)
    honestHeads_madeTwo [billingOne.dump, supportOne.dump] none
  have hfound : (detectEquivocation sampleReadInt (madeBy sampleKey madeTwo)
      [billingOne.dump, supportOne.dump] sampleKey none).toOption.all Option.isNone = false := by
    decide +kernel
  rw [hnone] at hfound
  cases hfound

end OpenWright.Anchor
