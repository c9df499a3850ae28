import OpenWright.Anchor
import OpenWright.Python.Model

/-! # Forks are found

Two signed heads of one size with different roots, anywhere among what monitors gather, forged and
malformed checkpoints in between.

The loop over the heads is a fold that stops at the first fork, so what it returns depends on the heads
up to there. It raises where `int` does not convert a size that the validation has read.

* **`detectEquivocation_finds_iff`** — a fork is returned exactly where the heads up to the first one
  have sizes that `int` converts. -/

namespace OpenWright.Anchor

open Python Python.Val Merkle Signing Verify CheckpointStore

variable {readInt : ReadInt} {ed : Ed25519} {publicKeyRaw : Bytes}

/-! ## Forks -/

/-- A gathered dictionary is a validly signed checkpoint. -/
structure SignedIn (readInt : ReadInt) (ed : Ed25519) (publicKeyRaw : Bytes) (cps : List Val)
    (c : Checkpoint) (cp : Val) : Prop where
  gathered : cp ∈ cps
  validated : modelValidate readInt cp = .ok c
  signed : c.verify ed publicKeyRaw = .ok true

/-- Two dictionaries are validly signed heads of one size with different roots. -/
def Fork (readInt : ReadInt) (ed : Ed25519) (publicKeyRaw : Bytes) (cps : List Val) (a b : Val) : Prop :=
  ∃ c d, SignedIn readInt ed publicKeyRaw cps c a ∧ SignedIn readInt ed publicKeyRaw cps d b ∧
    c.treeSize = d.treeSize ∧ c.rootHash ≠ d.rootHash

/-- The detection returns a fork of the list. -/
def FindsFork (readInt : ReadInt) (ed : Ed25519) (publicKeyRaw : Bytes) (cps : List Val)
    (proofs : Option (List ((Int × Int) × Val))) : Prop :=
  ∃ p, detectEquivocation readInt ed cps publicKeyRaw proofs = .ok (some p) ∧
    Fork readInt ed publicKeyRaw cps p.checkpointA p.checkpointB

/-- More dictionaries have more forks. -/
theorem Fork.mono {cps cps' : List Val} {a b : Val} (h : Fork readInt ed publicKeyRaw cps a b)
    (hmem : ∀ cp ∈ cps, cp ∈ cps') : Fork readInt ed publicKeyRaw cps' a b := by
  obtain ⟨c, d, hc, hd, hsize, hroot⟩ := h
  exact ⟨c, d, ⟨hmem a hc.gathered, hc.validated, hc.signed⟩,
    ⟨hmem b hd.gathered, hd.validated, hd.signed⟩, hsize, hroot⟩

/-- A signed dictionary whose size is read shows it. -/
theorem SignedIn.shows {cps : List Val} {c : Checkpoint} {cp : Val}
    (h : SignedIn readInt ed publicKeyRaw cps c cp) {z : Int} (hz : intSize cp = .ok z) :
    Shows readInt ed publicKeyRaw cps z c cp := ⟨h.gathered, h.validated, h.signed, hz⟩

/-! ## The loop over the heads -/

/-- The loop over two lists in a row. -/
theorem fillBySize_append (cps cps' : List Val) : ∀ bySize : List (Int × Val),
    fillBySize bySize (cps ++ cps') = (do
      let filled ← fillBySize bySize cps
      match filled with
      | .inl fork => return .inl fork
      | .inr bySize => fillBySize bySize cps') := by
  induction cps with
  | nil => exact fun _ => rfl
  | cons cp cps ih =>
      -- either list stops the loop in the same places
      intro bySize
      rw [List.cons_append, fillBySize, fillBySize]
      cases intSize cp with
      | error err => rfl
      | ok sz =>
          dsimp only [bind, Except.bind]
          cases bySize.lookup sz with
          | none => exact ih _
          | some prev =>
              dsimp only
              cases prev.getItem (lit "root_hash") with
              | error err => rfl
              | ok a =>
                  cases cp.getItem (lit "root_hash") with
                  | error err => rfl
                  | ok b =>
                      dsimp only
                      cases a.eq b with
                      | true => exact ih _
                      | false => rfl

/-- Heads whose sizes are read do not make the loop raise. -/
theorem exists_fillBySize {cps : List Val} (hrooted : ∀ cp ∈ cps, Rooted cp)
    (hsizes : ∀ cp ∈ cps, ∃ z, intSize cp = .ok z) : ∀ {bySize : List (Int × Val)},
    (∀ a ∈ bySize, Rooted a.2) → ∃ filled, fillBySize bySize cps = .ok filled := by
  induction cps with
  | nil => exact fun _ => ⟨_, rfl⟩
  | cons cp cps ih =>
      intro bySize hbySize
      rw [List.forall_mem_cons] at hrooted hsizes
      obtain ⟨sz, hsz⟩ := hsizes.1
      obtain ⟨s, hs⟩ := hrooted.1
      have hrest := @ih hrooted.2 hsizes.2 ((sz, cp) :: bySize)
        (List.forall_mem_cons.mpr ⟨hrooted.1, hbySize⟩)
      rw [fillBySize]
      refine hrest.elim fun filled hfilled => ?_
      refine Exists.imp (fun _ h => bind_eq_ok.mpr ⟨sz, hsz, h⟩) ?_
      cases hlookup : bySize.lookup sz with
      | none => exact ⟨filled, hfilled⟩
      | some prev =>
          obtain ⟨t, ht⟩ := hbySize _ (mem_of_lookup hlookup)
          refine Exists.imp (fun _ h => bind_eq_ok.mpr ⟨_, ht, bind_eq_ok.mpr ⟨_, hs, h⟩⟩) ?_
          split
          · exact ⟨filled, hfilled⟩
          · exact ⟨_, rfl⟩

/-- What the loop returns as a fork: two heads of the size, one of them the last it read, with
different roots. -/
structure ForkOf (heads : List Val) (fork : EquivocationProof) : Prop where
  left : fork.checkpointA ∈ heads
  right : fork.checkpointB ∈ heads
  size_left : intSize fork.checkpointA = .ok fork.treeSize
  size_right : intSize fork.checkpointB = .ok fork.treeSize
  roots : entry (lit "root_hash") fork.checkpointA ≠ entry (lit "root_hash") fork.checkpointB

/-- **A fork that the loop returns** is one of the heads it has read. -/
theorem forkOf_of_fillBySize {fork : EquivocationProof} {cps : List Val}
    (hrooted : ∀ cp ∈ cps, Rooted cp) : ∀ {bySize : List (Int × Val)},
    (∀ a ∈ bySize, Rooted a.2 ∧ intSize a.2 = .ok a.1) → fillBySize bySize cps = .ok (.inl fork) →
      ∃ seen rest, cps = seen ++ rest ∧ (∀ cp ∈ seen, ∃ z, intSize cp = .ok z) ∧
        ForkOf (bySize.map Prod.snd ++ seen) fork := by
  induction cps with
  | nil =>
      intro bySize _ h
      cases h
  | cons cp cps ih =>
      intro bySize hbySize h
      rw [List.forall_mem_cons] at hrooted
      rw [fillBySize] at h
      obtain ⟨sz, hsz, h⟩ := bind_eq_ok.mp h
      obtain ⟨s, hs⟩ := hrooted.1
      -- the loop goes on with the head at the front
      have hrest : fillBySize ((sz, cp) :: bySize) cps = .ok (.inl fork) →
          ∃ seen rest, cp :: cps = seen ++ rest ∧ (∀ cp ∈ seen, ∃ z, intSize cp = .ok z) ∧
            ForkOf (bySize.map Prod.snd ++ seen) fork := by
        intro h
        obtain ⟨seen, rest, rfl, hsizes, hfork⟩ := @ih hrooted.2 ((sz, cp) :: bySize)
          (List.forall_mem_cons.mpr ⟨⟨hrooted.1, hsz⟩, hbySize⟩) h
        have hmem : ∀ v ∈ ((sz, cp) :: bySize).map Prod.snd ++ seen,
            v ∈ bySize.map Prod.snd ++ cp :: seen := by
          intro v hv
          simp only [List.map_cons, List.cons_append, List.mem_cons, List.mem_append] at hv ⊢
          tauto
        exact ⟨cp :: seen, rest, rfl, List.forall_mem_cons.mpr ⟨⟨sz, hsz⟩, hsizes⟩,
          { hfork with left := hmem _ hfork.left, right := hmem _ hfork.right }⟩
      split at h
      · exact hrest h
      · rename_i prev hlookup
        have hprev := mem_of_lookup hlookup
        obtain ⟨⟨t, ht⟩, hsizePrev⟩ := hbySize _ hprev
        rw [ht, hs] at h
        change (if (Val.str t).eq (.str s) then _ else _) = _ at h
        split at h
        · exact hrest h
        · rename_i hne
          obtain rfl := Sum.inl.inj (Except.ok.inj h)
          refine ⟨[cp], cps, rfl, List.forall_mem_singleton.mpr ⟨sz, hsz⟩, ?_⟩
          refine ⟨List.mem_append_left _ (List.mem_map_of_mem hprev), by simp, hsizePrev, hsz, ?_⟩
          dsimp only
          rw [entry_of_getItem ht, entry_of_getItem hs]
          rintro heq
          rw [Val.str.inj heq] at hne
          exact hne (by simp [Val.eq, key, hasNan])

/-! ## The detection -/

/-- The root of a validated dictionary is that of the checkpoint. -/
theorem entry_of_modelValidate {cp : Val} {c : Checkpoint} (h : modelValidate readInt cp = .ok c) :
    entry (lit "root_hash") cp = .str c.rootHash := entry_of_getItem (getItem_of_modelValidate h).1

/-- Validly signed dictionaries have roots. -/
theorem rooted_of_mem_filter {cps : List Val} :
    ∀ cp ∈ cps.filter (isValidlySigned readInt ed publicKeyRaw), Rooted cp := by
  intro cp hcp
  obtain ⟨c, hc, -⟩ := isValidlySigned_iff.mp (List.mem_filter.mp hcp).2
  exact ⟨_, (getItem_of_modelValidate hc).1⟩

/-- A fork of the heads that the loop returns is a fork of the list. -/
theorem ForkOf.fork (hagrees : ReadInt.Agrees readInt) {cps : List Val} {fork : EquivocationProof}
    (h : ForkOf (cps.filter (isValidlySigned readInt ed publicKeyRaw)) fork) :
    Fork readInt ed publicKeyRaw cps fork.checkpointA fork.checkpointB := by
  have hsigned : ∀ cp ∈ cps.filter (isValidlySigned readInt ed publicKeyRaw),
      ∃ c, SignedIn readInt ed publicKeyRaw cps c cp := by
    intro cp hcp
    obtain ⟨hmem, hvalid⟩ := List.mem_filter.mp hcp
    obtain ⟨c, hc, hsigned⟩ := isValidlySigned_iff.mp hvalid
    exact ⟨c, hmem, hc, hsigned⟩
  obtain ⟨c, hc⟩ := hsigned _ h.left
  obtain ⟨d, hd⟩ := hsigned _ h.right
  refine ⟨c, d, hc, hd, ?_, fun hroot => h.roots ?_⟩
  · rw [← (hc.shows h.size_left).size_eq hagrees, ← (hd.shows h.size_right).size_eq hagrees]
  · rw [entry_of_modelValidate hc.validated, entry_of_modelValidate hd.validated, hroot]

/-- Heads whose sizes are read, with a fork among them, make the loop return one. -/
theorem exists_fillBySize_inl (hagrees : ReadInt.Agrees readInt) {seen : List Val}
    (hsizes : ∀ cp ∈ seen.filter (isValidlySigned readInt ed publicKeyRaw), ∃ z, intSize cp = .ok z)
    {a b : Val} (hfork : Fork readInt ed publicKeyRaw seen a b) :
    ∃ fork, fillBySize [] (seen.filter (isValidlySigned readInt ed publicKeyRaw))
      = .ok (.inl fork) := by
  obtain ⟨filled, hfilled⟩ := exists_fillBySize rooted_of_mem_filter hsizes
    fun a (ha : a ∈ []) => absurd ha List.not_mem_nil
  cases filled with
  | inl fork => exact ⟨fork, hfilled⟩
  | inr out =>
      -- the heads of one size would have one root
      obtain ⟨items, hitems, rfl, hone⟩ := (fillBySize_eq_inr rooted_of_mem_filter
        (fun a ha => absurd ha List.not_mem_nil) fun a ha => absurd ha List.not_mem_nil).mp hfilled
      rw [List.append_nil] at hone
      obtain ⟨c, d, hc, hd, hsize, hroot⟩ := hfork
      have hread : ∀ {c : Checkpoint} {cp : Val}, SignedIn readInt ed publicKeyRaw seen c cp →
          (c.treeSize, cp) ∈ items := by
        intro c cp hc
        obtain ⟨z, hz⟩ := hsizes cp
          (List.mem_filter.mpr ⟨hc.gathered, isValidlySigned_iff.mpr ⟨c, hc.validated, hc.signed⟩⟩)
        rw [← (hc.shows hz).size_eq hagrees]
        exact (mem_items_iff hitems).mpr ⟨c, hc.shows hz⟩
      have hentry := hone _ (List.mem_reverse.mpr (hread hc)) _ (List.mem_reverse.mpr (hread hd)) hsize
      rw [entry_of_modelValidate hc.validated, entry_of_modelValidate hd.validated,
        Val.str.injEq] at hentry
      exact absurd hentry hroot

/-- What the loop over the proofs returns are heads of different sizes. -/
theorem lookup_of_checkProofs {bySize : List (Int × Val)} {p : EquivocationProof} :
    ∀ {proofs : List ((Int × Int) × Val)}, checkProofs bySize proofs = .ok (some p) →
      ∃ m n, m < n ∧ bySize.lookup m = some p.checkpointA ∧ bySize.lookup n = some p.checkpointB
  | [], h => nomatch h
  | ((m, n), proof) :: proofs, h => by
      rw [checkProofs] at h
      split at h
      · rename_i a b ha hb
        split at h
        · exact lookup_of_checkProofs h
        · rename_i hle
          obtain ⟨first, -, h⟩ := bind_eq_ok.mp h
          obtain ⟨second, -, h⟩ := bind_eq_ok.mp h
          obtain ⟨path, -, h⟩ := bind_eq_ok.mp h
          split at h
          · exact lookup_of_checkProofs h
          · obtain rfl := Option.some.inj (Except.ok.inj h)
            exact ⟨m, n, by omega, ha, hb⟩
      · exact lookup_of_checkProofs h

/-- **Where a fork is found.** Whatever proofs are supplied, the detection returns two validly signed
heads of one size with different roots exactly where the list starts with dictionaries that have such
heads among them and whose validly signed ones all have a size that `int` converts. -/
theorem detectEquivocation_finds_iff (hagrees : ReadInt.Agrees readInt) (cps : List Val)
    (proofs : Option (List ((Int × Int) × Val))) :
    FindsFork readInt ed publicKeyRaw cps proofs ↔ ∃ seen rest, cps = seen ++ rest ∧
      (∃ a b, Fork readInt ed publicKeyRaw seen a b) ∧
      ∀ cp ∈ seen, isValidlySigned readInt ed publicKeyRaw cp = true →
        Convertible (entry (lit "tree_size") cp) := by
  constructor
  · rintro ⟨p, hp, hfork⟩
    rw [detectEquivocation] at hp
    obtain ⟨filled, hfilled, hp⟩ := bind_eq_ok.mp hp
    cases filled with
    | inl fork =>
        obtain rfl := Option.some.inj (Except.ok.inj hp)
        obtain ⟨seen, rest, hcps, hsizes, hforkOf⟩ := forkOf_of_fillBySize rooted_of_mem_filter
          (fun a ha => absurd ha List.not_mem_nil) hfilled
        obtain ⟨seen, rest, rfl, rfl, -⟩ := List.filter_eq_append_iff.mp hcps
        refine ⟨seen, rest, rfl, ⟨_, _, ForkOf.fork hagrees hforkOf⟩, fun cp hcp hvalid => ?_⟩
        obtain ⟨c, hc, -⟩ := isValidlySigned_iff.mp hvalid
        rw [← exists_intSize_iff hc]
        exact hsizes cp (List.mem_filter.mpr ⟨hcp, hvalid⟩)
    | inr bySize =>
        -- the two heads of a refused proof have different sizes
        obtain ⟨m, n, hlt, ha, hb⟩ := lookup_of_checkProofs hp
        obtain ⟨items, hitems, rfl, -⟩ := (fillBySize_eq_inr rooted_of_mem_filter
          (fun a ha => absurd ha List.not_mem_nil) fun a ha => absurd ha List.not_mem_nil).mp hfilled
        rw [List.append_nil] at ha hb
        obtain ⟨c, hc⟩ := shows_of_lookup hitems ha
        obtain ⟨d, hd⟩ := shows_of_lookup hitems hb
        obtain ⟨c', d', hc', hd', hsize, -⟩ := hfork
        have hc := (hc'.shows hc.size).size_eq hagrees
        have hd := (hd'.shows hd.size).size_eq hagrees
        omega
  · rintro ⟨seen, rest, rfl, ⟨a, b, hfork⟩, hsizes⟩
    obtain ⟨fork, hfill⟩ := exists_fillBySize_inl hagrees (fun cp hcp => by
      obtain ⟨hmem, hvalid⟩ := List.mem_filter.mp hcp
      obtain ⟨c, hc, -⟩ := isValidlySigned_iff.mp hvalid
      exact (exists_intSize_iff hc).mpr (hsizes cp hmem hvalid)) hfork
    have hfull : fillBySize [] ((seen ++ rest).filter (isValidlySigned readInt ed publicKeyRaw))
        = .ok (.inl fork) := by
      rw [List.filter_append, fillBySize_append, hfill]
      rfl
    obtain ⟨seen', rest', hcps, -, hforkOf⟩ := forkOf_of_fillBySize rooted_of_mem_filter
      (fun a ha => absurd ha List.not_mem_nil) hfull
    obtain ⟨seen', rest', hcps', rfl, -⟩ := List.filter_eq_append_iff.mp hcps
    refine ⟨fork, ?_, (ForkOf.fork hagrees hforkOf).mono fun cp hcp => ?_⟩
    · rw [detectEquivocation]
      exact bind_eq_ok.mpr ⟨_, hfull, rfl⟩
    · rw [hcps']
      exact List.mem_append_left _ hcp

/-- The heads of two logs fork. -/
theorem fork_two : Fork sampleReadInt (madeBy sampleKey madeTwo) sampleKey
    [billingOne.dump, billingTwo.dump, supportOne.dump] billingOne.dump supportOne.dump :=
  ⟨billingOne, supportOne,
    ⟨by simp, rfl, by decide +kernel⟩, ⟨by simp, rfl, by decide +kernel⟩, rfl, by decide +kernel⟩

/-- The fork is found, with another head between the two. -/
theorem detectEquivocation_finds_iff_two :
    FindsFork sampleReadInt (madeBy sampleKey madeTwo) sampleKey
      [billingOne.dump, billingTwo.dump, supportOne.dump] none :=
  (detectEquivocation_finds_iff (by
    intro v n z hn hz
    cases v with
    | int k => exact (Except.ok.inj hz).symm.trans (Option.some.inj hn)
    | _ => cases hn) _ none).mpr
    ⟨_, [], (List.append_nil _).symm, ⟨_, _, fork_two⟩, by
      intro cp hcp _
      simp only [List.mem_cons, List.not_mem_nil, or_false] at hcp
      rcases hcp with rfl | rfl | rfl <;> exact trivial⟩

/-- The integer that pydantic makes of a value in an `int` field. -/
def laxInt : ReadInt := fun v =>
  match Model.int v with
  | some (.int z) => some z
  | _ => none

/-- A head whose size was rewritten as a decimal fraction. -/
def respelled (c : Checkpoint) : Val :=
  .dict ((declared c).map fun kv =>
    if kv.1 = lit "tree_size" then (kv.1, .str (lit "1.0")) else kv)

/-- **A respelled size hides a fork.** -/
theorem detectEquivocation_finds_not : ¬∀ (ed : Ed25519) (publicKeyRaw : Bytes) (cps : List Val)
    (proofs : Option (List ((Int × Int) × Val))), (∃ a b, Fork laxInt ed publicKeyRaw cps a b) →
      FindsFork laxInt ed publicKeyRaw cps proofs := by
  intro h
  obtain ⟨p, hp, -⟩ := h (madeBy sampleKey madeTwo) sampleKey
    [respelled billingOne, billingOne.dump, supportOne.dump] none
    ⟨billingOne.dump, supportOne.dump, billingOne, supportOne, ⟨by simp, rfl, by decide +kernel⟩,
      ⟨by simp, rfl, by decide +kernel⟩, rfl, by decide +kernel⟩
  have hraises : (detectEquivocation laxInt (madeBy sampleKey madeTwo) [respelled billingOne,
      billingOne.dump, supportOne.dump] sampleKey none).toOption = none := by
    decide +kernel
  rw [hp] at hraises
  cases hraises

/-- **Every fork is found** among heads whose sizes `int` converts, in any order. -/
theorem detectEquivocation_finds_fork (hagrees : ReadInt.Agrees readInt) {cps : List Val}
    (hsizes : ∀ cp ∈ cps, isValidlySigned readInt ed publicKeyRaw cp = true →
      Convertible (entry (lit "tree_size") cp))
    {a b : Val} (hfork : Fork readInt ed publicKeyRaw cps a b)
    (proofs : Option (List ((Int × Int) × Val))) : FindsFork readInt ed publicKeyRaw cps proofs :=
  (detectEquivocation_finds_iff hagrees cps proofs).mpr
    ⟨cps, [], (List.append_nil cps).symm, ⟨a, b, hfork⟩, hsizes⟩

end OpenWright.Anchor
