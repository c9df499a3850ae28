import OpenWright.Adapters.Event
import OpenWright.Signing

/-! # Identity claims

An agent signs its card. The claim carries the hash of the card and the signature, so that whoever has
the card and the public key can check it.

* **`verifyIdentityClaim_iff`** — a claim that was made for a card verifies for the cards with the
  content of that card, whatever their signatures, and for no others. -/

namespace OpenWright.Identity

open Python Canonical Signing
open Hash (CollisionFree)
open Adapters (IdentityClaim)

/-! ## Claims -/

/-- A card without its signatures. -/
def withoutSignatures (agentCard : Items) : Items := agentCard.filter fun kv => kv.1 ≠ lit "signatures"

/-- `_card_signing_bytes`. -/
def cardSigningBytes (agentCard : Items) : Except PyErr Bytes :=
  canonicalBytes (.dict (withoutSignatures agentCard))

/-- The hash of what is signed. -/
def hashOf (signed : Bytes) : Str := lit "sha256:" ++ sha256Hex signed

/-- `agent_card_hash`. -/
def agentCardHash (agentCard : Items) : Except PyErr Str := do
  let signed ← cardSigningBytes agentCard
  return hashOf signed

/-- `make_identity_claim`. -/
def makeIdentityClaim (agentCard : Items) (key : KeySource) : Except PyErr IdentityClaim := do
  let signed ← cardSigningBytes agentCard
  let sig ← key.sign signed
  return {
    claimType := lit "agentcard-binding"
    publicKeyId := some key.keyId
    agentCardHash := some (hashOf signed)
    signatureB64 := some (b64encode sig)
    extra_undeclared := fun _ hkv => absurd hkv List.not_mem_nil }

/-- A field that is set says something else. -/
def Differs (field : Option Str) (value : Str) : Prop := ∃ s, field = some s ∧ s ≠ [] ∧ s ≠ value

instance (field : Option Str) (value : Str) : Decidable (Differs field value) :=
  match field with
  | none => isFalse fun h => by obtain ⟨s, hs, -⟩ := h; cases hs
  | some s =>
    decidable_of_iff (s ≠ [] ∧ s ≠ value)
      ⟨fun h => ⟨s, rfl, h⟩, fun h => by obtain ⟨t, ht, h⟩ := h; cases ht; exact h⟩

/-- A field differs if it is given and another text. -/
theorem differs_some {s value : Str} : Differs (some s) value ↔ s ≠ [] ∧ s ≠ value := by
  constructor
  · rintro ⟨t, ht, h⟩
    rwa [Option.some.inj ht]
  · intro h
    exact ⟨s, rfl, h⟩

/-- A field does not differ from what it says. -/
theorem not_differs_self (value : Str) : ¬Differs (some value) value := by
  simp [differs_some]

/-- `verify_identity_claim`. -/
def verifyIdentityClaim (ed : Ed25519) (claim : IdentityClaim) (agentCard : Items)
    (publicKeyRaw : Bytes) : Except PyErr Bool :=
  if Differs claim.publicKeyId (keyIdFor publicKeyRaw) then .ok false
  else do
    let signed ← cardSigningBytes agentCard
    -- the claim is about the card as it was when it was made
    if Differs claim.agentCardHash (hashOf signed) then return false
    else
      -- `if not claim.signature_b64`
      match claim.signatureB64.filter (· ≠ []) with
      | none => return false
      | some text =>
        match b64decode text with
        | none => return false
        | some sig => return ed publicKeyRaw sig signed

/-! ## What is verified -/

section Verify

variable {ed : Ed25519} {claim : IdentityClaim} {card card' : Items} {raw raw' : Bytes}

/-- A claim that verifies names the key and the hash of the card, where it names one, and is signed. -/
structure Verifies (ed : Ed25519) (claim : IdentityClaim) (card : Items) (raw signed : Bytes) : Prop where
  signedBytes : cardSigningBytes card = .ok signed
  key : ¬Differs claim.publicKeyId (keyIdFor raw)
  hash : ¬Differs claim.agentCardHash (hashOf signed)
  signature : ∃ text sig, claim.signatureB64 = some text ∧ text ≠ [] ∧ b64decode text = some sig ∧
    ed raw sig signed = true

/-- A claim is verified where it verifies over the bytes of some card. -/
theorem verifyIdentityClaim_eq_true : verifyIdentityClaim ed claim card raw = .ok true ↔
    ∃ signed, Verifies ed claim card raw signed := by
  rw [verifyIdentityClaim]
  constructor
  · intro h
    -- the source's tests in order: the key id, the hash of the card, the signature
    by_cases hkey : Differs claim.publicKeyId (keyIdFor raw)
    · rw [if_pos hkey] at h
      cases h
    rw [if_neg hkey] at h
    obtain ⟨signed, hsigned, h⟩ := bind_eq_ok.mp h
    by_cases hhash : Differs claim.agentCardHash (hashOf signed)
    · rw [if_pos hhash] at h
      cases h
    rw [if_neg hhash] at h
    -- an empty signature text counts as none
    split at h
    · cases h
    · rename_i text htext
      split at h
      · cases h
      · rename_i sig hsig
        obtain ⟨htext, hne⟩ := Option.filter_eq_some_iff.mp htext
        exact ⟨signed, hsigned, hkey, hhash, text, sig, htext, by simpa using hne, hsig,
          pure_eq_ok.mp h⟩
  · rintro ⟨signed, hsigned, hkey, hhash, text, sig, htext, hne, hsig, hed⟩
    have hfilter : claim.signatureB64.filter (· ≠ []) = some text :=
      Option.filter_eq_some_iff.mpr ⟨htext, by simpa using hne⟩
    rw [if_neg hkey, hsigned]
    refine bind_eq_ok.mpr ⟨signed, rfl, ?_⟩
    rw [if_neg hhash, hfilter]
    simp only [hsig, hed]
    rfl

/-- **A hash names one content.** A claim that names a hash and verifies for two cards verifies for one
content, unless the hash function collides. -/
theorem sameContent_of_verifies {signed signed' : Bytes} (h : Verifies ed claim card raw signed)
    (h' : Verifies ed claim card' raw' signed') {hash : Str} (hhash : claim.agentCardHash = some hash)
    (hne : hash ≠ []) (hS : CollisionFree [signed, signed']) :
    SameContent (.dict (withoutSignatures card)) (.dict (withoutSignatures card')) := by
  have hnames : ∀ {s : Bytes}, ¬Differs claim.agentCardHash (hashOf s) → hash = hashOf s := by
    intro s hs
    simpa [hhash, differs_some, hne] using hs
  have heq : hashOf signed = hashOf signed' := (hnames h.hash).symm.trans (hnames h'.hash)
  have hsigned : signed = signed' := by
    refine hS signed (by simp) signed' (by simp) ?_
    rw [hashOf, hashOf, List.append_right_inj] at heq
    have hhex := congrArg fromhex heq
    rw [sha256Hex, sha256Hex, fromhex_hex, fromhex_hex] at hhex
    exact Option.some.inj hhex
  refine (sameContent_iff h.signedBytes).mpr ?_
  rw [hsigned]
  exact h'.signedBytes

/-- Cards with one content are verified alike. -/
theorem Verifies.congr {signed : Bytes} (h : Verifies ed claim card raw signed)
    (hsame : SameContent (.dict (withoutSignatures card)) (.dict (withoutSignatures card'))) :
    Verifies ed claim card' raw signed :=
  ⟨(sameContent_iff h.signedBytes).mp hsame, h.key, h.hash, h.signature⟩

/-- What is made verifies. -/
theorem verifies_makeIdentityClaim {key : KeySource}
    (hed : ∀ data sig, key.sign data = .ok sig → sig ≠ [] ∧ ed key.publicKeyRaw sig data = true)
    (h : makeIdentityClaim card key = .ok claim) :
    ∃ signed, claim.agentCardHash = some (hashOf signed) ∧
      Verifies ed claim card key.publicKeyRaw signed := by
  rw [makeIdentityClaim] at h
  obtain ⟨signed, hsigned, h⟩ := bind_eq_ok.mp h
  obtain ⟨sig, hsig, h⟩ := bind_eq_ok.mp h
  obtain rfl := pure_eq_ok.mp h
  obtain ⟨hne, hverifies⟩ := hed signed sig hsig
  refine ⟨signed, rfl, hsigned, not_differs_self _, not_differs_self _, b64encode sig, sig, rfl, ?_,
    b64decode_b64encode sig, hverifies⟩
  -- the empty text is that of no bytes, and a signature has some
  intro hnil
  have hdecode := b64decode_b64encode sig
  rw [hnil] at hdecode
  exact hne (Option.some.inj hdecode).symm

end Verify

/-- What is signed of a card, if it can be signed. -/
def signedOf (agentCard : Items) : Bytes := (cardSigningBytes agentCard).toOption.getD []

/-- The bytes of a card that can be signed. -/
theorem signedOf_eq {card : Items} {signed : Bytes} (h : cardSigningBytes card = .ok signed) :
    signedOf card = signed := by
  rw [signedOf, h]
  rfl

/-- **A claim binds its key to one content.** A claim that was made for a card verifies under the key that
made it for exactly the cards with the content of that card (the order of fields, null fields, and the
`signatures` do not count), and under no key with another id. -/
theorem verifyIdentityClaim_iff (ed : Ed25519) (key : KeySource)
    (hed : ∀ data sig, key.sign data = .ok sig → sig ≠ [] ∧ ed key.publicKeyRaw sig data = true)
    (card card' : Items) {claim : IdentityClaim} (h : makeIdentityClaim card key = .ok claim)
    (hS : CollisionFree [signedOf card, signedOf card']) :
    (verifyIdentityClaim ed claim card' key.publicKeyRaw = .ok true ↔
        SameContent (.dict (withoutSignatures card)) (.dict (withoutSignatures card'))) ∧
      ∀ raw, verifyIdentityClaim ed claim card' raw = .ok true → keyIdFor raw = key.keyId := by
  obtain ⟨signed, hhash, hverifies⟩ := verifies_makeIdentityClaim hed h
  refine ⟨⟨fun haccept => ?_, fun hsame => ?_⟩, fun raw haccept => ?_⟩
  · -- the claim names the hash of the card it was made for
    obtain ⟨signed', hverifies'⟩ := verifyIdentityClaim_eq_true.mp haccept
    refine sameContent_of_verifies hverifies hverifies' hhash ?_ ?_
    · rw [hashOf]
      exact List.append_ne_nil_of_left_ne_nil (by decide) _
    · rwa [signedOf_eq hverifies.signedBytes, signedOf_eq hverifies'.signedBytes] at hS
  · exact verifyIdentityClaim_eq_true.mpr ⟨signed, hverifies.congr hsame⟩
  · obtain ⟨signed', hverifies'⟩ := verifyIdentityClaim_eq_true.mp haccept
    rw [makeIdentityClaim] at h
    obtain ⟨_, -, h⟩ := bind_eq_ok.mp h
    obtain ⟨_, -, h⟩ := bind_eq_ok.mp h
    obtain rfl := pure_eq_ok.mp h
    -- the claim names the id of the key that made it, and no key id is empty
    by_contra hother
    refine hverifies'.key ⟨key.keyId, rfl, ?_, Ne.symm hother⟩
    rw [KeySource.keyId, keyIdFor]
    exact List.append_ne_nil_of_left_ne_nil (by decide) _

/-- A card, and the same card with a signature and its fields in another order. -/
def sampleCard : Items := [(lit "name", .str (lit "agent")), (lit "version", .int 1)]

def signedSampleCard : Items :=
  [(lit "version", .int 1), (lit "signatures", .list [.str (lit "s")]), (lit "name", .str (lit "agent"))]

/-- The signature of the card. -/
def sampleCardSig : Bytes :=
  [208, 117, 240, 204, 53, 123, 77, 144, 237, 194, 248, 153, 81, 228, 64, 6, 83, 181, 120, 51, 246,
    146, 204, 140, 120, 30, 62, 193, 195, 254, 198, 136, 186, 53, 18, 155, 95, 92, 227, 126, 253,
    160, 193, 93, 93, 119, 109, 28, 155, 134, 6, 149, 129, 99, 28, 154, 100, 31, 55, 172, 189, 150,
    204, 14]

/-- What the key of the sample signs. -/
def sampleCardMade : List (Bytes × Bytes) := [(signedOf sampleCard, sampleCardSig)]

/-- The claim that is made of the card is verified for the card with a signature. -/
theorem verifyIdentityClaim_iff_sample : ∃ claim,
    makeIdentityClaim sampleCard (madeKey sampleKey sampleCardMade) = .ok claim ∧
    verifyIdentityClaim (madeBy sampleKey sampleCardMade) claim signedSampleCard sampleKey
      = .ok true := by
  have hsign : ∀ data sig, (madeKey sampleKey sampleCardMade).sign data = .ok sig → sig ≠ [] ∧
      madeBy sampleKey sampleCardMade sampleKey sig data = true := by
    intro data sig h
    refine ⟨?_, madeBy_of_sign h⟩
    have hmade := madeBy_of_sign h
    simp only [madeBy, sampleCardMade, decide_eq_true_eq, List.mem_singleton, Prod.mk.injEq] at hmade
    rw [hmade.2.2, sampleCardSig]
    exact List.cons_ne_nil _ _
  -- the card of the claim has no signatures, so a card with some has the same content
  have hsame : SameContent (.dict (withoutSignatures sampleCard))
      (.dict (withoutSignatures signedSampleCard)) := by
    unfold SameContent
    decide +kernel
  obtain ⟨signed, hsigned⟩ : ∃ signed, cardSigningBytes sampleCard = .ok signed :=
    ⟨(utf8 (lit "\x7b\"name\":\"agent\",\"version\":1\x7d")).getD [], by decide +kernel⟩
  obtain ⟨sig, hsig⟩ : ∃ sig, (madeKey sampleKey sampleCardMade).sign signed = .ok sig := by
    refine @exists_sign_of_mem _ _ sampleCardSig _ ?_
    rw [sampleCardMade, signedOf_eq hsigned]
    exact List.mem_singleton_self _
  refine ⟨_, bind_eq_ok.mpr ⟨signed, hsigned, bind_eq_ok.mpr ⟨sig, hsig, rfl⟩⟩, ?_⟩
  refine (verifyIdentityClaim_iff _ (madeKey sampleKey sampleCardMade) hsign sampleCard signedSampleCard
    (bind_eq_ok.mpr ⟨signed, hsigned, bind_eq_ok.mpr ⟨sig, hsig, rfl⟩⟩) ?_).1.mpr hsame
  -- both cards are signed as the same bytes, so nothing collides
  have heq : signedOf signedSampleCard = signedOf sampleCard := by
    rw [signedOf_eq hsigned, signedOf_eq ((sameContent_iff hsigned).mp hsame)]
  intro s hs t ht _
  simp only [heq, List.mem_cons, List.not_mem_nil, or_false, or_self] at hs ht
  rw [hs, ht]

end OpenWright.Identity
