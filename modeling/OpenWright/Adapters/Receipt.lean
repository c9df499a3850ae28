import OpenWright.Adapters.Event
import OpenWright.Encodable
import OpenWright.Signing
import OpenWright.Timestamps

/-! # Signed action receipts

A receipt comes with a signature over its canonical form, and is verified before it becomes an event.

* **`verifiedOrRejected_iff`** — on which receipts the adapter gives an event that the signature vouches
  for or refuses the receipt, and nothing else escapes. -/

namespace OpenWright.Adapters

open Python Python.Val Canonical EventModel Signing

/-! ## The adapter -/

/-- What `verify_and_normalize` raises. -/
inductive ReceiptExc
  /-- A `ReceiptVerificationError`. -/
  | verification (msg : FString)
  /-- An exception of another class. -/
  | other (e : PyErr)
deriving DecidableEq

/-- The receipt without its signature. -/
def withoutSig (receipt : Items) : Items := receipt.filter fun kv => kv.1 ≠ lit "sig"

/-- `receipt_signing_bytes`. -/
def receiptSigningBytes (receipt : Items) : Except PyErr Bytes :=
  canonicalBytes (.dict (withoutSig receipt))

/-- A receipt with its parts. -/
structure Opened where
  receipt : Items
  action : Items
  signer : Items
  sigB64 : Str
  sig : Bytes
  pubkeyB64 : Str
  pubRaw : Bytes

/-- The checks before the signature is verified; on failure the message. -/
def openReceipt : Val → Except FString Opened
  | .dict receipt =>
    match attr receipt "action", attr receipt "signer" with
    | .dict action, .dict signer =>
      if (attr receipt "sig").truthy ∧ (attr signer "pubkey").truthy then
        match attr receipt "sig", attr signer "pubkey" with
        | .str sigB64, .str pubkeyB64 =>
          match b64decode sigB64, b64decode pubkeyB64 with
          | some sig, some pubRaw => .ok { receipt, action, signer, sigB64, sig, pubkeyB64, pubRaw }
          | _, _ => .error [.text (lit "malformed base64 in receipt: ")]
        -- `b64decode` raises a `TypeError`
        | _, _ => .error [.text (lit "malformed base64 in receipt: ")]
      else .error [.text (lit "receipt missing signature or signer pubkey")]
    | _, _ => .error [.text (lit "receipt missing action/signer object")]
  | _ => .error [.text (lit "receipt must be a JSON object")]

/-- The identity claim of the signer. -/
def signerClaim (r : Opened) : IdentityClaim where
  claimType := lit "receipt-signer"
  publicKeyId := some (keyIdFor r.pubRaw)
  signatureB64 := some r.sigB64
  -- what is no declared field is kept beside the others (`extra="allow"`)
  extra := (lit "public_key_b64", .str r.pubkeyB64) ::
    (if attr r.signer "owner" = .null then [] else [(lit "owner", attr r.signer "owner")])
  extra_undeclared := by
    intro kv hkv
    rcases List.mem_cons.mp hkv with rfl | hkv
    · exact ⟨(by decide : lit "public_key_b64" ∉ _), fun h => nomatch h⟩
    · split at hkv
      · cases hkv
      · rename_i hne
        rw [List.mem_singleton.mp hkv]
        exact ⟨(by decide : lit "owner" ∉ _), hne⟩

/-- An attribute, unless it is `None`, and those after it. -/
def withAttribute (k : String) (v : Val) (rest : Items) : Items :=
  if v = .null then rest else (lit k, v) :: rest

/-- The attributes of the event. -/
def receiptAttributes (r : Opened) : Items :=
  (lit "receipt_verified", .bool true) :: withAttribute "nonce" (attr r.receipt "nonce")
    (withAttribute "target" (attr r.action "target")
      (withAttribute "transport" (attr r.receipt "transport") []))

/-- A text field that is only set where it is true. -/
def fieldIfTrue (v : Val) : Except PyErr (Option Str) := if v.truthy then optionalStr v else .ok none

/-- The agent that is taken where the signer has no name. -/
def defaultAgent (agentIdDefault : Option Str) : Str :=
  (agentIdDefault.filter (· ≠ [])).getD (lit "unknown-agent")

/-- The event of a verified receipt. -/
def receiptEvent (r : Opened) (agentIdDefault : Option Str) : Except PyErr Event := do
  let timestamp ← toRfc3339 (.ofVal (attr r.receipt "ts"))
  let agentId ← requiredStr ((attr r.signer "name").orElse (.str (defaultAgent agentIdDefault)))
  let argumentsRef ← fieldIfTrue (attr r.action "params_hash")
  let tool ← fieldIfTrue (attr r.action "tool")
  let attributes ← attributes (receiptAttributes r)
  return {
    timestamp
    kind := .toolCall
    actor := { agentId, identityClaim := some (signerClaim r) }
    io := argumentsRef.map fun s => { argumentsRef := some s }
    tool := tool.map fun s => { name := some s }
    attributes
    source := { format := lit "receipt/action-v1" } }

/-- `verify_and_normalize`. -/
def verifyAndNormalize (ed : Ed25519) (receipt : Val) (agentIdDefault : Option Str) :
    Except ReceiptExc Event :=
  match openReceipt receipt with
  | .error msg => .error (.verification msg)
  | .ok r =>
    -- called outside any `try`
    match receiptSigningBytes r.receipt with
    | .error e => .error (.other e)
    | .ok data =>
      -- the signature is verified before anything of the receipt is ingested
      if ed r.pubRaw r.sig data then
        if attr r.receipt "ts" = .null then .error (.verification [.text (lit "receipt missing ts")])
        else
          match receiptEvent r agentIdDefault with
          | .ok event => .ok event
          | .error e => .error (.other e)
      else .error (.verification [.text (lit "receipt Ed25519 signature did not verify")])

/-! ## Opened receipts -/

/-- A receipt that can be opened: `action` and `signer` are objects, and the signature and the key are
non-empty texts that base64 decodes. -/
structure Opens (receipt : Val) (r : Opened) : Prop where
  receipt : receipt = .dict r.receipt
  action : attr r.receipt "action" = .dict r.action
  signer : attr r.receipt "signer" = .dict r.signer
  sigB64 : attr r.receipt "sig" = .str r.sigB64
  pubkeyB64 : attr r.signer "pubkey" = .str r.pubkeyB64
  sigB64_ne_nil : r.sigB64 ≠ []
  pubkeyB64_ne_nil : r.pubkeyB64 ≠ []
  sig : b64decode r.sigB64 = some r.sig
  pubRaw : b64decode r.pubkeyB64 = some r.pubRaw

/-- **What opens a receipt.** -/
theorem openReceipt_eq_ok {receipt : Val} {r : Opened} :
    openReceipt receipt = .ok r ↔ Opens receipt r := by
  constructor
  -- each `if` of the source is one split, and a receipt that it refuses is no opened one
  · intro h
    rw [openReceipt.eq_def] at h
    split at h
    · rename_i kvs
      split at h
      · rename_i action signer haction hsigner
        split at h
        · rename_i htruthy
          split at h
          · rename_i sigB64 pubkeyB64 hsigB64 hpubkeyB64
            split at h
            · rename_i sig pubRaw hsig hpubRaw
              obtain rfl := Except.ok.inj h
              -- the two texts were tested for truth before their types were
              rw [hsigB64, hpubkeyB64] at htruthy
              exact ⟨rfl, haction, hsigner, hsigB64, hpubkeyB64, by simpa [truthy] using htruthy.1,
                by simpa [truthy] using htruthy.2, hsig, hpubRaw⟩
            · cases h
          · cases h
        · cases h
      · cases h
    · cases h
  · rintro ⟨rfl, haction, hsigner, hsigB64, hpubkeyB64, hne, hne', hsig, hpubRaw⟩
    have htruthy : (attr r.receipt "sig").truthy = true ∧ (attr r.signer "pubkey").truthy = true := by
      rw [hsigB64, hpubkeyB64]
      simpa [truthy] using ⟨hne, hne'⟩
    simp only [openReceipt, haction, hsigner]
    rw [if_pos htruthy]
    simp only [hsigB64, hpubkeyB64, hsig, hpubRaw]

/-! ## What the signature vouches for -/

/-- A text field of the event is what the signed content has for it. -/
structure FieldIs (v : Val) (o : Option Str) : Prop where
  set : v.truthy = true → ∃ s, v = .str s ∧ o = some s
  unset : v.truthy = false → o = none

/-- The event has what the signed content has. -/
structure Mirrors (content action signer : Items) (agentIdDefault : Option Str) (event : Event) :
    Prop where
  named : (attr signer "name").truthy = true → attr signer "name" = .str event.actor.agentId
  unnamed : (attr signer "name").truthy = false →
    event.actor.agentId = defaultAgent agentIdDefault
  tool : FieldIs (attr action "tool") (event.tool.bind (·.name))
  argumentsRef : FieldIs (attr action "params_hash") (event.io.bind (·.argumentsRef))
  timestamp : toRfc3339 (.ofVal (attr content "ts")) = .ok event.timestamp
  nonce : attr event.attributes.items "nonce" = attr content "nonce"
  target : attr event.attributes.items "target" = attr action "target"
  transport : attr event.attributes.items "transport" = attr content "transport"

/-- The signature verifies over the canonical bytes of the receipt without it, and the event has what
these are made of. -/
structure Attested (ed : Ed25519) (receipt : Val) (agentIdDefault : Option Str) (event : Event)
    (r : Opened) (data : Bytes) : Prop where
  opens : Opens receipt r
  action : attr (withoutSig r.receipt) "action" = .dict r.action
  signer : attr (withoutSig r.receipt) "signer" = .dict r.signer
  canonical : canonicalBytes (.dict (withoutSig r.receipt)) = .ok data
  verifies : ed r.pubRaw r.sig data = true
  mirrors : Mirrors (withoutSig r.receipt) r.action r.signer agentIdDefault event

/-- The adapter gives an event that the signature vouches for, or refuses the receipt. -/
def VerifiedOrRejected (ed : Ed25519) (receipt : Val) (agentIdDefault : Option Str) : Prop :=
  (∃ event r data, verifyAndNormalize ed receipt agentIdDefault = .ok event ∧
      Attested ed receipt agentIdDefault event r data) ∨
    ∃ msg, verifyAndNormalize ed receipt agentIdDefault = .error (.verification msg)

/-! ## Which receipts are readable -/

/-- An instant of the years from 1 to 9999, in seconds or, above `10 ^ 14`, in nanoseconds. -/
def InCalendar (z : Int) : Prop :=
  let ns := if 10 ^ 14 < z then z else z * 1000000000
  (-62135596800 * 1000000000 ≤ ns ∧ ns < 253402300800 * 1000000000)

/-- A text, or a number for an instant. -/
def IsTimestamp : Val → Prop
  | .str _ => True
  | .int z => InCalendar z
  | .bool _ => True
  | _ => False

/-- The fields that an event takes have their types. -/
structure Readable (r : Opened) : Prop where
  ts : IsTimestamp (attr r.receipt "ts")
  name : TextIfTrue (attr r.signer "name")
  paramsHash : TextIfTrue (attr r.action "params_hash")
  tool : TextIfTrue (attr r.action "tool")

/-- A receipt that can be opened has canonical bytes; and if the signature verifies and there is a
timestamp, the fields have their types. -/
def Ingestible (ed : Ed25519) (receipt : Val) : Prop :=
  ∀ r, Opens receipt r → Encodable (strip (.dict (withoutSig r.receipt))) ∧
    ∀ data, canonicalBytes (.dict (withoutSig r.receipt)) = .ok data →
      ed r.pubRaw r.sig data = true → attr r.receipt "ts" ≠ .null → Readable r

/-- What nanoseconds are written for. -/
theorem exists_ofNanoseconds {ns : Int} : (∃ s, ofNanoseconds ns = .ok s) ↔
    -62135596800 * 1000000000 ≤ ns ∧ ns < 253402300800 * 1000000000 := by
  have hfirst := @DateTime.le_year_ofUnix (ns / 1000000000) 1
  have hlast := @DateTime.le_year_ofUnix (ns / 1000000000) 10000
  have hone : daysBeforeYear 1 = 0 := by decide
  have hend : daysBeforeYear 10000 = 3652059 := by decide
  rw [hone] at hfirst
  rw [hend] at hlast
  simp only [ofNanoseconds_eq_ok, exists_and_left, exists_eq, and_true]
  omega

/-- A timestamp is normalized where it is one. -/
theorem exists_toRfc3339 {v : Val} :
    (∃ s, toRfc3339 (.ofVal v) = .ok s) ↔ IsTimestamp v := by
  cases v with
  | str s => exact iff_of_true ⟨s, rfl⟩ trivial
  | int z => exact @exists_ofNanoseconds (if 10 ^ 14 < z then z else z * 1000000000)
  | bool b =>
      refine iff_of_true (exists_ofNanoseconds.mpr ?_) trivial
      cases b <;> decide
  | null | float x | list vs | tuple vs | dict kvs => exact iff_of_false (fun ⟨_, h⟩ => nomatch h) id

/-- What a field gives is its text, or nothing if it is not true. -/
theorem fieldIfTrue_eq_ok {v : Val} {o : Option Str} (h : fieldIfTrue v = .ok o) : FieldIs v o := by
  rw [fieldIfTrue] at h
  split at h
  · rename_i htruthy
    refine ⟨fun _ => ?_, fun hfalsy => absurd (htruthy.symm.trans hfalsy) (by decide)⟩
    cases v with
    | str s => exact ⟨s, rfl, (Except.ok.inj h).symm⟩
    | null => cases htruthy
    | _ => cases h
  · rename_i hfalsy
    exact ⟨fun htruthy => absurd htruthy hfalsy, fun _ => (Except.ok.inj h).symm⟩

/-- A field is read where it is a text, if it is true. -/
theorem exists_fieldIfTrue {v : Val} : (∃ o, fieldIfTrue v = .ok o) ↔ TextIfTrue v := by
  constructor
  · rintro ⟨o, ho⟩ htruthy
    obtain ⟨s, hs, -⟩ := (fieldIfTrue_eq_ok ho).set htruthy
    exact ⟨s, hs⟩
  · intro h
    rw [fieldIfTrue]
    split
    · rename_i htruthy
      obtain ⟨s, rfl⟩ := h htruthy
      exact ⟨some s, rfl⟩
    · exact ⟨none, rfl⟩

/-! ### Encodable values have no floats -/

mutual
/-- What can be encoded without its nulls has no float. -/
theorem findsFloat_eq_false : ∀ {v : Val}, Encodable (strip v) → EventModel.findsFloat v = false
  | .null, _ | .bool _, _ | .int _, _ | .str _, _ | .tuple _, _ => rfl
  | .float _, h => h.elim
  | .list _, h => findsFloatList_eq_false h
  | .dict _, h => findsFloatItems_eq_false h

/-- Nor has a list of such values. -/
theorem findsFloatList_eq_false : ∀ {vs : List Val}, EncodableList (stripList vs) →
    EventModel.findsFloatList vs = false
  | [], _ => rfl
  | v :: vs, h => by
      rw [EventModel.findsFloatList, findsFloat_eq_false h.1, findsFloatList_eq_false h.2]
      rfl

/-- Nor has a dictionary of such values. -/
theorem findsFloatItems_eq_false : ∀ {kvs : Items}, EncodableItems (stripItems kvs) →
    EventModel.findsFloatItems kvs = false
  | [], _ => rfl
  | (k, v) :: kvs, h => by
      rw [EventModel.findsFloatItems]
      by_cases hnull : v = .null
      · rw [stripItems, if_pos hnull] at h
        rw [hnull, findsFloatItems_eq_false h]
        rfl
      · rw [stripItems, if_neg hnull] at h
        rw [findsFloat_eq_false h.2.1, findsFloatItems_eq_false h.2.2]
        rfl
end

/-! ## The event of a receipt -/

section Receipt

variable {r : Opened} {agentIdDefault : Option Str} {event : Event}

/-- Nothing but the signature is left out of the signed content. -/
theorem attr_withoutSig {k : String} (hk : lit k ≠ lit "sig") (receipt : Items) :
    attr (withoutSig receipt) k = attr receipt k := by
  rw [attr, withoutSig, lookup_filter_of (p := fun k => k ≠ lit "sig") (decide_eq_true hk), attr]

/-- A value that is looked up has no float where none is found. -/
theorem findsFloat_attr {items : Items} (h : findsFloatItems items = false) (k : String) :
    findsFloat (attr items k) = false := by
  rw [attr]
  cases hlookup : items.lookup (lit k) with
  | none => rfl
  | some v =>
      rw [findsFloatItems_eq_any, List.any_eq_false] at h
      simpa using h _ (mem_of_lookup hlookup)

/-- An attribute that is no float adds none. -/
theorem findsFloatItems_withAttribute {v : Val} {rest : Items} (hv : findsFloat v = false)
    (h : findsFloatItems rest = false) (k : String) :
    findsFloatItems (withAttribute k v rest) = false := by
  rw [withAttribute]
  split
  · exact h
  · rw [findsFloatItems, hv, h]
    rfl

/-- The attributes of an encodable receipt hold no float. -/
theorem noFloats_receiptAttributes {receipt : Val} (hopens : Opens receipt r)
    (h : Encodable (strip (.dict (withoutSig r.receipt)))) :
    findsFloatItems (receiptAttributes r) = false := by
  have hcontent : findsFloatItems (withoutSig r.receipt) = false := findsFloat_eq_false h
  have haction : findsFloatItems r.action = false := by
    have hfloat := findsFloat_attr hcontent "action"
    rwa [attr_withoutSig (by decide), hopens.action] at hfloat
  have hentry : ∀ k, lit k ≠ lit "sig" → findsFloat (attr r.receipt k) = false := by
    intro k hk
    rw [← attr_withoutSig hk]
    exact findsFloat_attr hcontent k
  have hverified : findsFloat (.bool true) = false := rfl
  rw [receiptAttributes, findsFloatItems, hverified, Bool.false_or]
  refine findsFloatItems_withAttribute (hentry "nonce" (by decide)) ?_ "nonce"
  refine findsFloatItems_withAttribute (findsFloat_attr haction "target") ?_ "target"
  exact findsFloatItems_withAttribute (hentry "transport" (by decide)) rfl "transport"

/-- Another key is looked up behind the first entry. -/
theorem attr_cons_of_ne {k : String} {l : Str} (h : lit k ≠ l) (v : Val) (rest : Items) :
    attr ((l, v) :: rest) k = attr rest k := by
  rw [attr, List.lookup_cons, beq_false_of_ne h, attr]

/-- An attribute that is set is looked up, and another one is looked up after it. -/
theorem attr_withAttribute {k : String} {v : Val} {rest : Items} (h : attr rest k = .null) :
    attr (withAttribute k v rest) k = v := by
  rw [withAttribute]
  split
  · rename_i hnull
    rw [h, hnull]
  · rw [attr, List.lookup_cons_self, Option.getD_some]

/-- An attribute leaves the other keys. -/
theorem attr_withAttribute_of_ne {k l : String} (h : lit l ≠ lit k) (v : Val) (rest : Items) :
    attr (withAttribute k v rest) l = attr rest l := by
  rw [withAttribute]
  split
  · rfl
  · exact attr_cons_of_ne h v rest

/-- The attributes are nonce, target and transport. -/
theorem attr_receiptAttributes (r : Opened) :
    attr (receiptAttributes r) "nonce" = attr r.receipt "nonce" ∧
      attr (receiptAttributes r) "target" = attr r.action "target" ∧
      attr (receiptAttributes r) "transport" = attr r.receipt "transport" := by
  have hrest {k : String} (hk : lit k ≠ lit "receipt_verified") : attr (receiptAttributes r) k
      = attr (withAttribute "nonce" (attr r.receipt "nonce")
        (withAttribute "target" (attr r.action "target")
          (withAttribute "transport" (attr r.receipt "transport") []))) k :=
    attr_cons_of_ne hk _ _
  rw [hrest (by decide), hrest (by decide), hrest (by decide)]
  refine ⟨attr_withAttribute ?_, ?_, ?_⟩
  · rw [attr_withAttribute_of_ne (by decide), attr_withAttribute_of_ne (by decide)]
    rfl
  · rw [attr_withAttribute_of_ne (by decide)]
    refine attr_withAttribute ?_
    rw [attr_withAttribute_of_ne (by decide)]
    rfl
  · rw [attr_withAttribute_of_ne (by decide), attr_withAttribute_of_ne (by decide)]
    exact attr_withAttribute rfl

/-- **The event that is built** has what the content of the receipt has. -/
theorem mirrors_of_receiptEvent (h : receiptEvent r agentIdDefault = .ok event) :
    Mirrors (withoutSig r.receipt) r.action r.signer agentIdDefault event := by
  rw [receiptEvent] at h
  obtain ⟨timestamp, htimestamp, h⟩ := bind_eq_ok.mp h
  obtain ⟨agentId, hagentId, h⟩ := bind_eq_ok.mp h
  obtain ⟨argumentsRef, hargumentsRef, h⟩ := bind_eq_ok.mp h
  obtain ⟨tool, htool, h⟩ := bind_eq_ok.mp h
  obtain ⟨a, ha, h⟩ := bind_eq_ok.mp h
  obtain rfl := pure_eq_ok.mp h
  have hitems := items_of_attributes ha
  rw [requiredStr_eq_ok] at hagentId
  -- the signature is no part of what the event mirrors
  refine ⟨fun hnamed => ?_, fun hunnamed => ?_, ?_, ?_, ?_, ?_, ?_, ?_⟩
  · rwa [orElse, if_pos hnamed] at hagentId
  · rw [orElse, if_neg (by simp [hunnamed]), Val.str.injEq] at hagentId
    exact hagentId.symm
  · have hfield := fieldIfTrue_eq_ok htool
    cases tool <;> exact hfield
  · have hfield := fieldIfTrue_eq_ok hargumentsRef
    cases argumentsRef <;> exact hfield
  · rw [attr_withoutSig (by decide)]
    exact htimestamp
  · rw [attr_withoutSig (by decide), hitems]
    exact (attr_receiptAttributes r).1
  · rw [hitems]
    exact (attr_receiptAttributes r).2.1
  · rw [attr_withoutSig (by decide), hitems]
    exact (attr_receiptAttributes r).2.2

/-- **Which receipts have an event.** -/
theorem exists_receiptEvent (hfloats : findsFloatItems (receiptAttributes r) = false) :
    (∃ event, receiptEvent r agentIdDefault = .ok event) ↔ Readable r := by
  constructor
  · rintro ⟨event, h⟩
    rw [receiptEvent] at h
    obtain ⟨timestamp, htimestamp, h⟩ := bind_eq_ok.mp h
    obtain ⟨agentId, hagentId, h⟩ := bind_eq_ok.mp h
    obtain ⟨argumentsRef, hargumentsRef, h⟩ := bind_eq_ok.mp h
    obtain ⟨tool, htool, -⟩ := bind_eq_ok.mp h
    exact ⟨exists_toRfc3339.mp ⟨timestamp, htimestamp⟩, exists_requiredStr_orElse.mp ⟨agentId, hagentId⟩,
      exists_fieldIfTrue.mp ⟨argumentsRef, hargumentsRef⟩, exists_fieldIfTrue.mp ⟨tool, htool⟩⟩
  · intro h
    obtain ⟨timestamp, htimestamp⟩ := exists_toRfc3339.mpr h.ts
    obtain ⟨argumentsRef, hargumentsRef⟩ := exists_fieldIfTrue.mpr h.paramsHash
    obtain ⟨tool, htool⟩ := exists_fieldIfTrue.mpr h.tool
    obtain ⟨a, ha⟩ := exists_attributes.mpr hfloats
    obtain ⟨agentId, hagentId⟩ :=
      (@exists_requiredStr_orElse _ (defaultAgent agentIdDefault)).mpr h.name
    exact ⟨_, bind_eq_ok.mpr ⟨timestamp, htimestamp, bind_eq_ok.mpr ⟨agentId, hagentId,
      bind_eq_ok.mpr ⟨argumentsRef, hargumentsRef, bind_eq_ok.mpr ⟨tool, htool,
        bind_eq_ok.mpr ⟨a, ha, rfl⟩⟩⟩⟩⟩⟩

/-- **On which receipts nothing else escapes**: a receipt gives an event that its signature vouches
for, or is refused as not verified, exactly if it is ingestible. -/
theorem verifiedOrRejected_iff (ed : Ed25519) (receipt : Val) (agentIdDefault : Option Str) :
    VerifiedOrRejected ed receipt agentIdDefault ↔ Ingestible ed receipt := by
  rw [VerifiedOrRejected, Ingestible]
  cases hopen : openReceipt receipt with
  | error msg =>
      -- refused before the signature is read: no `r` opens such a receipt, so it is ingestible
      refine iff_of_true (.inr ⟨msg, by rw [verifyAndNormalize, hopen]⟩) fun r hr => ?_
      rw [openReceipt_eq_ok.mpr hr] at hopen
      cases hopen
  | ok r =>
      have hopens := openReceipt_eq_ok.mp hopen
      have hunique : ∀ r', Opens receipt r' → r' = r := fun r' hr' =>
        Except.ok.inj ((openReceipt_eq_ok.mpr hr').symm.trans hopen)
      cases hdata : receiptSigningBytes r.receipt with
      | error e =>
          -- `canonical_bytes` is called outside any `try`: its error escapes
          have hnot : ¬Encodable (strip (.dict (withoutSig r.receipt))) := by
            rw [← exists_canonicalBytes_iff]
            rintro ⟨data, h⟩
            rw [receiptSigningBytes, h] at hdata
            cases hdata
          have hother : verifyAndNormalize ed receipt agentIdDefault = .error (.other e) := by
            simp only [verifyAndNormalize, hopen, hdata]
          rw [hother]
          refine iff_of_false ?_ fun h => hnot (h r hopens).1
          rintro (⟨event, r', data, h, -⟩ | ⟨msg, h⟩)
          · cases h
          · cases h
      | ok data =>
          have hencodable : Encodable (strip (.dict (withoutSig r.receipt))) :=
            exists_canonicalBytes_iff.mp ⟨data, hdata⟩
          have hfloats := noFloats_receiptAttributes hopens hencodable
          have hsame : ∀ data', canonicalBytes (.dict (withoutSig r.receipt)) = .ok data' →
              data' = data := fun data' h => Except.ok.inj (h.symm.trans hdata)
          by_cases hverify : ed r.pubRaw r.sig data = true
          · by_cases hts : attr r.receipt "ts" = .null
            -- signed, but without a time: refused by name
            · refine iff_of_true (.inr ⟨[.text (lit "receipt missing ts")], ?_⟩) fun r' hr' => ?_
              · simp only [verifyAndNormalize, hopen, hdata, hverify, hts, if_true]
              · obtain rfl := hunique r' hr'
                exact ⟨hencodable, fun _ _ _ hne => absurd hts hne⟩
            · cases hevent : receiptEvent r agentIdDefault with
              | ok event =>
                  have hok : verifyAndNormalize ed receipt agentIdDefault = .ok event := by
                    simp only [verifyAndNormalize, hopen, hdata, hverify, hts, hevent, if_true, if_false]
                  refine iff_of_true (.inl ⟨event, r, data, hok, hopens, ?_, ?_, hdata, hverify,
                    mirrors_of_receiptEvent hevent⟩) fun r' hr' => ?_
                  · rw [attr_withoutSig (by decide), hopens.action]
                  · rw [attr_withoutSig (by decide), hopens.signer]
                  · obtain rfl := hunique r' hr'
                    exact ⟨hencodable, fun _ _ _ _ => (exists_receiptEvent hfloats).mp ⟨event, hevent⟩⟩
              | error e =>
                  -- signed and timed, but no event can be built of it: the error of the model
                  -- escapes
                  have hother : verifyAndNormalize ed receipt agentIdDefault = .error (.other e) := by
                    simp only [verifyAndNormalize, hopen, hdata, hverify, hts, hevent, if_true, if_false]
                  rw [hother]
                  refine iff_of_false ?_ fun h => ?_
                  · rintro (⟨event, r', data, h, -⟩ | ⟨msg, h⟩)
                    · cases h
                    · cases h
                  · have hreadable := (h r hopens).2 data hdata hverify hts
                    obtain ⟨event, hok⟩ := (@exists_receiptEvent r agentIdDefault hfloats).mpr hreadable
                    rw [hevent] at hok
                    cases hok
          -- the signature does not verify, which refuses the receipt whatever else it holds
          · refine iff_of_true
              (.inr ⟨[.text (lit "receipt Ed25519 signature did not verify")], ?_⟩) fun r' hr' => ?_
            · simp only [verifyAndNormalize, hopen, hdata, hverify, if_false, Bool.false_eq_true]
            · obtain rfl := hunique r' hr'
              exact ⟨hencodable, fun data' hdata' hverify' =>
                absurd (hsame data' hdata' ▸ hverify') hverify⟩

end Receipt

/-- A receipt with a float among its arguments, and one zero byte for its signature and its key. -/
def floatReceipt : Val :=
  .dict [(lit "action", .dict [(lit "tool", .str (lit "pay")), (lit "amount", .float (.finite (3 / 2)))]),
    (lit "signer", .dict [(lit "pubkey", .str (lit "AA=="))]), (lit "sig", .str (lit "AA=="))]

/-- **A receipt that is neither verified nor rejected**: its canonical form is refused before the
signature is looked at. -/
theorem floatReceipt_escapes : ¬∀ (ed : Ed25519) (receipt : Val) (agentIdDefault : Option Str),
    Json.IsJson receipt → VerifiedOrRejected ed receipt agentIdDefault := by
  intro hclaim
  have hdouble : PyFloat.ofRat (3 / 2) = .finite (3 / 2) := by decide +kernel
  have hraises : verifyAndNormalize (fun _ _ _ => false) floatReceipt none
      = .error (.other (floatError (.finite (3 / 2)))) := rfl
  rcases hclaim (fun _ _ _ => false) floatReceipt none
    ⟨⟨trivial, hdouble, trivial⟩, ⟨trivial, trivial⟩, trivial, trivial⟩ with
      ⟨event, _, _, h, -⟩ | ⟨msg, h⟩
  · rw [hraises] at h
    cases h
  · rw [hraises] at h
    cases h

end OpenWright.Adapters
