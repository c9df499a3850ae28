import OpenWright.Go.Merkle
import OpenWright.Go.Records
import OpenWright.Merkle.Content
import OpenWright.Verify

/-! # Reports in Go

The verifier of reports written in Go: it decodes every event with the event model, rebuilds the root of
the tree from their leaves, and verifies the signature of the checkpoint over that root.

* **`verifyReportRoot_sound`** — what an accepted report discloses is the log its checkpoint commits to,
  event by event. -/

namespace OpenWright.Go

open Python Canonical Signing

/-! ## Bytes in text -/

/-- `hex.EncodeToString`. -/
def hexString (b : Bytes) : GoString := ofStr (hex b)

/-- `base64.StdEncoding.EncodeToString`. -/
def base64String (b : Bytes) : GoString := ofStr (b64encode b)

/-- The six bits of a character of the alphabet. -/
def sextet (a : UInt8) : Option Nat := base64Value (cp a.toNat)

/-- Decode groups of four characters. Only the last group may be padded, and the bits that padding cuts
off are not looked at. -/
def decodeQuanta : GoString → Option Bytes
  | [] => some []
  | a :: b :: c :: d :: s =>
    match sextet a, sextet b, sextet c, sextet d with
    | some w, some x, some y, some z =>
      (decodeQuanta s).map fun rest => UInt8.ofNat (w * 4 + x / 16) :: UInt8.ofNat (x % 16 * 16 + y / 4)
        :: UInt8.ofNat (y % 4 * 64 + z) :: rest
    | some w, some x, some y, none =>
      if d = 61 ∧ s = [] then
        some [UInt8.ofNat (w * 4 + x / 16), UInt8.ofNat (x % 16 * 16 + y / 4)]
      else none
    | some w, some x, none, none =>
      if c = 61 ∧ d = 61 ∧ s = [] then some [UInt8.ofNat (w * 4 + x / 16)] else none
    | _, _, _, _ => none
  | _ => none

/-- `base64.StdEncoding.DecodeString`, `none` for its `CorruptInputError`: line breaks are skipped. -/
def base64Decode (s : GoString) : Option Bytes := decodeQuanta (s.filter fun a => a ≠ 10 ∧ a ≠ 13)

/-- ASCII text, byte by byte. -/
theorem ofStr_ascii {s : Str} (h : ∀ c ∈ s, c.val < 128) :
    ofStr s = s.map fun c => UInt8.ofNat c.val := by
  induction s with
  | nil => rfl
  | cons c s ih =>
      rw [List.forall_mem_cons] at h
      have hscalar : Scalar s := fun d hd => Or.inl (by have := h.2 d hd; omega)
      rw [ofStr_digit h.1 hscalar, ih h.2, List.map_cons]

/-- Encoded bytes are characters of the alphabet, and padding. -/
theorem mem_b64encode {b : Bytes} {c : CodePoint} (h : c ∈ b64encode b) :
    c = cp 61 ∨ ∃ n < 64, c = base64Char n := by
  induction b using b64encode.induct with
  | case1 => exact absurd h List.not_mem_nil
  | case2 x =>
      have hx := x.toNat_lt
      simp only [b64encode, List.mem_cons, List.not_mem_nil, or_false] at h
      rcases h with rfl | rfl | rfl | rfl
      exacts [Or.inr ⟨_, by omega, rfl⟩, Or.inr ⟨_, by omega, rfl⟩, Or.inl rfl, Or.inl rfl]
  | case3 x y =>
      have hx := x.toNat_lt
      have hy := y.toNat_lt
      simp only [b64encode, List.mem_cons, List.not_mem_nil, or_false] at h
      rcases h with rfl | rfl | rfl | rfl
      exacts [Or.inr ⟨_, by omega, rfl⟩, Or.inr ⟨_, by omega, rfl⟩, Or.inr ⟨_, by omega, rfl⟩, Or.inl rfl]
  | case4 x y z s ih =>
      have hx := x.toNat_lt
      have hy := y.toNat_lt
      have hz := z.toNat_lt
      simp only [b64encode, List.mem_cons] at h
      rcases h with rfl | rfl | rfl | rfl | h
      exacts [Or.inr ⟨_, by omega, rfl⟩, Or.inr ⟨_, by omega, rfl⟩, Or.inr ⟨_, by omega, rfl⟩,
        Or.inr ⟨_, by omega, rfl⟩, ih h]

/-- A character of the alphabet is decoded to its bits, and is no line break. -/
theorem sextet_base64Char : ∀ n < 64, sextet (UInt8.ofNat (base64Char n).val) = some n ∧
    UInt8.ofNat (base64Char n).val ≠ 10 ∧ UInt8.ofNat (base64Char n).val ≠ 13 := by
  decide

/-- Encoded bytes have no line breaks. -/
theorem filter_base64String (b : Bytes) :
    (base64String b).filter (fun a => a ≠ 10 ∧ a ≠ 13) = base64String b := by
  rw [base64String, ofStr_ascii (b64encode_ascii b)]
  refine List.filter_eq_self.mpr fun a ha => decide_eq_true ?_
  obtain ⟨c, hc, rfl⟩ := List.mem_map.mp ha
  rcases mem_b64encode hc with rfl | ⟨n, hn, rfl⟩
  · decide
  · exact (sextet_base64Char n hn).2

/-- The groups of encoded bytes are decoded to them. -/
theorem decodeQuanta_base64 (b : Bytes) :
    decodeQuanta ((b64encode b).map fun c => UInt8.ofNat c.val) = some b := by
  -- a digit of the alphabet is read as its six bits, the padding as none
  have hbits : ∀ n < 64, sextet (UInt8.ofNat (base64Char n).val) = some n := fun n hn =>
    (sextet_base64Char n hn).1
  have hpad : sextet (UInt8.ofNat (cp 61).val) = none := rfl
  -- three bytes at a time, as they are encoded, and one or two at the end
  induction b using b64encode.induct with
  | case1 => rfl
  | case2 x =>
      have hx := x.toNat_lt
      simp only [b64encode, List.map_cons, List.map_nil]
      rw [decodeQuanta, hbits _ (by omega), hbits _ (by omega), hpad]
      dsimp only
      rw [if_pos (by decide),
        ofNat_eq (show x.toNat / 4 * 4 + x.toNat % 4 * 16 / 16 = x.toNat by omega)]
  | case3 x y =>
      have hx := x.toNat_lt
      have hy := y.toNat_lt
      simp only [b64encode, List.map_cons, List.map_nil]
      rw [decodeQuanta, hbits _ (by omega), hbits _ (by omega), hbits _ (by omega), hpad]
      dsimp only
      rw [if_pos (by decide),
        ofNat_eq (show x.toNat / 4 * 4 + (x.toNat % 4 * 16 + y.toNat / 16) / 16 = x.toNat by omega),
        ofNat_eq (show (x.toNat % 4 * 16 + y.toNat / 16) % 16 * 16 + y.toNat % 16 * 4 / 4 = y.toNat
          by omega)]
  | case4 x y z s ih =>
      have hx := x.toNat_lt
      have hy := y.toNat_lt
      have hz := z.toNat_lt
      simp only [b64encode, List.map_cons]
      rw [decodeQuanta, hbits _ (by omega), hbits _ (by omega), hbits _ (by omega), hbits _ (by omega)]
      dsimp only
      -- the four sextets put the three bytes together again
      rw [ih, Option.map_some,
        ofNat_eq (show x.toNat / 4 * 4 + (x.toNat % 4 * 16 + y.toNat / 16) / 16 = x.toNat by omega),
        ofNat_eq (show (x.toNat % 4 * 16 + y.toNat / 16) % 16 * 16
          + (y.toNat % 16 * 4 + z.toNat / 64) / 4 = y.toNat by omega),
        ofNat_eq (show (y.toNat % 16 * 4 + z.toNat / 64) % 4 * 64 + z.toNat % 64 = z.toNat by omega)]

/-- **Encoded bytes are decoded.** -/
theorem base64Decode_base64String (b : Bytes) : base64Decode (base64String b) = some b := by
  rw [base64Decode, filter_base64String, base64String, ofStr_ascii (b64encode_ascii b),
    decodeQuanta_base64]

/-! ## Numbers -/

/-- `strconv.ParseUint` in base 10, with `acc` read: it stops at the first value that does not fit. -/
def parseUint (acc : Nat) : GoString → Option Nat
  | [] => some acc
  | a :: s =>
    if 48 ≤ a.toNat ∧ a.toNat < 58 then
      if 10 * acc + (a.toNat - 48) < 2 ^ 64 then parseUint (10 * acc + (a.toNat - 48)) s
      else some (2 ^ 64 - 1)
    else none

/-- The value that `json.Number.Int64` returns along with its error: the nearest one where the number
does not fit, and 0 where there is no integer. -/
def numberInt64 (s : GoString) : Int :=
  match s with
  | [] => 0
  | a :: t =>
    let digits := if a = 43 ∨ a = 45 then t else s
    match digits, parseUint 0 digits with
    | [], _ | _, none => 0
    | _, some n => if a = 45 then max (-2 ^ 63) (-(n : Int)) else min (2 ^ 63 - 1) (n : Int)

/-- `int(x)` of a float: the integer part, and the lowest `int64` where that does not fit. -/
def floatToInt : PyFloat → Int
  | .finite q =>
    let z := if 0 ≤ q then ⌊q⌋ else ⌈q⌉
    if -2 ^ 63 ≤ z ∧ z < 2 ^ 63 then z else -2 ^ 63
  | _ => -2 ^ 63

/-- `toInt`. -/
def toInt : GoVal → Int
  | .int z => z
  | .int64 z => z
  | .float64 x => floatToInt x
  | .number s => numberInt64 s
  | _ => 0

/-- Reading digits makes a number larger. -/
theorem le_of_readDecimal {s : GoString} {acc n : Nat} (h : readDecimal acc s = some n) : acc ≤ n := by
  induction s generalizing acc with
  | nil => exact (Option.some.inj h).le
  | cons a s ih =>
      rw [readDecimal] at h
      split at h
      · have hle := ih h
        omega
      · cases h

/-- Reading digits as an unsigned integer that fits. -/
theorem parseUint_eq {s : GoString} {acc n : Nat} (h : readDecimal acc s = some n) (hn : n < 2 ^ 64) :
    parseUint acc s = some n := by
  induction s generalizing acc with
  | nil => exact h
  | cons a s ih =>
      rw [readDecimal] at h
      rw [parseUint]
      split at h
      · rename_i hdigit
        rw [if_pos hdigit, if_pos (lt_of_le_of_lt (le_of_readDecimal h) hn)]
        exact ih h
      · cases h

/-- **A literal that spells an integer of 64 bits is converted to it.** -/
theorem numberInt64_eq {s : GoString} {z : Int} (h : readInteger s = some z) (hz : inInt64 z) :
    numberInt64 s = z := by
  have hlow : -2 ^ 63 ≤ z := hz.1
  have hhigh : z < 2 ^ 63 := hz.2
  cases s with
  | nil => cases h
  | cons a t =>
      rw [readInteger] at h
      -- a minus is split off, and the rest is read as an unsigned number
      by_cases hminus : a = 45
      · rw [if_pos hminus] at h
        split at h
        · cases h
        · rename_i hne
          obtain ⟨n, hn, rfl⟩ := Option.map_eq_some_iff.mp h
          have hparse := parseUint_eq hn (by omega)
          rw [numberInt64, if_pos (Or.inr hminus), hparse]
          cases t with
          | nil => exact absurd rfl hne
          | cons b t =>
              dsimp only
              rw [if_pos hminus]
              omega
      · rw [if_neg hminus] at h
        obtain ⟨n, hn, rfl⟩ := Option.map_eq_some_iff.mp h
        have hparse := parseUint_eq hn (by omega)
        -- `strconv` also reads a plus, with which no integer is spelled in JSON
        have hplus : a ≠ 43 := by
          rintro rfl
          cases hn
        rw [numberInt64, if_neg (by simp [hminus, hplus]), hparse]
        dsimp only
        rw [if_neg hminus]
        omega

/-- An integer of 64 bits is read from its text. -/
theorem toInt_goVal {z : Int} (hz : inInt64 z) : toInt (goVal (.int z)) = z := by
  rw [goVal, toInt, numberInt64_eq (readInteger_intText z) hz]

/-! ## Reading a document -/

/-- `m[k]`, nil where the key is absent. -/
def valueAt (m : GoItems) (k : String) : GoVal := (m.lookup (goLit k)).getD .nil

/-- `v.(string)`, the empty string where the value is none. -/
def GoVal.text : GoVal → GoString
  | .string s => s
  | _ => []

/-! ## Writing and reading an event again -/

/-- Whether a byte is a decimal digit. -/
def isDigitByte (a : UInt8) : Bool := 48 ≤ a.toNat ∧ a.toNat < 58

/-- Skip a fraction: a point and at least one digit. -/
def skipFraction : GoString → GoString
  | a :: b :: s => if a = 46 ∧ isDigitByte b then s.dropWhile isDigitByte else a :: b :: s
  | s => s

/-- Skip an exponent; a sign that nothing follows makes the number invalid. -/
def skipExponent : GoString → Option GoString
  | a :: b :: s =>
    if a = 101 ∨ a = 69 then
      if b = 43 ∨ b = 45 then if s = [] then none else some (s.dropWhile isDigitByte)
      else some ((b :: s).dropWhile isDigitByte)
    else some (a :: b :: s)
  | s => some s

/-- `isValidNumber` after the sign. -/
def isValidUnsigned : GoString → Bool
  | [] => false
  | a :: s =>
    if a = 48 then skipExponent (skipFraction s) = some []
    else if isDigitByte a then skipExponent (skipFraction (s.dropWhile isDigitByte)) = some []
    else false

/-- `isValidNumber` of `encoding/json`. -/
def isValidNumber : GoString → Bool
  | 45 :: s => isValidUnsigned s
  | s => isValidUnsigned s

/-- A string with U+FFFD for every byte that is not UTF-8. -/
def validText (s : GoString) : GoString := (runes s).flatMap writeRune

section Documents

-- `strconv.FormatFloat`, which gives no number for NaN and the infinities
variable (formatFloat : PyFloat → Option GoString)

mutual
/-- The value that is read with `UseNumber` from what `json.Marshal` writes for a value, if it writes it:
the entries of a map are written in the order of their keys. A value of another type is not written. -/
def remarshal : GoVal → Option GoVal
  | .nil => some .nil
  | .bool b => some (.bool b)
  | .string s => some (.string (validText s))
  | .number s =>
    -- an empty `json.Number` is written as zero
    if s = [] then some (.number (goLit "0"))
    else if isValidNumber s then some (.number s) else none
  -- a float is written as text, and read back as that text
  | .float64 x => (formatFloat x).map .number
  | .int z => some (.number (ofStr (Json.intText z)))
  | .int64 z => some (.number (ofStr (Json.intText z)))
  | .slice vs => (remarshalSlice vs).map .slice
  | .map kvs => (remarshalEntries kvs).map fun kvs =>
      .map ((sortEntries kvs).map fun kv => (validText kv.1, kv.2))
  | .other _ => none

/-- `remarshal`, elementwise. -/
def remarshalSlice : List GoVal → Option (List GoVal)
  | [] => some []
  | v :: vs => (remarshal v).bind fun w => (remarshalSlice vs).map fun ws => w :: ws

/-- `remarshal`, entrywise. -/
def remarshalEntries : GoItems → Option GoItems
  | [] => some []
  | (k, v) :: kvs => (remarshal v).bind fun w => (remarshalEntries kvs).map fun ws => (k, w) :: ws
end

/-- The errors of `eventFromMap`. -/
inductive EventErr
  | marshal
  | unmarshal (err : DecodeErr)

/-- `eventFromMap`: a value that is no map is a nil map, which is written as null. -/
def eventFromMap (v : GoVal) : Except EventErr Event :=
  match v with
  | .map m =>
    match remarshal formatFloat (.map m) with
    | some doc => (Event.unmarshalJson doc).mapError .unmarshal
    | none => .error .marshal
  | _ => (Event.unmarshalJson .nil).mapError .unmarshal

/-! ## Checkpoints -/

/-- `CheckpointSigningBytes`. -/
def checkpointSigningBytes (origin : GoString) (treeSize : Int) (rootHex timestamp : GoString) :
    Except EncodeErr Bytes :=
  canonicalBytes (.map [(goLit "origin", .string origin), (goLit "root_hash", .string rootHex),
    (goLit "timestamp", .string timestamp), (goLit "tree_size", .int treeSize)])

/-- `VerifyCheckpoint`. -/
def verifyCheckpoint (ed : Ed25519) (pub : Bytes) (origin : GoString) (treeSize : Int)
    (rootHex timestamp : GoString) (sig : Bytes) : Bool :=
  match checkpointSigningBytes origin treeSize rootHex timestamp with
  | .ok data => ed pub sig data
  | .error _ => false

/-! ## The verifier -/

/-- What `VerifyReportRoot` gives with `false`, or that it panics. -/
inductive RootErr
  /-- `no checkpoint`. -/
  | noCheckpoint
  /-- `bad public_key_pem: ...`. -/
  | badPublicKeyPem (err : GoString)
  /-- `no events`. -/
  | noEvents
  /-- `bad event entry`. -/
  | badEventEntry
  /-- `event decode: ...`. -/
  | eventDecode (err : EventErr)
  /-- `leaf hash: ...`. -/
  | leafHash (err : LeafErr)
  /-- `makeslice: len out of range`, a panic. -/
  | negativeSize
  /-- `missing leaf at index ...`. -/
  | missingLeaf (i : Nat)
  /-- `root mismatch: recomputed=... checkpoint=...`. -/
  | rootMismatch (recomputed checkpoint : GoString)
  /-- `bad checkpoint signature b64`. -/
  | badSignatureText
  /-- `checkpoint signature failed`. -/
  | signatureFailed

/-- The body of the loop over the entries. -/
def addLeaf (leavesByIndex : List (Int × Bytes)) (re : GoVal) : Except RootErr (List (Int × Bytes)) :=
  match re with
  | .map item => do
    let ev ← (eventFromMap formatFloat (valueAt item "event")).mapError .eventDecode
    let lh ← ev.leafHash.mapError .leafHash
    return Verify.setLeaf (toInt (valueAt item "leaf_index")) lh leavesByIndex
  | _ => .error .badEventEntry

/-- The leaf of an index, from the map of leaves. -/
def leafAt (leavesByIndex : List (Int × Bytes)) (i : Nat) : Except RootErr Bytes :=
  match leavesByIndex.lookup (i : Int) with
  | some lh => .ok lh
  | none => .error (.missingLeaf i)

/-- `VerifyReportRoot`. -/
def verifyReportRoot (ed : Ed25519) (publicKeyRawFromPEM : GoString → Except GoString Bytes)
    (report : GoItems) : Except RootErr Unit :=
  match valueAt report "checkpoint" with
  | .map cp => do
    let rootHex := (valueAt cp "root_hash").text
    -- a size that is no number counts as zero
    let treeSize := toInt (valueAt cp "tree_size")
    let pubRaw ← (publicKeyRawFromPEM (valueAt report "public_key_pem").text).mapError .badPublicKeyPem
    match valueAt report "events" with
    | .slice rawEvents => do
      let leavesByIndex ← rawEvents.foldlM (addLeaf formatFloat) []
      if treeSize < 0 then .error .negativeSize
      else do
        -- each index up to the size must have a leaf
        let leaves ← (List.range treeSize.toNat).mapM (leafAt leavesByIndex)
        let recomputed := hexString (treeHash leaves)
        if recomputed ≠ rootHex then .error (.rootMismatch recomputed rootHex)
        else
          match base64Decode (valueAt cp "signature").text with
          | none => .error .badSignatureText
          | some cpSig =>
            if verifyCheckpoint ed pubRaw (valueAt cp "origin").text treeSize rootHex
              (valueAt cp "timestamp").text cpSig then .ok ()
            else .error .signatureFailed
    | _ => .error .noEvents
  | _ => .error .noCheckpoint

/-! ## What acceptance rests on -/

variable {formatFloat} {ed : Ed25519} {publicKeyRawFromPEM : GoString → Except GoString Bytes}
  {report : GoItems}

/-- Setting the leaf of one index. -/
theorem lookup_setLeaf (i j : Int) (leaf : Bytes) (l : List (Int × Bytes)) :
    (Verify.setLeaf i leaf l).lookup j = if j = i then some leaf else l.lookup j := by
  induction l with
  | nil =>
      rw [Verify.setLeaf, List.lookup_cons]
      by_cases hji : j = i
      · rw [hji, beq_self_eq_true, if_pos rfl]
      · rw [beq_false_of_ne hji, if_neg hji]
  | cons p l ih =>
      obtain ⟨k, other⟩ := p
      rw [Verify.setLeaf]
      by_cases hki : k = i
      · rw [if_pos hki, List.lookup_cons, List.lookup_cons, hki]
        by_cases hji : j = i
        · rw [hji, beq_self_eq_true, if_pos rfl]
        · rw [beq_false_of_ne hji, if_neg hji]
      · rw [if_neg hki, List.lookup_cons, List.lookup_cons, ih]
        by_cases hjk : j = k
        · simp only [hjk, beq_self_eq_true, if_neg hki]
        · rw [beq_false_of_ne hjk]

/-- An event of the report, with the bytes that its leaf is hashed from. -/
def EventOf (formatFloat : PyFloat → Option GoString) (item : GoItems) (ev : Event) (data : Bytes) :
    Prop :=
  eventFromMap formatFloat (valueAt item "event") = .ok ev ∧ ev.canonicalBytes = .ok data

/-- Naming the error of a computation keeps its result. -/
theorem mapError_eq_ok {ε ε' α : Type} {f : ε → ε'} {x : Except ε α} {a : α} :
    x.mapError f = .ok a ↔ x = .ok a := by
  cases x with
  | error err => simp [Except.mapError]
  | ok b => simp [Except.mapError]

/-- The leaf of an event is the hash of its bytes. -/
theorem leafHash_eq_ok {ev : Event} {lh : Bytes} :
    ev.leafHash = .ok lh ↔ ∃ data, ev.canonicalBytes = .ok data ∧ lh = Merkle.leafHash data := by
  rw [Event.leafHash, bind_eq_ok]
  exact exists_congr fun data => and_congr_right fun _ => pure_eq_ok.trans eq_comm

/-- What an iteration over the entries does. -/
theorem addLeaf_eq_ok {acc out : List (Int × Bytes)} {re : GoVal} :
    addLeaf formatFloat acc re = .ok out ↔ ∃ item ev data, re = .map item ∧
      EventOf formatFloat item ev data ∧
      out = Verify.setLeaf (toInt (valueAt item "leaf_index")) (Merkle.leafHash data) acc := by
  constructor
  · intro h
    cases re with
    | map item =>
        obtain ⟨ev, hev, h⟩ := bind_eq_ok.mp h
        obtain ⟨lh, hlh, h⟩ := bind_eq_ok.mp h
        obtain ⟨data, hdata, rfl⟩ := leafHash_eq_ok.mp (mapError_eq_ok.mp hlh)
        exact ⟨item, ev, data, rfl, ⟨mapError_eq_ok.mp hev, hdata⟩, (pure_eq_ok.mp h).symm⟩
    | _ => cases h
  · rintro ⟨item, ev, data, rfl, ⟨hev, hdata⟩, rfl⟩
    exact bind_eq_ok.mpr ⟨ev, mapError_eq_ok.mpr hev, bind_eq_ok.mpr
      ⟨_, mapError_eq_ok.mpr (leafHash_eq_ok.mpr ⟨data, hdata, rfl⟩), rfl⟩⟩

/-- The entry that counts for an index: the last one with it. -/
def EntryAt (rawEvents : List GoVal) (i : Int) (item : GoItems) : Prop :=
  ∃ before after, rawEvents = before ++ .map item :: after ∧ toInt (valueAt item "leaf_index") = i ∧
    ∀ item', GoVal.map item' ∈ after → toInt (valueAt item' "leaf_index") ≠ i

/-- **The loop keeps the leaf of the last entry of each index.** -/
theorem lookup_foldlM_addLeaf {rawEvents : List GoVal} {acc out : List (Int × Bytes)}
    (h : rawEvents.foldlM (addLeaf formatFloat) acc = .ok out) {i : Int} {lh : Bytes}
    (hlh : out.lookup i = some lh) :
    (∃ item ev data, EntryAt rawEvents i item ∧ EventOf formatFloat item ev data ∧
        lh = Merkle.leafHash data) ∨
      acc.lookup i = some lh ∧
        ∀ item, GoVal.map item ∈ rawEvents → toInt (valueAt item "leaf_index") ≠ i := by
  induction rawEvents generalizing acc with
  | nil =>
      obtain rfl := pure_eq_ok.mp h
      exact Or.inr ⟨hlh, fun _ hmem => absurd hmem List.not_mem_nil⟩
  | cons re rest ih =>
      rw [List.foldlM_cons] at h
      obtain ⟨mid, hmid, h⟩ := bind_eq_ok.mp h
      obtain ⟨item, ev, data, rfl, hev, rfl⟩ := addLeaf_eq_ok.mp hmid
      rcases ih h with ⟨item', ev', data', ⟨before, after, rfl, hindex, hlast⟩, hev', hleaf⟩ |
        ⟨hmid, hlast⟩
      · -- a later entry counts
        exact Or.inl ⟨item', ev', data', ⟨.map item :: before, after, rfl, hindex, hlast⟩, hev', hleaf⟩
      · rw [lookup_setLeaf] at hmid
        by_cases hi : i = toInt (valueAt item "leaf_index")
        · -- this one does
          rw [if_pos hi, Option.some.injEq] at hmid
          exact Or.inl ⟨item, ev, data, ⟨[], rest, rfl, hi.symm, hlast⟩, hev, hmid.symm⟩
        · rw [if_neg hi] at hmid
          refine Or.inr ⟨hmid, fun item' hmem => ?_⟩
          rcases List.mem_cons.mp hmem with heq | hmem
          · obtain rfl := GoVal.map.inj heq
            exact Ne.symm hi
          · exact hlast item' hmem

/-- The parts of a report that is accepted. -/
theorem verifyReportRoot_eq_ok :
    verifyReportRoot formatFloat ed publicKeyRawFromPEM report = .ok () ↔
      ∃ cp rawEvents pubRaw leavesByIndex leaves cpSig data, valueAt report "checkpoint" = .map cp ∧
        valueAt report "events" = .slice rawEvents ∧
        publicKeyRawFromPEM (valueAt report "public_key_pem").text = .ok pubRaw ∧
        rawEvents.foldlM (addLeaf formatFloat) [] = .ok leavesByIndex ∧
        0 ≤ toInt (valueAt cp "tree_size") ∧
        (List.range (toInt (valueAt cp "tree_size")).toNat).mapM (leafAt leavesByIndex) = .ok leaves ∧
        hexString (treeHash leaves) = (valueAt cp "root_hash").text ∧
        base64Decode (valueAt cp "signature").text = some cpSig ∧
        checkpointSigningBytes (valueAt cp "origin").text (toInt (valueAt cp "tree_size"))
          (valueAt cp "root_hash").text (valueAt cp "timestamp").text = .ok data ∧
        ed pubRaw cpSig data = true := by
  constructor
  · intro h
    rw [verifyReportRoot] at h
    cases hcp : valueAt report "checkpoint" with
    | map cp =>
        rw [hcp] at h
        obtain ⟨pubRaw, hpem, h⟩ := bind_eq_ok.mp h
        cases hevents : valueAt report "events" with
        | slice rawEvents =>
            rw [hevents] at h
            obtain ⟨leavesByIndex, hloop, h⟩ := bind_eq_ok.mp h
            -- the size is tested before it is used as a length
            by_cases hsize : toInt (valueAt cp "tree_size") < 0
            · rw [if_pos hsize] at h
              cases h
            rw [if_neg hsize] at h
            obtain ⟨leaves, hleaves, h⟩ := bind_eq_ok.mp h
            by_cases hroot : hexString (treeHash leaves) = (valueAt cp "root_hash").text
            · rw [if_neg (not_not_intro hroot)] at h
              cases hsig : base64Decode (valueAt cp "signature").text with
              | none =>
                  rw [hsig] at h
                  cases h
              | some cpSig =>
                  rw [hsig] at h
                  dsimp only at h
                  rw [verifyCheckpoint] at h
                  cases hdata : checkpointSigningBytes (valueAt cp "origin").text
                      (toInt (valueAt cp "tree_size")) (valueAt cp "root_hash").text
                      (valueAt cp "timestamp").text with
                  | error err =>
                      rw [hdata] at h
                      cases h
                  | ok data =>
                      rw [hdata] at h
                      by_cases hed : ed pubRaw cpSig data = true
                      · exact ⟨cp, rawEvents, pubRaw, leavesByIndex, leaves, cpSig, data, rfl, rfl,
                          mapError_eq_ok.mp hpem, hloop, by omega, hleaves, hroot, hsig, hdata, hed⟩
                      · rw [if_neg hed] at h
                        cases h
            · rw [if_pos hroot] at h
              cases h
        -- `events` is no array
        | _ =>
            rw [hevents] at h
            cases h
    -- `checkpoint` is no object
    | _ =>
        rw [hcp] at h
        cases h
  · rintro ⟨cp, rawEvents, pubRaw, leavesByIndex, leaves, cpSig, data, hcp, hevents, hpem, hloop, hsize,
      hleaves, hroot, hsig, hdata, hed⟩
    rw [verifyReportRoot, hcp]
    refine bind_eq_ok.mpr ⟨pubRaw, mapError_eq_ok.mpr hpem, ?_⟩
    rw [hevents]
    refine bind_eq_ok.mpr ⟨leavesByIndex, hloop, ?_⟩
    rw [if_neg (by omega)]
    refine bind_eq_ok.mpr ⟨leaves, hleaves, ?_⟩
    rw [if_neg (not_not_intro hroot), hsig]
    dsimp only
    rw [verifyCheckpoint, hdata]
    exact if_pos hed

/-! ## Soundness -/

/-- Hexadecimal text tells which bytes it is of. -/
theorem hexString_injective {a b : Bytes} (h : hexString a = hexString b) : a = b := by
  have hhex : hex a = hex b := ofStr_injective (scalar_hex a) (scalar_hex b) h
  have hread := congrArg fromhex hhex
  rwa [fromhex_hex, fromhex_hex, Option.some.injEq] at hread

/-- Where each element of a list is an image, the list is. -/
theorem exists_map_of_forall₂ {α β γ : Type} {P : α → γ → Prop} {f : γ → β} {as : List α} {bs : List β}
    (h : List.Forall₂ (fun a b => ∃ c, P a c ∧ b = f c) as bs) :
    ∃ cs, List.Forall₂ P as cs ∧ bs = cs.map f := by
  induction h with
  | nil => exact ⟨[], .nil, rfl⟩
  | cons hab _ ih =>
      obtain ⟨c, hc, rfl⟩ := hab
      obtain ⟨cs, hcs, rfl⟩ := ih
      exact ⟨c :: cs, .cons hc hcs, rfl⟩

/-- The leaves that are hashed into the root are those of the events that count. -/
theorem exists_contents {rawEvents : List GoVal} {leavesByIndex : List (Int × Bytes)} {n : Nat}
    {leaves : List Bytes} (hloop : rawEvents.foldlM (addLeaf formatFloat) [] = .ok leavesByIndex)
    (hleaves : (List.range n).mapM (leafAt leavesByIndex) = .ok leaves) :
    ∃ C, List.Forall₂ (fun i data => ∃ item ev, EntryAt rawEvents (i : Nat) item ∧
        EventOf formatFloat item ev data) (List.range n) C ∧ leaves = C.map Merkle.leafHash := by
  refine exists_map_of_forall₂ ((mapM_eq_ok.mp hleaves).imp fun i lh hlh => ?_)
  rw [leafAt] at hlh
  split at hlh
  · rename_i lh' hlookup
    obtain rfl := Except.ok.inj hlh
    rcases lookup_foldlM_addLeaf hloop hlookup with ⟨item, ev, data, hitem, hev, hleaf⟩ | ⟨hnone, -⟩
    · exact ⟨data, ⟨item, ev, hitem, hev⟩, hleaf⟩
    · cases hnone
  · cases hlh

/-- The bytes that the leaf of an entry is hashed from. -/
def entryContent (formatFloat : PyFloat → Option GoString) : GoVal → Option Bytes
  | .map item =>
    match eventFromMap formatFloat (valueAt item "event") with
    | .ok ev => ev.canonicalBytes.toOption
    | .error _ => none
  | _ => none

/-- An entry of which the bytes are known. -/
theorem addLeaf_of_entryContent {item : GoItems} {data : Bytes}
    (h : entryContent formatFloat (.map item) = some data) (acc : List (Int × Bytes)) :
    addLeaf formatFloat acc (.map item)
      = .ok (Verify.setLeaf (toInt (valueAt item "leaf_index")) (Merkle.leafHash data) acc) := by
  rw [entryContent] at h
  split at h
  · rename_i ev hev
    exact addLeaf_eq_ok.mpr ⟨item, ev, data, rfl, ⟨hev, eq_ok_of_toOption h⟩, rfl⟩
  · cases h

/-- The strings that the verifier hashes: for the leaf of each entry, and for the root. -/
def hashedByReport (formatFloat : PyFloat → Option GoString) (report : GoItems) : List Bytes :=
  match valueAt report "events", valueAt report "checkpoint" with
  | .slice rawEvents, .map cp =>
    rawEvents.filterMap (fun re => (entryContent formatFloat re).map (Merkle.leafPrefix ++ ·)) ++
      match rawEvents.foldlM (addLeaf formatFloat) [] with
      | .ok leavesByIndex =>
        match (List.range (toInt (valueAt cp "tree_size")).toNat).mapM (leafAt leavesByIndex) with
        | .ok leaves => Merkle.hashedByTreeHash leaves
        | .error _ => []
      | .error _ => []
  | _, _ => []

/-- **What an accepted report discloses.** Let a log have the contents `D`, and let the checkpoint of a
report carry its root. If the report is accepted, then the checkpoint is signed with the embedded key
for the size of the log, and for every index of the log the last entry with this index decodes to an
event whose canonical bytes are the content of the log there. -/
theorem verifyReportRoot_sound (formatFloat : PyFloat → Option GoString) (ed : Ed25519)
    (publicKeyRawFromPEM : GoString → Except GoString Bytes) (D : List Bytes) (report cp : GoItems)
    (hcp : valueAt report "checkpoint" = .map cp)
    (hroot : (valueAt cp "root_hash").text = hexString (Merkle.contentRoot D))
    (h : verifyReportRoot formatFloat ed publicKeyRawFromPEM report = .ok ())
    (hS : Hash.CollisionFree (Verify.hashedByLog D ++ hashedByReport formatFloat report)) :
    ∃ rawEvents pubRaw cpSig data, valueAt report "events" = .slice rawEvents ∧
      publicKeyRawFromPEM (valueAt report "public_key_pem").text = .ok pubRaw ∧
      base64Decode (valueAt cp "signature").text = some cpSig ∧
      checkpointSigningBytes (valueAt cp "origin").text D.length (hexString (Merkle.contentRoot D))
        (valueAt cp "timestamp").text = .ok data ∧ ed pubRaw cpSig data = true ∧
      toInt (valueAt cp "tree_size") = D.length ∧
      ∀ i content, D[i]? = some content → ∃ item ev, EntryAt rawEvents (i : Nat) item ∧
        eventFromMap formatFloat (valueAt item "event") = .ok ev ∧ ev.canonicalBytes = .ok content := by
  obtain ⟨cp', rawEvents, pubRaw, leavesByIndex, leaves, cpSig, data, hcp', hevents, hpem, hloop, hsize,
    hleaves, hroot', hsig, hdata, hed⟩ := verifyReportRoot_eq_ok.mp h
  obtain rfl := GoVal.map.inj (hcp.symm.trans hcp')
  obtain ⟨C, hC, rfl⟩ := exists_contents hloop hleaves
  -- one root, one list of contents
  have hsame : Merkle.contentRoot C = Merkle.contentRoot D := by
    rw [hroot] at hroot'
    rw [Merkle.contentRoot, ← treeHash_eq]
    exact hexString_injective hroot'
  have hwithin : Merkle.Within (Verify.hashedByLog D ++ hashedByReport formatFloat report) C := by
    intro s hs
    refine List.mem_append_right _ ?_
    rw [hashedByReport, hevents, hcp]
    dsimp only
    rw [hloop]
    dsimp only
    rw [hleaves]
    rcases List.mem_append.mp hs with hs | hs
    · obtain ⟨content, hcontent, rfl⟩ := List.mem_map.mp hs
      obtain ⟨i, -, item, ev, ⟨before, after, rfl, -, -⟩, hev, hbytes⟩ :=
        exists_right_of_mem hC.flip hcontent
      refine List.mem_append_left _ (List.mem_filterMap.mpr ⟨.map item, by simp, ?_⟩)
      rw [entryContent, hev]
      dsimp only
      rw [hbytes]
      rfl
    · exact List.mem_append_right _ hs
  obtain rfl := Merkle.contentRoot_injective hS hwithin (fun s hs => List.mem_append_left _ hs) hsame
  have hlen : toInt (valueAt cp "tree_size") = C.length := by
    have hlength := hC.length_eq
    rw [List.length_range] at hlength
    omega
  rw [hlen, hroot] at hdata
  refine ⟨rawEvents, pubRaw, cpSig, data, hevents, hpem, hsig, hdata, hed, hlen, fun i content hi => ?_⟩
  obtain ⟨hlt, rfl⟩ := List.getElem?_eq_some_iff.mp hi
  have hentry := (List.forall₂_iff_get.mp hC).2 i (by rwa [hC.length_eq]) hlt
  simp only [List.get_eq_getElem, List.getElem_range] at hentry
  exact hentry

/-! ## A report on two events -/

/-- The document of an event, with an entry that is none of its fields. -/
def sampleDoc (id timestamp : String) : GoItems :=
  [(goLit "event_id", .string (goLit id)), (goLit "schema_version", .string (goLit "1.0.0")),
    (goLit "timestamp", .string (goLit timestamp)), (goLit "kind", .string (goLit "agent_decision")),
    (goLit "actor", .map [(goLit "agent_id", .string (goLit "agent-1"))]),
    (goLit "attributes", .map [(goLit "score", .number (goLit "7"))]),
    (goLit "source", .map [(goLit "format", .string (goLit "sdk"))]),
    (goLit "session", .string (goLit "s-1"))]

/-- The bytes of its event. -/
def sampleContent (id timestamp : String) : Bytes :=
  goLit "\x7b\"actor\":\x7b\"agent_id\":\"agent-1\"\x7d,\"attributes\":\x7b\"score\":7\x7d,\"event_id\":\""
    ++ goLit id ++ goLit "\",\"kind\":\"agent_decision\",\"labels\":\x7b\x7d,\"provenance\":\x7b\x7d,"
    ++ goLit "\"schema_version\":\"1.0.0\",\"session\":\"s-1\",\"source\":\x7b\"format\":\"sdk\"\x7d,"
    ++ goLit "\"timestamp\":\"" ++ goLit timestamp ++ goLit "\"\x7d"

/-- A log of two events. -/
def sampleContents : List Bytes :=
  [sampleContent "e1" "2026-01-01T00:00:00Z", sampleContent "e2" "2026-01-02T00:00:00Z"]

/-- The leaves of the log. -/
def sampleLeaves : List Bytes :=
  [[39, 241, 216, 72, 38, 202, 26, 206, 38, 221, 14, 47, 240, 211, 182, 229, 157, 21, 192, 180, 41, 12,
    126, 197, 155, 27, 240, 217, 219, 125, 123, 75],
   [2, 242, 47, 192, 162, 201, 35, 172, 7, 111, 10, 72, 32, 180, 137, 246, 97, 192, 144, 21, 154, 244,
    67, 31, 5, 124, 35, 188, 214, 149, 136, 90]]

/-- Its root. -/
def sampleRoot : Bytes :=
  [172, 63, 156, 174, 72, 119, 83, 171, 116, 238, 41, 26, 140, 53, 232, 194, 154, 160, 130, 182, 15, 184,
   41, 141, 33, 49, 18, 177, 78, 159, 208, 40]

/-- The producer's signature of the checkpoint. -/
def sampleCheckpointSig : Bytes :=
  [226, 103, 52, 81, 98, 253, 10, 62, 201, 35, 140, 216, 43, 133, 27, 117, 158, 135, 65, 227, 29,
   124, 50, 65, 152, 105, 122, 199, 194, 210, 233, 148, 36, 38, 8, 183, 61, 195, 97, 70, 126, 33,
   197, 67, 207, 154, 255, 138, 114, 176, 17, 157, 102, 252, 165, 168, 67, 140, 51, 230, 189, 31,
   111, 1]

/-- The checkpoint of the log. -/
def sampleCheckpoint : GoItems :=
  [(goLit "origin", .string (goLit "openwright")), (goLit "tree_size", .number (goLit "2")),
    (goLit "root_hash", .string (hexString sampleRoot)),
    (goLit "timestamp", .string (goLit "2026-01-03T00:00:00Z")),
    (goLit "public_key_id", .string (ofStr (keyIdFor sampleKey))),
    (goLit "signature", .string (base64String sampleCheckpointSig))]

/-- What the checkpoint is signed over. -/
def sampleSigned : Bytes :=
  (checkpointSigningBytes (goLit "openwright") 2 (hexString sampleRoot)
    (goLit "2026-01-03T00:00:00Z")).toOption.getD []

/-- The PEM text of the producer's key. -/
def publicKeyText : GoString :=
  goLit "-----BEGIN PUBLIC KEY-----\n"
    ++ base64String ([48, 42, 48, 5, 6, 3, 43, 101, 112, 3, 33, 0] ++ sampleKey)
    ++ goLit "\n-----END PUBLIC KEY-----\n"

/-- It is read back. -/
def publicKeyOfText (text : GoString) : Except GoString Bytes :=
  if text = publicKeyText then .ok sampleKey else .error (goLit "no PEM block found")

/-- The entry of a document. -/
def sampleEntry (doc : GoItems) (index : String) : GoVal :=
  .map [(goLit "event", .map doc), (goLit "leaf_index", .number (goLit index))]

/-- The entries of a report: the event of the first one is not in the log, and a later one has its
index. -/
def sampleEntries : List GoVal :=
  [sampleEntry (sampleDoc "e0" "2025-12-31T00:00:00Z") "0",
    sampleEntry (sampleDoc "e2" "2026-01-02T00:00:00Z") "1",
    sampleEntry (sampleDoc "e1" "2026-01-01T00:00:00Z") "0"]

/-- The report. -/
def sampleReport : GoItems :=
  [(goLit "checkpoint", .map sampleCheckpoint), (goLit "events", .slice sampleEntries),
    (goLit "public_key_pem", .string publicKeyText)]

/-- The entries are decoded to the events that were written. -/
theorem entryContent_sampleEntries : sampleEntries.map (entryContent fun _ => none)
    = [some (sampleContent "e0" "2025-12-31T00:00:00Z"), some (sampleContent "e2" "2026-01-02T00:00:00Z"),
      some (sampleContent "e1" "2026-01-01T00:00:00Z")] := by
  decide +kernel

/-- The leaves are those of the log. -/
theorem leafHash_sampleContents : sampleContents.map Merkle.leafHash = sampleLeaves := by
  decide +kernel

/-- The root is that of the log. -/
theorem contentRoot_sampleContents : Merkle.contentRoot sampleContents = sampleRoot := by
  rw [Merkle.contentRoot, leafHash_sampleContents]
  decide +kernel

/-- Go computes the same root. -/
theorem treeHash_sampleLeaves : treeHash sampleLeaves = sampleRoot := by
  rw [treeHash_eq, ← leafHash_sampleContents]
  exact contentRoot_sampleContents

/-- The entries give the leaves of the log. -/
theorem foldlM_addLeaf_sample : sampleEntries.foldlM (addLeaf fun _ => none) []
    = .ok [(0, sampleLeaves[0]!), (1, sampleLeaves[1]!)] := by
  obtain ⟨hother, hsecond, hfirst, -⟩ : _ ∧ _ ∧ _ ∧ True := by
    simpa only [sampleEntries, List.map_cons, List.map_nil, List.cons.injEq, and_true] using
      entryContent_sampleEntries
  have hleaves := leafHash_sampleContents
  simp only [sampleContents, sampleLeaves, List.map_cons, List.map_nil, List.cons.injEq,
    and_true] at hleaves
  rw [sampleEntries, List.foldlM_cons]
  refine bind_eq_ok.mpr ⟨_, addLeaf_of_entryContent hother [], ?_⟩
  rw [List.foldlM_cons]
  refine bind_eq_ok.mpr ⟨_, addLeaf_of_entryContent hsecond _, ?_⟩
  rw [List.foldlM_cons]
  refine bind_eq_ok.mpr ⟨_, addLeaf_of_entryContent hfirst _, ?_⟩
  rw [hleaves.1, hleaves.2]
  rfl

/-- The checkpoint can be signed. -/
theorem checkpointSigningBytes_sample : checkpointSigningBytes (goLit "openwright") 2
    (hexString sampleRoot) (goLit "2026-01-03T00:00:00Z") = .ok sampleSigned := by
  have hsome : (checkpointSigningBytes (goLit "openwright") 2 (hexString sampleRoot)
      (goLit "2026-01-03T00:00:00Z")).toOption = some sampleSigned := by decide +kernel
  exact eq_ok_of_toOption hsome

/-- The report is accepted. -/
theorem verifyReportRoot_sample :
    verifyReportRoot (fun _ => none) (madeBy sampleKey [(sampleSigned, sampleCheckpointSig)])
      publicKeyOfText sampleReport = .ok () := by
  refine verifyReportRoot_eq_ok.mpr ⟨sampleCheckpoint, sampleEntries, sampleKey, _, sampleLeaves,
    sampleCheckpointSig, sampleSigned, rfl, rfl, rfl, foldlM_addLeaf_sample, by decide, rfl, ?_,
    base64Decode_base64String _, checkpointSigningBytes_sample, ?_⟩
  · rw [treeHash_sampleLeaves]
    rfl
  · exact decide_eq_true ⟨rfl, List.mem_singleton_self _⟩

/-- What the log and the verifier hash. -/
def sampleHashed : List Bytes :=
  (sampleContents ++ [sampleContent "e0" "2025-12-31T00:00:00Z"]).map (Merkle.leafPrefix ++ ·)
    ++ [Merkle.nodePrefix ++ sampleLeaves[0]! ++ sampleLeaves[1]!]

/-- It does not collide. -/
theorem collisionFree_sampleHashed : Hash.CollisionFree sampleHashed :=
  @Hash.collisionFree_of_digests _ _ [[39, 241], [2, 242], [109, 26], [172, 63]] (fun _ hs => hs)
    (by decide +kernel) (by decide)

/-- Of the report. -/
theorem mem_sampleHashed : ∀ s ∈ hashedByReport (fun _ => none) sampleReport, s ∈ sampleHashed := by
  have hleaves : sampleEntries.filterMap (fun re => (entryContent (fun _ => none) re).map
      (Merkle.leafPrefix ++ ·)) = (sampleEntries.map (entryContent fun _ => none)).filterMap
        (Option.map (Merkle.leafPrefix ++ ·)) := by
    rw [List.filterMap_map]
    rfl
  rw [hashedByReport, show valueAt sampleReport "events" = .slice sampleEntries from rfl,
    show valueAt sampleReport "checkpoint" = .map sampleCheckpoint from rfl]
  dsimp only
  rw [hleaves, entryContent_sampleEntries, foldlM_addLeaf_sample]
  decide +kernel

/-- **The report discloses the log**: for each of its events, the last entry with its index. The first
entry, whose index comes again, is that of another event. -/
theorem verifyReportRoot_sound_sample :
    verifyReportRoot (fun _ => none) (madeBy sampleKey [(sampleSigned, sampleCheckpointSig)])
        publicKeyOfText sampleReport = .ok () ∧
      (∃ content ∉ sampleContents, sampleEntries.head?.bind (entryContent fun _ => none) = some content) ∧
      (∃ cpSig data, base64Decode (valueAt sampleCheckpoint "signature").text = some cpSig ∧
        checkpointSigningBytes (goLit "openwright") 2 (hexString sampleRoot)
          (goLit "2026-01-03T00:00:00Z") = .ok data ∧
        madeBy sampleKey [(sampleSigned, sampleCheckpointSig)] sampleKey cpSig data = true) ∧
      ∀ i content, sampleContents[i]? = some content → ∃ item ev, EntryAt sampleEntries (i : Nat) item ∧
        eventFromMap (fun _ => none) (valueAt item "event") = .ok ev ∧
          ev.canonicalBytes = .ok content := by
  -- what is hashed here does not collide, since it is listed and told apart
  have hlog : ∀ s ∈ Verify.hashedByLog sampleContents, s ∈ sampleHashed := by
    rw [Verify.hashedByLog, leafHash_sampleContents]
    decide +kernel
  have hS := collisionFree_sampleHashed.mono (List.forall_mem_append.mpr ⟨hlog, mem_sampleHashed⟩)
  obtain ⟨rawEvents, pubRaw, cpSig, data, hevents, hpem, hsig, hdata, hed, -, hcontents⟩ :=
    verifyReportRoot_sound (fun _ => none) (madeBy sampleKey [(sampleSigned, sampleCheckpointSig)])
      publicKeyOfText sampleContents sampleReport sampleCheckpoint rfl
      (by rw [contentRoot_sampleContents]; rfl) verifyReportRoot_sample hS
  obtain rfl : sampleEntries = rawEvents := GoVal.slice.inj hevents
  obtain rfl : sampleKey = pubRaw := Except.ok.inj hpem
  -- the first entry is of another event, and its index comes again
  rw [contentRoot_sampleContents] at hdata
  have hother := congrArg List.head? entryContent_sampleEntries
  rw [List.head?_map] at hother
  exact ⟨verifyReportRoot_sample, ⟨_, by decide +kernel, congrArg Option.join hother⟩,
    ⟨cpSig, data, hsig, hdata, hed⟩, hcontents⟩

end Documents

end OpenWright.Go
