import OpenWright.Adapters.Spans

/-! # Payloads and the vault

The ledger refers to a payload by its hash. A vault keeps the payloads themselves, in files that are
named by the hashes; writing such a file may fail, and what was written until then is in it.

* **`store_ref`** — a vault refers to a payload as the ledger does without a vault.
* **`Addressed.fetch_eq`** — what is fetched for a reference has the hash that the reference states. -/

namespace OpenWright

open Python Canonical

/-! ## Payloads -/

/-- A payload: bytes, or a value that is not. -/
inductive Payload
  | bytes (data : Bytes)
  | value (v : Val)
deriving DecidableEq

namespace Payload

/-- `None`, which is no payload. -/
def isNone : Payload → Bool
  | .value .null => true
  | _ => false

/-- `hash_payload`. -/
def hashPayload : Payload → Except PyErr Str
  | .bytes data => .ok (lit "sha256:" ++ sha256Hex data)
  | .value v => Adapters.hashPayload v

/-- `_to_bytes`. -/
def toBytes : Payload → Except PyErr Bytes
  | .bytes data => .ok data
  | .value (.str s) =>
    match utf8 s with
    | some b => .ok b
    | none => .error { kind := .unicodeEncodeError }
  | .value v => canonicalBytes v

/-- The reference of some bytes. -/
def refOf (data : Bytes) : Str := lit "sha256:" ++ sha256Hex data

/-- The hash of a payload is that of its bytes. -/
theorem hashPayload_eq (p : Payload) : p.hashPayload = p.toBytes.map refOf := by
  cases p with
  | bytes data => rfl
  | value v =>
      cases v with
      | str s =>
          rw [hashPayload, Adapters.hashPayload, toBytes]
          cases utf8 s with
          | none => rfl
          | some b => rfl
      | _ =>
          rw [hashPayload, Adapters.hashPayload, toBytes, contentHash]
          · rfl
          all_goals simp

end Payload

/-! ## The vault -/

/-- `FileVault`: the files of its directory. -/
structure FileVault where
  files : List (Str × Bytes) := []

/-- How writing a file fails: it is not opened, or it is cut off after some bytes. -/
inductive WriteFault
  | refused (err : PyErr)
  | torn (n : Nat) (err : PyErr)

namespace FileVault

open Payload

/-- `_path`, in the directory. -/
def path (ref : Str) : Str := afterLast (cp 58) ref ++ lit ".bin"

/-- The directory with a file written over. -/
def put (v : FileVault) (name : Str) (data : Bytes) : FileVault :=
  { files := (name, data) :: v.files.filter fun f => f.1 ≠ name }

/-- `store`. -/
def store (v : FileVault) (payload : Payload) (fault : Option WriteFault) :
    Except PyErr Str × FileVault :=
  match payload.toBytes with
  | .error err => (.error err, v)
  | .ok data =>
    match fault with
    | none => (.ok (refOf data), v.put (path (refOf data)) data)
    | some (.refused err) => (.error err, v)
    -- the file is there, cut off
    | some (.torn n err) => (.error err, v.put (path (refOf data)) (data.take n))

/-- `fetch`. -/
def fetch (v : FileVault) (ref : Str) : Option Bytes := v.files.lookup (path ref)

/-- What a file holds after another one was written, or the same. -/
theorem lookup_put (v : FileVault) (name : Str) (data : Bytes) (k : Str) :
    (v.put name data).files.lookup k = if k = name then some data else v.files.lookup k := by
  rw [put, List.lookup_cons]
  by_cases hk : k = name
  · rw [if_pos hk, hk, beq_self_eq_true]
  · rw [if_neg hk, beq_false_of_ne hk]
    exact lookup_filter_of (p := fun l => l ≠ name) (decide_eq_true hk) v.files

/-- **The vault refers to a payload as the ledger does without one.** -/
theorem store_ref (v : FileVault) (payload : Payload) :
    (v.store payload none).1 = payload.hashPayload := by
  rw [store, hashPayload_eq]
  cases payload.toBytes with
  | error err => rfl
  | ok data => rfl

/-- Each file is named by the hash of what it holds. -/
def Addressed (v : FileVault) : Prop :=
  ∀ name data, v.files.lookup name = some data → name = path (refOf data)

/-- Different hashes name different files. -/
theorem path_refOf (data : Bytes) : path (refOf data) = sha256Hex data ++ lit ".bin" := by
  rw [path, refOf, sha256Hex, show lit "sha256:" = lit "sha256" ++ [cp 58] from rfl, List.append_assoc,
    List.singleton_append, afterLast_append _ (not_mem_hex _)]

namespace Addressed

variable {v : FileVault}

/-- A payload that is stored, or of which nothing is written, keeps it so. -/
theorem store (h : v.Addressed) (payload : Payload) {fault : Option WriteFault}
    (hfault : ∀ n err, fault ≠ some (.torn n err)) : (v.store payload fault).2.Addressed := by
  rw [FileVault.store]
  cases payload.toBytes with
  | error err => exact h
  | ok data =>
      cases fault with
      | none =>
          intro name data' hlookup
          dsimp only at hlookup
          rw [lookup_put] at hlookup
          by_cases hname : name = path (refOf data)
          · rw [if_pos hname] at hlookup
            rw [hname, Option.some.inj hlookup]
          · rw [if_neg hname] at hlookup
            exact h name data' hlookup
      | some fault =>
          cases fault with
          | refused err => exact h
          | torn n err => exact absurd rfl (hfault n err)

/-- **What is fetched has the hash that was asked for.** -/
theorem fetch_eq (h : v.Addressed) {data data' : Bytes} (hfetch : v.fetch (refOf data) = some data') :
    refOf data' = refOf data := by
  have hpath := h _ _ hfetch
  rw [path_refOf, path_refOf] at hpath
  rw [refOf, refOf, List.append_cancel_right hpath]

end Addressed

/-- What was stored last is fetched. -/
theorem fetch_store {v : FileVault} {payload : Payload} {ref : Str}
    (h : (v.store payload none).1 = .ok ref) :
    ∃ data, payload.toBytes = .ok data ∧ ref = refOf data ∧
      (v.store payload none).2.fetch ref = some data := by
  rw [store] at h ⊢
  cases hdata : payload.toBytes with
  | error err =>
      rw [hdata] at h
      cases h
  | ok data =>
      rw [hdata] at h
      obtain rfl := Except.ok.inj h
      refine ⟨data, rfl, rfl, ?_⟩
      dsimp only
      rw [fetch, lookup_put, if_pos rfl]

/-- What can be fetched from `v` can be fetched from `v'`. -/
def Extends (v v' : FileVault) : Prop := ∀ ref, (v.fetch ref).isSome → (v'.fetch ref).isSome

/-- A vault extends itself, -/
theorem Extends.refl (v : FileVault) : v.Extends v := fun _ h => h

/-- and what extends an extension extends the vault. -/
theorem Extends.trans {v v' v'' : FileVault} (h : v.Extends v') (h' : v'.Extends v'') : v.Extends v'' :=
  fun ref hfetch => h' ref (h ref hfetch)

/-- **Nothing is removed**: a file is only written over, if only in part. -/
theorem extends_store (v : FileVault) (payload : Payload) (fault : Option WriteFault) :
    v.Extends (v.store payload fault).2 := by
  have hput : ∀ name data, v.Extends (v.put name data) := by
    intro name data ref h
    rw [fetch, lookup_put]
    split
    · rfl
    · exact h
  rw [store]
  cases payload.toBytes with
  | error err => exact Extends.refl v
  | ok data =>
      cases fault with
      | none => exact hput _ _
      | some fault =>
          cases fault with
          | refused err => exact Extends.refl v
          | torn n err => exact hput _ _

end FileVault

end OpenWright
