import Mathlib.Data.List.Permutation
import OpenWright.Witness

/-! # The hosted witness

`WitnessService` answers every `POST /cosign` in a thread of its own, and all of them call `cosign` on
one `Witness`. A call compares the new head with the last endorsed one, signs it, and stores it as
the last one: nothing keeps another thread from doing the same in between.

* **`runService_linearizable`** — where no thread stores its head while another one is between its
  comparison and its store, the answers are those of the calls made one after the other. -/

namespace OpenWright

open Hash Python Signing

namespace Witness

/-! ## Calls one after the other -/

variable {call : CosignCall}

/-- A call with what it returned or raised. -/
abbrev Answer := CosignCall × Except PyErr WitnessCosignature

/-- The answers so far and the witness, after one more call. -/
def answerCall (ed : Ed25519) (acc : List Answer × Witness) (call : CosignCall) :
    List Answer × Witness :=
  (acc.1 ++ [(call, (cosign ed acc.2 call).1)], (cosign ed acc.2 call).2)

/-- The answers to a sequence of calls, and the witness afterwards. -/
def runCosign (ed : Ed25519) (w : Witness) (calls : List CosignCall) : List Answer × Witness :=
  calls.foldl (answerCall ed) ([], w)

/-- One more call is answered after the others. -/
theorem runCosign_append (ed : Ed25519) (w : Witness) (calls : List CosignCall) (call : CosignCall) :
    runCosign ed w (calls ++ [call]) = answerCall ed (runCosign ed w calls) call := by
  unfold runCosign
  rw [List.foldl_append]
  rfl

/-- The granted calls are those whose heads are endorsed. -/
theorem mem_endorsed_of_foldl {cosig : WitnessCosignature} : ∀ {calls : List CosignCall}
    {acc : List Answer × Witness}, (call, .ok cosig) ∈ (calls.foldl (answerCall ed) acc).1 →
      (call, .ok cosig) ∈ acc.1 ∨ call.checkpoint ∈ endorsed ed acc.2 calls
  | [], acc, h => Or.inl h
  | next :: calls, acc, h => by
      rw [List.foldl_cons] at h
      rcases mem_endorsed_of_foldl h with hmem | hmem
      · rcases List.mem_append.mp hmem with hmem | hmem
        · exact Or.inl hmem
        · -- the call itself was granted
          rw [List.mem_singleton, Prod.mk.injEq] at hmem
          obtain ⟨rfl, hok⟩ := hmem
          rcases cosign_cases ed acc.2 call with ⟨err, hcosign⟩ | ⟨cosig', hcosign, -⟩
          · rw [hcosign] at hok
            cases hok
          · right
            simp only [endorsed, hcosign]
            exact List.mem_cons_self
      · right
        simp only [answerCall] at hmem
        rw [endorsed]
        rcases cosign_cases ed acc.2 next with ⟨err, hcosign⟩ | ⟨cosig', hcosign, -⟩
        · rw [hcosign] at hmem ⊢
          exact hmem
        · rw [hcosign] at hmem ⊢
          exact List.mem_cons_of_mem _ hmem

end Witness

open Witness

namespace WitnessService

/-! ## Handler threads -/

/-- How far the handler thread of a request has come. -/
inductive Handler
  /-- The request has been read. -/
  | received (call : CosignCall)
  /-- The head was compared with the last endorsed one. -/
  | checked (call : CosignCall)
  /-- The head was signed. -/
  | signed (call : CosignCall) (sig : Bytes)

/-- The thread is between its comparison and its store. -/
def Handler.Inside : Handler → Prop
  | .received _ => False
  | .checked _ | .signed _ _ => True

/-- The witness behind the service, the threads that are under way, and the answers given. -/
structure Service where
  last : Option Checkpoint := none
  handlers : List Handler := []
  answers : List Answer := []

/-- A request arrives, or a thread makes its next step. -/
inductive Step
  | receive (call : CosignCall)
  | check (k : Nat)
  | sign (k : Nat)
  | store (k : Nat)

/-- Thread `k` ends with an answer. -/
def Service.answer (s : Service) (k : Nat) (call : CosignCall)
    (result : Except PyErr WitnessCosignature) : Service :=
  { s with handlers := s.handlers.eraseIdx k, answers := s.answers ++ [(call, result)] }

/-- One step; nothing happens where the thread is not at that step. -/
def step (ed : Ed25519) (key : KeySource) (s : Service) : Step → Service
  | .receive call => { s with handlers := s.handlers ++ [.received call] }
  | .check k =>
    match s.handlers[k]? with
    | some (.received call) =>
      -- the last head is read here, and written two steps later
      match checkCall ed s.last call with
      | .error err => s.answer k call (.error err)
      | .ok () => { s with handlers := s.handlers.set k (.checked call) }
    | _ => s
  | .sign k =>
    match s.handlers[k]? with
    | some (.checked call) =>
      match signCall key call with
      | .error err => s.answer k call (.error err)
      | .ok sig => { s with handlers := s.handlers.set k (.signed call sig) }
    | _ => s
  | .store k =>
    match s.handlers[k]? with
    | some (.signed call sig) =>
      { s.answer k call (.ok (cosignature key call sig)) with last := some call.checkpoint }
    | _ => s

/-- The service after a sequence of steps. -/
def runService (ed : Ed25519) (key : KeySource) (s : Service) (steps : List Step) : Service :=
  steps.foldl (step ed key) s

/-- A thread that stores is the only one between its comparison and its store. -/
def AloneAt (s : Service) : Step → Prop
  | .store k => ∀ (j : Nat) h, s.handlers[j]? = some h → h.Inside → j = k
  | _ => True

/-- Every thread of a run stores alone. -/
def Alone (ed : Ed25519) (key : KeySource) : Service → List Step → Prop
  | _, [] => True
  | s, a :: steps => AloneAt s a ∧ Alone ed key (step ed key s a) steps

/-! ## The invariant -/

/-- What is known of a thread: the head passes the comparison with the present last head. -/
def Handler.Holds (ed : Ed25519) (key : KeySource) (last : Option Checkpoint) : Handler → Prop
  | .received _ => True
  | .checked call => checkCall ed last call = .ok ()
  | .signed call sig => checkCall ed last call = .ok () ∧ signCall key call = .ok sig

/-- The answers are those of the calls one after the other, in the order of the answers. -/
structure Sequential (ed : Ed25519) (key : KeySource) (s : Service) : Prop where
  answers : runCosign ed (new key) (s.answers.map Prod.fst) = (s.answers, { key, last := s.last })
  holds : ∀ h ∈ s.handlers, h.Holds ed key s.last

variable {ed : Ed25519} {key : KeySource} {s : Service}

/-- One more answer that a call after the others gets too. -/
theorem Sequential.runCosign_answer (h : Sequential ed key s) {call : CosignCall}
    {result : Except PyErr WitnessCosignature} {last : Option Checkpoint}
    (hcosign : cosign ed { key, last := s.last } call = (result, { key, last })) :
    runCosign ed (new key) ((s.answers ++ [(call, result)]).map Prod.fst)
      = (s.answers ++ [(call, result)], { key, last }) := by
  rw [List.map_append, List.map_singleton, runCosign_append, h.answers]
  simp only [answerCall, hcosign]

/-- A thread that goes on without a store keeps the invariant. -/
theorem Sequential.set (h : Sequential ed key s) (k : Nat) {t : Handler}
    (ht : t.Holds ed key s.last) : Sequential ed key { s with handlers := s.handlers.set k t } := by
  refine ⟨h.answers, fun u hu => ?_⟩
  rcases List.mem_or_eq_of_mem_set hu with hmem | rfl
  · exact h.holds u hmem
  · exact ht

/-- A refused call keeps the invariant. -/
theorem Sequential.refuse (h : Sequential ed key s) (k : Nat) {call : CosignCall} {err : PyErr}
    (hcosign : cosign ed { key, last := s.last } call = (.error err, { key, last := s.last })) :
    Sequential ed key (s.answer k call (.error err)) :=
  ⟨h.runCosign_answer hcosign, fun u hu => h.holds u (List.mem_of_mem_eraseIdx hu)⟩

/-- **One step.** -/
theorem Sequential.step (h : Sequential ed key s) (a : Step) (halone : AloneAt s a) :
    Sequential ed key (step ed key s a) := by
  cases a with
  | receive call =>
      refine ⟨h.answers, fun u hu => ?_⟩
      rcases List.mem_append.mp hu with hmem | hmem
      · exact h.holds u hmem
      · rw [List.mem_singleton.mp hmem]
        trivial
  | check k =>
      simp only [WitnessService.step]
      split
      · rename_i call hk
        split
        · rename_i err hcheck
          exact h.refuse k (cosign_of_check_error hcheck)
        · rename_i hcheck
          exact h.set k hcheck
      · exact h
  | sign k =>
      simp only [WitnessService.step]
      split
      · rename_i call hk
        have hcheck : checkCall ed s.last call = .ok () := h.holds _ (List.mem_of_getElem? hk)
        split
        · rename_i err hsign
          exact h.refuse k (cosign_of_sign_error hcheck hsign)
        · rename_i sig hsign
          exact h.set k ⟨hcheck, hsign⟩
      · exact h
  | store k =>
      simp only [WitnessService.step]
      split
      · rename_i call sig hk
        obtain ⟨hcheck, hsign⟩ := h.holds _ (List.mem_of_getElem? hk)
        refine ⟨h.runCosign_answer (cosign_of_sign hcheck hsign), fun u hu => ?_⟩
        -- no other thread has compared its head with the one that is replaced
        obtain ⟨j, hj, hju⟩ := List.mem_eraseIdx_iff_getElem?.mp hu
        cases u with
        | received call' => trivial
        | checked call' => exact absurd (halone j _ hju trivial) hj
        | signed call' sig' => exact absurd (halone j _ hju trivial) hj
      · exact h

/-- **A run.** -/
theorem Sequential.run (h : Sequential ed key s) {steps : List Step}
    (halone : Alone ed key s steps) : Sequential ed key (runService ed key s steps) := by
  induction steps generalizing s with
  | nil => exact h
  | cons a steps ih => exact ih (h.step a halone.1) halone.2

/-- **The service is linearizable** in every run in which no thread stores its head while another one
is between its comparison and its store: the answers and the last endorsed head are those of the
calls made one after the other, in the order they were answered. Where these bring no other root
for the size of the last head either, no two heads that were granted are inconsistent. -/
theorem runService_linearizable (ed : Ed25519) (key : KeySource) (steps : List Step)
    (halone : Alone ed key {} steps) :
    let s := runService ed key {} steps
    let calls := s.answers.map Prod.fst
    runCosign ed (new key) calls = (s.answers, { key, last := s.last }) ∧
      ∀ S, CollisionFree S → (∀ call ∈ calls, CallWellFormed call) → SameHeads ed (new key) calls →
        (∀ b ∈ hashedByRun ed (new key) calls, b ∈ S) →
        ∀ c cosig d cosig', (c, .ok cosig) ∈ s.answers → (d, .ok cosig') ∈ s.answers →
          Consistent S c.checkpoint d.checkpoint := by
  have hstart : Sequential ed key {} := ⟨rfl, fun u hu => absurd hu List.not_mem_nil⟩
  have hrun := (hstart.run halone).answers
  intro s calls
  refine ⟨hrun, fun S hS hcalls hsame hhashed c cosig d cosig' hc hd => ?_⟩
  have hendorsed : ∀ {c cosig}, (c, .ok cosig) ∈ s.answers →
      c.checkpoint ∈ endorsed ed (new key) calls := by
    intro c cosig hc
    have hmem : (c, .ok cosig) ∈ (runCosign ed (new key) calls).1 := by
      rw [hrun]
      exact hc
    exact (mem_endorsed_of_foldl hmem).resolve_left List.not_mem_nil
  exact consistent_of_mem_endorsed hcalls hsame hS hhashed _ (hendorsed hc) _ (hendorsed hd)

/-! ## Two requests -/

/-- A granted call passed the comparison and was signed. -/
theorem steps_of_cosign {w w' : Witness} {call : CosignCall} {cosig : WitnessCosignature}
    (h : cosign ed w call = (.ok cosig, w')) :
    checkCall ed w.last call = .ok () ∧ ∃ sig, signCall w.key call = .ok sig := by
  cases hcheck : checkCall ed w.last call with
  | error err =>
      rw [cosign_of_check_error hcheck] at h
      cases h
  | ok _ =>
      cases hsign : signCall w.key call with
      | error err =>
          rw [cosign_of_sign_error hcheck hsign] at h
          cases h
      | ok sig => exact ⟨rfl, sig, rfl⟩

/-- Two requests of which the second one arrives while the first one is served, and is compared after the
first one has stored its head. -/
def overlappingSteps (call call' : CosignCall) : List Step :=
  [.receive call, .check 0, .receive call', .sign 0, .store 0, .check 0, .sign 0, .store 0]

/-- Both are granted, and no thread is inside while another one stores. -/
theorem run_overlappingSteps {call call' : CosignCall} {sig sig' : Bytes}
    (hcheck : checkCall ed none call = .ok ()) (hsign : signCall key call = .ok sig)
    (hcheck' : checkCall ed (some call.checkpoint) call' = .ok ())
    (hsign' : signCall key call' = .ok sig') :
    runService ed key {} (overlappingSteps call call') =
        { last := some call'.checkpoint,
          answers := [(call, .ok (cosignature key call sig)),
            (call', .ok (cosignature key call' sig'))] } ∧
      Alone ed key {} (overlappingSteps call call') := by
  constructor
  · simp [runService, overlappingSteps, step, Service.answer, hcheck, hcheck', hsign, hsign']
  · simp only [overlappingSteps, Alone, step, List.nil_append, List.getElem?_cons_zero, hcheck,
      List.set_cons_zero, List.cons_append, hsign, Service.answer, List.eraseIdx_zero, List.tail_cons,
      hcheck', hsign', AloneAt, true_and, and_true]
    constructor
    · -- the second thread has not compared its head
      intro j h hj hinside
      rcases j with _ | _ | j
      · rfl
      · obtain rfl := Option.some.inj hj
        exact hinside.elim
      · cases hj
    · intro j h hj _
      rcases j with _ | j
      · rfl
      · cases hj

/-- Two overlapping requests for the heads of the growing log are granted, as one after the other. -/
theorem runService_linearizable_two : ∃ cosig cosig',
    let s := runService sampleEd25519 sampleWitnessKey {}
      (overlappingSteps (sampleCall headOne none)
        (sampleCall headTwo (some [hex (Witness.sampleLeaf 2)])))
    s.answers = [(sampleCall headOne none, .ok cosig),
        (sampleCall headTwo (some [hex (Witness.sampleLeaf 2)]), .ok cosig')] ∧
      s.last = some headTwo ∧
      runCosign sampleEd25519 (new sampleWitnessKey) growingRun
        = (s.answers, { key := sampleWitnessKey, last := s.last }) := by
  obtain ⟨cosig, hone⟩ := cosign_headOne
  obtain ⟨cosig', htwo⟩ := @cosign_sampleCall afterHeadOne rfl headTwo
    (List.mem_cons_of_mem _ List.mem_cons_self) (some [hex (Witness.sampleLeaf 2)])
    fun last hlast => Option.some.inj hlast ▸ checkExtends_headTwo
  obtain ⟨hcheck, sig, hsign⟩ := steps_of_cosign hone
  obtain ⟨hcheck', sig', hsign'⟩ := steps_of_cosign htwo
  obtain ⟨hrun, halone⟩ : runService sampleEd25519 sampleWitnessKey {} _ = _ ∧ _ :=
    run_overlappingSteps hcheck hsign hcheck' hsign'
  have hlinear := (runService_linearizable sampleEd25519 sampleWitnessKey _ halone).1
  rw [hrun] at hlinear
  exact ⟨_, _, by rw [hrun], by rw [hrun]; rfl, by rw [hrun]; exact hlinear⟩

/-- Two requests whose threads compare their heads with the same last one. -/
def racingSteps (call call' : CosignCall) : List Step :=
  [.receive call, .receive call', .check 0, .check 1, .sign 0, .sign 1, .store 0, .store 0]

/-- Both are granted. -/
theorem run_racingSteps {call call' : CosignCall} {sig sig' : Bytes}
    (hcheck : checkCall ed none call = .ok ()) (hcheck' : checkCall ed none call' = .ok ())
    (hsign : signCall key call = .ok sig) (hsign' : signCall key call' = .ok sig') :
    runService ed key {} (racingSteps call call') =
      { last := some call'.checkpoint,
        answers := [(call, .ok (cosignature key call sig)),
          (call', .ok (cosignature key call' sig'))] } := by
  simp [runService, racingSteps, step, Service.answer, hcheck, hcheck', hsign, hsign']

/-- One after the other the second call is refused. -/
theorem runCosign_ne_of_checkExtends {w : Witness} {call call' : CosignCall}
    {result result' : WitnessCosignature} {w' : Witness}
    (hcheck : checkExtends call.checkpoint call' ≠ .ok ()) :
    runCosign ed w [call, call'] ≠ ([(call, .ok result), (call', .ok result')], w') := by
  intro h
  simp only [runCosign, List.foldl_cons, List.foldl_nil, answerCall, List.nil_append,
    List.cons_append, Prod.mk.injEq, List.cons.injEq, true_and, and_true] at h
  obtain ⟨⟨hfirst, hsecond⟩, -⟩ := h
  rcases cosign_cases ed w call with ⟨err, hcosign⟩ | ⟨cosig, hcosign, -⟩
  · rw [hcosign] at hfirst
    cases hfirst
  · rw [hcosign] at hsecond
    rcases cosign_cases ed { w with last := some call.checkpoint } call' with
      ⟨err, hcosign'⟩ | ⟨cosig', hcosign', hextends⟩
    · rw [hcosign'] at hsecond
      cases hsecond
    · exact hcheck (hextends _ rfl)

/-- Two forks that are compared with the same last head are both granted: neither order of the two
calls grants them both. -/
theorem runService_not_linearizable :
    ¬∀ (ed : Ed25519) (key : KeySource) (steps : List Step),
      let s := runService ed key {} steps
      s.handlers = [] → ∃ order : List Answer, order.Perm s.answers ∧
        runCosign ed (new key) (order.map Prod.fst) = (order, { key, last := s.last }) := by
  intro hclaim
  obtain ⟨cosig, htwo⟩ := @cosign_sampleCall (new sampleWitnessKey) rfl headTwo
    (List.mem_cons_of_mem _ List.mem_cons_self) none fun last hlast => by cases hlast
  obtain ⟨cosig', hfork⟩ := @cosign_sampleCall (new sampleWitnessKey) rfl headFork
    (List.mem_cons_of_mem _ (List.mem_cons_of_mem _ List.mem_cons_self)) none
    fun last hlast => by cases hlast
  obtain ⟨hcheck, sig, hsign⟩ := steps_of_cosign htwo
  obtain ⟨hcheck', sig', hsign'⟩ := steps_of_cosign hfork
  have hrun : runService sampleEd25519 sampleWitnessKey {} _ = _ :=
    run_racingSteps hcheck hcheck' hsign hsign'
  have hone := hclaim sampleEd25519 sampleWitnessKey
    (racingSteps (sampleCall headTwo none) (sampleCall headFork none))
  simp only at hone
  rw [hrun] at hone
  obtain ⟨order, hperm, hsequential⟩ := hone rfl
  -- neither head extends the other, so after either the other is refused
  have hsmaller : checkExtends headTwo (sampleCall headFork none) ≠ .ok () := by
    have hnone : (checkExtends headTwo (sampleCall headFork none)).toOption = none := by
      decide +kernel
    intro hok
    rw [hok] at hnone
    cases hnone
  have hother : checkExtends headFork (sampleCall headTwo none) ≠ .ok () := by
    have hnone : (checkExtends headFork (sampleCall headTwo none)).toOption = none := by
      decide +kernel
    intro hok
    rw [hok] at hnone
    cases hnone
  rcases List.perm_pair.mp hperm with rfl | rfl
  · exact runCosign_ne_of_checkExtends hsmaller hsequential
  · exact runCosign_ne_of_checkExtends hother hsequential

end WitnessService

end OpenWright
