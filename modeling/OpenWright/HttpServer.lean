import OpenWright.CheckpointStore
import OpenWright.Collector
import OpenWright.Otlp
import OpenWright.Sdk

/-! # The HTTP collector

Each request has a thread: it is checked, its spans are submitted to the evidence pipeline, and its body
is forwarded to the downstream backend, whose answer is the response.

* **`run_refines_proxy`** — what clients and the downstream backend see of the collector is what they
  see of a proxy that has no evidence pipeline.
* **`run_logs_requests`** — the spans that the collector is given are those of the accepted requests, and
  each of them is in the log or accounted for. -/

namespace OpenWright.Http

open Python Python.Val Sdk Otlp
open CheckpointStore.S3CheckpointStore (rstripSlash)

/-! ## Who may write evidence -/

/-- `TokenAuthority`. -/
structure TokenAuthority where
  tokens : List (Str × Principal) := []

namespace TokenAuthority

/-- `add`. -/
def add (a : TokenAuthority) (token : Str) (principal : Principal) : TokenAuthority where
  tokens := (token, principal) :: a.tokens

/-- `principal_for`. -/
def principalFor (a : TokenAuthority) (token : Option Str) : Option Principal :=
  (ifTrue token).bind (a.tokens.lookup ·)

/-- An ASCII letter in lower case. -/
def lowerAscii (c : CodePoint) : CodePoint := if 65 ≤ c.val ∧ c.val ≤ 90 then cp (c.val + 32) else c

/-- `s.strip()`. -/
def strip (s : Str) : Str := ((s.dropWhile Python.isSpace).reverse.dropWhile Python.isSpace).reverse

/-- The token of a header, which is Latin-1. -/
def bearerToken (header : Option Str) : Option Str :=
  header.bind fun h => if (h.take 7).map lowerAscii = lit "bearer " then some (strip (h.drop 7)) else none

/-- `authorize_bearer`. -/
def authorizeBearer (a : TokenAuthority) (header : Option Str) (capability : Capability) : Bool :=
  match a.principalFor (bearerToken header) with
  | some principal => principal.has capability
  | none => false

end TokenAuthority

/-! ## Requests and responses -/

/-- A `POST` request. -/
structure Request where
  path : Str
  authorization : Option Str := none
  contentType : Option Str := none
  /-- What `rfile.read` returns of the length that the header states. -/
  body : Except PyErr Bytes

/-- What is sent back; where the handler raises, nothing. -/
inductive Response
  | answer (status : Nat) (body : Bytes)
  | error (status : Nat) (message : Str)
  | closed (err : PyErr)

/-- What an `EvidenceCollector` is made with. -/
structure Config where
  /-- `parse_request`: the protobuf library. -/
  parse : Bytes → Except PyErr ExportTraceServiceRequest
  tokenAuthority : Option TokenAuthority := none
  /-- There is a downstream backend. -/
  forwards : Bool := false

namespace Config

variable (cfg : Config)

/-- The checks of `do_POST`: the body, if the request passes them. -/
def check (req : Request) : Except Response Bytes :=
  if rstripSlash req.path ≠ lit "/v1/traces" then
    .error (.error 404 (lit "only /v1/traces is supported"))
  else
    match req.body with
    -- the connection broke while the body was read
    | .error err => .error (.closed err)
    | .ok body =>
      match cfg.tokenAuthority with
      -- without an authority every request is let through
      | none => .ok body
      | some authority =>
        if authority.authorizeBearer req.authorization .writeEvidence then .ok body
        else .error (.error 401 (lit "missing or insufficient bearer token"))

/-- `maybe_forward`, on what the downstream backend answers, and the response. -/
def respond (answer : Except PyErr (Nat × Bytes)) : Response :=
  if cfg.forwards then
    match answer with
    | .ok (status, body) => .answer status body
    | .error _ => .answer 502 []
  -- an empty `ExportTraceServiceResponse` has no bytes
  else .answer 200 []

/-- The spans of a body, if it can be parsed. -/
def spansOf (body : Bytes) : List SpanData :=
  match cfg.parse body with
  | .ok req => requestToSpans req
  | .error _ => []

end Config

/-- What is forwarded: the body and its content type. -/
def forwardedOf (req : Request) (body : Bytes) : Bytes × Str :=
  (body, req.contentType.getD (lit "application/x-protobuf"))

/-! ## The server -/

/-- Where `do_POST` is: before its checks, before the evidence fork, in `submit`, before the forwarding,
and done. -/
inductive Handler
  | received (req : Request)
  | forking (req : Request) (body : Bytes)
  | submitting (req : Request) (body : Bytes) (k : Nat)
  | forwarding (req : Request) (body : Bytes)
  | done (req : Request) (response : Response)

/-- `EvidenceCollector`: the evidence pipeline with its ledger, the threads, what was forwarded, and the
requests whose evidence was forked. -/
structure Server (σ : Type) where
  collector : Collector σ
  handlers : List Handler := []
  forwarded : List (Bytes × Str) := []
  forked : List (Request × Bytes) := []

/-- What happens next: a request comes in, a thread moves on, or the pipeline does. -/
inductive Step
  | receive (req : Request)
  | check (i : Nat)
  | fork (i : Nat)
  | submitted (i : Nat)
  | respond (i : Nat) (answer : Except PyErr (Nat × Bytes))
  | collect (op : Collector.Op) (noSubmit : op.NoSubmit)

namespace Server

variable {σ : Type} (B : LedgerBackend σ) (N : Adapters.Normalizer) (cfg : Config)

/-- One step; a step that no thread can take changes nothing. -/
def step (s : Server σ) : Step → Server σ
  | .receive req => { s with handlers := s.handlers ++ [.received req] }
  | .check i =>
    match s.handlers[i]? with
    | some (.received req) =>
      -- the answer without a body is final
      match cfg.check req with
      | .ok body => { s with handlers := s.handlers.set i (.forking req body) }
      | .error response => { s with handlers := s.handlers.set i (.done req response) }
    | _ => s
  | .fork i =>
    match s.handlers[i]? with
    | some (.forking req body) =>
      -- the spans are submitted before the request is forwarded
      match cfg.parse body with
      | .ok request =>
        { s with
          collector := s.collector.step B N (.other (.submit (requestToSpans request)) trivial)
          handlers := s.handlers.set i (.submitting req body s.collector.pipeline.submitters.length)
          forked := s.forked ++ [(req, body)] }
      -- a body that does not parse is forwarded all the same
      | .error _ =>
        { s with
          handlers := s.handlers.set i (.forwarding req body)
          forked := s.forked ++ [(req, body)] }
    | _ => s
  | .submitted i =>
    match s.handlers[i]? with
    | some (.submitting req body k) =>
      match s.collector.pipeline.submitters[k]? with
      | some { todo := [], .. } => { s with handlers := s.handlers.set i (.forwarding req body) }
      | _ => s
    | _ => s
  | .respond i answer =>
    match s.handlers[i]? with
    | some (.forwarding req body) =>
      { s with
        handlers := s.handlers.set i (.done req (cfg.respond answer))
        forwarded := if cfg.forwards then s.forwarded ++ [forwardedOf req body] else s.forwarded }
    | _ => s
  | .collect op _ => { s with collector := s.collector.step B N op }

/-- The steps in order. -/
def run (s : Server σ) (steps : List Step) : Server σ := steps.foldl (step B N cfg) s

end Server

/-! ## A proxy -/

namespace Proxy

/-- Where a thread of a proxy is. -/
inductive Handler
  | received (req : Request)
  | forwarding (req : Request) (body : Bytes)
  | done (req : Request) (response : Response)

/-- A proxy checks the requests and forwards them. -/
structure State where
  handlers : List Handler := []
  forwarded : List (Bytes × Str) := []

/-- What happens next. -/
inductive Step
  | receive (req : Request)
  | check (i : Nat)
  | respond (i : Nat) (answer : Except PyErr (Nat × Bytes))

variable (cfg : Config)

/-- One step; a step that no thread can take changes nothing. -/
def step (s : State) : Step → State
  | .receive req => { s with handlers := s.handlers ++ [.received req] }
  | .check i =>
    match s.handlers[i]? with
    | some (.received req) =>
      match cfg.check req with
      | .ok body => { s with handlers := s.handlers.set i (.forwarding req body) }
      | .error response => { s with handlers := s.handlers.set i (.done req response) }
    | _ => s
  | .respond i answer =>
    match s.handlers[i]? with
    | some (.forwarding req body) =>
      { handlers := s.handlers.set i (.done req (cfg.respond answer))
        forwarded := if cfg.forwards then s.forwarded ++ [forwardedOf req body] else s.forwarded }
    | _ => s

/-- The steps in order. -/
def run (s : State) (steps : List Step) : State := steps.foldl (step cfg) s

end Proxy

/-! ## What is seen from outside -/

/-- A thread without what it does for the evidence. -/
def Handler.view : Handler → Proxy.Handler
  | .received req => .received req
  | .forking req body | .submitting req body _ | .forwarding req body => .forwarding req body
  | .done req response => .done req response

/-- A server without its evidence pipeline. -/
def Server.view {σ : Type} (s : Server σ) : Proxy.State := ⟨s.handlers.map Handler.view, s.forwarded⟩

/-- What of a step is seen from outside. -/
def Step.view : Step → Option Proxy.Step
  | .receive req => some (.receive req)
  | .check i => some (.check i)
  | .respond i answer => some (.respond i answer)
  | _ => none

namespace Server

section View

variable {σ : Type} {B : LedgerBackend σ} {N : Adapters.Normalizer} {cfg : Config}

/-- A thread that moves on unseen. -/
theorem view_set_unseen {s : Server σ} {i : Nat} {h h' : Handler} (hi : s.handlers[i]? = some h)
    (hview : h'.view = h.view) :
    (s.handlers.set i h').map Handler.view = s.handlers.map Handler.view := by
  apply List.ext_getElem? fun j => ?_
  rw [List.getElem?_map, List.getElem?_map, List.getElem?_set]
  by_cases hj : i = j
  · rw [if_pos hj, ← hj, hi]
    split
    · simp only [Option.map_some, hview]
    · rename_i hlt
      exact absurd (List.getElem?_eq_some_iff.mp hi).1 hlt
  · rw [if_neg hj]

/-- **A step is seen as one of a proxy, or not at all.** -/
theorem view_step (s : Server σ) (a : Step) : (step B N cfg s a).view = s.view ∨
    ∃ b, a.view = some b ∧ (step B N cfg s a).view = Proxy.step cfg s.view b := by
  -- what a proxy sees of a handler is its state without the fork
  have hget : ∀ i, s.view.handlers[i]? = s.handlers[i]?.map Handler.view := fun i => List.getElem?_map
  cases a with
  | receive req =>
      refine Or.inr ⟨_, rfl, ?_⟩
      simp only [step, view, Proxy.step, List.map_append, List.map_cons, List.map_nil, Handler.view]
  | collect op h => exact Or.inl rfl
  | check i =>
      rw [step]
      split
      · rename_i req hi
        refine Or.inr ⟨_, rfl, ?_⟩
        rw [Proxy.step, hget, hi]
        simp only [Option.map_some, Handler.view]
        split
        · simp only [view, List.map_set, Handler.view]
        · simp only [view, List.map_set, Handler.view]
      · exact Or.inl rfl
  | fork i =>
      -- forking and submitting are not seen: the handler looks as before
      left
      rw [step]
      split
      · rename_i req body hi
        split
        · exact congrArg (Proxy.State.mk · s.forwarded) (view_set_unseen hi rfl)
        · exact congrArg (Proxy.State.mk · s.forwarded) (view_set_unseen hi rfl)
      · rfl
  -- the same of a handler whose spans are all submitted
  | submitted i =>
      left
      rw [step]
      split
      · rename_i req body k hi
        split
        · exact congrArg (Proxy.State.mk · s.forwarded) (view_set_unseen hi rfl)
        · rfl
      · rfl
  | respond i answer =>
      rw [step]
      split
      · rename_i req body hi
        refine Or.inr ⟨_, rfl, ?_⟩
        rw [Proxy.step, hget, hi]
        simp only [Option.map_some, Handler.view, view, List.map_set]
      · exact Or.inl rfl

end View

/-- **The evidence pipeline is not seen.** Whatever the evidence pipeline, its ledger and its files do,
and in whatever order the threads go, the responses that clients get and the requests that the downstream
backend gets are those of a proxy without an evidence pipeline, which takes some of the same steps in
their order. -/
theorem run_refines_proxy {σ : Type} (B : LedgerBackend σ) (N : Adapters.Normalizer) (cfg : Config)
    (s : Server σ) (steps : List Step) :
    ∃ seen, seen.Sublist (steps.filterMap Step.view) ∧
      (run B N cfg s steps).view = Proxy.run cfg s.view seen := by
  induction steps generalizing s with
  | nil => exact ⟨[], List.Sublist.refl _, rfl⟩
  | cons a steps ih =>
      obtain ⟨seen, hseen, hrun⟩ := ih (step B N cfg s a)
      rcases @view_step σ B N cfg s a with hstep | ⟨b, hb, hstep⟩
      · refine ⟨seen, hseen.trans ?_, ?_⟩
        · rw [List.filterMap_cons]
          split
          · exact List.Sublist.refl _
          · exact List.sublist_cons_self _ _
        · rw [hstep] at hrun
          exact hrun
      · refine ⟨b :: seen, ?_, ?_⟩
        · rw [List.filterMap_cons, hb]
          exact hseen.cons_cons b
        · rw [hstep] at hrun
          exact hrun

end Server

/-! ## What the evidence pipeline is given -/

/-- The request and its body, from the evidence fork on. -/
def Handler.forked? (cfg : Config) : Handler → Option (Request × Bytes)
  | .submitting req body _ | .forwarding req body => some (req, body)
  | .done req _ => (cfg.check req).toOption.map fun body => (req, body)
  | _ => none

/-- The body is that of a request that has passed the checks. -/
def Handler.Checked (cfg : Config) : Handler → Prop
  | .forking req body | .submitting req body _ | .forwarding req body => cfg.check req = .ok body
  | _ => True

/-- The evidence of each accepted request is forked once, and gives the pipeline its spans. -/
structure Server.Forks {σ : Type} (cfg : Config) (given₀ : List SpanData) (s : Server σ) : Prop where
  checked : ∀ h ∈ s.handlers, h.Checked cfg
  forked : s.forked.Perm (s.handlers.filterMap (Handler.forked? cfg))
  given : s.collector.pipeline.given = given₀ ++ s.forked.flatMap fun f => cfg.spansOf f.2

section Lists

variable {α β : Type} {f : α → Option β} {l : List α} {i : Nat} {a b : α}

/-- Elements that are mapped alike may be exchanged. -/
theorem filterMap_set_of_eq (h : l[i]? = some a) (hf : f b = f a) :
    (l.set i b).filterMap f = l.filterMap f := by
  induction l generalizing i with
  | nil => rfl
  | cons x l ih =>
      cases i with
      | zero =>
          obtain rfl := Option.some.inj h
          rw [List.set_cons_zero, List.filterMap_cons, List.filterMap_cons, hf]
      | succ i => rw [List.set_cons_succ, List.filterMap_cons, List.filterMap_cons, ih h]

/-- An element that was not mapped is mapped. -/
theorem filterMap_set_of_some {c : β} (h : l[i]? = some a) (ha : f a = none) (hb : f b = some c) :
    (l.filterMap f ++ [c]).Perm ((l.set i b).filterMap f) := by
  induction l generalizing i with
  | nil => cases h
  | cons x l ih =>
      cases i with
      | zero =>
          obtain rfl := Option.some.inj h
          rw [List.set_cons_zero, List.filterMap_cons_none ha, List.filterMap_cons_some hb]
          exact List.perm_append_singleton c _
      | succ i =>
          rw [List.set_cons_succ]
          cases hx : f x with
          | none =>
              rw [List.filterMap_cons_none hx, List.filterMap_cons_none hx]
              exact ih h
          | some y =>
              rw [List.filterMap_cons_some hx, List.filterMap_cons_some hx]
              exact (ih h).cons y

end Lists

namespace Server

variable {σ : Type} {B : LedgerBackend σ} {N : Adapters.Normalizer} {cfg : Config}
  {given₀ : List SpanData} {s : Server σ}

/-- Only `submit` gives spans to the pipeline of a collector. -/
theorem given_step (c : Collector σ) {op : Collector.Op} (hop : op.NoSubmit) :
    (c.step B N op).pipeline.given = c.pipeline.given := by
  rcases @Collector.step_pipeline σ B N c op with hstep | ⟨p, -, hp, hstep⟩
  · rw [hstep]
  · rw [hstep]
    exact EvidencePipeline.step_given _ (hp hop)

/-- A handler is replaced by one whose body is checked. -/
theorem Forks.checked_set (h : Forks cfg given₀ s) (i : Nat) {t : Handler} (ht : t.Checked cfg) :
    ∀ h ∈ s.handlers.set i t, h.Checked cfg := by
  intro u hu
  rcases List.mem_or_eq_of_mem_set hu with hu | rfl
  · exact h.checked u hu
  · exact ht

/-- A handler moves on without a fork. -/
theorem Forks.forked_set (h : Forks cfg given₀ s) {i : Nat} {t u : Handler} (hi : s.handlers[i]? = some t)
    (hu : u.forked? cfg = t.forked? cfg) :
    s.forked.Perm ((s.handlers.set i u).filterMap (Handler.forked? cfg)) := by
  rw [filterMap_set_of_eq hi hu]
  exact h.forked

/-- **Every step keeps the forks.** -/
theorem Forks.step (h : Forks cfg given₀ s) (a : Step) : Forks cfg given₀ (step B N cfg s a) := by
  -- a handler past the check has a body that the check accepted
  have hmem : ∀ {i : Nat} {t : Handler}, s.handlers[i]? = some t → t.Checked cfg :=
    fun hi => h.checked _ (List.mem_of_getElem? hi)
  cases a with
  | receive req =>
      refine ⟨?_, ?_, h.given⟩
      · intro u hu
        rcases List.mem_append.mp hu with hu | hu
        · exact h.checked u hu
        · rw [List.mem_singleton.mp hu]
          exact trivial
      -- a request that was only received is not forked
      · have hnone : [Handler.received req].filterMap (Handler.forked? cfg) = [] := rfl
        rw [Server.step, List.filterMap_append, hnone, List.append_nil]
        exact h.forked
  | check i =>
      rw [Server.step]
      split
      · rename_i req hi
        split
        · rename_i body hcheck
          exact ⟨h.checked_set i hcheck, h.forked_set hi rfl, h.given⟩
        · rename_i response hcheck
          refine ⟨h.checked_set i trivial, h.forked_set hi ?_, h.given⟩
          rw [Handler.forked?, hcheck]
          rfl
      · exact h
  | fork i =>
      rw [Server.step]
      split
      · rename_i req body hi
        have hcheck : cfg.check req = .ok body := hmem hi
        -- the handler forks now, so its body is among the forked ones
        have hforked : ∀ t : Handler, t.forked? cfg = some (req, body) →
            (s.forked ++ [(req, body)]).Perm ((s.handlers.set i t).filterMap (Handler.forked? cfg)) :=
          fun t ht => (h.forked.append_right _).trans (filterMap_set_of_some hi rfl ht)
        split
        · rename_i request hparse
          refine ⟨h.checked_set i hcheck, hforked _ rfl, ?_⟩
          have hspans : cfg.spansOf body = requestToSpans request := by rw [Config.spansOf, hparse]
          rw [List.flatMap_append, ← List.append_assoc, ← h.given, List.flatMap_singleton, hspans]
          rfl
        · rename_i err hparse
          refine ⟨h.checked_set i hcheck, hforked _ rfl, ?_⟩
          -- a body that does not parse submits no span
          have hspans : cfg.spansOf body = [] := by rw [Config.spansOf, hparse]
          rw [List.flatMap_append, ← List.append_assoc, ← h.given, List.flatMap_singleton, hspans,
            List.append_nil]
      · exact h
  | submitted i =>
      rw [Server.step]
      split
      · rename_i req body k hi
        have hcheck : cfg.check req = .ok body := hmem hi
        split
        · exact ⟨h.checked_set i hcheck, h.forked_set hi rfl, h.given⟩
        · exact h
      · exact h
  | respond i answer =>
      rw [Server.step]
      split
      · rename_i req body hi
        have hcheck : cfg.check req = .ok body := hmem hi
        refine ⟨h.checked_set i trivial, h.forked_set hi ?_, h.given⟩
        simp only [Handler.forked?, hcheck]
        rfl
      · exact h
  | collect op hop => exact ⟨h.checked, h.forked, (given_step s.collector hop).trans h.given⟩

/-- Every run keeps the forks. -/
theorem Forks.run (h : Forks cfg given₀ s) (steps : List Step) :
    Forks cfg given₀ (run B N cfg s steps) := by
  induction steps generalizing s with
  | nil => exact h
  | cons a steps ih => exact ih (h.step a)

/-- An append of the pipeline to its spill file that fails leaves nothing in the file. -/
def Step.Whole : Http.Step → Prop
  | .collect op _ => op.Whole
  | _ => True

/-- **A run of a server is a run of its collector**, which is given JSON values. -/
theorem run_collector (s : Server σ) (steps : List Step) : ∃ ops : List Collector.Op,
    ((∀ a ∈ steps, Step.Whole a) → ∀ op ∈ ops, op.Whole) ∧
      (run B N cfg s steps).collector = s.collector.run B N ops := by
  induction steps generalizing s with
  | nil => exact ⟨[], fun _ op hop => absurd hop List.not_mem_nil, rfl⟩
  | cons a steps ih =>
      obtain ⟨ops, hwhole, hrun⟩ := ih (step B N cfg s a)
      -- each step of the server is one of the collector or none
      have hstep : (step B N cfg s a).collector = s.collector ∨ ∃ op : Collector.Op,
          (Step.Whole a → op.Whole) ∧ (step B N cfg s a).collector = s.collector.step B N op := by
        cases a with
        | receive req => exact Or.inl rfl
        | collect op hop => exact Or.inr ⟨op, id, rfl⟩
        | fork i =>
            rw [step]
            split
            · split
              · rename_i request hparse
                refine Or.inr ⟨.other (.submit (requestToSpans request)) trivial, fun _ => ?_, rfl⟩
                intro span hspan
                exact isJson_of_mem_requestToSpans hspan
              · exact Or.inl rfl
            · exact Or.inl rfl
        -- no other step touches the collector
        | check i | submitted i | respond i answer =>
            rw [step]
            repeat' split
            all_goals exact Or.inl rfl
      rcases hstep with hstep | ⟨op, hop, hstep⟩
      · refine ⟨ops, fun hall => hwhole fun b hb => hall b (List.mem_cons_of_mem a hb), ?_⟩
        rw [hstep] at hrun
        exact hrun
      · refine ⟨op :: ops, fun hall o ho => ?_, ?_⟩
        · rcases List.mem_cons.mp ho with rfl | ho
          · exact hop (hall a List.mem_cons_self)
          · exact hwhole (fun b hb => hall b (List.mem_cons_of_mem a hb)) o ho
        · rw [hstep] at hrun
          exact hrun

/-- **From requests to the log.** In every run of a collector, whoever sends what, the evidence of each
request that passed its checks is forked at most once, and of no other request; the spans that the
pipeline is given are those of the forked bodies, in the order of the forks; the ledger holds, after what
it held, the events of the spans that were processed and the markers of gaps, and nothing else; and, where
the spill file is intact, each span is in the log once or in one of the places that the pipeline keeps or
counts spans in. -/
theorem run_logs_requests (B : LedgerBackend σ) (N : Adapters.Normalizer) (cfg : Config) (maxQueue : Int)
    (commitRetries : Nat) (spill : Option SpillBuffer) (drops : Drops Str) (l₀ : Ledger σ)
    (steps : List Http.Step) :
    let s := run B N cfg
      { collector := { pipeline := .init maxQueue commitRetries spill drops, ledger := l₀ } } steps
    let p := s.collector.pipeline
    s.forked.Perm (s.handlers.filterMap (Handler.forked? cfg)) ∧
      (∀ h ∈ s.handlers, h.Checked cfg) ∧
      p.given = (spill.map SpillBuffer.pendingSpans).getD []
        ++ s.forked.flatMap (fun f => cfg.spansOf f.2) ∧
      ∃ spans log, Collector.Logged B N l₀ drops.markers s.collector spans log ∧
        ((∀ b, spill = some b → ∃ q, b.Holds q) → (∀ a ∈ steps, Step.Whole a) →
          p.given.Perm (p.inHand ++ p.pending ++ p.queued ++ p.worker.held
            ++ (Collector.itemsOf log).map Prod.fst ++ p.errors ++ p.dropped)) := by
  intro s p
  have hinit : Forks cfg ((spill.map SpillBuffer.pendingSpans).getD []) ({ collector :=
      { pipeline := .init maxQueue commitRetries spill drops, ledger := l₀ } } : Server σ) :=
    ⟨fun h hh => absurd hh List.not_mem_nil, List.Perm.refl _, (List.append_nil _).symm⟩
  have hforks : Forks cfg _ s := hinit.run steps
  -- the run of the server is one of its collector, where the log is known
  obtain ⟨ops, hwhole, hrun⟩ := @run_collector σ B N cfg { collector :=
    { pipeline := .init maxQueue commitRetries spill drops, ledger := l₀ } } steps
  obtain ⟨spans, log, hlogged⟩ :=
    (@Collector.init_logged σ B N maxQueue commitRetries spill drops l₀).run ops
  rw [← hrun] at hlogged
  refine ⟨hforks.forked, hforks.checked, hforks.given, spans, log, hlogged, fun hspill hsteps => ?_⟩
  -- there no span is lost either
  have hconserved := Collector.run_conserved B N maxQueue commitRetries drops l₀ hspill (hwhole hsteps)
  rw [← hrun] at hconserved
  rw [← hlogged.processed]
  exact hconserved.perm

/-! ## A run with an accepted request and a refused one -/

section Sample

open Collector (faultyBackend faultyLedger smallCollector threePuts threeWork)

/-- A span of a task. -/
def taskSpan (task : String) : Otlp.Span where
  name := lit "chat"
  attributes := [(lit "a2a.task.id", .string (lit task))]

/-- A request to export three spans. -/
def exportRequest : ExportTraceServiceRequest where
  resourceSpans := [{ scopeSpans := [[taskSpan "t1", taskSpan "t2", { name := lit "tool" }]] }]

/-- Its bytes. -/
def exportBody : Bytes :=
  [10, 68, 18, 66, 18, 27, 42, 4, 99, 104, 97, 116, 74, 19, 10, 11, 97, 50, 97, 46, 116, 97, 115, 107,
    46, 105, 100, 18, 4, 10, 2, 116, 49, 18, 27, 42, 4, 99, 104, 97, 116, 74, 19, 10, 11, 97, 50, 97,
    46, 116, 97, 115, 107, 46, 105, 100, 18, 4, 10, 2, 116, 50, 18, 6, 42, 4, 116, 111, 111, 108]

/-- An agent may write evidence, and the requests are forwarded. -/
def sampleConfig : Config where
  parse body := if body = exportBody then .ok exportRequest else .error { kind := .other }
  tokenAuthority := some (TokenAuthority.add {} (lit "t0") ⟨lit "agent-1", [.writeEvidence]⟩)
  forwards := true

/-- A request with the token. -/
def tokenRequest : Request where
  path := lit "/v1/traces/"
  authorization := some (lit "Bearer t0")
  body := .ok exportBody

/-- The same request without it. -/
def plainRequest : Request := { tokenRequest with authorization := none }

/-- None of these steps submits more spans. -/
theorem noSubmit_threeWork : ∀ op ∈ threePuts ++ threeWork, Collector.Op.NoSubmit op := by
  simp only [threePuts, threeWork, List.forall_mem_append, List.forall_mem_cons]
  simp [Collector.Op.NoSubmit, EvidencePipeline.Op.NoSubmit]

/-- The thread of the first request submits its spans, which the pipeline puts into their places, and
the worker commits two of them. -/
def sampleSteps : List Http.Step :=
  [.receive tokenRequest, .receive plainRequest, .check 0, .check 1, .fork 0, .fork 1]
  ++ ((threePuts ++ threeWork).attachWith Collector.Op.NoSubmit noSubmit_threeWork).map
    (fun op => .collect op.1 op.2)
  ++ [.submitted 0, .respond 0 (.ok (200, [])), .respond 1 (.ok (200, []))]

/-- The server before it. -/
def sampleServer : Server (List Bool × List Val) := { collector := smallCollector }

/-- What is read of the run. -/
theorem reads_sampleSteps :
    let s := run faultyBackend Adapters.sampleNormalizer sampleConfig sampleServer sampleSteps
    let p := s.collector.pipeline
    s.forked.map Prod.snd = [exportBody] ∧ p.given = requestToSpans exportRequest ∧
      p.processed = (requestToSpans exportRequest).take 2 ∧
      p.dropped = (requestToSpans exportRequest).drop 2 ∧
      p.drops.markers.map GapMarker.droppedEvents = [1] ∧ s.collector.ledger.store.2.length = 3 := by
  decide +kernel
/-- The appends to the spill file that fail leave nothing in it. -/
theorem whole_sampleSteps : ∀ a ∈ sampleSteps, Step.Whole a := by
  intro a ha
  simp only [sampleSteps, List.mem_append, List.mem_map] at ha
  rcases ha with (hfirst | ⟨op, hop, rfl⟩) | hlast
  · simp only [List.mem_cons, List.not_mem_nil, or_false] at hfirst
    rcases hfirst with rfl | rfl | rfl | rfl | rfl | rfl <;> trivial
  · rw [List.mem_attachWith] at hop
    exact Collector.whole_threeWork op.1 (List.mem_cons_of_mem _ hop)
  · simp only [List.mem_cons, List.not_mem_nil, or_false] at hlast
    rcases hlast with rfl | rfl | rfl <;> trivial

/-- The log of that run: the gap and two of the three spans of the accepted request. -/
theorem run_logs_requests_three :
    let s := run faultyBackend Adapters.sampleNormalizer sampleConfig sampleServer sampleSteps
    let p := s.collector.pipeline
    s.forked.map Prod.snd = [exportBody] ∧ p.given = requestToSpans exportRequest ∧
      ∃ spans log, Collector.Logged faultyBackend Adapters.sampleNormalizer faultyLedger [] s.collector
          spans log ∧ log.length = 3 ∧
        (Collector.itemsOf log).map Prod.fst = (requestToSpans exportRequest).take 2 ∧
        (Collector.markersOf log).map GapMarker.droppedEvents = [1] ∧
        p.given.Perm (p.inHand ++ p.pending ++ p.queued ++ p.worker.held
          ++ (requestToSpans exportRequest).take 2 ++ p.errors
          ++ (requestToSpans exportRequest).drop 2) := by
  have hreads := reads_sampleSteps
  have hrun := run_logs_requests faultyBackend Adapters.sampleNormalizer sampleConfig 1 1
    (some (SpillBuffer.init none none)) (Drops.init true none [] 0) faultyLedger sampleSteps
  rw [← smallCollector, ← sampleServer] at hrun
  dsimp only at hreads hrun ⊢
  generalize run faultyBackend Adapters.sampleNormalizer sampleConfig sampleServer sampleSteps = s
    at hreads hrun ⊢
  obtain ⟨hforked, hgiven, hprocessed, hdropped, hmarkers, hlength⟩ := hreads
  obtain ⟨-, -, -, spans, log, hlogged, hperm⟩ := hrun
  -- what the run reads back, through what the log says of it
  have hitems : (Collector.itemsOf log).map Prod.fst = (requestToSpans exportRequest).take 2 :=
    hlogged.processed.symm.trans hprocessed
  have hholds : ∀ b, some (SpillBuffer.init none none) = some b → ∃ q, b.Holds q := by
    intro b hb
    obtain rfl := Option.some.inj hb
    exact ⟨[], SpillBuffer.init_holds⟩
  have hplaces := hperm hholds whole_sampleSteps
  rw [hitems, hdropped] at hplaces
  refine ⟨hforked, hgiven, spans, log, hlogged, ?_, hitems, ?_, hplaces⟩
  · have hrecords : s.collector.ledger.store.2 = log.map Prod.snd := hlogged.records
    rw [← hlength, hrecords, List.length_map]
  · have hdeclared : s.collector.pipeline.drops.markers = Collector.markersOf log := hlogged.markers
    rw [← hdeclared, hmarkers]

end Sample

end Server

end OpenWright.Http
