import OpenWright.Adapters.Spans
import OpenWright.Lineage

/-! # Normalization in the pipeline

`_normalize` turns a span into an event: the GenAI conventions, the precedence of `langfuse.*`, and the
A2A provenance of the tasks that the pipeline has seen so far.

* **`contextId_eq_iff`** — the context of the session stays exactly if the span names no task.
* **`stableRoots_iff`** — the roots of the tasks are stable exactly if every span of a task with a
  parent names it. -/

namespace OpenWright.Adapters

open Python Python.Val

/-! ## The step -/

/-- What a pipeline normalizes with. -/
structure Normalizer where
  interpreter : Interpreter
  agentId : Option Str := none
  pricing : Items := []

/-- The keys and the bound values of what the attributes are looked up in. -/
def spanAttributes : Val → Except PyErr Items
  | .dict attrs => .ok attrs
  -- falsy, or `span_to_event` has raised: these have no keys, or nothing to iterate over
  | .str _ => .error { kind := .attributeError }
  | .list _ => .error { kind := .attributeError }
  | .tuple _ => .error { kind := .attributeError }
  | _ => .error { kind := .typeError }

/-- What is known after a span with this provenance. -/
def noteProvenance (known : Known) (provenance : Provenance) : Known :=
  match provenance.taskId.filter (· ≠ []) with
  | some task => (task, provenance) :: known
  | none => known

/-- The timestamp of a span: when it started, or the current time. -/
def spanTimestamp (span : SpanData) (clock : Except PyErr Str) : Except PyErr Str :=
  if span.startTimeUnixNano.truthy then toRfc3339 (.ofVal span.startTimeUnixNano) else clock

namespace Normalizer

variable (N : Normalizer)

/-- `_normalize`, with what is known before and after it, and the text of the current time. -/
def normalize (known : Known) (span : SpanData) (clock : Except PyErr Str) :
    Except PyErr (Event × Known) := do
  let ts ← spanTimestamp span clock
  let event ← spanToEvent N.interpreter N.agentId N.pricing span ts
  let attrs ← spanAttributes span.attributes
  -- an observation goes before what the attributes say otherwise
  let event ← applyLangfusePrecedence N.interpreter event attrs
  let provenance ← provenanceFromAttributes N.interpreter attrs known
  -- only a span with a task is noted in the table
  return match provenance with
    | some provenance => ({ event with provenance }, noteProvenance known provenance)
    | none => (event, known)

/-- The spans that are normalized, with their events, out of spans that come one after another, each
with the time that the clock shows. -/
def normalizeAll (known : Known) : List (SpanData × Except PyErr Str) → List (SpanData × Event)
  | [] => []
  | (span, clock) :: spans =>
    match N.normalize known span clock with
    | .ok (event, known) => (span, event) :: normalizeAll known spans
    | .error _ => normalizeAll known spans

end Normalizer

/-! ## The context of an event -/

/-- The session of a span: its `langfuse.session.id`, and else its `gen_ai.conversation.id`. -/
def SessionIs (I : Interpreter) (attrs : Items) (session : Str) : Prop :=
  if (attr attrs "langfuse.session.id").truthy then
    I.str (attr attrs "langfuse.session.id") = .ok session
  else attr attrs "gen_ai.conversation.id" = .str session ∧ session ≠ []

/-- The parts of a normalization. -/
theorem normalize_eq_ok {N : Normalizer} {known known' : Known} {span : SpanData}
    {clock : Except PyErr Str} {attrs : Items} {event : Event}
    (hattrs : span.attributes = .dict attrs)
    (h : N.normalize known span clock = .ok (event, known')) :
    ∃ ts event₀ event₁ provenance, spanToEvent N.interpreter N.agentId N.pricing span ts = .ok event₀ ∧
      applyLangfusePrecedence N.interpreter event₀ attrs = .ok event₁ ∧
      provenanceFromAttributes N.interpreter attrs known = .ok provenance ∧
      event.provenance = provenance.getD event₁.provenance ∧
      known' = (provenance.map (noteProvenance known)).getD known := by
  -- step by step, as `_normalize` goes
  rw [Normalizer.normalize, hattrs] at h
  obtain ⟨ts, -, h⟩ := bind_eq_ok.mp h
  obtain ⟨event₀, h₀, h⟩ := bind_eq_ok.mp h
  obtain ⟨attrs', hattrs', h⟩ := bind_eq_ok.mp h
  obtain rfl := Except.ok.inj hattrs'
  obtain ⟨event₁, h₁, h⟩ := bind_eq_ok.mp h
  obtain ⟨provenance, hprovenance, h⟩ := bind_eq_ok.mp h
  refine ⟨ts, event₀, event₁, provenance, h₀, h₁, hprovenance, ?_⟩
  have heq := pure_eq_ok.mp h
  cases provenance with
  | none =>
      obtain ⟨rfl, rfl⟩ := Prod.mk.inj heq
      exact ⟨rfl, rfl⟩
  | some provenance =>
      obtain ⟨rfl, rfl⟩ := Prod.mk.inj heq
      exact ⟨rfl, rfl⟩

/-- Before the A2A identifiers are looked at, the context is the session. -/
theorem contextId_of_session {I : Interpreter} {agentId : Option Str} {pricing : Items}
    {span : SpanData} {ts session : Str} {attrs : Items} {event₀ event₁ : Event}
    (hattrs : span.attributes = .dict attrs) (hsession : SessionIs I attrs session)
    (h₀ : spanToEvent I agentId pricing span ts = .ok event₀)
    (h₁ : applyLangfusePrecedence I event₀ attrs = .ok event₁) :
    event₁.provenance.contextId = some session := by
  rw [SessionIs] at hsession
  rcases provenance_applyLangfusePrecedence h₁ with ⟨hfalsy, hsame⟩ | ⟨c, hstr, htruthy, hset⟩
  · rw [if_neg (by simp [hfalsy])] at hsession
    obtain ⟨hconversation, hne⟩ := hsession
    obtain ⟨contextId, hprovenance, hcontext⟩ := provenance_spanToEvent hattrs h₀
    have htrue : (Val.str session).truthy = true := by simpa [truthy] using hne
    rw [hconversation, if_pos htrue] at hcontext
    rw [hsame, hprovenance]
    exact (Except.ok.inj hcontext).symm
  · rw [if_pos htruthy, hstr, Except.ok.injEq] at hsession
    rw [hset, hsession]

/-- **When the context of the session stays**: a span without `a2a.context.id` gives an event whose
context is its session exactly if it has no `a2a.task.id`. -/
theorem contextId_eq_iff (N : Normalizer) (known known' : Known) (span : SpanData)
    (clock : Except PyErr Str) (attrs : Items) (session : Str) (event : Event)
    (hattrs : span.attributes = .dict attrs) (hsession : SessionIs N.interpreter attrs session)
    (hcontext : (attr attrs "a2a.context.id").truthy = false)
    (h : N.normalize known span clock = .ok (event, known')) :
    event.provenance.contextId = some session ↔ (attr attrs "a2a.task.id").truthy = false := by
  obtain ⟨ts, event₀, event₁, provenance, h₀, h₁, hprovenance, hevent, -⟩ := normalize_eq_ok hattrs h
  obtain ⟨o, ho, hprovenance⟩ := bind_eq_ok.mp hprovenance
  rw [← signals_eq_none_iff ho, hevent]
  cases o with
  | none =>
      refine iff_of_true ?_ rfl
      rw [← pure_eq_ok.mp hprovenance]
      exact contextId_of_session hattrs hsession h₀ h₁
  | some s =>
      refine iff_of_false (fun hsame => ?_) (Option.some_ne_none s)
      rw [← pure_eq_ok.mp hprovenance] at hsame
      exact absurd ((signals_contextId ho hcontext).symm.trans hsame) (Option.some_ne_none session).symm

/-- A pipeline without an agent of its own. -/
def sampleNormalizer : Normalizer := { interpreter := sampleInterpreter }

/-- A span with these attributes. -/
def sampleSpan (attrs : Items) : SpanData := { name := .str (lit "chat"), attributes := .dict attrs }

/-- A session, and no task. -/
def sessionAttrs : Items := [(lit "langfuse.session.id", .str (lit "s1"))]

/-- A session with a task. -/
def taskAttrs : Items := sessionAttrs ++ [(lit "a2a.task.id", .str (lit "t1"))]

/-- The time that the clock shows. -/
def sampleClock : Except PyErr Str := .ok (lit "2026-01-01T00:00:00.000000000Z")

/-- A span of a session keeps its session. -/
theorem contextId_eq_iff_chat : ∃ event known',
    sampleNormalizer.normalize [] (sampleSpan sessionAttrs) sampleClock = .ok (event, known') ∧
    (event.provenance.contextId = some (lit "s1") ↔
      (attr sessionAttrs "a2a.task.id").truthy = false) := by
  obtain ⟨⟨event, known'⟩, h⟩ : ∃ r,
      sampleNormalizer.normalize [] (sampleSpan sessionAttrs) sampleClock = .ok r := ⟨_, rfl⟩
  exact ⟨event, known', h, contextId_eq_iff sampleNormalizer [] known' (sampleSpan sessionAttrs)
    sampleClock sessionAttrs (lit "s1") event rfl rfl rfl h⟩

/-- **The context of a task's session is lost**: what `_normalize` returns for a span with a session
and a task has no context. -/
theorem contextId_lost : ¬∀ (N : Normalizer) (known known' : Known) (span : SpanData)
    (clock : Except PyErr Str) (attrs : Items) (session : Str) (event : Event),
    span.attributes = .dict attrs → SessionIs N.interpreter attrs session →
    attrs.lookup (lit "a2a.context.id") = none →
    N.normalize known span clock = .ok (event, known') →
    event.provenance.contextId = some session := by
  intro hclaim
  obtain ⟨⟨event, known'⟩, h, hnone⟩ : ∃ r,
      sampleNormalizer.normalize [] (sampleSpan taskAttrs) sampleClock = .ok r ∧
        r.1.provenance.contextId = none := ⟨_, rfl, rfl⟩
  have hsame := hclaim sampleNormalizer [] known' (sampleSpan taskAttrs) sampleClock taskAttrs
    (lit "s1") event rfl rfl rfl h
  rw [hnone] at hsame
  cases hsame

/-! ## The roots of tasks -/

section Roots

variable (I : Interpreter)

/-- What a normalized span says of its task, if it has one. -/
def signalsOf (item : SpanData × Event) : Option Signals :=
  match item.1.attributes with
  | .dict attrs => (signals I attrs).toOption.join
  | _ => none

/-- The task of a normalized span. -/
def taskOf (item : SpanData × Event) : Option Str := (signalsOf I item).map (·.taskId)

/-- The tasks that it references. -/
def referencesOf (item : SpanData × Event) : List Str :=
  ((signalsOf I item).map (·.referenceTaskIds)).getD []

/-- The first of them. -/
def firstReference (item : SpanData × Event) : Option Str := (referencesOf I item).head?

/-- Every referenced task has an earlier span. -/
def ReferencesSeen (items : List (SpanData × Event)) : Prop :=
  ∀ pre item post, items = pre ++ item :: post → ∀ r ∈ referencesOf I item,
    ∃ earlier ∈ pre, taskOf I earlier = some r

/-- The first span of a task has its references; the later ones have the same first reference or
none. -/
def ReferencesFirst (items : List (SpanData × Event)) : Prop :=
  ∀ item ∈ items, ∀ t, taskOf I item = some t → firstReference I item = none ∨
    Lineage.firstParent (taskOf I) (firstReference I) items t = some (firstReference I item)

/-- Every span of a task has the first reference of the task. -/
def ReferencesRepeated (items : List (SpanData × Event)) : Prop :=
  Lineage.Repeats (taskOf I) (firstReference I) items

/-- The root that the first span of a task is given is given to its later spans, and to the later spans
of the tasks that have it as their first reference. -/
def StableRoots (items : List (SpanData × Event)) : Prop :=
  ∀ pre a mid b post, items = pre ++ a :: (mid ++ b :: post) → ∀ t, taskOf I a = some t →
    (∀ c ∈ pre, taskOf I c ≠ some t) → ∀ s, taskOf I b = some s →
    (s = t ∨ Lineage.firstParent (taskOf I) (firstReference I) items s = some (some t)) →
    b.2.provenance.rootTaskId = a.2.provenance.rootTaskId

/-- What is known after a normalized span. -/
def noteItem (known : Known) (item : SpanData × Event) : Known :=
  if (signalsOf I item).isSome then noteProvenance known item.2.provenance else known

end Roots

section Runs

variable {N : Normalizer} {known known' : Known} {item : SpanData × Event} {clock : Except PyErr Str}
  {t : Str}

/-- A span that is normalized has a dictionary of attributes. -/
theorem exists_attributes_of_normalize
    (h : N.normalize known item.1 clock = .ok (item.2, known')) :
    ∃ attrs, item.1.attributes = .dict attrs := by
  rw [Normalizer.normalize] at h
  obtain ⟨ts, -, h⟩ := bind_eq_ok.mp h
  obtain ⟨event₀, -, h⟩ := bind_eq_ok.mp h
  obtain ⟨attrs, hattrs, -⟩ := bind_eq_ok.mp h
  cases hval : item.1.attributes with
  | dict kvs => exact ⟨kvs, rfl⟩
  | _ =>
      rw [hval] at hattrs
      cases hattrs

/-- What a normalized span says is what its provenance is reconstructed from. -/
theorem normalize_signals (h : N.normalize known item.1 clock = .ok (item.2, known')) :
    known' = noteItem N.interpreter known item ∧ ∀ s, signalsOf N.interpreter item = some s →
      s.taskId ≠ [] ∧ item.2.provenance
        = reconstructProvenance (some s.taskId) s.contextId s.referenceTaskIds known := by
  obtain ⟨attrs, hattrs⟩ := exists_attributes_of_normalize h
  obtain ⟨ts, event₀, event₁, provenance, -, -, hprovenance, hevent, hknown⟩ :=
    normalize_eq_ok hattrs h
  obtain ⟨o, ho, hprovenance⟩ := bind_eq_ok.mp hprovenance
  have hsignals : signalsOf N.interpreter item = o := by
    simp only [signalsOf, hattrs]
    rw [ho]
    rfl
  obtain rfl := pure_eq_ok.mp hprovenance
  rw [noteItem, hsignals]
  cases o with
  | none => exact ⟨hknown, fun s hs => nomatch hs⟩
  | some s =>
      refine ⟨by rw [hknown, hevent]; rfl, fun s' hs' => ?_⟩
      obtain rfl := Option.some.inj hs'
      exact ⟨signals_taskId_ne_nil ho, hevent⟩

/-- Each normalized span is normalized with what is known after those before it. -/
theorem exists_normalize {spans : List (SpanData × Except PyErr Str)}
    {pre post : List (SpanData × Event)}
    (h : N.normalizeAll known spans = pre ++ item :: post) : ∃ clock known',
      N.normalize (pre.foldl (noteItem N.interpreter) known) item.1 clock = .ok (item.2, known') := by
  induction spans generalizing known pre with
  | nil => exact absurd h (by simp [Normalizer.normalizeAll])
  | cons input spans ih =>
      obtain ⟨span, clock⟩ := input
      rw [Normalizer.normalizeAll] at h
      split at h
      · rename_i event known' hnormalize
        cases pre with
        | nil =>
            obtain ⟨rfl, -⟩ := List.cons.inj h
            exact ⟨clock, known', hnormalize⟩
        | cons c pre =>
            obtain ⟨rfl, htail⟩ := List.cons.inj h
            obtain ⟨rfl, -⟩ := @normalize_signals N known known' (span, event) clock hnormalize
            rw [List.foldl_cons]
            exact ih htail
      · exact ih h

/-- **The root that a span is given** is that of the parent, as far as it is known. -/
theorem rootTaskId_eq {f : Str → Option Str} (hknown : ∀ t, knownRoot known t = f t)
    (h : N.normalize known item.1 clock = .ok (item.2, known')) (ht : taskOf N.interpreter item = some t)
    (hparent : ∀ p, firstReference N.interpreter item = some p → p ≠ []) :
    item.2.provenance.rootTaskId
        = Lineage.rootOf (taskOf N.interpreter) (firstReference N.interpreter) f item ∧
      item.2.provenance.rootTaskId ≠ some [] ∧ item.2.provenance.taskId = some t ∧ t ≠ [] := by
  obtain ⟨s, hs, rfl⟩ := Option.map_eq_some_iff.mp ht
  obtain ⟨hne, hprovenance⟩ := (normalize_signals h).2 s hs
  have hfirst : firstReference N.interpreter item = s.referenceTaskIds.head? := by
    rw [firstReference, referencesOf, hs]
    rfl
  rw [hprovenance, Lineage.rootOf, ht, hfirst]
  rw [hfirst] at hparent
  -- without a reference the task is its own root
  cases hp : s.referenceTaskIds.head? with
  | none =>
      have hroot : (reconstructProvenance (some s.taskId) s.contextId s.referenceTaskIds
          known).rootTaskId = some s.taskId := by
        rw [reconstructProvenance, hp]
        rfl
      exact ⟨hroot, by rw [hroot]; simpa using hne, rfl, hne⟩
  -- with one it takes over the root of the first, if that is known and not empty
  | some p =>
      have hp' := hparent p hp
      have hroot : (reconstructProvenance (some s.taskId) s.contextId s.referenceTaskIds
          known).rootTaskId = some ((knownRoot known p).getD p) := by
        have htrue : (some p).filter (· ≠ []) = some p := by simpa [Option.filter] using hp'
        simp only [reconstructProvenance, hp, htrue]
      refine ⟨by rw [hroot, hknown]; rfl, ?_, rfl, hne⟩
      rw [hroot]
      cases hr : knownRoot known p with
      | none => simpa using hp'
      | some r =>
          rw [knownRoot, Option.filter_eq_some_iff] at hr
          simpa using of_decide_eq_true hr.2

/-- Referenced tasks are not empty. -/
theorem firstReference_ne_nil {spans : List (SpanData × Except PyErr Str)}
    {pre post : List (SpanData × Event)} (hitems : N.normalizeAll [] spans = pre ++ item :: post)
    (hseen : ReferencesSeen N.interpreter (pre ++ item :: post)) {p : Str}
    (hp : firstReference N.interpreter item = some p) : p ≠ [] := by
  obtain ⟨earlier, hearlier, hp'⟩ := hseen pre item post rfl p (List.mem_of_mem_head? hp)
  obtain ⟨before, after, rfl⟩ := List.append_of_mem hearlier
  rw [List.append_assoc] at hitems
  obtain ⟨clock', known'', hnormalize⟩ := exists_normalize hitems
  obtain ⟨s', hs', rfl⟩ := Option.map_eq_some_iff.mp hp'
  exact ((normalize_signals hnormalize).2 s' hs').1

/-- **The table of the pipeline** knows the roots that are noted of the tasks. -/
theorem knownRoot_foldl {items : List (SpanData × Event)} {spans : List (SpanData × Except PyErr Str)}
    (hitems : N.normalizeAll [] spans = items) (hseen : ReferencesSeen N.interpreter items)
    (pre : List (SpanData × Event)) (hpre : pre <+: items) (t : Str) :
    knownRoot (pre.foldl (noteItem N.interpreter) []) t
      = Lineage.knownAfter (taskOf N.interpreter) (firstReference N.interpreter) pre t := by
  -- induction along the spans: the table knows what was noted before each
  induction pre using List.reverseRecOn generalizing t with
  | nil => rfl
  | append_singleton pre item ih =>
      obtain ⟨post, hpost⟩ := hpre
      have hsplit : items = pre ++ item :: post := by rw [← hpost]; simp
      have ih := ih ⟨item :: post, hsplit.symm⟩
      obtain ⟨clock, known', hnormalize⟩ := exists_normalize (hitems.trans hsplit)
      rw [List.foldl_concat, Lineage.knownAfter_concat, noteItem]
      cases hs : signalsOf N.interpreter item with
      -- a span without a task is not noted
      | none =>
          have htask : taskOf N.interpreter item = none := by rw [taskOf, hs]; rfl
          rw [Lineage.note_of_none htask]
          exact ih t
      | some s =>
          have htask : taskOf N.interpreter item = some s.taskId := by rw [taskOf, hs]; rfl
          obtain ⟨hroot, hne, htaskId, hne'⟩ := rootTaskId_eq ih hnormalize htask fun p hp =>
            firstReference_ne_nil (hitems.trans hsplit) (hsplit ▸ hseen) hp
          have htrue : (some s.taskId).filter (· ≠ []) = some s.taskId := by
            simpa [Option.filter] using hne'
          rw [Lineage.note_of_some htask, ← hroot]
          simp only [Option.isSome_some, if_true, noteProvenance, htaskId, htrue]
          -- the task itself is noted with its root, and any other task keeps its own
          by_cases heq : t = s.taskId
          · rw [heq, Function.update_self, knownRoot, List.lookup_cons_self, Option.bind_some]
            cases hr : item.2.provenance.rootTaskId with
            | none => rfl
            | some r =>
                have hr' : r ≠ [] := fun hnil => hne (by rw [hr, hnil])
                simpa [Option.filter] using hr'
          · rw [Function.update_of_ne heq, ← ih t, knownRoot, List.lookup_cons, beq_false_of_ne heq,
              knownRoot]

/-- The root that a span is given follows from the spans before it. -/
theorem rootTaskId_of_split {spans : List (SpanData × Except PyErr Str)}
    {pre post : List (SpanData × Event)} (hitems : N.normalizeAll [] spans = pre ++ item :: post)
    (hseen : ReferencesSeen N.interpreter (pre ++ item :: post))
    (ht : taskOf N.interpreter item = some t) : item.2.provenance.rootTaskId
      = Lineage.rootOf (taskOf N.interpreter) (firstReference N.interpreter)
        (Lineage.knownAfter (taskOf N.interpreter) (firstReference N.interpreter) pre) item := by
  obtain ⟨clock, known', hnormalize⟩ := exists_normalize hitems
  exact (rootTaskId_eq (knownRoot_foldl hitems hseen pre (List.prefix_append pre _)) hnormalize ht
    fun p hp => firstReference_ne_nil hitems hseen hp).1

/-- The roots of the events are those of the chains. -/
theorem stableRoots_iff_stable {spans : List (SpanData × Except PyErr Str)}
    (hseen : ReferencesSeen N.interpreter (N.normalizeAll [] spans)) :
    StableRoots N.interpreter (N.normalizeAll [] spans)
      ↔ Lineage.Stable (taskOf N.interpreter) (firstReference N.interpreter)
          (N.normalizeAll [] spans) := by
  constructor
  · intro h pre a mid b post hsplit t ht hbefore s hs hst
    have hsplit' : N.normalizeAll [] spans = (pre ++ a :: mid) ++ b :: post := by
      rw [hsplit, List.append_assoc, List.cons_append]
    rw [← rootTaskId_of_split hsplit (hsplit ▸ hseen) ht,
      ← rootTaskId_of_split hsplit' (hsplit' ▸ hseen) hs]
    exact h pre a mid b post hsplit t ht hbefore s hs hst
  · intro h pre a mid b post hsplit t ht hbefore s hs hst
    have hsplit' : N.normalizeAll [] spans = (pre ++ a :: mid) ++ b :: post := by
      rw [hsplit, List.append_assoc, List.cons_append]
    rw [rootTaskId_of_split hsplit (hsplit ▸ hseen) ht,
      rootTaskId_of_split hsplit' (hsplit' ▸ hseen) hs]
    exact h pre a mid b post hsplit t ht hbefore s hs hst

end Runs

/-- **When the roots of tasks are stable**: in every run of one pipeline in which every referenced task
has an earlier span and the first span of a task has its references, exactly if the later spans of a
task with a first reference have it too. -/
theorem stableRoots_iff (N : Normalizer) (spans : List (SpanData × Except PyErr Str))
    (hseen : ReferencesSeen N.interpreter (N.normalizeAll [] spans))
    (hfirst : ReferencesFirst N.interpreter (N.normalizeAll [] spans)) :
    StableRoots N.interpreter (N.normalizeAll [] spans)
      ↔ ReferencesRepeated N.interpreter (N.normalizeAll [] spans) := by
  rw [stableRoots_iff_stable hseen]
  refine Lineage.stable_iff (fun pre item post hsplit t _ p hp => ?_) hfirst
  exact hseen pre item post hsplit p (List.mem_of_mem_head? hp)

/-- References are seen if, for each position, those there are among the tasks before. -/
theorem referencesSeen_of_forall {I : Interpreter} {items : List (SpanData × Event)}
    (h : ∀ n < items.length, ∀ r ∈ ((items.map (referencesOf I))[n]?).getD [],
      some r ∈ (items.take n).map (taskOf I)) : ReferencesSeen I items := by
  rintro pre item post rfl r hr
  have hmem := h pre.length (by simp) r (by simpa using hr)
  rw [List.take_left, List.mem_map] at hmem
  exact hmem

/-- Spans of two tasks, the second one with the first one as its reference, and one more span. -/
def chainSpans (last : Items) : List (SpanData × Except PyErr Str) :=
  [(sampleSpan [(lit "a2a.task.id", .str (lit "t1"))], sampleClock),
    (sampleSpan [(lit "a2a.task.id", .str (lit "t2")),
      (lit "a2a.reference_task_ids", .list [.str (lit "t1")])], sampleClock),
    (sampleSpan ((lit "a2a.task.id", .str (lit "t2")) :: last), sampleClock)]

/-- One more span with the reference has the root of the chain. -/
theorem stableRoots_iff_chain : StableRoots sampleInterpreter (sampleNormalizer.normalizeAll []
    (chainSpans [(lit "a2a.reference_task_ids", .list [.str (lit "t1")])])) :=
  (stableRoots_iff sampleNormalizer _ (referencesSeen_of_forall (by decide +kernel))
    (show ∀ item ∈ _, ∀ t ∈ taskOf _ item, _ from by decide +kernel)).mpr
    (show ∀ item ∈ _, ∀ t ∈ taskOf _ item, _ from by decide +kernel)

/-- **Roots drift**: a later span without the reference is its own root. -/
theorem stableRoots_drifts : ¬∀ (N : Normalizer) (spans : List (SpanData × Except PyErr Str)),
    ReferencesSeen N.interpreter (N.normalizeAll [] spans) →
    ReferencesFirst N.interpreter (N.normalizeAll [] spans) →
    StableRoots N.interpreter (N.normalizeAll [] spans) := by
  intro hclaim
  have hstable := hclaim sampleNormalizer (chainSpans [])
    (referencesSeen_of_forall (by decide +kernel))
    (show ∀ item ∈ _, ∀ t ∈ taskOf _ item, _ from by decide +kernel)
  obtain ⟨item₁, item₂, item₃, hitems, htasks, hroots⟩ : ∃ item₁ item₂ item₃,
      sampleNormalizer.normalizeAll [] (chainSpans []) = [item₁, item₂, item₃] ∧
      [item₁, item₂, item₃].map (taskOf sampleInterpreter)
        = [some (lit "t1"), some (lit "t2"), some (lit "t2")] ∧
      [item₁, item₂, item₃].map (·.2.provenance.rootTaskId)
        = [some (lit "t1"), some (lit "t1"), some (lit "t2")] := ⟨_, _, _, rfl, rfl, rfl⟩
  simp only [List.map_cons, List.map_nil, List.cons.injEq, and_true] at htasks hroots
  obtain ⟨htask₁, htask₂, htask₃⟩ := htasks
  have hsame := hstable [item₁] item₂ [] item₃ [] hitems (lit "t2") htask₂
    (by simpa [sampleNormalizer, htask₁] using (by decide : lit "t1" ≠ lit "t2")) (lit "t2") htask₃
    (.inl rfl)
  rw [hroots.2.1, hroots.2.2] at hsame
  exact absurd hsame (by decide)

end OpenWright.Adapters
