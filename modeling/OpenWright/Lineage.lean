import Mathlib.Data.List.Infix
import Mathlib.Tactic.Common

/-! # Roots of chains, found in passing

Items go by one after another. An item may be of a task, and may name a parent of the task. The root
of an item is the root that is known of its parent, the parent itself where none is known, and the
task where there is no parent; it is noted as what is known of the task from then on.

* **`stable_iff`** — where parents go by before they are named, every item of a task and of the tasks
  with the task as parent gets the root of its first item, exactly if no item leaves the parent out. -/

namespace OpenWright.Lineage

universe u v

variable {α : Type u} {ι : Type v} (task parent : α → Option ι)

/-- The root of an item, where it has a task. -/
def rootOf (known : ι → Option ι) (a : α) : Option ι :=
  (task a).map fun t =>
    match parent a with
    | some p => (known p).getD p
    | none => t

/-- Parents go by before they are named. -/
def Anchored (items : List α) : Prop :=
  ∀ pre a post, items = pre ++ a :: post → ∀ t, task a = some t → ∀ p, parent a = some p →
    ∃ b ∈ pre, task b = some p

variable [DecidableEq ι]

/-- What is known after an item. -/
def note (known : ι → Option ι) (a : α) : ι → Option ι :=
  match task a with
  | some t => Function.update known t (rootOf task parent known a)
  | none => known

/-- What is known after some items. -/
def knownAfter (items : List α) : ι → Option ι := items.foldl (note task parent) fun _ => none

/-- The parent that the first item of a task names, if it names one. -/
def firstParent (items : List α) (t : ι) : Option (Option ι) :=
  (items.find? fun a => task a = some t).map parent

/-- Every item names the parent that the first item of its task names. -/
def Repeats (items : List α) : Prop :=
  ∀ a ∈ items, ∀ t, task a = some t → firstParent task parent items t = some (parent a)

/-- Later items of a task, and of tasks with this task as their parent, get the root of its first
item. -/
def Stable (items : List α) : Prop :=
  ∀ pre a mid b post, items = pre ++ a :: (mid ++ b :: post) → ∀ t, task a = some t →
    (∀ c ∈ pre, task c ≠ some t) → ∀ s, task b = some s →
    (s = t ∨ firstParent task parent items s = some (some t)) →
    rootOf task parent (knownAfter task parent (pre ++ a :: mid)) b
      = rootOf task parent (knownAfter task parent pre) a

variable {task parent} {items : List α} {a : α} {s t p r : ι}

/-! ## First items -/

/-- A task has no first parent where it does not occur. -/
theorem firstParent_eq_none :
    firstParent task parent items t = none ↔ ∀ a ∈ items, task a ≠ some t := by
  simp [firstParent]

/-- It has one where it does. -/
theorem firstParent_ne_none :
    firstParent task parent items t ≠ none ↔ ∃ a ∈ items, task a = some t := by
  simp [firstParent_eq_none]

/-- A task is as the first of its items says. -/
theorem firstParent_append (items more : List α) (t : ι) :
    firstParent task parent (items ++ more) t
      = (firstParent task parent items t).or (firstParent task parent more t) := by
  rw [firstParent, List.find?_append, firstParent, firstParent]
  cases items.find? fun a => decide (task a = some t) with
  | none => rfl
  | some a => rfl

/-- The first parent stays the first one. -/
theorem firstParent_append_of_ne_none (h : firstParent task parent items t ≠ none)
    (more : List α) :
    firstParent task parent (items ++ more) t = firstParent task parent items t := by
  rw [firstParent_append]
  cases hfirst : firstParent task parent items t with
  | none => exact absurd hfirst h
  | some q => rfl

/-- The first parent in a list of one item. -/
theorem firstParent_singleton (a : α) (t : ι) :
    firstParent task parent [a] t = if task a = some t then some (parent a) else none := by
  by_cases h : task a = some t
  · simp [firstParent, h]
  · simp [firstParent, h]

/-- The first item of a task says what its parent is. -/
theorem firstParent_concat_fresh (hfresh : firstParent task parent items t = none)
    (ht : task a = some t) : firstParent task parent (items ++ [a])
      = Function.update (firstParent task parent items) t (some (parent a)) := by
  funext s
  rw [firstParent_append, firstParent_singleton, ht]
  by_cases h : s = t
  · rw [h, hfresh, if_pos rfl, Function.update_self, Option.none_or]
  · rw [if_neg (by simpa using Ne.symm h), Function.update_of_ne h, Option.or_none]

/-- Later items have no say. -/
theorem firstParent_concat_seen (h : ∀ t, task a = some t → firstParent task parent items t ≠ none) :
    firstParent task parent (items ++ [a]) = firstParent task parent items := by
  funext s
  by_cases hs : task a = some s
  · exact firstParent_append_of_ne_none (h s hs) [a]
  · rw [firstParent_append, firstParent_singleton, if_neg hs, Option.or_none]

/-! ## What is known -/

/-- One more item is noted after the others. -/
@[simp] theorem knownAfter_concat (items : List α) (a : α) :
    knownAfter task parent (items ++ [a])
      = note task parent (knownAfter task parent items) a := by
  rw [knownAfter, List.foldl_concat, ← knownAfter]

/-- An item without a task is not noted. -/
theorem note_of_none (h : task a = none) (known : ι → Option ι) :
    note task parent known a = known := by
  rw [note, h]

/-- A task is noted with its root. -/
theorem note_of_some (h : task a = some t) (known : ι → Option ι) :
    note task parent known a = Function.update known t (rootOf task parent known a) := by
  rw [note, h]

omit [DecidableEq ι] in

/-- A task without a parent is its own root. -/
theorem rootOf_orphan (ht : task a = some t) (h : parent a = none) (known : ι → Option ι) :
    rootOf task parent known a = some t := by
  rw [rootOf, ht, h]
  rfl

omit [DecidableEq ι] in
/-- The root of a child is the root of its parent. -/
theorem rootOf_child {known : ι → Option ι} (ht : task a = some t) (h : parent a = some p)
    (hp : known p = some r) : rootOf task parent known a = some r := by
  simp only [rootOf, ht, h, hp, Option.map_some, Option.getD_some]

/-- What is known, and what the first items say: a task without a parent is its own root, a task with
a parent has the root of the parent, and a root has no parent. -/
structure Inv (first : ι → Option (Option ι)) (known : ι → Option ι) : Prop where
  orphan : ∀ t, first t = some none → known t = some t
  child : ∀ t p, first t = some (some p) → first p ≠ none ∧ known t = known p
  root : ∀ t, first t ≠ none → ∃ r, known t = some r ∧ first r = some none

variable {first : ι → Option (Option ι)} {known : ι → Option ι}

omit [DecidableEq ι] in
/-- An item that agrees with the first item of its task gets the root that is known of the task. -/
theorem Inv.rootOf_eq (h : Inv first known) (ht : task a = some t)
    (hfirst : first t = some (parent a)) : rootOf task parent known a = known t := by
  cases hparent : parent a with
  | none =>
      rw [hparent] at hfirst
      rw [rootOf_orphan ht hparent, h.orphan t hfirst]
  | some p =>
      rw [hparent] at hfirst
      obtain ⟨hp, heq⟩ := h.child t p hfirst
      obtain ⟨r, hr, -⟩ := h.root p hp
      rw [rootOf_child ht hparent hr, heq, hr]

/-- **Such an item changes nothing.** -/
theorem Inv.note_eq (h : Inv first known) (ht : task a = some t)
    (hfirst : first t = some (parent a)) : note task parent known a = known := by
  rw [note_of_some ht, h.rootOf_eq ht hfirst, Function.update_eq_self]

/-- The first item of a task, after the parent that it names. -/
theorem Inv.note_fresh (h : Inv first known) (ht : task a = some t) (hfresh : first t = none)
    (hparent : ∀ p, parent a = some p → first p ≠ none) :
    Inv (Function.update first t (some (parent a))) (note task parent known a) := by
  have hother : ∀ s, first s ≠ none → s ≠ t := fun s hs heq => hs (heq ▸ hfresh)
  -- the root of the task is the task itself or a root that is known
  obtain ⟨r, hr, hroot⟩ : ∃ r, rootOf task parent known a = some r ∧
      (parent a = none → r = t) ∧ ∀ p, parent a = some p → known p = some r ∧ first r = some none := by
    cases hp : parent a with
    | none => exact ⟨t, rootOf_orphan ht hp known, fun _ => rfl, fun p h => nomatch h⟩
    | some p =>
        obtain ⟨r, hr, hfirst⟩ := h.root p (hparent p hp)
        refine ⟨r, rootOf_child ht hp hr, fun h => (nomatch h), fun q hq => ?_⟩
        rw [← Option.some.inj hq]
        exact ⟨hr, hfirst⟩
  rw [note_of_some ht, hr]
  refine ⟨fun s hs => ?_, fun s q hs => ?_, fun s hs => ?_⟩
  · by_cases heq : s = t
    · subst heq
      rw [Function.update_self, Option.some.injEq] at hs
      rw [Function.update_self, hroot.1 hs]
    · rw [Function.update_of_ne heq] at hs ⊢
      exact h.orphan s hs
  · by_cases heq : s = t
    · subst heq
      rw [Function.update_self, Option.some.injEq] at hs
      have hq := hparent q hs
      rw [Function.update_self, Function.update_of_ne (hother q hq),
        Function.update_of_ne (hother q hq), (hroot.2 q hs).1]
      exact ⟨hq, rfl⟩
    · rw [Function.update_of_ne heq] at hs
      obtain ⟨hq, hknown⟩ := h.child s q hs
      rw [Function.update_of_ne heq, Function.update_of_ne (hother q hq),
        Function.update_of_ne (hother q hq)]
      exact ⟨hq, hknown⟩
  · by_cases heq : s = t
    · subst heq
      refine ⟨r, Function.update_self .., ?_⟩
      cases hp : parent a with
      | none => rw [hroot.1 hp, Function.update_self]
      | some p =>
          have hfirst := (hroot.2 p hp).2
          rw [Function.update_of_ne (hother r (by rw [hfirst]; exact Option.some_ne_none _)), hfirst]
    · rw [Function.update_of_ne heq] at hs
      obtain ⟨q, hq, hfirst⟩ := h.root s hs
      refine ⟨q, by rw [Function.update_of_ne heq, hq], ?_⟩
      rw [Function.update_of_ne (hother q (by rw [hfirst]; exact Option.some_ne_none _)), hfirst]

/-! ## Coherent runs -/

/-- Every item names the parent that the first item of its task names, and names it after it has gone
by. -/
inductive Coherent (task parent : α → Option ι) : List α → Prop
  | nil : Coherent task parent []
  | concat {items : List α} {a : α} (h : Coherent task parent items)
      (hfirst : ∀ t q, task a = some t → firstParent task parent items t = some q → q = parent a)
      (hparent : ∀ t, task a = some t → ∀ p, parent a = some p →
        firstParent task parent items p ≠ none) : Coherent task parent (items ++ [a])

/-- **What is known in a coherent run.** -/
theorem Coherent.inv (h : Coherent task parent items) :
    Inv (firstParent task parent items) (knownAfter task parent items) := by
  induction h with
  | nil =>
      refine ⟨fun t ht => ?_, fun t p ht => ?_, fun t ht => ?_⟩
      · cases ht
      · cases ht
      · exact absurd rfl ht
  | @concat items a _ hfirst hparent ih =>
      rw [knownAfter_concat]
      cases ht : task a with
      -- an item without a task notes nothing
      | none =>
          rw [note_of_none ht, firstParent_concat_seen fun t h => nomatch ht ▸ h]
          exact ih
      | some t =>
          cases hseen : firstParent task parent items t with
          | none =>
              -- the first item of its task: it decides the parent
              rw [firstParent_concat_fresh hseen ht]
              exact ih.note_fresh ht hseen (hparent t ht)
          | some q =>
              -- a later one has the same parent, so it notes what is known
              obtain rfl := hfirst t q ht hseen
              rw [ih.note_eq ht hseen, firstParent_concat_seen]
              · exact ih
              · intro s hs
                rw [← Option.some.inj (ht.symm.trans hs), hseen]
                exact Option.some_ne_none _

/-- The last item of a coherent run fits to those before. -/
theorem Coherent.of_concat (h : Coherent task parent (items ++ [a])) :
    Coherent task parent items ∧
      ∀ t, task a = some t → firstParent task parent (items ++ [a]) t = some (parent a) := by
  generalize hrun : items ++ [a] = run at h
  cases h with
  | nil => exact absurd hrun (by simp)
  | @concat before b h hfirst hparent =>
      obtain ⟨rfl, hab⟩ := List.append_inj' hrun rfl
      obtain rfl := (List.cons.inj hab).1
      refine ⟨h, fun t ht => ?_⟩
      rw [firstParent_append, firstParent_singleton, if_pos ht]
      cases hseen : firstParent task parent items t with
      | none => rfl
      | some q => rw [hfirst t q ht hseen, Option.some_or]

/-- What comes first is coherent. -/
theorem Coherent.left {more : List α} (h : Coherent task parent (items ++ more)) :
    Coherent task parent items := by
  induction more using List.reverseRecOn with
  | nil => rwa [List.append_nil] at h
  | append_singleton more a ih =>
      rw [← List.append_assoc] at h
      exact ih h.of_concat.1

/-- Tasks that are coherent repeat their parents. -/
theorem Coherent.repeats (h : Coherent task parent items) : Repeats task parent items := by
  intro a ha t ht
  obtain ⟨pre, post, rfl⟩ := List.append_of_mem ha
  have hsplit : pre ++ a :: post = (pre ++ [a]) ++ post := by simp
  rw [hsplit] at h ⊢
  have hfirst := h.left.of_concat.2 t ht
  rw [firstParent_append_of_ne_none (by rw [hfirst]; exact Option.some_ne_none _), hfirst]

/-- **What is known of a task never changes.** -/
theorem Coherent.knownAfter_append {more : List α} (h : Coherent task parent (items ++ more))
    (ht : firstParent task parent items t ≠ none) :
    knownAfter task parent (items ++ more) t = knownAfter task parent items t := by
  induction more using List.reverseRecOn with
  | nil => rw [List.append_nil]
  | append_singleton more a ih =>
      rw [← List.append_assoc] at h ⊢
      rw [← ih h.left, knownAfter_concat]
      cases hs : task a with
      | none => rw [note_of_none hs]
      | some s =>
          by_cases heq : s = t
          · -- one more item of the task
            subst heq
            have hseen : firstParent task parent (items ++ more) s ≠ none := by
              rwa [firstParent_append_of_ne_none ht]
            have hfirst := h.of_concat.2 s hs
            rw [firstParent_append_of_ne_none hseen] at hfirst
            rw [h.left.inv.note_eq hs hfirst]
          · rw [note_of_some hs, Function.update_of_ne (Ne.symm heq)]

/-- What is known of a task is the root of its first item. -/
theorem Coherent.knownAfter_first {pre mid : List α}
    (h : Coherent task parent (pre ++ a :: mid)) (ht : task a = some t) :
    knownAfter task parent (pre ++ a :: mid) t
      = rootOf task parent (knownAfter task parent pre) a := by
  have hsplit : pre ++ a :: mid = (pre ++ [a]) ++ mid := by simp
  rw [hsplit] at h ⊢
  rw [h.knownAfter_append (firstParent_ne_none.mpr ⟨a, by simp, ht⟩), knownAfter_concat,
    note_of_some ht, Function.update_self]

/-- **In a coherent run the roots are stable.** -/
theorem Coherent.stable (h : Coherent task parent items) : Stable task parent items := by
  rintro pre a mid b post rfl t ht - s hs hst
  have hsplit : pre ++ a :: (mid ++ b :: post) = ((pre ++ a :: mid) ++ [b]) ++ post := by simp
  have hfirst : firstParent task parent (pre ++ a :: (mid ++ b :: post)) s = some (parent b) :=
    h.repeats b (by simp) s hs
  rw [hsplit] at h hfirst
  have hb := h.left.left.inv
  rw [← h.left.left.knownAfter_first ht]
  have hseen : firstParent task parent (pre ++ a :: mid) t ≠ none :=
    firstParent_ne_none.mpr ⟨a, by simp, ht⟩
  rcases hst with rfl | hchild
  · rw [List.append_assoc, firstParent_append_of_ne_none hseen] at hfirst
    exact hb.rootOf_eq hs hfirst
  · rw [hsplit, hfirst, Option.some.injEq] at hchild
    obtain ⟨r, hr, -⟩ := hb.root t hseen
    rw [rootOf_child hs hchild hr, hr]

omit [DecidableEq ι] in
/-- A task that has gone by has a first item. -/
theorem exists_first (h : ∃ a ∈ items, task a = some t) :
    ∃ pre a mid, items = pre ++ a :: mid ∧ task a = some t ∧ ∀ c ∈ pre, task c ≠ some t := by
  induction items with
  | nil => exact absurd h (by simp)
  | cons b items ih =>
      by_cases hb : task b = some t
      · exact ⟨[], b, items, rfl, hb, by simp⟩
      · obtain ⟨a, ha, hat⟩ := h
        have hmem : a ∈ items := (List.mem_cons.mp ha).resolve_left fun heq => hb (heq ▸ hat)
        obtain ⟨pre, c, mid, rfl, hc, hpre⟩ := ih ⟨a, hmem, hat⟩
        exact ⟨b :: pre, c, mid, rfl, hc, List.forall_mem_cons.mpr ⟨hb, hpre⟩⟩

/-- A run is coherent if its parents go by before they are named and no item of a task comes after
others that name another parent. -/
theorem coherent_of_forall_append (hanchored : Anchored task parent items)
    (h : ∀ pre b post, items = pre ++ b :: post → Coherent task parent pre →
      ∀ t q, task b = some t → firstParent task parent pre t = some q → q = parent b) :
    Coherent task parent items := by
  have hprefix : ∀ pre, pre <+: items → Coherent task parent pre := by
    intro pre
    induction pre using List.reverseRecOn with
    | nil => exact fun _ => .nil
    | append_singleton pre b ih =>
        rintro ⟨post, hpost⟩
        have hitems : items = pre ++ b :: post := by rw [← hpost]; simp
        have hpre := ih ⟨b :: post, hitems.symm⟩
        refine hpre.concat (h pre b post hitems hpre) fun t ht p hp => ?_
        exact firstParent_ne_none.mpr (hanchored pre b post hitems t ht p hp)
  exact hprefix items (List.prefix_refl items)

/-- **The roots are stable exactly if no item leaves out the parent of its task.** -/
theorem stable_iff (hanchored : Anchored task parent items)
    (hfirst : ∀ a ∈ items, ∀ t, task a = some t →
      parent a = none ∨ firstParent task parent items t = some (parent a)) :
    Stable task parent items ↔ Repeats task parent items := by
  constructor
  · intro hstable
    refine (coherent_of_forall_append hanchored ?_).repeats
    rintro pre b post rfl hpre s q hs hseen
    have hseen' : firstParent task parent pre s ≠ none := by
      rw [hseen]
      exact Option.some_ne_none _
    rcases hfirst b (by simp) s hs with hnone | hsame
    · cases q with
      | none => exact hnone.symm
      | some p =>
          -- without its parent the item is its own root, but roots have no parent
          exfalso
          obtain ⟨hp, -⟩ := hpre.inv.child s p hseen
          obtain ⟨r, hr, hroot⟩ := hpre.inv.root p hp
          obtain ⟨pre, a, mid, rfl, ha, hbefore⟩ := exists_first (firstParent_ne_none.mp hp)
          have heq := hstable pre a mid b post (by simp) p ha hbefore s hs
            (.inr (by rw [firstParent_append_of_ne_none hseen', hseen]))
          rw [rootOf_orphan hs hnone, ← hpre.knownAfter_first ha, hr, Option.some.injEq] at heq
          rw [← heq, hseen] at hroot
          cases hroot
    · rw [firstParent_append_of_ne_none hseen', hseen, Option.some.injEq] at hsame
      exact hsame
  · intro hrepeats
    refine (coherent_of_forall_append hanchored ?_).stable
    rintro pre b post rfl - s q hs hseen
    have hsame := hrepeats b (by simp) s hs
    rw [firstParent_append_of_ne_none (by rw [hseen]; exact Option.some_ne_none _), hseen,
      Option.some.injEq] at hsame
    exact hsame

end OpenWright.Lineage
