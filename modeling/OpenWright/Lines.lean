import Mathlib.Data.List.Basic
import Mathlib.Data.List.Induction
import Mathlib.Tactic.Common

/-! # Files of lines

A sequence over any alphabet is read as lines that each end with a newline, up to a last one that may
be torn off: splitting into lines (`lines`), dropping the torn one (`dropTorn`), the positions at which
lines start (`offsets`), and reading one line (`readLine`).

* **`exists_whole_append_torn`** — every sequence is whole lines and a torn one.
* **`lines_flatten_append`** — splitting finds the whole lines that a sequence was joined from.
* **`dropTorn_flatten_append`** — what is left without the torn line is the whole ones.
* **`readLine_drop_offsets`** — reading at the `i`-th offset gives the `i`-th line. -/

namespace OpenWright.Lines

universe u

variable {α : Type u} [DecidableEq α] (nl : α)

/-- A whole line: it ends with the only newline in it. -/
def IsLine (l : List α) : Prop := ∃ body, nl ∉ body ∧ l = body ++ [nl]

/-- The lines of a sequence, each with its newline. -/
def lines : List α → List (List α)
  | [] => []
  | a :: s =>
    if a = nl then [a] :: lines s
    else
      match lines s with
      | [] => [[a]]
      | l :: ls => (a :: l) :: ls

/-- What is left up to the last newline. -/
def dropTorn (s : List α) : List α := (s.reverse.dropWhile fun a => a ≠ nl).reverse

/-- The first line. -/
def readLine (s : List α) : List α := (lines nl s).headD []

/-- The positions at which the lines to keep start. -/
def offsets (keep : List α → Bool) : Nat → List (List α) → List Nat
  | _, [] => []
  | pos, l :: ls =>
    if keep l then pos :: offsets keep (pos + l.length) ls else offsets keep (pos + l.length) ls

/-- The lines that end with a newline. -/
def wholeLines (s : List α) : List (List α) := (lines nl s).filter fun l => l.getLast? = some nl

/-! ## Splitting -/

variable {nl}

/-- Empty text has no lines. -/
@[simp] theorem lines_nil : lines nl [] = [] := rfl

omit [DecidableEq α] in
/-- A line is not empty. -/
theorem IsLine.ne_nil {l : List α} (h : IsLine nl l) : l ≠ [] := by
  obtain ⟨body, -, rfl⟩ := h
  simp

omit [DecidableEq α] in
/-- A line ends with the newline. -/
theorem IsLine.getLast?_eq {l : List α} (h : IsLine nl l) : l.getLast? = some nl := by
  obtain ⟨body, -, rfl⟩ := h
  simp

/-- A torn line is all there is. -/
theorem lines_of_not_mem {t : List α} (ht : nl ∉ t) : lines nl t = if t = [] then [] else [t] := by
  induction t with
  | nil => simp
  | cons a t ih =>
      rw [List.mem_cons, not_or] at ht
      rw [lines, if_neg (Ne.symm ht.1), ih ht.2]
      by_cases hnil : t = []
      · simp [hnil]
      · simp [hnil]

/-- Splitting off a whole line. -/
theorem IsLine.lines_append {l : List α} (h : IsLine nl l) (s : List α) :
    lines nl (l ++ s) = l :: lines nl s := by
  obtain ⟨body, hbody, rfl⟩ := h
  induction body with
  | nil => simp [lines]
  | cons a body ih =>
      rw [List.mem_cons, not_or] at hbody
      rw [List.cons_append, List.cons_append, lines, if_neg (Ne.symm hbody.1), ih hbody.2]

/-- **Splitting finds the whole lines** that come first. -/
theorem lines_flatten_append {ls : List (List α)} (h : ∀ l ∈ ls, IsLine nl l) (s : List α) :
    lines nl (ls.flatten ++ s) = ls ++ lines nl s := by
  induction ls with
  | nil => simp
  | cons l ls ih =>
      rw [List.flatten_cons, List.append_assoc, (h l List.mem_cons_self).lines_append,
        ih fun m hm => h m (List.mem_cons_of_mem l hm), List.cons_append]

/-- Splitting what was joined from whole lines. -/
theorem lines_flatten {ls : List (List α)} (h : ∀ l ∈ ls, IsLine nl l) :
    lines nl ls.flatten = ls := by
  have hlines := lines_flatten_append h []
  rwa [List.append_nil, lines_nil, List.append_nil] at hlines

variable (nl) in
/-- **Every sequence is whole lines and a torn one.** -/
theorem exists_whole_append_torn (s : List α) :
    ∃ (ls : List (List α)) (t : List α), (∀ l ∈ ls, IsLine nl l) ∧ nl ∉ t ∧ s = ls.flatten ++ t := by
  induction s with
  | nil => exact ⟨[], [], by simp, by simp, rfl⟩
  | cons a s ih =>
      obtain ⟨ls, t, hls, ht, rfl⟩ := ih
      by_cases ha : a = nl
      · -- a line of its own
        subst ha
        refine ⟨[a] :: ls, t, ?_, ht, rfl⟩
        intro l hl
        rcases List.mem_cons.mp hl with rfl | hmem
        · exact ⟨[], by simp, rfl⟩
        · exact hls l hmem
      · cases ls with
        | nil =>
            refine ⟨[], a :: t, by simp, ?_, rfl⟩
            rw [List.mem_cons, not_or]
            exact ⟨Ne.symm ha, ht⟩
        | cons l ls =>
            -- the first line gets longer
            refine ⟨(a :: l) :: ls, t, ?_, ht, rfl⟩
            intro m hm
            rcases List.mem_cons.mp hm with rfl | hmem
            · obtain ⟨body, hbody, hl⟩ := hls l List.mem_cons_self
              refine ⟨a :: body, ?_, by rw [hl, List.cons_append]⟩
              rw [List.mem_cons, not_or]
              exact ⟨Ne.symm ha, hbody⟩
            · exact hls m (List.mem_cons_of_mem l hmem)

/-- The whole lines of a sequence are those it was joined from. -/
theorem wholeLines_flatten_append {ls : List (List α)} (h : ∀ l ∈ ls, IsLine nl l) {t : List α}
    (ht : nl ∉ t) : wholeLines nl (ls.flatten ++ t) = ls := by
  have htorn : (lines nl t).filter (fun l => l.getLast? = some nl) = [] := by
    rw [lines_of_not_mem ht, List.filter_eq_nil_iff]
    intro l hl
    by_cases hnil : t = []
    · simp [hnil] at hl
    · rw [if_neg hnil, List.mem_singleton] at hl
      subst hl
      rw [decide_eq_true_eq]
      exact fun hlast => ht (List.mem_of_getLast? hlast)
  have hwhole : ls.filter (fun l => l.getLast? = some nl) = ls := by
    rw [List.filter_eq_self]
    intro l hl
    rw [decide_eq_true_eq]
    exact (h l hl).getLast?_eq
  rw [wholeLines, lines_flatten_append h, List.filter_append, htorn, hwhole, List.append_nil]

/-! ## The torn line -/

/-- What ends with a newline has no torn line. -/
theorem dropTorn_of_getLast? {s : List α} (h : s.getLast? = some nl) : dropTorn nl s = s := by
  obtain ⟨body, rfl⟩ : ∃ body, s = body ++ [nl] := ⟨_, (List.dropLast_append_getLast? nl h).symm⟩
  simp [dropTorn]

omit [DecidableEq α] in
/-- Joined whole lines are empty or end with a newline. -/
theorem flatten_eq_nil_or_getLast? {ls : List (List α)} (h : ∀ l ∈ ls, IsLine nl l) :
    ls.flatten = [] ∨ ls.flatten.getLast? = some nl := by
  induction ls using List.reverseRecOn with
  | nil => exact Or.inl rfl
  | append_singleton ls l _ =>
      right
      have hl := h l (List.mem_append_right ls List.mem_cons_self)
      rw [List.flatten_append, List.flatten_singleton, List.getLast?_append_of_ne_nil _ hl.ne_nil]
      exact hl.getLast?_eq

/-- **Without the torn line the whole ones are left.** -/
theorem dropTorn_flatten_append {ls : List (List α)} (h : ∀ l ∈ ls, IsLine nl l) {t : List α}
    (ht : nl ∉ t) : dropTorn nl (ls.flatten ++ t) = ls.flatten := by
  have hdrop : ∀ a ∈ t.reverse, decide (a ≠ nl) = true := by
    intro a ha
    rw [decide_eq_true_eq]
    rintro rfl
    exact ht (List.mem_reverse.mp ha)
  rw [dropTorn, List.reverse_append, List.dropWhile_append_of_pos hdrop]
  rcases flatten_eq_nil_or_getLast? h with hnil | hlast
  · simp [hnil]
  · exact dropTorn_of_getLast? hlast

/-! ## Offsets -/

omit [DecidableEq α] in
/-- The offsets of more lines. -/
theorem offsets_append (keep : List α → Bool) (pos : Nat) (ls ms : List (List α)) :
    offsets keep pos (ls ++ ms)
      = offsets keep pos ls ++ offsets keep (pos + ls.flatten.length) ms := by
  induction ls generalizing pos with
  | nil => simp [offsets]
  | cons l ls ih =>
      have hpos : pos + (l :: ls).flatten.length = pos + l.length + ls.flatten.length := by
        rw [List.flatten_cons, List.length_append, Nat.add_assoc]
      rw [List.cons_append, offsets, offsets, ih, hpos]
      split
      · rw [List.cons_append]
      · rfl

omit [DecidableEq α] in
/-- There is one offset for each line when all are kept. -/
theorem length_offsets {keep : List α → Bool} {ls : List (List α)} (h : ∀ l ∈ ls, keep l = true)
    (pos : Nat) : (offsets keep pos ls).length = ls.length := by
  induction ls generalizing pos with
  | nil => rfl
  | cons l ls ih =>
      rw [offsets, if_pos (h l List.mem_cons_self), List.length_cons, List.length_cons,
        ih fun m hm => h m (List.mem_cons_of_mem l hm)]

omit [DecidableEq α] in
/-- From the `i`-th offset on there are the lines from the `i`-th on. -/
theorem drop_offsets {keep : List α → Bool} {ls : List (List α)} (h : ∀ l ∈ ls, keep l = true)
    {before : List α} {i p : Nat} (hp : (offsets keep before.length ls)[i]? = some p) :
    (before ++ ls.flatten).drop p = (ls.drop i).flatten := by
  induction ls generalizing before i with
  | nil => simp [offsets] at hp
  | cons l ls ih =>
      rw [offsets, if_pos (h l List.mem_cons_self)] at hp
      cases i with
      | zero =>
          rw [List.getElem?_cons_zero, Option.some.injEq] at hp
          rw [← hp, List.drop_left, List.drop_zero]
      | succ i =>
          rw [List.getElem?_cons_succ, ← List.length_append] at hp
          have hrest := ih (fun m hm => h m (List.mem_cons_of_mem l hm)) hp
          rw [List.flatten_cons, ← List.append_assoc, hrest, List.drop_succ_cons]

/-- **Reading at the `i`-th offset gives the `i`-th line.** -/
theorem readLine_drop_offsets {keep : List α → Bool} {ls : List (List α)}
    (hkeep : ∀ l ∈ ls, keep l = true) (h : ∀ l ∈ ls, IsLine nl l) {i p : Nat}
    (hp : (offsets keep 0 ls)[i]? = some p) : some (readLine nl (ls.flatten.drop p)) = ls[i]? := by
  have hdrop := @drop_offsets α keep ls hkeep [] i p hp
  rw [List.nil_append] at hdrop
  have hlines : lines nl (ls.drop i).flatten = ls.drop i :=
    lines_flatten fun l hl => h l (List.mem_of_mem_drop hl)
  have hi : i < ls.length := by
    rw [← length_offsets hkeep 0]
    exact (List.getElem?_eq_some_iff.mp hp).1
  rw [readLine, hdrop, hlines, List.drop_eq_getElem_cons hi, List.getElem?_eq_getElem hi]
  rfl

end OpenWright.Lines
