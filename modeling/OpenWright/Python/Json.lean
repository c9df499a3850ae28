import OpenWright.Python.Number

/-! # JSON text

`text` writes a value the way `json.dumps` does with sorted keys, the separators `,` and `:`, and
non-ASCII characters left as they are, and `dumps` the way it does without sorting; `read` reads JSON
text back.

* **`read_dumps`** — reading a written value gives the value.
* **`sorted_eq_of_text_eq`** — two values with one sorted text differ in the order of their
  dictionaries only. -/

namespace OpenWright.Python.Json

/-! ## Writing -/

/-- A character inside a string literal. -/
def escapeChar (c : CodePoint) : Str :=
  if c = cp 34 then [cp 92, cp 34]
  else if c = cp 92 then [cp 92, cp 92]
  else if c = cp 10 then [cp 92, cp 110]
  else if c = cp 13 then [cp 92, cp 114]
  else if c = cp 9 then [cp 92, cp 116]
  else if c = cp 12 then [cp 92, cp 102]
  else if c = cp 8 then [cp 92, cp 98]
  -- `ensure_ascii=False` escapes the other control characters only
  else if c.val < 0x20 then
    [cp 92, cp 117, cp 48, cp 48, hexDigit (c.val / 16), hexDigit (c.val % 16)]
  else [c]

/-- A string literal. -/
def strText (s : Str) : Str := cp 34 :: (s.flatMap escapeChar ++ [cp 34])

/-- Texts separated by commas. -/
def commaJoin : List Str → Str
  | [] => []
  | [t] => t
  | t :: ts => t ++ cp 44 :: commaJoin ts

/-- A comma stands between two texts. -/
theorem commaJoin_cons_cons (t u : Str) (ts : List Str) :
    commaJoin (t :: u :: ts) = t ++ cp 44 :: commaJoin (u :: ts) := rfl

/-- One member of an object: its key and the text of its value. -/
def memberText (kt : Str × Str) : Str := strText kt.1 ++ cp 58 :: kt.2

mutual
/-- The text of a value. -/
def text : Val → Str
  | .null => lit "null"
  | .bool true => lit "true"
  | .bool false => lit "false"
  | .int z => intText z
  | .float x => floatText x
  | .str s => strText s
  | .list vs => cp 91 :: (commaJoin (textList vs) ++ [cp 93])
  | .tuple vs => cp 91 :: (commaJoin (textList vs) ++ [cp 93])
  | .dict kvs => cp 123 :: (commaJoin ((sortKeys (textItems kvs)).map memberText) ++ [cp 125])

/-- The texts of the elements. -/
def textList : List Val → List Str
  | [] => []
  | v :: vs => text v :: textList vs

/-- The keys and the texts of their values. -/
def textItems : Items → List (Str × Str)
  | [] => []
  | (k, v) :: kvs => (k, text v) :: textItems kvs
end

/-- A list is written element by element, -/
theorem textList_eq_map : ∀ vs : List Val, textList vs = vs.map text
  | [] => rfl
  | v :: vs => by rw [textList, List.map_cons, textList_eq_map vs]

/-- and a dictionary entry by entry. -/
theorem textItems_eq_map : ∀ kvs : Items, textItems kvs = kvs.map fun kv => (kv.1, text kv.2)
  | [] => rfl
  | (k, v) :: kvs => by rw [textItems, List.map_cons, textItems_eq_map kvs]

mutual
/-- The value with every dictionary sorted by key. -/
def sorted : Val → Val
  | .list vs => .list (sortedList vs)
  | .tuple vs => .tuple (sortedList vs)
  | .dict kvs => .dict (sortKeys (sortedItems kvs))
  | v => v

/-- `sorted`, elementwise. -/
def sortedList : List Val → List Val
  | [] => []
  | v :: vs => sorted v :: sortedList vs

/-- `sorted`, itemwise. -/
def sortedItems : Items → Items
  | [] => []
  | (k, v) :: kvs => (k, sorted v) :: sortedItems kvs
end

/-- A list is sorted element by element, -/
theorem sortedList_eq_map : ∀ vs : List Val, sortedList vs = vs.map sorted
  | [] => rfl
  | v :: vs => by rw [sortedList, List.map_cons, sortedList_eq_map vs]

/-- and a dictionary value by value. -/
theorem sortedItems_eq_map : ∀ kvs : Items, sortedItems kvs = kvs.map fun kv => (kv.1, sorted kv.2)
  | [] => rfl
  | (k, v) :: kvs => by rw [sortedItems, List.map_cons, sortedItems_eq_map kvs]

mutual
/-- The text of a value with its dictionaries in insertion order. -/
def dumps : Val → Str
  | .list vs => cp 91 :: (commaJoin (dumpsList vs) ++ [cp 93])
  | .tuple vs => cp 91 :: (commaJoin (dumpsList vs) ++ [cp 93])
  | .dict kvs => cp 123 :: (commaJoin ((dumpsItems kvs).map memberText) ++ [cp 125])
  | v => text v

/-- `dumps`, elementwise. -/
def dumpsList : List Val → List Str
  | [] => []
  | v :: vs => dumps v :: dumpsList vs

/-- `dumps`, itemwise. -/
def dumpsItems : Items → List (Str × Str)
  | [] => []
  | (k, v) :: kvs => (k, dumps v) :: dumpsItems kvs
end

/-- An integer is written in decimal, -/
theorem dumps_int (z : Int) : dumps (.int z) = intText z := rfl

/-- a text in quotes, -/
theorem dumps_str (k : Str) : dumps (.str k) = strText k := rfl

/-- a list element by element, -/
theorem dumpsList_eq_map : ∀ vs : List Val, dumpsList vs = vs.map dumps
  | [] => rfl
  | v :: vs => by rw [dumpsList, List.map_cons, dumpsList_eq_map vs]

/-- and a dictionary entry by entry. -/
theorem dumpsItems_eq_map : ∀ kvs : Items, dumpsItems kvs = kvs.map fun kv => (kv.1, dumps kv.2)
  | [] => rfl
  | (k, v) :: kvs => by rw [dumpsItems, List.map_cons, dumpsItems_eq_map kvs]

mutual
/-- **Sorted text is the text of the sorted value.** -/
theorem text_eq_dumps_sorted : ∀ v : Val, text v = dumps (sorted v)
  | .null | .int _ | .float _ | .str _ => rfl
  | .bool true | .bool false => rfl
  | .list vs | .tuple vs => by rw [text, sorted, dumps, textList_eq_dumpsList vs]
  | .dict kvs => by
      rw [text, sorted, dumps, textItems_eq_dumpsItems kvs, dumpsItems_eq_map, dumpsItems_eq_map,
        sortKeys_map]

/-- The same of lists. -/
theorem textList_eq_dumpsList : ∀ vs : List Val, textList vs = dumpsList (sortedList vs)
  | [] => rfl
  | v :: vs => by
      rw [textList, sortedList, dumpsList, text_eq_dumps_sorted v, textList_eq_dumpsList vs]

/-- The same of dictionaries. -/
theorem textItems_eq_dumpsItems : ∀ kvs : Items, textItems kvs = dumpsItems (sortedItems kvs)
  | [] => rfl
  | (k, v) :: kvs => by
      rw [textItems, sortedItems, dumpsItems, text_eq_dumps_sorted v, textItems_eq_dumpsItems kvs]
end

/-! ## Reading -/

/-- JSON whitespace. -/
def isJsonSpace (c : CodePoint) : Bool := c = cp 32 ∨ c = cp 9 ∨ c = cp 10 ∨ c = cp 13

/-- Skip whitespace. -/
def skipSpace (s : Str) : Str := s.dropWhile isJsonSpace

/-- Read four hexadecimal digits. -/
def readHex4 : Str → Option (Nat × Str)
  | a :: b :: c :: d :: s =>
    match hexValue a, hexValue b, hexValue c, hexValue d with
    | some a, some b, some c, some d => some (((a * 16 + b) * 16 + c) * 16 + d, s)
    | _, _, _, _ => none
  | _ => none

/-- Read what follows `\u`. A surrogate pair is one character. -/
def readUnicode (s : Str) : Option (CodePoint × Str) :=
  match readHex4 s with
  | none => none
  | some (u, s) =>
    -- a high surrogate joins the low one that follows it, and else stands for itself
    if 0xD800 ≤ u ∧ u < 0xDC00 then
      match s with
      | b :: w :: t =>
        if b = cp 92 ∧ w = cp 117 then
          match readHex4 t with
          | some (l, t) =>
            if 0xDC00 ≤ l ∧ l < 0xE000 then
              some (cp (0x10000 + (u - 0xD800) * 0x400 + (l - 0xDC00)), t)
            else some (cp u, s)
          | none => none
        else some (cp u, s)
      | _ => some (cp u, s)
    else some (cp u, s)

/-- Read what follows a backslash. -/
def readEscape : Str → Option (CodePoint × Str)
  | [] => none
  | c :: s =>
    if c = cp 34 ∨ c = cp 92 ∨ c = cp 47 then some (c, s)
    else if c = cp 110 then some (cp 10, s)
    else if c = cp 114 then some (cp 13, s)
    else if c = cp 116 then some (cp 9, s)
    else if c = cp 102 then some (cp 12, s)
    else if c = cp 98 then some (cp 8, s)
    else if c = cp 117 then readUnicode s
    else none

/-- Read the rest of a string literal; `fuel` bounds its length. -/
def readString : Nat → Str → Option (Str × Str)
  | 0, _ => none
  | _ + 1, [] => none
  | fuel + 1, c :: s =>
    if c = cp 34 then some ([], s)
    else if c = cp 92 then
      match readEscape s with
      | none => none
      | some (d, s) => (readString fuel s).map fun p => (d :: p.1, p.2)
    else if c.val < 0x20 then none
    else (readString fuel s).map fun p => (c :: p.1, p.2)

/-- Read a fixed word as a fixed value. -/
def readWord (w : Str) (v : Val) (s : Str) : Option (Val × Str) :=
  if w.isPrefixOf s then some (v, s.drop w.length) else none

/-- Read a float that no digits are written for. -/
def readConstant (s : Str) : Option (Val × Str) :=
  readWord (lit "NaN") (.float .nan) s <|> readWord (lit "Infinity") (.float (.inf false)) s
    <|> readWord (lit "-Infinity") (.float (.inf true)) s

mutual
/-- Read a value; `fuel` bounds the length of its text. -/
def readValue : Nat → Str → Option (Val × Str)
  | 0, _ => none
  | fuel + 1, s =>
    match skipSpace s with
    | [] => none
    | c :: s =>
      if c = cp 34 then (readString fuel s).map fun p => (.str p.1, p.2)
      -- an empty array, or its elements up to the bracket
      else if c = cp 91 then
        if (skipSpace s).head? = some (cp 93) then some (.list [], (skipSpace s).tail)
        else (readElements fuel s).map fun p => (.list p.1, p.2)
      else if c = cp 123 then
        if (skipSpace s).head? = some (cp 125) then some (.dict [], (skipSpace s).tail)
        else (readMembers fuel s).map fun p => (.dict p.1, p.2)
      else if c = cp 110 then readWord (lit "null") .null (c :: s)
      else if c = cp 116 then readWord (lit "true") (.bool true) (c :: s)
      else if c = cp 102 then readWord (lit "false") (.bool false) (c :: s)
      -- also the three constants that are no JSON
      else readNumber (c :: s) <|> readConstant (c :: s)

/-- Read the elements of a list up to its bracket. -/
def readElements : Nat → Str → Option (List Val × Str)
  | 0, _ => none
  | fuel + 1, s =>
    match readValue fuel s with
    | none => none
    | some (v, s) =>
      match skipSpace s with
      | [] => none
      | c :: s =>
        if c = cp 44 then (readElements fuel s).map fun p => (v :: p.1, p.2)
        else if c = cp 93 then some ([v], s)
        else none

/-- Read the members of an object up to its brace. -/
def readMembers : Nat → Str → Option (Items × Str)
  | 0, _ => none
  | fuel + 1, s =>
    match skipSpace s with
    | [] => none
    | q :: s =>
      if q = cp 34 then
        match readString fuel s with
        | none => none
        | some (k, s) =>
          match skipSpace s with
          | [] => none
          | c :: s =>
            -- key, colon, value, and then a comma or the brace
            if c = cp 58 then
              match readValue fuel s with
              | none => none
              | some (v, s) =>
                match skipSpace s with
                | [] => none
                | c :: s =>
                  if c = cp 44 then (readMembers fuel s).map fun p => ((k, v) :: p.1, p.2)
                  else if c = cp 125 then some ([(k, v)], s)
                  else none
            else none
      else none
end

/-- Read one value and nothing else. -/
def read (s : Str) : Option Val :=
  match readValue s.length s with
  | some (v, s) => if skipSpace s = [] then some v else none
  | none => none

/-! ## Reading back strings -/

/-- An escaped character is not empty. -/
theorem escapeChar_ne_nil (c : CodePoint) : escapeChar c ≠ [] := by
  unfold escapeChar
  split_ifs <;> simp

/-- Escaping makes no string shorter. -/
theorem length_le_escape (k : Str) : k.length ≤ (k.flatMap escapeChar).length := by
  induction k with
  | nil => exact Nat.le_refl 0
  | cons c k ih =>
      have hc : 0 < (escapeChar c).length := List.length_pos_of_ne_nil (escapeChar_ne_nil c)
      rw [List.flatMap_cons, List.length_append, List.length_cons]
      omega

/-- Control characters are read back from their hexadecimal escape. -/
theorem readEscape_control : ∀ n < 0x20, ∀ s : Str,
    readEscape (cp 117 :: cp 48 :: cp 48 :: hexDigit (n / 16) :: hexDigit (n % 16) :: s)
      = some (cp n, s) := by
  intro n hn s
  have hhi : hexValue (hexDigit (n / 16)) = some (n / 16) := (hexDigit_spec _ (by omega)).1
  have hlo : hexValue (hexDigit (n % 16)) = some (n % 16) := (hexDigit_spec _ (by omega)).1
  have hzero : hexValue (cp 48) = some 0 := by decide
  have hval : ((0 * 16 + 0) * 16 + n / 16) * 16 + n % 16 = n := by omega
  have hu : readHex4 (cp 48 :: cp 48 :: hexDigit (n / 16) :: hexDigit (n % 16) :: s)
      = some (n, s) := by
    simp only [readHex4, hzero, hhi, hlo, hval]
  calc readEscape (cp 117 :: cp 48 :: cp 48 :: hexDigit (n / 16) :: hexDigit (n % 16) :: s)
      = readUnicode (cp 48 :: cp 48 :: hexDigit (n / 16) :: hexDigit (n % 16) :: s) := rfl
    _ = some (cp n, s) := by simp only [readUnicode, hu]; rw [if_neg (by omega)]

/-- One step of reading an escaped character back. -/
theorem readString_escapeChar (fuel : Nat) (c : CodePoint) (s : Str) :
    readString (fuel + 1) (escapeChar c ++ s) = (readString fuel s).map fun p => (c :: p.1, p.2) := by
  -- an escape is read back, whatever it is
  have escape : ∀ {t : Str}, readEscape t = some (c, s) →
      readString (fuel + 1) (cp 92 :: t) = (readString fuel s).map fun p => (c :: p.1, p.2) := by
    intro t ht
    rw [readString, if_neg (by decide), if_pos rfl, ht]
  unfold escapeChar
  split
  · rename_i h; subst h; exact escape rfl
  split
  · rename_i h; subst h; exact escape rfl
  split
  · rename_i h; subst h; exact escape rfl
  split
  · rename_i h; subst h; exact escape rfl
  split
  · rename_i h; subst h; exact escape rfl
  split
  · rename_i h; subst h; exact escape rfl
  split
  · rename_i h; subst h; exact escape rfl
  split
  · rename_i hc
    have hread := readEscape_control c.val hc s
    rw [show cp c.val = c from Fin.ofNat_val_eq_self c] at hread
    exact escape hread
  -- any other character stands for itself
  · rename_i hquote hslash _ _ _ _ _ hc
    rw [List.singleton_append, readString, if_neg hquote, if_neg hslash, if_neg hc]

/-- **A string literal is read back.** -/
theorem readString_strText : ∀ (k s : Str) (fuel : Nat), k.length < fuel →
    readString fuel (k.flatMap escapeChar ++ cp 34 :: s) = some (k, s)
  | [], s, fuel + 1, _ => by rw [List.flatMap_nil, List.nil_append, readString, if_pos rfl]
  | c :: k, s, fuel + 1, h => by
      rw [List.flatMap_cons, List.append_assoc, readString_escapeChar,
        readString_strText k s fuel (by simpa using h), Option.map_some]
  | _, _, 0, h => absurd h (Nat.not_lt_zero _)

/-! ## Reading back values -/

mutual
/-- A value without floats and tuples. -/
def Plain : Val → Prop
  | .float _ => False
  | .tuple _ => False
  | .list vs => PlainList vs
  | .dict kvs => PlainItems kvs
  | _ => True

/-- Every element is plain. -/
def PlainList : List Val → Prop
  | [] => True
  | v :: vs => Plain v ∧ PlainList vs

/-- Every bound value is plain. -/
def PlainItems : Items → Prop
  | [] => True
  | (_, v) :: kvs => Plain v ∧ PlainItems kvs
end

mutual
/-- A value that JSON text denotes: no tuples, and floats that are doubles. -/
def IsJson : Val → Prop
  | .float x => x.IsDouble
  | .tuple _ => False
  | .list vs => IsJsonList vs
  | .dict kvs => IsJsonItems kvs
  | _ => True

/-- Every element is a JSON value. -/
def IsJsonList : List Val → Prop
  | [] => True
  | v :: vs => IsJson v ∧ IsJsonList vs

/-- Every bound value is a JSON value. -/
def IsJsonItems : Items → Prop
  | [] => True
  | (_, v) :: kvs => IsJson v ∧ IsJsonItems kvs
end

mutual
/-- A plain value is a JSON value. -/
theorem Plain.isJson : ∀ {v : Val}, Plain v → IsJson v
  | .null, _ | .bool _, _ | .int _, _ | .str _, _ => trivial
  | .float _, h | .tuple _, h => h.elim
  | .list _, h => PlainList.isJson h
  | .dict _, h => PlainItems.isJson h

/-- The same of lists. -/
theorem PlainList.isJson : ∀ {vs : List Val}, PlainList vs → IsJsonList vs
  | [], _ => trivial
  | _ :: _, h => ⟨h.1.isJson, PlainList.isJson h.2⟩

/-- The same of dictionaries. -/
theorem PlainItems.isJson : ∀ {kvs : Items}, PlainItems kvs → IsJsonItems kvs
  | [], _ => trivial
  | _ :: _, h => ⟨h.1.isJson, PlainItems.isJson h.2⟩
end

/-- A digit starts neither a string, a word nor a list, and closes none. -/
theorem isDigit_head {c : CodePoint} (h : isDigit c = true) : isJsonSpace c = false ∧ c ≠ cp 93 := by
  have hval : 48 ≤ c.val ∧ c.val < 58 := by simpa [isDigit] using h
  refine ⟨?_, ?_⟩
  · cases hspace : isJsonSpace c with
    | false => rfl
    | true =>
        have hspace' : c = cp 32 ∨ c = cp 9 ∨ c = cp 10 ∨ c = cp 13 := by
          simpa [isJsonSpace] using hspace
        rcases hspace' with rfl | rfl | rfl | rfl <;> exact absurd h (by decide)
  · rintro rfl
    exact absurd h (by decide)

/-- An integer's text starts like a number. -/
theorem intText_cons (z : Int) : ∃ c rest, intText z = c :: rest ∧ (isDigit c = true ∨ c = cp 45) := by
  rw [intText]
  split
  · exact ⟨_, _, rfl, Or.inr rfl⟩
  · obtain ⟨hall, -⟩ := natText_digits z.natAbs
    obtain ⟨c, rest, hc, -⟩ := natText_cons z.natAbs
    exact ⟨c, rest, hc, Or.inl (hall c (hc ▸ List.mem_cons_self))⟩

/-- A finite float's text starts like a number. -/
theorem floatText_cons {q : Rat} (h : PyFloat.IsDouble (.finite q)) :
    ∃ c rest, floatText (.finite q) = c :: rest ∧ (isDigit c = true ∨ c = cp 45) := by
  rw [floatText]
  by_cases hq : q < 0
  · rw [if_pos hq]
    exact ⟨_, _, rfl, Or.inr rfl⟩
  · obtain ⟨r, hread, -, -⟩ := readsAs_shortest (not_lt.mp hq) h stops_nil
    obtain ⟨c, rest, hc, hdigit⟩ := hread.head
    rw [List.append_nil] at hc
    rw [if_neg hq]
    exact ⟨c, rest, hc, Or.inl hdigit⟩

/-- The start of a number is neither whitespace nor a closing bracket. -/
theorem number_head {c : CodePoint} (h : isDigit c = true ∨ c = cp 45) :
    isJsonSpace c = false ∧ c ≠ cp 93 := by
  rcases h with h | rfl
  · exact isDigit_head h
  · exact ⟨by decide, by decide⟩

/-- The text of a JSON value starts with neither whitespace nor a closing bracket. -/
theorem dumps_cons {v : Val} (hv : IsJson v) :
    ∃ c rest, dumps v = c :: rest ∧ isJsonSpace c = false ∧ c ≠ cp 93 := by
  -- the first character tells of which kind the value is
  cases v with
  | null => exact ⟨cp 110, lit "ull", rfl, by decide, by decide⟩
  | bool b =>
      cases b with
      | true => exact ⟨cp 116, lit "rue", rfl, by decide, by decide⟩
      | false => exact ⟨cp 102, lit "alse", rfl, by decide, by decide⟩
  | int z =>
      obtain ⟨c, rest, hc, hnum⟩ := intText_cons z
      exact ⟨c, rest, hc, number_head hnum⟩
  | float x =>
      cases x with
      | finite q =>
          obtain ⟨c, rest, hc, hnum⟩ := floatText_cons hv
          exact ⟨c, rest, hc, number_head hnum⟩
      | inf negative =>
          cases negative with
          | false => exact ⟨cp 73, lit "nfinity", rfl, by decide, by decide⟩
          | true => exact ⟨cp 45, lit "Infinity", rfl, by decide, by decide⟩
      | nan => exact ⟨cp 78, lit "aN", rfl, by decide, by decide⟩
  | str s => exact ⟨cp 34, _, rfl, by decide, by decide⟩
  | list vs => exact ⟨cp 91, _, rfl, by decide, by decide⟩
  | tuple vs => exact hv.elim
  | dict kvs => exact ⟨cp 123, _, rfl, by decide, by decide⟩

/-- Nothing is skipped in front of a character that is not whitespace. -/
theorem skipSpace_cons {c : CodePoint} (h : isJsonSpace c = false) (s : Str) :
    skipSpace (c :: s) = c :: s := by
  rw [skipSpace, List.dropWhile_cons_of_neg (by rw [h]; decide)]

/-- `v` is read back from its text in front of whatever stops a number. -/
def ReadsDumps (v : Val) : Prop :=
  ∀ (fuel : Nat) (s : Str), (dumps v).length ≤ fuel → Stops s →
    readValue fuel (dumps v ++ s) = some (v, s)

/-- A comma after an element: the list goes on. -/
theorem readElements_comma {fuel : Nat} {v : Val} {s rest : Str}
    (hv : readValue fuel s = some (v, cp 44 :: rest)) :
    readElements (fuel + 1) s = (readElements fuel rest).map fun p => (v :: p.1, p.2) := by
  have hskip : skipSpace (cp 44 :: rest) = cp 44 :: rest := skipSpace_cons (by decide) rest
  rw [readElements, hv]
  simp only [hskip, if_true]

/-- A bracket after an element: the list ends. -/
theorem readElements_bracket {fuel : Nat} {v : Val} {s rest : Str}
    (hv : readValue fuel s = some (v, cp 93 :: rest)) :
    readElements (fuel + 1) s = some ([v], rest) := by
  have hskip : skipSpace (cp 93 :: rest) = cp 93 :: rest := skipSpace_cons (by decide) rest
  have hcomma : cp 93 ≠ cp 44 := by decide
  rw [readElements, hv]
  simp only [hskip, hcomma, if_true, if_false]

/-- The elements of a list are read back. -/
theorem readElements_dumps : ∀ {vs : List Val}, vs ≠ [] → (∀ v ∈ vs, IsJson v ∧ ReadsDumps v) →
    ∀ (fuel : Nat) (s : Str), (commaJoin (vs.map dumps)).length < fuel →
    readElements fuel (commaJoin (vs.map dumps) ++ cp 93 :: s) = some (vs, s)
  | [], hne, _, _, _, _ => absurd rfl hne
  | [v], _, h, fuel + 1, s, hf =>
      readElements_bracket ((h v List.mem_cons_self).2 fuel (cp 93 :: s) (Nat.lt_succ_iff.mp hf)
        (stops_cons (by decide) s))
  | v :: w :: vs, _, h, fuel + 1, s, hf => by
      obtain ⟨c, t, hc, -, -⟩ := dumps_cons (h v List.mem_cons_self).1
      rw [List.map_cons, List.map_cons, commaJoin_cons_cons, ← List.map_cons] at hf ⊢
      rw [List.length_append, List.length_cons] at hf
      have hpos : 0 < (dumps v).length := by rw [hc]; exact Nat.succ_pos _
      have hv := (h v List.mem_cons_self).2 fuel
        (cp 44 :: (commaJoin ((w :: vs).map dumps) ++ cp 93 :: s)) (by omega)
        (stops_cons (by decide) _)
      have hrest := readElements_dumps (List.cons_ne_nil w vs)
        (fun u hu => h u (List.mem_cons_of_mem v hu)) fuel s (by omega)
      rw [List.append_assoc, List.cons_append, readElements_comma hv, hrest]
      rfl
  | _ :: _, _, _, 0, _, hf => absurd hf (Nat.not_lt_zero _)

/-- The text of a member. -/
def dumpsMember (kv : Str × Val) : Str := memberText (kv.1, dumps kv.2)

/-- Reading a member up to the character after it. -/
theorem readMembers_member {fuel : Nat} {kv : Str × Val} (hv : ReadsDumps kv.2) {s : Str}
    (hf : (dumpsMember kv).length ≤ fuel) (hs : Stops s) :
    readMembers (fuel + 1) (dumpsMember kv ++ s) =
      match skipSpace s with
      | [] => none
      | c :: s =>
        if c = cp 44 then (readMembers fuel s).map fun p => (kv :: p.1, p.2)
        else if c = cp 125 then some ([kv], s)
        else none := by
  obtain ⟨k, v⟩ := kv
  have hlen : (dumpsMember (k, v)).length
      = (k.flatMap escapeChar).length + (dumps v).length + 3 := by
    simp only [dumpsMember, memberText, strText, List.length_append, List.length_cons, List.length_nil]
    omega
  -- the fuel is enough for the key, the value and the three characters around them
  have hkey := length_le_escape k
  have hv : ReadsDumps v := hv
  have hquote : skipSpace (dumpsMember (k, v) ++ s)
      = cp 34 :: (k.flatMap escapeChar ++ cp 34 :: cp 58 :: (dumps v ++ s)) := by
    rw [dumpsMember, memberText, strText, List.cons_append, List.cons_append,
      skipSpace_cons (by decide)]
    simp only [List.append_assoc, List.cons_append, List.nil_append]
  have hcolon : skipSpace (cp 58 :: (dumps v ++ s)) = cp 58 :: (dumps v ++ s) :=
    skipSpace_cons (by decide) _
  have hval : readValue fuel (dumps v ++ s) = some (v, s) := hv fuel s (by omega) hs
  rw [readMembers, hquote]
  simp only [if_true, readString_strText k _ fuel (by omega), hcolon, hval]

/-- The members of an object are read back. -/
theorem readMembers_dumps : ∀ {kvs : Items}, kvs ≠ [] → (∀ kv ∈ kvs, ReadsDumps kv.2) →
    ∀ (fuel : Nat) (s : Str), (commaJoin (kvs.map dumpsMember)).length < fuel →
    readMembers fuel (commaJoin (kvs.map dumpsMember) ++ cp 125 :: s) = some (kvs, s)
  | [], hne, _, _, _, _ => absurd rfl hne
  | [kv], _, h, fuel + 1, s, hf => by
      have hskip : skipSpace (cp 125 :: s) = cp 125 :: s := skipSpace_cons (by decide) s
      have hcomma : cp 125 ≠ cp 44 := by decide
      rw [List.map_singleton, commaJoin, readMembers_member (h kv List.mem_cons_self)
        (Nat.lt_succ_iff.mp hf) (stops_cons (by decide) s)]
      simp only [hskip, hcomma, if_true, if_false]
  | kv :: lw :: kvs, _, h, fuel + 1, s, hf => by
      rw [List.map_cons, List.map_cons, commaJoin_cons_cons, ← List.map_cons] at hf ⊢
      rw [List.length_append, List.length_cons] at hf
      have hpos : 0 < (dumpsMember kv).length := Nat.succ_pos _
      have hskip : ∀ t, skipSpace (cp 44 :: t) = cp 44 :: t := skipSpace_cons (by decide)
      have hrest := readMembers_dumps (List.cons_ne_nil lw kvs)
        (fun u hu => h u (List.mem_cons_of_mem kv hu)) fuel s (by omega)
      rw [List.append_assoc, List.cons_append, readMembers_member (h kv List.mem_cons_self)
        (by omega) (stops_cons (by decide) _)]
      simp only [hskip, if_true]
      rw [hrest]
      rfl
  | _ :: _, _, _, 0, _, hf => absurd hf (Nat.not_lt_zero _)

/-- A list is plain where its elements are. -/
theorem plainList_iff : ∀ {vs : List Val}, PlainList vs ↔ ∀ v ∈ vs, Plain v
  | [] => by simp [PlainList]
  | v :: vs => by rw [PlainList, List.forall_mem_cons, plainList_iff]

/-- A dictionary is plain where its values are. -/
theorem plainItems_iff : ∀ {kvs : Items}, PlainItems kvs ↔ ∀ kv ∈ kvs, Plain kv.2
  | [] => by simp [PlainItems]
  | (k, v) :: kvs => by rw [PlainItems, List.forall_mem_cons, plainItems_iff]

/-- The members of an object, in the order they are written. -/
theorem members_eq (kvs : Items) : (dumpsItems kvs).map memberText = kvs.map dumpsMember := by
  rw [dumpsItems_eq_map, List.map_map]
  rfl

/-- A word is read where its first letter says so. -/
theorem readWord_append (w : Str) (v : Val) (s : Str) : readWord w v (w ++ s) = some (v, s) := by
  rw [readWord, if_pos (List.isPrefixOf_iff_prefix.mpr (List.prefix_append w s)),
    List.drop_left]

/-- Elements that are read back make a list that is. -/
theorem readsDumps_list {vs : List Val} (h : ∀ v ∈ vs, IsJson v ∧ ReadsDumps v) :
    ReadsDumps (.list vs) := by
  intro fuel s hf _
  rw [dumps, dumpsList_eq_map] at hf ⊢
  rw [List.cons_append, List.append_assoc, List.singleton_append]
  rw [List.length_cons, List.length_append, List.length_singleton] at hf
  obtain ⟨fuel, rfl⟩ : ∃ n, fuel = n + 1 := ⟨fuel - 1, by omega⟩
  have hopen : ∀ t, skipSpace (cp 91 :: t) = cp 91 :: t := skipSpace_cons (by decide)
  have hquote : cp 91 ≠ cp 34 := by decide
  rw [readValue, hopen]
  simp only [hquote, if_true, if_false]
  cases vs with
  | nil =>
      have hclose : skipSpace (cp 93 :: s) = cp 93 :: s := skipSpace_cons (by decide) s
      simp only [List.map_nil, commaJoin, List.nil_append, hclose, List.head?_cons, List.tail_cons,
        if_true]
  | cons v vs =>
      -- the first element keeps the list from being read as the empty one
      have hne : (skipSpace (commaJoin ((v :: vs).map dumps) ++ cp 93 :: s)).head?
          ≠ some (cp 93) := by
        obtain ⟨c, t, hc, hspace, hbracket⟩ := dumps_cons (h v List.mem_cons_self).1
        obtain ⟨t', ht'⟩ : ∃ t', commaJoin ((v :: vs).map dumps) = c :: t' := by
          rw [List.map_cons, hc]
          cases vs with
          | nil => exact ⟨t, rfl⟩
          | cons w ws => exact ⟨_, rfl⟩
        rw [ht', List.cons_append, skipSpace_cons hspace, List.head?_cons]
        exact fun hcon => hbracket (Option.some.inj hcon)
      rw [if_neg hne, readElements_dumps (List.cons_ne_nil v vs) h fuel s (by omega)]
      rfl

/-- Bound values that are read back make a dictionary that is. -/
theorem readsDumps_dict {kvs : Items} (h : ∀ kv ∈ kvs, ReadsDumps kv.2) : ReadsDumps (.dict kvs) := by
  intro fuel s hf _
  rw [dumps, members_eq] at hf ⊢
  rw [List.cons_append, List.append_assoc, List.singleton_append]
  rw [List.length_cons, List.length_append, List.length_singleton] at hf
  obtain ⟨fuel, rfl⟩ : ∃ n, fuel = n + 1 := ⟨fuel - 1, by omega⟩
  have hopen : ∀ t, skipSpace (cp 123 :: t) = cp 123 :: t := skipSpace_cons (by decide)
  have hquote : cp 123 ≠ cp 34 := by decide
  have hbracket : cp 123 ≠ cp 91 := by decide
  rw [readValue, hopen]
  simp only [hquote, hbracket, if_true, if_false]
  cases kvs with
  | nil =>
      -- an empty object is closed at once
      have hclose : skipSpace (cp 125 :: s) = cp 125 :: s := skipSpace_cons (by decide) s
      simp only [List.map_nil, commaJoin, List.nil_append, hclose, List.head?_cons, List.tail_cons,
        if_true]
  | cons kv kvs =>
      -- the first member starts with a quote, so the object is not empty
      have hne : (skipSpace (commaJoin ((kv :: kvs).map dumpsMember) ++ cp 125 :: s)).head?
          ≠ some (cp 125) := by
        obtain ⟨t, ht⟩ : ∃ t, commaJoin ((kv :: kvs).map dumpsMember) = cp 34 :: t := by
          cases kvs with
          | nil => exact ⟨_, rfl⟩
          | cons lw kvs => exact ⟨_, rfl⟩
        rw [ht, List.cons_append, skipSpace_cons (by decide), List.head?_cons]
        exact fun hcon => absurd (Option.some.inj hcon) (by decide)
      rw [if_neg hne, readMembers_dumps (List.cons_ne_nil kv kvs) h fuel s (by omega)]
      rfl

/-- A word starting with one of the three letters is read back. -/
theorem readWord_dumps {v : Val} {w : Str} {fuel : Nat} (s : Str)
    (hw : ∀ t, readValue (fuel + 1) (w ++ t) = readWord w v (w ++ t)) :
    readValue (fuel + 1) (w ++ s) = some (v, s) := by
  rw [hw, readWord_append]

/-- A character of a number is not taken for the start of another value. -/
theorem readValue_number {fuel : Nat} {c : CodePoint} (h : isDigit c = true ∨ c = cp 45) (s : Str) :
    readValue (fuel + 1) (c :: s) = (readNumber (c :: s) <|> readConstant (c :: s)) := by
  have ne : ∀ d, isDigit d = false → d ≠ cp 45 → c ≠ d := by
    rintro d hd hminus rfl
    rcases h with h | h
    · rw [hd] at h; exact Bool.noConfusion h
    · exact hminus h
  have hspace : isJsonSpace c = false := by
    simp only [isJsonSpace, decide_eq_false_iff_not, not_or]
    exact ⟨ne _ (by decide) (by decide), ne _ (by decide) (by decide), ne _ (by decide) (by decide),
      ne _ (by decide) (by decide)⟩
  rw [readValue, skipSpace_cons hspace]
  simp only [ne (cp 34) (by decide) (by decide), ne (cp 91) (by decide) (by decide),
    ne (cp 123) (by decide) (by decide), ne (cp 110) (by decide) (by decide),
    ne (cp 116) (by decide) (by decide), ne (cp 102) (by decide) (by decide), if_false]

/-- Floats are read back. -/
theorem readsDumps_float {x : PyFloat} (h : x.IsDouble) : ReadsDumps (.float x) := by
  intro fuel s hf hs
  cases x with
  | finite q =>
      obtain ⟨c, rest, hc, hnum⟩ := floatText_cons h
      have hc' : dumps (.float (.finite q)) = c :: rest := hc
      obtain ⟨fuel, rfl⟩ : ∃ n, fuel = n + 1 :=
        ⟨fuel - 1, by rw [hc', List.length_cons] at hf; omega⟩
      have hread := readNumber_floatText h hs
      rw [hc, List.cons_append] at hread
      rw [hc', List.cons_append, readValue_number hnum, hread]
      rfl
  | inf negative =>
      cases negative with
      -- the constants that only Python writes and reads
      | false =>
          obtain ⟨fuel, rfl⟩ : ∃ n, fuel = n + 1 :=
            ⟨fuel - 1, by simp [dumps, text, floatText, lit_eq] at hf; omega⟩
          exact readWord_dumps s fun t => rfl
      | true =>
          obtain ⟨fuel, rfl⟩ : ∃ n, fuel = n + 1 :=
            ⟨fuel - 1, by simp [dumps, text, floatText, lit_eq] at hf; omega⟩
          exact readWord_dumps s fun t => rfl
  | nan =>
      obtain ⟨fuel, rfl⟩ : ∃ n, fuel = n + 1 :=
        ⟨fuel - 1, by simp [dumps, text, floatText, lit_eq] at hf; omega⟩
      exact readWord_dumps s fun t => rfl

mutual
/-- **Every JSON value is read back.** -/
theorem readsDumps : ∀ {v : Val}, IsJson v → ReadsDumps v
  | .null, _ => fun fuel s hf _ => by
      obtain ⟨fuel, rfl⟩ : ∃ n, fuel = n + 1 := ⟨fuel - 1, by simp [dumps, text, lit_eq] at hf; omega⟩
      exact readWord_dumps s fun t => rfl
  | .bool true, _ => fun fuel s hf _ => by
      obtain ⟨fuel, rfl⟩ : ∃ n, fuel = n + 1 := ⟨fuel - 1, by simp [dumps, text, lit_eq] at hf; omega⟩
      exact readWord_dumps s fun t => rfl
  | .bool false, _ => fun fuel s hf _ => by
      obtain ⟨fuel, rfl⟩ : ∃ n, fuel = n + 1 := ⟨fuel - 1, by simp [dumps, text, lit_eq] at hf; omega⟩
      exact readWord_dumps s fun t => rfl
  | .int z, _ => fun fuel s hf hs => by
      -- a number starts with a digit or a minus, so it is no word
      obtain ⟨c, rest, hc, hnum⟩ := intText_cons z
      obtain ⟨fuel, rfl⟩ : ∃ n, fuel = n + 1 :=
        ⟨fuel - 1, by rw [dumps_int, hc, List.length_cons] at hf; omega⟩
      rw [dumps_int, hc, List.cons_append, readValue_number hnum, ← List.cons_append, ← hc,
        readNumber_intText z hs]
      rfl
  | .float x, h => readsDumps_float h
  | .str k, _ => fun fuel s hf _ => by
      rw [dumps_str, strText, List.length_cons, List.length_append, List.length_singleton] at hf
      obtain ⟨fuel, rfl⟩ : ∃ n, fuel = n + 1 := ⟨fuel - 1, by omega⟩
      have hquote : ∀ t, skipSpace (cp 34 :: t) = cp 34 :: t := skipSpace_cons (by decide)
      have hkey := length_le_escape k
      rw [dumps_str, strText, List.cons_append, List.append_assoc, List.singleton_append, readValue,
        hquote]
      simp only [if_true, readString_strText k s fuel (by omega), Option.map_some]
  | .list _, h => readsDumps_list (readsDumpsList h)
  | .tuple _, h => h.elim
  | .dict _, h => readsDumps_dict (readsDumpsItems h)

/-- The elements of a list are read back. -/
theorem readsDumpsList : ∀ {vs : List Val}, IsJsonList vs → ∀ v ∈ vs, IsJson v ∧ ReadsDumps v
  | [], _, _, hv => absurd hv List.not_mem_nil
  | v :: vs, h, u, hu => by
      rcases List.mem_cons.mp hu with heq | hmem
      · rw [heq]; exact ⟨h.1, readsDumps h.1⟩
      · exact readsDumpsList h.2 u hmem

/-- The bound values of a dictionary are read back. -/
theorem readsDumpsItems : ∀ {kvs : Items}, IsJsonItems kvs → ∀ kv ∈ kvs, ReadsDumps kv.2
  | [], _, _, hkv => absurd hkv List.not_mem_nil
  | (k, v) :: kvs, h, lw, hlw => by
      rcases List.mem_cons.mp hlw with heq | hmem
      · rw [heq]; exact readsDumps h.1
      · exact readsDumpsItems h.2 lw hmem
end

/-- **Reading what was written.** -/
theorem read_dumps {v : Val} (h : IsJson v) : read (dumps v) = some v := by
  have hread := readsDumps h (dumps v).length [] (Nat.le_refl _) stops_nil
  rw [List.append_nil] at hread
  rw [read, hread]
  rfl

mutual
/-- Sorting leaves a value plain. -/
theorem plain_sorted : ∀ {v : Val}, Plain v → Plain (sorted v)
  | .null, _ | .bool _, _ | .int _, _ | .str _, _ => trivial
  | .float _, h | .tuple _, h => h.elim
  | .list _, h => plainList_sorted h
  | .dict _, h => plainItems_iff.mpr fun kv hkv =>
      plainItems_iff.mp (plainItems_sorted h) kv (mem_sortKeys.mp hkv)

/-- The same of lists. -/
theorem plainList_sorted : ∀ {vs : List Val}, PlainList vs → PlainList (sortedList vs)
  | [], _ => trivial
  | _ :: _, h => ⟨plain_sorted h.1, plainList_sorted h.2⟩

/-- The same of dictionaries. -/
theorem plainItems_sorted : ∀ {kvs : Items}, PlainItems kvs → PlainItems (sortedItems kvs)
  | [], _ => trivial
  | _ :: _, h => ⟨plain_sorted h.1, plainItems_sorted h.2⟩
end

mutual
/-- A value is plain when it is so with its dictionaries sorted. -/
theorem plain_of_sorted : ∀ {v : Val}, Plain (sorted v) → Plain v
  | .null, _ | .bool _, _ | .int _, _ | .str _, _ => trivial
  | .float _, h | .tuple _, h => h.elim
  | .list _, h => plainList_of_sortedList h
  | .dict _, h => plainItems_of_sortedItems <| plainItems_iff.mpr fun kv hkv =>
      plainItems_iff.mp h kv (mem_sortKeys.mpr hkv)

/-- The same of lists. -/
theorem plainList_of_sortedList : ∀ {vs : List Val}, PlainList (sortedList vs) → PlainList vs
  | [], _ => trivial
  | _ :: _, h => ⟨plain_of_sorted h.1, plainList_of_sortedList h.2⟩

/-- The same of dictionaries. -/
theorem plainItems_of_sortedItems : ∀ {kvs : Items}, PlainItems (sortedItems kvs) → PlainItems kvs
  | [], _ => trivial
  | _ :: _, h => ⟨plain_of_sorted h.1, plainItems_of_sortedItems h.2⟩
end

/-- Reading sorted text back gives the value with its dictionaries sorted. -/
theorem read_text {v : Val} (h : Plain v) : read (text v) = some (sorted v) := by
  rw [text_eq_dumps_sorted, read_dumps (plain_sorted h).isJson]

/-- **Text identifies a value** up to the order of its dictionaries. -/
theorem sorted_eq_of_text_eq {v w : Val} (hv : Plain v) (hw : Plain w) (h : text v = text w) :
    sorted v = sorted w := by
  have hread := read_text hv
  rw [h, read_text hw, Option.some.injEq] at hread
  exact hread.symm

/-! ## What text is made of -/

/-- Text without control characters. -/
def Printable (s : Str) : Prop := ∀ c ∈ s, 0x20 ≤ c.val

instance (s : Str) : Decidable (Printable s) :=
  List.decidableBAll (fun c : CodePoint => 0x20 ≤ c.val) s

/-- Printable text is put together to printable text, -/
theorem Printable.append {s t : Str} (hs : Printable s) (ht : Printable t) : Printable (s ++ t) :=
  fun c hc => (List.mem_append.mp hc).elim (hs c) (ht c)

/-- also from single characters. -/
theorem Printable.cons {c : CodePoint} {s : Str} (hc : 0x20 ≤ c.val) (hs : Printable s) :
    Printable (c :: s) :=
  List.forall_mem_cons.mpr ⟨hc, hs⟩

/-- Empty text is printable. -/
theorem printable_nil : Printable [] := fun _ hc => absurd hc List.not_mem_nil

/-- Hexadecimal digits are no control characters. -/
theorem printable_hexDigit : ∀ n < 16, 0x20 ≤ (hexDigit n).val := by
  decide

/-- Escaping leaves no control character. -/
theorem printable_escapeChar (c : CodePoint) : Printable (escapeChar c) := by
  unfold escapeChar
  split_ifs with h₁ h₂ h₃ h₄ h₅ h₆ h₇ hcontrol
  iterate 7 decide
  · -- the hexadecimal escape
    have hfour : Printable [cp 92, cp 117, cp 48, cp 48] := by decide
    refine hfour.append (Printable.cons ?_ (Printable.cons ?_ printable_nil))
    · exact printable_hexDigit _ (by omega)
    · exact printable_hexDigit _ (by omega)
  · exact Printable.cons (not_lt.mp hcontrol) printable_nil

/-- A string literal has no control character. -/
theorem printable_strText (k : Str) : Printable (strText k) := by
  have hbody : Printable (k.flatMap escapeChar) := by
    intro c hc
    obtain ⟨d, -, hd⟩ := List.mem_flatMap.mp hc
    exact printable_escapeChar d c hd
  have hquote : Printable [cp 34] := by decide
  exact Printable.cons (by decide) (hbody.append hquote)

/-- Digits are no control characters. -/
theorem printable_digits {ds : Str} (h : ∀ c ∈ ds, isDigit c = true) : Printable ds := by
  intro c hc
  have hdigit : 48 ≤ c.val ∧ c.val < 58 := by simpa [isDigit] using h c hc
  omega

/-- A number has no control character. -/
theorem printable_natText (n : Nat) : Printable (natText n) := printable_digits (natText_digits n).1

/-- An integer has no control character. -/
theorem printable_intText (z : Int) : Printable (intText z) := by
  unfold intText
  split
  · exact Printable.cons (by decide) (printable_natText _)
  · exact printable_natText _

/-- An exponent has no control character. -/
theorem printable_exponentText (e : Int) : Printable (exponentText e) := by
  refine Printable.cons (by split <;> decide) (Printable.append ?_ (printable_natText _))
  split
  · decide
  · exact printable_nil

/-- A decimal has no control character. -/
theorem printable_decimalText (d : Decimal) : Printable (decimalText d) := by
  have hdigits := printable_natText d.digits
  have hzeros (n : Nat) : Printable (List.replicate n (cp 48)) := printable_digits isDigit_zeros
  have htake (n : Nat) : Printable ((natText d.digits).take n) :=
    fun c hc => hdigits c (List.mem_of_mem_take hc)
  have hdrop (n : Nat) : Printable ((natText d.digits).drop n) :=
    fun c hc => hdigits c (List.mem_of_mem_drop hc)
  rw [decimalText, positional, scientific]
  split_ifs
  · exact Printable.cons (by decide) (Printable.cons (by decide) ((hzeros _).append hdigits))
  · exact (hdigits.append (hzeros _)).append (by decide)
  · exact (htake _).append (Printable.cons (by decide) (hdrop _))
  · exact ((htake _).append printable_nil).append
      (Printable.cons (by decide) (printable_exponentText _))
  · exact ((htake _).append (Printable.cons (by decide) (hdrop _))).append
      (Printable.cons (by decide) (printable_exponentText _))

/-- A float has no control character. -/
theorem printable_floatText : ∀ x : PyFloat, Printable (floatText x)
  | .finite q => by
      rw [floatText]
      split
      · exact Printable.cons (by decide) (printable_decimalText _)
      · exact printable_decimalText _
  | .inf false | .inf true | .nan => by decide

/-- Commas are no control characters. -/
theorem printable_commaJoin : ∀ {ts : List Str}, (∀ t ∈ ts, Printable t) → Printable (commaJoin ts)
  | [], _ => printable_nil
  | [t], h => h t List.mem_cons_self
  | t :: u :: ts, h => by
      rw [commaJoin_cons_cons]
      exact (h t List.mem_cons_self).append (Printable.cons (by decide)
        (printable_commaJoin fun w hw => h w (List.mem_cons_of_mem t hw)))

/-- Brackets are no control characters. -/
theorem printable_enclose {a b : CodePoint} {s : Str} (ha : 0x20 ≤ a.val) (hb : 0x20 ≤ b.val)
    (hs : Printable s) : Printable (a :: (s ++ [b])) :=
  Printable.cons ha (hs.append (Printable.cons hb printable_nil))

mutual
/-- **No control character is written**, no line break in particular. -/
theorem printable_dumps : ∀ v : Val, Printable (dumps v)
  | .null | .bool true | .bool false => by decide
  | .int z => printable_intText z
  | .float x => printable_floatText x
  | .str k => printable_strText k
  | .list vs | .tuple vs =>
      printable_enclose (by decide) (by decide) (printable_commaJoin (printable_dumpsList vs))
  | .dict kvs =>
      printable_enclose (by decide) (by decide) (printable_commaJoin (printable_dumpsItems kvs))

/-- The same of lists. -/
theorem printable_dumpsList : ∀ vs : List Val, ∀ t ∈ dumpsList vs, Printable t
  | [], _, h => absurd h List.not_mem_nil
  | v :: vs, t, h => by
      rcases List.mem_cons.mp h with rfl | hmem
      · exact printable_dumps v
      · exact printable_dumpsList vs t hmem

/-- The same of dictionaries. -/
theorem printable_dumpsItems : ∀ kvs : Items, ∀ t ∈ (dumpsItems kvs).map memberText, Printable t
  | [], _, h => absurd h List.not_mem_nil
  | (k, v) :: kvs, t, h => by
      rcases List.mem_cons.mp h with rfl | hmem
      · exact (printable_strText k).append (Printable.cons (by decide) (printable_dumps v))
      · exact printable_dumpsItems kvs t hmem
end

end OpenWright.Python.Json
