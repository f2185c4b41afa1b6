import FormulaCheck.Json

/-!
# Reading JSON

`Json.read?` reads the text of one JSON value. It is strict: nothing but white space may follow the
value, and a string holds no raw control characters. Reading a container lowers the number of levels
that may still open, so readers recur on that number, which for a whole text is its length; lists of
items recur on the text that is left.
-/

namespace FormulaCheck.Json

namespace Read

/-- White space of JSON, which is not that of other texts. -/
def isSpace (c : Char) : Bool := c ∈ [' ', '\t', '\n', '\r']

def skipSpace (cs : List Char) : List Char := cs.dropWhile isSpace

theorem length_skipSpace_le (cs : List Char) : (skipSpace cs).length ≤ cs.length :=
  (List.dropWhile_suffix _).length_le

abbrev Result (α : Type) := Option (α × List Char)

structure Reader (α : Type) where
  run : List Char → Result α
  shorter : ∀ {cs a rest}, run cs = some (a, rest) → rest.length < cs.length

-- ---------------------------------------------------------------------------
-- Strings
-- ---------------------------------------------------------------------------

def hexValue? (c : Char) : Option Nat :=
  if c.isDigit then some (c.toNat - '0'.toNat)
  else if 'a' ≤ c ∧ c ≤ 'f' then some (c.toNat - 'a'.toNat + 10)
  else if 'A' ≤ c ∧ c ≤ 'F' then some (c.toNat - 'A'.toNat + 10)
  else none

def hexNumber? : List Char → Result Nat
  | a :: b :: c :: d :: rest =>
    match hexValue? a, hexValue? b, hexValue? c, hexValue? d with
    | some a, some b, some c, some d => some (((a * 16 + b) * 16 + c) * 16 + d, rest)
    | _, _, _, _ => none
  | _ => none

def isHighSurrogate (n : Nat) : Bool := 0xD800 ≤ n && n < 0xDC00

def isLowSurrogate (n : Nat) : Bool := 0xDC00 ≤ n && n < 0xE000

inductive Piece
  | char (c : Char)
  | half (n : Nat)
deriving Repr, DecidableEq, Inhabited

def Piece.ofNumber (n : Nat) : Piece :=
  if isHighSurrogate n || isLowSurrogate n then .half n else .char (Char.ofNat n)

def pairedChar (high low : Nat) : Char :=
  Char.ofNat (0x10000 + (high - 0xD800) * 0x400 + (low - 0xDC00))

/-- The text that some pieces stand for, if every half among them has its other half beside it. -/
def textOf? : List Piece → Option (List Char)
  | [] => some []
  | .char c :: pieces => (textOf? pieces).map (c :: ·)
  | .half high :: .half low :: pieces =>
    if isHighSurrogate high && isLowSurrogate low then
      (textOf? pieces).map (pairedChar high low :: ·)
    else none
  | .half _ :: _ => none

def shortEscape? : Char → Option Char
  | '"' => some '"'
  | '\\' => some '\\'
  | '/' => some '/'
  | 'b' => some '\x08'
  | 'f' => some '\x0c'
  | 'n' => some '\n'
  | 'r' => some '\r'
  | 't' => some '\t'
  | _ => none

def escape? : List Char → Result Piece
  | [] => none
  | c :: rest =>
    if c = 'u' then (hexNumber? rest).map fun (n, rest) => (.ofNumber n, rest)
    else (shortEscape? c).map fun c => (.char c, rest)

theorem hexNumber?_shorter {cs rest : List Char} {n : Nat} (h : hexNumber? cs = some (n, rest)) :
    rest.length < cs.length := by
  unfold hexNumber? at h
  split at h
  · split at h
    · cases h; simp only [List.length_cons]; omega
    · cases h
  · cases h

theorem escape?_shorter {cs rest : List Char} {p : Piece} (h : escape? cs = some (p, rest)) :
    rest.length < cs.length := by
  unfold escape? at h
  split at h
  · cases h
  · next d ds =>
    split at h
    · obtain ⟨⟨n, rest'⟩, hn, he⟩ := Option.map_eq_some_iff.1 h
      cases he
      have := hexNumber?_shorter hn
      simp only [List.length_cons]; omega
    · obtain ⟨_, _, he⟩ := Option.map_eq_some_iff.1 h
      cases he
      simp

/-- The pieces of a string up to its end; those so far are given with the last one first. -/
def piecesFrom (done : List Piece) : List Char → Result (List Piece)
  | [] => none
  | c :: cs =>
    if c = '"' then some (done.reverse, cs)
    else if c = '\\' then
      match _h : escape? cs with
      | some (piece, rest) => piecesFrom (piece :: done) rest
      | none => none
    else if c.toNat < 0x20 then none
    else piecesFrom (.char c :: done) cs
termination_by cs => cs.length
decreasing_by
  · have := escape?_shorter _h; simp only [List.length_cons]; omega
  · simp

theorem piecesFrom_shorter {done pieces : List Piece} {cs rest : List Char}
    (h : piecesFrom done cs = some (pieces, rest)) : rest.length < cs.length := by
  fun_induction piecesFrom done cs with
  | case1 => cases h
  | case2 => cases h; simp
  | case3 done cs piece rest' he h₂ ih =>
    have := escape?_shorter he
    have := ih h
    simp only [List.length_cons]; omega
  | case4 => cases h
  | case5 => cases h
  | case6 done c cs _ _ _ ih => have := ih h; simp only [List.length_cons]; omega

def stringFrom (cs : List Char) : Result (Option String) :=
  (piecesFrom [] cs).map fun (pieces, rest) => ((textOf? pieces).map String.ofList, rest)

theorem stringFrom_shorter {cs rest : List Char} {s? : Option String}
    (h : stringFrom cs = some (s?, rest)) : rest.length < cs.length := by
  obtain ⟨⟨pieces, rest'⟩, hp, he⟩ := Option.map_eq_some_iff.1 h
  cases he
  exact piecesFrom_shorter hp

-- ---------------------------------------------------------------------------
-- Numbers
-- ---------------------------------------------------------------------------

/-- The digits of the whole part of a number, which begins with a zero only if that is all of it. -/
def wholeDigits? : List Char → Result (List Char)
  | [] => none
  | c :: cs =>
    if c = '0' then some ([c], cs)
    else if c.isDigit then some (c :: cs.takeWhile Char.isDigit, cs.dropWhile Char.isDigit)
    else none

def digits? (cs : List Char) : Result (List Char) :=
  match cs.takeWhile Char.isDigit with
  | [] => none
  | ds => some (ds, cs.dropWhile Char.isDigit)

def fraction? : List Char → Result (List Char)
  | '.' :: cs => (digits? cs).map fun (ds, rest) => ('.' :: ds, rest)
  | cs => some ([], cs)

/-- The exponent mark, a sign if there is one, and the digits; or nothing if there is no mark. -/
def exponent? : List Char → Result (List Char)
  | [] => some ([], [])
  | e :: cs =>
    if e = 'e' ∨ e = 'E' then
      match cs with
      | s :: more =>
        if s = '+' ∨ s = '-' then (digits? more).map fun (ds, rest) => (e :: s :: ds, rest)
        else (digits? cs).map fun (ds, rest) => (e :: ds, rest)
      | [] => none
    else some ([], e :: cs)

def decimal (digits : List Char) : Nat := Nat.ofDigitChars 10 digits 0

def unsigned (whole more : List Char) : Json :=
  if more.isEmpty ∧ decimal whole < UInt64.size then .natural (decimal whole)
  else .otherNumber (String.ofList (whole ++ more))

def number? (cs : List Char) : Result Json :=
  let (sign, cs) := match cs with
    | '-' :: cs => (['-'], cs)
    | cs => ([], cs)
  match wholeDigits? cs with
  | none => none
  | some (whole, cs) =>
    match fraction? cs with
    | none => none
    | some (fraction, cs) =>
      match exponent? cs with
      | none => none
      | some (exponent, cs) =>
        if sign.isEmpty then some (unsigned whole (fraction ++ exponent), cs)
        else some (.otherNumber (String.ofList (sign ++ whole ++ fraction ++ exponent)), cs)

theorem length_dropWhile_le (p : Char → Bool) (cs : List Char) :
    (cs.dropWhile p).length ≤ cs.length :=
  (List.dropWhile_suffix _).length_le

theorem wholeDigits?_shorter {cs rest ds : List Char} (h : wholeDigits? cs = some (ds, rest)) :
    rest.length < cs.length := by
  unfold wholeDigits? at h
  split at h
  · cases h
  · next c cs =>
    have := length_dropWhile_le Char.isDigit cs
    repeat' split at h
    all_goals cases h
    all_goals simp only [List.length_cons]; omega

theorem digits?_length_le {cs rest ds : List Char} (h : digits? cs = some (ds, rest)) :
    rest.length ≤ cs.length := by
  unfold digits? at h
  split at h
  · cases h
  · cases h; exact length_dropWhile_le _ _

theorem fraction?_length_le {cs rest ds : List Char} (h : fraction? cs = some (ds, rest)) :
    rest.length ≤ cs.length := by
  unfold fraction? at h
  split at h
  · obtain ⟨⟨ds', rest'⟩, hd, he⟩ := Option.map_eq_some_iff.1 h
    cases he
    have := digits?_length_le hd
    simp only [List.length_cons]; omega
  · cases h; exact Nat.le_refl _

theorem exponent?_length_le {cs rest ds : List Char} (h : exponent? cs = some (ds, rest)) :
    rest.length ≤ cs.length := by
  unfold exponent? at h
  split at h
  · cases h; exact Nat.le_refl _
  · split at h
    · split at h
      · split at h
        all_goals
          obtain ⟨⟨ds', rest'⟩, hd, he⟩ := Option.map_eq_some_iff.1 h
          cases he
          have := digits?_length_le hd
          simp only [List.length_cons] at *; omega
      · cases h
    · cases h; exact Nat.le_refl _

theorem number?_shorter {cs rest : List Char} {v : Json} (h : number? cs = some (v, rest)) :
    rest.length < cs.length := by
  unfold number? at h
  dsimp only at h
  have hsign : (match cs with
      | '-' :: cs => (['-'], cs)
      | cs => (([] : List Char), cs)).2.length ≤ cs.length := by
    split <;> simp
  split at h
  · cases h
  · next whole cs₁ h₁ =>
    have := wholeDigits?_shorter h₁
    split at h
    · cases h
    · next fraction cs₂ h₂ =>
      have := fraction?_length_le h₂
      split at h
      · cases h
      · next exponent cs₃ h₃ =>
        have := exponent?_length_le h₃
        split at h <;> cases h <;> omega

-- ---------------------------------------------------------------------------
-- Values
-- ---------------------------------------------------------------------------

/-- Items with commas between them, up to the character that closes the list; the items so far are
given with the last one first. -/
def itemsFrom (item : Reader α) (close : Char) (done : List α) (cs : List Char) :
    Result (List α) :=
  match _h : item.run cs with
  | none => none
  | some (a, after) =>
    match _hs : skipSpace after with
    | [] => none
    | c :: rest =>
      if c = ',' then itemsFrom item close (a :: done) rest
      else if c = close then some ((a :: done).reverse, rest)
      else none
termination_by cs.length
decreasing_by
  have h₁ := item.shorter _h
  have h₂ := length_skipSpace_le after
  simp only [_hs, List.length_cons] at h₂; omega

theorem itemsFrom_shorter {item : Reader α} {close : Char} {done items : List α}
    {cs rest : List Char} (h : itemsFrom item close done cs = some (items, rest)) :
    rest.length < cs.length := by
  fun_induction itemsFrom item close done cs with
  | case1 => cases h
  | case2 => cases h
  | case3 done cs a rest₁ h₁ rest₂ hs ih =>
    have := item.shorter h₁
    have h₂ := length_skipSpace_le rest₁
    simp only [hs, List.length_cons] at h₂
    have := ih h
    omega
  | case4 done cs a rest₁ h₁ rest₂ hs =>
    have := item.shorter h₁
    have h₂ := length_skipSpace_le rest₁
    simp only [hs, List.length_cons] at h₂
    cases h
    omega
  | case5 => cases h

def listOf (item : Reader α) (close : Char) (cs : List Char) : Result (List α) :=
  match skipSpace cs with
  | [] => none
  | c :: rest => if c = close then some ([], rest) else itemsFrom item close [] (c :: rest)

theorem listOf_length_le {item : Reader α} {close : Char} {items : List α} {cs rest : List Char}
    (h : listOf item close cs = some (items, rest)) : rest.length ≤ cs.length := by
  have hs := length_skipSpace_le cs
  unfold listOf at h
  split at h
  · cases h
  · next heq =>
    rw [heq] at hs
    split at h
    · cases h; simp only [List.length_cons] at hs; omega
    · have := itemsFrom_shorter h; omega

def memberFrom (value : Reader Json) (cs : List Char) : Result (Option String × Json) :=
  match skipSpace cs with
  | '"' :: cs =>
    match stringFrom cs with
    | none => none
    | some (name, cs) =>
      match skipSpace cs with
      | ':' :: cs => (value.run cs).map fun (v, rest) => ((name, v), rest)
      | _ => none
  | _ => none

def member (value : Reader Json) : Reader (Option String × Json) where
  run := memberFrom value
  shorter := by
    intro cs m rest h
    have hs := length_skipSpace_le cs
    unfold memberFrom at h
    split at h
    · next heq =>
      rw [heq] at hs
      split at h
      · cases h
      · next name cs₁ h₁ =>
        have := stringFrom_shorter h₁
        have hs₁ := length_skipSpace_le cs₁
        split at h
        · next heq₁ =>
          rw [heq₁] at hs₁
          obtain ⟨⟨v, rest'⟩, hv, he⟩ := Option.map_eq_some_iff.1 h
          cases he
          have := value.shorter hv
          simp only [List.length_cons] at hs hs₁; omega
        · cases h
    · cases h

def ofText (s? : Option String) : Json :=
  match s? with
  | some s => .string s
  | none => .unpaired

def ofMembers (members : List (Option String × Json)) : Json :=
  match members.mapM fun (name?, value) => name?.map fun name => (name, value) with
  | some members => .object members
  | none => .unpaired

def word? (word : String) (value : Json) (cs : List Char) : Result Json :=
  if word.toList.isPrefixOf cs then some (value, cs.drop word.length) else none

/-- The reader for the values inside an array or object, if another level may open. It is made
when one opens. -/
abbrev Deeper := Option (Unit → Reader Json)

def valueAt (deeper? : Deeper) (c : Char) (cs : List Char) : Result Json :=
  if c = '"' then (stringFrom cs).map fun (s?, rest) => (ofText s?, rest)
  else if c = '[' then
    match deeper? with
    | none => none
    | some value => (listOf (value ()) ']' cs).map fun (items, rest) => (.array items, rest)
  else if c = '\x7b' then
    match deeper? with
    | none => none
    | some value =>
      (listOf (member (value ())) '\x7d' cs).map fun (members, rest) => (ofMembers members, rest)
  else if c = 'n' then word? "null" .null (c :: cs)
  else if c = 't' then word? "true" (.bool true) (c :: cs)
  else if c = 'f' then word? "false" (.bool false) (c :: cs)
  else number? (c :: cs)

def valueFrom (deeper? : Deeper) (cs : List Char) : Result Json :=
  match skipSpace cs with
  | [] => none
  | c :: cs => valueAt deeper? c cs

theorem word?_shorter {word : String} {value v : Json} {cs rest : List Char}
    (hw : 0 < word.length) (h : word? word value cs = some (v, rest)) :
    rest.length < cs.length := by
  unfold word? at h
  split at h
  · next hp =>
    cases h
    have := (List.isPrefixOf_iff_prefix.1 hp).length_le
    rw [String.length_toList] at this
    simp only [List.length_drop]; omega
  · cases h

theorem valueAt_shorter {deeper? : Deeper} {c : Char} {cs rest : List Char} {v : Json}
    (h : valueAt deeper? c cs = some (v, rest)) : rest.length < (c :: cs).length := by
  unfold valueAt at h
  split at h
  · obtain ⟨⟨s?, rest'⟩, hs, he⟩ := Option.map_eq_some_iff.1 h
    cases he
    have := stringFrom_shorter hs
    simp only [List.length_cons]; omega
  split at h
  · split at h
    · cases h
    · obtain ⟨⟨items, rest'⟩, hl, he⟩ := Option.map_eq_some_iff.1 h
      cases he
      have := listOf_length_le hl
      simp only [List.length_cons]; omega
  split at h
  · split at h
    · cases h
    · obtain ⟨⟨members, rest'⟩, hl, he⟩ := Option.map_eq_some_iff.1 h
      cases he
      have := listOf_length_le hl
      simp only [List.length_cons]; omega
  split at h
  · exact word?_shorter (by decide) h
  split at h
  · exact word?_shorter (by decide) h
  split at h
  · exact word?_shorter (by decide) h
  · exact number?_shorter h

def valueOver (deeper? : Deeper) : Reader Json where
  run := valueFrom deeper?
  shorter := by
    intro cs v rest h
    have hs := length_skipSpace_le cs
    unfold valueFrom at h
    split at h
    · cases h
    · next heq =>
      rw [heq] at hs
      have := valueAt_shorter h
      omega

def value : (levels : Nat) → Reader Json
  | 0 => valueOver none
  | levels + 1 => valueOver (some fun _ => value levels)

end Read

/-- The value that a text stands for, if it is the text of a JSON value. A text opens no more levels
than it has characters. -/
def read? (text : String) : Option Json :=
  match (Read.value text.length).run text.toList with
  | some (v, rest) => if (Read.skipSpace rest).isEmpty then some v else none
  | none => none

end FormulaCheck.Json
