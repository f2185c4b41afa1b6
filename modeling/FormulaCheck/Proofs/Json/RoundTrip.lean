import FormulaCheck.Json.Read
import Mathlib.Data.List.Basic

/-!
# JSON is read back as it was written

The text of a value, in any layout and in front of any text, is read back as that value
(`Read.run_write`), and so is a text that holds nothing else (`read?_render`). This is so for the
values that JSON texts can stand for without loss (`Plain`): their numbers are naturals below
`2^64`, and every string in them is a text.

A reader recurs on the levels of arrays and objects that may still open. A text has more characters
than its value has levels (`Plain.of_length_write`).
-/

namespace FormulaCheck.Json

/-- A value that nests at most so many levels deep, with nothing in it that its text leaves open. -/
inductive Plain : Nat → Json → Prop
  | null : Plain n .null
  | bool : Plain n (.bool b)
  | natural : k < UInt64.size → Plain n (.natural k)
  | string : Plain n (.string s)
  | array : (∀ v ∈ items, Plain n v) → Plain (n + 1) (.array items)
  | object : (∀ m ∈ members, Plain n m.2) → Plain (n + 1) (.object members)

namespace Read

-- ---------------------------------------------------------------------------
-- Strings
-- ---------------------------------------------------------------------------

theorem hexValue?_digitChar : ∀ k < 16, hexValue? (Nat.digitChar k) = some k := by decide

theorem hexNumber?_byte (h : n < 256) :
    hexNumber? ('0' :: '0' :: Nat.digitChar (n / 16) :: Nat.digitChar (n % 16) :: rest) =
      some (n, rest) := by
  have hzero : hexValue? '0' = some 0 := by decide
  have hhigh := hexValue?_digitChar (n / 16) (by omega)
  have hlow := hexValue?_digitChar (n % 16) (by omega)
  simp only [hexNumber?, hzero, hhigh, hlow, Option.some.injEq, Prod.mk.injEq, and_true]
  omega

theorem escape?_control (h : Char.toNat c < 0x20) :
    escape? ('u' :: '0' :: '0' :: Nat.digitChar (c.toNat / 16) :: Nat.digitChar (c.toNat % 16) ::
      rest) = some (.char c, rest) := by
  have hpiece : Piece.ofNumber c.toNat = .char c := by
    simp only [Piece.ofNumber, isHighSurrogate, isLowSurrogate, Char.ofNat_toNat]
    rw [if_neg]
    simp only [Bool.or_eq_true, Bool.and_eq_true, decide_eq_true_eq]
    omega
  simp [escape?, hexNumber?_byte (Nat.lt_trans h (by decide)), hpiece]

theorem piecesFrom_quote : piecesFrom done ('"' :: cs) = some (done.reverse, cs) := by
  rw [piecesFrom, if_pos rfl]

theorem piecesFrom_escape (h : escape? cs = some (piece, rest)) :
    piecesFrom done ('\\' :: cs) = piecesFrom (piece :: done) rest := by
  rw [piecesFrom, if_neg (by decide), if_pos rfl]
  split <;> simp_all

theorem piecesFrom_escapeChar (c : Char) :
    piecesFrom done (escapeChar c ++ cs) = piecesFrom (.char c :: done) cs := by
  unfold escapeChar
  iterate 7
    split
    · next h => subst h; exact piecesFrom_escape rfl
  split
  · next h => exact piecesFrom_escape (escape?_control h)
  · next hquote hslash _ _ _ _ _ hcontrol =>
    rw [List.singleton_append, piecesFrom, if_neg hquote, if_neg hslash, if_neg hcontrol]

theorem piecesFrom_flatMap (cs : List Char) :
    piecesFrom done (cs.flatMap escapeChar ++ '"' :: rest) =
      some (done.reverse ++ cs.map .char, rest) := by
  induction cs generalizing done with
  | nil => simpa using piecesFrom_quote
  | cons c cs ih => simp [piecesFrom_escapeChar, ih]

theorem textOf?_map_char (cs : List Char) : textOf? (cs.map .char) = some cs := by
  induction cs with
  | nil => rfl
  | cons c cs ih => simp [textOf?, ih]

theorem stringFrom_flatMap (s : String) :
    stringFrom (s.toList.flatMap escapeChar ++ '"' :: rest) = some (some s, rest) := by
  simp [stringFrom, piecesFrom_flatMap, textOf?_map_char]

-- ---------------------------------------------------------------------------
-- Numbers
-- ---------------------------------------------------------------------------

/-- No number goes on with these characters. -/
def EndsNumber (cs : List Char) : Prop :=
  ∀ c rest, cs = c :: rest → c.isDigit = false ∧ c ∉ ['.', 'e', 'E']

theorem EndsNumber.nil : EndsNumber [] := by rintro _ _ ⟨⟩

theorem EndsNumber.cons (h : Char.isDigit c = false) (hc : c ∉ ['.', 'e', 'E']) :
    EndsNumber (c :: cs) := by
  rintro _ _ ⟨⟩
  exact ⟨h, hc⟩

theorem EndsNumber.takeWhile (h : EndsNumber rest) (hds : ∀ d ∈ ds, Char.isDigit d = true) :
    (ds ++ rest).takeWhile Char.isDigit = ds ∧ (ds ++ rest).dropWhile Char.isDigit = rest := by
  rw [List.takeWhile_append_of_pos hds, List.dropWhile_append_of_pos hds]
  cases rest with
  | nil => simp
  | cons c rest => simp [(h c rest rfl).1]

theorem EndsNumber.fraction? (h : EndsNumber rest) : fraction? rest = some ([], rest) := by
  unfold Read.fraction?
  split
  · next cs => simpa using (h '.' cs rfl).2
  · rfl

theorem EndsNumber.exponent? (h : EndsNumber rest) : exponent? rest = some ([], rest) := by
  unfold Read.exponent?
  split
  · rfl
  · next e cs =>
    have he := (h e cs rfl).2
    simp_all

theorem toDigits_eq_cons (n : Nat) : ∃ d ds, Nat.toDigits 10 n = d :: ds ∧ d.isDigit = true := by
  obtain ⟨d, ds, hds⟩ := List.exists_cons_of_ne_nil (@Nat.toDigits_ne_nil n 10)
  have hmem : d ∈ Nat.toDigits 10 n := hds ▸ List.mem_cons_self
  exact ⟨d, ds, hds, Nat.isDigit_of_mem_toDigits (by decide) (by decide) hmem⟩

theorem ne_of_isDigit (hd : Char.isDigit d = true) (hc : Char.isDigit c = false) : d ≠ c := by
  rintro rfl
  exact Bool.false_ne_true (hc.symm.trans hd)

theorem head?_toDigits (h : n ≠ 0) : (Nat.toDigits 10 n).head? ≠ some '0' := by
  induction n using Nat.strongRecOn with
  | ind n ih =>
    rw [Nat.toDigits_eq_if (by decide)]
    split
    · next hn => simpa using h
    · next hn =>
      rw [List.head?_append_of_ne_nil _ Nat.toDigits_ne_nil]
      exact ih (n / 10) (by omega) (by omega)

theorem wholeDigits?_toDigits (h : EndsNumber rest) :
    wholeDigits? (Nat.toDigits 10 n ++ rest) = some (Nat.toDigits 10 n, rest) := by
  have hdigits : ∀ d ∈ Nat.toDigits 10 n, d.isDigit = true := fun d hd =>
    Nat.isDigit_of_mem_toDigits (by decide) (by decide) hd
  rcases Nat.eq_zero_or_pos n with rfl | hn
  · rfl
  · have hhead := head?_toDigits (Nat.ne_of_gt hn)
    cases hds : Nat.toDigits 10 n with
    | nil => exact absurd hds Nat.toDigits_ne_nil
    | cons d ds =>
      rw [hds] at hdigits hhead
      obtain ⟨htake, hdrop⟩ := h.takeWhile fun d hd => hdigits d (.tail _ hd)
      have hd : d ≠ '0' := by simpa using hhead
      simp [wholeDigits?, hd, hdigits d, htake, hdrop]

theorem number?_toDigits (hn : n < UInt64.size) (h : EndsNumber rest) :
    number? (Nat.toDigits 10 n ++ rest) = some (.natural n, rest) := by
  have hdecimal : decimal (Nat.toDigits 10 n) = n := Nat.ofDigitChars_ten_toDigits
  unfold number?
  split
  next sign cs hsign =>
  split at hsign
  · next cs' hcs =>
    -- a minus sign is no digit
    obtain ⟨d, ds, hds, hd⟩ := toDigits_eq_cons n
    rw [hds] at hcs
    cases hcs
    cases hd
  · cases hsign
    simp [wholeDigits?_toDigits h, h.fraction?, h.exponent?, unsigned, hdecimal, hn]

-- ---------------------------------------------------------------------------
-- Lists
-- ---------------------------------------------------------------------------

theorem isSpace_of_mem_lineBreak (h : c ∈ Layout.lineBreak layout depth) : isSpace c = true := by
  cases layout with
  | compact => cases h
  | indented =>
    rcases List.mem_cons.mp h with rfl | h
    · rfl
    · rw [List.eq_of_mem_replicate h]
      rfl

theorem skipSpace_append (h : ∀ c ∈ ws, isSpace c = true) : skipSpace (ws ++ cs) = skipSpace cs :=
  List.dropWhile_append_of_pos h

theorem skipSpace_cons (h : isSpace c = false) : skipSpace (c :: cs) = c :: cs := by
  simp [skipSpace, h]

def writeMore (layout : Layout) (depth : Nat) (put : α → List Char → List Char) (close : Char)
    (rest : List Char) : List α → List Char
  | [] => layout.lineBreak depth ++ close :: rest
  | a :: as =>
    ',' :: layout.lineBreak (depth + 1) ++ put a (writeMore layout depth put close rest as)

def writeValue (layout : Layout) (depth : Nat) (v : Json) (rest : List Char) : List Char :=
  write layout depth rest v

def writeMember (layout : Layout) (depth : Nat) (m : String × Json) (rest : List Char) :
    List Char :=
  writeString m.1 (layout.colon ++ write layout depth rest m.2)

theorem writeItems_eq (items : List Json) : writeItems layout depth rest items =
    writeMore layout depth (writeValue layout (depth + 1)) ']' rest items := by
  induction items with
  | nil => rfl
  | cons v items ih => exact congrArg (fun more => _ ++ write _ _ more v) ih

theorem writeMembers_eq (members : List (String × Json)) :
    writeMembers layout depth rest members =
      writeMore layout depth (writeMember layout (depth + 1)) '\x7d' rest members := by
  induction members with
  | nil => rfl
  | cons m members ih =>
    exact congrArg (fun more => _ ++ writeString m.1 (_ ++ write _ _ more m.2)) ih

section

variable {layout : Layout} {depth n : Nat} {rest : List Char} {v : Json} {items : List Json}
  {m : String × Json} {members : List (String × Json)} {s : String}

@[simp] theorem write_null : write layout depth rest .null = "null".toList ++ rest := rfl

@[simp] theorem write_true : write layout depth rest (.bool true) = "true".toList ++ rest := rfl

@[simp] theorem write_false : write layout depth rest (.bool false) = "false".toList ++ rest := rfl

@[simp] theorem write_natural :
    write layout depth rest (.natural n) = Nat.toDigits 10 n ++ rest := by
  rw [← Nat.toList_repr]
  rfl

@[simp] theorem write_string : write layout depth rest (.string s) = writeString s rest := rfl

@[simp] theorem write_array_nil : write layout depth rest (.array []) = '[' :: ']' :: rest := rfl

@[simp] theorem write_array_cons : write layout depth rest (.array (v :: items)) =
    '[' :: layout.lineBreak (depth + 1) ++ writeValue layout (depth + 1) v
      (writeMore layout depth (writeValue layout (depth + 1)) ']' rest items) := by
  rw [← writeItems_eq]
  rfl

@[simp] theorem write_object_nil :
    write layout depth rest (.object []) = '\x7b' :: '\x7d' :: rest := rfl

@[simp] theorem write_object_cons : write layout depth rest (.object (m :: members)) =
    '\x7b' :: layout.lineBreak (depth + 1) ++ writeMember layout (depth + 1) m
      (writeMore layout depth (writeMember layout (depth + 1)) '\x7d' rest members) := by
  rw [← writeMembers_eq]
  rfl

end

def Closes (c : Char) : Prop := c = ']' ∨ c = '\x7d'

theorem endsNumber_writeMore (hclose : Closes close) (as : List α) :
    EndsNumber (writeMore layout depth put close rest as) := by
  cases as with
  | nil =>
    cases layout with
    | compact => rcases hclose with rfl | rfl <;> exact .cons rfl (by decide)
    | indented => exact .cons rfl (by decide)
  | cons a as => exact .cons rfl (by decide)

section

variable {item : Reader β} {put : α → List Char → List Char} {f : α → β} {close : Char}

theorem itemsFrom_last (hrun : item.run cs = some (b, after))
    (hspace : skipSpace after = close :: rest) (hclose : Closes close) :
    itemsFrom item close done cs = some ((b :: done).reverse, rest) := by
  have hcomma : close ≠ ',' := by rcases hclose with rfl | rfl <;> decide
  rw [itemsFrom]
  split
  · simp_all
  · split <;> simp_all

theorem itemsFrom_more (hrun : item.run cs = some (b, after))
    (hspace : skipSpace after = ',' :: rest) :
    itemsFrom item close done cs = itemsFrom item close (b :: done) rest := by
  rw [itemsFrom]
  split
  · simp_all
  · next hrun' =>
    cases hrun.symm.trans hrun'
    split
    · simp_all
    · next hspace' =>
      cases hspace.symm.trans hspace'
      simp

/-- A reader reads back, after white space, what a writer puts in front of what ends a number. -/
def ReadsBack (item : Reader β) (put : α → List Char → List Char) (f : α → β) (a : α) : Prop :=
  ∀ ws rest, (∀ c ∈ ws, isSpace c = true) → EndsNumber rest →
    item.run (ws ++ put a rest) = some (f a, rest)

theorem itemsFrom_writeMore (hclose : Closes close) (hws : ∀ c ∈ ws, isSpace c = true) (a : α)
    (as : List α) (h : ∀ b ∈ a :: as, ReadsBack item put f b) :
    itemsFrom item close done (ws ++ put a (writeMore layout depth put close rest as)) =
      some (done.reverse ++ (a :: as).map f, rest) := by
  have hrun : item.run (ws ++ put a (writeMore layout depth put close rest as)) = some (f a, _) :=
    h a (.head _) ws _ hws (endsNumber_writeMore hclose as)
  induction as generalizing ws a done with
  | nil =>
    have hspace : skipSpace (writeMore layout depth put close rest []) = close :: rest := by
      rw [writeMore, skipSpace_append fun c => isSpace_of_mem_lineBreak]
      rcases hclose with rfl | rfl <;> exact skipSpace_cons rfl
    simp [itemsFrom_last hrun hspace hclose]
  | cons b as ih =>
    have hmore : ∀ b' ∈ b :: as, ReadsBack item put f b' := fun b' hb => h b' (.tail _ hb)
    have hbreak : ∀ c ∈ layout.lineBreak (depth + 1), isSpace c = true :=
      fun c => isSpace_of_mem_lineBreak
    rw [itemsFrom_more hrun (skipSpace_cons rfl)]
    refine (ih hbreak b hmore ?_).trans (by simp)
    exact hmore b (.head _) _ _ hbreak (endsNumber_writeMore hclose as)

/-- The first character of a text is that of a value: no white space, and nothing that ends a
list. -/
def StartsValue (cs : List Char) : Prop :=
  ∃ c more, cs = c :: more ∧ isSpace c = false ∧ ¬ Closes c

theorem listOf_writeMore (layout : Layout) (depth : Nat) (rest : List Char) (hclose : Closes close)
    (h : ∀ b ∈ a :: as, ReadsBack item put f b) (hput : ∀ rest, StartsValue (put a rest)) :
    listOf item close (layout.lineBreak (depth + 1) ++
      put a (writeMore layout depth put close rest as)) = some ((a :: as).map f, rest) := by
  obtain ⟨c, cs, hcs, hspace, hc⟩ := hput (writeMore layout depth put close rest as)
  have hne : c ≠ close := by rintro rfl; exact hc hclose
  have hitems : itemsFrom item close [] ([] ++ put a (writeMore layout depth put close rest as)) =
      some ((a :: as).map f, rest) := itemsFrom_writeMore hclose (by simp) a as h
  rw [listOf, skipSpace_append fun c => isSpace_of_mem_lineBreak]
  rw [List.nil_append, hcs] at hitems
  rw [hcs]
  simp [skipSpace_cons hspace, hne, hitems]

theorem listOf_nil (hclose : Closes close) :
    listOf item close (close :: rest) = some ([], rest) := by
  have hspace : isSpace close = false := by rcases hclose with rfl | rfl <;> rfl
  simp [listOf, skipSpace_cons hspace]

end

-- ---------------------------------------------------------------------------
-- Values
-- ---------------------------------------------------------------------------

theorem startsValue_writeMember (m : String × Json) (rest : List Char) :
    StartsValue (writeMember layout depth m rest) :=
  ⟨'"', _, rfl, rfl, by simp [Closes]⟩

theorem startsValue_write (h : Plain n v) (rest : List Char) :
    StartsValue (writeValue layout depth v rest) := by
  unfold writeValue
  cases h with
  | null => exact ⟨'n', "ull".toList ++ rest, by simp, rfl, by simp [Closes]⟩
  | @bool _ b =>
    cases b with
    | false => exact ⟨'f', "alse".toList ++ rest, by simp, rfl, by simp [Closes]⟩
    | true => exact ⟨'t', "rue".toList ++ rest, by simp, rfl, by simp [Closes]⟩
  | @natural k n =>
    obtain ⟨d, ds, hds, hd⟩ := toDigits_eq_cons k
    have hne : ∀ c, Char.isDigit c = false → d ≠ c := fun _ => ne_of_isDigit hd
    exact ⟨d, ds ++ rest, by simp [hds], by simp [isSpace, hne], by simp [Closes, hne]⟩
  | string => exact ⟨'"', _, write_string, rfl, by simp [Closes]⟩
  | @array items =>
    cases items with
    | nil => exact ⟨'[', _, write_array_nil, rfl, by simp [Closes]⟩
    | cons => exact ⟨'[', _, write_array_cons, rfl, by simp [Closes]⟩
  | @object members =>
    cases members with
    | nil => exact ⟨'\x7b', _, write_object_nil, rfl, by simp [Closes]⟩
    | cons => exact ⟨'\x7b', _, write_object_cons, rfl, by simp [Closes]⟩

theorem valueFrom_of_space (hws : ∀ c ∈ ws, isSpace c = true) :
    valueFrom deeper? (ws ++ cs) = valueFrom deeper? cs := by
  simp [valueFrom, skipSpace_append hws]

theorem valueFrom_cons (h : isSpace c = false) :
    valueFrom deeper? (c :: cs) = valueAt deeper? c cs := by
  simp [valueFrom, skipSpace_cons h]

theorem valueAt_digit (hd : Char.isDigit d = true) :
    valueAt deeper? d cs = number? (d :: cs) := by
  have hne : ∀ c, Char.isDigit c = false → d ≠ c := fun _ => ne_of_isDigit hd
  simp [valueAt, hne]

theorem exists_run_value (n : Nat) : ∃ deeper?, (value n).run = valueFrom deeper? := by
  cases n <;> exact ⟨_, rfl⟩

theorem run_value_succ (n : Nat) :
    (value (n + 1)).run = valueFrom (some fun _ => value n) := rfl

theorem readsBack_value (h : ∀ rest, EndsNumber rest →
      (value n).run (write layout depth rest v) = some (v, rest)) :
    ReadsBack (value n) (writeValue layout depth) id v := by
  intro ws rest hws hrest
  obtain ⟨deeper?, hrun⟩ := exists_run_value n
  rw [hrun] at h ⊢
  rw [valueFrom_of_space hws]
  exact h rest hrest

theorem readsBack_member (h : ∀ rest, EndsNumber rest →
      (value n).run (write layout depth rest m.2) = some (m.2, rest)) :
    ReadsBack (member (value n)) (writeMember layout depth) (fun m => (some m.1, m.2)) m := by
  intro ws rest hws hrest
  have hvalue : ∀ ws, (∀ c ∈ ws, isSpace c = true) →
      (value n).run (ws ++ write layout depth rest m.2) = some (m.2, rest) :=
    fun ws hws => readsBack_value h ws rest hws hrest
  change memberFrom (value n) _ = _
  rw [memberFrom, skipSpace_append hws, writeMember, writeString, List.cons_append,
    skipSpace_cons rfl]
  have hcolon : ∀ cs, skipSpace (':' :: cs) = ':' :: cs := fun cs => skipSpace_cons rfl
  cases layout with
  | compact => simpa [stringFrom_flatMap, Layout.colon, hcolon] using hvalue [] (by simp)
  | indented =>
    simpa [stringFrom_flatMap, Layout.colon, hcolon] using hvalue [' '] (by simp [isSpace])

theorem ofMembers_map (members : List (String × Json)) :
    ofMembers (members.map fun m => (some m.1, m.2)) = .object members := by
  have hall : members.mapM some = some members := by
    induction members with
    | nil => rfl
    | cons m members ih => simp [ih]
  unfold ofMembers
  rw [List.mapM_map]
  simp [Function.comp_def, hall]

theorem word?_append (word : String) : word? word v (word.toList ++ rest) = some (v, rest) := by
  simp [word?, ← String.length_toList]

theorem run_write_array (h : ∀ v ∈ items, Plain n v)
    (hrun : ∀ v ∈ items, ∀ rest, EndsNumber rest →
      (value n).run (write layout (depth + 1) rest v) = some (v, rest)) :
    (value (n + 1)).run (write layout depth rest (.array items)) = some (.array items, rest) := by
  rw [run_value_succ]
  cases items with
  | nil => simp [valueFrom_cons, isSpace, valueAt, listOf_nil (.inl rfl)]
  | cons v items =>
    have hlist := listOf_writeMore layout depth rest (.inl rfl)
      (fun v' hv => readsBack_value (hrun v' hv)) (startsValue_write (h v (.head _)))
    rw [write_array_cons, List.cons_append, valueFrom_cons rfl]
    simp [valueAt, hlist]

theorem run_write_object (hrun : ∀ m ∈ members, ∀ rest, EndsNumber rest →
      (value n).run (write layout (depth + 1) rest m.2) = some (m.2, rest)) :
    (value (n + 1)).run (write layout depth rest (.object members)) =
      some (.object members, rest) := by
  rw [run_value_succ]
  cases members with
  | nil => simp [valueFrom_cons, isSpace, valueAt, listOf_nil (.inr rfl), ofMembers]
  | cons m members =>
    have hlist := listOf_writeMore layout depth rest (.inr rfl)
      (fun m' hm => readsBack_member (hrun m' hm)) (startsValue_writeMember m)
    rw [write_object_cons, List.cons_append, valueFrom_cons rfl]
    simp [valueAt, hlist, ← ofMembers_map]

theorem run_write (h : Plain n v) (hrest : EndsNumber rest) :
    (value n).run (write layout depth rest v) = some (v, rest) := by
  induction h generalizing layout depth rest with
  | @null n =>
    obtain ⟨deeper?, hrun⟩ := exists_run_value n
    rw [hrun, write_null]
    exact (valueFrom_cons rfl).trans (word?_append "null")
  | @bool n b =>
    obtain ⟨deeper?, hrun⟩ := exists_run_value n
    rw [hrun]
    cases b with
    | false => exact (valueFrom_cons rfl).trans (word?_append "false")
    | true => exact (valueFrom_cons rfl).trans (word?_append "true")
  | @natural k n hk =>
    obtain ⟨deeper?, hrun⟩ := exists_run_value n
    obtain ⟨d, ds, hds, hd⟩ := toDigits_eq_cons k
    have hspace : isSpace d = false := by
      have hne : ∀ c, Char.isDigit c = false → d ≠ c := fun _ => ne_of_isDigit hd
      simp [isSpace, hne]
    rw [hrun, write_natural, hds, List.cons_append, valueFrom_cons hspace, valueAt_digit hd,
      ← List.cons_append, ← hds]
    exact number?_toDigits hk hrest
  | @string n s =>
    obtain ⟨deeper?, hrun⟩ := exists_run_value n
    rw [hrun, write_string, writeString, List.cons_append, valueFrom_cons rfl]
    simp [valueAt, stringFrom_flatMap, ofText]
  | array h ih => exact run_write_array h fun v hv _ => ih v hv
  | object _ ih => exact run_write_object fun m hm _ => ih m hm

-- ---------------------------------------------------------------------------
-- Levels
-- ---------------------------------------------------------------------------

def Grows (put : α → List Char → List Char) (a : α) : Prop :=
  ∀ rest, rest.length ≤ (put a rest).length

section

variable {put : α → List Char → List Char} {as : List α}

theorem length_writeMore (hput : ∀ a ∈ as, Grows put a) :
    rest.length < (writeMore layout depth put close rest as).length := by
  induction as with
  | nil =>
    simp only [writeMore, List.length_append, List.length_cons]
    omega
  | cons a as ih =>
    have hmore := ih fun a ha => hput a (.tail _ ha)
    have ha := hput a (.head _) (writeMore layout depth put close rest as)
    simp only [writeMore, List.length_append, List.length_cons]
    omega

theorem exists_length_lt (hput : ∀ a ∈ as, Grows put a) (ha : a ∈ as) :
    ∃ more, (put a more).length + rest.length <
      (writeMore layout depth put close rest as).length + more.length := by
  induction as with
  | nil => cases ha
  | cons b as ih =>
    have hputs : ∀ a ∈ as, Grows put a := fun a ha => hput a (.tail _ ha)
    have hmore : rest.length < (writeMore layout depth put close rest as).length :=
      length_writeMore hputs
    have hb := hput b (.head _) (writeMore layout depth put close rest as)
    simp only [writeMore, List.length_append, List.length_cons]
    rcases List.mem_cons.mp ha with rfl | ha
    · exact ⟨writeMore layout depth put close rest as, by omega⟩
    · obtain ⟨more, hlt⟩ := ih hputs ha
      exact ⟨more, by omega⟩

/-- Where the text of a list is within a bound, that of its items is within the bound before. -/
theorem exists_length_le (hput : ∀ a ∈ as, Grows put a)
    (hlength : (writeMore layout depth put close rest as).length ≤ k + rest.length) :
    ∃ k', k = k' + 1 ∧ ∀ a ∈ as, ∃ more, (put a more).length ≤ k' + more.length := by
  have hpos : rest.length < (writeMore layout depth put close rest as).length :=
    length_writeMore hput
  obtain ⟨k', rfl⟩ : ∃ k', k = k' + 1 := ⟨k - 1, by omega⟩
  refine ⟨k', rfl, fun a ha => ?_⟩
  have hpart : ∃ more, (put a more).length + rest.length <
      (writeMore layout depth put close rest as).length + more.length := exists_length_lt hput ha
  obtain ⟨more, hlt⟩ := hpart
  exact ⟨more, by omega⟩

end

theorem length_write_array_cons :
    (write layout depth rest (.array (v :: items))).length =
      (writeMore layout depth (writeValue layout (depth + 1)) ']' rest
        (v :: items)).length := by
  simp [writeMore]

theorem length_write_object_cons :
    (write layout depth rest (.object (m :: members))).length =
      (writeMore layout depth (writeMember layout (depth + 1)) '\x7d' rest
        (m :: members)).length := by
  simp [writeMore]

theorem length_writeMember (layout : Layout) (depth : Nat) (m : String × Json) (rest : List Char) :
    (write layout depth rest m.2).length ≤ (writeMember layout depth m rest).length := by
  simp only [writeMember, writeString, List.length_append, List.length_cons]
  omega

theorem grows_writeMember (h : Grows (writeValue layout depth) m.2) :
    Grows (writeMember layout depth) m :=
  fun rest => Nat.le_trans (h rest) (length_writeMember layout depth m rest)

theorem grows_writeValue (h : Plain n v) : Grows (writeValue layout depth) v := by
  induction h generalizing layout depth with
  | null => simp [Grows, writeValue, Nat.add_assoc]
  | @bool _ b => cases b <;> simp [Grows, writeValue, Nat.add_assoc]
  | natural => simp [Grows, writeValue]
  | string =>
    intro rest
    simp only [writeValue, write_string, writeString, List.length_append, List.length_cons]
    omega
  | @array items n _ ih =>
    intro rest
    cases items with
    | nil => simp [writeValue, Nat.add_assoc]
    | cons v items =>
      rw [writeValue, length_write_array_cons]
      exact Nat.le_of_lt (length_writeMore fun v hv => ih v hv)
  | @object members n _ ih =>
    intro rest
    cases members with
    | nil => simp [writeValue, Nat.add_assoc]
    | cons m members =>
      rw [writeValue, length_write_object_cons]
      exact Nat.le_of_lt (length_writeMore fun m hm => grows_writeMember (ih m hm))

end Read

namespace Plain

open Read

theorem mono (h : Plain n v) (hnm : n ≤ m) : Plain m v := by
  induction h generalizing m with
  | null => exact .null
  | bool => exact .bool
  | natural hk => exact .natural hk
  | string => exact .string
  | array _ ih =>
    obtain ⟨m, rfl⟩ := Nat.exists_eq_add_of_lt hnm
    exact .array fun v hv => ih v hv (Nat.le_add_right _ _)
  | object _ ih =>
    obtain ⟨m, rfl⟩ := Nat.exists_eq_add_of_lt hnm
    exact .object fun m hm => ih m hm (Nat.le_add_right _ _)

theorem of_length_write (h : Plain n v)
    (hlength : (write layout depth rest v).length ≤ k + rest.length) : Plain k v := by
  induction h generalizing layout depth rest k with
  | null => exact .null
  | bool => exact .bool
  | natural hk => exact .natural hk
  | string => exact .string
  | @array items n h ih =>
    cases items with
    | nil =>
      rw [write_array_nil, List.length_cons, List.length_cons] at hlength
      obtain ⟨k, rfl⟩ := Nat.exists_eq_succ_of_ne_zero (n := k) (by omega)
      exact .array (by simp)
    | cons v items =>
      rw [length_write_array_cons] at hlength
      obtain ⟨k, rfl, hparts⟩ := exists_length_le (fun v hv => grows_writeValue (h v hv)) hlength
      refine .array fun v hv => ?_
      obtain ⟨more, hle⟩ := hparts v hv
      exact ih v hv hle
  | @object members n h ih =>
    cases members with
    | nil =>
      rw [write_object_nil, List.length_cons, List.length_cons] at hlength
      obtain ⟨k, rfl⟩ := Nat.exists_eq_succ_of_ne_zero (n := k) (by omega)
      exact .object (by simp)
    | cons m members =>
      rw [length_write_object_cons] at hlength
      obtain ⟨k, rfl, hparts⟩ :=
        exists_length_le (fun m hm => grows_writeMember (grows_writeValue (h m hm))) hlength
      refine .object fun m hm => ?_
      obtain ⟨more, hle⟩ := hparts m hm
      exact ih m hm (Nat.le_trans (length_writeMember ..) hle)

end Plain

theorem read?_render (h : Plain n v) (layout : Layout) : read? (v.render layout) = some v := by
  have hlength : (write layout 0 [] v).length ≤
      (v.render layout).length + ([] : List Char).length := by
    simp [render]
  have hlevels := h.of_length_write hlength
  have hrun : (Read.value (v.render layout).length).run (v.render layout).toList =
      some (v, []) := by
    simpa [render] using Read.run_write hlevels .nil
  simp [read?, hrun, Read.skipSpace]

end FormulaCheck.Json
