/-!
# Pieces of a text

The pieces of a text between the occurrences of a character. There is always one piece more than
there are occurrences.
-/

namespace FormulaCheck.Text

def splitChars (separator : Char) : List Char → List (List Char)
  | [] => [[]]
  | c :: rest =>
    if c = separator then [] :: splitChars separator rest
    else match splitChars separator rest with
      | [] => [[c]]
      | piece :: pieces => (c :: piece) :: pieces

def split (separator : Char) (text : String) : List String :=
  (splitChars separator text.toList).map String.ofList

theorem splitChars_ne_nil (separator : Char) (cs : List Char) : splitChars separator cs ≠ [] := by
  fun_cases splitChars separator cs <;> simp_all

theorem splitChars_append_cons (separator : Char) (cs ds : List Char) :
    splitChars separator (cs ++ separator :: ds) =
      splitChars separator cs ++ splitChars separator ds := by
  induction cs with
  | nil => simp [splitChars]
  | cons c cs ih =>
    obtain ⟨piece, pieces, hpieces⟩ := List.exists_cons_of_ne_nil (splitChars_ne_nil separator cs)
    by_cases hc : c = separator <;> simp [splitChars, hc, ih, hpieces]

theorem splitChars_of_not_mem {separator : Char} {cs : List Char} (h : separator ∉ cs) :
    splitChars separator cs = [cs] := by
  induction cs with
  | nil => rfl
  | cons c cs ih =>
    rw [List.mem_cons, not_or] at h
    simp [splitChars, Ne.symm h.1, ih h.2]

theorem length_splitChars (separator : Char) (cs : List Char) :
    (splitChars separator cs).length = cs.count separator + 1 := by
  induction cs with
  | nil => rfl
  | cons c cs ih =>
    obtain ⟨piece, pieces, hpieces⟩ := List.exists_cons_of_ne_nil (splitChars_ne_nil separator cs)
    rw [hpieces, List.length_cons] at ih
    by_cases hc : c = separator <;> simp [splitChars, hc, hpieces, ih]

/-- What comes before the first occurrence of a character and what comes after it can be told from
the whole. -/
theorem append_cons_inj {separator : Char} {cs ds rest rest' : List Char} (hcs : separator ∉ cs)
    (hds : separator ∉ ds) (h : cs ++ separator :: rest = ds ++ separator :: rest') :
    cs = ds ∧ rest = rest' := by
  have hpieces := congrArg (splitChars separator) h
  simp only [splitChars_append_cons, splitChars_of_not_mem hcs,
    splitChars_of_not_mem hds] at hpieces
  obtain rfl := (List.cons.inj hpieces).1
  exact ⟨rfl, (List.cons.inj (List.append_cancel_left h)).2⟩

end FormulaCheck.Text
