/-!
# Blank characters

The characters with the Unicode property White_Space, as a table of ranges, and the removal of
blanks at the ends of a text. Scanning, trimming and the raw scan of a line all use this one class.
-/

namespace FormulaCheck

/-- First and last code point of each range of characters with the property White_Space. -/
def blankRanges : List (Nat × Nat) :=
  [(0x09, 0x0D), (0x20, 0x20), (0x85, 0x85), (0xA0, 0xA0), (0x1680, 0x1680), (0x2000, 0x200A),
   (0x2028, 0x2029), (0x202F, 0x202F), (0x205F, 0x205F), (0x3000, 0x3000)]

def isBlank (c : Char) : Bool :=
  blankRanges.any fun (first, last) => first ≤ c.toNat && c.toNat ≤ last

namespace Text

def trimEndChars (cs : List Char) : List Char :=
  (cs.reverse.dropWhile isBlank).reverse

def trimChars (cs : List Char) : List Char :=
  trimEndChars (cs.dropWhile isBlank)

def trim (text : String) : String := String.ofList (trimChars text.toList)

def trimEnd (text : String) : String := String.ofList (trimEndChars text.toList)

def isBlankText (text : String) : Bool := text.toList.all isBlank

variable {cs blanks : List Char}

theorem trimEndChars_append (h : ∀ c ∈ blanks, isBlank c = true) :
    trimEndChars (cs ++ blanks) = trimEndChars cs := by
  have hblanks : ∀ c ∈ blanks.reverse, isBlank c = true := fun c hc => h c (List.mem_reverse.mp hc)
  rw [trimEndChars, List.reverse_append, List.dropWhile_append_of_pos hblanks, trimEndChars]

theorem exists_trimEndChars_append (cs : List Char) :
    ∃ blanks, (∀ c ∈ blanks, isBlank c = true) ∧ cs = trimEndChars cs ++ blanks := by
  refine ⟨(cs.reverse.takeWhile isBlank).reverse, fun c hc => ?_, ?_⟩
  · exact List.all_eq_true.mp List.all_takeWhile c (List.mem_reverse.mp hc)
  · rw [trimEndChars, ← List.reverse_append, List.takeWhile_append_dropWhile, List.reverse_reverse]

theorem isBlank_eq_false_of_getLast?_trimEndChars (h : (trimEndChars cs).getLast? = some c) :
    isBlank c = false := by
  rw [trimEndChars, List.getLast?_reverse] at h
  have hhead := List.head?_dropWhile_not isBlank cs.reverse
  rwa [h] at hhead

theorem trimEndChars_eq_self (h : ∀ c ∈ cs.getLast?, isBlank c = false) : trimEndChars cs = cs := by
  rw [List.getLast?_eq_head?_reverse] at h
  cases hcs : cs.reverse with
  | nil => simp_all [trimEndChars]
  | cons c rest =>
    have hc : ¬ isBlank c = true := by simp [h c (by rw [hcs, List.head?_cons]; rfl)]
    rw [trimEndChars, hcs, List.dropWhile_cons_of_neg hc, ← hcs, List.reverse_reverse]

end Text

end FormulaCheck
