import FormulaCheck.Analysis

/-!
# Documents line by line

A line feed keeps the texts before and after it apart: the lines of the whole are those of the one
and then those of the other (`Text.splitLines_append`), and the number of a line is a mark on its
analysis that nothing else in it depends on (`analyzeLine_add`). The analysis of a document is
therefore that of any of its parts side by side (`analyzeDocument_append`).
-/

namespace FormulaCheck

-- ---------------------------------------------------------------------------
-- Lines of a text
-- ---------------------------------------------------------------------------

namespace Text

theorem splitLines_append (a b : String) :
    splitLines (a ++ "\n" ++ b) = splitLines a ++ splitLines b := by
  simp [splitLines, split, splitChars_append_cons]

theorem length_splitLines (a : String) : (splitLines a).length = a.toList.count '\n' + 1 := by
  simp [splitLines, split, length_splitChars]

end Text

-- ---------------------------------------------------------------------------
-- Numbers of lines
-- ---------------------------------------------------------------------------

def LineAnalysis.later (lines : Nat) (a : LineAnalysis) : LineAnalysis :=
  { a with number := a.number + lines }

theorem analyzeLine_add (line : String) (number lines : Nat) :
    analyzeLine line (number + lines) = (analyzeLine line number).later lines := by
  unfold analyzeLine
  dsimp only
  split <;> simp only [LineAnalysis.later]

def analyzeLines (first : Nat) (lines : List String) : List LineAnalysis :=
  ((lines.zipIdx first).filter fun (line, _) => !Text.isBlankText line).map
    fun (line, number) => analyzeLine line number

theorem analyzeLines_append (first : Nat) (lines more : List String) :
    analyzeLines first (lines ++ more) =
      analyzeLines first lines ++ analyzeLines (first + lines.length) more := by
  simp [analyzeLines, List.zipIdx_append]

theorem analyzeDocument_eq (text : String) :
    analyzeDocument text = analyzeLines 1 (Text.splitLines text) := rfl

theorem analyzeLines_cons (first : Nat) (line : String) (lines : List String) :
    analyzeLines first (line :: lines) =
      if Text.isBlankText line then analyzeLines (first + 1) lines
      else analyzeLine line first :: analyzeLines (first + 1) lines := by
  by_cases hblank : Text.isBlankText line <;> simp [analyzeLines, hblank]

theorem analyzeLines_add (first before : Nat) (lines : List String) :
    analyzeLines (first + before) lines =
      (analyzeLines first lines).map (LineAnalysis.later before) := by
  induction lines generalizing first with
  | nil => rfl
  | cons line lines ih =>
    have hnext := ih (first + 1)
    rw [Nat.add_right_comm] at hnext
    simp only [analyzeLines_cons, analyzeLine_add, hnext]
    split <;> rfl

-- ---------------------------------------------------------------------------
-- Totals
-- ---------------------------------------------------------------------------

namespace Totals

def add (s t : Totals) : Totals where
  lines := s.lines + t.lines
  tokens := s.tokens + t.tokens
  symbols := s.symbols + t.symbols
  errors := s.errors + t.errors
  valid := s.valid + t.valid

instance : Add Totals := ⟨add⟩

theorem count_add (s t : Totals) (a : LineAnalysis) : (s + t).count a = s + t.count a := by
  change (add s t).count a = add s (t.count a)
  simp only [add, count, Nat.add_assoc]

theorem foldl_count_add (s t : Totals) (analyses : List LineAnalysis) :
    analyses.foldl count (s + t) = s + analyses.foldl count t := by
  induction analyses generalizing t with
  | nil => rfl
  | cons a analyses ih => rw [List.foldl_cons, count_add, ih, List.foldl_cons]

theorem add_zero (s : Totals) : s + zero = s := rfl

theorem ofAnalyses_append (analyses more : List LineAnalysis) :
    ofAnalyses (analyses ++ more) = ofAnalyses analyses + ofAnalyses more := by
  rw [ofAnalyses, List.foldl_append, ← add_zero (analyses.foldl count zero), foldl_count_add]
  rfl

theorem ofAnalyses_later (lines : Nat) (analyses : List LineAnalysis) :
    ofAnalyses (analyses.map (LineAnalysis.later lines)) = ofAnalyses analyses := by
  rw [ofAnalyses, List.foldl_map]
  rfl

end Totals

/-- A document of two texts with a line feed between them is analysed as the one and then the
other, whose lines count on from those before them; and its totals are the sums of theirs. -/
theorem analyzeDocument_append (a b : String) :
    analyzeDocument (a ++ "\n" ++ b) = analyzeDocument a ++
        (analyzeDocument b).map (LineAnalysis.later (a.toList.count '\n' + 1)) ∧
      Totals.ofAnalyses (analyzeDocument (a ++ "\n" ++ b)) =
        Totals.ofAnalyses (analyzeDocument a) + Totals.ofAnalyses (analyzeDocument b) := by
  have hdocument : analyzeDocument (a ++ "\n" ++ b) = analyzeDocument a ++
      (analyzeDocument b).map (LineAnalysis.later (a.toList.count '\n' + 1)) := by
    simp only [analyzeDocument_eq]
    calc analyzeLines 1 (Text.splitLines (a ++ "\n" ++ b))
        = analyzeLines 1 (Text.splitLines a) ++
            analyzeLines (1 + (Text.splitLines a).length) (Text.splitLines b) := by
          rw [Text.splitLines_append, analyzeLines_append]
      _ = analyzeLines 1 (Text.splitLines a) ++ (analyzeLines 1 (Text.splitLines b)).map
            (LineAnalysis.later (a.toList.count '\n' + 1)) := by
          rw [Text.length_splitLines, analyzeLines_add]
  refine ⟨hdocument, ?_⟩
  rw [hdocument, Totals.ofAnalyses_append, Totals.ofAnalyses_later]

end FormulaCheck
