import FormulaCheck.Proofs.Parse.Reported

/-!
# The order of the faults

A parse records its faults in the order of the text, each token at most once, and a fault at the end
of the tokens after all others (`parse_faults_in_order`). What has been recorded along a run lies at
different tokens among those that are used up, but the latest fault may also be at the next token
(`State.InOrder`). A report there is in vain then, since the two faults are the same.
-/

namespace FormulaCheck

variable {tokens more : List Token} {t : Token}

namespace Parse

/-- The faults are at different tokens among those that are used up, in their order, but for the
latest one, which may be at what comes next. -/
def State.InOrder (tokens : List Token) (s : State) : Prop :=
  ∃ used reported : List Token, tokens = used ++ s.rest ∧ reported.Sublist used ∧
    (s.faults.reverse = reported.map .unexpected ∨
      s.faults.reverse = reported.map .unexpected ++ [.ofNext? s.rest.head?])

namespace State.InOrder

variable {s s' : State}

theorem start (tokens : List Token) : State.InOrder tokens ⟨tokens, [], false⟩ :=
  ⟨[], [], rfl, .slnil, .inl rfl⟩

/-- Behind the next token a fault at it is one among the tokens that are used up. -/
theorem pass (h : s.InOrder tokens) (hs : s.rest = t :: more) (hrest : s'.rest = more)
    (hfaults : s'.faults = s.faults) : s'.InOrder tokens := by
  obtain ⟨used, reported, htokens, hsublist, hreported⟩ := h
  have hused : tokens = (used ++ [t]) ++ s'.rest := by simp [htokens, hs, hrest]
  rcases hreported with hreported | hreported
  · refine ⟨used ++ [t], reported, hused, hsublist.trans (List.sublist_append_left ..), .inl ?_⟩
    rw [hfaults, hreported]
  · refine ⟨used ++ [t], reported ++ [t], hused, hsublist.append (.refl _), .inl ?_⟩
    rw [hfaults, hreported, hs, List.map_append]
    rfl

theorem take (h : s.InOrder tokens) (hs : s.rest = t :: more) : s.take.InOrder tokens :=
  h.pass hs (by simp [hs]) rfl

theorem skip (h : s.InOrder tokens) (hs : s.rest = t :: more) : s.skip.InOrder tokens :=
  h.pass hs (by simp [hs]) rfl

theorem report (h : s.InOrder tokens) : s.report.InOrder tokens := by
  unfold State.report
  dsimp only
  split
  · exact h
  · next hnew =>
    obtain ⟨used, reported, htokens, hsublist, hreported⟩ := h
    refine ⟨used, reported, htokens, hsublist, .inr ?_⟩
    rcases hreported with hreported | hreported
    · rw [List.reverse_cons, hreported]
    · -- the latest fault is at the next token, so that the report would have been in vain
      rw [List.reverse_eq_iff] at hreported
      simp [hreported] at hnew

theorem finish (h : s.InOrder tokens) : s.finish.InOrder tokens := by
  unfold State.finish
  split
  · exact h
  · exact h.report

theorem exists_reported (h : s.InOrder tokens) : ∃ (reported : List Token) (atEnd : List Fault),
    reported.Sublist tokens ∧ (atEnd = [] ∨ atEnd = [.endOfInput]) ∧
    s.faults.reverse = reported.map .unexpected ++ atEnd := by
  obtain ⟨used, reported, htokens, hsublist, hreported⟩ := h
  have hall : reported.Sublist tokens := htokens ▸ hsublist.trans (List.sublist_append_left ..)
  rcases hreported with hreported | hreported
  · exact ⟨reported, [], hall, .inl rfl, by simpa using hreported⟩
  cases hs : s.rest with
  | nil => exact ⟨reported, [.endOfInput], hall, .inr rfl, by rw [hreported, hs]; rfl⟩
  | cons t more =>
    refine ⟨reported ++ [t], [], ?_, .inl rfl, by rw [hreported, hs]; simp [Fault.ofNext?]⟩
    rw [htokens, hs]
    exact hsublist.append (List.singleton_sublist.mpr (List.mem_cons_self ..))

end State.InOrder

theorem Step.inOrder (h : Step c c') (hc : c.state.InOrder tokens) : c'.state.InOrder tokens := by
  cases h with
  | take hs => exact hc.take hs
  | stray _ hstray =>
    obtain ⟨t, next, rest, hs, -⟩ := State.strayNext_iff.mp hstray
    exact hc.report.skip (by simpa using hs)
  | empty | assumed => exact hc.report
  | @junk _ _ closing rest s _ _ _ hs =>
    have hskip : s.report.skip.rest = closing :: rest := by simp [hs]
    exact (hc.report.skip (by simpa using hs)).take hskip

theorem Run.inOrder (h : Run c c') (hc : c.state.InOrder tokens) : c'.state.InOrder tokens := by
  induction h with
  | refl => exact hc
  | tail _ hstep ih => exact hstep.inOrder ih

theorem Config.inOrder_start (tokens : List Token) : (start tokens).state.InOrder tokens := by
  cases hassigned : State.assignmentNext ⟨tokens, [], false⟩ with
  | false =>
    rw [start_plain hassigned]
    exact .start tokens
  | true =>
    obtain ⟨target, equals, rest, rfl, ht, he⟩ := State.assignmentNext_iff.mp hassigned
    rw [start_assigned ht he]
    exact ((State.InOrder.start _).take rfl).take rfl

end Parse

/-- The faults of a parse are at tokens with increasing indices, and after them there may be one at
the end of the tokens. So there is at most one fault more than there are tokens, and none comes
after one at the end. -/
theorem parse_faults_in_order (h : parse limit tokens = .ok p) :
    (∃ (places : List (Fin tokens.length)) (atEnd : List Fault), places.Pairwise (· < ·) ∧
      (atEnd = [] ∨ atEnd = [.endOfInput]) ∧
      p.faults = places.map (fun i => .unexpected tokens[i]) ++ atEnd) ∧
    p.faults.length ≤ tokens.length + 1 ∧
    ∀ i, p.faults[i]? = some .endOfInput → i + 1 = p.faults.length := by
  obtain ⟨c, hrun, -, hfaults, -⟩ := exists_done_of_parse h
  have horder := (hrun.run.inOrder (Parse.Config.inOrder_start tokens)).finish
  obtain ⟨reported, atEnd, hsublist, hend, hreported⟩ := horder.exists_reported
  rw [← hfaults] at hreported
  refine ⟨?_, ?_, fun i hi => ?_⟩
  · obtain ⟨places, rfl, hplaces⟩ := List.sublist_eq_map_getElem hsublist
    exact ⟨places, atEnd, hplaces, hend, by rw [hreported, List.map_map]; rfl⟩
  · have hlength : atEnd.length ≤ 1 := by rcases hend with rfl | rfl <;> simp
    rw [hreported, List.length_append, List.length_map]
    exact Nat.add_le_add hsublist.length_le hlength
  · rw [hreported, List.getElem?_append] at hi
    rw [hreported]
    split at hi
    · simp at hi
    · rcases hend with rfl | rfl
      · cases hi
      · have hfirst := (List.getElem?_eq_some_iff.mp hi).1
        simp only [List.length_append, List.length_map, List.length_singleton] at *
        omega

/-- In `++` the second operator is read as one although an operand is missing in front of it. The
two tokens are the same here, and the fault is recorded once. -/
theorem parse_faults_in_order_twice :
    let plus := Token.ofLexeme .plus ['+'] ⟨1, 1⟩
    ∃ p, parse 256 [plus, plus] = .ok p ∧ p.faults = [.unexpected plus, .endOfInput] ∧
      (∃ (places : List (Fin 2)) (atEnd : List Fault), places.Pairwise (· < ·) ∧
        (atEnd = [] ∨ atEnd = [.endOfInput]) ∧
        p.faults = places.map (fun i => .unexpected [plus, plus][i]) ++ atEnd) ∧
      p.faults.length ≤ 3 ∧ ∀ i, p.faults[i]? = some .endOfInput → i + 1 = p.faults.length := by
  intro plus
  have hreads : Parse.ReadsStatement 256 ⟨[plus, plus], [], false⟩ _ _ :=
    have hempty := .chain (.empty rfl rfl) (.tailEnd rfl)
    have hsecond := .chain (.empty rfl rfl) (.tailEnd rfl)
    have hthird := .chain (.empty rfl rfl) (.tailEnd rfl)
    .plain rfl (.chain hempty
      (.tailMore rfl rfl hsecond (.tailMore rfl rfl hthird (.tailEnd rfl))))
  have hparse := Parse.parse_ok_iff.mpr ⟨_, _, hreads, rfl, rfl⟩
  exact ⟨_, hparse, rfl, parse_faults_in_order hparse⟩

end FormulaCheck
