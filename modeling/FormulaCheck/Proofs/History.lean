import FormulaCheck.History
import Mathlib.Data.List.Nodup
import Mathlib.Data.List.Perm.Subperm

/-!
# Identifiers of records

The candidates for an identifier are all different, so that one more of them than there are records
cannot all be taken (`History.freeId_not_mem`): a record that is pushed keeps the identifiers of a
history distinct (`History.nodup_ids_push`). A record pushed onto the first ones of some records
leaves the first ones of it and them (`History.records_push_ofRecords`).
-/

namespace FormulaCheck.History

theorem candidate_injective (timestamp : Nat) : Function.Injective (candidate timestamp) := by
  intro i j h
  have hchars := congrArg String.toList h
  cases i with
  | zero =>
    cases j with
    | zero => rfl
    | succ j => simp [candidate] at hchars
  | succ i =>
    cases j with
    | zero => simp [candidate] at hchars
    | succ j =>
      have hdigits : (toString (i + 1)).toList = (toString (j + 1)).toList := by
        simpa [candidate] using hchars
      have hvalue := congrArg (fun cs => Nat.ofDigitChars 10 cs 0) hdigits
      simpa using hvalue

theorem forall_mem_of_freeCandidate_mem (h : freeCandidate taken timestamp n more ∈ taken) :
    ∀ k ≤ more, candidate timestamp (n + k) ∈ taken := by
  induction more generalizing n with
  | zero =>
    intro k hk
    obtain rfl := Nat.le_zero.mp hk
    exact h
  | succ more ih =>
    unfold freeCandidate at h
    split at h
    · next hfirst =>
      rintro (_ | k) hk
      · exact hfirst
      · have hlater := ih h k (Nat.le_of_succ_le_succ hk)
        rwa [Nat.add_right_comm] at hlater
    · next hfirst => exact absurd h hfirst

theorem freeCandidate_not_mem (taken : List String) (timestamp n : Nat) :
    freeCandidate taken timestamp n taken.length ∉ taken := by
  intro h
  let candidates := (List.range (taken.length + 1)).map fun k => candidate timestamp (n + k)
  have hnodup : candidates.Nodup :=
    List.nodup_range.map fun _ _ heq => Nat.add_left_cancel (candidate_injective timestamp heq)
  have hsubset : candidates ⊆ taken := by
    intro c hc
    obtain ⟨k, hk, rfl⟩ := List.mem_map.mp hc
    exact forall_mem_of_freeCandidate_mem h k (Nat.le_of_lt_succ (List.mem_range.mp hk))
  have hle : candidates.length ≤ taken.length := (hnodup.subperm hsubset).length_le
  rw [List.length_map, List.length_range] at hle
  exact Nat.not_succ_le_self _ hle

theorem freeId_not_mem (h : History) (timestamp : Nat) :
    h.freeId timestamp ∉ h.records.map Record.id := by
  have hfree := freeCandidate_not_mem (h.records.map Record.id) timestamp 0
  rwa [List.length_map] at hfree

/-- The search that tries one candidate after the other, from a number on, until one is free, with
no bound on how long it goes on: the number that it stops at, and how many candidates it tried. -/
inductive Search (taken : List String) (timestamp : Nat) : Nat → Nat → Nat → Prop
  | free : candidate timestamp n ∉ taken → Search taken timestamp n n 1
  | next : candidate timestamp n ∈ taken → Search taken timestamp (n + 1) found tried →
      Search taken timestamp n found (tried + 1)

theorem exists_search (h : freeCandidate taken timestamp n more ∉ taken) :
    ∃ k ≤ more, freeCandidate taken timestamp n more = candidate timestamp (n + k) ∧
      Search taken timestamp n (n + k) (k + 1) := by
  induction more generalizing n with
  | zero => exact ⟨0, Nat.le_refl 0, rfl, .free h⟩
  | succ more ih =>
    unfold freeCandidate at h ⊢
    split at h
    · next htaken =>
      obtain ⟨k, hk, heq, hsearch⟩ := ih h
      rw [Nat.add_right_comm] at heq hsearch
      exact ⟨k + 1, Nat.succ_le_succ hk, by rw [if_pos htaken, heq]; rfl, .next htaken hsearch⟩
    · next hfree => exact ⟨0, Nat.zero_le _, by rw [if_neg hfree]; rfl, .free hfree⟩

theorem exists_search_freeId (h : History) (timestamp : Nat) :
    ∃ k ≤ h.records.length, h.freeId timestamp = candidate timestamp k ∧
      Search (h.records.map Record.id) timestamp 0 k (k + 1) := by
  simpa [freeId] using exists_search (h.freeId_not_mem timestamp)

theorem nodup_ids_push (h : History) (hids : (h.records.map Record.id).Nodup) (timestamp : Nat)
    (input : String) (summary : Summary) :
    ((h.push (h.newRecord timestamp input summary)).records.map Record.id).Nodup := by
  rw [push, List.map_take, List.map_cons]
  exact (List.nodup_cons.mpr ⟨h.freeId_not_mem timestamp, hids⟩).sublist (List.take_sublist ..)

/-- What is left of the older records when they are cut to the limit first is all that stays. -/
theorem records_push_ofRecords (limit : Nat) (records : List Record) (r : Record) :
    ((ofRecords limit records).push r).records = (r :: records).take (max limit 1) := by
  obtain ⟨n, hn⟩ : ∃ n, max limit 1 = n + 1 := ⟨max limit 1 - 1, by omega⟩
  simp only [push, ofRecords, hn, List.take_succ_cons, List.take_take]
  rw [Nat.min_eq_left (Nat.le_succ n)]

end FormulaCheck.History
