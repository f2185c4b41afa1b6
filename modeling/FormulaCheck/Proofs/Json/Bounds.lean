import FormulaCheck.Json.Read
import Mathlib.Data.List.Forall2

/-!
# Numbers in what is read

Every natural number in a value that is read from a text is below `2^64` (`read?_inRange`). A number
that is too large is kept as it was written, as one that no field admits.
-/

namespace FormulaCheck

theorem mapM_eq_some_iff {f : α → Option β} :
    List.mapM f xs = some ys ↔ List.Forall₂ (fun x y => f x = some y) xs ys := by
  induction xs generalizing ys with
  | nil => simp [eq_comm]
  | cons x xs ih =>
    simp [List.forall₂_cons_left_iff, Option.bind_eq_some_iff, ih, @eq_comm _ ys]

theorem forall_of_mapM_eq_some {f : α → Option β} {P : β → Prop} (h : List.mapM f xs = some ys)
    (hf : ∀ x ∈ xs, ∀ y, f x = some y → P y) : ∀ y ∈ ys, P y := by
  rw [mapM_eq_some_iff] at h
  induction h with
  | nil => simp
  | cons hx _ ih =>
    intro y hy
    rcases List.mem_cons.mp hy with rfl | hy
    · exact hf _ (.head _) _ hx
    · exact ih (fun x hx => hf x (.tail _ hx)) y hy

namespace Json

inductive InRange : Json → Prop
  | null : InRange .null
  | bool : InRange (.bool b)
  | natural : n < UInt64.size → InRange (.natural n)
  | otherNumber : InRange (.otherNumber text)
  | string : InRange (.string s)
  | unpaired : InRange .unpaired
  | array : (∀ v ∈ items, InRange v) → InRange (.array items)
  | object : (∀ m ∈ members, InRange m.2) → InRange (.object members)

namespace Read

def Gives (item : Reader α) (P : α → Prop) : Prop :=
  ∀ {cs a rest}, item.run cs = some (a, rest) → P a

theorem itemsFrom_gives {P : α → Prop} (hitem : Gives item P) (hdone : ∀ a ∈ done, P a)
    (h : itemsFrom item close done cs = some (items, rest)) : ∀ a ∈ items, P a := by
  fun_induction itemsFrom item close done cs with
  | case1 => cases h
  | case2 => cases h
  | case3 done cs a after hrun more _ ih =>
    refine ih (fun b hb => ?_) h
    rcases List.mem_cons.mp hb with rfl | hb
    · exact hitem hrun
    · exact hdone b hb
  | case4 done cs a after hrun more _ =>
    cases h
    intro b hb
    rcases List.mem_cons.mp (List.mem_reverse.mp hb) with rfl | hb
    · exact hitem hrun
    · exact hdone b hb
  | case5 => cases h

theorem listOf_gives {P : α → Prop} (hitem : Gives item P)
    (h : listOf item close cs = some (items, rest)) : ∀ a ∈ items, P a := by
  unfold listOf at h
  split at h
  · cases h
  · split at h
    · cases h
      simp
    · exact itemsFrom_gives hitem (by simp) h

theorem member_gives {value : Reader Json} (hvalue : Gives value InRange) :
    Gives (member value) (InRange ·.2) := by
  intro cs m rest h
  change memberFrom value cs = _ at h
  unfold memberFrom at h
  split at h
  · split at h
    · cases h
    · split at h
      · obtain ⟨⟨v, rest'⟩, hv, he⟩ := Option.map_eq_some_iff.mp h
        cases he
        exact hvalue hv
      · cases h
  · cases h

theorem inRange_ofMembers (h : ∀ m ∈ members, InRange (Prod.snd m)) :
    InRange (ofMembers members) := by
  unfold ofMembers
  split
  · next named hnamed =>
    refine .object (forall_of_mapM_eq_some hnamed ?_)
    rintro ⟨name?, value⟩ hm m hname
    obtain ⟨name, -, rfl⟩ := Option.map_eq_some_iff.mp hname
    exact h _ hm
  · exact .unpaired

theorem inRange_number? (h : number? cs = some (v, rest)) : InRange v := by
  unfold number? at h
  split at h
  split at h
  · cases h
  · split at h
    · cases h
    · split at h
      · cases h
      · split at h
        · cases h
          unfold unsigned
          split
          · next hn => exact .natural hn.2
          · exact .otherNumber
        · cases h
          exact .otherNumber

theorem inRange_word? (hv : InRange v) (h : word? word v cs = some (v', rest)) : InRange v' := by
  unfold word? at h
  split at h
  · cases h
    exact hv
  · cases h

theorem inRange_valueAt (hdeeper : ∀ value, deeper? = some value → Gives (value ()) InRange)
    (h : valueAt deeper? c cs = some (v, rest)) : InRange v := by
  unfold valueAt at h
  split at h
  · obtain ⟨⟨s?, rest'⟩, -, he⟩ := Option.map_eq_some_iff.mp h
    cases he
    cases s? with
    | none => exact .unpaired
    | some s => exact .string
  split at h
  · split at h
    · cases h
    · next value =>
      obtain ⟨⟨items, rest'⟩, hl, he⟩ := Option.map_eq_some_iff.mp h
      cases he
      exact .array (listOf_gives (hdeeper value rfl) hl)
  split at h
  · split at h
    · cases h
    · next value =>
      obtain ⟨⟨members, rest'⟩, hl, he⟩ := Option.map_eq_some_iff.mp h
      cases he
      exact inRange_ofMembers (listOf_gives (member_gives (hdeeper value rfl)) hl)
  split at h
  · exact inRange_word? .null h
  split at h
  · exact inRange_word? .bool h
  split at h
  · exact inRange_word? .bool h
  · exact inRange_number? h

theorem valueOver_gives (hdeeper : ∀ value, deeper? = some value → Gives (value ()) InRange) :
    Gives (valueOver deeper?) InRange := by
  intro cs v rest h
  change valueFrom deeper? cs = _ at h
  unfold valueFrom at h
  split at h
  · cases h
  · exact inRange_valueAt hdeeper h

theorem value_gives (n : Nat) : Gives (value n) InRange := by
  induction n with
  | zero => exact valueOver_gives (by simp)
  | succ n ih =>
    refine valueOver_gives ?_
    rintro _ ⟨⟩
    exact ih

end Read

theorem read?_inRange (h : read? text = some v) : InRange v := by
  unfold read? at h
  split at h
  · next v' rest hrun =>
    split at h
    · cases h
      exact Read.value_gives _ hrun
    · cases h
  · cases h

end Json

end FormulaCheck
