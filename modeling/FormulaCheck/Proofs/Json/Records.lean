import FormulaCheck.Json.Codec
import FormulaCheck.Proofs.Json.Bounds
import FormulaCheck.Proofs.Json.RoundTrip

/-!
# Records in a file

Records whose numbers are below `2^64` are read back from a file as they were written
(`Record.ofFileText?_fileText`), and the numbers of all records that are read from a file are below
`2^64` (`Record.inRange_of_ofFileText?`).
-/

namespace FormulaCheck

structure Summary.InRange (s : Summary) : Prop where
  tokens : s.tokens < UInt64.size
  symbols : s.symbols < UInt64.size
  errors : s.errors < UInt64.size
  valid : s.valid < UInt64.size

structure Record.InRange (r : Record) : Prop where
  timestamp : r.timestamp < UInt64.size
  summary : r.summary.InRange

-- ---------------------------------------------------------------------------
-- Written and read back
-- ---------------------------------------------------------------------------

theorem Summary.ofJson?_toJson (s : Summary) : ofJson? s.toJson = some s := by
  simp [ofJson?, toJson, Json.fields?, Json.natural?]

theorem Record.ofJson?_toJson (r : Record) : ofJson? r.toJson = some r := by
  simp [ofJson?, toJson, Json.fields?, Json.natural?, Json.string?, Summary.ofJson?_toJson]

theorem Summary.InRange.plain (h : InRange s) : Json.Plain (n + 1) s.toJson := by
  refine .object ?_
  simp only [List.forall_mem_cons, List.not_mem_nil, false_implies, implies_true, and_true]
  exact ⟨.natural h.tokens, .natural h.symbols, .natural h.errors, .natural h.valid⟩

theorem Record.InRange.plain (h : InRange r) : Json.Plain (n + 2) r.toJson := by
  refine .object ?_
  simp only [List.forall_mem_cons, List.not_mem_nil, false_implies, implies_true, and_true]
  exact ⟨.string, .string, .natural h.timestamp, h.summary.plain⟩

theorem Record.ofFileText?_fileText (h : ∀ r ∈ records, InRange r) :
    ofFileText? (fileText records) = some records := by
  have hplain : Json.Plain 3 (.array (records.map toJson)) := by
    refine .array fun v hv => ?_
    obtain ⟨r, hr, rfl⟩ := List.mem_map.mp hv
    exact (h r hr).plain
  have hread : (records.map toJson).mapM ofJson? = some records := by
    rw [mapM_eq_some_iff, List.forall₂_map_left_iff]
    exact List.forall₂_same.mpr fun r _ => r.ofJson?_toJson
  simp [ofFileText?, fileText, Json.read?_render hplain, Json.array?, hread]

-- ---------------------------------------------------------------------------
-- Read from any file
-- ---------------------------------------------------------------------------

namespace Json

theorem inRange_of_fields? (h : fields? names v = some fields) (hv : InRange v) :
    ∀ field ∈ fields, ∀ w, field = some w → InRange w := by
  unfold fields? at h
  split at h
  · next members =>
    cases hv with
    | object hmembers =>
    refine forall_of_mapM_eq_some h fun name _ field hfield w hw => ?_
    split at hfield
    · cases hfield
      cases hw
    · next m hm =>
      cases hfield
      cases hw
      have hmem := List.mem_of_mem_filter (hm ▸ List.mem_singleton_self _)
      exact hmembers _ hmem
    · cases hfield
  · next items =>
    cases hv with
    | array hitems =>
    split at h
    · cases h
      intro field hfield w hw
      subst hw
      simp only [List.mem_append, List.mem_map, List.mem_replicate] at hfield
      obtain ⟨item, hitem, hw⟩ | ⟨-, hw⟩ := hfield
      · cases hw
        exact hitems w hitem
      · cases hw
    · cases h
  · cases h

theorem lt_of_natural? (h : natural? v = some n) (hv : InRange v) : n < UInt64.size := by
  cases hv with
  | natural hn => cases h; exact hn
  | _ => cases h

end Json

theorem Summary.inRange_of_ofJson? (h : ofJson? v = some s) (hv : v.InRange) : s.InRange := by
  unfold ofJson? at h
  simp only [Option.bind_eq_bind, Option.bind_eq_some_iff] at h
  obtain ⟨fields, hfields, h⟩ := h
  have hall := Json.inRange_of_fields? hfields hv
  split at h
  · simp only [Option.pure_def, Option.bind_eq_some_iff, Option.some.injEq] at h
    obtain ⟨tokens, htokens, symbols, hsymbols, errors, herrors, valid, hvalid, rfl⟩ := h
    simp only [List.forall_mem_cons, Option.some.injEq, forall_eq'] at hall
    obtain ⟨hvtokens, hvsymbols, hverrors, hvvalid, -⟩ := hall
    exact ⟨Json.lt_of_natural? htokens hvtokens, Json.lt_of_natural? hsymbols hvsymbols,
      Json.lt_of_natural? herrors hverrors, Json.lt_of_natural? hvalid hvvalid⟩
  · cases h

theorem Record.inRange_of_ofJson? (h : ofJson? v = some r) (hv : v.InRange) : r.InRange := by
  unfold ofJson? at h
  simp only [Option.bind_eq_bind, Option.bind_eq_some_iff] at h
  obtain ⟨fields, hfields, h⟩ := h
  have hall := Json.inRange_of_fields? hfields hv
  split at h
  · simp only [Option.pure_def, Option.bind_eq_some_iff, Option.some.injEq] at h
    obtain ⟨id, -, input, -, timestamp, htimestamp, summary, hsummary, rfl⟩ := h
    simp only [List.forall_mem_cons, Option.some.injEq, forall_eq'] at hall
    obtain ⟨-, -, hvtimestamp, hvsummary, -⟩ := hall
    exact ⟨Json.lt_of_natural? htimestamp hvtimestamp,
      Summary.inRange_of_ofJson? hsummary hvsummary⟩
  · cases h

theorem Record.inRange_of_ofFileText? (h : ofFileText? text = some records) :
    ∀ r ∈ records, r.InRange := by
  simp only [ofFileText?, Option.bind_eq_bind, Option.bind_eq_some_iff] at h
  obtain ⟨v, hread, items, hitems, h⟩ := h
  have hv := Json.read?_inRange hread
  cases hv with
  | array hall =>
    cases hitems
    exact forall_of_mapM_eq_some h fun v hv r hr => inRange_of_ofJson? hr (hall v hv)
  | _ => cases hitems

end FormulaCheck
