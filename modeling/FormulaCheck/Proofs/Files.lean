import FormulaCheck.Files

/-!
# Files that last

What is asked of an access to files so that a file is found again as it was left: a text that was
written is read back, and a file that was removed is no longer there. Any write and any removal may
fail, and nothing is asked of one that does, but that a file which is not there for its removal is
not there for reading either.
-/

namespace FormulaCheck

-- ---------------------------------------------------------------------------
-- Results and states
-- ---------------------------------------------------------------------------

theorem bind_eq_ok_iff {x : Except ε α} {next : α → Except ε β} :
    x >>= next = .ok b ↔ ∃ a, x = .ok a ∧ next a = .ok b := by
  cases x <;> simp [bind, Except.bind]

theorem map_eq_ok_iff {x : Except ε α} {f : α → β} :
    x.map f = .ok b ↔ ∃ a, x = .ok a ∧ f a = b := by
  cases x <;> simp [Except.map]

theorem mapError_eq_ok_iff {x : Except ε α} {f : ε → ε'} : x.mapError f = .ok a ↔ x = .ok a := by
  cases x with
  | error e => exact ⟨nofun, nofun⟩
  | ok b => constructor <;> rintro ⟨⟩ <;> rfl

@[simp] theorem StateM.pure_apply (a : α) (s : σ) : (pure a : StateM σ α) s = (a, s) := rfl

@[simp] theorem StateM.bind_apply (action : StateM σ α) (next : α → StateM σ β) (s : σ) :
    (action >>= next) s = next (action s).1 (action s).2 := rfl

@[simp] theorem StateM.map_apply (f : α → β) (action : StateM σ α) (s : σ) :
    (f <$> action) s = (f (action s).1, (action s).2) := rfl

-- ---------------------------------------------------------------------------
-- A file at a path
-- ---------------------------------------------------------------------------

/-- The file at a path lasts: nobody else changes it, and a change that succeeded is seen. -/
structure Files.Keeps (files : Files (StateM σ)) (path : String) : Prop where
  read_of_write : ∀ text s, (files.write path text s).1 = .ok () →
    (files.read path (files.write path text s).2).1 = .ok text
  read_of_remove : ∀ s, (files.remove path s).1 = .ok () →
    (files.read path (files.remove path s).2).1 = .error .notFound
  read_of_missing : ∀ s, (files.remove path s).1 = .error .notFound →
    (files.read path (files.remove path s).2).1 = .error .notFound

end FormulaCheck
