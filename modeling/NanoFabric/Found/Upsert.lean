import NanoFabric.Found.Dict

/-!
# Inserting or updating rows

A row is inserted under a new key, and under a key that is there it is merged into the old row, which
may keep some of its columns. `upsert_returns_iff` says when a table still returns what was last saved
under every key.
-/

namespace NanoFabric.Found

variable {α β : Type} [DecidableEq α]

namespace Dict

/-- The row as it is stored: new, or merged into the one that is there. -/
def merged (merge : β → β → β) (d : Dict α β) (k : α) (row : β) : β :=
  match d.get? k with
  | none => row
  | some old => merge old row

/-- Inserts a row or updates the one that is there. -/
def upsert (merge : β → β → β) (d : Dict α β) (k : α) (row : β) : Dict α β :=
  d.set k (d.merged merge k row)

variable {merge : β → β → β} {d saved : Dict α β} {k : α} {row : β}

theorem merged_of_none (h : d.get? k = none) : d.merged merge k row = row := by
  unfold merged
  rw [h]

theorem merged_of_some {old : β} (h : d.get? k = some old) :
    d.merged merge k row = merge old row := by
  unfold merged
  rw [h]

/-- The row is stored as it is given just when the one that is there keeps no other column. -/
theorem merged_eq_iff : d.merged merge k row = row ↔
    ∀ old, d.get? k = some old → merge old row = row := by
  rcases h : d.get? k with _ | old
  · simp [merged_of_none h]
  · rw [merged_of_some h]
    exact ⟨fun heq old' hold => Option.some.inj hold ▸ heq, fun hall => hall old rfl⟩

/-- A table that returns what was last saved does so after a save just when the row is stored as it
is given. -/
theorem upsert_returns_iff (h : ∀ k, d.get? k = saved.get? k) :
    (∀ k', (d.upsert merge k row).get? k' = (saved.set k row).get? k') ↔
      d.merged merge k row = row := by
  unfold upsert
  simp only [get?_set]
  constructor
  · intro hall
    have hself := hall k
    rw [if_pos rfl, if_pos rfl] at hself
    exact Option.some.inj hself
  · intro hrow k'
    rw [hrow, h]

end Dict

end NanoFabric.Found
