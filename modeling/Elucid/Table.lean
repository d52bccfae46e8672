import Mathlib.Tactic

/-!
# Tables with a primary key

A table is a list of rows in the order of their insertion, no two with the same key.
`insert` is an insertion that does nothing on a conflict of keys, `update` a change of
rows that keeps their keys, and `delete` removes the rows a condition selects. Each
operation comes with what `find?` returns behind it, so a proof about rows never looks
at the list.
-/

variable {ρ κ : Type*} {key : ρ → κ}

/-- Rows with distinct keys. -/
structure Table (key : ρ → κ) where
  rows : List ρ
  nodup : (rows.map key).Nodup

namespace Table

open List

variable {table : Table key} {row : ρ} {k : κ}

/-- The table without rows. -/
def empty : Table key := ⟨[], nodup_nil⟩

variable [DecidableEq κ]

/-- The row with the key `k`. -/
def find? (table : Table key) (k : κ) : Option ρ := table.rows.find? fun row => key row = k

/-- The key picks one row at most, so finding a row is being in the table with that key. -/
theorem find?_eq_some :
    table.find? k = some row ↔ row ∈ table.rows ∧ key row = k := by
  refine ⟨fun h => ⟨mem_of_find?_eq_some h, by simpa using find?_some h⟩, ?_⟩
  rintro ⟨hmem, rfl⟩
  have hsome : (table.find? (key row)).isSome := by
    rw [find?, find?_isSome]
    exact ⟨row, hmem, decide_eq_true rfl⟩
  obtain ⟨found, hfound⟩ := Option.isSome_iff_exists.mp hsome
  have hkey : key found = key row := by simpa using find?_some hfound
  have hsame := inj_on_of_nodup_map table.nodup (mem_of_find?_eq_some hfound) hmem hkey
  rw [hfound, hsame]

theorem find?_eq_none :
    table.find? k = none ↔ ∀ row ∈ table.rows, key row ≠ k := by
  simp [find?]

theorem find?_of_mem (h : row ∈ table.rows) :
    table.find? (key row) = some row :=
  find?_eq_some.mpr ⟨h, rfl⟩

@[simp] theorem find?_empty (k : κ) : (empty : Table key).find? k = none := rfl

/-- `INSERT ... ON CONFLICT DO NOTHING`, for a conflict of keys. -/
def insert (table : Table key) (row : ρ) : Table key :=
  if h : table.find? (key row) = none then
    ⟨table.rows ++ [row], by
      rw [map_append, nodup_append]
      refine ⟨table.nodup, nodup_singleton _, ?_⟩
      intro a ha b hb hab
      obtain ⟨other, hother, rfl⟩ := mem_map.mp ha
      obtain rfl : b = key row := by simpa using hb
      exact find?_eq_none.mp h other hother hab⟩
  else table

theorem rows_insert (h : table.find? (key row) = none) :
    (table.insert row).rows = table.rows ++ [row] := by
  rw [insert, dif_pos h]

theorem find?_insert (h : table.find? (key row) = none) (k : κ) :
    (table.insert row).find? k = if key row = k then some row else table.find? k := by
  rw [find?, rows_insert h, find?_append, ← find?]
  split
  · subst k
    simp [h]
  · simp [*]

/-- `UPDATE`, with a change that leaves a row as it is where the condition fails. -/
def update (table : Table key) (f : ρ → ρ) (h : ∀ row, key (f row) = key row) : Table key :=
  ⟨table.rows.map f, by
    rw [map_map, show key ∘ f = key from funext h]
    exact table.nodup⟩

theorem find?_update (table : Table key) {f : ρ → ρ} (h : ∀ row, key (f row) = key row) (k : κ) :
    (table.update f h).find? k = (table.find? k).map f := by
  rw [find?, find?, update, find?_map]
  congr 2
  funext row
  exact congrArg (decide <| · = k) (h row)

def delete (table : Table key) (p : ρ → Bool) : Table key :=
  ⟨table.rows.filter fun row => !p row, table.nodup.sublist (filter_sublist.map key)⟩

theorem find?_delete (table : Table key) (p : ρ → Bool) (k : κ) :
    (table.delete p).find? k = (table.find? k).filter fun row => !p row := by
  ext row
  simp only [find?_eq_some, delete, mem_filter, Option.filter_eq_some_iff]
  tauto

end Table
