import Mathlib.Data.List.Pairwise
import Mathlib.Tactic.SplitIfs

/-!
# Tables with unique columns

A table is a list of rows no two of which clash. What clashes is a parameter: in a
database, two rows clash when they agree in a column declared `PRIMARY KEY` or `UNIQUE`.
The constraint is part of the table, so a statement that would break it has no result.

* `Table.eq_of_clash`: two rows that clash are the same row.
* `Table.insert_rows`, `Table.update_rows`: the rows after a statement that succeeded.
* `Table.find?_insert`, `Table.find?_update`: what later queries find.
-/

/-- Rows no two of which clash, in the order in which they were inserted. -/
structure Table (ρ : Type*) (clash : ρ → ρ → Prop) where
  /-- the rows -/
  rows : List ρ
  /-- no two of them clash -/
  unique : rows.Pairwise fun r r' => ¬ clash r r'

namespace Table

variable {ρ : Type*} {clash : ρ → ρ → Prop}

/-- `CREATE TABLE` -/
def empty : Table ρ clash := ⟨[], .nil⟩

/-- The first row that meets a condition. -/
def find? (T : Table ρ clash) (p : ρ → Bool) : Option ρ := T.rows.find? p

variable [DecidableRel clash]

/-- `INSERT`; `none` when the new row clashes with another. -/
def insert (T : Table ρ clash) (row : ρ) : Option (Table ρ clash) :=
  if h : ∀ r ∈ T.rows, ¬ clash r row then
    some ⟨T.rows ++ [row], List.pairwise_append.mpr ⟨T.unique, List.pairwise_singleton _ _,
      fun r hr _ hrow => List.mem_singleton.mp hrow ▸ h r hr⟩⟩
  else none

/-- `UPDATE … WHERE p`, with the number of rows it affects; `none` when the rows would
clash. -/
def update (T : Table ρ clash) (p : ρ → Bool) (f : ρ → ρ) : Option (Table ρ clash × ℕ) :=
  if h : (T.rows.map fun r => if p r then f r else r).Pairwise fun r r' => ¬ clash r r' then
    some (⟨_, h⟩, T.rows.countP p)
  else none

omit [DecidableRel clash] in
/-- Rows that clash are one row. -/
theorem eq_of_clash (T : Table ρ clash) (hsymm : ∀ r r', clash r r' → clash r' r) {r r' : ρ}
    (hr : r ∈ T.rows) (hr' : r' ∈ T.rows) (h : clash r r') : r = r' := by
  have hnot : Std.Symm fun r r' => ¬ clash r r' := ⟨fun r r' hrr' hr'r => hrr' (hsymm r' r hr'r)⟩
  by_contra hne
  exact T.unique.forall hr hr' hne h

omit [DecidableRel clash] in
/-- What a query finds is a row that meets the condition. -/
theorem of_find? {T : Table ρ clash} {q : ρ → Bool} {r : ρ} (h : T.find? q = some r) :
    r ∈ T.rows ∧ q r = true :=
  ⟨List.mem_of_find?_eq_some h, List.find?_some h⟩

theorem insert_rows {T T' : Table ρ clash} {row : ρ} (h : T.insert row = some T') :
    T'.rows = T.rows ++ [row] := by
  rw [insert] at h
  split_ifs at h
  rw [← Option.some.inj h]

/-- A row that was inserted did not clash. -/
theorem insert_free {T T' : Table ρ clash} {row : ρ} (h : T.insert row = some T') {r : ρ}
    (hr : r ∈ T.rows) : ¬ clash r row := by
  rw [insert] at h
  split_ifs at h with hfree
  exact hfree r hr

theorem update_rows {T T' : Table ρ clash} {p : ρ → Bool} {f : ρ → ρ} {n : ℕ}
    (h : T.update p f = some (T', n)) :
    T'.rows = T.rows.map fun r => if p r then f r else r := by
  rw [update] at h
  split_ifs at h
  rw [← (Prod.mk.inj (Option.some.inj h)).1]

theorem update_count {T T' : Table ρ clash} {p : ρ → Bool} {f : ρ → ρ} {n : ℕ}
    (h : T.update p f = some (T', n)) : n = T.rows.countP p := by
  rw [update] at h
  split_ifs at h
  rw [← (Prod.mk.inj (Option.some.inj h)).2]

omit [DecidableRel clash] in
/-- A condition that only rows that clash can share holds of at most one row. -/
theorem countP_le_one (T : Table ρ clash) {p : ρ → Bool}
    (hp : ∀ r r', p r = true → p r' = true → clash r r') : T.rows.countP p ≤ 1 := by
  have hrows := T.unique
  generalize T.rows = rows at hrows
  induction rows with
  | nil => exact Nat.zero_le 1
  | cons r rows ih =>
    obtain ⟨hr, hrows⟩ := List.pairwise_cons.mp hrows
    by_cases hpr : p r = true
    · have hrest : rows.countP p = 0 :=
        List.countP_eq_zero.mpr fun r' hr' hpr' => hr r' hr' (hp r r' hpr hpr')
      exact Nat.le_of_eq ((List.countP_cons_of_pos hpr).trans (congrArg (· + 1) hrest))
    · rw [List.countP_cons_of_neg hpr]
      exact ih hrows

/-- A row of the new table is an old one or the one inserted. -/
theorem mem_insert {T T' : Table ρ clash} {row : ρ} (h : T.insert row = some T') {r : ρ} :
    r ∈ T'.rows ↔ r ∈ T.rows ∨ r = row := by
  rw [insert_rows h, List.mem_append, List.mem_singleton]

/-- A row of the new table is an old one, changed where the condition holds. -/
theorem mem_update {T T' : Table ρ clash} {p : ρ → Bool} {f : ρ → ρ} {n : ℕ}
    (h : T.update p f = some (T', n)) {r : ρ} :
    r ∈ T'.rows ↔ ∃ r₀ ∈ T.rows, (if p r₀ then f r₀ else r₀) = r := by
  rw [update_rows h, List.mem_map]

/-- A query finds the inserted row when there was none before. -/
theorem find?_insert {T T' : Table ρ clash} {row : ρ} (h : T.insert row = some T')
    (q : ρ → Bool) : T'.find? q = (T.find? q).or (if q row then some row else none) := by
  rw [find?, insert_rows h, List.find?_append]
  by_cases hq : q row = true
  · rw [List.find?_cons_of_pos hq, if_pos hq]
    rfl
  · rw [List.find?_cons_of_neg hq, if_neg hq]
    rfl

/-- A query that does not see the update finds the same row, updated. -/
theorem find?_update {T T' : Table ρ clash} {p : ρ → Bool} {f : ρ → ρ} {n : ℕ}
    (h : T.update p f = some (T', n)) {q : ρ → Bool} (hq : ∀ r, q (f r) = q r) :
    T'.find? q = (T.find? q).map fun r => if p r then f r else r := by
  have hcomp : (q ∘ fun r => if p r then f r else r) = q := by
    funext r
    by_cases hp : p r = true
    · rw [Function.comp_apply, if_pos hp, hq]
    · rw [Function.comp_apply, if_neg hp]
  rw [find?, update_rows h, List.find?_map, hcomp]
  rfl

end Table
