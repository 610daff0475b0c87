import Mathlib.Data.List.Basic

/-!
# A stream that arrives in pieces

A byte stream is what a transport delivers, cut into pieces at places nobody controls. A
stream is the list of its non-empty pieces; a `recv` returns at most the next piece, so
every way a transport can cut or join the bytes is some list of pieces.

* `recvExact`: the loop that calls `recv` until it has a given number of bytes. By
  `recvExact_split` it leaves the stream exactly behind them.
* `read`: a buffered read, which goes on to the next piece by itself. By `read_fst` and
  `read_snd` it does not depend on the pieces at all.
-/

namespace Chunked

variable {α : Type*}

/-- `recv(n)`: at most `n` bytes, and at most one piece; nothing at the end of the stream. -/
def recv (n : ℕ) : List (List α) → List α × List (List α)
  | [] => ([], [])
  | c :: s => if c.length ≤ n then (c, s) else (c.take n, c.drop n :: s)

/-- The loop over `recv` for `n` bytes, of which `got` are there: `none` at the end of the
stream. -/
def recvLoop (n : ℕ) : ℕ → List α → List (List α) → Option (List α × List (List α))
  | 0, got, s => if got.length < n then none else some (got, s)
  | fuel + 1, got, s =>
    if got.length < n then
      let (c, s) := recv (n - got.length) s
      if c.isEmpty then none else recvLoop n fuel (got ++ c) s
    else some (got, s)

/-- Receive exactly `n` bytes; each turn of the loop that goes on brings at least one. -/
def recvExact (n : ℕ) (s : List (List α)) : Option (List α × List (List α)) := recvLoop n n [] s

/-- A buffered read of `n` bytes: fewer only at the end of the stream. -/
def read : ℕ → List (List α) → List α × List (List α)
  | _, [] => ([], [])
  | n, c :: s =>
    if n ≤ c.length then (c.take n, c.drop n :: s)
    else
      let (d, s) := read (n - c.length) s
      (c ++ d, s)

/-- Nothing is lost or reordered. -/
theorem recv_append (n : ℕ) (s : List (List α)) :
    (recv n s).1 ++ (recv n s).2.flatten = s.flatten := by
  cases s with
  | nil => rfl
  | cons c s =>
    rw [recv]
    split_ifs
    · rfl
    · simp only [List.flatten_cons]
      rw [← List.append_assoc, List.take_append_drop]

/-- The piece that contains the byte behind the first `n`. -/
theorem exists_split {s : List (List α)} {n : ℕ} (h : n < s.flatten.length) :
    ∃ before c after, s = before ++ c :: after ∧ before.flatten.length ≤ n ∧
      n < before.flatten.length + c.length := by
  induction s generalizing n with
  | nil => simp at h
  | cons c s ih =>
    by_cases hc : n < c.length
    · exact ⟨[], c, s, rfl, by simp, by simpa using hc⟩
    · rw [List.flatten_cons, List.length_append] at h
      obtain ⟨before, d, after, rfl, hle, hlt⟩ := ih (n := n - c.length) (by omega)
      refine ⟨c :: before, d, after, rfl, ?_, ?_⟩
      · rw [List.flatten_cons, List.length_append]
        omega
      · rw [List.flatten_cons, List.length_append]
        omega

theorem recvLoop_split {n fuel : ℕ} {got : List α} {before after : List (List α)} {c : List α}
    (hne : ∀ p ∈ before, p ≠ []) (hfuel : n ≤ got.length + fuel)
    (hle : got.length + before.flatten.length ≤ n)
    (hlt : n < got.length + before.flatten.length + c.length) :
    recvLoop n fuel got (before ++ c :: after) =
      some (got ++ before.flatten ++ c.take (n - got.length - before.flatten.length),
        c.drop (n - got.length - before.flatten.length) :: after) := by
  induction before generalizing got fuel with
  | nil =>
    simp only [List.flatten_nil, List.length_nil, Nat.add_zero, List.nil_append, Nat.sub_zero,
      List.append_nil] at hle hlt ⊢
    by_cases hgot : got.length < n
    · -- one more `recv`, which stays inside the piece
      obtain ⟨fuel, rfl⟩ : ∃ k, fuel = k + 1 := ⟨fuel - 1, by omega⟩
      have hrecv : recv (n - got.length) (c :: after) =
          (c.take (n - got.length), c.drop (n - got.length) :: after) := by
        rw [recv]
        split_ifs with hc
        · omega
        · rfl
      have hsome : (c.take (n - got.length)).isEmpty = false := by
        rw [List.isEmpty_eq_false_iff, ← List.length_pos_iff, List.length_take]
        omega
      have hdone : ¬ (got ++ c.take (n - got.length)).length < n := by
        rw [List.length_append, List.length_take]
        omega
      rw [recvLoop, if_pos hgot, hrecv]
      simp only [hsome, Bool.false_eq_true, if_false]
      cases fuel <;> rw [recvLoop, if_neg hdone]
    · have hzero : n - got.length = 0 := by omega
      rw [hzero, List.take_zero, List.drop_zero, List.append_nil]
      cases fuel <;> rw [recvLoop, if_neg hgot]
  | cons p before ih =>
    obtain ⟨hp, hrest⟩ := List.forall_mem_cons.mp hne
    have hlen := List.length_pos_iff.mpr hp
    rw [List.flatten_cons, List.length_append] at hle hlt
    obtain ⟨fuel, rfl⟩ : ∃ k, fuel = k + 1 := ⟨fuel - 1, by omega⟩
    have hgot : got.length < n := by omega
    have hrecv : recv (n - got.length) (p :: (before ++ c :: after)) =
        (p, before ++ c :: after) := by
      rw [recv, if_pos (by omega)]
    rw [List.cons_append, recvLoop, if_pos hgot, hrecv]
    simp only [List.isEmpty_eq_false_iff.mpr hp, Bool.false_eq_true, if_false]
    rw [ih hrest (by rw [List.length_append]; omega) (by rw [List.length_append]; omega)
      (by rw [List.length_append]; omega), List.length_append, List.flatten_cons,
      List.length_append]
    have hsub : n - (got.length + p.length) - before.flatten.length =
        n - got.length - (p.length + before.flatten.length) := by omega
    rw [hsub, List.append_assoc got p]

/-- **What is left after an exact receive**: the rest of the piece it ended in, and the
pieces behind it. -/
theorem recvExact_split {n : ℕ} {before after : List (List α)} {c : List α}
    (hne : ∀ p ∈ before, p ≠ []) (hle : before.flatten.length ≤ n)
    (hlt : n < before.flatten.length + c.length) :
    recvExact n (before ++ c :: after) = some (before.flatten ++
      c.take (n - before.flatten.length), c.drop (n - before.flatten.length) :: after) := by
  rw [recvExact, recvLoop_split hne (by simp) (by simpa using hle) (by simpa using hlt)]
  simp

theorem read_fst (n : ℕ) (s : List (List α)) : (read n s).1 = s.flatten.take n := by
  induction s generalizing n with
  | nil => simp [read]
  | cons c s ih =>
    rw [read, List.flatten_cons]
    split_ifs with hc
    · rw [List.take_append_of_le_length hc]
    · rw [List.take_append, List.take_of_length_le (by omega), ← ih]

theorem read_snd (n : ℕ) (s : List (List α)) : (read n s).2.flatten = s.flatten.drop n := by
  induction s generalizing n with
  | nil => simp [read]
  | cons c s ih =>
    rw [read, List.flatten_cons]
    split_ifs with hc
    · rw [List.flatten_cons, List.drop_append_of_le_length hc]
    · rw [List.drop_append, List.drop_eq_nil_of_le (by omega), List.nil_append, ← ih]

end Chunked
