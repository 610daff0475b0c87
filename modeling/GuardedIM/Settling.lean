import Mathlib.Algebra.Order.BigOperators.Group.Finset
import Mathlib.Algebra.Order.Group.Nat
import GuardedIM.Interleave

/-!
# Programs that come to rest

Every thread has a rank, and a step brings the rank of its thread down. When only finitely many
threads can move at all, the ranks add up to a bound on the length of a run, whatever the schedule.

* `exists_moved`: in a configuration that was reached only finitely many threads have moved.
* `Run.length_le`: the bound.
* `exists_run_of_progress`: when there is always a step to take short of a goal, the goal can be
  reached.
-/

namespace Interleave.Program

variable {θ γ τ ι ε : Type*} [DecidableEq θ] {P : Program θ γ τ ι ε}
  {C : Config θ γ τ ε → θ × ι → Prop} {x y : Config θ γ τ ε} {as : List (θ × ι)}

/-- All threads but finitely many are where they started. -/
theorem exists_moved (h : P.Reach C x) : ∃ S : Finset θ, ∀ t, t ∉ S → x.thread t = P.start := by
  obtain ⟨as, hrun⟩ := h
  refine ⟨(as.map Prod.fst).toFinset, fun t ht => hrun.thread_eq fun a ha hat => ht ?_⟩
  rw [List.mem_toFinset]
  exact List.mem_map.mpr ⟨a, ha, hat⟩

/-- The ranks of the threads `S`. -/
def total (S : Finset θ) (rank : τ → ℕ) (x : Config θ γ τ ε) : ℕ := ∑ t ∈ S, rank (x.thread t)

theorem total_after_lt {S : Finset θ} {rank : τ → ℕ} {t : θ} {m : γ × τ × List ε} (ht : t ∈ S)
    (h : rank m.2.1 < rank (x.thread t)) : total S rank (after x t m) < total S rank x := by
  refine Finset.sum_lt_sum (fun u _ => ?_) ⟨t, ht, ?_⟩
  · by_cases hu : u = t
    · subst hu
      rw [after_thread_self]
      exact h.le
    · rw [after_thread_ne _ _ hu]
  · rwa [after_thread_self]

/-- **A run is no longer than the ranks add up to**, when each of its steps brings one down. -/
theorem Run.length_le {I : Config θ γ τ ε → Prop} (S : Finset θ) (rank : τ → ℕ)
    (h : P.Run C x as y) (h0 : I x)
    (hs : ∀ z t i m, I z → C z (t, i) → P.step t z.memory (z.thread t) i = some m →
      I (after z t m) ∧ t ∈ S ∧ rank m.2.1 < rank (z.thread t)) :
    I y ∧ as.length + total S rank y ≤ total S rank x := by
  induction h with
  | nil => exact ⟨h0, (Nat.zero_add _).le⟩
  | @snoc as y z a _ hC hn ih =>
    obtain ⟨hy, hle⟩ := ih
    obtain ⟨m, hm, rfl⟩ := next_eq_some hn
    obtain ⟨hz, ht, hlt⟩ := hs y a.1 a.2 m hy hC hm
    have hsum := total_after_lt ht hlt
    refine ⟨hz, ?_⟩
    rw [List.length_append, List.length_singleton]
    omega

/-- **A goal can be reached** when there is a step to take wherever it is not reached. -/
theorem exists_run_of_progress {I Q : Config θ γ τ ε → Prop} (S : Finset θ) (rank : τ → ℕ)
    (h0 : I x) (hs : ∀ z t i m, I z → C z (t, i) → P.step t z.memory (z.thread t) i = some m →
      I (after z t m) ∧ t ∈ S ∧ rank m.2.1 < rank (z.thread t))
    (hprogress : ∀ z, I z → ¬ Q z → ∃ a, C z a ∧ (P.next z a).isSome = true) :
    ∃ as z, P.Run C x as z ∧ Q z := by
  induction hn : total S rank x using Nat.strongRecOn generalizing x with
  | ind n ih =>
    by_cases hgoal : Q x
    · exact ⟨[], x, .nil, hgoal⟩
    · obtain ⟨a, hC, hsome⟩ := hprogress x h0 hgoal
      obtain ⟨y, hy⟩ := Option.isSome_iff_exists.mp hsome
      have hrun : P.Run C x ([] ++ [a]) y := .snoc .nil hC hy
      obtain ⟨m, hm, rfl⟩ := next_eq_some hy
      obtain ⟨hI, ht, hlt⟩ := hs x a.1 a.2 m h0 hC hm
      obtain ⟨as, z, hz, hgoal⟩ := ih _ (hn ▸ total_after_lt ht hlt) hI rfl
      exact ⟨_, z, hrun.trans hz, hgoal⟩

end Interleave.Program
