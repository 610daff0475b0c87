import GuardedIM.Interleave

/-!
# One program inside another

A program that does more than another one, or does it in smaller steps, is related to it by a
function on configurations. Every step of the first is then a step of the second, or invisible to
it, and what the second program never does the first one never does either.

* `Refines`: the condition on single steps.
* `Refines.reach`: what it comes to on runs.
-/

namespace Interleave.Program

variable {θ γ τ ι ε θ' γ' τ' ι' ε' : Type*} [DecidableEq θ] [DecidableEq θ']

/-- Through `f`, every step of `P` that meets `C` is a step of `Q` that meets `D`, or none. -/
structure Refines (P : Program θ γ τ ι ε) (C : Config θ γ τ ε → θ × ι → Prop)
    (Q : Program θ' γ' τ' ι' ε') (D : Config θ' γ' τ' ε' → θ' × ι' → Prop)
    (f : Config θ γ τ ε → Config θ' γ' τ' ε') : Prop where
  /-- the programs start alike -/
  init : f P.init = Q.init
  /-- and go on alike -/
  step : ∀ {x y : Config θ γ τ ε} {a : θ × ι}, C x a → P.next x a = some y →
    f y = f x ∨ ∃ b, D (f x) b ∧ Q.next (f x) b = some (f y)

variable {P : Program θ γ τ ι ε} {Q : Program θ' γ' τ' ι' ε'}
  {C : Config θ γ τ ε → θ × ι → Prop} {D : Config θ' γ' τ' ε' → θ' × ι' → Prop}
  {f : Config θ γ τ ε → Config θ' γ' τ' ε'}

/-- **What is reached is reached in the other program too.** -/
theorem Refines.reach (h : Refines P C Q D f) {x : Config θ γ τ ε} (hx : P.Reach C x) :
    Q.Reach D (f x) := by
  obtain ⟨as, hrun⟩ := hx
  induction hrun with
  | nil =>
    rw [h.init]
    exact reach_init
  | snoc _ hC hn ih =>
    rcases h.step hC hn with heq | ⟨b, hb, hnext⟩
    · rw [heq]
      exact ih
    · exact ih.step hb hnext

end Interleave.Program
