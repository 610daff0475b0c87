import GuardedIM.Client

/-!
# Where a received file is stored

`build_receive_path` turns three names into three components below the media root.

* `receive_path_confined`: the components are safe names, for all values, so the check for
  an escape never fails.
* `paths_differ_iff`: when the files of different people are kept apart. The sanitiser
  strips dots and underscores that a username may begin or end with.
-/

namespace GuardedIM

variable (printable : CodePoint → Bool) (root : MediaRoot)

/-- A text cut to `n` characters is a safe name when the text is safe and the fallback, which
stands in when nothing is left, is one. -/
theorem safeName_orElse {n : ℕ} {s fallback : Str} (hs : ∀ c ∈ s, safeChar c = true)
    (hf : SafeName n fallback) : SafeName n (orElse (s.take n) fallback) := by
  rw [orElse]
  split_ifs with hnil
  · exact hf
  · refine ⟨List.length_pos_iff.mpr hnil, ?_, fun c hc => hs c (List.mem_of_mem_take hc)⟩
    rw [List.length_take]
    exact min_le_left ..

theorem safePathPart_safeName {fallback : Str} (hf : SafeName 80 fallback) (value : Json) :
    SafeName 80 (safePathPart printable value fallback) :=
  safeName_orElse clean_safe hf

theorem safeFilename_safeName (value : Json) : SafeName 120 (safeFilename printable value) :=
  safeName_orElse clean_safe (by decide)

/-- **Received files stay below the media root**, in the directory of a sender in that of a
user, whatever the three values are. -/
theorem receive_path_confined (username sender filename : Json) : ∃ x y z,
    buildReceivePath printable root username sender filename =
        .ok (root.parts ++ [str "user_" ++ x, str "from_" ++ y, z]) ∧
      SafeName 80 x ∧ SafeName 80 y ∧ SafeName 120 z ∧ z ≠ str "." ∧ z ≠ str ".." := by
  have hfile : PlainPart (safeFilename printable filename) := safeFileText_plain _
  exact ⟨_, _, _, buildReceivePath_eq printable root username sender filename,
    safePathPart_safeName printable (by decide) username,
    safePathPart_safeName printable (by decide) sender, safeFilename_safeName printable filename,
    hfile.not_dot, hfile.not_dotdot⟩

/-! ## Files of different people -/

/-- What names a directory: the username without the dots and underscores at its ends. -/
def bare (fallback s : Str) : Str := orElse (stripBy isDotUnderscore s) fallback

/-- The directory of a valid username is its bare name. -/
theorem safePathPart_username {s : Str} (hs : SafeName 32 s) (fallback : Str) :
    safePathPart printable (.str s) fallback = bare fallback s := by
  rw [safePathPart, Json.orEmpty_str, safePathText_of_safeName hs (by decide), bare]

/-- The paths of valid usernames agree when all three components do. -/
theorem buildReceivePath_inj {u₁ u₂ s₁ s₂ : Str} (hu₁ : SafeName 32 u₁) (hu₂ : SafeName 32 u₂)
    (hs₁ : SafeName 32 s₁) (hs₂ : SafeName 32 s₂) (f₁ f₂ : Json) :
    buildReceivePath printable root (.str u₁) (.str s₁) f₁ =
        buildReceivePath printable root (.str u₂) (.str s₂) f₂ ↔
      bare (str "unknown_user") u₁ = bare (str "unknown_user") u₂ ∧
        bare (str "unknown_sender") s₁ = bare (str "unknown_sender") s₂ ∧
        safeFilename printable f₁ = safeFilename printable f₂ := by
  rw [buildReceivePath_eq, buildReceivePath_eq, safePathPart_username printable hu₁,
    safePathPart_username printable hu₂, safePathPart_username printable hs₁,
    safePathPart_username printable hs₂]
  simp only [Except.ok.injEq, List.append_cancel_left_eq, List.cons.injEq, and_true]

/-- **When files of different people are kept apart**: the pair of recipient and sender is
the same, or one of the two has another bare name, or the files have different names. -/
theorem paths_differ_iff {u₁ u₂ s₁ s₂ : Str} (hu₁ : SafeName 32 u₁) (hu₂ : SafeName 32 u₂)
    (hs₁ : SafeName 32 s₁) (hs₂ : SafeName 32 s₂) (f₁ f₂ : Json) :
    ((u₁, s₁) ≠ (u₂, s₂) → buildReceivePath printable root (.str u₁) (.str s₁) f₁ ≠
        buildReceivePath printable root (.str u₂) (.str s₂) f₂) ↔
      (u₁, s₁) = (u₂, s₂) ∨ bare (str "unknown_user") u₁ ≠ bare (str "unknown_user") u₂ ∨
        bare (str "unknown_sender") s₁ ≠ bare (str "unknown_sender") s₂ ∨
        safeFilename printable f₁ ≠ safeFilename printable f₂ := by
  rw [ne_eq, ne_eq, buildReceivePath_inj printable root hu₁ hu₂ hs₁ hs₂]
  by_cases hpair : (u₁, s₁) = (u₂, s₂)
  · exact iff_of_true (fun hne => absurd hpair hne) (.inl hpair)
  · simp only [hpair, not_false_eq_true, true_imp_iff, false_or]
    rw [not_and_or, not_and_or]

/-- The files Bob receives from Eve and from Mallory. -/
theorem paths_differ_iff_eve :
    buildReceivePath (fun _ => true) demoRoot (.str (str "bob")) (.str (str "eve"))
        (.str (str "a.txt")) ≠
      buildReceivePath (fun _ => true) demoRoot (.str (str "bob")) (.str (str "mallory"))
        (.str (str "a.txt")) := by
  refine (paths_differ_iff (fun _ => true) demoRoot (by decide) (by decide) (by decide) (by decide)
    _ _).mpr (.inr (.inr (.inl ?_))) ?_
  · decide
  · decide

/-- Eve and `_eve` write to one file. -/
theorem eve_shares_path : ¬ ∀ (printable : CodePoint → Bool) (root : MediaRoot)
    (u₁ u₂ s₁ s₂ f₁ f₂ : Str), SafeName 32 u₁ → SafeName 32 u₂ → SafeName 32 s₁ →
      SafeName 32 s₂ → (u₁, s₁) ≠ (u₂, s₂) →
      buildReceivePath printable root (.str u₁) (.str s₁) (.str f₁) ≠
        buildReceivePath printable root (.str u₂) (.str s₂) (.str f₂) := by
  intro hall
  refine hall (fun _ => true) demoRoot (str "bob") (str "bob") (str "eve") (str "_eve")
    (str "a.txt") (str "a.txt") (by decide) (by decide) (by decide) (by decide) (by decide) ?_
  rw [buildReceivePath_inj _ _ (by decide) (by decide) (by decide) (by decide)]
  exact ⟨rfl, by decide, rfl⟩

end GuardedIM
