import Mathlib.Algebra.GroupWithZero.Nat
import Mathlib.Data.List.Basic

/-!
# Insertion-ordered dictionaries

A dictionary is the list of its entries in insertion order. Writing an existing
key keeps its position, a new key goes to the end, and deleting a key leaves the
order of the others alone. These are the only three operations; most of what the
proofs need about them is a statement about `get` after one of them.

`sum_write`: writing several fields splits a sum over the entries into the fields and the
entries that are kept.
-/

/-- A dictionary: its entries, oldest first. -/
abbrev Dict (α β : Type*) := List (α × β)

namespace Dict

variable {α β : Type*} [DecidableEq α]

/-- The value stored under `k`, if any. -/
def get (d : Dict α β) (k : α) : Option β := List.lookup k d

/-- Store `v` under `k`, in place when `k` is already there. -/
def set : Dict α β → α → β → Dict α β
  | [], k, v => [(k, v)]
  | (k', v') :: d, k, v => if k' = k then (k, v) :: d else (k', v') :: set d k v

/-- Remove the entry of `k`. -/
def erase (d : Dict α β) (k : α) : Dict α β := d.filter fun e => e.1 ≠ k

/-- The keys, oldest first. -/
def keys (d : Dict α β) : List α := d.map Prod.fst

/-- The values, in the order of their keys. -/
def values (d : Dict α β) : List β := d.map Prod.snd

@[simp] theorem get_nil (k : α) : get ([] : Dict α β) k = none := rfl

theorem get_cons (e : α × β) (d : Dict α β) (k : α) :
    get (e :: d) k = if k = e.1 then some e.2 else get d k := by
  obtain ⟨k', v'⟩ := e
  by_cases h : k = k'
  · simp [get, h]
  · simp [get, List.lookup_cons, h, beq_eq_false_iff_ne.mpr h]

@[simp] theorem get_set_self (d : Dict α β) (k : α) (v : β) : (set d k v).get k = some v := by
  induction d with
  | nil => simp [set, get_cons]
  | cons e d ih =>
    by_cases h : e.1 = k
    · simp [set, h, get_cons]
    · simp [set, h, get_cons, Ne.symm h, ih]

theorem get_set_ne (d : Dict α β) {k k' : α} (v : β) (hne : k' ≠ k) :
    (set d k v).get k' = d.get k' := by
  induction d with
  | nil => simp [set, get_cons, hne]
  | cons e d ih =>
    by_cases h : e.1 = k
    · simp [set, h, get_cons, hne]
    · simp [set, h, get_cons, ih]

theorem get_set (d : Dict α β) (k k' : α) (v : β) :
    (set d k v).get k' = if k' = k then some v else d.get k' := by
  by_cases h : k' = k
  · rw [h, get_set_self, if_pos rfl]
  · rw [get_set_ne d v h, if_neg h]

theorem get_erase (d : Dict α β) (k k' : α) :
    (erase d k).get k' = if k' = k then none else d.get k' := by
  induction d with
  | nil => simp [erase]
  | cons e d ih =>
    unfold erase at ih ⊢
    by_cases h : e.1 = k
    · rw [List.filter_cons_of_neg (by simp [h]), ih, get_cons]
      split_ifs with h₁ h₂
      · rfl
      · exact absurd (h₂.trans h) h₁
      · rfl
    · rw [List.filter_cons_of_pos (by simp [h]), get_cons, ih, get_cons]
      split_ifs with h₁ h₂ h₂
      · exact absurd (h₁.symm.trans h₂) h
      · rfl
      · rfl
      · rfl

/-- An entry that is not filtered out is found as before. -/
theorem get_filter {d : Dict α β} {k : α} {v : β} (h : d.get k = some v) {p : α × β → Bool}
    (hp : p (k, v) = true) : get (d.filter p) k = some v := by
  induction d with
  | nil => cases h
  | cons e d ih =>
    obtain ⟨k', v'⟩ := e
    rw [get_cons] at h
    split_ifs at h with hk
    · obtain ⟨rfl, rfl⟩ : k = k' ∧ v' = v := ⟨hk, Option.some.inj h⟩
      rw [List.filter_cons_of_pos hp, get_cons, if_pos rfl]
    · by_cases hkeep : p (k', v') = true
      · rw [List.filter_cons_of_pos hkeep, get_cons, if_neg hk, ih h]
      · rw [List.filter_cons_of_neg hkeep, ih h]

/-- The entries after a write are old ones and the new one. -/
theorem mem_set {d : Dict α β} {k k' : α} {v v' : β} (h : (k', v') ∈ set d k v) :
    (k', v') = (k, v) ∨ (k', v') ∈ d := by
  induction d with
  | nil => exact .inl (List.mem_singleton.mp h)
  | cons e d ih =>
    obtain ⟨k₀, v₀⟩ := e
    rw [set] at h
    split_ifs at h with hk
    · exact (List.mem_cons.mp h).imp_right (List.mem_cons_of_mem _)
    · rcases List.mem_cons.mp h with heq | h
      · exact .inr (heq ▸ List.mem_cons_self ..)
      · exact (ih h).imp_right (List.mem_cons_of_mem _)

theorem keys_set (d : Dict α β) (k : α) (v : β) :
    (set d k v).keys = if k ∈ d.keys then d.keys else d.keys ++ [k] := by
  induction d with
  | nil => rfl
  | cons e d ih =>
    obtain ⟨k', v'⟩ := e
    by_cases h : k' = k
    · simp [set, keys, h]
    · unfold keys at ih ⊢
      rw [set, if_neg h, List.map_cons, ih, List.map_cons]
      split_ifs with hd hcons hcons
      · rfl
      · exact absurd (List.mem_cons_of_mem _ hd) hcons
      · exact absurd ((List.mem_cons.mp hcons).resolve_left (Ne.symm h)) hd
      · rfl

theorem mem_keys_set {d : Dict α β} {k k' : α} {v : β} :
    k' ∈ (set d k v).keys ↔ k' = k ∨ k' ∈ d.keys := by
  rw [keys_set]
  split_ifs with h
  · exact ⟨.inr, fun hk => hk.elim (fun heq => heq ▸ h) id⟩
  · rw [List.mem_append, List.mem_singleton, or_comm]

/-- A new key goes to the end. -/
theorem set_of_not_mem {d : Dict α β} {k : α} (h : k ∉ d.keys) (v : β) :
    set d k v = d ++ [(k, v)] := by
  induction d with
  | nil => rfl
  | cons e d ih =>
    have hne : e.1 ≠ k := fun he => h (he ▸ List.mem_cons_self ..)
    have hd : k ∉ keys d := fun hd => h (List.mem_cons_of_mem _ hd)
    rw [set, if_neg hne, ih hd, List.cons_append]

/-- Writing distinct new keys one after the other appends them. -/
theorem foldl_set (d e : Dict α β) (h : (d ++ e).keys.Nodup) :
    e.foldl (fun d x => set d x.1 x.2) d = d ++ e := by
  induction e generalizing d with
  | nil => simp
  | cons x e ih =>
    have hx : x.1 ∉ d.keys := by
      rw [keys, List.map_append, List.map_cons] at h
      exact fun hx => (List.nodup_append.mp h).2.2 _ hx _ (List.mem_cons_self ..) rfl
    rw [List.foldl_cons, set_of_not_mem hx, ih _ (by simpa using h), List.append_assoc]
    rfl

/-- Writing keeps the keys distinct. -/
theorem nodup_keys_set {d : Dict α β} (h : d.keys.Nodup) (k : α) (v : β) :
    (set d k v).keys.Nodup := by
  rw [keys_set]
  split_ifs with hk
  · exact h
  · simpa [List.nodup_append] using ⟨h, fun a ha => ne_of_mem_of_not_mem ha hk⟩

omit [DecidableEq α] in
/-- So does removing entries. -/
theorem nodup_keys_filter {d : Dict α β} (h : d.keys.Nodup) (p : α × β → Bool) :
    (keys (d.filter p)).Nodup :=
  h.sublist (List.filter_sublist.map _)

/-- What a lookup finds is an entry. -/
theorem mem_of_get {d : Dict α β} {k : α} {v : β} (h : d.get k = some v) : (k, v) ∈ d := by
  induction d with
  | nil => simp at h
  | cons e d ih =>
    rw [get_cons] at h
    split_ifs at h with hk
    · obtain rfl := Option.some.inj h
      rw [hk]
      exact List.mem_cons_self ..
    · exact List.mem_cons_of_mem _ (ih h)

theorem get_of_not_mem {d : Dict α β} {k : α} (h : k ∉ d.keys) : d.get k = none := by
  cases hget : d.get k with
  | none => rfl
  | some v => exact absurd (List.mem_map_of_mem (mem_of_get hget)) h

/-- With distinct keys, an entry is what the lookup of its key finds. -/
theorem get_of_mem {d : Dict α β} (hd : d.keys.Nodup) {k : α} {v : β} (h : (k, v) ∈ d) :
    d.get k = some v := by
  induction d with
  | nil => cases h
  | cons e d ih =>
    obtain ⟨hhead, htail⟩ := List.nodup_cons.mp hd
    rw [get_cons]
    rcases List.mem_cons.mp h with rfl | h
    · rw [if_pos rfl]
    · have hne : k ≠ e.1 := fun hk => hhead (hk ▸ List.mem_map_of_mem h)
      rw [if_neg hne, ih htail h]

theorem mem_values_of_get {d : Dict α β} {k : α} {v : β} (h : d.get k = some v) : v ∈ d.values :=
  List.mem_map.mpr ⟨(k, v), mem_of_get h, rfl⟩

/-! ## Writing several fields -/

/-- The entries under other keys than these. -/
def without (d : Dict α β) (ks : List α) : Dict α β := d.filter fun e => e.1 ∉ ks

/-- `for k, v in fields: d[k] = v` -/
def write (d fields : Dict α β) : Dict α β := fields.foldl (fun d e => set d e.1 e.2) d

/-- The other keys are left alone. -/
theorem get_write (d fields : Dict α β) {k : α} (h : k ∉ fields.keys) :
    (write d fields).get k = d.get k := by
  induction fields generalizing d with
  | nil => rfl
  | cons e fields ih =>
    obtain ⟨hne, hrest⟩ : k ≠ e.1 ∧ k ∉ keys fields := List.ne_and_not_mem_of_not_mem_cons h
    have hstep : write d (e :: fields) = write (set d e.1 e.2) fields := rfl
    rw [hstep, ih _ hrest, get_set_ne d e.2 hne]

theorem without_cons_of_mem {e : α × β} {ks : List α} (h : e.1 ∈ ks) (d : Dict α β) :
    without (e :: d) ks = without d ks := List.filter_cons_of_neg (by simpa using h)

theorem without_cons_of_not_mem {e : α × β} {ks : List α} (h : e.1 ∉ ks) (d : Dict α β) :
    without (e :: d) ks = e :: without d ks := List.filter_cons_of_pos (by simpa using h)

/-- Leaving out a key that is not there. -/
theorem without_cons_key {d : Dict α β} {k : α} (h : k ∉ d.keys) (ks : List α) :
    without d (k :: ks) = without d ks := by
  refine List.filter_congr fun e he => ?_
  have hne : e.1 ≠ k := fun hk => h (hk ▸ List.mem_map_of_mem he)
  simp [hne]

/-- The sum over the entries, after a write under a key that counts. -/
theorem sum_without_set (f : α × β → ℕ) {d : Dict α β} (hd : d.keys.Nodup) {k : α} {ks : List α}
    (hk : k ∉ ks) (v : β) :
    ((without (set d k v) ks).map f).sum = ((without d (k :: ks)).map f).sum + f (k, v) := by
  induction d with
  | nil => simp [set, without, hk]
  | cons e d ih =>
    obtain ⟨hhead, htail⟩ := List.nodup_cons.mp hd
    rw [set]
    split_ifs with he
    · subst he
      have hnew : (e.1, v).1 ∉ ks := hk
      rw [without_cons_of_not_mem hnew, without_cons_of_mem (List.mem_cons_self ..),
        without_cons_key hhead, List.map_cons, List.sum_cons, Nat.add_comm]
    · by_cases hmem : e.1 ∈ ks
      · rw [without_cons_of_mem hmem, without_cons_of_mem (List.mem_cons_of_mem _ hmem), ih htail]
      · have hnot : e.1 ∉ k :: ks := fun h => (List.mem_cons.mp h).elim he hmem
        rw [without_cons_of_not_mem hmem, without_cons_of_not_mem hnot, List.map_cons,
          List.map_cons, List.sum_cons, List.sum_cons, ih htail, Nat.add_assoc]

/-- **The sum after several writes**: the entries that are kept, and the fields. -/
theorem sum_write (f : α × β → ℕ) {d fields : Dict α β} (hd : d.keys.Nodup)
    (hf : fields.keys.Nodup) :
    ((write d fields).map f).sum = ((without d fields.keys).map f).sum + (fields.map f).sum := by
  induction fields generalizing d with
  | nil => simp [write, without, keys]
  | cons e fields ih =>
    obtain ⟨hhead, htail⟩ : e.1 ∉ keys fields ∧ (keys fields).Nodup := List.nodup_cons.mp hf
    have hstep : write d (e :: fields) = write (set d e.1 e.2) fields := rfl
    have hkeys : keys (e :: fields) = e.1 :: keys fields := rfl
    rw [hstep, ih (nodup_keys_set hd e.1 e.2) htail, sum_without_set f hd hhead, hkeys,
      List.map_cons, List.sum_cons, Nat.add_assoc]

end Dict
