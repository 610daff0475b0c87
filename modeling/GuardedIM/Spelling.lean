import GuardedIM.Requests

/-!
# Two spellings of one address

`latest_ip` is a text. The `UNIQUE` constraint, the availability check and the update compare
texts; `net.ParseIP`, which decides whether a text is let in, maps many of them to one address.

* `Respells`: what a statement must not do if the addresses are to differ, in terms of its
  arguments and the table before it.
* `addresses_distinct`: in runs without such statements no two users have one address, and a
  statement that changes the table leaves the addresses distinct only if it is none of them.
* `distinct_of_dotted`: runs in which every address is written as an IPv4 address have none.
-/

namespace GuardedIM.Control

open Interleave Interleave.Program

/-- The table of users. -/
abbrev Users := Table UserRow UserRow.Clash

/-- No two users have the same address, however it is written. -/
def Distinct (users : Users) : Prop :=
  ∀ r ∈ users.rows, ∀ r' ∈ users.rows, parseIP r.latestIp = parseIP r'.latestIp → r = r'

/-- Another user than `u` has the address, in another spelling. -/
def Respells (users : Users) (u : ℕ) (address : Bytes) : Prop :=
  ∃ r ∈ users.rows, r.userID ≠ u ∧ r.latestIp ≠ address ∧ parseIP r.latestIp = parseIP address

/-- What thread `t` writes when it goes on with an input: the user and the address. -/
def writing : Task → Input → Option (ℕ × Bytes)
  | .idle, .addUser a id _ => some (id, a.latestIp)
  | .free r, .answer _ => some (r.userID, r.ipAddress)
  | _, _ => none

/-- The step does not write an address that another user has in another spelling. -/
def OneSpelling (x : Config ℕ Memory Task Event) (a : ℕ × Input) : Prop :=
  ∀ u address, writing (x.thread a.1) a.2 = some (u, address) →
    ¬ Respells x.memory.db.users u address

variable {E : Ed25519} {W : WgTypes} {x y : Config ℕ Memory Task Event} {a : ℕ × Input}
  {users users' : Users}

/-! ## The two statements -/

/-- A row is inserted: its own address has to be new. -/
theorem distinct_insert_iff {row : UserRow} (h : users.insert row = some users')
    (hd : Distinct users) :
    Distinct users' ↔ ¬ Respells users row.userID row.latestIp := by
  have hfree : ∀ {r}, r ∈ users.rows → r.userID ≠ row.userID ∧ r.latestIp ≠ row.latestIp := by
    intro r hr
    have hclash := Table.insert_free h hr
    exact ⟨fun heq => hclash (.inl heq), fun heq => hclash (.inr (.inr (.inr heq)))⟩
  refine ⟨fun hd' => ?_, fun hnot r hr r' hr' heq => ?_⟩
  · rintro ⟨r, hr, hne, -, heq⟩
    have hsame := hd' r ((Table.mem_insert h).mpr (.inl hr)) row
      ((Table.mem_insert h).mpr (.inr rfl)) heq
    exact hne (congrArg UserRow.userID hsame)
  · rcases (Table.mem_insert h).mp hr with hr | rfl
    · rcases (Table.mem_insert h).mp hr' with hr' | rfl
      · exact hd r hr r' hr' heq
      · exact absurd ⟨r, hr, (hfree hr).1, (hfree hr).2, heq⟩ hnot
    · rcases (Table.mem_insert h).mp hr' with hr' | rfl
      · exact absurd ⟨r', hr', (hfree hr').1, (hfree hr').2, heq.symm⟩ hnot
      · rfl

/-- A user is one row. -/
theorem eq_of_userID {r r' : UserRow} (hr : r ∈ users.rows) (hr' : r' ∈ users.rows)
    (h : r.userID = r'.userID) : r = r' :=
  users.eq_of_clash (fun _ _ => UserRow.Clash.symm) hr hr' (.inl h)

/-- `UPDATE user_info_table SET latest_ip = address WHERE user_id = u` -/
abbrev setIp (users : Users) (u : ℕ) (address : Bytes) : Option (Users × ℕ) :=
  users.update (fun row => row.userID = u) fun row => { row with latestIp := address }

/-- The rows afterwards: the row of the user with the new address, and the others. -/
theorem mem_setIp {u n : ℕ} {address : Bytes} (h : setIp users u address = some (users', n))
    {r : UserRow} : r ∈ users'.rows ↔ (r ∈ users.rows ∧ r.userID ≠ u) ∨
      ∃ r₀ ∈ users.rows, r₀.userID = u ∧ r = { r₀ with latestIp := address } := by
  rw [Table.mem_update h]
  constructor
  · rintro ⟨r₀, hr₀, rfl⟩
    by_cases hu : r₀.userID = u
    · rw [if_pos (decide_eq_true hu)]
      exact .inr ⟨r₀, hr₀, hu, rfl⟩
    · rw [if_neg (by simpa using hu)]
      exact .inl ⟨hr₀, hu⟩
  · rintro (⟨hr, hu⟩ | ⟨r₀, hr₀, hu, rfl⟩)
    · exact ⟨r, hr, if_neg (by simpa using hu)⟩
    · exact ⟨r₀, hr₀, if_pos (decide_eq_true hu)⟩

/-- The address of a user is replaced: nobody else may have the new one. -/
theorem distinct_setIp_iff {u n : ℕ} {address : Bytes}
    (h : setIp users u address = some (users', n)) (hd : Distinct users) :
    Distinct users' ↔ users'.rows = users.rows ∨ ¬ Respells users u address := by
  constructor
  · intro hd'
    by_cases hrow : ∃ r₀ ∈ users.rows, r₀.userID = u
    · obtain ⟨r₀, hr₀, hu⟩ := hrow
      right
      rintro ⟨r, hr, hne, -, heq⟩
      have hsame := hd' r ((mem_setIp h).mpr (.inl ⟨hr, hne⟩)) _
        ((mem_setIp h).mpr (.inr ⟨r₀, hr₀, hu, rfl⟩)) heq
      exact hne ((congrArg UserRow.userID hsame).trans hu)
    · -- the statement affects no row
      left
      rw [Table.update_rows h, List.map_congr_left (g := id), List.map_id]
      intro r hr
      exact if_neg fun hu => hrow ⟨r, hr, of_decide_eq_true hu⟩
  · rintro (hsame | hnot) r hr r' hr' heq
    · rw [hsame] at hr hr'
      exact hd r hr r' hr' heq
    · -- somebody else with the new address would have it in the same spelling
      have hother : ∀ {r r₀ : UserRow}, r ∈ users'.rows → r ∈ users.rows → r.userID ≠ u →
          { r₀ with latestIp := address } ∈ users'.rows → r₀.userID = u →
          parseIP r.latestIp ≠ parseIP address := by
        intro r r₀ hr' hr hne hr₀ hu heq
        by_cases hspelling : r.latestIp = address
        · have hsame := users'.eq_of_clash (fun _ _ => UserRow.Clash.symm) hr' hr₀
            (.inr (.inr (.inr hspelling)))
          exact hne ((congrArg UserRow.userID hsame).trans hu)
        · exact hnot ⟨r, hr, hne, hspelling, heq⟩
      rcases (mem_setIp h).mp hr with ⟨hold, hne⟩ | ⟨r₀, hr₀, hu, rfl⟩
      · rcases (mem_setIp h).mp hr' with ⟨hold', -⟩ | ⟨r₀', -, hu', rfl⟩
        · exact hd r hold r' hold' heq
        · exact absurd heq (hother hr hold hne hr' hu')
      · rcases (mem_setIp h).mp hr' with ⟨hold', hne'⟩ | ⟨r₀', hr₀', hu', rfl⟩
        · exact absurd heq.symm (hother hr' hold' hne' hr hu)
        · rw [eq_of_userID hr₀ hr₀' (hu.trans hu'.symm)]

/-! ## The runs -/

/-- **What a step does to distinct addresses**: it keeps them, unless it changes the table and
writes an address that another user has in another spelling. -/
theorem distinct_next_iff (hd : Distinct x.memory.db.users) (hy : (control E W).next x a = some y) :
    Distinct y.memory.db.users ↔
      y.memory.db.users.rows = x.memory.db.users.rows ∨ OneSpelling x a := by
  obtain ⟨m, hm, rfl⟩ := next_eq_some hy
  have hmoves := control_moves hm
  rw [after_memory, OneSpelling]
  generalize x.thread a.1 = l at hmoves
  generalize a.2 = i at hmoves
  cases hmoves with
  | update r o ρ users n hupdate =>
    rw [distinct_setIp_iff hupdate hd]
    simp [writing]
  | addUser b id o b' row users hcmd hrow hinsert =>
    obtain ⟨-, hid, hip⟩ := userRow_valid hcmd hrow
    have hchanged : users.rows ≠ x.memory.db.users.rows := by
      rw [Table.insert_rows hinsert]
      simp
    rw [distinct_insert_iff hinsert hd, hid, hip]
    simp [writing, hchanged]
  | _ => exact ⟨fun _ => .inl rfl, fun _ => hd⟩

/-- **The addresses of users differ by value in runs without respellings**: in every state of a
run none of whose statements writes an address that another user has in another spelling. From
distinct addresses, a statement that changes the table leads to distinct ones only if it is of
this kind. -/
theorem addresses_distinct (h : (control E W).Reach OneSpelling x) :
    Distinct x.memory.db.users ∧ ∀ a y, (control E W).next x a = some y →
      (Distinct y.memory.db.users ↔
        y.memory.db.users.rows = x.memory.db.users.rows ∨ OneSpelling x a) := by
  have hd : Distinct x.memory.db.users := by
    apply h.invariant (I := fun x => Distinct x.memory.db.users)
    · exact fun r hr => nomatch hr
    · intro z t i m _ hz hC hm
      have hy : (control E W).next z (t, i) = some (after z t m) := by
        rw [Program.next, hm]
        rfl
      exact (distinct_next_iff hz hy).mpr (.inr hC)
  exact ⟨hd, fun a y hy => distinct_next_iff hd hy⟩

instance (users : Users) (u : ℕ) (address : Bytes) : Decidable (Respells users u address) :=
  inferInstanceAs (Decidable (∃ r ∈ users.rows, _))

/-- `OneSpelling`, computed. -/
def isOneSpelling (x : Config ℕ Memory Task Event) (a : ℕ × Input) : Bool :=
  (writing (x.thread a.1) a.2).all fun w => !decide (Respells x.memory.db.users w.1 w.2)

theorem oneSpelling_of_isOneSpelling (x : Config ℕ Memory Task Event) (a : ℕ × Input)
    (h : isOneSpelling x a = true) : OneSpelling x a := by
  intro u address hw
  rw [isOneSpelling, hw] at h
  simpa using h

/-- Alice with an IPv4 address, and Bob. -/
def aliceAndBob (address : String) : List (ℕ × Input) :=
  [(0, .addUser ⟨ascii "alice", [], demoPubKey, ascii "10.0.0.5"⟩ 1 .done),
    (0, .addUser ⟨ascii "bob", [], ascii "AQEBAQEBAQEBAQEBAQEBAQEBAQEBAQEBAQEBAQEBAQE=",
      ascii address⟩ 2 .done)]

/-- Two users, who have different addresses. -/
theorem addresses_distinct_two : ∃ x : Config ℕ Memory Task Event,
    (control demoEd25519 demoWgTypes).Reach OneSpelling x ∧
      x.memory.db.users.rows.map UserRow.latestIp = [ascii "10.0.0.5", ascii "fd00::5"] ∧
      Distinct x.memory.db.users := by
  obtain ⟨x, hx, hp⟩ := exists_run_of_execIf (P := control demoEd25519 demoWgTypes)
    oneSpelling_of_isOneSpelling (aliceAndBob "fd00::5")
    (p := fun x => decide (x.memory.db.users.rows.map UserRow.latestIp =
      [ascii "10.0.0.5", ascii "fd00::5"])) (by decide +kernel)
  exact ⟨x, ⟨_, hx⟩, of_decide_eq_true hp, (addresses_distinct ⟨_, hx⟩).1⟩

/-- Bob is added with Alice's IPv4 address, written as an IPv6 address. -/
theorem mapped_address : ¬ ∀ (E : Ed25519) (W : WgTypes) (x : Config ℕ Memory Task Event),
    (control E W).Reach Any x → Distinct x.memory.db.users := by
  intro hall
  obtain ⟨x, hx, hp⟩ := exists_reach_of_exec (P := control demoEd25519 demoWgTypes)
    (aliceAndBob "::ffff:10.0.0.5")
    (p := fun x => x.memory.db.users.rows.any fun r => x.memory.db.users.rows.any fun r' =>
      decide (parseIP r.latestIp = parseIP r'.latestIp ∧ r ≠ r')) (by decide +kernel)
  obtain ⟨r, hr, hp⟩ := List.any_eq_true.mp hp
  obtain ⟨r', hr', hp⟩ := List.any_eq_true.mp hp
  obtain ⟨heq, hne⟩ := of_decide_eq_true hp
  exact hne (hall _ _ x hx r hr r' hr' heq)

/-! ## IPv4 texts -/

/-- Every address that is written is an IPv4 text. -/
def Dotted (x : Config ℕ Memory Task Event) (a : ℕ × Input) : Prop :=
  ∀ u address, writing (x.thread a.1) a.2 = some (u, address) → (parseIPv4 address).isSome

/-- An IPv4 text has no other spelling among IPv4 texts. -/
theorem parseIPv4_inj {s s' : Bytes} (hs : (parseIPv4 s).isSome) (hs' : (parseIPv4 s').isSome)
    (h : parseIP s = parseIP s') : s = s' := by
  obtain ⟨ip, hip⟩ := Option.isSome_iff_exists.mp hs
  obtain ⟨ip', hip'⟩ := Option.isSome_iff_exists.mp hs'
  rw [parseIP_of_parseIPv4 hip, parseIP_of_parseIPv4 hip'] at h
  rw [(parseIPv4_eq hip).1, (parseIPv4_eq hip').1, List.append_cancel_left (Option.some.inj h)]

/-- **IPv4 texts alone keep the addresses distinct.** -/
theorem distinct_of_dotted (h : (control E W).Reach Dotted x) : Distinct x.memory.db.users := by
  suffices hrows : ∀ r ∈ x.memory.db.users.rows, (parseIPv4 r.latestIp).isSome by
    intro r hr r' hr' heq
    have hsame := parseIPv4_inj (hrows r hr) (hrows r' hr') heq
    exact x.memory.db.users.eq_of_clash (fun _ _ => UserRow.Clash.symm) hr hr'
      (.inr (.inr (.inr hsame)))
  apply h.invariant (I := fun x => ∀ r ∈ x.memory.db.users.rows, (parseIPv4 r.latestIp).isSome)
  · exact fun r hr => nomatch hr
  · intro z t i m _ hz hC hm r hr
    have hmoves := control_moves hm
    rw [after_memory] at hr
    rw [Dotted] at hC
    generalize z.thread t = l at hmoves hC
    cases hmoves with
    | update r₁ o ρ users n hupdate =>
      rcases (mem_setIp hupdate).mp hr with ⟨hr, -⟩ | ⟨r₀, -, -, rfl⟩
      · exact hz r hr
      · exact hC _ _ rfl
    | addUser a id o a' row users hcmd hrow hinsert =>
      rcases (Table.mem_insert hinsert).mp hr with hr | rfl
      · exact hz r hr
      · rw [(userRow_valid hcmd hrow).2.2]
        exact hC _ _ rfl
    | _ => exact hz r hr

end GuardedIM.Control
