import GuardedIM.Spelling

/-!
# What the answers to Phase 2 say

The availability check and the update of Phase 2 are two statements, and other requests and
`AddUser` come between them. Here a statement that fails changes nothing.

* `Truthful`: what a reply has to say about the rows before and after the last step of its
  request.
* `outcomes_truthful`: from its arrival to the reply a request changes no row, and the reply is
  truthful, in every run.
-/

namespace GuardedIM.Control

open Interleave Interleave.Program

/-- A statement that returns an error was not executed. -/
def Kept (_ : Config ℕ Memory Task Event) (a : ℕ × Input) : Prop :=
  a.2 ≠ .answer .lost ∧ ∀ args id, a.2 ≠ .addUser args id .lost

/-- The steps of thread `t` leave the table of users as it is. -/
def Spares (E : Ed25519) (W : WgTypes) (t : ℕ) (x : Config ℕ Memory Task Event) (a : ℕ × Input) :
    Prop :=
  a.1 = t → ∀ y, (control E W).next x a = some y → y.memory.db.users = x.memory.db.users

/-- Thread `t` goes on with the request it has. -/
def Serves (t : ℕ) (x : Config ℕ Memory Task Event) (a : ℕ × Input) : Prop :=
  Kept x a ∧ (a.1 = t → (x.thread t).request.isSome)

/-- What the reply to the request `r` says of the rows before and after. -/
def Truthful (before after : List UserRow) (r : Request) : Reply → Prop
  | .result free true =>
    -- the row of the user has the new address, and that is all
    free = true ∧ (∃ row ∈ before, row.userID = r.userID) ∧ after = before.map fun row =>
      if row.userID = r.userID then { row with latestIp := r.ipAddress } else row
  | .result free false =>
    after = before ∧ (free = false →
      ∃ row ∈ before, row.latestIp = r.ipAddress ∧ row.userID ≠ r.userID)
  | _ => after = before

/-- The replies of thread `t`, newest first. -/
def replies (t : ℕ) : List Event → List Reply :=
  List.filterMap fun
    | .replied t' ρ => if t' = t then some ρ else none
    | _ => none

/-- What becomes of the request `r` of thread `t`, which has just arrived. Other threads may do
anything meanwhile. -/
structure Outcomes (E : Ed25519) (W : WgTypes) (t : ℕ) (r : Request)
    (x : Config ℕ Memory Task Event) :
    Prop where
  /-- as long as it is served, its steps change no row, and it is not answered -/
  served : ∀ as z, (control E W).Run (Serves t) x as z → (z.thread t).request.isSome →
    (control E W).Run (Spares E W t) x as z ∧ replies t z.log = replies t x.log
  /-- the next step changes no row either and goes on, or it answers, and the reply is truthful -/
  answered : ∀ as z i y, (control E W).Run (Serves t) x as z → Serves t z (t, i) →
    (control E W).next z (t, i) = some y →
    (y.memory.db.users = z.memory.db.users ∧ (y.thread t).request = some r ∧
      replies t y.log = replies t z.log) ∨
    ∃ ρ, replies t y.log = ρ :: replies t z.log ∧ (y.thread t).request = none ∧
      Truthful z.memory.db.users.rows y.memory.db.users.rows r ρ

variable {E : Ed25519} {W : WgTypes} {t : ℕ} {g : Memory} {l : Task} {i : Input} {m : Left}
  {x y z : Config ℕ Memory Task Event} {as : List (ℕ × Input)} {ρ : Reply} {r : Request}

/-! ## The last step of a request -/

/-- The update of a user who is there affects one row, any other none. -/
theorem setIp_count {users users' : Users} {u n : ℕ} {address : Bytes}
    (h : setIp users u address = some (users', n)) :
    (n = 1 ∧ ∃ row ∈ users.rows, row.userID = u) ∨ (n ≠ 1 ∧ users'.rows = users.rows) := by
  have hone : users.rows.countP (fun row => row.userID = u) ≤ 1 :=
    users.countP_le_one fun r r' hr hr' =>
      .inl ((of_decide_eq_true hr).trans (of_decide_eq_true hr').symm)
  have hn := Table.update_count h
  rcases Nat.lt_or_ge n 1 with hzero | hpos
  · have hnone : users.rows.countP (fun row => row.userID = u) = 0 := by omega
    refine .inr ⟨hzero.ne, ?_⟩
    rw [Table.update_rows h, List.map_congr_left (g := id), List.map_id]
    intro row hrow
    exact if_neg (List.countP_eq_zero.mp hnone row hrow)
  · have hsome : 0 < users.rows.countP (fun row => row.userID = u) := by omega
    obtain ⟨row, hrow, hu⟩ := List.countP_pos_iff.mp hsome
    exact .inl ⟨by omega, row, hrow, of_decide_eq_true hu⟩

/-- The request goes on: nothing is said and no row is changed. -/
def GoesOn (t : ℕ) (g : Memory) (r : Request) (m : Left) : Prop :=
  m.1.db = g.db ∧ m.2.1.request = some r ∧ replies t m.2.2 = []

/-- The request is over, with a reply that is truthful. -/
def Ends (t : ℕ) (g : Memory) (r : Request) (m : Left) : Prop :=
  m.2.1 = .idle ∧ ∃ ρ, replies t m.2.2 = [ρ] ∧
    Truthful g.db.users.rows m.1.db.users.rows r ρ

/-- A reply of the thread. -/
theorem replies_self (ρ : Reply) (log : List Event) :
    replies t (.replied t ρ :: log) = ρ :: replies t log := by
  simp [replies]

theorem replies_append (es log : List Event) :
    replies t (es ++ log) = replies t es ++ replies t log := List.filterMap_append ..

/-- Events of other threads are no replies of this one. -/
theorem replies_other {es : List Event} (hes : ∀ e ∈ es, e.thread ≠ some t) :
    replies t es = [] := by
  rw [replies, List.filterMap_eq_nil_iff]
  intro e he
  cases e with
  | replied t' ρ => exact if_neg fun heq => hes _ he (congrArg some heq)
  | _ => rfl

/-- A refusal is truthful. -/
theorem ends_error (t : ℕ) (g : Memory) (r : Request) (status : ℕ) (text : String) :
    Ends t g r (reply t g (.error status text)) :=
  ⟨rfl, _, replies_self _ [], rfl⟩

theorem challenge_ends {nonce : Option Bytes} (h : challenge t g r nonce = some m) :
    Ends t g r m := by
  cases nonce with
  | none =>
    obtain rfl := Option.some.inj h
    exact ends_error ..
  | some nonce =>
    rw [challenge] at h
    split_ifs at h
    obtain rfl := Option.some.inj h
    exact ⟨rfl, _, replies_self _ [_], rfl⟩

theorem lookup_serves (t : ℕ) (g : Memory) (r : Request) :
    GoesOn t g r (lookup t g r) ∨ Ends t g r (lookup t g r) := by
  rw [lookup]
  split
  · exact .inr (ends_error ..)
  · split_ifs
    · exact .inr (ends_error ..)
    · exact .inl ⟨rfl, rfl, rfl⟩

theorem checkSig_serves (t : ℕ) (g : Memory) (r : Request) (nonce : Bytes) (o : Outcome) :
    GoesOn t g r (checkSig E t g r nonce o) ∨ Ends t g r (checkSig E t g r nonce o) := by
  rw [checkSig]
  split
  · exact .inr (ends_error ..)
  · split
    · split_ifs
      · exact .inl ⟨rfl, rfl, rfl⟩
      · exact .inr (ends_error ..)
    · exact .inr (ends_error ..)

/-- The lookup of the address: when it is taken, somebody else has it. -/
theorem available_serves (t : ℕ) (g : Memory) (r : Request) (o : Outcome) :
    GoesOn t g r (available t g r o) ∨ Ends t g r (available t g r o) := by
  cases o with
  | done =>
    rw [available]
    split
    · exact .inl ⟨rfl, rfl, rfl⟩
    · rename_i row hfind
      obtain ⟨hrow, hip⟩ := Table.of_find? hfind
      split_ifs with hself
      · exact .inl ⟨rfl, rfl, rfl⟩
      · refine .inr ⟨rfl, _, replies_self _ [], rfl, fun _ => ?_⟩
        exact ⟨row, hrow, of_decide_eq_true hip, hself⟩
  | failed => exact .inr (ends_error ..)
  | lost => exact .inr (ends_error ..)

/-- The update: it is executed and reported, or it fails. -/
theorem write_ends (t : ℕ) (g : Memory) (r : Request) {o : Outcome} (ho : o ≠ .lost) :
    Ends t g r (write t g r o) := by
  unfold write
  split
  · rename_i users n hupdate
    refine ⟨rfl, _, replies_self _ [_], ?_⟩
    rcases setIp_count hupdate with ⟨rfl, row, hrow, hu⟩ | ⟨hn, hsame⟩
    · refine ⟨rfl, ⟨row, hrow, hu⟩, ?_⟩
      rw [Table.update_rows hupdate]
      simp
    · rw [decide_eq_false hn]
      exact ⟨hsame, nofun⟩
  · exact absurd rfl ho
  · exact ends_error ..

/-- **What a step does with a request that is served.** -/
theorem serves_step (h : (control E W).step t g l i = some m) (hl : l.request = some r)
    (hi : i ≠ .answer .lost) : GoesOn t g r m ∨ Ends t g r m := by
  replace h : step E W t g l i = some m := h
  cases l with
  | idle | purging => cases hl
  | challenge r' =>
    obtain rfl := Option.some.inj hl
    cases i with
    | random nonce => exact .inr (challenge_ends h)
    | _ => cases h
  | verify r' =>
    obtain rfl := Option.some.inj hl
    cases i with
    | locked =>
      obtain rfl := Option.some.inj h
      exact lookup_serves ..
    | _ => cases h
  | taken r' nonce =>
    obtain rfl := Option.some.inj hl
    cases i with
    | answer o =>
      obtain rfl := Option.some.inj h
      exact checkSig_serves ..
    | _ => cases h
  | verified r' =>
    obtain rfl := Option.some.inj hl
    cases i with
    | answer o =>
      obtain rfl := Option.some.inj h
      exact available_serves ..
    | _ => cases h
  | free r' =>
    obtain rfl := Option.some.inj hl
    cases i with
    | answer o =>
      obtain rfl := Option.some.inj h
      exact .inr (write_ends t g r' fun ho => hi (congrArg Input.answer ho))
    | _ => cases h

/-- The arrival of a request: it is refused, or it enters a phase; no row is changed. -/
theorem receive_serves (t : ℕ) (g : Memory) (method : String) (body : Option Request) :
    (∃ status text, receive t g method body = reply t g (.error status text)) ∨
      ∃ r, body = some r ∧ GoesOn t g r (receive t g method body) := by
  unfold receive
  split_ifs
  · exact .inl ⟨_, _, rfl⟩
  · split
    · exact .inl ⟨_, _, rfl⟩
    · rename_i r
      split_ifs
      · exact .inl ⟨_, _, rfl⟩
      · exact .inr ⟨r, rfl, rfl, rfl, rfl⟩
      · exact .inr ⟨r, rfl, rfl, rfl, rfl⟩

/-! ## The runs -/

/-- From the arrival of a request on, as long as it is not answered, its steps change no row. -/
theorem spares_run (hr : (x.thread t).request = some r)
    (hrun : (control E W).Run (Serves t) x as z) : (z.thread t).request = none ∨
      ((z.thread t).request = some r ∧ (control E W).Run (Spares E W t) x as z ∧
        replies t z.log = replies t x.log) := by
  induction hrun with
  | nil => exact .inr ⟨hr, .nil, rfl⟩
  | @snoc as y z a _ hC hn ih =>
    obtain ⟨hkept, hserves⟩ := hC
    obtain ⟨m, hm, rfl⟩ := next_eq_some hn
    by_cases ht : a.1 = t
    · subst ht
      rcases ih with hnone | ⟨hsome, hspares, hreplies⟩
      · rw [hnone] at hserves
        exact absurd (hserves rfl) nofun
      · rw [after_thread_self, after_log, replies_append]
        rcases serves_step hm hsome hkept.1 with ⟨hdb, hreq, hquiet⟩ | ⟨hidle, -⟩
        · refine .inr ⟨hreq, hspares.snoc (fun _ w hw => ?_) hn, ?_⟩
          · obtain rfl := Option.some.inj (hn.symm.trans hw)
            rw [after_memory, hdb]
          · rw [hquiet, List.nil_append, hreplies]
        · exact .inl (congrArg Task.request hidle)
    · have hquiet : replies t m.2.2 = [] := by
        refine replies_other fun e he hthread => ht ?_
        exact ((control_moves hm).thread e he t hthread).symm
      rw [after_thread_ne _ _ (Ne.symm ht), after_log, replies_append, hquiet, List.nil_append]
      exact ih.imp_right fun ⟨hsome, hspares, hreplies⟩ =>
        ⟨hsome, hspares.snoc (fun hat => absurd hat ht) hn, hreplies⟩

theorem outcomes_of_request (hr : (x.thread t).request = some r) : Outcomes E W t r x where
  served as z hrun hz := by
    rcases spares_run hr hrun with hnone | ⟨-, hspares⟩
    · rw [hnone] at hz
      exact absurd hz nofun
    · exact hspares
  answered as z i y hrun hserves hy := by
    obtain ⟨m, hm, rfl⟩ := next_eq_some hy
    rcases spares_run hr hrun with hnone | ⟨hsome, -⟩
    · have hz := hserves.2 rfl
      rw [hnone] at hz
      exact absurd hz nofun
    · rw [after_thread_self, after_log, after_memory, replies_append]
      rcases serves_step hm hsome hserves.1.1 with ⟨hdb, hreq, hquiet⟩ | ⟨hidle, ρ, hρ, htrue⟩
      · exact .inl ⟨congrArg Database.users hdb, hreq, by rw [hquiet]; rfl⟩
      · exact .inr ⟨ρ, by rw [hρ]; rfl, congrArg Task.request hidle, htrue⟩

/-- **The answers of Replace-IP are truthful**, from any state on. A request that arrives at thread
`t` is refused, or served; meanwhile anything may happen in other threads, but its own steps change
no row, until one of them replies: after `written = true` the row of its user has the address it
asked for and everything else is as it was just before, after `free = false` another user has that
address, and after any reply but `written = true` the rows are as they were. Texts of addresses are
unique throughout. -/
theorem outcomes_truthful {method : String} {body : Option Request}
    (hy : (control E W).next x (t, .request method body) = some y) :
    (y.memory.db.users = x.memory.db.users ∧
      ((∃ status text, replies t y.log = .error status text :: replies t x.log) ∨
        ∃ r, body = some r ∧ replies t y.log = replies t x.log ∧ Outcomes E W t r y)) ∧
    ∀ row ∈ x.memory.db.users.rows, ∀ row' ∈ x.memory.db.users.rows,
      row.latestIp = row'.latestIp → row = row' := by
  refine ⟨?_, fun row hrow row' hrow' hip => x.memory.db.users.eq_of_clash
    (fun _ _ => UserRow.Clash.symm) hrow hrow' (.inr (.inr (.inr hip)))⟩
  obtain ⟨m, hm, rfl⟩ := next_eq_some hy
  have hidle : x.thread t = .idle ∧ m = receive t x.memory method body := by
    replace hm : step E W t x.memory (x.thread t) (.request method body) = some m := hm
    generalize x.thread t = l at hm
    cases l with
    | idle => exact ⟨rfl, (Option.some.inj hm).symm⟩
    | _ => cases hm
  obtain ⟨-, rfl⟩ := hidle
  rw [after_log, after_memory, replies_append]
  rcases receive_serves t x.memory method body with ⟨status, text, heq⟩ | ⟨r, hr, hdb, hreq, hquiet⟩
  · rw [heq]
    exact ⟨rfl, .inl ⟨status, text, by rw [reply, replies_self]; rfl⟩⟩
  · refine ⟨congrArg Database.users hdb, .inr ⟨r, hr, by rw [hquiet]; rfl, ?_⟩⟩
    apply outcomes_of_request
    rw [after_thread_self]
    exact hreq

/-- Alice's signed request is served. -/
theorem outcomes_truthful_alice : ∃ x y : Config ℕ Memory Task Event,
    (control demoEd25519 demoWgTypes).Reach Any x ∧
      (control demoEd25519 demoWgTypes).next x
        (0, .request "POST" (some ⟨1, ascii "10.0.0.7", demoSig⟩)) = some y ∧
      Outcomes demoEd25519 demoWgTypes 0 ⟨1, ascii "10.0.0.7", demoSig⟩ y := by
  obtain ⟨x, hx, hp⟩ := exists_reach_of_exec (P := control demoEd25519 demoWgTypes)
    (twoAddresses.take 3)
    (p := fun x => ((control demoEd25519 demoWgTypes).next x
      (0, .request "POST" (some ⟨1, ascii "10.0.0.7", demoSig⟩))).any fun y =>
        decide (replies 0 y.log = replies 0 x.log)) (by decide +kernel)
  obtain ⟨y, hy, hreplies⟩ := Option.any_eq_true _ _ |>.mp hp
  obtain ⟨⟨-, ⟨status, text, herror⟩ | ⟨r, hr, -, hserved⟩⟩, -⟩ := outcomes_truthful hy
  · rw [of_decide_eq_true hreplies] at herror
    exact absurd herror.symm (List.cons_ne_self _ _)
  · obtain rfl := Option.some.inj hr
    exact ⟨x, y, hx, hy, hserved⟩

end GuardedIM.Control
