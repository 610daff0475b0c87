import GuardedIM.Outgoing

/-!
# Requests that are rejected

A body may fail to decrypt, to decode or to parse, its object may fail a check or make one
raise, and the tables may not allow what it asks for. The first two show when the body is read;
the last shows when the handler takes the lock, after others may have moved.

* `Rejection.step`: what a step of the handler or of another thread does to a request that is being
  rejected.
* `rejected_inert`: such a request changes nothing, reaches nobody else, is answered with at most
  one error, and the handler is back at its frame loop within two steps.
-/

namespace GuardedIM

open Interleave Interleave.Program

/-- The tables allow the action: the checks that are made with the lock held. -/
def Accepts (tb : Tables) (username : Str) : Action → Prop
  | .create groupName _ => Dict.get tb.groups groupName = none
  | .fanOut groupName _ => isMember username (Dict.get tb.groups groupName) = true
  | .forward _ _ => True
  | .ignore | .reply _ => False

/-- The handler of `c` only moves with a request in hand that the tables do not allow; the other
threads do what they want. -/
def Rejecting (c : Conn) (x : Config Conn Tables Phase Event) (a : Conn × Input) : Prop :=
  a.1 = c → ∃ σ b, x.thread c = .act σ b ∧ ¬ Accepts x.memory σ.name b

/-- What the handler of `c` reported. -/
def own (c : Conn) (log : List Event) : List Event := log.filter fun e => e.conn = c

/-- How far the rejection of a request is that was read in `y`, after `n` steps of the handler. -/
inductive Rejection (c : Conn) (σ : Session) (y z : Config Conn Tables Phase Event) : ℕ → Prop where
  /-- the request was read -/
  | pending {a : Action} : z.thread c = .act σ a →
      (∀ q, a = .reply q → ∃ msg, q = errorPayload msg) → own c z.log = own c y.log →
      Rejection c σ y z 0
  /-- the tables refused it -/
  | refused (msg : Str) : z.thread c = .act σ (.reply (errorPayload msg)) →
      own c z.log = own c y.log → Rejection c σ y z 1
  /-- it was dropped -/
  | dropped {n : ℕ} : n ≤ 1 → z.thread c = .loop σ → own c z.log = own c y.log → Rejection c σ y z n
  /-- it was answered -/
  | answered {n : ℕ} (msg : Str) (ok : Bool) : n ≤ 2 → z.thread c = .loop σ →
      own c z.log = sendPayload c (σ.target c) (errorPayload msg) ok :: own c y.log →
      Rejection c σ y z n

/-- What the request of the handler of `c` that was read in `y` has come to in `z`. -/
structure Inert (printable : CodePoint → Bool) (c : Conn) (σ : Session)
    (y z : Config Conn Tables Phase Event) (steps : ℕ) : Prop where
  /-- the handler is at its frame loop, or has yet to act -/
  session : z.thread c = .loop σ ∨ ∃ a, z.thread c = .act σ a
  /-- it made at most two steps -/
  bounded : steps ≤ 2
  /-- and reported nothing but, possibly, an error to its own client -/
  replies : own c z.log = own c y.log ∨ ∃ msg ok,
    own c z.log = sendPayload c (σ.target c) (errorPayload msg) ok :: own c y.log
  /-- its next step leaves both tables as they are -/
  unchanged : ∀ i w, Rejecting c z (c, i) → (server printable).next z (c, i) = some w →
    w.memory = z.memory
  /-- and is never missing -/
  goesOn : ∀ a, z.thread c = .act σ a → ¬ Accepts z.memory σ.name a →
    ∃ i w, (server printable).next z (c, i) = some w

variable {printable : CodePoint → Bool} {c : Conn} {σ : Session}
  {y z : Config Conn Tables Phase Event}

theorem own_append (c : Conn) (es log : List Event) : own c (es ++ log) = own c es ++ own c log :=
  List.filter_append ..

/-- Another thread reports nothing for `c`. -/
theorem own_other {d : Conn} (hd : d ≠ c) {es : List Event} (hes : ∀ e ∈ es, e.conn = d) :
    own c es = [] := by
  refine List.filter_eq_nil_iff.mpr fun e he => ?_
  rw [hes e he]
  simpa using hd

theorem own_send (t : Target) (p : Payload) (ok : Bool) (log : List Event) :
    own c [sendPayload c t p ok] ++ log = sendPayload c t p ok :: log := by
  have hconn : (sendPayload c t p ok).conn = c := rfl
  simp [own, hconn]

/-- The steps a rejected request leads to. -/
theorem Moves.rejected {tb tb' : Tables} {ph ph' : Phase} {es : List Event}
    (h : Moves printable c tb ph tb' ph' es) {a : Action} (hph : ph = .act σ a)
    (ha : ¬ Accepts tb σ.name a) :
    tb' = tb ∧ ((a = .ignore ∧ ph' = .loop σ ∧ es = []) ∨
      ((∀ q, a ≠ .reply q) ∧ es = [] ∧ ∃ msg, ph' = .act σ (.reply (errorPayload msg))) ∨
      ∃ q ok, a = .reply q ∧ ph' = .loop σ ∧ es = [sendPayload c (σ.target c) q ok]) := by
  cases h with
  | ignore σ' =>
    obtain ⟨rfl, rfl⟩ := Phase.act.inj hph
    exact ⟨rfl, .inl ⟨rfl, rfl, rfl⟩⟩
  | reply σ' q ok =>
    obtain ⟨rfl, rfl⟩ := Phase.act.inj hph
    exact ⟨rfl, .inr (.inr ⟨q, ok, rfl, rfl, rfl⟩)⟩
  | groupExists σ' | notMember σ' =>
    obtain ⟨rfl, rfl⟩ := Phase.act.inj hph
    exact ⟨rfl, .inr (.inl ⟨nofun, rfl, _, rfl⟩)⟩
  | create σ' g ms hfree =>
    obtain ⟨rfl, rfl⟩ := Phase.act.inj hph
    exact absurd hfree ha
  | fanOut σ' g p ms hg hmem =>
    obtain ⟨rfl, rfl⟩ := Phase.act.inj hph
    refine absurd ?_ ha
    simp [Accepts, isMember, hg, hmem]
  | found σ' | missing σ' =>
    obtain ⟨rfl, rfl⟩ := Phase.act.inj hph
    exact absurd trivial ha
  | _ => cases hph

/-- **One more step**, of whichever thread. -/
theorem Rejection.step {n : ℕ} (h : Rejection c σ y z n) {d : Conn} {i : Input}
    (hC : Rejecting c z (d, i)) {m : Tables × Phase × List Event}
    (hm : (server printable).step d z.memory (z.thread d) i = some m) :
    Rejection c σ y (after z d m) (if d = c then n + 1 else n) := by
  have hmoves := server_moves hm
  by_cases hd : d = c
  · subst hd
    rw [if_pos rfl]
    obtain ⟨σ', b, hthread, hb⟩ := hC rfl
    obtain ⟨-, hstep⟩ := hmoves.rejected hthread hb
    have hself : (after z d m).thread d = m.2.1 := after_thread_self ..
    have hlog : own d (after z d m).log = own d m.2.2 ++ own d z.log := own_append d m.2.2 z.log
    cases h with
    | pending hpending hreply hown =>
      obtain ⟨rfl, rfl⟩ := Phase.act.inj (hthread.symm.trans hpending)
      rw [hown] at hlog
      rcases hstep with ⟨-, hph, hes⟩ | ⟨-, hes, msg, hph⟩ | ⟨q, ok, hq, hph, hes⟩
      · rw [hes] at hlog
        exact .dropped le_rfl (hself.trans hph) hlog
      · -- the tables refuse it, and the error is still to be sent
        rw [hes] at hlog
        exact .refused msg (hself.trans hph) hlog
      · obtain ⟨msg, rfl⟩ := hreply q hq
        rw [hes] at hlog
        rw [own_send] at hlog
        exact .answered msg ok (by omega) (hself.trans hph) hlog
    | refused msg hrefused hown =>
      obtain ⟨rfl, rfl⟩ := Phase.act.inj (hthread.symm.trans hrefused)
      rw [hown] at hlog
      rcases hstep with ⟨hq, -⟩ | ⟨hne, -⟩ | ⟨q, ok, hq, hph, hes⟩
      · cases hq
      · exact absurd rfl (hne _)
      · obtain rfl := Action.reply.inj hq
        rw [hes, own_send] at hlog
        exact .answered msg ok le_rfl (hself.trans hph) hlog
    | dropped _ hloop =>
      rw [hthread] at hloop
      cases hloop
    | answered _ _ _ hloop =>
      rw [hthread] at hloop
      cases hloop
  · -- another thread: the position and the own events stay
    rw [if_neg hd]
    have hself : (after z d m).thread c = z.thread c := after_thread_ne _ _ (Ne.symm hd)
    have hlog : own c (after z d m).log = own c z.log := by
      rw [after_log, own_append, own_other hd hmoves.conn, List.nil_append]
    cases h with
    | pending hpending hreply hown =>
      exact .pending (hself.trans hpending) hreply (hlog.trans hown)
    | refused msg hrefused hown => exact .refused msg (hself.trans hrefused) (hlog.trans hown)
    | dropped hn hloop hown => exact .dropped hn (hself.trans hloop) (hlog.trans hown)
    | answered msg ok hn hloop hown =>
      exact .answered msg ok hn (hself.trans hloop) (hlog.trans hown)

/-- **The whole rejection**, in between any steps of the others. -/
theorem Rejection.run {as : List (Conn × Input)} (h0 : Rejection c σ y y 0)
    (h : (server printable).Run (Rejecting c) y as z) :
    Rejection c σ y z (as.countP fun a => a.1 = c) := by
  induction h with
  | nil => exact h0
  | @snoc as u w a _ hC hn ih =>
    obtain ⟨m, hm, rfl⟩ := next_eq_some hn
    have hstep := ih.step hC hm
    rw [List.countP_append, List.countP_singleton]
    by_cases hd : a.1 = c
    · rw [if_pos hd] at hstep
      simpa [hd] using hstep
    · rw [if_neg hd] at hstep
      simpa [hd] using hstep

theorem Rejection.inert {n : ℕ} (h : Rejection c σ y z n) : Inert printable c σ y z n := by
  refine ⟨?_, ?_, ?_, fun i w hC hn => ?_, fun a ha hrejected => ?_⟩
  · cases h with
    | pending h _ _ => exact .inr ⟨_, h⟩
    | refused _ h _ => exact .inr ⟨_, h⟩
    | dropped _ h _ => exact .inl h
    | answered _ _ _ h _ => exact .inl h
  · cases h with
    | pending | refused => omega
    | dropped hn => omega
    | answered _ _ hn => exact hn
  · cases h with
    | pending _ _ h => exact .inl h
    | refused _ _ h => exact .inl h
    | dropped _ _ h => exact .inl h
    | answered msg ok _ _ h => exact .inr ⟨msg, ok, h⟩
  · -- the tables are only written by a request that they allow
    obtain ⟨σ', b, hthread, hb⟩ := hC rfl
    obtain ⟨m, hm, rfl⟩ := next_eq_some hn
    exact ((server_moves hm).rejected hthread hb).1
  · -- every rejected action has a step
    have hnext : ∀ {i m}, handleClient printable c z.memory (.act σ a) i = some m →
        ∃ i w, (server printable).next z (c, i) = some w := by
      intro i m hm
      refine ⟨i, after z c m, ?_⟩
      simp only [Program.next, server, ha, hm, Option.map_some]
    cases a with
    | ignore => exact hnext (i := .run) rfl
    | reply q => exact hnext (i := .sent true) rfl
    | create g ms =>
      have hsome : (Dict.get z.memory.groups g).isSome = true :=
        Option.isSome_iff_ne_none.mpr hrejected
      exact hnext (i := .run) (by rw [handleClient, if_pos hsome])
    | fanOut g p =>
      have hnot : ¬ isMember σ.name (Dict.get z.memory.groups g) = true := hrejected
      have hm : handleClient printable c z.memory (.act σ (.fanOut g p)) .run =
          some (z.memory, .act σ (.reply (errorPayload (str "Not a member of that group."))),
            []) := by
        simp only [handleClient, if_neg hnot]
      exact hnext hm
    | forward u p => exact absurd trivial hrejected

/-- What reading a body does. -/
theorem read_step {A : Aead} {F : Json.Interpreter} {x : Config Conn Tables Phase Event}
    (hloop : x.thread c = .loop σ) {data : Bytes} {now : Str}
    (hy : (server printable).next x (c, received A F σ.key data now) = some y) :
    y.memory = x.memory ∧
      ((y.thread c = .loop σ ∧ y.log = x.log) ∨
        ∃ o, opened A F σ.key data = some (.obj o) ∧ y.log = .frame c o :: x.log ∧
          (y.thread c = .loop σ ∨ ∃ a, dispatch printable σ.name now o = .ok a ∧
            y.thread c = .act σ a)) := by
  have hjunk : (server printable).next x (c, .junk) = some y →
      y.memory = x.memory ∧ y.thread c = .loop σ ∧ y.log = x.log := by
    intro hy
    simp only [Program.next, server, hloop, handleClient, Option.map_some] at hy
    obtain rfl := Option.some.inj hy
    exact ⟨rfl, after_thread_self .., rfl⟩
  rw [received] at hy
  split at hy
  · rename_i o ho
    simp only [Program.next, server, hloop, handleClient] at hy
    split at hy
    · rename_i a ha
      obtain rfl := Option.some.inj hy
      exact ⟨rfl, .inr ⟨o, ho, rfl, .inr ⟨a, ha, after_thread_self ..⟩⟩⟩
    · obtain rfl := Option.some.inj hy
      exact ⟨rfl, .inr ⟨o, ho, rfl, .inl (after_thread_self ..)⟩⟩
  · obtain ⟨hmem, hstep⟩ := hjunk hy
    exact ⟨hmem, .inl hstep⟩

/-- **Rejected frames are inert.** For every state, every client at its frame loop and every body
it can send: reading the body changes no table and writes nothing. As long as what it asks for is
not allowed, the steps that follow, in between any steps of the others, change no table either;
they write at most one error, to the client itself, and lead back to the frame loop. -/
theorem rejected_inert (A : Aead) (F : Json.Interpreter) {x : Config Conn Tables Phase Event}
    (hloop : x.thread c = .loop σ) (data : Bytes) (now : Str)
    (hy : (server printable).next x (c, received A F σ.key data now) = some y) :
    y.memory = x.memory ∧ (y.log = x.log ∨ ∃ o, opened A F σ.key data = some (.obj o) ∧
      y.log = .frame c o :: x.log) ∧
      ∀ as z, (server printable).Run (Rejecting c) y as z →
        Inert printable c σ y z (as.countP fun a => a.1 = c) := by
  obtain ⟨hmem, hread⟩ := read_step hloop hy
  refine ⟨hmem, ?_, fun as z hrun => (Rejection.run ?_ hrun).inert⟩
  · rcases hread with ⟨-, hlog⟩ | ⟨o, ho, hlog, -⟩
    · exact .inl hlog
    · exact .inr ⟨o, ho, hlog⟩
  · rcases hread with ⟨hback, -⟩ | ⟨o, -, -, hback | ⟨a, ha, hact⟩⟩
    · exact .dropped (Nat.zero_le 1) hback rfl
    · exact .dropped (Nat.zero_le 1) hback rfl
    · refine .pending hact (fun q hq => ?_) rfl
      subst hq
      exact dispatch_reply ha

/-- A text without a recipient. -/
def noRecipient : Payload := [(str "type", .str (str "message"))]

/-- Alice sends one: the error goes to her, and her handler is back at its frame loop. -/
theorem rejected_inert_alice : ∃ (x y z : Config Conn Tables Phase Event) (data : Bytes),
    (server fun _ => true).Reach Any x ∧ x.thread 0 = .loop ⟨demoKey, str "alice"⟩ ∧
      (server fun _ => true).next x (0, received demoAead demoInterpreter demoKey data []) =
        some y ∧
      (server fun _ => true).Run (Rejecting 0) y [(0, .sent true)] z ∧
      Inert (fun _ => true) 0 ⟨demoKey, str "alice"⟩ y z 1 ∧
      z.log = sendPayload 0 (0, demoKey) (errorPayload (str "Invalid recipient username.")) true ::
        .frame 0 noRecipient :: x.log := by
  obtain ⟨x, hx, hthread, -⟩ := exists_joined (C := Any) fun _ _ _ => trivial
  have hsealed : (sealPayload demoAead demoKey noRecipient demoNonce.1).isSome = true := by decide
  obtain ⟨data, hdata⟩ := Option.isSome_iff_exists.mp hsealed
  have hcanonical : Json.Canonical demoInterpreter (.obj noRecipient) :=
    Json.canonical_empty.field "type" (Json.canonical_literal "message")
  have hopened : opened demoAead demoInterpreter demoKey data = some (.obj noRecipient) :=
    opened_sent (x := .payload noRecipient demoNonce) hdata hcanonical
  have hinput : received demoAead demoInterpreter demoKey data [] = .frame noRecipient [] := by
    rw [received, hopened]
  let y := after x 0 (x.memory, .act ⟨demoKey, str "alice"⟩ (.reply (errorPayload
    (str "Invalid recipient username."))), [.frame 0 noRecipient])
  let z := after y 0 (y.memory, .loop ⟨demoKey, str "alice"⟩,
    [sendPayload 0 (0, demoKey) (errorPayload (str "Invalid recipient username.")) true])
  have hy : (server fun _ => true).next x
      (0, received demoAead demoInterpreter demoKey data []) = some y := by
    rw [hinput]
    simp only [Program.next, server, hthread]
    rfl
  have hact : y.thread 0 = .act ⟨demoKey, str "alice"⟩ (.reply (errorPayload
    (str "Invalid recipient username."))) := after_thread_self ..
  have hz : (server fun _ => true).next y (0, .sent true) = some z := by
    simp only [Program.next, server, hact]
    rfl
  have hrun : (server fun _ => true).Run (Rejecting 0) y [(0, .sent true)] z :=
    .snoc .nil (fun _ => ⟨_, _, hact, id⟩) hz
  obtain ⟨-, -, hinert⟩ := rejected_inert demoAead demoInterpreter hthread data [] hy
  exact ⟨x, y, z, data, hx, hthread, hy, hrun, hinert _ _ hrun, rfl⟩

end GuardedIM
