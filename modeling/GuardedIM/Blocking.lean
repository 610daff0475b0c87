import GuardedIM.Outcomes

/-!
# Who can get in the way of a Replace-IP request

There is one nonce for each user. Phase 1 puts it there, in the place of an older one, and Phase 2
takes it out before the signature is looked at; neither asks who is calling.

* `slot_reach`: the nonce that was issued last for a user, unless it was taken, is in the store
  until it expires.
* `attempt_succeeds`: with this nonce, Phase 2 gets past the lookup and the signature check.
* `blocked_by_stranger`: a caller without a key can take the nonce.
-/

namespace GuardedIM.Control

open Interleave Interleave.Program

/-- The user whose nonce is issued or taken. -/
def Event.slot : Event → Option ℕ
  | .issued _ u _ _ _ => some u
  | .looked _ u _ _ => some u
  | _ => none

/-- User `u` got the nonce in Phase 1, and the handler `t` is about to look it up for the Phase 2
request `r` with a correct signature, within 30 seconds. -/
structure Attempt (E : Ed25519) (y : Config ℕ Memory Task Event) (es : List Event) (t u : ℕ)
    (nonce key : Bytes) (r : Request) : Prop where
  /-- the nonce was issued, `es` happened since, and it is not too late -/
  issued : ∃ t₁ a time past, y.log = es ++ .issued t₁ u nonce a time :: past ∧
    y.memory.now ≤ time + nonceTTL
  /-- the request has come to the lookup -/
  request : y.thread t = .verify r
  /-- it is for the user -/
  user : r.userID = u
  /-- the key is the one that is stored for the user -/
  stored : y.memory.userKey u = some (E.pub key)
  /-- and the signature is over the nonce -/
  signed : stdDecode r.sigB64 = some (E.sign key nonce)

variable {E : Ed25519} {W : WgTypes} {t u : ℕ} {g : Memory} {l : Task} {i : Input} {m : Left}
  {log : List Event}
  {x y : Config ℕ Memory Task Event} {C : Config ℕ Memory Task Event → ℕ × Input → Prop}

/-! ## The nonce of a user -/

/-- The nonce that was issued last for the user, with the time, if it was not taken. -/
def slot (u : ℕ) (log : List Event) : Option (Bytes × ℕ) :=
  match log.find? fun e => e.slot = some u with
  | some (.issued _ _ nonce _ time) => some (nonce, time)
  | _ => none

/-- It is in the store until it expires, and the purge does not come too early. -/
structure Slots (g : Memory) (thread : ℕ → Task) (log : List Event) : Prop where
  /-- the store -/
  stored : ∀ u nonce time, slot u log = some (nonce, time) → g.now ≤ time + nonceTTL →
    Dict.get g.store u = some ⟨nonce, time + nonceTTL⟩
  /-- the time a purge has read is past -/
  past : ∀ t now, thread t = .purging now → now ≤ g.now

theorem slot_append {es : List Event} (hes : ∀ e ∈ es, e.slot ≠ some u) :
    slot u (es ++ log) = slot u log := by
  have hnone : es.find? (fun e => decide (e.slot = some u)) = none :=
    List.find?_eq_none.mpr fun e he hslot => hes e he (of_decide_eq_true hslot)
  rw [slot, List.find?_append, hnone, Option.none_or, slot]

theorem slot_issued (t u : ℕ) (nonce a : Bytes) (time : ℕ) (log : List Event) :
    slot u (.issued t u nonce a time :: log) = some (nonce, time) := by
  simp [slot, Event.slot]

theorem slot_looked (t u : ℕ) (nonce : Bytes) (time : ℕ) (log : List Event) :
    slot u (.looked t u nonce time :: log) = none := by
  simp [slot, Event.slot]

/-- A step keeps the nonces that have not expired. -/
theorem Moves.slots (h : Moves E W t g l i m)
    (hg : ∀ u nonce time, slot u log = some (nonce, time) → g.now ≤ time + nonceTTL →
      Dict.get g.store u = some ⟨nonce, time + nonceTTL⟩)
    (hl : ∀ now, l = .purging now → now ≤ g.now) (u : ℕ) (nonce : Bytes) (time : ℕ)
    (hslot : slot u (m.2.2 ++ log) = some (nonce, time)) (htime : m.1.now ≤ time + nonceTTL) :
    Dict.get m.1.store u = some ⟨nonce, time + nonceTTL⟩ := by
  cases h with
  | tick n =>
    exact hg u nonce time hslot ((Nat.le_add_right _ _).trans htime)
  | issue r nonce' =>
    by_cases hu : u = r.userID
    · subst hu
      have hissued : slot r.userID ([.replied t (.challenge (hexEncode nonce')),
          .issued t r.userID nonce' r.ipAddress g.now] ++ log) = some (nonce', g.now) := by
        rw [List.cons_append, List.singleton_append, ← List.singleton_append,
          slot_append (by simp [Event.slot]), slot_issued]
      rw [hissued] at hslot
      obtain ⟨rfl, rfl⟩ := Prod.mk.inj (Option.some.inj hslot)
      exact Dict.get_set_self ..
    · rw [slot_append (by simp [Event.slot, Ne.symm hu])] at hslot
      rw [Dict.get_set_ne _ _ hu]
      exact hg u nonce time hslot htime
  | look r entry hget hexpiry =>
    by_cases hu : u = r.userID
    · subst hu
      rw [List.singleton_append, slot_looked] at hslot
      cases hslot
    · rw [slot_append (by simp [Event.slot, Ne.symm hu])] at hslot
      have hkept := hg u nonce time hslot htime
      show Dict.get (Dict.erase g.store r.userID) u = _
      rw [Dict.get_erase, if_neg hu, hkept]
  | purge now =>
    rw [slot_append] at hslot
    · refine Dict.get_filter (hg u nonce time hslot htime) ?_
      have hnow := hl now rfl
      have hlate : ¬ time + nonceTTL < now := Nat.not_lt.mpr (hnow.trans htime)
      simpa using hlate
    · intro e he
      obtain ⟨e', -, rfl⟩ := List.mem_map.mp he
      simp [Event.slot]
  | _ =>
    refine hg u nonce time ?_ htime
    rwa [slot_append (by simp [Control.reply, Event.slot])] at hslot

/-- What a purge has read is past. -/
theorem Moves.past (h : Moves E W t g l i m) (hl : ∀ now, l = .purging now → now ≤ g.now) :
    g.now ≤ m.1.now ∧ ∀ now, m.2.1 = .purging now → now ≤ m.1.now := by
  cases h with
  | tick n => exact ⟨Nat.le_add_right _ _, nofun⟩
  | wake =>
    refine ⟨le_rfl, fun now hnow => ?_⟩
    rw [Task.purging.inj hnow]
  | ask r l' hip hl' =>
    rcases hl' with rfl | rfl
    all_goals exact ⟨le_rfl, nofun⟩
  | _ => exact ⟨le_rfl, nofun⟩

theorem slots_reach (h : (control E W).Reach C x) : Slots x.memory x.thread x.log := by
  apply h.invariant (I := fun x => Slots x.memory x.thread x.log)
  · exact ⟨nofun, nofun⟩
  · intro z t₀ i m _ hz _ hm
    have hmoves := control_moves hm
    obtain ⟨hnow, hpast⟩ := hmoves.past (hz.past t₀)
    rw [after_memory, after_log]
    refine ⟨hmoves.slots hz.stored (hz.past t₀), fun t now hthread => ?_⟩
    by_cases ht : t = t₀
    · subst ht
      rw [after_thread_self] at hthread
      exact hpast now hthread
    · rw [after_thread_ne _ _ ht] at hthread
      exact (hz.past t now hthread).trans hnow

/-- **The last nonce of a user stays until it is taken or expires.** -/
theorem slot_reach (h : (control E W).Reach C x) {es past : List Event} {t : ℕ} {nonce a : Bytes}
    {time : ℕ} (hlog : x.log = es ++ .issued t u nonce a time :: past)
    (hes : ∀ e ∈ es, e.slot ≠ some u) (htime : x.memory.now ≤ time + nonceTTL) :
    Dict.get x.memory.store u = some ⟨nonce, time + nonceTTL⟩ := by
  apply (slots_reach h).stored u nonce time _ htime
  rw [hlog, slot_append hes, slot_issued]

/-! ## The attempt -/

/-- The keys do not change in a run. -/
theorem userKey_run {as : List (ℕ × Input)} {pubKey : Bytes} (h : (control E W).Run C x as y)
    (hkey : x.memory.userKey u = some pubKey) : y.memory.userKey u = some pubKey :=
  h.invariant (I := fun y => y.memory.userKey u = some pubKey) hkey
    fun _ _ _ _ hz _ hm => (control_moves hm).userKey hz

/-- The lookup of a nonce that is there. -/
theorem lookup_found {r : Request} {entry : NonceEntry}
    (hget : Dict.get g.store r.userID = some entry) (htime : g.now ≤ entry.expiry) :
    lookup t g r = ({ g with store := Dict.erase g.store r.userID }, .taken r entry.val,
      [.looked t r.userID entry.val g.now]) := by
  simp only [lookup, hget, if_neg (Nat.not_lt.mpr htime)]

/-- **Phase 2 with the last nonce of its user succeeds**, in every run in which nobody else got or
took a nonce for that user in between, whatever else happens before, in between and afterwards: it
finds the nonce, and its signature is accepted, unless the database does not give the key. -/
theorem attempt_succeeds (hy : (control E W).Reach Any y) {es : List Event} {nonce key : Bytes}
    {r : Request} (h : Attempt E y es t u nonce key r) (hes : ∀ e ∈ es, e.slot ≠ some u) :
    ∃ z, (control E W).next y (t, .locked) = some z ∧ replies t z.log = replies t y.log ∧
      ∀ as w, (control E W).Run (fun _ a => a.1 ≠ t) z as w →
        ∀ o, ∃ v, (control E W).next w (t, .answer o) = some v ∧
          if o = .done then v.thread t = .verified r ∧ replies t v.log = replies t w.log
          else replies t v.log = .error 403 "user not found" :: replies t w.log := by
  obtain ⟨⟨t₁, a, time, past, hlog, htime⟩, hthread, rfl, hkey, hsig⟩ := h
  have hget := slot_reach hy hlog hes htime
  have hlookup := lookup_found (t := t) hget htime
  refine ⟨after y t (lookup t y.memory r), ?_, ?_, fun as w hrun o => ?_⟩
  · simp only [Program.next, control, hthread, step, Option.map_some]
  · rw [hlookup]
    rfl
  · -- meanwhile the thread stays where it is, and the key is the same
    have hw : w.thread t = .taken r nonce := by
      refine hrun.invariant (I := fun w => w.thread t = .taken r nonce) ?_ ?_
      · rw [after_thread_self, hlookup]
      · intro z t' i m hz hne hm
        rw [after_thread_ne _ _ (Ne.symm hne), hz]
    have hkey' : w.memory.userKey r.userID = some (E.pub key) := by
      refine userKey_run hrun ?_
      rw [after_memory, hlookup]
      exact hkey
    have hgenuine : E.verify (E.pub key) nonce (E.sign key nonce) = true :=
      (E.verify_iff _ _ _).mpr ⟨key, rfl, rfl⟩
    refine ⟨after w t (checkSig E t w.memory r nonce o), ?_, ?_⟩
    · simp only [Program.next, control, hw, step, Option.map_some]
    · rw [after_thread_self, after_log, replies_append, checkSig, hsig, hkey']
      cases o with
      | done =>
        simp only [hgenuine, if_true]
        exact ⟨trivial, rfl⟩
      | failed | lost =>
        simp only [reply, replies_self]
        rfl

/-! ## Alice and a stranger -/

/-- Alice's Phase 2 request. -/
def aliceRequest : Request := ⟨1, ascii "10.0.0.7", demoSig⟩

/-- A request for Alice's address with three bytes in the place of a signature. -/
def strangeRequest : Request := ⟨1, ascii "10.0.0.9", ascii "AAAA"⟩

/-- Alice gets a nonce. -/
def aliceIssue (time : ℕ) : Event :=
  .issued 0 1 (List.replicate 32 1) (ascii "10.0.0.6") time

/-- The attempt of Alice in a state, to be found by computation. -/
def isAliceAttempt (es : List Event) (time : ℕ) (x : Config ℕ Memory Task Event) : Bool :=
  decide (x.log.take (es.length + 1) = es ++ [aliceIssue time]) &&
    decide (x.memory.now ≤ time + nonceTTL) && decide (x.thread 0 = .verify aliceRequest) &&
    decide (x.memory.userKey 1 = some (List.replicate 32 0))

theorem attempt_of_isAliceAttempt {es : List Event} {time : ℕ}
    (h : isAliceAttempt es time x = true) :
    Attempt demoEd25519 x es 0 1 (List.replicate 32 1) (List.replicate 32 0) aliceRequest := by
  simp only [isAliceAttempt, Bool.and_eq_true, decide_eq_true_eq] at h
  obtain ⟨⟨⟨hlog, hnow⟩, hthread⟩, hkey⟩ := h
  refine ⟨⟨0, ascii "10.0.0.6", time, x.log.drop (es.length + 1), ?_, hnow⟩, hthread, rfl, hkey, ?_⟩
  · rw [← List.singleton_append, ← List.append_assoc, ← aliceIssue, ← hlog, List.take_append_drop]
  · decide +kernel

/-- Bob's Phase 2 request, with three bytes in the place of a signature. -/
def bobRequest : Request := ⟨2, ascii "10.0.0.9", ascii "AAAA"⟩

/-- Bob is there too, and a third user has a nonce that runs out while Alice's does not. -/
def busyServer : List (ℕ × Input) :=
  [(0, .addUser ⟨ascii "alice", [], demoPubKey, ascii "10.0.0.5"⟩ 1 .done),
    (1, .addUser ⟨ascii "bob", [], ascii "AQEBAQEBAQEBAQEBAQEBAQEBAQEBAQEBAQEBAQEBAQE=",
      ascii "10.0.0.8"⟩ 2 .done),
    (4, .request "POST" (some ⟨3, ascii "10.0.0.3", []⟩)),
    (4, .random (some (List.replicate 32 3))), (5, .tick (20 * second)),
    (0, .request "POST" (some ⟨1, ascii "10.0.0.6", []⟩)),
    (0, .random (some (List.replicate 32 1))),
    (1, .request "POST" (some ⟨2, ascii "10.0.0.9", []⟩)),
    (1, .random (some (List.replicate 32 2))), (2, .request "GET" none), (5, .tick (20 * second)),
    (3, .wake), (3, .locked), (1, .request "POST" (some bobRequest)), (1, .locked),
    (1, .answer .done), (0, .request "POST" (some aliceRequest))]

/-- What happened there since Alice got her nonce: Bob got and used up his own, a request was
refused, and the purge took the third one. -/
def busyEvents : List Event :=
  [.asked 0 aliceRequest, .replied 1 (.error 403 "signature verification failed"),
    .looked 1 2 (List.replicate 32 2) (40 * second), .asked 1 bobRequest,
    .purged 3 (List.replicate 32 3), .replied 2 (.error 405 "use POST"),
    .replied 1 (.challenge (hexEncode (List.replicate 32 2))),
    .issued 1 2 (List.replicate 32 2) (ascii "10.0.0.9") (20 * second),
    .asked 1 ⟨2, ascii "10.0.0.9", []⟩, .replied 0 (.challenge (hexEncode (List.replicate 32 1)))]

/-- Alice's attempt on a busy server: her nonce is found, and after another request her signature
is accepted. -/
theorem attempt_succeeds_busy : ∃ y z w v : Config ℕ Memory Task Event,
    (control demoEd25519 demoWgTypes).Reach Any y ∧
      (∃ past, y.log = busyEvents ++ aliceIssue (20 * second) :: past) ∧
      (control demoEd25519 demoWgTypes).next y (0, .locked) = some z ∧
      replies 0 z.log = replies 0 y.log ∧
      (control demoEd25519 demoWgTypes).Run (fun _ a => a.1 ≠ 0) z [(1, .request "GET" none)] w ∧
      (control demoEd25519 demoWgTypes).next w (0, .answer .done) = some v ∧
      v.thread 0 = .verified aliceRequest := by
  obtain ⟨y, hy, hp⟩ := exists_reach_of_exec (P := control demoEd25519 demoWgTypes) busyServer
    (p := fun y => isAliceAttempt busyEvents (20 * second) y &&
      ((control demoEd25519 demoWgTypes).next y (0, .locked)).all fun z =>
        ((control demoEd25519 demoWgTypes).next z (1, .request "GET" none)).isSome)
    (by decide +kernel)
  obtain ⟨hattempt, hother⟩ := Bool.and_eq_true_iff.mp hp
  have hpast : ∃ past, y.log = busyEvents ++ aliceIssue (20 * second) :: past := by
    obtain ⟨past, hlog⟩ := List.take_prefix (busyEvents.length + 1) y.log
    simp only [isAliceAttempt, Bool.and_eq_true, decide_eq_true_eq] at hattempt
    rw [hattempt.1.1.1] at hlog
    exact ⟨past, by rw [← hlog, List.append_assoc, List.singleton_append]⟩
  obtain ⟨z, hz, hreplies, hrest⟩ :=
    attempt_succeeds hy (attempt_of_isAliceAttempt hattempt) (by decide)
  rw [hz] at hother
  obtain ⟨w, hw⟩ := Option.isSome_iff_exists.mp hother
  have hrun : (control demoEd25519 demoWgTypes).Run (fun _ a => a.1 ≠ 0) z
      [(1, .request "GET" none)] w :=
    .snoc .nil Nat.one_ne_zero hw
  obtain ⟨v, hv, hverified, -⟩ := hrest _ w hrun .done
  exact ⟨y, z, w, v, hy, hpast, hz, hreplies, hrun, hv, hverified⟩

/-- The requests of the other threads carry no signature that the key could have made. -/
def Strangers (E : Ed25519) (t : ℕ) (key : Bytes) (es : List Event) : Prop :=
  ∀ t' r, .asked t' r ∈ es → t' ≠ t → ∀ sig nonce, stdDecode r.sigB64 = some sig →
    E.verify (E.pub key) nonce sig = false

/-- **A stranger can take the nonce**: Alice's Phase 2 is refused with "no nonce". -/
theorem blocked_by_stranger : ¬ ∀ (E : Ed25519) (W : WgTypes) (y : Config ℕ Memory Task Event)
    (es : List Event) (t u : ℕ) (nonce key : Bytes) (r : Request), (control E W).Reach Any y →
    Attempt E y es t u nonce key r → Strangers E t key es →
    ∃ z, (control E W).next y (t, .locked) = some z ∧
      replies t z.log ≠ .error 403 "no nonce" :: replies t y.log := by
  intro hall
  let es : List Event := [.asked 0 aliceRequest,
    .replied 1 (.error 403 "signature verification failed"), .looked 1 1 (List.replicate 32 1) 0,
    .asked 1 strangeRequest, .replied 0 (.challenge (hexEncode (List.replicate 32 1)))]
  obtain ⟨y, hy, hp⟩ := exists_reach_of_exec (P := control demoEd25519 demoWgTypes)
    (twoAddresses.take 3 ++ [(1, .request "POST" (some strangeRequest)), (1, .locked),
      (1, .answer .done), (0, .request "POST" (some aliceRequest))])
    (p := fun y => isAliceAttempt es 0 y &&
      ((control demoEd25519 demoWgTypes).next y (0, .locked)).all fun z =>
        decide (replies 0 z.log = .error 403 "no nonce" :: replies 0 y.log)) (by decide +kernel)
  obtain ⟨hattempt, hrefused⟩ := Bool.and_eq_true_iff.mp hp
  have hstrangers : Strangers demoEd25519 0 (List.replicate 32 0) es := by
    intro t r he ht sig nonce hsig
    have hstrange : r = strangeRequest := by
      simp only [es, List.mem_cons, Event.asked.injEq, reduceCtorEq, List.not_mem_nil,
        or_false, false_or] at he
      rcases he with ⟨rfl, -⟩ | ⟨-, rfl⟩
      · exact absurd rfl ht
      · rfl
    obtain rfl : sig = [0, 0, 0] := by
      have hdecode : stdDecode strangeRequest.sigB64 = some [0, 0, 0] := by decide +kernel
      rw [hstrange, hdecode] at hsig
      exact (Option.some.inj hsig).symm
    -- a signature has the 32 bytes of the key in front
    rw [← Bool.not_eq_true, demoEd25519.verify_iff]
    rintro ⟨key, hkey, hsign⟩
    have hlen : key.length + nonce.length = 3 := by
      rw [← List.length_append]
      exact congrArg List.length hsign
    have hkeyLen : key.length = 32 := congrArg List.length hkey
    omega
  obtain ⟨z, hz, hne⟩ := hall _ _ y es 0 1 _ _ _ hy (attempt_of_isAliceAttempt hattempt) hstrangers
  rw [hz] at hrefused
  exact hne (of_decide_eq_true hrefused)

end GuardedIM.Control
