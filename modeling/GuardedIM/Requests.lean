import GuardedIM.Control

/-!
# What a request has behind it

Facts that hold in every run of the control server, whatever `rand.Read` gives: the request
a thread serves, the nonce it took, and the signature that was accepted. A thread on its
way to an update carries them in `Serving`.

* `accepted_reach`: an accepted signature is genuine under the key stored for the user,
  which never changes.
* `write_of_request`: an update writes the address of the very request whose signature was
  accepted, and the nonce it was over had been issued to the same user.
* `other_address`: that request may name another address than the Phase 1 request; the
  signature is over the nonce only.
-/

namespace GuardedIM.Control

open Interleave Interleave.Program

/-- The thread an event belongs to; rows that are added and the purge belong to none. -/
def Event.thread : Event → Option ℕ
  | .asked t _ => some t
  | .issued t _ _ _ _ => some t
  | .looked t _ _ _ => some t
  | .accepted t _ _ _ _ => some t
  | .updated t _ _ => some t
  | .replied t _ => some t
  | .purged _ _ => none
  | .added _ _ => none

/-- The user and the nonce of an issue. -/
def Event.issue : Event → Option (ℕ × Bytes)
  | .issued _ u nonce _ _ => some (u, nonce)
  | _ => none

/-- `rand.Read` gives a nonce that was not issued before. -/
def Fresh (x : Config ℕ Memory Task Event) (a : ℕ × Input) : Prop :=
  ∀ nonce, a.2 = .random (some nonce) → ∀ e ∈ x.log, ∀ u, e.issue ≠ some (u, nonce)

/-- The last request of thread `t`. -/
def requestOf (t : ℕ) (log : List Event) : Option Request :=
  log.findSome? fun
    | .asked t' r => if t' = t then some r else none
    | _ => none

/-- The nonce that the last lookup of thread `t` took. -/
def nonceOf (t : ℕ) (log : List Event) : Option Bytes :=
  log.findSome? fun
    | .looked t' _ nonce _ => if t' = t then some nonce else none
    | _ => none

/-- A Phase 1 request for `u`, with an address that parses, got the nonce. -/
def Issued (log : List Event) (u : ℕ) (nonce : Bytes) : Prop :=
  ∃ t a time, .issued t u nonce a time ∈ log ∧ (parseIP a).isSome

/-- The request a thread serves. -/
def Task.request : Task → Option Request
  | .challenge r => some r
  | .verify r => some r
  | .taken r _ => some r
  | .verified r => some r
  | .free r => some r
  | _ => none

/-- What thread `t` has behind it. -/
structure Serving (log : List Event) (t : ℕ) (l : Task) : Prop where
  /-- its request is the last it got, and names an address -/
  request : ∀ r, l.request = some r → requestOf t log = some r ∧ (parseIP r.ipAddress).isSome
  /-- the nonce it took was issued to the user of the request -/
  taken : ∀ r nonce, l = .taken r nonce → nonceOf t log = some nonce ∧ Issued log r.userID nonce
  /-- and its signature of that nonce was accepted -/
  signed : ∀ r, l = .verified r ∨ l = .free r → ∃ nonce pubKey sig, nonceOf t log = some nonce ∧
    Issued log r.userID nonce ∧ stdDecode r.sigB64 = some sig ∧
    .accepted t r.userID pubKey nonce sig ∈ log

variable {E : Ed25519} {W : WgTypes} {t : ℕ} {g : Memory} {l : Task} {i : Input} {m : Left}
  {log : List Event}

/-- The events of a step belong to the thread that moves. -/
theorem Moves.thread (h : Moves E W t g l i m) :
    ∀ e ∈ m.2.2, ∀ t', e.thread = some t' → t' = t := by
  cases h with
  | purge now =>
    intro e he t' ht'
    obtain ⟨e', -, rfl⟩ := List.mem_map.mp he
    cases ht'
  | _ => simp [Control.reply, Event.thread]

/-! ## Keys -/

/-- A key that is stored stays. -/
theorem Moves.userKey (h : Moves E W t g l i m) {u : ℕ} {pubKey : Bytes}
    (hkey : g.userKey u = some pubKey) : m.1.userKey u = some pubKey := by
  cases h with
  | update r o ρ users n hupdate =>
    rw [Memory.userKey, Table.find?_update hupdate (fun _ => rfl), Option.map_map]
    have hkeep : (fun row : UserRow => row.userPubkey) ∘ (fun row : UserRow =>
        if decide (row.userID = r.userID) = true then { row with latestIp := r.ipAddress }
        else row) = fun row => row.userPubkey := by
      funext row
      by_cases hrow : decide (row.userID = r.userID) = true
      · simp only [Function.comp_apply, if_pos hrow]
      · simp only [Function.comp_apply, if_neg hrow]
    rw [hkeep]
    exact hkey
  | addUser a id o a' row users hcmd hrow hinsert =>
    obtain ⟨row', hrow', rfl⟩ := Option.map_eq_some_iff.mp hkey
    rw [Memory.userKey, Table.find?_insert hinsert, hrow']
    rfl
  | _ => exact hkey

/-- **An accepted signature is genuine** under the key of the user. -/
theorem accepted_reach {C : Config ℕ Memory Task Event → ℕ × Input → Prop}
    {x : Config ℕ Memory Task Event} (h : (control E W).Reach C x) :
    ∀ t u pubKey nonce sig, .accepted t u pubKey nonce sig ∈ x.log →
      x.memory.userKey u = some pubKey ∧ ∃ key, E.pub key = pubKey ∧ E.sign key nonce = sig := by
  apply h.invariant (I := fun x => ∀ t u pubKey nonce sig,
    .accepted t u pubKey nonce sig ∈ x.log → x.memory.userKey u = some pubKey ∧
      ∃ key, E.pub key = pubKey ∧ E.sign key nonce = sig)
  · intro t u pubKey nonce sig he
    cases he
  · intro z t₀ i m _ hz _ hm t u pubKey nonce sig he
    have hmoves := control_moves hm
    rw [after_memory]
    rw [after_log] at he
    rcases List.mem_append.mp he with he | he
    · generalize z.thread t₀ = l at hmoves
      cases hmoves with
      | accept r nonce' sig' pubKey' hsig hkey hverify =>
        obtain ⟨rfl, rfl, rfl, rfl, rfl⟩ : t = t₀ ∧ u = r.userID ∧ pubKey = pubKey' ∧
            nonce = nonce' ∧ sig = sig' := by simpa using he
        exact ⟨hkey, (E.verify_iff _ _ _).mp hverify⟩
      | purge now =>
        obtain ⟨e', -, he'⟩ := List.mem_map.mp he
        cases he'
      | _ => simp [reply] at he
    · obtain ⟨hkey, hgenuine⟩ := hz t u pubKey nonce sig he
      exact ⟨hmoves.userKey hkey, hgenuine⟩

/-! ## Requests -/

theorem Issued.append {u : ℕ} {nonce : Bytes} (h : Issued log u nonce) (es : List Event) :
    Issued (es ++ log) u nonce := by
  obtain ⟨t, a, time, he, ha⟩ := h
  exact ⟨t, a, time, List.mem_append_right _ he, ha⟩

/-- Events of other threads change neither the request nor the nonce of a thread. -/
theorem requestOf_append {es : List Event} (hes : ∀ e ∈ es, e.thread ≠ some t) :
    requestOf t (es ++ log) = requestOf t log := by
  rw [requestOf, List.findSome?_append, List.findSome?_eq_none_iff.mpr, Option.none_or]
  · rfl
  · intro e he
    cases e with
    | asked t' r =>
      have hne : t' ≠ t := fun heq => hes _ he (congrArg some heq)
      simp [hne]
    | _ => rfl

theorem nonceOf_append {es : List Event} (hes : ∀ e ∈ es, e.thread ≠ some t) :
    nonceOf t (es ++ log) = nonceOf t log := by
  rw [nonceOf, List.findSome?_append, List.findSome?_eq_none_iff.mpr, Option.none_or]
  · rfl
  · intro e he
    cases e with
    | looked t' u nonce time =>
      have hne : t' ≠ t := fun heq => hes _ he (congrArg some heq)
      simp [hne]
    | _ => rfl

/-- The steps of other threads leave it behind a thread. -/
theorem Serving.append (h : Serving log t l) {es : List Event}
    (hes : ∀ e ∈ es, e.thread ≠ some t) : Serving (es ++ log) t l := by
  refine ⟨fun r hr => ?_, fun r nonce hl => ?_, fun r hl => ?_⟩
  · rw [requestOf_append hes]
    exact h.request r hr
  · obtain ⟨hnonce, hissued⟩ := h.taken r nonce hl
    exact ⟨(nonceOf_append hes).trans hnonce, hissued.append es⟩
  · obtain ⟨nonce, pubKey, sig, hnonce, hissued, hsig, haccepted⟩ := h.signed r hl
    exact ⟨nonce, pubKey, sig, (nonceOf_append hes).trans hnonce, hissued.append es, hsig,
      List.mem_append_right _ haccepted⟩

/-- A thread without a request. -/
theorem Serving.rest (hl : l.request = none) : Serving log t l := by
  refine ⟨fun r hr => ?_, fun r nonce hl' => ?_, fun r hl' => ?_⟩
  · rw [hl] at hr
    cases hr
  · rw [hl'] at hl
    cases hl
  · rcases hl' with rfl | rfl
    all_goals cases hl

/-- A thread that has just begun with a request. -/
theorem Serving.ask {r : Request} (hip : (parseIP r.ipAddress).isSome)
    (hl : l = .challenge r ∨ l = .verify r) : Serving (.asked t r :: log) t l := by
  refine ⟨fun r' hr => ?_, fun r nonce hl' => ?_, fun r hl' => ?_⟩
  · obtain rfl : r = r' := by
      rcases hl with rfl | rfl
      all_goals exact Option.some.inj hr
    exact ⟨by simp [requestOf], hip⟩
  · rcases hl with rfl | rfl
    all_goals cases hl'
  · rcases hl with rfl | rfl
    all_goals simp at hl'

theorem Serving.look {r : Request} {nonce : Bytes} {time : ℕ}
    (h : Serving log t (.verify r)) (hissued : Issued log r.userID nonce) :
    Serving (.looked t r.userID nonce time :: log) t (.taken r nonce) := by
  refine ⟨fun r' hr => ?_, fun r' nonce' hl => ?_, fun r' hl => ?_⟩
  · obtain ⟨hreq, hip⟩ := h.request r' hr
    exact ⟨hreq, hip⟩
  · obtain ⟨rfl, rfl⟩ := Task.taken.inj hl
    exact ⟨by simp [nonceOf], hissued.append [_]⟩
  · simp at hl

theorem Serving.accept {r : Request} {nonce sig pubKey : Bytes}
    (h : Serving log t (.taken r nonce)) (hsig : stdDecode r.sigB64 = some sig) :
    Serving (.accepted t r.userID pubKey nonce sig :: log) t (.verified r) := by
  refine ⟨h.request, (fun r' nonce' hl => nomatch hl), fun r' hl => ?_⟩
  obtain rfl : r = r' := by simpa using hl
  obtain ⟨hnonce, hissued⟩ := h.taken r nonce rfl
  exact ⟨nonce, pubKey, sig, hnonce, hissued.append [_], hsig, List.mem_cons_self ..⟩

theorem Serving.free {r : Request} (h : Serving log t (.verified r)) :
    Serving log t (.free r) := by
  refine ⟨h.request, (fun r' nonce hl => nomatch hl), fun r' hl => ?_⟩
  obtain rfl : r = r' := by simpa using hl
  exact h.signed r (.inl rfl)

/-- The store holds nonces of Phase 1 requests. -/
def Stocked (g : Memory) (log : List Event) : Prop :=
  ∀ u entry, (u, entry) ∈ g.store → Issued log u entry.val

/-- What the thread that moves has behind it afterwards. -/
theorem Moves.serves (h : Moves E W t g l i m) (hl : Serving log t l) (hg : Stocked g log) :
    Serving (m.2.2 ++ log) t m.2.1 := by
  cases h with
  | ask r l' hip hl' => exact .ask hip hl'
  | look r entry hget htime => exact hl.look (hg _ _ (Dict.mem_of_get hget))
  | accept r nonce sig pubKey hsig hkey hverify => exact hl.accept hsig
  | free r => exact hl.free
  | _ => exact .rest rfl

/-- The store goes on holding nonces of Phase 1 requests. -/
theorem Moves.stocks (h : Moves E W t g l i m) (hl : Serving log t l) (hg : Stocked g log) :
    Stocked m.1 (m.2.2 ++ log) := by
  intro u entry hmem
  have hold : (u, entry) ∈ g.store → Issued (m.2.2 ++ log) u entry.val :=
    fun hmem => (hg u entry hmem).append _
  cases h with
  | issue r nonce =>
    rcases Dict.mem_set hmem with heq | hmem
    · obtain ⟨rfl, rfl⟩ := Prod.mk.inj heq
      exact ⟨t, r.ipAddress, g.now, by simp, (hl.request r rfl).2⟩
    · exact hold hmem
  | look r entry' hget htime => exact hold (List.mem_of_mem_filter hmem)
  | purge now => exact hold (List.mem_of_mem_filter hmem)
  | _ => exact hold hmem

/-- **Every thread serves its request.** -/
theorem serving_reach {C : Config ℕ Memory Task Event → ℕ × Input → Prop}
    {x : Config ℕ Memory Task Event} (h : (control E W).Reach C x) (t : ℕ) :
    Serving x.log t (x.thread t) := by
  suffices hall : (∀ t, Serving x.log t (x.thread t)) ∧ Stocked x.memory x.log from hall.1 t
  apply h.invariant (I := fun x => (∀ t, Serving x.log t (x.thread t)) ∧ Stocked x.memory x.log)
  · exact ⟨fun t => .rest rfl, fun u entry hmem => nomatch hmem⟩
  · intro z t₀ i m _ hz _ hm
    have hmoves := control_moves hm
    refine ⟨fun t => ?_, hmoves.stocks (hz.1 t₀) hz.2⟩
    rw [after_log]
    by_cases ht : t = t₀
    · subst ht
      rw [after_thread_self]
      exact hmoves.serves (hz.1 t) hz.2
    · rw [after_thread_ne _ _ ht]
      apply (hz.1 t).append
      intro e he hthread
      exact ht (hmoves.thread e he t hthread)

/-! ## Updates -/

/-- Every update of a history met `Q` when it was made. -/
def UpdatesMeet (Q : List Event → ℕ → ℕ → Bytes → Prop) (log : List Event) : Prop :=
  Justified (fun e past => ∀ t u a, e = .updated t u a → Q past t u a) log

/-- Only a thread that has found its address free makes an update. -/
theorem Moves.updates (h : Moves E W t g l i m) {Q : List Event → ℕ → ℕ → Bytes → Prop}
    (hlog : UpdatesMeet Q log) (hq : ∀ r, l = .free r → Q log t r.userID r.ipAddress) :
    UpdatesMeet Q (m.2.2 ++ log) := by
  cases h with
  | update r o ρ users n hupdate =>
    refine ⟨(fun _ _ _ he => nomatch he), fun t' u a he => ?_, hlog⟩
    obtain ⟨rfl, rfl, rfl⟩ := Event.updated.inj he
    exact hq r rfl
  | purge now =>
    apply hlog.append_of_forall
    intro e he past t' u a heq
    obtain ⟨e', -, rfl⟩ := List.mem_map.mp he
    cases heq
  | _ => exact hlog.append_of_forall (by simp [Control.reply])

/-- **An update writes the address of the request whose signature was accepted.** The nonce
is the one the request took, and a Phase 1 request of the same user, with an address that
parses, had got it. -/
theorem write_of_request {x : Config ℕ Memory Task Event} (h : (control E W).Reach Any x)
    {later past : List Event} {t u : ℕ} {a : Bytes}
    (hlog : x.log = later ++ .updated t u a :: past) :
    ∃ r nonce pubKey sig, requestOf t past = some r ∧ r.userID = u ∧ r.ipAddress = a ∧
      (parseIP a).isSome ∧ nonceOf t past = some nonce ∧ Issued past u nonce ∧
      stdDecode r.sigB64 = some sig ∧ x.memory.userKey u = some pubKey ∧
      ∃ key, E.pub key = pubKey ∧ E.sign key nonce = sig := by
  have hmeet : UpdatesMeet (fun past t u a => ∃ r, requestOf t past = some r ∧ r.userID = u ∧
      r.ipAddress = a ∧ (parseIP a).isSome ∧ Serving past t (.free r)) x.log := by
    apply h.invariant (I := fun x => UpdatesMeet _ x.log) trivial
    intro z t i m hreach hz _ hm
    apply (control_moves hm).updates hz
    intro r hr
    have hserving := serving_reach hreach t
    rw [hr] at hserving
    obtain ⟨hrequest, hip⟩ := hserving.request r rfl
    exact ⟨r, hrequest, rfl, rfl, hip, hserving⟩
  rw [hlog] at hmeet
  obtain ⟨r, hrequest, rfl, rfl, hip, hserving⟩ := hmeet.at t u a rfl
  obtain ⟨nonce, pubKey, sig, hnonce, hissued, hsig, haccepted⟩ := hserving.signed r (.inr rfl)
  have hmem : .accepted t r.userID pubKey nonce sig ∈ x.log := by
    rw [hlog]
    exact List.mem_append_right _ (List.mem_cons_of_mem _ haccepted)
  obtain ⟨hkey, hgenuine⟩ := accepted_reach h _ _ _ _ _ hmem
  exact ⟨r, nonce, pubKey, sig, hrequest, rfl, rfl, hip, hnonce, hissued, hsig, hkey, hgenuine⟩

/-! ## A run -/

/-- Signatures that are the key followed by the message. -/
def demoEd25519 : Ed25519 where
  pub key := key
  sign key message := key ++ message
  verify pubKey message sig := sig = pubKey ++ message
  verify_iff pubKey message sig := by simp [eq_comm]

/-- `Fresh`, computed. -/
def isFresh (x : Config ℕ Memory Task Event) (a : ℕ × Input) : Bool :=
  match a.2 with
  | .random (some nonce) => x.log.all fun e => e.issue.all fun p => p.2 ≠ nonce
  | _ => true

theorem fresh_of_isFresh (x : Config ℕ Memory Task Event) (a : ℕ × Input)
    (h : isFresh x a = true) : Fresh x a := by
  intro nonce ha e he u hissue
  rw [isFresh, ha] at h
  have := List.all_eq_true.mp h e he
  rw [hissue] at this
  simp at this

/-- 32 zero bytes in base64. -/
def demoPubKey : Bytes := ascii "AAAAAAAAAAAAAAAAAAAAAAAAAAAAAAAAAAAAAAAAAAA="

/-- The signature with that key of the nonce of 32 ones, in base64. -/
def demoSig : Bytes := ascii
  "AAAAAAAAAAAAAAAAAAAAAAAAAAAAAAAAAAAAAAAAAAABAQEBAQEBAQEBAQEBAQEBAQEBAQEBAQEBAQEBAQEBAQ=="

/-- Alice is added, gets a nonce with one address and writes another. -/
def twoAddresses : List (ℕ × Input) :=
  [(0, .addUser ⟨ascii "alice", [], demoPubKey, ascii "10.0.0.5"⟩ 1 .done),
    (0, .request "POST" (some ⟨1, ascii "10.0.0.6", []⟩)),
    (0, .random (some (List.replicate 32 1))),
    (0, .request "POST" (some ⟨1, ascii "10.0.0.7", demoSig⟩)),
    (0, .locked), (0, .answer .done), (0, .answer .done), (0, .answer .done)]

/-- The last request was written for Alice with the second address, and its nonce issued with the
first. -/
def isSecondAddress : List Event → Bool
  | _ :: .updated t u a :: past => t = 0 && u = 1 && a = ascii "10.0.0.7" &&
      nonceOf 0 past = some (List.replicate 32 1) &&
      (Event.issued 0 1 (List.replicate 32 1) (ascii "10.0.0.6") 0 ∈ past)
  | _ => false

/-- What Alice's run leaves. -/
theorem twoAddresses_log : ∃ x reply past, (control demoEd25519 demoWgTypes).Reach Fresh x ∧
    x.log = [reply] ++ .updated 0 1 (ascii "10.0.0.7") :: past ∧
    nonceOf 0 past = some (List.replicate 32 1) ∧
    .issued 0 1 (List.replicate 32 1) (ascii "10.0.0.6") 0 ∈ past := by
  obtain ⟨x, hx, hp⟩ := exists_run_of_execIf (P := control demoEd25519 demoWgTypes) fresh_of_isFresh
    twoAddresses (p := fun x => isSecondAddress x.log) (by decide +kernel)
  rcases hlog : x.log with _ | ⟨reply, _ | ⟨e, past⟩⟩
  · rw [hlog] at hp
    cases hp
  · rw [hlog] at hp
    cases hp
  · rw [hlog] at hp
    cases e with
    | updated t u a =>
      simp only [isSecondAddress, Bool.and_eq_true, decide_eq_true_eq] at hp
      obtain ⟨⟨⟨⟨rfl, rfl⟩, rfl⟩, hnonce⟩, hissued⟩ := hp
      exact ⟨x, reply, past, ⟨_, hx⟩, hlog, hnonce, hissued⟩
    | _ => cases hp

/-- Alice's update. -/
theorem write_of_request_alice : ∃ x reply past, (control demoEd25519 demoWgTypes).Reach Any x ∧
    x.log = [reply] ++ .updated 0 1 (ascii "10.0.0.7") :: past ∧
    ∃ r nonce pubKey sig, requestOf 0 past = some r ∧ r.userID = 1 ∧
      r.ipAddress = ascii "10.0.0.7" ∧ (parseIP (ascii "10.0.0.7")).isSome ∧
      nonceOf 0 past = some nonce ∧ Issued past 1 nonce ∧ stdDecode r.sigB64 = some sig ∧
      x.memory.userKey 1 = some pubKey ∧
      ∃ key, demoEd25519.pub key = pubKey ∧ demoEd25519.sign key nonce = sig := by
  obtain ⟨x, reply, past, hx, hlog, -, -⟩ := twoAddresses_log
  exact ⟨x, reply, past, hx.any, hlog, write_of_request hx.any hlog⟩

/-- The nonce of Alice's update was got for another address. -/
theorem other_address : ¬ ∀ (E : Ed25519) (W : WgTypes) (x : Config ℕ Memory Task Event),
    (control E W).Reach Fresh x → ∀ later past t u a, x.log = later ++ .updated t u a :: past →
      ∀ nonce, nonceOf t past = some nonce →
        ∀ t' a' time, .issued t' u nonce a' time ∈ past → a = a' := by
  intro hall
  obtain ⟨x, reply, past, hx, hlog, hnonce, hissued⟩ := twoAddresses_log
  exact absurd (hall _ _ x hx _ _ _ _ _ hlog _ hnonce _ _ _ hissued) (by decide)

end GuardedIM.Control
