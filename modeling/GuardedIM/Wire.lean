import Mathlib.Data.List.Perm.Basic
import GuardedIM.Framing
import GuardedIM.Registration

/-!
# Several threads on one connection

Any handler may call `send_payload` on any connection, and nothing keeps two calls on the
same connection apart: `sendall` writes its bytes in as many parts as the transport takes
them, and the parts of two calls can mix. The shared memory here is the byte stream the
recipient reads, a thread is a handler, and a step is a call or one partial write.

* `stream_whole`: in every run in which a part is written only while no other call is in
  the middle of its frame, the stream is whole frames, one for each call, and the
  recipient reads them.
* `torn_frame`: two calls whose parts mix; their frames are lost, whatever the cipher is.
-/

namespace GuardedIM

open Interleave Interleave.Program Chunked

/-- Where a handler is with respect to the connection. -/
inductive Sender where
  /-- in no call -/
  | idle
  /-- in `sendall` of the frame of `body`, with `rest` still to be written -/
  | sending (body rest : Bytes)

/-- What happens next in a thread. -/
inductive SenderInput where
  /-- `send_payload(conn, aes_key, payload)`, with the bytes of `os.urandom(12)` -/
  | call (payload : Payload) (nonce : Bytes)
  /-- `sendall` writes that many bytes -/
  | write (n : ℕ)

/-- The calls and their ends. -/
inductive SenderEvent where
  /-- thread `t` has a frame to send -/
  | called (t : ℕ) (body : Bytes)
  /-- the last byte of it is written -/
  | finished (t : ℕ) (body : Bytes)

variable (A : Aead) (key : Key)

/-- The body `send_payload` puts into its frame; `none` when `encrypt_message` or
`struct.pack` raises. -/
def sealPayload (payload : Payload) (nonce : Bytes) : Option Bytes :=
  match encryptMessage A nonce (Json.dumps (.obj payload)) key with
  | .ok encrypted => if encrypted.length < 4294967296 then some encrypted else none
  | .error _ => none

/-- One step of a thread in `send_payload`; a part that is written is not empty. -/
def sendall (t : ℕ) (stream : Bytes) : Sender → SenderInput →
    Option (Bytes × Sender × List SenderEvent)
  | .idle, .call payload nonce =>
    match sealPayload A key payload nonce with
    | some body => some (stream, .sending body (frame body), [.called t body])
    | none => some (stream, .idle, [])
  | .sending body rest, .write n =>
    if 0 < n ∧ n < rest.length then
      some (stream ++ rest.take n, .sending body (rest.drop n), [])
    else if n = rest.length then some (stream ++ rest, .idle, [.finished t body])
    else none
  | _, _ => none

/-- All threads on one connection, whose key is `key`. -/
def wire : Program ℕ Bytes Sender SenderInput SenderEvent where
  memory := []
  start := .idle
  step := sendall A key

/-- The calls, newest first. -/
def called : List SenderEvent → List (ℕ × Bytes) :=
  List.filterMap fun
    | .called t body => some (t, body)
    | _ => none

/-- The calls that are over, newest first. -/
def finished : List SenderEvent → List (ℕ × Bytes) :=
  List.filterMap fun
    | .finished t body => some (t, body)
    | _ => none

/-- A part of the frame has been written, and a part has not. -/
def Sender.InMiddle : Sender → Prop
  | .idle => False
  | .sending body rest => rest ≠ frame body

/-- The call a thread is in. -/
def Sender.open : Sender → List Bytes
  | .idle => []
  | .sending body _ => [body]

/-- A thread writes only while no other is in the middle of a frame. -/
def Undisturbed (x : Config ℕ Bytes Sender SenderEvent) (a : ℕ × SenderInput) : Prop :=
  ∀ n, a.2 = .write n → ∀ t, t ≠ a.1 → ¬ (x.thread t).InMiddle

/-- The bodies of one thread. -/
def bodiesOf (t : ℕ) (l : List (ℕ × Bytes)) : List (ℕ × Bytes) := l.filter fun f => f.1 = t

/-- What holds as long as writes are undisturbed. -/
structure Whole (x : Config ℕ Bytes Sender SenderEvent) : Prop where
  /-- a call has some of its frame left to write -/
  open_rest : ∀ t body rest, x.thread t = .sending body rest → rest ≠ [] ∧ Fits body
  /-- the stream is the frames of the calls that are over, and possibly the first part of
  the frame of one other, which is the only one in its middle -/
  stream : ∃ part, x.memory = (finished x.log).reverse.flatMap (fun f => frame f.2) ++ part ∧
    ((part = [] ∧ ∀ t, ¬ (x.thread t).InMiddle) ∨
      ∃ t body rest, x.thread t = .sending body rest ∧ frame body = part ++ rest ∧
        ∀ t', t' ≠ t → ¬ (x.thread t').InMiddle)
  /-- every call is over or open -/
  calls : ∀ t, bodiesOf t (called x.log) =
    (x.thread t).open.map (t, ·) ++ bodiesOf t (finished x.log)
  /-- and has a frame the header can describe -/
  fits : ∀ f ∈ finished x.log, Fits f.2

variable {A key}

theorem frame_ne_nil (body : Bytes) : frame body ≠ [] := by
  intro h
  have := congrArg List.length h
  rw [length_frame, List.length_nil] at this
  omega

theorem sealPayload_fits {payload : Payload} {nonce body : Bytes}
    (h : sealPayload A key payload nonce = some body) : Fits body := by
  rw [sealPayload] at h
  split at h
  · split_ifs at h with hfit
    exact Option.some.inj h ▸ hfit
  · cases h

theorem whole_init : Whole (wire A key).init where
  open_rest _ _ _ h := nomatch h
  stream := ⟨[], rfl, .inl ⟨rfl, fun _ h => h⟩⟩
  calls _ := rfl
  fits _ h := nomatch h

/-- The other threads are where they were. -/
theorem inMiddle_after {x : Config ℕ Bytes Sender SenderEvent} {t : ℕ}
    {m : Bytes × Sender × List SenderEvent} (hm : ¬ m.2.1.InMiddle)
    (hother : ∀ t', t' ≠ t → ¬ (x.thread t').InMiddle) (t' : ℕ) :
    ¬ ((after x t m).thread t').InMiddle := by
  by_cases ht : t' = t
  · subst ht
    rwa [after_thread_self]
  · rw [after_thread_ne _ _ ht]
    exact hother t' ht

/-- A call begins: nothing is written yet. -/
theorem Whole.call {x : Config ℕ Bytes Sender SenderEvent} (h : Whole x) {t : ℕ} {body : Bytes}
    (ht : x.thread t = .idle) (hfit : Fits body) :
    Whole (after x t (x.memory, .sending body (frame body), [.called t body])) := by
  refine ⟨?_, ?_, ?_, h.fits⟩
  · intro t' body' rest' ht'
    by_cases htt : t' = t
    · subst htt
      rw [after_thread_self] at ht'
      obtain ⟨rfl, rfl⟩ := Sender.sending.inj ht'
      exact ⟨frame_ne_nil body, hfit⟩
    · rw [after_thread_ne _ _ htt] at ht'
      exact h.open_rest t' body' rest' ht'
  · obtain ⟨part, hmem, hpart⟩ := h.stream
    refine ⟨part, hmem, ?_⟩
    rcases hpart with ⟨rfl, hnone⟩ | ⟨t', body', rest', ht', hframe, hother⟩
    · exact .inl ⟨rfl, inMiddle_after (fun hm => hm rfl) fun t' _ => hnone t'⟩
    · have htt : t' ≠ t := by
        rintro rfl
        rw [ht] at ht'
        cases ht'
      refine .inr ⟨t', body', rest', ?_, hframe, fun t₂ ht₂ => ?_⟩
      · rw [after_thread_ne _ _ htt, ht']
      · by_cases h₂ : t₂ = t
        · subst h₂
          rw [after_thread_self]
          exact fun hm => hm rfl
        · rw [after_thread_ne _ _ h₂]
          exact hother t₂ ht₂
  · intro t'
    have hcalls := h.calls t'
    by_cases htt : t' = t
    · subst htt
      rw [ht] at hcalls
      rw [after_thread_self]
      simp only [after_log, called, finished, bodiesOf, Sender.open, List.map_nil,
        List.nil_append, List.map_cons] at hcalls ⊢
      simp [hcalls]
    · rw [after_thread_ne _ _ htt]
      simp only [after_log, called, finished, bodiesOf] at hcalls ⊢
      simp [hcalls, Ne.symm htt]

/-- Undisturbed, the thread that writes goes on where the stream stops. -/
theorem Whole.part {x : Config ℕ Bytes Sender SenderEvent} (h : Whole x) {t : ℕ}
    {body rest : Bytes} (ht : x.thread t = .sending body rest)
    (hother : ∀ t', t' ≠ t → ¬ (x.thread t').InMiddle) : ∃ part,
      x.memory = (finished x.log).reverse.flatMap (fun f => frame f.2) ++ part ∧
      frame body = part ++ rest := by
  have hrest : ∀ {t' body' rest'}, x.thread t' = .sending body' rest' →
      ¬ (x.thread t').InMiddle → rest' = frame body' := by
    intro t' body' rest' ht' hnot
    rw [ht'] at hnot
    exact not_not.mp hnot
  obtain ⟨part, hmem, hpart⟩ := h.stream
  refine ⟨part, hmem, ?_⟩
  rcases hpart with ⟨rfl, hnone⟩ | ⟨t', body', rest', ht', hframe, hother'⟩
  · rw [hrest ht (hnone t), List.nil_append]
  · by_cases htt : t' = t
    · subst htt
      rw [ht] at ht'
      obtain ⟨rfl, rfl⟩ := Sender.sending.inj ht'
      exact hframe
    · -- neither of the two is in its middle, so nothing of a frame is written
      rw [hrest ht' (hother t' htt), List.self_eq_append_left] at hframe
      rw [hframe, hrest ht (hother' t (Ne.symm htt)), List.nil_append]

/-- A part is written, and more is to come. -/
theorem Whole.write {x : Config ℕ Bytes Sender SenderEvent} (h : Whole x) {t n : ℕ}
    {body rest : Bytes} (ht : x.thread t = .sending body rest) (hn : n < rest.length)
    (hother : ∀ t', t' ≠ t → ¬ (x.thread t').InMiddle) :
    Whole (after x t (x.memory ++ rest.take n, .sending body (rest.drop n), [])) := by
  obtain ⟨part, hmem, hframe⟩ := h.part ht hother
  refine ⟨?_, ?_, ?_, h.fits⟩
  · intro t' body' rest' ht'
    by_cases htt : t' = t
    · subst htt
      rw [after_thread_self] at ht'
      obtain ⟨rfl, rfl⟩ := Sender.sending.inj ht'
      refine ⟨?_, (h.open_rest t' body rest ht).2⟩
      rw [ne_eq, List.drop_eq_nil_iff]
      omega
    · rw [after_thread_ne _ _ htt] at ht'
      exact h.open_rest t' body' rest' ht'
  · refine ⟨part ++ rest.take n, ?_, .inr ⟨t, body, rest.drop n, ?_, ?_, fun t' ht' => ?_⟩⟩
    · rw [after_memory, hmem, List.append_assoc]
      rfl
    · rw [after_thread_self]
    · rw [List.append_assoc, List.take_append_drop, hframe]
    · rw [after_thread_ne _ _ ht']
      exact hother t' ht'
  · intro t'
    have hcalls := h.calls t'
    by_cases htt : t' = t
    · subst htt
      rw [ht] at hcalls
      rw [after_thread_self]
      exact hcalls
    · rw [after_thread_ne _ _ htt]
      exact hcalls

/-- The last part is written: one more whole frame. -/
theorem Whole.finish {x : Config ℕ Bytes Sender SenderEvent} (h : Whole x) {t : ℕ}
    {body rest : Bytes} (ht : x.thread t = .sending body rest)
    (hother : ∀ t', t' ≠ t → ¬ (x.thread t').InMiddle) :
    Whole (after x t (x.memory ++ rest, .idle, [.finished t body])) := by
  obtain ⟨part, hmem, hframe⟩ := h.part ht hother
  have hfin : finished (after x t (x.memory ++ rest, Sender.idle,
      [SenderEvent.finished t body])).log = (t, body) :: finished x.log := rfl
  refine ⟨?_, ⟨[], ?_, .inl ⟨rfl, inMiddle_after id hother⟩⟩, ?_, ?_⟩
  · intro t' body' rest' ht'
    by_cases htt : t' = t
    · subst htt
      rw [after_thread_self] at ht'
      cases ht'
    · rw [after_thread_ne _ _ htt] at ht'
      exact h.open_rest t' body' rest' ht'
  · rw [hfin, after_memory, hmem, List.reverse_cons, List.flatMap_append, List.flatMap_singleton,
      hframe, List.append_nil, List.append_assoc]
  · intro t'
    have hcalls := h.calls t'
    rw [hfin]
    by_cases htt : t' = t
    · subst htt
      rw [ht] at hcalls
      rw [after_thread_self]
      simp only [after_log, called, bodiesOf, Sender.open, List.map_nil, List.nil_append,
        List.map_cons] at hcalls ⊢
      simp [hcalls]
    · rw [after_thread_ne _ _ htt]
      simp only [after_log, called, bodiesOf] at hcalls ⊢
      simp [hcalls, Ne.symm htt]
  · rw [hfin]
    exact List.forall_mem_cons.mpr ⟨(h.open_rest t body rest ht).2, h.fits⟩

/-- **Undisturbed writes keep the stream whole.** -/
theorem whole_reach {x : Config ℕ Bytes Sender SenderEvent}
    (h : (wire A key).Reach Undisturbed x) : Whole x := by
  refine h.invariant whole_init ?_
  rintro z t i m - hz hC hm
  replace hm : sendall A key t z.memory (z.thread t) i = some m := hm
  cases ht : z.thread t with
  | idle =>
    cases i with
    | call payload nonce =>
      rw [ht, sendall] at hm
      split at hm
      · rename_i body hbody
        obtain rfl := Option.some.inj hm
        exact hz.call ht (sealPayload_fits hbody)
      · obtain rfl := Option.some.inj hm
        have hsame : after z t (z.memory, Sender.idle, []) = z := by
          rw [after, ← ht, Function.update_eq_self]
          rfl
        rwa [hsame]
    | write n =>
      rw [ht] at hm
      cases hm
  | sending body rest =>
    cases i with
    | call payload nonce =>
      rw [ht] at hm
      cases hm
    | write n =>
      have hother := hC n rfl
      rw [ht, sendall] at hm
      split_ifs at hm with hmore hlast
      · obtain rfl := Option.some.inj hm
        exact hz.write ht hmore.2 hother
      · obtain rfl := Option.some.inj hm
        exact hz.finish ht hother

/-- The same bodies from every thread are the same bodies. -/
theorem perm_of_bodiesOf {l₁ l₂ : List (ℕ × Bytes)} (h : ∀ t, bodiesOf t l₁ = bodiesOf t l₂) :
    l₁.Perm l₂ := by
  rw [List.perm_iff_count]
  rintro ⟨t, body⟩
  have hcount : ∀ l : List (ℕ × Bytes), List.count (t, body) l =
      List.count (t, body) (bodiesOf t l) := by
    intro l
    rw [bodiesOf, List.count_filter]
    exact decide_eq_true rfl
  rw [hcount l₁, hcount l₂, h t]

/-- **Frames arrive whole** in every run in which a thread writes a part only while no
other thread is in the middle of its frame: the stream is whole frames and the beginning of
at most one more, and when no call is open, it is one frame for each call and the recipient
reads their bodies. -/
theorem stream_whole {x : Config ℕ Bytes Sender SenderEvent}
    (h : (wire A key).Reach Undisturbed x) :
    (∃ part, x.memory = (finished x.log).reverse.flatMap (fun f => frame f.2) ++ part ∧
      (part = [] ∨ ∃ t body rest, x.thread t = .sending body rest ∧
        frame body = part ++ rest)) ∧
      ((∀ t, x.thread t = .idle) →
        x.memory = (finished x.log).reverse.flatMap (fun f => frame f.2) ∧
        (called x.log).Perm (finished x.log) ∧
        readFrames [x.memory] =
          ((finished x.log).reverse.map Prod.snd).takeWhile (·.length ≤ maxFrameSize)) := by
  have hw := whole_reach h
  obtain ⟨part, hmem, hpart⟩ := hw.stream
  refine ⟨⟨part, hmem, ?_⟩, fun hidle => ?_⟩
  · rcases hpart with ⟨rfl, -⟩ | ⟨t, body, rest, ht, hframe, -⟩
    · exact .inl rfl
    · exact .inr ⟨t, body, rest, ht, hframe⟩
  · have hnil : part = [] := by
      rcases hpart with ⟨rfl, -⟩ | ⟨t, body, rest, ht, -, -⟩
      · rfl
      · rw [hidle t] at ht
        cases ht
    rw [hnil, List.append_nil] at hmem
    refine ⟨hmem, perm_of_bodiesOf fun t => ?_, ?_⟩
    · have hcalls := hw.calls t
      rw [hidle t] at hcalls
      exact hcalls
    · refine readFrames_frames ?_ ?_
      · intro f hf
        obtain ⟨⟨t, body⟩, hbody, rfl⟩ := List.mem_map.mp hf
        exact hw.fits _ (List.mem_reverse.mp hbody)
      · rw [List.flatten_singleton, hmem, List.flatMap_map]

/-! ## Runs -/

theorem next_call {x : Config ℕ Bytes Sender SenderEvent} {t : ℕ} {payload : Payload}
    {nonce body : Bytes} (ht : x.thread t = .idle)
    (hbody : sealPayload A key payload nonce = some body) :
    (wire A key).next x (t, .call payload nonce) =
      some (after x t (x.memory, .sending body (frame body), [.called t body])) := by
  simp only [Program.next, wire, ht, sendall, hbody, Option.map_some]

theorem next_write {x : Config ℕ Bytes Sender SenderEvent} {t n : ℕ} {body rest : Bytes}
    (ht : x.thread t = .sending body rest) (h₀ : 0 < n) (hn : n < rest.length) :
    (wire A key).next x (t, .write n) =
      some (after x t (x.memory ++ rest.take n, .sending body (rest.drop n), [])) := by
  simp only [Program.next, wire, ht, sendall, if_pos (And.intro h₀ hn), Option.map_some]

theorem next_finish {x : Config ℕ Bytes Sender SenderEvent} {t : ℕ} {body rest : Bytes}
    (ht : x.thread t = .sending body rest) :
    (wire A key).next x (t, .write rest.length) =
      some (after x t (x.memory ++ rest, .idle, [.finished t body])) := by
  simp only [Program.next, wire, ht, sendall, lt_irrefl, and_false, if_false, if_true,
    Option.map_some]

/-- The body of a short error payload, for any cipher. -/
theorem sealPayload_error (A : Aead) (nonce : Bytes) (hnonce : nonce.length = 12) :
    ∃ body, sealPayload A demoKey (errorPayload []) nonce = some body ∧ body.length = 60 := by
  have hascii : ∀ c ∈ Json.dumps (.obj (errorPayload [])), c.val < 0x80 := by
    intro c hc
    exact of_decide_eq_true (List.all_eq_true.mp
      (by decide : (Json.dumps (.obj (errorPayload []))).all (fun c => c.val < 0x80) = true) c hc)
  rcases hbody : encryptMessage A nonce (Json.dumps (.obj (errorPayload []))) demoKey with e | body
  · rw [encryptMessage, if_pos (by decide), encode_ascii hascii] at hbody
    cases hbody
  · have hlen : body.length = 60 := by
      rw [length_encryptMessage A hnonce hascii hbody]
      decide
    refine ⟨body, ?_, hlen⟩
    simp only [sealPayload, hbody]
    rw [if_pos (by omega)]

/-- A run in which only threads 0 and 1 make calls. -/
def OnlyTwo (A : Aead) (key : Bytes) (x : Config ℕ Bytes Sender SenderEvent) : Prop :=
  (wire A key).Reach Undisturbed x ∧ ∀ t, 2 ≤ t → x.thread t = .idle

/-- One of two threads goes on, undisturbed as the other has written nothing of its frame or
all of it. -/
theorem OnlyTwo.step {x : Config ℕ Bytes Sender SenderEvent} (h : OnlyTwo A key x) {t r : ℕ}
    {i : SenderInput} {m : Bytes × Sender × List SenderEvent} (ht : t + r = 1)
    (hnot : ¬ (x.thread r).InMiddle)
    (hnext : (wire A key).next x (t, i) = some (after x t m)) : OnlyTwo A key (after x t m) := by
  refine ⟨h.1.step ?_ hnext, fun u hu => ?_⟩
  · intro n _ u hu
    by_cases hut : u = r
    · rw [hut]
      exact hnot
    · rw [h.2 u (by change u ≠ t at hu; omega)]
      exact id
  · rw [after_thread_ne _ _ (by omega)]
    exact h.2 u hu

/-- A cipher that hides nothing; its tag is 16 zero bytes. -/
def demoAead : Aead where
  encrypt _ _ data := data ++ List.replicate 16 0
  decrypt _ _ data := some (data.take (data.length - 16))
  decrypt_encrypt _ _ data := by simp
  length_encrypt _ _ data := by simp

/-- Two handlers have calls open at once and each writes its frame in two parts, the second
one only when the first has finished. -/
theorem stream_whole_two_calls :
    ∃ x body₀ body₁, (wire demoAead demoKey).Reach Undisturbed x ∧
      (called x.log).Perm [(0, body₀), (1, body₁)] ∧ x.memory = frame body₀ ++ frame body₁ ∧
      readFrames [x.memory] = [body₀, body₁] := by
  obtain ⟨body₀, hbody₀, hlen₀⟩ := sealPayload_error demoAead (List.replicate 12 0) rfl
  obtain ⟨body₁, hbody₁, hlen₁⟩ := sealPayload_error demoAead (List.replicate 12 1) rfl
  have hframe₀ : (frame body₀).length = 64 := by rw [length_frame, hlen₀]
  have hframe₁ : (frame body₁).length = 64 := by rw [length_frame, hlen₁]
  have hne : (1 : ℕ) ≠ 0 := Nat.one_ne_zero
  have h₀ : OnlyTwo demoAead demoKey _ := ⟨reach_init, fun _ _ => rfl⟩
  -- both calls are open before anything is written
  have h₁ := h₀.step (r := 1) rfl id (next_call (t := 0) rfl hbody₀)
  have h₂ := h₁.step (r := 0) rfl (by rw [after_thread_self]; exact fun h => h rfl)
    (next_call (t := 1) (after_thread_ne _ _ hne) hbody₁)
  have h₃ := h₂.step (t := 0) (i := .write 4) rfl
    (by rw [after_thread_self]; exact fun h => h rfl)
    (next_write ((after_thread_ne _ _ hne.symm).trans (after_thread_self ..)) (by decide)
      (by omega))
  have h₄ := h₃.step rfl (by rw [after_thread_ne _ _ hne, after_thread_self]; exact fun h => h rfl)
    (next_finish (after_thread_self ..))
  have h₅ := h₄.step (t := 1) (i := .write 10) rfl (by rw [after_thread_self]; exact id)
    (next_write ((after_thread_ne _ _ hne).trans ((after_thread_ne _ _ hne).trans
      (after_thread_self ..))) (by decide) (by omega))
  have h₆ := h₅.step rfl (by rw [after_thread_ne _ _ hne.symm, after_thread_self]; exact id)
    (next_finish (after_thread_self ..))
  obtain ⟨hmem, hperm, hread⟩ := (stream_whole h₆.1).2 fun t => by
    by_cases ht₁ : t = 1
    · rw [ht₁, after_thread_self]
    by_cases ht₀ : t = 0
    · rw [ht₀, after_thread_ne _ _ hne.symm, after_thread_ne _ _ hne.symm, after_thread_self]
    · exact h₆.2 t (by omega)
  refine ⟨_, body₀, body₁, h₆.1, hperm.trans (List.Perm.swap ..), hmem.trans ?_,
    hread.trans ?_⟩
  · change frame body₀ ++ (frame body₁ ++ []) = _
    rw [List.append_nil]
  · change [body₀, body₁].takeWhile (·.length ≤ maxFrameSize) = [body₀, body₁]
    refine List.takeWhile_eq_self_iff.mpr ?_
    simp [hlen₀, hlen₁, maxFrameSize]

/-- **Two calls mix**: between the first two bytes of a frame and the rest of it another
handler writes its own frame. The stream is not made of the two frames. -/
theorem torn_frame : ¬ ∃ A : Aead, ∀ x, (wire A demoKey).Reach Any x →
    (∀ t, x.thread t = .idle) →
    ∃ sent : List (ℕ × Bytes), sent.Perm (called x.log) ∧
      x.memory = sent.flatMap fun f => frame f.2 := by
  rintro ⟨A, hall⟩
  obtain ⟨body₀, hbody₀, hlen₀⟩ := sealPayload_error A (List.replicate 12 0) rfl
  obtain ⟨body₁, hbody₁, hlen₁⟩ := sealPayload_error A (List.replicate 12 1) rfl
  have hframe₀ : (frame body₀).length = 64 := by rw [length_frame, hlen₀]
  have hne : (0 : ℕ) ≠ 1 := Nat.zero_ne_one
  have h₁ := (reach_init (P := wire A demoKey) (C := Any)).step trivial
    (next_call (t := 0) rfl hbody₀)
  have h₂ := h₁.step trivial (next_call (t := 1) (after_thread_ne _ _ hne.symm) hbody₁)
  have h₃ := h₂.step (a := (0, .write 2)) trivial
    (next_write ((after_thread_ne _ _ hne).trans (after_thread_self ..)) (by decide) (by omega))
  have h₄ := h₃.step trivial
    (next_finish ((after_thread_ne _ _ hne.symm).trans (after_thread_self ..)))
  have h₅ := h₄.step trivial
    (next_finish ((after_thread_ne _ _ hne).trans (after_thread_self ..)))
  obtain ⟨sent, hperm, hmem⟩ := hall _ h₅ fun t => by
    by_cases ht₀ : t = 0
    · rw [ht₀, after_thread_self]
    by_cases ht₁ : t = 1
    · rw [ht₁, after_thread_ne _ _ hne.symm, after_thread_self]
    · rw [after_thread_ne _ _ ht₀, after_thread_ne _ _ ht₁, after_thread_ne _ _ ht₀,
        after_thread_ne _ _ ht₁, after_thread_ne _ _ ht₀]
      rfl
  have hcalled : sent.Perm [(1, body₁), (0, body₀)] := hperm
  -- the length the recipient reads first is not that of either body
  have htorn : (((frame body₀).take 2 ++ frame body₁) ++ (frame body₀).drop 2).take 4 =
      [0, 0, 0, 0] := by
    rw [frame, frame, hlen₀, hlen₁]
    rfl
  cases sent with
  | nil => exact absurd hcalled.symm.eq_nil (List.cons_ne_nil _ _)
  | cons f sent =>
    have hlen : f.2.length = 60 := by
      rcases List.mem_pair.mp (hcalled.subset (List.mem_cons_self ..)) with rfl | rfl
      · exact hlen₁
      · exact hlen₀
    have hmem' : ((frame body₀).take 2 ++ frame body₁) ++ (frame body₀).drop 2 =
        (f :: sent).flatMap fun f => frame f.2 := hmem
    have hwhole : (pack 60 ++ f.2 ++ sent.flatMap fun f => frame f.2).take 4 = [0, 0, 0, 60] := rfl
    rw [hmem', List.flatMap_cons, frame, hlen, hwhole] at htorn
    exact absurd htorn (by decide)

end GuardedIM
