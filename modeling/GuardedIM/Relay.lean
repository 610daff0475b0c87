import GuardedIM.FrameSize
import GuardedIM.Handling
import GuardedIM.Sending

/-!
# From one client to the others

A request goes over two hops: the sender's frame to the server, and the frames of what is passed on
to the recipients.

* `Relayed` is what the server owes a request that it accepts, and `relayed_forward` and
  `relayed_fanOut` say that it pays.
* `Arrives` is what becomes of a payload at a recipient.
-/

namespace GuardedIM

open Interleave Interleave.Program

/-- The server reads `body` from the client of `σ` and passes `p` on, without an exception and
without an error. However the threads are interleaved, the handler can get back to its loop, and
once it is there every recipient has one copy, unless a send has failed. -/
structure Relayed (A : Aead) (F : Json.Interpreter) (printable : CodePoint → Bool)
    (x : Config Conn Tables Phase Event) (c : Conn) (σ : Session) (body : Bytes) (now : Str)
    (p : Payload) (addressed : Str → Prop) : Prop where
  /-- the frame is within the limit -/
  fits : body.length ≤ maxFrameSize
  /-- the request in it passes all checks -/
  accepted : ∃ y a, (server printable).next x (c, received A F σ.key body now) = some y ∧
    y.thread c = .act σ a ∧ ((∃ g, a = .fanOut g p) ∨ ∃ u, a = .forward u p)
  /-- the handler is not stuck on the way -/
  returns : ∀ recipients y as z,
    (server printable).next x (c, received A F σ.key body now) = some y →
    (server printable).Run (Steady c recipients) y as z →
    (∀ r ∈ recipients, Dict.get z.memory.clients r.1 = some r.2) →
    ∃ bs z', (server printable).Run (Steady c recipients) z bs z' ∧ z'.thread c = .loop σ
  /-- and this is what it did -/
  delivers : ∀ recipients y as z,
    (server printable).next x (c, received A F σ.key body now) = some y →
    (server printable).Run (Steady c recipients) y as z → z.thread c = .loop σ →
    (∀ t q, .wrote c t q false ∉ recent c z.log) →
    PassedOn c p addressed recipients (recent c z.log)

/-- The frame with `p` is within the limit, whatever the nonce. The client of `t`, whose name is
`username`, reads it, does this with it, and goes on behind it. -/
def Arrives (A : Aead) (F : Json.Interpreter) (printable : CodePoint → Bool) (root : MediaRoot)
    (disk : Disk) (t : Target) (username : Str) (p : Payload) (effects : List Effect) : Prop :=
  ∀ nonce : Nonce, ∃ body, sealPayload A t.2 p nonce.1 = some body ∧
    body.length ≤ maxFrameSize ∧
    clientRound A F printable root username t.2 disk body = ⟨effects, true⟩ ∧
    ∀ s rest, s.flatten = frame body ++ rest →
      ∃ s', clientTurn s = (.body body, s') ∧ s'.flatten = rest

variable {A : Aead} {F : Json.Interpreter} {printable : CodePoint → Bool} {root : MediaRoot}
  {disk : Disk} {t : Target} {username : Str} {o p : Payload} {effects : List Effect}
  {x y z : Config Conn Tables Phase Event} {c : Conn} {σ : Session} {body : Bytes} {now : Str}

theorem arrives_of (hp : Json.Canonical F (.obj p)) (hkey : usable t.2 = true)
    (hlen : (Json.dumps (.obj p)).length + 28 ≤ maxFrameSize)
    (hround : receive printable root username disk (.obj p) = ⟨effects, true⟩) :
    Arrives A F printable root disk t username p effects := by
  intro nonce
  have hmax : maxFrameSize < 4294967296 := by decide
  obtain ⟨body, hbody, hbodyLen⟩ := exists_sealed (A := A) hp t.2 hkey nonce (by omega)
  have hfits : FitsFrame A p := (fitsFrame_iff hp).mpr hlen
  refine ⟨body, hbody, by omega, ?_, fun s rest hs => hfits.read nonce hbody hs⟩
  rw [clientRound, opened_sent (x := .payload p nonce) hbody hp]
  exact hround

/-- What the client sealed is what the server reads. -/
theorem received_sent (ho : Json.Canonical F (.obj o)) (nonce : Nonce)
    (hbody : sendEncrypted A σ.key (Json.dumps (.obj o)) nonce.1 = some body) (now : Str) :
    received A F σ.key body now = .frame o now := by
  have hopened : opened A F σ.key body = some (.obj o) := by
    rw [opened_sent (x := .text (Json.dumps (.obj o)) nonce) hbody trivial]
    exact Json.loads_dumps ho
  rw [received, hopened]

/-- And how long it is. -/
theorem length_sent (ho : Json.Canonical F (.obj o)) (nonce : Nonce)
    (hbody : sendEncrypted A σ.key (Json.dumps (.obj o)) nonce.1 = some body) :
    body.length = (Json.dumps (.obj o)).length + 28 := by
  rw [sendEncrypted] at hbody
  split at hbody
  · rename_i encrypted hencrypted
    split_ifs at hbody
    obtain rfl := Option.some.inj hbody
    exact length_encryptMessage A nonce.2 (Json.dumps_ascii ho) hencrypted
  · cases hbody

/-- A handler that is working, or is done, can get back to its loop. -/
theorem returns_of {recipients : List (Str × Target)}
    (h : z.thread c = .loop σ ∨ (z.thread c).busy = some σ)
    (hz : ∀ r ∈ recipients, Dict.get z.memory.clients r.1 = some r.2) :
    ∃ bs z', (server printable).Run (Steady c recipients) z bs z' ∧ z'.thread c = .loop σ := by
  rcases h with hloop | hbusy
  · exact ⟨[], z, .nil, hloop⟩
  · refine finishes hbusy fun y i hy hclients _ => ⟨fun _ hnone => ?_, fun r hr => ?_⟩
    · rw [hy] at hnone
      cases hnone
    · rw [hclients]
      exact hz r hr

/-- While the run is steady, the handler is working on the request, or back at its loop. -/
theorem busy_steady {recipients : List (Str × Target)} {as : List (Conn × Input)}
    (h : (server printable).Run (Steady c recipients) y as z) (hy : (y.thread c).busy = some σ) :
    z.thread c = .loop σ ∨ (z.thread c).busy = some σ := by
  refine steady_run (I := fun _ ph _ => ph = .loop σ ∨ ph.busy = some σ) h (.inr hy) ?_
    fun _ _ _ _ _ hph => hph
  rintro tb ph past i tb' ph' es hbusy - hm (rfl | hph)
  · exact absurd rfl hbusy
  · exact ((handleClient_moves hm).nearer hph).2.imp id fun h => h.1

/-- The step that reads the frame. -/
theorem next_received {a : Action} (hloop : x.thread c = .loop σ)
    (hreceived : received A F σ.key body now = .frame o now)
    (hd : dispatch printable σ.name now o = .ok a) :
    (server printable).next x (c, received A F σ.key body now) =
      some (after x c (x.memory, .act σ a, [.frame c o])) := by
  rw [hreceived]
  simp only [Program.next, server, hloop, handleClient, hd, Option.map_some]

/-- **One user.** -/
theorem relayed_forward {u : Str} (hloop : x.thread c = .loop σ)
    (hfits : body.length ≤ maxFrameSize)
    (hreceived : received A F σ.key body now = .frame o now)
    (hd : dispatch printable σ.name now o = .ok (.forward u p)) :
    Relayed A F printable x c σ body now p (· = u) := by
  have hnext := next_received hloop hreceived hd
  refine ⟨hfits, ⟨_, _, hnext, after_thread_self .., .inr ⟨u, rfl⟩⟩, ?_, ?_⟩
  · intro recipients y as z hy hrun hz
    obtain rfl := Option.some.inj (hnext.symm.trans hy)
    exact returns_of (busy_steady hrun (by rw [after_thread_self]; rfl)) hz
  · intro recipients y as z hy hrun hback hok
    obtain rfl := Option.some.inj (hnext.symm.trans hy)
    exact forward_delivers hrun (after_thread_self ..) (recent_frame o) hback hok

/-- **A group**, to which the sender belongs. -/
theorem relayed_fanOut {g : Str} {ms : List Str} (hx : (server printable).Reach Any x)
    (hloop : x.thread c = .loop σ) (hfits : body.length ≤ maxFrameSize)
    (hreceived : received A F σ.key body now = .frame o now)
    (hd : dispatch printable σ.name now o = .ok (.fanOut g p))
    (hg : Dict.get x.memory.groups g = some ms) (hσ : σ.name ∈ ms) :
    Relayed A F printable x c σ body now p (fun m => m ∈ ms ∧ m ≠ σ.name) := by
  have hnext := next_received hloop hreceived hd
  have hreach := hx.step (a := (c, received A F σ.key body now)) trivial hnext
  refine ⟨hfits, ⟨_, _, hnext, after_thread_self .., .inl ⟨g, rfl⟩⟩, ?_, ?_⟩
  · intro recipients y as z hy hrun hz
    obtain rfl := Option.some.inj (hnext.symm.trans hy)
    exact returns_of (busy_steady hrun (by rw [after_thread_self]; rfl)) hz
  · intro recipients y as z hy hrun hback hok
    obtain rfl := Option.some.inj (hnext.symm.trans hy)
    exact fanOut_delivers hreach hrun (after_thread_self ..) (recent_frame o) hg hσ hback hok

/-- What goes to a group of the sender and one other member, who is there, is written to them. -/
theorem exists_fanOut {g u : Str} (h : (server printable).Reach Any x)
    (hloop : x.thread c = .loop σ)
    (hd : dispatch printable σ.name now o = .ok (.fanOut g p))
    (hg : Dict.get x.memory.groups g = some [σ.name, u]) (hu : u ≠ σ.name)
    (ht : Dict.get x.memory.clients u = some t) (hkey : usable t.2 = true) :
    ∃ z, (server printable).Reach Any z ∧ .wrote c t p true ∈ z.log := by
  -- the request is read, the members are taken, the sender is skipped, the other is looked up
  let y₁ := after x c (x.memory, .act σ (.fanOut g p), [.frame c o])
  let y₂ := after y₁ c (x.memory, .cast σ [σ.name, u] p none, [])
  let y₃ := after y₂ c (x.memory, .cast σ [u] p none,
    [.looked c σ.name (Dict.get x.memory.clients σ.name)])
  let y₄ := after y₃ c (x.memory, .castTo σ t [] p none, [.looked c u (some t)])
  let y₅ := after y₄ c (x.memory, .cast σ [] p none, [sendPayload c t p true])
  have h₁ : (server printable).next x (c, .frame o now) = some y₁ := by
    simp only [Program.next, server, hloop, handleClient, hd, Option.map_some, y₁]
  have h₂ : (server printable).next y₁ (c, .run) = some y₂ := by
    have hthread : y₁.thread c = .act σ (.fanOut g p) := after_thread_self ..
    have hmemory : y₁.memory = x.memory := rfl
    have hmember : isMember σ.name (some [σ.name, u]) = true := by
      simp [isMember]
    simp only [Program.next, server, hthread, hmemory, handleClient, hg, hmember, if_true,
      Option.getD_some, Option.map_some, y₂]
  have h₃ : (server printable).next y₂ (c, .run) = some y₃ := by
    have hthread : y₂.thread c = .cast σ [σ.name, u] p none := after_thread_self ..
    have hmemory : y₂.memory = x.memory := rfl
    simp only [Program.next, server, hthread, hmemory, handleClient, y₃]
    rcases Dict.get x.memory.clients σ.name with _ | t'
    · rfl
    · simp only [if_true, Option.map_some]
  have h₄ : (server printable).next y₃ (c, .run) = some y₄ := by
    have hthread : y₃.thread c = .cast σ [u] p none := after_thread_self ..
    have hmemory : y₃.memory = x.memory := rfl
    simp only [Program.next, server, hthread, hmemory, handleClient, ht, if_neg hu,
      Option.map_some, y₄]
  have h₅ : (server printable).next y₄ (c, .sent true) = some y₅ := by
    have hthread : y₄.thread c = .castTo σ t [] p none := after_thread_self ..
    have hmemory : y₄.memory = x.memory := rfl
    simp only [Program.next, server, hthread, hmemory, handleClient, hkey, Bool.and_true, if_true,
      Option.map_some, y₅]
  have hlooked := (((h.step trivial h₁).step trivial h₂).step trivial h₃).step trivial h₄
  refine ⟨y₅, hlooked.step trivial h₅, ?_⟩
  show _ ∈ sendPayload c t p true :: y₄.log
  rw [sendPayload, hkey, Bool.true_and]
  exact List.mem_cons_self ..

/-- Alice at her frame loop, with Bob in the table and in a group with her. -/
theorem exists_team : ∃ x : Config Conn Tables Phase Event, (server fun _ => true).Reach Any x ∧
    x.thread 0 = .loop ⟨demoKey, str "alice"⟩ ∧
    Dict.get x.memory.clients (str "bob") = some (1, demoKey) ∧
    Dict.get x.memory.groups (str "team") = some [str "alice", str "bob"] := by
  obtain ⟨x, hx, hp⟩ := exists_reach_of_exec (P := server fun _ => true)
    (join 0 (str "alice") 0 ++ join 1 (str "bob") 1 ++
      [(0, .frame (newGroup [str "bob"]) []), (0, .run), (0, .run), (0, .run), (0, .sent true),
        (0, .run), (0, .sent true)])
    (p := fun x => (x.thread 0).isAliceLoop &&
      decide (Dict.get x.memory.clients (str "bob") = some (1, demoKey)) &&
      decide (Dict.get x.memory.groups (str "team") = some [str "alice", str "bob"]))
    (by decide +kernel)
  simp only [Bool.and_eq_true, decide_eq_true_eq] at hp
  obtain ⟨⟨hloop, hbob⟩, hteam⟩ := hp
  exact ⟨x, hx, Phase.eq_loop_of_isAliceLoop hloop, hbob, hteam⟩

/-- A text to the group of Alice and Bob. -/
def teamText (message : Str) : Payload :=
  [(str "type", .str (str "group_message")), (str "to", .str (str "team")),
    (str "payload", .str message)]

theorem dispatch_teamText (now message : Str) :
    dispatch printable (str "alice") now (teamText message) = .ok (.fanOut (str "team")
      (groupText now (bindSender (str "alice") (teamText message)) (.str (str "team"))
        (.str message))) := by
  have hbranch : dispatch printable (str "alice") now (teamText message) =
      require (isSafeGroupName (.str (str "team"))) (str "Invalid group name.")
        (.ok (.fanOut (str "team") (groupText now (bindSender (str "alice") (teamText message))
          (.str (str "team")) (.str message)))) := rfl
  rw [hbranch, isSafeGroupName_iff.mpr ⟨_, rfl, by decide⟩]
  rfl

/-- A call that returns `True`, and the frame it has sent. -/
theorem exists_sent (call : Call) (h : (match call with
      | .sent text _ => (sendEncrypted demoAead demoKey text demoNonce.1).isSome
      | _ => false) = true) : ∃ text note body, call = .sent text note ∧
    sendEncrypted demoAead demoKey text demoNonce.1 = some body := by
  split at h
  · rename_i text note
    obtain ⟨body, hbody⟩ := Option.isSome_iff_exists.mp h
    exact ⟨text, note, body, rfl, hbody⟩
  · cases h

end GuardedIM
