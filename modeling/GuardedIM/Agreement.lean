import Mathlib.Data.List.Forall2
import GuardedIM.Tracking

/-!
# The windows agree

What a user reads under somebody's name was written by a handler whose session has that name, and if
there is a window behind it, it is what the window posted: nothing is made up, changed, shown twice
or out of order. This holds in every state of the chat, whatever the connections without a window
send, and whichever connections are lost on the way.

* `said_written`: what a write to a client adds to its conversations.
* `reads_reach`: what stands under a name was in writes to the client, in their order.
* `reads_posted`: those of one window's handler carry what was posted there.
* `windows_agree`, `groups_agree`: one for the conversations of two, one for those of groups.
-/

namespace GuardedIM

open Interleave Interleave.Program ChatClient ChatGui List

variable {A : Aead} {F : Json.Interpreter} {printable : CodePoint → Bool} {root : MediaRoot}
  {windows : Conn → Bool} {c d : Conn} {σ : Session} {tb tb' : Tables} {ph : Phase}
  {es : List Event} {log : List ChatEvent} {w v : Window}
  {x : Config Conn Wires Line ChatEvent}

/-! ## Windows -/

section Step

variable {g g' : Wires} {l l' : Line} {es : List ChatEvent}

/-- The user stays the same. -/
theorem Converses.username (h : Converses A F printable root windows c g l g' l' es)
    (hw : l.window = some w) :
    ∃ w', l'.window = some w' ∧ w'.gui.username = w.gui.username := by
  cases h with
  | login username key _ hwindow =>
    rw [hwindow] at hw
    cases hw
  | user w' m e hwindow | finish w' m e timestamp hwindow =>
    obtain rfl := Option.some.inj (hw.symm.trans hwindow)
    exact ⟨_, rfl, w.gui.username_handle printable _⟩
  | receive w' timestamp disk body rest running hwindow =>
    obtain rfl := Option.some.inj (hw.symm.trans hwindow)
    exact ⟨_, rfl, (w.gui.grows_round timestamp _).username⟩
  | called w' m e r text note nonce body hwindow | tooLarge w' body rest hwindow
  | lost w' hwindow =>
    obtain rfl := Option.some.inj (hw.symm.trans hwindow)
    exact ⟨_, rfl, rfl⟩
  | read | deliver | handle => exact ⟨w, hw, rfl⟩

theorem Converses.conn (h : Converses A F printable root windows c g l g' l' es) :
    ∀ e ∈ inServer es, e.conn = c := by
  cases h with
  | read w body rest σ readAt m _ _ _ _ hm | deliver data σ readAt m _ _ hm
  | handle i nonce m inbound _ hm =>
    rw [inServer_map]
    exact (handleClient_moves hm).conn
  | _ => exact fun e he => absurd he not_mem_nil

end Step

/-- There are windows where there can be some. -/
theorem isWindow_reach (h : (chat A F printable root windows).Reach Any x) :
    ∀ c w, (x.thread c).window = some w → windows c = true := by
  refine h.invariant (I := fun x => ∀ c w, (x.thread c).window = some w → windows c = true) ?_ ?_
  · rintro c w ⟨⟩
  · rintro z c i ⟨g, l, es⟩ - hz - hm d w hw
    have hmoves : Converses A F printable root windows c z.memory (z.thread c) g l es :=
      chat_converses hm
    by_cases hdc : d = c
    · subst hdc
      cases hmoves with
      | login _ _ hd => exact hd
      | user w' _ _ hwindow | called w' _ _ _ _ _ _ _ hwindow | finish w' _ _ _ hwindow
      | receive w' _ _ _ _ _ hwindow | tooLarge w' _ _ hwindow | lost w' hwindow =>
        exact hz d w' hwindow
      | read | deliver | handle =>
        rw [after_thread_self] at hw
        exact hz d w hw
    · rw [after_thread_ne _ _ hdc] at hw
      exact hz d w hw

theorem follows_reach (h : (chat A F printable root windows).Reach Any x)
    (hw : (x.thread d).window = some w) :
    Follows A F printable x.log (x.memory.inbound d) (x.thread d).outbound d (x.thread d).phase
      w := by
  have htracks := tracks_reach h d (isWindow_reach h d w hw)
  rw [hw] at htracks
  exact htracks

/-! ## What a client asks for -/

/-- What a client sends comes back as an object with the text that it is for. -/
theorem called_reach (h : (chat A F printable root windows).Reach Any x) :
    ∀ c r text, .called c r text ∈ x.log → ∃ o : Payload, Json.loads F text = some (.obj o) ∧
      ∀ k, o.textFor k = (r.textFor k).map fun s => .str (Json.rejoined s) := by
  refine h.invariant (I := fun x => ∀ c r text, .called c r text ∈ x.log →
    ∃ o : Payload, Json.loads F text = some (.obj o) ∧
      ∀ k, o.textFor k = (r.textFor k).map fun s => .str (Json.rejoined s)) ?_ ?_
  · exact fun c r text hcalled => absurd hcalled not_mem_nil
  · rintro z c i ⟨g, l, es⟩ hreach hz - hm c' r text hcalled
    have hmoves : Converses A F printable root windows c z.memory (z.thread c) g l es :=
      chat_converses hm
    rw [after_log] at hcalled
    rcases mem_append.mp hcalled with hnew | hold
    · cases hmoves with
      | called w m e r' text' note nonce body hwindow _ he hr hcall hbody =>
        obtain ⟨-, rfl, rfl⟩ := ChatEvent.called.inj (mem_singleton.mp hnew)
        exact sent_text (follows_reach hreach hwindow).named hcall
      | _ => simp at hnew
    · exact hz c' r text hold

/-- So what it asks for is what is posted. -/
theorem requested_posted (h : (chat A F printable root windows).Reach Any x) (c : Conn) (k : Str) :
    (requested F c x.log).filterMap (Payload.textFor k) =
      (posted c k x.log).map fun s => .str (Json.rejoined s) := by
  rw [requested, posted, filterMap_reverse, map_reverse, filterMap_filterMap, map_filterMap]
  congr 1
  refine filterMap_congr fun e he => ?_
  cases e with
  | called d r text =>
    obtain ⟨o, ho, htext⟩ := called_reach h d r text he
    rw [ChatEvent.request, ChatEvent.post]
    by_cases hd : d = c
    · rw [if_pos hd, if_pos hd, ho]
      exact htext k
    · rw [if_neg hd, if_neg hd]
      rfl
  | _ => rfl

/-! ## What a client shows -/

variable {y : Config Conn Tables Phase Event} {t : Target} {ok : Bool} {p o : Payload}
  {n k : Str} {m : Json}

theorem Payload.textFor_of (hk : o.conversation = some k) :
    o.textFor k = some (o.find (str "payload")) := if_pos hk

theorem Effect.said_eq_some {chat message sender : Json} :
    (Effect.received chat message sender).said n k = some m ↔ formatUsername chat = some k ∧
      formatUsername (if sender.truthy then sender else chat) = some n ∧ message = m := by
  rw [Effect.said]
  by_cases hshown : formatUsername chat = some k ∧
      formatUsername (if sender.truthy then sender else chat) = some n
  · rw [if_pos hshown, Option.some.injEq, hshown.1, hshown.2]
    simp
  · rw [if_neg hshown]
    refine Iff.intro (fun h => ?_) fun h => absurd ⟨h.1, h.2.1⟩ hshown
    cases h

/-- Only what is passed on is shown under a name. -/
theorem Payload.isForwarded_of_said (h : p.said printable n k = some m) : p.IsForwarded := by
  rw [Payload.said] at h
  by_cases hmessage : (p.find (str "type")).isStr (str "message") = true
  · exact ⟨_, Json.isStr_iff.mp hmessage, .message⟩
  rw [if_neg hmessage] at h
  by_cases hgroup : (p.find (str "type")).isStr (str "group_message") = true
  · exact ⟨_, Json.isStr_iff.mp hgroup, .groupMessage⟩
  · rw [if_neg hgroup] at h
    cases h

/-- Whom it is for stays the same. -/
theorem Passes.to_kept {username now : Str} {a : Action} (h : Passes printable username now o a)
    (ha : (∃ g, a = .fanOut g p) ∨ ∃ u, a = .forward u p) :
    p.find (str "to") = o.find (str "to") := by
  have hof : (bindSender username o).find (str "to") = o.find (str "to") :=
    find_bindSender username o (by decide)
  cases h with
  | groupMessage _ hto =>
    obtain ⟨_, ⟨⟩⟩ | ⟨_, ⟨⟩⟩ := ha
    rw [groupText_to, hto]
  | message =>
    obtain ⟨_, ⟨⟩⟩ | ⟨_, ⟨⟩⟩ := ha
    rw [find_userText _ _ (by decide), hof]
  | groupFile | userFile =>
    obtain ⟨_, ⟨⟩⟩ | ⟨_, ⟨⟩⟩ := ha
    rw [find_fileOut _ _ (by decide), hof]
  | ignore | create => obtain ⟨_, ⟨⟩⟩ | ⟨_, ⟨⟩⟩ := ha

/-- The server changes neither the text nor whom it is for. -/
theorem Yields.textFor (h : Yields printable p o) (k : Str) : p.textFor k = o.textFor k := by
  obtain ⟨username, now, a, hpass, ha⟩ := h
  rw [Payload.textFor, Payload.textFor, Payload.conversation, Payload.conversation,
    hpass.to_kept ha, (hpass.type_kept ha).1, hpass.payload_kept ha]

/-- **What the server writes is shown as it was meant**: under the name of the session that asked
for it, in the conversation with it, or in that of a group that has both. -/
theorem said_written (hy : (server printable).Reach Any y) (hw : .wrote c t p ok ∈ y.log)
    (hsaid : p.said printable n k = some m) :
    ∃ σ u, .registered c σ ∈ y.log ∧ .registered t.1 ⟨t.2, u⟩ ∈ y.log ∧
      (σ.name = k ∧ p.textFor u = some m ∨ σ.name = n ∧ p.textFor k = some m ∧
        ∃ g ms, k = cp '#' :: g ∧ Stored y.log g ms ∧ n ∈ ms ∧ u ∈ ms) := by
  have hp := Payload.isForwarded_of_said hsaid
  obtain ⟨later, past, hlog⟩ := append_of_mem hw
  have hjust := authorised_log hy
  rw [hlog] at hjust
  obtain ⟨σ, o, u, hauth⟩ := hjust.at c t p ok rfl hp
  have hpast : y.log = (later ++ [.wrote c t p ok]) ++ past := by
    rw [hlog, append_assoc, singleton_append]
  have hmem : ∀ {e}, e ∈ past → e ∈ y.log := fun he => hpast ▸ mem_append_right _ he
  have hname := (names_reach hy).1 c σ (hmem hauth.session)
  obtain ⟨now, a, hpass, ha⟩ := hauth.passed
  have htype := (hpass.type_kept ha).1
  refine ⟨σ, u, hmem hauth.session, hmem hauth.looked.registered, ?_⟩
  rw [Payload.said] at hsaid
  by_cases hmessage : (p.find (str "type")).isStr (str "message") = true
  · have ho := htype.symm.trans (Json.isStr_iff.mp hmessage)
    have htext : o.IsText := .inl ho
    rw [if_pos hmessage, Effect.said_eq_some, hauth.sender, hname.conversation.formatUsername_self]
      at hsaid
    obtain ⟨hk, -, rfl⟩ := hsaid
    -- the recipient is the one that was asked for
    have hto : p.find (str "to") = .str u := by
      rw [hpass.to_kept ha]
      rcases hauth.addressed with (⟨-, hu⟩ | ⟨hfile, -⟩) | ⟨g, -, ⟨hgroup, -⟩ | ⟨hfile, -⟩, -⟩
      · exact hu
      · exact absurd hfile htext.not_file
      · exact absurd (Json.str.inj (ho.symm.trans hgroup)) (by decide)
      · exact absurd hfile htext.not_file
    refine .inl ⟨Option.some.inj hk, Payload.textFor_of ?_⟩
    rw [Payload.conversation, hto]
    exact if_pos hmessage
  rw [if_neg hmessage] at hsaid
  by_cases hgroup : (p.find (str "type")).isStr (str "group_message") = true
  · have ho := htype.symm.trans (Json.isStr_iff.mp hgroup)
    have htext : o.IsText := .inr ho
    -- and so is the group
    obtain ⟨g, ms, hto, hstored, hσ, hu⟩ : ∃ g ms, o.find (str "to") = .str g ∧
        Stored past g ms ∧ σ.name ∈ ms ∧ u ∈ ms := by
      rcases hauth.addressed with (⟨hdirect, -⟩ | ⟨hfile, -⟩) |
        ⟨g, ms, ⟨-, hg⟩ | ⟨hfile, -⟩, hstored, -, hσ, hu, -⟩
      · exact absurd (Json.str.inj (ho.symm.trans hdirect)) (by decide)
      · exact absurd hfile htext.not_file
      · exact ⟨g, ms, hg, hstored, hσ, hu⟩
      · exact absurd hfile htext.not_file
    have hg : SafeName 48 g := by
      cases hpass with
      | groupMessage _ hto' hg => exact Json.str.inj (hto'.symm.trans hto) ▸ hg
      | message ht => exact absurd (Json.str.inj (ho.symm.trans ht)) (by decide)
      | groupFile ht hfile | userFile ht hfile => exact absurd ⟨_, ht, hfile⟩ htext.not_file
      | ignore | create => obtain ⟨_, ⟨⟩⟩ | ⟨_, ⟨⟩⟩ := ha
    rw [← hpass.to_kept ha] at hto
    rw [if_pos hgroup, Effect.said_eq_some, hauth.sender, hto, hashed,
      hname.conversation.truthy, if_pos rfl, hname.conversation.formatUsername_self] at hsaid
    obtain ⟨hk, hn, rfl⟩ := hsaid
    have hkey : formatUsername (.str (cp '#' :: g)) = some k := hk
    rw [hg.group.formatUsername_self] at hkey
    obtain rfl := Option.some.inj hkey
    obtain rfl := Option.some.inj hn
    refine .inr ⟨rfl, Payload.textFor_of ?_, g, ms, rfl, hpast ▸ hstored.append _, hσ, hu⟩
    rw [Payload.conversation, hto]
    dsimp only
    rw [if_neg hmessage, if_pos hgroup]
  · rw [if_neg hgroup] at hsaid
    cases hsaid

/-! ## What was heard -/

section Lists

variable {α β γ : Type*} {R : α → β → Prop} {f : α → Option γ} {l : List α}

/-- A selection of a selection. -/
theorem filterMap_sublist_filterMap {g : α → Option γ}
    (h : ∀ a ∈ l, ∀ b, f a = some b → g a = some b) : l.filterMap f <+ l.filterMap g := by
  induction l with
  | nil => exact nil_sublist _
  | cons a l ih =>
    have htail := ih fun a' ha' => h a' (mem_cons_of_mem _ ha')
    rcases hf : f a with _ | b
    · rw [filterMap_cons_none hf]
      exact htail.trans ((sublist_cons_self a l).filterMap g)
    · rw [filterMap_cons_some hf, filterMap_cons_some (h a (mem_cons_self ..) b hf)]
      exact htail.cons_cons b

/-- A selection from what is related, item by item. -/
theorem filterMap_sublist_of_forall₂ {g : β → Option γ} {l' : List β} (h : SublistForall₂ R l l')
    (hfg : ∀ a ∈ l, ∀ b, R a b → ∀ m, f a = some m → g b = some m) :
    l.filterMap f <+ l'.filterMap g := by
  induction h with
  | nil => exact nil_sublist _
  | @cons a b l l' hab _ ih =>
    have htail := ih fun a' ha' => hfg a' (mem_cons_of_mem _ ha')
    rcases hf : f a with _ | m
    · rw [filterMap_cons_none hf]
      exact htail.trans ((sublist_cons_self b l').filterMap g)
    · rw [filterMap_cons_some hf, filterMap_cons_some (hfg a (mem_cons_self ..) b hab m hf)]
      exact htail.cons_cons m
  | @cons_right b l l' _ ih => exact (ih hfg).trans ((sublist_cons_self b l').filterMap g)

end Lists

/-- **What a window shows was written to it**, in this order. -/
theorem reads_reach (h : (chat A F printable root windows).Reach Any x)
    (hw : (x.thread d).window = some w) : ∃ reads, reads <+ arrivals d (inServer x.log) ∧
      ∀ n k, n ∉ ChatGui.reserved → k ≠ str "System" →
        w.gui.saidBy n k = reads.filterMap fun e => e.2.said printable n k := by
  have hfollows := follows_reach h hw
  have hsub : readBy d x.log <+ (arrivals d (inServer x.log)).map fun e => some (.obj e.2) :=
    (sublist_append_left _ _).trans hfollows.read
  obtain ⟨reads, hreads, hread⟩ := sublist_map_iff.mp hsub
  refine ⟨reads, hreads, fun n k hn hk => ?_⟩
  rw [hfollows.shown n k hn hk, hread, filterMap_map]
  rfl

/-- What arrived from one connection was passed on for it. -/
theorem arrivals_passedOn_sublist (log : List Event) :
    ((arrivals d log).filter (·.1 = c)).filterMap (fun e => e.2.said printable n k) <+
      (passedOn c d log).reverse.filterMap (Payload.said printable n k) := by
  rw [arrivals, passedOn, filter_reverse, filterMap_reverse, filterMap_reverse, reverse_sublist,
    filter_filterMap, filterMap_filterMap, filterMap_filterMap]
  refine filterMap_sublist_filterMap fun e _ m hm => ?_
  cases e with
  | wrote c' t p ok =>
    rw [Event.arrival] at hm
    split_ifs at hm with ht
    · rw [Option.filter_some] at hm
      split_ifs at hm with hc
      · have hc : c' = c := of_decide_eq_true hc
        rw [Option.bind_some] at hm
        have hforwarded := isForwarded_iff.mpr (Payload.isForwarded_of_said hm)
        rw [Event.passedOn, if_pos ⟨hc, ht.1, hforwarded⟩]
        exact hm
      · cases hm
    · cases hm
  | _ => cases hm

/-- **What a window posted**: what its handler wrote, and was read, is among it, if the server has
the name of the window for it. A handler without that name has written nothing of the kind. -/
theorem reads_posted (h : (chat A F printable root windows).Reach Any x) {k' : Str}
    {reads : List (Conn × Payload)} (hreads : reads <+ arrivals d (inServer x.log))
    (hsaid : ∀ c t p ok m, .wrote c t p ok ∈ inServer x.log → t.1 = d →
      p.said printable n k = some m →
      (∃ σ, .registered c σ ∈ inServer x.log ∧ σ.name = n) ∧ p.textFor k' = some m)
    (hv : (x.thread c).window = some v) (hname : v.gui.username = n) :
    (reads.filter (·.1 = c)).filterMap (fun e => e.2.said printable n k) <+
      (posted c k' x.log).map fun s => .str (Json.rejoined s) := by
  have hserver : (server printable).Reach (FromWire A F) (serverOf x) := serverOf_reach h
  by_cases hregistered : ∃ σ, .registered c σ ∈ inServer x.log ∧ σ.name = n
  · -- the session is the only one of the connection, so the frames are where they should be
    obtain ⟨σ, hσ, hσname⟩ := hregistered
    have hknown : v.IsKnown c (inServer x.log) := by
      intro τ hτ
      rw [(sessions_reach hserver).once c τ σ hτ hσ, hσname, hname]
    have horder : KeepsOrder printable (passedOn c d (inServer x.log))
        (asked c (inServer x.log)) := (fresh_reach hserver c d).1
    have hyields : (passedOn c d (inServer x.log)).filterMap (Payload.said printable n k) <+
        (asked c (inServer x.log)).filterMap (Payload.textFor k') := by
      refine filterMap_sublist_of_forall₂ horder fun p hp o hyield m hm => ?_
      obtain ⟨e, he, hpassed⟩ := mem_filterMap.mp hp
      cases e with
      | wrote c' t p' ok =>
        rw [Event.passedOn] at hpassed
        split_ifs at hpassed with ht
        obtain rfl := Option.some.inj hpassed
        rw [← hyield.textFor]
        exact (hsaid c' t p' ok m he ht.2.1 hm).2
      | _ => cases hpassed
    have hasked : (asked c (inServer x.log)).reverse <+ requested F c x.log :=
      (sublist_append_left _ _).trans ((follows_reach h hv).asked hknown)
    calc (reads.filter (·.1 = c)).filterMap (fun e => e.2.said printable n k)
        <+ ((arrivals d (inServer x.log)).filter (·.1 = c)).filterMap
            (fun e => e.2.said printable n k) := (hreads.filter _).filterMap _
      _ <+ (passedOn c d (inServer x.log)).reverse.filterMap (Payload.said printable n k) :=
          arrivals_passedOn_sublist _
      _ <+ (asked c (inServer x.log)).reverse.filterMap (Payload.textFor k') := by
          rw [filterMap_reverse, filterMap_reverse]
          exact hyields.reverse
      _ <+ (requested F c x.log).filterMap (Payload.textFor k') := hasked.filterMap _
      _ = (posted c k' x.log).map fun s => .str (Json.rejoined s) := requested_posted h c k'
  · have hnone : (reads.filter (·.1 = c)).filterMap (fun e => e.2.said printable n k) = [] := by
      refine filterMap_eq_nil_iff.mpr fun e he => ?_
      obtain ⟨hmem, hc⟩ := mem_filter.mp he
      obtain ⟨c', p⟩ := e
      obtain rfl : c' = c := of_decide_eq_true hc
      obtain ⟨t, hwrote, ht⟩ := mem_arrivals (hreads.subset hmem)
      rcases hm : p.said printable n k with _ | m
      · rfl
      · exact absurd (hsaid c' t p true m hwrote ht hm).1 hregistered
    rw [hnone]
    exact nil_sublist _

/-- A name has no `#`. -/
theorem SafeName.head_ne {s : Str} {b : ℕ} (h : SafeName b s) : s.head? ≠ some (cp '#') := by
  intro hhead
  have hhash : safeChar (cp '#') = true := h.2.2 _ (mem_of_mem_head? hhead)
  exact absurd hhash (by decide)

/-- **Two windows agree.** What a user reads under somebody's name in the conversation with them is
what handlers wrote to that user, in this order, and each of these handlers has a session with that
name; and from each window with the name it is a selection, in order, of what was posted there for
this user, which is also what that window shows. -/
theorem windows_agree (h : (chat A F printable root windows).Reach Any x)
    (hw : (x.thread d).window = some w) (hn : n ∉ ChatGui.reserved) :
    ∃ reads : List (Conn × Payload), reads <+ arrivals d (inServer x.log) ∧
      w.gui.saidBy n n = reads.filterMap (fun e => e.2.said printable n n) ∧
      (∀ e ∈ reads, (e.2.said printable n n).isSome →
        ∃ σ, .registered e.1 σ ∈ inServer x.log ∧ σ.name = n) ∧
      ∀ c v key u, (x.thread c).window = some v → v.gui.username = n →
        .registered d ⟨key, u⟩ ∈ inServer x.log →
        (reads.filter (·.1 = c)).filterMap (fun e => e.2.said printable n n) <+
          (posted c u x.log).map (fun s => .str (Json.rejoined s)) ∧
        (v.handler = none → (posted c u x.log).map .str <+ v.gui.saidBy (str "You") u) := by
  have hserver : (server printable).Reach Any (serverOf x) := (serverOf_reach h).any
  have hsystem : n ≠ str "System" := by
    rintro rfl
    exact hn (mem_cons_self ..)
  have hsaid : ∀ c t p ok m, .wrote c t p ok ∈ inServer x.log → t.1 = d →
      p.said printable n n = some m → (∃ σ, .registered c σ ∈ inServer x.log ∧ σ.name = n) ∧
        ∃ key u, .registered d ⟨key, u⟩ ∈ inServer x.log ∧ p.textFor u = some m := by
    rintro c t p ok m hwrote rfl hm
    obtain ⟨σ, u, hσ, hu, ⟨hname, htext⟩ | ⟨hname, -, g, ms, hhash, -⟩⟩ :=
      said_written hserver hwrote hm
    · exact ⟨⟨σ, hσ, hname⟩, t.2, u, hu, htext⟩
    · have hsafe := (names_reach hserver).1 c σ hσ
      rw [hname, hhash] at hsafe
      exact absurd rfl hsafe.head_ne
  obtain ⟨reads, hreads, hshown⟩ := reads_reach h hw
  refine ⟨reads, hreads, hshown n n hn hsystem, fun e he hsome => ?_,
    fun c v key u hv hname hu => ⟨?_, fun hidle => ?_⟩⟩
  · obtain ⟨m, hm⟩ := Option.isSome_iff_exists.mp hsome
    obtain ⟨t, hwrote, ht⟩ := mem_arrivals (hreads.subset he)
    exact (hsaid _ t e.2 true m hwrote ht hm).1
  · refine reads_posted h hreads (fun c t p ok m hwrote ht hm => ?_) hv hname
    obtain ⟨hregistered, key', u', hu', htext⟩ := hsaid c t p ok m hwrote ht hm
    obtain ⟨-, rfl⟩ := Session.mk.inj ((sessions_reach hserver).once d _ _ hu hu')
    exact ⟨hregistered, htext⟩
  · have hown := (follows_reach h hv).own u ((names_reach hserver).1 d _ hu).head_ne
    rwa [Window.pending, hidle, Option.bind_none, Option.toList_none, map_nil, append_nil] at hown

/-- A user logs in next to `others` users. -/
def logIn (c : Conn) (name : Str) (others : ℕ) : List (Conn × ChatInput) :=
  (c, .login name demoKey) :: (join c name others).map fun a => (a.1, .handle a.2 demoNonce)

/-- Alice and Bob do, and they read the lists. -/
def aliceAndBob : List (Conn × ChatInput) :=
  logIn 0 (str "alice") 0 ++ logIn 1 (str "bob") 1 ++
    List.replicate 3 (0, .receive demoMoment.timestamp ⟨true, true⟩) ++
    List.replicate 2 (1, .receive demoMoment.timestamp ⟨true, true⟩)

/-- The user sends something, and the server does what it has to. -/
def served (c : Conn) (e : GuiEvent) (is : List Input) : List (Conn × ChatInput) :=
  [(c, .user demoMoment e demoNonce), (c, .read demoTime), (c, .finish demoMoment.timestamp)] ++
    is.map fun i => (c, .handle i demoNonce)

/-- Bob's session. -/
def Event.isBob : Event → Bool
  | .registered c σ => decide (c = 1) && decide (σ = ⟨demoKey, str "bob"⟩)
  | _ => false

/-- There is one text of Alice's in Bob's conversation `k`, and Alice's window is at rest. -/
def bobReads (k : Str) (x : Config Conn Wires Line ChatEvent) : Bool :=
  (x.thread 0).window.any (fun v => decide (v.gui.username = str "alice") && v.handler.isNone) &&
    (x.thread 1).window.any (fun w => decide ((w.gui.saidBy (str "alice") k).length = 1)) &&
    (inServer x.log).any Event.isBob

theorem exists_bobReads (k : Str) (as : List (Conn × ChatInput))
    (h : ((chat demoAead demoInterpreter (fun _ => true) demoRoot fun _ => true).exec
      (chat demoAead demoInterpreter (fun _ => true) demoRoot fun _ => true).init as).any
      (bobReads k) = true) :
    ∃ x w v, (chat demoAead demoInterpreter (fun _ => true) demoRoot fun _ => true).Reach Any x ∧
      (x.thread 1).window = some w ∧ (w.gui.saidBy (str "alice") k).length = 1 ∧
      (x.thread 0).window = some v ∧ v.gui.username = str "alice" ∧ v.handler = none ∧
      .registered 1 ⟨demoKey, str "bob"⟩ ∈ inServer x.log := by
  obtain ⟨x, hx, hp⟩ := exists_reach_of_exec as h
  simp only [bobReads, Bool.and_eq_true] at hp
  obtain ⟨⟨halice, hone⟩, hbob⟩ := hp
  obtain ⟨v, hv, halice⟩ := (Option.any_eq_true ..).mp halice
  obtain ⟨w, hw, hone⟩ := (Option.any_eq_true ..).mp hone
  obtain ⟨hname, hidle⟩ := Bool.and_eq_true_iff.mp halice
  obtain ⟨e, he, hbob⟩ := List.any_eq_true.mp hbob
  refine ⟨x, w, v, hx, hw, of_decide_eq_true hone, hv, of_decide_eq_true hname,
    Option.isNone_iff_eq_none.mp hidle, ?_⟩
  cases e with
  | registered c σ =>
    obtain ⟨hc, hσ⟩ := Bool.and_eq_true_iff.mp hbob
    obtain rfl : c = 1 := of_decide_eq_true hc
    obtain rfl : σ = ⟨demoKey, str "bob"⟩ := of_decide_eq_true hσ
    exact he
  | _ => cases hbob

/-- Alice posts a text, and Bob reads it. -/
theorem windows_agree_hi : ∃ (x : Config Conn Wires Line ChatEvent) (w v : Window)
    (reads : List (Conn × Payload)),
    (x.thread 1).window = some w ∧ (x.thread 0).window = some v ∧
    (w.gui.saidBy (str "alice") (str "alice")).length = 1 ∧
    reads <+ arrivals 1 (inServer x.log) ∧ w.gui.saidBy (str "alice") (str "alice") =
      reads.filterMap (fun e => e.2.said (fun _ => true) (str "alice") (str "alice")) ∧
    (reads.filter (·.1 = 0)).filterMap
        (fun e => e.2.said (fun _ => true) (str "alice") (str "alice")) <+
      (posted 0 (str "bob") x.log).map (fun s => .str (Json.rejoined s)) ∧
    (posted 0 (str "bob") x.log).map .str <+ v.gui.saidBy (str "You") (str "bob") := by
  obtain ⟨x, w, v, hx, hw, hone, hv, hname, hidle, hbob⟩ := exists_bobReads (str "alice")
    (aliceAndBob ++ [(0, .user demoMoment (.switchUser (some 0)) demoNonce)] ++
      served 0 (.send (str "hi")) [.run, .sent true] ++
      [(1, .receive demoMoment.timestamp ⟨true, true⟩)]) (by decide +kernel)
  obtain ⟨reads, hreads, hshown, -, hagree⟩ := windows_agree hx hw (n := str "alice") (by decide)
  obtain ⟨hposted, hown⟩ := hagree 0 v _ _ hv hname hbob
  exact ⟨x, w, v, reads, hw, hv, hone, hreads, hshown, hposted, hown hidle⟩

/-- **And so do the windows of a group.** What stands under a name in the conversation of a group is
what handlers wrote to the user, in this order; each of these handlers has a session with that name,
and both names are members; and from each window with the name it is a selection, in order, of what
was posted there for the group. -/
theorem groups_agree (h : (chat A F printable root windows).Reach Any x)
    (hw : (x.thread d).window = some w) (hn : n ∉ ChatGui.reserved) (g : Str) :
    ∃ reads : List (Conn × Payload), reads <+ arrivals d (inServer x.log) ∧
      w.gui.saidBy n (cp '#' :: g) =
        reads.filterMap (fun e => e.2.said printable n (cp '#' :: g)) ∧
      (∀ e ∈ reads, (e.2.said printable n (cp '#' :: g)).isSome →
        (∃ σ, .registered e.1 σ ∈ inServer x.log ∧ σ.name = n) ∧
        ∃ ms key u, Stored (inServer x.log) g ms ∧ n ∈ ms ∧
          .registered d ⟨key, u⟩ ∈ inServer x.log ∧ u ∈ ms) ∧
      ∀ c v, (x.thread c).window = some v → v.gui.username = n →
        (reads.filter (·.1 = c)).filterMap (fun e => e.2.said printable n (cp '#' :: g)) <+
          (posted c (cp '#' :: g) x.log).map fun s => .str (Json.rejoined s) := by
  have hserver : (server printable).Reach Any (serverOf x) := (serverOf_reach h).any
  have hsaid : ∀ c t p ok m, .wrote c t p ok ∈ inServer x.log → t.1 = d →
      p.said printable n (cp '#' :: g) = some m →
      ((∃ σ, .registered c σ ∈ inServer x.log ∧ σ.name = n) ∧
        ∃ ms key u, Stored (inServer x.log) g ms ∧ n ∈ ms ∧
          .registered d ⟨key, u⟩ ∈ inServer x.log ∧ u ∈ ms) ∧
      p.textFor (cp '#' :: g) = some m := by
    rintro c t p ok m hwrote rfl hm
    obtain ⟨σ, u, hσ, hu, ⟨hname, -⟩ | ⟨hname, htext, g', ms, hkey, hstored, hn, hms⟩⟩ :=
      said_written hserver hwrote hm
    · have hsafe := (names_reach hserver).1 c σ hσ
      rw [hname] at hsafe
      exact absurd rfl hsafe.head_ne
    · obtain ⟨-, rfl⟩ := cons.inj hkey
      exact ⟨⟨⟨σ, hσ, hname⟩, ms, t.2, u, hstored, hn, hu, hms⟩, htext⟩
  have hsystem : cp '#' :: g ≠ str "System" := by
    intro heq
    have hhead : some (cp '#') = (str "System").head? := congrArg head? heq
    exact absurd hhead (by decide)
  obtain ⟨reads, hreads, hshown⟩ := reads_reach h hw
  refine ⟨reads, hreads, hshown n _ hn hsystem, fun e he hsome => ?_, fun c v hv hname => ?_⟩
  · obtain ⟨m, hm⟩ := Option.isSome_iff_exists.mp hsome
    obtain ⟨t, hwrote, ht⟩ := mem_arrivals (hreads.subset he)
    exact (hsaid _ t e.2 true m hwrote ht hm).1
  · refine reads_posted h hreads (fun c t p ok m hwrote ht hm => ?_) hv hname
    obtain ⟨⟨hregistered, -⟩, htext⟩ := hsaid c t p ok m hwrote ht hm
    exact ⟨hregistered, htext⟩

/-- Alice makes a group with Bob and posts a text there. -/
theorem groups_agree_team : ∃ (x : Config Conn Wires Line ChatEvent) (w : Window)
    (reads : List (Conn × Payload)), (x.thread 1).window = some w ∧
    (w.gui.saidBy (str "alice") (str "#team")).length = 1 ∧
    reads <+ arrivals 1 (inServer x.log) ∧ w.gui.saidBy (str "alice") (str "#team") =
      reads.filterMap (fun e => e.2.said (fun _ => true) (str "alice") (str "#team")) ∧
    (reads.filter (·.1 = 0)).filterMap
        (fun e => e.2.said (fun _ => true) (str "alice") (str "#team")) <+
      (posted 0 (str "#team") x.log).map fun s => .str (Json.rejoined s) := by
  obtain ⟨x, w, v, hx, hw, hone, hv, hname, -, -⟩ := exists_bobReads (str "#team")
    (aliceAndBob ++ served 0 (.newGroup (some (str "team")) (some (str "bob")))
        [.run, .run, .run, .sent true, .run, .sent true] ++
      [(0, .user demoMoment (.switchUser (some 1)) demoNonce)] ++
      served 0 (.send (str "hi")) [.run, .run, .run, .sent true, .run] ++
      List.replicate 2 (1, .receive demoMoment.timestamp ⟨true, true⟩)) (by decide +kernel)
  obtain ⟨reads, hreads, hshown, -, hagree⟩ :=
    groups_agree hx hw (n := str "alice") (by decide) (str "team")
  exact ⟨x, w, reads, hw, hone, hreads, hshown, hagree 0 v hv hname⟩

end GuardedIM
