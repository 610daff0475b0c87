import Mathlib.Data.List.Nodup
import GuardedIM.ChatGui
import GuardedIM.Fanout

/-!
# The list of conversations

Four handlers of the window write texts into the list box and one reads them. `on_message_received`
and `new_group` add a conversation that they do not find there; `update_user_list` writes all
users anew, with their status, and forgets everything else.

* `Listed`: every conversation with a history has one text in the list box.
* `Tidy`: the invariant behind it, which the handlers keep as long as their events meet `Keeps`.
* `listed_iff`: in a run from the start, `Listed` holds throughout if and only if they all do.
-/

namespace GuardedIM

/-- What `switch_user` reads from a text. -/
def selected (text : Str) : Str := splitFirst (str " (") text

/-- What the client and the server hand to the window, and what the user can do there. -/
def GuiEvent.Valid : GuiEvent → Prop
  | .message fromUser _ _ => ∃ s, fromUser = .str s ∧ ConversationName s
  | .userList onlineUsers => ∀ u ∈ onlineUsers, SafeName 32 u
  | _ => True

namespace ChatGui

/-- **Every conversation is listed once**, under the name that `switch_user` reads. -/
def Listed (g : ChatGui) : Prop :=
  ∀ k, some k ∈ Dict.keys g.chatHistories → k ≠ g.username →
    (g.userListbox.map selected).count k = 1

/-- The condition on an event: a message that is entered is not from somebody listed as offline,
and a list of users comes when all conversations are with users who are, or were, online. -/
def Keeps (g : ChatGui) : GuiEvent → Prop
  | .message fromUser _ sender => ∀ c, fromUser = .str c → c ≠ str "System" →
      formatUsername (if sender.truthy then sender else fromUser) ≠ none →
      displayName c (str "offline") ∉ g.userListbox
  | .userList onlineUsers => ∀ k, some k ∈ Dict.keys g.chatHistories → k ≠ g.username →
      k ∈ g.knownUsers ∨ k ∈ onlineUsers
  | _ => True

/-- A text that stands for the conversation `k`. -/
def Label (k text : Str) : Prop :=
  text = k ∨ text = displayName k (str "online") ∨ text = displayName k (str "offline")

/-- What the handlers keep. -/
structure Tidy (g : ChatGui) : Prop where
  /-- `connect` has checked the name -/
  named : SafeName 32 g.username
  /-- the server has checked these -/
  known : ∀ u ∈ g.knownUsers, SafeName 32 u
  /-- the list box holds users, and conversations without a status -/
  labels : ∀ text ∈ g.userListbox, ∃ k, ConversationName k ∧ k ≠ g.username ∧ Label k text ∧
    (k ∈ g.knownUsers ∨ text = k ∧ some k ∈ Dict.keys g.chatHistories)
  /-- each of them once -/
  once : (g.userListbox.map selected).Nodup
  /-- no conversation is missing -/
  listed : ∀ k, some k ∈ Dict.keys g.chatHistories → k ≠ g.username →
    k ∈ g.userListbox.map selected
  /-- and the one that is open is there, too -/
  opened : ∀ a, g.activeUser = some a → a ∈ g.userListbox.map selected

variable {g : ChatGui} {k text c : Str}

/-! ## The texts -/

theorem Label.selected (h : Label k text) (hk : ConversationName k) : selected text = k := by
  rcases h with rfl | rfl | rfl
  · exact hk.splitFirst_self
  · exact hk.splitFirst_displayName _
  · exact hk.splitFirst_displayName _

/-- `format_username` does not know the other status. -/
theorem formatName_offline (hk : ConversationName k) :
    formatName (displayName k (str "offline")) = displayName k (str "offline") := by
  have hremove : removeAll (str " (online)") 0 (k ++ str " (offline)") = k ++ str " (offline)" :=
    removeAll_append_other hk.space_not_mem (by decide) (by decide)
  have hlabel : displayName k (str "offline") = k ++ str " (offline)" := rfl
  rw [hlabel, formatName, hremove]
  -- it begins with a character of a name and ends with a bracket
  obtain ⟨a, k, rfl⟩ := List.exists_cons_of_ne_nil hk.nonempty
  have hhead : isSpace a = false := hk.not_space a (List.mem_cons_self ..)
  have hlast : a :: k ++ str " (offline)" = (a :: k ++ str " (offline") ++ [cp ')'] := by
    rw [List.append_assoc]
    rfl
  rw [strip, stripBy, List.cons_append, List.dropWhile_cons_of_neg (by simp [hhead]),
    ← List.cons_append, hlast]
  exact List.rdropWhile_concat_neg _ _ _ (by decide)

/-- So a text is taken for the conversation, unless it says offline. -/
theorem Label.formatName_iff (h : Label k text) (hk : ConversationName k)
    (hc : ConversationName c) :
    formatName text = c ↔ k = c ∧ text ≠ displayName k (str "offline") := by
  have hspace : ∀ statusText, displayName k statusText ≠ c := by
    rintro statusText rfl
    exact hc.space_not_mem (List.mem_append_right _ (List.mem_cons_self ..))
  rcases h with rfl | rfl | rfl
  · rw [hk.formatName_self]
    have hself : text ≠ displayName text (str "offline") := by
      intro heq
      exact hk.space_not_mem (heq ▸ List.mem_append_right _ (List.mem_cons_self ..))
    exact ⟨fun h => ⟨h, hself⟩, And.left⟩
  · rw [hk.formatName_online]
    have hstatus : displayName k (str "online") ≠ displayName k (str "offline") := by
      simp [displayName, str, cp]
    exact ⟨fun h => ⟨h, hstatus⟩, And.left⟩
  · rw [formatName_offline hk]
    exact ⟨fun h => absurd h (hspace _), fun h => absurd rfl h.2⟩

/-! ## What the handlers keep -/

theorem mem_keys_append {k k' : Option Str} {e : Entry} :
    k' ∈ Dict.keys (g.append k e).chatHistories ↔ k' = k ∨ k' ∈ Dict.keys g.chatHistories :=
  Dict.mem_keys_set

/-- Two texts that are read alike are one. -/
theorem Tidy.eq_of_selected (h : Tidy g) {text text' : Str} (ht : text ∈ g.userListbox)
    (ht' : text' ∈ g.userListbox) (heq : selected text = selected text') : text = text' :=
  List.inj_on_of_nodup_map h.once ht ht' heq

/-- **What `on_message_received` finds**: the listed conversations, except the users who are
offline. -/
theorem Tidy.mem_existing (h : Tidy g) (hc : ConversationName c) :
    c ∈ g.userListbox.map formatName ↔
      c ∈ g.userListbox.map selected ∧ displayName c (str "offline") ∉ g.userListbox := by
  constructor
  · intro hmem
    obtain ⟨text, ht, hformat⟩ := List.mem_map.mp hmem
    obtain ⟨k, hk, -, hlabel, -⟩ := h.labels text ht
    obtain ⟨rfl, hne⟩ := (hlabel.formatName_iff hk hc).mp hformat
    have hselected := hlabel.selected hk
    refine ⟨List.mem_map.mpr ⟨text, ht, hselected⟩, fun hoffline => hne ?_⟩
    exact h.eq_of_selected ht hoffline
      (hselected.trans (hk.splitFirst_displayName (str "offline")).symm)
  · rintro ⟨hmem, hoffline⟩
    obtain ⟨text, ht, hselected⟩ := List.mem_map.mp hmem
    obtain ⟨k, hk, -, hlabel, -⟩ := h.labels text ht
    obtain rfl : k = c := (hlabel.selected hk).symm.trans hselected
    refine List.mem_map.mpr ⟨text, ht, (hlabel.formatName_iff hk hc).mpr ⟨rfl, ?_⟩⟩
    rintro rfl
    exact hoffline ht

/-- An entry for a conversation that is listed, or need not be. -/
theorem Tidy.append (h : Tidy g) {k : Option Str} (e : Entry)
    (hk : ∀ a, k = some a → a ≠ g.username → a ∈ g.userListbox.map selected) :
    Tidy (g.append k e) := by
  refine ⟨h.named, h.known, fun text ht => ?_, h.once, fun a ha hne => ?_, h.opened⟩
  · obtain ⟨a, ha, hne, hlabel, hfrom⟩ := h.labels text ht
    exact ⟨a, ha, hne, hlabel, hfrom.imp_right (And.imp_right fun hmem =>
      mem_keys_append.mpr (.inr hmem))⟩
  · rcases mem_keys_append.mp ha with heq | hmem
    · exact hk a heq.symm hne
    · exact h.listed a hmem hne

/-- A new conversation. -/
theorem Tidy.insert (h : Tidy g) (hc : ConversationName c) (hne : c ≠ g.username)
    (hnew : c ∉ g.userListbox.map selected) {g' : ChatGui} (husername : g'.username = g.username)
    (hknown : g'.knownUsers = g.knownUsers) (hlistbox : g'.userListbox = g.userListbox ++ [c])
    (hkeys : ∀ k, k ∈ Dict.keys g'.chatHistories ↔ k = some c ∨ k ∈ Dict.keys g.chatHistories)
    (hactive : g'.activeUser = g.activeUser ∨ g'.activeUser = some c) : Tidy g' := by
  have hselected : g'.userListbox.map selected = g.userListbox.map selected ++ [c] := by
    have hself : selected c = c := hc.splitFirst_self
    rw [hlistbox, List.map_append, List.map_singleton, hself]
  have hold : ∀ a ∈ g.userListbox.map selected, a ∈ g'.userListbox.map selected := by
    intro a ha
    rw [hselected]
    exact List.mem_append_left _ ha
  have hlast : c ∈ g'.userListbox.map selected := by
    rw [hselected]
    exact List.mem_append_right _ (List.mem_singleton_self c)
  refine ⟨husername ▸ h.named, hknown ▸ h.known, fun text ht => ?_, ?_, fun a ha hown => ?_,
    fun a ha => ?_⟩
  · rw [hlistbox] at ht
    rw [husername, hknown]
    rcases List.mem_append.mp ht with ht | ht
    · obtain ⟨a, ha, hown, hlabel, hfrom⟩ := h.labels text ht
      exact ⟨a, ha, hown, hlabel, hfrom.imp_right (And.imp_right fun hmem =>
        (hkeys _).mpr (.inr hmem))⟩
    · obtain rfl := List.mem_singleton.mp ht
      exact ⟨text, hc, hne, .inl rfl, .inr ⟨rfl, (hkeys _).mpr (.inl rfl)⟩⟩
  · rw [hselected]
    exact List.nodup_append.mpr ⟨h.once, List.nodup_singleton c, fun a ha b hb heq =>
      hnew (List.mem_singleton.mp hb ▸ heq ▸ ha)⟩
  · rcases (hkeys _).mp ha with heq | hmem
    · obtain rfl := Option.some.inj heq
      exact hlast
    · exact hold a (h.listed a hmem (husername ▸ hown))
  · rcases hactive with heq | heq
    · exact hold a (h.opened a (heq ▸ ha))
    · obtain rfl := Option.some.inj (heq.symm.trans ha)
      exact hlast

theorem Tidy.systemNotice (h : Tidy g) (timestamp text : Str) :
    Tidy (g.systemNotice timestamp text) :=
  h.append _ fun a ha _ => h.opened a ha

/-- A message, in a conversation that is not listed as offline. -/
theorem Tidy.enter (h : Tidy g) (hc : ConversationName c)
    (hoffline : c ≠ str "System" → displayName c (str "offline") ∉ g.userListbox)
    (timestamp : Str) (message : Json) (actualSender : Str) :
    Tidy (g.enter timestamp c message actualSender) := by
  rw [ChatGui.enter]
  split_ifs with hsystem hnew
  · exact h.append _ fun a ha _ => h.opened a ha
  · -- it is not there under any label
    obtain ⟨hown, hmem⟩ := hnew
    have hmem' : c ∉ g.userListbox.map selected := fun hselected =>
      hmem ((h.mem_existing hc).mpr ⟨hselected, hoffline hsystem⟩)
    exact h.insert hc hown hmem' rfl rfl rfl (fun k => mem_keys_append) (.inl rfl)
  · refine h.append _ fun a ha hown => ?_
    obtain rfl := Option.some.inj ha
    by_contra hmem
    exact hnew ⟨hown, fun hexisting => hmem ((h.mem_existing hc).mp hexisting).1⟩

/-- A message from somebody listed as offline makes two entries. -/
theorem Tidy.not_listed_enter (h : Tidy g) (hc : ConversationName c) (hsystem : c ≠ str "System")
    (hoffline : displayName c (str "offline") ∈ g.userListbox) (timestamp : Str) (message : Json)
    (actualSender : Str) : ¬ Listed (g.enter timestamp c message actualSender) := by
  have hselected : selected (displayName c (str "offline")) = c := hc.splitFirst_displayName _
  have hown : c ≠ g.username := by
    obtain ⟨k, hk, hne, hlabel, -⟩ := h.labels _ hoffline
    rw [← hselected, hlabel.selected hk]
    exact hne
  have hnew : c ∉ g.userListbox.map formatName := fun hmem =>
    ((h.mem_existing hc).mp hmem).2 hoffline
  have hmem : c ∈ g.userListbox.map selected := List.mem_map.mpr ⟨_, hoffline, hselected⟩
  intro hlisted
  have hone := hlisted c (by
    rw [ChatGui.enter, if_neg hsystem, if_pos ⟨hown, hnew⟩]
    exact mem_keys_append.mpr (.inl rfl)) (by
    rw [ChatGui.enter, if_neg hsystem, if_pos ⟨hown, hnew⟩]
    exact hown)
  have hself : selected c = c := hc.splitFirst_self
  rw [ChatGui.enter, if_neg hsystem, if_pos ⟨hown, hnew⟩] at hone
  simp only [ChatGui.insert, ChatGui.append, List.map_append, List.map_singleton, hself,
    List.count_append, List.count_eq_one_of_mem h.once hmem, List.count_singleton_self] at hone
  cases hone

/-- What `update_user_list` leaves in the list box. -/
theorem selected_updateUserList (h : Tidy g) {onlineUsers : List Str}
    (honline : ∀ u ∈ onlineUsers, SafeName 32 u) :
    (g.updateUserList onlineUsers).userListbox.map selected =
      (sortedSet (g.knownUsers ++ onlineUsers)).filter (· ≠ g.username) := by
  rw [updateUserList, List.map_map]
  refine (List.map_congr_left fun u hu => ?_).trans (List.map_id _)
  have hmem := List.mem_append.mp (mem_sortedSet.mp (List.mem_filter.mp hu).1)
  exact (hmem.elim (h.known u) (honline u)).conversation.splitFirst_displayName _

theorem Tidy.mem_updateUserList (h : Tidy g) {onlineUsers : List Str}
    (honline : ∀ u ∈ onlineUsers, SafeName 32 u) :
    k ∈ (g.updateUserList onlineUsers).userListbox.map selected ↔
      (k ∈ g.knownUsers ∨ k ∈ onlineUsers) ∧ k ≠ g.username := by
  rw [selected_updateUserList h honline, List.mem_filter, mem_sortedSet, List.mem_append,
    decide_eq_true_iff]

/-- A list of users, when every conversation is with one of them. -/
theorem Tidy.updateUserList (h : Tidy g) {onlineUsers : List Str}
    (honline : ∀ u ∈ onlineUsers, SafeName 32 u)
    (hkeeps : ∀ k, some k ∈ Dict.keys g.chatHistories → k ≠ g.username →
      k ∈ g.knownUsers ∨ k ∈ onlineUsers) : Tidy (g.updateUserList onlineUsers) := by
  have hknown : ∀ u ∈ sortedSet (g.knownUsers ++ onlineUsers), SafeName 32 u := by
    intro u hu
    exact (List.mem_append.mp (mem_sortedSet.mp hu)).elim (h.known u) (honline u)
  refine ⟨h.named, hknown, fun text ht => ?_, ?_, fun a ha hown => ?_, fun a ha => ?_⟩
  · obtain ⟨u, hu, rfl⟩ := List.mem_map.mp ht
    obtain ⟨hmem, hown⟩ := List.mem_filter.mp hu
    refine ⟨u, (hknown u hmem).conversation, of_decide_eq_true hown, ?_, .inl hmem⟩
    split_ifs
    · exact .inr (.inl rfl)
    · exact .inr (.inr rfl)
  · rw [selected_updateUserList h honline]
    exact ((sortedSet_sorted _).imp fun hlt => ne_of_lt hlt).filter _
  · exact (h.mem_updateUserList honline).mpr ⟨hkeeps a ha hown, hown⟩
  · -- the open conversation was listed: it is with somebody known, or has a history
    obtain ⟨text, ht, hselected⟩ := List.mem_map.mp (h.opened a ha)
    obtain ⟨k, hk, hown, hlabel, hfrom⟩ := h.labels text ht
    obtain rfl : k = a := (hlabel.selected hk).symm.trans hselected
    refine (h.mem_updateUserList honline).mpr ⟨?_, hown⟩
    exact hfrom.elim .inl fun hmem => hkeeps k hmem.2 hown

/-- Otherwise a conversation is lost. -/
theorem Tidy.not_listed_updateUserList (h : Tidy g) {onlineUsers : List Str}
    (honline : ∀ u ∈ onlineUsers, SafeName 32 u) (hk : some k ∈ Dict.keys g.chatHistories)
    (hown : k ≠ g.username) (hlost : ¬ (k ∈ g.knownUsers ∨ k ∈ onlineUsers)) :
    ¬ Listed (g.updateUserList onlineUsers) := by
  intro hlisted
  have hone := hlisted k hk hown
  have hmem : k ∈ (g.updateUserList onlineUsers).userListbox.map selected :=
    List.count_pos_iff.mp (by omega)
  exact hlost ((h.mem_updateUserList honline).mp hmem).1

/-- A group is no user. -/
theorem Tidy.group_unknown (h : Tidy g) (groupName : Str) :
    cp '#' :: groupName ≠ g.username ∧ cp '#' :: groupName ∉ g.knownUsers := by
  have hno : ∀ u, SafeName 32 u → cp '#' :: groupName ≠ u := by
    rintro u hu rfl
    exact absurd (hu.2.2 (cp '#') (List.mem_cons_self ..)) (by decide)
  exact ⟨hno _ h.named, fun hmem => hno _ (h.known _ hmem) rfl⟩

theorem Tidy.newGroup (h : Tidy g) (m : Moment) (groupName members : Option Str) :
    Tidy (g.newGroup m groupName members) := by
  rcases groupName with _ | groupName
  · exact h
  rcases members with _ | members
  · exact h
  simp only [ChatGui.newGroup]
  split
  · exact h
  split
  · exact h.systemNotice _ _
  · split
    · rename_i hcall
      -- a group that the client asked for has a valid name
      obtain ⟨u, hu, hsafe⟩ := isSafeGroupName_iff.mp (ChatClient.checked_eq_sent.mp hcall).1
      obtain rfl := Json.str.inj hu
      have hself : selected (cp '#' :: groupName) = cp '#' :: groupName :=
        hsafe.group.splitFirst_self
      obtain ⟨hown, hunknown⟩ := h.group_unknown groupName
      split_ifs with hthere
      · refine ⟨h.named, h.known, h.labels, h.once, h.listed, fun a ha => ?_⟩
        obtain rfl := Option.some.inj ha
        exact List.mem_map.mpr ⟨_, hthere, hself⟩
      · refine h.insert hsafe.group hown (fun hmem => ?_) rfl rfl rfl
          (fun k => Dict.mem_keys_set) (.inr rfl)
        obtain ⟨text, ht, hselected⟩ := List.mem_map.mp hmem
        obtain ⟨k, hk, -, hlabel, hfrom⟩ := h.labels text ht
        obtain rfl : k = cp '#' :: groupName := (hlabel.selected hk).symm.trans hselected
        rcases hfrom with hknown | ⟨rfl, -⟩
        · exact hunknown hknown
        · exact hthere ht
    · exact (h.systemNotice _ _).systemNotice _ _
    · exact h

theorem Tidy.switchUser (h : Tidy g) (selection : Option ℕ) : Tidy (g.switchUser selection) := by
  rw [ChatGui.switchUser]
  split
  · exact h
  · rename_i text htext
    obtain ⟨i, -, hi⟩ := Option.bind_eq_some_iff.mp htext
    refine ⟨h.named, h.known, h.labels, h.once, h.listed, fun a ha => ?_⟩
    obtain rfl := Option.some.inj ha
    exact List.mem_map.mpr ⟨text, List.mem_of_getElem? hi, rfl⟩

theorem Tidy.send (h : Tidy g) (m : Moment) (entry : Str) : Tidy (g.send m entry) := by
  rw [ChatGui.send]
  split
  · exact h
  · rename_i activeUser hactive
    simp only
    split_ifs
    · exact h
    all_goals
      split
      · exact h.append _ fun a ha _ => h.opened a (hactive.trans ha)
      · exact h.systemNotice _ _
      · exact h

theorem Tidy.upload (h : Tidy g) (printable : CodePoint → Bool) (m : Moment) (filePath : Str)
    (contents : Except Str Bytes) : Tidy (g.upload printable m filePath contents) := by
  rw [ChatGui.upload]
  split
  · exact h
  · split_ifs
    · exact h
    all_goals
      split
      · exact h.systemNotice _ _
      · exact h.systemNotice _ _
      · exact h
      · exact h

/-! ## Whole sessions -/

variable {printable : CodePoint → Bool} {username : Str} {events : List (Moment × GuiEvent)}

theorem tidy_start (h : SafeName 32 username) : Tidy (start username) :=
  ⟨h, nofun, nofun, List.nodup_nil, nofun, nofun⟩

theorem Tidy.to_listed (h : Tidy g) : Listed g := fun k hk hown =>
  List.count_eq_one_of_mem h.once (h.listed k hk hown)

/-- **One event**: the invariant is kept if the condition holds, and the list is wrong if it does
not. -/
theorem Tidy.handle (h : Tidy g) (printable : CodePoint → Bool) (e : Moment × GuiEvent)
    (hvalid : e.2.Valid) :
    (Keeps g e.2 → Tidy (g.handle printable e)) ∧
      (¬ Keeps g e.2 → ¬ Listed (g.handle printable e)) := by
  obtain ⟨m, e⟩ := e
  cases e with
  | message fromUser message sender =>
    obtain ⟨c, rfl, hc⟩ := hvalid
    simp only [ChatGui.handle, onMessageReceived_eq hc]
    constructor
    · intro hkeeps
      rcases hactual : formatUsername (if sender.truthy then sender else .str c) with _ | actual
      · exact h
      · refine h.enter hc (fun hsystem => hkeeps c rfl hsystem ?_) _ _ _
        rw [hactual]
        exact nofun
    · intro hkeeps
      simp only [Keeps, not_forall, not_not] at hkeeps
      obtain ⟨_, ⟨⟩, hsystem, hformat, hoffline⟩ := hkeeps
      obtain ⟨actual, hactual⟩ := Option.ne_none_iff_exists'.mp hformat
      rw [hactual]
      exact h.not_listed_enter hc hsystem hoffline _ _ _
  | userList onlineUsers =>
    refine ⟨fun hkeeps => h.updateUserList hvalid hkeeps, fun hkeeps => ?_⟩
    simp only [Keeps, not_forall] at hkeeps
    obtain ⟨k, hk, hown, hlost⟩ := hkeeps
    exact h.not_listed_updateUserList hvalid hk hown hlost
  | newGroup groupName members =>
    exact ⟨fun _ => h.newGroup m groupName members, fun hkeeps => absurd trivial hkeeps⟩
  | switchUser selection =>
    exact ⟨fun _ => h.switchUser selection, fun hkeeps => absurd trivial hkeeps⟩
  | send entry => exact ⟨fun _ => h.send m entry, fun hkeeps => absurd trivial hkeeps⟩
  | upload filePath contents =>
    exact ⟨fun _ => h.upload printable m filePath contents, fun hkeeps => absurd trivial hkeeps⟩

theorem run_succ (g : ChatGui) {n : ℕ} (hn : n < events.length) :
    g.run printable (events.take (n + 1)) = (g.run printable (events.take n)).handle printable
      events[n] := by
  rw [run, List.take_succ_eq_append_getElem hn, List.foldl_append]
  rfl

/-- While the conditions hold, so does the invariant. -/
theorem tidy_run (h : Tidy g) (printable : CodePoint → Bool) (hvalid : ∀ e ∈ events, e.2.Valid)
    {n : ℕ} (hkeeps : ∀ (k : ℕ) (hk : k < events.length), k < n →
      Keeps (g.run printable (events.take k)) events[k].2) :
    Tidy (g.run printable (events.take n)) := by
  induction n with
  | zero => exact h
  | succ n ih =>
    have htidy := ih fun k hk hlt => hkeeps k hk (by omega)
    by_cases hn : n < events.length
    · rw [run_succ g hn]
      exact (htidy.handle printable _ (hvalid _ (List.getElem_mem hn))).1
        (hkeeps n hn (Nat.lt_succ_self n))
    · rw [List.take_of_length_le (by omega)] at htidy ⊢
      exact htidy

/-- **The list of conversations.** In a session of the window with valid events, every conversation
with a history, the user's own name aside, has exactly one text in the list box after every event,
if and only if all events meet the condition: no message from somebody who is listed as offline, and
no list of users while there is a conversation with a group, or with somebody never online. -/
theorem listed_iff (printable : CodePoint → Bool) (h : SafeName 32 username)
    (hvalid : ∀ e ∈ events, e.2.Valid) :
    (∀ n, Listed ((start username).run printable (events.take n))) ↔
      ∀ (n : ℕ) (hn : n < events.length),
        Keeps ((start username).run printable (events.take n)) events[n].2 := by
  constructor
  · intro hlisted n
    -- before the first event that does not meet it, the invariant holds
    induction n using Nat.strongRecOn with
    | ind n ih =>
      intro hn
      have htidy := tidy_run (n := n) (tidy_start h) printable hvalid
        fun k hk hlt => ih k hlt hk
      by_contra hkeeps
      have hlost := (htidy.handle printable _
        (hvalid _ (List.getElem_mem hn))).2 hkeeps
      rw [← run_succ (start username) hn] at hlost
      exact hlost (hlisted (n + 1))
  · intro hkeeps n
    exact (tidy_run (tidy_start h) printable hvalid fun k hk _ => hkeeps k hk).to_listed

/-- Bob is online, says hi, and goes. -/
def withBob : List (Moment × GuiEvent) :=
  [(demoMoment, .userList [str "alice", str "bob"]),
    (demoMoment, .message (.str (str "bob")) (.str (str "hi")) (.str (str "bob"))),
    (demoMoment, .userList [str "alice"])]

/-- Alice has him in her list all the time. -/
theorem listed_iff_bob :
    ((start (str "alice")).run (fun _ => true) withBob).userListbox = [str "bob (offline)"] ∧
    ∀ n, Listed ((start (str "alice")).run (fun _ => true) (withBob.take n)) := by
  have halice : SafeName 32 (str "alice") := by decide
  have hbob : SafeName 32 (str "bob") := by decide
  refine ⟨by decide, (listed_iff (fun _ => true) halice ?_).mpr fun n hn => ?_⟩
  · simp only [withBob, GuiEvent.Valid, List.forall_mem_cons, List.not_mem_nil, false_implies,
      implies_true, and_true]
    exact ⟨⟨halice, hbob⟩, ⟨_, rfl, hbob.conversation⟩, halice⟩
  · match n, hn with
    | 0, _ => exact nofun
    | 1, _ =>
      -- he is listed as online
      rintro c ⟨⟩ - -
      exact (by decide : displayName (str "bob") (str "offline") ∉
        [displayName (str "bob") (str "online")])
    | 2, _ =>
      rintro k hk -
      obtain rfl := Option.some.inj (List.mem_singleton.mp hk)
      exact .inl (by decide : str "bob" ∈ [str "alice", str "bob"])

/-- A group that Alice is added to is gone with the next list of users. Bob, who was online before,
is there twice once he says something. -/
theorem group_lost : ∃ events events' : List (Moment × GuiEvent),
    events = [(demoMoment, .message (.str (str "#team")) (.str (str "Added to team"))
        (.str (str "System"))),
      (demoMoment, .userList [str "alice", str "bob"])] ∧
    (∀ e ∈ events, e.2.Valid) ∧
    ¬ Listed ((start (str "alice")).run (fun _ => true) events) ∧
    events' = [(demoMoment, .userList [str "alice", str "bob"]),
      (demoMoment, .userList [str "alice"]),
      (demoMoment, .message (.str (str "bob")) (.str (str "hi")) (.str (str "bob")))] ∧
    (∀ e ∈ events', e.2.Valid) ∧
    ((start (str "alice")).run (fun _ => true) events').userListbox =
      [str "bob (offline)", str "bob"] ∧
    ¬ Listed ((start (str "alice")).run (fun _ => true) events') := by
  have halice : SafeName 32 (str "alice") := by decide
  have hbob : SafeName 32 (str "bob") := by decide
  have hteam : SafeName 48 (str "team") := by decide
  refine ⟨_, _, rfl, ?_, fun hlisted => ?_, rfl, ?_, by decide, fun hlisted => ?_⟩
  · simp only [GuiEvent.Valid, List.forall_mem_cons, List.not_mem_nil, false_implies,
      implies_true, and_true]
    exact ⟨⟨_, rfl, hteam.group⟩, halice, hbob⟩
  · have hone := hlisted (str "#team") (List.mem_singleton_self _) (by decide)
    exact absurd hone (by decide)
  · simp only [GuiEvent.Valid, List.forall_mem_cons, List.not_mem_nil, false_implies,
      implies_true, and_true]
    exact ⟨⟨halice, hbob⟩, halice, _, rfl, hbob.conversation⟩
  · have hone := hlisted (str "bob") (List.mem_singleton_self _) (by decide)
    exact absurd hone (by decide)

end ChatGui

end GuardedIM
