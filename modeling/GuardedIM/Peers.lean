import Mathlib.Data.List.Infix
import GuardedIM.Requests

/-!
# The peers of the WireGuard interface

`UpdateConnection` makes the peer list from both tables: every relay, and the users whose
address is in the /24 of the local address. Each table keeps its addresses apart, the
relays as 16 bytes and the users as texts; nothing keeps the two tables apart from one
another.

* `routed_iff`: the peer lists of a database are unambiguous exactly when no user has the
  dotted text of a relay's private address.
* `peers_routed`: in every run in which no user is given the address of a relay, and no
  relay that of a user, they are.
* `shared_address`: the availability check of `httpHandleReplaceIP` lets a user take the
  address of a relay.
-/

namespace GuardedIM.Control

open Interleave Interleave.Program

/-- `wgtypes.PeerConfig`, without the settings that are the same for all peers. -/
structure PeerConfig where
  /-- `PublicKey` -/
  publicKey : Bytes
  /-- `PresharedKey`, which only relays have -/
  presharedKey : Option Bytes
  /-- `Endpoint` -/
  endpoint : Option (Bytes × UInt16)
  /-- `AllowedIPs` -/
  allowedIPs : List IPNet
deriving DecidableEq

/-- `net.CIDRMask(32, 32)` -/
def hostMask : Bytes := [255, 255, 255, 255]

/-- The peer of a relay; rows with keys of another length are skipped. The columns of the
addresses are not null. -/
def serverPeer (W : WgTypes) (row : ServerRow) : Option PeerConfig :=
  match W.newKey row.serverPubkey, W.newKey row.serverPresharedkey with
  | some pubkey, some psk =>
    some ⟨pubkey, some psk, some (row.serverPubip, row.serverPort), [⟨row.serverPrivip, hostMask⟩]⟩
  | _, _ => none

/-- The peer of a user; the address is nil when the text does not parse. -/
def userPeer (W : WgTypes) (row : UserRow) : Option PeerConfig :=
  (W.newKey row.userPubkey).map fun pubkey =>
    ⟨pubkey, none, none, [⟨(parseIP row.latestIp).getD [], hostMask⟩]⟩

/-- SQL's `LIKE` on bytes, with the wildcards `%` and `_`. -/
def like : Bytes → Bytes → Bool
  | [], text => text = []
  | c :: pattern, text =>
    if c = percent then text.tails.any fun rest => like pattern rest
    else
      match text with
      | [] => false
      | d :: rest => (c = 95 || c = d) && like pattern rest

/-- The local address: the last IPv4 address of the interface. -/
def wgPrivip (addrs : List Bytes) : Option Bytes :=
  addrs.foldl (fun found ip => ((to4 ip).map dotted).or found) none

/-- `s[:strings.LastIndex(s, ".")+1]` -/
def upToLastDot (s : Bytes) : Bytes := s.rdropWhile fun c => c ≠ dot

/-- The peer list `UpdateConnection` hands to `ConfigureDevice`, from the database and the
addresses of `wg0`. -/
def updateConnection (W : WgTypes) (db : Database) (addrs : List Bytes) :
    Except String (List PeerConfig) :=
  match wgPrivip addrs with
  | none => .error "unable to get wireguard interface IP address"
  | some wg_privip =>
    let servers := db.servers.rows.filter fun row => row.serverPrivip ≠ wg_privip
    let users := db.users.rows.filter fun row =>
      like (upToLastDot wg_privip ++ [percent]) row.latestIp
    .ok (servers.filterMap (serverPeer W) ++ users.filterMap (userPeer W))

/-! ## Peers with addresses of their own -/

/-- Every address belongs to one peer, and no user has a relay's private address. -/
structure Routed (db : Database) (peers : List PeerConfig) : Prop where
  /-- no two peers share an address -/
  unambiguous : peers.Pairwise fun p q => ∀ n ∈ p.allowedIPs, ∀ n' ∈ q.allowedIPs, n.ip ≠ n'.ip
  /-- a user's address is not that of a relay -/
  relays : ∀ p ∈ peers, p.presharedKey = none → ∀ n ∈ p.allowedIPs, ∀ s ∈ db.servers.rows,
    n.ip ≠ s.serverPrivip

/-- The text is the dotted text of the address. -/
def names (text ip : Bytes) : Bool := (to4 ip).map dotted = some text

/-- The rows are what the checks let through. -/
structure Checked (db : Database) : Prop where
  /-- of the relays -/
  servers : ∀ s ∈ db.servers.rows, s.Valid
  /-- of the users -/
  users : ∀ u ∈ db.users.rows, u.Valid

/-- No user has the private address of a relay. -/
def Apart (db : Database) : Prop :=
  ∀ u ∈ db.users.rows, ∀ s ∈ db.servers.rows, names u.latestIp s.serverPrivip = false

/-- No address that the next step may write is that of a row in the other table. -/
def keepsApart (g : Memory) : Task → Input → Bool
  | .free r, .answer _ => g.db.servers.rows.all fun s => !names r.ipAddress s.serverPrivip
  | .idle, .addUser a _ _ => g.db.servers.rows.all fun s => !names a.latestIp s.serverPrivip
  | .idle, .addServer a _ _ =>
    (parseIP a.serverPrivip).all fun ip => g.db.users.rows.all fun u => !names u.latestIp ip
  | _, _ => true

/-- A step gives no user the private address of a relay, and no relay that of a user. -/
def KeepsApart (x : Config ℕ Memory Task Event) (a : ℕ × Input) : Prop :=
  keepsApart x.memory (x.thread a.1) a.2 = true

variable {E : Ed25519} {W : WgTypes} {t : ℕ} {g : Memory} {l : Task} {i : Input} {m : Left}
  {db : Database}

/-! ## Texts and patterns -/

theorem to4_mapped {ip : Bytes} (h : ip.length = 4) : to4 (v4InV6Prefix ++ ip) = some ip := by
  rw [to4, if_neg (by simp [v4InV6Prefix, h]), if_pos]
  · rfl
  · exact ⟨by simp [v4InV6Prefix, h], rfl⟩

theorem length_to4 {ip ip4 : Bytes} (h : to4 ip = some ip4) : ip4.length = 4 := by
  rw [to4] at h
  split_ifs at h with hlen hlen
  · exact Option.some.inj h ▸ hlen
  · rw [← Option.some.inj h, List.length_drop, hlen.1]

theorem names_mapped {ip text : Bytes} (h : ip.length = 4) :
    names text (v4InV6Prefix ++ ip) = true ↔ text = dotted ip := by
  simp [names, to4_mapped h, eq_comm]

theorem like_percent (pattern text : Bytes) :
    like (percent :: pattern) text = text.tails.any fun rest => like pattern rest := by
  cases text with
  | nil => rfl
  | cons d rest => rfl

theorem like_char {c : UInt8} (hc : c ≠ percent) (pattern : Bytes) (d : UInt8) (text : Bytes) :
    like (c :: pattern) (d :: text) = ((c = 95 || c = d) && like pattern text) := by
  simp [like, hc]

/-- A pattern without wildcards at its beginning fixes the beginning of the text. -/
theorem like_begins {q r text : Bytes} (hq : ∀ c ∈ q, c ≠ percent ∧ c ≠ 95)
    (h : like (q ++ r) text = true) : q <+: text := by
  induction q generalizing text with
  | nil => exact List.nil_prefix
  | cons c q ih =>
    obtain ⟨hc, hrest⟩ := List.forall_mem_cons.mp hq
    cases text with
    | nil => simp [like, hc.1] at h
    | cons d text =>
      rw [List.cons_append, like_char hc.1] at h
      simp only [Bool.and_eq_true, Bool.or_eq_true, decide_eq_true_eq, hc.2, false_or] at h
      rw [h.1]
      exact (List.prefix_cons_inj d).mpr (ih hrest h.2)

/-- A text matches its own beginning. -/
theorem like_self {q text : Bytes} (hq : ∀ c ∈ q, c ≠ percent ∧ c ≠ 95) (h : q <+: text) :
    like (q ++ [percent]) text = true := by
  induction q generalizing text with
  | nil =>
    rw [List.nil_append, like_percent, List.any_eq_true]
    exact ⟨[], (List.mem_tails _ _).mpr List.nil_suffix, rfl⟩
  | cons c q ih =>
    obtain ⟨hc, hrest⟩ := List.forall_mem_cons.mp hq
    obtain ⟨rest, rfl⟩ := h
    rw [List.cons_append, List.cons_append, like_char hc.1]
    simp [ih hrest (List.prefix_append q rest)]

theorem upToLastDot_begins (s : Bytes) : upToLastDot s <+: s := List.rdropWhile_prefix _ s

/-- What stands before a dot stands before the last one. -/
theorem prefix_upToLastDot (s rest : Bytes) : s ++ [dot] <+: upToLastDot (s ++ dot :: rest) := by
  induction rest using List.reverseRecOn with
  | nil =>
    rw [upToLastDot, List.rdropWhile_concat_neg _ _ _ (by simp)]
  | append_singleton rest c ih =>
    rw [← List.cons_append, ← List.append_assoc, upToLastDot]
    by_cases hc : c = dot
    · rw [List.rdropWhile_concat_neg _ _ _ (by simp [hc])]
      exact ⟨rest ++ [c], by simp⟩
    · rw [List.rdropWhile_concat_pos _ _ _ (by simp [hc])]
      exact ih

/-- A dotted text has no wildcards. -/
theorem dotted_plain {ip : Bytes} {c : UInt8} (h : c ∈ dotted ip) : c ≠ percent ∧ c ≠ 95 := by
  rcases mem_dotted h with rfl | hdigit
  · decide
  · constructor
    · rintro rfl
      exact absurd hdigit (by decide)
    · rintro rfl
      exact absurd hdigit (by decide)

/-- The local address is the dotted text of four bytes. -/
theorem wgPrivip_dotted {addrs : List Bytes} {s : Bytes} (h : wgPrivip addrs = some s) :
    ∃ ip, ip.length = 4 ∧ s = dotted ip := by
  have hfold : ∀ found : Option Bytes, (∀ s ∈ found, ∃ ip, ip.length = 4 ∧ s = dotted ip) →
      ∀ s, addrs.foldl (fun found ip => ((to4 ip).map dotted).or found) found = some s →
        ∃ ip, ip.length = 4 ∧ s = dotted ip := by
    clear h
    induction addrs with
    | nil => exact fun found hfound s hs => hfound s hs
    | cons ip addrs ih =>
      intro found hfound s hs
      apply ih _ _ s hs
      intro s' hs'
      replace hs' : ((to4 ip).map dotted).or found = some s' := hs'
      cases h4 : to4 ip with
      | none =>
        rw [h4] at hs'
        exact hfound s' hs'
      | some ip4 =>
        rw [h4] at hs'
        exact ⟨ip4, length_to4 h4, (Option.some.inj hs').symm⟩
  exact hfold none (by rintro _ ⟨⟩) s h

/-- A user in the /24 of the local address has the dotted text of four bytes. -/
theorem selected_user {u : UserRow} (hu : u.Valid) {ip : Bytes} (hip : ip.length = 4)
    (hlike : like (upToLastDot (dotted ip) ++ [percent]) u.latestIp = true) :
    ∃ ip4, ip4.length = 4 ∧ u.latestIp = dotted ip4 ∧
      parseIP u.latestIp = some (v4InV6Prefix ++ ip4) := by
  obtain ⟨n, rest, hrest⟩ := exists_dotted_octet hip
  have hprefix : decimal n ++ [dot] <+: u.latestIp := by
    have hup : upToLastDot (dotted ip) <+: u.latestIp := by
      apply like_begins _ hlike
      intro c hc
      exact dotted_plain ((upToLastDot_begins _).subset hc)
    exact (hrest ▸ prefix_upToLastDot (decimal n) rest).trans hup
  obtain ⟨ip16, hparse⟩ := Option.isSome_iff_exists.mp hu.latestIp
  have hv4 := parseIP_octet hprefix
  rw [hparse] at hv4
  obtain ⟨ip4, hip4, rfl⟩ := Option.map_eq_some_iff.mp hv4.symm
  obtain ⟨htext, hlen⟩ := parseIPv4_eq hip4
  exact ⟨ip4, hlen, htext, hparse⟩

/-! ## Peer lists -/

theorem serverPeer_eq_some {s : ServerRow} {p : PeerConfig} (h : serverPeer W s = some p) :
    p.presharedKey ≠ none ∧ p.allowedIPs = [⟨s.serverPrivip, hostMask⟩] := by
  rw [serverPeer] at h
  split at h
  · obtain rfl := Option.some.inj h
    exact ⟨by simp, rfl⟩
  · cases h

theorem userPeer_eq_some {u : UserRow} {p : PeerConfig} (h : userPeer W u = some p) :
    p.presharedKey = none ∧ p.allowedIPs = [⟨(parseIP u.latestIp).getD [], hostMask⟩] := by
  obtain ⟨pubkey, -, rfl⟩ := Option.map_eq_some_iff.mp h
  exact ⟨rfl, rfl⟩

/-- No checked row is skipped. -/
theorem serverPeer_valid {s : ServerRow} (h : s.Valid) : ∃ p, serverPeer W s = some p := by
  simp [serverPeer, W.newKey_of_length h.pubkey, W.newKey_of_length h.presharedkey]

theorem userPeer_valid {u : UserRow} (h : u.Valid) : ∃ p, userPeer W u = some p := by
  simp [userPeer, W.newKey_of_length h.pubkey]

/-- A relay and a user with one address. -/
theorem Checked.names_iff (hc : Checked db) {u : UserRow} {s : ServerRow} {ip4 : Bytes}
    (hs : s ∈ db.servers.rows) (hlen : ip4.length = 4) (htext : u.latestIp = dotted ip4) :
    names u.latestIp s.serverPrivip = true ↔ v4InV6Prefix ++ ip4 = s.serverPrivip := by
  obtain ⟨ip, hip, hpriv⟩ := (hc.servers s hs).privip
  rw [hpriv, names_mapped hip, List.append_cancel_left_eq, htext]
  refine ⟨fun heq => ?_, congrArg dotted⟩
  have hparse := congrArg parseIPv4 heq
  rw [parseIPv4_dotted hlen, parseIPv4_dotted hip] at hparse
  exact Option.some.inj hparse

/-- Tables that are apart give unambiguous peer lists. -/
theorem Apart.routed (ha : Apart db) (hc : Checked db) {addrs : List Bytes}
    {peers : List PeerConfig} (h : updateConnection W db addrs = .ok peers) : Routed db peers := by
  rw [updateConnection] at h
  split at h
  · cases h
  rename_i wg_privip hwg
  obtain rfl := Except.ok.inj h
  obtain ⟨ip, hip, rfl⟩ := wgPrivip_dotted hwg
  have hselected : ∀ u ∈ db.users.rows.filter fun row =>
      like (upToLastDot (dotted ip) ++ [percent]) row.latestIp, u ∈ db.users.rows ∧
      ∃ ip4, ip4.length = 4 ∧ u.latestIp = dotted ip4 ∧
        ∀ p, userPeer W u = some p → p.allowedIPs = [⟨v4InV6Prefix ++ ip4, hostMask⟩] := by
    intro u hu
    obtain ⟨hmem, hlike⟩ := List.mem_filter.mp hu
    obtain ⟨ip4, hlen, htext, hparse⟩ := selected_user (hc.users u hmem) hip hlike
    refine ⟨hmem, ip4, hlen, htext, fun p hp => ?_⟩
    rw [(userPeer_eq_some hp).2, hparse]
    rfl
  have hcross : ∀ u ∈ db.users.rows, ∀ s ∈ db.servers.rows, ∀ ip4, ip4.length = 4 →
      u.latestIp = dotted ip4 → v4InV6Prefix ++ ip4 ≠ s.serverPrivip := by
    intro u hu s hs ip4 hlen htext heq
    have := (hc.names_iff hs hlen htext).mpr heq
    rw [ha u hu s hs] at this
    cases this
  refine ⟨List.pairwise_append.mpr ⟨?_, ?_, ?_⟩, ?_⟩
  · -- two relays
    rw [List.pairwise_filterMap]
    apply (db.servers.unique.filter _).imp
    intro s s' hclash p hp p' hp' n hn n' hn' heq
    rw [(serverPeer_eq_some hp).2, List.mem_singleton] at hn
    rw [(serverPeer_eq_some hp').2, List.mem_singleton] at hn'
    subst hn hn'
    exact hclash (.inr (.inl heq))
  · -- two users: one address has one text
    rw [List.pairwise_filterMap]
    apply (db.users.unique.filter _).imp_of_mem
    intro u u' hu hu' hclash p hp p' hp' n hn n' hn' heq
    obtain ⟨-, ip4, -, htext, hall⟩ := hselected u hu
    obtain ⟨-, ip4', -, htext', hall'⟩ := hselected u' hu'
    rw [hall p hp, List.mem_singleton] at hn
    rw [hall' p' hp', List.mem_singleton] at hn'
    subst hn hn'
    apply hclash
    rw [List.append_cancel_left heq] at htext
    exact .inr (.inr (.inr (htext.trans htext'.symm)))
  · -- a relay and a user
    intro p hp p' hp' n hn n' hn' heq
    obtain ⟨s, hs, hsp⟩ := List.mem_filterMap.mp hp
    obtain ⟨u, hu, hup⟩ := List.mem_filterMap.mp hp'
    obtain ⟨hmem, ip4, hlen, htext, hall⟩ := hselected u hu
    rw [(serverPeer_eq_some hsp).2, List.mem_singleton] at hn
    rw [hall p' hup, List.mem_singleton] at hn'
    subst hn hn'
    exact hcross u hmem s (List.mem_of_mem_filter hs) ip4 hlen htext heq.symm
  · intro p hp hkey n hn s hs
    rcases List.mem_append.mp hp with hp | hp
    · obtain ⟨s', -, hsp⟩ := List.mem_filterMap.mp hp
      exact absurd hkey (serverPeer_eq_some hsp).1
    · obtain ⟨u, hu, hup⟩ := List.mem_filterMap.mp hp
      obtain ⟨hmem, ip4, hlen, htext, hall⟩ := hselected u hu
      rw [hall p hup, List.mem_singleton] at hn
      subst hn
      exact hcross u hmem s hs ip4 hlen htext

/-- **The peer lists of a database are unambiguous exactly when its tables are apart.** -/
theorem routed_iff (hc : Checked db) :
    (∀ addrs peers, updateConnection W db addrs = .ok peers → Routed db peers) ↔ Apart db := by
  refine ⟨fun hall u hu s hs => ?_, fun ha addrs peers h => ha.routed hc h⟩
  by_contra hnames
  rw [Bool.not_eq_false] at hnames
  obtain ⟨ip, hip, hpriv⟩ := (hc.servers s hs).privip
  have htext : u.latestIp = dotted ip := by
    rwa [hpriv, names_mapped hip] at hnames
  -- seen from the address itself, both are peers
  have hwg : wgPrivip [ip] = some (dotted ip) := by
    simp [wgPrivip, to4, hip]
  obtain ⟨p, hp⟩ := userPeer_valid (hc.users u hu)
  have hlike : like (upToLastDot (dotted ip) ++ [percent]) u.latestIp = true := by
    rw [htext]
    apply like_self
    · intro c hc
      exact dotted_plain ((upToLastDot_begins _).subset hc)
    · exact upToLastDot_begins _
  have hpeer : ∃ peers, updateConnection W db [ip] = .ok peers ∧ p ∈ peers := by
    refine ⟨_, by rw [updateConnection, hwg], ?_⟩
    apply List.mem_append_right
    exact List.mem_filterMap.mpr ⟨u, List.mem_filter.mpr ⟨hu, hlike⟩, hp⟩
  obtain ⟨peers, hpeers, hmem⟩ := hpeer
  obtain ⟨hkey, hallowed⟩ := userPeer_eq_some hp
  obtain ⟨ip4, hlen, htext', hparse⟩ := selected_user (hc.users u hu) hip hlike
  apply (hall _ _ hpeers).relays p hmem hkey ⟨v4InV6Prefix ++ ip4, hostMask⟩ _ s hs
  · exact (hc.names_iff hs hlen htext').mp hnames
  · rw [hallowed, hparse]
    exact List.mem_singleton_self _

/-! ## Runs -/

/-- Every step writes rows that are checked. -/
theorem Moves.checked {log : List Event} (h : Moves E W t g l i m) (hl : Serving log t l)
    (hg : Checked g.db) : Checked m.1.db := by
  cases h with
  | update r o ρ users n hupdate =>
    refine ⟨hg.servers, fun u hu => ?_⟩
    obtain ⟨u₀, hu₀, rfl⟩ := (Table.mem_update hupdate).mp hu
    split_ifs with hid
    · exact ⟨(hl.request r rfl).2, (hg.users u₀ hu₀).pubkey⟩
    · exact hg.users u₀ hu₀
  | addUser a id o a' row users hcmd hrow hinsert =>
    refine ⟨hg.servers, fun u hu => ?_⟩
    rcases (Table.mem_insert hinsert).mp hu with hu | rfl
    · exact hg.users u hu
    · exact (userRow_valid hcmd hrow).1
  | addServer a id o row servers hrow hinsert =>
    refine ⟨fun s hs => ?_, hg.users⟩
    rcases (Table.mem_insert hinsert).mp hs with hs | rfl
    · exact hg.servers s hs
    · exact (serverRow_valid hrow).1
  | _ => exact hg

/-- A step that keeps the tables apart keeps them apart. -/
theorem Moves.apart (h : Moves E W t g l i m) (hk : keepsApart g l i = true) (hg : Apart g.db) :
    Apart m.1.db := by
  cases h with
  | update r o ρ users n hupdate =>
    intro u hu s hs
    obtain ⟨u₀, hu₀, rfl⟩ := (Table.mem_update hupdate).mp hu
    split_ifs with hid
    · simpa using List.all_eq_true.mp hk s hs
    · exact hg u₀ hu₀ s hs
  | addUser a id o a' row users hcmd hrow hinsert =>
    intro u hu s hs
    rcases (Table.mem_insert hinsert).mp hu with hu | rfl
    · exact hg u hu s hs
    · rw [(userRow_valid hcmd hrow).2.2]
      simpa using List.all_eq_true.mp hk s hs
  | addServer a id o row servers hrow hinsert =>
    intro u hu s hs
    rcases (Table.mem_insert hinsert).mp hs with hs | rfl
    · exact hg u hu s hs
    · rw [keepsApart, (serverRow_valid hrow).2] at hk
      simpa using List.all_eq_true.mp hk u hu
  | _ => exact hg

/-- **The rows of every database reached are checked.** -/
theorem checked_reach {C : Config ℕ Memory Task Event → ℕ × Input → Prop}
    {x : Config ℕ Memory Task Event} (h : (control E W).Reach C x) : Checked x.memory.db := by
  apply h.invariant (I := fun x => Checked x.memory.db)
  · exact ⟨(fun s hs => nomatch hs), fun u hu => nomatch hu⟩
  · intro z t i m hreach hz _ hm
    exact (control_moves hm).checked (serving_reach hreach t) hz

theorem apart_reach {x : Config ℕ Memory Task Event} (h : (control E W).Reach KeepsApart x) :
    Apart x.memory.db := by
  apply h.invariant (I := fun x => Apart x.memory.db)
  · exact fun u hu => nomatch hu
  · intro z t i m _ hz hk hm
    exact (control_moves hm).apart hk hz

/-- **Routing is unambiguous** in every run in which no user is given the private address of
a relay and no relay that of a user, whatever the addresses of the interface are. -/
theorem peers_routed {x : Config ℕ Memory Task Event} (h : (control E W).Reach KeepsApart x)
    (addrs : List Bytes) {peers : List PeerConfig}
    (hpeers : updateConnection W x.memory.db addrs = .ok peers) : Routed x.memory.db peers :=
  (apart_reach h).routed (checked_reach h) hpeers

/-- A relay at 10.0.0.1 whose keys are 32 ones, in base64. -/
def demoRelay : Input := .addServer ⟨[], ascii "192.0.2.1", 51820, ascii "10.0.0.1",
  ascii "AQEBAQEBAQEBAQEBAQEBAQEBAQEBAQEBAQEBAQEBAQE=",
  ascii "AQEBAQEBAQEBAQEBAQEBAQEBAQEBAQEBAQEBAQEBAQE="⟩ 1 .done

/-- The user Alice at 10.0.0.5. -/
def demoUser : Input := .addUser ⟨ascii "alice", [], demoPubKey, ascii "10.0.0.5"⟩ 1 .done

/-- The local address of the examples. -/
def demoAddrs : List Bytes := [[10, 0, 0, 2]]

/-- A relay and a user, seen from 10.0.0.2. -/
theorem peers_routed_two : ∃ x peers, (control demoEd25519 demoWgTypes).Reach KeepsApart x ∧
    updateConnection demoWgTypes x.memory.db demoAddrs = .ok peers ∧ peers.length = 2 ∧
    Routed x.memory.db peers := by
  obtain ⟨x, hx, hp⟩ := exists_run_of_execIf (P := control demoEd25519 demoWgTypes)
    (C := KeepsApart) (c := fun x a => keepsApart x.memory (x.thread a.1) a.2) (fun _ _ h => h)
    [(0, demoRelay), (0, demoUser)] (p := fun x =>
      match updateConnection demoWgTypes x.memory.db demoAddrs with
      | .ok peers => peers.length = 2
      | .error _ => false) (by decide +kernel)
  split at hp
  · rename_i peers hpeers
    exact ⟨x, peers, ⟨_, hx⟩, hpeers, of_decide_eq_true hp,
      peers_routed ⟨_, hx⟩ demoAddrs hpeers⟩
  · cases hp

/-- Two peers have the same addresses. -/
def sharesAddress : Except String (List PeerConfig) → Bool
  | .ok [p, q] => p.allowedIPs = q.allowedIPs && !p.allowedIPs.isEmpty
  | _ => false

/-- Alice asks for the address of the relay, which is free, and gets it. -/
theorem shared_address : ¬ ∀ (E : Ed25519) (W : WgTypes) (x : Config ℕ Memory Task Event),
    (control E W).Reach Any x → ∀ addrs peers, updateConnection W x.memory.db addrs = .ok peers →
      peers.Pairwise fun p q => ∀ n ∈ p.allowedIPs, ∀ n' ∈ q.allowedIPs, n.ip ≠ n'.ip := by
  intro hall
  obtain ⟨x, hx, hp⟩ := exists_reach_of_exec (P := control demoEd25519 demoWgTypes)
    [(0, demoRelay), (0, demoUser),
      (0, .request "POST" (some ⟨1, ascii "10.0.0.5", []⟩)),
      (0, .random (some (List.replicate 32 1))),
      (0, .request "POST" (some ⟨1, ascii "10.0.0.1", demoSig⟩)),
      (0, .locked), (0, .answer .done), (0, .answer .done), (0, .answer .done)]
    (p := fun x => sharesAddress (updateConnection demoWgTypes x.memory.db demoAddrs))
    (by decide +kernel)
  unfold sharesAddress at hp
  split at hp
  · rename_i p q hpeers
    simp only [Bool.and_eq_true, decide_eq_true_eq, Bool.not_eq_true', List.isEmpty_eq_false_iff]
      at hp
    obtain ⟨hsame, hne⟩ := hp
    obtain ⟨n, hn⟩ := List.exists_mem_of_ne_nil _ hne
    have hpair := hall _ _ x hx demoAddrs [p, q] hpeers
    simp only [List.pairwise_pair] at hpair
    exact hpair n hn n (hsame ▸ hn) rfl
  · cases hp

end GuardedIM.Control
