import GuardedIM.Peers

/-!
# The relays among the peers

`UpdateConnection` asks for the relays `WHERE server_privip <> $1`, to leave out the relay it
runs on. `AddServer` stores addresses as 16 bytes and the parameter is the dotted text of the
address of `wg0`. No such text has the bytes of a stored address, so the condition holds of
every row.

* `all_relays`: every relay of the database becomes a peer, whatever the local address is.
* `mesh_never`: so the relay is always its own peer.
-/

namespace GuardedIM.Control

open Interleave Interleave.Program

/-- The peers that are relays: only those have a preshared key. -/
def relayPeers (peers : List PeerConfig) : List PeerConfig :=
  peers.filter fun p => p.presharedKey.isSome

/-- The relays among the peers are the other relays, one peer for each row. -/
def Mesh (W : WgTypes) (db : Database) (own : ServerRow) (peers : List PeerConfig) : Prop :=
  ((relayPeers peers).map some).Perm
    ((db.servers.rows.filter fun s => s ≠ own).map (serverPeer W))

variable {E : Ed25519} {W : WgTypes} {x : Config ℕ Memory Task Event} {db : Database}
  {addrs : List Bytes}

/-- A stored address is not a dotted text: it begins with a zero byte. -/
theorem privip_ne_dotted {s : ServerRow} (h : s.Valid) (ip : Bytes) :
    s.serverPrivip ≠ dotted ip := by
  intro heq
  obtain ⟨ip4, -, hpriv⟩ := h.privip
  have hzero : (0 : UInt8) ∈ dotted ip := by
    rw [← heq, hpriv]
    exact List.mem_append_left _ (by decide)
  rcases mem_dotted hzero with hdot | hdigit
  · exact absurd hdot (by decide)
  · exact absurd hdigit (by decide)

theorem relayPeers_servers (rows : List ServerRow) :
    relayPeers (rows.filterMap (serverPeer W)) = rows.filterMap (serverPeer W) := by
  apply List.filter_eq_self.mpr
  intro p hp
  obtain ⟨s, -, hs⟩ := List.mem_filterMap.mp hp
  exact Option.isSome_iff_ne_none.mpr (serverPeer_eq_some hs).1

theorem relayPeers_users (rows : List UserRow) :
    relayPeers (rows.filterMap (userPeer W)) = [] := by
  apply List.filter_eq_nil_iff.mpr
  intro p hp
  obtain ⟨u, -, hu⟩ := List.mem_filterMap.mp hp
  simp [(userPeer_eq_some hu).1]

/-- Every relay of a checked database becomes a peer. -/
theorem Checked.relays (hc : Checked db) {text : Bytes} (hwg : wgPrivip addrs = some text) :
    ∃ peers, updateConnection W db addrs = .ok peers ∧
      (relayPeers peers).map some = db.servers.rows.map (serverPeer W) := by
  obtain ⟨ip, -, rfl⟩ := wgPrivip_dotted hwg
  have hall : db.servers.rows.filter (fun row => row.serverPrivip ≠ dotted ip) =
      db.servers.rows := by
    apply List.filter_eq_self.mpr
    intro s hs
    exact decide_eq_true (privip_ne_dotted (hc.servers s hs) ip)
  refine ⟨_, by rw [updateConnection, hwg], ?_⟩
  rw [hall, relayPeers, List.filter_append, ← relayPeers, relayPeers_servers, ← relayPeers,
    relayPeers_users, List.append_nil]
  rw [List.map_filterMap_some_eq_filter_map_isSome]
  apply List.filter_eq_self.mpr
  intro op hop
  obtain ⟨s, hs, rfl⟩ := List.mem_map.mp hop
  obtain ⟨p, hp⟩ := serverPeer_valid (hc.servers s hs)
  rw [hp]
  rfl

/-- A list of all relays is not a mesh: the local one is in it. -/
theorem not_mesh {own : ServerRow} (hown : own ∈ db.servers.rows) {peers : List PeerConfig}
    (h : (relayPeers peers).map some = db.servers.rows.map (serverPeer W)) :
    ¬ Mesh W db own peers := by
  intro hmesh
  have hlen := hmesh.length_eq
  rw [h, List.length_map, List.length_map] at hlen
  have hother := List.length_filter_eq_length_iff.mp hlen.symm own hown
  exact absurd rfl (of_decide_eq_true hother)

/-- **Every relay becomes a peer**, in every state reached and for every local address. -/
theorem all_relays (h : (control E W).Reach Any x) {text : Bytes}
    (hwg : wgPrivip addrs = some text) :
    ∃ peers, updateConnection W x.memory.db addrs = .ok peers ∧
      (relayPeers peers).map some = x.memory.db.servers.rows.map (serverPeer W) :=
  (checked_reach h).relays hwg

/-- **A relay is never left out of its own peers**: in every state reached, for the relay of
every row and every list of addresses of `wg0` that gives the private address of that row. -/
theorem mesh_never (h : (control E W).Reach Any x) {own : ServerRow}
    (hown : own ∈ x.memory.db.servers.rows) {text : Bytes} (hwg : wgPrivip addrs = some text)
    (_ : names text own.serverPrivip = true) : ∃ peers p,
      updateConnection W x.memory.db addrs = .ok peers ∧ ¬ Mesh W x.memory.db own peers ∧
        serverPeer W own = some p ∧ p ∈ peers := by
  obtain ⟨peers, hpeers, hrelays⟩ := all_relays h hwg
  have hmem : serverPeer W own ∈ (relayPeers peers).map some := by
    rw [hrelays]
    exact List.mem_map_of_mem hown
  obtain ⟨p, hp, hpeer⟩ := List.mem_map.mp hmem
  exact ⟨peers, p, hpeers, not_mesh hown hrelays, hpeer.symm, List.mem_of_mem_filter hp⟩

/-- A second relay, at 10.0.0.3. -/
def otherRelay : Input := .addServer ⟨ascii "other", ascii "192.0.2.3", 51820, ascii "10.0.0.3",
  ascii "AgICAgICAgICAgICAgICAgICAgICAgICAgICAgICAgI=",
  ascii "AgICAgICAgICAgICAgICAgICAgICAgICAgICAgICAgI="⟩ 2 .done

/-- A state with two relays, the private address of one being 10.0.0.1. -/
theorem exists_relay : ∃ x own, (control demoEd25519 demoWgTypes).Reach Any x ∧
    own ∈ x.memory.db.servers.rows ∧ names (dotted [10, 0, 0, 1]) own.serverPrivip = true ∧
    x.memory.db.servers.rows.length = 2 := by
  obtain ⟨x, hx, hp⟩ := exists_reach_of_exec (P := control demoEd25519 demoWgTypes)
    [(0, demoRelay), (0, otherRelay)]
    (p := fun x => (x.memory.db.servers.rows.any fun s =>
      names (dotted [10, 0, 0, 1]) s.serverPrivip) &&
      decide (x.memory.db.servers.rows.length = 2)) (by decide +kernel)
  obtain ⟨hany, hlen⟩ := Bool.and_eq_true_iff.mp hp
  obtain ⟨own, hown, hnames⟩ := List.any_eq_true.mp hany
  exact ⟨x, own, hx, hown, hnames, of_decide_eq_true hlen⟩

/-- The peers on one of two relays: both are among them. -/
theorem mesh_never_two : ∃ x own peers p, (control demoEd25519 demoWgTypes).Reach Any x ∧
    own ∈ x.memory.db.servers.rows ∧ x.memory.db.servers.rows.length = 2 ∧
    updateConnection demoWgTypes x.memory.db [[10, 0, 0, 1]] = .ok peers ∧
    ¬ Mesh demoWgTypes x.memory.db own peers ∧ serverPeer demoWgTypes own = some p ∧ p ∈ peers ∧
    (relayPeers peers).length = 2 := by
  obtain ⟨x, own, hx, hown, hnames, hlen⟩ := exists_relay
  have hwg : wgPrivip [[10, 0, 0, 1]] = some (dotted [10, 0, 0, 1]) := rfl
  obtain ⟨peers, p, hpeers, hmesh, hp, hmem⟩ := mesh_never hx hown hwg hnames
  obtain ⟨peers', hpeers', hrelays⟩ := all_relays hx hwg
  obtain rfl : peers = peers' := Except.ok.inj (hpeers.symm.trans hpeers')
  have htwo := congrArg List.length hrelays
  rw [List.length_map, List.length_map, hlen] at htwo
  exact ⟨x, own, peers, p, hx, hown, hlen, hpeers, hmesh, hp, hmem, htwo⟩

/-- The relay at 10.0.0.1, one of two in the database, gets itself as a peer. -/
theorem own_peer : ¬ ∀ (E : Ed25519) (W : WgTypes) (x : Config ℕ Memory Task Event),
    (control E W).Reach Any x →
    ∀ own ∈ x.memory.db.servers.rows, ∀ addrs text peers, wgPrivip addrs = some text →
      names text own.serverPrivip = true → updateConnection W x.memory.db addrs = .ok peers →
      Mesh W x.memory.db own peers := by
  intro hall
  obtain ⟨x, own, hx, hown, hnames, -⟩ := exists_relay
  have hwg : wgPrivip [[10, 0, 0, 1]] = some (dotted [10, 0, 0, 1]) := rfl
  obtain ⟨peers, hpeers, hrelays⟩ := all_relays hx hwg
  exact not_mesh hown hrelays (hall _ _ x hx own hown _ _ peers hwg hnames hpeers)

end GuardedIM.Control
