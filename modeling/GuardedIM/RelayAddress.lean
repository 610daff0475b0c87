import GuardedIM.Subnet

/-!
# The address of a relay

Three functions look at the private address of a relay. `AddServer` stores it if it is in
10.0.0.0/8, `setupWG0Linux` gives it to the interface if it ends with 1, and `UpdateConnection`
looks for an IPv4 address on the interface.

* `relay_survives`: what `AddServer` stores, `UpdateConnection` makes the peer of, whatever notation
  the arguments were in.
* `relay_addresses`: where the rules of the three agree.
-/

namespace GuardedIM.Control

variable {W : WgTypes} {db db' : Database} {a : ServerArgs} {id n : ℕ} {o : Outcome}
  {row : ServerRow} {text ip ip4 : Bytes} {p : PeerConfig}

/-! ## From the arguments to the peer -/

/-- The peer is the one that the arguments of `AddServer` are about. -/
structure DescribedBy (W : WgTypes) (p : PeerConfig) (a : ServerArgs) : Prop where
  /-- the public key -/
  publicKey : W.parseKey a.serverPubkey = some p.publicKey
  /-- the preshared key -/
  presharedKey : ∃ psk, W.parseKey a.serverPresharedkey = some psk ∧ p.presharedKey = some psk
  /-- the public address and the port -/
  endpoint : ∃ ip, parseIP a.serverPubip = some ip ∧ p.endpoint = some (ip, a.serverPort)
  /-- the private address, an IPv4 address in 10.0.0.0/8, and nothing else -/
  allowedIPs : ∃ n ip4, p.allowedIPs = [n] ∧ Denotes a.serverPrivip ip4 ∧ ip4.head? = some 10 ∧
    ∀ ip, n.covers ip = true ↔ to4 ip = some ip4

/-- The subnet of the relays, by the first octet. -/
theorem contains_subnet10 (h : ip4.length = 4) :
    subnet10.contains (v4InV6Prefix ++ ip4) = true ↔ ip4.head? = some 10 := by
  obtain ⟨w, x, y, z, rfl⟩ := List.length_eq_four.mp h
  have hbyte : w &&& 255 = w := UInt8.and_neg_one
  rw [IPNet.contains, to4_mapped h, Option.getD_some]
  have hten : (10 : UInt8) &&& 255 = 10 := UInt8.and_neg_one
  simp [subnet10, hbyte, hten, eq_comm]

theorem serverPeer_madeOf (h : row.MadeOf W a id) : ∃ p, serverPeer W row = some p ∧
    DescribedBy W p a := by
  have hpubkey : W.newKey row.serverPubkey = some row.serverPubkey :=
    W.newKey_of_length (W.length_parseKey h.pubkey)
  have hpsk : W.newKey row.serverPresharedkey = some row.serverPresharedkey :=
    W.newKey_of_length (W.length_parseKey h.presharedkey)
  obtain ⟨ip4, hlen, hpriv⟩ := contains_to4 (length_parseIP h.privip) h.subnet
  have hten : ip4.head? = some 10 := by
    rw [← contains_subnet10 hlen, ← hpriv]
    exact h.subnet
  refine ⟨_, by rw [serverPeer, hpubkey, hpsk], h.pubkey, ⟨_, h.presharedkey, rfl⟩,
    ⟨_, h.pubip, by rw [h.port]⟩, _, ip4, rfl, ⟨hlen, by rw [h.privip, hpriv]⟩, hten, fun ip => ?_⟩
  rw [hpriv]
  exact covers_host hlen ip

/-- **A relay survives the database**: the row that `AddServer` inserts becomes the peer that its
arguments describe, in every peer list made of a database with the row. -/
theorem relay_survives (h : addServer W db a id o = (.ok n, db')) :
    ∃ row ∈ db'.servers.rows, row.serverID = n ∧ ∃ p, serverPeer W row = some p ∧
      DescribedBy W p a ∧ ∀ (db : Database) (addrs : List Bytes) (peers : List PeerConfig),
        row ∈ db.servers.rows → updateConnection W db addrs = .ok peers → p ∈ peers := by
  obtain ⟨row, servers, hrow, hinsert, hid, rfl⟩ : ∃ row servers, serverRow W a id = .ok row ∧
      db.servers.insert row = some servers ∧ id = n ∧ { db with servers } = db' := by
    rw [addServer] at h
    split at h
    · cases h
    · rename_i row hrow
      split at h
      · rename_i servers hinsert
        obtain ⟨hn, hdb⟩ := Prod.mk.inj h
        exact ⟨row, servers, hrow, hinsert, Except.ok.inj hn, hdb⟩
      · cases h
      · cases h
  have hmade := serverRow_madeOf hrow
  obtain ⟨p, hp, hdescribed⟩ := serverPeer_madeOf hmade
  refine ⟨row, (Table.mem_insert hinsert).mpr (.inr rfl), hmade.serverID.trans hid, p, hp,
    hdescribed, fun db addrs peers hmem hpeers => ?_⟩
  rw [updateConnection] at hpeers
  split at hpeers
  · cases hpeers
  · rename_i wg_privip hwg
    obtain rfl := Except.ok.inj hpeers
    obtain ⟨ip, -, rfl⟩ := wgPrivip_dotted hwg
    refine List.mem_append_left _ (List.mem_filterMap.mpr ⟨row, ?_, hp⟩)
    exact List.mem_filter.mpr
      ⟨hmem, decide_eq_true (privip_ne_dotted (serverRow_valid hrow).1 ip)⟩

/-- A relay at 10.0.0.1, whose private address is given as an IPv6 address. -/
def demoArgs : ServerArgs := ⟨ascii "relay-a", ascii "203.0.113.10", 51820,
  ascii "::ffff:10.0.0.1", demoPubKey, demoPubKey⟩

/-- It is stored, and becomes a peer. -/
theorem relay_survives_mapped : ∃ db row p,
    addServer demoWgTypes ⟨.empty, .empty⟩ demoArgs 1 .done = (.ok 1, db) ∧
      row ∈ db.servers.rows ∧ serverPeer demoWgTypes row = some p ∧
      DescribedBy demoWgTypes p demoArgs := by
  obtain ⟨db, h⟩ : ∃ db, addServer demoWgTypes ⟨.empty, .empty⟩ demoArgs 1 .done =
    (.ok 1, db) := ⟨_, rfl⟩
  obtain ⟨row, hmem, -, p, hp, hdescribed, -⟩ := relay_survives h
  exact ⟨db, row, p, h, hmem, hp, hdescribed⟩

/-! ## `setupWG0Linux` -/

/-- `binary.BigEndian.Uint16` -/
def bigEndian16 (b : Bytes) : ℕ := (b.getD 0 0).toNat * 256 + (b.getD 1 0).toNat

/-- The checks of `setupWG0Linux` on `server_privip`, and the address for the interface. -/
def interfaceAddress (serverPrivip : Bytes) : Except String IPNet :=
  match parseIP serverPrivip with
  | none => .error "invalid IP address"
  | some privip =>
    match to4 privip with
    | some v4 =>
      if v4.getD 3 0 ≠ 1 then .error "IPv4 server_privip must end with .1"
      else .ok ⟨v4, hostMask⟩
    | none =>
      let ip16 := (to16 privip).getD []
      if bigEndian16 (ip16.drop 14) ≠ 1 then .error "IPv6 server_privip must end with :1"
      else .ok ⟨ip16, List.replicate 16 255⟩

/-- What `setupWG0Linux` configures: the address of the interface and its MTU. -/
def setupWG0Linux (serverPrivip : Bytes) (MTU : ℤ) : Except String (IPNet × ℤ) :=
  match interfaceAddress serverPrivip with
  | .error e => .error e
  | .ok ipNet =>
    let MTU := if MTU = 0 then 1500 else MTU
    if MTU > 1700 ∨ MTU < 800 then .error "MTU must be between 800 and 1700" else .ok (ipNet, MTU)

/-- `wg_iface.Addrs()` of an interface with one address: package `net` gives IPv4 addresses in 16
bytes. -/
def addrsOf (ipNet : IPNet) : List Bytes := (to16 ipNet.ip).toList

/-- A relay can be started with this private address. -/
def Startable (text : Bytes) : Prop := ∃ MTU setup, setupWG0Linux text MTU = .ok setup

/-- A relay can be registered with this private address. -/
def Registrable (W : WgTypes) (text : Bytes) : Prop :=
  ∃ a id row, a.serverPrivip = text ∧ serverRow W a id = .ok row

theorem startable_iff_interface : Startable text ↔ ∃ ipNet, interfaceAddress text = .ok ipNet := by
  constructor
  · rintro ⟨MTU, setup, h⟩
    rw [setupWG0Linux] at h
    split at h
    · cases h
    · rename_i ipNet hip
      exact ⟨ipNet, hip⟩
  · rintro ⟨ipNet, hip⟩
    exact ⟨0, (ipNet, 1500), by rw [setupWG0Linux, hip]; rfl⟩

theorem setupWG0Linux_address {MTU : ℤ} {setup : IPNet × ℤ}
    (h : setupWG0Linux text MTU = .ok setup) : interfaceAddress text = .ok setup.1 := by
  rw [setupWG0Linux] at h
  split at h
  · cases h
  · rename_i ipNet hip
    dsimp only at h
    split_ifs at h
    all_goals rw [← Except.ok.inj h, hip]

theorem denotes_iff : Denotes text ip4 ↔ ∃ ip, parseIP text = some ip ∧ to4 ip = some ip4 := by
  constructor
  · rintro ⟨hlen, hparse⟩
    exact ⟨_, hparse, to4_mapped hlen⟩
  · rintro ⟨ip, hparse, h4⟩
    have hlen := length_parseIP hparse
    refine ⟨length_to4 h4, ?_⟩
    rw [to4, if_neg (by omega)] at h4
    split_ifs at h4 with hmapped
    rw [hparse, ← Option.some.inj h4, ← hmapped.2, List.take_append_drop]

/-- A text denotes one address. -/
theorem Denotes.to4_eq (h : Denotes text ip4) (hparse : parseIP text = some ip) :
    to4 ip = some ip4 := by
  obtain ⟨ip', hparse', h4⟩ := denotes_iff.mp h
  rw [hparse] at hparse'
  rwa [Option.some.inj hparse']

/-- The addresses of relays that can be registered. -/
theorem registrable_iff : Registrable W text ↔ ∃ ip4, Denotes text ip4 ∧ ip4.head? = some 10 := by
  constructor
  · rintro ⟨a, id, row, rfl, hrow⟩
    obtain ⟨p, -, hdescribed⟩ := serverPeer_madeOf (serverRow_madeOf hrow)
    obtain ⟨n, ip4, -, hdenotes, hten, -⟩ := hdescribed.allowedIPs
    exact ⟨ip4, hdenotes, hten⟩
  · rintro ⟨ip4, ⟨hlen, hparse⟩, hten⟩
    have hsubnet := (contains_subnet10 hlen).mpr hten
    let key := W.string (List.replicate 32 0)
    let a : ServerArgs := ⟨ascii "relay-a", ascii "203.0.113.10", 51820, text, key, key⟩
    have hkey : W.parseKey key = some (List.replicate 32 0) := W.parseKey_string rfl
    have hpub : parseIP (ascii "203.0.113.10") = some (v4InV6Prefix ++ [203, 0, 113, 10]) := rfl
    have hname : ¬ 64 < a.name.length := by
      rw [show a.name = ascii "relay-a" from rfl]
      decide
    refine ⟨a, 1, ⟨1, ascii "relay-a", v4InV6Prefix ++ [203, 0, 113, 10], 51820,
      v4InV6Prefix ++ ip4, List.replicate 32 0, List.replicate 32 0⟩, rfl, ?_⟩
    rw [serverRow]
    simp only [a, hkey, if_neg hname, hpub, hparse, hsubnet, to16_parseIP hpub, to16_parseIP hparse,
      Bool.not_true, Bool.false_eq_true, if_false]
    rfl

theorem bigEndian16_eq_one {b : Bytes} (h : b.length = 2) : bigEndian16 b = 1 ↔ b = [0, 1] := by
  obtain ⟨x, y, rfl⟩ := List.length_eq_two.mp h
  have hval : bigEndian16 [x, y] = x.toNat * 256 + y.toNat := rfl
  have hy := y.toNat_lt
  rw [hval]
  simp only [List.cons.injEq, and_true, ← UInt8.toNat_inj]
  change _ ↔ x.toNat = 0 ∧ y.toNat = 1
  omega

/-- The addresses of relays that can be started. -/
theorem startable_iff : Startable text ↔
    (∃ ip4, Denotes text ip4 ∧ ip4.getLast? = some 1) ∨
      ∃ ip, parseIP text = some ip ∧ to4 ip = none ∧ ip.drop 14 = [0, 1] := by
  rw [startable_iff_interface, interfaceAddress]
  rcases hparse : parseIP text with _ | ip
  · refine iff_of_false (by simp) ?_
    rintro (⟨ip4, ⟨-, hdenotes⟩, -⟩ | ⟨ip, hip, -⟩)
    · rw [hparse] at hdenotes
      cases hdenotes
    · cases hip
  have hsame : ∀ {ip'}, some ip = some ip' ↔ ip' = ip := by
    simp [eq_comm]
  simp only [denotes_iff, hparse, hsame, exists_eq_left]
  rcases h4 : to4 ip with _ | ip4
  · have hlen : (ip.drop 14).length = 2 := by
      rw [List.length_drop, length_parseIP hparse]
    have hword := bigEndian16_eq_one hlen
    simp only [to16_parseIP hparse, Option.getD_some, ← hword]
    by_cases hone : bigEndian16 (ip.drop 14) = 1
    · simp [hone]
    · simp [hone]
  · obtain ⟨w, x, y, z, rfl⟩ := List.length_eq_four.mp (length_to4 h4)
    by_cases hone : z = 1
    · simp [hone]
    · simp [hone]

/-- The local address that `UpdateConnection` finds is the one that was set. -/
theorem wgPrivip_addrsOf {ipNet : IPNet} (h : interfaceAddress text = .ok ipNet) :
    (∃ s, wgPrivip (addrsOf ipNet) = some s ∧ parseIP s = parseIP text) ↔
      ∃ ip4, Denotes text ip4 := by
  rw [interfaceAddress] at h
  split at h
  · cases h
  rename_i ip hparse
  split at h
  · rename_i v4 h4
    split_ifs at h
    obtain rfl := Except.ok.inj h
    have hlen := length_to4 h4
    have hdenotes : Denotes text v4 := denotes_iff.mpr ⟨ip, hparse, h4⟩
    have haddrs : addrsOf ⟨v4, hostMask⟩ = [v4InV6Prefix ++ v4] := by
      rw [addrsOf, to16, if_pos hlen]
      rfl
    refine iff_of_true ⟨dotted v4, ?_, ?_⟩ ⟨v4, hdenotes⟩
    · rw [haddrs]
      simp [wgPrivip, to4_mapped hlen]
    · rw [hdenotes.2, parseIP_of_parseIPv4 (parseIPv4_dotted hlen)]
  · rename_i h4
    simp only [to16_parseIP hparse, Option.getD_some] at h
    split_ifs at h
    obtain rfl := Except.ok.inj h
    have haddrs : addrsOf ⟨ip, List.replicate 16 255⟩ = [ip] := by
      rw [addrsOf, to16_parseIP hparse]
      rfl
    refine iff_of_false ?_ ?_
    · rw [haddrs]
      simp [wgPrivip, h4]
    · rintro ⟨ip4, hdenotes⟩
      rw [hdenotes.to4_eq hparse] at h4
      cases h4

/-- **Where the rules agree**: an address that a relay can be started with can be registered
exactly if it is an IPv4 address in 10.0.0.0/8, and `UpdateConnection` finds it exactly if it is an
IPv4 address. One that can be registered is good for a start exactly if it ends with 1. -/
theorem relay_addresses (text : Bytes) :
    (Startable text → (Registrable W text ↔ ∃ ip4, Denotes text ip4 ∧ ip4.head? = some 10)) ∧
    (∀ MTU setup, setupWG0Linux text MTU = .ok setup →
      ((∃ s, wgPrivip (addrsOf setup.1) = some s ∧ parseIP s = parseIP text) ↔
        ∃ ip4, Denotes text ip4)) ∧
    (Registrable W text → (Startable text ↔ ∃ ip4, Denotes text ip4 ∧ ip4.getLast? = some 1)) := by
  refine ⟨fun _ => registrable_iff, fun MTU setup h =>
    wgPrivip_addrsOf (setupWG0Linux_address h), fun hreg => ?_⟩
  obtain ⟨ip4, hdenotes, -⟩ := registrable_iff.mp hreg
  rw [startable_iff, or_iff_left]
  rintro ⟨ip, hparse, h4, -⟩
  rw [hdenotes.to4_eq hparse] at h4
  cases h4

/-- A relay can be started with 192.168.0.1 and not registered; with 10.0.0.2 it is the other way
round. -/
theorem rules_differ :
    (¬ ∀ text, Startable text → Registrable demoWgTypes text) ∧
      ¬ ∀ text, Registrable demoWgTypes text → Startable text := by
  refine ⟨fun hall => ?_, fun hall => ?_⟩
  · have hparse : parseIP (ascii "192.168.0.1") = some (v4InV6Prefix ++ [192, 168, 0, 1]) := rfl
    obtain ⟨ip4, hdenotes, hten⟩ := registrable_iff.mp
      (hall _ (startable_iff.mpr (.inl ⟨[192, 168, 0, 1], ⟨rfl, hparse⟩, rfl⟩)))
    rw [Denotes, hparse, Option.some.injEq, List.append_cancel_left_eq] at hdenotes
    rw [← hdenotes.2] at hten
    exact absurd hten (by decide)
  · have hparse : parseIP (ascii "10.0.0.2") = some (v4InV6Prefix ++ [10, 0, 0, 2]) := rfl
    have hstart := hall _ (registrable_iff.mpr ⟨[10, 0, 0, 2], ⟨rfl, hparse⟩, rfl⟩)
    rcases startable_iff.mp hstart with ⟨ip4, hdenotes, hone⟩ | ⟨ip, hip, h4, -⟩
    · rw [Denotes, hparse, Option.some.injEq, List.append_cancel_left_eq] at hdenotes
      rw [← hdenotes.2] at hone
      exact absurd hone (by decide)
    · rw [hparse] at hip
      obtain rfl := Option.some.inj hip
      cases h4

end GuardedIM.Control
