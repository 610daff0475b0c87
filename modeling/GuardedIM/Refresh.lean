import GuardedIM.Peers

/-!
# A refresh of the peers that is interrupted

`UpdateConnection` reads two queries row by row and then replaces all peers of the device at
once. An iteration over rows ends with `Next` returning false, at the end of the rows or
because of an error; only `Err` tells which. Here everything the function asks the outside
for can fail.

* `runUpdateConnection_complete`: when nothing fails, the device gets the peer list of the
  database, which is `updateConnection`.
* `allOrNothing_iff`: what happens when a reading breaks off. `Err` is never asked.
-/

namespace GuardedIM.Control

/-- An open `sql.Rows`. -/
structure Rows (ρ : Type) where
  /-- what `Scan` makes of each row that `Next` moves to; `none` when it fails -/
  scanned : List (Option ρ)
  /-- what `Err` reports after `Next` has returned false -/
  err : Option String

/-- What `UpdateConnection` depends on. -/
structure Surroundings where
  /-- the addresses of `wg0`, or the error of one of the four calls that lead to them -/
  addrs : Except String (List Bytes)
  /-- `db.QueryContext(ctx, peer_server_SQL, …)` -/
  serverQuery : Bytes → Except String (Rows ServerRow)
  /-- `db.QueryContext(ctx, peer_user_SQL, …)` -/
  userQuery : Bytes → Except String (Rows UserRow)
  /-- `client.ConfigureDevice("wg0", …)`; when it fails, also the peers the device is left with -/
  configure : List PeerConfig → Except (String × List PeerConfig) Unit

/-- What a call of `UpdateConnection` comes to. -/
structure Refresh where
  /-- the error returned -/
  err : Option String
  /-- the peers `ConfigureDevice` was called with, if it was -/
  configured : Option (List PeerConfig)
  /-- the peers of the device afterwards -/
  device : List PeerConfig

/-- The peers of the rows that were read; rows that cannot be read or used are skipped. -/
def peersOf (W : WgTypes) (servers : Rows ServerRow) (users : Rows UserRow) : List PeerConfig :=
  (servers.scanned.filterMap fun row => row.bind (serverPeer W)) ++
    users.scanned.filterMap fun row => row.bind (userPeer W)

/-- `UpdateConnection`, on a device with the peers `device`. -/
def runUpdateConnection (W : WgTypes) (w : Surroundings) (device : List PeerConfig) : Refresh :=
  match w.addrs with
  | .error e => ⟨some e, none, device⟩
  | .ok addrs =>
    match wgPrivip addrs with
    | none => ⟨some "unable to get wireguard interface IP address", none, device⟩
    | some wg_privip =>
      match w.serverQuery wg_privip with
      | .error e => ⟨some e, none, device⟩
      | .ok servers =>
        match w.userQuery (upToLastDot wg_privip ++ [percent]) with
        | .error e => ⟨some e, none, device⟩
        | .ok users =>
          -- neither `servers.err` nor `users.err` is looked at
          let new_peers := peersOf W servers users
          match w.configure new_peers with
          | .error (e, left) => ⟨some e, some new_peers, left⟩
          | .ok () => ⟨none, some new_peers, new_peers⟩

/-! ## A refresh that is complete -/

/-- The rows of the first query, when it is opened. -/
def Surroundings.serverRows (w : Surroundings) : Option (Rows ServerRow) := do
  let addrs ← w.addrs.toOption
  let wg_privip ← wgPrivip addrs
  (w.serverQuery wg_privip).toOption

/-- The rows of the second query, which is opened after the first. -/
def Surroundings.userRows (w : Surroundings) : Option (Rows UserRow) := do
  let addrs ← w.addrs.toOption
  let wg_privip ← wgPrivip addrs
  let _ ← (w.serverQuery wg_privip).toOption
  (w.userQuery (upToLastDot wg_privip ++ [percent])).toOption

/-- A reading that was started breaks off. -/
def Surroundings.BreaksOff (w : Surroundings) : Prop :=
  (∃ servers, w.serverRows = some servers ∧ servers.err ≠ none) ∨
    ∃ users, w.userRows = some users ∧ users.err ≠ none

/-- A refresh happens completely or not at all. -/
structure AllOrNothing (W : WgTypes) (w : Surroundings) (device : List PeerConfig) : Prop where
  /-- when a reading breaks off, an error is returned and the peers are the old ones -/
  reported : w.BreaksOff → (runUpdateConnection W w device).err ≠ none ∧
    (runUpdateConnection W w device).device = device
  /-- the device is configured with the peers of two result sets that were read to the end -/
  complete : ∀ peers, (runUpdateConnection W w device).configured = some peers →
    ∃ servers users, w.serverRows = some servers ∧ w.userRows = some users ∧
      servers.err = none ∧ users.err = none ∧ peers = peersOf W servers users

variable {W : WgTypes} {w : Surroundings} {device : List PeerConfig} {db : Database}

theorem toOption_eq_some {ε α : Type} {x : Except ε α} {a : α} :
    x.toOption = some a ↔ x = .ok a := by
  cases x <;> simp [Except.toOption]

/-- A refresh that does not open both queries returns an error and changes nothing. -/
theorem run_of_userRows_none (h : w.userRows = none) (device : List PeerConfig) : ∃ e,
    runUpdateConnection W w device = ⟨some e, none, device⟩ := by
  rw [runUpdateConnection]
  split
  · exact ⟨_, rfl⟩
  rename_i addrs haddrs
  split
  · exact ⟨_, rfl⟩
  rename_i wg_privip hwg
  split
  · exact ⟨_, rfl⟩
  rename_i servers hservers
  split
  · exact ⟨_, rfl⟩
  rename_i users husers
  simp [Surroundings.userRows, haddrs, hwg, hservers, husers, Except.toOption] at h

/-- A refresh that opens both configures the device, whatever `Err` would say. -/
theorem run_of_userRows {users : Rows UserRow} (h : w.userRows = some users)
    (device : List PeerConfig) : ∃ servers, w.serverRows = some servers ∧
      (runUpdateConnection W w device).configured = some (peersOf W servers users) := by
  obtain ⟨addrs, haddrs, h⟩ := Option.bind_eq_some_iff.mp h
  obtain ⟨wg_privip, hwg, h⟩ := Option.bind_eq_some_iff.mp h
  obtain ⟨servers, hservers, h⟩ := Option.bind_eq_some_iff.mp h
  rw [toOption_eq_some] at haddrs hservers h
  refine ⟨servers, ?_, ?_⟩
  · simp [Surroundings.serverRows, haddrs, hwg, hservers, Except.toOption]
  · simp only [runUpdateConnection, haddrs, hwg, hservers, h]
    split <;> rfl

/-- **When a refresh is all or nothing**: unless it gets as far as opening both queries, and
one of the two readings then breaks off. -/
theorem allOrNothing_iff (w : Surroundings) (device : List PeerConfig) :
    AllOrNothing W w device ↔ ∀ servers users, w.serverRows = some servers →
      w.userRows = some users → servers.err = none ∧ users.err = none := by
  cases husers : w.userRows with
  | none =>
    obtain ⟨e, hrun⟩ := run_of_userRows_none husers device
    refine iff_of_true ⟨fun _ => ?_, fun peers hpeers => ?_⟩ fun _ _ _ h => nomatch h
    · rw [hrun]
      exact ⟨Option.some_ne_none e, rfl⟩
    · rw [hrun] at hpeers
      cases hpeers
  | some users =>
    obtain ⟨servers, hservers, hrun⟩ := run_of_userRows husers device
    constructor
    · intro h servers' users' hservers' husers'
      obtain ⟨s, u, hs, hu, hserr, huerr, -⟩ := h.complete _ hrun
      obtain rfl := Option.some.inj (hs.symm.trans hservers')
      obtain rfl := Option.some.inj (hu.symm.trans (husers.trans husers'))
      exact ⟨hserr, huerr⟩
    · intro h
      obtain ⟨hserr, huerr⟩ := h servers users hservers rfl
      constructor
      · rintro (⟨s, hs, hne⟩ | ⟨u, hu, hne⟩)
        · rw [hservers] at hs
          exact absurd (Option.some.inj hs ▸ hserr) hne
        · rw [husers] at hu
          exact absurd (Option.some.inj hu ▸ huerr) hne
      · intro peers hpeers
        rw [hrun] at hpeers
        exact ⟨servers, users, hservers, husers, hserr, huerr, (Option.some.inj hpeers).symm⟩

/-! ## Readings of a database -/

/-- The rows of a result set when the reading gets to its end, or breaks off after `n`. -/
def readRows {ρ : Type} (rows : List ρ) (broken : Option (ℕ × String)) : Rows ρ :=
  match broken with
  | none => ⟨rows.map some, none⟩
  | some (n, e) => ⟨(rows.take n).map some, some e⟩

/-- The surroundings with that database, whose two readings may break off. -/
def surroundings (db : Database) (addrs : List Bytes) (servers users : Option (ℕ × String)) :
    Surroundings where
  addrs := .ok addrs
  serverQuery wg_privip :=
    .ok (readRows (db.servers.rows.filter fun row => row.serverPrivip ≠ wg_privip) servers)
  userQuery pattern :=
    .ok (readRows (db.users.rows.filter fun row => like pattern row.latestIp) users)
  configure _ := .ok ()

/-- **An undisturbed refresh** gives the device the peer list of the database. -/
theorem runUpdateConnection_complete {addrs : List Bytes} {peers : List PeerConfig}
    (h : updateConnection W db addrs = .ok peers) :
    runUpdateConnection W (surroundings db addrs none none) device =
      ⟨none, some peers, peers⟩ := by
  rw [updateConnection] at h
  split at h
  · cases h
  · rename_i wg_privip hwg
    obtain rfl := Except.ok.inj h
    simp only [runUpdateConnection, surroundings, hwg, readRows, peersOf, List.filterMap_map,
      Function.comp_def, Option.bind_some]

/-- A database with one user, Alice at 10.0.0.5. -/
def aliceOnly : Database :=
  ⟨⟨[], .nil⟩, ⟨[⟨1, ascii "alice", ascii "alice", List.replicate 32 1, ascii "10.0.0.5"⟩],
    List.pairwise_singleton ..⟩⟩

/-- The second reading times out before its first row: Alice is disconnected, and nobody is
told. -/
theorem alice_disconnected :
    (runUpdateConnection demoWgTypes (surroundings aliceOnly demoAddrs none none)
      []).device.length = 1 ∧
      ∀ device, runUpdateConnection demoWgTypes (surroundings aliceOnly demoAddrs none
          (some (0, "context deadline exceeded"))) device = ⟨none, some [], []⟩ ∧
        ¬ AllOrNothing demoWgTypes (surroundings aliceOnly demoAddrs none
          (some (0, "context deadline exceeded"))) device := by
  refine ⟨by decide +kernel, fun device => ⟨rfl, fun h => ?_⟩⟩
  obtain ⟨servers, users, -, husers, -, herr, -⟩ := h.complete [] rfl
  obtain rfl := Option.some.inj husers
  cases herr

end GuardedIM.Control
