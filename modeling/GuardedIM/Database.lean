import GuardedIM.Address
import GuardedIM.Keys
import GuardedIM.Table

/-!
# The database of the control server

The two tables of `InitializeDB` with their `PRIMARY KEY` and `UNIQUE` columns, and the
two functions that add rows: `AddServer`, and `AddUser` behind its caller `addUserCmd`. A
statement is atomic; its `Outcome` says what the database makes of it, and the identity
column of a new row is the database's choice as well.

* `addServer_rows`, `addUser_rows`: whatever the outcome, the other rows stay as they are.
* `serverRow_valid`, `userRow_valid`: what the checks ensure of a row that is inserted.
-/

namespace GuardedIM

/-! ## The tables -/

/-- A row of `server_info_table`. -/
structure ServerRow where
  /-- the primary key -/
  serverID : ℕ
  /-- its name -/
  serverName : Bytes
  /-- the public address, 16 bytes -/
  serverPubip : Bytes
  /-- the WireGuard port -/
  serverPort : UInt16
  /-- the private address, 16 bytes, unique -/
  serverPrivip : Bytes
  /-- the public key, unique -/
  serverPubkey : Bytes
  /-- the preshared key -/
  serverPresharedkey : Bytes
deriving DecidableEq

/-- A row of `user_info_table`. -/
structure UserRow where
  /-- the primary key -/
  userID : ℕ
  /-- the name, unique -/
  username : Bytes
  /-- the name to show -/
  displayName : Bytes
  /-- the public key, unique -/
  userPubkey : Bytes
  /-- the text of an address, unique -/
  latestIp : Bytes
deriving DecidableEq

/-- Two server rows break a constraint. -/
def ServerRow.Clash (r r' : ServerRow) : Prop :=
  r.serverID = r'.serverID ∨ r.serverPrivip = r'.serverPrivip ∨ r.serverPubkey = r'.serverPubkey

/-- Two user rows break a constraint. -/
def UserRow.Clash (r r' : UserRow) : Prop :=
  r.userID = r'.userID ∨ r.username = r'.username ∨ r.userPubkey = r'.userPubkey ∨
    r.latestIp = r'.latestIp

instance : DecidableRel ServerRow.Clash := fun r r' => by
  unfold ServerRow.Clash
  infer_instance

instance : DecidableRel UserRow.Clash := fun r r' => by
  unfold UserRow.Clash
  infer_instance

theorem UserRow.Clash.symm {r r' : UserRow} (h : r.Clash r') : r'.Clash r := by
  simp only [UserRow.Clash] at h ⊢
  simpa only [eq_comm] using h

/-- The database. -/
structure Database where
  /-- `server_info_table` -/
  servers : Table ServerRow ServerRow.Clash
  /-- `user_info_table` -/
  users : Table UserRow UserRow.Clash

/-- What becomes of a statement. -/
inductive Outcome where
  /-- it is executed -/
  | done
  /-- it is not executed, and an error is returned -/
  | failed
  /-- it is executed, but the answer is lost and an error is returned -/
  | lost
deriving DecidableEq

/-- The two results of a function that fails: a code and the text of the error, without the
error it wraps. -/
structure Failure where
  /-- the code -/
  code : ℤ
  /-- the text -/
  text : String

/-! ## `AddServer` -/

/-- The arguments of `AddServer`. -/
structure ServerArgs where
  /-- `server_name` -/
  serverName : Bytes
  /-- `server_pubip` -/
  serverPubip : Bytes
  /-- `server_port` -/
  serverPort : UInt16
  /-- `server_privip` -/
  serverPrivip : Bytes
  /-- `server_pubkey` -/
  serverPubkey : Bytes
  /-- `server_presharedkey` -/
  serverPresharedkey : Bytes

/-- `net.ParseCIDR("10.0.0.0/8")` -/
def subnet10 : IPNet := ⟨[10, 0, 0, 0], [255, 0, 0, 0]⟩

/-- The name to store. -/
def ServerArgs.name (a : ServerArgs) : Bytes :=
  if a.serverName = [] then ascii "default_server_name" else a.serverName

/-- The checks of `AddServer` and the row it inserts; a null address fails in the database. -/
def serverRow (W : WgTypes) (a : ServerArgs) (id : ℕ) : Except Failure ServerRow :=
  match W.parseKey a.serverPubkey with
  | none => .error ⟨-1, "invalid public key"⟩
  | some wgpubkey =>
    match W.parseKey a.serverPresharedkey with
    | none => .error ⟨-2, "invalid preshared key"⟩
    | some wgpsk =>
      if 64 < a.name.length then .error ⟨-3, "invalid servername! it's too long"⟩
      else
        match parseIP a.serverPubip with
        | none => .error ⟨-4, "invalid public IP! please check"⟩
        | some pubIP =>
          match parseIP a.serverPrivip with
          | none => .error ⟨-5, "invalid private IP! please check"⟩
          | some privIP =>
            if !subnet10.contains privIP then
              .error ⟨-6, "invalid private IP: must be within 10.0.0.0/8"⟩
            else
              match to16 pubIP, to16 privIP with
              | some pubIP16, some privIP16 =>
                .ok ⟨id, a.name, pubIP16, a.serverPort, privIP16, wgpubkey, wgpsk⟩
              | _, _ => .error ⟨-7, "insert relay server row"⟩

/-- `AddServer` -/
def addServer (W : WgTypes) (db : Database) (a : ServerArgs) (id : ℕ) (o : Outcome) :
    Except Failure ℕ × Database :=
  match serverRow W a id with
  | .error e => (.error e, db)
  | .ok row =>
    match o, db.servers.insert row with
    | .done, some servers => (.ok id, { db with servers })
    | .lost, some servers => (.error ⟨-7, "insert relay server row"⟩, { db with servers })
    | _, _ => (.error ⟨-7, "insert relay server row"⟩, db)

/-! ## `AddUser` -/

/-- The arguments of `AddUser`. -/
structure UserArgs where
  /-- `username` -/
  username : Bytes
  /-- `display_name` -/
  displayName : Bytes
  /-- `pubkey` -/
  pubkey : Bytes
  /-- `latest_ip` -/
  latestIp : Bytes

/-- The checks of `AddUser` and the row it inserts. -/
def userRow (W : WgTypes) (a : UserArgs) (id : ℕ) : Except Failure UserRow :=
  match W.parseKey a.pubkey with
  | none => .error ⟨-1, "invalid public key"⟩
  | some wgpubkey =>
    if a.username = [] ∨ 64 < a.username.length then
      .error ⟨-2, "invalid username! It's empty or too long"⟩
    else if a.username.any fun c => 0x7F < c.toNat then
      .error ⟨-3, "invalid username! Special characters are not allowed"⟩
    else if (decode a.displayName).isNone then
      .error ⟨-4, "illegal display name! It's not a valid UTF8 string"⟩
    else if a.displayName = [] ∨ 128 < a.displayName.length then
      .error ⟨-5, "display name too long! Please choose a shorter one"⟩
    else .ok ⟨id, a.username, a.displayName, wgpubkey, a.latestIp⟩

/-- `AddUser` -/
def addUser (W : WgTypes) (db : Database) (a : UserArgs) (id : ℕ) (o : Outcome) :
    Except Failure ℕ × Database :=
  match userRow W a id with
  | .error e => (.error e, db)
  | .ok row =>
    match o, db.users.insert row with
    | .done, some users => (.ok id, { db with users })
    | .lost, some users => (.error ⟨-6, "insert user_info_table"⟩, { db with users })
    | _, _ => (.error ⟨-6, "insert user_info_table"⟩, db)

/-- The display name to store. -/
def UserArgs.shown (a : UserArgs) : Bytes :=
  if a.displayName = [] then a.username else a.displayName

/-- What `addUserCmd` passes on to `AddUser`; `none` when it prints the usage or refuses the
address. -/
def addUserCmd (a : UserArgs) : Option UserArgs :=
  if a.username = [] ∨ a.latestIp = [] ∨ a.pubkey = [] then none
  else if (parseIP a.latestIp).isNone then none
  else some { a with displayName := a.shown }

/-! ## What the checks ensure -/

variable {W : WgTypes}

/-- What `AddServer` ensures of a row. -/
structure ServerRow.Valid (r : ServerRow) : Prop where
  /-- the private address is an IPv4 address in 16 bytes -/
  privip : ∃ ip, ip.length = 4 ∧ r.serverPrivip = v4InV6Prefix ++ ip
  /-- the public key is a key -/
  pubkey : r.serverPubkey.length = 32
  /-- the preshared key is a key -/
  presharedkey : r.serverPresharedkey.length = 32

/-- What `addUserCmd` and `AddUser` ensure of a row. -/
structure UserRow.Valid (r : UserRow) : Prop where
  /-- the address parses -/
  latestIp : (parseIP r.latestIp).isSome
  /-- the public key is a key -/
  pubkey : r.userPubkey.length = 32

/-- An address within an IPv4 network is an IPv4 address. -/
theorem contains_to4 {ip : Bytes} (hlen : ip.length = 16) (h : subnet10.contains ip = true) :
    ∃ ip4, ip4.length = 4 ∧ ip = v4InV6Prefix ++ ip4 := by
  have hnone : to4 ip ≠ none := by
    intro hnone
    simp [IPNet.contains, hnone, subnet10, hlen] at h
  rw [to4, if_neg (by omega)] at hnone
  split_ifs at hnone with hprefix
  · refine ⟨ip.drop 12, by simp [hlen], ?_⟩
    rw [← hprefix.2, List.take_append_drop]
  · exact absurd rfl hnone

/-- A row that passes the checks of `AddServer` is made of its arguments. -/
structure ServerRow.MadeOf (W : WgTypes) (r : ServerRow) (a : ServerArgs) (id : ℕ) : Prop where
  /-- under the identity the database chose -/
  serverID : r.serverID = id
  /-- the public key -/
  pubkey : W.parseKey a.serverPubkey = some r.serverPubkey
  /-- the preshared key -/
  presharedkey : W.parseKey a.serverPresharedkey = some r.serverPresharedkey
  /-- the public address, 16 bytes -/
  pubip : parseIP a.serverPubip = some r.serverPubip
  /-- its port -/
  port : r.serverPort = a.serverPort
  /-- the private address, 16 bytes -/
  privip : parseIP a.serverPrivip = some r.serverPrivip
  /-- which is in 10.0.0.0/8 -/
  subnet : subnet10.contains r.serverPrivip = true

/-- An address that was parsed has 16 bytes already. -/
theorem to16_parseIP {s ip : Bytes} (h : parseIP s = some ip) : to16 ip = some ip := by
  have hlen := length_parseIP h
  rw [to16, if_neg (by omega), if_pos hlen]

theorem serverRow_madeOf {a : ServerArgs} {id : ℕ} {r : ServerRow} (h : serverRow W a id = .ok r) :
    r.MadeOf W a id := by
  simp only [serverRow] at h
  split at h
  · cases h
  rename_i wgpubkey hpubkey
  split at h
  · cases h
  rename_i wgpsk hpsk
  split at h
  · cases h
  split at h
  · cases h
  rename_i pubIP hpub
  split at h
  · cases h
  rename_i privIP hpriv
  split at h
  · cases h
  rename_i hsubnet
  rw [to16_parseIP hpub, to16_parseIP hpriv] at h
  obtain rfl := Except.ok.inj h
  exact ⟨rfl, hpubkey, hpsk, hpub, rfl, hpriv, by simpa using hsubnet⟩

theorem serverRow_valid {a : ServerArgs} {id : ℕ} {r : ServerRow} (h : serverRow W a id = .ok r) :
    r.Valid ∧ parseIP a.serverPrivip = some r.serverPrivip := by
  have hr := serverRow_madeOf h
  exact ⟨⟨contains_to4 (length_parseIP hr.privip) hr.subnet, W.length_parseKey hr.pubkey,
    W.length_parseKey hr.presharedkey⟩, hr.privip⟩

theorem userRow_valid {a a' : UserArgs} {id : ℕ} {r : UserRow} (hcmd : addUserCmd a = some a')
    (h : userRow W a' id = .ok r) : r.Valid ∧ r.userID = id ∧ r.latestIp = a.latestIp := by
  rw [addUserCmd] at hcmd
  split_ifs at hcmd with hempty hip
  obtain rfl := Option.some.inj hcmd
  rw [userRow] at h
  split at h
  · cases h
  rename_i wgpubkey hpubkey
  split_ifs at h
  all_goals
    obtain rfl := Except.ok.inj h
    exact ⟨⟨by simpa [Option.isSome_iff_ne_none] using hip, W.length_parseKey hpubkey⟩, rfl, rfl⟩

/-- `AddServer` inserts one row or changes nothing. -/
theorem addServer_rows (db : Database) (a : ServerArgs) (id : ℕ) (o : Outcome) :
    (addServer W db a id o).2 = db ∨ ∃ row servers, serverRow W a id = .ok row ∧
      db.servers.insert row = some servers ∧ (addServer W db a id o).2 = { db with servers } := by
  unfold addServer
  split
  · exact .inl rfl
  · rename_i row hrow
    split
    · rename_i servers hinsert
      exact .inr ⟨row, servers, hrow, hinsert, rfl⟩
    · rename_i servers hinsert
      exact .inr ⟨row, servers, hrow, hinsert, rfl⟩
    · exact .inl rfl

/-- `AddUser` inserts one row or changes nothing. -/
theorem addUser_rows (db : Database) (a : UserArgs) (id : ℕ) (o : Outcome) :
    (addUser W db a id o).2 = db ∨ ∃ row users, userRow W a id = .ok row ∧
      db.users.insert row = some users ∧ (addUser W db a id o).2 = { db with users } := by
  unfold addUser
  split
  · exact .inl rfl
  · rename_i row hrow
    split
    · rename_i users hinsert
      exact .inr ⟨row, users, hrow, hinsert, rfl⟩
    · rename_i users hinsert
      exact .inr ⟨row, users, hrow, hinsert, rfl⟩
    · exact .inl rfl

end GuardedIM
