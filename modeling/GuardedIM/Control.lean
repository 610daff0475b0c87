import GuardedIM.Database
import GuardedIM.Dict
import GuardedIM.Interleave

/-!
# The control server

`httpHandleReplaceIP` with its nonce store and its purge loop, and the commands that add
rows to the database, as threads over one shared memory: the clock, the nonce store and
the two tables. A critical section under `globalNonceStoreMu` is one step, and so is a
database statement; between two steps of a request any other thread can run.

* `Moves`: everything a step can do, one constructor a kind of step.
* `control_moves`: the steps of the program are moves. Every invariant of the control
  server goes through it.
-/

namespace GuardedIM.Control

open Interleave Interleave.Program

/-- Ed25519. `ed25519.Verify` accepts exactly the genuine signatures. -/
structure Ed25519 where
  /-- the public key of a private key -/
  pub : Bytes → Bytes
  /-- `ed25519.Sign(key, message)` -/
  sign : Bytes → Bytes → Bytes
  /-- `ed25519.Verify(pubKey, message, sig)` -/
  verify : Bytes → Bytes → Bytes → Bool
  /-- what it accepts was signed with the private key -/
  verify_iff : ∀ pubKey message sig,
    verify pubKey message sig = true ↔ ∃ key, pub key = pubKey ∧ sign key message = sig

/-- A second, in the unit of `time.Duration`. -/
def second : ℕ := 1000000000

/-- `nonceTTL` -/
def nonceTTL : ℕ := 30 * second

/-- `nonceEntry` -/
structure NonceEntry where
  /-- the nonce -/
  val : Bytes
  /-- when it expires -/
  expiry : ℕ
deriving DecidableEq

/-- What the threads share. -/
structure Memory where
  /-- the clock -/
  now : ℕ
  /-- `globalNonceStore` -/
  store : Dict ℕ NonceEntry
  /-- the database -/
  db : Database

/-- The body of a request. -/
structure Request where
  /-- `user_id` -/
  userID : ℕ
  /-- `ip_address` -/
  ipAddress : Bytes
  /-- `sig`, empty in Phase 1 -/
  sigB64 : Bytes
deriving DecidableEq

/-- `hex.EncodeToString` -/
def hexEncode (b : Bytes) : Bytes :=
  b.flatMap fun c => [c.toNat / 16, c.toNat % 16].map fun d =>
    if d < 10 then UInt8.ofNat (48 + d) else UInt8.ofNat (87 + d)

/-- The answer to a request. -/
inductive Reply where
  /-- `http.Error` -/
  | error (status : ℕ) (text : String)
  /-- the nonce in hexadecimal -/
  | challenge (nonce : Bytes)
  /-- `respResult` -/
  | result (free written : Bool)
deriving DecidableEq

/-- Where a thread is. -/
inductive Task where
  /-- waiting for a request, for a command or for the purge -/
  | idle
  /-- Phase 1 -/
  | challenge (r : Request)
  /-- Phase 2, before the lookup -/
  | verify (r : Request)
  /-- the nonce is out of the store -/
  | taken (r : Request) (nonce : Bytes)
  /-- the signature is verified -/
  | verified (r : Request)
  /-- the address is free -/
  | free (r : Request)
  /-- the purge loop has read the clock -/
  | purging (now : ℕ)
deriving DecidableEq

/-- What happens next in a thread. -/
inductive Input where
  /-- time passes -/
  | tick (n : ℕ)
  /-- a request with its method and its body, `none` when it is not JSON -/
  | request (method : String) (body : Option Request)
  /-- `rand.Read` -/
  | random (nonce : Option Bytes)
  /-- the lock is there -/
  | locked
  /-- the database answers -/
  | answer (o : Outcome)
  /-- the purge loop wakes -/
  | wake
  /-- the command `adduser` -/
  | addUser (a : UserArgs) (id : ℕ) (o : Outcome)
  /-- the command `addserver` -/
  | addServer (a : ServerArgs) (id : ℕ) (o : Outcome)

/-- The history. -/
inductive Event where
  /-- thread `t` begins a request -/
  | asked (t : ℕ) (r : Request)
  /-- a Phase 1 for user `u` and `address` stores a nonce -/
  | issued (t u : ℕ) (nonce address : Bytes) (time : ℕ)
  /-- a Phase 2 takes a nonce out of the store -/
  | looked (t u : ℕ) (nonce : Bytes) (time : ℕ)
  /-- the purge removes a nonce -/
  | purged (u : ℕ) (nonce : Bytes)
  /-- a signature is accepted -/
  | accepted (t u : ℕ) (pubKey nonce sig : Bytes)
  /-- `UPDATE user_info_table SET latest_ip = address WHERE user_id = u` -/
  | updated (t u : ℕ) (address : Bytes)
  /-- a row is inserted into `user_info_table` -/
  | added (u : ℕ) (address : Bytes)
  /-- thread `t` answers -/
  | replied (t : ℕ) (reply : Reply)
deriving DecidableEq

/-! ## `httpHandleReplaceIP` -/

/-- What a step leaves: the shared memory, the thread, and the events, newest first. -/
abbrev Left := Memory × Task × List Event

/-- The request is answered. -/
def reply (t : ℕ) (g : Memory) (ρ : Reply) : Left := (g, .idle, [.replied t ρ])

/-- Up to the two phases. -/
def receive (t : ℕ) (g : Memory) (method : String) (body : Option Request) : Left :=
  if method ≠ "POST" then reply t g (.error 405 "use POST")
  else
    match body with
    | none => reply t g (.error 400 "invalid JSON")
    | some r =>
      if (parseIP r.ipAddress).isNone then reply t g (.error 400 "invalid ip")
      else if r.sigB64 = [] then (g, .challenge r, [.asked t r])
      else (g, .verify r, [.asked t r])

/-- Phase 1; the nonce has 32 bytes. -/
def challenge (t : ℕ) (g : Memory) (r : Request) : Option Bytes → Option Left
  | none => some (reply t g (.error 500 "could not create nonce"))
  | some nonce =>
    if nonce.length = 32 then
      some ({ g with store := Dict.set g.store r.userID ⟨nonce, g.now + nonceTTL⟩ }, .idle,
        [.replied t (.challenge (hexEncode nonce)),
          .issued t r.userID nonce r.ipAddress g.now])
    else none

/-- The lookup of Phase 2, which takes the nonce. -/
def lookup (t : ℕ) (g : Memory) (r : Request) : Left :=
  match Dict.get g.store r.userID with
  | none => reply t g (.error 403 "no nonce")
  | some entry =>
    if entry.expiry < g.now then reply t g (.error 403 "no nonce")
    else ({ g with store := Dict.erase g.store r.userID }, .taken r entry.val,
      [.looked t r.userID entry.val g.now])

/-- `SELECT user_pubkey … WHERE user_id = u` -/
def Memory.userKey (g : Memory) (u : ℕ) : Option Bytes :=
  (g.db.users.find? fun row => row.userID = u).map (·.userPubkey)

/-- The signature check. -/
def checkSig (E : Ed25519) (t : ℕ) (g : Memory) (r : Request) (nonce : Bytes) (o : Outcome) :
    Left :=
  match stdDecode r.sigB64 with
  | none => reply t g (.error 400 "invalid signature encoding")
  | some sig =>
    match o, g.userKey r.userID with
    | .done, some pubKey =>
      if E.verify pubKey nonce sig then
        (g, .verified r, [.accepted t r.userID pubKey nonce sig])
      else reply t g (.error 403 "signature verification failed")
    | _, _ => reply t g (.error 403 "user not found")

/-- The availability check. -/
def available (t : ℕ) (g : Memory) (r : Request) : Outcome → Left
  | .done =>
    match g.db.users.find? fun row => row.latestIp = r.ipAddress with
    | none => (g, .free r, [])
    | some row =>
      if row.userID = r.userID then (g, .free r, []) else reply t g (.result false false)
  | _ => reply t g (.error 500 "database error")

/-- The update. -/
def write (t : ℕ) (g : Memory) (r : Request) (o : Outcome) : Left :=
  match o, g.db.users.update (fun row => row.userID = r.userID)
      (fun row => { row with latestIp := r.ipAddress }) with
  | .done, some (users, n) =>
    ({ g with db := { g.db with users } }, .idle,
      [.replied t (.result true (n = 1)), .updated t r.userID r.ipAddress])
  | .lost, some (users, _) =>
    ({ g with db := { g.db with users } }, .idle,
      [.replied t (.error 500 "could not update IP address"),
        .updated t r.userID r.ipAddress])
  | _, _ => reply t g (.error 500 "could not update IP address")

/-- A pass of the purge loop, with the time it read before. -/
def purge (g : Memory) (now : ℕ) : Left :=
  ({ g with store := g.store.filter fun e => ¬ e.2.expiry < now }, .idle,
    (g.store.filter fun e => e.2.expiry < now).map fun e => .purged e.1 e.2.val)

/-! ## The program -/

/-- One step of thread `t`. -/
def step (E : Ed25519) (W : WgTypes) (t : ℕ) (g : Memory) : Task → Input → Option Left
  | .idle, .tick n => some ({ g with now := g.now + n }, .idle, [])
  | .idle, .request method body => some (receive t g method body)
  | .idle, .wake => some (g, .purging g.now, [])
  | .idle, .addUser a id o =>
    match addUserCmd a with
    | none => some (g, .idle, [])
    | some a =>
      let db := (addUser W g.db a id o).2
      some ({ g with db }, .idle, (db.users.rows.drop g.db.users.rows.length).map fun row =>
        .added row.userID row.latestIp)
  | .idle, .addServer a id o => some ({ g with db := (addServer W g.db a id o).2 }, .idle, [])
  | .challenge r, .random nonce => challenge t g r nonce
  | .verify r, .locked => some (lookup t g r)
  | .taken r nonce, .answer o => some (checkSig E t g r nonce o)
  | .verified r, .answer o => some (available t g r o)
  | .free r, .answer o => some (write t g r o)
  | .purging now, .locked => some (purge g now)
  | _, _ => none

/-- The control server with an empty database. -/
def control (E : Ed25519) (W : WgTypes) : Program ℕ Memory Task Input Event where
  memory := ⟨0, [], ⟨Table.empty, Table.empty⟩⟩
  start := .idle
  step := step E W

/-- Everything a step of thread `t` can do. -/
inductive Moves (E : Ed25519) (W : WgTypes) (t : ℕ) (g : Memory) : Task → Input → Left → Prop
  /-- the request is refused, or turns out to change nothing -/
  | reply {l i} (ρ) : Moves E W t g l i (reply t g ρ)
  /-- nothing is inserted -/
  | skip {i} : Moves E W t g .idle i (g, .idle, [])
  /-- time passes -/
  | tick (n) : Moves E W t g .idle (.tick n) ({ g with now := g.now + n }, .idle, [])
  /-- a request with an address that parses enters a phase -/
  | ask {i} (r l) (hip : (parseIP r.ipAddress).isSome) (hl : l = .challenge r ∨ l = .verify r) :
    Moves E W t g .idle i (g, l, [.asked t r])
  /-- Phase 1 stores a nonce -/
  | issue (r nonce) : Moves E W t g (.challenge r) (.random (some nonce))
      ({ g with store := Dict.set g.store r.userID ⟨nonce, g.now + nonceTTL⟩ }, .idle,
        [.replied t (.challenge (hexEncode nonce)), .issued t r.userID nonce r.ipAddress g.now])
  /-- Phase 2 takes the nonce of its user, which has not expired -/
  | look {i} (r entry) (hget : Dict.get g.store r.userID = some entry)
      (htime : g.now ≤ entry.expiry) :
    Moves E W t g (.verify r) i ({ g with store := Dict.erase g.store r.userID },
      .taken r entry.val, [.looked t r.userID entry.val g.now])
  /-- the signature is genuine under the key of the user -/
  | accept {i} (r nonce sig pubKey) (hsig : stdDecode r.sigB64 = some sig)
      (hkey : g.userKey r.userID = some pubKey)
      (hverify : E.verify pubKey nonce sig = true) :
    Moves E W t g (.taken r nonce) i (g, .verified r, [.accepted t r.userID pubKey nonce sig])
  /-- no other user has the address -/
  | free {i} (r) : Moves E W t g (.verified r) i (g, .free r, [])
  /-- the row is updated -/
  | update (r o ρ users n)
      (hupdate : g.db.users.update (fun row => row.userID = r.userID)
        (fun row => { row with latestIp := r.ipAddress }) = some (users, n)) :
    Moves E W t g (.free r) (.answer o) ({ g with db := { g.db with users } }, .idle,
      [.replied t ρ, .updated t r.userID r.ipAddress])
  /-- the purge loop reads the clock -/
  | wake {i} : Moves E W t g .idle i (g, .purging g.now, [])
  /-- and removes what had expired then -/
  | purge {i} (now) : Moves E W t g (.purging now) i (purge g now)
  /-- a user is added -/
  | addUser (a id o a' row users) (hcmd : addUserCmd a = some a') (hrow : userRow W a' id = .ok row)
      (hinsert : g.db.users.insert row = some users) :
    Moves E W t g .idle (.addUser a id o) ({ g with db := { g.db with users } }, .idle,
      [.added row.userID row.latestIp])
  /-- a relay is added -/
  | addServer (a id o row servers) (hrow : serverRow W a id = .ok row)
      (hinsert : g.db.servers.insert row = some servers) :
    Moves E W t g .idle (.addServer a id o) ({ g with db := { g.db with servers } }, .idle, [])

variable {E : Ed25519} {W : WgTypes} {t : ℕ} {g : Memory} {l : Task} {i : Input} {m : Left}

/-- A request is refused or enters a phase. -/
theorem receive_moves (method : String) (body : Option Request) :
    Moves E W t g .idle (.request method body) (receive t g method body) := by
  unfold receive
  split_ifs with hmethod
  · apply Moves.reply
  · split
    · apply Moves.reply
    · rename_i r
      split_ifs with hip hsig
      · apply Moves.reply
      · exact .ask r _ (by simpa [Option.isSome_iff_ne_none] using hip) (.inl rfl)
      · exact .ask r _ (by simpa [Option.isSome_iff_ne_none] using hip) (.inr rfl)

/-- Phase 2 takes a nonce or refuses. -/
theorem lookup_moves (r : Request) : Moves E W t g (.verify r) .locked (lookup t g r) := by
  rw [lookup]
  split
  · apply Moves.reply
  · rename_i entry hget
    split_ifs with hexpired
    · apply Moves.reply
    · exact .look r entry hget (Nat.le_of_not_lt hexpired)

/-- A signature is accepted only if it is genuine. -/
theorem checkSig_moves (r : Request) (nonce : Bytes) (o : Outcome) :
    Moves E W t g (.taken r nonce) (.answer o) (checkSig E t g r nonce o) := by
  rw [checkSig]
  split
  · apply Moves.reply
  · rename_i sig hsig
    split
    · rename_i pubKey hkey
      split_ifs with hverify
      · exact .accept r nonce sig pubKey hsig hkey hverify
      · apply Moves.reply
    · apply Moves.reply

theorem available_moves (r : Request) (o : Outcome) :
    Moves E W t g (.verified r) (.answer o) (available t g r o) := by
  cases o with
  | done =>
    rw [available]
    split
    · exact .free r
    · split_ifs
      · exact .free r
      · apply Moves.reply
  | failed => apply Moves.reply
  | lost => apply Moves.reply

/-- The UPDATE may change the row and still be answered by an error. -/
theorem write_moves (r : Request) (o : Outcome) :
    Moves E W t g (.free r) (.answer o) (write t g r o) := by
  unfold write
  split
  · rename_i users n hupdate
    exact .update r _ _ users n hupdate
  · rename_i users n hupdate
    exact .update r _ _ users n hupdate
  · apply Moves.reply

/-- **Every step is a move.** -/
theorem control_moves (h : (control E W).step t g l i = some m) : Moves E W t g l i m := by
  replace h : step E W t g l i = some m := h
  cases l with
  | idle =>
    cases i with
    | tick n =>
      obtain rfl := Option.some.inj h
      exact .tick n
    | request method body =>
      obtain rfl := Option.some.inj h
      apply receive_moves
    | wake =>
      obtain rfl := Option.some.inj h
      exact .wake
    | addUser a id o =>
      rw [step] at h
      split at h
      · obtain rfl := Option.some.inj h
        exact .skip
      · rename_i a' hcmd
        obtain rfl := Option.some.inj h
        rcases addUser_rows g.db a' id o with hsame |
          ⟨row, users, hrow, hinsert, hdb⟩
        · rw [hsame, List.drop_length]
          exact .skip
        · rw [hdb, Table.insert_rows hinsert, List.drop_left]
          exact .addUser a id o a' row users hcmd hrow hinsert
    | addServer a id o =>
      obtain rfl := Option.some.inj h
      rcases addServer_rows g.db a id o with hsame |
        ⟨row, servers, hrow, hinsert, hdb⟩
      · rw [hsame]
        exact .skip
      · rw [hdb]
        exact .addServer a id o row servers hrow hinsert
    | _ => cases h
  | challenge r =>
    cases i with
    | random nonce =>
      cases nonce with
      | none =>
        obtain rfl := Option.some.inj h
        apply Moves.reply
      | some nonce =>
        rw [step, challenge] at h
        split_ifs at h with hlen
        obtain rfl := Option.some.inj h
        exact .issue r nonce
    | _ => cases h
  | verify r =>
    cases i with
    | locked =>
      obtain rfl := Option.some.inj h
      apply lookup_moves
    | _ => cases h
  | taken r nonce =>
    cases i with
    | answer o =>
      obtain rfl := Option.some.inj h
      apply checkSig_moves
    | _ => cases h
  | verified r =>
    cases i with
    | answer o =>
      obtain rfl := Option.some.inj h
      apply available_moves
    | _ => cases h
  | free r =>
    cases i with
    | answer o =>
      obtain rfl := Option.some.inj h
      apply write_moves
    | _ => cases h
  | purging now =>
    cases i with
    | locked =>
      obtain rfl := Option.some.inj h
      exact .purge now
    | _ => cases h

end GuardedIM.Control
