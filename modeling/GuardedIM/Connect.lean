import GuardedIM.Codec
import GuardedIM.Handshake

/-!
# The client's handshake on the byte stream

The server announces its public key with its length as four bytes, sends the key, and sends
frames later. `ChatClient.connect` takes whatever one `recv(4096)` returns for the key, prefix
and all, and leaves the rest of the stream to `receive_loop`.

`synchronised_iff_first`: the client uses that key and goes on right behind it if and only if the
first `recv` happens to return just the prefix and the key.
-/

namespace GuardedIM

open Chunked

/-- What the client uses of the `cryptography` package; `K` is the type of RSA public keys. -/
structure PublicKeys (K : Type) where
  /-- `serialization.load_pem_public_key`; `none` when it raises -/
  load : Bytes → Option K
  /-- `public_key.encrypt` with OAEP padding -/
  encrypt : K → Key → Bytes

/-- A client behind `connect`. -/
structure Connected (K : Type) where
  /-- the key the AES key was encrypted for -/
  publicKey : K
  /-- what it wrote -/
  written : Bytes
  /-- what it has not received yet -/
  conn : List Bytes

/-- `ChatClient.connect` on the pieces the transport delivers; `none` when it raises. -/
def connect {K : Type} (pub : PublicKeys K) (username : Str) (aesKey : Key) (conn : List Bytes) :
    Option (Connected K) :=
  match isSafeUsername (.str username) with
  | .ok true =>
    let (publicKeyBytes, conn) := recv 4096 conn
    match pub.load publicKeyBytes, encode username with
    | some publicKey, some name => some ⟨publicKey, pub.encrypt publicKey aesKey ++ name, conn⟩
    | _, _ => none
  | _ => none

/-- What `main` writes on a new connection, and the handlers after it. -/
def serverStream (pem : Bytes) (frames : List Bytes) : Bytes :=
  pack pem.length ++ pem ++ frames.flatMap frame

/-- The client uses the key `pk` and starts its loop right behind it, so that it reads the frames,
up to the first over its limit or the first that ends its session. -/
def Synchronised {K : Type} (pub : PublicKeys K) (username : Str) (aesKey : Key)
    (conn : List Bytes) (pk : K) (frames : List Bytes) : Prop :=
  ∃ z, connect pub username aesKey conn = some z ∧ z.publicKey = pk ∧
    z.conn.flatten = frames.flatMap frame ∧
    ∀ A F printable root disk fuel, z.conn.flatten.length < fuel →
      receiveLoop A F printable root username aesKey disk fuel z.conn =
        some (upTo (clientGoesOn A F printable root username aesKey disk) 0
          (frames.takeWhile (·.length ≤ maxFrameSize)))

variable {K : Type} {pub : PublicKeys K} {username : Str} {aesKey : Key} {conn : List Bytes}
  {pem : Bytes} {pk : K} {frames : List Bytes}

/-- What `connect` leaves is what one `recv` leaves. -/
theorem connect_conn {z : Connected K} (h : connect pub username aesKey conn = some z) :
    z.conn = (recv 4096 conn).2 := by
  simp only [connect] at h
  split at h
  · split at h
    · obtain rfl := Option.some.inj h
      rfl
    · cases h
  · cases h

theorem connect_of_load (aesKey : Key) (hu : SafeName 32 username)
    (hload : pub.load (recv 4096 conn).1 = some pk) :
    ∃ z, connect pub username aesKey conn = some z ∧ z.publicKey = pk ∧
      z.conn = (recv 4096 conn).2 := by
  have hsafe : isSafeUsername (.str username) = .ok true :=
    isSafeUsername_iff.mpr ⟨username, rfl, hu⟩
  have hz : connect pub username aesKey conn = some ⟨pk,
      pub.encrypt pk aesKey ++ username.map (fun c => UInt8.ofNat c.val), (recv 4096 conn).2⟩ := by
    simp only [connect, hsafe, hload, encode_ascii hu.ascii]
  exact ⟨_, hz, rfl, rfl⟩

/-- One `recv` returns the beginning of the first piece. -/
theorem length_recv (piece : Bytes) (rest : List Bytes) :
    (recv 4096 (piece :: rest)).1.length = min piece.length 4096 := by
  rw [recv]
  split_ifs with hle
  · rw [min_eq_left hle]
  · rw [List.length_take, min_comm]

/-- **The client is in step with the server exactly when its one `recv` ends with the key**: for
every username `connect` accepts, every key and all frames, and every way the transport cuts the
stream. A PEM loader passes over what stands before the key. -/
theorem synchronised_iff_first (hu : SafeName 32 username) (hpem : pub.load pem = some pk)
    (hannounced : pub.load (pack pem.length ++ pem) = pub.load pem) (hfit : ∀ f ∈ frames, Fits f)
    (hconn : conn.flatten = serverStream pem frames) :
    Synchronised pub username aesKey conn pk frames ↔
      ∃ piece rest, conn = piece :: rest ∧ min piece.length 4096 = 4 + pem.length := by
  have hall := recv_append 4096 conn
  rw [hconn, serverStream] at hall
  have hlen : (pack pem.length ++ pem).length = 4 + pem.length := by
    rw [List.length_append, length_pack]
  refine ⟨fun hsync => ?_, ?_⟩
  · obtain ⟨z, hz, -, hrest, -⟩ := hsync
    rw [connect_conn hz] at hrest
    rw [hrest] at hall
    have hgot := congrArg List.length (List.append_cancel_right hall)
    cases conn with
    | nil =>
      have hnil : 0 = 4 + pem.length := hgot.trans hlen
      omega
    | cons piece rest =>
      refine ⟨piece, rest, rfl, ?_⟩
      rw [← length_recv piece rest, hgot, hlen]
  · rintro ⟨piece, rest, rfl, hpiece⟩
    rw [← length_recv piece rest, ← hlen] at hpiece
    obtain ⟨hgot, hrest⟩ := List.append_inj hall hpiece
    obtain ⟨z, hz, hkey, hconn'⟩ := connect_of_load aesKey hu
      (hgot ▸ hannounced.trans hpem)
    refine ⟨z, hz, hkey, hconn' ▸ hrest, fun A F printable root disk fuel hfuel => ?_⟩
    have hd := decodes_frames hfit
    rw [← hrest, ← hconn'] at hd
    exact frameLoop_decodes clientTurn_framed hd hfuel 0

/-! ## A key in PEM -/

/-- The bytes behind the first `marker`. -/
def behindMarker (marker : Bytes) : Bytes → Option Bytes
  | [] => none
  | b :: l =>
    if marker.isPrefixOf (b :: l) then some ((b :: l).drop marker.length)
    else behindMarker marker l

/-- The bytes before the first `marker`. -/
def beforeMarker (marker : Bytes) : Bytes → Option Bytes
  | [] => none
  | b :: l =>
    if marker.isPrefixOf (b :: l) then some []
    else (beforeMarker marker l).map (b :: ·)

/-- The line in front of a key. -/
def pemBegin : Bytes := ascii "-----BEGIN PUBLIC KEY-----"

/-- The line behind it. -/
def pemEnd : Bytes := ascii "-----END PUBLIC KEY-----"

/-- A loader that gives the text of the first PEM block as the key. -/
def demoPublicKeys : PublicKeys Bytes where
  load data := (behindMarker pemBegin data).bind (beforeMarker pemEnd)
  encrypt _ _ := demoCiphertext

/-- The text of a key. -/
def demoText : Bytes :=
  ["MIIBIjANBgkqhkiG9w0BAQEFAAOCAQ8AMIIBCgKCAQEA0lJ+6ztIrvIVt1HXTVcU",
    "O0B/N8jK5f4WmI1UWW5hAYrQI+Ungyfl4d8E2eOxF5Boz1gMuoasxaHstrXKQPoD",
    "2k+8uBOybCcz5d6TyLicnLakOHvOjmIY6/Ox0n01/gmV7I77IjVLFe+nILIif2hL",
    "MG0VPNZLU00K550g0ZK+3yyWS7FMcqwLe4hu4jnAwcFO5Ka1nSx7hfUuZLNmINfa",
    "Nx+++pRId+J1fCXQrpdi72yYGE1yb5+0VHwEUDnYEIEVEwr5NIgoxvyMnW5DknfK",
    "zYtudtxqCop8OLMVfSqVh6210nDn0gUJq55WDsgeTId82rwdUNvkIIXtag9FzQdy",
    "ZwIDAQAB"].flatMap fun line => ascii line ++ [10]

/-- A public key as `public_bytes` writes it. -/
def demoPem : Bytes := pemBegin ++ ([10] ++ demoText ++ (pemEnd ++ [10]))

/-- A marker is found behind bytes it does not begin with. -/
theorem marker_found {b : UInt8} {marker pre : Bytes} (hpre : b ∉ pre) (r : Bytes) :
    behindMarker (b :: marker) (pre ++ (b :: marker ++ r)) = some r ∧
      beforeMarker (b :: marker) (pre ++ (b :: marker ++ r)) = some pre := by
  have hannounced : (b :: marker).isPrefixOf (b :: marker ++ r) = true :=
    List.isPrefixOf_iff_prefix.mpr (List.prefix_append _ _)
  induction pre with
  | nil =>
    rw [List.nil_append, List.cons_append, behindMarker, beforeMarker]
    rw [List.cons_append] at hannounced
    rw [if_pos hannounced, if_pos hannounced, ← List.cons_append, List.drop_left]
    exact ⟨rfl, rfl⟩
  | cons a pre ih =>
    have hne : ¬ (b :: marker).isPrefixOf (a :: (pre ++ (b :: marker ++ r))) = true := by
      intro h
      have heq := (List.cons_prefix_cons.mp (List.isPrefixOf_iff_prefix.mp h)).1
      exact hpre (heq ▸ List.mem_cons_self ..)
    obtain ⟨hbehind, hbefore⟩ := ih fun h => hpre (List.mem_cons_of_mem _ h)
    rw [List.cons_append, behindMarker, beforeMarker, if_neg hne, if_neg hne, hbehind, hbefore]
    exact ⟨rfl, rfl⟩

/-- The loader passes over what stands before the key, and does not look behind it. -/
theorem load_block {pre text : Bytes} (hpre : 45 ∉ pre) (htext : 45 ∉ text) (r : Bytes) :
    demoPublicKeys.load (pre ++ (pemBegin ++ (text ++ (pemEnd ++ r)))) = some text := by
  have hbegin : pemBegin = 45 :: ascii "----BEGIN PUBLIC KEY-----" := by decide
  have hend : pemEnd = 45 :: ascii "----END PUBLIC KEY-----" := by decide
  simp only [demoPublicKeys, hbegin, hend]
  rw [(marker_found hpre _).1, Option.bind_some, (marker_found htext _).2]

theorem demoText_plain : demoText.length = 399 ∧ 45 ∉ demoText := by decide +kernel

theorem length_demoPem : demoPem.length = 451 := by
  simp only [demoPem, List.length_append, demoText_plain.1]
  decide

/-- With the prefix in front of it, and without the line feed at its end, it is the same key. -/
theorem load_demoPem (pre : Bytes) (hpre : 45 ∉ pre) (r : Bytes) :
    demoPublicKeys.load (pre ++ (pemBegin ++ ([10] ++ demoText ++ (pemEnd ++ r)))) =
      some ([10] ++ demoText) :=
  load_block hpre (by simp [demoText_plain.2]) r

/-- The key arrives by itself, and a frame later. -/
theorem synchronised_iff_first_alice :
    Synchronised demoPublicKeys (str "alice") demoKey
      [pack demoPem.length ++ demoPem, frame [1, 2, 3]] ([10] ++ demoText) [[1, 2, 3]] := by
  have hpem : demoPublicKeys.load demoPem = some ([10] ++ demoText) :=
    load_demoPem [] (by simp) [10]
  have hannounced :
      demoPublicKeys.load (pack demoPem.length ++ demoPem) = some ([10] ++ demoText) :=
    load_demoPem (pack demoPem.length) (by rw [length_demoPem]; decide) [10]
  refine (synchronised_iff_first (by decide) hpem (hannounced.trans hpem.symm) (by simp [Fits])
    ?_).mpr ⟨_, _, rfl, ?_⟩
  · rw [serverStream, List.flatten_cons, List.flatten_singleton, List.flatMap_singleton]
  · rw [List.length_append, length_pack, length_demoPem, min_eq_left (by decide)]

/-- The line feed behind the key arrives late: the client has the right key, and takes the line
feed for the first byte of a frame, which it refuses. When only the prefix arrives in time, it has
no key at all. -/
theorem key_cut_short :
    (∃ z, connect demoPublicKeys (str "alice") demoKey
        [pack demoPem.length ++ demoPem.dropLast, [10] ++ frame [1, 2, 3]] = some z ∧
      demoPublicKeys.load demoPem = some z.publicKey ∧
      ∀ A F printable root disk, receiveLoop A F printable root (str "alice") demoKey disk 100
        z.conn = some []) ∧
      connect demoPublicKeys (str "alice") demoKey
        [pack demoPem.length, demoPem ++ frame [1, 2, 3]] = none ∧
      ∀ pk, ¬ Synchronised demoPublicKeys (str "alice") demoKey
        [pack demoPem.length ++ demoPem.dropLast, [10] ++ frame [1, 2, 3]] pk [[1, 2, 3]] := by
  have hdrop : demoPem.dropLast = pemBegin ++ ([10] ++ demoText ++ (pemEnd ++ [])) := by
    rw [demoPem, ← List.append_assoc, ← List.append_assoc, List.dropLast_concat, List.append_nil,
      List.append_assoc]
  have hlen : (pack demoPem.length ++ demoPem.dropLast).length ≤ 4096 := by
    rw [List.length_append, length_pack, List.length_dropLast, length_demoPem]
    decide
  have hrecv : recv 4096 [pack demoPem.length ++ demoPem.dropLast, [10] ++ frame [1, 2, 3]] =
      (pack demoPem.length ++ demoPem.dropLast, [[10] ++ frame [1, 2, 3]]) := by
    rw [recv, if_pos hlen]
  have hload := load_demoPem (pack demoPem.length) (by rw [length_demoPem]; decide) []
  rw [← hdrop] at hload
  refine ⟨?_, ?_, fun pk => ?_⟩
  · have hfirst : demoPublicKeys.load (recv 4096 [pack demoPem.length ++ demoPem.dropLast,
        [10] ++ frame [1, 2, 3]]).1 = some ([10] ++ demoText) := by rw [hrecv, hload]
    have hu : SafeName 32 (str "alice") := by decide
    obtain ⟨z, hz, hkey, hconn⟩ := connect_of_load demoKey hu hfirst
    rw [hrecv] at hconn
    refine ⟨z, hz, hkey ▸ load_demoPem [] (by simp) [10],
      fun A F printable root disk => ?_⟩
    -- the line feed and the first three bytes of the next header are a length over the limit
    have hbytes : z.conn.flatten = pack 167772160 ++ [3, 1, 2, 3] := by
      rw [hconn]
      rfl
    have hstuck : Stuck z.conn.flatten := by
      rw [hbytes]
      exact .oversized (by decide) (by decide)
    exact frameLoop_decodes clientTurn_framed (.stuck hstuck) (by simp [hbytes, pack]) 0
  · have hnone : demoPublicKeys.load (pack 451) = none := by decide
    have hfirst : recv 4096 [pack 451, demoPem ++ frame [1, 2, 3]] =
        (pack 451, [demoPem ++ frame [1, 2, 3]]) := rfl
    rw [length_demoPem, connect, hfirst]
    simp only [hnone]
    rfl
  · rintro ⟨z, hz, -, hrest, -⟩
    rw [connect_conn hz, hrecv] at hrest
    exact absurd (congrArg List.length hrest) (by decide)

end GuardedIM
