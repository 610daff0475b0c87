import GuardedIM.Framing
import GuardedIM.Registration

/-!
# The server's handshake on the byte stream

The client sends 256 bytes of encrypted key, its username and its frames, with nothing
between them. The server reads the key with the exact loop, the username with one
`recv(1024)`, and the frames through a file.

* `handshake_registers`: what `handshake` reads is what the handler of `Server` registers.
* `faithful_iff_cut`: the server registers the name that was sent, and reads the frames
  that were sent, if and only if the transport makes a cut right behind the name and none
  inside it.
-/

namespace GuardedIM

open Interleave Interleave.Program Chunked

/-- `handle_client` up to the name check, on the pieces the transport delivers: the session
it goes on to register, and the stream its frame loop starts with. `decrypt` is
`private_key.decrypt`. -/
def handshake (decrypt : Bytes → Option Key) (conn : List Bytes) :
    Option (Session × List Bytes) :=
  match recvExact 256 conn with
  | none => none
  | some (encryptedAesKey, conn) =>
    match decrypt encryptedAesKey with
    | none => none
    | some aesKey =>
      let (chunk, conn) := recv 1024 conn
      match decode chunk with
      | none => none
      | some text =>
        match isSafeUsername (.str (strip text)) with
        | .ok true => some (⟨aesKey, strip text⟩, conn)
        | _ => none

/-- What `ChatClient.connect` and the calls of `send_encrypted` after it write. -/
def clientStream (encryptedKey name : Bytes) (frames : List Bytes) : Bytes :=
  encryptedKey ++ name ++ frames.flatMap frame

/-- The server registers `u` and starts its frame loop right behind the name, so that it
reads the frames, up to the first over its limit. -/
def Faithful (decrypt : Bytes → Option Key) (conn : List Bytes) (u : Str)
    (frames : List Bytes) : Prop :=
  ∃ σ rest, handshake decrypt conn = some (σ, rest) ∧ σ.name = u ∧
    rest.flatten = frames.flatMap frame ∧
    readFrames rest = frames.takeWhile (·.length ≤ maxFrameSize)

/-- One piece of the transport ends right behind the first `256 + n` bytes, and begins
within the first 256. -/
def CutBehind (conn : List Bytes) (n : ℕ) : Prop :=
  ∃ before piece after, conn = before ++ piece :: after ∧ before.flatten.length ≤ 256 ∧
    before.flatten.length + piece.length = 256 + n

variable {printable : CodePoint → Bool} {decrypt : Bytes → Option Key} {conn : List Bytes}

/-- **What `handshake` reads is what the handler registers**, when the name is free. -/
theorem handshake_registers {σ : Session} {rest : List Bytes}
    (h : handshake decrypt conn = some (σ, rest)) : ∃ text,
    ∀ (x : Config Conn Tables Phase Event) c, x.thread c = .readKey →
      Dict.get x.memory.clients σ.name = none →
      ∃ y, (server printable).exec x [(c, .key (some σ.key)), (c, .name (some text)), (c, .run)] =
        some y ∧ y.thread c = .firstList σ ∧
        Dict.get y.memory.clients σ.name = some (c, σ.key) := by
  simp only [handshake] at h
  split at h
  · cases h
  · split at h
    · cases h
    · rename_i aesKey _
      split at h
      · cases h
      · rename_i text _
        split at h
        · rename_i hsafe
          obtain ⟨rfl, -⟩ := Prod.mk.inj (Option.some.inj h)
          refine ⟨text, fun x c hx hfree => ?_⟩
          have hne : strip text ≠ [] := by
            obtain ⟨u, hu, hsafe⟩ := isSafeUsername_iff.mp hsafe
            rw [Json.str.inj hu]
            exact List.ne_nil_of_length_pos hsafe.1
          let x₁ := after x c (x.memory, .readName aesKey, [.handshake c aesKey])
          let x₂ := after x₁ c (x.memory, .register ⟨aesKey, strip text⟩, [])
          have h₁ : (server printable).next x (c, .key (some aesKey)) = some x₁ := by
            simp only [Program.next, server, hx, handleClient, Option.map_some, x₁]
          have h₂ : (server printable).next x₁ (c, .name (some text)) = some x₂ := by
            simp only [Program.next, server, x₁, x₂, after_thread_self, handleClient,
              after_memory, if_neg hne, hsafe, Option.map_some]
          let x₃ := after x₂ c
            ({ x.memory with clients := Dict.set x.memory.clients (strip text) (c, aesKey) },
              .firstList ⟨aesKey, strip text⟩, [.registered c ⟨aesKey, strip text⟩])
          have h₃ : (server printable).next x₂ (c, .run) = some x₃ := by
            simp only [Program.next, server, x₂, x₃, after_thread_self, handleClient,
              after_memory, hfree, Option.isSome_none, Bool.false_eq_true, if_false,
              Option.map_some]
          refine ⟨x₃, ?_, after_thread_self .., ?_⟩
          · simp only [exec_cons, exec_nil, h₁, h₂, h₃, Option.bind_some]
          · simp only [x₃, after_memory, Dict.get_set_self]
        · cases h

/-- After the exact read, the next `recv` has the rest of the piece it ended in. -/
theorem recvExact_key {n : ℕ} (hne : ∀ p ∈ conn, p ≠ []) (hlen : n < conn.flatten.length) :
    ∃ got piece after, recvExact n conn = some (got, piece :: after) ∧
      got = conn.flatten.take n ∧ piece ++ after.flatten = conn.flatten.drop n ∧
      (∀ m, 0 < m → (piece.length = m ↔ ∃ before p behind, conn = before ++ p :: behind ∧
        before.flatten.length ≤ n ∧ before.flatten.length + p.length = n + m)) := by
  obtain ⟨before, c, behind, hconn, hle, hlt⟩ := exists_split hlen
  have hsplit : ∀ {before p behind}, conn = before ++ p :: behind →
      before.flatten.length ≤ n → n < before.flatten.length + p.length →
      recvExact n conn = some (before.flatten ++ p.take (n - before.flatten.length),
        p.drop (n - before.flatten.length) :: behind) := by
    intro before p behind hconn hle hlt
    subst hconn
    exact recvExact_split (fun q hq => hne q (List.mem_append_left _ hq)) hle hlt
  refine ⟨_, _, _, hsplit hconn hle hlt, ?_, ?_, fun m hm => ⟨fun h => ?_, ?_⟩⟩
  · rw [hconn, List.flatten_append, List.flatten_cons, List.take_append,
      List.take_of_length_le hle, List.take_append_of_le_length (by omega)]
  · rw [hconn, List.flatten_append, List.flatten_cons, List.drop_append,
      List.drop_eq_nil_of_le hle, List.nil_append, List.drop_append_of_le_length (by omega)]
  · refine ⟨before, c, behind, hconn, hle, ?_⟩
    rw [List.length_drop] at h
    omega
  · rintro ⟨before', p, behind', hconn', hle', hlen'⟩
    have h := hsplit hconn' hle' (by omega)
    rw [hsplit hconn hle hlt] at h
    obtain ⟨-, hpiece⟩ := Prod.mk.inj (Option.some.inj h)
    rw [(List.cons.inj hpiece).1, List.length_drop]
    omega

/-- **The handshake is faithful exactly when the name arrives by itself**: for every key,
valid name and frames, and every way the transport cuts the stream. -/
theorem faithful_iff_cut {encryptedKey name : Bytes} {aesKey : Key} {u : Str}
    {frames : List Bytes} (hkey : encryptedKey.length = 256)
    (hdecrypt : decrypt encryptedKey = some aesKey) (hu : SafeName 32 u)
    (hname : encode u = some name) (hfit : ∀ f ∈ frames, Fits f) (hne : ∀ p ∈ conn, p ≠ [])
    (hconn : conn.flatten = clientStream encryptedKey name frames) :
    Faithful decrypt conn u frames ↔ CutBehind conn name.length := by
  have hbytes : name = u.map fun c => UInt8.ofNat c.val := by
    rw [encode_ascii hu.ascii] at hname
    exact (Option.some.inj hname).symm
  have hnlen : name.length = u.length := by rw [hbytes, List.length_map]
  have hpos : 0 < name.length := by
    rw [hnlen]
    exact hu.1
  have hshort : name.length ≤ 1024 := by
    rw [hnlen]
    exact hu.2.1.trans (by decide)
  have hlen : 256 < conn.flatten.length := by
    rw [hconn, clientStream, List.length_append, List.length_append]
    omega
  obtain ⟨got, piece, after, hexact, hgot, hrest, hcut⟩ := recvExact_key hne hlen
  have hgotkey : got = encryptedKey := by
    rw [hgot, hconn, clientStream, List.append_assoc, List.take_left' hkey]
  have hbehind : piece ++ after.flatten = name ++ frames.flatMap frame := by
    rw [hrest, hconn, clientStream, List.append_assoc, List.drop_left' hkey]
  have htext : decode name = some u := by
    have := decode_ascii_append hu.ascii []
    simpa [hbytes] using this
  have hshake : handshake decrypt conn =
      match decode (recv 1024 (piece :: after)).1 with
      | none => none
      | some text =>
        match isSafeUsername (.str (strip text)) with
        | .ok true => some (⟨aesKey, strip text⟩, (recv 1024 (piece :: after)).2)
        | _ => none := by
    simp only [handshake, hexact, hgotkey, hdecrypt]
  rw [CutBehind, ← hcut name.length hpos]
  refine ⟨fun hfaithful => ?_, fun hpiece => ?_⟩
  · -- nothing of the frames is missing, so the `recv` returned just the name
    obtain ⟨σ, rest, hsome, -, hleft, -⟩ := hfaithful
    have hrecv : (recv 1024 (piece :: after)).2 = rest := by
      rw [hshake] at hsome
      split at hsome
      · cases hsome
      · split at hsome
        · exact (Prod.mk.inj (Option.some.inj hsome)).2
        · cases hsome
    have hall := recv_append 1024 (piece :: after)
    rw [List.flatten_cons, hbehind, hrecv, hleft] at hall
    have hgot : (recv 1024 (piece :: after)).1.length = name.length := by
      rw [List.append_cancel_right hall]
    rw [recv] at hgot
    split_ifs at hgot with h1024
    · exact hgot
    · rw [List.length_take] at hgot
      have := hu.2.1
      omega
  · obtain ⟨rfl, hafter⟩ := List.append_inj hbehind hpiece
    have hrecv : recv 1024 (piece :: after) = (piece, after) := by
      rw [recv, if_pos hshort]
    have hsafe : isSafeUsername (.str (strip u)) = .ok true := by
      rw [hu.strip]
      exact isSafeUsername_iff.mpr ⟨u, rfl, hu⟩
    refine ⟨⟨aesKey, u⟩, after, ?_, rfl, hafter, readFrames_frames hfit hafter⟩
    rw [hshake, hrecv]
    simp only [htext, hsafe]
    rw [hu.strip]

/-- 256 bytes that stand for an encrypted key. -/
def demoCiphertext : Bytes := List.replicate 256 0

/-- A name and a frame that arrive separately. -/
theorem faithful_iff_cut_alice :
    Faithful (fun _ => some demoKey) [demoCiphertext, ascii "alice", frame [1, 2, 3]]
      (str "alice") [[1, 2, 3]] := by
  have hkey : demoCiphertext.length = 256 := by decide +kernel
  have hname : encode (str "alice") = some (ascii "alice") := by decide
  have hconn : [demoCiphertext, ascii "alice", frame [1, 2, 3]].flatten =
      clientStream demoCiphertext (ascii "alice") [[1, 2, 3]] := by decide +kernel
  have hdecrypt : (fun _ : Bytes => some demoKey) demoCiphertext = some demoKey := rfl
  refine (faithful_iff_cut hkey hdecrypt (by decide) hname (by simp [Fits]) ?_ hconn).mpr ?_
  · decide +kernel
  · exact ⟨[demoCiphertext], ascii "alice", [frame [1, 2, 3]], rfl, by decide +kernel,
      by decide +kernel⟩

/-- The name of Alice arrives in two pieces: the server registers the first, and the second
is in front of her frames. -/
theorem name_cut_short :
    handshake (fun _ => some demoKey) [demoCiphertext, ascii "al", ascii "ice" ++ frame [1, 2, 3]] =
        some (⟨demoKey, str "al"⟩, [ascii "ice" ++ frame [1, 2, 3]]) ∧
      ¬ Faithful (fun _ => some demoKey)
        [demoCiphertext, ascii "al", ascii "ice" ++ frame [1, 2, 3]] (str "alice")
        [[1, 2, 3]] := by
  have hshake : handshake (fun _ => some demoKey)
      [demoCiphertext, ascii "al", ascii "ice" ++ frame [1, 2, 3]] =
        some (⟨demoKey, str "al"⟩, [ascii "ice" ++ frame [1, 2, 3]]) := by decide +kernel
  refine ⟨hshake, ?_⟩
  rintro ⟨σ, rest, h, hname, -⟩
  rw [hshake] at h
  obtain ⟨rfl, -⟩ := Prod.mk.inj (Option.some.inj h)
  exact absurd hname (by decide)

end GuardedIM
