import GuardedIM.Client
import GuardedIM.JsonRoundTrip
import GuardedIM.Wire

/-!
# The two frame loops

The server's loop in `handle_client` and the client's `receive_loop` read frames by two
pieces of code. They differ in what they do about a header that is cut short: the server
stops, while the client catches the `struct.error` and reads on. `Decodes` says, of the
bytes alone, which bodies there are to read.

* `frameLoop_decodes`: any loop whose turns are `Framed` reads those, whatever the pieces,
  and ends.
* `framing_codec`: both loops are, and what was sent comes back, up to the first frame that
  makes the client leave its loop.
-/

namespace GuardedIM

open Chunked

/-! ## What there is to read -/

/-- No accepted frame is in front of these bytes. -/
inductive Stuck : Bytes → Prop where
  /-- the end of the stream -/
  | eof : Stuck []
  /-- a header that is cut short -/
  | header {t : Bytes} : t ≠ [] → t.length < 4 → Stuck t
  /-- a header over the limit -/
  | oversized {n : ℕ} {r : Bytes} : maxFrameSize < n → n < 4294967296 → Stuck (pack n ++ r)
  /-- a body that is cut short -/
  | body {n : ℕ} {r : Bytes} : n ≤ maxFrameSize → r.length < n → Stuck (pack n ++ r)

/-- The bodies of the complete frames in front of a stream, up to where it is stuck. -/
inductive Decodes : Bytes → List Bytes → Prop where
  /-- none -/
  | stuck {t : Bytes} : Stuck t → Decodes t []
  /-- one more in front -/
  | frame {body rest : Bytes} {bodies : List Bytes} : body.length ≤ maxFrameSize →
      Decodes rest bodies → Decodes (frame body ++ rest) (body :: bodies)

theorem fits_of_le {body : Bytes} (h : body.length ≤ maxFrameSize) : Fits body :=
  h.trans_lt (by decide)

theorem pack_inj {m n : ℕ} (hm : m < 4294967296) (hn : n < 4294967296) (h : pack m = pack n) :
    m = n := by
  have hunpack := unpack_pack hm
  rw [h, unpack_pack hn] at hunpack
  exact (Option.some.inj hunpack).symm

/-- Four bytes are the header of some length. -/
theorem exists_pack {h : Bytes} (hlen : h.length = 4) : ∃ n, n < 4294967296 ∧ h = pack n := by
  obtain ⟨a, b, c, d, rfl⟩ := List.length_eq_four.mp hlen
  have ha := a.toNat_lt
  have hb := b.toNat_lt
  have hc := c.toNat_lt
  have hd := d.toNat_lt
  refine ⟨((a.toNat * 256 + b.toNat) * 256 + c.toNat) * 256 + d.toNat, by omega, ?_⟩
  simp only [pack, List.cons.injEq, and_true]
  refine ⟨?_, ?_, ?_, ?_⟩
  all_goals
    rw [← UInt8.toNat_inj, UInt8.toNat_ofNat']
    omega

/-- Where a frame begins, its length and its body are determined. -/
theorem pack_append_inj {m n : ℕ} {r t : Bytes} (hm : m < 4294967296) (hn : n < 4294967296)
    (h : pack m ++ r = pack n ++ t) : m = n ∧ r = t := by
  obtain ⟨hpack, hrest⟩ := List.append_inj h rfl
  exact ⟨pack_inj hm hn hpack, hrest⟩

theorem frame_append_inj {f g r t : Bytes} (hf : Fits f) (hg : Fits g)
    (h : frame f ++ r = frame g ++ t) : f = g ∧ r = t := by
  rw [frame, frame, List.append_assoc, List.append_assoc] at h
  obtain ⟨hlen, hrest⟩ := pack_append_inj hf hg h
  exact List.append_inj hrest hlen

theorem not_stuck_frame {body r : Bytes} (h : body.length ≤ maxFrameSize) :
    ¬ Stuck (frame body ++ r) := by
  have hfit := fits_of_le h
  generalize ht : frame body ++ r = t
  rintro (_ | ⟨-, hlen⟩ | ⟨hn, hlt⟩ | ⟨hn, hlen⟩)
  · exact frame_ne_nil body (List.append_eq_nil_iff.mp ht).1
  · have := congrArg List.length ht
    rw [List.length_append, length_frame] at this
    omega
  · rw [frame, List.append_assoc] at ht
    have := (pack_append_inj hfit hlt ht).1
    omega
  · rw [frame, List.append_assoc] at ht
    obtain ⟨rfl, rfl⟩ := pack_append_inj hfit (hn.trans_lt (by decide)) ht
    rw [List.length_append] at hlen
    omega

/-- Every stream has its bodies. -/
theorem exists_decodes (stream : Bytes) : ∃ bodies, Decodes stream bodies := by
  induction hlen : stream.length using Nat.strongRecOn generalizing stream with
  | ind k ih =>
    by_cases hshort : stream.length < 4
    · rcases eq_or_ne stream [] with rfl | hne
      · exact ⟨[], .stuck .eof⟩
      · exact ⟨[], .stuck (.header hne hshort)⟩
    · -- a header, whatever it announces
      obtain ⟨n, hn, hpack⟩ := exists_pack (h := stream.take 4) (by
        rw [List.length_take]
        omega)
      have hstream : stream = pack n ++ stream.drop 4 := by
        rw [← hpack, List.take_append_drop]
      by_cases hover : maxFrameSize < n
      · exact ⟨[], hstream ▸ .stuck (.oversized hover hn)⟩
      by_cases hbody : (stream.drop 4).length < n
      · exact ⟨[], hstream ▸ .stuck (.body (by omega) hbody)⟩
      · -- a whole frame, and a shorter stream
        have htake : ((stream.drop 4).take n).length = n := by
          rw [List.length_take]
          omega
        have hframe : stream = frame ((stream.drop 4).take n) ++ (stream.drop 4).drop n := by
          rw [frame, htake, List.append_assoc, List.take_append_drop]
          exact hstream
        obtain ⟨bodies, hrest⟩ := ih ((stream.drop 4).drop n).length (by
          rw [List.length_drop, List.length_drop]
          omega) _ rfl
        refine ⟨(stream.drop 4).take n :: bodies, ?_⟩
        have hall := Decodes.frame (by rw [htake]; omega) hrest
        rwa [← hframe] at hall

/-- **The sequence is maximal**: complete frames within the limit that begin the stream are
among the first of it. -/
theorem Decodes.maximal {stream : Bytes} {bodies : List Bytes} (h : Decodes stream bodies)
    {frames : List Bytes} {rest : Bytes} (hle : ∀ f ∈ frames, f.length ≤ maxFrameSize)
    (hs : stream = frames.flatMap GuardedIM.frame ++ rest) : frames <+: bodies := by
  induction frames generalizing stream bodies with
  | nil => exact List.nil_prefix
  | cons f frames ih =>
    obtain ⟨hf, hframes⟩ := List.forall_mem_cons.mp hle
    rw [List.flatMap_cons, List.append_assoc] at hs
    cases h with
    | stuck hstuck =>
      rw [hs] at hstuck
      exact absurd hstuck (not_stuck_frame hf)
    | frame hbody hrest =>
      obtain ⟨rfl, htail⟩ := frame_append_inj (fits_of_le hbody) (fits_of_le hf) hs
      exact (List.prefix_cons_inj _).mpr (ih hrest hframes htail)

/-- Whole frames decode to their bodies, up to the first over the limit. -/
theorem decodes_frames {frames : List Bytes} (h : ∀ f ∈ frames, Fits f) :
    Decodes (frames.flatMap frame) (frames.takeWhile (·.length ≤ maxFrameSize)) := by
  induction frames with
  | nil => exact .stuck .eof
  | cons f frames ih =>
    obtain ⟨hf, hrest⟩ := List.forall_mem_cons.mp h
    rw [List.flatMap_cons, List.takeWhile_cons]
    split_ifs with hlen
    · exact .frame (of_decide_eq_true hlen) (ih hrest)
    · rw [frame, List.append_assoc]
      exact .stuck (.oversized (by simpa using hlen) hf)

/-! ## The loops -/

/-- What one turn of a frame loop comes to. -/
inductive Turn where
  /-- a body was read -/
  | body (data : Bytes)
  /-- an exception was caught, and the loop goes on -/
  | again
  /-- the loop is left -/
  | stop

/-- The server's turn. It leaves its loop for the end of the stream and for the `ValueError`s of
`read_frame`; a `struct.error` leaves the handler. -/
def serverTurn (s : List Bytes) : Turn × List Bytes :=
  match readFrame s with
  | (.body data, s) => (.body data, s)
  | (_, s) => (.stop, s)

/-- The client's turn, as far as the body. -/
def clientTurn (s : List Bytes) : Turn × List Bytes :=
  let (header, s) := read 4 s
  if header.isEmpty then (.stop, s)
  else
    match unpack header with
    -- the `struct.error` ends up in `except Exception`
    | none => (.again, s)
    | some n =>
      if maxFrameSize < n then (.stop, s)
      else
        let (data, s) := read n s
        if data.length < n then (.stop, s) else (.body data, s)

/-- `while True`, with a bound on its turns: the bodies it reads. `goesOn k data` says whether the
loop goes on after what is done with the body number `k`; `none` when the bound was too small. -/
def frameLoop (turn : List Bytes → Turn × List Bytes) (goesOn : ℕ → Bytes → Bool) :
    ℕ → ℕ → List Bytes → Option (List Bytes)
  | 0, _, _ => none
  | fuel + 1, k, s =>
    match turn s with
    | (.stop, _) => some []
    | (.again, s) => frameLoop turn goesOn fuel k s
    | (.body data, s) =>
      if goesOn k data then (frameLoop turn goesOn fuel (k + 1) s).map (data :: ·)
      else some [data]

/-- The bodies up to the first that ends the loop. -/
def upTo (goesOn : ℕ → Bytes → Bool) : ℕ → List Bytes → List Bytes
  | _, [] => []
  | k, data :: bodies =>
    if goesOn k data then data :: upTo goesOn (k + 1) bodies else [data]

/-- A turn reads an accepted frame and nothing else; without one it leaves the loop, or has
nothing left to read. -/
structure Framed (turn : List Bytes → Turn × List Bytes) : Prop where
  /-- a frame in front -/
  frame : ∀ {s : List Bytes} {body rest : Bytes}, body.length ≤ maxFrameSize →
    s.flatten = GuardedIM.frame body ++ rest →
    ∃ s', turn s = (.body body, s') ∧ s'.flatten = rest
  /-- no frame in front -/
  stuck : ∀ {s : List Bytes}, Stuck s.flatten →
    (turn s).1 = .stop ∨ ((turn s).1 = .again ∧ s.flatten ≠ [] ∧ (turn s).2.flatten = [])

variable {turn : List Bytes → Turn × List Bytes} {goesOn : ℕ → Bytes → Bool} {s : List Bytes}

theorem frameLoop_stop {fuel k : ℕ} (h : (turn s).1 = .stop) :
    frameLoop turn goesOn (fuel + 1) k s = some [] := by
  rcases hturn : turn s with ⟨t, s'⟩
  rw [hturn] at h
  obtain rfl : t = .stop := h
  rw [frameLoop, hturn]

/-- **A loop reads what there is to read, and ends.** -/
theorem frameLoop_decodes (h : Framed turn) {bodies : List Bytes} (hd : Decodes s.flatten bodies)
    {fuel : ℕ} (hfuel : s.flatten.length < fuel) (k : ℕ) :
    frameLoop turn goesOn fuel k s = some (upTo goesOn k bodies) := by
  -- the pieces are forgotten: only the bytes that are left count
  generalize hs : s.flatten = stream at hd hfuel
  induction hd generalizing s fuel k with
  | stuck hstuck =>
    subst hs
    obtain ⟨fuel, rfl⟩ : ∃ n, fuel = n + 1 := ⟨fuel - 1, by omega⟩
    rcases h.stuck hstuck with hstop | ⟨hagain, hne, hnil⟩
    · exact frameLoop_stop hstop
    · -- one more turn, which finds the stream at its end
      rcases hturn : turn s with ⟨t, s'⟩
      rw [hturn] at hagain hnil
      have hpos := List.length_pos_iff.mpr hne
      obtain ⟨fuel, rfl⟩ : ∃ n, fuel = n + 1 := ⟨fuel - 1, by omega⟩
      have heof : (turn s').1 = .stop := by
        have hstuck' : Stuck s'.flatten := hnil ▸ .eof
        rcases h.stuck hstuck' with hstop | ⟨-, hne', -⟩
        · exact hstop
        · exact absurd hnil hne'
      simp only at hagain
      rw [frameLoop, hturn, hagain]
      exact frameLoop_stop heof
  | @frame body rest bodies hbody _ ih =>
    obtain ⟨fuel, rfl⟩ : ∃ n, fuel = n + 1 := ⟨fuel - 1, by omega⟩
    obtain ⟨s', hturn, hs'⟩ := h.frame hbody hs
    have hlen : rest.length < fuel := by
      rw [List.length_append, length_frame] at hfuel
      omega
    rw [frameLoop, hturn, upTo]
    simp only
    split_ifs
    · rw [ih (k + 1) hs' hlen, Option.map_some]
    · rfl

theorem upTo_true (k : ℕ) (bodies : List Bytes) :
    upTo (fun _ _ => true) k bodies = bodies := by
  induction bodies generalizing k with
  | nil => rfl
  | cons data bodies ih => rw [upTo, if_pos rfl, ih]

/-! ## Both turns are framed -/

/-- A header that was read. -/
theorem read_pack {n : ℕ} {r : Bytes} (hs : s.flatten = pack n ++ r) :
    (read 4 s).1 = pack n ∧ (read 4 s).2.flatten = r := by
  rw [read_fst, read_snd, hs]
  exact ⟨List.take_left' (length_pack n), List.drop_left' (length_pack n)⟩

theorem unpack_eq_none {h : Bytes} (hlen : h.length < 4) : unpack h = none := by
  rw [unpack]
  rintro a b c d rfl
  exact absurd hlen (by simp)

/-- The two differ in one case. -/
theorem clientTurn_eq (s : List Bytes) :
    clientTurn s = match readFrame s with
      | (.body data, s') => (.body data, s')
      | (.eof, s') => (.stop, s')
      | (.error, s') => (if (unpack (read 4 s).1).isSome then .stop else .again, s') := by
  simp only [clientTurn, readFrame]
  by_cases hempty : (read 4 s).1.isEmpty = true
  · rw [if_pos hempty, if_pos hempty]
  · rw [if_neg hempty, if_neg hempty]
    cases unpack (read 4 s).1 with
    | none => rfl
    | some n =>
      simp only [Option.isSome_some, if_true]
      split_ifs <;> rfl

theorem readFrame_stuck (h : Stuck s.flatten) :
    (readFrame s).1 = .eof ∨ (readFrame s).1 = .error ∧
      ((unpack (read 4 s).1).isSome ∨ s.flatten ≠ [] ∧ (readFrame s).2.flatten = []) := by
  generalize hs : s.flatten = t at h
  cases h with
  | eof => exact .inl (readFrame_nil hs)
  | header hne hlen =>
    have hheader : (read 4 s).1 = t := by
      rw [read_fst, hs, List.take_of_length_le (by omega)]
    have hrest : (read 4 s).2.flatten = [] := by
      rw [read_snd, hs, List.drop_eq_nil_of_le (by omega)]
    have hread : readFrame s = (.error, (read 4 s).2) := by
      simp only [readFrame, hheader, List.isEmpty_eq_false_iff.mpr hne, unpack_eq_none hlen]
      rfl
    rw [hread]
    exact .inr ⟨rfl, .inr ⟨hne, hrest⟩⟩
  | @oversized n r hover hn =>
    obtain ⟨hheader, -⟩ := read_pack hs
    have hread : readFrame s = (.error, (read 4 s).2) := by
      simp only [readFrame, hheader, unpack_pack hn, if_pos hover]
      rfl
    rw [hread, hheader, unpack_pack hn]
    exact .inr ⟨rfl, .inl rfl⟩
  | @body n r hn hlen =>
    have hfit : n < 4294967296 := hn.trans_lt (by decide)
    obtain ⟨hheader, hrest⟩ := read_pack hs
    have hdata : (read n (read 4 s).2).1 = r := by
      rw [read_fst, hrest, List.take_of_length_le hlen.le]
    have hread : (readFrame s).1 = .error := by
      simp only [readFrame, hheader, unpack_pack hfit, if_neg (Nat.not_lt.mpr hn), hdata,
        if_pos hlen]
      rfl
    rw [hheader, unpack_pack hfit]
    exact .inr ⟨hread, .inl rfl⟩

theorem serverTurn_framed : Framed serverTurn where
  frame {s body rest} hbody hs := by
    have hframe := readFrame_frame (fits_of_le hbody) hs
    rw [if_pos hbody] at hframe
    obtain ⟨s', hread, hs'⟩ := hframe
    exact ⟨s', by rw [serverTurn, hread], hs'⟩
  stuck {s} hstuck := by
    left
    rcases hread : readFrame s with ⟨r, s'⟩
    have hfound := readFrame_stuck hstuck
    rw [hread] at hfound
    rcases hfound with rfl | ⟨rfl, -⟩
    · rw [serverTurn, hread]
    · rw [serverTurn, hread]

theorem clientTurn_framed : Framed clientTurn where
  frame {s body rest} hbody hs := by
    have hframe := readFrame_frame (fits_of_le hbody) hs
    rw [if_pos hbody] at hframe
    obtain ⟨s', hread, hs'⟩ := hframe
    exact ⟨s', by rw [clientTurn_eq, hread], hs'⟩
  stuck {s} hstuck := by
    rcases hread : readFrame s with ⟨r, s'⟩
    have hfound := readFrame_stuck hstuck
    rw [hread] at hfound
    rcases hfound with rfl | ⟨rfl, hsome⟩
    · left
      rw [clientTurn_eq, hread]
    · rw [clientTurn_eq, hread]
      simp only
      split_ifs with hheader
      · exact .inl rfl
      · exact .inr ⟨rfl, hsome.resolve_left hheader⟩

/-! ## What is in the frames -/

/-- The value in a body: `decrypt_message`, then `json.loads`; `none` when one of them raises. -/
def opened (A : Aead) (F : Json.Interpreter) (key : Key) (data : Bytes) : Option Json :=
  match decryptMessage A data key with
  | .ok text => Json.loads F text
  | .error _ => none

/-- What the handler makes of a body: a JSON object, or something it only prints. -/
def received (A : Aead) (F : Json.Interpreter) (key : Key) (data : Bytes) (now : Str) : Input :=
  match opened A F key data with
  | some (.obj o) => .frame o now
  | _ => .junk

section Client

variable (A : Aead) (F : Json.Interpreter) (printable : CodePoint → Bool) (root : MediaRoot)
  (username : Str) (key : Key)

/-- What the client does with a body. -/
def clientRound (disk : Disk) (data : Bytes) : Round :=
  match opened A F key data with
  | some v => receive printable root username disk v
  | none => ⟨[], true⟩

/-- Whether `receive_loop` goes on after the body number `k`. The disk may answer differently
each time. -/
def clientGoesOn (disk : ℕ → Disk) (k : ℕ) (data : Bytes) : Bool :=
  (clientRound A F printable root username key (disk k) data).continues

/-- `receive_loop`: the bodies it reads. -/
def receiveLoop (disk : ℕ → Disk) (fuel : ℕ) (s : List Bytes) : Option (List Bytes) :=
  frameLoop clientTurn (clientGoesOn A F printable root username key disk) fuel 0 s

end Client

/-- The frame loop of `handle_client`: the bodies it reads. All that is done with one is inside
`try … except Exception`, so the loop goes on after each. -/
def serverLoop (fuel : ℕ) (s : List Bytes) : Option (List Bytes) :=
  frameLoop serverTurn (fun _ _ => true) fuel 0 s

/-- What `os.urandom(12)` gives. -/
abbrev Nonce := {b : Bytes // b.length = 12}

/-- What is put into a frame. -/
inductive Sent where
  /-- `send_payload` of the server -/
  | payload (p : Payload) (nonce : Nonce)
  /-- `send_encrypted` of the client -/
  | text (message : Str) (nonce : Nonce)
  /-- any bytes: a body may be empty, or from somebody without the key -/
  | noise (data : Bytes)

variable (A : Aead) (F : Json.Interpreter) (key : Key)

/-- The body `send_encrypted` puts into its frame. -/
def sendEncrypted (message : Str) (nonce : Bytes) : Option Bytes :=
  match encryptMessage A nonce message key with
  | .ok encrypted => if encrypted.length < 4294967296 then some encrypted else none
  | .error _ => none

/-- The body, unless sending it raised. -/
def Sent.body : Sent → Option Bytes
  | .payload p nonce => sealPayload A key p nonce
  | .text message nonce => sendEncrypted A key message nonce
  | .noise data => some data

/-- What the recipient has to decrypt. -/
def Sent.decrypted : Sent → Except Exc Str
  | .payload p _ => .ok (Json.dumps (.obj p))
  | .text message _ => .ok message
  | .noise data => decryptMessage A data key

/-- What the recipient has to find in it. -/
def Sent.value : Sent → Option Json
  | .payload p _ => some (.obj p)
  | .text message _ => Json.loads F message
  | .noise data => opened A F key data

/-- A payload that came from `json.loads` or is made of such values. -/
def Sent.Canonical : Sent → Prop
  | .payload p _ => Json.Canonical F (.obj p)
  | _ => True

variable {A F key} {printable : CodePoint → Bool} {root : MediaRoot} {username : Str}

theorem decryptMessage_sendEncrypted {message : Str} (nonce : Nonce) {body : Bytes}
    (h : sendEncrypted A key message nonce = some body) :
    decryptMessage A body key = .ok message := by
  rw [sendEncrypted] at h
  split at h
  · rename_i encrypted hencrypted
    split_ifs at h
    obtain rfl := Option.some.inj h
    exact decryptMessage_encryptMessage A nonce.2 hencrypted
  · cases h

theorem decryptMessage_sent {x : Sent} {body : Bytes} (h : x.body A key = some body) :
    decryptMessage A body key = x.decrypted A key := by
  cases x with
  | payload p nonce => exact decryptMessage_sendEncrypted nonce h
  | text message nonce => exact decryptMessage_sendEncrypted nonce h
  | noise data =>
    obtain rfl := Option.some.inj h
    rfl

theorem opened_sent {x : Sent} {body : Bytes} (h : x.body A key = some body)
    (hx : x.Canonical F) : opened A F key body = x.value A F key := by
  rw [opened, decryptMessage_sent h]
  cases x with
  | payload p nonce => exact Json.loads_dumps hx
  | text message nonce => rfl
  | noise data => rfl

/-- The only values that can end the client's session. -/
def MayEnd (v : Json) : Prop :=
  ∃ p : Payload, v = .obj p ∧ (p.find (str "type") = .str (str "error") ∨
    p.find (str "type") = .str (str "message_file") ∨ p.find (str "type") = .str (str "group_file"))

/-- A body that cannot be opened never does. -/
theorem clientRound_stops {disk : Disk} {data : Bytes}
    (h : (clientRound A F printable root username key disk data).continues = false) :
    ∃ v, opened A F key data = some v ∧ MayEnd v := by
  rw [clientRound] at h
  split at h
  · rename_i v hv
    cases v with
    | obj p =>
      refine ⟨.obj p, hv, p, rfl, ?_⟩
      rw [receive, receiveObject] at h
      simp only at h
      split_ifs at h with _ _ herror _ _ _ _ hfile
      · exact .inl (Json.isStr_iff.mp herror)
      · rcases Bool.or_eq_true_iff.mp hfile with htype | htype
        · exact .inr (.inl (Json.isStr_iff.mp htype))
        · exact .inr (.inr (Json.isStr_iff.mp htype))
    | _ => cases h
  · cases h

/-- What holds of each body that was sent holds of the sequence. -/
theorem map_sent {α : Type} {f : Bytes → α} {g : Sent → α} {sent : List Sent}
    {bodies : List Bytes} (hsent : sent.map (Sent.body A key) = bodies.map some)
    (h : ∀ x ∈ sent, ∀ b, x.body A key = some b → f b = g x) : bodies.map f = sent.map g := by
  induction sent generalizing bodies with
  | nil =>
    obtain rfl := List.map_eq_nil_iff.mp hsent.symm
    rfl
  | cons x sent ih =>
    cases bodies with
    | nil => cases hsent
    | cons b bodies =>
      obtain ⟨hx, hrest⟩ := List.cons.inj hsent
      obtain ⟨hfx, hf⟩ := List.forall_mem_cons.mp h
      rw [List.map_cons, List.map_cons, hfx b hx, ih hrest hf]

/-- **The framing codec.** Both loops end, and read the maximal sequence of accepted frames of any
stream, however it is cut; the client up to the first that ends its session, which is an error or
a file. What was sent, by either side and with anything in between, is that sequence, and comes
out of each body. -/
theorem framing_codec (A : Aead) (F : Json.Interpreter) (printable : CodePoint → Bool)
    (root : MediaRoot) (username : Str) (key : Key) (disk : ℕ → Disk) (s : List Bytes) :
    (∃ bodies, Decodes s.flatten bodies ∧
      (∀ frames rest, (∀ f ∈ frames, f.length ≤ maxFrameSize) →
        s.flatten = frames.flatMap frame ++ rest → frames <+: bodies) ∧
      ∀ fuel, s.flatten.length < fuel → serverLoop fuel s = some bodies ∧
        receiveLoop A F printable root username key disk fuel s =
          some (upTo (clientGoesOn A F printable root username key disk) 0 bodies)) ∧
    (∀ k data, clientGoesOn A F printable root username key disk k data = false →
      ∃ v, opened A F key data = some v ∧ MayEnd v) ∧
    ∀ (sent : List Sent) (bodies : List Bytes), sent.map (Sent.body A key) = bodies.map some →
      (∀ b ∈ bodies, b.length ≤ maxFrameSize) → s.flatten = bodies.flatMap frame →
      (∀ fuel, s.flatten.length < fuel → serverLoop fuel s = some bodies ∧
        receiveLoop A F printable root username key disk fuel s =
          some (upTo (clientGoesOn A F printable root username key disk) 0 bodies)) ∧
      (bodies.map fun b => decryptMessage A b key) = sent.map (Sent.decrypted A key) ∧
      ((∀ x ∈ sent, x.Canonical F) →
        bodies.map (opened A F key) = sent.map (Sent.value A F key)) := by
  have hloops : ∀ {bodies}, Decodes s.flatten bodies → ∀ fuel, s.flatten.length < fuel →
      serverLoop fuel s = some bodies ∧ receiveLoop A F printable root username key disk fuel s =
        some (upTo (clientGoesOn A F printable root username key disk) 0 bodies) := by
    intro bodies hd fuel hfuel
    refine ⟨?_, frameLoop_decodes clientTurn_framed hd hfuel 0⟩
    rw [serverLoop, frameLoop_decodes serverTurn_framed hd hfuel 0, upTo_true]
  refine ⟨?_, fun k data h => clientRound_stops h, fun sent bodies hsent hle hs => ?_⟩
  · obtain ⟨bodies, hd⟩ := exists_decodes s.flatten
    exact ⟨bodies, hd, fun frames rest hframes hs => hd.maximal hframes hs, hloops hd⟩
  · have hall : bodies.takeWhile (·.length ≤ maxFrameSize) = bodies :=
      List.takeWhile_eq_self_iff.mpr fun b hb => decide_eq_true (hle b hb)
    have hd := decodes_frames fun b hb => fits_of_le (hle b hb)
    rw [hall, ← hs] at hd
    exact ⟨hloops hd, map_sent hsent fun x _ b hb => decryptMessage_sent hb,
      fun hcanonical => map_sent hsent fun x hx b hb => opened_sent hb (hcanonical x hx)⟩

/-- Floats are all written the way they are kept, and a thousand brackets may be open. -/
def demoInterpreter : Json.Interpreter where
  repr t := if Json.scanNumeral t = some ((t, true), []) then t else str "0.0"
  canonical {s t r} _ := by
    refine .inr (.inr ?_)
    by_cases ht : Json.scanNumeral t = some ((t, true), [])
    · rw [if_pos ht, if_pos ht]
      exact ⟨ht, rfl⟩
    · rw [if_neg ht]
      exact ⟨rfl, rfl⟩
  nesting := 1000
  two_le_nesting := by decide

/-- Twelve zero bytes. -/
def demoNonce : Nonce := ⟨List.replicate 12 0, rfl⟩

theorem canonical_errorPayload {F : Json.Interpreter} (msg : Str) (h : Json.Joined msg) :
    Json.Canonical F (.obj (errorPayload msg)) :=
  (Json.canonical_empty.field "type" (Json.canonical_literal "error")).field "message" (.str h)

/-- An empty body, an error, and two bytes of noise, in three pieces. Only the server reads the
last one. -/
theorem framing_codec_three : ∃ body,
    sealPayload demoAead demoKey (errorPayload []) demoNonce.1 = some body ∧
      opened demoAead demoInterpreter demoKey body = some (.obj (errorPayload [])) ∧
      serverLoop 200 [[0, 0, 0], [0] ++ frame body, frame [1, 2]] = some [[], body, [1, 2]] ∧
      receiveLoop demoAead demoInterpreter (fun _ => false) demoRoot (str "alice") demoKey
        (fun _ => ⟨true, true⟩) 200 [[0, 0, 0], [0] ++ frame body, frame [1, 2]] =
          some [[], body] := by
  obtain ⟨body, hbody, hlen⟩ := sealPayload_error demoAead demoNonce.1 demoNonce.2
  have hflat : [[0, 0, 0], [0] ++ frame body, frame [1, 2]].flatten =
      [[], body, [1, 2]].flatMap frame := by
    simp [frame, pack]
  obtain ⟨-, -, hsent⟩ := framing_codec demoAead demoInterpreter (fun _ => false) demoRoot
    (str "alice") demoKey (fun _ => ⟨true, true⟩) [[0, 0, 0], [0] ++ frame body, frame [1, 2]]
  obtain ⟨hloops, -, hvalues⟩ := hsent
    [.noise [], .payload (errorPayload []) demoNonce, .noise [1, 2]] [[], body, [1, 2]]
    (by simp [Sent.body, hbody]) (by simp [hlen, maxFrameSize]) hflat
  obtain ⟨hserver, hclient⟩ := hloops 200 (by simp [length_frame, hlen])
  have hopened : opened demoAead demoInterpreter demoKey body = some (.obj (errorPayload [])) := by
    have hall := hvalues (by
      simp [Sent.Canonical, canonical_errorPayload (F := demoInterpreter) [] .nil])
    simp only [List.map_cons, Sent.value] at hall
    exact (List.cons.inj (List.cons.inj hall).2).1
  refine ⟨body, hbody, hopened, hserver, hclient.trans ?_⟩
  have hempty : opened demoAead demoInterpreter demoKey [] = none := rfl
  have hstop : (receive (fun _ => false) demoRoot (str "alice") ⟨true, true⟩
      (.obj (errorPayload []))).continues = false := rfl
  simp [upTo, clientGoesOn, clientRound, hempty, hopened, hstop]

end GuardedIM
