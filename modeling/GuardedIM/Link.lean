import Mathlib.Logic.Relation
import GuardedIM.Honest
import GuardedIM.Inert

/-!
# One session, from both ends

A client calls its methods and runs `receive_loop`; the server runs all its handlers, one of them on
the client's connection. Each of the two decides by itself when the session is over: the handler
answers a request that it rejects with an `error` and reads on, the client closes its connection for
any `error`.

The two streams of the connection are given by the bodies of their frames (`clientTurn_framed` and
`serverTurn_framed` are about the bytes), and one `send_payload` is one step.

* `Link.next`: a step of the client, or of one of the handlers.
* `Calm`: a condition on the state before a step. No request of the client is rejected, no frame is
  too large, and the disk stores its files.
* `Link.Alive`: both ends keep the session.
-/

namespace GuardedIM

open Interleave Interleave.Program

/-! ## The two ends -/

/-- The server, a client of it, and what is on its way between them. -/
structure Link where
  /-- the server -/
  server : Config Conn Tables Phase Event
  /-- what the handler has not read yet -/
  outbound : List Bytes
  /-- what the client has not read yet -/
  inbound : List Bytes
  /-- what the client has done with what it read -/
  effects : List Effect
  /-- the client is in `receive_loop` -/
  running : Bool
  /-- the client has closed `conn` -/
  closed : Bool

namespace Link

/-- Where the client comes in. -/
def start (x : Config Conn Tables Phase Event) : Link := ⟨x, [], [], [], true, false⟩

/-- Who moves. -/
inductive Act where
  /-- the client calls a method -/
  | call (r : ChatClient.Method) (now : UtcTime) (nonce : Nonce)
  /-- its handler reads a frame -/
  | read (readAt : UtcTime)
  /-- its handler finds the connection closed -/
  | hangUp
  /-- some handler makes another step; the bytes are those of `os.urandom(12)`, if it sends -/
  | serve (d : Conn) (i : Input) (nonce : Nonce)
  /-- the client reads a frame -/
  | receive (disk : Disk)
  /-- the client finds the connection closed -/
  | lost

end Link

/-- What was sent to the connection `c`: the key, the payload, and whether it went out. -/
def Event.toConn (c : Conn) : Event → Option (Key × Payload × Bool)
  | .wrote _ t p ok => if t.1 = c then some (t.2, p, ok) else none
  | _ => none

/-- All of it, in order. -/
def sentTo (c : Conn) (log : List Event) : List (Key × Payload × Bool) :=
  (log.filterMap (Event.toConn c)).reverse

/-- `conn.close()` -/
def Effect.isClose : Effect → Bool
  | .close => true
  | _ => false

/-- A handler at its frame loop. -/
def Phase.reading : Phase → Bool
  | .loop _ => true
  | _ => false

section Link

variable (A : Aead) (F : Json.Interpreter) (printable : CodePoint → Bool) (root : MediaRoot)
  (c : Conn) (σ : Session)

/-- The stream to the client after a step that reported `es`. A send fails where `send_payload`
raises: where the frame cannot be made, or the connection has been closed. -/
def Link.transmit (l : Link) (nonce : Nonce) (es : List Event) : Option (List Bytes) :=
  match es.findSome? (Event.toConn c) with
  | none => some l.inbound
  | some (key, p, ok) =>
    match sealPayload A key p nonce.1, ok with
    | some body, true => some (l.inbound ++ [body])
    | some _, false => if l.closed then some l.inbound else none
    | none, false => some l.inbound
    | none, true => none

/-- One step. A call that is refused, or that raises, changes nothing here. -/
def Link.next (l : Link) : Link.Act → Option Link
  | .call r now nonce =>
    match r.call printable (fun _ => none) σ.name now with
    | .sent text _ =>
      match sendEncrypted A σ.key text nonce.1 with
      | some body =>
        if l.closed then some l else some { l with outbound := l.outbound ++ [body] }
      | none => some l
    | _ => some l
  | .read readAt =>
    match l.outbound, l.server.thread c with
    | body :: rest, .loop τ =>
      let i := if body.length ≤ maxFrameSize then received A F τ.key body readAt.isoformat else .eof
      ((GuardedIM.server printable).next l.server (c, i)).map fun y =>
        { l with server := y, outbound := rest }
    | _, _ => none
  | .hangUp =>
    if l.closed then
      ((GuardedIM.server printable).next l.server (c, .eof)).map fun y => { l with server := y }
    else none
  | .serve d i nonce =>
    -- what the client's handler reads comes from the client
    if d = c ∧ (l.server.thread d).reading = true then none
    else
      match (GuardedIM.server printable).step d l.server.memory (l.server.thread d) i with
      | none => none
      | some m => (l.transmit A c nonce m.2.2).map fun inbound =>
        { l with server := after l.server d m, inbound := inbound }
  | .receive disk =>
    match l.running, l.inbound with
    | true, body :: rest =>
      if body.length ≤ maxFrameSize then
        let round := clientRound A F printable root σ.name σ.key disk body
        some { l with
          inbound := rest
          effects := l.effects ++ round.effects
          running := round.continues
          closed := l.closed || round.effects.any Effect.isClose }
      else some { l with inbound := rest, running := false }
    | _, _ => none
  | .lost =>
    match l.running, l.server.thread c, l.inbound with
    | true, .closed, [] => some { l with running := false }
    | _, _, _ => none

/-- What the other handlers read comes from their clients. -/
def Link.Act.FromWire (l : Link) : Link.Act → Prop
  | .serve d i _ => GuardedIM.FromWire A F l.server (d, i)
  | _ => True

/-- The runs whose steps meet a condition on the state before them. -/
def Link.Run (C : Link → Link.Act → Prop) : Link → Link → Prop :=
  Relation.ReflTransGen fun l l' =>
    ∃ a : Link.Act, C l a ∧ a.FromWire A F l ∧ l.next A F printable root c σ a = some l'

/-- The condition. A frame with a request for a group is within the limit; a request that the
client's handler takes to the tables is accepted there; what is sent to the client fits into a
frame; and a file that the client reads is stored. -/
def Calm (l : Link) : Link.Act → Prop
  | .call r now _ => ∀ g ms, r = .createGroup g ms →
      (Json.dumps (.obj (ChatClient.groupPayload σ.name g ms now.isoformat))).length + 28 ≤
        maxFrameSize
  | .serve d _ _ =>
      (∀ τ a, d = c → l.server.thread c = .act τ a → (∀ q, a ≠ .reply q) →
        Accepts l.server.memory τ.name a) ∧
      ∀ t p, (l.server.thread d).pending d = some (t, p) → t.1 = c → FitsFrame A p
  | .receive disk => ∀ body (p : Payload), l.inbound.head? = some body →
      opened A F σ.key body = some (.obj p) → p.IsFile → disk = ⟨true, true⟩
  | _ => True

/-- Both ends keep the session that began in `x`. -/
structure Link.Alive (x : Config Conn Tables Phase Event) (l : Link) : Prop where
  /-- the client is in its loop -/
  running : l.running = true
  /-- and its connection is open -/
  connected : l.closed = false
  /-- its handler has it in the table -/
  registered : Dict.get l.server.memory.clients σ.name = some (c, σ.key)
  /-- all that was sent to it since went out, sealed with its key; its callbacks were called for
  the first of these payloads, and the rest is on its way -/
  delivered : ∃ es got waiting, l.server.log = es ++ x.log ∧
    sentTo c es = (got ++ waiting).map (fun p => (σ.key, p, true)) ∧
    l.effects = got.flatMap
      (fun p => (receive printable root σ.name ⟨true, true⟩ (.obj p)).effects) ∧
    List.Forall₂ (fun p body => ∃ nonce : Nonce, sealPayload A σ.key p nonce.1 = some body)
      waiting l.inbound

end Link

variable {A : Aead} {F : Json.Interpreter} {printable : CodePoint → Bool} {root : MediaRoot}
  {c : Conn} {σ : Session} {username : Str} {disk disk' : Disk} {p : Payload} {v : Json}
  {l l' : Link}

/-! ## The client's round -/

/-- Only a file needs the disk. -/
theorem receive_disk (h : ¬ p.IsFile) : receive printable root username disk (.obj p) =
    receive printable root username disk' (.obj p) := by
  have hother : ((p.find (str "type")).isStr (str "message_file") ||
      (p.find (str "type")).isStr (str "group_file")) = false := by
    refine Bool.eq_false_iff.mpr fun hfile => h ?_
    rcases Bool.or_eq_true_iff.mp hfile with ht | ht
    · exact ⟨_, Json.isStr_iff.mp ht, .inl rfl⟩
    · exact ⟨_, Json.isStr_iff.mp ht, .inr rfl⟩
  simp only [receive, receiveObject, hother]
  rfl

/-- A round that closes the connection is the last one. -/
def Round.ClosesLast (r : Round) : Prop := r.continues = true → r.effects.any Effect.isClose = false

/-- A file never closes the connection. -/
theorem closesLast_receiveFile (p : Payload) :
    (receiveFile printable root username disk p).ClosesLast := by
  simp only [receiveFile]
  split
  · exact fun _ => rfl
  · split
    · exact fun _ => rfl
    · split
      · exact fun _ => rfl
      · split
        · exact fun _ => rfl
        · exact fun _ => rfl

/-- An error does, and the client leaves its loop with it. -/
theorem closesLast_receiveObject (p : Payload) :
    (receiveObject printable root username disk p).ClosesLast := by
  unfold receiveObject
  have hother : Round.ClosesLast ⟨[], true⟩ := fun _ => rfl
  refine iteInduction (fun _ _ => rfl) fun _ => ?_
  refine iteInduction (fun _ _ => rfl) fun _ => ?_
  refine iteInduction (fun _ h => absurd h Bool.false_ne_true) fun _ => ?_
  refine iteInduction (fun _ _ => rfl) fun _ => ?_
  refine iteInduction (fun _ _ => rfl) fun _ => ?_
  refine iteInduction (fun _ _ => rfl) fun _ => ?_
  refine iteInduction (fun _ _ => rfl) fun _ => ?_
  exact iteInduction (fun _ => closesLast_receiveFile p) fun _ => hother

/-- **As long as the loop goes on, the connection is open.** -/
theorem receive_open (h : (receive printable root username disk v).continues = true) :
    (receive printable root username disk v).effects.any Effect.isClose = false := by
  cases v with
  | obj p => exact closesLast_receiveObject p h
  | _ => rfl

/-! ## Runs, by computation -/

/-- Steps that pass a test, one after the other. -/
def Link.execIf (A : Aead) (F : Json.Interpreter) (printable : CodePoint → Bool) (root : MediaRoot)
    (c : Conn) (σ : Session) (test : Link → Link.Act → Bool) (l : Link) (as : List Link.Act) :
    Option Link :=
  as.foldlM (fun l a => if test l a then l.next A F printable root c σ a else none) l

/-- Steps that were computed are a run, if the test is enough for what is asked of them. -/
theorem Link.run_of_execIf {C : Link → Link.Act → Prop} {test : Link → Link.Act → Bool}
    (hC : ∀ l a, test l a = true → C l a ∧ a.FromWire A F l) {as : List Link.Act}
    (h : l.execIf A F printable root c σ test as = some l') :
    Link.Run A F printable root c σ C l l' := by
  induction as generalizing l with
  | nil =>
    obtain rfl := Option.some.inj h
    exact .refl
  | cons a as ih =>
    rw [Link.execIf, List.foldlM_cons] at h
    obtain ⟨l₁, hl₁, hrest⟩ := Option.bind_eq_some_iff.mp h
    split_ifs at hl₁ with ha
    obtain ⟨hcalm, hwire⟩ := hC l a ha
    exact .head ⟨a, hcalm, hwire, hl₁⟩ (ih hrest)

/-- No other handler reads a frame. -/
def Link.Act.isQuiet : Link.Act → Bool
  | .serve _ (.frame _ _) _ => false
  | _ => true

/-- Where no other handler reads a frame, every frame came over the wire. -/
theorem Link.Act.fromWire_of_isQuiet {a : Link.Act} (h : a.isQuiet = true) : a.FromWire A F l := by
  cases a with
  | serve d i nonce =>
    refine fromWire_quiet _ _ fun o now heq => ?_
    obtain rfl : i = .frame o now := heq
    cases h
  | _ => trivial

end GuardedIM
