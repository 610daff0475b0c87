import GuardedIM.Handling
import GuardedIM.Settling

/-!
# The server drains

No new connection is accepted and no frame comes in any more. What is left is finite: the handlers
finish their requests, send the lists they owe and clean up, in any order, whether the sends succeed
or raise.

* `Phase.rank`: the steps that a handler has left, when no table has more than `B` entries and no
  group more than `B` members.
* `Bounded`: such a `B` holds to the end. The clients are bounded since each of them is a handler.
* `drains`: every schedule ends, with all handlers closed and the table of clients empty.
-/

namespace GuardedIM

open Interleave Interleave.Program

/-- Something new to do. -/
def Input.isWork : Input → Bool
  | .accept | .frame _ _ | .junk => true
  | _ => false

/-- Nothing new comes in. -/
def Draining (_ : Config Conn Tables Phase Event) (a : Conn × Input) : Prop := a.2.isWork = false

/-- The steps a handler has left, at most. -/
def Phase.rank (B : ℕ) : Phase → ℕ
  | .idle | .closed => 0
  | .close => 1
  | .listing none _ ts => ts.length + 2
  | .broadcast none => B + 3
  | .cleanup _ => B + 4
  | .loop _ => B + 5
  | .act _ .ignore | .act _ (.reply _) | .forwardTo _ _ _ => B + 6
  | .act _ (.forward _ _) => B + 7
  | .cast _ ms _ _ => B + 2 * ms.length + 7
  | .castTo _ _ ms _ _ => B + 2 * ms.length + 8
  | .act _ (.create _ ms) => B + 2 * ms.length + 8
  | .act _ (.fanOut _ _) => B + 2 * B + 8
  | .listing (some _) _ ts => B + ts.length + 6
  | .broadcast (some _) => 2 * B + 7
  | .sendFirst _ _ => 2 * B + 8
  | .firstList _ => 2 * B + 9
  | .register _ => 2 * B + 10
  | .refuse _ _ => B + 5
  | .readName _ => 2 * B + 11
  | .readKey => 2 * B + 12

/-- The members of the group that the handler is about to store. -/
def Phase.storing : Phase → List Str
  | .act _ (.create _ ms) => ms
  | _ => []

variable {printable : CodePoint → Bool} {c : Conn} {tb tb' : Tables} {ph ph' : Phase}
  {es : List Event} {B : ℕ} {x y z : Config Conn Tables Phase Event}

/-- A handler that is given nothing new has been accepted, and leaves its loop only for
`finally`. -/
theorem handleClient_draining {i : Input} {m : Tables × Phase × List Event}
    (h : handleClient printable c tb ph i = some m) (hi : i.isWork = false) :
    ph ≠ .idle ∧ ∀ σ, ph = .loop σ → m.2.1 = .cleanup (some σ.name) := by
  refine ⟨?_, ?_⟩
  · rintro rfl
    cases i <;> cases h
    cases hi
  · rintro σ rfl
    cases i with
    | eof =>
      obtain rfl := Option.some.inj h
      rfl
    | frame | junk => cases hi
    | _ => cases h

/-- **A step brings the rank down.** -/
theorem Moves.rank_lt (h : Moves printable c tb ph tb' ph' es) (hidle : ph ≠ .idle)
    (hloop : ∀ σ, ph = .loop σ → ph' = .cleanup (some σ.name))
    (hclients : tb.clients.length ≤ B)
    (hgroups : ∀ g ms, Dict.get tb.groups g = some ms → ms.length ≤ B) :
    ph'.rank B < ph.rank B := by
  cases h with
  | accept => exact absurd rfl hidle
  | junk σ | request σ | raises σ => cases hloop σ rfl
  | snapshot so =>
    have hvalues : (Dict.values tb.clients).length ≤ B := by rwa [Dict.values, List.length_map]
    cases so <;> simp only [Phase.rank] <;> omega
  | list so => cases so <;> simp only [Phase.rank, List.length_cons] <;> omega
  | fanOut σ g p ms hg =>
    have hms := hgroups g ms hg
    simp only [Phase.rank]
    omega
  | _ =>
    simp only [Phase.rank, List.length_cons, List.length_nil]
    omega

/-- A group that is stored was about to be stored. -/
theorem Moves.stored_le (h : Moves printable c tb ph tb' ph' es)
    (hstoring : ph.storing.length ≤ B)
    (hgroups : ∀ g ms, Dict.get tb.groups g = some ms → ms.length ≤ B) :
    ∀ g ms, Dict.get tb'.groups g = some ms → ms.length ≤ B := by
  intro g ms hg
  cases h with
  | create σ g' ms' _ =>
    rw [Dict.get_set] at hg
    split_ifs at hg
    · obtain rfl := Option.some.inj hg
      exact hstoring
    · exact hgroups g ms hg
  | _ => exact hgroups g ms hg

/-- Only a request makes a handler store a group. -/
theorem Moves.storing_eq_nil (h : Moves printable c tb ph tb' ph' es)
    (hloop : ∀ σ, ph = .loop σ → ph' = .cleanup (some σ.name)) : ph'.storing = [] := by
  cases h with
  | request σ => cases hloop σ rfl
  | _ => rfl

/-! ## The bounds -/

theorem nodup_removeOwn {clients : Dict Str Target} (h : (Dict.keys clients).Nodup) (c : Conn)
    (uo : Option Str) : (Dict.keys (removeOwn c uo clients)).Nodup := by
  cases uo with
  | none => exact h
  | some u =>
    simp only [removeOwn]
    split
    · split_ifs
      · exact Dict.nodup_keys_filter h _
      · exact h
    · exact h

theorem client_names_reach {C : Config Conn Tables Phase Event → Conn × Input → Prop}
    (h : (server printable).Reach C x) : (Dict.keys x.memory.clients).Nodup := by
  apply h.invariant (I := fun x => (Dict.keys x.memory.clients).Nodup)
  · exact List.nodup_nil
  · rintro z c i ⟨tb, ph, es⟩ - hz - hm
    rw [after_memory]
    have hmoves := server_moves hm
    generalize z.thread c = ph₀ at hmoves
    cases hmoves with
    | register σ => exact Dict.nodup_keys_set hz σ.name _
    | cleanup uo => exact nodup_removeOwn hz c uo
    | _ => exact hz

/-- **There are no more clients than handlers**: each entry is the session of another one. -/
theorem clients_length_le {C : Config Conn Tables Phase Event → Conn × Input → Prop}
    (h : (server printable).Reach C x) {S : Finset Conn} (hS : ∀ c, c ∉ S → x.thread c = .idle) :
    x.memory.clients.length ≤ S.card := by
  have hs := sessions_reach h
  have hnames := client_names_reach h
  have hlive : ∀ e ∈ x.memory.clients, Live x.log e.2.1 ⟨e.2.2, e.1⟩ := fun e he =>
    (hs.table e.1 e.2.1 e.2.2).mp (Dict.get_of_mem hnames he)
  have hnodup : (x.memory.clients.map fun e => e.2.1).Nodup := by
    refine (List.nodup_map_iff_inj_on (List.Nodup.of_map _ hnames)).mpr fun e he e' he' heq => ?_
    have hreg := (hlive e he).1
    rw [heq] at hreg
    obtain ⟨hkey, hname⟩ := Session.mk.inj (hs.once _ _ _ hreg (hlive e' he').1)
    exact Prod.ext hname (Prod.ext heq hkey)
  rw [← List.length_map, ← List.toFinset_card_of_nodup hnodup]
  refine Finset.card_le_card fun c hc => ?_
  obtain ⟨e, he, rfl⟩ := List.mem_map.mp (List.mem_toFinset.mp hc)
  by_contra hidle
  have hpast := hs.history e.2.1
  rw [stages, hS _ hidle] at hpast
  exact hpast.2.1 _ (hlive e he).1

/-- What bounds the work that is left: the handlers `S`, and the sizes of groups. -/
structure Bounded (printable : CodePoint → Bool) (S : Finset Conn) (B : ℕ)
    (x : Config Conn Tables Phase Event) : Prop where
  /-- a run leads here -/
  reach : (server printable).Reach Any x
  /-- nobody else has been accepted -/
  idle : ∀ c, c ∉ S → x.thread c = .idle
  /-- no group is bigger -/
  groups : ∀ g ms, Dict.get x.memory.groups g = some ms → ms.length ≤ B
  /-- nor will one be -/
  storing : ∀ c, (x.thread c).storing.length ≤ B

theorem Bounded.step {S : Finset Conn} {i : Input} {m : Tables × Phase × List Event}
    (h : Bounded printable S B z) (hB : S.card ≤ B) (hi : i.isWork = false)
    (hm : handleClient printable c z.memory (z.thread c) i = some m) :
    Bounded printable S B (after z c m) ∧ c ∈ S ∧ m.2.1.rank B < (z.thread c).rank B := by
  have hmoves := handleClient_moves hm
  obtain ⟨hidle, hloop⟩ := handleClient_draining hm hi
  have hc : c ∈ S := by
    by_contra hc
    exact hidle (h.idle c hc)
  have hclients := (clients_length_le h.reach h.idle).trans hB
  have hnext : (server printable).next z (c, i) = some (after z c m) := by
    simp only [Program.next, server, hm, Option.map_some]
  refine ⟨⟨h.reach.step trivial hnext, fun d hd => ?_, hmoves.stored_le (h.storing c) h.groups,
    fun d => ?_⟩, hc, hmoves.rank_lt hidle hloop hclients h.groups⟩
  · rw [after_thread_ne _ _ fun hdc : d = c => hd (hdc ▸ hc)]
    exact h.idle d hd
  · by_cases hd : d = c
    · subst hd
      rw [after_thread_self, hmoves.storing_eq_nil hloop]
      exact B.zero_le
    · rw [after_thread_ne _ _ hd]
      exact h.storing d

/-- Every state has such bounds. -/
theorem exists_bounded (h : (server printable).Reach Any x) :
    ∃ S B, S.card ≤ B ∧ Bounded printable S B x := by
  obtain ⟨S, hS⟩ := exists_moved h
  let sizes := (x.memory.groups.map fun e => e.2.length).sum
  let storing := ∑ c ∈ S, (x.thread c).storing.length
  refine ⟨S, S.card + sizes + storing, by omega, h, hS, fun g ms hg => ?_, fun c => ?_⟩
  · have hle : ms.length ≤ sizes :=
      List.le_sum_of_mem (List.mem_map.mpr ⟨_, Dict.mem_of_get hg, rfl⟩)
    omega
  · by_cases hc : c ∈ S
    · have hle : (x.thread c).storing.length ≤ storing :=
        Finset.single_le_sum (f := fun c => (x.thread c).storing.length) (fun _ _ => Nat.zero_le _)
          hc
      omega
    · rw [show x.thread c = .idle from hS c hc]
      exact Nat.zero_le _

/-! ## The end -/

/-- A handler that has not closed its connection can go on. -/
theorem exists_draining_step (printable : CodePoint → Bool) (c : Conn) (tb : Tables)
    (hidle : ph ≠ .idle) (hclosed : ph ≠ .closed) :
    ∃ i : Input, i.isWork = false ∧ (handleClient printable c tb ph i).isSome = true := by
  have hbusy : ∀ σ, ph.busy = some σ →
      ∃ i : Input, i.isWork = false ∧ (handleClient printable c tb ph i).isSome = true := by
    intro σ hσ
    obtain ⟨i, hi, rfl | rfl⟩ := exists_busy_step printable c tb hσ
    · exact ⟨.run, rfl, hi⟩
    · exact ⟨.sent true, rfl, hi⟩
  cases ph with
  | idle => exact absurd rfl hidle
  | closed => exact absurd rfl hclosed
  | readKey => exact ⟨.key none, rfl, rfl⟩
  | readName k => exact ⟨.name none, rfl, rfl⟩
  | refuse k u => exact ⟨.sent true, rfl, rfl⟩
  | register σ =>
    cases htaken : (Dict.get tb.clients σ.name).isSome with
    | true => exact ⟨.sent true, rfl, by simp [handleClient, htaken]⟩
    | false => exact ⟨.run, rfl, by simp [handleClient, htaken]⟩
  | firstList σ | broadcast so | cleanup uo | close => exact ⟨.run, rfl, rfl⟩
  | sendFirst σ us => exact ⟨.sent true, rfl, rfl⟩
  | listing so us ts =>
    cases ts with
    | nil => cases so <;> exact ⟨.run, rfl, rfl⟩
    | cons t ts => exact ⟨.sent true, rfl, rfl⟩
  | loop σ => exact ⟨.eof, rfl, rfl⟩
  | act σ | forwardTo σ | cast σ | castTo σ => exact hbusy σ rfl

/-- Nobody goes back to before the accept. -/
theorem Moves.accepted (h : Moves printable c tb ph tb' ph' es) : ph' ≠ .idle := by
  rintro rfl
  cases h

theorem accepted_run {C : Config Conn Tables Phase Event → Conn × Input → Prop}
    {as : List (Conn × Input)} (h : (server printable).Run C x as z) (hc : x.thread c ≠ .idle) :
    z.thread c ≠ .idle := by
  refine h.invariant (I := fun z => z.thread c ≠ .idle) hc ?_
  rintro z d i ⟨tb, ph, es⟩ hz - hm
  by_cases hd : c = d
  · subst hd
    rw [after_thread_self]
    exact (server_moves hm).accepted
  · rwa [after_thread_ne _ _ hd]

/-- Where no handler can go on, all are through, and nobody is left in the table. -/
theorem drained (h : (server printable).Reach Any z)
    (hstuck : ∀ a, Draining z a → (server printable).next z a = none) :
    (∀ c, z.thread c ≠ .idle → z.thread c = .closed) ∧ z.memory.clients = [] := by
  have hclosed : ∀ c, z.thread c ≠ .idle → z.thread c = .closed := by
    intro c hidle
    by_contra hclosed
    obtain ⟨i, hi, hstep⟩ := exists_draining_step printable c z.memory hidle hclosed
    have hnone := hstuck (c, i) hi
    rw [Program.next, Option.map_eq_none_iff] at hnone
    rw [show handleClient printable c z.memory (z.thread c) i = none from hnone] at hstep
    cases hstep
  refine ⟨hclosed, List.eq_nil_iff_forall_not_mem.mpr fun e he => ?_⟩
  have hs := sessions_reach h
  have hlive := (hs.table e.1 e.2.1 e.2.2).mp (Dict.get_of_mem (client_names_reach h) he)
  have hpast := hs.history e.2.1
  by_cases hidle : z.thread e.2.1 = .idle
  · rw [stages, hidle] at hpast
    exact hpast.2.1 _ hlive.1
  · rw [stages, hclosed _ hidle] at hpast
    exact hlive.2 hpast

/-- **The server drains**: when nothing new comes in, every schedule of the handlers ends after a
number of steps that is known beforehand. Where it ends, every connection that was accepted has been
closed, and nobody is left in the table. -/
theorem drains (h : (server printable).Reach Any x) :
    ∃ n, ∀ as z, (server printable).Run Draining x as z → as.length ≤ n ∧
      ((∀ a, Draining z a → (server printable).next z a = none) →
        (∀ c, x.thread c ≠ .idle → z.thread c = .closed) ∧ z.memory.clients = []) := by
  obtain ⟨S, B, hB, hx⟩ := exists_bounded h
  refine ⟨total S (Phase.rank B) x, fun as z hrun => ?_⟩
  obtain ⟨hz, hlength⟩ := hrun.length_le (I := Bounded printable S B) S (Phase.rank B) hx
    fun z c i m hz hi hm => hz.step hB hi hm
  refine ⟨(Nat.le_add_right ..).trans hlength, fun hstuck => ?_⟩
  obtain ⟨hclosed, hempty⟩ := drained hz.reach hstuck
  exact ⟨fun c hc => hclosed c (accepted_run hrun hc), hempty⟩

/-- Two clients are connected. -/
def hasClients (x : Config Conn Tables Phase Event) : Bool :=
  decide (Dict.keys x.memory.clients = [str "alice", str "bob"])

/-- Alice and Bob are connected when the server stops accepting. -/
theorem drains_both : ∃ x : Config Conn Tables Phase Event,
    Dict.keys x.memory.clients = [str "alice", str "bob"] ∧
      ∃ n, ∀ as z, (server fun _ => true).Run Draining x as z → as.length ≤ n ∧
        ((∀ a, Draining z a → (server fun _ => true).next z a = none) →
          (∀ c, x.thread c ≠ .idle → z.thread c = .closed) ∧ z.memory.clients = []) := by
  obtain ⟨x, hx, hp⟩ := exists_reach_of_exec (P := server fun _ => true)
    (join 0 (str "alice") 0 ++ join 1 (str "bob") 1) (p := hasClients) (by decide +kernel)
  exact ⟨x, of_decide_eq_true hp, drains hx⟩

end GuardedIM
