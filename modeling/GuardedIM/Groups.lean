import GuardedIM.Fanout

/-!
# The table of groups

Only one step of one branch writes to `groups`: `create_group`, once the request passed its
checks and if the name is free. Any number of handlers may be there for the same name; the
lookup and the insertion are one locked section, so the first one wins.

* `creates_step` says what a step does to the table, and what is known of the request when
  it does anything.
* `creations_reach`: the history has one creation for each entry and no other.
* `group_table`: the invariant of the table, over all interleavings.
-/

namespace GuardedIM

open Interleave Interleave.Program

/-- The object asks for a group `g` with the members `ms`, all of them valid names. -/
structure CreateRequest (o : Payload) (g : Str) (ms : List Str) : Prop where
  /-- its type -/
  type : o.find (str "type") = .str (str "create_group")
  /-- the name it gives -/
  groupName : o.find (str "group_name") = .str g
  /-- which is valid -/
  safe : SafeName 48 g
  /-- the members it gives; none when the field is missing -/
  members : (Dict.get o (str "members")).getD (.arr []) = .arr (ms.map .str)
  /-- which are valid -/
  valid : ∀ m ∈ ms, SafeName 32 m

/-- What is behind the creation of a group by the handler of `c`. -/
structure Created (past : List Event) (c : Conn) (g : Str) (members : List Str) : Prop where
  /-- a request from its session, with the requester added to the members -/
  request : ∃ σ o ms, Live past c σ ∧ current past c = some o ∧ CreateRequest o g ms ∧
    members = sortedSet (ms ++ [σ.name])
  /-- the name was free -/
  fresh : ∀ ms, ¬ Stored past g ms

/-- The creations of the group `g`: by whom, and with which members. -/
def creations (g : Str) : List Event → List (Conn × List Str) :=
  List.filterMap fun
    | .grouped c g' ms => if g' = g then some (c, ms) else none
    | _ => none

/-- An entry of the table, against the history. -/
structure GroupEntry (log : List Event) (g : Str) (ms : List Str) : Prop where
  /-- the name is valid -/
  name : SafeName 48 g
  /-- the members are strictly sorted -/
  sorted : ms.Pairwise (· < ·)
  /-- and valid names -/
  valid : ∀ m ∈ ms, SafeName 32 m
  /-- one request determined it, and the name of its connection is among the members -/
  creator : ∃ c σ, creations g log = [(c, ms)] ∧ .registered c σ ∈ log ∧
    (∀ σ', .registered c σ' ∈ log → σ' = σ) ∧ σ.name ∈ ms

variable {printable : CodePoint → Bool} {C : Config Conn Tables Phase Event → Conn × Input → Prop}
  {x z : Config Conn Tables Phase Event} {c : Conn} {tb' : Tables} {ph' : Phase}
  {es log : List Event} {g : Str}

theorem Passes.createRequest {username now : Str} {o : Payload} {members : List Str}
    (h : Passes printable username now o (.create g members)) :
    ∃ ms, CreateRequest o g ms ∧ members = sortedSet (ms ++ [username]) := by
  cases h with
  | create ht hg hsafe hms hmembers => exact ⟨_, ⟨ht, hg, hsafe, hmembers, hms⟩, rfl⟩

/-- **What a step does to the table**: nothing, or it carries out a valid request for a free
name. -/
theorem creates_step (hz : (server printable).Reach C z)
    (h : Moves printable c z.memory (z.thread c) tb' ph' es) :
    (tb'.groups = z.memory.groups ∧ ∀ e ∈ es, ∀ d g ms, e ≠ .grouped d g ms) ∨
      ∃ σ g ms, z.thread c = .act σ (.create g ms) ∧ Created z.log c g ms ∧
        tb'.groups = Dict.set z.memory.groups g ms ∧ es = [.grouped c g ms] := by
  have hreq := request_reach hz c
  have hpast := (sessions_reach hz).history c
  have hstored := groups_reach hz
  rw [stages] at hpast
  generalize z.thread c = ph at h hreq hpast
  cases h with
  | create σ g ms hfree =>
    refine .inr ⟨σ, g, ms, rfl, ⟨?_, fun ms' hms' => ?_⟩, rfl, rfl⟩
    · rcases hreq with ⟨q, hq, -⟩ | ⟨o, now, ho, hp⟩
      · cases hq
      · obtain ⟨ms', hrequest, hms⟩ := hp.createRequest
        exact ⟨σ, o, ms', hpast, ho, hrequest, hms⟩
    · rw [← hstored, hfree] at hms'
      cases hms'
  | _ => exact .inl ⟨rfl, by simp [sendPayload]⟩

theorem creations_append_of_quiet (hes : ∀ e ∈ es, ∀ d g ms, e ≠ .grouped d g ms) :
    creations g (es ++ log) = creations g log := by
  rw [creations, List.filterMap_append, List.filterMap_eq_nil_iff.mpr, List.nil_append]
  intro e he
  cases e with
  | grouped d g' ms => exact absurd rfl (hes _ he d g' ms)
  | _ => rfl

/-- **One creation for each entry**, and no other. -/
theorem creations_reach (h : (server printable).Reach C x) :
    ∀ g, (creations g x.log).map Prod.snd = (Dict.get x.memory.groups g).toList := by
  refine h.invariant (I := fun x => ∀ g, (creations g x.log).map Prod.snd =
    (Dict.get x.memory.groups g).toList) (fun g => rfl) ?_
  rintro z c i ⟨tb, ph, es⟩ hreach hz - hm g
  rw [after_memory, after_log]
  rcases creates_step hreach (server_moves hm) with ⟨hsame, hes⟩ | ⟨σ, g', ms, -, hnew, hset, rfl⟩
  · rw [creations_append_of_quiet hes, hsame, hz g]
  · rw [hset, Dict.get_set]
    split_ifs with hg
    · subst hg
      have hnone : Dict.get z.memory.groups g = none := by
        rw [Option.eq_none_iff_forall_ne_some]
        intro ms' hms'
        exact hnew.fresh ms' ((groups_reach hreach g ms').mp hms')
      have hz := hz g
      simp only [hnone, Option.toList_none, List.map_eq_nil_iff] at hz
      simp only [creations, List.singleton_append, List.filterMap_cons, if_true,
        List.map_cons, Option.toList_some] at hz ⊢
      simp [hz]
    · rw [← hz g]
      simp [creations, Ne.symm hg]

/-- Every creation in the history came from a valid request for a free name. -/
theorem created_reach (h : (server printable).Reach C x) :
    Justified (fun e past => ∀ c g ms, e = .grouped c g ms → Created past c g ms) x.log := by
  refine h.invariant (I := fun x => Justified _ x.log) trivial ?_
  rintro z c i ⟨tb, ph, es⟩ hreach hz - hm
  rw [after_log]
  rcases creates_step hreach (server_moves hm) with ⟨-, hes⟩ | ⟨σ, g, ms, -, hnew, -, rfl⟩
  · exact hz.append_of_forall fun e he past d g ms heq => absurd heq (hes e he d g ms)
  · refine ⟨fun d g' ms' heq => ?_, hz⟩
    obtain ⟨rfl, rfl, rfl⟩ := Event.grouped.inj heq
    exact hnew

/-- The names of the table are distinct. -/
theorem group_names_reach (h : (server printable).Reach C x) :
    (Dict.keys x.memory.groups).Nodup := by
  apply h.invariant (I := fun x => (Dict.keys x.memory.groups).Nodup)
  · exact List.nodup_nil
  · rintro z c i ⟨tb, ph, es⟩ - hz - hm
    rw [after_memory]
    rcases (server_moves hm).groups with ⟨hsame, -⟩ | ⟨g, ms, -, hset, -⟩
    · rw [hsame]
      exact hz
    · rw [hset]
      exact Dict.nodup_keys_set hz g ms

/-- The entry of a group, from the history. -/
theorem entry_reach (h : (server printable).Reach C x) {ms : List Str}
    (hg : Dict.get x.memory.groups g = some ms) : GroupEntry x.log g ms := by
  have hone := creations_reach h g
  rw [hg, Option.toList_some] at hone
  obtain ⟨⟨c, ms'⟩, hcreations, hms⟩ := List.map_eq_singleton_iff.mp hone
  obtain rfl : ms' = ms := hms
  have hmem : .grouped c g ms' ∈ x.log := by
    have hin : (c, ms') ∈ creations g x.log := by simp [hcreations]
    obtain ⟨e, he, hsome⟩ := List.mem_filterMap.mp hin
    cases e with
    | grouped d g' ms'' =>
      simp only [Option.ite_none_right_eq_some, Option.some.injEq, Prod.mk.injEq] at hsome
      obtain ⟨rfl, rfl, rfl⟩ := hsome
      exact he
    | _ => cases hsome
  obtain ⟨later, past, hlog⟩ := List.append_of_mem hmem
  have hj := created_reach h
  rw [hlog] at hj
  obtain ⟨σ, o, ms, hlive, -, hrequest, rfl⟩ := (hj.at c g ms' rfl).request
  have hreg : .registered c σ ∈ x.log := by
    rw [hlog]
    exact List.mem_append_right _ (List.mem_cons_of_mem _ hlive.1)
  have hvalid := safe_sortedSet hrequest.valid ((names_reach h).1 c σ hreg)
  have hself : σ.name ∈ sortedSet (ms ++ [σ.name]) :=
    mem_sortedSet.mpr (List.mem_append_right _ (List.mem_singleton_self _))
  exact ⟨hrequest.safe, sortedSet_sorted _, hvalid, c, σ, hcreations, hreg,
    fun σ' hσ' => (sessions_reach h).once c σ' σ hσ' hreg, hself⟩

/-- A step keeps the entries. -/
theorem entry_kept_step {m : Tables × Phase × List Event} {i : Input} {ms : List Str}
    (hm : (server printable).step c z.memory (z.thread c) i = some m)
    (hg : Dict.get z.memory.groups g = some ms) : Dict.get m.1.groups g = some ms := by
  rcases (server_moves hm).groups with ⟨hsame, -⟩ | ⟨g', ms', hfree, hset, -⟩
  · rw [hsame, hg]
  · have hne : g ≠ g' := by
      rintro rfl
      rw [hfree] at hg
      cases hg
    rw [hset, Dict.get_set_ne _ _ hne, hg]

/-- The invariant of the table of groups. -/
structure GroupTable (printable : CodePoint → Bool) (x : Config Conn Tables Phase Event) :
    Prop where
  /-- no name has two entries -/
  names : (Dict.keys x.memory.groups).Nodup
  /-- every entry is well formed and has one creator -/
  entries : ∀ g ms, (g, ms) ∈ x.memory.groups → GroupEntry x.log g ms
  /-- without an entry there was no creation -/
  absent : ∀ g, Dict.get x.memory.groups g = none → creations g x.log = []
  /-- no step changes or removes an entry, and so no run does -/
  kept : ∀ as y, (server printable).Run Any x as y → ∀ g ms,
    Dict.get x.memory.groups g = some ms → Dict.get y.memory.groups g = some ms
  /-- of all requests for a name, the one that is carried out first determines the entry, and
  the others change nothing -/
  decided : ∀ c σ g ms y, x.thread c = .act σ (.create g ms) →
    (server printable).next x (c, .run) = some y →
    (Dict.get x.memory.groups g = none ∧ Dict.get y.memory.groups g = some ms) ∨
      ((Dict.get x.memory.groups g).isSome ∧ y.memory.groups = x.memory.groups)
  /-- a step of a handler changes the table only to carry out the valid request that is the
  last one it read -/
  changed : ∀ c i y, (server printable).next x (c, i) = some y →
    y.memory.groups ≠ x.memory.groups → ∃ σ o g ms, Live x.log c σ ∧
      current x.log c = some o ∧ CreateRequest o g ms ∧
      y.memory.groups = Dict.set x.memory.groups g (sortedSet (ms ++ [σ.name]))

/-- **The table of groups keeps its invariant** in every state reached, whatever the handlers
do and in whatever order. -/
theorem group_table (h : (server printable).Reach Any x) : GroupTable printable x where
  names := group_names_reach h
  entries g ms hg := entry_reach h (Dict.get_of_mem (group_names_reach h) hg)
  absent g hg := by
    have hone := creations_reach h g
    rw [hg] at hone
    exact List.map_eq_nil_iff.mp hone
  kept as y hrun g ms hg := by
    refine hrun.invariant (I := fun y => Dict.get y.memory.groups g = some ms) hg ?_
    rintro z c i m hz - hm
    exact entry_kept_step hm hz
  decided c σ g ms y hc hy := by
    obtain ⟨m, hm, rfl⟩ := next_eq_some hy
    replace hm : handleClient printable c x.memory (x.thread c) .run = some m := hm
    rw [hc, handleClient] at hm
    split_ifs at hm with hexists
    · obtain rfl := Option.some.inj hm
      exact .inr ⟨hexists, rfl⟩
    · obtain rfl := Option.some.inj hm
      exact .inl ⟨Option.not_isSome_iff_eq_none.mp hexists, Dict.get_set_self ..⟩
  changed c i y hy hne := by
    obtain ⟨m, hm, rfl⟩ := next_eq_some hy
    rcases creates_step h (server_moves hm) with ⟨hsame, -⟩ | ⟨σ, g, ms, -, hnew, hset, -⟩
    · exact absurd hsame hne
    · obtain ⟨σ', o, ms', hlive, ho, hrequest, rfl⟩ := hnew.request
      exact ⟨σ', o, g, ms', hlive, ho, hrequest, hset⟩

/-- Alice and Bob ask for the group `team` at the same time, and Bob is first: the table has
his members, and Alice gets an error. -/
theorem group_table_team : ∃ x : Config Conn Tables Phase Event,
    (server fun _ => true).Reach Any x ∧
      x.memory.groups = [(str "team", [str "bob", str "carol"])] ∧
      GroupTable (fun _ => true) x := by
  obtain ⟨x, hx, hp⟩ := exists_reach_of_exec (P := server fun _ => true)
    (join 0 (str "alice") 0 ++ join 1 (str "bob") 1 ++
      [(0, .frame (newGroup [str "dave"]) []), (1, .frame (newGroup [str "carol"]) []),
        (1, .run), (0, .run)])
    (p := fun x => decide (x.memory.groups = [(str "team", [str "bob", str "carol"])]))
    (by decide +kernel)
  exact ⟨x, hx, of_decide_eq_true hp, group_table hx⟩

end GuardedIM
