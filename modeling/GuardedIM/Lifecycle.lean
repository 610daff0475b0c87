import GuardedIM.Daemon
import GuardedIM.Settling

/-!
# The end of the daemon: `errgroup` in `cmd/gdimd`

`gdimd` runs one function for the interface and, as a server, one for the control server, in a
group with one context. A signal cancels the context, and so does the first error. The control
server is shut down by a third goroutine that waits for the context. `main` waits for the group, and
takes down what is still running when it ends.

* `Moves`: everything that can happen, one constructor each.
* `exit_status`: how the daemon ends. As a server it never ends well: `ListenAndServeTLS` always
  returns an error.
* `daemon_stops`: it does end once the context is cancelled, and it waits for no request.
-/

namespace GuardedIM.Gdimd

open Gdim Interleave Interleave.Program

/-- The goroutines, and the system. -/
inductive Routine where
  /-- what sends signals -/
  | system
  /-- `main` -/
  | main
  /-- the function for the interface -/
  | interface
  /-- the function for the control server -/
  | control
  /-- the goroutine that `InitializeControlServ` starts -/
  | shutdown
  /-- a request of the control server -/
  | request (n : ℕ)
  deriving DecidableEq

/-- What a function of the group returns. -/
inductive Fault where
  /-- `InitializeInterface` failed -/
  | interface
  /-- the certificates could not be read -/
  | certificates
  /-- the listener failed -/
  | listener
  /-- `http.ErrServerClosed` -/
  | serverClosed
  deriving DecidableEq

/-- The interface `wg0`. -/
inductive DeviceState where
  /-- not created -/
  | absent
  /-- created -/
  | created
  /-- closed -/
  | closed
  deriving DecidableEq

/-- What the goroutines share. -/
structure Memory where
  /-- `ctx.Done()` is closed -/
  cancelled : Bool
  /-- the first error of the group -/
  err : Option Fault
  /-- the functions of the group that have not returned -/
  running : ℕ
  /-- the interface -/
  device : DeviceState
  /-- the shutdown goroutine has been started -/
  spawned : Bool
  /-- the control server listens -/
  listening : Bool
  /-- `srv.Shutdown` has been called -/
  stopping : Bool
  /-- the status the process has ended with -/
  exit : Option ℕ

/-- Where a goroutine is. -/
inductive Task where
  /-- at its beginning -/
  | start
  /-- `InitializeInterface` has created the device, and sets it up -/
  | configuring
  /-- before `<-ctx.Done()` in the function for the interface -/
  | holding
  /-- before the listening of `srv.ListenAndServeTLS` -/
  | binding
  /-- in the accept loop of `srv.ListenAndServeTLS` -/
  | serving
  /-- in `srv.Shutdown`, which waits for the requests -/
  | draining
  /-- a request is being handled -/
  | handling
  /-- a function of the group has returned -/
  | returning (err : Option Fault)
  /-- through -/
  | ended

/-- What comes from outside during one step. -/
inductive Input where
  /-- SIGINT or SIGTERM -/
  | signal
  /-- whether what was asked for succeeded -/
  | answer (ok : Bool)
  /-- nothing -/
  | run
  deriving DecidableEq

/-- What a step reports. -/
inductive Event where
  /-- a signal came -/
  | signalled
  /-- `InitializeInterface` returned the interface -/
  | up
  /-- something went wrong -/
  | failed (e : Fault)

/-- One step of a goroutine, while the process runs. What the packages do in it is what they
document; each such line says which rule it is. -/
def routine (mode : Mode) (g : Memory) :
    Routine → Task → Input → Option (Memory × Task × List Event)
  -- `signal.NotifyContext`: the context is done when one of the signals arrives
  | .system, .start, .signal => some ({ g with cancelled := true }, .start, [.signalled])
  | .interface, .start, .answer true => some ({ g with device := .created }, .configuring, [])
  | .interface, .configuring, .answer true => some (g, .holding, [.up])
  | .interface, .start, .answer false | .interface, .configuring, .answer false =>
    some (g, .returning (some .interface), [.failed .interface])
  | .interface, .holding, .run =>
    if g.cancelled then some ({ g with device := .closed }, .returning none, []) else none
  | .control, .start, .answer ok =>
    match mode with
    | .client => none
    | .server =>
      if ok then some ({ g with spawned := true }, .binding, [])
      else some (g, .returning (some .certificates), [.failed .certificates])
  | .control, .binding, .answer true => some ({ g with listening := true }, .serving, [])
  | .control, .binding, .answer false =>
    some (g, .returning (some .listener), [.failed .listener])
  -- `http.Server.ListenAndServeTLS`: it always returns an error that is not nil
  | .control, .serving, .answer false =>
    if g.stopping then none
    else some ({ g with listening := false }, .returning (some .listener), [.failed .listener])
  -- after `Shutdown`, the error is `ErrServerClosed`, also for a call that comes later
  | .control, .binding, .run | .control, .serving, .run =>
    if g.stopping then
      some ({ g with listening := false }, .returning (some .serverClosed), [])
    else none
  | .shutdown, .start, .run =>
    if g.spawned && g.cancelled then some ({ g with stopping := true }, .draining, []) else none
  -- `http.Server.Shutdown`: it waits for the requests, but not longer than its context lasts
  | .shutdown, .draining, .run => some (g, .ended, [])
  | .request _, .start, .run =>
    if g.listening && !g.stopping then some (g, .handling, []) else none
  | .request _, .handling, .run => some (g, .ended, [])
  -- `errgroup.WithContext`: the first error that a function returns cancels the context, and it is
  -- the one that `Wait` returns
  | .interface, .returning (some e), .run | .control, .returning (some e), .run =>
    some ({ g with err := g.err.or (some e), cancelled := true }, .returning none, [])
  | .interface, .returning none, .run | .control, .returning none, .run =>
    some ({ g with running := g.running - 1 }, .ended, [])
  -- `Group.Wait`: it blocks until all functions have returned; when `main` is through, the process
  -- ends and waits for no other goroutine
  | .main, .start, .run =>
    if g.running = 0 then
      some ({ g with exit := some (if g.err.isSome then 1 else 0) }, .ended, [])
    else none
  | _, _, _ => none

/-- The functions in the group. -/
def functions : Mode → ℕ
  | .server => 2
  | .client => 1

/-- The daemon. Nothing moves any more once the process has ended. -/
def daemon (mode : Mode) : Program Routine Memory Task Input Event where
  memory := ⟨false, none, functions mode, .absent, false, false, false, none⟩
  start := .start
  step := fun r g l i => if g.exit.isSome then none else routine mode g r l i

/-- Every step of the daemon, one constructor each. -/
inductive Moves (mode : Mode) (g : Memory) :
    Routine → Task → Memory → Task → List Event → Prop where
  | signal : Moves mode g .system .start { g with cancelled := true } .start [.signalled]
  | create : Moves mode g .interface .start { g with device := .created } .configuring []
  | setUp : Moves mode g .interface .configuring g .holding [.up]
  | notCreated :
    Moves mode g .interface .start g (.returning (some .interface)) [.failed .interface]
  | notSetUp :
    Moves mode g .interface .configuring g (.returning (some .interface)) [.failed .interface]
  | close : g.cancelled = true →
    Moves mode g .interface .holding { g with device := .closed } (.returning none) []
  | spawn : mode = .server → Moves mode g .control .start { g with spawned := true } .binding []
  | noCertificates : mode = .server →
    Moves mode g .control .start g (.returning (some .certificates)) [.failed .certificates]
  | listen : Moves mode g .control .binding { g with listening := true } .serving []
  | notBound : Moves mode g .control .binding g (.returning (some .listener)) [.failed .listener]
  | notAccepted : Moves mode g .control .serving { g with listening := false }
    (.returning (some .listener)) [.failed .listener]
  | serverClosed (l : Task) : l = .binding ∨ l = .serving → g.stopping = true →
    Moves mode g .control l { g with listening := false } (.returning (some .serverClosed)) []
  | stop : g.spawned = true → g.cancelled = true →
    Moves mode g .shutdown .start { g with stopping := true } .draining []
  | drained : Moves mode g .shutdown .draining g .ended []
  | accept (n : ℕ) : Moves mode g (.request n) .start g .handling []
  | handled (n : ℕ) : Moves mode g (.request n) .handling g .ended []
  | record (r : Routine) (e : Fault) : r = .interface ∨ r = .control →
    Moves mode g r (.returning (some e))
      { g with err := g.err.or (some e), cancelled := true } (.returning none) []
  | done (r : Routine) : r = .interface ∨ r = .control →
    Moves mode g r (.returning none) { g with running := g.running - 1 } .ended []
  | exit : g.running = 0 →
    Moves mode g .main .start { g with exit := some (if g.err.isSome then 1 else 0) } .ended []

/-- **The inversion lemma.** -/
theorem daemon_moves {mode : Mode} {g : Memory} {r : Routine} {l : Task} {i : Input}
    {m : Memory × Task × List Event} (h : (daemon mode).step r g l i = some m) :
    g.exit = none ∧ Moves mode g r l m.1 m.2.1 m.2.2 := by
  simp only [daemon] at h
  split_ifs at h with hexit
  refine ⟨Option.not_isSome_iff_eq_none.mp hexit, ?_⟩
  unfold routine at h
  split at h
  case h_6 =>
    split_ifs at h with hcancelled
    obtain rfl := Option.some.inj h
    exact .close hcancelled
  case h_7 ok =>
    split at h
    · cases h
    · split_ifs at h
      · obtain rfl := Option.some.inj h
        exact .spawn rfl
      · obtain rfl := Option.some.inj h
        exact .noCertificates rfl
  case h_10 =>
    split_ifs at h
    obtain rfl := Option.some.inj h
    exact .notAccepted
  case h_11 =>
    split_ifs at h with hstopping
    obtain rfl := Option.some.inj h
    exact .serverClosed _ (.inl rfl) hstopping
  case h_12 =>
    split_ifs at h with hstopping
    obtain rfl := Option.some.inj h
    exact .serverClosed _ (.inr rfl) hstopping
  case h_13 =>
    split_ifs at h with hwoken
    obtain rfl := Option.some.inj h
    obtain ⟨hspawned, hcancelled⟩ := Bool.and_eq_true_iff.mp hwoken
    exact .stop hspawned hcancelled
  case h_15 n =>
    split_ifs at h
    obtain rfl := Option.some.inj h
    exact .accept n
  case h_17 e =>
    obtain rfl := Option.some.inj h
    exact .record _ e (.inl rfl)
  case h_18 e =>
    obtain rfl := Option.some.inj h
    exact .record _ e (.inr rfl)
  case h_19 =>
    obtain rfl := Option.some.inj h
    exact .done _ (.inl rfl)
  case h_20 =>
    obtain rfl := Option.some.inj h
    exact .done _ (.inr rfl)
  case h_21 =>
    by_cases hrunning : g.running = 0
    · rw [if_pos hrunning] at h
      obtain rfl := Option.some.inj h
      exact .exit hrunning
    · rw [if_neg hrunning] at h
      cases h
  case h_22 => cases h
  all_goals
    -- one step without a branch
    obtain rfl := Option.some.inj h
    constructor

/-! ## What has happened -/

/-- Something went wrong. -/
def Failed (log : List Event) : Prop := ∃ e, .failed e ∈ log

/-- There is a reason for the daemon to end. -/
def Cause (log : List Event) : Prop := .signalled ∈ log ∨ Failed log

/-- How the function for the interface returned: it closed the device, or it failed. -/
def Returned (g : Memory) (log : List Event) : Prop :=
  (g.device = .closed ∧ Cause log) ∨ (.up ∉ log ∧ Failed log ∧ g.err.isSome = true)

/-- What the position of the function for the interface says. -/
def AtInterface (g : Memory) (log : List Event) : Task → Prop
  | .start | .configuring => .up ∉ log
  | .holding => True
  | .returning (some e) => .up ∉ log ∧ .failed e ∈ log
  | .returning none | .ended => Returned g log
  | _ => False

/-- What the position of the function for the control server says. -/
def AtControl (mode : Mode) (g : Memory) (log : List Event) : Task → Prop
  | .start => True
  | .binding | .serving => mode = .server
  | .returning (some e) => mode = .server ∧ Cause log ∧ (e = .serverClosed ∨ .failed e ∈ log)
  | .returning none | .ended => mode = .server ∧ g.err.isSome = true
  | _ => False

/-- One function of the group, if it has not returned. -/
def Task.open : Task → ℕ
  | .ended => 0
  | _ => 1

/-- A function of the group has returned an error. -/
def Task.reports : Task → Prop
  | .returning (some _) => True
  | _ => False

/-- The functions of the group that have not returned. -/
def remaining : Mode → Task → Task → ℕ
  | .server, a, b => a.open + b.open
  | .client, a, _ => a.open

/-- The invariant: `a` and `b` are the positions of the two functions of the group. -/
structure Consistent (mode : Mode) (g : Memory) (a b : Task) (log : List Event) : Prop where
  /-- of the interface -/
  interface : AtInterface g log a
  /-- of the control server -/
  control : AtControl mode g log b
  /-- the counter of the group -/
  running : g.running = remaining mode a b
  /-- nothing is shut down without a reason -/
  cause : g.cancelled = true ∨ g.stopping = true → Cause log
  /-- the error of the group is that of one of its functions -/
  err : ∀ e, g.err = some e → (mode = .server ∧ e = .serverClosed) ∨ .failed e ∈ log
  /-- what goes wrong is reported to the group -/
  noticed : Failed log → g.err.isSome = true ∨ a.reports ∨ b.reports
  /-- the status -/
  exit : ∀ code, g.exit = some code → g.running = 0 ∧ code = if g.err.isSome then 1 else 0

variable {mode : Mode} {g g' : Memory} {r : Routine} {l l' a b u v : Task} {es log : List Event}

theorem Failed.append (h : Failed log) (es : List Event) : Failed (es ++ log) := by
  obtain ⟨e, he⟩ := h
  exact ⟨e, List.mem_append_right _ he⟩

theorem Cause.append (h : Cause log) (es : List Event) : Cause (es ++ log) :=
  h.imp (List.mem_append_right _) (·.append es)

/-- The steps of others. -/
theorem AtInterface.append (h : AtInterface g log a) (hdevice : g'.device = g.device)
    (herr : g.err.isSome = true → g'.err.isSome = true) (hes : .up ∉ es) :
    AtInterface g' (es ++ log) a := by
  have hup : .up ∉ log → .up ∉ es ++ log := fun h hmem => (List.mem_append.mp hmem).elim hes h
  have hreturned : Returned g log → Returned g' (es ++ log) := by
    rintro (⟨hclosed, hcause⟩ | ⟨hnot, hfailed, hsome⟩)
    · exact .inl ⟨hdevice.trans hclosed, hcause.append es⟩
    · exact .inr ⟨hup hnot, hfailed.append es, herr hsome⟩
  cases a with
  | start | configuring => exact hup h
  | holding => trivial
  | returning e =>
    cases e with
    | some e => exact ⟨hup h.1, List.mem_append_right _ h.2⟩
    | none => exact hreturned h
  | ended => exact hreturned h
  | _ => exact h

theorem AtControl.append (h : AtControl mode g log b)
    (herr : g.err.isSome = true → g'.err.isSome = true) (es : List Event) :
    AtControl mode g' (es ++ log) b := by
  cases b with
  | returning e =>
    cases e with
    | some e => exact ⟨h.1, h.2.1.append es, h.2.2.imp_right (List.mem_append_right _)⟩
    | none => exact h.imp_right herr
  | ended => exact h.imp_right herr
  | _ => exact h

/-- A step that ends no function of the group. -/
theorem Consistent.move (h : Consistent mode g a b log) (ha : AtInterface g' (es ++ log) u)
    (hb : AtControl mode g' (es ++ log) v) (hopen : u.open = a.open ∧ v.open = b.open)
    (hgroup : g'.running = g.running ∧ g'.err = g.err ∧ g'.exit = g.exit)
    (hcause : g'.cancelled = true ∨ g'.stopping = true → Cause (es ++ log))
    (hnoticed : (¬ Failed es ∧ (a.reports → u.reports) ∧ (b.reports → v.reports)) ∨
      u.reports ∨ v.reports) : Consistent mode g' u v (es ++ log) := by
  obtain ⟨hrunning, herr, hexit⟩ := hgroup
  refine ⟨ha, hb, ?_, hcause, fun e he => ?_, fun hfailed => ?_, fun code hcode => ?_⟩
  · rw [hrunning, h.running]
    cases mode <;> simp [remaining, hopen]
  · exact (h.err e (herr ▸ he)).imp_right (List.mem_append_right _)
  · rcases hnoticed with ⟨hnew, ha, hb⟩ | hreports
    · obtain ⟨e, he⟩ := hfailed
      rw [herr]
      exact (h.noticed ⟨e, (List.mem_append.mp he).resolve_left fun he => hnew ⟨e, he⟩⟩).imp_right
        (Or.imp ha hb)
    · exact .inr hreports
  · rw [hrunning, herr]
    exact h.exit code (hexit ▸ hcode)

/-- **What a step does to the two positions.** -/
theorem Moves.consistent (h : Moves mode g r l g' l' es) (hc : Consistent mode g a b log)
    (ha : r = .interface → l = a) (hb : r = .control → l = b) (hexit : g.exit = none) :
    Consistent mode g' (if r = .interface then l' else a) (if r = .control then l' else b)
      (es ++ log) := by
  have hkept : ∀ {g'' : Memory}, g''.cancelled = g.cancelled → g''.stopping = g.stopping →
      g''.cancelled = true ∨ g''.stopping = true → Cause (es ++ log) := by
    intro g'' h₁ h₂ h
    rw [h₁, h₂] at h
    exact (hc.cause h).append es
  have hsilent : ¬ Failed [] := by
    rintro ⟨e, he⟩
    exact List.not_mem_nil he
  cases h with
  | signal =>
    exact hc.move (hc.interface.append rfl id (by simp)) (hc.control.append id _) ⟨rfl, rfl⟩
      ⟨rfl, rfl, rfl⟩ (fun _ => .inl (List.mem_cons_self ..)) (.inl ⟨by simp [Failed], id, id⟩)
  | create =>
    obtain rfl := ha rfl
    exact hc.move (u := .configuring) hc.interface (hc.control.append id _) ⟨rfl, rfl⟩
      ⟨rfl, rfl, rfl⟩ (hkept rfl rfl) (.inl ⟨hsilent, id, id⟩)
  | setUp =>
    obtain rfl := ha rfl
    exact hc.move (u := .holding) trivial (hc.control.append id _) ⟨rfl, rfl⟩ ⟨rfl, rfl, rfl⟩
      (hkept rfl rfl) (.inl ⟨by simp [Failed], id, id⟩)
  | notCreated | notSetUp =>
    obtain rfl := ha rfl
    have hnot : .up ∉ log := hc.interface
    exact hc.move (u := .returning (some .interface)) ⟨by simpa using hnot, List.mem_cons_self ..⟩
      (hc.control.append id _) ⟨rfl, rfl⟩ ⟨rfl, rfl, rfl⟩ (hkept rfl rfl) (.inr (.inl trivial))
  | close hcancelled =>
    obtain rfl := ha rfl
    exact hc.move (u := .returning none) (.inl ⟨rfl, hc.cause (.inl hcancelled)⟩)
      (hc.control.append id _) ⟨rfl, rfl⟩ ⟨rfl, rfl, rfl⟩ (hkept rfl rfl)
      (.inl ⟨hsilent, id, id⟩)
  | spawn hmode =>
    obtain rfl := hb rfl
    exact hc.move (v := .binding) (hc.interface.append rfl id (by simp)) hmode ⟨rfl, rfl⟩
      ⟨rfl, rfl, rfl⟩ (hkept rfl rfl) (.inl ⟨hsilent, id, id⟩)
  | noCertificates hmode =>
    obtain rfl := hb rfl
    exact hc.move (v := .returning (some .certificates)) (hc.interface.append rfl id (by simp))
      ⟨hmode, .inr ⟨_, List.mem_cons_self ..⟩, .inr (List.mem_cons_self ..)⟩ ⟨rfl, rfl⟩
      ⟨rfl, rfl, rfl⟩ (hkept rfl rfl) (.inr (.inr trivial))
  | listen =>
    obtain rfl := hb rfl
    exact hc.move (v := .serving) (hc.interface.append rfl id (by simp)) hc.control ⟨rfl, rfl⟩
      ⟨rfl, rfl, rfl⟩ (hkept rfl rfl) (.inl ⟨hsilent, id, id⟩)
  | notBound | notAccepted =>
    obtain rfl := hb rfl
    exact hc.move (v := .returning (some .listener)) (hc.interface.append rfl id (by simp))
      ⟨hc.control, .inr ⟨_, List.mem_cons_self ..⟩, .inr (List.mem_cons_self ..)⟩ ⟨rfl, rfl⟩
      ⟨rfl, rfl, rfl⟩ (hkept rfl rfl) (.inr (.inr trivial))
  | serverClosed l hl hstopping =>
    obtain rfl := hb rfl
    have hmode : mode = .server ∧ l.open = 1 := by
      rcases hl with rfl | rfl
      · exact ⟨hc.control, rfl⟩
      · exact ⟨hc.control, rfl⟩
    exact hc.move (v := .returning (some .serverClosed)) (hc.interface.append rfl id (by simp))
      ⟨hmode.1, hc.cause (.inr hstopping), .inl rfl⟩ ⟨rfl, hmode.2.symm⟩ ⟨rfl, rfl, rfl⟩
      (hkept rfl rfl) (.inr (.inr trivial))
  | stop hspawned hcancelled =>
    exact hc.move (hc.interface.append rfl id (by simp)) (hc.control.append id _) ⟨rfl, rfl⟩
      ⟨rfl, rfl, rfl⟩ (fun _ => hc.cause (.inl hcancelled)) (.inl ⟨hsilent, id, id⟩)
  | drained | accept | handled =>
    exact hc.move (hc.interface.append rfl id (by simp)) (hc.control.append id _) ⟨rfl, rfl⟩
      ⟨rfl, rfl, rfl⟩ (hkept rfl rfl) (.inl ⟨hsilent, id, id⟩)
  | record r e hr =>
    have hfirst : ∀ {e'}, g.err.or (some e) = some e' → g.err = some e' ∨ e' = e := by
      intro e' he'
      rcases herr : g.err with _ | e₀
      · rw [herr, Option.none_or] at he'
        exact .inr (Option.some.inj he').symm
      · rw [herr, Option.some_or] at he'
        exact .inl he'
    have hsome : (g.err.or (some e)).isSome = true := by simp
    have hcode : ∀ code, g.exit = some code → g.running = 0 ∧
        code = if (g.err.or (some e)).isSome then 1 else 0 := by
      intro code hcode
      rw [hexit] at hcode
      cases hcode
    rcases hr with rfl | rfl
    · obtain rfl := ha rfl
      obtain ⟨hnot, hfailed⟩ : Event.up ∉ log ∧ Event.failed e ∈ log := hc.interface
      have hrunning : g.running = remaining mode (.returning none) b :=
        hc.running.trans (by cases mode <;> rfl)
      refine ⟨.inr ⟨hnot, ⟨e, hfailed⟩, hsome⟩, hc.control.append (fun _ => hsome) [], hrunning,
        fun _ => .inr ⟨e, hfailed⟩, fun e' he' => ?_, fun _ => .inl hsome, hcode⟩
      rcases hfirst he' with he' | rfl
      · exact hc.err e' he'
      · exact .inr hfailed
    · obtain rfl := hb rfl
      obtain ⟨hmode, hcause, he⟩ : mode = .server ∧ Cause log ∧
        (e = .serverClosed ∨ Event.failed e ∈ log) := hc.control
      have hrunning : g.running = remaining mode a (.returning none) :=
        hc.running.trans (by cases mode <;> rfl)
      refine ⟨hc.interface.append rfl (fun _ => hsome) List.not_mem_nil, ⟨hmode, hsome⟩, hrunning,
        fun _ => hcause, fun e' he' => ?_, fun _ => .inl hsome, hcode⟩
      rcases hfirst he' with he' | rfl
      · exact hc.err e' he'
      · exact he.imp_left fun he => ⟨hmode, he⟩
  | done r hr =>
    have hcode : ∀ code, g.exit = some code → g.running - 1 = 0 ∧
        code = if g.err.isSome then 1 else 0 := by
      intro code hcode
      rw [hexit] at hcode
      cases hcode
    rcases hr with rfl | rfl
    · obtain rfl := ha rfl
      refine ⟨hc.interface, hc.control.append id [], ?_, hc.cause, hc.err, hc.noticed, hcode⟩
      change g.running - 1 = remaining mode .ended b
      rw [hc.running]
      cases mode <;> simp [remaining, Task.open]
    · obtain rfl := hb rfl
      refine ⟨hc.interface.append rfl id List.not_mem_nil, hc.control, ?_, hc.cause, hc.err,
        hc.noticed, hcode⟩
      obtain ⟨rfl, -⟩ : mode = .server ∧ g.err.isSome = true := hc.control
      change g.running - 1 = remaining .server a .ended
      rw [hc.running]
      simp [remaining, Task.open]
  | exit hrunning =>
    refine ⟨hc.interface.append rfl id List.not_mem_nil, hc.control.append id [], hc.running,
      hc.cause, hc.err, hc.noticed, fun code hcode => ⟨hrunning, (Option.some.inj hcode).symm⟩⟩

variable {x y z : Interleave.Config Routine Memory Task Event}

theorem consistent_reach {C : Interleave.Config Routine Memory Task Event → Routine × Input → Prop}
    (h : (daemon mode).Reach C x) :
    Consistent mode x.memory (x.thread .interface) (x.thread .control) x.log := by
  refine h.invariant (I := fun x => Consistent mode x.memory (x.thread .interface)
    (x.thread .control) x.log) ?_ ?_
  · refine ⟨List.not_mem_nil, trivial, by cases mode <;> rfl, ?_, ?_, ?_, ?_⟩
    · rintro (h | h)
      · cases h
      · cases h
    · rintro e ⟨⟩
    · rintro ⟨e, he⟩
      exact absurd he List.not_mem_nil
    · rintro code ⟨⟩
  · rintro z r i ⟨g, l, es⟩ - hz - hm
    obtain ⟨hexit, hmoves⟩ := daemon_moves hm
    have hstep := hmoves.consistent hz (fun hr => by rw [hr]) (fun hr => by rw [hr]) hexit
    have hthread : ∀ q, (after z r (g, l, es)).thread q = if r = q then l else z.thread q := by
      intro q
      split_ifs with hq
      · rw [← hq, after_thread_self]
      · rw [after_thread_ne _ _ (Ne.symm hq)]
    rw [after_memory, after_log, hthread, hthread]
    exact hstep

theorem Task.open_eq_zero (h : l.open = 0) : l = .ended := by
  cases l with
  | ended => rfl
  | _ => cases h

/-- **How the daemon ends.** A daemon that ends has closed its interface, if it ever had one that
was up. A client reports whether something went wrong. A server always reports an error, also when a
signal has ended it and nothing went wrong. -/
theorem exit_status (h : (daemon mode).Reach Any x) {code : ℕ} (hexit : x.memory.exit = some code) :
    (.up ∈ x.log → x.memory.device = .closed) ∧
      (mode = .client → (code = 0 ∧ .signalled ∈ x.log ∧ ¬ Failed x.log) ∨
        (code = 1 ∧ Failed x.log)) ∧
      (mode = .server → code = 1 ∧
        (¬ Failed x.log → .signalled ∈ x.log ∧ x.memory.err = some .serverClosed)) := by
  have hc := consistent_reach h
  obtain ⟨hzero, rfl⟩ := hc.exit code hexit
  have hremaining := hc.running.symm.trans hzero
  have hinterface : x.thread .interface = .ended := by
    refine Task.open_eq_zero ?_
    cases mode with
    | server => exact (Nat.add_eq_zero_iff.mp hremaining).1
    | client => exact hremaining
  have hreturned : Returned x.memory x.log := by
    have hat := hc.interface
    rwa [hinterface] at hat
  have herr : ∀ e, x.memory.err = some e → x.memory.err.isSome = true :=
    fun e he => Option.isSome_iff_exists.mpr ⟨e, he⟩
  refine ⟨fun hup => ?_, ?_, ?_⟩
  · rcases hreturned with ⟨hclosed, -⟩ | ⟨hnot, -⟩
    · exact hclosed
    · exact absurd hup hnot
  · rintro rfl
    rcases hsome : x.memory.err with _ | e
    · have hsilent : ¬ Failed x.log := by
        intro hfailed
        rcases hc.noticed hfailed with hreport | hreport | hreport
        · rw [hsome] at hreport
          cases hreport
        · rw [hinterface] at hreport
          exact hreport
        · have hat := hc.control
          generalize x.thread .control = b at hat hreport
          unfold Task.reports at hreport
          split at hreport
          · cases hat.1
          · exact hreport
      rcases hreturned with ⟨-, hcause⟩ | ⟨-, hfailed, -⟩
      · exact .inl ⟨rfl, hcause.resolve_right hsilent, hsilent⟩
      · exact absurd hfailed hsilent
    · rcases hc.err e hsome with ⟨hmode, -⟩ | hfailed
      · cases hmode
      · exact .inr ⟨rfl, e, hfailed⟩
  · rintro rfl
    have hcontrol : x.thread .control = .ended :=
      Task.open_eq_zero (Nat.add_eq_zero_iff.mp hremaining).2
    have hat := hc.control
    rw [hcontrol] at hat
    refine ⟨if_pos hat.2, fun hsilent => ?_⟩
    obtain ⟨e, he⟩ := Option.isSome_iff_exists.mp hat.2
    rcases hreturned with ⟨-, hcause⟩ | ⟨-, hfailed, -⟩
    · refine ⟨hcause.resolve_right hsilent, ?_⟩
      rcases hc.err e he with ⟨-, rfl⟩ | hfailed
      · exact he
      · exact absurd ⟨e, hfailed⟩ hsilent
    · exact absurd hfailed hsilent

/-- A server that is told to stop while it serves, and has ended. -/
def stopsServer : List (Routine × Input) :=
  [(.interface, .answer true), (.interface, .answer true), (.control, .answer true),
    (.control, .answer true), (.request 0, .run), (.system, .signal), (.interface, .run),
    (.interface, .run), (.shutdown, .run), (.control, .run), (.control, .run), (.control, .run),
    (.main, .run)]

/-- The process has ended with an error, and nothing went wrong. -/
def endsBadly (x : Interleave.Config Routine Memory Task Event) : Bool :=
  decide (x.memory.exit = some 1) && x.log.all fun
    | .failed _ => false
    | _ => true

/-- A server that works well is stopped. -/
theorem exit_status_signal : ∃ x : Interleave.Config Routine Memory Task Event,
    x.memory.exit = some 1 ∧ ¬ Failed x.log ∧ .signalled ∈ x.log ∧
      x.memory.err = some .serverClosed := by
  obtain ⟨x, hx, hp⟩ := exists_reach_of_exec (P := daemon .server) stopsServer (p := endsBadly)
    (by decide +kernel)
  obtain ⟨hexit, hlog⟩ := Bool.and_eq_true_iff.mp hp
  have hexit' := of_decide_eq_true hexit
  have hsilent : ¬ Failed x.log := by
    rintro ⟨e, he⟩
    cases List.all_eq_true.mp hlog _ he
  exact ⟨x, hexit', hsilent, ((exit_status hx hexit').2.2 rfl).2 hsilent⟩

/-! ## That it ends -/

/-- The steps a goroutine has left, at most. -/
def Task.rank : Task → ℕ
  | .ended => 0
  | .returning none | .handling | .draining => 1
  | .returning (some _) => 2
  | .holding | .serving => 3
  | .configuring | .binding => 4
  | .start => 5

/-- No signal, and no new request. -/
def Winding (x : Interleave.Config Routine Memory Task Event) (a : Routine × Input) : Prop :=
  a.2 ≠ .signal ∧ ∀ n, a.1 = .request n → x.thread a.1 ≠ .start

/-- A step of `gdimd` itself, in which nothing goes wrong. -/
def Own (_ : Interleave.Config Routine Memory Task Event) (a : Routine × Input) : Prop :=
  (a.2 = .run ∨ a.2 = .answer true) ∧
    (a.1 = .main ∨ a.1 = .interface ∨ a.1 = .control ∨ a.1 = .shutdown)

theorem Own.winding {a : Routine × Input} (h : Own x a) : Winding x a := by
  obtain ⟨hinput, hroutine⟩ := h
  refine ⟨?_, fun n hn => ?_⟩
  · intro hsignal
    rw [hsignal] at hinput
    rcases hinput with h | h <;> cases h
  · rw [hn] at hroutine
    rcases hroutine with h | h | h | h <;> cases h

theorem Moves.rank_lt (h : Moves mode g r l g' l' es) (hr : r ≠ .system) : l'.rank < l.rank := by
  cases h with
  | signal => exact absurd rfl hr
  | serverClosed l hl =>
    rcases hl with rfl | rfl
    · decide
    · decide
  | _ =>
    simp only [Task.rank]
    omega

/-- What the position of a goroutine says about the memory. -/
def At (g : Memory) : Routine → Task → Prop
  | .main, l => l = .start ∨ g.exit.isSome = true
  | .shutdown, l => l = .start ∨ g.stopping = true
  | .control, l => l = .binding ∨ l = .serving → g.spawned = true
  | _, _ => True

/-- What is never taken back. -/
structure Later (g g' : Memory) : Prop where
  cancelled : g.cancelled = true → g'.cancelled = true
  spawned : g.spawned = true → g'.spawned = true
  stopping : g.stopping = true → g'.stopping = true
  exit : g.exit.isSome = true → g'.exit.isSome = true

theorem Moves.later (h : Moves mode g r l g' l' es) : Later g g' := by
  cases h with
  | signal | record => exact ⟨fun _ => rfl, id, id, id⟩
  | spawn => exact ⟨id, fun _ => rfl, id, id⟩
  | stop => exact ⟨id, id, fun _ => rfl, id⟩
  | exit => exact ⟨id, id, id, fun _ => rfl⟩
  | _ => exact ⟨id, id, id, id⟩

theorem At.later (h : At g r l) (hlater : Later g g') : At g' r l := by
  cases r with
  | main => exact h.imp_right hlater.exit
  | shutdown => exact h.imp_right hlater.stopping
  | control => exact fun hl => hlater.spawned (h hl)
  | _ => trivial

theorem Moves.at (h : Moves mode g r l g' l' es) (hl : At g r l) : At g' r l' := by
  cases h with
  | exit => exact .inr rfl
  | stop => exact .inr rfl
  | drained =>
    rcases hl with ⟨⟨⟩⟩ | hstopping
    exact .inr hstopping
  | spawn => exact fun _ => rfl
  | listen => exact fun _ => hl (.inl rfl)
  | serverClosed | noCertificates | notBound | notAccepted => rintro (⟨⟨⟩⟩ | ⟨⟨⟩⟩)
  | record r _ hr | done r hr =>
    rcases hr with rfl | rfl
    · trivial
    · rintro (⟨⟨⟩⟩ | ⟨⟨⟩⟩)
  | _ => trivial

/-- What holds while the daemon winds up. -/
structure WindsUp (mode : Mode) (S : Finset Routine)
    (x : Interleave.Config Routine Memory Task Event) : Prop where
  /-- a run leads here -/
  reach : (daemon mode).Reach Any x
  /-- where the goroutines are -/
  positions : ∀ r, At x.memory r (x.thread r)
  /-- no others have begun -/
  others : ∀ r, r ∉ S → x.thread r = .start
  /-- the context is cancelled -/
  cancelled : x.memory.cancelled = true

theorem at_reach {C : Interleave.Config Routine Memory Task Event → Routine × Input → Prop}
    (h : (daemon mode).Reach C x) : ∀ r, At x.memory r (x.thread r) := by
  refine h.invariant (I := fun x => ∀ r, At x.memory r (x.thread r)) ?_ ?_
  · intro r
    cases r with
    | main | shutdown => exact .inl rfl
    | control => rintro (⟨⟨⟩⟩ | ⟨⟨⟩⟩)
    | _ => trivial
  · rintro z r i ⟨g, l, es⟩ - hz - hm q
    have hmoves := (daemon_moves hm).2
    by_cases hq : q = r
    · subst hq
      rw [after_thread_self]
      exact hmoves.at (hz q)
    · rw [after_thread_ne _ _ hq]
      exact (hz q).later hmoves.later

/-- The goroutines that run in every daemon. -/
def ownRoutines : Finset Routine := [Routine.main, .interface, .control, .shutdown].toFinset

theorem WindsUp.step {S : Finset Routine} {i : Input} {m : Memory × Task × List Event}
    (h : WindsUp mode S z) (hS : ownRoutines ⊆ S) (ha : Winding z (r, i))
    (hm : (daemon mode).step r z.memory (z.thread r) i = some m) :
    WindsUp mode S (after z r m) ∧ r ∈ S ∧ m.2.1.rank < (z.thread r).rank := by
  have hmoves := (daemon_moves hm).2
  have hsystem : r ≠ .system := by
    rintro rfl
    generalize z.thread .system = l at hm
    simp only [daemon] at hm
    split_ifs at hm
    unfold routine at hm
    cases l <;> cases i <;> first | exact ha.1 rfl | cases hm
  have hr : r ∈ S := by
    by_contra hr
    have hstart := h.others r hr
    cases r with
    | system => exact hsystem rfl
    | request n => exact ha.2 n rfl hstart
    | _ => exact hr (hS (by simp [ownRoutines]))
  have hreach : (daemon mode).Reach Any (after z r m) :=
    h.reach.step (a := (r, i)) trivial (by rw [Program.next, hm, Option.map_some])
  refine ⟨⟨hreach, at_reach hreach, fun q hq => ?_, hmoves.later.cancelled h.cancelled⟩, hr,
    hmoves.rank_lt hsystem⟩
  rw [after_thread_ne _ _ fun hqr : q = r => hq (hqr ▸ hr)]
  exact h.others q hq

/-- The control server goes on, or waits for the shutdown, which goes on. -/
theorem WindsUp.progress_control {S : Finset Routine} (h : WindsUp .server S z)
    (hc : Consistent .server z.memory (z.thread .interface) (z.thread .control) z.log)
    (hnext : ∀ {r i}, (routine .server z.memory r (z.thread r) i).isSome = true →
      ((daemon .server).next z (r, i)).isSome = true)
    (hend : z.thread .control = .ended →
      ∃ a, Own z a ∧ ((daemon .server).next z a).isSome = true) :
    ∃ a, Own z a ∧ ((daemon .server).next z a).isSome = true := by
  have hcontrol := hc.control
  have hspawned := h.positions .control
  have hwait : z.thread .control = .binding ∨ z.thread .control = .serving →
      ∃ a, Own z a ∧ ((daemon .server).next z a).isSome = true := by
    intro hb
    rcases h.positions .shutdown with hshutdown | hstopping
    · refine ⟨(.shutdown, .run), ⟨.inl rfl, .inr (.inr (.inr rfl))⟩, hnext ?_⟩
      rw [hshutdown]
      simp only [routine, hspawned hb, h.cancelled, Bool.and_self, if_true, Option.isSome_some]
    · refine ⟨(.control, .run), ⟨.inl rfl, .inr (.inr (.inl rfl))⟩, hnext ?_⟩
      rcases hb with hb | hb <;>
        (rw [hb]; simp only [routine, hstopping, if_true, Option.isSome_some])
  rcases hb : z.thread .control with _ | _ | _ | _ | _ | _ | _ | ⟨_ | e⟩ | _
  case start =>
    exact ⟨(.control, .answer true), ⟨.inr rfl, .inr (.inr (.inl rfl))⟩, hnext (by rw [hb]; rfl)⟩
  case binding => exact hwait (.inl hb)
  case serving => exact hwait (.inr hb)
  case returning.none | returning.some =>
    exact ⟨(.control, .run), ⟨.inl rfl, .inr (.inr (.inl rfl))⟩, hnext (by rw [hb]; rfl)⟩
  case ended => exact hend hb
  all_goals
    rw [hb] at hcontrol
    exact hcontrol.elim

/-- Short of the end there is a step that `gdimd` can take by itself. -/
theorem WindsUp.progress {S : Finset Routine} (h : WindsUp mode S z)
    (hexit : ¬ ∃ code, z.memory.exit = some code) :
    ∃ a, Own z a ∧ ((daemon mode).next z a).isSome = true := by
  have hrunning : z.memory.exit.isSome = false := by
    rw [← Bool.not_eq_true, Option.isSome_iff_exists]
    exact hexit
  have hnext : ∀ {r i}, (routine mode z.memory r (z.thread r) i).isSome = true →
      ((daemon mode).next z (r, i)).isSome = true := by
    intro r i hi
    rw [Program.next, Option.isSome_map]
    simpa only [daemon, hrunning, Bool.false_eq_true, if_false] using hi
  have hc := consistent_reach h.reach
  have hmain : z.thread .main = .start := (h.positions .main).resolve_right (by simp [hrunning])
  have hend : z.memory.running = 0 → ∃ a, Own z a ∧ ((daemon mode).next z a).isSome = true := by
    intro hzero
    refine ⟨(.main, .run), ⟨.inl rfl, .inl rfl⟩, hnext ?_⟩
    rw [hmain]
    simp only [routine, hzero, if_true, Option.isSome_some]
  have hinterface := hc.interface
  have hremaining := hc.running
  rcases ha : z.thread .interface with _ | _ | _ | _ | _ | _ | _ | ⟨_ | e⟩ | _
  all_goals rw [ha] at hinterface
  case start | configuring =>
    exact ⟨(.interface, .answer true), ⟨.inr rfl, .inr (.inl rfl)⟩, hnext (by rw [ha]; rfl)⟩
  case holding =>
    refine ⟨(.interface, .run), ⟨.inl rfl, .inr (.inl rfl)⟩, hnext ?_⟩
    rw [ha]
    simp only [routine, h.cancelled, if_true, Option.isSome_some]
  case returning.none | returning.some =>
    exact ⟨(.interface, .run), ⟨.inl rfl, .inr (.inl rfl)⟩, hnext (by rw [ha]; rfl)⟩
  case ended =>
    cases mode with
    | client => exact hend (by rw [hremaining, ha]; rfl)
    | server => exact h.progress_control hc hnext fun hb => hend (by rw [hremaining, ha, hb]; rfl)
  all_goals exact hinterface.elim

/-- **The daemon ends once its context is cancelled**, after a number of steps that is known
beforehand, however they are scheduled; it gets there by itself, and with the requests that are
being handled where they are. -/
theorem daemon_stops (h : (daemon mode).Reach Any x) (hcancelled : x.memory.cancelled = true) :
    (∃ n, ∀ as z, (daemon mode).Run Winding x as z → as.length ≤ n ∧
      ((∀ a, Own z a → (daemon mode).next z a = none) → ∃ code, z.memory.exit = some code)) ∧
    ∃ as z code, (daemon mode).Run Own x as z ∧ z.memory.exit = some code ∧
      ∀ n, z.thread (.request n) = x.thread (.request n) := by
  obtain ⟨S, hS⟩ := exists_moved h
  have hown : ownRoutines ⊆ S ∪ ownRoutines := Finset.subset_union_right
  have hx : WindsUp mode (S ∪ ownRoutines) x :=
    ⟨h, at_reach h, fun r hr => hS r fun hmem => hr (Finset.mem_union_left _ hmem), hcancelled⟩
  refine ⟨⟨total (S ∪ ownRoutines) Task.rank x, fun as z hrun => ?_⟩, ?_⟩
  · obtain ⟨hz, hlength⟩ := hrun.length_le (I := WindsUp mode (S ∪ ownRoutines)) _ Task.rank hx
      fun z r i m hz ha hm => hz.step hown ha hm
    refine ⟨(Nat.le_add_right ..).trans hlength, fun hstuck => ?_⟩
    by_contra hexit
    obtain ⟨a, ha, hsome⟩ := hz.progress hexit
    rw [hstuck a ha] at hsome
    cases hsome
  · obtain ⟨as, z, hrun, code, hexit⟩ := exists_run_of_progress (C := Own)
      (I := WindsUp mode (S ∪ ownRoutines)) (Q := fun z => ∃ code, z.memory.exit = some code)
      _ Task.rank hx (fun z r i m hz ha hm => hz.step hown ha.winding hm)
      fun z hz hexit => hz.progress hexit
    refine ⟨as, z, code, hrun, hexit, fun n => ?_⟩
    refine hrun.invariant (I := fun z => z.thread (.request n) = x.thread (.request n)) rfl ?_
    rintro z r i m hz ⟨-, hroutine⟩ -
    rw [after_thread_ne, hz]
    rintro rfl
    rcases hroutine with h | h | h | h <;> cases h

/-- The context is cancelled while a request is being handled. -/
def isInterrupted (x : Interleave.Config Routine Memory Task Event) : Bool :=
  x.memory.cancelled && match x.thread (.request 0) with
    | .handling => true
    | _ => false

/-- A signal comes while a request is being handled, and `gdimd` ends with the request where it
is. -/
theorem daemon_stops_request : ∃ x : Interleave.Config Routine Memory Task Event,
    x.thread (.request 0) = .handling ∧ ∃ as z code, (daemon .server).Run Own x as z ∧
      z.memory.exit = some code ∧ z.thread (.request 0) = .handling := by
  obtain ⟨x, hx, hp⟩ := exists_reach_of_exec (P := daemon .server) (stopsServer.take 6)
    (p := isInterrupted) (by decide +kernel)
  obtain ⟨hcancelled, hrequest⟩ := Bool.and_eq_true_iff.mp hp
  split at hrequest
  · rename_i hhandling
    obtain ⟨as, z, code, hrun, hexit, hkept⟩ := (daemon_stops hx hcancelled).2
    exact ⟨x, hhandling, as, z, code, hrun, hexit, (hkept 0).trans hhandling⟩
  · cases hrequest

end GuardedIM.Gdimd
