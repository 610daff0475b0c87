import Mathlib.Logic.Function.Basic
import Mathlib.Data.List.Induction
import Mathlib.Tactic.SplitIfs

/-!
# Threads that interleave over one shared memory

A `Program` says what one thread does next: from the shared memory, its own local
state and an input from outside it either cannot move (`none`) or moves to a new
shared memory and a new local state, and reports some events. A `Config` is the
shared memory, one local state per thread, and the log of all events so far. The
log is a history: no step reads it.

* `Reach P C`: the configurations a run reaches from the initial one when every step
  of it meets the condition `C` on the configuration before the step.
* `Reach.invariant`: the rule every safety proof uses. It asks only what *one*
  thread's step does, since the other threads' local states stay as they are. Invariants
  proved before are at hand for the state before the step, which is reached itself.
* `Justified Q`: every event of a log satisfied `Q` against the events before it.
  A property of histories is proved event by event, when the event is reported.
-/

namespace Interleave

variable {θ γ τ ι ε : Type*}

/-- What the threads `θ` of a program do: shared memory `γ`, local states `τ`,
inputs `ι`, events `ε`. -/
structure Program (θ γ τ ι ε : Type*) where
  /-- the shared memory at the start -/
  memory : γ
  /-- the local state every thread starts in -/
  start : τ
  /-- one atomic step of a thread; the events are listed newest first -/
  step : θ → γ → τ → ι → Option (γ × τ × List ε)

/-- A configuration of a running program. -/
structure Config (θ γ τ ε : Type*) where
  /-- the shared memory -/
  memory : γ
  /-- the local state of each thread -/
  thread : θ → τ
  /-- all events so far, newest first -/
  log : List ε

namespace Program

variable [DecidableEq θ] (P : Program θ γ τ ι ε)

/-- Nothing has run yet. -/
def init : Config θ γ τ ε := ⟨P.memory, fun _ => P.start, []⟩

/-- The configuration after thread `t` moved to `(g, l)` and reported `es`. -/
def after (x : Config θ γ τ ε) (t : θ) (m : γ × τ × List ε) : Config θ γ τ ε :=
  ⟨m.1, Function.update x.thread t m.2.1, m.2.2 ++ x.log⟩

/-- One step of the whole program: the thread and its input are chosen by the scheduler. -/
def next (x : Config θ γ τ ε) (a : θ × ι) : Option (Config θ γ τ ε) :=
  (P.step a.1 x.memory (x.thread a.1) a.2).map (after x a.1)

/-- Run a whole schedule, as long as its steps pass a test. -/
def execIf (c : Config θ γ τ ε → θ × ι → Bool) (x : Config θ γ τ ε) (as : List (θ × ι)) :
    Option (Config θ γ τ ε) :=
  as.foldlM (fun x a => if c x a then P.next x a else none) x

/-- Run a whole schedule. -/
def exec (x : Config θ γ τ ε) (as : List (θ × ι)) : Option (Config θ γ τ ε) :=
  P.execIf (fun _ _ => true) x as

/-- A run from `x` to `y` along a schedule, each step of which meets `C`. -/
inductive Run (C : Config θ γ τ ε → θ × ι → Prop) (x : Config θ γ τ ε) :
    List (θ × ι) → Config θ γ τ ε → Prop
  /-- no step -/
  | nil : Run C x [] x
  /-- one more step at the end -/
  | snoc {as : List (θ × ι)} {y z : Config θ γ τ ε} {a : θ × ι} :
      Run C x as y → C y a → P.next y a = some z → Run C x (as ++ [a]) z

/-- The configurations that runs meeting `C` reach. -/
def Reach (C : Config θ γ τ ε → θ × ι → Prop) (x : Config θ γ τ ε) : Prop :=
  ∃ as, P.Run C P.init as x

/-- No condition: every interleaving. -/
def Any : Config θ γ τ ε → θ × ι → Prop := fun _ _ => True

variable {P}

theorem next_eq_some {x y : Config θ γ τ ε} {a : θ × ι} (h : P.next x a = some y) :
    ∃ m, P.step a.1 x.memory (x.thread a.1) a.2 = some m ∧ y = after x a.1 m := by
  obtain ⟨m, hm, rfl⟩ := Option.map_eq_some_iff.mp h
  exact ⟨m, hm, rfl⟩

theorem Run.mono {C D : Config θ γ τ ε → θ × ι → Prop} {x y : Config θ γ τ ε}
    {as : List (θ × ι)} (hCD : ∀ x a, C x a → D x a) (h : P.Run C x as y) : P.Run D x as y := by
  induction h with
  | nil => exact .nil
  | snoc _ hC hn ih => exact .snoc ih (hCD _ _ hC) hn

theorem Run.trans {C : Config θ γ τ ε → θ × ι → Prop} {x y z : Config θ γ τ ε}
    {as bs : List (θ × ι)} (h₁ : P.Run C x as y) (h₂ : P.Run C y bs z) :
    P.Run C x (as ++ bs) z := by
  induction h₂ with
  | nil => simpa using h₁
  | snoc _ hC hn ih =>
    rw [← List.append_assoc]
    exact .snoc ih hC hn

@[simp] theorem exec_nil (x : Config θ γ τ ε) : P.exec x [] = some x := rfl

@[simp] theorem exec_cons (x : Config θ γ τ ε) (a : θ × ι) (as : List (θ × ι)) :
    P.exec x (a :: as) = (P.next x a).bind fun y => P.exec y as := rfl

/-- A schedule that executes is a run. -/
theorem run_of_execIf {C : Config θ γ τ ε → θ × ι → Prop} {c : Config θ γ τ ε → θ × ι → Bool}
    (hc : ∀ x a, c x a = true → C x a) {x y : Config θ γ τ ε} {as : List (θ × ι)}
    (h : P.execIf c x as = some y) : P.Run C x as y := by
  induction as using List.reverseRecOn generalizing y with
  | nil =>
    obtain rfl := Option.some.inj h
    exact .nil
  | append_singleton as a ih =>
    rw [execIf, List.foldlM_append] at h
    obtain ⟨z, hz, hy⟩ := Option.bind_eq_some_iff.mp h
    have hstep : (if c z a then P.next z a else none) = some y := by simpa using hy
    split_ifs at hstep with hca
    exact .snoc (ih hz) (hc z a hca) hstep

/-- A state found by executing a schedule. -/
theorem exists_run_of_execIf {C : Config θ γ τ ε → θ × ι → Prop}
    {c : Config θ γ τ ε → θ × ι → Bool} (hc : ∀ x a, c x a = true → C x a) (as : List (θ × ι))
    {p : Config θ γ τ ε → Bool} (h : (P.execIf c P.init as).any p = true) :
    ∃ x, P.Run C P.init as x ∧ p x = true := by
  rcases hx : P.execIf c P.init as with _ | x
  · rw [hx] at h
    cases h
  · rw [hx] at h
    exact ⟨x, run_of_execIf hc hx, h⟩

theorem exists_run_of_exec (as : List (θ × ι)) {p : Config θ γ τ ε → Bool}
    (h : (P.exec P.init as).any p = true) : ∃ x, P.Run Any P.init as x ∧ p x = true :=
  exists_run_of_execIf (fun _ _ _ => trivial) as h

theorem exists_reach_of_exec (as : List (θ × ι)) {p : Config θ γ τ ε → Bool}
    (h : (P.exec P.init as).any p = true) : ∃ x, P.Reach Any x ∧ p x = true := by
  obtain ⟨x, hx, hp⟩ := exists_run_of_exec as h
  exact ⟨x, ⟨as, hx⟩, hp⟩

theorem reach_init {C : Config θ γ τ ε → θ × ι → Prop} : P.Reach C P.init := ⟨[], .nil⟩

theorem Reach.any {C : Config θ γ τ ε → θ × ι → Prop} {x : Config θ γ τ ε} (h : P.Reach C x) :
    P.Reach Any x := by
  obtain ⟨as, h⟩ := h
  exact ⟨as, h.mono fun _ _ _ => trivial⟩

theorem Reach.run {C : Config θ γ τ ε → θ × ι → Prop} {x y : Config θ γ τ ε}
    {as : List (θ × ι)} (h : P.Reach C x) (hr : P.Run C x as y) : P.Reach C y := by
  obtain ⟨bs, h⟩ := h
  exact ⟨bs ++ as, h.trans hr⟩

theorem Reach.step {C : Config θ γ τ ε → θ × ι → Prop} {x y : Config θ γ τ ε} {a : θ × ι}
    (h : P.Reach C x) (hC : C x a) (hn : P.next x a = some y) : P.Reach C y :=
  h.run (.snoc .nil hC hn)

/-- **Runs keep what steps keep.** -/
theorem Run.invariant {C : Config θ γ τ ε → θ × ι → Prop} {I : Config θ γ τ ε → Prop}
    {x y : Config θ γ τ ε} {as : List (θ × ι)} (h : P.Run C x as y) (h0 : I x)
    (hs : ∀ z t i m, I z → C z (t, i) → P.step t z.memory (z.thread t) i = some m →
      I (after z t m)) : I y := by
  induction h with
  | nil => exact h0
  | @snoc _ y z a _ hC hn ih =>
    obtain ⟨m, hm, rfl⟩ := next_eq_some hn
    exact hs y a.1 a.2 m ih hC hm

/-- **The invariant rule**: what holds at the start and is kept by every step of
every thread from a configuration reached holds in every configuration reached. -/
theorem Reach.invariant {C : Config θ γ τ ε → θ × ι → Prop} {I : Config θ γ τ ε → Prop}
    {x : Config θ γ τ ε} (h : P.Reach C x) (h0 : I P.init)
    (hs : ∀ z t i m, P.Reach C z → I z → C z (t, i) →
      P.step t z.memory (z.thread t) i = some m → I (after z t m)) : I x := by
  obtain ⟨as, h⟩ := h
  induction h with
  | nil => exact h0
  | @snoc _ y z a hrun hC hn ih =>
    obtain ⟨m, hm, rfl⟩ := next_eq_some hn
    exact hs y a.1 a.2 m ⟨_, hrun⟩ ih hC hm

@[simp] theorem after_memory (x : Config θ γ τ ε) (t : θ) (m : γ × τ × List ε) :
    (after x t m).memory = m.1 := rfl

@[simp] theorem after_log (x : Config θ γ τ ε) (t : θ) (m : γ × τ × List ε) :
    (after x t m).log = m.2.2 ++ x.log := rfl

@[simp] theorem after_thread_self (x : Config θ γ τ ε) (t : θ) (m : γ × τ × List ε) :
    (after x t m).thread t = m.2.1 := Function.update_self ..

/-- A step of one thread leaves the others where they were. -/
theorem after_thread_ne (x : Config θ γ τ ε) {t u : θ} (m : γ × τ × List ε) (hne : u ≠ t) :
    (after x t m).thread u = x.thread u := Function.update_of_ne hne ..

/-- A thread that the schedule never picks stays where it starts. -/
theorem Run.thread_eq {C : Config θ γ τ ε → θ × ι → Prop} {x y : Config θ γ τ ε}
    {as : List (θ × ι)} (h : P.Run C x as y) {t : θ} (ht : ∀ a ∈ as, a.1 ≠ t) :
    y.thread t = x.thread t := by
  induction h with
  | nil => rfl
  | @snoc as y z a _ _ hn ih =>
    obtain ⟨m, -, rfl⟩ := next_eq_some hn
    have hne : t ≠ a.1 := Ne.symm (ht a (List.mem_append_right _ (List.mem_singleton_self a)))
    rw [after_thread_ne y m hne, ih fun b hb => ht b (List.mem_append_left _ hb)]

end Program

/-! ## Properties of histories -/

/-- Every event of the log satisfied `Q` against the events before it. -/
def Justified (Q : ε → List ε → Prop) : List ε → Prop
  | [] => True
  | e :: past => Q e past ∧ Justified Q past

/-- Whether a given history is justified can be computed. -/
def decidableJustified {Q : ε → List ε → Prop} (hQ : ∀ e past, Decidable (Q e past)) :
    ∀ log, Decidable (Justified Q log)
  | [] => isTrue trivial
  | e :: past => @instDecidableAnd _ _ (hQ e past) (decidableJustified hQ past)

instance {Q : ε → List ε → Prop} [hQ : ∀ e past, Decidable (Q e past)] (log : List ε) :
    Decidable (Justified Q log) := decidableJustified hQ log

theorem Justified.append {Q : ε → List ε → Prop} {es past : List ε}
    (h : Justified Q (es ++ past)) : Justified Q past := by
  induction es with
  | nil => exact h
  | cons e es ih => exact ih h.2

/-- The form in which a justified log is read: split it at any event. -/
theorem Justified.at {Q : ε → List ε → Prop} {later past : List ε} {e : ε}
    (h : Justified Q (later ++ e :: past)) : Q e past :=
  h.append.1

/-- Events with nothing to justify can be reported at any time. -/
theorem Justified.append_of_forall {Q : ε → List ε → Prop} {es log : List ε}
    (hes : ∀ e ∈ es, ∀ past, Q e past) (h : Justified Q log) : Justified Q (es ++ log) := by
  induction es with
  | nil => exact h
  | cons e es ih =>
    exact ⟨hes e (List.mem_cons_self ..) _, ih fun e' he' => hes e' (List.mem_cons_of_mem _ he')⟩

/-- Two events of a history are one, or one of them is before the other. -/
theorem suffix_trichotomy {e e' : ε} {past past' log : List ε} (h : e :: past <:+ log)
    (h' : e' :: past' <:+ log) :
    (e = e' ∧ past = past') ∨ e :: past <:+ past' ∨ e' :: past' <:+ past := by
  rcases List.suffix_or_suffix_of_suffix h h' with hs | hs
  · rcases List.suffix_cons_iff.mp hs with heq | hlt
    · exact .inl (List.cons.inj heq)
    · exact .inr (.inl hlt)
  · rcases List.suffix_cons_iff.mp hs with heq | hlt
    · exact .inl ((List.cons.inj heq).imp Eq.symm Eq.symm)
    · exact .inr (.inr hlt)

/-- An event reported after `past` is among those that follow it. -/
theorem mem_of_suffix_append {e : ε} {es past past' : List ε} (h : e :: past' <:+ es ++ past)
    (hlen : past.length ≤ past'.length) : e ∈ es := by
  obtain ⟨w, hw⟩ := h
  rcases List.append_eq_append_iff.mp hw with ⟨a, rfl, ha⟩ | ⟨a, rfl, ha⟩
  · cases a with
    | nil =>
      have := congrArg List.length ha
      simp only [List.nil_append, List.length_cons] at this
      omega
    | cons b a =>
      rw [(List.cons.inj ha).1]
      exact List.mem_append_right _ (List.mem_cons_self ..)
  · have := congrArg List.length ha
    simp only [List.length_append, List.length_cons] at this
    omega

end Interleave
