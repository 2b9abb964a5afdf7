import HypeLlm.Lib.Runs
import HypeLlm.Fleet.Snapshot

/-!
# The reference agent

The agent runs the commands of its own table.  A verb that is accepted gives an activation, whose
commands run on a thread of their own; the router polls the activation.  A verb that starts or stops a
deployment carries a lease, and a lease that the agent has seen gives the activation it gave before,
whatever the verb and the deployment.  Finished activations are forgotten, the oldest first, past a
bound, and their leases with them.

* `prune_keeps` — what was accepted last, and what was accepted just before it, is not forgotten;
* `reachable` — after every history at most sixteen activations are unfinished, and they are numbered
  in the order they were accepted.
-/

namespace HypeLlm.Fleet

open HypeLlm.Runs

/-- A command the agent runs on a host. -/
inductive Command where
  /-- What makes the container of a templated deployment. -/
  | prepare (deployment : DeploymentId)
  | start (deployment : DeploymentId)
  | probe (deployment : DeploymentId)
  | stop (deployment : DeploymentId)
  | pull (artifact : ArtifactId) (host : HostId)
  | relay (artifact : ArtifactId) (source dest : HostId)
  deriving Repr, DecidableEq

/-- It starts or stops a deployment. -/
def Command.isService : Command → Bool
  | .start _ => true
  | .stop _ => true
  | _ => false

/-- What the thread of an activation does. -/
inductive Work where
  | service (deployment : DeploymentId) (starting : Bool)
  | fetch (artifact : ArtifactId) (host : HostId)
  | copy (artifact : ArtifactId) (source dest : HostId)
  deriving Repr, DecidableEq

inductive WorkState where
  | starting
  | stopping
  | fetching
  | ready
  | failed
  | stopped
  deriving Repr, DecidableEq

def WorkState.terminal : WorkState → Bool
  | .ready => true
  | .failed => true
  | .stopped => true
  | _ => false

structure Activation where
  id : ℕ
  work : Work
  state : WorkState
  deriving Repr, DecidableEq

/-- What the agent reads of its own file. -/
structure Table where
  /-- The host of a deployment it knows. -/
  host : DeploymentId → Option HostId
  maxActivationsPerHour : HostId → ℕ
  templated : DeploymentId → Bool
  /-- The artifact and the host are known, of one architecture, and there is a command to pull. -/
  fetchable : ArtifactId → HostId → Bool
  copyable : ArtifactId → HostId → HostId → Bool

inductive VerbError where
  | unknownDeployment
  | unknownArtifact
  | hostBusy
  | busy
  | rateLimited
  deriving Repr, DecidableEq

structure Agent where
  /-- In the order they were accepted. -/
  activations : List Activation
  leases : LeaseId → Option ℕ
  /-- The transfer to a host. -/
  fetches : HostId → Option ℕ
  inflight : ℕ
  next : ℕ
  /-- The starts accepted for a host within the hour. -/
  recent : HostId → ℕ
  /-- What the last verb about a deployment has come to. -/
  states : DeploymentId → Option WorkState
  /-- The deployments whose container runs. -/
  running : DeploymentId → Bool
  /-- The images that hosts hold. -/
  images : ArtifactId → HostId → Bool
  /-- The commands run, in order. -/
  ran : List Command

def maxInflightOperations : ℕ := 16

def maxRetainedActivations : ℕ := 1024

namespace Agent

variable (table : Table) (s : Agent)

def init : Agent :=
  ⟨[], fun _ => none, fun _ => none, 0, 1, fun _ => 0, fun _ => none, fun _ => false, fun _ _ => false, []⟩

def find (id : ℕ) : Option Activation := s.activations.find? fun a => a.id = id

/-- A slot taken for the thread of a new activation. -/
def accept (work : Work) (state : WorkState) : Agent :=
  { s with
    activations := s.activations ++ [⟨s.next, work, state⟩]
    inflight := s.inflight + 1
    next := s.next + 1 }

/-- `ACTIVATE` and `DEACTIVATE`. -/
def startVerb (deployment : DeploymentId) (lease : LeaseId) (starting : Bool) :
    Except VerbError ℕ × Agent :=
  match table.host deployment with
  | none => (.error .unknownDeployment, s)
  | some host =>
    match s.leases lease with
    | some existing => (.ok existing, s)
    | none =>
      if maxInflightOperations ≤ s.inflight then (.error .busy, s)
      else if starting && decide (table.maxActivationsPerHour host ≤ s.recent host) then
        (.error .rateLimited, s)
      else
        let state := if starting then .starting else .stopping
        (.ok s.next,
          { s.accept (.service deployment starting) state with
            leases := Function.update s.leases lease (some s.next)
            states := Function.update s.states deployment (some state)
            recent := if starting then Function.update s.recent host (s.recent host + 1) else s.recent })

/-- The transfer under way to a host. -/
def transferTo (host : HostId) : Option Activation :=
  ((s.fetches host).bind s.find).filter fun a => a.state = .fetching

def Work.artifact : Work → Option ArtifactId
  | .fetch artifact _ => some artifact
  | .copy artifact _ _ => some artifact
  | .service _ _ => none

/-- One transfer to a host: the same artifact is joined, another is refused. -/
def transferVerb (artifact : ArtifactId) (host : HostId) (work : Work) : Except VerbError ℕ × Agent :=
  match s.transferTo host with
  | some a => if Work.artifact a.work = some artifact then (.ok a.id, s) else (.error .hostBusy, s)
  | none =>
    if maxInflightOperations ≤ s.inflight then (.error .busy, s)
    else (.ok s.next, { s.accept work .fetching with fetches := Function.update s.fetches host (some s.next) })

def fetch (artifact : ArtifactId) (host : HostId) : Except VerbError ℕ × Agent :=
  if table.fetchable artifact host then s.transferVerb artifact host (.fetch artifact host)
  else (.error .unknownArtifact, s)

def copy (artifact : ArtifactId) (source dest : HostId) : Except VerbError ℕ × Agent :=
  if table.copyable artifact source dest then s.transferVerb artifact dest (.copy artifact source dest)
  else (.error .unknownArtifact, s)

/-! ### The threads -/

/-- The commands of a start, up to the first that fails. -/
def startCommands (succeeds : Command → Bool) (deployment : DeploymentId) : List Command :=
  if table.templated deployment && !succeeds (.prepare deployment) then [.prepare deployment]
  else
    (if table.templated deployment then [.prepare deployment] else []) ++
      if succeeds (.start deployment) then [.start deployment, .probe deployment] else [.start deployment]

/-- The commands of an activation. -/
def commands (succeeds : Command → Bool) : Work → List Command
  | .service deployment true => startCommands table succeeds deployment
  | .service deployment false => [.stop deployment]
  | .fetch artifact host => [.pull artifact host]
  | .copy artifact source dest => [.relay artifact source dest]

/-- How an activation ends that ends well. -/
def ending : Work → WorkState
  | .service _ false => .stopped
  | _ => .ready

/-- An activation ends well where all its commands did. -/
def outcome (succeeds : Command → Bool) (work : Work) : WorkState :=
  if (commands table succeeds work).all succeeds then ending work else .failed

/-- A start or a stop leaves the container running or not, where its command was run and succeeded. -/
def runningAfter (succeeds : Command → Bool) (deployment : DeploymentId) (starting : Bool) :
    DeploymentId → Bool :=
  let command := if starting then Command.start deployment else Command.stop deployment
  if command ∈ commands table succeeds (.service deployment starting) ∧ succeeds command then
    Function.update s.running deployment starting
  else s.running

/-- What the commands leave behind. -/
def effect (succeeds : Command → Bool) (work : Work) : Agent :=
  match work with
  | .service deployment starting =>
    { s with
      running := s.runningAfter table succeeds deployment starting
      states := Function.update s.states deployment (some (outcome table succeeds work)) }
  | .fetch _ host => { s with fetches := Function.update s.fetches host none }
  | .copy artifact source dest =>
    { s with
      fetches := Function.update s.fetches dest none
      images := if succeeds (.relay artifact source dest) then
          fun a h => (a = artifact && h = dest) || s.images a h
        else s.images }

/-- The finished activations past the bound, the oldest first. -/
def dropped : List ℕ :=
  ((s.activations.filter fun a => a.state.terminal).take
    (s.activations.length - maxRetainedActivations)).map Activation.id

def prune : Agent :=
  { s with
    activations := s.activations.filter fun a => a.id ∉ s.dropped
    leases := fun lease => (s.leases lease).filter fun id => id ∉ s.dropped }

def setState (id : ℕ) (state : WorkState) : Agent :=
  { s with activations := s.activations.map fun a => if a.id = id then { a with state := state } else a }

/-- The commands are run, the outcome is noted and the slot given back. -/
def finishing (succeeds : Command → Bool) (a : Activation) : Agent :=
  { (s.effect table succeeds a.work).setState a.id (outcome table succeeds a.work) with
    ran := s.ran ++ commands table succeeds a.work
    inflight := s.inflight - 1 }

/-- The thread of an activation, to its end. -/
def runThread (succeeds : Command → Bool) (id : ℕ) : Agent :=
  match s.find id with
  | none => s
  | some a => if a.state.terminal then s else (s.finishing table succeeds a).prune

/-- Everything under way runs to its end. -/
def settle (succeeds : Command → Bool) : Agent :=
  ((s.activations.filter fun a => !a.state.terminal).map Activation.id).foldl
    (fun t id => t.runThread table succeeds id) s

/-! ### Histories -/

inductive Event where
  | startVerb (deployment : DeploymentId) (lease : LeaseId) (starting : Bool)
  | fetch (artifact : ArtifactId) (host : HostId)
  | copy (artifact : ArtifactId) (source dest : HostId)
  /-- The thread of an activation runs to its end. -/
  | thread (succeeds : Command → Bool) (id : ℕ)
  /-- A start leaves the window of its host. -/
  | pass (host : HostId)

def step (s : Agent) : Event → Agent
  | .startVerb deployment lease starting => (s.startVerb table deployment lease starting).2
  | .fetch artifact host => (s.fetch table artifact host).2
  | .copy artifact source dest => (s.copy table artifact source dest).2
  | .thread succeeds id => s.runThread table succeeds id
  | .pass host => { s with recent := Function.update s.recent host (s.recent host - 1) }

/-! ### What histories keep -/

/-- Numbered in order, and few of them unfinished. -/
structure Sound (s : Agent) : Prop where
  ids : s.activations.Pairwise fun a b => a.id < b.id
  next : ∀ a ∈ s.activations, a.id < s.next
  unfinished : (s.activations.countP fun a => !a.state.terminal) ≤ s.inflight
  inflight : s.inflight ≤ maxInflightOperations

variable {T : Table} {s : Agent}

theorem Sound.accept (h : s.Sound) (hroom : s.inflight < maxInflightOperations) (work : Work)
    (state : WorkState) : (s.accept work state).Sound := by
  refine ⟨?_, ?_, ?_, hroom⟩
  · rw [Agent.accept, List.pairwise_append]
    refine ⟨h.ids, List.pairwise_singleton .., ?_⟩
    intro a ha b hb
    obtain rfl := List.mem_singleton.1 hb
    exact h.next a ha
  · intro a ha
    show a.id < s.next + 1
    rcases List.mem_append.1 ha with ha | ha
    · exact Nat.lt_succ_of_lt (h.next a ha)
    · obtain rfl := List.mem_singleton.1 ha
      exact Nat.lt_succ_self _
  · have hle := h.unfinished
    show List.countP _ (s.activations ++ [_]) ≤ s.inflight + 1
    rw [List.countP_append]
    refine Nat.add_le_add hle ?_
    exact List.countP_le_length

/-- Marking an unfinished activation as finished leaves one unfinished less. -/
theorem countP_finish {l : List Activation} {a : Activation} {state : WorkState} (ha : a ∈ l)
    (hopen : a.state.terminal = false) (hstate : state.terminal = true) :
    ((l.map fun b => if b.id = a.id then { b with state := state } else b).countP
      fun b => !b.state.terminal) + 1 ≤ l.countP fun b => !b.state.terminal := by
  induction l with
  | nil => cases ha
  | cons b l ih =>
    have hrest : ((l.map fun b => if b.id = a.id then { b with state := state } else b).countP
        fun b => !b.state.terminal) ≤ l.countP fun b => !b.state.terminal := by
      rw [List.countP_map]
      refine List.countP_mono_left ?_
      intro x _ hx
      by_cases hid : x.id = a.id
      · simp [hid, hstate] at hx
      · simpa [hid] using hx
    rw [List.map_cons, List.countP_cons, List.countP_cons]
    rcases List.mem_cons.1 ha with rfl | ha
    · simp only [if_true, hstate, hopen, Bool.not_true, Bool.not_false, Bool.false_eq_true, if_false]
      omega
    · have hih := ih ha
      by_cases hid : b.id = a.id
      · simp only [hid, if_true, hstate, Bool.not_true, Bool.false_eq_true, if_false]
        omega
      · simp only [hid, if_false]
        omega

theorem outcome_terminal (succeeds : Command → Bool) (work : Work) :
    (outcome T succeeds work).terminal = true := by
  rw [outcome]
  split
  · unfold ending
    split <;> rfl
  · rfl

/-- What the effect of commands does not touch. -/
theorem effect_frame (succeeds : Command → Bool) (work : Work) :
    (s.effect T succeeds work).activations = s.activations ∧
    (s.effect T succeeds work).leases = s.leases ∧
    (s.effect T succeeds work).next = s.next ∧
    (s.effect T succeeds work).recent = s.recent := by
  unfold effect
  split <;> exact ⟨rfl, rfl, rfl, rfl⟩

theorem Sound.prune (h : s.Sound) : s.prune.Sound := by
  refine ⟨h.ids.filter _, ?_, ?_, h.inflight⟩
  · intro a ha
    exact h.next a (List.mem_filter.1 ha).1
  · refine le_trans ?_ h.unfinished
    exact (List.filter_sublist).countP_le

/-- **The newest are kept.**  Activations are forgotten from the oldest on, and only past a bound that
all the unfinished ones together do not reach: neither the last nor the last but one goes. -/
theorem prune_keeps (h : s.Sound) {pre post : List Activation} {a : Activation}
    (hsplit : s.activations = pre ++ a :: post) (hpost : post.length ≤ 1) : a.id ∉ s.dropped := by
  have hcount : pre.length ≤ (pre.filter fun b => b.state.terminal).length + maxInflightOperations := by
    have hopen : (pre.countP fun b => !b.state.terminal) ≤ maxInflightOperations := by
      refine le_trans ?_ (h.unfinished.trans h.inflight)
      rw [hsplit, List.countP_append]
      exact Nat.le_add_right _ _
    have htotal := List.length_eq_countP_add_countP (fun b : Activation => b.state.terminal) (l := pre)
    rw [List.countP_eq_length_filter] at htotal
    simp only [Bool.not_eq_true, Bool.decide_eq_false] at htotal
    omega
  have hexcess : s.activations.length - maxRetainedActivations ≤
      (pre.filter fun b => b.state.terminal).length := by
    rw [hsplit, List.length_append, List.length_cons]
    rw [maxInflightOperations] at hcount
    rw [maxRetainedActivations]
    omega
  intro hdropped
  rw [dropped, hsplit, List.filter_append] at hdropped
  rw [hsplit] at hexcess
  rw [List.take_append_of_le_length hexcess] at hdropped
  obtain ⟨b, hb, hid⟩ := List.mem_map.1 hdropped
  have hbpre : b ∈ pre := (List.mem_filter.1 (List.mem_of_mem_take hb)).1
  have hids := h.ids
  rw [hsplit, List.pairwise_append] at hids
  have hlt := hids.2.2 b hbpre a List.mem_cons_self
  omega

theorem finishing_activations (succeeds : Command → Bool) (a : Activation) :
    (s.finishing T succeeds a).activations =
      s.activations.map fun b =>
        if b.id = a.id then { b with state := outcome T succeeds a.work } else b := by
  show List.map _ (s.effect T succeeds a.work).activations = _
  rw [(effect_frame succeeds a.work).1]

theorem Sound.finishing (h : s.Sound) (succeeds : Command → Bool) {a : Activation}
    (ha : a ∈ s.activations) (hopen : a.state.terminal = false) :
    (s.finishing T succeeds a).Sound := by
  have hcount := countP_finish ha hopen (outcome_terminal (T := T) succeeds a.work)
  have hle := h.unfinished
  refine ⟨?_, ?_, ?_, ?_⟩
  · rw [finishing_activations, List.pairwise_map]
    refine h.ids.imp ?_
    intro b c hbc
    split <;> split <;> exact hbc
  · have hnext : (s.finishing T succeeds a).next = s.next := (effect_frame succeeds a.work).2.2.1
    intro b hb
    rw [finishing_activations, List.mem_map] at hb
    obtain ⟨c, hc, rfl⟩ := hb
    rw [hnext]
    split
    · exact h.next c hc
    · exact h.next c hc
  · rw [finishing_activations]
    show _ ≤ s.inflight - 1
    omega
  · have hmax := h.inflight
    show s.inflight - 1 ≤ _
    omega

theorem find_mem {id : ℕ} {a : Activation} (h : s.find id = some a) : a ∈ s.activations ∧ a.id = id :=
  ⟨List.mem_of_find?_eq_some h, by simpa using List.find?_some h⟩

/-- An activation is found by its number. -/
theorem find_of_split (h : s.Sound) {pre post : List Activation} {a : Activation}
    (hsplit : s.activations = pre ++ a :: post) : s.find a.id = some a := by
  have hids := h.ids
  rw [hsplit, List.pairwise_append] at hids
  have hpre : pre.find? (fun b => decide (b.id = a.id)) = none := by
    rw [List.find?_eq_none]
    intro b hb
    have hlt := hids.2.2 b hb a List.mem_cons_self
    simpa using Nat.ne_of_lt hlt
  rw [find, hsplit, List.find?_append, hpre, Option.none_or, List.find?_cons_of_pos (by simp)]

theorem Sound.runThread (h : s.Sound) (succeeds : Command → Bool) (id : ℕ) :
    (s.runThread T succeeds id).Sound := by
  rw [Agent.runThread]
  split
  · exact h
  · rename_i a hfind
    split
    · exact h
    · rename_i hopen
      exact (h.finishing succeeds (find_mem hfind).1 (by simpa using hopen)).prune

theorem Sound.startVerb (h : s.Sound) (deployment : DeploymentId) (lease : LeaseId) (starting : Bool) :
    (s.startVerb T deployment lease starting).2.Sound := by
  rw [Agent.startVerb]
  split
  · exact h
  · split
    · exact h
    · split
      · exact h
      · rename_i hroom
        split
        · exact h
        · have haccept := h.accept (by omega) (.service deployment starting)
            (if starting then .starting else .stopping)
          exact ⟨haccept.ids, haccept.next, haccept.unfinished, haccept.inflight⟩

theorem Sound.transferVerb (h : s.Sound) (artifact : ArtifactId) (host : HostId) (work : Work) :
    (s.transferVerb artifact host work).2.Sound := by
  rw [Agent.transferVerb]
  split
  · split <;> exact h
  · split
    · exact h
    · rename_i hroom
      have haccept := h.accept (by omega) work .fetching
      exact ⟨haccept.ids, haccept.next, haccept.unfinished, haccept.inflight⟩

theorem step_sound (h : s.Sound) (e : Event) : (step T s e).Sound := by
  cases e with
  | startVerb deployment lease starting => exact h.startVerb deployment lease starting
  | fetch artifact host =>
    show (s.fetch T artifact host).2.Sound
    rw [fetch]
    split
    · exact h.transferVerb ..
    · exact h
  | copy artifact source dest =>
    show (s.copy T artifact source dest).2.Sound
    rw [copy]
    split
    · exact h.transferVerb ..
    · exact h
  | thread succeeds id => exact h.runThread succeeds id
  | pass host => exact ⟨h.ids, h.next, h.unfinished, h.inflight⟩

theorem init_sound : init.Sound :=
  ⟨List.Pairwise.nil, fun _ ha => absurd ha List.not_mem_nil, Nat.le_refl 0, Nat.zero_le _⟩

/-- What the agent has come to by a history. -/
theorem reachable (history : List Event) : (run (step T) init history).Sound :=
  run_invariant (P := Sound) (fun _ e h => step_sound h e) init_sound history

/-! ### The newest activations -/

/-- At most `k` activations were accepted after this one. -/
def Listed (s : Agent) (a : Activation) (k : ℕ) : Prop :=
  ∃ pre post, s.activations = pre ++ a :: post ∧ post.length ≤ k

theorem Listed.find (h : s.Sound) {a : Activation} {k : ℕ} (hl : s.Listed a k) : s.find a.id = some a := by
  obtain ⟨pre, post, hsplit, -⟩ := hl
  exact find_of_split h hsplit

theorem listed_accept (work : Work) (state : WorkState) :
    (s.accept work state).Listed ⟨s.next, work, state⟩ 0 := ⟨s.activations, [], rfl, Nat.le_refl 0⟩

theorem Listed.accept {a : Activation} {k : ℕ} (hl : s.Listed a k) (work : Work) (state : WorkState) :
    (s.accept work state).Listed a (k + 1) := by
  obtain ⟨pre, post, hsplit, hk⟩ := hl
  refine ⟨pre, post ++ [⟨s.next, work, state⟩], ?_, ?_⟩
  · show s.activations ++ _ = _
    rw [hsplit, List.append_assoc, List.cons_append]
  · rw [List.length_append]
    exact Nat.succ_le_succ hk

theorem Listed.prune (h : s.Sound) {a : Activation} {k : ℕ} (hl : s.Listed a k) (hk : k ≤ 1) :
    s.prune.Listed a k ∧ ∀ lease, s.leases lease = some a.id → s.prune.leases lease = some a.id := by
  obtain ⟨pre, post, hsplit, hpost⟩ := hl
  have hkept := prune_keeps h hsplit (hpost.trans hk)
  constructor
  · refine ⟨pre.filter fun b => b.id ∉ s.dropped, post.filter fun b => b.id ∉ s.dropped, ?_,
      le_trans (List.length_filter_le ..) hpost⟩
    show List.filter _ s.activations = _
    rw [hsplit, List.filter_append, List.filter_cons_of_pos (by simpa using hkept)]
  · intro lease hlease
    show (s.leases lease).filter _ = _
    rw [hlease]
    simpa using hkept

theorem finishing_leases (succeeds : Command → Bool) (a : Activation) :
    (s.finishing T succeeds a).leases = s.leases := (effect_frame succeeds a.work).2.1

/-- A thread that ends marks its own activation and leaves the others as they are. -/
theorem Listed.finishing {a b : Activation} {k : ℕ} (hl : s.Listed a k)
    (succeeds : Command → Bool) :
    (s.finishing T succeeds b).Listed
      (if a.id = b.id then { a with state := outcome T succeeds b.work } else a) k := by
  obtain ⟨pre, post, hsplit, hpost⟩ := hl
  let mark : Activation → Activation := fun c =>
    if c.id = b.id then { c with state := outcome T succeeds b.work } else c
  refine ⟨pre.map mark, post.map mark, ?_, ?_⟩
  · rw [finishing_activations, hsplit, List.map_append, List.map_cons]
  · rw [List.length_map]
    exact hpost

/-- **The thread of one of the two newest.**  Its commands are run, and it is still found. -/
theorem runThread_self (h : s.Sound) {a : Activation} {k : ℕ} (hl : s.Listed a k) (hk : k ≤ 1)
    (hopen : a.state.terminal = false) (succeeds : Command → Bool) :
    s.runThread T succeeds a.id = (s.finishing T succeeds a).prune ∧
      (s.runThread T succeeds a.id).Listed { a with state := outcome T succeeds a.work } k ∧
      ∀ lease, s.leases lease = some a.id → (s.runThread T succeeds a.id).leases lease = some a.id := by
  have hrun : s.runThread T succeeds a.id = (s.finishing T succeeds a).prune := by
    rw [runThread, hl.find h]
    simp [hopen]
  have hmem : a ∈ s.activations := (find_mem (hl.find h)).1
  have hlisted := hl.finishing (b := a) (T := T) succeeds
  rw [if_pos rfl] at hlisted
  obtain ⟨hpruned, hleases⟩ := hlisted.prune (h.finishing succeeds hmem hopen) hk
  rw [hrun]
  refine ⟨rfl, hpruned, ?_⟩
  intro lease hlease
  refine hleases lease ?_
  rw [finishing_leases]
  exact hlease

/-- An ended activation of the two newest is still found when another thread ends. -/
theorem runThread_other (h : s.Sound) {a : Activation} {k : ℕ} (hl : s.Listed a k) (hk : k ≤ 1)
    (hended : a.state.terminal = true) (succeeds : Command → Bool) (id : ℕ) :
    (s.runThread T succeeds id).Listed a k ∧
      ∀ lease, s.leases lease = some a.id → (s.runThread T succeeds id).leases lease = some a.id := by
  rw [runThread]
  split
  · exact ⟨hl, fun _ hlease => hlease⟩
  · rename_i b hfind
    split
    · exact ⟨hl, fun _ hlease => hlease⟩
    · rename_i hopen
      have hb := find_mem hfind
      have hne : a.id ≠ b.id := by
        intro hsame
        have hboth := hl.find h
        rw [hsame, hb.2, hfind] at hboth
        rw [Option.some.inj hboth] at hopen
        exact hopen hended
      have hlisted := hl.finishing (b := b) (T := T) succeeds
      rw [if_neg hne] at hlisted
      obtain ⟨hpruned, hleases⟩ := hlisted.prune (h.finishing succeeds hb.1 (by simpa using hopen)) hk
      refine ⟨hpruned, ?_⟩
      intro lease hlease
      refine hleases lease ?_
      rw [finishing_leases]
      exact hlease

/-- A thread gives nobody a lease. -/
theorem runThread_leases_none (succeeds : Command → Bool) (id : ℕ) {lease : LeaseId}
    (hlease : s.leases lease = none) : (s.runThread T succeeds id).leases lease = none := by
  rw [runThread]
  split
  · exact hlease
  · split
    · exact hlease
    · show Option.filter _ ((s.finishing T succeeds _).leases lease) = none
      rw [finishing_leases, hlease]
      rfl

end Agent

end HypeLlm.Fleet
