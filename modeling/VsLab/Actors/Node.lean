import VsLab.Actors.Transition
import Mathlib.Data.List.Basic

set_option autoImplicit false

namespace Actors

-- sender is what the framework stores with a mailbox element. via is the group
-- the message came through (none for a direct send) and tag names the step that
-- originated it: both are ghost, no handler reads them.
structure Envelope (A G M : Type) where
  sender : A
  via : Option G
  tag : Nat
  msg : M
deriving DecidableEq

inductive Effect (A G M S O : Type) where
  | send (msg : M)
  | publish (grp : G) (msg : M)
  | join (grp : G)
  | spawn (child : A) (state : S) (grp : G)
  | print (out : O)

-- raise is an uncaught exception, hang a handler that never returns.
inductive Outcome (S : Type) where
  | become (state : S)
  | quit
  | raise
  | hang
deriving DecidableEq

structure Reaction (A G M S O : Type) where
  effects : List (Effect A G M S O)
  outcome : Outcome S

-- start is the body an actor runs before its first message; accepts says which
-- messages its behaviour has a pattern for. A relay only passes messages on: what
-- it sends keeps the tag of what it handles.
structure Behaviour (A G M S D O : Type) where
  start : A → S → D → Reaction A G M S O
  accepts : S → M → Bool
  react : A → S → D → M → Reaction A G M S O
  relays : A → Bool

inductive Status (S : Type) where
  | absent
  | spawned (state : S)
  | running (state : S)
  | hung
  | exited
deriving DecidableEq

inductive Event (A G M S D : Type) where
  | arrived (env : Envelope A G M)
  | started (state : S) (draw : D) (tag : Nat)
  | handled (env : Envelope A G M) (state : S) (draw : D) (tag : Nat)

-- The mailbox holds the cached (skipped) messages in place, oldest first; the
-- history is ghost, newest first.
structure Node (A G M S D : Type) where
  status : Status S
  mailbox : List (Envelope A G M)
  history : List (Event A G M S D)

variable {A G M S D O : Type}

def selfSends (self : A) (tag : Nat) (effects : List (Effect A G M S O)) : List (Envelope A G M) :=
  effects.filterMap fun
    | .send msg => some ⟨self, none, tag, msg⟩
    | _ => none

def published (self : A) (tag : Nat) (effects : List (Effect A G M S O)) : List (Envelope A G M) :=
  effects.filterMap fun
    | .publish grp msg => some ⟨self, some grp, tag, msg⟩
    | _ => none

def printed (effects : List (Effect A G M S O)) : List O :=
  effects.filterMap fun
    | .print out => some out
    | _ => none

@[simp] theorem published_append (self : A) (tag : Nat) (first second : List (Effect A G M S O)) :
    published self tag (first ++ second) = published self tag first ++ published self tag second :=
  List.filterMap_append

@[simp] theorem published_prints (self : A) (tag count : Nat) (out : O) :
    published (G := G) (M := M) (S := S) self tag (List.replicate count (.print out)) = [] := by
  simp [published]

@[simp] theorem printed_append (first second : List (Effect A G M S O)) :
    printed (first ++ second) = printed first ++ printed second :=
  List.filterMap_append

@[simp] theorem printed_prints (count : Nat) (out : O) :
    printed (A := A) (G := G) (M := M) (S := S) (List.replicate count (.print out)) = List.replicate count out := by
  simp [printed]

namespace Event

def effects (beh : Behaviour A G M S D O) (self : A) : Event A G M S D → List (Effect A G M S O)
  | .arrived _ => []
  | .started state draw _ => (beh.start self state draw).effects
  | .handled env state draw _ => (beh.react self state draw env.msg).effects

def tag : Event A G M S D → Nat
  | .arrived env => env.tag
  | .started _ _ tag => tag
  | .handled _ _ _ tag => tag

def isArrival (test : Envelope A G M → Bool) : Event A G M S D → Bool
  | .arrived env => test env
  | _ => false

def isHandled (test : Envelope A G M → Bool) : Event A G M S D → Bool
  | .handled env _ _ _ => test env
  | _ => false

end Event

namespace Node

def vacant : Node A G M S D := ⟨.absent, [], []⟩

def fresh (state : S) : Node A G M S D := ⟨.spawned state, [], []⟩

def arrive (env : Envelope A G M) (node : Node A G M S D) : Node A G M S D :=
  match node.status with
  | .absent => node
  | .exited => node
  | _ => ⟨node.status, node.mailbox ++ [env], .arrived env :: node.history⟩

def settle (self : A) (tag : Nat) (r : Reaction A G M S O) (mailbox : List (Envelope A G M))
    (history : List (Event A G M S D)) : Node A G M S D :=
  match r.outcome with
  | .become state => ⟨.running state, mailbox ++ selfSends self tag r.effects, history⟩
  | .hang => ⟨.hung, mailbox ++ selfSends self tag r.effects, history⟩
  | .quit => ⟨.exited, [], history⟩
  | .raise => ⟨.exited, [], history⟩

def next (beh : Behaviour A G M S D O) (node : Node A G M S D) : Option (S × Envelope A G M) :=
  match node.status with
  | .running state => (node.mailbox.find? fun env => beh.accepts state env.msg).map fun env => (state, env)
  | _ => none

def start (beh : Behaviour A G M S D O) (self : A) (draw : D) (tag : Nat) (node : Node A G M S D) :
    Option (Node A G M S D) :=
  match node.status with
  | .spawned state =>
      some (settle self tag (beh.start self state draw) node.mailbox (.started state draw tag :: node.history))
  | _ => none

def handle (beh : Behaviour A G M S D O) (self : A) (draw : D) (tag : Nat) (node : Node A G M S D) :
    Option (Node A G M S D) :=
  (node.next beh).map fun (state, env) =>
    settle self tag (beh.react self state draw env.msg) (node.mailbox.eraseP fun env => beh.accepts state env.msg)
      (.handled env state draw tag :: node.history)

theorem next_some (beh : Behaviour A G M S D O) (node : Node A G M S D) (state : S) (env : Envelope A G M) :
    node.next beh = some (state, env) ↔
      node.status = .running state ∧ (node.mailbox.find? fun e => beh.accepts state e.msg) = some env := by
  unfold next
  cases status : node.status with
  | running current =>
      constructor
      · intro found
        obtain ⟨head, search, same⟩ := Option.map_eq_some_iff.mp found
        cases same
        exact ⟨rfl, search⟩
      · rintro ⟨same, search⟩
        cases same
        simp only [search, Option.map_some]
  | absent => simp
  | spawned current => simp
  | hung => simp
  | exited => simp

theorem next_split (beh : Behaviour A G M S D O) (node : Node A G M S D) (state : S) (env : Envelope A G M)
    (found : node.next beh = some (state, env)) :
    node.status = .running state ∧ beh.accepts state env.msg = true ∧
      ∃ skipped behind, node.mailbox = skipped ++ env :: behind ∧
        (∀ other ∈ skipped, beh.accepts state other.msg = false) ∧
        (node.mailbox.eraseP fun other => beh.accepts state other.msg) = skipped ++ behind := by
  obtain ⟨status, search⟩ := (next_some beh node state env).mp found
  obtain ⟨accepted, skipped, behind, split, before⟩ := List.find?_eq_some_iff_append.mp search
  have rejected : ∀ other ∈ skipped, beh.accepts state other.msg = false := by
    intro other member
    simpa using before other member
  refine ⟨status, accepted, skipped, behind, split, rejected, ?_⟩
  rw [split, List.eraseP_append_right _ (by simpa using rejected)]
  simp [accepted]

theorem settle_history (self : A) (tag : Nat) (r : Reaction A G M S O) (mailbox : List (Envelope A G M))
    (history : List (Event A G M S D)) : (settle self tag r mailbox history).history = history := by
  unfold settle
  cases r.outcome <;> rfl

theorem settle_not_absent (self : A) (tag : Nat) (r : Reaction A G M S O) (mailbox : List (Envelope A G M))
    (history : List (Event A G M S D)) : (settle self tag r mailbox history).status ≠ .absent := by
  unfold settle
  cases r.outcome <;> simp

theorem settle_not_spawned (self : A) (tag : Nat) (r : Reaction A G M S O) (mailbox : List (Envelope A G M))
    (history : List (Event A G M S D)) (state : S) : (settle self tag r mailbox history).status ≠ .spawned state := by
  unfold settle
  cases r.outcome <;> simp

theorem settle_mailbox (self : A) (tag : Nat) (r : Reaction A G M S O) (mailbox : List (Envelope A G M))
    (history : List (Event A G M S D)) (env : Envelope A G M)
    (member : env ∈ (settle self tag r mailbox history).mailbox) :
    env ∈ mailbox ∨ env ∈ selfSends self tag r.effects := by
  unfold settle at member
  cases outcome : r.outcome <;> simp only [outcome, List.mem_append, List.not_mem_nil] at member
  · exact member
  · exact member

theorem handle_recorded (beh : Behaviour A G M S D O) (self : A) (draw : D) (tag : Nat) (node after : Node A G M S D)
    (taken : node.handle beh self draw tag = some after) : ∃ event, after.history = event :: node.history := by
  obtain ⟨⟨state, env⟩, _, same⟩ := Option.map_eq_some_iff.mp taken
  rw [← same]
  exact ⟨.handled env state draw tag, settle_history self tag _ _ _⟩

theorem arrive_mailbox (env other : Envelope A G M) (node : Node A G M S D)
    (member : other ∈ (node.arrive env).mailbox) : other ∈ node.mailbox ∨ other = env := by
  unfold arrive at member
  split at member
  · exact .inl member
  · exact .inl member
  · simpa using member

theorem arrive_history (env : Envelope A G M) (event : Event A G M S D) (node : Node A G M S D)
    (member : event ∈ (node.arrive env).history) : event ∈ node.history ∨ event = .arrived env := by
  unfold arrive at member
  split at member
  · exact .inl member
  · exact .inl member
  · exact (List.mem_cons.mp member).symm

theorem arrive_cases (env : Envelope A G M) (node : Node A G M S D) :
    ((node.status = .absent ∨ node.status = .exited) ∧ node.arrive env = node) ∨
      (node.status ≠ .absent ∧ node.status ≠ .exited ∧
        node.arrive env = ⟨node.status, node.mailbox ++ [env], .arrived env :: node.history⟩) := by
  unfold arrive
  cases status : node.status with
  | absent => exact .inl ⟨.inl rfl, rfl⟩
  | exited => exact .inl ⟨.inr rfl, rfl⟩
  | spawned state => exact .inr ⟨by simp, by simp, rfl⟩
  | running state => exact .inr ⟨by simp, by simp, rfl⟩
  | hung => exact .inr ⟨by simp, by simp, rfl⟩

theorem arrive_keeps (env : Envelope A G M) (event : Event A G M S D) (node : Node A G M S D)
    (member : event ∈ node.history) : event ∈ (node.arrive env).history := by
  rcases arrive_cases env node with ⟨_, same⟩ | ⟨_, _, same⟩
  · rwa [same]
  · rw [same]
    exact List.mem_cons_of_mem _ member

theorem arrive_status (env : Envelope A G M) (node : Node A G M S D) : (node.arrive env).status = node.status := by
  unfold arrive
  split <;> rfl

end Node

inductive LocalLabel (A G M D : Type) where
  | arrive (env : Envelope A G M)
  | start (draw : D) (tag : Nat)
  | handle (draw : D) (tag : Nat)

def localStep (beh : Behaviour A G M S D O) (self : A) (node : Node A G M S D) :
    LocalLabel A G M D → Option (Node A G M S D)
  | .arrive env => some (node.arrive env)
  | .start draw tag => node.start beh self draw tag
  | .handle draw tag => node.handle beh self draw tag

def localLts (beh : Behaviour A G M S D O) (self : A) (state : S) : Lts (Node A G M S D) (LocalLabel A G M D) :=
  ⟨Node.fresh state, localStep beh self⟩

theorem local_cases (beh : Behaviour A G M S D O) (self : A) (node after : Node A G M S D) (label : LocalLabel A G M D)
    (taken : localStep beh self node label = some after) :
    (∃ env, label = .arrive env ∧ after = node.arrive env) ∨
    (∃ draw tag state, label = .start draw tag ∧ node.status = .spawned state ∧
      after = Node.settle self tag (beh.start self state draw) node.mailbox (.started state draw tag :: node.history)) ∨
    (∃ draw tag state env skipped behind, label = .handle draw tag ∧ node.next beh = some (state, env) ∧
      node.status = .running state ∧ beh.accepts state env.msg = true ∧ node.mailbox = skipped ++ env :: behind ∧
      (∀ other ∈ skipped, beh.accepts state other.msg = false) ∧
      after = Node.settle self tag (beh.react self state draw env.msg) (skipped ++ behind)
        (.handled env state draw tag :: node.history)) := by
  cases label with
  | arrive env => exact .inl ⟨env, rfl, (Option.some.inj taken).symm⟩
  | start draw tag =>
      right; left
      cases status : node.status with
      | spawned state =>
          simp only [localStep, Node.start, status] at taken
          exact ⟨draw, tag, state, rfl, rfl, (Option.some.inj taken).symm⟩
      | absent => simp [localStep, Node.start, status] at taken
      | running state => simp [localStep, Node.start, status] at taken
      | hung => simp [localStep, Node.start, status] at taken
      | exited => simp [localStep, Node.start, status] at taken
  | handle draw tag =>
      right; right
      obtain ⟨⟨state, env⟩, found, same⟩ := Option.map_eq_some_iff.mp taken
      obtain ⟨status, accepted, skipped, behind, split, rejected, erased⟩ := Node.next_split beh node state env found
      refine ⟨draw, tag, state, env, skipped, behind, rfl, found, status, accepted, split, rejected, ?_⟩
      rw [← same, ← erased]

end Actors
