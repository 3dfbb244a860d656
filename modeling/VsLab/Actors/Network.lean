import VsLab.Actors.Node
import Mathlib.Logic.Function.Basic
import Mathlib.Data.List.Nodup
import Mathlib.Data.List.Perm.Subperm

set_option autoImplicit false

namespace Actors

-- A published message is first posted; the group's broker dispatches it to those
-- subscribed at that moment, the sender included, and each copy arrives on its
-- own. Any posted message may be dispatched and any copy may arrive next, so no
-- order between senders or receivers is assumed. sent and clock are ghost.
structure Net (A G M S D : Type) where
  node : A → Node A G M S D
  subs : G → List A
  posted : List (Envelope A G M)
  transit : List (A × Envelope A G M)
  sent : List (Envelope A G M)
  clock : Nat

inductive Label (A D : Type) where
  | start (actor : A) (draw : D)
  | dispatch (index : Nat)
  | arrive (index : Nat)
  | handle (actor : A) (draw : D)

variable {A G M S D O : Type}

namespace Net

section Steps

variable [DecidableEq A] [DecidableEq G]

def post (net : Net A G M S D) (env : Envelope A G M) : Net A G M S D :=
  { net with posted := net.posted ++ [env], sent := net.sent ++ [env] }

def subscribe (net : Net A G M S D) (grp : G) (actor : A) : Net A G M S D :=
  { net with subs := Function.update net.subs grp ((net.subs grp).insert actor) }

def leave (net : Net A G M S D) (actor : A) : Net A G M S D :=
  { net with subs := fun grp => (net.subs grp).filter fun other => decide (other ≠ actor) }

def create (net : Net A G M S D) (child : A) (state : S) : Net A G M S D :=
  match (net.node child).status with
  | .absent =>
      { net with node := Function.update net.node child { net.node child with status := .spawned state } }
  | _ => net

def apply (self : A) (tag : Nat) (net : Net A G M S D) : Effect A G M S O → Net A G M S D
  | .send _ => net
  | .publish grp msg => net.post ⟨self, some grp, tag, msg⟩
  | .join grp => net.subscribe grp self
  | .spawn child state grp => (net.create child state).subscribe grp child
  | .print _ => net

def settle (net : Net A G M S D) (self : A) (tag : Nat) (r : Reaction A G M S O) (mailbox : List (Envelope A G M))
    (event : Event A G M S D) : Net A G M S D :=
  let settled := Node.settle self tag r mailbox (event :: (net.node self).history)
  { net with node := Function.update net.node self settled, clock := net.clock + 1 }

def act (net : Net A G M S D) (self : A) (tag : Nat) (r : Reaction A G M S O) (mailbox : List (Envelope A G M))
    (event : Event A G M S D) : Net A G M S D :=
  let after := r.effects.foldl (apply self tag) (net.settle self tag r mailbox event)
  match r.outcome with
  | .quit => after.leave self
  | .raise => after.leave self
  | _ => after

def receivers (net : Net A G M S D) (env : Envelope A G M) : List A :=
  match env.via with
  | none => []
  | some grp => net.subs grp

def dispatch (net : Net A G M S D) (index : Nat) (env : Envelope A G M) : Net A G M S D :=
  { net with
    posted := net.posted.eraseIdx index
    transit := net.transit ++ (net.receivers env).map fun actor => (actor, env) }

def arrive (net : Net A G M S D) (index : Nat) (actor : A) (env : Envelope A G M) : Net A G M S D :=
  { net with
    transit := net.transit.eraseIdx index
    node := Function.update net.node actor ((net.node actor).arrive env) }

def tagFor (beh : Behaviour A G M S D O) (net : Net A G M S D) (self : A) (env : Envelope A G M) : Nat :=
  if beh.relays self then env.tag else net.clock

def step (beh : Behaviour A G M S D O) (net : Net A G M S D) : Label A D → Option (Net A G M S D)
  | .start self draw =>
      match (net.node self).status with
      | .spawned state => some (net.act self net.clock (beh.start self state draw) (net.node self).mailbox
          (.started state draw net.clock))
      | _ => none
  | .dispatch index => (net.posted[index]?).map fun env => net.dispatch index env
  | .arrive index => (net.transit[index]?).map fun (actor, env) => net.arrive index actor env
  | .handle self draw =>
      ((net.node self).next beh).map fun (state, env) =>
        net.act self (net.tagFor beh self env) (beh.react self state draw env.msg)
          ((net.node self).mailbox.eraseP fun env => beh.accepts state env.msg)
          (.handled env state draw (net.tagFor beh self env))

theorem step_cases (beh : Behaviour A G M S D O) (net after : Net A G M S D) (label : Label A D)
    (taken : net.step beh label = some after) :
    (∃ self draw state, label = .start self draw ∧ (net.node self).status = .spawned state ∧
      after = net.act self net.clock (beh.start self state draw) (net.node self).mailbox
        (.started state draw net.clock)) ∨
    (∃ index env, label = .dispatch index ∧ net.posted[index]? = some env ∧ after = net.dispatch index env) ∨
    (∃ index actor env, label = .arrive index ∧ net.transit[index]? = some (actor, env) ∧
      after = net.arrive index actor env) ∨
    (∃ self draw state env, label = .handle self draw ∧ (net.node self).next beh = some (state, env) ∧
      after = net.act self (net.tagFor beh self env) (beh.react self state draw env.msg)
        ((net.node self).mailbox.eraseP fun env => beh.accepts state env.msg)
        (.handled env state draw (net.tagFor beh self env))) := by
  cases label with
  | start self draw =>
      left
      cases status : (net.node self).status with
      | spawned state =>
          simp only [step, status] at taken
          exact ⟨self, draw, state, rfl, status, (Option.some.inj taken).symm⟩
      | absent => simp [step, status] at taken
      | running state => simp [step, status] at taken
      | hung => simp [step, status] at taken
      | exited => simp [step, status] at taken
  | dispatch index =>
      obtain ⟨env, found, same⟩ := Option.map_eq_some_iff.mp taken
      exact .inr (.inl ⟨index, env, rfl, found, same.symm⟩)
  | arrive index =>
      obtain ⟨⟨actor, env⟩, found, same⟩ := Option.map_eq_some_iff.mp taken
      exact .inr (.inr (.inl ⟨index, actor, env, rfl, found, same.symm⟩))
  | handle self draw =>
      obtain ⟨⟨state, env⟩, found, same⟩ := Option.map_eq_some_iff.mp taken
      exact .inr (.inr (.inr ⟨self, draw, state, env, rfl, found, same.symm⟩))

end Steps

section Fields

variable [DecidableEq A]

variable (self : A) (tag : Nat)

@[simp] theorem create_fields (net : Net A G M S D) (child : A) (state : S) :
    (net.create child state).posted = net.posted ∧ (net.create child state).sent = net.sent ∧
      (net.create child state).transit = net.transit ∧ (net.create child state).clock = net.clock ∧
      (net.create child state).subs = net.subs := by
  unfold create
  split <;> exact ⟨rfl, rfl, rfl, rfl, rfl⟩

theorem apply_posted [DecidableEq G] (net : Net A G M S D) (effect : Effect A G M S O) :
    (net.apply self tag effect).posted = net.posted ++ published self tag [effect] ∧
      (net.apply self tag effect).sent = net.sent ++ published self tag [effect] := by
  cases effect <;> simp [apply, post, subscribe, published]

theorem apply_untouched [DecidableEq G] (net : Net A G M S D) (effect : Effect A G M S O) :
    (net.apply self tag effect).transit = net.transit ∧ (net.apply self tag effect).clock = net.clock := by
  cases effect <;> simp [apply, post, subscribe]

theorem effects_posted [DecidableEq G] (effects : List (Effect A G M S O)) (net : Net A G M S D) :
    (effects.foldl (apply self tag) net).posted = net.posted ++ published self tag effects ∧
      (effects.foldl (apply self tag) net).sent = net.sent ++ published self tag effects := by
  induction effects generalizing net with
  | nil => simp [published]
  | cons effect rest ih =>
      obtain ⟨posted, sent⟩ := apply_posted self tag net effect
      have split : published self tag (effect :: rest) =
          published (G := G) self tag [effect] ++ published self tag rest :=
        List.filterMap_append (l := [effect])
      rw [List.foldl_cons, (ih _).1, (ih _).2, posted, sent, split, List.append_assoc, List.append_assoc]
      exact ⟨rfl, rfl⟩

theorem effects_untouched [DecidableEq G] (effects : List (Effect A G M S O)) (net : Net A G M S D) :
    (effects.foldl (apply self tag) net).transit = net.transit ∧
      (effects.foldl (apply self tag) net).clock = net.clock := by
  induction effects generalizing net with
  | nil => exact ⟨rfl, rfl⟩
  | cons effect rest ih =>
      obtain ⟨transit, clock⟩ := apply_untouched self tag net effect
      exact ⟨(ih _).1.trans transit, (ih _).2.trans clock⟩

end Fields

def Born (effects : List (Effect A G M S O)) (actor : A) (old new : Node A G M S D) : Prop :=
  new = old ∨ (old.status = .absent ∧
    ∃ state grp, .spawn actor state grp ∈ effects ∧ new = { old with status := .spawned state })

theorem born_weaken (few many : List (Effect A G M S O)) (actor : A) (old new : Node A G M S D)
    (sub : ∀ effect ∈ few, effect ∈ many) (born : Born few actor old new) : Born many actor old new := by
  rcases born with same | ⟨absent, state, grp, member, created⟩
  · exact .inl same
  · exact .inr ⟨absent, state, grp, sub _ member, created⟩

section Act

variable [DecidableEq A] [DecidableEq G]

theorem apply_node (self : A) (tag : Nat) (net : Net A G M S D) (effect : Effect A G M S O) (actor : A) :
    (net.apply self tag effect).node actor = net.node actor ∨
      ((net.node actor).status = .absent ∧ ∃ state grp, effect = .spawn actor state grp ∧
        (net.apply self tag effect).node actor = { net.node actor with status := .spawned state }) := by
  cases effect with
  | send msg => exact .inl rfl
  | publish grp msg => exact .inl rfl
  | join grp => exact .inl rfl
  | print out => exact .inl rfl
  | spawn child state grp =>
      by_cases same : actor = child
      · subst same
        cases status : (net.node actor).status with
        | absent =>
            refine .inr ⟨rfl, state, grp, rfl, ?_⟩
            simp only [apply, subscribe, create, status, Function.update_self]
        | spawned other => left; simp only [apply, subscribe, create, status]
        | running other => left; simp only [apply, subscribe, create, status]
        | hung => left; simp only [apply, subscribe, create, status]
        | exited => left; simp only [apply, subscribe, create, status]
      · left
        simp only [apply, subscribe, create]
        split
        · exact Function.update_of_ne same _ _
        · rfl

theorem effects_node (self : A) (tag : Nat) (effects : List (Effect A G M S O)) (net : Net A G M S D) (actor : A) :
    Born effects actor (net.node actor) ((effects.foldl (apply self tag) net).node actor) := by
  induction effects generalizing net with
  | nil => exact .inl rfl
  | cons effect rest ih =>
      have later := ih (net.apply self tag effect)
      rw [List.foldl_cons]
      rcases apply_node self tag net effect actor with same | ⟨absent, state, grp, isSpawn, created⟩
      · rw [same] at later
        exact born_weaken rest (effect :: rest) actor _ _ (fun _ member => by simp [member]) later
      · have settled : (rest.foldl (apply self tag) (net.apply self tag effect)).node actor =
            (net.apply self tag effect).node actor := by
          rcases later with same | ⟨stillAbsent, _⟩
          · exact same
          · rw [created] at stillAbsent
            cases stillAbsent
        exact .inr ⟨absent, state, grp, by simp [isSpawn], settled.trans created⟩

theorem act_node (net : Net A G M S D) (self : A) (tag : Nat) (r : Reaction A G M S O)
    (mailbox : List (Envelope A G M)) (event : Event A G M S D) (actor : A) :
    Born r.effects actor ((net.settle self tag r mailbox event).node actor)
      ((net.act self tag r mailbox event).node actor) := by
  have born := effects_node self tag r.effects (net.settle self tag r mailbox event) actor
  unfold act
  cases r.outcome <;> exact born

theorem act_fields (net : Net A G M S D) (self : A) (tag : Nat) (r : Reaction A G M S O)
    (mailbox : List (Envelope A G M)) (event : Event A G M S D) :
    let after := r.effects.foldl (apply self tag) (net.settle self tag r mailbox event)
    (net.act self tag r mailbox event).posted = after.posted ∧ (net.act self tag r mailbox event).sent = after.sent ∧
      (net.act self tag r mailbox event).transit = after.transit ∧
      (net.act self tag r mailbox event).clock = after.clock := by
  unfold act
  cases r.outcome <;> exact ⟨rfl, rfl, rfl, rfl⟩

theorem act_node_self (net : Net A G M S D) (self : A) (tag : Nat) (r : Reaction A G M S O)
    (mailbox : List (Envelope A G M)) (event : Event A G M S D) :
    (net.act self tag r mailbox event).node self =
      Node.settle self tag r mailbox (event :: (net.node self).history) := by
  have outcome := act_node net self tag r mailbox event self
  simp only [settle, Function.update_self] at outcome
  rcases outcome with same | ⟨absent, _⟩
  · exact same
  · exact absurd absent (Node.settle_not_absent self tag r mailbox _)

theorem act_node_other (net : Net A G M S D) (self : A) (tag : Nat) (r : Reaction A G M S O)
    (mailbox : List (Envelope A G M)) (event : Event A G M S D) (actor : A) (different : actor ≠ self) :
    Born r.effects actor (net.node actor) ((net.act self tag r mailbox event).node actor) := by
  have outcome := act_node net self tag r mailbox event actor
  simpa only [settle, Function.update_of_ne different] using outcome

theorem act_node_other_kept (net : Net A G M S D) (self : A) (tag : Nat) (r : Reaction A G M S O)
    (mailbox : List (Envelope A G M)) (event : Event A G M S D) (actor : A) (different : actor ≠ self) :
    ((net.act self tag r mailbox event).node actor).mailbox = (net.node actor).mailbox ∧
      ((net.act self tag r mailbox event).node actor).history = (net.node actor).history := by
  rcases act_node_other net self tag r mailbox event actor different with same | ⟨_, _, _, _, created⟩
  · rw [same]
    exact ⟨rfl, rfl⟩
  · rw [created]
    exact ⟨rfl, rfl⟩

@[simp] theorem act_posted (net : Net A G M S D) (self : A) (tag : Nat) (r : Reaction A G M S O)
    (mailbox : List (Envelope A G M)) (event : Event A G M S D) :
    (net.act self tag r mailbox event).posted = net.posted ++ published self tag r.effects := by
  rw [(act_fields net self tag r mailbox event).1, (effects_posted self tag r.effects _).1]
  rfl

@[simp] theorem act_sent (net : Net A G M S D) (self : A) (tag : Nat) (r : Reaction A G M S O)
    (mailbox : List (Envelope A G M)) (event : Event A G M S D) :
    (net.act self tag r mailbox event).sent = net.sent ++ published self tag r.effects := by
  rw [(act_fields net self tag r mailbox event).2.1, (effects_posted self tag r.effects _).2]
  rfl

@[simp] theorem act_transit (net : Net A G M S D) (self : A) (tag : Nat) (r : Reaction A G M S O)
    (mailbox : List (Envelope A G M)) (event : Event A G M S D) :
    (net.act self tag r mailbox event).transit = net.transit := by
  rw [(act_fields net self tag r mailbox event).2.2.1, (effects_untouched self tag r.effects _).1]
  rfl

@[simp] theorem act_clock (net : Net A G M S D) (self : A) (tag : Nat) (r : Reaction A G M S O)
    (mailbox : List (Envelope A G M)) (event : Event A G M S D) :
    (net.act self tag r mailbox event).clock = net.clock + 1 := by
  rw [(act_fields net self tag r mailbox event).2.2.2, (effects_untouched self tag r.effects _).2]
  rfl

end Act

def Distinct (net : Net A G M S D) : Prop := ∀ grp, (net.subs grp).Nodup

section Distinct

variable [DecidableEq A] [DecidableEq G]

theorem subscribe_distinct (net : Net A G M S D) (grp : G) (actor : A) (distinct : net.Distinct) :
    (net.subscribe grp actor).Distinct := by
  intro other
  by_cases same : other = grp
  · subst same
    simpa only [subscribe, Function.update_self] using (distinct other).insert
  · simpa only [subscribe, Function.update_of_ne same] using distinct other

omit [DecidableEq G] in
theorem leave_distinct (net : Net A G M S D) (actor : A) (distinct : net.Distinct) :
    (net.leave actor).Distinct := fun grp => (distinct grp).filter _

theorem apply_distinct (self : A) (tag : Nat) (net : Net A G M S D) (effect : Effect A G M S O)
    (distinct : net.Distinct) : (net.apply self tag effect).Distinct := by
  cases effect with
  | send msg => exact distinct
  | publish grp msg => exact distinct
  | join grp => exact subscribe_distinct net grp self distinct
  | spawn child state grp =>
      refine subscribe_distinct _ grp child ?_
      intro other
      rw [(create_fields net child state).2.2.2.2]
      exact distinct other
  | print out => exact distinct

theorem effects_distinct (self : A) (tag : Nat) (effects : List (Effect A G M S O)) (net : Net A G M S D)
    (distinct : net.Distinct) : (effects.foldl (apply self tag) net).Distinct := by
  induction effects generalizing net with
  | nil => exact distinct
  | cons effect rest ih => exact ih _ (apply_distinct self tag net effect distinct)

theorem act_distinct (net : Net A G M S D) (self : A) (tag : Nat) (r : Reaction A G M S O)
    (mailbox : List (Envelope A G M)) (event : Event A G M S D) (distinct : net.Distinct) :
    (net.act self tag r mailbox event).Distinct := by
  have after := effects_distinct self tag r.effects (net.settle self tag r mailbox event) distinct
  unfold act
  cases r.outcome with
  | become state => exact after
  | hang => exact after
  | quit => exact leave_distinct _ self after
  | raise => exact leave_distinct _ self after

end Distinct

end Net

def networkLts [DecidableEq A] [DecidableEq G] (beh : Behaviour A G M S D O) (init : Net A G M S D) : Lts (Net A G M S D) (Label A D) :=
  ⟨init, Net.step beh⟩

end Actors
