import VsLab.Actors.Transition
import Mathlib.Data.Fintype.Basic
import Mathlib.Data.List.Sublists

set_option autoImplicit false

namespace VsLab.Groups

open Actors

variable {T N A E : Type}

inductive BrokerMsg (N E : Type) where
  | join (node : N)
  | leave (node : N)
  | forward (env : E)
  | other (env : E)
  | down (node : N)
deriving DecidableEq

-- A thread inside send_all_subscribers, with the subscribers it has still to serve; the
-- lock on them is held until there are none.
inductive Serving (A E : Type) where
  | idle
  | serving (env : E) (rest : List A)
deriving DecidableEq

def Serving.locks : Serving A E → Bool
  | .serving _ (_ :: _) => true
  | _ => false

-- local_broker: the handler of _Forward serves the subscribers, send_to_acquaintances
-- the other processes.
inductive Broker (N A E : Type) where
  | idle
  | subscribers (env : E) (rest : List A)
  | acquaintances (env : E) (rest : List N)
deriving DecidableEq

def Broker.locks : Broker N A E → Bool
  | .subscribers _ (_ :: _) => true
  | _ => false

-- A thread inside subscribe or unsubscribe of a proxy, between the change of the set
-- and the message to the broker.
inductive Member where
  | idle
  | joining
  | leaving
deriving DecidableEq

-- A process with a local_group_proxy: what is on its way to the broker, and from it to
-- the mailbox of its proxy_broker. taken is ghost: what the proxy_broker has taken.
structure Remote (T A N E : Type) where
  subscribers : List A
  members : T → Member
  upstream : List (BrokerMsg N E)
  wire : List E
  inbox : List E
  proxy : Serving A E
  connected : Bool
  taken : List E

-- A group, its process and all others. order is what the broker has passed on, joined is
-- how much of it there was at the last JOIN of a process and how much had been sent to it,
-- since is how much a process had taken when an actor subscribed: all ghost, as are
-- received and published.
structure Dissemination (T N A E : Type) where
  subscribers : List A
  publishers : T → Serving A E
  box : List (BrokerMsg N E)
  broker : Broker N A E
  acquaintances : List N
  remote : N → Remote T A N E
  received : A → List E
  published : List E
  order : List E
  joined : N → Nat × Nat
  since : A → Nat

inductive Label (T N A E : Type) where
  | publish (thread : T) (env : E)
  | serve (thread : T)
  | subscribe (actor : A)
  | unsubscribe (actor : A)
  | forward (node : N) (env : E)
  | join (node : N) (thread : T) (actor : A)
  | leave (node : N) (thread : T) (actor : A)
  | tell (node : N) (thread : T)
  | carry (node : N)
  | handle
  | brokerServe
  | arrive (node : N)
  | deliver (node : N)
  | proxyServe (node : N)
  | disconnect (node : N)

def Remote.stream (r : Remote T A N E) : List E := r.taken ++ r.inbox ++ r.wire

section Steps

variable [DecidableEq T] [DecidableEq N] [DecidableEq A] [DecidableEq E]

variable (d : Dissemination T N A E)

def Dissemination.setRemote (n : N) (r : Remote T A N E) : Dissemination T N A E :=
  { d with remote := Function.update d.remote n r }

def Dissemination.receive (a : A) (env : E) : Dissemination T N A E :=
  { d with received := Function.update d.received a (d.received a ++ [env]) }

def Dissemination.publish (t : T) (env : E) : Option (Dissemination T N A E) :=
  if d.publishers t = .idle ∧ env ∉ d.published then
    some { d with
      publishers := Function.update d.publishers t (.serving env d.subscribers), published := env :: d.published }
  else none

def Dissemination.serve (t : T) : Option (Dissemination T N A E) :=
  match d.publishers t with
  | .idle => none
  | .serving env (a :: rest) =>
      some ({ d with publishers := Function.update d.publishers t (.serving env rest) }.receive a env)
  | .serving env [] =>
      some { d with publishers := Function.update d.publishers t .idle, box := d.box ++ [.other env] }

variable [Fintype T]

def Dissemination.unlocked : Prop := (∀ t, (d.publishers t).locks = false) ∧ d.broker.locks = false

instance unlockedDecidable : Decidable d.unlocked := inferInstanceAs (Decidable (_ ∧ _))

def Dissemination.subscribe (host : A → Option N) (a : A) : Option (Dissemination T N A E) :=
  if d.unlocked ∧ host a = none ∧ a ∉ d.subscribers then some { d with subscribers := d.subscribers ++ [a] } else none

def Dissemination.unsubscribe (a : A) : Option (Dissemination T N A E) :=
  if d.unlocked ∧ a ∈ d.subscribers then some { d with subscribers := d.subscribers.erase a } else none

def Dissemination.forward (n : N) (env : E) : Option (Dissemination T N A E) :=
  let r := d.remote n
  if r.connected = true ∧ env ∉ d.published then
    some { d.setRemote n { r with upstream := r.upstream ++ [.forward env] } with published := env :: d.published }
  else none

def Dissemination.join (host : A → Option N) (n : N) (t : T) (a : A) : Option (Dissemination T N A E) :=
  let r := d.remote n
  if r.proxy.locks = false ∧ r.members t = .idle ∧ host a = some n ∧ a ∉ r.subscribers then
    some { d.setRemote n { r with
      subscribers := r.subscribers ++ [a]
      members := if r.subscribers = [] then Function.update r.members t .joining else r.members } with
      since := Function.update d.since a r.taken.length }
  else none

def Dissemination.leave (n : N) (t : T) (a : A) : Option (Dissemination T N A E) :=
  let r := d.remote n
  if r.proxy.locks = false ∧ r.members t = .idle ∧ a ∈ r.subscribers then
    some (d.setRemote n { r with
      subscribers := r.subscribers.erase a
      members := if r.subscribers.erase a = [] then Function.update r.members t .leaving else r.members })
  else none

def Dissemination.tell (n : N) (t : T) : Option (Dissemination T N A E) :=
  let r := d.remote n
  let send (msg : BrokerMsg N E) : Option (Dissemination T N A E) :=
    some (d.setRemote n { r with
      members := Function.update r.members t .idle
      upstream := if r.connected = true then r.upstream ++ [msg] else r.upstream })
  match r.members t with
  | .idle => none
  | .joining => send (.join n)
  | .leaving => send (.leave n)

def Dissemination.carry (n : N) : Option (Dissemination T N A E) :=
  let r := d.remote n
  match r.upstream with
  | [] => none
  | msg :: rest => some { d.setRemote n { r with upstream := rest } with box := d.box ++ [msg] }

-- One message of the broker. A process that is gone is reported as soon as it is
-- monitored.
def Dissemination.handle : Option (Dissemination T N A E) :=
  match d.broker, d.box with
  | .idle, .join n :: rest =>
      if n ∈ d.acquaintances then some { d with box := rest }
      else some { d with
        box := if (d.remote n).connected = true then rest else rest ++ [.down n]
        acquaintances := d.acquaintances ++ [n]
        joined := Function.update d.joined n (d.order.length, (d.remote n).stream.length) }
  | .idle, .leave n :: rest => some { d with box := rest, acquaintances := d.acquaintances.erase n }
  | .idle, .down n :: rest => some { d with box := rest, acquaintances := d.acquaintances.erase n }
  | .idle, .forward env :: rest => some { d with box := rest, broker := .subscribers env d.subscribers }
  | .idle, .other env :: rest =>
      some { d with box := rest, broker := .acquaintances env d.acquaintances, order := d.order ++ [env] }
  | _, _ => none

def Dissemination.brokerServe : Option (Dissemination T N A E) :=
  match d.broker with
  | .idle => none
  | .subscribers env (a :: rest) => some ({ d with broker := .subscribers env rest }.receive a env)
  | .subscribers env [] =>
      some { d with broker := .acquaintances env d.acquaintances, order := d.order ++ [env] }
  | .acquaintances env (n :: rest) =>
      let r := d.remote n
      some { d.setRemote n { r with wire := if r.connected = true then r.wire ++ [env] else r.wire } with
        broker := .acquaintances env rest }
  | .acquaintances _ [] => some { d with broker := .idle }

def Dissemination.arrive (n : N) : Option (Dissemination T N A E) :=
  let r := d.remote n
  match r.wire with
  | [] => none
  | env :: rest => some (d.setRemote n { r with wire := rest, inbox := r.inbox ++ [env] })

def Dissemination.deliver (n : N) : Option (Dissemination T N A E) :=
  let r := d.remote n
  match r.proxy, r.inbox with
  | .idle, env :: rest =>
      some (d.setRemote n { r with inbox := rest, proxy := .serving env r.subscribers, taken := r.taken ++ [env] })
  | _, _ => none

def Dissemination.proxyServe (n : N) : Option (Dissemination T N A E) :=
  let r := d.remote n
  match r.proxy with
  | .idle => none
  | .serving env (a :: rest) => some ((d.setRemote n { r with proxy := .serving env rest }).receive a env)
  | .serving _ [] => some (d.setRemote n { r with proxy := .idle })

def Dissemination.disconnect (n : N) : Option (Dissemination T N A E) :=
  let r := d.remote n
  if r.connected = true then
    some { d.setRemote n { r with connected := false, wire := [], upstream := [] } with
      box := if n ∈ d.acquaintances then d.box ++ [.down n] else d.box }
  else none

def Dissemination.step (host : A → Option N) : Label T N A E → Option (Dissemination T N A E)
  | .publish t env => d.publish t env
  | .serve t => d.serve t
  | .subscribe a => d.subscribe host a
  | .unsubscribe a => d.unsubscribe a
  | .forward n env => d.forward n env
  | .join n t a => d.join host n t a
  | .leave n t a => d.leave n t a
  | .tell n t => d.tell n t
  | .carry n => d.carry n
  | .handle => d.handle
  | .brokerServe => d.brokerServe
  | .arrive n => d.arrive n
  | .deliver n => d.deliver n
  | .proxyServe n => d.proxyServe n
  | .disconnect n => d.disconnect n

end Steps

def vacantRemote : Remote T A N E where
  subscribers := []
  members := fun _ => .idle
  upstream := []
  wire := []
  inbox := []
  proxy := .idle
  connected := true
  taken := []

def vacant : Dissemination T N A E where
  subscribers := []
  publishers := fun _ => .idle
  box := []
  broker := .idle
  acquaintances := []
  remote := fun _ => vacantRemote
  received := fun _ => []
  published := []
  order := []
  joined := fun _ => (0, 0)
  since := fun _ => 0

-- host says in which process an actor lives: none is that of the group.
def groupLts [DecidableEq T] [DecidableEq N] [DecidableEq A] [DecidableEq E] [Fintype T] (host : A → Option N) : Lts (Dissemination T N A E) (Label T N A E) :=
  ⟨vacant, fun d => d.step host⟩

inductive Step [DecidableEq T] [DecidableEq N] [DecidableEq A] (host : A → Option N) (d : Dissemination T N A E) :
    Label T N A E → Dissemination T N A E → Prop where
  | publish (t : T) (env : E) (idle : d.publishers t = .idle) (new : env ∉ d.published) :
      Step host d (.publish t env) { d with
        publishers := Function.update d.publishers t (.serving env d.subscribers), published := env :: d.published }
  | serve (t : T) (env : E) (a : A) (rest : List A) (pc : d.publishers t = .serving env (a :: rest)) :
      Step host d (.serve t) ({ d with publishers := Function.update d.publishers t (.serving env rest) }.receive a env)
  | handOver (t : T) (env : E) (pc : d.publishers t = .serving env []) :
      Step host d (.serve t) { d with publishers := Function.update d.publishers t .idle, box := d.box ++ [.other env] }
  | subscribe (a : A) (here : host a = none) (new : a ∉ d.subscribers) :
      Step host d (.subscribe a) { d with subscribers := d.subscribers ++ [a] }
  | unsubscribe (a : A) : Step host d (.unsubscribe a) { d with subscribers := d.subscribers.erase a }
  | forward (n : N) (env : E) (online : (d.remote n).connected = true) (new : env ∉ d.published) :
      Step host d (.forward n env) { d.setRemote n { d.remote n with upstream := (d.remote n).upstream ++ [.forward env] } with
        published := env :: d.published }
  | join (n : N) (t : T) (a : A) (unlocked : (d.remote n).proxy.locks = false) (idle : (d.remote n).members t = .idle)
      (here : host a = some n) (new : a ∉ (d.remote n).subscribers) :
      Step host d (.join n t a) { d.setRemote n { d.remote n with
        subscribers := (d.remote n).subscribers ++ [a]
        members :=
          if (d.remote n).subscribers = [] then Function.update (d.remote n).members t .joining
          else (d.remote n).members } with
        since := Function.update d.since a (d.remote n).taken.length }
  | leave (n : N) (t : T) (a : A) (unlocked : (d.remote n).proxy.locks = false) (idle : (d.remote n).members t = .idle)
      (there : a ∈ (d.remote n).subscribers) :
      Step host d (.leave n t a) (d.setRemote n { d.remote n with
        subscribers := (d.remote n).subscribers.erase a
        members :=
          if (d.remote n).subscribers.erase a = [] then Function.update (d.remote n).members t .leaving
          else (d.remote n).members })
  | tell (n : N) (t : T) (msg : BrokerMsg N E)
      (pc : (d.remote n).members t = .joining ∧ msg = .join n ∨ (d.remote n).members t = .leaving ∧ msg = .leave n) :
      Step host d (.tell n t) (d.setRemote n { d.remote n with
        members := Function.update (d.remote n).members t .idle
        upstream :=
          if (d.remote n).connected = true then (d.remote n).upstream ++ [msg] else (d.remote n).upstream })
  | carry (n : N) (msg : BrokerMsg N E) (rest : List (BrokerMsg N E)) (coming : (d.remote n).upstream = msg :: rest) :
      Step host d (.carry n) { d.setRemote n { d.remote n with upstream := rest } with box := d.box ++ [msg] }
  | joinedAgain (n : N) (rest : List (BrokerMsg N E)) (idle : d.broker = .idle) (next : d.box = .join n :: rest)
      (known : n ∈ d.acquaintances) : Step host d .handle { d with box := rest }
  | joined (n : N) (rest : List (BrokerMsg N E)) (idle : d.broker = .idle) (next : d.box = .join n :: rest)
      (new : n ∉ d.acquaintances) :
      Step host d .handle { d with
        box := if (d.remote n).connected = true then rest else rest ++ [.down n]
        acquaintances := d.acquaintances ++ [n]
        joined := Function.update d.joined n (d.order.length, (d.remote n).stream.length) }
  | left (n : N) (msg : BrokerMsg N E) (rest : List (BrokerMsg N E)) (idle : d.broker = .idle) (next : d.box = msg :: rest)
      (goes : msg = .leave n ∨ msg = .down n) :
      Step host d .handle { d with box := rest, acquaintances := d.acquaintances.erase n }
  | forwarded (env : E) (rest : List (BrokerMsg N E)) (idle : d.broker = .idle) (next : d.box = .forward env :: rest) :
      Step host d .handle { d with box := rest, broker := .subscribers env d.subscribers }
  | others (env : E) (rest : List (BrokerMsg N E)) (idle : d.broker = .idle) (next : d.box = .other env :: rest) :
      Step host d .handle { d with box := rest, broker := .acquaintances env d.acquaintances, order := d.order ++ [env] }
  | brokerServes (env : E) (a : A) (rest : List A) (pc : d.broker = .subscribers env (a :: rest)) :
      Step host d .brokerServe ({ d with broker := .subscribers env rest }.receive a env)
  | brokerTurns (env : E) (pc : d.broker = .subscribers env []) :
      Step host d .brokerServe { d with broker := .acquaintances env d.acquaintances, order := d.order ++ [env] }
  | brokerSends (env : E) (n : N) (rest : List N) (pc : d.broker = .acquaintances env (n :: rest)) :
      Step host d .brokerServe { d.setRemote n { d.remote n with
        wire := if (d.remote n).connected = true then (d.remote n).wire ++ [env] else (d.remote n).wire } with
        broker := .acquaintances env rest }
  | brokerDone (env : E) (pc : d.broker = .acquaintances env []) : Step host d .brokerServe { d with broker := .idle }
  | arrive (n : N) (env : E) (rest : List E) (coming : (d.remote n).wire = env :: rest) :
      Step host d (.arrive n) (d.setRemote n { d.remote n with wire := rest, inbox := (d.remote n).inbox ++ [env] })
  | deliver (n : N) (env : E) (rest : List E) (idle : (d.remote n).proxy = .idle)
      (next : (d.remote n).inbox = env :: rest) :
      Step host d (.deliver n) (d.setRemote n { d.remote n with
        inbox := rest, proxy := .serving env (d.remote n).subscribers, taken := (d.remote n).taken ++ [env] })
  | proxyServes (n : N) (env : E) (a : A) (rest : List A) (pc : (d.remote n).proxy = .serving env (a :: rest)) :
      Step host d (.proxyServe n) ((d.setRemote n { d.remote n with proxy := .serving env rest }).receive a env)
  | proxyDone (n : N) (env : E) (pc : (d.remote n).proxy = .serving env []) :
      Step host d (.proxyServe n) (d.setRemote n { d.remote n with proxy := .idle })
  | disconnect (n : N) (online : (d.remote n).connected = true) :
      Step host d (.disconnect n) { d.setRemote n { d.remote n with connected := false, wire := [], upstream := [] } with
        box := if n ∈ d.acquaintances then d.box ++ [.down n] else d.box }

section Cases

variable [DecidableEq T] [DecidableEq N] [DecidableEq A]

variable (host : A → Option N) (d after : Dissemination T N A E)

theorem handle_cases (taken : d.handle = some after) : Step host d .handle after := by
  unfold Dissemination.handle at taken
  split at taken
  · next n rest idle next =>
      split at taken
      · next known =>
          cases taken
          exact .joinedAgain n rest idle next known
      · next new =>
          cases taken
          exact .joined n rest idle next new
  · next n rest idle next =>
      cases taken
      exact .left n _ rest idle next (.inl rfl)
  · next n rest idle next =>
      cases taken
      exact .left n _ rest idle next (.inr rfl)
  · next env rest idle next =>
      cases taken
      exact .forwarded env rest idle next
  · next env rest idle next =>
      cases taken
      exact .others env rest idle next
  · cases taken

theorem broker_serve_cases (taken : d.brokerServe = some after) : Step host d .brokerServe after := by
  unfold Dissemination.brokerServe at taken
  split at taken
  · cases taken
  · next env a rest pc =>
      cases taken
      exact .brokerServes env a rest pc
  · next env pc =>
      cases taken
      exact .brokerTurns env pc
  · next env n rest pc =>
      cases taken
      exact .brokerSends env n rest pc
  · next env pc =>
      cases taken
      exact .brokerDone env pc

theorem deliver_cases (n : N) (taken : d.deliver n = some after) : Step host d (.deliver n) after := by
  unfold Dissemination.deliver at taken
  simp only at taken
  split at taken
  · next env rest idle next =>
      cases taken
      exact .deliver n env rest idle next
  · cases taken

theorem proxy_serve_cases (n : N) (taken : d.proxyServe n = some after) : Step host d (.proxyServe n) after := by
  unfold Dissemination.proxyServe at taken
  simp only at taken
  split at taken
  · cases taken
  · next env a rest pc =>
      cases taken
      exact .proxyServes n env a rest pc
  · next env pc =>
      cases taken
      exact .proxyDone n env pc

theorem tell_cases (n : N) (t : T) (taken : d.tell n t = some after) : Step host d (.tell n t) after := by
  unfold Dissemination.tell at taken
  simp only at taken
  split at taken
  · cases taken
  · next pc =>
      cases taken
      exact .tell n t _ (.inl ⟨pc, rfl⟩)
  · next pc =>
      cases taken
      exact .tell n t _ (.inr ⟨pc, rfl⟩)

theorem serve_cases (t : T) (taken : d.serve t = some after) : Step host d (.serve t) after := by
  unfold Dissemination.serve at taken
  split at taken
  · cases taken
  · next env a rest pc =>
      cases taken
      exact .serve t env a rest pc
  · next env pc =>
      cases taken
      exact .handOver t env pc

theorem step_cases [DecidableEq E] [Fintype T]
    (label : Label T N A E) (taken : d.step host label = some after) : Step host d label after := by
  cases label with
  | publish t env =>
      simp only [Dissemination.step, Dissemination.publish] at taken
      split at taken
      · next guard =>
          cases taken
          exact .publish t env guard.1 guard.2
      · cases taken
  | serve t => exact serve_cases host d after t taken
  | subscribe a =>
      simp only [Dissemination.step, Dissemination.subscribe] at taken
      split at taken
      · next guard =>
          cases taken
          exact .subscribe a guard.2.1 guard.2.2
      · cases taken
  | unsubscribe a =>
      simp only [Dissemination.step, Dissemination.unsubscribe] at taken
      split at taken
      · cases taken
        exact .unsubscribe a
      · cases taken
  | forward n env =>
      simp only [Dissemination.step, Dissemination.forward] at taken
      split at taken
      · next guard =>
          cases taken
          exact .forward n env guard.1 guard.2
      · cases taken
  | join n t a =>
      simp only [Dissemination.step, Dissemination.join] at taken
      split at taken
      · next guard =>
          cases taken
          exact .join n t a guard.1 guard.2.1 guard.2.2.1 guard.2.2.2
      · cases taken
  | leave n t a =>
      simp only [Dissemination.step, Dissemination.leave] at taken
      split at taken
      · next guard =>
          cases taken
          exact .leave n t a guard.1 guard.2.1 guard.2.2
      · cases taken
  | tell n t => exact tell_cases host d after n t taken
  | carry n =>
      simp only [Dissemination.step, Dissemination.carry] at taken
      split at taken
      · cases taken
      · next msg rest coming =>
          cases taken
          exact .carry n msg rest coming
  | handle => exact handle_cases host d after taken
  | brokerServe => exact broker_serve_cases host d after taken
  | arrive n =>
      simp only [Dissemination.step, Dissemination.arrive] at taken
      split at taken
      · cases taken
      · next env rest coming =>
          cases taken
          exact .arrive n env rest coming
  | deliver n => exact deliver_cases host d after n taken
  | proxyServe n => exact proxy_serve_cases host d after n taken
  | disconnect n =>
      simp only [Dissemination.step, Dissemination.disconnect] at taken
      split at taken
      · next online =>
          cases taken
          exact .disconnect n online
      · cases taken

end Cases

end VsLab.Groups
