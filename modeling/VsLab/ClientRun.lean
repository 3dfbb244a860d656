import VsLab.FactorSoundness
import Mathlib.Algebra.BigOperators.Group.List.Basic
import Mathlib.Tactic.Ring
import Mathlib.Tactic.Linarith

set_option autoImplicit false

namespace VsLab

open Actors

def entriesOf (effects : List Doing) : List Int :=
  (printed effects).filterMap fun
    | .entry p => some p.val
    | _ => none

def factorList (self : Address) (history : List Past) : List Int :=
  history.flatMap fun event => entriesOf (event.effects behaviour self)

def factorsHandled (history : List Past) : Nat := history.countP (Event.isHandled fun env => isFactor env.msg)

def remaining (node : Box) : Option Int512 :=
  match node.status with
  | .spawned (.client st) => some st.n
  | .running (.client st) => some st.n
  | _ => none

@[simp] theorem entries_append (first second : List Doing) :
    entriesOf (first ++ second) = entriesOf first ++ entriesOf second := by
  simp [entriesOf]

@[simp] theorem entries_prints (count : Nat) (p : Int512) :
    entriesOf (List.replicate count (.print (.entry p))) = List.replicate count p.val := by
  simp [entriesOf]

@[simp] theorem entries_send_to (server : Option Group) (msg : Msg) : entriesOf (sendTo server msg) = [] := by
  cases server <;> rfl

def clientLts (actor : Address) (args : ClientArgs) : Lts Box (LocalLabel Address Group Msg Draw) :=
  localLts behaviour actor (.client (typedState args))

def factorOf : Msg → Option Int512
  | .factor p _ _ => some p
  | _ => none

def handlesFactor (event : Past) : Bool := Event.isHandled (fun env => isFactor env.msg) event

def FactorArrival (_ : Box) : LocalLabel Address Group Msg Draw → Prop
  | .arrive env => ∀ p ∈ factorOf env.msg, 2 ≤ p.val
  | _ => True

instance (node : Box) (label : LocalLabel Address Group Msg Draw) : Decidable (FactorArrival node label) :=
  match label with
  | .arrive env => inferInstanceAs (Decidable (∀ p ∈ factorOf env.msg, 2 ≤ p.val))
  | .start _ _ => inferInstanceAs (Decidable True)
  | .handle _ _ => inferInstanceAs (Decidable True)

theorem client_alone (clients : List ClientArgs) (managers : List ManagerArgs) (allowed : Cluster → Move → Prop)
    (index : Nat) (args : ClientArgs) (typed : clients[index]? = some args) (net : Cluster)
    (reached : (system clients managers).Reach allowed net) :
    (clientLts (.client index) args).Reach FactorArrival (net.node (.client index)) := by
  refine reach_present behaviour (initial clients managers) allowed (.client index) _ FactorArrival ?_ ?_
    (fun _ _ _ _ => trivial) (fun _ _ _ _ _ => trivial) net reached
  · simp only [initial, typed, Option.elim_some]
    rfl
  · intro before env earlier coming p found
    have origin := (system_origin clients managers allowed before earlier).transit _ env coming
    cases isFactor : env.msg <;> rw [isFactor] at found <;> cases found
    rw [MailOrigin, isFactor] at origin
    exact origin.1

structure ClientNode (node : Box) : Prop where
  role : ∀ state, node.status = .spawned state ∨ node.status = .running state → ∃ st, state = .client st
  mail : ∀ env ∈ node.mailbox, ∀ p cycles cpuTime, env.msg = .factor p cycles cpuTime → 2 ≤ p.val

theorem client_sends_none (actor : Address) (tag : Nat) (st : ClientState) (draw : Draw) (msg : Msg) :
    selfSends actor tag (Client.react st draw msg).effects = [] := by
  have group : ∀ (server : Option Group) (other : Msg), selfSends actor tag (sendTo server other) = [] := by
    intro server other
    cases server <;> rfl
  have prints : ∀ (count : Nat) (p : Int512) (rest : List Doing), selfSends actor tag rest = [] →
      selfSends actor tag (List.replicate count (.print (.entry p)) ++ rest) = [] := by
    intro count p rest others
    rw [selfSends, List.filterMap_append]
    simpa [selfSends] using others
  have turn := Client.react_turn st draw msg
  generalize Client.react st draw msg = r at turn ⊢
  cases turn with
  | ignored _ other => rfl
  | left => rfl
  | pinged => exact group _ _
  | waited cpuTime => rfl
  | divided p cycles cpuTime =>
      simp only [Client.factor]
      split
      · rfl
      · rfl
      · split
        · simpa using prints _ p [] rfl
        · split
          · exact prints _ p _ rfl
          · exact prints _ p _ (group _ _)

theorem start_client (actor : Address) (tag : Nat) (st : ClientState) (draw : Draw) :
    selfSends actor tag (Client.start st draw).effects = [] ∧
      ((Client.start st draw).outcome = .quit ∨
        (Client.start st draw).outcome = .become (.client { st with server := some .server })) := by
  unfold Client.start
  split
  · exact ⟨rfl, .inl rfl⟩
  · next newServ answered =>
      cases remote_group_server draw _ newServ answered
      exact ⟨rfl, .inr rfl⟩

theorem react_client (st : ClientState) (draw : Draw) (msg : Msg) (state : ActorState)
    (becomes : (Client.react st draw msg).outcome = .become state) : ∃ later, state = .client later := by
  have turn := Client.react_turn st draw msg
  generalize Client.react st draw msg = r at turn becomes
  cases turn with
  | ignored _ other => exact ⟨st, by cases becomes; rfl⟩
  | left => cases becomes
  | pinged => exact ⟨st, by cases becomes; rfl⟩
  | waited cpuTime => exact ⟨_, by cases becomes; rfl⟩
  | divided p cycles cpuTime =>
      simp only [Client.factor] at becomes
      split at becomes
      · cases becomes
      · cases becomes
      · split at becomes
        · cases becomes
        · split at becomes
          · exact ⟨st, by cases becomes; rfl⟩
          · exact ⟨_, by cases becomes; rfl⟩

theorem settle_client (actor : Address) (tag : Nat) (r : Step) (mailbox : List Mail) (history : List Past)
    (silent : selfSends actor tag r.effects = [])
    (role : ∀ state, r.outcome = .become state → ∃ st, state = .client st)
    (mail : ∀ env ∈ mailbox, ∀ p cycles cpuTime, env.msg = .factor p cycles cpuTime → 2 ≤ p.val) :
    ClientNode (Node.settle actor tag r mailbox history) := by
  refine ⟨?_, ?_⟩
  · intro state installed
    cases outcome : r.outcome with
    | become later =>
        have same : later = state := by simpa [Node.settle, outcome] using installed
        exact role state (by rw [outcome, same])
    | quit => simp [Node.settle, outcome] at installed
    | raise => simp [Node.settle, outcome] at installed
    | hang => simp [Node.settle, outcome] at installed
  · intro env member
    rcases Node.settle_mailbox actor tag r mailbox history env member with old | new
    · exact mail env old
    · rw [silent] at new
      cases new

theorem reach_client (actor : Address) (args : ClientArgs) (inv : Box → Prop)
    (initial : inv (Node.fresh (.client (typedState args))))
    (arrives : ∀ node env, inv node → inv (node.arrive env))
    (starts : ∀ node st draw tag, inv node → node.status = .spawned (.client st) →
      inv (Node.settle actor tag (Client.start st draw) node.mailbox (.started (.client st) draw tag :: node.history)))
    (handles : ∀ node st draw tag env mailbox, inv node → node.status = .running (.client st) →
      (∀ p cycles cpuTime, env.msg = .factor p cycles cpuTime → 2 ≤ p.val) →
      inv (Node.settle actor tag (Client.react st draw env.msg) mailbox
        (.handled env (.client st) draw tag :: node.history)))
    (node : Box) (reached : (clientLts actor args).Reach FactorArrival node) : inv node := by
  suffices both : ClientNode node ∧ inv node from both.2
  refine (clientLts actor args).reach_invariant FactorArrival (fun node => ClientNode node ∧ inv node) ?_ ?_ node reached
  · refine ⟨⟨?_, by simp [clientLts, localLts, Node.fresh]⟩, initial⟩
    rintro state (spawned | running)
    · cases spawned
      exact ⟨_, rfl⟩
    · cases running
  · intro before label after _ holds allow taken
    obtain ⟨shape, holds⟩ := holds
    rcases local_cases behaviour actor before after label taken with
      ⟨env, rfl, rfl⟩ | ⟨draw, tag, state, rfl, status, rfl⟩ |
      ⟨draw, tag, state, env, skipped, behind, rfl, _, status, _, split, _, rfl⟩
    · refine ⟨⟨?_, ?_⟩, arrives before env holds⟩
      · intro state installed
        rw [Node.arrive_status] at installed
        exact shape.role state installed
      · intro other member
        rcases Node.arrive_mailbox env other before member with old | rfl
        · exact shape.mail other old
        · exact fun p cycles cpuTime isFactor => allow p (by rw [isFactor]; rfl)
    · obtain ⟨st, rfl⟩ := shape.role state (.inl status)
      obtain ⟨silent, outcome⟩ := start_client actor tag st draw
      refine ⟨settle_client actor tag _ _ _ silent ?_ shape.mail, starts before st draw tag holds status⟩
      intro later becomes
      rcases outcome with quits | connects
      · cases quits.symm.trans becomes
      · cases connects.symm.trans becomes
        exact ⟨_, rfl⟩
    · obtain ⟨st, rfl⟩ := shape.role state (.inr status)
      have own : ∀ p cycles cpuTime, env.msg = .factor p cycles cpuTime → 2 ≤ p.val := shape.mail env (by simp [split])
      refine ⟨settle_client actor tag _ _ _ (client_sends_none actor tag st draw env.msg)
        (react_client st draw env.msg) ?_, handles before st draw tag env _ holds status own⟩
      intro other member
      refine shape.mail other ?_
      rw [split]
      rcases List.mem_append.mp member with before | later
      · simp [before]
      · simp [later]

theorem settle_remaining (actor : Address) (tag : Nat) (r : Step) (mailbox : List Mail) (history : List Past)
    (n : Int512) (left : remaining (Node.settle actor tag r mailbox history) = some n) :
    ∃ st, r.outcome = .become (.client st) ∧ st.n = n := by
  cases outcome : r.outcome with
  | become state =>
      cases state with
      | client st => exact ⟨st, rfl, by simpa [Node.settle, outcome, remaining] using left⟩
      | manager st => simp [Node.settle, outcome, remaining] at left
      | worker st => simp [Node.settle, outcome, remaining] at left
  | quit => simp [Node.settle, outcome, remaining] at left
  | raise => simp [Node.settle, outcome, remaining] at left
  | hang => simp [Node.settle, outcome, remaining] at left

theorem factor_shape (msg : Msg) (asked : isFactor msg = true) : ∃ p cycles cpuTime, msg = .factor p cycles cpuTime := by
  cases msg with
  | factor p cycles cpuTime => exact ⟨p, cycles, cpuTime, rfl⟩
  | _ => cases asked

section Account

def requestsOf (effects : List Doing) : List Int512 :=
  effects.filterMap fun
    | .publish _ (.calculate n) => some n
    | _ => none

def reportsOf (effects : List Doing) : Bool :=
  (printed effects).any fun
    | .report _ _ => true
    | _ => false

def divisions (p n : Int512) : Nat :=
  match Client.divideOut p Client.divisionFuel n 0 with
  | .done _ times => times
  | _ => 0

@[simp] theorem requests_append (first second : List Doing) :
    requestsOf (first ++ second) = requestsOf first ++ requestsOf second := List.filterMap_append

@[simp] theorem requests_prints (count : Nat) (out : Output) :
    requestsOf (List.replicate count (.print out)) = [] := by
  simp [requestsOf]

@[simp] theorem reports_append (first second : List Doing) :
    reportsOf (first ++ second) = (reportsOf first || reportsOf second) := by
  simp [reportsOf]

@[simp] theorem reports_entries (count : Nat) (p : Int512) :
    reportsOf (List.replicate count (.print (.entry p))) = false := by
  simp [reportsOf]

@[simp] theorem reports_send_to (server : Option Group) (msg : Msg) : reportsOf (sendTo server msg) = false := by
  cases server <;> rfl

theorem requests_send_to (server : Option Group) (n : Int512) :
    requestsOf (sendTo server (.calculate n)) = (server.map fun _ => n).toList := by
  cases server <;> rfl

theorem client_quiet (st : ClientState) (draw : Draw) (msg : Msg) (other : isFactor msg = false) :
    entriesOf (Client.react st draw msg).effects = [] ∧ reportsOf (Client.react st draw msg).effects = false ∧
      requestsOf (Client.react st draw msg).effects = [] ∧
      ∀ later, (Client.react st draw msg).outcome = .become (.client later) →
        later.n = st.n ∧ later.server = st.server ∧ later.cycles = st.cycles := by
  have turn := Client.react_turn st draw msg
  generalize Client.react st draw msg = r at turn ⊢
  cases turn with
  | ignored _ rejected => exact ⟨rfl, rfl, rfl, fun later becomes => by cases becomes; exact ⟨rfl, rfl, rfl⟩⟩
  | left => exact ⟨rfl, rfl, rfl, fun later becomes => by cases becomes⟩
  | pinged =>
      refine ⟨entries_send_to _ _, reports_send_to _ _, ?_, fun later becomes => by cases becomes; exact ⟨rfl, rfl, rfl⟩⟩
      cases st.server <;> rfl
  | waited cpuTime => exact ⟨rfl, rfl, rfl, fun later becomes => by cases becomes; exact ⟨rfl, rfl, rfl⟩⟩
  | divided p cycles cpuTime => cases other

-- A factor is printed once more than it divides; the client then either reports
-- and keeps its number, or asks for what is left and keeps that.
theorem client_divides (st : ClientState) (draw : Draw) (p cycles : Int512) (cpuTime : Clock) (big : 2 ≤ p.val)
    (nonzero : st.n.val ≠ 0) :
    ∃ (m : Int512) (c : Nat), Client.Leaves st.n p m (divisions p st.n) c ∧
      entriesOf (Client.factor st draw p cycles cpuTime).effects = List.replicate (divisions p st.n + 1) p.val ∧
      ((Client.Stops p m (divisions p st.n) c ∧ reportsOf (Client.factor st draw p cycles cpuTime).effects = true ∧
        requestsOf (Client.factor st draw p cycles cpuTime).effects = [] ∧
        (Client.factor st draw p cycles cpuTime).outcome = .become (.client st)) ∨
      (¬ Client.Stops p m (divisions p st.n) c ∧ reportsOf (Client.factor st draw p cycles cpuTime).effects = false ∧
        requestsOf (Client.factor st draw p cycles cpuTime).effects = (st.server.map fun _ => m).toList ∧
        (Client.factor st draw p cycles cpuTime).outcome = .become (.client { st with
          n := m, cycles := st.cycles + cycles, cpuTime := st.cpuTime + cpuTime }))) := by
  obtain ⟨m, k, c, ended, leaves, ways⟩ := Client.factor_ends st draw p cycles cpuTime big nonzero
  have loops : divisions p st.n = k := by simp only [divisions, ended]
  rw [loops]
  refine ⟨m, c, leaves, ?_⟩
  rcases ways with ⟨stops, handled⟩ | ⟨goesOn, handled⟩
  · rw [handled]
    refine ⟨by simp [entriesOf, printed], .inl ⟨stops, ?_, ?_, rfl⟩⟩
    · simp [reportsOf, printed]
    · simp [requestsOf]
  · rw [handled]
    exact ⟨by simp, .inr ⟨goesOn, by simp, by simp [requests_send_to], rfl⟩⟩

end Account

end VsLab
