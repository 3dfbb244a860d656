import VsLab.Worker
import VsLab.Manager
import VsLab.Client
import VsLab.Actors.Soundness
import VsLab.Actors.Local

set_option autoImplicit false

namespace VsLab

def behaviour [Divider] : Actors.Behaviour Address Group Msg ActorState Draw Output where
  start := fun _ state draw =>
    match state with
    | .client st => Client.start st draw
    | .manager st => Manager.start st draw
    | .worker st => ⟨[], .become (.worker st)⟩
  accepts := fun state msg =>
    match state with
    | .client _ => Client.accepts msg
    | .manager _ => Manager.accepts msg
    | .worker _ => Worker.accepts msg
  react := fun _ state draw msg =>
    match state with
    | .client st => Client.react st draw msg
    | .manager st => Manager.react st msg
    | .worker st => Worker.react st draw msg
  relays := fun
    | .manager _ => true
    | _ => false

structure ClientArgs where
  host : String
  port : Int
  n : Int512

structure ManagerArgs where
  workers : Int
  host : String
  port : Int

def typedState (args : ClientArgs) : ClientState := ⟨args.host, args.port, args.n, none, 0, 0⟩

def clientNode (args : ClientArgs) : Box := Actors.Node.fresh (.client ⟨args.host, args.port, args.n, none, 0, 0⟩)

def managerNode (process : Nat) (args : ManagerArgs) : Box :=
  Actors.Node.fresh (.manager ⟨process, args.workers, args.host, args.port, none, 0⟩)

-- One process for each client and each manager; the server process only hosts
-- the group they share.
def initial (clients : List ClientArgs) (managers : List ManagerArgs) : Cluster where
  node := fun
    | .client index => (clients[index]?).elim Actors.Node.vacant clientNode
    | .manager process => (managers[process]?).elim Actors.Node.vacant (managerNode process)
    | .worker _ _ => Actors.Node.vacant
  subs := fun _ => []
  posted := []
  transit := []
  sent := []
  clock := 0

def system [Divider] (clients : List ClientArgs) (managers : List ManagerArgs) : Actors.Lts Cluster Move :=
  Actors.networkLts behaviour (initial clients managers)

def drawing (random : Nat) : Draw where
  random := Int512.ofNat random
  nonneg := Int512.val_wrap_nonneg _ (Int.natCast_nonneg random)
  clock := 0
  bases := fun _ => 0
  answers := fun _ => true

def typing (n : Nat) : ClientArgs := ⟨"localhost", 6667, Int512.ofNat n⟩

def offering (workers : Int) : ManagerArgs := ⟨workers, "localhost", 6667⟩

def requestToWorker : List Move :=
  [.start (.manager 0) (drawing 0), .handle (.manager 0) (drawing 0), .start (.worker 0 0) (drawing 0),
    .start (.client 0) (drawing 0), .dispatch 0, .arrive 0, .arrive 0, .handle (.manager 0) (drawing 0),
    .dispatch 0, .arrive 0, .arrive 0]

def workerAnswers (a x : Nat) : List Move :=
  [.handle (.worker 0 0) (drawing a), .handle (.worker 0 0) (drawing x)]

def answerToClient : List Move :=
  [.dispatch 0, .arrive 0, .arrive 0, .handle (.manager 0) (drawing 0), .handle (.manager 0) (drawing 0),
    .dispatch 1, .arrive 0, .arrive 0, .handle (.client 0) (drawing 0)]

theorem fresh_sound (good : Mail → Prop) (fine : Address → ActorState → Prop) (actor : Address) (state : ActorState)
    (own : fine actor state) : Actors.Node.Sound good fine actor (Actors.Node.fresh (D := Draw) state) :=
  ⟨own, by simp [Actors.Node.fresh], by simp [Actors.Node.fresh]⟩

theorem vacant_sound (good : Mail → Prop) (fine : Address → ActorState → Prop) (actor : Address) :
    Actors.Node.Sound good fine actor (Actors.Node.vacant (D := Draw)) :=
  ⟨trivial, by simp [Actors.Node.vacant], by simp [Actors.Node.vacant]⟩

theorem initial_sound (good : Mail → Prop) (fine : Address → ActorState → Prop) (clients : List ClientArgs)
    (managers : List ManagerArgs)
    (clientFine : ∀ index args, clients[index]? = some args →
      fine (.client index) (.client ⟨args.host, args.port, args.n, none, 0, 0⟩))
    (managerFine : ∀ process args, managers[process]? = some args →
      fine (.manager process) (.manager ⟨process, args.workers, args.host, args.port, none, 0⟩)) :
    (initial clients managers).Sound good fine := by
  refine ⟨by simp [initial], by simp [initial], by simp [initial], ?_⟩
  intro actor
  cases actor with
  | client index =>
      simp only [initial]
      cases found : clients[index]? with
      | none => exact vacant_sound good fine _
      | some args => exact fresh_sound good fine _ _ (clientFine index args found)
  | manager process =>
      simp only [initial]
      cases found : managers[process]? with
      | none => exact vacant_sound good fine _
      | some args => exact fresh_sound good fine _ _ (managerFine process args found)
  | worker process index => exact vacant_sound good fine _

theorem initial_history (clients : List ClientArgs) (managers : List ManagerArgs) (actor : Address) :
    ((initial clients managers).node actor).history = [] := by
  cases actor with
  | client index => cases found : clients[index]? <;> simp [initial, found, Actors.Node.vacant, clientNode, Actors.Node.fresh]
  | manager process => cases found : managers[process]? <;> simp [initial, found, Actors.Node.vacant, managerNode, Actors.Node.fresh]
  | worker process index => rfl

end VsLab
