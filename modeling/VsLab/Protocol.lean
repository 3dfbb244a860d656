import VsLab.Actors.Network
import VsLab.Rho

set_option autoImplicit false

namespace VsLab

abbrev Clock := Int

inductive Msg where
  | calculate (n : Int512)
  | continuation (n a cycles : Int512) (cpuTime : Clock) (state : Int512)
  | factor (p cycles : Int512) (cpuTime : Clock)
  | nofactor (cpuTime : Clock)
  | sWorkers
  | kWorkers
  | suicide
  | ping
  | pong
  | result
  | quit
deriving DecidableEq

def isCalculate : Msg → Bool
  | .calculate _ => true
  | _ => false

def isFactor : Msg → Bool
  | .factor .. => true
  | _ => false

def isNofactor : Msg → Bool
  | .nofactor _ => true
  | _ => false

-- cmgroup lives in the server process. wgroup is a local group, so every manager
-- process has one of its own.
inductive Group where
  | server
  | workers (process : Nat)
deriving DecidableEq

inductive Address where
  | client (index : Nat)
  | manager (process : Nat)
  | worker (process index : Nat)
deriving DecidableEq

-- What the console shows of a client: its factor list and its reports. The
-- report's wall time and the conversion of ticks to seconds are left out.
inductive Output where
  | entry (p : Int512)
  | report (cpuTicks : Clock) (cycles : Int512)
deriving DecidableEq

structure WorkerState where
  server : Group
  stateId : Int512
deriving DecidableEq

structure ManagerState where
  process : Nat
  workers : Int
  host : String
  port : Int
  server : Option Group
  children : Nat
deriving DecidableEq

structure ClientState where
  host : String
  port : Int
  n : Int512
  server : Option Group
  cycles : Int512
  cpuTime : Clock
deriving DecidableEq

inductive ActorState where
  | client (state : ClientState)
  | manager (state : ManagerState)
  | worker (state : WorkerState)
deriving DecidableEq

-- Everything a handler takes from outside: one value of random_gen(), which is
-- in [0, 2^512), the value of std::clock(), the bases Miller-Rabin draws, and
-- whether a group server answers at an address.
structure Draw where
  random : Int512
  nonneg : 0 ≤ random.val
  clock : Clock
  bases : Nat → Nat
  answers : String → Bool

abbrev Mail := Actors.Envelope Address Group Msg
abbrev Step := Actors.Reaction Address Group Msg ActorState Output
abbrev Doing := Actors.Effect Address Group Msg ActorState Output
abbrev Box := Actors.Node Address Group Msg ActorState Draw
abbrev Past := Actors.Event Address Group Msg ActorState Draw
abbrev Cluster := Actors.Net Address Group Msg ActorState Draw
abbrev Move := Actors.Label Address Draw

def clientManagerGroupName : String := "cmgroup"

def groupAddr (host : String) (port : Int) : String :=
  clientManagerGroupName ++ "@" ++ host ++ ":" ++ toString port

def remoteGroup (draw : Draw) (address : String) : Option Group :=
  if draw.answers address then some .server else none

theorem remote_group_server (draw : Draw) (address : String) (grp : Group)
    (answered : remoteGroup draw address = some grp) : grp = .server := by
  unfold remoteGroup at answered
  split at answered <;> cases answered
  rfl

def sendTo (server : Option Group) (msg : Msg) : List Doing :=
  match server with
  | none => []
  | some grp => [.publish grp msg]

end VsLab
