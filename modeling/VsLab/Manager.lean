import VsLab.Protocol

set_option autoImplicit false

namespace VsLab.Manager

def accepts : Msg → Bool
  | .ping => true
  | .sWorkers => true
  | .kWorkers => true
  | .factor .. => true
  | .nofactor _ => true
  | .calculate _ => true
  | .quit => true
  | _ => false

def wkrGrp (st : ManagerState) : Group := .workers st.process

-- The worker group is joined before the server is tried, and once more by the
-- recursive call that installs the handlers.
def start (st : ManagerState) (draw : Draw) : Step :=
  match remoteGroup draw (groupAddr st.host st.port) with
  | none => ⟨[.join (wkrGrp st)], .quit⟩
  | some newServ =>
      ⟨[.join (wkrGrp st), .join newServ, .send .sWorkers, .join (wkrGrp st)],
        .become (.manager { st with server := some newServ })⟩

def spawnWorkers (st : ManagerState) : List Doing :=
  (List.range st.workers.toNat).map fun i =>
    .spawn (.worker st.process (st.children + i)) (.worker ⟨wkrGrp st, 0⟩) (wkrGrp st)

def react (st : ManagerState) : Msg → Step
  | .ping => ⟨sendTo st.server .pong, .become (.manager st)⟩
  | .sWorkers => ⟨spawnWorkers st, .become (.manager { st with children := st.children + st.workers.toNat })⟩
  | .kWorkers => ⟨List.replicate st.workers.toNat (.publish (wkrGrp st) .suicide), .become (.manager st)⟩
  | .factor p cycles cpuTime => ⟨sendTo st.server (.factor p cycles cpuTime), .become (.manager st)⟩
  | .nofactor cpuTime => ⟨sendTo st.server (.nofactor cpuTime), .become (.manager st)⟩
  | .calculate n => ⟨[.publish (wkrGrp st) (.calculate n)], .become (.manager st)⟩
  | .quit => ⟨[], .quit⟩
  | _ => ⟨[], .become (.manager st)⟩

def isResult : Msg → Bool
  | .factor .. => true
  | .nofactor _ => true
  | _ => false

inductive Turn (st : ManagerState) : Msg → Step → Prop where
  | ignored (msg : Msg) : Turn st msg ⟨[], .become (.manager st)⟩
  | ponged : Turn st .ping ⟨sendTo st.server .pong, .become (.manager st)⟩
  | spawned : Turn st .sWorkers
      ⟨spawnWorkers st, .become (.manager { st with children := st.children + st.workers.toNat })⟩
  | killed : Turn st .kWorkers
      ⟨List.replicate st.workers.toNat (.publish (wkrGrp st) .suicide), .become (.manager st)⟩
  | up (msg : Msg) (isResult : isResult msg = true) : Turn st msg ⟨sendTo st.server msg, .become (.manager st)⟩
  | down (n : Int512) : Turn st (.calculate n) ⟨[.publish (wkrGrp st) (.calculate n)], .become (.manager st)⟩
  | quit : Turn st .quit ⟨[], .quit⟩

theorem react_turn (st : ManagerState) (msg : Msg) : Turn st msg (react st msg) := by
  cases msg with
  | ping => exact .ponged
  | sWorkers => exact .spawned
  | kWorkers => exact .killed
  | factor p cycles cpuTime => exact .up _ rfl
  | nofactor cpuTime => exact .up _ rfl
  | calculate n => exact .down n
  | quit => exact .quit
  | continuation n a cycles cpuTime state => exact .ignored _
  | suicide => exact .ignored _
  | pong => exact .ignored _
  | result => exact .ignored _

end VsLab.Manager
