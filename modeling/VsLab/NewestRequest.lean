import VsLab.WorkerRun

set_option autoImplicit false

namespace VsLab

open Actors

def waitingRequests (mailbox : List Mail) : List Int512 := mailbox.filterMap fun env => asksFor env.msg

def received : Past → Option Int512
  | .arrived env => asksFor env.msg
  | _ => none

def lastReceived (history : List Past) : Option Int512 := history.findSome? received

def newestRequest (node : Box) : Option Int512 :=
  (waitingRequests node.mailbox).getLast?.or (lastRequest node.history)

def givesUpOn (node : Box) (draw : Draw) : Option Int512 :=
  match node.next behaviour with
  | some (.worker st, env) =>
      match env.msg with
      | .continuation n a cycles _ state =>
          if state = st.stateId ∧ slice draw.bases draw.random n a cycles = some .giveUp then some n else none
      | _ => none
  | _ => none

def NewestMove (node : Box) : LocalLabel Address Group Msg Draw → Prop
  | .arrive env => GroupArrival node (.arrive env)
  | .handle draw _ => ∀ n ∈ givesUpOn node draw, newestRequest node = some n
  | .start _ _ => True

instance (node : Box) (label : LocalLabel Address Group Msg Draw) : Decidable (NewestMove node label) :=
  match label with
  | .arrive env => inferInstanceAs (Decidable (GroupArrival node (.arrive env)))
  | .handle draw _ => inferInstanceAs (Decidable (∀ n ∈ givesUpOn node draw, newestRequest node = some n))
  | .start _ _ => inferInstanceAs (Decidable True)

def KeepsNewest (node : Box) : Prop := ∀ n, lastReceived node.history = some n → newestRequest node = some n

def Working (node : Box) : Prop := ∃ st, node.status = .spawned (.worker st) ∨ node.status = .running (.worker st)

theorem waiting_append (first second : List Mail) :
    waitingRequests (first ++ second) = waitingRequests first ++ waitingRequests second := List.filterMap_append

theorem keeps_arrive (node : Box) (env : Mail) (working : Working node) (keeps : KeepsNewest node) :
    KeepsNewest (node.arrive env) := by
  have arrived : node.arrive env = ⟨node.status, node.mailbox ++ [env], .arrived env :: node.history⟩ := by
    obtain ⟨st, status | status⟩ := working
    · simp only [Node.arrive, status]
    · simp only [Node.arrive, status]
  have unchanged : lastRequest (.arrived env :: node.history) = lastRequest node.history := last_request_quiet _ _ rfl
  rw [arrived]
  intro n last
  cases asked : asksFor env.msg with
  | some m =>
      have same : m = n := by simpa [lastReceived, received, asked] using last
      simp [newestRequest, waitingRequests, asked, same]
  | none =>
      have before : newestRequest node = some n := keeps n (by simpa [lastReceived, received, asked] using last)
      simpa [newestRequest, waitingRequests, asked, unchanged] using before

theorem keeps_handle (node after : Box) (event : Past) (keeps : KeepsNewest node)
    (history : after.history = event :: node.history) (silent : received event = none)
    (same : newestRequest after = newestRequest node) : KeepsNewest after := by
  intro n last
  rw [same]
  exact keeps n (by simpa [lastReceived, history, silent] using last)

section Handled

variable (actor : Address) (node : Box) (st : WorkerState) (skipped behind : List Mail) (env : Mail) (draw : Draw)
  (tag : Nat)

theorem skipped_no_request (rejected : ∀ other ∈ skipped, Worker.accepts other.msg = false) :
    waitingRequests skipped = [] := by
  apply List.filterMap_eq_nil_iff.mpr
  intro other member
  apply asks_for_none
  intro n isCalculate
  have refused := rejected other member
  rw [isCalculate] at refused
  cases refused

theorem newest_other (sends : List Mail) (rejected : ∀ other ∈ skipped, Worker.accepts other.msg = false)
    (split : node.mailbox = skipped ++ env :: behind) (noRequest : asksFor env.msg = none)
    (noSend : waitingRequests sends = []) :
    newestRequest ⟨.running (.worker st), skipped ++ behind ++ sends, .handled env (.worker st) draw tag :: node.history⟩ =
      newestRequest node := by
  have unchanged : lastRequest (.handled env (.worker st) draw tag :: node.history) = lastRequest node.history :=
    last_request_quiet _ _ noRequest
  have before : waitingRequests node.mailbox = waitingRequests behind := by
    rw [split, waiting_append, skipped_no_request skipped rejected]
    simp [waitingRequests, noRequest]
  simp only [newestRequest, unchanged, before, waiting_append, noSend, skipped_no_request skipped rejected,
    List.nil_append, List.append_nil]

theorem newest_request (status : Status ActorState) (sends : List Mail) (n : Int512)
    (rejected : ∀ other ∈ skipped, Worker.accepts other.msg = false)
    (split : node.mailbox = skipped ++ env :: behind) (request : env.msg = .calculate n)
    (noSend : waitingRequests sends = []) :
    newestRequest ⟨status, skipped ++ behind ++ sends, .handled env (.worker st) draw tag :: node.history⟩ =
      newestRequest node := by
  have latest : lastRequest (.handled env (.worker st) draw tag :: node.history) = some n := by
    simp [lastRequest, requested, asksFor, request]
  have before : waitingRequests node.mailbox = n :: waitingRequests behind := by
    rw [split, waiting_append, skipped_no_request skipped rejected]
    simp [waitingRequests, asksFor, request]
  simp only [newestRequest, latest, before, waiting_append, noSend, skipped_no_request skipped rejected,
    List.nil_append, List.append_nil]
  cases waitingRequests behind with
  | nil => rfl
  | cons m rest =>
      simp only [List.getLast?_cons_cons, List.getLast?_eq_some_getLast (List.cons_ne_nil m rest), Option.some_or]

theorem newest_given_up (n : Int512) (mark : Nat) (mailbox : List Mail) (history : List Past)
    (status : Status ActorState) :
    newestRequest ⟨status, mailbox ++ [⟨actor, none, mark, .calculate n⟩], history⟩ = some n := by
  simp [newestRequest, waitingRequests, asksFor]

theorem gives_up_on (n a cycles : Int512) (cpuTime : Clock) (next : node.next behaviour = some (.worker st, env))
    (live : env.msg = .continuation n a cycles cpuTime st.stateId)
    (sliced : slice draw.bases draw.random n a cycles = some .giveUp) : givesUpOn node draw = some n := by
  simp only [givesUpOn, next, live, sliced, and_self, if_true]

theorem handle_keeps (keeps : KeepsNewest node) (takes : Takes node st env skipped behind)
    (newest : ∀ n ∈ givesUpOn node draw, newestRequest node = some n)
    (working : Working (Node.settle actor tag (Worker.react st draw env.msg) (skipped ++ behind)
      (.handled env (.worker st) draw tag :: node.history))) :
    KeepsNewest (Node.settle actor tag (Worker.react st draw env.msg) (skipped ++ behind)
      (.handled env (.worker st) draw tag :: node.history)) := by
  refine keeps_handle node _ _ keeps (Node.settle_history _ _ _ _ _) rfl ?_
  have turn := Worker.react_turn st draw env.msg
  generalize Worker.react st draw env.msg = r at turn working ⊢
  generalize asked : env.msg = msg at turn
  cases turn with
  | ignored _ noRequest stale =>
      exact newest_other node st skipped behind env draw tag [] takes.rejected takes.split
        (asks_for_none env.msg (by rwa [asked])) rfl
  | raised _ n reason zero =>
      obtain ⟨other, status | status⟩ := working
      · cases status
      · cases status
  | began n a nonzero drawn =>
      exact newest_request node st skipped behind env draw tag _ _ n takes.rejected takes.split asked rfl
  | found n a cycles cpuTime p i nonzero big divides tested sliced =>
      exact newest_other node st skipped behind env draw tag [] takes.rejected takes.split (by rw [asked]; rfl) rfl
  | went n a cycles later cpuTime nonzero =>
      exact newest_other node st skipped behind env draw tag _ takes.rejected takes.split (by rw [asked]; rfl) rfl
  | gaveUp n a cycles cpuTime nonzero sliced =>
      rw [newest n (gives_up_on node st env draw n a cycles cpuTime takes.next asked sliced)]
      exact newest_given_up actor n tag _ _ _

end Handled

theorem newest_run (actor : Address) (grp : Group) (node : Box)
    (reached : (workerLts actor grp).Reach NewestMove node) : Working node → KeepsNewest node := by
  refine reach_worker actor grp NewestMove (fun node => Working node → KeepsNewest node) (fun _ n last => by cases last) ?_ ?_ ?_
    node reached
  · intro node env holds _ working
    have same : Working node := by simpa only [Working, Node.arrive_status] using working
    exact keeps_arrive node env same (holds same)
  · intro node st draw tag holds status _
    have unchanged : lastRequest (.started (.worker st) draw tag :: node.history) = lastRequest node.history :=
      last_request_quiet _ _ rfl
    refine keeps_handle node _ _ (holds ⟨st, .inl status⟩) rfl rfl ?_
    simp [newestRequest, unchanged]
  · intro node st draw tag env skipped behind _ holds newest takes working
    exact handle_keeps actor node st skipped behind env draw tag (holds ⟨st, .inr takes.status⟩) takes newest working

def SystemNewestMove (net : Cluster) : Move → Prop
  | .handle (.worker process index) draw =>
      ∀ n ∈ givesUpOn (net.node (.worker process index)) draw, newestRequest (net.node (.worker process index)) = some n
  | _ => True

theorem system_newest (clients : List ClientArgs) (managers : List ManagerArgs) (net : Cluster) (process index : Nat)
    (reached : (system clients managers).Reach SystemNewestMove net) (working : Working (net.node (.worker process index))) :
    KeepsNewest (net.node (.worker process index)) := by
  have alone := worker_alone clients managers SystemNewestMove NewestMove process index (fun _ _ arrival _ => arrival)
    (fun _ _ _ => trivial) (fun _ _ _ _ allow => allow) net reached
  rcases alone with absent | run
  · obtain ⟨st, status | status⟩ := working
    · rw [absent] at status
      cases status
    · rw [absent] at status
      cases status
  · exact newest_run _ _ _ run working

theorem newest_request_wins (actor : Address) (grp : Group) (node : Box) (st : WorkerState) (n : Int512)
    (reached : (workerLts actor grp).Reach NewestMove node) (running : node.status = .running (.worker st))
    (asked : lastReceived node.history = some n) (drained : waitingRequests node.mailbox = []) :
    lastRequest node.history = some n := by
  have newest := newest_run actor grp node reached ⟨st, .inr running⟩ n asked
  simpa [newestRequest, drained] using newest

theorem newest_request_six : ∃ (node : Box) (st : WorkerState),
    (workerLts (.worker 0 0) (.workers 0)).Reach NewestMove node ∧ node.status = .running (.worker st) ∧
      lastReceived node.history = some (Int512.ofNat 6) ∧ waitingRequests node.mailbox = [] ∧
      lastRequest node.history = some (Int512.ofNat 6) := by
  obtain ⟨node, reached, passed⟩ := (workerLts (.worker 0 0) (.workers 0)).run_finds NewestMove
    [.start (drawing 0) 0, requestFor 4, .handle (drawing 0) 1, requestFor 6, .handle (drawing 0) 2,
      .handle (drawing 0) 3]
    (fun node => decide (node.status = .running (.worker ⟨.workers 0, Int512.ofNat 2⟩) ∧
      lastReceived node.history = some (Int512.ofNat 6) ∧ waitingRequests node.mailbox = [])) (by decide +kernel)
  obtain ⟨running, asked, drained⟩ := of_decide_eq_true passed
  exact ⟨node, _, reached, running, asked, drained,
    newest_request_wins (.worker 0 0) (.workers 0) node _ _ reached running asked drained⟩

theorem older_request_wins : ∃ (node : Box) (st : WorkerState),
    (workerLts (.worker 0 0) (.workers 0)).Reach RequestArrival node ∧ node.status = .running (.worker st) ∧
      lastReceived node.history = some (Int512.ofNat 6) ∧ waitingRequests node.mailbox = [] ∧
      lastRequest node.history = some (Int512.ofNat 4) := by
  obtain ⟨node, reached, passed⟩ := (workerLts (.worker 0 0) (.workers 0)).run_finds RequestArrival
    [.start (drawing 0) 0, requestFor 4, .handle (drawing 0) 1, .handle (drawing 0) 2, .handle (drawing 0) 3,
      requestFor 6, .handle (drawing 0) 4, .handle (drawing 0) 5, .handle (drawing 0) 6]
    (fun node => decide (node.status = .running (.worker ⟨.workers 0, Int512.ofNat 3⟩) ∧
      lastReceived node.history = some (Int512.ofNat 6) ∧ waitingRequests node.mailbox = [] ∧
      lastRequest node.history = some (Int512.ofNat 4))) (by decide +kernel)
  obtain ⟨running, asked, drained, request⟩ := of_decide_eq_true passed
  exact ⟨node, _, reached, running, asked, drained, request⟩

end VsLab
