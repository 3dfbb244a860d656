import VsLab.Routing

set_option autoImplicit false

namespace VsLab

open Actors

def asksFor : Msg → Option Int512
  | .calculate n => some n
  | _ => none

def requested : Past → Option Int512
  | .handled env _ _ _ => asksFor env.msg
  | _ => none

def lastRequest (history : List Past) : Option Int512 := history.findSome? requested

def requestsHandled (history : List Past) : Nat := history.countP fun event => (requested event).isSome

def sinceRequest (history : List Past) : List Past := history.takeWhile fun event => (requested event).isNone

def results (actor : Address) (history : List Past) : List Msg :=
  history.flatMap fun event => (published actor event.tag (event.effects behaviour actor)).map fun env => env.msg

def isLive (stateId : Int512) (env : Mail) : Bool :=
  match env.msg with
  | .continuation _ _ _ _ state => decide (state = stateId)
  | _ => false

theorem asks_for_none (msg : Msg) (other : ∀ n, msg ≠ .calculate n) : asksFor msg = none := by
  cases msg <;> first | rfl | exact absurd rfl (other _)

theorem live_iff (stateId : Int512) (env : Mail) :
    isLive stateId env = true ↔ ∃ n a cycles cpuTime, env.msg = .continuation n a cycles cpuTime stateId := by
  unfold isLive
  cases env.msg <;> simp

inductive Phase (actor : Address) (node : Box) (stateId n : Int512) : Prop where
  | live (env : Mail) (a cycles : Int512) (cpuTime : Clock) (alone : node.mailbox.filter (isLive stateId) = [env])
      (carries : env.msg = .continuation n a cycles cpuTime stateId) (range : 1 ≤ a.val ∧ a.val ≤ n.val.natAbs)
      (silent : results actor (sinceRequest node.history) = [])
  | answered (p cycles : Int512) (cpuTime : Clock) (none : node.mailbox.filter (isLive stateId) = [])
      (sent : results actor (sinceRequest node.history) = [.factor p cycles cpuTime])
      (divides : ExactUpTo n → p.val ∣ n.val)
  | gaveUp (cpuTime : Clock) (tag : Nat) (none : node.mailbox.filter (isLive stateId) = [])
      (sent : results actor (sinceRequest node.history) = [.nofactor cpuTime])
      (restart : ⟨actor, .none, tag, .calculate n⟩ ∈ node.mailbox)

def Begun (actor : Address) (node : Box) (stateId : Int512) : Option Int512 → Prop
  | none => ∀ env ∈ node.mailbox, ∀ n a cycles cpuTime id, env.msg ≠ .continuation n a cycles cpuTime id
  | some n => n.val ≠ 0 ∧ Phase actor node stateId n

def AnswersCurrent (actor : Address) (event : Past) (older : List Past) : Prop :=
  results actor [event] ≠ [] → ∃ env st draw tag n a cycles cpuTime, event = .handled env (.worker st) draw tag ∧
    env.msg = .continuation n a cycles cpuTime st.stateId ∧ lastRequest older = some n

structure Epoch (actor : Address) (grp : Group) (node : Box) (stateId : Int512) : Prop where
  status : node.status = .spawned (.worker ⟨grp, stateId⟩) ∨ node.status = .running (.worker ⟨grp, stateId⟩)
  counts : stateId.val = requestsHandled node.history
  older : ∀ env ∈ node.mailbox, ∀ n a cycles cpuTime id, env.msg = .continuation n a cycles cpuTime id →
    id.val ≤ stateId.val
  nonzero : ∀ env ∈ node.mailbox, ∀ n, env.msg = .calculate n → n.val ≠ 0
  begun : Begun actor node stateId (lastRequest node.history)
  current : ∀ event older, (event :: older) <:+ node.history → AnswersCurrent actor event older

def isContinue : Msg → Bool
  | .continuation .. => true
  | _ => false

def GroupArrival (_ : Box) : LocalLabel Address Group Msg Draw → Prop
  | .arrive env => env.via.isSome = true ∧ isContinue env.msg = false
  | _ => True

def RequestArrival (node : Box) : LocalLabel Address Group Msg Draw → Prop
  | .arrive env => GroupArrival node (.arrive env) ∧ ∀ n ∈ asksFor env.msg, n.val ≠ 0
  | _ => True

instance (node : Box) (label : LocalLabel Address Group Msg Draw) : Decidable (GroupArrival node label) :=
  match label with
  | .arrive _ => inferInstanceAs (Decidable (_ ∧ _))
  | .start _ _ => inferInstanceAs (Decidable True)
  | .handle _ _ => inferInstanceAs (Decidable True)

instance (node : Box) (label : LocalLabel Address Group Msg Draw) : Decidable (RequestArrival node label) :=
  match label with
  | .arrive env => inferInstanceAs (Decidable (GroupArrival node (.arrive env) ∧ ∀ n ∈ asksFor env.msg, n.val ≠ 0))
  | .start _ _ => inferInstanceAs (Decidable True)
  | .handle _ _ => inferInstanceAs (Decidable True)

def workerLts (actor : Address) (grp : Group) : Lts Box (LocalLabel Address Group Msg Draw) :=
  localLts behaviour actor (.worker ⟨grp, 0⟩)

section History

variable (actor : Address) (event : Past) (history : List Past)

theorem results_cons : results actor (event :: history) = results actor [event] ++ results actor history := by
  simp [results]

theorem last_request_quiet (other : requested event = none) : lastRequest (event :: history) = lastRequest history := by
  simp [lastRequest, other]

theorem since_request_quiet (other : requested event = none) :
    sinceRequest (event :: history) = event :: sinceRequest history := by
  simp [sinceRequest, other]

theorem requests_handled_quiet (other : requested event = none) :
    requestsHandled (event :: history) = requestsHandled history := by
  simp [requestsHandled, other]

theorem requests_handled_mono : requestsHandled history ≤ requestsHandled (event :: history) :=
  (List.sublist_cons_self event history).countP_le

end History

section Quiet

variable (actor : Address) (grp : Group) (node after : Box) (stateId : Int512) (event : Past)

structure Quiet : Prop where
  history : after.history = event :: node.history
  other : requested event = none
  silent : results actor [event] = []
  lives : after.mailbox.filter (isLive stateId) = node.mailbox.filter (isLive stateId)
  requests : ∀ env ∈ node.mailbox, ∀ n, env.msg = .calculate n → env ∈ after.mailbox

theorem phase_quiet (n : Int512) (quiet : Quiet actor node after stateId event) (phase : Phase actor node stateId n) :
    Phase actor after stateId n := by
  have same : results actor (sinceRequest after.history) = results actor (sinceRequest node.history) := by
    rw [quiet.history, since_request_quiet event _ quiet.other, results_cons, quiet.silent, List.nil_append]
  cases phase with
  | live env a cycles cpuTime alone carries range silent =>
      exact .live env a cycles cpuTime (quiet.lives.trans alone) carries range (same.trans silent)
  | answered p cycles cpuTime none sent divides =>
      exact .answered p cycles cpuTime (quiet.lives.trans none) (same.trans sent) divides
  | gaveUp cpuTime tag none sent restart =>
      exact .gaveUp cpuTime tag (quiet.lives.trans none) (same.trans sent) (quiet.requests _ restart n rfl)

theorem current_cons (history : List Past) (before : ∀ event older, (event :: older) <:+ history → AnswersCurrent actor event older)
    (latest : AnswersCurrent actor event history) :
    ∀ item older, (item :: older) <:+ (event :: history) → AnswersCurrent actor item older := by
  intro item older suffix
  rcases List.suffix_cons_iff.mp suffix with same | earlier
  · cases same
    exact latest
  · exact before item older earlier

theorem epoch_quiet (quiet : Quiet actor node after stateId event) (epoch : Epoch actor grp node stateId)
    (status : after.status = .spawned (.worker ⟨grp, stateId⟩) ∨ after.status = .running (.worker ⟨grp, stateId⟩))
    (older : ∀ env ∈ after.mailbox, env ∈ node.mailbox ∨
      (∀ n a cycles cpuTime id, env.msg ≠ .continuation n a cycles cpuTime id) ∧
        ∀ n, env.msg = .calculate n → n.val ≠ 0) : Epoch actor grp after stateId := by
  have request : lastRequest after.history = lastRequest node.history := by
    rw [quiet.history, last_request_quiet event _ quiet.other]
  refine ⟨status, ?_, ?_, ?_, ?_, ?_⟩
  · rw [quiet.history, requests_handled_quiet event _ quiet.other, epoch.counts]
  · intro env member n a cycles cpuTime id isContinuation
    rcases older env member with old | ⟨new, _⟩
    · exact epoch.older env old n a cycles cpuTime id isContinuation
    · exact absurd isContinuation (new n a cycles cpuTime id)
  · intro env member n isCalculate
    rcases older env member with old | ⟨_, new⟩
    · exact epoch.nonzero env old n isCalculate
    · exact new n isCalculate
  · have begun := epoch.begun
    rw [request]
    cases asked : lastRequest node.history with
    | none =>
        rw [asked] at begun
        intro env member
        rcases older env member with old | ⟨new, _⟩
        · exact begun env old
        · exact new
    | some n =>
        rw [asked] at begun
        exact ⟨begun.1, phase_quiet actor node after stateId event n quiet begun.2⟩
  · rw [quiet.history]
    exact current_cons actor event _ epoch.current (fun sends => absurd quiet.silent sends)

end Quiet

section Handled

variable (actor : Address) (grp : Group) (node : Box) (stateId : Int512) (skipped behind : List Mail) (env : Mail)
  (draw : Draw) (tag : Nat)

theorem rest_waiting (old : Mail) (member : old ∈ skipped ++ behind) : old ∈ skipped ++ env :: behind := by
  rcases List.mem_append.mp member with before | later
  · simp [before]
  · simp [later]

theorem dead_kept (dead : isLive stateId env = false) :
    (skipped ++ behind).filter (isLive stateId) = (skipped ++ env :: behind).filter (isLive stateId) := by
  simp [dead]

theorem live_removed (only : Mail) (live : isLive stateId env = true)
    (alone : (skipped ++ env :: behind).filter (isLive stateId) = [only]) :
    env = only ∧ (skipped ++ behind).filter (isLive stateId) = [] := by
  simp only [List.filter_append, List.filter_cons, live, if_true] at alone ⊢
  cases first : skipped.filter (isLive stateId) with
  | nil =>
      rw [first] at alone
      simpa using alone
  | cons head rest =>
      rw [first] at alone
      simp at alone

theorem epoch_live (n a cycles : Int512) (cpuTime : Clock) (epoch : Epoch actor grp node stateId)
    (split : node.mailbox = skipped ++ env :: behind) (carries : env.msg = .continuation n a cycles cpuTime stateId) :
    lastRequest node.history = some n ∧ n.val ≠ 0 ∧ (1 ≤ a.val ∧ a.val ≤ n.val.natAbs) ∧
      (skipped ++ behind).filter (isLive stateId) = [] ∧ results actor (sinceRequest node.history) = [] := by
  have live : isLive stateId env = true := (live_iff stateId env).mpr ⟨n, a, cycles, cpuTime, carries⟩
  have member : env ∈ node.mailbox.filter (isLive stateId) := List.mem_filter.mpr ⟨by simp [split], live⟩
  have begun := epoch.begun
  cases asked : lastRequest node.history with
  | none =>
      rw [asked] at begun
      exact absurd carries (begun env (List.mem_of_mem_filter member) n a cycles cpuTime stateId)
  | some m =>
      rw [asked] at begun
      obtain ⟨nonzero, phase⟩ := begun
      cases phase with
      | live only b count ticks alone onlyCarries range silent =>
          rw [split] at alone
          obtain ⟨same, rest⟩ := live_removed stateId skipped behind env only live alone
          rw [← same, carries] at onlyCarries
          cases onlyCarries
          exact ⟨rfl, nonzero, range, rest, silent⟩
      | answered p count ticks none sent divides =>
          rw [none] at member
          cases member
      | gaveUp ticks mark none sent restart =>
          rw [none] at member
          cases member

theorem results_handled (st : WorkerState) (history : List Past) :
    results actor (.handled env (.worker st) draw tag :: history) =
      (published actor tag (Worker.react st draw env.msg).effects).map (fun sent => sent.msg) ++ results actor history := by
  rw [results_cons]
  simp [results, Event.effects, Event.tag, behaviour]

theorem results_continued (st : WorkerState) (r : Step) (n a cycles : Int512) (cpuTime : Clock) (state : Int512)
    (history : List Past) (carries : env.msg = .continuation n a cycles cpuTime state)
    (shape : Worker.react st draw env.msg = r) (silent : results actor (sinceRequest history) = []) :
    results actor (sinceRequest (.handled env (.worker st) draw tag :: history)) =
      (published actor tag r.effects).map fun sent => sent.msg := by
  have other : requested (.handled env (.worker st) draw tag) = none := by
    rw [requested, carries]
    rfl
  rw [since_request_quiet _ _ other, results_handled, shape, silent, List.append_nil]

theorem lives_added (new : Mail) (none : (skipped ++ behind).filter (isLive stateId) = []) :
    (skipped ++ behind ++ [new]).filter (isLive stateId) = [new].filter (isLive stateId) := by
  rw [List.filter_append, none, List.nil_append]

theorem epoch_continued (after : Box) (n a cycles : Int512) (cpuTime : Clock) (added : List Mail)
    (epoch : Epoch actor grp node stateId) (split : node.mailbox = skipped ++ env :: behind)
    (request : lastRequest node.history = some n) (nonzero : n.val ≠ 0)
    (carries : env.msg = .continuation n a cycles cpuTime stateId)
    (status : after.status = .running (.worker ⟨grp, stateId⟩)) (mailbox : after.mailbox = skipped ++ behind ++ added)
    (history : after.history = .handled env (.worker ⟨grp, stateId⟩) draw tag :: node.history)
    (younger : ∀ new ∈ added, ∀ n a cycles cpuTime id, new.msg = .continuation n a cycles cpuTime id → id = stateId)
    (asked : ∀ new ∈ added, ∀ m, new.msg = .calculate m → m = n)
    (phase : Phase actor after stateId n) : Epoch actor grp after stateId := by
  have other : requested (.handled env (.worker ⟨grp, stateId⟩) draw tag) = none := by
    rw [requested, carries]
    rfl
  have kept : ∀ old ∈ after.mailbox, old ∈ node.mailbox ∨ old ∈ added := by
    intro old member
    rw [mailbox] at member
    rcases List.mem_append.mp member with before | new
    · exact .inl (split ▸ rest_waiting skipped behind env old before)
    · exact .inr new
  refine ⟨.inr status, ?_, ?_, ?_, ?_, ?_⟩
  · rw [history, requests_handled_quiet _ _ other, epoch.counts]
  · intro old member m b count ticks id isContinuation
    rcases kept old member with before | new
    · exact epoch.older old before m b count ticks id isContinuation
    · exact le_of_eq (congrArg Int512.val (younger old new m b count ticks id isContinuation))
  · intro old member m isCalculate
    rcases kept old member with before | new
    · exact epoch.nonzero old before m isCalculate
    · rw [asked old new m isCalculate]
      exact nonzero
  · rw [history, last_request_quiet _ _ other, request]
    exact ⟨nonzero, phase⟩
  · rw [history]
    exact current_cons actor _ _ epoch.current
      (fun _ => ⟨env, _, draw, tag, n, a, cycles, cpuTime, rfl, carries, request⟩)

theorem epoch_requested (after : Box) (n a : Int512) (epoch : Epoch actor grp node stateId)
    (split : node.mailbox = skipped ++ env :: behind) (request : env.msg = .calculate n)
    (drawn : drawUpTo draw.random n = some a) (few : requestsHandled node.history + 1 < modulus)
    (status : after.status = .running (.worker ⟨grp, stateId + 1⟩))
    (mailbox : after.mailbox = skipped ++ behind ++
      [⟨actor, none, tag, .continuation n a 0 draw.clock (stateId + 1)⟩])
    (history : after.history = .handled env (.worker ⟨grp, stateId⟩) draw tag :: node.history)
    (silent : results actor [.handled env (.worker ⟨grp, stateId⟩) draw tag] = []) :
    Epoch actor grp after (stateId + 1) := by
  have nonzero : n.val ≠ 0 := epoch.nonzero env (by simp [split]) n request
  have counted : (stateId + 1).val = stateId.val + 1 := by
    apply Int512.val_add
    rw [epoch.counts, Int512.val_one, ← Nat.cast_one, ← Nat.cast_add, Int.natAbs_natCast]
    exact few
  have asked : requested (.handled env (.worker ⟨grp, stateId⟩) draw tag) = some n := by
    rw [requested, request]
    rfl
  have kept : ∀ old ∈ skipped ++ behind, old ∈ node.mailbox := fun old member =>
    split ▸ rest_waiting skipped behind env old member
  have dead : (skipped ++ behind).filter (isLive (stateId + 1)) = [] := by
    apply List.filter_eq_nil_iff.mpr
    intro old member live
    obtain ⟨m, b, cycles, cpuTime, isContinuation⟩ := (live_iff _ old).mp live
    have bound := epoch.older old (kept old member) m b cycles cpuTime _ isContinuation
    omega
  refine ⟨.inr status, ?_, ?_, ?_, ?_, ?_⟩
  · rw [counted, history, epoch.counts]
    simp [requestsHandled, asked]
  · intro old member m b cycles cpuTime id isContinuation
    rw [mailbox] at member
    rcases List.mem_append.mp member with before | new
    · have bound := epoch.older old (kept old before) m b cycles cpuTime id isContinuation
      omega
    · rw [List.mem_singleton.mp new] at isContinuation
      cases isContinuation
      exact le_refl _
  · intro old member m isCalculate
    rw [mailbox] at member
    rcases List.mem_append.mp member with before | new
    · exact epoch.nonzero old (kept old before) m isCalculate
    · rw [List.mem_singleton.mp new] at isCalculate
      cases isCalculate
  · have latest : lastRequest after.history = some n := by simp [lastRequest, history, asked]
    have fresh : sinceRequest after.history = [] := by simp [sinceRequest, history, asked]
    obtain ⟨b, same, range⟩ := draw_up_to_range draw.random n draw.nonneg nonzero
    rw [drawn] at same
    cases same
    rw [latest]
    refine ⟨nonzero, .live ⟨actor, none, tag, .continuation n a 0 draw.clock (stateId + 1)⟩ a 0 draw.clock ?_ rfl range
      (by rw [fresh]; rfl)⟩
    rw [mailbox, List.filter_append, dead]
    simp [isLive]
  · rw [history]
    exact current_cons actor _ _ epoch.current (fun sends => absurd silent sends)

theorem epoch_ignored (after : Box) (epoch : Epoch actor grp node stateId)
    (split : node.mailbox = skipped ++ env :: behind) (noRequest : ∀ n, env.msg ≠ .calculate n)
    (stale : ∀ n a cycles cpuTime, env.msg ≠ .continuation n a cycles cpuTime stateId)
    (status : after.status = .running (.worker ⟨grp, stateId⟩)) (mailbox : after.mailbox = skipped ++ behind)
    (history : after.history = .handled env (.worker ⟨grp, stateId⟩) draw tag :: node.history)
    (silent : results actor [.handled env (.worker ⟨grp, stateId⟩) draw tag] = []) : Epoch actor grp after stateId := by
  have dead : isLive stateId env = false := by
    by_contra live
    obtain ⟨n, a, cycles, cpuTime, isContinuation⟩ := (live_iff stateId env).mp (by simpa using live)
    exact stale n a cycles cpuTime isContinuation
  have other : requested (.handled env (.worker ⟨grp, stateId⟩) draw tag) = none := asks_for_none env.msg noRequest
  refine epoch_quiet actor grp node after stateId _ ⟨history, other, silent, ?_, ?_⟩ epoch (.inr status) ?_
  · rw [split, mailbox]
    exact dead_kept stateId skipped behind env dead
  · intro old member n isCalculate
    rw [split] at member
    rw [mailbox]
    simp only [List.mem_append, List.mem_cons] at member ⊢
    rcases member with before | rfl | later
    · exact .inl before
    · exact absurd isCalculate (noRequest n)
    · exact .inr later
  · intro old member
    rw [mailbox] at member
    exact .inl (split ▸ rest_waiting skipped behind env old member)

theorem epoch_handle (epoch : Epoch actor grp node stateId)
    (split : node.mailbox = skipped ++ env :: behind)
    (few : requestsHandled (.handled env (.worker ⟨grp, stateId⟩) draw tag :: node.history) < modulus) :
    ∃ next, Epoch actor grp (Node.settle actor tag (Worker.react ⟨grp, stateId⟩ draw env.msg) (skipped ++ behind)
      (.handled env (.worker ⟨grp, stateId⟩) draw tag :: node.history)) next := by
  have sent := results_handled actor env draw tag ⟨grp, stateId⟩ []
  have turn := Worker.react_turn ⟨grp, stateId⟩ draw env.msg
  generalize shape : Worker.react ⟨grp, stateId⟩ draw env.msg = r at turn sent ⊢
  generalize asked : env.msg = msg at turn
  cases turn with
  | ignored _ noRequest stale =>
      refine ⟨stateId, epoch_ignored actor grp node stateId skipped behind env draw tag _ epoch split ?_ ?_ rfl ?_ rfl
        sent⟩
      · rwa [asked]
      · rwa [asked]
      · simp [Node.settle, selfSends]
  | raised _ n reason zero =>
      rcases reason with rfl | ⟨a, cycles, cpuTime, rfl⟩
      · exact absurd zero (epoch.nonzero env (by simp [split]) n asked)
      · obtain ⟨_, nonzero, _⟩ := epoch_live actor grp node stateId skipped behind env n a cycles cpuTime epoch split asked
        exact absurd zero nonzero
  | began n a nonzero drawn =>
      have request : requested (.handled env (.worker ⟨grp, stateId⟩) draw tag) = some n := by
        rw [requested, asked]
        rfl
      refine ⟨stateId + 1, epoch_requested actor grp node stateId skipped behind env draw tag _ n a epoch split asked drawn
        ?_ rfl rfl rfl sent⟩
      simpa [requestsHandled, request] using few
  | found n a cycles cpuTime p i nonzero big divides tested sliced =>
      obtain ⟨request, _, _, none, silent⟩ :=
        epoch_live actor grp node stateId skipped behind env n a cycles cpuTime epoch split asked
      have answer := results_continued actor env draw tag _ _ n a cycles cpuTime _ _ asked shape silent
      refine ⟨stateId, epoch_continued actor grp node stateId skipped behind env draw tag _ n a cycles cpuTime []
        epoch split request nonzero asked rfl (by simp [Node.settle, selfSends]) rfl (by simp) (by simp) ?_⟩
      exact .answered p _ cpuTime (by simpa [Node.settle, selfSends] using none) answer divides
  | went n a cycles later cpuTime nonzero =>
      obtain ⟨request, _, range, none, silent⟩ :=
        epoch_live actor grp node stateId skipped behind env n a cycles cpuTime epoch split asked
      have stillSilent := results_continued actor env draw tag _ _ n a cycles cpuTime _ _ asked shape silent
      refine ⟨stateId, epoch_continued actor grp node stateId skipped behind env draw tag _ n a cycles cpuTime _
        epoch split request nonzero asked rfl rfl rfl ?_ ?_ ?_⟩
      · intro new member m b count ticks id isContinuation
        rw [List.mem_singleton.mp member] at isContinuation
        cases isContinuation
        rfl
      · simp [selfSends]
      · refine .live ⟨actor, .none, tag, .continuation n a later cpuTime stateId⟩ a later cpuTime ?_ rfl range stillSilent
        exact (lives_added stateId skipped behind _ none).trans (by simp [isLive])
  | gaveUp n a cycles cpuTime nonzero sliced =>
      obtain ⟨request, _, _, none, silent⟩ :=
        epoch_live actor grp node stateId skipped behind env n a cycles cpuTime epoch split asked
      have answer := results_continued actor env draw tag _ _ n a cycles cpuTime _ _ asked shape silent
      refine ⟨stateId, epoch_continued actor grp node stateId skipped behind env draw tag _ n a cycles cpuTime _
        epoch split request nonzero asked rfl rfl rfl ?_ ?_ ?_⟩
      · simp [selfSends]
      · simp [selfSends]
      · refine .gaveUp cpuTime tag ?_ answer (by simp [Node.settle, selfSends])
        exact (lives_added stateId skipped behind ⟨actor, .none, tag, .calculate n⟩ none).trans (by simp [isLive])

theorem epoch_arrive (epoch : Epoch actor grp node stateId)
    (noContinue : isContinue env.msg = false) (nonzero : ∀ n ∈ asksFor env.msg, n.val ≠ 0) :
    Epoch actor grp (node.arrive env) stateId := by
  have arrived : node.arrive env = ⟨node.status, node.mailbox ++ [env], .arrived env :: node.history⟩ := by
    rcases epoch.status with status | status
    · simp only [Node.arrive, status]
    · simp only [Node.arrive, status]
  have other : ∀ n a cycles cpuTime id, env.msg ≠ .continuation n a cycles cpuTime id := by
    intro n a cycles cpuTime id isContinuation
    simp [isContinuation, isContinue] at noContinue
  have dead : isLive stateId env = false := by
    by_contra live
    obtain ⟨n, a, cycles, cpuTime, isContinuation⟩ := (live_iff stateId env).mp (by simpa using live)
    exact other n a cycles cpuTime stateId isContinuation
  rw [arrived]
  refine epoch_quiet actor grp node _ stateId (.arrived env) ⟨rfl, rfl, rfl, ?_, ?_⟩ epoch epoch.status ?_
  · simp [dead]
  · intro old member _ _
    simp [member]
  · intro old member
    rcases List.mem_append.mp member with before | new
    · exact .inl before
    · rw [List.mem_singleton.mp new]
      exact .inr ⟨other, fun n isCalculate => nonzero n (by rw [isCalculate]; rfl)⟩

theorem epoch_start (epoch : Epoch actor grp node stateId) :
    Epoch actor grp (Node.settle actor tag (behaviour.start actor (.worker ⟨grp, stateId⟩) draw) node.mailbox
      (.started (.worker ⟨grp, stateId⟩) draw tag :: node.history)) stateId := by
  refine epoch_quiet actor grp node _ stateId (.started (.worker ⟨grp, stateId⟩) draw tag) ⟨rfl, rfl, rfl, ?_, ?_⟩ epoch
    (.inr rfl) ?_
  · simp [Node.settle, behaviour, selfSends]
  · intro old member _ _
    simp [Node.settle, behaviour, member]
  · intro old member
    exact .inl (by simpa [Node.settle, behaviour, selfSends] using member)

end Handled

theorem epoch_initial (actor : Address) (grp : Group) : Epoch actor grp (Node.fresh (.worker ⟨grp, 0⟩)) 0 := by
  refine ⟨.inl rfl, rfl, ?_, ?_, ?_, ?_⟩
  · simp [Node.fresh]
  · simp [Node.fresh]
  · simp [Node.fresh, lastRequest, Begun]
  · intro event older suffix
    cases List.suffix_nil.mp suffix

theorem epoch_run (actor : Address) (grp : Group) (node : Box)
    (reached : (workerLts actor grp).Reach RequestArrival node) :
    requestsHandled node.history < modulus → ∃ stateId, Epoch actor grp node stateId := by
  refine (workerLts actor grp).reach_invariant RequestArrival
    (fun node => requestsHandled node.history < modulus → ∃ stateId, Epoch actor grp node stateId)
    (fun _ => ⟨0, epoch_initial actor grp⟩) ?_ node reached
  intro before label after _ earlier allow taken few
  rcases local_cases behaviour actor before after label taken with
    ⟨env, rfl, rfl⟩ | ⟨draw, tag, state, rfl, status, rfl⟩ |
    ⟨draw, tag, state, env, skipped, behind, rfl, _, status, accepted, split, _, rfl⟩
  · have same : requestsHandled (before.arrive env).history = requestsHandled before.history := by
      unfold Node.arrive
      split <;> rfl
    obtain ⟨stateId, epoch⟩ := earlier (same ▸ few)
    exact ⟨stateId, epoch_arrive actor grp before stateId env epoch allow.1.2 allow.2⟩
  · rw [Node.settle_history] at few
    obtain ⟨stateId, epoch⟩ := earlier (lt_of_le_of_lt (requests_handled_mono _ _) few)
    have same : state = .worker ⟨grp, stateId⟩ := by
      rcases epoch.status with own | own <;> rw [status] at own <;> cases own
      rfl
    subst same
    exact ⟨stateId, epoch_start actor grp before stateId draw tag epoch⟩
  · rw [Node.settle_history] at few
    obtain ⟨stateId, epoch⟩ := earlier (lt_of_le_of_lt (requests_handled_mono _ _) few)
    have same : state = .worker ⟨grp, stateId⟩ := by
      rcases epoch.status with own | own <;> rw [status] at own <;> cases own
      rfl
    subst same
    exact epoch_handle actor grp before stateId skipped behind env draw tag epoch split few

theorem worker_one_live_computation (actor : Address) (grp : Group) (node : Box)
    (reached : (workerLts actor grp).Reach RequestArrival node) (few : requestsHandled node.history < modulus) :
    ∃ stateId, (node.status = .spawned (.worker ⟨grp, stateId⟩) ∨ node.status = .running (.worker ⟨grp, stateId⟩)) ∧
      (∀ env ∈ node.mailbox, ∀ n a cycles cpuTime id, env.msg = .continuation n a cycles cpuTime id → id ≤ stateId) ∧
      (node.mailbox.filter (isLive stateId)).length ≤ 1 ∧
      (∀ env ∈ node.mailbox, ∀ n a cycles cpuTime, env.msg = .continuation n a cycles cpuTime stateId →
        lastRequest node.history = some n ∧ 1 ≤ a.val ∧ a.val ≤ n.val.natAbs) ∧
      (∀ n, lastRequest node.history = some n →
        (node.mailbox.filter (isLive stateId)).length = 1 ∨
        (∃ p cycles cpuTime, results actor (sinceRequest node.history) = [.factor p cycles cpuTime] ∧
          (Unspilled n → p.val ∣ n.val)) ∨
        (∃ cpuTime tag, results actor (sinceRequest node.history) = [.nofactor cpuTime] ∧
          ⟨actor, none, tag, .calculate n⟩ ∈ node.mailbox)) ∧
      ∀ event older, (event :: older) <:+ node.history → AnswersCurrent actor event older := by
  obtain ⟨stateId, epoch⟩ := epoch_run actor grp node reached few
  refine ⟨stateId, epoch.status, epoch.older, ?_, ?_, ?_, epoch.current⟩
  · cases lives : node.mailbox.filter (isLive stateId) with
    | nil => exact Nat.zero_le 1
    | cons env rest =>
        obtain ⟨member, live⟩ := List.mem_filter.mp (lives ▸ List.mem_cons_self : env ∈ node.mailbox.filter (isLive stateId))
        obtain ⟨n, a, cycles, cpuTime, carries⟩ := (live_iff stateId env).mp live
        obtain ⟨skipped, behind, split⟩ := List.append_of_mem member
        have current := epoch_live actor grp node stateId skipped behind env n a cycles cpuTime epoch split carries
        have begun := epoch.begun
        rw [current.1] at begun
        cases begun.2 with
        | live only a cycles cpuTime alone carries range silent => simp [← lives, alone]
        | answered p cycles cpuTime none sent divides => simp [lives] at none
        | gaveUp cpuTime tag none sent restart => simp [lives] at none
  · intro env member n a cycles cpuTime isContinuation
    obtain ⟨skipped, behind, split⟩ := List.append_of_mem member
    have current := epoch_live actor grp node stateId skipped behind env n a cycles cpuTime epoch split isContinuation
    exact ⟨current.1, current.2.2.1⟩
  · intro n request
    have begun := epoch.begun
    rw [request] at begun
    cases begun.2 with
    | live only a cycles cpuTime alone carries range silent => exact .inl (by rw [alone]; rfl)
    | answered p cycles cpuTime none sent divides =>
        exact .inr (.inl ⟨p, cycles, cpuTime, sent, fun unspilled => divides (unspilled_up_to n unspilled)⟩)
    | gaveUp cpuTime tag none sent restart => exact .inr (.inr ⟨cpuTime, tag, sent, restart⟩)

section System

variable (clients : List ClientArgs) (managers : List ManagerArgs) (allowed : Cluster → Move → Prop)

theorem result_no_continue (msg : Msg) (isResult : Manager.isResult msg = true) : isContinue msg = false := by
  cases msg with
  | continuation n a cycles cpuTime state => cases isResult
  | _ => rfl

theorem routed_no_continue (env : Mail) (routed : Routed env) (grp : Group) (via : env.via = some grp) :
    isContinue env.msg = false := by
  rcases routed_through env grp routed via with
    ⟨_, _, ⟨n, same⟩ | same⟩ | ⟨_, _, same | isResult⟩ | ⟨_, _, _, ⟨n, same⟩ | same⟩ | ⟨_, _, _, _, isResult⟩
  · rw [same]
    rfl
  · rw [same]
    rfl
  · rw [same]
    rfl
  · exact result_no_continue env.msg isResult
  · rw [same]
    rfl
  · rw [same]
    rfl
  · exact result_no_continue env.msg isResult

theorem worker_alone (alone : Box → LocalLabel Address Group Msg Draw → Prop) (process index : Nat)
    (arrives : ∀ node env, GroupArrival node (.arrive env) → (∀ n ∈ asksFor env.msg, Origin clients n.val) →
      alone node (.arrive env))
    (starts : ∀ node draw tag, alone node (.start draw tag))
    (handles : ∀ before draw tag, (system clients managers).Reach allowed before →
      allowed before (.handle (.worker process index) draw) →
      alone (before.node (.worker process index)) (.handle draw tag))
    (net : Cluster) (reached : (system clients managers).Reach allowed net) :
    net.node (.worker process index) = Node.vacant ∨
      (workerLts (.worker process index) (.workers process)).Reach alone (net.node (.worker process index)) := by
  have split := reach_local behaviour (initial clients managers) allowed (.worker process index) _
    (worker_births process index) alone rfl ?_ (fun _ _ _ _ => starts _ _ _)
    (fun before draw _ earlier allow => handles before draw _ earlier allow) net reached
  · rcases split with absent | ⟨state, rfl, run⟩
    · exact .inl absent
    · exact .inr run
  · intro before env earlier coming
    obtain ⟨grp, via, _⟩ := (system_subscribed clients managers allowed before earlier).transit _ env coming
    have routed := (system_routed clients managers allowed before earlier).transit _ env coming
    have origin := (system_origin clients managers allowed before earlier).transit _ env coming
    refine arrives _ env ⟨by rw [via]; rfl, routed_no_continue env routed grp via⟩ ?_
    intro n asked
    cases same : env.msg <;> rw [same] at asked <;> cases asked
    rwa [MailOrigin, same] at origin

theorem system_epoch (typed : ∀ args ∈ clients, args.n.val ≠ 0) (net : Cluster) (process index : Nat)
    (reached : (system clients managers).Reach allowed net) (present : net.node (.worker process index) ≠ Node.vacant)
    (few : requestsHandled (net.node (.worker process index)).history < modulus) :
    ∃ stateId, Epoch (.worker process index) (.workers process) (net.node (.worker process index)) stateId := by
  have alone := worker_alone clients managers allowed RequestArrival process index ?_ (fun _ _ _ => trivial)
    (fun _ _ _ _ _ => trivial) net reached
  · rcases alone with absent | run
    · exact absurd absent present
    · exact epoch_run _ _ _ run few
  · intro node env arrival origin
    refine ⟨arrival, ?_⟩
    intro n asked zero
    obtain ⟨args, member, derived⟩ := origin n asked
    exact derived.nonzero (typed args member) zero

end System

def requestFor (n : Nat) : LocalLabel Address Group Msg Draw :=
  .arrive ⟨.manager 0, some (.workers 0), 0, .calculate (Int512.ofNat n)⟩

theorem worker_one_live_eight : ∃ node : Box,
    (workerLts (.worker 0 0) (.workers 0)).Reach RequestArrival node ∧ requestsHandled node.history < modulus ∧
      lastRequest node.history = some (Int512.ofNat 8) ∧
      results (.worker 0 0) (sinceRequest node.history) = [.factor (Int512.ofNat 4) 0 0] ∧
      ∃ stateId, (node.mailbox.filter (isLive stateId)).length ≤ 1 := by
  obtain ⟨node, reached, passed⟩ := (workerLts (.worker 0 0) (.workers 0)).run_finds RequestArrival
    [.start (drawing 0) 0, requestFor 8, .handle (drawing 1) 1, .handle (drawing 7) 2]
    (fun node => decide (requestsHandled node.history < modulus ∧ lastRequest node.history = some (Int512.ofNat 8) ∧
      results (.worker 0 0) (sinceRequest node.history) = [.factor (Int512.ofNat 4) 0 0])) (by decide +kernel)
  obtain ⟨few, request, answer⟩ := of_decide_eq_true passed
  obtain ⟨stateId, _, _, alone, _⟩ := worker_one_live_computation (.worker 0 0) (.workers 0) node reached few
  exact ⟨node, reached, few, request, answer, stateId, alone⟩

def belowTop : Nat := modulus - 569

theorem worker_sends_thirty_three : ∃ node : Box,
    (workerLts (.worker 0 0) (.workers 0)).Reach RequestArrival node ∧ requestsHandled node.history < modulus ∧
      lastRequest node.history = some (Int512.ofNat belowTop) ∧ node.mailbox = [] ∧
      results (.worker 0 0) (sinceRequest node.history) = [.factor (Int512.ofNat 33) 0 0] ∧
      ¬ (Int512.ofNat 33).val ∣ (Int512.ofNat belowTop).val := by
  obtain ⟨node, reached, passed⟩ := (workerLts (.worker 0 0) (.workers 0)).run_finds RequestArrival
    [.start (drawing 0) 0, requestFor belowTop, .handle (drawing 19291464673928029835) 1, .handle (drawing 0) 2]
    (fun node => decide (requestsHandled node.history < modulus ∧
      lastRequest node.history = some (Int512.ofNat belowTop) ∧ node.mailbox = [] ∧
      results (.worker 0 0) (sinceRequest node.history) = [.factor (Int512.ofNat 33) 0 0])) (by decide +kernel)
  obtain ⟨few, request, empty, answer⟩ := of_decide_eq_true passed
  exact ⟨node, reached, few, request, empty, answer, by decide +kernel⟩

end VsLab
