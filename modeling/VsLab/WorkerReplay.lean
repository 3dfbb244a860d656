import VsLab.WorkerRun
import VsLab.Actors.Replay

set_option autoImplicit false

namespace VsLab

open Actors

-- random_gen() is called for every calculate, and for a continue once its state has
-- been found to be the worker's own.
def consumes (st : WorkerState) : Msg → Bool
  | .calculate _ => true
  | .continuation _ _ _ _ state => decide (state = st.stateId)
  | _ => false

structure Round where
  state : WorkerState
  draw : Draw
  msg : Msg

namespace Round

def effects (round : Round) : List Doing := (Worker.react round.state round.draw round.msg).effects

def after (round : Round) : Option WorkerState :=
  match (Worker.react round.state round.draw round.msg).outcome with
  | .become (.worker later) => some later
  | _ => none

end Round

def roundOf : Past → List Round
  | .handled env (.worker st) draw _ => if consumes st env.msg then [⟨st, draw, env.msg⟩] else []
  | _ => []

def ownOf (effects : List Doing) : List Msg :=
  effects.filterMap fun
    | .send msg => some msg
    | _ => none

def sentBy (actor : Address) (history : List Past) : List Doing := inOrder (Event.effects behaviour actor) history

def idOf : Past → List Int512
  | .handled env (.worker st) draw _ =>
      if isCalculate env.msg then ((Round.after ⟨st, draw, env.msg⟩).map fun later => later.stateId).toList else []
  | _ => []

def stateIds (history : List Past) : List Int512 := inOrder idOf history

def drawOf : Past → List Draw
  | .handled env (.worker st) draw _ => if consumes st env.msg then [draw] else []
  | _ => []

def drawsUsed (history : List Past) : List Draw := inOrder drawOf history

def Streams (draws : Nat → Draw) (history : List Past) : Prop :=
  ∀ k draw, (drawsUsed history)[k]? = some draw → draw = draws k

-- The order in which the calculates of the group and, marked none, the messages the
-- worker has sent itself have entered its mailbox.
def orderOf (actor : Address) : Past → List (Option Int512)
  | .arrived env => (asksFor env.msg).toList.map some
  | event => (ownOf (event.effects behaviour actor)).map fun _ => none

def order (actor : Address) (history : List Past) : List (Option Int512) := inOrder (orderOf actor) history

def belongs (env : Mail) : Bool :=
  match env.msg with
  | .calculate _ => true
  | .continuation .. => env.via.isNone
  | _ => false

def takenOf : Past → List Msg
  | .handled env _ _ _ => if belongs env then [env.msg] else []
  | _ => []

def taken (history : List Past) : List Msg := inOrder takenOf history

def current (node : Box) : Option WorkerState :=
  match node.status with
  | .spawned (.worker st) => some st
  | .running (.worker st) => some st
  | _ => none

def Noise (node : Box) : Msg → Prop
  | .calculate _ => False
  | .continuation _ _ _ _ state => ∀ st, current node = some st → state.val < st.stateId.val
  | msg => Worker.accepts msg = false

def CalmArrival (_ : Box) : LocalLabel Address Group Msg Draw → Prop
  | .arrive env => env.via.isSome = true ∧ isCalculate env.msg = true
  | _ => True

def NoisyArrival (node : Box) : LocalLabel Address Group Msg Draw → Prop
  | .arrive env => env.via.isSome = true ∧ (isCalculate env.msg = true ∨ Noise node env.msg)
  | _ => True

def Settled (node : Box) : Prop :=
  node.status = .exited ∨ (∃ st, node.status = .running (.worker st)) ∧ ∀ env ∈ node.mailbox, Worker.accepts env.msg = false

theorem calm_noisy (node : Box) (label : LocalLabel Address Group Msg Draw) (calm : CalmArrival node label) :
    NoisyArrival node label := by
  cases label with
  | arrive env => exact ⟨calm.1, .inl calm.2⟩
  | start draw tag => trivial
  | handle draw tag => trivial

theorem current_iff (node : Box) (st : WorkerState) :
    current node = some st ↔ node.status = .spawned (.worker st) ∨ node.status = .running (.worker st) := by
  unfold current
  cases status : node.status with
  | spawned state => cases state <;> simp
  | running state => cases state <;> simp
  | absent => simp
  | hung => simp
  | exited => simp

section Rounds

theorem react_quiet (st : WorkerState) (draw : Draw) (msg : Msg) (free : consumes st msg = false) :
    Worker.react st draw msg = ⟨[], .become (.worker st)⟩ := by
  have turn := Worker.react_turn st draw msg
  generalize Worker.react st draw msg = r at turn ⊢
  cases turn with
  | ignored _ _ _ => rfl
  | raised _ n asked zero =>
      rcases asked with rfl | ⟨a, cycles, cpuTime, rfl⟩
      · cases free
      · simp [consumes] at free
  | began n a nonzero drawn => cases free
  | found n a cycles cpuTime p i nonzero big divides tested sliced => simp [consumes] at free
  | went n a cycles later cpuTime nonzero => simp [consumes] at free
  | gaveUp n a cycles cpuTime nonzero sliced => simp [consumes] at free

theorem settle_round (actor : Address) (tag : Nat) (st : WorkerState) (draw : Draw) (msg : Msg) (mailbox : List Mail)
    (history : List Past) :
    let after := Node.settle actor tag (Worker.react st draw msg) mailbox history
    current after = Round.after ⟨st, draw, msg⟩ ∧ (after.status = .exited ↔ Round.after ⟨st, draw, msg⟩ = none) ∧
      (after.status ≠ .exited → after.mailbox = mailbox ++ selfSends actor tag (Worker.react st draw msg).effects) := by
  have turn := Worker.react_turn st draw msg
  unfold Round.after
  generalize Worker.react st draw msg = r at turn ⊢
  cases turn <;> simp [Node.settle, current]

theorem own_belongs (actor : Address) (st : WorkerState) (draw : Draw) (msg : Msg) (tag : Nat) (env : Mail)
    (sent : env ∈ selfSends actor tag (Worker.react st draw msg).effects) : belongs env = true := by
  have turn := Worker.react_turn st draw msg
  generalize Worker.react st draw msg = r at turn sent
  cases turn with
  | ignored _ _ _ => cases sent
  | raised _ n asked zero => cases sent
  | began n a nonzero drawn =>
      cases List.mem_singleton.mp sent
      rfl
  | found n a cycles cpuTime p i nonzero big divides tested sliced => cases sent
  | went n a cycles later cpuTime nonzero =>
      cases List.mem_singleton.mp sent
      rfl
  | gaveUp n a cycles cpuTime nonzero sliced =>
      cases List.mem_singleton.mp sent
      rfl

theorem own_messages (actor : Address) (tag : Nat) (effects : List Doing) :
    (selfSends actor tag effects).map (fun env => env.msg) = ownOf effects := by
  rw [selfSends, ownOf, List.map_filterMap]
  refine congrArg (fun look => effects.filterMap look) (funext fun effect => ?_)
  cases effect <;> rfl

theorem belongs_accepted (env : Mail) (own : belongs env = true) : Worker.accepts env.msg = true := by
  unfold belongs at own
  split at own
  · next same => rw [same]; rfl
  · next same => rw [same]; rfl
  · cases own

theorem draws_rounds (history : List Past) : drawsUsed history = (inOrder roundOf history).flatMap fun round => [round.draw] := by
  refine in_order_parts drawOf roundOf _ ?_ history
  intro event
  cases event with
  | handled env state draw tag =>
      cases state with
      | worker st => cases uses : consumes st env.msg <;> simp [drawOf, roundOf, uses]
      | _ => rfl
  | _ => rfl

theorem ids_rounds (history : List Past) : stateIds history =
    (inOrder roundOf history).flatMap fun round =>
      if isCalculate round.msg then (round.after.map fun later => later.stateId).toList else [] := by
  refine in_order_parts idOf roundOf _ ?_ history
  intro event
  cases event with
  | handled env state draw tag =>
      cases state with
      | worker st =>
          have uses : isCalculate env.msg = true → consumes st env.msg = true := by
            cases env.msg <;> simp [isCalculate, consumes]
          cases asked : isCalculate env.msg with
          | true => simp [idOf, roundOf, asked, uses asked]
          | false => cases free : consumes st env.msg <;> simp [idOf, roundOf, asked, free]
      | _ => rfl
  | _ => rfl

theorem round_effects (actor : Address) (env : Mail) (st : WorkerState) (draw : Draw) (tag : Nat) :
    Event.effects behaviour actor (.handled env (.worker st) draw tag) =
      (roundOf (.handled env (.worker st) draw tag)).flatMap Round.effects := by
  change (Worker.react st draw env.msg).effects = _
  cases free : consumes st env.msg with
  | true => simp [roundOf, free, Round.effects]
  | false => simp [roundOf, free, react_quiet st draw env.msg free]

end Rounds

section Replay

variable (grp : Group) (draws : Nat → Draw)

def advance (play : Option WorkerState × List Round) (msg : Msg) : Option WorkerState × List Round :=
  match play.1 with
  | none => play
  | some st =>
      if consumes st msg then
        (Round.after ⟨st, draws play.2.length, msg⟩, play.2 ++ [⟨st, draws play.2.length, msg⟩])
      else play

def replay (msgs : List Msg) : Option WorkerState × List Round := msgs.foldl (advance draws) (some ⟨grp, 0⟩, [])

def ownSent (rounds : List Round) : List Msg := rounds.flatMap fun round => ownOf round.effects

theorem replay_snoc (msgs : List Msg) (msg : Msg) : replay grp draws (msgs ++ [msg]) = advance draws (replay grp draws msgs) msg := by
  rw [replay, List.foldl_append]
  rfl

theorem advance_longer (play : Option WorkerState × List Round) (msg : Msg) : play.2 <+: (advance draws play msg).2 := by
  unfold advance
  split
  · exact List.prefix_refl _
  · split
    · exact List.prefix_append _ _
    · exact List.prefix_refl _

theorem replay_longer (fewer more : List Msg) (earlier : fewer <+: more) :
    (replay grp draws fewer).2 <+: (replay grp draws more).2 := by
  obtain ⟨rest, rfl⟩ := earlier
  induction rest using List.reverseRecOn with
  | nil => simp
  | append_singleton rest msg ih =>
      rw [← List.append_assoc, replay_snoc]
      exact ih.trans (advance_longer draws _ msg)

theorem advance_round (play : Option WorkerState × List Round) (st : WorkerState) (draw : Draw) (env : Mail) (tag : Nat)
    (before : play.1 = some st) (drawn : consumes st env.msg = true → draw = draws play.2.length) :
    advance draws play env.msg =
      (Round.after ⟨st, draw, env.msg⟩, play.2 ++ roundOf (.handled env (.worker st) draw tag)) := by
  obtain ⟨state, rounds⟩ := play
  cases before
  cases free : consumes st env.msg with
  | true => simp [advance, roundOf, free, drawn free]
  | false => simp [advance, roundOf, free, Round.after, react_quiet st draw env.msg free]

end Replay

def enteredOf (actor : Address) : Past → List Msg
  | .arrived env => if belongs env then [env.msg] else []
  | event => ownOf (event.effects behaviour actor)

def entered (actor : Address) (history : List Past) : List Msg := inOrder (enteredOf actor) history

def ours (mailbox : List Mail) : List Msg := (mailbox.filter belongs).map fun env => env.msg

section Following

variable (actor : Address) (grp : Group) (draws : Nat → Draw)

structure Follows (node : Box) : Prop where
  state : ∀ st, current node = some st → (replay grp draws (taken node.history)).1 = some st
  ended : node.status = .exited → (replay grp draws (taken node.history)).1 = none
  rounds : inOrder roundOf node.history = (replay grp draws (taken node.history)).2
  sent : sentBy actor node.history = (inOrder roundOf node.history).flatMap Round.effects
  filled : entered actor node.history = fill .calculate (order actor node.history) (ownSent (inOrder roundOf node.history))
  counted : ownCount (order actor node.history) = (ownSent (inOrder roundOf node.history)).length
  queued : node.status ≠ .exited → entered actor node.history = taken node.history ++ ours node.mailbox
  causal : Causal .calculate (fun msgs => ownSent (replay grp draws msgs).2) (fun msgs => (replay grp draws msgs).1 ≠ none)
    (order actor node.history) (taken node.history)

theorem streams_older (event : Past) (history : List Past) (streams : Streams draws (event :: history)) :
    Streams draws history := by
  intro k draw found
  refine streams k draw ?_
  unfold drawsUsed at found ⊢
  rwa [in_order_cons, List.getElem?_append_left (List.getElem?_eq_some_iff.mp found).1]

theorem own_sent_append (first second : List Round) : ownSent (first ++ second) = ownSent first ++ ownSent second :=
  List.flatMap_append

theorem ours_append (first second : List Mail) : ours (first ++ second) = ours first ++ ours second := by
  simp [ours]

theorem ours_rejected (mailbox : List Mail) (rejected : ∀ env ∈ mailbox, Worker.accepts env.msg = false) :
    ours mailbox = [] := by
  have none : mailbox.filter belongs = [] := by
    rw [List.filter_eq_nil_iff]
    intro env member own
    have accepted := belongs_accepted env own
    rw [rejected env member] at accepted
    cases accepted
  rw [ours, none, List.map_nil]

theorem ours_own (st : WorkerState) (draw : Draw) (msg : Msg) (tag : Nat) :
    ours (selfSends actor tag (Worker.react st draw msg).effects) = ownOf (Worker.react st draw msg).effects := by
  rw [ours, List.filter_eq_self.mpr (own_belongs actor st draw msg tag), own_messages]

theorem follows_entry (node after : Box) (event : Past) (added : List (Option Int512)) (follows : Follows actor grp draws node)
    (recorded : after.history = event :: node.history) (notTaken : takenOf event = []) (noRound : roundOf event = [])
    (noEffect : event.effects behaviour actor = []) (ordered : orderOf actor event = added) (outside : ownCount added = 0)
    (enters : enteredOf actor event = fill .calculate added []) (same : current after = current node)
    (alive : after.status = .exited ↔ node.status = .exited)
    (mail : ours after.mailbox = ours node.mailbox ++ enteredOf actor event) : Follows actor grp draws after := by
  have sameTaken : taken after.history = taken node.history := by
    rw [recorded, taken, in_order_cons, notTaken, List.append_nil, taken]
  have sameRounds : inOrder roundOf after.history = inOrder roundOf node.history := by
    rw [recorded, in_order_cons, noRound, List.append_nil]
  have sameSent : sentBy actor after.history = sentBy actor node.history := by
    rw [recorded, sentBy, in_order_cons, noEffect, List.append_nil, sentBy]
  have nowOrdered : order actor after.history = order actor node.history ++ added := by
    rw [recorded, order, in_order_cons, ordered, order]
  have nowEntered : entered actor after.history = entered actor node.history ++ enteredOf actor event := by
    rw [recorded, entered, in_order_cons, entered]
  refine ⟨?_, ?_, ?_, ?_, ?_, ?_, ?_, ?_⟩
  · rw [same, sameTaken]
    exact follows.state
  · rw [alive, sameTaken]
    exact follows.ended
  · rw [sameRounds, sameTaken]
    exact follows.rounds
  · rw [sameSent, sameRounds]
    exact follows.sent
  · have more := fill_append Msg.calculate _ added _ [] follows.counted
    rw [List.append_nil] at more
    rw [nowEntered, nowOrdered, sameRounds, more, follows.filled, enters]
  · rw [nowOrdered, sameRounds, own_count_append, outside, follows.counted, Nat.add_zero]
  · intro lives
    rw [nowEntered, sameTaken, mail, follows.queued (fun gone => lives (alive.mpr gone)), List.append_assoc]
  · rw [nowOrdered, sameTaken]
    exact causal_longer _ _ _ _ _ (List.prefix_append _ _) _ follows.causal

theorem follows_arrive (node : Box) (env : Mail) (follows : Follows actor grp draws node)
    (arrival : NoisyArrival node (.arrive env)) : Follows actor grp draws (node.arrive env) := by
  rcases Node.arrive_cases env node with ⟨_, same⟩ | ⟨_, _, same⟩
  · rwa [same]
  · rw [same]
    have mail : ours (node.mailbox ++ [env]) = ours node.mailbox ++ enteredOf actor (.arrived env) := by
      cases own : belongs env <;> simp [ours, enteredOf, own]
    cases own : belongs env with
    | false =>
        have silent : asksFor env.msg = none := by
          cases asked : env.msg <;> first | rfl | simp [belongs, asked] at own
        exact follows_entry actor grp draws node _ (.arrived env) [] follows rfl rfl rfl rfl (by simp [orderOf, silent]) rfl
          (by simp [enteredOf, own, fill]) rfl Iff.rfl mail
    | true =>
        obtain ⟨n, asks⟩ : ∃ n, env.msg = .calculate n := by
          cases asked : env.msg with
          | calculate n => exact ⟨n, rfl⟩
          | continuation n a cycles cpuTime state =>
              have outside := arrival.1
              rw [belongs, asked, Option.isNone_iff_eq_none] at own
              rw [own] at outside
              cases outside
          | _ => simp [belongs, asked] at own
        exact follows_entry actor grp draws node _ (.arrived env) [some n] follows rfl rfl rfl rfl
          (by simp [orderOf, asks, asksFor]) rfl (by simp [enteredOf, own, asks, fill]) rfl Iff.rfl mail

theorem follows_start (node : Box) (st : WorkerState) (draw : Draw) (tag : Nat) (follows : Follows actor grp draws node)
    (status : node.status = .spawned (.worker st)) :
    Follows actor grp draws ⟨.running (.worker st), node.mailbox, .started (.worker st) draw tag :: node.history⟩ :=
  follows_entry actor grp draws node _ (.started (.worker st) draw tag) [] follows rfl rfl rfl rfl rfl rfl rfl
    (by simp [current, status]) (by simp [status]) (by simp [enteredOf, Event.effects, behaviour, ownOf])

theorem streams_next (history : List Past) (st : WorkerState) (draw : Draw) (tag : Nat) (env : Mail)
    (streams : Streams draws (.handled env (.worker st) draw tag :: history)) (uses : consumes st env.msg = true) :
    draw = draws (inOrder roundOf history).length := by
  refine streams _ draw ?_
  have count : (drawsUsed history).length = (inOrder roundOf history).length := by
    simp [draws_rounds]
  unfold drawsUsed at count ⊢
  rw [in_order_cons, ← count]
  simp [drawOf, uses]

theorem follows_handle (node : Box) (st : WorkerState) (draw : Draw) (tag : Nat) (env : Mail) (skipped behind : List Mail)
    (follows : Follows actor grp draws node) (takes : Takes node st env skipped behind) (own : belongs env = true)
    (drawn : consumes st env.msg = true → draw = draws (inOrder roundOf node.history).length) :
    Follows actor grp draws (Node.settle actor tag (Worker.react st draw env.msg) (skipped ++ behind)
      (.handled env (.worker st) draw tag :: node.history)) := by
  have before := follows.state st ((current_iff node st).mpr (.inr takes.status))
  have sent : Event.effects behaviour actor (.handled env (.worker st) draw tag) = (Worker.react st draw env.msg).effects := rfl
  have nowTaken : taken (.handled env (.worker st) draw tag :: node.history) = taken node.history ++ [env.msg] := by
    simp [taken, takenOf, own]
  have played : replay grp draws (taken node.history ++ [env.msg]) = (Round.after ⟨st, draw, env.msg⟩,
      inOrder roundOf (.handled env (.worker st) draw tag :: node.history)) := by
    rw [replay_snoc, advance_round draws _ st draw env tag before (by rw [← follows.rounds]; exact drawn), ← follows.rounds,
      in_order_cons]
  have nowOwn : ownSent (inOrder roundOf (.handled env (.worker st) draw tag :: node.history)) =
      ownSent (inOrder roundOf node.history) ++ ownOf (Worker.react st draw env.msg).effects := by
    rw [in_order_cons, own_sent_append, ← sent, round_effects, ownSent, ownOf, List.filterMap_flatMap]
    rfl
  have nowOrdered : order actor (.handled env (.worker st) draw tag :: node.history) =
      order actor node.history ++ (ownOf (Worker.react st draw env.msg).effects).map fun _ => none := by
    simp [order, orderOf, sent]
  have nowEntered : entered actor (.handled env (.worker st) draw tag :: node.history) =
      entered actor node.history ++ ownOf (Worker.react st draw env.msg).effects := by
    simp [entered, enteredOf, sent]
  have empty := ours_rejected skipped takes.rejected
  have queue : entered actor node.history = taken node.history ++ env.msg :: ours behind := by
    rw [follows.queued (by simp [takes.status]), takes.split, ours_append, empty]
    simp [ours, own]
  obtain ⟨now, exits, mail⟩ := settle_round actor tag st draw env.msg (skipped ++ behind)
    (.handled env (.worker st) draw tag :: node.history)
  refine ⟨?_, ?_, ?_, ?_, ?_, ?_, ?_, ?_⟩
  · intro later isLater
    rw [now] at isLater
    rw [Node.settle_history, nowTaken, played]
    exact isLater
  · intro gone
    rw [Node.settle_history, nowTaken, played]
    exact exits.mp gone
  · rw [Node.settle_history, nowTaken, played]
  · rw [Node.settle_history, sentBy, in_order_cons, in_order_cons, List.flatMap_append, ← follows.sent, round_effects]
    rfl
  · rw [Node.settle_history, nowEntered, nowOrdered, nowOwn, fill_append _ _ _ _ _ follows.counted, fill_own, follows.filled]
  · rw [Node.settle_history, nowOrdered, nowOwn, own_count_append, own_count_own, follows.counted, List.length_append]
  · intro lives
    rw [Node.settle_history, nowEntered, nowTaken, mail lives, ours_append, ours_append, empty, queue, ours_own]
    simp
  · rw [Node.settle_history, nowTaken, nowOrdered]
    refine .snoc _ _ (causal_longer _ _ _ _ _ (List.prefix_append _ _) _ follows.causal) (by rw [before]; simp) ?_
    refine List.IsPrefix.trans ?_ (fill_mono _ _ _ _ _ (List.prefix_append _ _) (List.prefix_refl _))
    rw [← follows.rounds, ← follows.filled, queue]
    exact ⟨ours behind, by simp⟩

theorem follows_noise (node : Box) (st : WorkerState) (draw : Draw) (tag : Nat) (env : Mail) (skipped behind : List Mail)
    (follows : Follows actor grp draws node) (takes : Takes node st env skipped behind) (foreign : belongs env = false)
    (free : consumes st env.msg = false) :
    Follows actor grp draws (Node.settle actor tag (Worker.react st draw env.msg) (skipped ++ behind)
      (.handled env (.worker st) draw tag :: node.history)) := by
  have quiet := react_quiet st draw env.msg free
  have settled : Node.settle actor tag (Worker.react st draw env.msg) (skipped ++ behind)
      (.handled env (.worker st) draw tag :: node.history) =
        ⟨.running (.worker st), skipped ++ behind, .handled env (.worker st) draw tag :: node.history⟩ := by
    simp [quiet, Node.settle, selfSends]
  have silent : Event.effects behaviour actor (.handled env (.worker st) draw tag) = [] := by
    rw [round_effects]
    simp [roundOf, free]
  rw [settled]
  refine follows_entry actor grp draws node _ (.handled env (.worker st) draw tag) [] follows rfl (by simp [takenOf, foreign])
    (by simp [roundOf, free]) silent (by simp [orderOf, silent, ownOf]) rfl (by simp [enteredOf, silent, ownOf, fill])
    (by simp [current, takes.status]) (by simp [takes.status]) ?_
  simp [takes.split, ours, foreign, enteredOf, silent, ownOf]

theorem follows_initial : Follows actor grp draws (Node.fresh (.worker ⟨grp, 0⟩)) := by
  refine ⟨?_, ?_, rfl, rfl, rfl, rfl, fun _ => rfl, .nil⟩
  · rintro st ⟨⟩
    rfl
  · rintro ⟨⟩

theorem follows_run (alone : Box → LocalLabel Address Group Msg Draw → Prop)
    (noisy : ∀ node label, alone node label → NoisyArrival node label) (short : List Past → Prop)
    (older : ∀ event history, short (event :: history) → short history)
    (harmless : ∀ node st env, (workerLts actor grp).Reach alone node → short node.history → current node = some st →
      env ∈ node.mailbox → belongs env = false → consumes st env.msg = false)
    (node : Box) (reached : (workerLts actor grp).Reach alone node) (isShort : short node.history)
    (streams : Streams draws node.history) : Follows actor grp draws node := by
  suffices follows : short node.history → Streams draws node.history → Follows actor grp draws node from follows isShort streams
  refine reach_worker actor grp alone (fun node => short node.history → Streams draws node.history → Follows actor grp draws node)
    (fun _ _ => follows_initial actor grp draws) ?_ ?_ ?_ node reached
  · intro node env holds arrival isShort streams
    refine follows_arrive actor grp draws node env ?_ (noisy node _ arrival)
    rcases Node.arrive_cases env node with ⟨_, same⟩ | ⟨_, _, same⟩
    · rw [same] at isShort streams
      exact holds isShort streams
    · rw [same] at isShort streams
      exact holds (older _ _ isShort) (streams_older draws _ _ streams)
  · intro node st draw tag holds status isShort streams
    exact follows_start actor grp draws node st draw tag (holds (older _ _ isShort) (streams_older draws _ _ streams)) status
  · intro node st draw tag env skipped behind earlier holds _ takes isShort streams
    rw [Node.settle_history] at isShort streams
    have follows := holds (older _ _ isShort) (streams_older draws _ _ streams)
    cases own : belongs env with
    | true =>
        exact follows_handle actor grp draws node st draw tag env skipped behind follows takes own
          (streams_next draws node.history st draw tag env streams)
    | false =>
        have now : current node = some st := (current_iff node st).mpr (.inr takes.status)
        exact follows_noise actor grp draws node st draw tag env skipped behind follows takes own
          (harmless node st env earlier (older _ _ isShort) now takes.present own)

end Following

end VsLab
