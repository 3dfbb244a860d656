import VsLab.Resume
import VsLab.Actors.Local
import VsLab.ClientRun

set_option autoImplicit false

namespace VsLab.Mailbox

open Chains Actors

variable {T W P A G M S D O : Type}

def isAction : Event A G M S D → Bool
  | .arrived _ => false
  | _ => true

def actions (history : List (Event A G M S D)) : List (Event A G M S D) := history.filter isAction

theorem actions_arrive (env : Envelope A G M) (node : Node A G M S D) :
    actions (node.arrive env).history = actions node.history := by
  rcases Node.arrive_cases env node with ⟨_, same⟩ | ⟨_, _, same⟩
  · rw [same]
  · rw [same]
    rfl

section Ready

variable (beh : Behaviour A G M S D O) (actor : A)

def Ready (event : Event A G M S D) (node : Node A G M S D) (rest : List (Envelope A G M)) : Prop :=
  match event with
  | .arrived _ => False
  | .started state _ _ => node.status = .spawned state ∧ node.mailbox = rest
  | .handled env state _ _ =>
      node.status = .running state ∧ beh.accepts state env.msg = true ∧
        ∃ skipped behind, node.mailbox = skipped ++ env :: behind ∧
          (∀ other ∈ skipped, beh.accepts state other.msg = false) ∧ skipped ++ behind = rest

theorem ready_fires (event : Event A G M S D) (node : Node A G M S D) (rest : List (Envelope A G M))
    (ready : Ready beh event node rest) :
    ∃ label, localStep beh actor node label =
      some (Node.settle actor event.tag (reactionOf beh actor event) rest (event :: node.history)) := by
  cases event with
  | arrived env => exact ready.elim
  | started state draw tag =>
      obtain ⟨status, mailbox⟩ := ready
      refine ⟨.start draw tag, ?_⟩
      simp only [localStep, Node.start, status, mailbox]
      rfl
  | handled env state draw tag =>
      obtain ⟨status, accepted, skipped, behind, mailbox, rejected, same⟩ := ready
      have found : (node.mailbox.find? fun other => beh.accepts state other.msg) = some env := by
        rw [mailbox, List.find?_eq_some_iff_append]
        exact ⟨accepted, skipped, behind, rfl, by simpa using rejected⟩
      have erased : (node.mailbox.eraseP fun other => beh.accepts state other.msg) = rest := by
        rw [mailbox, List.eraseP_append_right _ (by simpa using rejected)]
        simp [accepted, same]
      refine ⟨.handle draw tag, ?_⟩
      simp only [localStep, Node.handle, (Node.next_some beh node state env).mpr ⟨status, found⟩, Option.map_some, erased]
      rfl

theorem ready_arrives (event : Event A G M S D) (node : Node A G M S D) (rest : List (Envelope A G M))
    (env : Envelope A G M) (ready : Ready beh event node rest) : Ready beh event (node.arrive env) (rest ++ [env]) := by
  cases event with
  | arrived other => exact ready.elim
  | started state draw tag =>
      obtain ⟨status, mailbox⟩ := ready
      refine ⟨(Node.arrive_status env node).trans status, ?_⟩
      simp [Node.arrive, status, mailbox]
  | handled handled state draw tag =>
      obtain ⟨status, accepted, skipped, behind, mailbox, rejected, same⟩ := ready
      refine ⟨(Node.arrive_status env node).trans status, accepted, skipped, behind ++ [env], ?_, rejected, ?_⟩
      · simp [Node.arrive, status, mailbox]
      · rw [← List.append_assoc, same]

theorem settle_status (tag : Nat) (reaction : Reaction A G M S O) (rest : List (Envelope A G M))
    (history : List (Event A G M S D)) :
    (Node.settle actor tag reaction rest history).status = settledStatus reaction.outcome := by
  unfold Node.settle
  cases reaction.outcome <;> rfl

theorem settle_rest (tag : Nat) (reaction : Reaction A G M S O) (rest : List (Envelope A G M))
    (history : List (Event A G M S D)) (goesOn : settledStatus reaction.outcome ≠ .exited) :
    (Node.settle actor tag reaction rest history).mailbox = rest ++ selfSends actor tag reaction.effects := by
  unfold Node.settle
  cases outcome : reaction.outcome with
  | become state => rfl
  | hang => rfl
  | quit => exact absurd (by rw [outcome]; rfl) goesOn
  | raise => exact absurd (by rw [outcome]; rfl) goesOn

end Ready

section Simulation

variable (beh : Behaviour A G M S D O) (actor : A) (me : T) (r later : Runtime T W P A G M S D) (node : Node A G M S D)

def Runtime.cached : List (Envelope A G M) := r.cache.filterMap r.queue.contentAt

def Phase.hand : Phase P A G M S D → List P
  | .fetched elem => [elem]
  | _ => []

def Runtime.inHand : List (Envelope A G M) := r.phase.hand.filterMap r.queue.contentAt

def Runtime.effective : Status S :=
  match r.phase with
  | .busy event _ => settledStatus (reactionOf beh actor event).outcome
  | _ => r.status

def Settled : Prop := ∀ event todo, r.phase = .busy event todo → todo = [] ∧ (r.queue.senders me).elem = none

structure Even : Prop where
  settled : Settled me r
  status : node.status = r.effective beh actor
  mailbox : node.status ≠ .exited → node.mailbox = r.cached ++ r.inHand ++ r.queue.waiting
  log : r.log = actions node.history

-- The code has called a handler that has not yet put its message into the mailbox: the
-- node takes that step when it does.
structure Behind (event : Event A G M S D) (todo : List (Envelope A G M)) (env : Envelope A G M) : Prop where
  phase : r.phase = .busy event todo
  sends : selfSends actor event.tag (reactionOf beh actor event).effects = [env]
  carried : todo = [env] ∧ (r.queue.senders me).elem = none ∨
    todo = [] ∧ ∃ elem, (r.queue.senders me).elem = some elem ∧ r.queue.contentAt elem = some env
  ready : Ready beh event node (r.cached ++ r.queue.waiting)
  log : r.log = event :: actions node.history

structure Sim : Prop where
  clean : ∀ state, r.status = .running state → r.phase.searched = true →
    ∀ env ∈ r.cached, beh.accepts state env.msg = false
  follows : Even beh actor me r node ∨ ∃ event todo env, Behind beh actor me r node event todo env

theorem sim_outside (present : node.status ≠ .absent) (queue : Queue T W P (Envelope A G M)) (new : Option (Envelope A G M))
    (held : ∀ addr ∈ r.cache ++ r.phase.hand, queue.contentAt addr = r.queue.contentAt addr)
    (mine : (queue.senders me).elem = (r.queue.senders me).elem)
    (content : ∀ addr, (r.queue.senders me).elem = some addr → queue.contentAt addr = r.queue.contentAt addr)
    (waiting : queue.waiting = r.queue.waiting ++ new.toList) (sim : Sim beh actor me r node) :
    Sim beh actor me { r with queue := queue } (new.elim node fun env => node.arrive env) := by
  have cached : ({ r with queue := queue } : Runtime T W P A G M S D).cached = r.cached :=
    List.filterMap_congr fun addr member => held addr (List.mem_append_left _ member)
  have inHand : ({ r with queue := queue } : Runtime T W P A G M S D).inHand = r.inHand :=
    List.filterMap_congr fun addr member => held addr (List.mem_append_right _ member)
  refine ⟨?_, ?_⟩
  · rw [cached]
    exact sim.clean
  · rcases sim.follows with even | ⟨event, todo, env, behind⟩
    · refine .inl ⟨?_, ?_, ?_, ?_⟩
      · simpa only [Settled, mine] using even.settled
      · cases new with
        | none => exact even.status
        | some env => exact (Node.arrive_status env node).trans even.status
      · rw [cached, inHand, waiting]
        cases new with
        | none => simpa using even.mailbox
        | some env =>
            intro goesOn
            rw [Option.elim_some, Node.arrive_status] at goesOn
            rcases Node.arrive_cases env node with ⟨gone | gone, _⟩ | ⟨_, _, same⟩
            · exact absurd gone present
            · exact absurd gone goesOn
            · simp [same, even.mailbox goesOn]
      · cases new with
        | none => exact even.log
        | some env => exact even.log.trans (actions_arrive env node).symm
    · refine .inr ⟨event, todo, env, behind.phase, behind.sends, ?_, ?_, ?_⟩
      · rcases behind.carried with ⟨todoIs, none⟩ | ⟨todoIs, elem, has, holds⟩
        · exact .inl ⟨todoIs, mine.trans none⟩
        · exact .inr ⟨todoIs, elem, mine.trans has, (content elem has).trans holds⟩
      · rw [cached, waiting]
        cases new with
        | none => simpa using behind.ready
        | some other =>
            rw [Option.toList_some, ← List.append_assoc]
            exact ready_arrives beh event node _ other behind.ready
      · cases new with
        | none => exact behind.log
        | some other =>
            rw [Option.elim_some, actions_arrive]
            exact behind.log

structure Held (s : Queue T W P M) (addr : P) : Prop where
  live : s.cells addr ≠ none
  apart : ∀ t, (s.senders t).elem ≠ some addr
  notHead : s.head ≠ some addr

theorem shaped_held (s : Queue T W P M) (shaped : Shaped s) :
    ∃ cur, Current s cur ∧ ∀ addr ∈ cur.hand ++ s.cache, Held s addr := by
  obtain ⟨cur, sl, ml, hl, current, shape⟩ := shaped
  refine ⟨cur, current, fun addr member => ⟨shape.layout.live addr member, ?_, ?_⟩⟩
  · intro t has
    exact shape.pending.apart t addr has (List.mem_append_right _ member)
  · intro isHead
    have onHead := shape.layout.head
    rw [isHead] at onHead
    obtain ⟨msg, rest, rfl, _⟩ := chain_some s.cells addr hl onHead
    have parts := List.nodup_append'.mp shape.layout.distinct
    exact parts.2.2 (by simp) member

theorem stage_held [DecidableEq W]
    (shaped : Shaped r.queue) (stage : Stage me r) (addr : P) (member : addr ∈ r.cache ++ r.phase.hand) :
    Held r.queue addr := by
  obtain ⟨cur, current, held⟩ := shaped_held r.queue shaped
  have works (isWorking : r.phase.works = true) (member : addr ∈ r.cache) : Held r.queue addr := by
    rcases stage.working isWorking with ⟨w, i, elem, pc, sub⟩ | ⟨w, pc, same, _⟩
    · refine held addr ?_
      rw [(current_here r.queue cur w current (by simp [pc])).1, pc]
      exact List.mem_append.mpr (List.mem_append.mp (sub.subset member)).symm
    · exact held addr (List.mem_append_right _ (same ▸ member))
  cases phase : r.phase with
  | quiet =>
      rw [phase] at member
      refine held addr (List.mem_append_right _ ?_)
      rw [← (stage.quiet phase).1]
      simpa [Phase.hand] using member
  | fetched elem =>
      obtain ⟨cache, w, i, pc⟩ := stage.fetched elem phase
      rw [phase, cache] at member
      refine held addr ?_
      rw [(current_here r.queue cur w current (by simp [pc])).1, pc]
      exact List.mem_append.mpr (List.mem_append.mp member).symm
  | busy event todo =>
      rw [phase] at member
      exact works (by rw [phase]; rfl) (by simpa [Phase.hand] using member)
  | scanning =>
      rw [phase] at member
      exact works (by rw [phase]; rfl) (by simpa [Phase.hand] using member)
  | passed =>
      rw [phase] at member
      exact works (by rw [phase]; rfl) (by simpa [Phase.hand] using member)

def Moves (after : Node A G M S D) : Prop := after = node ∨ ∃ label, localStep beh actor node label = some after

theorem sim_send [DecidableEq T] [DecidableEq W] [DecidableEq P]
    (present : node.status ≠ .absent) (shaped : Shaped r.queue) (stage : Stage me r) (t : T) (elem : P)
    (env : Envelope A G M) (other : t ≠ me) (queue : Queue T W P (Envelope A G M))
    (taken : r.queue.send t elem env = some queue) (sim : Sim beh actor me r node) :
    Sim beh actor me { r with queue := queue } node := by
  have same : queue.senders me = r.queue.senders me ∧ queue.waiting = r.queue.waiting := by
    obtain ⟨_, _, rfl⟩ := send_cases r.queue queue t elem env taken
    exact ⟨Function.update_of_ne (Ne.symm other) _ _, rfl⟩
  have live (addr : P) (has : (r.queue.senders me).elem = some addr) : r.queue.cells addr ≠ none := by
    obtain ⟨_, _, _, _, _, shape⟩ := shaped
    exact shape.pending.live me addr has
  refine sim_outside beh actor me r node present queue none ?_ (by rw [same.1]) ?_ (by simp [same.2]) sim
  · intro addr member
    exact content_send r.queue queue t elem addr env (stage_held me r shaped stage addr member).live taken
  · intro addr has
    exact content_send r.queue queue t elem addr env (live addr has) taken

theorem sim_enqueue_other [DecidableEq T] [DecidableEq W] [DecidableEq P]
    (present : node.status ≠ .absent) (shaped : Shaped r.queue) (stage : Stage me r) (t : T)
    (other : t ≠ me) (queue : Queue T W P (Envelope A G M)) (taken : r.queue.enqueue t = some queue)
    (sim : Sim beh actor me r node) :
    ∃ after, Moves beh actor node after ∧ Sim beh actor me { r with queue := queue } after := by
  have held (addr : P) (member : addr ∈ r.cache ++ r.phase.hand) : queue.contentAt addr = r.queue.contentAt addr :=
    content_enqueue r.queue queue t addr
      (fun has => absurd has ((stage_held me r shaped stage addr member).apart t)) taken
  have content (addr : P) (has : (r.queue.senders me).elem = some addr) :
      queue.contentAt addr = r.queue.contentAt addr := by
    obtain ⟨_, _, _, _, _, shape⟩ := shaped
    exact content_enqueue r.queue queue t addr
      (fun also => absurd (shape.pending.distinct t me addr also has) other) taken
  obtain ⟨others, effect⟩ := enqueue_waiting r.queue queue shaped t taken
  have mine : (queue.senders me).elem = (r.queue.senders me).elem := by rw [others me (Ne.symm other)]
  rcases effect with ⟨waiting, _⟩ | ⟨elem, env, _, _, waiting, _⟩
  · exact ⟨node, .inl rfl, sim_outside beh actor me r node present queue none held mine content (by simp [waiting]) sim⟩
  · exact ⟨node.arrive env, .inr ⟨.arrive env, rfl⟩,
      sim_outside beh actor me r node present queue (some env) held mine content waiting sim⟩

theorem even_fires (event : Event A G M S D) (rest : List (Envelope A G M)) (ready : Ready beh event node rest)
    (phase : later.phase = .busy event []) (sent : (later.queue.senders me).elem = none)
    (log : later.log = event :: actions node.history)
    (mailbox : later.cached ++ later.queue.waiting = rest ++ selfSends actor event.tag (reactionOf beh actor event).effects) :
    ∃ after, Moves beh actor node after ∧ Even beh actor me later after := by
  obtain ⟨label, stepped⟩ := ready_fires beh actor event node rest ready
  refine ⟨_, .inr ⟨label, stepped⟩, ?_, ?_, ?_, ?_⟩
  · intro other todo busy
    rw [phase] at busy
    cases busy
    exact ⟨rfl, sent⟩
  · rw [settle_status, Runtime.effective, phase]
  · intro goesOn
    rw [settle_status] at goesOn
    have hand : later.inHand = [] := by rw [Runtime.inHand, phase]; rfl
    rw [settle_rest actor event.tag _ rest _ goesOn, ← mailbox, hand, List.append_nil]
  · rw [Node.settle_history, log]
    cases event with
    | arrived env => exact ready.elim
    | _ => rfl

theorem sim_enqueue_me [DecidableEq T] [DecidableEq P]
    (present : node.status ≠ .absent) (shaped : Shaped r.queue) (stage : Stage me r)
    (queue : Queue T W P (Envelope A G M)) (taken : r.queue.enqueue me = some queue) (sim : Sim beh actor me r node) :
    ∃ after, Moves beh actor node after ∧ Sim beh actor me { r with queue := queue } after := by
  have notClosed (elem : P) : r.queue.senders me ≠ .ready elem .closed := fun pc => stage.sends elem .closed pc rfl
  have held (addr : P) : queue.contentAt addr = r.queue.contentAt addr :=
    content_enqueue r.queue queue me addr (fun _ => notClosed) taken
  obtain ⟨_, effect⟩ := enqueue_waiting r.queue queue shaped me taken
  rcases effect with ⟨waiting, goesOn⟩ | ⟨elem, env, has, holds, waiting, sent⟩
  · have mine : (queue.senders me).elem = (r.queue.senders me).elem := by
      rcases goesOn with same | ⟨elem, pc⟩
      · exact same
      · exact absurd pc (notClosed elem)
    exact ⟨node, .inl rfl, sim_outside beh actor me r node present queue none (fun addr _ => held addr) mine
      (fun addr _ => held addr) (by simp [waiting]) sim⟩
  · have cached : ({ r with queue := queue } : Runtime T W P A G M S D).cached = r.cached :=
      List.filterMap_congr fun addr _ => held addr
    rcases sim.follows with even | ⟨event, todo, other, behind⟩
    · -- A thread that has an element is inside a handler, and then the node is behind.
      have busy : ∃ event todo, r.phase = .busy event todo := by
        by_contra rests
        push Not at rests
        rw [stage.rests rests] at has
        cases has
      obtain ⟨event, todo, phase⟩ := busy
      rw [(even.settled event todo phase).2] at has
      cases has
    · rcases behind.carried with ⟨_, none⟩ | ⟨rfl, elem', has', holds'⟩
      · rw [none] at has
        cases has
      · rw [has] at has'
        cases has'
        rw [holds] at holds'
        cases holds'
        obtain ⟨after, moves, even⟩ := even_fires beh actor me { r with queue := queue } node event _ behind.ready behind.phase sent
          behind.log (by rw [cached, behind.sends, waiting, List.append_assoc])
        refine ⟨after, moves, ?_, .inl even⟩
        rw [cached]
        exact sim.clean

theorem sim_resume [DecidableEq W] (present : node.status ≠ .absent) (w : W) (queue : Queue T W P (Envelope A G M))
    (taken : r.queue.resume w = some queue) (sim : Sim beh actor me r node) :
    Sim beh actor me { r with queue := queue } node := by
  obtain ⟨jobs, _, _, rfl⟩ := resume_cases r.queue queue w taken
  exact sim_outside beh actor me r node present _ none (fun _ _ => rfl) rfl (fun _ _ => rfl) (List.append_nil _).symm sim

variable (maxThroughput : Nat)

theorem sim_even (notBusy : ∀ event todo, r.phase ≠ .busy event todo) (sim : Sim beh actor me r node) :
    Even beh actor me r node := by
  rcases sim.follows with even | ⟨event, todo, env, behind⟩
  · exact even
  · exact absurd behind.phase (notBusy event todo)

theorem even_status (notBusy : ∀ event todo, r.phase ≠ .busy event todo) (even : Even beh actor me r node) :
    node.status = r.status := by
  rw [even.status, Runtime.effective]
  cases phase : r.phase with
  | busy event todo => exact absurd phase (notBusy event todo)
  | _ => rfl

theorem even_again (notBusy : ∀ event todo, later.phase ≠ .busy event todo) (status : node.status = later.status)
    (mailbox : node.status ≠ .exited → node.mailbox = later.cached ++ later.inHand ++ later.queue.waiting)
    (log : later.log = actions node.history) : Even beh actor me later node := by
  refine ⟨fun event todo busy => absurd busy (notBusy event todo), ?_, mailbox, log⟩
  rw [status, Runtime.effective]
  cases phase : later.phase with
  | busy event todo => exact absurd phase (notBusy event todo)
  | _ => rfl

theorem sim_leave [DecidableEq W] [DecidableEq P] [DecidableEq S]
    (w : W) (weak : Bool) (leaving : Leaving r w) (before : r.phase = .quiet ∨ r.phase = .passed)
    (taken : r.leave maxThroughput w weak = some later) (sim : Sim beh actor me r node) : Sim beh actor me later node := by
  obtain ⟨cells, i, same, rfl⟩ := leave_result r maxThroughput later w weak leaving taken
  have notBusy (event : Event A G M S D) (todo : List (Envelope A G M)) : r.phase ≠ .busy event todo := by
    rcases before with phase | phase <;> simp [phase]
  have searched : r.phase.searched = true := by rcases before with phase | phase <;> rw [phase] <;> rfl
  have even := sim_even beh actor me r node notBusy sim
  have hand : r.inHand = [] := by rcases before with phase | phase <;> rw [Runtime.inHand, phase] <;> rfl
  have cached : r.cache.filterMap (fun addr => (cells addr).map Cell.msg) = r.cached :=
    List.filterMap_congr fun addr member => congrArg _ (same addr member)
  refine ⟨fun state runs _ => ?_, .inl (even_again beh actor me _ node (by simp) ?_ ?_ even.log)⟩
  · change ∀ env ∈ r.cache.filterMap (fun addr => (cells addr).map Cell.msg), _
    rw [cached]
    exact sim.clean state runs searched
  · exact even_status beh actor me r node notBusy even
  · intro goesOn
    have mailbox := even.mailbox goesOn
    rw [hand, ← cached] at mailbox
    exact mailbox

theorem sim_proceed [DecidableEq W] [DecidableEq P]
    (shaped : Shaped r.queue) (stage : Stage me r) (next : Shaped later.queue) (nextStage : Stage me later)
    (w : W) (weak : Bool) (quiet : r.phase = .quiet) (notStarting : r.queue.readers w ≠ .starting)
    (notTook : ∀ i elem, r.queue.readers w ≠ .took i elem) (taken : r.proceed maxThroughput w weak = some later)
    (sim : Sim beh actor me r node) : Sim beh actor me later node := by
  obtain ⟨q, moved, rfl⟩ := Option.map_eq_some_iff.mp taken
  have effect := read_effect r.queue q maxThroughput w weak notStarting notTook moved
  have notBusy (event : Event A G M S D) (todo : List (Envelope A G M)) : r.phase ≠ .busy event todo := by simp [quiet]
  have even := sim_even beh actor me r node notBusy sim
  have status := even_status beh actor me r node notBusy even
  have held (addr : P) (member : addr ∈ r.cache) : q.contentAt addr = r.queue.contentAt addr :=
    effect.content addr (stage_held me r shaped stage addr (List.mem_append_left _ member)).notHead
  have cached : r.cache.filterMap q.contentAt = r.cached := List.filterMap_congr held
  have still (event : Event A G M S D) (todo : List (Envelope A G M)) :
      ((q.readers w).phase : Phase P A G M S D) ≠ .busy event todo := by
    cases q.readers w <;> simp [Reader.phase]
  refine ⟨fun state runs _ => ?_, .inl (even_again beh actor me _ node still status ?_ even.log)⟩
  · change ∀ env ∈ r.cache.filterMap q.contentAt, _
    rw [cached]
    exact sim.clean state runs (by rw [quiet]; rfl)
  · intro goesOn
    have runs : r.status ≠ .exited := status ▸ goesOn
    obtain ⟨notClosed, on⟩ := stage.alive runs
    obtain ⟨nextNotClosed, nextOn⟩ := nextStage.alive runs
    have before := waiting_split r.queue shaped
    have after := waiting_split q next
    rw [discarded_none r.queue shaped notClosed on, List.append_nil] at before
    rw [discarded_none q next nextNotClosed nextOn, List.append_nil, effect.accepted] at after
    rw [before] at after
    have mailbox := even.mailbox goesOn
    have hand : r.inHand = [] := by rw [Runtime.inHand, quiet]; rfl
    rw [hand, List.append_nil] at mailbox
    change node.mailbox = r.cache.filterMap q.contentAt ++ ((q.readers w).phase : Phase P A G M S D).hand.filterMap q.contentAt ++ q.waiting
    rw [cached, mailbox]
    rcases effect.takes (on w) with ⟨i, elem, pc, _, delivered⟩ | ⟨noTake, delivered⟩
    · -- The message at the front of what waits is now in the actor's hand.
      rw [delivered, List.append_assoc, List.append_cancel_left_eq] at after
      rw [pc, after, List.append_assoc]
      simp only [Reader.phase, Phase.hand, List.filterMap_cons, List.filterMap_nil, effect.same (on w) elem]
      cases r.queue.contentAt elem <;> rfl
    · rw [delivered, List.append_cancel_left_eq] at after
      have empty : ((q.readers w).phase : Phase P A G M S D).hand = [] := by
        cases pc : q.readers w with
        | took i elem => exact absurd pc (noTake i elem)
        | _ => rfl
      rw [empty, after]
      simp

theorem sim_read [DecidableEq T] [DecidableEq W] [DecidableEq P] [DecidableEq S]
    (token : Token T W) (owned : Owned r.queue token) (shaped : Shaped r.queue) (stage : Stage me r)
    (next : Shaped later.queue) (nextStage : Stage me later) (w : W) (weak : Bool)
    (taken : r.read maxThroughput w weak = some later) (sim : Sim beh actor me r node) : Sim beh actor me later node := by
  unfold Runtime.read at taken
  split at taken
  · next pc quiet =>
      split at taken
      · exact sim_leave beh actor me r later node maxThroughput w weak (.inl ⟨pc, (stage.quiet quiet).1⟩) (.inl quiet) taken sim
      · cases taken
  · next pc passed =>
      refine sim_leave beh actor me r later node maxThroughput w weak (.inl ⟨pc, ?_⟩) (.inr passed) taken sim
      rcases stage.working (by rw [passed]; rfl) with ⟨v, i, elem, took, _⟩ | ⟨v, _, same, _⟩
      · cases same_reader r token owned v w (by simp [took]) (by simp [pc])
        rw [took] at pc
        cases pc
      · exact same
  · cases taken
  · next i elem pc passed =>
      exact sim_leave beh actor me r later node maxThroughput w weak (.inr ⟨_, _, pc⟩) (.inr passed) taken sim
  · cases taken
  · next quiet notStarting notTook =>
      exact sim_proceed beh actor me r later node maxThroughput shaped stage next nextStage w weak quiet notStarting notTook taken sim
  · cases taken

-- A handler sends at most one message to its own actor: the node calls it when that
-- message goes into the mailbox.
def Single : Prop :=
  ∀ event : Event A G M S D, (selfSends actor event.tag (reactionOf beh actor event).effects).length ≤ 1

theorem sim_enter (single : Single beh actor) (event : Event A G M S D) (idle : r.queue.senders me = .idle)
    (ready : Ready beh event node (r.cached ++ r.queue.waiting)) (log : r.log = actions node.history) :
    ∃ after, Moves beh actor node after ∧ Sim beh actor me (r.enter beh actor event) after := by
  have none : (r.queue.senders me).elem = none := by rw [idle]; rfl
  cases sends : selfSends actor event.tag (reactionOf beh actor event).effects with
  | nil =>
      obtain ⟨after, moves, even⟩ := even_fires beh actor me (r.enter beh actor event) node event _ ready
        (by rw [Runtime.enter, sends]) none (congrArg _ log) (by rw [sends, List.append_nil]; rfl)
      exact ⟨after, moves, by simp [Runtime.enter, Phase.searched], .inl even⟩
  | cons env rest =>
      have last : rest = [] := by
        have bound := single event
        rw [sends, List.length_cons] at bound
        exact List.length_eq_zero_iff.mp (by omega)
      subst last
      refine ⟨node, .inl rfl, by simp [Runtime.enter, Phase.searched], .inr ⟨event, [env], env, ?_, sends, ?_, ready, ?_⟩⟩
      · rw [Runtime.enter, sends]
      · exact .inl ⟨rfl, none⟩
      · exact congrArg _ log

theorem sim_initialise (single : Single beh actor) (stage : Stage me r) (w : W) (draw : D) (tag : Nat)
    (taken : r.initialise beh actor w draw tag = some later) (sim : Sim beh actor me r node) :
    ∃ after, Moves beh actor node after ∧ Sim beh actor me later after := by
  unfold Runtime.initialise at taken
  split at taken
  · next state pc quiet status =>
      cases taken
      have even := sim_even beh actor me r node (by simp [quiet]) sim
      have same := even_status beh actor me r node (by simp [quiet]) even
      have hand : r.inHand = [] := by rw [Runtime.inHand, quiet]; rfl
      refine sim_enter beh actor me r node single _ (stage.rests (by simp [quiet])) ⟨same.trans status, ?_⟩ even.log
      rw [even.mailbox (by simp [same, status]), hand, List.append_nil]
  · cases taken

theorem sim_invoke (single : Single beh actor) (stage : Stage me r) (w : W) (draw : D) (tag : Nat)
    (taken : r.invoke beh actor w draw tag = some later) (sim : Sim beh actor me r node) :
    ∃ after, Moves beh actor node after ∧ Sim beh actor me later after := by
  unfold Runtime.invoke at taken
  split at taken
  · next elem state pc fetched status =>
      obtain ⟨env, content, rfl⟩ := Option.map_eq_some_iff.mp taken
      have even := sim_even beh actor me r node (by simp [fetched]) sim
      have same := even_status beh actor me r node (by simp [fetched]) even
      have hand : r.inHand = [env] := by
        rw [Runtime.inHand, fetched]
        simp [Phase.hand, content]
      have mailbox := even.mailbox (by simp [same, status])
      have clean := sim.clean state status (by rw [fetched]; rfl)
      rw [hand] at mailbox
      split
      · next accepted =>
          refine sim_enter beh actor me r node single _ (stage.rests (by simp [fetched])) ?_ even.log
          refine ⟨same.trans status, accepted, r.cached, r.queue.waiting, ?_, clean, rfl⟩
          simpa using mailbox
      · next rejected =>
          have cached : ({ r with cache := r.cache ++ [elem], phase := .passed } : Runtime T W P A G M S D).cached =
              r.cached ++ [env] := by
            simp [Runtime.cached, content]
          refine ⟨node, .inl rfl, ?_, .inl (even_again beh actor me _ node (by simp) same ?_ even.log)⟩
          · rw [cached]
            intro other runs _ msg member
            cases status.symm.trans runs
            rcases List.mem_append.mp member with old | new
            · exact clean msg old
            · rw [List.mem_singleton.mp new]
              simpa using rejected
          · intro _
            rw [mailbox, cached]
            simp [Runtime.inHand, Phase.hand]
  · cases taken

theorem cached_split (state : S) (addr : P) (env : Envelope A G M)
    (found : r.cache.find? (r.matching beh state) = some addr) (content : r.queue.contentAt addr = some env) :
    beh.accepts state env.msg = true ∧ ∃ skipped behind, r.cached = skipped ++ env :: behind ∧
      (∀ other ∈ skipped, beh.accepts state other.msg = false) ∧
      (r.cache.eraseP (r.matching beh state)).filterMap r.queue.contentAt = skipped ++ behind := by
  obtain ⟨isMatch, before, behind, split, rejected⟩ := List.find?_eq_some_iff_append.mp found
  have accepted : beh.accepts state env.msg = true := by simpa [Runtime.matching, content] using isMatch
  refine ⟨accepted, before.filterMap r.queue.contentAt, behind.filterMap r.queue.contentAt, ?_, ?_, ?_⟩
  · simp [Runtime.cached, split, content]
  · intro other member
    obtain ⟨a, inBefore, holds⟩ := List.mem_filterMap.mp member
    have noMatch := rejected a inBefore
    simpa [Runtime.matching, holds] using noMatch
  · rw [split, List.eraseP_append_right _ (by simpa using rejected), List.eraseP_cons_of_pos isMatch, List.filterMap_append]

theorem sim_scan (single : Single beh actor) (stage : Stage me r) (w : W) (draw : D) (tag : Nat)
    (taken : r.scan beh actor w draw tag = some later) (sim : Sim beh actor me r node) :
    ∃ after, Moves beh actor node after ∧ Sim beh actor me later after := by
  unfold Runtime.scan at taken
  split at taken
  · next state pc scanning status =>
      have even := sim_even beh actor me r node (by simp [scanning]) sim
      have same := even_status beh actor me r node (by simp [scanning]) even
      have hand : r.inHand = [] := by rw [Runtime.inHand, scanning]; rfl
      have mailbox := even.mailbox (by simp [same, status])
      rw [hand, List.append_nil] at mailbox
      split at taken
      · next notFound =>
          cases taken
          refine ⟨node, .inl rfl, ?_, .inl (even_again beh actor me _ node (by simp) same ?_ even.log)⟩
          · intro other runs _ env member
            cases status.symm.trans runs
            obtain ⟨addr, inCache, holds⟩ := List.mem_filterMap.mp member
            have noMatch := List.find?_eq_none.mp notFound addr inCache
            simp only [Runtime.matching] at noMatch
            simpa [show r.queue.contentAt addr = some env from holds] using noMatch
          · intro _
            rw [mailbox]
            simp [Runtime.inHand, Runtime.cached, Phase.hand]
      · next addr found =>
          obtain ⟨env, content, rfl⟩ := Option.map_eq_some_iff.mp taken
          obtain ⟨accepted, skipped, behind, split, rejected, erased⟩ := cached_split beh r state addr env found content
          refine sim_enter beh actor me { r with cache := r.cache.eraseP (r.matching beh state) } node single _
            (stage.rests (by simp [scanning])) ?_ even.log
          refine ⟨same.trans status, accepted, skipped, behind ++ r.queue.waiting, ?_, rejected, ?_⟩
          · rw [mailbox, split]
            simp
          · rw [← List.append_assoc, ← erased]
            rfl
  · cases taken

theorem sim_self_send [DecidableEq T] [DecidableEq W] [DecidableEq P]
    (shaped : Shaped r.queue) (stage : Stage me r) (elem : P) (taken : r.selfSend me elem = some later)
    (sim : Sim beh actor me r node) : Sim beh actor me later node := by
  unfold Runtime.selfSend at taken
  split at taken
  · next event env rest phase =>
      obtain ⟨q, sent, rfl⟩ := Option.map_eq_some_iff.mp taken
      have held (addr : P) (member : addr ∈ r.cache) : q.contentAt addr = r.queue.contentAt addr :=
        content_send r.queue q me elem addr env (stage_held me r shaped stage addr (List.mem_append_left _ member)).live sent
      have cached : r.cache.filterMap q.contentAt = r.cached := List.filterMap_congr held
      rcases sim.follows with even | ⟨event', todo, env', behind⟩
      · cases (even.settled event _ phase).1
      · have samePhase := behind.phase
        rw [phase] at samePhase
        cases samePhase
        rcases behind.carried with ⟨todoIs, _⟩ | ⟨nothing, _⟩
        · cases todoIs
          refine ⟨by simp [Phase.searched], .inr ⟨event, [], env, rfl, behind.sends, .inr ⟨rfl, elem, ?_⟩, ?_, behind.log⟩⟩
          · obtain ⟨_, _, rfl⟩ := send_cases r.queue q me elem env sent
            refine ⟨by rw [sender_self]; rfl, ?_⟩
            simp [Queue.contentAt, Queue.sendTo]
          · have waiting : q.waiting = r.queue.waiting := by
              obtain ⟨_, _, rfl⟩ := send_cases r.queue q me elem env sent
              rfl
            change Ready beh event node (r.cache.filterMap q.contentAt ++ q.waiting)
            rw [cached, waiting]
            exact behind.ready
        · cases nothing
  · cases taken

theorem sim_finish [DecidableEq T] [DecidableEq W]
    (token : Token T W) (owned : Owned r.queue token) (stage : Stage me r) (w : W)
    (taken : r.finish beh actor me w = some later) (sim : Sim beh actor me r node) : Sim beh actor me later node := by
  obtain ⟨event, phase, busy, idle, rfl, next, _⟩ := finish_cases me r beh actor later w taken
  have even : Even beh actor me r node := by
    rcases sim.follows with even | ⟨event', todo, env, behind⟩
    · exact even
    · have same := behind.phase
      rw [busy] at same
      cases same
      rcases behind.carried with ⟨nothing, _⟩ | ⟨_, elem, has, _⟩
      · cases nothing
      · rw [idle] at has
        cases has
  have notBusy (event : Event A G M S D) (todo : List (Envelope A G M)) : phase ≠ .busy event todo := by
    rcases next with rfl | ⟨rfl, _⟩ <;> simp
  have before : r.inHand = [] := by rw [Runtime.inHand, busy]; rfl
  have hands : phase.hand = [] := by rcases next with rfl | ⟨rfl, _⟩ <;> rfl
  refine ⟨?_, .inl (even_again beh actor me _ node notBusy ?_ ?_ even.log)⟩
  · intro state runs searched
    rcases next with rfl | ⟨rfl, starting | exited⟩
    · cases searched
    · -- The first body: nothing has been taken from the mailbox yet.
      rcases stage.working (by rw [busy]; rfl) with ⟨v, i, elem, took, _⟩ | ⟨v, _, _, empty⟩
      · cases same_reader r token owned v w (by simp [took]) (by simp [starting])
        rw [took] at starting
        cases starting
      · simp [Runtime.cached, empty]
    · rw [exited] at runs
      cases runs
  · rw [even.status, Runtime.effective, busy]
  · intro goesOn
    rw [even.mailbox goesOn, before, Runtime.inHand, hands]
    rfl

theorem sim_step [DecidableEq T] [DecidableEq W] [DecidableEq P] [DecidableEq S]
    (single : Single beh actor) (present : node.status ≠ .absent) (token : Token T W)
    (owned : Owned r.queue token) (shaped : Shaped r.queue) (stage : Stage me r) (next : Shaped later.queue)
    (nextStage : Stage me later) (label : RuntimeLabel T W P A G M D)
    (taken : r.step beh actor me maxThroughput label = some later) (sim : Sim beh actor me r node) :
    ∃ after, Moves beh actor node after ∧ Sim beh actor me later after := by
  cases label with
  | send t elem env =>
      by_cases mine : t = me
      · simp [Runtime.step, mine] at taken
      · simp only [Runtime.step, if_neg mine] at taken
        obtain ⟨q, moved, rfl⟩ := Option.map_eq_some_iff.mp taken
        exact ⟨node, .inl rfl, sim_send beh actor me r node present shaped stage t elem env mine q moved sim⟩
  | sender t =>
      obtain ⟨q, moved, rfl⟩ := Option.map_eq_some_iff.mp taken
      by_cases mine : t = me
      · subst mine
        exact sim_enqueue_me beh actor t r node present shaped stage q moved sim
      · exact sim_enqueue_other beh actor me r node present shaped stage t mine q moved sim
  | resume w =>
      obtain ⟨q, moved, rfl⟩ := Option.map_eq_some_iff.mp taken
      exact ⟨node, .inl rfl, sim_resume beh actor me r node present w q moved sim⟩
  | reader w weak =>
      exact ⟨node, .inl rfl,
        sim_read beh actor me r later node maxThroughput token owned shaped stage next nextStage w weak taken sim⟩
  | initialise w draw tag => exact sim_initialise beh actor me r later node single stage w draw tag taken sim
  | invoke w draw tag => exact sim_invoke beh actor me r later node single stage w draw tag taken sim
  | scan w draw tag => exact sim_scan beh actor me r later node single stage w draw tag taken sim
  | selfSend elem => exact ⟨node, .inl rfl, sim_self_send beh actor me r later node shaped stage elem taken sim⟩
  | finish w => exact ⟨node, .inl rfl, sim_finish beh actor me r later node token owned stage w taken sim⟩

theorem sim_initial (state : S) :
    Sim beh actor me (⟨launched, .spawned state, [], .quiet, []⟩ : Runtime T W P A G M S D) (Node.fresh state) :=
  ⟨by simp, .inl (even_again beh actor me _ _ (by simp) rfl (fun _ => rfl) rfl)⟩

theorem stage_initial (state : S) :
    Stage me (⟨launched, .spawned state, [], .quiet, []⟩ : Runtime T W P A G M S D) :=
  ⟨fun _ => ⟨rfl, by simp [launched]⟩, by simp, by simp [Phase.works], fun _ _ => rfl,
    fun _ => ⟨by simp [launched], fun _ => rfl⟩, by simp [launched], fun _ => rfl⟩

theorem stage_run [DecidableEq T] [DecidableEq W] [DecidableEq P] [DecidableEq S]
    (state : S) (r : Runtime T W P A G M S D)
    (reached : (runtimeLts beh actor me maxThroughput state).Reach Lts.anyStep r) : Stage me r := by
  refine (runtimeLts beh actor me maxThroughput state).reach_invariant Lts.anyStep (Stage me) (stage_initial me state) ?_
    r reached
  intro r label later before stage _ taken
  obtain ⟨token, owned⟩ := owned_run maxThroughput r.queue (queue_run beh actor me maxThroughput state r before)
  exact stage_step me r beh actor maxThroughput later token owned label stage taken

theorem sim_run [DecidableEq T] [DecidableEq W] [DecidableEq P] [DecidableEq S] (single : Single beh actor)
    (state : S) (r : Runtime T W P A G M S D)
    (reached : (runtimeLts beh actor me maxThroughput state).Reach Lts.anyStep r) :
    ∃ node, (localLts beh actor state).Reach Lts.anyStep node ∧ Sim beh actor me r node := by
  refine (runtimeLts beh actor me maxThroughput state).reach_invariant Lts.anyStep
    (fun r => ∃ node, (localLts beh actor state).Reach Lts.anyStep node ∧ Sim beh actor me r node)
    ⟨Node.fresh state, .refl, sim_initial beh actor me state⟩ ?_ r reached
  intro r label later before past _ taken
  obtain ⟨node, nodeReached, sim⟩ := past
  have next := (runtimeLts beh actor me maxThroughput state).reach_step Lts.anyStep r later label before trivial taken
  have queue := queue_run beh actor me maxThroughput state r before
  obtain ⟨token, owned⟩ := owned_run maxThroughput r.queue queue
  obtain ⟨after, moves, simulated⟩ := sim_step beh actor me r later node maxThroughput single
    (local_not_absent beh actor state Lts.anyStep node nodeReached) token owned (shaped_run maxThroughput r.queue queue)
    (stage_run beh actor me maxThroughput state r before)
    (shaped_run maxThroughput later.queue (queue_run beh actor me maxThroughput state later next))
    (stage_run beh actor me maxThroughput state later next) label taken sim
  refine ⟨after, ?_, simulated⟩
  rcases moves with rfl | ⟨move, stepped⟩
  · exact nodeReached
  · exact (localLts beh actor state).reach_step Lts.anyStep node after move nodeReached trivial stepped

end Simulation

end VsLab.Mailbox

namespace VsLab

open Actors Mailbox

theorem behaviour_single (self : Address) : Single behaviour self := by
  have group (tag : Nat) (server : Option Group) (msg : Msg) : selfSends self tag (sendTo server msg) = [] := by
    cases server <;> rfl
  intro event
  cases event with
  | arrived env => exact Nat.zero_le 1
  | started state draw tag =>
      cases state with
      | client st => simp [reactionOf, behaviour, Event.tag, (start_client self tag st draw).1]
      | manager st =>
          simp only [reactionOf, behaviour, Event.tag, Manager.start]
          split <;> simp [selfSends]
      | worker st => exact Nat.zero_le 1
  | handled env state draw tag =>
      cases state with
      | client st => simp [reactionOf, behaviour, Event.tag, client_sends_none self tag st draw env.msg]
      | manager st =>
          have none : selfSends self tag (Manager.react st env.msg).effects = [] := by
            unfold Manager.react
            split
            · exact group tag st.server _
            · simp [Manager.spawnWorkers, selfSends]
            · simp [selfSends]
            · exact group tag st.server _
            · exact group tag st.server _
            · rfl
            · rfl
            · rfl
          simp [reactionOf, behaviour, Event.tag, none]
      | worker st =>
          simp only [reactionOf, behaviour, Event.tag]
          have turn := Worker.react_turn st draw env.msg
          generalize env.msg = msg at turn
          generalize Worker.react st draw msg = reaction at turn
          cases turn <;> simp [selfSends]

variable {T W P : Type}

theorem resume_refines_node [DecidableEq T] [DecidableEq W] [DecidableEq P]
    (self : Address) (state : ActorState) (me : T) (maxThroughput : Nat)
    (r : Runtime T W P Address Group Msg ActorState Draw)
    (reached : (runtimeLts behaviour self me maxThroughput state).Reach Lts.anyStep r) :
    ∃ node : Box, (localLts behaviour self state).Reach Lts.anyStep node ∧
      (∃ begun, r.log = begun ++ actions node.history ∧ begun.length ≤ 1) ∧
      ((∀ event todo, r.phase ≠ .busy event todo) →
        r.log = actions node.history ∧ node.status = r.status ∧
        (r.status ≠ .exited → node.mailbox = r.cached ++ r.inHand ++ r.queue.waiting)) := by
  obtain ⟨node, nodeReached, sim⟩ := sim_run behaviour self me maxThroughput (behaviour_single self) state r reached
  refine ⟨node, nodeReached, ?_, ?_⟩
  · rcases sim.follows with even | ⟨event, todo, env, behind⟩
    · exact ⟨[], even.log, by simp⟩
    · exact ⟨[event], behind.log, by simp⟩
  · intro notBusy
    have even := sim_even behaviour self me r node notBusy sim
    have status := even_status behaviour self me r node notBusy even
    exact ⟨even.log, status, fun goesOn => even.mailbox (status ▸ goesOn)⟩

def workerTurn : List (RuntimeLabel Bool Unit Nat Address Group Msg Draw) :=
  [.send false 1 ⟨.manager 0, some (.workers 0), 0, .calculate (Int512.ofNat 15)⟩, .sender false, .sender false,
    .resume (), .initialise () (drawing 0) 0, .finish (), .reader () false, .reader () false, .reader () false,
    .reader () false, .reader () false, .invoke () (drawing 5) 1, .selfSend 2, .sender true, .sender true,
    .finish (), .scan () (drawing 0) 0, .reader () false]

theorem resume_refines_worker : ∃ r : Runtime Bool Unit Nat Address Group Msg ActorState Draw,
    (runtimeLts behaviour (.worker 0 0) true 3 (.worker ⟨.workers 0, 0⟩)).Reach Lts.anyStep r ∧ r.log.length = 2 ∧
      ∃ node : Box, (localLts behaviour (.worker 0 0) (.worker ⟨.workers 0, 0⟩)).Reach Lts.anyStep node ∧
        ∃ begun, r.log = begun ++ actions node.history ∧ begun.length ≤ 1 := by
  obtain ⟨r, reached, long⟩ :=
    (runtimeLts behaviour (.worker 0 0) true 3 (.worker ⟨.workers 0, 0⟩)).run_finds Lts.anyStep workerTurn
      (fun r => r.log.length = 2 && r.queue.accepted.length = 2) (by decide +kernel)
  obtain ⟨node, nodeReached, log, _⟩ := resume_refines_node (.worker 0 0) (.worker ⟨.workers 0, 0⟩) true 3 r reached
  simp only [Bool.and_eq_true, decide_eq_true_eq] at long
  exact ⟨r, reached, long.1, node, nodeReached, log⟩

end VsLab
