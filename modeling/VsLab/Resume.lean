import VsLab.MailboxFlow
import VsLab.Actors.Node

set_option autoImplicit false

namespace VsLab.Mailbox

open Chains Actors

variable {T W P A G M S D O : Type}

-- Where the body of the loop in resume is: fetched has an element from next_message,
-- busy runs a handler that has still to send todo to the actor itself, scanning is
-- invoke_message_from_cache, passed is the end of the body.
inductive Phase (P A G M S D : Type) where
  | quiet
  | fetched (elem : P)
  | busy (event : Event A G M S D) (todo : List (Envelope A G M))
  | scanning
  | passed

-- An actor on its mailbox: status is its behaviour stack, cache is m_cache, and log
-- the handlers it has called, newest first (ghost).
structure Runtime (T W P A G M S D : Type) where
  queue : Queue T W P (Envelope A G M)
  status : Status S
  cache : List P
  phase : Phase P A G M S D
  log : List (Event A G M S D)

inductive RuntimeLabel (T W P A G M D : Type) where
  | send (sender : T) (elem : P) (env : Envelope A G M)
  | sender (sender : T)
  | resume (worker : W)
  | reader (worker : W) (weak : Bool)
  | initialise (worker : W) (draw : D) (tag : Nat)
  | invoke (worker : W) (draw : D) (tag : Nat)
  | scan (worker : W) (draw : D) (tag : Nat)
  | selfSend (elem : P)
  | finish (worker : W)

def Queue.contentAt (s : Queue T W P M) (addr : P) : Option M := (s.cells addr).map Cell.msg

def Queue.waiting (s : Queue T W P M) : List M := s.accepted.drop (s.delivered ++ s.discarded).length

def reactionOf (beh : Behaviour A G M S D O) (self : A) : Event A G M S D → Reaction A G M S O
  | .arrived _ => ⟨[], .hang⟩
  | .started state draw _ => beh.start self state draw
  | .handled env state draw _ => beh.react self state draw env.msg

section Runtime

variable [DecidableEq T] [DecidableEq W] [DecidableEq P] [DecidableEq S]

variable (beh : Behaviour A G M S D O) (self : A) (me : T) (maxThroughput : Nat)

def Runtime.enter (r : Runtime T W P A G M S D) (event : Event A G M S D) : Runtime T W P A G M S D :=
  { r with phase := .busy event (selfSends self event.tag (reactionOf beh self event).effects), log := event :: r.log }

def Runtime.initialise (r : Runtime T W P A G M S D) (w : W) (draw : D) (tag : Nat) :
    Option (Runtime T W P A G M S D) :=
  match r.queue.readers w, r.phase, r.status with
  | .starting, .quiet, .spawned state => some (r.enter beh self (.started state draw tag))
  | _, _, _ => none

def Runtime.invoke (r : Runtime T W P A G M S D) (w : W) (draw : D) (tag : Nat) : Option (Runtime T W P A G M S D) :=
  match r.queue.readers w, r.phase, r.status with
  | .took _ _, .fetched elem, .running state =>
      (r.queue.contentAt elem).map fun env =>
        if beh.accepts state env.msg then r.enter beh self (.handled env state draw tag)
        else { r with cache := r.cache ++ [elem], phase := .passed }
  | _, _, _ => none

def Runtime.matching (r : Runtime T W P A G M S D) (state : S) (addr : P) : Bool :=
  (r.queue.contentAt addr).any fun env => beh.accepts state env.msg

def Runtime.scan (r : Runtime T W P A G M S D) (w : W) (draw : D) (tag : Nat) : Option (Runtime T W P A G M S D) :=
  match r.queue.readers w, r.phase, r.status with
  | .took _ _, .scanning, .running state =>
      match r.cache.find? (r.matching beh state) with
      | none => some { r with phase := .passed }
      | some addr =>
          (r.queue.contentAt addr).map fun env =>
            { r with cache := r.cache.eraseP (r.matching beh state) }.enter beh self (.handled env state draw tag)
  | _, _, _ => none

def Runtime.selfSend (r : Runtime T W P A G M S D) (elem : P) : Option (Runtime T W P A G M S D) :=
  match r.phase with
  | .busy event (env :: rest) =>
      (r.queue.send me elem env).map fun q => { r with queue := q, phase := .busy event rest }
  | _ => none

-- The handler returns or throws, and actor_done looks at the behaviour stack. After
-- the first body nothing is in the cache, and it is not searched.
def Runtime.finish (r : Runtime T W P A G M S D) (w : W) : Option (Runtime T W P A G M S D) :=
  match r.phase, r.queue.senders me, r.queue.readers w with
  | .busy event [], .idle, .starting =>
      match (reactionOf beh self event).outcome with
      | .become state => some { r with status := .running state, phase := .passed }
      | .hang => none
      | _ => some { r with status := .exited, phase := .passed }
  | .busy event [], .idle, .took _ _ =>
      match (reactionOf beh self event).outcome with
      | .become state => some { r with status := .running state, phase := .scanning }
      | .hang => none
      | _ => some { r with status := .exited, phase := .passed }
  | _, _, _ => none

def Runtime.leave (r : Runtime T W P A G M S D) (w : W) (weak : Bool) : Option (Runtime T W P A G M S D) :=
  (r.queue.read maxThroughput w weak (r.status = .exited) r.cache).map fun q => { r with queue := q, phase := .quiet }

def Reader.phase : Reader P → Phase P A G M S D
  | .took _ elem => .fetched elem
  | _ => .quiet

def Runtime.proceed (r : Runtime T W P A G M S D) (w : W) (weak : Bool) : Option (Runtime T W P A G M S D) :=
  (r.queue.read maxThroughput w weak false []).map fun q =>
    { r with queue := q, phase := (q.readers w).phase }

def Runtime.read (r : Runtime T W P A G M S D) (w : W) (weak : Bool) : Option (Runtime T W P A G M S D) :=
  match r.queue.readers w, r.phase with
  | .starting, .quiet =>
      match r.status with
      | .running _ => r.leave maxThroughput w weak
      | _ => none
  | .starting, .passed => r.leave maxThroughput w weak
  | .starting, _ => none
  | .took _ _, .passed => r.leave maxThroughput w weak
  | .took _ _, _ => none
  | _, .quiet => r.proceed maxThroughput w weak
  | _, _ => none

def Runtime.step (r : Runtime T W P A G M S D) : RuntimeLabel T W P A G M D → Option (Runtime T W P A G M S D)
  | .send t elem env => if t = me then none else (r.queue.send t elem env).map fun q => { r with queue := q }
  | .sender t => (r.queue.enqueue t).map fun q => { r with queue := q }
  | .resume w => (r.queue.resume w).map fun q => { r with queue := q }
  | .reader w weak => r.read maxThroughput w weak
  | .initialise w draw tag => r.initialise beh self w draw tag
  | .invoke w draw tag => r.invoke beh self w draw tag
  | .scan w draw tag => r.scan beh self w draw tag
  | .selfSend elem => r.selfSend me elem
  | .finish w => r.finish beh self me w

def runtimeLts (state : S) : Lts (Runtime T W P A G M S D) (RuntimeLabel T W P A G M D) :=
  ⟨⟨launched, .spawned state, [], .quiet, []⟩, fun r => r.step beh self me maxThroughput⟩

theorem runtime_queue (r after : Runtime T W P A G M S D) (label : RuntimeLabel T W P A G M D)
    (taken : r.step beh self me maxThroughput label = some after) :
    after.queue = r.queue ∨ ∃ move, r.queue.step maxThroughput move = some after.queue := by
  cases label with
  | send t elem env =>
      by_cases mine : t = me
      · simp [Runtime.step, mine] at taken
      · simp only [Runtime.step, if_neg mine] at taken
        obtain ⟨q, moved, rfl⟩ := Option.map_eq_some_iff.mp taken
        exact .inr ⟨.send t elem env, moved⟩
  | sender t =>
      obtain ⟨q, moved, rfl⟩ := Option.map_eq_some_iff.mp taken
      exact .inr ⟨.sender t, moved⟩
  | resume w =>
      obtain ⟨q, moved, rfl⟩ := Option.map_eq_some_iff.mp taken
      exact .inr ⟨.resume w, moved⟩
  | reader w weak =>
      simp only [Runtime.step, Runtime.read] at taken
      have left (taken : r.leave maxThroughput w weak = some after) :
          ∃ move, r.queue.step maxThroughput move = some after.queue := by
        obtain ⟨q, moved, rfl⟩ := Option.map_eq_some_iff.mp taken
        exact ⟨.reader w weak _ _, moved⟩
      have went (taken : r.proceed maxThroughput w weak = some after) :
          ∃ move, r.queue.step maxThroughput move = some after.queue := by
        obtain ⟨q, moved, rfl⟩ := Option.map_eq_some_iff.mp taken
        exact ⟨.reader w weak _ _, moved⟩
      split at taken
      · split at taken
        · exact .inr (left taken)
        · cases taken
      · exact .inr (left taken)
      · cases taken
      · exact .inr (left taken)
      · cases taken
      · exact .inr (went taken)
      · cases taken
  | initialise w draw tag =>
      simp only [Runtime.step, Runtime.initialise] at taken
      split at taken <;> cases taken
      exact .inl rfl
  | invoke w draw tag =>
      simp only [Runtime.step, Runtime.invoke] at taken
      split at taken
      · obtain ⟨env, _, rfl⟩ := Option.map_eq_some_iff.mp taken
        split <;> exact .inl rfl
      · cases taken
  | scan w draw tag =>
      simp only [Runtime.step, Runtime.scan] at taken
      split at taken
      · split at taken
        · cases taken
          exact .inl rfl
        · obtain ⟨env, _, rfl⟩ := Option.map_eq_some_iff.mp taken
          exact .inl rfl
      · cases taken
  | selfSend elem =>
      simp only [Runtime.step, Runtime.selfSend] at taken
      split at taken
      · obtain ⟨q, moved, rfl⟩ := Option.map_eq_some_iff.mp taken
        exact .inr ⟨.send me elem _, moved⟩
      · cases taken
  | finish w =>
      simp only [Runtime.step, Runtime.finish] at taken
      split at taken
      · split at taken <;> cases taken <;> exact .inl rfl
      · split at taken <;> cases taken <;> exact .inl rfl
      · cases taken

theorem queue_run (state : S) (r : Runtime T W P A G M S D)
    (reached : (runtimeLts beh self me maxThroughput state).Reach Lts.anyStep r) :
    (mailboxLts maxThroughput).Reach Lts.anyStep r.queue := by
  refine (runtimeLts beh self me maxThroughput state).reach_invariant Lts.anyStep
    (fun r => (mailboxLts maxThroughput).Reach Lts.anyStep r.queue) .refl ?_ r reached
  intro r label after _ before _ taken
  rcases runtime_queue beh self me maxThroughput r after label taken with same | ⟨move, moved⟩
  · rw [same]
    exact before
  · exact (mailboxLts maxThroughput).reach_step Lts.anyStep r.queue after.queue move before trivial moved

end Runtime

section Contents

variable [DecidableEq S]

variable (s after : Queue T W P M)

theorem content_send [DecidableEq T] [DecidableEq P] (t : T) (elem addr : P) (msg : M) (live : s.cells addr ≠ none)
    (taken : s.send t elem msg = some after) : after.contentAt addr = s.contentAt addr := by
  obtain ⟨_, vacant, rfl⟩ := send_cases s after t elem msg taken
  have different : addr ≠ elem := fun same => live (same ▸ vacant)
  rw [Queue.contentAt, Queue.contentAt]
  exact congrArg _ (Function.update_of_ne different _ _)

theorem content_set_next [DecidableEq P] (cells : P → Option (Cell P M)) (elem addr : P) (next : Option P) :
    (setNext cells elem next addr).map Cell.msg = (cells addr).map Cell.msg := by
  by_cases same : addr = elem
  · subst same
    rw [setNext, Function.update_self, Option.map_map]
    rfl
  · rw [set_next_same cells elem addr next same]

theorem content_enqueue [DecidableEq T] [DecidableEq P] (t : T) (addr : P)
    (stays : (s.senders t).elem = some addr → ∀ elem, s.senders t ≠ .ready elem .closed)
    (taken : s.enqueue t = some after) : after.contentAt addr = s.contentAt addr := by
  rcases enqueue_cases s after t taken with
    ⟨elem, pc, rfl⟩ | ⟨elem, e, pc, _, rfl⟩ | ⟨elem, e, pc, _, rfl⟩ | ⟨elem, e, pc, _, rfl⟩ | ⟨pc, rfl⟩
  · have different : addr ≠ elem := by
      rintro rfl
      exact stays (by rw [pc]; rfl) addr pc
    exact congrArg _ (free_other s.cells [elem] addr (by simpa using different))
  · exact content_set_next s.cells elem addr e.link
  · rfl
  · rfl
  · rfl

structure ReadEffect (w : W) : Prop where
  accepted : after.accepted = s.accepted
  senders : after.senders = s.senders
  cache : after.cache = s.cache
  others : ∀ v, v ≠ w → after.readers v = s.readers v
  content : ∀ addr, s.head ≠ some addr → after.contentAt addr = s.contentAt addr
  same : (s.readers w).closing = false → ∀ addr, after.contentAt addr = s.contentAt addr
  stays : (s.readers w).closing = false → (after.readers w).closing = false
  stack : (s.readers w).closing = false → s.stack ≠ .closed → after.stack ≠ .closed
  closing : (s.readers w).closing = true → ∀ i elem, after.readers w ≠ .took i elem
  takes : (s.readers w).closing = false →
    (∃ i elem, after.readers w = .took i elem ∧ s.head = some elem ∧
      after.delivered = s.delivered ++ (s.contentAt elem).toList) ∨
    ((∀ i elem, after.readers w ≠ .took i elem) ∧ after.delivered = s.delivered)

theorem effect_moves [DecidableEq W] (w : W) (pc : Reader P) (readers : after.readers = Function.update s.readers w pc)
    (accepted : after.accepted = s.accepted) (senders : after.senders = s.senders) (cache : after.cache = s.cache)
    (content : ∀ addr, after.contentAt addr = s.contentAt addr) (delivered : after.delivered = s.delivered)
    (noTake : ∀ i elem, pc ≠ .took i elem) (stays : (s.readers w).closing = false → pc.closing = false)
    (stack : (s.readers w).closing = false → s.stack ≠ .closed → after.stack ≠ .closed) : ReadEffect s after w := by
  have now : after.readers w = pc := by rw [readers, Function.update_self]
  refine ⟨accepted, senders, cache, ?_, fun addr _ => content addr, fun _ => content, ?_, stack, ?_, ?_⟩
  · intro v different
    rw [readers, Function.update_of_ne different]
  · rw [now]
    exact stays
  · rw [now]
    exact fun _ => noTake
  · rw [now]
    exact fun _ => .inr ⟨noTake, delivered⟩

theorem effect_takes [DecidableEq W]
    (w : W) (i : Nat) (on : (s.readers w).closing = false) (taken : s.takeHead w i = some after) :
    ReadEffect s after w := by
  obtain ⟨elem, isHead, rfl⟩ := Option.map_eq_some_iff.mp taken
  have now : (({ s with head := nextAt s.cells elem, delivered := s.delivered ++ msgAt s.cells elem } :
      Queue T W P M).goTo w (.took i elem)).readers w = .took i elem := Function.update_self _ _ _
  refine ⟨rfl, rfl, rfl, fun v different => Function.update_of_ne different _ _, fun _ _ => rfl, fun _ _ => rfl, ?_,
    fun _ notClosed => notClosed, ?_, ?_⟩
  · rw [now]
    exact fun _ => rfl
  · intro closing
    rw [on] at closing
    cases closing
  · exact fun _ => .inl ⟨i, elem, now, isHead, rfl⟩

theorem effect_blocks [DecidableEq W] [DecidableEq P]
    (w : W) (failed : Queue T W P M) (later : ReadEffect s failed w) : ReadEffect s (s.tryBlock w failed) w := by
  unfold Queue.tryBlock
  split
  · exact effect_moves s _ w .off rfl rfl rfl rfl (fun _ => rfl) rfl (by simp) (fun _ => rfl) (by simp [Queue.goTo])
  · split
    · exact effect_moves s _ w .off rfl rfl rfl rfl (fun _ => rfl) rfl (by simp) (fun _ => rfl) fun _ => id
    · exact later

theorem effect_fetches [DecidableEq W] [DecidableEq P]
    (w : W) (goal : Goal) (e : Stack P) (weak : Bool) (pc : s.readers w = .fetching goal e) :
    ReadEffect s (s.fetch w goal e weak) w := by
  have failed (i : Nat) (elem : P) : (goal.fail : Reader P) ≠ .took i elem := by cases goal <;> simp [Goal.fail]
  have onFail : (s.readers w).closing = false → (goal.fail : Reader P).closing = false := by cases goal <;> exact fun _ => rfl
  have ended : (s.readers w).closing = false → (goal.endPtr : Stack P) ≠ .closed := by
    rw [pc]
    cases goal with
    | pop i => simp [Goal.endPtr]
    | close => simp [Reader.closing]
  unfold Queue.fetch
  split
  · exact effect_moves s _ w goal.fail rfl rfl rfl rfl (fun _ => rfl) rfl failed onFail fun _ => id
  · split
    · split
      · refine effect_moves s _ w _ rfl rfl rfl rfl (fun _ => rfl) rfl (by simp) ?_ fun on _ => ended on
        rw [pc]
        cases goal <;> exact id
      · exact effect_moves s _ w goal.fail rfl rfl rfl rfl (fun _ => rfl) rfl failed onFail fun on _ => ended on
    · refine effect_moves s _ w _ rfl rfl rfl rfl (fun _ => rfl) rfl (by simp) ?_ fun _ => id
      rw [pc]
      cases goal <;> exact id

theorem effect_clears [DecidableEq W] [DecidableEq P]
    (w : W) (last : Bool) (pc : s.readers w = .clearing last) : ReadEffect s (s.clear w last) w := by
  have closing : (s.readers w).closing ≠ false := by simp [pc, Reader.closing]
  unfold Queue.clear
  split
  · next elem isHead =>
      refine ⟨rfl, rfl, rfl, fun _ _ => rfl, ?_, fun on => absurd on closing, fun on => absurd on closing,
        fun on => absurd on closing, ?_, fun on => absurd on closing⟩
      · intro addr notHead
        refine congrArg _ (free_other s.cells [elem] addr ?_)
        rw [List.mem_singleton]
        exact fun same => notHead (same ▸ isHead)
      · simp [pc]
  · refine effect_moves s _ w _ rfl rfl rfl rfl (fun _ => rfl) rfl ?_ (fun on => absurd on closing) fun _ => id
    cases last <;> simp

theorem read_effect [DecidableEq W] [DecidableEq P]
    (maxThroughput : Nat) (w : W) (weak : Bool) (notStarting : s.readers w ≠ .starting)
    (notTook : ∀ i elem, s.readers w ≠ .took i elem) (taken : s.read maxThroughput w weak false [] = some after) :
    ReadEffect s after w := by
  unfold Queue.read at taken
  split at taken
  · cases taken
  · next pc => exact absurd pc notStarting
  · next i pc =>
      have on : (s.readers w).closing = false := by rw [pc]; rfl
      split at taken
      · split at taken
        · cases taken
          exact effect_moves s _ w _ rfl rfl rfl rfl (fun _ => rfl) rfl (by simp) (fun _ => rfl) fun _ => id
        · exact effect_takes s after w i on taken
      · split at taken
        · cases taken
          exact effect_moves s _ w _ rfl rfl rfl rfl (fun _ => rfl) rfl (by simp) (fun _ => rfl) fun _ => id
        · cases taken
          exact effect_moves s _ w .off rfl rfl rfl rfl (fun _ => rfl) rfl (by simp) (fun _ => rfl) fun _ => id
  · next goal e pc =>
      cases taken
      exact effect_fetches s w goal e weak pc
  · next goal e pc =>
      cases e with
      | some elem =>
          cases taken
          refine effect_moves s _ w _ rfl rfl rfl rfl ?_ rfl (by simp) ?_ fun _ => id
          · exact fun addr => content_set_next s.cells elem addr s.head
          · rw [pc]
            cases goal <;> exact id
      | none =>
          cases goal with
          | pop i => exact effect_takes s after w i (by rw [pc]; rfl) taken
          | close =>
              cases taken
              exact effect_moves s _ w _ rfl rfl rfl rfl (fun _ => rfl) rfl (by simp) (by simp [pc, Reader.closing])
                fun _ => id
  · next i elem pc => exact absurd pc (notTook i elem)
  · cases taken
    exact effect_blocks s w _
      (effect_moves s _ w _ rfl rfl rfl rfl (fun _ => rfl) rfl (by simp) (fun _ => rfl) fun _ => id)
  · next e pc =>
      split at taken
      · cases taken
        exact effect_moves s _ w _ rfl rfl rfl rfl (fun _ => rfl) rfl (by simp) (fun _ => rfl) fun _ => id
      · cases taken
        exact effect_moves s _ w .off rfl rfl rfl rfl (fun _ => rfl) rfl (by simp) (fun _ => rfl) fun _ => id
  · cases taken
    exact effect_blocks s w _
      (effect_moves s _ w .off rfl rfl rfl rfl (fun _ => rfl) rfl (by simp) (fun _ => rfl) fun _ => id)
  · next last pc =>
      cases taken
      exact effect_clears s w last pc

theorem waiting_split (shaped : Shaped s) : s.accepted = s.delivered ++ s.discarded ++ s.waiting := by
  obtain ⟨r, sl, ml, hl, _, shape⟩ := shaped
  rw [Queue.waiting]
  nth_rewrite 2 [shape.flow.order]
  rw [List.drop_left]
  exact shape.flow.order

theorem waiting_grows (shaped : Shaped s) (more : List M) (accepted : after.accepted = s.accepted ++ more)
    (delivered : after.delivered = s.delivered) (discarded : after.discarded = s.discarded) :
    after.waiting = s.waiting ++ more := by
  rw [Queue.waiting, accepted, delivered, discarded, waiting_split s shaped, List.append_assoc, List.drop_left]

theorem enqueue_waiting [DecidableEq T] [DecidableEq P] (shaped : Shaped s) (t : T) (taken : s.enqueue t = some after) :
    (∀ u, u ≠ t → after.senders u = s.senders u) ∧
    (after.waiting = s.waiting ∧
        ((after.senders t).elem = (s.senders t).elem ∨ ∃ elem, s.senders t = .ready elem .closed) ∨
      ∃ elem msg, (s.senders t).elem = some elem ∧ s.contentAt elem = some msg ∧
        after.waiting = s.waiting ++ [msg] ∧ (after.senders t).elem = none) := by
  rcases enqueue_cases s after t taken with
    ⟨elem, pc, rfl⟩ | ⟨elem, e, pc, _, rfl⟩ | ⟨elem, e, pc, _, rfl⟩ | ⟨elem, e, pc, _, rfl⟩ | ⟨pc, rfl⟩
  · exact ⟨fun u => sender_other _ t u _, .inl ⟨rfl, .inr ⟨elem, pc⟩⟩⟩
  · exact ⟨fun u => sender_other _ t u _, .inl ⟨rfl, .inl (by rw [sender_self, pc]; rfl)⟩⟩
  · have mine : (s.senders t).elem = some elem := by rw [pc]; rfl
    have live : s.cells elem ≠ none := by
      obtain ⟨_, _, _, _, _, shape⟩ := shaped
      exact shape.pending.live t elem mine
    obtain ⟨cell, found⟩ := Option.ne_none_iff_exists'.mp live
    have content : s.contentAt elem = some cell.msg := by rw [Queue.contentAt, found]; rfl
    refine ⟨fun u => sender_other _ t u _, .inr ⟨elem, cell.msg, mine, content, ?_, ?_⟩⟩
    · refine waiting_grows s _ shaped [cell.msg] ?_ rfl rfl
      simp only [Queue.sendTo, msgAt, found]
      rfl
    · rw [sender_self]
      split <;> rfl
  · exact ⟨fun u => sender_other _ t u _, .inl ⟨rfl, .inl (by rw [sender_self, pc]; rfl)⟩⟩
  · exact ⟨fun u => sender_other _ t u _, .inl ⟨rfl, .inl (by rw [sender_self, pc]; rfl)⟩⟩

theorem discarded_none (shaped : Shaped s) (stack : s.stack ≠ .closed) (on : ∀ w, (s.readers w).closing = false) :
    s.discarded = [] := by
  obtain ⟨r, sl, ml, hl, current, shape⟩ := shaped
  refine shape.flow.kept ?_ stack
  rcases current with ⟨rfl, _⟩ | ⟨w, rfl, _⟩
  · rfl
  · exact on w

end Contents

section Stage

variable (me : T)

def Phase.works : Phase P A G M S D → Bool
  | .busy .. => true
  | .scanning => true
  | .passed => true
  | _ => false

def Phase.searched : Phase P A G M S D → Bool
  | .busy .. => false
  | .scanning => false
  | _ => true

structure Stage (r : Runtime T W P A G M S D) : Prop where
  quiet : r.phase = .quiet → r.cache = r.queue.cache ∧ ∀ w i elem, r.queue.readers w ≠ .took i elem
  fetched : ∀ elem, r.phase = .fetched elem → r.cache = r.queue.cache ∧ ∃ w i, r.queue.readers w = .took i elem
  working : r.phase.works = true →
    (∃ w i elem, r.queue.readers w = .took i elem ∧ r.cache.Sublist (r.queue.cache ++ [elem])) ∨
    ∃ w, r.queue.readers w = .starting ∧ r.cache = r.queue.cache ∧ r.cache = []
  unborn : ∀ state, r.status = .spawned state → r.cache = []
  alive : r.status ≠ .exited → r.queue.stack ≠ .closed ∧ ∀ w, (r.queue.readers w).closing = false
  sends : ∀ elem e, r.queue.senders me = .ready elem e → e ≠ .closed
  rests : (∀ event todo, r.phase ≠ .busy event todo) → r.queue.senders me = .idle

variable (r : Runtime T W P A G M S D) (after : Queue T W P (Envelope A G M))

theorem stage_on (stage : Stage me r) (notQuiet : r.phase ≠ .quiet) :
    ∃ w, r.queue.readers w ≠ .off ∧ (r.queue.readers w).shut = false ∧ (r.queue.readers w).closing = false := by
  have took (w : W) (i : Nat) (elem : P) (pc : r.queue.readers w = .took i elem) :
      r.queue.readers w ≠ .off ∧ (r.queue.readers w).shut = false ∧ (r.queue.readers w).closing = false := by
    rw [pc]
    exact ⟨by simp, rfl, rfl⟩
  cases phase : r.phase with
  | quiet => exact absurd phase notQuiet
  | fetched elem =>
      obtain ⟨_, w, i, pc⟩ := stage.fetched elem phase
      exact ⟨w, took w i elem pc⟩
  | _ =>
      rcases stage.working (by rw [phase]; rfl) with ⟨w, i, elem, pc, _⟩ | ⟨w, pc, _⟩
      · exact ⟨w, took w i elem pc⟩
      · refine ⟨w, ?_⟩
        rw [pc]
        exact ⟨by simp, rfl, rfl⟩

theorem stage_open [DecidableEq T] [DecidableEq W]
    (token : Token T W) (owned : Owned r.queue token) (stage : Stage me r) (notQuiet : r.phase ≠ .quiet) :
    r.queue.stack.Open := by
  obtain ⟨w, on, notShut, _⟩ := stage_on me r stage notQuiet
  exact (reader_ok r.queue token w owned on).opened notShut

theorem same_reader [DecidableEq T] [DecidableEq W]
    (token : Token T W) (owned : Owned r.queue token) (v w : W) (onV : r.queue.readers v ≠ .off)
    (onW : r.queue.readers w ≠ .off) : v = w := by
  have first := token_of_reader r.queue token v owned onV
  rw [token_of_reader r.queue token w owned onW] at first
  cases first
  rfl

theorem stage_alive [DecidableEq T] [DecidableEq W] [DecidableEq P]
    (token : Token T W) (owned : Owned r.queue token) (stage : Stage me r) (notQuiet : r.phase ≠ .quiet) :
    r.queue.stack ≠ .closed ∧ ∀ w, (r.queue.readers w).closing = false := by
  refine ⟨(stage_open me r token owned stage notQuiet).2, fun v => ?_⟩
  obtain ⟨w, on, _, notClosing⟩ := stage_on me r stage notQuiet
  by_cases off : r.queue.readers v = .off
  · simp [off, Reader.closing]
  · rw [same_reader r token owned v w off on]
    exact notClosing

theorem stage_outside (stage : Stage me r) (readers : after.readers = r.queue.readers) (cache : after.cache = r.queue.cache)
    (mine : after.senders me = r.queue.senders me) (stack : r.queue.stack ≠ .closed → after.stack ≠ .closed) :
    Stage me { r with queue := after } := by
  refine ⟨?_, ?_, ?_, stage.unborn, ?_, ?_, ?_⟩
  · simpa only [readers, cache] using stage.quiet
  · simpa only [readers, cache] using stage.fetched
  · simpa only [readers, cache] using stage.working
  · intro runs
    obtain ⟨notClosed, on⟩ := stage.alive runs
    simp only [readers]
    exact ⟨stack notClosed, on⟩
  · simpa only [mine] using stage.sends
  · simpa only [mine] using stage.rests

theorem stage_send [DecidableEq T] [DecidableEq P]
    (t : T) (elem : P) (env : Envelope A G M) (other : t ≠ me) (stage : Stage me r)
    (taken : r.queue.send t elem env = some after) : Stage me { r with queue := after } := by
  obtain ⟨_, _, rfl⟩ := send_cases r.queue after t elem env taken
  exact stage_outside me r _ stage rfl rfl (Function.update_of_ne other.symm _ _) id

theorem stage_enqueue [DecidableEq T] [DecidableEq W] [DecidableEq P]
    (token : Token T W) (owned : Owned r.queue token) (t : T) (stage : Stage me r)
    (taken : r.queue.enqueue t = some after) : Stage me { r with queue := after } := by
  have top (elem : P) : r.queue.stack ≠ .closed → (Stack.top elem : Stack P) ≠ .closed := fun _ => by simp
  by_cases mine : t = me
  · subst mine
    have busy : ∃ event todo, r.phase = .busy event todo := by
      by_contra rests
      push Not at rests
      rw [Queue.enqueue, stage.rests rests] at taken
      cases taken
    obtain ⟨event, todo, phase⟩ := busy
    have notQuiet : r.phase ≠ .quiet := by simp [phase]
    have opened := stage_open t r token owned stage notQuiet
    have stays (pc : Sender P) (q : Queue T W P (Envelope A G M)) (readers : q.readers = r.queue.readers)
        (cache : q.cache = r.queue.cache) (stack : r.queue.stack ≠ .closed → q.stack ≠ .closed)
        (ready : ∀ elem e, pc = .ready elem e → e ≠ .closed) : Stage t { r with queue := q.sendTo t pc } := by
      refine ⟨?_, ?_, ?_, stage.unborn, ?_, ?_, ?_⟩
      · exact fun quiet => absurd quiet notQuiet
      · simpa only [Queue.sendTo, readers, cache] using stage.fetched
      · simpa only [Queue.sendTo, readers, cache] using stage.working
      · intro runs
        obtain ⟨notClosed, on⟩ := stage.alive runs
        simp only [Queue.sendTo, readers]
        exact ⟨stack notClosed, on⟩
      · simp only [Queue.sendTo, Function.update_self]
        exact ready
      · exact fun rests => absurd phase (rests event todo)
    rcases enqueue_cases r.queue after t taken with
      ⟨elem, pc, rfl⟩ | ⟨elem, e, _, _, rfl⟩ | ⟨elem, e, _, _, rfl⟩ | ⟨elem, e, _, _, rfl⟩ | ⟨_, rfl⟩
    · exact absurd rfl (stage.sends elem .closed pc)
    · exact stays _ _ rfl rfl id (by simp)
    · refine stays _ _ rfl rfl (top elem) ?_
      intro other seen
      split <;> simp
    · refine stays _ _ rfl rfl id ?_
      rintro other seen ⟨⟩
      exact opened.2
    · exact stays _ _ rfl rfl id (by simp)
  · have same (pc : Sender P) : Function.update r.queue.senders t pc me = r.queue.senders me :=
      Function.update_of_ne (Ne.symm mine) _ _
    rcases enqueue_cases r.queue after t taken with
      ⟨elem, _, rfl⟩ | ⟨elem, e, _, _, rfl⟩ | ⟨elem, e, _, _, rfl⟩ | ⟨elem, e, _, _, rfl⟩ | ⟨_, rfl⟩
    · exact stage_outside me r _ stage rfl rfl (same _) id
    · exact stage_outside me r _ stage rfl rfl (same _) id
    · exact stage_outside me r _ stage rfl rfl (same _) (top elem)
    · exact stage_outside me r _ stage rfl rfl (same _) id
    · exact stage_outside me r _ stage rfl rfl (same _) id

theorem stage_resume [DecidableEq T] [DecidableEq W]
    (token : Token T W) (owned : Owned r.queue token) (w : W) (stage : Stage me r)
    (taken : r.queue.resume w = some after) : Stage me { r with queue := after } := by
  obtain ⟨jobs, off, count, rfl⟩ := resume_cases r.queue after w taken
  cases queue_of_job r.queue token owned (by simp [count])
  have allOff (v : W) : r.queue.readers v = .off := owned.others v (by simp)
  have quiet : r.phase = .quiet := by
    by_contra notQuiet
    obtain ⟨v, on, _⟩ := stage_on me r stage notQuiet
    exact on (allOff v)
  have now (v : W) : Function.update r.queue.readers w .starting v = .starting ∨
      Function.update r.queue.readers w .starting v = .off := by
    by_cases same : v = w
    · exact .inl (by rw [same, Function.update_self])
    · exact .inr (by rw [Function.update_of_ne same, allOff v])
  refine ⟨fun _ => ⟨(stage.quiet quiet).1, ?_⟩, ?_, ?_, stage.unborn, ?_, stage.sends, stage.rests⟩
  · intro v i elem
    rcases now v with pc | pc <;> simp [Queue.goTo, pc]
  · simp [quiet]
  · simp [quiet, Phase.works]
  · intro runs
    refine ⟨(stage.alive runs).1, fun v => ?_⟩
    rcases now v with pc | pc <;> simp [Queue.goTo, pc, Reader.closing]

variable (beh : Behaviour A G M S D O) (self : A) (maxThroughput : Nat) (later : Runtime T W P A G M S D)

def Leaving (w : W) : Prop :=
  r.queue.readers w = .starting ∧ r.cache = r.queue.cache ∨ ∃ i elem, r.queue.readers w = .took i elem

theorem leave_result [DecidableEq W] [DecidableEq P] [DecidableEq S]
    (w : W) (weak : Bool) (leaving : Leaving r w) (taken : r.leave maxThroughput w weak = some later) :
    ∃ cells i, (∀ addr ∈ r.cache, cells addr = r.queue.cells addr) ∧
      later = { r with
        queue := ({ r.queue with cells := cells, cache := r.cache } : Queue T W P (Envelope A G M)).goTo w
          (if r.status = .exited then .clearing false else .top i)
        phase := .quiet } := by
  obtain ⟨q, moved, rfl⟩ := Option.map_eq_some_iff.mp taken
  rcases leaving with ⟨pc, same⟩ | ⟨i, elem, pc⟩
  · simp only [Queue.read, pc, Option.some.injEq, decide_eq_true_eq] at moved
    refine ⟨r.queue.cells, 0, fun _ _ => rfl, ?_⟩
    rw [← moved, same]
  · simp only [Queue.read, pc] at moved
    split at moved
    · simp only [Option.some.injEq, decide_eq_true_eq] at moved
      refine ⟨_, i + 1, ?_, by rw [← moved]⟩
      intro addr member
      refine free_other _ _ _ fun gone => ?_
      simpa [member] using (List.mem_filter.mp gone).2
    · cases moved

theorem stage_leave [DecidableEq T] [DecidableEq W] [DecidableEq P] [DecidableEq S]
    (token : Token T W) (owned : Owned r.queue token) (w : W) (weak : Bool) (leaving : Leaving r w)
    (idle : r.queue.senders me = .idle) (stage : Stage me r) (taken : r.leave maxThroughput w weak = some later) :
    Stage me later := by
  have on : r.queue.readers w ≠ .off := by
    rcases leaving with ⟨pc, _⟩ | ⟨i, elem, pc⟩ <;> simp [pc]
  have off (v : W) (other : v ≠ w) : r.queue.readers v = .off := by
    refine owned.others v ?_
    rw [token_of_reader r.queue token w owned on]
    simpa using Ne.symm other
  obtain ⟨cells, i, _, rfl⟩ := leave_result r maxThroughput later w weak leaving taken
  refine ⟨fun _ => ⟨rfl, ?_⟩, by simp, by simp [Phase.works], stage.unborn, ?_, stage.sends, fun _ => idle⟩
  · intro v j elem
    by_cases same : v = w
    · simp only [Queue.goTo, same, Function.update_self]
      split <;> simp
    · simp [Queue.goTo, Function.update_of_ne same, off v same]
  · intro runs
    refine ⟨(stage.alive runs).1, fun v => ?_⟩
    by_cases same : v = w
    · simp only [Queue.goTo, same, Function.update_self]
      rw [if_neg runs]
      rfl
    · simp [Queue.goTo, Function.update_of_ne same, off v same, Reader.closing]

theorem stage_proceed [DecidableEq T] [DecidableEq W] [DecidableEq P]
    (token : Token T W) (owned : Owned r.queue token) (w : W) (weak : Bool) (quiet : r.phase = .quiet)
    (notStarting : r.queue.readers w ≠ .starting) (notTook : ∀ i elem, r.queue.readers w ≠ .took i elem)
    (stage : Stage me r) (taken : r.proceed maxThroughput w weak = some later) : Stage me later := by
  obtain ⟨q, moved, rfl⟩ := Option.map_eq_some_iff.mp taken
  have effect := read_effect r.queue q maxThroughput w weak notStarting notTook moved
  have on : r.queue.readers w ≠ .off := by
    intro off
    rw [Queue.read, off] at moved
    cases moved
  have off (v : W) (other : v ≠ w) : q.readers v = .off := by
    rw [effect.others v other]
    refine owned.others v ?_
    rw [token_of_reader r.queue token w owned on]
    simpa using Ne.symm other
  have cache : r.cache = q.cache := by rw [effect.cache, (stage.quiet quiet).1]
  have idle : q.senders me = .idle := by
    rw [effect.senders]
    exact stage.rests (by simp [quiet])
  refine ⟨?_, ?_, ?_, stage.unborn, ?_, by simp [idle], fun _ => idle⟩
  · intro stillQuiet
    refine ⟨cache, fun v i elem pc => ?_⟩
    by_cases same : v = w
    · subst same
      have now : q.readers v = .took i elem := pc
      simp [now, Reader.phase] at stillQuiet
    · rw [off v same] at pc
      cases pc
  · intro elem isFetched
    cases pc : q.readers w with
    | took i other =>
        simp only [pc, Reader.phase, Phase.fetched.injEq] at isFetched
        exact ⟨cache, w, i, by rw [pc, isFetched]⟩
    | _ => simp [pc, Reader.phase] at isFetched
  · cases pc : q.readers w <;> simp [Reader.phase, Phase.works]
  · intro runs
    obtain ⟨notClosed, before⟩ := stage.alive runs
    refine ⟨effect.stack (before w) notClosed, fun v => ?_⟩
    by_cases same : v = w
    · rw [same]
      exact effect.stays (before w)
    · simp [off v same, Reader.closing]

theorem stage_read [DecidableEq T] [DecidableEq W] [DecidableEq P] [DecidableEq S]
    (token : Token T W) (owned : Owned r.queue token) (w : W) (weak : Bool) (stage : Stage me r)
    (taken : r.read maxThroughput w weak = some later) : Stage me later := by
  unfold Runtime.read at taken
  split at taken
  · next pc quiet =>
      split at taken
      · refine stage_leave me r maxThroughput later token owned w weak (.inl ⟨pc, (stage.quiet quiet).1⟩) ?_ stage taken
        exact stage.rests (by simp [quiet])
      · cases taken
  · next pc passed =>
      refine stage_leave me r maxThroughput later token owned w weak (.inl ⟨pc, ?_⟩) (stage.rests (by simp [passed])) stage taken
      rcases stage.working (by rw [passed]; rfl) with ⟨v, i, elem, took, _⟩ | ⟨v, _, same, _⟩
      · have alone := token_of_reader r.queue token v owned (by simp [took])
        have here := token_of_reader r.queue token w owned (by simp [pc])
        rw [alone] at here
        cases here
        rw [took] at pc
        cases pc
      · exact same
  · cases taken
  · next i elem pc passed =>
      exact stage_leave me r maxThroughput later token owned w weak (.inr ⟨_, _, pc⟩) (stage.rests (by simp [passed])) stage taken
  · cases taken
  · next quiet notStarting notTook =>
      exact stage_proceed me r maxThroughput later token owned w weak quiet notStarting notTook stage taken
  · cases taken

theorem stage_works (status : Status S) (cache : List P) (phase : Phase P A G M S D) (log : List (Event A G M S D))
    (works : phase.works = true)
    (held : (∃ w i elem, r.queue.readers w = .took i elem ∧ cache.Sublist (r.queue.cache ++ [elem])) ∨
      ∃ w, r.queue.readers w = .starting ∧ cache = r.queue.cache ∧ cache = [])
    (unborn : ∀ state, status = .spawned state → cache = [])
    (alive : r.queue.stack ≠ .closed ∧ ∀ w, (r.queue.readers w).closing = false) (idle : r.queue.senders me = .idle)
    (stage : Stage me r) : Stage me ⟨r.queue, status, cache, phase, log⟩ := by
  refine ⟨?_, ?_, fun _ => held, unborn, fun _ => alive, stage.sends, fun _ => idle⟩
  · rintro rfl
    cases works
  · rintro elem rfl
    cases works

theorem stage_initialise (w : W) (draw : D) (tag : Nat) (stage : Stage me r)
    (taken : r.initialise beh self w draw tag = some later) : Stage me later := by
  unfold Runtime.initialise at taken
  split at taken
  · next state pc quiet status =>
      cases taken
      exact stage_works me r _ _ _ _ rfl (.inr ⟨w, pc, (stage.quiet quiet).1, stage.unborn state status⟩) stage.unborn
        (stage.alive (by simp [status])) (stage.rests (by simp [quiet])) stage
  · cases taken

theorem stage_invoke (w : W) (draw : D) (tag : Nat) (stage : Stage me r)
    (taken : r.invoke beh self w draw tag = some later) : Stage me later := by
  unfold Runtime.invoke at taken
  split at taken
  · next elem state pc fetched status =>
      obtain ⟨env, _, rfl⟩ := Option.map_eq_some_iff.mp taken
      obtain ⟨cache, v, i, took⟩ := stage.fetched elem fetched
      have idle := stage.rests (by simp [fetched])
      split
      · refine stage_works me r _ _ _ _ rfl (.inl ⟨v, i, elem, took, ?_⟩) stage.unborn (stage.alive (by simp [status])) idle stage
        rw [cache]
        exact List.sublist_append_left _ _
      · refine stage_works me r _ _ _ _ rfl (.inl ⟨v, i, elem, took, ?_⟩) (by simp [status]) (stage.alive (by simp [status]))
          idle stage
        rw [cache]
  · cases taken

theorem stage_scan [DecidableEq T] [DecidableEq W]
    (token : Token T W) (owned : Owned r.queue token) (w : W) (draw : D) (tag : Nat) (stage : Stage me r)
    (taken : r.scan beh self w draw tag = some later) : Stage me later := by
  unfold Runtime.scan at taken
  split at taken
  · next state pc scanning status =>
      have idle := stage.rests (by simp [scanning])
      have working := stage.working (by rw [scanning]; rfl)
      split at taken
      · cases taken
        exact stage_works me r _ _ _ _ rfl working stage.unborn (stage.alive (by simp [status])) idle stage
      · obtain ⟨env, _, rfl⟩ := Option.map_eq_some_iff.mp taken
        refine stage_works me r _ _ _ _ rfl ?_ (by simp [status]) (stage.alive (by simp [status]))
          idle stage
        rcases working with ⟨v, i, elem, took, sub⟩ | ⟨v, starting, _⟩
        · exact .inl ⟨v, i, elem, took, List.eraseP_sublist.trans sub⟩
        · cases same_reader r token owned v w (by simp [starting]) (by simp [pc])
          rw [starting] at pc
          cases pc
  · cases taken

theorem stage_self_send [DecidableEq T] [DecidableEq W] [DecidableEq P]
    (token : Token T W) (owned : Owned r.queue token) (elem : P) (stage : Stage me r)
    (taken : r.selfSend me elem = some later) : Stage me later := by
  unfold Runtime.selfSend at taken
  split at taken
  · next event env rest phase =>
      obtain ⟨q, sent, rfl⟩ := Option.map_eq_some_iff.mp taken
      have opened := stage_open me r token owned stage (by simp [phase])
      obtain ⟨_, _, rfl⟩ := send_cases r.queue q me elem env sent
      refine ⟨by simp, by simp, fun _ => stage.working (by rw [phase]; rfl), stage.unborn, stage.alive, ?_, by simp⟩
      intro other e ready
      simp only [Queue.sendTo, Function.update_self, Sender.ready.injEq] at ready
      rw [← ready.2]
      exact opened.2
  · cases taken

def settledStatus : Outcome S → Status S
  | .become state => .running state
  | .hang => .hung
  | .quit => .exited
  | .raise => .exited

theorem finish_cases (w : W) (taken : r.finish beh self me w = some later) :
    ∃ event phase, r.phase = .busy event [] ∧ r.queue.senders me = .idle ∧
      later = { r with status := settledStatus (reactionOf beh self event).outcome, phase := phase } ∧
      (phase = .scanning ∨ phase = .passed ∧
        (r.queue.readers w = .starting ∨ settledStatus (reactionOf beh self event).outcome = .exited)) ∧
      (reactionOf beh self event).outcome ≠ .hang := by
  unfold Runtime.finish at taken
  split at taken
  · next event phase idle pc =>
      cases outcome : (reactionOf beh self event).outcome <;> rw [outcome] at taken <;> cases taken <;>
        exact ⟨event, .passed, phase, idle, by rw [outcome]; rfl, .inr ⟨rfl, .inl pc⟩, by simp [outcome]⟩
  · next event i elem phase idle pc =>
      cases outcome : (reactionOf beh self event).outcome <;> rw [outcome] at taken <;> cases taken
      · exact ⟨event, .scanning, phase, idle, by rw [outcome]; rfl, .inl rfl, by simp [outcome]⟩
      · exact ⟨event, .passed, phase, idle, by rw [outcome]; rfl, .inr ⟨rfl, .inr (by rw [outcome]; rfl)⟩, by simp [outcome]⟩
      · exact ⟨event, .passed, phase, idle, by rw [outcome]; rfl, .inr ⟨rfl, .inr (by rw [outcome]; rfl)⟩, by simp [outcome]⟩
  · cases taken

theorem stage_finish [DecidableEq T] [DecidableEq W] [DecidableEq P]
    (token : Token T W) (owned : Owned r.queue token) (w : W) (stage : Stage me r)
    (taken : r.finish beh self me w = some later) : Stage me later := by
  obtain ⟨event, phase, busy, idle, rfl, next, _⟩ := finish_cases me r beh self later w taken
  refine stage_works me r _ _ _ _ ?_ (stage.working (by rw [busy]; rfl)) ?_ (stage_alive me r token owned stage (by simp [busy])) idle stage
  · rcases next with rfl | ⟨rfl, _⟩ <;> rfl
  · intro state unborn
    cases outcome : (reactionOf beh self event).outcome <;> simp [outcome, settledStatus] at unborn

theorem stage_step [DecidableEq T] [DecidableEq W] [DecidableEq P] [DecidableEq S]
    (token : Token T W) (owned : Owned r.queue token) (label : RuntimeLabel T W P A G M D) (stage : Stage me r)
    (taken : r.step beh self me maxThroughput label = some later) : Stage me later := by
  cases label with
  | send t elem env =>
      by_cases mine : t = me
      · simp [Runtime.step, mine] at taken
      · simp only [Runtime.step, if_neg mine] at taken
        obtain ⟨q, moved, rfl⟩ := Option.map_eq_some_iff.mp taken
        exact stage_send me r q t elem env mine stage moved
  | sender t =>
      obtain ⟨q, moved, rfl⟩ := Option.map_eq_some_iff.mp taken
      exact stage_enqueue me r q token owned t stage moved
  | resume w =>
      obtain ⟨q, moved, rfl⟩ := Option.map_eq_some_iff.mp taken
      exact stage_resume me r q token owned w stage moved
  | reader w weak => exact stage_read me r maxThroughput later token owned w weak stage taken
  | initialise w draw tag => exact stage_initialise me r beh self later w draw tag stage taken
  | invoke w draw tag => exact stage_invoke me r beh self later w draw tag stage taken
  | scan w draw tag => exact stage_scan me r beh self later token owned w draw tag stage taken
  | selfSend elem => exact stage_self_send me r later token owned elem stage taken
  | finish w => exact stage_finish me r beh self later token owned w stage taken

end Stage

end VsLab.Mailbox
