import VsLab.Actors.Transition
import VsLab.Chains
import Mathlib.Data.List.Sublists

set_option autoImplicit false

namespace VsLab.Mailbox

open Chains Actors

variable {T W P M : Type}

-- m_stack: a null pointer closes the queue, the two dummies stand for a queue that is
-- empty and for one whose reader waits.
inductive Stack (P : Type) where
  | closed
  | empty
  | blocked
  | top (addr : P)
deriving DecidableEq

def Stack.isDummy : Stack P → Bool
  | .empty => true
  | .blocked => true
  | _ => false

def Stack.link : Stack P → Option P
  | .top addr => some addr
  | _ => none

-- A thread inside cooperative_scheduling::enqueue: ready has loaded m_stack into e,
-- linked has written the next pointer of its element, waking has unblocked the reader
-- and is about to schedule the actor.
inductive Sender (P : Type) where
  | idle
  | ready (elem : P) (e : Stack P)
  | linked (elem : P) (e : Stack P)
  | waking
deriving DecidableEq

inductive Goal where
  | pop (i : Nat)
  | close
deriving DecidableEq

def Goal.endPtr : Goal → Stack P
  | .pop _ => .empty
  | .close => .closed

-- A scheduler thread inside resume: starting comes before the loop and is where the
-- actor is initialised, i counts the loop over max_throughput.
inductive Reader (P : Type) where
  | off
  | starting
  | top (i : Nat)
  | fetching (goal : Goal) (e : Stack P)
  | moving (goal : Goal) (e : Option P)
  | took (i : Nat) (elem : P)
  | blocking (i : Nat)
  | peeked (e : Stack P)
  | lastBlock
  | clearing (last : Bool)
deriving DecidableEq

-- jobs is how often the actor stands in the queues of the scheduler, cache what the
-- actor has set aside. The three lists of messages are ghost.
structure Queue (T W P M : Type) where
  cells : P → Option (Cell P M)
  stack : Stack P
  head : Option P
  senders : T → Sender P
  readers : W → Reader P
  jobs : Nat
  cache : List P
  accepted : List M
  delivered : List M
  discarded : List M

-- weak is a compare_exchange_weak that fails for no reason; exits says whether the
-- actor is done after the message, kept what is in its cache then.
inductive Label (T W P M : Type) where
  | send (sender : T) (elem : P) (msg : M)
  | sender (sender : T)
  | resume (worker : W)
  | reader (worker : W) (weak exits : Bool) (kept : List P)

def Queue.sendTo [DecidableEq T] (s : Queue T W P M) (t : T) (pc : Sender P) : Queue T W P M :=
  { s with senders := Function.update s.senders t pc }

def Queue.goTo [DecidableEq W] (s : Queue T W P M) (w : W) (pc : Reader P) : Queue T W P M :=
  { s with readers := Function.update s.readers w pc }

@[simp] theorem sender_self [DecidableEq T]
    (s : Queue T W P M) (t : T) (pc : Sender P) : (s.sendTo t pc).senders t = pc :=
  Function.update_self _ _ _

theorem sender_other [DecidableEq T] (s : Queue T W P M) (t u : T) (pc : Sender P) (other : u ≠ t) :
    (s.sendTo t pc).senders u = s.senders u := Function.update_of_ne other _ _

section Steps

variable [DecidableEq T] [DecidableEq W] [DecidableEq P]

def Queue.send (s : Queue T W P M) (t : T) (elem : P) (msg : M) : Option (Queue T W P M) :=
  match s.senders t, s.cells elem with
  | .idle, none =>
      some ({ s with cells := Function.update s.cells elem (some ⟨msg, none⟩) }.sendTo t (.ready elem s.stack))
  | _, _ => none

def Queue.enqueue (s : Queue T W P M) (t : T) : Option (Queue T W P M) :=
  match s.senders t with
  | .idle => none
  | .ready elem .closed => some ({ s with cells := free s.cells [elem] }.sendTo t .idle)
  | .ready elem e => some ({ s with cells := setNext s.cells elem e.link }.sendTo t (.linked elem e))
  | .linked elem e =>
      if s.stack = e then
        some ({ s with stack := .top elem, accepted := s.accepted ++ msgAt s.cells elem }.sendTo t
          (if e = Stack.blocked then .waking else .idle))
      else some (s.sendTo t (.ready elem s.stack))
  | .waking => some ({ s with jobs := s.jobs + 1 }.sendTo t .idle)

def Queue.resume (s : Queue T W P M) (w : W) : Option (Queue T W P M) :=
  match s.readers w, s.jobs with
  | .off, jobs + 1 => some ({ s with jobs := jobs }.goTo w .starting)
  | _, _ => none

def Queue.takeHead (s : Queue T W P M) (w : W) (i : Nat) : Option (Queue T W P M) :=
  s.head.map fun elem =>
    { s with head := nextAt s.cells elem, delivered := s.delivered ++ msgAt s.cells elem }.goTo w (.took i elem)

def Goal.fail : Goal → Reader P
  | .pop i => .blocking i
  | .close => .off

def Queue.fetch (s : Queue T W P M) (w : W) (goal : Goal) (e : Stack P) (weak : Bool) : Queue T W P M :=
  if e = goal.endPtr then s.goTo w goal.fail
  else if weak = false ∧ s.stack = e then
    match e with
    | .top elem => { s with stack := goal.endPtr }.goTo w (.moving goal (some elem))
    | _ => { s with stack := goal.endPtr }.goTo w goal.fail
  else s.goTo w (.fetching goal s.stack)

def Queue.move (s : Queue T W P M) (w : W) (goal : Goal) : Option P → Option (Queue T W P M)
  | some elem =>
      some ({ s with cells := setNext s.cells elem s.head, head := some elem }.goTo w
        (.moving goal (nextAt s.cells elem)))
  | none =>
      match goal with
      | .pop i => s.takeHead w i
      | .close => some (s.goTo w (.clearing true))

def Queue.resumeLater (s : Queue T W P M) (w : W) : Queue T W P M :=
  { s with jobs := s.jobs + 1 }.goTo w .off

def Queue.tryBlock (s : Queue T W P M) (w : W) (failed : Queue T W P M) : Queue T W P M :=
  if s.stack = .empty then { s with stack := .blocked }.goTo w .off
  else if s.stack = .blocked then s.goTo w .off
  else failed

def Queue.clear (s : Queue T W P M) (w : W) (last : Bool) : Queue T W P M :=
  match s.head with
  | some elem =>
      { s with
        cells := free s.cells [elem], head := nextAt s.cells elem
        discarded := s.discarded ++ msgAt s.cells elem }
  | none => s.goTo w (if last then .off else .fetching .close s.stack)

variable (maxThroughput : Nat)

def Queue.read (s : Queue T W P M) (w : W) (weak exits : Bool) (kept : List P) : Option (Queue T W P M) :=
  match s.readers w with
  | .off => none
  | .starting => some (s.goTo w (if exits then .clearing false else .top 0))
  | .top i =>
      if i < maxThroughput then
        if s.head = none then some (s.goTo w (.fetching (.pop i) s.stack)) else s.takeHead w i
      else if s.head = none then some (s.goTo w (.peeked s.stack))
      else some (s.resumeLater w)
  | .fetching goal e => some (s.fetch w goal e weak)
  | .moving goal e => s.move w goal e
  | .took i elem =>
      if List.Sublist kept (s.cache ++ [elem]) then
        some ({ s with
          cells := free s.cells ((s.cache ++ [elem]).filter fun addr => addr ∉ kept), cache := kept }.goTo w
          (if exits then .clearing false else .top (i + 1)))
      else none
  | .blocking i => some (s.tryBlock w (s.goTo w (.top (i + 1))))
  | .peeked e => if e.isDummy then some (s.goTo w .lastBlock) else some (s.resumeLater w)
  | .lastBlock => some (s.tryBlock w (s.resumeLater w))
  | .clearing last => some (s.clear w last)

def Queue.step (s : Queue T W P M) : Label T W P M → Option (Queue T W P M)
  | .send t elem msg => s.send t elem msg
  | .sender t => s.enqueue t
  | .resume w => s.resume w
  | .reader w weak exits kept => s.read maxThroughput w weak exits kept

def launched : Queue T W P M where
  cells := fun _ => none
  stack := .empty
  head := none
  senders := fun _ => .idle
  readers := fun _ => .off
  jobs := 1
  cache := []
  accepted := []
  delivered := []
  discarded := []

def mailboxLts : Lts (Queue T W P M) (Label T W P M) := ⟨launched, fun s => s.step maxThroughput⟩

end Steps

theorem send_cases [DecidableEq T] [DecidableEq P]
    (s after : Queue T W P M) (t : T) (elem : P) (msg : M) (taken : s.send t elem msg = some after) :
    s.senders t = .idle ∧ s.cells elem = none ∧
      after = ({ s with cells := Function.update s.cells elem (some ⟨msg, none⟩) } : Queue T W P M).sendTo t
        (.ready elem s.stack) := by
  unfold Queue.send at taken
  split at taken
  · next idle vacant =>
      cases taken
      exact ⟨idle, vacant, rfl⟩
  · cases taken

theorem resume_cases [DecidableEq W] (s after : Queue T W P M) (w : W) (taken : s.resume w = some after) :
    ∃ jobs, s.readers w = .off ∧ s.jobs = jobs + 1 ∧
      after = ({ s with jobs := jobs } : Queue T W P M).goTo w .starting := by
  unfold Queue.resume at taken
  split at taken
  · next jobs off count =>
      cases taken
      exact ⟨jobs, off, count, rfl⟩
  · cases taken

theorem enqueue_cases [DecidableEq T] [DecidableEq P]
    (s after : Queue T W P M) (t : T) (taken : s.enqueue t = some after) :
    (∃ elem, s.senders t = .ready elem .closed ∧
      after = ({ s with cells := free s.cells [elem] } : Queue T W P M).sendTo t .idle) ∨
    (∃ elem e, s.senders t = .ready elem e ∧ e ≠ .closed ∧
      after = ({ s with cells := setNext s.cells elem e.link } : Queue T W P M).sendTo t (.linked elem e)) ∨
    (∃ elem e, s.senders t = .linked elem e ∧ s.stack = e ∧
      after = ({ s with stack := .top elem, accepted := s.accepted ++ msgAt s.cells elem } : Queue T W P M).sendTo t
        (if e = Stack.blocked then .waking else .idle)) ∨
    (∃ elem e, s.senders t = .linked elem e ∧ s.stack ≠ e ∧ after = s.sendTo t (.ready elem s.stack)) ∨
    (s.senders t = .waking ∧ after = ({ s with jobs := s.jobs + 1 } : Queue T W P M).sendTo t .idle) := by
  unfold Queue.enqueue at taken
  split at taken
  · cases taken
  · next elem pc =>
      cases taken
      exact .inl ⟨elem, pc, rfl⟩
  · next elem e notClosed pc =>
      cases taken
      exact .inr (.inl ⟨elem, e, pc, fun closed => notClosed closed, rfl⟩)
  · next elem e pc =>
      by_cases same : s.stack = e
      · rw [if_pos same] at taken
        cases taken
        exact .inr (.inr (.inl ⟨elem, e, pc, same, rfl⟩))
      · rw [if_neg same] at taken
        cases taken
        exact .inr (.inr (.inr (.inl ⟨elem, e, pc, same, rfl⟩)))
  · next pc =>
      cases taken
      exact .inr (.inr (.inr (.inr ⟨pc, rfl⟩)))

inductive Token (T W : Type) where
  | free
  | queue
  | reader (worker : W)
  | sender (sender : T)
deriving DecidableEq

def Stack.Open (stack : Stack P) : Prop := stack ≠ .blocked ∧ stack ≠ .closed

def Reader.shut : Reader P → Bool
  | .moving .close _ => true
  | .clearing true => true
  | _ => false

def Reader.dry : Reader P → Bool
  | .fetching .. => true
  | .blocking _ => true
  | .peeked _ => true
  | .lastBlock => true
  | _ => false

def Reader.seen : Reader P → Option (Stack P)
  | .fetching _ e => some e
  | _ => none

structure ReaderOk (s : Queue T W P M) (r : Reader P) : Prop where
  on : r ≠ .off
  shut : r.shut = true → s.stack = .closed
  opened : r.shut = false → s.stack.Open
  dry : r.dry = true → s.head = none
  seen : ∀ e, r.seen = some e → e.Open

theorem open_reader (s : Queue T W P M) (r : Reader P) (on : r ≠ .off) (goesOn : r.shut = false) (wet : r.dry = false)
    (unseen : r.seen = none) (opened : s.stack.Open) : ReaderOk s r :=
  ⟨on, by simp [goesOn], fun _ => opened, by simp [wet], by simp [unseen]⟩

theorem dry_reader (s : Queue T W P M) (r : Reader P) (on : r ≠ .off) (goesOn : r.shut = false) (empty : s.head = none)
    (unseen : r.seen = none) (opened : s.stack.Open) : ReaderOk s r :=
  ⟨on, by simp [goesOn], fun _ => opened, fun _ => empty, by simp [unseen]⟩

-- One token at any time: a job in a queue, a reader at work, or a sender that has
-- unblocked the reader. Nobody has it only while the reader waits or is done.
structure Owned [DecidableEq T] [DecidableEq W] (s : Queue T W P M) (token : Token T W) : Prop where
  jobs : s.jobs = if token = .queue then 1 else 0
  others : ∀ w, token ≠ .reader w → s.readers w = .off
  reading : ∀ w, token = .reader w → ReaderOk s (s.readers w)
  waking : ∀ t, s.senders t = .waking ↔ token = .sender t
  linked : ∀ t elem e, s.senders t = .linked elem e → e ≠ .closed
  free : token = .free → s.head = none ∧ ¬ s.stack.Open
  pending : token = .queue ∨ (∃ t, token = .sender t) → s.stack.Open

variable (maxThroughput : Nat)

section Token

variable [DecidableEq T] [DecidableEq W]

variable (s after : Queue T W P M) (token : Token T W)

theorem open_or_free (owned : Owned s token) (shut : ¬ s.stack.Open) :
    token = .free ∨ ∃ w, token = .reader w ∧ s.stack = .closed := by
  cases token with
  | free => exact .inl rfl
  | queue => exact absurd (owned.pending (.inl rfl)) shut
  | sender t => exact absurd (owned.pending (.inr ⟨t, rfl⟩)) shut
  | reader w =>
      have ok := owned.reading w rfl
      by_cases isShut : (s.readers w).shut = true
      · exact .inr ⟨w, rfl, ok.shut isShut⟩
      · exact absurd (ok.opened (by simpa using isShut)) shut

theorem reader_goes_on (w : W) (pc : Reader P) (owned : Owned s (.reader w)) (jobs : after.jobs = s.jobs)
    (senders : after.senders = s.senders) (readers : after.readers = Function.update s.readers w pc)
    (ok : ReaderOk after pc) : Owned after (.reader w) := by
  refine ⟨jobs.trans owned.jobs, ?_, ?_, ?_, ?_, by simp, by simp⟩
  · intro v different
    have other : v ≠ w := fun same => different (by rw [same])
    rw [readers, Function.update_of_ne other]
    exact owned.others v different
  · intro v same
    cases same
    rw [readers, Function.update_self]
    exact ok
  · rw [senders]
    exact owned.waking
  · rw [senders]
    exact owned.linked

theorem reader_leaves (w : W) (left : Token T W) (owned : Owned s (.reader w))
    (kind : left = .free ∨ left = .queue) (jobs : after.jobs = if left = .queue then 1 else 0)
    (senders : after.senders = s.senders) (readers : after.readers = Function.update s.readers w .off)
    (free : left = .free → after.head = none ∧ ¬ after.stack.Open) (queued : left = .queue → after.stack.Open) :
    Owned after left := by
  have notReader (v : W) : left ≠ .reader v := by rcases kind with rfl | rfl <;> simp
  have notSender (t : T) : left ≠ .sender t := by rcases kind with rfl | rfl <;> simp
  refine ⟨jobs, ?_, fun v same => absurd same (notReader v), ?_, ?_, free, ?_⟩
  · intro v _
    by_cases same : v = w
    · rw [readers, same, Function.update_self]
    · rw [readers, Function.update_of_ne same]
      exact owned.others v (by simpa using Ne.symm same)
  · intro t
    rw [senders, owned.waking t]
    simp [notSender t]
  · rw [senders]
    exact owned.linked
  · rintro (isQueue | ⟨t, isSender⟩)
    · exact queued isQueue
    · exact absurd isSender (notSender t)

theorem sender_goes_on (t : T) (pc : Sender P) (owned : Owned s token) (notWaking : s.senders t ≠ .waking)
    (quiet : pc ≠ .waking) (legal : ∀ elem e, pc = .linked elem e → e ≠ .closed) (jobs : after.jobs = s.jobs)
    (readers : after.readers = s.readers) (senders : after.senders = Function.update s.senders t pc)
    (head : after.head = s.head) (stack : after.stack = s.stack ∨ (s.stack.Open ∧ after.stack.Open)) :
    Owned after token := by
  have sameOpen : after.stack.Open ↔ s.stack.Open := by
    rcases stack with same | ⟨before, now⟩
    · rw [same]
    · simp [before, now]
  refine ⟨jobs.trans owned.jobs, ?_, ?_, ?_, ?_, ?_, ?_⟩
  · rw [readers]
    exact owned.others
  · intro w same
    obtain ⟨on, shut, opened, dry, seen⟩ := owned.reading w same
    rw [readers]
    refine ⟨on, ?_, fun notShut => sameOpen.mpr (opened notShut), fun isDry => head.trans (dry isDry), seen⟩
    intro isShut
    rcases stack with same | ⟨before, _⟩
    · rw [same]
      exact shut isShut
    · exact absurd (shut isShut) before.2
  · intro u
    rw [senders]
    by_cases same : u = t
    · subst same
      rw [Function.update_self, ← owned.waking u]
      exact iff_of_false quiet notWaking
    · rw [Function.update_of_ne same]
      exact owned.waking u
  · intro u elem e
    rw [senders]
    by_cases same : u = t
    · subst same
      rw [Function.update_self]
      exact legal elem e
    · rw [Function.update_of_ne same]
      exact owned.linked u elem e
  · intro isFree
    rw [head, sameOpen]
    exact owned.free isFree
  · intro held
    exact sameOpen.mpr (owned.pending held)

theorem owned_send [DecidableEq P]
    (t : T) (elem : P) (msg : M) (owned : Owned s token) (taken : s.send t elem msg = some after) :
    Owned after token := by
  obtain ⟨idle, _, rfl⟩ := send_cases s after t elem msg taken
  exact sender_goes_on s _ token t _ owned (by simp [idle]) (by simp) (by simp) rfl rfl rfl rfl (.inl rfl)

theorem owned_enqueue [DecidableEq P] (t : T) (owned : Owned s token) (taken : s.enqueue t = some after) :
    ∃ next, Owned after next := by
  rcases enqueue_cases s after t taken with
    ⟨elem, pc, rfl⟩ | ⟨elem, e, pc, notClosed, rfl⟩ | ⟨elem, e, pc, same, rfl⟩ | ⟨elem, e, pc, _, rfl⟩ | ⟨pc, rfl⟩
  · exact ⟨token, sender_goes_on s _ token t _ owned (by simp [pc]) (by simp) (by simp) rfl rfl rfl rfl (.inl rfl)⟩
  · refine ⟨token, sender_goes_on s _ token t _ owned (by simp [pc]) (by simp) ?_ rfl rfl rfl rfl (.inl rfl)⟩
    rintro other seen ⟨⟩
    exact notClosed
  · have legal := owned.linked t elem e pc
    by_cases blocked : e = .blocked
    · -- The reader waits and nobody else holds the token: now this sender does.
      have shut : ¬ s.stack.Open := fun isOpen => isOpen.1 (same.trans blocked)
      have isFree : token = .free := by
        rcases open_or_free s token owned shut with free | ⟨_, _, closed⟩
        · exact free
        · rw [same, blocked] at closed
          cases closed
      subst isFree
      refine ⟨.sender t, owned.jobs.trans (by simp), fun w _ => owned.others w (by simp), by simp, ?_, ?_, by simp,
        fun _ => ⟨by simp [Queue.sendTo], by simp [Queue.sendTo]⟩⟩
      · intro u
        by_cases self : u = t
        · simp [Queue.sendTo, self, blocked]
        · simp only [Queue.sendTo, Function.update_of_ne self, owned.waking u]
          simp [Ne.symm self]
      · intro u other seen
        by_cases self : u = t
        · subst self
          simp [Queue.sendTo, blocked]
        · simp only [Queue.sendTo, Function.update_of_ne self]
          exact owned.linked u other seen
    · refine ⟨token, sender_goes_on s _ token t _ owned (by simp [pc]) (by simp [blocked]) (by simp [blocked])
        rfl rfl rfl rfl (.inr ⟨⟨?_, ?_⟩, by simp [Stack.Open, Queue.sendTo]⟩)⟩
      · rwa [same]
      · rwa [same]
  · exact ⟨token, sender_goes_on s _ token t _ owned (by simp [pc]) (by simp) (by simp) rfl rfl rfl rfl (.inl rfl)⟩
  · have mine : token = .sender t := (owned.waking t).mp pc
    subst mine
    refine ⟨.queue, ?_, fun w _ => owned.others w (by simp), by simp, ?_, ?_, by simp, fun _ => owned.pending (.inr ⟨t, rfl⟩)⟩
    · have none := owned.jobs
      simp only [Queue.sendTo] at none ⊢
      simpa using none
    · intro u
      by_cases self : u = t
      · simp [Queue.sendTo, self]
      · simp only [Queue.sendTo, Function.update_of_ne self, owned.waking u]
        simp [Ne.symm self]
    · intro u other seen
      by_cases self : u = t
      · subst self
        simp [Queue.sendTo]
      · simp only [Queue.sendTo, Function.update_of_ne self]
        exact owned.linked u other seen

theorem queue_of_job (owned : Owned s token) (job : s.jobs ≠ 0) : token = .queue := by
  by_contra other
  rw [owned.jobs, if_neg other] at job
  exact job rfl

theorem owned_resume (w : W) (owned : Owned s token) (taken : s.resume w = some after) :
    Owned after (.reader w) := by
  obtain ⟨jobs, off, count, rfl⟩ := resume_cases s after w taken
  cases queue_of_job s token owned (by simp [count])
  have held := owned.jobs
  rw [count] at held
  have opened := owned.pending (.inl rfl)
  refine ⟨?_, ?_, ?_, ?_, owned.linked, by simp, by simp⟩
  · simp only [if_true] at held
    simp only [Queue.goTo]
    simpa using held
  · intro v different
    have other : v ≠ w := fun same => different (by rw [same])
    simp only [Queue.goTo, Function.update_of_ne other]
    exact owned.others v (by simp)
  · rintro v ⟨⟩
    simp only [Queue.goTo, Function.update_self]
    exact open_reader _ _ (by simp) rfl rfl rfl opened
  · intro t
    simp only [Queue.goTo, owned.waking t]
    simp

theorem token_of_reader (w : W) (owned : Owned s token) (on : s.readers w ≠ .off) : token = .reader w := by
  by_contra other
  exact on (owned.others w other)

theorem reader_at (w : W) (pc : Reader P) (owned : Owned s token) (here : s.readers w = pc) (on : pc ≠ .off) :
    token = .reader w ∧ ReaderOk s pc := by
  have mine := token_of_reader s token w owned (here ▸ on)
  exact ⟨mine, here ▸ owned.reading w mine⟩

theorem owned_take_head (w : W) (i : Nat) (owned : Owned s (.reader w)) (opened : s.stack.Open)
    (taken : s.takeHead w i = some after) : Owned after (.reader w) := by
  obtain ⟨elem, _, rfl⟩ := Option.map_eq_some_iff.mp taken
  exact reader_goes_on s _ w _ owned rfl rfl rfl
    (open_reader _ _ (by simp) rfl rfl rfl opened)

theorem owned_resume_later (w : W) (owned : Owned s (.reader w)) (opened : s.stack.Open) :
    Owned (s.resumeLater w) .queue := by
  refine reader_leaves s _ w .queue owned (.inr rfl) ?_ rfl rfl (by simp) fun _ => opened
  have none := owned.jobs
  simp only [Queue.resumeLater, Queue.goTo] at none ⊢
  simpa using none

theorem owned_try_block [DecidableEq P]
    (w : W) (failed : Queue T W P M) (owned : Owned s (.reader w)) (empty : s.head = none)
    (later : ∃ next, Owned failed next) : ∃ next, Owned (s.tryBlock w failed) next := by
  have none : s.jobs = 0 := owned.jobs.trans (by simp)
  unfold Queue.tryBlock
  split
  · exact ⟨.free, reader_leaves s _ w .free owned (.inl rfl) (none.trans (by simp)) rfl rfl
      (fun _ => ⟨empty, by simp [Stack.Open, Queue.goTo]⟩) (by simp)⟩
  · split
    · next blocked =>
        exact ⟨.free, reader_leaves s _ w .free owned (.inl rfl) (none.trans (by simp)) rfl rfl
          (fun _ => ⟨empty, by simp [Stack.Open, Queue.goTo, blocked]⟩) (by simp)⟩
    · exact later

theorem owned_fail (w : W) (goal : Goal) (owned : Owned s (.reader w)) (jobs : after.jobs = s.jobs)
    (senders : after.senders = s.senders) (readers : after.readers = Function.update s.readers w goal.fail)
    (empty : after.head = none) (pops : ∀ i, goal = .pop i → after.stack.Open)
    (closes : goal = .close → ¬ after.stack.Open) : ∃ next, Owned after next := by
  cases goal with
  | pop i =>
      exact ⟨_, reader_goes_on s after w _ owned jobs senders readers
        ⟨by simp [Goal.fail], by simp [Goal.fail, Reader.shut], fun _ => pops i rfl, fun _ => empty,
          by simp [Goal.fail, Reader.seen]⟩⟩
  | close =>
      have none : after.jobs = 0 := jobs.trans (owned.jobs.trans (by simp))
      exact ⟨.free, reader_leaves s after w .free owned (.inl rfl) (none.trans (by simp)) senders readers
        (fun _ => ⟨empty, closes rfl⟩) (by simp)⟩

theorem owned_fetch [DecidableEq P] (w : W) (goal : Goal) (e : Stack P) (weak : Bool) (owned : Owned s (.reader w))
    (pc : s.readers w = .fetching goal e) : ∃ next, Owned (s.fetch w goal e weak) next := by
  have ok := owned.reading w rfl
  rw [pc] at ok
  have empty := ok.dry rfl
  have opened := ok.opened rfl
  have seen := ok.seen e rfl
  unfold Queue.fetch
  split
  · next ended =>
      refine owned_fail s _ w goal owned rfl rfl rfl empty (fun i _ => opened) ?_
      rintro rfl
      exact absurd ended seen.2
  · split
    · next swapped =>
        cases e with
        | closed => exact absurd rfl seen.2
        | blocked => exact absurd rfl seen.1
        | empty =>
            refine owned_fail s _ w goal owned rfl rfl rfl empty ?_ ?_
            · rintro i rfl
              simp [Goal.endPtr, Queue.goTo, Stack.Open]
            · rintro rfl
              simp [Goal.endPtr, Queue.goTo, Stack.Open]
        | top elem =>
            refine ⟨_, reader_goes_on s _ w _ owned rfl rfl rfl ⟨by simp, ?_, ?_, by simp [Reader.dry], by simp [Reader.seen]⟩⟩
            · cases goal <;> simp [Reader.shut, Queue.goTo, Goal.endPtr]
            · cases goal <;> simp [Reader.shut, Queue.goTo, Goal.endPtr, Stack.Open]
    · refine ⟨_, reader_goes_on s _ w _ owned rfl rfl rfl
        ⟨by simp, by simp [Reader.shut], fun _ => opened, fun _ => empty, ?_⟩⟩
      rintro e' ⟨⟩
      exact opened

theorem owned_read [DecidableEq P] (w : W) (weak exits : Bool) (kept : List P) (owned : Owned s token)
    (taken : s.read maxThroughput w weak exits kept = some after) : ∃ next, Owned after next := by
  unfold Queue.read at taken
  split at taken
  · cases taken
  · next pc =>
      obtain ⟨rfl, ok⟩ := reader_at s token w _ owned pc (by simp)
      cases taken
      refine ⟨_, reader_goes_on s _ w _ owned rfl rfl rfl ?_⟩
      cases exits <;> exact open_reader _ _ (by simp) rfl rfl rfl (ok.opened rfl)
  · next i pc =>
      obtain ⟨rfl, ok⟩ := reader_at s token w _ owned pc (by simp)
      have opened := ok.opened rfl
      split at taken
      · split at taken
        · next empty =>
            cases taken
            exact ⟨_, reader_goes_on s _ w _ owned rfl rfl rfl
              ⟨by simp, by simp [Reader.shut], fun _ => opened, fun _ => empty, by rintro e ⟨⟩; exact opened⟩⟩
        · exact ⟨_, owned_take_head s after w i owned opened taken⟩
      · split at taken
        · next empty =>
            cases taken
            exact ⟨_, reader_goes_on s _ w _ owned rfl rfl rfl
              (dry_reader _ _ (by simp) rfl empty rfl opened)⟩
        · cases taken
          exact ⟨_, owned_resume_later s w owned opened⟩
  · next goal e pc =>
      obtain ⟨rfl, _⟩ := reader_at s token w _ owned pc (by simp)
      cases taken
      exact owned_fetch s w goal e weak owned pc
  · next goal e pc =>
      obtain ⟨rfl, ok⟩ := reader_at s token w _ owned pc (by simp)
      cases e with
      | some elem =>
          cases taken
          refine ⟨_, reader_goes_on s _ w _ owned rfl rfl rfl ⟨by simp, ?_, ?_, by simp [Reader.dry], by simp [Reader.seen]⟩⟩
          · cases goal with
            | pop i => simp [Reader.shut]
            | close => exact fun _ => ok.shut rfl
          · cases goal with
            | pop i => exact fun _ => ok.opened rfl
            | close => simp [Reader.shut]
      | none =>
          cases goal with
          | pop i => exact ⟨_, owned_take_head s after w i owned (ok.opened rfl) taken⟩
          | close =>
              cases taken
              exact ⟨_, reader_goes_on s _ w _ owned rfl rfl rfl
                ⟨by simp, fun _ => ok.shut rfl, by simp [Reader.shut], by simp [Reader.dry], by simp [Reader.seen]⟩⟩
  · next i elem pc =>
      obtain ⟨rfl, ok⟩ := reader_at s token w _ owned pc (by simp)
      split at taken
      · cases taken
        refine ⟨_, reader_goes_on s _ w _ owned rfl rfl rfl ?_⟩
        cases exits <;> exact open_reader _ _ (by simp) rfl rfl rfl (ok.opened rfl)
      · cases taken
  · next i pc =>
      obtain ⟨rfl, ok⟩ := reader_at s token w _ owned pc (by simp)
      cases taken
      refine owned_try_block s w _ owned (ok.dry rfl) ⟨_, reader_goes_on s _ w _ owned rfl rfl rfl ?_⟩
      exact open_reader _ _ (by simp) rfl rfl rfl (ok.opened rfl)
  · next e pc =>
      obtain ⟨rfl, ok⟩ := reader_at s token w _ owned pc (by simp)
      split at taken
      · cases taken
        exact ⟨_, reader_goes_on s _ w _ owned rfl rfl rfl
          (dry_reader _ _ (by simp) rfl (ok.dry rfl) rfl (ok.opened rfl))⟩
      · cases taken
        exact ⟨_, owned_resume_later s w owned (ok.opened rfl)⟩
  · next pc =>
      obtain ⟨rfl, ok⟩ := reader_at s token w _ owned pc (by simp)
      cases taken
      exact owned_try_block s w _ owned (ok.dry rfl) ⟨_, owned_resume_later s w owned (ok.opened rfl)⟩
  · next last pc =>
      obtain ⟨rfl, ok⟩ := reader_at s token w _ owned pc (by simp)
      cases taken
      unfold Queue.clear
      split
      · refine ⟨_, reader_goes_on s _ w (.clearing last) owned rfl rfl ?_ ⟨by simp, ?_, ?_, by simp [Reader.dry], by simp [Reader.seen]⟩⟩
        · rw [← pc]
          exact (Function.update_eq_self w s.readers).symm
        · exact ok.shut
        · exact ok.opened
      · next empty =>
          cases last with
          | true =>
              have closed := ok.shut rfl
              exact ⟨.free, reader_leaves s _ w .free owned (.inl rfl) (owned.jobs.trans (by simp)) rfl rfl
                (fun _ => ⟨empty, by simp [Stack.Open, Queue.goTo, closed]⟩) (by simp)⟩
          | false =>
              exact ⟨_, reader_goes_on s _ w _ owned rfl rfl rfl
                ⟨by simp, by simp [Reader.shut], fun _ => ok.opened rfl, fun _ => empty, by
                  rintro e ⟨⟩
                  exact ok.opened rfl⟩⟩

theorem owned_step [DecidableEq P] (label : Label T W P M) (owned : Owned s token)
    (taken : s.step maxThroughput label = some after) : ∃ next, Owned after next := by
  cases label with
  | send t elem msg => exact ⟨token, owned_send s after token t elem msg owned taken⟩
  | sender t => exact owned_enqueue s after token t owned taken
  | resume w => exact ⟨_, owned_resume s after token w owned taken⟩
  | reader w weak exits kept => exact owned_read maxThroughput s after token w weak exits kept owned taken

end Token

theorem launched_owned [DecidableEq T] [DecidableEq W] : Owned (launched : Queue T W P M) .queue :=
  ⟨rfl, fun _ _ => rfl, by simp, by simp [launched], by simp [launched], by simp, fun _ => by simp [launched, Stack.Open]⟩

theorem owned_run [DecidableEq T] [DecidableEq W] [DecidableEq P]
    (s : Queue T W P M) (reached : (mailboxLts maxThroughput).Reach Lts.anyStep s) :
    ∃ token, Owned s token := by
  refine (mailboxLts maxThroughput).reach_invariant Lts.anyStep (fun s => ∃ token, Owned s token)
    ⟨.queue, launched_owned⟩ ?_ s reached
  rintro s label after _ ⟨token, owned⟩ _ taken
  exact owned_step maxThroughput s after token label owned taken

end VsLab.Mailbox
