import VsLab.WorkerEpoch

set_option autoImplicit false

namespace VsLab

open Actors

def WorkerNode (node : Box) : Prop :=
  ∀ state, node.status = .spawned state ∨ node.status = .running state → ∃ st, state = .worker st

theorem settle_worker (actor : Address) (tag : Nat) (st : WorkerState) (draw : Draw) (msg : Msg) (mailbox : List Mail)
    (history : List Past) : WorkerNode (Node.settle actor tag (Worker.react st draw msg) mailbox history) := by
  have turn := Worker.react_turn st draw msg
  generalize Worker.react st draw msg = r at turn ⊢
  cases turn <;> simp [WorkerNode, Node.settle]

theorem worker_handles (actor : Address) (st : WorkerState) (draw : Draw) (tag : Nat) (env : Mail) (skipped behind : List Mail)
    (history : List Past) (rejected : ∀ other ∈ skipped, Worker.accepts other.msg = false)
    (accepted : Worker.accepts env.msg = true) :
    Node.handle behaviour actor draw tag ⟨.running (.worker st), skipped ++ env :: behind, history⟩ =
      some (Node.settle actor tag (Worker.react st draw env.msg) (skipped ++ behind)
        (.handled env (.worker st) draw tag :: history)) := by
  have first : (skipped ++ env :: behind).find? (fun other => Worker.accepts other.msg) = some env := by
    rw [List.find?_append, List.find?_eq_none.mpr (by simpa using rejected)]
    simp [accepted]
  have removed : (skipped ++ env :: behind).eraseP (fun other => Worker.accepts other.msg) = skipped ++ behind := by
    rw [List.eraseP_append_right _ (by simpa using rejected)]
    simp [accepted]
  simp [Node.handle, Node.next, behaviour, first, removed]

structure Takes (node : Box) (st : WorkerState) (env : Mail) (skipped behind : List Mail) : Prop where
  next : node.next behaviour = some (.worker st, env)
  status : node.status = .running (.worker st)
  accepted : Worker.accepts env.msg = true
  split : node.mailbox = skipped ++ env :: behind
  rejected : ∀ other ∈ skipped, Worker.accepts other.msg = false

namespace Takes

variable {node : Box} {st : WorkerState} {env : Mail} {skipped behind : List Mail}

theorem present (takes : Takes node st env skipped behind) : env ∈ node.mailbox := by simp [takes.split]

theorem kept (takes : Takes node st env skipped behind) : ∀ other ∈ skipped ++ behind, other ∈ node.mailbox := by
  intro other member
  rw [takes.split]
  exact rest_waiting skipped behind env other member

end Takes

theorem reach_worker (actor : Address) (grp : Group) (alone : Box → LocalLabel Address Group Msg Draw → Prop)
    (inv : Box → Prop) (initial : inv (Node.fresh (.worker ⟨grp, 0⟩)))
    (arrives : ∀ node env, inv node → alone node (.arrive env) → inv (node.arrive env))
    (starts : ∀ node st draw tag, inv node → node.status = .spawned (.worker st) →
      inv ⟨.running (.worker st), node.mailbox, .started (.worker st) draw tag :: node.history⟩)
    (handles : ∀ node st draw tag env skipped behind, (workerLts actor grp).Reach alone node → inv node →
      alone node (.handle draw tag) → Takes node st env skipped behind →
      inv (Node.settle actor tag (Worker.react st draw env.msg) (skipped ++ behind)
        (.handled env (.worker st) draw tag :: node.history)))
    (node : Box) (reached : (workerLts actor grp).Reach alone node) : inv node := by
  have both : WorkerNode node ∧ inv node := by
    refine (workerLts actor grp).reach_invariant alone (fun node => WorkerNode node ∧ inv node) ⟨?_, initial⟩ ?_ node reached
    · intro state status
      rcases status with same | same <;> cases same
      exact ⟨_, rfl⟩
    · intro before label after earlier holds allow taken
      obtain ⟨role, holds⟩ := holds
      rcases local_cases behaviour actor before after label taken with
        ⟨env, rfl, rfl⟩ | ⟨draw, tag, state, rfl, status, rfl⟩ |
        ⟨draw, tag, state, env, skipped, behind, rfl, next, status, accepted, split, rejected, rfl⟩
      · refine ⟨?_, arrives before env holds allow⟩
        intro state
        rw [Node.arrive_status]
        exact role state
      · obtain ⟨st, rfl⟩ := role state (.inl status)
        have running : Node.settle actor tag (behaviour.start actor (.worker st) draw) before.mailbox
            (.started (.worker st) draw tag :: before.history) =
              ⟨.running (.worker st), before.mailbox, .started (.worker st) draw tag :: before.history⟩ := by
          simp [behaviour, Node.settle, selfSends]
        rw [running]
        exact ⟨by simp [WorkerNode], starts before st draw tag holds status⟩
      · obtain ⟨st, rfl⟩ := role state (.inr status)
        exact ⟨settle_worker actor tag st draw env.msg _ _,
          handles before st draw tag env skipped behind earlier holds allow ⟨next, status, accepted, split, rejected⟩⟩
  exact both.2

end VsLab
