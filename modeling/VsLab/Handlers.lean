import VsLab.System

set_option autoImplicit false

namespace VsLab

open Actors

section Handlers

variable (good : Mail → Prop) (fine : Address → ActorState → Prop) (self : Address) (tag : Nat)

theorem send_to_sound (server : Option Group) (msg : Msg)
    (sends : ∀ grp, server = some grp → good ⟨self, some grp, tag, msg⟩) :
    ∀ effect ∈ sendTo server msg, Effect.Fine good fine self tag effect := by
  cases server with
  | none => simp [sendTo]
  | some grp => simpa [sendTo, Effect.Fine] using sends grp rfl

theorem prints_sound (count : Nat) (out : Output) :
    ∀ effect ∈ List.replicate count (.print out : Doing), Effect.Fine good fine self tag effect := by
  intro effect member
  rw [List.eq_of_mem_replicate member]
  exact trivial

theorem entries_sound (count : Nat) (p : Int512) (rest : List Doing)
    (others : ∀ effect ∈ rest, Effect.Fine good fine self tag effect) :
    ∀ effect ∈ List.replicate count (.print (.entry p)) ++ rest, Effect.Fine good fine self tag effect := by
  intro effect member
  rcases List.mem_append.mp member with entry | other
  · exact prints_sound good fine self tag count _ effect entry
  · exact others effect other

theorem manager_start_sound (st : ManagerState) (draw : Draw) (workers : good ⟨self, none, tag, .sWorkers⟩)
    (joined : fine self (.manager { st with server := some .server })) :
    (Manager.start st draw).Sound good fine self tag := by
  unfold Manager.start
  split
  · exact ⟨by simp [Effect.Fine], trivial⟩
  · next newServ answered =>
      cases remote_group_server draw _ newServ answered
      exact ⟨by simpa [Effect.Fine] using workers, joined⟩

theorem manager_react_sound (st : ManagerState) (msg : Msg)
    (pong : ∀ grp, st.server = some grp → good ⟨self, some grp, tag, .pong⟩)
    (suicide : good ⟨self, some (Manager.wkrGrp st), tag, .suicide⟩)
    (up : Manager.isResult msg = true → ∀ grp, st.server = some grp → good ⟨self, some grp, tag, msg⟩)
    (down : ∀ n, msg = .calculate n → good ⟨self, some (Manager.wkrGrp st), tag, msg⟩)
    (child : ∀ index, fine (.worker st.process index) (.worker ⟨Manager.wkrGrp st, 0⟩))
    (own : ∀ count, fine self (.manager { st with children := count })) :
    (Manager.react st msg).Sound good fine self tag := by
  have turn := Manager.react_turn st msg
  generalize Manager.react st msg = r at turn ⊢
  cases turn with
  | ignored _ => exact ⟨by simp, own st.children⟩
  | ponged => exact ⟨send_to_sound good fine self tag st.server _ pong, own st.children⟩
  | spawned =>
      refine ⟨?_, own _⟩
      intro effect member
      obtain ⟨index, _, same⟩ := List.mem_map.mp member
      rw [← same]
      exact child _
  | killed =>
      refine ⟨?_, own st.children⟩
      intro effect member
      rw [List.eq_of_mem_replicate member]
      exact suicide
  | up _ isResult => exact ⟨send_to_sound good fine self tag st.server _ (up isResult), own st.children⟩
  | down n => exact ⟨by simpa [Effect.Fine] using down n rfl, own st.children⟩
  | quit => exact ⟨by simp, trivial⟩

theorem client_start_sound (st : ClientState) (draw : Draw) (asks : good ⟨self, some .server, tag, .calculate st.n⟩)
    (joined : fine self (.client { st with server := some .server })) :
    (Client.start st draw).Sound good fine self tag := by
  unfold Client.start
  split
  · exact ⟨by simp, trivial⟩
  · next newServ answered =>
      cases remote_group_server draw _ newServ answered
      exact ⟨by simpa [Effect.Fine] using asks, joined⟩

variable [Divider] [LawfulDivider]

theorem client_react_sound (st : ClientState) (draw : Draw) (msg : Msg)
    (big : ∀ p cycles cpuTime, msg = .factor p cycles cpuTime → 2 ≤ p.val)
    (ping : ∀ grp, st.server = some grp → good ⟨self, some grp, tag, .ping⟩)
    (own : ∀ cpuTime, fine self (.client { st with cpuTime := cpuTime }))
    (asks : ∀ p cycles cpuTime m k c, msg = .factor p cycles cpuTime → st.n.val ≠ 0 → Client.Leaves st.n p m k c →
      ¬ Client.Stops p m k c →
      (∀ grp, st.server = some grp → good ⟨self, some grp, tag, .calculate m⟩) ∧
        ∀ total ticks, fine self (.client { st with n := m, cycles := total, cpuTime := ticks })) :
    (Client.react st draw msg).Sound good fine self tag := by
  have turn := Client.react_turn st draw msg
  generalize Client.react st draw msg = r at turn ⊢
  cases turn with
  | ignored _ other => exact ⟨by simp, own st.cpuTime⟩
  | left => exact ⟨by simp, trivial⟩
  | pinged => exact ⟨send_to_sound good fine self tag st.server _ ping, own st.cpuTime⟩
  | waited cpuTime => exact ⟨by simp, own _⟩
  | divided p cycles cpuTime =>
      have large := big p cycles cpuTime rfl
      by_cases zero : st.n.val = 0
      · rw [Client.factor_zero st draw p cycles cpuTime large zero]
        exact ⟨by simp [Effect.Fine], trivial⟩
      · obtain ⟨m, k, c, _, leaves, ⟨_, same⟩ | ⟨goesOn, same⟩⟩ :=
          Client.factor_ends st draw p cycles cpuTime large zero
        · rw [same]
          exact ⟨entries_sound good fine self tag _ p _ (by simp [Effect.Fine]), own st.cpuTime⟩
        · obtain ⟨sends, installs⟩ := asks p cycles cpuTime m k c rfl zero leaves goesOn
          rw [same]
          exact ⟨entries_sound good fine self tag _ p _ (send_to_sound good fine self tag st.server _ sends),
            installs _ _⟩

end Handlers

end VsLab
