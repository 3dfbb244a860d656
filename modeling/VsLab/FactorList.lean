import VsLab.ClientRun
import Mathlib.Algebra.BigOperators.Group.List.Basic
import Mathlib.Tactic.Ring
import Mathlib.Tactic.Linarith

set_option autoImplicit false

namespace VsLab

open Actors

-- Handling a factor always inflates the product of the list with what is left:
-- by p if the client goes on, by every p it has just divided out if it reports.
theorem factor_entries (st : ClientState) (draw : Draw) (p cycles : Int512) (cpuTime : Clock)
    (big : 2 ≤ p.val) (positive : 0 < st.n.val) :
    ∃ later, (Client.factor st draw p cycles cpuTime).outcome = .become (.client later) ∧ 0 < later.n.val ∧
      2 * st.n.val ≤ (entriesOf (Client.factor st draw p cycles cpuTime).effects).prod * later.n.val := by
  obtain ⟨m, c, leaves, entries, ⟨_, _, _, outcome⟩ | ⟨_, _, _, outcome⟩⟩ :=
    client_divides st draw p cycles cpuTime big (by omega)
  · refine ⟨st, outcome, positive, ?_⟩
    have enough : 2 ≤ p.val ^ (divisions p st.n + 1) := le_trans big (le_self_pow₀ (by omega) (by omega))
    rw [entries, List.prod_replicate]
    exact mul_le_mul_of_nonneg_right enough positive.le
  · have left := Client.leaves_positive st.n p m _ c leaves big positive
    refine ⟨_, outcome, left, ?_⟩
    rw [entries, List.prod_replicate]
    calc 2 * st.n.val ≤ p.val * st.n.val := mul_le_mul_of_nonneg_right big positive.le
      _ ≤ p.val * (m.val * p.val ^ divisions p st.n) :=
        mul_le_mul_of_nonneg_left (Client.leaves_above st.n p m _ c leaves big positive) (by omega)
      _ = p.val ^ (divisions p st.n + 1) * m.val := by ring

def Ledger (typed : Int) (self : Address) (history : List Past) (n : Int) : Prop :=
  0 < n ∧ ((factorsHandled history = 0 ∧ (factorList self history).prod * n = typed) ∨
    (0 < factorsHandled history ∧ typed < (factorList self history).prod * n))

theorem ledger_quiet (typed : Int) (self : Address) (history : List Past) (event : Past) (n : Int)
    (ledger : Ledger typed self history n) (silent : entriesOf (event.effects behaviour self) = [])
    (other : Event.isHandled (fun env => isFactor env.msg) event = false) : Ledger typed self (event :: history) n := by
  simpa [Ledger, factorsHandled, factorList, silent, other] using ledger

theorem ledger_factor (typed : Int) (self : Address) (history : List Past) (event : Past) (n later : Int)
    (positive : 0 < typed) (ledger : Ledger typed self history n)
    (isFactor : Event.isHandled (fun env => isFactor env.msg) event = true) (left : 0 < later)
    (inflated : 2 * n ≤ (entriesOf (event.effects behaviour self)).prod * later) :
    Ledger typed self (event :: history) later := by
  have before : typed ≤ (factorList self history).prod * n := by
    rcases ledger.2 with ⟨_, same⟩ | ⟨_, more⟩
    · exact same.ge
    · exact more.le
  have listed : 0 < (factorList self history).prod := by
    by_contra nonpositive
    have : (factorList self history).prod * n ≤ 0 := mul_nonpos_of_nonpos_of_nonneg (by omega) ledger.1.le
    omega
  refine ⟨left, .inr ⟨by simp [factorsHandled, isFactor], ?_⟩⟩
  have product : (factorList self (event :: history)).prod =
      (entriesOf (event.effects behaviour self)).prod * (factorList self history).prod := by
    simp [factorList]
  rw [product]
  calc typed < (factorList self history).prod * (2 * n) := by linarith
    _ ≤ (factorList self history).prod * ((entriesOf (event.effects behaviour self)).prod * later) :=
      mul_le_mul_of_nonneg_left inflated listed.le
    _ = (entriesOf (event.effects behaviour self)).prod * (factorList self history).prod * later := by ring

def Balanced (typed : Int) (self : Address) (node : Box) : Prop :=
  node.status ≠ .absent ∧ ∀ n, remaining node = some n → Ledger typed self node.history n.val

theorem balanced_settle (typed : Int) (self : Address) (tag : Nat) (r : Step) (mailbox : List Mail)
    (history : List Past) (ledger : ∀ st, r.outcome = .become (.client st) → Ledger typed self history st.n.val) :
    Balanced typed self (Node.settle self tag r mailbox history) := by
  refine ⟨Node.settle_not_absent self tag r mailbox history, ?_⟩
  intro n left
  obtain ⟨st, outcome, rfl⟩ := settle_remaining self tag r mailbox history n left
  rw [Node.settle_history]
  exact ledger st outcome

theorem balanced_arrive (typed : Int) (self : Address) (node : Box) (env : Mail) (balanced : Balanced typed self node) :
    Balanced typed self (node.arrive env) := by
  refine ⟨by rw [Node.arrive_status]; exact balanced.1, ?_⟩
  intro n left
  have same : remaining (node.arrive env) = remaining node := by simp only [remaining, Node.arrive_status]
  have ledger := balanced.2 n (same ▸ left)
  unfold Node.arrive
  split
  · exact ledger
  · exact ledger
  · exact ledger_quiet typed self _ _ _ ledger rfl rfl

theorem balanced_start (typed : Int) (self : Address) (node : Box) (st : ClientState) (draw : Draw) (tag : Nat)
    (balanced : Balanced typed self node) (status : node.status = .spawned (.client st)) :
    Balanced typed self (Node.settle self tag (Client.start st draw) node.mailbox
      (.started (.client st) draw tag :: node.history)) := by
  have ledger := balanced.2 st.n (by simp [remaining, status])
  apply balanced_settle
  intro later becomes
  cases answer : remoteGroup draw (groupAddr st.host st.port) with
  | none => simp [Client.start, answer] at becomes
  | some newServ =>
      have same : later = { st with server := some newServ } := by simpa [Client.start, answer] using becomes.symm
      rw [same]
      refine ledger_quiet typed self _ _ _ ledger ?_ rfl
      simp [Event.effects, behaviour, Client.start, answer, entriesOf, printed]

theorem balanced_handle (typed : Int) (self : Address) (node : Box) (st : ClientState) (draw : Draw) (tag : Nat)
    (env : Mail) (mailbox : List Mail) (positive : 0 < typed) (balanced : Balanced typed self node)
    (status : node.status = .running (.client st))
    (big : ∀ p cycles cpuTime, env.msg = .factor p cycles cpuTime → 2 ≤ p.val) :
    Balanced typed self (Node.settle self tag (Client.react st draw env.msg) mailbox
      (.handled env (.client st) draw tag :: node.history)) := by
  have ledger := balanced.2 st.n (by simp [remaining, status])
  have effects : (Event.handled env (.client st) draw tag : Past).effects behaviour self =
      (Client.react st draw env.msg).effects := rfl
  apply balanced_settle
  intro later becomes
  cases asked : isFactor env.msg with
  | false =>
      obtain ⟨silent, _, _, keeps⟩ := client_quiet st draw env.msg asked
      rw [(keeps later becomes).1]
      exact ledger_quiet typed self _ _ _ ledger (effects ▸ silent) asked
  | true =>
      obtain ⟨p, cycles, cpuTime, isFactor⟩ := factor_shape env.msg asked
      obtain ⟨next, outcome, left, inflated⟩ :=
        factor_entries st draw p cycles cpuTime (big p cycles cpuTime isFactor) ledger.1
      rw [isFactor, Client.react] at becomes effects
      have same : later = next := by simpa using becomes.symm.trans outcome
      rw [same]
      exact ledger_factor typed self _ _ _ _ positive ledger asked left (effects ▸ inflated)

theorem balanced_run (args : ClientArgs) (managers : List ManagerArgs) (typed : 2 ≤ args.n.val) (net : Cluster)
    (reached : (system [args] managers).Reach Lts.anyStep net) :
    Balanced args.n.val (.client 0) (net.node (.client 0)) := by
  have alone := client_alone [args] managers Lts.anyStep 0 args rfl net reached
  refine reach_client (.client 0) args (Balanced args.n.val (.client 0)) ?_ ?_ ?_ ?_ _ alone
  · refine ⟨by simp [Node.fresh], ?_⟩
    intro n left
    have same : args.n = n := by simpa [Node.fresh, remaining, typedState] using left
    subst same
    exact ⟨by omega, .inl ⟨rfl, by simp [Node.fresh, factorList]⟩⟩
  · intro node env balanced
    exact balanced_arrive _ _ _ env balanced
  · intro node st draw tag balanced status
    exact balanced_start _ _ _ st draw tag balanced status
  · intro node st draw tag env mailbox balanced status big
    exact balanced_handle _ _ _ st draw tag env mailbox (by omega) balanced status big

theorem list_balanced_until_factor (args : ClientArgs) (managers : List ManagerArgs) (net : Cluster) (n : Int512)
    (typed : 2 ≤ args.n.val) (reached : (system [args] managers).Reach Lts.anyStep net)
    (left : remaining (net.node (.client 0)) = some n) :
    (factorList (.client 0) (net.node (.client 0)).history).prod * n.val = args.n.val ↔
      factorsHandled (net.node (.client 0)).history = 0 := by
  obtain ⟨_, ⟨none, balanced⟩ | ⟨some, inflated⟩⟩ := (balanced_run args managers typed net reached).2 n left
  · exact ⟨fun _ => none, fun _ => balanced⟩
  · exact ⟨fun same => by omega, fun none => by omega⟩

theorem list_balanced_before_eight : ∃ net : Cluster,
    2 ≤ (typing 8).n.val ∧ (system [typing 8] [offering 1]).Reach Lts.anyStep net ∧
      remaining (net.node (.client 0)) = some (Int512.ofNat 8) ∧
      (factorList (.client 0) (net.node (.client 0)).history).prod * (Int512.ofNat 8).val = (typing 8).n.val := by
  obtain ⟨net, reached, passed⟩ := (system [typing 8] [offering 1]).run_finds Lts.anyStep
    (requestToWorker ++ workerAnswers 1 7)
    (fun net => decide (remaining (net.node (.client 0)) = some (Int512.ofNat 8) ∧
      factorsHandled (net.node (.client 0)).history = 0)) (by decide +kernel)
  obtain ⟨left, none⟩ := of_decide_eq_true passed
  have typed : 2 ≤ (typing 8).n.val := by decide +kernel
  exact ⟨net, typed, reached, left, (list_balanced_until_factor (typing 8) [offering 1] net _ typed reached left).mpr none⟩

theorem list_unbalanced_at_eight : ∃ net : Cluster,
    2 ≤ (typing 8).n.val ∧ (system [typing 8] [offering 1]).Reach Lts.anyStep net ∧
      remaining (net.node (.client 0)) = some (Int512.ofNat 2) ∧
      factorList (.client 0) (net.node (.client 0)).history = [4, 4] ∧
      (factorList (.client 0) (net.node (.client 0)).history).prod * (Int512.ofNat 2).val ≠ (typing 8).n.val := by
  obtain ⟨net, reached, passed⟩ := (system [typing 8] [offering 1]).run_finds Lts.anyStep
    (requestToWorker ++ workerAnswers 1 7 ++ answerToClient)
    (fun net => decide (remaining (net.node (.client 0)) = some (Int512.ofNat 2) ∧
      factorList (.client 0) (net.node (.client 0)).history = [4, 4])) (by decide +kernel)
  obtain ⟨left, entries⟩ := of_decide_eq_true passed
  refine ⟨net, by decide +kernel, reached, left, entries, ?_⟩
  rw [entries]
  decide +kernel

end VsLab
