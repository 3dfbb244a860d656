import VsLab.ClientReport
import VsLab.Removal
import Mathlib.Data.List.Infix
import Mathlib.Data.Nat.Log

set_option autoImplicit false

namespace VsLab

open Actors

section Report

variable (actor : Address)

def Silent (event : Past) : Prop :=
  entriesOf (event.effects behaviour actor) = [] ∧ reportsOf (event.effects behaviour actor) = false ∧
    requestsOf (event.effects behaviour actor) = []

instance (event : Past) : Decidable (Silent actor event) := inferInstanceAs (Decidable (_ ∧ _))

theorem factor_prints (st : ClientState) (draw : Draw) (p cycles : Int512) (cpuTime : Clock) :
    p.val ∈ entriesOf (Client.factor st draw p cycles cpuTime).effects := by
  have once : entriesOf [.print (.entry p)] = [p.val] := rfl
  simp only [Client.factor]
  split
  · simp [once]
  · simp [once]
  · split
    · simp
    · split
      · simp
      · simp

def SpeaksOnFactor (history : List Past) : Prop :=
  ∀ event older, (event :: older) <:+ history → reported actor older = true →
    (Silent actor event ↔ handlesFactor event = false)

theorem speaks_cons (history : List Past) (event : Past) (before : SpeaksOnFactor actor history)
    (latest : reported actor history = true → (Silent actor event ↔ handlesFactor event = false)) :
    SpeaksOnFactor actor (event :: history) := by
  intro item older suffix after
  rcases List.suffix_cons_iff.mp suffix with same | earlier
  · cases same
    exact latest after
  · exact before item older earlier after

theorem handled_speaks (env : Mail) (st : ClientState) (draw : Draw) (tag : Nat) :
    Silent actor (.handled env (.client st) draw tag) ↔ handlesFactor (.handled env (.client st) draw tag) = false := by
  have effects : Event.effects behaviour actor (.handled env (.client st) draw tag) =
      (Client.react st draw env.msg).effects := rfl
  cases asked : isFactor env.msg with
  | false =>
      obtain ⟨entries, reports, requests, _⟩ := client_quiet st draw env.msg asked
      exact ⟨fun _ => asked, fun _ => ⟨effects ▸ entries, effects ▸ reports, effects ▸ requests⟩⟩
  | true =>
      obtain ⟨p, cycles, cpuTime, isFactor⟩ := factor_shape env.msg asked
      constructor
      · intro silent
        have printed := factor_prints st draw p cycles cpuTime
        rw [Silent, effects, isFactor, Client.react] at silent
        rw [silent.1] at printed
        cases printed
      · intro other
        exact absurd (asked.symm.trans other) (by simp)

theorem report_run (args : ClientArgs) (node : Box) (reached : (clientLts actor args).Reach FactorArrival node) :
    SpeaksOnFactor actor node.history ∧
      ∀ state, node.status = .spawned state → reported actor node.history = false := by
  refine reach_client actor args (fun node => SpeaksOnFactor actor node.history ∧
    ∀ state, node.status = .spawned state → reported actor node.history = false) ?_ ?_ ?_ ?_ node reached
  · refine ⟨?_, fun _ _ => rfl⟩
    intro event older suffix
    cases List.suffix_nil.mp suffix
  · intro node env holds
    rw [Node.arrive_status]
    unfold Node.arrive
    split
    · exact holds
    · exact holds
    · refine ⟨speaks_cons actor node.history (.arrived env) holds.1 (fun _ => ⟨fun _ => rfl, fun _ => ⟨rfl, rfl, rfl⟩⟩), ?_⟩
      intro state spawned
      exact holds.2 state spawned
  · intro node st draw tag holds status
    rw [Node.settle_history]
    refine ⟨speaks_cons actor node.history _ holds.1 ?_, ?_⟩
    · intro after
      rw [holds.2 _ status] at after
      cases after
    · intro state spawned
      exact absurd spawned (Node.settle_not_spawned actor tag _ _ _ state)
  · intro node st draw tag env mailbox holds status _
    rw [Node.settle_history]
    refine ⟨speaks_cons actor node.history _ holds.1 (fun _ => handled_speaks actor env st draw tag), ?_⟩
    intro state spawned
    exact absurd spawned (Node.settle_not_spawned actor tag _ _ _ state)

end Report

theorem report_final_iff (args : ClientArgs) (managers : List ManagerArgs) (net : Cluster)
    (reached : (system [args] managers).Reach Lts.anyStep net) :
    (∀ event older, (event :: older) <:+ (net.node (.client 0)).history → reported (.client 0) older = true →
      Silent (.client 0) event) ↔
    ∀ event older, (event :: older) <:+ (net.node (.client 0)).history → reported (.client 0) older = true →
      handlesFactor event = false := by
  have alone := client_alone [args] managers Lts.anyStep 0 args rfl net reached
  have speaks := (report_run (.client 0) args _ alone).1
  constructor
  · intro final event older suffix after
    exact (speaks event older suffix after).mp (final event older suffix after)
  · intro quiet event older suffix after
    exact (speaks event older suffix after).mpr (quiet event older suffix after)

def echoAfterReport : List Move :=
  requestToWorker ++ workerAnswers 0 0 ++ answerToClient ++ [.handle (.manager 0) (drawing 0), .dispatch 1, .arrive 0]

theorem report_final_fifteen : ∃ net : Cluster,
    (system [typing 15] [offering 1]).Reach Lts.anyStep net ∧ reported (.client 0) (net.node (.client 0)).history = true ∧
      ∀ event older, (event :: older) <:+ (net.node (.client 0)).history → reported (.client 0) older = true →
        Silent (.client 0) event := by
  obtain ⟨net, reached, passed⟩ := (system [typing 15] [offering 1]).run_finds Lts.anyStep echoAfterReport
    (fun net => decide (reported (.client 0) (net.node (.client 0)).history = true ∧
      ∀ tail ∈ (net.node (.client 0)).history.tails, ∀ event ∈ tail.head?,
        reported (.client 0) tail.tail = true → handlesFactor event = false)) (by decide +kernel)
  obtain ⟨reports, quiet⟩ := of_decide_eq_true passed
  refine ⟨net, reached, reports, (report_final_iff (typing 15) [offering 1] net reached).mpr ?_⟩
  intro event older suffix after
  exact quiet (event :: older) ((List.mem_tails _ _).mpr suffix) event rfl after

theorem report_not_final : ∃ (net : Cluster) (event : Past) (older : List Past),
    (system [typing 15] [offering 1]).Reach Lts.anyStep net ∧ (event :: older) <:+ (net.node (.client 0)).history ∧
      reported (.client 0) older = true ∧ entriesOf (event.effects behaviour (.client 0)) = [3, 3] ∧
      reportsOf (event.effects behaviour (.client 0)) = true ∧ ¬ Silent (.client 0) event := by
  obtain ⟨net, reached, passed⟩ := (system [typing 15] [offering 1]).run_finds Lts.anyStep
    (echoAfterReport ++ [.handle (.client 0) (drawing 0)])
    (fun net => decide (∃ tail ∈ (net.node (.client 0)).history.tails, ∃ event ∈ tail.head?,
      reported (.client 0) tail.tail = true ∧ entriesOf (event.effects behaviour (.client 0)) = [3, 3] ∧
      reportsOf (event.effects behaviour (.client 0)) = true)) (by decide +kernel)
  obtain ⟨tail, member, event, first, after, entries, reports⟩ := of_decide_eq_true passed
  obtain ⟨older, rfl⟩ := List.head?_eq_some_iff.mp first
  refine ⟨net, event, older, reached, (List.mem_tails _ _).mp member, after, entries, reports, ?_⟩
  intro silent
  rw [silent.1] at entries
  cases entries

section Progress

def Progress : Past → Prop
  | .handled env (.client st) _ _ =>
      ∀ p ∈ factorOf env.msg, p.val ∣ st.n.val ∨ (p.val < st.n.val ∧ st.n.val < 2 * p.val)
  | _ => True

def DivisionFits : Past → Prop
  | .handled env (.client st) _ _ => ∀ p ∈ factorOf env.msg, ¬ Spills st.n p
  | _ => True

def StaleSilent : Past → Prop
  | .handled env (.client st) draw _ =>
      ∀ p ∈ factorOf env.msg, ¬ p.val ∣ st.n.val → requestsOf (Client.react st draw env.msg).effects = []
  | _ => True

instance : DecidablePred Progress
  | .handled env (.client st) _ _ =>
      inferInstanceAs (Decidable (∀ p ∈ factorOf env.msg, p.val ∣ st.n.val ∨ (p.val < st.n.val ∧ st.n.val < 2 * p.val)))
  | .handled _ (.manager _) _ _ => .isTrue trivial
  | .handled _ (.worker _) _ _ => .isTrue trivial
  | .started .. => .isTrue trivial
  | .arrived _ => .isTrue trivial

instance : DecidablePred DivisionFits
  | .handled env (.client st) _ _ => inferInstanceAs (Decidable (∀ p ∈ factorOf env.msg, ¬ Spills st.n p))
  | .handled _ (.manager _) _ _ => .isTrue trivial
  | .handled _ (.worker _) _ _ => .isTrue trivial
  | .started .. => .isTrue trivial
  | .arrived _ => .isTrue trivial

instance : DecidablePred StaleSilent
  | .handled env (.client st) draw _ =>
      inferInstanceAs (Decidable (∀ p ∈ factorOf env.msg, ¬ p.val ∣ st.n.val →
        requestsOf (Client.react st draw env.msg).effects = []))
  | .handled _ (.manager _) _ _ => .isTrue trivial
  | .handled _ (.worker _) _ _ => .isTrue trivial
  | .started .. => .isTrue trivial
  | .arrived _ => .isTrue trivial

def requestLog (actor : Address) (history : List Past) : List Int :=
  (requestsIn actor history).reverse.map fun request => request.val

variable (actor : Address) (typed : Int)

structure Halving (requests : List Int512) : Prop where
  falls : requests.Pairwise fun later earlier => later.val < earlier.val
  bound : ∀ newest older, requests = newest :: older → 0 < newest.val ∧ 2 ^ older.length * newest.val ≤ typed

def LogKept (history : List Past) : Prop :=
  ((∀ event ∈ history, Progress event ∧ StaleSilent event) ∧ Halving typed (requestsIn actor history)) ∨
    ((∃ event ∈ history, ¬ Progress event) ∧
      ¬ (requestsIn actor history).Pairwise fun later earlier => later.val < earlier.val)

theorem requests_in_cons (event : Past) (history : List Past) :
    requestsIn actor (event :: history) = requestsOf (event.effects behaviour actor) ++ requestsIn actor history := rfl

theorem log_quiet (history : List Past) (event : Past) (kept : LogKept actor typed history)
    (progress : Progress event) (stale : StaleSilent event)
    (silent : requestsOf (event.effects behaviour actor) = []) : LogKept actor typed (event :: history) := by
  rw [LogKept, requests_in_cons, silent, List.nil_append]
  rcases kept with ⟨events, halving⟩ | ⟨⟨bad, member, isBad⟩, broken⟩
  · refine .inl ⟨?_, halving⟩
    intro item member
    rcases List.mem_cons.mp member with rfl | earlier
    · exact ⟨progress, stale⟩
    · exact events item earlier
  · exact .inr ⟨⟨bad, List.mem_cons_of_mem _ member, isBad⟩, broken⟩

theorem log_halved (history : List Past) (event : Past) (n m : Int512) (older : List Int512)
    (kept : LogKept actor typed history) (progress : Progress event) (stale : StaleSilent event)
    (last : requestsIn actor history = n :: older) (asks : requestsOf (event.effects behaviour actor) = [m])
    (positive : 0 < m.val) (half : 2 * m.val ≤ n.val) : LogKept actor typed (event :: history) := by
  rw [LogKept, requests_in_cons, asks, List.singleton_append]
  rcases kept with ⟨events, halving⟩ | ⟨⟨bad, member, isBad⟩, broken⟩
  · refine .inl ⟨?_, ?_, ?_⟩
    · intro item member
      rcases List.mem_cons.mp member with rfl | earlier
      · exact ⟨progress, stale⟩
      · exact events item earlier
    · refine List.pairwise_cons.mpr ⟨?_, halving.falls⟩
      intro earlier member
      rw [last] at member
      rcases List.mem_cons.mp member with rfl | before
      · omega
      · have falls := halving.falls
        rw [last] at falls
        have := (List.pairwise_cons.mp falls).1 earlier before
        omega
    · intro newest rest split
      obtain ⟨rfl, rfl⟩ := List.cons.inj split
      refine ⟨positive, ?_⟩
      have bound := (halving.bound n older last).2
      rw [last, List.length_cons, pow_succ]
      calc 2 ^ older.length * 2 * m.val = 2 ^ older.length * (2 * m.val) := by ring
        _ ≤ 2 ^ older.length * n.val := mul_le_mul_of_nonneg_left half (by positivity)
        _ ≤ typed := bound
  · refine .inr ⟨⟨bad, List.mem_cons_of_mem _ member, isBad⟩, ?_⟩
    exact fun falls => broken (List.pairwise_cons.mp falls).2

theorem log_repeated (history : List Past) (event : Past) (n : Int512) (older : List Int512) (bad : ¬ Progress event)
    (last : requestsIn actor history = n :: older) (asks : requestsOf (event.effects behaviour actor) = [n]) :
    LogKept actor typed (event :: history) := by
  rw [LogKept, requests_in_cons, asks, List.singleton_append, last]
  refine .inr ⟨⟨event, List.mem_cons_self, bad⟩, ?_⟩
  intro falls
  have := (List.pairwise_cons.mp falls).1 n List.mem_cons_self
  omega

structure Asking (node : Box) : Prop where
  log : (∀ event ∈ node.history, DivisionFits event) → LogKept actor typed node.history
  waiting : ∀ st, node.status = .spawned (.client st) → requestsIn actor node.history = [] ∧ st.n.val = typed
  current : ∀ st, node.status = .running (.client st) →
    st.server = some .server ∧ 0 < st.n.val ∧ ∃ older, requestsIn actor node.history = st.n :: older

theorem asking_settle (tag : Nat) (r : Step) (mailbox : List Mail) (history : List Past)
    (log : (∀ event ∈ history, DivisionFits event) → LogKept actor typed history)
    (current : ∀ st, r.outcome = .become (.client st) →
      st.server = some .server ∧ 0 < st.n.val ∧ ∃ older, requestsIn actor history = st.n :: older) :
    Asking actor typed (Node.settle actor tag r mailbox history) := by
  refine ⟨by rwa [Node.settle_history], ?_, ?_⟩
  · intro st spawned
    exact absurd spawned (Node.settle_not_spawned actor tag r mailbox history _)
  · intro st running
    rw [Node.settle_history]
    cases outcome : r.outcome with
    | become state =>
        have same : state = .client st := by simpa [Node.settle, outcome] using running
        exact current st (by rw [outcome, same])
    | quit => simp [Node.settle, outcome] at running
    | raise => simp [Node.settle, outcome] at running
    | hang => simp [Node.settle, outcome] at running

theorem exact_left (n p m : Int512) (k c : Nat) (leaves : Client.Leaves n p m k c) (big : 2 ≤ p.val)
    (positive : 0 < n.val) (exact : DividedAs n p 0) :
    ¬ p.val ∣ m.val ∧ (m = n ∨ (p.val ∣ n.val ∧ 2 * m.val ≤ n.val)) := by
  obtain ⟨power, maximal⟩ := Client.leaves_exact n p m k c leaves (by omega) exact
  refine ⟨maximal, ?_⟩
  by_cases untouched : k = 0
  · exact .inl (leaves.kept untouched).1
  · have twice : 2 ≤ p.val ^ k := le_trans big (le_self_pow₀ (by omega) untouched)
    have scaled := mul_le_mul_of_nonneg_left twice (Client.leaves_positive n p m k c leaves big positive).le
    rw [← power] at scaled
    exact .inr ⟨power ▸ Dvd.dvd.mul_left (dvd_pow_self p.val untouched) m.val, by omega⟩

-- A client that asks for the same number again has been sent a stale factor.
theorem asking_factor (node : Box) (st : ClientState) (draw : Draw) (tag : Nat) (env : Mail) (mailbox : List Mail)
    (p cycles : Int512) (cpuTime : Clock) (asking : Asking actor typed node)
    (status : node.status = .running (.client st)) (isFactor : env.msg = .factor p cycles cpuTime) (big : 2 ≤ p.val) :
    Asking actor typed (Node.settle actor tag (Client.react st draw env.msg) mailbox
      (.handled env (.client st) draw tag :: node.history)) := by
  obtain ⟨connected, positive, older, last⟩ := asking.current st status
  have effects : Event.effects behaviour actor (.handled env (.client st) draw tag) =
      (Client.factor st draw p cycles cpuTime).effects := by
    change (Client.react st draw env.msg).effects = _
    rw [isFactor, Client.react]
  have only : ∀ q ∈ factorOf env.msg, q = p := by
    intro q found
    rw [isFactor] at found
    exact (Option.some.inj found).symm
  obtain ⟨m, c, leaves, _, ways⟩ := client_divides st draw p cycles cpuTime big positive.ne'
  have left := Client.leaves_positive st.n p m _ c leaves big positive
  have fitting : DivisionFits (.handled env (.client st) draw tag) → DividedAs st.n p 0 := fun fits =>
    unspilled_exact st.n p (by omega) (fits p (by rw [isFactor]; rfl))
  rcases ways with ⟨⟨one, _⟩, _, none, outcome⟩ | ⟨goesOn, _, asks, outcome⟩
  · refine asking_settle actor typed tag _ mailbox _ ?_ ?_
    · intro fits
      obtain ⟨now, before⟩ := List.forall_mem_cons.mp fits
      obtain ⟨maximal, result⟩ := exact_left st.n p m _ c leaves big positive (fitting now)
      have between := (quotient_one_iff m.val p.val left big maximal).mp one
      have progress : p.val ∣ st.n.val ∨ (p.val < st.n.val ∧ st.n.val < 2 * p.val) := by
        rcases result with rfl | ⟨divides, _⟩
        · exact .inr between
        · exact .inl divides
      refine log_quiet actor typed _ _ (asking.log before) (fun q found => only q found ▸ progress) ?_ (by rw [effects, none])
      intro q _ _
      rw [isFactor, Client.react, none]
    · intro later becomes
      rw [isFactor, Client.react, outcome] at becomes
      cases becomes
      exact ⟨connected, positive, older, by rw [requests_in_cons, effects, none, List.nil_append, last]⟩
  · rw [connected] at asks
    refine asking_settle actor typed tag _ mailbox _ ?_ ?_
    · intro fits
      obtain ⟨now, before⟩ := List.forall_mem_cons.mp fits
      have exact := fitting now
      obtain ⟨maximal, same | ⟨divides, half⟩⟩ := exact_left st.n p m _ c leaves big positive exact
      · refine log_repeated actor typed _ _ st.n older ?_ last (by rw [effects, asks, same]; rfl)
        intro progress
        rcases progress p (by rw [isFactor]; rfl) with divisible | inside
        · exact maximal (same ▸ divisible)
        · have one := (quotient_one_iff m.val p.val left big maximal).mpr (same ▸ inside)
          exact goesOn ⟨one, .inr (exact_unique st.n p c (by omega) exact leaves.divided)⟩
      · refine log_halved actor typed _ _ st.n m older (asking.log before) (fun q found => only q found ▸ .inl divides) ?_
          last (by rw [effects, asks]; rfl) left half
        intro q found stale
        exact absurd divides (only q found ▸ stale)
    · intro later becomes
      rw [isFactor, Client.react, outcome] at becomes
      cases becomes
      exact ⟨connected, left, _, by rw [requests_in_cons, effects, asks]; rfl⟩

theorem asking_start (node : Box) (st : ClientState) (draw : Draw) (tag : Nat) (asking : Asking actor typed node)
    (positive : 0 < typed) (status : node.status = .spawned (.client st)) :
    Asking actor typed (Node.settle actor tag (Client.start st draw) node.mailbox
      (.started (.client st) draw tag :: node.history)) := by
  obtain ⟨none, own⟩ := asking.waiting st status
  have effects : Event.effects behaviour actor (.started (.client st) draw tag) = (Client.start st draw).effects := rfl
  have events : (∀ event ∈ .started (.client st) draw tag :: node.history, DivisionFits event) →
      ∀ event ∈ .started (.client st) draw tag :: node.history, Progress event ∧ StaleSilent event := by
    intro fits
    have fresh : ∀ event ∈ node.history, Progress event ∧ StaleSilent event := by
      rcases asking.log (List.forall_mem_cons.mp fits).2 with ⟨events, _⟩ | ⟨_, broken⟩
      · exact events
      · rw [none] at broken
        exact absurd List.Pairwise.nil broken
    exact List.forall_mem_cons.mpr ⟨⟨trivial, trivial⟩, fresh⟩
  cases answer : remoteGroup draw (groupAddr st.host st.port) with
  | none =>
      have quits : Client.start st draw = ⟨[], .quit⟩ := by simp only [Client.start, answer]
      refine asking_settle actor typed tag _ _ _ (fun fits => .inl ⟨events fits, ?_⟩)
        (fun later becomes => by rw [quits] at becomes; cases becomes)
      rw [requests_in_cons, effects, quits, none]
      exact ⟨List.Pairwise.nil, fun _ _ split => by cases split⟩
  | some newServ =>
      cases remote_group_server draw _ newServ answer
      have connects : Client.start st draw = ⟨[.join .server, .publish .server (.calculate st.n)],
          .become (.client { st with server := some .server })⟩ := by simp only [Client.start, answer]
      have asks : requestsIn actor (.started (.client st) draw tag :: node.history) = [st.n] := by
        rw [requests_in_cons, effects, connects, none]
        rfl
      refine asking_settle actor typed tag _ _ _ (fun fits => .inl ⟨events fits, ?_⟩) ?_
      · rw [asks]
        refine ⟨List.pairwise_singleton _ _, ?_⟩
        intro newest older split
        obtain ⟨rfl, rfl⟩ := List.cons.inj split
        exact ⟨by omega, by simp [own]⟩
      · intro later becomes
        rw [connects] at becomes
        cases becomes
        exact ⟨rfl, by simp only; omega, [], asks⟩

theorem asking_run (args : ClientArgs) (positive : 0 < args.n.val) (node : Box)
    (reached : (clientLts actor args).Reach FactorArrival node) : Asking actor args.n.val node := by
  refine reach_client actor args (Asking actor args.n.val) ?_ ?_ ?_ ?_ node reached
  · refine ⟨fun _ => .inl ⟨by simp [Node.fresh], List.Pairwise.nil, fun _ _ split => by cases split⟩, ?_, ?_⟩
    · intro st spawned
      cases spawned
      exact ⟨rfl, rfl⟩
    · intro st running
      cases running
  · intro node env asking
    have quiet (fits : ∀ event ∈ .arrived env :: node.history, DivisionFits event) :=
      log_quiet actor args.n.val node.history (.arrived env) (asking.log (List.forall_mem_cons.mp fits).2) trivial trivial rfl
    have same : requestsIn actor (.arrived env :: node.history) = requestsIn actor node.history := rfl
    unfold Node.arrive
    split
    · exact asking
    · exact asking
    · exact ⟨quiet, fun st spawned => asking.waiting st spawned, fun st running => asking.current st running⟩
  · intro node st draw tag asking status
    exact asking_start actor args.n.val node st draw tag asking positive status
  · intro node st draw tag env mailbox asking status big
    cases asked : isFactor env.msg with
    | true =>
        obtain ⟨p, cycles, cpuTime, isFactor⟩ := factor_shape env.msg asked
        exact asking_factor actor args.n.val node st draw tag env mailbox p cycles cpuTime asking status isFactor
          (big p cycles cpuTime isFactor)
    | false =>
        obtain ⟨_, _, none, keeps⟩ := client_quiet st draw env.msg asked
        have noFactor : factorOf env.msg = .none := by cases same : env.msg <;> simp [same, isFactor, factorOf] at asked ⊢
        refine asking_settle actor args.n.val tag _ mailbox _ (fun fits =>
          log_quiet actor args.n.val _ _ (asking.log (List.forall_mem_cons.mp fits).2) ?_ ?_ none) ?_
        · intro p found
          rw [noFactor] at found
          cases found
        · intro p found
          rw [noFactor] at found
          cases found
        · intro later becomes
          obtain ⟨sameN, sameServer, _⟩ := keeps later becomes
          obtain ⟨connected, left, older, last⟩ := asking.current st status
          refine ⟨sameServer.trans connected, sameN ▸ left, older, ?_⟩
          rw [sameN, requests_in_cons, ← last]
          exact congrArg (· ++ requestsIn actor node.history) none

end Progress

theorem requests_fall_iff (args : ClientArgs) (managers : List ManagerArgs) (net : Cluster) (typed : 2 ≤ args.n.val)
    (reached : (system [args] managers).Reach Lts.anyStep net)
    (fits : ∀ event ∈ (net.node (.client 0)).history, DivisionFits event) :
    ((requestLog (.client 0) (net.node (.client 0)).history).Pairwise (fun earlier later => later < earlier) ∧
      (∀ event ∈ (net.node (.client 0)).history, StaleSilent event) ∧
      (requestLog (.client 0) (net.node (.client 0)).history).length ≤ 1 + Nat.log 2 args.n.val.toNat) ↔
    ∀ event ∈ (net.node (.client 0)).history, Progress event := by
  have alone := client_alone [args] managers Lts.anyStep 0 args rfl net reached
  have order : (requestLog (.client 0) (net.node (.client 0)).history).Pairwise (fun earlier later => later < earlier) ↔
      (requestsIn (.client 0) (net.node (.client 0)).history).Pairwise fun later earlier => later.val < earlier.val := by
    rw [requestLog, List.pairwise_map, List.pairwise_reverse]
  rw [order]
  rcases (asking_run (.client 0) args (by omega) _ alone).log fits with ⟨events, halving⟩ | ⟨⟨bad, member, isBad⟩, broken⟩
  · refine ⟨fun _ event member => (events event member).1, fun _ => ⟨halving.falls, ?_, ?_⟩⟩
    · intro event member
      exact (events event member).2
    · cases requests : requestsIn (.client 0) (net.node (.client 0)).history with
      | nil => simp [requestLog, requests]
      | cons newest older =>
          obtain ⟨positive, bound⟩ := halving.bound newest older requests
          have power : 2 ^ older.length ≤ args.n.val := by
            calc (2 : Int) ^ older.length ≤ 2 ^ older.length * newest.val := le_mul_of_one_le_right (by positivity) positive
              _ ≤ args.n.val := bound
          have natural : 2 ^ older.length ≤ args.n.val.toNat := by
            rw [Int.le_toNat (by omega)]
            exact_mod_cast power
          have few := Nat.le_log_of_pow_le (by decide : 1 < 2) natural
          simp only [requestLog, requests, List.length_map, List.length_reverse, List.length_cons]
          omega
  · exact ⟨fun holds => absurd holds.1 broken, fun all => absurd (all bad member) isBad⟩

def twoInFourteen : List Move := requestToWorker ++ workerAnswers 1 0 ++ answerToClient

theorem requests_fall_fourteen : ∃ net : Cluster,
    2 ≤ (typing 14).n.val ∧ (system [typing 14] [offering 1]).Reach Lts.anyStep net ∧
      requestLog (.client 0) (net.node (.client 0)).history = [14, 7] ∧
      (∀ event ∈ (net.node (.client 0)).history, StaleSilent event) ∧
      (requestLog (.client 0) (net.node (.client 0)).history).length ≤ 1 + Nat.log 2 (typing 14).n.val.toNat := by
  obtain ⟨net, reached, passed⟩ := (system [typing 14] [offering 1]).run_finds Lts.anyStep twoInFourteen
    (fun net => decide (requestLog (.client 0) (net.node (.client 0)).history = [14, 7] ∧
      ∀ event ∈ (net.node (.client 0)).history, DivisionFits event ∧ Progress event)) (by decide +kernel)
  obtain ⟨requests, events⟩ := of_decide_eq_true passed
  have typed : 2 ≤ (typing 14).n.val := by decide +kernel
  have kept := (requests_fall_iff (typing 14) [offering 1] net typed reached fun event member => (events event member).1).mpr
    fun event member => (events event member).2
  exact ⟨net, typed, reached, requests, kept.2.1, kept.2.2⟩

theorem requests_not_falling : ∃ (net : Cluster) (event : Past),
    (system [typing 14] [offering 1]).Reach Lts.anyStep net ∧
      requestLog (.client 0) (net.node (.client 0)).history = [14, 7, 7] ∧
      event ∈ (net.node (.client 0)).history ∧ ¬ StaleSilent event := by
  obtain ⟨net, reached, passed⟩ := (system [typing 14] [offering 1]).run_finds Lts.anyStep
    (twoInFourteen ++ [.handle (.manager 0) (drawing 0), .dispatch 2, .arrive 0, .handle (.client 0) (drawing 0)])
    (fun net => decide (requestLog (.client 0) (net.node (.client 0)).history = [14, 7, 7] ∧
      ∃ event ∈ (net.node (.client 0)).history, ¬ StaleSilent event)) (by decide +kernel)
  obtain ⟨requests, event, member, loud⟩ := of_decide_eq_true passed
  exact ⟨net, event, reached, requests, member, loud⟩

end VsLab
