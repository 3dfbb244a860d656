import VsLab.FactorSoundness
import Mathlib.RingTheory.Multiplicity

set_option autoImplicit false

namespace VsLab

open Actors

noncomputable def cofactor (n p : Int) : Int := n / p ^ multiplicity p n

theorem cofactor_unique (n p m : Int) (k : Nat) (big : 2 ≤ p) (power : n = m * p ^ k) (maximal : ¬ p ∣ m) :
    cofactor n p = m := by
  have nonzero : p ^ k ≠ 0 := pow_ne_zero k (by omega)
  have exact : multiplicity p n = k := by
    apply multiplicity_eq_of_dvd_of_not_dvd
    · exact ⟨m, by rw [power, mul_comm]⟩
    · rw [power, pow_succ, mul_comm (p ^ k) p]
      exact fun divides => maximal ((mul_dvd_mul_iff_right nonzero).mp divides)
  rw [cofactor, exact, power]
  exact Int.mul_ediv_cancel m nonzero

def Reports (r : Step) : Prop := ∃ ticks cycles, .print (.report ticks cycles) ∈ r.effects

def Requests (r : Step) (v : Int512) : Prop := .publish .server (.calculate v) ∈ r.effects

-- What the client should do with a factor: report exactly when nothing is left,
-- otherwise ask for what is left and keep it.
structure StopsExactly (st : ClientState) (p : Int512) (r : Step) : Prop where
  stops : (Reports r ∧ ∀ v, ¬ Requests r v) ↔ cofactor st.n.val p.val = 1
  goesOn : cofactor st.n.val p.val ≠ 1 → ¬ Reports r ∧ ∃ v later, v.val = cofactor st.n.val p.val ∧ 2 ≤ v.val ∧
    Requests r v ∧ r.outcome = .become (.client later) ∧ later.n = v

-- The inputs on which the stop test (tmp_n / p) == 1 is right: n is not a power
-- of p, and its cofactor is not strictly between p and 2p.
def Harmless (n p : Int) : Prop :=
  (∀ k : Nat, n ≠ p ^ k) ∧ ∀ (c : Int) (k : Nat), n = c * p ^ k → ¬ (p < c ∧ c < 2 * p)

theorem quotient_one_iff (m p : Int) (positive : 0 < m) (big : 2 ≤ p) (maximal : ¬ p ∣ m) :
    m.tdiv p = 1 ↔ p < m ∧ m < 2 * p := by
  have different : m ≠ p := fun same => maximal (same ▸ dvd_refl p)
  rw [Int.tdiv_eq_ediv_of_nonneg (by omega)]
  constructor
  · intro one
    have low := Int.ediv_mul_le m (b := p) (by omega)
    have high := Int.lt_ediv_add_one_mul_self m (b := p) (by omega)
    rw [one] at low high
    omega
  · rintro ⟨low, high⟩
    apply le_antisymm
    · exact Int.lt_add_one_iff.mp ((Int.ediv_lt_iff_lt_mul (by omega)).mpr (by omega))
    · exact (Int.le_ediv_iff_mul_le (by omega)).mpr (by omega)

theorem harmless_iff (n p m : Int) (k : Nat) (big : 2 ≤ p) (power : n = m * p ^ k) (maximal : ¬ p ∣ m) :
    Harmless n p ↔ m ≠ 1 ∧ ¬ (p < m ∧ m < 2 * p) := by
  constructor
  · rintro ⟨noPower, noMiddle⟩
    exact ⟨fun one => noPower k (by rw [power, one, one_mul]), noMiddle m k power⟩
  · rintro ⟨notOne, notMiddle⟩
    have unique := cofactor_unique n p m k big power maximal
    refine ⟨?_, ?_⟩
    · intro j isPower
      have one := cofactor_unique n p 1 j big (by rw [isPower, one_mul])
        (fun divides => by have := Int.le_of_dvd one_pos divides; omega)
      exact notOne (unique.symm.trans one)
    · intro c j isPower middle
      have noDivisor : ¬ p ∣ c := by
        rintro ⟨q, rfl⟩
        have above : 1 < q := lt_of_mul_lt_mul_left (by omega : p * 1 < p * q) (by omega)
        have below : q < 2 := lt_of_mul_lt_mul_left (by omega : p * q < p * 2) (by omega)
        omega
      have same := cofactor_unique n p c j big isPower noDivisor
      exact notMiddle (unique.symm.trans same ▸ middle)

theorem report_in_entries (count : Nat) (p : Int512) (rest : List Doing) (r : Step)
    (shape : r.effects = List.replicate count (.print (.entry p)) ++ rest) :
    Reports r ↔ ∃ ticks cycles, .print (.report ticks cycles) ∈ rest := by
  simp [Reports, shape, List.mem_replicate]

theorem request_in_entries (count : Nat) (p v : Int512) (rest : List Doing) (r : Step)
    (shape : r.effects = List.replicate count (.print (.entry p)) ++ rest) :
    Requests r v ↔ .publish .server (.calculate v) ∈ rest := by
  simp [Requests, shape, List.mem_replicate]

theorem factor_report (st : ClientState) (draw : Draw) (p cycles : Int512) (cpuTime : Clock)
    (large : 2 ≤ st.n.val) (big : 2 ≤ p.val) :
    ∃ (m : Int512) (k c : Nat), Client.Leaves st.n p m k c ∧ 0 < m.val ∧
      ((Client.Stops p m k c ∧ Reports (Client.factor st draw p cycles cpuTime)) ∨
      (¬ Client.Stops p m k c ∧ ¬ Reports (Client.factor st draw p cycles cpuTime) ∧
        (∀ v, Requests (Client.factor st draw p cycles cpuTime) v → v = m) ∧
        (st.server = some .server → Requests (Client.factor st draw p cycles cpuTime) m) ∧
        ∃ later, (Client.factor st draw p cycles cpuTime).outcome = .become (.client later) ∧ later.n = m)) := by
  obtain ⟨m, k, c, _, leaves, ways⟩ := Client.factor_ends st draw p cycles cpuTime big (by omega)
  refine ⟨m, k, c, leaves, Client.leaves_positive st.n p m k c leaves big (by omega), ?_⟩
  rcases ways with ⟨stops, same⟩ | ⟨goesOn, same⟩
  · left
    refine ⟨stops, ?_⟩
    rw [report_in_entries (k + 1) p _ _ (by rw [same])]
    exact ⟨_, _, List.mem_singleton_self _⟩
  · right
    refine ⟨goesOn, ?_, ?_, ?_, ?_⟩
    · rw [report_in_entries (k + 1) p _ _ (by rw [same])]
      cases st.server <;> simp [sendTo]
    · intro v asked
      rw [request_in_entries (k + 1) p v _ _ (by rw [same])] at asked
      cases server : st.server with
      | none => simp [server, sendTo] at asked
      | some grp =>
          simp only [server, sendTo, List.mem_singleton, Effect.publish.injEq, Msg.calculate.injEq] at asked
          exact asked.2
    · intro connected
      rw [request_in_entries (k + 1) p m _ _ (by rw [same])]
      simp [sendTo, connected]
    · exact ⟨_, by rw [same], rfl⟩

theorem exact_report (st : ClientState) (draw : Draw) (p cycles : Int512) (cpuTime : Clock)
    (large : 2 ≤ st.n.val) (big : 2 ≤ p.val) (fits : ¬ Spills st.n p) :
    ∃ m : Int512, m.val = cofactor st.n.val p.val ∧ 0 < m.val ∧
      (Harmless st.n.val p.val ↔ m.val ≠ 1 ∧ ¬ (p.val < m.val ∧ m.val < 2 * p.val)) ∧
      ((p.val < m.val ∧ m.val < 2 * p.val ∧ Reports (Client.factor st draw p cycles cpuTime)) ∨
      (¬ (p.val < m.val ∧ m.val < 2 * p.val) ∧ ¬ Reports (Client.factor st draw p cycles cpuTime) ∧
        (st.server = some .server → Requests (Client.factor st draw p cycles cpuTime) m) ∧
        ∃ later, (Client.factor st draw p cycles cpuTime).outcome = .become (.client later) ∧ later.n = m)) := by
  obtain ⟨m, k, c, leaves, positive, ways⟩ := factor_report st draw p cycles cpuTime large big
  have exact := unspilled_exact st.n p (by omega) fits
  obtain ⟨power, maximal⟩ := Client.leaves_exact st.n p m k c leaves (by omega) exact
  obtain rfl := exact_unique st.n p c (by omega) exact leaves.divided
  have between : Client.Stops p m k 0 ↔ p.val < m.val ∧ m.val < 2 * p.val :=
    (and_iff_left (.inr rfl)).trans (quotient_one_iff m.val p.val positive big maximal)
  refine ⟨m, (cofactor_unique _ _ _ k big power maximal).symm, positive, harmless_iff _ _ _ k big power maximal, ?_⟩
  rcases ways with ⟨stops, reports⟩ | ⟨goesOn, silent, _, asks, becomes⟩
  · exact .inl ⟨(between.mp stops).1, (between.mp stops).2, reports⟩
  · exact .inr ⟨fun inside => goesOn (between.mpr inside), silent, asks, becomes⟩

section Spilled

variable (n p m : Int512) (k c : Nat) (large : 2 ≤ n.val) (big : 2 ≤ p.val) (leaves : Client.Leaves n p m k c)
  (more : 0 < c) (some : 0 < k)

include large big leaves more some

theorem spilled_between : m.val * p.val ^ (k - 1) < n.val ∧ 2 * n.val < m.val * p.val ^ k := by
  obtain ⟨power, _, _⟩ := leaves.removed some
  have magnitude := inflated_magnitude n.val c (by omega)
  have small := leaves.divided.small more
  have top := leaves.divided.top more
  have fits := n.fits
  have once : modulus ≤ c * modulus := Nat.le_mul_of_pos_left modulus more
  have positive := Client.leaves_positive n p m k c leaves big (by omega)
  have split : m.val * p.val ^ k = m.val * p.val ^ (k - 1) * p.val := by
    rw [mul_assoc, ← pow_succ, Nat.sub_add_cancel some]
  have low : 0 ≤ m.val * p.val ^ (k - 1) := mul_nonneg positive.le (pow_nonneg (by omega) _)
  have whole : 0 ≤ m.val * p.val ^ k := mul_nonneg positive.le (pow_nonneg (by omega) _)
  rw [power] at magnitude small
  rw [split, Int.mul_tdiv_cancel _ (by omega)] at small
  generalize c * modulus = lost at magnitude once
  constructor <;> omega

theorem spilled_cofactor (j : Nat) : n.val ≠ m.val * p.val ^ j := by
  intro same
  obtain ⟨below, above⟩ := spilled_between n p m k c large big leaves more some
  have positive := Client.leaves_positive n p m k c leaves big (by omega)
  rw [same] at below above
  have atMost : k - 1 < j := (pow_lt_pow_iff_right₀ (by omega)).mp (lt_of_mul_lt_mul_left below positive.le)
  have powers : m.val * p.val ^ j < m.val * p.val ^ k := by omega
  have atLeast : j < k := (pow_lt_pow_iff_right₀ (by omega)).mp (lt_of_mul_lt_mul_left powers positive.le)
  omega

theorem spilled_power (j : Nat) (inside : p.val < m.val ∧ m.val < 2 * p.val) : n.val ≠ p.val ^ j := by
  intro same
  obtain ⟨below, above⟩ := spilled_between n p m k c large big leaves more some
  rw [same] at below above
  have unit : 0 < p.val ^ (k - 1) := pow_pos (by omega) _
  have lower : p.val ^ k < p.val ^ j := by
    calc p.val ^ k = p.val * p.val ^ (k - 1) := by rw [← pow_succ', Nat.sub_add_cancel some]
      _ < m.val * p.val ^ (k - 1) := mul_lt_mul_of_pos_right inside.1 unit
      _ < p.val ^ j := below
  have upper : m.val * p.val ^ k < 2 * p.val ^ (k + 1) := by
    calc m.val * p.val ^ k < 2 * p.val * p.val ^ k := mul_lt_mul_of_pos_right inside.2 (pow_pos (by omega) k)
      _ = 2 * p.val ^ (k + 1) := by rw [pow_succ', mul_assoc]
  have atMost : k < j := (pow_lt_pow_iff_right₀ (by omega)).mp lower
  have atLeast : j < k + 1 := (pow_lt_pow_iff_right₀ (a := p.val) (by omega)).mp (by omega)
  omega

end Spilled

theorem cofactor_power (n p : Int) (nonzero : n ≠ 0) (big : 2 ≤ p) :
    ∃ j : Nat, n = cofactor n p * p ^ j ∧ ¬ p ∣ cofactor n p := by
  have finite : FiniteMultiplicity p n := Int.finiteMultiplicity_iff.mpr ⟨by omega, nonzero⟩
  obtain ⟨m, power, maximal⟩ := finite.exists_eq_pow_mul_and_not_dvd
  rw [mul_comm] at power
  have unique := cofactor_unique n p m _ big power maximal
  exact ⟨_, by rw [unique]; exact power, unique ▸ maximal⟩

theorem spilled_not_exact (st : ClientState) (draw : Draw) (p cycles : Int512) (cpuTime : Clock)
    (large : 2 ≤ st.n.val) (big : 2 ≤ p.val) (divides : p.val ∣ st.n.val) (spills : Spills st.n p) :
    ¬ StopsExactly st p (Client.factor st draw p cycles cpuTime) := by
  intro exact
  obtain ⟨m, k, c, leaves, positive, ways⟩ := factor_report st draw p cycles cpuTime large big
  obtain ⟨j, power, maximal⟩ := cofactor_power st.n.val p.val (by omega) big
  have more : 0 < c := by
    rcases Nat.eq_zero_or_pos c with rfl | more
    · exact absurd spills ((exact_iff st.n p (by omega)).mp leaves.divided)
    · exact more
  rcases ways with ⟨⟨one, removed⟩, reports⟩ | ⟨goesOn, silent, only, _, _⟩
  · have some : 0 < k := removed.resolve_right (by omega)
    have isOne : cofactor st.n.val p.val = 1 := by
      by_contra notOne
      exact (exact.goesOn notOne).1 reports
    rw [isOne, one_mul] at power
    have inside := (quotient_one_iff m.val p.val positive big (leaves.removed some).2.1).mp one
    exact spilled_power st.n p m k c large big leaves more some j inside power
  · have notOne : cofactor st.n.val p.val ≠ 1 := fun isOne => silent (exact.stops.mpr isOne).1
    obtain ⟨_, v, later, isCofactor, _, asked, _⟩ := exact.goesOn notOne
    rw [only v asked] at isCofactor
    rcases Nat.eq_zero_or_pos k with zero | some
    · rw [(leaves.kept zero).1] at isCofactor
      exact maximal (isCofactor ▸ divides)
    · exact spilled_cofactor st.n p m k c large big leaves more some j (by rw [isCofactor, ← power])

theorem stops_exactly_iff (st : ClientState) (draw : Draw) (p cycles : Int512) (cpuTime : Clock)
    (connected : st.server = some .server) (large : 2 ≤ st.n.val) (big : 2 ≤ p.val) (divides : p.val ∣ st.n.val) :
    StopsExactly st p (Client.factor st draw p cycles cpuTime) ↔ ¬ Spills st.n p ∧ Harmless st.n.val p.val := by
  by_cases spills : Spills st.n p
  · exact ⟨fun exact => absurd exact (spilled_not_exact st draw p cycles cpuTime large big divides spills),
      fun both => absurd spills both.1⟩
  · obtain ⟨m, isCofactor, positive, harmless, ways⟩ := exact_report st draw p cycles cpuTime large big spills
    rw [and_iff_right spills, harmless]
    constructor
    · intro exact
      rcases ways with ⟨above, below, reports⟩ | ⟨outside, silent, asks, _⟩
      · have one : cofactor st.n.val p.val = 1 := by
          by_contra notOne
          exact (exact.goesOn notOne).1 reports
        omega
      · refine ⟨fun one => ?_, outside⟩
        exact silent (exact.stops.mpr (isCofactor ▸ one)).1
    · rintro ⟨notOne, outside⟩
      rcases ways with ⟨above, below, _⟩ | ⟨_, silent, asks, later, becomes, keeps⟩
      · exact absurd ⟨above, below⟩ outside
      · refine ⟨⟨fun both => absurd both.1 silent, fun one => absurd (isCofactor.trans one) notOne⟩, fun _ => ?_⟩
        exact ⟨silent, m, later, isCofactor, by omega, asks connected, becomes, keeps⟩

section Runs

def HarmlessMove (net : Cluster) : Move → Prop
  | .handle self _ => ∀ st env p cycles cpuTime, (net.node self).next behaviour = some (.client st, env) →
      env.msg = .factor p cycles cpuTime → ¬ Spills st.n p ∧ Harmless st.n.val p.val
  | _ => True

def AsksAbove (env : Mail) : Prop := ∀ index n, env.sender = .client index → env.msg = .calculate n → 2 ≤ n.val

def LeftAbove (_ : Address) : ActorState → Prop
  | .client st => 2 ≤ st.n.val
  | _ => True

theorem client_asks (self : Address) (tag : Nat) (st : ClientState) (draw : Draw) (msg : Msg) (large : 2 ≤ st.n.val)
    (harmless : ∀ p cycles cpuTime, msg = .factor p cycles cpuTime →
      2 ≤ p.val ∧ ¬ Spills st.n p ∧ Harmless st.n.val p.val) :
    (Client.react st draw msg).Sound AsksAbove LeftAbove self tag := by
  refine client_react_sound _ _ self tag st draw msg (fun p cycles cpuTime same => (harmless p cycles cpuTime same).1)
    (fun _ _ _ _ _ same => by cases same) (fun _ => large) ?_
  intro p cycles cpuTime m k c isFactor _ leaves _
  obtain ⟨big, fits, small⟩ := harmless p cycles cpuTime isFactor
  have positive := Client.leaves_positive st.n p m k c leaves big (by omega)
  obtain ⟨power, maximal⟩ := Client.leaves_exact st.n p m k c leaves (by omega) (unspilled_exact st.n p (by omega) fits)
  have notOne := ((harmless_iff _ _ _ k big power maximal).mp small).1
  have above : 2 ≤ m.val := by omega
  exact ⟨fun _ _ _ _ _ same => by cases same; exact above, fun _ _ => above⟩

theorem start_asks (self : Address) (tag : Nat) (state : ActorState) (draw : Draw) (large : LeftAbove self state) :
    (behaviour.start self state draw).Sound AsksAbove LeftAbove self tag := by
  cases state with
  | client st => exact client_start_sound _ _ self tag st draw (fun _ _ _ same => by cases same; exact large) large
  | manager st => exact manager_start_sound _ _ self tag st draw (fun _ _ _ same => by cases same) trivial
  | worker st => exact ⟨by simp [behaviour], trivial⟩

theorem manager_asks (process tag : Nat) (st : ManagerState) (msg : Msg) :
    (Manager.react st msg).Sound AsksAbove LeftAbove (.manager process) tag :=
  manager_react_sound _ _ _ tag st msg (fun _ _ _ _ same => by cases same) (fun _ _ same => by cases same)
    (fun _ _ _ _ _ same => by cases same) (fun _ _ _ _ same => by cases same) (fun _ => trivial) (fun _ => trivial)

theorem worker_asks (process index tag : Nat) (st : WorkerState) (draw : Draw) (msg : Msg) :
    (Worker.react st draw msg).Sound AsksAbove LeftAbove (.worker process index) tag := by
  have turn := Worker.react_turn st draw msg
  generalize Worker.react st draw msg = r at turn ⊢
  cases turn <;> exact ⟨by simp [Effect.Fine, AsksAbove], trivial⟩

variable (clients : List ClientArgs) (managers : List ManagerArgs)

theorem run_asks (typed : ∀ args ∈ clients, 2 ≤ args.n.val) (net : Cluster)
    (reached : (system clients managers).Reach HarmlessMove net) : net.Sound AsksAbove LeftAbove := by
  refine reach_sound _ _ behaviour _ HarmlessMove ?_ ?_ ?_ net reached
  · exact initial_sound _ _ clients managers (fun _ args found => typed args (List.mem_of_getElem? found))
      (fun _ _ _ => trivial)
  · intro _ self draw state tag _ _ _ large
    exact start_asks self tag state draw large
  · intro before self draw state env tag earlier harmless next large _
    obtain ⟨role, origin⟩ := next_origin clients managers HarmlessMove before self state env earlier next
    cases state with
    | client st =>
        refine client_asks self tag st draw env.msg large ?_
        intro p cycles cpuTime isFactor
        rw [isFactor] at origin
        exact ⟨origin.1, harmless st env p cycles cpuTime next isFactor⟩
    | manager st =>
        cases self with
        | manager process => exact manager_asks process tag st env.msg
        | client index => exact False.elim role
        | worker process index => exact False.elim role
    | worker st =>
        cases self with
        | worker process index => exact worker_asks process index tag st draw env.msg
        | client index => exact False.elim role
        | manager process => exact False.elim role

theorem run_silent (typed : ∀ args ∈ clients, 2 ≤ args.n.val) (net : Cluster)
    (reached : (system clients managers).Reach HarmlessMove net) (index : Nat) (env : Mail) (st : ClientState)
    (draw : Draw) (tag : Nat) (p cycles : Int512) (cpuTime : Clock) (isFactor : env.msg = .factor p cycles cpuTime)
    (happened : .handled env (.client st) draw tag ∈ (net.node (.client index)).history) :
    ¬ Reports (Client.react st draw env.msg) := by
  have silent := reach_events behaviour (initial clients managers) HarmlessMove
    (fun _ event => ∀ env st draw tag p cycles cpuTime, event = .handled env (.client st) draw tag →
      env.msg = .factor p cycles cpuTime → ¬ Reports (Client.react st draw env.msg))
    (initial_history clients managers) (fun _ _ _ _ _ _ _ _ _ same => by cases same)
    (fun _ _ _ _ _ _ _ _ _ _ _ _ _ _ same => by cases same) ?_ net reached (.client index)
  · exact silent _ happened env st draw tag p cycles cpuTime rfl isFactor
  · intro before self draw state env earlier harmless next other st ticks mark p cycles cpuTime same isFactor
    cases same
    obtain ⟨_, origin⟩ := next_origin clients managers HarmlessMove before self _ env earlier next
    have large : 2 ≤ st.n.val := by
      have above := ((run_asks clients managers typed before earlier).nodes self).status
      rw [((Node.next_some behaviour _ _ env).mp next).1] at above
      exact above
    rw [isFactor] at origin ⊢
    obtain ⟨fits, small⟩ := harmless st env p cycles cpuTime next isFactor
    obtain ⟨m, _, _, harmlessIff, ⟨above, below, _⟩ | ⟨_, silent, _⟩⟩ :=
      exact_report st draw p cycles cpuTime large origin.1 fits
    · exact absurd ⟨above, below⟩ (harmlessIff.mp small).2
    · exact silent

end Runs

theorem client_stops_when_harmless (clients : List ClientArgs) (managers : List ManagerArgs)
    (typed : ∀ args ∈ clients, 2 ≤ args.n.val) :
    (∀ (st : ClientState) (draw : Draw) (p cycles : Int512) (cpuTime : Clock), st.server = some .server →
      2 ≤ st.n.val → 2 ≤ p.val → p.val ∣ st.n.val →
      (StopsExactly st p (Client.factor st draw p cycles cpuTime) ↔ ¬ Spills st.n p ∧ Harmless st.n.val p.val)) ∧
    ∀ net : Cluster, (system clients managers).Reach HarmlessMove net →
      (∀ index env st draw tag p cycles cpuTime,
        .handled env (.client st) draw tag ∈ (net.node (.client index)).history →
        env.msg = .factor p cycles cpuTime → Reports (Client.react st draw env.msg) →
        cofactor st.n.val p.val = 1) ∧
      ∀ env ∈ net.sent, ∀ index, env.sender = .client index → env.msg ≠ .calculate 1 := by
  refine ⟨?_, ?_⟩
  · intro st draw p cycles cpuTime connected large big divides
    exact stops_exactly_iff st draw p cycles cpuTime connected large big divides
  · intro net reached
    refine ⟨?_, ?_⟩
    · intro index env st draw tag p cycles cpuTime happened isFactor reports
      exact absurd reports (run_silent clients managers typed net reached index env st draw tag p cycles cpuTime
        isFactor happened)
    · intro env member index isClient asksOne
      have above := (run_asks clients managers typed net reached).sent env member index 1 isClient asksOne
      simp at above

def connected (n : Nat) : ClientState := ⟨"localhost", 6667, Int512.ofNat n, some .server, 0, 0⟩

theorem client_stops_at_ten :
    Harmless (connected 10).n.val (Int512.ofNat 2).val ∧
      StopsExactly (connected 10) (Int512.ofNat 2) (Client.factor (connected 10) (drawing 0) (Int512.ofNat 2) 0 0) ∧
      ∀ env ∈ (initial [typing 10] [offering 1]).sent, ∀ index, env.sender = .client index → env.msg ≠ .calculate 1 := by
  have ten : 2 ≤ (connected 10).n.val := by decide +kernel
  have two : 2 ≤ (Int512.ofNat 2).val := by decide +kernel
  have divides : (Int512.ofNat 2).val ∣ (connected 10).n.val := by decide +kernel
  have harmless : Harmless (connected 10).n.val (Int512.ofNat 2).val :=
    (harmless_iff _ _ 5 1 two (by decide +kernel) (by decide +kernel)).mpr (by decide +kernel)
  have typed : ∀ args ∈ [typing 10], 2 ≤ args.n.val := by
    intro args member
    rw [List.mem_singleton.mp member]
    exact ten
  obtain ⟨stops, runs⟩ := client_stops_when_harmless [typing 10] [offering 1] typed
  have fits : ¬ Spills (connected 10).n (Int512.ofNat 2) := by decide +kernel
  exact ⟨harmless, (stops (connected 10) (drawing 0) (Int512.ofNat 2) 0 0 rfl ten two divides).mpr ⟨fits, harmless⟩,
    (runs _ .refl).2⟩

theorem client_never_stops_at_seven :
    ¬ StopsExactly (connected 7) (Int512.ofNat 7) (Client.factor (connected 7) (drawing 0) (Int512.ofNat 7) 0 0) ∧
      Requests (Client.factor (connected 7) (drawing 0) (Int512.ofNat 7) 0 0) 1 ∧
      Reports (Client.factor (connected 6) (drawing 0) (Int512.ofNat 2) 0 0) ∧
      cofactor (connected 6).n.val (Int512.ofNat 2).val = 3 := by
  have seven : 2 ≤ (Int512.ofNat 7).val := by decide +kernel
  have two : 2 ≤ (Int512.ofNat 2).val := by decide +kernel
  have one : cofactor (connected 7).n.val (Int512.ofNat 7).val = 1 :=
    cofactor_unique _ _ 1 1 seven (by decide +kernel) (by decide +kernel)
  have three : cofactor (connected 6).n.val (Int512.ofNat 2).val = 3 :=
    cofactor_unique _ _ 3 1 two (by decide +kernel) (by decide +kernel)
  refine ⟨?_, ?_, ?_, three⟩
  · rw [stops_exactly_iff (connected 7) (drawing 0) (Int512.ofNat 7) 0 0 rfl seven seven (by decide +kernel)]
    exact fun both => both.2.1 1 (by decide +kernel)
  · obtain ⟨m, isCofactor, _, _, ⟨above, below, _⟩ | ⟨_, _, asks, _⟩⟩ :=
      exact_report (connected 7) (drawing 0) (Int512.ofNat 7) 0 0 seven seven (by decide +kernel)
    · omega
    · have same : m = 1 := Int512.ext_val m 1 (isCofactor.trans one)
      exact same ▸ asks rfl
  · obtain ⟨m, isCofactor, _, _, ⟨_, _, reports⟩ | ⟨outside, _⟩⟩ :=
      exact_report (connected 6) (drawing 0) (Int512.ofNat 2) 0 0 (by decide +kernel) two (by decide +kernel)
    · exact reports
    · rw [isCofactor, three] at outside
      exact absurd (by decide +kernel) outside

end VsLab
