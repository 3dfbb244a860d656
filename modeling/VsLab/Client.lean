import VsLab.Protocol

set_option autoImplicit false

namespace VsLab.Client

def accepts : Msg → Bool
  | .result => true
  | .pong => true
  | .factor .. => true
  | .nofactor _ => true
  | _ => false

def start (st : ClientState) (draw : Draw) : Step :=
  match remoteGroup draw (groupAddr st.host st.port) with
  | none => ⟨[], .quit⟩
  | some newServ =>
      ⟨[.join newServ, .publish newServ (.calculate st.n)], .become (.client { st with server := some newServ })⟩

inductive Division where
  | done (tmpN : Int512) (times : Nat)
  | raised
  | unfinished
deriving DecidableEq

-- A loop that ends at all ends within 512 tests: see divide_out_fuel.
def divisionFuel : Nat := 512

section Behaviour

variable [Divider]

def divideOut (p : Int512) : Nat → Int512 → Nat → Division
  | 0, _, _ => .unfinished
  | fuel + 1, tmpN, times =>
      match tmpN.mod p, tmpN.div p with
      | some r, some q => if r = 0 then divideOut p fuel q (times + 1) else .done tmpN times
      | _, _ => .raised

-- The list entries come from the print before the loop and one in each pass. A
-- client whose loop never ends stays in this handler.
def factor (st : ClientState) (draw : Draw) (p newCycles : Int512) (newCpuTime : Clock) : Step :=
  let tmpCycles := st.cycles + newCycles
  let tmpCpuTime := st.cpuTime + newCpuTime
  match divideOut p divisionFuel st.n 0 with
  | .raised => ⟨[.print (.entry p)], .raise⟩
  | .unfinished => ⟨[.print (.entry p)], .hang⟩
  | .done tmpN times =>
      match tmpN.div p with
      | none => ⟨List.replicate (times + 1) (.print (.entry p)), .raise⟩
      | some q =>
          if q = 1 then
            ⟨List.replicate (times + 1) (.print (.entry p)) ++ [.print (.report (draw.clock - tmpCpuTime) tmpCycles)],
              .become (.client st)⟩
          else
            ⟨List.replicate (times + 1) (.print (.entry p)) ++ sendTo st.server (.calculate tmpN),
              .become (.client { st with n := tmpN, cycles := tmpCycles, cpuTime := tmpCpuTime })⟩

def react (st : ClientState) (draw : Draw) : Msg → Step
  | .result => ⟨[], .quit⟩
  | .pong => ⟨sendTo st.server .ping, .become (.client st)⟩
  | .factor p newCycles newCpuTime => factor st draw p newCycles newCpuTime
  | .nofactor newCpuTime => ⟨[], .become (.client { st with cpuTime := st.cpuTime + newCpuTime })⟩
  | _ => ⟨[], .become (.client st)⟩

end Behaviour

def Stops (p m : Int512) (k c : Nat) : Prop := m.val.tdiv p.val = 1 ∧ (0 < k ∨ c = 0)

theorem half_carry_free : modulus ≤ 2 * carryFree := by decide +kernel

theorem quotient_free (p tmpN q : Int512) (c : Nat) (big : 2 ≤ p.val.natAbs) (value : inflated tmpN.val c = q.val * p.val)
    (small : 0 < c → q.val.natAbs < carryFree) : q.val.natAbs < carryFree := by
  rcases Nat.eq_zero_or_pos c with rfl | more
  · rw [inflated_zero] at value
    have magnitude : tmpN.val.natAbs = q.val.natAbs * p.val.natAbs := by rw [value, Int.natAbs_mul]
    have halved : q.val.natAbs * 2 ≤ q.val.natAbs * p.val.natAbs := Nat.mul_le_mul_left _ big
    have fits := tmpN.fits
    have half := half_carry_free
    omega
  · exact small more

theorem fits_power (a b : Int512) (big : 2 ≤ b.val.natAbs) : a.val.natAbs < b.val.natAbs ^ divisionFuel := by
  have fits := a.fits
  rw [modulus] at fits
  rw [divisionFuel]
  exact lt_of_lt_of_le fits (Nat.pow_le_pow_left big 512)

section Loop

variable [Divider]

theorem divide_out_step (p tmpN : Int512) (fuel times c : Nat) (divided : DividedAs tmpN p c) :
    (∃ q : Int512, inflated tmpN.val c = q.val * p.val ∧ (0 < c → q.val.natAbs < carryFree) ∧
      divideOut p (fuel + 1) tmpN times = divideOut p fuel q (times + 1)) ∨
    (¬ p.val ∣ inflated tmpN.val c ∧ divideOut p (fuel + 1) tmpN times = .done tmpN times) := by
  obtain ⟨r, remainder, rVal⟩ := divided.mod
  obtain ⟨q, quotient, qVal⟩ := divided.div
  have divides : r = 0 ↔ p.val ∣ inflated tmpN.val c := by
    rw [Int512.eq_def, rVal, Int512.val_zero, Int.dvd_iff_tmod_eq_zero]
  by_cases zero : r = 0
  · left
    refine ⟨q, ?_, fun more => qVal ▸ divided.small more, by simp only [divideOut, remainder, quotient, zero, if_true]⟩
    rw [qVal, Int.tdiv_mul_cancel (divides.mp zero)]
  · right
    exact ⟨fun d => zero (divides.mpr d), by simp only [divideOut, remainder, quotient, zero, if_false]⟩

structure Leaves (n p m : Int512) (k c : Nat) : Prop where
  divided : DividedAs n p c
  kept : k = 0 → m = n ∧ ¬ p.val ∣ inflated n.val c
  removed : 0 < k → inflated n.val c = m.val * p.val ^ k ∧ ¬ p.val ∣ m.val ∧ m.val.natAbs < carryFree

theorem leaves_exact (n p m : Int512) (k c : Nat) (leaves : Leaves n p m k c) (nonzero : p.val ≠ 0)
    (exact : DividedAs n p 0) : n.val = m.val * p.val ^ k ∧ ¬ p.val ∣ m.val := by
  obtain rfl := exact_unique n p c nonzero exact leaves.divided
  rcases Nat.eq_zero_or_pos k with zero | some
  · obtain ⟨rfl, stop⟩ := leaves.kept zero
    rw [inflated_zero] at stop
    exact ⟨by rw [zero, pow_zero, mul_one], stop⟩
  · obtain ⟨power, stop, _⟩ := leaves.removed some
    rw [inflated_zero] at power
    exact ⟨power, stop⟩

theorem leaves_nonzero (n p m : Int512) (k c : Nat) (leaves : Leaves n p m k c) (nonzero : n.val ≠ 0) : m.val ≠ 0 := by
  rcases Nat.eq_zero_or_pos k with zero | some
  · rwa [(leaves.kept zero).1]
  · intro zero
    have power := (leaves.removed some).1
    have magnitude := inflated_magnitude n.val c nonzero
    rw [power, zero, zero_mul] at magnitude
    omega

theorem leaves_positive (n p m : Int512) (k c : Nat) (leaves : Leaves n p m k c) (big : 2 ≤ p.val) (positive : 0 < n.val) :
    0 < m.val := by
  rcases Nat.eq_zero_or_pos k with zero | some
  · rwa [(leaves.kept zero).1]
  · have inflates := inflated_positive n.val c positive
    rw [(leaves.removed some).1] at inflates
    exact pos_of_mul_pos_left inflates (pow_nonneg (by omega) k)

theorem leaves_bound (n p m : Int512) (k c : Nat) (leaves : Leaves n p m k c) (nonzero : n.val ≠ 0) :
    n.val.natAbs ≤ m.val.natAbs * p.val.natAbs ^ k ∧ m.val.natAbs ≤ n.val.natAbs := by
  rcases Nat.eq_zero_or_pos k with zero | some
  · rw [(leaves.kept zero).1, zero, pow_zero, Nat.mul_one]
    exact ⟨le_rfl, le_rfl⟩
  · obtain ⟨power, _, free⟩ := leaves.removed some
    have magnitude := inflated_magnitude n.val c nonzero
    rw [power, Int.natAbs_mul, Int.natAbs_pow] at magnitude
    refine ⟨by omega, ?_⟩
    rcases Nat.eq_zero_or_pos c with none | more
    · rw [none, Nat.zero_mul, Nat.add_zero] at magnitude
      rw [← magnitude]
      refine Nat.le_mul_of_pos_right _ (Nat.pos_of_ne_zero fun power => ?_)
      rw [power] at magnitude
      omega
    · exact free.le.trans (leaves.divided.top more)

theorem leaves_above (n p m : Int512) (k c : Nat) (leaves : Leaves n p m k c) (big : 2 ≤ p.val) (positive : 0 < n.val) :
    n.val ≤ m.val * p.val ^ k := by
  have bound := Int.ofNat_le.mpr (leaves_bound n p m k c leaves positive.ne').1
  have left := leaves_positive n p m k c leaves big positive
  rwa [Int.natCast_mul, Int.natCast_pow, Int.natAbs_of_nonneg positive.le, Int.natAbs_of_nonneg left.le,
    Int.natAbs_of_nonneg (by omega)] at bound

variable [LawfulDivider]

theorem divide_out_done (p : Int512) (big : 2 ≤ p.val.natAbs) (fuel : Nat) (tmpN m : Int512) (times total c : Nat)
    (divided : DividedAs tmpN p c) (ended : divideOut p fuel tmpN times = .done m total) :
    ∃ k, total = times + k ∧ Leaves tmpN p m k c := by
  induction fuel generalizing tmpN times c with
  | zero => cases ended
  | succ fuel ih =>
      rcases divide_out_step p tmpN fuel times c divided with ⟨q, value, small, next⟩ | ⟨stop, next⟩
      · have free := quotient_free p tmpN q c big value small
        rw [next] at ended
        obtain ⟨k, count, leaves⟩ := ih q (times + 1) 0 (free_divided q p free (by omega)) ended
        obtain ⟨power, maximal⟩ := leaves_exact q p m k 0 leaves (by omega) leaves.divided
        refine ⟨k + 1, by omega, divided, fun zero => absurd zero (Nat.succ_ne_zero k), fun _ => ⟨?_, maximal, ?_⟩⟩
        · rw [value, power, pow_succ, mul_assoc]
        · rcases Nat.eq_zero_or_pos k with zero | some
          · rwa [(leaves.kept zero).1]
          · exact (leaves.removed some).2.2
      · rw [next] at ended
        cases ended
        exact ⟨0, rfl, divided, fun _ => ⟨rfl, stop⟩, fun some => absurd some (Nat.lt_irrefl 0)⟩

theorem divide_out_ends (p : Int512) (big : 2 ≤ p.val.natAbs) (fuel : Nat) (tmpN : Int512) (times : Nat)
    (nonzero : tmpN.val ≠ 0) (free : tmpN.val.natAbs < carryFree) (small : tmpN.val.natAbs < p.val.natAbs ^ fuel) :
    ∃ m total, divideOut p fuel tmpN times = .done m total := by
  induction fuel generalizing tmpN times with
  | zero =>
      rw [pow_zero] at small
      omega
  | succ fuel ih =>
      rcases divide_out_step p tmpN fuel times 0 (free_divided tmpN p free (by omega)) with ⟨q, value, _, next⟩ | ⟨_, next⟩
      · rw [inflated_zero] at value
        have magnitude : tmpN.val.natAbs = q.val.natAbs * p.val.natAbs := by rw [value, Int.natAbs_mul]
        have qNonzero : q.val ≠ 0 := by
          intro zero
          simp [value, zero] at nonzero
        have smaller : q.val.natAbs ≤ tmpN.val.natAbs := magnitude ▸ Nat.le_mul_of_pos_right _ (by omega)
        rw [magnitude, pow_succ] at small
        obtain ⟨m, total, ended⟩ := ih q (times + 1) qNonzero (Nat.lt_of_le_of_lt smaller free)
          (Nat.lt_of_mul_lt_mul_right small)
        exact ⟨m, total, next.trans ended⟩
      · exact ⟨tmpN, times, next⟩

theorem divide_out_zero (p : Int512) (nonzero : p.val ≠ 0) (fuel : Nat) (tmpN : Int512) (times : Nat)
    (zero : tmpN.val = 0) : divideOut p fuel tmpN times = .unfinished := by
  induction fuel generalizing tmpN times with
  | zero => rfl
  | succ fuel ih =>
      have free : tmpN.val.natAbs < carryFree := by
        rw [zero]
        decide +kernel
      rcases divide_out_step p tmpN fuel times 0 (free_divided tmpN p free nonzero) with ⟨q, value, _, next⟩ | ⟨stop, _⟩
      · rw [inflated_zero, zero] at value
        rw [next]
        exact ih q (times + 1) ((mul_eq_zero.mp value.symm).resolve_right nonzero)
      · exact absurd (by rw [inflated_zero, zero]; exact dvd_zero _) stop

theorem division_ends (p tmpN : Int512) (big : 2 ≤ p.val.natAbs) (nonzero : tmpN.val ≠ 0) :
    ∃ m total, divideOut p divisionFuel tmpN 0 = .done m total := by
  obtain ⟨c, divided⟩ := LawfulDivider.divided tmpN p (by omega)
  rcases Nat.eq_zero_or_pos c with rfl | more
  · rcases divide_out_step p tmpN 511 0 0 divided with ⟨q, value, small, next⟩ | ⟨_, next⟩
    · rw [inflated_zero] at value
      have magnitude : tmpN.val.natAbs = q.val.natAbs * p.val.natAbs := by rw [value, Int.natAbs_mul]
      have qNonzero : q.val ≠ 0 := by
        intro zero
        simp [value, zero] at nonzero
      have fits := fits_power tmpN p big
      rw [magnitude, show divisionFuel = 511 + 1 from rfl, pow_succ] at fits
      obtain ⟨m, total, ended⟩ := divide_out_ends p big 511 q 1 qNonzero
        (quotient_free p tmpN q 0 big (by rw [inflated_zero, value]) small) (Nat.lt_of_mul_lt_mul_right fits)
      exact ⟨m, total, next.trans ended⟩
    · exact ⟨tmpN, 0, next⟩
  · rcases divide_out_step p tmpN 511 0 c divided with ⟨q, value, small, next⟩ | ⟨_, next⟩
    · have qNonzero : q.val ≠ 0 := by
        intro zero
        have magnitude := inflated_magnitude tmpN.val c nonzero
        rw [value, zero, zero_mul] at magnitude
        omega
      -- A divisor of two limbs or more leaves at most eight of these divisions.
      have eight : q.val.natAbs < p.val.natAbs ^ 511 := by
        calc q.val.natAbs < modulus := q.fits
          _ = CppInt.limbRadix ^ 8 := CppInt.modulus_limbs
          _ ≤ p.val.natAbs ^ 8 := Nat.pow_le_pow_left (divided.limbs more) 8
          _ ≤ p.val.natAbs ^ 511 := Nat.pow_le_pow_right (by omega) (by decide)
      obtain ⟨m, total, ended⟩ := divide_out_ends p big 511 q 1 qNonzero (small more) eight
      exact ⟨m, total, next.trans ended⟩
    · exact ⟨tmpN, 0, next⟩

theorem divide_out_fuel (p tmpN : Int512) (big : 2 ≤ p.val.natAbs) :
    (∃ fuel m total, divideOut p fuel tmpN 0 = .done m total) ↔
      ∃ m total, divideOut p divisionFuel tmpN 0 = .done m total := by
  constructor
  · rintro ⟨fuel, m, total, ended⟩
    have nonzero : tmpN.val ≠ 0 := by
      intro zero
      rw [divide_out_zero p (by omega) fuel tmpN 0 zero] at ended
      cases ended
    exact division_ends p tmpN big nonzero
  · rintro ⟨m, total, ended⟩
    exact ⟨divisionFuel, m, total, ended⟩

theorem stop_test (p n m : Int512) (k c : Nat) (nonzero : p.val ≠ 0) (leaves : Leaves n p m k c) :
    ∃ q, m.div p = some q ∧ (q = 1 ↔ Stops p m k c) := by
  rcases Nat.eq_zero_or_pos k with zero | some
  · obtain ⟨q, computed, value⟩ := leaves.divided.div
    obtain ⟨rfl, _⟩ := leaves.kept zero
    refine ⟨q, computed, ?_⟩
    rw [Int512.eq_def, Int512.val_one, Stops, value]
    rcases Nat.eq_zero_or_pos c with rfl | more
    · rw [inflated_zero]
      exact ⟨fun one => ⟨one, .inr rfl⟩, fun stops => stops.1⟩
    · have many := leaves.divided.many more
      constructor
      · intro one
        rw [one] at many
        omega
      · rintro ⟨_, some | none⟩
        · omega
        · omega
  · obtain ⟨q, computed, value⟩ := quotient_exact m p (free_divided m p (leaves.removed some).2.2 nonzero)
    refine ⟨q, computed, ?_⟩
    rw [Int512.eq_def, Int512.val_one, Stops, value]
    exact ⟨fun one => ⟨one, .inl some⟩, fun stops => stops.1⟩

theorem factor_ends (st : ClientState) (draw : Draw) (p newCycles : Int512) (newCpuTime : Clock)
    (big : 2 ≤ p.val) (nonzero : st.n.val ≠ 0) :
    ∃ (m : Int512) (k c : Nat), divideOut p divisionFuel st.n 0 = .done m k ∧ Leaves st.n p m k c ∧
      ((Stops p m k c ∧ factor st draw p newCycles newCpuTime =
        ⟨List.replicate (k + 1) (.print (.entry p)) ++
          [.print (.report (draw.clock - (st.cpuTime + newCpuTime)) (st.cycles + newCycles))], .become (.client st)⟩) ∨
      (¬ Stops p m k c ∧ factor st draw p newCycles newCpuTime =
        ⟨List.replicate (k + 1) (.print (.entry p)) ++ sendTo st.server (.calculate m),
          .become (.client { st with
            n := m, cycles := st.cycles + newCycles, cpuTime := st.cpuTime + newCpuTime })⟩)) := by
  have pNonzero : p.val ≠ 0 := by omega
  obtain ⟨c, divided⟩ := LawfulDivider.divided st.n p pNonzero
  obtain ⟨m, total, ended⟩ := division_ends p st.n (by omega) nonzero
  obtain ⟨k, count, leaves⟩ := divide_out_done p (by omega) divisionFuel st.n m 0 total c divided ended
  obtain ⟨q, quotient, test⟩ := stop_test p st.n m k c pNonzero leaves
  have counted : total = k := by omega
  subst counted
  refine ⟨m, total, c, ended, leaves, ?_⟩
  by_cases one : q = 1
  · left
    refine ⟨test.mp one, ?_⟩
    simp only [factor, ended, quotient, one, if_true]
  · right
    refine ⟨fun stops => one (test.mpr stops), ?_⟩
    simp only [factor, ended, quotient, one, if_false]

theorem factor_zero (st : ClientState) (draw : Draw) (p newCycles : Int512) (newCpuTime : Clock)
    (big : 2 ≤ p.val) (zero : st.n.val = 0) :
    factor st draw p newCycles newCpuTime = ⟨[.print (.entry p)], .hang⟩ := by
  simp only [factor, divide_out_zero p (by omega) divisionFuel st.n 0 zero]

end Loop

section Turns

variable [Divider]

inductive Turn (st : ClientState) (draw : Draw) : Msg → Step → Prop where
  | ignored (msg : Msg) (other : accepts msg = false) : Turn st draw msg ⟨[], .become (.client st)⟩
  | left : Turn st draw .result ⟨[], .quit⟩
  | pinged : Turn st draw .pong ⟨sendTo st.server .ping, .become (.client st)⟩
  | divided (p newCycles : Int512) (newCpuTime : Clock) :
      Turn st draw (.factor p newCycles newCpuTime) (factor st draw p newCycles newCpuTime)
  | waited (newCpuTime : Clock) : Turn st draw (.nofactor newCpuTime)
      ⟨[], .become (.client { st with cpuTime := st.cpuTime + newCpuTime })⟩

theorem react_turn (st : ClientState) (draw : Draw) (msg : Msg) : Turn st draw msg (react st draw msg) := by
  cases msg with
  | result => exact .left
  | pong => exact .pinged
  | factor p newCycles newCpuTime => exact .divided p newCycles newCpuTime
  | nofactor newCpuTime => exact .waited newCpuTime
  | calculate n => exact .ignored _ rfl
  | continuation n a cycles cpuTime state => exact .ignored _ rfl
  | sWorkers => exact .ignored _ rfl
  | kWorkers => exact .ignored _ rfl
  | suicide => exact .ignored _ rfl
  | ping => exact .ignored _ rfl
  | quit => exact .ignored _ rfl

end Turns

end VsLab.Client
