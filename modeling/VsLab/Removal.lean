import VsLab.ClientRun

set_option autoImplicit false

namespace VsLab

open Actors

def reported (actor : Address) (history : List Past) : Bool :=
  history.any fun event => reportsOf (event.effects behaviour actor)

def requestsIn (actor : Address) (history : List Past) : List Int512 :=
  history.flatMap fun event => requestsOf (event.effects behaviour actor)

def removal : Past → Option (Int × Nat)
  | .handled env (.client st) _ _ =>
      match env.msg with
      | .factor p _ _ => some (p.val, divisions p st.n)
      | _ => none
  | _ => none

def removals (history : List Past) : List (Int × Nat) := history.filterMap removal

-- A division that drops a carry does no harm where nothing is to be divided out and
-- the remainder says so.
def RemovesRightly : Past → Prop
  | .handled env (.client st) _ _ =>
      ∀ p ∈ factorOf env.msg, Spills st.n p → ¬ p.val ∣ st.n.val ∧ st.n.mod p ≠ some 0
  | _ => True

instance : DecidablePred RemovesRightly
  | .handled env (.client st) _ _ => inferInstanceAs
      (Decidable (∀ p ∈ factorOf env.msg, Spills st.n p → ¬ p.val ∣ st.n.val ∧ st.n.mod p ≠ some 0))
  | .handled _ (.manager _) _ _ => .isTrue trivial
  | .handled _ (.worker _) _ _ => .isTrue trivial
  | .started .. => .isTrue trivial
  | .arrived _ => .isTrue trivial

theorem removes_exactly (n p m : Int512) (k c : Nat) (leaves : Client.Leaves n p m k c) (nonzero : p.val ≠ 0)
    (rightly : Spills n p → ¬ p.val ∣ n.val ∧ n.mod p ≠ some 0) : n.val = m.val * p.val ^ k ∧ ¬ p.val ∣ m.val := by
  by_cases spills : Spills n p
  · obtain ⟨indivisible, remains⟩ := rightly spills
    obtain ⟨r, reduced, value⟩ := leaves.divided.mod
    have none : k = 0 := by
      by_contra some
      refine remains ?_
      have whole : r.val = 0 := by
        rw [value, (leaves.removed (Nat.pos_of_ne_zero some)).1]
        exact Int.tmod_eq_zero_of_dvd (Dvd.dvd.mul_left (dvd_pow_self p.val some) m.val)
      rw [reduced, Int512.ext_val r 0 whole]
    obtain ⟨rfl, _⟩ := leaves.kept none
    exact ⟨by rw [none, pow_zero, mul_one], indivisible⟩
  · exact Client.leaves_exact n p m k c leaves nonzero (unspilled_exact n p nonzero spills)

structure Removed (actor : Address) (typed : Int) (history : List Past) (n : Int) : Prop where
  product : typed = n * ((removals history).map fun entry => entry.1 ^ entry.2).prod
  sign : n.sign = typed.sign
  gone : ∀ entry ∈ removals history, ¬ entry.1 ∣ n
  largest : ∀ env st draw tag p cycles cpuTime, .handled env (.client st) draw tag ∈ history →
    env.msg = .factor p cycles cpuTime →
    p.val ^ divisions p st.n ∣ st.n.val ∧ ¬ p.val ^ (divisions p st.n + 1) ∣ st.n.val
  later : ∀ newer event older, history = newer ++ event :: older → ∀ entry, removal event = some entry →
    ∀ request ∈ requestsIn actor (newer ++ [event]), ¬ entry.1 ∣ request.val

section Steps

variable (actor : Address) (typed : Int) (history : List Past) (event : Past) (n : Int)

theorem removals_cons : removals (event :: history) = (removal event).toList ++ removals history := by
  cases found : removal event <;> simp [removals, found]

theorem removed_later (m : Int) (removed : Removed actor typed history n) (divides : m ∣ n)
    (asks : ∀ request ∈ requestsOf (event.effects behaviour actor), request.val = m)
    (own : ∀ entry, removal event = some entry → ¬ entry.1 ∣ m) :
    ∀ newer item older, event :: history = newer ++ item :: older → ∀ entry, removal item = some entry →
      ∀ request ∈ requestsIn actor (newer ++ [item]), ¬ entry.1 ∣ request.val := by
  intro newer item older split entry found request asked
  cases newer with
  | nil =>
      obtain ⟨rfl, _⟩ := List.cons.inj split
      rw [List.nil_append, requestsIn, List.flatMap_singleton] at asked
      rw [asks request asked]
      exact own entry found
  | cons head rest =>
      obtain ⟨rfl, tail⟩ := List.cons.inj split
      rcases List.mem_append.mp asked with now | before
      · have member : entry ∈ removals history := by
          rw [tail]
          exact List.mem_filterMap.mpr ⟨item, by simp, found⟩
        rw [asks request now]
        exact fun back => removed.gone entry member (dvd_trans back divides)
      · exact removed.later rest item older tail entry found request before

theorem removed_quiet (removed : Removed actor typed history n) (other : removal event = none)
    (asks : ∀ request ∈ requestsOf (event.effects behaviour actor), request.val = n) :
    Removed actor typed (event :: history) n := by
  have same : removals (event :: history) = removals history := by rw [removals_cons, other]; rfl
  refine ⟨by rw [same]; exact removed.product, removed.sign, by rw [same]; exact removed.gone, ?_,
    removed_later actor typed history event n n removed (dvd_refl n) asks (fun entry found => by rw [other] at found; cases found)⟩
  intro env st draw tag p cycles cpuTime member isFactor
  rcases List.mem_cons.mp member with here | earlier
  · rw [← here, removal] at other
    simp [isFactor] at other
  · exact removed.largest env st draw tag p cycles cpuTime earlier isFactor

theorem removed_factor (env : Mail) (st : ClientState) (draw : Draw) (tag : Nat) (p m cycles : Int512) (cpuTime : Clock)
    (removed : Removed actor typed history st.n.val) (big : 2 ≤ p.val)
    (isFactor : env.msg = .factor p cycles cpuTime) (power : st.n.val = m.val * p.val ^ divisions p st.n)
    (maximal : ¬ p.val ∣ m.val)
    (asks : ∀ request ∈ requestsOf (Event.effects behaviour actor (.handled env (.client st) draw tag)),
      request.val = m.val) :
    Removed actor typed (.handled env (.client st) draw tag :: history) m.val := by
  have found : removal (.handled env (.client st) draw tag) = some (p.val, divisions p st.n) := by
    rw [removal, isFactor]
  have grown : removals (.handled env (.client st) draw tag :: history) =
      (p.val, divisions p st.n) :: removals history := by
    rw [removals_cons, found]
    rfl
  have divides : m.val ∣ st.n.val := ⟨_, power⟩
  have positive : 0 < p.val ^ divisions p st.n := pow_pos (by omega) _
  have own : ∀ entry, removal (.handled env (.client st) draw tag) = some entry → ¬ entry.1 ∣ m.val := by
    intro entry same
    cases found.symm.trans same
    exact maximal
  refine ⟨?_, ?_, ?_, ?_, removed_later actor typed history _ st.n.val m.val removed divides asks own⟩
  · rw [grown, removed.product, List.map_cons, List.prod_cons, ← mul_assoc, ← power]
  · rw [← removed.sign, power, Int.sign_mul, Int.sign_eq_one_of_pos positive, mul_one]
  · intro entry member
    rw [grown] at member
    rcases List.mem_cons.mp member with here | earlier
    · rw [here]
      exact maximal
    · exact fun back => removed.gone entry earlier (dvd_trans back divides)
  · intro other before drawn mark q count ticks member same
    rcases List.mem_cons.mp member with here | earlier
    · cases here
      cases isFactor.symm.trans same
      refine ⟨⟨m.val, power.trans (mul_comm _ _)⟩, ?_⟩
      rintro ⟨c, more⟩
      refine maximal ⟨c, ?_⟩
      apply mul_right_cancel₀ positive.ne'
      rw [← power, more]
      ring
    · exact removed.largest other before drawn mark q count ticks earlier same

end Steps

section Runs

variable (actor : Address) (typed : Int)

def KeepsAccount (node : Box) : Prop :=
  ∀ n, remaining node = some n → reported actor node.history = false → (∀ event ∈ node.history, RemovesRightly event) →
    Removed actor typed node.history n.val

theorem account_settle (tag : Nat) (r : Step) (mailbox : List Mail) (event : Past) (history : List Past)
    (account : ∀ st, r.outcome = .become (.client st) → reportsOf (event.effects behaviour actor) = false →
      reported actor history = false → RemovesRightly event → (∀ item ∈ history, RemovesRightly item) →
      Removed actor typed (event :: history) st.n.val) :
    KeepsAccount actor typed (Node.settle actor tag r mailbox (event :: history)) := by
  intro n left silent rightly
  rw [Node.settle_history] at silent rightly ⊢
  rw [reported, List.any_cons, Bool.or_eq_false_iff] at silent
  obtain ⟨st, becomes, rfl⟩ := settle_remaining actor tag r mailbox (event :: history) n left
  obtain ⟨now, before⟩ := List.forall_mem_cons.mp rightly
  exact account st becomes silent.1 silent.2 now before

theorem account_arrive (node : Box) (env : Mail) (account : KeepsAccount actor typed node) :
    KeepsAccount actor typed (node.arrive env) := by
  intro n left
  have same : remaining (node.arrive env) = remaining node := by simp only [remaining, Node.arrive_status]
  rw [same] at left
  unfold Node.arrive
  split
  · exact account n left
  · exact account n left
  · intro silent rightly
    exact removed_quiet actor typed node.history (.arrived env) n.val
      (account n left silent (List.forall_mem_cons.mp rightly).2) rfl (by simp [Event.effects, requestsOf])

theorem account_handle (node : Box) (st : ClientState) (draw : Draw) (tag : Nat) (env : Mail) (mailbox : List Mail)
    (account : KeepsAccount actor typed node) (nonzero : typed ≠ 0) (status : node.status = .running (.client st))
    (big : ∀ p cycles cpuTime, env.msg = .factor p cycles cpuTime → 2 ≤ p.val) :
    KeepsAccount actor typed (Node.settle actor tag (Client.react st draw env.msg) mailbox
      (.handled env (.client st) draw tag :: node.history)) := by
  apply account_settle
  intro later becomes silent quiet rightly rightlyBefore
  have before := account st.n (by simp [remaining, status]) quiet rightlyBefore
  have effects : Event.effects behaviour actor (.handled env (.client st) draw tag) =
      (Client.react st draw env.msg).effects := rfl
  cases asked : isFactor env.msg with
  | false =>
      obtain ⟨_, _, none, keeps⟩ := client_quiet st draw env.msg asked
      rw [(keeps later becomes).1]
      refine removed_quiet actor typed node.history _ st.n.val before ?_ (by rw [effects, none]; simp)
      cases same : env.msg <;> simp [removal, same, isFactor] at asked ⊢
  | true =>
      obtain ⟨p, cycles, cpuTime, isFactor⟩ := factor_shape env.msg asked
      have left : st.n.val ≠ 0 := by
        intro zero
        have sign := before.sign
        rw [zero, Int.sign_zero] at sign
        exact nonzero (Int.sign_eq_zero_iff_zero.mp sign.symm)
      rw [effects, isFactor] at silent
      rw [isFactor] at becomes
      have large := big p cycles cpuTime isFactor
      obtain ⟨m, c, leaves, _, ⟨_, reports, _⟩ | ⟨_, _, asks, outcome⟩⟩ :=
        client_divides st draw p cycles cpuTime large left
      · exact absurd silent (by rw [Client.react, reports]; simp)
      · rw [Client.react, outcome] at becomes
        cases becomes
        obtain ⟨power, maximal⟩ :=
          removes_exactly st.n p m _ c leaves (by omega) (rightly p (by rw [isFactor]; rfl))
        refine removed_factor actor typed node.history env st draw tag p m cycles cpuTime before
          large isFactor power maximal ?_
        rw [effects, isFactor, Client.react, asks]
        cases st.server <;> simp

theorem account_run (args : ClientArgs) (nonzero : args.n.val ≠ 0) (node : Box)
    (reached : (clientLts actor args).Reach FactorArrival node) : KeepsAccount actor args.n.val node := by
  refine reach_client actor args (KeepsAccount actor args.n.val) ?_ ?_ ?_ ?_ node reached
  · intro n left _ _
    have same : args.n = n := by simpa [Node.fresh, remaining, typedState] using left
    subst same
    refine ⟨by simp [Node.fresh, removals], rfl, by simp [Node.fresh, removals], by simp [Node.fresh], ?_⟩
    intro newer event older split
    simp [Node.fresh] at split
  · intro node env account
    exact account_arrive actor args.n.val node env account
  · intro node st draw tag account status
    apply account_settle
    intro later becomes _ quiet _ rightly
    have kept : later.n = st.n := by
      rcases (start_client actor tag st draw).2 with quits | connects
      · cases quits.symm.trans becomes
      · cases connects.symm.trans becomes
        rfl
    have before := account st.n (by simp [remaining, status]) quiet rightly
    rw [kept]
    refine removed_quiet actor args.n.val node.history _ st.n.val before rfl ?_
    intro request asked
    have effects : Event.effects behaviour actor (.started (.client st) draw tag) = (Client.start st draw).effects := rfl
    rw [effects, Client.start] at asked
    split at asked
    · simp [requestsOf] at asked
    · have same : request = st.n := by simpa [requestsOf] using asked
      rw [same]
  · intro node st draw tag env mailbox account status big
    exact account_handle actor args.n.val node st draw tag env mailbox account nonzero status big

end Runs

def factorFor (p : Nat) : LocalLabel Address Group Msg Draw :=
  .arrive ⟨.manager 0, some .server, 0, .factor (Int512.ofNat p) 0 0⟩

def threeLimbs : Nat := 2 ^ 128 + 2 ^ 65 - 1

def inexactStart : Nat := modulus - 340282366920938448447724931432193196369

end VsLab
