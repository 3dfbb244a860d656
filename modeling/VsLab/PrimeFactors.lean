import VsLab.FactorList
import VsLab.SliceDivisors
import Mathlib.RingTheory.Int.Basic

set_option autoImplicit false

namespace VsLab

open Actors

def TestedRightly (draw : Draw) (n : Int512) : Prop :=
  n.val.toNat % 2 = 1 → (isProbablePrime draw.bases n = true ↔ n.val.toNat.Prime)

instance (draw : Draw) (n : Int512) : Decidable (TestedRightly draw n) := inferInstanceAs (Decidable (_ → _))

def sliceNumber (node : Box) : Option Int512 :=
  match node.next behaviour with
  | some (.worker st, env) =>
      match env.msg with
      | .continuation n _ _ _ state => if state = st.stateId then some n else none
      | _ => none
  | _ => none

theorem slice_number (node : Box) (st : WorkerState) (env : Mail) (n a cycles : Int512) (cpuTime : Clock)
    (next : node.next behaviour = some (.worker st, env)) (live : env.msg = .continuation n a cycles cpuTime st.stateId) :
    sliceNumber node = some n := by
  simp only [sliceNumber, next, live, if_true]

def RightTestMove (net : Cluster) : Move → Prop
  | .handle self draw => ∀ n ∈ sliceNumber (net.node self), TestedRightly draw n
  | _ => True

def FewPrimesMove (net : Cluster) : Move → Prop
  | .handle self _ => ∀ n ∈ sliceNumber (net.node self), FewPrimes n.val.toNat ∧ Unspilled n
  | _ => True

def SmallMove (net : Cluster) : Move → Prop
  | .handle self draw => ∀ n ∈ sliceNumber (net.node self),
      TestedRightly draw n ∧ FewPrimes n.val.toNat ∧ n.val.natAbs < carryFree
  | _ => True

instance (net : Cluster) (move : Move) : Decidable (RightTestMove net move) :=
  match move with
  | .handle self draw => inferInstanceAs (Decidable (∀ n ∈ sliceNumber (net.node self), TestedRightly draw n))
  | .start _ _ => inferInstanceAs (Decidable True)
  | .dispatch _ => inferInstanceAs (Decidable True)
  | .arrive _ => inferInstanceAs (Decidable True)

instance (net : Cluster) (move : Move) : Decidable (SmallMove net move) :=
  match move with
  | .handle self draw => inferInstanceAs (Decidable (∀ n ∈ sliceNumber (net.node self),
      TestedRightly draw n ∧ FewPrimes n.val.toNat ∧ n.val.natAbs < carryFree))
  | .start _ _ => inferInstanceAs (Decidable True)
  | .dispatch _ => inferInstanceAs (Decidable True)
  | .arrive _ => inferInstanceAs (Decidable True)

def PrimeMove (net : Cluster) (move : Move) : Prop := RightTestMove net move ∧ FewPrimesMove net move

theorem small_prime_move (net : Cluster) (move : Move) (small : SmallMove net move) : PrimeMove net move := by
  cases move with
  | handle self draw =>
      refine ⟨fun n running => (small n running).1, fun n running => ?_⟩
      obtain ⟨_, few, free⟩ := small n running
      exact ⟨few, carry_free_unspilled n free⟩
  | start self draw => exact ⟨trivial, trivial⟩
  | dispatch index => exact ⟨trivial, trivial⟩
  | arrive index => exact ⟨trivial, trivial⟩

def PrimeMsg : Msg → Prop
  | .factor p _ _ => p.val.toNat.Prime
  | _ => True

def PrimeMail (env : Mail) : Prop := PrimeMsg env.msg

def anyState (_ : Address) (_ : ActorState) : Prop := True

section Handlers

variable (self : Address) (tag : Nat)

theorem worker_primes (st : WorkerState) (draw : Draw) (msg : Msg)
    (ready : ∀ n a cycles cpuTime, msg = .continuation n a cycles cpuTime st.stateId →
      0 < n.val ∧ TestedRightly draw n ∧ FewPrimes n.val.toNat ∧ Unspilled n) :
    (Worker.react st draw msg).Sound PrimeMail anyState self tag := by
  have turn := Worker.react_turn st draw msg
  generalize Worker.react st draw msg = r at turn ⊢
  cases turn with
  | ignored _ _ _ => exact ⟨by simp, trivial⟩
  | raised _ n asked zero => exact ⟨by simp, trivial⟩
  | began n a nonzero drawn => exact ⟨by simp [Effect.Fine, PrimeMail, PrimeMsg], trivial⟩
  | went n a cycles later cpuTime nonzero => exact ⟨by simp [Effect.Fine, PrimeMail, PrimeMsg], trivial⟩
  | gaveUp n a cycles cpuTime nonzero sliced => exact ⟨by simp [Effect.Fine, PrimeMail, PrimeMsg], trivial⟩
  | found n a cycles cpuTime p i nonzero big divides tested sliced =>
      obtain ⟨positive, rightly, few, fits⟩ := ready n a cycles cpuTime rfl
      refine ⟨?_, trivial⟩
      simp only [List.mem_singleton, forall_eq]
      change p.val.toNat.Prime
      by_cases same : p = n
      · subst same
        exact (rightly (probable_prime_odd draw.bases p (tested rfl))).mp (tested rfl)
      · exact sent_divisor_prime n p positive big (divides (unspilled_up_to n fits)) same few

theorem manager_primes (st : ManagerState) (msg : Msg) (prime : PrimeMsg msg) :
    (Manager.react st msg).Sound PrimeMail anyState self tag :=
  manager_react_sound _ _ self tag st msg (fun _ _ => trivial) trivial (fun _ _ _ => prime) (fun _ _ => prime)
    (fun _ => trivial) (fun _ => trivial)

theorem client_primes (st : ClientState) (draw : Draw) (msg : Msg)
    (big : ∀ p cycles cpuTime, msg = .factor p cycles cpuTime → 2 ≤ p.val) :
    (Client.react st draw msg).Sound PrimeMail anyState self tag :=
  client_react_sound _ _ self tag st draw msg big (fun _ _ => trivial) (fun _ => trivial)
    (fun _ _ _ _ _ _ _ _ _ _ => ⟨fun _ _ => trivial, fun _ _ => trivial⟩)

theorem start_primes (state : ActorState) (draw : Draw) :
    (behaviour.start self state draw).Sound PrimeMail anyState self tag := by
  cases state with
  | client st => exact client_start_sound _ _ self tag st draw trivial trivial
  | manager st => exact manager_start_sound _ _ self tag st draw trivial trivial
  | worker st => exact ⟨by simp [behaviour], trivial⟩

end Handlers

section Runs

variable (clients : List ClientArgs) (managers : List ManagerArgs)

theorem run_primes (typed : ∀ args ∈ clients, 2 ≤ args.n.val) (net : Cluster)
    (reached : (system clients managers).Reach PrimeMove net) : net.Sound PrimeMail anyState := by
  refine reach_sound _ _ behaviour _ PrimeMove ?_ ?_ ?_ net reached
  · exact initial_sound _ _ clients managers (fun _ _ _ => trivial) (fun _ _ _ => trivial)
  · intro _ self draw state tag _ _ _ _
    exact start_primes self tag state draw
  · intro before self draw state env tag earlier few next _ prime
    obtain ⟨_, origin⟩ := next_origin clients managers PrimeMove before self state env earlier next
    cases state with
    | client st =>
        refine client_primes self tag st draw env.msg ?_
        intro p cycles cpuTime isFactor
        rw [isFactor] at origin
        exact origin.1
    | manager st => exact manager_primes self tag st env.msg prime
    | worker st =>
        refine worker_primes self tag st draw env.msg ?_
        intro n a cycles cpuTime isContinuation
        have running := slice_number _ st env n a cycles cpuTime next isContinuation
        refine ⟨?_, few.1 n running, few.2 n running⟩
        rw [isContinuation] at origin
        obtain ⟨args, member, derived⟩ := origin
        exact derived.positive (by have := typed args member; omega)

theorem client_entries (st : ClientState) (draw : Draw) (msg : Msg) (q : Int)
    (listed : q ∈ entriesOf (Client.react st draw msg).effects) :
    ∃ p cycles cpuTime, msg = .factor p cycles cpuTime ∧ q = p.val := by
  have turn := Client.react_turn st draw msg
  generalize Client.react st draw msg = r at turn listed
  cases turn with
  | ignored _ other => cases listed
  | left => cases listed
  | pinged => simp at listed
  | waited cpuTime => cases listed
  | divided p cycles cpuTime =>
      refine ⟨p, cycles, cpuTime, rfl, ?_⟩
      have once : ∀ q : Int512, entriesOf [.print (.entry q)] = [q.val] := fun _ => rfl
      have report : ∀ (ticks : Clock) (total : Int512), entriesOf [.print (.report ticks total)] = [] := fun _ _ => rfl
      simp only [Client.factor] at listed
      split at listed
      · simpa [once] using listed
      · simpa [once] using listed
      · split at listed
        · simpa using listed
        · split at listed
          · simpa [report] using listed
          · simpa using listed

theorem printed_factors_prime (typed : ∀ args ∈ clients, 2 ≤ args.n.val) (net : Cluster)
    (reached : (system clients managers).Reach PrimeMove net) (index : Nat) :
    ∀ q ∈ factorList (.client index) (net.node (.client index)).history, Prime q := by
  intro q listed
  obtain ⟨event, member, entry⟩ := List.mem_flatMap.mp listed
  have prime := ((run_primes clients managers typed net reached).nodes (.client index)).history event member
  have origin := ((system_origin clients managers PrimeMove net reached).nodes (.client index)).history event member
  cases event with
  | arrived env => cases entry
  | started state draw tag =>
      cases state with
      | client st =>
          simp only [Event.effects, behaviour, Client.start] at entry
          split at entry <;> cases entry
      | manager st => exact False.elim origin
      | worker st => exact False.elim origin
  | handled env state draw tag =>
      cases state with
      | client st =>
          obtain ⟨p, cycles, cpuTime, isFactor, same⟩ := client_entries st draw env.msg q entry
          have large := origin.1
          have isPrime := prime.1
          simp only [MailOrigin, PrimeMail, isFactor] at large isPrime
          rw [same, ← Int.toNat_of_nonneg (by have := large.1; omega : 0 ≤ p.val)]
          exact Nat.prime_iff_prime_int.mp isPrime
      | manager st => exact False.elim origin.2
      | worker st => exact False.elim origin.2

end Runs

theorem printed_prime_fifteen : ∃ net : Cluster,
    (∀ args ∈ [typing 15], 2 ≤ args.n.val) ∧ (system [typing 15] [offering 1]).Reach PrimeMove net ∧
      factorList (.client 0) (net.node (.client 0)).history = [3, 3] ∧ Prime (3 : Int) := by
  obtain ⟨net, small, passed⟩ := (system [typing 15] [offering 1]).run_finds SmallMove
    (requestToWorker ++ workerAnswers 0 0 ++ answerToClient)
    (fun net => decide (factorList (.client 0) (net.node (.client 0)).history = [3, 3])) (by decide +kernel)
  have typed : ∀ args ∈ [typing 15], 2 ≤ args.n.val := by
    intro args member
    rw [List.mem_singleton.mp member]
    decide +kernel
  have reached := (system [typing 15] [offering 1]).reach_mono SmallMove PrimeMove small_prime_move net small
  have entries := of_decide_eq_true passed
  refine ⟨net, typed, reached, entries, ?_⟩
  exact printed_factors_prime [typing 15] [offering 1] typed net reached 0 3 (by rw [entries]; decide)

theorem printed_composite_eight : ∃ net : Cluster,
    (∀ args ∈ [typing 8], 2 ≤ args.n.val) ∧ (system [typing 8] [offering 1]).Reach RightTestMove net ∧
      4 ∈ factorList (.client 0) (net.node (.client 0)).history ∧ ¬ Prime (4 : Int) := by
  obtain ⟨net, reached, passed⟩ := (system [typing 8] [offering 1]).run_finds RightTestMove
    (requestToWorker ++ workerAnswers 1 7 ++ answerToClient)
    (fun net => decide (4 ∈ factorList (.client 0) (net.node (.client 0)).history)) (by decide +kernel)
  refine ⟨net, ?_, reached, of_decide_eq_true passed, ?_⟩
  · intro args member
    rw [List.mem_singleton.mp member]
    decide +kernel
  · rw [show (4 : Int) = ((4 : Nat) : Int) from rfl, ← Nat.prime_iff_prime_int]
    decide

end VsLab
