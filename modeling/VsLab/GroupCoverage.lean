import VsLab.GroupOrder

set_option autoImplicit false

namespace VsLab.Groups

open Actors

variable {T N A E : Type}

def Dissemination.due [DecidableEq N] (d : Dissemination T N A E) (n : N) : List E :=
  match d.broker with
  | .acquaintances env rest => if n ∈ rest then [env] else []
  | _ => []

def Remote.awaited [DecidableEq A] (r : Remote T A N E) (a : A) : List E :=
  match r.proxy with
  | .serving env rest => if a ∈ rest then [env] else []
  | .idle => []

structure Kept [DecidableEq N] (d : Dissemination T N A E) (n : N) : Prop where
  base : (d.joined n).1 ≤ d.order.length
  since : ∃ old, old.length = (d.joined n).2 ∧ (d.remote n).stream ++ d.due n = old ++ d.order.drop (d.joined n).1

def Covered [DecidableEq N] (d : Dissemination T N A E) : Prop := ∀ n ∈ d.acquaintances, (d.remote n).connected = true → Kept d n

section Covered

variable [DecidableEq N]

variable (host : A → Option N) {label : Label T N A E} (d after : Dissemination T N A E)

theorem covered_frame (acquaintances : ∀ n ∈ after.acquaintances, n ∈ d.acquaintances)
    (due : ∀ n, after.due n = d.due n) (order : after.order = d.order) (joined : after.joined = d.joined)
    (remote : ∀ n, (after.remote n).connected = true →
      (d.remote n).connected = true ∧ (after.remote n).stream = (d.remote n).stream)
    (covered : Covered d) : Covered after := by
  intro n member online
  obtain ⟨before, stream⟩ := remote n online
  obtain ⟨base, since⟩ := covered n (acquaintances n member) before
  refine ⟨?_, ?_⟩
  · rw [joined, order]
    exact base
  · rw [joined, order, stream, due n]
    exact since

theorem covered_remote (n : N) (r : Remote T A N E) (acquaintances : after.acquaintances = d.acquaintances)
    (broker : after.broker = d.broker) (order : after.order = d.order) (joined : after.joined = d.joined)
    (remote : after.remote = (d.setRemote n r).remote)
    (same : r.connected = true → (d.remote n).connected = true ∧ r.stream = (d.remote n).stream)
    (covered : Covered d) : Covered after := by
  refine covered_frame d after (fun m member => acquaintances ▸ member) (fun m => ?_) order joined ?_ covered
  · rw [Dissemination.due, Dissemination.due, broker]
  · rw [remote]
    exact remote_all d n r
      (fun m now => now.connected = true → (d.remote m).connected = true ∧ now.stream = (d.remote m).stream)
      (fun m online => ⟨online, rfl⟩) same

theorem covered_pass (env : E) (nothing : ∀ n, d.due n = []) (acquaintances : after.acquaintances = d.acquaintances)
    (broker : after.broker = .acquaintances env d.acquaintances) (order : after.order = d.order ++ [env])
    (joined : after.joined = d.joined) (remote : after.remote = d.remote) (covered : Covered d) : Covered after := by
  intro n member online
  rw [acquaintances] at member
  rw [remote] at online
  obtain ⟨base, old, length, since⟩ := covered n member online
  refine ⟨?_, old, ?_, ?_⟩
  · rw [joined, order, List.length_append]
    exact Nat.le_add_right_of_le base
  · rw [joined]
    exact length
  · have isDue : after.due n = [env] := by
      rw [Dissemination.due, broker]
      exact if_pos member
    rw [nothing n, List.append_nil] at since
    rw [isDue, remote, joined, order, since, List.drop_append_of_le_length base, List.append_assoc]

theorem covered_send (env : E) (n : N) (rest : List N) (passing : d.broker = .acquaintances env (n :: rest))
    (new : n ∉ rest) (r : Remote T A N E) (sameLine : r.connected = (d.remote n).connected)
    (sent : r.connected = true → r.stream = (d.remote n).stream ++ [env]) (covered : Covered d) :
    Covered { d.setRemote n r with broker := .acquaintances env rest } := by
  intro m member online
  change ((d.setRemote n r).remote m).connected = true at online
  by_cases same : m = n
  · subst same
    rw [remote_here] at online
    obtain ⟨base, old, length, since⟩ := covered m member (sameLine ▸ online)
    refine ⟨base, old, length, ?_⟩
    change ((d.setRemote m r).remote m).stream ++ _ = _
    have wasDue : d.due m = [env] := by
      rw [Dissemination.due, passing]
      exact if_pos (by simp)
    rw [wasDue] at since
    simp only [Dissemination.due, if_neg new, List.append_nil]
    rw [remote_here, sent online]
    exact since
  · rw [remote_other d n m r same] at online
    obtain ⟨base, old, length, since⟩ := covered m member online
    refine ⟨base, old, length, ?_⟩
    change ((d.setRemote n r).remote m).stream ++ _ = _
    rw [remote_other d n m r same]
    have sameDue : Dissemination.due { d.setRemote n r with broker := .acquaintances env rest } m = d.due m := by
      rw [Dissemination.due, Dissemination.due, passing]
      simp [same]
    rw [sameDue]
    exact since

theorem covered_joined (n : N) (box : List (BrokerMsg N E)) (idle : d.broker = .idle) (covered : Covered d) :
    Covered { d with
      box := box, acquaintances := d.acquaintances ++ [n]
      joined := Function.update d.joined n (d.order.length, (d.remote n).stream.length) } := by
  intro m member online
  by_cases same : m = n
  · subst same
    refine ⟨?_, (d.remote m).stream, ?_, ?_⟩
    · simp only [Function.update_self]
      exact le_rfl
    · simp only [Function.update_self]
    · have nothing : Dissemination.due { d with
          box := box, acquaintances := d.acquaintances ++ [m]
          joined := Function.update d.joined m (d.order.length, (d.remote m).stream.length) } m = [] := by
        rw [Dissemination.due, idle]
      rw [nothing]
      simp only [Function.update_self, List.drop_length]
  · have known : m ∈ d.acquaintances := by simpa [same] using member
    obtain ⟨base, since⟩ := covered m known online
    refine ⟨?_, ?_⟩
    · simp only [Function.update_of_ne same]
      exact base
    · simp only [Function.update_of_ne same]
      exact since

theorem covered_step [DecidableEq T] [DecidableEq A]
    (step : Step host d label after) (streams : Streams d) (covered : Covered d) : Covered after := by
  have unmoved (n : N) (online : (d.remote n).connected = true) :
      (d.remote n).connected = true ∧ (d.remote n).stream = (d.remote n).stream := ⟨online, rfl⟩
  have known (n : N) (member : n ∈ d.acquaintances) : n ∈ d.acquaintances := member
  cases step with
  | publish t env idle new => exact covered_frame d _ known (fun _ => rfl) rfl rfl unmoved covered
  | serve t env a rest pc => exact covered_frame d _ known (fun _ => rfl) rfl rfl unmoved covered
  | handOver t env pc => exact covered_frame d _ known (fun _ => rfl) rfl rfl unmoved covered
  | subscribe a here new => exact covered_frame d _ known (fun _ => rfl) rfl rfl unmoved covered
  | unsubscribe a => exact covered_frame d _ known (fun _ => rfl) rfl rfl unmoved covered
  | forward n env online new => exact covered_remote d _ n _ rfl rfl rfl rfl rfl (unmoved n) covered
  | join n t a unlocked idle here new => exact covered_remote d _ n _ rfl rfl rfl rfl rfl (unmoved n) covered
  | leave n t a unlocked idle there => exact covered_remote d _ n _ rfl rfl rfl rfl rfl (unmoved n) covered
  | tell n t msg pc => exact covered_remote d _ n _ rfl rfl rfl rfl rfl (unmoved n) covered
  | carry n msg rest coming => exact covered_remote d _ n _ rfl rfl rfl rfl rfl (unmoved n) covered
  | joinedAgain n rest idle next already => exact covered_frame d _ known (fun _ => rfl) rfl rfl unmoved covered
  | joined n rest idle next new => exact covered_joined d n _ idle covered
  | left n msg rest idle next goes =>
      exact covered_frame d _ (fun m member => List.mem_of_mem_erase member) (fun _ => rfl) rfl rfl unmoved covered
  | forwarded env rest idle next =>
      refine covered_frame d _ known (fun n => ?_) rfl rfl unmoved covered
      rw [Dissemination.due, Dissemination.due, idle]
  | others env rest idle next =>
      refine covered_pass d _ env (fun n => ?_) rfl rfl rfl rfl rfl covered
      rw [Dissemination.due, idle]
  | brokerServes env a rest pc =>
      refine covered_frame d _ known (fun n => ?_) rfl rfl unmoved covered
      rw [Dissemination.due, Dissemination.due, pc]
      rfl
  | brokerTurns env pc =>
      refine covered_pass d _ env (fun n => ?_) rfl rfl rfl rfl rfl covered
      rw [Dissemination.due, pc]
  | brokerSends env n rest pc =>
      have new : n ∉ rest := (List.nodup_cons.mp (streams.passing env _ pc).1).1
      refine covered_send d env n rest pc new _ rfl (fun online => ?_) covered
      have wired : (d.remote n).connected = true := online
      simp [Remote.stream, wired]
  | brokerDone env pc =>
      refine covered_frame d _ known (fun n => ?_) rfl rfl unmoved covered
      rw [Dissemination.due, Dissemination.due, pc]
      simp
  | arrive n env rest coming =>
      refine covered_remote d _ n _ rfl rfl rfl rfl rfl (fun online => ⟨online, ?_⟩) covered
      simp [Remote.stream, coming]
  | deliver n env rest idle next =>
      refine covered_remote d _ n _ rfl rfl rfl rfl rfl (fun online => ⟨online, ?_⟩) covered
      simp [Remote.stream, next]
  | proxyServes n env a rest pc => exact covered_remote d _ n _ rfl rfl rfl rfl rfl (unmoved n) covered
  | proxyDone n env pc => exact covered_remote d _ n _ rfl rfl rfl rfl rfl (unmoved n) covered
  | disconnect n online => exact covered_remote d _ n _ rfl rfl rfl rfl rfl (by simp) covered

end Covered

structure Informed [DecidableEq A] (d : Dissemination T N A E) (n : N) (a : A) : Prop where
  base : d.since a ≤ (d.remote n).taken.length
  since : (d.remote n).taken.drop (d.since a) <:+ d.received a ++ (d.remote n).awaited a

def CaughtUp [DecidableEq A] (d : Dissemination T N A E) : Prop := ∀ n, ∀ a ∈ (d.remote n).subscribers, Informed d n a

section CaughtUp

variable [DecidableEq A]

variable (host : A → Option N) {label : Label T N A E} (d after : Dissemination T N A E)

theorem caught_frame (same : ∀ n, ∀ a ∈ (after.remote n).subscribers, a ∈ (d.remote n).subscribers ∧
      after.since a = d.since a ∧ after.received a = d.received a ∧ (after.remote n).taken = (d.remote n).taken ∧
        (after.remote n).awaited a = (d.remote n).awaited a) (caught : CaughtUp d) : CaughtUp after := by
  intro n a member
  obtain ⟨before, since, received, taken, awaited⟩ := same n a member
  obtain ⟨base, all⟩ := caught n a before
  refine ⟨?_, ?_⟩
  · rw [since, taken]
    exact base
  · rw [since, taken, received, awaited]
    exact all

theorem caught_remote [DecidableEq N] (n : N) (r : Remote T A N E) (remote : after.remote = (d.setRemote n r).remote)
    (subscribers : ∀ a ∈ r.subscribers, a ∈ (d.remote n).subscribers) (taken : r.taken = (d.remote n).taken)
    (awaited : ∀ a, r.awaited a = (d.remote n).awaited a) (since : after.since = d.since)
    (received : after.received = d.received) (caught : CaughtUp d) : CaughtUp after := by
  refine caught_frame d after ?_ caught
  rw [remote, since, received]
  exact remote_all d n r (fun m now => ∀ a ∈ now.subscribers, a ∈ (d.remote m).subscribers ∧ d.since a = d.since a ∧
      d.received a = d.received a ∧ now.taken = (d.remote m).taken ∧ now.awaited a = (d.remote m).awaited a)
    (fun m a member => ⟨member, rfl, rfl, rfl, rfl⟩)
    (fun a member => ⟨subscribers a member, rfl, rfl, taken, awaited a⟩)

theorem caught_local (a : A) (env : E) (here : host a = none) (received : after.received = (d.receive a env).received)
    (remote : after.remote = d.remote) (since : after.since = d.since) (fine : ∀ n, RemoteOk host n (d.remote n))
    (caught : CaughtUp d) : CaughtUp after := by
  refine caught_frame d after (fun n b member => ?_) caught
  rw [remote] at member
  have other : b ≠ a := by
    rintro rfl
    rw [(fine n).hosted b member] at here
    cases here
  rw [remote, since, received]
  exact ⟨member, rfl, Function.update_of_ne other _ _, rfl, rfl⟩

theorem caught_join [DecidableEq N]
    (n : N) (a : A) (r : Remote T A N E) (here : host a = some n) (new : a ∉ (d.remote n).subscribers)
    (subscribers : r.subscribers = (d.remote n).subscribers ++ [a]) (taken : r.taken = (d.remote n).taken)
    (proxy : r.proxy = (d.remote n).proxy) (fine : ∀ m, RemoteOk host m (d.remote m)) (caught : CaughtUp d) :
    CaughtUp { d.setRemote n r with since := Function.update d.since a (d.remote n).taken.length } := by
  have awaited (b : A) : r.awaited b = (d.remote n).awaited b := by rw [Remote.awaited, Remote.awaited, proxy]
  intro m b member
  change b ∈ ((d.setRemote n r).remote m).subscribers at member
  by_cases mine : b = a
  · subst mine
    have there : m = n := by
      by_contra other
      rw [remote_other d n m r other] at member
      exact other (Option.some.inj (((fine m).hosted b member).symm.trans here))
    subst there
    constructor
    · change Function.update d.since b _ b ≤ ((d.setRemote m r).remote m).taken.length
      rw [remote_here, taken, Function.update_self]
    · change ((d.setRemote m r).remote m).taken.drop (Function.update d.since b _ b) <:+ _
      rw [remote_here, taken, Function.update_self, List.drop_length]
      exact List.nil_suffix
  · have known : b ∈ (d.remote m).subscribers := by
      by_cases there : m = n
      · rw [there, remote_here, subscribers] at member
        rw [there]
        simpa [mine] using member
      · rwa [remote_other d n m r there] at member
    obtain ⟨base, since⟩ := caught m b known
    have same : ((d.setRemote n r).remote m).taken = (d.remote m).taken ∧
        ((d.setRemote n r).remote m).awaited b = (d.remote m).awaited b :=
      remote_all d n r (fun m now => now.taken = (d.remote m).taken ∧ now.awaited b = (d.remote m).awaited b)
        (fun _ => ⟨rfl, rfl⟩) ⟨taken, awaited b⟩ m
    constructor
    · change Function.update d.since a _ b ≤ ((d.setRemote n r).remote m).taken.length
      rw [same.1, Function.update_of_ne mine]
      exact base
    · change ((d.setRemote n r).remote m).taken.drop (Function.update d.since a _ b) <:+
        d.received b ++ ((d.setRemote n r).remote m).awaited b
      rw [same.1, same.2, Function.update_of_ne mine]
      exact since

theorem caught_deliver [DecidableEq N]
    (n : N) (env : E) (rest : List E) (idle : (d.remote n).proxy = .idle) (caught : CaughtUp d) :
    CaughtUp (d.setRemote n { d.remote n with
      inbox := rest, proxy := .serving env (d.remote n).subscribers, taken := (d.remote n).taken ++ [env] }) := by
  intro m a
  have unmoved : ∀ m, a ∈ (d.remote m).subscribers → d.since a ≤ (d.remote m).taken.length ∧
      (d.remote m).taken.drop (d.since a) <:+ d.received a ++ (d.remote m).awaited a :=
    fun m member => ⟨(caught m a member).base, (caught m a member).since⟩
  have now := remote_all d n { d.remote n with
      inbox := rest, proxy := .serving env (d.remote n).subscribers, taken := (d.remote n).taken ++ [env] }
    (fun m now => a ∈ now.subscribers → d.since a ≤ now.taken.length ∧
      now.taken.drop (d.since a) <:+ d.received a ++ now.awaited a) unmoved ?_ m
  · exact fun member => ⟨(now member).1, (now member).2⟩
  · intro member
    obtain ⟨base, since⟩ := caught n a member
    have nothing : (d.remote n).awaited a = [] := by rw [Remote.awaited, idle]
    rw [nothing, List.append_nil] at since
    refine ⟨?_, ?_⟩
    · rw [List.length_append]
      exact Nat.le_add_right_of_le base
    · simp only [Remote.awaited]
      rw [if_pos member, List.drop_append_of_le_length base]
      obtain ⟨before, split⟩ := since
      exact ⟨before, by rw [← split, List.append_assoc]⟩

theorem caught_serves [DecidableEq N]
    (n : N) (env : E) (a : A) (rest : List A) (pc : (d.remote n).proxy = .serving env (a :: rest))
    (fine : ∀ m, RemoteOk host m (d.remote m)) (caught : CaughtUp d) :
    CaughtUp ((d.setRemote n { d.remote n with proxy := .serving env rest }).receive a env) := by
  obtain ⟨distinct, here, _⟩ := (fine n).serving env _ pc
  have notLater := (List.nodup_cons.mp distinct).1
  intro m b
  have frame (m : N) (member : b ∈ (d.remote m).subscribers) (other : m ≠ n) : b ≠ a := by
    rintro rfl
    exact other (Option.some.inj (((fine m).hosted b member).symm.trans (here b (by simp))))
  change b ∈ ((d.setRemote n _).remote m).subscribers → _
  intro member
  have known : b ∈ (d.remote m).subscribers := by
    by_cases there : m = n
    · rw [there, remote_here] at member
      rw [there]
      exact member
    · rwa [remote_other d n m _ there] at member
  have taken : ((d.setRemote n { d.remote n with proxy := .serving env rest }).remote m).taken = (d.remote m).taken :=
    remote_all d n { d.remote n with proxy := .serving env rest } (fun m now => now.taken = (d.remote m).taken)
      (fun _ => rfl) rfl m
  obtain ⟨base, since⟩ := caught m b known
  constructor
  · change d.since b ≤ ((d.setRemote n _).remote m).taken.length
    rw [taken]
    exact base
  · change ((d.setRemote n _).remote m).taken.drop (d.since b) <:+
      Function.update d.received a (d.received a ++ [env]) b ++ ((d.setRemote n _).remote m).awaited b
    rw [taken]
    by_cases mine : b = a
    · subst mine
      have there : m = n := by
        by_contra other
        exact frame m known other rfl
      subst there
      rw [Remote.awaited, pc] at since
      simp only [List.mem_cons, true_or, if_true] at since
      rw [Function.update_self, remote_here, Remote.awaited]
      simp only [if_neg notLater, List.append_nil]
      exact since
    · rw [Function.update_of_ne mine]
      have awaited : ((d.setRemote n { d.remote n with proxy := .serving env rest }).remote m).awaited b =
          (d.remote m).awaited b := by
        refine remote_all d n _ (fun m now => now.awaited b = (d.remote m).awaited b) (fun _ => rfl) ?_ m
        rw [Remote.awaited, Remote.awaited, pc]
        simp [mine]
      rw [awaited]
      exact since

theorem caught_step [DecidableEq T] [DecidableEq N]
    (step : Step host d label after) (home : HomeOk host d) (fine : ∀ n, RemoteOk host n (d.remote n))
    (caught : CaughtUp d) : CaughtUp after := by
  cases step with
  | serve t env a rest pc =>
      exact caught_local host d _ a env ((home.publishers t env _ pc).2 a (by simp)) rfl rfl rfl fine caught
  | brokerServes env a rest pc =>
      exact caught_local host d _ a env ((home.broker env _ pc).2 a (by simp)) rfl rfl rfl fine caught
  | forward n env online new => exact caught_remote d _ n _ rfl (fun _ => id) rfl (fun _ => rfl) rfl rfl caught
  | join n t a unlocked idle here new => exact caught_join host d n a _ here new rfl rfl rfl fine caught
  | leave n t a unlocked idle there =>
      exact caught_remote d _ n _ rfl (fun b member => List.mem_of_mem_erase member) rfl (fun _ => rfl) rfl rfl caught
  | tell n t msg pc => exact caught_remote d _ n _ rfl (fun _ => id) rfl (fun _ => rfl) rfl rfl caught
  | carry n msg rest coming => exact caught_remote d _ n _ rfl (fun _ => id) rfl (fun _ => rfl) rfl rfl caught
  | brokerSends env n rest pc => exact caught_remote d _ n _ rfl (fun _ => id) rfl (fun _ => rfl) rfl rfl caught
  | arrive n env rest coming => exact caught_remote d _ n _ rfl (fun _ => id) rfl (fun _ => rfl) rfl rfl caught
  | disconnect n online => exact caught_remote d _ n _ rfl (fun _ => id) rfl (fun _ => rfl) rfl rfl caught
  | deliver n env rest idle next => exact caught_deliver d n env rest idle caught
  | proxyServes n env a rest pc => exact caught_serves host d n env a rest pc fine caught
  | proxyDone n env pc =>
      refine caught_remote d _ n _ rfl (fun _ => id) rfl (fun a => ?_) rfl rfl caught
      rw [Remote.awaited, Remote.awaited, pc]
      simp
  | _ => exact caught_frame d _ (fun _ _ member => ⟨member, rfl, rfl, rfl, rfl⟩) caught

end CaughtUp

section Delivery

variable [DecidableEq T] [DecidableEq N] [DecidableEq A] [DecidableEq E] [Fintype T]

variable (host : A → Option N)

def Dissemination.inFlight (d : Dissemination T N A E) (n : N) (a : A) : List E :=
  (d.remote n).awaited a ++ (d.remote n).inbox ++ (d.remote n).wire ++ d.due n

theorem coverage_run (d : Dissemination T N A E) (reached : (groupLts host).Reach Lts.anyStep d) :
    Covered d ∧ CaughtUp d := by
  refine (groupLts host).reach_invariant Lts.anyStep (fun d => Covered d ∧ CaughtUp d) ?_ ?_ d reached
  · exact ⟨by simp [Covered, groupLts, vacant], by simp [CaughtUp, groupLts, vacant, vacantRemote]⟩
  · intro d label after before both _ taken
    obtain ⟨covered, caught⟩ := both
    have step := step_cases host d after label taken
    have orderly := orderly_run host d before
    exact ⟨covered_step host d after step orderly.streams covered,
      caught_step host d after step orderly.home orderly.remote caught⟩

theorem nothing_missed (d : Dissemination T N A E) (reached : (groupLts host).Reach Lts.anyStep d) (n : N)
    (online : (d.remote n).connected = true) (known : n ∈ d.acquaintances) (a : A)
    (subscribed : a ∈ (d.remote n).subscribers) :
    d.order.drop ((d.joined n).1 + (d.since a - (d.joined n).2)) <:+ d.received a ++ d.inFlight n a := by
  obtain ⟨covered, caught⟩ := coverage_run host d reached
  obtain ⟨_, old, length, kept⟩ := covered n known online
  obtain ⟨base, before, given⟩ := caught n a subscribed
  have later : (d.remote n).taken.drop (d.since a) ++ ((d.remote n).inbox ++ ((d.remote n).wire ++ d.due n)) =
      old.drop (d.since a) ++ (d.order.drop (d.joined n).1).drop (d.since a - old.length) := by
    rw [← List.drop_append, ← kept, Remote.stream, List.append_assoc, List.append_assoc,
      List.drop_append_of_le_length base]
  refine ⟨before ++ old.drop (d.since a), ?_⟩
  rw [← List.drop_drop, ← length, List.append_assoc, ← later, ← List.append_assoc, given]
  simp only [Dissemination.inFlight, List.append_assoc]

end Delivery

theorem nothing_missed_two_messages : ∃ d : Dissemination Bool Unit Nat Nat, (groupLts sampleHost).Reach Lts.anyStep d ∧
    d.order.drop ((d.joined ()).1 + (d.since 7 - (d.joined ()).2)) = [60, 50] ∧
      [60, 50] <:+ d.received 7 ++ d.inFlight () 7 := by
  obtain ⟨d, reached, done⟩ := (groupLts sampleHost).run_finds Lts.anyStep sampleRun
    (fun d => (d.remote ()).connected = true ∧ () ∈ d.acquaintances ∧ 7 ∈ (d.remote ()).subscribers ∧
      d.order.drop ((d.joined ()).1 + (d.since 7 - (d.joined ()).2)) = [60, 50]) (by decide)
  obtain ⟨online, known, subscribed, since⟩ := of_decide_eq_true done
  have all := nothing_missed sampleHost d reached () online known 7 subscribed
  rw [since] at all
  exact ⟨d, reached, since, all⟩

section Located

variable (host : A → Option N) {label : Label T N A E} (d after : Dissemination T N A E)

def Located : Prop := (∀ n, (d.remote n).connected = true) → ∀ env ∈ d.published, ∃ p, At d env p

structure Holds : Prop where
  publishers : ∀ t env rest, d.publishers t = .serving env rest → ∃ p, At after env p
  upstream : ∀ n env, .forward env ∈ (d.remote n).upstream → ∃ p, At after env p
  forwarded : ∀ env, .forward env ∈ d.box → ∃ p, At after env p
  boxed : ∀ env, .other env ∈ d.box → ∃ p, At after env p
  broker : ∀ env rest, d.broker = .subscribers env rest → ∃ p, At after env p
  order : ∀ env ∈ d.order, env ∈ after.order

theorem holds_located (holds : Holds d after) (env : E) (p : Place T N) (here : At d env p) : ∃ q, At after env q := by
  cases p with
  | publishing t =>
      obtain ⟨rest, now⟩ := here
      exact holds.publishers t env rest now
  | upstream n => exact holds.upstream n env here
  | forwarded => exact holds.forwarded env here
  | boxed => exact holds.boxed env here
  | serving =>
      obtain ⟨rest, now⟩ := here
      exact holds.broker env rest now
  | ordered => exact ⟨.ordered, holds.order env here⟩

theorem holds_frame (publishers : after.publishers = d.publishers) (broker : after.broker = d.broker)
    (order : after.order = d.order)
    (box : ∀ env, (.forward env ∈ d.box → .forward env ∈ after.box) ∧ (.other env ∈ d.box → .other env ∈ after.box))
    (upstream : ∀ n env, .forward env ∈ (d.remote n).upstream → .forward env ∈ (after.remote n).upstream) :
    Holds d after where
  publishers t _ rest now := ⟨.publishing t, rest, publishers ▸ now⟩
  upstream n env here := ⟨.upstream n, upstream n env here⟩
  forwarded env here := ⟨.forwarded, (box env).1 here⟩
  boxed env here := ⟨.boxed, (box env).2 here⟩
  broker _ rest now := ⟨.serving, rest, broker ▸ now⟩
  order _ here := order ▸ here

theorem holds_remote [DecidableEq N] (n : N) (r : Remote T A N E) (publishers : after.publishers = d.publishers)
    (broker : after.broker = d.broker) (order : after.order = d.order) (box : after.box = d.box)
    (remote : after.remote = (d.setRemote n r).remote)
    (upstream : ∀ env, .forward env ∈ (d.remote n).upstream → .forward env ∈ r.upstream) : Holds d after := by
  refine holds_frame d after publishers broker order (fun env => by simp [box]) fun m env => ?_
  rw [remote]
  exact remote_all d n r (fun m now => .forward env ∈ (d.remote m).upstream → .forward env ∈ now.upstream)
    (fun _ => id) (upstream env) m

theorem holds_taken (msg : BrokerMsg N E) (rest : List (BrokerMsg N E)) (next : d.box = msg :: rest)
    (silent : ∀ env, msg ≠ .forward env ∧ msg ≠ .other env) (publishers : after.publishers = d.publishers)
    (broker : after.broker = d.broker) (order : after.order = d.order) (remote : after.remote = d.remote)
    (box : rest.Sublist after.box) : Holds d after := by
  refine holds_frame d after publishers broker order (fun env => ?_) (fun n env here => remote ▸ here)
  rw [next]
  refine ⟨fun here => box.subset ?_, fun here => box.subset ?_⟩
  · exact (List.mem_cons.mp here).resolve_left fun same => (silent env).1 same.symm
  · exact (List.mem_cons.mp here).resolve_left fun same => (silent env).2 same.symm

theorem publishers_kept [DecidableEq T]
    (t : T) (pc : Serving A E) (publishers : after.publishers = Function.update d.publishers t pc)
    (here : ∀ env rest, d.publishers t = .serving env rest → ∃ p, At after env p) (u : T) (env : E) (rest : List A)
    (now : d.publishers u = .serving env rest) : ∃ p, At after env p := by
  by_cases same : u = t
  · exact here env rest (same ▸ now)
  · refine ⟨.publishing u, rest, ?_⟩
    rw [publishers, Function.update_of_ne same]
    exact now

theorem holds_step [DecidableEq T] [DecidableEq N] [DecidableEq A]
    (step : Step host d label after) (online : ∀ n, (after.remote n).connected = true) : Holds d after := by
  have unserved (busy : ∃ env rest, d.broker = .acquaintances env rest) (env : E) (rest : List A)
      (now : d.broker = .subscribers env rest) : ∃ p, At after env p := by
    obtain ⟨_, _, other⟩ := busy
    rw [other] at now
    cases now
  cases step with
  | publish t env idle new =>
      refine ⟨publishers_kept d _ t _ rfl ?_, fun n _ here => ⟨.upstream n, here⟩, fun _ here => ⟨.forwarded, here⟩,
        fun _ here => ⟨.boxed, here⟩, fun _ rest now => ⟨.serving, rest, now⟩, fun _ => id⟩
      intro other rest now
      rw [idle] at now
      cases now
  | serve t env a rest pc =>
      refine ⟨publishers_kept d _ t _ rfl ?_, fun n _ here => ⟨.upstream n, here⟩, fun _ here => ⟨.forwarded, here⟩,
        fun _ here => ⟨.boxed, here⟩, fun _ rest now => ⟨.serving, rest, now⟩, fun _ => id⟩
      intro other left now
      rw [pc] at now
      cases now
      exact ⟨.publishing t, rest, Function.update_self _ _ _⟩
  | handOver t env pc =>
      refine ⟨publishers_kept d _ t _ rfl ?_, fun n _ here => ⟨.upstream n, here⟩,
        fun _ here => ⟨.forwarded, List.mem_append_left _ here⟩, fun _ here => ⟨.boxed, List.mem_append_left _ here⟩,
        fun _ rest now => ⟨.serving, rest, now⟩, fun _ => id⟩
      intro other left now
      rw [pc] at now
      cases now
      exact ⟨.boxed, by simp [At]⟩
  | subscribe a here new => exact holds_frame d _ rfl rfl rfl (fun _ => ⟨id, id⟩) (fun _ _ => id)
  | unsubscribe a => exact holds_frame d _ rfl rfl rfl (fun _ => ⟨id, id⟩) (fun _ _ => id)
  | forward n env open_ new =>
      exact holds_remote d _ n _ rfl rfl rfl rfl rfl fun _ here => List.mem_append_left _ here
  | join n t a unlocked idle here new => exact holds_remote d _ n _ rfl rfl rfl rfl rfl fun _ => id
  | leave n t a unlocked idle there => exact holds_remote d _ n _ rfl rfl rfl rfl rfl fun _ => id
  | tell n t msg pc =>
      refine holds_remote d _ n _ rfl rfl rfl rfl rfl fun env here => ?_
      simp only
      split
      · exact List.mem_append_left _ here
      · exact here
  | carry n msg rest coming =>
      refine ⟨fun t _ left now => ⟨.publishing t, left, now⟩, fun m env here => ?_,
        fun _ here => ⟨.forwarded, List.mem_append_left _ here⟩, fun _ here => ⟨.boxed, List.mem_append_left _ here⟩,
        fun _ left now => ⟨.serving, left, now⟩, fun _ => id⟩
      by_cases same : m = n
      · subst same
        rw [coming] at here
        rcases List.mem_cons.mp here with isHead | later
        · exact ⟨.forwarded, by simp [At, isHead]⟩
        · refine ⟨.upstream m, ?_⟩
          change _ ∈ ((d.setRemote m _).remote m).upstream
          rwa [remote_here]
      · refine ⟨.upstream m, ?_⟩
        change _ ∈ ((d.setRemote n _).remote m).upstream
        rwa [remote_other d n m _ same]
  | joinedAgain n rest idle next known =>
      exact holds_taken d _ _ rest next (by simp) rfl rfl rfl rfl (List.Sublist.refl _)
  | joined n rest idle next new =>
      refine holds_taken d _ _ rest next (by simp) rfl rfl rfl rfl ?_
      simp only
      split
      · exact List.Sublist.refl _
      · exact List.sublist_append_left _ _
  | left n msg rest idle next goes =>
      refine holds_taken d _ msg rest next ?_ rfl rfl rfl rfl (List.Sublist.refl _)
      rcases goes with rfl | rfl <;> simp
  | forwarded env rest idle next =>
      refine ⟨fun t _ left now => ⟨.publishing t, left, now⟩, fun n _ here => ⟨.upstream n, here⟩, fun other here => ?_,
        fun other here => ?_, by simp [idle], fun _ => id⟩
      · rw [next] at here
        rcases List.mem_cons.mp here with isHead | later
        · cases isHead
          exact ⟨.serving, d.subscribers, rfl⟩
        · exact ⟨.forwarded, later⟩
      · rw [next] at here
        exact ⟨.boxed, (List.mem_cons.mp here).resolve_left (by simp)⟩
  | others env rest idle next =>
      refine ⟨fun t _ left now => ⟨.publishing t, left, now⟩, fun n _ here => ⟨.upstream n, here⟩, fun other here => ?_,
        fun other here => ?_, by simp [idle], fun _ here => List.mem_append_left _ here⟩
      · rw [next] at here
        exact ⟨.forwarded, (List.mem_cons.mp here).resolve_left (by simp)⟩
      · rw [next] at here
        rcases List.mem_cons.mp here with isHead | later
        · cases isHead
          exact ⟨.ordered, by simp [At]⟩
        · exact ⟨.boxed, later⟩
  | brokerServes env a rest pc =>
      refine ⟨fun t _ left now => ⟨.publishing t, left, now⟩, fun n _ here => ⟨.upstream n, here⟩,
        fun _ here => ⟨.forwarded, here⟩, fun _ here => ⟨.boxed, here⟩, fun other left now => ?_, fun _ => id⟩
      rw [pc] at now
      cases now
      exact ⟨.serving, rest, rfl⟩
  | brokerTurns env pc =>
      refine ⟨fun t _ left now => ⟨.publishing t, left, now⟩, fun n _ here => ⟨.upstream n, here⟩,
        fun _ here => ⟨.forwarded, here⟩, fun _ here => ⟨.boxed, here⟩, fun other left now => ?_,
        fun _ here => List.mem_append_left _ here⟩
      rw [pc] at now
      cases now
      exact ⟨.ordered, by simp [At]⟩
  | brokerSends env n rest pc =>
      refine ⟨fun t _ left now => ⟨.publishing t, left, now⟩, fun m other here => ⟨.upstream m, ?_⟩,
        fun _ here => ⟨.forwarded, here⟩, fun _ here => ⟨.boxed, here⟩, unserved ⟨_, _, pc⟩, fun _ => id⟩
      exact remote_all d n { d.remote n with
          wire := if (d.remote n).connected = true then (d.remote n).wire ++ [env] else (d.remote n).wire }
        (fun m now => .forward other ∈ (d.remote m).upstream → .forward other ∈ now.upstream) (fun _ => id) id m here
  | brokerDone env pc =>
      exact ⟨fun t _ left now => ⟨.publishing t, left, now⟩, fun n _ here => ⟨.upstream n, here⟩,
        fun _ here => ⟨.forwarded, here⟩, fun _ here => ⟨.boxed, here⟩, unserved ⟨_, _, pc⟩, fun _ => id⟩
  | arrive n env rest coming => exact holds_remote d _ n _ rfl rfl rfl rfl rfl fun _ => id
  | deliver n env rest idle next => exact holds_remote d _ n _ rfl rfl rfl rfl rfl fun _ => id
  | proxyServes n env a rest pc => exact holds_remote d _ n _ rfl rfl rfl rfl rfl fun _ => id
  | proxyDone n env pc => exact holds_remote d _ n _ rfl rfl rfl rfl rfl fun _ => id
  | disconnect n wasOnline =>
      have cut := online n
      change ((d.setRemote n _).remote n).connected = true at cut
      rw [remote_here] at cut
      cases cut

theorem published_step [DecidableEq T] [DecidableEq N] [DecidableEq A]
    (step : Step host d label after) : after.published = d.published ∨
    ∃ env p, after.published = env :: d.published ∧ At after env p := by
  cases step with
  | publish t env idle new => exact .inr ⟨env, .publishing t, rfl, d.subscribers, Function.update_self _ _ _⟩
  | forward n env online new =>
      refine .inr ⟨env, .upstream n, rfl, ?_⟩
      change _ ∈ ((d.setRemote n _).remote n).upstream
      rw [remote_here]
      exact List.mem_append_right _ (by simp)
  | _ => exact .inl rfl

theorem connected_before [DecidableEq T] [DecidableEq N] [DecidableEq A]
    (step : Step host d label after) (n : N) (online : (after.remote n).connected = true) :
    (d.remote n).connected = true := by
  have kept (m : N) (r : Remote T A N E) (remote : after.remote = (d.setRemote m r).remote)
      (same : r.connected = true → (d.remote m).connected = true) : (d.remote n).connected = true := by
    rw [remote] at online
    exact remote_all d m r (fun n now => now.connected = true → (d.remote n).connected = true) (fun _ => id) same n online
  cases step with
  | forward m env open_ new => exact kept m _ rfl id
  | join m t a unlocked idle here new => exact kept m _ rfl id
  | leave m t a unlocked idle there => exact kept m _ rfl id
  | tell m t msg pc => exact kept m _ rfl id
  | carry m msg rest coming => exact kept m _ rfl id
  | brokerSends env m rest pc => exact kept m _ rfl id
  | arrive m env rest coming => exact kept m _ rfl id
  | deliver m env rest idle next => exact kept m _ rfl id
  | proxyServes m env a rest pc => exact kept m _ rfl id
  | proxyDone m env pc => exact kept m _ rfl id
  | disconnect m wasOnline => exact kept m _ rfl (by simp)
  | _ => exact online

theorem located_step [DecidableEq T] [DecidableEq N] [DecidableEq A]
    (step : Step host d label after) (located : Located d) : Located after := by
  intro online env member
  have before := located fun n => connected_before host d after step n (online n)
  have stays (known : env ∈ d.published) : ∃ p, At after env p := by
    obtain ⟨p, here⟩ := before env known
    exact holds_located d after (holds_step host d after step online) env p here
  rcases published_step host d after step with same | ⟨new, p, more, here⟩
  · exact stays (same ▸ member)
  · rw [more] at member
    rcases List.mem_cons.mp member with rfl | known
    · exact ⟨p, here⟩
    · exact stays known

structure Dissemination.Drained : Prop where
  publishers : ∀ t, d.publishers t = .idle
  upstream : ∀ n, (d.remote n).upstream = []
  box : d.box = []
  broker : d.broker = .idle

theorem published_once_ordered [DecidableEq T] [DecidableEq N] [DecidableEq A] [DecidableEq E] [Fintype T]
    (reached : (groupLts host).Reach Lts.anyStep d)
    (online : ∀ n, (d.remote n).connected = true) :
    (∀ env ∈ d.published, ∃! p, At d env p) ∧ (d.Drained → ∀ env, env ∈ d.published ↔ env ∈ d.order) := by
  have located : Located d := by
    refine (groupLts host).reach_invariant Lts.anyStep Located ?_ ?_ d reached
    · exact fun _ env member => absurd member (by simp [groupLts, vacant])
    · exact fun d label after _ located _ taken => located_step host d after (step_cases host d after label taken) located
  obtain ⟨place, placed⟩ := (orderly_run host d reached).placed
  refine ⟨?_, ?_⟩
  · intro env member
    obtain ⟨p, here⟩ := located online env member
    refine ⟨p, here, fun q there => ?_⟩
    by_contra other
    exact placed_elsewhere d place env p q here (Ne.symm other) placed there
  · intro drained env
    refine ⟨fun member => ?_, fun member => placed_known d place env .ordered member placed⟩
    obtain ⟨p, here⟩ := located online env member
    cases p with
    | publishing t => simp [At, drained.publishers t] at here
    | upstream n => simp [At, drained.upstream n] at here
    | forwarded => simp [At, drained.box] at here
    | boxed => simp [At, drained.box] at here
    | serving => simp [At, drained.broker] at here
    | ordered => exact here

end Located

theorem published_once_ordered_two_messages : ∃ d : Dissemination Bool Unit Nat Nat,
    (groupLts sampleHost).Reach Lts.anyStep d ∧ d.published = [60, 50] ∧ ∀ env ∈ d.published, env ∈ d.order := by
  obtain ⟨d, reached, done⟩ := (groupLts sampleHost).run_finds Lts.anyStep sampleRun
    (fun d => (∀ n, (d.remote n).connected = true) ∧ (∀ t, d.publishers t = .idle) ∧
      (∀ n, (d.remote n).upstream = []) ∧ d.box = [] ∧ d.broker = .idle ∧ d.published = [60, 50]) (by decide)
  obtain ⟨online, publishers, upstream, box, broker, published⟩ := of_decide_eq_true done
  have all := (published_once_ordered sampleHost d reached online).2 ⟨publishers, upstream, box, broker⟩
  exact ⟨d, reached, published, fun env member => (all env).mp member⟩

end VsLab.Groups
