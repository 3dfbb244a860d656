import VsLab.GroupOrder

set_option autoImplicit false

namespace VsLab.Groups

open Actors

variable {T N A E : Type}

def learn [DecidableEq N] (n : N) (known : Bool) : BrokerMsg N E → Bool
  | .join m => if m = n then true else known
  | .leave m => if m = n then false else known
  | .down m => if m = n then false else known
  | _ => known

def learnAll [DecidableEq N] (n : N) (known : Bool) (msgs : List (BrokerMsg N E)) : Bool := msgs.foldl (learn n) known

def Silent (n : N) (msg : BrokerMsg N E) : Prop := msg ≠ .join n ∧ msg ≠ .leave n ∧ msg ≠ .down n

section Learn

variable [DecidableEq N]

variable (n : N) (known : Bool) (msgs more : List (BrokerMsg N E)) (msg : BrokerMsg N E)

theorem learn_silent (silent : Silent n msg) : learn n known msg = known := by
  obtain ⟨notJoin, notLeave, notDown⟩ := silent
  cases msg with
  | join m => exact if_neg fun same => notJoin (by rw [same])
  | leave m => exact if_neg fun same => notLeave (by rw [same])
  | down m => exact if_neg fun same => notDown (by rw [same])
  | forward env => rfl
  | other env => rfl

theorem learn_all_append : learnAll n known (msgs ++ more) = learnAll n (learnAll n known msgs) more := List.foldl_append

theorem learn_all_cons : learnAll n known (msg :: msgs) = learnAll n (learn n known msg) msgs := rfl

theorem learn_all_between (silent : Silent n msg) :
    learnAll n known (msgs ++ [msg] ++ more) = learnAll n known (msgs ++ more) := by
  rw [learn_all_append, learn_all_append, learn_all_append, learn_all_cons, learn_silent n _ msg silent]
  rfl

end Learn

def Dissemination.verdict [DecidableEq N] (d : Dissemination T N A E) (n : N) : Bool :=
  learnAll n (decide (n ∈ d.acquaintances)) (d.box ++ (d.remote n).upstream)

def TellsFirst (d : Dissemination T N A E) : Label T N A E → Prop
  | .join n _ _ => ∀ t, (d.remote n).members t = .idle
  | .leave n _ _ => ∀ t, (d.remote n).members t = .idle
  | _ => True

instance tellsFirstDecidable [Fintype T] (d : Dissemination T N A E) (label : Label T N A E) : Decidable (TellsFirst d label) := by
  cases label <;> unfold TellsFirst <;> infer_instance

structure Agrees [DecidableEq N] (d : Dissemination T N A E) (n : N) : Prop where
  settled : (∀ t, (d.remote n).members t = .idle) → d.verdict n = decide ((d.remote n).subscribers ≠ [])
  joining : ∀ t, (d.remote n).members t = .joining →
    (d.remote n).subscribers ≠ [] ∧ ∀ u, u ≠ t → (d.remote n).members u = .idle
  leaving : ∀ t, (d.remote n).members t = .leaving →
    (d.remote n).subscribers = [] ∧ ∀ u, u ≠ t → (d.remote n).members u = .idle

structure Membership [DecidableEq N] (d : Dissemination T N A E) : Prop where
  lines : ∀ n, ∀ msg ∈ (d.remote n).upstream, ∀ m, m ≠ n → Silent m msg
  agrees : ∀ n, (d.remote n).connected = true → Agrees d n

section Membership

variable [DecidableEq N]

variable (host : A → Option N) {label : Label T N A E} (d after : Dissemination T N A E) (n : N)

theorem agrees_frame
    (verdict : after.verdict n = d.verdict n) (members : (after.remote n).members = (d.remote n).members)
    (subscribers : (after.remote n).subscribers = (d.remote n).subscribers) (agrees : Agrees d n) : Agrees after n := by
  refine ⟨?_, ?_, ?_⟩
  · rw [verdict, members, subscribers]
    exact agrees.settled
  · rw [members, subscribers]
    exact agrees.joining
  · rw [members, subscribers]
    exact agrees.leaving

theorem verdict_same (acquaintances : after.acquaintances = d.acquaintances) (box : after.box = d.box)
    (upstream : (after.remote n).upstream = (d.remote n).upstream) : after.verdict n = d.verdict n := by
  rw [Dissemination.verdict, Dissemination.verdict, acquaintances, box, upstream]

theorem verdict_boxed
    (msg : BrokerMsg N E) (silent : Silent n msg) (acquaintances : after.acquaintances = d.acquaintances)
    (box : after.box = d.box ++ [msg]) (upstream : (after.remote n).upstream = (d.remote n).upstream) :
    after.verdict n = d.verdict n := by
  rw [Dissemination.verdict, Dissemination.verdict, acquaintances, box, upstream,
    learn_all_between n _ d.box (d.remote n).upstream msg silent]

theorem verdict_taken (msg : BrokerMsg N E) (rest more : List (BrokerMsg N E)) (next : d.box = msg :: rest)
    (box : after.box = rest ++ more) (silent : ∀ other ∈ more, Silent n other)
    (learned : decide (n ∈ after.acquaintances) = learn n (decide (n ∈ d.acquaintances)) msg)
    (upstream : (after.remote n).upstream = (d.remote n).upstream) : after.verdict n = d.verdict n := by
  have nothing (known : Bool) (others : List (BrokerMsg N E)) (say : ∀ other ∈ others, Silent n other) :
      learnAll n known others = known := by
    induction others generalizing known with
    | nil => rfl
    | cons other others ih =>
        rw [learn_all_cons, learn_silent n known other (say other (by simp))]
        exact ih known fun one member => say one (List.mem_cons_of_mem _ member)
  rw [Dissemination.verdict, Dissemination.verdict, next, box, upstream, learned, List.cons_append, learn_all_cons,
    learn_all_append, learn_all_append, nothing _ more silent, learn_all_append]

theorem membership_frame (acquaintances : after.acquaintances = d.acquaintances) (remote : after.remote = d.remote)
    (box : ∀ n, after.box = d.box ∨ ∃ msg, Silent n msg ∧ after.box = d.box ++ [msg]) (membership : Membership d) :
    Membership after := by
  refine ⟨remote ▸ membership.lines, fun n online => ?_⟩
  rw [remote] at online
  refine agrees_frame d after n ?_ (by rw [remote]) (by rw [remote]) (membership.agrees n online)
  rcases box n with same | ⟨msg, silent, more⟩
  · exact verdict_same d after n acquaintances same (by rw [remote])
  · exact verdict_boxed d after n msg silent acquaintances more (by rw [remote])

theorem membership_taken (msg : BrokerMsg N E) (rest : List (BrokerMsg N E)) (next : d.box = msg :: rest)
    (box : ∀ n, (d.remote n).connected = true →
      ∃ more, after.box = rest ++ more ∧ ∀ other ∈ more, Silent n other)
    (learned : ∀ n, decide (n ∈ after.acquaintances) = learn n (decide (n ∈ d.acquaintances)) msg)
    (remote : after.remote = d.remote) (membership : Membership d) : Membership after := by
  refine ⟨remote ▸ membership.lines, fun n online => ?_⟩
  rw [remote] at online
  obtain ⟨more, now, silent⟩ := box n online
  refine agrees_frame d after n ?_ (by rw [remote]) (by rw [remote]) (membership.agrees n online)
  exact verdict_taken d after n msg rest more next now silent (learned n) (by rw [remote])

theorem membership_remote (r : Remote T A N E) (acquaintances : after.acquaintances = d.acquaintances)
    (box : after.box = d.box) (remote : after.remote = (d.setRemote n r).remote)
    (upstream : r.upstream = (d.remote n).upstream) (members : r.members = (d.remote n).members)
    (subscribers : r.subscribers = (d.remote n).subscribers) (connected : r.connected = (d.remote n).connected)
    (membership : Membership d) : Membership after := by
  have same : ∀ m, (after.remote m).upstream = (d.remote m).upstream ∧ (after.remote m).members = (d.remote m).members ∧
      (after.remote m).subscribers = (d.remote m).subscribers ∧ (after.remote m).connected = (d.remote m).connected := by
    rw [remote]
    exact remote_all d n r (fun m now => now.upstream = (d.remote m).upstream ∧ now.members = (d.remote m).members ∧
      now.subscribers = (d.remote m).subscribers ∧ now.connected = (d.remote m).connected)
      (fun _ => ⟨rfl, rfl, rfl, rfl⟩) ⟨upstream, members, subscribers, connected⟩
  refine ⟨fun m => (same m).1 ▸ membership.lines m, fun m online => ?_⟩
  obtain ⟨line, threads, actors, live⟩ := same m
  exact agrees_frame d after m (verdict_same d after m acquaintances box line) threads actors
    (membership.agrees m (live ▸ online))

theorem membership_here (r : Remote T A N E) (acquaintances : after.acquaintances = d.acquaintances)
    (remote : after.remote = (d.setRemote n r).remote)
    (box : ∀ m, m ≠ n → after.box = d.box ∨ ∃ msg, Silent m msg ∧ after.box = d.box ++ [msg])
    (line : ∀ msg ∈ r.upstream, ∀ m, m ≠ n → Silent m msg) (now : r.connected = true → Agrees after n)
    (membership : Membership d) : Membership after := by
  refine ⟨?_, fun m online => ?_⟩
  · rw [remote]
    exact remote_all d n r (fun k now => ∀ msg ∈ now.upstream, ∀ m, m ≠ k → Silent m msg) membership.lines line
  · by_cases same : m = n
    · subst same
      rw [remote, remote_here] at online
      exact now online
    · have unchanged : after.remote m = d.remote m := by rw [remote, remote_other d n m r same]
      rw [unchanged] at online
      refine agrees_frame d after m ?_ (by rw [unchanged]) (by rw [unchanged]) (membership.agrees m online)
      rcases box m same with equal | ⟨msg, silent, more⟩
      · exact verdict_same d after m acquaintances equal (by rw [unchanged])
      · exact verdict_boxed d after m msg silent acquaintances more (by rw [unchanged])

theorem agrees_join [DecidableEq T] (t : T) (a : A) (threads : ∀ u, (d.remote n).members u = .idle)
    (subscribers : (after.remote n).subscribers = (d.remote n).subscribers ++ [a])
    (members : (after.remote n).members =
      if (d.remote n).subscribers = [] then Function.update (d.remote n).members t .joining else (d.remote n).members)
    (verdict : after.verdict n = d.verdict n) (agrees : Agrees d n) : Agrees after n := by
  have someone : (after.remote n).subscribers ≠ [] := by rw [subscribers]; simp
  by_cases first : (d.remote n).subscribers = []
  · rw [if_pos first] at members
    refine ⟨fun idle => ?_, fun u now => ⟨someone, fun v other => ?_⟩, fun u now => ?_⟩
    · have busy := idle t
      rw [members, Function.update_self] at busy
      cases busy
    · have mine : u = t := by
        by_contra notMine
        rw [members, Function.update_of_ne notMine, threads u] at now
        cases now
      rw [members, Function.update_of_ne (mine ▸ other)]
      exact threads v
    · by_cases mine : u = t
      · rw [members, mine, Function.update_self] at now
        cases now
      · rw [members, Function.update_of_ne mine, threads u] at now
        cases now
  · rw [if_neg first] at members
    refine ⟨fun _ => ?_, fun u now => ?_, fun u now => ?_⟩
    · rw [verdict, agrees.settled threads, decide_eq_true first, decide_eq_true someone]
    · rw [members, threads u] at now
      cases now
    · rw [members, threads u] at now
      cases now

theorem agrees_leave [DecidableEq T] [DecidableEq A]
    (t : T) (a : A) (threads : ∀ u, (d.remote n).members u = .idle) (there : a ∈ (d.remote n).subscribers)
    (subscribers : (after.remote n).subscribers = (d.remote n).subscribers.erase a)
    (members : (after.remote n).members =
      if (d.remote n).subscribers.erase a = [] then Function.update (d.remote n).members t .leaving
      else (d.remote n).members)
    (verdict : after.verdict n = d.verdict n) (agrees : Agrees d n) : Agrees after n := by
  have someone : (d.remote n).subscribers ≠ [] := List.ne_nil_of_mem there
  by_cases last : (d.remote n).subscribers.erase a = []
  · rw [if_pos last] at members
    refine ⟨fun idle => ?_, fun u now => ?_, fun u now => ⟨subscribers.trans last, fun v other => ?_⟩⟩
    · have busy := idle t
      rw [members, Function.update_self] at busy
      cases busy
    · by_cases mine : u = t
      · rw [members, mine, Function.update_self] at now
        cases now
      · rw [members, Function.update_of_ne mine, threads u] at now
        cases now
    · have mine : u = t := by
        by_contra notMine
        rw [members, Function.update_of_ne notMine, threads u] at now
        cases now
      rw [members, Function.update_of_ne (mine ▸ other)]
      exact threads v
  · rw [if_neg last] at members
    refine ⟨fun _ => ?_, fun u now => ?_, fun u now => ?_⟩
    · rw [verdict, agrees.settled threads, subscribers, decide_eq_true someone, decide_eq_true last]
    · rw [members, threads u] at now
      cases now
    · rw [members, threads u] at now
      cases now

theorem agrees_tell [DecidableEq T] (t : T) (msg : BrokerMsg N E)
    (pc : (d.remote n).members t = .joining ∧ msg = .join n ∨ (d.remote n).members t = .leaving ∧ msg = .leave n)
    (acquaintances : after.acquaintances = d.acquaintances) (box : after.box = d.box)
    (upstream : (after.remote n).upstream = (d.remote n).upstream ++ [msg])
    (subscribers : (after.remote n).subscribers = (d.remote n).subscribers)
    (members : (after.remote n).members = Function.update (d.remote n).members t .idle) (agrees : Agrees d n) :
    Agrees after n := by
  have last : after.verdict n = learn n (d.verdict n) msg := by
    rw [Dissemination.verdict, acquaintances, box, upstream, ← List.append_assoc, learn_all_append]
    rfl
  have others : ∀ u, u ≠ t → (d.remote n).members u = .idle := by
    rcases pc with ⟨joining, _⟩ | ⟨leaving, _⟩
    · exact (agrees.joining t joining).2
    · exact (agrees.leaving t leaving).2
  have threads (u : T) : (after.remote n).members u = .idle := by
    rw [members]
    by_cases mine : u = t
    · rw [mine, Function.update_self]
    · rw [Function.update_of_ne mine]
      exact others u mine
  refine ⟨fun _ => ?_, fun u now => ?_, fun u now => ?_⟩
  · rw [last, subscribers]
    rcases pc with ⟨joining, rfl⟩ | ⟨leaving, rfl⟩
    · rw [decide_eq_true (agrees.joining t joining).1]
      exact if_pos rfl
    · rw [decide_eq_false (not_not_intro (agrees.leaving t leaving).1)]
      exact if_pos rfl
  · rw [threads u] at now
    cases now
  · rw [threads u] at now
    cases now

omit [DecidableEq N] in
theorem tell_lines (t : T) (msg : BrokerMsg N E)
    (pc : (d.remote n).members t = .joining ∧ msg = .join n ∨ (d.remote n).members t = .leaving ∧ msg = .leave n)
    (m : N) (other : m ≠ n) : Silent m msg := by
  rcases pc with ⟨_, rfl⟩ | ⟨_, rfl⟩ <;> simp [Silent, Ne.symm other]

theorem membership_tell [DecidableEq T] (t : T) (msg : BrokerMsg N E)
    (pc : (d.remote n).members t = .joining ∧ msg = .join n ∨ (d.remote n).members t = .leaving ∧ msg = .leave n)
    (membership : Membership d) :
    Membership (d.setRemote n { d.remote n with
        members := Function.update (d.remote n).members t .idle
        upstream :=
          if (d.remote n).connected = true then (d.remote n).upstream ++ [msg] else (d.remote n).upstream }) := by
  refine membership_here d _ n _ rfl rfl (fun m other => .inl rfl) ?_ (fun online => ?_) membership
  · intro one member m other
    simp only at member
    split at member
    · rcases List.mem_append.mp member with old | isNew
      · exact membership.lines n one old m other
      · rw [List.mem_singleton.mp isNew]
        exact tell_lines d n t msg pc m other
    · exact membership.lines n one member m other
  · have wired : (d.remote n).connected = true := online
    refine agrees_tell d _ n t msg pc rfl rfl ?_ ?_ ?_ (membership.agrees n wired)
    · rw [remote_here]
      exact if_pos wired
    · rw [remote_here]
    · rw [remote_here]

theorem membership_carry
    (msg : BrokerMsg N E) (rest : List (BrokerMsg N E)) (coming : (d.remote n).upstream = msg :: rest)
    (membership : Membership d) :
    Membership { d.setRemote n { d.remote n with upstream := rest } with box := d.box ++ [msg] } := by
  have fromHere := membership.lines n
  rw [coming] at fromHere
  refine membership_here d _ n { d.remote n with upstream := rest } rfl rfl (fun m other => .inr ⟨msg, ?_, rfl⟩) ?_
    (fun online => ?_) membership
  · exact fromHere msg (by simp) m other
  · exact fun one member => fromHere one (List.mem_cons_of_mem _ member)
  · have now : Dissemination.remote { d.setRemote n { d.remote n with upstream := rest } with box := d.box ++ [msg] } n =
        { d.remote n with upstream := rest } := remote_here d n _
    refine agrees_frame d _ n ?_ (by rw [now]) (by rw [now]) (membership.agrees n online)
    rw [Dissemination.verdict, Dissemination.verdict, now, coming]
    simp only [List.append_assoc, List.singleton_append]
    rfl

theorem membership_forward (env : E) (membership : Membership d) :
    Membership { d.setRemote n { d.remote n with upstream := (d.remote n).upstream ++ [.forward env] } with
      published := env :: d.published } := by
  have silent (m : N) : Silent m (.forward env : BrokerMsg N E) := by simp [Silent]
  refine membership_here d _ n { d.remote n with upstream := (d.remote n).upstream ++ [.forward env] } rfl rfl
    (fun m other => .inl rfl) ?_ (fun online => ?_) membership
  · intro one member m other
    rcases List.mem_append.mp member with old | isNew
    · exact membership.lines n one old m other
    · rw [List.mem_singleton.mp isNew]
      exact silent m
  · have now : Dissemination.remote { d.setRemote n { d.remote n with
        upstream := (d.remote n).upstream ++ [.forward env] } with published := env :: d.published } n =
        { d.remote n with upstream := (d.remote n).upstream ++ [.forward env] } := remote_here d n _
    refine agrees_frame d _ n ?_ (by rw [now]) (by rw [now]) (membership.agrees n online)
    rw [Dissemination.verdict, Dissemination.verdict, now]
    have said := learn_all_between n (decide (n ∈ d.acquaintances)) (d.box ++ (d.remote n).upstream) [] (.forward env) (silent n)
    rw [List.append_nil, List.append_nil, List.append_assoc] at said
    exact said

theorem membership_step [DecidableEq T] [DecidableEq A]
    (step : Step host d label after) (allow : TellsFirst d label) (distinct : d.acquaintances.Nodup)
    (membership : Membership d) : Membership after := by
  cases step with
  | publish t env idle new => exact membership_frame d _ rfl rfl (fun _ => .inl rfl) membership
  | serve t env a rest pc => exact membership_frame d _ rfl rfl (fun _ => .inl rfl) membership
  | handOver t env pc => exact membership_frame d _ rfl rfl (fun _ => .inr ⟨_, by simp [Silent], rfl⟩) membership
  | subscribe a here new => exact membership_frame d _ rfl rfl (fun _ => .inl rfl) membership
  | unsubscribe a => exact membership_frame d _ rfl rfl (fun _ => .inl rfl) membership
  | forward n env online new => exact membership_forward d n env membership
  | join n t a unlocked idle here new =>
      refine membership_here d _ n _ rfl rfl (fun m other => .inl rfl) (membership.lines n) (fun online => ?_) membership
      have now := remote_here d n { d.remote n with
        subscribers := (d.remote n).subscribers ++ [a]
        members :=
          if (d.remote n).subscribers = [] then Function.update (d.remote n).members t .joining
          else (d.remote n).members }
      refine agrees_join d _ n t a allow (congrArg Remote.subscribers now) (congrArg Remote.members now) ?_
        (membership.agrees n online)
      have line := congrArg Remote.upstream now
      exact verdict_same d _ n rfl rfl line
  | leave n t a unlocked idle there =>
      refine membership_here d _ n _ rfl rfl (fun m other => .inl rfl) (membership.lines n) (fun online => ?_) membership
      have now := remote_here d n { d.remote n with
        subscribers := (d.remote n).subscribers.erase a
        members :=
          if (d.remote n).subscribers.erase a = [] then Function.update (d.remote n).members t .leaving
          else (d.remote n).members }
      refine agrees_leave d _ n t a allow there (congrArg Remote.subscribers now) (congrArg Remote.members now) ?_
        (membership.agrees n online)
      have line := congrArg Remote.upstream now
      exact verdict_same d _ n rfl rfl line
  | tell n t msg pc => exact membership_tell d n t msg pc membership
  | carry n msg rest coming => exact membership_carry d n msg rest coming membership
  | joinedAgain n rest idle next known =>
      refine membership_taken d _ _ rest next (fun _ _ => ⟨[], (List.append_nil _).symm, by simp⟩) (fun m => ?_) rfl membership
      by_cases same : n = m
      · rw [← same, decide_eq_true known]
        exact (if_pos rfl).symm
      · exact (if_neg same).symm
  | joined n rest idle next new =>
      refine membership_taken d _ _ rest next (fun m online => ?_) (fun m => ?_) rfl membership
      · by_cases wired : (d.remote n).connected = true
        · exact ⟨[], by simp [wired], by simp⟩
        · refine ⟨[.down n], by simp [wired], ?_⟩
          have other : n ≠ m := fun same => wired (same ▸ online)
          simp [Silent, other]
      · by_cases same : n = m
        · simp [same, learn]
        · simp [same, learn, Ne.symm same]
  | left n msg rest idle next goes =>
      refine membership_taken d _ msg rest next (fun _ _ => ⟨[], (List.append_nil _).symm, by simp⟩) (fun m => ?_) rfl membership
      have learned : learn m (decide (m ∈ d.acquaintances)) msg = if n = m then false else decide (m ∈ d.acquaintances) := by
        rcases goes with rfl | rfl <;> rfl
      rw [learned]
      by_cases same : n = m
      · rw [if_pos same, ← same]
        exact decide_eq_false distinct.not_mem_erase
      · rw [if_neg same]
        simp only [List.mem_erase_of_ne (Ne.symm same)]
  | forwarded env rest idle next =>
      exact membership_taken d _ _ rest next (fun _ _ => ⟨[], (List.append_nil _).symm, by simp⟩) (fun _ => rfl) rfl membership
  | others env rest idle next =>
      exact membership_taken d _ _ rest next (fun _ _ => ⟨[], (List.append_nil _).symm, by simp⟩) (fun _ => rfl) rfl membership
  | brokerServes env a rest pc => exact membership_frame d _ rfl rfl (fun _ => .inl rfl) membership
  | brokerTurns env pc => exact membership_frame d _ rfl rfl (fun _ => .inl rfl) membership
  | brokerSends env n rest pc => exact membership_remote d _ n _ rfl rfl rfl rfl rfl rfl rfl membership
  | brokerDone env pc => exact membership_frame d _ rfl rfl (fun _ => .inl rfl) membership
  | arrive n env rest coming => exact membership_remote d _ n _ rfl rfl rfl rfl rfl rfl rfl membership
  | deliver n env rest idle next => exact membership_remote d _ n _ rfl rfl rfl rfl rfl rfl rfl membership
  | proxyServes n env a rest pc => exact membership_remote d _ n _ rfl rfl rfl rfl rfl rfl rfl membership
  | proxyDone n env pc => exact membership_remote d _ n _ rfl rfl rfl rfl rfl rfl rfl membership
  | disconnect n online =>
      refine membership_here d _ n _ rfl rfl (fun m other => ?_) (by simp) (by simp) membership
      by_cases known : n ∈ d.acquaintances
      · exact .inr ⟨.down n, by simp [Silent, Ne.symm other], if_pos known⟩
      · exact .inl (if_neg known)

theorem membership_agrees [DecidableEq T] [DecidableEq A] [DecidableEq E] [Fintype T]
    (reached : (groupLts host).Reach TellsFirst d) (online : (d.remote n).connected = true)
    (threads : ∀ t, (d.remote n).members t = .idle) (line : (d.remote n).upstream = []) (box : d.box = []) :
    n ∈ d.acquaintances ↔ (d.remote n).subscribers ≠ [] := by
  have any (s : Dissemination T N A E) (reached : (groupLts host).Reach TellsFirst s) : (groupLts host).Reach Lts.anyStep s :=
    (groupLts host).reach_invariant TellsFirst ((groupLts host).Reach Lts.anyStep) .refl
      (fun s label t _ before _ taken => (groupLts host).reach_step Lts.anyStep s t label before trivial taken) s reached
  have membership : Membership d := by
    refine (groupLts host).reach_invariant TellsFirst Membership ?_ ?_ d reached
    · exact ⟨by simp [groupLts, vacant, vacantRemote], fun n _ => ⟨fun _ => rfl, fun _ => nofun, fun _ => nofun⟩⟩
    · intro s label after before membership allow taken
      exact membership_step host s after (step_cases host s after label taken) allow
        (orderly_run host s (any s before)).streams.acquaintances membership
  have verdict := (membership.agrees n online).settled threads
  rw [Dissemination.verdict, line, box] at verdict
  exact decide_eq_decide.mp verdict

end Membership

theorem membership_agrees_again : ∃ d : Dissemination Bool Unit Nat Nat,
    (groupLts fun _ => some ()).Reach TellsFirst d ∧ (d.remote ()).subscribers = [8] ∧ () ∈ d.acquaintances := by
  obtain ⟨d, reached, done⟩ := (groupLts fun _ => some ()).run_finds TellsFirst
    ([.join () true 7, .tell () true, .carry (), .handle, .leave () false 7, .tell () false, .carry (), .handle,
      .join () true 8, .tell () true, .carry (), .handle] : List (Label Bool Unit Nat Nat))
    (fun d => (d.remote ()).connected = true ∧ (∀ t, (d.remote ()).members t = .idle) ∧ (d.remote ()).upstream = [] ∧
      d.box = [] ∧ (d.remote ()).subscribers = [8]) (by decide)
  obtain ⟨online, threads, line, box, subscribers⟩ := of_decide_eq_true done
  exact ⟨d, reached, subscribers, (membership_agrees _ d () reached online threads line box).mpr (by simp [subscribers])⟩

-- The lock does not cover the message: a LEAVE that is sent after a later JOIN takes the
-- process out although it has a subscriber.
theorem late_leave_forgets : ∃ d : Dissemination Bool Unit Nat Nat, (groupLts fun _ => some ()).Reach Lts.anyStep d ∧
    (d.remote ()).connected = true ∧ (∀ t, (d.remote ()).members t = .idle) ∧ (d.remote ()).upstream = [] ∧ d.box = [] ∧
      (d.remote ()).subscribers = [8] ∧ () ∉ d.acquaintances := by
  obtain ⟨d, reached, done⟩ := (groupLts fun _ => some ()).run_finds Lts.anyStep
    ([.join () true 7, .tell () true, .carry (), .handle, .leave () false 7, .join () true 8, .tell () true,
      .tell () false, .carry (), .handle, .carry (), .handle] : List (Label Bool Unit Nat Nat))
    (fun d => (d.remote ()).connected = true ∧ (∀ t, (d.remote ()).members t = .idle) ∧ (d.remote ()).upstream = [] ∧
      d.box = [] ∧ (d.remote ()).subscribers = [8] ∧ () ∉ d.acquaintances) (by decide)
  exact ⟨d, reached, of_decide_eq_true done⟩

end VsLab.Groups
