import VsLab.GroupBroker

set_option autoImplicit false

namespace VsLab.Groups

open Actors

variable {T N A E : Type}

theorem nodup_snoc {X : Type} (xs : List X) (x : X) (distinct : xs.Nodup) (new : x ∉ xs) : (xs ++ [x]).Nodup := by
  rw [← List.concat_eq_append]
  exact distinct.concat new

section Remote

variable [DecidableEq N]

variable (d : Dissemination T N A E) (n m : N) (r : Remote T A N E)

@[simp] theorem remote_here : (d.setRemote n r).remote n = r := Function.update_self _ _ _

theorem remote_other (other : m ≠ n) : (d.setRemote n r).remote m = d.remote m := Function.update_of_ne other _ _

theorem remote_all (ok : N → Remote T A N E → Prop) (before : ∀ m, ok m (d.remote m)) (now : ok n r) :
    ∀ m, ok m ((d.setRemote n r).remote m) := by
  intro m
  by_cases same : m = n
  · rw [same, remote_here]
    exact now
  · rw [remote_other d n m r same]
    exact before m

end Remote

-- What may have been sent to a process: all the broker has passed on, but for the message
-- that it is about to send there.
def Dissemination.passed [DecidableEq N] (d : Dissemination T N A E) (n : N) : List E :=
  match d.broker with
  | .acquaintances _ rest => if n ∈ rest then d.order.dropLast else d.order
  | _ => d.order

structure Streams [DecidableEq N] (d : Dissemination T N A E) : Prop where
  acquaintances : d.acquaintances.Nodup
  passing : ∀ env rest, d.broker = .acquaintances env rest → rest.Nodup ∧ ∃ before, d.order = before ++ [env]
  stream : ∀ n, (d.remote n).stream.Sublist (d.passed n)

section Streams

variable [DecidableEq N]

variable (host : A → Option N) {label : Label T N A E} (d after : Dissemination T N A E)

theorem passed_sublist (n : N) : (d.passed n).Sublist d.order := by
  unfold Dissemination.passed
  split
  · split
    · exact List.dropLast_sublist _
    · exact List.Sublist.refl _
  · exact List.Sublist.refl _

theorem streams_frame (acquaintances : after.acquaintances = d.acquaintances) (broker : after.broker = d.broker)
    (order : after.order = d.order) (less : ∀ n, (after.remote n).stream.Sublist (d.remote n).stream)
    (streams : Streams d) : Streams after := by
  refine ⟨acquaintances ▸ streams.acquaintances, ?_, ?_⟩
  · rw [broker, order]
    exact streams.passing
  · intro n
    have same : after.passed n = d.passed n := by rw [Dissemination.passed, Dissemination.passed, broker, order]
    rw [same]
    exact (less n).trans (streams.stream n)

theorem streams_remote (n : N) (r : Remote T A N E) (acquaintances : after.acquaintances = d.acquaintances)
    (broker : after.broker = d.broker) (order : after.order = d.order) (remote : after.remote = (d.setRemote n r).remote)
    (less : r.stream.Sublist (d.remote n).stream) (streams : Streams d) : Streams after := by
  refine streams_frame d after acquaintances broker order ?_ streams
  rw [remote]
  exact remote_all d n r (fun m now => now.stream.Sublist (d.remote m).stream) (fun _ => List.Sublist.refl _) less

theorem streams_pass (env : E) (idle : ∀ n, d.passed n = d.order) (acquaintances : after.acquaintances = d.acquaintances)
    (broker : after.broker = .acquaintances env d.acquaintances) (order : after.order = d.order ++ [env])
    (remote : after.remote = d.remote) (streams : Streams d) : Streams after := by
  refine ⟨acquaintances ▸ streams.acquaintances, ?_, ?_⟩
  · intro other rest passing
    rw [broker] at passing
    cases passing
    exact ⟨streams.acquaintances, d.order, order⟩
  · intro n
    have before := streams.stream n
    rw [idle n] at before
    rw [remote, Dissemination.passed, broker, order]
    simp only
    split
    · rwa [List.dropLast_concat]
    · exact before.trans (List.sublist_append_left _ _)

theorem streams_send (env : E) (n : N) (rest : List N) (passing : d.broker = .acquaintances env (n :: rest)) (r : Remote T A N E)
    (sent : r.stream = (d.remote n).stream ++ [env] ∨ r.stream = (d.remote n).stream)
    (streams : Streams d) : Streams { d.setRemote n r with broker := .acquaintances env rest } := by
  obtain ⟨distinct, before, order⟩ := streams.passing env (n :: rest) passing
  obtain ⟨notLater, later⟩ := List.nodup_cons.mp distinct
  refine ⟨streams.acquaintances, ?_, ?_⟩
  · rintro other left ⟨⟩
    exact ⟨later, before, order⟩
  · intro m
    have old := streams.stream m
    rw [Dissemination.passed, passing] at old
    simp only [Dissemination.passed]
    by_cases same : m = n
    · subst same
      rw [if_neg notLater]
      simp only [List.mem_cons, true_or, if_true] at old
      change ((d.setRemote m r).remote m).stream.Sublist d.order
      rw [order, List.dropLast_concat] at old
      rw [remote_here, order]
      rcases sent with more | unchanged
      · rw [more]
        exact old.append (List.Sublist.refl _)
      · rw [unchanged]
        exact old.trans (List.sublist_append_left _ _)
    · have sameMember : m ∈ n :: rest ↔ m ∈ rest := by simp [same]
      change ((d.setRemote n r).remote m).stream.Sublist _
      rw [remote_other d n m r same]
      simp only [sameMember] at old
      exact old

theorem streams_step [DecidableEq T] [DecidableEq A]
    (step : Step host d label after) (streams : Streams d) : Streams after := by
  have unmoved (n : N) : (d.remote n).stream.Sublist (d.remote n).stream := List.Sublist.refl _
  cases step with
  | publish t env idle new => exact streams_frame d _ rfl rfl rfl unmoved streams
  | serve t env a rest pc => exact streams_frame d _ rfl rfl rfl unmoved streams
  | handOver t env pc => exact streams_frame d _ rfl rfl rfl unmoved streams
  | subscribe a here new => exact streams_frame d _ rfl rfl rfl unmoved streams
  | unsubscribe a => exact streams_frame d _ rfl rfl rfl unmoved streams
  | forward n env online new => exact streams_remote d _ n _ rfl rfl rfl rfl (unmoved n) streams
  | join n t a unlocked idle here new => exact streams_remote d _ n _ rfl rfl rfl rfl (unmoved n) streams
  | leave n t a unlocked idle there => exact streams_remote d _ n _ rfl rfl rfl rfl (unmoved n) streams
  | tell n t msg pc => exact streams_remote d _ n _ rfl rfl rfl rfl (unmoved n) streams
  | carry n msg rest coming => exact streams_remote d _ n _ rfl rfl rfl rfl (unmoved n) streams
  | joinedAgain n rest idle next known => exact streams_frame d _ rfl rfl rfl unmoved streams
  | joined n rest idle next new =>
      refine ⟨?_, streams.passing, streams.stream⟩
      exact nodup_snoc _ n streams.acquaintances new
  | left n msg rest idle next goes => exact ⟨streams.acquaintances.erase n, streams.passing, streams.stream⟩
  | forwarded env rest idle next =>
      refine ⟨streams.acquaintances, by simp, fun n => ?_⟩
      have before := streams.stream n
      rwa [Dissemination.passed, idle] at before
  | others env rest idle next =>
      refine streams_pass d _ env (fun n => ?_) rfl rfl rfl rfl streams
      rw [Dissemination.passed, idle]
  | brokerServes env a rest pc =>
      refine ⟨streams.acquaintances, by simp [Dissemination.receive], fun n => ?_⟩
      have before := streams.stream n
      rwa [Dissemination.passed, pc] at before
  | brokerTurns env pc =>
      refine streams_pass d _ env (fun n => ?_) rfl rfl rfl rfl streams
      rw [Dissemination.passed, pc]
  | brokerSends env n rest pc =>
      refine streams_send d env n rest pc _ ?_ streams
      by_cases online : (d.remote n).connected = true
      · exact .inl (by simp [Remote.stream, online])
      · exact .inr (by simp [Remote.stream, online])
  | brokerDone env pc =>
      refine ⟨streams.acquaintances, by simp, fun n => ?_⟩
      have before := streams.stream n
      rw [Dissemination.passed, pc] at before
      simp only [List.not_mem_nil, if_false] at before
      exact before
  | arrive n env rest coming =>
      refine streams_remote d _ n _ rfl rfl rfl rfl ?_ streams
      simp [Remote.stream, coming]
  | deliver n env rest idle next =>
      refine streams_remote d _ n _ rfl rfl rfl rfl ?_ streams
      simp [Remote.stream, next]
  | proxyServes n env a rest pc => exact streams_remote d _ n _ rfl rfl rfl rfl (unmoved n) streams
  | proxyDone n env pc => exact streams_remote d _ n _ rfl rfl rfl rfl (unmoved n) streams
  | disconnect n online =>
      refine streams_remote d _ n _ rfl rfl rfl rfl ?_ streams
      simp [Remote.stream]

end Streams

def Remote.served [DecidableEq A] (r : Remote T A N E) (a : A) : List E :=
  match r.proxy with
  | .serving _ rest => if a ∈ rest then r.taken.dropLast else r.taken
  | .idle => r.taken

structure RemoteOk (host : A → Option N) (n : N) (r : Remote T A N E) : Prop where
  subscribers : r.subscribers.Nodup
  hosted : ∀ a ∈ r.subscribers, host a = some n
  serving : ∀ env rest, r.proxy = .serving env rest →
    rest.Nodup ∧ (∀ a ∈ rest, host a = some n) ∧ ∃ before, r.taken = before ++ [env]

structure HomeOk (host : A → Option N) (d : Dissemination T N A E) : Prop where
  subscribers : d.subscribers.Nodup
  hosted : ∀ a ∈ d.subscribers, host a = none
  publishers : ∀ t env rest, d.publishers t = .serving env rest → rest.Nodup ∧ ∀ a ∈ rest, host a = none
  broker : ∀ env rest, d.broker = .subscribers env rest → rest.Nodup ∧ ∀ a ∈ rest, host a = none

section Served

variable [DecidableEq A]

variable (host : A → Option N) {label : Label T N A E} (d after : Dissemination T N A E)

theorem home_step [DecidableEq T] [DecidableEq N]
    (step : Step host d label after) (home : HomeOk host d) : HomeOk host after := by
  have updated (t : T) (pc : Serving A E)
      (fine : ∀ env rest, pc = .serving env rest → rest.Nodup ∧ ∀ a ∈ rest, host a = none) (u : T) (env : E) (rest : List A)
      (now : Function.update d.publishers t pc u = .serving env rest) : rest.Nodup ∧ ∀ a ∈ rest, host a = none := by
    by_cases same : u = t
    · rw [same, Function.update_self] at now
      exact fine env rest now
    · rw [Function.update_of_ne same] at now
      exact home.publishers u env rest now
  cases step with
  | publish t env idle new =>
      refine ⟨home.subscribers, home.hosted, updated t _ ?_, home.broker⟩
      rintro other rest ⟨⟩
      exact ⟨home.subscribers, home.hosted⟩
  | serve t env a rest pc =>
      obtain ⟨distinct, here⟩ := home.publishers t env _ pc
      refine ⟨home.subscribers, home.hosted, updated t _ ?_, home.broker⟩
      rintro other left ⟨⟩
      exact ⟨(List.nodup_cons.mp distinct).2, fun b member => here b (List.mem_cons_of_mem a member)⟩
  | handOver t env pc => exact ⟨home.subscribers, home.hosted, updated t _ (by simp), home.broker⟩
  | subscribe a here new =>
      refine ⟨nodup_snoc _ a home.subscribers new, ?_, home.publishers, home.broker⟩
      intro b member
      rcases List.mem_append.mp member with old | isNew
      · exact home.hosted b old
      · rw [List.mem_singleton.mp isNew]
        exact here
  | unsubscribe a =>
      exact ⟨home.subscribers.erase a, fun b member => home.hosted b (List.mem_of_mem_erase member), home.publishers,
        home.broker⟩
  | forwarded env rest idle next =>
      refine ⟨home.subscribers, home.hosted, home.publishers, ?_⟩
      rintro other left ⟨⟩
      exact ⟨home.subscribers, home.hosted⟩
  | brokerServes env a rest pc =>
      obtain ⟨distinct, here⟩ := home.broker env _ pc
      refine ⟨home.subscribers, home.hosted, home.publishers, ?_⟩
      rintro other left ⟨⟩
      exact ⟨(List.nodup_cons.mp distinct).2, fun b member => here b (List.mem_cons_of_mem a member)⟩
  | others env rest idle next => exact ⟨home.subscribers, home.hosted, home.publishers, by simp⟩
  | brokerTurns env pc => exact ⟨home.subscribers, home.hosted, home.publishers, by simp⟩
  | brokerSends env n rest pc => exact ⟨home.subscribers, home.hosted, home.publishers, by simp⟩
  | brokerDone env pc => exact ⟨home.subscribers, home.hosted, home.publishers, by simp⟩
  | _ => exact ⟨home.subscribers, home.hosted, home.publishers, home.broker⟩

theorem remote_step [DecidableEq T] [DecidableEq N]
    (step : Step host d label after) (before : ∀ n, RemoteOk host n (d.remote n)) :
    ∀ n, RemoteOk host n (after.remote n) := by
  have same (n : N) (r : Remote T A N E) (subscribers : r.subscribers = (d.remote n).subscribers)
      (proxy : r.proxy = (d.remote n).proxy) (taken : r.taken = (d.remote n).taken) :
      ∀ m, RemoteOk host m ((d.setRemote n r).remote m) := by
    refine remote_all d n r (RemoteOk host) before ⟨?_, ?_, ?_⟩
    · rw [subscribers]
      exact (before n).subscribers
    · rw [subscribers]
      exact (before n).hosted
    · rw [proxy, taken]
      exact (before n).serving
  cases step with
  | forward n env online new => exact same n _ rfl rfl rfl
  | tell n t msg pc => exact same n _ rfl rfl rfl
  | carry n msg rest coming => exact same n _ rfl rfl rfl
  | brokerSends env n rest pc => exact same n _ rfl rfl rfl
  | arrive n env rest coming => exact same n _ rfl rfl rfl
  | disconnect n online => exact same n _ rfl rfl rfl
  | join n t a unlocked idle here new =>
      refine remote_all d n _ (RemoteOk host) before ⟨nodup_snoc _ a (before n).subscribers new, ?_, (before n).serving⟩
      intro b member
      rcases List.mem_append.mp member with old | isNew
      · exact (before n).hosted b old
      · rw [List.mem_singleton.mp isNew]
        exact here
  | leave n t a unlocked idle there =>
      exact remote_all d n _ (RemoteOk host) before ⟨(before n).subscribers.erase a,
        fun b member => (before n).hosted b (List.mem_of_mem_erase member), (before n).serving⟩
  | deliver n env rest idle next =>
      refine remote_all d n _ (RemoteOk host) before ⟨(before n).subscribers, (before n).hosted, ?_⟩
      rintro other left ⟨⟩
      exact ⟨(before n).subscribers, (before n).hosted, (d.remote n).taken, rfl⟩
  | proxyServes n env a rest pc =>
      obtain ⟨distinct, here, last⟩ := (before n).serving env _ pc
      refine remote_all d n _ (RemoteOk host) before ⟨(before n).subscribers, (before n).hosted, ?_⟩
      rintro other left ⟨⟩
      exact ⟨(List.nodup_cons.mp distinct).2, fun b member => here b (List.mem_cons_of_mem a member), last⟩
  | proxyDone n env pc =>
      exact remote_all d n _ (RemoteOk host) before ⟨(before n).subscribers, (before n).hosted, by simp⟩
  | _ => exact before

theorem served_all (n : N) (a : A) : ((d.remote n).served a).Sublist (d.remote n).taken := by
  unfold Remote.served
  split
  · split
    · exact List.dropLast_sublist _
    · exact List.Sublist.refl _
  · exact List.Sublist.refl _

def Served : Prop := ∀ a n, host a = some n → (d.received a).Sublist ((d.remote n).served a)

theorem served_remote [DecidableEq N] (n : N) (r : Remote T A N E) (remote : after.remote = (d.setRemote n r).remote)
    (proxy : r.proxy = (d.remote n).proxy) (taken : r.taken = (d.remote n).taken)
    (received : after.received = d.received) (served : Served host d) : Served host after := by
  intro a m here
  rw [received, remote]
  refine (served a m here).trans ?_
  refine remote_all d n r (fun m now => ((d.remote m).served a).Sublist (now.served a)) (fun _ => List.Sublist.refl _) ?_ m
  rw [Remote.served, Remote.served, proxy, taken]

theorem served_local (a : A) (env : E) (here : host a = none) (received : after.received = (d.receive a env).received)
    (remote : after.remote = d.remote) (served : Served host d) : Served host after := by
  intro b n there
  have other : b ≠ a := by
    rintro rfl
    rw [here] at there
    cases there
  rw [received, remote, Dissemination.receive]
  simp only [Function.update_of_ne other]
  exact served b n there

theorem served_step [DecidableEq T] [DecidableEq N]
    (step : Step host d label after) (home : HomeOk host d) (fine : ∀ n, RemoteOk host n (d.remote n))
    (served : Served host d) : Served host after := by
  cases step with
  | serve t env a rest pc =>
      exact served_local host d _ a env ((home.publishers t env _ pc).2 a (by simp)) rfl rfl served
  | brokerServes env a rest pc => exact served_local host d _ a env ((home.broker env _ pc).2 a (by simp)) rfl rfl served
  | forward n env online new => exact served_remote host d _ n _ rfl rfl rfl rfl served
  | join n t a unlocked idle here new => exact served_remote host d _ n _ rfl rfl rfl rfl served
  | leave n t a unlocked idle there => exact served_remote host d _ n _ rfl rfl rfl rfl served
  | tell n t msg pc => exact served_remote host d _ n _ rfl rfl rfl rfl served
  | carry n msg rest coming => exact served_remote host d _ n _ rfl rfl rfl rfl served
  | brokerSends env n rest pc => exact served_remote host d _ n _ rfl rfl rfl rfl served
  | arrive n env rest coming => exact served_remote host d _ n _ rfl rfl rfl rfl served
  | disconnect n online => exact served_remote host d _ n _ rfl rfl rfl rfl served
  | deliver n env rest idle next =>
      intro a m here
      refine (served a m here).trans ?_
      refine remote_all d n _ (fun m now => ((d.remote m).served a).Sublist (now.served a))
        (fun _ => List.Sublist.refl _) ?_ m
      rw [Remote.served, idle]
      simp only [Remote.served]
      split
      · rw [List.dropLast_concat]
      · exact List.sublist_append_left _ _
  | proxyServes n env a rest pc =>
      obtain ⟨distinct, here, before, taken⟩ := (fine n).serving env _ pc
      obtain ⟨notLater, _⟩ := List.nodup_cons.mp distinct
      intro b m there
      by_cases mine : b = a
      · subst mine
        cases (here b (by simp)).symm.trans there
        have old := served b n there
        rw [Remote.served, pc] at old
        simp only [List.mem_cons, true_or, if_true, taken, List.dropLast_concat] at old
        simp only [Dissemination.receive, Function.update_self]
        change (d.received b ++ [env]).Sublist (((d.setRemote n _).remote n).served b)
        rw [remote_here, Remote.served]
        simp only [if_neg notLater, taken]
        exact old.append (List.Sublist.refl _)
      · have old := served b m there
        simp only [Dissemination.receive, Function.update_of_ne mine]
        refine old.trans ?_
        refine remote_all d n _ (fun m now => ((d.remote m).served b).Sublist (now.served b))
          (fun _ => List.Sublist.refl _) ?_ m
        rw [Remote.served, pc]
        simp [Remote.served, mine]
  | proxyDone n env pc =>
      intro a m here
      refine (served a m here).trans ?_
      refine remote_all d n _ (fun m now => ((d.remote m).served a).Sublist (now.served a))
        (fun _ => List.Sublist.refl _) ?_ m
      rw [Remote.served, pc]
      simp [Remote.served]
  | _ => exact served

end Served

inductive Place (T N : Type) where
  | publishing (thread : T)
  | upstream (node : N)
  | forwarded
  | boxed
  | serving
  | ordered
deriving DecidableEq

def At (d : Dissemination T N A E) (env : E) : Place T N → Prop
  | .publishing t => ∃ rest, d.publishers t = .serving env rest
  | .upstream n => .forward env ∈ (d.remote n).upstream
  | .forwarded => .forward env ∈ d.box
  | .boxed => .other env ∈ d.box
  | .serving => ∃ rest, d.broker = .subscribers env rest
  | .ordered => env ∈ d.order

def sequenced (msgs : List (BrokerMsg N E)) : List E :=
  msgs.filterMap fun
    | .forward env => some env
    | .other env => some env
    | _ => none

structure Placed (d : Dissemination T N A E) (place : E → Option (Place T N)) : Prop where
  sits : ∀ env p, At d env p → place env = some p
  fresh : ∀ env, env ∉ d.published → place env = none
  upstream : ∀ n, (sequenced (d.remote n).upstream).Nodup ∧ ∀ env, .other env ∉ (d.remote n).upstream
  box : (sequenced d.box).Nodup
  order : d.order.Nodup

section Placed

variable (host : A → Option N) {label : Label T N A E} (d after : Dissemination T N A E) (place : E → Option (Place T N))

theorem mem_sequenced (msgs : List (BrokerMsg N E)) (env : E) :
    env ∈ sequenced msgs ↔ .forward env ∈ msgs ∨ .other env ∈ msgs := by
  rw [sequenced, List.mem_filterMap]
  constructor
  · rintro ⟨msg, member, isEnv⟩
    cases msg <;> simp at isEnv
    · exact .inl (isEnv ▸ member)
    · exact .inr (isEnv ▸ member)
  · rintro (member | member)
    · exact ⟨_, member, rfl⟩
    · exact ⟨_, member, rfl⟩

theorem sequenced_snoc (msgs : List (BrokerMsg N E)) (msg : BrokerMsg N E) :
    sequenced (msgs ++ [msg]) = sequenced msgs ++ sequenced [msg] := List.filterMap_append

theorem sequenced_cons (msgs : List (BrokerMsg N E)) (msg : BrokerMsg N E) :
    sequenced (msg :: msgs) = sequenced [msg] ++ sequenced msgs := by
  cases msg <;> rfl

theorem placed_same (stays : ∀ env p, At after env p → At d env p) (published : after.published = d.published)
    (upstream : ∀ n, (sequenced (after.remote n).upstream).Nodup ∧ ∀ env, .other env ∉ (after.remote n).upstream)
    (box : (sequenced after.box).Nodup) (order : after.order = d.order) (placed : Placed d place) : Placed after place :=
  ⟨fun env p here => placed.sits env p (stays env p here), published ▸ placed.fresh, upstream, box, order ▸ placed.order⟩

theorem placed_moves [DecidableEq E]
    (env : E) (p : Place T N) (comes : ∀ other q, At after other q → At d other q ∨ other = env ∧ q = p)
    (goes : ∀ q, At d env q → ¬ At after env q)
    (published : after.published = d.published ∨ after.published = env :: d.published) (known : env ∈ after.published)
    (upstream : ∀ n, (sequenced (after.remote n).upstream).Nodup ∧ ∀ env, .other env ∉ (after.remote n).upstream)
    (box : (sequenced after.box).Nodup) (order : after.order.Nodup) (placed : Placed d place) :
    Placed after (Function.update place env (some p)) := by
  refine ⟨?_, ?_, upstream, box, order⟩
  · intro other q here
    rcases comes other q here with before | ⟨rfl, rfl⟩
    · have different : other ≠ env := by
        rintro rfl
        exact goes q before here
      rw [Function.update_of_ne different]
      exact placed.sits other q before
    · exact Function.update_self _ _ _
  · intro other new
    have different : other ≠ env := fun same => new (same ▸ known)
    rw [Function.update_of_ne different]
    refine placed.fresh other fun old => new ?_
    rcases published with same | more
    · rwa [same]
    · rw [more]
      exact List.mem_cons_of_mem _ old

theorem placed_known [DecidableEq E]
    (env : E) (p : Place T N) (here : At d env p) (placed : Placed d place) : env ∈ d.published := by
  by_contra new
  have gone := placed.fresh env new
  rw [placed.sits env p here] at gone
  cases gone

theorem placed_elsewhere (env : E) (p q : Place T N) (here : At d env p) (other : p ≠ q) (placed : Placed d place) :
    ¬ At d env q := by
  intro there
  have same := placed.sits env p here
  rw [placed.sits env q there] at same
  exact other (Option.some.inj same).symm

theorem placed_frame
    (publishers : ∀ t env rest, after.publishers t = .serving env rest → ∃ before, d.publishers t = .serving env before)
    (broker : ∀ env rest, after.broker = .subscribers env rest → ∃ before, d.broker = .subscribers env before)
    (order : after.order = d.order) (published : after.published = d.published)
    (box : ∃ gone more, sequenced more = [] ∧ gone ++ after.box = d.box ++ more)
    (upstream : ∀ n, (after.remote n).upstream = (d.remote n).upstream) (placed : Placed d place) : Placed after place := by
  obtain ⟨gone, more, silent, split⟩ := box
  have fewer (env : E) : (.forward env ∈ after.box → .forward env ∈ d.box) ∧ (.other env ∈ after.box → .other env ∈ d.box) := by
    have inside (msg : BrokerMsg N E) (member : msg ∈ after.box) : msg ∈ d.box ∨ msg ∈ more := by
      rw [← List.mem_append, ← split]
      exact List.mem_append_right _ member
    have notMore : env ∉ sequenced more := by simp [silent]
    rw [mem_sequenced, not_or] at notMore
    exact ⟨fun member => (inside _ member).resolve_right notMore.1, fun member => (inside _ member).resolve_right notMore.2⟩
  have once : (sequenced after.box).Nodup := by
    have all := placed.box
    rw [← List.append_nil (sequenced d.box), ← silent, sequenced, sequenced, ← List.filterMap_append, ← split,
      List.filterMap_append] at all
    exact (List.nodup_append'.mp all).2.1
  refine ⟨?_, published ▸ placed.fresh, fun n => upstream n ▸ placed.upstream n, once, order ▸ placed.order⟩
  intro env p here
  refine placed.sits env p ?_
  cases p with
  | publishing t =>
      obtain ⟨rest, now⟩ := here
      exact publishers t env rest now
  | upstream n => simpa only [At, upstream] using here
  | forwarded => exact (fewer env).1 here
  | boxed => exact (fewer env).2 here
  | serving =>
      obtain ⟨rest, now⟩ := here
      exact broker env rest now
  | ordered => simpa only [At, order] using here

theorem placed_remote [DecidableEq N] (n : N) (r : Remote T A N E) (remote : after.remote = (d.setRemote n r).remote)
    (upstream : r.upstream = (d.remote n).upstream) (publishers : after.publishers = d.publishers)
    (broker : ∀ env rest, after.broker = .subscribers env rest → d.broker = .subscribers env rest)
    (order : after.order = d.order) (published : after.published = d.published) (box : after.box = d.box)
    (placed : Placed d place) : Placed after place := by
  refine placed_frame d after place ?_ (fun env rest now => ⟨rest, broker env rest now⟩) order published
    ⟨[], [], rfl, by simp [box]⟩ ?_ placed
  · intro t env rest now
    exact ⟨rest, publishers ▸ now⟩
  · rw [remote]
    exact remote_all d n r (fun m now => now.upstream = (d.remote m).upstream) (fun _ => rfl) upstream

theorem placed_only (env : E) (p : Place T N) (here : At d env p) (placed : Placed d place)
    (left : ¬ At after env p) (q : Place T N) (there : At d env q) : ¬ At after env q := by
  have same := placed.sits env p here
  rw [placed.sits env q there] at same
  cases Option.some.inj same
  exact left

theorem placed_publish [DecidableEq T] [DecidableEq E]
    (t : T) (env : E) (new : env ∉ d.published) (placed : Placed d place) :
    ∃ place, Placed { d with
      publishers := Function.update d.publishers t (.serving env d.subscribers), published := env :: d.published } place := by
  refine ⟨_, placed_moves d _ place env (.publishing t) ?_ ?_ (.inr rfl) (by simp) placed.upstream placed.box placed.order placed⟩
  · intro other q here
    cases q with
    | publishing u =>
        obtain ⟨rest, now⟩ := here
        by_cases same : u = t
        · simp only [same, Function.update_self, Serving.serving.injEq] at now
          exact .inr ⟨now.1.symm, by rw [same]⟩
        · simp only [Function.update_of_ne same] at now
          exact .inl ⟨rest, now⟩
    | _ => exact .inl here
  · exact fun q here => absurd (placed_known d place env q here placed) new

theorem placed_forward [DecidableEq N] [DecidableEq E]
    (n : N) (env : E) (new : env ∉ d.published) (placed : Placed d place) :
    ∃ place, Placed { d.setRemote n { d.remote n with upstream := (d.remote n).upstream ++ [.forward env] } with
      published := env :: d.published } place := by
  have nowhere (q : Place T N) : ¬ At d env q := fun here => new (placed_known d place env q here placed)
  refine ⟨_, placed_moves d _ place env (.upstream n) ?_ ?_ (.inr rfl) (by simp) ?_ placed.box placed.order placed⟩
  · intro other q here
    cases q with
    | upstream m =>
        by_cases same : m = n
        · subst same
          change .forward other ∈ ((d.setRemote m _).remote m).upstream at here
          rw [remote_here, List.mem_append, List.mem_singleton] at here
          rcases here with old | isNew
          · exact .inl old
          · cases isNew
            exact .inr ⟨rfl, rfl⟩
        · change .forward other ∈ ((d.setRemote n _).remote m).upstream at here
          rw [remote_other d n m _ same] at here
          exact .inl here
    | _ => exact .inl here
  · exact fun q here => absurd here (nowhere q)
  · refine remote_all d n _ (fun _ now => (sequenced now.upstream).Nodup ∧ ∀ env, .other env ∉ now.upstream) placed.upstream ⟨?_, ?_⟩
    · rw [sequenced_snoc]
      refine nodup_snoc _ env (placed.upstream n).1 fun member => ?_
      rcases (mem_sequenced _ env).mp member with there | there
      · exact nowhere (.upstream n) there
      · exact (placed.upstream n).2 env there
    · intro other member
      rcases List.mem_append.mp member with old | isNew
      · exact (placed.upstream n).2 other old
      · simp at isNew

theorem placed_hand_over [DecidableEq T] [DecidableEq E]
    (t : T) (env : E) (pc : d.publishers t = .serving env []) (placed : Placed d place) :
    ∃ place, Placed { d with publishers := Function.update d.publishers t .idle, box := d.box ++ [.other env] } place := by
  have here : At d env (.publishing t) := ⟨[], pc⟩
  refine ⟨_, placed_moves d _ place env .boxed ?_ ?_ (.inl rfl) (placed_known d place env _ here placed) placed.upstream ?_
    placed.order placed⟩
  · intro other q there
    cases q with
    | publishing u =>
        obtain ⟨rest, now⟩ := there
        by_cases same : u = t
        · simp [same] at now
        · simp only [Function.update_of_ne same] at now
          exact .inl ⟨rest, now⟩
    | forwarded => exact .inl (by simpa [At] using there)
    | boxed =>
        rcases List.mem_append.mp there with old | isNew
        · exact .inl old
        · cases List.mem_singleton.mp isNew
          exact .inr ⟨rfl, rfl⟩
    | upstream n => exact .inl there
    | serving => exact .inl there
    | ordered => exact .inl there
  · exact placed_only d _ place env _ here placed (by simp [At])
  · rw [sequenced_snoc]
    refine nodup_snoc _ env placed.box fun member => ?_
    rcases (mem_sequenced _ env).mp member with there | there
    · exact placed_elsewhere d place env _ .forwarded here (by simp) placed there
    · exact placed_elsewhere d place env _ .boxed here (by simp) placed there

theorem placed_silent [DecidableEq N] (n : N) (r : Remote T A N E) (remote : after.remote = (d.setRemote n r).remote)
    (fewer : (sequenced r.upstream).Sublist (sequenced (d.remote n).upstream)) (noOther : ∀ env, .other env ∉ r.upstream)
    (box : ∃ more, sequenced more = [] ∧ after.box = d.box ++ more) (publishers : after.publishers = d.publishers)
    (broker : after.broker = d.broker) (order : after.order = d.order) (published : after.published = d.published)
    (placed : Placed d place) : Placed after place := by
  obtain ⟨more, silent, split⟩ := box
  have notMore (env : E) : .forward env ∉ more ∧ .other env ∉ more := by
    rw [← not_or, ← mem_sequenced, silent]
    simp
  have upstream := remote_all d n r (fun m now => (sequenced now.upstream).Sublist (sequenced (d.remote m).upstream) ∧
    ∀ env, .other env ∉ now.upstream) (fun m => ⟨List.Sublist.refl _, (placed.upstream m).2⟩) ⟨fewer, noOther⟩
  rw [← remote] at upstream
  refine placed_same d after place ?_ published ?_ ?_ order placed
  · intro env p here
    cases p with
    | upstream m =>
        have inside := (upstream m).1.subset ((mem_sequenced _ env).mpr (.inl here))
        exact ((mem_sequenced _ env).mp inside).resolve_right ((placed.upstream m).2 env)
    | forwarded =>
        rw [At, split] at here
        exact (List.mem_append.mp here).resolve_right (notMore env).1
    | boxed =>
        rw [At, split] at here
        exact (List.mem_append.mp here).resolve_right (notMore env).2
    | publishing t => simpa only [At, publishers] using here
    | serving => simpa only [At, broker] using here
    | ordered => simpa only [At, order] using here
  · exact fun m => ⟨(placed.upstream m).1.sublist (upstream m).1, (upstream m).2⟩
  · rw [split, sequenced, List.filterMap_append]
    change (sequenced d.box ++ sequenced more).Nodup
    rw [silent, List.append_nil]
    exact placed.box

theorem placed_carry_forward [DecidableEq N] [DecidableEq E] (n : N) (env : E) (rest : List (BrokerMsg N E))
    (coming : (d.remote n).upstream = .forward env :: rest) (placed : Placed d place) :
    ∃ place, Placed { d.setRemote n { d.remote n with upstream := rest } with box := d.box ++ [.forward env] } place := by
  have here : At d env (.upstream n) := by
    rw [At, coming]
    exact List.mem_cons_self
  have less : rest.Sublist (d.remote n).upstream := by
    rw [coming]
    exact List.sublist_cons_self _ _
  have once : env ∉ sequenced rest := by
    have distinct := (placed.upstream n).1
    rw [coming, sequenced_cons] at distinct
    exact (List.nodup_cons.mp distinct).1
  refine ⟨_, placed_moves d _ place env .forwarded ?_ ?_ (.inl rfl) (placed_known d place env _ here placed) ?_ ?_
    placed.order placed⟩
  · intro other q there
    cases q with
    | upstream m =>
        exact .inl (remote_all d n { d.remote n with upstream := rest }
          (fun m now => .forward other ∈ now.upstream → .forward other ∈ (d.remote m).upstream) (fun _ => id)
          (fun member => less.subset member) m there)
    | forwarded =>
        rcases List.mem_append.mp there with old | isNew
        · exact .inl old
        · cases List.mem_singleton.mp isNew
          exact .inr ⟨rfl, rfl⟩
    | boxed => exact .inl (by simpa [At] using there)
    | publishing t => exact .inl there
    | serving => exact .inl there
    | ordered => exact .inl there
  · refine placed_only d _ place env _ here placed ?_
    change .forward env ∉ ((d.setRemote n _).remote n).upstream
    rw [remote_here]
    exact fun member => once ((mem_sequenced rest env).mpr (.inl member))
  · exact remote_all d n { d.remote n with upstream := rest }
      (fun _ now => (sequenced now.upstream).Nodup ∧ ∀ env, .other env ∉ now.upstream) placed.upstream
      ⟨(placed.upstream n).1.sublist (less.filterMap _), fun env member => (placed.upstream n).2 env (less.subset member)⟩
  · rw [sequenced_snoc]
    refine nodup_snoc _ env placed.box fun member => ?_
    rcases (mem_sequenced _ env).mp member with there | there
    · exact placed_elsewhere d place env _ .forwarded here (by simp) placed there
    · exact placed_elsewhere d place env _ .boxed here (by simp) placed there

theorem placed_carry [DecidableEq N] [DecidableEq E]
    (n : N) (msg : BrokerMsg N E) (rest : List (BrokerMsg N E)) (coming : (d.remote n).upstream = msg :: rest)
    (placed : Placed d place) :
    ∃ place, Placed { d.setRemote n { d.remote n with upstream := rest } with box := d.box ++ [msg] } place := by
  have fewer : (sequenced rest).Sublist (sequenced (d.remote n).upstream) := by
    rw [coming]
    exact (List.sublist_cons_self _ _).filterMap _
  have noOther (env : E) : .other env ∉ rest := by
    intro member
    exact (placed.upstream n).2 env (coming ▸ List.mem_cons_of_mem _ member)
  have silently (silent : sequenced [msg] = []) :
      Placed { d.setRemote n { d.remote n with upstream := rest } with box := d.box ++ [msg] } place :=
    placed_silent d _ place n _ rfl fewer noOther ⟨[msg], silent, rfl⟩ rfl rfl rfl rfl placed
  cases msg with
  | forward env => exact placed_carry_forward d place n env rest coming placed
  | other env => exact absurd (coming ▸ List.mem_cons_self) ((placed.upstream n).2 env)
  | join m => exact ⟨place, silently rfl⟩
  | leave m => exact ⟨place, silently rfl⟩
  | down m => exact ⟨place, silently rfl⟩

theorem placed_forwarded [DecidableEq E] (env : E) (rest : List (BrokerMsg N E)) (next : d.box = .forward env :: rest)
    (placed : Placed d place) : ∃ place, Placed { d with box := rest, broker := .subscribers env d.subscribers } place := by
  have here : At d env .forwarded := by
    rw [At, next]
    exact List.mem_cons_self
  have distinct := placed.box
  rw [next, sequenced_cons] at distinct
  obtain ⟨once, others⟩ := List.nodup_cons.mp distinct
  have fewer {msg : BrokerMsg N E} (member : msg ∈ rest) : msg ∈ d.box := next ▸ List.mem_cons_of_mem _ member
  refine ⟨_, placed_moves d _ place env .serving ?_ ?_ (.inl rfl) (placed_known d place env _ here placed) placed.upstream
    others placed.order placed⟩
  · intro other q there
    cases q with
    | forwarded => exact .inl (fewer there)
    | boxed => exact .inl (fewer there)
    | serving =>
        obtain ⟨left, now⟩ := there
        cases now
        exact .inr ⟨rfl, rfl⟩
    | publishing t => exact .inl there
    | upstream n => exact .inl there
    | ordered => exact .inl there
  · refine placed_only d _ place env _ here placed ?_
    exact fun member => once ((mem_sequenced rest env).mpr (.inl member))

theorem placed_pass [DecidableEq E]
    (env : E) (p : Place T N) (box : List (BrokerMsg N E)) (here : At d env p) (notYet : p ≠ .ordered)
    (fewer : box.Sublist d.box) (left : ∀ after : Dissemination T N A E, after.publishers = d.publishers →
      after.remote = d.remote → after.box = box → (∀ env rest, after.broker ≠ .subscribers env rest) → ¬ At after env p)
    (placed : Placed d place) :
    ∃ place, Placed { d with
      box := box, broker := .acquaintances env d.acquaintances, order := d.order ++ [env] } place := by
  refine ⟨_, placed_moves d _ place env .ordered ?_ ?_ (.inl rfl) (placed_known d place env _ here placed) placed.upstream
    (placed.box.sublist (fewer.filterMap _)) ?_ placed⟩
  · intro other q there
    cases q with
    | forwarded => exact .inl (fewer.subset there)
    | boxed => exact .inl (fewer.subset there)
    | serving =>
        obtain ⟨rest, now⟩ := there
        cases now
    | ordered =>
        rcases List.mem_append.mp there with old | isNew
        · exact .inl old
        · exact .inr ⟨List.mem_singleton.mp isNew, rfl⟩
    | publishing t => exact .inl there
    | upstream n => exact .inl there
  · exact placed_only d _ place env _ here placed (left _ rfl rfl rfl (by simp))
  · exact nodup_snoc _ env placed.order (placed_elsewhere d place env p .ordered here notYet placed)

theorem placed_others [DecidableEq E]
    (env : E) (rest : List (BrokerMsg N E)) (next : d.box = .other env :: rest) (placed : Placed d place) :
    ∃ place, Placed { d with
      box := rest, broker := .acquaintances env d.acquaintances, order := d.order ++ [env] } place := by
  have distinct := placed.box
  rw [next, sequenced_cons] at distinct
  refine placed_pass d place env .boxed rest ?_ (by simp) ?_ ?_ placed
  · rw [At, next]
    exact List.mem_cons_self
  · rw [next]
    exact List.sublist_cons_self _ _
  · intro after _ _ box _ member
    rw [At, box] at member
    exact (List.nodup_cons.mp distinct).1 ((mem_sequenced rest env).mpr (.inr member))

theorem placed_turns [DecidableEq E] (env : E) (pc : d.broker = .subscribers env []) (placed : Placed d place) :
    ∃ place, Placed { d with broker := .acquaintances env d.acquaintances, order := d.order ++ [env] } place :=
  placed_pass d place env .serving d.box ⟨[], pc⟩ (by simp) (List.Sublist.refl _)
    (fun _ _ _ _ idle ⟨rest, now⟩ => idle env rest now) placed

theorem placed_step [DecidableEq T] [DecidableEq N] [DecidableEq A] [DecidableEq E]
    (step : Step host d label after) (placed : Placed d place) : ∃ place, Placed after place := by
  have updated (t : T) (pc : Serving A E) (before : ∀ env rest, pc = .serving env rest → ∃ old, d.publishers t = .serving env old)
      (u : T) (env : E) (rest : List A) (now : Function.update d.publishers t pc u = .serving env rest) :
      ∃ old, d.publishers u = .serving env old := by
    by_cases same : u = t
    · rw [same, Function.update_self] at now
      rw [same]
      exact before env rest now
    · rw [Function.update_of_ne same] at now
      exact ⟨rest, now⟩
  have unmoved (t : T) (env : E) (rest : List A) (now : d.publishers t = .serving env rest) :
      ∃ old, d.publishers t = .serving env old := ⟨rest, now⟩
  have unserved (env : E) (rest : List A) (now : d.broker = .subscribers env rest) :
      ∃ old, d.broker = .subscribers env old := ⟨rest, now⟩
  have nothing : ∃ gone more, sequenced (N := N) (E := E) more = [] ∧ gone ++ d.box = d.box ++ more :=
    ⟨[], [], rfl, by simp⟩
  cases step with
  | publish t env idle new => exact placed_publish d place t env new placed
  | serve t env a rest pc =>
      refine ⟨place, placed_frame d _ place (updated t _ ?_) unserved rfl rfl nothing (fun _ => rfl) placed⟩
      rintro other left ⟨⟩
      exact ⟨_, pc⟩
  | handOver t env pc => exact placed_hand_over d place t env pc placed
  | subscribe a here new => exact ⟨place, placed_frame d _ place unmoved unserved rfl rfl nothing (fun _ => rfl) placed⟩
  | unsubscribe a => exact ⟨place, placed_frame d _ place unmoved unserved rfl rfl nothing (fun _ => rfl) placed⟩
  | forward n env online new => exact placed_forward d place n env new placed
  | join n t a unlocked idle here new => exact ⟨place, placed_remote d _ place n _ rfl rfl rfl (fun _ _ => id) rfl rfl rfl placed⟩
  | leave n t a unlocked idle there => exact ⟨place, placed_remote d _ place n _ rfl rfl rfl (fun _ _ => id) rfl rfl rfl placed⟩
  | tell n t msg pc =>
      have silent : sequenced [msg] = [] := by rcases pc with ⟨_, rfl⟩ | ⟨_, rfl⟩ <;> rfl
      have notOther (env : E) : msg ≠ .other env := by rcases pc with ⟨_, rfl⟩ | ⟨_, rfl⟩ <;> simp
      refine ⟨place, placed_silent d _ place n _ rfl ?_ ?_ ⟨[], rfl, by simp [Dissemination.setRemote]⟩ rfl rfl rfl rfl placed⟩
      · simp only
        split
        · rw [sequenced_snoc, silent, List.append_nil]
        · exact List.Sublist.refl _
      · intro env
        simp only
        split
        · simp [(placed.upstream n).2 env, (notOther env).symm]
        · exact (placed.upstream n).2 env
  | carry n msg rest coming => exact placed_carry d place n msg rest coming placed
  | joinedAgain n rest idle next known =>
      exact ⟨place, placed_frame d _ place unmoved unserved rfl rfl ⟨[.join n], [], rfl, by simp [next]⟩ (fun _ => rfl) placed⟩
  | joined n rest idle next new =>
      refine ⟨place, placed_frame d _ place unmoved unserved rfl rfl ?_ (fun _ => rfl) placed⟩
      by_cases online : (d.remote n).connected = true
      · exact ⟨[.join n], [], rfl, by simp [next, online]⟩
      · exact ⟨[.join n], [.down n], rfl, by simp [next, online]⟩
  | left n msg rest idle next goes =>
      exact ⟨place, placed_frame d _ place unmoved unserved rfl rfl ⟨[msg], [], rfl, by simp [next]⟩ (fun _ => rfl) placed⟩
  | forwarded env rest idle next => exact placed_forwarded d place env rest next placed
  | others env rest idle next => exact placed_others d place env rest next placed
  | brokerServes env a rest pc =>
      refine ⟨place, placed_frame d _ place unmoved ?_ rfl rfl nothing (fun _ => rfl) placed⟩
      rintro other left ⟨⟩
      exact ⟨_, pc⟩
  | brokerTurns env pc => exact placed_turns d place env pc placed
  | brokerSends env n rest pc =>
      exact ⟨place, placed_remote d _ place n _ rfl rfl rfl (by simp) rfl rfl rfl placed⟩
  | brokerDone env pc => exact ⟨place, placed_frame d _ place unmoved (by simp) rfl rfl nothing (fun _ => rfl) placed⟩
  | arrive n env rest coming => exact ⟨place, placed_remote d _ place n _ rfl rfl rfl (fun _ _ => id) rfl rfl rfl placed⟩
  | deliver n env rest idle next => exact ⟨place, placed_remote d _ place n _ rfl rfl rfl (fun _ _ => id) rfl rfl rfl placed⟩
  | proxyServes n env a rest pc => exact ⟨place, placed_remote d _ place n _ rfl rfl rfl (fun _ _ => id) rfl rfl rfl placed⟩
  | proxyDone n env pc => exact ⟨place, placed_remote d _ place n _ rfl rfl rfl (fun _ _ => id) rfl rfl rfl placed⟩
  | disconnect n online =>
      refine ⟨place, placed_silent d _ place n _ rfl (List.nil_sublist _) (by simp) ?_ rfl rfl rfl rfl placed⟩
      by_cases known : n ∈ d.acquaintances
      · exact ⟨[.down n], rfl, by simp [known]⟩
      · exact ⟨[], rfl, by simp [known]⟩

end Placed

structure Untouched (d : Dissemination T N A E) (a : A) (env : E) : Prop where
  known : env ∈ d.published
  publishers : ∀ t rest, d.publishers t = .serving env rest → a ∉ rest
  broker : ∀ rest, d.broker = .subscribers env rest → a ∉ rest
  box : .forward env ∉ d.box
  upstream : ∀ n, .forward env ∉ (d.remote n).upstream

def ReceivedOnce (host : A → Option N) (d : Dissemination T N A E) : Prop :=
  ∀ a, host a = none → (d.received a).Nodup ∧ ∀ env ∈ d.received a, Untouched d a env

section Once

variable [DecidableEq T] [DecidableEq N] [DecidableEq A]

variable (host : A → Option N) {label : Label T N A E} (d after : Dissemination T N A E) (a : A) (env : E)

theorem untouched_step (step : Step host d label after) (untouched : Untouched d a env) : Untouched after a env := by
  obtain ⟨known, publishers, broker, box, upstream⟩ := untouched
  have updated (t : T) (pc : Serving A E) (fine : ∀ rest, pc = .serving env rest → a ∉ rest) (u : T) (rest : List A)
      (now : Function.update d.publishers t pc u = .serving env rest) : a ∉ rest := by
    by_cases same : u = t
    · rw [same, Function.update_self] at now
      exact fine rest now
    · rw [Function.update_of_ne same] at now
      exact publishers u rest now
  have remotes (n : N) (r : Remote T A N E) (fine : .forward env ∉ r.upstream) :
      ∀ m, .forward env ∉ ((d.setRemote n r).remote m).upstream :=
    remote_all d n r (fun _ now => .forward env ∉ now.upstream) upstream fine
  cases step with
  | publish t other idle new =>
      refine ⟨List.mem_cons_of_mem _ known, updated t _ ?_, broker, box, upstream⟩
      rintro rest ⟨⟩
      exact absurd known new
  | serve t other b rest pc =>
      refine ⟨known, updated t _ ?_, broker, box, upstream⟩
      rintro left ⟨⟩
      exact fun member => publishers t _ pc (List.mem_cons_of_mem _ member)
  | handOver t other pc => exact ⟨known, updated t _ (by simp), broker, by simpa using box, upstream⟩
  | subscribe b here new => exact ⟨known, publishers, broker, box, upstream⟩
  | unsubscribe b => exact ⟨known, publishers, broker, box, upstream⟩
  | forward n other online new =>
      refine ⟨List.mem_cons_of_mem _ known, publishers, broker, box, remotes n _ ?_⟩
      have different : env ≠ other := fun same => new (same ▸ known)
      simpa [different] using upstream n
  | join n t b unlocked idle here new => exact ⟨known, publishers, broker, box, remotes n _ (upstream n)⟩
  | leave n t b unlocked idle there => exact ⟨known, publishers, broker, box, remotes n _ (upstream n)⟩
  | tell n t msg pc =>
      refine ⟨known, publishers, broker, box, remotes n _ ?_⟩
      have different : BrokerMsg.forward env ≠ msg := by rcases pc with ⟨_, rfl⟩ | ⟨_, rfl⟩ <;> simp
      simp only
      split
      · simpa [different] using upstream n
      · exact upstream n
  | carry n msg rest coming =>
      have notHere := upstream n
      rw [coming, List.mem_cons, not_or] at notHere
      refine ⟨known, publishers, broker, ?_, remotes n _ notHere.2⟩
      simpa [notHere.1] using box
  | joinedAgain n rest idle next known' =>
      rw [next, List.mem_cons, not_or] at box
      exact ⟨known, publishers, broker, box.2, upstream⟩
  | joined n rest idle next new =>
      rw [next, List.mem_cons, not_or] at box
      refine ⟨known, publishers, broker, ?_, upstream⟩
      simp only
      split
      · exact box.2
      · simpa using box.2
  | left n msg rest idle next goes =>
      rw [next, List.mem_cons, not_or] at box
      exact ⟨known, publishers, broker, box.2, upstream⟩
  | forwarded other rest idle next =>
      rw [next, List.mem_cons, not_or] at box
      refine ⟨known, publishers, ?_, box.2, upstream⟩
      rintro left ⟨⟩
      exact absurd rfl box.1
  | others other rest idle next =>
      rw [next, List.mem_cons, not_or] at box
      exact ⟨known, publishers, by simp, box.2, upstream⟩
  | brokerServes other b rest pc =>
      refine ⟨known, publishers, ?_, box, upstream⟩
      rintro left ⟨⟩
      exact fun member => broker _ pc (List.mem_cons_of_mem _ member)
  | brokerTurns other pc => exact ⟨known, publishers, by simp, box, upstream⟩
  | brokerSends other n rest pc => exact ⟨known, publishers, by simp, box, remotes n _ (upstream n)⟩
  | brokerDone other pc => exact ⟨known, publishers, by simp, box, upstream⟩
  | arrive n other rest coming => exact ⟨known, publishers, broker, box, remotes n _ (upstream n)⟩
  | deliver n other rest idle next => exact ⟨known, publishers, broker, box, remotes n _ (upstream n)⟩
  | proxyServes n other b rest pc => exact ⟨known, publishers, broker, box, remotes n _ (upstream n)⟩
  | proxyDone n other pc => exact ⟨known, publishers, broker, box, remotes n _ (upstream n)⟩
  | disconnect n online =>
      refine ⟨known, publishers, broker, ?_, remotes n _ (by simp)⟩
      simp only
      split
      · simpa using box
      · exact box

theorem once_receives (step : Step host d label after) (received : after.received = (d.receive a env).received)
    (here : host a = none) (first : ¬ Untouched d a env) (now : Untouched after a env) (once : ReceivedOnce host d) :
    ReceivedOnce host after := by
  intro b there
  obtain ⟨distinct, before⟩ := once b there
  rw [received, Dissemination.receive]
  by_cases mine : b = a
  · subst mine
    simp only [Function.update_self]
    refine ⟨nodup_snoc _ env distinct fun member => first (before env member), ?_⟩
    intro other member
    rcases List.mem_append.mp member with old | isNew
    · exact untouched_step host d after b other step (before other old)
    · rw [List.mem_singleton.mp isNew]
      exact now
  · simp only [Function.update_of_ne mine]
    exact ⟨distinct, fun other member => untouched_step host d after b other step (before other member)⟩

theorem once_same (step : Step host d label after) (received : ∀ b, host b = none → after.received b = d.received b)
    (once : ReceivedOnce host d) : ReceivedOnce host after := by
  intro b there
  rw [received b there]
  exact ⟨(once b there).1, fun other member => untouched_step host d after b other step ((once b there).2 other member)⟩

theorem once_step [DecidableEq E]
    (step : Step host d label after) (home : HomeOk host d) (fine : ∀ n, RemoteOk host n (d.remote n))
    (place : E → Option (Place T N)) (placed : Placed d place) (once : ReceivedOnce host d) : ReceivedOnce host after := by
  have taken := step
  cases step with
  | serve t env a rest pc =>
      obtain ⟨distinct, here⟩ := home.publishers t env _ pc
      have sits : At d env (.publishing t) := ⟨_, pc⟩
      refine once_receives host d _ a env taken rfl (here a (by simp)) (fun no => no.publishers t _ pc (by simp)) ?_ once
      refine ⟨placed_known d place env _ sits placed, ?_, ?_, ?_, ?_⟩
      · intro u left now
        by_cases same : u = t
        · subst same
          simp only [Dissemination.receive, Function.update_self, Serving.serving.injEq] at now
          rw [← now.2]
          exact (List.nodup_cons.mp distinct).1
        · simp only [Dissemination.receive, Function.update_of_ne same] at now
          exact absurd ⟨left, now⟩ (placed_elsewhere d place env _ (.publishing u) sits (by simpa using Ne.symm same) placed)
      · exact fun left now => absurd ⟨left, now⟩ (placed_elsewhere d place env _ .serving sits (by simp) placed)
      · exact placed_elsewhere d place env _ .forwarded sits (by simp) placed
      · exact fun n => placed_elsewhere d place env _ (.upstream n) sits (by simp) placed
  | brokerServes env a rest pc =>
      obtain ⟨distinct, here⟩ := home.broker env _ pc
      have sits : At d env .serving := ⟨_, pc⟩
      refine once_receives host d _ a env taken rfl (here a (by simp)) (fun no => no.broker _ pc (by simp)) ?_ once
      refine ⟨placed_known d place env _ sits placed, ?_, ?_, ?_, ?_⟩
      · exact fun u left now => absurd ⟨left, now⟩ (placed_elsewhere d place env _ (.publishing u) sits (by simp) placed)
      · rintro left ⟨⟩
        exact (List.nodup_cons.mp distinct).1
      · exact placed_elsewhere d place env _ .forwarded sits (by simp) placed
      · exact fun n => placed_elsewhere d place env _ (.upstream n) sits (by simp) placed
  | proxyServes n env a rest pc =>
      refine once_same host d _ taken (fun b there => ?_) once
      have other : b ≠ a := by
        rintro rfl
        rw [((fine n).serving env _ pc).2.1 b (by simp)] at there
        cases there
      simp only [Dissemination.receive, Function.update_of_ne other]
      rfl
  | _ => exact once_same host d _ taken (fun _ _ => rfl) once

end Once

section Run

variable [DecidableEq T] [DecidableEq N] [DecidableEq A] [DecidableEq E] [Fintype T]

variable (host : A → Option N)

structure Orderly (d : Dissemination T N A E) : Prop where
  streams : Streams d
  home : HomeOk host d
  remote : ∀ n, RemoteOk host n (d.remote n)
  served : Served host d
  placed : ∃ place, Placed d place
  once : ReceivedOnce host d

theorem orderly_run (d : Dissemination T N A E) (reached : (groupLts host).Reach Lts.anyStep d) : Orderly host d := by
  refine (groupLts host).reach_invariant Lts.anyStep (Orderly host) ?_ ?_ d reached
  · refine ⟨⟨List.nodup_nil, by simp [groupLts, vacant], fun n => List.Sublist.refl _⟩,
      ⟨List.nodup_nil, by simp [groupLts, vacant], by simp [groupLts, vacant], by simp [groupLts, vacant]⟩, fun n => ?_,
      fun a n _ => List.Sublist.refl _, ⟨fun _ => none, ?_⟩, fun a _ => ⟨List.nodup_nil, by simp [groupLts, vacant]⟩⟩
    · exact ⟨List.nodup_nil, by simp [groupLts, vacant, vacantRemote], by simp [groupLts, vacant, vacantRemote]⟩
    · refine ⟨?_, fun _ _ => rfl, fun n => ⟨List.nodup_nil, by simp [groupLts, vacant, vacantRemote]⟩, List.nodup_nil,
        List.nodup_nil⟩
      intro env p here
      cases p <;> simp [At, groupLts, vacant, vacantRemote] at here
  · intro d label after _ orderly _ taken
    have step := step_cases host d after label taken
    obtain ⟨place, placed⟩ := orderly.placed
    exact ⟨streams_step host d after step orderly.streams, home_step host d after step orderly.home,
      remote_step host d after step orderly.remote,
      served_step host d after step orderly.home orderly.remote orderly.served, placed_step host d after place step placed,
      once_step host d after step orderly.home orderly.remote place placed orderly.once⟩

theorem one_order (d : Dissemination T N A E) (reached : (groupLts host).Reach Lts.anyStep d) :
    d.order.Nodup ∧ (∀ a n, host a = some n → (d.received a).Sublist d.order) ∧
      ∀ a, host a = none → (d.received a).Nodup := by
  have orderly := orderly_run host d reached
  obtain ⟨place, placed⟩ := orderly.placed
  refine ⟨placed.order, ?_, fun a here => (orderly.once a here).1⟩
  intro a n there
  have taken : (d.remote n).taken.Sublist (d.remote n).stream := by
    rw [Remote.stream, List.append_assoc]
    exact List.sublist_append_left _ _
  exact (orderly.served a n there).trans ((served_all d n a).trans
    (taken.trans ((orderly.streams.stream n).trans (passed_sublist d n))))

end Run

def sampleHost (a : Nat) : Option Unit := if a = 7 then some () else none

def sampleRun : List (Label Bool Unit Nat Nat) :=
  [.subscribe 3, .join () true 7, .tell () true, .carry (), .handle, .forward () 50, .publish false 60, .serve false,
    .serve false, .carry (), .handle, .brokerServe, .brokerServe, .handle, .brokerServe, .brokerServe, .brokerServe,
    .brokerServe, .arrive (), .arrive (), .deliver (), .proxyServe (), .proxyServe (), .deliver (), .proxyServe ()]

theorem one_order_two_messages : ∃ d : Dissemination Bool Unit Nat Nat, (groupLts sampleHost).Reach Lts.anyStep d ∧
    d.received 7 = [60, 50] ∧ (d.received 7).Sublist d.order := by
  obtain ⟨d, reached, done⟩ := (groupLts sampleHost).run_finds Lts.anyStep sampleRun
    (fun d => d.received 7 = [60, 50]) (by decide)
  exact ⟨d, reached, by simpa using done, (one_order sampleHost d reached).2.1 7 () rfl⟩

end VsLab.Groups
