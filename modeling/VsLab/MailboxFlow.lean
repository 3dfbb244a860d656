import VsLab.Mailbox

set_option autoImplicit false

namespace VsLab.Mailbox

open Chains Actors

variable {T W P M : Type}

def Sender.elem : Sender P → Option P
  | .ready elem _ => some elem
  | .linked elem _ => some elem
  | _ => none

def Reader.hand : Reader P → List P
  | .took _ elem => [elem]
  | _ => []

def Reader.rest : Reader P → Option P
  | .moving _ e => e
  | _ => none

def Reader.closing : Reader P → Bool
  | .fetching .close _ => true
  | .moving .close _ => true
  | .clearing _ => true
  | _ => false

-- The elements on the reader's side: sl is on m_stack, ml is being moved, hl is at
-- m_head, the rest is in the actor's hand or in its cache.
def holds (sl ml hl : List (P × M)) (held : List P) : List P := addrs sl ++ addrs ml ++ addrs hl ++ held

structure Layout (cells : P → Option (Cell P M)) (stack rest head : Option P) (held : List P)
    (sl ml hl : List (P × M)) : Prop where
  stack : Chain cells stack sl
  rest : Chain cells rest ml
  head : Chain cells head hl
  live : ∀ addr ∈ held, cells addr ≠ none
  distinct : (holds sl ml hl held).Nodup

structure Pending (cells : P → Option (Cell P M)) (senders : T → Sender P) (all : List P) : Prop where
  live : ∀ t elem, (senders t).elem = some elem → cells elem ≠ none
  apart : ∀ t elem, (senders t).elem = some elem → elem ∉ all
  distinct : ∀ t u elem, (senders t).elem = some elem → (senders u).elem = some elem → t = u
  linked : ∀ t elem e, senders t = .linked elem e → nextAt cells elem = e.link
  covered : ∀ addr, cells addr ≠ none → addr ∈ all ∨ ∃ t, (senders t).elem = some addr

structure Flow (s : Queue T W P M) (r : Reader P) (sl ml hl : List (P × M)) : Prop where
  order : s.accepted =
    s.delivered ++ s.discarded ++ ((msgs ml).reverse ++ msgs hl ++ (msgs sl).reverse)
  kept : r.closing = false → s.stack ≠ .closed → s.discarded = []

structure Shape (s : Queue T W P M) (r : Reader P) (sl ml hl : List (P × M)) : Prop where
  layout : Layout s.cells s.stack.link r.rest s.head (r.hand ++ s.cache) sl ml hl
  pending : Pending s.cells s.senders (holds sl ml hl (r.hand ++ s.cache))
  flow : Flow s r sl ml hl

section Layout

variable (cells other : P → Option (Cell P M)) (stack rest head : Option P) (held : List P) (sl ml hl : List (P × M))

theorem layout_live (layout : Layout cells stack rest head held sl ml hl) (addr : P)
    (member : addr ∈ holds sl ml hl held) : cells addr ≠ none := by
  simp only [holds, List.mem_append] at member
  rcases member with ((onStack | onRest) | onHead) | isHeld
  · exact chain_live cells stack sl layout.stack addr onStack
  · exact chain_live cells rest ml layout.rest addr onRest
  · exact chain_live cells head hl layout.head addr onHead
  · exact layout.live addr isHeld

theorem layout_agree (same : ∀ addr ∈ holds sl ml hl held, other addr = cells addr)
    (layout : Layout cells stack rest head held sl ml hl) : Layout other stack rest head held sl ml hl := by
  simp only [holds, List.mem_append] at same
  refine ⟨?_, ?_, ?_, ?_, layout.distinct⟩
  · exact chain_agree cells other stack sl (fun addr member => same addr (by simp [member])) layout.stack
  · exact chain_agree cells other rest ml (fun addr member => same addr (by simp [member])) layout.rest
  · exact chain_agree cells other head hl (fun addr member => same addr (by simp [member])) layout.head
  · intro addr member
    rw [same addr (by simp [member])]
    exact layout.live addr member

end Layout

section Pending

variable (cells other : P → Option (Cell P M)) (senders : T → Sender P) (all fewer : List P)

theorem pending_reader (same : ∀ addr, addr ∉ all → other addr = cells addr)
    (kept : ∀ addr ∈ fewer, addr ∈ all) (freed : ∀ addr ∈ all, addr ∉ fewer → other addr = none)
    (pending : Pending cells senders all) : Pending other senders fewer := by
  have unchanged (t : T) (elem : P) (mine : (senders t).elem = some elem) : other elem = cells elem :=
    same elem (pending.apart t elem mine)
  refine ⟨?_, ?_, pending.distinct, ?_, ?_⟩
  · intro t elem mine
    rw [unchanged t elem mine]
    exact pending.live t elem mine
  · intro t elem mine member
    exact pending.apart t elem mine (kept elem member)
  · intro t elem e pc
    rw [nextAt, unchanged t elem (by rw [pc]; rfl)]
    exact pending.linked t elem e pc
  · intro addr live
    by_cases member : addr ∈ all
    · by_cases stays : addr ∈ fewer
      · exact .inl stays
      · exact absurd (freed addr member stays) live
    · rw [same addr member] at live
      rcases pending.covered addr live with inAll | sender
      · exact absurd inAll member
      · exact .inr sender

theorem pending_keeps [DecidableEq T] [DecidableEq P]
    (t : T) (elem : P) (pc : Sender P) (before : (senders t).elem = some elem)
    (now : pc.elem = some elem) (same : ∀ addr, addr ≠ elem → other addr = cells addr) (live : other elem ≠ none)
    (link : ∀ mine e, pc = .linked mine e → nextAt other elem = e.link) (pending : Pending cells senders all) :
    Pending other (Function.update senders t pc) all := by
  have elems (u : T) : (Function.update senders t pc u).elem = (senders u).elem := by
    by_cases self : u = t
    · rw [self, Function.update_self, now, before]
    · rw [Function.update_of_ne self]
  have alive (addr : P) : other addr ≠ none ↔ cells addr ≠ none := by
    by_cases mine : addr = elem
    · subst mine
      exact iff_of_true live (pending.live t addr before)
    · rw [same addr mine]
  refine ⟨?_, ?_, ?_, ?_, ?_⟩
  · intro u addr has
    rw [elems] at has
    exact (alive addr).mpr (pending.live u addr has)
  · intro u addr has
    rw [elems] at has
    exact pending.apart u addr has
  · intro u v addr has also
    rw [elems] at has also
    exact pending.distinct u v addr has also
  · intro u addr e isLinked
    by_cases self : u = t
    · rw [self, Function.update_self] at isLinked
      have mine : addr = elem := by
        rw [isLinked] at now
        exact Option.some.inj now
      rw [mine]
      exact link addr e isLinked
    · rw [Function.update_of_ne self] at isLinked
      have apart : addr ≠ elem := by
        rintro rfl
        exact self (pending.distinct u t addr (by rw [isLinked]; rfl) before)
      rw [nextAt, same addr apart]
      exact pending.linked u addr e isLinked
  · intro addr isLive
    simp only [elems]
    exact pending.covered addr ((alive addr).mp isLive)

theorem pending_without [DecidableEq T]
    (t : T) (pc : Sender P) (before : (senders t).elem = none) (now : pc.elem = none)
    (pending : Pending cells senders all) : Pending cells (Function.update senders t pc) all := by
  have elems (u : T) : (Function.update senders t pc u).elem = (senders u).elem := by
    by_cases self : u = t
    · rw [self, Function.update_self, now, before]
    · rw [Function.update_of_ne self]
  refine ⟨?_, ?_, ?_, ?_, ?_⟩
  · simpa only [elems] using pending.live
  · simpa only [elems] using pending.apart
  · simpa only [elems] using pending.distinct
  · intro u elem e isLinked
    by_cases self : u = t
    · rw [self, Function.update_self] at isLinked
      rw [isLinked] at now
      cases now
    · rw [Function.update_of_ne self] at isLinked
      exact pending.linked u elem e isLinked
  · simpa only [elems] using pending.covered

theorem pending_takes [DecidableEq T] [DecidableEq P]
    (t : T) (elem : P) (pc : Sender P) (before : (senders t).elem = none) (vacant : cells elem = none)
    (now : pc.elem = some elem) (notLinked : ∀ mine e, pc ≠ .linked mine e) (apart : elem ∉ all)
    (same : ∀ addr, addr ≠ elem → other addr = cells addr) (live : other elem ≠ none)
    (pending : Pending cells senders all) : Pending other (Function.update senders t pc) all := by
  have others (u : T) (addr : P) (has : (senders u).elem = some addr) : u ≠ t ∧ addr ≠ elem := by
    constructor
    · rintro rfl
      rw [before] at has
      cases has
    · rintro rfl
      exact pending.live u addr has vacant
  have split (u : T) (addr : P) (has : (Function.update senders t pc u).elem = some addr) :
      (u = t ∧ addr = elem) ∨ (senders u).elem = some addr := by
    by_cases self : u = t
    · rw [self, Function.update_self, now] at has
      exact .inl ⟨self, (Option.some.inj has).symm⟩
    · rw [Function.update_of_ne self] at has
      exact .inr has
  refine ⟨?_, ?_, ?_, ?_, ?_⟩
  · intro u addr has
    rcases split u addr has with ⟨_, rfl⟩ | old
    · exact live
    · rw [same addr (others u addr old).2]
      exact pending.live u addr old
  · intro u addr has
    rcases split u addr has with ⟨_, rfl⟩ | old
    · exact apart
    · exact pending.apart u addr old
  · intro u v addr has also
    rcases split u addr has with ⟨rfl, rfl⟩ | old
    · rcases split v addr also with ⟨rfl, _⟩ | old'
      · rfl
      · exact absurd rfl (others v addr old').2
    · rcases split v addr also with ⟨_, rfl⟩ | old'
      · exact absurd rfl (others u addr old).2
      · exact pending.distinct u v addr old old'
  · intro u addr e isLinked
    by_cases self : u = t
    · rw [self, Function.update_self] at isLinked
      exact absurd isLinked (notLinked addr e)
    · rw [Function.update_of_ne self] at isLinked
      rw [nextAt, same addr (others u addr (by rw [isLinked]; rfl)).2]
      exact pending.linked u addr e isLinked
  · intro addr isLive
    by_cases mine : addr = elem
    · exact .inr ⟨t, by rw [Function.update_self, now, mine]⟩
    · rw [same addr mine] at isLive
      rcases pending.covered addr isLive with inAll | ⟨u, has⟩
      · exact .inl inAll
      · exact .inr ⟨u, by rw [Function.update_of_ne (others u addr has).1, has]⟩

theorem pending_drops [DecidableEq T] [DecidableEq P]
    (t : T) (elem : P) (pc : Sender P) (before : (senders t).elem = some elem) (now : pc.elem = none)
    (same : ∀ addr, addr ≠ elem → other addr = cells addr)
    (more : ∀ addr, addr ∈ fewer ↔ addr ∈ all ∨ addr = elem ∧ other elem ≠ none) (pending : Pending cells senders all) :
    Pending other (Function.update senders t pc) fewer := by
  have split (u : T) (addr : P) (has : (Function.update senders t pc u).elem = some addr) :
      u ≠ t ∧ addr ≠ elem ∧ (senders u).elem = some addr := by
    by_cases self : u = t
    · rw [self, Function.update_self, now] at has
      cases has
    · rw [Function.update_of_ne self] at has
      refine ⟨self, ?_, has⟩
      rintro rfl
      exact self (pending.distinct u t addr has before)
  refine ⟨?_, ?_, ?_, ?_, ?_⟩
  · intro u addr has
    obtain ⟨_, apart, old⟩ := split u addr has
    rw [same addr apart]
    exact pending.live u addr old
  · intro u addr has
    obtain ⟨_, apart, old⟩ := split u addr has
    rw [more, not_or]
    exact ⟨pending.apart u addr old, fun mine => apart mine.1⟩
  · intro u v addr has also
    exact pending.distinct u v addr (split u addr has).2.2 (split v addr also).2.2
  · intro u addr e isLinked
    obtain ⟨other', apart, _⟩ := split u addr (by rw [isLinked]; rfl)
    rw [Function.update_of_ne other'] at isLinked
    rw [nextAt, same addr apart]
    exact pending.linked u addr e isLinked
  · intro addr isLive
    by_cases mine : addr = elem
    · exact .inl ((more addr).mpr (.inr ⟨mine, mine ▸ isLive⟩))
    · rw [same addr mine] at isLive
      rcases pending.covered addr isLive with inAll | ⟨u, has⟩
      · exact .inl ((more addr).mpr (.inl inAll))
      · refine .inr ⟨u, ?_⟩
        have notMe : u ≠ t := by
          rintro rfl
          rw [before] at has
          exact mine (Option.some.inj has).symm
        rw [Function.update_of_ne notMe, has]

end Pending

section Shape

variable (s after : Queue T W P M) (r now : Reader P) (sl ml hl : List (P × M))

theorem shape_same (shape : Shape s r sl ml hl) (cells : after.cells = s.cells) (stack : after.stack.link = s.stack.link)
    (head : after.head = s.head) (senders : after.senders = s.senders) (cache : after.cache = s.cache)
    (accepted : after.accepted = s.accepted) (delivered : after.delivered = s.delivered)
    (discarded : after.discarded = s.discarded) (rest : now.rest = r.rest) (hand : now.hand = r.hand)
    (still : now.closing = false → after.stack ≠ .closed → r.closing = false ∧ s.stack ≠ .closed) :
    Shape after now sl ml hl := by
  refine ⟨?_, ?_, ?_, ?_⟩
  · rw [cells, stack, head, cache, rest, hand]
    exact shape.layout
  · rw [cells, senders, cache, hand]
    exact shape.pending
  · rw [accepted, delivered, discarded]
    exact shape.flow.order
  · intro notClosing notClosed
    rw [discarded]
    obtain ⟨before, notBefore⟩ := still notClosing notClosed
    exact shape.flow.kept before notBefore

theorem shape_send [DecidableEq T] [DecidableEq P] (t : T) (elem : P) (msg : M) (shape : Shape s r sl ml hl)
    (taken : s.send t elem msg = some after) : Shape after r sl ml hl := by
  obtain ⟨idle, vacant, rfl⟩ := send_cases s after t elem msg taken
  have apart : elem ∉ holds sl ml hl (r.hand ++ s.cache) := fun member =>
    layout_live _ _ _ _ _ _ _ _ shape.layout elem member vacant
  refine ⟨?_, ?_, shape.flow.order, shape.flow.kept⟩
  · refine layout_agree s.cells _ _ _ _ _ _ _ _ ?_ shape.layout
    intro addr member
    have different : addr ≠ elem := fun same => apart (same ▸ member)
    exact Function.update_of_ne different _ _
  · refine pending_takes s.cells _ s.senders _ t elem _ (by rw [idle]; rfl) vacant rfl (by simp) apart ?_ ?_
      shape.pending
    · intro addr different
      exact Function.update_of_ne different _ _
    · simp [Queue.sendTo]

theorem shape_push [DecidableEq T] [DecidableEq P]
    (t : T) (elem : P) (e : Stack P) (pc : Sender P) (has : s.senders t = .linked elem e)
    (same : s.stack = e) (gone : pc.elem = none) (isOpen : e ≠ .closed) (shape : Shape s r sl ml hl) :
    ∃ sl', Shape
      (({ s with stack := .top elem, accepted := s.accepted ++ msgAt s.cells elem } : Queue T W P M).sendTo t pc)
      r sl' ml hl := by
  have mine : (s.senders t).elem = some elem := by rw [has]; rfl
  obtain ⟨cell, found⟩ := Option.ne_none_iff_exists'.mp (shape.pending.live t elem mine)
  have link : cell.next = s.stack.link := by
    have written := shape.pending.linked t elem e has
    rwa [nextAt, found, ← same] at written
  have content : msgAt s.cells elem = [cell.msg] := by rw [msgAt, found]; rfl
  have apart := shape.pending.apart t elem mine
  refine ⟨(elem, cell.msg) :: sl, ⟨?_, shape.layout.rest, shape.layout.head, shape.layout.live, ?_⟩, ?_, ?_, ?_⟩
  · exact .cons elem cell.msg s.stack.link sl (by rw [← link]; exact found) shape.layout.stack
  · exact List.nodup_cons.mpr ⟨apart, shape.layout.distinct⟩
  · refine pending_drops s.cells s.cells s.senders (holds sl ml hl (r.hand ++ s.cache)) _ t elem pc mine gone (fun _ _ => rfl) ?_ shape.pending
    intro addr
    change addr ∈ elem :: holds sl ml hl (r.hand ++ s.cache) ↔ _
    rw [List.mem_cons, or_comm]
    simp [found]
  · change s.accepted ++ msgAt s.cells elem = _
    rw [content, shape.flow.order]
    simp [Queue.sendTo, List.append_assoc]
  · intro notClosing _
    exact shape.flow.kept notClosing (same ▸ isOpen)

theorem shape_enqueue [DecidableEq T] [DecidableEq P]
    (t : T) (legal : ∀ elem e, s.senders t = .linked elem e → e ≠ .closed)
    (shape : Shape s r sl ml hl) (taken : s.enqueue t = some after) : ∃ sl', Shape after r sl' ml hl := by
  rcases enqueue_cases s after t taken with
    ⟨elem, pc, rfl⟩ | ⟨elem, e, pc, notClosed, rfl⟩ | ⟨elem, e, pc, same, rfl⟩ | ⟨elem, e, pc, _, rfl⟩ | ⟨pc, rfl⟩
  · have mine : (s.senders t).elem = some elem := by rw [pc]; rfl
    have apart := shape.pending.apart t elem mine
    refine ⟨sl, ?_, ?_, shape.flow.order, shape.flow.kept⟩
    · refine layout_agree s.cells _ _ _ _ _ _ _ _ ?_ shape.layout
      intro addr member
      exact free_other s.cells [elem] addr fun gone => apart (List.mem_singleton.mp gone ▸ member)
    · refine pending_drops s.cells _ s.senders (holds sl ml hl (r.hand ++ s.cache)) _ t elem _ mine rfl ?_ ?_ shape.pending
      · intro addr different
        exact free_other s.cells [elem] addr (by simpa using different)
      · intro addr
        simp [Queue.sendTo, free]
  · have mine : (s.senders t).elem = some elem := by rw [pc]; rfl
    have apart := shape.pending.apart t elem mine
    have live := shape.pending.live t elem mine
    refine ⟨sl, ?_, ?_, shape.flow.order, shape.flow.kept⟩
    · refine layout_agree s.cells _ _ _ _ _ _ _ _ ?_ shape.layout
      intro addr member
      exact set_next_same s.cells elem addr e.link fun same => apart (same ▸ member)
    · refine pending_keeps s.cells _ s.senders _ t elem (.linked elem e) mine rfl ?_ ?_ ?_ shape.pending
      · intro addr different
        exact set_next_same s.cells elem addr e.link different
      · rw [Queue.sendTo, Ne, set_next_live]
        exact live
      · rintro other seen ⟨⟩
        exact set_next_here s.cells elem e.link live
  · exact shape_push s r sl ml hl t elem e _ pc same (by split <;> rfl) (legal elem e pc) shape
  · have mine : (s.senders t).elem = some elem := by rw [pc]; rfl
    refine ⟨sl, shape.layout, ?_, shape.flow.order, shape.flow.kept⟩
    exact pending_keeps s.cells s.cells s.senders _ t elem (.ready elem s.stack) mine rfl (fun _ _ => rfl)
      (shape.pending.live t elem mine) (by simp) shape.pending
  · have none : (s.senders t).elem = none := by rw [pc]; rfl
    refine ⟨sl, shape.layout, ?_, shape.flow.order, shape.flow.kept⟩
    exact pending_without s.cells s.senders _ t .idle none rfl shape.pending

theorem shape_take_head [DecidableEq W]
    (w : W) (i : Nat) (idle : r.rest = none) (empty : r.hand = []) (open' : r.closing = false)
    (notClosed : s.stack ≠ .closed) (shape : Shape s r sl ml hl) (taken : s.takeHead w i = some after) :
    ∃ elem hl', after.readers = Function.update s.readers w (.took i elem) ∧
      Shape after (.took i elem) sl ml hl' := by
  obtain ⟨elem, isHead, rfl⟩ := Option.map_eq_some_iff.mp taken
  obtain ⟨⟨onStack, onRest, onHead, live, distinct⟩, pending, order, kept⟩ := shape
  rw [isHead] at onHead
  obtain ⟨msg, hl', rfl, here, later, content⟩ := chain_some s.cells elem hl onHead
  rw [idle] at onRest
  cases chain_none s.cells ml onRest
  rw [empty] at live distinct pending
  have moved : (holds sl [] hl' ([elem] ++ s.cache)).Perm (holds sl [] ((elem, msg) :: hl') ([] ++ s.cache)) := by
    simp only [holds, addrs_nil, addrs_cons, List.append_nil, List.nil_append, List.append_assoc]
    exact List.Perm.append_left _ List.perm_middle
  refine ⟨elem, hl', rfl, ⟨onStack, .nil, later, ?_, ?_⟩, ?_, ?_, ?_⟩
  · intro addr member
    rcases List.mem_append.mp member with isElem | inCache
    · rw [List.mem_singleton.mp isElem]
      change s.cells elem ≠ none
      rw [here]
      simp
    · exact live addr inCache
  · exact moved.nodup_iff.mpr distinct
  · refine pending_reader s.cells s.cells s.senders _ _ (fun _ _ => rfl) ?_ ?_ pending
    · exact fun addr member => moved.mem_iff.mp member
    · exact fun addr member gone => absurd (moved.mem_iff.mpr member) gone
  · have none := kept open' notClosed
    simp only [Queue.goTo, order, content, none]
    simp
  · intro _ _
    exact kept open' notClosed

theorem shape_fetched [DecidableEq W] (w : W) (goal : Goal) (elem : P) (isRest : r.rest = none) (empty : r.hand = [])
    (dry : s.head = none) (top : s.stack = .top elem) (same : r.closing = (goal == Goal.close))
    (shape : Shape s r sl ml hl) :
    Shape (({ s with stack := goal.endPtr } : Queue T W P M).goTo w (.moving goal (some elem)))
      (.moving goal (some elem)) [] sl hl := by
  obtain ⟨⟨onStack, onRest, onHead, live, distinct⟩, pending, order, kept⟩ := shape
  rw [top] at onStack
  rw [isRest] at onRest
  rw [dry] at onHead
  cases chain_none s.cells ml onRest
  cases chain_none s.cells hl onHead
  rw [empty] at live distinct pending
  have ended : (goal.endPtr : Stack P).link = none := by cases goal <;> rfl
  have moved : holds [] sl [] ([] ++ s.cache) = holds sl [] [] ([] ++ s.cache) := by simp [holds]
  refine ⟨⟨?_, onStack, ?_, live, ?_⟩, ?_, ?_, ?_⟩
  · change Chain s.cells (goal.endPtr : Stack P).link []
    rw [ended]
    exact .nil
  · change Chain s.cells s.head []
    rw [dry]
    exact .nil
  · change (holds [] sl [] ([] ++ s.cache)).Nodup
    rw [moved]
    exact distinct
  · change Pending s.cells s.senders (holds [] sl [] ([] ++ s.cache))
    rw [moved]
    exact pending
  · simp only [Queue.goTo, order]
    simp
  · intro notClosing _
    refine kept ?_ (by rw [top]; simp)
    rw [same]
    cases goal with
    | pop i => rfl
    | close => cases notClosing

theorem shape_moved [DecidableEq W] [DecidableEq P]
    (w : W) (goal : Goal) (elem : P) (shape : Shape s (.moving goal (some elem)) sl ml hl) :
    ∃ ml' hl', Shape
      (({ s with cells := setNext s.cells elem s.head, head := some elem } : Queue T W P M).goTo w
        (.moving goal (nextAt s.cells elem)))
      (.moving goal (nextAt s.cells elem)) sl ml' hl' := by
  obtain ⟨⟨onStack, onRest, onHead, live, distinct⟩, pending, order, kept⟩ := shape
  obtain ⟨msg, ml', rfl, here, later, content⟩ := chain_some s.cells elem ml onRest
  have moved : (holds sl ml' ((elem, msg) :: hl) ([] ++ s.cache)).Perm
      (holds sl ((elem, msg) :: ml') hl ([] ++ s.cache)) := by
    simp only [holds, addrs_cons, List.append_assoc, List.cons_append]
    exact List.Perm.append_left _ List.perm_middle
  have apart := moved.nodup_iff.mpr distinct
  have alone : (elem :: holds sl ml' hl ([] ++ s.cache)).Nodup := by
    refine List.Perm.nodup_iff ?_ |>.mp distinct
    simp only [holds, addrs_cons, List.append_assoc, List.cons_append]
    exact List.perm_middle
  have notIn := (List.nodup_cons.mp alone).1
  have same (addr : P) (member : addr ∈ holds sl ml' hl ([] ++ s.cache)) :
      setNext s.cells elem s.head addr = s.cells addr :=
    set_next_same s.cells elem addr s.head fun isElem => notIn (isElem ▸ member)
  simp only [holds, List.mem_append] at same notIn
  refine ⟨ml', (elem, msg) :: hl, ⟨?_, ?_, ?_, ?_, apart⟩, ?_, ?_, ?_⟩
  · exact chain_agree s.cells _ _ sl (fun addr member => same addr (by simp [member])) onStack
  · exact chain_agree s.cells _ _ ml' (fun addr member => same addr (by simp [member])) later
  · exact chain_push s.cells s.head hl elem msg content (fun member => notIn (by simp [member])) onHead
  · intro addr member
    change setNext s.cells elem s.head addr ≠ none
    rw [Ne, set_next_live]
    exact live addr member
  · refine pending_reader s.cells _ s.senders _ _ ?_ ?_ ?_ pending
    · intro addr outside
      refine set_next_same s.cells elem addr s.head fun isElem => outside ?_
      rw [isElem]
      simp [holds]
    · exact fun addr member => moved.mem_iff.mp member
    · exact fun addr member gone => absurd (moved.mem_iff.mpr member) gone
  · simp only [Queue.goTo, order]
    simp
  · intro notClosing notClosed
    refine kept ?_ notClosed
    cases goal with
    | pop i => rfl
    | close => cases notClosing

theorem shape_worked [DecidableEq W] [DecidableEq P]
    (w : W) (i : Nat) (elem : P) (kept : List P) (sub : List.Sublist kept (s.cache ++ [elem]))
    (idle : now.rest = none) (empty : now.hand = []) (notClosed : s.stack ≠ .closed)
    (shape : Shape s (.took i elem) sl ml hl) :
    Shape (({ s with
        cells := free s.cells ((s.cache ++ [elem]).filter fun addr => addr ∉ kept), cache := kept } :
          Queue T W P M).goTo w now) now sl ml hl := by
  obtain ⟨⟨onStack, onRest, onHead, live, distinct⟩, pending, order, keeps⟩ := shape
  have held (addr : P) (member : addr ∈ s.cache ++ [elem]) : addr ∈ [elem] ++ s.cache := by
    rw [List.mem_append] at member ⊢
    exact member.symm
  have parts := List.nodup_append'.mp (distinct : (addrs sl ++ addrs ml ++ addrs hl ++ ([elem] ++ s.cache)).Nodup)
  have outside (addr : P) (member : addr ∈ addrs sl ++ addrs ml ++ addrs hl) :
      free s.cells ((s.cache ++ [elem]).filter fun addr => addr ∉ kept) addr = s.cells addr := by
    refine free_other _ _ _ fun gone => ?_
    exact parts.2.2 member (held addr (List.mem_filter.mp gone).1)
  have stays (addr : P) (member : addr ∈ kept) :
      free s.cells ((s.cache ++ [elem]).filter fun addr => addr ∉ kept) addr = s.cells addr := by
    refine free_other _ _ _ fun gone => ?_
    simpa [member] using (List.mem_filter.mp gone).2
  simp only [List.mem_append] at outside
  refine ⟨⟨?_, ?_, ?_, ?_, ?_⟩, ?_, order, ?_⟩
  · exact chain_agree s.cells _ _ sl (fun addr member => outside addr (by simp [member])) onStack
  · rw [idle]
    exact chain_agree s.cells _ _ ml (fun addr member => outside addr (by simp [member])) onRest
  · exact chain_agree s.cells _ _ hl (fun addr member => outside addr (by simp [member])) onHead
  · intro addr member
    rw [empty] at member
    change free s.cells _ addr ≠ none
    rw [stays addr member]
    exact live addr (held addr (sub.subset member))
  · rw [empty]
    refine List.nodup_append'.mpr ⟨parts.1, ?_, ?_⟩
    · exact sub.nodup ((List.perm_append_comm.nodup_iff).mp parts.2.1)
    · intro addr member keptToo
      exact parts.2.2 member (held addr (sub.subset keptToo))
  · refine pending_reader s.cells _ s.senders _ _ ?_ ?_ ?_ pending
    · intro addr notIn
      refine free_other _ _ _ fun gone => notIn ?_
      exact List.mem_append_right _ (held addr (List.mem_filter.mp gone).1)
    · intro addr member
      rw [empty] at member
      rcases List.mem_append.mp member with inChains | isKept
      · exact List.mem_append_left _ inChains
      · exact List.mem_append_right _ (held addr (sub.subset isKept))
    · intro addr member gone
      rw [empty] at gone
      refine free_gone _ _ _ (List.mem_filter.mpr ⟨?_, ?_⟩)
      · rcases List.mem_append.mp member with inChains | isHeld
        · exact absurd (List.mem_append_left _ inChains) gone
        · exact List.mem_append.mpr (List.mem_append.mp isHeld).symm
      · have notKept : addr ∉ kept := fun keptToo => gone (List.mem_append_right _ keptToo)
        simpa using notKept
  · intro _ _
    exact keeps rfl notClosed

theorem shape_cleared [DecidableEq P] (last : Bool) (elem : P) (isHead : s.head = some elem)
    (shape : Shape s (.clearing last) sl ml hl) :
    ∃ hl', Shape
      ({ s with
        cells := free s.cells [elem], head := nextAt s.cells elem
        discarded := s.discarded ++ msgAt s.cells elem } : Queue T W P M) (.clearing last) sl ml hl' := by
  obtain ⟨⟨onStack, onRest, onHead, live, distinct⟩, pending, order, kept⟩ := shape
  rw [isHead] at onHead
  obtain ⟨msg, hl', rfl, here, later, content⟩ := chain_some s.cells elem hl onHead
  cases chain_none s.cells ml onRest
  have moved : (elem :: holds sl [] hl' ([] ++ s.cache)).Perm (holds sl [] ((elem, msg) :: hl') ([] ++ s.cache)) := by
    simp only [holds, addrs_nil, addrs_cons, List.append_nil, List.nil_append, List.append_assoc, List.cons_append]
    exact List.perm_middle.symm
  have alone := List.nodup_cons.mp (moved.nodup_iff.mpr distinct)
  have same (addr : P) (member : addr ∈ holds sl [] hl' ([] ++ s.cache)) : free s.cells [elem] addr = s.cells addr :=
    free_other s.cells [elem] addr fun gone => alone.1 (List.mem_singleton.mp gone ▸ member)
  refine ⟨hl', layout_agree s.cells _ _ _ _ _ _ _ _ same ⟨onStack, .nil, later, live, alone.2⟩, ?_, ?_, ?_⟩
  · refine pending_reader s.cells _ s.senders _ _ ?_ ?_ ?_ pending
    · intro addr outside
      refine free_other s.cells [elem] addr fun gone => outside (moved.mem_iff.mp ?_)
      rw [List.mem_singleton.mp gone]
      exact List.mem_cons_self
    · exact fun addr member => moved.mem_iff.mp (List.mem_cons_of_mem _ member)
    · intro addr member gone
      rcases List.mem_cons.mp (moved.mem_iff.mpr member) with isElem | stays
      · exact free_gone s.cells [elem] addr (List.mem_singleton.mpr isElem)
      · exact absurd stays gone
  · simp only [order, content]
    simp
  · intro notClosing
    cases notClosing

end Shape

def Current (s : Queue T W P M) (r : Reader P) : Prop :=
  (r = .off ∧ ∀ w, s.readers w = .off) ∨ ∃ w, r = s.readers w ∧ ∀ v, v ≠ w → s.readers v = .off

def Shaped (s : Queue T W P M) : Prop := ∃ r sl ml hl, Current s r ∧ Shape s r sl ml hl

section Step

variable [DecidableEq W]

variable (s after : Queue T W P M) (r now : Reader P) (sl ml hl : List (P × M))

theorem current_here (w : W) (current : Current s r) (on : s.readers w ≠ .off) :
    r = s.readers w ∧ ∀ v, v ≠ w → s.readers v = .off := by
  rcases current with ⟨_, off⟩ | ⟨v, same, others⟩
  · exact absurd (off w) on
  · by_cases here : w = v
    · rw [here]
      exact ⟨same, others⟩
    · exact absurd (others w here) on

theorem current_moves (w : W) (others : ∀ v, v ≠ w → s.readers v = .off)
    (readers : after.readers = Function.update s.readers w now) : Current after now := by
  refine .inr ⟨w, by rw [readers, Function.update_self], fun v different => ?_⟩
  rw [readers, Function.update_of_ne different]
  exact others v different

theorem reader_ok [DecidableEq T] (token : Token T W) (w : W) (owned : Owned s token) (on : s.readers w ≠ .off) :
    ReaderOk s (s.readers w) :=
  owned.reading w (token_of_reader s token w owned on)

theorem shaped_same (w : W) (others : ∀ v, v ≠ w → s.readers v = .off) (shape : Shape s r sl ml hl)
    (readers : after.readers = Function.update s.readers w now) (cells : after.cells = s.cells)
    (stack : after.stack.link = s.stack.link) (head : after.head = s.head) (senders : after.senders = s.senders)
    (cache : after.cache = s.cache) (accepted : after.accepted = s.accepted)
    (delivered : after.delivered = s.delivered) (discarded : after.discarded = s.discarded)
    (rest : now.rest = r.rest) (hand : now.hand = r.hand)
    (still : now.closing = false → after.stack ≠ .closed → r.closing = false ∧ s.stack ≠ .closed) : Shaped after :=
  ⟨now, sl, ml, hl, current_moves s after now w others readers,
    shape_same s after r now sl ml hl shape cells stack head senders cache accepted delivered discarded rest hand still⟩

theorem shaped_goes (w : W) (others : ∀ v, v ≠ w → s.readers v = .off) (shape : Shape s r sl ml hl)
    (rest : now.rest = r.rest) (hand : now.hand = r.hand) (still : now.closing = false → r.closing = false) :
    Shaped (s.goTo w now) :=
  shaped_same s _ r now sl ml hl w others shape rfl rfl rfl rfl rfl rfl rfl rfl rfl rest hand
    fun goesOn notClosed => ⟨still goesOn, notClosed⟩

theorem shaped_at [DecidableEq T] (token : Token T W) (w : W) (owned : Owned s token) (current : Current s r)
    (shape : Shape s r sl ml hl) (here : s.readers w = now) (on : now ≠ .off) :
    ReaderOk s now ∧ Shape s now sl ml hl ∧ ∀ v, v ≠ w → s.readers v = .off := by
  obtain ⟨same, others⟩ := current_here s r w current (here ▸ on)
  obtain rfl : r = now := same.trans here
  exact ⟨(reader_at s token w r owned here on).2, shape, others⟩

theorem shaped_try_block [DecidableEq P] (w : W) (failed : Queue T W P M) (others : ∀ v, v ≠ w → s.readers v = .off)
    (shape : Shape s r sl ml hl) (idle : r.rest = none) (empty : r.hand = []) (open' : r.closing = false)
    (later : Shaped failed) : Shaped (s.tryBlock w failed) := by
  unfold Queue.tryBlock
  split
  · next isEmpty =>
      exact shaped_same s _ r .off sl ml hl w others shape rfl rfl (by simp [Queue.goTo, isEmpty, Stack.link]) rfl rfl
        rfl rfl rfl rfl idle.symm empty.symm fun _ _ => ⟨open', by simp [isEmpty]⟩
  · split
    · next blocked =>
        exact shaped_same s _ r .off sl ml hl w others shape rfl rfl rfl rfl rfl rfl rfl rfl rfl idle.symm empty.symm
          fun _ _ => ⟨open', by simp [blocked]⟩
    · exact later

theorem shaped_fetch [DecidableEq P]
    (w : W) (goal : Goal) (e : Stack P) (weak : Bool) (others : ∀ v, v ≠ w → s.readers v = .off)
    (ok : ReaderOk s (.fetching goal e)) (shape : Shape s (.fetching goal e) sl ml hl) :
    Shaped (s.fetch w goal e weak) := by
  have seen := ok.seen e rfl
  unfold Queue.fetch
  split
  · next ended =>
      cases goal with
      | close => exact absurd ended seen.2
      | pop i =>
          exact shaped_goes s _ (.blocking i) sl ml hl w others shape rfl rfl fun _ => rfl
  · next notEnded =>
      split
      · next swapped =>
          cases e with
          | closed => exact absurd rfl seen.2
          | blocked => exact absurd rfl seen.1
          | empty =>
              cases goal with
              | pop i => exact absurd rfl notEnded
              | close =>
                  refine shaped_same s _ _ .off sl ml hl w others shape rfl rfl ?_ rfl rfl rfl rfl rfl rfl rfl rfl ?_
                  · simp [Queue.goTo, Goal.endPtr, Stack.link, swapped.2]
                  · exact fun _ notClosed => absurd rfl notClosed
          | top elem =>
              refine ⟨.moving goal (some elem), [], sl, hl, current_moves s _ _ w others rfl, ?_⟩
              exact shape_fetched s _ sl ml hl w goal elem rfl rfl (ok.dry rfl) swapped.2 (by cases goal <;> rfl) shape
      · refine shaped_goes s _ (.fetching goal s.stack) sl ml hl w others shape rfl rfl ?_
        intro notClosing
        cases goal with
        | pop i => rfl
        | close => cases notClosing

theorem shaped_take_head (w : W) (i : Nat) (others : ∀ v, v ≠ w → s.readers v = .off) (idle : r.rest = none)
    (empty : r.hand = []) (open' : r.closing = false) (notClosed : s.stack ≠ .closed) (shape : Shape s r sl ml hl)
    (taken : s.takeHead w i = some after) : Shaped after := by
  obtain ⟨elem, hl', readers, shaped⟩ := shape_take_head s after r sl ml hl w i idle empty open' notClosed shape taken
  exact ⟨.took i elem, sl, ml, hl', current_moves s after _ w others readers, shaped⟩

variable (maxThroughput : Nat)

theorem shaped_read [DecidableEq T] [DecidableEq P]
    (token : Token T W) (w : W) (weak exits : Bool) (kept : List P) (owned : Owned s token)
    (shaped : Shaped s) (taken : s.read maxThroughput w weak exits kept = some after) : Shaped after := by
  obtain ⟨r, sl, ml, hl, current, shape⟩ := shaped
  unfold Queue.read at taken
  split at taken
  · cases taken
  · next pc =>
      obtain ⟨ok, shape, others⟩ := shaped_at s r _ sl ml hl token w owned current shape pc (by simp)
      cases taken
      exact shaped_goes s _ (if exits then .clearing false else .top 0) sl ml hl w others shape (by cases exits <;> rfl)
        (by cases exits <;> rfl) fun _ => rfl
  · next i pc =>
      obtain ⟨ok, shape, others⟩ := shaped_at s r _ sl ml hl token w owned current shape pc (by simp)
      have opened := ok.opened rfl
      split at taken
      · split at taken
        · cases taken
          exact shaped_goes s _ (.fetching (.pop i) s.stack) sl ml hl w others shape rfl rfl fun _ => rfl
        · exact shaped_take_head s after _ sl ml hl w i others rfl rfl rfl opened.2 shape taken
      · split at taken
        · cases taken
          exact shaped_goes s _ (.peeked s.stack) sl ml hl w others shape rfl rfl fun _ => rfl
        · cases taken
          exact shaped_same s _ _ .off sl ml hl w others shape rfl rfl rfl rfl rfl rfl rfl rfl rfl rfl rfl
            fun _ _ => ⟨rfl, opened.2⟩
  · next goal e pc =>
      obtain ⟨ok, shape, others⟩ := shaped_at s r _ sl ml hl token w owned current shape pc (by simp)
      cases taken
      exact shaped_fetch s sl ml hl w goal e weak others ok shape
  · next goal e pc =>
      obtain ⟨ok, shape, others⟩ := shaped_at s r _ sl ml hl token w owned current shape pc (by simp)
      cases e with
      | some elem =>
          cases taken
          obtain ⟨ml', hl', moved⟩ := shape_moved s sl ml hl w goal elem shape
          exact ⟨_, sl, ml', hl', current_moves s _ _ w others rfl, moved⟩
      | none =>
          cases goal with
          | pop i => exact shaped_take_head s after _ sl ml hl w i others rfl rfl rfl (ok.opened rfl).2 shape taken
          | close =>
              cases taken
              exact shaped_goes s _ (.clearing true) sl ml hl w others shape rfl rfl (by simp [Reader.closing])
  · next i elem pc =>
      obtain ⟨ok, shape, others⟩ := shaped_at s r _ sl ml hl token w owned current shape pc (by simp)
      split at taken
      · next sub =>
          cases taken
          refine ⟨_, sl, ml, hl, current_moves s _ _ w others rfl, ?_⟩
          exact shape_worked s _ sl ml hl w i elem kept sub (by cases exits <;> rfl) (by cases exits <;> rfl)
            (ok.opened rfl).2 shape
      · cases taken
  · next i pc =>
      obtain ⟨ok, shape, others⟩ := shaped_at s r _ sl ml hl token w owned current shape pc (by simp)
      cases taken
      refine shaped_try_block s _ sl ml hl w _ others shape rfl rfl rfl ?_
      exact shaped_goes s _ (.top (i + 1)) sl ml hl w others shape rfl rfl fun _ => rfl
  · next e pc =>
      obtain ⟨ok, shape, others⟩ := shaped_at s r _ sl ml hl token w owned current shape pc (by simp)
      have opened := ok.opened rfl
      split at taken
      · cases taken
        exact shaped_goes s _ .lastBlock sl ml hl w others shape rfl rfl fun _ => rfl
      · cases taken
        exact shaped_same s _ _ .off sl ml hl w others shape rfl rfl rfl rfl rfl rfl rfl rfl rfl rfl rfl
          fun _ _ => ⟨rfl, opened.2⟩
  · next pc =>
      obtain ⟨ok, shape, others⟩ := shaped_at s r _ sl ml hl token w owned current shape pc (by simp)
      cases taken
      refine shaped_try_block s _ sl ml hl w _ others shape rfl rfl rfl ?_
      exact shaped_same s _ _ .off sl ml hl w others shape rfl rfl rfl rfl rfl rfl rfl rfl rfl rfl rfl
        fun _ _ => ⟨rfl, (ok.opened rfl).2⟩
  · next last pc =>
      obtain ⟨ok, shape, others⟩ := shaped_at s r _ sl ml hl token w owned current shape pc (by simp)
      cases taken
      unfold Queue.clear
      split
      · next elem isHead =>
          obtain ⟨hl', cleared⟩ := shape_cleared s sl ml hl last elem isHead shape
          refine ⟨_, sl, ml, hl', .inr ⟨w, ?_, others⟩, cleared⟩
          exact pc.symm
      · cases last with
        | true =>
            refine shaped_same s _ _ .off sl ml hl w others shape rfl rfl rfl rfl rfl rfl rfl rfl rfl rfl rfl ?_
            exact fun _ notClosed => absurd (ok.shut rfl) notClosed
        | false =>
            exact shaped_goes s _ (.fetching .close s.stack) sl ml hl w others shape rfl rfl (by simp [Reader.closing])

theorem shaped_step [DecidableEq T] [DecidableEq P]
    (token : Token T W) (label : Label T W P M) (owned : Owned s token) (shaped : Shaped s)
    (taken : s.step maxThroughput label = some after) : Shaped after := by
  cases label with
  | send t elem msg =>
      obtain ⟨r, sl, ml, hl, current, shape⟩ := shaped
      have sent := shape_send s after r sl ml hl t elem msg shape taken
      obtain ⟨_, _, rfl⟩ := send_cases s after t elem msg taken
      exact ⟨r, sl, ml, hl, current, sent⟩
  | sender t =>
      obtain ⟨r, sl, ml, hl, current, shape⟩ := shaped
      obtain ⟨sl', pushed⟩ := shape_enqueue s after r sl ml hl t (owned.linked t) shape taken
      have readers : after.readers = s.readers := by
        rcases enqueue_cases s after t taken with
          ⟨_, _, rfl⟩ | ⟨_, _, _, _, rfl⟩ | ⟨_, _, _, _, rfl⟩ | ⟨_, _, _, _, rfl⟩ | ⟨_, rfl⟩ <;> rfl
      refine ⟨r, sl', ml, hl, ?_, pushed⟩
      rwa [Current, readers]
  | resume w =>
      obtain ⟨r, sl, ml, hl, current, shape⟩ := shaped
      obtain ⟨jobs, off, count, rfl⟩ := resume_cases s after w taken
      cases queue_of_job s token owned (by simp [count])
      have allOff (v : W) : s.readers v = .off := owned.others v (by simp)
      have isOff : r = .off := by
        rcases current with ⟨isOff, _⟩ | ⟨v, same, _⟩
        · exact isOff
        · rw [same, allOff v]
      subst isOff
      exact shaped_same s _ .off .starting sl ml hl w (fun v _ => allOff v) shape rfl rfl rfl rfl rfl rfl rfl rfl rfl
        rfl rfl fun _ notClosed => ⟨rfl, notClosed⟩
  | reader w weak exits kept => exact shaped_read s after maxThroughput token w weak exits kept owned shaped taken

end Step

variable (maxThroughput : Nat)

theorem launched_shaped : Shaped (launched : Queue T W P M) := by
  refine ⟨.off, [], [], [], .inl ⟨rfl, fun _ => rfl⟩, ⟨.nil, .nil, .nil, by simp [Reader.hand, launched], by simp [holds, Reader.hand, launched]⟩, ?_, ?_, ?_⟩
  · exact ⟨by simp [launched, Sender.elem], by simp [launched, Sender.elem], by simp [launched, Sender.elem],
      by simp [launched], by simp [launched]⟩
  · rfl
  · exact fun _ _ => rfl

theorem shaped_run [DecidableEq T] [DecidableEq W] [DecidableEq P]
    (s : Queue T W P M) (reached : (mailboxLts maxThroughput).Reach Lts.anyStep s) : Shaped s := by
  refine (mailboxLts maxThroughput).reach_invariant Lts.anyStep Shaped launched_shaped ?_ s reached
  intro s label after before shaped _ taken
  obtain ⟨token, owned⟩ := owned_run maxThroughput s before
  exact shaped_step s after maxThroughput token label owned shaped taken

def Queue.Quiet (s : Queue T W P M) : Prop :=
  s.jobs = 0 ∧ (∀ w, s.readers w = .off) ∧ ∀ t, s.senders t ≠ .waking

theorem token_of_quiet [DecidableEq T] [DecidableEq W]
    (s : Queue T W P M) (token : Token T W) (owned : Owned s token) (quiet : s.Quiet) :
    token = .free := by
  cases token with
  | free => rfl
  | queue =>
      have one := owned.jobs
      rw [quiet.1] at one
      cases one
  | reader w => exact absurd (quiet.2.1 w) (owned.reading w rfl).on
  | sender t => exact absurd ((owned.waking t).mpr rfl) (quiet.2.2 t)

theorem runs_alone [DecidableEq T] [DecidableEq W] [DecidableEq P]
    (s : Queue T W P M) (reached : (mailboxLts maxThroughput).Reach Lts.anyStep s) :
    s.jobs ≤ 1 ∧ (s.jobs = 1 → ∀ w, s.readers w = .off) ∧
      (∀ v w, s.readers v ≠ .off → s.readers w ≠ .off → v = w) ∧
      (∀ w, s.readers w ≠ .off → (s.readers w).shut = false → s.stack ≠ .closed ∧ s.stack ≠ .blocked) ∧
      (∀ w goal e, s.readers w = .fetching goal e → s.head = none ∧ e ≠ .closed ∧ e ≠ .blocked) ∧
      (s.Quiet → s.stack = .closed ∨ s.stack = .blocked) := by
  obtain ⟨token, owned⟩ := owned_run maxThroughput s reached
  refine ⟨?_, ?_, ?_, ?_, ?_, ?_⟩
  · rw [owned.jobs]
    split <;> simp
  · intro one w
    cases queue_of_job s token owned (by simp [one])
    exact owned.others w (by simp)
  · intro v w onV onW
    have first := token_of_reader s token v owned onV
    have second := token_of_reader s token w owned onW
    rw [first] at second
    cases second
    rfl
  · intro w on notShut
    have opened := (reader_ok s token w owned on).opened notShut
    exact ⟨opened.2, opened.1⟩
  · intro w goal e pc
    have ok := reader_ok s token w owned (by simp [pc])
    rw [pc] at ok
    exact ⟨ok.dry rfl, (ok.seen e rfl).2, (ok.seen e rfl).1⟩
  · intro quiet
    have shut := (owned.free (token_of_quiet s token owned quiet)).2
    cases stack : s.stack with
    | closed => exact .inl rfl
    | blocked => exact .inr rfl
    | empty => exact absurd (by simp [stack, Stack.Open]) shut
    | top elem => exact absurd (by simp [stack, Stack.Open]) shut

def sampleRun : List (Label (Fin 2) Unit Nat Nat) :=
  [.send 0 1 10, .sender 0, .sender 0, .resume (), .reader () false false [], .reader () false false [], .reader () false false [],
    .send 1 2 20, .sender 1, .sender 1, .reader () false false [], .reader () false false [],
    .reader () false false [], .reader () false false [], .reader () false false [], .reader () false false [],
    .reader () false false [], .reader () false false [], .reader () false false [], .reader () false false [],
    .reader () false false []]

theorem runs_alone_waiting : ∃ s : Queue (Fin 2) Unit Nat Nat, (mailboxLts 5).Reach Lts.anyStep s ∧
    s.stack = .blocked ∧ s.jobs ≤ 1 := by
  obtain ⟨s, reached, waits⟩ := (mailboxLts 5).run_finds Lts.anyStep sampleRun
    (fun s => s.stack = .blocked) (by decide)
  exact ⟨s, reached, by simpa using waits, (runs_alone 5 s reached).1⟩

theorem shaped_quiet [DecidableEq T] [DecidableEq W]
    (s : Queue T W P M) (token : Token T W) (owned : Owned s token) (quiet : s.Quiet) (r : Reader P)
    (sl ml hl : List (P × M)) (current : Current s r) (shape : Shape s r sl ml hl) :
    sl = [] ∧ ml = [] ∧ hl = [] ∧ r = .off := by
  cases token_of_quiet s token owned quiet
  obtain ⟨noHead, shut⟩ := owned.free rfl
  have isOff : r = .off := by
    rcases current with ⟨isOff, _⟩ | ⟨v, same, _⟩
    · exact isOff
    · rw [same, quiet.2.1 v]
  subst isOff
  have noStack : s.stack.link = none := by
    cases stack : s.stack with
    | top elem => exact absurd (by simp [stack, Stack.Open]) shut
    | _ => rfl
  obtain ⟨onStack, onRest, onHead, _, _⟩ := shape.layout
  rw [noStack] at onStack
  rw [noHead] at onHead
  exact ⟨chain_none s.cells sl onStack, chain_none s.cells ml onRest, chain_none s.cells hl onHead, rfl⟩

theorem taken_in_order [DecidableEq T] [DecidableEq W] [DecidableEq P]
    (s : Queue T W P M) (reached : (mailboxLts maxThroughput).Reach Lts.anyStep s) :
    ∃ r sl ml hl, Current s r ∧ Chain s.cells s.stack.link sl ∧ Chain s.cells r.rest ml ∧ Chain s.cells s.head hl ∧
      s.accepted = s.delivered ++ s.discarded ++ ((msgs ml).reverse ++ msgs hl ++ (msgs sl).reverse) ∧
      (s.stack ≠ .closed → (∀ w, (s.readers w).closing = false) → s.discarded = []) ∧
      (s.Quiet → sl = [] ∧ ml = [] ∧ hl = []) := by
  obtain ⟨token, owned⟩ := owned_run maxThroughput s reached
  obtain ⟨r, sl, ml, hl, current, shape⟩ := shaped_run maxThroughput s reached
  refine ⟨r, sl, ml, hl, current, shape.layout.stack, shape.layout.rest, shape.layout.head, shape.flow.order, ?_, ?_⟩
  · intro notClosed notClosing
    refine shape.flow.kept ?_ notClosed
    rcases current with ⟨rfl, _⟩ | ⟨w, rfl, _⟩
    · rfl
    · exact notClosing w
  · intro quiet
    obtain ⟨noStack, noRest, noHead, _⟩ := shaped_quiet s token owned quiet r sl ml hl current shape
    exact ⟨noStack, noRest, noHead⟩

theorem taken_in_order_waiting : ∃ s : Queue (Fin 2) Unit Nat Nat, (mailboxLts 5).Reach Lts.anyStep s ∧
    s.accepted = [10, 20] ∧ s.delivered = [10] ∧ ∃ sl ml hl : List (Nat × Nat), Chain s.cells s.stack.link sl ∧
      Chain s.cells s.head hl ∧ (msgs ml).reverse ++ msgs hl ++ (msgs sl).reverse = [20] := by
  obtain ⟨s, reached, done⟩ := (mailboxLts 5).run_finds Lts.anyStep (sampleRun.take 12)
    (fun s => decide (s.accepted = [10, 20] ∧ s.delivered = [10] ∧ s.discarded = [])) (by decide)
  obtain ⟨accepted, delivered, discarded⟩ := of_decide_eq_true done
  obtain ⟨_, sl, ml, hl, _, onStack, _, atHead, all, _⟩ := taken_in_order 5 s reached
  rw [accepted, delivered, discarded] at all
  exact ⟨s, reached, accepted, delivered, sl, ml, hl, onStack, atHead, (List.cons.inj all).2.symm⟩

theorem elements_owned_once [DecidableEq T] [DecidableEq W] [DecidableEq P]
    (s : Queue T W P M) (reached : (mailboxLts maxThroughput).Reach Lts.anyStep s) :
    ∃ r sl ml hl, Current s r ∧ Chain s.cells s.stack.link sl ∧ Chain s.cells r.rest ml ∧ Chain s.cells s.head hl ∧
      (holds sl ml hl (r.hand ++ s.cache)).Nodup ∧
      (∀ addr, s.cells addr ≠ none ↔
        addr ∈ holds sl ml hl (r.hand ++ s.cache) ∨ ∃ t, (s.senders t).elem = some addr) ∧
      (∀ t elem, (s.senders t).elem = some elem →
        elem ∉ holds sl ml hl (r.hand ++ s.cache) ∧ ∀ u, (s.senders u).elem = some elem → u = t) ∧
      (∀ elem, s.stack = .top elem ∨ s.head = some elem → elem ∈ holds sl ml hl (r.hand ++ s.cache)) ∧
      (∀ w elem, elem ∈ (s.readers w).hand ∨ (s.readers w).rest = some elem →
        elem ∈ holds sl ml hl (r.hand ++ s.cache)) ∧
      (s.Quiet → holds sl ml hl (r.hand ++ s.cache) = s.cache) := by
  obtain ⟨token, owned⟩ := owned_run maxThroughput s reached
  obtain ⟨r, sl, ml, hl, current, shape⟩ := shaped_run maxThroughput s reached
  have layout := shape.layout
  have pending := shape.pending
  have starts (start : Option P) (chain : List (P × M)) (linked : Chain s.cells start chain) (elem : P)
      (isStart : start = some elem) : elem ∈ addrs chain := by
    subst isStart
    obtain ⟨msg, rest, rfl, _⟩ := chain_some s.cells elem chain linked
    simp
  refine ⟨r, sl, ml, hl, current, layout.stack, layout.rest, layout.head, layout.distinct, ?_, ?_, ?_, ?_, ?_⟩
  · intro addr
    refine ⟨pending.covered addr, ?_⟩
    rintro (member | ⟨t, has⟩)
    · exact layout_live _ _ _ _ _ _ _ _ layout addr member
    · exact pending.live t addr has
  · intro t elem has
    exact ⟨pending.apart t elem has, fun u also => pending.distinct u t elem also has⟩
  · rintro elem (onStack | atHead)
    · have member := starts _ sl layout.stack elem (by rw [onStack]; rfl)
      simp [holds, member]
    · have member := starts _ hl layout.head elem atHead
      simp [holds, member]
  · intro w elem reads
    by_cases on : s.readers w = .off
    · rw [on] at reads
      simp [Reader.hand, Reader.rest] at reads
    · rw [← (current_here s r w current on).1] at reads
      rcases reads with inHand | isRest
      · simp [holds, inHand]
      · have member := starts _ ml layout.rest elem isRest
        simp [holds, member]
  · intro quiet
    obtain ⟨rfl, rfl, rfl, rfl⟩ := shaped_quiet s token owned quiet r sl ml hl current shape
    simp [holds, Reader.hand]

theorem elements_owned_once_waiting : ∃ s : Queue (Fin 2) Unit Nat Nat, (mailboxLts 5).Reach Lts.anyStep s ∧
    s.delivered = [10, 20] ∧ ∃ sl ml hl : List (Nat × Nat), ∃ held, Chain s.cells s.stack.link sl ∧
      (holds sl ml hl held).Nodup ∧
      ∀ addr, s.cells addr ≠ none ↔ addr ∈ holds sl ml hl held ∨ ∃ t, (s.senders t).elem = some addr := by
  obtain ⟨s, reached, done⟩ := (mailboxLts 5).run_finds Lts.anyStep sampleRun
    (fun s => s.delivered = [10, 20]) (by decide)
  obtain ⟨_, sl, ml, hl, _, onStack, _, _, distinct, live, _⟩ := elements_owned_once 5 s reached
  exact ⟨s, reached, by simpa using done, sl, ml, hl, _, onStack, distinct, live⟩

end VsLab.Mailbox
