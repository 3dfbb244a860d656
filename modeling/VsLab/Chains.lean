import Mathlib.Logic.Function.Basic
import Mathlib.Data.List.Nodup

set_option autoImplicit false

-- Singly linked lists in a store of cells that are addressed, allocated and freed.
namespace Chains

structure Cell (P M : Type) where
  msg : M
  next : Option P

variable {P M : Type}

def nextAt (cells : P → Option (Cell P M)) (addr : P) : Option P := (cells addr).bind Cell.next

def msgAt (cells : P → Option (Cell P M)) (addr : P) : List M := ((cells addr).map Cell.msg).toList

inductive Chain (cells : P → Option (Cell P M)) : Option P → List (P × M) → Prop where
  | nil : Chain cells none []
  | cons (addr : P) (msg : M) (next : Option P) (rest : List (P × M)) (here : cells addr = some ⟨msg, next⟩)
      (later : Chain cells next rest) : Chain cells (some addr) ((addr, msg) :: rest)

def addrs (chain : List (P × M)) : List P := chain.map Prod.fst

def msgs (chain : List (P × M)) : List M := chain.map Prod.snd

@[simp] theorem addrs_nil : addrs ([] : List (P × M)) = [] := rfl
@[simp] theorem addrs_cons (addr : P) (msg : M) (rest : List (P × M)) :
    addrs ((addr, msg) :: rest) = addr :: addrs rest := rfl
@[simp] theorem msgs_nil : msgs ([] : List (P × M)) = [] := rfl
@[simp] theorem msgs_cons (addr : P) (msg : M) (rest : List (P × M)) :
    msgs ((addr, msg) :: rest) = msg :: msgs rest := rfl

theorem chain_none (cells : P → Option (Cell P M)) (chain : List (P × M)) (linked : Chain cells none chain) :
    chain = [] := by
  cases linked
  rfl

theorem chain_some (cells : P → Option (Cell P M)) (addr : P) (chain : List (P × M))
    (linked : Chain cells (some addr) chain) :
    ∃ msg rest, chain = (addr, msg) :: rest ∧ cells addr = some ⟨msg, nextAt cells addr⟩ ∧
      Chain cells (nextAt cells addr) rest ∧ msgAt cells addr = [msg] := by
  cases linked with
  | cons addr msg next rest here later =>
      have isNext : nextAt cells addr = next := by rw [nextAt, here]; rfl
      refine ⟨msg, rest, rfl, ?_, ?_, ?_⟩
      · rw [isNext, here]
      · rwa [isNext]
      · rw [msgAt, here]
        rfl

theorem chain_live (cells : P → Option (Cell P M)) (start : Option P) (chain : List (P × M))
    (linked : Chain cells start chain) (addr : P) (member : addr ∈ addrs chain) : cells addr ≠ none := by
  induction linked with
  | nil => simp at member
  | cons here' msg next rest here later ih =>
      rw [addrs_cons, List.mem_cons] at member
      rcases member with rfl | deeper
      · rw [here]
        simp
      · exact ih deeper

theorem chain_agree (cells other : P → Option (Cell P M)) (start : Option P) (chain : List (P × M))
    (same : ∀ addr ∈ addrs chain, other addr = cells addr) (linked : Chain cells start chain) :
    Chain other start chain := by
  induction linked with
  | nil => exact .nil
  | cons addr msg next rest here later ih =>
      refine .cons addr msg next rest ?_ (ih fun deeper member => same deeper (List.mem_cons_of_mem _ member))
      rw [same addr (by simp), here]

section Store

variable [DecidableEq P]

def setNext (cells : P → Option (Cell P M)) (addr : P) (next : Option P) : P → Option (Cell P M) :=
  Function.update cells addr ((cells addr).map fun cell => { cell with next := next })

theorem set_next_same (cells : P → Option (Cell P M)) (addr other : P) (next : Option P) (different : other ≠ addr) :
    setNext cells addr next other = cells other := Function.update_of_ne different _ _

theorem set_next_live (cells : P → Option (Cell P M)) (addr other : P) (next : Option P) :
    setNext cells addr next other = none ↔ cells other = none := by
  by_cases same : other = addr
  · subst same
    rw [setNext, Function.update_self, Option.map_eq_none_iff]
  · rw [setNext, Function.update_of_ne same]

theorem set_next_here (cells : P → Option (Cell P M)) (addr : P) (next : Option P) (live : cells addr ≠ none) :
    nextAt (setNext cells addr next) addr = next := by
  obtain ⟨cell, found⟩ := Option.ne_none_iff_exists'.mp live
  rw [nextAt, setNext, Function.update_self, found]
  rfl

theorem chain_push (cells : P → Option (Cell P M)) (start : Option P) (chain : List (P × M)) (addr : P) (msg : M)
    (held : msgAt cells addr = [msg]) (elsewhere : addr ∉ addrs chain) (linked : Chain cells start chain) :
    Chain (setNext cells addr start) (some addr) ((addr, msg) :: chain) := by
  refine .cons addr msg start chain ?_ (chain_agree cells _ start chain ?_ linked)
  · cases found : cells addr with
    | none => simp [msgAt, found] at held
    | some cell =>
        have same : cell.msg = msg := by simpa [msgAt, found] using held
        rw [setNext, Function.update_self, found, ← same]
        rfl
  · intro other member
    exact set_next_same cells addr other start fun same => elsewhere (same ▸ member)

def free (cells : P → Option (Cell P M)) (gone : List P) : P → Option (Cell P M) :=
  fun addr => if addr ∈ gone then none else cells addr

theorem free_gone (cells : P → Option (Cell P M)) (gone : List P) (addr : P) (member : addr ∈ gone) :
    free cells gone addr = none := if_pos member

theorem free_other (cells : P → Option (Cell P M)) (gone : List P) (addr : P) (kept : addr ∉ gone) :
    free cells gone addr = cells addr := if_neg kept

end Store

end Chains
