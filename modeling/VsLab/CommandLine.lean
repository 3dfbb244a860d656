import VsLab.CString
import VsLab.System

set_option autoImplicit false

namespace VsLab

open Numeral CString

def longArg (arg : String) : Option Int :=
  if (strtol arg.toList).rest = [] then some (strtol arg.toList).value else none

inductive Command where
  | server (port : Int)
  | manager (args : ManagerArgs)
  | client (host : String) (port : Int)
  | usage

-- The patterns of main: a case whose long_arg yields none does not match, and no
-- later one has its shape.
def command : List String → Command
  | ["-s", port] => (longArg port).elim .usage .server
  | ["-m", workers, host, port] =>
      (longArg workers).elim .usage fun workers => (longArg port).elim .usage fun port => .manager ⟨workers, host, port⟩
  | ["-c", host, port] => (longArg port).elim .usage (.client host)
  | _ => .usage

def numbers : List String → List String
  | ["-s", port] => [port]
  | ["-m", workers, _, port] => [workers, port]
  | ["-c", _, port] => [port]
  | _ => []

def Started (argv : List String) : Command → Prop
  | .server port => ∃ s, argv = ["-s", s] ∧ Writes s.toList port
  | .manager args => ∃ workers port, argv = ["-m", workers, args.host, port] ∧ Writes workers.toList args.workers ∧
      Writes port.toList args.port
  | .client host port => ∃ s, argv = ["-c", host, s] ∧ Writes s.toList port
  | .usage => True

structure PlainArg (s : List Char) : Prop where
  nonempty : s ≠ []
  unspaced : ∀ v, Writes (s.dropWhile isSpace) v → s.dropWhile isSpace = s
  inRange : ∀ v, Writes s v → InLong v

theorem long_arg_writes (arg : String) (v : Int) (writes : Writes (arg.toList.dropWhile isSpace) v) :
    longArg arg = some (saturate v) := by
  rw [longArg, strtol_writes arg.toList v writes, if_pos rfl]

theorem long_arg_accepts (arg : String) (v : Int) (plain : PlainArg arg.toList) (accepted : longArg arg = some v) :
    Writes arg.toList v ∧ InLong v := by
  unfold longArg at accepted
  split at accepted
  · next whole =>
      obtain ⟨w, writes⟩ := strtol_complete arg.toList whole plain.nonempty
      rw [strtol_writes arg.toList w writes, Option.some.injEq] at accepted
      rw [plain.unspaced w writes] at writes
      have fits := plain.inRange w writes
      have same : saturate w = v := accepted
      rw [saturate_in_long w fits] at same
      exact same ▸ ⟨writes, fits⟩
  · cases accepted

theorem long_arg_exact (arg : String) :
    (∀ v, longArg arg = some v ↔ Writes arg.toList v ∧ InLong v) ↔ PlainArg arg.toList := by
  constructor
  · intro exact
    have taken (v : Int) (writes : Writes (arg.toList.dropWhile isSpace) v) :
        Writes arg.toList (saturate v) ∧ InLong (saturate v) := (exact _).mp (long_arg_writes arg v writes)
    refine ⟨?_, ?_, ?_⟩
    · intro empty
      have accepted : longArg arg = some 0 := by
        rw [longArg, empty]
        rfl
      exact writes_nonempty _ 0 ((exact 0).mp accepted).1 empty
    · intro v writes
      exact writes_unspaced _ _ (taken v writes).1
    · intro v writes
      obtain ⟨again, fits⟩ := taken v (by rwa [writes_unspaced _ v writes])
      rwa [writes_unique _ v _ writes again]
  · intro plain v
    constructor
    · exact long_arg_accepts arg v plain
    · rintro ⟨writes, fits⟩
      rw [long_arg_writes arg v (by rwa [writes_unspaced _ v writes]), saturate_in_long v fits]

theorem command_started (argv : List String) (plain : ∀ s ∈ numbers argv, PlainArg s.toList) :
    Started argv (command argv) := by
  unfold command
  split
  · next port =>
      cases read : longArg port with
      | none => trivial
      | some v => exact ⟨port, rfl, (long_arg_accepts port v (plain port (by simp [numbers])) read).1⟩
  · next workers host port =>
      cases first : longArg workers with
      | none => trivial
      | some w =>
          cases second : longArg port with
          | none => trivial
          | some v =>
              exact ⟨workers, port, rfl, (long_arg_accepts workers w (plain workers (by simp [numbers])) first).1,
                (long_arg_accepts port v (plain port (by simp [numbers])) second).1⟩
  · next host port =>
      cases read : longArg port with
      | none => trivial
      | some v => exact ⟨port, rfl, (long_arg_accepts port v (plain port (by simp [numbers])) read).1⟩
  · trivial

theorem long_arg_iff (arg : String) (argv : List String) :
    ((∀ v, longArg arg = some v ↔ Writes arg.toList v ∧ InLong v) ↔ PlainArg arg.toList) ∧
      ((∀ s ∈ numbers argv, PlainArg s.toList) → Started argv (command argv)) :=
  ⟨long_arg_exact arg, command_started argv⟩

theorem long_arg_eighty : PlainArg "80".toList ∧
    (∀ v, longArg "80" = some v ↔ Writes "80".toList v ∧ InLong v) ∧ Started ["-s", "80"] (command ["-s", "80"]) := by
  have plain : PlainArg "80".toList := by
    have number : Writes "80".toList 80 := .plain _ ⟨by decide +kernel, List.all_eq_true.mp (by decide +kernel)⟩
    refine ⟨by decide +kernel, fun v _ => by decide +kernel, fun v writes => ?_⟩
    rw [← writes_unique _ _ _ number writes]
    decide
  obtain ⟨accepts, starts⟩ := long_arg_iff "80" ["-s", "80"]
  refine ⟨plain, accepts.mpr plain, starts ?_⟩
  intro s member
  rw [List.mem_singleton.mp member]
  exact plain

theorem long_arg_lenient :
    longArg "" = some 0 ∧ ¬ Writes [] 0 ∧ longArg " 80" = some 80 ∧ ¬ Writes " 80".toList 80 ∧
      longArg "9223372036854775808" = some 9223372036854775807 ∧
      ¬ Writes "9223372036854775808".toList 9223372036854775807 := by
  refine ⟨by decide +kernel, ?_, by decide +kernel, ?_, by decide +kernel, ?_⟩
  · exact fun writes => writes_nonempty [] 0 writes rfl
  · intro writes
    have inked := writes_not_spaces _ _ writes ' ' (by decide +kernel)
    exact absurd inked (by decide)
  · intro writes
    have number : Writes "9223372036854775808".toList 9223372036854775808 :=
      .plain _ ⟨by decide +kernel, List.all_eq_true.mp (by decide +kernel)⟩
    exact absurd (writes_unique _ _ _ number writes) (by decide)

end VsLab
