import VsLab.CString
import VsLab.Protocol

set_option autoImplicit false

namespace VsLab

open Numeral CString

def toUint16 (z : Int) : Nat := (z % 2 ^ 16).toNat

structure GroupUri where
  name : String
  host : String
  port : Nat
deriving DecidableEq

-- io::remote_group up to the connection; a length stands for npos, and none is one of
-- the exceptions its callers catch.
def parseGroupUri (groupUri : String) : Option GroupUri :=
  let text := groupUri.toList
  let pos1 := text.idxOf '@'
  let pos2 := text.idxOf ':'
  if pos1 = text.length ∨ pos2 = text.length ∨ pos2 ≤ pos1 then none
  else
    (stoi (text.drop (pos2 + 1))).map fun port =>
      ⟨String.ofList (text.take pos1), String.ofList ((text.drop (pos1 + 1)).take (pos2 - pos1 - 1)), toUint16 port⟩

-- bind either fails or yields the port it was asked for; asked for port 0 it yields
-- one that is free.
structure Sockets where
  bind : Nat → Option Nat
  asked : ∀ port bound, 0 < port → bind port = some bound → bound = port
  chosen : ∀ bound, bind 0 = some bound → 0 < bound

def runServer (sockets : Sockets) (port : Int) : Option Nat := sockets.bind (toUint16 port)

theorem to_uint16_small (port : Int) (low : 0 ≤ port) (high : port < 2 ^ 16) : toUint16 port = port := by
  unfold toUint16
  omega

theorem parse_split (uri : String) (host rest : List Char)
    (shape : uri.toList = clientManagerGroupName.toList ++ '@' :: (host ++ ':' :: rest)) (clean : ':' ∉ host) :
    parseGroupUri uri = (stoi rest).map fun port => ⟨clientManagerGroupName, String.ofList host, toUint16 port⟩ := by
  have at7 : uri.toList.idxOf '@' = 7 := by
    rw [shape]
    rfl
  have colon : uri.toList.idxOf ':' = 8 + host.length := by
    have letters : clientManagerGroupName.toList.length = 7 := rfl
    have other : ('@' == ':') = false := rfl
    rw [shape, List.idxOf_append, if_neg (by decide), List.idxOf_cons, List.idxOf_append, if_neg clean, letters, other,
      List.idxOf_cons_self, cond_false]
    omega
  have length : uri.toList.length = 8 + host.length + 1 + rest.length := by
    rw [shape]
    simp [clientManagerGroupName]
    omega
  have name : uri.toList.take 7 = clientManagerGroupName.toList := by
    rw [shape]
    rfl
  have body : uri.toList.drop 8 = host ++ ':' :: rest := by
    rw [shape]
    rfl
  have tail : uri.toList.drop (8 + host.length + 1) = rest := by
    rw [Nat.add_assoc, ← List.drop_drop, body]
    simp
  have middle : (uri.toList.drop 8).take (8 + host.length - 7 - 1) = host := by
    rw [body, show 8 + host.length - 7 - 1 = host.length by omega, List.take_left']
    rfl
  simp only [parseGroupUri, at7, colon]
  rw [if_neg (by omega), tail, name, middle, String.ofList_toList]

theorem group_addr_text (host : String) (port : Int) :
    (groupAddr host port).toList = clientManagerGroupName.toList ++ '@' :: (host.toList ++ ':' :: (toString port).toList) := by
  simp [groupAddr]

theorem stoi_port (port : Int) :
    stoi (toString port).toList = if intMin ≤ port ∧ port ≤ intMax then some port else none := by
  have writes := decimal_writes port
  obtain ⟨digits, value, _⟩ := spelled_writes (toString port).toList port (by rwa [writes_unspaced _ port writes])
  rw [stoi_eq, value]
  simp only [digits, ne_eq, not_false_eq_true, true_and]

theorem parse_plain_host (host : String) (port : Int) (clean : ':' ∉ host.toList) :
    parseGroupUri (groupAddr host port) =
      if intMin ≤ port ∧ port ≤ intMax then some ⟨clientManagerGroupName, host, toUint16 port⟩ else none := by
  rw [parse_split _ host.toList _ (group_addr_text host port) clean, stoi_port, String.ofList_toList]
  split <;> rfl

def behindColon (host : String) : List Char := (host.toList.dropWhile fun c => c ≠ ':').drop 1

theorem colon_splits (host : String) (colon : ':' ∈ host.toList) :
    ∃ before, ':' ∉ before ∧ host.toList = before ++ ':' :: behindColon host := by
  refine ⟨host.toList.takeWhile fun c => c ≠ ':', ?_, ?_⟩
  · intro member
    have other := List.mem_takeWhile_imp member
    simp at other
  · have split := List.takeWhile_append_dropWhile (p := fun c => decide (c ≠ ':')) (l := host.toList)
    have found : (host.toList.dropWhile fun c => c ≠ ':') ≠ [] := by
      intro none
      have all := List.dropWhile_eq_nil_iff.mp none ':' colon
      simp at all
    have head := List.head_dropWhile_not (fun c => decide (c ≠ ':')) found
    rw [behindColon]
    cases rest : host.toList.dropWhile fun c => decide (c ≠ ':') with
    | nil => exact absurd rest found
    | cons c tail =>
        simp only [rest, List.head_cons] at head
        have isColon : c = ':' := by simpa using head
        rw [rest, isColon] at split
        exact split.symm

theorem parse_colon_host (host : String) (port : Int) (colon : ':' ∈ host.toList) :
    ∃ before, ':' ∉ before ∧ parseGroupUri (groupAddr host port) =
      (stoi (behindColon host)).map fun cut => ⟨clientManagerGroupName, String.ofList before, toUint16 cut⟩ := by
  obtain ⟨before, clean, split⟩ := colon_splits host colon
  refine ⟨before, clean, ?_⟩
  have shape : (groupAddr host port).toList =
      clientManagerGroupName.toList ++ '@' :: (before ++ ':' :: (behindColon host ++ ':' :: (toString port).toList)) := by
    rw [group_addr_text, split, List.append_assoc, List.cons_append]
  obtain ⟨digits, value⟩ := spelled_stop (behindColon host) (toString port).toList ':' (by decide) (by decide) (by decide)
    (by decide)
  rw [parse_split _ before _ shape clean, stoi_eq, stoi_eq, digits, value]

def freeSockets : Sockets where
  bind := fun port => some (if port = 0 then 1 else port)
  asked := by
    intro port bound positive bound_eq
    rw [if_neg (by omega)] at bound_eq
    exact (Option.some.inj bound_eq).symm
  chosen := by
    intro bound bound_eq
    cases bound_eq
    decide

theorem server_port_iff (port : Int) :
    (∀ (sockets : Sockets) (bound : Nat), runServer sockets port = some bound → (bound : Int) = port) ↔
      1 ≤ port ∧ port < 2 ^ 16 := by
  constructor
  · intro published
    have same := published freeSockets _ rfl
    unfold toUint16 at same
    split at same
    · omega
    · omega
  · rintro ⟨low, high⟩ sockets bound listens
    have same := to_uint16_small port (by omega) high
    rw [runServer] at listens
    rw [sockets.asked _ bound (by omega) listens, same]

theorem address_survives_iff (host : String) (port : Int) :
    ((∀ uri, parseGroupUri (groupAddr host port) = some uri →
        uri.name = clientManagerGroupName ∧ uri.host = host ∧ (uri.port : Int) = port) ∧
      ∀ (sockets : Sockets) (bound : Nat), runServer sockets port = some bound → (bound : Int) = port) ↔
    (1 ≤ port ∧ port < 2 ^ 16) ∧ (':' ∉ host.toList ∨ stoi (behindColon host) = none) := by
  rw [server_port_iff, and_comm, and_congr_right_iff]
  rintro ⟨low, high⟩
  by_cases colon : ':' ∈ host.toList
  · obtain ⟨before, clean, parsed⟩ := parse_colon_host host port colon
    rw [parsed]
    constructor
    · intro survives
      right
      cases read : stoi (behindColon host) with
      | none => rfl
      | some cut =>
          rw [read] at survives
          obtain ⟨_, sameHost, _⟩ := survives _ rfl
          have text := congrArg String.toList sameHost
          rw [String.toList_ofList] at text
          exact absurd (text ▸ colon) clean
    · rintro (absent | rejected) uri accepted
      · exact absurd colon absent
      · rw [rejected] at accepted
        cases accepted
  · rw [parse_plain_host host port colon, if_pos (by unfold intMin intMax; omega)]
    refine ⟨fun _ => .inl colon, ?_⟩
    intro _ uri accepted
    cases accepted
    exact ⟨rfl, rfl, to_uint16_small port (by omega) high⟩

theorem address_changed :
    parseGroupUri (groupAddr "localhost" 65616) = some ⟨"cmgroup", "localhost", 80⟩ ∧
      runServer freeSockets 65616 = some 80 ∧
      parseGroupUri (groupAddr "a:5" 80) = some ⟨"cmgroup", "a", 5⟩ := by
  decide +kernel

end VsLab
