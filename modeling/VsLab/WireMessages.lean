import VsLab.BaspStream

set_option autoImplicit false

namespace VsLab.Wire

open Codec Actors Numeral

def tag (name : String) : UInt64 := UInt64.ofNat (atom name.toList)

def toMessage : Msg → List Value
  | .calculate n => [.atom (tag "calculate"), .number n]
  | .continuation n a cycles cpuTime state =>
      [.atom (tag "continue"), .number n, .number a, .number cycles, .int64 (Int64.ofInt cpuTime), .number state]
  | .factor p cycles cpuTime => [.atom (tag "factor"), .number p, .number cycles, .int64 (Int64.ofInt cpuTime)]
  | .nofactor cpuTime => [.atom (tag "nofactor"), .int64 (Int64.ofInt cpuTime)]
  | .sWorkers => [.atom (tag "sWorkers")]
  | .kWorkers => [.atom (tag "kWorkers")]
  | .suicide => [.atom (tag "suicide")]
  | .ping => [.atom (tag "ping")]
  | .pong => [.atom (tag "pong")]
  | .result => [.atom (tag "result")]
  | .quit => [.atom (tag "quit")]

def fromMessage : List Value → Option Msg
  | [.atom t, .number n] => if t = tag "calculate" then some (.calculate n) else none
  | [.atom t, .number n, .number a, .number cycles, .int64 cpuTime, .number state] =>
      if t = tag "continue" then some (.continuation n a cycles cpuTime.toInt state) else none
  | [.atom t, .number p, .number cycles, .int64 cpuTime] =>
      if t = tag "factor" then some (.factor p cycles cpuTime.toInt) else none
  | [.atom t, .int64 cpuTime] => if t = tag "nofactor" then some (.nofactor cpuTime.toInt) else none
  | [.atom t] =>
      if t = tag "sWorkers" then some .sWorkers
      else if t = tag "kWorkers" then some .kWorkers
      else if t = tag "suicide" then some .suicide
      else if t = tag "ping" then some .ping
      else if t = tag "pong" then some .pong
      else if t = tag "result" then some .result
      else if t = tag "quit" then some .quit
      else none
  | _ => none

def InLong (ticks : Clock) : Prop := -2 ^ 63 ≤ ticks ∧ ticks < 2 ^ 63

def Ticking : Msg → Prop
  | .continuation _ _ _ cpuTime _ => InLong cpuTime
  | .factor _ _ cpuTime => InLong cpuTime
  | .nofactor cpuTime => InLong cpuTime
  | _ => True

theorem long_again (ticks : Clock) (range : InLong ticks) : (Int64.ofInt ticks).toInt = ticks :=
  Int64.toInt_ofInt_of_le range.1 range.2

theorem tags_apart : (["sWorkers", "kWorkers", "suicide", "ping", "pong", "result", "quit"].map tag).Nodup := by
  decide +kernel

theorem from_to_message (msg : Msg) (ticking : Ticking msg) : fromMessage (toMessage msg) = some msg := by
  have apart := tags_apart
  simp only [List.map_cons, List.map_nil, List.nodup_cons, List.mem_cons, List.not_mem_nil, not_or, or_false] at apart
  cases msg with
  | calculate n => rw [toMessage, fromMessage, if_pos rfl]
  | continuation n a cycles cpuTime state =>
      rw [toMessage, fromMessage, if_pos rfl, long_again cpuTime ticking]
  | factor p cycles cpuTime => rw [toMessage, fromMessage, if_pos rfl, long_again cpuTime ticking]
  | nofactor cpuTime => rw [toMessage, fromMessage, if_pos rfl, long_again cpuTime ticking]
  | _ => simp [toMessage, fromMessage, apart, Ne.symm]

variable (int512 : Announced)

section Sizes

theorem printed_length (value : Int512) : (doGetString value).length ≤ 156 := by
  have unsigned (magnitude : Nat) (fits : magnitude < modulus) : (unsignedString magnitude).length ≤ 155 := by
    obtain ⟨digits, reads, single⟩ := unsigned_string_spec magnitude
    cases text : unsignedString magnitude with
    | nil => exact Nat.zero_le _
    | cons c rest =>
        rw [text] at digits reads single
        by_cases zero : c = '0'
        · rw [single rest (by rw [zero])]
          simp
        · have leading : 0 < digit c := digit_pos c (digits.digit c List.mem_cons_self) zero
          rw [value_head] at reads
          have power : 10 ^ rest.length ≤ magnitude := by
            rw [← reads]
            exact Nat.le_add_right_of_le (Nat.le_mul_of_pos_right _ leading)
          have below : 10 ^ rest.length < 10 ^ 155 := by
            refine lt_of_le_of_lt power (lt_of_lt_of_le fits ?_)
            rw [modulus]
            decide +kernel
          have fewer := (Nat.pow_lt_pow_iff_right (by decide)).mp below
          rw [List.length_cons]
          omega
  have magnitude := unsigned value.val.natAbs value.fits
  rw [doGetString]
  split
  · rw [List.length_cons]
    omega
  · omega

theorem name_length (kind : Kind) : (kind.name int512).length < 2 ^ 16 := by
  cases kind with
  | number => exact int512.short
  | atom => exact (by decide : "@atom".toList.length < 2 ^ 16)
  | int64 => exact (by decide : "@i64".toList.length < 2 ^ 16)
  | actor => exact (by decide : "@actor".toList.length < 2 ^ 16)
  | address => exact (by decide : "@addr".toList.length < 2 ^ 16)
  | message => exact (by decide : "@message".toList.length < 2 ^ 16)

theorem type_names_length (kinds : List Kind) : (typeNames int512 kinds).length ≤ 3 + 2 ^ 16 * kinds.length := by
  rw [typeNames, List.length_append]
  refine Nat.add_le_add_left ?_ 3
  induction kinds with
  | nil => exact Nat.zero_le _
  | cons kind kinds ih =>
      have one := name_length int512 kind
      rw [List.flatMap_cons, List.length_append, List.length_cons, List.length_cons]
      omega

theorem actor_length (addr : Option ActorAddr) : (writeActor addr).length = 28 := by
  cases addr with
  | some addr => rw [writeActor, List.length_append, List.length_append, field_length, field_length, addr.node.size]
  | none => rfl

theorem flat_length (elements : List Value) (flat : ∀ value ∈ elements, value.kind ≠ .message) :
    (Value.writeAll int512 elements).length ≤ 160 * elements.length := by
  induction elements with
  | nil => exact Nat.zero_le _
  | cons value rest ih =>
      have others := ih fun other member => flat other (List.mem_cons_of_mem value member)
      have one : (value.write int512).length ≤ 160 := by
        cases value with
        | atom value => rw [Value.write, field_length]; decide
        | int64 value => rw [Value.write, field_length]; decide
        | number value =>
            have text := printed_length value
            rw [Value.write, writeString, List.length_append, field_length, bytesOf, List.length_map]
            omega
        | actor addr => rw [Value.write, actor_length]; decide
        | address addr => rw [Value.write, actor_length]; decide
        | message elements => exact absurd rfl (flat _ List.mem_cons_self)
      rw [Value.writeAll, List.length_append, List.length_cons]
      omega

theorem message_length (elements : List Value) : (writeMessage int512 elements).length ≤
    7 + 2 ^ 16 * elements.length + (Value.writeAll int512 elements).length := by
  have names := type_names_length int512 (elements.map Value.kind)
  rw [List.length_map] at names
  rw [writeMessage, Value.write, List.length_append, writeString, List.length_append, field_length, bytesOf, List.length_map]
  omega

theorem to_message_length (msg : Msg) : (writeMessage int512 (toMessage msg)).length < 2 ^ 20 := by
  have few : (toMessage msg).length ≤ 6 := by cases msg <;> simp [toMessage]
  have flat : ∀ value ∈ toMessage msg, value.kind ≠ .message := by cases msg <;> simp [toMessage, Value.kind]
  have whole := message_length int512 (toMessage msg)
  have parts := flat_length int512 (toMessage msg) flat
  omega

def programElements (forwarded : Bool) (msg : Msg) : List Value :=
  if forwarded then [.atom (tag "_Forward"), .message (toMessage msg)] else toMessage msg

theorem program_length (forwarded : Bool) (msg : Msg) : (writeMessage int512 (programElements forwarded msg)).length < 2 ^ 32 := by
  have inner := to_message_length int512 msg
  unfold programElements
  split
  · have whole := message_length int512 [.atom (tag "_Forward"), .message (toMessage msg)]
    have parts : (Value.writeAll int512 [.atom (tag "_Forward"), .message (toMessage msg)]).length =
        8 + (writeMessage int512 (toMessage msg)).length := by
      rw [Value.writeAll, Value.writeAll, Value.writeAll, List.append_nil, List.length_append, Value.write, field_length]
      rfl
    rw [parts, List.length_cons, List.length_singleton] at whole
    omega
  · omega

end Sizes

def unwrap : List Value → Option (Bool × Msg)
  | [.atom t, .message inner] => if t = tag "_Forward" then (fromMessage inner).map fun msg => (true, msg) else none
  | elements => (fromMessage elements).map fun msg => (false, msg)

theorem unwrap_elements (forwarded : Bool) (msg : Msg) (ticking : Ticking msg) :
    unwrap (programElements forwarded msg) = some (forwarded, msg) := by
  have again := from_to_message msg ticking
  unfold programElements
  cases forwarded with
  | true =>
      rw [if_pos rfl, unwrap, if_pos rfl, again]
      rfl
  | false =>
      rw [if_neg (by decide)]
      have plain : unwrap (toMessage msg) = (fromMessage (toMessage msg)).map fun msg => (false, msg) := by
        cases msg <;> rfl
      rw [plain, again]
      rfl

end VsLab.Wire
