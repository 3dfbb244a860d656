import VsLab.Codec
import VsLab.Atoms
import VsLab.NumberStream

set_option autoImplicit false

namespace VsLab.Wire

open Codec Numeral CString

def bytesOf (text : List Char) : Bytes := text.map fun c => UInt8.ofNat c.toNat

def charsOf (bytes : Bytes) : List Char := bytes.map fun b => Char.ofNat b.toNat

def writeString (text : List Char) : Bytes := field 4 text.length ++ bytesOf text

def readString : Reader (List Char) := do
  let size ← number 4
  charsOf <$> raw size

theorem chars_bytes (text : List Char) (bytes : ∀ c ∈ text, c.toNat < 256) : charsOf (bytesOf text) = text := by
  rw [charsOf, bytesOf, List.map_map]
  refine (List.map_congr_left fun c member => ?_).trans (List.map_id text)
  have small : (UInt8.ofNat c.toNat).toNat = c.toNat := by
    rw [UInt8.toNat_ofNat']
    exact Nat.mod_eq_of_lt (bytes c member)
  change Char.ofNat (UInt8.ofNat c.toNat).toNat = c
  rw [small, Char.ofNat_toNat]

theorem reads_string (text : List Char) (bytes : ∀ c ∈ text, c.toNat < 256) (short : text.length < 2 ^ 32) :
    Reads readString (writeString text) text := by
  refine reads_bind _ _ _ _ text.length text (reads_number 4 _ (by simpa using short)) ?_
  have whole := reads_map (raw (bytesOf text).length) charsOf (bytesOf text) (bytesOf text) (reads_raw _)
  rw [chars_bytes text bytes, bytesOf, List.length_map] at whole
  exact whole

structure NodeId where
  hostId : Bytes
  processId : UInt32
  size : hostId.length = 20
  named : processId ≠ 0 ∨ ∃ byte ∈ hostId, byte ≠ 0
deriving DecidableEq

def nodeOf (hostId : Bytes) (processId : Nat) : Option NodeId :=
  if ok : hostId.length = 20 ∧ (UInt32.ofNat processId ≠ 0 ∨ ∃ byte ∈ hostId, byte ≠ 0) then
    some ⟨hostId, UInt32.ofNat processId, ok.1, ok.2⟩
  else none

def writeNode : Option NodeId → Bytes
  | some node => node.hostId ++ field 4 node.processId.toNat
  | none => List.replicate 20 0 ++ field 4 0

def readNode : Reader (Option NodeId) := do
  let hostId ← raw 20
  let processId ← number 4
  pure (nodeOf hostId processId)

theorem word_fits (word : UInt32) : word.toNat < 256 ^ 4 := word.toNat_lt

theorem long_fits (word : UInt64) : word.toNat < 256 ^ 8 := word.toNat_lt

theorem node_of_parts (node : NodeId) : nodeOf node.hostId node.processId.toNat = some node := by
  have ok : node.hostId.length = 20 ∧
      (UInt32.ofNat node.processId.toNat ≠ 0 ∨ ∃ byte ∈ node.hostId, byte ≠ 0) := by
    rw [UInt32.ofNat_toNat]
    exact ⟨node.size, node.named⟩
  rw [nodeOf, dif_pos ok]
  simp only [UInt32.ofNat_toNat]

theorem reads_host (hostId : Bytes) (size : hostId.length = 20) : Reads (raw 20) hostId hostId := size ▸ reads_raw hostId

theorem reads_node (node : Option NodeId) : Reads readNode (writeNode node) node := by
  cases node with
  | some node =>
      refine reads_bind _ _ _ _ node.hostId (some node) (reads_host _ node.size) ?_
      rw [← List.append_nil (field 4 node.processId.toNat)]
      refine reads_bind _ _ _ _ node.processId.toNat (some node) (reads_number 4 _ (word_fits _)) ?_
      rw [node_of_parts]
      exact reads_pure (some node)
  | none =>
      refine reads_bind _ _ _ _ (List.replicate 20 0) none (reads_host _ (by simp)) ?_
      rw [← List.append_nil (field 4 0)]
      refine reads_bind _ _ _ _ 0 none (reads_number 4 0 (by decide)) ?_
      exact reads_pure (nodeOf (List.replicate 20 0) 0)

structure ActorAddr where
  id : UInt32
  node : NodeId
  valid : id ≠ 0 ∨ node.processId ≠ 0
deriving DecidableEq

def addrOf (id : Nat) (hostId : Bytes) (processId : Nat) : Option ActorAddr :=
  (nodeOf hostId processId).bind fun node =>
    if valid : UInt32.ofNat id ≠ 0 ∨ node.processId ≠ 0 then some ⟨UInt32.ofNat id, node, valid⟩ else none

def writeActor : Option ActorAddr → Bytes
  | some addr => field 4 addr.id.toNat ++ (addr.node.hostId ++ field 4 addr.node.processId.toNat)
  | none => field 4 0 ++ (List.replicate 20 0 ++ field 4 0)

def readActor : Reader (Option ActorAddr) := do
  let id ← number 4
  let hostId ← raw 20
  let processId ← number 4
  pure (addrOf id hostId processId)

theorem addr_of_parts (addr : ActorAddr) :
    addrOf addr.id.toNat addr.node.hostId addr.node.processId.toNat = some addr := by
  have valid : UInt32.ofNat addr.id.toNat ≠ 0 ∨ addr.node.processId ≠ 0 := by
    rw [UInt32.ofNat_toNat]
    exact addr.valid
  rw [addrOf, node_of_parts, Option.bind_some, dif_pos valid]
  simp only [UInt32.ofNat_toNat]

theorem reads_actor (addr : Option ActorAddr) : Reads readActor (writeActor addr) addr := by
  cases addr with
  | some addr =>
      refine reads_bind _ _ _ _ addr.id.toNat (some addr) (reads_number 4 _ (word_fits _)) ?_
      refine reads_bind _ _ _ _ addr.node.hostId (some addr) (reads_host _ addr.node.size) ?_
      rw [← List.append_nil (field 4 addr.node.processId.toNat)]
      refine reads_bind _ _ _ _ addr.node.processId.toNat (some addr) (reads_number 4 _ (word_fits _)) ?_
      rw [addr_of_parts]
      exact reads_pure (some addr)
  | none =>
      refine reads_bind _ _ _ _ 0 none (reads_number 4 0 (by decide)) ?_
      refine reads_bind _ _ _ _ (List.replicate 20 0) none (reads_host _ (by simp)) ?_
      rw [← List.append_nil (field 4 0)]
      refine reads_bind _ _ _ _ 0 none (reads_number 4 0 (by decide)) ?_
      exact reads_pure (addrOf 0 (List.replicate 20 0) 0)

inductive Kind where
  | atom
  | int64
  | number
  | actor
  | address
  | message
deriving DecidableEq

inductive Value where
  | atom (value : UInt64)
  | int64 (value : Int64)
  | number (value : Int512)
  | actor (addr : Option ActorAddr)
  | address (addr : Option ActorAddr)
  | message (elements : List Value)

def Value.kind : Value → Kind
  | .atom _ => .atom
  | .int64 _ => .int64
  | .number _ => .number
  | .actor _ => .actor
  | .address _ => .address
  | .message _ => .message

def builtinName : Kind → Option (List Char)
  | .atom => some "@atom".toList
  | .int64 => some "@i64".toList
  | .number => none
  | .actor => some "@actor".toList
  | .address => some "@addr".toList
  | .message => some "@message".toList

structure TypeName (text : List Char) : Prop where
  inked : text ≠ []
  single : '+' ∉ text
  bytes : text.all (·.toNat < 256) = true
  element : text.take 3 ≠ "@<>".toList

-- The name under which int512_t is announced: the compiler's, as to_uniform_name
-- rewrites it.
structure Announced where
  name : List Char
  fine : TypeName name
  user : ∀ kind, builtinName kind ≠ some name
  short : name.length < 2 ^ 16

variable (int512 : Announced)

def Kind.name (kind : Kind) : List Char := (builtinName kind).getD int512.name

def typeNames (kinds : List Kind) : List Char := "@<>".toList ++ kinds.flatMap fun kind => '+' :: kind.name int512

def findName (name : List Char) : Option Kind :=
  [Kind.atom, .int64, .actor, .address, .message, .number].find? fun kind => kind.name int512 == name

def splitPlus : List Char → List Char → List (List Char)
  | part, [] => if part = [] then [] else [part]
  | part, c :: rest =>
      if c = '+' then (if part = [] then splitPlus [] rest else part :: splitPlus [] rest)
      else splitPlus (part ++ [c]) rest

inductive Meta where
  | element (kind : Kind)
  | tuple (elements : List (Option Kind))

def byUniformName (name : List Char) : Option Meta :=
  match findName int512 name with
  | some kind => some (.element kind)
  | none =>
      if name.take 3 = "@<>".toList then some (.tuple (((splitPlus [] name).drop 1).map (findName int512))) else none

mutual

def Value.write : Value → Bytes
  | .atom value => field 8 value.toNat
  | .int64 value => field 8 value.toUInt64.toNat
  | .number value => writeString (doGetString value)
  | .actor addr => writeActor addr
  | .address addr => writeActor addr
  | .message elements => writeString (typeNames int512 (elements.map Value.kind)) ++ Value.writeAll elements

def Value.writeAll : List Value → Bytes
  | [] => []
  | value :: rest => value.write ++ Value.writeAll rest

end

def writeMessage (elements : List Value) : Bytes := (Value.message elements).write int512

def readElement (nested : Reader (List Value)) : Kind → Reader Value
  | .atom => (fun v => .atom (UInt64.ofNat v)) <$> number 8
  | .int64 => (fun v => .int64 (UInt64.ofNat v).toInt64) <$> number 8
  | .number => do
      let text ← readString
      match readNumber text with
      | some value => pure (.number value)
      | none => failure
  | .actor => .actor <$> readActor
  | .address => .address <$> readActor
  | .message => .message <$> nested

def readMessage : Nat → Reader (List Value)
  | 0 => failure
  | fuel + 1 => do
      let name ← readString
      match byUniformName int512 name with
      | none => failure
      | some (.element kind) => (fun value => [value]) <$> readElement (readMessage fuel) kind
      | some (.tuple kinds) =>
          kinds.mapM fun kind =>
            match kind with
            | some kind => readElement (readMessage fuel) kind
            | none => failure

section Names

theorem builtin_fine (kind : Kind) (text : List Char) (is : builtinName kind = some text) : TypeName text := by
  cases kind with
  | number => cases is
  | _ => cases is; exact ⟨by decide, by decide, by decide, by decide⟩

theorem name_fine (kind : Kind) : TypeName (kind.name int512) := by
  cases builtin : builtinName kind with
  | some text =>
      rw [Kind.name, builtin, Option.getD_some]
      exact builtin_fine kind text builtin
  | none =>
      rw [Kind.name, builtin, Option.getD_none]
      exact int512.fine

theorem builtin_apart (first second : Kind) (text : List Char) (is : builtinName first = some text)
    (also : builtinName second = some text) : first = second := by
  cases first <;> cases second <;> first | rfl | cases is <;> simp [builtinName] at also

theorem only_user (kind : Kind) (is : builtinName kind = none) : kind = .number := by
  cases kind with
  | number => rfl
  | _ => cases is

theorem name_apart (first second : Kind) (same : first.name int512 = second.name int512) : first = second := by
  have other (kind : Kind) (text : List Char) (is : builtinName kind = some text) : text ≠ int512.name := by
    rintro rfl
    exact int512.user kind is
  cases left : builtinName first with
  | some text =>
      cases right : builtinName second with
      | some more =>
          rw [Kind.name, Kind.name, left, right, Option.getD_some, Option.getD_some] at same
          exact builtin_apart first second text left (same ▸ right)
      | none =>
          rw [Kind.name, Kind.name, left, right, Option.getD_some, Option.getD_none] at same
          exact absurd same (other first text left)
  | none =>
      cases right : builtinName second with
      | some more =>
          rw [Kind.name, Kind.name, left, right, Option.getD_some, Option.getD_none] at same
          exact absurd same.symm (other second more right)
      | none => exact (only_user first left).trans (only_user second right).symm

theorem find_name (kind : Kind) : findName int512 (kind.name int512) = some kind := by
  have test : (fun other : Kind => other.name int512 == kind.name int512) = fun other => other == kind := by
    funext other
    by_cases same : other = kind
    · rw [same, beq_self_eq_true, beq_self_eq_true]
    · rw [beq_eq_false_iff_ne.mpr same]
      exact beq_eq_false_iff_ne.mpr fun named => same (name_apart int512 other kind named)
  rw [findName, test]
  cases kind <;> rfl

theorem split_part (start part rest : List Char) (single : '+' ∉ part) :
    splitPlus start (part ++ rest) = splitPlus (start ++ part) rest := by
  induction part generalizing start with
  | nil => rw [List.append_nil, List.nil_append]
  | cons c part ih =>
      have other : c ≠ '+' := fun same => single (by rw [same]; exact List.mem_cons_self)
      rw [List.cons_append, splitPlus, if_neg other, ih _ fun member => single (List.mem_cons_of_mem c member),
        List.append_assoc]
      rfl

theorem split_names (start : List Char) (kinds : List Kind) (inked : start ≠ []) :
    splitPlus start (kinds.flatMap fun kind => '+' :: kind.name int512) = start :: kinds.map (Kind.name int512) := by
  induction kinds generalizing start with
  | nil => rw [List.flatMap_nil, splitPlus, if_neg inked]; rfl
  | cons kind kinds ih =>
      rw [List.flatMap_cons, List.cons_append, splitPlus, if_pos rfl, if_neg inked,
        split_part [] _ _ (name_fine int512 kind).single, List.nil_append, ih _ (name_fine int512 kind).inked]
      rfl

theorem no_tuple_name (kinds : List Kind) : findName int512 (typeNames int512 kinds) = none := by
  refine List.find?_eq_none.mpr fun kind _ named => (name_fine int512 kind).element ?_
  rw [eq_of_beq named]
  rfl

theorem by_type_names (kinds : List Kind) :
    byUniformName int512 (typeNames int512 kinds) = some (.tuple (kinds.map some)) := by
  have tuple : (typeNames int512 kinds).take 3 = "@<>".toList := rfl
  have parts : splitPlus [] (typeNames int512 kinds) = "@<>".toList :: kinds.map (Kind.name int512) := by
    rw [typeNames, split_part [] _ _ (by decide), List.nil_append, split_names int512 _ kinds (by decide)]
  rw [byUniformName, no_tuple_name]
  simp only
  rw [if_pos tuple, parts, List.drop_succ_cons, List.drop_zero, List.map_map]
  simp only [Function.comp_def, find_name]

theorem type_names_bytes (kinds : List Kind) : ∀ c ∈ typeNames int512 kinds, c.toNat < 256 := by
  intro c member
  rcases List.mem_append.mp member with start | later
  · have ascii : "@<>".toList.all (·.toNat < 256) = true := by decide
    simpa using List.all_eq_true.mp ascii c start
  · obtain ⟨kind, _, inside⟩ := List.mem_flatMap.mp later
    rcases List.mem_cons.mp inside with rfl | part
    · decide
    · simpa using List.all_eq_true.mp (name_fine int512 kind).bytes c part

end Names

mutual

def Value.depth : Value → Nat
  | .message elements => Value.depthAll elements + 1
  | _ => 0

def Value.depthAll : List Value → Nat
  | [] => 0
  | value :: rest => max value.depth (Value.depthAll rest)

end

section Messages

theorem write_all (elements : List Value) : Value.writeAll int512 elements = elements.flatMap (Value.write int512) := by
  induction elements with
  | nil => rfl
  | cons value rest ih => rw [Value.writeAll, ih, List.flatMap_cons]

theorem write_part (elements : List Value) (value : Value) (member : value ∈ elements) :
    (value.write int512).length ≤ (Value.writeAll int512 elements).length := by
  induction elements with
  | nil => cases member
  | cons first rest ih =>
      rw [Value.writeAll, List.length_append]
      rcases List.mem_cons.mp member with rfl | later
      · exact Nat.le_add_right _ _
      · exact Nat.le_add_left_of_le (ih later)

theorem depth_part (elements : List Value) (value : Value) (member : value ∈ elements) :
    value.depth ≤ Value.depthAll elements := by
  induction elements with
  | nil => cases member
  | cons first rest ih =>
      rw [Value.depthAll]
      rcases List.mem_cons.mp member with rfl | later
      · exact Nat.le_max_left _ _
      · exact (ih later).trans (Nat.le_max_right _ _)

mutual

theorem depth_bound : ∀ value : Value, value.depth ≤ (value.write int512).length
  | .atom _ => Nat.zero_le _
  | .int64 _ => Nat.zero_le _
  | .number _ => Nat.zero_le _
  | .actor _ => Nat.zero_le _
  | .address _ => Nat.zero_le _
  | .message elements => by
      have inner := depth_all_bound elements
      rw [Value.depth, Value.write, List.length_append, writeString, List.length_append, field_length]
      omega

theorem depth_all_bound : ∀ elements : List Value, Value.depthAll elements ≤ (Value.writeAll int512 elements).length
  | [] => Nat.zero_le _
  | value :: rest => by
      have first := depth_bound value
      have others := depth_all_bound rest
      rw [Value.depthAll, Value.writeAll, List.length_append]
      omega

end

theorem printed_bytes (value : Int512) : ∀ c ∈ doGetString value, c.toNat < 256 := by
  have digits := (unsigned_string_spec value.val.natAbs).1
  have ascii (c : Char) (isDigit : c.isDigit = true) : c.toNat < 256 := by
    have below : c.toNat ≤ '9'.toNat := ((digit_iff c).mp isDigit).2
    exact lt_of_le_of_lt below (by decide)
  intro c member
  rw [doGetString] at member
  split at member
  · rcases List.mem_cons.mp member with rfl | later
    · decide
    · exact ascii c (digits.digit c later)
  · exact ascii c (digits.digit c member)

theorem reads_element (nested : Reader (List Value)) (value : Value)
    (inner : ∀ elements, value = .message elements → Reads nested (value.write int512) elements)
    (short : (value.write int512).length < 2 ^ 32) : Reads (readElement nested value.kind) (value.write int512) value := by
  cases value with
  | atom value =>
      have whole := reads_map (number 8) (fun v => Value.atom (UInt64.ofNat v)) _ _ (reads_number 8 _ (long_fits value))
      rwa [UInt64.ofNat_toNat] at whole
  | int64 value =>
      have whole := reads_map (number 8) (fun v => Value.int64 (UInt64.ofNat v).toInt64) _ _
        (reads_number 8 _ (long_fits value.toUInt64))
      rwa [UInt64.ofNat_toNat, Int64.toInt64_toUInt64] at whole
  | number value =>
      have text : (doGetString value).length < 2 ^ 32 := by
        rw [Value.write, writeString, List.length_append, field_length, bytesOf, List.length_map] at short
        omega
      have again : readNumber (doGetString value) = some value := by rw [readNumber, printed_token, assign_printed]
      rw [Value.write, ← List.append_nil (writeString (doGetString value))]
      refine reads_bind _ _ _ _ (doGetString value) _ (reads_string _ (printed_bytes value) text) ?_
      rw [again]
      exact reads_pure _
  | actor addr => exact reads_map readActor Value.actor _ addr (reads_actor addr)
  | address addr => exact reads_map readActor Value.address _ addr (reads_actor addr)
  | message elements => exact reads_map nested Value.message _ elements (inner elements rfl)

theorem reads_message (fuel : Nat) (elements : List Value) (deep : Value.depthAll elements < fuel)
    (short : (writeMessage int512 elements).length < 2 ^ 32) :
    Reads (readMessage int512 fuel) (writeMessage int512 elements) elements := by
  induction fuel generalizing elements with
  | zero => omega
  | succ fuel ih =>
      rw [writeMessage, Value.write] at short
      rw [writeMessage, Value.write]
      have name : (typeNames int512 (elements.map Value.kind)).length < 2 ^ 32 := by
        rw [List.length_append, writeString, List.length_append, bytesOf, List.length_map] at short
        omega
      refine reads_bind _ _ _ _ _ elements (reads_string _ (type_names_bytes int512 _) name) ?_
      rw [by_type_names, write_all, List.map_map]
      refine reads_each (fun value => some value.kind) _ (Value.write int512) elements fun value member => ?_
      have part := write_part int512 elements value member
      rw [List.length_append] at short
      refine reads_element int512 (readMessage int512 fuel) value (fun inside same => ?_) (by omega)
      have nested := depth_part elements value member
      subst same
      rw [Value.depth] at nested
      exact ih inside (by omega) (show ((Value.message inside).write int512).length < 2 ^ 32 by omega)

end Messages

structure Header where
  sourceNode : Option NodeId
  destNode : Option NodeId
  sourceActor : UInt32
  destActor : UInt32
  payloadLen : UInt32
  operation : UInt32
  operationData : UInt64
deriving DecidableEq

def headerSize : Nat := 20 * 2 + 4 * 2 + 4 * 2 + 4 * 2 + 8

def Header.write (hdr : Header) : Bytes :=
  writeNode hdr.sourceNode ++ (writeNode hdr.destNode ++ (field 4 hdr.sourceActor.toNat ++ (field 4 hdr.destActor.toNat ++
    (field 4 hdr.payloadLen.toNat ++ (field 4 hdr.operation.toNat ++ field 8 hdr.operationData.toNat)))))

def readHeader : Reader Header := do
  let sourceNode ← readNode
  let destNode ← readNode
  let sourceActor ← number 4
  let destActor ← number 4
  let payloadLen ← number 4
  let operation ← number 4
  let operationData ← number 8
  pure ⟨sourceNode, destNode, UInt32.ofNat sourceActor, UInt32.ofNat destActor, UInt32.ofNat payloadLen,
    UInt32.ofNat operation, UInt64.ofNat operationData⟩

def serverHandshake : UInt32 := 0x00
def clientHandshake : UInt32 := 0x01
def dispatchMessage : UInt32 := 0x02
def announceProxyInstance : UInt32 := 0x03
def killProxyInstance : UInt32 := 0x04

def Header.valid (hdr : Header) : Bool :=
  if hdr.operation = serverHandshake then
    hdr.sourceNode.isSome && hdr.destNode.isNone && hdr.destActor == 0 && hdr.operationData != 0 &&
      (hdr.sourceActor != 0 && hdr.payloadLen != 0 || hdr.sourceActor == 0 && hdr.payloadLen == 0)
  else if hdr.operation = clientHandshake then
    hdr.sourceNode.isSome && hdr.destNode.isSome && hdr.sourceNode != hdr.destNode && hdr.sourceActor == 0 &&
      hdr.destActor == 0 && hdr.payloadLen == 0 && hdr.operationData == 0
  else if hdr.operation = dispatchMessage then hdr.destNode.isSome && hdr.destActor != 0 && hdr.payloadLen != 0
  else if hdr.operation = announceProxyInstance then
    hdr.sourceNode.isSome && hdr.destNode.isSome && hdr.sourceNode != hdr.destNode && hdr.sourceActor == 0 &&
      hdr.destActor != 0 && hdr.payloadLen == 0 && hdr.operationData == 0
  else if hdr.operation = killProxyInstance then
    hdr.sourceNode.isSome && hdr.destNode.isSome && hdr.sourceNode != hdr.destNode && hdr.sourceActor != 0 &&
      hdr.destActor == 0 && hdr.payloadLen == 0 && hdr.operationData != 0
  else false

theorem node_size (node : Option NodeId) : (writeNode node).length = 24 := by
  cases node with
  | some node => rw [writeNode, List.length_append, node.size, field_length]
  | none => rfl

theorem header_length (hdr : Header) : hdr.write.length = headerSize := by
  simp only [Header.write, List.length_append, node_size, field_length]
  rfl

theorem reads_header (hdr : Header) : Reads readHeader hdr.write hdr := by
  refine reads_bind _ _ _ _ _ hdr (reads_node _) ?_
  refine reads_bind _ _ _ _ _ hdr (reads_node _) ?_
  refine reads_bind _ _ _ _ _ hdr (reads_number 4 _ (word_fits _)) ?_
  refine reads_bind _ _ _ _ _ hdr (reads_number 4 _ (word_fits _)) ?_
  refine reads_bind _ _ _ _ _ hdr (reads_number 4 _ (word_fits _)) ?_
  refine reads_bind _ _ _ _ _ hdr (reads_number 4 _ (word_fits _)) ?_
  rw [← List.append_nil (field 8 hdr.operationData.toNat)]
  refine reads_bind _ _ _ _ _ hdr (reads_number 8 _ (long_fits _)) ?_
  simp only [UInt32.ofNat_toNat, UInt64.ofNat_toNat]
  exact reads_pure hdr

end VsLab.Wire
