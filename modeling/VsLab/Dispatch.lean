import VsLab.WireMessages

set_option autoImplicit false

namespace VsLab.Wire

open Codec Actors

variable (int512 : Announced)

inductive Content where
  | program (forwarded : Bool) (msg : Msg) (ticking : Ticking msg)
  | other (elements : List Value) (fits : (writeMessage int512 elements).length < 2 ^ 32)

def Content.elements : Content int512 → List Value
  | .program forwarded msg _ => programElements forwarded msg
  | .other elements _ => elements

def Content.sent : Content int512 → Option (Bool × Msg)
  | .program forwarded msg _ => some (forwarded, msg)
  | .other elements _ => unwrap elements

structure Posting where
  writer : NodeId
  sender : Option ActorAddr
  receiver : ActorAddr
  named : receiver.id ≠ 0
  mid : UInt64
  content : Content int512

-- basp_broker::dispatch(from, to, mid, msg): node() of an invalid address is that of the
-- process itself.
def Posting.header (post : Posting int512) : Header where
  sourceNode := some ((post.sender.map ActorAddr.node).getD post.writer)
  destNode := some post.receiver.node
  sourceActor := (post.sender.map ActorAddr.id).getD 0
  destActor := post.receiver.id
  payloadLen := UInt32.ofNat (writeMessage int512 post.content.elements).length
  operation := dispatchMessage
  operationData := post.mid

theorem content_program (content : Content int512) : unwrap content.elements = content.sent := by
  cases content with
  | program forwarded msg ticking => exact unwrap_elements forwarded msg ticking
  | other elements fits => rfl

theorem content_length (content : Content int512) : (writeMessage int512 content.elements).length < 2 ^ 32 := by
  cases content with
  | program forwarded msg ticking => exact program_length int512 forwarded msg
  | other elements fits => exact fits

theorem payload_written (post : Posting int512) :
    (post.header int512).payloadLen.toNat = (writeMessage int512 post.content.elements).length :=
  UInt32.toNat_ofNat_of_lt' (content_length int512 post.content)

theorem payload_some (elements : List Value) : writeMessage int512 elements ≠ [] := by
  intro none
  have empty := congrArg List.length none
  rw [writeMessage, Value.write, writeString, List.length_append, List.length_append, field_length, List.length_nil] at empty
  omega

theorem posting_valid (post : Posting int512) : (post.header int512).valid = true := by
  have size := payload_written int512 post
  have some : (post.header int512).payloadLen ≠ 0 := by
    intro none
    rw [none] at size
    exact payload_some int512 _ (List.eq_nil_of_length_eq_zero size.symm)
  have addressed : (post.header int512).destActor ≠ 0 := post.named
  have dispatch : (post.header int512).operation = dispatchMessage := rfl
  rw [Header.valid, dispatch, if_neg (by decide), if_neg (by decide), if_pos rfl]
  rw [bne_iff_ne.mpr some, bne_iff_ne.mpr addressed]
  rfl

def Posting.frame (post : Posting int512) : Frame :=
  ⟨post.header int512, writeMessage int512 post.content.elements, payload_written int512 post, posting_valid int512 post⟩

inductive Item where
  | posted (post : Posting int512)
  | other (frame : Frame) (apart : frame.header.operation ≠ dispatchMessage)

def Item.frame : Item int512 → Frame
  | .posted post => post.frame int512
  | .other frame _ => frame

mutual

def Value.resolve (resolved : ActorAddr → Option ActorAddr) : Value → Value
  | .actor addr => .actor (addr.bind resolved)
  | .address addr => .address (addr.bind resolved)
  | .message elements => .message (Value.resolveAll resolved elements)
  | .atom value => .atom value
  | .int64 value => .int64 value
  | .number value => .number value

def Value.resolveAll (resolved : ActorAddr → Option ActorAddr) : List Value → List Value
  | [] => []
  | value :: rest => value.resolve resolved :: Value.resolveAll resolved rest

end

structure Delivery where
  source : Option ActorAddr
  dest : UInt32
  mid : UInt64
  content : List Value

inductive Dispatched where
  | linked (proxy : ActorAddr) (dest : UInt32) (unlink : Bool)
  | dropped (delivery : Delivery)
  | enqueued (delivery : Delivery)

structure Server (S : Type) where
  handled : Nat
  dispatched : List Dispatched
  rest : S

-- The process that reads. registered is whether the registry finds an actor while it
-- deals with a header: actors come and go between two of them.
structure LocalNode (S : Type) where
  node : NodeId
  registered : Nat → UInt32 → Bool
  forward : Serve S
  others : Serve S

variable {S : Type} (process : LocalNode S)

def LocalNode.address (turn : Nat) (addr : ActorAddr) : Option ActorAddr :=
  if addr.node = process.node ∧ process.registered turn addr.id = false then none else some addr

def LocalNode.source (turn : Nat) (hdr : Header) : Option ActorAddr :=
  match hdr.sourceNode with
  | some origin => if named : hdr.sourceActor ≠ 0 then process.address turn ⟨hdr.sourceActor, origin, .inl named⟩ else none
  | none => none

def linkSignal : List Value → Option (Bool × ActorAddr)
  | [.atom t, .address (some other)] =>
      if t = tag "_Link" then some (false, other) else if t = tag "_Unlink" then some (true, other) else none
  | _ => none

def LocalNode.dispatch (turn : Nat) (hdr : Header) (content : List Value) : Dispatched :=
  let src := process.source turn hdr
  let delivery : Delivery := ⟨src, hdr.destActor, hdr.operationData, content⟩
  if process.registered turn hdr.destActor then
    if src.any fun addr => addr.node = process.node ∧ addr.id = hdr.destActor then
      match linkSignal content with
      | some (unlink, other) =>
          if other.node ≠ process.node then .linked other hdr.destActor unlink else .enqueued delivery
      | none => .enqueued delivery
    else .enqueued delivery
  else .dropped delivery

def LocalNode.serve : Serve (Server S) := fun server hdr payload =>
  let after := { server with handled := server.handled + 1 }
  if hdr.destNode ≠ none ∧ hdr.destNode ≠ some process.node then
    let (rest, goesOn) := process.forward server.rest hdr payload
    ({ after with rest := rest }, goesOn)
  else if hdr.operation = dispatchMessage then
    match payload.bind fun bytes => readMessage int512 (bytes.length + 1) bytes with
    | some (elements, _) =>
        let content := Value.resolveAll (process.address server.handled) elements
        ({ after with dispatched := server.dispatched ++ [process.dispatch server.handled hdr content] }, true)
    | none => (after, false)
  else
    let (rest, goesOn) := process.others server.rest hdr payload
    ({ after with rest := rest }, goesOn)

structure Received where
  source : Option ActorAddr
  dest : UInt32
  mid : UInt64
  forwarded : Bool
  msg : Msg
deriving DecidableEq

def Dispatched.received : Dispatched → Option Received
  | .enqueued delivery => (unwrap delivery.content).map fun (forwarded, msg) =>
      ⟨delivery.source, delivery.dest, delivery.mid, forwarded, msg⟩
  | _ => none

section Outcome

variable (turn : Nat) (post : Posting int512)

def LocalNode.sender : Option ActorAddr :=
  post.sender.bind fun addr => if addr.id = 0 then none else process.address turn addr

def LocalNode.outcome : Dispatched :=
  process.dispatch turn (post.header int512) (Value.resolveAll (process.address turn) post.content.elements)

def LocalNode.delivered : Option Received :=
  if process.registered turn post.receiver.id then
    post.content.sent.map fun (forwarded, msg) =>
      ⟨process.sender int512 turn post, post.receiver.id, post.mid, forwarded, msg⟩
  else none

end Outcome

def Item.outcome (turn : Nat) : Item int512 → Option Dispatched
  | .posted post => if post.receiver.node = process.node then some (process.outcome int512 turn post) else none
  | .other _ _ => none

def Item.delivered (turn : Nat) : Item int512 → Option Received
  | .posted post => if post.receiver.node = process.node then process.delivered int512 turn post else none
  | .other _ _ => none

def LocalNode.outcomes (items : List (Item int512)) : List Dispatched :=
  items.zipIdx.filterMap fun (item, turn) => item.outcome int512 process turn

def LocalNode.deliveries (items : List (Item int512)) : List Received :=
  items.zipIdx.filterMap fun (item, turn) => item.delivered int512 process turn

section Read

variable (turn : Nat) (post : Posting int512)

theorem source_sender : process.source turn (post.header int512) = process.sender int512 turn post := by
  rw [LocalNode.source, LocalNode.sender, Posting.header]
  cases post.sender with
  | none => rfl
  | some addr =>
      simp only [Option.map_some, Option.getD_some, Option.bind_some]
      by_cases unnamed : addr.id = 0
      · rw [dif_neg (not_not_intro unnamed), if_pos unnamed]
      · rw [dif_pos unnamed, if_neg unnamed]

end Read

section Resolved

variable (address : ActorAddr → Option ActorAddr)

def Kind.plain : Kind → Bool
  | .actor => false
  | .address => false
  | .message => false
  | _ => true

theorem resolve_all_kinds (elements : List Value) :
    (Value.resolveAll address elements).map Value.kind = elements.map Value.kind := by
  induction elements with
  | nil => rfl
  | cons value rest ih =>
      rw [Value.resolveAll, List.map_cons, List.map_cons, ih]
      cases value <;> rfl

theorem resolve_all_plain (elements : List Value) (plain : (elements.map Value.kind).all Kind.plain = true) :
    Value.resolveAll address elements = elements := by
  induction elements with
  | nil => rfl
  | cons value rest ih =>
      rw [List.map_cons, List.all_cons, Bool.and_eq_true] at plain
      rw [Value.resolveAll, ih plain.2]
      cases value with
      | actor addr => cases plain.1
      | address addr => cases plain.1
      | message elements => cases plain.1
      | _ => rfl

theorem message_plain (elements : List Value) (msg : Msg) (reads : fromMessage elements = some msg) :
    (elements.map Value.kind).all Kind.plain = true := by
  unfold fromMessage at reads
  split at reads
  all_goals first | rfl | cases reads

theorem from_resolved (elements : List Value) : fromMessage (Value.resolveAll address elements) = fromMessage elements := by
  by_cases plain : (elements.map Value.kind).all Kind.plain = true
  · rw [resolve_all_plain address elements plain]
  · have none (others : List Value) (same : others.map Value.kind = elements.map Value.kind) : fromMessage others = none := by
      cases reads : fromMessage others with
      | none => rfl
      | some msg => exact absurd (same ▸ message_plain others msg reads) plain
    rw [none elements rfl, none _ (resolve_all_kinds address elements)]

theorem unwrap_other (elements : List Value) (apart : ∀ t inner, elements ≠ [.atom t, .message inner]) :
    unwrap elements = (fromMessage elements).map fun msg => (false, msg) := by
  unfold unwrap
  split
  · exact absurd rfl (apart _ _)
  · rfl

theorem wrapped_shape (elements : List Value) (wrapped : elements.map Value.kind = [.atom, .message]) :
    ∃ t inner, elements = [.atom t, .message inner] := by
  obtain ⟨first, rest, rfl, isAtom, others⟩ := List.map_eq_cons_iff.mp wrapped
  obtain ⟨second, more, rfl, isMessage, none⟩ := List.map_eq_cons_iff.mp others
  rw [List.map_eq_nil_iff.mp none]
  cases first <;> cases isAtom
  cases second <;> cases isMessage
  exact ⟨_, _, rfl⟩

theorem unwrap_resolved (elements : List Value) : unwrap (Value.resolveAll address elements) = unwrap elements := by
  by_cases wrapped : elements.map Value.kind = [.atom, .message]
  · obtain ⟨t, inner, rfl⟩ := wrapped_shape elements wrapped
    simp only [Value.resolveAll, Value.resolve, unwrap, from_resolved]
  · have apart (others : List Value) (same : others.map Value.kind = elements.map Value.kind) :
        ∀ t inner, others ≠ [.atom t, .message inner] := by
      rintro t inner rfl
      exact wrapped same.symm
    rw [unwrap_other elements (apart elements rfl), unwrap_other _ (apart _ (resolve_all_kinds address elements)), from_resolved]

end Resolved

section Handled

variable (turn : Nat)

theorem link_no_program (content : List Value) (unlink : Bool) (other : ActorAddr)
    (signal : linkSignal content = some (unlink, other)) : unwrap content = none := by
  unfold linkSignal at signal
  split at signal
  · rfl
  · cases signal

theorem dispatch_received (hdr : Header) (content : List Value) :
    (process.dispatch turn hdr content).received =
      if process.registered turn hdr.destActor then
        (unwrap content).map fun (forwarded, msg) =>
          ⟨process.source turn hdr, hdr.destActor, hdr.operationData, forwarded, msg⟩
      else none := by
  rw [LocalNode.dispatch]
  by_cases there : process.registered turn hdr.destActor = true
  · simp only [if_pos there]
    split
    · cases signal : linkSignal content with
      | none => rfl
      | some found =>
          obtain ⟨unlink, other⟩ := found
          simp only [link_no_program content unlink other signal]
          split
          · rfl
          · simp only [Dispatched.received, link_no_program content unlink other signal]
    · rfl
  · simp only [if_neg there]
    rfl

theorem outcome_received (post : Posting int512) :
    (process.outcome int512 turn post).received = process.delivered int512 turn post := by
  rw [LocalNode.outcome, dispatch_received, unwrap_resolved, content_program, source_sender]
  rfl

theorem payload_read (post : Posting int512) : ((post.frame int512).content.bind fun bytes =>
    readMessage int512 (bytes.length + 1) bytes) = some (post.content.elements, []) := by
  have content : (post.frame int512).content = some (writeMessage int512 post.content.elements) := if_neg (payload_some int512 _)
  have deep : Value.depthAll post.content.elements < (writeMessage int512 post.content.elements).length + 1 :=
    Nat.lt_succ_of_le ((Nat.le_succ _).trans (depth_bound int512 (.message post.content.elements)))
  have read := reads_message int512 _ post.content.elements deep (content_length int512 post.content) []
  rw [List.append_nil] at read
  rw [content, Option.bind_some]
  exact read

theorem serve_item (server : Server S) (item : Item int512) :
    ((process.serve int512 server (item.frame int512).header (item.frame int512).content).1.handled = server.handled + 1) ∧
      (process.serve int512 server (item.frame int512).header (item.frame int512).content).1.dispatched =
        server.dispatched ++ (item.outcome int512 process server.handled).toList := by
  cases item with
  | other frame apart =>
      rw [LocalNode.serve, Item.frame, if_neg apart, Item.outcome, Option.toList_none, List.append_nil]
      split <;> exact ⟨rfl, rfl⟩
  | posted post =>
      have dispatches : (post.frame int512).header.operation = dispatchMessage := rfl
      have addressed : (post.frame int512).header.destNode = some post.receiver.node := rfl
      rw [LocalNode.serve, Item.frame, if_pos dispatches, payload_read, addressed, Item.outcome]
      by_cases here : post.receiver.node = process.node
      · rw [if_neg (by simp [here]), if_pos here]
        exact ⟨rfl, rfl⟩
      · rw [if_pos (by simp [here]), if_neg here, Option.toList_none, List.append_nil]
        exact ⟨rfl, rfl⟩

def Server.fresh (rest : S) : Server S := ⟨0, [], rest⟩

theorem serve_items (start : S) (items : List (Item int512)) :
    let server := (items.map (Item.frame int512)).foldl
      (fun server frame => (process.serve int512 server frame.header frame.content).1) (Server.fresh start)
    server.handled = items.length ∧ server.dispatched = process.outcomes int512 items := by
  induction items using List.reverseRecOn with
  | nil => exact ⟨rfl, rfl⟩
  | append_singleton items item ih =>
      obtain ⟨counted, dispatched⟩ := ih
      simp only [List.map_append, List.map_singleton, List.foldl_append, List.foldl_cons, List.foldl_nil] at counted dispatched ⊢
      obtain ⟨counts, appends⟩ := serve_item int512 process
        ((items.map (Item.frame int512)).foldl
          (fun server frame => (process.serve int512 server frame.header frame.content).1) (Server.fresh start)) item
      refine ⟨by rw [counts, counted, List.length_append, List.length_singleton], ?_⟩
      rw [appends, dispatched, counted, LocalNode.outcomes, LocalNode.outcomes, List.zipIdx_append, List.filterMap_append,
        Nat.zero_add]
      cases outcome : item.outcome int512 process items.length <;> simp [outcome]

theorem outcomes_received (items : List (Item int512)) :
    (process.outcomes int512 items).filterMap Dispatched.received = process.deliveries int512 items := by
  rw [LocalNode.outcomes, LocalNode.deliveries, List.filterMap_filterMap]
  refine List.filterMap_congr fun entry _ => ?_
  obtain ⟨item, turn⟩ := entry
  cases item with
  | other frame apart => rfl
  | posted post =>
      by_cases here : post.receiver.node = process.node
      · simp only [Item.outcome, Item.delivered, if_pos here, Option.bind_some, outcome_received]
      · simp only [Item.outcome, Item.delivered, if_neg here, Option.bind_none]

end Handled

-- Any name does for int512_t.
def sampleName : Announced where
  name := ['i', 'n', 't', '5', '1', '2', '_', 't']
  fine := ⟨by decide, by decide, by decide, by decide⟩
  user := by
    intro kind
    cases kind <;> decide
  short := by decide

theorem one_named : (1 : UInt32) ≠ 0 := by decide

theorem two_named : (2 : UInt32) ≠ 0 := by decide

theorem three_named : (3 : UInt32) ≠ 0 := by decide

theorem four_named : (4 : UInt32) ≠ 0 := by decide

def sampleProcess : LocalNode Unit :=
  ⟨sampleNode 2 two_named, fun _ id => id = 3, fun s _ _ => (s, true), fun s _ _ => (s, true)⟩

def samplePosting (content : Content sampleName) : Posting sampleName :=
  ⟨sampleNode 1 one_named, none, ⟨3, sampleProcess.node, .inl three_named⟩, three_named, 0, content⟩

def joining : List Value := [.atom (tag "JOIN"), .actor (some ⟨4, sampleNode 1 one_named, .inl four_named⟩)]

theorem joining_fits : (writeMessage sampleName joining).length < 2 ^ 32 := by decide +kernel

def sampleItems : List (Item sampleName) :=
  [.other sampleFrame (by decide), .posted (samplePosting (.other joining joining_fits)),
    .posted (samplePosting (.program true (.calculate (Int512.ofNat 15)) trivial))]

def sampleSteps : List LinkLabel :=
  let frames := sampleItems.map (Item.frame sampleName)
  frames.map LinkLabel.write ++ [.flush, .send (written frames).length, .receive headerSize] ++
    (frames.drop 1).flatMap fun frame => [.receive headerSize, .receive frame.payload.length]

end VsLab.Wire
