import VsLab.Actors.Transition
import VsLab.WireFormat

set_option autoImplicit false

namespace VsLab.Wire

open Codec Actors

inductive ReceiveFlag where
  | atLeast
  | atMost
  | exactly
deriving DecidableEq

structure Incoming where
  flag : ReceiveFlag
  max : Nat
  size : Nat
  threshold : Nat
  collected : Bytes
deriving DecidableEq

def Incoming.readLoop (s : Incoming) : Incoming :=
  match s.flag with
  | .exactly => { s with collected := [], size := s.max, threshold := s.max }
  | .atMost => { s with collected := [], size := s.max, threshold := 1 }
  | .atLeast => { s with collected := [], size := s.max + Nat.max 100 (s.max / 10), threshold := s.max }

def Incoming.configureRead (s : Incoming) (flag : ReceiveFlag) (max : Nat) : Incoming := { s with flag := flag, max := max }

structure Outgoing where
  offline : Bytes
  buf : Bytes
  written : Nat
  writing : Bool
deriving DecidableEq

def Outgoing.writeLoop (s : Outgoing) : Outgoing :=
  if s.offline = [] then { s with written := 0, buf := [], writing := false }
  else { s with written := 0, buf := s.offline, offline := [] }

def Outgoing.flush (s : Outgoing) : Outgoing :=
  if s.offline ≠ [] ∧ s.writing = false then { s with writing := true }.writeLoop else s

def Outgoing.pending (s : Outgoing) : Bytes := s.buf.drop s.written ++ s.offline

inductive ConnectionState where
  | awaitServerHandshake
  | awaitClientHandshake
  | awaitHeader
  | awaitPayload
  | closeConnection
deriving DecidableEq

structure Frame where
  header : Header
  payload : Bytes
  sized : header.payloadLen.toNat = payload.length
  accepted : header.valid = true
deriving DecidableEq

def Frame.write (frame : Frame) : Bytes := frame.header.write ++ frame.payload

def Frame.content (frame : Frame) : Option Bytes := if frame.payload = [] then none else some frame.payload

-- One direction of a connection, with the broker at its end: state and hdr of its
-- connection_context, and what else it knows in server. sent and handled are ghost.
structure Link (S : Type) where
  outgoing : Outgoing
  wire : Bytes
  incoming : Incoming
  state : ConnectionState
  hdr : Header
  server : S
  sent : List Frame
  handled : List (Header × Option Bytes)

inductive LinkLabel where
  | write (frame : Frame)
  | flush
  | send (count : Nat)
  | receive (count : Nat)

variable {S : Type}

-- How the broker goes on after it has dealt with a header and its payload, apart from
-- waiting for the payload; the rest of handle_basp_header.
abbrev Serve (S : Type) := S → Header → Option Bytes → S × Bool

section Steps

variable (serve : Serve S) (link : Link S)

def Link.close : Link S := { link with state := .closeConnection }

def Link.await (state : ConnectionState) (size : Nat) : Link S :=
  { link with state := state, incoming := (link.incoming.configureRead .exactly size).readLoop }

def Link.handle (payload : Option Bytes) : Link S :=
  let (server, goesOn) := serve link.server link.hdr payload
  let after := { link with server := server, handled := link.handled ++ [(link.hdr, payload)] }
  if goesOn then after.await .awaitHeader headerSize else after.close

def Link.newData (buf : Bytes) : Link S :=
  match link.state with
  | .awaitPayload => link.handle serve (some buf)
  | _ =>
      match readHeader buf with
      | none => link.close
      | some (hdr, _) =>
          if hdr.valid = false then { link with hdr := hdr }.close
          else if 0 < hdr.payloadLen.toNat then { link with hdr := hdr }.await .awaitPayload hdr.payloadLen.toNat
          else { link with hdr := hdr }.handle serve none

def Link.receive (count : Nat) : Option (Link S) :=
  let s := link.incoming
  if link.state ≠ .closeConnection ∧ 0 < count ∧ count ≤ s.size - s.collected.length ∧ count ≤ link.wire.length then
    let collected := s.collected ++ link.wire.take count
    let after := { link with wire := link.wire.drop count, incoming := { s with collected := collected } }
    if s.threshold ≤ collected.length then some (after.newData serve collected) else some after
  else none

def Link.send (count : Nat) : Option (Link S) :=
  let s := link.outgoing
  if s.writing = true ∧ 0 < count ∧ count ≤ s.buf.length - s.written then
    let after := { s with written := s.written + count }
    some { link with
      wire := link.wire ++ (s.buf.drop s.written).take count
      outgoing := if s.buf.length ≤ s.written + count then after.writeLoop else after }
  else none

def Link.step : LinkLabel → Option (Link S)
  | .write frame => some { link with
      outgoing := { link.outgoing with offline := link.outgoing.offline ++ frame.write }, sent := link.sent ++ [frame] }
  | .flush => some { link with outgoing := link.outgoing.flush }
  | .send count => link.send count
  | .receive count => link.receive serve count

end Steps

def opened (client : Bool) (server : S) : Link S where
  outgoing := ⟨[], [], 0, false⟩
  wire := []
  incoming := (Incoming.configureRead ⟨.atMost, 1024, 0, 0, []⟩ .exactly headerSize).readLoop
  state := if client then .awaitServerHandshake else .awaitClientHandshake
  hdr := ⟨none, none, 0, 0, 0, 0, 0⟩
  server := server
  sent := []
  handled := []

def linkLts (serve : Serve S) (client : Bool) (server : S) : Lts (Link S) LinkLabel :=
  ⟨opened client server, Link.step serve⟩

def written (frames : List Frame) : Bytes := frames.flatMap Frame.write

theorem written_cons (frame : Frame) (frames : List Frame) :
    written (frame :: frames) = frame.header.write ++ (frame.payload ++ written frames) := by
  rw [written, List.flatMap_cons, Frame.write, List.append_assoc]
  rfl

structure Awaits (link : Link S) (piece : Nat) (bytes : Bytes) : Prop where
  size : link.incoming.size = piece
  threshold : link.incoming.threshold = piece
  short : link.incoming.collected.length < piece
  bytes : link.incoming.collected ++ (link.wire ++ link.outgoing.pending) = bytes

structure Expects (link : Link S) (rest : List Frame) : Prop where
  header : link.state ≠ .closeConnection → link.state ≠ .awaitPayload → Awaits link headerSize (written rest)
  payload : link.state = .awaitPayload → ∃ frame more, rest = frame :: more ∧ link.hdr = frame.header ∧
    frame.payload ≠ [] ∧ Awaits link frame.payload.length (frame.payload ++ written more)

structure Framed (serve : Serve S) (start : S) (link : Link S) (done rest : List Frame) : Prop where
  sent : link.sent = done ++ rest
  handled : link.handled = done.map fun frame => (frame.header, frame.content)
  server : link.server = done.foldl (fun server frame => (serve server frame.header frame.content).1) start
  idle : link.outgoing.writing = false → link.outgoing.buf.drop link.outgoing.written = []
  expects : Expects link rest

section Framed

variable (serve : Serve S) (start : S) (link : Link S) (done rest : List Frame)

theorem awaits_moved (after : Link S) (piece : Nat) (bytes more : Bytes) (incoming : after.incoming = link.incoming)
    (moved : after.wire ++ after.outgoing.pending = link.wire ++ link.outgoing.pending ++ more) (awaits : Awaits link piece bytes) :
    Awaits after piece (bytes ++ more) := by
  refine ⟨?_, ?_, ?_, ?_⟩
  · rw [incoming]
    exact awaits.size
  · rw [incoming]
    exact awaits.threshold
  · rw [incoming]
    exact awaits.short
  · rw [incoming, moved, ← awaits.bytes]
    simp only [List.append_assoc]

theorem expects_moved (after : Link S) (frames : List Frame) (state : after.state = link.state) (hdr : after.hdr = link.hdr)
    (incoming : after.incoming = link.incoming)
    (moved : after.wire ++ after.outgoing.pending = link.wire ++ link.outgoing.pending ++ written frames)
    (expects : Expects link rest) : Expects after (rest ++ frames) := by
  have joined (before : List Frame) : written (before ++ frames) = written before ++ written frames := List.flatMap_append
  constructor
  · rw [state]
    intro isOpen noPayload
    rw [joined]
    exact awaits_moved link after _ _ _ incoming moved (expects.header isOpen noPayload)
  · rw [state]
    intro inPayload
    obtain ⟨frame, more, isRest, isHdr, some, awaits⟩ := expects.payload inPayload
    refine ⟨frame, more ++ frames, by rw [isRest, List.cons_append], hdr.trans isHdr, some, ?_⟩
    rw [joined, ← List.append_assoc]
    exact awaits_moved link after _ _ _ incoming moved awaits

theorem framed_write (frame : Frame) (framed : Framed serve start link done rest) :
    Framed serve start { link with
      outgoing := { link.outgoing with offline := link.outgoing.offline ++ frame.write }
      sent := link.sent ++ [frame] } done (rest ++ [frame]) := by
  refine ⟨?_, framed.handled, framed.server, framed.idle, ?_⟩
  · rw [framed.sent, List.append_assoc]
  · refine expects_moved link rest _ [frame] rfl rfl rfl ?_ framed.expects
    have one : written [frame] = frame.write := List.flatMap_singleton _ _
    simp only [Outgoing.pending, one, List.append_assoc]

theorem framed_moved (after : Link S) (state : after.state = link.state) (hdr : after.hdr = link.hdr)
    (incoming : after.incoming = link.incoming) (server : after.server = link.server) (sent : after.sent = link.sent)
    (handled : after.handled = link.handled)
    (moved : after.wire ++ after.outgoing.pending = link.wire ++ link.outgoing.pending)
    (idle : after.outgoing.writing = false → after.outgoing.buf.drop after.outgoing.written = [])
    (framed : Framed serve start link done rest) : Framed serve start after done rest := by
  refine ⟨sent.trans framed.sent, handled.trans framed.handled, server.trans framed.server, idle, ?_⟩
  have next := expects_moved link rest after [] state hdr incoming (by rw [moved]; exact (List.append_nil _).symm) framed.expects
  rwa [List.append_nil] at next

theorem write_loop_pending (s : Outgoing) : s.writeLoop.pending = s.offline := by
  rw [Outgoing.writeLoop]
  by_cases empty : s.offline = []
  · rw [if_pos empty, Outgoing.pending, empty]
    rfl
  · rw [if_neg empty, Outgoing.pending]
    exact List.append_nil _

theorem write_loop_idle (s : Outgoing) (active : s.writing = true) (stopped : s.writeLoop.writing = false) :
    s.writeLoop.buf.drop s.writeLoop.written = [] := by
  rw [Outgoing.writeLoop] at stopped ⊢
  by_cases empty : s.offline = []
  · rw [if_pos empty]
    rfl
  · rw [if_neg empty] at stopped
    cases active.symm.trans stopped

theorem framed_flush (framed : Framed serve start link done rest) :
    Framed serve start { link with outgoing := link.outgoing.flush } done rest := by
  by_cases starts : link.outgoing.offline ≠ [] ∧ link.outgoing.writing = false
  · have flushed : link.outgoing.flush = { link.outgoing with writing := true }.writeLoop := by
      rw [Outgoing.flush, if_pos starts]
    refine framed_moved serve start link done rest _ rfl rfl rfl rfl rfl rfl ?_ ?_ framed
    · simp only [flushed, write_loop_pending]
      rw [Outgoing.pending, framed.idle starts.2, List.nil_append]
    · simp only [flushed]
      exact write_loop_idle _ rfl
  · have same : link.outgoing.flush = link.outgoing := by rw [Outgoing.flush, if_neg starts]
    rw [same]
    exact framed

theorem framed_send (after : Link S) (count : Nat) (taken : link.send count = some after)
    (framed : Framed serve start link done rest) : Framed serve start after done rest := by
  unfold Link.send at taken
  by_cases guard : link.outgoing.writing = true ∧ 0 < count ∧ count ≤ link.outgoing.buf.length - link.outgoing.written
  · simp only [if_pos guard] at taken
    cases taken
    have split := List.take_append_drop count (link.outgoing.buf.drop link.outgoing.written)
    rw [List.drop_drop] at split
    refine framed_moved serve start link done rest _ rfl rfl rfl rfl rfl rfl ?_ ?_ framed
    · by_cases all : link.outgoing.buf.length ≤ link.outgoing.written + count
      · simp only [if_pos all, write_loop_pending]
        rw [List.drop_eq_nil_of_le all, List.append_nil] at split
        rw [Outgoing.pending, split, List.append_assoc]
      · simp only [if_neg all]
        rw [Outgoing.pending, Outgoing.pending]
        conv_rhs => rw [← split]
        simp only [List.append_assoc]
    · by_cases all : link.outgoing.buf.length ≤ link.outgoing.written + count
      · simp only [if_pos all]
        exact write_loop_idle _ guard.1
      · simp only [if_neg all]
        exact fun stopped => absurd guard.1 (by simp [stopped])
  · simp only [if_neg guard] at taken
    cases taken

theorem header_comes (buf tail : Bytes) (full : buf.length = headerSize) (bytes : buf ++ tail = written rest) :
    ∃ frame more, rest = frame :: more ∧ buf = frame.header.write ∧ tail = frame.payload ++ written more := by
  cases rest with
  | nil =>
      have empty := congrArg List.length bytes
      rw [List.length_append, full] at empty
      cases Nat.eq_zero_of_add_eq_zero_right empty
  | cons frame more =>
      rw [written_cons] at bytes
      obtain ⟨isHeader, isTail⟩ := List.append_inj bytes (full.trans (header_length frame.header).symm)
      exact ⟨frame, more, rfl, isHeader, isTail⟩

theorem header_size_pos : 0 < headerSize := by decide

theorem awaits_next (state : ConnectionState) (piece : Nat) (some : 0 < piece) :
    Awaits (link.await state piece) piece (link.wire ++ link.outgoing.pending) :=
  ⟨rfl, rfl, some, rfl⟩

theorem framed_handle (frame : Frame) (more : List Frame) (hdr : link.hdr = frame.header)
    (sent : link.sent = done ++ frame :: more) (handled : link.handled = done.map fun frame => (frame.header, frame.content))
    (server : link.server = done.foldl (fun server frame => (serve server frame.header frame.content).1) start)
    (idle : link.outgoing.writing = false → link.outgoing.buf.drop link.outgoing.written = [])
    (bytes : link.wire ++ link.outgoing.pending = written more) :
    Framed serve start (link.handle serve frame.content) (done ++ [frame]) more := by
  have all : link.handled ++ [(link.hdr, frame.content)] =
      (done ++ [frame]).map fun frame => (frame.header, frame.content) := by
    rw [handled, hdr, List.map_append]
    rfl
  have served : (serve link.server link.hdr frame.content).1 =
      (done ++ [frame]).foldl (fun server frame => (serve server frame.header frame.content).1) start := by
    rw [server, hdr, List.foldl_append]
    rfl
  have parts : link.sent = done ++ [frame] ++ more := by rw [sent, List.append_assoc]; rfl
  rw [Link.handle]
  simp only
  by_cases goesOn : (serve link.server link.hdr frame.content).2 = true
  · rw [if_pos goesOn]
    refine ⟨parts, all, served, idle, fun _ _ => ?_, nofun⟩
    rw [← bytes]
    exact ⟨rfl, rfl, header_size_pos, rfl⟩
  · rw [if_neg goesOn]
    exact ⟨parts, all, served, idle, fun isOpen => absurd rfl isOpen, nofun⟩

theorem framed_new_data (buf : Bytes)
    (sent : link.sent = done ++ rest) (handled : link.handled = done.map fun frame => (frame.header, frame.content))
    (server : link.server = done.foldl (fun server frame => (serve server frame.header frame.content).1) start)
    (idle : link.outgoing.writing = false → link.outgoing.buf.drop link.outgoing.written = [])
    (header : link.state ≠ .awaitPayload → buf.length = headerSize ∧
      buf ++ (link.wire ++ link.outgoing.pending) = written rest)
    (payload : link.state = .awaitPayload → ∃ frame more, rest = frame :: more ∧ link.hdr = frame.header ∧
      frame.payload ≠ [] ∧ buf.length = frame.payload.length ∧
        buf ++ (link.wire ++ link.outgoing.pending) = frame.payload ++ written more) :
    ∃ done rest, Framed serve start (link.newData serve buf) done rest := by
  by_cases inPayload : link.state = .awaitPayload
  · obtain ⟨frame, more, rfl, hdr, some, full, bytes⟩ := payload inPayload
    obtain ⟨rfl, tail⟩ := List.append_inj bytes full
    have content : frame.content = Option.some frame.payload := if_neg some
    refine ⟨done ++ [frame], more, ?_⟩
    rw [Link.newData, inPayload]
    simp only
    rw [← content]
    exact framed_handle serve start link done frame more hdr sent handled server idle tail
  · obtain ⟨full, bytes⟩ := header inPayload
    obtain ⟨frame, more, rfl, isHeader, tail⟩ := header_comes rest buf _ full bytes
    have read : readHeader buf = Option.some (frame.header, []) := by
      have whole := reads_header frame.header []
      rwa [List.append_nil, ← isHeader] at whole
    have next : link.newData serve buf =
        if 0 < frame.header.payloadLen.toNat then { link with hdr := frame.header }.await .awaitPayload frame.header.payloadLen.toNat
        else { link with hdr := frame.header }.handle serve none := by
      rw [Link.newData]
      cases here : link.state with
      | awaitPayload => exact absurd here inPayload
      | _ => simp only [read, frame.accepted, Bool.true_eq_false, if_false]
    rw [next, frame.sized]
    by_cases some : frame.payload = []
    · have none : frame.content = none := if_pos some
      have noPayload : ¬ 0 < frame.payload.length := by rw [some]; exact Nat.lt_irrefl 0
      rw [if_neg noPayload, ← none]
      rw [some, List.nil_append] at tail
      exact ⟨done ++ [frame], more,
        framed_handle serve start { link with hdr := frame.header } done frame more rfl sent handled server idle tail⟩
    · have positive : 0 < frame.payload.length := List.length_pos_iff.mpr some
      rw [if_pos positive]
      refine ⟨done, frame :: more, sent, handled, server, idle, fun _ noPayload => absurd rfl noPayload, fun _ => ?_⟩
      refine ⟨frame, more, rfl, rfl, some, ?_⟩
      rw [← tail]
      exact awaits_next { link with hdr := frame.header } .awaitPayload frame.payload.length positive

theorem framed_receive (after : Link S) (count : Nat) (taken : link.receive serve count = some after)
    (framed : Framed serve start link done rest) : ∃ done rest, Framed serve start after done rest := by
  unfold Link.receive at taken
  by_cases guard : link.state ≠ .closeConnection ∧ 0 < count ∧
      count ≤ link.incoming.size - link.incoming.collected.length ∧ count ≤ link.wire.length
  · simp only [if_pos guard] at taken
    obtain ⟨isOpen, _, room, there⟩ := guard
    have length : (link.incoming.collected ++ link.wire.take count).length = link.incoming.collected.length + count := by
      rw [List.length_append, List.length_take, Nat.min_eq_left there]
    have same : link.incoming.collected ++ link.wire.take count ++ (link.wire.drop count ++ link.outgoing.pending) =
        link.incoming.collected ++ (link.wire ++ link.outgoing.pending) := by
      conv_rhs => rw [← List.take_append_drop count link.wire]
      simp only [List.append_assoc]
    by_cases complete : link.incoming.threshold ≤ (link.incoming.collected ++ link.wire.take count).length
    · rw [if_pos complete] at taken
      cases taken
      refine framed_new_data serve start _ done rest _ framed.sent framed.handled framed.server framed.idle ?_ ?_
      · intro noPayload
        have awaits := framed.expects.header isOpen noPayload
        refine ⟨?_, same.trans awaits.bytes⟩
        have size := awaits.size
        have threshold := awaits.threshold
        omega
      · intro inPayload
        obtain ⟨frame, more, isRest, hdr, some, awaits⟩ := framed.expects.payload inPayload
        refine ⟨frame, more, isRest, hdr, some, ?_, same.trans awaits.bytes⟩
        have size := awaits.size
        have threshold := awaits.threshold
        omega
    · rw [if_neg complete] at taken
      cases taken
      refine ⟨done, rest, framed.sent, framed.handled, framed.server, framed.idle, fun _ noPayload => ?_, fun inPayload => ?_⟩
      · have awaits := framed.expects.header isOpen noPayload
        have short := lt_of_not_ge complete
        rw [awaits.threshold] at short
        exact ⟨awaits.size, awaits.threshold, short, same.trans awaits.bytes⟩
      · obtain ⟨frame, more, isRest, hdr, some, awaits⟩ := framed.expects.payload inPayload
        have short := lt_of_not_ge complete
        rw [awaits.threshold] at short
        exact ⟨frame, more, isRest, hdr, some, awaits.size, awaits.threshold, short, same.trans awaits.bytes⟩
  · simp only [if_neg guard] at taken
    cases taken

theorem framed_step (label : LinkLabel) (after : Link S) (taken : link.step serve label = some after)
    (framed : Framed serve start link done rest) : ∃ done rest, Framed serve start after done rest := by
  cases label with
  | write frame =>
      cases taken
      exact ⟨done, rest ++ [frame], framed_write serve start link done rest frame framed⟩
  | flush =>
      cases taken
      exact ⟨done, rest, framed_flush serve start link done rest framed⟩
  | send count => exact ⟨done, rest, framed_send serve start link done rest after count taken framed⟩
  | receive count => exact framed_receive serve start link done rest after count taken framed

end Framed

section Run

variable (serve : Serve S) (client : Bool) (start : S)

theorem framed_run (link : Link S) (reached : (linkLts serve client start).Reach Lts.anyStep link) :
    ∃ done rest, Framed serve start link done rest := by
  refine (linkLts serve client start).reach_invariant Lts.anyStep (fun link => ∃ done rest, Framed serve start link done rest)
    ?_ ?_ link reached
  · refine ⟨[], [], rfl, rfl, rfl, fun _ => rfl, fun _ _ => ⟨rfl, rfl, header_size_pos, rfl⟩, ?_⟩
    cases client <;> exact nofun
  · intro before label after _ known _ taken
    obtain ⟨done, rest, framed⟩ := known
    exact framed_step serve start before done rest label after taken framed

structure Link.Drained (link : Link S) : Prop where
  pending : link.outgoing.pending = []
  wire : link.wire = []

theorem drained_done (link : Link S) (done rest : List Frame) (framed : Framed serve start link done rest)
    (drained : link.Drained) (isOpen : link.state ≠ .closeConnection) : rest = [] ∧ link.incoming.collected = [] := by
  by_cases inPayload : link.state = .awaitPayload
  · obtain ⟨frame, more, _, _, _, awaits⟩ := framed.expects.payload inPayload
    have bytes := congrArg List.length awaits.bytes
    have short := awaits.short
    rw [drained.wire, drained.pending, List.append_nil, List.append_nil, List.length_append] at bytes
    omega
  · have awaits := framed.expects.header isOpen inPayload
    have bytes := awaits.bytes
    rw [drained.wire, drained.pending, List.append_nil, List.append_nil] at bytes
    have none : rest = [] := by
      cases rest with
      | nil => rfl
      | cons frame more =>
          have length := congrArg List.length bytes
          have short := awaits.short
          rw [written_cons, List.length_append, header_length] at length
          omega
    rw [none] at bytes
    exact ⟨none, bytes⟩

-- However the bytes are cut on their way, the broker deals with the frames one by one, as
-- they were written and in that order; when no byte is on its way, with all of them, unless
-- it has closed the connection.
theorem frames_in_order (link : Link S) (reached : (linkLts serve client start).Reach Lts.anyStep link) :
    ∃ done rest, link.sent = done ++ rest ∧ (link.handled = done.map fun frame => (frame.header, frame.content)) ∧
      link.server = done.foldl (fun server frame => (serve server frame.header frame.content).1) start ∧
        (link.Drained → link.state ≠ .closeConnection → rest = [] ∧ link.incoming.collected = []) := by
  obtain ⟨done, rest, framed⟩ := framed_run serve client start link reached
  exact ⟨done, rest, framed.sent, framed.handled, framed.server, drained_done serve start link done rest framed⟩

end Run

def sampleNode (processId : UInt32) (named : processId ≠ 0) : NodeId :=
  ⟨List.replicate 20 7, processId, rfl, .inl named⟩

def sampleFrame : Frame :=
  ⟨⟨some (sampleNode 1 (by decide)), some (sampleNode 2 (by decide)), 0, 0, 0, clientHandshake, 0⟩, [], rfl, by decide⟩

def payloadFrame : Frame :=
  ⟨⟨none, some (sampleNode 2 (by decide)), 0, 3, 5, dispatchMessage, 0⟩, [1, 2, 3, 4, 5], rfl, by decide⟩

def sampleBytes : List LinkLabel :=
  [.write sampleFrame, .flush, .send 50, .receive 20, .write payloadFrame, .send 22, .flush, .receive 30, .receive 22,
    .send 74, .receive 72, .receive 2, .send 3, .receive 3]

theorem frames_in_order_handshake : ∃ link : Link Nat,
    (linkLts (fun count _ _ => (count + 1, true)) false 0).Reach Lts.anyStep link ∧
      link.handled = [(sampleFrame.header, none), (payloadFrame.header, some [1, 2, 3, 4, 5])] ∧
      ∃ done rest, link.sent = done ++ rest ∧ (link.handled = done.map fun frame => (frame.header, frame.content)) := by
  obtain ⟨link, reached, passed⟩ := (linkLts (fun count _ _ => (count + 1, true)) false 0).run_finds Lts.anyStep sampleBytes
    (fun link => decide (link.handled = [(sampleFrame.header, none), (payloadFrame.header, some [1, 2, 3, 4, 5])]))
    (by decide +kernel)
  obtain ⟨done, rest, sent, handled, _⟩ := frames_in_order _ false 0 link reached
  exact ⟨link, reached, of_decide_eq_true passed, done, rest, sent, handled⟩

end VsLab.Wire
