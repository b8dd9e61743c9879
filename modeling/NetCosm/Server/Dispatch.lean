import NetCosm.Client.Requests
import NetCosm.Table.HashIterate

/-!
# How the master handles a request

A child writes a packet to the master: its pid, a code, and data.  `handle_child_req` reads the
packet, looks the child up under the pid and the code in `request_map`, and does what the entry
of the table `requests` says: it calls `handle_child` for the sender, for the others, for both or
for nobody, then `finalize`, and then it writes `REQ_ALLDONE` to the sender.

## What is recorded

`Handling.log` is the list of the calls of `handle_child`, the call of `finalize` and the packets
that are written, in order.  A packet is written by `send_packet` as it is here, or it is one of
those of `handleRequest`, which the finalizers are.

## Memory

The packet is read into a static buffer, over what was there.  Handlers are given a pointer into
the buffer and the number of bytes that are theirs, and many look at the bytes only: they read a
number, or a string up to its terminator, wherever that is.  So `data` is here what is in the
buffer behind the code, to its end.  `read` returns `-1` if it fails, the buffer is then as it
was, and the number of bytes is the unsigned `-1` less the five of the pid and the code.

The descriptors and the watchers of a child are left out, and so is a failure of `write`.
-/

namespace NetCosm

/-! ## Codes -/

/-- `MSG_MAX`, which is `PIPE_BUF`. -/
def MSG_MAX : ℕ := 4096

def REQ_NOP : UInt8 := 0
def REQ_BCASTMSG : UInt8 := 1
def REQ_LISTCLIENTS : UInt8 := 2
def REQ_CHANGESTATE : UInt8 := 3
def REQ_CHANGEUSER : UInt8 := 4
def REQ_KICK : UInt8 := 6
def REQ_WAIT : UInt8 := 7
def REQ_GETROOMDESC : UInt8 := 8
def REQ_SETROOM : UInt8 := 9
def REQ_MOVE : UInt8 := 10
def REQ_GETROOMNAME : UInt8 := 11
def REQ_GETUSERDATA : UInt8 := 13
def REQ_DELUSERDATA : UInt8 := 14
def REQ_ADDUSERDATA : UInt8 := 15
def REQ_ALLDONE : UInt8 := 17
def REQ_KICKALL : UInt8 := 18
def REQ_LOOKAT : UInt8 := 19
def REQ_TAKE : UInt8 := 20
def REQ_PRINTINVENTORY : UInt8 := 21
def REQ_DROP : UInt8 := 22
def REQ_LISTUSERS : UInt8 := 23
def REQ_EXECVERB : UInt8 := 24

/-! ## Numbers and records in memory -/

/-- A number from its bytes, the least significant first. -/
def ofLittleEndian : List UInt8 → ℕ
  | [] => 0
  | b :: bs => b.toNat + 256 * ofLittleEndian bs

/-- The value of a signed number of `bits` bits. -/
def toSigned (bits n : ℕ) : ℤ := if n < 2 ^ (bits - 1) then n else (n : ℤ) - 2 ^ bits

/-- The number in the `size` bytes at `offset`. -/
def numberAt (offset size : ℕ) (bytes : List UInt8) : ℕ :=
  ofLittleEndian ((bytes.drop offset).take size)

/-- A number within the bytes that were received. -/
theorem numberAt_append {offset size : ℕ} {bytes later : List UInt8}
    (h : offset + size ≤ bytes.length) :
    numberAt offset size (bytes ++ later) = numberAt offset size bytes := by
  have hsize : size ≤ (bytes.drop offset).length := by
    rw [List.length_drop]
    omega
  rw [numberAt, numberAt, List.drop_append_of_le_length (by omega),
    List.take_append_of_le_length hsize]

/-- `sizeof(struct userdata_t)`. -/
def sizeofUserdata : ℕ := 208

/-- A `struct userdata_t` in memory. -/
def decodeUserData (bytes : List UInt8) : UserData where
  username := bytes.take (MAX_NAME_LEN + 1)
  salt := (bytes.drop 33).take (SALT_LEN + 1)
  passhash := (bytes.drop 50).take (AUTH_HASHLEN * 2 + 1)
  priv := toSigned 32 (numberAt 180 4 bytes)
  lastLogin := toSigned 64 (numberAt 184 8 bytes)
  userdata := if numberAt 200 8 bytes = 0 then none else some (numberAt 200 8 bytes)

/-! ## The static buffer -/

/-- `packet`.  Its last byte is never written. -/
structure PacketBuf where
  bytes : List UInt8
  length_eq : bytes.length = MSG_MAX + 1
  last_eq : bytes.getLast? = some 0

/-- What `read` does: it fails, or it reads a packet. -/
inductive PacketRead where
  | failed
  | received (bytes : List UInt8) (short : bytes.length ≤ MSG_MAX)

/-- The result of `read`, as a `size_t`. -/
def PacketRead.len : PacketRead → ℕ
  | .failed => 2 ^ 64 - 1
  | .received bytes _ => bytes.length

/-- The buffer after `read`. -/
def PacketBuf.after (buf : PacketBuf) : PacketRead → List UInt8
  | .failed => buf.bytes
  | .received bytes _ => bytes ++ buf.bytes.drop bytes.length

/-! ## Packets that are written -/

/-- A packet: a code and data, or one of those that answer a request. -/
inductive Written where
  | raw (cmd : UInt8) (data : List UInt8)
  | answer (p : Packet)
  deriving DecidableEq

/-- What happens while a request is handled. -/
inductive Event where
  | handled (pid : UInt32)
  | finalized
  | wrote (pid : UInt32) (w : Written)
  deriving DecidableEq

/-- The pieces a long message is split into. -/
def splitMessage (msg : List UInt8) : List (List UInt8) :=
  if h : msg = [] then []
  else msg.take (MSG_MAX - 1) :: splitMessage (msg.drop (MSG_MAX - 1))
termination_by msg.length
decreasing_by
  have := List.length_pos_iff.mpr h
  simp only [List.length_drop, MSG_MAX]
  omega

/-- `send_packet`, of `datalen` bytes of memory.  The pieces of a long message are short enough not
to be split again. -/
def sendPacket (asserts : Bool) (child : UInt32) (cmd : UInt8) (data : List UInt8) (datalen : ℕ) :
    Except Fault (List Event) :=
  if asserts && !(decide (datalen < MSG_MAX) || cmd == REQ_BCASTMSG) then .error .assertion
  else if data.length < datalen then .error .outOfBounds
  else if cmd = REQ_BCASTMSG ∧ MSG_MAX < datalen + 1 then
    .ok ((splitMessage (data.take datalen)).map fun piece => .wrote child (.raw cmd piece))
  else if MSG_MAX < datalen + 1 then .error .outOfBounds
  else .ok [.wrote child (.raw cmd (data.take datalen))]

/-- `send_msg`. -/
def sendMsg (asserts : Bool) (child : UInt32) (text : CString) : Except Fault (List Event) :=
  sendPacket asserts child REQ_BCASTMSG text.bytes text.length

/-! ## The state of the master -/

/-- The master, with what its children are doing and where they come from. -/
structure Dispatch (σ : Type) where
  server : ServerState σ
  /-- `child->state`, by pid. -/
  state : UInt32 → ℤ
  /-- `inet_ntoa(child->addr)`, by pid. -/
  peer : UInt32 → CString

/-- The master in the middle of a request, and what has happened. -/
structure Handling (σ : Type) where
  log : List Event
  dispatch : Dispatch σ

/-- More has happened. -/
def Handling.record {σ : Type} (s : Handling σ) (events : List Event) : Handling σ :=
  { s with log := s.log ++ events }

section Handlers

variable {σ : Type}

/-! ## `handle_child` -/

/-- `req_pass_msg`. -/
def reqPassMsg (asserts : Bool) (data : List UInt8) (datalen : ℕ) (sender child : ChildData) :
    Except Fault (List Event) := do
  let msg ← sendPacket asserts child.pid REQ_BCASTMSG data datalen
  if child.pid ≠ sender.pid then do
    let done ← sendPacket asserts child.pid REQ_ALLDONE [] 0
    .ok (msg ++ done)
  else .ok msg

/-- The array `state` of `req_send_clientinfo`. -/
def stateNames : List String :=
  ["INIT", "LOGIN SCREEN", "CHECKING CREDENTIALS", "LOGGED IN AS USER", "LOGGED IN AS ADMIN",
    "ACCESS DENIED"]

/-- `state[child->state]`. -/
def stateName (state : ℤ) : Except Fault String :=
  if 0 ≤ state then
    match stateNames[state.toNat]? with
    | some name => .ok name
    | none => .error .outOfBounds
  else .error .outOfBounds

/-- `req_send_clientinfo`: a line, in a buffer of 128 bytes. -/
def reqSendClientinfo (asserts : Bool) (d : Dispatch σ) (sender child : ChildData) :
    Except Fault (List Event) := do
  let name ← stateName (d.state child.pid)
  let pid := toString (toSigned 32 child.pid.toNat)
  let client := (CString.ofChars "Client ".toList).bytes ++ (d.peer child.pid).bytes ++
    (CString.ofChars (" PID " ++ pid ++ " [" ++ name ++ "]").toList).bytes
  let user := match child.user with
    | some user => (CString.ofChars " USER ".toList).bytes ++ user.text.bytes
    | none => []
  let stop := if sender.pid = child.pid then " [YOU]\n" else "\n"
  let line := ((client ++ user).take 127 ++ (CString.ofChars stop.toList).bytes).take 127
  sendPacket asserts sender.pid REQ_BCASTMSG line line.length

/-- `req_kick_client`. -/
def reqKickClient (asserts : Bool) (data : List UInt8) (datalen : ℕ) (sender child : ChildData) :
    Except Fault (List Event) :=
  if 4 ≤ datalen ∧ numberAt 0 4 data = child.pid.toNat then do
    let kick ← sendPacket asserts child.pid REQ_KICK (data.drop 4) (datalen - 4)
    let success ← sendMsg asserts sender.pid (CString.ofChars "Success.\n".toList)
    .ok (kick ++ success)
  else .ok []

/-- `req_change_state`. -/
def reqChangeState (d : Dispatch σ) (data : List UInt8) (datalen : ℕ) (sender : ChildData) :
    Dispatch σ :=
  if datalen = 4 then
    { d with state := Function.update d.state sender.pid (toSigned 32 (numberAt 0 4 data)) }
  else d

/-- The functions that are a `handle_child`. -/
inductive ChildHandler where
  | passMsg
  | changeState
  | changeUser
  | kickClient
  | kickAlways
  | sendClientinfo
  deriving DecidableEq, Repr

/-- What a `handle_child` writes that changes nothing else. -/
def ChildHandler.events (asserts : Bool) (d : Dispatch σ) (data : List UInt8) (datalen : ℕ)
    (sender child : ChildData) : ChildHandler → Except Fault (List Event)
  | .passMsg => reqPassMsg asserts data datalen sender child
  | .kickClient => reqKickClient asserts data datalen sender child
  | .kickAlways => sendPacket asserts child.pid REQ_KICK data datalen
  | .sendClientinfo => reqSendClientinfo asserts d sender child
  | .changeState | .changeUser => .ok []

/-- What a `handle_child` changes. -/
def ChildHandler.change (asserts : Bool) (d : Dispatch σ) (data : List UInt8) (datalen : ℕ)
    (sender : ChildData) : ChildHandler → Dispatch σ
  | .changeState => reqChangeState d data datalen sender
  | .changeUser =>
      { d with server := { d.server with
          master := reqChangeUser asserts d.server.master sender (CString.ofBuffer data) } }
  | .passMsg | .kickClient | .kickAlways | .sendClientinfo => d

/-- A call of `handle_child`. -/
def callHandleChild (asserts : Bool) (handler : Option ChildHandler) (data : List UInt8)
    (datalen : ℕ) (sender child : ChildData) (s : Handling σ) : Except Fault (Handling σ) :=
  match handler with
  | none => .error .nullPointer
  | some h => do
      let events ← h.events asserts s.dispatch data datalen sender child
      .ok ⟨s.log ++ .handled child.pid :: events, h.change asserts s.dispatch data datalen sender⟩

/-! ## `finalize` -/

/-- The functions that are a `finalize`. -/
inductive Finalizer where
  | sendGeninfo
  | setRoom
  | moveRoom
  | sendUser
  | delUser
  | addUser
  | lookAt
  | take
  | drop
  | execverb
  | wait
  | sendDesc
  | sendRoomname
  | inventory
  | listusers
  deriving DecidableEq, Repr

/-- A `finalize`: what it reads of its data makes it one of the requests of `handleRequest`. -/
def Finalizer.run (env : ClientEnv σ) (s : ServerState σ) (data : List UInt8) (datalen : ℕ)
    (sender : ChildData) : Finalizer → Except Fault (List Packet × ServerState σ)
  | .sendGeninfo => handleRequest env s sender .listClients
  | .setRoom => handleRequest env s sender (.setRoom (numberAt 0 4 data))
  | .moveRoom => handleRequest env s sender (.move (numberAt 0 4 data))
  | .sendUser =>
      if datalen ≠ 0 then handleRequest env s sender (.getUserData (CString.ofBuffer data))
      else .ok ([], s)
  | .delUser =>
      if datalen ≠ 0 then handleRequest env s sender (.delUserData (CString.ofBuffer data))
      else .ok ([.delUserData false], s)
  | .addUser =>
      if datalen = sizeofUserdata then
        handleRequest env s sender (.addUserData (decodeUserData (data.take sizeofUserdata)))
      else .ok ([.addUserData false], s)
  | .lookAt => handleRequest env s sender (.lookAt (CString.ofBuffer data))
  | .take => handleRequest env s sender (.take (CString.ofBuffer data))
  | .drop => handleRequest env s sender (.drop (CString.ofBuffer data))
  | .execverb => handleRequest env s sender (.execVerb (CString.ofBuffer data))
  | .wait => handleRequest env s sender .wait
  | .sendDesc => handleRequest env s sender .getRoomDesc
  | .sendRoomname => handleRequest env s sender .getRoomName
  | .inventory => handleRequest env s sender .printInventory
  | .listusers => handleRequest env s sender .listUsers

/-- The call of `finalize`, if there is one. -/
def callFinalize (env : ClientEnv σ) (finalize : Option Finalizer) (data : List UInt8)
    (datalen : ℕ) (sender : ChildData) (s : Handling σ) : Except Fault (Handling σ) :=
  match finalize with
  | none => .ok s
  | some f => do
      let r ← f.run env s.dispatch.server data datalen sender
      .ok ⟨s.log ++ .finalized :: r.1.map fun p => .wrote sender.pid (.answer p),
        { s.dispatch with server := r.2 }⟩

end Handlers

/-! ## The table of requests -/

/-- For whom `handle_child` is called. -/
inductive Which where
  | childNone
  | childSender
  | childAllButSender
  | childAll
  deriving DecidableEq, Repr

/-- `struct child_request`. -/
structure ChildRequest where
  code : UInt8
  havedata : Bool
  which : Which
  handleChild : Option ChildHandler
  finalize : Option Finalizer
  deriving DecidableEq

/-- `requests`. -/
def requests : List ChildRequest :=
  [⟨REQ_NOP, false, .childNone, none, none⟩,
   ⟨REQ_BCASTMSG, true, .childAll, some .passMsg, none⟩,
   ⟨REQ_CHANGESTATE, true, .childSender, some .changeState, none⟩,
   ⟨REQ_CHANGEUSER, true, .childSender, some .changeUser, none⟩,
   ⟨REQ_KICK, true, .childAll, some .kickClient, none⟩,
   ⟨REQ_KICKALL, true, .childAllButSender, some .kickAlways, none⟩,
   ⟨REQ_LISTCLIENTS, false, .childAll, some .sendClientinfo, some .sendGeninfo⟩,
   ⟨REQ_SETROOM, true, .childNone, none, some .setRoom⟩,
   ⟨REQ_MOVE, true, .childNone, none, some .moveRoom⟩,
   ⟨REQ_GETUSERDATA, true, .childNone, none, some .sendUser⟩,
   ⟨REQ_DELUSERDATA, true, .childNone, none, some .delUser⟩,
   ⟨REQ_ADDUSERDATA, true, .childNone, none, some .addUser⟩,
   ⟨REQ_LOOKAT, true, .childNone, none, some .lookAt⟩,
   ⟨REQ_TAKE, true, .childNone, none, some .take⟩,
   ⟨REQ_DROP, true, .childNone, none, some .drop⟩,
   ⟨REQ_EXECVERB, true, .childNone, none, some .execverb⟩,
   ⟨REQ_WAIT, false, .childNone, none, some .wait⟩,
   ⟨REQ_GETROOMDESC, false, .childNone, none, some .sendDesc⟩,
   ⟨REQ_GETROOMNAME, false, .childNone, none, some .sendRoomname⟩,
   ⟨REQ_PRINTINVENTORY, false, .childNone, none, some .inventory⟩,
   ⟨REQ_LISTUSERS, false, .childNone, none, some .listusers⟩]

/-- `uchar_hash` and `uchar_equal`. -/
def ucharEnv (asserts : Bool) : HashEnv UInt8 where
  hash c := c.toUInt32
  compare a b := if a = b then 0 else 1
  asserts := asserts

/-- `reqmap_init`. -/
def reqmapInit (asserts : Bool) : Except Fault (HashMap UInt8 ChildRequest) :=
  requests.foldlM (fun map req => (hashInsert (ucharEnv asserts) map req.code req).map Prod.snd)
    (hashInit requests.length)

/-- `hash_lookup(request_map, &cmd)`. -/
def lookupRequest (asserts : Bool) (cmd : UInt8) : Except Fault (Option ChildRequest) :=
  (reqmapInit asserts).map fun map => hashLookup (ucharEnv asserts) map cmd

/-! ## `handle_child_req` -/

namespace Dispatch

variable {σ : Type}

/-- The loop over `child_map`, which passes over the sender. -/
def handleOthers (asserts : Bool) (req : ChildRequest) (data : List UInt8) (datalen : ℕ)
    (sender : ChildData) (s : Handling σ) : Except Fault (Handling σ) :=
  hashForEach s.dispatch.server.master.childMap
    (fun s node =>
      if node.data.pid = sender.pid then .ok s
      else callHandleChild asserts req.handleChild data datalen sender node.data s) s

/-- The calls of `handle_child`. -/
def handleChildren (asserts : Bool) (req : ChildRequest) (data : List UInt8) (datalen : ℕ)
    (sender : ChildData) (s : Handling σ) : Except Fault (Handling σ) :=
  match req.which with
  | .childNone => .ok s
  | .childSender => callHandleChild asserts req.handleChild data datalen sender sender s
  | .childAllButSender => handleOthers asserts req data datalen sender s
  | .childAll => do
      let s ← callHandleChild asserts req.handleChild data datalen sender sender s
      handleOthers asserts req data datalen sender s

/-- What is done for a sender who is known. -/
def answerRequest (env : ClientEnv σ) (cmd : UInt8) (data : List UInt8) (datalen : ℕ)
    (sender : ChildData) (s : Handling σ) : Except Fault (Handling σ) := do
  let s ← match ← lookupRequest env.asserts cmd with
    | none => .ok s
    | some req => do
        let s ← handleChildren env.asserts req data datalen sender s
        callFinalize env req.finalize data datalen sender s
  let done ← sendPacket env.asserts sender.pid REQ_ALLDONE [] 0
  .ok (s.record done)

/-- `handle_child_req`: whether the pipe is still good, what has happened, and the master. -/
def handleChildReq (env : ClientEnv σ) (d : Dispatch σ) (buf : PacketBuf) (o : PacketRead) :
    Except Fault (Bool × Handling σ) :=
  if o.len < 5 then .ok (false, ⟨[], d⟩)
  else
    let packet := buf.after o
    match d.server.master.child env.asserts (UInt32.ofNat (numberAt 0 4 packet)) with
    | none => .ok (true, ⟨[], d⟩)
    | some sender =>
        (answerRequest { env with pid := sender.pid } (packet.getD 4 0) (packet.drop 5) (o.len - 5)
          sender ⟨[], d⟩).map fun s => (true, s)

end Dispatch

end NetCosm
