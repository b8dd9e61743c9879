import NetCosm.Client.Input
import NetCosm.Library.Sessions
import NetCosm.Server.Children
import NetCosm.Text.Words

/-!
# Requests of one client

A client is a process of its own.  What it wants done it writes to the master with
`send_master`, and it then reads the packets of the master until one says that the request
is done.  This file is the client's side, `client_reqs.c`, with the master's side of the
requests that deal with the client itself: its user, its room, its moves and the records of
the user database.

## One client

The process keeps its variables between requests, and so does the master.  A `Session` is
both, with what is still going to be typed.  The other requests (looking around, taking,
verbs of the world) are answered by the surroundings, `ClientEnv.answer`, which see everything
the master has, may change all of it but the table of children, and may fail.  `Server/Handlers`
has the handlers of the source.

## What is recorded

`Session.calls` is the list of all calls of `send_master`, each with the state it was made
in, whether or not the limiter let it through.  Nothing reads it.

The inventory of a record stays with the master, and is left out here.  So is what is printed.
-/

namespace NetCosm

open Sessions

/-! ## Records of the user database -/

/-- `MAX_NAME_LEN`. -/
def MAX_NAME_LEN : ℕ := 32

/-- `SALT_LEN`. -/
def SALT_LEN : ℕ := 16

/-- `SHA512_DIGEST_LENGTH`. -/
def AUTH_HASHLEN : ℕ := 64

/-- `PRIV_NONE`. -/
def PRIV_NONE : ℤ := -1

/-- `PRIV_USER`. -/
def PRIV_USER : ℤ := 0

/-- `PRIV_ADMIN`. -/
def PRIV_ADMIN : ℤ := 1337

/-- `struct userdata_t`, with its arrays as they are and without the inventory. -/
structure UserData where
  username : List UInt8
  salt : List UInt8
  passhash : List UInt8
  priv : ℤ
  lastLogin : ℤ
  /-- The pointer a world module keeps here. -/
  userdata : Option ℕ
  deriving DecidableEq

namespace UserData

/-- The user name as a string. -/
def name (u : UserData) : CString := CString.ofBuffer u.username

/-- A record of zero bytes. -/
def zero : UserData where
  username := List.replicate (MAX_NAME_LEN + 1) 0
  salt := List.replicate (SALT_LEN + 1) 0
  passhash := List.replicate (AUTH_HASHLEN * 2 + 1) 0
  priv := 0
  lastLogin := 0
  userdata := none

end UserData

/-! ## What is sent -/

/-- The state of a child. -/
inductive ChildState where
  | init
  | auth
  | checking
  | loggedin
  | admin
  | failed
  deriving DecidableEq, Repr

/-- What a client asks of the master: a code and its data. -/
inductive Request where
  | bcastMsg (text : CString)
  | listClients
  | changeState (state : ChildState)
  | changeUser (name : CString)
  | kick (pid : UInt32) (text : CString)
  | kickAll (text : CString)
  | wait
  | getRoomDesc
  | getRoomName
  | setRoom (id : RoomId)
  | move (dir : ℕ)
  | getUserData (name : CString)
  | delUserData (name : CString)
  | addUserData (data : UserData)
  | lookAt (name : CString)
  | printInventory
  | take (name : CString)
  | drop (name : CString)
  | listUsers
  | execVerb (line : CString)
  deriving DecidableEq

/-- What the master writes to a client. -/
inductive Packet where
  | rawMode
  | bcastMsg (text : CString)
  | kick (text : CString)
  | move (status : ℤ)
  | getUserData (data : UserData)
  | delUserData (success : Bool)
  | addUserData (success : Bool)
  | nop
  | printNewline
  | allDone
  deriving DecidableEq

/-- A packet that is not the answer to a request about moving or accounts, and not the end
of an answer. -/
def Packet.IsNotice : Packet → Prop
  | .rawMode | .bcastMsg _ | .kick _ | .nop | .printNewline => True
  | .move _ | .getUserData _ | .delUserData _ | .addUserData _ | .allDone => False

/-! ## The master -/

/-- The master: its children and rooms, the user database by name, and the rest. -/
structure ServerState (σ : Type) where
  master : Master
  users : CString → Option UserData
  world : σ

/-- What a request of the world does: packets, the database and the world afterwards, and the
rooms a world module teleports the sender to. -/
structure WorldAnswer (σ : Type) where
  packets : List Packet
  users : CString → Option UserData
  world : σ
  teleports : List RoomId
  notices : ∀ p ∈ packets, p.IsNotice

/-- What a client runs in: its pid, a clock, a source of random numbers, `SHA512`, and a
master that answers the requests of the world. -/
structure ClientEnv (σ : Type) where
  asserts : Bool
  pid : UInt32
  /-- The values `time` returns, call by call. -/
  clock : ℕ → ℤ
  /-- The values `rand` returns, call by call. -/
  rand : ℕ → ℕ
  sha512 : List UInt8 → List UInt8
  sha512_length : ∀ bs, (sha512 bs).length = AUTH_HASHLEN
  answer : ChildData → Request → ServerState σ → Except Fault (WorldAnswer σ)

section Master

variable {σ : Type}

/-- `req_send_user`: no packet if there is no such user. -/
def reqSendUser (s : ServerState σ) (data : CString) : List Packet :=
  match s.users data with
  | some user => [.getUserData user]
  | none => []

/-- `userdb_remove`. -/
def userdbRemove (s : ServerState σ) (key : CString) : Bool × ServerState σ :=
  ((s.users key).isSome, { s with users := Function.update s.users key none })

/-- `userdb_add`. -/
def userdbAdd (s : ServerState σ) (data : UserData) : Bool × ServerState σ :=
  (true, { s with users := Function.update s.users data.name (some data) })

/-- What the world does with a request. -/
def execWorld (env : ClientEnv σ) (s : ServerState σ) (sender : ChildData) (r : Request) :
    Except Fault (List Packet × ServerState σ) := do
  let a ← env.answer sender r s
  let master ← a.teleports.foldlM (fun m id => serverStep env.asserts m (.teleport env.pid id))
    s.master
  .ok (a.packets, ⟨master, a.users, a.world⟩)

/-- The handler of a request. -/
def handleRequest (env : ClientEnv σ) (s : ServerState σ) (sender : ChildData) (r : Request) :
    Except Fault (List Packet × ServerState σ) :=
  match r with
  | .changeState _ => .ok ([], s)
  | .changeUser name =>
      .ok ([], { s with master := reqChangeUser env.asserts s.master sender name })
  | .setRoom id => do
      let master ← reqSetRoom env.asserts s.master sender id
      .ok ([], { s with master })
  | .move dir => do
      let (msg, moved, master) ← reqMoveRoom env.asserts s.master sender dir
      .ok (msg.toList.map (fun m => .bcastMsg (CString.ofChars m.toList)) ++
        [.move (if moved then 1 else 0)], { s with master })
  | .getUserData name => .ok (reqSendUser s name, s)
  | .delUserData name =>
      let (success, s) := userdbRemove s name
      .ok ([.delUserData success], s)
  | .addUserData data =>
      let (success, s) := userdbAdd s data
      .ok ([.addUserData success], s)
  | .bcastMsg _ | .listClients | .kick _ _ | .kickAll _ | .wait | .getRoomDesc | .getRoomName
  | .lookAt _ | .printInventory | .take _ | .drop _ | .listUsers | .execVerb _ =>
      execWorld env s sender r

/-- `handle_child_req`: nothing is sent to a client that is not in the table, and every
other answer ends with `REQ_ALLDONE`. -/
def handleChildReq (env : ClientEnv σ) (s : ServerState σ) (r : Request) :
    Except Fault (List Packet × ServerState σ) :=
  match s.master.child env.asserts env.pid with
  | none => .ok ([], s)
  | some sender => do
      let (packets, s) ← handleRequest env s sender r
      .ok (packets ++ [.allDone], s)

end Master

/-! ## The client -/

/-- `enum reqdata_typespec`. -/
inductive ReqdataType where
  | none
  | userdata
  | boolean
  deriving DecidableEq, Repr

/-- The variables of a client process.  `returned_reqdata` is a union of a record and a
boolean, and is kept as the record: the boolean is the first byte of its name. -/
structure Client where
  areAdmin : Bool
  currentUser : Option CString
  childRawmode : Bool
  reqdataType : ReqdataType
  returnedReqdata : UserData
  reqsSinceTs : ℕ
  ts : ℤ

namespace Client

/-- A process that has just been started. -/
def init : Client := ⟨false, none, false, .none, UserData.zero, 0, 0⟩

/-- `returned_reqdata.boolean`. -/
def boolean (c : Client) : Bool := c.returnedReqdata.username.headD 0 != 0

/-- A boolean is returned. -/
def setBoolean (c : Client) (b : Bool) : Client :=
  { c with
    reqdataType := .boolean
    returnedReqdata := { c.returnedReqdata with
      username := (if b then 1 else 0) :: c.returnedReqdata.username.tail } }

/-- The cases of `poll_requests` after which the client goes on reading. -/
def receive (c : Client) : Packet → Client
  | .rawMode => { c with childRawmode := !c.childRawmode }
  | .move status => c.setBoolean (status == 1)
  | .getUserData data => { c with reqdataType := .userdata, returnedReqdata := data }
  | .delUserData success | .addUserData success => c.setBoolean success
  | .bcastMsg _ | .kick _ | .nop | .printNewline | .allDone => c

/-- The head of `send_master`: whether the limit is exceeded, and the counter afterwards. -/
def rateLimit (c : Client) (now : ℤ) : Bool × Client :=
  if c.areAdmin then (false, c)
  else
    let c := if c.ts ≠ now then { c with ts := now, reqsSinceTs := 0 } else c
    (10 < c.reqsSinceTs, { c with reqsSinceTs := c.reqsSinceTs + 1 })

end Client

/-- Where `client_main` is: before its command loop, or in it. -/
inductive Phase where
  | authenticating
  | commands
  deriving DecidableEq, Repr

/-- A call of `send_master`, and what the client and the master had when it was made. -/
structure Call where
  request : Request
  client : Client
  child : Option ChildData
  now : ℤ
  phase : Phase
  /-- The number of logins there have been. -/
  login : ℕ
  /-- The login in which the client last set its room. -/
  roomLogin : Option ℕ

/-- A client, the master, and what is going to be typed. -/
structure Session (σ : Type) where
  client : Client
  server : ServerState σ
  input : List CString
  tick : ℕ
  dice : ℕ
  calls : List Call
  phase : Phase
  login : ℕ
  roomLogin : Option ℕ

/-- A new client. -/
def Session.start {σ : Type} (server : ServerState σ) (input : List CString) : Session σ :=
  ⟨Client.init, server, input, 0, 0, [], .authenticating, 0, none⟩

/-- What a client does in a session. -/
abbrev ClientM (σ α : Type) : Type := Script (Session σ) α

section Client

variable {σ : Type}

/-- The variables are changed. -/
def setClient (f : Client → Client) : ClientM σ Unit := fun s =>
  (some (), { s with client := f s.client })

/-- `client_read`, which waits until there is a line. -/
def clientReadLine : ClientM σ CString := fun s =>
  match s.input with
  | line :: rest => (some line, { s with input := rest })
  | [] => (none, s)

/-- `time`. -/
def time (env : ClientEnv σ) : ClientM σ ℤ := fun s =>
  (some (env.clock s.tick), { s with tick := s.tick + 1 })

/-- `rand`. -/
def rand (env : ClientEnv σ) : ClientM σ ℕ := fun s =>
  (some (env.rand s.dice), { s with dice := s.dice + 1 })

/-- `poll_requests`, until the request is complete.  Without an end it waits for ever, and
a client that is kicked exits. -/
def pollRequests : List Packet → ClientM σ Unit
  | [] | .kick _ :: _ => stop
  | .allDone :: _ => pure ()
  | p :: packets => do
      setClient fun c => c.receive p
      pollRequests packets

/-- The call that is being made. -/
def Session.call (env : ClientEnv σ) (s : Session σ) (r : Request) : Call :=
  ⟨r, s.client, s.server.master.child env.asserts env.pid, env.clock s.tick, s.phase, s.login,
    s.roomLogin⟩

/-- The limiter, which asks for the time unless the user is an administrator. -/
def limitRequest (env : ClientEnv σ) (r : Request) : ClientM σ Bool := fun s =>
  let limit := s.client.rateLimit (env.clock s.tick)
  (some limit.1, { s with
    client := limit.2
    tick := if s.client.areAdmin then s.tick else s.tick + 1
    calls := s.calls ++ [s.call env r] })

/-- The request is written, and handled by the master.  If that is the end of the master, it
is the end of the client. -/
def writeRequest (env : ClientEnv σ) (r : Request) : ClientM σ (List Packet) := fun s =>
  match handleChildReq env s.server r with
  | .error _ => (none, s)
  | .ok (packets, server) =>
      (some packets, { s with
        server
        roomLogin := match r with
          | .setRoom _ => some s.login
          | _ => s.roomLogin })

/-- `send_master`. -/
def sendMaster (env : ClientEnv σ) (r : Request) : ClientM σ Unit := do
  let exceeded ← limitRequest env r
  if exceeded then pure ()
  else
    let packets ← writeRequest env r
    pollRequests packets

/-- `client_change_state`. -/
def clientChangeState (env : ClientEnv σ) (state : ChildState) : ClientM σ Unit :=
  sendMaster env (.changeState state)

/-- `client_change_user`. -/
def clientChangeUser (env : ClientEnv σ) (user : CString) : ClientM σ Unit :=
  sendMaster env (.changeUser user)

/-- `client_change_room`. -/
def clientChangeRoom (env : ClientEnv σ) (id : RoomId) : ClientM σ Unit :=
  sendMaster env (.setRoom id)

/-- `dirs`, with the values of `enum direction_t`. -/
def dirs : List (CString × ℕ) :=
  [(.ofChars ['N'], 0), (.ofChars ['N', 'O', 'R', 'T', 'H'], 0),
    (.ofChars ['N', 'E'], 1), (.ofChars ['N', 'O', 'R', 'T', 'H', 'E', 'A', 'S', 'T'], 0),
    (.ofChars ['E'], 2), (.ofChars ['E', 'A', 'S', 'T'], 2),
    (.ofChars ['S', 'E'], 3), (.ofChars ['S', 'O', 'U', 'T', 'H', 'E', 'A', 'S', 'T'], 3),
    (.ofChars ['S'], 4), (.ofChars ['S', 'O', 'U', 'T', 'H'], 4),
    (.ofChars ['S', 'W'], 5), (.ofChars ['S', 'O', 'U', 'T', 'H', 'W', 'E', 'S', 'T'], 5),
    (.ofChars ['W'], 6), (.ofChars ['W', 'E', 'S', 'T'], 6),
    (.ofChars ['N', 'W'], 7), (.ofChars ['N', 'O', 'R', 'T', 'H', 'W', 'E', 'S', 'T'], 7),
    (.ofChars ['U'], 8), (.ofChars ['U', 'P'], 8),
    (.ofChars ['D'], 9), (.ofChars ['D', 'O', 'W', 'N'], 9),
    (.ofChars ['I', 'N'], 10), (.ofChars ['O', 'U', 'T'], 11)]

/-- `client_move`. -/
def clientMove (env : ClientEnv σ) (dir : CString) : ClientM σ Bool :=
  match dirs.lookup dir with
  | some val => do
      sendMaster env (.move val)
      ask fun s => s.client.reqdataType == .boolean && s.client.boolean
  | none => pure false

/-- `client_look`. -/
def clientLook (env : ClientEnv σ) : ClientM σ Unit := do
  sendMaster env .getRoomName
  sendMaster env .getRoomDesc

/-- `client_look_at`. -/
def clientLookAt (env : ClientEnv σ) (obj : CString) : ClientM σ Unit :=
  sendMaster env (.lookAt (allLower obj))

/-- `client_take`. -/
def clientTake (env : ClientEnv σ) (obj : Option CString) : ClientM σ Unit :=
  match obj with
  | some obj => sendMaster env (.take (allLower obj))
  | none => pure ()

/-- `client_inventory`. -/
def clientInventory (env : ClientEnv σ) : ClientM σ Unit := sendMaster env .printInventory

/-- `client_drop`. -/
def clientDrop (env : ClientEnv σ) (what : CString) : ClientM σ Unit := sendMaster env (.drop what)

/-- `client_user_list`. -/
def clientUserList (env : ClientEnv σ) : ClientM σ Unit := sendMaster env .listUsers

/-- `userdb_request_lookup`. -/
def userdbRequestLookup (env : ClientEnv σ) (name : CString) : ClientM σ (Option UserData) := do
  sendMaster env (.getUserData name)
  ask fun s => if s.client.reqdataType = .userdata then some s.client.returnedReqdata else none

/-- `userdb_request_add`. -/
def userdbRequestAdd (env : ClientEnv σ) (data : UserData) : ClientM σ Bool := do
  sendMaster env (.addUserData data)
  ask fun s => s.client.boolean

/-- `userdb_request_remove`. -/
def userdbRequestRemove (env : ClientEnv σ) (name : CString) : ClientM σ Bool := do
  sendMaster env (.delUserData name)
  ask fun s => s.client.boolean

end Client

end NetCosm
