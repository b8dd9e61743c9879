import NetCosm.Objects.World
import NetCosm.Server.Dispatch
import NetCosm.Server.Listings
import NetCosm.Server.Verbs

/-!
# The handlers of the requests of the world

The rest of `server_reqs.c`: looking around, taking and dropping, inventories, lists of users, and verbs.
`handleRequest` leaves these requests to `ClientEnv.answer`; here is what the source answers.

The functions that move objects are those of `Objects/World`, lists are those of `Server/Listings`, and lines are
looked up as in `Server/Verbs`.  What these files take as given is checked here: that the sender has a user, and that
the user has a record; that there is the room the sender is in, and that it has a description; and that a string that
is compared has not been freed.

## The world module

`Hooks` is what a world module supplies: the hooks of the classes of its objects, and of its verbs, and the function
that takes the lines of a child in raw mode.  The hooks of an object look at what there is and change nothing; those
of a verb may change everything but the children, and teleport the sender.  A hook returns.

With the hooks come two functions of which only the results are of interest here: `ctime`, and the place of the
records in the table of `userdb.c`.
-/

namespace NetCosm

namespace Handlers

open Listings (Message lit)
open Storage (Verb)

/-! ## What there is -/

/-- The texts of a room, which are null if the world module has given none. -/
structure RoomText where
  name : Option CString
  desc : Option CString

/-- What the handlers look at besides the children and the records.  `ω` is what the world module remembers. -/
structure Realm (ω : Type) where
  memory : ω
  objects : World UInt32
  /-- `obj->hidden`. -/
  hidden : ObjId → Bool
  /-- `obj->default_article`. -/
  defaultArticle : ObjId → Bool
  rooms : List RoomText
  verbs : Verbs.State
  /-- Whether a child has a `raw_mode_cb`, by pid. -/
  rawModeCb : UInt32 → Bool
  /-- `num_clients`. -/
  numClients : ℤ

/-- What a world module supplies, and what else is called. -/
structure Hooks (ω : Type) where
  hookTake : CString → Option (ObjId → ChildData → ω → Bool)
  hookDrop : CString → Option (ObjId → ChildData → ω → Bool)
  hookDesc : CString → Option (ObjId → ChildData → ω → CString)
  hookExec : CString →
    Option (Verb → Option CString → ChildData → ServerState (Realm ω) → WorldAnswer (Realm ω))
  rawModeCb : CString → ChildData → ServerState (Realm ω) → WorldAnswer (Realm ω)
  ctime : ℤ → CString
  userTable : (CString → Option UserData) → HashMap CString UserData

section

variable {ω : Type}

/-- The hooks of a class, for this sender. -/
def Hooks.classes (H : Hooks ω) (memory : ω) (sender : ChildData) (cls : CString) : ObjClass where
  hookTake := (H.hookTake cls).map fun h id _ => h id sender memory
  hookDrop := (H.hookDrop cls).map fun h id _ => h id sender memory

/-- The objects as the listings read them. -/
def Realm.store (realm : Realm ω) : Storage.ObjStore Unit where
  objects id := (realm.objects.objects id).map fun o =>
    { toObject := o
      id := UInt64.ofNat id
      nAlias := UInt64.ofNat o.aliasList.length
      hidden := realm.hidden id
      defaultArticle := realm.defaultArticle id
      userdata := none }
  fresh := realm.objects.idcounter
  idcounter := UInt64.ofNat realm.objects.idcounter

/-- A pair as the listings read it. -/
def plainPair (p : ObjPair) : Listings.Pair := ⟨p.addr, p.key.text, p.val⟩

/-- A node as the listings read it. -/
def plainNode (n : HashNode ObjKey (MultimapNode ObjKey ObjId)) :
    HashNode CString (MultimapNode CString ℕ) where
  key := n.key.text
  data := ⟨n.data.list.map plainPair, n.data.nPairs, by rw [List.length_map, n.data.counted]⟩

/-- A map as the listings read it: the keys without their owners. -/
def plain (m : ObjMap) : Storage.ObjTable where
  hashTab := { m.hashTab with table := m.hashTab.table.map fun chain => chain.map plainNode }
  totalPairs := m.totalPairs
  refcount := m.refcount
  fresh := m.fresh

/-- The groups that `multimap_iterate` hands out. -/
def handedOut (m : ObjMap) : List (List ObjPair) :=
  (m.hashTab.nodes.map HashNode.pairs).takeWhile fun g => !g.isEmpty

/-- The first pairs of these groups. -/
def heads (m : ObjMap) : List ObjPair := (handedOut m).filterMap List.head?

/-! ## `server_reqs.c` -/

/-- A text, as `send_msg` sends it. -/
def sayText (text : String) : Message := .text (lit text)

/-- `req_send_geninfo`. -/
def reqSendGeninfo (realm : Realm ω) : List Message :=
  [sayText ("Total clients: " ++ toString realm.numClients ++ "\n")]

/-- `req_send_roomname`. -/
def reqSendRoomname (realm : Realm ω) (sender : ChildData) : Except Fault (List Message) :=
  match realm.rooms[sender.room]? with
  | none => .error .outOfBounds
  | some room =>
      match room.name with
      | some name => .ok [.text name.bytes, .newline]
      | none => .ok []

/-- `req_send_desc`.  The key of a group is compared with a name, unless the object is hidden. -/
def reqSendDesc (realm : Realm ω) (sender : ChildData) : Except Fault (List Message) :=
  match realm.rooms[sender.room]? with
  | none => .error .outOfBounds
  | some room =>
      match room.desc with
      | none => .error .nullPointer
      | some desc => do
          let m ← realm.objects.getMap (.room sender.room)
          realm.objects.touch (((heads m).filter fun p => !realm.hidden p.val).map MultimapPair.key)
          Listings.describe realm.store desc (plain m)

/-- `userdb_lookup(sender->user)->objects`. -/
def inventoryOf (realm : Realm ω) (sender : ChildData) : Except Fault (CString × ObjMap) :=
  match sender.user with
  | none => .error .nullPointer
  | some user => (realm.objects.getMap (.inventory user.text)).map fun m => (user.text, m)

/-- `req_inventory`. -/
def reqInventory (realm : Realm ω) (sender : ChildData) : Except Fault (List Message) := do
  let inv ← inventoryOf realm sender
  realm.objects.touch ((heads inv.2).map MultimapPair.key)
  Listings.reqInventory realm.store (plain inv.2)

/-- What `print_objlist` says of an object. -/
def describeObject (H : Hooks ω) (realm : Realm ω) (sender : ChildData) (p : ObjPair) :
    Except Fault CString := do
  let obj ← realm.objects.deref p.val
  match H.hookDesc obj.cls with
  | none => .error .nullPointer
  | some hook => .ok (hook p.val sender realm.memory)

/-- `print_objlist`: the objects are numbered from `idx` on if there are several. -/
def printObjlist (H : Hooks ω) (realm : Realm ω) (sender : ChildData) (list : List ObjPair)
    (idx nObjs : ℕ) : Except Fault (List Message) :=
  (list.zipIdx idx).foldlM (fun out p =>
    (describeObject H realm sender p.1).map fun desc =>
      out ++ [.text ((if 1 < nObjs then lit (toString p.2 ++ ") ") else []) ++ desc.bytes ++ lit "\n")]) []

/-- `req_look_at`. -/
def reqLookAt (H : Hooks ω) (asserts : Bool) (realm : Realm ω) (sender : ChildData) (data : CString) :
    Except Fault (List Message) := do
  let roomList ← lookupObjs asserts realm.objects (.room sender.room) ⟨data, none⟩
  let inv ← inventoryOf realm sender
  let invList ← lookupObjs asserts realm.objects (.inventory inv.1) ⟨data, none⟩
  let nObjs := roomList.length + invList.length
  let inRoom ← printObjlist H realm sender roomList 1 nObjs
  let inInventory ← printObjlist H realm sender invList (roomList.length + 1) nObjs
  .ok ((if roomList.isEmpty then [] else sayText "In room:\n" :: inRoom) ++
    (if invList.isEmpty then [] else sayText "In inventory:\n" :: inInventory) ++
    if roomList.isEmpty && invList.isEmpty then [sayText "I don't know what that is.\n"] else [])

/-- The loop of `req_take` for a sender without a user: what may be taken is given to nobody. -/
def takeByNobody (H : Hooks ω) (realm : Realm ω) (sender : ChildData) (w : World UInt32) (id : ObjId) :
    Except Fault (String × World UInt32) := do
  let obj ← w.deref id
  if ((H.hookTake obj.cls).all fun h => h id sender realm.memory) then .error .nullPointer
  else .ok ("You can't take that.\n", w)

/-- `req_take`. -/
def reqTake (H : Hooks ω) (asserts : Bool) (realm : Realm ω) (sender : ChildData) (data : CString) :
    Except Fault (List String × World UInt32) :=
  match sender.user with
  | some user =>
      NetCosm.reqTake asserts (H.classes realm.memory sender) ⟨user.text, sender.room⟩ data realm.objects
  | none => do
      let list ← roomObjGet asserts realm.objects sender.room ⟨data, none⟩
      match list with
      | [] => .ok (["I don't know what that is.\n"], realm.objects)
      | p :: rest =>
          walkList (.room sender.room) (takeByNobody H realm sender) (rest.length + 1) realm.objects
            (some p.addr)

/-- `req_drop`. -/
def reqDrop (H : Hooks ω) (asserts : Bool) (realm : Realm ω) (sender : ChildData) (data : CString) :
    Except Fault (List String × World UInt32) :=
  match sender.user with
  | some user =>
      NetCosm.reqDrop asserts (H.classes realm.memory sender) ⟨user.text, sender.room⟩ data realm.objects
  | none => .error .nullPointer

/-- `req_listusers`. -/
def reqListusers (H : Hooks ω) (users : CString → Option UserData) : Except Fault (List Message) :=
  hashForEach (H.userTable users) (fun out node => .ok (out ++
    [.text (node.data.name.bytes ++ lit (": priv: " ++ toString node.data.priv ++ " last: ") ++
      (H.ctime node.data.lastLogin).bytes)])) []

/-! ## Answers -/

/-- A message is a packet. -/
def packetOf : Message → Packet
  | .text s => .bcastMsg (CString.ofBuffer s)
  | .newline => .printNewline
  | .notice n => .bcastMsg (CString.ofBuffer n.text)

theorem isNotice_packetOf (m : Message) : (packetOf m).IsNotice := by
  cases m <;> exact trivial

/-- Messages are sent, and nothing happens to the records and the children. -/
def answerWith (s : ServerState (Realm ω)) (realm : Realm ω) (messages : List Message) :
    WorldAnswer (Realm ω) where
  packets := messages.map packetOf
  users := s.users
  world := realm
  teleports := []
  notices p hp := by
    obtain ⟨m, -, rfl⟩ := List.mem_map.mp hp
    exact isNotice_packetOf m

/-- Objects have been moved. -/
def answerMoved (s : ServerState (Realm ω)) (r : List String × World UInt32) : WorldAnswer (Realm ω) :=
  answerWith s { s.world with objects := r.2 } (r.1.map sayText)

/-- Other maps of verbs. -/
def withVerbs (s : ServerState (Realm ω)) (verbs : Verbs.State) : ServerState (Realm ω) :=
  { s with world := { s.world with verbs := verbs } }

/-- `req_execverb`. -/
def reqExecverb (H : Hooks ω) (asserts : Bool) (s : ServerState (Realm ω)) (sender : ChildData)
    (data : CString) : Except Fault (WorldAnswer (Realm ω)) := do
  let r ← Verbs.reqExecverb asserts s.world.verbs ⟨sender.room, s.world.rawModeCb sender.pid⟩ data
  let s' := withVerbs s r.2
  match r.1 with
  | .raw data => .ok (H.rawModeCb data sender s')
  | .unknown => .ok (answerWith s' s'.world [sayText "I don't know what that means.\n"])
  | .exec verb args =>
      match H.hookExec verb.cls with
      | none => .error .nullPointer
      | some hook => .ok (hook verb args sender s')

/-- What is answered to a request of the world.  The other requests do not come here. -/
def answer (H : Hooks ω) (asserts : Bool) (sender : ChildData) (r : Request)
    (s : ServerState (Realm ω)) : Except Fault (WorldAnswer (Realm ω)) :=
  match r with
  | .listClients => .ok (answerWith s s.world (reqSendGeninfo s.world))
  | .getRoomDesc => (reqSendDesc s.world sender).map (answerWith s s.world)
  | .getRoomName => (reqSendRoomname s.world sender).map (answerWith s s.world)
  | .lookAt name => (reqLookAt H asserts s.world sender name).map (answerWith s s.world)
  | .printInventory => (reqInventory s.world sender).map (answerWith s s.world)
  | .take name => (reqTake H asserts s.world sender name).map (answerMoved s)
  | .drop name => (reqDrop H asserts s.world sender name).map (answerMoved s)
  | .listUsers => (reqListusers H s.users).map (answerWith s s.world)
  | .execVerb line => reqExecverb H asserts s sender line
  | .wait | .bcastMsg _ | .kick _ _ | .kickAll _ | .changeState _ | .changeUser _ | .setRoom _ | .move _
  | .getUserData _ | .delUserData _ | .addUserData _ => .ok (answerWith s s.world [])

/-- A master with these handlers. -/
def Hooks.env (H : Hooks ω) (base : ClientEnv (Realm ω)) : ClientEnv (Realm ω) :=
  { base with answer := answer H base.asserts }

end

end Handlers

end NetCosm
