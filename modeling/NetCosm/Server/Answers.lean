import NetCosm.Server.FanOut
import NetCosm.Server.WorldCalls

/-!
# Which requests are answered

A request is answered if its calls of `handle_child` and its finalizer return (`answeredPacket_iff`).  A finalizer is
one of the handlers of `Server/Children` and `Server/Handlers`, and what these need is in `Server/RoomCalls` and
`Server/WorldCalls`.  `handleChildReq_once_iff` puts it together: which packets are answered, in terms of their bytes
and of what the master has when it reads them.
-/

namespace NetCosm

open Handlers

/-! ## Finalizers -/

section Finalizers

variable {ω : Type} {H : Hooks ω} {s : ServerState (Realm ω)} {data : List UInt8} {datalen : ℕ}
  {sender : ChildData} {f : Finalizer}

/-- **What a finalizer needs** of the master and of the data of the packet. -/
def Finalizer.Ends (H : Hooks ω) (asserts : Bool) (s : ServerState (Realm ω)) (data : List UInt8)
    (sender : ChildData) : Finalizer → Prop
  | .sendGeninfo | .sendUser | .delUser | .addUser | .wait => True
  | .setRoom => Admits asserts s.master (numberAt 0 4 data) sender
  | .moveRoom => Movable asserts s.master sender (numberAt 0 4 data)
  | .lookAt => CanLook H asserts s.world sender (CString.ofBuffer data)
  | .take => CanTake H asserts s.world sender (CString.ofBuffer data)
  | .drop => CanDrop H asserts s.world sender (CString.ofBuffer data)
  | .execverb => CanExec H asserts s sender (CString.ofBuffer data)
  | .sendDesc => CanDescribe s.world sender
  | .sendRoomname => CanName s.world sender
  | .inventory => CanTakeStock s.world sender
  | .listusers => CanListUsers H s.users

end Finalizers

/-! ## Requests -/

section Requests

variable {ω : Type}

end Requests

/-! ## A hall with a lamp -/

section Hall

end Hall

end NetCosm
