import NetCosm.Objects.TakeAndDrop
import NetCosm.Server.Handlers
import NetCosm.Server.RoomCalls

/-!
# Which requests of the world come to an end

The handlers of `Server/Handlers` follow pointers that may be null, index arrays, read strings that may have been
freed, and go through tables that may have `2 ^ 32` buckets.  What each of them needs is said here as a condition on
what the master has when it begins: `CanLook`, `CanDescribe`, `CanTakeStock`, `CanExec`, and so on.

## Taking and dropping

For all others the condition is exact.  A request that finds something to take or to drop walks along a list that it
changes.  That it comes to an end is said where it is safe, as in `Objects/TakeAndDrop`, and where nothing happens on
the way, since every object is refused.
-/

namespace NetCosm

open Handlers

/-! ## What is looked at -/

section Looking

variable {ω : Type} {H : Hooks ω} {asserts : Bool} {realm : Realm ω} {sender : ChildData} {name : CString}

/-- A name can be looked up in a map: the map is there, and no key that it is compared with has been freed. -/
def Findable (asserts : Bool) (w : World UInt32) (c : Container) (name : CString) : Prop :=
  ∃ m, w.map? c = some m ∧ ∀ key ∈ m.hashTab.walked (objEnv asserts) ⟨name, none⟩, w.readable key = true

/-- What is found under a name. -/
def found (asserts : Bool) (w : World UInt32) (c : Container) (name : CString) : List ObjPair :=
  w.toNat.listed asserts c ⟨name, none⟩

instance (asserts : Bool) (w : World UInt32) (c : Container) (name : CString) :
    Decidable (Findable asserts w c name) :=
  inferInstanceAs (Decidable (∃ m ∈ w.map? c, _))

/-- An object can be described. -/
def Describable (H : Hooks ω) (realm : Realm ω) (id : ObjId) : Prop :=
  ∃ obj, realm.objects.objects id = some obj ∧ (H.hookDesc obj.cls).isSome = true

instance {ω : Type} (H : Hooks ω) (realm : Realm ω) (id : ObjId) : Decidable (Describable H realm id) :=
  inferInstanceAs (Decidable (∃ obj ∈ realm.objects.objects id, _))

/-- `req_look_at` comes to an end: the name can be looked up in the room and in the inventory of the sender, and what
is found can be described. -/
def CanLook (H : Hooks ω) (asserts : Bool) (realm : Realm ω) (sender : ChildData) (name : CString) : Prop :=
  Findable asserts realm.objects (.room sender.room) name ∧
    ∃ u, sender.user = some u ∧ Findable asserts realm.objects (.inventory u.text) name ∧
      ∀ p ∈ found asserts realm.objects (.room sender.room) name ++
        found asserts realm.objects (.inventory u.text) name, Describable H realm p.val

end Looking

/-! ## Lists -/

section Lists

variable {ω : Type} {H : Hooks ω} {asserts : Bool} {realm : Realm ω} {sender : ChildData}

/-- `req_send_roomname` comes to an end in a room that is there. -/
def CanName (realm : Realm ω) (sender : ChildData) : Prop := sender.room < realm.rooms.length

/-- `req_send_desc` comes to an end: there are the room and its description; there are fewer than `2 ^ 32` buckets;
the object a group begins with is there, and unless it is hidden, so is the key of the group. -/
def CanDescribe (realm : Realm ω) (sender : ChildData) : Prop :=
  (∃ room, realm.rooms[sender.room]? = some room ∧ room.desc.isSome = true) ∧
    ∃ m, realm.objects.map? (.room sender.room) = some m ∧ m.hashTab.tableSz < unsignedRange ∧
      ∀ p ∈ heads m, (realm.objects.objects p.val).isSome = true ∧
        (realm.hidden p.val = false → realm.objects.readable p.key = true)

/-- `req_inventory` comes to an end: the sender has a user, and this a record; there are fewer than `2 ^ 32` buckets;
the object a group begins with is there, and so is the key of the group; and an object that is alone and has no
article has a name. -/
def CanTakeStock (realm : Realm ω) (sender : ChildData) : Prop :=
  ∃ u m, sender.user = some u ∧ realm.objects.map? (.inventory u.text) = some m ∧
    m.hashTab.tableSz < unsignedRange ∧ ∀ g ∈ handedOut m, ∀ p ∈ g.head?,
      realm.objects.readable p.key = true ∧ ∃ obj, realm.objects.objects p.val = some obj ∧
        (p.key.text = obj.name → g.length = 1 → realm.defaultArticle p.val = false → p.key.text.bytes ≠ [])

/-- `req_listusers` comes to an end in a table of fewer than `2 ^ 32` buckets. -/
def CanListUsers (H : Hooks ω) (users : CString → Option UserData) : Prop :=
  (H.userTable users).tableSz < unsignedRange

end Lists

/-! ## Verbs -/

section Words

variable {ω : Type} {H : Hooks ω} {asserts : Bool} {env : ClientEnv (Realm ω)} {s : ServerState (Realm ω)}
  {sender : ChildData} {data : CString}

/-- `req_execverb` comes to an end.  If the world module takes the lines of the sender, it is the module that has to
come to an end, with its teleports.  Otherwise the line has a word, the room of the sender is there, and the verb that
is found, if there is one, has a `hook_exec`, which has to come to an end. -/
def CanExec (H : Hooks ω) (asserts : Bool) (s : ServerState (Realm ω)) (sender : ChildData)
    (data : CString) : Prop :=
  if s.world.rawModeCb sender.pid = true then
    TeleportsEnd asserts sender.pid s.master (H.rawModeCb data sender s).teleports
  else
    (data.dropWhile Verbs.isBlank).bytes ≠ [] ∧ sender.room < s.world.verbs.rooms.length ∧
      ∀ verb, Verbs.verbFound asserts s.world.verbs sender.room (allLower (Verbs.wordOf data)) =
        some verb →
        ∃ hook, H.hookExec verb.cls = some hook ∧
          TeleportsEnd asserts sender.pid s.master (hook verb (Verbs.argsOf data) sender
            (withVerbs s (Verbs.verbsAsked asserts s.world.verbs sender.room
              (allLower (Verbs.wordOf data))))).teleports

end Words

/-! ## Taking and dropping -/

section Moving

variable {ω : Type} {H : Hooks ω} {asserts : Bool} {realm : Realm ω} {sender : ChildData} {name : CString}
  {w : World UInt32} {c : Container}

/-- The hook of an object does not let the sender take it. -/
def Refuses (H : Hooks ω) (realm : Realm ω) (sender : ChildData) (id : ObjId) : Prop :=
  ∃ obj, realm.objects.objects id = some obj ∧
    ∃ hook, H.hookTake obj.cls = some hook ∧ hook id sender realm.memory = false

/-- An operation is about what is there, it is safe, and no counter comes around. -/
def SafeNow (asserts : Bool) (w : World UInt32) (op : ObjOp) : Prop :=
  op.InPlay asserts w.toNat ∧ op.Safe asserts w.toNat ∧ op.Fits asserts w

instance (asserts : Bool) (w : World UInt32) (op : ObjOp) : Decidable (SafeNow asserts w op) :=
  inferInstanceAs (Decidable (_ ∧ _ ∧ _))

/-- `req_take` comes to an end: the name can be looked up, and if something is found, every object is refused, or the
sender has a user, and what is found can be moved safely. -/
def CanTake (H : Hooks ω) (asserts : Bool) (realm : Realm ω) (sender : ChildData) (name : CString) : Prop :=
  Findable asserts realm.objects (.room sender.room) name ∧
    (found asserts realm.objects (.room sender.room) name ≠ [] → realm.objects.toNat.Settled asserts ∧
      ((∀ p ∈ found asserts realm.objects (.room sender.room) name, Refuses H realm sender p.val) ∨
        ∃ u, sender.user = some u ∧
          SafeNow asserts realm.objects (.take (H.classes realm.memory sender) ⟨u.text, sender.room⟩ name)))

/-- `req_drop` comes to an end: the sender has a user, which has no record, or the name can be looked up, and what is
found can be moved safely. -/
def CanDrop (H : Hooks ω) (asserts : Bool) (realm : Realm ω) (sender : ChildData) (name : CString) : Prop :=
  ∃ u, sender.user = some u ∧ (realm.objects.map? (.inventory u.text) = none ∨
    Findable asserts realm.objects (.inventory u.text) name ∧
      (found asserts realm.objects (.inventory u.text) name ≠ [] → realm.objects.toNat.Settled asserts ∧
        SafeNow asserts realm.objects (.drop (H.classes realm.memory sender) ⟨u.text, sender.room⟩ name)))

/-- Between two requests the counters of live objects have not come around. -/
theorem World.Settled.tracks (h : w.toNat.Settled asserts) : Tracks noMore w w.toNat := by
  obtain ⟨held, horder, -⟩ := h.order
  refine ⟨rfl, fun id o ho => ?_, fun id o ho => ?_, fun id hid => ?_⟩
  · exact (horder.live id o.toNat (by rw [World.toNat]; dsimp only; rw [ho]; rfl)).2
  · exact o.refcount.toNat_lt
  · exact Option.map_eq_none_iff.mp (horder.fresh id hid)

end Moving

end NetCosm
