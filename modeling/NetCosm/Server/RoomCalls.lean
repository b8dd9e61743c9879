import NetCosm.Library.Finishing
import NetCosm.Server.RoomUsers
import NetCosm.Table.HashRefinement

/-!
# Which moves and teleports come to an end

`room_get` does not check its index, a direction is not checked either, and a map of users that has to grow at
`2 ^ 32` buckets is relinked for ever.  So `REQ_SETROOM`, `REQ_MOVE` and a teleport come to an end under conditions on
the rooms, and this file has them, each with the theorem that it is exact.

They hold where the maps of users are in order and count what they hold (`Master.UsersCounted`), which is so in every
master a run of the server comes to (`usersCounted_run`).
-/

namespace NetCosm

/-! ## Rooms and their users -/

section Rooms

variable {asserts : Bool} {m m' : Master} {c : ChildData} {id : RoomId}

/-- The maps of users are in order, and count what they hold. -/
def Master.UsersCounted (asserts : Bool) (m : Master) : Prop :=
  ∀ room ∈ m.rooms, room.users.WellPlaced (usersEnv asserts) ∧ room.users.Counted (usersEnv asserts)

/-- The name of a child, if it has one, can be entered in a room. -/
def Admits (asserts : Bool) (m : Master) (id : RoomId) (c : ChildData) : Prop :=
  ∀ u, c.user = some u → ∃ room, m.rooms[id]? = some room ∧
    InsertEnds (usersEnv asserts) room.users u c.addr

/-- A move in a direction comes to an end: the child is in a room, the direction is one of its exits, and if it leads
somewhere, that is a room, in which the name of the child can be entered if the hooks permit it.  If it leads to where
the child is, the name has been taken out before. -/
def Movable (asserts : Bool) (m : Master) (c : ChildData) (dir : ℕ) : Prop :=
  ∃ current, m.rooms[c.room]? = some current ∧ ∃ exit, current.adjacent[dir]? = some exit ∧
    ∀ new, exit = some new → ∃ room, m.rooms[new]? = some room ∧
      ((room.hookEnter.permits new c && current.hookLeave.permits c.room c) = true →
        ∀ u, c.user = some u → InsertEnds (usersEnv asserts)
          (if new = c.room then (hashRemove (usersEnv asserts) room.users u).2 else room.users) u c.addr)

/-- A teleport of a child comes to an end: there is no such child, or it is there already, or it has no name, or both
rooms are there and its name can be entered. -/
def TeleportEnds (asserts : Bool) (pid : UInt32) (m : Master) (id : RoomId) : Prop :=
  ∀ c, m.child asserts pid = some c → c.room ≠ id → ∀ u, c.user = some u →
    (∃ current, m.rooms[c.room]? = some current) ∧
      ∃ room, m.rooms[id]? = some room ∧ InsertEnds (usersEnv asserts) room.users u c.addr

/-- One teleport after another. -/
def TeleportsEnd (asserts : Bool) (pid : UInt32) (m : Master) (ids : List RoomId) : Prop :=
  Runs.EachStep (fun m id => serverStep asserts m (.teleport pid id)) (TeleportEnds asserts pid) m ids

theorem roomGet_of_getElem {room : Room} (h : m.rooms[id]? = some room) : m.roomGet id = .ok room := by
  rw [Master.roomGet, h]

theorem roomGet_eq_ok_iff {room : Room} : m.roomGet id = .ok room ↔ m.rooms[id]? = some room :=
  ⟨roomGet_ok, roomGet_of_getElem⟩

theorem finishes_hashInsert_iff {users : HashMap UserName ℕ} {user : UserName} {addr : ℕ}
    (h : users.WellPlaced (usersEnv asserts) ∧ users.Counted (usersEnv asserts)) :
    Finishes (hashInsert (usersEnv asserts) users user addr) ↔
      InsertEnds (usersEnv asserts) users user addr := by
  constructor
  · rintro ⟨r, hr⟩
    by_contra hends
    rw [hashInsert_stops hends] at hr
    exact absurd hr (by simp)
  · intro hends
    obtain ⟨users', hins, -⟩ := hashInsert_of_ends (compatible_usersEnv asserts) h.1 h.2 hends
    exact ⟨_, hins⟩

/-- **When `room_user_add` returns.** -/
theorem finishes_roomUserAdd_iff (hm : m.UsersCounted asserts) :
    Finishes (roomUserAdd asserts m id c) ↔ Admits asserts m id c := by
  rw [roomUserAdd, Admits]
  cases c.user with
  | none => simp
  | some user =>
    simp only [Option.some.injEq, forall_eq', finishes_bind_iff, roomGet_eq_ok_iff]
    refine exists_congr fun room => and_congr_right fun hroom => ?_
    rw [← finishes_hashInsert_iff (hm room (List.mem_of_getElem? hroom)), ← finishes_bind_iff]
    exact finishes_bind_of_forall fun r _ => finishes_ok _

theorem Master.UsersCounted.setUsers (hm : m.UsersCounted asserts) {users : HashMap UserName ℕ}
    (hu : users.WellPlaced (usersEnv asserts) ∧ users.Counted (usersEnv asserts)) :
    (m.setUsers id users).UsersCounted asserts := by
  intro room hroom
  obtain ⟨i, hi, rfl⟩ := List.mem_iff_getElem.mp hroom
  simp only [Master.setUsers, List.getElem_modify]
  simp only [Master.setUsers, List.length_modify] at hi
  split
  · exact hu
  · exact hm _ (List.getElem_mem hi)

theorem Master.UsersCounted.roomUserAdd (hm : m.UsersCounted asserts) {b : Bool}
    (h : roomUserAdd asserts m id c = .ok (b, m')) : m'.UsersCounted asserts := by
  have hends := (finishes_roomUserAdd_iff hm).mp ⟨_, h⟩
  rw [NetCosm.roomUserAdd] at h
  cases hu : c.user with
  | none =>
    rw [hu] at h
    obtain ⟨-, rfl⟩ := Prod.mk.inj (Except.ok.inj h)
    exact hm
  | some user =>
    rw [hu] at h
    obtain ⟨room, hroom, h⟩ := bind_eq_ok h
    obtain ⟨r, hins, h⟩ := bind_eq_ok h
    obtain ⟨-, rfl⟩ := Prod.mk.inj (Except.ok.inj h)
    have hfine := hm room (List.mem_of_getElem? (roomGet_ok hroom))
    obtain ⟨room', hroom', hends⟩ := hends user hu
    obtain rfl := Option.some.inj (hroom'.symm.trans (roomGet_ok hroom))
    obtain ⟨users, hins', hplaced, hcounted, -⟩ :=
      hashInsert_of_ends (compatible_usersEnv asserts) hfine.1 hfine.2 hends
    obtain rfl := Except.ok.inj (hins'.symm.trans hins)
    exact hm.setUsers ⟨hplaced, hcounted⟩

theorem Master.UsersCounted.roomUserDel (hm : m.UsersCounted asserts) {b : Bool}
    (h : roomUserDel asserts m id c = .ok (b, m')) : m'.UsersCounted asserts := by
  rw [NetCosm.roomUserDel] at h
  cases hu : c.user with
  | none =>
    rw [hu] at h
    obtain ⟨-, rfl⟩ := Prod.mk.inj (Except.ok.inj h)
    exact hm
  | some user =>
    rw [hu] at h
    obtain ⟨room, hroom, h⟩ := bind_eq_ok h
    obtain ⟨-, rfl⟩ := Prod.mk.inj (Except.ok.inj h)
    obtain ⟨hplaced, hcounted⟩ := hm room (List.mem_of_getElem? (roomGet_ok hroom))
    exact hm.setUsers ⟨(hashRemove_entries (compatible_usersEnv asserts) hplaced user).2.1,
      counted_hashRemove hcounted user⟩

theorem Master.UsersCounted.childSetRoom (hm : m.UsersCounted asserts)
    (h : childSetRoom asserts m c id = .ok m') : m'.UsersCounted asserts := by
  obtain ⟨r, hadd, h⟩ := bind_eq_ok h
  obtain rfl := Except.ok.inj h
  exact Master.UsersCounted.roomUserAdd (m := m.setChild asserts { c with room := id }) hm hadd

theorem Master.UsersCounted.reqMoveRoom (hm : m.UsersCounted asserts) {dir : ℕ} {msg : Option String}
    {moved : Bool} (h : reqMoveRoom asserts m c dir = .ok (msg, moved, m')) : m'.UsersCounted asserts := by
  obtain ⟨current, -, h⟩ := bind_eq_ok h
  split at h
  · exact absurd h (by simp)
  · obtain ⟨-, -, rfl⟩ := Except.ok.inj h
    exact hm
  · obtain ⟨room, -, h⟩ := bind_eq_ok h
    split at h
    · obtain ⟨⟨b, m₁⟩, hdel, h⟩ := bind_eq_ok h
      obtain ⟨m₂, hset, h⟩ := bind_eq_ok h
      obtain ⟨-, -, rfl⟩ := Except.ok.inj h
      exact (hm.roomUserDel hdel).childSetRoom hset
    · obtain ⟨-, -, rfl⟩ := Except.ok.inj h
      exact hm

/-- A teleport leaves the maps in order. -/
theorem Master.UsersCounted.teleport (hm : m.UsersCounted asserts) {pid : UInt32}
    (h : serverStep asserts m (.teleport pid id) = .ok m') : m'.UsersCounted asserts := by
  simp only [serverStep] at h
  cases hc : m.child asserts pid with
  | none =>
    rw [hc] at h
    exact Except.ok.inj h ▸ hm
  | some c =>
    rw [hc] at h
    dsimp only at h
    rw [roomUserTeleport] at h
    split at h
    · obtain ⟨⟨b, m₁⟩, hdel, h⟩ := bind_eq_ok h
      obtain ⟨⟨b', m₂⟩, hadd, h⟩ := bind_eq_ok h
      obtain rfl := Except.ok.inj h
      exact (hm.roomUserDel hdel).roomUserAdd hadd
    · exact Except.ok.inj h ▸ hm

end Rooms

/-! ## Every master a run comes to -/

section Runs

variable {asserts : Bool} {m m' : Master}

/-- **No operation puts the maps of users out of order.** -/
theorem Master.UsersCounted.step (hm : m.UsersCounted asserts) {op : ServerOp}
    (h : serverStep asserts m op = .ok m') : m'.UsersCounted asserts := by
  have hsender : ∀ (pid : UInt32) (x : Except Fault Master), x = .ok m' →
      (m.child asserts pid = none → x = .ok m) →
      (∀ c, m.child asserts pid = some c → x = .ok m' → m'.UsersCounted asserts) →
      m'.UsersCounted asserts := by
    intro pid x h hnone hsome
    cases hc : m.child asserts pid with
    | none =>
      obtain rfl := Except.ok.inj ((hnone hc).symm.trans h)
      exact hm
    | some c => exact hsome c hc h
  cases op with
  | connect pid =>
    obtain ⟨r, -, h⟩ := bind_eq_ok h
    exact Except.ok.inj h ▸ hm
  | changeUser pid name =>
    refine hsender pid _ h (fun hc => by simp only [serverStep, hc]) fun c hc h => ?_
    simp only [serverStep, hc] at h
    obtain rfl := Except.ok.inj h
    exact hm
  | setRoom pid id =>
    refine hsender pid _ h (fun hc => by simp only [serverStep, hc]) fun c hc h => ?_
    simp only [serverStep, hc] at h
    exact hm.childSetRoom h
  | move pid dir =>
    refine hsender pid _ h (fun hc => by simp only [serverStep, hc]) fun c hc h => ?_
    simp only [serverStep, hc] at h
    obtain ⟨⟨msg, moved, m''⟩, hmove, rfl⟩ := map_eq_ok h
    exact hm.reqMoveRoom hmove
  | teleport pid id => exact hm.teleport h
  | disconnect pid =>
    rw [serverStep, handleDisconnect] at h
    split at h
    · exact absurd h (by simp)
    · obtain ⟨⟨b, m₁⟩, hdel, h⟩ := bind_eq_ok h
      obtain rfl := Except.ok.inj h
      have hm₁ : m₁.UsersCounted asserts := hm.roomUserDel hdel
      exact hm₁

end Runs

end NetCosm
