import NetCosm.Server.Children
import NetCosm.Library.Runs

/-!
# Operations of the master, as operations on a membership

Each function of `Server.Children` is read as an operation on the `Membership` the tables
stand for: `roomUserAdd_view`, `roomUserDel_view`, and from them the requests and the
connections.  Two things are kept all along, that the tables are well placed (`Tables`), and
that the children are under their pids and no address is used twice (`Known`).

`serverStep_view` puts the operations together, and is all that later files use.
-/

namespace NetCosm

open Master

section Views

variable {asserts : Bool} {m m' : Master}

theorem compatible_usersEnv (asserts : Bool) : (usersEnv asserts).Compatible where
  equiv :=
    { refl := fun _ => compareStrings_eq_zero_iff.mpr rfl
      symm := fun h => compareStrings_eq_zero_iff.mpr (compareStrings_eq_zero_iff.mp h).symm
      trans := fun h h' => compareStrings_eq_zero_iff.mpr
        ((compareStrings_eq_zero_iff.mp h).trans (compareStrings_eq_zero_iff.mp h')) }
  hash_eq _ _ h := congrArg hashDjb (compareStrings_eq_zero_iff.mp h)

theorem usersEnv_same_iff (asserts : Bool) {user : UserName} {t : CString} {a : ℕ} :
    (usersEnv asserts).Same user ⟨t, a⟩ ↔ t = user.text :=
  compareStrings_eq_zero_iff.trans eq_comm

theorem pidEnv_same_iff (asserts : Bool) {a b : UInt32} : (pidEnv asserts).Same a b ↔ a = b := by
  rw [HashEnv.Same, pidEnv]
  dsimp only
  split <;> simp_all

theorem compatible_pidEnv (asserts : Bool) : (pidEnv asserts).Compatible where
  equiv :=
    { refl := fun _ => (pidEnv_same_iff asserts).mpr rfl
      symm := fun h => (pidEnv_same_iff asserts).mpr ((pidEnv_same_iff asserts).mp h).symm
      trans := fun h h' => (pidEnv_same_iff asserts).mpr
        (((pidEnv_same_iff asserts).mp h).trans ((pidEnv_same_iff asserts).mp h')) }
  hash_eq _ _ h := (pidEnv_same_iff asserts).mp h

/-- Every table of the master is well placed. -/
structure Master.Tables (asserts : Bool) (m : Master) : Prop where
  children : m.childMap.WellPlaced (pidEnv asserts)
  users : ∀ room ∈ m.rooms, room.users.WellPlaced (usersEnv asserts)

/-- Writing to the structure of a child that is in the table. -/
theorem setChild_view (hm : m.Tables asserts) {c : ChildData}
    (hc : (m.child asserts c.pid).isSome) :
    (m.setChild asserts c).Tables asserts ∧
      (m.setChild asserts c).view asserts = (m.view asserts).setChild c := by
  refine ⟨⟨hm.children.hashSetData _ _, hm.users⟩, ?_⟩
  rw [Master.child, hashLookup_eq_map, Option.isSome_map] at hc
  obtain ⟨e, he⟩ := Option.isSome_iff_exists.mp hc
  refine congrArg (Membership.mk · _) (funext fun pid => ?_)
  show hashLookup (pidEnv asserts) (hashSetData (pidEnv asserts) m.childMap c.pid c) pid =
    Function.update (m.child asserts) c.pid (some c) pid
  rw [hashLookup_eq_map, hashSetData_entries (compatible_pidEnv asserts) hm.children he]
  by_cases hpid : pid = c.pid
  · subst hpid
    rw [if_pos ((pidEnv_same_iff asserts).mpr rfl), Function.update_self]
    rfl
  · rw [if_neg fun h => hpid ((pidEnv_same_iff asserts).mp h).symm, Function.update_of_ne hpid,
      Master.child, hashLookup_eq_map]

/-- What is entered under a name is in the map of the room. -/
theorem view_entry (m : Master) (id : RoomId) (t : CString) :
    (m.view asserts).entry id t =
      m.rooms[id]?.bind fun room => hashEntry (usersEnv asserts) room.users ⟨t, 0⟩ := by
  simp only [Master.view]
  cases m.rooms[id]? <;> rfl

/-- Writing to the map of a room. -/
theorem setUsers_view (hm : m.Tables asserts) {id : RoomId} {room : Room}
    {users : HashMap UserName ℕ} (hroom : m.rooms[id]? = some room)
    (hu : users.WellPlaced (usersEnv asserts)) :
    (m.setUsers id users).Tables asserts ∧
      ((m.setUsers id users).view asserts).child = (m.view asserts).child ∧
      ∀ i t, ((m.setUsers id users).view asserts).entry i t =
        if i = id then hashEntry (usersEnv asserts) users ⟨t, 0⟩
        else (m.view asserts).entry i t := by
  refine ⟨⟨hm.children, fun room hroom => ?_⟩, rfl, fun i t => ?_⟩
  · obtain ⟨i, hi, rfl⟩ := List.mem_iff_getElem.mp hroom
    simp only [setUsers, List.getElem_modify]
    simp only [setUsers, List.length_modify] at hi
    split
    · exact hu
    · exact hm.users _ (List.getElem_mem hi)
  · rw [view_entry, setUsers]
    by_cases hid : i = id
    · rw [if_pos hid, hid, List.getElem?_modify_eq, hroom]
      rfl
    · rw [if_neg hid, List.getElem?_modify_ne _ _ (Ne.symm hid), view_entry]

theorem roomGet_ok {id : RoomId} {room : Room} (h : m.roomGet id = .ok room) :
    m.rooms[id]? = some room := by
  rw [roomGet] at h
  split at h
  · rename_i r hr
    rw [hr, Except.ok.inj h]
  · exact absurd h (by simp)

/-- What is entered in a room is what its map has. -/
theorem entry_of_room {id : RoomId} {room : Room} (h : m.rooms[id]? = some room) (t : CString) :
    (m.view asserts).entry id t = hashEntry (usersEnv asserts) room.users ⟨t, 0⟩ := by
  rw [view_entry, h]
  rfl

/-- **`room_user_add`** enters a child in a room. -/
theorem roomUserAdd_view (hm : m.Tables asserts) {id : RoomId} {c : ChildData} {b : Bool}
    (h : roomUserAdd asserts m id c = .ok (b, m')) :
    m'.Tables asserts ∧ m'.view asserts = (m.view asserts).enter id c ∧ m'.fresh = m.fresh := by
  rw [roomUserAdd] at h
  cases hu : c.user with
  | none =>
    rw [hu] at h
    obtain ⟨-, rfl⟩ := Prod.mk.inj (Except.ok.inj h)
    exact ⟨hm, by rw [Membership.enter, hu], rfl⟩
  | some user =>
    rw [hu] at h
    obtain ⟨room, hroom, h⟩ := bind_eq_ok h
    obtain ⟨⟨old, users⟩, hins, h⟩ := bind_eq_ok h
    obtain ⟨-, rfl⟩ := Prod.mk.inj (Except.ok.inj h)
    have hget := roomGet_ok hroom
    obtain ⟨-, hplaced, hentries⟩ := hashInsert_entries (compatible_usersEnv asserts)
      (hm.users room (List.mem_of_getElem? hget)) hins
    obtain ⟨htables, hchild, hentry⟩ := setUsers_view hm hget hplaced
    refine ⟨htables, ?_, rfl⟩
    rw [Membership.enter, hu]
    refine Membership.ext hchild (funext fun i => funext fun t => ?_)
    rw [hentry]
    dsimp only
    by_cases hid : i = id
    · subst hid
      rw [if_pos rfl, hentries, entry_of_room hget]
      simp only [usersEnv_same_iff, true_and]
    · rw [if_neg hid, if_neg fun h => hid h.1]

/-- **`room_user_del`** takes the name of a child out of a room. -/
theorem roomUserDel_view (hm : m.Tables asserts) {id : RoomId} {c : ChildData} {b : Bool}
    (h : roomUserDel asserts m id c = .ok (b, m')) :
    m'.Tables asserts ∧ m'.view asserts = (m.view asserts).leave id c ∧ m'.fresh = m.fresh := by
  rw [roomUserDel] at h
  cases hu : c.user with
  | none =>
    rw [hu] at h
    obtain ⟨-, rfl⟩ := Prod.mk.inj (Except.ok.inj h)
    exact ⟨hm, by rw [Membership.leave, hu], rfl⟩
  | some user =>
    rw [hu] at h
    obtain ⟨room, hroom, h⟩ := bind_eq_ok h
    obtain ⟨-, rfl⟩ := Prod.mk.inj (Except.ok.inj h)
    have hget := roomGet_ok hroom
    obtain ⟨-, hplaced, hentries⟩ := hashRemove_entries (compatible_usersEnv asserts)
      (hm.users room (List.mem_of_getElem? hget)) user
    obtain ⟨htables, hchild, hentry⟩ := setUsers_view hm hget hplaced
    refine ⟨htables, ?_, rfl⟩
    rw [Membership.leave, hu]
    refine Membership.ext hchild (funext fun i => funext fun t => ?_)
    rw [hentry]
    dsimp only
    by_cases hid : i = id
    · subst hid
      rw [if_pos rfl, hentries, entry_of_room hget]
      simp only [usersEnv_same_iff, true_and]
    · rw [if_neg hid, if_neg fun h => hid h.1]

end Views

/-! ## Operations on a membership -/

namespace Membership

/-- The children are under their pids, and no address is used for two things. -/
structure Known (v : Membership) (fresh : ℕ) : Prop where
  pid_eq : ∀ pid c, v.child pid = some c → c.pid = pid
  below : ∀ pid c, v.child pid = some c → c.addr < fresh
  userBelow : ∀ pid c u, v.child pid = some c → c.user = some u → u.addr < fresh
  apart : ∀ pid pid' c c', v.child pid = some c → v.child pid' = some c' → c.addr = c'.addr →
    pid = pid'

/-- One operation.  `target` says where a move leads, and `fresh` is where the next string
or structure is put. -/
def step (v : Membership) (fresh : ℕ) (target : ChildData → ℕ → Option RoomId) :
    ServerOp → Membership
  | .connect pid =>
      match v.child pid with
      | some _ => v
      | none => v.setChild ⟨fresh, pid, 0, none⟩
  | .changeUser pid name =>
      match v.child pid with
      | some c => v.setChild { c with user := some ⟨name, fresh⟩ }
      | none => v
  | .setRoom pid id =>
      match v.child pid with
      | some c => (v.setChild { c with room := id }).enter id { c with room := id }
      | none => v
  | .move pid dir =>
      match v.child pid with
      | some c =>
          match target c dir with
          | some new =>
              ((v.leave c.room c).setChild { c with room := new }).enter new
                { c with room := new }
          | none => v
      | none => v
  | .teleport pid id =>
      match v.child pid with
      | some c => if c.room = id then v else (v.leave c.room c).enter id c
      | none => v
  | .disconnect pid =>
      match v.child pid with
      | some c => (v.leave c.room c).dropChild pid
      | none => v

@[simp] theorem enter_child (v : Membership) (id : RoomId) (c : ChildData) :
    (v.enter id c).child = v.child := by
  rw [enter]
  split <;> rfl

@[simp] theorem leave_child (v : Membership) (id : RoomId) (c : ChildData) :
    (v.leave id c).child = v.child := by
  rw [leave]
  split <;> rfl

@[simp] theorem setChild_entry (v : Membership) (c : ChildData) :
    (v.setChild c).entry = v.entry := rfl

@[simp] theorem dropChild_entry (v : Membership) (pid : UInt32) :
    (v.dropChild pid).entry = v.entry := rfl

theorem setChild_child_self (v : Membership) (c : ChildData) :
    (v.setChild c).child c.pid = some c := Function.update_self ..

theorem setChild_child_eq_some_iff {v : Membership} {c c' : ChildData} {pid : UInt32} :
    (v.setChild c).child pid = some c' ↔
      pid = c.pid ∧ c' = c ∨ pid ≠ c.pid ∧ v.child pid = some c' := by
  rw [setChild]
  dsimp only
  by_cases hpid : pid = c.pid
  · rw [hpid, Function.update_self]
    simp [eq_comm]
  · rw [Function.update_of_ne hpid]
    simp [hpid]

theorem dropChild_child_eq_some_iff {v : Membership} {c : ChildData} {pid pid' : UInt32} :
    (v.dropChild pid).child pid' = some c ↔ pid' ≠ pid ∧ v.child pid' = some c := by
  rw [dropChild]
  dsimp only
  by_cases hpid : pid' = pid
  · rw [hpid, Function.update_self]
    simp
  · rw [Function.update_of_ne hpid]
    simp [hpid]

theorem enter_of_anonymous (v : Membership) (id : RoomId) {c : ChildData} (h : c.user = none) :
    v.enter id c = v := by
  rw [enter, h]

theorem leave_of_anonymous (v : Membership) (id : RoomId) {c : ChildData} (h : c.user = none) :
    v.leave id c = v := by
  rw [leave, h]

theorem enter_entry (v : Membership) (id : RoomId) {c : ChildData} {u : UserName}
    (h : c.user = some u) (i : RoomId) (t : CString) :
    (v.enter id c).entry i t =
      if i = id ∧ t = u.text ∧ v.entry i t = none then some (u, c.addr) else v.entry i t := by
  rw [enter, h]

theorem leave_entry (v : Membership) (id : RoomId) {c : ChildData} {u : UserName}
    (h : c.user = some u) (i : RoomId) (t : CString) :
    (v.leave id c).entry i t = if i = id ∧ t = u.text then none else v.entry i t := by
  rw [leave, h]

/-- Entering removes nothing. -/
theorem enter_entry_ne_none {v : Membership} (id : RoomId) (c : ChildData) {i : RoomId}
    {t : CString} (h : v.entry i t ≠ none) : (v.enter id c).entry i t ≠ none := by
  cases hu : c.user with
  | none => rwa [enter_of_anonymous v id hu]
  | some u => rwa [enter_entry v id hu, if_neg fun h' => h h'.2.2]

/-- Whoever enters is entered afterwards. -/
theorem enter_entry_self (v : Membership) (id : RoomId) {c : ChildData} {u : UserName}
    (h : c.user = some u) : (v.enter id c).entry id u.text ≠ none := by
  rw [enter_entry v id h]
  split
  · simp
  · rename_i hif
    exact fun hnone => hif ⟨rfl, rfl, hnone⟩

/-- A name that is entered already is not entered again. -/
theorem enter_of_entered {v : Membership} {id : RoomId} {c : ChildData}
    (h : ∀ u, c.user = some u → v.entry id u.text ≠ none) : v.enter id c = v := by
  cases hu : c.user with
  | none => exact enter_of_anonymous v id hu
  | some u =>
    refine Membership.ext (enter_child v id c) (funext fun i => funext fun t => ?_)
    rw [enter_entry v id hu, if_neg]
    rintro ⟨rfl, rfl, hnone⟩
    exact h u hu hnone

section Known

variable {v : Membership} {fresh fresh' : ℕ}

theorem Known.of_child {v' : Membership} (h : v.Known fresh) (hchild : v'.child = v.child)
    (hfresh : fresh ≤ fresh') : v'.Known fresh' := by
  refine ⟨?_, ?_, ?_, ?_⟩ <;> rw [hchild]
  · exact h.pid_eq
  · exact fun pid c hc => (h.below pid c hc).trans_le hfresh
  · exact fun pid c u hc hu => (h.userBelow pid c u hc hu).trans_le hfresh
  · exact h.apart

/-- A structure may be written to, or a new one added, if nothing else has its address. -/
theorem Known.setChild (h : v.Known fresh) (hfresh : fresh ≤ fresh') {c : ChildData}
    (haddr : c.addr < fresh') (huser : ∀ u, c.user = some u → u.addr < fresh')
    (hapart : ∀ pid c', v.child pid = some c' → c'.addr = c.addr → pid = c.pid) :
    (v.setChild c).Known fresh' := by
  have hcases : ∀ pid c', (v.setChild c).child pid = some c' → _ := fun _ _ =>
    setChild_child_eq_some_iff.mp
  refine ⟨fun pid c' hc' => ?_, fun pid c' hc' => ?_, fun pid c' u hc' hu => ?_,
    fun pid pid' c₁ c₂ h₁ h₂ heq => ?_⟩
  · rcases hcases pid c' hc' with ⟨rfl, rfl⟩ | ⟨-, hc'⟩
    · rfl
    · exact h.pid_eq pid c' hc'
  · rcases hcases pid c' hc' with ⟨rfl, rfl⟩ | ⟨-, hc'⟩
    · exact haddr
    · exact (h.below pid c' hc').trans_le hfresh
  · rcases hcases pid c' hc' with ⟨rfl, rfl⟩ | ⟨-, hc'⟩
    · exact huser u hu
    · exact (h.userBelow pid c' u hc' hu).trans_le hfresh
  · rcases hcases pid c₁ h₁ with ⟨rfl, rfl⟩ | ⟨-, h₁'⟩ <;>
      rcases hcases pid' c₂ h₂ with ⟨rfl, rfl⟩ | ⟨-, h₂'⟩
    · rfl
    · exact (hapart pid' c₂ h₂' heq.symm).symm
    · exact hapart pid c₁ h₁' heq
    · exact h.apart pid pid' c₁ c₂ h₁' h₂' heq

/-- Writing to the structure of a child, and not to its pid and address. -/
theorem Known.updateChild (h : v.Known fresh) (hfresh : fresh ≤ fresh') {c : ChildData}
    (c' : ChildData) (hc : v.child c.pid = some c) (hpid : c'.pid = c.pid) (haddr : c'.addr = c.addr)
    (huser : ∀ u, c'.user = some u → u.addr < fresh') : (v.setChild c').Known fresh' := by
  refine h.setChild hfresh ?_ huser fun pid c'' hc'' heq => ?_
  · rw [haddr]
    exact (h.below c.pid c hc).trans_le hfresh
  · rw [hpid]
    exact h.apart pid c.pid c'' c hc'' hc (heq.trans haddr)

theorem Known.dropChild (h : v.Known fresh) (hfresh : fresh ≤ fresh') (pid : UInt32) :
    (v.dropChild pid).Known fresh' := by
  have hold : ∀ pid' c, (v.dropChild pid).child pid' = some c → v.child pid' = some c :=
    fun _ _ hc => (dropChild_child_eq_some_iff.mp hc).2
  exact ⟨fun pid' c hc => h.pid_eq pid' c (hold pid' c hc),
    fun pid' c hc => (h.below pid' c (hold pid' c hc)).trans_le hfresh,
    fun pid' c u hc hu => (h.userBelow pid' c u (hold pid' c hc) hu).trans_le hfresh,
    fun p p' c c' hc hc' => h.apart p p' c c' (hold p c hc) (hold p' c' hc')⟩

end Known

end Membership

section Steps

variable {asserts : Bool} {m m' : Master}

/-- **`child_set_room`** writes the room, and enters the child in it. -/
theorem childSetRoom_view (hm : m.Tables asserts) {c : ChildData} {id : RoomId}
    (hc : (m.child asserts c.pid).isSome) (h : childSetRoom asserts m c id = .ok m') :
    m'.Tables asserts ∧ m'.fresh = m.fresh ∧ m'.view asserts =
      ((m.view asserts).setChild { c with room := id }).enter id { c with room := id } := by
  obtain ⟨⟨b, m₁⟩, hadd, h⟩ := bind_eq_ok h
  obtain rfl := Except.ok.inj h
  obtain ⟨htables, hview⟩ := setChild_view (c := { c with room := id }) hm hc
  obtain ⟨htables', hview', hfresh⟩ := roomUserAdd_view htables hadd
  exact ⟨htables', hfresh, hview'.trans (by rw [hview])⟩

/-- **A move**: out of the one room and into the other, if it is permitted. -/
theorem reqMoveRoom_view (hm : m.Tables asserts) {c : ChildData} {dir : ℕ}
    (hc : (m.child asserts c.pid).isSome) {r : Option String × Bool × Master}
    (h : reqMoveRoom asserts m c dir = .ok r) :
    r.2.2.Tables asserts ∧ r.2.2.fresh = m.fresh ∧ r.2.2.view asserts =
      match m.moveTarget c dir with
      | some new => (((m.view asserts).leave c.room c).setChild { c with room := new }).enter new
          { c with room := new }
      | none => m.view asserts := by
  obtain ⟨current, hcurrent, h⟩ := bind_eq_ok h
  rw [moveTarget, hcurrent]
  split at h
  · exact absurd h (by simp)
  · rename_i hadj
    simp only [hadj]
    obtain rfl := Except.ok.inj h
    exact ⟨hm, rfl, rfl⟩
  · rename_i new hadj
    obtain ⟨newRoom, hnew, h⟩ := bind_eq_ok h
    simp only [hadj, hnew]
    split at h
    · rename_i hpermits
      rw [if_pos hpermits]
      obtain ⟨⟨b, m₁⟩, hdel, h⟩ := bind_eq_ok h
      obtain ⟨m₂, hset, h⟩ := bind_eq_ok h
      obtain rfl := Except.ok.inj h
      obtain ⟨htables, hview, hfresh⟩ := roomUserDel_view hm hdel
      have hc' : (m₁.child asserts c.pid).isSome := by
        have hchild : m₁.child asserts = m.child asserts :=
          (congrArg Membership.child hview).trans (Membership.leave_child ..)
        rwa [hchild]
      obtain ⟨htables', hfresh', hview'⟩ := childSetRoom_view htables hc' hset
      exact ⟨htables', hfresh'.trans hfresh, by rw [hview', hview]⟩
    · rename_i hpermits
      rw [if_neg hpermits]
      obtain rfl := Except.ok.inj h
      exact ⟨hm, rfl, rfl⟩

/-- **`room_user_teleport`** changes the maps of both rooms, and not the room of the child. -/
theorem roomUserTeleport_view (hm : m.Tables asserts) {c : ChildData} {id : RoomId}
    (h : roomUserTeleport asserts m c id = .ok m') :
    m'.Tables asserts ∧ m'.fresh = m.fresh ∧ m'.view asserts =
      if c.room = id then m.view asserts else ((m.view asserts).leave c.room c).enter id c := by
  rw [roomUserTeleport] at h
  split at h
  · rename_i hne
    rw [if_neg hne]
    obtain ⟨⟨b, m₁⟩, hdel, h⟩ := bind_eq_ok h
    obtain ⟨⟨b', m₂⟩, hadd, h⟩ := bind_eq_ok h
    obtain rfl := Except.ok.inj h
    obtain ⟨htables, hview, hfresh⟩ := roomUserDel_view hm hdel
    obtain ⟨htables', hview', hfresh'⟩ := roomUserAdd_view htables hadd
    exact ⟨htables', hfresh'.trans hfresh, by rw [hview', hview]⟩
  · rename_i heq
    rw [if_pos (by simpa using heq)]
    obtain rfl := Except.ok.inj h
    exact ⟨hm, rfl, rfl⟩

/-- **A new connection** is in the table afterwards, unless its pid was there before. -/
theorem newConnection_view (hm : m.Tables asserts) {pid : UInt32}
    (h : newConnection asserts m pid = .ok m') :
    m'.Tables asserts ∧ m'.fresh = m.fresh + 1 ∧ m'.view asserts =
      match (m.view asserts).child pid with
      | some _ => m.view asserts
      | none => (m.view asserts).setChild ⟨m.fresh, pid, 0, none⟩ := by
  obtain ⟨⟨old, childMap⟩, hins, h⟩ := bind_eq_ok h
  obtain rfl := Except.ok.inj h
  obtain ⟨-, hplaced, hentries⟩ := hashInsert_entries (compatible_pidEnv asserts) hm.children hins
  refine ⟨⟨hplaced, hm.users⟩, rfl, ?_⟩
  have hchild : ∀ p, hashLookup (pidEnv asserts) childMap p =
      if p = pid ∧ m.child asserts p = none then some ⟨m.fresh, pid, 0, none⟩
      else m.child asserts p := by
    intro p
    rw [hashLookup_eq_map, hentries, Master.child, hashLookup_eq_map]
    simp only [pidEnv_same_iff, Option.map_eq_none_iff, eq_comm (a := pid)]
    split <;> rfl
  cases hold : (m.view asserts).child pid with
  | some c =>
    refine Membership.ext (funext fun p => (hchild p).trans ?_) rfl
    rw [if_neg]
    · rfl
    · rintro ⟨rfl, hnone⟩
      exact absurd (hnone.symm.trans hold) (by simp)
  | none =>
    refine Membership.ext (funext fun p => (hchild p).trans ?_) rfl
    by_cases hp : p = pid
    · subst hp
      rw [if_pos ⟨rfl, hold⟩]
      exact (Function.update_self p _ (m.child asserts)).symm
    · rw [if_neg fun h => hp h.1]
      exact (Function.update_of_ne hp _ (m.child asserts)).symm

/-- **A disconnected child** is in no table any more, and its name in no room it says it is
in. -/
theorem handleDisconnect_view (hm : m.Tables asserts) {pid : UInt32}
    (h : handleDisconnect asserts m pid = .ok m') :
    m'.Tables asserts ∧ m'.fresh = m.fresh ∧ ∃ c, (m.view asserts).child pid = some c ∧
      m'.view asserts = ((m.view asserts).leave c.room c).dropChild pid := by
  rw [handleDisconnect] at h
  split at h
  · exact absurd h (by simp)
  · rename_i c hc
    obtain ⟨⟨b, m₁⟩, hdel, h⟩ := bind_eq_ok h
    obtain rfl := Except.ok.inj h
    obtain ⟨htables, hview, hfresh⟩ := roomUserDel_view hm hdel
    obtain ⟨-, hplaced, hentries⟩ := hashRemove_entries (compatible_pidEnv asserts)
      htables.children pid
    refine ⟨⟨hplaced, htables.users⟩, hfresh, c, hc, ?_⟩
    rw [← hview]
    refine Membership.ext (funext fun p => ?_) rfl
    show hashLookup (pidEnv asserts) (hashRemove (pidEnv asserts) m₁.childMap pid).2 p =
      Function.update (m₁.child asserts) pid none p
    rw [hashLookup_eq_map, hentries]
    by_cases hp : p = pid
    · subst hp
      rw [if_pos ((pidEnv_same_iff asserts).mpr rfl), Function.update_self]
      rfl
    · rw [if_neg fun h => hp ((pidEnv_same_iff asserts).mp h).symm, Function.update_of_ne hp,
        Master.child, hashLookup_eq_map]

end Steps

/-- **An operation of the master is an operation on its membership.** -/
theorem serverStep_view {asserts : Bool} {m m' : Master} (hm : m.Tables asserts)
    (hk : (m.view asserts).Known m.fresh) {op : ServerOp}
    (h : serverStep asserts m op = .ok m') :
    m'.Tables asserts ∧ m'.view asserts = (m.view asserts).step m.fresh m.moveTarget op ∧
      (m'.view asserts).Known m'.fresh := by
  have hpid : ∀ {pid c}, m.child asserts pid = some c → (m.child asserts c.pid).isSome :=
    fun {pid c} hc => by rw [hk.pid_eq pid c hc, hc]; rfl
  have hself : ∀ {pid c}, m.child asserts pid = some c →
      (m.view asserts).child c.pid = some c := fun {pid c} hc => by
    rw [hk.pid_eq pid c hc]
    exact hc
  cases op with
  | connect pid =>
    obtain ⟨htables, hfresh, hview⟩ := newConnection_view hm h
    rw [Membership.step, hview]
    refine ⟨htables, rfl, ?_⟩
    rw [hfresh]
    split
    · exact hk.of_child rfl (Nat.le_succ _)
    · refine hk.setChild (Nat.le_succ _) (Nat.lt_succ_self _) (fun u hu => by simp at hu) ?_
      exact fun pid' c hc heq => absurd (hk.below pid' c hc) (by simp [heq])
  | changeUser pid name =>
    rw [serverStep] at h
    rw [Membership.step]
    cases hc : m.child asserts pid with
    | none =>
      simp only [hc] at h
      obtain rfl := Except.ok.inj h
      exact ⟨hm, by simp only [view, hc], hk⟩
    | some c =>
      simp only [hc] at h
      obtain rfl := Except.ok.inj h
      obtain ⟨htables, hview⟩ :=
        setChild_view (c := { c with user := some ⟨name, m.fresh⟩ }) hm (hpid (c := c) hc)
      have hview' : (reqChangeUser asserts m c name).view asserts =
          (m.view asserts).setChild { c with user := some ⟨name, m.fresh⟩ } := hview
      refine ⟨⟨htables.children, htables.users⟩, hview'.trans (by simp only [view, hc]), ?_⟩
      rw [hview']
      refine hk.updateChild (Nat.le_succ _) _ (hself hc) rfl rfl fun u hu => ?_
      rw [← Option.some.inj hu]
      exact Nat.lt_succ_self _
  | setRoom pid id =>
    rw [serverStep] at h
    rw [Membership.step]
    cases hc : m.child asserts pid with
    | none =>
      simp only [hc] at h
      obtain rfl := Except.ok.inj h
      exact ⟨hm, by simp only [view, hc], hk⟩
    | some c =>
      simp only [hc] at h
      obtain ⟨htables, hfresh, hview⟩ := childSetRoom_view hm (hpid hc) h
      refine ⟨htables, hview.trans (by simp only [view, hc]), ?_⟩
      rw [hview, hfresh]
      refine (hk.updateChild (Nat.le_refl _) { c with room := id } (hself hc) rfl rfl
        fun u hu => hk.userBelow pid c u hc hu).of_child (by simp) (Nat.le_refl _)
  | move pid dir =>
    rw [serverStep] at h
    rw [Membership.step]
    cases hc : m.child asserts pid with
    | none =>
      simp only [hc] at h
      obtain rfl := Except.ok.inj h
      exact ⟨hm, by simp only [view, hc], hk⟩
    | some c =>
      simp only [hc] at h
      obtain ⟨r, hr, rfl⟩ := map_eq_ok h
      obtain ⟨htables, hfresh, hview⟩ := reqMoveRoom_view hm (hpid hc) hr
      refine ⟨htables, hview.trans (by simp only [view, hc]), ?_⟩
      rw [hview, hfresh]
      split
      · rename_i new _
        have hleave : ((m.view asserts).leave c.room c).Known m.fresh :=
          hk.of_child (by simp) (Nat.le_refl _)
        refine (hleave.updateChild (c := c) (Nat.le_refl _) { c with room := new }
          (by rw [Membership.leave_child]; exact hself hc) rfl rfl
          fun u hu => hk.userBelow pid c u hc hu).of_child (by simp) (Nat.le_refl _)
      · exact hk
  | teleport pid id =>
    rw [serverStep] at h
    rw [Membership.step]
    cases hc : m.child asserts pid with
    | none =>
      simp only [hc] at h
      obtain rfl := Except.ok.inj h
      exact ⟨hm, by simp only [view, hc], hk⟩
    | some c =>
      simp only [hc] at h
      obtain ⟨htables, hfresh, hview⟩ := roomUserTeleport_view hm h
      refine ⟨htables, hview.trans (by simp only [view, hc]), ?_⟩
      rw [hview, hfresh]
      split
      · exact hk
      · exact hk.of_child (by simp) (Nat.le_refl _)
  | disconnect pid =>
    obtain ⟨htables, hfresh, c, hc, hview⟩ := handleDisconnect_view hm h
    refine ⟨htables, ?_, ?_⟩
    · rw [hview, Membership.step, hc]
    · rw [hview, hfresh]
      exact (hk.of_child (Membership.leave_child ..) (Nat.le_refl _)).dropChild (Nat.le_refl _) pid

end NetCosm
