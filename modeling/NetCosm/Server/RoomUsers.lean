import NetCosm.Library.Runs
import NetCosm.Server.Membership

/-!
# Who is in which room

The users of a room are entered under their names in the map of the room, and a child has
its room in its own structure.  This file says when the two agree.

`Agrees` asks two things.  Every entry is the string and the structure of a child that is
connected, has this name and has this room (`Real`); in particular no entry refers to memory
that has been freed.  And the name of every child is entered in the room of the child
(`Entered`).

A login is two requests, and between them the child has its new name and not yet its room.
A `MemberOp` is therefore a request by itself, or a login whose second request is the next
one that is handled.  The agreement is looked at after every one of them.

`membership_agrees_iff` says which operations keep this up: `Keeps` excludes a login over a
login, a name that is not entered where the child is, a teleport of a child that has a name,
and a move or a disconnect of one of two children of one name in one room.
-/

namespace NetCosm

namespace Membership

variable {v : Membership} {fresh : ℕ}

/-! ## Agreement -/

/-- A child has this name and this room. -/
def Named (v : Membership) (id : RoomId) (t : CString) : Prop :=
  ∃ pid c u, v.child pid = some c ∧ c.user = some u ∧ u.text = t ∧ c.room = id

/-- Every name is entered in the room of its child. -/
def Entered (v : Membership) : Prop :=
  ∀ id t, v.Named id t → v.entry id t ≠ none

/-- Every entry is a connected child with this name and this room. -/
def Real (v : Membership) : Prop :=
  ∀ id t u a, v.entry id t = some (u, a) → u.text = t ∧
    ∃ pid c, v.child pid = some c ∧ c.addr = a ∧ c.user = some u ∧ c.room = id

/-- The maps of the rooms agree with the children. -/
structure Agrees (v : Membership) : Prop where
  entered : v.Entered
  real : v.Real

/-- The child is what its name is entered for in its room. -/
def IsEntry (v : Membership) (c : ChildData) : Prop :=
  ∃ u k, c.user = some u ∧ v.entry c.room u.text = some (k, c.addr)

/-- Another child has the name and the room of this one. -/
def Shared (v : Membership) (c : ChildData) : Prop :=
  ∃ u, c.user = some u ∧ (v.dropChild c.pid).Named c.room u.text

/-- The operation keeps the maps of the rooms in agreement with the children. -/
def Keeps (v : Membership) (target : ChildData → ℕ → Option RoomId) : ServerOp → Prop
  | .connect _ => True
  -- the old name must not be entered for the child, and the new one must be where it is
  | .changeUser pid name => ∀ c, v.child pid = some c →
      ¬ v.IsEntry c ∧ v.entry c.room name ≠ none
  | .setRoom pid id => ∀ c, v.child pid = some c → id ≠ c.room → ¬ v.IsEntry c
  -- nobody else may need the entry that is taken out
  | .move pid dir => ∀ c, v.child pid = some c → ∀ new, target c dir = some new →
      new ≠ c.room → ¬ v.Shared c
  | .disconnect pid => ∀ c, v.child pid = some c → ¬ v.Shared c
  -- and not the child itself, which stays where it is
  | .teleport pid id => ∀ c u, v.child pid = some c → c.user = some u → c.room ≠ id →
      v.entry id u.text ≠ none ∧ ¬ v.Named c.room u.text

/-- A child that logs in gets its name and its room, and is entered. -/
def login (v : Membership) (fresh : ℕ) (pid : UInt32) (name : CString) (id : RoomId) :
    Membership :=
  match v.child pid with
  | some c =>
      (v.setChild { c with user := some ⟨name, fresh⟩, room := id }).enter id
        { c with user := some ⟨name, fresh⟩, room := id }
  | none => v

/-! ## Lemmas -/

theorem Named.of_dropChild {pid : UInt32} {id : RoomId} {t : CString}
    (h : (v.dropChild pid).Named id t) : v.Named id t := by
  obtain ⟨pid', c, u, hc, h⟩ := h
  exact ⟨pid', c, u, (dropChild_child_eq_some_iff.mp hc).2, h⟩

/-- Who has a name after a structure has been written to. -/
theorem named_setChild_iff {c : ChildData} {id : RoomId} {t : CString} :
    (v.setChild c).Named id t ↔
      (∃ u, c.user = some u ∧ u.text = t ∧ c.room = id) ∨ (v.dropChild c.pid).Named id t := by
  constructor
  · rintro ⟨pid, c', u, hc', h⟩
    rcases setChild_child_eq_some_iff.mp hc' with ⟨rfl, rfl⟩ | hc'
    · exact Or.inl ⟨u, h⟩
    · exact Or.inr ⟨pid, c', u, dropChild_child_eq_some_iff.mpr hc', h⟩
  · rintro (⟨u, h⟩ | ⟨pid, c', u, hc', h⟩)
    · exact ⟨c.pid, c, u, setChild_child_self v c, h⟩
    · exact ⟨pid, c', u, setChild_child_eq_some_iff.mpr
        (Or.inr (dropChild_child_eq_some_iff.mp hc')), h⟩

theorem named_of_child {v' : Membership} (h : v'.child = v.child) {id : RoomId} {t : CString} :
    v'.Named id t ↔ v.Named id t := by
  rw [Named, Named, h]

theorem named_dropChild_leave {c : ChildData} {i id : RoomId} {pid : UInt32} {t : CString} :
    ((v.leave i c).dropChild pid).Named id t ↔ (v.dropChild pid).Named id t :=
  named_of_child (congrArg (Function.update · pid none) (leave_child v i c))

theorem Real.leave (h : v.Real) (id : RoomId) (c : ChildData) : (v.leave id c).Real := by
  cases hu : c.user with
  | none => rwa [leave_of_anonymous v id hu]
  | some u =>
    intro i t k a he
    rw [leave_entry v id hu] at he
    split at he
    · exact absurd he (by simp)
    · rw [leave_child]
      exact h i t k a he

theorem Real.enter (h : v.Real) {pid : UInt32} {c : ChildData} (hc : v.child pid = some c) :
    (v.enter c.room c).Real := by
  cases hu : c.user with
  | none => rwa [enter_of_anonymous v c.room hu]
  | some u =>
    intro i t k a he
    rw [enter_entry v c.room hu] at he
    rw [enter_child]
    split at he
    · rename_i hif
      obtain ⟨rfl, rfl⟩ := Prod.mk.inj (Option.some.inj he)
      exact ⟨hif.2.1.symm, pid, c, hc, rfl, hu, hif.1.symm⟩
    · exact h i t k a he

/-- An entry that is not for this child is not touched when the child changes or goes. -/
theorem Real.of_other {v' : Membership} (h : v.Real) {c₀ : ChildData} {pid : UInt32}
    (hc : v.child pid = some c₀) (hno : ¬ v.IsEntry c₀) (hentry : v'.entry = v.entry)
    (hchild : ∀ p, p ≠ pid → v'.child p = v.child p) : v'.Real := by
  intro i t u a he
  rw [hentry] at he
  obtain ⟨rfl, p, c, hpc, rfl, hu, rfl⟩ := h i t u a he
  refine ⟨rfl, p, c, ?_, rfl, hu, rfl⟩
  rw [hchild p, hpc]
  rintro rfl
  obtain rfl := Option.some.inj (hpc.symm.trans hc)
  exact hno ⟨u, u, hu, he⟩

theorem not_isEntry_leave (v : Membership) (c : ChildData) : ¬ (v.leave c.room c).IsEntry c := by
  rintro ⟨u, k, hu, he⟩
  rw [leave_entry v c.room hu, if_pos ⟨rfl, rfl⟩] at he
  exact absurd he (by simp)

/-- A child that enters its new room is entered there, and nobody else loses anything. -/
theorem Entered.enter_setChild {c : ChildData}
    (h : ∀ id t, (v.dropChild c.pid).Named id t →
      (v.entry id t ≠ none ∨ id = c.room ∧ ∃ u, c.user = some u ∧ t = u.text)) :
    ((v.setChild c).enter c.room c).Entered := by
  intro id t hn
  rw [named_of_child (enter_child ..), named_setChild_iff] at hn
  rcases hn with ⟨u, hu, rfl, rfl⟩ | hn
  · exact enter_entry_self _ c.room hu
  · rcases h id t hn with hne | ⟨rfl, u, hu, rfl⟩
    · exact enter_entry_ne_none c.room c hne
    · exact enter_entry_self _ c.room hu

/-- Who has not left is still entered. -/
theorem Entered.leave (h : v.Entered) {c : ChildData} {id : RoomId} {t : CString}
    (hn : v.Named id t) :
    (v.leave c.room c).entry id t ≠ none ∨ id = c.room ∧ ∃ u, c.user = some u ∧ t = u.text := by
  cases hu : c.user with
  | none =>
    rw [leave_of_anonymous v c.room hu]
    exact Or.inl (h id t hn)
  | some u =>
    rw [leave_entry v c.room hu]
    by_cases hif : id = c.room ∧ t = u.text
    · exact Or.inr ⟨hif.1, u, rfl, hif.2⟩
    · rw [if_neg hif]
      exact Or.inl (h id t hn)

/-- **An operation that keeps the agreement keeps it.** -/
theorem Agrees.step (hk : v.Known fresh) (h : v.Agrees)
    {target : ChildData → ℕ → Option RoomId} {op : ServerOp} (hop : v.Keeps target op) :
    (v.step fresh target op).Agrees := by
  cases op with
  | connect pid =>
    rw [Membership.step]
    cases hc : v.child pid with
    | some c => exact h
    | none =>
      refine ⟨fun id t hn => ?_, fun i t u a he => ?_⟩
      · rcases named_setChild_iff.mp hn with ⟨u, hu, -⟩ | hn
        · exact absurd hu (by simp)
        · exact h.entered id t hn.of_dropChild
      · obtain ⟨ht, p, c, hpc, hac⟩ := h.real i t u a he
        refine ⟨ht, p, c, setChild_child_eq_some_iff.mpr (Or.inr ⟨?_, hpc⟩), hac⟩
        rintro rfl
        exact absurd (hpc.symm.trans hc) (by simp)
  | changeUser pid name =>
    rw [Membership.step]
    cases hc : v.child pid with
    | none => exact h
    | some c =>
      obtain rfl := hk.pid_eq pid c hc
      obtain ⟨hno, hname⟩ := hop c hc
      refine ⟨fun id t hn => ?_, ?_⟩
      · rcases named_setChild_iff.mp hn with ⟨u, hu, rfl, rfl⟩ | hn
        · obtain rfl := Option.some.inj hu
          exact hname
        · exact h.entered id t hn.of_dropChild
      · exact h.real.of_other hc hno rfl fun p hp => Function.update_of_ne hp ..
  | setRoom pid id =>
    rw [Membership.step]
    cases hc : v.child pid with
    | none => exact h
    | some c =>
      obtain rfl := hk.pid_eq pid c hc
      refine ⟨?_, ?_⟩
      · exact Entered.enter_setChild (c := { c with room := id }) fun i t hn =>
          Or.inl (h.entered i t hn.of_dropChild)
      · refine Real.enter (c := { c with room := id }) ?_ (setChild_child_self ..)
        by_cases hroom : id = c.room
        · have hsame : v.setChild { c with room := id } = v := by
            rw [hroom]
            exact Membership.ext (Function.update_eq_self_iff.mpr hc.symm) rfl
          rw [hsame]
          exact h.real
        · exact h.real.of_other hc (hop c hc hroom) rfl fun p hp => Function.update_of_ne hp ..
  | move pid dir =>
    rw [Membership.step]
    cases hc : v.child pid with
    | none => exact h
    | some c =>
      obtain rfl := hk.pid_eq pid c hc
      cases htarget : target c dir with
      | none => simpa only [htarget] using h
      | some new =>
        simp only [htarget]
        have hc' : (v.leave c.room c).child c.pid = some c := by rw [leave_child, hc]
        refine ⟨?_, ?_⟩
        · refine Entered.enter_setChild (c := { c with room := new }) fun i t hn => ?_
          have hn' := named_dropChild_leave.mp hn
          rcases h.entered.leave (c := c) hn'.of_dropChild with hne | ⟨rfl, u, hu, rfl⟩
          · exact Or.inl hne
          · by_cases hnew : new = c.room
            · exact Or.inr ⟨hnew.symm, u, hu, rfl⟩
            · exact absurd ⟨u, hu, hn'⟩ (hop c hc new htarget hnew)
        · refine Real.enter (c := { c with room := new }) ?_ (setChild_child_self ..)
          exact (h.real.leave c.room c).of_other hc' (not_isEntry_leave v c) rfl
            fun p hp => Function.update_of_ne hp ..
  | teleport pid id =>
    rw [Membership.step]
    cases hc : v.child pid with
    | none => exact h
    | some c =>
      dsimp only
      by_cases hroom : c.room = id
      · rwa [if_pos hroom]
      · rw [if_neg hroom, enter_of_entered]
        · refine ⟨fun i t hn => ?_, h.real.leave c.room c⟩
          rw [named_of_child (leave_child ..)] at hn
          rcases h.entered.leave (c := c) hn with hne | ⟨rfl, u, hu, rfl⟩
          · exact hne
          · exact absurd hn (hop c u hc hu hroom).2
        · intro u hu
          rw [leave_entry v c.room hu, if_neg fun hif => hroom hif.1.symm]
          exact (hop c u hc hu hroom).1
  | disconnect pid =>
    rw [Membership.step]
    cases hc : v.child pid with
    | none => exact h
    | some c =>
      obtain rfl := hk.pid_eq pid c hc
      have hc' : (v.leave c.room c).child c.pid = some c := by rw [leave_child, hc]
      refine ⟨fun i t hn => ?_, ?_⟩
      · have hn' := named_dropChild_leave.mp hn
        rcases h.entered.leave (c := c) hn'.of_dropChild with hne | ⟨rfl, u, hu, rfl⟩
        · exact hne
        · exact absurd ⟨u, hu, hn'⟩ (hop c hc)
      · exact (h.real.leave c.room c).of_other hc' (not_isEntry_leave v c) rfl
          fun p hp => Function.update_of_ne hp ..

/-- An entry for a child that has changed is not an entry for anybody. -/
theorem not_real_of_isEntry {v' : Membership} {fresh' : ℕ} (hk : v.Known fresh) (h : v.Real)
    {c : ChildData} (c' : ChildData) {pid : UInt32} (hc : v.child pid = some c) (he : v.IsEntry c)
    (hk' : v'.Known fresh')
    (hc' : v'.child pid = some c') (haddr : c'.addr = c.addr)
    (hentry : ∀ u k, c.user = some u → v.entry c.room u.text = some (k, c.addr) →
      v'.entry c.room u.text = some (k, c.addr))
    (hdiff : c'.user ≠ c.user ∨ c'.room ≠ c.room) : ¬ v'.Real := by
  intro hreal
  obtain ⟨u, k, hu, hek⟩ := he
  -- the string entered is the child's
  obtain ⟨-, p, d, hpd, hda, hdu, -⟩ := h c.room u.text k c.addr hek
  obtain rfl := hk.apart p pid d c hpd hc hda
  obtain rfl := Option.some.inj (hpd.symm.trans hc)
  obtain ⟨-, p', d', hpd', hda', hdu', hdroom⟩ :=
    hreal d.room u.text k d.addr (hentry u k hu hek)
  obtain rfl := hk'.apart p' p d' c' hpd' hc' (hda'.trans haddr.symm)
  obtain rfl := Option.some.inj (hpd'.symm.trans hc')
  rcases hdiff with hdiff | hdiff
  · exact hdiff (hdu'.trans hdu.symm)
  · exact hdiff hdroom

/-- **Any other operation ends the agreement.** -/
theorem not_agrees_step {fresh' : ℕ} (hk : v.Known fresh) (h : v.Agrees)
    {target : ChildData → ℕ → Option RoomId} {op : ServerOp}
    (hk' : (v.step fresh target op).Known fresh') (hop : ¬ v.Keeps target op) :
    ¬ (v.step fresh target op).Agrees := by
  intro hagrees
  cases op with
  | connect pid => exact hop trivial
  | changeUser pid name =>
    simp only [Keeps, not_forall, not_and_or, not_not] at hop
    obtain ⟨c, hc, he | hnone⟩ := hop
    · obtain rfl := hk.pid_eq pid c hc
      rw [Membership.step, hc] at hagrees hk'
      refine not_real_of_isEntry hk h.real _ hc he hk' (setChild_child_self ..) rfl
        (fun _ _ _ he => he) (Or.inl fun heq => ?_) hagrees.real
      exact absurd (hk.userBelow c.pid c _ hc heq.symm) (Nat.lt_irrefl _)
    · -- the child has its new name, and it is entered nowhere
      rw [Membership.step, hc] at hagrees
      exact hagrees.entered c.room name (named_setChild_iff.mpr (Or.inl ⟨_, rfl, rfl, rfl⟩)) hnone
  | setRoom pid id =>
    simp only [Keeps, not_forall, not_not] at hop
    obtain ⟨c, hc, hroom, he⟩ := hop
    obtain rfl := hk.pid_eq pid c hc
    rw [Membership.step, hc] at hagrees hk'
    refine not_real_of_isEntry hk h.real { c with room := id } hc he hk' ?_ rfl
      (fun u k hu he => ?_) (Or.inr hroom) hagrees.real
    · rw [enter_child]
      exact setChild_child_self v { c with room := id }
    · rw [enter_entry _ id (c := { c with room := id }) hu, if_neg fun hif => hroom hif.1.symm]
      exact he
  | move pid dir =>
    simp only [Keeps, not_forall, not_not] at hop
    obtain ⟨c, hc, new, htarget, hnew, u, hu, hn⟩ := hop
    obtain rfl := hk.pid_eq pid c hc
    rw [Membership.step, hc] at hagrees
    simp only [htarget] at hagrees
    refine hagrees.entered c.room u.text ?_ ?_
    · rw [named_of_child (enter_child ..)]
      exact named_setChild_iff.mpr (Or.inr (named_dropChild_leave.mpr hn))
    · rw [enter_entry _ new (c := { c with room := new }) hu,
        if_neg fun hif => hnew hif.1.symm, setChild_entry, leave_entry v c.room hu,
        if_pos ⟨rfl, rfl⟩]
  | teleport pid id =>
    simp only [Keeps, not_forall, not_and_or, not_not] at hop
    obtain ⟨c, u, hc, hu, hroom, hop⟩ := hop
    rw [Membership.step, hc] at hagrees
    simp only [if_neg hroom] at hagrees
    have hgone : ((v.leave c.room c).enter id c).entry c.room u.text = none := by
      rw [enter_entry _ id hu, if_neg fun hif => hroom hif.1, leave_entry v c.room hu,
        if_pos ⟨rfl, rfl⟩]
    have hchild : ((v.leave c.room c).enter id c).child = v.child := by simp
    rcases hop with hnone | hn
    · -- the child is entered in a room it is not in
      have he : ((v.leave c.room c).enter id c).entry id u.text = some (u, c.addr) := by
        rw [enter_entry _ id hu, if_pos]
        refine ⟨rfl, rfl, ?_⟩
        rw [leave_entry v c.room hu, if_neg fun hif => hroom hif.1.symm]
        exact hnone
      obtain ⟨-, p, d, hpd, hda, -, hdroom⟩ := hagrees.real id u.text u c.addr he
      rw [hchild] at hpd
      obtain rfl := hk.apart p pid d c hpd hc hda
      obtain rfl := Option.some.inj (hpd.symm.trans hc)
      exact hroom hdroom
    · exact hagrees.entered c.room u.text ((named_of_child hchild).mpr hn) hgone
  | disconnect pid =>
    simp only [Keeps, not_forall, not_not] at hop
    obtain ⟨c, hc, u, hu, hn⟩ := hop
    obtain rfl := hk.pid_eq pid c hc
    rw [Membership.step, hc] at hagrees
    refine hagrees.entered c.room u.text (named_dropChild_leave.mpr hn) ?_
    rw [dropChild_entry, leave_entry v c.room hu, if_pos ⟨rfl, rfl⟩]

/-! ## Logins -/

/-- **The two requests of a login**, one right after the other. -/
theorem step_changeUser_setRoom (hk : v.Known fresh) {target target' : ChildData → ℕ → Option RoomId}
    {fresh' : ℕ} {pid : UInt32} {name : CString} {id : RoomId} :
    (v.step fresh target (.changeUser pid name)).step fresh' target' (.setRoom pid id) =
      v.login fresh pid name id := by
  rw [Membership.step, login]
  cases hc : v.child pid with
  | none => simp only [Membership.step, hc]
  | some c =>
    obtain rfl := hk.pid_eq pid c hc
    have htwice : ∀ d d' : ChildData, d.pid = d'.pid →
        (v.setChild d).setChild d' = v.setChild d' := fun d d' hd =>
      Membership.ext (by simp only [setChild, hd, Function.update_idem]) rfl
    have hset := setChild_child_self v { c with user := some ⟨name, fresh⟩ }
    simp only [Membership.step] at hset ⊢
    rw [hset]
    exact congrArg (Membership.enter · id _) (htwice _ _ rfl)

/-- **A login keeps the agreement** if the name the child had is not entered for it. -/
theorem Agrees.login (hk : v.Known fresh) (h : v.Agrees) {pid : UInt32}
    (hop : ∀ c, v.child pid = some c → ¬ v.IsEntry c) (name : CString) (id : RoomId) :
    (v.login fresh pid name id).Agrees := by
  rw [Membership.login]
  cases hc : v.child pid with
  | none => exact h
  | some c =>
    obtain rfl := hk.pid_eq pid c hc
    refine ⟨?_, ?_⟩
    · exact Entered.enter_setChild (c := { c with user := some ⟨name, fresh⟩, room := id })
        fun i t hn => Or.inl (h.entered i t hn.of_dropChild)
    · refine Real.enter (c := { c with user := some ⟨name, fresh⟩, room := id }) ?_
        (setChild_child_self ..)
      exact h.real.of_other hc (hop c hc) rfl fun p hp => Function.update_of_ne hp ..

/-- **A login over a login ends the agreement.** -/
theorem not_agrees_login {fresh' : ℕ} (hk : v.Known fresh) (h : v.Agrees) {pid : UInt32}
    {c : ChildData} (hc : v.child pid = some c) (he : v.IsEntry c) {name : CString} {id : RoomId}
    (hk' : (v.login fresh pid name id).Known fresh') : ¬ (v.login fresh pid name id).Agrees := by
  intro hagrees
  obtain rfl := hk.pid_eq pid c hc
  rw [Membership.login, hc] at hagrees hk'
  refine not_real_of_isEntry hk h.real { c with user := some ⟨name, fresh⟩, room := id } hc he hk' ?_
    rfl (fun u k hu he => ?_) (Or.inl fun heq => ?_) hagrees.real
  · rw [enter_child]
    exact setChild_child_self v { c with user := some ⟨name, fresh⟩, room := id }
  · rw [enter_entry _ id (c := { c with user := some ⟨name, fresh⟩, room := id }) rfl, if_neg]
    · exact he
    · rintro ⟨-, -, hnone⟩
      exact absurd (hnone.symm.trans he) (by simp)
  · exact absurd (hk.userBelow c.pid c _ hc heq.symm) (Nat.lt_irrefl _)

end Membership

/-! ## Runs -/

/-- A room as `world_load` or `world_init` leaves it: its exits and hooks, and the size of
its map of users. -/
structure RoomSetup where
  adjacent : List (Option RoomId)
  hookEnter : RoomHook
  hookLeave : RoomHook
  usersSz : ℕ

/-- The master before the first connection. -/
def Master.init (rooms : List RoomSetup) : Master where
  childMap := hashInit 16
  rooms := rooms.map fun r => ⟨r.adjacent, r.hookEnter, r.hookLeave, hashInit r.usersSz⟩
  fresh := 0

/-- A request, a connection or a teleport by itself, or a login whose `REQ_SETROOM` is the next
request the master handles after its `REQ_CHANGEUSER`. -/
inductive MemberOp where
  | request (op : ServerOp)
  | login (pid : UInt32) (name : CString) (id : RoomId)

/-- One operation of the master, or the two requests of a login. -/
def memberStep (asserts : Bool) (m : Master) : MemberOp → Except Fault Master
  | .request op => serverStep asserts m op
  | .login pid name id => do
      let m ← serverStep asserts m (.changeUser pid name)
      serverStep asserts m (.setRoom pid id)

/-- The maps of the rooms and the table of children say the same. -/
def MembershipAgrees (asserts : Bool) (m : Master) : Prop :=
  (m.view asserts).Agrees

/-- The operation keeps the maps of the rooms in agreement with the table of children. -/
def KeepsMembership (asserts : Bool) (m : Master) : MemberOp → Prop
  | .request op => (m.view asserts).Keeps m.moveTarget op
  -- the old name must not be entered for the child
  | .login pid _ _ => ∀ c, m.child asserts pid = some c → ¬ (m.view asserts).IsEntry c

/-- The tables are right, and so is what is known of the children. -/
structure Master.Sound (asserts : Bool) (m : Master) : Prop where
  tables : m.Tables asserts
  known : (m.view asserts).Known m.fresh

theorem init_view (asserts : Bool) (rooms : List RoomSetup) :
    (Master.init rooms).view asserts = ⟨fun _ => none, fun _ _ => none⟩ := by
  refine Membership.ext (funext fun pid => ?_) (funext fun id => funext fun t => ?_)
  · show hashLookup (pidEnv asserts) (hashInit 16) pid = none
    rw [hashLookup_eq_map, hashInit, hashEntry_fresh]
    rfl
  · rw [view_entry, Master.init, List.getElem?_map]
    cases rooms[id]? with
    | none => rfl
    | some r => exact hashEntry_fresh ..

theorem Master.sound_init (asserts : Bool) (rooms : List RoomSetup) :
    (Master.init rooms).Sound asserts := by
  refine ⟨⟨wellPlaced_hashInit _ 16, fun room hroom => ?_⟩, ?_⟩
  · obtain ⟨r, -, rfl⟩ := List.mem_map.mp hroom
    exact wellPlaced_hashInit _ r.usersSz
  · rw [init_view]
    exact ⟨by simp, by simp, by simp, by simp⟩

theorem Master.Sound.step {asserts : Bool} {m m' : Master} (h : m.Sound asserts) {op : ServerOp}
    (hstep : serverStep asserts m op = .ok m') : m'.Sound asserts :=
  have hview := serverStep_view h.tables h.known hstep
  ⟨hview.1, hview.2.2⟩

/-- The two requests of a login. -/
theorem Master.Sound.login {asserts : Bool} {m m' : Master} (h : m.Sound asserts) {pid : UInt32}
    {name : CString} {id : RoomId} (hstep : memberStep asserts m (.login pid name id) = .ok m') :
    m'.Sound asserts ∧ m'.view asserts = (m.view asserts).login m.fresh pid name id := by
  obtain ⟨m₁, h₁, h₂⟩ := bind_eq_ok hstep
  obtain ⟨-, hview₁, -⟩ := serverStep_view h.tables h.known h₁
  obtain ⟨htables, hview, hknown⟩ := serverStep_view (h.step h₁).tables (h.step h₁).known h₂
  refine ⟨⟨htables, hknown⟩, ?_⟩
  rw [hview, hview₁]
  exact Membership.step_changeUser_setRoom h.known

theorem Master.Sound.memberStep {asserts : Bool} {m m' : Master} (h : m.Sound asserts)
    {op : MemberOp} (hstep : memberStep asserts m op = .ok m') : m'.Sound asserts := by
  cases op with
  | request op => exact h.step hstep
  | login pid name id => exact (h.login hstep).1

/-- An operation that keeps the agreement keeps it. -/
theorem MembershipAgrees.memberStep {asserts : Bool} {m m' : Master} {op : MemberOp}
    (hsound : m.Sound asserts) (h : MembershipAgrees asserts m) (hop : KeepsMembership asserts m op)
    (hstep : memberStep asserts m op = .ok m') : MembershipAgrees asserts m' := by
  cases op with
  | request op =>
    rw [MembershipAgrees, (serverStep_view hsound.tables hsound.known hstep).2.1]
    exact Membership.Agrees.step hsound.known h hop
  | login pid name id =>
    rw [MembershipAgrees, (hsound.login hstep).2]
    exact Membership.Agrees.login hsound.known h hop name id

/-- An operation that does not keep the agreement ends it. -/
theorem not_membershipAgrees {asserts : Bool} {m m' : Master} {op : MemberOp}
    (hsound : m.Sound asserts) (h : MembershipAgrees asserts m)
    (hop : ¬ KeepsMembership asserts m op) (hstep : memberStep asserts m op = .ok m') :
    ¬ MembershipAgrees asserts m' := by
  have hknown := (hsound.memberStep hstep).known
  cases op with
  | request op =>
    have hview := (serverStep_view hsound.tables hsound.known hstep).2.1
    rw [hview] at hknown
    rw [MembershipAgrees, hview]
    exact Membership.not_agrees_step hsound.known h hknown hop
  | login pid name id =>
    have hview := (hsound.login hstep).2
    rw [hview] at hknown
    rw [MembershipAgrees, hview]
    simp only [KeepsMembership, not_forall, not_not] at hop
    obtain ⟨c, hc, he⟩ := hop
    exact Membership.not_agrees_login hsound.known h hc he hknown

/-- **Room membership.**  Take any rooms with any exits and hooks, and any run of the master:
connections, logins, `REQ_CHANGEUSER`, `REQ_SETROOM` and `REQ_MOVE` of any children in any
order, teleports and disconnects.  The users maps of the rooms agree with the table of children
after every operation of the run exactly when every operation it completes

* lets a child log in, or sends it to another room with `REQ_SETROOM` alone, only when the
  child's name is not entered for it in its room;
* changes the user of a child with `REQ_CHANGEUSER` alone only when, besides, the new name is
  entered in the room of the child already;
* moves a child to another room, or disconnects it, only when no other child has its name and
  its room;
* teleports a child with a name to another room only when the name is entered there already,
  and no child has it in the room the child is said to be in. -/
theorem membership_agrees_iff (asserts : Bool) (rooms : List RoomSetup) (ops : List MemberOp) :
    Runs.Always (memberStep asserts) (MembershipAgrees asserts) (Master.init rooms) ops ↔
      Runs.EachDone (memberStep asserts) (KeepsMembership asserts) (Master.init rooms) ops := by
  refine Runs.always_iff_eachDone
    (I := fun m => m.Sound asserts ∧ MembershipAgrees asserts m) (fun _ hm => hm.2) ?_ ?_ ?_
  · exact fun m op m' hm hop hstep => ⟨hm.1.memberStep hstep, hm.2.memberStep hm.1 hop hstep⟩
  · exact fun m op m' hm hop hstep => not_membershipAgrees hm.1 hm.2 hop hstep
  · refine ⟨Master.sound_init asserts rooms, ?_⟩
    rw [MembershipAgrees, init_view]
    refine ⟨?_, by simp [Membership.Real]⟩
    rintro id t ⟨pid, c, u, hc, -⟩
    exact absurd hc (by simp)

/-- What is known of the master stays known. -/
theorem Master.sound_run {asserts : Bool} {m m' : Master} (ops : List MemberOp)
    (hm : m.Sound asserts) (h : Runs.run (memberStep asserts) m ops = .ok m') :
    m'.Sound asserts :=
  Runs.invariant_run (I := fun m => m.Sound asserts) (fun _ _ _ hm hstep => hm.memberStep hstep) hm h

/-- **A login over a login**: the user of a connection logs out, and logs in under another
name.  The old name stays in the room. -/
theorem relogin_leaves_name :
    ¬ Runs.Always (memberStep true) (MembershipAgrees true) (Master.init [⟨[], none, none, 1⟩])
      [.request (.connect 7), .login 7 (letter 97) 0, .login 7 (letter 98) 0] := by
  intro h
  have hlogin := (h.2 _ rfl).2 _ rfl
  have hsound := Master.sound_run (m := Master.init [⟨[], none, none, 1⟩])
    [.request (.connect 7), .login 7 (letter 97) 0] (Master.sound_init true _) rfl
  refine not_membershipAgrees hsound hlogin.head ?_
    (show memberStep true _ (.login 7 (letter 98) 0) = _ from rfl) (hlogin.2 _ rfl).head
  -- the first name is entered for the child when it takes the second
  exact fun hkeeps => hkeeps _ rfl ⟨⟨letter 97, 1⟩, ⟨letter 97, 1⟩, rfl, rfl⟩

end NetCosm
