import NetCosm.Client.Main
import NetCosm.Server.RoomUsers

/-!
# Who the commands of a client are for

The client keeps `current_user`, and the master keeps the user of the client in its table of
children.  `client_main` tells the master after each login, with an ordinary request, and
ordinary requests are dropped when there have been too many within one second.

A call of `send_master` is `Kept` if the limiter does not part the two: the requests of a
login that set the user and the room are let through, or, for the user, the master has that
name already.  `commands_sent_for_current_user` says that if all calls of a session are kept,
then every command sent from the command loop is for the current user, in a room that was set
for this login.

## How the session is followed

Every step of `client_main` but the two requests of a login leaves the user of the client
alone, on both sides.  An assertion is `Stable` if these steps keep it, and a script that
consists of them is then steady (`steady_commandRound`, and so on).  There are two stable
assertions, one for the login screen and one for the command loop, and the two requests lead
from one to the other.
-/

namespace NetCosm

open Sessions

variable {σ : Type} {env : ClientEnv σ}

/-! ## Calls -/

namespace Call

/-- The limiter drops the request. -/
def exceeded (c : Call) : Bool := (c.client.rateLimit c.now).1

/-- The name of the client's user in the master. -/
def user (c : Call) : Option CString := c.child.bind fun child => child.user.map UserName.text

/-- The call does not part the user of the client from the user the master has for it. -/
def Kept (c : Call) : Prop :=
  match c.request with
  | .changeUser name => c.exceeded = false ∨ c.user = some name
  | .setRoom _ => c.exceeded = false
  | _ => True

/-- The master has the current user for the client, in a room set for this login. -/
def ForCurrentUser (c : Call) : Prop :=
  c.client.currentUser.isSome ∧ c.user = c.client.currentUser ∧ c.roomLogin = some c.login

end Call

/-- A request that sets neither the user nor the room. -/
def Request.Quiet : Request → Prop
  | .changeUser _ | .setRoom _ => False
  | _ => True

namespace Session

/-- All calls so far are kept. -/
def AllKept (s : Session σ) : Prop := ∀ c ∈ s.calls, c.Kept

/-- If all calls are kept, all commands were sent for the current user. -/
def Faithful (s : Session σ) : Prop :=
  s.AllKept → ∀ c ∈ s.calls, c.phase = .commands → c.exceeded = false → c.ForCurrentUser

end Session

/-! ## What the master does -/

/-- The operation is about this child, and does not end it. -/
def ServerOp.About (pid : UInt32) : ServerOp → Prop
  | .changeUser p _ | .setRoom p _ | .move p _ | .teleport p _ => p = pid
  | .connect _ | .disconnect _ => False

/-- The name of a child after an operation about it. -/
def ServerOp.nameAfter (op : ServerOp) (name : Option CString) : Option CString :=
  match op with
  | .changeUser _ name => some name
  | _ => name

/-- **What an operation about a child does to the table of children.**  It may write the entry of that child,
and of the name in it changes only what it is asked to. -/
theorem Membership.step_child {v : Membership} {fresh : ℕ} (hk : v.Known fresh) {pid : UInt32}
    (target : ChildData → ℕ → Option RoomId) {op : ServerOp} (hop : op.About pid) :
    ∃ f : ChildData → ChildData,
      (∀ c, (f c).user.map UserName.text = op.nameAfter (c.user.map UserName.text)) ∧
      (v.step fresh target op).child = Function.update v.child pid ((v.child pid).map f) := by
  have hset : ∀ (v' : Membership) {c c' : ChildData}, v.child pid = some c → c'.pid = c.pid →
      v'.child = v.child → (v'.setChild c').child = Function.update v.child pid (some c') := by
    intro v' c c' hc hpid hv'
    rw [setChild, hpid, hk.pid_eq pid c hc, hv']
  have hkeep : ∀ {o : Option ChildData}, v.child pid = o → v.child = Function.update v.child pid o := by
    rintro o rfl
    exact (Function.update_eq_self ..).symm
  cases op with
  | connect p => exact hop.elim
  | disconnect p => exact hop.elim
  | changeUser p name =>
    obtain rfl : p = pid := hop
    refine ⟨fun c => { c with user := some ⟨name, fresh⟩ }, fun _ => rfl, ?_⟩
    rw [step]
    cases hc : v.child p with
    | none => exact hkeep hc
    | some c => exact hset v hc rfl rfl
  | setRoom p id =>
    obtain rfl : p = pid := hop
    refine ⟨fun c => { c with room := id }, fun _ => rfl, ?_⟩
    rw [step]
    cases hc : v.child p with
    | none => exact hkeep hc
    | some c => exact (enter_child ..).trans (hset v hc rfl rfl)
  | move p dir =>
    obtain rfl : p = pid := hop
    refine ⟨fun c => { c with room := (target c dir).getD c.room }, fun _ => rfl, ?_⟩
    rw [step]
    cases hc : v.child p with
    | none => exact hkeep hc
    | some c =>
      dsimp only [Option.map_some]
      cases htarget : target c dir with
      | none => exact hkeep hc
      | some new => exact (enter_child ..).trans (hset _ hc rfl (leave_child ..))
  | teleport p id =>
    obtain rfl : p = pid := hop
    refine ⟨fun c => c, fun _ => rfl, ?_⟩
    rw [step]
    cases hc : v.child p with
    | none => exact hkeep hc
    | some c =>
      dsimp only [Option.map_some]
      split
      · exact hkeep hc
      · rw [enter_child, leave_child]
        exact hkeep hc

section Children

variable {asserts : Bool} {m m' : Master} {pid : UInt32}

/-- The table of children after an operation about a child. -/
theorem Master.Sound.child_of_about (hm : m.Sound asserts) {op : ServerOp} (hop : op.About pid)
    (hstep : serverStep asserts m op = .ok m') :
    ∃ f : ChildData → ChildData,
      (∀ c, (f c).user.map UserName.text = op.nameAfter (c.user.map UserName.text)) ∧
      m'.child asserts = Function.update (m.child asserts) pid ((m.child asserts pid).map f) := by
  obtain ⟨-, hview, -⟩ := serverStep_view hm.tables hm.known hstep
  obtain ⟨f, hname, hchild⟩ := Membership.step_child hm.known m.moveTarget hop
  exact ⟨f, hname, (congrArg Membership.child hview).trans hchild⟩

/-- The table of children after a connection. -/
theorem Master.Sound.child_of_connect (hm : m.Sound asserts) (hnone : m.child asserts pid = none)
    (hstep : serverStep asserts m (.connect pid) = .ok m') :
    m'.child asserts = Function.update (m.child asserts) pid (some ⟨m.fresh, pid, 0, none⟩) := by
  obtain ⟨-, hview, -⟩ := serverStep_view hm.tables hm.known hstep
  refine (congrArg Membership.child hview).trans ?_
  rw [Membership.step, show (m.view asserts).child pid = none from hnone]
  rfl

/-- The table of children after a disconnection. -/
theorem Master.Sound.child_of_disconnect (hm : m.Sound asserts)
    (hstep : serverStep asserts m (.disconnect pid) = .ok m') :
    m'.child asserts = Function.update (m.child asserts) pid none := by
  obtain ⟨-, hview, -⟩ := serverStep_view hm.tables hm.known hstep
  refine (congrArg Membership.child hview).trans ?_
  rw [Membership.step]
  cases hc : (m.view asserts).child pid with
  | none =>
    have hsame := Function.update_eq_self pid (m.child asserts)
    rw [show m.child asserts pid = none from hc] at hsame
    exact hsame.symm
  | some c =>
    exact congrArg (Function.update · pid none) (Membership.leave_child ..)

end Children

/-- The name of the client's user. -/
def ServerState.user (env : ClientEnv σ) (s : ServerState σ) : Option CString :=
  (s.master.child env.asserts env.pid).bind fun child => child.user.map UserName.text

/-- The client is in the table of a sound master. -/
structure ServerState.Serves (env : ClientEnv σ) (s : ServerState σ) : Prop where
  sound : s.master.Sound env.asserts
  listed : (s.master.child env.asserts env.pid).isSome

/-- The user the master has for the client after a request. -/
def Request.userAfter (r : Request) (user : Option CString) : Option CString :=
  match r with
  | .changeUser name => some name
  | _ => user

namespace ServerState

variable {s s' : ServerState σ}

/-- Nothing but the tables matters for whom the master serves. -/
theorem Serves.congr (h : s.Serves env) (hmaster : s'.master = s.master) :
    s'.Serves env ∧ s'.user env = s.user env := by
  refine ⟨⟨?_, ?_⟩, ?_⟩
  · rw [hmaster]
    exact h.sound
  · rw [hmaster]
    exact h.listed
  · rw [user, hmaster]
    rfl

/-- An operation about the client. -/
theorem Serves.step (h : s.Serves env) (op : ServerOp) (hop : op.About env.pid)
    (s' : ServerState σ) (hstep : serverStep env.asserts s.master op = .ok s'.master) :
    s'.Serves env ∧ s'.user env = op.nameAfter (s.user env) := by
  obtain ⟨c, hc⟩ := Option.isSome_iff_exists.mp h.listed
  obtain ⟨f, huser, hupdate⟩ := h.sound.child_of_about hop hstep
  have hchild : s'.master.child env.asserts env.pid = some (f c) := by
    rw [hupdate, Function.update_self, hc]
    rfl
  refine ⟨⟨h.sound.step hstep, by rw [hchild]; rfl⟩, ?_⟩
  rw [user, user, hchild, hc]
  exact huser c

end ServerState

/-- What the world does with a request is teleports of the sender. -/
theorem execWorld_run {s s' : ServerState σ} {sender : ChildData} {r : Request} {packets : List Packet}
    (h : execWorld env s sender r = .ok (packets, s')) :
    ∃ ops : List ServerOp, (∀ op ∈ ops, op.About env.pid) ∧
      Runs.run (serverStep env.asserts) s.master ops = .ok s'.master ∧
      ∀ user, ops.foldl (fun u op => op.nameAfter u) user = user := by
  obtain ⟨a, -, h⟩ := bind_eq_ok h
  obtain ⟨m, hm, h⟩ := bind_eq_ok h
  obtain ⟨-, rfl⟩ := Prod.mk.inj (Except.ok.inj h)
  refine ⟨a.teleports.map (.teleport env.pid), fun op hop => ?_, ?_, fun user => ?_⟩
  · obtain ⟨id, -, rfl⟩ := List.mem_map.mp hop
    exact rfl
  · rw [Runs.run_eq_foldlM, List.foldlM_map]
    exact hm
  · rw [List.foldl_map]
    exact List.foldl_fixed _

/-- **A request is a run of operations about its sender**, and only what it asks for changes the name of the
sender. -/
theorem handleRequest_run {s s' : ServerState σ} {sender : ChildData}
    (hsender : s.master.child env.asserts env.pid = some sender) {r : Request} {packets : List Packet}
    (h : handleRequest env s sender r = .ok (packets, s')) :
    ∃ ops : List ServerOp, (∀ op ∈ ops, op.About env.pid) ∧
      Runs.run (serverStep env.asserts) s.master ops = .ok s'.master ∧
      ∀ user, ops.foldl (fun u op => op.nameAfter u) user = r.userAfter user := by
  have hnone : s'.master = s.master → (∀ user, r.userAfter user = user) →
      ∃ ops : List ServerOp, (∀ op ∈ ops, op.About env.pid) ∧
        Runs.run (serverStep env.asserts) s.master ops = .ok s'.master ∧
        ∀ user, ops.foldl (fun u op => op.nameAfter u) user = r.userAfter user := fun hm huser =>
    ⟨[], fun _ hop => absurd hop List.not_mem_nil, congrArg Except.ok hm.symm, fun user => (huser user).symm⟩
  have hone : ∀ op : ServerOp, op.About env.pid → serverStep env.asserts s.master op = .ok s'.master →
      (∀ user, op.nameAfter user = r.userAfter user) →
      ∃ ops : List ServerOp, (∀ op ∈ ops, op.About env.pid) ∧
        Runs.run (serverStep env.asserts) s.master ops = .ok s'.master ∧
        ∀ user, ops.foldl (fun u op => op.nameAfter u) user = r.userAfter user := fun op hop hstep huser =>
    ⟨[op], fun _ h => List.mem_singleton.mp h ▸ hop, (Runs.run_cons_ok hstep []).trans rfl, huser⟩
  cases r with
  | changeState state =>
    obtain ⟨-, rfl⟩ := Prod.mk.inj (Except.ok.inj h)
    exact hnone rfl fun _ => rfl
  | changeUser name =>
    obtain ⟨-, rfl⟩ := Prod.mk.inj (Except.ok.inj h)
    exact hone (.changeUser env.pid name) rfl (by simp only [serverStep, hsender]) fun _ => rfl
  | setRoom id =>
    obtain ⟨m, hm, h⟩ := bind_eq_ok h
    obtain ⟨-, rfl⟩ := Prod.mk.inj (Except.ok.inj h)
    exact hone (.setRoom env.pid id) rfl (by simp only [serverStep, hsender, hm]) fun _ => rfl
  | move dir =>
    obtain ⟨⟨msg, moved, m⟩, hm, h⟩ := bind_eq_ok h
    obtain ⟨-, rfl⟩ := Prod.mk.inj (Except.ok.inj h)
    exact hone (.move env.pid dir) rfl (by simp only [serverStep, hsender, hm]; rfl) fun _ => rfl
  | getUserData name =>
    obtain ⟨-, rfl⟩ := Prod.mk.inj (Except.ok.inj h)
    exact hnone rfl fun _ => rfl
  | delUserData name =>
    obtain ⟨-, rfl⟩ := Prod.mk.inj (Except.ok.inj h)
    exact hnone rfl fun _ => rfl
  | addUserData data =>
    obtain ⟨-, rfl⟩ := Prod.mk.inj (Except.ok.inj h)
    exact hnone rfl fun _ => rfl
  | bcastMsg text | listClients | kick pid text | kickAll text | wait | getRoomDesc | getRoomName
  | lookAt name | printInventory | take name | drop name | listUsers | execVerb line =>
    exact execWorld_run h

namespace ServerState

variable {s s' : ServerState σ}

/-- Operations about the client. -/
theorem Serves.run (h : s.Serves env) {ops : List ServerOp} (hops : ∀ op ∈ ops, op.About env.pid)
    (s' : ServerState σ) (hrun : Runs.run (serverStep env.asserts) s.master ops = .ok s'.master) :
    s'.Serves env ∧ s'.user env = ops.foldl (fun u op => op.nameAfter u) (s.user env) := by
  induction ops generalizing s with
  | nil => exact h.congr (Except.ok.inj hrun).symm
  | cons op ops ih =>
    cases hstep : serverStep env.asserts s.master op with
    | error e =>
      rw [Runs.run_cons_error hstep] at hrun
      exact absurd hrun (by simp)
    | ok m₁ =>
      rw [Runs.run_cons_ok hstep] at hrun
      obtain ⟨h₁, huser₁⟩ := h.step op (hops op List.mem_cons_self) { s with master := m₁ } hstep
      obtain ⟨h', huser'⟩ := ih h₁ (fun op hop => hops op (List.mem_cons_of_mem _ hop)) hrun
      rw [huser₁] at huser'
      exact ⟨h', huser'⟩

/-- **A request changes the name of the client's user only if that is what it asks for.** -/
theorem Serves.handle (h : s.Serves env) {r : Request} {packets : List Packet}
    (hreq : handleChildReq env s r = .ok (packets, s')) :
    s'.Serves env ∧ s'.user env = r.userAfter (s.user env) := by
  obtain ⟨c, hc⟩ := Option.isSome_iff_exists.mp h.listed
  simp only [handleChildReq, hc] at hreq
  obtain ⟨⟨packets', s₁⟩, hr, heq⟩ := bind_eq_ok hreq
  obtain ⟨-, rfl⟩ := Prod.mk.inj (Except.ok.inj heq)
  obtain ⟨ops, hops, hrun, huser⟩ := handleRequest_run hc hr
  rw [← huser]
  exact h.run hops s₁ hrun

end ServerState

/-! ## What a call leaves -/

namespace Session

variable {s s' : Session σ} {r : Request}

/-- The sessions do not differ in who the client is. -/
structure Alike (s s' : Session σ) : Prop where
  calls : s'.calls = s.calls
  server : s'.server = s.server
  phase : s'.phase = s.phase
  login : s'.login = s.login
  roomLogin : s'.roomLogin = s.roomLogin
  currentUser : s'.client.currentUser = s.client.currentUser

/-- The call has been made. -/
def Made (env : ClientEnv σ) (r : Request) (s s' : Session σ) : Prop :=
  s'.calls = s.calls ++ [s.call env r]

/-- The call has been recorded, and nothing is sent yet. -/
structure Recorded (env : ClientEnv σ) (r : Request) (s s' : Session σ) : Prop where
  made : s.Made env r s'
  server : s'.server = s.server
  phase : s'.phase = s.phase
  login : s'.login = s.login
  roomLogin : s'.roomLogin = s.roomLogin
  currentUser : s'.client.currentUser = s.client.currentUser

/-- The login in which the room was last set, after a request. -/
def roomAfter (s : Session σ) : Request → Option ℕ
  | .setRoom _ => some s.login
  | _ => s.roomLogin

/-- The call has been made, and `send_master` has returned. -/
structure Sent (env : ClientEnv σ) (r : Request) (s s' : Session σ) : Prop where
  made : s.Made env r s'
  phase : s'.phase = s.phase
  login : s'.login = s.login
  currentUser : s'.client.currentUser = s.client.currentUser
  dropped : (s.call env r).exceeded = true → s'.server = s.server ∧ s'.roomLogin = s.roomLogin
  handled : (s.call env r).exceeded = false →
    (∃ packets, handleChildReq env s.server r = .ok (packets, s'.server)) ∧
      s'.roomLogin = s.roomAfter r

/-- A session that is alike was left by the same call. -/
theorem Sent.alike {s'' : Session σ} (h : s.Sent env r s') (ha : s'.Alike s'') :
    s.Sent env r s'' where
  made := ha.calls.trans h.made
  phase := ha.phase.trans h.phase
  login := ha.login.trans h.login
  currentUser := ha.currentUser.trans h.currentUser
  dropped he := by
    rw [ha.server, ha.roomLogin]
    exact h.dropped he
  handled he := by
    rw [ha.server, ha.roomLogin]
    exact h.handled he

end Session

theorem receive_currentUser (c : Client) (p : Packet) :
    (c.receive p).currentUser = c.currentUser := by
  cases p <;> rfl

theorem rateLimit_currentUser (c : Client) (now : ℤ) :
    (c.rateLimit now).2.currentUser = c.currentUser := by
  rw [Client.rateLimit]
  split
  · rfl
  · dsimp only
    split <;> rfl

/-- Reading packets changes nothing but the client's variables. -/
theorem triple_pollRequests (s : Session σ) (packets : List Packet) :
    Triple (Session.Alike s) (pollRequests packets) (fun _ => Session.Alike s)
      (Session.Alike s) := by
  have hset : ∀ p, Triple (Session.Alike s) (setClient fun c => c.receive p)
      (fun _ => Session.Alike s) (Session.Alike s) := fun p => triple_update fun s' h =>
    ⟨h.calls, h.server, h.phase, h.login, h.roomLogin, (receive_currentUser ..).trans h.currentUser⟩
  induction packets with
  | nil => exact triple_stop fun _ h => h
  | cons p packets ih =>
    cases p with
    | kick text => exact triple_stop fun _ h => h
    | allDone => exact triple_pure fun _ h => h
    | _ => exact triple_bind (hset _) fun _ => ih

theorem triple_limitRequest (s : Session σ) (r : Request) :
    Triple (s = ·) (limitRequest env r)
      (fun b s' => b = (s.call env r).exceeded ∧ s.Recorded env r s') (s.Made env r) := by
  rintro _ rfl
  refine ⟨fun b hb => ⟨(Option.some.inj hb).symm, rfl, rfl, rfl, rfl, rfl, ?_⟩, fun h => ?_⟩
  · exact rateLimit_currentUser ..
  · exact absurd h (by simp [limitRequest])

theorem triple_writeRequest {s : Session σ} {r : Request}
    (hexceeded : (s.call env r).exceeded = false) :
    Triple (s.Recorded env r) (writeRequest env r) (fun _ => s.Sent env r) (s.Made env r) := by
  intro s' h
  cases hreq : handleChildReq env s.server r with
  | error e =>
    have hrun : writeRequest env r s' = (none, s') := by
      simp only [writeRequest, h.server, hreq]
    refine ⟨fun _ ha => absurd (hrun ▸ ha) (by simp), fun _ => ?_⟩
    rw [hrun]
    exact h.made
  | ok res =>
    have hrun : writeRequest env r s' =
        (some res.1, { s' with server := res.2, roomLogin := s'.roomAfter r }) := by
      simp only [writeRequest, h.server, hreq]
      rfl
    refine ⟨fun _ _ => ?_, fun hn => absurd (hrun ▸ hn) (by simp)⟩
    rw [hrun]
    refine ⟨h.made, h.phase, h.login, h.currentUser,
      fun htrue => absurd (hexceeded.symm.trans htrue) (by simp), fun _ => ⟨⟨res.1, hreq⟩, ?_⟩⟩
    cases r <;> first | exact h.roomLogin | exact congrArg some h.login

/-- **A call of `send_master`** is recorded, and if the limiter lets it through, it is handled. -/
theorem triple_sendMaster (s : Session σ) (r : Request) :
    Triple (s = ·) (sendMaster env r) (fun _ => s.Sent env r) (s.Made env r) := by
  refine triple_bind (triple_limitRequest s r) fun exceeded => ?_
  cases exceeded with
  | true =>
    exact triple_pure fun s' ⟨hb, h⟩ => ⟨h.made, h.phase, h.login, h.currentUser,
      fun _ => ⟨h.server, h.roomLogin⟩, fun hfalse => absurd (hb.trans hfalse) (by simp)⟩
  | false =>
    refine triple_of_forall fun s₁ ⟨hb, h⟩ => ?_
    refine triple_bind ((triple_writeRequest hb.symm).mono (fun _ hs => hs ▸ h) (fun _ _ h => h)
      fun _ h => h) fun packets => triple_of_forall fun s₂ h₂ => ?_
    refine (triple_pollRequests s₂ packets).mono (fun _ hs => ?_) (fun _ _ ha => h₂.alike ha)
      fun _ ha => (h₂.alike ha).made
    subst hs
    exact ⟨rfl, rfl, rfl, rfl, rfl, rfl⟩

/-! ## Steady scripts -/

/-- An assertion that is kept by everything `client_main` does but the requests that set the
user and the room. -/
structure Stable (env : ClientEnv σ) (I : Session σ → Prop) : Prop where
  faithful : ∀ s, I s → s.Faithful
  alike : ∀ s s', I s → s.Alike s' → I s'
  sent : ∀ s s' r, r.Quiet → I s → s.Sent env r s' → I s'
  made : ∀ s s' r, r.Quiet → I s → s.Made env r s' → s'.Faithful

section Steady

variable {I E : Session σ → Prop} {R : Request → Prop} {r : Request}

/-- The script keeps the assertion, and where it stops the session is faithful. -/
abbrev Keeps (I : Session σ → Prop) {α : Type} (x : ClientM σ α) : Prop :=
  Steady I Session.Faithful x

/-- An assertion `I` that is kept by everything but requests that are not in `R`, and what holds of the
session if it stops meanwhile. -/
structure Follows (env : ClientEnv σ) (R : Request → Prop) (I E : Session σ → Prop) : Prop where
  stops : ∀ s, I s → E s
  alike : ∀ s s', I s → s.Alike s' → I s'
  sent : ∀ s s' r, R r → I s → s.Sent env r s' → I s'
  made : ∀ s s' r, R r → I s → s.Made env r s' → E s'

theorem Follows.mono {R' : Request → Prop} (h : Follows env R I E) (hR : ∀ r, R' r → R r) :
    Follows env R' I E :=
  ⟨h.stops, h.alike, fun s s' r hr => h.sent s s' r (hR r hr), fun s s' r hr => h.made s s' r (hR r hr)⟩

theorem Stable.follows (h : Stable env I) : Follows env Request.Quiet I Session.Faithful :=
  ⟨h.faithful, h.alike, h.sent, h.made⟩

theorem steady_sendMaster (hI : Follows env R I E) (hr : R r) : Steady I E (sendMaster env r) :=
  triple_of_forall fun s hs => (triple_sendMaster s r).mono (fun _ h => h)
    (fun _ s' h => hI.sent s s' r hr hs h) fun s' h => hI.made s s' r hr hs h

theorem steady_setClient (hI : Follows env R I E) {f : Client → Client}
    (hf : ∀ c, (f c).currentUser = c.currentUser) : Steady I E (setClient f) :=
  triple_update fun s hs => hI.alike s _ hs ⟨rfl, rfl, rfl, rfl, rfl, hf s.client⟩

theorem steady_clientReadLine (hI : Follows env R I E) :
    Steady I E (clientReadLine : ClientM σ CString) := by
  intro s hs
  cases hinput : s.input with
  | nil =>
    have hrun : clientReadLine s = (none, s) := by simp only [clientReadLine, hinput]
    refine ⟨fun _ ha => absurd (hrun ▸ ha) (by simp), fun _ => ?_⟩
    rw [hrun]
    exact hI.stops s hs
  | cons line rest =>
    have hrun : clientReadLine s = (some line, { s with input := rest }) := by
      simp only [clientReadLine, hinput]
    refine ⟨fun _ _ => ?_, fun hn => absurd (hrun ▸ hn) (by simp)⟩
    rw [hrun]
    exact hI.alike s _ hs ⟨rfl, rfl, rfl, rfl, rfl, rfl⟩

theorem steady_time (hI : Follows env R I E) : Steady I E (time env) :=
  fun s hs => ⟨fun _ _ => hI.alike s _ hs ⟨rfl, rfl, rfl, rfl, rfl, rfl⟩,
    fun h => absurd h (by simp [time])⟩

theorem steady_rand (hI : Follows env R I E) : Steady I E (rand env) :=
  fun s hs => ⟨fun _ _ => hI.alike s _ hs ⟨rfl, rfl, rfl, rfl, rfl, rfl⟩,
    fun h => absurd h (by simp [rand])⟩

theorem steady_userdbRequestLookup (hI : Follows env R I E) {name : CString}
    (hr : R (.getUserData name)) : Steady I E (userdbRequestLookup env name) :=
  steady_bind (steady_sendMaster hI hr) fun _ => steady_ask _

theorem steady_userdbRequestAdd (hI : Follows env R I E) {data : UserData}
    (hr : R (.addUserData data)) : Steady I E (userdbRequestAdd env data) :=
  steady_bind (steady_sendMaster hI hr) fun _ => steady_ask _

theorem steady_authCheck (hI : Follows env R I E) {name : CString}
    (hr : R (.getUserData (removeCruft name))) (pass : CString) : Steady I E (authCheck env name pass) :=
  steady_bind (steady_userdbRequestLookup hI hr) fun _ => steady_pure _

theorem steady_randSalt (hI : Follows env R I E) (n : ℕ) : Steady I E (randSalt env n) := by
  induction n with
  | zero => exact steady_pure _
  | succ n ih => exact steady_bind (steady_rand hI) fun _ => steady_bind ih fun _ => steady_pure _

theorem steady_authUserAdd (hI : Follows env Request.Quiet I E) (user pass : CString) (level : ℤ) :
    Steady I E (authUserAdd env user pass level) := by
  rw [authUserAdd]
  split
  · refine steady_bind (steady_bind (steady_randSalt hI _) fun salt => ?_) fun _ => steady_pure _
    refine steady_bind (steady_time hI) fun now => ?_
    exact steady_bind (steady_userdbRequestAdd hI trivial) fun _ => steady_pure _
  · exact steady_pure _

theorem steady_authUserDel (hI : Follows env Request.Quiet I E) (user : CString) :
    Steady I E (authUserDel env user) := by
  rw [authUserDel]
  split
  · exact steady_bind (steady_sendMaster hI trivial) fun _ => steady_ask _
  · exact steady_pure _

theorem steady_clientLook (hI : Follows env Request.Quiet I E) : Steady I E (clientLook env) :=
  steady_bind (steady_sendMaster hI trivial) fun _ => steady_sendMaster hI trivial

theorem steady_clientMove (hI : Follows env Request.Quiet I E) (dir : CString) : Steady I E (clientMove env dir) := by
  rw [clientMove]
  split
  · exact steady_bind (steady_sendMaster hI trivial) fun _ => steady_ask _
  · exact steady_pure _

theorem steady_userAdd (hI : Follows env Request.Quiet I E) (user : CString) : Steady I E (userAdd env user) := by
  refine steady_bind (steady_clientReadLine hI) fun pass => ?_
  refine steady_bind (steady_clientReadLine hI) fun pass2 => ?_
  split
  · exact steady_pure _
  · refine steady_bind (steady_clientReadLine hI) fun allowAdmin => ?_
    exact steady_bind (steady_authUserAdd hI _ _ _) fun _ => steady_pure _

theorem steady_userCb (hI : Follows env Request.Quiet I E) (save : CString) : Steady I E (userCb env save) := by
  rw [userCb]
  split
  · exact steady_pure _
  · refine steady_bind (steady_ask _) fun current => ?_
    split
    · split
      · split
        · exact steady_bind (steady_authUserDel hI _) fun _ => steady_pure _
        · exact steady_pure _
      · exact steady_pure _
    · split
      · split
        · split
          · exact steady_pure _
          · exact steady_bind (steady_userAdd hI _) fun _ => steady_pure _
        · exact steady_pure _
      · split
        · exact steady_bind (steady_sendMaster hI trivial) fun _ => steady_pure _
        · exact steady_pure _

theorem steady_clientCb (hI : Follows env Request.Quiet I E) (save : CString) : Steady I E (clientCb env save) := by
  rw [clientCb]
  split
  · exact steady_pure _
  · dsimp only
    split
    · exact steady_bind (steady_sendMaster hI trivial) fun _ => steady_pure _
    · split
      · split
        · exact steady_pure _
        · split
          · exact steady_bind (steady_sendMaster hI trivial) fun _ => steady_pure _
          · split
            · exact steady_pure _
            · split
              · exact steady_pure _
              · exact steady_bind (steady_sendMaster hI trivial) fun _ => steady_pure _
      · exact steady_pure _

theorem steady_chpassCb (hI : Follows env Request.Quiet I E) (save : CString) : Steady I E (chpassCb env save) := by
  refine steady_bind (steady_clientReadLine hI) fun current => ?_
  refine steady_bind (steady_ask _) fun user => ?_
  cases user with
  | none => exact steady_stop hI.stops
  | some user =>
    refine steady_bind (steady_authCheck hI trivial _) fun data => ?_
    split
    · refine steady_bind ?_ fun _ => steady_pure _
      refine steady_bind (steady_clientReadLine hI) fun pass1 => ?_
      refine steady_bind (steady_clientReadLine hI) fun pass2 => ?_
      split
      · exact steady_pure _
      · refine steady_bind (steady_ask _) fun data => ?_
        exact steady_bind (steady_authUserAdd hI _ _ _) fun _ => steady_pure _
    · exact steady_pure _

theorem steady_goCb (hI : Follows env Request.Quiet I E) (save : CString) : Steady I E (goCb env save) := by
  rw [goCb]
  split
  · exact steady_pure _
  · refine steady_bind (steady_clientMove hI _) fun moved => ?_
    split
    · exact steady_bind (steady_clientLook hI) fun _ => steady_pure _
    · exact steady_pure _

theorem steady_lookCb (hI : Follows env Request.Quiet I E) (save : CString) : Steady I E (lookCb env save) := by
  rw [lookCb]
  split
  · exact steady_bind (steady_clientLook hI) fun _ => steady_pure _
  · exact steady_bind (steady_sendMaster hI trivial) fun _ => steady_pure _

theorem steady_takeCb (hI : Follows env Request.Quiet I E) (save : CString) : Steady I E (takeCb env save) := by
  rw [takeCb]
  cases strtok (fun _ => false) save with
  | none => exact steady_pure _
  | some what => exact steady_bind (steady_sendMaster hI trivial) fun _ => steady_pure _

theorem steady_dropCb (hI : Follows env Request.Quiet I E) (save : CString) : Steady I E (dropCb env save) := by
  rw [dropCb]
  split
  · exact steady_pure _
  · exact steady_bind (steady_sendMaster hI trivial) fun _ => steady_pure _

/-- Every command is steady. -/
theorem steady_cmds (hI : Follows env Request.Quiet I E) (save : CString) :
    ∀ cmd ∈ cmds env, Steady I E (cmd.cb save) := by
  have hpure : ∀ res, Steady I E (pure res : ClientM σ CmdResult) := fun _ => steady_pure _
  have hsend : ∀ {r : Request}, r.Quiet → Steady I E (do sendMaster env r; pure CmdResult.ok) := fun hr =>
    steady_bind (steady_sendMaster hI hr) fun _ => steady_pure _
  have hsay : Steady I E (sayCb env save) :=
    steady_bind (steady_ask _) fun _ => hsend trivial
  have hdate : Steady I E (dateCb env save) := steady_bind (steady_time hI) fun _ => steady_pure _
  simp only [cmds, List.forall_mem_cons]
  exact ⟨steady_userCb hI save, steady_clientCb hI save, hpure _, hpure _, hsay, hdate, hpure _,
    steady_lookCb hI save, hsend trivial, steady_takeCb hI save, hsend trivial,
    steady_goCb hI save, steady_dropCb hI save, steady_chpassCb hI save,
    fun _ h => absurd h List.not_mem_nil⟩

theorem steady_commandRound (hI : Follows env Request.Quiet I E) : Steady I E (commandRound env) := by
  refine steady_bind (steady_clientReadLine hI) fun line => ?_
  refine steady_bind (steady_ask _) fun client => ?_
  have hverb : Steady I E (do sendMaster env (.execVerb line); pure CmdResult.ok) :=
    steady_bind (steady_sendMaster hI trivial) fun _ => steady_pure _
  dsimp only
  split
  · exact hverb
  · split
    · exact steady_pure _
    · split
      · rename_i cmd hcmd
        split
        · exact steady_pure _
        · exact steady_cmds hI _ cmd (List.mem_of_find?_eq_some hcmd)
      · exact hverb

/-- **The command loop is steady**, however many rounds it goes. -/
theorem steady_commandLoop (hI : Follows env Request.Quiet I E) (n : ℕ) : Steady I E (commandLoop env n) := by
  induction n with
  | zero => exact steady_stop hI.stops
  | succ n ih =>
    refine steady_bind (steady_commandRound hI) fun res => ?_
    cases res with
    | ok => exact ih
    | logout => exact steady_pure _
    | quit => exact steady_pure _

end Steady

/-! ## The login screen, and the command loop -/

theorem userAfter_of_quiet {r : Request} (hr : r.Quiet) (user : Option CString) :
    r.userAfter user = user := by
  cases r <;> first | rfl | exact hr.elim

namespace Session

variable {s s' : Session σ} {r : Request}

theorem roomAfter_of_quiet (s : Session σ) (hr : r.Quiet) : s.roomAfter r = s.roomLogin := by
  cases r <;> first | rfl | exact hr.elim

theorem allKept_made_iff (h : s.Made env r s') :
    s'.AllKept ↔ s.AllKept ∧ (s.call env r).Kept := by
  rw [AllKept, h, List.forall_mem_append, List.forall_mem_singleton]
  rfl

/-- A call that is for the current user, or not from the command loop, leaves the session
faithful. -/
theorem Faithful.made (h : s.Faithful) (hmade : s.Made env r s')
    (hcall : s.AllKept → s.phase = .commands → (s.call env r).exceeded = false →
      (s.call env r).ForCurrentUser) : s'.Faithful := by
  intro hkept
  obtain ⟨hold, -⟩ := (allKept_made_iff hmade).mp hkept
  rw [hmade, List.forall_mem_append, List.forall_mem_singleton]
  exact ⟨h hold, hcall hold⟩

theorem Faithful.alike (h : s.Faithful) (ha : s.Alike s') : s'.Faithful := by
  rw [Faithful, AllKept, ha.calls]
  exact h

theorem AllKept.of_alike (h : s'.AllKept) (ha : s.Alike s') : s.AllKept := by
  rw [AllKept, ha.calls] at h
  exact h

/-- The master goes on serving the client, and has the user it is told, if it is told. -/
theorem Sent.serves (h : s.Sent env r s') (hs : s.server.Serves env) :
    s'.server.Serves env ∧ s'.server.user env =
      if (s.call env r).exceeded then s.server.user env else r.userAfter (s.server.user env) := by
  cases he : (s.call env r).exceeded with
  | true =>
    rw [(h.dropped he).1]
    exact ⟨hs, rfl⟩
  | false =>
    obtain ⟨⟨packets, hreq⟩, -⟩ := h.handled he
    exact hs.handle hreq

/-- A quiet call leaves the user and the room alone. -/
theorem Sent.quiet (h : s.Sent env r s') (hs : s.server.Serves env) (hr : r.Quiet) :
    s'.server.user env = s.server.user env ∧ s'.roomLogin = s.roomLogin := by
  refine ⟨?_, ?_⟩
  · rw [(h.serves hs).2, userAfter_of_quiet hr, ite_self]
  · cases he : (s.call env r).exceeded with
    | true => exact (h.dropped he).2
    | false => exact (h.handled he).2.trans (s.roomAfter_of_quiet hr)

/-- The master serves the client, and the session is faithful so far. -/
structure Ready (env : ClientEnv σ) (s : Session σ) : Prop where
  serves : s.server.Serves env
  faithful : s.Faithful

/-- The client is at the login screen. -/
structure Outside (env : ClientEnv σ) (s : Session σ) : Prop extends s.Ready env where
  phase : s.phase = .authenticating

/-- If all calls are kept, the master has the current user for the client. -/
structure Named (env : ClientEnv σ) (s : Session σ) : Prop extends s.Outside env where
  isSome : s.client.currentUser.isSome
  named : s.AllKept → s.server.user env = s.client.currentUser

/-- If all calls are kept, the master has the current user for the client, in a room set for
this login. -/
structure Inside (env : ClientEnv σ) (s : Session σ) : Prop extends s.Ready env where
  isSome : s.client.currentUser.isSome
  named : s.AllKept → s.server.user env = s.client.currentUser
  placed : s.AllKept → s.roomLogin = some s.login

theorem Ready.alike (h : s.Ready env) (ha : s.Alike s') : s'.Ready env where
  serves := by
    rw [ha.server]
    exact h.serves
  faithful := h.faithful.alike ha

/-- Nothing sent from the login screen is a command. -/
theorem Outside.made (h : s.Outside env) (hmade : s.Made env r s') : s'.Faithful :=
  h.faithful.made hmade fun _ hphase => absurd (h.phase.symm.trans hphase) (by simp)

theorem Outside.sent (h : s.Outside env) (hsent : s.Sent env r s') : s'.Outside env where
  serves := (hsent.serves h.serves).1
  faithful := h.made hsent.made
  phase := hsent.phase.trans h.phase

/-- **What is sent inside is for the current user.** -/
theorem Inside.made (h : s.Inside env) (hmade : s.Made env r s') : s'.Faithful :=
  h.faithful.made hmade fun hkept _ _ => ⟨h.isSome, h.named hkept, h.placed hkept⟩

theorem Inside.sent (h : s.Inside env) (hr : r.Quiet) (hsent : s.Sent env r s') :
    s'.Inside env := by
  obtain ⟨huser, hroom⟩ := hsent.quiet h.serves hr
  have hold : s'.AllKept → s.AllKept := fun hkept => ((allKept_made_iff hsent.made).mp hkept).1
  refine ⟨⟨(hsent.serves h.serves).1, h.made hsent.made⟩, ?_, fun hkept => ?_, fun hkept => ?_⟩
  · rw [hsent.currentUser]
    exact h.isSome
  · rw [huser, hsent.currentUser]
    exact h.named (hold hkept)
  · rw [hroom, hsent.login]
    exact h.placed (hold hkept)

variable (env) in
theorem stable_outside : Stable env (fun s : Session σ => s.Outside env) where
  faithful _ h := h.faithful
  alike _ _ h ha := ⟨h.toReady.alike ha, ha.phase.trans h.phase⟩
  sent _ _ _ _ h hsent := h.sent hsent
  made _ _ _ _ h hmade := h.made hmade

variable (env) in
theorem stable_inside : Stable env (fun s : Session σ => s.Inside env) where
  faithful _ h := h.faithful
  alike s s' h ha := by
    refine ⟨h.toReady.alike ha, ?_, fun hkept => ?_, fun hkept => ?_⟩
    · rw [ha.currentUser]
      exact h.isSome
    · rw [ha.server, ha.currentUser]
      exact h.named (hkept.of_alike ha)
    · rw [ha.roomLogin, ha.login]
      exact h.placed (hkept.of_alike ha)
  sent _ _ _ hr h hsent := h.sent hr hsent
  made _ _ _ _ h hmade := h.made hmade

end Session

/-! ## From one to the other -/

open Session

/-- **The user is set.** -/
theorem triple_clientChangeUser (name : CString) :
    Triple (fun s => s.Outside env ∧ s.client.currentUser = some name)
      (clientChangeUser env name) (fun _ s => s.Named env) Faithful := by
  refine triple_of_forall fun s ⟨h, huser⟩ => (triple_sendMaster s (.changeUser name)).mono
    (fun _ hs => hs) (fun _ s' hsent => ?_) fun s' hmade => h.made hmade
  refine ⟨h.sent hsent, by rw [hsent.currentUser, huser]; rfl, fun hkept => ?_⟩
  have hcall := ((allKept_made_iff hsent.made).mp hkept).2
  rw [(hsent.serves h.serves).2, hsent.currentUser, huser]
  rcases hcall with hpass | hsame
  · rw [hpass]
    rfl
  · rw [show s.server.user env = some name from hsame]
    exact ite_self _

/-- **The room is set.** -/
theorem triple_clientChangeRoom (id : RoomId) :
    Triple (fun s => s.Named env) (clientChangeRoom env id) (fun _ s => s.Inside env)
      Faithful := by
  refine triple_of_forall fun s h => (triple_sendMaster s (.setRoom id)).mono
    (fun _ hs => hs) (fun _ s' hsent => ?_) fun s' hmade => h.toOutside.made hmade
  refine ⟨(h.toOutside.sent hsent).toReady, by rw [hsent.currentUser]; exact h.isSome,
    fun hkept => ?_, fun hkept => ?_⟩
  · rw [(hsent.serves h.serves).2, hsent.currentUser]
    refine Eq.trans ?_ (h.named ((allKept_made_iff hsent.made).mp hkept).1)
    exact ite_self _
  · have hpass : (s.call env (.setRoom id)).exceeded = false :=
      ((allKept_made_iff hsent.made).mp hkept).2
    rw [(hsent.handled hpass).2, hsent.login]
    rfl

/-- The attempts to log in, if what they send and the name of the user may change. -/
theorem steady_authLoop_of {I E : Session σ → Prop} {R : Request → Prop} (hI : Follows env R I E)
    (huser : ∀ user, Steady I E (setClient fun c => { c with currentUser := user } : ClientM σ Unit))
    (hstate : ∀ state, R (.changeState state)) (hget : ∀ name, R (.getUserData name))
    (hadd : ∀ data, R (.addUserData data)) (n : ℕ) : Steady I E (authLoop env n) := by
  induction n with
  | zero => exact steady_pure _
  | succ n ih =>
    refine steady_bind (steady_clientReadLine hI) fun user => steady_bind (huser _) fun _ => ?_
    refine steady_bind (steady_clientReadLine hI) fun pass => ?_
    refine steady_bind (steady_sendMaster hI (hstate _)) fun _ => ?_
    refine steady_bind (steady_authCheck hI (hget _) _) fun data => ?_
    cases data with
    | some data =>
      refine steady_bind (steady_time hI) fun now => ?_
      refine steady_bind (steady_setClient hI fun _ => rfl) fun _ => ?_
      exact steady_bind (steady_userdbRequestAdd hI (hadd _)) fun _ => steady_pure _
    | none =>
      refine steady_bind (steady_sendMaster hI (hstate _)) fun _ => ?_
      exact steady_bind (huser _) fun _ => ih

/-- The attempts to log in stay outside. -/
theorem steady_authLoop (n : ℕ) : Keeps (fun s => s.Outside env) (authLoop env n) :=
  steady_authLoop_of (stable_outside env).follows
    (fun _ => triple_update fun _ h => ⟨⟨h.serves, h.faithful⟩, h.phase⟩)
    (fun _ => trivial) (fun _ => trivial) (fun _ => trivial) n

/-- **A login leads inside.** -/
theorem triple_announce (authlevel : ℤ) :
    Triple (fun s => s.Outside env) (announce env authlevel) (fun _ s => s.Inside env)
      Faithful := by
  have hI := (stable_outside env).follows
  have hlogin : Keeps (fun s => s.Outside env) newLogin :=
    triple_update fun s h => ⟨⟨h.serves, h.faithful⟩, h.phase⟩
  refine triple_bind hlogin fun _ => triple_bind (steady_setClient hI fun _ => rfl) fun _ => ?_
  refine triple_bind (steady_sendMaster hI trivial) fun _ => ?_
  have hplace : Triple (fun s => s.Named env) (do clientChangeRoom env 0; clientLook env)
      (fun _ s => s.Inside env) Faithful :=
    triple_bind (triple_clientChangeRoom 0) fun _ => steady_clientLook (stable_inside env).follows
  refine triple_bind (Q := fun user s => s.Outside env ∧ s.client.currentUser = user)
    (triple_ask fun s h => ⟨h, rfl⟩) fun user => ?_
  cases user with
  | none => exact triple_bind (triple_stop fun s h => h.1.faithful) fun _ => hplace
  | some user => exact triple_bind (triple_clientChangeUser user) fun _ => hplace

/-- A session is faithful to its end, however many rounds it goes. -/
theorem triple_clientMain (n : ℕ) :
    Triple (fun s => s.Ready env) (clientMain env n) (fun _ => Faithful) Faithful := by
  induction n with
  | zero => exact triple_stop fun s h => h.faithful
  | succ n ih =>
    have hI := (stable_outside env).follows
    refine triple_bind (Q := fun _ s => s.Outside env)
      (triple_update fun s h => ⟨⟨h.serves, h.faithful⟩, rfl⟩) fun _ => ?_
    refine triple_bind (steady_sendMaster hI trivial) fun _ => ?_
    refine triple_bind (steady_authLoop _) fun authlevel => ?_
    cases authlevel with
    | none => exact triple_pure fun s h => h.faithful
    | some authlevel =>
      dsimp only
      split
      · exact triple_pure fun s h => h.faithful
      · refine triple_bind (triple_announce authlevel) fun _ => ?_
        have hphase : Keeps (fun s => s.Inside env) (setPhase .commands) :=
          triple_update fun s h => ⟨⟨h.serves, h.faithful⟩, h.isSome, h.named, h.placed⟩
        refine triple_bind hphase fun _ => ?_
        refine triple_bind (steady_commandLoop (stable_inside env).follows n) fun res => ?_
        have hend : Triple (fun s => s.Inside env)
            (setClient fun c => { c with currentUser := none }) (fun _ => Faithful) Faithful :=
          triple_update fun s h => h.faithful
        cases res with
        | logout => exact ih.mono (fun s h => h.toReady) (fun _ _ h => h) fun _ h => h
        | ok => exact hend
        | quit => exact hend

/-- **Commands are for the current user, if the limiter keeps out of the logins.** -/
theorem commands_sent_for_current_user (env : ClientEnv σ) {server : ServerState σ}
    (hserver : server.Serves env) (lines : List CString) (n : ℕ)
    (hkept : ∀ c ∈ ((clientMain env n).final (Session.start server lines)).calls, c.Kept) :
    ∀ c ∈ ((clientMain env n).final (Session.start server lines)).calls,
      c.phase = .commands → c.exceeded = false → c.ForCurrentUser :=
  (triple_clientMain n).final
    ⟨hserver, fun _ _ h => absurd h List.not_mem_nil⟩ hkept

/-! ## Two sessions -/

instance : (c : Call) → Decidable c.Kept
  | ⟨.changeUser _, _, _, _, _, _, _⟩ => inferInstanceAs (Decidable (_ ∨ _))
  | ⟨.setRoom _, _, _, _, _, _, _⟩ => inferInstanceAs (Decidable (_ = false))
  | ⟨.bcastMsg _, _, _, _, _, _, _⟩ | ⟨.listClients, _, _, _, _, _, _⟩
  | ⟨.changeState _, _, _, _, _, _, _⟩ | ⟨.kick _ _, _, _, _, _, _, _⟩
  | ⟨.kickAll _, _, _, _, _, _, _⟩ | ⟨.wait, _, _, _, _, _, _⟩
  | ⟨.getRoomDesc, _, _, _, _, _, _⟩ | ⟨.getRoomName, _, _, _, _, _, _⟩
  | ⟨.move _, _, _, _, _, _, _⟩ | ⟨.getUserData _, _, _, _, _, _, _⟩
  | ⟨.delUserData _, _, _, _, _, _, _⟩ | ⟨.addUserData _, _, _, _, _, _, _⟩
  | ⟨.lookAt _, _, _, _, _, _, _⟩ | ⟨.printInventory, _, _, _, _, _, _⟩
  | ⟨.take _, _, _, _, _, _, _⟩ | ⟨.drop _, _, _, _, _, _, _⟩
  | ⟨.listUsers, _, _, _, _, _, _⟩ | ⟨.execVerb _, _, _, _, _, _, _⟩ => .isTrue trivial

instance (c : Call) : Decidable c.ForCurrentUser := inferInstanceAs (Decidable (_ ∧ _ ∧ _))

/-- A client with pid 7 at this clock, and a master that answers nothing of the world.  The
digest is that of sixteen `A`s and a `p`, the salt and the password of both users below. -/
def sampleEnv (clock : ℕ → ℤ) : ClientEnv Unit where
  asserts := false
  pid := 7
  clock := clock
  rand _ := 0
  sha512 bs := if bs = List.replicate SALT_LEN 65 ++ [112] then
    [255, 42, 243, 137, 13, 250, 27, 3, 51, 215, 53, 196, 167, 64, 79, 179, 68, 53, 31, 177,
    184, 154, 254, 47, 234, 222, 240, 17, 247, 151, 114, 250, 89, 190, 165, 136, 214, 68,
    255, 1, 14, 151, 199, 207, 122, 96, 104, 143, 133, 253, 68, 229, 19, 126, 53, 210, 161,
    44, 248, 144, 82, 148, 212, 79]
    else List.replicate AUTH_HASHLEN 0
  sha512_length bs := by split <;> rfl
  answer _ _ s := .ok ⟨[], s.users, s.world, [], by simp⟩

/-- The record of a user whose password is `p`. -/
def sampleUser (name : CString) : UserData where
  username := strncpy (MAX_NAME_LEN + 1) name
  salt := List.replicate SALT_LEN 65 ++ [0]
  passhash := hashPassHex (sampleEnv 0) (letter 112) (List.replicate SALT_LEN 65) ++ [0]
  priv := PRIV_USER
  lastLogin := 0
  userdata := none

/-- A master with one room, this client, and the users `a` and `b`. -/
def sampleServer : ServerState Unit where
  master := (serverStep false (Master.init [⟨[], none, none, 8⟩]) (.connect 7)).toOption.getD
    (Master.init [])
  users name := if name = letter 97 ∨ name = letter 98 then some (sampleUser name) else none
  world := ()

theorem serves_sampleServer (clock : ℕ → ℤ) : sampleServer.Serves (sampleEnv clock) where
  sound := by
    rw [sampleServer]
    cases hstep : serverStep false (Master.init [⟨[], none, none, 8⟩]) (.connect 7) with
    | error e => exact Master.sound_init false []
    | ok m => exact (Master.sound_init false [⟨[], none, none, 8⟩]).step hstep
  listed := by
    show (Master.child false sampleServer.master 7).isSome = true
    decide +kernel

/-- What a session with this master is typed. -/
def typedInventory : CString := .ofChars ['I', 'N', 'V', 'E', 'N', 'T', 'O', 'R', 'Y']

/-- A user who logs in and looks at the inventory, one second after the other. -/
theorem inventory_sent_for_user :
    let calls := ((clientMain (sampleEnv fun k => k) 3).final
      (Session.start sampleServer [letter 97, letter 112, typedInventory])).calls
    (∃ c ∈ calls, c.phase = .commands ∧ c.exceeded = false) ∧
      ∀ c ∈ calls, c.phase = .commands → c.exceeded = false → c.ForCurrentUser :=
  ⟨by decide +kernel,
    commands_sent_for_current_user _ (serves_sampleServer _) _ _ (by decide +kernel)⟩

/-- **A command for somebody else.**  The user `a` logs in, looks at the inventory six times
within the next second, and logs out.  The user `b` logs in within the same second, and the
request that says so is the twelfth.  In the third second, `b` sees the inventory of `a`. -/
theorem inventory_of_another_user :
    ∃ c ∈ ((clientMain (sampleEnv fun k => if k < 10 then 1 else if k < 26 then 2 else 3) 12).final
      (Session.start sampleServer ([letter 97, letter 112] ++ List.replicate 6 typedInventory ++
        [.ofChars ['L', 'O', 'G', 'O', 'U', 'T'], letter 98, letter 112, typedInventory]))).calls,
      (c.request = .printInventory ∧ c.phase = .commands ∧ c.exceeded = false) ∧
        c.client.currentUser = some (letter 98) ∧ c.user = some (letter 97) ∧
        ¬ c.ForCurrentUser := by
  decide +kernel

end NetCosm
