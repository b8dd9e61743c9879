import Mathlib.Logic.Relation
import NetCosm.Client.Identity

/-!
# What a client can do

`client_main` is long, but there are few things it does to the state of a session: it reads a line, asks for
the time, makes a request, and sets a variable of its own.  `ClientStep` lists them, each with what
`client_main` has seen to before it.  `leads_clientMain` says that every session is a run of these steps, so
what all steps keep holds of every session, with no further look at the code of the commands.

## What is seen to

A request is `Entitled` if the checks before it have been passed.  Requests of administrators are made from the
command loop, if `are_admin` is set.  A record is added with the privileges of the record that was returned
last, if a line that was typed is the password of that record; or with any, if `are_admin` is set.  `are_admin`
itself is only set after such a record was added at the login screen.
-/

namespace NetCosm

open Sessions

variable {σ : Type} {env : ClientEnv σ} {lines : List CString}

/-! ## Requests -/

/-- The request is one for administrators. -/
def Request.Privileged : Request → Prop
  | .listClients | .kick _ _ | .kickAll _ | .wait | .delUserData _ | .listUsers => True
  | .bcastMsg _ | .changeState _ | .changeUser _ | .getRoomDesc | .getRoomName | .setRoom _ | .move _
  | .getUserData _ | .addUserData _ | .lookAt _ | .printInventory | .take _ | .drop _ | .execVerb _ => False

/-- A request that needs no check. -/
def Request.Open : Request → Prop
  | .listClients | .kick _ _ | .kickAll _ | .wait | .delUserData _ | .listUsers | .addUserData _ => False
  | .bcastMsg _ | .changeState _ | .changeUser _ | .getRoomDesc | .getRoomName | .setRoom _ | .move _
  | .getUserData _ | .lookAt _ | .printInventory | .take _ | .drop _ | .execVerb _ => True

/-- One of the lines is the password of the record. -/
def UserData.OpenedBy (env : ClientEnv σ) (lines : List CString) (data : UserData) : Prop :=
  ∃ line ∈ lines, passMatches env (removeCruft line) data = true

/-- The client may make a record with these privileges. -/
def Client.MayGrant (env : ClientEnv σ) (lines : List CString) (c : Client) (priv : ℤ) : Prop :=
  c.areAdmin = true ∨ priv = c.returnedReqdata.priv ∧ c.returnedReqdata.OpenedBy env lines

namespace Session

/-- The checks before the request have been passed. -/
structure Entitled (env : ClientEnv σ) (lines : List CString) (s : Session σ) (r : Request) : Prop where
  privileged : r.Privileged → s.phase = .commands ∧ s.client.areAdmin = true
  grants : ∀ data, r = .addUserData data → s.client.MayGrant env lines data.priv

/-- A record with these privileges was added at the login screen, with its password. -/
def Vouched (env : ClientEnv σ) (lines : List CString) (s : Session σ) (priv : ℤ) : Prop :=
  ∃ c ∈ s.calls, ∃ data : UserData, c.request = .addUserData data ∧ data.priv = priv ∧
    c.phase = .authenticating ∧ c.login = s.login ∧ data.OpenedBy env lines

end Session

/-- A step of a client that is at the login screen, or in the command loop, and stays there. -/
inductive InnerStep (env : ClientEnv σ) (lines : List CString) : Session σ → Session σ → Prop
  | read {s : Session σ} {line : CString} {rest : List CString} (h : s.input = line :: rest) :
      InnerStep env lines s { s with input := rest }
  | time (s : Session σ) : InnerStep env lines s { s with tick := s.tick + 1 }
  | rand (s : Session σ) : InnerStep env lines s { s with dice := s.dice + 1 }
  | send {s : Session σ} {r : Request} (h : s.Entitled env lines r) :
      InnerStep env lines s ((sendMaster env r).final s)
  /-- `current_user` is set. -/
  | name (s : Session σ) (user : Option CString) :
      InnerStep env lines s { s with client := { s.client with currentUser := user } }
  /-- The `last_login` of `returned_reqdata` is set. -/
  | stamp (s : Session σ) (lastLogin : ℤ) :
      InnerStep env lines s { s with client := { s.client with
        returnedReqdata := { s.client.returnedReqdata with lastLogin := lastLogin } } }

/-- A step of a client. -/
inductive ClientStep (env : ClientEnv σ) (lines : List CString) : Session σ → Session σ → Prop
  | inner {s s' : Session σ} (h : InnerStep env lines s s') : ClientStep env lines s s'
  | enter (s : Session σ) (phase : Phase) : ClientStep env lines s { s with phase := phase }
  /-- A login: `are_admin` is set. -/
  | login {s : Session σ} {authlevel : ℤ} (h : s.Vouched env lines authlevel) :
      ClientStep env lines s { s with
        login := s.login + 1
        client := { s.client with areAdmin := authlevel == PRIV_ADMIN } }

/-- One session leads to another. -/
abbrev Leads (env : ClientEnv σ) (lines : List CString) : Session σ → Session σ → Prop :=
  Relation.ReflTransGen (ClientStep env lines)

/-! ## A request -/

/-- The packets are read, as far as `poll_requests` goes. -/
def Client.receiveAll : List Packet → Client → Client
  | [], c | .kick _ :: _, c | .allDone :: _, c => c
  | p :: packets, c => receiveAll packets (c.receive p)

theorem final_pollRequests (packets : List Packet) (s : Session σ) :
    (pollRequests packets).final s = { s with client := s.client.receiveAll packets } := by
  induction packets generalizing s with
  | nil => rfl
  | cons p packets ih =>
    cases p with
    | kick text => rfl
    | allDone => rfl
    | _ => exact ih _

/-- What every packet keeps is kept. -/
theorem receiveAll_induction {P : Client → Prop} {packets : List Packet}
    (h : ∀ p ∈ packets, ∀ c, P c → P (c.receive p)) {c : Client} (hc : P c) : P (c.receiveAll packets) := by
  induction packets generalizing c with
  | nil => exact hc
  | cons p packets ih =>
    have hp : P (Client.receiveAll packets (c.receive p)) :=
      ih (fun q hq => h q (List.mem_cons_of_mem p hq)) (h p (List.mem_cons_self ..) c hc)
    cases p with
    | kick text => exact hc
    | allDone => exact hc
    | _ => exact hp

namespace Session

variable {s : Session σ} {r : Request}

/-- The session after the limiter. -/
def limited (env : ClientEnv σ) (s : Session σ) (r : Request) : Session σ :=
  (limitRequest env r).final s

/-- **What a request does**: the limiter drops it, or it is the end of the master, or its answer is read. -/
theorem final_sendMaster (s : Session σ) (r : Request) :
    (sendMaster env r).final s =
      if (s.call env r).exceeded then s.limited env r
      else match handleChildReq env s.server r with
        | .error _ => s.limited env r
        | .ok (packets, server) =>
            { s.limited env r with
              server := server
              roomLogin := s.roomAfter r
              client := (s.limited env r).client.receiveAll packets } := by
  have hlimit : limitRequest env r s = (some (s.call env r).exceeded, s.limited env r) := rfl
  rw [Script.final, sendMaster, bind_of_some hlimit]
  cases (s.call env r).exceeded with
  | true => rfl
  | false =>
    simp only [Bool.false_eq_true, if_false]
    have hserver : (s.limited env r).server = s.server := rfl
    cases hreq : handleChildReq env s.server r with
    | error e =>
      have hwrite : writeRequest env r (s.limited env r) = (none, s.limited env r) := by
        simp only [writeRequest, hserver, hreq]
      rw [bind_of_none hwrite]
    | ok res =>
      have hwrite : writeRequest env r (s.limited env r) =
          (some res.1, { s.limited env r with server := res.2, roomLogin := s.roomAfter r }) := by
        simp only [writeRequest, hserver, hreq]
        cases r <;> rfl
      rw [bind_of_some hwrite]
      exact final_pollRequests res.1 _

/-- What the limiter and all packets leave alone is left alone by a request. -/
theorem sendMaster_client {P : Client → Prop} (hlimit : P (s.client.rateLimit (env.clock s.tick)).2)
    (hreceive : ∀ packets server, handleChildReq env s.server r = .ok (packets, server) →
      ∀ p ∈ packets, ∀ c, P c → P (c.receive p)) : P ((sendMaster env r).final s).client := by
  rw [final_sendMaster]
  split
  · exact hlimit
  · split
    · exact hlimit
    · rename_i packets server hreq
      exact receiveAll_induction (hreceive packets server hreq) hlimit

/-- What a request leaves of everything but the master and the variables of the client. -/
structure SentFrom (env : ClientEnv σ) (s : Session σ) (r : Request) (s' : Session σ) : Prop where
  calls : s'.calls = s.calls ++ [s.call env r]
  input : s'.input = s.input
  phase : s'.phase = s.phase
  login : s'.login = s.login
  tick : s'.tick = if s.client.areAdmin then s.tick else s.tick + 1
  server : s'.server = s.server ∨ ∃ packets, handleChildReq env s.server r = .ok (packets, s'.server)

theorem sentFrom_sendMaster (env : ClientEnv σ) (s : Session σ) (r : Request) :
    s.SentFrom env r ((sendMaster env r).final s) := by
  rw [final_sendMaster]
  split
  · exact ⟨rfl, rfl, rfl, rfl, rfl, .inl rfl⟩
  · split
    · exact ⟨rfl, rfl, rfl, rfl, rfl, .inl rfl⟩
    · rename_i packets server hreq
      exact ⟨rfl, rfl, rfl, rfl, rfl, .inr ⟨packets, hreq⟩⟩

/-- Every call is right after the calls before it. -/
def CallsObey (P : List Call → Call → Prop) (s : Session σ) : Prop :=
  ∀ (i : ℕ) (c : Call), s.calls[i]? = some c → P (s.calls.take i) c

/-- One more call. -/
theorem CallsObey.sent {P : List Call → Call → Prop} (h : s.CallsObey P) (hr : P s.calls (s.call env r)) :
    ((sendMaster env r).final s).CallsObey P := by
  intro i c hc
  rw [(sentFrom_sendMaster env s r).calls] at hc ⊢
  rcases lt_or_ge i s.calls.length with hi | hi
  · rw [List.getElem?_append_left hi] at hc
    rw [List.take_append_of_le_length hi.le]
    exact h i c hc
  · rw [List.getElem?_append_right hi, List.getElem?_singleton] at hc
    split at hc
    · rename_i hlast
      obtain rfl := Option.some.inj hc
      obtain rfl : i = s.calls.length := by omega
      rw [List.take_left]
      exact hr
    · exact absurd hc (by simp)

end Session

theorem receive_areAdmin (c : Client) (p : Packet) : (c.receive p).areAdmin = c.areAdmin := by
  cases p <;> rfl

theorem rateLimit_areAdmin (c : Client) (now : ℤ) : (c.rateLimit now).2.areAdmin = c.areAdmin := by
  rw [Client.rateLimit]
  split
  · rfl
  · dsimp only
    split <;> rfl

theorem sendMaster_areAdmin (s : Session σ) (r : Request) :
    ((sendMaster env r).final s).client.areAdmin = s.client.areAdmin :=
  Session.sendMaster_client (P := fun c => c.areAdmin = s.client.areAdmin) (rateLimit_areAdmin ..)
    fun _ _ _ p _ c hc => (receive_areAdmin c p).trans hc

/-! ## Scripts that make steps -/

/-- An assertion that all inner steps keep, under which what is to be read is among the lines. -/
structure Closed (env : ClientEnv σ) (lines : List CString) (I E : Session σ → Prop) : Prop where
  step : ∀ s s', I s → InnerStep env lines s s' → I s'
  typed : ∀ s, I s → ∀ line ∈ s.input, line ∈ lines
  stops : ∀ s, I s → E s

section Closed

variable {I E : Session σ → Prop} {K : Client → Prop}

/-- A request, when it is entitled. -/
theorem triple_send (hI : Closed env lines I E) {P : Session σ → Prop} (hP : ∀ s, P s → I s) {r : Request}
    (hr : ∀ s, P s → s.Entitled env lines r) :
    Triple P (sendMaster env r) (fun _ s' => I s' ∧ ∃ s, P s ∧ s' = (sendMaster env r).final s) E := by
  intro s hs
  have hstep := hI.step s _ (hP s hs) (.send (hr s hs))
  exact ⟨fun _ _ => ⟨hstep, s, hs, rfl⟩, fun _ => hI.stops _ hstep⟩

theorem steady_send (hI : Closed env lines I E) {r : Request} (hr : ∀ s, I s → s.Entitled env lines r) :
    Steady I E (sendMaster env r) :=
  (triple_send hI (fun _ hs => hs) hr).mono (fun _ hs => hs) (fun _ _ hs => hs.1) fun _ hs => hs

theorem steady_send_open (hI : Closed env lines I E) {r : Request} (hr : r.Open) :
    Steady I E (sendMaster env r) := by
  refine steady_send hI fun _ _ => ⟨fun h => ?_, fun data h => ?_⟩
  · cases r <;> first | exact h.elim | exact hr.elim
  · subst h
    exact hr.elim

theorem triple_readLine (hI : Closed env lines I E) :
    Triple (fun s => I s ∧ K s.client) (clientReadLine : ClientM σ CString)
      (fun line s => (I s ∧ K s.client) ∧ line ∈ lines) E := by
  intro s hs
  cases hinput : s.input with
  | nil =>
    have hrun : clientReadLine s = (none, s) := by simp only [clientReadLine, hinput]
    refine ⟨fun _ ha => absurd (hrun ▸ ha) (by simp), fun _ => ?_⟩
    rw [hrun]
    exact hI.stops s hs.1
  | cons line rest =>
    have hrun : clientReadLine s = (some line, { s with input := rest }) := by
      simp only [clientReadLine, hinput]
    refine ⟨fun a ha => ?_, fun hn => absurd (hrun ▸ hn) (by simp)⟩
    rw [hrun] at ha ⊢
    obtain rfl := Option.some.inj ha
    exact ⟨⟨hI.step _ _ hs.1 (.read hinput), hs.2⟩,
      hI.typed s hs.1 line (by rw [hinput]; exact List.mem_cons_self ..)⟩

theorem steady_readLine (hI : Closed env lines I E) : Steady I E (clientReadLine : ClientM σ CString) :=
  (triple_readLine (K := fun _ => True) hI).mono (fun _ hs => ⟨hs, trivial⟩) (fun _ _ hs => hs.1.1) fun _ hs => hs

/-- A line is read, and it is one of the lines. -/
theorem triple_lines {α : Type} {Q : α → Session σ → Prop} (hI : Closed env lines I E) {f : CString → ClientM σ α}
    (hf : ∀ line ∈ lines, Triple I (f line) Q E) : Triple I (clientReadLine >>= f) Q E := by
  refine triple_bind ((triple_readLine (K := fun _ => True) hI).mono (fun _ hs => ⟨hs, trivial⟩)
    (fun _ _ hs => hs) fun _ hs => hs) fun line => triple_of_forall fun s hs => ?_
  exact (hf line hs.2).mono (fun _ h => h ▸ hs.1.1) (fun _ _ hs => hs) fun _ hs => hs

theorem triple_time (hI : Closed env lines I E) :
    Triple (fun s => I s ∧ K s.client) (time env) (fun _ s => I s ∧ K s.client) E :=
  fun s hs => ⟨fun _ _ => ⟨hI.step _ _ hs.1 (.time s), hs.2⟩, fun h => absurd h (by simp [time])⟩

theorem triple_randSalt (hI : Closed env lines I E) (n : ℕ) :
    Triple (fun s => I s ∧ K s.client) (randSalt env n) (fun _ s => I s ∧ K s.client) E := by
  have hrand : Triple (fun s => I s ∧ K s.client) (rand env) (fun _ s => I s ∧ K s.client) E :=
    fun s hs => ⟨fun _ _ => ⟨hI.step _ _ hs.1 (.rand s), hs.2⟩, fun h => absurd h (by simp [rand])⟩
  induction n with
  | zero => exact triple_pure fun _ hs => hs
  | succ n ih => exact triple_bind hrand fun _ => triple_bind ih fun _ => triple_pure fun _ hs => hs

/-- **A record that is returned for a password** is the one that was returned last, and it was checked. -/
theorem triple_authCheck (hI : Closed env lines I E) (name : CString) {pass : CString} (hpass : pass ∈ lines) :
    Triple I (authCheck env name pass)
      (fun r s => I s ∧ ∀ data, r = some data → s.client.returnedReqdata = data ∧ data.OpenedBy env lines) E := by
  refine triple_bind (Q := fun r s => I s ∧ ∀ data, r = some data → s.client.returnedReqdata = data) ?_ fun r => ?_
  · refine triple_bind (steady_send_open hI trivial) fun _ => triple_ask fun s hs => ?_
    refine ⟨hs, fun data hdata => ?_⟩
    split at hdata
    · exact Option.some.inj hdata
    · exact absurd hdata (by simp)
  · refine triple_pure fun s hs => ⟨hs.1, fun data hdata => ?_⟩
    obtain ⟨hr, hmatch⟩ := Option.filter_eq_some_iff.mp hdata
    exact ⟨hs.2 data hr, pass, hpass, hmatch⟩

/-- The record that is added may be made. -/
theorem triple_addRecord (hI : Closed env lines I E) {data : UserData} {priv : ℤ} (hpriv : data.priv = priv) :
    Triple (fun s => I s ∧ s.client.MayGrant env lines priv) (userdbRequestAdd env data) (fun _ => I) E := by
  refine triple_bind (Q := fun _ => I) ?_ fun _ => steady_ask _
  refine (triple_send (r := .addUserData data) hI (fun _ hs => hs.1) fun s hs => ⟨False.elim, fun data' h => ?_⟩).mono
    (fun _ hs => hs) (fun _ _ hs => hs.1) fun _ hs => hs
  obtain rfl := Request.addUserData.inj h
  rw [hpriv]
  exact hs.2

theorem triple_authUserAdd (hI : Closed env lines I E) (user pass : CString) (level : ℤ) :
    Triple (fun s => I s ∧ s.client.MayGrant env lines level) (authUserAdd env user pass level) (fun _ => I) E := by
  rw [authUserAdd]
  split
  · refine triple_bind (Q := fun _ => I) ?_ fun _ => steady_pure _
    refine triple_bind (triple_randSalt (K := fun c => c.MayGrant env lines level) hI _) fun salt => ?_
    refine triple_bind (triple_time (K := fun c => c.MayGrant env lines level) hI) fun now => ?_
    exact triple_bind (triple_addRecord hI rfl) fun _ => steady_pure _
  · exact triple_pure fun _ hs => hs.1

end Closed

/-! ## Commands -/

section Commands

variable {I E : Session σ → Prop}

/-- Nothing happens in a session in which this holds but what an administrator does in the command loop. -/
def AdminOnly (I : Session σ → Prop) : Prop := ∀ s, I s → s.phase = .commands ∧ s.client.areAdmin = true

theorem steady_send_privileged (hI : Closed env lines I E) (hadmin : AdminOnly I) (r : Request) :
    Steady I E (sendMaster env r) :=
  steady_send hI fun s hs => ⟨fun _ => hadmin s hs, fun _ _ => .inl (hadmin s hs).2⟩

theorem steady_look (hI : Closed env lines I E) : Steady I E (clientLook env) :=
  steady_bind (steady_send_open hI trivial) fun _ =>
    steady_send_open hI trivial

theorem steady_move (hI : Closed env lines I E) (dir : CString) : Steady I E (clientMove env dir) := by
  rw [clientMove]
  split
  · exact steady_bind (steady_send_open hI trivial) fun _ => steady_ask _
  · exact steady_pure _

theorem steady_user (hI : Closed env lines I E) (hadmin : AdminOnly I) (save : CString) :
    Steady I E (userCb env save) := by
  have hdel : ∀ user, Steady I E (authUserDel env user) := by
    intro user
    rw [authUserDel]
    split
    · exact steady_bind (steady_send_privileged hI hadmin _) fun _ => steady_ask _
    · exact steady_pure _
  have hadd : ∀ user, Steady I E (userAdd env user) := by
    intro user
    refine steady_bind (steady_readLine hI) fun pass => steady_bind (steady_readLine hI) fun pass2 => ?_
    split
    · exact steady_pure _
    · refine steady_bind (steady_readLine hI) fun allowAdmin => steady_bind ?_ fun _ => steady_pure _
      exact (triple_authUserAdd hI user pass _).mono (fun s hs => ⟨hs, .inl (hadmin s hs).2⟩) (fun _ _ hs => hs)
        fun _ hs => hs
  rw [userCb]
  split
  · exact steady_pure _
  · refine steady_bind (steady_ask _) fun current => ?_
    split
    · split
      · split
        · exact steady_bind (hdel _) fun _ => steady_pure _
        · exact steady_pure _
      · exact steady_pure _
    · split
      · split
        · split
          · exact steady_pure _
          · exact steady_bind (hadd _) fun _ => steady_pure _
        · exact steady_pure _
      · split
        · exact steady_bind (steady_send_privileged hI hadmin _) fun _ => steady_pure _
        · exact steady_pure _

theorem steady_client (hI : Closed env lines I E) (hadmin : AdminOnly I) (save : CString) :
    Steady I E (clientCb env save) := by
  have hsend : ∀ r, Steady I E (do sendMaster env r; pure CmdResult.ok) := fun r =>
    steady_bind (steady_send_privileged hI hadmin r) fun _ => steady_pure _
  rw [clientCb]
  split
  · exact steady_pure _
  · dsimp only
    split
    · exact hsend _
    · split
      · split
        · exact steady_pure _
        · split
          · exact hsend _
          · split
            · exact steady_pure _
            · split
              · exact steady_pure _
              · exact hsend _
      · exact steady_pure _

/-- **The new password** is set for a record with the privileges of the one that was checked. -/
theorem steady_chpass (hI : Closed env lines I E) (save : CString) : Steady I E (chpassCb env save) := by
  refine triple_lines hI fun current hcurrent => steady_bind (steady_ask _) fun user => ?_
  cases user with
  | none => exact steady_stop hI.stops
  | some user =>
    refine triple_bind (triple_authCheck hI user hcurrent) fun data => ?_
    cases data with
    | none => exact triple_pure fun s hs => hs.1
    | some data =>
      refine triple_bind (Q := fun _ => I) ?_ fun _ => steady_pure _
      let K : Client → Prop := fun c => c.returnedReqdata.OpenedBy env lines
      have hread : Triple (fun s => I s ∧ K s.client) (clientReadLine : ClientM σ CString)
          (fun _ s => I s ∧ K s.client) E :=
        (triple_readLine hI).mono (fun _ hs => hs) (fun _ _ hs => hs.1) fun _ hs => hs
      have hnew : Triple (fun s => I s ∧ K s.client) (chpassNew env user) (fun _ => I) E := by
        refine triple_bind hread fun pass1 => triple_bind hread fun pass2 => ?_
        split
        · exact triple_pure fun _ hs => hs.1
        · refine triple_bind (Q := fun data s => I s ∧ s.client.MayGrant env lines data.priv)
            (triple_ask fun s hs => ⟨hs.1, .inr ⟨rfl, hs.2⟩⟩) fun data => ?_
          exact triple_bind (triple_authUserAdd hI user pass1 data.priv) fun _ => steady_pure _
      refine hnew.mono (fun s hs => ⟨hs.1, ?_⟩) (fun _ _ hs => hs) fun _ hs => hs
      obtain ⟨rfl, hopened⟩ := hs.2 data rfl
      exact hopened

/-- **Every command makes steps of its own**, if it may be used. -/
theorem steady_commands (hI : Closed env lines I E) (save : CString) :
    ∀ cmd ∈ cmds env, (cmd.adminOnly = true → AdminOnly I) → Steady I E (cmd.cb save) := by
  have hpure : ∀ res, Steady I E (pure res : ClientM σ CmdResult) := fun _ => steady_pure _
  have hok : ∀ {x : ClientM σ Unit}, Steady I E x → Steady I E (do x; pure CmdResult.ok) := fun hx =>
    steady_bind hx fun _ => steady_pure _
  have hsay : Steady I E (sayCb env save) :=
    steady_bind (steady_ask _) fun _ => hok (steady_send_open hI trivial)
  have hdate : Steady I E (dateCb env save) :=
    steady_bind ((triple_time (K := fun _ => True) hI).mono (fun _ hs => ⟨hs, trivial⟩) (fun _ _ hs => hs.1)
      fun _ hs => hs) fun _ => steady_pure _
  have hlook : Steady I E (lookCb env save) := by
    rw [lookCb]
    split
    · exact hok (steady_look hI)
    · exact hok (steady_send_open hI trivial)
  have hinventory : Steady I E (inventoryCb env save) :=
    hok (steady_send_open hI trivial)
  have htake : Steady I E (takeCb env save) := by
    rw [takeCb]
    cases strtok (fun _ => false) save with
    | none => exact steady_pure _
    | some what => exact hok (steady_send_open hI trivial)
  have hgo : Steady I E (goCb env save) := by
    rw [goCb]
    split
    · exact steady_pure _
    · refine steady_bind (steady_move hI _) fun moved => ?_
      split
      · exact hok (steady_look hI)
      · exact steady_pure _
  have hdrop : Steady I E (dropCb env save) := by
    rw [dropCb]
    split
    · exact steady_pure _
    · exact hok (steady_send_open hI trivial)
  simp only [cmds, List.forall_mem_cons]
  exact ⟨fun h => steady_user hI (h trivial) save, fun h => steady_client hI (h trivial) save, fun _ => hpure _,
    fun _ => hpure _, fun _ => hsay, fun _ => hdate, fun _ => hpure _, fun _ => hlook, fun _ => hinventory,
    fun _ => htake, fun h => hok (steady_send_privileged hI (h trivial) _), fun _ => hgo, fun _ => hdrop,
    fun _ => steady_chpass hI save, fun _ h => absurd h List.not_mem_nil⟩

/-- **A round of the command loop.**  The commands for administrators are looked at only if the user is one. -/
theorem steady_round (hI : Closed env lines I E) {admin : Bool} (hphase : ∀ s, I s → s.phase = .commands)
    (hadmin : ∀ s, I s → s.client.areAdmin = admin) : Steady I E (commandRound env) := by
  refine steady_bind (steady_readLine hI) fun line => ?_
  refine triple_bind (Q := fun client s => I s ∧ client.areAdmin = admin)
    (triple_ask fun s hs => ⟨hs, hadmin s hs⟩) fun client => triple_of_forall fun s hs => ?_
  have hverb : Steady I E (do sendMaster env (.execVerb line); pure CmdResult.ok) :=
    steady_bind (steady_send_open hI trivial) fun _ => steady_pure _
  obtain ⟨hs, hclient⟩ := hs
  refine Triple.mono (P := I) ?_ (fun _ h => h ▸ hs) (fun _ _ hs => hs) fun _ hs => hs
  dsimp only
  split
  · exact hverb
  · split
    · exact steady_pure _
    · split
      · rename_i cmd hcmd
        split
        · exact steady_pure _
        · rename_i hallowed
          refine steady_commands hI _ cmd (List.mem_of_find?_eq_some hcmd) fun honly s hs => ⟨hphase s hs, ?_⟩
          rw [hadmin s hs, ← hclient]
          simpa [honly] using hallowed
      · exact hverb

theorem steady_loop (hI : Closed env lines I E) {admin : Bool} (hphase : ∀ s, I s → s.phase = .commands)
    (hadmin : ∀ s, I s → s.client.areAdmin = admin) (n : ℕ) : Steady I E (commandLoop env n) := by
  induction n with
  | zero => exact steady_stop hI.stops
  | succ n ih =>
    refine steady_bind (steady_round hI hphase hadmin) fun res => ?_
    cases res with
    | ok => exact ih
    | logout => exact steady_pure _
    | quit => exact steady_pure _

end Commands

/-! ## Every session -/

namespace InnerStep

variable {s s' : Session σ}

theorem phase_eq (h : InnerStep env lines s s') : s'.phase = s.phase := by
  cases h with
  | send h => exact (Session.sentFrom_sendMaster ..).phase
  | _ => rfl

theorem areAdmin_eq (h : InnerStep env lines s s') : s'.client.areAdmin = s.client.areAdmin := by
  cases h with
  | send h => exact sendMaster_areAdmin ..
  | _ => rfl

/-- What is still to be read was to be read before. -/
theorem input_subset (h : InnerStep env lines s s') : s'.input ⊆ s.input := by
  cases h with
  | read hinput =>
    rw [hinput]
    exact List.subset_cons_self _ _
  | send h =>
    rw [(Session.sentFrom_sendMaster ..).input]
    exact List.Subset.refl _
  | _ => exact List.Subset.refl _

end InnerStep

/-- What every step keeps, every session keeps. -/
theorem Leads.keeps {P : Session σ → Prop} {s s' : Session σ} (h : Leads env lines s s')
    (hP : ∀ s s', P s → ClientStep env lines s s' → P s') (hs : P s) : P s' := by
  induction h with
  | refl => exact hs
  | tail _ hstep ih => exact hP _ _ ih hstep

theorem Leads.typed {s s' : Session σ} (h : Leads env lines s s') :
    (∀ line ∈ s.input, line ∈ lines) → ∀ line ∈ s'.input, line ∈ lines := by
  refine h.keeps (P := fun s => ∀ line ∈ s.input, line ∈ lines) fun s s' hs hstep => ?_
  cases hstep with
  | inner h => exact fun line hline => hs line (h.input_subset hline)
  | enter phase => exact hs
  | login h => exact hs

/-- What inner steps keep, of sessions that can be reached. -/
theorem closed_leads {P : Session σ → Prop} {s₀ : Session σ} (hs₀ : ∀ line ∈ s₀.input, line ∈ lines)
    (hP : ∀ s s', P s → InnerStep env lines s s' → P s') :
    Closed env lines (fun s => Leads env lines s₀ s ∧ P s) (Leads env lines s₀) where
  step s s' hs h := ⟨hs.1.tail (.inner h), hP s s' hs.2 h⟩
  typed _ hs := hs.1.typed hs₀
  stops _ hs := hs.1

section Session

variable {s₀ : Session σ}

/-- A login screen that was reached. -/
def AtLogin (env : ClientEnv σ) (lines : List CString) (s₀ s : Session σ) : Prop :=
  Leads env lines s₀ s ∧ s.phase = .authenticating

theorem closed_atLogin (env : ClientEnv σ) (hs₀ : ∀ line ∈ s₀.input, line ∈ lines) :
    Closed env lines (AtLogin env lines s₀) (Leads env lines s₀) :=
  closed_leads hs₀ fun _ _ hs h => h.phase_eq.trans hs

/-- The record of a user who has logged in is added again, with the time of the login. -/
theorem triple_found (hs₀ : ∀ line ∈ s₀.input, line ∈ lines) (data : UserData) :
    Triple (fun s => AtLogin env lines s₀ s ∧ s.client.returnedReqdata = data ∧ data.OpenedBy env lines)
      (do
        let lastLogin ← time env
        let data := { data with lastLogin }
        setClient fun c => { c with returnedReqdata := data }
        let _ ← userdbRequestAdd env data
        pure (some data.priv))
      (fun r s => AtLogin env lines s₀ s ∧ ∀ authlevel, r = some authlevel → s.Vouched env lines authlevel)
      (Leads env lines s₀) := by
  have hI := closed_atLogin env hs₀
  refine triple_bind (triple_time (K := fun c => c.returnedReqdata = data ∧ data.OpenedBy env lines) hI)
    fun now => ?_
  let found : UserData := { data with lastLogin := now }
  let P : Session σ → Prop := fun s =>
    AtLogin env lines s₀ s ∧ s.client.returnedReqdata = found ∧ found.OpenedBy env lines
  refine triple_bind (Q := fun _ => P) (triple_update fun s hs => ?_) fun _ => ?_
  · have hstep := hI.step s _ hs.1 (.stamp s now)
    rw [hs.2.1] at hstep
    exact ⟨hstep, rfl, hs.2.2⟩
  · have hentitled : ∀ s, P s → s.Entitled env lines (.addUserData found) := fun s hs =>
      ⟨False.elim, fun data' h => .inr (by
        obtain rfl := Request.addUserData.inj h
        exact ⟨congrArg UserData.priv hs.2.1.symm, hs.2.1 ▸ hs.2.2⟩)⟩
    refine triple_bind (triple_bind (triple_send hI (fun s hs => hs.1) hentitled) fun _ => triple_ask (Q := fun _ s =>
      AtLogin env lines s₀ s ∧ s.Vouched env lines found.priv) fun s hs => ?_) fun _ => triple_pure fun s hs => ?_
    · obtain ⟨hs, s', hs', rfl⟩ := hs
      have hsent := Session.sentFrom_sendMaster env s' (.addUserData found)
      refine ⟨hs, s'.call env (.addUserData found), ?_, found, rfl, rfl, hs'.1.2, hsent.login.symm, hs'.2.2⟩
      rw [hsent.calls]
      exact List.mem_append_right _ (List.mem_singleton_self _)
    · refine ⟨hs.1, fun authlevel h => ?_⟩
      obtain rfl := Option.some.inj h
      exact hs.2

/-- **The login screen.**  Privileges are those of a record that was just added, with its password. -/
theorem triple_authLoop (hs₀ : ∀ line ∈ s₀.input, line ∈ lines) (n : ℕ) :
    Triple (AtLogin env lines s₀) (authLoop env n)
      (fun r s => AtLogin env lines s₀ s ∧ ∀ authlevel, r = some authlevel → s.Vouched env lines authlevel)
      (Leads env lines s₀) := by
  have hI := closed_atLogin env hs₀
  induction n with
  | zero => exact triple_pure fun s hs => ⟨hs, fun _ h => absurd h (by simp)⟩
  | succ n ih =>
    refine triple_lines hI fun user _ => ?_
    have hname : ∀ user : Option CString, Steady (AtLogin env lines s₀) (Leads env lines s₀)
        (setClient fun c => { c with currentUser := user }) := fun user =>
      triple_update fun s hs => hI.step s _ hs (.name s user)
    refine triple_bind (hname _) fun _ => triple_lines hI fun pass hpass => ?_
    refine triple_bind (steady_send_open hI trivial) fun _ => ?_
    refine triple_bind (triple_authCheck hI _ hpass) fun data => ?_
    cases data with
    | none =>
      have hfailed : Steady (AtLogin env lines s₀) (Leads env lines s₀) (clientChangeState env .failed) :=
        steady_send_open hI trivial
      refine triple_bind (hfailed.mono (fun s hs => hs.1) (fun _ _ hs => hs) fun _ hs => hs) fun _ =>
        triple_bind (hname none) fun _ => ih
    | some data =>
      refine Triple.mono (triple_found hs₀ data) (fun s hs => ⟨hs.1, hs.2 data rfl⟩) (fun _ _ hs => hs)
        fun _ hs => hs

/-- Anywhere in a session in which the user has these rights. -/
def WithRights (env : ClientEnv σ) (lines : List CString) (s₀ : Session σ) (admin : Bool) (s : Session σ) : Prop :=
  Leads env lines s₀ s ∧ s.client.areAdmin = admin

theorem closed_withRights (env : ClientEnv σ) (hs₀ : ∀ line ∈ s₀.input, line ∈ lines) (admin : Bool) :
    Closed env lines (WithRights env lines s₀ admin) (Leads env lines s₀) :=
  closed_leads hs₀ fun _ _ hs h => h.areAdmin_eq.trans hs

/-- **A login.** -/
theorem triple_announce_leads (hs₀ : ∀ line ∈ s₀.input, line ∈ lines) (authlevel : ℤ) :
    Triple (fun s => AtLogin env lines s₀ s ∧ s.Vouched env lines authlevel) (announce env authlevel)
      (fun _ => WithRights env lines s₀ (authlevel == PRIV_ADMIN)) (Leads env lines s₀) := by
  have hI := closed_withRights env hs₀ (authlevel == PRIV_ADMIN)
  rw [announce]
  refine triple_of_forall fun s hs => ?_
  refine triple_bind (Q := fun _ s' => s' = { s with login := s.login + 1 }) (triple_update fun s' hs' => ?_)
    fun _ => ?_
  · rw [← hs']
  refine triple_bind (Q := fun _ => WithRights env lines s₀ (authlevel == PRIV_ADMIN))
    (triple_update fun s' hs' => ?_) fun _ => ?_
  · rw [hs']
    exact ⟨hs.1.1.tail (.login hs.2), rfl⟩
  refine triple_bind (steady_send_open hI trivial) fun _ => triple_bind (steady_ask _) fun user => ?_
  have hrest : Steady (WithRights env lines s₀ (authlevel == PRIV_ADMIN)) (Leads env lines s₀)
      (do clientChangeRoom env 0; clientLook env) :=
    steady_bind (steady_send_open hI trivial) fun _ => steady_look hI
  cases user with
  | none => exact triple_bind (steady_stop hI.stops) fun _ => hrest
  | some user => exact triple_bind (steady_send_open hI trivial) fun _ => hrest

/-- **Every session is a run of steps.** -/
theorem triple_main (hs₀ : ∀ line ∈ s₀.input, line ∈ lines) (n : ℕ) :
    Triple (Leads env lines s₀) (clientMain env n) (fun _ => Leads env lines s₀) (Leads env lines s₀) := by
  induction n with
  | zero => exact triple_stop fun _ hs => hs
  | succ n ih =>
    refine triple_bind (Q := fun _ => AtLogin env lines s₀)
      (triple_update fun s hs => ⟨hs.tail (.enter s .authenticating), rfl⟩) fun _ => ?_
    refine triple_bind (steady_send_open (closed_atLogin env hs₀) trivial) fun _ => ?_
    refine triple_bind (triple_authLoop hs₀ _) fun authlevel => ?_
    cases authlevel with
    | none => exact triple_pure fun s hs => hs.1.1
    | some authlevel =>
      dsimp only
      split
      · exact triple_pure fun s hs => hs.1.1
      · refine triple_bind ((triple_announce_leads hs₀ authlevel).mono (fun s hs => ⟨hs.1, hs.2 authlevel rfl⟩)
          (fun _ _ hs => hs) fun _ hs => hs) fun _ => ?_
        let I : Session σ → Prop := fun s => Leads env lines s₀ s ∧
          s.phase = .commands ∧ s.client.areAdmin = (authlevel == PRIV_ADMIN)
        have hI : Closed env lines I (Leads env lines s₀) := closed_leads hs₀ fun s s' hs h =>
          ⟨h.phase_eq.trans hs.1, h.areAdmin_eq.trans hs.2⟩
        refine triple_bind (Q := fun _ => I)
          (triple_update fun s hs => ⟨hs.1.tail (.enter s .commands), rfl, hs.2⟩) fun _ => ?_
        refine triple_bind (steady_loop hI (fun s hs => hs.2.1) (fun s hs => hs.2.2) n) fun res => ?_
        have hend : Triple I (setClient fun c => { c with currentUser := none }) (fun _ => Leads env lines s₀)
            (Leads env lines s₀) :=
          triple_update fun s hs => hs.1.tail (.inner (.name s none))
        cases res with
        | logout => exact ih.mono (fun s hs => hs.1) (fun _ _ hs => hs) fun _ hs => hs
        | ok => exact hend
        | quit => exact hend

/-- **Every session is a run of steps of the client.** -/
theorem leads_clientMain (env : ClientEnv σ) (server : ServerState σ) (lines : List CString) (n : ℕ) :
    Leads env lines (Session.start server lines) ((clientMain env n).final (Session.start server lines)) := by
  have htyped : ∀ line ∈ (Session.start server lines).input, line ∈ lines := fun _ h => h
  exact (triple_main htyped n).final .refl

end Session

end NetCosm
