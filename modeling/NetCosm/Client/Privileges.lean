import NetCosm.Client.Outcomes
import NetCosm.Client.Steps

/-!
# Who may do what

Only the clients look at privileges; the master does what it is asked.  A client has nothing to go by but the
record that it was given at the login, and `are_admin`, which outlives the session.

* `requests_authorized`: before every request of an administrator, and before every record of an administrator
  that is added, somebody has logged in with the password of an administrator.
* `no_escalation`: who does not know the password of an administrator does not become one, and leaves the
  master with nobody who has become one.

Both are about all that may be typed, and about all logins of a session.  They rest on what a single step does
to the requests that were made, and to the records on either side.
-/

namespace NetCosm

open Sessions

variable {σ : Type} {env : ClientEnv σ} {lines : List CString}

/-! ## Requests of administrators -/

/-- The login before this number of logins was that of an administrator, with the password. -/
def AdminLogin (env : ClientEnv σ) (lines : List CString) (calls : List Call) (login : ℕ) : Prop :=
  ∃ c ∈ calls, ∃ data : UserData, c.request = .addUserData data ∧ data.priv = PRIV_ADMIN ∧
    c.phase = .authenticating ∧ c.login + 1 = login ∧ data.OpenedBy env lines

/-- The call may be made after the calls before it. -/
structure Call.Authorized (env : ClientEnv σ) (lines : List CString) (before : List Call) (c : Call) : Prop where
  privileged : c.request.Privileged → c.phase = .commands ∧ AdminLogin env lines before c.login
  /-- The record of an administrator is added by one, or is that of a user who gave its password. -/
  grants : ∀ data, c.request = .addUserData data → data.priv = PRIV_ADMIN →
    AdminLogin env lines before c.login ∨
      c.client.returnedReqdata.priv = PRIV_ADMIN ∧ c.client.returnedReqdata.OpenedBy env lines

theorem AdminLogin.mono {calls calls' : List Call} {login : ℕ} (h : AdminLogin env lines calls login)
    (hsub : calls ⊆ calls') : AdminLogin env lines calls' login := by
  obtain ⟨c, hc, hdata⟩ := h
  exact ⟨c, hsub hc, hdata⟩

/-- Every call may be made after the calls before it, and `are_admin` is set by logins of administrators. -/
structure Session.Audited (env : ClientEnv σ) (lines : List CString) (s : Session σ) : Prop where
  calls : s.CallsObey (Call.Authorized env lines)
  admin : s.client.areAdmin = true → AdminLogin env lines s.calls s.login

/-- **What a step does to the calls.** -/
theorem Session.Audited.step {s s' : Session σ} (h : s.Audited env lines) (hstep : ClientStep env lines s s') :
    s'.Audited env lines := by
  cases hstep with
  | enter phase => exact ⟨h.calls, h.admin⟩
  | login hvouched =>
    refine ⟨h.calls, fun hadmin => ?_⟩
    obtain ⟨c, hc, data, hreq, hpriv, hphase, hlogin, hopened⟩ := hvouched
    exact ⟨c, hc, data, hreq, hpriv.trans (beq_iff_eq.mp hadmin), hphase, congrArg (· + 1) hlogin, hopened⟩
  | inner hinner =>
    cases hinner with
    | @send r hr =>
      have hsent := Session.sentFrom_sendMaster env s r
      refine ⟨h.calls.sent ⟨fun hpriv => ?_, fun data hdata hpriv => ?_⟩, fun hadmin => ?_⟩
      · obtain ⟨hphase, hadmin⟩ := hr.privileged hpriv
        exact ⟨hphase, h.admin hadmin⟩
      · rcases hr.grants data hdata with hadmin | ⟨heq, hopened⟩
        · exact .inl (h.admin hadmin)
        · exact .inr ⟨heq.symm.trans hpriv, hopened⟩
      · rw [sendMaster_areAdmin] at hadmin
        rw [hsent.calls, hsent.login]
        exact (h.admin hadmin).mono (List.subset_append_left _ _)
    | _ => exact ⟨h.calls, h.admin⟩

/-- **Before every request of an administrator somebody has logged in with the password of one.** -/
theorem requests_authorized (env : ClientEnv σ) (server : ServerState σ) (lines : List CString) (n : ℕ) :
    ((clientMain env n).final (Session.start server lines)).CallsObey (Call.Authorized env lines) := by
  have hstart : (Session.start server lines).Audited env lines :=
    ⟨fun i c hc => absurd hc (by simp [Session.start]), fun h => absurd h (by simp [Session.start, Client.init])⟩
  exact ((leads_clientMain env server lines n).keeps (fun _ _ h hstep => h.step hstep) hstart).calls

/-! ## Nobody becomes an administrator -/

/-- If the record is that of an administrator, then none of the lines is its password. -/
def UserData.Sealed (env : ClientEnv σ) (lines : List CString) (data : UserData) : Prop :=
  data.priv = PRIV_ADMIN → ¬ data.OpenedBy env lines

/-- All records of the master are sealed. -/
def ServerState.Sealed (env : ClientEnv σ) (lines : List CString) (s : ServerState σ) : Prop :=
  ∀ name data, s.users name = some data → data.Sealed env lines

/-- Neither the world nor the other clients make a record that is not sealed. -/
def ClientEnv.KeepsSealed (env : ClientEnv σ) (lines : List CString) : Prop :=
  ∀ sender r (s : ServerState σ) a, s.Sealed env lines → env.answer sender r s = .ok a →
    ∀ name data, a.users name = some data → data.Sealed env lines

/-- What the world does with a request. -/
theorem execWorld_seals {s s' : ServerState σ} {sender : ChildData} {r : Request} {packets : List Packet}
    (h : execWorld env s sender r = .ok (packets, s')) (hs : s.Sealed env lines) (henv : env.KeepsSealed lines) :
    s'.Sealed env lines ∧ ∀ data, .getUserData data ∈ packets → data.Sealed env lines := by
  obtain ⟨a, ha, h⟩ := bind_eq_ok h
  obtain ⟨m, -, h⟩ := bind_eq_ok h
  obtain ⟨rfl, rfl⟩ := Prod.mk.inj (Except.ok.inj h)
  exact ⟨henv sender r s a hs ha, fun data hdata => (a.notices _ hdata).elim⟩

/-- **A request seals what it makes**: only what the client adds is new, and only records of the master are
returned. -/
theorem handleRequest_seals {s s' : ServerState σ} {sender : ChildData} {r : Request} {packets : List Packet}
    (h : handleRequest env s sender r = .ok (packets, s')) (hs : s.Sealed env lines)
    (henv : env.KeepsSealed lines) (hadd : ∀ data, r = .addUserData data → data.Sealed env lines) :
    s'.Sealed env lines ∧ ∀ data, .getUserData data ∈ packets → data.Sealed env lines := by
  have hsame : ∀ {s' : ServerState σ} {packets : List Packet}, s'.users = s.users →
      (∀ data, Packet.getUserData data ∉ packets) →
      s'.Sealed env lines ∧ ∀ data, .getUserData data ∈ packets → data.Sealed env lines := by
    intro s' packets husers hpackets
    refine ⟨fun name data hdata => hs name data ?_, fun data hdata => absurd hdata (hpackets data)⟩
    rw [← husers]
    exact hdata
  cases r with
  | changeState state =>
    obtain ⟨rfl, rfl⟩ := Prod.mk.inj (Except.ok.inj h)
    exact hsame rfl fun _ => List.not_mem_nil
  | changeUser name =>
    obtain ⟨rfl, rfl⟩ := Prod.mk.inj (Except.ok.inj h)
    exact hsame rfl fun _ => List.not_mem_nil
  | setRoom id =>
    obtain ⟨m, -, h⟩ := bind_eq_ok h
    obtain ⟨rfl, rfl⟩ := Prod.mk.inj (Except.ok.inj h)
    exact hsame rfl fun _ => List.not_mem_nil
  | move dir =>
    obtain ⟨⟨msg, moved, m⟩, -, h⟩ := bind_eq_ok h
    obtain ⟨rfl, rfl⟩ := Prod.mk.inj (Except.ok.inj h)
    exact hsame rfl fun _ => by simp
  | getUserData name =>
    obtain ⟨rfl, rfl⟩ := Prod.mk.inj (Except.ok.inj h)
    refine ⟨hs, fun data hdata => ?_⟩
    rw [reqSendUser] at hdata
    split at hdata
    · rename_i user huser
      obtain rfl := Packet.getUserData.inj (List.mem_singleton.mp hdata)
      exact hs name data huser
    · exact absurd hdata List.not_mem_nil
  | delUserData name =>
    obtain ⟨rfl, rfl⟩ := Prod.mk.inj (Except.ok.inj h)
    refine ⟨fun name' data hdata => ?_, fun _ => by simp⟩
    have hdata : Function.update s.users name none name' = some data := hdata
    rw [Function.update_apply] at hdata
    split at hdata
    · exact absurd hdata (by simp)
    · exact hs name' data hdata
  | addUserData data =>
    obtain ⟨rfl, rfl⟩ := Prod.mk.inj (Except.ok.inj h)
    refine ⟨fun name' data' hdata => ?_, fun _ => by simp⟩
    have hdata : Function.update s.users data.name (some data) name' = some data' := hdata
    rw [Function.update_apply] at hdata
    split at hdata
    · obtain rfl := Option.some.inj hdata
      exact hadd data rfl
    · exact hs name' data' hdata
  | bcastMsg text | listClients | kick pid text | kickAll text | wait | getRoomDesc | getRoomName
  | lookAt name | printInventory | take name | drop name | listUsers | execVerb line =>
    exact execWorld_seals h hs henv

theorem handleChildReq_seals {s s' : ServerState σ} {r : Request} {packets : List Packet}
    (h : handleChildReq env s r = .ok (packets, s')) (hs : s.Sealed env lines) (henv : env.KeepsSealed lines)
    (hadd : ∀ data, r = .addUserData data → data.Sealed env lines) :
    s'.Sealed env lines ∧ ∀ data, .getUserData data ∈ packets → data.Sealed env lines := by
  rw [handleChildReq] at h
  split at h
  · obtain ⟨rfl, rfl⟩ := Prod.mk.inj (Except.ok.inj h)
    exact ⟨hs, fun _ hdata => absurd hdata List.not_mem_nil⟩
  · obtain ⟨⟨packets', s₁⟩, hr, heq⟩ := bind_eq_ok h
    obtain ⟨rfl, rfl⟩ := Prod.mk.inj (Except.ok.inj heq)
    obtain ⟨hsealed, hpackets⟩ := handleRequest_seals hr hs henv hadd
    refine ⟨hsealed, fun data hdata => hpackets data ?_⟩
    rcases List.mem_append.mp hdata with hdata | hdata
    · exact hdata
    · exact absurd (List.mem_singleton.mp hdata) (by simp)

/-- A packet leaves a sealed record in the variables of the client. -/
theorem receive_seals {c : Client} {p : Packet} (hc : c.returnedReqdata.Sealed env lines)
    (hp : ∀ data, p = .getUserData data → data.Sealed env lines) :
    (c.receive p).returnedReqdata.Sealed env lines := by
  cases p with
  | getUserData data => exact hp data rfl
  | _ => exact hc

/-- The session is that of somebody who is no administrator, and has no password of one. -/
structure Session.Sealed (env : ClientEnv σ) (lines : List CString) (s : Session σ) : Prop where
  server : s.server.Sealed env lines
  returned : s.client.returnedReqdata.Sealed env lines
  user : s.client.areAdmin = false
  calls : ∀ c ∈ s.calls, c.client.areAdmin = false ∧ ¬ c.request.Privileged ∧
    ∀ data, c.request = .addUserData data → data.priv ≠ PRIV_ADMIN

/-- **A request of somebody who is no administrator.** -/
theorem Session.Sealed.sent {s : Session σ} (h : s.Sealed env lines) (henv : env.KeepsSealed lines) {r : Request}
    (hr : s.Entitled env lines r) : ((sendMaster env r).final s).Sealed env lines := by
  have hsent := Session.sentFrom_sendMaster env s r
  have hadd : ∀ data, r = .addUserData data → data.priv ≠ PRIV_ADMIN := by
    intro data hdata hpriv
    rcases hr.grants data hdata with hadmin | ⟨heq, hopened⟩
    · exact absurd (h.user.symm.trans hadmin) (by simp)
    · exact h.returned (heq.symm.trans hpriv) hopened
  have hseals : ∀ {packets server}, handleChildReq env s.server r = .ok (packets, server) → _ := fun hreq =>
    handleChildReq_seals hreq h.server henv fun data hdata hpriv => absurd hpriv (hadd data hdata)
  refine ⟨?_, ?_, (sendMaster_areAdmin s r).trans h.user, ?_⟩
  · rcases hsent.server with hserver | ⟨packets, hreq⟩
    · rw [hserver]
      exact h.server
    · exact (hseals hreq).1
  · refine Session.sendMaster_client (P := fun c => c.returnedReqdata.Sealed env lines) ?_
      fun packets server hreq p hp c hc => receive_seals hc fun data hdata => (hseals hreq).2 data (hdata ▸ hp)
    rw [(rateLimit_answer ..).2]
    exact h.returned
  · rw [hsent.calls, List.forall_mem_append, List.forall_mem_singleton]
    exact ⟨h.calls, h.user, fun hpriv => absurd (h.user.symm.trans (hr.privileged hpriv).2) (by simp), hadd⟩

/-- **What a step does to the records.** -/
theorem Session.Sealed.step {s s' : Session σ} (h : s.Sealed env lines) (henv : env.KeepsSealed lines)
    (hstep : ClientStep env lines s s') : s'.Sealed env lines := by
  cases hstep with
  | enter phase => exact ⟨h.server, h.returned, h.user, h.calls⟩
  | login hvouched =>
    -- the record of the login is not that of an administrator
    obtain ⟨c, hc, data, hreq, rfl, -⟩ := hvouched
    exact ⟨h.server, h.returned, beq_eq_false_iff_ne.mpr ((h.calls c hc).2.2 data hreq), h.calls⟩
  | inner hinner =>
    cases hinner with
    | send hr => exact h.sent henv hr
    | stamp lastLogin => exact ⟨h.server, h.returned, h.user, h.calls⟩
    | _ => exact ⟨h.server, h.returned, h.user, h.calls⟩

/-- **Who has no password of an administrator does not become one**, and makes nobody one. -/
theorem no_escalation {server : ServerState σ} (hserver : server.Sealed env lines)
    (henv : env.KeepsSealed lines) (n : ℕ) :
    ((clientMain env n).final (Session.start server lines)).Sealed env lines := by
  refine (leads_clientMain env server lines n).keeps (fun _ _ h hstep => h.step henv hstep) ⟨hserver, ?_, rfl, ?_⟩
  · exact fun hpriv => absurd hpriv (by decide : UserData.zero.priv ≠ PRIV_ADMIN)
  · exact fun c hc => absurd hc List.not_mem_nil

/-- The master of the user `a`, and of an administrator `b` whose digest is that of no password. -/
def wardedServer : ServerState Unit where
  master := sampleServer.master
  users name :=
    if name = letter 97 then some (sampleUser name)
    else if name = letter 98 then
      some { sampleUser name with priv := PRIV_ADMIN, passhash := List.replicate (AUTH_HASHLEN * 2 + 1) 0 }
    else none
  world := ()

/-- The user `a` logs in, asks for all users, and changes the password. -/
def curiousLines : List CString :=
  [letter 97, letter 112, .ofChars "user list".toList, .ofChars "chpass".toList, letter 112, letter 113, letter 113]

theorem sealed_wardedServer (clock : ℕ → ℤ) : wardedServer.Sealed (sampleEnv clock) curiousLines := by
  intro name data hdata hpriv
  have hdata : (if name = letter 97 then some (sampleUser name)
    else if name = letter 98 then
      some { sampleUser name with priv := PRIV_ADMIN, passhash := List.replicate (AUTH_HASHLEN * 2 + 1) 0 }
    else none) = some data := hdata
  split at hdata
  · obtain rfl := Option.some.inj hdata
    exact absurd hpriv (by decide : PRIV_USER ≠ PRIV_ADMIN)
  · split at hdata
    · obtain rfl := Option.some.inj hdata
      rintro ⟨line, hline, hmatch⟩
      have hnone : ∀ line ∈ curiousLines, (hashPassHex (sampleEnv 0) (removeCruft line)
          (List.replicate SALT_LEN 65 ++ [0])).take AUTH_HASHLEN ≠ List.replicate AUTH_HASHLEN 0 := by
        decide +kernel
      exact hnone line hline ((beq_iff_eq.mp hmatch).trans (by rfl))
    · exact absurd hdata (by simp)

theorem keepsSealed_sampleEnv (clock : ℕ → ℤ) (lines : List CString) :
    (sampleEnv clock).KeepsSealed lines := by
  intro _ _ _ a hs ha
  obtain rfl := Except.ok.inj ha
  exact hs

/-- The user `a` logs in, and stays a user. -/
theorem user_stays_user :
    let s := (clientMain (sampleEnv fun k => k) 4).final (Session.start wardedServer curiousLines)
    (s.login = 1 ∧ s.phase = .commands) ∧ s.Sealed (sampleEnv fun k => k) curiousLines :=
  ⟨by decide +kernel, no_escalation (sealed_wardedServer _) (keepsSealed_sampleEnv _ _) 4⟩

end NetCosm
