import NetCosm.Client.Identity

/-!
# What a client is told about its requests

The answer to a request is left in two variables of the process, `reqdata_type` and
`returned_reqdata`, which every request shares.  A request that the limiter drops leaves them
as they are, and so does the request for a record that is not there, which is answered
without a packet.  Whoever reads them afterwards reads the answer to an earlier request.

`sendMaster_ends` says what a call of `send_master` that returns has done to the variables: it
was dropped and they are unchanged, or they are what `readPackets` makes of the packets of the
master.  From there each function that reads an answer is looked at from an arbitrary state,
so whatever history led to that state is covered.

* `outcomes_reported_iff`: when a move, an addition, a removal and a new password are reported
  only if they happened.
* `authCheck_answers_iff`: when a login is answered with the record of the name it asked for.
-/

namespace NetCosm

open Sessions

variable {σ : Type} {env : ClientEnv σ}

/-! ## The variables -/

/-- The variables after the packets of one answer, if the client is still there to read
them. -/
def Client.readPackets (c : Client) : List Packet → Option Client
  | [] | .kick _ :: _ => none
  | .allDone :: _ => some c
  | p :: packets => (c.receive p).readPackets packets

@[simp] theorem Client.boolean_setBoolean (c : Client) (b : Bool) :
    (c.setBoolean b).boolean = b := by
  cases b <;> rfl

/-- The limiter leaves the answer alone. -/
theorem rateLimit_answer (c : Client) (now : ℤ) :
    (c.rateLimit now).2.reqdataType = c.reqdataType ∧
      (c.rateLimit now).2.returnedReqdata = c.returnedReqdata := by
  rw [Client.rateLimit]
  split
  · exact ⟨rfl, rfl⟩
  · dsimp only
    split <;> exact ⟨rfl, rfl⟩

theorem rateLimit_boolean (c : Client) (now : ℤ) : (c.rateLimit now).2.boolean = c.boolean := by
  rw [Client.boolean, (rateLimit_answer c now).2]
  rfl

/-- Packets that are read to the end of the answer leave what they say in the variables. -/
theorem pollRequests_ends {packets : List Packet} {s s' : Session σ}
    (h : pollRequests packets s = (some (), s')) :
    s'.server = s.server ∧ s.client.readPackets packets = some s'.client := by
  induction packets generalizing s with
  | nil => exact absurd (congrArg Prod.fst h) (by simp [pollRequests, stop])
  | cons p packets ih =>
    cases p with
    | kick text => exact absurd (congrArg Prod.fst h) (by simp [pollRequests, stop])
    | allDone =>
      obtain rfl : s = s' := congrArg Prod.snd h
      exact ⟨rfl, rfl⟩
    | _ => exact ih h

namespace Session

/-- The limiter let the request through, and the master has handled it. -/
def Handled (env : ClientEnv σ) (r : Request) (s s' : Session σ) : Prop :=
  (s.call env r).exceeded = false ∧
    ∃ packets, handleChildReq env s.server r = .ok (packets, s'.server)

/-- The session after a request that was dropped. -/
def dropped (env : ClientEnv σ) (r : Request) (s : Session σ) : Session σ :=
  (limitRequest env r s).2

@[simp] theorem server_dropped (r : Request) (s : Session σ) :
    (s.dropped env r).server = s.server := rfl

@[simp] theorem boolean_dropped (r : Request) (s : Session σ) :
    (s.dropped env r).client.boolean = s.client.boolean := rateLimit_boolean ..

@[simp] theorem reqdataType_dropped (r : Request) (s : Session σ) :
    (s.dropped env r).client.reqdataType = s.client.reqdataType := (rateLimit_answer ..).1

@[simp] theorem returnedReqdata_dropped (r : Request) (s : Session σ) :
    (s.dropped env r).client.returnedReqdata = s.client.returnedReqdata := (rateLimit_answer ..).2

end Session

open Session

/-- A request the limiter drops is reported as done. -/
theorem sendMaster_of_exceeded {r : Request} {s : Session σ}
    (h : (s.call env r).exceeded = true) :
    sendMaster env r s = (some (), s.dropped env r) := by
  have hlimit : limitRequest env r s = (some true, s.dropped env r) :=
    Prod.ext (congrArg some h) rfl
  rw [sendMaster, bind_of_some hlimit, if_pos rfl]
  rfl

/-- **What a call of `send_master` that returns has done.** -/
theorem sendMaster_ends {r : Request} {s s' : Session σ}
    (h : sendMaster env r s = (some (), s')) :
    ((s.call env r).exceeded = true ∧ s' = s.dropped env r) ∨
      ((s.call env r).exceeded = false ∧ ∃ packets,
        handleChildReq env s.server r = .ok (packets, s'.server) ∧
        (s.client.rateLimit (env.clock s.tick)).2.readPackets packets = some s'.client) := by
  cases hexceeded : (s.call env r).exceeded with
  | true =>
    rw [sendMaster_of_exceeded hexceeded] at h
    exact Or.inl ⟨rfl, (congrArg Prod.snd h).symm⟩
  | false =>
    have hlimit : limitRequest env r s = (some false, s.dropped env r) :=
      Prod.ext (congrArg some hexceeded) rfl
    rw [sendMaster, bind_of_some hlimit, if_neg (by simp)] at h
    obtain ⟨packets, s₂, hwrite, hpoll⟩ := bind_ends h
    obtain ⟨hserver, hclient⟩ := pollRequests_ends hpoll
    refine Or.inr ⟨rfl, packets, ?_⟩
    unfold writeRequest at hwrite
    rw [server_dropped] at hwrite
    cases hreq : handleChildReq env s.server r with
    | error e =>
      rw [hreq] at hwrite
      exact absurd (congrArg Prod.fst hwrite) (by simp)
    | ok res =>
      rw [hreq] at hwrite
      obtain ⟨hpackets, hs₂⟩ := Prod.mk.inj hwrite
      obtain rfl := Option.some.inj hpackets
      rw [hserver, ← hs₂]
      rw [← hs₂] at hclient
      exact ⟨rfl, hclient⟩

theorem pollRequests_of_readPackets {packets : List Packet} {s : Session σ} {c : Client}
    (h : s.client.readPackets packets = some c) :
    pollRequests packets s = (some (), { s with client := c }) := by
  induction packets generalizing s with
  | nil => exact absurd h (by simp [Client.readPackets])
  | cons p packets ih =>
    cases p with
    | kick text => exact absurd h (by simp [Client.readPackets])
    | allDone =>
      obtain rfl := Option.some.inj h
      rfl
    | _ => exact ih (s := { s with client := s.client.receive _ }) h

/-- A request that is handled, and answered to the end, is over. -/
theorem sendMaster_of_handled {r : Request} {s : Session σ} {server : ServerState σ}
    {packets : List Packet} {c : Client} (hpass : (s.call env r).exceeded = false)
    (hreq : handleChildReq env s.server r = .ok (packets, server))
    (hread : (s.client.rateLimit (env.clock s.tick)).2.readPackets packets = some c) :
    ∃ s', sendMaster env r s = (some (), s') ∧ s'.server = server ∧ s'.client = c := by
  have hlimit : limitRequest env r s = (some false, s.dropped env r) :=
    Prod.ext (congrArg some hpass) rfl
  have hwrite : ∃ s₂, writeRequest env r (s.dropped env r) = (some packets, s₂) ∧
      s₂.server = server ∧ s₂.client = (s.client.rateLimit (env.clock s.tick)).2 := by
    unfold writeRequest
    rw [server_dropped, hreq]
    exact ⟨_, rfl, rfl, rfl⟩
  obtain ⟨s₂, hrun, hserver, hclient⟩ := hwrite
  refine ⟨{ s₂ with client := c }, ?_, hserver, rfl⟩
  rw [sendMaster, bind_of_some hlimit, if_neg (by simp), bind_of_some hrun]
  exact pollRequests_of_readPackets (hclient ▸ hread)

/-- A function that sends a request and reads the answer has read what `send_master` left. -/
theorem ask_ends {α : Type} {r : Request} {f : Session σ → α} {a : α} {s s' : Session σ}
    (h : (sendMaster env r >>= fun _ => ask f) s = (some a, s')) :
    sendMaster env r s = (some (), s') ∧ f s' = a := by
  obtain ⟨u, s₁, hsend, hask⟩ := bind_ends h
  obtain ⟨ha, rfl⟩ := Prod.mk.inj hask
  exact ⟨hsend, Option.some.inj ha⟩

/-- If the request was dropped, it has read the answer to an earlier one. -/
theorem ask_of_exceeded {α : Type} {r : Request} {s : Session σ} (f : Session σ → α)
    (h : (s.call env r).exceeded = true) :
    (sendMaster env r >>= fun _ => ask f) s = (some (f (s.dropped env r)), s.dropped env r) := by
  rw [bind_of_some (sendMaster_of_exceeded h)]
  rfl

/-- A request that is handled comes from a client in the table, and its answer ends the way
every answer does. -/
theorem handleChildReq_ok {r : Request} {s s' : ServerState σ} {packets : List Packet} {c c' : Client}
    (h : handleChildReq env s r = .ok (packets, s')) (hread : c.readPackets packets = some c') :
    ∃ sender packets', s.master.child env.asserts env.pid = some sender ∧
      handleRequest env s sender r = .ok (packets', s') ∧ packets = packets' ++ [.allDone] := by
  cases hc : s.master.child env.asserts env.pid with
  | none =>
    rw [handleChildReq, hc] at h
    obtain ⟨rfl, -⟩ := Prod.mk.inj (Except.ok.inj h)
    exact absurd hread (by simp [Client.readPackets])
  | some sender =>
    simp only [handleChildReq, hc] at h
    obtain ⟨⟨packets', s₁⟩, hr, heq⟩ := bind_eq_ok h
    obtain ⟨rfl, rfl⟩ := Prod.mk.inj (Except.ok.inj heq)
    exact ⟨sender, packets', rfl, hr, rfl⟩

/-! ## Moves, additions and removals -/

/-- A move that is reported was made, by this request. -/
def MoveReported (env : ClientEnv σ) (s : Session σ) (dir : CString) : Prop :=
  ∀ s', clientMove env dir s = (some true, s') →
    ∃ val sender msg, dirs.lookup dir = some val ∧ s.Handled env (.move val) s' ∧
      s.server.master.child env.asserts env.pid = some sender ∧
      reqMoveRoom env.asserts s.server.master sender val = .ok (msg, true, s'.server.master)

/-- An addition that is reported was made, by this request. -/
def AddReported (env : ClientEnv σ) (s : Session σ) (data : UserData) : Prop :=
  ∀ s', userdbRequestAdd env data s = (some true, s') →
    s.Handled env (.addUserData data) s' ∧ s'.server.users data.name = some data

/-- A removal that is reported was made, by this request. -/
def RemoveReported (env : ClientEnv σ) (s : Session σ) (name : CString) : Prop :=
  ∀ s', userdbRequestRemove env name s = (some true, s') →
    s.Handled env (.delUserData name) s' ∧ (s.server.users name).isSome ∧
      s'.server.users name = none

theorem addReported_iff (s : Session σ) (data : UserData) :
    AddReported env s data ↔
      ¬ ((s.call env (.addUserData data)).exceeded = true ∧ s.client.boolean = true) := by
  constructor
  · rintro h ⟨hexceeded, hstale⟩
    have hrun : userdbRequestAdd env data s = (some true, s.dropped env (.addUserData data)) := by
      rw [userdbRequestAdd, ask_of_exceeded _ hexceeded, boolean_dropped, hstale]
    exact absurd (hexceeded.symm.trans (h _ hrun).1.1) (by simp)
  · intro h s' hrun
    obtain ⟨hsend, hans⟩ := ask_ends hrun
    rcases sendMaster_ends hsend with ⟨hexceeded, rfl⟩ | ⟨hpass, packets, hreq, hread⟩
    · exact absurd ⟨hexceeded, (boolean_dropped ..).symm.trans hans⟩ h
    · refine ⟨⟨hpass, packets, hreq⟩, ?_⟩
      obtain ⟨sender, packets', -, hr, -⟩ := handleChildReq_ok hreq hread
      obtain ⟨-, hserver⟩ := Prod.mk.inj (Except.ok.inj hr)
      rw [← hserver]
      exact Function.update_self ..

theorem removeReported_iff (s : Session σ) (name : CString) :
    RemoveReported env s name ↔
      ¬ ((s.call env (.delUserData name)).exceeded = true ∧ s.client.boolean = true) := by
  constructor
  · rintro h ⟨hexceeded, hstale⟩
    have hrun : userdbRequestRemove env name s =
        (some true, s.dropped env (.delUserData name)) := by
      rw [userdbRequestRemove, ask_of_exceeded _ hexceeded, boolean_dropped, hstale]
    exact absurd (hexceeded.symm.trans (h _ hrun).1.1) (by simp)
  · intro h s' hrun
    obtain ⟨hsend, hans⟩ := ask_ends hrun
    rcases sendMaster_ends hsend with ⟨hexceeded, rfl⟩ | ⟨hpass, packets, hreq, hread⟩
    · exact absurd ⟨hexceeded, (boolean_dropped ..).symm.trans hans⟩ h
    · refine ⟨⟨hpass, packets, hreq⟩, ?_⟩
      obtain ⟨sender, packets', -, hr, rfl⟩ := handleChildReq_ok hreq hread
      obtain ⟨rfl, hserver⟩ := Prod.mk.inj (Except.ok.inj hr)
      have hclient : s'.client.boolean = (s.server.users name).isSome := by
        rw [← Option.some.inj hread]
        exact Client.boolean_setBoolean ..
      refine ⟨hclient.symm.trans hans, ?_⟩
      rw [← hserver]
      exact Function.update_self ..

/-- The status of a move is the last packet but one, and it is what the client reads. -/
theorem boolean_readPackets_move {c c' : Client} {msg : Option String} {moved : Bool}
    (h : c.readPackets ((msg.toList.map fun m => .bcastMsg (CString.ofChars m.toList)) ++
      [.move (if moved then 1 else 0)] ++ [.allDone]) = some c') : c'.boolean = moved := by
  have hstatus : ((if moved then 1 else 0 : ℤ) == 1) = moved := by cases moved <;> rfl
  cases msg with
  | none =>
    rw [← Option.some.inj h]
    exact (Client.boolean_setBoolean ..).trans hstatus
  | some msg =>
    rw [← Option.some.inj h]
    exact (Client.boolean_setBoolean ..).trans hstatus

theorem moveReported_iff (s : Session σ) (dir : CString) :
    MoveReported env s dir ↔
      ¬ ∃ val, dirs.lookup dir = some val ∧ (s.call env (.move val)).exceeded = true ∧
        s.client.reqdataType = .boolean ∧ s.client.boolean = true := by
  cases hdir : dirs.lookup dir with
  | none =>
    refine iff_of_true (fun s' hrun => ?_) (by simp)
    rw [clientMove, hdir] at hrun
    exact absurd (congrArg Prod.fst hrun) (by simp [pure])
  | some val =>
    have hmove : clientMove env dir = (sendMaster env (.move val) >>= fun _ =>
        ask fun s => s.client.reqdataType == .boolean && s.client.boolean) := by
      rw [clientMove, hdir]
    constructor
    · rintro h ⟨val', hval, hexceeded, htype, hstale⟩
      obtain rfl := Option.some.inj hval
      have hrun : clientMove env dir s = (some true, s.dropped env (.move val)) := by
        rw [hmove, ask_of_exceeded _ hexceeded, boolean_dropped, reqdataType_dropped, htype,
          hstale]
        rfl
      obtain ⟨val', -, -, hval, hhandled, -⟩ := h _ hrun
      obtain rfl := Option.some.inj (hdir.symm.trans hval)
      exact absurd (hexceeded.symm.trans hhandled.1) (by simp)
    · intro h s' hrun
      rw [hmove] at hrun
      obtain ⟨hsend, hans⟩ := ask_ends hrun
      obtain ⟨htype, hbool⟩ := (Bool.and_eq_true _ _).mp hans
      rcases sendMaster_ends hsend with ⟨hexceeded, rfl⟩ | ⟨hpass, packets, hreq, hread⟩
      · rw [boolean_dropped] at hbool
        rw [reqdataType_dropped] at htype
        exact absurd ⟨val, rfl, hexceeded, eq_of_beq htype, hbool⟩ h
      · obtain ⟨sender, packets', hc, hr, rfl⟩ := handleChildReq_ok hreq hread
        obtain ⟨⟨msg, moved, m⟩, hm, hr⟩ := bind_eq_ok hr
        obtain ⟨rfl, hserver⟩ := Prod.mk.inj (Except.ok.inj hr)
        obtain rfl : moved = true := (boolean_readPackets_move hread).symm.trans hbool
        refine ⟨val, sender, msg, hdir, ⟨hpass, _, hreq⟩, hc, ?_⟩
        rw [hm, ← hserver]

/-! ## New passwords -/

/-- The salt `add_user_internal` makes. -/
def Session.newSalt (env : ClientEnv σ) (s : Session σ) : List UInt8 :=
  (List.range SALT_LEN).map fun i => (65 + env.rand (s.dice + i) % 26).toUInt8

/-- The record `add_user_internal` makes. -/
def Session.newRecord (env : ClientEnv σ) (s : Session σ) (name pass : CString)
    (authlevel : ℤ) : UserData where
  username := strncpy (MAX_NAME_LEN + 1) name
  salt := s.newSalt env ++ [0]
  passhash := hashPassHex env pass (s.newSalt env) ++ [0]
  priv := authlevel
  lastLogin := env.clock s.tick
  userdata := none

/-- The session when the record is made. -/
def Session.hashed (s : Session σ) : Session σ :=
  { s with dice := s.dice + SALT_LEN, tick := s.tick + 1 }

theorem randSalt_eq (n : ℕ) (s : Session σ) :
    randSalt env n s =
      (some ((List.range n).map fun i => (65 + env.rand (s.dice + i) % 26).toUInt8),
        { s with dice := s.dice + n }) := by
  induction n generalizing s with
  | zero => rfl
  | succ n ih =>
    have hrand : rand env s = (some (env.rand s.dice), { s with dice := s.dice + 1 }) := rfl
    rw [randSalt, bind_of_some hrand, bind_of_some (ih _), List.range_succ_eq_map, List.map_cons,
      List.map_map]
    refine Prod.ext (congrArg some (congrArg₂ _ rfl ?_)) (congrArg (fun d => { s with dice := d }) ?_)
    · refine List.map_congr_left fun i _ => ?_
      show _ = (65 + env.rand (s.dice + (i + 1)) % 26).toUInt8
      rw [Nat.add_assoc, Nat.add_comm 1 i]
    · show s.dice + 1 + n = s.dice + (n + 1)
      omega

/-- What `auth_user_add` does under a valid name. -/
theorem authUserAdd_eq {user pass : CString} {level : ℤ} (s : Session σ)
    (h : validLoginName (removeCruft user) = true) :
    authUserAdd env user pass level s =
      (userdbRequestAdd env (s.newRecord env (removeCruft user) (removeCruft pass) level) >>=
        fun _ => pure true) s.hashed := by
  have htime : time env { s with dice := s.dice + SALT_LEN } =
      (some (env.clock s.tick), s.hashed) := rfl
  rw [authUserAdd, if_pos h, addUserInternal]
  cases hadd : userdbRequestAdd env
      (s.newRecord env (removeCruft user) (removeCruft pass) level) s.hashed with
  | mk r s' =>
    have hinner : (randSalt env SALT_LEN >>= fun salt => time env >>= fun lastLogin =>
        userdbRequestAdd env
          { username := strncpy (MAX_NAME_LEN + 1) (removeCruft user)
            salt := salt ++ [0]
            passhash := hashPassHex env (removeCruft pass) salt ++ [0]
            priv := level
            lastLogin := lastLogin
            userdata := none } >>= fun _ => pure ()) s = (r.map fun _ => (), s') := by
      rw [bind_of_some (randSalt_eq SALT_LEN s), bind_of_some htime]
      cases r with
      | none => exact bind_of_none hadd
      | some a => exact (bind_of_some hadd).trans rfl
    cases r with
    | none => rw [bind_of_none hinner, bind_of_none hadd]
    | some a => rw [bind_of_some hinner, bind_of_some hadd]

/-- A string is read back from an array it has been copied to. -/
theorem ofBuffer_strncpy {n : ℕ} {s : CString} (h : s.length < n) :
    CString.ofBuffer (strncpy n s) = s := by
  have hcopy : strncpy n s = s.bytes ++ List.replicate (n - s.length) 0 := by
    rw [strncpy, List.take_append, List.take_of_length_le (Nat.le_of_lt h), List.take_replicate]
    congr 2
    rw [CString.length] at h ⊢
    omega
  obtain ⟨k, hk⟩ : ∃ k, n - s.length = k + 1 := ⟨n - s.length - 1, by omega⟩
  refine CString.ext ?_
  show (strncpy n s).takeWhile (· != 0) = s.bytes
  rw [hcopy, hk, List.replicate_succ, List.takeWhile_append_of_pos, List.takeWhile_cons_of_neg]
  · exact List.append_nil _
  · simp
  · intro c hc
    exact bne_iff_ne.mpr fun h0 => s.2 (h0 ▸ hc : (0 : UInt8) ∈ s.bytes)

theorem name_newRecord {s : Session σ} {user pass : CString} {level : ℤ}
    (h : validLoginName user = true) : (s.newRecord env user pass level).name = user := by
  have hlen := of_decide_eq_true ((Bool.and_eq_true _ _).mp h).1
  exact ofBuffer_strncpy (Nat.lt_succ_of_le hlen)

/-- A new password that is reported is in the database: the record of the user has the hash
that was made for it. -/
def PasswordReported (env : ClientEnv σ) (s : Session σ) (user pass : CString) (level : ℤ) :
    Prop :=
  ∀ s', authUserAdd env user pass level s = (some true, s') →
    ∃ data, s'.server.users (removeCruft user) = some data ∧
      data.passhash = (s.newRecord env (removeCruft user) (removeCruft pass) level).passhash

theorem passwordReported_iff (s : Session σ) (user pass : CString) (level : ℤ) :
    PasswordReported env s user pass level ↔
      (validLoginName (removeCruft user) = true →
        (s.hashed.call env (.addUserData
          (s.newRecord env (removeCruft user) (removeCruft pass) level))).exceeded = true →
        ∃ data, s.server.users (removeCruft user) = some data ∧
          data.passhash =
            (s.newRecord env (removeCruft user) (removeCruft pass) level).passhash) := by
  constructor
  · intro h hvalid hexceeded
    refine h (s.hashed.dropped env (.addUserData
      (s.newRecord env (removeCruft user) (removeCruft pass) level))) ?_
    rw [authUserAdd_eq s hvalid, userdbRequestAdd,
      bind_of_some (ask_of_exceeded _ hexceeded)]
    rfl
  · intro h s' hrun
    by_cases hvalid : validLoginName (removeCruft user) = true
    · rw [authUserAdd_eq s hvalid] at hrun
      obtain ⟨b, s₁, hadd, hpure⟩ := bind_ends hrun
      obtain rfl : s₁ = s' := congrArg Prod.snd hpure
      obtain ⟨hsend, -⟩ := ask_ends hadd
      rcases sendMaster_ends hsend with ⟨hexceeded, rfl⟩ | ⟨-, packets, hreq, hread⟩
      · exact h hvalid hexceeded
      · obtain ⟨sender, packets', -, hr, -⟩ := handleChildReq_ok hreq hread
        obtain ⟨-, hserver⟩ := Prod.mk.inj (Except.ok.inj hr)
        refine ⟨_, ?_, rfl⟩
        rw [← hserver]
        show Function.update s.hashed.server.users _ _ _ = _
        rw [name_newRecord hvalid]
        exact Function.update_self ..
    · rw [authUserAdd, if_neg hvalid] at hrun
      exact absurd (congrArg Prod.fst hrun) (by simp [pure])

/-- **When what a client is told is true.**  In whatever state its process and the master are,
a move, an addition and a removal are reported only if the master has made them for this very
request, exactly when the limiter lets the request through or the answer left over from
earlier requests is no success.  A new password is reported only if the master has it,
exactly when the limiter lets the request through or the master has that very hash before. -/
theorem outcomes_reported_iff (env : ClientEnv σ) (s : Session σ) :
    (∀ dir, MoveReported env s dir ↔
        ¬ ∃ val, dirs.lookup dir = some val ∧ (s.call env (.move val)).exceeded = true ∧
          s.client.reqdataType = .boolean ∧ s.client.boolean = true) ∧
      (∀ data, AddReported env s data ↔
        ¬ ((s.call env (.addUserData data)).exceeded = true ∧ s.client.boolean = true)) ∧
      (∀ name, RemoveReported env s name ↔
        ¬ ((s.call env (.delUserData name)).exceeded = true ∧ s.client.boolean = true)) ∧
      ∀ user pass level, PasswordReported env s user pass level ↔
        (validLoginName (removeCruft user) = true →
          (s.hashed.call env (.addUserData
            (s.newRecord env (removeCruft user) (removeCruft pass) level))).exceeded = true →
          ∃ data, s.server.users (removeCruft user) = some data ∧
            data.passhash =
              (s.newRecord env (removeCruft user) (removeCruft pass) level).passhash) :=
  ⟨moveReported_iff s, addReported_iff s, removeReported_iff s, passwordReported_iff s⟩

/-- A session in which a record was added, and ten more requests were made within the same
second. -/
def sampleAdded : Session Unit :=
  ((do
    let _ ← userdbRequestAdd (sampleEnv fun _ => 1) (sampleUser (letter 97))
    let _ ← (List.range 10).mapM fun _ => clientInventory (sampleEnv fun _ => 1)
    pure ()) : ClientM Unit Unit).final (Session.start sampleServer [])

/-- **A removal that is only said to have been made.**  There never was a user `z`. -/
theorem removal_reported_in_vain :
    sampleAdded.server.users (letter 122) = none ∧
      (userdbRequestRemove (sampleEnv fun _ => 1) (letter 122) sampleAdded).1 = some true ∧
      ¬ RemoveReported (sampleEnv fun _ => 1) sampleAdded (letter 122) := by
  have hnone : sampleAdded.server.users (letter 122) = none := by decide +kernel
  have htrue : (userdbRequestRemove (sampleEnv fun _ => 1) (letter 122) sampleAdded).1 =
      some true := by decide +kernel
  refine ⟨hnone, htrue, fun h => ?_⟩
  obtain ⟨-, hsome, -⟩ := h _ (eq_of_fst htrue)
  exact absurd hsome (by rw [hnone]; simp)

/-! ## Logins -/

/-- A login that is answered with a record is answered with the one the database has for the
name, and with none if there is none. -/
def LoginAnswered (env : ClientEnv σ) (s : Session σ) (name pass : CString) : Prop :=
  ∀ s' data, authCheck env name pass s = (some (some data), s') →
    s.Handled env (.getUserData (removeCruft name)) s' ∧
      s.server.users (removeCruft name) = some data

/-- What `auth_check` returns once `send_master` has. -/
theorem authCheck_of_sendMaster {s s' : Session σ} {name : CString} (pass : CString)
    (h : sendMaster env (.getUserData (removeCruft name)) s = (some (), s'))
    (htype : s'.client.reqdataType = .userdata)
    (hpass : passMatches env (removeCruft pass) s'.client.returnedReqdata = true) :
    authCheck env name pass s = (some (some s'.client.returnedReqdata), s') := by
  have hlookup : userdbRequestLookup env (removeCruft name) s =
      (some (some s'.client.returnedReqdata), s') := by
    rw [userdbRequestLookup, bind_of_some h]
    exact Prod.ext (congrArg some (if_pos htype)) rfl
  rw [authCheck, bind_of_some hlookup]
  refine Prod.ext (congrArg some ?_) rfl
  rw [Option.filter_some, if_pos hpass]

/-- What has happened when `auth_check` returns a record. -/
theorem authCheck_ends {s s' : Session σ} {name pass : CString} {data : UserData}
    (h : authCheck env name pass s = (some (some data), s')) :
    sendMaster env (.getUserData (removeCruft name)) s = (some (), s') ∧
      s'.client.reqdataType = .userdata ∧ s'.client.returnedReqdata = data ∧
      passMatches env (removeCruft pass) data = true := by
  obtain ⟨found, s₁, hlookup, hpure⟩ := bind_ends h
  obtain ⟨hfound, rfl⟩ := Prod.mk.inj hpure
  obtain ⟨hsend, hans⟩ := ask_ends hlookup
  obtain ⟨rfl, hpass⟩ := Option.filter_eq_some_iff.mp (Option.some.inj hfound)
  by_cases htype : s₁.client.reqdataType = .userdata
  · rw [if_pos htype] at hans
    exact ⟨hsend, htype, Option.some.inj hans, hpass⟩
  · rw [if_neg htype] at hans
    exact absurd hans (by simp)

/-- **When a login is answered for the name asked for.**  In whatever state the process and the
master are, `auth_check` returns only the record the master has for the name, exactly when
this holds: if the limiter drops the request, or the master has no record for the name, then
the record left over from earlier requests, if the last answer was one, does not go with the
password. -/
theorem authCheck_answers_iff (env : ClientEnv σ) (s : Session σ) (name pass : CString) :
    LoginAnswered env s name pass ↔
      ((s.call env (.getUserData (removeCruft name))).exceeded = true ∨
          s.server.users (removeCruft name) = none ∧
            (s.server.master.child env.asserts env.pid).isSome →
        s.client.reqdataType = .userdata →
          passMatches env (removeCruft pass) s.client.returnedReqdata = false) := by
  constructor
  · intro h hstale htype
    by_contra hpass
    have hpass' : passMatches env (removeCruft pass) s.client.returnedReqdata = true :=
      Bool.eq_true_of_not_eq_false hpass
    cases hexceeded : (s.call env (.getUserData (removeCruft name))).exceeded with
    | true =>
      obtain ⟨⟨hno, -⟩, -⟩ := h _ _ (authCheck_of_sendMaster _ (sendMaster_of_exceeded hexceeded)
        (by rw [reqdataType_dropped, htype]) (by rw [returnedReqdata_dropped, hpass']))
      exact absurd (hexceeded.symm.trans hno) (by simp)
    | false =>
      obtain ⟨hnone, hchild⟩ := hstale.resolve_left (by simp [hexceeded])
      obtain ⟨sender, hsender⟩ := Option.isSome_iff_exists.mp hchild
      -- no packet but the last, which leaves the variables as they are
      have hreq : handleChildReq env s.server (.getUserData (removeCruft name)) =
          .ok ([.allDone], s.server) := by
        simp only [handleChildReq, hsender, handleRequest, reqSendUser, hnone]
        rfl
      obtain ⟨s', hsend, -, hclient⟩ := sendMaster_of_handled hexceeded hreq rfl
      have hanswer := rateLimit_answer s.client (env.clock s.tick)
      obtain ⟨-, hsome⟩ := h _ _ (authCheck_of_sendMaster pass hsend
        (by rw [hclient, hanswer.1, htype]) (by rw [hclient, hanswer.2, hpass']))
      exact absurd (hnone.symm.trans hsome) (by simp)
  · intro h s' data hrun
    obtain ⟨hsend, htype, rfl, hpass⟩ := authCheck_ends hrun
    rcases sendMaster_ends hsend with ⟨hexceeded, rfl⟩ | ⟨hlet, packets, hreq, hread⟩
    · rw [reqdataType_dropped] at htype
      rw [returnedReqdata_dropped, h (Or.inl hexceeded) htype] at hpass
      exact absurd hpass (by simp)
    · refine ⟨⟨hlet, packets, hreq⟩, ?_⟩
      obtain ⟨sender, packets', hsender, hr, rfl⟩ := handleChildReq_ok hreq hread
      obtain ⟨rfl, hserver⟩ := Prod.mk.inj (Except.ok.inj hr)
      cases huser : s.server.users (removeCruft name) with
      | none =>
        have hread' : (s.client.rateLimit (env.clock s.tick)).2 = s'.client := by
          rw [reqSendUser, huser] at hread
          exact Option.some.inj hread
        have hanswer := rateLimit_answer s.client (env.clock s.tick)
        rw [← hread', hanswer.1] at htype
        rw [← hread', hanswer.2,
          h (Or.inr ⟨huser, by rw [hsender]; rfl⟩) htype] at hpass
        exact absurd hpass (by simp)
      | some user =>
        rw [reqSendUser, huser] at hread
        rw [← Option.some.inj hread]
        rfl

/-- A session in which the user `a` tried to log in with a wrong password. -/
def sampleTried : Session Unit :=
  (authCheck (sampleEnv fun k => k) (letter 97) (letter 120)).final (Session.start sampleServer [])

/-- **Logging in under a name nobody has.**  The password of `a` then logs in under the name
`z`. -/
theorem login_under_another_name :
    sampleTried.server.users (letter 122) = none ∧
      (authCheck (sampleEnv fun k => k) (letter 122) (letter 112) sampleTried).1 =
        some (some (sampleUser (letter 97))) ∧
      ¬ LoginAnswered (sampleEnv fun k => k) sampleTried (letter 122) (letter 112) := by
  have hnone : sampleTried.server.users (letter 122) = none := by decide +kernel
  have hsome : (authCheck (sampleEnv fun k => k) (letter 122) (letter 112) sampleTried).1 =
      some (some (sampleUser (letter 97))) := by decide +kernel
  refine ⟨hnone, hsome, fun h => ?_⟩
  obtain ⟨-, huser⟩ := h _ _ (eq_of_fst hsome)
  exact absurd (hnone.symm.trans huser) (by simp)

end NetCosm
