import NetCosm.Server.FanOut

/-!
# Users who are logged in, and their records

The master keeps the name of a user in its table of children, from `REQ_CHANGEUSER` on.  The record of the
user is in another table, from which other children may delete it.  `req_look_at`, `req_take` and
`req_inventory` look the name up, and follow the pointer without a test.

## What children ask

Before a child has asked to be given a user it has none, and the three requests would look up a null pointer.
`introduced_clientMain` says that `client_main` never asks for what belongs to its user before it has sent
`REQ_CHANGEUSER`.  It does not say that the request gets through: the limiter may drop it.

## When the record is there

`Hall` is the master with any number of children, whose requests come in any order.  A request changes the
user of nobody but its sender (`child_run_of_ne`), and of all requests only `REQ_DELUSERDATA` removes a record
(`isSome_users_handleRequest`).  `found_of_keepsUsers`: if no user is deleted while a child has it, and every
`REQ_CHANGEUSER` gets through while there still is a record, then every lookup finds one.
-/

namespace NetCosm

open Sessions

variable {σ : Type} {env : ClientEnv σ}

/-! ## What a child asks for its user -/

/-- The handler looks the user of the sender up, or may do so: `req_look_at`, `req_take` and
`req_inventory`. -/
def Request.NeedsUser : Request → Prop
  | .lookAt _ | .take _ | .printInventory => True
  | .bcastMsg _ | .listClients | .changeState _ | .changeUser _ | .kick _ _ | .kickAll _ | .wait
  | .getRoomDesc | .getRoomName | .setRoom _ | .move _ | .getUserData _ | .delUserData _
  | .addUserData _ | .drop _ | .listUsers | .execVerb _ => False

/-- The request gives the sender a user. -/
def Request.SetsUser : Request → Prop
  | .changeUser _ => True
  | .lookAt _ | .take _ | .printInventory | .bcastMsg _ | .listClients | .changeState _ | .kick _ _
  | .kickAll _ | .wait | .getRoomDesc | .getRoomName | .setRoom _ | .move _ | .getUserData _
  | .delUserData _ | .addUserData _ | .drop _ | .listUsers | .execVerb _ => False

instance : (r : Request) → Decidable r.NeedsUser
  | .lookAt _ | .take _ | .printInventory => .isTrue trivial
  | .bcastMsg _ | .listClients | .changeState _ | .changeUser _ | .kick _ _ | .kickAll _ | .wait
  | .getRoomDesc | .getRoomName | .setRoom _ | .move _ | .getUserData _ | .delUserData _
  | .addUserData _ | .drop _ | .listUsers | .execVerb _ => .isFalse not_false

instance : (r : Request) → Decidable r.SetsUser
  | .changeUser _ => .isTrue trivial
  | .lookAt _ | .take _ | .printInventory | .bcastMsg _ | .listClients | .changeState _ | .kick _ _
  | .kickAll _ | .wait | .getRoomDesc | .getRoomName | .setRoom _ | .move _ | .getUserData _
  | .delUserData _ | .addUserData _ | .drop _ | .listUsers | .execVerb _ => .isFalse not_false

/-- Nothing is asked for the user before the user has been named, unless it has been named already. -/
def IntroducedFrom (named : Bool) : List Request → Prop
  | [] => True
  | r :: rs => (r.NeedsUser → named = true) ∧ IntroducedFrom (named || decide r.SetsUser) rs

instance instDecidableIntroducedFrom : (named : Bool) → (rs : List Request) → Decidable (IntroducedFrom named rs)
  | _, [] => .isTrue trivial
  | named, r :: rs =>
      have := instDecidableIntroducedFrom (named || decide r.SetsUser) rs
      inferInstanceAs (Decidable ((r.NeedsUser → named = true) ∧ _))

/-- Nothing is asked for the user before the user has been named. -/
abbrev Introduced (rs : List Request) : Prop := IntroducedFrom false rs

theorem introducedFrom_concat {named : Bool} {rs : List Request} {r : Request} :
    IntroducedFrom named (rs ++ [r]) ↔
      IntroducedFrom named rs ∧ (r.NeedsUser → named = true ∨ ∃ r' ∈ rs, r'.SetsUser) := by
  induction rs generalizing named with
  | nil => simp [IntroducedFrom]
  | cons r' rs ih =>
    rw [List.cons_append, IntroducedFrom, IntroducedFrom, ih, and_assoc]
    simp only [Bool.or_eq_true, decide_eq_true_eq, List.exists_mem_cons_iff, or_assoc]

/-- One request more. -/
theorem introduced_concat {rs : List Request} {r : Request} :
    Introduced (rs ++ [r]) ↔ Introduced rs ∧ (r.NeedsUser → ∃ r' ∈ rs, r'.SetsUser) :=
  introducedFrom_concat.trans (by simp)

/-! ## What `client_main` asks -/

namespace Session

variable {s s' : Session σ} {r : Request}

/-- The requests of a session, in order. -/
def requests (s : Session σ) : List Request := s.calls.map Call.request

theorem Made.requests (h : s.Made env r s') : s'.requests = s.requests ++ [r] := by
  rw [Session.requests, h, List.map_append]
  rfl

theorem Alike.requests (h : s.Alike s') : s'.requests = s.requests :=
  congrArg (List.map Call.request) h.calls

/-- The client has named its user. -/
structure Known (s : Session σ) : Prop where
  introduced : Introduced s.requests
  named : ∃ r ∈ s.requests, r.SetsUser

/-- A client that has named its user may ask anything. -/
theorem Known.made (h : s.Known) (hmade : s.Made env r s') : s'.Known := by
  refine ⟨?_, ?_⟩
  · rw [hmade.requests]
    exact introduced_concat.mpr ⟨h.introduced, fun _ => h.named⟩
  · obtain ⟨r', hr', hsets⟩ := h.named
    rw [hmade.requests]
    exact ⟨r', List.mem_append_left _ hr', hsets⟩

/-- Before that, it may ask what is not for the user. -/
theorem introduced_made (h : Introduced s.requests) (hr : ¬ r.NeedsUser) (hmade : s.Made env r s') :
    Introduced s'.requests := by
  rw [hmade.requests]
  exact introduced_concat.mpr ⟨h, fun hneeds => absurd hneeds hr⟩

end Session

open Session

/-- Requests that are not for the user. -/
theorem follows_introduced (env : ClientEnv σ) :
    Follows env (fun r => ¬ r.NeedsUser) (fun s => Introduced s.requests)
      (fun s => Introduced s.requests) where
  stops _ h := h
  alike s s' h ha := by rwa [ha.requests]
  sent _ _ _ hr h hsent := introduced_made h hr hsent.made
  made _ _ _ hr h hmade := introduced_made h hr hmade

/-- Any requests, from a client that has named its user. -/
theorem follows_known (env : ClientEnv σ) :
    Follows env (fun _ => True) Session.Known (fun s => Introduced s.requests) where
  stops _ h := h.introduced
  alike s s' h ha := ⟨by rw [ha.requests]; exact h.introduced, by rw [ha.requests]; exact h.named⟩
  sent _ _ _ _ h hsent := h.made hsent.made
  made _ _ _ _ h hmade := (h.made hmade).introduced

/-- The user is named. -/
theorem triple_clientChangeUser_known (name : CString) :
    Triple (fun s => Introduced s.requests) (clientChangeUser env name) (fun _ => Session.Known)
      (fun s => Introduced s.requests) := by
  have hr : ¬ (Request.changeUser name).NeedsUser := not_false
  refine triple_of_forall fun s h => (triple_sendMaster s (.changeUser name)).mono (fun _ hs => hs)
    (fun _ s' hsent => ⟨introduced_made h hr hsent.made, ?_⟩) fun s' hmade => introduced_made h hr hmade
  rw [hsent.made.requests]
  exact ⟨.changeUser name, List.mem_append_right _ (List.mem_singleton_self _), trivial⟩

/-- A login names the user. -/
theorem triple_announce_known (authlevel : ℤ) :
    Triple (fun s => Introduced s.requests) (announce env authlevel) (fun _ => Session.Known)
      (fun s => Introduced s.requests) := by
  have hI := follows_introduced env
  have hK := follows_known env
  have hlogin : Steady (fun s => Introduced s.requests) (fun s => Introduced s.requests)
      (newLogin : ClientM σ Unit) := triple_update fun s h => h
  refine triple_bind hlogin fun _ => triple_bind (steady_setClient hI fun _ => rfl) fun _ => ?_
  refine triple_bind (steady_sendMaster hI not_false) fun _ => ?_
  have hplace : Steady Session.Known (fun s => Introduced s.requests)
      (do clientChangeRoom env 0; clientLook env) :=
    steady_bind (steady_sendMaster hK trivial) fun _ =>
      steady_clientLook (hK.mono fun _ _ => trivial)
  refine triple_bind (steady_ask _) fun user => ?_
  cases user with
  | none => exact triple_bind (triple_stop fun s h => h) fun _ => hplace
  | some user => exact triple_bind (triple_clientChangeUser_known user) fun _ => hplace

theorem triple_clientMain_introduced (n : ℕ) :
    Triple (fun s => Introduced s.requests) (clientMain env n) (fun _ s => Introduced s.requests)
      (fun s => Introduced s.requests) := by
  induction n with
  | zero => exact triple_stop fun s h => h
  | succ n ih =>
    have hI := follows_introduced env
    refine triple_bind (Q := fun _ s => Introduced s.requests) (triple_update fun s h => h) fun _ => ?_
    refine triple_bind (steady_sendMaster hI not_false) fun _ => ?_
    refine triple_bind (steady_authLoop_of hI (fun user => triple_update fun s h => h)
      (fun _ => not_false) (fun _ => not_false) (fun _ => not_false) _) fun authlevel => ?_
    cases authlevel with
    | none => exact triple_pure fun s h => h
    | some authlevel =>
      dsimp only
      split
      · exact triple_pure fun s h => h
      · refine triple_bind (triple_announce_known authlevel) fun _ => ?_
        have hphase : Steady Session.Known (fun s => Introduced s.requests)
            (setPhase .commands : ClientM σ Unit) := triple_update fun s h => ⟨h.introduced, h.named⟩
        refine triple_bind hphase fun _ => ?_
        refine triple_bind (steady_commandLoop ((follows_known env).mono fun _ _ => trivial) n)
          fun res => ?_
        have hend : Triple Session.Known
            (setClient fun c => { c with currentUser := none } : ClientM σ Unit)
            (fun _ s => Introduced s.requests) (fun s => Introduced s.requests) :=
          triple_update fun s h => h.introduced
        cases res with
        | logout => exact ih.mono (fun s h => h.introduced) (fun _ _ h => h) fun _ h => h
        | ok => exact hend
        | quit => exact hend

/-- **`client_main` asks for nothing of its user before it has named the user**, from whatever master and input. -/
theorem introduced_clientMain (env : ClientEnv σ) (server : ServerState σ) (lines : List CString) (n : ℕ) :
    Introduced ((clientMain env n).final (Session.start server lines)).requests :=
  (triple_clientMain_introduced n).final trivial

/-! ## What a request does to others -/

/-- Operations about a child leave the others alone, and the master sound. -/
theorem child_run_of_ne {asserts : Bool} {m m' : Master} (hm : m.Sound asserts) {pid : UInt32}
    {ops : List ServerOp} (hops : ∀ op ∈ ops, op.About pid)
    (hrun : Runs.run (serverStep asserts) m ops = .ok m') :
    m'.Sound asserts ∧ ∀ q ≠ pid, m'.child asserts q = m.child asserts q := by
  have hstep : ∀ (m : Master) op m', m.Sound asserts → op.About pid → serverStep asserts m op = .ok m' →
      m'.Sound asserts ∧ ∀ q ≠ pid, m'.child asserts q = m.child asserts q := by
    intro m op m' hm hop hstep
    obtain ⟨f, -, hchild⟩ := hm.child_of_about hop hstep
    exact ⟨hm.step hstep, fun q hq => by rw [hchild, Function.update_of_ne hq]⟩
  exact Runs.frame_run (fun _ _ _ => rfl) (fun _ _ _ h h' q hq => (h' q hq).trans (h q hq)) hstep hm hops hrun

/-- The world keeps every record: neither the handlers of its requests nor the verbs of a world module remove
a user. -/
def KeepsRecords (env : ClientEnv σ) : Prop :=
  ∀ sender r s a name, env.answer sender r s = .ok a → (s.users name).isSome → (a.users name).isSome

/-- **Only `REQ_DELUSERDATA` removes a record.** -/
theorem isSome_users_handleRequest (hworld : KeepsRecords env) {s s' : ServerState σ}
    {sender : ChildData} {r : Request} {packets : List Packet}
    (h : handleRequest env s sender r = .ok (packets, s')) {name : CString}
    (hr : r ≠ .delUserData name) (hname : (s.users name).isSome) : (s'.users name).isSome := by
  have hexec : execWorld env s sender r = .ok (packets, s') → (s'.users name).isSome := by
    intro h
    obtain ⟨a, ha, h⟩ := bind_eq_ok h
    obtain ⟨m, -, h⟩ := bind_eq_ok h
    obtain ⟨-, rfl⟩ := Prod.mk.inj (Except.ok.inj h)
    exact hworld sender r s a name ha hname
  cases r with
  | changeState state =>
    obtain ⟨-, rfl⟩ := Prod.mk.inj (Except.ok.inj h)
    exact hname
  | changeUser user =>
    obtain ⟨-, rfl⟩ := Prod.mk.inj (Except.ok.inj h)
    exact hname
  | setRoom id =>
    obtain ⟨m, -, h⟩ := bind_eq_ok h
    obtain ⟨-, rfl⟩ := Prod.mk.inj (Except.ok.inj h)
    exact hname
  | move dir =>
    obtain ⟨⟨msg, moved, m⟩, -, h⟩ := bind_eq_ok h
    obtain ⟨-, rfl⟩ := Prod.mk.inj (Except.ok.inj h)
    exact hname
  | getUserData user =>
    obtain ⟨-, rfl⟩ := Prod.mk.inj (Except.ok.inj h)
    exact hname
  | delUserData user =>
    obtain ⟨-, rfl⟩ := Prod.mk.inj (Except.ok.inj h)
    have hne : name ≠ user := fun heq => hr (by rw [heq])
    show (Function.update s.users user none name).isSome
    rwa [Function.update_of_ne hne]
  | addUserData data =>
    obtain ⟨-, rfl⟩ := Prod.mk.inj (Except.ok.inj h)
    show (Function.update s.users data.name (some data) name).isSome
    by_cases heq : name = data.name
    · rw [heq, Function.update_self]
      rfl
    · rwa [Function.update_of_ne heq]
  | bcastMsg text | listClients | kick pid text | kickAll text | wait | getRoomDesc | getRoomName
  | lookAt name | printInventory | take name | drop name | listUsers | execVerb line =>
    exact hexec h

/-! ## The hall -/

/-- `userdb_lookup(sender->user)->objects`, with which `req_look_at`, `req_inventory` and, for what is taken,
`userdb_add_obj` begin: the record that is read. -/
def recordRead (s : ServerState σ) (sender : ChildData) : Except Fault UserData :=
  match sender.user.bind fun user => s.users user.text with
  | some record => .ok record
  | none => .error .nullPointer

/-- There is a record to read. -/
theorem recordRead_isOk {s : ServerState σ} {sender : ChildData} {name : CString}
    (hname : (sender.user.map UserName.text) = some name) (hrecord : (s.users name).isSome) :
    (recordRead s sender).isOk := by
  obtain ⟨user, huser, rfl⟩ := Option.map_eq_some_iff.mp hname
  obtain ⟨record, hrecord⟩ := Option.isSome_iff_exists.mp hrecord
  have hread : recordRead s sender = .ok record := by
    simp only [recordRead, huser, Option.bind_some, hrecord]
  rw [hread]
  rfl

/-- The master, and what each child has asked so far. -/
structure Hall (σ : Type) where
  server : ServerState σ
  asked : UInt32 → List Request

/-- What happens. -/
inductive HallOp where
  | connect (pid : UInt32)
  | disconnect (pid : UInt32)
  /-- A child calls `send_master`.  If the limiter lets the request through, it is handled. -/
  | call (pid : UInt32) (r : Request) (passed : Bool)
  deriving DecidableEq

namespace Hall

/-- Before the first connection. -/
def start (rooms : List RoomSetup) (users : CString → Option UserData) (world : σ) : Hall σ where
  server := ⟨Master.init rooms, users, world⟩
  asked _ := []

/-- One step. -/
def step (env : ClientEnv σ) (s : Hall σ) : HallOp → Except Fault (Hall σ)
  | .connect pid =>
      match s.server.master.child env.asserts pid with
      | some _ => .ok s
      | none => do
          let master ← newConnection env.asserts s.server.master pid
          .ok ⟨{ s.server with master }, Function.update s.asked pid []⟩
  | .disconnect pid =>
      match s.server.master.child env.asserts pid with
      | some _ => do
          let master ← handleDisconnect env.asserts s.server.master pid
          .ok { s with server := { s.server with master } }
      | none => .ok s
  | .call pid r passed =>
      let asked := Function.update s.asked pid (s.asked pid ++ [r])
      if passed then do
        let (_, server) ← handleChildReq { env with pid } s.server r
        .ok ⟨server, asked⟩
      else .ok ⟨s.server, asked⟩

/-- The child follows `client_main`, as far as `introduced_clientMain` tells. -/
def FromClient (s : Hall σ) : HallOp → Prop
  | .call pid r _ => Introduced (s.asked pid ++ [r])
  | .connect _ | .disconnect _ => True

/-- No user is deleted while a child has it, and a child is given a user who has a record; or else the request
is dropped, and it has a user already. -/
def KeepsUsers (env : ClientEnv σ) (s : Hall σ) : HallOp → Prop
  | .call _ (.delUserData name) true => ∀ node ∈ s.server.master.childMap.nodes,
      s.server.user { env with pid := node.data.pid } ≠ some name
  | .call _ (.changeUser name) true => (s.server.users name).isSome
  | .call pid (.changeUser _) false => (s.server.user { env with pid }).isSome
  | .call _ _ _ | .connect _ | .disconnect _ => True

/-- If the handler reads the record of the sender, there is one. -/
def Found (env : ClientEnv σ) (s : Hall σ) : HallOp → Prop
  | .call pid r true => r.NeedsUser →
      ∀ sender ∈ s.server.master.child env.asserts pid, (recordRead s.server sender).isOk
  | .call _ _ false | .connect _ | .disconnect _ => True

/-- Every child has a record if it has a user, and has a user if it has named one. -/
structure Recorded (env : ClientEnv σ) (s : Hall σ) : Prop where
  sound : s.server.master.Sound env.asserts
  recorded : ∀ pid, ∀ name ∈ s.server.user { env with pid }, (s.server.users name).isSome
  named : ∀ pid, (s.server.master.child env.asserts pid).isSome → (∃ r ∈ s.asked pid, r.SetsUser) →
    (s.server.user { env with pid }).isSome

variable {s s' : Hall σ}

theorem recorded_start (env : ClientEnv σ) (rooms : List RoomSetup) (users : CString → Option UserData)
    (world : σ) : (start rooms users world).Recorded env := by
  have hnone : ∀ pid, (Master.init rooms).child env.asserts pid = none := fun pid =>
    congrFun (congrArg Membership.child (init_view env.asserts rooms)) pid
  refine ⟨Master.sound_init env.asserts rooms, fun pid name hname => ?_, fun pid _ hsets => ?_⟩
  · have huser : (start rooms users world).server.user { env with pid } = none := by
      show Option.bind ((Master.init rooms).child env.asserts pid) _ = none
      rw [hnone]
      rfl
    rw [huser] at hname
    exact absurd hname (by simp)
  · obtain ⟨r, hr, -⟩ := hsets
    exact absurd hr List.not_mem_nil

/-- The user of a child that has not changed. -/
theorem user_congr {s s' : ServerState σ} {pid : UInt32}
    (h : s'.master.child env.asserts pid = s.master.child env.asserts pid) :
    s'.user { env with pid } = s.user { env with pid } := by
  show Option.bind (s'.master.child env.asserts pid) _ = Option.bind (s.master.child env.asserts pid) _
  rw [h]

/-- Something happens to one child. -/
theorem Recorded.update (h : s.Recorded env) {server : ServerState σ} {asked : List Request}
    (pid : UInt32) (hsound : server.master.Sound env.asserts)
    (hothers : ∀ q ≠ pid, server.master.child env.asserts q = s.server.master.child env.asserts q)
    (hkept : ∀ q, ∀ name ∈ s.server.user { env with pid := q }, q ≠ pid → (server.users name).isSome)
    (hrecorded : ∀ name ∈ server.user { env with pid }, (server.users name).isSome)
    (hnamed : (server.master.child env.asserts pid).isSome → (∃ r ∈ asked, r.SetsUser) →
      (server.user { env with pid }).isSome) :
    (⟨server, Function.update s.asked pid asked⟩ : Hall σ).Recorded env := by
  refine ⟨hsound, fun q name hname => ?_, fun q hthere hsets => ?_⟩
  · by_cases hq : q = pid
    · subst hq
      exact hrecorded name hname
    · rw [user_congr (hothers q hq)] at hname
      exact hkept q name hname hq
  · by_cases hq : q = pid
    · subst hq
      have hsets' : ∃ r ∈ Function.update s.asked q asked q, r.SetsUser := hsets
      rw [Function.update_self] at hsets'
      exact hnamed hthere hsets'
    · have hsets' : ∃ r ∈ Function.update s.asked pid asked q, r.SetsUser := hsets
      rw [Function.update_of_ne hq] at hsets'
      have hthere' : (s.server.master.child env.asserts q).isSome := by
        rw [← hothers q hq]
        exact hthere
      show (server.user { env with pid := q }).isSome
      rw [user_congr (hothers q hq)]
      exact h.named q hthere' hsets'

/-- **A child is connected.** -/
theorem Recorded.connect (h : s.Recorded env) {pid : UInt32} {master : Master}
    (hnone : s.server.master.child env.asserts pid = none)
    (hstep : serverStep env.asserts s.server.master (.connect pid) = .ok master) :
    (⟨{ s.server with master }, Function.update s.asked pid []⟩ : Hall σ).Recorded env := by
  have hchild := h.sound.child_of_connect hnone hstep
  have huser : ({ s.server with master } : ServerState σ).user { env with pid } = none := by
    show Option.bind (master.child env.asserts pid) _ = none
    rw [hchild, Function.update_self]
    rfl
  refine h.update pid (h.sound.step hstep) (fun q hq => ?_) (fun q name hname _ => h.recorded q name hname)
    (fun name hname => ?_) fun _ hsets => ?_
  · show master.child env.asserts q = _
    rw [hchild, Function.update_of_ne hq]
  · rw [huser] at hname
    exact absurd hname (by simp)
  · obtain ⟨r, hr, -⟩ := hsets
    exact absurd hr List.not_mem_nil

/-- **A child is disconnected.** -/
theorem Recorded.disconnect (h : s.Recorded env) {pid : UInt32} {master : Master}
    (hstep : serverStep env.asserts s.server.master (.disconnect pid) = .ok master) :
    ({ s with server := { s.server with master } } : Hall σ).Recorded env := by
  have hchild := h.sound.child_of_disconnect hstep
  have hgone : master.child env.asserts pid = none := by rw [hchild, Function.update_self]
  have hsame := Function.update_eq_self pid s.asked
  rw [show ({ s with server := { s.server with master } } : Hall σ) =
    ⟨{ s.server with master }, Function.update s.asked pid (s.asked pid)⟩ by rw [hsame]]
  refine h.update pid (h.sound.step hstep) (fun q hq => ?_) (fun q name hname _ => h.recorded q name hname)
    (fun name hname => ?_) fun hthere _ => ?_
  · show master.child env.asserts q = _
    rw [hchild, Function.update_of_ne hq]
  · have huser : ({ s.server with master } : ServerState σ).user { env with pid } = none := by
      show Option.bind (master.child env.asserts pid) _ = none
      rw [hgone]
      rfl
    rw [huser] at hname
    exact absurd hname (by simp)
  · have hthere' : (master.child env.asserts pid).isSome := hthere
    rw [hgone] at hthere'
    exact absurd hthere' (by simp)

/-- A user that is deleted is nobody's, connected or not. -/
theorem Recorded.user_ne_of_keepsUsers (h : s.Recorded env) {pid : UInt32} {name : CString}
    (hop : s.KeepsUsers env (.call pid (.delUserData name) true)) (q : UInt32) :
    s.server.user { env with pid := q } ≠ some name := by
  intro huser
  have hthere : (s.server.master.child env.asserts q).isSome := by
    obtain ⟨c, hc, -⟩ := Option.bind_eq_some_iff.mp huser
    exact Option.isSome_iff_exists.mpr ⟨c, hc⟩
  obtain ⟨node, hnode, rfl⟩ := List.mem_map.mp (h.sound.numbered.mem_pids_iff.mpr hthere)
  exact hop node hnode huser

/-- **A request is handled.** -/
theorem Recorded.call (hworld : KeepsRecords env) (h : s.Recorded env) {pid : UInt32} {r : Request}
    (hop : s.KeepsUsers env (.call pid r true)) {packets : List Packet} {server : ServerState σ}
    (hreq : handleChildReq { env with pid } s.server r = .ok (packets, server)) :
    (⟨server, Function.update s.asked pid (s.asked pid ++ [r])⟩ : Hall σ).Recorded env := by
  cases hc : s.server.master.child env.asserts pid with
  | none =>
    have hsame : server = s.server := by
      unfold handleChildReq at hreq
      rw [show s.server.master.child ({ env with pid } : ClientEnv σ).asserts
        ({ env with pid } : ClientEnv σ).pid = none from hc] at hreq
      exact (Prod.mk.inj (Except.ok.inj hreq)).2.symm
    subst hsame
    refine h.update pid h.sound (fun _ _ => rfl) (fun q name hname _ => h.recorded q name hname)
      (h.recorded pid) fun hthere _ => ?_
    rw [hc] at hthere
    exact absurd hthere (by simp)
  | some c =>
    have hserves : s.server.Serves { env with pid } := ⟨h.sound, by
      show (s.server.master.child env.asserts pid).isSome
      rw [hc]
      rfl⟩
    have hnamed := (hserves.handle hreq).2
    have hworld' : KeepsRecords { env with pid } := hworld
    have hsender : s.server.master.child ({ env with pid } : ClientEnv σ).asserts
      ({ env with pid } : ClientEnv σ).pid = some c := hc
    simp only [handleChildReq, hsender] at hreq
    obtain ⟨⟨packets', server'⟩, hhandled, heq⟩ := bind_eq_ok hreq
    obtain ⟨-, rfl⟩ := Prod.mk.inj (Except.ok.inj heq)
    obtain ⟨ops, hops, hrun, -⟩ := handleRequest_run hsender hhandled
    obtain ⟨hsound, hothers⟩ := child_run_of_ne h.sound hops hrun
    have hkeeps : ∀ q, ∀ name ∈ s.server.user { env with pid := q }, (server'.users name).isSome := by
      intro q name hname
      refine isSome_users_handleRequest hworld' hhandled ?_ (h.recorded q name hname)
      rintro rfl
      exact h.user_ne_of_keepsUsers hop q hname
    refine h.update pid hsound hothers (fun q name hname _ => hkeeps q name hname) (fun name hname => ?_)
      fun _ hsets => ?_
    · rw [hnamed] at hname
      cases r with
      | changeUser user =>
        obtain rfl : user = name := Option.some.inj hname
        exact isSome_users_handleRequest hworld' hhandled Request.noConfusion hop
      | _ => exact hkeeps pid name hname
    · rw [hnamed]
      cases r with
      | changeUser user => rfl
      | _ =>
        obtain ⟨r', hr', hsets⟩ := hsets
        rcases List.mem_append.mp hr' with hr' | hr'
        · exact h.named pid hserves.listed ⟨r', hr', hsets⟩
        · rw [List.mem_singleton.mp hr'] at hsets
          exact hsets.elim

/-- **A request is dropped.** -/
theorem Recorded.dropped (h : s.Recorded env) {pid : UInt32} {r : Request}
    (hop : s.KeepsUsers env (.call pid r false)) :
    (⟨s.server, Function.update s.asked pid (s.asked pid ++ [r])⟩ : Hall σ).Recorded env := by
  refine h.update pid h.sound (fun _ _ => rfl) (fun q name hname _ => h.recorded q name hname)
    (h.recorded pid) fun hthere hsets => ?_
  obtain ⟨r', hr', hsets⟩ := hsets
  rcases List.mem_append.mp hr' with hr' | hr'
  · exact h.named pid hthere ⟨r', hr', hsets⟩
  · rw [List.mem_singleton.mp hr'] at hsets
    cases r with
    | changeUser name => exact hop
    | _ => exact hsets.elim

/-- **A step that keeps the users** keeps their records. -/
theorem Recorded.step (hworld : KeepsRecords env) (h : s.Recorded env) {op : HallOp}
    (hop : s.KeepsUsers env op) (hstep : s.step env op = .ok s') : s'.Recorded env := by
  cases op with
  | connect pid =>
    cases hc : s.server.master.child env.asserts pid with
    | some c =>
      simp only [Hall.step, hc] at hstep
      exact Except.ok.inj hstep ▸ h
    | none =>
      simp only [Hall.step, hc] at hstep
      obtain ⟨master, hm, hstep⟩ := bind_eq_ok hstep
      rw [← Except.ok.inj hstep]
      exact h.connect hc (show serverStep env.asserts s.server.master (.connect pid) = .ok master from hm)
  | disconnect pid =>
    cases hc : s.server.master.child env.asserts pid with
    | none =>
      simp only [Hall.step, hc] at hstep
      exact Except.ok.inj hstep ▸ h
    | some c =>
      simp only [Hall.step, hc] at hstep
      obtain ⟨master, hm, hstep⟩ := bind_eq_ok hstep
      rw [← Except.ok.inj hstep]
      exact h.disconnect (show serverStep env.asserts s.server.master (.disconnect pid) = .ok master from hm)
  | call pid r passed =>
    cases passed with
    | false =>
      rw [← Except.ok.inj hstep]
      exact h.dropped hop
    | true =>
      obtain ⟨⟨packets, server⟩, hreq, hstep⟩ := bind_eq_ok hstep
      rw [← Except.ok.inj hstep]
      exact h.call hworld hop hreq

/-- A child that has been introduced, and has what it has asked for, has a record. -/
theorem Recorded.found (h : s.Recorded env) {op : HallOp} (hclient : s.FromClient op) : s.Found env op := by
  cases op with
  | connect pid => trivial
  | disconnect pid => trivial
  | call pid r passed =>
    cases passed with
    | false => trivial
    | true =>
      intro hneeds sender hsender
      have hthere : (s.server.master.child env.asserts pid).isSome := by
        rw [Option.mem_def.mp hsender]
        rfl
      have hnamed := h.named pid hthere ((introduced_concat.mp hclient).2 hneeds)
      obtain ⟨name, hname⟩ := Option.isSome_iff_exists.mp hnamed
      have huser : sender.user.map UserName.text = some name := by
        rw [← hname]
        show _ = (s.server.master.child env.asserts pid).bind _
        rw [Option.mem_def.mp hsender]
        rfl
      exact recordRead_isOk huser (h.recorded pid name hname)

/-- **Every record that is read is there**, in a run in which children ask what `client_main` asks, no user is
deleted while a child has it, and every `REQ_CHANGEUSER` gets through while its user has a record. -/
theorem found_of_keepsUsers (env : ClientEnv σ) (hworld : KeepsRecords env) (rooms : List RoomSetup)
    (users : CString → Option UserData) (world : σ) (ops : List HallOp)
    (hclients : Runs.EachStep (step env) FromClient (start rooms users world) ops)
    (hkeeps : Runs.EachStep (step env) (KeepsUsers env) (start rooms users world) ops) :
    Runs.EachStep (step env) (Found env) (start rooms users world) ops :=
  Runs.EachStep.mono (fun _ _ _ h hop hstep => h.step hworld hop.2 hstep) (fun _ _ h hop => h.found hop.1)
    (recorded_start env rooms users world) (Runs.eachStep_and hclients hkeeps)

/-! ## Three users -/

instance (s : Hall σ) : (op : HallOp) → Decidable (s.FromClient op)
  | .call pid r _ => inferInstanceAs (Decidable (Introduced (s.asked pid ++ [r])))
  | .connect _ | .disconnect _ => .isTrue trivial

instance (env : ClientEnv σ) (s : Hall σ) : (op : HallOp) → Decidable (s.KeepsUsers env op)
  | .call _ (.delUserData name) true => inferInstanceAs (Decidable (∀ node ∈
      s.server.master.childMap.nodes, s.server.user { env with pid := node.data.pid } ≠ some name))
  | .call _ (.changeUser name) true => inferInstanceAs (Decidable ((s.server.users name).isSome = true))
  | .call pid (.changeUser _) false =>
      inferInstanceAs (Decidable ((s.server.user { env with pid }).isSome = true))
  | .call _ (.delUserData _) false | .call _ (.bcastMsg _) _ | .call _ .listClients _
  | .call _ (.changeState _) _ | .call _ (.kick _ _) _ | .call _ (.kickAll _) _ | .call _ .wait _
  | .call _ .getRoomDesc _ | .call _ .getRoomName _ | .call _ (.setRoom _) _ | .call _ (.move _) _
  | .call _ (.getUserData _) _ | .call _ (.addUserData _) _ | .call _ (.lookAt _) _
  | .call _ (.take _) _ | .call _ .printInventory _ | .call _ (.drop _) _ | .call _ .listUsers _
  | .call _ (.execVerb _) _ | .connect _ | .disconnect _ => .isTrue trivial

instance (env : ClientEnv σ) (s : Hall σ) : (op : HallOp) → Decidable (s.Found env op)
  | .call pid r true => inferInstanceAs (Decidable (r.NeedsUser →
      ∀ sender ∈ s.server.master.child env.asserts pid, (recordRead s.server sender).isOk = true))
  | .call _ _ false | .connect _ | .disconnect _ => .isTrue trivial

/-- The users `a` and `c`, and the administrator `b`. -/
def sampleUsers (name : CString) : Option UserData :=
  if name = letter 98 then some { sampleUser name with priv := PRIV_ADMIN }
  else if name = letter 97 ∨ name = letter 99 then some (sampleUser name)
  else none

/-- One room, and these users. -/
def sampleHall : Hall Unit := start [⟨[], none, none, 8⟩] sampleUsers ()

/-- What `client_main` asks for a user who logs in and types a line. -/
def sampleRequests (name line : CString) : List Request :=
  ((clientMain (sampleEnv fun k => k) 3).final
    (Session.start { sampleServer with users := sampleUsers } [name, letter 112, line])).requests

/-- The child 7 is that of `a`, who looks at the inventory at last.  The child 9 is that of `b`, who types a
line before. -/
def sampleOps (line : CString) : List HallOp :=
  [.connect 7, .connect 9] ++
    (sampleRequests (letter 97) typedInventory).dropLast.map (.call 7 · true) ++
    (sampleRequests (letter 98) line).map (.call 9 · true) ++ [.call 7 .printInventory true]

theorem keepsRecords_sampleEnv : KeepsRecords (sampleEnv 0) := by
  intro _ _ _ a _ ha hname
  obtain rfl := Except.ok.inj ha
  exact hname

/-- The user `c`, who is not there, is deleted. -/
theorem found_absent_deleted :
    .call 9 (.delUserData (letter 99)) true ∈ sampleOps (.ofChars "USER DEL c".toList) ∧
      Runs.EachStep (step (sampleEnv 0)) (Found (sampleEnv 0)) sampleHall
        (sampleOps (.ofChars "USER DEL c".toList)) :=
  ⟨by decide +kernel, found_of_keepsUsers (sampleEnv 0) keepsRecords_sampleEnv _ _ _ _ (by decide +kernel)
    (by decide +kernel)⟩

/-- **The user `a`, who is logged in, is deleted**, and then has a look at the inventory. -/
theorem missing_user_read :
    (sampleRequests (letter 97) typedInventory).getLast? = some .printInventory ∧
      Runs.EachStep (step (sampleEnv 0)) FromClient sampleHall (sampleOps (.ofChars "USER DEL a".toList)) ∧
      ¬ Runs.EachStep (step (sampleEnv 0)) (Found (sampleEnv 0)) sampleHall
        (sampleOps (.ofChars "USER DEL a".toList)) :=
  ⟨by decide +kernel, by decide +kernel, by decide +kernel⟩

end Hall

end NetCosm
