import NetCosm.Client.Steps
import NetCosm.Server.OwnBytes
import NetCosm.Server.Waiting

/-!
# A request is as good as done at once

The sessions of `Client/Main` know of one client only: `sendMaster` hands the request to the master and has the
answer.  In the system of `Server/Replies` there are pipes between them, and any number of other clients whose
requests the master handles in the meantime, and who are passed on messages.

`send_master_atomic` says that the sessions are right about their client all the same, in every run in which no
message disturbs a reply.  Between the sending of a request and the return of `send_master` there is one step in
which the master handles it.  What it does there is `handleChildReq`, in the state that the other clients have left
it in; and what the packets that are read from the sending to the return make of the variables of the client is what
this one answer makes of them, though there may be others before it, within it and behind it.

## Why

What is written to a client on behalf of others are messages, ends and kicks, and a client that reads these leaves
its variables alone.  What is written on its own behalf belongs to the request it waits for, as long as it is
unread: `Peer.Attuned`.  So a client that reads lines has nothing before it that matters, and the packets that are
written in between matter only if they belong to the request.
-/

namespace NetCosm

namespace Replies

open Storage

variable {σ : Type} {env : ClientEnv σ}

/-! ## Packets that do not matter -/

/-- The codes of what clients are written on behalf of others. -/
def passedCodes : List UInt8 := [REQ_BCASTMSG, REQ_ALLDONE, REQ_KICK]

/-- What a packet makes of the variables of a client that goes on running. -/
def takes (c : Client) : Written → Client
  | .raw _ _ => c
  | .answer p => c.receive p

/-- What some packets make of them. -/
def takesAll (us : List Reply) (c : Client) : Client := us.foldl (fun c u => takes c u.packet) c

@[simp] theorem takesAll_append (us vs : List Reply) (c : Client) :
    takesAll (us ++ vs) c = takesAll vs (takesAll us c) := List.foldl_append

theorem takes_of_passed {w : Written} (h : w.code ∈ passedCodes) (c : Client) : takes c w = c := by
  cases w with
  | raw cmd data => rfl
  | answer p =>
    cases p with
    | bcastMsg text | kick text | allDone | nop | printNewline => rfl
    | rawMode | move status | getUserData data | delUserData success | addUserData success =>
      exact absurd h (by simp [Written.code, Packet.code, passedCodes]; decide)

theorem takesAll_of_passed {us : List Reply} (h : ∀ u ∈ us, u.packet.code ∈ passedCodes) (c : Client) :
    takesAll us c = c := by
  induction us with
  | nil => rfl
  | cons u us ih =>
    obtain ⟨hu, hus⟩ := List.forall_mem_cons.mp h
    rw [takesAll, List.foldl_cons, takes_of_passed hu]
    exact ih hus

/-- What is written on behalf of others. -/
theorem Shared.passed {pid sender : UInt32} {cmd : UInt8} {data : List UInt8} {log : List Event}
    (h : Shared env pid sender cmd data log) (hpid : pid ≠ sender) {w : Written} (hw : .wrote pid w ∈ log) :
    w.code ∈ passedCodes := by
  by_cases hmsg : cmd = REQ_BCASTMSG
  · have hmem : w ∈ log.filterMap (Event.writtenTo pid) :=
      List.mem_filterMap.mpr ⟨_, hw, by simp [Event.writtenTo]⟩
    rw [h.message hmsg] at hmem
    rcases List.mem_pair.mp hmem with rfl | rfl
    · exact List.mem_cons_self
    · exact List.mem_cons_of_mem _ List.mem_cons_self
  · rw [h.kicks hmsg hpid w hw]
    decide

/-! ## One client -/

namespace Peer

variable {p : Peer} {pid : UInt32}

/-- A client that runs.  What is unread and its own belongs to the request it waits for; what is not its own does
not matter; and it has not read a kick. -/
structure Attuned (pid : UInt32) (p : Peer) : Prop where
  own : ∀ u ∈ p.unread, u.ticket.pid = pid → p.mode = .waiting u.ticket.number
  passed : ∀ u ∈ p.written, u.ticket.pid ≠ pid → u.packet.code ∈ passedCodes
  spared : ∀ u ∈ p.consumed, u.packet.code ≠ REQ_KICK

theorem attuned_fresh (pid : UInt32) : fresh.Attuned pid :=
  ⟨fun _ h => absurd h List.not_mem_nil, fun _ h => absurd h List.not_mem_nil,
    fun _ h => absurd h List.not_mem_nil⟩

theorem Attuned.send (h : p.Attuned pid) (cmd : UInt8) (data : List UInt8) (short : data.length + 5 ≤ MSG_MAX) :
    (p.send cmd data short).Attuned pid := by
  rcases p.send_cases cmd data short with hsend | ⟨hmode, hsend⟩
  · rwa [hsend]
  · rw [hsend]
    -- a client that reads lines does not wait for anything, so nothing unread is its own
    exact ⟨fun u hu hpid => absurd (hmode.symm.trans (h.own u hu hpid)) (by simp), h.passed, h.spared⟩

/-- **A packet is read.**  When the request returns, its reply has been read whole, so nothing that is left is the
client's own. -/
theorem Attuned.poll (h : p.Attuned pid) (horderly : p.Orderly pid) (hlive : p.poll.mode ≠ .exited) :
    p.poll.Attuned pid := by
  rcases poll_cases p with hpoll | ⟨u, rest, hunread, hpoll⟩
  · rwa [hpoll]
  · obtain ⟨-, hrest, htaken⟩ := read_succ hunread
    have hunread' : p.poll.unread = rest := by
      rw [hpoll]
      exact hrest
    have hconsumed' : p.poll.consumed = p.consumed ++ [u] := by
      rw [hpoll]
      exact htaken
    have hmode : p.mode ≠ .exited := by
      intro hexited
      rw [Peer.poll, hexited] at hlive
      exact hlive hexited
    have hreceive : p.poll.mode = receive p.mode u.packet := by rw [hpoll]
    have hkick : u.packet.code ≠ REQ_KICK := by
      intro hkick
      rw [hreceive] at hlive
      unfold receive at hlive
      exact hlive (if_pos hkick)
    refine ⟨fun v hv hpid => ?_, ?_, fun v hv => ?_⟩
    · rw [hunread'] at hv
      have hwaits := h.own v (by rw [hunread]; exact List.mem_cons_of_mem _ hv) hpid
      have hnotRead : p.poll.mode ≠ .reading := fun hread =>
        (horderly.poll.2 _ hwaits hread).rest v (by rwa [hunread']) (by rw [← hpid])
      rw [hreceive, hwaits] at hnotRead ⊢
      unfold receive at hnotRead ⊢
      rw [if_neg hkick] at hnotRead ⊢
      split
      · rename_i hdone
        exact absurd (if_pos hdone) hnotRead
      · rfl
    · rw [p.poll_pipes.1]
      exact h.passed
    · rw [hconsumed'] at hv
      rcases List.mem_append.mp hv with hv | hv
      · exact h.spared v hv
      · obtain rfl := List.mem_singleton.mp hv
        exact hkick

theorem consumed_deliver (hread : p.read ≤ p.written.length) (ticket : Ticket) (log : List Event) :
    (p.deliver pid ticket log).consumed = p.consumed :=
  List.take_append_of_le_length hread

/-- **A request of another client is handled.** -/
theorem Attuned.deliver_other (h : p.Attuned pid) (hread : p.read ≤ p.written.length) {ticket : Ticket}
    (hticket : ticket.pid ≠ pid) {log : List Event} (hpassed : ∀ w, .wrote pid w ∈ log → w.code ∈ passedCodes) :
    (p.deliver pid ticket log).Attuned pid := by
  refine ⟨fun u hu hpid => ?_, fun u hu hpid => ?_, ?_⟩
  · rw [unread_deliver hread] at hu
    rcases List.mem_append.mp hu with hu | hu
    · exact h.own u hu hpid
    · rw [(mem_delivered hu).1] at hpid
      exact absurd hpid hticket
  · rcases List.mem_append.mp hu with hu | hu
    · exact h.passed u hu hpid
    · exact hpassed _ (mem_delivered hu).2
  · rw [consumed_deliver hread]
    exact h.spared

/-- A request that has not been handled is the one the client waits for. -/
theorem Orderly.waits (h : p.Orderly pid) (hlive : p.mode ≠ .exited) {r : Sent} {rest : List Sent}
    (hr : p.requests = r :: rest) : p.mode = .waiting r.number := by
  have hnotQuiet : ¬ (p.mode = .reading ∨ p.mode = .polling) := fun hquiet => by
    have hnil := h.quiet hquiet
    rw [hr] at hnil
    exact absurd hnil (by simp)
  cases hp : p.mode with
  | exited => exact absurd hp hlive
  | reading => exact absurd (Or.inl hp) hnotQuiet
  | polling => exact absurd (Or.inr hp) hnotQuiet
  | waiting n =>
    rcases h.awaits n hp with ⟨r', hr', hnumber, -⟩ | ⟨hnil, -⟩
    · rw [hr] at hr'
      obtain ⟨rfl, -⟩ := List.cons.inj hr'
      exact congrArg Mode.waiting hnumber.symm
    · rw [hr] at hnil
      exact absurd hnil (by simp)

/-- **The client's own request is handled.** -/
theorem Attuned.deliver_own (h : p.Attuned pid) (horderly : p.Orderly pid) (hlive : p.mode ≠ .exited) {r : Sent}
    {rest : List Sent} (hr : p.requests = r :: rest) (log : List Event) :
    (({ p with requests := rest } : Peer).deliver pid ⟨pid, r.number⟩ log).Attuned pid := by
  have hread : ({ p with requests := rest } : Peer).read ≤ p.written.length := horderly.read_le
  refine ⟨fun u hu hpid => ?_, fun u hu hpid => ?_, ?_⟩
  · rw [unread_deliver hread] at hu
    rcases List.mem_append.mp hu with hu | hu
    · exact h.own u hu hpid
    · rw [(mem_delivered hu).1]
      exact horderly.waits hlive hr
  · rcases List.mem_append.mp hu with hu | hu
    · exact h.passed u hu hpid
    · rw [(mem_delivered hu).1] at hpid
      exact absurd rfl hpid
  · rw [consumed_deliver hread]
    exact h.spared

/-- Nothing before a client that reads lines matters, nor before one whose request has not been handled. -/
theorem Attuned.passed_unread (h : p.Attuned pid) (horderly : p.Orderly pid)
    (hready : p.mode = .reading ∨ p.requests ≠ []) {u : Reply} (hu : u ∈ p.unread) :
    u.ticket.pid ≠ pid ∧ u.packet.code ∈ passedCodes := by
  have hother : u.ticket.pid ≠ pid := by
    intro hpid
    have hwaits := h.own u hu hpid
    rcases hready with hread | hrequests
    · exact absurd (hread.symm.trans hwaits) (by simp)
    · rcases horderly.awaits _ hwaits with ⟨-, -, -, hothers⟩ | ⟨hnil, -⟩
      · exact (hothers u hu).2 (by rw [← hpid])
      · exact hrequests hnil
  exact ⟨hother, h.passed u (List.mem_of_mem_drop hu) hother⟩

end Peer

/-! ## The whole system -/

namespace System

variable {s s' : System σ}

/-- **One step** of a system whose replies are in order. -/
theorem attuned_stepped (h : s.Orderly env) {op : Op} (hs : Stepped env s op s') {pid : UInt32}
    (hattuned : (s.peers pid).mode ≠ .exited → (s.peers pid).Attuned pid)
    (hlive : (s'.peers pid).mode ≠ .exited) : (s'.peers pid).Attuned pid := by
  have hpeer := hs.peers pid
  have horderly := h.peers pid
  generalize s'.peers pid = p' at hpeer hlive
  cases hpeer with
  | idle => exact hattuned hlive
  | start _ => exact Peer.attuned_fresh pid
  | exit => exact absurd rfl hlive
  | send cmd data short =>
    refine (hattuned fun hexited => hlive ?_).send cmd data short
    rw [Peer.send, hexited]
    exact hexited
  | poll =>
    refine (hattuned fun hexited => hlive ?_).poll horderly hlive
    rw [Peer.poll, hexited]
    exact hexited
  | @handle sender r requests log _ hown hother habsent hshared =>
    have hlive : (s.peers pid).mode ≠ .exited := hlive
    by_cases hpid : sender = pid
    · subst hpid
      exact (hattuned hlive).deliver_own horderly hlive (hown rfl) log
    · obtain rfl := hother hpid
      refine (hattuned hlive).deliver_other horderly.read_le hpid fun w hw => ?_
      by_cases hthere : s.Listed env sender
      · exact (hshared hthere (h.listed pid hlive)).passed (Ne.symm hpid) hw
      · rw [habsent hthere] at hw
        exact absurd hw List.not_mem_nil

/-- What is known in a run that no message disturbs. -/
structure Attuned (env : ClientEnv σ) (s : System σ) : Prop where
  orderly : s.Orderly env
  peers : ∀ pid, (s.peers pid).mode ≠ .exited → (s.peers pid).Attuned pid

theorem attuned_start (env : ClientEnv σ) (rooms : List RoomSetup) (users : CString → Option UserData)
    (world : σ) : (start rooms users world).Attuned env :=
  ⟨orderly_start env rooms users world, fun _ h => absurd rfl h⟩

theorem Attuned.step (h : s.Attuned env) {op : Op} (hop : s.Undisturbed op) (hs : s.step env op = .ok s') :
    s'.Attuned env :=
  ⟨h.orderly.step hop hs,
    fun pid hlive => attuned_stepped h.orderly (stepped_step h.orderly.sound hs) (h.peers pid) hlive⟩

end System

/-! ## While a client waits -/

/-- As long as the client waits for this request, these are its requests, and nothing that matters has been added to
what it was written in the beginning.  What it has read it has read. -/
structure Peer.Pending (n k : ℕ) (requests : List Sent) (base : List Reply) (p : Peer) : Prop where
  sent : n < p.sent
  read : k ≤ p.read
  waits : p.mode = .waiting n → p.requests = requests ∧
    ∃ added, p.written = base ++ added ∧ ∀ u ∈ added, u.packet.code ∈ passedCodes

namespace System

variable {s s' : System σ}

/-- **One step** in which the master does not handle the request. -/
theorem pending_step (h : s.Manned env) {op : Op} (hs : s.step env op = .ok s') {pid : UInt32}
    (hop : op ≠ .disconnect pid) (hlisted : s.Listed env pid) {n k : ℕ} {requests : List Sent}
    {base : List Reply} (hhandle : op = .handle pid → requests = [])
    (hpending : (s.peers pid).Pending n k requests base) : (s'.peers pid).Pending n k requests base := by
  have hpeer := (stepped_step h.sound hs).peers pid
  generalize s'.peers pid = p' at hpeer
  cases hpeer with
  | idle => exact hpending
  | start hnone => exact absurd hlisted hnone
  | exit => exact absurd rfl hop
  | send cmd data short =>
    rcases (s.peers pid).send_cases cmd data short with hsend | ⟨-, hsend⟩
    · rwa [hsend]
    · rw [hsend]
      refine ⟨Nat.lt_succ_of_lt hpending.sent, hpending.read, fun hmode => ?_⟩
      exact absurd (Mode.waiting.inj hmode).symm hpending.sent.ne
  | poll =>
    obtain ⟨hwritten, hrequests, hsent⟩ := (s.peers pid).poll_pipes
    refine ⟨hsent ▸ hpending.sent, hpending.read.trans ?_, fun hmode => ?_⟩
    · rcases Peer.poll_cases (s.peers pid) with hpoll | ⟨u, rest, -, hpoll⟩
      · rw [hpoll]
      · rw [hpoll]
        exact Nat.le_succ _
    · rw [hwritten, hrequests]
      exact hpending.waits (Peer.mode_of_poll hmode)
  | @handle sender r requests' log _ hown hother habsent hshared =>
    refine ⟨hpending.sent, hpending.read, fun hmode => ?_⟩
    have hmode : (s.peers pid).mode = .waiting n := hmode
    obtain ⟨hrequests, added, hwritten, hadded⟩ := hpending.waits hmode
    by_cases hpid : sender = pid
    · subst hpid
      rw [hown rfl, hhandle rfl] at hrequests
      exact absurd hrequests (by simp)
    · obtain rfl := hother hpid
      refine ⟨hrequests, added ++ (log.filterMap (Event.writtenTo pid)).map (Reply.mk ⟨sender, r.number⟩), ?_,
        fun u hu => ?_⟩
      · rw [← List.append_assoc, ← hwritten]
        rfl
      · rcases List.mem_append.mp hu with hu | hu
        · exact hadded u hu
        · have hw := (Peer.mem_delivered hu).2
          by_cases hthere : s.Listed env sender
          · exact (hshared hthere hlisted).passed (Ne.symm hpid) hw
          · rw [habsent hthere] at hw
            exact absurd hw List.not_mem_nil

/-- **A run** in which the master does not handle the request. -/
theorem pending_run (h : s.Manned env) {pid : UInt32} (hlisted : s.Listed env pid) {n k : ℕ}
    {requests : List Sent} {base : List Reply} (hpending : (s.peers pid).Pending n k requests base)
    {ops : List Op} (hstays : Op.disconnect pid ∉ ops) (hhandle : Op.handle pid ∈ ops → requests = [])
    (hs : Runs.run (System.step env) s ops = .ok s') :
    (s'.Manned env ∧ s'.Listed env pid) ∧ (s'.peers pid).Pending n k requests base := by
  refine (Runs.frame_run
    (J := fun s => (s.Manned env ∧ s.Listed env pid) ∧ (s.peers pid).Pending n k requests base)
    (R := fun _ _ => True) (p := fun op => op ≠ .disconnect pid ∧ (op = .handle pid → requests = []))
    (fun _ => trivial) (fun _ _ _ _ _ => trivial) ?_ ⟨⟨h, hlisted⟩, hpending⟩ ?_ hs).1
  · rintro s op s' ⟨⟨hmanned, hlisted⟩, hpending⟩ ⟨hop, hop'⟩ hstep
    exact ⟨⟨⟨hmanned.step hstep, (stepped_step hmanned.sound hstep).kept pid hop hlisted⟩,
      pending_step hmanned hstep hop hlisted hop' hpending⟩, trivial⟩
  · intro op hop
    refine ⟨?_, ?_⟩
    · rintro rfl
      exact hstays hop
    · rintro rfl
      exact hhandle hop

/-- A client that waits for a request in the end of a run has waited for it from the beginning. -/
theorem waits_of_run (h : s.Manned env) {pid : UInt32} (hlisted : s.Listed env pid) {n : ℕ}
    (hread : (s.peers pid).read ≤ (s.peers pid).written.length) (hsent : n < (s.peers pid).sent) {ops : List Op}
    (hstays : Op.disconnect pid ∉ ops) (hs : Runs.run (System.step env) s ops = .ok s')
    (hwaits : (s'.peers pid).mode = .waiting n) : (s.peers pid).mode = .waiting n := by
  by_contra hmode
  have hleaves := leaves_run h hlisted (Peer.leaves_of_mode_ne hread hsent hmode 0) hstays hs
  rw [Nat.zero_sub] at hleaves
  exact hleaves.mode_ne hwaits

end System

/-! ## Requests in packets -/

/-- `STATE_INIT` and so on. -/
def stateNumber : ChildState → ℕ
  | .init => 0
  | .auth => 1
  | .checking => 2
  | .loggedin => 3
  | .admin => 4
  | .failed => 5

/-- What is written for a request.  It is left open for the requests that also write to others: the sessions do not
say what these do. -/
def InPacket : Request → UInt8 → List UInt8 → Prop
  | .changeState state, cmd, data => cmd = REQ_CHANGESTATE ∧ data = littleEndian 4 (stateNumber state)
  | .changeUser name, cmd, data => cmd = REQ_CHANGEUSER ∧ data = name.bytes ++ [0]
  | .setRoom id, cmd, data => cmd = REQ_SETROOM ∧ id < 256 ^ 4 ∧ data = littleEndian 4 id
  | .move dir, cmd, data => cmd = REQ_MOVE ∧ dir < 256 ^ 4 ∧ data = littleEndian 4 dir
  | .getUserData name, cmd, data => cmd = REQ_GETUSERDATA ∧ data = name.bytes ++ [0]
  | .delUserData name, cmd, data => cmd = REQ_DELUSERDATA ∧ data = name.bytes ++ [0]
  | .addUserData user, cmd, data =>
      cmd = REQ_ADDUSERDATA ∧ data.length = sizeofUserdata ∧ decodeUserData data = user
  | .lookAt name, cmd, data => cmd = REQ_LOOKAT ∧ data = name.bytes ++ [0]
  | .take name, cmd, data => cmd = REQ_TAKE ∧ data = name.bytes ++ [0]
  | .drop name, cmd, data => cmd = REQ_DROP ∧ data = name.bytes ++ [0]
  | .execVerb line, cmd, data => cmd = REQ_EXECVERB ∧ data = line.bytes ++ [0]
  | .wait, cmd, data => cmd = REQ_WAIT ∧ data = []
  | .getRoomDesc, cmd, data => cmd = REQ_GETROOMDESC ∧ data = []
  | .getRoomName, cmd, data => cmd = REQ_GETROOMNAME ∧ data = []
  | .printInventory, cmd, data => cmd = REQ_PRINTINVENTORY ∧ data = []
  | .listUsers, cmd, data => cmd = REQ_LISTUSERS ∧ data = []
  | .bcastMsg _, _, _ | .listClients, _, _ | .kick _ _, _, _ | .kickAll _, _, _ => False

theorem ofBuffer_terminated (s : CString) (later : List UInt8) : CString.ofBuffer (s.bytes ++ [0] ++ later) = s := by
  rw [ofBuffer_append (List.mem_append_right _ (List.mem_singleton_self _))]
  refine CString.ext ?_
  show (s.bytes ++ [0]).takeWhile (· != 0) = s.bytes
  have hall : ∀ c ∈ s.bytes, (c != 0) = true := fun c hc => bne_iff_ne.mpr fun h0 => s.2 (h0 ▸ hc)
  rw [List.takeWhile_append_of_pos hall]
  simp

theorem numberAt_littleEndian {n : ℕ} (h : n < 256 ^ 4) (later : List UInt8) :
    numberAt 0 4 (littleEndian 4 n ++ later) = n := by
  rw [numberAt, List.drop_zero, List.take_left' (length_littleEndian 4 n), ofLittleEndian_littleEndian h]

section Packets

variable {d : Dispatch σ} {data : List UInt8} {datalen : ℕ} {sender : ChildData} {h : Handling σ} {r : Request}

/-- The request was handled as such, and the answer was written, and the end. -/
def Answers (env : ClientEnv σ) (d : Dispatch σ) (sender : ChildData) (r : Request) (h : Handling σ) : Prop :=
  ∃ packets, handleRequest env d.server sender r = .ok (packets, h.dispatch.server) ∧
    h.log.filterMap (Event.writtenTo sender.pid) = packets.map .answer ++ [.raw REQ_ALLDONE []]

/-- The answers of a finalizer are all for the sender. -/
theorem writtenTo_answers (pid : UInt32) (packets : List Packet) :
    (packets.map fun p => Event.wrote pid (.answer p)).filterMap (Event.writtenTo pid) =
      packets.map .answer := by
  rw [List.filterMap_map, ← List.filterMap_eq_map]
  exact List.filterMap_congr fun p _ => by simp [Event.writtenTo]

/-- Every entry is found by its code. -/
theorem find_requests {req : ChildRequest} (hreq : req ∈ requests) :
    requests.find? (fun r => r.code = req.code) = some req := by
  have hall : ∀ req ∈ requests, requests.find? (fun r => r.code = req.code) = some req := by decide
  exact hall req hreq

/-- A request that is nothing but a finalizer. -/
theorem answers_of_finalizer {code : UInt8} (havedata : Bool) (f : Finalizer)
    (hreq : ⟨code, havedata, .childNone, none, some f⟩ ∈ requests)
    (hrun : f.run env d.server data datalen sender = handleRequest env d.server sender r)
    (hok : Dispatch.answerRequest env code data datalen sender ⟨[], d⟩ = .ok h) : Answers env d sender r h := by
  obtain ⟨s₁, s₂, h₁, h₂, rfl⟩ := (answerRequest_of_some (find_requests hreq)).mp hok
  obtain rfl := Except.ok.inj h₁
  obtain ⟨a, ha, h₂⟩ := bind_eq_ok h₂
  obtain rfl := Except.ok.inj h₂
  refine ⟨a.1, hrun.symm.trans ha, ?_⟩
  show ([] ++ Event.finalized :: (a.1.map fun p => .wrote sender.pid (.answer p)) ++
      [allDone sender.pid]).filterMap (Event.writtenTo sender.pid) = _
  rw [List.nil_append, List.filterMap_append, List.filterMap_cons_none rfl, writtenTo_answers]
  simp [Event.writtenTo, allDone]

/-- A request about the child itself, which is nothing but a `handle_child`. -/
theorem answers_of_handler {code : UInt8} (handler : ChildHandler)
    (hreq : ⟨code, true, .childSender, some handler, none⟩ ∈ requests)
    (hevents : handler.events env.asserts d data datalen sender sender = .ok [])
    (hchange : handleRequest env d.server sender r =
      .ok ([], (handler.change env.asserts d data datalen sender).server))
    (hok : Dispatch.answerRequest env code data datalen sender ⟨[], d⟩ = .ok h) : Answers env d sender r h := by
  obtain ⟨s₁, s₂, h₁, h₂, rfl⟩ := (answerRequest_of_some (find_requests hreq)).mp hok
  have h₁ : callHandleChild env.asserts (some handler) data datalen sender sender ⟨[], d⟩ = .ok s₁ := h₁
  have hcall : callHandleChild env.asserts (some handler) data datalen sender sender ⟨[], d⟩ =
      .ok ⟨[.handled sender.pid], handler.change env.asserts d data datalen sender⟩ := by
    rw [callHandleChild]
    dsimp only
    rw [hevents]
    rfl
  obtain rfl := Except.ok.inj (hcall.symm.trans h₁)
  obtain rfl := Except.ok.inj h₂
  refine ⟨[], hchange, ?_⟩
  show ([Event.handled sender.pid] ++ [allDone sender.pid]).filterMap (Event.writtenTo sender.pid) = _
  simp [Event.writtenTo, allDone, List.filterMap_cons]

/-- **A request in a packet** is handled as the request that it is. -/
theorem answers_answerRequest {cmd : UInt8} {later : List UInt8} (hr : InPacket r cmd data)
    (hok : Dispatch.answerRequest env cmd (data ++ later) data.length sender ⟨[], d⟩ = .ok h) :
    Answers env d sender r h := by
  cases r with
  | bcastMsg text | listClients | kick pid text | kickAll text => exact hr.elim
  | changeState state =>
    obtain ⟨rfl, rfl⟩ := hr
    refine answers_of_handler .changeState (by decide) rfl ?_ hok
    show Except.ok ([], d.server) = .ok ([], (reqChangeState d _ _ sender).server)
    rw [reqChangeState]
    split <;> rfl
  | changeUser name =>
    obtain ⟨rfl, rfl⟩ := hr
    refine answers_of_handler .changeUser (by decide) rfl ?_ hok
    rw [ChildHandler.change, ofBuffer_terminated]
    rfl
  | setRoom id =>
    obtain ⟨rfl, hid, rfl⟩ := hr
    exact answers_of_finalizer true .setRoom (by decide) (by rw [Finalizer.run, numberAt_littleEndian hid]) hok
  | move dir =>
    obtain ⟨rfl, hdir, rfl⟩ := hr
    exact answers_of_finalizer true .moveRoom (by decide) (by rw [Finalizer.run, numberAt_littleEndian hdir]) hok
  | getUserData name =>
    obtain ⟨rfl, rfl⟩ := hr
    exact answers_of_finalizer true .sendUser (by decide)
      (by rw [Finalizer.run, if_pos (by simp), ofBuffer_terminated]) hok
  | delUserData name =>
    obtain ⟨rfl, rfl⟩ := hr
    exact answers_of_finalizer true .delUser (by decide)
      (by rw [Finalizer.run, if_pos (by simp), ofBuffer_terminated]) hok
  | addUserData user =>
    obtain ⟨rfl, hlen, rfl⟩ := hr
    exact answers_of_finalizer true .addUser (by decide)
      (by rw [Finalizer.run, if_pos hlen, List.take_left' hlen]) hok
  | lookAt name =>
    obtain ⟨rfl, rfl⟩ := hr
    exact answers_of_finalizer true .lookAt (by decide) (by rw [Finalizer.run, ofBuffer_terminated]) hok
  | take name =>
    obtain ⟨rfl, rfl⟩ := hr
    exact answers_of_finalizer true .take (by decide) (by rw [Finalizer.run, ofBuffer_terminated]) hok
  | drop name =>
    obtain ⟨rfl, rfl⟩ := hr
    exact answers_of_finalizer true .drop (by decide) (by rw [Finalizer.run, ofBuffer_terminated]) hok
  | execVerb line =>
    obtain ⟨rfl, rfl⟩ := hr
    exact answers_of_finalizer true .execverb (by decide) (by rw [Finalizer.run, ofBuffer_terminated]) hok
  | wait =>
    obtain ⟨rfl, rfl⟩ := hr
    exact answers_of_finalizer false .wait (by decide) rfl hok
  | getRoomDesc =>
    obtain ⟨rfl, rfl⟩ := hr
    exact answers_of_finalizer false .sendDesc (by decide) rfl hok
  | getRoomName =>
    obtain ⟨rfl, rfl⟩ := hr
    exact answers_of_finalizer false .sendRoomname (by decide) rfl hok
  | printInventory =>
    obtain ⟨rfl, rfl⟩ := hr
    exact answers_of_finalizer false .inventory (by decide) rfl hok
  | listUsers =>
    obtain ⟨rfl, rfl⟩ := hr
    exact answers_of_finalizer false .listusers (by decide) rfl hok

end Packets

/-- A request from the pipe of a child, as the sessions have it. -/
theorem atomic_handleChildReq {d : Dispatch σ} {buf : PacketBuf} {q : Sent} {pid : UInt32} {r : Request}
    (hd : d.server.master.Sound env.asserts) (hlisted : (d.server.master.child env.asserts pid).isSome)
    (hr : InPacket r q.cmd q.data) {b : Bool} {h : Handling σ}
    (hok : Dispatch.handleChildReq env d buf (q.received pid) = .ok (b, h)) :
    ∃ answer, NetCosm.handleChildReq { env with pid } d.server r = .ok (answer ++ [.allDone], h.dispatch.server) ∧
      h.log.filterMap (Event.writtenTo pid) = answer.map .answer ++ [.raw REQ_ALLDONE []] ∧
      .allDone ∉ answer := by
  obtain ⟨sender, hsender⟩ := Option.isSome_iff_exists.mp hlisted
  obtain rfl : sender.pid = pid := hd.numbered.pid_eq _ _ hsender
  rw [handleChildReq_received env q hsender] at hok
  obtain ⟨h', hanswer, heq⟩ := map_eq_ok hok
  obtain ⟨-, rfl⟩ := Prod.mk.inj heq
  obtain ⟨answer, hhandled, hwritten⟩ := answers_answerRequest hr hanswer
  refine ⟨answer, ?_, hwritten, allDone_notMem_handleRequest hhandled⟩
  have hthere : d.server.master.child ({ env with pid := sender.pid } : ClientEnv σ).asserts
      ({ env with pid := sender.pid } : ClientEnv σ).pid = some sender := hsender
  rw [NetCosm.handleChildReq, hthere]
  dsimp only
  rw [hhandled]
  rfl

/-! ## What a client reads -/

/-- Without a kick, all of the answer is read. -/
theorem receiveAll_answer {answer : List Packet} (hdone : .allDone ∉ answer)
    (hkick : ∀ p ∈ answer, p.code ≠ REQ_KICK) (ticket : Ticket) (c : Client) :
    takesAll ((answer.map Written.answer ++ [Written.raw REQ_ALLDONE []]).map (Reply.mk ticket)) c =
      c.receiveAll (answer ++ [.allDone]) := by
  induction answer generalizing c with
  | nil => rfl
  | cons p answer ih =>
    obtain ⟨hp, hkick⟩ := List.forall_mem_cons.mp hkick
    have ih := ih (fun hmem => hdone (List.mem_cons_of_mem _ hmem)) hkick (c.receive p)
    cases p with
    | kick text => exact absurd rfl hp
    | allDone => exact absurd List.mem_cons_self hdone
    | _ => exact ih

/-- What a client reads while it waits is what is written to it in the meantime, but for what does not matter. -/
theorem takesAll_between {p p' : Peer} {pid : UInt32} (hp : p.Attuned pid) (horderly : p.Orderly pid)
    (hmode : p.mode = .reading) (hp' : p'.Attuned pid) (horderly' : p'.Orderly pid) (hmode' : p'.mode = .reading)
    {added : List Reply} (hwritten : p'.written = p.written ++ added) (hread : p.read ≤ p'.read) :
    ∃ new, p'.consumed = p.consumed ++ new ∧ (∀ u ∈ added, u.ticket.pid = pid → u ∈ new) ∧
      ∀ c, takesAll new c = takesAll added c := by
  have hfront : p.consumed = p'.consumed.take p.read := by
    rw [Peer.consumed, Peer.consumed, List.take_take, Nat.min_eq_left hread, hwritten,
      List.take_append_of_le_length horderly.read_le]
  have hsplit : p'.consumed = p.consumed ++ p'.consumed.drop p.read := by
    rw [hfront, List.take_append_drop]
  refine ⟨_, hsplit, ?_, ?_⟩
  all_goals
    -- what was unread, and what was added, is what is read and what is left unread
    have hbalance : p.unread ++ added = p'.consumed.drop p.read ++ p'.unread := by
      have hall : p.consumed ++ (p.unread ++ added) = p.consumed ++ (p'.consumed.drop p.read ++ p'.unread) := by
        rw [← List.append_assoc, ← List.append_assoc, ← hsplit, Peer.consumed, Peer.unread, List.take_append_drop,
          ← hwritten, Peer.consumed, Peer.unread, List.take_append_drop]
      exact List.append_cancel_left hall
  · intro u hu hpid
    have hmem : u ∈ p'.consumed.drop p.read ++ p'.unread := by
      rw [← hbalance]
      exact List.mem_append_right _ hu
    exact (List.mem_append.mp hmem).resolve_right fun hu =>
      (hp'.passed_unread horderly' (Or.inl hmode') hu).1 hpid
  · intro c
    have hbefore : takesAll p.unread c = c :=
      takesAll_of_passed (fun u hu => (hp.passed_unread horderly (Or.inl hmode) hu).2) c
    have hall : takesAll (p.unread ++ added) c = takesAll (p'.consumed.drop p.read ++ p'.unread) c := by
      rw [hbalance]
    rw [takesAll_append, takesAll_append, hbefore,
      takesAll_of_passed fun u hu => (hp'.passed_unread horderly' (Or.inl hmode') hu).2] at hall
    exact hall.symm

/-! ## From the request to its return -/

namespace System

variable {s s' t : System σ}

theorem Attuned.run (h : s.Attuned env) {ops : List Op}
    (hundisturbed : Runs.EachDone (System.step env) System.Undisturbed s ops)
    (hrun : Runs.run (System.step env) s ops = .ok t) : t.Attuned env :=
  (Runs.always_of_eachStep (I := System.Attuned env)
    (fun _ _ s' hs hop hstep => hs.step (hop s' hstep) hstep) h hundisturbed).last hrun

/-- **The request is sent.** -/
theorem Attuned.pending_send (h : s.Attuned env) {pid : UInt32} {cmd : UInt8} {data : List UInt8}
    {short : data.length + 5 ≤ MSG_MAX} (hreading : (s.peers pid).mode = .reading)
    (hs : s.step env (.send pid cmd data short) = .ok s') :
    s'.Listed env pid ∧ (s'.peers pid).Pending (s.peers pid).sent (s.peers pid).read
      [⟨(s.peers pid).sent, cmd, data, short⟩] (s.peers pid).written := by
  refine ⟨(stepped_step h.orderly.sound hs).kept pid (by simp)
    (h.orderly.listed pid (by rw [hreading]; simp)), ?_⟩
  obtain rfl := Except.ok.inj hs
  show (Function.update s.peers pid ((s.peers pid).send cmd data short) pid).Pending _ _ _ _
  rw [Function.update_self, Peer.send, hreading]
  refine ⟨Nat.lt_succ_self _, Nat.le_refl _, fun _ => ⟨?_, [], by simp, by simp⟩⟩
  show (s.peers pid).requests ++ _ = _
  rw [(h.orderly.peers pid).quiet (Or.inl hreading), List.nil_append]

/-- **The master handles the request.** -/
theorem Manned.pending_handle (h : s.Manned env) {pid : UInt32} (hlisted : s.Listed env pid) {n k : ℕ} {q : Sent}
    {base : List Reply} (hpending : (s.peers pid).Pending n k [q] base) (hwaits : (s.peers pid).mode = .waiting n)
    {r : Request} (hr : InPacket r q.cmd q.data) (hs : s.step env (.handle pid) = .ok s') :
    ∃ answer before, NetCosm.handleChildReq { env with pid } s.dispatch.server r =
        .ok (answer ++ [.allDone], s'.dispatch.server) ∧ .allDone ∉ answer ∧
      (∀ u ∈ before, u.packet.code ∈ passedCodes) ∧
      (s'.peers pid).Pending n k [] (base ++ (before ++
        (answer.map Written.answer ++ [Written.raw REQ_ALLDONE []]).map (Reply.mk ⟨pid, q.number⟩))) := by
  obtain ⟨hrequests, before, hwritten, hpassed⟩ := hpending.waits hwaits
  have hs : s.handle env pid = .ok s' := hs
  rw [System.handle, hrequests] at hs
  obtain ⟨⟨b, hd⟩, hhandled, hs⟩ := bind_eq_ok hs
  obtain rfl := Except.ok.inj hs
  obtain ⟨answer, hanswer, hlog, hdone⟩ := atomic_handleChildReq h.sound hlisted hr hhandled
  refine ⟨answer, before, hanswer, hdone, hpassed, ?_⟩
  show ((Function.update s.peers pid { s.peers pid with requests := [] } pid).deliver pid ⟨pid, q.number⟩
    hd.log).Pending n k [] _
  rw [Function.update_self]
  refine ⟨hpending.sent, hpending.read, fun _ => ⟨rfl, [], ?_, by simp⟩⟩
  show (s.peers pid).written ++ (hd.log.filterMap (Event.writtenTo pid)).map (Reply.mk ⟨pid, q.number⟩) = _
  rw [hlog, hwritten, List.append_nil, List.append_assoc]

/-- A request that returns has been handled. -/
theorem Attuned.handled_of_return (h : s.Attuned env) {pid : UInt32} {n : ℕ}
    (hwaits : (s.peers pid).mode = .waiting n) (hreturns : (s.peers pid).poll.mode = .reading) :
    (s.peers pid).requests = [] := by
  rcases (h.orderly.peers pid).awaits n hwaits with ⟨-, -, -, hnone⟩ | ⟨hnil, -⟩
  · rcases Peer.poll_cases (s.peers pid) with hpoll | ⟨u, rest, hunread, hpoll⟩
    · rw [hpoll, hwaits] at hreturns
      exact absurd hreturns (by simp)
    · rw [hpoll, hwaits] at hreturns
      exact absurd (Peer.receive_waiting.1 hreturns) (hnone u (by rw [hunread]; exact List.mem_cons_self)).1
  · exact hnil

end System

/-- **`send_master` is as good as atomic**, in every run in which no message disturbs a reply.  If it sends a request
and returns, there is one step in between in which the master handles the request.  There it does what `sendMaster`
does in a session with the same state of the master, and what the client has read until the return makes of its
variables what `sendMaster` makes of them. -/
theorem send_master_atomic (env : ClientEnv σ) (rooms : List RoomSetup) (users : CString → Option UserData)
    (world : σ) {before mid : List Op} {s u t : System σ} {pid : UInt32} {r : Request} {cmd : UInt8}
    {data : List UInt8} {short : data.length + 5 ≤ MSG_MAX} (hr : InPacket r cmd data)
    (hundisturbed : Runs.EachDone (System.step env) System.Undisturbed (System.start rooms users world)
      (before ++ .send pid cmd data short :: mid))
    (hbefore : Runs.run (System.step env) (System.start rooms users world) before = .ok s)
    (hreading : (s.peers pid).mode = .reading)
    (hmid : Runs.run (System.step env) s (.send pid cmd data short :: mid) = .ok u)
    (hstays : Op.disconnect pid ∉ mid) (hwaits : (u.peers pid).mode = .waiting (s.peers pid).sent)
    (hback : u.step env (.poll pid) = .ok t) (hreturns : (t.peers pid).mode = .reading) :
    ∃ as bs m m' new, mid = as ++ .handle pid :: bs ∧
      Runs.run (System.step env) s (.send pid cmd data short :: as) = .ok m ∧ m.step env (.handle pid) = .ok m' ∧
      (t.peers pid).consumed = (s.peers pid).consumed ++ new ∧
      ∀ session : Session σ, session.server = m.dispatch.server →
        (session.call { env with pid } r).exceeded = false →
        ((sendMaster { env with pid } r).final session).server = m'.dispatch.server ∧
          ((sendMaster { env with pid } r).final session).client =
            takesAll new (session.limited { env with pid } r).client := by
  obtain ⟨hundisturbed, hrest⟩ := Runs.eachStep_append_iff.mp hundisturbed
  have hs : s.Attuned env := (System.attuned_start env rooms users world).run hundisturbed hbefore
  have hu : u.Attuned env := hs.run (hrest s hbefore) hmid
  have hquiet : u.Undisturbed (.poll pid) := trivial
  have ht : t.Attuned env := hu.step hquiet hback
  have hpoll : t.peers pid = (u.peers pid).poll := by
    obtain rfl := Except.ok.inj hback
    exact Function.update_self ..
  obtain ⟨s₁, hsend, hmid'⟩ := Runs.run_cons_eq_ok hmid
  obtain ⟨hlisted₁, hpending₁⟩ := hs.pending_send hreading hsend
  have hlive₁ : s₁.Live env := by
    have hlive : s.Live env := Runs.invariant_run (fun _ _ _ hs hstep => hs.step hstep)
      (System.live_start env rooms users world) hbefore
    exact hlive.step hsend
  -- the request has been handled, for otherwise it would still be in the pipe
  have hhandled : Op.handle pid ∈ mid := by
    by_contra hnone
    obtain ⟨-, hpending⟩ := System.pending_run hlive₁.manned hlisted₁ hpending₁ hstays
      (fun h => absurd h hnone) hmid'
    have hnil := hu.handled_of_return hwaits (hpoll ▸ hreturns)
    rw [(hpending.waits hwaits).1] at hnil
    exact absurd hnil (by simp)
  obtain ⟨as, bs, rfl, hfirst⟩ := List.eq_append_cons_of_mem hhandled
  obtain ⟨m, has, hrest'⟩ := Runs.run_append_eq_ok hmid'
  obtain ⟨m', hhandle, hbs⟩ := Runs.run_cons_eq_ok hrest'
  have hstaysAs : Op.disconnect pid ∉ as := fun h => hstays (List.mem_append_left _ h)
  have hstaysBs : Op.disconnect pid ∉ bs := fun h => hstays (List.mem_append_right _ (List.mem_cons_of_mem _ h))
  obtain ⟨⟨hmanned, hlisted⟩, hpending⟩ := System.pending_run hlive₁.manned hlisted₁ hpending₁ hstaysAs
    (fun h => absurd h hfirst) has
  have hlive : m.Live env := Runs.invariant_run (fun _ _ _ hs hstep => hs.step hstep) hlive₁ has
  have hwaits' : (m.peers pid).mode = .waiting (s.peers pid).sent := by
    refine System.waits_of_run hmanned hlisted (hlive.served pid).read_le hpending.sent ?_ hrest' hwaits
    simpa using hstaysBs
  obtain ⟨answer, early, hanswer, hdone, hearly, hpending'⟩ :=
    hmanned.pending_handle hlisted hpending hwaits' hr hhandle
  obtain ⟨-, hpending''⟩ := System.pending_run (hmanned.step hhandle)
    ((System.stepped_step hmanned.sound hhandle).kept pid (by simp) hlisted) hpending' hstaysBs (fun _ => rfl) hbs
  obtain ⟨-, late, hwritten, hlate⟩ := hpending''.waits hwaits
  -- what the client has read is what is written to it in the meantime, and of this only the answer matters
  have hreads : (s.peers pid).read ≤ (t.peers pid).read := by
    rw [hpoll]
    rcases Peer.poll_cases (u.peers pid) with hsame | ⟨v, rest, -, hnext⟩
    · rw [hsame]
      exact hpending''.read
    · rw [hnext]
      exact Nat.le_succ_of_le hpending''.read
  have hadded : (t.peers pid).written = (s.peers pid).written ++ (early ++
      (answer.map Written.answer ++ [Written.raw REQ_ALLDONE []]).map (Reply.mk ⟨pid, (s.peers pid).sent⟩) ++
        late) := by
    rw [hpoll, (u.peers pid).poll_pipes.1, hwritten, List.append_assoc]
  obtain ⟨new, hconsumed, hown, hsame⟩ := takesAll_between (hs.peers pid (by rw [hreading]; simp))
    (hs.orderly.peers pid) hreading (ht.peers pid (by rw [hreturns]; simp)) (ht.orderly.peers pid) hreturns
    hadded hreads
  refine ⟨as, bs, m, m', new, rfl, Runs.run_cons_ok hsend as ▸ has, hhandle, hconsumed,
    fun session hserver hexceeded => ?_⟩
  have hkick : ∀ p ∈ answer, p.code ≠ REQ_KICK := by
    intro p hp
    have hmem : (⟨⟨pid, (s.peers pid).sent⟩, .answer p⟩ : Reply) ∈ new := by
      refine hown _ (List.mem_append_left _ (List.mem_append_right _ (List.mem_map.mpr ⟨_, ?_, rfl⟩))) rfl
      exact List.mem_append_left _ (List.mem_map.mpr ⟨p, hp, rfl⟩)
    exact (ht.peers pid (by rw [hreturns]; simp)).spared _ (by rw [hconsumed]; exact List.mem_append_right _ hmem)
  rw [Session.final_sendMaster, hexceeded, hserver, hanswer]
  refine ⟨rfl, ?_⟩
  rw [hsame, takesAll_append, takesAll_append, takesAll_of_passed hearly, takesAll_of_passed hlate,
    receiveAll_answer hdone hkick]
  rfl

/-- While 9 waits for the answer to a move, 7 says something, and the master handles both. -/
def sampleMeantime : List Op :=
  [.send 7 REQ_BCASTMSG [97] short_letter, .handle 9, .poll 9, .handle 7, .poll 9]

/-- There is no exit, and 9 reads so before it reads the message of 7. -/
theorem move_atomic :
    ∃ s u t, Runs.run (System.step quietEnv) sampleStart (sampleRequests.take 2) = .ok s ∧
      Runs.run (System.step quietEnv) s (.send 9 REQ_MOVE [0, 0, 0, 0] (by decide) :: sampleMeantime) = .ok u ∧
      u.step quietEnv (.poll 9) = .ok t ∧ (t.peers 9).mode = .reading ∧
      ∃ (m : System Unit) (new : List Reply), (t.peers 9).consumed = (s.peers 9).consumed ++ new ∧
        ∀ session : Session Unit, session.server = m.dispatch.server →
          (session.call { quietEnv with pid := 9 } (.move 0)).exceeded = false →
          ((sendMaster { quietEnv with pid := 9 } (.move 0)).final session).client =
            takesAll new (session.limited { quietEnv with pid := 9 } (.move 0)).client := by
  have hcheck : (Runs.run (System.step quietEnv) sampleStart (sampleRequests.take 2)).toOption.any (fun s =>
      decide ((s.peers 9).mode = .reading) && decide ((s.peers 9).sent = 0) &&
        (Runs.run (System.step quietEnv) s (.send 9 REQ_MOVE [0, 0, 0, 0] (by decide) ::
          sampleMeantime)).toOption.any fun u =>
            decide ((u.peers 9).mode = .waiting 0) && (u.step quietEnv (.poll 9)).toOption.any fun t =>
              decide ((t.peers 9).mode = .reading)) = true := by
    decide +kernel
  have hsteps : Runs.EachStep (System.step quietEnv) System.Undisturbed sampleStart
      (sampleRequests.take 2 ++ .send 9 REQ_MOVE [0, 0, 0, 0] (by decide) :: sampleMeantime) := by
    decide +kernel
  obtain ⟨s, hs, hcheck⟩ := exists_of_any_toOption hcheck
  obtain ⟨hstart, hcheck⟩ := Bool.and_eq_true_iff.mp hcheck
  obtain ⟨hreading, hsent⟩ := Bool.and_eq_true_iff.mp hstart
  obtain ⟨u, hu, hcheck⟩ := exists_of_any_toOption hcheck
  obtain ⟨hwaits, hcheck⟩ := Bool.and_eq_true_iff.mp hcheck
  obtain ⟨t, ht, hreturns⟩ := exists_of_any_toOption hcheck
  have hreturns : (t.peers 9).mode = .reading := of_decide_eq_true hreturns
  have hsent : (s.peers 9).sent = 0 := of_decide_eq_true hsent
  have hwaits : (u.peers 9).mode = .waiting (s.peers 9).sent := by
    rw [hsent]
    exact of_decide_eq_true hwaits
  have hpacket : InPacket (.move 0) REQ_MOVE [0, 0, 0, 0] := ⟨rfl, by decide, by decide⟩
  obtain ⟨as, bs, m, m', new, -, -, -, hconsumed, hsame⟩ := send_master_atomic quietEnv _ _ () hpacket
    hsteps.done hs (of_decide_eq_true hreading) hu (by simp [sampleMeantime]) hwaits ht hreturns
  exact ⟨s, u, t, hs, hu, ht, hreturns, m, new, hconsumed,
    fun session hserver hexceeded => (hsame session hserver hexceeded).2⟩

end Replies

end NetCosm
