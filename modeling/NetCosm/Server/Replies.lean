import NetCosm.Server.FanOut
import NetCosm.Storage.Files

/-!
# Which reply a client takes for its own

`send_master` writes a request into the pipe of the child, and then reads packets until `poll_requests` has
seen a `REQ_ALLDONE`.  That packet does not say which request is done, and `req_pass_msg` writes it too: every
child that is passed a message is told that all is done, so that a child that waits for a line, and has
called `poll_requests` because there was a packet, comes back to the line.

A child that waits for a reply is told so as well.  If the message is handled before its request, it reads the
message and takes what follows for the end of its own reply.  `send_master` returns, the reply is still to
come, and the next request will be given it.

## The system

A `Peer` is a client with its two pipes.  Packets are delivered in order, so the pipe to the client is the
list of all that was written to it and the number of packets that have been read.  Every packet is kept with
the request that was being handled when it was written.  The clients and the master take steps in any order.

## When replies stay together

`repliesWhole_of_undisturbed`: in every run in which no message is handled while another client waits for a
request that is not handled yet, and no client sends a request while the end of a message is still in its
pipe, `send_master` returns only after the whole of its own reply.
-/

namespace NetCosm

/-! ## Codes of packets -/

def REQ_PRINTNEWLINE : UInt8 := 16
def REQ_RAWMODE : UInt8 := 25

/-- The code of an answer. -/
def Packet.code : Packet → UInt8
  | .rawMode => REQ_RAWMODE
  | .bcastMsg _ => REQ_BCASTMSG
  | .kick _ => REQ_KICK
  | .move _ => REQ_MOVE
  | .getUserData _ => REQ_GETUSERDATA
  | .delUserData _ => REQ_DELUSERDATA
  | .addUserData _ => REQ_ADDUSERDATA
  | .nop => REQ_NOP
  | .printNewline => REQ_PRINTNEWLINE
  | .allDone => REQ_ALLDONE

/-- The code of a packet. -/
def Written.code : Written → UInt8
  | .raw cmd _ => cmd
  | .answer p => p.code

theorem tellsDone_iff {w : Written} : w.TellsDone ↔ w.code = REQ_ALLDONE := by
  cases w with
  | raw cmd data => exact Iff.rfl
  | answer p => cases p <;> simp [Written.TellsDone, Written.code, Packet.code] <;> decide

/-- The buffer after `read`. -/
def PacketBuf.next (buf : PacketBuf) (o : PacketRead) : PacketBuf where
  bytes := buf.after o
  length_eq := by
    cases o with
    | failed => exact buf.length_eq
    | received bytes short =>
      rw [after, List.length_append, List.length_drop, buf.length_eq]
      omega
  last_eq := by
    cases o with
    | failed => exact buf.last_eq
    | received bytes short =>
      have hlen : ¬ buf.bytes.length ≤ bytes.length := by
        rw [buf.length_eq]
        omega
      rw [after, List.getLast?_append, List.getLast?_drop, if_neg hlen, buf.last_eq]
      rfl

namespace Replies

open Storage

variable {σ : Type}

/-! ## Clients and their pipes -/

/-- A request: who sent it, and how many it had sent before. -/
structure Ticket where
  pid : UInt32
  number : ℕ
  deriving DecidableEq

/-- A packet, and the request that was being handled when it was written. -/
structure Reply where
  ticket : Ticket
  packet : Written
  deriving DecidableEq

/-- A request that the master has not read yet. -/
structure Sent where
  number : ℕ
  cmd : UInt8
  data : List UInt8
  short : data.length + 5 ≤ MSG_MAX

/-- What a client is doing. -/
inductive Mode where
  /-- It waits for a line, or for a packet. -/
  | reading
  /-- It is in `poll_requests`, while it waits for a line. -/
  | polling
  /-- It is in `send_master`, with this request. -/
  | waiting (number : ℕ)
  | exited
  deriving DecidableEq

/-- The request a client waits for. -/
def Mode.request : Mode → Option ℕ
  | .waiting number => some number
  | .reading | .polling | .exited => none

/-- A client, the pipe to the master, and the pipe from the master: all that was written to it, and how many
of these packets have been read. -/
structure Peer where
  mode : Mode
  sent : ℕ
  requests : List Sent
  written : List Reply
  read : ℕ

namespace Peer

/-- A process that has just been started. -/
def fresh : Peer := ⟨.reading, 0, [], [], 0⟩

/-- There is no process. -/
def none : Peer := ⟨.exited, 0, [], [], 0⟩

/-- What has been read from the pipe. -/
def consumed (p : Peer) : List Reply := p.written.take p.read

/-- What is in the pipe. -/
def unread (p : Peer) : List Reply := p.written.drop p.read

/-- The head of `send_master`, of a request that the limiter lets through. -/
def send (p : Peer) (cmd : UInt8) (data : List UInt8) (short : data.length + 5 ≤ MSG_MAX) : Peer :=
  match p.mode with
  | .reading =>
      { p with
        mode := .waiting p.sent
        sent := p.sent + 1
        requests := p.requests ++ [⟨p.sent, cmd, data, short⟩] }
  | .polling | .waiting _ | .exited => p

/-- What a client is doing after a packet in `poll_requests`.  The end of a reply completes the request, and
leaves `poll_requests`; otherwise it goes on reading. -/
def receive (mode : Mode) (w : Written) : Mode :=
  if w.code = REQ_KICK then .exited
  else if w.code = REQ_ALLDONE then .reading
  else
    match mode with
    | .reading | .polling => .polling
    | .waiting number => .waiting number
    | .exited => .exited

/-- One `read` of `poll_requests`, which waits until there is a packet. -/
def poll (p : Peer) : Peer :=
  match p.mode with
  | .exited => p
  | mode =>
      match p.unread with
      | [] => p
      | r :: _ => { p with mode := receive mode r.packet, read := p.read + 1 }

/-- Packets are written to a client while a request is handled. -/
def deliver (p : Peer) (pid : UInt32) (ticket : Ticket) (log : List Event) : Peer :=
  { p with written := p.written ++ (log.filterMap (Event.writtenTo pid)).map (Reply.mk ticket) }

end Peer

/-! ## The system -/

/-- The packet of a request: the pid, the code, and the data. -/
def packetOf (pid : UInt32) (cmd : UInt8) (data : List UInt8) : List UInt8 :=
  littleEndian 4 pid.toNat ++ cmd :: data

theorem length_packetOf (pid : UInt32) (cmd : UInt8) (data : List UInt8) :
    (packetOf pid cmd data).length = data.length + 5 := by
  rw [packetOf, List.length_append, length_littleEndian, List.length_cons]
  omega

/-- What `read` gives the master. -/
def Sent.received (r : Sent) (pid : UInt32) : PacketRead :=
  .received (packetOf pid r.cmd r.data) (by rw [length_packetOf]; exact r.short)

/-- The master, its buffer, and the clients. -/
structure System (σ : Type) where
  dispatch : Dispatch σ
  buf : PacketBuf
  peers : UInt32 → Peer

/-- Before the first connection. -/
def System.start (rooms : List RoomSetup) (users : CString → Option UserData) (world : σ) : System σ where
  dispatch := ⟨⟨Master.init rooms, users, world⟩, fun _ => 0, fun _ => .ofChars []⟩
  buf := .zero
  peers _ := .none

/-- A step of the master, or of a client. -/
inductive Op where
  | connect (pid : UInt32) (addr : CString)
  | disconnect (pid : UInt32)
  | send (pid : UInt32) (cmd : UInt8) (data : List UInt8) (short : data.length + 5 ≤ MSG_MAX)
  | handle (pid : UInt32)
  | poll (pid : UInt32)

namespace System

variable {env : ClientEnv σ}

/-- A child is connected with a pid that is not in use. -/
def connect (env : ClientEnv σ) (s : System σ) (pid : UInt32) (addr : CString) :
    Except Fault (System σ) :=
  match s.dispatch.server.master.child env.asserts pid with
  | some _ => .ok s
  | none => do
      let master ← newConnection env.asserts s.dispatch.server.master pid
      .ok { s with
        dispatch := ⟨{ s.dispatch.server with master }, Function.update s.dispatch.state pid 0,
          Function.update s.dispatch.peer pid addr⟩
        peers := Function.update s.peers pid .fresh }

/-- The process of a child ends, and the master sees it. -/
def disconnect (env : ClientEnv σ) (s : System σ) (pid : UInt32) : Except Fault (System σ) :=
  match s.dispatch.server.master.child env.asserts pid with
  | none => .ok s
  | some _ => do
      let master ← handleDisconnect env.asserts s.dispatch.server.master pid
      .ok { s with
        dispatch := { s.dispatch with server := { s.dispatch.server with master } }
        peers := Function.update s.peers pid { s.peers pid with mode := .exited } }

/-- The master reads a request of a child, if there is one, and handles it. -/
def handle (env : ClientEnv σ) (s : System σ) (pid : UInt32) : Except Fault (System σ) :=
  match (s.peers pid).requests with
  | [] => .ok s
  | r :: rest => do
      let (_, h) ← Dispatch.handleChildReq env s.dispatch s.buf (r.received pid)
      .ok
        { dispatch := h.dispatch
          buf := s.buf.next (r.received pid)
          peers := fun q =>
            (Function.update s.peers pid { s.peers pid with requests := rest } q).deliver q
              ⟨pid, r.number⟩ h.log }

/-- One step. -/
def step (env : ClientEnv σ) (s : System σ) : Op → Except Fault (System σ)
  | .connect pid addr => s.connect env pid addr
  | .disconnect pid => s.disconnect env pid
  | .send pid cmd data short =>
      .ok { s with peers := Function.update s.peers pid ((s.peers pid).send cmd data short) }
  | .handle pid => s.handle env pid
  | .poll pid => .ok { s with peers := Function.update s.peers pid (s.peers pid).poll }

end System

/-! ## What is to hold -/

/-- All that was written for a request, its end included, has been read. -/
structure Peer.Whole (p : Peer) (ticket : Ticket) : Prop where
  done : ∃ r ∈ p.consumed, r.ticket = ticket ∧ r.packet.TellsDone
  rest : ∀ r ∈ p.unread, r.ticket ≠ ticket

/-- If `send_master` returns in this step, it has read the whole reply. -/
def System.RepliesWhole (s : System σ) : Op → Prop
  | .poll pid => ∀ number ∈ (s.peers pid).mode.request, (s.peers pid).poll.mode = .reading →
      (s.peers pid).poll.Whole ⟨pid, number⟩
  | .connect _ _ | .disconnect _ | .send _ _ _ _ | .handle _ => True

/-- No reply is disturbed by a message: none is handled while another child waits for a request that is not
handled yet, and no client sends a request while the end of one is in its pipe. -/
def System.Undisturbed (s : System σ) : Op → Prop
  | .send pid _ _ _ => (s.peers pid).mode = .reading → ∀ r ∈ (s.peers pid).unread, ¬ r.packet.TellsDone
  | .handle pid => ∀ r ∈ (s.peers pid).requests.head?, r.cmd = REQ_BCASTMSG →
      ∀ node ∈ s.dispatch.server.master.childMap.nodes, node.data.pid ≠ pid →
        (s.peers node.data.pid).mode.request.isSome → (s.peers node.data.pid).requests = []
  | .connect _ _ | .disconnect _ | .poll _ => True

/-! ## What a request does -/

/-- Only `req_pass_msg` tells anybody that all is done. -/
theorem not_tellsDone_record {asserts : Bool} {d : Dispatch σ} {data : List UInt8} {datalen : ℕ}
    {sender child : ChildData} {handler : ChildHandler} (hne : handler ≠ .passMsg) (pid : UInt32) :
    ∀ e ∈ handler.record asserts d data datalen sender child, ¬ e.TellsDone pid := by
  intro e he
  rcases List.mem_cons.mp he with rfl | he
  · exact not_false
  · cases hevents : handler.events asserts d data datalen sender child with
    | error e' =>
      rw [hevents] at he
      exact absurd he List.not_mem_nil
    | ok events =>
      rw [hevents] at he
      obtain ⟨-, -, -, hnot⟩ := events_writes_of_ne hne pid hevents e he
      exact hnot

/-- So only a message for everybody tells others that all is done. -/
theorem not_tellsDone_calls {asserts : Bool} {d : Dispatch σ} {data : List UInt8} {datalen : ℕ}
    {sender : ChildData} {req : ChildRequest} (hne : req.handleChild ≠ some .passMsg) (pid : UInt32) :
    ∀ e ∈ req.calls asserts d data datalen sender, ¬ e.TellsDone pid := by
  unfold ChildRequest.calls
  cases hhandler : req.handleChild with
  | none => exact fun _ he => absurd he List.not_mem_nil
  | some handler =>
    have hhere : handler ≠ .passMsg := fun h => hne (hhandler.trans (congrArg some h))
    have hothers : ∀ e ∈ (otherNodes d.server.master.childMap.nodes sender.pid).flatMap fun node =>
        handler.record asserts d data datalen sender node.data, ¬ e.TellsDone pid := by
      intro e he
      obtain ⟨node, -, he⟩ := List.mem_flatMap.mp he
      exact not_tellsDone_record hhere pid e he
    dsimp only
    cases req.which with
    | childNone => exact fun _ he => absurd he List.not_mem_nil
    | childSender => exact not_tellsDone_record hhere pid
    | childAllButSender => exact hothers
    | childAll =>
      intro e he
      rcases List.mem_append.mp he with he | he
      · exact not_tellsDone_record hhere pid e he
      · exact hothers e he

/-- A finalizer tells nobody that all is done. -/
theorem not_tellsDone_finalize {env : ClientEnv σ} {finalize : Option Finalizer} {data : List UInt8}
    {datalen : ℕ} {sender : ChildData} {s s' : Handling σ}
    (h : callFinalize env finalize data datalen sender s = .ok s') :
    ∃ final, s'.log = s.log ++ final ∧ ∀ e ∈ final, ∀ pid, ¬ e.TellsDone pid := by
  cases finalize with
  | none =>
    obtain rfl := Except.ok.inj h
    exact ⟨[], (List.append_nil _).symm, fun _ he => absurd he List.not_mem_nil⟩
  | some f =>
    obtain ⟨a, ha, h⟩ := bind_eq_ok h
    obtain rfl := Except.ok.inj h
    refine ⟨_, rfl, fun e he pid => ?_⟩
    rcases List.mem_cons.mp he with rfl | he
    · exact not_false
    · obtain ⟨p, hp, rfl⟩ := List.mem_map.mp he
      rintro ⟨-, hdone⟩
      obtain rfl : p = .allDone := hdone
      exact allDone_notMem_run ha hp

/-- What is left when a request of a child has been handled.  If the child is there, it is told once, and in
the end, that all is done; the others are told if the request was a message. -/
structure Answered (asserts : Bool) (d : Dispatch σ) (pid : UInt32) (cmd : UInt8) (h : Handling σ) :
    Prop where
  sound : h.dispatch.server.master.Sound asserts
  listed : ∀ q, (d.server.master.child asserts q).isSome →
    (h.dispatch.server.master.child asserts q).isSome
  own : (d.server.master.child asserts pid).isSome →
    ∃ body, h.log = body ++ [allDone pid] ∧ ∀ e ∈ body, ¬ e.TellsDone pid
  others : cmd ≠ REQ_BCASTMSG → ∀ q ≠ pid, ∀ e ∈ h.log, ¬ e.TellsDone q

/-- A finalizer is a request, or leaves the master alone. -/
theorem finalizer_run {env : ClientEnv σ} {s : ServerState σ} {data : List UInt8} {datalen : ℕ}
    {sender : ChildData} {f : Finalizer} {a : List Packet × ServerState σ}
    (h : f.run env s data datalen sender = .ok a) :
    a.2 = s ∨ ∃ r, handleRequest env s sender r = .ok a := by
  cases f with
  | sendUser =>
    rw [Finalizer.run] at h
    split at h
    · exact Or.inr ⟨_, h⟩
    · exact Or.inl (congrArg Prod.snd (Except.ok.inj h)).symm
  | delUser =>
    rw [Finalizer.run] at h
    split at h
    · exact Or.inr ⟨_, h⟩
    · exact Or.inl (congrArg Prod.snd (Except.ok.inj h)).symm
  | addUser =>
    rw [Finalizer.run] at h
    split at h
    · exact Or.inr ⟨_, h⟩
    · exact Or.inl (congrArg Prod.snd (Except.ok.inj h)).symm
  | sendGeninfo | setRoom | moveRoom | lookAt | take | drop | execverb | wait | sendDesc
  | sendRoomname | inventory | listusers =>
    rw [Finalizer.run] at h
    exact Or.inr ⟨_, h⟩

/-- The master stays sound, and no child is lost. -/
structure KeepsChildren (asserts : Bool) (m m' : Master) : Prop where
  sound : m'.Sound asserts
  listed : ∀ q, (m.child asserts q).isSome → (m'.child asserts q).isSome

/-- Operations about a child lose none. -/
theorem keepsChildren_run {asserts : Bool} {m m' : Master} (hm : m.Sound asserts) {pid : UInt32}
    {ops : List ServerOp} (hops : ∀ op ∈ ops, op.About pid)
    (hrun : Runs.run (serverStep asserts) m ops = .ok m') : KeepsChildren asserts m m' := by
  have hstep : ∀ (m : Master) op m', m.Sound asserts → op.About pid → serverStep asserts m op = .ok m' →
      m'.Sound asserts ∧ ∀ q, (m.child asserts q).isSome → (m'.child asserts q).isSome := by
    intro m op m' hm hop hstep
    obtain ⟨f, -, hchild⟩ := hm.child_of_about hop hstep
    refine ⟨hm.step hstep, fun q hq => ?_⟩
    rw [hchild]
    by_cases hpid : q = pid
    · subst hpid
      rwa [Function.update_self, Option.isSome_map]
    · rwa [Function.update_of_ne hpid]
  obtain ⟨hsound, hlisted⟩ :=
    Runs.frame_run (fun _ _ h => h) (fun _ _ _ h h' q hq => h' q (h q hq)) hstep hm hops hrun
  exact ⟨hsound, hlisted⟩

/-- What the calls of `handle_child` leave of the master. -/
theorem handleChildren_master {asserts : Bool} {d : Dispatch σ} {data : List UInt8} {datalen : ℕ}
    {sender : ChildData} (hpos : 0 < d.server.master.childMap.tableSz) {req : ChildRequest}
    (hreq : req ∈ requests) {s : Handling σ}
    (h : Dispatch.handleChildren asserts req data datalen sender ⟨[], d⟩ = .ok s) :
    s.dispatch.server.master = d.server.master ∨
      ∃ name, s.dispatch.server.master = reqChangeUser asserts d.server.master sender name := by
  rw [Dispatch.handleChildren] at h
  cases hwhich : req.which with
  | childNone =>
    rw [hwhich] at h
    obtain rfl := Except.ok.inj h
    exact Or.inl rfl
  | childSender =>
    rw [hwhich] at h
    rcases (handleChild_of_childSender hreq hwhich).1 with hhandler | hhandler
    · rw [hhandler] at h
      obtain ⟨-, rfl⟩ := callHandleChild_eq_ok_iff.mp h
      left
      show (reqChangeState d data datalen sender).server.master = _
      rw [reqChangeState]
      split <;> rfl
    · rw [hhandler] at h
      obtain ⟨-, rfl⟩ := callHandleChild_eq_ok_iff.mp h
      exact Or.inr ⟨_, rfl⟩
  | childAllButSender =>
    rw [hwhich] at h
    obtain ⟨handler, hhandler, hstate, huser⟩ := handleChild_of_others hreq (Or.inr hwhich)
    obtain ⟨-, -, rfl⟩ := (handleOthers_eq_ok_iff hhandler hstate huser hpos).mp h
    exact Or.inl rfl
  | childAll =>
    rw [hwhich] at h
    obtain ⟨handler, hhandler, hstate, huser⟩ := handleChild_of_others hreq (Or.inl hwhich)
    obtain ⟨s₁, hcall, h⟩ := bind_eq_ok h
    rw [hhandler] at hcall
    obtain ⟨-, rfl⟩ := callHandleChild_eq_ok_iff.mp hcall
    rw [change_eq hstate huser] at h
    obtain ⟨-, -, rfl⟩ := (handleOthers_eq_ok_iff hhandler hstate huser hpos).mp h
    exact Or.inl rfl

/-- **A request of a child** that is there. -/
theorem answered_answerRequest (env : ClientEnv σ) {d : Dispatch σ} {cmd : UInt8} {data : List UInt8}
    {datalen : ℕ} {sender : ChildData} (hd : d.server.master.Sound env.asserts)
    (hpid : env.pid = sender.pid)
    (hsender : d.server.master.child env.asserts sender.pid = some sender)
    (hshort : datalen < MSG_MAX) (hdata : datalen ≤ data.length) {h : Handling σ}
    (hok : Dispatch.answerRequest env cmd data datalen sender ⟨[], d⟩ = .ok h) :
    Answered env.asserts d sender.pid cmd h := by
  have hdone : ∀ q ≠ sender.pid, ¬ (allDone sender.pid).TellsDone q := fun q hq h => hq h.1.symm
  cases hcmd : requests.find? fun req => req.code = cmd with
  | none =>
    obtain rfl := Except.ok.inj ((answerRequest_of_none hcmd).symm.trans hok)
    refine ⟨hd, fun _ hq => hq, fun _ => ⟨[], rfl, fun _ he => absurd he List.not_mem_nil⟩, ?_⟩
    intro _ q hq e he
    obtain rfl := List.mem_singleton.mp he
    exact hdone q hq
  | some req =>
    have hreq := List.mem_of_find?_eq_some hcmd
    have hcode : req.code = cmd := by simpa using List.find?_some hcmd
    obtain ⟨s₁, s₂, h₁, h₂, rfl⟩ := (answerRequest_of_some hcmd).mp hok
    obtain ⟨-, hlog, hsame, hfor⟩ := (handleChildren_spec hd.numbered hsender hshort hdata hreq).1 s₁ h₁
    obtain ⟨final, hfinal, hnot⟩ := not_tellsDone_finalize h₂
    have hkeeps₁ : KeepsChildren env.asserts d.server.master s₁.dispatch.server.master := by
      rcases handleChildren_master hd.numbered.placed.size_pos hreq h₁ with hm | ⟨name, hm⟩
      · rw [hm]
        exact ⟨hd, fun _ hq => hq⟩
      · have hstep : serverStep env.asserts d.server.master (.changeUser sender.pid name) =
            .ok s₁.dispatch.server.master := by
          rw [hm]
          simp only [serverStep, hsender]
        have habout : ∀ op ∈ [ServerOp.changeUser sender.pid name], op.About sender.pid := by
          intro op hop
          obtain rfl := List.mem_singleton.mp hop
          exact rfl
        exact keepsChildren_run hd habout (Runs.run_cons_ok hstep [])
    have hkeeps : KeepsChildren env.asserts d.server.master s₂.dispatch.server.master := by
      cases hf : req.finalize with
      | none =>
        rw [hf] at h₂
        rwa [← Except.ok.inj h₂]
      | some f =>
        rw [hf] at h₂
        obtain ⟨a, ha, h₂⟩ := bind_eq_ok h₂
        obtain rfl := Except.ok.inj h₂
        rw [hsame (by rw [hf]; rfl)] at ha
        rcases finalizer_run ha with hsrv | ⟨r, hr⟩
        · show KeepsChildren env.asserts d.server.master a.2.master
          rw [hsrv]
          exact ⟨hd, fun _ hq => hq⟩
        · obtain ⟨ops, hops, hrun, -⟩ := handleRequest_run (by rw [hpid]; exact hsender) hr
          exact keepsChildren_run hd hops hrun
    refine ⟨hkeeps.sound, hkeeps.listed, fun _ => ⟨s₂.log, rfl, ?_⟩, fun hne q hq e he => ?_⟩
    · rw [hfinal]
      intro e he
      rcases List.mem_append.mp he with he | he
      · exact hfor.not_done e he
      · exact hnot e he sender.pid
    · have hpass : req.handleChild ≠ some .passMsg := by
        have hall : ∀ req ∈ requests, req.handleChild = some .passMsg → req.code = REQ_BCASTMSG := by
          decide
        exact fun hh => hne (hcode.symm.trans (hall req hreq hh))
      rcases List.mem_append.mp he with he | he
      · rw [hfinal] at he
        rcases List.mem_append.mp he with he | he
        · rw [hlog] at he
          exact not_tellsDone_calls hpass q e he
        · exact hnot e he q
      · obtain rfl := List.mem_singleton.mp he
        exact hdone q hq

/-- The pid of a packet. -/
theorem numberAt_packetOf (pid : UInt32) (cmd : UInt8) (data : List UInt8) :
    UInt32.ofNat (numberAt 0 4 (packetOf pid cmd data)) = pid := by
  rw [numberAt, packetOf, List.drop_zero, List.take_left' (length_littleEndian 4 _),
    ofLittleEndian_littleEndian pid.toNat_lt, UInt32.ofNat_toNat]

/-- **A request from the pipe of a child.** -/
theorem answered_handleChildReq {env : ClientEnv σ} {d : Dispatch σ} {buf : PacketBuf} {r : Sent}
    {pid : UInt32} (hd : d.server.master.Sound env.asserts) {b : Bool} {h : Handling σ}
    (hok : Dispatch.handleChildReq env d buf (r.received pid) = .ok (b, h)) :
    Answered env.asserts d pid r.cmd h := by
  have hlen : (r.received pid).len = r.data.length + 5 := length_packetOf ..
  have hpacket : buf.after (r.received pid) = packetOf pid r.cmd r.data ++
      buf.bytes.drop (packetOf pid r.cmd r.data).length := rfl
  have hnumber : UInt32.ofNat (numberAt 0 4 (buf.after (r.received pid))) = pid := by
    rw [hpacket, numberAt_append (by rw [length_packetOf]; omega), numberAt_packetOf]
  have hsplit : buf.after (r.received pid) = littleEndian 4 pid.toNat ++
      (r.cmd :: (r.data ++ buf.bytes.drop (packetOf pid r.cmd r.data).length)) := by
    rw [hpacket, packetOf, List.append_assoc, List.cons_append]
  have hcmd : (buf.after (r.received pid)).getD 4 0 = r.cmd := by
    rw [hsplit, List.getD_eq_getElem?_getD, List.getElem?_append_right (by rw [length_littleEndian]),
      length_littleEndian]
    rfl
  have hdrop : (buf.after (r.received pid)).drop 5 =
      r.data ++ buf.bytes.drop (packetOf pid r.cmd r.data).length := by
    rw [hsplit, List.drop_append, length_littleEndian,
      List.drop_of_length_le (by rw [length_littleEndian]; omega)]
    rfl
  rw [Dispatch.handleChildReq, if_neg (by rw [hlen]; omega)] at hok
  dsimp only at hok
  rw [hnumber, hcmd, hdrop, hlen] at hok
  cases hsender : d.server.master.child env.asserts pid with
  | none =>
    rw [hsender] at hok
    obtain ⟨-, rfl⟩ := Prod.mk.inj (Except.ok.inj hok)
    refine ⟨hd, fun _ hq => hq, fun hthere => ?_, fun _ _ _ _ he => absurd he List.not_mem_nil⟩
    rw [hsender] at hthere
    exact absurd hthere (by simp)
  | some sender =>
    rw [hsender] at hok
    obtain ⟨h', hanswer, heq⟩ := map_eq_ok hok
    obtain ⟨-, rfl⟩ := Prod.mk.inj heq
    obtain rfl : sender.pid = pid := hd.numbered.pid_eq _ _ hsender
    exact answered_answerRequest { env with pid := sender.pid } hd rfl hsender
      (by have := r.short; omega) (by rw [List.length_append]; omega) hanswer

/-! ## What a client has before it -/

namespace Peer

variable {p : Peer} {pid : UInt32}

/-- The request a client waits for is still to be handled, and nothing in the pipe looks like its end; or it
has been handled, and the first that looks like its end is its end. -/
def Awaits (p : Peer) (ticket : Ticket) : Prop :=
  (∃ r, p.requests = [r] ∧ r.number = ticket.number ∧
    ∀ u ∈ p.unread, ¬ u.packet.TellsDone ∧ u.ticket ≠ ticket) ∨
  p.requests = [] ∧ ∃ before last after, p.unread = before ++ last :: after ∧
    (∀ u ∈ before, ¬ u.packet.TellsDone) ∧ last.ticket = ticket ∧ last.packet.TellsDone ∧
    ∀ u ∈ after, u.ticket ≠ ticket

/-- A client whose replies are in order. -/
structure Orderly (pid : UInt32) (p : Peer) : Prop where
  read_le : p.read ≤ p.written.length
  numbered : ∀ u ∈ p.written, u.ticket.pid = pid → u.ticket.number < p.sent
  sent : ∀ r ∈ p.requests, r.number < p.sent
  quiet : p.mode = .reading ∨ p.mode = .polling → p.requests = []
  awaits : ∀ number, p.mode = .waiting number → p.Awaits ⟨pid, number⟩

theorem orderly_fresh (pid : UInt32) : fresh.Orderly pid :=
  ⟨Nat.le_refl _, fun _ h => absurd h List.not_mem_nil, fun _ h => absurd h List.not_mem_nil,
    fun _ => rfl, fun _ h => absurd h (by simp [fresh])⟩

/-- Of a process that has ended there is nothing to say. -/
theorem Orderly.exit (h : p.Orderly pid) : ({ p with mode := .exited } : Peer).Orderly pid :=
  ⟨h.read_le, h.numbered, h.sent, fun hmode => absurd hmode (by simp), fun _ hmode => absurd hmode (by simp)⟩

/-- **A request is sent.** -/
theorem Orderly.send (h : p.Orderly pid) {cmd : UInt8} {data : List UInt8}
    {short : data.length + 5 ≤ MSG_MAX}
    (hclear : p.mode = .reading → ∀ r ∈ p.unread, ¬ r.packet.TellsDone) :
    (p.send cmd data short).Orderly pid := by
  unfold Peer.send
  split
  · rename_i hmode
    have hnone := h.quiet (Or.inl hmode)
    refine ⟨h.read_le, fun u hu hpid => (h.numbered u hu hpid).trans (Nat.lt_succ_self _), ?_,
      fun hmode => absurd hmode (by simp), fun number hnumber => ?_⟩
    · rw [hnone]
      intro r hr
      obtain rfl := List.mem_singleton.mp hr
      exact Nat.lt_succ_self _
    · obtain rfl := Mode.waiting.inj hnumber
      refine Or.inl ⟨⟨p.sent, cmd, data, short⟩, by rw [hnone]; rfl, rfl,
        fun u hu => ⟨hclear hmode u hu, fun hticket => ?_⟩⟩
      have hlt := h.numbered u (List.mem_of_mem_drop hu) (by rw [hticket])
      rw [hticket] at hlt
      exact absurd hlt (lt_irrefl _)
  all_goals exact h

/-- What one `read` does: nothing, or the first packet in the pipe is read. -/
theorem poll_cases (p : Peer) :
    p.poll = p ∨ ∃ u rest, p.unread = u :: rest ∧
      p.poll = { p with mode := receive p.mode u.packet, read := p.read + 1 } := by
  unfold Peer.poll
  split
  · exact Or.inl rfl
  · rename_i mode hmode
    split
    · exact Or.inl rfl
    · rename_i u rest hunread
      exact Or.inr ⟨u, rest, hunread, rfl⟩

/-- The first packet in the pipe is read. -/
theorem read_succ {u : Reply} {rest : List Reply} (h : p.unread = u :: rest) :
    p.read < p.written.length ∧ p.written.drop (p.read + 1) = rest ∧
      p.written.take (p.read + 1) = p.consumed ++ [u] := by
  have hlt : p.read < p.written.length := by
    by_contra hle
    rw [unread, List.drop_of_length_le (Nat.le_of_not_lt hle)] at h
    exact absurd h (by simp)
  have hcons := List.drop_eq_getElem_cons hlt
  have hparts := List.cons.inj (h.symm.trans hcons)
  refine ⟨hlt, hparts.2.symm, ?_⟩
  rw [List.take_succ_eq_append_getElem hlt, consumed, hparts.1]

/-- The end of a reply, and only that, ends the reading of a client that waits. -/
theorem receive_waiting {number : ℕ} {w : Written} :
    (receive (.waiting number) w = .reading → w.TellsDone) ∧ receive (.waiting number) w ≠ .polling ∧
      ∀ n, receive (.waiting number) w = .waiting n → n = number ∧ ¬ w.TellsDone := by
  unfold receive
  split
  · exact ⟨fun h => absurd h (by simp), by simp, fun n h => absurd h (by simp)⟩
  · split
    · rename_i hdone
      exact ⟨fun _ => tellsDone_iff.mpr hdone, by simp, fun n h => absurd h (by simp)⟩
    · rename_i hdone
      exact ⟨fun h => absurd h (by simp), by simp,
        fun n h => ⟨(Mode.waiting.inj h).symm, fun hw => hdone (tellsDone_iff.mp hw)⟩⟩

/-- A client that does not wait does not come to wait. -/
theorem receive_of_not_waiting (mode : Mode) (h : mode.request = .none) (w : Written) :
    (receive mode w).request = .none := by
  unfold receive
  split
  · rfl
  · split
    · rfl
    · cases mode with
      | waiting number => exact absurd h (by simp [Mode.request])
      | reading | polling | exited => rfl

/-- **A packet is read.**  If `send_master` returns, the reply has been read whole. -/
theorem Orderly.poll (h : p.Orderly pid) :
    p.poll.Orderly pid ∧ ∀ number, p.mode = .waiting number → p.poll.mode = .reading →
      p.poll.Whole ⟨pid, number⟩ := by
  rcases poll_cases p with hpoll | ⟨u, rest, hunread, hpoll⟩
  · rw [hpoll]
    refine ⟨h, fun number hmode hread => ?_⟩
    rw [hmode] at hread
    exact absurd hread (by simp)
  obtain ⟨hlt, hrest, htake⟩ := read_succ hunread
  have hunread' : p.poll.unread = rest := by rw [hpoll]; exact hrest
  have hmode' : p.poll.mode = receive p.mode u.packet := by rw [hpoll]
  have hrequests : p.poll.requests = p.requests := by rw [hpoll]
  -- what is known of a client that waits, in the two cases
  have hcases : ∀ number, p.mode = .waiting number →
      (¬ u.packet.TellsDone ∧ p.poll.Awaits ⟨pid, number⟩) ∨
        (u.packet.TellsDone ∧ p.requests = [] ∧ p.poll.Whole ⟨pid, number⟩) := by
    intro number hmode
    rcases h.awaits number hmode with
      ⟨r, hr, hnumber, hall⟩ | ⟨hnone, before, last, after, hsplit, hbefore, hticket, hdone, hafter⟩
    · rw [hunread] at hall
      obtain ⟨hu, hall⟩ := List.forall_mem_cons.mp hall
      refine Or.inl ⟨hu.1, Or.inl ⟨r, hrequests.trans hr, hnumber, ?_⟩⟩
      rwa [hunread']
    · rw [hunread] at hsplit
      cases before with
      | nil =>
        obtain ⟨rfl, rfl⟩ := List.cons.inj hsplit
        refine Or.inr ⟨hdone, hnone, ⟨u, ?_, hticket, hdone⟩, ?_⟩
        · rw [hpoll]
          show u ∈ p.written.take (p.read + 1)
          rw [htake]
          exact List.mem_append_right _ (List.mem_singleton_self u)
        · rwa [hunread']
      | cons b before =>
        obtain ⟨rfl, rfl⟩ := List.cons.inj hsplit
        obtain ⟨hu, hbefore⟩ := List.forall_mem_cons.mp hbefore
        refine Or.inl ⟨hu, Or.inr ⟨hrequests.trans hnone, before, last, after, hunread', hbefore,
          hticket, hdone, hafter⟩⟩
  refine ⟨⟨?_, ?_, ?_, ?_, ?_⟩, fun number hmode hread => ?_⟩
  · rw [hpoll]
    exact hlt
  · rw [hpoll]
    exact h.numbered
  · rw [hpoll]
    exact h.sent
  · rw [hmode', hrequests]
    intro hquiet
    cases hmode : p.mode with
    | reading => exact h.quiet (Or.inl hmode)
    | polling => exact h.quiet (Or.inr hmode)
    | waiting number =>
      rw [hmode] at hquiet
      rcases hquiet with hquiet | hquiet
      · rcases hcases number hmode with ⟨hnot, -⟩ | ⟨-, hnone, -⟩
        · exact absurd (receive_waiting.1 hquiet) hnot
        · exact hnone
      · exact absurd hquiet receive_waiting.2.1
    | exited =>
      have hpoll' : p.poll = p := by rw [Peer.poll, hmode]
      rw [hpoll'] at hunread'
      rw [hunread] at hunread'
      exact absurd hunread' (List.cons_ne_self u rest)
  · rw [hmode']
    intro number hnumber
    cases hmode : p.mode with
    | waiting n =>
      rw [hmode] at hnumber
      obtain ⟨rfl, hnot⟩ := receive_waiting.2.2 number hnumber
      rcases hcases number hmode with ⟨-, hawaits⟩ | ⟨hdone, -⟩
      · exact hawaits
      · exact absurd hdone hnot
    | reading | polling | exited =>
      have hnone := receive_of_not_waiting p.mode (by rw [hmode]; rfl) u.packet
      rw [hnumber] at hnone
      exact absurd hnone (by simp [Mode.request])
  · rw [hmode', hmode] at hread
    rcases hcases number hmode with ⟨hnot, -⟩ | ⟨-, -, hwhole⟩
    · exact absurd (receive_waiting.1 hread) hnot
    · exact hwhole

/-- What has been delivered. -/
theorem mem_delivered {ticket : Ticket} {log : List Event} {u : Reply}
    (h : u ∈ (log.filterMap (Event.writtenTo pid)).map (Reply.mk ticket)) :
    u.ticket = ticket ∧ Event.wrote pid u.packet ∈ log := by
  obtain ⟨w, hw, rfl⟩ := List.mem_map.mp h
  obtain ⟨e, he, hew⟩ := List.mem_filterMap.mp hw
  refine ⟨rfl, ?_⟩
  cases e with
  | wrote child w' =>
    rw [Event.writtenTo] at hew
    split at hew
    · rename_i hchild
      obtain rfl := Option.some.inj hew
      rwa [← hchild]
    · exact absurd hew (by simp)
  | handled q => exact absurd hew (by simp [Event.writtenTo])
  | finalized => exact absurd hew (by simp [Event.writtenTo])

/-- What is in the pipe after a delivery. -/
theorem unread_deliver (h : p.read ≤ p.written.length) (ticket : Ticket) (log : List Event) :
    (p.deliver pid ticket log).unread =
      p.unread ++ (log.filterMap (Event.writtenTo pid)).map (Reply.mk ticket) :=
  List.drop_append_of_le_length h

/-- **A request of another client is handled.** -/
theorem Orderly.deliver_other (h : p.Orderly pid) {ticket : Ticket} (hticket : ticket.pid ≠ pid)
    {log : List Event} (hlog : p.mode.request.isSome → p.requests ≠ [] → ∀ e ∈ log, ¬ e.TellsDone pid) :
    (p.deliver pid ticket log).Orderly pid := by
  have hne : ∀ number, ticket ≠ ⟨pid, number⟩ := fun number heq => hticket (congrArg Ticket.pid heq)
  refine ⟨?_, fun u hu hpid => ?_, h.sent, h.quiet, fun number hmode => ?_⟩
  · exact h.read_le.trans (List.sublist_append_left _ _).length_le
  · rcases List.mem_append.mp hu with hu | hu
    · exact h.numbered u hu hpid
    · exact absurd ((congrArg Ticket.pid (mem_delivered hu).1).symm.trans hpid) hticket
  · have hmode' : p.mode = .waiting number := hmode
    rcases h.awaits number hmode' with ⟨r, hr, hnumber, hall⟩ | ⟨hnone, before, last, after, hsplit, hrest⟩
    · refine Or.inl ⟨r, hr, hnumber, fun u hu => ?_⟩
      rw [unread_deliver h.read_le] at hu
      rcases List.mem_append.mp hu with hu | hu
      · exact hall u hu
      · obtain ⟨ht, hmem⟩ := mem_delivered hu
        refine ⟨fun hdone => ?_, fun heq => hne number (ht.symm.trans heq)⟩
        exact hlog (by rw [hmode']; rfl) (by rw [hr]; simp) _ hmem ⟨rfl, hdone⟩
    · obtain ⟨hbefore, hlast, hdone, hafter⟩ := hrest
      refine Or.inr ⟨hnone, before, last, after ++ (log.filterMap (Event.writtenTo pid)).map (Reply.mk ticket),
        ?_, hbefore, hlast, hdone, fun u hu => ?_⟩
      · rw [unread_deliver h.read_le, hsplit, List.append_assoc, List.cons_append]
      · rcases List.mem_append.mp hu with hu | hu
        · exact hafter u hu
        · exact fun heq => hne number ((mem_delivered hu).1.symm.trans heq)

/-- **The client's own request is handled.** -/
theorem Orderly.deliver_own (h : p.Orderly pid) {r : Sent} {rest : List Sent}
    (hr : p.requests = r :: rest) {log : List Event}
    (hlog : p.mode ≠ .exited → ∃ body, log = body ++ [allDone pid] ∧ ∀ e ∈ body, ¬ e.TellsDone pid) :
    (({ p with requests := rest } : Peer).deliver pid ⟨pid, r.number⟩ log).Orderly pid := by
  have hnumber := h.sent r (hr ▸ List.mem_cons_self)
  refine ⟨?_, fun u hu hpid => ?_, fun r' hr' => h.sent r' (hr ▸ List.mem_cons_of_mem _ hr'),
    fun hmode => ?_, fun number hmode => ?_⟩
  · exact h.read_le.trans (List.sublist_append_left _ _).length_le
  · rcases List.mem_append.mp hu with hu | hu
    · exact h.numbered u hu hpid
    · rw [(mem_delivered hu).1]
      exact hnumber
  · exact absurd (hr.symm.trans (h.quiet hmode)) (by simp)
  · have hmode' : p.mode = .waiting number := hmode
    obtain ⟨body, rfl, hbody⟩ := hlog (by rw [hmode']; simp)
    rcases h.awaits number hmode' with ⟨r', hr', hnumber', hall⟩ | ⟨hnone, -⟩
    · obtain ⟨rfl, rfl⟩ := List.cons.inj (hr.symm.trans hr')
      obtain rfl : r.number = number := hnumber'
      refine Or.inr ⟨rfl, p.unread ++ (body.filterMap (Event.writtenTo pid)).map (Reply.mk ⟨pid, r.number⟩),
        ⟨⟨pid, r.number⟩, .raw REQ_ALLDONE []⟩, [], ?_, fun u hu => ?_, rfl, rfl,
        fun _ hu => absurd hu List.not_mem_nil⟩
      · refine (unread_deliver (p := { p with requests := [] }) h.read_le _ _).trans ?_
        show p.unread ++ _ = _
        rw [List.filterMap_append, List.map_append, ← List.append_assoc]
        have hlast : [allDone pid].filterMap (Event.writtenTo pid) = [.raw REQ_ALLDONE []] := by
          simp [allDone, Event.writtenTo]
        rw [hlast]
        rfl
      · rcases List.mem_append.mp hu with hu | hu
        · exact (hall u hu).1
        · exact fun hdone => hbody _ (mem_delivered hu).2 ⟨rfl, hdone⟩
    · exact absurd (hr.symm.trans hnone) (by simp)

end Peer

/-! ## The whole system -/

namespace System

variable {env : ClientEnv σ} {s s' : System σ}

/-- Every process is a child of the master, and its replies are in order. -/
structure Orderly (env : ClientEnv σ) (s : System σ) : Prop where
  sound : s.dispatch.server.master.Sound env.asserts
  listed : ∀ pid, (s.peers pid).mode ≠ .exited → (s.dispatch.server.master.child env.asserts pid).isSome
  peers : ∀ pid, (s.peers pid).Orderly pid

theorem orderly_start (env : ClientEnv σ) (rooms : List RoomSetup) (users : CString → Option UserData)
    (world : σ) : (start rooms users world).Orderly env :=
  ⟨Master.sound_init env.asserts rooms, fun _ h => absurd rfl h,
    fun pid => (Peer.orderly_fresh pid).exit⟩

/-- Something happens to one client, and to the master. -/
theorem Orderly.update (h : s.Orderly env) {pid : UInt32} {p : Peer} {dispatch : Dispatch σ}
    {buf : PacketBuf} (hsound : dispatch.server.master.Sound env.asserts)
    (hself : p.mode ≠ .exited → (dispatch.server.master.child env.asserts pid).isSome)
    (hothers : ∀ q ≠ pid, (s.dispatch.server.master.child env.asserts q).isSome →
      (dispatch.server.master.child env.asserts q).isSome)
    (hp : p.Orderly pid) :
    (⟨dispatch, buf, Function.update s.peers pid p⟩ : System σ).Orderly env := by
  refine ⟨hsound, fun q hq => ?_, fun q => ?_⟩
  · have hmode : (Function.update s.peers pid p q).mode ≠ .exited := hq
    by_cases hpid : q = pid
    · subst hpid
      rw [Function.update_self] at hmode
      exact hself hmode
    · rw [Function.update_of_ne hpid] at hmode
      exact hothers q hpid (h.listed q hmode)
  · by_cases hpid : q = pid
    · subst hpid
      show (Function.update s.peers q p q).Orderly q
      rwa [Function.update_self]
    · show (Function.update s.peers pid p q).Orderly q
      rw [Function.update_of_ne hpid]
      exact h.peers q

theorem Orderly.connect (h : s.Orderly env) {pid : UInt32} {addr : CString}
    (hs : s.connect env pid addr = .ok s') : s'.Orderly env := by
  unfold System.connect at hs
  split at hs
  · obtain rfl := Except.ok.inj hs
    exact h
  · rename_i hnone
    obtain ⟨master, hmaster, hs⟩ := bind_eq_ok hs
    obtain rfl := Except.ok.inj hs
    have hstep : serverStep env.asserts s.dispatch.server.master (.connect pid) = .ok master := hmaster
    have hchild := h.sound.child_of_connect hnone hstep
    refine h.update (h.sound.step hstep) (fun _ => ?_) (fun q hq hthere => ?_) (Peer.orderly_fresh pid)
    · show (master.child env.asserts pid).isSome
      rw [hchild, Function.update_self]
      rfl
    · show (master.child env.asserts q).isSome
      rwa [hchild, Function.update_of_ne hq]

theorem Orderly.disconnect (h : s.Orderly env) {pid : UInt32}
    (hs : s.disconnect env pid = .ok s') : s'.Orderly env := by
  unfold System.disconnect at hs
  split at hs
  · obtain rfl := Except.ok.inj hs
    exact h
  · obtain ⟨master, hmaster, hs⟩ := bind_eq_ok hs
    obtain rfl := Except.ok.inj hs
    have hstep : serverStep env.asserts s.dispatch.server.master (.disconnect pid) = .ok master :=
      hmaster
    refine h.update (h.sound.step hstep) (fun hmode => absurd rfl hmode) (fun q hq hthere => ?_)
      (h.peers pid).exit
    show (master.child env.asserts q).isSome
    rwa [h.sound.child_of_disconnect hstep, Function.update_of_ne hq]

theorem Orderly.handle (h : s.Orderly env) {pid : UInt32} (hop : s.Undisturbed (.handle pid))
    (hs : s.handle env pid = .ok s') : s'.Orderly env := by
  unfold System.handle at hs
  split at hs
  · obtain rfl := Except.ok.inj hs
    exact h
  · rename_i r rest hr
    obtain ⟨⟨b, hd⟩, hhandled, hs⟩ := bind_eq_ok hs
    obtain rfl := Except.ok.inj hs
    obtain ⟨hsound, hlisted, hown, hothers⟩ := answered_handleChildReq h.sound hhandled
    have hself : ∀ q, (Function.update s.peers pid { s.peers pid with requests := rest } q).mode =
        (s.peers q).mode := by
      intro q
      by_cases hq : q = pid
      · rw [hq, Function.update_self]
      · rw [Function.update_of_ne hq]
    refine ⟨hsound, fun q hq => hlisted q (h.listed q ?_), fun q => ?_⟩
    · rw [← hself q]
      exact hq
    · show ((Function.update s.peers pid { s.peers pid with requests := rest } q).deliver q
        ⟨pid, r.number⟩ hd.log).Orderly q
      by_cases hq : q = pid
      · subst hq
        rw [Function.update_self]
        exact (h.peers q).deliver_own hr fun hmode => hown (h.listed q hmode)
      · rw [Function.update_of_ne hq]
        refine (h.peers q).deliver_other (Ne.symm hq) fun hwaits hrequests e he => ?_
        refine hothers (fun hcmd => hrequests ?_) q hq e he
        have hlive : (s.peers q).mode ≠ .exited := fun hmode => by
          rw [hmode] at hwaits
          exact absurd hwaits (by simp [Mode.request])
        obtain ⟨node, hnode, rfl⟩ := List.mem_map.mp
          (h.sound.numbered.mem_pids_iff.mpr (h.listed q hlive))
        exact hop r (by rw [hr]; rfl) hcmd node hnode hq hwaits

/-- **One step**: if no message disturbs it, every client's replies stay in order. -/
theorem Orderly.step (h : s.Orderly env) {op : Op} (hop : s.Undisturbed op)
    (hs : s.step env op = .ok s') : s'.Orderly env := by
  cases op with
  | connect pid addr => exact h.connect hs
  | disconnect pid => exact h.disconnect hs
  | send pid cmd data short =>
    obtain rfl := Except.ok.inj hs
    refine h.update h.sound (fun hmode => h.listed pid fun hexited => hmode ?_) (fun _ _ hq => hq)
      ((h.peers pid).send hop)
    rw [Peer.send, hexited]
    exact hexited
  | handle pid => exact h.handle hop hs
  | poll pid =>
    obtain rfl := Except.ok.inj hs
    refine h.update h.sound (fun hmode => h.listed pid fun hexited => hmode ?_) (fun _ _ hq => hq)
      (h.peers pid).poll.1
    rw [Peer.poll, hexited]
    exact hexited

/-- A reply is whole when `send_master` returns. -/
theorem Orderly.repliesWhole (h : s.Orderly env) (op : Op) : s.RepliesWhole op := by
  cases op with
  | poll pid =>
    intro number hnumber hread
    refine (h.peers pid).poll.2 number ?_ hread
    cases hmode : (s.peers pid).mode with
    | waiting n =>
      rw [hmode] at hnumber
      exact congrArg Mode.waiting (Option.some.inj hnumber)
    | reading | polling | exited =>
      rw [hmode] at hnumber
      exact absurd hnumber (by simp [Mode.request])
  | connect pid addr => trivial
  | disconnect pid => trivial
  | send pid cmd data short => trivial
  | handle pid => trivial

end System

/-- **A request returns only after its own reply**, in every run in which no message disturbs it. -/
theorem repliesWhole_of_undisturbed (env : ClientEnv σ) (rooms : List RoomSetup)
    (users : CString → Option UserData) (world : σ) (ops : List Op)
    (h : Runs.EachDone (System.step env) System.Undisturbed (System.start rooms users world) ops) :
    Runs.EachDone (System.step env) System.RepliesWhole (System.start rooms users world) ops :=
  Runs.EachStep.mono (I := System.Orderly env)
    (fun _ _ s' hs hop hstep => hs.step (hop s' hstep) hstep)
    (fun _ op hs _ _ _ => hs.repliesWhole op) (System.orderly_start env rooms users world) h

/-! ## Two clients -/

section Decidability

instance : (w : Written) → Decidable w.TellsDone
  | .raw cmd _ => inferInstanceAs (Decidable (cmd = REQ_ALLDONE))
  | .answer p => inferInstanceAs (Decidable (p = .allDone))

instance (p : Peer) (ticket : Ticket) : Decidable (p.Whole ticket) :=
  decidable_of_iff ((∃ r ∈ p.consumed, r.ticket = ticket ∧ r.packet.TellsDone) ∧
      ∀ r ∈ p.unread, r.ticket ≠ ticket)
    ⟨fun h => ⟨h.1, h.2⟩, fun h => ⟨h.1, h.2⟩⟩

instance (s : System σ) : (op : Op) → Decidable (s.RepliesWhole op)
  | .poll pid => inferInstanceAs (Decidable (∀ number ∈ (s.peers pid).mode.request, _ → _))
  | .connect _ _ | .disconnect _ | .send _ _ _ _ | .handle _ => .isTrue trivial

instance (s : System σ) : (op : Op) → Decidable (s.Undisturbed op)
  | .send pid _ _ _ => inferInstanceAs (Decidable (_ → ∀ r ∈ (s.peers pid).unread, _))
  | .handle pid => inferInstanceAs (Decidable (∀ r ∈ (s.peers pid).requests.head?, _ → ∀ node ∈ _, _))
  | .connect _ _ | .disconnect _ | .poll _ => .isTrue trivial

end Decidability

/-- A server with one room, which has no exits. -/
def sampleStart : System Unit := System.start [⟨List.replicate 12 none, none, none, 8⟩] (fun _ => none) ()

/-- The children 7 and 9 are connected, 9 asks for its state to be changed, and 7 says `a`. -/
def sampleRequests : List Op :=
  [.connect 7 (.ofChars []), .connect 9 (.ofChars []),
    .send 9 REQ_CHANGESTATE [1, 0, 0, 0] (by decide), .send 7 REQ_BCASTMSG [97] (by decide)]

/-- The request of 9 is handled before the message of 7. -/
theorem repliesWhole_two_clients :
    Runs.EachDone (System.step quietEnv) System.RepliesWhole sampleStart
      (sampleRequests ++ [.handle 9, .handle 7, .poll 9, .poll 7, .poll 7, .poll 9, .poll 9]) := by
  have hsteps : Runs.EachStep (System.step quietEnv) System.Undisturbed sampleStart
      (sampleRequests ++ [.handle 9, .handle 7, .poll 9, .poll 7, .poll 7, .poll 9, .poll 9]) := by
    decide +kernel
  exact repliesWhole_of_undisturbed quietEnv _ _ () _
    hsteps.done

/-- **The message of 7 is handled first**, and 9 takes its end for the end of its own reply, which has not
been written yet. -/
theorem message_ends_another_reply :
    ¬ Runs.EachDone (System.step quietEnv) System.RepliesWhole sampleStart
      (sampleRequests ++ [.handle 7, .poll 9, .poll 9]) := by
  intro h
  have hsteps : Runs.EachStep (System.step quietEnv) System.RepliesWhole sampleStart
      (sampleRequests ++ [.handle 7, .poll 9, .poll 9]) := by
    refine h.imp fun s op hop => ?_
    cases op with
    | poll pid => exact hop _ rfl
    | connect pid addr => trivial
    | disconnect pid => trivial
    | send pid cmd data short => trivial
    | handle pid => trivial
  exact absurd hsteps (by decide +kernel)

end Replies

end NetCosm
