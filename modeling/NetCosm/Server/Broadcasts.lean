import NetCosm.Server.Exchanges

/-!
# The order in which messages are heard

`req_pass_msg` writes a message to every child, first to the one that says it and then to the others.  The
master handles one request at a time and a pipe keeps what it is given in order, so there should be one order
of messages, and every child should be given all of them in it.

That is said here of the system of `Server/Replies`, in which clients and master take their steps in any order,
and other requests are handled between the messages.

## What is compared

`System.passed` is the message that a step passes on, so `Runs.outputs` of a run is the list of its messages, in
the order in which they are handled.  Of what is written to a child, `Heard` keeps what is written for a
message.  What others ask for reaches a child as a message or as a kick, so of theirs it keeps what is not a
kick; and of what the child asks for itself, what has the number of a request that was a message.

`messages_in_order` says that the two are the same list.  Nothing has to be known of what else happens: a client
may be in the middle of another request, it may have been kicked, and the replies may be in disorder.
-/

namespace NetCosm

namespace Replies

variable {σ : Type} {env : ClientEnv σ}

/-! ## Messages -/

/-- A message for everybody: the request, and its bytes. -/
structure Passed where
  ticket : Ticket
  data : List UInt8
  deriving DecidableEq

/-- What a child is written for a message. -/
def Passed.packets (b : Passed) : List Reply :=
  [⟨b.ticket, .raw REQ_BCASTMSG b.data⟩, ⟨b.ticket, .raw REQ_ALLDONE []⟩]

/-- The message that is passed on in a step. -/
def System.passed (env : ClientEnv σ) (s : System σ) : Op → List Passed
  | .handle pid =>
      match (s.peers pid).requests.head?, s.dispatch.server.master.child env.asserts pid with
      | some r, some _ => if r.cmd = REQ_BCASTMSG then [⟨⟨pid, r.number⟩, r.data⟩] else []
      | _, _ => []
  | .connect _ _ | .disconnect _ | .send _ _ _ _ | .poll _ => []

/-- The messages of a run, in the order in which the master handles them. -/
def System.messages (env : ClientEnv σ) (s : System σ) (ops : List Op) : List Passed :=
  Runs.outputs (System.step env) (System.passed env) s ops

/-- A packet that is written to a child is written for one of these messages. -/
def Heard (messages : List Passed) (pid : UInt32) (r : Reply) : Bool :=
  if r.ticket.pid = pid then decide (r.ticket ∈ messages.map Passed.ticket)
  else decide (r.packet.code ≠ REQ_KICK)

/-! ## The numbers of requests -/

namespace Peer

variable {p p' p'' : Peer} {pid : UInt32}

/-- The requests in the pipe are in the order in which they were sent. -/
structure InOrder (p : Peer) : Prop where
  increasing : p.requests.Pairwise fun r r' => r.number < r'.number
  sent : ∀ r ∈ p.requests, r.number < p.sent

/-- No request before this one is still to be handled, or to be sent. -/
structure From (k : ℕ) (p : Peer) : Prop where
  sent : k ≤ p.sent
  requests : ∀ r ∈ p.requests, k ≤ r.number

theorem inOrder_nil (p : Peer) (h : p.requests = []) : p.InOrder :=
  ⟨h ▸ List.Pairwise.nil, fun _ hr => absurd (h ▸ hr) List.not_mem_nil⟩

/-- A request that is sent is the last. -/
theorem InOrder.send (h : p.InOrder) (cmd : UInt8) (data : List UInt8) (short : data.length + 5 ≤ MSG_MAX) :
    (p.send cmd data short).InOrder := by
  rcases p.send_cases cmd data short with hsend | ⟨-, hsend⟩
  · rwa [hsend]
  · rw [hsend]
    refine ⟨List.pairwise_append.mpr ⟨h.increasing, List.pairwise_singleton _ _, fun r hr r' hr' => ?_⟩,
      fun r hr => ?_⟩
    · obtain rfl := List.mem_singleton.mp hr'
      exact h.sent r hr
    · rcases List.mem_append.mp hr with hr | hr
      · exact (h.sent r hr).trans (Nat.lt_succ_self _)
      · obtain rfl := List.mem_singleton.mp hr
        exact Nat.lt_succ_self _

theorem From.send {k : ℕ} (h : From k p) (cmd : UInt8) (data : List UInt8)
    (short : data.length + 5 ≤ MSG_MAX) : From k (p.send cmd data short) := by
  rcases p.send_cases cmd data short with hsend | ⟨-, hsend⟩
  · rwa [hsend]
  · rw [hsend]
    refine ⟨h.sent.trans (Nat.le_succ _), fun r hr => ?_⟩
    rcases List.mem_append.mp hr with hr | hr
    · exact h.requests r hr
    · obtain rfl := List.mem_singleton.mp hr
      exact h.sent

/-- The first request is handled, or none is. -/
theorem InOrder.rest (h : p.InOrder) {r : Sent} {rest : List Sent} (hr : p.requests = r :: rest) :
    ({ p with requests := rest } : Peer).InOrder ∧ From (r.number + 1) { p with requests := rest } ∧
      ∀ k, From k p → k ≤ r.number ∧ From k { p with requests := rest } := by
  have hincreasing := h.increasing
  rw [hr, List.pairwise_cons] at hincreasing
  have hsent := hr ▸ h.sent
  refine ⟨⟨hincreasing.2, fun r' hr' => hsent r' (List.mem_cons_of_mem _ hr')⟩,
    ⟨hsent r List.mem_cons_self, hincreasing.1⟩, fun k hk => ?_⟩
  have hrequests := hr ▸ hk.requests
  exact ⟨hrequests r List.mem_cons_self, hk.sent, fun r' hr' => hrequests r' (List.mem_cons_of_mem _ hr')⟩

/-! ## What a child has been written -/

/-- While these messages were passed on, the child has been written them, each once and in this order.  The
numbers of its own requests have grown. -/
structure Follows (pid : UInt32) (p p' : Peer) (messages : List Passed) : Prop where
  heard : ∃ new, p'.written = p.written ++ new ∧
    new.filter (Heard messages pid) = messages.flatMap Passed.packets ∧
    ∀ r ∈ new, r.ticket.pid = pid → p'.From (r.ticket.number + 1) ∧
      ∀ k, p.From k → k ≤ r.ticket.number
  later : ∀ k, p.From k → p'.From k

/-- Nothing has been written. -/
theorem follows_of_written (hwritten : p'.written = p.written) (hlater : ∀ k, p.From k → p'.From k) :
    Follows pid p p' [] :=
  ⟨⟨[], by rw [hwritten, List.append_nil], rfl, fun _ h => absurd h List.not_mem_nil⟩, hlater⟩

/-- A message that the child has been written is one of its new packets. -/
theorem exists_mem_of_ticket {messages : List Passed} {new : List Reply}
    (h : new.filter (Heard messages pid) = messages.flatMap Passed.packets) {t : Ticket}
    (ht : t ∈ messages.map Passed.ticket) : ∃ r ∈ new, r.ticket = t := by
  obtain ⟨b, hb, rfl⟩ := List.mem_map.mp ht
  have hmem : (⟨b.ticket, .raw REQ_BCASTMSG b.data⟩ : Reply) ∈ new.filter (Heard messages pid) := by
    rw [h]
    exact List.mem_flatMap.mpr ⟨b, hb, List.mem_cons_self⟩
  exact ⟨_, List.mem_of_mem_filter hmem, rfl⟩

/-- Messages with other tickets do not change what is heard. -/
theorem heard_congr {ms ms' : List Passed} {r : Reply}
    (h : r.ticket.pid = pid → (r.ticket ∈ ms.map Passed.ticket ↔ r.ticket ∈ ms'.map Passed.ticket)) :
    Heard ms pid r = Heard ms' pid r := by
  unfold Heard
  split
  · rename_i hpid
    exact decide_eq_decide.mpr (h hpid)
  · rfl

/-- **First these messages, then those.**  A request of the child has a number that neither an earlier nor a
later one has. -/
theorem Follows.trans {ms ms' : List Passed} (h : Follows pid p p' ms) (h' : Follows pid p' p'' ms') :
    Follows pid p p'' (ms ++ ms') := by
  obtain ⟨new, hwritten, hheard, hown⟩ := h.heard
  obtain ⟨new', hwritten', hheard', hown'⟩ := h'.heard
  have hdisjoint : ∀ r ∈ new, ∀ r' ∈ new', r.ticket.pid = pid → r'.ticket ≠ r.ticket := by
    intro r hr r' hr' hpid heq
    have hlt := (hown' r' hr' (heq ▸ hpid)).2 _ (hown r hr hpid).1
    rw [heq] at hlt
    exact absurd hlt (Nat.not_succ_le_self _)
  have hfirst : ∀ r ∈ new, Heard (ms ++ ms') pid r = Heard ms pid r := by
    intro r hr
    refine heard_congr fun hpid => ?_
    rw [List.map_append, List.mem_append, or_iff_left]
    intro hmem
    obtain ⟨r', hr', heq⟩ := exists_mem_of_ticket hheard' hmem
    exact hdisjoint r hr r' hr' hpid heq
  have hsecond : ∀ r ∈ new', Heard (ms ++ ms') pid r = Heard ms' pid r := by
    intro r' hr'
    refine heard_congr fun hpid => ?_
    rw [List.map_append, List.mem_append, or_iff_right]
    intro hmem
    obtain ⟨r, hr, heq⟩ := exists_mem_of_ticket hheard hmem
    exact hdisjoint r hr r' hr' (heq ▸ hpid) heq.symm
  refine ⟨⟨new ++ new', ?_, ?_, fun r hr hpid => ?_⟩, fun k hk => h'.later k (h.later k hk)⟩
  · rw [hwritten', hwritten, List.append_assoc]
  · rw [List.filter_append, List.filter_congr hfirst, List.filter_congr hsecond, hheard, hheard',
      List.flatMap_append]
  · rcases List.mem_append.mp hr with hr | hr
    · exact ⟨h'.later _ (hown r hr hpid).1, (hown r hr hpid).2⟩
    · exact ⟨(hown' r hr hpid).1, fun k hk => (hown' r hr hpid).2 k (h.later k hk)⟩

/-- **A request is handled**, of the child or of another, and `p` is the child when the request has been read.
The messages are those that `Shared` speaks of. -/
theorem follows_deliver {sender : UInt32} {r : Sent} {log : List Event}
    (hlog : Shared env pid sender r.cmd r.data log) (hlater : ∀ k, p.From k → p'.From k)
    (hwritten : p'.written = p.written)
    (hown : sender = pid → p'.From (r.number + 1) ∧ ∀ k, p.From k → k ≤ r.number) :
    Follows pid p (p'.deliver pid ⟨sender, r.number⟩ log)
      (if r.cmd = REQ_BCASTMSG then [⟨⟨sender, r.number⟩, r.data⟩] else []) := by
  have hfrom : ∀ k, p'.From k → (p'.deliver pid ⟨sender, r.number⟩ log).From k := fun _ h => ⟨h.sent, h.requests⟩
  refine ⟨⟨(log.filterMap (Event.writtenTo pid)).map (Reply.mk ⟨sender, r.number⟩), ?_, ?_, fun u hu hpid => ?_⟩,
    fun k hk => hfrom k (hlater k hk)⟩
  · exact congrArg (· ++ _) hwritten
  · split
    · rename_i hmsg
      rw [hlog.message hmsg]
      by_cases hpid : sender = pid <;>
        simp [Heard, hpid, Passed.packets, Written.code, REQ_BCASTMSG, REQ_ALLDONE, REQ_KICK]
    · rename_i hmsg
      rw [List.flatMap_nil, List.filter_eq_nil_iff]
      intro u hu
      obtain ⟨hticket, hmem⟩ := mem_delivered hu
      rw [Heard, hticket]
      by_cases hpid : sender = pid
      · simp [hpid]
      · simp [hpid, hlog.kicks hmsg (Ne.symm hpid) _ hmem]
  · obtain ⟨hticket, -⟩ := mem_delivered hu
    rw [hticket] at hpid ⊢
    exact ⟨hfrom _ (hown hpid).1, (hown hpid).2⟩

end Peer

/-! ## The whole system -/

namespace System

variable {s s' : System σ}

/-- The system is manned, and the requests of every client are in order. -/
structure InOrder (env : ClientEnv σ) (s : System σ) : Prop where
  manned : s.Manned env
  peers : ∀ pid, (s.peers pid).InOrder

theorem inOrder_start (env : ClientEnv σ) (rooms : List RoomSetup) (users : CString → Option UserData)
    (world : σ) : (start rooms users world).InOrder env :=
  ⟨manned_start env rooms users world, fun _ => Peer.inOrder_nil _ rfl⟩

/-- The requests that are left when one of them is handled. -/
theorem InOrder.left (h : s.InOrder env) {pid sender : UInt32} {r : Sent} {requests : List Sent}
    (hown : sender = pid → (s.peers pid).requests = r :: requests)
    (hother : sender ≠ pid → requests = (s.peers pid).requests) :
    ({ s.peers pid with requests } : Peer).InOrder ∧
      (∀ k, (s.peers pid).From k → ({ s.peers pid with requests } : Peer).From k) ∧
      (sender = pid → ({ s.peers pid with requests } : Peer).From (r.number + 1) ∧
        ∀ k, (s.peers pid).From k → k ≤ r.number) := by
  by_cases hpid : sender = pid
  · obtain ⟨hrest, hfrom, hle⟩ := (h.peers pid).rest (hown hpid)
    exact ⟨hrest, fun k hk => (hle k hk).2, fun _ => ⟨hfrom, fun k hk => (hle k hk).1⟩⟩
  · obtain rfl := hother hpid
    exact ⟨h.peers pid, fun _ hk => hk, fun heq => absurd heq hpid⟩

/-- **One step.** -/
theorem InOrder.step (h : s.InOrder env) {op : Op} (hs : s.step env op = .ok s') : s'.InOrder env := by
  refine ⟨h.manned.step hs, fun pid => ?_⟩
  have hpeer := (stepped_step h.manned.sound hs).peers pid
  generalize s'.peers pid = p' at hpeer
  cases hpeer with
  | idle => exact h.peers pid
  | start => exact Peer.inOrder_nil _ rfl
  | exit => exact ⟨(h.peers pid).increasing, (h.peers pid).sent⟩
  | send cmd data short => exact (h.peers pid).send cmd data short
  | poll =>
    obtain ⟨-, hrequests, hsent⟩ := (s.peers pid).poll_pipes
    exact ⟨hrequests ▸ (h.peers pid).increasing, hrequests ▸ hsent ▸ (h.peers pid).sent⟩
  | handle _ hown hother =>
    obtain ⟨hleft, -⟩ := h.left hown hother
    exact ⟨hleft.increasing, hleft.sent⟩

/-- **One step, for a child that stays**: it is written the message that is passed on, if there is one. -/
theorem InOrder.follows_step (h : s.InOrder env) {op : Op} (hs : s.step env op = .ok s') {pid : UInt32}
    (hop : op ≠ .disconnect pid) (hlisted : s.Listed env pid) :
    (s.peers pid).Follows pid (s'.peers pid) (s.passed env op) := by
  have hpeer := (stepped_step h.manned.sound hs).peers pid
  generalize s'.peers pid = p' at hpeer
  cases hpeer with
  | idle _ hhandle =>
    have hpassed : s.passed env op = [] := by
      cases op with
      | handle sender => rw [passed, hhandle sender rfl, List.head?_nil]
      | _ => rfl
    rw [hpassed]
    exact Peer.follows_of_written rfl fun _ hk => hk
  | start hnone => exact absurd hlisted hnone
  | exit => exact absurd rfl hop
  | send cmd data short =>
    refine Peer.follows_of_written ?_ fun _ hk => hk.send cmd data short
    rcases (s.peers pid).send_cases cmd data short with hsend | ⟨-, hsend⟩ <;> rw [hsend]
  | poll =>
    obtain ⟨hwritten, hrequests, hsent⟩ := (s.peers pid).poll_pipes
    exact Peer.follows_of_written hwritten fun _ hk => ⟨hsent ▸ hk.sent, hrequests ▸ hk.requests⟩
  | @handle sender r requests log hr hown hother habsent hshared =>
    obtain ⟨-, hlater, hnumber⟩ := h.left hown hother
    rw [passed, hr]
    cases hsender : s.dispatch.server.master.child env.asserts sender with
    | none =>
      rw [habsent (by simp [Listed, hsender])]
      exact Peer.follows_of_written (List.append_nil _) fun k hk => ⟨(hlater k hk).sent, (hlater k hk).requests⟩
    | some c => exact Peer.follows_deliver (hshared (by simp [Listed, hsender]) hlisted) hlater rfl hnumber

/-- **A run.** -/
theorem InOrder.follows_run (h : s.InOrder env) {ops : List Op} {pid : UInt32} (hops : Op.disconnect pid ∉ ops)
    (hpid : s.Listed env pid) (hs : Runs.run (System.step env) s ops = .ok s') :
    (s.peers pid).Follows pid (s'.peers pid) (s.messages env ops) := by
  refine (Runs.outputs_run (J := fun s => s.InOrder env ∧ s.Listed env pid)
    (R := fun s s' messages => (s.peers pid).Follows pid (s'.peers pid) messages)
    (p := fun op => op ≠ .disconnect pid)
    (fun s => Peer.follows_of_written rfl fun _ hk => hk) (fun _ _ _ _ _ h₁ h₂ => h₁.trans h₂) ?_ ⟨h, hpid⟩
    ?_ hs).2
  · intro s op s' hJ hne hstep
    exact ⟨⟨hJ.1.step hstep, (stepped_step hJ.1.manned.sound hstep).kept pid hne hJ.2⟩,
      hJ.1.follows_step hstep hne hJ.2⟩
  · rintro op hop rfl
    exact hops hop

end System

/-! ## What is heard -/

/-- What the child has read, of what has been written to it for these messages since `s`. -/
def System.heardSince (s s' : System σ) (messages : List Passed) (pid : UInt32) : List Reply :=
  ((s'.peers pid).consumed.drop (s.peers pid).written.length).filter (Heard messages pid)

/-- What is read comes from what is written. -/
theorem isPrefix_heardSince {s s' : System σ} {messages : List Passed} {pid : UInt32}
    (h : (s.peers pid).Follows pid (s'.peers pid) messages) :
    s.heardSince s' messages pid <+: messages.flatMap Passed.packets := by
  obtain ⟨new, hwritten, hheard, -⟩ := h.heard
  have hread : ((s'.peers pid).consumed.drop (s.peers pid).written.length) <+: new := by
    rw [Peer.consumed, List.drop_take, hwritten, List.drop_left]
    exact List.take_prefix _ _
  rw [System.heardSince, ← hheard]
  exact hread.filter _

/-- **All hear the same, in one order.**  From any state that is reached, however the steps of the clients and of
the master are interleaved: a child that stays has been written all messages of the run that follows, each once
and whole, in the order in which the master handled them, and nothing else that looks like one.  So of any two
such children, one has read what the other has, or the other has read more of the same. -/
theorem messages_in_order (env : ClientEnv σ) (rooms : List RoomSetup) (users : CString → Option UserData)
    (world : σ) {before ops : List Op} {s s' : System σ}
    (hbefore : Runs.run (System.step env) (System.start rooms users world) before = .ok s)
    (hrun : Runs.run (System.step env) s ops = .ok s') :
    (∀ pid, s.Attends env ops pid →
      ∃ new, (s'.peers pid).written = (s.peers pid).written ++ new ∧
        new.filter (Heard (s.messages env ops) pid) = (s.messages env ops).flatMap Passed.packets) ∧
    ∀ p q, s.Attends env ops p → s.Attends env ops q →
      s.heardSince s' (s.messages env ops) p <+: s.heardSince s' (s.messages env ops) q ∨
        s.heardSince s' (s.messages env ops) q <+: s.heardSince s' (s.messages env ops) p := by
  have horder : s.InOrder env := Runs.invariant_run (fun _ _ _ hs hstep => hs.step hstep)
    (System.inOrder_start env rooms users world) hbefore
  have hfollows : ∀ pid, s.Attends env ops pid →
      (s.peers pid).Follows pid (s'.peers pid) (s.messages env ops) :=
    fun pid hpid => horder.follows_run hpid.2 hpid.1 hrun
  refine ⟨fun pid hpid => ?_, fun p q hp hq => ?_⟩
  · obtain ⟨new, hwritten, hheard, -⟩ := (hfollows pid hpid).heard
    exact ⟨new, hwritten, hheard⟩
  · exact List.prefix_or_prefix_of_prefix (isPrefix_heardSince (hfollows p hp)) (isPrefix_heardSince (hfollows q hq))

/-- The connections of the children 7 and 9. -/
def sampleHall : List Op := [.connect 7 (.ofChars []), .connect 9 (.ofChars [])]

/-- Both say something, and the message of 9 is handled first. -/
def sampleMessages : List Op :=
  [.send 7 REQ_BCASTMSG [97] short_letter, .send 9 REQ_BCASTMSG [98] (by decide), .handle 9, .poll 7, .handle 7]

/-- Both are written the message of 9, and then that of 7. -/
theorem two_messages_in_order :
    ∃ s s', Runs.run (System.step quietEnv) sampleStart sampleHall = .ok s ∧
      Runs.run (System.step quietEnv) s sampleMessages = .ok s' ∧
      s.messages quietEnv sampleMessages = [⟨⟨9, 0⟩, [98]⟩, ⟨⟨7, 0⟩, [97]⟩] ∧
      ∀ pid ∈ [(7 : UInt32), 9], ∃ new, (s'.peers pid).written = (s.peers pid).written ++ new ∧
        new.filter (Heard (s.messages quietEnv sampleMessages) pid) =
          (s.messages quietEnv sampleMessages).flatMap Passed.packets := by
  have hcheck : (Runs.run (System.step quietEnv) sampleStart sampleHall).toOption.any (fun s =>
      (Runs.run (System.step quietEnv) s sampleMessages).toOption.any (fun _ => true) &&
        decide (s.messages quietEnv sampleMessages = [⟨⟨9, 0⟩, [98]⟩, ⟨⟨7, 0⟩, [97]⟩]) &&
        [(7 : UInt32), 9].all fun pid => (s.dispatch.server.master.child true pid).isSome) = true := by
    decide +kernel
  obtain ⟨s, hs, hcheck⟩ := exists_of_any_toOption hcheck
  obtain ⟨hcheck, hlisted⟩ := Bool.and_eq_true_iff.mp hcheck
  obtain ⟨hreturns, hmessages⟩ := Bool.and_eq_true_iff.mp hcheck
  obtain ⟨s', hs', -⟩ := exists_of_any_toOption hreturns
  refine ⟨s, s', hs, hs', of_decide_eq_true hmessages, fun pid hpid => ?_⟩
  refine (messages_in_order quietEnv _ _ () hs hs').1 pid ⟨List.all_eq_true.mp hlisted pid hpid, ?_⟩
  simp [sampleMessages]

end Replies

end NetCosm
