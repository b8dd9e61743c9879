import NetCosm.Server.Replies

/-!
# What a step does to the clients

In the system of `Server/Replies` the clients and the master take their steps in any order.  What one step does to
one client is little: the client starts, ends, sends or reads, or a request is handled, its own or another's, and
packets are written to it.  `System.PeerStep` lists this, and `stepped_step` says that there is nothing else, so
what is to hold of a client in all runs needs one case for each of these.

## What is written

`Shared` says what the client is written while a request is handled: the whole of a message, and of what others ask
for nothing else but kicks; the end of its own request; and a kick if it is meant.
-/

namespace NetCosm

namespace Replies

open Storage

variable {σ : Type} {env : ClientEnv σ}

/-! ## What the master writes for one request -/

/-- The master answers the request itself, with what is asked for or with a text, or the world module does. -/
theorem handleRequest_cases {env : ClientEnv σ} {s : ServerState σ} {sender : ChildData} {r : Request}
    {a : List Packet × ServerState σ} (h : handleRequest env s sender r = .ok a) :
    (a.2.world = s.world ∧ ∀ p ∈ a.1, ¬ p.IsNotice ∨ ∃ text, p = .bcastMsg text) ∨
      execWorld env s sender r = .ok a := by
  cases r with
  | changeState state =>
    obtain rfl := Except.ok.inj h
    exact Or.inl ⟨rfl, fun _ hp => absurd hp List.not_mem_nil⟩
  | changeUser name =>
    obtain rfl := Except.ok.inj h
    exact Or.inl ⟨rfl, fun _ hp => absurd hp List.not_mem_nil⟩
  | setRoom id =>
    obtain ⟨master, -, h⟩ := bind_eq_ok h
    obtain rfl := Except.ok.inj h
    exact Or.inl ⟨rfl, fun _ hp => absurd hp List.not_mem_nil⟩
  | move dir =>
    obtain ⟨⟨msg, moved, master⟩, -, h⟩ := bind_eq_ok h
    obtain rfl := Except.ok.inj h
    refine Or.inl ⟨rfl, fun p hp => ?_⟩
    rcases List.mem_append.mp hp with hp | hp
    · obtain ⟨m, -, rfl⟩ := List.mem_map.mp hp
      exact Or.inr ⟨_, rfl⟩
    · obtain rfl := List.mem_singleton.mp hp
      exact Or.inl id
  | getUserData name =>
    obtain rfl := Except.ok.inj h
    refine Or.inl ⟨rfl, fun p hp => ?_⟩
    have hp : p ∈ reqSendUser s name := hp
    rw [reqSendUser] at hp
    split at hp
    · obtain rfl := List.mem_singleton.mp hp
      exact Or.inl id
    · exact absurd hp List.not_mem_nil
  | delUserData name =>
    obtain rfl := Except.ok.inj h
    refine Or.inl ⟨rfl, fun p hp => ?_⟩
    obtain rfl := List.mem_singleton.mp hp
    exact Or.inl id
  | addUserData data =>
    obtain rfl := Except.ok.inj h
    refine Or.inl ⟨rfl, fun p hp => ?_⟩
    obtain rfl := List.mem_singleton.mp hp
    exact Or.inl id
  | bcastMsg text | listClients | kick pid text | kickAll text | wait | getRoomDesc | getRoomName
  | lookAt name | printInventory | take name | drop name | listUsers | execVerb line =>
    exact Or.inr h

/-- The same of a finalizer. -/
theorem run_cases {env : ClientEnv σ} {s : ServerState σ} {data : List UInt8} {datalen : ℕ}
    {sender : ChildData} {f : Finalizer} {a : List Packet × ServerState σ}
    (h : f.run env s data datalen sender = .ok a) :
    (a.2.world = s.world ∧ ∀ p ∈ a.1, ¬ p.IsNotice ∨ ∃ text, p = .bcastMsg text) ∨
      ∃ r, execWorld env s sender r = .ok a := by
  have hrequest : ∀ r, handleRequest env s sender r = .ok a → _ ∨ ∃ r, execWorld env s sender r = .ok a :=
    fun r h => (handleRequest_cases h).imp_right fun h => ⟨r, h⟩
  have hnot : ∀ p : Packet, ¬ p.IsNotice → ∀ q ∈ [p], ¬ q.IsNotice ∨ ∃ text, q = .bcastMsg text := by
    intro p hp q hq
    obtain rfl := List.mem_singleton.mp hq
    exact Or.inl hp
  cases f with
  | sendUser =>
    rw [Finalizer.run] at h
    split at h
    · exact hrequest _ h
    · obtain rfl := Except.ok.inj h
      exact Or.inl ⟨rfl, fun _ hp => absurd hp List.not_mem_nil⟩
  | delUser =>
    rw [Finalizer.run] at h
    split at h
    · exact hrequest _ h
    · obtain rfl := Except.ok.inj h
      exact Or.inl ⟨rfl, hnot _ id⟩
  | addUser =>
    rw [Finalizer.run] at h
    split at h
    · exact hrequest _ h
    · obtain rfl := Except.ok.inj h
      exact Or.inl ⟨rfl, hnot _ id⟩
  | sendGeninfo | setRoom | moveRoom | lookAt | take | drop | execverb | wait | sendDesc
  | sendRoomname | inventory | listusers =>
    rw [Finalizer.run] at h
    exact hrequest _ h

/-- A call of this `handle_child` kicks the child. -/
def Kicking (data : List UInt8) (datalen : ℕ) (child : ChildData) (handler : ChildHandler) : Prop :=
  handler = .kickAlways ∨ handler = .kickClient ∧ 4 ≤ datalen ∧ numberAt 0 4 data = child.pid.toNat

section Events

variable {asserts : Bool} {d : Dispatch σ} {data : List UInt8} {datalen : ℕ} {sender child : ChildData}
  {handler : ChildHandler} {events : List Event} {pid : UInt32} {w : Written}

/-- What a call of `handle_child` writes: a message that is passed on and its end, a kick, or a line for the
sender. -/
theorem wrote_cases (h : handler.events asserts d data datalen sender child = .ok events)
    (hw : .wrote pid w ∈ events) :
    handler = .passMsg ∧ child.pid = pid ∧ (w.code = REQ_BCASTMSG ∨ w.code = REQ_ALLDONE) ∨
      Kicking data datalen child handler ∧ child.pid = pid ∧ w.code = REQ_KICK ∨
      sender.pid = pid ∧ w.code = REQ_BCASTMSG := by
  have hsend : ∀ {q : UInt32} {cmd : UInt8} {bytes : List UInt8} {n : ℕ} {es : List Event},
      sendPacket asserts q cmd bytes n = .ok es → .wrote pid w ∈ es → q = pid ∧ w.code = cmd := by
    intro q cmd bytes n es hes hw
    obtain ⟨piece, heq⟩ := mem_sendPacket hes hw
    obtain ⟨rfl, rfl⟩ := Event.wrote.inj heq
    exact ⟨rfl, rfl⟩
  cases handler with
  | changeState | changeUser =>
    obtain rfl := Except.ok.inj h
    exact absurd hw List.not_mem_nil
  | passMsg =>
    obtain ⟨msg, hmsg, h⟩ := bind_eq_ok h
    split at h
    · obtain ⟨done, hdone, h⟩ := bind_eq_ok h
      obtain rfl := Except.ok.inj h
      rcases List.mem_append.mp hw with hw | hw
      · exact Or.inl ⟨rfl, (hsend hmsg hw).imp_right Or.inl⟩
      · exact Or.inl ⟨rfl, (hsend hdone hw).imp_right Or.inr⟩
    · obtain rfl := Except.ok.inj h
      exact Or.inl ⟨rfl, (hsend hmsg hw).imp_right Or.inl⟩
  | kickClient =>
    rw [ChildHandler.events, reqKickClient] at h
    split at h
    · rename_i hnumber
      obtain ⟨kick, hkick, h⟩ := bind_eq_ok h
      obtain ⟨success, hsuccess, h⟩ := bind_eq_ok h
      obtain rfl := Except.ok.inj h
      rcases List.mem_append.mp hw with hw | hw
      · exact Or.inr (Or.inl ⟨Or.inr ⟨rfl, hnumber⟩, hsend hkick hw⟩)
      · exact Or.inr (Or.inr (hsend hsuccess hw))
    · obtain rfl := Except.ok.inj h
      exact absurd hw List.not_mem_nil
  | kickAlways => exact Or.inr (Or.inl ⟨Or.inl rfl, hsend h hw⟩)
  | sendClientinfo =>
    obtain ⟨name, -, h⟩ := bind_eq_ok h
    exact Or.inr (Or.inr (hsend h hw))

/-- What is written for others: a `handle_child` that does not pass a message on writes them kicks. -/
theorem code_of_events (hne : handler ≠ .passMsg)
    (h : handler.events asserts d data datalen sender child = .ok events) (hpid : pid ≠ sender.pid)
    (hw : .wrote pid w ∈ events) : w.code = REQ_KICK := by
  obtain ⟨hpass, -⟩ | ⟨-, -, hcode⟩ | ⟨hsender, -⟩ := wrote_cases h hw
  · exact absurd hpass hne
  · exact hcode
  · exact absurd hsender.symm hpid

/-- Only a call that kicks writes a kick, and it writes it to the child. -/
theorem kicks_of_events (h : handler.events asserts d data datalen sender child = .ok events)
    (hw : .wrote pid w ∈ events) (hcode : w.code = REQ_KICK) :
    child.pid = pid ∧ Kicking data datalen child handler := by
  obtain ⟨-, -, hmsg | hdone⟩ | ⟨hkicking, hpid, -⟩ | ⟨-, hmsg⟩ := wrote_cases h hw
  · exact absurd (hmsg.symm.trans hcode) (by decide)
  · exact absurd (hdone.symm.trans hcode) (by decide)
  · exact ⟨hpid, hkicking⟩
  · exact absurd (hmsg.symm.trans hcode) (by decide)

end Events

/-- What is written in the calls of `handle_child` is written in one of them. -/
theorem mem_calls {asserts : Bool} {d : Dispatch σ} {data : List UInt8} {datalen : ℕ} {sender : ChildData}
    {req : ChildRequest} {pid : UInt32} {w : Written}
    (hw : .wrote pid w ∈ req.calls asserts d data datalen sender) :
    ∃ handler child events, req.handleChild = some handler ∧
      handler.events asserts d data datalen sender child = .ok events ∧ .wrote pid w ∈ events ∧
      (child.pid = sender.pid → req.which ≠ .childAllButSender) := by
  unfold ChildRequest.calls at hw
  cases hhandler : req.handleChild with
  | none =>
    rw [hhandler] at hw
    exact absurd hw List.not_mem_nil
  | some handler =>
    rw [hhandler] at hw
    dsimp only at hw
    have hothers : .wrote pid w ∈ (otherNodes d.server.master.childMap.nodes sender.pid).flatMap (fun node =>
        handler.record asserts d data datalen sender node.data) →
        ∃ child, .wrote pid w ∈ handler.record asserts d data datalen sender child ∧ child.pid ≠ sender.pid := by
      intro hmem
      obtain ⟨node, hnode, hmem⟩ := List.mem_flatMap.mp hmem
      exact ⟨node.data, hmem, by simpa using (List.mem_filter.mp hnode).2⟩
    have hcall : ∃ child, .wrote pid w ∈ handler.record asserts d data datalen sender child ∧
        (child.pid = sender.pid → req.which ≠ .childAllButSender) := by
      cases hwhich : req.which with
      | childNone =>
        rw [hwhich] at hw
        exact absurd hw List.not_mem_nil
      | childSender =>
        rw [hwhich] at hw
        exact ⟨sender, hw, by simp⟩
      | childAllButSender =>
        rw [hwhich] at hw
        obtain ⟨child, hmem, hne⟩ := hothers hw
        exact ⟨child, hmem, fun heq => absurd heq hne⟩
      | childAll =>
        rw [hwhich] at hw
        rcases List.mem_append.mp hw with hw | hw
        · exact ⟨sender, hw, by simp⟩
        · obtain ⟨child, hmem, -⟩ := hothers hw
          exact ⟨child, hmem, by simp⟩
    obtain ⟨child, hmem, hne⟩ := hcall
    have hmem := (List.mem_cons.mp hmem).resolve_left (by simp)
    cases hevents : handler.events asserts d data datalen sender child with
    | error e =>
      rw [hevents] at hmem
      exact absurd hmem List.not_mem_nil
    | ok events =>
      rw [hevents] at hmem
      exact ⟨handler, child, events, rfl, hevents, hmem, hne⟩

/-- The calls of a `handle_child` that does not pass a message on write others kicks. -/
theorem code_of_calls {asserts : Bool} {d : Dispatch σ} {data : List UInt8} {datalen : ℕ}
    {sender : ChildData} {req : ChildRequest} (hne : req.handleChild ≠ some .passMsg) {pid : UInt32}
    (hpid : pid ≠ sender.pid) {w : Written} (hw : .wrote pid w ∈ req.calls asserts d data datalen sender) :
    w.code = REQ_KICK := by
  obtain ⟨handler, child, events, hhandler, hevents, hmem, -⟩ := mem_calls hw
  exact code_of_events (fun heq => hne (hhandler.trans (congrArg some heq))) hevents hpid hmem

/-- No packet of the world module is a kick: `world_api.c` has nothing to kick with. -/
def NeverKicks (env : ClientEnv σ) : Prop :=
  ∀ sender r s a text, env.answer sender r s = .ok a → .kick text ∉ a.packets

/-- A finalizer writes answers to the sender. -/
theorem finalize_writes {env : ClientEnv σ} {finalize : Option Finalizer} {data : List UInt8} {datalen : ℕ}
    {sender : ChildData} {s s' : Handling σ} (h : callFinalize env finalize data datalen sender s = .ok s')
    {pid : UInt32} {w : Written} (hw : .wrote pid w ∈ s'.log) :
    .wrote pid w ∈ s.log ∨ pid = sender.pid ∧ (NeverKicks env → w.code ≠ REQ_KICK) := by
  cases finalize with
  | none =>
    obtain rfl := Except.ok.inj h
    exact Or.inl hw
  | some f =>
    obtain ⟨a, ha, h⟩ := bind_eq_ok h
    obtain rfl := Except.ok.inj h
    refine (List.mem_append.mp hw).imp_right fun hw => ?_
    obtain ⟨p, hp, heq⟩ := List.mem_map.mp ((List.mem_cons.mp hw).resolve_left (by simp))
    obtain ⟨rfl, rfl⟩ := Event.wrote.inj heq
    refine ⟨rfl, fun hquiet hcode => ?_⟩
    have hkick : ∃ text, p = .kick text := by
      cases p with
      | kick text => exact ⟨text, rfl⟩
      | _ =>
        simp [Written.code, Packet.code, REQ_KICK, REQ_RAWMODE, REQ_BCASTMSG, REQ_MOVE, REQ_GETUSERDATA,
          REQ_DELUSERDATA, REQ_ADDUSERDATA, REQ_NOP, REQ_PRINTNEWLINE, REQ_ALLDONE] at hcode
    obtain ⟨text, rfl⟩ := hkick
    rcases run_cases ha with ⟨-, hall⟩ | ⟨r, hworld⟩
    · rcases hall _ hp with hnot | ⟨text', heq⟩
      · exact hnot trivial
      · exact absurd heq (by simp)
    · obtain ⟨answer, hanswer, hworld⟩ := bind_eq_ok hworld
      obtain ⟨master, -, hworld⟩ := bind_eq_ok hworld
      obtain rfl := Except.ok.inj hworld
      exact hquiet _ _ _ _ _ hanswer hp

/-- What the sender of a message is written in the calls of `handle_child`. -/
theorem calls_passMsg_sender {asserts : Bool} {d : Dispatch σ} {data : List UInt8} {datalen : ℕ}
    {sender : ChildData} (hshort : datalen < MSG_MAX) (hdata : datalen ≤ data.length) {req : ChildRequest}
    (hhandler : req.handleChild = some .passMsg) (hwhich : req.which = .childAll) :
    (req.calls asserts d data datalen sender).filterMap (Event.writtenTo sender.pid) =
      [.raw REQ_BCASTMSG (data.take datalen)] := by
  have hrecord : ∀ child : ChildData,
      (ChildHandler.passMsg.record asserts d data datalen sender child).filterMap
          (Event.writtenTo sender.pid) =
        if child.pid = sender.pid then [.raw REQ_BCASTMSG (data.take datalen)] else [] := by
    intro child
    rw [ChildHandler.record, ChildHandler.events, reqPassMsg, sendPacket_of_lt hshort hdata,
      sendPacket_of_lt (by decide) (Nat.zero_le _)]
    by_cases hchild : child.pid = sender.pid
    · simp [Event.writtenTo, hchild, bind, Except.bind, Except.toOption, List.filterMap_cons]
    · simp [Event.writtenTo, hchild, bind, Except.bind, Except.toOption, List.filterMap_cons]
  have hothers : ((otherNodes d.server.master.childMap.nodes sender.pid).flatMap fun node =>
      (ChildHandler.passMsg.record asserts d data datalen sender node.data).filterMap
        (Event.writtenTo sender.pid)) = [] := by
    rw [List.flatMap_eq_nil_iff]
    intro node hnode
    have hne : node.data.pid ≠ sender.pid := by simpa using (List.mem_filter.mp hnode).2
    rw [hrecord, if_neg hne]
  rw [ChildRequest.calls, hhandler, hwhich]
  dsimp only
  rw [List.filterMap_append, hrecord, if_pos rfl, List.filterMap_flatMap, hothers, List.append_nil]

/-- The request kicks the child: it names its pid, or it is meant for all others. -/
def Kicks (cmd : UInt8) (data : List UInt8) (sender pid : UInt32) : Prop :=
  (cmd = REQ_KICK ∧ 4 ≤ data.length ∧ numberAt 0 4 data = pid.toNat) ∨ (cmd = REQ_KICKALL ∧ pid ≠ sender)

/-- A call of a `handle_child` that kicks. -/
theorem kick_mem_record (asserts : Bool) (d : Dispatch σ) {data : List UInt8} {datalen : ℕ}
    (sender child : ChildData) (hshort : datalen < MSG_MAX) (hdata : datalen ≤ data.length)
    {handler : ChildHandler} (h : Kicking data datalen child handler) :
    ∃ bytes, .wrote child.pid (.raw REQ_KICK bytes) ∈ handler.record asserts d data datalen sender child := by
  rcases h with rfl | ⟨rfl, hlen, hnumber⟩
  · refine ⟨data.take datalen, List.mem_cons_of_mem _ ?_⟩
    rw [ChildHandler.events, sendPacket_of_lt hshort hdata]
    exact List.mem_singleton_self _
  · refine ⟨(data.drop 4).take (datalen - 4), List.mem_cons_of_mem _ ?_⟩
    have hkick : sendPacket asserts child.pid REQ_KICK (data.drop 4) (datalen - 4) =
        .ok [.wrote child.pid (.raw REQ_KICK ((data.drop 4).take (datalen - 4)))] :=
      sendPacket_of_lt (by omega) (by rw [List.length_drop]; omega)
    have hsuccess : sendMsg asserts sender.pid (CString.ofChars "Success.\n".toList) = .ok _ :=
      sendPacket_of_lt (by decide) (Nat.le_refl _)
    rw [ChildHandler.events, reqKickClient, if_pos ⟨hlen, hnumber⟩, hkick, hsuccess]
    exact List.mem_cons_self

/-- **A child that is kicked is written so.** -/
theorem kick_mem_calls {asserts : Bool} {d : Dispatch σ} {data : List UInt8} {datalen : ℕ}
    {sender : ChildData} (hm : d.server.master.Numbered asserts) (hshort : datalen < MSG_MAX)
    (hdata : datalen ≤ data.length) {cmd : UInt8} {pid : UInt32}
    (hkicks : Kicks cmd (data.take datalen) sender.pid pid) (hthere : (d.server.master.child asserts pid).isSome)
    {req : ChildRequest} (hreq : req ∈ requests) (hcode : req.code = cmd) :
    ∃ bytes, .wrote pid (.raw REQ_KICK bytes) ∈ req.calls asserts d data datalen sender := by
  have hlength : (data.take datalen).length = datalen := List.length_take_of_le hdata
  have hentry : ∀ req ∈ requests,
      (req.code = REQ_KICK → req.handleChild = some .kickClient ∧ req.which = .childAll) ∧
        (req.code = REQ_KICKALL → req.handleChild = some .kickAlways ∧ req.which = .childAllButSender) := by
    decide
  -- the node of a child that is not the sender
  have hnode : pid ≠ sender.pid → ∃ node ∈ otherNodes d.server.master.childMap.nodes sender.pid,
      node.data.pid = pid := by
    intro hpid
    have hmem : pid ∈ (otherNodes d.server.master.childMap.nodes sender.pid).map fun node => node.data.pid := by
      rw [map_otherNodes, List.mem_filter, hm.mem_pids_iff]
      exact ⟨hthere, by simpa using hpid⟩
    exact List.mem_map.mp hmem
  rcases hkicks with ⟨hcmd, hlen, hnumber⟩ | ⟨hcmd, hpid⟩
  · obtain ⟨hhandler, hwhich⟩ := (hentry req hreq).1 (hcode.trans hcmd)
    rw [hlength] at hlen
    have hnumber' : numberAt 0 4 data = pid.toNat := by
      have hsplit : numberAt 0 4 (data.take datalen ++ data.drop datalen) = numberAt 0 4 (data.take datalen) :=
        numberAt_append (by omega)
      rw [← hnumber, ← hsplit, List.take_append_drop]
    rw [ChildRequest.calls, hhandler, hwhich]
    by_cases hpid : pid = sender.pid
    · subst hpid
      obtain ⟨bytes, hmem⟩ := kick_mem_record asserts d sender sender hshort hdata (Or.inr ⟨rfl, hlen, hnumber'⟩)
      exact ⟨bytes, List.mem_append_left _ hmem⟩
    · obtain ⟨node, hmem, rfl⟩ := hnode hpid
      obtain ⟨bytes, hkick⟩ :=
        kick_mem_record asserts d sender node.data hshort hdata (Or.inr ⟨rfl, hlen, hnumber'⟩)
      exact ⟨bytes, List.mem_append_right _ (List.mem_flatMap.mpr ⟨node, hmem, hkick⟩)⟩
  · obtain ⟨hhandler, hwhich⟩ := (hentry req hreq).2 (hcode.trans hcmd)
    obtain ⟨node, hmem, rfl⟩ := hnode hpid
    obtain ⟨bytes, hkick⟩ := kick_mem_record asserts d sender node.data hshort hdata (Or.inl rfl)
    rw [ChildRequest.calls, hhandler, hwhich]
    exact ⟨bytes, List.mem_flatMap.mpr ⟨node, hmem, hkick⟩⟩

/-- **Only a child that is kicked is written so** in the calls of `handle_child`. -/
theorem kicks_of_calls {asserts : Bool} {d : Dispatch σ} {data : List UInt8} {datalen : ℕ} {sender : ChildData}
    (hdata : datalen ≤ data.length) {req : ChildRequest} (hreq : req ∈ requests) {pid : UInt32} {w : Written}
    (hw : .wrote pid w ∈ req.calls asserts d data datalen sender) (hcode : w.code = REQ_KICK) :
    Kicks req.code (data.take datalen) sender.pid pid := by
  obtain ⟨handler, child, events, hhandler, hevents, hmem, hne⟩ := mem_calls hw
  obtain ⟨rfl, hkicking⟩ := kicks_of_events hevents hmem hcode
  have hentry : ∀ req ∈ requests,
      (req.handleChild = some .kickClient → req.code = REQ_KICK) ∧
        (req.handleChild = some .kickAlways → req.code = REQ_KICKALL ∧ req.which = .childAllButSender) := by
    decide
  rcases hkicking with rfl | ⟨rfl, hlen, hnumber⟩
  · obtain ⟨hkick, hwhich⟩ := (hentry req hreq).2 hhandler
    exact Or.inr ⟨hkick, fun heq => hne heq hwhich⟩
  · have hsplit : numberAt 0 4 (data.take datalen ++ data.drop datalen) = numberAt 0 4 (data.take datalen) :=
      numberAt_append (by rw [List.length_take_of_le hdata]; omega)
    refine Or.inl ⟨(hentry req hreq).1 hhandler, by rw [List.length_take_of_le hdata]; exact hlen, ?_⟩
    rw [← hsplit, List.take_append_drop, hnumber]

/-- What a child is written while a request is handled: a message and its end, if the request is one, and
otherwise, if it is the request of another, kicks.  Of its own request it is written the end, and it is written a
kick if it is meant. -/
structure Shared (env : ClientEnv σ) (pid sender : UInt32) (cmd : UInt8) (data : List UInt8)
    (log : List Event) : Prop where
  message : cmd = REQ_BCASTMSG →
    log.filterMap (Event.writtenTo pid) = [.raw REQ_BCASTMSG data, .raw REQ_ALLDONE []]
  kicks : cmd ≠ REQ_BCASTMSG → pid ≠ sender → ∀ w, .wrote pid w ∈ log → w.code = REQ_KICK
  done : pid = sender → allDone pid ∈ log
  kicked : Kicks cmd data sender pid → ∃ bytes, .wrote pid (.raw REQ_KICK bytes) ∈ log
  spared : NeverKicks env → ¬ Kicks cmd data sender pid → ∀ w, .wrote pid w ∈ log → w.code ≠ REQ_KICK

/-- **A request of a child** that is there, and what another child is written, or the same. -/
theorem shared_answerRequest (env : ClientEnv σ) {d : Dispatch σ} {cmd : UInt8} {data : List UInt8}
    {datalen : ℕ} {sender : ChildData} (hd : d.server.master.Sound env.asserts)
    (hsender : d.server.master.child env.asserts sender.pid = some sender) (hshort : datalen < MSG_MAX)
    (hdata : datalen ≤ data.length) {pid : UInt32} (hthere : (d.server.master.child env.asserts pid).isSome)
    {h : Handling σ} (hok : Dispatch.answerRequest env cmd data datalen sender ⟨[], d⟩ = .ok h) :
    Shared env pid sender.pid cmd (data.take datalen) h.log := by
  cases hcmd : requests.find? fun req => req.code = cmd with
  | none =>
    obtain rfl := Except.ok.inj ((answerRequest_of_none hcmd).symm.trans hok)
    have hunknown : ∀ code, (requests.find? fun req => req.code = code).isSome → cmd ≠ code := by
      rintro code hsome rfl
      rw [hcmd] at hsome
      exact absurd hsome (by simp)
    refine ⟨fun hmsg => absurd hmsg (hunknown _ (by decide)), fun _ hpid w hw => ?_,
      fun hpid => hpid ▸ List.mem_singleton_self _, fun hkicks => ?_, fun _ _ w hw => ?_⟩
    · exact absurd (Event.wrote.inj (List.mem_singleton.mp hw)).1 hpid
    · rcases hkicks with ⟨hkick, -⟩ | ⟨hkick, -⟩
      · exact absurd hkick (hunknown _ (by decide))
      · exact absurd hkick (hunknown _ (by decide))
    · rw [(Event.wrote.inj (List.mem_singleton.mp hw)).2]
      exact (by decide : REQ_ALLDONE ≠ REQ_KICK)
  | some req =>
    have hreq := List.mem_of_find?_eq_some hcmd
    have hcode : req.code = cmd := by simpa using List.find?_some hcmd
    obtain ⟨s₁, s₂, h₁, h₂, rfl⟩ := (answerRequest_of_some hcmd).mp hok
    obtain ⟨-, hlog, -, -⟩ := (handleChildren_spec hd.numbered hsender hshort hdata hreq).1 s₁ h₁
    refine ⟨fun hmsg => ?_, fun hne hpid w hw => ?_,
      fun hpid => hpid ▸ List.mem_append_right _ (List.mem_singleton_self _), fun hkicks => ?_,
      fun hquiet hspared w hw hkick => ?_⟩
    · obtain ⟨hhandler, hwhich, hnone⟩ := entry_bcastMsg hreq (hcode.trans hmsg)
      rw [hnone] at h₂
      obtain rfl := Except.ok.inj h₂
      show (s₁.log ++ [allDone sender.pid]).filterMap (Event.writtenTo pid) = _
      rw [hlog, List.filterMap_append]
      by_cases hpid : pid = sender.pid
      · rw [hpid, calls_passMsg_sender hshort hdata hhandler hwhich]
        simp [Event.writtenTo, allDone]
      · rw [calls_passMsg hd.numbered hshort hdata hhandler hwhich hthere hpid]
        simp [Event.writtenTo, allDone, Ne.symm hpid]
    · have hpass : req.handleChild ≠ some .passMsg := by
        have hall : ∀ req ∈ requests, req.handleChild = some .passMsg → req.code = REQ_BCASTMSG := by
          decide
        exact fun hh => hne (hcode.symm.trans (hall req hreq hh))
      rcases List.mem_append.mp hw with hw | hw
      · have hcalls := (finalize_writes h₂ hw).resolve_right fun h => hpid h.1
        rw [hlog] at hcalls
        exact code_of_calls hpass hpid hcalls
      · exact absurd (Event.wrote.inj (List.mem_singleton.mp hw)).1 hpid
    · obtain ⟨bytes, hmem⟩ := kick_mem_calls hd.numbered hshort hdata hkicks hthere hreq hcode
      obtain ⟨final, hfinal, -⟩ := not_tellsDone_finalize h₂
      refine ⟨bytes, List.mem_append_left _ ?_⟩
      rw [hfinal, hlog]
      exact List.mem_append_left _ hmem
    · rcases List.mem_append.mp hw with hw | hw
      · rcases finalize_writes h₂ hw with hcalls | ⟨-, hcode'⟩
        · rw [hlog] at hcalls
          exact hspared (hcode ▸ kicks_of_calls hdata hreq hcalls hkick)
        · exact hcode' hquiet hkick
      · rw [(Event.wrote.inj (List.mem_singleton.mp hw)).2] at hkick
        exact absurd hkick (by decide : REQ_ALLDONE ≠ REQ_KICK)

/-- A packet of a child is its request. -/
theorem handleChildReq_received (env : ClientEnv σ) {d : Dispatch σ} {buf : PacketBuf} (r : Sent)
    {pid : UInt32} {sender : ChildData} (hsender : d.server.master.child env.asserts pid = some sender) :
    Dispatch.handleChildReq env d buf (r.received pid) =
      (Dispatch.answerRequest { env with pid := sender.pid } r.cmd
        (r.data ++ buf.bytes.drop (packetOf pid r.cmd r.data).length) r.data.length sender ⟨[], d⟩).map
        fun s => (true, s) := by
  have hlen : (r.received pid).len = r.data.length + 5 := length_packetOf ..
  have hpacket : buf.after (r.received pid) = packetOf pid r.cmd r.data ++
      buf.bytes.drop (packetOf pid r.cmd r.data).length := rfl
  have hnumber : UInt32.ofNat (numberAt 0 4 (buf.after (r.received pid))) = pid := by
    rw [hpacket, numberAt_append (by rw [length_packetOf]; omega), numberAt_packetOf]
  have hhead : (littleEndian 4 pid.toNat).length = 4 := length_littleEndian ..
  have hcmd : (buf.after (r.received pid)).getD 4 0 = r.cmd := by
    rw [hpacket, packetOf, List.append_assoc, List.getD_eq_getElem?_getD,
      List.getElem?_append_right hhead.le, hhead]
    rfl
  have hdrop : (buf.after (r.received pid)).drop 5 =
      r.data ++ buf.bytes.drop (packetOf pid r.cmd r.data).length := by
    rw [hpacket, packetOf, List.append_assoc, List.drop_append, hhead,
      List.drop_of_length_le (by rw [hhead]; omega)]
    rfl
  rw [Dispatch.handleChildReq, if_neg (by rw [hlen]; omega)]
  dsimp only
  rw [hnumber, hcmd, hdrop, hlen, hsender, Nat.add_sub_cancel]

/-- **A request from the pipe of a child**, and what the children are written. -/
theorem shared_handleChildReq {d : Dispatch σ} {buf : PacketBuf} {r : Sent} {pid : UInt32}
    (hd : d.server.master.Sound env.asserts) {sender : ChildData}
    (hsender : d.server.master.child env.asserts pid = some sender) {b : Bool} {h : Handling σ}
    (hok : Dispatch.handleChildReq env d buf (r.received pid) = .ok (b, h)) {q : UInt32}
    (hq : (d.server.master.child env.asserts q).isSome) : Shared env q pid r.cmd r.data h.log := by
  rw [handleChildReq_received env r hsender] at hok
  obtain ⟨h', hanswer, heq⟩ := map_eq_ok hok
  obtain ⟨-, rfl⟩ := Prod.mk.inj heq
  obtain rfl : sender.pid = pid := hd.numbered.pid_eq _ _ hsender
  have hshared := shared_answerRequest { env with pid := sender.pid } hd hsender
    (by have := r.short; omega) (by rw [List.length_append]; omega) hq hanswer
  rw [List.take_left] at hshared
  exact ⟨hshared.message, hshared.kicks, hshared.done, hshared.kicked, hshared.spared⟩

/-- A packet of somebody who is not a child is left. -/
theorem handleChildReq_absent {d : Dispatch σ} {buf : PacketBuf} {r : Sent} {pid : UInt32}
    (hnone : d.server.master.child env.asserts pid = none) {b : Bool} {h : Handling σ}
    (hok : Dispatch.handleChildReq env d buf (r.received pid) = .ok (b, h)) : h = ⟨[], d⟩ := by
  have hlen : (r.received pid).len = r.data.length + 5 := length_packetOf ..
  have hnumber : UInt32.ofNat (numberAt 0 4 (buf.after (r.received pid))) = pid := by
    show UInt32.ofNat (numberAt 0 4 (packetOf pid r.cmd r.data ++ _)) = pid
    rw [numberAt_append (by rw [length_packetOf]; omega), numberAt_packetOf]
  rw [Dispatch.handleChildReq, if_neg (by rw [hlen]; omega)] at hok
  dsimp only at hok
  rw [hnumber, hnone] at hok
  exact (Prod.mk.inj (Except.ok.inj hok)).2.symm

/-! ## One client -/

namespace Peer

/-- A request that is sent, or not. -/
theorem send_cases (p : Peer) (cmd : UInt8) (data : List UInt8) (short : data.length + 5 ≤ MSG_MAX) :
    p.send cmd data short = p ∨ p.mode = .reading ∧
      p.send cmd data short =
        { p with
          mode := .waiting p.sent
          sent := p.sent + 1
          requests := p.requests ++ [⟨p.sent, cmd, data, short⟩] } := by
  unfold Peer.send
  split
  · rename_i hmode
    exact Or.inr ⟨hmode, rfl⟩
  all_goals exact Or.inl rfl

/-- What is written to a client is delivered. -/
theorem mem_delivered_of_wrote {pid : UInt32} (ticket : Ticket) {log : List Event} {w : Written}
    (h : .wrote pid w ∈ log) : ⟨ticket, w⟩ ∈ (log.filterMap (Event.writtenTo pid)).map (Reply.mk ticket) :=
  List.mem_map.mpr ⟨w, List.mem_filterMap.mpr ⟨_, h, by simp [Event.writtenTo]⟩, rfl⟩

/-- A client reads the next packet, unless it has exited. -/
theorem poll_of_ne {p : Peer} (hmode : p.mode ≠ .exited) {u : Reply} {rest : List Reply}
    (hunread : p.unread = u :: rest) :
    p.poll = { p with mode := receive p.mode u.packet, read := p.read + 1 } := by
  rw [Peer.poll]
  cases hp : p.mode with
  | exited => exact absurd hp hmode
  | reading | polling | waiting n => simp [hunread]

/-- What reading leaves as it is. -/
theorem poll_pipes (p : Peer) :
    p.poll.written = p.written ∧ p.poll.requests = p.requests ∧ p.poll.sent = p.sent := by
  rcases poll_cases p with h | ⟨u, rest, -, h⟩
  · rw [h]
    exact ⟨rfl, rfl, rfl⟩
  · rw [h]
    exact ⟨rfl, rfl, rfl⟩

end Peer

/-- The client takes a packet in this step. -/
def Op.polls (pid : UInt32) : Op → Bool
  | .poll q => q == pid
  | .connect _ _ | .disconnect _ | .send _ _ _ _ | .handle _ => false

theorem polls_of_ne {pid : UInt32} {op : Op} (h : op ≠ .poll pid) : Op.polls pid op = false := by
  cases op with
  | poll q => simpa [Op.polls] using fun heq : q = pid => h (heq ▸ rfl)
  | _ => rfl

/-! ## One step -/

namespace System

variable {s s' : System σ}

/-- The child is in the table. -/
def Listed (env : ClientEnv σ) (s : System σ) (pid : UInt32) : Prop :=
  (s.dispatch.server.master.child env.asserts pid).isSome

/-- A child that is there, and whose process does not end in these steps. -/
def Attends (env : ClientEnv σ) (s : System σ) (ops : List Op) (pid : UInt32) : Prop :=
  s.Listed env pid ∧ Op.disconnect pid ∉ ops

/-- **What a step does to a client.** -/
inductive PeerStep (env : ClientEnv σ) (s : System σ) (pid : UInt32) : Op → Peer → Prop
  /-- Nothing, or nothing to this client. -/
  | idle {op : Op} (hpoll : op ≠ .poll pid) (hhandle : ∀ sender, op = .handle sender → (s.peers sender).requests = [])
      (hdisconnect : op = .disconnect pid → ¬ s.Listed env pid) :
      PeerStep env s pid op (s.peers pid)
  | start {addr : CString} (h : ¬ s.Listed env pid) : PeerStep env s pid (.connect pid addr) .fresh
  | exit : PeerStep env s pid (.disconnect pid) { s.peers pid with mode := .exited }
  | send (cmd : UInt8) (data : List UInt8) (short : data.length + 5 ≤ MSG_MAX) :
      PeerStep env s pid (.send pid cmd data short) ((s.peers pid).send cmd data short)
  | poll : PeerStep env s pid (.poll pid) (s.peers pid).poll
  /-- A request is handled, of this client or of another, and if its sender is no child nothing is written. -/
  | handle {sender : UInt32} {r : Sent} {requests : List Sent} {log : List Event}
      (hr : (s.peers sender).requests.head? = some r)
      (hown : sender = pid → (s.peers pid).requests = r :: requests)
      (hother : sender ≠ pid → requests = (s.peers pid).requests)
      (habsent : ¬ s.Listed env sender → log = [])
      (hshared : s.Listed env sender → s.Listed env pid → Shared env pid sender r.cmd r.data log) :
      PeerStep env s pid (.handle sender)
        (({ s.peers pid with requests } : Peer).deliver pid ⟨sender, r.number⟩ log)

/-- **What a step does.**  The master stays sound, no child is lost but by its end, and one that is connected
is there. -/
structure Stepped (env : ClientEnv σ) (s : System σ) (op : Op) (s' : System σ) : Prop where
  sound : s'.dispatch.server.master.Sound env.asserts
  kept : ∀ pid, op ≠ .disconnect pid → s.Listed env pid → s'.Listed env pid
  started : ∀ pid addr, op = .connect pid addr → s'.Listed env pid
  peers : ∀ pid, PeerStep env s pid op (s'.peers pid)

theorem stepped_connect (hsound : s.dispatch.server.master.Sound env.asserts) {pid : UInt32} {addr : CString}
    (hs : s.connect env pid addr = .ok s') : Stepped env s (.connect pid addr) s' := by
  have hidle : ∀ q, PeerStep env s q (.connect pid addr) (s.peers q) := fun q =>
    .idle (by simp) (by simp) (by simp)
  unfold System.connect at hs
  split at hs
  · rename_i c hchild
    obtain rfl := Except.ok.inj hs
    refine ⟨hsound, fun _ _ hq => hq, fun q a heq => ?_, hidle⟩
    obtain ⟨rfl, -⟩ := Op.connect.inj heq
    exact Option.isSome_iff_exists.mpr ⟨c, hchild⟩
  · rename_i hnone
    obtain ⟨master, hmaster, hs⟩ := bind_eq_ok hs
    obtain rfl := Except.ok.inj hs
    have hstep : serverStep env.asserts s.dispatch.server.master (.connect pid) = .ok master := hmaster
    have hchild := hsound.child_of_connect hnone hstep
    refine ⟨hsound.step hstep, fun q _ hq => ?_, fun q a heq => ?_, fun q => ?_⟩
    · show (master.child env.asserts q).isSome
      rw [hchild]
      by_cases hpid : q = pid
      · rw [hpid, Function.update_self]
        rfl
      · rwa [Function.update_of_ne hpid]
    · obtain ⟨rfl, -⟩ := Op.connect.inj heq
      show (master.child env.asserts pid).isSome
      rw [hchild, Function.update_self]
      rfl
    · show PeerStep env s q _ (Function.update s.peers pid .fresh q)
      by_cases hpid : q = pid
      · subst hpid
        rw [Function.update_self]
        exact .start fun hlisted => by simp [Listed, hnone] at hlisted
      · rw [Function.update_of_ne hpid]
        exact hidle q

theorem stepped_disconnect (hsound : s.dispatch.server.master.Sound env.asserts) {pid : UInt32}
    (hs : s.disconnect env pid = .ok s') : Stepped env s (.disconnect pid) s' := by
  unfold System.disconnect at hs
  split at hs
  · rename_i hnone
    obtain rfl := Except.ok.inj hs
    refine ⟨hsound, fun _ _ hq => hq, by simp, fun q => .idle (by simp) (by simp) fun heq => ?_⟩
    obtain rfl := Op.disconnect.inj heq
    exact fun hlisted => by simp [Listed, hnone] at hlisted
  · obtain ⟨master, hmaster, hs⟩ := bind_eq_ok hs
    obtain rfl := Except.ok.inj hs
    have hstep : serverStep env.asserts s.dispatch.server.master (.disconnect pid) = .ok master := hmaster
    refine ⟨hsound.step hstep, fun q hne hq => ?_, by simp, fun q => ?_⟩
    · show (master.child env.asserts q).isSome
      have hpid : q ≠ pid := by
        rintro rfl
        exact hne rfl
      rwa [hsound.child_of_disconnect hstep, Function.update_of_ne hpid]
    · show PeerStep env s q _ (Function.update s.peers pid _ q)
      by_cases hpid : q = pid
      · subst hpid
        rw [Function.update_self]
        exact .exit
      · rw [Function.update_of_ne hpid]
        exact .idle (by simp) (by simp) fun heq => absurd (Op.disconnect.inj heq).symm hpid

theorem stepped_handle (hsound : s.dispatch.server.master.Sound env.asserts) {pid : UInt32}
    (hs : s.handle env pid = .ok s') : Stepped env s (.handle pid) s' := by
  unfold System.handle at hs
  split at hs
  · rename_i hnil
    obtain rfl := Except.ok.inj hs
    refine ⟨hsound, fun _ _ hq => hq, by simp, fun q => .idle (by simp) (fun sender heq => ?_) (by simp)⟩
    obtain rfl := Op.handle.inj heq
    exact hnil
  · rename_i r rest hr
    obtain ⟨⟨b, hd⟩, hhandled, hs⟩ := bind_eq_ok hs
    obtain rfl := Except.ok.inj hs
    obtain ⟨hsound', hlisted, -, -⟩ := answered_handleChildReq hsound hhandled
    have habsent : ¬ s.Listed env pid → hd.log = [] := fun h =>
      congrArg Handling.log (handleChildReq_absent (Option.not_isSome_iff_eq_none.mp h) hhandled)
    have hshared : ∀ q, s.Listed env pid → s.Listed env q → Shared env q pid r.cmd r.data hd.log := by
      intro q hthere hq
      obtain ⟨sender, hsender⟩ := Option.isSome_iff_exists.mp hthere
      exact shared_handleChildReq hsound hsender hhandled hq
    refine ⟨hsound', fun q _ hq => hlisted q hq, by simp, fun q => ?_⟩
    show PeerStep env s q _ ((Function.update s.peers pid _ q).deliver q _ hd.log)
    by_cases hpid : pid = q
    · subst hpid
      rw [Function.update_self]
      exact .handle (by rw [hr]; rfl) (fun _ => hr) (fun hne => absurd rfl hne) habsent (hshared pid)
    · rw [Function.update_of_ne (Ne.symm hpid)]
      exact .handle (by rw [hr]; rfl) (fun heq => absurd heq hpid) (fun _ => rfl) habsent (hshared q)

theorem stepped_step (hsound : s.dispatch.server.master.Sound env.asserts) {op : Op}
    (hs : s.step env op = .ok s') : Stepped env s op s' := by
  -- a step of a client alone
  have hclient : ∀ (pid : UInt32) (p : Peer), PeerStep env s pid op p →
      (∀ q ≠ pid, PeerStep env s q op (s.peers q)) → (∀ q addr, op ≠ .connect q addr) →
      Stepped env s op { s with peers := Function.update s.peers pid p } := by
    intro pid p hp hothers hconnect
    refine ⟨hsound, fun _ _ hq => hq, fun q addr heq => absurd heq (hconnect q addr), fun q => ?_⟩
    show PeerStep env s q op (Function.update s.peers pid p q)
    by_cases hpid : q = pid
    · subst hpid
      rwa [Function.update_self]
    · rw [Function.update_of_ne hpid]
      exact hothers q hpid
  cases op with
  | connect pid addr => exact stepped_connect hsound hs
  | disconnect pid => exact stepped_disconnect hsound hs
  | send pid cmd data short =>
    obtain rfl := Except.ok.inj hs
    exact hclient pid _ (.send cmd data short) (fun q _ => .idle (by simp) (by simp) (by simp)) (by simp)
  | poll pid =>
    obtain rfl := Except.ok.inj hs
    exact hclient pid _ .poll
      (fun q hq => .idle (fun heq => hq (Op.poll.inj heq).symm) (by simp) (by simp)) (by simp)
  | handle pid => exact stepped_handle hsound hs

/-- The master is sound, and every process is a child of it. -/
structure Manned (env : ClientEnv σ) (s : System σ) : Prop where
  sound : s.dispatch.server.master.Sound env.asserts
  listed : ∀ pid, (s.peers pid).mode ≠ .exited → s.Listed env pid

theorem manned_start (env : ClientEnv σ) (rooms : List RoomSetup) (users : CString → Option UserData)
    (world : σ) : (start rooms users world).Manned env :=
  ⟨Master.sound_init env.asserts rooms, fun _ h => absurd rfl h⟩

/-- **One step.** -/
theorem Manned.step (h : s.Manned env) {op : Op} (hs : s.step env op = .ok s') : s'.Manned env := by
  obtain ⟨hsound, hkept, hstarted, hpeers⟩ := stepped_step h.sound hs
  refine ⟨hsound, fun pid hmode => ?_⟩
  have hpeer := hpeers pid
  generalize s'.peers pid = p' at hpeer hmode
  cases hpeer with
  | idle _ _ hdisconnect =>
    have hlisted := h.listed pid hmode
    exact hkept pid (fun heq => hdisconnect heq hlisted) hlisted
  | start _ => exact hstarted pid _ rfl
  | exit => exact absurd rfl hmode
  | send cmd data short =>
    refine hkept pid (by simp) (h.listed pid fun hexited => hmode ?_)
    rw [Peer.send, hexited]
    exact hexited
  | poll =>
    refine hkept pid (by simp) (h.listed pid fun hexited => hmode ?_)
    rw [Peer.poll, hexited]
    exact hexited
  | handle => exact hkept pid (by simp) (h.listed pid hmode)

end System

/-- The message `a`, which is said in the samples, fits into a packet. -/
theorem short_letter : ([97] : List UInt8).length + 5 ≤ MSG_MAX := by decide

end Replies

end NetCosm
