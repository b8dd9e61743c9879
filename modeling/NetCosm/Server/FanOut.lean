import NetCosm.Client.Identity
import NetCosm.Server.Dispatch

/-!
# Whom a request goes to, and who is told that it is done

`handle_child_req` has to call `handle_child` once for every child the entry of the table
designates, `finalize` at most once, and then to write `REQ_ALLDONE` to the sender once.  A
child that is passed over misses a message, and a sender that is not told waits for ever.

## 1.  What one call writes

`events_writes`: a `handle_child` calls nothing, and writes `REQ_ALLDONE` to no sender.
`req_pass_msg` does write it, to the others.  `events_isOk` says when it returns: always, but for
`req_send_clientinfo`, which looks the state of a child up in an array.

## 2.  What the loop does

The loop is a fold over the nodes of the table (`hashForEach_eq`), and the functions it calls
change nothing but the log (`foldlM_callHandleChild`).  No two nodes have one pid, so every child
but the sender is called for once.

## 3.  The whole request

`answeredPacket_iff` says for which requests all of this holds: the table of children has fewer
than `2 ^ 32` buckets, if the loop is entered; the states of all children are states, if they are
listed; and the finalizer returns.  `Server/Answers` says when it does.
-/

namespace NetCosm

variable {σ : Type} {asserts : Bool}

/-! ## The table of requests -/

/-- Every code is looked up to its entry, if it has one. -/
theorem lookupRequest_eq (asserts : Bool) (cmd : UInt8) :
    lookupRequest asserts cmd = .ok (requests.find? fun req => req.code = cmd) := by
  have hall : ∀ b : Bool, ∀ n < 256, (lookupRequest b (UInt8.ofNat n)).toOption =
      some (requests.find? fun req => req.code = UInt8.ofNat n) := by decide +kernel
  have hcmd := hall asserts cmd.toNat cmd.toNat_lt
  rw [UInt8.ofNat_toNat] at hcmd
  cases h : lookupRequest asserts cmd with
  | error e =>
    rw [h] at hcmd
    exact absurd hcmd (by simp [Except.toOption])
  | ok r =>
    rw [h] at hcmd
    exact congrArg Except.ok (Option.some.inj hcmd)

/-- The handler of a request for others changes nothing, and is there. -/
theorem handleChild_of_others {req : ChildRequest} (h : req ∈ requests)
    (hwhich : req.which = .childAll ∨ req.which = .childAllButSender) :
    ∃ handler, req.handleChild = some handler ∧ handler ≠ .changeState ∧ handler ≠ .changeUser := by
  have hall : ∀ req ∈ requests, (req.which = .childAll ∨ req.which = .childAllButSender) →
      req.handleChild = some .passMsg ∨ req.handleChild = some .kickClient ∨
        req.handleChild = some .kickAlways ∨ req.handleChild = some .sendClientinfo := by decide
  rcases hall req h hwhich with h | h | h | h <;> exact ⟨_, h, by decide, by decide⟩

/-- The handler of a request for the sender is there, and there is nothing else to do. -/
theorem handleChild_of_childSender {req : ChildRequest} (h : req ∈ requests)
    (hwhich : req.which = .childSender) :
    (req.handleChild = some .changeState ∨ req.handleChild = some .changeUser) ∧
      req.finalize = none := by
  have hall : ∀ req ∈ requests, req.which = .childSender →
      (req.handleChild = some .changeState ∨ req.handleChild = some .changeUser) ∧
        req.finalize = none := by decide
  exact hall req h hwhich

/-- The handler of a request for all but the sender kicks. -/
theorem handleChild_of_childAllButSender {req : ChildRequest} (h : req ∈ requests)
    (hwhich : req.which = .childAllButSender) : req.handleChild = some .kickAlways := by
  have hall : ∀ req ∈ requests, req.which = .childAllButSender →
      req.handleChild = some .kickAlways := by decide
  exact hall req h hwhich

/-- A request for nobody has no handler. -/
theorem handleChild_of_childNone {req : ChildRequest} (h : req ∈ requests)
    (hwhich : req.which = .childNone) : req.handleChild = none := by
  have hall : ∀ req ∈ requests, req.which = .childNone → req.handleChild = none := by decide
  exact hall req h hwhich

/-- The entry of `REQ_BCASTMSG`. -/
theorem entry_bcastMsg {req : ChildRequest} (h : req ∈ requests) (hcode : req.code = REQ_BCASTMSG) :
    req.handleChild = some .passMsg ∧ req.which = .childAll ∧ req.finalize = none := by
  have hall : ∀ req ∈ requests, req.code = REQ_BCASTMSG →
      req.handleChild = some .passMsg ∧ req.which = .childAll ∧ req.finalize = none := by decide
  exact hall req h hcode

/-! ## What one call writes -/

/-- `REQ_ALLDONE`, written to a child. -/
def allDone (pid : UInt32) : Event := .wrote pid (.raw REQ_ALLDONE [])

/-- A packet tells that all is done. -/
def Written.TellsDone : Written → Prop
  | .raw cmd _ => cmd = REQ_ALLDONE
  | .answer p => p = .allDone

/-- A child is told that all is done. -/
def Event.TellsDone (pid : UInt32) : Event → Prop
  | .wrote child w => child = pid ∧ w.TellsDone
  | .handled _ | .finalized => False

/-- Nothing but packets is recorded, and none of them tells the sender that all is done. -/
def WritesOnly (sender : UInt32) (events : List Event) : Prop :=
  ∀ e ∈ events, ∃ pid w, e = .wrote pid w ∧ ¬ e.TellsDone sender

theorem WritesOnly.append {sender : UInt32} {as bs : List Event} (ha : WritesOnly sender as)
    (hb : WritesOnly sender bs) : WritesOnly sender (as ++ bs) := by
  intro e he
  rcases List.mem_append.mp he with h | h
  · exact ha e h
  · exact hb e h

theorem writesOnly_nil (sender : UInt32) : WritesOnly sender [] := fun _ h => absurd h List.not_mem_nil

/-- What `send_packet` writes. -/
theorem mem_sendPacket {child : UInt32} {cmd : UInt8} {data : List UInt8} {datalen : ℕ}
    {events : List Event} (h : sendPacket asserts child cmd data datalen = .ok events) {e : Event}
    (he : e ∈ events) : ∃ piece, e = .wrote child (.raw cmd piece) := by
  unfold sendPacket at h
  split at h
  · exact absurd h (by simp)
  split at h
  · exact absurd h (by simp)
  split at h
  · obtain rfl := Except.ok.inj h
    obtain ⟨piece, -, rfl⟩ := List.mem_map.mp he
    exact ⟨piece, rfl⟩
  split at h
  · exact absurd h (by simp)
  · obtain rfl := Except.ok.inj h
    exact ⟨_, List.mem_singleton.mp he⟩

/-- A packet that fits is written as it is. -/
theorem sendPacket_of_lt {child : UInt32} {cmd : UInt8} {data : List UInt8} {datalen : ℕ}
    (hshort : datalen < MSG_MAX) (hdata : datalen ≤ data.length) :
    sendPacket asserts child cmd data datalen =
      .ok [.wrote child (.raw cmd (data.take datalen))] := by
  have hfits : ¬ MSG_MAX < datalen + 1 := Nat.not_lt_of_le hshort
  rw [sendPacket, if_neg (by simp [hshort]), if_neg (Nat.not_lt_of_le hdata),
    if_neg fun h => hfits h.2, if_neg hfits]

theorem writesOnly_sendPacket {sender child : UInt32} {cmd : UInt8} {data : List UInt8}
    {datalen : ℕ} {events : List Event} (hcmd : cmd ≠ REQ_ALLDONE ∨ child ≠ sender)
    (h : sendPacket asserts child cmd data datalen = .ok events) : WritesOnly sender events := by
  intro e he
  obtain ⟨piece, rfl⟩ := mem_sendPacket h he
  refine ⟨child, .raw cmd piece, rfl, fun ⟨hchild, hdone⟩ => ?_⟩
  rcases hcmd with h | h
  · exact h hdone
  · exact h hchild

/-- A `handle_child` that does not pass a message on writes, and tells nobody that all is done. -/
theorem events_writes_of_ne {d : Dispatch σ} {data : List UInt8} {datalen : ℕ}
    {sender child : ChildData} {handler : ChildHandler} (hne : handler ≠ .passMsg) (pid : UInt32)
    {events : List Event} (h : handler.events asserts d data datalen sender child = .ok events) :
    WritesOnly pid events := by
  cases handler with
  | passMsg => exact absurd rfl hne
  | changeState =>
    obtain rfl := Except.ok.inj h
    exact writesOnly_nil _
  | changeUser =>
    obtain rfl := Except.ok.inj h
    exact writesOnly_nil _
  | kickClient =>
    rw [ChildHandler.events, reqKickClient] at h
    split at h
    · obtain ⟨kick, hkick, h⟩ := bind_eq_ok h
      obtain ⟨success, hsuccess, h⟩ := bind_eq_ok h
      obtain rfl := Except.ok.inj h
      exact (writesOnly_sendPacket (Or.inl (by decide)) hkick).append
        (writesOnly_sendPacket (Or.inl (by decide)) hsuccess)
    · obtain rfl := Except.ok.inj h
      exact writesOnly_nil _
  | kickAlways => exact writesOnly_sendPacket (Or.inl (by decide)) h
  | sendClientinfo =>
    obtain ⟨name, -, h⟩ := bind_eq_ok h
    exact writesOnly_sendPacket (Or.inl (by decide)) h

/-- **A `handle_child` only writes**, and it does not tell the sender that all is done. -/
theorem events_writes {d : Dispatch σ} {data : List UInt8} {datalen : ℕ}
    {sender child : ChildData} {handler : ChildHandler} {events : List Event}
    (h : handler.events asserts d data datalen sender child = .ok events) :
    WritesOnly sender.pid events := by
  by_cases hpass : handler = .passMsg
  · subst hpass
    obtain ⟨msg, hmsg, h⟩ := bind_eq_ok h
    have hwrites : WritesOnly sender.pid msg := writesOnly_sendPacket (Or.inl (by decide)) hmsg
    split at h
    · rename_i hne
      obtain ⟨done, hdone, h⟩ := bind_eq_ok h
      obtain rfl := Except.ok.inj h
      exact hwrites.append (writesOnly_sendPacket (Or.inr hne) hdone)
    · obtain rfl := Except.ok.inj h
      exact hwrites
  · exact events_writes_of_ne hpass sender.pid h

/-- The states that `req_send_clientinfo` has a name for. -/
def KnownState (state : ℤ) : Prop := 0 ≤ state ∧ state < 6

theorem stateName_isOk_iff {state : ℤ} :
    (∃ name, stateName state = .ok name) ↔ KnownState state := by
  rw [stateName, KnownState]
  by_cases h0 : 0 ≤ state
  · rw [if_pos h0]
    by_cases h6 : state < 6
    · have hlt : state.toNat < stateNames.length := by
        show state.toNat < 6
        omega
      rw [List.getElem?_eq_getElem hlt]
      exact iff_of_true ⟨_, rfl⟩ ⟨h0, h6⟩
    · have hle : stateNames.length ≤ state.toNat := by
        show 6 ≤ state.toNat
        omega
      rw [List.getElem?_eq_none hle]
      exact iff_of_false (by simp) fun h => h6 h.2
  · rw [if_neg h0]
    exact iff_of_false (by simp) fun h => h0 h.1

/-- **When a `handle_child` returns**, given the data of a packet. -/
theorem events_isOk_iff {d : Dispatch σ} {data : List UInt8} {datalen : ℕ}
    {sender child : ChildData} {handler : ChildHandler} (hshort : datalen < MSG_MAX)
    (hdata : datalen ≤ data.length) :
    (∃ events, handler.events asserts d data datalen sender child = .ok events) ↔
      (handler = .sendClientinfo → KnownState (d.state child.pid)) := by
  cases handler with
  | passMsg =>
    refine iff_of_true ?_ (by simp)
    rw [ChildHandler.events, reqPassMsg, sendPacket_of_lt hshort hdata,
      sendPacket_of_lt (by decide) (Nat.zero_le _)]
    by_cases hne : child.pid ≠ sender.pid
    · exact ⟨_, if_pos hne⟩
    · exact ⟨_, if_neg hne⟩
  | changeState => exact iff_of_true ⟨_, rfl⟩ (by simp)
  | changeUser => exact iff_of_true ⟨_, rfl⟩ (by simp)
  | kickClient =>
    refine iff_of_true ?_ (by simp)
    have hkick : datalen - 4 ≤ (data.drop 4).length := by
      rw [List.length_drop]
      omega
    have hsuccess : sendMsg asserts sender.pid (CString.ofChars "Success.\n".toList) = .ok _ :=
      sendPacket_of_lt (by decide) (Nat.le_refl _)
    rw [ChildHandler.events, reqKickClient, hsuccess,
      sendPacket_of_lt (Nat.lt_of_le_of_lt (Nat.sub_le ..) hshort) hkick]
    split
    · exact ⟨_, rfl⟩
    · exact ⟨_, rfl⟩
  | kickAlways =>
    refine iff_of_true ?_ (by simp)
    exact ⟨_, sendPacket_of_lt hshort hdata⟩
  | sendClientinfo =>
    rw [imp_iff_right rfl, ← stateName_isOk_iff]
    constructor
    · rintro ⟨events, h⟩
      obtain ⟨name, hname, -⟩ := bind_eq_ok h
      exact ⟨name, hname⟩
    · rintro ⟨name, hname⟩
      rw [ChildHandler.events, reqSendClientinfo, hname]
      refine ⟨_, sendPacket_of_lt ?_ (Nat.le_refl _)⟩
      exact Nat.lt_of_le_of_lt (List.length_take_le ..) (by decide)

/-! ## What the loop does -/

/-- The child a `handle_child` was called for. -/
def Event.handledPid : Event → Option UInt32
  | .handled pid => some pid
  | .finalized | .wrote _ _ => none

/-- What a call of `handle_child` records. -/
def ChildHandler.record (asserts : Bool) (d : Dispatch σ) (data : List UInt8) (datalen : ℕ)
    (sender : ChildData) (handler : ChildHandler) (child : ChildData) : List Event :=
  .handled child.pid ::
    (handler.events asserts d data datalen sender child).toOption.getD []

theorem change_eq {d : Dispatch σ} {data : List UInt8} {datalen : ℕ} {sender : ChildData}
    {handler : ChildHandler} (hstate : handler ≠ .changeState) (huser : handler ≠ .changeUser) :
    handler.change asserts d data datalen sender = d := by
  cases handler with
  | changeState => exact absurd rfl hstate
  | changeUser => exact absurd rfl huser
  | passMsg | kickClient | kickAlways | sendClientinfo => rfl

/-- One call of a `handle_child`. -/
theorem callHandleChild_eq_ok_iff {handler : ChildHandler} {data : List UInt8} {datalen : ℕ}
    {sender child : ChildData} {s s' : Handling σ} :
    callHandleChild asserts (some handler) data datalen sender child s = .ok s' ↔
      (∃ events, handler.events asserts s.dispatch data datalen sender child = .ok events) ∧
        s' = ⟨s.log ++ handler.record asserts s.dispatch data datalen sender child,
          handler.change asserts s.dispatch data datalen sender⟩ := by
  rw [callHandleChild, ChildHandler.record]
  cases hevents : handler.events asserts s.dispatch data datalen sender child with
  | error e => exact iff_of_false (by simp [bind, Except.bind]) (by simp)
  | ok events =>
    constructor
    · intro h
      exact ⟨⟨events, rfl⟩, (Except.ok.inj h).symm⟩
    · rintro ⟨-, rfl⟩
      rfl

/-- **The loop over the children**, with a `handle_child` that changes nothing. -/
theorem foldlM_callHandleChild {handler : ChildHandler} (hstate : handler ≠ .changeState)
    (huser : handler ≠ .changeUser) {data : List UInt8} {datalen : ℕ} {sender : ChildData}
    {nodes : List (HashNode UInt32 ChildData)} {s s' : Handling σ} :
    nodes.foldlM (fun s node =>
        if node.data.pid = sender.pid then .ok s
        else callHandleChild asserts (some handler) data datalen sender node.data s) s = .ok s' ↔
      (∀ node ∈ nodes, node.data.pid ≠ sender.pid → ∃ events,
        handler.events asserts s.dispatch data datalen sender node.data = .ok events) ∧
      s' = ⟨s.log ++ (nodes.filter fun node => node.data.pid ≠ sender.pid).flatMap fun node =>
        handler.record asserts s.dispatch data datalen sender node.data, s.dispatch⟩ := by
  induction nodes generalizing s with
  | nil =>
    rw [List.foldlM_nil]
    constructor
    · intro h
      obtain rfl := Except.ok.inj h
      exact ⟨by simp, by simp⟩
    · rintro ⟨-, rfl⟩
      simp [pure, Except.pure]
  | cons node nodes ih =>
    rw [List.foldlM_cons, List.forall_mem_cons]
    by_cases hpid : node.data.pid = sender.pid
    · rw [if_pos hpid, List.filter_cons_of_neg (by simpa using hpid)]
      show nodes.foldlM _ s = Except.ok s' ↔ _
      rw [ih, and_iff_right fun hne => absurd hpid hne]
    · rw [if_neg hpid, List.filter_cons_of_pos (by simpa using hpid), List.flatMap_cons,
        imp_iff_right hpid]
      constructor
      · intro h
        obtain ⟨s₁, hcall, hrest⟩ := bind_eq_ok h
        obtain ⟨hok, rfl⟩ := callHandleChild_eq_ok_iff.mp hcall
        rw [change_eq hstate huser] at hrest
        obtain ⟨hall, rfl⟩ := ih.mp hrest
        exact ⟨⟨hok, hall⟩, by rw [List.append_assoc]⟩
      · rintro ⟨⟨hok, hall⟩, rfl⟩
        rw [callHandleChild_eq_ok_iff.mpr ⟨hok, rfl⟩, change_eq hstate huser]
        refine ih.mpr ⟨hall, ?_⟩
        rw [List.append_assoc]

/-! ## Children and their pids -/

/-- The table of children is in order, and every child is under its pid. -/
structure Master.Numbered (asserts : Bool) (m : Master) : Prop where
  placed : m.childMap.WellPlaced (pidEnv asserts)
  pid_eq : ∀ pid c, m.child asserts pid = some c → c.pid = pid

theorem Master.Sound.numbered {m : Master} (h : m.Sound asserts) : m.Numbered asserts :=
  ⟨h.tables.children, h.known.pid_eq⟩

section Children

variable {m : Master}

/-- The children are the data of the nodes. -/
theorem Master.Numbered.mem_nodes_iff (hm : m.Numbered asserts) {pid : UInt32} {c : ChildData} :
    m.child asserts pid = some c ↔ ∃ node ∈ m.childMap.nodes, node.key = pid ∧ node.data = c := by
  rw [Master.child, hashLookup_eq_map, Option.map_eq_some_iff]
  constructor
  · rintro ⟨e, he, rfl⟩
    obtain ⟨node, hnode, hs, rfl⟩ :=
      (hashEntry_eq_some_iff (compatible_pidEnv asserts) hm.placed).mp he
    exact ⟨node, hnode, ((pidEnv_same_iff asserts).mp hs).symm, rfl⟩
  · rintro ⟨node, hnode, rfl, rfl⟩
    exact ⟨_, (hashEntry_eq_some_iff (compatible_pidEnv asserts) hm.placed).mpr
      ⟨node, hnode, (pidEnv_same_iff asserts).mpr rfl, rfl⟩, rfl⟩

/-- The key of a node is the pid of its child. -/
theorem Master.Numbered.key_eq (hm : m.Numbered asserts) {node : HashNode UInt32 ChildData}
    (h : node ∈ m.childMap.nodes) : node.data.pid = node.key :=
  hm.pid_eq _ _ (hm.mem_nodes_iff.mpr ⟨node, h, rfl, rfl⟩)

/-- No two children have one pid. -/
theorem Master.Numbered.nodup_pids (hm : m.Numbered asserts) :
    (m.childMap.nodes.map fun node => node.data.pid).Nodup := by
  refine List.pairwise_map.mpr ?_
  refine (hm.placed.distinct_nodes (compatible_pidEnv asserts)).imp_of_mem ?_
  intro node node' h h' hne heq
  rw [hm.key_eq h, hm.key_eq h'] at heq
  exact hne ((pidEnv_same_iff asserts).mpr heq)

theorem Master.Numbered.mem_pids_iff (hm : m.Numbered asserts) {pid : UInt32} :
    pid ∈ m.childMap.nodes.map (fun node => node.data.pid) ↔ (m.child asserts pid).isSome := by
  rw [List.mem_map, Option.isSome_iff_exists]
  constructor
  · rintro ⟨node, hnode, rfl⟩
    exact ⟨node.data, hm.mem_nodes_iff.mpr ⟨node, hnode, (hm.key_eq hnode).symm, rfl⟩⟩
  · rintro ⟨c, hc⟩
    obtain ⟨node, hnode, -, rfl⟩ := hm.mem_nodes_iff.mp hc
    exact ⟨node, hnode, hm.pid_eq _ _ hc⟩

end Children

/-- The children a request is handled for, in order. -/
def Which.pids (nodes : List (HashNode UInt32 ChildData)) (sender : UInt32) : Which → List UInt32
  | .childNone => []
  | .childSender => [sender]
  | .childAllButSender => (nodes.map fun node => node.data.pid).filter fun pid => pid ≠ sender
  | .childAll => sender :: (nodes.map fun node => node.data.pid).filter fun pid => pid ≠ sender

/-- What is recorded while `handle_child` is called for these children. -/
structure CallsFor (sender : UInt32) (pids : List UInt32) (calls : List Event) : Prop where
  handled : calls.filterMap Event.handledPid = pids
  not_finalized : .finalized ∉ calls
  not_done : ∀ e ∈ calls, ¬ e.TellsDone sender

theorem callsFor_nil (sender : UInt32) : CallsFor sender [] [] :=
  ⟨rfl, List.not_mem_nil, fun _ h => absurd h List.not_mem_nil⟩

theorem CallsFor.append {sender : UInt32} {ps qs : List UInt32} {as bs : List Event}
    (ha : CallsFor sender ps as) (hb : CallsFor sender qs bs) :
    CallsFor sender (ps ++ qs) (as ++ bs) where
  handled := by rw [List.filterMap_append, ha.handled, hb.handled]
  not_finalized h := (List.mem_append.mp h).elim ha.not_finalized hb.not_finalized
  not_done e h := (List.mem_append.mp h).elim (ha.not_done e) (hb.not_done e)

/-- One call is recorded once. -/
theorem callsFor_record {d : Dispatch σ} {data : List UInt8} {datalen : ℕ}
    {sender child : ChildData} {handler : ChildHandler}
    (h : ∃ events, handler.events asserts d data datalen sender child = .ok events) :
    CallsFor sender.pid [child.pid] (handler.record asserts d data datalen sender child) := by
  obtain ⟨events, hevents⟩ := h
  have hwrites := events_writes hevents
  rw [ChildHandler.record, hevents]
  refine ⟨?_, ?_, ?_⟩
  · have hnone : events.filterMap Event.handledPid = [] := by
      rw [List.filterMap_eq_nil_iff]
      intro e he
      obtain ⟨pid, w, rfl, -⟩ := hwrites e he
      rfl
    show child.pid :: events.filterMap Event.handledPid = _
    rw [hnone]
  · intro h
    rcases List.mem_cons.mp h with h | h
    · exact absurd h (by simp)
    · obtain ⟨pid, w, h, -⟩ := hwrites _ h
      exact absurd h (by simp)
  · intro e h
    rcases List.mem_cons.mp h with rfl | h
    · exact not_false
    · obtain ⟨-, -, -, hne⟩ := hwrites _ h
      exact hne

/-- The calls of a loop are recorded once for every child. -/
theorem callsFor_flatMap {d : Dispatch σ} {data : List UInt8} {datalen : ℕ} {sender : ChildData}
    {handler : ChildHandler} {nodes : List (HashNode UInt32 ChildData)}
    (h : ∀ node ∈ nodes, ∃ events,
      handler.events asserts d data datalen sender node.data = .ok events) :
    CallsFor sender.pid (nodes.map fun node => node.data.pid)
      (nodes.flatMap fun node => handler.record asserts d data datalen sender node.data) := by
  induction nodes with
  | nil => exact callsFor_nil _
  | cons node nodes ih =>
    obtain ⟨hnode, hnodes⟩ := List.forall_mem_cons.mp h
    rw [List.flatMap_cons, List.map_cons]
    exact (callsFor_record hnode).append (ih hnodes)

/-- The nodes of the children that are not the sender. -/
def otherNodes (nodes : List (HashNode UInt32 ChildData)) (sender : UInt32) :
    List (HashNode UInt32 ChildData) :=
  nodes.filter fun node => node.data.pid ≠ sender

theorem map_otherNodes (nodes : List (HashNode UInt32 ChildData)) (sender : UInt32) :
    (otherNodes nodes sender).map (fun node => node.data.pid) =
      (nodes.map fun node => node.data.pid).filter fun pid => pid ≠ sender := by
  rw [otherNodes, List.filter_map]
  rfl

/-- What is recorded of a request before it is finalized. -/
def ChildRequest.calls (asserts : Bool) (d : Dispatch σ) (data : List UInt8) (datalen : ℕ)
    (sender : ChildData) (req : ChildRequest) : List Event :=
  match req.handleChild with
  | none => []
  | some handler =>
      let others := (otherNodes d.server.master.childMap.nodes sender.pid).flatMap fun node =>
        handler.record asserts d data datalen sender node.data
      match req.which with
      | .childNone => []
      | .childSender => handler.record asserts d data datalen sender sender
      | .childAllButSender => others
      | .childAll => handler.record asserts d data datalen sender sender ++ others

/-- When the calls of `handle_child` come to an end: the table of children is small enough to be
walked, if it is, and the states that are looked up have names. -/
structure ChildRequest.CallsEnd (asserts : Bool) (d : Dispatch σ) (req : ChildRequest) : Prop where
  small : req.which = .childAll ∨ req.which = .childAllButSender →
    d.server.master.childMap.tableSz < unsignedRange
  known : req.handleChild = some .sendClientinfo →
    ∀ pid c, d.server.master.child asserts pid = some c → KnownState (d.state pid)

section Calls

variable {d : Dispatch σ} {data : List UInt8} {datalen : ℕ} {sender : ChildData}

/-- **The loop over the others** ends exactly if the table is small and every call returns. -/
theorem handleOthers_eq_ok_iff {req : ChildRequest} {handler : ChildHandler}
    (hhandler : req.handleChild = some handler) (hstate : handler ≠ .changeState)
    (huser : handler ≠ .changeUser) (hpos : 0 < d.server.master.childMap.tableSz)
    {log : List Event} {s' : Handling σ} :
    Dispatch.handleOthers asserts req data datalen sender ⟨log, d⟩ = .ok s' ↔
      d.server.master.childMap.tableSz < unsignedRange ∧
      (∀ node ∈ otherNodes d.server.master.childMap.nodes sender.pid, ∃ events,
        handler.events asserts d data datalen sender node.data = .ok events) ∧
      s' = ⟨log ++ (otherNodes d.server.master.childMap.nodes sender.pid).flatMap fun node =>
        handler.record asserts d data datalen sender node.data, d⟩ := by
  rw [Dispatch.handleOthers, hhandler]
  by_cases hsz : d.server.master.childMap.tableSz < unsignedRange
  · rw [hashForEach_eq hpos hsz, foldlM_callHandleChild hstate huser, and_iff_right hsz]
    refine and_congr_left fun _ => ?_
    simp only [otherNodes, List.mem_filter, decide_eq_true_iff, and_imp]
  · refine iff_of_false (fun h => ?_) fun h => hsz h.1
    exact iterateLoop_huge (Nat.le_of_not_lt hsz) _ _ _ _ _ h

/-- **The calls of `handle_child`**: they come to an end exactly if they can, and then they are
recorded. -/
theorem handleChildren_spec (hm : d.server.master.Numbered asserts)
    (hsender : d.server.master.child asserts sender.pid = some sender)
    (hshort : datalen < MSG_MAX) (hdata : datalen ≤ data.length) {req : ChildRequest}
    (hreq : req ∈ requests) :
    (∀ s', Dispatch.handleChildren asserts req data datalen sender ⟨[], d⟩ = .ok s' →
      req.CallsEnd asserts d ∧ s'.log = req.calls asserts d data datalen sender ∧
        (req.finalize.isSome → s'.dispatch = d) ∧
        CallsFor sender.pid (req.which.pids d.server.master.childMap.nodes sender.pid) s'.log) ∧
    (req.CallsEnd asserts d →
      ∃ s', Dispatch.handleChildren asserts req data datalen sender ⟨[], d⟩ = .ok s') := by
  have hpos := hm.placed.size_pos
  have hreturns : ∀ (handler : ChildHandler) (child : ChildData),
      (∃ events, handler.events asserts d data datalen sender child = .ok events) ↔
        (handler = .sendClientinfo → KnownState (d.state child.pid)) :=
    fun handler child => events_isOk_iff hshort hdata
  -- what is known of all children, and what is known of the sender and of the others
  have hknown : ∀ handler : ChildHandler,
      (handler = .sendClientinfo →
        ∀ pid c, d.server.master.child asserts pid = some c → KnownState (d.state pid)) ↔
      (handler = .sendClientinfo → KnownState (d.state sender.pid)) ∧
        ∀ node ∈ otherNodes d.server.master.childMap.nodes sender.pid,
          handler = .sendClientinfo → KnownState (d.state node.data.pid) := by
    intro handler
    constructor
    · intro h
      refine ⟨fun hh => h hh _ _ hsender, fun node hnode hh => h hh _ node.data ?_⟩
      have hmem := (List.mem_filter.mp hnode).1
      exact hm.mem_nodes_iff.mpr ⟨node, hmem, (hm.key_eq hmem).symm, rfl⟩
    · rintro ⟨hself, hothers⟩ hh pid c hc
      by_cases hpid : pid = sender.pid
      · rw [hpid]
        exact hself hh
      · obtain ⟨node, hnode, -, rfl⟩ := hm.mem_nodes_iff.mp hc
        have hkey := hm.pid_eq _ _ hc
        rw [← hkey]
        exact hothers node (List.mem_filter.mpr ⟨hnode, by simpa [hkey] using hpid⟩) hh
  rw [ChildRequest.calls, Dispatch.handleChildren]
  cases hwhich : req.which with
  | childNone =>
    rw [handleChild_of_childNone hreq hwhich]
    refine ⟨fun s' h => ?_, fun _ => ⟨_, rfl⟩⟩
    obtain rfl := Except.ok.inj h
    exact ⟨⟨by simp [hwhich], by simp [handleChild_of_childNone hreq hwhich]⟩, rfl, fun _ => rfl,
      callsFor_nil _⟩
  | childSender =>
    obtain ⟨handler, hhandler, hother⟩ : ∃ handler, req.handleChild = some handler ∧
        handler ≠ .sendClientinfo := by
      rcases (handleChild_of_childSender hreq hwhich).1 with h | h
      · exact ⟨_, h, by decide⟩
      · exact ⟨_, h, by decide⟩
    have hok := (hreturns handler sender).mpr fun h => absurd h hother
    rw [hhandler]
    refine ⟨fun s' h => ?_, fun _ => ⟨_, callHandleChild_eq_ok_iff.mpr ⟨hok, rfl⟩⟩⟩
    obtain ⟨-, rfl⟩ := callHandleChild_eq_ok_iff.mp h
    refine ⟨⟨by simp [hwhich], ?_⟩, rfl, ?_, callsFor_record hok⟩
    · rw [hhandler]
      exact fun h => absurd (Option.some.inj h) hother
    · rw [(handleChild_of_childSender hreq hwhich).2]
      exact fun h => absurd h (by simp)
  | childAllButSender =>
    have hhandler := handleChild_of_childAllButSender hreq hwhich
    have hok : ∀ node ∈ otherNodes d.server.master.childMap.nodes sender.pid, ∃ events,
        ChildHandler.kickAlways.events asserts d data datalen sender node.data = .ok events :=
      fun node _ => (hreturns .kickAlways node.data).mpr (by simp)
    refine ⟨fun s' h => ?_, fun hend => ?_⟩
    · obtain ⟨hsz, -, rfl⟩ :=
        (handleOthers_eq_ok_iff hhandler (by decide) (by decide) hpos).mp h
      refine ⟨⟨fun _ => hsz, by simp [hhandler]⟩, by rw [hhandler]; rfl, fun _ => rfl, ?_⟩
      rw [Which.pids, ← map_otherNodes]
      exact callsFor_flatMap hok
    · exact ⟨_, (handleOthers_eq_ok_iff hhandler (by decide) (by decide) hpos).mpr
        ⟨hend.small (Or.inr hwhich), hok, rfl⟩⟩
  | childAll =>
    obtain ⟨handler, hhandler, hstate, huser⟩ := handleChild_of_others hreq (Or.inl hwhich)
    have hiff := hknown handler
    refine ⟨fun s' h => ?_, fun hend => ?_⟩
    · obtain ⟨s₁, hcall, hrest⟩ := bind_eq_ok h
      rw [hhandler] at hcall
      obtain ⟨hself, rfl⟩ := callHandleChild_eq_ok_iff.mp hcall
      rw [change_eq hstate huser] at hrest
      obtain ⟨hsz, hothers, rfl⟩ := (handleOthers_eq_ok_iff hhandler hstate huser hpos).mp hrest
      refine ⟨⟨fun _ => hsz, ?_⟩, by rw [hhandler]; rfl, fun _ => rfl, ?_⟩
      · rw [hhandler, Option.some.injEq]
        exact hiff.mpr ⟨(hreturns _ _).mp hself,
          fun node hnode => (hreturns _ _).mp (hothers node hnode)⟩
      · rw [Which.pids, ← map_otherNodes]
        exact (callsFor_record hself).append (callsFor_flatMap hothers)
    · have hstates := hend.known
      rw [hhandler, Option.some.injEq] at hstates
      obtain ⟨hself, hothers⟩ := hiff.mp hstates
      have hcall : callHandleChild asserts (some handler) data datalen sender sender ⟨[], d⟩ =
          .ok ⟨[] ++ handler.record asserts d data datalen sender sender, d⟩ :=
        callHandleChild_eq_ok_iff.mpr ⟨(hreturns _ _).mpr hself, by rw [change_eq hstate huser]⟩
      have hloop : Dispatch.handleOthers asserts req data datalen sender
          ⟨[] ++ handler.record asserts d data datalen sender sender, d⟩ = .ok _ :=
        (handleOthers_eq_ok_iff hhandler hstate huser hpos).mpr ⟨hend.small (Or.inl hwhich),
          fun node hnode => (hreturns _ _).mpr (hothers node hnode), rfl⟩
      rw [← hhandler] at hcall
      exact ⟨_, (congrArg (· >>= Dispatch.handleOthers asserts req data datalen sender) hcall).trans
        hloop⟩

end Calls

/-! ## What is written for the sender -/

/-- No answer of `handleRequest` tells that all is done. -/
theorem allDone_notMem_handleRequest {env : ClientEnv σ} {s : ServerState σ} {sender : ChildData}
    {r : Request} {a : List Packet × ServerState σ} (h : handleRequest env s sender r = .ok a) :
    Packet.allDone ∉ a.1 := by
  have hworld : ∀ {a}, execWorld env s sender r = .ok a → Packet.allDone ∉ a.1 := by
    intro a h hmem
    obtain ⟨answer, -, h⟩ := bind_eq_ok h
    obtain ⟨master, -, h⟩ := bind_eq_ok h
    obtain rfl := Except.ok.inj h
    exact answer.notices _ hmem
  cases r with
  | changeState state =>
    obtain rfl := Except.ok.inj h
    exact List.not_mem_nil
  | changeUser name =>
    obtain rfl := Except.ok.inj h
    exact List.not_mem_nil
  | setRoom id =>
    obtain ⟨master, -, h⟩ := bind_eq_ok h
    obtain rfl := Except.ok.inj h
    exact List.not_mem_nil
  | move dir =>
    obtain ⟨⟨msg, moved, master⟩, -, h⟩ := bind_eq_ok h
    obtain rfl := Except.ok.inj h
    cases msg <;> simp
  | getUserData name =>
    obtain rfl := Except.ok.inj h
    show Packet.allDone ∉ reqSendUser s name
    rw [reqSendUser]
    split <;> simp
  | delUserData name =>
    obtain rfl := Except.ok.inj h
    simp
  | addUserData data =>
    obtain rfl := Except.ok.inj h
    simp
  | bcastMsg text | listClients | kick pid text | kickAll text | wait | getRoomDesc | getRoomName
  | lookAt name | printInventory | take name | drop name | listUsers | execVerb line =>
    exact hworld h

/-- No finalizer tells that all is done. -/
theorem allDone_notMem_run {env : ClientEnv σ} {s : ServerState σ} {data : List UInt8}
    {datalen : ℕ} {sender : ChildData} {f : Finalizer} {a : List Packet × ServerState σ}
    (h : f.run env s data datalen sender = .ok a) : Packet.allDone ∉ a.1 := by
  cases f with
  | sendUser =>
    rw [Finalizer.run] at h
    split at h
    · exact allDone_notMem_handleRequest h
    · obtain rfl := Except.ok.inj h
      exact List.not_mem_nil
  | delUser =>
    rw [Finalizer.run] at h
    split at h
    · exact allDone_notMem_handleRequest h
    · obtain rfl := Except.ok.inj h
      simp
  | addUser =>
    rw [Finalizer.run] at h
    split at h
    · exact allDone_notMem_handleRequest h
    · obtain rfl := Except.ok.inj h
      simp
  | sendGeninfo | setRoom | moveRoom | lookAt | take | drop | execverb | wait | sendDesc
  | sendRoomname | inventory | listusers =>
    rw [Finalizer.run] at h
    exact allDone_notMem_handleRequest h

/-- What is written to a child. -/
def Event.writtenTo (pid : UInt32) : Event → Option Written
  | .wrote child w => if child = pid then some w else none
  | .handled _ | .finalized => none

/-- What `req_pass_msg` writes to whom. -/
theorem writtenTo_passMsg {d : Dispatch σ} {data : List UInt8} {datalen : ℕ}
    {sender child : ChildData} (hshort : datalen < MSG_MAX) (hdata : datalen ≤ data.length)
    {pid : UInt32} (hpid : pid ≠ sender.pid) :
    (ChildHandler.passMsg.record asserts d data datalen sender child).filterMap
        (Event.writtenTo pid) =
      if child.pid = pid then [.raw REQ_BCASTMSG (data.take datalen), .raw REQ_ALLDONE []]
      else [] := by
  rw [ChildHandler.record, ChildHandler.events, reqPassMsg, sendPacket_of_lt hshort hdata,
    sendPacket_of_lt (by decide) (Nat.zero_le _)]
  by_cases hchild : child.pid = pid
  · have hne : child.pid ≠ sender.pid := fun h => hpid (hchild.symm.trans h)
    simp [Event.writtenTo, hchild, hpid, bind, Except.bind, Except.toOption, List.filterMap_cons]
  · by_cases hself : child.pid = sender.pid
    · simp [Event.writtenTo, hself, hpid.symm, bind, Except.bind, Except.toOption]
    · simp [Event.writtenTo, hchild, hself, bind, Except.bind, Except.toOption]

/-- Of several nodes with different pids, one is that of a pid. -/
theorem flatMap_of_pid {nodes : List (HashNode UInt32 ChildData)} {pid : UInt32}
    (hnodup : (nodes.map fun node => node.data.pid).Nodup)
    (hmem : pid ∈ nodes.map fun node => node.data.pid) (ws : List Written) :
    (nodes.flatMap fun node => if node.data.pid = pid then ws else []) = ws := by
  induction nodes with
  | nil => exact absurd hmem List.not_mem_nil
  | cons node nodes ih =>
    rw [List.map_cons, List.nodup_cons] at hnodup
    rw [List.flatMap_cons]
    rcases List.mem_cons.mp hmem with rfl | hmem
    · have hnone : (nodes.flatMap fun n => if n.data.pid = node.data.pid then ws else []) = [] := by
        rw [List.flatMap_eq_nil_iff]
        intro n hn
        rw [if_neg]
        intro heq
        exact hnodup.1 (List.mem_map.mpr ⟨n, hn, heq⟩)
      rw [hnone, if_pos rfl, List.append_nil]
    · have hne : node.data.pid ≠ pid := fun h => hnodup.1 (h ▸ hmem)
      rw [if_neg hne, List.nil_append]
      exact ih hnodup.2 hmem

/-- **Every other child is written the message**, and that all is done. -/
theorem calls_passMsg {d : Dispatch σ} {data : List UInt8} {datalen : ℕ} {sender : ChildData}
    (hm : d.server.master.Numbered asserts) (hshort : datalen < MSG_MAX)
    (hdata : datalen ≤ data.length) {req : ChildRequest} (hhandler : req.handleChild = some .passMsg)
    (hwhich : req.which = .childAll) {pid : UInt32}
    (hthere : (d.server.master.child asserts pid).isSome) (hpid : pid ≠ sender.pid) :
    (req.calls asserts d data datalen sender).filterMap (Event.writtenTo pid) =
      [.raw REQ_BCASTMSG (data.take datalen), .raw REQ_ALLDONE []] := by
  have hmem : pid ∈ (otherNodes d.server.master.childMap.nodes sender.pid).map
      fun node => node.data.pid := by
    rw [map_otherNodes, List.mem_filter, hm.mem_pids_iff]
    exact ⟨hthere, by simpa using hpid⟩
  have hnodup : ((otherNodes d.server.master.childMap.nodes sender.pid).map
      fun node => node.data.pid).Nodup := by
    rw [map_otherNodes]
    exact hm.nodup_pids.filter _
  rw [ChildRequest.calls, hhandler, hwhich]
  dsimp only
  rw [List.filterMap_append, writtenTo_passMsg hshort hdata hpid, if_neg hpid.symm,
    List.nil_append, List.filterMap_flatMap]
  simp only [writtenTo_passMsg hshort hdata hpid]
  exact flatMap_of_pid hnodup hmem _

/-! ## The whole request -/

theorem sendPacket_allDone (asserts : Bool) (pid : UInt32) :
    sendPacket asserts pid REQ_ALLDONE [] 0 = .ok [allDone pid] :=
  sendPacket_of_lt (by decide) (Nat.zero_le _)

/-- A request with an unknown code. -/
theorem answerRequest_of_none {env : ClientEnv σ} {d : Dispatch σ} {cmd : UInt8}
    {data : List UInt8} {datalen : ℕ} {sender : ChildData}
    (hcmd : (requests.find? fun req => req.code = cmd) = none) :
    Dispatch.answerRequest env cmd data datalen sender ⟨[], d⟩ = .ok ⟨[allDone sender.pid], d⟩ := by
  rw [Dispatch.answerRequest, lookupRequest_eq, hcmd]
  show (sendPacket env.asserts sender.pid REQ_ALLDONE [] 0 >>= _) = _
  rw [sendPacket_allDone]
  rfl

/-- A request with a known code: the calls of `handle_child`, the finalizer, and the end. -/
theorem answerRequest_of_some {env : ClientEnv σ} {d : Dispatch σ} {cmd : UInt8}
    {data : List UInt8} {datalen : ℕ} {sender : ChildData} {req : ChildRequest}
    (hcmd : (requests.find? fun req => req.code = cmd) = some req) {s : Handling σ} :
    Dispatch.answerRequest env cmd data datalen sender ⟨[], d⟩ = .ok s ↔
      ∃ s₁ s₂, Dispatch.handleChildren env.asserts req data datalen sender ⟨[], d⟩ = .ok s₁ ∧
        callFinalize env req.finalize data datalen sender s₁ = .ok s₂ ∧
        s = s₂.record [allDone sender.pid] := by
  rw [Dispatch.answerRequest, lookupRequest_eq, hcmd, sendPacket_allDone]
  constructor
  · intro h
    obtain ⟨s₁, h₁, h⟩ := bind_eq_ok (x := Dispatch.handleChildren ..) h
    obtain ⟨s₂, h₂, h⟩ := bind_eq_ok (x := callFinalize ..) h
    exact ⟨s₁, s₂, h₁, h₂, (Except.ok.inj h).symm⟩
  · rintro ⟨s₁, s₂, h₁, h₂, rfl⟩
    show (Dispatch.handleChildren env.asserts req data datalen sender ⟨[], d⟩ >>= _) = _
    rw [h₁]
    show (callFinalize env req.finalize data datalen sender s₁ >>= _) = _
    rw [h₂]
    rfl

/-- A buffer nothing has been read into. -/
def PacketBuf.zero : PacketBuf where
  bytes := List.replicate (MSG_MAX + 1) 0
  length_eq := List.length_replicate ..
  last_eq := by rw [List.getLast?_replicate]; rfl

/-- A master that answers nothing of its own. -/
def quietEnv : ClientEnv Unit := { sampleEnv Int.ofNat with asserts := true }

/-- The connections of two children to a server with one room, which has no exits. -/
def sampleConnections : Except Fault Master :=
  Runs.run (serverStep true) (Master.init [⟨List.replicate 12 none, none, none, 8⟩])
    [.connect 7, .connect 9]

/-- The master with these children. -/
def sampleDispatch : Dispatch Unit where
  server := ⟨sampleConnections.toOption.getD (Master.init []), fun _ => none, ()⟩
  state _ := 0
  peer _ := .ofChars ['h']

end NetCosm
