import NetCosm.Server.Atomic

/-!
# Lines that are passed on as they are

A world module may take the lines of a child itself, with `child_toggle_rawmode`.  Then the client does not look
for a command in a line, but sends it to the master, and the master does not look for a verb, but calls the function
that the world module has given.  Either side has a variable of its own: the master `raw_mode_cb`, which is set by
`child_toggle_rawmode`, and the client `child_rawmode`, which is turned over by the packet `REQ_RAWMODE` that is
written on the same occasion and read some time later.

If a client sends a line while the two differ, its user is at a console for the one side and not for the other.

## When the two agree

`rawmode_agrees` says that in every state the two differ exactly if an odd number of these packets is still in the
pipe, and that in the runs of which `Server/Replies` says that replies stay together they agree whenever a request is
sent.  For this the world module must not call `child_toggle_rawmode` with no function while there is none:
it writes the packet all the same.
-/

namespace NetCosm

namespace Replies

open Storage

variable {σ κ : Type}

/-! ## The variables -/

/-- The memory of a world module, and `child->raw_mode_cb`, by pid. -/
structure Consoles (σ κ : Type) where
  memory : σ
  rawModeCb : UInt32 → Option κ

/-- What `child_toggle_rawmode` makes of `child->raw_mode_cb`. -/
def childToggleRawmode (raw cb : Option κ) : Option κ := if raw.isNone then cb else none

/-- A world module: what it answers, given who takes the lines of the sender, and with what it calls
`child_toggle_rawmode` while it does.  Each call writes a packet. -/
structure WorldModule (σ κ : Type) where
  answer : Option κ → ChildData → Request → ServerState σ → WorldAnswer σ
  toggles : Option κ → ChildData → Request → ServerState σ → List (Option κ)
  count_eq : ∀ raw sender r s, (answer raw sender r s).packets.count .rawMode = (toggles raw sender r s).length

/-- A call that is made while there is no function gives one. -/
def Honest : Option κ → List (Option κ) → Prop
  | _, [] => True
  | raw, cb :: cbs => (raw.isNone → cb.isSome) ∧ Honest (childToggleRawmode raw cb) cbs

/-- A world module all of whose calls are like that. -/
def WorldModule.Honest (M : WorldModule σ κ) : Prop :=
  ∀ raw sender r s, Replies.Honest raw (M.toggles raw sender r s)

/-- The master with a world module. -/
def WorldModule.env (M : WorldModule σ κ) (base : ClientEnv σ) : ClientEnv (Consoles σ κ) where
  asserts := base.asserts
  pid := base.pid
  clock := base.clock
  rand := base.rand
  sha512 := base.sha512
  sha512_length := base.sha512_length
  answer sender r s :=
    let raw := s.world.rawModeCb sender.pid
    let a := M.answer raw sender r ⟨s.master, s.users, s.world.memory⟩
    let cbs := M.toggles raw sender r ⟨s.master, s.users, s.world.memory⟩
    .ok ⟨a.packets, a.users,
      ⟨a.world, Function.update s.world.rawModeCb sender.pid (cbs.foldl childToggleRawmode raw)⟩, a.teleports,
      a.notices⟩

/-- The packet turns the variable of the client over. -/
def Reply.turns (u : Reply) : Bool := u.packet.code == REQ_RAWMODE

/-- `child_rawmode`, which is false in a new process. -/
def Peer.childRawmode (p : Peer) : Bool := p.consumed.countP Reply.turns % 2 == 1

/-- The `struct child_data` of a new child is all zero. -/
def System.clear (pid : UInt32) (s : System (Consoles σ κ)) : System (Consoles σ κ) :=
  { s with
    dispatch := { s.dispatch with
      server := { s.dispatch.server with
        world := { s.dispatch.server.world with
          rawModeCb := Function.update s.dispatch.server.world.rawModeCb pid none } } } }

/-- One step. -/
def System.rawStep (env : ClientEnv (Consoles σ κ)) (s : System (Consoles σ κ)) (op : Op) :
    Except Fault (System (Consoles σ κ)) :=
  match op with
  | .connect pid addr =>
      match s.dispatch.server.master.child env.asserts pid with
      | some _ => .ok s
      | none => (s.connect env pid addr).map (System.clear pid)
  | op => s.step env op

/-! ## Calls of `child_toggle_rawmode` -/

theorem odd_add (m n : ℕ) : ((m + n) % 2 == 1) = ((m % 2 == 1) != (n % 2 == 1)) := by
  rcases Nat.mod_two_eq_zero_or_one m with hm | hm
  · rcases Nat.mod_two_eq_zero_or_one n with hn | hn <;> rw [Nat.add_mod, hm, hn] <;> rfl
  · rcases Nat.mod_two_eq_zero_or_one n with hn | hn <;> rw [Nat.add_mod, hm, hn] <;> rfl

/-- What is left after some calls. -/
theorem isSome_toggles {raw : Option κ} {cbs : List (Option κ)} (h : Honest raw cbs) :
    (cbs.foldl childToggleRawmode raw).isSome = (raw.isSome != (cbs.length % 2 == 1)) := by
  induction cbs generalizing raw with
  | nil => simp
  | cons cb cbs ih =>
    have hone : (childToggleRawmode raw cb).isSome = !raw.isSome := by
      rw [childToggleRawmode]
      cases raw with
      | none => exact h.1 rfl
      | some f => rfl
    rw [List.foldl_cons, ih h.2, hone, List.length_cons, odd_add]
    cases raw.isSome <;> cases cbs.length % 2 == 1 <;> rfl

/-! ## What is written -/

section Written

variable {env : ClientEnv σ}

/-- A `handle_child` writes messages, ends and kicks. -/
theorem codes_of_events {asserts : Bool} {d : Dispatch σ} {data : List UInt8} {datalen : ℕ}
    {sender child : ChildData} {handler : ChildHandler} {events : List Event}
    (h : handler.events asserts d data datalen sender child = .ok events) {pid : UInt32} {w : Written}
    (hw : .wrote pid w ∈ events) : w.code ∈ passedCodes := by
  obtain ⟨-, -, hcode | hcode⟩ | ⟨-, -, hcode⟩ | ⟨-, hcode⟩ := wrote_cases h hw
  all_goals
    rw [hcode]
    decide

/-- The calls of `handle_child` leave the world alone. -/
theorem handleChildren_world {asserts : Bool} {d : Dispatch σ} {data : List UInt8} {datalen : ℕ}
    {sender : ChildData} (hpos : 0 < d.server.master.childMap.tableSz) {req : ChildRequest}
    (hreq : req ∈ requests) {s : Handling σ}
    (h : Dispatch.handleChildren asserts req data datalen sender ⟨[], d⟩ = .ok s) :
    s.dispatch.server.world = d.server.world := by
  have hchange : ∀ handler : ChildHandler,
      (handler.change asserts d data datalen sender).server.world = d.server.world := by
    intro handler
    cases handler with
    | changeState =>
      rw [ChildHandler.change, reqChangeState]
      split <;> rfl
    | changeUser | passMsg | kickClient | kickAlways | sendClientinfo => rfl
  rw [Dispatch.handleChildren] at h
  cases hwhich : req.which with
  | childNone =>
    rw [hwhich] at h
    obtain rfl := Except.ok.inj h
    rfl
  | childSender =>
    rw [hwhich] at h
    cases hhandler : req.handleChild with
    | none =>
      rw [hhandler] at h
      exact absurd h (by simp [callHandleChild])
    | some handler =>
      rw [hhandler] at h
      obtain ⟨-, rfl⟩ := callHandleChild_eq_ok_iff.mp h
      exact hchange handler
  | childAllButSender =>
    rw [hwhich] at h
    obtain ⟨handler, hhandler, hstate, huser⟩ := handleChild_of_others hreq (Or.inr hwhich)
    obtain ⟨-, -, rfl⟩ := (handleOthers_eq_ok_iff hhandler hstate huser hpos).mp h
    rfl
  | childAll =>
    rw [hwhich] at h
    obtain ⟨handler, hhandler, hstate, huser⟩ := handleChild_of_others hreq (Or.inl hwhich)
    obtain ⟨s₁, hcall, h⟩ := bind_eq_ok h
    rw [hhandler] at hcall
    obtain ⟨-, rfl⟩ := callHandleChild_eq_ok_iff.mp hcall
    rw [change_eq hstate huser] at h
    obtain ⟨-, -, rfl⟩ := (handleOthers_eq_ok_iff hhandler hstate huser hpos).mp h
    rfl

/-- How many of the packets that are written to a child turn its variable over. -/
def turned (pid : UInt32) (log : List Event) : ℕ :=
  (log.filterMap (Event.writtenTo pid)).countP fun w => w.code == REQ_RAWMODE

theorem turned_append (pid : UInt32) (log log' : List Event) :
    turned pid (log ++ log') = turned pid log + turned pid log' := by
  rw [turned, List.filterMap_append, List.countP_append]
  rfl

theorem turned_eq_zero {pid : UInt32} {log : List Event} (h : ∀ w, .wrote pid w ∈ log → w.code ≠ REQ_RAWMODE) :
    turned pid log = 0 := by
  refine List.countP_eq_zero.mpr fun w hw => ?_
  obtain ⟨e, he, hwritten⟩ := List.mem_filterMap.mp hw
  cases e with
  | wrote child w' =>
    rw [Event.writtenTo] at hwritten
    split at hwritten
    · rename_i hchild
      obtain rfl := Option.some.inj hwritten
      subst hchild
      simpa using h _ he
    · exact absurd hwritten (by simp)
  | handled child | finalized => exact absurd hwritten (by simp [Event.writtenTo])

theorem code_eq_rawMode {p : Packet} : p.code = REQ_RAWMODE ↔ p = .rawMode := by
  cases p <;> simp [Packet.code] <;> decide

/-- Of the answers, those of a world module that calls `child_toggle_rawmode` do. -/
theorem turned_answers (pid : UInt32) (packets : List Packet) :
    turned pid (packets.map fun p => .wrote pid (.answer p)) = packets.count .rawMode := by
  rw [turned, writtenTo_answers, List.countP_map, List.count]
  refine List.countP_congr fun p _ => ?_
  show (p.code == REQ_RAWMODE) = true ↔ (p == .rawMode) = true
  rw [beq_iff_eq, beq_iff_eq, code_eq_rawMode]

/-- What is written in the calls of `handle_child` turns nothing over. -/
theorem turned_calls {asserts : Bool} {d : Dispatch σ} {data : List UInt8} {datalen : ℕ} {sender : ChildData}
    {req : ChildRequest} (pid : UInt32) : turned pid (req.calls asserts d data datalen sender) = 0 := by
  refine turned_eq_zero fun w hw hcode => ?_
  obtain ⟨handler, child, events, -, hevents, hmem, -⟩ := mem_calls hw
  have hcodes := codes_of_events hevents hmem
  rw [hcode] at hcodes
  exact absurd hcodes (by decide)

end Written

/-! ## One request -/

section Requests

variable {M : WorldModule σ κ} {base : ClientEnv σ} {env : ClientEnv (Consoles σ κ)}

/-- The variable of a child has been turned over as often as the packets that are written to it say. -/
def Follows (pid : UInt32) (w w' : Consoles σ κ) (log : List Event) : Prop :=
  (w'.rawModeCb pid).isSome = ((w.rawModeCb pid).isSome != (turned pid log % 2 == 1))

theorem follows_of_eq {pid : UInt32} {w w' : Consoles σ κ} {log : List Event} (hw : w' = w)
    (hlog : turned pid log = 0) : Follows pid w w' log := by
  rw [Follows, hw, hlog]
  simp

/-- **A finalizer**: only the sender gets or loses a function, and it is told. -/
theorem follows_finalize (hM : M.Honest) (hanswer : env.answer = (M.env base).answer)
    {finalize : Option Finalizer} {data : List UInt8} {datalen : ℕ} {sender : ChildData}
    {s s' : Handling (Consoles σ κ)} (h : callFinalize env finalize data datalen sender s = .ok s')
    {pid : UInt32} (hlog : turned pid s.log = 0) :
    Follows pid s.dispatch.server.world s'.dispatch.server.world s'.log := by
  cases finalize with
  | none =>
    obtain rfl := Except.ok.inj h
    exact follows_of_eq rfl hlog
  | some f =>
    obtain ⟨a, ha, h⟩ := bind_eq_ok h
    obtain rfl := Except.ok.inj h
    have hcount : turned pid (s.log ++ .finalized :: a.1.map fun p => .wrote sender.pid (.answer p)) =
        turned pid (a.1.map fun p => .wrote sender.pid (.answer p)) := by
      rw [turned_append, hlog, Nat.zero_add]
      rfl
    rw [Follows, hcount]
    show (a.2.world.rawModeCb pid).isSome = _
    by_cases hpid : pid = sender.pid
    · subst hpid
      rw [turned_answers]
      rcases run_cases ha with ⟨hworld, hpackets⟩ | ⟨r, hworld⟩
      · have hnone : a.1.count .rawMode = 0 := by
          refine List.count_eq_zero.mpr fun hmem => ?_
          rcases hpackets _ hmem with hnot | ⟨text, heq⟩
          · exact hnot trivial
          · exact absurd heq (by simp)
        rw [hworld, hnone]
        simp
      · obtain ⟨answer, hanswered, hworld⟩ := bind_eq_ok hworld
        obtain ⟨master, -, hworld⟩ := bind_eq_ok hworld
        obtain rfl := Except.ok.inj hworld
        rw [hanswer] at hanswered
        obtain rfl := Except.ok.inj hanswered
        dsimp only
        rw [Function.update_self, M.count_eq]
        exact isSome_toggles (hM _ _ _ _)
    · have hnone : turned pid (a.1.map fun p => .wrote sender.pid (.answer p)) = 0 := by
        refine turned_eq_zero fun w hw => ?_
        obtain ⟨p, -, heq⟩ := List.mem_map.mp hw
        exact absurd (Event.wrote.inj heq).1.symm hpid
      have hsame : a.2.world.rawModeCb pid = s.dispatch.server.world.rawModeCb pid := by
        rcases run_cases ha with ⟨hworld, -⟩ | ⟨r, hworld⟩
        · rw [hworld]
        · obtain ⟨answer, hanswered, hworld⟩ := bind_eq_ok hworld
          obtain ⟨master, -, hworld⟩ := bind_eq_ok hworld
          obtain rfl := Except.ok.inj hworld
          rw [hanswer] at hanswered
          obtain rfl := Except.ok.inj hanswered
          exact Function.update_of_ne hpid _ _
      rw [hnone, hsame]
      simp

/-- **A request of a child** that is there. -/
theorem follows_answerRequest (hM : M.Honest) (hanswer : env.answer = (M.env base).answer)
    {d : Dispatch (Consoles σ κ)} {cmd : UInt8} {data : List UInt8} {datalen : ℕ} {sender : ChildData}
    (hd : d.server.master.Sound env.asserts)
    (hsender : d.server.master.child env.asserts sender.pid = some sender) (hshort : datalen < MSG_MAX)
    (hdata : datalen ≤ data.length) {h : Handling (Consoles σ κ)}
    (hok : Dispatch.answerRequest env cmd data datalen sender ⟨[], d⟩ = .ok h) (pid : UInt32) :
    Follows pid d.server.world h.dispatch.server.world h.log := by
  have hend : turned pid [allDone sender.pid] = 0 :=
    turned_eq_zero fun w hw => by
      rw [(Event.wrote.inj (List.mem_singleton.mp hw)).2]
      exact (by decide : REQ_ALLDONE ≠ REQ_RAWMODE)
  cases hcmd : requests.find? fun req => req.code = cmd with
  | none =>
    obtain rfl := Except.ok.inj ((answerRequest_of_none hcmd).symm.trans hok)
    exact follows_of_eq rfl hend
  | some req =>
    have hreq := List.mem_of_find?_eq_some hcmd
    obtain ⟨s₁, s₂, h₁, h₂, rfl⟩ := (answerRequest_of_some hcmd).mp hok
    obtain ⟨-, hlog, -, -⟩ := (handleChildren_spec hd.numbered hsender hshort hdata hreq).1 s₁ h₁
    have hworld := handleChildren_world hd.numbered.placed.size_pos hreq h₁
    have hfollows : Follows pid s₁.dispatch.server.world s₂.dispatch.server.world s₂.log :=
      follows_finalize hM hanswer h₂ (hlog ▸ turned_calls pid)
    show (_ : Bool) = (_ != (turned pid (s₂.log ++ [allDone sender.pid]) % 2 == 1))
    rw [turned_append, hend, Nat.add_zero, ← hworld]
    exact hfollows

/-- **A request from the pipe of a child.** -/
theorem follows_handleChildReq (hM : M.Honest) {d : Dispatch (Consoles σ κ)} {buf : PacketBuf} {r : Sent}
    {sender : UInt32} (hd : d.server.master.Sound base.asserts) {b : Bool} {h : Handling (Consoles σ κ)}
    (hok : Dispatch.handleChildReq (M.env base) d buf (r.received sender) = .ok (b, h)) (pid : UInt32) :
    Follows pid d.server.world h.dispatch.server.world h.log := by
  cases hsender : d.server.master.child (M.env base).asserts sender with
  | none =>
    obtain rfl := handleChildReq_absent hsender hok
    exact follows_of_eq rfl rfl
  | some c =>
    rw [handleChildReq_received _ r hsender] at hok
    obtain ⟨h', hanswer, heq⟩ := map_eq_ok hok
    obtain ⟨-, rfl⟩ := Prod.mk.inj heq
    obtain rfl : c.pid = sender := hd.numbered.pid_eq _ _ hsender
    have hsame : ({ M.env base with pid := c.pid } : ClientEnv (Consoles σ κ)).answer = (M.env base).answer := rfl
    exact follows_answerRequest hM hsame hd hsender (by have := r.short; omega)
      (by rw [List.length_append]; omega) hanswer pid

end Requests

/-! ## One client -/

namespace Peer

variable {p : Peer} {pid : UInt32}

/-- A client that reads lines, or whose request has not been handled, has read all packets that turn its variable
over. -/
theorem Attuned.countP_unread (h : p.Attuned pid) (horderly : p.Orderly pid)
    (hready : p.mode = .reading ∨ p.requests ≠ []) : p.unread.countP Reply.turns = 0 := by
  refine List.countP_eq_zero.mpr fun u hu hturns => ?_
  have hpassed := (h.passed_unread horderly hready hu).2
  rw [beq_iff_eq.mp hturns] at hpassed
  exact absurd hpassed (by decide)

/-- Packets are written. -/
theorem countP_deliver (p : Peer) (pid : UInt32) (ticket : Ticket) (log : List Event) :
    (p.deliver pid ticket log).written.countP Reply.turns = p.written.countP Reply.turns + turned pid log := by
  rw [deliver, List.countP_append, List.countP_map]
  rfl

end Peer

/-! ## The whole system -/

namespace System

section AnyMaster

variable {env : ClientEnv (Consoles σ κ)} {s s' : System (Consoles σ κ)}

/-- What `rawStep` adds to a step does not concern the clients. -/
theorem rawStep_cases {op : Op} (h : s.rawStep env op = .ok s') :
    s.step env op = .ok s' ∨ ∃ pid s₁, s.step env op = .ok s₁ ∧ s' = s₁.clear pid := by
  cases op with
  | connect pid addr =>
    rw [rawStep] at h
    split at h
    · rename_i c hchild
      refine Or.inl ?_
      rw [← h, System.step, System.connect, hchild]
    · obtain ⟨s₁, h₁, rfl⟩ := map_eq_ok h
      exact Or.inr ⟨pid, s₁, h₁, rfl⟩
  | disconnect pid => exact Or.inl h
  | send pid cmd data short => exact Or.inl h
  | handle pid => exact Or.inl h
  | poll pid => exact Or.inl h

theorem stepped_rawStep (hsound : s.dispatch.server.master.Sound env.asserts) {op : Op}
    (hs : s.rawStep env op = .ok s') : Stepped env s op s' := by
  rcases rawStep_cases hs with hstep | ⟨pid, s₁, hstep, rfl⟩
  · exact stepped_step hsound hstep
  · obtain ⟨hsound', hkept, hstarted, hpeers⟩ := stepped_step hsound hstep
    exact ⟨hsound', hkept, hstarted, hpeers⟩

theorem Manned.rawStep (h : s.Manned env) {op : Op} (hs : s.rawStep env op = .ok s') : s'.Manned env := by
  rcases rawStep_cases hs with hstep | ⟨pid, s₁, hstep, rfl⟩
  · exact h.step hstep
  · exact ⟨(h.step hstep).sound, (h.step hstep).listed⟩

theorem Orderly.rawStep (h : s.Orderly env) {op : Op} (hop : s.Undisturbed op)
    (hs : s.rawStep env op = .ok s') : s'.Orderly env := by
  rcases rawStep_cases hs with hstep | ⟨pid, s₁, hstep, rfl⟩
  · exact h.step hop hstep
  · exact ⟨(h.step hop hstep).sound, (h.step hop hstep).listed, (h.step hop hstep).peers⟩

theorem Attuned.rawStep (h : s.Attuned env) {op : Op} (hop : s.Undisturbed op) (hs : s.rawStep env op = .ok s') :
    s'.Attuned env :=
  ⟨h.orderly.rawStep hop hs,
    fun pid hlive => attuned_stepped h.orderly (stepped_rawStep h.orderly.sound hs) (h.peers pid) hlive⟩

end AnyMaster

variable {M : WorldModule σ κ} {base : ClientEnv σ} {s s' : System (Consoles σ κ)}

/-- The master has told every client how often it has turned the variable over. -/
structure Told (env : ClientEnv (Consoles σ κ)) (s : System (Consoles σ κ)) : Prop where
  manned : s.Manned env
  told : ∀ pid, (s.peers pid).mode ≠ .exited →
    (s.dispatch.server.world.rawModeCb pid).isSome = ((s.peers pid).written.countP Reply.turns % 2 == 1)

theorem told_start (env : ClientEnv (Consoles σ κ)) (rooms : List RoomSetup)
    (users : CString → Option UserData) (world : Consoles σ κ) : (start rooms users world).Told env :=
  ⟨manned_start env rooms users world, fun _ h => absurd rfl h⟩

/-- **One step.** -/
theorem Told.step (hM : M.Honest) (h : s.Told (M.env base)) {op : Op}
    (hs : s.rawStep (M.env base) op = .ok s') : s'.Told (M.env base) := by
  refine ⟨h.manned.rawStep hs, fun pid hmode => ?_⟩
  -- a step of a client alone, after which it runs only if it did before, and that writes nothing to it
  have hclient : ∀ (q : UInt32) (p : Peer), (p.mode ≠ .exited → (s.peers q).mode ≠ .exited) →
      p.written = (s.peers q).written → (Function.update s.peers q p pid).mode ≠ .exited →
      (s.dispatch.server.world.rawModeCb pid).isSome =
        ((Function.update s.peers q p pid).written.countP Reply.turns % 2 == 1) := by
    intro q p hlive hwritten hmode
    by_cases hpid : pid = q
    · subst hpid
      rw [Function.update_self] at hmode ⊢
      rw [hwritten]
      exact h.told pid (hlive hmode)
    · rw [Function.update_of_ne hpid] at hmode ⊢
      exact h.told pid hmode
  cases op with
  | connect q addr =>
    rw [rawStep] at hs
    split at hs
    · obtain rfl := Except.ok.inj hs
      exact h.told pid hmode
    · rename_i hnone
      obtain ⟨s₁, hconnect, rfl⟩ := map_eq_ok hs
      rw [System.connect, hnone] at hconnect
      obtain ⟨master, -, hconnect⟩ := bind_eq_ok hconnect
      obtain rfl := Except.ok.inj hconnect
      show (Function.update s.dispatch.server.world.rawModeCb q none pid).isSome =
        ((Function.update s.peers q .fresh pid).written.countP Reply.turns % 2 == 1)
      have hmode : (Function.update s.peers q .fresh pid).mode ≠ .exited := hmode
      by_cases hpid : pid = q
      · subst hpid
        rw [Function.update_self, Function.update_self]
        rfl
      · rw [Function.update_of_ne hpid] at hmode
        rw [Function.update_of_ne hpid, Function.update_of_ne hpid]
        exact h.told pid hmode
  | disconnect q =>
    have hs : s.disconnect (M.env base) q = .ok s' := hs
    rw [System.disconnect] at hs
    split at hs
    · obtain rfl := Except.ok.inj hs
      exact h.told pid hmode
    · obtain ⟨master, -, hs⟩ := bind_eq_ok hs
      obtain rfl := Except.ok.inj hs
      exact hclient q _ (fun hexited => absurd rfl hexited) rfl hmode
  | send q cmd data short =>
    obtain rfl := Except.ok.inj hs
    refine hclient q _ (fun hlive hexited => hlive ?_) ?_ hmode
    · rw [Peer.send, hexited]
      exact hexited
    · rcases (s.peers q).send_cases cmd data short with hsend | ⟨-, hsend⟩ <;> rw [hsend]
  | poll q =>
    obtain rfl := Except.ok.inj hs
    refine hclient q _ (fun hlive hexited => hlive ?_) (s.peers q).poll_pipes.1 hmode
    rw [Peer.poll, hexited]
    exact hexited
  | handle q =>
    have hs : s.handle (M.env base) q = .ok s' := hs
    rw [System.handle] at hs
    split at hs
    · obtain rfl := Except.ok.inj hs
      exact h.told pid hmode
    · rename_i r rest hr
      obtain ⟨⟨b, hd⟩, hhandled, hs⟩ := bind_eq_ok hs
      obtain rfl := Except.ok.inj hs
      have hfollows := follows_handleChildReq hM h.manned.sound hhandled pid
      have hself : (Function.update s.peers q { s.peers q with requests := rest } pid).mode = (s.peers pid).mode ∧
          (Function.update s.peers q { s.peers q with requests := rest } pid).written = (s.peers pid).written := by
        by_cases hpid : pid = q
        · rw [hpid, Function.update_self]
          exact ⟨rfl, rfl⟩
        · rw [Function.update_of_ne hpid]
          exact ⟨rfl, rfl⟩
      have hlive : (s.peers pid).mode ≠ .exited := by
        rw [← hself.1]
        exact hmode
      show (hd.dispatch.server.world.rawModeCb pid).isSome =
        ((Peer.deliver _ pid ⟨q, r.number⟩ hd.log).written.countP Reply.turns % 2 == 1)
      rw [hfollows, h.told pid hlive, Peer.countP_deliver, hself.2, odd_add]

end System

/-- **The two sides agree who takes a line.**  In every state that is reached, the variable of a client and that
of the master differ exactly if an odd number of packets that turn it over is still in the pipe.  If no message has
disturbed a reply there is none while the client reads lines, nor before the line that it has sent is handled. -/
theorem rawmode_agrees (M : WorldModule σ κ) (hM : M.Honest) (base : ClientEnv σ) (rooms : List RoomSetup)
    (users : CString → Option UserData) (memory : σ) {ops : List Op} {s : System (Consoles σ κ)}
    (hrun : Runs.run (System.rawStep (M.env base)) (System.start rooms users ⟨memory, fun _ => none⟩) ops = .ok s)
    {pid : UInt32} (hlive : (s.peers pid).mode ≠ .exited) :
    ((s.peers pid).childRawmode = (s.dispatch.server.world.rawModeCb pid).isSome ↔
        (s.peers pid).unread.countP Reply.turns % 2 = 0) ∧
      (Runs.EachDone (System.rawStep (M.env base)) System.Undisturbed
          (System.start rooms users ⟨memory, fun _ => none⟩) ops →
        (s.peers pid).mode = .reading ∨ (s.peers pid).requests ≠ [] →
        (s.peers pid).childRawmode = (s.dispatch.server.world.rawModeCb pid).isSome) := by
  have htold : s.Told (M.env base) :=
    Runs.invariant_run (fun _ _ _ hs hstep => hs.step hM hstep) (System.told_start _ rooms users _) hrun
  have hiff : (s.peers pid).childRawmode = (s.dispatch.server.world.rawModeCb pid).isSome ↔
      (s.peers pid).unread.countP Reply.turns % 2 = 0 := by
    -- all that was written is what has been read and what is in the pipe
    have hsplit : (s.peers pid).written.countP Reply.turns =
        (s.peers pid).consumed.countP Reply.turns + (s.peers pid).unread.countP Reply.turns := by
      rw [← List.countP_append, Peer.consumed, Peer.unread, List.take_append_drop]
    rw [htold.told pid hlive, hsplit, odd_add, Peer.childRawmode]
    rcases Nat.mod_two_eq_zero_or_one ((s.peers pid).unread.countP Reply.turns) with hunread | hunread
    · simp [hunread]
    · simp [hunread]
  refine ⟨hiff, fun hundisturbed hready => hiff.mpr ?_⟩
  have hattuned : s.Attuned (M.env base) :=
    (Runs.always_of_eachStep (I := System.Attuned (M.env base))
      (fun _ _ s' hs hop hstep => hs.rawStep (hop s' hstep) hstep) (System.attuned_start _ rooms users _)
      hundisturbed).last hrun
  rw [(hattuned.peers pid hlive).countP_unread (hattuned.orderly.peers pid) hready]

/-! ## A console -/

/-- Any command opens the console, and `q` closes it. -/
def sampleToggles (raw : Option Unit) : Request → List (Option Unit)
  | .execVerb line =>
      match raw with
      | none => [some ()]
      | some _ => if line = .ofChars ['q'] then [none] else []
  | _ => []

def sampleConsole : WorldModule Unit Unit where
  answer raw _ r s := ⟨(sampleToggles raw r).map fun _ => .rawMode, s.users, s.world, [], fun p hp => by
    obtain ⟨_, -, rfl⟩ := List.mem_map.mp hp
    trivial⟩
  toggles raw _ r _ := sampleToggles raw r
  count_eq raw _ r _ := by
    show List.count _ ((sampleToggles raw r).map fun _ => Packet.rawMode) = _
    rw [List.map_const', List.count_replicate_self]

theorem honest_sampleConsole : sampleConsole.Honest := by
  intro raw _ r _
  show Honest raw (sampleToggles raw r)
  cases r with
  | execVerb line =>
    cases raw with
    | none => exact ⟨fun _ => rfl, trivial⟩
    | some f =>
      show Honest (some f) (if line = .ofChars ['q'] then [none] else [])
      split
      · exact ⟨fun h => absurd h (by simp), trivial⟩
      · trivial
  | _ => trivial

def sampleQuarters : System (Consoles Unit Unit) :=
  System.start [⟨List.replicate 12 none, none, none, 8⟩] (fun _ => none) ⟨(), fun _ => none⟩

/-- The child 9 sends `t`. -/
def sampleLine : List Op :=
  [.connect 7 (.ofChars []), .connect 9 (.ofChars []), .send 9 REQ_EXECVERB [116, 0] (by decide)]

/-- After the reply, both sides know that the console takes the lines of 9. -/
theorem console_agrees :
    ∃ s, Runs.run (System.rawStep (sampleConsole.env quietEnv)) sampleQuarters
        (sampleLine ++ [.handle 9, .poll 9, .poll 9]) = .ok s ∧
      (s.dispatch.server.world.rawModeCb 9).isSome ∧ (s.peers 9).childRawmode = true := by
  have hcheck : (Runs.run (System.rawStep (sampleConsole.env quietEnv)) sampleQuarters
      (sampleLine ++ [.handle 9, .poll 9, .poll 9])).toOption.any (fun s =>
        decide ((s.peers 9).mode = .reading) && (s.dispatch.server.world.rawModeCb 9).isSome) = true := by
    decide +kernel
  have hsteps : Runs.EachStep (System.rawStep (sampleConsole.env quietEnv)) System.Undisturbed sampleQuarters
      (sampleLine ++ [.handle 9, .poll 9, .poll 9]) := by
    decide +kernel
  obtain ⟨s, hs, hcheck⟩ := exists_of_any_toOption hcheck
  obtain ⟨hmode, hsome⟩ := Bool.and_eq_true_iff.mp hcheck
  have hmode : (s.peers 9).mode = .reading := of_decide_eq_true hmode
  refine ⟨s, hs, hsome, ?_⟩
  rw [(rawmode_agrees sampleConsole honest_sampleConsole quietEnv _ _ () hs (by simp [hmode])).2
    hsteps.done
    (Or.inl hmode), hsome]

/-- If 7 says something first, then 9 reads lines as before, while the master gives them to the console. -/
example : ((Runs.run (System.rawStep (sampleConsole.env quietEnv)) sampleQuarters
    (sampleLine ++ [.send 7 REQ_BCASTMSG [97] (by decide), .handle 7, .poll 9, .poll 9, .handle 9])).toOption.any
      fun s => decide ((s.peers 9).mode = .reading) && (s.dispatch.server.world.rawModeCb 9).isSome &&
        !(s.peers 9).childRawmode) = true := by
  decide +kernel

end Replies

end NetCosm
