import NetCosm.Server.FanOut

/-!
# What a request is decided by

The static buffer of `handle_child_req` still holds the packet before.  A request should be decided
by the bytes that `read` has put there, and `OwnBytes` says what that means: for two buffers that
held something else before, everything that happens is the same; a `read` that fails makes nothing
happen; and no handler looks at bytes behind those received.

## 1.  What a handler looks at

`ChildHandler.extent` and `Finalizer.extent` are the numbers of bytes of its data that a handler
looks at.  A string is looked at up to its terminator, and a number whole, whatever `datalen` is.
`extent_le_iff` says when that is no more than was received.

## 2.  Two runs

Nothing but those bytes matters: `answerRequest_append`.

## 3.  When a request is decided by its own bytes

`ownBytes_iff`: if it was received, and if it has less than a code, or its handlers find within it
what they look for.  A `read` that fails never is: `(size_t)packet_len < sizeof(pid_t) + 1` is
false for `-1`, and the packet before is handled once more.
-/

namespace NetCosm

variable {σ : Type} {asserts : Bool}

/-! ## Strings in a buffer -/

/-- A string that ends within the bytes that were received. -/
theorem ofBuffer_append {own : List UInt8} (h : 0 ∈ own) (later : List UInt8) :
    CString.ofBuffer (own ++ later) = CString.ofBuffer own := by
  refine CString.ext ?_
  show (own ++ later).takeWhile (· != 0) = own.takeWhile (· != 0)
  induction own with
  | nil => exact absurd h List.not_mem_nil
  | cons c own ih =>
    rw [List.cons_append]
    by_cases hc : c = 0
    · rw [List.takeWhile_cons_of_neg (by simpa using hc),
        List.takeWhile_cons_of_neg (by simpa using hc)]
    · have hmem := (List.mem_cons.mp h).resolve_left fun h0 => hc h0.symm
      rw [List.takeWhile_cons_of_pos (by simpa using hc),
        List.takeWhile_cons_of_pos (by simpa using hc), ih hmem]

/-- The terminator of the string in a buffer is among the first bytes exactly if there is one. -/
theorem length_ofBuffer_lt_iff {own later : List UInt8} :
    (CString.ofBuffer (own ++ later)).length + 1 ≤ own.length ↔ 0 ∈ own := by
  constructor
  · intro hlt
    by_contra h
    have hall : ∀ c ∈ own, (c != 0) = true := fun c hc => bne_iff_ne.mpr fun h0 => h (h0 ▸ hc)
    have hlong : own.length ≤ (CString.ofBuffer (own ++ later)).length := by
      show own.length ≤ ((own ++ later).takeWhile (· != 0)).length
      rw [List.takeWhile_append_of_pos hall, List.length_append]
      omega
    omega
  · intro h
    rw [ofBuffer_append h]
    show (own.takeWhile (· != 0)).length + 1 ≤ own.length
    have hle := (List.takeWhile_sublist (l := own) (· != 0)).length_le
    have hne : (own.takeWhile (· != 0)).length ≠ own.length := by
      intro heq
      have hself := (List.takeWhile_sublist (· != 0)).eq_of_length heq
      rw [← hself] at h
      exact absurd (List.all_eq_true.mp List.all_takeWhile 0 h) (by decide)
    omega

/-! ## What a handler looks at -/

/-- The bytes of a string, with its terminator. -/
def stringExtent (data : List UInt8) : ℕ := (CString.ofBuffer data).length + 1

/-- How many bytes of its data a `handle_child` looks at. -/
def ChildHandler.extent (data : List UInt8) (datalen : ℕ) : ChildHandler → ℕ
  | .passMsg | .kickAlways => datalen
  | .changeState => if datalen = 4 then 4 else 0
  | .changeUser => stringExtent data
  | .kickClient => if 4 ≤ datalen then datalen else 0
  | .sendClientinfo => 0

/-- How many bytes of its data a `finalize` looks at. -/
def Finalizer.extent (data : List UInt8) (datalen : ℕ) : Finalizer → ℕ
  | .setRoom | .moveRoom => 4
  | .sendUser | .delUser => if datalen ≠ 0 then stringExtent data else 0
  | .addUser => if datalen = sizeofUserdata then sizeofUserdata else 0
  | .lookAt | .take | .drop | .execverb => stringExtent data
  | .sendGeninfo | .wait | .sendDesc | .sendRoomname | .inventory | .listusers => 0

/-- A `handle_child` finds what it looks for in the bytes that were received. -/
def ChildHandler.ReadsWithin (own : List UInt8) : ChildHandler → Prop
  | .changeUser => 0 ∈ own
  | .passMsg | .changeState | .kickClient | .kickAlways | .sendClientinfo => True

/-- A `finalize` finds what it looks for in the bytes that were received. -/
def Finalizer.ReadsWithin (own : List UInt8) : Finalizer → Prop
  | .setRoom | .moveRoom => 4 ≤ own.length
  | .sendUser | .delUser => own = [] ∨ 0 ∈ own
  | .lookAt | .take | .drop | .execverb => 0 ∈ own
  | .sendGeninfo | .addUser | .wait | .sendDesc | .sendRoomname | .inventory | .listusers => True

/-- The handlers of a request find what they look for in the bytes that were received. -/
structure ChildRequest.ReadsWithin (own : List UInt8) (req : ChildRequest) : Prop where
  handleChild : ∀ h, req.handleChild = some h → h.ReadsWithin own
  finalize : ∀ f, req.finalize = some f → f.ReadsWithin own

/-- **A `handle_child` looks at what was received exactly if it finds there what it looks for.** -/
theorem childHandler_extent_le_iff (own later : List UInt8) (h : ChildHandler) :
    h.extent (own ++ later) own.length ≤ own.length ↔ h.ReadsWithin own := by
  cases h with
  | passMsg | kickAlways => exact iff_of_true (Nat.le_refl _) trivial
  | changeState =>
    refine iff_of_true ?_ trivial
    rw [ChildHandler.extent]
    split <;> omega
  | changeUser => exact length_ofBuffer_lt_iff
  | kickClient =>
    refine iff_of_true ?_ trivial
    rw [ChildHandler.extent]
    split <;> omega
  | sendClientinfo => exact iff_of_true (Nat.zero_le _) trivial

/-- **A `finalize` looks at what was received exactly if it finds there what it looks for.** -/
theorem finalizer_extent_le_iff (own later : List UInt8) (f : Finalizer) :
    f.extent (own ++ later) own.length ≤ own.length ↔ f.ReadsWithin own := by
  cases f with
  | setRoom | moveRoom => exact Iff.rfl
  | sendUser | delUser =>
    rw [Finalizer.extent, Finalizer.ReadsWithin]
    by_cases hnil : own = []
    · subst hnil
      simp
    · rw [if_pos (by simpa using hnil), or_iff_right hnil]
      exact length_ofBuffer_lt_iff
  | addUser =>
    refine iff_of_true ?_ trivial
    rw [Finalizer.extent]
    split <;> omega
  | lookAt | take | drop | execverb => exact length_ofBuffer_lt_iff
  | sendGeninfo | wait | sendDesc | sendRoomname | inventory | listusers =>
    exact iff_of_true (Nat.zero_le _) trivial

/-! ## Two runs -/

/-- `send_packet` looks at no more than it is told. -/
theorem sendPacket_append {child : UInt32} {cmd : UInt8} (own later : List UInt8) :
    sendPacket asserts child cmd (own ++ later) own.length =
      sendPacket asserts child cmd own own.length := by
  have hfits : ¬ (own ++ later).length < own.length := by
    rw [List.length_append]
    omega
  rw [sendPacket, sendPacket, if_neg hfits, if_neg (Nat.lt_irrefl _), List.take_left,
    List.take_length]

/-- What a `handle_child` writes does not depend on what is behind its data. -/
theorem events_append {d : Dispatch σ} (own later : List UInt8) {sender child : ChildData}
    (h : ChildHandler) :
    h.events asserts d (own ++ later) own.length sender child =
      h.events asserts d own own.length sender child := by
  cases h with
  | passMsg => rw [ChildHandler.events, ChildHandler.events, reqPassMsg, reqPassMsg, sendPacket_append]
  | kickAlways => exact sendPacket_append own later
  | kickClient =>
    rw [ChildHandler.events, ChildHandler.events, reqKickClient, reqKickClient]
    by_cases h4 : 4 ≤ own.length
    · have hdrop : own.length - 4 = (own.drop 4).length := (List.length_drop ..).symm
      rw [numberAt_append h4, List.drop_append_of_le_length h4, hdrop, sendPacket_append]
    · rw [if_neg fun h => h4 h.1, if_neg fun h => h4 h.1]
  | changeState | changeUser | sendClientinfo => rfl

/-- What a `handle_child` changes does not depend on what is behind its data, if it finds there
what it looks for. -/
theorem change_append {d : Dispatch σ} {own : List UInt8} (later : List UInt8) {sender : ChildData}
    {h : ChildHandler} (hwithin : h.ReadsWithin own) :
    h.change asserts d (own ++ later) own.length sender =
      h.change asserts d own own.length sender := by
  cases h with
  | changeState =>
    rw [ChildHandler.change, ChildHandler.change, reqChangeState, reqChangeState]
    by_cases h4 : own.length = 4
    · rw [if_pos h4, if_pos h4, numberAt_append (Nat.le_of_eq h4.symm)]
    · rw [if_neg h4, if_neg h4]
  | changeUser => rw [ChildHandler.change, ChildHandler.change, ofBuffer_append hwithin]
  | passMsg | kickClient | kickAlways | sendClientinfo => rfl

/-- What a `finalize` does does not depend on what is behind its data, if it finds there what it
looks for. -/
theorem run_append {env : ClientEnv σ} {s : ServerState σ} {own : List UInt8} (later : List UInt8)
    {sender : ChildData} {f : Finalizer} (hwithin : f.ReadsWithin own) :
    f.run env s (own ++ later) own.length sender = f.run env s own own.length sender := by
  cases f with
  | setRoom | moveRoom =>
    have h4 : 0 + 4 ≤ own.length := by simpa [Finalizer.ReadsWithin] using hwithin
    rw [Finalizer.run, Finalizer.run, numberAt_append h4]
  | sendUser | delUser =>
    rw [Finalizer.run, Finalizer.run]
    rcases hwithin with rfl | hzero
    · rfl
    · rw [ofBuffer_append hzero]
  | addUser =>
    rw [Finalizer.run, Finalizer.run]
    by_cases hlen : own.length = sizeofUserdata
    · rw [← hlen, List.take_left, List.take_length]
    · rw [if_neg hlen, if_neg hlen]
  | lookAt | take | drop | execverb =>
    rw [Finalizer.run, Finalizer.run, ofBuffer_append hwithin]
  | sendGeninfo | wait | sendDesc | sendRoomname | inventory | listusers => rfl

/-- A call of `handle_child`. -/
theorem callHandleChild_append {own : List UInt8} (later : List UInt8) {sender child : ChildData}
    {handler : Option ChildHandler} (hwithin : ∀ h, handler = some h → h.ReadsWithin own)
    (s : Handling σ) :
    callHandleChild asserts handler (own ++ later) own.length sender child s =
      callHandleChild asserts handler own own.length sender child s := by
  cases handler with
  | none => rfl
  | some h =>
    rw [callHandleChild, callHandleChild, events_append, change_append later (hwithin h rfl)]

/-- All calls of `handle_child`. -/
theorem handleChildren_append {own : List UInt8} (later : List UInt8) {sender : ChildData}
    {req : ChildRequest} (hwithin : req.ReadsWithin own) (s : Handling σ) :
    Dispatch.handleChildren asserts req (own ++ later) own.length sender s =
      Dispatch.handleChildren asserts req own own.length sender s := by
  have hcall : ∀ child s,
      callHandleChild asserts req.handleChild (own ++ later) own.length sender child s =
        callHandleChild asserts req.handleChild own own.length sender child (s : Handling σ) :=
    fun child s => callHandleChild_append later hwithin.handleChild s
  have hothers : ∀ s : Handling σ,
      Dispatch.handleOthers asserts req (own ++ later) own.length sender s =
        Dispatch.handleOthers asserts req own own.length sender s := by
    intro s
    rw [Dispatch.handleOthers, Dispatch.handleOthers]
    simp only [hcall]
  rw [Dispatch.handleChildren, Dispatch.handleChildren]
  simp only [hcall, hothers]

/-- The call of `finalize`. -/
theorem callFinalize_append {env : ClientEnv σ} {own : List UInt8} (later : List UInt8)
    {sender : ChildData} {finalize : Option Finalizer}
    (hwithin : ∀ f, finalize = some f → f.ReadsWithin own) (s : Handling σ) :
    callFinalize env finalize (own ++ later) own.length sender s =
      callFinalize env finalize own own.length sender s := by
  cases finalize with
  | none => rfl
  | some f => rw [callFinalize, callFinalize, run_append later (hwithin f rfl)]

/-- **A request is answered by its own bytes**, if its handlers find there what they look for. -/
theorem answerRequest_append {env : ClientEnv σ} {cmd : UInt8} {own : List UInt8}
    (later : List UInt8) {sender : ChildData} {d : Dispatch σ}
    (hwithin : ∀ req, (requests.find? fun req => req.code = cmd) = some req →
      req.ReadsWithin own) :
    Dispatch.answerRequest env cmd (own ++ later) own.length sender ⟨[], d⟩ =
      Dispatch.answerRequest env cmd own own.length sender ⟨[], d⟩ := by
  cases hcmd : requests.find? fun req => req.code = cmd with
  | none => rw [answerRequest_of_none hcmd, answerRequest_of_none hcmd]
  | some req =>
    have hreq := hwithin req hcmd
    rw [Dispatch.answerRequest, Dispatch.answerRequest, lookupRequest_eq, hcmd]
    dsimp only [bind, Except.bind]
    simp only [handleChildren_append later hreq, callFinalize_append later hreq.finalize]

/-! ## When a request is decided by its own bytes -/

/-- The bytes `read` has put into the buffer. -/
def PacketRead.bytes : PacketRead → List UInt8
  | .failed => []
  | .received packet _ => packet

/-- **A request is decided by its own bytes.** -/
structure OwnBytes (o : PacketRead) : Prop where
  /-- Whatever was in the buffer before, the same happens. -/
  same : ∀ (σ : Type) (env : ClientEnv σ) (d : Dispatch σ) (buf buf' : PacketBuf),
    Dispatch.handleChildReq env d buf o = Dispatch.handleChildReq env d buf' o
  /-- If nothing was read, nothing happens. -/
  idle : o = .failed → ∀ (σ : Type) (env : ClientEnv σ) (d : Dispatch σ) (buf : PacketBuf),
    ∃ b, Dispatch.handleChildReq env d buf o = .ok (b, ⟨[], d⟩)
  /-- No handler looks at bytes behind those that were read. -/
  within : ∀ buf : PacketBuf, 5 ≤ o.bytes.length → ∀ req,
    (requests.find? fun req => req.code = o.bytes.getD 4 0) = some req →
      (∀ h, req.handleChild = some h →
        h.extent ((buf.after o).drop 5) (o.len - 5) ≤ o.bytes.length - 5) ∧
      ∀ f, req.finalize = some f →
        f.extent ((buf.after o).drop 5) (o.len - 5) ≤ o.bytes.length - 5

/-- A packet was read, and it is too short to be a request, or it is none, or the handlers of the
request find in it what they look for. -/
def PacketRead.SelfContained : PacketRead → Prop
  | .failed => False
  | .received packet _ => packet.length < 5 ∨
      ∀ req, (requests.find? fun req => req.code = packet.getD 4 0) = some req →
        req.ReadsWithin (packet.drop 5)

/-- The data of a packet are its own bytes, and what is behind them in the buffer. -/
theorem drop_after {buf : PacketBuf} {packet : List UInt8} (hlong : 5 ≤ packet.length)
    (hshort : packet.length ≤ MSG_MAX) :
    (buf.after (.received packet hshort)).drop 5 =
      packet.drop 5 ++ buf.bytes.drop packet.length :=
  List.drop_append_of_le_length hlong

/-- **A packet whose handlers find in it what they look for** is handled alike in all buffers. -/
theorem handleChildReq_same {env : ClientEnv σ} {d : Dispatch σ} (buf buf' : PacketBuf)
    {packet : List UInt8} (hlong : 5 ≤ packet.length) (hshort : packet.length ≤ MSG_MAX)
    (hwithin : ∀ req, (requests.find? fun req => req.code = packet.getD 4 0) = some req →
      req.ReadsWithin (packet.drop 5)) :
    Dispatch.handleChildReq env d buf (.received packet hshort) =
      Dispatch.handleChildReq env d buf' (.received packet hshort) := by
  have hlen : (PacketRead.received packet hshort).len - 5 = (packet.drop 5).length :=
    List.length_drop.symm
  have hpid : ∀ b : PacketBuf, numberAt 0 4 (b.after (.received packet hshort)) =
      numberAt 0 4 packet := fun b => numberAt_append (by omega)
  have hcmd : ∀ b : PacketBuf, (b.after (.received packet hshort)).getD 4 0 = packet.getD 4 0 := by
    intro b
    show (packet ++ _).getD 4 0 = _
    rw [List.getD_eq_getElem?_getD, List.getElem?_append_left (by omega),
      ← List.getD_eq_getElem?_getD]
  rw [Dispatch.handleChildReq, Dispatch.handleChildReq]
  dsimp only
  rw [hpid, hpid, hcmd, hcmd, hlen, drop_after hlong, drop_after hlong]
  simp only [answerRequest_append _ hwithin]

/-- A buffer that still holds these bytes. -/
def PacketBuf.holding (bytes : List UInt8) (h : bytes.length ≤ MSG_MAX) : PacketBuf where
  bytes := bytes ++ List.replicate (MSG_MAX + 1 - bytes.length) 0
  length_eq := by
    rw [List.length_append, List.length_replicate]
    omega
  last_eq := by
    have hne : MSG_MAX + 1 - bytes.length ≠ 0 := by omega
    rw [List.getLast?_append, List.getLast?_replicate, if_neg hne]
    rfl

/-- After a `read` that fails, the child whose packet is still in the buffer is answered. -/
theorem failed_read_answers :
    ((Dispatch.handleChildReq quietEnv sampleDispatch
      (.holding [7, 0, 0, 0, REQ_NOP] (by decide)) .failed).toOption.map fun r => r.2.log) =
        some [allDone 7] := by
  decide +kernel

theorem not_ownBytes_failed : ¬ OwnBytes .failed := by
  intro h
  obtain ⟨b, hb⟩ := h.idle rfl Unit quietEnv sampleDispatch
    (.holding [7, 0, 0, 0, REQ_NOP] (by decide))
  have hanswers := failed_read_answers
  rw [hb] at hanswers
  exact absurd hanswers (by simp [Except.toOption])

/-- **When a request is decided by its own bytes**: when it was received, and is too short, or
unknown, or its handlers find in it what they look for. -/
theorem ownBytes_iff (o : PacketRead) : OwnBytes o ↔ o.SelfContained := by
  cases o with
  | failed => exact iff_of_false not_ownBytes_failed id
  | received packet hshort =>
    have hextent : ∀ (buf : PacketBuf), 5 ≤ packet.length →
        (buf.after (.received packet hshort)).drop 5 = packet.drop 5 ++ buf.bytes.drop packet.length :=
      fun buf hlong => drop_after hlong hshort
    have hdatalen : packet.length - 5 = (packet.drop 5).length := List.length_drop.symm
    constructor
    · intro h
      by_cases hlong : 5 ≤ packet.length
      · refine Or.inr fun req hreq => ?_
        obtain ⟨hchild, hfinal⟩ := h.within .zero hlong req hreq
        refine ⟨fun handler hh => ?_, fun f hf => ?_⟩
        · have hle := hchild handler hh
          rw [hextent .zero hlong] at hle
          refine (childHandler_extent_le_iff _ (PacketBuf.zero.bytes.drop packet.length)
            handler).mp ?_
          rw [← hdatalen]
          exact hle
        · have hle := hfinal f hf
          rw [hextent .zero hlong] at hle
          refine (finalizer_extent_le_iff _ (PacketBuf.zero.bytes.drop packet.length) f).mp ?_
          rw [← hdatalen]
          exact hle
      · exact Or.inl (Nat.lt_of_not_le hlong)
    · intro h
      refine ⟨fun σ env d buf buf' => ?_, fun h => absurd h (by simp), fun buf hlong req hreq => ?_⟩
      · by_cases hlong : 5 ≤ packet.length
        · exact handleChildReq_same buf buf' hlong hshort
            (h.resolve_left (Nat.not_lt_of_le hlong))
        · have hlt : (PacketRead.received packet hshort).len < 5 := Nat.lt_of_not_le hlong
          rw [Dispatch.handleChildReq, Dispatch.handleChildReq, if_pos hlt, if_pos hlt]
      · have hwithin := h.resolve_left (Nat.not_lt_of_le hlong) req hreq
        rw [hextent buf hlong]
        show (∀ h, req.handleChild = some h →
          h.extent _ (packet.length - 5) ≤ packet.length - 5) ∧
            ∀ f, req.finalize = some f → f.extent _ (packet.length - 5) ≤ packet.length - 5
        rw [hdatalen]
        exact ⟨fun handler hh => (childHandler_extent_le_iff _ _ handler).mpr (hwithin.handleChild _ hh),
          fun f hf => (finalizer_extent_le_iff _ _ f).mpr (hwithin.finalize f hf)⟩

/-- The user a child has after a packet that says that it is `a`, without a terminator. -/
def userAfter (buf : PacketBuf) : Option CString :=
  ((Dispatch.handleChildReq quietEnv sampleDispatch buf
    (.received [7, 0, 0, 0, REQ_CHANGEUSER, 97] (by decide))).toOption.bind fun r =>
      r.2.dispatch.server.master.child true 7).bind fun c => c.user.map UserName.text

/-- **A request that is decided by another.**  A `read` fails, and whether a child is answered
depends on what was in the buffer.  And a child says that its user is `a`, without a terminator:
its user is `a` in a fresh process, and `ab` after a packet in which a `b` was at that place. -/
theorem request_decided_by_another :
    ¬ OwnBytes .failed ∧
      ¬ OwnBytes (.received [7, 0, 0, 0, REQ_CHANGEUSER, 97] (by decide)) := by
  refine ⟨not_ownBytes_failed, fun h => ?_⟩
  have hsame : userAfter .zero =
      userAfter (.holding [7, 0, 0, 0, REQ_BCASTMSG, 98, 98] (by decide)) := by
    rw [userAfter, userAfter, h.same Unit quietEnv sampleDispatch .zero]
  have hfresh : userAfter .zero = some (.ofChars ['a']) := by decide +kernel
  have hstale : userAfter (.holding [7, 0, 0, 0, REQ_BCASTMSG, 98, 98] (by decide)) =
      some (.ofChars ['a', 'b']) := by decide +kernel
  rw [hfresh, hstale] at hsame
  exact absurd hsame (by decide)

end NetCosm
