import NetCosm.Server.Dispatch

/-!
# Splitting a message into packets

`send_packet` of `server_reqs.c` as it is: a function that calls itself.  A message to a client that
is too long for a packet is cut into pieces, and each piece is sent by `send_packet`.  It tests the
length three times, and each time differently: `datalen < MSG_MAX` in the assertion,
`datalen + 1 > MSG_MAX` where it decides whether to split, and `MSG_MAX - 1` for the pieces.

`sendPackets` is that function, with a bound on how deep it may call itself.  The pieces are short
enough not to be cut again, so it never calls itself more than once (`sendPackets_eq`); and what it
writes is what `sendPacket`, the `send_packet` of the model of the master, says
(`sendPacket_eq_sendPackets`).

`Buffer` is what the C code may have a pointer to: the difference of two pointers into it is a
`ptrdiff_t`, and so it has fewer than `2 ^ 63` bytes.
-/

namespace NetCosm

/-- An object in memory. -/
structure Buffer where
  bytes : List UInt8
  length_lt : bytes.length < 2 ^ 63

/-- The size of a buffer. -/
def Buffer.size (data : Buffer) : UInt64 := UInt64.ofNat data.bytes.length

/-- `send_packet`: the packets that are written.  `data` is none for a null pointer. -/
def sendPackets (asserts : Bool) : ℕ → UInt8 → Option (List UInt8) → UInt64 →
    Except Fault (List (List UInt8))
  | 0, _, _, _ => .error .endlessLoop
  | depth + 1, cmd, data, datalen =>
      if asserts && !(decide (datalen.toNat < MSG_MAX) || cmd == REQ_BCASTMSG) then
        .error .assertion
      else
        let len : UInt64 := if data.isSome then datalen else 0
        let bytes := (data.getD []).take len.toNat
        if cmd = REQ_BCASTMSG ∧ MSG_MAX < (len + 1).toNat then do
          let packets ← (splitMessage bytes).mapM fun piece =>
            sendPackets asserts depth cmd (some piece) (UInt64.ofNat piece.length)
          pure packets.flatten
        else if MSG_MAX < len.toNat + 1 then
          -- `memcpy` to a packet that is too small
          .error .outOfBounds
        else .ok [cmd :: bytes]

/-! ## The pieces -/

variable {asserts : Bool} {cmd : UInt8}

theorem length_of_mem_splitMessage {msg piece : List UInt8} (h : piece ∈ splitMessage msg) :
    piece.length < MSG_MAX := by
  induction msg using splitMessage.induct with
  | case1 => rw [splitMessage, dif_pos rfl] at h; exact absurd h List.not_mem_nil
  | case2 msg hne ih =>
    rw [splitMessage, dif_neg hne, List.mem_cons] at h
    rcases h with rfl | h
    · have hle := List.length_take_le (MSG_MAX - 1) msg
      unfold MSG_MAX at hle ⊢
      omega
    · exact ih h

/-- **The pieces are the message.** -/
theorem flatten_splitMessage (msg : List UInt8) : (splitMessage msg).flatten = msg := by
  induction msg using splitMessage.induct with
  | case1 => rw [splitMessage, dif_pos rfl]; rfl
  | case2 msg hne ih =>
    rw [splitMessage, dif_neg hne, List.flatten_cons, ih, List.take_append_drop]

/-! ## The packets -/

/-- What one packet or the pieces of a message are. -/
def packetsOf (cmd : UInt8) (bytes : List UInt8) : List (List UInt8) :=
  if cmd = REQ_BCASTMSG ∧ MSG_MAX < bytes.length + 1 then (splitMessage bytes).map (cmd :: ·)
  else [cmd :: bytes]

/-- What is short enough is sent as it is, by a call that does not call itself. -/
theorem sendPackets_of_lt {bytes : List UInt8} (h : bytes.length < MSG_MAX) (depth : ℕ) :
    sendPackets asserts (depth + 1) cmd (some bytes) (UInt64.ofNat bytes.length) =
      .ok [cmd :: bytes] := by
  have hlen : (UInt64.ofNat bytes.length).toNat = bytes.length := by
    rw [UInt64.toNat_ofNat']
    exact Nat.mod_eq_of_lt (by unfold MSG_MAX at h; omega)
  have hsucc : (UInt64.ofNat bytes.length + 1).toNat = bytes.length + 1 := by
    rw [UInt64.toNat_add, hlen, UInt64.toNat_one]
    exact Nat.mod_eq_of_lt (by unfold MSG_MAX at h; omega)
  rw [sendPackets]
  simp only [Option.isSome_some, if_true, Option.getD_some, hlen, hsucc, h, decide_true,
    Bool.true_or, Bool.not_true, Bool.and_false, Bool.false_eq_true, if_false, List.take_length]
  rw [if_neg (by omega), if_neg (by omega)]

/-- A call that has written one packet for every piece. -/
theorem mapM_of_forall {A B : Type} {f : A → Except Fault B} {g : A → B} {l : List A}
    (h : ∀ a ∈ l, f a = .ok (g a)) : l.mapM f = .ok (l.map g) := by
  induction l with
  | nil => rfl
  | cons a l ih =>
    rw [List.mapM_cons, h a (List.mem_cons_self ..), ih fun b hb => h b (List.mem_cons_of_mem a hb)]
    rfl

/-- The length of what is sent. -/
theorem toNat_size (data : Buffer) : data.size.toNat = data.bytes.length ∧
    (data.size + 1).toNat = data.bytes.length + 1 := by
  have hlt := data.length_lt
  have hlen : data.size.toNat = data.bytes.length := by
    rw [Buffer.size, UInt64.toNat_ofNat']
    exact Nat.mod_eq_of_lt (by omega)
  refine ⟨hlen, ?_⟩
  rw [UInt64.toNat_add, hlen, UInt64.toNat_one]
  exact Nat.mod_eq_of_lt (by omega)

/-- What the arguments of `send_packet` are for a buffer, or for a null pointer. -/
def sendBuffer (asserts : Bool) (depth : ℕ) (cmd : UInt8) (data : Option Buffer) :
    Except Fault (List (List UInt8)) :=
  sendPackets asserts depth cmd (data.map Buffer.bytes) ((data.map Buffer.size).getD 0)

/-- The bytes of a buffer, none if there is no buffer. -/
def bytesOf (data : Option Buffer) : List UInt8 := (data.map Buffer.bytes).getD []

/-- **`send_packet` calls itself at most once.**  What its assertion accepts it sends. -/
theorem sendPackets_eq (data : Option Buffer) (depth : ℕ)
    (h : (bytesOf data).length < MSG_MAX ∨ cmd = REQ_BCASTMSG) :
    sendBuffer asserts (depth + 2) cmd data = .ok (packetsOf cmd (bytesOf data)) := by
  cases data with
  | none =>
    rw [sendBuffer, sendPackets, packetsOf]
    simp [bytesOf, MSG_MAX]
  | some data =>
    obtain ⟨hlen, hsucc⟩ := toNat_size data
    have hassert : (asserts && !(decide (data.bytes.length < MSG_MAX) || cmd == REQ_BCASTMSG)) =
        false := by
      rcases h with h | h
      · simp [show data.bytes.length < MSG_MAX from h]
      · simp [h]
    rw [sendBuffer, sendPackets]
    simp only [Option.map_some, Option.getD_some, Option.isSome_some, if_true, hlen, hsucc, hassert,
      Bool.false_eq_true, if_false, List.take_length]
    rw [packetsOf]
    by_cases hsplit : cmd = REQ_BCASTMSG ∧ MSG_MAX < data.bytes.length + 1
    · rw [if_pos hsplit]
      have hpieces := mapM_of_forall (l := splitMessage data.bytes) (g := fun piece => [cmd :: piece])
        (f := fun piece => sendPackets asserts (depth + 1) cmd (some piece)
          (UInt64.ofNat piece.length)) fun piece hpiece =>
          sendPackets_of_lt (length_of_mem_splitMessage hpiece) depth
      rw [hpieces]
      show Except.ok _ = Except.ok _
      rw [show bytesOf (some data) = data.bytes from rfl, if_pos hsplit, ← List.flatMap_def,
        ← List.map_eq_flatMap]
    · rw [if_neg hsplit, show bytesOf (some data) = data.bytes from rfl, if_neg hsplit]
      have hshort : ¬ MSG_MAX < data.bytes.length + 1 := by
        rcases h with h | h
        · exact Nat.not_lt_of_le h
        · exact fun hlong => hsplit ⟨h, hlong⟩
      rw [if_neg hshort]

/-- **The packets are the message**, whatever its length. -/
theorem packetsOf_exact (cmd : UInt8) {bytes : List UInt8}
    (h : bytes.length < MSG_MAX ∨ cmd = REQ_BCASTMSG) :
    (∀ pkt ∈ packetsOf cmd bytes, pkt.head? = some cmd ∧ 1 ≤ pkt.length ∧ pkt.length ≤ MSG_MAX) ∧
      (packetsOf cmd bytes).flatMap List.tail = bytes ∧
      (cmd ≠ REQ_BCASTMSG → (packetsOf cmd bytes).length = 1) := by
  unfold packetsOf
  split
  · rename_i hsplit
    refine ⟨fun pkt hpkt => ?_, ?_, fun hne => absurd hsplit.1 hne⟩
    · obtain ⟨piece, hpiece, rfl⟩ := List.mem_map.mp hpkt
      exact ⟨rfl, Nat.succ_le_succ (Nat.zero_le _), length_of_mem_splitMessage hpiece⟩
    · rw [List.flatMap_map]
      show (splitMessage bytes).flatMap (fun piece => piece) = bytes
      rw [List.flatMap_id', flatten_splitMessage]
  · rename_i hsplit
    refine ⟨fun pkt hpkt => ?_, by simp, fun _ => rfl⟩
    obtain rfl := List.mem_singleton.mp hpkt
    refine ⟨rfl, Nat.succ_le_succ (Nat.zero_le _), ?_⟩
    rw [List.length_cons]
    rcases h with h | h
    · exact h
    · exact Nat.le_of_not_lt fun hlong => hsplit ⟨h, hlong⟩

/-- **Splitting is exact.**  What the assertion of `send_packet` accepts is sent, however deep it
may call itself, from once on: in packets of at most `MSG_MAX` bytes that have the command in front
and together the data. -/
theorem sendPacket_exact (asserts : Bool) (cmd : UInt8) (data : Option Buffer)
    (h : (bytesOf data).length < MSG_MAX ∨ cmd = REQ_BCASTMSG) :
    ∃ packets, (∀ depth, sendBuffer asserts (depth + 2) cmd data = .ok packets) ∧
      (∀ pkt ∈ packets, pkt.head? = some cmd ∧ 1 ≤ pkt.length ∧ pkt.length ≤ MSG_MAX) ∧
      packets.flatMap List.tail = bytesOf data ∧ (cmd ≠ REQ_BCASTMSG → packets.length = 1) :=
  ⟨packetsOf cmd (bytesOf data), fun depth => sendPackets_eq data depth h, packetsOf_exact cmd h⟩

/-- A message of two full packets and one byte. -/
def longMessage : Buffer := ⟨List.replicate (2 * (MSG_MAX - 1) + 1) 97, by rw [List.length_replicate]; decide⟩

/-- It is split into three packets at least. -/
theorem sendPacket_exact_longMessage :
    ∃ packets, (∀ depth, sendBuffer true (depth + 2) REQ_BCASTMSG (some longMessage) = .ok packets) ∧
      (∀ pkt ∈ packets, pkt.head? = some REQ_BCASTMSG ∧ 1 ≤ pkt.length ∧ pkt.length ≤ MSG_MAX) ∧
      packets.flatMap List.tail = List.replicate 8191 97 ∧ 3 ≤ packets.length := by
  obtain ⟨packets, hsent, hpackets, hdata, -⟩ :=
    sendPacket_exact true REQ_BCASTMSG (some longMessage) (Or.inr rfl)
  refine ⟨packets, hsent, hpackets, hdata, ?_⟩
  have hshort : ∀ n ∈ packets.map fun pkt => pkt.tail.length, n ≤ MSG_MAX - 1 := by
    intro n hn
    obtain ⟨pkt, hpkt, rfl⟩ := List.mem_map.mp hn
    rw [List.length_tail]
    exact Nat.sub_le_sub_right (hpackets pkt hpkt).2.2 1
  have hsum := List.sum_le_card_nsmul _ _ hshort
  have hbytes : bytesOf (some longMessage) = List.replicate (2 * (MSG_MAX - 1) + 1) 97 := rfl
  rw [← List.length_flatMap, hdata, hbytes, List.length_replicate, List.length_map, smul_eq_mul, MSG_MAX] at hsum
  omega

/-- **What the model of the master writes** are these packets. -/
theorem sendPacket_eq_sendPackets {child : UInt32} {datalen : ℕ} (data : Buffer)
    (hlen : data.bytes.length = datalen) (h : datalen < MSG_MAX ∨ cmd = REQ_BCASTMSG) :
    ∃ pieces : List (List UInt8), sendBuffer asserts 2 cmd (some data) = .ok (pieces.map (cmd :: ·)) ∧
      sendPacket asserts child cmd data.bytes datalen =
        .ok (pieces.map fun piece => .wrote child (.raw cmd piece)) := by
  subst hlen
  have hassert : (asserts && !(decide (data.bytes.length < MSG_MAX) || cmd == REQ_BCASTMSG)) =
      false := by
    rcases h with h | h
    · simp [h]
    · simp [h]
  have hsend : sendBuffer asserts 2 cmd (some data) =
      .ok (packetsOf cmd (bytesOf (some data))) := sendPackets_eq (some data) 0 h
  rw [show bytesOf (some data) = data.bytes from rfl, packetsOf] at hsend
  rw [sendPacket, hassert, if_neg Bool.false_ne_true, if_neg (Nat.lt_irrefl _), List.take_length]
  by_cases hsplit : cmd = REQ_BCASTMSG ∧ MSG_MAX < data.bytes.length + 1
  · rw [if_pos hsplit] at hsend ⊢
    exact ⟨splitMessage data.bytes, hsend, rfl⟩
  · rw [if_neg hsplit] at hsend ⊢
    refine ⟨[data.bytes], hsend, if_neg fun hlong => ?_⟩
    rcases h with h | h
    · omega
    · exact hsplit ⟨h, hlong⟩

end NetCosm
