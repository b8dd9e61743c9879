import NetCosm.Client.Output
import NetCosm.Server.Packets

/-!
# From the master to the terminal

A message is cut into packets by `send_packet` in the master, and the client takes the packets one
by one in `poll_requests`.  There the data of a packet is given to `out`, as the format: a `%` in it
begins a conversion, and `vsnprintf` writes at most 1023 bytes of what comes out.

What `vsnprintf` makes of a conversion depends on arguments that are not there, so it is a parameter
here, `expand`.  All that is assumed of it is what it does with a format that has no conversions but
`%%`, which it prints as `%`.

`handed` is the text the wrapping loop of `out` gets of all the packets.  It is the message if that
has no `%` and at most 1023 bytes (`handed_of_plain`), and it is not if there are more bytes, or if
every `%` is one of a pair (`handed_eq_iff`).
-/

namespace NetCosm

/-- `%`. -/
def PERCENT : UInt8 := 37

/-- What is printed of a format that has no conversions but `%%`; none if it has others. -/
def printed : List UInt8 → Option (List UInt8)
  | [] => some []
  | [c] => if c = PERCENT then none else some [c]
  | c :: d :: fmt =>
      if c = PERCENT then
        if d = PERCENT then (printed fmt).map (PERCENT :: ·) else none
      else (printed (d :: fmt)).map (c :: ·)

/-- What is relied on of `vsnprintf`. -/
def Prints (expand : CString → CString) : Prop :=
  ∀ fmt text, printed fmt.bytes = some text → (expand fmt).bytes = text

/-- The text `out` wraps when `poll_requests` has read a packet: the packet is in a buffer of zeros,
and its data is the format. -/
def pollText (expand : CString → CString) (pkt : List UInt8) : List UInt8 :=
  formatted (expand (CString.ofBuffer
    ((pkt ++ List.replicate (MSG_MAX + 1 - pkt.length) 0).drop 1)))

/-- The text `out` wraps of all the packets. -/
def handed (expand : CString → CString) (packets : List (List UInt8)) : List UInt8 :=
  packets.flatMap (pollText expand)

/-! ## Formats -/

theorem printed_cons_of_ne {c : UInt8} (hc : c ≠ PERCENT) (fmt : List UInt8) :
    printed (c :: fmt) = (printed fmt).map (c :: ·) := by
  cases fmt with
  | nil => simp only [printed, if_neg hc, Option.map_some]
  | cons d fmt => rw [printed, if_neg hc]

theorem printed_of_not_mem {fmt : List UInt8} (h : PERCENT ∉ fmt) : printed fmt = some fmt := by
  induction fmt with
  | nil => rfl
  | cons c fmt ih =>
    rw [List.mem_cons, not_or] at h
    rw [printed_cons_of_ne (Ne.symm h.1), ih h.2]
    rfl

/-- A pair is printed as one character. -/
theorem length_printed {fmt text : List UInt8} (h : printed fmt = some text) :
    text.length ≤ fmt.length ∧ (PERCENT ∈ fmt → text.length < fmt.length) := by
  induction fmt using printed.induct generalizing text with
  | case1 =>
    obtain rfl := Option.some.inj h
    exact ⟨Nat.le_refl _, fun hmem => absurd hmem List.not_mem_nil⟩
  | case2 => exact absurd h (by simp [printed])
  | case3 c hc =>
    rw [printed, if_neg hc] at h
    obtain rfl := Option.some.inj h
    exact ⟨Nat.le_refl _, fun hmem => absurd (List.mem_singleton.mp hmem).symm hc⟩
  | case4 fmt ih =>
    rw [printed, if_pos rfl, if_pos rfl] at h
    obtain ⟨later, hlater, rfl⟩ := Option.map_eq_some_iff.mp h
    have hle := (ih hlater).1
    simp only [List.length_cons]
    exact ⟨by omega, fun _ => by omega⟩
  | case5 d fmt hd =>
    rw [printed, if_pos rfl, if_neg hd] at h
    exact absurd h (by simp)
  | case6 c d fmt hc ih =>
    rw [printed_cons_of_ne hc] at h
    obtain ⟨later, hlater, rfl⟩ := Option.map_eq_some_iff.mp h
    obtain ⟨hle, hlt⟩ := ih hlater
    rw [List.length_cons, @List.length_cons _ c (d :: fmt)]
    refine ⟨Nat.succ_le_succ hle, fun hmem => Nat.succ_lt_succ (hlt ?_)⟩
    exact (List.mem_cons.mp hmem).resolve_left (Ne.symm hc)

/-! ## Packets -/

variable {expand : CString → CString} {cmd : UInt8}

/-- The format is the data of the packet. -/
theorem pollText_cons {m : CString} (hlen : m.bytes.length < MSG_MAX) :
    pollText expand (cmd :: m.bytes) = formatted (expand m) := by
  have hbuf : CString.ofBuffer
      (((cmd :: m.bytes) ++ List.replicate (MSG_MAX + 1 - (cmd :: m.bytes).length) 0).drop 1) =
      m := by
    refine CString.ext ?_
    have hne : MSG_MAX + 1 - (cmd :: m.bytes).length ≠ 0 := by
      rw [List.length_cons]
      omega
    obtain ⟨k, hk⟩ := Nat.exists_eq_succ_of_ne_zero hne
    rw [hk]
    show (m.bytes ++ List.replicate (k + 1) 0).takeWhile (· != 0) = m.bytes
    rw [List.takeWhile_append_of_pos, List.replicate_succ, List.takeWhile_cons_of_neg (by simp),
      List.append_nil]
    intro c hc
    rw [bne_iff_ne]
    rintro rfl
    exact m.2 hc
  rw [pollText, hbuf]

theorem length_pollText_le (pkt : List UInt8) : (pollText expand pkt).length ≤ 1023 :=
  List.length_take_le _ _

/-- A quarter of a message, and what one packet may have. -/
theorem length_handed_le (msg : List UInt8) :
    4 * (handed expand ((splitMessage msg).map (cmd :: ·))).length ≤ msg.length + 4 * 1023 := by
  induction msg using splitMessage.induct with
  | case1 =>
    rw [splitMessage, dif_pos rfl]
    exact Nat.zero_le _
  | case2 msg hne ih =>
    have hone : (pollText expand (cmd :: msg.take (MSG_MAX - 1))).length ≤ 1023 :=
      length_pollText_le _
    rw [splitMessage, dif_neg hne, List.map_cons, handed, List.flatMap_cons, List.length_append]
    rw [handed, List.length_drop] at ih
    by_cases hlong : MSG_MAX - 1 < msg.length
    · unfold MSG_MAX at *
      omega
    · rw [List.drop_eq_nil_of_le (Nat.le_of_not_lt hlong), splitMessage, dif_pos rfl]
      show 4 * (_ + 0) ≤ _
      omega

/-- **A message without `%` and of at most 1023 bytes** arrives. -/
theorem handed_of_plain (hexpand : Prints expand) {m : CString} (hpercent : PERCENT ∉ m.bytes)
    (hlen : m.length ≤ 1023) : handed expand (packetsOf REQ_BCASTMSG m.bytes) = m.bytes := by
  have hshort : m.bytes.length < MSG_MAX := Nat.lt_of_le_of_lt hlen (by decide)
  have hsplit : ¬ (REQ_BCASTMSG = REQ_BCASTMSG ∧ MSG_MAX < m.bytes.length + 1) :=
    fun h => Nat.not_lt_of_le hshort h.2
  rw [packetsOf, if_neg hsplit, handed, List.flatMap_singleton, pollText_cons hshort,
    formatted, hexpand m m.bytes (printed_of_not_mem hpercent)]
  exact List.take_of_length_le hlen

/-- **A message that is longer**, or has only pairs of `%`, does not. -/
theorem plain_of_handed (hexpand : Prints expand) {m : CString}
    (h : handed expand (packetsOf REQ_BCASTMSG m.bytes) = m.bytes) :
    m.length ≤ 1023 ∧ ((printed m.bytes).isSome → PERCENT ∉ m.bytes) := by
  have hlength := congrArg List.length h
  by_cases hsplit : REQ_BCASTMSG = REQ_BCASTMSG ∧ MSG_MAX < m.bytes.length + 1
  · rw [packetsOf, if_pos hsplit] at hlength
    have hle : 4 * (handed expand ((splitMessage m.bytes).map (REQ_BCASTMSG :: ·))).length ≤
        m.bytes.length + 4 * 1023 := length_handed_le m.bytes
    have hlong := hsplit.2
    unfold MSG_MAX at hlong
    omega
  · have hshort : m.bytes.length < MSG_MAX := Nat.lt_of_not_le fun hle => hsplit ⟨rfl, Nat.lt_succ_of_le hle⟩
    rw [packetsOf, if_neg hsplit, handed, List.flatMap_singleton, pollText_cons hshort] at hlength
    have hle : m.length ≤ 1023 := Nat.le_trans (Nat.le_of_eq hlength.symm) (List.length_take_le _ _)
    refine ⟨hle, fun hprinted hmem => ?_⟩
    obtain ⟨text, htext⟩ := Option.isSome_iff_exists.mp hprinted
    have hlt := (length_printed htext).2 hmem
    have hcut : (formatted (expand m)).length ≤ text.length := by
      rw [formatted, hexpand m text htext]
      exact List.length_take_le' _ _
    have heq : (formatted (expand m)).length = m.bytes.length := hlength
    omega

/-- **Messages that arrive as they are.**  Those without `%` and of at most 1023 bytes do; of the
others none does that is longer, or in which every `%` is one of a pair. -/
theorem handed_eq_iff (asserts : Bool) (hexpand : Prints expand) (m : CString)
    (hm : m.bytes.length < 2 ^ 63) :
    ∃ packets, (∀ depth, sendBuffer asserts (depth + 2) REQ_BCASTMSG (some ⟨m.bytes, hm⟩) =
        .ok packets) ∧
      (PERCENT ∉ m.bytes ∧ m.length ≤ 1023 → handed expand packets = m.bytes) ∧
      (1023 < m.length ∨ (printed m.bytes).isSome →
        (handed expand packets = m.bytes ↔ PERCENT ∉ m.bytes ∧ m.length ≤ 1023)) := by
  refine ⟨packetsOf REQ_BCASTMSG m.bytes, fun depth => sendPackets_eq _ depth (Or.inr rfl),
    fun hplain => handed_of_plain hexpand hplain.1 hplain.2, fun hcase => ⟨fun h => ?_,
      fun hplain => handed_of_plain hexpand hplain.1 hplain.2⟩⟩
  obtain ⟨hle, hpercent⟩ := plain_of_handed hexpand h
  exact ⟨hpercent (hcase.resolve_left (Nat.not_lt_of_le hle)), hle⟩

/-! ### A `vsnprintf` -/

/-- All that is printed was in the format. -/
theorem subset_of_printed {fmt text : List UInt8} (h : printed fmt = some text) : text ⊆ fmt := by
  induction fmt using printed.induct generalizing text with
  | case1 => exact Option.some.inj h ▸ List.Subset.refl _
  | case2 => exact absurd h (by simp [printed])
  | case3 c hc =>
    rw [printed, if_neg hc] at h
    exact Option.some.inj h ▸ List.Subset.refl _
  | case4 fmt ih =>
    rw [printed, if_pos rfl, if_pos rfl] at h
    obtain ⟨later, hlater, rfl⟩ := Option.map_eq_some_iff.mp h
    exact List.cons_subset_cons _ fun c hc => List.mem_cons_of_mem _ (ih hlater hc)
  | case5 d fmt hd =>
    rw [printed, if_pos rfl, if_neg hd] at h
    exact absurd h (by simp)
  | case6 c d fmt hc ih =>
    rw [printed_cons_of_ne hc] at h
    obtain ⟨later, hlater, rfl⟩ := Option.map_eq_some_iff.mp h
    exact List.cons_subset_cons _ (ih hlater)

/-- A `vsnprintf` that prints other conversions as they stand. -/
def plainPrintf (fmt : CString) : CString :=
  CString.ofBuffer ((printed fmt.bytes).getD fmt.bytes)

theorem prints_plainPrintf : Prints plainPrintf := by
  intro fmt text htext
  rw [plainPrintf, htext, Option.getD_some]
  show text.takeWhile (· != 0) = text
  rw [List.takeWhile_eq_self_iff]
  intro c hc
  rw [bne_iff_ne]
  rintro rfl
  exact fmt.2 (subset_of_printed htext hc)

/-- A greeting arrives. -/
theorem handed_greeting :
    ∃ packets, (∀ depth, sendBuffer true (depth + 2) REQ_BCASTMSG
        (some ⟨(CString.ofChars "Hello.".toList).bytes, by decide⟩) = .ok packets) ∧
      (PERCENT ∉ (CString.ofChars "Hello.".toList).bytes ∧
          (CString.ofChars "Hello.".toList).length ≤ 1023 →
        handed plainPrintf packets = (CString.ofChars "Hello.".toList).bytes) ∧
      (1023 < (CString.ofChars "Hello.".toList).length ∨
          (printed (CString.ofChars "Hello.".toList).bytes).isSome →
        (handed plainPrintf packets = (CString.ofChars "Hello.".toList).bytes ↔
          PERCENT ∉ (CString.ofChars "Hello.".toList).bytes ∧
            (CString.ofChars "Hello.".toList).length ≤ 1023)) :=
  handed_eq_iff true prints_plainPrintf (.ofChars "Hello.".toList) (by decide)

/-- What a player says who gives a hundred per cent does not. -/
theorem handed_percent :
    ¬ ∃ expand packets, Prints expand ∧
      sendBuffer true 2 REQ_BCASTMSG (some ⟨(CString.ofChars "100%%".toList).bytes, by decide⟩) =
        .ok packets ∧
      handed expand packets = (CString.ofChars "100%%".toList).bytes := by
  rintro ⟨expand, packets, hexpand, hsend, h⟩
  rw [sendPackets_eq _ 0 (Or.inr rfl)] at hsend
  obtain rfl := Except.ok.inj hsend
  exact (plain_of_handed hexpand h).2 (by decide) (by decide)

end NetCosm
