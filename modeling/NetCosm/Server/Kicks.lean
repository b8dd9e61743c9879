import NetCosm.Server.Broadcasts
import NetCosm.Server.Waiting

/-!
# Who is thrown out

`req_kick_client` and `req_kick_always` write `REQ_KICK` to children, and a client that reads it exits, whatever it
is doing: it may wait for a line, or for a reply, or read the message of somebody else.  Between the request of the
administrator and the end of the process there are two pipes and any number of steps of others.

`kicks_exact` says that all the same nobody is thrown out but who is meant, and that nobody who is meant can stay:
in every run a client is doomed exactly if a request was handled that kicks it, and it exits when it has read what
is then in its pipe.
-/

namespace NetCosm

namespace Replies

variable {σ : Type} {env : ClientEnv σ}

instance (cmd : UInt8) (data : List UInt8) (sender pid : UInt32) : Decidable (Kicks cmd data sender pid) :=
  inferInstanceAs (Decidable (_ ∨ _))

/-! ## One client -/

namespace Peer

variable {p : Peer} {k : ℕ}

/-- The client has exited, or one of the next `k` packets is a kick. -/
def DoomedWithin (k : ℕ) (p : Peer) : Prop :=
  p.mode = .exited ∨ ∃ u ∈ p.unread.take k, u.packet.code = REQ_KICK

/-- The client has exited, or there is a kick in its pipe. -/
def Doomed (p : Peer) : Prop := p.mode = .exited ∨ ∃ u ∈ p.unread, u.packet.code = REQ_KICK

theorem doomed_iff : p.Doomed ↔ p.DoomedWithin p.unread.length := by
  rw [Doomed, DoomedWithin, List.take_length]

/-- A kick, and only that, makes a client exit. -/
theorem receive_eq_exited {mode : Mode} (hmode : mode ≠ .exited) {w : Written} :
    receive mode w = .exited ↔ w.code = REQ_KICK := by
  unfold receive
  split
  · rename_i hkick
    exact iff_of_true rfl hkick
  · rename_i hkick
    refine iff_of_false ?_ hkick
    split
    · simp
    · cases mode with
      | exited => exact absurd rfl hmode
      | reading | polling | waiting n => simp

/-- What a client sends does not matter. -/
theorem doomedWithin_send (cmd : UInt8) (data : List UInt8) (short : data.length + 5 ≤ MSG_MAX) :
    (p.send cmd data short).DoomedWithin k ↔ p.DoomedWithin k := by
  rcases p.send_cases cmd data short with hsend | ⟨hmode, hsend⟩
  · rw [hsend]
  · rw [hsend, DoomedWithin, DoomedWithin, hmode]
    exact or_congr_left (iff_of_false (by simp) (by simp))

theorem doomed_send (cmd : UInt8) (data : List UInt8) (short : data.length + 5 ≤ MSG_MAX) :
    (p.send cmd data short).Doomed ↔ p.Doomed := by
  rw [doomed_iff, doomed_iff, doomedWithin_send]
  rcases p.send_cases cmd data short with hsend | ⟨-, hsend⟩ <;> rw [hsend]
  exact Iff.rfl

/-- **A packet is read.**  If it is the kick, the client exits, and otherwise the kick is one place nearer. -/
theorem DoomedWithin.poll (h : p.DoomedWithin k) : p.poll.DoomedWithin (k - 1) := by
  by_cases hmode : p.mode = .exited
  · have hpoll : p.poll = p := by rw [Peer.poll, hmode]
    rw [hpoll]
    exact Or.inl hmode
  · obtain ⟨v, hv, hkick⟩ := h.resolve_left hmode
    cases hunread : p.unread with
    | nil =>
      rw [hunread, List.take_nil] at hv
      exact absurd hv List.not_mem_nil
    | cons u rest =>
      have hpoll := poll_of_ne hmode hunread
      obtain ⟨-, hrest, -⟩ := read_succ hunread
      have hunread' : p.poll.unread = rest := by rw [hpoll]; exact hrest
      rw [hunread] at hv
      cases k with
      | zero => exact absurd hv List.not_mem_nil
      | succ k =>
        rcases List.mem_cons.mp hv with rfl | hv
        · refine Or.inl ?_
          rw [hpoll]
          exact (receive_eq_exited hmode).mpr hkick
        · refine Or.inr ⟨v, ?_, hkick⟩
          rwa [hunread']

/-- Reading neither saves nor dooms a client. -/
theorem doomed_poll : p.poll.Doomed ↔ p.Doomed := by
  by_cases hmode : p.mode = .exited
  · have hpoll : p.poll = p := by rw [Peer.poll, hmode]
    rw [hpoll]
  · refine ⟨fun h => ?_, fun h => ?_⟩
    · rcases poll_cases p with hpoll | ⟨u, rest, hunread, hpoll⟩
      · rwa [hpoll] at h
      · obtain ⟨-, hrest, -⟩ := read_succ hunread
        have hunread' : p.poll.unread = rest := by rw [hpoll]; exact hrest
        refine Or.inr ?_
        rw [hunread]
        rcases h with hexited | ⟨v, hv, hkick⟩
        · rw [hpoll] at hexited
          exact ⟨u, List.mem_cons_self, (receive_eq_exited hmode).mp hexited⟩
        · rw [hunread'] at hv
          exact ⟨v, List.mem_cons_of_mem _ hv, hkick⟩
    · have hwithin := (doomed_iff.mp h).poll
      refine hwithin.imp_right fun hwithin => ?_
      obtain ⟨u, hu, hkick⟩ := hwithin
      exact ⟨u, List.mem_of_mem_take hu, hkick⟩

/-- Packets are written behind the others. -/
theorem DoomedWithin.deliver (h : p.DoomedWithin k) (hread : p.read ≤ p.written.length) (pid : UInt32)
    (ticket : Ticket) (log : List Event) : (p.deliver pid ticket log).DoomedWithin k := by
  refine h.imp_right fun ⟨u, hu, hkick⟩ => ⟨u, ?_, hkick⟩
  rw [unread_deliver hread, List.take_append]
  exact List.mem_append_left _ hu

/-- **Packets are written**, and there may be a kick among them. -/
theorem doomed_deliver (hread : p.read ≤ p.written.length) (pid : UInt32) (ticket : Ticket) (log : List Event) :
    (p.deliver pid ticket log).Doomed ↔ p.Doomed ∨ ∃ w, .wrote pid w ∈ log ∧ w.code = REQ_KICK := by
  rw [Doomed, Doomed, unread_deliver hread, or_assoc]
  refine or_congr_right ⟨fun ⟨u, hu, hkick⟩ => ?_, fun h => ?_⟩
  · rcases List.mem_append.mp hu with hu | hu
    · exact Or.inl ⟨u, hu, hkick⟩
    · exact Or.inr ⟨u.packet, (mem_delivered hu).2, hkick⟩
  · rcases h with ⟨u, hu, hkick⟩ | ⟨w, hw, hkick⟩
    · exact ⟨u, List.mem_append_left _ hu, hkick⟩
    · exact ⟨⟨ticket, w⟩, List.mem_append_right _ (mem_delivered_of_wrote ticket hw), hkick⟩

end Peer

/-! ## The whole system -/

namespace System

variable {s s' : System σ}

/-- The sender, if a request that kicks the child is handled in this step. -/
def kickers (env : ClientEnv σ) (pid : UInt32) (s : System σ) : Op → List UInt32
  | .handle sender =>
      match (s.peers sender).requests.head?, s.dispatch.server.master.child env.asserts sender with
      | some r, some _ => if Kicks r.cmd r.data sender pid then [sender] else []
      | _, _ => []
  | .connect _ _ | .disconnect _ | .send _ _ _ _ | .poll _ => []

/-- Those who kick the child in a run. -/
def kickedBy (env : ClientEnv σ) (s : System σ) (ops : List Op) (pid : UInt32) : List UInt32 :=
  Runs.outputs (System.step env) (kickers env pid) s ops

/-- **One step**: it dooms a child exactly if somebody kicks it. -/
theorem Live.doomed_step (h : s.Live env) (hquiet : NeverKicks env) {op : Op} (hs : s.step env op = .ok s')
    {pid : UInt32} (hop : op ≠ .disconnect pid) (hlisted : s.Listed env pid) :
    (s'.peers pid).Doomed ↔ (s.peers pid).Doomed ∨ kickers env pid s op ≠ [] := by
  have hpeer := (stepped_step h.manned.sound hs).peers pid
  generalize s'.peers pid = p' at hpeer
  cases hpeer with
  | idle _ hhandle =>
    have hnone : kickers env pid s op = [] := by
      cases op with
      | handle sender => rw [kickers, hhandle sender rfl, List.head?_nil]
      | _ => rfl
    rw [hnone]
    simp
  | start hnone => exact absurd hlisted hnone
  | exit => exact absurd rfl hop
  | send cmd data short =>
    rw [Peer.doomed_send]
    simp [kickers]
  | poll =>
    rw [Peer.doomed_poll]
    simp [kickers]
  | @handle sender r requests log hr _ _ habsent hshared =>
    have hread : (s.peers pid).read ≤ (s.peers pid).written.length := (h.served pid).read_le
    rw [Peer.doomed_deliver (p := { s.peers pid with requests }) hread]
    refine or_congr Iff.rfl ?_
    rw [kickers, hr]
    cases hsender : s.dispatch.server.master.child env.asserts sender with
    | none =>
      rw [habsent (by simp [Listed, hsender])]
      simp
    | some c =>
      have hhere := hshared (by simp [Listed, hsender]) hlisted
      dsimp only
      split
      · rename_i hkicks
        obtain ⟨bytes, hmem⟩ := hhere.kicked hkicks
        exact iff_of_true ⟨_, hmem, rfl⟩ (by simp)
      · rename_i hkicks
        refine iff_of_false (fun hkick => ?_) (by simp)
        obtain ⟨w, hw, hkick⟩ := hkick
        exact hhere.spared hquiet hkicks w hw hkick

/-- **One step, for a client that is to exit.**  No step but a new process saves it. -/
theorem Live.doomedWithin_step (h : s.Live env) {op : Op} (hs : s.step env op = .ok s') {pid : UInt32}
    (hop : ∀ addr, op ≠ .connect pid addr) {k : ℕ} (hdoomed : (s.peers pid).DoomedWithin k) :
    (s'.peers pid).DoomedWithin (if Op.polls pid op then k - 1 else k) := by
  have hpeer := (stepped_step h.manned.sound hs).peers pid
  generalize s'.peers pid = p' at hpeer
  cases hpeer with
  | idle hpoll =>
    rw [polls_of_ne hpoll]
    exact hdoomed
  | start _ => exact absurd rfl (hop _)
  | exit => exact Or.inl rfl
  | send cmd data short => exact (Peer.doomedWithin_send cmd data short).mpr hdoomed
  | poll =>
    rw [Op.polls, beq_self_eq_true, if_pos rfl]
    exact hdoomed.poll
  | @handle sender r requests log =>
    have hread : (s.peers pid).read ≤ (s.peers pid).written.length := (h.served pid).read_le
    have hsame : ({ s.peers pid with requests } : Peer).DoomedWithin k := hdoomed
    exact hsame.deliver hread _ _ _

end System

/-- **Kicks are exact.**  From any state that is reached, in every run: a child that stays, and is not doomed yet,
is doomed in the end exactly if somebody has kicked it.  If it is, then whatever happens next, it has exited when
it has read as many packets as there were. -/
theorem kicks_exact (env : ClientEnv σ) (hquiet : NeverKicks env) (rooms : List RoomSetup)
    (users : CString → Option UserData) (world : σ) {before ops : List Op} {s s' : System σ}
    (hbefore : Runs.run (System.step env) (System.start rooms users world) before = .ok s)
    (hrun : Runs.run (System.step env) s ops = .ok s') {pid : UInt32} (hstays : s.Attends env ops pid)
    (hfree : ¬ (s.peers pid).Doomed) :
    ((s'.peers pid).Doomed ↔ s.kickedBy env ops pid ≠ []) ∧
      ((s'.peers pid).Doomed → ∀ (later : List Op) (t : System σ), (∀ addr, Op.connect pid addr ∉ later) →
        Runs.run (System.step env) s' later = .ok t →
        (s'.peers pid).unread.length ≤ later.countP (Op.polls pid) → (t.peers pid).mode = .exited) := by
  have hlive : s.Live env :=
    Runs.invariant_run (fun _ _ _ hs hstep => hs.step hstep) (System.live_start env rooms users world) hbefore
  have hlive' : s'.Live env := Runs.invariant_run (fun _ _ _ hs hstep => hs.step hstep) hlive hrun
  refine ⟨?_, fun hdoomed later t hconnect hlater hreads => ?_⟩
  · have hall : (s'.peers pid).Doomed ↔ (s.peers pid).Doomed ∨ s.kickedBy env ops pid ≠ [] := by
      refine (Runs.outputs_run (J := fun s => s.Live env ∧ s.Listed env pid)
        (R := fun s s' ks => (s'.peers pid).Doomed ↔ (s.peers pid).Doomed ∨ ks ≠ [])
        (p := fun op => op ≠ .disconnect pid) (fun s => by simp) (fun s t u bs cs h₁ h₂ => ?_) ?_
        ⟨hlive, hstays.1⟩ ?_ hrun).2
      · rw [h₂, h₁, or_assoc, ← not_and_or, ← List.append_eq_nil_iff]
      · intro s op s' hJ hop hstep
        exact ⟨⟨hJ.1.step hstep, (System.stepped_step hJ.1.manned.sound hstep).kept pid hop hJ.2⟩,
          hJ.1.doomed_step hquiet hstep hop hJ.2⟩
      · rintro op hop rfl
        exact hstays.2 hop
    rw [hall]
    exact or_iff_right hfree
  · have hops : ∀ op ∈ later, ∀ addr, op ≠ .connect pid addr := by
      rintro op hop addr rfl
      exact hconnect addr hop
    have hwithin := (Runs.countdown_run (J := fun k s => s.Live env ∧ (s.peers pid).DoomedWithin k)
      (p := fun op => ∀ addr, op ≠ .connect pid addr) (q := Op.polls pid)
      (fun k s op s' hop hJ hstep => ⟨hJ.1.step hstep, hJ.1.doomedWithin_step hstep hop hJ.2⟩)
      ⟨hlive', Peer.doomed_iff.mp hdoomed⟩ hops hlater).2
    rw [Nat.sub_eq_zero_of_le hreads] at hwithin
    refine hwithin.resolve_right fun ⟨u, hu, _⟩ => ?_
    rw [List.take_zero] at hu
    exact absurd hu List.not_mem_nil

instance (p : Peer) : Decidable p.Doomed :=
  inferInstanceAs (Decidable (p.mode = .exited ∨ ∃ u ∈ p.unread, u.packet.code = REQ_KICK))

/-- The child 7 kicks 9. -/
def sampleKick : List Op := [.send 7 REQ_KICK [9, 0, 0, 0] (by decide), .handle 7]

/-- The child 9 exits. -/
theorem nine_exits :
    ∃ s s' t, Runs.run (System.step quietEnv) sampleStart sampleHall = .ok s ∧
      Runs.run (System.step quietEnv) s sampleKick = .ok s' ∧ s.kickedBy quietEnv sampleKick 9 = [7] ∧
      Runs.run (System.step quietEnv) s' [.poll 9] = .ok t ∧ (t.peers 9).mode = .exited := by
  have hcheck : (Runs.run (System.step quietEnv) sampleStart sampleHall).toOption.any (fun s =>
      ((s.dispatch.server.master.child true 9).isSome && decide (¬ (s.peers 9).Doomed)) &&
        (Runs.run (System.step quietEnv) s sampleKick).toOption.any fun s' =>
          (decide (s.kickedBy quietEnv sampleKick 9 = [7]) && decide ((s'.peers 9).unread.length ≤ 1)) &&
            (Runs.run (System.step quietEnv) s' [.poll 9]).toOption.any fun _ => true) = true := by
    decide +kernel
  obtain ⟨s, hs, hcheck⟩ := exists_of_any_toOption hcheck
  obtain ⟨hstart, hcheck⟩ := Bool.and_eq_true_iff.mp hcheck
  obtain ⟨hlisted, hfree⟩ := Bool.and_eq_true_iff.mp hstart
  obtain ⟨s', hs', hcheck⟩ := exists_of_any_toOption hcheck
  obtain ⟨hmiddle, hcheck⟩ := Bool.and_eq_true_iff.mp hcheck
  obtain ⟨hkicked, hunread⟩ := Bool.and_eq_true_iff.mp hmiddle
  obtain ⟨t, ht, -⟩ := exists_of_any_toOption hcheck
  have hquiet : NeverKicks quietEnv := fun _ _ _ a _ ha => by
    obtain rfl := Except.ok.inj ha
    exact List.not_mem_nil
  have hkicked : s.kickedBy quietEnv sampleKick 9 = [7] := of_decide_eq_true hkicked
  obtain ⟨hiff, hexits⟩ := kicks_exact quietEnv hquiet _ _ () hs hs' ⟨hlisted, by simp [sampleKick]⟩
    (of_decide_eq_true hfree)
  exact ⟨s, s', t, hs, hs', hkicked, ht,
    hexits (hiff.mpr (by simp [hkicked])) [.poll 9] t (by simp) ht (of_decide_eq_true hunread)⟩

end Replies

end NetCosm
