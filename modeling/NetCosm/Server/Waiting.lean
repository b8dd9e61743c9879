import NetCosm.Server.Exchanges

/-!
# A client does not wait for ever

`send_master` does not return before `poll_requests` has seen a `REQ_ALLDONE`.  As `Server/Replies` has it,
messages may end a reply too early, and then requests and ends no longer belong together: a client may wait for
one request while others of its own are still in the pipe, and ends of earlier ones are still to come.  One may
fear that this goes the other way as well, and that there are too few ends.

There are not, because there is never one end less than there are requests.  `waiting_ends` says so for every
interleaving: if a client waits, then its request is in the pipe or an end is on its way, so it does not wait for
nothing; and when the master has come round to the client once, the packets that are then in the pipe are enough
to read.

## What is counted

The end that a client reads next is at some place in its pipe.  Reading moves it one place forward and all else
leaves it where it is, as packets are only added behind it.  So `Peer.EndsWithin` counts down, and
`Runs.countdown_run` says what becomes of it in a run.
-/

namespace NetCosm

namespace Replies

variable {σ : Type} {env : ClientEnv σ}

/-! ## One client -/

namespace Peer

variable {p : Peer} {n k : ℕ}

/-- One of the next `k` packets is the end of a reply. -/
def EndsWithin (k : ℕ) (p : Peer) : Prop := ∃ u ∈ p.unread.take k, u.packet.TellsDone

/-- If the client still waits for its request, it will have left after `k` reads at the latest; and it does not
wait for this request again. -/
structure Leaves (n k : ℕ) (p : Peer) : Prop where
  read_le : p.read ≤ p.written.length
  sent : n < p.sent
  ends : p.mode = .waiting n → p.EndsWithin k

/-- A client does not wait for nothing: if it waits, its request is in the pipe or the end of a reply is. -/
structure Served (p : Peer) : Prop where
  read_le : p.read ≤ p.written.length
  sent : ∀ n, p.mode = .waiting n → n < p.sent
  ends : ∀ n, p.mode = .waiting n → (∀ r ∈ p.requests, r.number ≠ n) → p.EndsWithin p.unread.length

theorem EndsWithin.mono {m : ℕ} (h : p.EndsWithin k) (hkm : k ≤ m) : p.EndsWithin m := by
  obtain ⟨u, hu, hdone⟩ := h
  exact ⟨u, List.take_subset_take_left _ hkm hu, hdone⟩

/-- It ends within what is in the pipe, if at all. -/
theorem EndsWithin.all (h : p.EndsWithin k) : p.EndsWithin p.unread.length := by
  obtain ⟨u, hu, hdone⟩ := h
  exact ⟨u, by rw [List.take_length]; exact List.mem_of_mem_take hu, hdone⟩

/-- Packets are added behind the others. -/
theorem EndsWithin.deliver (h : p.EndsWithin k) (hread : p.read ≤ p.written.length) (pid : UInt32)
    (ticket : Ticket) (log : List Event) : (p.deliver pid ticket log).EndsWithin k := by
  obtain ⟨u, hu, hdone⟩ := h
  refine ⟨u, ?_, hdone⟩
  rw [unread_deliver hread, List.take_append]
  exact List.mem_append_left _ hu

/-- The end of a reply is written. -/
theorem endsWithin_deliver (hread : p.read ≤ p.written.length) {pid : UInt32} (ticket : Ticket)
    {log : List Event} (hlog : allDone pid ∈ log) :
    (p.deliver pid ticket log).EndsWithin (p.deliver pid ticket log).unread.length := by
  refine ⟨⟨ticket, .raw REQ_ALLDONE []⟩, ?_, rfl⟩
  rw [List.take_length, unread_deliver hread]
  exact List.mem_append_right _ (mem_delivered_of_wrote ticket hlog)

/-- **A packet is read.**  The client leaves, or the end is one place nearer. -/
theorem EndsWithin.poll (h : p.EndsWithin k) (hmode : p.mode = .waiting n) {m : ℕ}
    (hstill : p.poll.mode = .waiting m) : m = n ∧ p.poll.EndsWithin (k - 1) := by
  obtain ⟨v, hv, hdone⟩ := h
  cases hunread : p.unread with
  | nil =>
    rw [hunread, List.take_nil] at hv
    exact absurd hv List.not_mem_nil
  | cons u rest =>
    have hpoll := poll_of_ne (by rw [hmode]; simp) hunread
    rw [hmode] at hpoll
    obtain ⟨-, hrest, -⟩ := read_succ hunread
    have hmode' : receive (.waiting n) u.packet = .waiting m := by rw [hpoll] at hstill; exact hstill
    obtain ⟨hm, hnot⟩ := receive_waiting.2.2 m hmode'
    refine ⟨hm, v, ?_, hdone⟩
    have hunread' : p.poll.unread = rest := by rw [hpoll]; exact hrest
    rw [hunread']
    rw [hunread] at hv
    cases k with
    | zero => exact absurd hv List.not_mem_nil
    | succ k =>
      rcases List.mem_cons.mp hv with rfl | hv
      · exact absurd hdone hnot
      · exact hv

/-- What a client that reads comes to wait for it has waited for before. -/
theorem mode_of_poll {m : ℕ} (hstill : p.poll.mode = .waiting m) : p.mode = .waiting m := by
  rcases poll_cases p with h | ⟨u, rest, -, h⟩
  · rwa [h] at hstill
  · have hmode : receive p.mode u.packet = .waiting m := by rw [h] at hstill; exact hstill
    cases hp : p.mode with
    | waiting n =>
      rw [hp] at hmode
      rw [(receive_waiting.2.2 m hmode).1]
    | reading | polling | exited =>
      have hnone := receive_of_not_waiting p.mode (by rw [hp]; rfl) u.packet
      rw [hmode] at hnone
      exact absurd hnone (by simp [Mode.request])

theorem read_le_poll (h : p.read ≤ p.written.length) : p.poll.read ≤ p.poll.written.length := by
  rcases poll_cases p with hpoll | ⟨u, rest, hunread, hpoll⟩
  · rwa [hpoll]
  · rw [hpoll]
    exact (read_succ hunread).1

theorem served_fresh : fresh.Served :=
  ⟨Nat.le_refl _, fun _ h => absurd h (by simp [fresh]), fun _ h => absurd h (by simp [fresh])⟩

/-- A client that has left has left for good. -/
theorem Leaves.mode_ne (h : p.Leaves n 0) : p.mode ≠ .waiting n := by
  intro hmode
  obtain ⟨u, hu, -⟩ := h.ends hmode
  rw [List.take_zero] at hu
  exact absurd hu List.not_mem_nil

/-- A client that waits for another request, or for none, has left. -/
theorem leaves_of_mode_ne (hread : p.read ≤ p.written.length) (hsent : n < p.sent)
    (hmode : p.mode ≠ .waiting n) (k : ℕ) : p.Leaves n k :=
  ⟨hread, hsent, fun h => absurd h hmode⟩

theorem Leaves.all (h : p.Leaves n k) : p.Leaves n p.unread.length :=
  ⟨h.read_le, h.sent, fun hmode => (h.ends hmode).all⟩

end Peer

/-! ## The whole system -/

namespace System

variable {s s' : System σ}

/-- No client waits for nothing. -/
structure Live (env : ClientEnv σ) (s : System σ) : Prop where
  manned : s.Manned env
  served : ∀ pid, (s.peers pid).Served

theorem live_start (env : ClientEnv σ) (rooms : List RoomSetup) (users : CString → Option UserData)
    (world : σ) : (start rooms users world).Live env :=
  ⟨manned_start env rooms users world, fun _ => ⟨Nat.le_refl _, fun _ h => absurd h (by simp [start, Peer.none]),
    fun _ h => absurd h (by simp [start, Peer.none])⟩⟩

/-- **One step**: nobody comes to wait for nothing. -/
theorem Live.step (h : s.Live env) {op : Op} (hs : s.step env op = .ok s') : s'.Live env := by
  refine ⟨h.manned.step hs, fun pid => ?_⟩
  have hpeer := (stepped_step h.manned.sound hs).peers pid
  have hserved := h.served pid
  generalize s'.peers pid = p' at hpeer
  cases hpeer with
  | idle => exact hserved
  | start => exact Peer.served_fresh
  | exit => exact ⟨hserved.read_le, fun _ hmode => absurd hmode (by simp), fun _ hmode => absurd hmode (by simp)⟩
  | send cmd data short =>
    rcases (s.peers pid).send_cases cmd data short with hsend | ⟨-, hsend⟩
    · rwa [hsend]
    · rw [hsend]
      refine ⟨hserved.read_le, fun n hmode => ?_, fun n hmode hnone => ?_⟩
      · obtain rfl := Mode.waiting.inj hmode
        exact Nat.lt_succ_self _
      · obtain rfl := Mode.waiting.inj hmode
        exact absurd rfl (hnone _ (List.mem_append_right _ (List.mem_singleton_self _)))
  | poll =>
    obtain ⟨-, hrequests, hsent⟩ := (s.peers pid).poll_pipes
    refine ⟨Peer.read_le_poll hserved.read_le, fun n hmode => ?_, fun n hmode hnone => ?_⟩
    · rw [hsent]
      exact hserved.sent n (Peer.mode_of_poll hmode)
    · have hbefore := Peer.mode_of_poll hmode
      rw [hrequests] at hnone
      exact ((hserved.ends n hbefore hnone).poll hbefore hmode).2.all
  | @handle sender r requests log _ _ hother _ hshared =>
    refine ⟨hserved.read_le.trans (List.sublist_append_left _ _).length_le, hserved.sent, fun n hmode hnone => ?_⟩
    have hmode' : (s.peers pid).mode = .waiting n := hmode
    by_cases hpid : sender = pid
    · -- the master answers a child that is there, and a client that waits is
      subst hpid
      have hlisted := h.manned.listed sender (by rw [hmode']; simp)
      exact Peer.endsWithin_deliver (p := { s.peers sender with requests }) hserved.read_le _
        ((hshared hlisted hlisted).done rfl)
    · obtain rfl := hother hpid
      exact ((hserved.ends n hmode' hnone).deliver hserved.read_le _ _ _).all

/-- **One step, for a client that is to leave.**  If it reads, the end is one place nearer. -/
theorem leaves_step (h : s.Manned env) {op : Op} (hs : s.step env op = .ok s') {pid : UInt32}
    (hop : op ≠ .disconnect pid) (hlisted : s.Listed env pid) {n k : ℕ} (hleaves : (s.peers pid).Leaves n k) :
    (s'.peers pid).Leaves n (if Op.polls pid op then k - 1 else k) := by
  have hpeer := (stepped_step h.sound hs).peers pid
  generalize s'.peers pid = p' at hpeer
  cases hpeer with
  | idle hpoll =>
    rw [polls_of_ne hpoll]
    exact hleaves
  | start hnone => exact absurd hlisted hnone
  | exit => exact absurd rfl hop
  | send cmd data short =>
    rcases (s.peers pid).send_cases cmd data short with hsend | ⟨-, hsend⟩
    · rw [hsend]
      exact hleaves
    · rw [hsend]
      refine ⟨hleaves.read_le, Nat.lt_succ_of_lt hleaves.sent, fun hmode => ?_⟩
      exact absurd (Mode.waiting.inj hmode).symm hleaves.sent.ne
  | poll =>
    obtain ⟨-, -, hsent⟩ := (s.peers pid).poll_pipes
    rw [Op.polls, beq_self_eq_true, if_pos rfl]
    refine ⟨Peer.read_le_poll hleaves.read_le, hsent ▸ hleaves.sent, fun hmode => ?_⟩
    have hbefore := Peer.mode_of_poll hmode
    exact ((hleaves.ends hbefore).poll hbefore hmode).2
  | handle =>
    exact ⟨hleaves.read_le.trans (List.sublist_append_left _ _).length_le, hleaves.sent,
      fun hmode => (hleaves.ends hmode).deliver hleaves.read_le _ _ _⟩

/-- **A run, for a client that is to leave.** -/
theorem leaves_run (h : s.Manned env) {pid : UInt32} (hlisted : s.Listed env pid) {n k : ℕ}
    (hleaves : (s.peers pid).Leaves n k) {ops : List Op} (hops : Op.disconnect pid ∉ ops)
    (hs : Runs.run (System.step env) s ops = .ok s') :
    (s'.peers pid).Leaves n (k - ops.countP (Op.polls pid)) := by
  refine (Runs.countdown_run (J := fun k s => s.Manned env ∧ s.Listed env pid ∧ (s.peers pid).Leaves n k)
    (p := fun op => op ≠ .disconnect pid) ?_ ⟨h, hlisted, hleaves⟩ ?_ hs).2.2
  · intro k s op s' hop hJ hstep
    exact ⟨hJ.1.step hstep, (stepped_step hJ.1.sound hstep).kept pid hop hJ.2.1,
      leaves_step hJ.1 hstep hop hJ.2.1 hJ.2.2⟩
  · rintro op hop rfl
    exact hops hop

/-- A child that has sent its request number `n`. -/
structure Asked (env : ClientEnv σ) (pid : UInt32) (n : ℕ) (s : System σ) : Prop where
  live : s.Live env
  listed : s.Listed env pid
  sent : n < (s.peers pid).sent

theorem Asked.step {pid : UInt32} {n : ℕ} (h : s.Asked env pid n) {op : Op} (hop : op ≠ .disconnect pid)
    (hs : s.step env op = .ok s') : s'.Asked env pid n := by
  have hstepped := stepped_step h.live.manned.sound hs
  refine ⟨h.live.step hs, hstepped.kept pid hop h.listed, h.sent.trans_le ?_⟩
  have hpeer := hstepped.peers pid
  generalize s'.peers pid = p' at hpeer
  cases hpeer with
  | idle => exact Nat.le_refl _
  | start hnone => exact absurd h.listed hnone
  | exit => exact absurd rfl hop
  | send cmd data short =>
    rcases (s.peers pid).send_cases cmd data short with hsend | ⟨-, hsend⟩
    · rw [hsend]
    · rw [hsend]
      exact Nat.le_succ _
  | poll => exact (s.peers pid).poll_pipes.2.2.ge
  | handle => exact Nat.le_refl _

theorem Asked.run {pid : UInt32} {n : ℕ} (h : s.Asked env pid n) {ops : List Op} (hops : Op.disconnect pid ∉ ops)
    (hs : Runs.run (System.step env) s ops = .ok s') : s'.Asked env pid n := by
  refine (Runs.frame_run (J := fun s => s.Asked env pid n) (R := fun _ _ => True)
    (p := fun op => op ≠ .disconnect pid) (fun _ => trivial) (fun _ _ _ _ _ => trivial)
    (fun _ _ _ hJ hop hstep => ⟨hJ.step hop hstep, trivial⟩) h ?_ hs).1
  rintro op hop rfl
  exact hops hop

/-- **The master comes round to the client.**  If it still waits, the end of a reply is in its pipe. -/
theorem Asked.leaves_handle {pid : UInt32} {n : ℕ} (h : s.Asked env pid n)
    (hs : s.step env (.handle pid) = .ok s') : (s'.peers pid).Leaves n (s'.peers pid).unread.length := by
  have hpeer := (stepped_step h.live.manned.sound hs).peers pid
  have hserved := h.live.served pid
  generalize hp' : s'.peers pid = p' at hpeer
  cases hpeer with
  | idle _ hhandle => exact ⟨hserved.read_le, h.sent, fun hmode =>
      hserved.ends n hmode (by simp [hhandle pid rfl])⟩
  | @handle sender r requests log _ _ _ _ hshared =>
    exact ⟨hserved.read_le.trans (List.sublist_append_left _ _).length_le, h.sent, fun _ =>
      Peer.endsWithin_deliver (p := { s.peers pid with requests }) hserved.read_le _
        ((hshared h.listed h.listed).done rfl)⟩

end System

/-- **A client that waits is answered.**  In every state that is reached, however messages have disturbed the
replies: a client that waits for a request has sent it into a pipe from which this request has not been read, or an
end is in its own pipe.  And whatever else happens, if the master comes round to the client once, and the client then
reads as many packets as there are, it does not wait for this request any more. -/
theorem waiting_ends (env : ClientEnv σ) (rooms : List RoomSetup) (users : CString → Option UserData) (world : σ)
    {before : List Op} {s : System σ}
    (hbefore : Runs.run (System.step env) (System.start rooms users world) before = .ok s) {pid : UInt32} {n : ℕ}
    (hwaits : (s.peers pid).mode = .waiting n) :
    ((∃ r ∈ (s.peers pid).requests, r.number = n) ∨ ∃ u ∈ (s.peers pid).unread, u.packet.TellsDone) ∧
      ∀ (ops ops' : List Op) (t t' : System σ), Op.disconnect pid ∉ ops ++ ops' → .handle pid ∈ ops →
        Runs.run (System.step env) s ops = .ok t → Runs.run (System.step env) t ops' = .ok t' →
        (t.peers pid).unread.length ≤ ops'.countP (Op.polls pid) → (t'.peers pid).mode ≠ .waiting n := by
  have hlive : s.Live env :=
    Runs.invariant_run (fun _ _ _ hs hstep => hs.step hstep) (System.live_start env rooms users world) hbefore
  have hserved := hlive.served pid
  refine ⟨?_, fun ops ops' t t' hstays hhandled hrun hrun' hreads => ?_⟩
  · by_cases hasked : ∃ r ∈ (s.peers pid).requests, r.number = n
    · exact Or.inl hasked
    · obtain ⟨u, hu, hdone⟩ := hserved.ends n hwaits fun r hr hn => hasked ⟨r, hr, hn⟩
      exact Or.inr ⟨u, List.mem_of_mem_take hu, hdone⟩
  · obtain ⟨hops, hops'⟩ := not_or.mp fun h => hstays (List.mem_append.mpr h)
    obtain ⟨as, bs, rfl⟩ := List.append_of_mem hhandled
    have hasked : s.Asked env pid n :=
      ⟨hlive, hlive.manned.listed pid (by rw [hwaits]; simp), hserved.sent n hwaits⟩
    -- the steps until the master comes round, this one, and those after it
    obtain ⟨t₁, h₁, hrest⟩ := Runs.run_append_eq_ok hrun
    obtain ⟨t₂, h₂, h₃⟩ := Runs.run_cons_eq_ok hrest
    have hasked₁ := hasked.run (fun h => hops (List.mem_append_left _ h)) h₁
    have hasked₂ := hasked₁.step (by simp) h₂
    have hbs : Op.disconnect pid ∉ bs := fun h => hops (List.mem_append_right _ (List.mem_cons_of_mem _ h))
    have hleaves := System.leaves_run hasked₂.live.manned hasked₂.listed (hasked₁.leaves_handle h₂) hbs h₃
    have hasked₃ := hasked₂.run hbs h₃
    have hleaves' := System.leaves_run hasked₃.live.manned hasked₃.listed hleaves.all hops' hrun'
    rw [Nat.sub_eq_zero_of_le hreads] at hleaves'
    exact hleaves'.mode_ne

/-- The message of 7 has ended the reply of 9, and 9 has sent another request while the first is in its pipe. -/
def sampleDisturbed : List Op :=
  sampleRequests ++ [.handle 7, .poll 9, .poll 9, .send 9 REQ_CHANGESTATE [2, 0, 0, 0] (by decide)]

/-- The master comes round to 9 once, and the reply to the first request is the end of the second. -/
theorem disturbed_returns :
    ∃ s t t', Runs.run (System.step quietEnv) sampleStart sampleDisturbed = .ok s ∧
      (s.peers 9).mode = .waiting 1 ∧ Runs.run (System.step quietEnv) s [.handle 9] = .ok t ∧
      Runs.run (System.step quietEnv) t [.poll 9] = .ok t' ∧ (t'.peers 9).mode ≠ .waiting 1 := by
  have hcheck : (Runs.run (System.step quietEnv) sampleStart sampleDisturbed).toOption.any (fun s =>
      decide ((s.peers 9).mode = .waiting 1) &&
        (Runs.run (System.step quietEnv) s [.handle 9]).toOption.any fun t =>
          decide ((t.peers 9).unread.length ≤ 1) &&
            (Runs.run (System.step quietEnv) t [.poll 9]).toOption.any fun _ => true) = true := by
    decide +kernel
  obtain ⟨s, hs, hcheck⟩ := exists_of_any_toOption hcheck
  obtain ⟨hmode, hcheck⟩ := Bool.and_eq_true_iff.mp hcheck
  obtain ⟨t, ht, hcheck⟩ := exists_of_any_toOption hcheck
  obtain ⟨hunread, hcheck⟩ := Bool.and_eq_true_iff.mp hcheck
  obtain ⟨t', ht', -⟩ := exists_of_any_toOption hcheck
  have hwaits : (s.peers 9).mode = .waiting 1 := of_decide_eq_true hmode
  refine ⟨s, t, t', hs, hwaits, ht, ht', ?_⟩
  exact (waiting_ends quietEnv _ _ () hs hwaits).2 [.handle 9] [.poll 9] t t' (by simp) (by simp) ht ht'
    (of_decide_eq_true hunread)

end Replies

end NetCosm
