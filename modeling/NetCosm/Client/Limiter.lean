import NetCosm.Client.Steps

/-!
# The limiter

`send_master` counts the requests of a second, and drops those that are too many.  The counter and the second
it is for are variables of the process: they outlive the session, an administrator neither uses nor resets them,
and a request that is dropped is counted like any other.

`limiter_exact` says what comes of it if the clock does not go back: of the requests in one second that are not
an administrator's, the first eleven get through, and no other does, whatever was typed, and whoever logged in
and out meanwhile.
-/

namespace NetCosm

open Sessions

variable {σ : Type} {env : ClientEnv σ} {lines : List CString}

/-- The requests of one second that get through. -/
def REQS_PER_SECOND : ℕ := 11

namespace Call

/-- The call is counted in this second. -/
def CountsAt (now : ℤ) (c : Call) : Bool := !c.client.areAdmin && c.now == now

/-- The call is counted in this second, and gets through. -/
def PassesAt (now : ℤ) (c : Call) : Bool := c.CountsAt now && !c.exceeded

/-- The call is dropped if and only if it is not an administrator's and there have been too many in its second. -/
def Metered (before : List Call) (c : Call) : Prop :=
  c.exceeded = true ↔ c.client.areAdmin = false ∧ REQS_PER_SECOND ≤ before.countP (CountsAt c.now)

end Call

/-! ## The counter -/

/-- The variables of the limiter. -/
def Client.meter (c : Client) : ℤ × ℕ := (c.ts, c.reqsSinceTs)

theorem receive_meter (c : Client) (p : Packet) : (c.receive p).meter = c.meter := by
  cases p <;> rfl

/-- The counter is that of the calls in its second, which has come, and was not before any call. -/
structure Session.Counted (env : ClientEnv σ) (s : Session σ) : Prop where
  count : s.client.reqsSinceTs = s.calls.countP (Call.CountsAt s.client.ts)
  past : ∀ c ∈ s.calls, c.client.areAdmin = false → c.now ≤ s.client.ts ∧ s.client.ts ≤ env.clock s.tick

/-- **The counter that the limiter looks at** is that of the calls within the same second. -/
theorem Session.Counted.current {s : Session σ} (h : s.Counted env) :
    (if s.client.ts ≠ env.clock s.tick then 0 else s.client.reqsSinceTs) =
      s.calls.countP (Call.CountsAt (env.clock s.tick)) := by
  split
  · rename_i hts
    refine (List.countP_eq_zero.mpr fun c hc hcounts => hts ?_).symm
    rw [Call.CountsAt, Bool.and_eq_true, Bool.not_eq_true', beq_iff_eq] at hcounts
    obtain ⟨hbefore, hnow⟩ := h.past c hc hcounts.1
    exact le_antisymm hnow (hcounts.2 ▸ hbefore)
  · rename_i hts
    rw [← not_not.mp hts]
    exact h.count

/-- The limiter of a client that is no administrator's. -/
theorem rateLimit_of_user {c : Client} (hc : c.areAdmin = false) (now : ℤ) :
    (c.rateLimit now).1 = decide (10 < if c.ts ≠ now then 0 else c.reqsSinceTs) ∧
      (c.rateLimit now).2.meter = (now, (if c.ts ≠ now then 0 else c.reqsSinceTs) + 1) := by
  rw [Client.rateLimit, hc]
  by_cases hts : c.ts = now
  · subst hts
    simp [Client.meter]
  · simp [Client.meter, hts]

theorem rateLimit_of_admin {c : Client} (hc : c.areAdmin = true) (now : ℤ) : c.rateLimit now = (false, c) := by
  rw [Client.rateLimit, hc]
  rfl

section Send

variable {s : Session σ} {r : Request}

theorem sendMaster_meter (env : ClientEnv σ) (s : Session σ) (r : Request) :
    ((sendMaster env r).final s).client.meter = (s.client.rateLimit (env.clock s.tick)).2.meter :=
  Session.sendMaster_client (P := fun c => c.meter = (s.client.rateLimit (env.clock s.tick)).2.meter) rfl
    fun _ _ _ p _ c hc => (receive_meter c p).trans hc

/-- **When a request is dropped.** -/
theorem Session.Counted.metered (h : s.Counted env) (r : Request) : (s.call env r).Metered s.calls := by
  rw [Call.Metered]
  cases hadmin : s.client.areAdmin with
  | true =>
    have hpasses : (s.call env r).exceeded = false := congrArg Prod.fst (rateLimit_of_admin hadmin _)
    have hcall : (s.call env r).client.areAdmin = true := hadmin
    simp [hpasses, hcall]
  | false =>
    have hexceeded : (s.call env r).exceeded = decide (10 < s.calls.countP (Call.CountsAt (env.clock s.tick))) := by
      rw [← h.current]
      exact (rateLimit_of_user hadmin _).1
    rw [hexceeded, decide_eq_true_iff]
    exact ⟨fun hlt => ⟨hadmin, hlt⟩, fun hle => hle.2⟩

theorem countP_call (now : ℤ) : [s.call env r].countP (Call.CountsAt now) =
    if s.client.areAdmin = false ∧ env.clock s.tick = now then 1 else 0 := by
  rw [List.countP_singleton]
  refine if_congr ?_ rfl rfl
  rw [Call.CountsAt, Bool.and_eq_true, Bool.not_eq_true', beq_iff_eq]
  rfl

/-- **A request is counted.** -/
theorem Session.Counted.sent (h : s.Counted env) (hclock : Monotone env.clock) (r : Request) :
    ((sendMaster env r).final s).Counted env := by
  have hsent := Session.sentFrom_sendMaster env s r
  have hmeter := sendMaster_meter env s r
  cases hadmin : s.client.areAdmin with
  | true =>
    rw [rateLimit_of_admin hadmin] at hmeter
    obtain ⟨hts, hreqs⟩ := Prod.mk.inj hmeter
    have htick : ((sendMaster env r).final s).tick = s.tick := by rw [hsent.tick, hadmin, if_pos rfl]
    refine ⟨?_, fun c hc huser => ?_⟩
    · rw [hts, hreqs, hsent.calls, List.countP_append, countP_call, hadmin, if_neg (by simp)]
      exact h.count
    · rw [hts, htick]
      rw [hsent.calls] at hc
      rcases List.mem_append.mp hc with hc | hc
      · exact h.past c hc huser
      · obtain rfl := List.mem_singleton.mp hc
        exact absurd (hadmin.symm.trans huser) (by simp)
  | false =>
    rw [(rateLimit_of_user hadmin _).2, h.current] at hmeter
    obtain ⟨hts, hreqs⟩ := Prod.mk.inj hmeter
    have htick : ((sendMaster env r).final s).tick = s.tick + 1 := by
      rw [hsent.tick, hadmin, if_neg (by simp)]
    have hlater : env.clock s.tick ≤ env.clock (s.tick + 1) := hclock (Nat.le_succ _)
    refine ⟨?_, fun c hc huser => ?_⟩
    · rw [hts, hreqs, hsent.calls, List.countP_append, countP_call, hadmin, if_pos ⟨rfl, rfl⟩]
    · rw [hts, htick]
      rw [hsent.calls] at hc
      rcases List.mem_append.mp hc with hc | hc
      · obtain ⟨hbefore, hnow⟩ := h.past c hc huser
        exact ⟨hbefore.trans hnow, hlater⟩
      · obtain rfl := List.mem_singleton.mp hc
        exact ⟨le_rfl, hlater⟩

end Send

/-! ## Every session -/

/-- **One more call in a second**, or in another one. -/
theorem countP_passes {before : List Call} {c : Call} (hc : c.Metered before) {now : ℤ}
    (hbefore : before.countP (Call.PassesAt now) = min REQS_PER_SECOND (before.countP (Call.CountsAt now))) :
    (before ++ [c]).countP (Call.PassesAt now) =
      min REQS_PER_SECOND ((before ++ [c]).countP (Call.CountsAt now)) := by
  rw [List.countP_append, List.countP_append, List.countP_singleton, List.countP_singleton, hbefore, Call.PassesAt]
  cases hcounts : c.CountsAt now with
  | false => rfl
  | true =>
    obtain ⟨huser, hnow⟩ := Bool.and_eq_true_iff.mp hcounts
    obtain rfl := beq_iff_eq.mp hnow
    rw [Call.Metered, and_iff_right (Bool.not_eq_true' _ ▸ huser)] at hc
    cases hexceeded : c.exceeded with
    | true =>
      have hmany := hc.mp hexceeded
      simp only [Bool.not_true, Bool.and_false, Bool.false_eq_true, if_false, if_true]
      omega
    | false =>
      have hfew : ¬ REQS_PER_SECOND ≤ before.countP (Call.CountsAt c.now) := fun hle =>
        absurd (hexceeded.symm.trans (hc.mpr hle)) (by simp)
      simp only [Bool.not_false, Bool.and_true, if_true]
      omega

/-- The calls are metered, and as many get through in every second as may. -/
structure Session.Metered (env : ClientEnv σ) (s : Session σ) : Prop where
  counted : s.Counted env
  calls : s.CallsObey Call.Metered
  passes : ∀ now, s.calls.countP (Call.PassesAt now) = min REQS_PER_SECOND (s.calls.countP (Call.CountsAt now))

/-- What is not sent is not counted. -/
theorem Session.Metered.congr {s s' : Session σ} (h : s.Metered env) (hcalls : s'.calls = s.calls)
    (hmeter : s'.client.meter = s.client.meter) (htick : env.clock s.tick ≤ env.clock s'.tick) :
    s'.Metered env := by
  obtain ⟨hts, hreqs⟩ := Prod.mk.inj hmeter
  refine ⟨⟨?_, ?_⟩, ?_, ?_⟩
  · rw [hts, hreqs, hcalls]
    exact h.counted.count
  · rw [hts, hcalls]
    exact fun c hc huser => ⟨(h.counted.past c hc huser).1, (h.counted.past c hc huser).2.trans htick⟩
  · rw [CallsObey, hcalls]
    exact h.calls
  · rw [hcalls]
    exact h.passes

/-- **What a step does to the limiter.** -/
theorem Session.Metered.step {s s' : Session σ} (h : s.Metered env) (hclock : Monotone env.clock)
    (hstep : ClientStep env lines s s') : s'.Metered env := by
  cases hstep with
  | enter phase => exact h.congr rfl rfl le_rfl
  | login hvouched => exact h.congr rfl rfl le_rfl
  | inner hinner =>
    cases hinner with
    | @send r hr =>
      have hmetered := h.counted.metered r
      refine ⟨h.counted.sent hclock r, h.calls.sent hmetered, fun now => ?_⟩
      rw [(Session.sentFrom_sendMaster env s r).calls]
      exact countP_passes hmetered (h.passes now)
    | time => exact h.congr rfl rfl (hclock (Nat.le_succ _))
    | _ => exact h.congr rfl rfl le_rfl

/-- **Of the requests in a second, the first eleven get through**, and those of administrators. -/
theorem limiter_exact (env : ClientEnv σ) (hclock : Monotone env.clock) (server : ServerState σ)
    (lines : List CString) (n : ℕ) :
    ((clientMain env n).final (Session.start server lines)).CallsObey Call.Metered ∧
      ∀ now, ((clientMain env n).final (Session.start server lines)).calls.countP (Call.PassesAt now) =
        min REQS_PER_SECOND
          (((clientMain env n).final (Session.start server lines)).calls.countP (Call.CountsAt now)) := by
  have hstart : (Session.start server lines).Metered env :=
    ⟨⟨rfl, fun c hc => absurd hc List.not_mem_nil⟩, fun i c hc => absurd hc (by simp [Session.start]), fun _ => rfl⟩
  have h := (leads_clientMain env server lines n).keeps (fun _ _ h hstep => h.step hclock hstep) hstart
  exact ⟨h.calls, h.passes⟩

/-- A user who asks for the inventory eight times within a second has some of it dropped. -/
theorem limiter_busy :
    let calls := ((clientMain (sampleEnv fun _ => 1) 12).final (Session.start sampleServer
      ([letter 97, letter 112] ++ List.replicate 8 typedInventory))).calls
    (∃ c ∈ calls, c.exceeded = true) ∧ calls.countP (Call.PassesAt 1) = REQS_PER_SECOND := by
  have hexact := (limiter_exact (sampleEnv fun _ => 1) monotone_const sampleServer
    ([letter 97, letter 112] ++ List.replicate 8 typedInventory) 12).2 1
  exact ⟨by decide +kernel, hexact.trans (by decide +kernel)⟩

end NetCosm
