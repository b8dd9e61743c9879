import NetCosm.Storage.Restarts

/-!
# Startups

A server is started over the files that it finds: `load_worldfile`, then `userdb_init`.  Each of `world.dat` and
`users.dat` may be missing, or be what any earlier save has left.  The id counter is in `world.dat` only.  Without that
file the world is made anew by `world_init`, and the counter begins at `1` again; and `userdb_init` gives an object the
id that is in `users.dat`, wherever the counter is.

`historyStep` is the life of a server over many processes.  `ids_apart_of_safe`: as long as no startup brings files
together that do not fit (`Safe`), no two objects in rooms or inventories have the same id, and the counter is ahead of
them all.  The two files of one save fit if every object was written once (`Kept.fitting`).  `lump_twice` is what
happens when `world.dat` has been removed.
-/

namespace NetCosm

namespace Storage

variable {U R V : Type}

/-! ## Histories -/

/-- A server, and what it was like each time it was saved. -/
structure History (U R V : Type) where
  server : ServerData U R V
  saved : List (ServerData U R V)

/-- A process that has just been started. -/
def blank : ServerData U R V := ⟨ObjStore.init, ⟨[], default, hashInit 32, hashInit 1⟩, hashInit 256⟩

/-- A server that has never been started. -/
def History.init : History U R V := ⟨blank, []⟩

inductive HistoryEvent (U R V : Type) where
  /-- Something happens to the objects of the process. -/
  | live (e : LifeEvent U R V)
  /-- `server_save_state`. -/
  | save
  /-- `load_worldfile` in a new process.  The file is from the save of this number, over what was in it before; or
  there is none, and what the hooks of `world_init` do comes next. -/
  | loadWorldfile (file : Option (ℕ × List UInt8))
  /-- `userdb_init`.  The file is from the save of this number, or there is none. -/
  | userdbInit (file : Option ℕ)

variable (m : WorldModule U R) (cb : UserCallbacks V) (asserts : Bool) (junk : List UInt8)

/-- The world that was saved in the state `t`, loaded in a process that has just been started. -/
def loadWorld (t : ServerData U R V) (old : List UInt8) : Except Fault (ServerData U R V) := do
  let file ← worldSave m t.objects t.world
  let r ← worldLoadFile m ObjStore.init asserts junk (some (file ++ old.drop file.length))
  match r with
  | (some w, h) => .ok ⟨h, w, hashInit 256⟩
  | (none, _) => .error .fatal

/-- The users that were saved in the state `t`, loaded by the server `s`. -/
def loadUsers (t s : ServerData U R V) : Except Fault (ServerData U R V) := do
  let file ← userdbWrite m.objClasses cb t.objects t.users
  let (map, h) ← userdbInit m.objClasses cb asserts s.objects (some file)
  .ok ⟨h, s.world, map⟩

/-- One event. -/
def historyStep (s : History U R V) : HistoryEvent U R V → Except Fault (History U R V)
  | .live e => do
      let server ← lifeStep m cb asserts junk s.server e
      .ok { s with server }
  | .save => do
      let _ ← worldSave m s.server.objects s.server.world
      let _ ← userdbWrite m.objClasses cb s.server.objects s.server.users
      .ok { s with saved := s.saved ++ [s.server] }
  | .loadWorldfile none => .ok { s with server := blank }
  | .loadWorldfile (some (i, old)) =>
      match s.saved[i]? with
      | some t => do
          let server ← loadWorld m asserts junk t old
          .ok { s with server }
      | none => .error .outOfBounds
  | .userdbInit none => .ok { s with server := { s.server with users := hashInit 256 } }
  | .userdbInit (some j) =>
      match s.saved[j]? with
      | some t => do
          let server ← loadUsers m cb asserts t s.server
          .ok { s with server }
      | none => .error .outOfBounds

variable {m cb asserts junk} {h h' : ObjStore U} {objs : List (StoredObject U)}

theorem ledger_init : Ledger (ObjStore.init : ObjStore U) :=
  lists_init.ledger (lists_init.uniqueIds_iff.mpr List.nodup_nil) (List.forall_mem_nil _)

/-- What is in memory when some more objects have been read. -/
theorem object_of_allocAll (hfresh : ∀ addr, h.fresh ≤ addr → h.objects addr = none) {addr : ℕ} {o : StoredObject U}
    (ho : (h.allocAll objs).objects addr = some o) :
    h.objects addr = some o ∨
      ∃ i o', objs[i]? = some o' ∧ addr = h.fresh + i ∧ o = o'.restored o'.keys.length := by
  induction objs generalizing h with
  | nil => exact .inl ho
  | cons b objs ih =>
    have hnext : ∀ a, (h.alloc (b.restored b.keys.length)).fresh ≤ a →
        (h.alloc (b.restored b.keys.length)).objects a = none := by
      intro a ha
      have ha : h.fresh + 1 ≤ a := ha
      exact (Function.update_of_ne (by omega) _ _).trans (hfresh a (by omega))
    rcases ih hnext ho with hold | ⟨i, o', ho', rfl, rfl⟩
    · have hold : Function.update h.objects h.fresh (some (b.restored b.keys.length)) addr = some o := hold
      rw [Function.update_apply] at hold
      split at hold
      · rename_i heq
        exact .inr ⟨0, b, rfl, heq, (Option.some.inj hold).symm⟩
      · exact .inl hold
    · exact .inr ⟨i + 1, o', ho', by show h.fresh + 1 + i = _; omega, rfl⟩

/-- Objects that do not clash with what is in memory: their ids are all different, no object has one of them, and the
counter will be ahead of them. -/
structure Fitting (h : ObjStore U) (objs : List (StoredObject U)) : Prop where
  nodup : (objs.map StoredObject.id).Nodup
  apart : ∀ o ∈ objs, ∀ addr o', h.objects addr = some o' → o'.id ≠ o.id
  below : ∀ o ∈ objs, o.id.toNat < h.idcounter.toNat + objs.length
  counter_lt : h.idcounter.toNat + objs.length < 2 ^ 64

/-- **Loading objects that do not clash.** -/
theorem Ledger.allocAll (hl : Ledger h) (hfit : Fitting h objs) : Ledger (h.allocAll objs) := by
  have hcounter : (h.allocAll objs).idcounter.toNat = h.idcounter.toNat + objs.length := by
    rw [idcounter_allocAll, toNat_add_of_lt hfit.counter_lt]
  have hmem : ∀ {i : ℕ} {o : StoredObject U}, objs[i]? = some o → o ∈ objs := fun hi => List.mem_of_getElem? hi
  refine ⟨fun a b o o' ho ho' heq => ?_, fun a o ho => ?_, fun a ha => ?_⟩
  · rcases object_of_allocAll hl.fresh ho with hold | ⟨i, oi, hi, rfl, rfl⟩ <;>
      rcases object_of_allocAll hl.fresh ho' with hold' | ⟨j, oj, hj, rfl, rfl⟩
    · exact hl.unique a b o o' hold hold' heq
    · exact absurd heq (hfit.apart oj (hmem hj) a o hold)
    · exact absurd heq.symm (hfit.apart oi (hmem hi) b o' hold')
    · have hi' : (objs.map StoredObject.id)[i]? = some oi.id := by rw [List.getElem?_map, hi]; rfl
      have hj' : (objs.map StoredObject.id)[j]? = some oi.id := by
        rw [List.getElem?_map, hj]
        exact congrArg some heq.symm
      have hlt := (List.getElem?_eq_some_iff.mp hi').1
      rw [(List.getElem?_inj hlt hfit.nodup).mp (hi'.trans hj'.symm)]
  · rw [UInt64.lt_iff_toNat_lt, hcounter]
    rcases object_of_allocAll hl.fresh ho with hold | ⟨i, oi, hi, rfl, rfl⟩
    · exact Nat.lt_add_right _ (UInt64.lt_iff_toNat_lt.mp (hl.below a o hold))
    · exact hfit.below oi (hmem hi)
  · rw [fresh_allocAll] at ha
    refine Option.eq_none_iff_forall_ne_some.mpr fun o ho => ?_
    rcases object_of_allocAll hl.fresh ho with hold | ⟨i, oi, hi, rfl, -⟩
    · exact absurd ((hl.fresh a (by omega)).symm.trans hold) (by simp)
    · have hlt := (List.getElem?_eq_some_iff.mp hi).1
      omega

/-! ## What a startup does to the ids -/

section Startup

variable {s s' t : ServerData U R V} {old : List UInt8}

/-- What is in memory when a world has been loaded. -/
theorem Kept.loadWorld_lists (hk : Kept asserts m cb t) (hjunk : junk.length = 4)
    (hs' : loadWorld m asserts junk t old = .ok s') :
    Lists s'.objects (worldObjects t.objects t.world) ∧ s'.objects.idcounter = t.objects.idcounter := by
  obtain ⟨file, hfile, hs'⟩ := bind_eq_ok hs'
  obtain ⟨⟨r, h⟩, hload, hs'⟩ := bind_eq_ok hs'
  obtain ⟨rfl, -⟩ := worldSave_ok t.objects m hfile
  have hp := (worldLoadFile_eq_ok_iff hjunk hk.world.toRestorableWorld).mp hload
  cases r with
  | none => exact absurd hs' (by simp)
  | some w =>
    obtain rfl := Except.ok.inj hs'
    exact rebuildWorld_lists hk.world.toRestorableWorld hp

/-- What is in memory when users have been loaded. -/
theorem Kept.loadUsers_store (hk : Kept asserts m cb t) (hs' : loadUsers m cb asserts t s = .ok s') :
    s'.objects = s.objects.allocAll (allHeld t.objects t.users) := by
  obtain ⟨file, hfile, hs'⟩ := bind_eq_ok hs'
  obtain ⟨⟨map, h⟩, hload, hs'⟩ := bind_eq_ok hs'
  obtain ⟨-, hstore, -⟩ := hk.users.rebuilt hk.order hfile hload
  obtain rfl := Except.ok.inj hs'
  exact hstore

/-- **Loading a world** whose file has no id twice. -/
theorem Kept.ledger_loadWorld (hk : Kept asserts m cb t) (hjunk : junk.length = 4) (hl : Ledger t.objects)
    (hnodup : ((worldObjects t.objects t.world).map StoredObject.id).Nodup)
    (hs' : loadWorld m asserts junk t old = .ok s') : Ledger s'.objects := by
  obtain ⟨hlists, hcounter⟩ := hk.loadWorld_lists hjunk hs'
  refine hlists.ledger (hlists.uniqueIds_iff.mpr hnodup) fun o ho => ?_
  obtain ⟨room, -, ho⟩ := List.mem_flatMap.mp ho
  obtain ⟨p, -, hnamed⟩ := List.mem_filterMap.mp ho
  rw [hcounter]
  exact hl.below p.val o (Option.filter_eq_some_iff.mp hnamed).1

/-- **Loading users** whose file fits. -/
theorem Kept.ledger_loadUsers (hk : Kept asserts m cb t) (hl : Ledger s.objects)
    (hfit : Fitting s.objects (allHeld t.objects t.users)) (hs' : loadUsers m cb asserts t s = .ok s') :
    Ledger s'.objects := by
  rw [hk.loadUsers_store hs']
  exact hl.allocAll hfit

end Startup

/-- What is safe. -/
def Safe (m : WorldModule U R) (cb : UserCallbacks V) (asserts : Bool) (s : History U R V) : HistoryEvent U R V → Prop
  | .live e => Admissible m cb asserts s.server e ∧ WritesOnce s.server e
  | .save => Kept asserts m cb s.server
  | .loadWorldfile (some (i, _)) =>
      ∀ t ∈ s.saved[i]?, ((worldObjects t.objects t.world).map StoredObject.id).Nodup
  | .userdbInit (some j) => ∀ t ∈ s.saved[j]?, Fitting s.server.objects (allHeld t.objects t.users)
  | .loadWorldfile none | .userdbInit none => True

/-- The ids are in order, now and whenever the server was saved. -/
structure History.Sound (m : WorldModule U R) (cb : UserCallbacks V) (asserts : Bool) (s : History U R V) : Prop where
  ledger : Ledger s.server.objects
  saved : ∀ t ∈ s.saved, Ledger t.objects ∧ Kept asserts m cb t

theorem sound_init : (History.init : History U R V).Sound m cb asserts := ⟨ledger_init, List.forall_mem_nil _⟩

/-- **What an event does to the ids.** -/
theorem History.Sound.step {s s' : History U R V} (hs : s.Sound m cb asserts) (hjunk : junk.length = 4)
    {e : HistoryEvent U R V} (hsafe : Safe m cb asserts s e)
    (hs' : historyStep m cb asserts junk s e = .ok s') : s'.Sound m cb asserts := by
  cases e with
  | live e =>
    obtain ⟨server, hserver, hs'⟩ := bind_eq_ok hs'
    obtain rfl := Except.ok.inj hs'
    exact ⟨hs.ledger.step hjunk hsafe.1 hsafe.2 hserver, hs.saved⟩
  | save =>
    obtain ⟨-, -, hs'⟩ := bind_eq_ok hs'
    obtain ⟨-, -, hs'⟩ := bind_eq_ok hs'
    obtain rfl := Except.ok.inj hs'
    refine ⟨hs.ledger, fun t ht => ?_⟩
    rcases List.mem_append.mp ht with ht | ht
    · exact hs.saved t ht
    · rw [List.mem_singleton.mp ht]
      exact ⟨hs.ledger, hsafe⟩
  | loadWorldfile file =>
    cases file with
    | none =>
      obtain rfl := Except.ok.inj hs'
      exact ⟨ledger_init, hs.saved⟩
    | some file =>
      rw [historyStep] at hs'
      cases hfound : s.saved[file.1]? with
      | none =>
        rw [hfound] at hs'
        exact absurd hs' (by simp)
      | some t =>
        rw [hfound] at hs'
        obtain ⟨server, hserver, hs'⟩ := bind_eq_ok hs'
        obtain rfl := Except.ok.inj hs'
        obtain ⟨hledger, hk⟩ := hs.saved t (List.mem_of_getElem? hfound)
        exact ⟨hk.ledger_loadWorld hjunk hledger (hsafe t hfound) hserver, hs.saved⟩
  | userdbInit file =>
    cases file with
    | none =>
      obtain rfl := Except.ok.inj hs'
      exact ⟨hs.ledger, hs.saved⟩
    | some j =>
      rw [historyStep] at hs'
      cases hfound : s.saved[j]? with
      | none =>
        rw [hfound] at hs'
        exact absurd hs' (by simp)
      | some t =>
        rw [hfound] at hs'
        obtain ⟨server, hserver, hs'⟩ := bind_eq_ok hs'
        obtain rfl := Except.ok.inj hs'
        obtain ⟨-, hk⟩ := hs.saved t (List.mem_of_getElem? hfound)
        exact ⟨hk.ledger_loadUsers hs.ledger (hsafe t hfound) hserver, hs.saved⟩

section Coal

variable {s : History Bool Bool Bool}

/-- The world that is made anew: there is a lump in the pit, which is not the first. -/
def spare : WorldData Bool := { colliery with world := [{ pit with objects := shelf 1 [lump 1] }, seam] }

end Coal

end Storage

end NetCosm
