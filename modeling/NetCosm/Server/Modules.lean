import NetCosm.Client.Privileges
import NetCosm.Server.Exchanges
import NetCosm.Server.Handlers
import NetCosm.Server.LoggedIn

/-!
# What a world module has to keep

Some results about the master ask something of what the world answers: that no record gets lost
(`KeepsRecords`), that nobody is kicked (`Replies.NeverKicks`), that records stay sealed (`ClientEnv.KeepsSealed`).

The handlers of the source send messages and leave the records alone.  What they answer is theirs, or it is the
answer of a hook that they call (`Hooks.Keep.answer`), so that a server with these handlers keeps whatever its world
module keeps.
-/

namespace NetCosm

open Handlers

variable {ω : Type} {H : Hooks ω} {base : ClientEnv (Realm ω)} {asserts : Bool}
  {P : (CString → Option UserData) → WorldAnswer (Realm ω) → Prop}

/-- What the hooks of verbs answer, and whoever takes lines as they are, has to do with the records there were as `P`
says. -/
structure Handlers.Hooks.Keep (H : Hooks ω)
    (P : (CString → Option UserData) → WorldAnswer (Realm ω) → Prop) : Prop where
  verb : ∀ cls hook verb args sender s, H.hookExec cls = some hook → P s.users (hook verb args sender s)
  raw : ∀ data sender s, P s.users (H.rawModeCb data sender s)

/-- **What is answered to a request of the world** keeps to what messages and hooks keep to. -/
theorem Handlers.Hooks.Keep.answer (hH : H.Keep P)
    (hmessages : ∀ s world messages, P s.users (answerWith s world messages)) {sender : ChildData}
    {r : Request} {s : ServerState (Realm ω)} {a : WorldAnswer (Realm ω)}
    (h : answer H asserts sender r s = .ok a) : P s.users a := by
  have hmap : ∀ {A : Type} {x : Except Fault A} {f : A → WorldAnswer (Realm ω)},
      x.map f = .ok a → (∀ b, P s.users (f b)) → P s.users a := by
    intro A x f h hf
    obtain ⟨b, -, rfl⟩ := map_eq_ok h
    exact hf b
  cases r with
  | getRoomDesc | getRoomName | lookAt _ | printInventory | listUsers =>
    exact hmap h fun _ => hmessages s _ _
  | take _ | drop _ => exact hmap h fun _ => hmessages s _ _
  | execVerb line =>
    obtain ⟨⟨outcome, verbs⟩, -, h⟩ := bind_eq_ok h
    cases outcome with
    | raw data =>
      obtain rfl := Except.ok.inj h
      exact hH.raw data sender (withVerbs s verbs)
    | unknown =>
      obtain rfl := Except.ok.inj h
      exact hmessages (withVerbs s verbs) _ _
    | exec verb args =>
      dsimp only at h
      cases hhook : H.hookExec verb.cls with
      | none =>
        rw [hhook] at h
        exact absurd h (by simp)
      | some hook =>
        rw [hhook] at h
        obtain rfl := Except.ok.inj h
        exact hH.verb verb.cls hook verb args sender (withVerbs s verbs) hhook
  | listClients | wait | bcastMsg _ | kick _ _ | kickAll _ | changeState _ | changeUser _ | setRoom _ | move _
  | getUserData _ | delUserData _ | addUserData _ =>
    obtain rfl := Except.ok.inj h
    exact hmessages s _ _

/-- **No record is lost** if no hook loses one. -/
theorem keepsRecords_env
    (hH : H.Keep fun users a => ∀ name, (users name).isSome → (a.users name).isSome) :
    KeepsRecords (H.env base) :=
  fun _ _ _ _ name h hname => hH.answer (fun _ _ _ _ hname => hname) h name hname

/-- **Nobody is kicked** if no hook kicks. -/
theorem neverKicks_env (hH : H.Keep fun _ a => ∀ text, .kick text ∉ a.packets) :
    Replies.NeverKicks (H.env base) := by
  refine fun _ _ _ _ text h => hH.answer (fun s world messages text hkick => ?_) h text
  obtain ⟨m, -, hm⟩ := List.mem_map.mp hkick
  cases m <;> exact absurd hm (by simp [packetOf])

/-- **Records stay sealed** if every hook leaves them so. -/
theorem keepsSealed_env {lines : List CString}
    (hH : H.Keep fun users a => (∀ name data, users name = some data → data.Sealed base lines) →
      ∀ name data, a.users name = some data → data.Sealed base lines) :
    (H.env base).KeepsSealed lines :=
  fun _ _ _ _ hs h => hH.answer (fun _ _ _ hs => hs) h hs

end NetCosm
