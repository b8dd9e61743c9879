import NetCosm.Library.Groups
import NetCosm.Storage.Saving
import NetCosm.Text.Words

/-!
# What a room and an inventory list

`req_send_desc` lists the objects of a room and `req_inventory` those of an inventory.  Both go through a
map with `multimap_iterate`, which hands out the pairs of one key after those of another: the newest
pair, with the others behind it, and their number.

Neither looks behind the newest pair.  If its key is the name of its object, the whole group is announced
as so many objects of that name; if the key is an alias, or in a room the object is hidden, nothing is
said of the group.

## Main results

`Shelved` is what a map is for: every object is stored once under its name and once under each alias.
`listings_account_iff` says when the numbers that are announced account for the objects.  In a room it
takes groups that are pure: names of visible objects, spelled alike, or no such name at all.  In an
inventory only the sum is in question, and what is announced too much may make up for what is not
announced.
-/

namespace NetCosm

namespace Listings

open Storage

/-- A pair of a map of objects. -/
abbrev Pair := MultimapPair CString ℕ

/-! ## Texts -/

/-- `is_vowel`. -/
def isVowel (c : UInt8) : Bool :=
  lower c == 97 || lower c == 101 || lower c == 105 || lower c == 111 || lower c == 117

/-- `strlcat`, into a buffer of `siz` bytes. -/
def strlcat (siz : ℕ) (dst src : List UInt8) : List UInt8 := dst ++ src.take (siz - 1 - dst.length)

/-- A literal. -/
def lit (s : String) : List UInt8 := (CString.ofChars s.toList).bytes

/-- The first byte of a string, which may be the terminator. -/
def firstByte (name : CString) : UInt8 := name.bytes.headD 0

/-- The pieces that are put together in a buffer of `siz` bytes. -/
def strlcatAll (siz : ℕ) (pieces : List (List UInt8)) : List UInt8 := pieces.foldl (strlcat siz) []

/-- What `req_send_desc` says of a group. -/
def descText (name : CString) (nObjs : ℕ) (defaultArticle : Bool) : List UInt8 :=
  if nObjs = 1 then
    let article := if isVowel (firstByte name) then lit "an" else lit "a"
    strlcatAll MSG_MAX ([lit "There is "] ++ (if defaultArticle then [article, lit " "] else []) ++
      [name.bytes, lit " here.\n"])
  else
    strlcatAll MSG_MAX [lit "There are ", lit (toString nObjs ++ " "), name.bytes, lit "s here.\n"]

/-- `format_noun`.  The second byte of a name that has no first one is not part of it. -/
def formatNoun (len : ℕ) (name : CString) (count : ℕ) (defaultArticle capitalize : Bool) :
    Except Fault (List UInt8) :=
  if count = 1 then
    if defaultArticle then
      let article := match capitalize, isVowel (firstByte name) with
        | true, true => lit "An"
        | true, false => lit "A"
        | false, true => lit "an"
        | false, false => lit "a"
      .ok (strlcatAll len [article, lit " ", name.bytes])
    else
      match name.bytes with
      | [] => .error .outOfBounds
      | c :: rest => .ok (strlcatAll len [[upper c], rest])
  else .ok (strlcatAll len [lit (toString count), lit " ", name.bytes, lit "s"])

/-! ## Messages -/

/-- Something is announced: a name and a number; beside them are the pairs the program has in its hands,
and the text it sends. -/
structure Notice where
  name : CString
  count : ℕ
  group : List Pair
  text : List UInt8

/-- What is sent to the client. -/
inductive Message where
  | text (s : List UInt8)
  | newline
  | notice (n : Notice)

/-- The announcements among the messages. -/
def notices (messages : List Message) : List Notice :=
  messages.filterMap fun
    | .notice n => some n
    | _ => none

/-- A loop over a map with `multimap_iterate`, which ends at the first group that has no pairs; and
whether any group has been handed out. -/
def multimapForEach {K V S : Type} (m : Multimap K V)
    (body : S → List (MultimapPair K V) → ℕ → Except Fault S) (s : S) : Except Fault (S × Bool) :=
  (hashForEach m.hashTab
    (fun (st : S × Bool × Bool) node =>
      if st.2.2 || node.data.list.isEmpty then .ok (st.1, st.2.1, true)
      else (body st.1 node.data.list node.data.nPairs).map fun s => (s, true, false))
    (s, false, false)).map fun st => (st.1, st.2.1)

variable {U R : Type} (h : ObjStore U)

/-- The body of the loop of `req_send_desc`: what is sent. -/
def descOne (iter : List Pair) (nObjs : ℕ) : Except Fault (List Message) :=
  match iter with
  | [] => .error .nullPointer
  | p :: _ =>
      match h.objects p.val with
      | none => .error .useAfterFree
      | some obj =>
          if obj.hidden then .ok []
          else if compareStrings p.key obj.name = 0 then
            .ok [.notice ⟨p.key, nObjs, iter, descText p.key nObjs obj.defaultArticle⟩]
          else .ok [.text []]

/-- `req_send_desc`, once the description and the objects of the room have been found. -/
def describe (desc : CString) (objects : ObjTable) : Except Fault (List Message) :=
  (multimapForEach objects (fun out iter n => (descOne h iter n).map (out ++ ·))
    [.text desc.bytes, .newline]).map Prod.fst

/-- `req_send_desc`, in the room of the sender. -/
def reqSendDesc (room : Storage.Room R) : Except Fault (List Message) :=
  describe h room.desc room.objects

/-- The body of the loop of `req_inventory`: what is sent. -/
def inventoryOne (iter : List Pair) (nObjs : ℕ) : Except Fault (List Message) :=
  match iter with
  | [] => .error .nullPointer
  | p :: _ =>
      match h.objects p.val with
      | none => .error .useAfterFree
      | some obj =>
          if compareStrings p.key obj.name = 0 then
            (formatNoun MSG_MAX p.key nObjs obj.defaultArticle true).map fun buf =>
              [.notice ⟨p.key, nObjs, iter, strlcat MSG_MAX buf (lit "\n")⟩]
          else .ok []

/-- `req_inventory`, of the inventory of the sender. -/
def reqInventory (objects : ObjTable) : Except Fault (List Message) :=
  (multimapForEach objects (fun out iter n => (inventoryOne h iter n).map (out ++ ·))
    [.text (lit "You currently have:\n")]).map fun r =>
      if r.2 then r.1 else r.1 ++ [.text (lit "Nothing!\n")]

/-! ## What listings are for -/

/-- A pair whose key is the name of its object. -/
def isName (p : Pair) : Bool := (namedObject? h p).isSome

/-- And the object is not hidden. -/
def isVisibleName (p : Pair) : Bool := (namedObject? h p).any fun obj => !obj.hidden

/-- The object at an address is there, and not hidden. -/
def isVisible (addr : ℕ) : Bool := (h.objects addr).any fun obj => !obj.hidden

/-- The keys of the object at an address. -/
def keysAt (addr : ℕ) : List CString := ((h.objects addr).map fun obj => obj.keys).getD []

/-- **A map of objects**: each of them is stored once under its name and once under each alias. -/
structure Shelved (m : ObjTable) (objs : List ℕ) : Prop where
  live : ∀ addr ∈ objs, (h.objects addr).isSome
  distinct : objs.Nodup
  once : ∀ addr ∈ objs, (keysAt h addr).Nodup
  stored : (m.pairs.map fun p => (p.key, p.val)).Perm
    (objs.flatMap fun addr => (keysAt h addr).map fun key => (key, addr))
  /-- A node without pairs is taken out of the map. -/
  nonempty : ∀ node ∈ m.hashTab.nodes, node.data.list ≠ []
  /-- Cells have addresses. -/
  fits : m.pairs.length < 2 ^ 64

/-- **The announcements in a room account for its objects.** -/
structure Accounted (objs : List ℕ) (ns : List Notice) : Prop where
  /-- The numbers add up to the number of objects that are not hidden. -/
  total : (ns.map Notice.count).sum = (objs.filter (isVisible h)).length
  /-- Each of these objects is counted once, under its own name. -/
  own : ∀ addr ∈ objs, ∀ obj, h.objects addr = some obj → obj.hidden = false →
    (ns.flatMap fun n => (n.group.filter fun p => p.val = addr).map fun p => (n.name, p.key)) =
      [(obj.name, obj.name)]
  /-- No hidden object and no alias is counted. -/
  only : ∀ n ∈ ns, n.count = n.group.length ∧ ∀ p ∈ n.group, isVisibleName h p = true

/-- The pairs of the keys of a map. -/
def groups (m : ObjTable) : List (List Pair) := m.hashTab.nodes.map HashNode.pairs

/-- Names of visible objects, spelled alike, or none. -/
def Uniform (g : List Pair) : Prop :=
  Groups.Pure (isVisibleName h) g ∧
    (Groups.led (isVisibleName h) g = true → ∀ p ∈ g, ∀ q ∈ g, p.key = q.key)

instance (g : List Pair) : Decidable (Uniform h g) := inferInstanceAs (Decidable (_ ∧ _))

/-- An object without an article whose name is empty is not the only one of its key. -/
def Speakable (g : List Pair) : Prop :=
  ∀ p obj, g = [p] → namedObject? h p = some obj → obj.defaultArticle = false → p.key.bytes ≠ []

/-- Behind names there are as many aliases as there are names behind aliases. -/
def Balanced (m : ObjTable) : Prop :=
  (((groups m).filter (Groups.led (isName h))).map (List.countP fun p => !isName h p)).sum =
    (((groups m).filter fun g => !Groups.led (isName h) g).map (List.countP (isName h))).sum

instance (m : ObjTable) : Decidable (Balanced h m) := inferInstanceAs (Decidable (_ = _))

/-! ## Loops over a map -/

section Loops

variable {K V S M : Type} {m : Multimap K V}

/-- A loop over a map hands out the groups in order. -/
theorem multimapForEach_eq (hsz : m.hashTab.tableSz < unsignedRange)
    (hne : ∀ node ∈ m.hashTab.nodes, node.data.list ≠ [])
    (body : S → List (MultimapPair K V) → ℕ → Except Fault S) (s : S) :
    multimapForEach m body s =
      (m.hashTab.nodes.foldlM (fun s node => body s node.data.list node.data.nPairs) s).map
        fun s => (s, !m.hashTab.nodes.isEmpty) := by
  have hloop : ∀ (ns : List (HashNode K (MultimapNode K V))) (s : S) (seen : Bool),
      (∀ node ∈ ns, node.data.list ≠ []) →
      ns.foldlM (fun (st : S × Bool × Bool) node =>
          if st.2.2 || node.data.list.isEmpty then .ok (st.1, st.2.1, true)
          else (body st.1 node.data.list node.data.nPairs).map fun s => (s, true, false))
        (s, seen, false) =
      (ns.foldlM (fun s node => body s node.data.list node.data.nPairs) s).map
        fun s => (s, (seen || !ns.isEmpty, false)) := by
    intro ns
    induction ns with
    | nil =>
      intro s seen _
      show Except.ok (s, seen, false) = Except.ok (s, seen || false, false)
      rw [Bool.or_false]
    | cons n ns ih =>
      intro s seen hns
      have hn : n.data.list.isEmpty = false :=
        List.isEmpty_eq_false_iff.mpr (hns n (List.mem_cons_self ..))
      rw [List.foldlM_cons, List.foldlM_cons, if_neg (by simp [hn])]
      cases body s n.data.list n.data.nPairs with
      | error e => rfl
      | ok s' =>
        refine (ih s' true fun node hnode => hns node (List.mem_cons_of_mem n hnode)).trans ?_
        rw [Bool.true_or, List.isEmpty_cons, Bool.not_false, Bool.or_true]
        rfl
  rw [multimapForEach, hashForEach_of_lt hsz, hloop _ s false hne]
  cases List.foldlM (fun s node => body s node.data.list node.data.nPairs) s m.hashTab.nodes with
  | error e => rfl
  | ok s' => rfl

/-- A loop that returns has gone through a table of fewer than `2 ^ 32` buckets. -/
theorem tableSz_lt_of_multimapForEach {body : S → List (MultimapPair K V) → ℕ → Except Fault S}
    {s : S} {r : S × Bool} (h : multimapForEach m body s = .ok r) :
    m.hashTab.tableSz < unsignedRange := by
  obtain ⟨st, hst, -⟩ := map_eq_ok h
  exact tableSz_lt_of_hashForEach hst

/-- A loop that puts messages behind others: when it returns, and what. -/
theorem multimapForEach_append {f : List (MultimapPair K V) → ℕ → Except Fault (List M)}
    {g : HashNode K (MultimapNode K V) → List M}
    (hsz : m.hashTab.tableSz < unsignedRange)
    (hne : ∀ node ∈ m.hashTab.nodes, node.data.list ≠ [])
    (hf : ∀ node ∈ m.hashTab.nodes, f node.data.list node.data.nPairs = .ok (g node))
    (out : List M) :
    multimapForEach m (fun out iter n => (f iter n).map (out ++ ·)) out =
      .ok (out ++ m.hashTab.nodes.flatMap g, !m.hashTab.nodes.isEmpty) := by
  rw [multimapForEach_eq hsz hne]
  exact congrArg (Except.map fun out => (out, !m.hashTab.nodes.isEmpty)) (foldlM_of_forall hf out)

end Loops

/-! ## What is sent -/

section Sending

variable {h : ObjStore U} {m : ObjTable} {objs : List ℕ}

/-- An object that is in a map is there. -/
theorem Shelved.get (hm : Shelved h m objs) {p : Pair} (hp : p ∈ m.pairs) :
    p.val ∈ objs ∧ ∃ obj, h.objects p.val = some obj ∧ p.key ∈ obj.keys := by
  have hmem := hm.stored.mem_iff.mp (List.mem_map_of_mem hp)
  obtain ⟨addr, haddr, hkeys⟩ := List.mem_flatMap.mp hmem
  obtain ⟨key, hkey, heq⟩ := List.mem_map.mp hkeys
  obtain ⟨rfl, rfl⟩ := Prod.mk.inj heq
  obtain ⟨obj, hobj⟩ := Option.isSome_iff_exists.mp (hm.live _ haddr)
  refine ⟨haddr, obj, hobj, ?_⟩
  rwa [keysAt, hobj] at hkey

/-- A group of a map is not empty, and its pairs are pairs of the map. -/
theorem Shelved.group (hm : Shelved h m objs) {node : HashNode CString (MultimapNode CString ℕ)}
    (hnode : node ∈ m.hashTab.nodes) :
    ∃ p l obj, node.data.list = p :: l ∧ h.objects p.val = some obj ∧
      ∀ q ∈ node.data.list, q ∈ m.pairs := by
  have hsub : ∀ q ∈ node.data.list, q ∈ m.pairs := fun q hq =>
    List.mem_flatMap.mpr ⟨node, hnode, hq⟩
  cases hl : node.data.list with
  | nil => exact absurd hl (hm.nonempty node hnode)
  | cons p l =>
    obtain ⟨-, obj, hobj, -⟩ := hm.get (hsub p (hl ▸ List.mem_cons_self ..))
    exact ⟨p, l, obj, rfl, hobj, hl ▸ hsub⟩

theorem namedObject?_eq {p : Pair} {obj : StoredObject U} (hobj : h.objects p.val = some obj) :
    namedObject? h p = if p.key = obj.name then some obj else none := by
  rw [namedObject?, hobj, Option.filter_some]
  by_cases hkey : p.key = obj.name
  · rw [if_pos (decide_eq_true (compareStrings_eq_zero_iff.mpr hkey)), if_pos hkey]
  · rw [if_neg (fun hd => hkey (compareStrings_eq_zero_iff.mp (of_decide_eq_true hd))), if_neg hkey]

theorem isVisibleName_iff {p : Pair} :
    isVisibleName h p = true ↔
      ∃ obj, h.objects p.val = some obj ∧ obj.hidden = false ∧ p.key = obj.name := by
  rw [isVisibleName]
  cases hobj : h.objects p.val with
  | none =>
    rw [namedObject?, hobj]
    simp
  | some obj =>
    rw [namedObject?_eq hobj]
    by_cases hkey : p.key = obj.name
    · simp [hkey]
    · simp [hkey]

theorem isName_iff {p : Pair} :
    isName h p = true ↔ ∃ obj, h.objects p.val = some obj ∧ p.key = obj.name := by
  rw [isName]
  cases hobj : h.objects p.val with
  | none =>
    rw [namedObject?, hobj]
    simp
  | some obj =>
    rw [namedObject?_eq hobj]
    by_cases hkey : p.key = obj.name
    · simp [hkey]
    · simp [hkey]

/-- **The announcements**: of the groups that are led by a kind of pairs, in order, each under the key of
its newest pair and with the number of its pairs. -/
structure Announced (V : Pair → Bool) (gs : List (List Pair)) (ns : List Notice) : Prop where
  groups_eq : ns.map Notice.group = gs.filter (Groups.led V)
  count_eq : ∀ n ∈ ns, n.count = n.group.length
  name_eq : ∀ n ∈ ns, ∃ p l, n.group = p :: l ∧ n.name = p.key

variable {V : Pair → Bool}

theorem announced_nil : Announced V [] [] := ⟨rfl, by simp, by simp⟩

theorem Announced.append {gs gs' : List (List Pair)} {ns ns' : List Notice} (ha : Announced V gs ns)
    (ha' : Announced V gs' ns') : Announced V (gs ++ gs') (ns ++ ns') where
  groups_eq := by rw [List.map_append, List.filter_append, ha.groups_eq, ha'.groups_eq]
  count_eq n hn := (List.mem_append.mp hn).elim (ha.count_eq n) (ha'.count_eq n)
  name_eq n hn := (List.mem_append.mp hn).elim (ha.name_eq n) (ha'.name_eq n)

/-- A group that is announced. -/
theorem announced_of_led {p : Pair} {l : List Pair} (hp : V p = true) (text : List UInt8) :
    Announced V [p :: l] [⟨p.key, (p :: l).length, p :: l, text⟩] where
  groups_eq := by
    rw [List.filter_cons_of_pos (show Groups.led V (p :: l) = true from hp)]
    rfl
  count_eq n hn := by rw [List.mem_singleton.mp hn]
  name_eq n hn := by rw [List.mem_singleton.mp hn]; exact ⟨p, l, rfl, rfl⟩

/-- A group that is not. -/
theorem announced_of_not_led {p : Pair} {l : List Pair} (hp : V p = false) :
    Announced V [p :: l] [] where
  groups_eq := by
    rw [List.filter_cons_of_neg (show ¬ Groups.led V (p :: l) = true by
      rw [Groups.led_cons, hp]; exact Bool.false_ne_true)]
    rfl
  count_eq := by simp
  name_eq := by simp

theorem notices_append (ms ms' : List Message) :
    notices (ms ++ ms') = notices ms ++ notices ms' := List.filterMap_append

/-- The announcements among what a loop sends. -/
theorem announced_flatMap {N : Type} {ns : List N} {group : N → List Pair} {g : N → List Message}
    (hg : ∀ node ∈ ns, Announced V [group node] (notices (g node))) :
    Announced V (ns.map group) (notices (ns.flatMap g)) := by
  induction ns with
  | nil => exact announced_nil
  | cons node ns ih =>
    rw [List.flatMap_cons, notices_append]
    exact (hg node (List.mem_cons_self ..)).append
      (ih fun node' hnode => hg node' (List.mem_cons_of_mem node hnode))

/-- What is sent of a group in a room. -/
theorem descOne_ok (hm : Shelved h m objs) {node : HashNode CString (MultimapNode CString ℕ)}
    (hnode : node ∈ m.hashTab.nodes) :
    ∃ ms, descOne h node.data.list node.data.nPairs = .ok ms ∧
      Announced (isVisibleName h) [node.pairs] (notices ms) := by
  obtain ⟨p, l, obj, hl, hobj, -⟩ := hm.group hnode
  have hpairs : node.pairs = p :: l := hl
  rw [hpairs, node.data.counted, hl, descOne, hobj]
  dsimp only
  by_cases hname : isVisibleName h p = true
  · obtain ⟨obj', hobj', hvis, hkey⟩ := isVisibleName_iff.mp hname
    obtain rfl := Option.some.inj (hobj.symm.trans hobj')
    rw [hvis, if_neg Bool.false_ne_true, if_pos (compareStrings_eq_zero_iff.mpr hkey)]
    exact ⟨_, rfl, announced_of_led hname _⟩
  · have hno := announced_of_not_led (l := l) (Bool.eq_false_iff.mpr hname)
    by_cases hhid : obj.hidden = true
    · rw [if_pos hhid]
      exact ⟨_, rfl, hno⟩
    · rw [if_neg hhid, if_neg fun hc => hname (isVisibleName_iff.mpr
        ⟨obj, hobj, Bool.eq_false_iff.mpr hhid, compareStrings_eq_zero_iff.mp hc⟩)]
      exact ⟨_, rfl, hno⟩

/-- When `format_noun` returns. -/
theorem formatNoun_ok_iff {len : ℕ} {name : CString} {count : ℕ} {defaultArticle capitalize : Bool} :
    (∃ buf, formatNoun len name count defaultArticle capitalize = .ok buf) ↔
      (count = 1 → defaultArticle = false → name.bytes ≠ []) := by
  unfold formatNoun
  by_cases hcount : count = 1
  · rw [if_pos hcount]
    cases defaultArticle with
    | true => exact iff_of_true ⟨_, rfl⟩ fun _ h => absurd h (by simp)
    | false =>
      rw [if_neg Bool.false_ne_true]
      cases hbytes : name.bytes with
      | nil => simp [hcount]
      | cons c rest => exact iff_of_true ⟨_, rfl⟩ fun _ _ => by simp
  · rw [if_neg hcount]
    exact iff_of_true ⟨_, rfl⟩ fun h => absurd h hcount

/-- A group can be spoken of when its only object can. -/
theorem speakable_cons_iff {p : Pair} {l : List Pair} {obj : StoredObject U}
    (hobj : namedObject? h p = some obj) :
    Speakable h (p :: l) ↔
      ((p :: l).length = 1 → obj.defaultArticle = false → p.key.bytes ≠ []) := by
  constructor
  · intro hs hlen hart
    exact hs p obj (by rw [List.length_eq_zero_iff.mp (Nat.succ.inj hlen)]) hobj hart
  · rintro hs q obj' heq hobj' hart
    obtain ⟨rfl, rfl⟩ := List.cons.inj heq
    obtain rfl := Option.some.inj (hobj.symm.trans hobj')
    exact hs rfl hart

/-- **What is sent of a group in an inventory**, and when. -/
theorem inventoryOne_spec (hm : Shelved h m objs) {node : HashNode CString (MultimapNode CString ℕ)}
    (hnode : node ∈ m.hashTab.nodes) :
    ((∃ ms, inventoryOne h node.data.list node.data.nPairs = .ok ms) ↔ Speakable h node.pairs) ∧
      ∀ ms, inventoryOne h node.data.list node.data.nPairs = .ok ms →
        Announced (isName h) [node.pairs] (notices ms) := by
  obtain ⟨p, l, obj, hl, hobj, -⟩ := hm.group hnode
  have hpairs : node.pairs = p :: l := hl
  rw [hpairs, node.data.counted, hl, inventoryOne, hobj]
  dsimp only
  by_cases hkey : p.key = obj.name
  · have hnamed : namedObject? h p = some obj := by rw [namedObject?_eq hobj, if_pos hkey]
    rw [if_pos (compareStrings_eq_zero_iff.mpr hkey), speakable_cons_iff hnamed, ← formatNoun_ok_iff]
    refine ⟨⟨?_, ?_⟩, ?_⟩
    · rintro ⟨ms, hms⟩
      obtain ⟨buf, hbuf, -⟩ := map_eq_ok hms
      exact ⟨buf, hbuf⟩
    · rintro ⟨buf, hbuf⟩
      exact ⟨_, by rw [hbuf]; rfl⟩
    · intro ms hms
      obtain ⟨buf, -, rfl⟩ := map_eq_ok hms
      exact announced_of_led (isName_iff.mpr ⟨obj, hobj, hkey⟩) _
  · have hnamed : namedObject? h p = none := by rw [namedObject?_eq hobj, if_neg hkey]
    rw [if_neg fun hc => hkey (compareStrings_eq_zero_iff.mp hc)]
    refine ⟨iff_of_true ⟨_, rfl⟩ fun q obj' heq hobj' => ?_, fun ms hms => ?_⟩
    · obtain ⟨rfl, -⟩ := List.cons.inj heq
      rw [hnamed] at hobj'
      exact absurd hobj' (by simp)
    · rw [← Except.ok.inj hms]
      exact announced_of_not_led (by rw [isName, hnamed]; rfl)

/-- **A room is described**, unless its map has too many buckets. -/
theorem reqSendDesc_spec {R : Type} {room : Storage.Room R} (hm : Shelved h room.objects objs) :
    ((∃ out, reqSendDesc h room = .ok out) ↔ room.objects.hashTab.tableSz < unsignedRange) ∧
      ∀ out, reqSendDesc h room = .ok out →
        Announced (isVisibleName h) (groups room.objects) (notices out) := by
  have hret : room.objects.hashTab.tableSz < unsignedRange → ∃ out, reqSendDesc h room = .ok out ∧
      Announced (isVisibleName h) (groups room.objects) (notices out) := by
    intro hsz
    choose! g hg using fun node (hnode : node ∈ room.objects.hashTab.nodes) => descOne_ok hm hnode
    refine ⟨[.text room.desc.bytes, .newline] ++ room.objects.hashTab.nodes.flatMap g, ?_, ?_⟩
    · rw [reqSendDesc, describe, multimapForEach_append hsz hm.nonempty fun node hnode => (hg node hnode).1]
      rfl
    · rw [notices_append]
      exact announced_flatMap fun node hnode => (hg node hnode).2
  have hsz : ∀ out, reqSendDesc h room = .ok out →
      room.objects.hashTab.tableSz < unsignedRange := by
    intro out hout
    obtain ⟨r, hr, -⟩ := map_eq_ok hout
    exact tableSz_lt_of_multimapForEach hr
  refine ⟨⟨fun ⟨out, hout⟩ => hsz out hout, fun h => (hret h).imp fun _ => And.left⟩, ?_⟩
  intro out hout
  obtain ⟨out', hout', ha⟩ := hret (hsz out hout)
  rwa [Except.ok.inj (hout.symm.trans hout')]

/-- **An inventory is listed**, unless its map has too many buckets or it has an object that cannot be
spoken of. -/
theorem reqInventory_spec (hm : Shelved h m objs) :
    ((∃ out, reqInventory h m = .ok out) ↔
        m.hashTab.tableSz < unsignedRange ∧ ∀ g ∈ groups m, Speakable h g) ∧
      ∀ out, reqInventory h m = .ok out → Announced (isName h) (groups m) (notices out) := by
  have hret : m.hashTab.tableSz < unsignedRange → (∀ g ∈ groups m, Speakable h g) →
      ∃ out, reqInventory h m = .ok out ∧ Announced (isName h) (groups m) (notices out) := by
    intro hsz hspeak
    have hone : ∀ node ∈ m.hashTab.nodes, ∃ ms,
        inventoryOne h node.data.list node.data.nPairs = .ok ms ∧
          Announced (isName h) [node.pairs] (notices ms) := fun node hnode => by
      obtain ⟨hiff, hann⟩ := inventoryOne_spec hm hnode
      obtain ⟨ms, hms⟩ := hiff.mpr (hspeak _ (List.mem_map_of_mem hnode))
      exact ⟨ms, hms, hann ms hms⟩
    choose! g hg using hone
    have hall : Announced (isName h) (groups m) (notices (m.hashTab.nodes.flatMap g)) :=
      announced_flatMap fun node hnode => (hg node hnode).2
    rw [reqInventory, multimapForEach_append hsz hm.nonempty fun node hnode => (hg node hnode).1]
    cases hnil : !m.hashTab.nodes.isEmpty with
    | true => exact ⟨_, rfl, hall⟩
    | false =>
      refine ⟨([.text (lit "You currently have:\n")] ++ m.hashTab.nodes.flatMap g) ++
        [.text (lit "Nothing!\n")], rfl, ?_⟩
      have hends := (announced_nil.append hall).append announced_nil
      rw [List.nil_append, List.append_nil] at hends
      rw [notices_append, notices_append]
      exact hends
  have hsz : ∀ out, reqInventory h m = .ok out →
      m.hashTab.tableSz < unsignedRange ∧ ∀ g ∈ groups m, Speakable h g := by
    intro out hout
    obtain ⟨r, hr, -⟩ := map_eq_ok hout
    have hlt := tableSz_lt_of_multimapForEach hr
    refine ⟨hlt, fun g hg => ?_⟩
    obtain ⟨node, hnode, rfl⟩ := List.mem_map.mp hg
    rw [multimapForEach_eq hlt hm.nonempty] at hr
    obtain ⟨out', hfold, -⟩ := map_eq_ok hr
    obtain ⟨-, hall⟩ := forall_of_foldlM
      (g := fun node => (inventoryOne h node.data.list node.data.nPairs).toOption.getD [])
      (fun node _ b hb => by rw [hb]; rfl) hfold
    exact (inventoryOne_spec hm hnode).1.mp (hall node hnode)
  refine ⟨⟨fun ⟨out, hout⟩ => hsz out hout,
    fun h => (hret h.1 h.2).imp fun _ => And.left⟩, fun out hout => ?_⟩
  obtain ⟨out', hout', ha⟩ := hret (hsz out hout).1 (hsz out hout).2
  rwa [Except.ok.inj (hout.symm.trans hout')]

end Sending

/-! ## When the numbers are right -/

section Counting

variable {h : ObjStore U} {m : ObjTable} {objs : List ℕ} {V : Pair → Bool} {ns : List Notice}

theorem flatten_groups (m : ObjTable) : (groups m).flatten = m.pairs := List.flatMap_def.symm

/-- A property of keys and addresses, counted over the pairs, can be counted over the objects. -/
theorem Shelved.countP_eq (hm : Shelved h m objs) (q : CString × ℕ → Bool) :
    m.pairs.countP (fun p => q (p.key, p.val)) =
      (objs.map fun addr => (keysAt h addr).countP fun key => q (key, addr)).sum := by
  have hperm := hm.stored.countP_eq q
  rw [List.countP_map, List.countP_flatMap] at hperm
  refine hperm.trans (congrArg List.sum (List.map_congr_left fun addr _ => ?_))
  exact List.countP_map

/-- Every key of an object is stored once. -/
theorem Shelved.nodup (hm : Shelved h m objs) : (m.pairs.map fun p => (p.key, p.val)).Nodup := by
  rw [hm.stored.nodup_iff, List.nodup_flatMap]
  refine ⟨fun addr haddr => (hm.once addr haddr).map fun a b hab => (Prod.mk.inj hab).1, ?_⟩
  refine hm.distinct.imp fun hne => List.disjoint_left.mpr fun e he he' => hne ?_
  obtain ⟨_, -, rfl⟩ := List.mem_map.mp he
  obtain ⟨_, -, heq⟩ := List.mem_map.mp he'
  exact (Prod.mk.inj heq).2.symm

/-- The name of an object is stored once. -/
theorem Shelved.countP_name (hm : Shelved h m objs) {addr : ℕ} {obj : StoredObject U}
    (haddr : addr ∈ objs) (hobj : h.objects addr = some obj) :
    m.pairs.countP (fun p => decide ((p.key, p.val) = (obj.name, addr))) = 1 := by
  have hmem : (obj.name, addr) ∈ m.pairs.map fun p => (p.key, p.val) := by
    rw [hm.stored.mem_iff, List.mem_flatMap]
    exact ⟨addr, haddr, List.mem_map_of_mem (by rw [keysAt, hobj]; exact List.mem_cons_self ..)⟩
  have hone := List.count_eq_one_of_mem hm.nodup hmem
  rw [List.count, List.countP_map] at hone
  rw [← hone]
  refine List.countP_congr fun p _ => ?_
  simp

/-- Of the keys of an object one is the name of a visible object, if the object is visible. -/
theorem countP_keysAt {addr : ℕ} (hlive : (h.objects addr).isSome) (honce : (keysAt h addr).Nodup) :
    ((keysAt h addr).countP fun key => isVisibleName h ⟨0, key, addr⟩) =
      if isVisible h addr = true then 1 else 0 := by
  obtain ⟨obj, hobj⟩ := Option.isSome_iff_exists.mp hlive
  rw [isVisible, hobj, Option.any_some]
  by_cases hhid : obj.hidden = true
  · rw [hhid, Bool.not_true, if_neg Bool.false_ne_true]
    refine List.countP_eq_zero.mpr fun key _ hv => ?_
    obtain ⟨obj', hobj', hvis, -⟩ := isVisibleName_iff.mp hv
    obtain rfl := Option.some.inj (hobj.symm.trans hobj')
    exact absurd (hhid.symm.trans hvis) (by simp)
  · rw [Bool.eq_false_iff.mpr hhid, Bool.not_false, if_pos rfl]
    have hmem : obj.name ∈ keysAt h addr := by
      rw [keysAt, hobj]
      exact List.mem_cons_self ..
    rw [← List.count_eq_one_of_mem honce hmem, List.count]
    refine List.countP_congr fun key _ => ?_
    rw [isVisibleName_iff, beq_iff_eq]
    constructor
    · rintro ⟨obj', hobj', -, hkey⟩
      obtain rfl := Option.some.inj (hobj.symm.trans hobj')
      exact hkey
    · exact fun hkey => ⟨obj, hobj, Bool.eq_false_iff.mpr hhid, hkey⟩

/-- **Names of visible objects** are as many as these objects. -/
theorem Shelved.countP_visible (hm : Shelved h m objs) :
    m.pairs.countP (isVisibleName h) = (objs.filter (isVisible h)).length := by
  have hone : (objs.map fun addr => (keysAt h addr).countP fun key => isVisibleName h ⟨0, key, addr⟩) =
      objs.map fun addr => if isVisible h addr = true then 1 else 0 :=
    List.map_congr_left fun addr haddr => countP_keysAt (hm.live addr haddr) (hm.once addr haddr)
  refine (hm.countP_eq fun e => isVisibleName h ⟨0, e.1, e.2⟩).trans ?_
  rw [hone, ← List.countP_eq_length_filter]
  clear hone hm
  induction objs with
  | nil => rfl
  | cons addr objs ih => rw [List.map_cons, List.sum_cons, ih, List.countP_cons, Nat.add_comm]

/-- The announced numbers are those of the groups. -/
theorem Announced.sum_count {gs : List (List Pair)} (ha : Announced V gs ns) :
    (ns.map Notice.count).sum = ((gs.filter (Groups.led V)).map List.length).sum := by
  rw [← ha.groups_eq, List.map_map]
  exact congrArg List.sum (List.map_congr_left fun n hn => ha.count_eq n hn)

/-- Two groups with one pair are one group. -/
theorem Shelved.eq_of_mem (hm : Shelved h m objs) {g g' : List Pair} (hg : g ∈ groups m)
    (hg' : g' ∈ groups m) {p p' : Pair} (hp : p ∈ g) (hp' : p' ∈ g')
    (heq : (p.key, p.val) = (p'.key, p'.val)) : g = g' := by
  have hnodup := hm.nodup
  rw [← flatten_groups, List.map_flatten, List.nodup_flatten, List.pairwise_map] at hnodup
  by_contra hne
  have : Std.Symm fun a b : List Pair => (a.map fun p => (p.key, p.val)).Disjoint
      (b.map fun p => (p.key, p.val)) := ⟨fun _ _ h => h.symm⟩
  have hdis := hnodup.2.forall hg hg' hne
  refine List.disjoint_left.mp hdis (List.mem_map_of_mem hp) ?_
  rw [heq]
  exact List.mem_map_of_mem hp'

/-- In pure groups a visible object is counted once. -/
theorem counted_once (hm : Shelved h m objs) (ha : Announced (isVisibleName h) (groups m) ns)
    (hpure : ∀ g ∈ groups m, Groups.Pure (isVisibleName h) g) {addr : ℕ} {obj : StoredObject U}
    (haddr : addr ∈ objs) (hobj : h.objects addr = some obj) (hhid : obj.hidden = false) :
    (ns.flatMap fun n => (n.group.filter fun p => p.val = addr).map fun p =>
      (n.name, p.key)).length = 1 := by
  have hlen : (ns.flatMap fun n => (n.group.filter fun p => p.val = addr).map fun p =>
      (n.name, p.key)).length =
      (((ns.map Notice.group).map (List.countP fun p => decide (p.val = addr))).sum) := by
    rw [List.length_flatMap, List.map_map]
    refine congrArg List.sum (List.map_congr_left fun n _ => ?_)
    rw [List.length_map, Function.comp_apply, List.countP_eq_length_filter]
  rw [hlen, ha.groups_eq, Groups.sum_led_of_pure hpure, flatten_groups, ← hm.countP_name haddr hobj]
  refine List.countP_congr fun p _ => ?_
  rw [Bool.and_eq_true, decide_eq_true_eq, decide_eq_true_eq, Prod.mk.injEq, isVisibleName_iff]
  constructor
  · rintro ⟨rfl, obj', hobj', -, hkey⟩
    obtain rfl := Option.some.inj (hobj.symm.trans hobj')
    exact ⟨hkey, rfl⟩
  · rintro ⟨hkey, rfl⟩
    exact ⟨rfl, obj, hobj, hhid, hkey⟩

/-- **A room is accounted for** exactly when its groups are uniform. -/
theorem accounted_iff (hm : Shelved h m objs) (ha : Announced (isVisibleName h) (groups m) ns) :
    Accounted h objs ns ↔ ∀ g ∈ groups m, Uniform h g := by
  have hmem : ∀ g, g ∈ ns.map Notice.group ↔ g ∈ groups m ∧ Groups.led (isVisibleName h) g = true := by
    intro g
    rw [ha.groups_eq, List.mem_filter]
  have hpairs : ∀ g ∈ groups m, ∀ p ∈ g, p ∈ m.pairs := fun g hg p hp =>
    flatten_groups m ▸ List.mem_flatten.mpr ⟨g, hg, hp⟩
  constructor
  · intro hacc g hg
    -- where the object of a pair of a visible name is counted
    have hcounted : ∀ p, p ∈ m.pairs → isVisibleName h p = true → ∀ n ∈ ns, ∀ q ∈ n.group,
        q.val = p.val → n.name = p.key ∧ q.key = p.key := by
      intro p hp hvis n hn q hq hval
      obtain ⟨obj, hobj, hhid, hkey⟩ := isVisibleName_iff.mp hvis
      have hown := hacc.own p.val (hm.get hp).1 obj hobj hhid
      have hin : (n.name, q.key) ∈ ns.flatMap fun n =>
          (n.group.filter fun q => q.val = p.val).map fun q => (n.name, q.key) :=
        List.mem_flatMap.mpr ⟨n, hn, List.mem_map_of_mem
          (List.mem_filter.mpr ⟨hq, decide_eq_true hval⟩)⟩
      rw [hown, List.mem_singleton, Prod.mk.injEq, ← hkey] at hin
      exact hin
    cases hled : Groups.led (isVisibleName h) g with
    | true =>
      obtain ⟨n, hn, rfl⟩ := List.mem_map.mp ((hmem g).mpr ⟨hg, hled⟩)
      have hvis := (hacc.only n hn).2
      have hname : ∀ p ∈ n.group, p.key = n.name := fun p hp =>
        (hcounted p (hpairs _ hg p hp) (hvis p hp) n hn p hp rfl).1.symm
      exact ⟨Or.inl hvis, fun _ p hp q hq => (hname p hp).trans (hname q hq).symm⟩
    | false =>
      refine ⟨Or.inr fun p hp => ?_, fun hl => absurd (hled.symm.trans hl) (by simp)⟩
      by_contra hvis
      rw [Bool.not_eq_false] at hvis
      -- the object is counted in another group, and its name is stored there too
      obtain ⟨obj, hobj, hhid, hkey⟩ := isVisibleName_iff.mp hvis
      have hp' := hpairs g hg p hp
      have hown := hacc.own p.val (hm.get hp').1 obj hobj hhid
      obtain ⟨n, hn, hq⟩ := List.mem_flatMap.mp (hown ▸ List.mem_singleton_self _ :
        (obj.name, obj.name) ∈ ns.flatMap _)
      obtain ⟨q, hq, -⟩ := List.mem_map.mp hq
      obtain ⟨hq, hval⟩ := List.mem_filter.mp hq
      have hval := of_decide_eq_true hval
      obtain ⟨hgn, hledn⟩ := (hmem n.group).mp (List.mem_map_of_mem hn)
      have hsame := hm.eq_of_mem hg hgn hp hq
        (Prod.ext (hcounted p hp' hvis n hn q hq hval).2.symm hval.symm)
      rw [← hsame, hled] at hledn
      exact absurd hledn Bool.false_ne_true
  · intro huni
    have hpure : ∀ g ∈ groups m, Groups.Pure (isVisibleName h) g := fun g hg => (huni g hg).1
    refine ⟨?_, fun addr haddr obj hobj hhid => ?_, fun n hn => ⟨ha.count_eq n hn, ?_⟩⟩
    · have hsum := Groups.sum_led_of_pure hpure fun _ => true
      simp only [Bool.true_and] at hsum
      rw [ha.sum_count, ← hm.countP_visible, ← flatten_groups, ← hsum]
      refine congrArg List.sum (List.map_congr_left fun g _ => ?_)
      exact (congrFun List.countP_true g).symm
    · have hlength := counted_once hm ha hpure haddr hobj hhid
      obtain ⟨e, he⟩ := List.length_eq_one_iff.mp hlength
      have hin : e ∈ ns.flatMap fun n =>
          (n.group.filter fun p => p.val = addr).map fun p => (n.name, p.key) :=
        he ▸ List.mem_singleton_self e
      obtain ⟨n, hn, hin⟩ := List.mem_flatMap.mp hin
      obtain ⟨p, hp, rfl⟩ := List.mem_map.mp hin
      obtain ⟨hp, hval⟩ := List.mem_filter.mp hp
      obtain ⟨hg, hled⟩ := (hmem n.group).mp (List.mem_map_of_mem hn)
      obtain ⟨obj', hobj', -, hkey⟩ := isVisibleName_iff.mp ((hpure _ hg).of_led hled p hp)
      rw [of_decide_eq_true hval, hobj] at hobj'
      obtain rfl := Option.some.inj hobj'
      obtain ⟨newest, l, hgroup, hname⟩ := ha.name_eq n hn
      have hspelled := (huni _ hg).2 hled newest (hgroup ▸ List.mem_cons_self ..) p hp
      rw [he, hname, hspelled, hkey]
    · obtain ⟨hg, hled⟩ := (hmem n.group).mp (List.mem_map_of_mem hn)
      exact (hpure _ hg).of_led hled

/-- **`obj_count_noalias`** is the number of names. -/
theorem objCountNoalias_spec (hm : Shelved h m objs) (hsz : m.hashTab.tableSz < unsignedRange) :
    ∃ n, objCountNoalias h m = .ok n ∧ n.toNat = m.pairs.countP (isName h) := by
  have hret : ∃ n, objCountNoalias h m = .ok n := by
    rw [objCountNoalias, hashForEach_of_lt hsz]
    refine exists_foldlM (fun node hnode n => exists_foldlM (fun p hp n => ?_) n) 0
    obtain ⟨-, obj, hobj, -⟩ := hm.get (List.mem_flatMap.mpr ⟨node, hnode, hp⟩)
    rw [namedObject, hobj]
    exact ⟨_, rfl⟩
  obtain ⟨n, hn⟩ := hret
  refine ⟨n, hn, ?_⟩
  have hcount : (savedObjects h m).length = m.pairs.countP (isName h) := by
    rw [savedObjects, List.length_filterMap_eq_countP]
    rfl
  have hle : m.pairs.countP (isName h) < 2 ^ 64 := List.countP_le_length.trans_lt hm.fits
  rw [objCountNoalias_ok h hn, hcount]
  exact UInt64.toNat_ofNat_of_lt' hle

/-- **Listings account for every object.**  Take any room and any inventory in whose maps every object is
stored once under its name and once under each alias; aliases may be names or aliases of others, objects
may share a name, and any of them may be hidden.

The numbers that are announced in the room account for its objects exactly when its map has less than
`2 ^ 32` buckets, and in every group either all pairs are names of visible objects, spelled alike, or
none is the name of a visible object.

The numbers that are announced of the inventory add up to its objects exactly when its map has less than
`2 ^ 32` buckets, no object without an article and with an empty name is the only one of its key, and the
aliases behind names are as many as the names behind aliases. -/
theorem listings_account_iff {R : Type} (h : ObjStore U) (room : Storage.Room R) (inventory : ObjTable)
    (inRoom carried : List ℕ) (hroom : Shelved h room.objects inRoom)
    (hinv : Shelved h inventory carried) :
    ((∃ out, reqSendDesc h room = .ok out ∧ Accounted h inRoom (notices out)) ↔
        room.objects.hashTab.tableSz < unsignedRange ∧ ∀ g ∈ groups room.objects, Uniform h g) ∧
      ((∃ out n, reqInventory h inventory = .ok out ∧ objCountNoalias h inventory = .ok n ∧
          ((notices out).map Notice.count).sum = n.toNat) ↔
        inventory.hashTab.tableSz < unsignedRange ∧ (∀ g ∈ groups inventory, Speakable h g) ∧
          Balanced h inventory) := by
  constructor
  · obtain ⟨hret, hann⟩ := reqSendDesc_spec hroom
    constructor
    · rintro ⟨out, hout, hacc⟩
      exact ⟨hret.mp ⟨out, hout⟩, (accounted_iff hroom (hann out hout)).mp hacc⟩
    · rintro ⟨hsz, huni⟩
      obtain ⟨out, hout⟩ := hret.mpr hsz
      exact ⟨out, hout, (accounted_iff hroom (hann out hout)).mpr huni⟩
  · obtain ⟨hret, hann⟩ := reqInventory_spec hinv
    constructor
    · rintro ⟨out, n, hout, hn, hsum⟩
      obtain ⟨hsz, hspeak⟩ := hret.mp ⟨out, hout⟩
      obtain ⟨n', hn', hcount⟩ := objCountNoalias_spec hinv hsz
      obtain rfl := Except.ok.inj (hn.symm.trans hn')
      rw [(hann out hout).sum_count, hcount, ← flatten_groups,
        Groups.sum_led_eq_countP_iff] at hsum
      exact ⟨hsz, hspeak, hsum⟩
    · rintro ⟨hsz, hspeak, hbal⟩
      obtain ⟨out, hout⟩ := hret.mpr ⟨hsz, hspeak⟩
      obtain ⟨n, hn, hcount⟩ := objCountNoalias_spec hinv hsz
      refine ⟨out, n, hout, hn, ?_⟩
      rw [(hann out hout).sum_count, hcount, ← flatten_groups, Groups.sum_led_eq_countP_iff]
      exact hbal

end Counting

/-! ## Rocks -/

/-- An object with a name and aliases, visible and with an article. -/
def thing (name : String) (aliases : List String) : StoredObject Unit where
  cls := .ofChars "/generic".toList
  name := .ofChars name.toList
  aliasList := aliases.map fun a => .ofChars a.toList
  refcount := UInt32.ofNat (aliases.length + 1)
  id := 1
  nAlias := UInt64.ofNat aliases.length
  hidden := false
  defaultArticle := true
  userdata := none

/-- Objects at the first addresses. -/
def storeOf (things : List (StoredObject Unit)) : ObjStore Unit where
  objects addr := things[addr]?
  fresh := things.length
  idcounter := 1

/-- A map with one bucket, and these groups in it; cells have no addresses here that matter. -/
def shelf (gs : List (String × List ℕ)) : ObjTable where
  hashTab :=
    { table := [gs.map fun g => ⟨.ofChars g.1.toList,
        ⟨g.2.map fun addr => ⟨0, .ofChars g.1.toList, addr⟩, g.2.length, (List.length_map _).symm⟩⟩]
      nEntries := UInt64.ofNat gs.length
      usedBuckets := 1 }
  totalPairs := (gs.flatMap Prod.snd).length
  refcount := 1
  fresh := 1

/-- A room with these objects. -/
def cave (objects : ObjTable) : Storage.Room Unit where
  id := 0
  data := ⟨none, none⟩
  name := .ofChars "Cave".toList
  desc := .ofChars "You are in a cave.".toList
  adjacent := []
  objects := objects
  verbs := hashInit 8
  userdata := none

/-- Two rocks, one of which is also called a stone. -/
def rocks : ObjStore Unit := storeOf [thing "rock" [], thing "rock" ["stone"]]

/-- The map of these objects. -/
def rockMap : ObjTable := shelf [("rock", [1, 0]), ("stone", [1])]

theorem shelved_rocks : Shelved rocks rockMap [0, 1] where
  live := by decide
  distinct := by decide
  once := by decide
  stored := by decide
  nonempty := by decide
  fits := by decide

/-- Two rocks are announced as two, also if one is called a stone as well. -/
theorem rocks_listed :
    (∃ out, reqSendDesc rocks (cave rockMap) = .ok out ∧ Accounted rocks [0, 1] (notices out)) ∧
      ∃ out n, reqInventory rocks rockMap = .ok out ∧ objCountNoalias rocks rockMap = .ok n ∧
        ((notices out).map Notice.count).sum = n.toNat := by
  obtain ⟨hroom, hinv⟩ := listings_account_iff rocks (cave rockMap) rockMap [0, 1] [0, 1]
    shelved_rocks shelved_rocks
  have hart : ∀ obj ∈ [thing "rock" [], thing "rock" ["stone"]], obj.defaultArticle = true := by decide
  refine ⟨hroom.mpr ⟨by decide, by decide⟩, hinv.mpr ⟨by decide, fun g _ p obj _ hobj hno => ?_, by decide⟩⟩
  have hmem : obj ∈ [thing "rock" [], thing "rock" ["stone"]] :=
    List.mem_of_getElem? (Option.filter_eq_some_iff.mp hobj).1
  exact absurd ((hart obj hmem).symm.trans hno) (by simp)

/-- A rock, and a gem that is also called a rock. -/
def gems : ObjStore Unit := storeOf [thing "rock" [], thing "gem" ["rock"]]

/-- The gem has been put in after the rock. -/
def gemMap : ObjTable := shelf [("rock", [1, 0]), ("gem", [1])]

theorem shelved_gems : Shelved gems gemMap [0, 1] where
  live := by decide
  distinct := by decide
  once := by decide
  stored := by decide
  nonempty := by decide
  fits := by decide

/-- **The rock is not seen any more** when something that is also called a rock is put on it. -/
theorem gem_hides_rock :
    Shelved gems gemMap [0, 1] ∧
      ¬ ∃ out, reqSendDesc gems (cave gemMap) = .ok out ∧ Accounted gems [0, 1] (notices out) := by
  refine ⟨shelved_gems, ?_⟩
  rintro ⟨out, hout, hacc⟩
  have hshelved : Shelved gems (cave gemMap).objects [0, 1] := shelved_gems
  have hann := (reqSendDesc_spec hshelved).2 out hout
  exact absurd ((accounted_iff shelved_gems hann).mp hacc) (by decide)

end Listings

end NetCosm
