import Phaethon.Common.Link
import Phaethon.Common.Lts
import Phaethon.Db.Matcher

/-!
# Proxy chains under live edits

`src/db/matcher.go`, `setNext`, `rewireNextChains` and the proxy and group events of `onConfigChange`. A
proxy is an object with a `Next` pointer, here a number; an event puts a new object into the map, whose
pointer is nil, and then follows the `via` references of every proxy in the map and writes pointers on
the way. A name that leads nowhere is `DIRECT`, the link `out`. The cycle check of `setNext` comes after
the pointers of the cycle were written, and its error is only logged.
-/

open Function List

namespace Config

variable {π : Type*}

/-- The proxies after a write to, or a deletion of, one entry. -/
def Pool.setProxy (pool : Pool π) (key : String) (h : key ≠ "") (proxy : Option π) : Pool π :=
  { pool with
    proxies := update pool.proxies key proxy
    proxies_empty := (update_of_ne h.symm _ _).trans pool.proxies_empty }

/-- The groups after a write to, or a deletion of, one entry. -/
def Pool.setGroup (pool : Pool π) (key : String) (h : key ≠ "") (group : Option ProxyGroup)
    (hname : ∀ g, group = some g → g.name = key) : Pool π :=
  { pool with
    groups := update pool.groups key group
    groups_empty := (update_of_ne h.symm _ _).trans pool.groups_empty
    group_name := by
      intro n g hg
      by_cases hn : n = key
      · rw [hn, update_self] at hg
        exact (hname g hg).trans hn.symm
      · rw [update_of_ne hn] at hg
        exact pool.group_name hg }

end Config

namespace Db

open Config Chain

/-- The proxies and groups of the matcher with the objects behind them: the names in the proxy map, the
`via` reference and the `Next` pointer of each object, the round-robin counters of the groups, and the
first object not yet in use. -/
structure Wiring where
  pool : Pool ℕ
  keys : List String
  mem_keys : ∀ name, name ∈ keys ↔ (pool.proxies name).isSome
  via : ℕ → String
  next : ℕ → Link ℕ
  idx : String → ℕ
  fresh : ℕ
  proxies_lt : ∀ {name p}, pool.proxies name = some p → p < fresh
  nodes_lt : ∀ {name sub}, pool.subscriptions name = some sub → ∀ node ∈ sub.nodes, node.2 < fresh

/-- The lookup of `setNext`: the proxy that a `via` reference names, else what the group of that name
returns now. -/
def Wiring.viaTarget (s : Wiring) (sel : Selection) (depth : ℕ) (p : ℕ) : Resolved ℕ :=
  match s.pool.proxies (s.via p) with
  | some q => (some (q, []), ⟨[], s.idx⟩)
  | none =>
      match s.pool.groups (s.via p) with
      | some g => nextWithVisited s.pool sel depth g ⟨[], s.idx⟩
      | none => (none, ⟨[], s.idx⟩)

/-- A write to the `Next` pointer of a proxy, after a lookup that left the counters `idx`. -/
def Wiring.point (s : Wiring) (p : ℕ) (link : Link ℕ) (idx : String → ℕ) : Wiring :=
  { s with next := update s.next p link, idx := idx }

/-- `(*RuleMatcher).setNext`, with whether it returned without an error. Health results come in
meanwhile: `sel k` is the selection at the step `k` from here. `none` says that `n` steps do not
suffice. -/
def setNext (depth : ℕ) :
    ℕ → (ℕ → Selection) → ℕ → List ℕ → Wiring → Option (Wiring × Bool)
  | 0, _, _, _, _ => none
  | n + 1, sel, p, visited, s =>
      match s.viaTarget (sel 0) depth p with
      | (none, w) => some (s.point p .out w.idx, true)
      | (some (q, _), w) =>
          -- an error leaves the pointer of `p` as it was, and those written before as they are
          if q ∈ visited then some ({ s with idx := w.idx }, false)
          else setNext depth n (fun k => sel (k + 1)) q (q :: visited) (s.point p (.ref q) w.idx)

/-- `(*RuleMatcher).rewireNextChains`, with the map's entries in the order of the iteration. -/
def rewireNextChains (sel : String → ℕ → Selection) (depth steps : ℕ) :
    List String → Wiring → Option Wiring
  | [], s => some s
  | name :: order, s =>
      match s.pool.proxies name with
      | none => rewireNextChains sel depth steps order s
      | some p =>
          (setNext depth steps (sel name) p [] s).bind fun r =>
            rewireNextChains sel depth steps order r.1

/-! ## Events -/

/-- A database key. -/
abbrev Key := { key : String // key ≠ "" }

/-- `ChangeEvent`, for proxies and groups, with what is then loaded from the database; nothing if that
fails. A proxy is given by its `via` reference. -/
inductive ChangeEvent where
  | putProxy (key : Key) (loaded : Option String)
  | deleteProxy (key : Key)
  | putGroup (loaded : Option { g : ProxyGroup // g.name ≠ "" })
  | deleteGroup (key : Key)

variable (s : Wiring)

/-- `m.proxies[key] = proxy`, for an object just loaded. -/
def Wiring.putProxy (key : Key) (via : String) : Wiring :=
  { s with
    pool := s.pool.setProxy key key.2 (some s.fresh)
    keys := s.keys.insert key
    mem_keys := by
      intro name
      by_cases h : name = key
      · simp [h, Pool.setProxy]
      · simp [h, Pool.setProxy, s.mem_keys]
    via := update s.via s.fresh via
    next := update s.next s.fresh .nil
    fresh := s.fresh + 1
    proxies_lt := by
      intro name p hp
      by_cases h : name = key
      · simp only [Pool.setProxy, h, update_self, Option.some.injEq] at hp
        omega
      · simp only [Pool.setProxy, ne_eq, h, not_false_eq_true, update_of_ne] at hp
        exact Nat.lt_succ_of_lt (s.proxies_lt hp)
    nodes_lt := fun h node hnode => Nat.lt_succ_of_lt (s.nodes_lt h node hnode) }

/-- `delete(m.proxies, key)`. -/
def Wiring.deleteProxy (key : Key) : Wiring :=
  { s with
    pool := s.pool.setProxy key key.2 none
    keys := s.keys.filter (· ≠ key)
    mem_keys := by
      intro name
      by_cases h : name = key
      · simp [h, Pool.setProxy]
      · simp [h, Pool.setProxy, s.mem_keys]
    proxies_lt := by
      intro name p hp
      by_cases h : name = key
      · simp [h, Pool.setProxy] at hp
      · simp only [Pool.setProxy, ne_eq, h, not_false_eq_true, update_of_ne] at hp
        exact s.proxies_lt hp }

/-- `m.groups[g.Name] = g`, for a group just loaded. -/
def Wiring.putGroup (g : { g : ProxyGroup // g.name ≠ "" }) : Wiring :=
  { s with
    pool := s.pool.setGroup g.1.name g.2 (some g.1) fun _ h => Option.some.inj h ▸ rfl
    idx := update s.idx g.1.name 0 }

/-- `delete(m.groups, key)`. -/
def Wiring.deleteGroup (key : Key) : Wiring :=
  { s with pool := s.pool.setGroup key key.2 none fun _ h => by cases h }

/-- The update of the maps; `none` if there is nothing to update them with. -/
def Wiring.edit : ChangeEvent → Option Wiring
  | .putProxy key loaded => loaded.map (s.putProxy key)
  | .deleteProxy key => some (s.deleteProxy key)
  | .putGroup loaded => loaded.map s.putGroup
  | .deleteGroup key => some (s.deleteGroup key)

/-- An event with the environment of its rewiring. -/
structure Change where
  event : ChangeEvent
  order : List String
  sel : String → ℕ → Selection
  depth : ℕ
  steps : ℕ

/-- `onConfigChange`. -/
def onConfigChange (c : Change) : Option Wiring :=
  match s.edit c.event with
  | none => some s
  | some t =>
      if c.order.Perm t.keys then rewireNextChains c.sel c.depth c.steps c.order t else none

/-! ## Rewiring -/

theorem Wiring.point_next_self (p : ℕ) (link : Link ℕ) (idx : String → ℕ) :
    (s.point p link idx).next p = link :=
  update_self ..

theorem Wiring.point_next_of_ne {s : Wiring} {p x : ℕ} {link : Link ℕ} {idx : String → ℕ}
    (h : x ≠ p) : (s.point p link idx).next x = s.next x :=
  update_of_ne h ..

/-- `p` refers to `q`: by name, or by the name of a group that can lead to it. -/
def Wiring.Via (s : Wiring) (p q : ℕ) : Prop :=
  ∃ hops, Leads s.pool (s.via p) q hops

/-- Following the references always ends. -/
def Wiring.Acyclic (s : Wiring) : Prop :=
  WellFounded fun q p => s.Via p q

/-- Every proxy in the map leads to `DIRECT` along `Next`. -/
def Wiring.Chained (s : Wiring) : Prop :=
  ∀ name p, s.pool.proxies name = some p → Ends s.next p

/-- Only pointers and counters are written, and every pointer that was written has a way out. -/
structure Rewired (s t : Wiring) : Prop where
  pool : t.pool = s.pool
  via : t.via = s.via
  changed : ∀ x, t.next x ≠ s.next x → Ends t.next x

variable {s t u : Wiring}

theorem Rewired.refl : Rewired s s := ⟨rfl, rfl, fun _ h => absurd rfl h⟩

theorem Rewired.trans (h : Rewired s t) (h' : Rewired t u) : Rewired s u := by
  refine ⟨h'.pool.trans h.pool, h'.via.trans h.via, fun x hx => ?_⟩
  by_cases hsame : u.next x = t.next x
  · exact (h.changed x (hsame ▸ hx)).of_changed h'.changed
  · exact h'.changed x hsame

theorem Wiring.via_of_viaTarget {sel : Selection} {depth p q : ℕ} {hops : List Hop}
    (h : (s.viaTarget sel depth p).1 = some (q, hops)) : s.Via p q := by
  unfold viaTarget at h
  split at h
  case h_1 q' hproxy =>
      cases h
      exact ⟨[], .inl ⟨hproxy, rfl⟩⟩
  case h_2 hproxy =>
      split at h
      case h_1 g hg =>
          have hreach := (nextWithVisited_sound sel depth).reach (s.pool.group_name_ne hg)
            (Subset.refl _) h
          exact ⟨hops, .inr ⟨hproxy, g, hg, hreach⟩⟩
      case h_2 => cases h

/-- Nothing that leads to `p` is what `p` refers to. -/
theorem Wiring.Acyclic.not_visited (hs : s.Acyclic) {p q : ℕ} (hpq : s.Via p q) :
    ¬ Relation.ReflTransGen s.Via q p := by
  intro hqp
  have hcycle : Relation.TransGen s.Via q q := Relation.TransGen.tail' hqp hpq
  have hswap : Relation.TransGen (fun q p => s.Via p q) q q := Relation.transGen_swap.mp hcycle
  exact (WellFounded.transGen hs).asymmetric q q hswap hswap

/-- A rewritten pointer: `t` comes from the rest of the walk, which began behind `p`. -/
theorem rewired_of_point {p q : ℕ} {idx : String → ℕ} (h : Rewired (s.point p (.ref q) idx) t)
    (hq : Ends t.next q) : Rewired s t ∧ Ends t.next p := by
  have hp : Ends t.next p := by
    by_cases hsame : t.next p = (s.point p (.ref q) idx).next p
    · exact .ref (hsame.trans (Wiring.point_next_self ..)) hq
    · exact h.changed p hsame
  refine ⟨⟨h.pool, h.via, fun x hx => ?_⟩, hp⟩
  by_cases hxp : x = p
  · exact hxp ▸ hp
  · apply h.changed x
    rwa [Wiring.point_next_of_ne hxp]

/-- One walk. The proxies visited so far all lead to the current one, so where references do not run in
circles the check finds nothing and the walk comes to its end. -/
theorem setNext_rewired {sel : ℕ → Selection} {depth n p : ℕ} {visited : List ℕ} {ok : Bool}
    (hs : s.Acyclic) (hvisited : ∀ v ∈ visited, Relation.ReflTransGen s.Via v p)
    (h : setNext depth n sel p visited s = some (t, ok)) : Rewired s t ∧ Ends t.next p := by
  induction n generalizing sel p visited s with
  | zero => cases h
  | succ n ih =>
    unfold setNext at h
    split at h
    case h_1 w hnone =>
        obtain ⟨rfl, _⟩ := Prod.mk.inj (Option.some.inj h)
        have hp : Ends (s.point p .out w.idx).next p := .out (Wiring.point_next_self ..)
        refine ⟨⟨rfl, rfl, fun x hx => ?_⟩, hp⟩
        by_cases hxp : x = p
        · exact hxp ▸ hp
        · exact absurd (Wiring.point_next_of_ne hxp) hx
    case h_2 q hops w hsome =>
        have hvia : s.Via p q := Wiring.via_of_viaTarget (congrArg Prod.fst hsome)
        rw [if_neg fun hq => hs.not_visited hvia (hvisited q hq)] at h
        have hbehind : ∀ v ∈ q :: visited, Relation.ReflTransGen s.Via v q := by
          intro v hv
          rcases mem_cons.mp hv with rfl | hv
          · exact .refl
          · exact (hvisited v hv).tail hvia
        obtain ⟨hrest, hq⟩ := ih (s := s.point p (.ref q) w.idx) hs hbehind h
        exact rewired_of_point hrest hq

theorem Rewired.acyclic (h : Rewired s t) (hs : s.Acyclic) : t.Acyclic := by
  unfold Wiring.Acyclic Wiring.Via
  rw [h.pool, h.via]
  exact hs

theorem rewireNextChains_rewired {sel : String → ℕ → Selection} {depth steps : ℕ}
    {order : List String} (hs : s.Acyclic) (h : rewireNextChains sel depth steps order s = some t) :
    Rewired s t ∧ ∀ name ∈ order, ∀ p, s.pool.proxies name = some p → Ends t.next p := by
  induction order generalizing s with
  | nil =>
    cases h
    exact ⟨.refl, fun _ hname => by cases hname⟩
  | cons name order ih =>
    unfold rewireNextChains at h
    split at h
    case h_1 hnone =>
        obtain ⟨hrest, hends⟩ := ih hs h
        refine ⟨hrest, fun other hother p hp => ?_⟩
        rcases mem_cons.mp hother with rfl | hother
        · rw [hnone] at hp
          cases hp
        · exact hends other hother p hp
    case h_2 q hq =>
        obtain ⟨⟨u, ok⟩, hset, h⟩ := Option.bind_eq_some_iff.mp h
        obtain ⟨hfirst, hqends⟩ := setNext_rewired hs (fun _ hv => by cases hv) hset
        obtain ⟨hrest, hends⟩ := ih (hfirst.acyclic hs) h
        refine ⟨hfirst.trans hrest, fun other hother p hp => ?_⟩
        rcases mem_cons.mp hother with rfl | hother
        · obtain rfl := Option.some.inj (hq.symm.trans hp)
          -- later walks may pass through `q` again, but leave it with a way out
          exact hqends.of_changed hrest.changed
        · exact hends other hother p (hfirst.pool ▸ hp)

/-! ## What an event leaves behind -/

/-- The event leaves references that do not run in circles. -/
def Change.KeepsAcyclic (s : Wiring) (c : Change) : Prop :=
  ∀ t, s.edit c.event = some t → t.Acyclic

/-- After an event that keeps the references free of circles every chain ends, whatever the pointers
were before it. -/
theorem onConfigChange_chained {c : Change} (hs : s.Chained) (hc : c.KeepsAcyclic s)
    (h : onConfigChange s c = some t) : t.Chained := by
  unfold onConfigChange at h
  split at h
  case h_1 => exact Option.some.inj h ▸ hs
  case h_2 u hu =>
      split at h
      case isTrue horder =>
          obtain ⟨hrewired, hends⟩ := rewireNextChains_rewired (hc u hu) h
          intro name p hp
          rw [hrewired.pool] at hp
          have hkey : name ∈ u.keys := (u.mem_keys name).mpr (hp ▸ rfl)
          exact hends name (horder.mem_iff.mpr hkey) p hp
      case isFalse => cases h

end Db
