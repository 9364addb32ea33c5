import Phaethon.Config.Group

/-!
# What a group can lead to

`Reach` says which proxies a group can return at all, and on which way, whatever the active members, the
health results and the round-robin counters are: a chain of nested groups, none of them twice, in which
each member is one its group's strategy can pick. `nextWithVisited` returns nothing else, and each of
these for some selection (`exists_next_iff_reach`).
-/

namespace Config

open Function List Option Selection

variable {π : Type*} {pool : Pool π} {g : ProxyGroup} {m : GroupMember}

/-- A manual member that its group's strategy passes over for a subscription member: the two have the
same name, or share an entry of the health map. -/
def Shadowed (pool : Pool π) (g : ProxyGroup) (m : GroupMember) : Prop :=
  m.fromSubscription = false ∧ ∃ s ∈ subscriptionMembers pool g,
    match g.type with
    | .select => s.name = m.name
    | .best => s.healthKey = m.healthKey
    | .loadBalance | .other _ => False

/-- A member that its group can pick. -/
def Pickable (pool : Pool π) (g : ProxyGroup) (m : GroupMember) : Prop :=
  m ∈ computeMembers pool g ∧ ¬ Shadowed pool g m

/-- `Reach pool visited g p hops`: outside the groups `visited`, group `g` can lead to `p` by `hops`. -/
inductive Reach (pool : Pool π) : List String → ProxyGroup → π → List Hop → Prop
  | member {visited g m p hops} (fresh : g.name ∉ visited) (pick : Pickable pool g m)
      (found : resolveMember pool g m = some (p, hops)) :
      Reach pool visited g p (.group g.name :: hops)
  | nested {visited g m h p hops} (fresh : g.name ∉ visited) (pick : Pickable pool g m)
      (isGroup : m.isGroup = true) (found : pool.groups m.name = some h)
      (rest : Reach pool (g.name :: visited) h p hops) :
      Reach pool visited g p (.group g.name :: hops)

/-- The types that `Init` accepts. -/
def Supported (t : GroupType) : Prop :=
  t = .select ∨ t = .loadBalance ∨ t = .best

/-! ## Picking -/

/-- The members that are left in the loop of `NextWithVisited`: every subscription member, as they all
resolve, and some manual ones. -/
def Remaining (pool : Pool π) (g : ProxyGroup) (members : List GroupMember) : Prop :=
  ∃ rest, members = subscriptionMembers pool g ++ rest ∧
    ∀ m ∈ rest, m ∈ computeMembers pool g ∧ m.fromSubscription = false

theorem remaining_computeMembers : Remaining pool g (computeMembers pool g) := by
  refine ⟨_, rfl, fun m hm => ⟨mem_append_right _ hm, ?_⟩⟩
  obtain ⟨_, _, hm⟩ := mem_filterMap.mp hm
  exact (manualMember_eq_some hm).2.1

variable {members : List GroupMember}

theorem Remaining.mem (h : Remaining pool g members) (hm : m ∈ members) : m ∈ computeMembers pool g := by
  obtain ⟨rest, rfl, hrest⟩ := h
  rcases mem_append.mp hm with hm | hm
  · exact mem_append_left _ hm
  · exact (hrest m hm).1

theorem Remaining.erase (h : Remaining pool g members) (hm : m ∉ subscriptionMembers pool g) :
    Remaining pool g (members.erase m) := by
  obtain ⟨rest, rfl, hrest⟩ := h
  refine ⟨rest.erase m, erase_append_right _ hm, fun x hx => ?_⟩
  exact hrest x (mem_of_mem_erase hx)

/-- `select` finds a subscription member before a manual one of the same name. -/
theorem not_shadowed_of_select {active : String} (h : Remaining pool g members) {s : GroupMember}
    (hs : s ∈ subscriptionMembers pool g) (hname : s.name = (nextSelectMember active members).name) :
    (nextSelectMember active members).fromSubscription = true := by
  obtain ⟨rest, rfl, _⟩ := h
  have hhead : ((subscriptionMembers pool g ++ rest).headD .zero).fromSubscription = true := by
    obtain ⟨x, xs, hx⟩ := exists_cons_of_ne_nil (ne_nil_of_mem hs)
    have hmem : x ∈ subscriptionMembers pool g := hx ▸ mem_cons_self
    rw [hx]
    exact fromSubscription_of_mem hmem
  unfold nextSelectMember at hname ⊢
  by_cases ha : active = ""
  · simpa only [ha, if_true] using hhead
  · simp only [ha, if_false, find?_append] at hname ⊢
    cases hfind : (subscriptionMembers pool g).find? (·.name = active) with
    | some x =>
      exact fromSubscription_of_mem (mem_of_find?_eq_some hfind)
    | none =>
      simp only [hfind, none_or] at hname ⊢
      cases hrest : rest.find? (·.name = active) with
      | none => exact hhead
      | some y =>
        have hy : y.name = active := by simpa using find?_some hrest
        simp only [hrest] at hname
        exact absurd (hname.trans hy) (by simpa using find?_eq_none.mp hfind s hs)

/-- A best group meets a subscription member before a manual one with the same health entry, and later
members have to be faster. -/
theorem not_shadowed_of_best {health : String → Option HealthStatus} (h : Remaining pool g members)
    {s : GroupMember} (hs : s ∈ subscriptionMembers pool g)
    (hkey : s.healthKey = (nextByHealthMember health members).healthKey)
    (hne : (nextByHealthMember health members).name ≠ "") :
    (nextByHealthMember health members).fromSubscription = true := by
  have hname : ∀ m ∈ members, m.name ≠ "" := fun m hm => name_ne_of_mem (h.mem hm)
  obtain ⟨rest, rfl, _⟩ := h
  have hsub := isBest_foldl health (fun m hm => hname m (mem_append_left _ hm))
    (.zero, 0)
  have hrest := isBest_foldl health (fun m hm => hname m (mem_append_right _ hm))
    ((subscriptionMembers pool g).foldl (betterMember health) (.zero, 0))
  rw [← foldl_append] at hrest
  unfold nextByHealthMember at hkey hne ⊢
  generalize hB : (subscriptionMembers pool g).foldl (betterMember health) (.zero, 0) = b at *
  generalize hR : (subscriptionMembers pool g ++ rest).foldl (betterMember health) (.zero, 0) = r at *
  have hstart (hb : b.1.name ≠ "") : b.1.fromSubscription = true := by
    rcases hsub.origin with rfl | ⟨hmem, _⟩
    · exact absurd rfl hb
    · exact fromSubscription_of_mem hmem
  by_cases hr : r.1.name ≠ ""
  · simp only [hr, ne_eq, not_false_eq_true, if_true] at hkey hne ⊢
    rcases hrest.origin with rfl | ⟨_, t, ht, ha, hlat⟩
    · exact hstart hr
    · obtain ⟨hb, hle⟩ := hsub.least s hs t (hkey ▸ ht) ha
      rcases hrest.kept hb with rfl | ⟨_, hlt⟩
      · exact hstart hr
      · omega
  · simp only [hr, if_false, find?_append] at hkey hne ⊢
    cases hfind : (subscriptionMembers pool g).find? fun m => (health m.healthKey).isNone with
    | some x =>
      exact fromSubscription_of_mem (mem_of_find?_eq_some hfind)
    | none =>
      simp only [hfind, none_or] at hkey hne
      cases hrest' : rest.find? fun m => (health m.healthKey).isNone with
      | none => simp [hrest', GroupMember.zero] at hne
      | some y =>
        simp only [hrest', getD_some] at hkey
        have hy := find?_some hrest'
        exact absurd (hkey ▸ hy) (by simpa using find?_eq_none.mp hfind s hs)

variable {sel : Selection}

/-- The member that a strategy picks is one that its group can pick. -/
theorem pickable_of_pick {idx : ℕ} (h : Remaining pool g members)
    (hne : (pickMember sel g members idx).1.name ≠ "") (hmem : members ≠ []) :
    (pickMember sel g members idx).1 ∈ members ∧
      Pickable pool g (pickMember sel g members idx).1 := by
  have hname : ∀ m ∈ members, m.name ≠ "" := fun m hm => name_ne_of_mem (h.mem hm)
  unfold Pickable Shadowed
  unfold pickMember at hne ⊢
  split at hne
  all_goals rename_i htype; simp only [htype]
  · have hpick : nextSelectMember (sel.active g.name) members ∈ members :=
      nextSelectMember_mem hmem
    refine ⟨hpick, h.mem hpick, ?_⟩
    rintro ⟨hman, s, hs, hsame⟩
    simp [not_shadowed_of_select h hs hsame] at hman
  · rcases nextRoundRobinAliveMember_spec (sel.health g.name) members.length idx hmem
      with hz | ⟨hpick, _⟩
    · rw [hz] at hne
      exact absurd rfl hne
    · exact ⟨hpick, h.mem hpick, by simp⟩
  · rcases nextByHealthMember_spec (sel.health g.name) hname with hz | ⟨hpick, _⟩
    · rw [hz] at hne
      exact absurd rfl hne
    · refine ⟨hpick, h.mem hpick, ?_⟩
      rintro ⟨hman, s, hs, hsame⟩
      simp [not_shadowed_of_best h hs hsame hne] at hman
  · obtain ⟨x, xs, rfl⟩ := exists_cons_of_ne_nil hmem
    exact ⟨mem_cons_self, h.mem mem_cons_self, by simp⟩

/-! ## Every result is reachable -/

variable {inner : ProxyGroup → Walk → Resolved π} {ancestors : List String} {w : Walk}

/-- What the resolution of nested groups has to keep: no group is unmarked, and a result is reachable
from below the groups that are marked. -/
structure Sound (pool : Pool π) (inner : ProxyGroup → Walk → Resolved π) : Prop where
  grows : ∀ {g w}, g.name ≠ "" → w.visited ⊆ (inner g w).2.visited
  reach : ∀ {g w p hops ancestors}, g.name ≠ "" → ancestors ⊆ w.visited →
    (inner g w).1 = some (p, hops) → Reach pool ancestors g p hops

theorem Sound.grows_member (hinner : Sound pool inner) :
    w.visited ⊆ (resolveMemberWithVisited pool inner g m w).2.visited := by
  unfold resolveMemberWithVisited
  split
  · split
    case h_1 inside hfound => exact hinner.grows (pool.group_name_ne hfound)
    case h_2 => exact Subset.refl _
  · exact Subset.refl _

variable {hops : List Hop} {p : π}

theorem Sound.reach_member (hinner : Sound pool inner) (hfresh : g.name ∉ ancestors)
    (hvisited : g.name :: ancestors ⊆ w.visited) (hpick : Pickable pool g m)
    (h : (resolveMemberWithVisited pool inner g m w).1 = some (p, hops)) :
    Reach pool ancestors g p (.group g.name :: hops) := by
  unfold resolveMemberWithVisited at h
  split at h
  case isTrue hgroup =>
      split at h
      case h_1 inside hfound =>
          have hname : inside.name ≠ "" := pool.group_name_ne hfound
          exact .nested hfresh hpick hgroup hfound (hinner.reach hname hvisited h)
      case h_2 => cases h
  case isFalse => exact .member hfresh hpick h

/-- A member that resolved to nothing is not from the subscription. -/
theorem not_mem_of_resolve_none
    (h : (resolveMemberWithVisited pool inner g m w).1 = none) : m ∉ subscriptionMembers pool g := by
  intro hm
  have hsome := resolveMember_isSome hm
  obtain ⟨_, _, _, _, rfl⟩ := mem_subscriptionMembers.mp hm
  simp only [resolveMemberWithVisited, Bool.false_eq_true, if_false] at h
  simp [h] at hsome

theorem tryMembers_sound (sel : Selection) (hinner : Sound pool inner)
    (hfresh : g.name ∉ ancestors) {n : ℕ} {members : List GroupMember} {w : Walk}
    (hrem : Remaining pool g members) (hvisited : g.name :: ancestors ⊆ w.visited) :
    w.visited ⊆ (tryMembers pool sel inner g n members w).2.visited ∧
      ∀ p hops, (tryMembers pool sel inner g n members w).1 = some (p, hops) →
        Reach pool ancestors g p (.group g.name :: hops) := by
  induction n generalizing members w with
  | zero => exact ⟨Subset.refl _, fun p hops h => by cases h⟩
  | succ n ih =>
    unfold tryMembers
    split
    case isTrue => exact ⟨Subset.refl _, fun p hops h => by cases h⟩
    case isFalse hmem =>
        dsimp only
        split
        case isTrue => exact ⟨Subset.refl _, fun p hops h => by cases h⟩
        case isFalse hne =>
            have hpick := (pickable_of_pick hrem hne hmem).2
            -- from here on only the marked groups of the walk matter, not its counters
            generalize hw : Walk.mk w.visited _ = w'
            have hsame : w'.visited = w.visited := hw ▸ rfl
            rw [← hsame] at hvisited ⊢
            have hgrows := hinner.grows_member (g := g) (w := w')
              (m := (pickMember sel g members (w.idx g.name)).1)
            split
            case h_1 p w'' heq =>
                rw [heq] at hgrows
                refine ⟨hgrows, fun p' hops h => ?_⟩
                refine hinner.reach_member hfresh hvisited hpick ?_
                rw [heq]
                exact h
            case h_2 w'' heq =>
                rw [heq] at hgrows
                have hgone := not_mem_of_resolve_none (congrArg Prod.fst heq)
                obtain ⟨hvis, hreach⟩ := ih (hrem.erase hgone) (Subset.trans hvisited hgrows)
                exact ⟨Subset.trans hgrows hvis, hreach⟩

/-- The walk of a group that was not visited before, with the group marked. -/
def Walk.enter (w : Walk) (name : String) : Walk :=
  { w with visited := name :: w.visited }

variable {fuel : ℕ}

theorem nextWithVisited_succ (hname : g.name ≠ "") (hfresh : g.name ∉ w.visited) :
    nextWithVisited pool sel (fuel + 1) g w =
      let r := tryMembers pool sel (nextWithVisited pool sel fuel) g (computeMembers pool g).length
        (computeMembers pool g) (w.enter g.name)
      (r.1.map fun p => (p.1, .group g.name :: p.2), r.2) := by
  rw [nextWithVisited, if_neg (by tauto)]
  simp only [hname, ne_eq, not_false_eq_true, if_true, Walk.enter]
  split
  case h_1 heq => simp [heq]
  case h_2 heq => simp [heq]

theorem nextWithVisited_visited (hname : g.name ≠ "")
    (hold : g.name ∈ w.visited) : nextWithVisited pool sel (fuel + 1) g w = (none, w) := by
  rw [nextWithVisited, if_pos ⟨hname, hold⟩]

theorem nextWithVisited_sound (sel : Selection) (fuel : ℕ) : Sound pool (nextWithVisited pool sel fuel) := by
  induction fuel with
  | zero => exact ⟨fun _ => Subset.refl _, fun _ _ h => by cases h⟩
  | succ fuel ih =>
    constructor
    · intro g w hname
      by_cases hold : g.name ∈ w.visited
      · rw [nextWithVisited_visited hname hold]
        exact Subset.refl _
      · rw [nextWithVisited_succ hname hold]
        have hmark : [g.name] ⊆ (w.enter g.name).visited := by simp [Walk.enter]
        exact Subset.trans (subset_cons_self g.name w.visited)
          (tryMembers_sound sel ih (not_mem_nil) remaining_computeMembers hmark).1
    · intro g w p hops ancestors hname hvisited h
      by_cases hold : g.name ∈ w.visited
      · rw [nextWithVisited_visited hname hold] at h
        cases h
      · rw [nextWithVisited_succ hname hold] at h
        obtain ⟨⟨p', hops'⟩, hr, heq⟩ := map_eq_some_iff.mp h
        cases heq
        have hfresh : g.name ∉ ancestors := fun hmem => hold (hvisited hmem)
        have hmark : g.name :: ancestors ⊆ (w.enter g.name).visited :=
          cons_subset_cons g.name hvisited
        exact (tryMembers_sound sel ih hfresh remaining_computeMembers hmark).2 p' hops' hr

/-! ## Everything reachable is returned for some selection -/

theorem mem_computeMembers (h : m ∈ computeMembers pool g) :
    m ∈ subscriptionMembers pool g ∧ m = ⟨m.name, true, false⟩ ∨
      m.fromSubscription = false ∧ manualMember pool m.name = some m := by
  rcases mem_append.mp h with h | h
  · refine .inl ⟨h, ?_⟩
    obtain ⟨_, _, _, _, rfl⟩ := mem_subscriptionMembers.mp h
    rfl
  · obtain ⟨name, _, hm⟩ := mem_filterMap.mp h
    obtain ⟨rfl, hman, _⟩ := manualMember_eq_some hm
    exact .inr ⟨hman, hm⟩

theorem healthKey_inj {r m : GroupMember} (hsource : r.fromSubscription = m.fromSubscription)
    (h : r.healthKey = m.healthKey) : r.name = m.name := by
  unfold GroupMember.healthKey at h
  rw [hsource] at h
  split at h
  · exact (String.append_right_inj "sub:").mp h
  · exact h

/-- A strategy tells the members it can pick apart: by name, or by health entry. -/
theorem Pickable.unique {r : GroupMember} (hr : Pickable pool g r) (hm : Pickable pool g m)
    (hsame : g.type = .select ∧ r.name = m.name ∨ g.type = .best ∧ r.healthKey = m.healthKey) :
    r = m := by
  have hname (hsource : r.fromSubscription = m.fromSubscription) : r.name = m.name := by
    rcases hsame with ⟨_, h⟩ | ⟨_, h⟩
    · exact h
    · exact healthKey_inj hsource h
  have hshadow {s x : GroupMember} (hs : s ∈ subscriptionMembers pool g)
      (hx : x.fromSubscription = false) (hlike : s = r ∧ x = m ∨ s = m ∧ x = r) :
      Shadowed pool g x := by
    refine ⟨hx, s, hs, ?_⟩
    rcases hsame with ⟨ht, h⟩ | ⟨ht, h⟩
    all_goals rw [ht]
    all_goals rcases hlike with ⟨rfl, rfl⟩ | ⟨rfl, rfl⟩
    all_goals first | exact h | exact h.symm
  rcases mem_computeMembers hr.1 with ⟨hrs, hreq⟩ | ⟨hrm, hreq⟩
  all_goals rcases mem_computeMembers hm.1 with ⟨hms, hmeq⟩ | ⟨hmm, hmeq⟩
  · rw [hreq, hmeq, hname (by rw [hreq, hmeq])]
  · exact absurd (hshadow hrs hmm (.inl ⟨rfl, rfl⟩)) hm.2
  · exact absurd (hshadow hms hrm (.inr ⟨rfl, rfl⟩)) hr.2
  · rw [hname (hrm.trans hmm.symm), hmeq] at hreq
    exact (Option.some.inj hreq).symm

/-- The selection under which each group picks the member that `route` gives for it. The numbers are
for the round-robin counters. -/
def Selection.toward (route : String → GroupMember × ℕ) : Selection where
  active n := (route n).1.name
  health n key := if key = (route n).1.healthKey then some ⟨true, 0, 0, 0⟩ else none

variable {route : String → GroupMember × ℕ}

theorem Selection.toward_health {n key : String}
    {s : HealthStatus} (h : (toward route).health n key = some s) :
    key = (route n).1.healthKey ∧ s.alive = true := by
  unfold toward at h
  dsimp only at h
  split at h <;> cases h
  case isTrue hkey => exact ⟨hkey, rfl⟩

theorem pickMember_toward (htype : Supported g.type) (hpick : Pickable pool g m)
    (hroute : route g.name = (m, (computeMembers pool g).idxOf m)) :
    (pickMember (.toward route) g (computeMembers pool g) (route g.name).2).1 = m := by
  have hne : computeMembers pool g ≠ [] := ne_nil_of_mem hpick.1
  have hrem : Remaining pool g (computeMembers pool g) := remaining_computeMembers
  have halive : (toward route).health g.name m.healthKey = some ⟨true, 0, 0, 0⟩ := by
    simp [toward, hroute]
  rcases htype with ht | ht | ht
  · have heq : (pickMember (.toward route) g (computeMembers pool g) (route g.name).2).1 =
        nextSelectMember m.name (computeMembers pool g) := by
      simp [pickMember, ht, toward, hroute]
    have hname := nextSelectMember_name hpick.1 (name_ne_of_mem hpick.1)
    rw [← heq] at hname
    have hpicked := pickable_of_pick hrem (hname ▸ name_ne_of_mem hpick.1) hne
    exact hpicked.2.unique hpick (.inl ⟨ht, hname⟩)
  · have hlt := idxOf_lt_length_of_mem hpick.1
    have hget : (computeMembers pool g).getD (idxOf m (computeMembers pool g) %
        (computeMembers pool g).length) .zero = m := by
      rw [Nat.mod_eq_of_lt hlt, getD_eq_getElem _ _ hlt, getElem_idxOf]
    simp only [pickMember, ht, hroute]
    exact nextRoundRobinAliveMember_first (length_pos_of_ne_nil hne) hget
      fun s hs => (toward_health hs).2
  · have heq : (pickMember (.toward route) g (computeMembers pool g) (route g.name).2).1 =
        nextByHealthMember ((toward route).health g.name) (computeMembers pool g) := by
      simp [pickMember, ht]
    obtain ⟨hname, t, hkey, _⟩ :=
      nextByHealthMember_alive (fun _ => name_ne_of_mem) hpick.1 halive rfl
    rw [← heq] at hname hkey
    have hsame : (pickMember (.toward route) g (computeMembers pool g) (route g.name).2).1.healthKey
        = m.healthKey := by
      rw [(toward_health hkey).1, hroute]
    exact (pickable_of_pick hrem hname hne).2.unique hpick (.inr ⟨ht, hsame⟩)

theorem tryMembers_first {members : List GroupMember} {r : π × List Hop} {n : ℕ} (hn : 0 < n) (hmem : members ≠ [])
    (hpick : (pickMember sel g members (w.idx g.name)).1 = m) (hne : m.name ≠ "")
    (hres : ∀ i, (resolveMemberWithVisited pool inner g m
      ⟨w.visited, update w.idx g.name i⟩).1 = some r) :
    (tryMembers pool sel inner g n members w).1 = some r := by
  obtain ⟨n, rfl⟩ := Nat.exists_eq_add_one_of_ne_zero hn.ne'
  rw [tryMembers, if_neg hmem]
  have hres := hres (pickMember sel g members (w.idx g.name)).2
  simp only [hpick, hne, if_false]
  split
  case h_1 heq => simpa [heq] using hres
  case h_2 heq => simp [heq] at hres

/-- If the member that the route gives for a group resolves, the group returns what it resolves to. -/
theorem next_toward {r : π × List Hop} (hname : g.name ≠ "") (hfresh : g.name ∉ w.visited) (htype : Supported g.type)
    (hpick : Pickable pool g m) (hroute : route g.name = (m, (computeMembers pool g).idxOf m))
    (hidx : w.idx g.name = (route g.name).2)
    (hres : ∀ i, (resolveMemberWithVisited pool (nextWithVisited pool (.toward route) fuel) g m
      ⟨g.name :: w.visited, update w.idx g.name i⟩).1 = some r) :
    (nextWithVisited pool (.toward route) (fuel + 1) g w).1 = some (r.1, .group g.name :: r.2) := by
  have hmem : computeMembers pool g ≠ [] := ne_nil_of_mem hpick.1
  have hpicked := pickMember_toward htype hpick hroute
  rw [← hidx] at hpicked
  rw [nextWithVisited_succ hname hfresh]
  dsimp only
  rw [tryMembers_first (w := w.enter g.name) (length_pos_of_ne_nil hmem) hmem hpicked
    (name_ne_of_mem hpick.1) hres]
  rfl

section

variable (htype : ∀ {n g}, pool.groups n = some g → Supported g.type)

include htype

/-- A way that `Reach` allows is taken, at first try, under the selection that leads along it. Groups
occur once on the way, so one selection serves all of them. -/
theorem Reach.follow
    {ancestors : List String} (h : Reach pool ancestors g p hops) (hg : pool.groups g.name = some g) :
    ∃ (way : String → GroupMember × ℕ) (fuel : ℕ), ∀ route, (∀ n ∉ ancestors, route n = way n) →
      ∀ w, w.visited ⊆ ancestors → (∀ n ∉ ancestors, w.idx n = (route n).2) →
        (nextWithVisited pool (.toward route) fuel g w).1 = some (p, hops) := by
  induction h with
  | @member ancestors g m p hops hfresh hpick hfound =>
    have hname : g.name ≠ "" := pool.group_name_ne hg
    have hplain : m.isGroup = false := by
      by_contra hgroup
      simp [resolveMember, hgroup] at hfound
    refine ⟨fun _ => (m, (computeMembers pool g).idxOf m), 1, fun route hroute w hvis hidx => ?_⟩
    refine next_toward (r := (p, hops)) hname (fun h => hfresh (hvis h)) (htype hg) hpick
      (hroute g.name hfresh) (hidx g.name hfresh) fun i => ?_
    rw [resolveMemberWithVisited, if_neg (by simp [hplain]), hfound]
  | @nested ancestors g m h p hops hfresh hpick hgroup hfound _ ih =>
    have hname : g.name ≠ "" := pool.group_name_ne hg
    obtain ⟨way, fuel, hway⟩ := ih ((pool.group_name hfound).symm ▸ hfound)
    refine ⟨update way g.name (m, (computeMembers pool g).idxOf m), fuel + 1,
      fun route hroute w hvis hidx => ?_⟩
    refine next_toward (r := (p, hops)) hname (fun h => hfresh (hvis h)) (htype hg) hpick
      (by rw [hroute g.name hfresh, update_self]) (hidx g.name hfresh) fun i => ?_
    rw [resolveMemberWithVisited, if_pos hgroup, hfound]
    -- below `g` the route is the one of the rest, and the counters are those of the start
    refine hway route (fun n hn => ?_) _ (cons_subset_cons g.name hvis) fun n hn => ?_
    all_goals obtain ⟨hne, hold⟩ := not_or.mp (mt mem_cons.mpr hn)
    · rw [hroute n hold, update_of_ne hne]
    · exact (update_of_ne hne _ _).trans (hidx n hold)

/-- What a group can return is what it reaches. -/
theorem exists_next_iff_reach (hg : pool.groups g.name = some g) :
    (∃ sel fuel idx, (nextWithVisited pool sel fuel g ⟨[], idx⟩).1 = some (p, hops)) ↔
      Reach pool [] g p hops := by
  constructor
  · rintro ⟨sel, fuel, idx, h⟩
    have hname : g.name ≠ "" := pool.group_name_ne hg
    exact (nextWithVisited_sound sel fuel).reach hname (Subset.refl _) h
  · intro h
    obtain ⟨way, fuel, hway⟩ := h.follow htype hg
    exact ⟨.toward way, fuel, fun n => (way n).2,
      hway way (fun _ _ => rfl) _ (Subset.refl _) fun _ _ => rfl⟩

end

end Config
