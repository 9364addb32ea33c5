import Mathlib.Data.Finset.Card
import Phaethon.Common.Ring
import Phaethon.Config.Reach

/-!
# Nested groups as a search

`NextWithVisited` searches the graph of groups depth first, with one set of visited groups for all
branches. `Leads` says, without that set, that a group has a proxy behind members that it does not skip.
A search that comes back empty leaves behind groups that are `Spent`: what they could still lead to is in
the visited set as well. At the top nothing is outside it, so the search misses nothing
(`next_nil_iff_not_leads`).
-/

namespace Config

open Function List Option

variable {π : Type*} {pool : Pool π} {sel : Selection} {g : ProxyGroup} {m : GroupMember}

/-- A member that its group skips: load-balance and best groups pass over what they record as dead. -/
def Skipped (sel : Selection) (g : ProxyGroup) (m : GroupMember) : Prop :=
  (g.type = .loadBalance ∨ g.type = .best) ∧
    ∃ s, sel.health g.name m.healthKey = some s ∧ s.alive = false

/-- A proxy that resolves is reachable from the group through members that are not skipped. -/
inductive Leads (pool : Pool π) (sel : Selection) : ProxyGroup → Prop
  | member {g m r} (mem : m ∈ computeMembers pool g) (kept : ¬ Skipped sel g m)
      (found : resolveMember pool g m = some r) : Leads pool sel g
  | nested {g m h} (mem : m ∈ computeMembers pool g) (kept : ¬ Skipped sel g m)
      (isGroup : m.isGroup = true) (found : pool.groups m.name = some h)
      (rest : Leads pool sel h) : Leads pool sel g

/-- The body of `NextWithVisited`, with the recursive calls left to `inner`. -/
def visit (pool : Pool π) (sel : Selection) (inner : ProxyGroup → Walk → Resolved π) (g : ProxyGroup)
    (w : Walk) : Resolved π :=
  if g.name ≠ "" ∧ g.name ∈ w.visited then (none, w)
  else
    let w := if g.name ≠ "" then { w with visited := g.name :: w.visited } else w
    let members := computeMembers pool g
    match tryMembers pool sel inner g members.length members w with
    | (some (p, hops), w) => (some (p, .group g.name :: hops), w)
    | (none, w) => (none, w)

theorem nextWithVisited_eq_iterate (fuel : ℕ) :
    nextWithVisited pool sel fuel = (visit pool sel)^[fuel] fun _ w => (none, w) := by
  induction fuel with
  | zero => rfl
  | succ fuel ih =>
    rw [iterate_succ_apply', ← ih]
    rfl

/-- `NextWithVisited` returns `r`: its calls nest at most `depth` deep, so that nothing depends on what a
call below would do. -/
def Returns (pool : Pool π) (sel : Selection) (g : ProxyGroup) (w : Walk) (r : Resolved π) : Prop :=
  ∃ depth, ∀ bottom, ∀ fuel ≥ depth, (visit pool sel)^[fuel] bottom g w = r

theorem Returns.nextWithVisited {w : Walk} {r : Resolved π} (h : Returns pool sel g w r) :
    ∃ depth, ∀ fuel ≥ depth, Config.nextWithVisited pool sel fuel g w = r := by
  obtain ⟨depth, h⟩ := h
  refine ⟨depth, fun fuel hfuel => ?_⟩
  rw [nextWithVisited_eq_iterate]
  exact h _ fuel hfuel

/-! ## A strategy picks what is not skipped -/

variable {members : List GroupMember}

/-- Round robin that returns no member found each one dead that its counter came by. -/
theorem nextRoundRobinAliveMember_dead {health : String → Option HealthStatus} {n idx : ℕ}
    (hname : ∀ m ∈ members, m.name ≠ "") (hmem : members ≠ [])
    (h : (nextRoundRobinAliveMember health members n idx).1.name = "") :
    ∀ i < n, ∃ s, health (members.getD ((idx + i) % members.length) .zero).healthKey = some s ∧
      s.alive = false := by
  induction n generalizing idx with
  | zero =>
    intro i hi
    omega
  | succ n ih =>
    have hlt : idx % members.length < members.length :=
      Nat.mod_lt _ (length_pos_of_ne_nil hmem)
    have hne : (members.getD (idx % members.length) .zero).name ≠ "" := by
      rw [getD_eq_getElem _ _ hlt]
      exact hname _ (getElem_mem hlt)
    unfold nextRoundRobinAliveMember at h
    dsimp only at h
    split at h
    case h_1 => exact absurd h hne
    case h_2 s hs =>
        split at h
        case isTrue => exact absurd h hne
        case isFalse hdead =>
            intro i hi
            cases i with
            | zero => exact ⟨s, hs, by simpa using hdead⟩
            | succ i =>
              rw [show idx + (i + 1) = idx + 1 + i by omega]
              exact ih h i (by omega)

/-- A group that picks no member skips them all. -/
theorem skipped_of_pick_zero {idx : ℕ} (hname : ∀ m ∈ members, m.name ≠ "") (hmem : members ≠ [])
    (h : (pickMember sel g members idx).1.name = "") : ∀ m ∈ members, Skipped sel g m := by
  intro m hm
  unfold pickMember at h
  split at h
  case h_1 => exact absurd h (hname _ (nextSelectMember_mem hmem))
  case h_2 htype =>
      obtain ⟨j, hj, rfl⟩ := mem_iff_getElem.mp hm
      obtain ⟨i, hi, hij⟩ := Ring.exists_add_mod_eq idx hj
      have hdead := nextRoundRobinAliveMember_dead hname hmem h i hi
      rw [hij, getD_eq_getElem _ _ hj] at hdead
      exact ⟨.inl htype, hdead⟩
  case h_3 htype =>
      refine ⟨.inr htype, ?_⟩
      unfold nextByHealthMember at h
      dsimp only at h
      split at h
      case isTrue hne => exact absurd h hne
      case isFalse hbest =>
          have hfind : members.find? (fun m => (sel.health g.name m.healthKey).isNone) = none := by
            by_contra hsome
            obtain ⟨x, hx⟩ := ne_none_iff_exists'.mp hsome
            rw [hx] at h
            exact hname x (mem_of_find?_eq_some hx) h
          have hrec : (sel.health g.name m.healthKey).isSome := by
            simpa [isSome_iff_ne_none] using find?_eq_none.mp hfind m hm
          obtain ⟨s, hs⟩ := isSome_iff_exists.mp hrec
          refine ⟨s, hs, ?_⟩
          by_contra halive
          have hleast := (isBest_foldl (sel.health g.name) hname (.zero, 0)).least m hm s hs
            (by simpa using halive)
          exact hbest hleast.1
  case h_4 =>
      obtain ⟨x, xs, rfl⟩ := exists_cons_of_ne_nil hmem
      exact absurd h (hname x mem_cons_self)

/-- A member that a group picks is one of the list, and not skipped. -/
theorem not_skipped_of_pick {idx : ℕ} (hname : ∀ m ∈ members, m.name ≠ "") (hmem : members ≠ [])
    (hne : (pickMember sel g members idx).1.name ≠ "") :
    (pickMember sel g members idx).1 ∈ members ∧ ¬ Skipped sel g (pickMember sel g members idx).1 := by
  unfold Skipped
  unfold pickMember at hne ⊢
  split at hne
  all_goals rename_i htype; simp only [htype]
  · exact ⟨nextSelectMember_mem hmem, by simp⟩
  · rcases nextRoundRobinAliveMember_spec (sel.health g.name) members.length idx hmem
      with hz | ⟨hpick, halive⟩
    · rw [hz] at hne
      exact absurd rfl hne
    · refine ⟨hpick, ?_⟩
      rintro ⟨_, s, hs, hdead⟩
      rw [halive s hs] at hdead
      cases hdead
  · rcases nextByHealthMember_spec (sel.health g.name) hname with hz | ⟨hpick, halive⟩
    · rw [hz] at hne
      exact absurd rfl hne
    · refine ⟨hpick, ?_⟩
      rintro ⟨_, s, hs, hdead⟩
      rw [halive s hs] at hdead
      cases hdead
  · obtain ⟨x, xs, rfl⟩ := exists_cons_of_ne_nil hmem
    exact ⟨mem_cons_self, by simp⟩

/-! ## What a search leaves behind -/

variable {inner : ProxyGroup → Walk → Resolved π} {v v' v'' : List String}

/-- A member that leads nowhere but into the groups `v`. -/
structure Futile (pool : Pool π) (v : List String) (g : ProxyGroup) (m : GroupMember) : Prop where
  unresolved : resolveMember pool g m = none
  visited : m.isGroup = true → ∀ h, pool.groups m.name = some h → h.name ∈ v

/-- The groups that were visited between `v` and `v'` lead nowhere but into `v'`. -/
def Spent (pool : Pool π) (sel : Selection) (v v' : List String) : Prop :=
  ∀ g, pool.groups g.name = some g → g.name ∈ v' → g.name ∉ v →
    ∀ m ∈ computeMembers pool g, ¬ Skipped sel g m → Futile pool v' g m

theorem Futile.mono (h : Futile pool v g m) (hsub : v ⊆ v') : Futile pool v' g m :=
  ⟨h.unresolved, fun hgroup k hk => hsub (h.visited hgroup k hk)⟩

theorem Spent.refl : Spent pool sel v v :=
  fun _ _ hmem hnot => absurd hmem hnot

theorem Spent.trans (h : Spent pool sel v v') (h' : Spent pool sel v' v'') (hsub : v' ⊆ v'') :
    Spent pool sel v v'' := by
  intro g hg hmem hnot m hm hkept
  by_cases hold : g.name ∈ v'
  · exact (h g hg hold hnot m hm hkept).mono hsub
  · exact h' g hg hmem hold m hm hkept

/-- What is spent from the start leads nowhere. -/
theorem Spent.not_leads (h : Spent pool sel [] v) (hg : pool.groups g.name = some g)
    (hmem : g.name ∈ v) : ¬ Leads pool sel g := by
  intro hleads
  induction hleads with
  | member hm hkept hfound =>
    have hfutile := h _ hg hmem not_mem_nil _ hm hkept
    rw [hfutile.unresolved] at hfound
    cases hfound
  | @nested g m inside hm hkept hgroup hfound _ ih =>
    have hfutile := h _ hg hmem not_mem_nil _ hm hkept
    have hname := pool.group_name hfound
    exact ih (hname.symm ▸ hfound) (hfutile.visited hgroup inside hfound)

/-- What a search that was started on `g` with the groups `v` visited comes to. -/
structure Explored (pool : Pool π) (sel : Selection) (g : ProxyGroup) (v : List String)
    (r : Resolved π) : Prop where
  grows : v ⊆ r.2.visited
  leads : r.1 ≠ none → Leads pool sel g
  marked : r.1 = none → g.name ∈ r.2.visited
  spent : r.1 = none → Spent pool sel v r.2.visited

/-- The groups that are still to be visited. -/
def unvisited (names : Finset String) (w : Walk) : ℕ :=
  (names \ w.visited.toFinset).card

theorem unvisited_mono {names : Finset String} {w w' : Walk} (h : w.visited ⊆ w'.visited) :
    unvisited names w' ≤ unvisited names w :=
  Finset.card_le_card (Finset.sdiff_subset_sdiff (Finset.Subset.refl _) fun n hn => by
    rw [List.mem_toFinset] at hn ⊢
    exact h hn)

theorem unvisited_enter {names : Finset String} {w : Walk} {n : String} (hn : n ∈ names)
    (hfresh : n ∉ w.visited) : unvisited names (w.enter n) < unvisited names w := by
  refine Finset.card_lt_card (Finset.ssubset_iff_subset_ne.mpr ⟨?_, ?_⟩)
  · exact Finset.sdiff_subset_sdiff (Finset.Subset.refl _) (by simp [Walk.enter])
  · intro heq
    have hin : n ∈ names \ w.visited.toFinset := by simp [hn, hfresh]
    rw [← heq] at hin
    simp [Walk.enter] at hin

section Loop

variable {names : Finset String} {k : ℕ} {w : Walk}

/-- `inner` searches as it should while fewer than `k` groups are left to visit. -/
def Searches (pool : Pool π) (sel : Selection) (names : Finset String) (k : ℕ)
    (inner : ProxyGroup → Walk → Resolved π) : Prop :=
  ∀ g w, pool.groups g.name = some g → unvisited names w < k →
    Explored pool sel g w.visited (inner g w)

/-- What trying one member of `g` comes to. -/
structure Tried (pool : Pool π) (sel : Selection) (g : ProxyGroup) (m : GroupMember) (v : List String)
    (r : Resolved π) : Prop where
  grows : v ⊆ r.2.visited
  leads : r.1 ≠ none → Leads pool sel g
  futile : r.1 = none → Futile pool r.2.visited g m
  spent : r.1 = none → Spent pool sel v r.2.visited

theorem Searches.tried (hinner : Searches pool sel names k inner) (hfew : unvisited names w < k)
    (hm : m ∈ computeMembers pool g) (hkept : ¬ Skipped sel g m) :
    Tried pool sel g m w.visited (resolveMemberWithVisited pool inner g m w) := by
  unfold resolveMemberWithVisited
  split
  case isTrue hgroup =>
      have hunresolved : resolveMember pool g m = none := if_pos hgroup
      split
      case h_1 inside hfound =>
          have hinside := hinner inside w (pool.group_name hfound ▸ hfound) hfew
          refine ⟨hinside.grows, fun h => .nested hm hkept hgroup hfound (hinside.leads h), fun h => ?_,
            hinside.spent⟩
          refine ⟨hunresolved, fun _ h' hfound' => ?_⟩
          rw [hfound] at hfound'
          exact Option.some.inj hfound' ▸ hinside.marked h
      case h_2 hnone =>
          refine ⟨Subset.refl _, fun h => absurd rfl h, fun _ => ?_, fun _ => .refl⟩
          exact ⟨hunresolved, fun _ h hfound => by rw [hnone] at hfound; cases hfound⟩
  case isFalse hplain =>
      refine ⟨Subset.refl _, fun h => ?_, fun h => ⟨h, fun hgroup => absurd hgroup hplain⟩,
        fun _ => .refl⟩
      obtain ⟨r, hr⟩ := ne_none_iff_exists'.mp h
      exact .member hm hkept hr

/-- Trying the members of `g` that are left, when those already tried lead nowhere new. -/
theorem tryMembers_explored (hinner : Searches pool sel names k inner) {n : ℕ}
    {members : List GroupMember} {w : Walk} (hn : members.length ≤ n)
    (hsub : members ⊆ computeMembers pool g) (hfew : unvisited names w < k)
    (htried : ∀ m ∈ computeMembers pool g, ¬ Skipped sel g m → m ∉ members →
      Futile pool w.visited g m) :
    let r := tryMembers pool sel inner g n members w
    w.visited ⊆ r.2.visited ∧ (r.1 ≠ none → Leads pool sel g) ∧
      (r.1 = none → Spent pool sel w.visited r.2.visited ∧
        ∀ m ∈ computeMembers pool g, ¬ Skipped sel g m → Futile pool r.2.visited g m) := by
  have hname : ∀ m ∈ members, m.name ≠ "" := fun m hm => name_ne_of_mem (hsub hm)
  induction n generalizing members w with
  | zero =>
    obtain rfl : members = [] := eq_nil_of_length_eq_zero (by omega)
    exact ⟨Subset.refl _, fun h => absurd rfl h,
      fun _ => ⟨.refl, fun m hm hkept => htried m hm hkept not_mem_nil⟩⟩
  | succ n ih =>
    unfold tryMembers
    split
    case isTrue hnil =>
        exact ⟨Subset.refl _, fun h => absurd rfl h,
          fun _ => ⟨.refl, fun m hm hkept => htried m hm hkept (hnil ▸ not_mem_nil)⟩⟩
    case isFalse hmem =>
        dsimp only
        split
        case isTrue hzero =>
            refine ⟨Subset.refl _, fun h => absurd rfl h, fun _ => ⟨.refl, fun m hm hkept => ?_⟩⟩
            exact htried m hm hkept fun hin =>
              hkept (skipped_of_pick_zero hname hmem hzero m hin)
        case isFalse hne =>
            obtain ⟨hpick, hkept⟩ := not_skipped_of_pick hname hmem hne
            -- from here on only the marked groups of the walk matter, not its counters
            generalize hw : Walk.mk w.visited _ = w'
            have hsame : w'.visited = w.visited := hw ▸ rfl
            have hfew' : unvisited names w' < k := by rwa [unvisited, hsame]
            have htry := hinner.tried hfew' (hsub hpick) hkept
            rw [hsame] at htry
            generalize (pickMember sel g members (w.idx g.name)).1 = m at hpick hkept htry ⊢
            split
            case h_1 p w'' heq =>
                rw [heq] at htry
                exact ⟨htry.grows, fun _ => htry.leads (by simp), fun h => by cases h⟩
            case h_2 w'' heq =>
                rw [heq] at htry
                have hlength : (members.erase m).length ≤ n := by
                  rw [length_erase_of_mem hpick]
                  omega
                obtain ⟨hgrows, hleads, hrest⟩ := ih hlength
                  (fun x hx => hsub (mem_of_mem_erase hx))
                  ((unvisited_mono htry.grows).trans_lt hfew)
                  (fun x hx hkept' hnot => by
                    by_cases hxm : x = m
                    · exact hxm ▸ htry.futile rfl
                    · refine (htried x hx hkept' fun hin => hnot ?_).mono htry.grows
                      exact (mem_erase_of_ne hxm).mpr hin)
                  (fun x hx => hname x (mem_of_mem_erase hx))
                refine ⟨Subset.trans htry.grows hgrows, hleads, fun h => ?_⟩
                exact ⟨(htry.spent rfl).trans (hrest h).1 hgrows, (hrest h).2⟩

/-- The members are tried alike if the nested calls agree. -/
theorem tryMembers_congr {inner' : ProxyGroup → Walk → Resolved π} (hinner : Searches pool sel names k inner)
    (hagree : ∀ g w, pool.groups g.name = some g → unvisited names w < k → inner g w = inner' g w)
    {n : ℕ} {members : List GroupMember} {w : Walk} (hsub : members ⊆ computeMembers pool g)
    (hfew : unvisited names w < k) :
    tryMembers pool sel inner g n members w = tryMembers pool sel inner' g n members w := by
  have hname : ∀ m ∈ members, m.name ≠ "" := fun m hm => name_ne_of_mem (hsub hm)
  have hmember (m : GroupMember) {w : Walk} (hfew : unvisited names w < k) :
      resolveMemberWithVisited pool inner g m w = resolveMemberWithVisited pool inner' g m w := by
    unfold resolveMemberWithVisited
    split
    · split
      case h_1 inside hfound => exact hagree inside w (pool.group_name hfound ▸ hfound) hfew
      case h_2 => rfl
    · rfl
  induction n generalizing members w with
  | zero => rfl
  | succ n ih =>
    unfold tryMembers
    split
    case isTrue => rfl
    case isFalse hmem =>
        dsimp only
        split
        case isTrue => rfl
        case isFalse hne =>
            obtain ⟨hpick, hkept⟩ := not_skipped_of_pick hname hmem hne
            generalize hw : Walk.mk w.visited _ = w'
            have hfew' : unvisited names w' < k := hw ▸ hfew
            have hgrows := (hinner.tried hfew' (hsub hpick) hkept).grows
            rw [← hmember _ hfew']
            split
            case h_1 => rfl
            case h_2 w'' heq =>
                rw [heq] at hgrows
                exact ih (fun x hx => hsub (mem_of_mem_erase hx))
                  ((unvisited_mono hgrows).trans_lt hfew')
                  (fun x hx => hname x (mem_of_mem_erase hx))

end Loop

/-! ## The whole search -/

section Whole

variable {names : Finset String} {w : Walk}

theorem visit_old (hg : pool.groups g.name = some g) (hold : g.name ∈ w.visited) :
    visit pool sel inner g w = (none, w) :=
  if_pos ⟨pool.group_name_ne hg, hold⟩

theorem visit_fresh (hg : pool.groups g.name = some g) (hfresh : g.name ∉ w.visited) :
    visit pool sel inner g w =
      let r := tryMembers pool sel inner g (computeMembers pool g).length (computeMembers pool g)
        (w.enter g.name)
      (r.1.map fun p => (p.1, .group g.name :: p.2), r.2) := by
  rw [visit, if_neg (by tauto)]
  simp only [pool.group_name_ne hg, ne_eq, not_false_eq_true, if_true, Walk.enter]
  split
  case h_1 heq => simp [heq]
  case h_2 heq => simp [heq]

section

variable (hnames : ∀ n h, pool.groups n = some h → n ∈ names)

include hnames

/-- Each level of calls visits a group, so `fuel` levels serve as long as fewer groups are left. -/
theorem searches_iterate (bottom : ProxyGroup → Walk → Resolved π) (fuel : ℕ) :
    Searches pool sel names fuel ((visit pool sel)^[fuel] bottom) := by
  induction fuel with
  | zero =>
    intro g w hg hfew
    omega
  | succ fuel ih =>
    intro g w hg hfew
    rw [iterate_succ_apply']
    by_cases hold : g.name ∈ w.visited
    · rw [visit_old hg hold]
      exact ⟨Subset.refl _, fun h => absurd rfl h, fun _ => hold, fun _ => .refl⟩
    · have hless := unvisited_enter (hnames _ _ hg) hold
      obtain ⟨hgrows, hleads, hspent⟩ := tryMembers_explored ih (le_refl _) (Subset.refl _)
        (w := w.enter g.name) (g := g) (by omega) (fun m hm _ hnot => absurd hm hnot)
      have henter : w.visited ⊆ (w.enter g.name).visited := subset_cons_self _ _
      rw [visit_fresh hg hold]
      dsimp only
      refine ⟨Subset.trans henter hgrows, fun h => hleads fun hnone => h ?_,
        fun _ => hgrows mem_cons_self, fun h => ?_⟩
      · rw [hnone]
        rfl
      · obtain ⟨hrest, hfutile⟩ := hspent (map_eq_none_iff.mp h)
        intro k hk hmem hnot m hm hkept
        by_cases hkg : k.name = g.name
        · obtain rfl : k = g := by rw [hkg, hg] at hk; exact (Option.some.inj hk).symm
          exact hfutile m hm hkept
        · refine hrest k hk hmem (fun hin => ?_) m hm hkept
          exact (mem_cons.mp hin).elim hkg hnot

theorem iterate_congr (bottom bottom' : ProxyGroup → Walk → Resolved π) {fuel : ℕ} {g : ProxyGroup} {w : Walk}
    (hg : pool.groups g.name = some g) (hfew : unvisited names w < fuel) :
    (visit pool sel)^[fuel] bottom g w = (visit pool sel)^[fuel] bottom' g w := by
  induction fuel generalizing g w with
  | zero => omega
  | succ fuel ih =>
    rw [iterate_succ_apply', iterate_succ_apply']
    by_cases hold : g.name ∈ w.visited
    · rw [visit_old hg hold, visit_old hg hold]
    · have hless := unvisited_enter (hnames _ _ hg) hold
      rw [visit_fresh hg hold, visit_fresh hg hold,
        tryMembers_congr (searches_iterate hnames bottom fuel) (fun g w hg hfew => ih hg hfew)
          (Subset.refl _) (by omega)]

end

/-- `Next` on a group of a finite graph returns, and it returns nil exactly if the group leads to no
proxy. -/
theorem next_nil_iff_not_leads (pool : Pool π) (names : Finset String)
    (hnames : ∀ n h, pool.groups n = some h → n ∈ names) (sel : Selection) (g : ProxyGroup)
    (hg : pool.groups g.name = some g) (idx : String → ℕ) :
    ∃ r, Returns pool sel g ⟨[], idx⟩ r ∧ (r.1 = none ↔ ¬ Leads pool sel g) := by
  have hfew : unvisited names ⟨[], idx⟩ < names.card + 1 :=
    Nat.lt_succ_of_le (Finset.card_le_card Finset.sdiff_subset)
  refine ⟨nextWithVisited pool sel (names.card + 1) g ⟨[], idx⟩, ⟨names.card + 1, ?_⟩, ?_⟩
  · intro bottom fuel hfuel
    obtain ⟨k, rfl⟩ := Nat.exists_eq_add_of_le hfuel
    rw [iterate_add_apply, nextWithVisited_eq_iterate]
    exact iterate_congr hnames _ _ hg hfew
  · rw [nextWithVisited_eq_iterate]
    have hsearches : Searches pool sel names (names.card + 1) _ :=
      searches_iterate hnames (fun _ w => (none, w)) _
    have hexplored := hsearches g _ hg hfew
    constructor
    · intro h
      exact (hexplored.spent h).not_leads hg (hexplored.marked h)
    · intro hnot
      by_contra hsome
      exact hnot (hexplored.leads hsome)

/-- Two groups that name each other; the second also has a proxy, which it records dead or not. -/
def mutualGroups : Pool Unit where
  proxies n := if n = "p" then some () else none
  groups n :=
    if n = "a" then some ⟨"a", true, .select, ["b"], "", ""⟩
    else if n = "b" then some ⟨"b", true, .best, ["a", "p"], "", ""⟩
    else none
  subscriptions _ := none
  candidate _ _ := false
  group_name := by
    intro n g h
    split at h
    case isTrue hn => exact Option.some.inj h ▸ hn.symm
    case isFalse =>
        split at h
        case isTrue hn => exact Option.some.inj h ▸ hn.symm
        case isFalse => cases h
  proxies_empty := by decide
  groups_empty := by decide

theorem next_nil_iff_not_leads_mutual :
    (∀ n h, mutualGroups.groups n = some h → n ∈ ({"a", "b"} : Finset String)) ∧
      ∃ r, Returns mutualGroups default ⟨"a", true, .select, ["b"], "", ""⟩ ⟨[], fun _ => 0⟩ r ∧
        (r.1 = none ↔ ¬ Leads mutualGroups default ⟨"a", true, .select, ["b"], "", ""⟩) := by
  have hnames : ∀ n h, mutualGroups.groups n = some h → n ∈ ({"a", "b"} : Finset String) := by
    intro n h hn
    by_contra hnot
    simp only [Finset.mem_insert, Finset.mem_singleton, not_or] at hnot
    simp [mutualGroups, hnot] at hn
  exact ⟨hnames, next_nil_iff_not_leads mutualGroups {"a", "b"} hnames default _ rfl _⟩

end Whole

end Config
