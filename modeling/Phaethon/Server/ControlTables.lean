import Phaethon.Server.Control

/-!
# The tables of the control manager

A registration leaves its mark in eight places: the listeners, the resources, the proxies, the matchers, the texts
of the rules, and the proxies, mappings and rules of the global matcher. `Tables` says that they hold exactly what
the registrations in force made. `HandleClose` takes one of them away (`Tables.cleanUp`), and a register command
adds one (`Tables.adds`), as long as no two dynamic addresses agree in the digits that names are made of.
-/

namespace Control

open Config Function List ControlManager Text

/-! ## What is there of a registration -/

/-- No entry of the matcher is from a registration. -/
def Routing.static (g : Routing) : Bool :=
  g.proxies.values.all Option.isNone && g.mappings.values.all Option.isNone && g.rules.all (·.1.isNone)

/-- `GetMatcher` does not fail once it has returned a matcher. -/
def ControlManager.mayAnswer (m : ControlManager) (matcher : Bool) : Bool := matcher || m.routing.static

/-- Something that the registration made is still there. -/
def ControlManager.Remains (m : ControlManager) (n : ℕ) : Prop :=
  (∃ port, (n, port) ∈ m.listeners) ∨ (∃ address r, m.resources.lookup address = some r ∧ r.id = n) ∨
    (∃ name p, m.dynamicProxies.lookup name = some p ∧ p.id = n) ∨ (∃ x ∈ m.dynamicMatchers, x.id = n) ∨
    (∃ text, (n, text) ∈ m.dynamicRules) ∨ (∃ name, m.routing.proxies.lookup name = some (some n)) ∨
    (∃ name, m.routing.mappings.lookup name = some (some n)) ∨ ∃ rule, (some n, rule) ∈ m.routing.rules

/-- All that the registration made is where it was. -/
structure Unchanged (m m' : ControlManager) (n : ℕ) : Prop where
  listener : ∀ port, (n, port) ∈ m'.listeners ↔ (n, port) ∈ m.listeners
  resource : ∀ address r, r.id = n → (m'.resources.lookup address = some r ↔ m.resources.lookup address = some r)
  proxy : ∀ name p, p.id = n → (m'.dynamicProxies.lookup name = some p ↔ m.dynamicProxies.lookup name = some p)
  matcher : ∀ x, x.id = n → (x ∈ m'.dynamicMatchers ↔ x ∈ m.dynamicMatchers)
  text : ∀ text, (n, text) ∈ m'.dynamicRules ↔ (n, text) ∈ m.dynamicRules
  routedProxy : ∀ name,
    m'.routing.proxies.lookup name = some (some n) ↔ m.routing.proxies.lookup name = some (some n)
  routedMapping : ∀ name,
    m'.routing.mappings.lookup name = some (some n) ↔ m.routing.mappings.lookup name = some (some n)
  rule : ∀ rule, (some n, rule) ∈ m'.routing.rules ↔ (some n, rule) ∈ m.routing.rules

/-! ## Names -/

/-- A character that does not separate anything. -/
def plainChar (c : Char) : Bool := c ∉ [',', '#', '@', Char.ofNat 39, ':']

theorem plainChar_digit : ∀ n < 16, plainChar (Nat.digitChar n) = true := by decide

theorem plainChar_append {label rest : String} (hlabel : label.toList.all plainChar = true)
    (hrest : ∀ c ∈ rest.toList, plainChar c = true) : ∀ c ∈ (label ++ rest).toList, plainChar c = true := by
  intro c hc
  rw [String.toList_append, mem_append] at hc
  rcases hc with hc | hc
  · exact all_eq_true.mp hlabel c hc
  · exact hrest c hc

theorem plainChar_dyn (random : BitVec 64) : ∀ c ∈ (generateDynAddress random).toList, plainChar c = true := by
  refine plainChar_append (by decide +kernel) fun c hc => ?_
  rw [String.toList_ofList] at hc
  obtain ⟨i, -, rfl⟩ := mem_map.mp hc
  exact plainChar_digit _ (BitVec.isLt _)

theorem plainChar_hexID {dynAddr : String} (h : ∀ c ∈ dynAddr.toList, plainChar c = true) :
    ∀ c ∈ (hexID dynAddr).toList, plainChar c = true := by
  intro c hc
  rw [hexID, String.toList_ofList] at hc
  exact h c (mem_of_mem_drop (mem_of_mem_take hc))

theorem dyn_ne_empty (random : BitVec 64) : generateDynAddress random ≠ "" := by
  intro h
  have hlist := congrArg String.toList h
  simp [generateDynAddress] at hlist

/-! ## Registrations in force -/

/-- A registration whose session is open. It is routed if there was a matcher. -/
structure Live where
  id : ℕ
  owner : ℕ
  dynAddr : String
  proto : String
  port : ℤ
  reverseID : String
  seq : ℤ
  routed : Bool

open Live

namespace Live

variable (g : Live)

/-- The name of the proxy. -/
def proxyName : String := "dyn-proxy-" ++ hexID g.dynAddr

/-- The name of the mapping. -/
def mappingName : String := "dyn-map-" ++ hexID g.dynAddr

/-- The resource. -/
def resource : DynamicResource :=
  ⟨g.id, g.dynAddr, g.proto, g.port, g.proxyName, g.mappingName, g.reverseID, g.seq⟩

/-- The proxy. -/
def proxy : DynProxy :=
  ⟨⟨g.proxyName, if g.proto = "direct" then "socks5" else g.proto, none, g.dynAddr⟩, g.id⟩

/-- The matcher. -/
def matcher : DynMatcher := ⟨g.id, g.proxyName, g.mappingName⟩

/-- The text of the rule. -/
def text : String := s!"MATCH,{g.proxyName}#{g.mappingName}"

/-- The rule. -/
def rule : Rule := ⟨"MATCH", "", g.proxyName, g.mappingName, ⟨0, 0⟩⟩

theorem proxyName_inj {g h : Live} : g.proxyName = h.proxyName ↔ hexID g.dynAddr = hexID h.dynAddr := by
  simp [proxyName]

theorem mappingName_inj {g h : Live} : g.mappingName = h.mappingName ↔ hexID g.dynAddr = hexID h.dynAddr := by
  simp [mappingName]

end Live

/-- What the tables of the manager hold: exactly what the registrations in force made. -/
structure Tables (m : ControlManager) (live : List Live) : Prop where
  listeners : m.listeners = live.map fun g => (g.id, g.port)
  resources : ∀ address r, m.resources.lookup address = some r ↔ ∃ g ∈ live, g.dynAddr = address ∧ g.resource = r
  proxies : ∀ name p, m.dynamicProxies.lookup name = some p ↔ ∃ g ∈ live, g.proxyName = name ∧ g.proxy = p
  matchers : m.dynamicMatchers = live.map Live.matcher
  texts : m.dynamicRules = live.map fun g => (g.id, g.text)
  routedProxies : ∀ name n, m.routing.proxies.lookup name = some (some n) ↔
    ∃ g ∈ live, g.proxyName = name ∧ g.routed = true ∧ g.id = n
  routedMappings : ∀ name n, m.routing.mappings.lookup name = some (some n) ↔
    ∃ g ∈ live, g.mappingName = name ∧ g.routed = true ∧ g.id = n
  rules : ∀ n rule, (some n, rule) ∈ m.routing.rules ↔ ∃ g ∈ live, g.rule = rule ∧ g.routed = true ∧ g.id = n
  distinct : (live.map fun g => hexID g.dynAddr).Nodup
  ids : (live.map Live.id).Nodup

variable {m m' : ControlManager} {live : List Live}

theorem Tables.remains (h : Tables m live) {n : ℕ} (hn : m.Remains n) : ∃ g ∈ live, g.id = n := by
  rcases hn with ⟨port, hport⟩ | ⟨address, r, hr, rfl⟩ | ⟨name, p, hp, rfl⟩ | ⟨x, hx, rfl⟩ | ⟨text, htext⟩ |
    ⟨name, hname⟩ | ⟨name, hname⟩ | ⟨rule, hrule⟩
  · rw [h.listeners] at hport
    obtain ⟨g, hg, heq⟩ := mem_map.mp hport
    exact ⟨g, hg, congrArg Prod.fst heq⟩
  · obtain ⟨g, hg, -, rfl⟩ := (h.resources address r).mp hr
    exact ⟨g, hg, rfl⟩
  · obtain ⟨g, hg, -, rfl⟩ := (h.proxies name p).mp hp
    exact ⟨g, hg, rfl⟩
  · rw [h.matchers] at hx
    obtain ⟨g, hg, rfl⟩ := mem_map.mp hx
    exact ⟨g, hg, rfl⟩
  · rw [h.texts] at htext
    obtain ⟨g, hg, heq⟩ := mem_map.mp htext
    exact ⟨g, hg, congrArg Prod.fst heq⟩
  · obtain ⟨g, hg, -, -, hid⟩ := (h.routedProxies name n).mp hname
    exact ⟨g, hg, hid⟩
  · obtain ⟨g, hg, -, -, hid⟩ := (h.routedMappings name n).mp hname
    exact ⟨g, hg, hid⟩
  · obtain ⟨g, hg, -, -, hid⟩ := (h.rules n rule).mp hrule
    exact ⟨g, hg, hid⟩

/-- A registration that stays in force, or out of it, is left alone. -/
theorem Tables.unchanged {live' : List Live} (h : Tables m live) (h' : Tables m' live')
    {n : ℕ} (hsame : ∀ g : Live, g.id = n → (g ∈ live' ↔ g ∈ live)) : Unchanged m m' n := by
  have hmap {α : Type} (f : Live → α) (x : α) (hf : ∀ g : Live, f g = x → g.id = n) :
      x ∈ live'.map f ↔ x ∈ live.map f := by
    simp only [mem_map]
    exact exists_congr fun g => and_congr_left fun hg => hsame g (hf g hg)
  have hex (p : Live → Prop) (hp : ∀ g, p g → g.id = n) : (∃ g ∈ live', p g) ↔ ∃ g ∈ live, p g :=
    exists_congr fun g => and_congr_left fun hg => hsame g (hp g hg)
  refine ⟨fun port => ?_, fun address r hr => ?_, fun name p hp => ?_, fun x hx => ?_, fun text => ?_,
    fun name => ?_, fun name => ?_, fun rule => ?_⟩
  · rw [h.listeners, h'.listeners]
    exact hmap _ _ fun g hg => congrArg Prod.fst hg
  · rw [h.resources, h'.resources]
    exact hex _ fun g hg => (congrArg DynamicResource.id hg.2).trans hr
  · rw [h.proxies, h'.proxies]
    exact hex _ fun g hg => (congrArg DynProxy.id hg.2).trans hp
  · rw [h.matchers, h'.matchers]
    exact hmap _ _ fun g hg => (congrArg DynMatcher.id hg).trans hx
  · rw [h.texts, h'.texts]
    exact hmap _ _ fun g hg => congrArg Prod.fst hg
  · rw [h.routedProxies, h'.routedProxies]
    exact hex _ fun g hg => hg.2.2
  · rw [h.routedMappings, h'.routedMappings]
    exact hex _ fun g hg => hg.2.2
  · rw [h.rules, h'.rules]
    exact hex _ fun g hg => hg.2.2

/-! ## Taking a registration away -/

section Rest

variable {α β : Type} [DecidableEq β] {f : α → β} {front back : List α} {g : α}

section

variable (h : ((front ++ g :: back).map f).Nodup)

include h

/-- The rest of a list is what differs from an element in a key. -/
theorem filter_ne_of_nodup :
    (front ++ g :: back).filter (fun x => f x ≠ f g) = front ++ back := by
  rw [map_append, map_cons, nodup_append, nodup_cons] at h
  obtain ⟨-, ⟨hback, -⟩, hfront⟩ := h
  have hfront : front.filter (fun x => f x ≠ f g) = front := filter_eq_self.mpr fun x hx =>
    decide_eq_true (hfront (f x) (mem_map_of_mem hx) (f g) mem_cons_self)
  have hback : back.filter (fun x => f x ≠ f g) = back := filter_eq_self.mpr fun x hx =>
    decide_eq_true fun heq => hback (heq ▸ mem_map_of_mem hx)
  rw [filter_append, filter_cons_of_neg (by simp), hfront, hback]

theorem mem_rest_iff {x : α} :
    x ∈ front ++ back ↔ x ∈ front ++ g :: back ∧ f x ≠ f g := by
  rw [← filter_ne_of_nodup h, mem_filter, decide_eq_true_eq]

theorem nodup_rest : ((front ++ back).map f).Nodup := by
  rw [← filter_ne_of_nodup h]
  exact h.sublist (filter_sublist.map f)

end

end Rest

/-- Two managers with the same tables, the resources apart. -/
structure Agree (m m' : ControlManager) : Prop where
  listeners : m'.listeners = m.listeners
  proxies : m'.dynamicProxies = m.dynamicProxies
  matchers : m'.dynamicMatchers = m.dynamicMatchers
  texts : m'.dynamicRules = m.dynamicRules
  routing : m'.routing = m.routing

theorem Tables.congr (h : Tables m live) (hagree : Agree m m')
    (hresources : ∀ address, m'.resources.lookup address = m.resources.lookup address) : Tables m' live where
  listeners := hagree.listeners.trans h.listeners
  resources := by
    simp only [hresources]
    exact h.resources
  proxies := by
    rw [hagree.proxies]
    exact h.proxies
  matchers := hagree.matchers.trans h.matchers
  texts := hagree.texts.trans h.texts
  routedProxies := by
    rw [hagree.routing]
    exact h.routedProxies
  routedMappings := by
    rw [hagree.routing]
    exact h.routedMappings
  rules := by
    rw [hagree.routing]
    exact h.rules
  distinct := h.distinct
  ids := h.ids

/-- The rules that `HandleClose` keeps, where one matcher is left out. -/
theorem withoutRule_texts {front back : List Live} {g : Live}
    (hmatchers : m.dynamicMatchers = (front ++ g :: back).map Live.matcher)
    (htexts : m.dynamicRules = (front ++ g :: back).map fun g => (g.id, g.text))
    (hdistinct : ((front ++ g :: back).map fun g => hexID g.dynAddr).Nodup) :
    (withoutRule g.proxyName g.mappingName m).dynamicRules = (front ++ back).map fun g => (g.id, g.text) := by
  have hkept : ∀ g' ∈ front ++ back, ¬ (g'.matcher.proxyName = g.proxyName ∧ g'.matcher.mappingName = g.mappingName) :=
    fun g' hg' h => ((mem_rest_iff hdistinct).mp hg').2 (proxyName_inj.mp h.1)
  have hnone (l : List Live) (hl : ∀ g' ∈ l, g' ∈ front ++ back) (k : ℕ) :
      ((l.map Live.matcher).zipIdx k).filter (fun x =>
        decide (x.1.proxyName = g.proxyName ∧ x.1.mappingName = g.mappingName) ∧ x.2 < m.dynamicRules.length) = [] := by
    refine filter_eq_nil_iff.mpr fun x hx => ?_
    obtain ⟨g', hg', hx'⟩ := mem_map.mp (fst_mem_of_mem_zipIdx hx)
    have hno := hkept g' (hl g' hg')
    rw [hx'] at hno
    simp [hno]
  have hplace : front.length < m.dynamicRules.length := by
    rw [htexts]
    simp
  simp only [withoutRule, hmatchers, map_append, map_cons, zipIdx_append, zipIdx_cons,
    filter_append]
  rw [hnone front (fun g' hg' => mem_append_left _ hg'), nil_append, filter_cons_of_pos,
    hnone back (fun g' hg' => mem_append_right _ hg')]
  · simp [htexts, eraseIdx_append_of_length_le]
  · simp [Live.matcher, hplace]

/-- A table without a key, in terms of the registrations that it is made of. -/
theorem lookup_erase_iff {β : Type} {t : GoMap.Table β} {key : Live → String} {q : Live → Prop}
    {front back : List Live} {g : Live} (hdistinct : ((front ++ g :: back).map fun g => hexID g.dynAddr).Nodup)
    (hkey : ∀ g' : Live, key g' = key g → hexID g'.dynAddr = hexID g.dynAddr) {name : String} {b : β}
    (h : t.lookup name = some b ↔ ∃ g' ∈ front ++ g :: back, key g' = name ∧ q g') :
    (t.erase (key g)).lookup name = some b ↔ ∃ g' ∈ front ++ back, key g' = name ∧ q g' := by
  by_cases hname : name = key g
  · subst hname
    rw [AList.lookup_erase]
    simp only [reduceCtorEq, false_iff]
    rintro ⟨g', hg', hsame, -⟩
    exact ((mem_rest_iff hdistinct).mp hg').2 (hkey g' hsame)
  · rw [AList.lookup_erase_ne hname, h]
    refine exists_congr fun g' => ?_
    rw [mem_rest_iff hdistinct]
    constructor
    · rintro ⟨hg', rfl, hq⟩
      refine ⟨⟨hg', fun hsame => hname ?_⟩, rfl, hq⟩
      rw [inj_on_of_nodup_map hdistinct hg' (mem_append_right _ mem_cons_self) hsame]
    · rintro ⟨⟨hg', -⟩, hrest⟩
      exact ⟨hg', hrest⟩

/-- Without a matcher, no registration is routed. -/
theorem Tables.routed (h : Tables m live) {matcher : Bool}
    (hmatcher : m.mayAnswer matcher = true) : matcher = true ∨ ∀ g ∈ live, g.routed = false := by
  refine (Bool.or_eq_true _ _ ▸ hmatcher).imp id fun hstatic g hg => ?_
  by_contra hrouted
  have hlookup := (h.routedProxies g.proxyName g.id).mpr ⟨g, hg, rfl, by simpa using hrouted, rfl⟩
  simp only [Routing.static, Bool.and_eq_true, all_eq_true] at hstatic
  have hnone := hstatic.1.1 _ (GoMap.Table.mem_values.mpr ⟨_, hlookup⟩)
  simp at hnone

/-- What `cleanUp` does for a registration. -/
theorem cleanUp_eq (m : ControlManager) (matcher : Bool) (g : Live) :
    m.cleanUp matcher g.resource =
      { withoutRule g.proxyName g.mappingName { m with
          listeners := m.listeners.filter (·.1 ≠ g.id)
          dynamicProxies := m.dynamicProxies.erase g.proxyName } with
        routing := if matcher then m.routing.remove g.proxyName g.mappingName else m.routing } := by
  unfold cleanUp
  cases matcher with
  | false =>
    rfl
  | true =>
    rfl

/-- `HandleClose` takes a registration away, and no other one. -/
theorem Tables.cleanUp {m₁ : ControlManager} {front back : List Live} {g : Live} {matcher : Bool}
    (h : Tables m (front ++ g :: back)) (hagree : Agree m m₁)
    (hresources : ∀ address, m₁.resources.lookup address = (m.resources.erase g.dynAddr).lookup address)
    (hmatcher : m.mayAnswer matcher = true) : Tables (m₁.cleanUp matcher g.resource) (front ++ back) := by
  have hproxy (g' : Live) (hsame : g'.proxyName = g.proxyName) := proxyName_inj.mp hsame
  have hmapping (g' : Live) (hsame : g'.mappingName = g.mappingName) := mappingName_inj.mp hsame
  have hkept {q : Live → Prop} (hno : matcher = false) (hq : ∀ g', q g' → g'.routed = true) :
      (∃ g' ∈ front ++ g :: back, q g') ↔ ∃ g' ∈ front ++ back, q g' := by
    have hunrouted := (h.routed hmatcher).resolve_left (by simp [hno])
    refine iff_of_false ?_ ?_
    · rintro ⟨g', hg', hqg⟩
      exact absurd (hq g' hqg) (by simp [hunrouted g' hg'])
    · rintro ⟨g', hg', hqg⟩
      exact absurd (hq g' hqg) (by simp [hunrouted g' ((mem_rest_iff h.ids).mp hg').1])
  rw [cleanUp_eq]
  refine ⟨?_, fun address r => ?_, fun name p => ?_, ?_, ?_, fun name n => ?_, fun name n => ?_, fun n rule => ?_,
    nodup_rest h.distinct, nodup_rest h.ids⟩
  · rw [hagree.listeners, h.listeners, ← filter_ne_of_nodup h.ids, filter_map]
    rfl
  · change m₁.resources.lookup address = some r ↔ _
    rw [hresources]
    exact lookup_erase_iff h.distinct (fun g' hsame => congrArg hexID hsame) (h.resources address r)
  · rw [hagree.proxies]
    exact lookup_erase_iff h.distinct hproxy (h.proxies name p)
  · change m₁.dynamicMatchers.filter _ = _
    rw [hagree.matchers, h.matchers, ← filter_ne_of_nodup h.distinct, filter_map]
    refine congrArg _ (filter_congr fun g' _ => ?_)
    simp [Live.matcher, Live.proxyName_inj, Live.mappingName_inj]
  · exact withoutRule_texts (hagree.matchers.trans h.matchers) (hagree.texts.trans h.texts) h.distinct
  · rw [hagree.routing]
    cases hno : matcher with
    | false => exact (h.routedProxies name n).trans (hkept hno fun g' hg' => hg'.2.1)
    | true => exact lookup_erase_iff h.distinct hproxy (h.routedProxies name n)
  · rw [hagree.routing]
    cases hno : matcher with
    | false => exact (h.routedMappings name n).trans (hkept hno fun g' hg' => hg'.2.1)
    | true =>
      exact lookup_erase_iff h.distinct hmapping (h.routedMappings name n)
  · rw [hagree.routing]
    cases hno : matcher with
    | false => exact (h.rules n rule).trans (hkept hno fun g' hg' => hg'.2.1)
    | true =>
      simp only [if_true, Routing.remove, mem_filter, h.rules n rule, decide_eq_true_eq]
      constructor
      · rintro ⟨⟨g', hg', rfl, hrest⟩, hne⟩
        exact ⟨g', (mem_rest_iff h.distinct).mpr ⟨hg', fun hsame => hne (proxyName_inj.mpr hsame)⟩, rfl, hrest⟩
      · rintro ⟨g', hg', rfl, hrest⟩
        obtain ⟨hg', hne⟩ := (mem_rest_iff h.distinct).mp hg'
        exact ⟨⟨g', hg', rfl, hrest⟩, fun hsame => hne (proxyName_inj.mp hsame)⟩

/-! ## Adding a registration -/

variable {random : BitVec 64}

theorem Live.plainChar_proxyName {g : Live} (h : g.dynAddr = generateDynAddress random) :
    ∀ c ∈ g.proxyName.toList, plainChar c = true :=
  plainChar_append (by decide +kernel) (plainChar_hexID (h ▸ plainChar_dyn random))

theorem Live.plainChar_mappingName {g : Live} (h : g.dynAddr = generateDynAddress random) :
    ∀ c ∈ g.mappingName.toList, plainChar c = true :=
  plainChar_append (by decide +kernel) (plainChar_hexID (h ▸ plainChar_dyn random))

/-- The names of a registration are read back from the text of its rule. -/
theorem Live.parse_text {g : Live} (h : g.dynAddr = generateDynAddress random) :
    ∃ target, splitN ',' 2 g.text.toList = ["MATCH".toList, target] ∧
      parseProxyName (trim "'".toList target) = ⟨g.proxyName.toList, g.mappingName.toList, ⟨0, 0⟩⟩ := by
  have hproxy (d : Char) (hd : plainChar d = false) : d ∉ g.proxyName.toList :=
    fun hmem => absurd (plainChar_proxyName h d hmem) (by simp [hd])
  have hmapping (d : Char) (hd : plainChar d = false) : d ∉ g.mappingName.toList :=
    fun hmem => absurd (plainChar_mappingName h d hmem) (by simp [hd])
  have htext : g.text.toList = "MATCH".toList ++ ',' :: (g.proxyName.toList ++ '#' :: g.mappingName.toList) := by
    simp [text, toString]
  refine ⟨g.proxyName.toList ++ '#' :: g.mappingName.toList, ?_, ?_⟩
  · have hcomma : ',' ∉ g.proxyName.toList ++ '#' :: g.mappingName.toList := by
      simp [hproxy ',' (by decide), hmapping ',' (by decide)]
    rw [htext]
    simp only [splitN, cut_eq_some_iff.mpr ⟨rfl, (by decide +kernel : ',' ∉ "MATCH".toList)⟩,
      cut_eq_none_iff.mpr hcomma]
  · have hquote : Char.ofNat 39 ∉ g.proxyName.toList ++ '#' :: g.mappingName.toList := by
      simp [hproxy (Char.ofNat 39) (by decide), hmapping (Char.ofNat 39) (by decide)]
    have htrim : trim "'".toList (g.proxyName.toList ++ '#' :: g.mappingName.toList) = _ :=
      trim_eq_self fun c hc hcut => by
        obtain rfl : c = Char.ofNat 39 := by simpa using hcut
        exact hquote hc
    rw [htrim]
    exact parseProxyName_hash ⟨hproxy _ (by decide), hproxy _ (by decide)⟩ (hmapping _ (by decide))

/-- The routing with a registration in it. -/
def Routing.with (routing : Routing) (g : Live) : Routing :=
  if g.routed then
    { proxies := routing.proxies.insert g.proxyName (some g.id)
      mappings := routing.mappings.insert g.mappingName (some g.id)
      rules := (some g.id, g.rule) :: routing.rules }
  else routing

theorem insertRoutingRule_eq (m : ControlManager) {env : Env} {g : Live}
    (h : g.dynAddr = generateDynAddress random) (hrouted : g.routed = env.matcher) :
    m.insertRoutingRule env g.id g.mappingName g.proxyName =
      { m with
        dynamicMatchers := g.matcher :: m.dynamicMatchers
        dynamicTimeRanges := ⟨0, 0⟩ :: m.dynamicTimeRanges
        dynamicRules := (g.id, g.text) :: m.dynamicRules
        routing := m.routing.with g } := by
  obtain ⟨target, hsplit, hparse⟩ := parse_text h
  rw [text] at hsplit
  unfold insertRoutingRule
  dsimp only
  rw [hsplit]
  dsimp only
  rw [hparse, ← hrouted]
  simp only [String.ofList_toList]
  rfl

/-- What the tables depend on in a session. -/
def ControlSession.core (x : ControlSession) : String × String × Bool := (x.address, x.dynAddr, x.closed)

theorem ControlSession.core_inj {x y : ControlSession} :
    x.core = y.core ↔ x.address = y.address ∧ x.dynAddr = y.dynAddr ∧ x.closed = y.closed := by
  simp [core]

theorem core_update {objects : ℕ → ControlSession} {c : ℕ} {x : ControlSession} (h : x.core = (objects c).core)
    (d : ℕ) : (update objects c x d).core = (objects d).core := by
  by_cases hd : d = c
  · subst hd
    rwa [update_self]
  · rw [update_of_ne hd]

/-- What a registration adds. -/
structure Adds (m : ControlManager) (g : Live) (m' : ControlManager) : Prop where
  listeners : m'.listeners = (g.id, g.port) :: m.listeners
  resources : m'.resources = m.resources.insert g.dynAddr g.resource
  proxies : m'.dynamicProxies = m.dynamicProxies.insert g.proxyName g.proxy
  matchers : m'.dynamicMatchers = g.matcher :: m.dynamicMatchers
  texts : m'.dynamicRules = (g.id, g.text) :: m.dynamicRules
  routing : m'.routing = m.routing.with g
  sessions : m'.sessions = m.sessions
  objects : ∀ c, (m'.objects c).core = (m.objects c).core
  count : m'.count = m.count + 1

theorem install_adds (m : ControlManager) (env : Env) (controlAddr registryAddr proto : String)
    (random : BitVec 64) (port : ℤ) (req : ControlRequest) (c : ℕ) :
    Adds m ⟨m.count, c, generateDynAddress random, proto, port, req.reverseID, req.seq, env.matcher⟩
      (m.install env controlAddr registryAddr proto (generateDynAddress random) port req) := by
  generalize hg : (⟨m.count, c, generateDynAddress random, proto, port, req.reverseID, req.seq, env.matcher⟩ : Live) = g
  have hname : "dyn-proxy-" ++ hexID (generateDynAddress random) = g.proxyName := hg ▸ rfl
  have hmapping : "dyn-map-" ++ hexID (generateDynAddress random) = g.mappingName := hg ▸ rfl
  have hid : m.count = g.id := hg ▸ rfl
  unfold install
  rw [hname, hmapping, hid, insertRoutingRule_eq _ (hg ▸ rfl : g.dynAddr = generateDynAddress random) (hg ▸ rfl)]
  subst hg
  refine ⟨rfl, rfl, rfl, rfl, rfl, rfl, rfl, fun d => ?_, rfl⟩
  cases m.sessions.lookup controlAddr with
  | none => rfl
  | some e =>
    exact core_update (by rfl) d

/-- A table with a new key, in terms of the registrations that it is made of. -/
theorem lookup_insert_iff {β : Type} {t : GoMap.Table β} {key : Live → String} {q : Live → Prop}
    {g : Live} {name : String} {b b' : β} (hkey : ∀ g' ∈ live, key g' ≠ key g) (hb : q g ↔ b = b')
    (h : t.lookup name = some b' ↔ ∃ g' ∈ live, key g' = name ∧ q g') :
    (t.insert (key g) b).lookup name = some b' ↔ ∃ g' ∈ g :: live, key g' = name ∧ q g' := by
  simp only [mem_cons, exists_eq_or_imp]
  by_cases hname : name = key g
  · subst hname
    rw [AList.lookup_insert, Option.some.injEq, hb]
    refine ⟨fun hsame => .inl ⟨rfl, hsame⟩, ?_⟩
    rintro (⟨-, hsame⟩ | ⟨g', hg', hsame, -⟩)
    · exact hsame
    · exact absurd hsame (hkey g' hg')
  · rw [AList.lookup_insert_ne hname, h]
    exact ⟨.inr, fun hor => hor.resolve_left fun hg => hname hg.1.symm⟩

/-- A registration is added to the tables, under names of its own. -/
theorem Tables.adds {g : Live} (h : Tables m live) (hadds : Adds m g m')
    (hid : ∀ g' ∈ live, g'.id ≠ g.id) (hfresh : ∀ g' ∈ live, hexID g'.dynAddr ≠ hexID g.dynAddr) :
    Tables m' (g :: live) := by
  have hproxy : ∀ g' ∈ live, g'.proxyName ≠ g.proxyName := fun g' hg' hsame =>
    hfresh g' hg' (proxyName_inj.mp hsame)
  have hmapping : ∀ g' ∈ live, g'.mappingName ≠ g.mappingName := fun g' hg' hsame =>
    hfresh g' hg' (mappingName_inj.mp hsame)
  have hunrouted {q : Live → Prop} (hno : g.routed = false) (hq : ∀ g', q g' → g'.routed = true) :
      (∃ g' ∈ live, q g') ↔ ∃ g' ∈ g :: live, q g' := by
    simp only [mem_cons, exists_eq_or_imp]
    exact ⟨.inr, fun hor => hor.resolve_left fun hg => absurd (hq g hg) (by simp [hno])⟩
  refine ⟨?_, fun address r => ?_, fun name p => ?_, ?_, ?_, fun name n => ?_, fun name n => ?_, fun n rule => ?_,
    ?_, ?_⟩
  · rw [hadds.listeners, h.listeners, map_cons]
  · rw [hadds.resources]
    exact lookup_insert_iff (fun g' hg' hsame => hfresh g' hg' (congrArg hexID hsame)) Iff.rfl (h.resources address r)
  · rw [hadds.proxies]
    exact lookup_insert_iff hproxy Iff.rfl (h.proxies name p)
  · rw [hadds.matchers, h.matchers, map_cons]
  · rw [hadds.texts, h.texts, map_cons]
  · rw [hadds.routing, Routing.with]
    cases hrouted : g.routed with
    | false => exact (h.routedProxies name n).trans (hunrouted hrouted fun g' hg' => hg'.2.1)
    | true => exact lookup_insert_iff hproxy (by simp [hrouted]) (h.routedProxies name n)
  · rw [hadds.routing, Routing.with]
    cases hrouted : g.routed with
    | false => exact (h.routedMappings name n).trans (hunrouted hrouted fun g' hg' => hg'.2.1)
    | true => exact lookup_insert_iff hmapping (by simp [hrouted]) (h.routedMappings name n)
  · rw [hadds.routing, Routing.with]
    cases hrouted : g.routed with
    | false => exact (h.rules n rule).trans (hunrouted hrouted fun g' hg' => hg'.2.1)
    | true =>
      simp only [if_true, mem_cons, exists_eq_or_imp, h.rules n rule, Prod.mk.injEq, Option.some.injEq, hrouted,
        true_and]
      exact or_congr_left (and_comm.trans (and_congr eq_comm eq_comm))
  · rw [map_cons, nodup_cons]
    refine ⟨fun hmem => ?_, h.distinct⟩
    obtain ⟨g', hg', hsame⟩ := mem_map.mp hmem
    exact hfresh g' hg' hsame
  · rw [map_cons, nodup_cons]
    refine ⟨fun hmem => ?_, h.ids⟩
    obtain ⟨g', hg', hsame⟩ := mem_map.mp hmem
    exact hid g' hg' hsame

end Control
