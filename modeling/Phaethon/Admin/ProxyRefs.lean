import Phaethon.Db.RuleStore
import Phaethon.Db.Store

/-!
# Deleting a proxy that is still in use

`src/admin/admin.go`: `findProxyReferences`, and the two requests that it guards, deletion in `apiProxies` and
`apiToggleProxy`. Rules are stored as text, and the text is read twice in different ways: `parseRule` takes the
last field up to a `#` or `@` and without spaces for the name of the proxy, while `findProxyReferences` takes all
that is behind the second comma, or the second field of a `MATCH` rule, without quotes. A rule that only the
first way reads as one for the proxy does not keep it (`clean_iff`).
-/

namespace ProxyRefs

open Config RuleStore List Text
open GoMap (Table)

/-! ## What is stored -/

/-- `Mapping`, as far as it names proxies. -/
structure Mapping where
  name : String
  reverseProxy : String

/-- `ReverseConfig`, as far as it names proxies. -/
structure ReverseConfig where
  name : String
  registryProxy : String

/-- The buckets that may name a proxy. -/
structure Content where
  rules : RuleBucket
  groups : Table ProxyGroup
  proxies : Table ProxyRecord
  mappings : Table Mapping
  reverseConfigs : Table ReverseConfig

/-- `listView`: the values of a bucket in the order of its keys. -/
def listView {β : Type} (t : Table β) : List β :=
  (t.entries.insertionSort fun a b => a.1 ≤ b.1).map (·.2)

/-! ## References -/

/-- The places where a proxy is named. -/
inductive Kind where
  | rule | group | proxy | mapping | reverse
  deriving DecidableEq

/-- `proxyReference`. -/
structure Reference where
  kind : Kind
  name : String
  deriving DecidableEq

/-- A name without quotes around it. -/
def unquote : List Char → List Char := trim "\"'".toList

/-- The proxy that `findProxyReferences` takes a rule to be for; empty if it is for none. -/
def ruleTarget (rule : String) : String :=
  String.ofList <|
    match splitN ',' 2 rule.toList with
    | [type, second, third] =>
        if type = "DOMAIN-SUFFIX".toList ∨ type = "IP-CIDR".toList then unquote third
        else if type = "MATCH".toList then unquote second
        else []
    | [type, second] => if type = "MATCH".toList then unquote second else []
    | _ => []

/-- `(*AdminServer).findProxyReferences`. -/
def findProxyReferences (db : Content) (name : String) : List Reference :=
  if name = "" then []
  else
    ((listRules db.rules).filter (ruleTarget · = name)).map (⟨.rule, ·⟩) ++
    ((listView db.groups).filter (name ∈ ·.manualProxies)).map (⟨.group, ·.name⟩) ++
    ((listView db.proxies).filter (·.viaProxy = name)).map (⟨.proxy, ·.name⟩) ++
    ((listView db.mappings).filter (·.reverseProxy = name)).map (⟨.mapping, ·.name⟩) ++
    ((listView db.reverseConfigs).filter (·.registryProxy = name)).map (⟨.reverse, ·.name⟩)

/-! ## Requests -/

/-- Errors of the database: of the lists, of reading the proxy, and of writing. -/
structure Env where
  list : Option String
  get : Option String
  save : Option String

/-- What is answered. -/
inductive Response where
  | error (status : ℕ) (msg : String)
  | conflict (proxy : String) (references : List Reference)
  | deleted
  | summary (p : ProxyRecord)

open Response

/-- The request succeeded. -/
def Response.ok : Response → Bool
  | .error _ _ => false
  | .conflict _ _ => false
  | .deleted => true
  | .summary _ => true

/-- `http.MethodDelete` of `(*AdminServer).apiProxies`. -/
def deleteProxy (env : Env) (db : Content) (name : String) : Response × Content :=
  if name = "" then (.error 400 "proxy name required", db)
  else
    match env.list with
    | some err => (.error 500 ("load fail: " ++ err), db)
    | none =>
        if findProxyReferences db name ≠ [] then (.conflict name (findProxyReferences db name), db)
        else
          match env.save with
          | some err => (.error 500 ("save fail: " ++ err), db)
          | none => (.deleted, { db with proxies := db.proxies.erase name })

/-- The end of `(*AdminServer).apiToggleProxy`. The proxy is stored under the name that it has, which a bucket
does not take if it is empty. -/
def setEnabled (env : Env) (db : Content) (name : String) (enabled : Bool) : Response × Content :=
  match env.get, db.proxies.lookup name with
  | none, some p =>
      let p := { p with enabled := some enabled }
      match if p.name = "" then some "key required" else env.save with
      | some err => (.error 500 ("save fail: " ++ err), db)
      | none => (.summary p, { db with proxies := db.proxies.insert p.name p })
  | _, _ => (.error 404 "proxy not found", db)

/-- `(*AdminServer).apiToggleProxy`; without a value the body was not read. -/
def apiToggleProxy (env : Env) (db : Content) (name : String) (body : Option Bool) : Response × Content :=
  if name = "" then (.error 400 "proxy name required", db)
  else
    match body with
    | none => (.error 400 "decode fail", db)
    | some true => setEnabled env db name true
    | some false =>
        match env.list with
        | some err => (.error 500 ("load fail: " ++ err), db)
        | none =>
            if findProxyReferences db name ≠ [] then (.conflict name (findProxyReferences db name), db)
            else setEnabled env db name false

/-- The two requests that take a proxy out of use. -/
inductive Request where
  | delete
  | disable

open Request

/-- A request for a proxy. -/
def Request.run (env : Env) (db : Content) (name : String) : Request → Response × Content
  | .delete => deleteProxy env db name
  | .disable => apiToggleProxy env db name (some false)

/-! ## What is to hold -/

/-- A rule resolves to a proxy. -/
def Resolves (rule name : String) : Prop := ∃ r, parseRule rule = some r ∧ r.proxyName = name

/-- Nothing that is stored names the proxy. -/
structure Clean (db : Content) (name : String) : Prop where
  rules : ∀ id rule, db.rules.rules.lookup id = some rule → ¬ Resolves rule name
  groups : ∀ key g, db.groups.lookup key = some g → name ∉ g.manualProxies
  via : ∀ key p, db.proxies.lookup key = some p → p.viaProxy ≠ name
  mappings : ∀ key m, db.mappings.lookup key = some m → m.reverseProxy ≠ name
  reverse : ∀ key rc, db.reverseConfigs.lookup key = some rc → rc.registryProxy ≠ name

/-- A rule of one of the forms `DOMAIN-SUFFIX,PATTERN,NAME`, `IP-CIDR,PATTERN,NAME`, `MATCH,NAME` and
`MATCH,NAME,…`, where the name may be in quotes. -/
def Plain (rule name : String) : Prop :=
  (∃ type pattern target, (type = "DOMAIN-SUFFIX" ∨ type = "IP-CIDR") ∧ ',' ∉ pattern ∧
    rule.toList = type.toList ++ ',' :: (pattern ++ ',' :: target) ∧ unquote target = name.toList) ∨
  ∃ target, ',' ∉ target ∧ unquote target = name.toList ∧
    (rule.toList = "MATCH".toList ++ ',' :: target ∨
      ∃ rest, rule.toList = "MATCH".toList ++ ',' :: (target ++ ',' :: rest))

/-- A listed rule of one of these forms, or something else that is stored, names the proxy. -/
def Referenced (db : Content) (name : String) : Prop :=
  (∃ rule ∈ listRules db.rules, Plain rule name) ∨
    (∃ key g, db.groups.lookup key = some g ∧ name ∈ g.manualProxies) ∨
    (∃ key p, db.proxies.lookup key = some p ∧ p.viaProxy = name) ∨
    (∃ key m, db.mappings.lookup key = some m ∧ m.reverseProxy = name) ∨
    ∃ key rc, db.reverseConfigs.lookup key = some rc ∧ rc.registryProxy = name

/-- The request is refused for another reason: without a name, by an error of the database, by a reference, or
because there is no such proxy to disable. -/
def Refused (env : Env) (db : Content) (name : String) (req : Request) : Prop :=
  name = "" ∨ env.list ≠ none ∨ env.save ≠ none ∨ Referenced db name ∨
    match req with
    | .delete => False
    | .disable => env.get ≠ none ∨ ∀ p, db.proxies.lookup name = some p → p.name = ""

/-! ## The forms of a rule -/

private theorem split_three {type second third : List Char} (htype : ',' ∉ type) (hsecond : ',' ∉ second) :
    splitN ',' 2 (type ++ ',' :: (second ++ ',' :: third)) = [type, second, third] := by
  simp only [splitN, cut_eq_some_iff.mpr ⟨rfl, htype⟩, cut_eq_some_iff.mpr ⟨rfl, hsecond⟩]

private theorem split_two {type second : List Char} (htype : ',' ∉ type) (hsecond : ',' ∉ second) :
    splitN ',' 2 (type ++ ',' :: second) = [type, second] := by
  simp only [splitN, cut_eq_some_iff.mpr ⟨rfl, htype⟩, cut_eq_none_iff.mpr hsecond]

/-- `findProxyReferences` takes exactly the rules of these forms to be for the proxy. -/
theorem ruleTarget_eq_iff {rule name : String} (hname : name ≠ "") : ruleTarget rule = name ↔ Plain rule name := by
  have hempty : String.ofList [] ≠ name := fun h => hname h.symm
  constructor
  · intro h
    unfold ruleTarget at h
    cases htype : cut ',' rule.toList with
    | none =>
      simp only [splitN, htype] at h
      exact absurd h hempty
    | some first =>
      obtain ⟨type, rest⟩ := first
      obtain ⟨hrule, -⟩ := cut_eq_some_iff.mp htype
      cases hsecond : cut ',' rest with
      | none =>
        simp only [splitN, htype, hsecond] at h
        split at h
        case isTrue hmatch =>
          subst hmatch
          exact .inr ⟨rest, cut_eq_none_iff.mp hsecond, by rw [← h, String.toList_ofList], .inl hrule⟩
        case isFalse => exact absurd h hempty
      | some more =>
        obtain ⟨second, third⟩ := more
        obtain ⟨rfl, hcomma⟩ := cut_eq_some_iff.mp hsecond
        simp only [splitN, htype, hsecond] at h
        split at h
        case isTrue hkind =>
          refine .inl ⟨String.ofList type, second, third, ?_, hcomma, ?_, ?_⟩
          · exact hkind.imp (fun he => by rw [he, String.ofList_toList]) fun he => by rw [he, String.ofList_toList]
          · rw [String.toList_ofList, hrule]
          · rw [← h, String.toList_ofList]
        case isFalse =>
          split at h
          case isTrue hmatch =>
            subst hmatch
            exact .inr ⟨second, hcomma, by rw [← h, String.toList_ofList], .inr ⟨third, hrule⟩⟩
          case isFalse => exact absurd h hempty
  · rintro (⟨type, pattern, target, hkind, hpattern, hrule, htarget⟩ | ⟨target, hcomma, htarget, hrule | ⟨rest, hrule⟩⟩)
    · have htype : ',' ∉ type.toList := by rcases hkind with rfl | rfl <;> decide +kernel
      have hkind' : type.toList = "DOMAIN-SUFFIX".toList ∨ type.toList = "IP-CIDR".toList :=
        hkind.imp (congrArg String.toList) (congrArg String.toList)
      simp only [ruleTarget, hrule, split_three htype hpattern, if_pos hkind', htarget, String.ofList_toList]
    · have hmatch : ',' ∉ "MATCH".toList := by decide +kernel
      simp only [ruleTarget, hrule, split_two hmatch hcomma, if_true, htarget, String.ofList_toList]
    · have hmatch : ',' ∉ "MATCH".toList := by decide +kernel
      have hother : ¬ ("MATCH".toList = "DOMAIN-SUFFIX".toList ∨ "MATCH".toList = "IP-CIDR".toList) := by
        decide +kernel
      simp only [ruleTarget, hrule, split_three hmatch hcomma, if_neg hother, if_true, htarget, String.ofList_toList]

/-! ## Which requests succeed -/

theorem mem_listView {β : Type} {t : Table β} {b : β} : b ∈ listView t ↔ ∃ key, t.lookup key = some b := by
  simp only [listView, mem_map, mem_insertionSort]
  constructor
  · rintro ⟨⟨key, b⟩, hmem, rfl⟩
    exact ⟨key, AList.mem_lookup_iff.mpr hmem⟩
  · rintro ⟨key, hkey⟩
    exact ⟨⟨key, b⟩, AList.mem_lookup_iff.mp hkey, rfl⟩

theorem findProxyReferences_eq_nil_iff {db : Content} {name : String} (hname : name ≠ "") :
    findProxyReferences db name = [] ↔ ¬ Referenced db name := by
  simp only [findProxyReferences, if_neg hname, append_eq_nil_iff, map_eq_nil_iff,
    filter_eq_nil_iff, decide_eq_true_eq, mem_listView, ruleTarget_eq_iff hname, Referenced, not_or, not_exists,
    not_and, forall_exists_index, and_assoc]
  constructor
  · rintro ⟨hrules, hgroups, hproxies, hmappings, hreverse⟩
    exact ⟨hrules, fun key g => hgroups g key, fun key p => hproxies p key, fun key m => hmappings m key,
      fun key rc => hreverse rc key⟩
  · rintro ⟨hrules, hgroups, hproxies, hmappings, hreverse⟩
    exact ⟨hrules, fun g key => hgroups key g, fun p key => hproxies key p, fun m key => hmappings key m,
      fun rc key => hreverse key rc⟩

/-- What is stored after a request that succeeds: the proxies have the `via` references that they had, and all
else is as it was. -/
structure Kept (db db' : Content) : Prop where
  rules : db'.rules = db.rules
  groups : db'.groups = db.groups
  mappings : db'.mappings = db.mappings
  reverse : db'.reverseConfigs = db.reverseConfigs
  via : ∀ key p, db'.proxies.lookup key = some p → ∃ key' q, db.proxies.lookup key' = some q ∧ q.viaProxy = p.viaProxy

variable {env : Env} {db : Content} {name : String}

theorem Kept.refl (db : Content) : Kept db db :=
  ⟨rfl, rfl, rfl, rfl, fun key p hp => ⟨key, p, hp, rfl⟩⟩

theorem deleteProxy_kept : Kept db (deleteProxy env db name).2 := by
  unfold deleteProxy
  split
  · exact .refl db
  · split
    · exact .refl db
    · split
      · exact .refl db
      · split
        · exact .refl db
        · refine ⟨rfl, rfl, rfl, rfl, fun key p hp => ⟨key, p, ?_, rfl⟩⟩
          by_cases hkey : key = name
          · subst hkey
            exact absurd hp (by simp)
          · rwa [AList.lookup_erase_ne hkey] at hp

theorem setEnabled_kept {enabled : Bool} : Kept db (setEnabled env db name enabled).2 := by
  unfold setEnabled
  split
  case h_1 q _ hq =>
    dsimp only
    split
    · exact .refl db
    · refine ⟨rfl, rfl, rfl, rfl, fun key p hp => ?_⟩
      by_cases hkey : key = q.name
      · subst hkey
        rw [AList.lookup_insert] at hp
        cases hp
        exact ⟨name, q, hq, rfl⟩
      · rw [AList.lookup_insert_ne hkey] at hp
        exact ⟨key, p, hp, rfl⟩
  case h_2 => exact .refl db

theorem run_kept {req : Request} : Kept db (req.run env db name).2 := by
  cases req with
  | delete => exact deleteProxy_kept
  | disable =>
    simp only [run, apiToggleProxy]
    split
    · exact .refl db
    · split
      · exact .refl db
      · split
        · exact .refl db
        · exact setEnabled_kept

/-- A proxy is stored again exactly if it is there, has a name and the database does not fail. -/
theorem setEnabled_ok_iff {enabled : Bool} :
    (setEnabled env db name enabled).1.ok = true ↔
      env.save = none ∧ ¬ (env.get ≠ none ∨ ∀ p, db.proxies.lookup name = some p → p.name = "") := by
  unfold setEnabled
  cases hget : env.get with
  | some err => simp [ok]
  | none =>
    cases hp : db.proxies.lookup name with
    | none => simp [ok]
    | some p =>
      by_cases hempty : p.name = ""
      · simp [hempty, ok]
      · cases hsave : env.save <;> simp [hempty, ok]

/-- A request succeeds exactly if there is no reason to refuse it. -/
theorem run_ok_iff {req : Request} : (req.run env db name).1.ok = true ↔ ¬ Refused env db name req := by
  unfold Refused
  by_cases hname : name = ""
  · cases req <;> simp [run, deleteProxy, apiToggleProxy, hname, ok]
  · have hfind := @findProxyReferences_eq_nil_iff db name hname
    cases hlist : env.list with
    | some err => cases req <;> simp [run, deleteProxy, apiToggleProxy, hname, hlist, ok]
    | none =>
      by_cases hrefs : findProxyReferences db name = []
      · have hno : ¬ Referenced db name := hfind.mp hrefs
        cases req with
        | delete =>
          cases hsave : env.save <;>
            simp [run, deleteProxy, hname, hlist, hrefs, hsave, hno, ok]
        | disable =>
          simp only [run, apiToggleProxy, hname, hlist, hrefs, if_false, ne_eq, not_true_eq_false,
            setEnabled_ok_iff, hno, false_or, not_or, not_not]
      · have hsome : Referenced db name := not_not.mp (mt hfind.mpr hrefs)
        cases req <;> simp [run, deleteProxy, apiToggleProxy, hname, hlist, hrefs, hsome, ok]

/-! ## What a success leaves -/

/-- For every content of the database, every name and both requests: a request that succeeds leaves nothing that
names the proxy, exactly if every stored rule that resolves to it is listed and of one of the plain forms, or
the request is refused anyway. -/
theorem clean_iff (env : Env) (db : Content) (name : String) (req : Request) :
    ((req.run env db name).1.ok = true → Clean (req.run env db name).2 name) ↔
      (∀ id rule, db.rules.rules.lookup id = some rule → Resolves rule name →
        id ∈ getOrderTx db.rules ∧ Plain rule name) ∨ Refused env db name req := by
  have hkept : Kept db (req.run env db name).2 := run_kept
  by_cases hrefused : Refused env db name req
  · exact iff_of_true (fun hok => absurd hrefused (run_ok_iff.mp hok)) (.inr hrefused)
  have hok : (req.run env db name).1.ok = true := run_ok_iff.mpr hrefused
  have hno : ¬ Referenced db name := fun h => hrefused (.inr (.inr (.inr (.inl h))))
  rw [or_iff_left hrefused]
  constructor
  · intro h id rule hrule hresolves
    have hclean := (h hok).rules id rule
    rw [hkept.rules] at hclean
    exact absurd hresolves (hclean hrule)
  · intro h _
    refine ⟨fun id rule hrule hresolves => ?_, fun key g hg hmem => ?_, fun key p hp hvia => ?_,
      fun key m hm hname => ?_, fun key rc hrc hname => ?_⟩
    · -- A rule that resolves to the proxy would have been found.
      rw [hkept.rules] at hrule
      obtain ⟨hid, hplain⟩ := h id rule hrule hresolves
      exact hno (.inl ⟨rule, mem_listRules.mpr ⟨id, hid, hrule⟩, hplain⟩)
    · rw [hkept.groups] at hg
      exact hno (.inr (.inl ⟨key, g, hg, hmem⟩))
    · obtain ⟨key', q, hq, hsame⟩ := hkept.via key p hp
      exact hno (.inr (.inr (.inl ⟨key', q, hq, hsame.trans hvia⟩)))
    · rw [hkept.mappings] at hm
      exact hno (.inr (.inr (.inr (.inl ⟨key, m, hm, hname⟩))))
    · rw [hkept.reverse] at hrc
      exact hno (.inr (.inr (.inr (.inr ⟨key, rc, hrc, hname⟩))))

/-- The proxy `p1`, and one rule. -/
def soloContent (rule : String) : Content where
  rules := ⟨some 2, some [1], (∅ : AList fun _ : UInt64 => String).insert 1 rule⟩
  groups := ∅
  proxies := (∅ : Table ProxyRecord).insert "p1" { ProxyRecord.singleton "trojan" with name := "p1" }
  mappings := ∅
  reverseConfigs := ∅

/-- The rule sends what comes in by the mapping `office` to the proxy, which is deleted all the same. -/
theorem delete_leaves_rule_with_mapping :
    (delete.run ⟨none, none, none⟩ (soloContent "MATCH,p1#office") "p1").1.ok = true ∧
      Resolves "MATCH,p1#office" "p1" ∧
      ¬ Clean (delete.run ⟨none, none, none⟩ (soloContent "MATCH,p1#office") "p1").2 "p1" := by
  have hresolves : Resolves "MATCH,p1#office" "p1" := ⟨_, rfl, by decide +kernel⟩
  exact ⟨by decide +kernel, hresolves, fun h => h.rules 1 "MATCH,p1#office" (by decide +kernel) hresolves⟩

end ProxyRefs
