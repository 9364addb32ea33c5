import Phaethon.Common.NetIp

/-!
# Requests, resolvers and rules

`src/config/config.go` and the rule parser of `src/db/matcher.go`. A rule is stored as a text
`TYPE,PATTERN,PROXY[#MAPPING][@HH:MM-HH:MM]`; what matches a request is compiled from it.
-/

namespace Config

open Text

/-- `AddrRequest`. -/
structure AddrRequest where
  dstAddr : String
  dstPort : ℕ
  cmdType : String
  proto : String
  deriving DecidableEq, Repr

/-- `Resolver`, as far as `resolving` reads it. -/
structure Resolver where
  name : String
  enabled : Bool
  proto : String
  srcHost : String
  srcPort : ℕ
  dstHost : String
  dstPort : ℕ
  srcRelative : Bool
  srcFull : String
  deriving DecidableEq, Repr

/-- `(*Resolver).EffectiveSrcHost`. -/
def Resolver.effectiveSrcHost (r : Resolver) : String :=
  if r.srcRelative ∧ r.srcFull ≠ "" then r.srcFull else r.srcHost

/-- The resolver applies to the request. -/
def Resolver.applies (r : Resolver) (req : AddrRequest) : Bool :=
  r.enabled ∧ ¬ (r.proto ≠ "" ∧ req.proto ≠ "" ∧ r.proto ≠ req.proto) ∧
    req.dstAddr = r.effectiveSrcHost ∧ (r.srcPort = 0 ∨ req.dstPort = r.srcPort)

/-- `(*RuleMatcher).resolving`. -/
def resolving (resolvers : List Resolver) (req : AddrRequest) : AddrRequest :=
  match resolvers.find? (·.applies req) with
  | none => req
  | some r => { req with
      dstAddr := r.dstHost
      dstPort := if r.dstPort ≠ 0 then r.dstPort else req.dstPort }

/-! ## Time windows -/

/-- `TimeRange`, in minutes of the day. -/
structure TimeRange where
  startMin : ℕ
  endMin : ℕ
  deriving DecidableEq, Repr

/-- `(TimeRange).Matches`. -/
def TimeRange.containsMinute (tr : TimeRange) (nowMin : ℕ) : Bool :=
  if tr.startMin = 0 ∧ tr.endMin = 0 then true
  else if tr.startMin ≤ tr.endMin then tr.startMin ≤ nowMin ∧ nowMin < tr.endMin
  else tr.startMin ≤ nowMin ∨ nowMin < tr.endMin

/-- `(TimeRange).String`. -/
def TimeRange.format (tr : TimeRange) : String :=
  if tr.startMin = 0 ∧ tr.endMin = 0 then ""
  else twoDigits (tr.startMin / 60) ++ ":" ++ twoDigits (tr.startMin % 60) ++ "-" ++
    twoDigits (tr.endMin / 60) ++ ":" ++ twoDigits (tr.endMin % 60)

/-- `parseHM`; `none` is the code's −1. -/
def parseHM (s : List Char) : Option ℕ := do
  let (h, m) ← cut ':' (trimSpace s)
  let h ← atoi h
  let m ← atoi m
  if h < 0 ∨ 23 < h ∨ m < 0 ∨ 59 < m then none else some (h * 60 + m).toNat

/-- `parseTimeRange`: what does not parse is the window that always matches. -/
def parseTimeRange (s : List Char) : TimeRange :=
  ((do
    let (start, finish) ← cut '-' s
    let start ← parseHM start
    let finish ← parseHM finish
    some ⟨start, finish⟩) : Option TimeRange).getD ⟨0, 0⟩

/-! ## Rules -/

/-- The name, the mapping and the window of a rule's last field. -/
structure ProxyName where
  name : List Char
  mapping : List Char
  range : TimeRange
  deriving DecidableEq

/-- The loop of `ParseProxyName`; each round shortens the name, so `n` rounds are enough for a text of
that length. -/
def parseProxyNameLoop : ℕ → ProxyName → ProxyName
  | 0, p => p
  | n + 1, p =>
      match cut '@' p.name, cut '#' p.name with
      | none, none => p
      | some (before, after), none =>
          parseProxyNameLoop n { p with name := before, range := parseTimeRange after }
      | atSign, some (before, after) =>
          if (atSign.any fun (left, _) => left.length < before.length) then
            let (left, right) := atSign.getD ([], [])
            parseProxyNameLoop n { p with name := left, range := parseTimeRange right }
          else
            match cut '@' after with
            | some (mapping, range) =>
                parseProxyNameLoop n ⟨before, mapping, parseTimeRange range⟩
            | none => parseProxyNameLoop n { p with name := before, mapping := after }

/-- `ParseProxyName`. -/
def parseProxyName (s : List Char) : ProxyName :=
  parseProxyNameLoop (s.length + 1) ⟨s, [], ⟨0, 0⟩⟩

/-- A name and a mapping without the two signs are read back. -/
theorem parseProxyName_hash {name mapping : List Char} (hname : '@' ∉ name ∧ '#' ∉ name) (hmapping : '@' ∉ mapping) :
    parseProxyName (name ++ '#' :: mapping) = ⟨name, mapping, ⟨0, 0⟩⟩ := by
  have hat : cut '@' (name ++ '#' :: mapping) = none :=
    cut_eq_none_iff.mpr (by simp [hname.1, hmapping])
  have hcut : cut '#' (name ++ '#' :: mapping) = some (name, mapping) :=
    cut_eq_some_iff.mpr ⟨rfl, hname.2⟩
  have hlength : (name ++ '#' :: mapping).length = name.length + mapping.length + 1 := by
    simp only [List.length_append, List.length_cons]
    omega
  rw [parseProxyName, hlength]
  simp only [parseProxyNameLoop, hat, hcut, Option.any_none, Bool.false_eq_true, if_false,
    cut_eq_none_iff.mpr hmapping, cut_eq_none_iff.mpr hname.1, cut_eq_none_iff.mpr hname.2]

/-- `Rule`. -/
structure Rule where
  type : String
  pattern : String
  proxyName : String
  mappingName : String
  timeRange : TimeRange
  deriving DecidableEq

/-- `parseRule`. -/
def parseRule (s : String) : Option Rule :=
  let parts := s.toList.splitOn ','
  if parts.length < 2 then none
  else
    let last := parseProxyName (trimSpace (parts.getLastD []))
    some
      { type := String.ofList (trimSpace (parts.headD []))
        pattern := if 3 ≤ parts.length then String.ofList (trimSpace (parts.getD 1 [])) else ""
        proxyName := String.ofList last.name
        mappingName := String.ofList last.mapping
        timeRange := last.range }

/-! ## Matchers -/

/-- What a rule asks of the destination. -/
inductive Pattern where
  | domainSuffix (suffix : String)
  | ipCidr (network mask : BitVec 32)
  | matchAll
  deriving DecidableEq

/-- `Matcher`, with the window of its rule. -/
structure Matcher where
  proxyName : String
  mappingName : String
  pattern : Pattern
  timeRange : TimeRange
  deriving DecidableEq

/-- `ip2Uint32`: zero stands for no IPv4 address too. -/
def ip2Uint32 (s : String) : BitVec 32 :=
  match NetIp.parseIP s with
  | some (.v4 a) => a
  | _ => 0

/-- `NewIpCidMatcher`: a text that does not parse gives the pattern of the address 0.0.0.0. -/
def newIpCidMatcher (cidr : String) : Pattern :=
  ((do
    let (ip, len) ← cut '/' cidr.toList
    let len ← atoi len
    let ip := String.ofList ip
    if len < 0 ∨ 32 < len then none
    else if ip2Uint32 ip = 0 ∧ ip ≠ "0.0.0.0" then none
    else some (.ipCidr (ip2Uint32 ip) (BitVec.allOnes 32 <<< (32 - len.toNat)))) :
      Option Pattern).getD (.ipCidr 0 (BitVec.allOnes 32))

/-- `buildMatchers`: rules of other types are left out. -/
def buildMatcher (r : Rule) : Option Matcher :=
  let matcher (p : Pattern) : Option Matcher := some ⟨r.proxyName, r.mappingName, p, r.timeRange⟩
  if r.type = "DOMAIN-SUFFIX" then matcher (.domainSuffix r.pattern)
  else if r.type = "IP-CIDR" then matcher (newIpCidMatcher r.pattern)
  else if r.type = "MATCH" then matcher .matchAll
  else none

/-- The destination test of the three matchers. -/
def Pattern.accepts (p : Pattern) (req : AddrRequest) : Bool :=
  match p with
  | .domainSuffix suffix => hasSuffix req.dstAddr suffix
  | .ipCidr network mask =>
      match NetIp.parseIP req.dstAddr with
      | some (.v4 a) => a &&& mask = network &&& mask
      | _ => false
  | .matchAll => true

/-- `Match` of the three matchers, with the window test of `match`. The empty name is no match. -/
def Matcher.applies (m : Matcher) (req : AddrRequest) (mapping : Option String) (nowMin : ℕ) : Bool :=
  m.timeRange.containsMinute nowMin ∧ m.pattern.accepts req ∧
    (m.mappingName = "" ∨ mapping = some m.mappingName) ∧ m.proxyName ≠ ""

end Config
