import Mathlib.Data.String.Basic
import Phaethon.Common.MixedOrder
import Phaethon.Common.NetText
import Phaethon.Mesh.Gossip

/-!
# Who keeps a subnet

`src/mesh/mesh.go` (`checkSubnetConflict`, `reselectSubnet`, `compareNodeIDs`) and `src/mesh/state.go`
(`AllocateSubnet`): a node that hears of another claim on its subnet gives it up if its id is the smaller one.
Ids are compared as numbers if both are numbers, and else as text. That leaves a single node only for some sets
of ids, and only if the others find another subnet (`one_keeps_iff`).

Text is ordered by code points, which is the order of its bytes.
-/

namespace SubnetConflict

open Gossip List MixedOrder Ipv4
open Ipv4 (Addr)
open NetIp (IPNet parseCIDR)

/-- `compareNodeIDs`. -/
def compareNodeIDs (a b : String) : ℤ :=
  match Text.parseUint a.toList, Text.parseUint b.toList with
  | some aNum, some bNum => if aNum < bNum then -1 else if aNum > bNum then 1 else 0
  | _, _ => if a < b then -1 else if a > b then 1 else 0

/-! ## Another subnet -/

/-- `(net.IPMask).Size`. -/
def maskSize : IPNet → ℕ × ℕ
  | .v4 _ len => (len, 32)
  | .v6 _ len => (len, 128)

/-- The loop of `AllocateSubnet`, from an attempt on. -/
def findSubnet (draw : ℕ → Except String ℕ) (candidate : ℕ → String) (used : List String) :
    ℕ → ℕ → Except String (Option String)
  | 0, _ => .ok none
  | left + 1, attempts =>
      match draw attempts with
      | .error err => .error s!"allocate subnet fail: {err}"
      | .ok idx =>
          if candidate idx ∈ used then findSubnet draw candidate used left (attempts + 1)
          else .ok (some (candidate idx))

/-- `AllocateSubnet`; `draw` is what `rand.Int` returns, before it is reduced to the range. -/
def allocateSubnet (draw : ℕ → Except String ℕ) (network : IPNet) (subnetPrefixLen : ℤ)
    (usedSubnets : List String) : Except String String :=
  match network.to4 with
  | none => .error "allocate subnet fail: network is not IPv4"
  | some base =>
      let networkPrefixLen := (maskSize network).1
      let totalBits := (maskSize network).2
      if subnetPrefixLen ≤ networkPrefixLen ∨ subnetPrefixLen ≥ totalBits then
        .error s!"allocate subnet fail: invalid subnet prefix /{subnetPrefixLen} for network /{networkPrefixLen}"
      else
        let len := subnetPrefixLen.toNat
        let numSubnets := 2 ^ (len - networkPrefixLen) % 2 ^ 32
        let subnetSize := BitVec.ofNat 32 (2 ^ (totalBits - len))
        let maxAttempts := if 1000 < numSubnets then 1000 else numSubnets
        let candidate idx := (IPNet.v4 (base + BitVec.ofNat 32 (idx % numSubnets) * subnetSize) len).text
        match findSubnet draw candidate usedSubnets maxAttempts 0 with
        | .error err => .error err
        | .ok (some subnet) => .ok subnet
        | .ok none =>
            .error s!"allocate subnet fail: no available /{len} in {network.text} after {maxAttempts} attempts"

/-- `MeshConfig`, as far as it is changed here. -/
structure MeshConfig where
  subnet : String

/-- What the random numbers and the database answer. -/
structure Env where
  draw : ℕ → Except String ℕ
  getMeshConfig : Except String MeshConfig
  putMeshConfig : MeshConfig → Except String Unit

/-- How a check ends: the process goes on with the subnet it has, with an error if it should have left it, or
exits after another subnet was stored. -/
inductive Outcome where
  | keeps (err : Option String)
  | exits (stored : MeshConfig)

/-- `MeshManager`, as far as it is about the subnet, with the peers of its topology. -/
structure Node (Q : Type) where
  nodeID : String
  subnetStr : String
  network : IPNet
  subnetPrefixLen : ℤ
  peers : List (Seen Q)
  env : Env

variable {Q : Type}

variable (n : Node Q)

/-- `(*MeshManager).reselectSubnet`. -/
def Node.reselectSubnet (usedSubnets : List String) : Outcome :=
  match allocateSubnet n.env.draw n.network n.subnetPrefixLen (n.subnetStr :: usedSubnets) with
  | .error err => .keeps s!"[MESH] subnet conflict: failed to allocate new subnet: {err}"
  | .ok newSubnetStr =>
      match n.env.getMeshConfig with
      | .error err => .keeps s!"[MESH] subnet conflict: failed to load mesh config for persist: {err}"
      | .ok meshCfg =>
          let meshCfg := { meshCfg with subnet := newSubnetStr }
          match n.env.putMeshConfig meshCfg with
          | .error err => .keeps s!"[MESH] subnet conflict: failed to persist new subnet {newSubnetStr}: {err}"
          | .ok () => .exits meshCfg

/-! ## The check -/

/-- The subnets that peers have or have heard of, without the own one. -/
def Node.usedSubnets : List String :=
  n.peers.flatMap fun p =>
    [p.info.subnetStr].filter (fun s => s ≠ "" ∧ s ≠ n.subnetStr) ++
      (p.info.claimedSubnets.map (·.subnetStr)).filter (· ≠ n.subnetStr)

/-- A claim on the own subnet before which the node has to give way. -/
def Node.loses (subnetStr nodeID : String) : Bool :=
  subnetStr = n.subnetStr ∧ nodeID ≠ n.nodeID ∧ compareNodeIDs n.nodeID nodeID < 0

/-- `(*MeshManager).checkSubnetConflict`. -/
def Node.checkSubnetConflict : Outcome :=
  if n.peers.any fun p => n.loses p.info.subnetStr p.sender.nodeID ||
      p.info.claimedSubnets.any fun cs => n.loses cs.subnetStr cs.nodeID then
    n.reselectSubnet n.usedSubnets
  else .keeps none

/-- The node stays with its subnet. -/
def Node.Keeps : Prop := ∃ err, n.checkSubnetConflict = .keeps err

instance (n : Node Q) : Decidable n.Keeps :=
  match h : n.checkSubnetConflict with
  | .keeps err => .isTrue ⟨err, h⟩
  | .exits stored => .isFalse fun ⟨err, hkeeps⟩ => by cases h.symm.trans hkeeps

/-- The node has heard that another one claims its subnet. -/
def Node.Hears (nodeID : String) : Prop :=
  ∃ p ∈ n.peers, p.info.subnetStr = n.subnetStr ∧ p.sender.nodeID = nodeID ∨
    ∃ cs ∈ p.info.claimedSubnets, cs.subnetStr = n.subnetStr ∧ cs.nodeID = nodeID

/-- Nodes of different ids that all claim one subnet, and hear so of each other. -/
structure Contest (nodes : List (Node Q)) (subnet : String) : Prop where
  nodup : (nodes.map (·.nodeID)).Nodup
  claims : ∀ n ∈ nodes, n.subnetStr = subnet
  hears : ∀ n ∈ nodes, ∀ nodeID ≠ n.nodeID, n.Hears nodeID ↔ ∃ m ∈ nodes, m.nodeID = nodeID

/-- There is no other subnet for the node: none is drawn that no one has, or it cannot be stored. -/
def Node.Stuck : Prop :=
  ∀ subnet, allocateSubnet n.env.draw n.network n.subnetPrefixLen (n.subnetStr :: n.usedSubnets) = .ok subnet →
    ∀ config, n.env.getMeshConfig = .ok config → ∃ err, n.env.putMeshConfig { config with subnet } = .error err

/-- The number that an id is. -/
def number (nodeID : String) : Option ℕ := Text.parseUint nodeID.toList

/-- The last id as text, which is no number. -/
def Named (ids : List String) (id : String) : Prop := Greatest number ids id

/-- An id of the greatest number, behind every id as text that is no number. -/
def Numbered (ids : List String) (id : String) : Prop := Foremost number ids id

/-- One id wins, and every other node finds a subnet; or no id wins, and one node finds none. -/
def Decided (nodes : List (Node Q)) : Prop :=
  let ids := nodes.map (·.nodeID)
  (((∃ id ∈ ids, Named ids id) ∨ ∃! id, id ∈ ids ∧ Numbered ids id) ∧
      ∀ n ∈ nodes, n.Stuck → Named ids n.nodeID ∨ Numbered ids n.nodeID) ∨
    (∀ id ∈ ids, ¬ Named ids id ∧ ¬ Numbered ids id) ∧ ∃! n, n ∈ nodes ∧ n.Stuck

/-! ## One winner -/

private theorem threeWay_neg_iff {α : Type} [LinearOrder α] {a b : α} :
    (if a < b then -1 else if a > b then 1 else 0 : ℤ) < 0 ↔ a < b := by
  by_cases hlt : a < b
  · simp [hlt]
  · by_cases hgt : a > b <;> simp [hlt, hgt]

theorem compareNodeIDs_neg_iff {a b : String} : compareNodeIDs a b < 0 ↔ Below number a b := by
  unfold compareNodeIDs Below number
  cases Text.parseUint a.toList <;> cases Text.parseUint b.toList <;> exact threeWay_neg_iff

/-- A node that should leave its subnet stays only if it is stuck. -/
theorem reselectSubnet_keeps_iff {n : Node Q} : (∃ err, n.reselectSubnet n.usedSubnets = .keeps err) ↔ n.Stuck := by
  unfold Node.reselectSubnet Node.Stuck
  cases allocateSubnet n.env.draw n.network n.subnetPrefixLen (n.subnetStr :: n.usedSubnets) with
  | error err => simp
  | ok subnet =>
    cases n.env.getMeshConfig with
    | error err => simp
    | ok config =>
      cases hput : n.env.putMeshConfig { config with subnet } with
      | error err => simp [hput]
      | ok u => simp [hput]

/-- The node loses if it has heard of a greater id. -/
theorem loses_iff {n : Node Q} :
    (n.peers.any fun p => n.loses p.info.subnetStr p.sender.nodeID ||
        p.info.claimedSubnets.any fun cs => n.loses cs.subnetStr cs.nodeID) = true ↔
      ∃ id ≠ n.nodeID, n.Hears id ∧ Below number n.nodeID id := by
  simp only [any_eq_true, Bool.or_eq_true, Node.loses, decide_eq_true_eq, compareNodeIDs_neg_iff]
  constructor
  · rintro ⟨p, hp, ⟨hsubnet, hne, hlt⟩ | ⟨cs, hcs, hsubnet, hne, hlt⟩⟩
    · exact ⟨_, hne, ⟨p, hp, .inl ⟨hsubnet, rfl⟩⟩, hlt⟩
    · exact ⟨_, hne, ⟨p, hp, .inr ⟨cs, hcs, hsubnet, rfl⟩⟩, hlt⟩
  · rintro ⟨id, hne, ⟨p, hp, ⟨hsubnet, rfl⟩ | ⟨cs, hcs, hsubnet, rfl⟩⟩, hlt⟩
    · exact ⟨p, hp, .inl ⟨hsubnet, hne, hlt⟩⟩
    · exact ⟨p, hp, .inr ⟨cs, hcs, hsubnet, hne, hlt⟩⟩

theorem not_below_self (id : String) : ¬ Below number id id := by
  unfold Below
  cases number id <;> simp

/-- A node of the contest keeps the subnet if no id is greater than its own, or if it is stuck. -/
theorem Contest.keeps_iff {nodes : List (Node Q)} {subnet : String} (h : Contest nodes subnet) {n : Node Q}
    (hn : n ∈ nodes) :
    n.Keeps ↔ (∀ id ∈ nodes.map (·.nodeID), ¬ Below number n.nodeID id) ∨ n.Stuck := by
  have hloses : (∃ id ≠ n.nodeID, n.Hears id ∧ Below number n.nodeID id) ↔
      ¬ ∀ id ∈ nodes.map (·.nodeID), ¬ Below number n.nodeID id := by
    simp only [not_forall, not_not, mem_map]
    constructor
    · rintro ⟨id, hne, hhears, hlt⟩
      exact ⟨id, (h.hears n hn id hne).mp hhears, hlt⟩
    · rintro ⟨id, hid, hlt⟩
      have hne : id ≠ n.nodeID := by
        rintro rfl
        exact not_below_self _ hlt
      exact ⟨id, hne, (h.hears n hn id hne).mpr hid, hlt⟩
  unfold Node.Keeps Node.checkSubnetConflict
  by_cases hbeaten : ∀ id ∈ nodes.map (·.nodeID), ¬ Below number n.nodeID id
  · rw [if_neg (by rw [loses_iff, hloses]; exact not_not_intro hbeaten)]
    exact iff_of_true ⟨none, rfl⟩ (.inl hbeaten)
  · rw [if_pos (by rw [loses_iff, hloses]; exact hbeaten), reselectSubnet_keeps_iff, or_iff_right hbeaten]

/-- Who is the only one of two kinds together. -/
theorem existsUnique_or_iff {α : Type} {s : List α} {p q : α → Prop} :
    (∃! a, a ∈ s ∧ (p a ∨ q a)) ↔
      ((∃! a, a ∈ s ∧ p a) ∧ ∀ a ∈ s, q a → p a) ∨ (∀ a ∈ s, ¬ p a) ∧ ∃! a, a ∈ s ∧ q a := by
  constructor
  · rintro ⟨a, ⟨ha, hpq⟩, honly⟩
    by_cases hp : p a
    · refine .inl ⟨⟨a, ⟨ha, hp⟩, fun b hb => honly b ⟨hb.1, .inl hb.2⟩⟩, fun b hb hq => ?_⟩
      rw [honly b ⟨hb, .inr hq⟩]
      exact hp
    · refine .inr ⟨fun b hb hpb => hp ?_, a, ⟨ha, hpq.resolve_left hp⟩, fun b hb => honly b ⟨hb.1, .inr hb.2⟩⟩
      rw [← honly b ⟨hb, .inl hpb⟩]
      exact hpb
  · rintro (⟨⟨a, ⟨ha, hp⟩, honly⟩, hq⟩ | ⟨hp, a, ⟨ha, hq⟩, honly⟩)
    · exact ⟨a, ⟨ha, .inl hp⟩, fun b hb => honly b ⟨hb.1, hb.2.elim id (hq b hb.1)⟩⟩
    · exact ⟨a, ⟨ha, .inr hq⟩, fun b hb => honly b ⟨hb.1, hb.2.resolve_left (hp b hb.1)⟩⟩

/-- Nodes are told apart by their ids. -/
theorem existsUnique_nodeID_iff {nodes : List (Node Q)} (hnodup : (nodes.map (·.nodeID)).Nodup) {p : String → Prop} :
    (∃! n, n ∈ nodes ∧ p n.nodeID) ↔ ∃! id, id ∈ nodes.map (·.nodeID) ∧ p id := by
  have hinj := inj_on_of_nodup_map hnodup
  constructor
  · rintro ⟨n, ⟨hn, hp⟩, honly⟩
    refine ⟨n.nodeID, ⟨mem_map_of_mem hn, hp⟩, ?_⟩
    rintro id ⟨hid, hpid⟩
    obtain ⟨m, hm, rfl⟩ := mem_map.mp hid
    rw [honly m ⟨hm, hpid⟩]
  · rintro ⟨id, ⟨hid, hp⟩, honly⟩
    obtain ⟨n, hn, rfl⟩ := mem_map.mp hid
    exact ⟨n, ⟨hn, hp⟩, fun m hm => hinj hm.1 hn (honly _ ⟨mem_map_of_mem hm.1, hm.2⟩)⟩

/-- Exactly one of the nodes that claim a subnet keeps it, exactly if the ids have one winner and every other
node finds another subnet, or there is no winner and one node that finds none. -/
theorem one_keeps_iff (nodes : List (Node Q)) (subnet : String) (h : Contest nodes subnet) :
    (∃! n, n ∈ nodes ∧ n.Keeps) ↔ Decided nodes := by
  have hkeeps : ∀ n, n ∈ nodes ∧ n.Keeps ↔ n ∈ nodes ∧
      ((∀ id ∈ nodes.map (·.nodeID), ¬ Below number n.nodeID id) ∨ n.Stuck) :=
    fun n => and_congr_right fun hn => h.keeps_iff hn
  have hwinner := existsUnique_nodeID_iff h.nodup
    (p := fun x => ∀ id ∈ nodes.map (·.nodeID), ¬ Below number x id)
  rw [existsUnique_not_below_iff] at hwinner
  simp only [hkeeps]
  rw [existsUnique_or_iff, hwinner]
  simp only [not_below_iff, Decided, Named, Numbered, not_or, forall_mem_map]

/-! ## Ids with and without a winner -/

/-- Nodes of 10.0.0.0/8 that claim 10.1.0.0/16 and are linked with each other; 10.0.0.0/16 is free. -/
def rivals (ids : List String) : List (Node Unit) :=
  ids.map fun id =>
    { nodeID := id
      subnetStr := "10.1.0.0/16"
      network := .v4 0x0a000000 8
      subnetPrefixLen := 16
      peers := (ids.filter (· ≠ id)).map fun other =>
        ⟨⟨other, 0, 0, ""⟩, (), { PeerInfo.empty with subnetStr := "10.1.0.0/16" }⟩
      env := ⟨fun _ => .ok 0, .ok ⟨"10.1.0.0/16"⟩, fun _ => .ok ()⟩ }

theorem nodeID_rivals (ids : List String) : (rivals ids).map (·.nodeID) = ids := by
  rw [rivals, map_map]
  exact map_id ids

theorem contest_rivals {ids : List String} (h : ids.Nodup) : Contest (rivals ids) "10.1.0.0/16" := by
  refine ⟨(nodeID_rivals ids).symm ▸ h, ?_, ?_⟩
  · intro n hn
    obtain ⟨id, -, rfl⟩ := mem_map.mp hn
    rfl
  · intro n hn other hne
    obtain ⟨id, -, rfl⟩ := mem_map.mp hn
    have hrival : (∃ m ∈ rivals ids, m.nodeID = other) ↔ other ∈ ids := by
      rw [← mem_map, nodeID_rivals]
    have hne : other ≠ id := hne
    rw [hrival]
    simp [Node.Hears, PeerInfo.empty, hne]

/-- A name beats a number. -/
theorem one_keeps_iff_named :
    Contest (rivals ["7", "vm"]) "10.1.0.0/16" ∧ ∃! n, n ∈ rivals ["7", "vm"] ∧ n.Keeps := by
  have hcontest : Contest (rivals ["7", "vm"]) "10.1.0.0/16" := contest_rivals (by decide)
  refine ⟨hcontest, (one_keeps_iff _ _ hcontest).mpr (.inl ⟨.inl ⟨"vm", by decide, ?_⟩, ?_⟩)⟩
  · exact ⟨by decide +kernel, by decide +kernel⟩
  · intro n hn hstuck
    simp only [rivals, map_cons, map_nil, mem_cons, not_mem_nil, or_false] at hn
    rcases hn with rfl | rfl
    · obtain ⟨err, herr⟩ := hstuck "10.0.0.0/16" (by decide +kernel) _ rfl
      cases herr
    · exact .inl ⟨by decide +kernel, by decide +kernel⟩

/-- 9 is below 10 as a number, 10 is before 1a as text and 1a before 9: every node leaves. Nodes 1 and 01 are
the same number: both stay. -/
theorem circle_and_tie_have_no_winner :
    (Contest (rivals ["10", "9", "1a"]) "10.1.0.0/16" ∧ ¬ ∃! n, n ∈ rivals ["10", "9", "1a"] ∧ n.Keeps) ∧
      Contest (rivals ["1", "01"]) "10.1.0.0/16" ∧ ¬ ∃! n, n ∈ rivals ["1", "01"] ∧ n.Keeps := by
  refine ⟨⟨contest_rivals (by decide), ?_⟩, contest_rivals (by decide), ?_⟩
  · rintro ⟨n, ⟨hn, hkeeps⟩, -⟩
    have hleave : ∀ n ∈ rivals ["10", "9", "1a"], ¬ n.Keeps := by decide +kernel
    exact hleave n hn hkeeps
  · rintro ⟨n, -, honly⟩
    have hstay : ∀ n ∈ rivals ["1", "01"], n.Keeps := by decide +kernel
    have hids : ∀ id ∈ (rivals ["1", "01"]).map (·.nodeID), id = n.nodeID := by
      intro id hid
      obtain ⟨m, hm, rfl⟩ := mem_map.mp hid
      rw [honly m ⟨hm, hstay m hm⟩]
    have hsame : "1" = "01" := (hids "1" (by decide)).trans (hids "01" (by decide)).symm
    exact absurd hsame (by decide)

/-! ## Claims of any length

The new subnet differs as text from every claim, which does not keep it apart from a claim of another length. -/

/-- The two networks share an address. -/
def Overlaps (n m : IPNet) : Prop := ∃ dst, n.Contains dst ∧ m.Contains dst

/-- A subnet that the network can be split into. -/
structure Block (base : Addr) (k len : ℕ) (a : Addr) : Prop where
  aligned : network a len = a
  inside : ∀ dst, (IPNet.v4 a len).Contains dst → (IPNet.v4 base k).Contains dst

/-- The subnet that `AllocateSubnet` takes for a number. -/
def nth (base : Addr) (k len idx : ℕ) : Addr :=
  base + BitVec.ofNat 32 (idx % (2 ^ (len - k) % 2 ^ 32)) * BitVec.ofNat 32 (2 ^ (32 - len))

variable {base a : Addr} {k len : ℕ}

theorem findSubnet_eq_ok {draw : ℕ → Except String ℕ} {candidate : ℕ → String} {used : List String}
    {left attempts : ℕ} {subnet : String} (h : findSubnet draw candidate used left attempts = .ok (some subnet)) :
    subnet ∉ used ∧ ∃ idx, candidate idx = subnet := by
  induction left generalizing attempts with
  | zero => cases h
  | succ left ih =>
    unfold findSubnet at h
    split at h
    case h_1 => cases h
    case h_2 idx _ =>
      split at h
      · exact ih h
      · cases h
        exact ⟨‹_›, idx, rfl⟩

/-- The subnets of a network lie one after the other. -/
theorem block_iff (hformed : (IPNet.v4 base k).Formed) (hlt : k < len) (hlen : len ≤ 32) :
    Block base k len a ↔ ∃ i < 2 ^ (len - k), a.toNat = base.toNat + i * 2 ^ (32 - len) := by
  have hsplit : 2 ^ (32 - k) = 2 ^ (32 - len) * 2 ^ (len - k) := by
    rw [← Nat.pow_add]
    congr 1
    omega
  have hbase := congrArg BitVec.toNat hformed.2
  rw [toNat_network, hsplit, ← Nat.div_div_eq_div_mul, Nat.mul_comm (2 ^ (32 - len)), ← Nat.mul_assoc] at hbase
  have haligned : network a len = a ↔ a.toNat / 2 ^ (32 - len) * 2 ^ (32 - len) = a.toNat := by
    rw [← BitVec.toNat_inj, toNat_network]
  have hcontains (dst : Addr) : (IPNet.v4 base k).Contains dst ↔
      dst.toNat / 2 ^ (32 - len) / 2 ^ (len - k) = base.toNat / 2 ^ (32 - len) / 2 ^ (len - k) := by
    rw [IPNet.Contains, network_eq_iff_div, hsplit, Nat.div_div_eq_div_mul, Nat.div_div_eq_div_mul]
  have hsub (dst : Addr) : (IPNet.v4 a len).Contains dst ↔ dst.toNat / 2 ^ (32 - len) = a.toNat / 2 ^ (32 - len) :=
    network_eq_iff_div
  have hsize := Nat.two_pow_pos (32 - len)
  have hnum := Nat.two_pow_pos (len - k)
  generalize 2 ^ (32 - len) = size at *
  generalize 2 ^ (len - k) = num at *
  constructor
  · intro h
    have hin := (hcontains a).mp (h.inside a rfl)
    refine ⟨a.toNat / size % num, Nat.mod_lt _ hnum, ?_⟩
    rw [← hbase, ← hin, ← Nat.add_mul, Nat.div_add_mod']
    exact (haligned.mp h.aligned).symm
  · rintro ⟨i, hi, ha⟩
    have hdiv : a.toNat / size = base.toNat / size / num * num + i := by
      rw [ha, Nat.add_mul_div_right _ _ hsize, ← hbase]
      simp [hsize, hnum]
    refine ⟨haligned.mpr ?_, fun dst hdst => (hcontains dst).mpr ?_⟩
    · rw [hdiv, Nat.add_mul, hbase, ha]
    · rw [(hsub dst).mp hdst, hdiv, Nat.add_comm, Nat.add_mul_div_right _ _ hnum, Nat.div_eq_of_lt hi, Nat.zero_add]

/-- What is drawn is a subnet of the network, and every one can be drawn. -/
theorem block_iff_drawn (hformed : (IPNet.v4 base k).Formed) (hlt : k < len) (hlen : len < 32) :
    Block base k len a ↔ ∃ idx, a = nth base k len idx := by
  have hnum : 2 ^ (len - k) < 2 ^ 32 := Nat.pow_lt_pow_right (by decide) (by omega)
  -- the last subnet ends where the network does, so that nothing wraps
  have hroom : base.toNat + 2 ^ (len - k) * 2 ^ (32 - len) ≤ 2 ^ 32 := by
    have hlast := (broadcast base k).isLt
    rw [toNat_broadcast, hformed.2] at hlast
    rw [← Nat.pow_add, show len - k + (32 - len) = 32 - k by omega]
    omega
  have htoNat {i : ℕ} (hi : i < 2 ^ (len - k)) :
      (base + BitVec.ofNat 32 i * BitVec.ofNat 32 (2 ^ (32 - len))).toNat = base.toNat + i * 2 ^ (32 - len) := by
    have hend : i * 2 ^ (32 - len) < 2 ^ (len - k) * 2 ^ (32 - len) :=
      Nat.mul_lt_mul_of_pos_right hi (Nat.two_pow_pos _)
    rw [BitVec.toNat_add, BitVec.toNat_mul, BitVec.toNat_ofNat, BitVec.toNat_ofNat, ← Nat.mul_mod, Nat.add_mod_mod]
    exact Nat.mod_eq_of_lt (by omega)
  simp only [block_iff hformed hlt (Nat.le_of_lt hlen), nth, Nat.mod_eq_of_lt hnum]
  constructor
  · rintro ⟨i, hi, ha⟩
    exact ⟨i, BitVec.eq_of_toNat_eq (by rw [Nat.mod_eq_of_lt hi, htoNat hi, ha])⟩
  · rintro ⟨idx, rfl⟩
    have hi := Nat.mod_lt idx (Nat.two_pow_pos (len - k))
    exact ⟨_, hi, htoNat hi⟩

/-- `AllocateSubnet` searches the subnets of the network, at least once. -/
theorem exists_allocateSubnet_eq_ok_iff (base : Addr) (hlt : k < len) (hlen : len < 32) (used : List String) :
    ∃ left, ∀ draw subnet, allocateSubnet draw (.v4 base k) len used = .ok subnet ↔
      findSubnet draw (fun idx => (IPNet.v4 (nth base k len idx) len).text) used (left + 1) 0 = .ok (some subnet) := by
  have hrange : ¬ ((len : ℤ) ≤ k ∨ (len : ℤ) ≥ ((32 : ℕ) : ℤ)) := by omega
  have hnum : 2 ^ (len - k) < 2 ^ 32 := Nat.pow_lt_pow_right (by decide) (by omega)
  have hpos := Nat.two_pow_pos (len - k)
  obtain ⟨left, hleft⟩ :
      ∃ left, (if 1000 < 2 ^ (len - k) % 2 ^ 32 then 1000 else 2 ^ (len - k) % 2 ^ 32) = left + 1 := by
    exact Nat.exists_eq_succ_of_ne_zero (by split <;> omega)
  refine ⟨left, fun draw subnet => ?_⟩
  unfold allocateSubnet
  dsimp only [IPNet.to4, maskSize, Int.toNat_natCast]
  rw [if_neg hrange, hleft]
  split <;> simp_all [nth]

/-- Whatever is drawn, the new subnet lies in the network, is aligned and shares no address with a claim, exactly if
every subnet of that length which shares an address with a claim is claimed itself, as it is written. -/
theorem allocateSubnet_apart_iff (base : Addr) (k : ℕ) (p : ℤ) (used : List String)
    (hformed : (IPNet.v4 base k).Formed) :
    (∀ draw subnet, allocateSubnet draw (.v4 base k) p used = .ok subnet →
      ∃ a, subnet = (IPNet.v4 a p.toNat).text ∧ Block base k p.toNat a ∧
        ∀ claim ∈ used, ∀ n, parseCIDR claim = some n → ¬ Overlaps (.v4 a p.toNat) n) ↔
    (k < p → p < 32 → ∀ a, Block base k p.toNat a →
      ∀ claim ∈ used, ∀ n, parseCIDR claim = some n → Overlaps (.v4 a p.toNat) n →
        (IPNet.v4 a p.toNat).text ∈ used) := by
  by_cases hrange : p ≤ k ∨ p ≥ 32
  · refine iff_of_true (fun draw subnet h => ?_) (by omega)
    simp [allocateSubnet, IPNet.to4, maskSize, hrange] at h
  obtain ⟨len, rfl⟩ := Int.eq_ofNat_of_zero_le (show 0 ≤ p by omega)
  have hblock (a : Addr) := block_iff_drawn (a := a) hformed (show k < len by omega) (by omega)
  obtain ⟨left, hok⟩ := exists_allocateSubnet_eq_ok_iff base (show k < len by omega) (by omega) used
  constructor
  · intro h _ _ a ha claim hclaim n hn hover
    by_contra hfree
    obtain ⟨idx, rfl⟩ := (hblock a).mp ha
    obtain ⟨a', htext, ha', hapart⟩ := h (fun _ => .ok idx) _ ((hok ..).mpr (if_neg hfree))
    have hread {a : Addr} (ha : Block base k len a) : parseCIDR (IPNet.v4 a len).text = some (.v4 a len) :=
      NetIp.parseCIDR_text ⟨by omega, ha.aligned⟩ id
    have hsame := Option.some.inj ((hread ha).symm.trans ((congrArg parseCIDR htext).trans (hread ha')))
    exact hapart claim hclaim n hn (hsame ▸ hover)
  · intro h draw subnet hsubnet
    obtain ⟨hfree, idx, rfl⟩ := findSubnet_eq_ok ((hok draw subnet).mp hsubnet)
    have hidx := (hblock _).mpr ⟨idx, rfl⟩
    exact ⟨_, rfl, hidx, fun claim hclaim n hn hover => hfree (h (by omega) (by omega) _ hidx claim hclaim n hn hover)⟩

/-- No peer claims anything. -/
theorem allocateSubnet_apart_iff_unclaimed :
    allocateSubnet (fun _ => .ok 0) (.v4 0x0a000000 8) 16 [] = .ok "10.0.0.0/16" ∧
      ∃ a, "10.0.0.0/16" = (IPNet.v4 a 16).text ∧ Block 0x0a000000 8 16 a := by
  have hok : allocateSubnet (fun _ => .ok 0) (.v4 0x0a000000 8) 16 [] = .ok "10.0.0.0/16" := by decide +kernel
  obtain ⟨a, htext, ha, -⟩ :=
    (allocateSubnet_apart_iff 0x0a000000 8 16 [] ⟨by decide, by decide⟩).mpr (by simp) _ _ hok
  exact ⟨hok, a, htext, ha⟩

/-- A peer has 10.0.1.0/24, and 10.0.0.0/16 is taken for free. -/
theorem claimed_part_is_taken :
    allocateSubnet (fun _ => .ok 0) (.v4 0x0a000000 8) 16 ["10.0.1.0/24"] = .ok "10.0.0.0/16" ∧
      parseCIDR "10.0.0.0/16" = some (.v4 0x0a000000 16) ∧ parseCIDR "10.0.1.0/24" = some (.v4 0x0a000100 24) ∧
      Overlaps (.v4 0x0a000000 16) (.v4 0x0a000100 24) :=
  ⟨by decide +kernel, by decide +kernel, by decide +kernel, 0x0a000100, by decide, by decide⟩

end SubnetConflict
