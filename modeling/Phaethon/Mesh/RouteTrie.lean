import Mathlib.Tactic.IntervalCases
import Phaethon.Common.BitTrie
import Phaethon.Common.IpNet

/-!
# The route trie

`src/mesh/route_trie.go`: `Insert` goes along as many bits of the address as the mask is long. The address has four
bytes, and an index beyond them is a failure (`none`). For a network that is written as an IPv4-mapped IPv6 address
the mask is longer than that (`harmless_iff`). For IPv4 networks `Lookup` is longest-prefix match (`lookup_longest`).
-/

namespace RouteTrie

open BitTrie NetIp List Option
open Ipv4 (Addr)

variable {α : Type}

/-- One bit: `(ip[i/8] >> (7 - i%8)) & 1`. -/
def bitAt (ip : List (BitVec 8)) (i : ℕ) : Option Bool :=
  ip[i / 8]?.map fun byte : BitVec 8 => (byte >>> (7 - i % 8)).getLsbD 0

/-- The bits that the loop of `Insert` goes along. -/
def pathBits (ip : List (BitVec 8)) (prefixLen : ℕ) : Option (List Bool) :=
  (List.range prefixLen).mapM (bitAt ip)

/-- `newRouteTrie`. -/
def newRouteTrie : Trie α := .node none .nil .nil

/-- `(*routeTrie).Insert`. -/
def insert (t : Trie α) (network : IPNet) (route : α) : Option (Trie α) :=
  match network.to4 with
  | none => some t
  | some ip => (pathBits (octets ip) network.len).map fun path => t.insert path route

/-- `(*routeTrie).Lookup` of an IPv4 address. -/
def lookup (t : Trie α) (dst : Addr) : Option α :=
  t.walk none (bitsOf dst 32)

/-! ## Bounds -/

section Bounds

variable {a : Addr} {n : ℕ}

theorem bitAt_octets (a : Addr) {i : ℕ} (hi : i < 32) : bitAt (octets a) i = some (a.getMsbD i) := by
  have hbyte : (octets a)[i / 8]? = some (a.extractLsb' (24 - 8 * (i / 8)) 8) := by
    have : i / 8 < 4 := by omega
    interval_cases i / 8 <;> rfl
  rw [bitAt, hbyte, map_some, BitVec.getLsbD_ushiftRight, BitVec.getLsbD_extractLsb', BitVec.getMsbD]
  have hlt : 7 - i % 8 + 0 < 8 := by omega
  have hindex : 24 - 8 * (i / 8) + (7 - i % 8 + 0) = 32 - 1 - i := by omega
  simp only [hlt, hi, decide_true, Bool.true_and, hindex]

theorem pathBits_succ (ip : List (BitVec 8)) (n : ℕ) :
    pathBits ip (n + 1) = (pathBits ip n).bind fun path => (bitAt ip n).map fun b => path ++ [b] := by
  rw [pathBits, range_succ, mapM_append, mapM_cons, mapM_nil, pathBits]
  cases (List.range n).mapM (bitAt ip) <;> cases bitAt ip n <;> rfl

/-- The loop stays within the address for a mask of up to 32 bits. -/
theorem pathBits_octets (a : Addr) (hn : n ≤ 32) : pathBits (octets a) n = some (bitsOf a n) := by
  induction n with
  | zero => rfl
  | succ n ih =>
    rw [pathBits_succ, ih (by omega), bitAt_octets a (by omega), bitsOf_succ]
    rfl

/-- It leaves it for a longer one. -/
theorem pathBits_octets_eq_none (a : Addr) (hn : 32 < n) : pathBits (octets a) n = none := by
  induction n with
  | zero => omega
  | succ n ih =>
    rw [pathBits_succ]
    by_cases h : 32 < n
    · rw [ih h]
      rfl
    · rw [show n = 32 by omega, pathBits_octets a le_rfl]
      rfl

end Bounds

/-! ## What an insertion does -/

variable {network : IPNet}

theorem insert_v4 {a : Addr} {len : ℕ} (hlen : len ≤ 32) (t : Trie α) (route : α) :
    insert t (.v4 a len) route = some (t.insert (bitsOf a len) route) := by
  rw [insert, IPNet.to4, IPNet.len]
  simp only [pathBits_octets a hlen, map_some]

theorem insert_v6 {a : BitVec 128} {len : ℕ} (h : ¬ (IPNet.v6 a len).Mapped) (t : Trie α) (route : α) :
    insert t (.v6 a len) route = some t := by
  rw [insert, IPNet.to4_of_not_mapped h]

/-- The mask of a mapped network is longer than its address. -/
theorem insert_mapped (hformed : network.Formed) (h : network.Mapped) (t : Trie α) (route : α) :
    insert t network route = none := by
  cases network with
  | v4 a len => cases h
  | v6 a len =>
    have hlen := h.len_le hformed
    rw [insert, IPNet.to4_of_mapped h]
    simp only [IPNet.len, pathBits_octets_eq_none _ (show 32 < len by omega), map_none]

/-- The network can be inserted into every trie, and does not matter to addresses outside of it. -/
def Harmless (network : IPNet) : Prop :=
  ∀ (α : Type) (t : Trie α) (route : α), ∃ t', insert t network route = some t' ∧
    ∀ dst, ¬ network.Contains dst → lookup t' dst = lookup t dst

/-- A network that any peer may claim: the loop asks for a fifth byte. -/
theorem mapped_network_out_of_range :
    ∃ network, parseCIDR "::ffff:10.0.0.0/104" = some network ∧ ¬ Harmless network := by
  refine ⟨.v6 0xffff0a000000 104, by decide +kernel, fun hharmless => ?_⟩
  obtain ⟨t, ht, _⟩ := hharmless Unit newRouteTrie ()
  have hnone : (insert newRouteTrie (.v6 0xffff0a000000 104) ()).isNone = true := by decide +kernel
  rw [ht] at hnone
  cases hnone

/-- The network of a peer is harmless exactly if its text is not an IPv4-mapped IPv6 address. -/
theorem harmless_iff {s : String} (h : parseCIDR s = some network) : Harmless network ↔ ¬ network.Mapped := by
  have hformed := formed_of_parseCIDR h
  constructor
  · intro hharmless hmapped
    obtain ⟨t', ht', _⟩ := hharmless Unit newRouteTrie ()
    rw [insert_mapped hformed hmapped] at ht'
    cases ht'
  · intro hmapped α t route
    cases network with
    | v4 a len =>
      refine ⟨_, insert_v4 hformed.1 t route, fun dst hdst => Trie.walk_congr fun key hkey => ?_⟩
      rw [Trie.find_insert, if_neg]
      rintro rfl
      exact hdst ((bitsOf_prefix_iff hformed.1).mp hkey)
    | v6 a len => exact ⟨t, insert_v6 hmapped t route, fun _ _ => rfl⟩

theorem host_bits_harmless : ∃ network, parseCIDR "10.1.2.3/8" = some network ∧ Harmless network := by
  have h : parseCIDR "10.1.2.3/8" = some (.v4 0x0a000000 8) := by decide +kernel
  exact ⟨_, h, (harmless_iff h).mpr id⟩

/-! ## Longest-prefix match -/

/-- An insertion of an IPv4 network; the address may have host bits. -/
structure Insertion (α : Type) where
  addr : Addr
  len : ℕ
  len_le : len ≤ 32
  route : α

open Insertion

namespace Insertion

def net (e : Insertion α) : IPNet := .v4 e.addr e.len

/-- The key of the network in the trie. -/
def path (e : Insertion α) : List Bool := bitsOf e.addr e.len

theorem path_prefix_iff {e : Insertion α} {dst : Addr} : e.path <+: bitsOf dst 32 ↔ e.net.Contains dst :=
  bitsOf_prefix_iff e.len_le

theorem length_path (e : Insertion α) : e.path.length = e.len := length_bitsOf e.addr e.len

end Insertion

variable (ins : List (Insertion α))

/-- Insertions one after the other, into an empty trie. -/
def insertAll : Option (Trie α) :=
  ins.foldlM (fun t e => insert t e.net e.route) newRouteTrie

/-- The route of the longest of the networks that contain the address, and of the last insertion of that network. Two
networks of one length that contain an address are the same. -/
def Best (dst : Addr) (route : α) : Prop :=
  ∃ before e after, ins = before ++ e :: after ∧ e.route = route ∧ e.net.Contains dst ∧
    (∀ e' ∈ before, e'.net.Contains dst → e'.len ≤ e.len) ∧ ∀ e' ∈ after, e'.net.Contains dst → e'.len < e.len

/-- The value of a key is that of its last insertion. -/
theorem find_insertAll :
    ∃ t, insertAll ins = some t ∧
      ∀ key, t.find key = (ins.reverse.find? fun e => e.path = key).map route := by
  have hempty (key : List Bool) : (newRouteTrie : Trie α).find key = none := by
    cases key with
    | nil => rfl
    | cons b key => cases b <;> exact Trie.find_nil key
  induction ins using reverseRecOn with
  | nil => exact ⟨newRouteTrie, rfl, hempty⟩
  | append_singleton ins e ih =>
    obtain ⟨t, ht, hfind⟩ := ih
    refine ⟨t.insert e.path e.route, ?_, fun key => ?_⟩
    · rw [insertAll, foldlM_append, show foldlM _ _ ins = some t from ht]
      simpa [net, path] using insert_v4 e.len_le t e.route
    · rw [Trie.find_insert, hfind, reverse_append, reverse_singleton, singleton_append,
        find?_cons]
      by_cases hkey : key = e.path
      · simp [hkey]
      · simp [hkey, Ne.symm hkey]

/-- If a network contains the address, there is a best one. -/
theorem exists_best {ins : List (Insertion α)} {dst : Addr} (h : ∃ e ∈ ins, e.net.Contains dst) :
    ∃ route, Best ins dst route := by
  induction ins with
  | nil => simp at h
  | cons e ins ih =>
    by_cases hrest : ∃ e ∈ ins, e.net.Contains dst
    · obtain ⟨-, before, b, after, rfl, -, hb, hbefore, hafter⟩ := ih hrest
      by_cases hlonger : e.net.Contains dst ∧ b.len < e.len
      · refine ⟨e.route, [], e, _, rfl, rfl, hlonger.1, by simp, fun e' he' hcontains => ?_⟩
        rcases mem_append.mp he' with he' | he'
        · exact (hbefore e' he' hcontains).trans_lt hlonger.2
        · rcases mem_cons.mp he' with rfl | he'
          · exact hlonger.2
          · exact (hafter e' he' hcontains).trans hlonger.2
      · refine ⟨b.route, e :: before, b, after, rfl, rfl, hb, fun e' he' hcontains => ?_, hafter⟩
        rcases mem_cons.mp he' with rfl | he'
        · exact not_lt.mp fun hlt => hlonger ⟨hcontains, hlt⟩
        · exact hbefore e' he' hcontains
    · obtain ⟨e', he', hcontains⟩ := h
      rcases mem_cons.mp he' with rfl | he'
      · exact ⟨e'.route, [], e', ins, rfl, rfl, hcontains, by simp, fun e he h => absurd ⟨e, he, h⟩ hrest⟩
      · exact absurd ⟨e', he', hcontains⟩ hrest

/-- For insertions of IPv4 networks in any order, `Lookup` is longest-prefix match, and the last insertion of a
network wins. -/
theorem lookup_longest (ins : List (Insertion α)) :
    ∃ t, insertAll ins = some t ∧ ∀ dst, (∀ route, lookup t dst = some route ↔ Best ins dst route) ∧
      (lookup t dst = none ↔ ∀ e ∈ ins, ¬ e.net.Contains dst) := by
  obtain ⟨t, ht, hfind⟩ := find_insertAll ins
  refine ⟨t, ht, fun dst => ?_⟩
  -- a key on the way to the address that has a value is the path of a network around the address
  have hvalue (key : List Bool) (hkey : key <+: bitsOf dst 32) (hsome : t.find key ≠ none) :
      ∃ e ∈ ins, e.net.Contains dst ∧ e.len = key.length := by
    rw [hfind, ne_eq, map_eq_none_iff, find?_eq_none] at hsome
    push Not at hsome
    obtain ⟨e, he, hpath⟩ := hsome
    obtain rfl := of_decide_eq_true hpath
    exact ⟨e, mem_reverse.mp he, path_prefix_iff.mp hkey, e.length_path.symm⟩
  have hnone (h : ∀ e ∈ ins, ¬ e.net.Contains dst) : lookup t dst = none := by
    refine Trie.walk_of_none fun key hkey => ?_
    by_contra hsome
    obtain ⟨e, he, hcontains, -⟩ := hvalue key hkey hsome
    exact h e he hcontains
  have hbest {route : α} (h : Best ins dst route) : lookup t dst = some route := by
    obtain ⟨before, e, after, rfl, rfl, hcontains, hbefore, hafter⟩ := h
    refine Trie.walk_of_longest (path_prefix_iff.mpr hcontains) ?_ fun key hkey hlonger => ?_
    · have hlast : after.reverse.find? (fun e' => decide (e'.path = e.path)) = none := by
        refine find?_eq_none.mpr fun e' he' hpath => ?_
        have hpath := of_decide_eq_true hpath
        have hcontains' : e'.net.Contains dst :=
          path_prefix_iff.mp (hpath ▸ path_prefix_iff.mpr hcontains)
        have hlen : e'.len = e.len := by rw [← e'.length_path, hpath, e.length_path]
        exact (hafter e' (mem_reverse.mp he') hcontains').ne hlen
      rw [hfind, reverse_append, reverse_cons, append_assoc, find?_append, hlast]
      simp
    · by_contra hsome
      obtain ⟨e', he', hcontains', hlen⟩ := hvalue key hkey hsome
      rw [e.length_path, ← hlen] at hlonger
      rcases mem_append.mp he' with he' | he'
      · exact hlonger.not_ge (hbefore e' he' hcontains')
      · rcases mem_cons.mp he' with rfl | he'
        · exact hlonger.ne rfl
        · exact hlonger.not_gt (hafter e' he' hcontains')
  have hmatch (h : lookup t dst ≠ none) : ∃ e ∈ ins, e.net.Contains dst := by
    by_contra hall
    push Not at hall
    exact h (hnone hall)
  refine ⟨fun route => ⟨fun hlookup => ?_, hbest⟩, fun hlookup e he hcontains => ?_, hnone⟩
  · obtain ⟨route', h⟩ := exists_best (hmatch (by simp [hlookup]))
    rwa [Option.some.inj (hlookup.symm.trans (hbest h))]
  · obtain ⟨route, h⟩ := exists_best ⟨e, he, hcontains⟩
    rw [hbest h] at hlookup
    cases hlookup

end RouteTrie
