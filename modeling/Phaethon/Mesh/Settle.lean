import Mathlib.Combinatorics.SimpleGraph.Acyclic
import Phaethon.Mesh.Gossip

/-!
# Gossip in a forest

A claim is not sent back to where it came from, so it moves along links without turning back. In a mesh whose links
form a forest that is a path: after as many rounds as there are nodes no claim is left that was there at the
beginning, and every other one has come from its node over a path of as many links as its hop count says.
-/

namespace Gossip

open SimpleGraph List Int64

variable {ι Q : Type}

/-- The state after a sequence of broadcasts. -/
def Mesh.run [DecidableEq ι] (M : Mesh ι) (s : State ι Q) (bs : List (Broadcast ι Q)) : State ι Q :=
  bs.foldl M.round s

/-- A round in which every node broadcasts. -/
def Fair (round : List (Broadcast ι Q)) : Prop :=
  ∀ u, ∃ b ∈ round, b.node = u

/-- Hop counts are below the number of nodes, and claims are those of nodes that are connected to the receiver. -/
structure Mesh.Settled [Fintype ι] (M : Mesh ι) (s : State ι Q) : Prop where
  hop_lt : ∀ u, ∀ p ∈ M.peers u, ∀ cs ∈ (s u p.link).claimedSubnets,
    cs.hop.toInt < Fintype.card ι
  origin : ∀ u, ∀ p ∈ M.peers u, ∀ cs ∈ (s u p.link).claimedSubnets,
    ∃ x, (M.self x).nodeID = cs.nodeID ∧ M.graph.Reachable x u

/-- Whatever is stored at the beginning, the mesh is settled after `bound` fair rounds and stays so. -/
def Mesh.Settles [Fintype ι] [DecidableEq ι] (M : Mesh ι) (Q : Type) (bound : ℕ) : Prop :=
  ∀ (s : State ι Q) (rounds : List (List (Broadcast ι Q))) (rest : List (Broadcast ι Q)),
    (∀ round ∈ rounds, Fair round) → bound ≤ rounds.length →
      M.Settled (M.run s (rounds.flatten ++ rest))

/-! ## Paths -/

/-- The claim has come to `u` over `v` along a path, from the beginning of which it is that of its node, or which
is at least `age` links long. -/
def Mesh.Traced (M : Mesh ι) (age : ℕ) (u v : ι) (cs : PeerClaimedSubnetEntry Q) : Prop :=
  ∃ (x : ι) (w : M.graph.Walk x v) (h : M.graph.Adj v u), (w.concat h).IsPath ∧
    (age ≤ w.length ∨ (M.self x).nodeID = cs.nodeID ∧ cs.hop = ofNat (w.length + 1))

section Forest

variable {M : Mesh ι} {s : State ι Q} {age : ℕ} {u v z : ι}

theorem Mesh.adj_of_mem {p : Peer ι} (hp : p ∈ M.peers u) : M.graph.Adj p.node u :=
  M.graph.adj_symm ⟨p, hp, rfl⟩

/-- In a forest a path goes on to every neighbour but the one that it has come from. -/
theorem isPath_concat_concat {V : Type*} {G : SimpleGraph V} (hG : G.IsAcyclic) {x u v z : V}
    {w : G.Walk x v} {h : G.Adj v u} (hw : (w.concat h).IsPath) (h' : G.Adj u z) (hne : z ≠ v) :
    ((w.concat h).concat h').IsPath := by
  refine hw.concat (fun hmem => hne ?_) h'
  rw [hG.eq_penultimate_of_adj_end hw h' hmem, Walk.penultimate_concat]

theorem isPath_nil_concat {V : Type*} {G : SimpleGraph V} {u v : V} (h : G.Adj v u) : (Walk.nil.concat h).IsPath :=
  Walk.IsPath.nil.concat (by simpa using h.ne.symm) h

theorem Mesh.traced_of_adj (h : M.graph.Adj v u) (cs : PeerClaimedSubnetEntry Q) : M.Traced 0 u v cs :=
  ⟨v, .nil, h, isPath_nil_concat h, .inl (Nat.zero_le _)⟩

theorem Mesh.Traced.mono {cs : PeerClaimedSubnetEntry Q} {k : ℕ} (h : M.Traced age u v cs)
    (hle : k ≤ age) : M.Traced k u v cs := by
  obtain ⟨x, w, hadj, hpath, hcase⟩ := h
  exact ⟨x, w, hadj, hpath, hcase.imp_left hle.trans⟩

/-- The own claim of a node at a neighbour. -/
theorem Mesh.traced_own (h : M.graph.Adj v u) {cs : PeerClaimedSubnetEntry Q}
    (hnode : cs.nodeID = (M.self v).nodeID) (hhop : cs.hop = 1) : M.Traced age u v cs :=
  ⟨v, .nil, h, isPath_nil_concat h, .inr ⟨hnode.symm, hhop⟩⟩

/-- A claim that is passed on to another node than it came from. -/
theorem Mesh.Traced.pass (hM : M.graph.IsAcyclic) {old cs : PeerClaimedSubnetEntry Q}
    (h : M.Traced age u v old) (hadj : M.graph.Adj u z) (hne : z ≠ v)
    (hnode : cs.nodeID = old.nodeID) (hhop : cs.hop = old.hop + 1) : M.Traced (age + 1) z u cs := by
  obtain ⟨x, w, huv, hpath, hcase⟩ := h
  refine ⟨x, w.concat huv, hadj, isPath_concat_concat hM hpath hadj hne, ?_⟩
  rw [Walk.length_concat]
  rcases hcase with hold | ⟨horigin, hlength⟩
  · exact .inl (by omega)
  · refine .inr ⟨horigin.trans hnode.symm, ?_⟩
    rw [hhop, hlength, ofNat_add (w.length + 1) 1]
    rfl

end Forest

/-! ## Rounds -/

/-- Claims are traced to age `age`, and those of the senders in `done` one link further. -/
def Mesh.Aged (M : Mesh ι) (s : State ι Q) (age : ℕ) (done : List ι) : Prop :=
  ∀ u, ∀ p ∈ M.peers u, ∀ cs ∈ (s u p.link).claimedSubnets,
    M.Traced age u p.node cs ∧ (p.node ∈ done → M.Traced (age + 1) u p.node cs)

section Rounds

variable {M : Mesh ι} {s : State ι Q} {age : ℕ} {done : List ι}

theorem Mesh.aged_zero (s : State ι Q) : M.Aged s 0 [] := by
  intro u p hp cs _
  exact ⟨traced_of_adj (adj_of_mem hp) cs, fun hmem => absurd hmem not_mem_nil⟩

/-- One broadcast. -/
theorem Mesh.Aged.round [DecidableEq ι] (hM : M.graph.IsAcyclic) (h : M.Aged s age done) (b : Broadcast ι Q) :
    M.Aged (M.round s b) age (b.node :: done) := by
  intro u q hq cs hcs
  by_cases hnode : q.node = b.node
  · have hadj := M.adj_of_mem hq
    have hnew : M.Traced (age + 1) u q.node cs := by
      rw [M.round_of_eq hq hnode] at hcs
      rcases received_cases hcs with ⟨hown, _, hhop⟩ | ⟨seen, hseen, hne, old, hold, hid, _, hhop⟩
      · exact traced_own hadj (hnode ▸ hown) hhop
      · obtain ⟨p, hp, rfl⟩ := mem_map.mp hseen
        rw [hnode] at hadj ⊢
        refine (h b.node p hp old hold).1.pass hM hadj ?_ hid hhop
        rintro rfl
        exact hne rfl
    exact ⟨hnew.mono (Nat.le_succ age), fun _ => hnew⟩
  · rw [M.round_of_ne hq hnode] at hcs
    obtain ⟨hold, hdone⟩ := h u q hq cs hcs
    exact ⟨hold, fun hmem => hdone ((mem_cons.mp hmem).resolve_left hnode)⟩

theorem Mesh.Aged.run [DecidableEq ι] (hM : M.graph.IsAcyclic) (h : M.Aged s age done)
    (bs : List (Broadcast ι Q)) : ∃ done', M.Aged (M.run s bs) age done' ∧
      ∀ v, v ∈ done ∨ (∃ b ∈ bs, b.node = v) → v ∈ done' := by
  induction bs generalizing s done with
  | nil =>
    refine ⟨done, h, ?_⟩
    rintro v (hv | ⟨b, hb, _⟩)
    · exact hv
    · cases hb
  | cons b bs ih =>
    obtain ⟨done', hrun, hsub⟩ := ih (h.round hM b)
    refine ⟨done', hrun, ?_⟩
    rintro v (hv | ⟨c, hc, rfl⟩)
    · exact hsub v (.inl (mem_cons_of_mem _ hv))
    · rcases mem_cons.mp hc with rfl | hc
      · exact hsub _ (.inl mem_cons_self)
      · exact hsub _ (.inr ⟨c, hc, rfl⟩)

/-- In a fair round every claim gets one link older. -/
theorem Mesh.Aged.fair [DecidableEq ι] (hM : M.graph.IsAcyclic) (h : M.Aged s age [])
    {round : List (Broadcast ι Q)} (hfair : Fair round) : M.Aged (M.run s round) (age + 1) [] := by
  obtain ⟨done, hrun, hdone⟩ := h.run hM round
  intro u p hp cs hcs
  refine ⟨(hrun u p hp cs hcs).2 (hdone p.node (.inr (hfair p.node))), fun hmem => ?_⟩
  cases hmem

theorem Mesh.Aged.rounds [DecidableEq ι] (hM : M.graph.IsAcyclic) (h : M.Aged s age [])
    {rounds : List (List (Broadcast ι Q))} (hfair : ∀ round ∈ rounds, Fair round) :
    M.Aged (M.run s rounds.flatten) (age + rounds.length) [] := by
  induction rounds generalizing s age with
  | nil => exact h
  | cons round rounds ih =>
    rw [flatten_cons, Mesh.run, foldl_append, length_cons,
      show age + (rounds.length + 1) = age + 1 + rounds.length by omega]
    exact ih (h.fair hM (hfair round mem_cons_self))
      fun r hr => hfair r (mem_cons_of_mem round hr)

/-- Counting links does not exceed their number, overflow or not. -/
theorem toInt_ofNat_le (k : ℕ) : (ofNat k).toInt ≤ k := by
  rw [toInt_ofNat', Int.bmod_def]
  have hmod : (k : ℤ) % size ≤ k := mod_cast Nat.mod_le k size
  split <;> omega

/-- No path is as long as there are nodes. -/
theorem Mesh.Aged.settled [Fintype ι] (h : M.Aged s age done) (hage : Fintype.card ι ≤ age) : M.Settled s := by
  have htrace : ∀ u, ∀ p ∈ M.peers u, ∀ cs ∈ (s u p.link).claimedSubnets,
      ∃ x, (M.self x).nodeID = cs.nodeID ∧ M.graph.Reachable x u ∧
        ∃ k < Fintype.card ι, cs.hop = ofNat k := by
    intro u p hp cs hcs
    obtain ⟨x, w, hadj, hpath, hcase⟩ := (h u p hp cs hcs).1
    have hlength := hpath.length_lt
    rw [Walk.length_concat] at hlength
    rcases hcase with hold | ⟨horigin, hhop⟩
    · omega
    · exact ⟨x, horigin, ⟨w.concat hadj⟩, w.length + 1, hlength, hhop⟩
  constructor
  · intro u p hp cs hcs
    obtain ⟨_, _, _, k, hk, hhop⟩ := htrace u p hp cs hcs
    have hle := toInt_ofNat_le k
    rw [hhop]
    omega
  · intro u p hp cs hcs
    obtain ⟨x, horigin, hreach, _⟩ := htrace u p hp cs hcs
    exact ⟨x, horigin, hreach⟩

/-- A mesh whose links form a forest settles in as many rounds as it has nodes. -/
theorem Mesh.settles_of_isAcyclic [Fintype ι] [DecidableEq ι] (hM : M.graph.IsAcyclic) :
    M.Settles Q (Fintype.card ι) := by
  intro s rounds rest hfair hbound
  have haged := (aged_zero s).rounds hM hfair
  obtain ⟨done, hrun, _⟩ := haged.run hM rest
  rw [Mesh.run, foldl_append]
  exact hrun.settled (by omega)

end Rounds

end Gossip
