import Phaethon.Db.Chain
import Phaethon.Dialer.Depth

/-!
# Finite chains

What the edits of the configuration leave behind, and what a dial does with it. As long as no edit makes
the `via` references run in circles, every chain leads to `DIRECT`, and a dial along it returns; how deep
it recurses is then decided by the chain alone, as nothing counts the levels.
-/

namespace Dialer

open Chain Db Config.Pool Dialer.Graph

variable {α : Type*}

/-- A chain dial recurses at most `maxDialDepth` levels. -/
def Graph.DialBounded (G : Graph α) (env : ℕ → α → Bool) (p : α) : Prop :=
  ∃ fuel, ∃ n ≤ maxDialDepth, G.chainDial env fuel p 0 = some n

/-- A UDP association recurses at most `maxDialDepth` levels. -/
def Graph.AssociationBounded (G : Graph α) (env : ℕ → α → Bool) (p : α) : Prop :=
  ∃ fuel, ∃ n ≤ maxDialDepth, G.socks5UDPAssociate env fuel p = some n

variable {G : Graph α} {env : ℕ → α → Bool} {p : α}

/-- In a circle of proxies that all dial on, neither recursion comes to an end. -/
theorem Graph.never_returns {inside : α → Prop} (hclosed : ∀ x, inside x → ∃ y, G.next x = .ref y ∧ inside y)
    (hdials : ∀ x, inside x → ∀ c, G.dialCalls c x = [.dial (G.next x)])
    (htype : ∀ x, inside x → (G.node x).type ≠ "DIRECT") (hp : inside p) (fuel : ℕ) :
    G.chainDial env fuel p 0 = none ∧ G.socks5UDPAssociate env fuel p = none := by
  have hover (k : ℕ) : ¬ G.Over k p := by
    obtain ⟨y, hy, hin⟩ := hop_of_closed hclosed k hp
    rw [Over, hy]
    exact htype y hin
  constructor
  · refine Option.eq_none_iff_forall_ne_some.mpr fun n hn => ?_
    obtain ⟨k, _, hstop | ⟨hquiet, _⟩⟩ := exists_chainDial_le_iff.mp ⟨fuel, n, le_rfl, hn⟩
    · exact hover k hstop
    · obtain ⟨y, hy, hin⟩ := hop_of_closed hclosed k hp
      rw [Quiet, hy] at hquiet
      simp [hdials y hin] at hquiet
  · refine Option.eq_none_iff_forall_ne_some.mpr fun n hn => ?_
    obtain ⟨k, _, _, hstop⟩ := exists_socks5UDPAssociate_le_iff.mp ⟨fuel, n, le_rfl, hn⟩
    exact hover k hstop

/-- In a run whose edits all keep the references free of circles every chain leads to `DIRECT` in every
state that is reached. A recursion stays within `maxDialDepth` exactly where the chain stops it. -/
theorem chains_finite {s t : Wiring} {changes : List Change} (hs : s.Chained)
    (hok : Lts.Always onConfigChange (fun s c => c.KeepsAcyclic s) s changes)
    (hrun : Lts.exec onConfigChange s changes = some t) :
    t.Chained ∧ ∀ (G : Graph ℕ) (env : ℕ → ℕ → Bool) (p : ℕ),
      (G.DialBounded env p ↔ G.DialStops env 0 maxDialDepth p) ∧
        (G.AssociationBounded env p ↔ G.AssociateStops maxDialDepth p) := by
  refine ⟨?_, fun G env p =>
    ⟨exists_chainDial_le_iff, exists_socks5UDPAssociate_le_iff⟩⟩
  exact Lts.exec_invariant (fun _ _ _ hs hc h => onConfigChange_chained hs hc h) hs hok hrun

/-! ## Two proxies -/

/-- Proxy `A` without a reference, and `B` via `A`. -/
def pair : Wiring where
  pool := .ofProxies (fun name => if name = "A" then some 0 else if name = "B" then some 1 else none)
    (by decide)
  keys := ["A", "B"]
  mem_keys name := by
    by_cases hA : name = "A"
    · simp [hA, ofProxies]
    · by_cases hB : name = "B"
      · simp [hB, ofProxies]
      · simp [hA, hB, ofProxies]
  via p := if p = 1 then "A" else ""
  next p := if p = 0 then .out else if p = 1 then .ref 0 else .nil
  idx _ := 0
  fresh := 2
  proxies_lt {name p} h := by
    simp only [ofProxies] at h
    split at h
    · cases h
      omega
    · split at h
      · cases h
        omega
      · cases h
  nodes_lt h := by cases h

theorem pair_chained : pair.Chained := by
  have hA : Ends pair.next 0 := .out rfl
  have hB : Ends pair.next 1 := .ref rfl hA
  intro name p hp
  have hlt : p < 2 := pair.proxies_lt hp
  obtain rfl | rfl : p = 0 ∨ p = 1 := by omega
  · exact hA
  · exact hB

/-- An edit of one proxy, with enough steps for the rewiring. -/
def setVia (key : Key) (via : String) (order : List String) : Change where
  event := .putProxy key (some via)
  order := order
  sel _ _ := default
  depth := 0
  steps := 4

/-- A SOCKS5 proxy without peer-to-peer. -/
def socks5Node : Node := ⟨⟨"", "SOCKS5", none, ""⟩, some false, false⟩

theorem socks5Node_dialCalls (next : ℕ → Link ℕ) (c : Bool) (p : ℕ) :
    (mk (fun _ => socks5Node) next).dialCalls c p = [.dial (next p)] := by
  have hkind : newDialer socks5Node.type = .socks5 := by decide
  have hmesh : socks5Node.isP2P = false := by decide
  simp only [dialCalls, hmesh, hkind, Bool.false_eq_true, false_and, if_false]
  rfl

/-- `A` is edited to go via `B`. The new `A` refers to `B` and `B` to the new `A` when the check finds the
circle, so both keep those pointers. -/
theorem edit_closes_circle :
    pair.Chained ∧ ∃ t p, Lts.exec onConfigChange pair [setVia ⟨"A", by decide⟩ "B" ["A", "B"]] = some t ∧
      t.pool.proxies "A" = some p ∧ ¬ Ends t.next p ∧
      ∀ fuel, (mk (fun _ => socks5Node) t.next).chainDial (fun _ _ => true) fuel p 0 = none ∧
        (mk (fun _ => socks5Node) t.next).socks5UDPAssociate (fun _ _ => true) fuel p = none := by
  refine ⟨pair_chained, _, 2, rfl, rfl, ?_⟩
  generalize hnext : Wiring.next _ = next
  have hclosed : ∀ x, x = 1 ∨ x = 2 → ∃ y, next x = .ref y ∧ (y = 1 ∨ y = 2) := by
    rintro x (rfl | rfl)
    · exact ⟨2, hnext ▸ rfl, .inr rfl⟩
    · exact ⟨1, hnext ▸ rfl, .inl rfl⟩
  refine ⟨not_ends_of_closed hclosed (.inr rfl), fun fuel => ?_⟩
  have htype : socks5Node.type ≠ "DIRECT" := by decide
  exact never_returns hclosed (fun x _ c => socks5Node_dialCalls next c x) (fun _ _ => htype)
    (.inr rfl) fuel

/-- Without groups, references are by name. -/
theorem pair_acyclic : (pair.putProxy ⟨"C", by decide⟩ "B").Acyclic := by
  refine Subrelation.wf ?_ (measure id).wf
  rintro q p ⟨hops, ⟨hproxy, _⟩ | ⟨_, g, hg, _⟩⟩
  · show q < p
    by_cases hC : p = 2
    · subst hC
      obtain rfl : 1 = q := Option.some.inj hproxy
      omega
    · by_cases hB : p = 1
      · subst hB
        obtain rfl : 0 = q := Option.some.inj hproxy
        omega
      · have hvia : (pair.putProxy ⟨"C", by decide⟩ "B").via p = "" :=
          (Function.update_of_ne hC _ _).trans (if_neg hB)
        rw [hvia] at hproxy
        cases hproxy
  · cases hg

/-- `C` is added to go via `B`. -/
theorem chains_finite_added :
    ∃ t, Lts.exec onConfigChange pair [setVia ⟨"C", by decide⟩ "B" ["A", "B", "C"]] = some t ∧
      t.Chained ∧ (mk (fun _ => socks5Node) t.next).DialBounded (fun _ _ => true) 2 := by
  have hok : (setVia ⟨"C", by decide⟩ "B" ["A", "B", "C"]).KeepsAcyclic pair := by
    rintro t ht
    cases ht
    exact pair_acyclic
  have halways : Lts.Always onConfigChange (fun s c => c.KeepsAcyclic s) pair
      [setVia ⟨"C", by decide⟩ "B" ["A", "B", "C"]] := ⟨hok, trivial⟩
  refine ⟨_, rfl, ?_⟩
  obtain ⟨hchained, hdials⟩ := chains_finite pair_chained halways rfl
  refine ⟨hchained, (hdials _ _ 2).1.mpr ⟨3, by decide, .inl ?_⟩⟩
  trivial

end Dialer
