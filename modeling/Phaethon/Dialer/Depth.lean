import Phaethon.Common.Link
import Phaethon.Common.Nesting
import Phaethon.Db.Matcher

/-!
# How deep a chain dial recurses

`src/dialer`: each dialer builds the dialer of `Next` itself and dials with it, and `Socks5UDPAssociate`
associates with `Next` before it dials. `chainDial` compares the depth it is given with `maxDialDepth`,
but it is only ever given `0`: no dialer passes a depth on. Network failures end a dial only after the
calls below it have returned, so the calls that are made follow from the chain and from which dialers
make a new connection.
-/

namespace Dialer

open Chain Nesting

/-- `Proxy`, as far as the dialers read it before they call the next one. -/
structure Node extends Config.Proxy where
  p2p : Option Bool
  v2 : Bool

/-- `IsP2PCompatibleType`. -/
def isP2PCompatibleType (type : String) : Bool :=
  Text.equalFold type "socks5" || Text.equalFold type "trojan" || Text.equalFold type "h_tunnel"

/-- `(*Proxy).IsP2P`. -/
def Node.isP2P (n : Node) : Bool :=
  isP2PCompatibleType n.type && n.p2p.getD true

/-- The dialers. -/
inductive Kind where
  | direct
  | socks5
  | trojan
  | hTunnel
  | hysteria2
  | vless
  | ssh
  | shadowsocks
  | http
  | stub
  deriving DecidableEq

/-- The switch of `NewDialer`. -/
def newDialer (type : String) : Kind :=
  match Text.toUpper type with
  | "DIRECT" => .direct
  | "SOCKS5" => .socks5
  | "TROJAN" => .trojan
  | "H_TUNNEL" => .hTunnel
  | "HYSTERIA2" => .hysteria2
  | "VLESS" => .vless
  | "SSH" => .ssh
  | "SS" => .shadowsocks
  | "HTTP" => .http
  | _ => .stub

/-- The proxies and their `Next` pointers. -/
structure Graph (α : Type*) where
  node : α → Node
  next : α → Link α

/-- The two recursive functions: `Dial` of the dialer for a proxy, which may be nil, and
`Socks5UDPAssociate`. -/
inductive Call (α : Type*) where
  | dial (target : Link α)
  | associate (p : α)
  deriving DecidableEq

variable {α : Type*}

/-- `proxy.Next != nil && proxy.Next.Type != config.ProxyDIRECT`, with `Next`. -/
def Graph.relay (G : Graph α) (p : α) : Option α :=
  match G.next p with
  | .ref q => if (G.node q).type ≠ "DIRECT" then some q else none
  | _ => none

/-- The call that `Dial` of a proxy makes. `connects` says that it gets as far as making a new
connection: it has no SSH client, no idle HTTP connection and no Hysteria2 client to use, does not wait
for the lock of those and does not fail before. -/
def Graph.dialCalls (G : Graph α) (connects : Bool) (p : α) : List (Call α) :=
  if (G.node p).isP2P ∧ (G.node p).v2 then []
  else
    match newDialer (G.node p).type with
    | .socks5 | .trojan => if (G.node p).reverseAddress = "" then [.dial (G.next p)] else []
    | .vless => [.dial (G.next p)]
    | .ssh => if connects then [.dial (G.next p)] else []
    | .hTunnel =>
        if (G.node p).reverseAddress = "" ∧ connects ∧ (G.relay p).isSome then [.dial (G.next p)]
        else []
    | .hysteria2 =>
        match G.next p with
        | .ref q => if connects ∧ (G.node q).type = "SOCKS5" then [.associate q] else []
        | _ => []
    | .direct | .shadowsocks | .http | .stub => []

/-- The calls that a call makes, in their order. `env l p` says whether a dial of `p`, nested `l` deep,
makes a new connection. -/
def Graph.calls (G : Graph α) (env : ℕ → α → Bool) (l : ℕ) : Call α → List (Call α)
  | .dial (.ref p) => G.dialCalls (env l p) p
  | .dial _ => []
  | .associate p =>
      match G.relay p with
      | some q => [.associate q, .dial (G.next p)]
      | none => [.dial (G.next p)]

def maxDialDepth : ℕ := 10

variable (G : Graph α)

/-- `chainDial`: how deep it recurses, or `none` if `fuel` levels do not suffice. -/
def Graph.chainDial (env : ℕ → α → Bool) (fuel : ℕ) (p : α) (depth : ℕ) : Option ℕ :=
  if maxDialDepth < depth then some 0
  else Nesting.depth (G.calls env) fuel 0 (.dial (.ref p))

/-- `Socks5UDPAssociate`: how deep it recurses. -/
def Graph.socks5UDPAssociate (env : ℕ → α → Bool) (fuel : ℕ) (p : α) : Option ℕ :=
  Nesting.depth (G.calls env) fuel 0 (.associate p)

/-! ## Where a chain stops -/

/-- After `k` hops the chain is over: there is no proxy, or one of type `DIRECT`. -/
def Graph.Over (k : ℕ) (p : α) : Prop :=
  match hop G.next k p with
  | .ref q => (G.node q).type = "DIRECT"
  | _ => True

variable (env : ℕ → α → Bool)

/-- The proxy `k` hops on, dialled `l` deeper than that, makes no call. -/
def Graph.Quiet (l k : ℕ) (p : α) : Prop :=
  match hop G.next k p with
  | .ref q => G.dialCalls (env (l + k) q) q = []
  | _ => True

/-- The proxy `k` hops on associates with the one behind it. -/
def Graph.Associates (l k : ℕ) (p : α) : Prop :=
  match hop G.next k p with
  | .ref q => ∃ r, G.dialCalls (env (l + k) q) q = [.associate r]
  | _ => False

/-- A dial stops within `b` hops: where the chain is over or, unless an association was needed before, at
a proxy that makes no call. -/
def Graph.DialStops (l b : ℕ) (p : α) : Prop :=
  ∃ k ≤ b, G.Over k p ∨ G.Quiet env l k p ∧ ∀ j < k, ¬ G.Associates env l j p

/-- An association stops within `b` hops: only where the chain is over. -/
def Graph.AssociateStops (b : ℕ) (p : α) : Prop :=
  ∃ k ≤ b, 0 < k ∧ G.Over k p

variable {G : Graph α} {env : ℕ → α → Bool} {l b k : ℕ} {p q : α}

theorem Graph.over_succ (h : G.next p = .ref q) : G.Over (k + 1) p ↔ G.Over k q := by
  rw [Over, Over, hop, h]

theorem Graph.quiet_succ (h : G.next p = .ref q) : G.Quiet env l (k + 1) p ↔ G.Quiet env (l + 1) k q := by
  rw [Quiet, Quiet, hop, h, Nat.add_right_comm]
  rfl

theorem Graph.associates_succ (h : G.next p = .ref q) :
    G.Associates env l (k + 1) p ↔ G.Associates env (l + 1) k q := by
  rw [Associates, Associates, hop, h, Nat.add_right_comm]
  rfl

theorem Graph.over_one (h : G.relay p = none) : G.Over 1 p := by
  unfold relay at h
  unfold Over
  simp only [hop]
  split at h
  case h_1 q hq =>
      rw [hq]
      split at h
      · cases h
      · rename_i hdirect
        exact not_not.mp hdirect
  case h_2 hlink =>
      cases hq : G.next p with
      | ref q => exact absurd hq (hlink q)
      | nil => trivial
      | out => trivial

theorem Graph.relay_eq_some (h : G.relay p = some q) : G.next p = .ref q ∧ (G.node q).type ≠ "DIRECT" := by
  unfold relay at h
  split at h
  case h_1 r hr =>
      split at h <;> cases h
      case isTrue htype => exact ⟨hr, htype⟩
  case h_2 => cases h

/-- What `Dial` can do with `Next`. -/
theorem Graph.dialCalls_cases (G : Graph α) (connects : Bool) (p : α) :
    G.dialCalls connects p = [] ∨
      (G.node p).type ≠ "DIRECT" ∧ (G.dialCalls connects p = [.dial (G.next p)] ∨
        ∃ q, G.next p = .ref q ∧ (G.node q).type = "SOCKS5" ∧
          G.dialCalls connects p = [.associate q]) := by
  by_cases htype : (G.node p).type = "DIRECT"
  · refine .inl ?_
    have hkind : newDialer (G.node p).type = .direct := by rw [htype]; decide
    simp [dialCalls, hkind]
  · refine or_iff_not_imp_left.mpr fun hcalls => ⟨htype, ?_⟩
    unfold dialCalls at hcalls ⊢
    split at hcalls
    case isTrue => exact absurd rfl hcalls
    case isFalse hmesh =>
        rw [if_neg hmesh]
        generalize newDialer (G.node p).type = kind at hcalls ⊢
        cases kind with
        | vless => exact .inl rfl
        | direct | shadowsocks | http | stub => exact absurd rfl hcalls
        | socks5 | trojan | ssh | hTunnel =>
          dsimp only at hcalls ⊢
          split at hcalls
          case isTrue h => exact .inl (if_pos h)
          case isFalse => exact absurd rfl hcalls
        | hysteria2 =>
          dsimp only at hcalls ⊢
          split at hcalls
          case h_1 q hq =>
              split at hcalls
              case isTrue h => exact .inr ⟨q, hq, h.2, if_pos h⟩
              case isFalse => exact absurd rfl hcalls
          case h_2 => exact absurd rfl hcalls

/-! ## The depth of the recursion -/

/-- A proxy that makes a call is not where its chain stops. -/
theorem Graph.dialStops_iff_succ (hcalls : G.dialCalls (env l p) p ≠ []) (htype : (G.node p).type ≠ "DIRECT") :
    G.DialStops env l b p ↔ ∃ k < b, G.Over (k + 1) p ∨
      G.Quiet env l (k + 1) p ∧ ∀ j < k + 1, ¬ G.Associates env l j p := by
  constructor
  · rintro ⟨k, hk, h⟩
    cases k with
    | zero => exact absurd h (not_or.mpr ⟨htype, fun hquiet => hcalls hquiet.1⟩)
    | succ k => exact ⟨k, hk, h⟩
  · rintro ⟨k, hk, h⟩
    exact ⟨k + 1, hk, h⟩

theorem Graph.dialStops_of_dial (hcalls : G.dialCalls (env l p) p = [.dial (G.next p)])
    (htype : (G.node p).type ≠ "DIRECT") (hnext : G.next p = .ref q) :
    G.DialStops env l (b + 1) p ↔ G.DialStops env (l + 1) b q := by
  have hfirst : ¬ G.Associates env l 0 p := by
    rintro ⟨r, hr⟩
    rw [Nat.add_zero, hcalls] at hr
    cases hr
  rw [dialStops_iff_succ (by simp [hcalls]) htype, DialStops]
  simp only [over_succ hnext, quiet_succ hnext, Nat.lt_succ_iff]
  refine exists_congr fun k => and_congr_right fun _ => or_congr_right (and_congr_right fun _ => ?_)
  constructor
  · intro h j hj
    exact fun hassoc => h (j + 1) hj ((associates_succ hnext).mpr hassoc)
  · intro h j hj
    cases j with
    | zero => exact hfirst
    | succ j => exact fun hassoc => h j hj ((associates_succ hnext).mp hassoc)

theorem Graph.dialStops_of_associate (hcalls : G.dialCalls (env l p) p = [.associate q])
    (htype : (G.node p).type ≠ "DIRECT") (hnext : G.next p = .ref q) (hsocks : (G.node q).type = "SOCKS5") :
    G.DialStops env l (b + 1) p ↔ G.AssociateStops b q := by
  have hfirst : G.Associates env l 0 p := ⟨q, hcalls⟩
  have hstart : ¬ G.Over 0 q := fun h => by
    have hdirect : (G.node q).type = "DIRECT" := h
    rw [hsocks] at hdirect
    exact absurd hdirect (by decide)
  rw [dialStops_iff_succ (by simp [hcalls]) htype, AssociateStops]
  simp only [over_succ hnext, Nat.lt_succ_iff]
  refine exists_congr fun k => and_congr_right fun _ => ?_
  constructor
  · rintro (hover | ⟨_, hnone⟩)
    · refine ⟨Nat.pos_of_ne_zero ?_, hover⟩
      rintro rfl
      exact hstart hover
    · exact absurd hfirst (hnone 0 k.zero_le)
  · exact fun h => .inl h.2

theorem Graph.dialStops_of_over (hk : k ≤ b) (h : G.Over k p) : G.DialStops env l b p :=
  ⟨k, hk, .inl h⟩

theorem Graph.associateStops_of_relay (h : G.relay p = some q) :
    G.AssociateStops (b + 1) p ↔ G.AssociateStops b q := by
  obtain ⟨hnext, htype⟩ := relay_eq_some h
  constructor
  · rintro ⟨k, hk, hpos, hover⟩
    obtain ⟨k, rfl⟩ := Nat.exists_eq_add_one_of_ne_zero hpos.ne'
    rw [over_succ hnext] at hover
    refine ⟨k, by omega, Nat.pos_of_ne_zero ?_, hover⟩
    rintro rfl
    exact htype hover
  · rintro ⟨k, hk, _, hover⟩
    exact ⟨k + 1, by omega, k.succ_pos, (over_succ hnext).mpr hover⟩

/-- A call for no proxy, or for one of type `DIRECT`, makes no call. -/
theorem Graph.calls_dial_next (h : G.relay p = none) : G.calls env l (.dial (G.next p)) = [] := by
  have hover := over_one h
  unfold Over at hover
  simp only [hop] at hover
  cases hq : G.next p with
  | nil => rfl
  | out => rfl
  | ref q =>
    rw [hq] at hover
    rcases G.dialCalls_cases (env l q) q with hnone | ⟨htype, _⟩
    · exact hnone
    · exact absurd hover htype

/-- The levels below a dial, and below an association, are bounded by where the chain stops. -/
structure Graph.Bounds (G : Graph α) (env : ℕ → α → Bool) (b : ℕ) : Prop where
  dial : ∀ l p, Within (G.calls env) b l (.dial (.ref p)) ↔ G.DialStops env l b p
  associate : ∀ l p, Within (G.calls env) b l (.associate p) ↔ G.AssociateStops b p

theorem Graph.bounds_zero : G.Bounds env 0 := by
  constructor
  · intro l p
    refine ⟨fun h => ⟨0, le_rfl, .inr ⟨h, fun j hj => by omega⟩⟩, fun h => ?_⟩
    rcases G.dialCalls_cases (env l p) p with hnone | ⟨htype, hcalls⟩
    · exact hnone
    · by_contra hsome
      obtain ⟨k, hk, _⟩ := (dialStops_iff_succ hsome htype).mp h
      omega
  · intro l p
    constructor
    · intro h
      simp only [Within, calls] at h
      split at h <;> cases h
    · rintro ⟨k, hk, hpos, _⟩
      omega

theorem Graph.Bounds.dial_succ (h : G.Bounds env b) (l : ℕ) (p : α) :
    Within (G.calls env) (b + 1) l (.dial (.ref p)) ↔ G.DialStops env l (b + 1) p := by
  rcases G.dialCalls_cases (env l p) p with hcalls | ⟨htype, hcalls | ⟨q, hnext, hsocks, hcalls⟩⟩
  · exact iff_of_true (.of_no_calls hcalls) ⟨0, by omega, .inr ⟨hcalls, fun j hj => by omega⟩⟩
  · rw [within_succ_iff hcalls]
    cases hnext : G.next p with
    | ref q => exact (h.dial (l + 1) q).trans (dialStops_of_dial hcalls htype hnext).symm
    | nil | out =>
      refine iff_of_true (.of_no_calls rfl) (dialStops_of_over (k := 1) (by omega) ?_)
      simp [Over, hop, hnext]
  · rw [within_succ_iff hcalls, dialStops_of_associate hcalls htype hnext hsocks]
    exact h.associate (l + 1) q

theorem Graph.Bounds.associate_succ (h : G.Bounds env b) (l : ℕ) (p : α) :
    Within (G.calls env) (b + 1) l (.associate p) ↔ G.AssociateStops (b + 1) p := by
  cases hrelay : G.relay p with
  | none =>
    have hcalls : G.calls env l (.associate p) = [.dial (G.next p)] := by simp [calls, hrelay]
    refine iff_of_true ?_ ⟨1, by omega, Nat.one_pos, over_one hrelay⟩
    rw [within_succ_iff hcalls]
    exact .of_no_calls (calls_dial_next hrelay)
  | some q =>
    have hcalls : G.calls env l (.associate p) = [.associate q, .dial (G.next p)] := by
      simp [calls, hrelay]
    rw [Within, hcalls, List.forall_mem_cons, List.forall_mem_singleton,
      (relay_eq_some hrelay).1, associateStops_of_relay hrelay, h.associate, h.dial]
    -- the dial that follows the association stops no later
    refine and_iff_left_of_imp ?_
    rintro ⟨k, hk, _, hover⟩
    exact dialStops_of_over hk hover

/-- A dial can lead to an association, and an association dials, so both go together. -/
theorem Graph.bounds (b : ℕ) : G.Bounds env b := by
  induction b with
  | zero => exact bounds_zero
  | succ b ih => exact ⟨ih.dial_succ, ih.associate_succ⟩

theorem Graph.exists_chainDial_le_iff :
    (∃ fuel, ∃ n ≤ b, G.chainDial env fuel p 0 = some n) ↔ G.DialStops env 0 b p :=
  Nesting.exists_depth_le_iff.trans ((bounds b).dial 0 p)

theorem Graph.exists_socks5UDPAssociate_le_iff :
    (∃ fuel, ∃ n ≤ b, G.socks5UDPAssociate env fuel p = some n) ↔ G.AssociateStops b p :=
  Nesting.exists_depth_le_iff.trans ((bounds b).associate 0 p)

end Dialer
