import Mathlib.Data.UInt

/-!
# DNS queries and replies

`src/mesh/dns.go`: the domain of a query, and the replies that are built from a query. A query whose domain can be
read can be replied to, and the reply carries the transaction id of the query.
-/

namespace Dns

open List

/-- The loop of `parseDNSQueryDomain` over the labels of a name, with `n` bytes of a label still to read: the domain
and what follows the name. Labels after the first one are preceded by a dot. -/
def readName (n : ℕ) (first : Bool) : List UInt8 → Option (List UInt8 × List UInt8)
  | [] => none
  | b :: rest =>
      match n with
      | 0 =>
          if b = 0 then some ([], rest)
          else if 63 < b ∨ rest.length < b.toNat then none
          else (readName b.toNat false rest).map fun r => (if first then r.1 else 0x2e :: r.1, r.2)
      | n + 1 => (readName n first rest).map fun r => (b :: r.1, r.2)

/-- `parseDNSQueryDomain`: the domain and the query type. -/
def parseDNSQueryDomain (pkt : List UInt8) : Option (List UInt8 × ℕ) :=
  if pkt.length < 12 then none
  else if 0x80 ≤ pkt.getD 2 0 then none
  else if pkt.getD 4 0 = 0 ∧ pkt.getD 5 0 = 0 then none
  else
    match readName 0 true (pkt.drop 12) with
    | none => none
    | some (domain, rest) =>
        if rest.length < 4 then none else some (domain, (rest.getD 0 0).toNat * 256 + (rest.getD 1 0).toNat)

/-- The loop of `buildDNSResponse` that copies the name, with `n` bytes of a label still to copy. A label that is too
long for the query is a panic in Go; `processQuery` has refused such a query. -/
def copyName (n : ℕ) : List UInt8 → Option (List UInt8 × List UInt8)
  | [] => none
  | b :: rest =>
      match n with
      | 0 =>
          if b = 0 then some ([b], rest)
          else if rest.length < b.toNat then none
          else (copyName b.toNat rest).map fun r => (b :: r.1, r.2)
      | n + 1 => (copyName n rest).map fun r => (b :: r.1, r.2)

/-- `buildDNSResponse`; none for nil. -/
def buildDNSResponse (query ip : List UInt8) : Option (List UInt8) :=
  if query.length < 12 then none
  else
    match copyName 0 (query.drop 12) with
    | none => none
    | some (name, rest) =>
        if rest.length < 4 then none
        else
          some (query.take 2 ++ [0x81, 0x80] ++ (query.drop 4).take 2 ++ [0, 1, 0, 0, 0, 0] ++ name ++ rest.take 4 ++
            [0xc0, 0x0c, 0, 1, 0, 1, 0, 0, 0, 5, 0, 4] ++ ip)

/-- The loop of `buildDNSErrorResponse`: a query may end within its name. -/
def copyQuestion (n : ℕ) : List UInt8 → Option (List UInt8 × List UInt8)
  | [] => some ([], [])
  | b :: rest =>
      match n with
      | 0 =>
          if b = 0 then some ([0], rest)
          else if rest.length < b.toNat then none
          else (copyQuestion b.toNat rest).map fun r => (b :: r.1, r.2)
      | n + 1 => (copyQuestion n rest).map fun r => (b :: r.1, r.2)

/-- `buildDNSErrorResponse`; none for nil. -/
def buildDNSErrorResponse (query : List UInt8) : Option (List UInt8) :=
  if query.length < 12 then none
  else
    match copyQuestion 0 (query.drop 12) with
    | none => none
    | some (name, rest) =>
        some (query.take 2 ++ [0x80, 0x02] ++ [0, 1, 0, 0, 0, 0, 0, 0] ++ name ++
          if 4 ≤ rest.length then rest.take 4 else [])

/-- The reply to a query: with an address, or `SERVFAIL`. -/
def buildReply (query : List UInt8) : Option (List UInt8) → Option (List UInt8)
  | some ip => buildDNSResponse query ip
  | none => buildDNSErrorResponse query

/-- A name that can be read can be copied. -/
theorem copyName_of_readName {l d rest : List UInt8} {n : ℕ} {first : Bool}
    (h : readName n first l = some (d, rest)) :
    ∃ name, copyName n l = some (name, rest) ∧ copyQuestion n l = some (name, rest) := by
  induction l generalizing n first d with
  | nil => cases h
  | cons b l ih =>
    cases n with
    | zero =>
      simp only [readName] at h
      split at h
      case isTrue hzero =>
        cases h
        exact ⟨[0], by simp [copyName, hzero], by simp [copyQuestion, hzero]⟩
      case isFalse hzero =>
        split at h
        case isTrue => cases h
        case isFalse hlabel =>
          have hlong : ¬ l.length < b.toNat := fun hlt => hlabel (.inr hlt)
          obtain ⟨⟨d', rest'⟩, hr, heq⟩ := Option.map_eq_some_iff.mp h
          obtain ⟨-, rfl⟩ := Prod.mk.inj heq
          obtain ⟨name, hname, hquestion⟩ := ih hr
          refine ⟨b :: name, ?_, ?_⟩
          · simp [copyName, hzero, hlong, hname]
          · simp [copyQuestion, hzero, hlong, hquestion]
    | succ n =>
      obtain ⟨⟨d', rest'⟩, hr, heq⟩ := Option.map_eq_some_iff.mp h
      obtain ⟨-, rfl⟩ := Prod.mk.inj heq
      obtain ⟨name, hname, hquestion⟩ := ih hr
      exact ⟨b :: name, by simp [copyName, hname], by simp [copyQuestion, hquestion]⟩

/-- A query that can be parsed gets a reply, with its transaction id. -/
theorem buildReply_of_parse {query : List UInt8} (h : (parseDNSQueryDomain query).isSome) (ip : Option (List UInt8)) :
    ∃ reply, buildReply query ip = some reply ∧ reply.take 2 = query.take 2 := by
  unfold parseDNSQueryDomain at h
  split_ifs at h with hlong hflags hcount
  · simp at h
  · simp at h
  · simp at h
  have htake (l : List UInt8) : (query.take 2 ++ l).take 2 = query.take 2 :=
    take_left' (by rw [length_take]; omega)
  split at h
  case h_1 => simp at h
  case h_2 domain rest hname =>
    split at h
    case isTrue => simp at h
    case isFalse hrest =>
      obtain ⟨name, hcopy, hquestion⟩ := copyName_of_readName hname
      cases ip with
      | some ip =>
        refine ⟨_, by rw [buildReply, buildDNSResponse, if_neg hlong, hcopy]; exact if_neg hrest, ?_⟩
        simp only [append_assoc]
        exact htake _
      | none =>
        refine ⟨_, by rw [buildReply, buildDNSErrorResponse, if_neg hlong, hquestion], ?_⟩
        simp only [append_assoc]
        exact htake _

end Dns
