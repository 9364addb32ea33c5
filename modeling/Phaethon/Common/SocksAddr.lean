import Mathlib.Tactic.Ring
import Phaethon.Common.NetIp

/-!
# Addresses on the wire

The address format of SOCKS5, which other proxy protocols share: a type byte, an IPv4 address, a domain
with its length or an IPv6 address, and the port. Numbers are sent most significant byte first.
-/

namespace SocksAddr

open List

/-- The last `n` bytes of a number, most significant byte first. -/
def toBytes : ℕ → ℕ → List UInt8
  | 0, _ => []
  | n + 1, v => toBytes n (v / 256) ++ [v.toUInt8]

/-- The number of some bytes. -/
def ofBytes (bs : List UInt8) : ℕ :=
  bs.foldl (fun v b => v * 256 + b.toNat) 0

@[simp]
theorem length_toBytes (n v : ℕ) : (toBytes n v).length = n := by
  induction n generalizing v with
  | zero => rfl
  | succ n ih => simp [toBytes, ih]

theorem ofBytes_concat (bs : List UInt8) (b : UInt8) : ofBytes (bs ++ [b]) = ofBytes bs * 256 + b.toNat := by
  rw [ofBytes, foldl_append]
  rfl

theorem ofBytes_toBytes (n v : ℕ) : ofBytes (toBytes n v) = v % 256 ^ n := by
  induction n generalizing v with
  | zero => rw [pow_zero, Nat.mod_one]; rfl
  | succ n ih =>
    have hbyte : v.toUInt8.toNat = v % 256 := by simp
    rw [toBytes, ofBytes_concat, ih, hbyte, pow_succ, Nat.mul_comm (256 ^ n) 256,
      Nat.mod_mul]
    ring

theorem ofNat_ofBytes_toBytes {n w : ℕ} (hw : 256 ^ n = 2 ^ w) (a : BitVec w) :
    BitVec.ofNat w (ofBytes (toBytes n a.toNat)) = a := by
  rw [ofBytes_toBytes, hw, Nat.mod_eq_of_lt a.isLt, BitVec.ofNat_toNat, BitVec.setWidth_eq]

/-- The host of a target. -/
inductive Host where
  | ip (a : NetIp.Ip)
  | domain (s : List UInt8)
  deriving DecidableEq

/-- A host and a port. -/
structure Target where
  host : Host
  port : ℕ
  deriving DecidableEq

/-- The wire format; longer domains and ports lose their upper bytes. -/
def encode (t : Target) : List UInt8 :=
  match t.host with
  | .ip (.v4 a) => 0x01 :: (toBytes 4 a.toNat ++ toBytes 2 t.port)
  | .ip (.v6 a) => 0x04 :: (toBytes 16 a.toNat ++ toBytes 2 t.port)
  | .domain s => 0x03 :: s.length.toUInt8 :: (s ++ toBytes 2 t.port)

/-- The target at the start of some bytes, read as the receiver does. -/
def decode (bs : List UInt8) : Option Target :=
  match bs with
  | 0x01 :: rest =>
      if rest.length < 6 then none
      else some ⟨.ip (.v4 (BitVec.ofNat 32 (ofBytes (rest.take 4)))), ofBytes ((rest.drop 4).take 2)⟩
  | 0x04 :: rest =>
      if rest.length < 18 then none
      else some ⟨.ip (.v6 (BitVec.ofNat 128 (ofBytes (rest.take 16)))),
        ofBytes ((rest.drop 16).take 2)⟩
  | 0x03 :: len :: rest =>
      if rest.length < len.toNat + 2 then none
      else some ⟨.domain (rest.take len.toNat), ofBytes ((rest.drop len.toNat).take 2)⟩
  | _ => none

/-- The fields behind the type byte: the address, the port and the rest. -/
theorem fields_append {n : ℕ} {address : List UInt8} (hn : address.length = n) (port : ℕ) (payload : List UInt8) :
    ¬ (address ++ toBytes 2 port ++ payload).length < n + 2 ∧
      (address ++ toBytes 2 port ++ payload).take n = address ∧
      ofBytes (((address ++ toBytes 2 port ++ payload).drop n).take 2) = port % 65536 := by
  subst hn
  have hport : ofBytes (toBytes 2 port) = port % 65536 := ofBytes_toBytes 2 port
  refine ⟨?_, ?_, ?_⟩
  · rw [length_append, length_append, length_toBytes]
    omega
  · rw [append_assoc, take_left']
    rfl
  · rw [append_assoc, drop_left' rfl, take_left' (length_toBytes 2 port), hport]

/-- What is sent is what is read, but for the upper bytes of the port. -/
theorem decode_encode (t : Target) (payload : List UInt8) (hlen : ∀ s, t.host = .domain s → s.length < 256) :
    decode (encode t ++ payload) = some { t with port := t.port % 65536 } := by
  obtain ⟨host, port⟩ := t
  cases host with
  | ip a =>
    cases a with
    | v4 a =>
      obtain ⟨hlong, haddr, hport⟩ := fields_append (length_toBytes 4 a.toNat) port payload
      rw [encode, cons_append, decode, if_neg hlong, haddr, hport,
        ofNat_ofBytes_toBytes (by rfl) a]
    | v6 a =>
      obtain ⟨hlong, haddr, hport⟩ := fields_append (length_toBytes 16 a.toNat) port payload
      rw [encode, cons_append, decode, if_neg hlong, haddr, hport,
        ofNat_ofBytes_toBytes (by rfl) a]
  | domain s =>
    have hs : s.length.toUInt8.toNat = s.length := Nat.mod_eq_of_lt (hlen s rfl)
    obtain ⟨hlong, haddr, hport⟩ := fields_append hs.symm port payload
    rw [encode, cons_append, cons_append, decode, if_neg hlong, haddr, hport]

end SocksAddr
