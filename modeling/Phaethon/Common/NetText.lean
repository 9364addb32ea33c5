import Phaethon.Common.IpNet

/-!
# The text of a network

`(*IPNet).String`: the address as `(IP).String` writes it, and the length of the mask. The text of a network is read
back as the network (`parseCIDR_text`), so that it stands for no other.
-/

namespace NetIp

open List Option

open Ipv4 (Addr)

/-- `strconv.Itoa`. -/
def decimal (n : ℕ) : List Char := Nat.toDigits 10 n

/-- An IPv4 address, as `(IP).String` writes it. -/
def dotted (a : Addr) : List Char :=
  ['.'].intercalate ((octets a).map fun b => decimal b.toNat)

/-- `appendHex`: hexadecimal digits without leading zeros. -/
def hexText (g : BitVec 16) : List Char :=
  let n := g.toNat
  (if 0x1000 ≤ n then [Nat.digitChar (n / 4096)] else []) ++
    (if 0x100 ≤ n then [Nat.digitChar (n / 256 % 16)] else []) ++
    (if 0x10 ≤ n then [Nat.digitChar (n / 16 % 16)] else []) ++ [Nat.digitChar (n % 16)]

/-- The eight groups of an IPv6 address. -/
def groups (a : BitVec 128) : List (BitVec 16) :=
  (List.range 8).map fun i => a.extractLsb' (112 - 16 * i) 16

variable (gs : List (BitVec 16))

/-- Groups between colons. -/
def colons : List Char :=
  [':'].intercalate (gs.map hexText)

/-- Where the first of the longest runs of zeros begins, and how long it is. A single zero is not a run. -/
def zeroRun : ℕ × ℕ :=
  (List.range 8).foldl (fun best i =>
    let run := ((gs.drop i).takeWhile (· = 0)).length
    if 2 ≤ run ∧ best.2 < run then (i, run) else best) (255, 0)

/-- An IPv6 address, as `(IP).String` writes it. -/
def coloned : List Char :=
  let run := zeroRun gs
  if run.2 = 0 then colons gs
  else colons (gs.take run.1) ++ ':' :: ':' :: colons (gs.drop (run.1 + run.2))

/-- `(*IPNet).String`. -/
def IPNet.text (n : IPNet) : String :=
  String.ofList <|
    match n with
    | .v4 a len => dotted a ++ '/' :: decimal len
    | .v6 a len =>
        if a.extractLsb' 32 96 = 0xffff then dotted (a.extractLsb' 0 32) ++ '/' :: decimal (len - 96)
        else coloned (groups a) ++ '/' :: decimal len

example : (IPNet.v4 0x0a010000 16).text = "10.1.0.0/16" := by decide +kernel
example : (IPNet.v6 0x20010db8000000000000000000000001 128).text = "2001:db8::1/128" := by decide +kernel

/-! ## Numbers -/

theorem digits_decimal : ∀ n < 256, Text.digits (decimal n) = some n := by decide +kernel

theorem parseOctet_decimal (b : BitVec 8) : parseOctet (decimal b.toNat) = some b := by
  have h : ∀ n < 256, parseOctet (decimal n) = some (BitVec.ofNat 8 n) := by decide +kernel
  rw [h b.toNat b.isLt, BitVec.ofNat_toNat, BitVec.setWidth_eq]

theorem decimal_chars : ∀ n < 256, '.' ∉ decimal n ∧ '/' ∉ decimal n := by decide +kernel

theorem hexDigit_digitChar : ∀ n < 16, hexDigit (Nat.digitChar n) = some n ∧
    Nat.digitChar n ≠ ':' ∧ Nat.digitChar n ≠ '/' := by decide +kernel

/-- A group has one to four digits. -/
theorem hexText_cases (g : BitVec 16) :
    ∃ d ds, hexText g = (d :: ds).map Nat.digitChar ∧ (∀ e ∈ d :: ds, e < 16) ∧ ds.length ≤ 3 ∧
      (d :: ds).foldl (fun n e => 16 * n + e) 0 = g.toNat := by
  have hlt := g.isLt
  unfold hexText
  generalize g.toNat = n at *
  by_cases h3 : 0x1000 ≤ n
  · refine ⟨n / 4096, [n / 256 % 16, n / 16 % 16, n % 16], ?_, ?_, by simp, ?_⟩
    · simp [h3, show 0x100 ≤ n by omega, show 0x10 ≤ n by omega]
    · simp only [mem_cons, not_mem_nil, or_false]
      omega
    · simp only [foldl_cons, foldl_nil]
      omega
  · by_cases h2 : 0x100 ≤ n
    · refine ⟨n / 256 % 16, [n / 16 % 16, n % 16], ?_, ?_, by simp, ?_⟩
      · simp [h3, h2, show 0x10 ≤ n by omega]
      · simp only [mem_cons, not_mem_nil, or_false]
        omega
      · simp only [foldl_cons, foldl_nil]
        omega
    · by_cases h1 : 0x10 ≤ n
      · refine ⟨n / 16 % 16, [n % 16], ?_, ?_, by simp, ?_⟩
        · simp [h3, h2, h1]
        · simp only [mem_cons, not_mem_nil, or_false]
          omega
        · simp only [foldl_cons, foldl_nil]
          omega
      · refine ⟨n % 16, [], ?_, ?_, by simp, ?_⟩
        · simp [h3, h2, h1]
        · simp only [mem_cons, not_mem_nil, or_false]
          omega
        · simp only [foldl_cons, foldl_nil]
          omega

theorem mapM_hexDigit {ds : List ℕ} (h : ∀ d ∈ ds, d < 16) : (ds.map Nat.digitChar).mapM hexDigit = some ds := by
  induction ds with
  | nil => rfl
  | cons d ds ih =>
    rw [map_cons, mapM_cons, (hexDigit_digitChar d (h d mem_cons_self)).1,
      ih fun e he => h e (mem_cons_of_mem d he)]
    rfl

variable (g : BitVec 16)

theorem parseGroup_hexText : parseGroup (hexText g) = some g := by
  obtain ⟨d, ds, htext, hdigits, hlength, hvalue⟩ := hexText_cases g
  have hsize : ¬ ((d :: ds).map Nat.digitChar = [] ∨ 4 < ((d :: ds).map Nat.digitChar).length) := by
    rw [length_map, length_cons]
    simp only [map_cons, cons_ne_nil, false_or]
    omega
  rw [htext, parseGroup, if_neg hsize, mapM_hexDigit hdigits, map_some, hvalue, BitVec.ofNat_toNat,
    BitVec.setWidth_eq]

theorem hexText_ne_nil : hexText g ≠ [] := by
  obtain ⟨d, ds, htext, _⟩ := hexText_cases g
  rw [htext]
  exact cons_ne_nil _ _

theorem hexText_chars {c : Char} (hc : c ∈ hexText g) : c ≠ ':' ∧ c ≠ '/' := by
  obtain ⟨d, ds, htext, hdigits, _⟩ := hexText_cases g
  rw [htext] at hc
  obtain ⟨e, he, rfl⟩ := mem_map.mp hc
  exact (hexDigit_digitChar e (hdigits e he)).2

/-! ## IPv4 -/

theorem octets_append (a : Addr) :
    a.extractLsb' 24 8 ++ a.extractLsb' 16 8 ++ a.extractLsb' 8 8 ++ a.extractLsb' 0 8 = a := by
  apply BitVec.eq_of_getLsbD_eq
  intro i hi
  simp only [BitVec.getLsbD_append, BitVec.getLsbD_extractLsb']
  split
  · simp [*]
  · split
    · simp only [*, decide_true, Bool.true_and]
      congr 1
      omega
    · split
      · simp only [*, decide_true, Bool.true_and]
        congr 1
        omega
      · rw [decide_eq_true (by omega), Bool.true_and]
        congr 1
        omega

theorem parseIpv4_dotted (a : Addr) : parseIpv4 (dotted a) = some a := by
  have hsplit : (dotted a).splitOn '.' = (octets a).map fun b => decimal b.toNat := by
    refine splitOn_intercalate '.' (fun l hl => ?_) (cons_ne_nil _ _)
    obtain ⟨b, _, rfl⟩ := mem_map.mp hl
    exact (decimal_chars b.toNat b.isLt).1
  simp only [parseIpv4, hsplit, octets, map_cons, map_nil, parseOctet_decimal, bind_eq_bind,
    bind_some, octets_append]

theorem colon_notMem_of_parseOctet {t : List Char} {b : BitVec 8} (h : parseOctet t = some b) : ':' ∉ t := by
  unfold parseOctet at h
  split at h
  · obtain ⟨n, hn, _⟩ := bind_eq_some_iff.mp h
    unfold Text.digits at hn
    split at hn
    case isTrue hdigits =>
        intro hcolon
        have hdigit := all_eq_true.mp hdigits.2 ':' hcolon
        cases hdigit
    case isFalse => cases hn
  · cases h

/-- The text of an IPv4 address has no colon. -/
theorem colon_notMem_of_parseIpv4 {t : List Char} {a : Addr} (h : parseIpv4 t = some a) : ':' ∉ t := by
  unfold parseIpv4 at h
  split at h
  case h_1 w x y z hsplit =>
      simp only [bind_eq_bind, bind_eq_some_iff] at h
      obtain ⟨_, hw, _, hx, _, hy, _, hz, _⟩ := h
      rw [show t = ['.'].intercalate [w, x, y, z] by rw [← hsplit, intercalate_splitOn]]
      simp [intercalate, colon_notMem_of_parseOctet hw, colon_notMem_of_parseOctet hx,
        colon_notMem_of_parseOctet hy, colon_notMem_of_parseOctet hz]
  case h_2 => cases h

/-! ## IPv6 -/

/-- The first groups are the first bits. -/
theorem foldl_groups_range (a : BitVec 128) {k : ℕ} (hk : k ≤ 8) :
    ((List.range k).map fun i => a.extractLsb' (112 - 16 * i) 16).foldl
      (fun (x : BitVec 128) g => (x <<< 16) ||| g.setWidth 128) 0 = a >>> (128 - 16 * k) := by
  induction k with
  | zero => exact (BitVec.ushiftRight_eq_zero le_rfl).symm
  | succ k ih =>
    rw [range_succ, map_append, foldl_append, ih (by omega)]
    apply BitVec.eq_of_getLsbD_eq
    intro i hi
    simp only [map_cons, map_nil, foldl_cons, foldl_nil, BitVec.getLsbD_or,
      BitVec.getLsbD_shiftLeft, BitVec.getLsbD_ushiftRight, BitVec.getLsbD_setWidth,
      BitVec.getLsbD_extractLsb', hi, decide_true, Bool.true_and]
    by_cases hlow : i < 16
    · simp only [hlow, decide_true, Bool.not_true, Bool.false_and, Bool.false_or, Bool.true_and]
      congr 1
      omega
    · simp only [hlow, decide_false, Bool.not_false, Bool.true_and, Bool.false_and, Bool.or_false]
      congr 1
      omega

theorem foldl_groups (a : BitVec 128) :
    (groups a).foldl (fun (x : BitVec 128) g => (x <<< 16) ||| g.setWidth 128) 0 = a := by
  rw [groups, foldl_groups_range a le_rfl]
  exact BitVec.ushiftRight_zero a

theorem colons_cons_cons (g g' : BitVec 16) (gs : List (BitVec 16)) :
    colons (g :: g' :: gs) = hexText g ++ ':' :: colons (g' :: gs) := by
  simp [colons, intercalate]

theorem colons_singleton (g : BitVec 16) : colons [g] = hexText g := by
  simp [colons, intercalate]

/-- Groups begin with a digit. -/
theorem colons_cons (g : BitVec 16) (gs : List (BitVec 16)) : ∃ c t, colons (g :: gs) = c :: t ∧ c ≠ ':' := by
  obtain ⟨c, t, hct⟩ := exists_cons_of_ne_nil (hexText_ne_nil g)
  have hc : c ≠ ':' := (hexText_chars g (hct ▸ mem_cons_self)).1
  cases gs with
  | nil => exact ⟨c, t, (colons_singleton g).trans hct, hc⟩
  | cons g' gs => exact ⟨c, _, by rw [colons_cons_cons, hct, List.cons_append], hc⟩

theorem fields_colons (gs : List (BitVec 16)) : fields (colons gs) = gs.map hexText := by
  cases gs with
  | nil => rfl
  | cons g gs =>
    have hne : colons (g :: gs) ≠ [] := by
      obtain ⟨c, t, hct, _⟩ := colons_cons g gs
      rw [hct]
      exact cons_ne_nil c t
    rw [fields, if_neg hne, colons]
    refine splitOn_intercalate ':' (fun l hl hmem => ?_) (by simp)
    obtain ⟨b, _, rfl⟩ := mem_map.mp hl
    exact (hexText_chars b hmem).1 rfl

theorem parseGroups_hexText (tail : Bool) (gs : List (BitVec 16)) : parseGroups tail (gs.map hexText) = some gs := by
  induction gs with
  | nil => rfl
  | cons g gs ih =>
    cases gs with
    | nil => simp [parseGroups, parseGroup_hexText]
    | cons g' gs =>
      rw [map_cons, parseGroups, parseGroup_hexText, ih]
      · rfl
      · simp

theorem cutEllipsis_cons_ne {c : Char} (hc : c ≠ ':') (t : List Char) :
    cutEllipsis (c :: t) = (cutEllipsis t).map fun r => (c :: r.1, r.2) := by
  rw [cutEllipsis]
  intro rest heq _
  exact hc heq

theorem cutEllipsis_colon_cons {c : Char} (hc : c ≠ ':') (t : List Char) :
    cutEllipsis (':' :: c :: t) = (cutEllipsis (c :: t)).map fun r => (':' :: r.1, r.2) := by
  rw [cutEllipsis]
  intro rest _ heq
  exact hc (List.cons.inj heq).1

theorem cutEllipsis_append {u : List Char} (hu : ':' ∉ u) (t : List Char) :
    cutEllipsis (u ++ t) = (cutEllipsis t).map fun r => (u ++ r.1, r.2) := by
  induction u with
  | nil => simp
  | cons c u ih =>
    obtain ⟨hc, hu⟩ := not_or.mp fun h => hu (mem_cons.mpr h)
    rw [List.cons_append, cutEllipsis_cons_ne (Ne.symm hc), ih hu, Option.map_map]
    rfl

variable (gs : List (BitVec 16))

/-- The first `::` lies behind any groups. -/
theorem cutEllipsis_colons (t : List Char) :
    cutEllipsis (colons gs ++ t) = (cutEllipsis t).map fun r => (colons gs ++ r.1, r.2) := by
  have hcolon (g : BitVec 16) : ':' ∉ hexText g := fun hmem => (hexText_chars g hmem).1 rfl
  induction gs with
  | nil => simp [colons, intercalate]
  | cons g gs ih =>
    cases gs with
    | nil => rw [colons_singleton, cutEllipsis_append (hcolon g)]
    | cons g' gs =>
      obtain ⟨c, u, hcu, hc⟩ := colons_cons g' gs
      rw [colons_cons_cons, append_assoc, cutEllipsis_append (hcolon g), List.cons_append]
      rw [hcu, List.cons_append] at ih ⊢
      rw [cutEllipsis_colon_cons hc, ih, Option.map_map, Option.map_map]
      simp [Function.comp_def]

theorem eq_replicate_append_drop :
    gs = List.replicate (gs.takeWhile (· = 0)).length 0 ++ gs.drop (gs.takeWhile (· = 0)).length := by
  have hzeros : gs.takeWhile (· = 0) = List.replicate (gs.takeWhile (· = 0)).length 0 :=
    eq_replicate_of_mem fun g hg => by simpa using mem_takeWhile_imp hg
  have hdrop : gs.drop (gs.takeWhile (· = 0)).length = gs.dropWhile (· = 0) := by
    nth_rewrite 2 [← takeWhile_append_dropWhile (p := (· = 0)) (l := gs)]
    exact drop_left
  rw [hdrop, ← hzeros, takeWhile_append_dropWhile]

/-- What `zeroRun` returns is a run of zeros, or nothing. -/
theorem zeroRun_spec :
    (zeroRun gs).2 = 0 ∨ gs = gs.take (zeroRun gs).1 ++ List.replicate (zeroRun gs).2 0 ++
      gs.drop ((zeroRun gs).1 + (zeroRun gs).2) := by
  unfold zeroRun
  generalize hbest : ((255, 0) : ℕ × ℕ) = best
  have hinit : best.2 = 0 ∨ gs = gs.take best.1 ++ List.replicate best.2 0 ++ gs.drop (best.1 + best.2) :=
    .inl (congrArg Prod.snd hbest).symm
  clear hbest
  induction List.range 8 generalizing best with
  | nil => exact hinit
  | cons i is ih =>
    apply ih
    dsimp only
    split
    · right
      rw [← drop_drop, append_assoc, ← eq_replicate_append_drop, take_append_drop]
    · exact hinit

theorem parseIpv6Groups_coloned {gs : List (BitVec 16)} (h : gs.length = 8) :
    parseIpv6Groups (coloned gs) = some gs := by
  unfold coloned
  dsimp only
  split
  case isTrue hrun =>
      have hcut : cutEllipsis (colons gs) = none := by
        have := cutEllipsis_colons gs []
        rwa [append_nil] at this
      rw [parseIpv6Groups, hcut]
      simp only [fields_colons, parseGroups_hexText, filter_some, h, decide_true, if_true]
  case isFalse hrun =>
      have hsplit := (zeroRun_spec gs).resolve_left hrun
      generalize zeroRun gs = run at *
      have hcut := cutEllipsis_colons (gs.take run.1) (':' :: ':' :: colons (gs.drop (run.1 + run.2)))
      rw [cutEllipsis, map_some, append_nil] at hcut
      have hlength := congrArg List.length hsplit
      simp only [length_append, length_replicate] at hlength
      have hfill : 8 - (gs.take run.1).length - (gs.drop (run.1 + run.2)).length = run.2 := by omega
      rw [parseIpv6Groups, hcut]
      simp only [fields_colons, parseGroups_hexText, bind_eq_bind, bind_some]
      rw [if_pos (by omega), hfill, ← hsplit]

/-! ## Networks -/

theorem cut_append {u : List Char} (hu : '/' ∉ u) (t : List Char) : Text.cut '/' (u ++ '/' :: t) = some (u, t) :=
  Text.cut_eq_some_iff.mpr ⟨rfl, hu⟩

theorem slash_notMem_dotted (a : Addr) : '/' ∉ dotted a := by
  have hslash (b : BitVec 8) : '/' ∉ decimal b.toNat := (decimal_chars b.toNat b.isLt).2
  simp [dotted, octets, intercalate, hslash, -BitVec.extractLsb'_toNat]

theorem slash_notMem_colons (gs : List (BitVec 16)) : '/' ∉ colons gs := by
  have hslash (g : BitVec 16) : '/' ∉ hexText g := fun hmem => (hexText_chars g hmem).2 rfl
  induction gs with
  | nil => simp [colons, intercalate]
  | cons g gs ih =>
    cases gs with
    | nil => exact colons_singleton g ▸ hslash g
    | cons g' gs =>
      rw [colons_cons_cons]
      simp [hslash g, ih]

theorem slash_notMem_coloned (gs : List (BitVec 16)) : '/' ∉ coloned gs := by
  unfold coloned
  dsimp only
  split
  · exact slash_notMem_colons gs
  · simp [slash_notMem_colons]

theorem colon_mem_coloned {gs : List (BitVec 16)} (h : 2 ≤ gs.length) : ':' ∈ coloned gs := by
  unfold coloned
  dsimp only
  split
  · match gs with
    | [] => cases h
    | [_] => simp at h
    | g :: g' :: gs =>
      rw [colons_cons_cons]
      simp
  · simp

/-- The text of a network is read back as the network, if that is not a mapped one. -/
theorem parseCIDR_text {n : IPNet} (hformed : n.Formed) (hmapped : ¬ n.Mapped) : parseCIDR n.text = some n := by
  cases n with
  | v4 a len =>
    obtain ⟨hlen, hmask⟩ := hformed
    rw [parseCIDR, IPNet.text, String.toList_ofList, cut_append (slash_notMem_dotted a)]
    simp only [bind_eq_bind, bind_some, parseAddr, parseIpv4_dotted,
      digits_decimal len (by omega), if_pos hlen]
    rw [← Ipv4.network, hmask]
  | v6 a len =>
    obtain ⟨hlen, hmask⟩ := hformed
    have hlength : (groups a).length = 8 := by simp [groups]
    have hv4 : parseIpv4 (coloned (groups a)) = none := by
      cases hparse : parseIpv4 (coloned (groups a)) with
      | none => rfl
      | some b => exact absurd (colon_mem_coloned (by omega)) (colon_notMem_of_parseIpv4 hparse)
    rw [parseCIDR, IPNet.text, String.toList_ofList]
    simp only [show ¬ a.extractLsb' 32 96 = 0xffff from hmapped, if_false]
    rw [cut_append (slash_notMem_coloned _)]
    simp only [bind_eq_bind, bind_some, parseAddr, hv4, parseIpv6Groups_coloned hlength,
      map_some, foldl_groups, digits_decimal len (by omega), if_pos hlen, hmask]

end NetIp
