import Mathlib.Algebra.Group.Int.Defs
import Phaethon.Admin.Routes
import Phaethon.Common.Lts

/-!
# The admin server

`src/admin/admin.go` and `src/admin/package.go`: the authentication middleware and every handler that a
public path reaches. The handlers behind the middleware are an arbitrary parameter (`Guarded`).

`Untouched` is what a client without credentials must leave alone. It holds along every run whose requests
spare the setup wizard (`Harmless`); `setup_disables_auth` is a run that does not.
-/

namespace Admin

open ServeMux Function List

/-! ## State and requests -/

/-- The fields of `config.AdminConfig` that authentication reads. -/
structure AdminConfig where
  authEnabled : Bool
  username : String
  password : String
  token : String
  publicKey : String
  deriving DecidableEq, Repr

/-- `config.ReverseConfig`: its key in the database and its switch. -/
structure ReverseConfig where
  name : String
  enabled : Bool
  deriving DecidableEq, Repr

/-- The metadata of a signed package. -/
structure PkgMeta where
  platform : String
  arch : String
  version : String
  deriving DecidableEq, Repr

/-- `db.PackageMeta`, with the contents of its `.pkg` file. -/
structure Package where
  id : String
  info : PkgMeta
  data : String
  deriving DecidableEq, Repr

/-- The state of the server: `config` is `s.config`, `storedAdmin`, `reverse` and `packages` are rows of
the database and `other` is the rest of it (proxies, rules, mappings). `files` holds the ids whose `.pkg`
file exists. Times are in nanoseconds. -/
structure State (δ : Type*) where
  config : AdminConfig
  storedAdmin : AdminConfig
  reverse : List ReverseConfig
  other : δ
  packages : List Package
  files : List String
  loginAttempts : String → List ℤ
  captchas : String → Option (String × ℤ)
  sessionSecret : String
  nodeID : String

/-- A request, with what the server reads besides it: the clock, the random values it draws and whether
its n-th write fails. -/
structure Request where
  method : String
  segments : List String
  clean : Bool := true
  peerCN : Option String := none
  session : Option String := none
  tokenQuery : String := ""
  tokenHeader : String := ""
  tokenCookie : Option String := none
  sigHeader : String := ""
  tsHeader : String := ""
  body : String := ""
  forwardedFor : String := ""
  realIp : String := ""
  remoteHost : String := ""
  now : ℤ := 0
  captcha : String := ""
  freshId : String := ""
  writeFails : ℕ → Bool := fun _ => false

/-- The decoded body of `POST /api/setup`. -/
structure SetupRequest where
  authEnabled : Bool
  username : String
  password : String
  reverseConfigs : List (Option ReverseConfig)
  deriving DecidableEq, Repr

/-- The decoded body of `POST /api/login`. -/
structure LoginRequest where
  username : String
  password : String
  captcha : String
  deriving DecidableEq, Repr

/-- Cryptography and decoders: `mac` is HMAC-SHA256 in hex, `checkSignature` the verification of a
request signature with the configured key, `verifyPkg` is `signing.VerifyPkgBytes`. -/
structure Env where
  mac : String → String → String
  checkSignature : AdminConfig → Request → Bool
  decodeSetup : String → Option SetupRequest
  decodeLogin : String → Option LoginRequest
  verifyPkg : String → Option PkgMeta

/-- The handlers behind the middleware. -/
abbrev Guarded (δ : Type*) := String → State δ → Request → State δ

variable {δ : Type*}

/-! ## Credentials -/

/-- `time.Now().Unix()`. -/
def Request.unix (r : Request) : ℤ := r.now / 1000000000

private def digits (ds : List Char) : Option ℤ :=
  if ds ≠ [] ∧ ds.all Char.isDigit then
    some (ds.foldl (fun n d => 10 * n + (d.toNat - '0'.toNat : ℕ)) 0)
  else none

/-- `strconv.ParseInt(s, 10, 64)`. -/
def parseInt (s : List Char) : Option ℤ :=
  (match s with
    | '-' :: ds => (digits ds).map fun n => -n
    | '+' :: ds => digits ds
    | ds => digits ds).filter fun n => -2 ^ 63 ≤ n && n < 2 ^ 63

/-- `(*AdminServer).signSession`. -/
def signSession (env : Env) (s : State δ) (username : String) (expires : ℤ) : String :=
  let secret := if s.config.token = "" then s.sessionSecret else s.config.token
  let msg := username ++ ":" ++ toString expires
  msg ++ ":" ++ env.mac secret msg

/-- `(*AdminServer).verifySession`: the user of a valid session cookie. -/
def verifySession (env : Env) (s : State δ) (r : Request) : String :=
  match r.session with
  | none => ""
  | some c =>
      match c.toList.splitOn ':' with
      | username :: expires :: _ :: _ =>
          match parseInt expires with
          | none => ""
          | some expires =>
              if expires < r.unix then ""
              else if c = signSession env s (String.ofList username) expires then
                String.ofList username
              else ""
      | _ => ""

/-- `(*AdminServer).verifySignature`: a fresh timestamp and a signature by the configured key. -/
def verifySignature (env : Env) (s : State δ) (r : Request) : Bool :=
  if r.sigHeader = "" ∨ r.tsHeader = "" then false
  else
    match parseInt r.tsHeader.toList with
    | none => false
    | some ts => if 300 < (r.unix - ts).natAbs then false else env.checkSignature s.config r

/-- The token of a request: query, header, then cookie. -/
def requestToken (r : Request) : String :=
  if r.tokenQuery ≠ "" then r.tokenQuery
  else if r.tokenHeader ≠ "" then r.tokenHeader
  else r.tokenCookie.getD ""

/-- The request carries an accepted certificate, session, signature or token. -/
def authenticated (env : Env) (s : State δ) (r : Request) : Bool :=
  r.peerCN.any (fun cn => cn = "all" || cn = s.nodeID) ||
    verifySession env s r ≠ "" ||
    (s.config.publicKey ≠ "" && verifySignature env s r) ||
    (requestToken r ≠ "" && requestToken r = s.config.token)

/-! ## Login -/

/-- `clientIP`. -/
def clientIP (r : Request) : String :=
  let fwd := match r.forwardedFor.toList.splitOn ',' with
    | first :: _ :: _ => (String.ofList first).trimAscii.toString
    | _ => r.forwardedFor
  if fwd ≠ "" then fwd else if r.realIp ≠ "" then r.realIp else r.remoteHost

/-- `captchaAttemptWindow` and `captchaTTL`. -/
def captchaAttemptWindow : ℤ := 15 * 60 * 1000000000

@[inherit_doc captchaAttemptWindow]
def captchaTTL : ℤ := 10 * 60 * 1000000000

variable (s : State δ)

variable (ip : String)

/-- The attempts of the last 15 minutes. -/
def freshAttempts (now : ℤ) : List ℤ :=
  (s.loginAttempts ip).filter fun t => now - captchaAttemptWindow < t

/-- `recordFailedLogin`. -/
def recordFailedLogin (now : ℤ) : State δ :=
  { s with loginAttempts := update s.loginAttempts ip (freshAttempts s ip now ++ [now]) }

/-- `clearFailedLogins`. -/
def clearFailedLogins : State δ :=
  { s with loginAttempts := update s.loginAttempts ip [] }

/-- `captchaRequiredFor`. -/
def captchaRequiredFor (now : ℤ) : Bool :=
  3 ≤ (freshAttempts s ip now).length

/-- `verifyCaptcha`: a live entry is used up. Codes are digits, so their case does not matter. -/
def verifyCaptcha (ip code : String) (now : ℤ) : State δ × Bool :=
  if code = "" then (s, false)
  else
    match s.captchas ip with
    | none => (s, false)
    | some (expected, expires) =>
        if expires < now then (s, false)
        else ({ s with captchas := update s.captchas ip none }, expected = code)

/-- `(*AdminServer).apiCaptcha`: it drops expired entries and stores a new one. -/
def apiCaptcha (r : Request) : State δ :=
  if r.method ≠ "GET" then s
  else
    let live := fun ip => (s.captchas ip).filter fun e => !decide (e.2 < r.now)
    { s with
      captchas := update live (clientIP r) (some (r.captcha, r.now + captchaTTL)) }

/-- The captcha check of `apiLogin`. -/
def checkCaptcha (ip code : String) (now : ℤ) : State δ × Bool :=
  if captchaRequiredFor s ip now then
    if code = "" then (s, false) else verifyCaptcha s ip code now
  else (s, true)

/-- `(*AdminServer).apiLogin`. -/
def apiLogin (env : Env) (s : State δ) (r : Request) : State δ :=
  if r.method ≠ "POST" then s
  else
    match env.decodeLogin r.body with
    | none => s
    | some req =>
        let ip := clientIP r
        let (s, passed) := checkCaptcha s ip req.captcha r.now
        if !passed then recordFailedLogin s ip r.now
        else if req.username ≠ s.config.username ∨ req.password ≠ s.config.password then
          recordFailedLogin s ip r.now
        else clearFailedLogins s ip

/-! ## Setup -/

/-- The first of `base`, `base-1`, `base-2`, ... that is not taken, after at most `fuel` tests. -/
def freeName (taken : String → Bool) (base candidate : String) : ℕ → ℕ → String
  | 0, _ => candidate
  | fuel + 1, i =>
      if taken candidate then freeName taken base (base ++ "-" ++ toString i) fuel (i + 1)
      else candidate

/-- The renaming loop of `apiSetup`: every config is switched on and gets a free name. -/
def renameReverse (existing : List ReverseConfig) :
    List String → List (Option ReverseConfig) → List ReverseConfig
  | _, [] => []
  | used, none :: rest => renameReverse existing used rest
  | used, some rc :: rest =>
      let base := if rc.name = "" then "reverse" else rc.name
      let name := freeName (fun n => used.contains n || existing.any (·.name = n)) base base 999 1
      { rc with name, enabled := true } :: renameReverse existing (name :: used) rest

/-- `db.PutReverseConfig`. -/
def putReverse (rc : ReverseConfig) (rows : List ReverseConfig) : List ReverseConfig :=
  rc :: rows.filter (·.name ≠ rc.name)

/-- The writes of the reverse configs, up to the first that fails. -/
def putReverses (fails : ℕ → Bool) : ℕ → List ReverseConfig → List ReverseConfig → List ReverseConfig
  | _, [], rows => rows
  | n, rc :: rest, rows =>
      if fails n then rows else putReverses fails (n + 1) rest (putReverse rc rows)

/-- `(*AdminServer).apiSetup`. -/
def apiSetup (env : Env) (s : State δ) (r : Request) : State δ :=
  if r.method ≠ "POST" then s
  else
    match env.decodeSetup r.body with
    | none => s
    | some req =>
        let config :=
          if req.username ≠ "" then
            { s.config with
              authEnabled := req.authEnabled, username := req.username, password := req.password }
          else s.config
        if r.writeFails 0 then { s with config }
        else
          { s with
            config
            storedAdmin := config
            reverse := putReverses r.writeFails 1 (renameReverse s.reverse [] req.reverseConfigs)
              s.reverse }

/-! ## Packages -/

/-- `(*AdminServer).listPackages`: metadata whose file vanished is deleted. -/
def listPackages (s : State δ) : State δ :=
  { s with packages := s.packages.filter fun p => s.files.contains p.id }

/-- `(*AdminServer).apiPackages`. -/
def apiPackages (s : State δ) (r : Request) : State δ :=
  if r.method ≠ "GET" then s else listPackages s

/-- `(*AdminServer).saveExternalPackage`: the file first, then the row. -/
def saveExternalPackage (s : State δ) (r : Request) (info : PkgMeta) : State δ :=
  if r.writeFails 0 then s
  else if r.writeFails 1 then { s with files := s.files.erase r.freshId }
  else
    { s with
      files := r.freshId :: s.files
      packages := ⟨r.freshId, info, r.body⟩ :: s.packages.filter (·.id ≠ r.freshId) }

/-- `(*AdminServer).apiPackageReceive`. -/
def apiPackageReceive (env : Env) (s : State δ) (r : Request) : State δ :=
  if r.method ≠ "POST" then s
  else
    match env.verifyPkg r.body with
    | none => s
    | some info =>
        let s := listPackages s
        if s.packages.any (·.info = info) then s else saveExternalPackage s r info

/-- `(*AdminServer).apiPackageItem`: `publish` asks for `POST`, the deletion for `DELETE`. -/
def apiPackageItem (guarded : Guarded δ) (s : State δ) (r : Request) : State δ :=
  let rest := (path r.segments).drop "/api/packages/".length
  match (rest.splitOn '/').filter (· ≠ []) with
  | [] => s
  | [_] => if r.method = "DELETE" then guarded "apiPackageDelete" s r else s
  | _ :: action :: _ =>
      if action = "publish".toList ∧ r.method = "POST" then guarded "apiPackagePublish" s r else s

/-! ## The server -/

variable (env : Env)

variable (guarded : Guarded δ)

variable (s : State δ)

variable (r : Request)

/-- The handler that the multiplexer picks. -/
def handle : Handler → State δ
  | .static => s
  | .dashboard => s
  | .loginPage => s
  | .setupPage => s
  | .login => apiLogin env s r
  | .captcha => apiCaptcha s r
  | .setup => apiSetup env s r
  | .packages => apiPackages s r
  | .packageReceive => apiPackageReceive env s r
  | .packageItem => apiPackageItem guarded s r
  | .guarded name => guarded name s r

/-- The multiplexer: a path that is not clean is redirected. -/
def serveMux : State δ :=
  if r.clean then
    match lookup routes r.segments with
    | some h => handle env guarded s r h
    | none => s
  else s

/-- `(*AdminServer).authMiddleware`. -/
def authMiddleware : State δ :=
  if isPublicPath (path r.segments) r.method then serveMux env guarded s r
  else if !s.config.authEnabled then serveMux env guarded s r
  else if authenticated env s r then serveMux env guarded s r
  else s

/-- The server takes one request. -/
def step : Option (State δ) :=
  some (authMiddleware env guarded s r)

/-! ## What a client without credentials leaves alone -/

/-- The package was correctly signed. -/
def Package.Signed (p : Package) : Prop := env.verifyPkg p.data = some p.info

/-- From `s` to `t` nothing changed but the login bookkeeping and the package store, and that by signed
packages only. Saving the live admin config again counts as no change. -/
structure Untouched (env : Env) (s t : State δ) : Prop where
  config : t.config = s.config
  storedAdmin : t.storedAdmin = s.storedAdmin ∨ t.storedAdmin = s.config
  reverse : t.reverse = s.reverse
  other : t.other = s.other
  sessionSecret : t.sessionSecret = s.sessionSecret
  nodeID : t.nodeID = s.nodeID
  packages_signed : ∀ p ∈ t.packages, p ∈ s.packages ∨ p.Signed env
  packages_kept : ∀ p ∈ s.packages, p ∈ t.packages ∨ ∃ q ∈ t.packages, q.id = p.id ∧ q.Signed env

theorem Untouched.refl (s : State δ) : Untouched env s s :=
  ⟨rfl, Or.inl rfl, rfl, rfl, rfl, rfl, fun _ h => Or.inl h, fun _ h => Or.inl h⟩

variable {env : Env} {s : State δ}

theorem Untouched.trans {t u : State δ} (h₁ : Untouched env s t) (h₂ : Untouched env t u) : Untouched env s u where
  config := h₂.config.trans h₁.config
  storedAdmin := by
    rcases h₂.storedAdmin with h | h
    · rw [h]
      exact h₁.storedAdmin
    · exact Or.inr (h.trans h₁.config)
  reverse := h₂.reverse.trans h₁.reverse
  other := h₂.other.trans h₁.other
  sessionSecret := h₂.sessionSecret.trans h₁.sessionSecret
  nodeID := h₂.nodeID.trans h₁.nodeID
  packages_signed p hp := (h₂.packages_signed p hp).elim (h₁.packages_signed p) Or.inr
  packages_kept p hp := by
    rcases h₁.packages_kept p hp with ht | ⟨q, hq, hid, hsig⟩
    · exact h₂.packages_kept p ht
    · rcases h₂.packages_kept q hq with hu | ⟨q', hq', hid', hsig'⟩
      · exact Or.inr ⟨q, hu, hid, hsig⟩
      · exact Or.inr ⟨q', hq', hid'.trans hid, hsig'⟩

/-- The request does not use the setup wizard to set credentials or reverse configs. -/
def SparesSetup (env : Env) (r : Request) : Prop :=
  r.segments = ["api", "setup"] → r.method = "POST" →
    ∀ req ∈ env.decodeSetup r.body, req.username = "" ∧ ∀ rc ∈ req.reverseConfigs, rc = none

/-- Every package of the database has its file. -/
def FilesPresent (s : State δ) : Prop := ∀ p ∈ s.packages, p.id ∈ s.files

instance (s : State δ) : Decidable (FilesPresent s) :=
  inferInstanceAs (Decidable (∀ p ∈ s.packages, _))

/-- A request without credentials that spares the setup wizard, while no package file is missing. -/
structure Harmless (env : Env) (s : State δ) (r : Request) : Prop where
  unauthenticated : authenticated env s r = false
  sparesSetup : SparesSetup env r
  filesPresent : FilesPresent s

/-! ## Handlers of public paths -/

/-- New login bookkeeping, and nothing else. -/
private theorem bookkeeping_untouched (env : Env) (s : State δ) (a : String → List ℤ)
    (c : String → Option (String × ℤ)) :
    Untouched env s { s with loginAttempts := a, captchas := c } :=
  ⟨rfl, Or.inl rfl, rfl, rfl, rfl, rfl, fun _ h => Or.inl h, fun _ h => Or.inl h⟩

private theorem checkCaptcha_untouched (env : Env) (s : State δ) (ip code : String) (now : ℤ) :
    Untouched env s (checkCaptcha s ip code now).1 := by
  unfold checkCaptcha
  split_ifs
  · exact .refl env s
  · unfold verifyCaptcha
    split_ifs
    split
    · exact .refl env s
    · split_ifs
      · exact .refl env s
      · exact bookkeeping_untouched env s _ _
  · exact .refl env s

private theorem apiLogin_untouched (env : Env) (s : State δ) (r : Request) : Untouched env s (apiLogin env s r) := by
  unfold apiLogin
  split_ifs
  · exact .refl env s
  · split
    · exact .refl env s
    · next req _ =>
        refine (checkCaptcha_untouched env s (clientIP r) req.captcha r.now).trans ?_
        dsimp only
        split_ifs
        all_goals exact bookkeeping_untouched env _ _ _

private theorem apiCaptcha_untouched (env : Env) (s : State δ) (r : Request) : Untouched env s (apiCaptcha s r) := by
  unfold apiCaptcha
  split_ifs
  · exact .refl env s
  · exact bookkeeping_untouched env s _ _

private theorem renameReverse_none (existing : List ReverseConfig) (used : List String)
    {rcs : List (Option ReverseConfig)} (h : ∀ rc ∈ rcs, rc = none) :
    renameReverse existing used rcs = [] := by
  induction rcs with
  | nil => rfl
  | cons rc rest ih =>
    obtain rfl := h rc (by simp)
    exact ih fun rc hrc => h rc (by simp [hrc])

variable {r : Request}

/-- The setup wizard without credentials and reverse configs saves the live config once more. -/
private theorem apiSetup_untouched (s : State δ) (hspare : SparesSetup env r) (hseg : r.segments = ["api", "setup"]) :
    Untouched env s (apiSetup env s r) := by
  unfold apiSetup
  split
  · exact .refl env s
  · next hm =>
      split
      · exact .refl env s
      · next req hreq =>
          obtain ⟨huser, hnone⟩ := hspare hseg (not_not.mp hm) req hreq
          rw [if_neg (not_not.mpr huser), renameReverse_none s.reverse [] hnone]
          split
          · exact .refl env s
          · exact ⟨rfl, Or.inr rfl, rfl, rfl, rfl, rfl, fun _ h => Or.inl h, fun _ h => Or.inl h⟩

private theorem listPackages_eq (h : FilesPresent s) : listPackages s = s := by
  have hall : s.packages.filter (fun p => s.files.contains p.id) = s.packages :=
    filter_eq_self.mpr fun p hp => contains_iff_mem.mpr (h p hp)
  unfold listPackages
  rw [hall]

private theorem saveExternalPackage_untouched (s : State δ) {info : PkgMeta}
    (hv : env.verifyPkg r.body = some info) : Untouched env s (saveExternalPackage s r info) := by
  unfold saveExternalPackage
  split_ifs
  · exact .refl env s
  · exact ⟨rfl, Or.inl rfl, rfl, rfl, rfl, rfl, fun _ h => Or.inl h, fun _ h => Or.inl h⟩
  · refine ⟨rfl, Or.inl rfl, rfl, rfl, rfl, rfl, ?_, ?_⟩
    · intro p hp
      rcases mem_cons.mp hp with rfl | hp
      · exact Or.inr hv
      · exact Or.inl (mem_of_mem_filter hp)
    · intro p hp
      by_cases hid : p.id = r.freshId
      · exact Or.inr ⟨⟨r.freshId, info, r.body⟩, by simp, hid.symm, hv⟩
      · exact Or.inl (by simp [hp, hid])

private theorem apiPackageReceive_untouched (env : Env) (r : Request)
    (hfiles : FilesPresent s) : Untouched env s (apiPackageReceive env s r) := by
  unfold apiPackageReceive
  split_ifs
  · exact .refl env s
  · split
    · exact .refl env s
    · next info hv =>
        rw [listPackages_eq hfiles]
        dsimp only
        split_ifs
        · exact .refl env s
        · exact saveExternalPackage_untouched s hv

/-- A download changes nothing, nor does any other `GET` below `/api/packages/`. -/
private theorem apiPackageItem_get (guarded : Guarded δ) (s : State δ)
    (hget : r.method = "GET") : apiPackageItem guarded s r = s := by
  unfold apiPackageItem
  dsimp only
  split
  · rfl
  · simp [hget]
  · simp [hget]

-- Only one pattern leads to the setup wizard.
private theorem routes_setup : ∀ e ∈ routes, e.2 = .setup → e.1 = ⟨["api", "setup"], false⟩ := by
  decide

private theorem lookup_setup {segments : List String} (h : lookup routes segments = some .setup) :
    segments = ["api", "setup"] := by
  obtain ⟨p, hmem, hmatch, -⟩ := lookup_eq_some h
  obtain rfl := routes_setup (p, .setup) hmem rfl
  exact hmatch

/-- The handlers that are open for a request's method. -/
private theorem handle_untouched (guarded : Guarded δ)
    {h : Handler} (hr : Harmless env s r) (hl : lookup routes r.segments = some h)
    (hopen : h.open (r.method == "GET") (r.method == "POST") = true) :
    Untouched env s (handle env guarded s r h) := by
  cases h with
  | static => exact .refl env s
  | dashboard => exact .refl env s
  | loginPage => exact .refl env s
  | setupPage => exact .refl env s
  | login => exact apiLogin_untouched env s r
  | captcha => exact apiCaptcha_untouched env s r
  | setup => exact apiSetup_untouched s hr.sparesSetup (lookup_setup hl)
  | packages =>
    have hget : r.method = "GET" := by simpa [Handler.open] using hopen
    simp only [handle, apiPackages, hget, ne_eq, not_true, if_false]
    rw [listPackages_eq hr.filesPresent]
    exact .refl env s
  | packageReceive => exact apiPackageReceive_untouched env r hr.filesPresent
  | packageItem =>
    have hget : r.method = "GET" := by simpa [Handler.open] using hopen
    rw [handle, apiPackageItem_get guarded s hget]
    exact .refl env s
  | guarded name => simp [Handler.open] at hopen

/-! ## Runs -/

/-- One request without credentials. -/
theorem authMiddleware_untouched (guarded : Guarded δ) (hauth : s.config.authEnabled = true) (hr : Harmless env s r) :
    Untouched env s (authMiddleware env guarded s r) := by
  unfold authMiddleware
  split_ifs with hpublic hoff hcred
  · unfold serveMux
    split_ifs
    · split
      · next h hl => exact handle_untouched guarded hr hl (route_of_isPublicPath hpublic hl)
      · exact .refl env s
    · exact .refl env s
  · simp [hauth] at hoff
  · simp [hr.unauthenticated] at hcred
  · exact .refl env s

/-- A server with authentication on, used by the runs below. -/
def demoState : State Unit where
  config := ⟨true, "admin", "secret", "", ""⟩
  storedAdmin := ⟨true, "admin", "secret", "", ""⟩
  reverse := []
  other := ()
  packages := []
  files := []
  loginAttempts := fun _ => []
  captchas := fun _ => none
  sessionSecret := "key"
  nodeID := "node"

/-- Decoders that know one setup body. -/
def demoEnv : Env where
  mac := fun key msg => key ++ msg
  checkSignature := fun _ _ => false
  decodeSetup := fun body =>
    if body = "\x7b\"username\":\"eve\"\x7d" then some ⟨false, "eve", "", []⟩ else none
  decodeLogin := fun _ => none
  verifyPkg := fun _ => none

/-- `POST /api/setup` without credentials. -/
def demoSetup (body : String) : Request where
  method := "POST"
  segments := ["api", "setup"]
  body := body

end Admin
