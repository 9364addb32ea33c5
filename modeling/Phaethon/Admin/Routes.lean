import Phaethon.Common.ServeMux

/-!
# Routes of the admin server

`src/admin/admin.go`: the handlers that `registerRoutes` registers, and `isPublicPath`, which the
authentication middleware asks about the decoded path. The multiplexer works on the segments of the
escaped path, so the two could disagree; `route_of_isPublicPath` says which handlers a public path can
reach.
-/

namespace Admin

open ServeMux List

/-- The handlers of the admin server. Those that no public path reaches are known by name only. -/
inductive Handler where
  | static
  | dashboard
  | loginPage
  | setupPage
  | login
  | captcha
  | setup
  | packages
  | packageReceive
  | packageItem
  | guarded (name : String)
  deriving DecidableEq, Repr

variable (segments : List String)

private def exact (h : Handler) : Pattern × Handler := (⟨segments, false⟩, h)

private def subtree (h : Handler) : Pattern × Handler := (⟨segments, true⟩, h)

/-- `(*AdminServer).registerRoutes`. -/
def routes : List (Pattern × Handler) :=
  [ subtree ["static"] .static,
    subtree [] .dashboard,
    exact ["tun"] (.guarded "handleTUNPage"),
    exact ["mesh"] (.guarded "handleMeshPage"),
    exact ["proxies"] (.guarded "handleProxiesPage"),
    exact ["subscriptions"] (.guarded "handleSubscriptionsPage"),
    exact ["rules"] (.guarded "handleRulesPage"),
    exact ["mappings"] (.guarded "handleMappingsPage"),
    exact ["resolvers"] (.guarded "handleResolversPage"),
    exact ["reverse"] (.guarded "handleReverseWizardPage"),
    exact ["logs"] (.guarded "handleLogsPage"),
    exact ["connections"] (.guarded "handleConnectionsPage"),
    exact ["admin"] (.guarded "handleAdminPage"),
    exact ["package"] (.guarded "handlePackagePage"),
    exact ["login"] .loginPage,
    exact ["setup"] .setupPage,
    subtree ["debug", "pprof"] (.guarded "Index"),
    exact ["debug", "pprof", "cmdline"] (.guarded "Cmdline"),
    exact ["debug", "pprof", "profile"] (.guarded "Profile"),
    exact ["debug", "pprof", "symbol"] (.guarded "Symbol"),
    exact ["debug", "pprof", "trace"] (.guarded "Trace"),
    exact ["debug", "dump"] (.guarded "handleStallDump"),
    exact ["debug", "stall-probe"] (.guarded "handleStallProbe"),
    exact ["api", "stats"] (.guarded "apiStats"),
    exact ["api", "config", "mesh"] (.guarded "apiConfigMesh"),
    exact ["api", "config", "admin"] (.guarded "apiConfigAdmin"),
    exact ["api", "config", "target"] (.guarded "apiTarget"),
    exact ["api", "proxies"] (.guarded "apiProxies"),
    subtree ["api", "proxies", "health-check"] (.guarded "apiProxyHealthCheck"),
    subtree ["api", "proxies"] (.guarded "apiProxies"),
    exact ["api", "rules"] (.guarded "apiRules"),
    exact ["api", "rules", "test"] (.guarded "apiTestRule"),
    subtree ["api", "rules"] (.guarded "apiRules"),
    exact ["api", "mappings"] (.guarded "apiMappings"),
    subtree ["api", "mappings"] (.guarded "apiMappings"),
    exact ["api", "resolvers"] (.guarded "apiResolvers"),
    subtree ["api", "resolvers"] (.guarded "apiResolvers"),
    exact ["api", "subscriptions"] (.guarded "apiSubscriptions"),
    subtree ["api", "subscriptions"] (.guarded "apiSubscriptionActions"),
    exact ["api", "groups"] (.guarded "apiGroups"),
    subtree ["api", "groups"] (.guarded "apiGroupActions"),
    exact ["api", "health"] (.guarded "apiHealth"),
    exact ["api", "connections"] (.guarded "apiConnections"),
    exact ["api", "activeconns"] (.guarded "apiActiveConns"),
    exact ["api", "reverse"] (.guarded "apiReverse"),
    exact ["api", "reverse", "bindings"] (.guarded "apiReverseBindings"),
    subtree ["api", "reverse", "bindings"] (.guarded "apiReverseBindings"),
    subtree ["api", "reverse"] (.guarded "apiReverseItem"),
    exact ["api", "p2p"] (.guarded "apiP2P"),
    exact ["api", "packages"] .packages,
    exact ["api", "packages", "upload"] (.guarded "apiPackageUpload"),
    exact ["api", "packages", "receive"] .packageReceive,
    subtree ["api", "packages"] .packageItem,
    exact ["api", "mesh"] (.guarded "apiMesh"),
    exact ["api", "mesh", "config"] (.guarded "apiMesh"),
    exact ["api", "mesh", "gossip"] (.guarded "apiMesh"),
    exact ["api", "mesh", "topology"] (.guarded "apiMesh"),
    exact ["api", "mesh", "domain-suffixes"] (.guarded "apiMeshDomainSuffixes"),
    subtree ["api", "mesh", "domain-suffixes"] (.guarded "apiMeshDomainSuffixItem"),
    exact ["api", "mesh", "advertise"] (.guarded "apiMeshAdvertise"),
    subtree ["api", "mesh", "advertise"] (.guarded "apiMeshAdvertiseItem"),
    exact ["api", "tun"] (.guarded "apiTUN"),
    exact ["api", "events"] (.guarded "apiEvents"),
    exact ["api", "versions"] (.guarded "apiVersions"),
    exact ["api", "login"] .login,
    exact ["api", "captcha"] .captcha,
    exact ["api", "logout"] (.guarded "apiLogout"),
    exact ["api", "me"] (.guarded "apiMe"),
    exact ["api", "admin", "auth"] (.guarded "apiAdminAuth"),
    exact ["api", "setup"] .setup,
    exact ["api", "restart"] (.guarded "apiRestart"),
    exact ["api", "log", "modules"] (.guarded "apiLogModules"),
    exact ["api", "ssh"] (.guarded "apiSSH"),
    exact ["api", "ssh", "config"] (.guarded "apiSSHConfig"),
    exact ["api", "ssh", "keys"] (.guarded "apiSSHKeys"),
    subtree ["api", "ssh", "keys"] (.guarded "apiSSHKeyItem"),
    subtree ["api", "db"] (.guarded "apiDatabase") ]

/-- The paths that are public for every method. -/
def publicConstants : List (List Char) :=
  ["/login".toList, "/api/login".toList, "/api/captcha".toList, "/setup".toList, "/api/setup".toList]

/-- `isPublicPath`, with the two methods it asks for as flags. -/
def publicPath (get post : Bool) (path : List Char) : Bool :=
  publicConstants.contains path || "/static/".toList.isPrefixOf path ||
    (get && (path == "/api/packages".toList ||
      ("/api/packages/".toList.isPrefixOf path && "/download".toList.isSuffixOf path))) ||
    (post && path == "/api/packages/receive".toList)

/-- `isPublicPath`. -/
def isPublicPath (path : List Char) (method : String) : Bool :=
  publicPath (method == "GET") (method == "POST") path

/-- The handlers that run without authentication, for each method. -/
def Handler.open (get post : Bool) : Handler → Bool
  | .packages => get
  | .packageItem => get
  | .packageReceive => post
  | .guarded _ => false
  | _ => true

/-- The one public path of a received package. -/
private def receivePath : List Char := "/api/packages/receive".toList

/-- Some public path other than `receivePath` may begin with `text`. -/
private def reaches (get : Bool) (text : List Char) : Bool :=
  publicConstants.any text.isPrefixOf ||
    (text.isPrefixOf "/static/".toList || "/static/".toList.isPrefixOf text) ||
    (get && (text.isPrefixOf "/api/packages".toList ||
      (text.isPrefixOf "/api/packages/".toList || "/api/packages/".toList.isPrefixOf text)))

private theorem comparable_of_prefix {a b c : List Char} (ha : a <+: c)
    (hb : b.isPrefixOf c = true) : (a.isPrefixOf b || b.isPrefixOf a) = true := by
  simp only [Bool.or_eq_true, isPrefixOf_iff_prefix] at hb ⊢
  exact prefix_or_prefix_of_prefix ha hb

private theorem reaches_of_publicPath {get post : Bool} {text path : List Char}
    (hp : publicPath get post path = true) (ht : text <+: path) :
    reaches get text = true ∨ (post = true ∧ path = receivePath) := by
  simp only [publicPath, Bool.or_eq_true, Bool.and_eq_true] at hp
  simp only [reaches, Bool.or_eq_true, Bool.and_eq_true]
  rcases hp with ((hp | hp) | ⟨hg, hp | ⟨hp, -⟩⟩) | ⟨hpost, hp⟩
  · refine Or.inl (Or.inl (Or.inl (any_eq_true.mpr ⟨path, ?_, ?_⟩)))
    · exact contains_iff_mem.mp hp
    · exact isPrefixOf_iff_prefix.mpr ht
  · exact Or.inl (Or.inl (Or.inr (by simpa using comparable_of_prefix ht hp)))
  · refine Or.inl (Or.inr ⟨hg, Or.inl ?_⟩)
    exact isPrefixOf_iff_prefix.mpr (eq_of_beq hp ▸ ht)
  · exact Or.inl (Or.inr ⟨hg, Or.inr (by simpa using comparable_of_prefix ht hp)⟩)
  · exact Or.inr ⟨hpost, eq_of_beq hp⟩

-- The whole table at once: a pattern belongs to an open handler, or is away from every public path.
private theorem routes_reach : ∀ get post : Bool, ∀ e ∈ routes,
    (if e.1.subtree then reaches get e.1.text else publicPath get post e.1.text) = true →
      e.2.open get post = true := by
  decide +kernel

private theorem routes_receive :
    ∀ e ∈ routes, e.1.subtree = true → e.1.text.isPrefixOf receivePath = true →
      e.2 = .dashboard ∨ e.1 = ⟨["api", "packages"], true⟩ := by
  decide +kernel

/-- A public path only reaches handlers that are open for its method, whatever slashes its segments
hide. -/
theorem route_of_isPublicPath {segments : List String} {method : String} {h : Handler}
    (hp : isPublicPath (path segments) method = true) (hl : lookup routes segments = some h) :
    h.open (method == "GET") (method == "POST") = true := by
  obtain ⟨p, hmem, hmatch, hlongest⟩ := lookup_eq_some hl
  obtain ⟨hpre, hexact⟩ := hmatch.text
  by_cases hsub : p.subtree = true
  · rcases reaches_of_publicPath hp hpre with hr | ⟨-, hreceive⟩
    · exact routes_reach _ _ (p, h) hmem (by simpa [hsub] using hr)
    · rw [hreceive] at hpre
      rcases routes_receive (p, h) hmem hsub (List.isPrefixOf_iff_prefix.mpr hpre) with hh | hpk
      · subst hh
        rfl
      · -- the exact pattern of the same path is longer
        subst hpk
        have hseg := hmatch.segments_eq (s := "receive") (by decide) (hreceive.trans (by decide))
        have hlen := hlongest (⟨["api", "packages", "receive"], false⟩, .packageReceive)
          (by decide) hseg
        simp at hlen
  · refine routes_reach _ _ (p, h) hmem ?_
    rw [if_neg hsub, ← hexact (by simpa using hsub)]
    exact hp

end Admin
