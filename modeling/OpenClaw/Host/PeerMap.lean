import OpenClaw.Routing.Identity

/-!
# The peer map of a host

`_sync_tenant_routes` of `host-agent.py` writes an nginx location for every tenant of another host into
`conf.d/tenant-peers`; `launch-vm.sh` and `migrate-vm.sh` write those of the host's own tenants into `conf.d/tenants`.

- `syncTenantRoutes`: the sync as a program of table reads, file operations and nginx commands.
- `PeerConf`: the locations the peer map has to hold.
- `sync_applied`: a sync that was applied leaves exactly these, loaded by nginx.
-/

namespace OpenClaw

open Keyed Atomic

/-! ## Locations -/

/-- Where a location proxies to. -/
inductive Upstream
  /-- `proxy_pass http://<ip>:8081`: without a URI, so the request goes on as it came. -/
  | peer (ip : String)
  /-- `proxy_pass http://<ip>:18789$1`. -/
  | guest (ip : String)
deriving DecidableEq

/-- `location ~ ^/vm/<tid>(/.*)?$`. -/
structure TenantBlock where
  tid : TenantId
  upstream : Upstream
deriving DecidableEq

def Upstream.proxyPass : Upstream → String
  | .peer ip => "http://" ++ ip ++ ":8081"
  | .guest ip => "http://" ++ ip ++ ":18789$1"

/-- The directives of every block after `proxy_pass`. -/
def proxyDirectives : List String :=
  ["proxy_http_version 1.1", "proxy_set_header Upgrade $http_upgrade",
    "proxy_set_header Connection $connection_upgrade", "proxy_set_header Host $host",
    "proxy_set_header X-Real-IP $remote_addr", "proxy_set_header X-Forwarded-For $proxy_add_x_forwarded_for",
    "proxy_set_header X-Forwarded-Proto $scheme", "proxy_read_timeout 86400s", "proxy_send_timeout 86400s"]

/-- The text of the file. -/
def TenantBlock.text (b : TenantBlock) : String :=
  "location ~ ^/vm/" ++ b.tid ++ "(/.*)?$ \x7b\n" ++
    String.join ((("proxy_pass " ++ b.upstream.proxyPass) :: proxyDirectives).map fun d => "    " ++ d ++ ";\n") ++ "\x7d\n"

/-- `_render_peer_conf`. -/
def renderPeerConf (tid : TenantId) (ownerIp : String) : TenantBlock := ⟨tid, .peer ownerIp⟩

/-- The block of `launch-vm.sh`, and of a live restore. -/
def localBlock (tid : TenantId) (guestIp : String) : TenantBlock := ⟨tid, .guest guestIp⟩

/-! ## Directories -/

structure ConfFile where
  name : String
  block : TenantBlock
deriving DecidableEq

abbrev ConfDir := Table String ConfFile ConfFile.name

/-- `<tid>.conf`. -/
def confName (tid : TenantId) : String := tid ++ ".conf"

/-- `f.endswith(".conf")`. -/
def isConf (name : String) : Bool := ".conf".toList.isSuffixOf name.toList

/-- `f[:-len(".conf")]`. -/
def confStem (name : String) : String := String.ofList (name.toList.take (name.toList.length - ".conf".toList.length))

/-- A directory into which only the scripts write; other files may lie there. -/
structure LocalDir where
  dir : ConfDir
  written : ∀ f ∈ dir.rows, isConf f.name = true → ∃ tid ip, '/' ∉ tid.toList ∧ f = ⟨confName tid, localBlock tid ip⟩

theorem written_empty : ∀ f ∈ (Table.empty : ConfDir).rows, isConf f.name = true →
    ∃ tid ip, '/' ∉ tid.toList ∧ f = ⟨confName tid, localBlock tid ip⟩ := fun _ hf => absurd hf List.not_mem_nil

theorem written_single {tid : TenantId} {ip : String} (h : '/' ∉ tid.toList) :
    ∀ f ∈ (Table.single ⟨confName tid, localBlock tid ip⟩ : ConfDir).rows, isConf f.name = true →
      ∃ tid ip, '/' ∉ tid.toList ∧ f = ⟨confName tid, localBlock tid ip⟩ :=
  fun _ hf _ => ⟨tid, ip, h, List.mem_singleton.1 hf⟩

/-- The directory of a new host. -/
def LocalDir.empty : LocalDir := ⟨.empty, written_empty⟩

/-- The directory of a host with one tenant. -/
def LocalDir.single (tid : TenantId) (ip : String) (h : '/' ∉ tid.toList) : LocalDir :=
  ⟨.single ⟨confName tid, localBlock tid ip⟩, written_single h⟩

/-- The blocks of `include <dir>/*.conf`, in the order of the names. -/
def ConfDir.include (d : ConfDir) : List TenantBlock :=
  ((d.rows.filter fun f => isConf f.name).mergeSort fun a b => strLe a.name.toList b.name.toList).map ConfFile.block

theorem mem_include {d : ConfDir} {b : TenantBlock} :
    b ∈ d.include ↔ ∃ f ∈ d.rows, isConf f.name = true ∧ f.block = b := by
  simp [ConfDir.include, List.mem_mergeSort, and_assoc]

/-- What nginx has loaded. -/
structure NginxConf where
  locals : List TenantBlock := []
  peers : List TenantBlock := []

/-! ## Calls -/

structure RouteHost where
  tenants : TenantsTable
  hosts : HostsTable
  /-- `conf.d/tenants`. -/
  locals : LocalDir
  /-- `conf.d/tenant-peers`. -/
  peers : ConfDir
  nginx : NginxConf := {}
  /-- `/run/openclaw/ready`. -/
  ready : Bool := false

def RouteHost.setPeers (w : RouteHost) (d : ConfDir) : RouteHost := { w with peers := d }

def RouteHost.reload (w : RouteHost) : RouteHost := { w with nginx := ⟨w.locals.dir.include, w.peers.include⟩ }

def RouteHost.setReady (w : RouteHost) : RouteHost := { w with ready := true }

inductive RouteOp
  | monotonic
  | scanTenants
  | scanHosts
  /-- `os.listdir` of the local directory. -/
  | listLocal
  | makePeerDir
  | listPeers
  | removePeer (name : String)
  | writePeer (f : ConfFile)
  /-- `nginx -t`. -/
  | nginxTest
  /-- `nginx -s reload`. -/
  | nginxReload
  | time
  | markReady

/-- `none` is an exception; a `Bool` says whether the operation succeeded, or the return code is 0. -/
abbrev RouteOp.Ans : RouteOp → Type
  | .monotonic => Time
  | .scanTenants => Option (List TenantRow)
  | .scanHosts => Option (List HostRow)
  | .listLocal => Option (List String)
  | .makePeerDir => Bool
  | .listPeers => Option (List String)
  | .removePeer _ => Bool
  | .writePeer _ => Bool
  | .nginxTest => Option Bool
  | .nginxReload => Option Bool
  | .time => Time
  | .markReady => Unit

def RouteHost.step : (c : RouteOp) → c.Ans → RouteHost → RouteHost → Prop
  | .monotonic, _, w, w' => w' = w
  | .scanTenants, r, w, w' => (∀ ts, r = some ts → ts.Perm w.tenants.rows) ∧ w' = w
  | .scanHosts, r, w, w' => (∀ hs, r = some hs → hs.Perm w.hosts.rows) ∧ w' = w
  | .listLocal, r, w, w' => (∀ ns, r = some ns → ns.Perm (w.locals.dir.rows.map ConfFile.name)) ∧ w' = w
  | .makePeerDir, _, w, w' => w' = w
  | .listPeers, r, w, w' => (∀ ns, r = some ns → ns.Perm (w.peers.rows.map ConfFile.name)) ∧ w' = w
  | .removePeer name, r, w, w' => if r then w' = w.setPeers (w.peers.erase name) else w' = w
  | .writePeer f, r, w, w' =>
    -- A write that raised may have left anything in the file.
    if r then w' = w.setPeers (w.peers.put f) else w' = w ∨ ∃ b, w' = w.setPeers (w.peers.put ⟨f.name, b⟩)
  | .nginxTest, _, w, w' => w' = w
  | .nginxReload, r, w, w' => if r = some true then w' = w.reload else w' = w ∨ w' = w.reload
  | .time, _, w, w' => w' = w
  | .markReady, _, w, w' => w' = w.setReady ∨ w' = w

abbrev Routes : Sig := ⟨RouteOp, RouteOp.Ans⟩

abbrev RouteProg := Prog Routes

def routeSem : Sem Routes RouteHost := ⟨RouteHost.step⟩

/-- Make a call. -/
abbrev rt (c : RouteOp) : RouteProg c.Ans := @Prog.lift Routes c

@[simp] theorem rt_bind {β : Type} (c : RouteOp) (f : c.Ans → RouteProg β) :
    @Bind.bind RouteProg _ (no_index c.Ans) β (rt c) f = @Prog.call Routes β c f := rfl

/-! ## The sync -/

/-- The environment of the agent. -/
structure SyncEnv where
  tenantsTable : Bool := true
  hostsTable : Bool := true
  instanceId : HostId
  /-- `OC_ROUTE_SYNC_INTERVAL`. -/
  routeSyncInterval : Time := 60000000
  /-- `hashlib.sha256(…).hexdigest()`. -/
  sha256 : String → String

/-- The globals of the peer map. -/
structure PeerState where
  lastRouteSync : Time := 0
  lastPeerHash : Option String := none
  reloadFailures : Nat := 0
  lastSuccess : Time := 0
  entries : Nat := 0

inductive SyncEnd
  | skipped
  /-- The same digest as of the last generation that was applied. -/
  | unchanged
  | rejected
  | notReloaded
  | raised
  | applied
deriving DecidableEq

/-- `ip_by_host.get(owner)`. -/
def ipByHost (hosts : List HostRow) (owner : Option HostId) : Option String := do
  let o ← owner
  let h ← hosts.find? fun h => h.instanceId = o && h.privateIp.any (· ≠ "")
  h.privateIp

/-- `desired`. -/
def desiredPeers (self : HostId) (localTids : List TenantId) (hosts : List HostRow) : List TenantRow → List TenantBlock
  | [] => []
  | t :: ts =>
    if t.id = "" ∨ TenantFilter.routable.holds t = false then desiredPeers self localTids hosts ts
    else if t.hostId = some self ∨ t.id ∈ localTids then desiredPeers self localTids hosts ts
    else
      match ipByHost hosts t.hostId with
      | none => desiredPeers self localTids hosts ts
      | some ip => renderPeerConf t.id ip :: desiredPeers self localTids hosts ts

variable (env : SyncEnv)

/-- The digest of the desired set. -/
def peerDigest (desired : List TenantBlock) : String :=
  env.sha256 (String.join ((desired.mergeSort fun a b => strLe a.tid.toList b.tid.toList).map fun b =>
    b.tid ++ "\n" ++ b.text))

/-- Remove the confs that are not wanted; a failure is passed over. -/
def removeStale (want : List String) : List String → RouteProg Unit
  | [] => pure ()
  | f :: fs =>
    if f ∉ want ∧ isConf f = true then do
      let _ ← rt (.removePeer f)
      removeStale want fs
    else removeStale want fs

def writePeers : List TenantBlock → RouteProg Bool
  | [] => pure true
  | b :: bs => do
    let ok ← rt (.writePeer ⟨confName b.tid, b⟩)
    if ok then writePeers bs else pure false

/-- `nginx -t`, then the reload. -/
def reloadPeers (s : PeerState) (desired : List TenantBlock) : RouteProg (SyncEnd × PeerState) := do
  let check ← rt .nginxTest
  match check with
  | none => pure (.raised, s)
  | some false => pure (.rejected, { s with reloadFailures := s.reloadFailures + 1 })
  | some true => do
    let reloaded ← rt .nginxReload
    match reloaded with
    | none => pure (.raised, s)
    | some false => pure (.notReloaded, { s with reloadFailures := s.reloadFailures + 1 })
    | some true => do
      let now ← rt .time
      let _ ← rt .markReady
      pure (.applied, { s with
        lastPeerHash := some (peerDigest env desired), lastSuccess := now, entries := desired.length })

/-- Write the desired set over the directory. -/
def applyPeers (s : PeerState) (desired : List TenantBlock) : RouteProg (SyncEnd × PeerState) := do
  let made ← rt .makePeerDir
  if made then do
    let names ← rt .listPeers
    match names with
    | none => pure (.raised, s)
    | some names => do
      removeStale (desired.map fun b => confName b.tid) names
      let ok ← writePeers desired
      if ok then reloadPeers env s desired else pure (.raised, s)
  else pure (.raised, s)

/-- The body of the `try`. -/
def syncRoutes (s : PeerState) : RouteProg (SyncEnd × PeerState) := do
  let tenants ← rt .scanTenants
  match tenants with
  | none => pure (.raised, s)
  | some tenants => do
    let hosts ← rt .scanHosts
    match hosts with
    | none => pure (.raised, s)
    | some hosts => do
      let names ← rt .listLocal
      let desired := desiredPeers env.instanceId (((names.getD []).filter isConf).map confStem) hosts tenants
      if s.lastPeerHash = some (peerDigest env desired) then pure (.unchanged, s) else applyPeers env s desired

/-- `_sync_tenant_routes`. -/
def syncTenantRoutes (s : PeerState) : RouteProg (SyncEnd × PeerState) :=
  if env.tenantsTable = false ∨ env.hostsTable = false ∨ env.instanceId = "" then pure (.skipped, s)
  else do
    let now ← rt .monotonic
    if now - s.lastRouteSync < env.routeSyncInterval then pure (.skipped, s)
    else syncRoutes env { s with lastRouteSync := now }

/-! ## What a sync achieves -/

/-- A conf the peer map of the host `self` has to hold: of a routable tenant of another host with a known address, which
has no conf among the local ones. -/
def PeerConf (w : RouteHost) (self : HostId) (f : ConfFile) : Prop :=
  ∃ t ∈ w.tenants.rows, TenantFilter.routable.holds t = true ∧ w.locals.dir.get (confName t.id) = none ∧
    ∃ owner row ip, t.hostId = some owner ∧ owner ≠ self ∧ w.hosts.get owner = some row ∧ row.privateIp = some ip ∧
      ip ≠ "" ∧ f = ⟨confName t.id, renderPeerConf t.id ip⟩

/-- No file operation failed without an exception. -/
def fileOpsOk : (c : RouteOp) → c.Ans → RouteHost → Prop
  | .listLocal, r, _ => r.isSome = true
  | .removePeer _, r, _ => r = true
  | _, _, _ => True

abbrev routesOk : Sem Routes RouteHost := routeSem.restrict fileOpsOk

/-! ## Names -/

section Names

variable {tid tid' : TenantId} {name : String}

theorem confName_toList (tid : TenantId) : (confName tid).toList = tid.toList ++ ".conf".toList := String.toList_append

theorem isConf_confName (tid : TenantId) : isConf (confName tid) = true := by
  rw [isConf, confName_toList, List.isSuffixOf_iff_suffix]
  exact ⟨tid.toList, rfl⟩

@[simp] theorem confStem_confName (tid : TenantId) : confStem (confName tid) = tid := by
  have hlen : (tid.toList ++ ".conf".toList).length - ".conf".toList.length = tid.toList.length := by simp
  rw [confStem, confName_toList, hlen, List.take_left, String.ofList_toList]

theorem confName_injective (h : confName tid = confName tid') : tid = tid' := by
  rw [← confStem_confName tid, h, confStem_confName]

end Names

/-! ## The desired set -/

section Desired

variable {w : RouteHost} {self : HostId} {names : List String} {hosts : List HostRow} {ts : List TenantRow} {ip : String}

theorem ipByHost_eq_some (hp : hosts.Perm w.hosts.rows) {owner : Option HostId} : ipByHost hosts owner = some ip ↔
    ∃ o row, owner = some o ∧ w.hosts.get o = some row ∧ row.privateIp = some ip ∧ ip ≠ "" := by
  simp only [ipByHost, Option.bind_eq_bind, Option.bind_eq_some_iff]
  constructor
  · rintro ⟨o, rfl, row, hf, hip⟩
    have hrow : row.instanceId = o ∧ row.privateIp.any (· ≠ "") = true := by simpa using List.find?_some hf
    have hne : ip ≠ "" := by simpa [hip] using hrow.2
    have hmem := hp.mem_iff.1 (List.mem_of_find?_eq_some hf)
    exact ⟨o, row, rfl, hrow.1 ▸ Table.get_of_mem hmem, hip, hne⟩
  · rintro ⟨o, row, rfl, hg, hip, hne⟩
    refine ⟨o, rfl, row, ?_, hip⟩
    have hmem := hp.mem_iff.2 (Table.mem_of_get hg)
    have hkey : row.instanceId = o := Table.key_of_get hg
    have hsome : (hosts.find? fun h => h.instanceId = o && h.privateIp.any (· ≠ "")).isSome = true :=
      List.find?_isSome.2 ⟨row, hmem, by simp [hkey, hip, hne]⟩
    obtain ⟨row', hf⟩ := Option.isSome_iff_exists.1 hsome
    have hrow' : row'.instanceId = o := by
      have := List.find?_some hf
      rw [Bool.and_eq_true, decide_eq_true_eq] at this
      exact this.1
    have hg' := Table.get_of_mem (hp.mem_iff.1 (List.mem_of_find?_eq_some hf))
    rw [hrow', hg] at hg'
    rw [hf, Option.some.inj hg']

theorem mem_desiredPeers {localTids : List TenantId} {b : TenantBlock} : b ∈ desiredPeers self localTids hosts ts ↔
    ∃ t ∈ ts, (t.id ≠ "" ∧ TenantFilter.routable.holds t = true) ∧ t.hostId ≠ some self ∧ t.id ∉ localTids ∧
      ∃ ip, ipByHost hosts t.hostId = some ip ∧ b = renderPeerConf t.id ip := by
  induction ts with
  | nil => simp [desiredPeers]
  | cons t ts ih =>
    unfold desiredPeers
    split
    · rename_i hskip
      rw [ih]
      simp only [List.mem_cons, exists_eq_or_imp]
      refine (or_iff_right ?_).symm
      rintro ⟨⟨hid, hroute⟩, -⟩
      rcases hskip with h | h
      · exact hid h
      · rw [hroute] at h
        cases h
    split
    · rename_i hlocal
      rw [ih]
      simp only [List.mem_cons, exists_eq_or_imp]
      refine (or_iff_right ?_).symm
      rintro ⟨-, hself, hno, -⟩
      exact hlocal.elim hself hno
    · rename_i hkeep hremote
      rw [not_or] at hkeep hremote
      have hkeep' : t.id ≠ "" ∧ TenantFilter.routable.holds t = true := ⟨hkeep.1, by simpa using hkeep.2⟩
      cases hip : ipByHost hosts t.hostId with
      | none =>
        dsimp only
        rw [ih]
        simp only [List.mem_cons, exists_eq_or_imp]
        refine (or_iff_right ?_).symm
        rintro ⟨-, -, -, ip, he, -⟩
        rw [hip] at he
        cases he
      | some ip =>
        dsimp only
        rw [List.mem_cons, ih]
        simp only [List.mem_cons, exists_eq_or_imp]
        refine or_congr_left ⟨fun h => ⟨hkeep', hremote.1, hremote.2, ip, hip, h⟩, ?_⟩
        rintro ⟨-, -, -, ip', he, rfl⟩
        rw [hip] at he
        rw [Option.some.inj he]

/-- The ids of the desired set are ids of rows, in order. -/
theorem desiredPeers_sublist (localTids : List TenantId) :
    ((desiredPeers self localTids hosts ts).map TenantBlock.tid).Sublist (ts.map TenantRow.id) := by
  induction ts with
  | nil => exact List.Sublist.slnil
  | cons t ts ih =>
    unfold desiredPeers
    split
    · exact ih.cons _
    split
    · exact ih.cons _
    · cases ipByHost hosts t.hostId with
      | none => exact ih.cons _
      | some ip => exact ih.cons_cons _

end Desired

/-! ## A sync -/

section Sync

variable {env} {w : RouteHost}

/-- The stale confs among `names` are gone. -/
theorem removeStale_spec (want names : List String) : (removeStale want names).wp routesOk (fun _ w' =>
    ∃ d, w' = w.setPeers d ∧ ∀ f, f ∈ d.rows ↔ f ∈ w.peers.rows ∧ ¬ (f.name ∈ names ∧ f.name ∉ want ∧ isConf f.name = true))
    w := by
  induction names generalizing w with
  | nil => exact ⟨w.peers, rfl, by simp⟩
  | cons n names ih =>
    unfold removeStale
    split
    · rename_i hstale
      rintro r w₁ ⟨rfl, hs⟩
      obtain rfl : w₁ = w.setPeers (w.peers.erase n) := hs
      refine Prog.wp_mono ?_ ih
      rintro ⟨⟩ w' ⟨d, rfl, hd⟩
      refine ⟨d, rfl, fun f => ?_⟩
      rw [hd]
      simp only [RouteHost.setPeers, Table.mem_erase, List.mem_cons]
      by_cases hn : f.name = n
      · simp [hn, hstale]
      · simp [hn]
    · rename_i hkeep
      refine Prog.wp_mono ?_ ih
      rintro ⟨⟩ w' ⟨d, rfl, hd⟩
      refine ⟨d, rfl, fun f => ?_⟩
      rw [hd]
      by_cases hn : f.name = n
      · subst hn
        simp [hkeep]
      · simp [hn]

/-- The blocks are written, each into its own file. -/
theorem writePeers_spec (bs : List TenantBlock) (hn : (bs.map TenantBlock.tid).Nodup) : (writePeers bs).wp routesOk
    (fun ok w' => ok = true → ∃ d, w' = w.setPeers d ∧ ∀ f, f ∈ d.rows ↔ (∃ b ∈ bs, f = ⟨confName b.tid, b⟩) ∨
      f ∈ w.peers.rows ∧ ∀ b ∈ bs, f.name ≠ confName b.tid) w := by
  induction bs generalizing w with
  | nil => exact fun _ => ⟨w.peers, rfl, by simp⟩
  | cons b bs ih =>
    obtain ⟨hb, hn⟩ := List.nodup_cons.1 hn
    simp only [writePeers, rt_bind]
    rintro r w₁ ⟨-, hs⟩
    cases r with
    | false =>
      intro he
      cases he
    | true =>
      obtain rfl : w₁ = w.setPeers (w.peers.put ⟨confName b.tid, b⟩) := hs
      refine Prog.wp_mono ?_ (ih hn)
      intro ok w' h hok
      obtain ⟨d, rfl, hd⟩ := h hok
      refine ⟨d, rfl, fun f => ?_⟩
      rw [hd]
      simp only [RouteHost.setPeers, Table.mem_put, List.mem_cons, exists_eq_or_imp, forall_eq_or_imp]
      constructor
      · rintro (h | ⟨rfl | ⟨hf, hne⟩, hno⟩)
        · exact .inl (.inr h)
        · exact .inl (.inl rfl)
        · exact .inr ⟨hf, hne, hno⟩
      · rintro ((rfl | h) | ⟨hf, hne, hno⟩)
        · refine .inr ⟨.inl rfl, fun b' hb' he => ?_⟩
          exact hb (confName_injective he ▸ List.mem_map_of_mem hb')
        · exact .inl h
        · exact .inr ⟨.inr ⟨hf, hne⟩, hno⟩

theorem reloadPeers_spec (s : PeerState) (desired : List TenantBlock) : (reloadPeers env s desired).wp routesOk
    (fun x w' => x.1 = .applied → w'.peers = w.peers ∧ w'.locals = w.locals ∧
      w'.nginx = ⟨w.locals.dir.include, w.peers.include⟩) w := by
  simp only [reloadPeers, rt_bind, Prog.pure_eq]
  rintro check w₁ ⟨-, rfl⟩
  rcases check with _ | _ | _
  · intro he
    cases he
  · intro he
    cases he
  rintro reloaded w₂ ⟨-, hs⟩
  rcases reloaded with _ | _ | _
  · intro he
    cases he
  · intro he
    cases he
  obtain rfl : w₂ = w₁.reload := hs
  rintro now w₃ ⟨-, rfl⟩ r w₄ ⟨-, hs⟩ -
  rcases hs with rfl | rfl <;> exact ⟨rfl, rfl, rfl⟩

/-- The directory then holds the desired set, besides files that are no confs. -/
theorem applyPeers_spec (s : PeerState) (desired : List TenantBlock) (hn : (desired.map TenantBlock.tid).Nodup) :
    (applyPeers env s desired).wp routesOk (fun x w' => x.1 = .applied →
      (∀ f, f ∈ w'.peers.rows ∧ isConf f.name = true ↔ ∃ b ∈ desired, f = ⟨confName b.tid, b⟩) ∧ w'.locals = w.locals ∧
        w'.nginx = ⟨w'.locals.dir.include, w'.peers.include⟩) w := by
  simp only [applyPeers, rt_bind, Prog.pure_eq]
  rintro made w₁ ⟨-, rfl⟩
  cases made with
  | false =>
    intro he
    cases he
  | true =>
    simp only [if_true]
    rintro names w₂ ⟨-, hp, rfl⟩
    cases names with
    | none =>
      intro he
      cases he
    | some names =>
      refine (Prog.wp_bind ..).2 (Prog.wp_mono ?_ (removeStale_spec _ names))
      rintro ⟨⟩ w₃ ⟨d₁, rfl, hd₁⟩
      refine (Prog.wp_bind ..).2 (Prog.wp_mono ?_ (writePeers_spec desired hn))
      intro ok w₄ hwrite
      cases ok with
      | false =>
        intro he
        cases he
      | true =>
        obtain ⟨d₂, rfl, hd₂⟩ := hwrite rfl
        refine Prog.wp_mono ?_ (reloadPeers_spec s desired)
        intro x w' h he
        obtain ⟨hpeers, hlocals, hnginx⟩ := h he
        refine ⟨fun f => ?_, hlocals, by rw [hnginx, hpeers, hlocals]⟩
        have hmem : f ∈ w'.peers.rows ↔ (∃ b ∈ desired, f = ⟨confName b.tid, b⟩) ∨
            f ∈ d₁.rows ∧ ∀ b ∈ desired, f.name ≠ confName b.tid := by
          rw [hpeers]
          exact hd₂ f
        rw [hmem, hd₁]
        constructor
        · rintro ⟨h | ⟨⟨hf, hkeep⟩, hno⟩, hconf⟩
          · exact h
          · refine absurd ⟨(hp names rfl).mem_iff.2 (List.mem_map_of_mem hf), fun hw => ?_, hconf⟩ hkeep
            obtain ⟨b, hb, he⟩ := List.mem_map.1 hw
            exact hno b hb he.symm
        · rintro ⟨b, hb, rfl⟩
          exact ⟨.inl ⟨b, hb, rfl⟩, isConf_confName _⟩

/-- The tenants whose conf is among the local ones. -/
theorem mem_localTids {names : List String} (hp : names.Perm (w.locals.dir.rows.map ConfFile.name)) {tid : TenantId} :
    tid ∈ (names.filter isConf).map confStem ↔ w.locals.dir.get (confName tid) ≠ none := by
  rw [List.mem_map]
  constructor
  · rintro ⟨n, hn, rfl⟩
    obtain ⟨hn, hconf⟩ := List.mem_filter.1 hn
    obtain ⟨f, hf, rfl⟩ := List.mem_map.1 (hp.mem_iff.1 hn)
    obtain ⟨tid, ip, -, rfl⟩ := w.locals.written f hf hconf
    rw [confStem_confName]
    have hg : w.locals.dir.get (confName tid) = some _ := Table.get_of_mem hf
    rw [hg]
    simp
  · intro h
    obtain ⟨f, hg⟩ := Option.ne_none_iff_exists'.1 h
    have hname : f.name = confName tid := Table.key_of_get hg
    refine ⟨confName tid, List.mem_filter.2 ⟨?_, isConf_confName tid⟩, confStem_confName tid⟩
    exact hp.mem_iff.2 (hname ▸ List.mem_map_of_mem (Table.mem_of_get hg))

/-- **A sync that was applied**: the peer directory has exactly the confs it has to hold, and nginx has loaded them. -/
theorem sync_applied (s : PeerState) (hids : ∀ t ∈ w.tenants.rows, t.id ≠ "") : (syncTenantRoutes env s).wp routesOk
    (fun x w' => x.1 = .applied → (∀ f, f ∈ w'.peers.rows ∧ isConf f.name = true ↔ PeerConf w env.instanceId f) ∧
      w'.locals = w.locals ∧ w'.nginx = ⟨w'.locals.dir.include, w'.peers.include⟩) w := by
  simp only [syncTenantRoutes, rt_bind, Prog.pure_eq]
  split
  · intro he
    cases he
  rintro now w₁ ⟨-, rfl⟩
  beta_reduce
  split
  · intro he
    cases he
  simp only [syncRoutes, rt_bind, Prog.pure_eq]
  rintro tenants w₂ ⟨-, htenants, rfl⟩
  cases tenants with
  | none =>
    intro he
    cases he
  | some tenants =>
    rintro hosts w₃ ⟨-, hhosts, rfl⟩
    cases hosts with
    | none =>
      intro he
      cases he
    | some hosts =>
      rintro names w₄ ⟨hok, hnames, rfl⟩
      obtain ⟨names, rfl⟩ : ∃ ns, names = some ns := Option.isSome_iff_exists.1 hok
      have htenants : tenants.Perm w₄.tenants.rows := htenants tenants rfl
      have hhosts : hosts.Perm w₄.hosts.rows := hhosts hosts rfl
      have hnames : names.Perm (w₄.locals.dir.rows.map ConfFile.name) := hnames names rfl
      beta_reduce
      split
      · intro he
        cases he
      have hn : ((desiredPeers env.instanceId (((some names).getD []).filter isConf |>.map confStem) hosts tenants).map
          TenantBlock.tid).Nodup :=
        ((htenants.map _).nodup_iff.2 w₄.tenants.nodup).sublist (desiredPeers_sublist _)
      refine Prog.wp_mono ?_ (applyPeers_spec _ _ hn)
      intro x w' h he
      obtain ⟨hpeers, hlocals, hnginx⟩ := h he
      refine ⟨fun f => ?_, hlocals, hnginx⟩
      rw [hpeers]
      constructor
      · rintro ⟨b, hb, rfl⟩
        obtain ⟨t, ht, ⟨-, hroute⟩, hself, hlocal, ip, hip, rfl⟩ := mem_desiredPeers.1 hb
        obtain ⟨o, row, ho, hg, hrow, hne⟩ := (ipByHost_eq_some hhosts).1 hip
        refine ⟨t, htenants.mem_iff.1 ht, hroute, ?_, o, row, ip, ho, fun h => hself (h ▸ ho), hg, hrow, hne, rfl⟩
        by_contra hl
        exact hlocal ((mem_localTids hnames).2 hl)
      · rintro ⟨t, ht, hroute, hlocal, o, row, ip, ho, hne, hg, hrow, hip, rfl⟩
        refine ⟨_, mem_desiredPeers.2 ⟨t, htenants.mem_iff.2 ht, ⟨hids t ht, hroute⟩, fun h => ?_, fun h => ?_, ip,
          (ipByHost_eq_some hhosts).2 ⟨o, row, ho, hg, hrow, hip⟩, rfl⟩, rfl⟩
        · exact hne (Option.some.inj (ho.symm.trans h))
        · exact (mem_localTids hnames).1 h hlocal

end Sync

end OpenClaw
