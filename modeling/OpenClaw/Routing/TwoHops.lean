import OpenClaw.Host.PeerMap
import OpenClaw.Lib.Sequence
import OpenClaw.Routing.Purge

/-!
# Requests between hosts

nginx on `:80` of every host serves the peer map and the local blocks, on `:8081` the local blocks only. The local block
of a tenant passes on the group of its pattern, the block of a peer the request as it came.

- `capture`: the pattern of a tenant's blocks on the path of a request.
- `Reaches`: which guest a request gets to, with the number of forwards between hosts.
- `peer_map`: once all hosts have applied a sync of the same tables, a request for a tenant of a host with a known
  address matches one location wherever it arrives and gets to the tenant's VM after at most one forward, unless there
  is a line feed in its path.
-/

namespace OpenClaw

open Keyed Atomic

/-! ## Patterns -/

/-- `(/.*)?$` on the rest of a path, with the group: `.` is no line feed, and `$` is also before a last one. -/
def tailGroup (rest : List Char) : Option (List Char) :=
  match if rest.getLast? = some '\n' then rest.dropLast else rest with
  | [] => some []
  | c :: cs => if c = '/' ∧ '\n' ∉ cs then some (c :: cs) else none

/-- `^/vm/<tid>(/.*)?$` on a path, with the group; the characters of an id stand for themselves. -/
def capture (tid : TenantId) (path : List Char) : Option (List Char) :=
  if ("/vm/".toList ++ tid.toList).isPrefixOf path then tailGroup (path.drop ("/vm/".toList ++ tid.toList).length) else none

/-- The path of a request for the tenant. -/
def tenantPath (tid : TenantId) (rest : List Char) : List Char := "/vm/".toList ++ tid.toList ++ '/' :: rest

section Patterns

variable {tid tid' : TenantId} {rest : List Char}

theorem tailGroup_slash (h : '\n' ∉ rest) : tailGroup ('/' :: rest) = some ('/' :: rest) := by
  have hlast : ('/' :: rest).getLast? ≠ some '\n' := by
    intro he
    rcases List.mem_cons.1 (List.mem_of_getLast? he) with hc | hm
    · cases hc
    · exact h hm
  rw [tailGroup, if_neg hlast]
  simp [h]

/-- A rest without a slash at its head, or a line feed before its end, does not match. -/
theorem tailGroup_eq_some {cs g : List Char} (h : tailGroup cs = some g) :
    (cs = g ∨ cs = g ++ ['\n']) ∧ (g = [] ∨ ∃ xs, g = '/' :: xs ∧ '\n' ∉ xs) := by
  have hcut : ∃ body, (if cs.getLast? = some '\n' then cs.dropLast else cs) = body ∧ (cs = body ∨ cs = body ++ ['\n']) := by
    refine ⟨_, rfl, ?_⟩
    split
    · rename_i hl
      exact .inr (List.dropLast_append_getLast? _ hl).symm
    · exact .inl rfl
  obtain ⟨body, hbody, hcs⟩ := hcut
  rw [tailGroup, hbody] at h
  cases body with
  | nil =>
    obtain rfl := Option.some.inj h
    exact ⟨hcs, .inl rfl⟩
  | cons c xs =>
    dsimp only at h
    split at h
    · rename_i hc
      obtain rfl := Option.some.inj h
      exact ⟨hcs, .inr ⟨xs, by rw [hc.1], hc.2⟩⟩
    · cases h

theorem capture_eq_some {path g : List Char} (h : capture tid path = some g) :
    ∃ cs, path = "/vm/".toList ++ tid.toList ++ cs ∧ tailGroup cs = some g := by
  unfold capture at h
  split at h
  · rename_i hp
    obtain ⟨cs, rfl⟩ := List.isPrefixOf_iff_prefix.1 hp
    rw [List.drop_left] at h
    exact ⟨cs, rfl, h⟩
  · cases h

/-- The pattern of the tenant matches. -/
theorem capture_self (h : '\n' ∉ rest) : capture tid (tenantPath tid rest) = some ('/' :: rest) := by
  have hp : ("/vm/".toList ++ tid.toList).isPrefixOf (tenantPath tid rest) = true :=
    List.isPrefixOf_iff_prefix.2 ⟨'/' :: rest, rfl⟩
  rw [capture, if_pos hp, tenantPath, List.drop_left, tailGroup_slash h]

/-- The patterns of others do not. -/
theorem capture_other (htid : '/' ∉ tid.toList) (htid' : '/' ∉ tid'.toList) {g : List Char}
    (h : capture tid' (tenantPath tid rest) = some g) : tid' = tid := by
  obtain ⟨cs, he, hg⟩ := capture_eq_some h
  have he : tid.toList ++ '/' :: rest = tid'.toList ++ cs := by
    rw [tenantPath, List.append_assoc, List.append_assoc] at he
    exact List.append_cancel_left he
  obtain ⟨hcs, hshape⟩ := tailGroup_eq_some hg
  have hslash : '/' ∈ tid'.toList ++ cs := he ▸ List.mem_append_right _ List.mem_cons_self
  have hhead : ∃ xs, cs = '/' :: xs := by
    rcases hshape with rfl | ⟨xs, rfl, -⟩
    · -- Nothing but perhaps a line feed follows the id, so there is no slash.
      refine absurd hslash ?_
      rcases hcs with rfl | rfl <;> simp [htid']
    · rcases hcs with rfl | rfl <;> exact ⟨_, rfl⟩
  obtain ⟨xs, rfl⟩ := hhead
  have hids : tid.toList = tid'.toList := by
    have := congrArg (List.takeWhile (· ≠ '/')) he
    rwa [takeWhile_segment.2 ⟨htid, .inr ⟨rest, rfl⟩⟩, takeWhile_segment.2 ⟨htid', .inr ⟨xs, rfl⟩⟩] at this
  exact (String.toList_injective hids).symm

/-- With a line feed before the end of the path none does. -/
theorem capture_line_feed (htid : '/' ∉ tid.toList) (htid' : '/' ∉ tid'.toList) (h : '\n' ∈ rest.dropLast) :
    capture tid' (tenantPath tid rest) = none := by
  cases hc : capture tid' (tenantPath tid rest) with
  | none => rfl
  | some g =>
    obtain rfl := capture_other htid htid' hc
    obtain ⟨cs, he, hg⟩ := capture_eq_some hc
    obtain rfl : '/' :: rest = cs := List.append_cancel_left he
    obtain ⟨hcs, rfl | ⟨xs, rfl, hxs⟩⟩ := tailGroup_eq_some hg
    · rcases hcs with hcs | hcs <;> simp at hcs
    · rcases hcs with hcs | hcs
      · obtain rfl := (List.cons.inj hcs).2
        exact absurd (List.mem_of_mem_dropLast h) hxs
      · obtain rfl : rest = xs ++ ['\n'] := (List.cons.inj hcs).2
        rw [List.dropLast_concat] at h
        exact absurd h hxs

end Patterns

/-! ## Servers -/

inductive Location
  /-- `location = <path>`. -/
  | exact (path : String)
  /-- `location <path>`. -/
  | under (path : String)
  | tenant (b : TenantBlock)
deriving DecidableEq

def Location.hit : Location → List Char → Bool
  | .exact p, path => path = p.toList
  | .under p, path => p.toList.isPrefixOf path
  | .tenant b, path => (capture b.tid path).isSome

inductive Port
  /-- `:80`. -/
  | http
  /-- `:8081`. -/
  | internal

/-- The locations of the server on a port. -/
def NginxConf.server (c : NginxConf) : Port → List Location
  | .http => [.under "/health", .exact "/ready"] ++ c.peers.map .tenant ++ c.locals.map .tenant
  | .internal => [.under "/health"] ++ c.locals.map .tenant

def Location.isExact : Location → Bool
  | .exact _ => true
  | _ => false

def Location.isPattern : Location → Bool
  | .tenant _ => true
  | _ => false

/-- The location nginx takes: an exact one, else the first pattern, else the one by prefix. -/
def pick (locs : List Location) (path : List Char) : Option Location :=
  (locs.find? fun l => l.isExact && l.hit path).or
    ((locs.find? fun l => l.isPattern && l.hit path).or (locs.find? fun l => l.hit path))

/-- A single match is taken, whatever kind it is of. -/
theorem pick_of_single {locs : List Location} {path : List Char} {l : Location}
    (h : locs.filter (fun l => l.hit path) = [l]) : pick locs path = some l := by
  have hof : ∀ x ∈ locs, x.hit path = true → x = l := by
    intro x hx hh
    have hm : x ∈ locs.filter fun l => l.hit path := List.mem_filter.2 ⟨hx, hh⟩
    rw [h] at hm
    exact List.mem_singleton.1 hm
  have hfound : ∀ (q : Location → Bool) (x : Location), (locs.find? fun l => q l && l.hit path) = some x → x = l := by
    intro q x hx
    have hhit := List.find?_some hx
    rw [Bool.and_eq_true] at hhit
    exact hof x (List.mem_of_find?_eq_some hx) hhit.2
  have hany : locs.find? (fun l => l.hit path) = some l := by
    rw [← List.head?_filter, h]
    rfl
  unfold pick
  rw [hany]
  cases he : locs.find? fun l => l.isExact && l.hit path with
  | some x => rw [hfound _ x he]; rfl
  | none =>
    cases hp : locs.find? fun l => l.isPattern && l.hit path with
    | some x => rw [hfound _ x hp]; rfl
    | none => rfl

/-! ## Requests -/

/-- The hosts and the network between them. -/
structure Fleet where
  host : HostId → RouteHost
  /-- The host at an address. -/
  addr : String → Option HostId
  /-- The decoded and normalised path of a request line. -/
  path : String → List Char

/-- A guest with the path it is asked for. -/
structure Visit where
  host : HostId
  guestIp : String
  path : List Char
deriving DecidableEq

/-- The request gets from the port of a host to a guest, after a number of forwards. -/
inductive Reaches (F : Fleet) (uri : String) : Port → HostId → ℕ → Visit → Prop
  | guest {p : Port} {h : HostId} {tid : TenantId} {ip : String} {g : List Char}
      (hpick : pick ((F.host h).nginx.server p) (F.path uri) = some (.tenant ⟨tid, .guest ip⟩))
      (hgroup : capture tid (F.path uri) = some g) : Reaches F uri p h 0 ⟨h, ip, g⟩
  | forward {p : Port} {h o : HostId} {tid : TenantId} {ip : String} {n : ℕ} {v : Visit}
      (hpick : pick ((F.host h).nginx.server p) (F.path uri) = some (.tenant ⟨tid, .peer ip⟩)) (haddr : F.addr ip = some o)
      (hnext : Reaches F uri .internal o n v) : Reaches F uri p h (n + 1) v

/-- A request gets to one guest. -/
theorem Reaches.unique {F : Fleet} {uri : String} {p : Port} {h : HostId} {n n' : ℕ} {v v' : Visit}
    (hr : Reaches F uri p h n v) (hr' : Reaches F uri p h n' v') : n' = n ∧ v' = v := by
  induction hr generalizing n' v' with
  | guest hpick hgroup =>
    cases hr' with
    | guest hpick' hgroup' =>
      rw [hpick] at hpick'
      cases hpick'
      rw [hgroup] at hgroup'
      cases hgroup'
      exact ⟨rfl, rfl⟩
    | forward hpick' haddr' hnext' =>
      rw [hpick] at hpick'
      cases hpick'
  | forward hpick haddr hnext ih =>
    cases hr' with
    | guest hpick' hgroup' =>
      rw [hpick] at hpick'
      cases hpick'
    | forward hpick' haddr' hnext' =>
      rw [hpick] at hpick'
      cases hpick'
      rw [haddr] at haddr'
      cases haddr'
      obtain ⟨rfl, rfl⟩ := ih hnext'
      exact ⟨rfl, rfl⟩

/-! ## Matching blocks -/

section Blocks

variable {tid : TenantId} {rest : List Char}

/-- Among blocks of different tenants only the tenant's own matches. -/
theorem filter_blocks {bs : List TenantBlock} (hn : bs.Nodup) {b : TenantBlock} (hb : b ∈ bs)
    (hslash : ∀ x ∈ bs, '/' ∉ x.tid.toList) (hone : ∀ x ∈ bs, x.tid = b.tid → x = b) (hrest : '\n' ∉ rest) :
    (bs.map Location.tenant).filter (fun l => l.hit (tenantPath b.tid rest)) = [.tenant b] := by
  have hiff : ∀ x ∈ bs, (Location.tenant x).hit (tenantPath b.tid rest) = decide (x = b) := by
    intro x hx
    rw [Bool.eq_iff_iff, decide_eq_true_eq, Location.hit, Option.isSome_iff_exists]
    constructor
    · rintro ⟨g, hg⟩
      exact hone x hx (capture_other (hslash b hb) (hslash x hx) hg)
    · rintro rfl
      exact ⟨_, capture_self hrest⟩
  have hcount : bs.filter (fun x => decide (x = b)) = [b] := by
    have := List.filter_beq (l := bs) b
    simpa [List.count_eq_one_of_mem hn hb, beq_eq_decide] using this
  rw [List.filter_map]
  show List.map _ (bs.filter fun x => (Location.tenant x).hit (tenantPath b.tid rest)) = _
  rw [List.filter_congr hiff, hcount, List.map_singleton]

/-- Without a block of the tenant none matches. -/
theorem filter_blocks_nil {bs : List TenantBlock} (htid : '/' ∉ tid.toList) (hslash : ∀ x ∈ bs, '/' ∉ x.tid.toList)
    (hno : ∀ x ∈ bs, x.tid ≠ tid) : (bs.map Location.tenant).filter (fun l => l.hit (tenantPath tid rest)) = [] := by
  rw [List.filter_eq_nil_iff]
  intro l hl hhit
  obtain ⟨x, hx, rfl⟩ := List.mem_map.1 hl
  obtain ⟨g, hg⟩ := Option.isSome_iff_exists.1 hhit
  exact hno x hx (capture_other htid (hslash x hx) hg)

theorem fixed_miss : ([.under "/health", .exact "/ready"] : List Location).filter
    (fun l => l.hit (tenantPath tid rest)) = [] := by
  simp [Location.hit, tenantPath]

theorem health_miss : ([.under "/health"] : List Location).filter (fun l => l.hit (tenantPath tid rest)) = [] := by
  simp [Location.hit, tenantPath]

end Blocks

/-! ## What the servers of a synced host match -/

section Include

variable {d : ConfDir}

/-- Blocks that determine the names of their files are all different. -/
theorem include_nodup (h : ∀ f ∈ d.rows, isConf f.name = true → f.name = confName f.block.tid) : d.include.Nodup := by
  unfold ConfDir.include
  have hn : ((d.rows.filter fun f => isConf f.name).mergeSort fun a b => strLe a.name.toList b.name.toList).Nodup :=
    (List.mergeSort_perm _ _).nodup_iff.2 ((List.Nodup.of_map _ d.nodup).filter _)
  have hmem : ∀ f ∈ (d.rows.filter fun f => isConf f.name).mergeSort fun a b => strLe a.name.toList b.name.toList,
      f ∈ d.rows ∧ isConf f.name = true := by
    intro f hf
    exact List.mem_filter.1 (List.mem_mergeSort.1 hf)
  refine hn.map_on fun f hf g hg he => ?_
  obtain ⟨hf, hcf⟩ := hmem f hf
  obtain ⟨hg, hcg⟩ := hmem g hg
  have hname : f.name = g.name := by rw [h f hf hcf, h g hg hcg, he]
  have hget : d.get f.name = some f := Table.get_of_mem hf
  rw [hname, show d.get g.name = some g from Table.get_of_mem hg] at hget
  exact (Option.some.inj hget).symm

end Include

/-- The peer directory holds what it has to hold for the tables, and nginx has loaded both directories. -/
structure InSync (T : TenantsTable) (H : HostsTable) (h : HostId) (w : RouteHost) : Prop where
  peers : ∀ f, f ∈ w.peers.rows ∧ isConf f.name = true ↔
    PeerConf { w with tenants := T, hosts := H } h f
  loaded : w.nginx = ⟨w.locals.dir.include, w.peers.include⟩

section Servers

variable {T : TenantsTable} {H : HostsTable} {h : HostId} {w : RouteHost} {t : TenantRow} {rest : List Char}

theorem locals_blocks {b : TenantBlock} (hb : b ∈ w.locals.dir.include) :
    '/' ∉ b.tid.toList ∧ ∃ ip, b = localBlock b.tid ip ∧ w.locals.dir.get (confName b.tid) = some ⟨confName b.tid, b⟩ := by
  obtain ⟨f, hf, hconf, rfl⟩ := mem_include.1 hb
  obtain ⟨tid, ip, hslash, rfl⟩ := w.locals.written f hf hconf
  exact ⟨hslash, ip, rfl, Table.get_of_mem hf⟩

theorem locals_nodup (w : RouteHost) : w.locals.dir.include.Nodup := by
  refine include_nodup fun f hf hconf => ?_
  obtain ⟨tid, ip, -, rfl⟩ := w.locals.written f hf hconf
  rfl

/-- With a local conf of the tenant only its block matches among the local ones. -/
theorem locals_hit {f : ConfFile} (hg : w.locals.dir.get (confName t.id) = some f) (hrest : '\n' ∉ rest) :
    ∃ ip, f = ⟨confName t.id, localBlock t.id ip⟩ ∧ (w.locals.dir.include.map Location.tenant).filter
      (fun l => l.hit (tenantPath t.id rest)) = [.tenant (localBlock t.id ip)] := by
  have hf := Table.mem_of_get hg
  have hname : f.name = confName t.id := Table.key_of_get hg
  obtain ⟨tid, ip, hslash, rfl⟩ := w.locals.written f hf (by rw [hname]; exact isConf_confName _)
  obtain rfl : tid = t.id := confName_injective hname
  refine ⟨ip, rfl, ?_⟩
  refine @filter_blocks rest _ (locals_nodup w) (localBlock t.id ip) ?_ (fun x hx => (locals_blocks hx).1)
    (fun x hx he => ?_) hrest
  · exact mem_include.2 ⟨_, hf, isConf_confName _, rfl⟩
  · obtain ⟨-, ip', -, hg'⟩ := locals_blocks hx
    rw [he] at hg'
    have := Option.some.inj (hg'.symm.trans hg)
    exact congrArg ConfFile.block this

theorem locals_miss (hid : ValidId t.id) (hg : w.locals.dir.get (confName t.id) = none) :
    (w.locals.dir.include.map Location.tenant).filter (fun l => l.hit (tenantPath t.id rest)) = [] := by
  refine filter_blocks_nil hid.no_slash (fun x hx => (locals_blocks hx).1) fun x hx he => ?_
  obtain ⟨-, ip, -, hg'⟩ := locals_blocks hx
  rw [he, hg] at hg'
  cases hg'

theorem peers_blocks (hs : InSync T H h w) {b : TenantBlock} (hb : b ∈ w.peers.include) :
    PeerConf { w with tenants := T, hosts := H } h ⟨confName b.tid, b⟩ := by
  obtain ⟨f, hf, hconf, rfl⟩ := mem_include.1 hb
  have hp := (hs.peers f).1 ⟨hf, hconf⟩
  obtain ⟨t, -, -, -, o, row, ip, -, -, -, -, -, rfl⟩ := id hp
  exact hp

theorem peers_nodup (hs : InSync T H h w) : w.peers.include.Nodup := by
  refine include_nodup fun f hf hconf => ?_
  obtain ⟨t, -, -, -, o, row, ip, -, -, -, -, -, rfl⟩ := (hs.peers f).1 ⟨hf, hconf⟩
  rfl

theorem peers_slash (hs : InSync T H h w) (hids : ∀ t ∈ T.rows, ValidId t.id) {b : TenantBlock}
    (hb : b ∈ w.peers.include) : '/' ∉ b.tid.toList := by
  obtain ⟨t, ht, -, -, o, row, ip, -, -, -, -, -, he⟩ := peers_blocks hs hb
  obtain ⟨-, rfl⟩ := ConfFile.mk.inj he
  exact (hids t ht).no_slash

/-- A tenant with a local conf has no peer block. -/
theorem peers_miss (hs : InSync T H h w) (hids : ∀ t ∈ T.rows, ValidId t.id) (hid : ValidId t.id)
    (hg : w.locals.dir.get (confName t.id) ≠ none) :
    (w.peers.include.map Location.tenant).filter (fun l => l.hit (tenantPath t.id rest)) = [] := by
  refine filter_blocks_nil hid.no_slash (fun x hx => peers_slash hs hids hx) fun x hx he => ?_
  obtain ⟨t', -, -, hnone, o, row, ip, -, -, -, -, -, hf⟩ := peers_blocks hs hx
  have hname : confName x.tid = confName t'.id := congrArg ConfFile.name hf
  rw [he] at hname
  exact hg (hname ▸ hnone)

/-- A tenant of another host with a known address has the one peer block that matches. -/
theorem peers_hit (hs : InSync T H h w) (hids : ∀ t ∈ T.rows, ValidId t.id) (ht : t ∈ T.rows)
    (hroute : TenantFilter.routable.holds t = true) (hg : w.locals.dir.get (confName t.id) = none) {o : HostId}
    (ho : t.hostId = some o) (hne : o ≠ h) {row : HostRow} (hrow : H.get o = some row) {ip : String}
    (hip : row.privateIp = some ip) (hknown : ip ≠ "") (hrest : '\n' ∉ rest) : (w.peers.include.map Location.tenant).filter
      (fun l => l.hit (tenantPath t.id rest)) = [.tenant (renderPeerConf t.id ip)] := by
  have hmem := (hs.peers ⟨confName t.id, renderPeerConf t.id ip⟩).2
    ⟨t, ht, hroute, hg, o, row, ip, ho, hne, hrow, hip, hknown, rfl⟩
  refine @filter_blocks rest _ (peers_nodup hs) (renderPeerConf t.id ip) ?_ (fun x hx => peers_slash hs hids hx)
    (fun x hx he => ?_) hrest
  · exact mem_include.2 ⟨_, hmem.1, hmem.2, rfl⟩
  · obtain ⟨t', ht', -, -, o', row', ip', ho', -, hrow', hip', -, hf⟩ := peers_blocks hs hx
    obtain ⟨-, rfl⟩ := ConfFile.mk.inj hf
    have hsame : t' = t := by
      have hg₁ : T.get t'.id = some t' := Table.get_of_mem ht'
      have hg₂ : T.get t.id = some t := Table.get_of_mem ht
      have he : t'.id = t.id := he
      rw [he, hg₂] at hg₁
      exact (Option.some.inj hg₁).symm
    subst hsame
    obtain rfl : o' = o := Option.some.inj (ho'.symm.trans ho)
    obtain rfl : row' = row := Option.some.inj (hrow'.symm.trans hrow)
    obtain rfl : ip' = ip := Option.some.inj (hip'.symm.trans hip)
    rfl

theorem http_filter (hs : InSync T H h w) (path : List Char)
    (hfixed : ([.under "/health", .exact "/ready"] : List Location).filter (fun l => l.hit path) = []) :
    (w.nginx.server .http).filter (fun l => l.hit path) =
      (w.peers.include.map Location.tenant).filter (fun l => l.hit path) ++
        (w.locals.dir.include.map Location.tenant).filter fun l => l.hit path := by
  rw [hs.loaded, NginxConf.server, List.filter_append, List.filter_append, hfixed, List.nil_append]

theorem internal_filter (hs : InSync T H h w) (path : List Char)
    (hfixed : ([.under "/health"] : List Location).filter (fun l => l.hit path) = []) :
    (w.nginx.server .internal).filter (fun l => l.hit path) =
      (w.locals.dir.include.map Location.tenant).filter fun l => l.hit path := by
  rw [hs.loaded, NginxConf.server, List.filter_append, hfixed, List.nil_append]

/-- With a line feed before the end of its path a request matches nothing. -/
theorem line_feed_miss {tid : TenantId} (hs : InSync T H h w) (hids : ∀ t ∈ T.rows, ValidId t.id)
    (htid : '/' ∉ tid.toList) (hline : '\n' ∈ rest.dropLast) :
    (w.nginx.server .http).filter (fun l => l.hit (tenantPath tid rest)) = [] := by
  rw [http_filter hs _ fixed_miss, List.append_eq_nil_iff, List.filter_eq_nil_iff, List.filter_eq_nil_iff]
  constructor <;> intro l hl
  · obtain ⟨b, hb, rfl⟩ := List.mem_map.1 hl
    simp [Location.hit, capture_line_feed htid (peers_slash hs hids hb) hline]
  · obtain ⟨b, hb, rfl⟩ := List.mem_map.1 hl
    simp [Location.hit, capture_line_feed htid (locals_blocks hb).1 hline]

/-- Without an address of its owner a tenant has no peer block. -/
theorem unknown_miss (hs : InSync T H h w) (hids : ∀ t ∈ T.rows, ValidId t.id) (ht : t ∈ T.rows)
    (hno : ∀ o row, t.hostId = some o → H.get o = some row → row.privateIp = none) :
    (w.peers.include.map Location.tenant).filter (fun l => l.hit (tenantPath t.id rest)) = [] := by
  refine filter_blocks_nil (hids t ht).no_slash (fun x hx => peers_slash hs hids hx) fun x hx he => ?_
  obtain ⟨t', ht', -, -, o, row, ip, ho, -, hrow, hip, -, hf⟩ := peers_blocks hs hx
  have hid : t'.id = t.id := (confName_injective (congrArg ConfFile.name hf)).symm.trans he
  have hg₁ : T.get t'.id = some t' := Table.get_of_mem ht'
  have hg₂ : T.get t.id = some t := Table.get_of_mem ht
  rw [hid, hg₂] at hg₁
  obtain rfl := Option.some.inj hg₁
  rw [hno o row ho hrow] at hip
  cases hip

end Servers

/-! ## All hosts -/

/-- Every host has applied a sync of the same tables, and the routable tenants have their local confs exactly on their
owners. -/
structure SyncedFleet (T : TenantsTable) (H : HostsTable) (F : Fleet) : Prop where
  applied : ∀ h row, H.get h = some row → ∃ (env : SyncEnv) (s s' : PeerState) (w : RouteHost), env.instanceId = h ∧
    w.tenants = T ∧ w.hosts = H ∧ (syncTenantRoutes env s).Runs routesOk w (.applied, s') (F.host h)
  owners : ∀ t ∈ T.rows, TenantFilter.routable.holds t = true → ∀ h row, H.get h = some row →
    ((F.host h).locals.dir.get (confName t.id) ≠ none ↔ t.hostId = some h)

/-- A request arriving at the host matches one location, and gets to the guest after at most one forward. -/
structure Served (F : Fleet) (h : HostId) (uri : String) (v : Visit) : Prop where
  single : ∃ l, ((F.host h).nginx.server .http).filter (fun l => l.hit (F.path uri)) = [l]
  reaches : ∃ n ≤ 1, Reaches F uri .http h n v
  only : ∀ n v', Reaches F uri .http h n v' → v' = v

section Fleets

variable {T : TenantsTable} {H : HostsTable} {F : Fleet} {h : HostId} {t : TenantRow}

/-- After an applied sync. -/
theorem applied_peers (hids : ∀ t ∈ T.rows, ValidId t.id) {env : SyncEnv} {s s' : PeerState} {w w' : RouteHost}
    (hT : w.tenants = T) (hH : w.hosts = H) (hr : (syncTenantRoutes env s).Runs routesOk w (.applied, s') w') :
    (∀ f, f ∈ w'.peers.rows ∧ isConf f.name = true ↔ PeerConf w env.instanceId f) ∧ w'.locals = w.locals ∧
      InSync T H env.instanceId w' := by
  have hne : ∀ t ∈ w.tenants.rows, t.id ≠ "" := by
    intro t ht he
    exact (hids t (hT ▸ ht)).ne_nil (by rw [he]; rfl)
  obtain ⟨hpeers, hlocals, hloaded⟩ := Prog.wp_iff_runs.1 (sync_applied s hne) _ _ hr rfl
  refine ⟨hpeers, hlocals, fun f => ?_, hloaded⟩
  rw [hpeers]
  subst hT hH
  unfold PeerConf
  rw [hlocals]

theorem SyncedFleet.inSync (hf : SyncedFleet T H F) (hids : ∀ t ∈ T.rows, ValidId t.id) {row : HostRow}
    (hrow : H.get h = some row) : InSync T H h (F.host h) := by
  obtain ⟨env, s, s', w, rfl, hT, hH, hr⟩ := hf.applied h row hrow
  exact (applied_peers hids hT hH hr).2.2

/-- A request for a tenant of a host with a known address. -/
theorem SyncedFleet.served (hf : SyncedFleet T H F) (hids : ∀ t ∈ T.rows, ValidId t.id) (ht : t ∈ T.rows)
    (hroute : TenantFilter.routable.holds t = true) {o : HostId} {row : HostRow} {ip : String} (ho : t.hostId = some o)
    (hrow : H.get o = some row) (hip : row.privateIp = some ip) (hknown : ip ≠ "") (haddr : F.addr ip = some o) :
    ∃ guestIp, (F.host o).locals.dir.get (confName t.id) = some ⟨confName t.id, localBlock t.id guestIp⟩ ∧
      ∀ h row', H.get h = some row' → ∀ uri rest, F.path uri = tenantPath t.id rest → '\n' ∉ rest →
        Served F h uri ⟨o, guestIp, '/' :: rest⟩ := by
  have hid := hids t ht
  have hlocal := (hf.owners t ht hroute o row hrow).2 ho
  obtain ⟨f, hg⟩ := Option.ne_none_iff_exists'.1 hlocal
  obtain ⟨guestIp, rfl, -⟩ := @locals_hit (F.host o) t [] f hg (by simp)
  refine ⟨guestIp, hg, fun h row' hrow' uri rest hpath hrest => ?_⟩
  have hhit : ((F.host o).locals.dir.include.map Location.tenant).filter (fun l => l.hit (tenantPath t.id rest)) =
      [.tenant (localBlock t.id guestIp)] := by
    obtain ⟨ip', he, hhit⟩ := locals_hit hg hrest
    obtain rfl : guestIp = ip' := by
      have := congrArg (fun f : ConfFile => f.block.upstream) he
      exact Upstream.guest.inj this
    exact hhit
  have hin := hf.inSync hids hrow
  have hin' := hf.inSync hids hrow'
  by_cases hho : h = o
  · subst hho
    have hfilter : ((F.host h).nginx.server .http).filter (fun l => l.hit (F.path uri)) =
        [.tenant (localBlock t.id guestIp)] := by
      rw [hpath, http_filter hin _ fixed_miss, peers_miss hin hids hid hlocal, hhit, List.nil_append]
    have hreach : Reaches F uri .http h 0 ⟨h, guestIp, '/' :: rest⟩ :=
      .guest (pick_of_single hfilter) (by rw [hpath]; exact capture_self hrest)
    exact ⟨⟨_, hfilter⟩, ⟨0, Nat.zero_le 1, hreach⟩, fun n v' hr => (hreach.unique hr).2⟩
  · have hnone : (F.host h).locals.dir.get (confName t.id) = none := by
      by_contra hne
      have := (hf.owners t ht hroute h row' hrow').1 hne
      exact hho (Option.some.inj (this.symm.trans ho))
    have hfilter : ((F.host h).nginx.server .http).filter (fun l => l.hit (F.path uri)) =
        [.tenant (renderPeerConf t.id ip)] := by
      rw [hpath, http_filter hin' _ fixed_miss, locals_miss hid hnone,
        peers_hit hin' hids ht hroute hnone ho (fun he => hho he.symm) hrow hip hknown hrest, List.append_nil]
    have hinternal : ((F.host o).nginx.server .internal).filter (fun l => l.hit (F.path uri)) =
        [.tenant (localBlock t.id guestIp)] := by
      rw [hpath, internal_filter hin _ health_miss, hhit]
    have hreach : Reaches F uri .http h 1 ⟨o, guestIp, '/' :: rest⟩ :=
      .forward (pick_of_single hfilter) haddr
        (.guest (pick_of_single hinternal) (by rw [hpath]; exact capture_self hrest))
    exact ⟨⟨_, hfilter⟩, ⟨1, Nat.le_refl 1, hreach⟩, fun n v' hr => (hreach.unique hr).2⟩

end Fleets

/-- **The peer map.** A sync that was applied leaves exactly the peer confs of the routable tenants of other hosts with a
known address that have no local conf. Once all hosts have applied a sync of the same tables, and the local confs are
where the tenants are, a request without a line feed for a tenant of a host with a known address matches one location
wherever it arrives, and gets to the tenant's VM, with the same path, after at most one forward. -/
theorem peer_map {T : TenantsTable} {H : HostsTable} (hids : ∀ t ∈ T.rows, ValidId t.id) :
    (∀ (env : SyncEnv) (s s' : PeerState) (w w' : RouteHost), w.tenants = T → w.hosts = H →
      (syncTenantRoutes env s).Runs routesOk w (.applied, s') w' →
        (∀ f, f ∈ w'.peers.rows ∧ isConf f.name = true ↔ PeerConf w env.instanceId f) ∧
          ∀ tid, w'.locals.dir.get (confName tid) = none ∨ w'.peers.get (confName tid) = none) ∧
    ∀ F, SyncedFleet T H F → ∀ t ∈ T.rows, TenantFilter.routable.holds t = true → ∀ o row ip, t.hostId = some o →
      H.get o = some row → row.privateIp = some ip → ip ≠ "" → F.addr ip = some o →
        ∃ guestIp, (F.host o).locals.dir.get (confName t.id) = some ⟨confName t.id, localBlock t.id guestIp⟩ ∧
          ∀ h row', H.get h = some row' → ∀ uri rest, F.path uri = tenantPath t.id rest → '\n' ∉ rest →
            Served F h uri ⟨o, guestIp, '/' :: rest⟩ := by
  constructor
  · intro env s s' w w' hT hH hr
    obtain ⟨hpeers, hlocals, -⟩ := applied_peers hids hT hH hr
    refine ⟨hpeers, fun tid => ?_⟩
    by_contra hboth
    rw [not_or] at hboth
    obtain ⟨f, hg⟩ := Option.ne_none_iff_exists'.1 hboth.2
    have hname : f.name = confName tid := Table.key_of_get hg
    obtain ⟨t, -, -, hnone, o, row, ip, -, -, -, -, -, rfl⟩ :=
      (hpeers f).1 ⟨Table.mem_of_get hg, by rw [hname]; exact isConf_confName tid⟩
    refine hboth.1 ?_
    rw [hlocals, ← hname]
    exact hnone
  · intro F hf t ht hroute o row ip ho hrow hip hknown haddr
    exact hf.served hids ht hroute ho hrow hip hknown haddr

/-! ## Two hosts -/

/-- Everything succeeds. -/
def RouteHost.exec (w : RouteHost) : (c : RouteOp) → Option (c.Ans × RouteHost)
  | .monotonic => some (60000000, w)
  | .scanTenants => some (some w.tenants.rows, w)
  | .scanHosts => some (some w.hosts.rows, w)
  | .listLocal => some (some (w.locals.dir.rows.map ConfFile.name), w)
  | .makePeerDir => some (true, w)
  | .listPeers => some (some (w.peers.rows.map ConfFile.name), w)
  | .removePeer name => some (true, w.setPeers (w.peers.erase name))
  | .writePeer f => some (true, w.setPeers (w.peers.put f))
  | .nginxTest => some (some true, w)
  | .nginxReload => some (some true, w.reload)
  | .time => some (0, w)
  | .markReady => some ((), w.setReady)

theorem RouteHost.exec_sound {c : RouteOp} {w w' : RouteHost} {r : c.Ans} (he : w.exec c = some (r, w')) :
    RouteHost.step c r w w' := by
  cases c <;> obtain ⟨rfl, rfl⟩ := Prod.mk.inj (Option.some.inj he)
  case scanTenants | scanHosts | listLocal | listPeers =>
    refine ⟨fun x hx => ?_, rfl⟩
    rw [← Option.some.inj hx]
  case markReady => exact .inl rfl
  all_goals rfl

def routeOracle : Oracle routeSem Unit := ⟨fun c _ w => w.exec c, RouteHost.exec_sound⟩

/-- A tenant on the first host. -/
def routedTenants : TenantsTable := .single (runningTenant "a-0000" "i-1" 1)

/-- Two hosts, and the address the table has for the first. -/
def routedHosts (ip : Option String) : HostsTable :=
  (Table.single { emptyHost "i-1" 2 with privateIp := ip }).put { emptyHost "i-2" 1 with privateIp := some "10.0.0.2" }

theorem no_slash_a : '/' ∉ ("a-0000" : TenantId).toList := by decide

/-- The host with the tenant's local conf, and the other one, before a sync. -/
def unsynced (ip : Option String) (h : HostId) : RouteHost where
  tenants := routedTenants
  hosts := routedHosts ip
  locals := if h = "i-1" then .single "a-0000" "172.16.1.2" no_slash_a else .empty
  peers := .empty

def fileOpsCheck : (c : RouteOp) → c.Ans → RouteHost → Bool
  | .listLocal, r, _ => r.isSome
  | .removePeer _, r, _ => r
  | _, _, _ => true

theorem fileOpsCheck_sound (c : RouteOp) (r : c.Ans) (w : RouteHost) (h : fileOpsCheck c r w = true) : fileOpsOk c r w := by
  cases c <;> first | exact h | trivial

/-- The first sync of a host. -/
def firstSync (ip : Option String) (h : HostId) (n : ℕ) : Option (List (Answered Routes) × (SyncEnd × PeerState) × RouteHost) :=
  routeOracle.alone fileOpsCheck (syncTenantRoutes { instanceId := h, sha256 := id } {}) (List.replicate n ()) (unsynced ip h)

theorem firstSync_applied {ip : Option String} {h : HostId} {n : ℕ}
    (hx : (firstSync ip h n).any (fun x => x.2.1.1 = .applied) = true) :
    ∃ s' w', (syncTenantRoutes { instanceId := h, sha256 := id } {}).Runs routesOk (unsynced ip h) (.applied, s') w' := by
  obtain ⟨⟨l, ⟨e, s'⟩, w'⟩, hx, hP⟩ := (Option.any_eq_true _ _).1 hx
  obtain rfl : e = .applied := of_decide_eq_true hP
  exact ⟨s', w', (Oracle.alone_sound fileOpsCheck_sound hx).runs⟩

/-- The network of the two hosts; paths are written without escapes. -/
def twoHostFleet (w₁ w₂ : RouteHost) : Fleet where
  host h := if h = "i-1" then w₁ else w₂
  addr ip := if ip = "10.0.0.1" then some "i-1" else if ip = "10.0.0.2" then some "i-2" else none
  path := String.toList

theorem routed_ids : ∀ t ∈ routedTenants.rows, ValidId t.id := by
  intro t ht
  obtain rfl := List.mem_singleton.1 ht
  exact ⟨"a", "0000", by decide +kernel, by decide, by simp, by decide⟩

theorem routed_host {ip : Option String} {h : HostId} {row : HostRow} (hrow : (routedHosts ip).get h = some row) :
    h = "i-1" ∧ row.privateIp = ip ∨ h = "i-2" := by
  obtain ⟨hm, rfl⟩ := Table.get_eq_some.1 hrow
  rcases Table.mem_put.1 hm with rfl | ⟨hm, -⟩
  · exact .inr rfl
  · obtain rfl := List.mem_singleton.1 hm
    exact .inl ⟨rfl, rfl⟩

/-- Both hosts after their first syncs. -/
theorem routed_fleet {ip : Option String} {n₁ n₂ : ℕ}
    (h₁ : (firstSync ip "i-1" n₁).any (fun x => x.2.1.1 = .applied) = true)
    (h₂ : (firstSync ip "i-2" n₂).any (fun x => x.2.1.1 = .applied) = true) :
    ∃ w₁ w₂, SyncedFleet routedTenants (routedHosts ip) (twoHostFleet w₁ w₂) ∧
      w₁.locals = .single "a-0000" "172.16.1.2" no_slash_a ∧ w₂.locals = .empty := by
  obtain ⟨s₁, w₁, hr₁⟩ := firstSync_applied h₁
  obtain ⟨s₂, w₂, hr₂⟩ := firstSync_applied h₂
  have hl₁ : w₁.locals = .single "a-0000" "172.16.1.2" no_slash_a :=
    (@applied_peers routedTenants (routedHosts ip) routed_ids _ _ _ _ _ rfl rfl hr₁).2.1
  have hl₂ : w₂.locals = .empty := (@applied_peers routedTenants (routedHosts ip) routed_ids _ _ _ _ _ rfl rfl hr₂).2.1
  refine ⟨w₁, w₂, ⟨fun h row hrow => ?_, fun t ht _ h row hrow => ?_⟩, hl₁, hl₂⟩
  · rcases routed_host hrow with ⟨rfl, -⟩ | rfl
    · exact ⟨_, _, _, _, rfl, rfl, rfl, hr₁⟩
    · exact ⟨_, _, _, _, rfl, rfl, rfl, hr₂⟩
  · obtain rfl := List.mem_singleton.1 ht
    rcases routed_host hrow with ⟨rfl, -⟩ | rfl
    · show w₁.locals.dir.get _ ≠ none ↔ _
      rw [hl₁]
      decide
    · show w₂.locals.dir.get _ ≠ none ↔ _
      rw [hl₂]
      decide

/-- **Not every request gets through**: with a line feed in its path it matches no location on the tenant's own host, and
while the address of that host is not known none on the other one. -/
theorem peer_map_misses : ∃ F, SyncedFleet routedTenants (routedHosts none) F ∧
    (∀ uri, F.path uri = tenantPath "a-0000" "x\ny".toList → ∀ v, ¬ Served F "i-1" uri v) ∧
    ∀ uri, F.path uri = tenantPath "a-0000" "x".toList → ∀ v, ¬ Served F "i-2" uri v := by
  obtain ⟨w₁, w₂, hf, -, hl₂⟩ := @routed_fleet none 10 10 (by decide +kernel) (by decide +kernel)
  refine ⟨_, hf, fun uri hpath v hv => ?_, fun uri hpath v hv => ?_⟩
  · obtain ⟨l, hl⟩ := hv.single
    have hin : InSync routedTenants (routedHosts none) "i-1" w₁ :=
      @SyncedFleet.inSync _ _ _ "i-1" hf routed_ids { emptyHost "i-1" 2 with privateIp := none } rfl
    rw [hpath] at hl
    have := line_feed_miss hin routed_ids no_slash_a (show '\n' ∈ "x\ny".toList.dropLast by decide)
    exact absurd (hl.symm.trans this) (by simp)
  · obtain ⟨l, hl⟩ := hv.single
    have hin : InSync routedTenants (routedHosts none) "i-2" w₂ :=
      @SyncedFleet.inSync _ _ _ "i-2" hf routed_ids { emptyHost "i-2" 1 with privateIp := some "10.0.0.2" } rfl
    have hnone : w₂.locals.dir.get (confName (runningTenant "a-0000" "i-1" 1).id) = none := by
      rw [hl₂]
      rfl
    have hpeers := @unknown_miss _ _ _ _ (runningTenant "a-0000" "i-1" 1) "x".toList hin routed_ids List.mem_cons_self
      fun o row ho hrow => by
        obtain rfl := Option.some.inj ho
        rcases routed_host hrow with ⟨-, hip⟩ | he
        · exact hip
        · exact absurd he (by decide)
    have hlocals := @locals_miss w₂ (runningTenant "a-0000" "i-1" 1) "x".toList (routed_ids _ List.mem_cons_self) hnone
    rw [hpath] at hl
    have hfilter : (w₂.nginx.server .http).filter (fun l => l.hit (tenantPath "a-0000" "x".toList)) = [] := by
      rw [http_filter hin _ fixed_miss]
      exact List.append_eq_nil_iff.2 ⟨hpeers, hlocals⟩
    exact absurd (hl.symm.trans hfilter) (by simp)

/-- The request for the tenant of the other host. -/
theorem peer_map_forwards : ∃ w₁ w₂, SyncedFleet routedTenants (routedHosts (some "10.0.0.1")) (twoHostFleet w₁ w₂) ∧
    ∃ guestIp, Served (twoHostFleet w₁ w₂) "i-2" "/vm/a-0000/x" ⟨"i-1", guestIp, "/x".toList⟩ := by
  obtain ⟨w₁, w₂, hf, -, -⟩ := @routed_fleet (some "10.0.0.1") 10 11 (by decide +kernel) (by decide +kernel)
  obtain ⟨guestIp, -, hserved⟩ := (peer_map routed_ids).2 _ hf _ List.mem_cons_self rfl "i-1" _ "10.0.0.1" rfl rfl rfl
    (by decide) rfl
  have hpath : (twoHostFleet w₁ w₂).path "/vm/a-0000/x" = tenantPath "a-0000" "x".toList := by
    simp [twoHostFleet, tenantPath]
  exact ⟨w₁, w₂, hf, guestIp, hserved "i-2" _ rfl "/vm/a-0000/x" "x".toList hpath (by decide)⟩

end OpenClaw
