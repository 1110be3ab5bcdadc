import OpenClaw.Host.PeerMap
import OpenClaw.Lib.Trace

/-!
# Syncs in sequence

The agent syncs the peer map again and again, and returns early when the digest of the desired set is the one it applied
last. Meanwhile the tables change, the scripts write local confs and reload nginx, and a migration or failover removes a
single peer conf (`Outside`). All this may happen between any two steps of a sync (`peerSem`).

- `History`: the host, the agent, the generation applied last, and whether the directory was touched since.
- `sync_spec`: what one sync does, whatever happens around its steps.
- `unchanged_synced`: when a sync returns early, and nothing touched the directory since the generation with its digest
  was applied, directory and nginx have its desired set.
- `peer_map_freezes`: a rejected generation stays on disk when the tables go back.
-/

namespace OpenClaw

open Keyed Atomic

/-! ## The host and what happens around a sync -/

/-- The host; `disturbed` says whether a conf was removed since the sync began, or could not be removed by it. -/
structure PeerWorld where
  host : RouteHost
  disturbed : Bool := false

inductive Outside : PeerWorld → PeerWorld → Prop
  | tables (v : PeerWorld) (ts : TenantsTable) (hs : HostsTable) :
      Outside v { v with host := { v.host with tenants := ts, hosts := hs } }
  /-- `launch-vm.sh` and `stop-vm.sh` write and remove local confs. -/
  | locals (v : PeerWorld) (d : LocalDir) : Outside v { v with host := { v.host with locals := d } }
  /-- A reload by a script. -/
  | reload (v : PeerWorld) : Outside v { v with host := v.host.reload }
  /-- `rm -f conf.d/tenant-peers/<tid>.conf`, sent by a migration or failover. -/
  | remove (v : PeerWorld) (tid : TenantId) :
      Outside v { host := v.host.setPeers (v.host.peers.erase (confName tid)),
                  disturbed := v.disturbed || (v.host.peers.get (confName tid)).isSome }

/-- Any number of these. -/
abbrev Meanwhile : PeerWorld → PeerWorld → Prop := Relation.ReflTransGen Outside

/-- A stale conf that `os.remove` failed to remove; the agent passes over it. -/
def RouteOp.lost (c : RouteOp) (r : c.Ans) : Bool :=
  match c, r with
  | .removePeer _, r => !r
  | _, _ => false

/-- The agent's steps, with anything in between. -/
def peerSem : Sem Routes PeerWorld :=
  ⟨fun c r v v' => ∃ u, RouteHost.step c r v.host u ∧ Meanwhile ⟨u, v.disturbed || c.lost r⟩ v'⟩

/-- The host apart from the peer directory and what nginx loaded of it. -/
structure SamePeers (v v' : PeerWorld) : Prop where
  quiet : v.disturbed = false
  peers : v'.host.peers = v.host.peers
  nginx : v'.host.nginx.peers = v.host.nginx.peers ∨ v'.host.nginx.peers = v.host.peers.include

section Meanwhile

variable {v v' : PeerWorld}

theorem erase_absent {d : ConfDir} {name : String} (h : d.get name = none) : d.erase name = d := by
  have hrows : (d.rows.filter fun f => f.name ≠ name) = d.rows :=
    List.filter_eq_self.2 fun f hf => by simpa using Table.get_eq_none.1 h f hf
  unfold Table.erase
  congr

/-- Unless a conf is removed, the directory is as before, and nginx has what it had or what lies there. -/
theorem Meanwhile.same (h : Meanwhile v v') (hd : v'.disturbed = false) : SamePeers v v' := by
  induction h with
  | refl => exact ⟨hd, rfl, .inl rfl⟩
  | tail _ hs ih =>
    cases hs with
    | tables | locals =>
      obtain ⟨hq, hp, hn⟩ := ih hd
      exact ⟨hq, hp, hn⟩
    | reload =>
      obtain ⟨hq, hp, -⟩ := ih hd
      exact ⟨hq, hp, .inr (by rw [← hp]; rfl)⟩
    | remove tid =>
      rw [Bool.or_eq_false_iff, Option.isSome_eq_false_iff, Option.isNone_iff_eq_none] at hd
      obtain ⟨hd, hnone⟩ := hd
      obtain ⟨hq, hp, hn⟩ := ih hd
      exact ⟨hq, by rw [RouteHost.setPeers, erase_absent hnone, hp], hn⟩

end Meanwhile

/-! ## The desired set of a run -/

variable (env : SyncEnv)

/-- What the run's table scans and its listing answered. -/
def tenantsSeen (l : List (Answered Routes)) : Option (List TenantRow) :=
  (l.findSome? fun x => match x with
    | ⟨.scanTenants, r⟩ => some r
    | _ => none).join

def hostsSeen (l : List (Answered Routes)) : Option (List HostRow) :=
  (l.findSome? fun x => match x with
    | ⟨.scanHosts, r⟩ => some r
    | _ => none).join

def localsSeen (l : List (Answered Routes)) : Option (List String) :=
  (l.findSome? fun x => match x with
    | ⟨.listLocal, r⟩ => some r
    | _ => none).join

/-- The desired set that a run computes from what it read. -/
def desiredOf (l : List (Answered Routes)) : Option (List TenantBlock) := do
  let tenants ← tenantsSeen l
  let hosts ← hostsSeen l
  some (desiredPeers env.instanceId ((((localsSeen l).getD []).filter isConf).map confStem) hosts tenants)

/-- The run wrote to the peer directory. -/
def touches (l : List (Answered Routes)) : Bool :=
  l.any fun x => match x.1 with
    | .removePeer _ | .writePeer _ => true
    | _ => false

/-- The confs of the directory, and what nginx loaded of it, are the set `D`. -/
structure Synced (D : List TenantBlock) (w : RouteHost) : Prop where
  files : ∀ f, f ∈ w.peers.rows ∧ isConf f.name = true ↔ ∃ b ∈ D, f = ⟨confName b.tid, b⟩
  loaded : ∀ b, b ∈ w.nginx.peers ↔ b ∈ D

theorem Synced.include {D : List TenantBlock} {d : ConfDir}
    (h : ∀ f, f ∈ d.rows ∧ isConf f.name = true ↔ ∃ b ∈ D, f = ⟨confName b.tid, b⟩) (b : TenantBlock) :
    b ∈ d.include ↔ b ∈ D := by
  rw [mem_include]
  constructor
  · intro hf
    obtain ⟨f, hf, hconf, rfl⟩ := hf
    obtain ⟨b', hb', rfl⟩ := (h f).1 ⟨hf, hconf⟩
    exact hb'
  · intro hb
    obtain ⟨hf, hconf⟩ := (h ⟨confName b.tid, b⟩).2 ⟨b, hb, rfl⟩
    exact ⟨_, hf, hconf, rfl⟩

theorem Synced.same {D : List TenantBlock} {v v' : PeerWorld} (h : Synced D v.host) (hs : SamePeers v v') :
    Synced D v'.host := by
  refine ⟨fun f => hs.peers ▸ h.files f, fun b => ?_⟩
  rcases hs.nginx with hn | hn
  · rw [hn]
    exact h.loaded b
  · rw [hn]
    exact Synced.include h.files b

theorem SamePeers.trans {v u v' : PeerWorld} (h : SamePeers v u) (h' : SamePeers u v') : SamePeers v v' := by
  refine ⟨h.quiet, h'.peers.trans h.peers, ?_⟩
  rcases h'.nginx with hn | hn
  · rw [hn]
    exact h.nginx
  · rw [hn, h.peers]
    exact .inr rfl

/-! ## Steps of a sync -/

section Steps

variable {env} {v : PeerWorld}

/-- A step that does not write to the directory, with what happens after it. -/
theorem step_same {c : RouteOp} {r : c.Ans} {v' : PeerWorld} (hc : touches [⟨c, r⟩] = false)
    (hs : peerSem.step c r v v') (hd : v'.disturbed = false) : SamePeers v v' := by
  obtain ⟨u, hs, hm⟩ := hs
  have hsame := hm.same hd
  have hfirst : SamePeers v ⟨u, v.disturbed || c.lost r⟩ := by
    have hq : v.disturbed = false := by
      have := hsame.quiet
      rw [Bool.or_eq_false_iff] at this
      exact this.1
    cases c with
    | removePeer | writePeer => cases hc
    | nginxReload =>
      have hs : if r = some true then u = v.host.reload else u = v.host ∨ u = v.host.reload := hs
      have hu : u = v.host ∨ u = v.host.reload := by
        split at hs
        · exact .inr hs
        · exact hs
      rcases hu with rfl | rfl
      · exact ⟨hq, rfl, .inl rfl⟩
      · exact ⟨hq, rfl, .inr rfl⟩
    | markReady => rcases hs with rfl | rfl <;> exact ⟨hq, rfl, .inl rfl⟩
    | monotonic | makePeerDir | nginxTest | time =>
      obtain rfl := hs
      exact ⟨hq, rfl, .inl rfl⟩
    | scanTenants | scanHosts | listLocal | listPeers =>
      obtain ⟨-, rfl⟩ := hs
      exact ⟨hq, rfl, .inl rfl⟩
  exact hfirst.trans hsame

/-- **A run that writes nothing** leaves the directory and what nginx loaded of it. -/
theorem wpt_untouched {α : Type} (p : RouteProg α) (v : PeerWorld) : p.wpt peerSem (fun l _ v' =>
    touches l = false → v'.disturbed = false → SamePeers v v') v := by
  induction p generalizing v with
  | ret a => exact fun _ hd => ⟨hd, rfl, .inl rfl⟩
  | call c k ih =>
    intro r v₁ hs
    refine Prog.wpt_mono ?_ (ih r v₁)
    intro l a v' h ht hd
    have htouch : touches [⟨c, r⟩] = false ∧ touches l = false := by
      simpa [touches] using ht
    have hrest := h htouch.2 hd
    exact (step_same htouch.1 hs hrest.quiet).trans hrest

theorem removeStale_meanwhile (want names : List String) : (removeStale want names).wp peerSem (fun _ v' =>
    v'.disturbed = false → v.disturbed = false ∧ ∀ f, f ∈ v'.host.peers.rows ↔
      f ∈ v.host.peers.rows ∧ ¬ (f.name ∈ names ∧ f.name ∉ want ∧ isConf f.name = true)) v := by
  induction names generalizing v with
  | nil => exact fun hd => ⟨hd, by simp⟩
  | cons n names ih =>
    unfold removeStale
    split
    · rename_i hstale
      intro r v₁ hs
      obtain ⟨u, hs, hm⟩ := hs
      refine Prog.wp_mono ?_ (@ih v₁)
      intro _ v' h hd
      obtain ⟨hd₁, hrows⟩ := h hd
      obtain ⟨hq, hp, -⟩ := hm.same hd₁
      cases r with
      | false =>
        rw [Bool.or_eq_false_iff] at hq
        exact absurd hq.2 (by simp [RouteOp.lost])
      | true =>
        obtain rfl : u = v.host.setPeers (v.host.peers.erase n) := hs
        refine ⟨by simpa [RouteOp.lost] using hq, fun f => ?_⟩
        rw [hrows, hp]
        simp only [RouteHost.setPeers, Table.mem_erase, List.mem_cons]
        by_cases hn : f.name = n
        · simp [hn, hstale]
        · simp [hn]
    · rename_i hkeep
      refine Prog.wp_mono ?_ (@ih v)
      intro _ v' h hd
      obtain ⟨hd₁, hrows⟩ := h hd
      refine ⟨hd₁, fun f => ?_⟩
      rw [hrows]
      by_cases hn : f.name = n
      · subst hn
        simp [hkeep]
      · simp [hn]

theorem writePeers_meanwhile (bs : List TenantBlock) (hn : (bs.map TenantBlock.tid).Nodup) :
    (writePeers bs).wp peerSem (fun ok v' => ok = true → v'.disturbed = false → v.disturbed = false ∧
      ∀ f, f ∈ v'.host.peers.rows ↔ (∃ b ∈ bs, f = ⟨confName b.tid, b⟩) ∨
        f ∈ v.host.peers.rows ∧ ∀ b ∈ bs, f.name ≠ confName b.tid) v := by
  induction bs generalizing v with
  | nil => exact fun _ hd => ⟨hd, by simp⟩
  | cons b bs ih =>
    obtain ⟨hb, hn⟩ := List.nodup_cons.1 hn
    simp only [writePeers, rt_bind]
    intro r v₁ hs
    obtain ⟨u, hs, hm⟩ := hs
    cases r with
    | false =>
      intro he
      cases he
    | true =>
      obtain rfl : u = v.host.setPeers (v.host.peers.put ⟨confName b.tid, b⟩) := hs
      refine Prog.wp_mono ?_ (@ih v₁ hn)
      intro ok v' h hok hd
      obtain ⟨hd₁, hrows⟩ := h hok hd
      obtain ⟨hq, hp, -⟩ := hm.same hd₁
      refine ⟨by simpa [RouteOp.lost] using hq, fun f => ?_⟩
      rw [hrows, hp]
      simp only [RouteHost.setPeers, Table.mem_put, List.mem_cons, exists_eq_or_imp, forall_eq_or_imp]
      constructor
      · intro h
        rcases h with h | ⟨rfl | ⟨hf, hne⟩, hno⟩
        · exact .inl (.inr h)
        · exact .inl (.inl rfl)
        · exact .inr ⟨hf, hne, hno⟩
      · intro h
        rcases h with (rfl | h) | ⟨hf, hne, hno⟩
        · refine .inr ⟨.inl rfl, fun b' hb' he => ?_⟩
          exact hb (confName_injective he ▸ List.mem_map_of_mem hb')
        · exact .inl h
        · exact .inr ⟨.inr ⟨hf, hne⟩, hno⟩

/-- The end of a sync that got as far as writing: its hash is recorded only if it was applied, and then the directory is
loaded. -/
theorem reloadPeers_meanwhile (s : PeerState) (desired : List TenantBlock) : (reloadPeers env s desired).wp peerSem
    (fun x v' => x.1 ≠ .unchanged ∧ (x.1 ≠ .applied → x.2.lastPeerHash = s.lastPeerHash) ∧ (x.1 = .applied →
      x.2.lastPeerHash = some (peerDigest env desired) ∧ (v'.disturbed = false → v.disturbed = false ∧
        v'.host.peers = v.host.peers ∧ v'.host.nginx.peers = v.host.peers.include))) v := by
  simp only [reloadPeers, rt_bind, Prog.pure_eq]
  intro check v₁ h₁
  rcases check with _ | _ | _
  · exact ⟨by simp, fun _ => rfl, fun he => by cases he⟩
  · exact ⟨by simp, fun _ => rfl, fun he => by cases he⟩
  intro reloaded v₂ h₂
  rcases reloaded with _ | _ | _
  · exact ⟨by simp, fun _ => rfl, fun he => by cases he⟩
  · exact ⟨by simp, fun _ => rfl, fun he => by cases he⟩
  intro now v₃ h₃ r v₄ h₄
  refine ⟨by simp, fun he => absurd rfl he, fun _ => ⟨rfl, fun hd => ?_⟩⟩
  have hs₄ := step_same (c := .markReady) rfl h₄ hd
  have hs₃ := step_same (c := .time) rfl h₃ hs₄.quiet
  -- the reload itself loads what lies in the directory
  have hs₂ : SamePeers ⟨v₁.host.reload, v₁.disturbed⟩ v₂ := by
    obtain ⟨u, hu, hm⟩ := h₂
    obtain rfl : u = v₁.host.reload := hu
    have := hm.same hs₃.quiet
    exact ⟨by simpa [RouteOp.lost] using this.quiet, this.peers, this.nginx⟩
  have hs₁ := step_same (c := .nginxTest) rfl h₁ hs₂.quiet
  have hrest := (hs₂.trans hs₃).trans hs₄
  refine ⟨hs₁.quiet, hrest.peers.trans hs₁.peers, ?_⟩
  rw [← hs₁.peers]
  exact hrest.nginx.elim id id

theorem applyPeers_meanwhile (s : PeerState) (desired : List TenantBlock) (hn : (desired.map TenantBlock.tid).Nodup) :
    (applyPeers env s desired).wp peerSem (fun x v' => x.1 ≠ .unchanged ∧
      (x.1 ≠ .applied → x.2.lastPeerHash = s.lastPeerHash) ∧ (x.1 = .applied →
        x.2.lastPeerHash = some (peerDigest env desired) ∧ (v'.disturbed = false → Synced desired v'.host))) v := by
  have hraised : SyncEnd.raised ≠ .unchanged ∧ (SyncEnd.raised ≠ .applied → s.lastPeerHash = s.lastPeerHash) ∧
      ∀ P, SyncEnd.raised = .applied → P := ⟨by simp, fun _ => rfl, fun _ he => by cases he⟩
  simp only [applyPeers, rt_bind, Prog.pure_eq]
  intro made v₁ h₁
  cases made with
  | false => exact ⟨hraised.1, hraised.2.1, hraised.2.2 _⟩
  | true =>
    simp only [if_true]
    intro names v₂ h₂
    cases names with
    | none => exact ⟨hraised.1, hraised.2.1, hraised.2.2 _⟩
    | some names =>
      obtain ⟨u, ⟨hp, rfl⟩, hm⟩ := h₂
      have hp : names.Perm (v₁.host.peers.rows.map ConfFile.name) := hp names rfl
      refine (Prog.wp_bind ..).2 (Prog.wp_mono ?_ (removeStale_meanwhile _ names))
      intro _ v₃ hstale
      refine (Prog.wp_bind ..).2 (Prog.wp_mono ?_ (writePeers_meanwhile desired hn))
      intro ok v₄ hwrite
      cases ok with
      | false => exact ⟨hraised.1, hraised.2.1, hraised.2.2 _⟩
      | true =>
        refine Prog.wp_mono ?_ (reloadPeers_meanwhile s desired)
        intro x v' h
        obtain ⟨hne, hkeep, happ⟩ := h
        refine ⟨hne, hkeep, fun he => ?_⟩
        obtain ⟨hhash, hload⟩ := happ he
        refine ⟨hhash, fun hd => ?_⟩
        obtain ⟨hd₄, hpeers, hnginx⟩ := hload hd
        obtain ⟨hd₃, hrows₄⟩ := hwrite rfl hd₄
        obtain ⟨hd₂, hrows₃⟩ := hstale hd₃
        have hpeers₂ : v₂.host.peers = v₁.host.peers := (hm.same hd₂).peers
        have hfiles : ∀ f, f ∈ v₄.host.peers.rows ∧ isConf f.name = true ↔
            ∃ b ∈ desired, f = ⟨confName b.tid, b⟩ := by
          intro f
          rw [hrows₄, hrows₃, hpeers₂]
          constructor
          · intro h
            obtain ⟨h | ⟨⟨hf, hkeep⟩, hno⟩, hconf⟩ := h
            · exact h
            · refine absurd ⟨hp.mem_iff.2 (List.mem_map_of_mem hf), fun hw => ?_, hconf⟩ hkeep
              obtain ⟨b, hb, he⟩ := List.mem_map.1 hw
              exact hno b hb he.symm
          · intro h
            obtain ⟨b, hb, rfl⟩ := h
            exact ⟨.inl ⟨b, hb, rfl⟩, isConf_confName _⟩
        refine ⟨fun f => hpeers ▸ hfiles f, fun b => ?_⟩
        rw [hnginx]
        exact Synced.include hfiles b

/-! ## One sync -/

/-- What a sync did, as far as its calls `l`, its end and the recorded hash go. -/
structure SyncFacts (env : SyncEnv) (s : PeerState) (l : List (Answered Routes)) (x : SyncEnd × PeerState)
    (v' : PeerWorld) : Prop where
  unchanged : x.1 = .unchanged → touches l = false ∧ ∃ D, desiredOf env l = some D ∧
    s.lastPeerHash = some (peerDigest env D)
  applied : x.1 = .applied → ∃ D, desiredOf env l = some D ∧ x.2.lastPeerHash = some (peerDigest env D) ∧
    (v'.disturbed = false → Synced D v'.host)
  kept : x.1 ≠ .applied → x.2.lastPeerHash = s.lastPeerHash

/-- **One sync**, whatever happens around its steps. -/
theorem sync_spec (s : PeerState) : (syncTenantRoutes env s).wpt peerSem (fun l x v' => SyncFacts env s l x v') v := by
  have hend : ∀ {l : List (Answered Routes)} {e : SyncEnd} {s' : PeerState} {v' : PeerWorld}, e ≠ .unchanged →
      e ≠ .applied → s'.lastPeerHash = s.lastPeerHash → SyncFacts env s l (e, s') v' :=
    fun h h' hs => ⟨fun he => absurd he h, fun he => absurd he h', fun _ => hs⟩
  simp only [syncTenantRoutes, rt_bind, Prog.pure_eq]
  split
  · exact hend (by simp) (by simp) rfl
  intro now v₁ h₁
  dsimp only
  split
  · exact hend (by simp) (by simp) rfl
  simp only [syncRoutes, rt_bind, Prog.pure_eq]
  intro tenants v₂ h₂
  cases tenants with
  | none => exact hend (by simp) (by simp) rfl
  | some tenants =>
    obtain ⟨u, ⟨htenants, rfl⟩, -⟩ := h₂
    have htenants : tenants.Perm v₁.host.tenants.rows := htenants tenants rfl
    intro hosts v₃ h₃
    cases hosts with
    | none => exact hend (by simp) (by simp) rfl
    | some hosts =>
      intro names v₄ h₄
      have hdesired : ∀ l, desiredOf env (⟨.monotonic, now⟩ :: ⟨.scanTenants, some tenants⟩ ::
          ⟨.scanHosts, some hosts⟩ :: ⟨.listLocal, names⟩ :: l) =
          some (desiredPeers env.instanceId (((names.getD []).filter isConf).map confStem) hosts tenants) := by
        intro l
        cases names <;> rfl
      dsimp only
      split
      · rename_i hhash
        exact ⟨fun _ => ⟨rfl, _, hdesired [], hhash⟩, fun he => absurd he (by simp), fun _ => rfl⟩
      · have hn : ((desiredPeers env.instanceId (((names.getD []).filter isConf).map confStem) hosts tenants).map
            TenantBlock.tid).Nodup :=
          ((htenants.map _).nodup_iff.2 v₁.host.tenants.nodup).sublist (desiredPeers_sublist _)
        refine Prog.wpt_mono ?_ (Prog.wpt_of_wp (applyPeers_meanwhile _ _ hn))
        intro l x v' h
        obtain ⟨hne, hkeep, happ⟩ := h
        refine ⟨fun he => absurd he hne, fun he => ?_, hkeep⟩
        obtain ⟨hhash, hsync⟩ := happ he
        exact ⟨_, hdesired l, hhash, hsync⟩

end Steps

/-! ## Sequences of syncs -/

/-- The host and the agent, with two facts about what happened. -/
structure History where
  world : RouteHost
  agent : PeerState := {}
  /-- The generation applied last by this agent process. -/
  applied : Option (List TenantBlock) := none
  /-- Since that sync began, another one wrote to the directory, or a conf was removed by someone else. -/
  touched : Bool := false

/-- After a sync with the calls `l`, the result `x` and the host `v`. -/
def History.after (H : History) (l : List (Answered Routes)) (x : SyncEnd × PeerState) (v : PeerWorld) : History where
  world := v.host
  agent := x.2
  applied := if x.1 = .applied then desiredOf env l else H.applied
  touched := if x.1 = .applied then v.disturbed else H.touched || touches l || v.disturbed

/-- Syncs one after the other, with anything between them and between their steps; the agent may be restarted. -/
inductive Syncs (w₀ : RouteHost) : History → Prop
  | start : Syncs w₀ { world := w₀ }
  | restart {H : History} : Syncs w₀ H → Syncs w₀ { H with agent := {}, applied := none }
  | outside {H : History} {v : PeerWorld} : Syncs w₀ H → Meanwhile ⟨H.world, false⟩ v →
      Syncs w₀ { H with world := v.host, touched := H.touched || v.disturbed }
  | sync {H : History} {l : List (Answered Routes)} {x : SyncEnd × PeerState} {v : PeerWorld} : Syncs w₀ H →
      (syncTenantRoutes env H.agent).Traces peerSem ⟨H.world, false⟩ l x v → Syncs w₀ (H.after env l x v)

/-- The recorded hash is that of the generation applied last, and an untouched directory still has that generation. -/
structure HistoryInv (H : History) : Prop where
  hash : H.agent.lastPeerHash = H.applied.map (peerDigest env)
  synced : ∀ D, H.applied = some D → H.touched = false → Synced D H.world

section Sequences

variable {env} {w₀ : RouteHost} {H : History} {l : List (Answered Routes)} {x : SyncEnd × PeerState} {v : PeerWorld}

theorem HistoryInv.after (h : HistoryInv env H)
    (hs : (syncTenantRoutes env H.agent).Traces peerSem ⟨H.world, false⟩ l x v) : HistoryInv env (H.after env l x v) := by
  obtain ⟨-, happ, hkeep⟩ := Prog.wpt_iff_traces.1 (sync_spec H.agent) _ _ _ hs
  by_cases he : x.1 = .applied
  · obtain ⟨D, hD, hhash, hsync⟩ := happ he
    refine ⟨?_, fun D' hD' ht => ?_⟩
    · simp only [History.after, if_pos he, hD, hhash, Option.map_some]
    · simp only [History.after, if_pos he] at hD' ht
      obtain rfl := Option.some.inj (hD.symm.trans hD')
      exact hsync ht
  · refine ⟨?_, fun D hD ht => ?_⟩
    · simp only [History.after, if_neg he, hkeep he, h.hash]
    · simp only [History.after, if_neg he, Bool.or_eq_false_iff] at hD ht
      obtain ⟨⟨ht, hl⟩, hd⟩ := ht
      have hsame := Prog.wpt_iff_traces.1 (wpt_untouched (syncTenantRoutes env H.agent) ⟨H.world, false⟩) _ _ _ hs hl hd
      exact (h.synced D hD ht).same hsame

theorem Syncs.inv (h : Syncs env w₀ H) : HistoryInv env H := by
  induction h with
  | start => exact ⟨rfl, fun D hD => by cases hD⟩
  | restart => exact ⟨rfl, fun D hD => by cases hD⟩
  | outside _ hm ih =>
    refine ⟨ih.hash, fun D hD ht => ?_⟩
    rw [Bool.or_eq_false_iff] at ht
    exact (ih.synced D hD ht.1).same (hm.same ht.2)
  | sync _ hs ih => exact ih.after hs

/-- Nothing touched the directory since the generation applied last, and equal digests stand for equal sets. -/
structure Undisturbed (env : SyncEnv) (H : History) (l : List (Answered Routes)) (v : PeerWorld) : Prop where
  untouched : H.touched = false
  quiet : v.disturbed = false
  digest : ∀ D₀ D, H.applied = some D₀ → desiredOf env l = some D → peerDigest env D₀ = peerDigest env D →
    ∀ b, b ∈ D₀ ↔ b ∈ D

theorem Synced.congr {D D' : List TenantBlock} {w : RouteHost} (h : Synced D w) (hb : ∀ b, b ∈ D ↔ b ∈ D') :
    Synced D' w := by
  refine ⟨fun f => (h.files f).trans ?_, fun b => (h.loaded b).trans (hb b)⟩
  exact exists_congr fun b => and_congr_left fun _ => hb b

/-- **An early return.** After any sequence of syncs, whatever happened around their steps: a sync that returns because
the digest is the one applied last, in an undisturbed directory, leaves its desired set in the directory and in nginx. -/
theorem unchanged_synced (h : Syncs env w₀ H)
    (hs : (syncTenantRoutes env H.agent).Traces peerSem ⟨H.world, false⟩ l x v) (he : x.1 = .unchanged)
    (hq : Undisturbed env H l v) : ∃ D, desiredOf env l = some D ∧ Synced D v.host := by
  obtain ⟨hun, -, -⟩ := Prog.wpt_iff_traces.1 (sync_spec H.agent) _ _ _ hs
  obtain ⟨hl, D, hD, hhash⟩ := hun he
  have hinv := h.inv
  rw [hinv.hash] at hhash
  obtain ⟨D₀, hD₀, hdigest⟩ := Option.map_eq_some_iff.1 hhash
  have hsame := Prog.wpt_iff_traces.1 (wpt_untouched (syncTenantRoutes env H.agent) ⟨H.world, false⟩) _ _ _ hs hl hq.quiet
  exact ⟨D, hD, ((hinv.synced D₀ hD₀ hq.untouched).same hsame).congr (hq.digest D₀ D hD₀ hD hdigest)⟩

end Sequences

/-! ## A generation that was rejected -/

section Freeze

/-- A step with nothing around it. -/
theorem calm {v : PeerWorld} {c : RouteOp} {r : c.Ans} {u : RouteHost} (h : RouteHost.step c r v.host u) :
    peerSem.step c r v ⟨u, v.disturbed || c.lost r⟩ := ⟨u, h, .refl⟩

theorem calm_write {v : PeerWorld} {f : ConfFile} : peerSem.step (.writePeer f) true v
    ⟨v.host.setPeers (v.host.peers.put f), v.disturbed || false⟩ :=
  calm (c := .writePeer f) (r := true) (by simp [RouteHost.step])

theorem calm_reload {v : PeerWorld} : peerSem.step .nginxReload (some true) v ⟨v.host.reload, v.disturbed || false⟩ :=
  calm (c := .nginxReload) (r := some true) (by simp [RouteHost.step])

/-- The agent of `i-1`; the digest is the text itself. -/
def freezeEnv : SyncEnv := { instanceId := "i-1", sha256 := id }

/-- Besides `i-1` there is a host `i-2`; `i-1` has no VM. -/
def freezeHost (ts : TenantsTable) (d : ConfDir) : RouteHost where
  tenants := ts
  hosts := .single { instanceId := "i-2", privateIp := some "10.0.0.2" }
  locals := .empty
  peers := d

/-- A tenant on `i-2`, and its peer conf. -/
def peerTenant : TenantRow := runningTenant "b-0000" "i-2" 1

def peerBlock : TenantBlock := renderPeerConf "b-0000" "10.0.0.2"

def peerFile : ConfFile := ⟨confName "b-0000", peerBlock⟩

theorem digest_nil : peerDigest freezeEnv [] = "" := by simp [peerDigest, freezeEnv, String.join]

theorem digest_peer : peerDigest freezeEnv [peerBlock] ≠ "" := by
  simp [peerDigest, freezeEnv, String.join, peerBlock, renderPeerConf]

theorem whole {α : Type} {xs : List α} (ys : List α) (h : some xs = some ys) : ys.Perm xs := Option.some.inj h ▸ .refl _

theorem sync_on : ¬ (freezeEnv.tenantsTable = false ∨ freezeEnv.hostsTable = false ∨ freezeEnv.instanceId = "") := by
  decide

/-- The calls of a sync up to the digest: it reads the tenants `ts` and the host `i-2`. -/
def syncReads (t : Time) (ts : List TenantRow) : List (Answered Routes) :=
  [⟨.monotonic, t⟩, ⟨.scanTenants, some ts⟩, ⟨.scanHosts, some [{ instanceId := "i-2", privateIp := some "10.0.0.2" }]⟩,
    ⟨.listLocal, some []⟩]

/-- A sync that is due reads the tables and goes on with the desired set. -/
theorem traces_reads (ts : TenantsTable) {s : PeerState} {t : Time} {d : ConfDir} {n : NginxConf} {ready : Bool}
    {l : List (Answered Routes)} {x : SyncEnd × PeerState} {v : PeerWorld}
    (ht : ¬ t - s.lastRouteSync < freezeEnv.routeSyncInterval)
    (h : (if s.lastPeerHash = some (peerDigest freezeEnv (desiredPeers "i-1" []
        [{ instanceId := "i-2", privateIp := some "10.0.0.2" }] ts.rows)) then
          pure (.unchanged, { s with lastRouteSync := t })
        else applyPeers freezeEnv { s with lastRouteSync := t } (desiredPeers "i-1" []
          [{ instanceId := "i-2", privateIp := some "10.0.0.2" }] ts.rows) : RouteProg (SyncEnd × PeerState)).Traces
      peerSem ⟨{ freezeHost ts d with nginx := n, ready := ready }, false⟩ l x v) :
    (syncTenantRoutes freezeEnv s).Traces peerSem ⟨{ freezeHost ts d with nginx := n, ready := ready }, false⟩
      (syncReads t ts.rows ++ l) x v := by
  rw [syncTenantRoutes, if_neg sync_on, rt_bind]
  refine .call (calm (c := .monotonic) (r := t) rfl) ?_
  rw [if_neg ht, syncRoutes, rt_bind]
  refine .call (calm (c := .scanTenants) (r := some ts.rows) ⟨whole, rfl⟩) ?_
  dsimp only
  refine .call (calm (c := .scanHosts) (r := some [{ instanceId := "i-2", privateIp := some "10.0.0.2" }])
    ⟨whole, rfl⟩) ?_
  simp only [rt_bind]
  refine .call (calm (c := .listLocal) (r := some []) ⟨whole, rfl⟩) ?_
  exact h

/-- `nginx -t` and the reload go through. -/
theorem reload_applied {s : PeerState} {D : List TenantBlock} {w : RouteHost} :
    (reloadPeers freezeEnv s D).Traces peerSem ⟨w, false⟩
      [⟨.nginxTest, some true⟩, ⟨.nginxReload, some true⟩, ⟨.time, (0 : Time)⟩, ⟨.markReady, ()⟩]
      (.applied, { s with lastPeerHash := some (peerDigest freezeEnv D), lastSuccess := 0, entries := D.length })
      ⟨w.reload.setReady, false⟩ := by
  rw [reloadPeers, rt_bind]
  refine .call (calm (c := .nginxTest) (r := some true) rfl) ?_
  dsimp only
  refine .call calm_reload ?_
  simp only [rt_bind]
  refine .call (calm (c := .time) (r := (0 : Time)) rfl) ?_
  refine .call (calm (c := .markReady) (r := ()) (.inl rfl)) ?_
  exact .ret _ _

/-- Without tenants the empty generation is applied. -/
theorem sync_empty : (syncTenantRoutes freezeEnv {}).Traces peerSem ⟨freezeHost .empty .empty, false⟩
    (syncReads 60000000 [] ++ [⟨.makePeerDir, true⟩, ⟨.listPeers, some []⟩, ⟨.nginxTest, some true⟩,
      ⟨.nginxReload, some true⟩, ⟨.time, (0 : Time)⟩, ⟨.markReady, ()⟩])
    (.applied, { lastRouteSync := 60000000, lastPeerHash := some "" })
    ⟨(freezeHost .empty .empty).reload.setReady, false⟩ := by
  refine traces_reads _ (by decide) ?_
  rw [if_neg (by simp), applyPeers, rt_bind]
  refine .call (calm (c := .makePeerDir) (r := true) rfl) ?_
  simp only [if_true, rt_bind]
  refine .call (calm (c := .listPeers) (r := some []) ⟨whole, rfl⟩) ?_
  rw [← digest_nil]
  exact reload_applied

/-- The first tenant's conf is written into the empty directory. -/
theorem peer_written {s : PeerState} {w : RouteHost} {l : List (Answered Routes)} {x : SyncEnd × PeerState} {v : PeerWorld}
    (hw : w.peers = .empty)
    (h : (reloadPeers freezeEnv s [peerBlock]).Traces peerSem ⟨w.setPeers (.single peerFile), false⟩ l x v) :
    (applyPeers freezeEnv s [peerBlock]).Traces peerSem ⟨w, false⟩
      (⟨.makePeerDir, true⟩ :: ⟨.listPeers, some []⟩ :: ⟨.writePeer peerFile, true⟩ :: l) x v := by
  rw [applyPeers, rt_bind]
  refine .call (calm (c := .makePeerDir) (r := true) rfl) ?_
  simp only [if_true, rt_bind]
  have hlist : ∀ ys, some ([] : List String) = some ys → ys.Perm (w.peers.rows.map ConfFile.name) := by
    rw [hw]
    exact whole
  refine .call (calm (c := .listPeers) (r := some []) ⟨hlist, rfl⟩) ?_
  show Prog.Traces peerSem (writePeers [peerBlock] >>= fun ok =>
    if ok then reloadPeers freezeEnv _ [peerBlock] else pure (.raised, _)) _ _ _ _
  simp only [writePeers, rt_bind, Prog.call_bind]
  refine .call calm_write ?_
  rw [hw]
  exact h

/-- The set of a sync that reads the tenant. -/
theorem desired_peer : desiredPeers "i-1" [] [{ instanceId := "i-2", privateIp := some "10.0.0.2" }]
    (Table.single peerTenant : TenantsTable).rows = [peerBlock] := by
  decide +kernel

/-- The agent after the rejected sync. -/
def afterRejected : PeerState := { lastRouteSync := 120000000, lastPeerHash := some "", reloadFailures := 1 }

/-- With the tenant, its conf is written, and `nginx -t` rejects the configuration. -/
theorem sync_rejected : (syncTenantRoutes freezeEnv { lastRouteSync := 60000000, lastPeerHash := some "" }).Traces peerSem
    ⟨{ (freezeHost .empty .empty).reload.setReady with tenants := .single peerTenant }, false⟩
    (syncReads 120000000 [peerTenant] ++ [⟨.makePeerDir, true⟩, ⟨.listPeers, some []⟩, ⟨.writePeer peerFile, true⟩,
      ⟨.nginxTest, some false⟩])
    (.rejected, afterRejected)
    ⟨{ (freezeHost .empty .empty).reload.setReady with tenants := .single peerTenant, peers := .single peerFile },
      false⟩ := by
  refine traces_reads (.single peerTenant) (by decide) ?_
  rw [desired_peer, if_neg fun h => digest_peer (Option.some.inj h).symm]
  refine peer_written rfl ?_
  rw [reloadPeers, rt_bind]
  refine .call (calm (c := .nginxTest) (r := some false) rfl) ?_
  exact .ret _ _

/-- The tenant is gone again: the digest is the one applied last. -/
theorem sync_unchanged : (syncTenantRoutes freezeEnv afterRejected).Traces peerSem
    ⟨{ (freezeHost .empty .empty).reload.setReady with peers := .single peerFile }, false⟩
    (syncReads 180000000 [] ++ [])
    (.unchanged, { lastRouteSync := 180000000, lastPeerHash := some "", reloadFailures := 1 })
    ⟨{ (freezeHost .empty .empty).reload.setReady with peers := .single peerFile }, false⟩ := by
  refine traces_reads .empty (by decide) ?_
  have hdesired : desiredPeers "i-1" [] [{ instanceId := "i-2", privateIp := some "10.0.0.2" }]
      (Table.empty : TenantsTable).rows = [] := rfl
  have hhash : afterRejected.lastPeerHash = some "" := rfl
  rw [hdesired, digest_nil, if_pos hhash]
  exact .ret _ _

/-- The agent after it has applied the tenant's conf. -/
def afterPeer : PeerState := { lastRouteSync := 60000000, lastPeerHash := some (peerDigest freezeEnv [peerBlock]), entries := 1 }

/-- With the tenant from the start, its conf is written and loaded. -/
theorem sync_peer : (syncTenantRoutes freezeEnv {}).Traces peerSem ⟨freezeHost (.single peerTenant) .empty, false⟩
    (syncReads 60000000 [peerTenant] ++ [⟨.makePeerDir, true⟩, ⟨.listPeers, some []⟩, ⟨.writePeer peerFile, true⟩,
      ⟨.nginxTest, some true⟩, ⟨.nginxReload, some true⟩, ⟨.time, (0 : Time)⟩, ⟨.markReady, ()⟩])
    (.applied, afterPeer) ⟨(freezeHost (.single peerTenant) (.single peerFile)).reload.setReady, false⟩ := by
  refine traces_reads (.single peerTenant) (by decide) ?_
  rw [desired_peer, if_neg (by simp)]
  exact peer_written rfl reload_applied

/-- A minute later nothing has changed. -/
theorem sync_again : (syncTenantRoutes freezeEnv afterPeer).Traces peerSem
    ⟨(freezeHost (.single peerTenant) (.single peerFile)).reload.setReady, false⟩ (syncReads 120000000 [peerTenant] ++ [])
    (.unchanged, { afterPeer with lastRouteSync := 120000000 })
    ⟨(freezeHost (.single peerTenant) (.single peerFile)).reload.setReady, false⟩ := by
  refine traces_reads (.single peerTenant) (by decide) ?_
  have hhash : afterPeer.lastPeerHash = some (peerDigest freezeEnv [peerBlock]) := rfl
  rw [desired_peer, if_pos hhash]
  exact .ret _ _

/-- The tables change between two syncs. -/
theorem Syncs.tables {H : History} (h : Syncs freezeEnv (freezeHost .empty .empty) H) (ts : TenantsTable) :
    Syncs freezeEnv (freezeHost .empty .empty)
      { H with world := { H.world with tenants := ts }, touched := H.touched || false } :=
  h.outside (v := ⟨{ H.world with tenants := ts }, false⟩) (.single (.tables ⟨H.world, false⟩ ts H.world.hosts))

/-- The conf of the other host's tenant lies in the directory, and nginx has loaded it. -/
theorem unchanged_synced_again : ∃ H l x v, Syncs freezeEnv (freezeHost (.single peerTenant) .empty) H ∧
    (syncTenantRoutes freezeEnv H.agent).Traces peerSem ⟨H.world, false⟩ l x v ∧ x.1 = .unchanged ∧
    v.host.peers.get (confName "b-0000") = some peerFile ∧ ∃ D, desiredOf freezeEnv l = some D ∧ Synced D v.host := by
  have h₁ := (@Syncs.start freezeEnv (freezeHost (.single peerTenant) .empty)).sync sync_peer
  have hdesired : ∀ t l, desiredOf freezeEnv (syncReads t [peerTenant] ++ l) = some [peerBlock] := by
    intro t l
    exact congrArg some desired_peer
  refine ⟨_, _, _, _, h₁, sync_again, rfl, by decide +kernel, unchanged_synced h₁ sync_again rfl ⟨rfl, rfl, ?_⟩⟩
  intro D₀ D hD₀ hD _ b
  obtain rfl := Option.some.inj ((hdesired _ _).symm.trans hD₀)
  obtain rfl := Option.some.inj ((hdesired _ _).symm.trans hD)
  exact Iff.rfl

/-- **The peer map freezes.** The conf of a rejected generation is on disk when the tables are as they were, and the
sync returns early. -/
theorem peer_map_freezes : ∃ H l x v, Syncs freezeEnv (freezeHost .empty .empty) H ∧
    (syncTenantRoutes freezeEnv H.agent).Traces peerSem ⟨H.world, false⟩ l x v ∧ x.1 = .unchanged ∧
    desiredOf freezeEnv l = some [] ∧ ¬ Synced [] v.host := by
  have h₁ := (@Syncs.start freezeEnv (freezeHost .empty .empty)).sync sync_empty
  have h₂ := (h₁.tables (.single peerTenant)).sync sync_rejected
  have h₃ := h₂.tables .empty
  refine ⟨_, _, _, _, h₃, sync_unchanged, rfl, rfl, fun h => ?_⟩
  obtain ⟨b, hb, -⟩ := (h.files peerFile).1 ⟨List.mem_cons_self, isConf_confName _⟩
  exact absurd hb List.not_mem_nil

end Freeze

end OpenClaw
