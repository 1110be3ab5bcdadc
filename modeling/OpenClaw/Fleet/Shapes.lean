import OpenClaw.Control.Execute
import OpenClaw.Fleet.Conduct

/-!
# Rows and closed hosts

What `conduct` gives for every interleaving of the programs.

- `rows_shaped`: a row has the fields its status speaks about. So the sweep never meets a migration without its commands,
  and three of the reasons it may give for a rollback are never given.
- `closed_host_gets_nothing`: a process for which a host is draining, deleted or unknown from its start on places nothing
  there, unless it ends a move that was begun for that host.
- `failover_picks_draining`: the detector queues a failover to a draining host.
-/

namespace OpenClaw

open Keyed Atomic

variable (cfg : Config)

/-- A row of the host says that it takes no tenants, or there is none. -/
def World.closed (w : World) (h : HostId) : Prop := ∀ row, w.hosts.get h = some row → row.closed = true

section Runs

variable {cfg} {ι : Type} {w w' : World} {c : Call} {r : c.Ans}

/-- Shaped rows answer shaped rows. -/
theorem readsShaped_step (hw : ∀ t ∈ w.tenants.rows, t.Shaped) (hs : World.step c r w w') : readsShaped c r := by
  cases c <;> first | trivial | skip
  case getTenant id =>
    intro t ht
    exact hw t (Table.mem_of_get (hs.1.symm.trans ht))
  case scanTenants f =>
    intro t ht
    obtain ⟨hm, hf⟩ := List.mem_filter.1 (hs.1.mem_iff.1 ht)
    exact ⟨hw t hm, hf⟩
  case getHost id =>
    intro h hh
    exact Table.key_of_get (hs.1.symm.trans hh)
  case scanHosts f =>
    intro h hh
    exact (List.mem_filter.1 (hs.1.mem_iff.1 hh)).2
  case shuffle hs' => exact hs.1

/-- Every row of the table stays shaped. -/
theorem shaped_step (hc : c.shapely) (hw : ∀ t ∈ w.tenants.rows, t.Shaped) (hs : World.step c r w w') :
    ∀ t ∈ w'.tenants.rows, t.Shaped := by
  have hput : ∀ {t}, t.Shaped → ∀ x ∈ (w.putTenant t).tenants.rows, x.Shaped := by
    intro t ht x hx
    rcases Table.mem_put.1 hx with rfl | ⟨hx, -⟩
    · exact ht
    · exact hw x hx
  by_cases ht : c.writesTenants = false
  · rw [step_tenants ht hs]
    exact hw
  · cases c <;> first | exact absurd rfl ht | skip
    case putTenant t =>
      rcases sent.eq_or hs with rfl | rfl
      · exact hput hc
      · exact hw
    case updTenant id u =>
      obtain ⟨t, hget, hs⟩ := hs
      rcases sent.eq_or hs with rfl | rfl
      · exact hput (TenantUpdate.shapely.apply hc (hw t (Table.mem_of_get hget)))
      · exact hw
    case condTenant id cond u =>
      obtain ⟨t, hget, hs⟩ := hs
      cases r with
      | done =>
        obtain ⟨hcond, rfl⟩ := hs
        exact hput (TenantUpdate.shapelyIf.apply hc (hw t (Table.mem_of_get hget)) hcond)
      | refused => exact hs.2 ▸ hw
      | failed => exact hs ▸ hw

/-- A closed host is not seen open. -/
theorem World.closed.not_opened {h : HostId} (hw : w.closed h) (hs : World.step c r w w') : h ∉ opened c r := by
  have hrow : ∀ row ∈ w.hosts.rows, row.instanceId = h → row.closed = true :=
    fun row hm hid => hw row (hid ▸ Table.get_of_mem hm)
  cases c <;> first | exact fun hm => hm | skip
  case getHost id =>
    rintro ⟨row, he, hid, hopen⟩
    have hm := Table.mem_of_get (hs.1.symm.trans he)
    rw [hrow row hm hid] at hopen
    cases hopen
  case scanHosts f =>
    rintro ⟨row, hm, hid, hopen⟩
    have hm := (List.mem_filter.1 (hs.1.mem_iff.1 hm)).1
    rw [hrow row hm hid] at hopen
    cases hopen

variable [DecidableEq ι] {w₀ : World} {tr : List (Ev Ctl ControlJob ι)} {cf : Conf Ctl World ControlJob ι Unit}

/-- **Rows have the fields of their status.** In every run of the programs that starts with shaped rows, every row is
shaped, and no rollback is ever written for a migration that has lost its context. -/
theorem rows_shaped (h₀ : ∀ t ∈ w₀.tenants.rows, t.Shaped)
    (h : Reach ctl (controlJobs cfg) anyStep (Conf.idle w₀) tr cf) :
    (∀ t ∈ cf.world.tenants.rows, t.Shaped) ∧
      ∀ i tid reason now ok, .call i (.updTenant tid (.rollback reason now)) ok ∈ tr → ¬ StrandedReason reason := by
  have hinv := Reach.protocol (π := conduct) (Q := fun _ _ => True)
    (I := fun tr w => (∀ t ∈ w.tenants.rows, t.Shaped) ∧ ∀ i c (r : Ctl.Ans c), .call i c r ∈ tr → Call.shapely c)
    (fun j => controlBody_conduct j) ⟨h₀, fun i c r hm => absurd hm List.not_mem_nil⟩ ?_ ?_ h
  · obtain ⟨⟨hrows, hcalls⟩, -⟩ := hinv
    exact ⟨hrows, fun i tid reason now ok hm => hcalls i _ ok hm⟩
  · rintro tr w i j w' ⟨hrows, hcalls⟩ - - hb
    obtain rfl : w' = w := hb
    refine ⟨hrows, fun i' c r hm => ?_⟩
    rcases List.mem_append.1 hm with hm | hm
    · exact hcalls i' c r hm
    · cases List.mem_singleton.1 hm
  · rintro tr w i g c r w' ⟨hrows, hcalls⟩ - hallow - hs
    refine ⟨readsShaped_step hrows hs, shaped_step hallow.1 hrows hs, fun i' c' r' hm => ?_⟩
    rcases List.mem_append.1 hm with hm | hm
    · exact hcalls i' c' r' hm
    · cases List.mem_singleton.1 hm
      exact hallow.1

/-- **A closed host gets nothing.** In every run of the programs, a process for which a host is draining, deleted or not in
the table whenever it makes a call reserves no room on that host, creates no row and assigns no tenant there, records it as
the target of no migration and launches no tenant there; what the other processes do, and what the host is like between
its calls, does not matter. The end of a move is no such placement (`TenantUpdate.chooses`): a migration or a failover
that completes writes the host it was begun for, draining or not. -/
theorem closed_host_gets_nothing {i : ι} {host : HostId} (h₀ : ∀ t ∈ w₀.tenants.rows, t.Shaped)
    (h : Reach ctl (controlJobs cfg) (fun _ w e => ∀ c r, e = .call i c r → w.closed host) (Conf.idle w₀) tr cf) :
    ∀ c (r : Ctl.Ans c), .call i c r ∈ tr → Call.places c ≠ some host := by
  have hinv := Reach.protocol (π := conduct) (Q := fun _ _ => True)
    (I := fun tr w => (∀ t ∈ w.tenants.rows, t.Shaped) ∧ (∀ g, conduct.locs tr i = some g → host ∉ g) ∧
      ∀ c (r : Ctl.Ans c), .call i c r ∈ tr → Call.places c ≠ some host)
    (fun j => controlBody_conduct j) ⟨h₀, by rintro g ⟨⟩, fun c r hm => absurd hm List.not_mem_nil⟩ ?_ ?_ h
  · exact hinv.1.2.2
  · rintro tr w k j w' ⟨hrows, hg, hcalls⟩ - - hb
    obtain rfl : w' = w := hb
    refine ⟨hrows, fun g hl => ?_, fun c r hm => ?_⟩
    · rw [Protocol.locs_snoc] at hl
      by_cases e : i = k
      · subst e
        obtain rfl : (∅ : Set HostId) = g := by simpa [Protocol.stepLoc, conduct] using hl
        exact fun hm => hm
      · exact hg g (by simpa [Protocol.stepLoc, e] using hl)
    · rcases List.mem_append.1 hm with hm | hm
      · exact hcalls c r hm
      · cases List.mem_singleton.1 hm
  · rintro tr w k g c r w' ⟨hrows, hg, hcalls⟩ hl hallow hguard hs
    refine ⟨readsShaped_step hrows hs, shaped_step hallow.1 hrows hs, fun g' hl' => ?_, fun c' r' hm => ?_⟩
    · rw [Protocol.locs_snoc] at hl'
      by_cases e : i = k
      · subst e
        have hnext : conduct.stepLoc (conduct.locs tr) (.call i c r) i = some (g ∪ opened c r) := by
          simp only [Protocol.stepLoc, hl, Function.update_self, Option.map_some]
          rfl
        obtain rfl : g ∪ opened c r = g' := Option.some.inj (hnext.symm.trans hl')
        rintro (hm | hm)
        · exact hg g hl hm
        · exact (hguard c r rfl).not_opened hs hm
      · exact hg g' (by simpa [Protocol.stepLoc, e] using hl')
    · rcases List.mem_append.1 hm with hm | hm
      · exact hcalls c' r' hm
      · cases List.mem_singleton.1 hm
        exact fun hp => hg g hl (hallow.2 host hp)

end Runs

/-! ## Runs -/

section Examples

theorem runningTenant_shaped (id : TenantId) (h : HostId) (n : Int) : (runningTenant id h n).Shaped :=
  ⟨rfl, by rintro ⟨⟩, by rintro p ⟨⟩, by rintro ⟨⟩, by rintro (h | h) <;> cases h⟩

theorem twoHosts_shaped : ∀ t ∈ twoHosts.tenants.rows, t.Shaped := by
  intro t ht
  obtain rfl := List.mem_singleton.1 ht
  exact runningTenant_shaped ..

/-- A migrate action and a sweep that fires the restore. -/
def underWayMoves : List (Move ControlJob ℕ Hint) :=
  List.flatten [[.start 0 (.fleet (.action "a-0000" (.migrate "i-2")))], List.replicate 5 (.call 0 {}),
    [.start 1 (.fleet (.sweep 0))], List.replicate 5 (.call 1 {})]

/-- The migration is in its second phase. -/
theorem rows_shaped_migrating : ∃ (tr : List (Ev Ctl ControlJob ℕ)) (cf : Conf Ctl World ControlJob ℕ Unit),
    Reach ctl (controlJobs {}) anyStep (Conf.idle twoHosts) tr cf ∧
    (∃ t ∈ cf.world.tenants.rows, t.status = .migrating ∧ t.migrationPhase = some .restore) ∧
    ∀ t ∈ cf.world.tenants.rows, t.Shaped := by
  have hplay : ((ctlOracle.play (controlJobs {}) (fun _ w => some w) (fun _ _ _ => true) [] (Conf.idle twoHosts)
      underWayMoves).any fun x => x.2.world.tenants.rows.any fun t =>
        t.status = .migrating ∧ t.migrationPhase = some .restore) = true := by
    decide +kernel
  obtain ⟨tr, cf, hr, hp⟩ := Oracle.exists_reach_of_play (fun _ _ _ h => (Option.some.inj h).symm)
    (fun _ _ _ _ => trivial) hplay
  obtain ⟨t, ht, hst⟩ := List.any_eq_true.1 hp
  exact ⟨tr, cf, hr, ⟨t, ht, of_decide_eq_true hst⟩, (rows_shaped twoHosts_shaped hr).1⟩

/-- The process meets the host closed. -/
def meetsClosed (i : ℕ) (host : HostId) (_ : List (Ev Ctl ControlJob ℕ)) (w : World) : Ev Ctl ControlJob ℕ → Bool
  | .start _ _ => true
  | .call k _ _ => k ≠ i || (w.hosts.get host).all HostRow.closed

theorem meetsClosed_sound {i : ℕ} {host : HostId} {tr : List (Ev Ctl ControlJob ℕ)} {w : World} {e : Ev Ctl ControlJob ℕ}
    (h : meetsClosed i host tr w e = true) : ∀ c r, e = .call i c r → w.closed host := by
  rintro c r rfl
  simp only [meetsClosed, ne_eq, not_true_eq_false, decide_false, Bool.false_or] at h
  intro row hrow
  simpa [hrow] using h

/-- A host is taken out of service, and a tenant is created after that. -/
def afterDrainMoves : List (Move ControlJob ℕ Hint) :=
  [.start 0 (.deregister "i-2"), .call 0 {},
    .start 1 (.fleet (.create { name := "c", vcpu := 1, memMb := 1024, dataDiskMb := 2048 }))] ++
    List.replicate 6 (.call 1 {})

/-- The tenant gets the other host, which had less room. -/
theorem closed_host_gets_nothing_create : ∃ (tr : List (Ev Ctl ControlJob ℕ)) (cf : Conf Ctl World ControlJob ℕ Unit),
    Reach ctl (controlJobs {}) (fun _ w e => ∀ c r, e = .call 1 c r → w.closed "i-2") (Conf.idle twoHosts) tr cf ∧
    (∃ t ∈ cf.world.tenants.rows, t.status = .creating ∧ t.hostId = some "i-1") ∧
    ∀ c (r : Ctl.Ans c), .call 1 c r ∈ tr → Call.places c ≠ some "i-2" := by
  have hplay : ((ctlOracle.play (controlJobs {}) (fun _ w => some w) (meetsClosed 1 "i-2") [] (Conf.idle twoHosts)
      afterDrainMoves).any fun x => x.2.world.tenants.rows.any fun t =>
        t.status = .creating ∧ t.hostId = some "i-1") = true := by
    decide +kernel
  obtain ⟨tr, cf, hr, hp⟩ := Oracle.exists_reach_of_play (fun _ _ _ h => (Option.some.inj h).symm)
    (fun _ _ _ => meetsClosed_sound) hplay
  obtain ⟨t, ht, hst⟩ := List.any_eq_true.1 hp
  exact ⟨tr, cf, hr, ⟨t, ht, of_decide_eq_true hst⟩, closed_host_gets_nothing twoHosts_shaped hr⟩

/-- The only host that reports is draining. -/
def drainingWorld : World where
  tenants := twoHosts.tenants
  hosts := ⟨[{ busyHost "i-1" 2 with az := some "az-1" },
    { emptyHost "i-2" 5 with az := some "az-2", lastHealthCheck := some 0, status := some .draining }], by decide⟩

/-- The failover takes it all the same. -/
theorem failover_picks_draining : ∃ l w, (azFailover outageConfig []).Traces ctl drainingWorld l () w ∧
    drainingWorld.closed "i-2" ∧ ∃ job ∈ w.queue, job.targetHostId = "i-2" := by
  have hrun : (ctlOracle.alone (fun _ _ _ => true) (azFailover outageConfig []) (List.replicate 9 {}) drainingWorld).any
      (fun x => x.2.2.queue.any fun job => job.targetHostId = "i-2") = true := by
    decide +kernel
  obtain ⟨⟨l, ⟨⟩, w⟩, hx, hq⟩ := (Option.any_eq_true _ _).1 hrun
  obtain ⟨job, hm, hj⟩ := List.any_eq_true.1 hq
  have ht : (azFailover outageConfig []).Traces (ctl.restrict fun _ _ _ => True) drainingWorld l () w :=
    Oracle.alone_sound (fun _ _ _ _ => trivial) hx
  refine ⟨l, w, ht.of_restrict, fun row hrow => ?_, job, hm, of_decide_eq_true hj⟩
  obtain rfl : { emptyHost "i-2" 5 with az := some "az-2", lastHealthCheck := some 0, status := some .draining } = row :=
    Option.some.inj hrow
  rfl

end Examples

end OpenClaw
