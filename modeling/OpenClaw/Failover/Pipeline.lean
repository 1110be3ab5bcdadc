import OpenClaw.Failover.Fates
import OpenClaw.Fleet.Updates

/-!
# The failover pipeline, one job at a time

Ticks of the detector, runs of its watchdog and deliveries of messages to the worker, in any order, each run to its
end; a message may be delivered again.

- `Recovers`: what a job does to the tenants it was given and to the counters; `azFailover_recovers`,
  `sweepStuckFailovers_recovers` and `processRecord_recovers` derive it.
- `failover_pipeline_safe`: what any job of any sequence does.
-/

namespace OpenClaw

open Keyed Atomic

variable (cfg : Config)

/-- What a job with the calls `l` makes of the tenants `ts` of the world `u`; `moves` are the flips. -/
structure Recovers (ts : List TenantRow) (u : World) (l : CallLog) (w : World) (moves : List (TenantRow × Execution)) :
    Prop where
  fates : ∀ t ∈ ts, ∃ x t', w.tenants.get t.id = some t' ∧ Fate cfg t l x t' ∧ ∀ y, (t, y) ∈ moves ↔ x = some y
  others : ∀ id, id ∉ ts.map TenantRow.id → w.tenants.get id = u.tenants.get id ∧ Unconcerned id l
  movers : (moves.map Prod.fst).Sublist ts
  counters : ∀ h ρ, h ≠ azStateId → w.booked h ρ = u.booked h ρ + (moves.map fun m => m.2.books m.1 h ρ).sum

section Recovers

variable {cfg} {ts ts' : List TenantRow} {u v w : World} {l l' : CallLog} {moves moves' : List (TenantRow × Execution)}

/-- Nothing happens to the tenants. -/
theorem Recovers.idle (hs : SameTables w u) (hg : ∀ t ∈ ts, u.tenants.get t.id = some t)
    (hl : ∀ id, Unconcerned id l) : Recovers cfg ts u l w [] where
  fates t ht := ⟨none, t, by rw [hs.1, hg t ht], (hl t.id).fate, fun y => by simp⟩
  others id _ := ⟨by rw [hs.1], hl id⟩
  movers := List.nil_sublist _
  counters h ρ _ := by
    rw [World.booked, hs.2]
    simp [World.booked]

theorem Takes.recovers {t : TenantRow} {x : Option Execution} (h : Takes cfg t u l x w) :
    Recovers cfg [t] u l w (x.elim [] fun y => [(t, y)]) where
  fates s hs := by
    obtain rfl := List.mem_singleton.1 hs
    obtain ⟨t', hg, hf⟩ := h.fate
    refine ⟨x, t', hg, hf, fun y => ?_⟩
    cases x with
    | none => simp
    | some z =>
      simp only [Option.elim_some, List.mem_singleton, Prod.mk.injEq, true_and, Option.some.injEq]
      exact eq_comm
  others id hid := h.others id (by simpa using hid)
  movers := by cases x <;> simp
  counters a ρ _ := by
    rw [h.counters]
    cases x <;> simp

/-- Two jobs on different tenants, one after the other. -/
theorem Recovers.append (hn : ((ts ++ ts').map TenantRow.id).Nodup) (h : Recovers cfg ts u l w moves)
    (h' : Recovers cfg ts' w l' v moves') : Recovers cfg (ts ++ ts') u (l ++ l') v (moves ++ moves') := by
  rw [List.map_append, List.nodup_append] at hn
  obtain ⟨-, -, hdis⟩ := hn
  have hnot : ∀ t ∈ ts, t.id ∉ ts'.map TenantRow.id := fun t ht hm => hdis _ (List.mem_map_of_mem ht) _ hm rfl
  have hnot' : ∀ t ∈ ts', t.id ∉ ts.map TenantRow.id := fun t ht hm => hdis _ hm _ (List.mem_map_of_mem ht) rfl
  refine ⟨fun t ht => ?_, fun id hid => ?_, ?_, fun a ρ ha => ?_⟩
  · rcases List.mem_append.1 ht with ht | ht
    · obtain ⟨x, t', hg, hf, hm⟩ := h.fates t ht
      obtain ⟨hrow, hl⟩ := h'.others t.id (hnot t ht)
      refine ⟨x, t', by rw [hrow, hg], by simpa using hf.append .nil hl, fun y => ?_⟩
      rw [List.mem_append, hm y, or_iff_left]
      intro hy
      exact hnot t ht (List.mem_map_of_mem (h'.movers.subset (List.mem_map_of_mem hy)))
    · obtain ⟨x, t', hg, hf, hm⟩ := h'.fates t ht
      refine ⟨x, t', hg, by simpa using hf.append (h.others t.id (hnot' t ht)).2 .nil, fun y => ?_⟩
      rw [List.mem_append, hm y, or_iff_right]
      intro hy
      exact hnot' t ht (List.mem_map_of_mem (h.movers.subset (List.mem_map_of_mem hy)))
  · rw [List.map_append, List.mem_append, not_or] at hid
    obtain ⟨hrow, hl⟩ := h.others id hid.1
    obtain ⟨hrow', hl'⟩ := h'.others id hid.2
    exact ⟨hrow'.trans hrow, hl.append hl'⟩
  · rw [List.map_append]
    exact h.movers.append h'.movers
  · rw [h'.counters a ρ ha, h.counters a ρ ha, List.map_append, List.sum_append, Int.add_assoc]

/-- Calls that touch neither table may come first. -/
theorem Recovers.prepend {pre : CallLog} (h : Recovers cfg ts u l w moves) (hs : SameTables u v)
    (hpre : ∀ id, Unconcerned id pre) : Recovers cfg ts v (pre ++ l) w moves where
  fates t ht := by
    obtain ⟨x, t', hg, hf, hm⟩ := h.fates t ht
    exact ⟨x, t', hg, by simpa using hf.append (hpre t.id) .nil, hm⟩
  others id hid := by
    obtain ⟨hrow, hl⟩ := h.others id hid
    exact ⟨by rw [hrow, hs.1], (hpre id).append hl⟩
  movers := h.movers
  counters a ρ ha := by
    rw [h.counters a ρ ha, World.booked, hs.2]
    rfl

end Recovers

/-! ## The detector -/

section Detector

variable {cfg} {P : TenantRow → Prop} {u : World}

theorem Unhandled.reads {ts : List TenantRow} (hU : Unhandled u P ts) : ∀ t ∈ ts, u.tenants.get t.id = some t :=
  fun t ht => (hU.rows t ht).1

/-- The first tenant of the batch is taken up, then the rest. -/
theorem Recovers.cons {t : TenantRow} {ts : List TenantRow} {l l' : CallLog} {v w : World} {x : Option Execution}
    {moves : List (TenantRow × Execution)} (hU : Unhandled u P (t :: ts)) (h : Takes cfg t u l x w)
    (h' : Recovers cfg ts w l' v moves) : ∃ moves, Recovers cfg (t :: ts) u (l ++ l') v moves :=
  ⟨_, @Recovers.append cfg [t] ts u v w l l' _ _ hU.nodup h.recovers h'⟩

theorem failoverAll_recovers (az : Az) (exclude : List Az) (now : Time) {ts : List TenantRow} (hosts : List HostRow)
    (hU : Unhandled u P ts) :
    (failoverAll cfg az exclude now ts hosts).wpt durable (fun l _ w' => ∃ moves, Recovers cfg ts u l w' moves) u := by
  induction ts generalizing u hosts with
  | nil => exact ⟨[], .idle ⟨rfl, rfl⟩ (by simp) fun _ => .nil⟩
  | cons t ts ih =>
    obtain ⟨hg, -⟩ := hU.rows t (by simp)
    unfold failoverAll
    split
    · refine Prog.wpt_mono ?_ (ih hosts (hU.tail fun _ _ => rfl))
      rintro l _ w' ⟨moves, h'⟩
      exact Recovers.cons hU (.idle ⟨rfl, rfl⟩ hg (fun _ => .nil) rfl) h'
    · rename_i target _
      split
      · refine (Prog.wpt_bind ..).2 (Prog.wpt_mono ?_ (enqueueFailover_takes az now hg))
        intro l out w' ht
        have hU' := hU.tail fun id hne => (ht.others id hne).1
        cases out with
        | none => exact Recovers.cons hU ht (.idle ⟨rfl, rfl⟩ hU'.reads fun _ => .nil)
        | some o =>
          refine Prog.wpt_mono ?_ (ih _ hU')
          rintro l' _ w'' ⟨moves, h'⟩
          exact Recovers.cons hU ht h'
      · refine (Prog.wpt_bind ..).2 (Prog.wpt_mono ?_ (failoverTenantToHost_takes az now hg))
        rintro l out w' ⟨x, -, ht⟩
        have hU' := hU.tail fun id hne => (ht.others id hne).1
        cases out with
        | none => exact Recovers.cons hU ht (.idle ⟨rfl, rfl⟩ hU'.reads fun _ => .nil)
        | some o =>
          refine Prog.wpt_mono ?_ (ih _ hU')
          rintro l' _ w'' ⟨moves, h'⟩
          exact Recovers.cons hU ht h'

/-- The tenants of the scan that an outage affects. -/
def Outage.affected (o : Outage) (tenants : List TenantRow) : List TenantRow :=
  tenants.filter fun t => t.hostId.any o.hostIds.contains

/-- The record of the failovers is no host. -/
theorem Recovers.putAzState {ts : List TenantRow} {moves : List (TenantRow × Execution)} {l : CallLog} {v w : World}
    {r : Bool} {azs : List (Az × Time)}
    (hs : World.step (.putHost { instanceId := azStateId, azLastFailover := azs }) r u v)
    (h : Recovers cfg ts v l w moves) :
    Recovers cfg ts u (⟨.putHost { instanceId := azStateId, azLastFailover := azs }, r⟩ :: l) w moves := by
  have ht : v.tenants = u.tenants := step_tenants rfl hs
  have hpre : ∀ id, Unconcerned id
      [⟨.putHost { instanceId := azStateId, azLastFailover := azs }, (r : Call.Ans (.putHost _))⟩] := by
    simp [Unconcerned, Call.launches, Call.looksUp]
  refine ⟨fun t hm => ?_, fun id hid => ?_, h.movers, fun a ρ ha => ?_⟩
  · obtain ⟨x, t', hg, hf, hm'⟩ := h.fates t hm
    exact ⟨x, t', hg, by simpa using hf.append (hpre t.id) .nil, hm'⟩
  · obtain ⟨hrow, hl⟩ := h.others id hid
    exact ⟨by rw [hrow, ht], (hpre id).append hl⟩
  · rw [h.counters a ρ ha]
    rcases sent.eq_or hs with rfl | rfl
    · rw [World.booked, World.putHost_hosts, Table.get_put_ne _ ha]
      rfl
    · rfl

theorem handleOutages_recovers (tenants : List TenantRow) (force exclude : List Az) (now : Time) (os : List Outage)
    (hosts : List HostRow) (azState : List (Az × Time))
    (hU : Unhandled u P (os.flatMap fun o => o.affected tenants)) :
    (handleOutages cfg tenants force exclude now os hosts azState).wpt durable
      (fun l _ w' => ∃ moves, Recovers cfg (os.flatMap fun o => o.affected tenants) u l w' moves) u := by
  induction os generalizing u hosts azState with
  | nil => exact ⟨[], .idle ⟨rfl, rfl⟩ (by simp) fun _ => .nil⟩
  | cons o os ih =>
    have hn := hU.nodup
    rw [List.flatMap_cons] at hU hn ⊢
    obtain ⟨hfirst, hrest⟩ := hU.split
    simp only [handleOutages, req_bind, Prog.pure_eq]
    split
    · refine Prog.wpt_mono ?_ (ih hosts azState (hrest fun _ _ => rfl))
      rintro l _ w' ⟨moves, h'⟩
      have hidle : Recovers cfg (o.affected tenants) u [] u [] := .idle ⟨rfl, rfl⟩ hfirst.reads fun _ => .nil
      exact ⟨_, hidle.append hn h'⟩
    · rintro r w₁ ⟨-, hs⟩
      have hs : World.step (.putHost _) r u w₁ := hs
      have ht₁ : w₁.tenants = u.tenants := step_tenants rfl hs
      have hU₁ : Unhandled w₁ P (o.affected tenants) := ⟨fun t ht => ht₁ ▸ hfirst.rows t ht, hfirst.nodup⟩
      refine (Prog.wpt_bind ..).2 (Prog.wpt_mono ?_ (failoverAll_recovers o.az exclude now hosts hU₁))
      rintro l out w₂ ⟨moves, h₁⟩
      have hU₂ := hrest fun id hid => (h₁.others id hid).1.trans (by rw [ht₁])
      cases out with
      | none =>
        have hidle : Recovers cfg (os.flatMap fun o => o.affected tenants) w₂ [] w₂ [] :=
          .idle ⟨rfl, rfl⟩ hU₂.reads fun _ => .nil
        exact ⟨_, (h₁.append hn hidle).putAzState hs⟩
      | some hosts =>
        refine Prog.wpt_mono ?_ (ih hosts _ hU₂)
        rintro l' _ w₃ ⟨moves', h'⟩
        exact ⟨_, (h₁.append hn h').putAzState hs⟩

/-- The outage of a zone among the hosts. -/
def outageOf (hosts : List HostRow) (az : Az) : Outage := ⟨az, (hostsOfAz hosts az).map HostRow.instanceId⟩

theorem filterMap_ite {α β : Type} (p : α → Bool) (f : α → β) (l : List α) :
    (l.filterMap fun a => if p a then some (f a) else none) = (l.filter p).map f := by
  induction l with
  | nil => rfl
  | cons a l ih => by_cases h : p a = true <;> simp [h, ih]

theorem nodup_eraseDups {α : Type} [DecidableEq α] : ∀ l : List α, l.eraseDups.Nodup
  | [] => List.nodup_nil
  | a :: l => by
    rw [List.eraseDups_cons]
    refine List.nodup_cons.2 ⟨fun h => ?_, nodup_eraseDups _⟩
    simpa using List.mem_eraseDups.1 h
  termination_by l => l.length
  decreasing_by
    have := List.length_filter_le (fun b => !b == a) l
    simp only [List.length_cons]
    omega

/-- The outages of a tick are those of different zones. -/
theorem outages_of_zones (hosts : List HostRow) (now : Time) (threshold : Int) {force : List Az} (hf : force.Nodup) :
    ∃ azs : List Az, azs.Nodup ∧ detectUnhealthyAzs hosts now threshold ++
      ((force.filter fun az => !((detectUnhealthyAzs hosts now threshold).map Outage.az).contains az).map fun az =>
        ⟨az, (hostsOfAz hosts az).map HostRow.instanceId⟩) = azs.map (outageOf hosts) := by
  obtain ⟨azs, hn, he⟩ : ∃ azs : List Az, azs.Nodup ∧ detectUnhealthyAzs hosts now threshold = azs.map (outageOf hosts) :=
    ⟨_, (nodup_eraseDups _).filter _, filterMap_ite _ (outageOf hosts) _⟩
  refine ⟨azs ++ force.filter fun az => !((detectUnhealthyAzs hosts now threshold).map Outage.az).contains az, ?_, ?_⟩
  · refine List.nodup_append.2 ⟨hn, hf.filter _, fun a ha b hb hab => ?_⟩
    obtain ⟨-, hb⟩ := List.mem_filter.1 hb
    refine absurd hb ?_
    simpa [he, outageOf, hab] using hab ▸ ha
  · rw [List.map_append, he]
    rfl

/-- No tenant is affected by two outages. -/
theorem affected_unhandled {tenants : List TenantRow} {hosts : List HostRow} {azs : List Az}
    (hU : Unhandled u P tenants) (hh : (hosts.map HostRow.instanceId).Nodup) (hn : azs.Nodup) :
    Unhandled u P ((azs.map (outageOf hosts)).flatMap fun o => o.affected tenants) := by
  refine ⟨fun t ht => ?_, ?_⟩
  · obtain ⟨o, -, ht⟩ := List.mem_flatMap.1 ht
    exact hU.rows t (List.mem_filter.1 ht).1
  · rw [List.map_flatMap, List.flatMap_map, List.nodup_flatMap]
    refine ⟨fun az _ => hU.nodup.sublist (List.filter_sublist.map _), hn.imp fun {az az'} hne => ?_⟩
    intro id h h'
    obtain ⟨t, ht, rfl⟩ := List.mem_map.1 h
    obtain ⟨t', ht', he⟩ := List.mem_map.1 h'
    obtain ⟨hm, ha⟩ := List.mem_filter.1 ht
    obtain ⟨hm', ha'⟩ := List.mem_filter.1 ht'
    obtain rfl : t' = t := List.inj_on_of_nodup_map hU.nodup hm' hm he
    obtain ⟨host, hhost, hc⟩ := (Option.any_eq_true _ _).1 ha
    obtain ⟨host', hhost', hc'⟩ := (Option.any_eq_true _ _).1 ha'
    obtain rfl : host' = host := Option.some.inj (hhost'.symm.trans hhost)
    obtain ⟨a, ham, rfl⟩ := List.mem_map.1 (List.contains_iff_mem.1 hc)
    obtain ⟨b, hbm, hab⟩ := List.mem_map.1 (List.contains_iff_mem.1 hc')
    obtain ⟨ham, haz⟩ := List.mem_filter.1 ham
    obtain ⟨hbm, hbz⟩ := List.mem_filter.1 hbm
    obtain rfl : b = a := List.inj_on_of_nodup_map hh hbm ham hab
    have haz := of_decide_eq_true haz
    have hbz := of_decide_eq_true hbz
    exact hne (Option.some.inj (haz.symm.trans hbz))

theorem azFailover_recovers {force : List Az} (hf : force.Nodup) (u : World) :
    (azFailover cfg force).wpt durable (fun l _ w' => ∃ ts moves, Unhandled u (fun _ => True) ts ∧
      Recovers cfg ts u l w' moves) u := by
  simp only [azFailover, checkAndHandleAzFailover, req_bind, Prog.pure_eq]
  rintro tenants w₁ ⟨-, hp, rfl⟩
  refine quiet_step ⟨rfl, rfl, rfl⟩ fun now w₂ h₂ => ?_
  rintro scanned w₃ ⟨-, hph, rfl⟩
  have hU : Unhandled w₃ (fun _ => True) tenants := by
    refine @Unhandled.of_scan _ _ (.status .running) _ ?_ fun _ _ => trivial
    rw [h₂.1]
    exact hp
  have hhosts : ((scanned.filter fun h => h.status ≠ some .deleted).map HostRow.instanceId).Nodup := by
    have hscan := (hph.map HostRow.instanceId).nodup_iff.2 (w₃.hosts.nodup.sublist (List.filter_sublist.map _))
    exact hscan.sublist (List.filter_sublist.map _)
  -- No tenant was looked at so far.
  have hquiet : ∀ {l : CallLog}, (∀ id, Unconcerned id l) → ∀ {w' : World}, SameTables w' w₁ →
      ∃ ts moves, Unhandled w₁ (fun _ => True) ts ∧ Recovers cfg ts w₁ l w' moves :=
    fun hl _ hs => ⟨[], [], ⟨by simp, by simp⟩, .idle hs (by simp) hl⟩
  beta_reduce
  split
  · refine hquiet ?_ h₂
    simp [Unconcerned, Call.launches, Call.looksUp]
  · refine quiet_step ⟨rfl, rfl, rfl⟩ fun state w₄ h₄ => ?_
    have h₄' := h₄.trans h₂
    split
    · refine hquiet ?_ h₄'
      simp [Unconcerned, Call.launches, Call.looksUp]
    · obtain ⟨azs, hn, he⟩ := outages_of_zones (scanned.filter fun h => h.status ≠ some .deleted) now
        cfg.azUnhealthyThresholdMinutes hf
      rw [he]
      have hU₄ : Unhandled w₄ (fun _ => True) tenants := ⟨fun t ht => h₄.1 ▸ hU.rows t ht, hU.nodup⟩
      refine Prog.wpt_mono ?_ (handleOutages_recovers tenants force _ now _ _ _ (affected_unhandled hU₄ hhosts hn))
      rintro l _ w' ⟨moves, h⟩
      have hpre : ∀ id, Unconcerned id [⟨.scanTenants (.status .running), tenants⟩, ⟨.now, now⟩,
          ⟨.scanHosts .all, scanned⟩, ⟨.getHost azStateId, state⟩] := by
        simp [Unconcerned, Call.launches, Call.looksUp]
      have hU' := affected_unhandled hU₄ hhosts hn
      exact ⟨_, moves, ⟨fun t ht => h₄'.1 ▸ hU'.rows t ht, hU'.nodup⟩, h.prepend h₄' hpre⟩

/-! ## The watchdog -/

theorem reapStuck_recovers (now : Time) {ts : List TenantRow} (hU : Unhandled u P ts) :
    (reapStuck cfg now ts).wpt durable (fun l _ w' => ∃ moves, Recovers cfg ts u l w' moves) u := by
  induction ts generalizing u with
  | nil => exact ⟨[], .idle ⟨rfl, rfl⟩ (by simp) fun _ => .nil⟩
  | cons t ts ih =>
    obtain ⟨hg, -⟩ := hU.rows t (by simp)
    simp only [reapStuck, req_bind]
    split
    · refine Prog.wpt_mono ?_ (ih (hU.tail fun _ _ => rfl))
      rintro l _ w' ⟨moves, h'⟩
      exact Recovers.cons hU (.idle ⟨rfl, rfl⟩ hg (fun _ => .nil) rfl) h'
    · let reap : TenantUpdate := .failoverEnded .failoverFailed
        ("watchdog: stuck > " ++ toString cfg.failoverWatchdogMinutes ++ "min")
      have hreap : ∀ (r : CondAns) (t' : TenantRow) (w : World), w.tenants.get t.id = some t' →
          t'.hostId = t.hostId → t'.vmNum = t.vmNum → (∀ id, id ≠ t.id → w.tenants.get id = u.tenants.get id) →
          w.hosts = u.hosts → Takes cfg t u [⟨.condTenant t.id .inFailover reap, r⟩] none w := by
        intro r t' w hg' hh hn ho hw
        refine ⟨⟨t', hg', Fate.still hh hn (by simp [Call.launches]) ?_⟩, fun id hne => ⟨ho id hne, ?_⟩, fun a ρ => ?_, rfl⟩
        · rintro ⟨key, hs, -⟩
          simp [Saw] at hs
        · simp [Unconcerned, Call.launches, Call.looksUp]
        · rw [World.booked, hw]
          exact (Int.add_zero _).symm
      refine condTenant_step hg (fun _ => ?_) fun _ => ?_
      · have ht := hreap .done (reap.apply t) _ (get_apply rfl u _) rfl rfl
          (fun id hne => Table.get_put_ne _ (by simpa using hne)) rfl
        refine Prog.wpt_mono ?_ (ih (hU.tail fun id hne => (ht.others id hne).1))
        rintro l _ w' ⟨moves, h'⟩
        exact Recovers.cons hU ht h'
      · have ht := hreap .refused t u hg rfl rfl (fun _ _ => rfl) rfl
        refine Prog.wpt_mono ?_ (ih (hU.tail fun _ _ => rfl))
        rintro l _ w' ⟨moves, h'⟩
        exact Recovers.cons hU ht h'

theorem sweepStuckFailovers_recovers (now : Time) (u : World) :
    (sweepStuckFailovers cfg now).wpt durable (fun l _ w' => ∃ ts moves, Unhandled u (fun _ => True) ts ∧
      Recovers cfg ts u l w' moves) u := by
  simp only [sweepStuckFailovers, req_bind]
  rintro ts w₁ ⟨-, hp, rfl⟩
  have hU : Unhandled w₁ (fun _ => True) ts := Unhandled.of_scan hp fun _ _ => trivial
  refine Prog.wpt_mono ?_ (reapStuck_recovers now hU)
  rintro l _ w' ⟨moves, h⟩
  have hpre : ∀ id, Unconcerned id [⟨.scanTenants .inFailover, ts⟩] := by
    simp [Unconcerned, Call.launches, Call.looksUp]
  exact ⟨ts, moves, hU, h.prepend ⟨rfl, rfl⟩ hpre⟩

/-! ## The worker -/

theorem processRecord_recovers {job : FailoverJob} (now : Time) (hkey : job.backupKey ≠ "") (u : World) :
    (processRecord cfg job now).wpt durable (fun l _ w' => ∃ ts moves, Unhandled u (fun _ => True) ts ∧
      Recovers cfg ts u l w' moves) u := by
  refine Prog.wpt_mono ?_ (processRecord_takes now hkey)
  rintro l _ w' (⟨-, hs, hl, -⟩ | ⟨t, x, hg, ht, -⟩)
  · exact ⟨[], [], ⟨by simp, by simp⟩, .idle hs (by simp) hl⟩
  · have hrow : u.tenants.get t.id = some t := by rw [Table.key_of_get hg, hg]
    exact ⟨[t], _, ⟨by simpa using hrow, by simp⟩, ht.recovers⟩

end Detector

/-! ## Messages and missing buckets -/

section Calls

variable {cfg} {P : Call → Prop}

/-- Every call of the detector is a plain one or comes from the two programs that take up a tenant. -/
theorem failoverAll_all (he : ∀ t target az now, (enqueueFailover cfg t target az now).All P)
    (hf : ∀ t target az now, (failoverTenantToHost cfg t target az now).All P) (az : Az) (exclude : List Az) (now : Time)
    (ts : List TenantRow) (hosts : List HostRow) : (failoverAll cfg az exclude now ts hosts).All P := by
  induction ts generalizing hosts with
  | nil => trivial
  | cons t ts ih =>
    unfold failoverAll
    split
    · exact ih hosts
    · split
      · refine (he ..).bind fun out => ?_
        cases out with
        | none => trivial
        | some o => exact ih _
      · refine (hf ..).bind fun out => ?_
        cases out with
        | none => trivial
        | some o => exact ih _

theorem azFailover_all (hP : ∀ c : Call, c.Bland → c.writesQueue = false → P c)
    (he : ∀ t target az now, (enqueueFailover cfg t target az now).All P)
    (hf : ∀ t target az now, (failoverTenantToHost cfg t target az now).All P) (force : List Az) :
    (azFailover cfg force).All P := by
  have hout : ∀ (tenants : List TenantRow) (exclude : List Az) (now : Time) (os : List Outage) (hosts : List HostRow)
      (azState : List (Az × Time)), (handleOutages cfg tenants force exclude now os hosts azState).All P := by
    intro tenants exclude now os
    induction os with
    | nil => intros; trivial
    | cons o os ih =>
      intro hosts azState
      simp only [handleOutages, req_bind, Prog.pure_eq]
      split
      · exact ih hosts azState
      · refine ⟨hP _ ⟨rfl, trivial, by rintro ⟨⟩, rfl, trivial, rfl⟩ rfl, fun _ => (failoverAll_all he hf ..).bind fun r => ?_⟩
        cases r with
        | none => trivial
        | some hosts => exact ih hosts _
  simp only [azFailover, checkAndHandleAzFailover, req_bind, Prog.pure_eq]
  refine ⟨hP _ ⟨rfl, trivial, trivial, rfl, trivial, trivial⟩ rfl, fun tenants =>
    ⟨hP _ ⟨rfl, trivial, trivial, rfl, trivial, trivial⟩ rfl, fun now => ?_⟩⟩
  refine ⟨hP _ ⟨rfl, trivial, trivial, rfl, trivial, trivial⟩ rfl, fun scanned => ?_⟩
  beta_reduce
  split
  · trivial
  · refine ⟨hP _ ⟨rfl, trivial, trivial, rfl, trivial, trivial⟩ rfl, fun state => ?_⟩
    split
    · trivial
    · exact hout ..

/-- A message that is sent carries a backup key. -/
def Call.sendsKeyed : Call → Prop
  | .sqsSend j => j.backupKey ≠ ""
  | _ => True

theorem Call.sendsKeyed_of_not_queue {c : Call} (h : c.writesQueue = false) : c.sendsKeyed := by
  cases c <;> trivial

theorem executeFailover_sendsKeyed (t : TenantRow) (target : HostRow) (backup : String) (n : Int) :
    (executeFailover cfg t target backup n).All Call.sendsKeyed :=
  (executeFailover_executes backup n).mono fun _ h => Call.sendsKeyed_of_not_queue h.2.2

theorem enqueueFailover_sendsKeyed (t : TenantRow) (target : HostRow) (az : Az) (now : Time) :
    (enqueueFailover cfg t target az now).All Call.sendsKeyed := by
  simp only [enqueueFailover, latestBackupKey, reserveTargetVmNum, blockFailover, req_bind, Prog.pure_eq,
    Prog.call_bind, Prog.ret_bind]
  split
  · exact ⟨trivial, fun _ => trivial⟩
  · refine ⟨trivial, fun key => ?_⟩
    simp only [Prog.bind]
    cases hk : key.filter fun k => decide (k ≠ "") with
    | none => exact ⟨trivial, fun _ => trivial⟩
    | some backup =>
      refine ⟨trivial, fun r => ?_⟩
      cases r with
      | failed => trivial
      | refused => trivial
      | done =>
        refine ⟨trivial, fun old => ⟨?_, fun _ => trivial⟩⟩
        have hne := (Option.filter_eq_some_iff.1 hk).2
        simpa [Call.sendsKeyed] using hne

theorem failoverTenantToHost_sendsKeyed (t : TenantRow) (target : HostRow) (az : Az) (now : Time) :
    (failoverTenantToHost cfg t target az now).All Call.sendsKeyed := by
  simp only [failoverTenantToHost, blockFailover, req_bind, Prog.pure_eq, Prog.call_bind, Prog.ret_bind]
  refine ((latestBackupKey_quiet cfg _).mono fun c h => Call.sendsKeyed_of_not_queue h.2.2).bind fun backup => ?_
  cases backup with
  | none => exact ⟨trivial, fun _ => trivial⟩
  | some backup =>
    refine ⟨trivial, fun r => ?_⟩
    cases r with
    | failed => trivial
    | refused => trivial
    | done => exact (executeFailover_sendsKeyed ..).bind fun _ => trivial

theorem reapStuck_sendsKeyed (now : Time) (ts : List TenantRow) : (reapStuck cfg now ts).All Call.sendsKeyed := by
  induction ts with
  | nil => trivial
  | cons t ts ih =>
    simp only [reapStuck, req_bind]
    split
    · exact ih
    · exact ⟨trivial, fun _ => ih⟩

theorem processRecord_sendsKeyed (job : FailoverJob) (now : Time) :
    (processRecord cfg job now).All Call.sendsKeyed := by
  simp only [processRecord, claim, req_bind, Prog.pure_eq, Prog.call_bind, Prog.ret_bind]
  refine ⟨trivial, fun item => ?_⟩
  cases item with
  | none => trivial
  | some t =>
    refine ⟨trivial, fun r => ?_⟩
    cases r with
    | failed => trivial
    | refused => trivial
    | done =>
      refine ⟨trivial, fun host => ?_⟩
      cases host with
      | none => exact ⟨trivial, fun _ => trivial⟩
      | some host => exact (executeFailover_sendsKeyed ..).bind fun _ => trivial

/-- Every message carries a backup key. -/
def World.Keyed (w : World) : Prop := ∀ j ∈ w.queue, j.backupKey ≠ ""

theorem World.Keyed.step {c : Call} {r : c.Ans} {w w' : World} (hc : c.sendsKeyed) (h : w.Keyed)
    (hs : World.step c r w w') : w'.Keyed := by
  by_cases hq : c.writesQueue = false
  · have := step_queue hq hs
    rwa [World.Keyed, this]
  · cases c <;> first | exact absurd rfl hq | skip
    rcases sent.eq_or hs with rfl | rfl
    · intro j hj
      rcases List.mem_append.1 hj with hj | hj
      · exact h j hj
      · exact List.mem_singleton.1 hj ▸ hc
    · exact h

/-- The only write to a tenant row blocks the tenant. -/
def Call.blocks : Call → Prop
  | .updTenant _ u => ∃ e, u = .failoverEnded .failoverBlocked e
  | .putTenant _ | .condTenant _ _ _ => False
  | _ => True

/-- Without a bucket there is no backup, so the detector blocks every tenant it takes up. -/
theorem azFailover_blocks (hb : cfg.assetsBucket = "") (force : List Az) : (azFailover cfg force).All Call.blocks := by
  refine azFailover_all (fun c h _ => ?_) (fun t target az now => ?_) (fun t target az now => ?_) force
  · obtain ⟨ht, -⟩ := h
    cases c <;> trivial
  · simp only [enqueueFailover, latestBackupKey, blockFailover, hb, req_bind, Prog.pure_eq, Prog.call_bind, Prog.ret_bind,
      if_true]
    exact ⟨⟨_, rfl⟩, fun _ => trivial⟩
  · simp only [failoverTenantToHost, latestBackupKey, blockFailover, hb, req_bind, Prog.pure_eq, Prog.call_bind,
      Prog.ret_bind, if_true]
    exact ⟨⟨_, rfl⟩, fun _ => trivial⟩

/-- The row is as it was or blocked. -/
def BlockedOrSame (u w : World) : Prop :=
  ∀ id t, u.tenants.get id = some t → ∃ t', w.tenants.get id = some t' ∧ (t' = t ∨ t'.status = .failoverBlocked)

theorem BlockedOrSame.step {c : Call} {r : c.Ans} {u w w' : World} (hc : c.blocks) (h : BlockedOrSame u w)
    (hs : World.step c r w w') : BlockedOrSame u w' := by
  by_cases ht : c.writesTenants = false
  · have := step_tenants ht hs
    rwa [BlockedOrSame, this]
  · cases c <;> first | exact absurd rfl ht | exact hc.elim | skip
    rename_i id x
    obtain ⟨e, rfl⟩ := hc
    obtain ⟨t₀, ht₀, hs⟩ := hs
    rcases sent.eq_or hs with rfl | rfl
    · intro id' t hg
      by_cases he : id' = id
      · subst he
        have hid := Table.key_of_get ht₀
        exact ⟨_, hid ▸ get_apply rfl w _, .inr rfl⟩
      · obtain ⟨t', hg', ho⟩ := h id' t hg
        refine ⟨t', ?_, ho⟩
        rw [World.putTenant_tenants, Table.get_put_ne _ (by simpa [Table.key_of_get ht₀] using he), hg']
    · exact h

end Calls

/-! ## Any sequence of jobs -/

inductive PipelineJob
  /-- A tick of the detector, with a zone the operator declared down. -/
  | detect (force : Option Az)
  /-- The watchdog of the same tick. -/
  | watch
  /-- A delivery of a message to the worker. -/
  | deliver (job : FailoverJob)

def PipelineJob.prog : PipelineJob → CtlProg Unit
  | .detect force => azFailover cfg force.toList
  | .watch => do
    let now ← req .now
    sweepStuckFailovers cfg now
  | .deliver job => do
    let now ← req .now
    processRecord cfg job now

/-- Only a message that was sent can be delivered, at any time and any number of times. -/
def PipelineJob.ready (w : World) : PipelineJob → Prop
  | .deliver job => job ∈ w.queue
  | _ => True

/-- The job may start, and DynamoDB writes succeed. -/
def processed (w₀ : World) (j : PipelineJob) (c : Call) (r : c.Ans) (_ : World) : Prop :=
  j.ready w₀ ∧ c.written r = true

/-- What a job with the calls `l` may do: every tenant has its fate, at most one flip each, and only the flips change
counters. -/
structure PipelineSafe (u : World) (l : CallLog) (w : World) (moves : List (TenantRow × Execution)) : Prop where
  fates : ∀ t ∈ u.tenants.rows, ∃ x t', w.tenants.get t.id = some t' ∧ Fate cfg t l x t' ∧
    ∀ y, (t, y) ∈ moves ↔ x = some y
  once : (moves.map fun m => m.1.id).Nodup
  counters : ∀ h ρ, h ≠ azStateId → w.booked h ρ = u.booked h ρ + (moves.map fun m => m.2.books m.1 h ρ).sum

section Jobs

variable {cfg} {u w : World}

theorem Recovers.safe {ts : List TenantRow} {l : CallLog} {moves : List (TenantRow × Execution)}
    (hU : Unhandled u (fun _ => True) ts) (h : Recovers cfg ts u l w moves) : PipelineSafe cfg u l w moves where
  fates t ht := by
    by_cases hm : t.id ∈ ts.map TenantRow.id
    · obtain ⟨s, hs, he⟩ := List.mem_map.1 hm
      have hrow := hU.reads s hs
      rw [he, Table.get_of_mem ht] at hrow
      exact Option.some.inj hrow ▸ h.fates s hs
    · obtain ⟨hrow, hl⟩ := h.others t.id hm
      refine ⟨none, t, by rw [hrow, Table.get_of_mem ht], hl.fate, fun y => ?_⟩
      simp only [reduceCtorEq, iff_false]
      exact fun hy => hm (List.mem_map_of_mem (h.movers.subset (List.mem_map_of_mem hy)))
  once := by
    have := hU.nodup.sublist (h.movers.map TenantRow.id)
    rwa [List.map_map] at this
  counters := h.counters

theorem PipelineJob.sendsKeyed (j : PipelineJob) : (j.prog cfg).All Call.sendsKeyed := by
  cases j with
  | detect force =>
    exact azFailover_all (fun c _ hq => Call.sendsKeyed_of_not_queue hq) enqueueFailover_sendsKeyed
      failoverTenantToHost_sendsKeyed _
  | watch => exact ⟨trivial, fun now => ⟨trivial, fun ts => reapStuck_sendsKeyed now ts⟩⟩
  | deliver job => exact ⟨trivial, fun now => processRecord_sendsKeyed job now⟩

/-- No message without a backup key is ever sent. -/
theorem pipeline_keyed {w₀ : World} (hq : w₀.Keyed) (hr : Rounds ctl (PipelineJob.prog cfg) processed w₀ w) :
    w.Keyed := by
  refine hr.inv hq fun w j hI => Sem.wp_restrict ?_
  exact Prog.All.wp_frame (fun c r w w' hc hI hs => hI.step hc hs) j.sendsKeyed hI

theorem PipelineJob.safe (j : PipelineJob) (hq : u.Keyed) (hj : j.ready u) :
    (j.prog cfg).wpt durable (fun l _ w' => ∃ moves, PipelineSafe cfg u l w' moves) u := by
  have hnow : ∀ now : Time, ∀ id, Unconcerned id [⟨Call.now, now⟩] := by
    simp [Unconcerned, Call.launches, Call.looksUp]
  cases j with
  | detect force =>
    refine Prog.wpt_mono ?_ (azFailover_recovers (by cases force <;> simp) u)
    rintro l _ w' ⟨ts, moves, hU, h⟩
    exact ⟨moves, h.safe hU⟩
  | watch =>
    refine quiet_step ⟨rfl, rfl, rfl⟩ fun now w₁ h₁ => ?_
    refine Prog.wpt_mono ?_ (sweepStuckFailovers_recovers now w₁)
    rintro l _ w' ⟨ts, moves, hU, h⟩
    have h := h.prepend h₁ (hnow now)
    exact ⟨moves, h.safe ⟨fun t ht => h₁.1 ▸ hU.rows t ht, hU.nodup⟩⟩
  | deliver job =>
    refine quiet_step ⟨rfl, rfl, rfl⟩ fun now w₁ h₁ => ?_
    refine Prog.wpt_mono ?_ (processRecord_recovers now (hq job hj) w₁)
    rintro l _ w' ⟨ts, moves, hU, h⟩
    have h := h.prepend h₁ (hnow now)
    exact ⟨moves, h.safe ⟨fun t ht => h₁.1 ▸ hU.rows t ht, hU.nodup⟩⟩

end Jobs

/-- **The pipeline is safe**: after any sequence of jobs, the next one moves a tenant only behind the gates of an
execution, books exactly the moves, blocks a tenant without a backup, and marks a failed execution; without a bucket
the detector leaves every tenant as it was or blocked. -/
theorem failover_pipeline_safe {w₀ w : World} (hq : w₀.Keyed)
    (hr : Rounds ctl (PipelineJob.prog cfg) processed w₀ w) (j : PipelineJob) (hj : j.ready w) :
    (j.prog cfg).wpt durable (fun l _ w' => (∃ moves, PipelineSafe cfg w l w' moves) ∧
      (cfg.assetsBucket = "" → (∃ force, j = .detect force) → BlockedOrSame w w')) w := by
  refine Prog.wpt_and (j.safe (pipeline_keyed hq hr) hj) ?_
  by_cases hb : cfg.assetsBucket = "" ∧ ∃ force, j = .detect force
  · obtain ⟨hb, force, rfl⟩ := hb
    have hstep : ∀ (c : Ctl.Call) (r : Ctl.Ans c) (w₁ w₂ : World), c.blocks → BlockedOrSame w w₁ → ctl.step c r w₁ w₂ →
        BlockedOrSame w w₂ := fun _ _ _ _ hc hI hs => hI.step hc hs
    have hkeep := Prog.All.wp_frame hstep (azFailover_blocks hb force.toList) fun id t hg => ⟨t, hg, .inl rfl⟩
    exact Prog.wpt_mono (fun _ _ _ h _ _ => h) (Prog.wpt_of_wp (Sem.wp_restrict hkeep))
  · refine Prog.wpt_mono ?_ (Prog.wpt_plays _ w)
    exact fun _ _ _ _ hb' hf => absurd ⟨hb', hf⟩ hb

/-- The detector queues the tenant of the dead zone, and the delivery of its message moves it. -/
theorem failover_pipeline_safe_outage : ∃ w l w' moves, Rounds ctl (PipelineJob.prog outageConfig) processed outageWorld w ∧
    (PipelineJob.prog outageConfig (.deliver outageJob)).Traces durable w l () w' ∧
    (w'.tenants.get "a-0000").any (fun t => t.hostId = some "i-2") = true ∧ PipelineSafe outageConfig w l w' moves := by
  have hrun : ((ctlOracle.alone (fun c r _ => c.written r) (PipelineJob.prog outageConfig (.detect none))
      (List.replicate 9 {}) outageWorld).bind fun x => (ctlOracle.alone (fun c r _ => c.written r)
        (PipelineJob.prog outageConfig (.deliver outageJob)) (List.replicate 13 {}) x.2.2).map fun y => (x, y)).any
      (fun r => decide (outageJob ∈ r.1.2.2.queue) &&
        (r.2.2.2.tenants.get "a-0000").any fun t => t.hostId = some "i-2") = true := by
    decide +kernel
  obtain ⟨⟨⟨l₁, a₁, w⟩, ⟨l, a, w'⟩⟩, hr, hP⟩ := (Option.any_eq_true _ _).1 hrun
  obtain ⟨x, hx, hr⟩ := Option.bind_eq_some_iff.1 hr
  obtain ⟨y, hy, he⟩ := Option.map_eq_some_iff.1 hr
  simp only [Prod.mk.injEq] at he
  obtain ⟨rfl, rfl⟩ := he
  rw [Bool.and_eq_true, decide_eq_true_eq] at hP
  have hdetect : ∀ c r w, c.written r = true → processed outageWorld (.detect none) c r w := fun _ _ _ h => ⟨trivial, h⟩
  have hw : Rounds ctl (PipelineJob.prog outageConfig) processed outageWorld w :=
    .round _ .refl (Oracle.alone_sound hdetect hx).runs
  have ht := Oracle.alone_sound (fun _ _ _ h => h) hy
  have hkeyed : outageWorld.Keyed := by simp [World.Keyed, outageWorld]
  have hsafe := failover_pipeline_safe outageConfig hkeyed hw (.deliver outageJob) hP.1
  obtain ⟨⟨moves, hm⟩, -⟩ := Prog.wpt_iff_traces.1 hsafe _ _ _ ht
  exact ⟨w, l, w', moves, hw, ht, hP.2, hm⟩

end OpenClaw
