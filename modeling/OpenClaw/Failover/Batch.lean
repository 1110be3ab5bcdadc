import OpenClaw.Failover.Pipeline

/-!
# The capacity of a failover batch

The detector picks the targets of a batch from one scan of the hosts. What it has given out so far it carries in the rows
in memory: on the queue path the VM count and the vCPUs, on the synchronous path the VM count alone. Nothing is booked
in the table before the flip.

- `HoldsBatch`: with the batch on top, the hosts are within what their totals and the VM cap allow.
- `Tracks`: what a row in memory knows of the batch.
- `Accounted`: a row in memory that has room for a tenant is right about it. `holdsBatch_snoc_iff`: a step keeps the bounds
  exactly when the row of its target is right.
- `azFailover_batch`: the run of the detector; `failover_batch_within_bounds`: the batch once it is flipped.
-/

namespace OpenClaw

open Keyed Atomic

variable (cfg : Config)

/-! ## Batches -/

/-- A tenant and the target it was given. -/
abbrev Given := TenantRow × HostId

/-- The ids of both. -/
def Given.key (g : Given) : TenantId × HostId := (g.1.id, g.2)

/-- What the flip of the tenant books. -/
def Given.books (g : Given) : Amounts := atHost g.2 (Res.pick (orDefault g.1.vcpu 2) (orDefault g.1.memMb 4096) 1)

/-- What the flips of a batch book. -/
def batchLoad (gs : List Given) : Amounts := fun h ρ => (gs.map fun g => g.books h ρ).sum

/-- The vCPUs the batch asks of a host when its targets are picked. -/
def askedVcpu (gs : List Given) (h : HostId) : Int :=
  (gs.map fun g => if h = g.2 then orDefault g.1.vcpu 1 else 0).sum

/-- The counters `f` of the hosts are within their bounds. -/
structure Bounded (h : HostRow) (f : Amounts) : Prop where
  vcpu : f h.instanceId .vcpu ≤ (allocatable cfg h).1
  mem : f h.instanceId .memMb ≤ (allocatable cfg h).2
  vms : 0 < cfg.maxVmsPerHost → f h.instanceId .vmCount ≤ cfg.maxVmsPerHost

/-- The scanned hosts are within their bounds with the batch on top. -/
def HoldsBatch (hosts : List HostRow) (gs : List Given) : Prop :=
  ∀ h ∈ hosts, Bounded cfg h fun a ρ => h.count ρ + batchLoad gs a ρ

/-- The scanned row after the batch, as the detector keeps it in memory. -/
def HostRow.inMemory (gs : List Given) (h : HostRow) : HostRow :=
  { h with
    vmCount := some (h.vmCount.getD 0 + batchLoad gs h.instanceId .vmCount)
    usedVcpu := some (h.usedVcpu.getD 0 + if cfg.failoverQueueUrl then askedVcpu gs h.instanceId else 0) }

/-- The scanned row after the flips of the batch. -/
def HostRow.flipped (gs : List Given) (h : HostRow) : HostRow :=
  { h with
    vmCount := some (h.vmCount.getD 0 + batchLoad gs h.instanceId .vmCount)
    usedVcpu := some (h.usedVcpu.getD 0 + batchLoad gs h.instanceId .vcpu)
    usedMemMb := some (h.usedMemMb.getD 0 + batchLoad gs h.instanceId .memMb) }

/-- If the host has room in memory for the tenant, after the batch, then it has room once the batch is flipped. A tenant
without a vCPU count is picked as one vCPU and booked as two. -/
def Accounted (pre : List Given) (t : TenantRow) (h : HostRow) : Prop :=
  hostFits cfg (h.inMemory cfg pre) (orDefault t.vcpu 1) (orDefault t.memMb 4096) = true →
    hostFits cfg (h.flipped pre) (orDefault t.vcpu 2) (orDefault t.memMb 4096) = true

instance {pre : List Given} {t : TenantRow} {h : HostRow} : Decidable (Accounted cfg pre t h) :=
  inferInstanceAs (Decidable (_ → _))

/-- What the row `m` in memory knows of the scanned row `h` and the batch. -/
structure Tracks (h : HostRow) (gs : List Given) (m : HostRow) : Prop where
  id : m.instanceId = h.instanceId
  totals : m.totalVcpu = h.totalVcpu ∧ m.totalMemMb = h.totalMemMb
  vms : m.vmCount.getD 0 = h.vmCount.getD 0 + batchLoad gs h.instanceId .vmCount
  vcpu : m.usedVcpu.getD 0 = h.usedVcpu.getD 0 + if cfg.failoverQueueUrl then askedVcpu gs h.instanceId else 0
  mem : m.usedMemMb = h.usedMemMb

/-- The target of `g` was picked when its row in memory knew of the batch `pre`. -/
def Fitted (hosts : List HostRow) (pre : List Given) (g : Given) : Prop :=
  ∃ h ∈ hosts, h.instanceId = g.2 ∧
    hostFits cfg (h.inMemory cfg pre) (orDefault g.1.vcpu 1) (orDefault g.1.memMb 4096) = true

section Load

variable {gs gs' : List Given} {g : Given} {h : HostId} {ρ : Res}

@[simp] theorem batchLoad_nil : batchLoad [] h ρ = 0 := rfl

@[simp] theorem batchLoad_append : batchLoad (gs ++ gs') h ρ = batchLoad gs h ρ + batchLoad gs' h ρ := by
  simp [batchLoad]

@[simp] theorem batchLoad_singleton : batchLoad [g] h ρ = g.books h ρ := by simp [batchLoad]

@[simp] theorem askedVcpu_nil : askedVcpu [] h = 0 := rfl

@[simp] theorem askedVcpu_append : askedVcpu (gs ++ gs') h = askedVcpu gs h + askedVcpu gs' h := by simp [askedVcpu]

@[simp] theorem askedVcpu_singleton : askedVcpu [g] h = if h = g.2 then orDefault g.1.vcpu 1 else 0 := by
  simp [askedVcpu]

theorem Given.books_other (hne : h ≠ g.2) : g.books h ρ = 0 := by simp [Given.books, atHost, hne]

/-- With sizes that are not negative a longer batch books more. -/
theorem batchLoad_le (hs : ∀ g ∈ gs', 0 ≤ g.1.vcpu ∧ 0 ≤ g.1.memMb) :
    batchLoad gs h ρ ≤ batchLoad (gs ++ gs') h ρ := by
  have hpos : ∀ g ∈ gs', 0 ≤ Given.books g h ρ := by
    intro g hg
    obtain ⟨hv, hm⟩ := hs g hg
    unfold Given.books atHost
    split
    · cases ρ <;> simp only [Res.pick, orDefault] <;> omega
    · exact Int.le_refl 0
  have hsum : 0 ≤ batchLoad gs' h ρ := by
    refine List.sum_nonneg fun x hx => ?_
    obtain ⟨g, hg, rfl⟩ := List.mem_map.1 hx
    exact hpos g hg
  rw [batchLoad_append]
  omega

end Load

/-! ## One step -/

section Step

variable {cfg} {hosts : List HostRow} {pre gs : List Given} {g : Given} {h m : HostRow}

/-- A row that tracks the batch has room where the row of the detector has it. -/
theorem Tracks.fits (ht : Tracks cfg h gs m) (v n : Int) : hostFits cfg m v n = hostFits cfg (h.inMemory cfg gs) v n := by
  have hfree : hostFree cfg m = hostFree cfg (h.inMemory cfg gs) := by
    simp [hostFree, allocatable, HostRow.inMemory, ht.totals.1, ht.totals.2, ht.vcpu, ht.mem]
  have hvms : m.vmCount.getD 0 = (h.inMemory cfg gs).vmCount.getD 0 := ht.vms
  unfold hostFits
  rw [hfree, hvms]

/-- Room for one more tenant on its target is what keeps the bounds there: the VM cap is kept anyway, because the rows in
memory carry the count. -/
theorem bounded_snoc_iff (he : h.instanceId = g.2)
    (hfit : hostFits cfg (h.inMemory cfg pre) (orDefault g.1.vcpu 1) (orDefault g.1.memMb 4096) = true) :
    (Bounded cfg h fun a ρ => h.count ρ + batchLoad (pre ++ [g]) a ρ) ↔
      hostFits cfg (h.flipped pre) (orDefault g.1.vcpu 2) (orDefault g.1.memMb 4096) = true := by
  obtain ⟨-, -, hcap⟩ := (hostFits_iff cfg).1 hfit
  have hcap : cfg.maxVmsPerHost ≠ 0 → h.vmCount.getD 0 + batchLoad pre h.instanceId .vmCount < cfg.maxVmsPerHost := hcap
  have hbooks : ∀ ρ, Given.books g h.instanceId ρ = Res.pick (orDefault g.1.vcpu 2) (orDefault g.1.memMb 4096) 1 ρ :=
    fun ρ => by rw [Given.books, atHost, if_pos he]
  rw [hostFits_iff]
  constructor
  · rintro ⟨hv, hm, -⟩
    simp only [HostRow.count, Res.pick, batchLoad_append, batchLoad_singleton, hbooks] at hv hm
    refine ⟨?_, ?_, hcap⟩
    · simp only [hostFree, HostRow.flipped, allocatable, Option.getD_some] at hv ⊢
      omega
    · simp only [hostFree, HostRow.flipped, allocatable, Option.getD_some] at hm ⊢
      omega
  · rintro ⟨hv, hm, -⟩
    simp only [hostFree, HostRow.flipped, allocatable, Option.getD_some] at hv hm
    refine ⟨?_, ?_, fun h0 => ?_⟩
    · simp only [HostRow.count, Res.pick, batchLoad_append, batchLoad_singleton, hbooks, allocatable]
      omega
    · simp only [HostRow.count, Res.pick, batchLoad_append, batchLoad_singleton, hbooks, allocatable]
      omega
    · have := hcap (by omega)
      simp only [HostRow.count, Res.pick, batchLoad_append, batchLoad_singleton, hbooks]
      omega

/-- **A step keeps the bounds exactly when the row of its target is right.** -/
theorem holdsBatch_snoc_iff (hw : HoldsBatch cfg hosts pre) (hn : (hosts.map HostRow.instanceId).Nodup)
    (hf : Fitted cfg hosts pre g) :
    HoldsBatch cfg hosts (pre ++ [g]) ↔ ∀ h ∈ hosts, h.instanceId = g.2 → Accounted cfg pre g.1 h := by
  obtain ⟨h', hh', he', hfit⟩ := hf
  constructor
  · intro hall h hh he _
    obtain rfl : h' = h := List.inj_on_of_nodup_map hn hh' hh (he'.trans he.symm)
    exact (bounded_snoc_iff he hfit).1 (hall h' hh)
  · intro hacc h hh
    by_cases he : h.instanceId = g.2
    · obtain rfl : h' = h := List.inj_on_of_nodup_map hn hh' hh (he'.trans he.symm)
      exact (bounded_snoc_iff he hfit).2 (hacc h' hh he hfit)
    · have hsame : ∀ ρ, batchLoad (pre ++ [g]) h.instanceId ρ = batchLoad pre h.instanceId ρ := fun ρ => by
        rw [batchLoad_append, batchLoad_singleton, Given.books_other he, Int.add_zero]
      obtain ⟨hv, hm, hc⟩ := hw h hh
      exact ⟨by simpa only [hsame] using hv, by simpa only [hsame] using hm, by simpa only [hsame] using hc⟩

/-- **A batch keeps the bounds exactly when the row of the target is right at each of its steps.** -/
theorem holdsBatch_iff_accounted (hn : (hosts.map HostRow.instanceId).Nodup) (h0 : HoldsBatch cfg hosts [])
    (hf : ∀ pre g, pre ++ [g] <+: gs → Fitted cfg hosts pre g) :
    (∀ pre, pre <+: gs → HoldsBatch cfg hosts pre) ↔
      ∀ pre g, pre ++ [g] <+: gs → ∀ h ∈ hosts, h.instanceId = g.2 → Accounted cfg pre g.1 h := by
  constructor
  · intro hw pre g hp
    exact (holdsBatch_snoc_iff (hw pre ((List.prefix_append pre [g]).trans hp)) hn (hf pre g hp)).1 (hw _ hp)
  · intro hr pre
    induction pre using List.reverseRecOn with
    | nil => exact fun _ => h0
    | append_singleton pre g ih =>
      intro hp
      exact (holdsBatch_snoc_iff (ih ((List.prefix_append pre [g]).trans hp)) hn (hf pre g hp)).2 (hr pre g hp)

end Step

/-! ## The rows in memory -/

section Rows

variable {cfg} {hosts ms : List HostRow} {gs gs' : List Given} {h m : HostRow}

theorem Tracks.scanned (h : HostRow) : Tracks cfg h [] h where
  id := rfl
  totals := ⟨rfl, rfl⟩
  vms := by simp
  vcpu := by simp
  mem := rfl

/-- What is given to another host does not matter. -/
theorem Tracks.other (ht : Tracks cfg h gs m) (ho : ∀ g ∈ gs', h.instanceId ≠ g.2) : Tracks cfg h (gs ++ gs') m := by
  have h0 : ∀ ρ, batchLoad gs' h.instanceId ρ = 0 := by
    intro ρ
    refine List.sum_eq_zero fun x hx => ?_
    obtain ⟨g, hg, rfl⟩ := List.mem_map.1 hx
    exact Given.books_other (ho g hg)
  have h1 : askedVcpu gs' h.instanceId = 0 := by
    refine List.sum_eq_zero fun x hx => ?_
    obtain ⟨g, hg, rfl⟩ := List.mem_map.1 hx
    exact if_neg (ho g hg)
  exact ⟨ht.id, ht.totals, by rw [batchLoad_append, h0, ht.vms, Int.add_zero],
    by rw [askedVcpu_append, h1, ht.vcpu, Int.add_zero], ht.mem⟩

/-- Every row in memory knows of the batch. -/
def Carries (cfg : Config) (hosts : List HostRow) (gs : List Given) (ms : List HostRow) : Prop :=
  List.Forall₂ (fun h m => Tracks cfg h gs m) hosts ms

/-- The row of the target is brought up to date. -/
theorem Carries.tallied (hc : Carries cfg hosts gs ms) {target : HostId} {f : HostRow → HostRow}
    (ho : ∀ g ∈ gs', g.2 = target)
    (hf : ∀ h m, h.instanceId = target → Tracks cfg h gs m → Tracks cfg h (gs ++ gs') (f m)) :
    Carries cfg hosts (gs ++ gs') (tally ms target f) := by
  refine List.forall₂_map_right_iff.2 (hc.imp fun h m ht => ?_)
  split
  · rename_i he
    exact hf h m (ht.id ▸ he) ht
  · rename_i hne
    exact ht.other fun g hg he => hne (by rw [ht.id, he, ho g hg])

theorem Tracks.queued {t : TenantRow} (hq : cfg.failoverQueueUrl = true) (ht : Tracks cfg h gs m) :
    Tracks cfg h (gs ++ [(t, h.instanceId)]) (tallyQueued t.vcpu m) where
  id := ht.id
  totals := ht.totals
  vms := by simp [tallyQueued, ht.vms, Given.books, atHost, Res.pick, Int.add_assoc]
  vcpu := by simp [tallyQueued, ht.vcpu, hq, Int.add_assoc]
  mem := ht.mem

theorem Tracks.attempted {t : TenantRow} (hq : cfg.failoverQueueUrl = false) (moved : Bool) (ht : Tracks cfg h gs m) :
    Tracks cfg h (gs ++ if moved then [(t, h.instanceId)] else []) (tallyAttempt moved m) where
  id := ht.id
  totals := ht.totals
  vms := by cases moved <;> simp [tallyAttempt, ht.vms, Given.books, atHost, Res.pick, Int.add_assoc]
  vcpu := by simp [tallyAttempt, ht.vcpu, hq]
  mem := ht.mem

theorem Carries.scanned (hc : Carries cfg hosts gs ms) (hm : m ∈ ms) : ∃ h ∈ hosts, Tracks cfg h gs m := by
  induction hc with
  | nil => cases hm
  | cons h₁ _ ih =>
    rcases List.mem_cons.1 hm with rfl | hm
    · exact ⟨_, List.mem_cons_self, h₁⟩
    · obtain ⟨h, hh, ht⟩ := ih hm
      exact ⟨h, List.mem_cons_of_mem _ hh, ht⟩

/-- The rows after a synchronous attempt. -/
theorem Carries.attempted {t : TenantRow} {target : HostId} (hq : cfg.failoverQueueUrl = false)
    (hc : Carries cfg hosts gs ms) (o : FailoverOutcome) :
    Carries cfg hosts (gs ++ if o = .moved then [(t, target)] else [])
      (if o = .blocked then ms else tally ms target (tallyAttempt (o = .moved))) := by
  by_cases hb : o = .blocked
  · simpa [hb] using hc
  · rw [if_neg hb]
    refine hc.tallied (fun g hg => ?_) fun h m hid hm => ?_
    · split at hg
      · rw [List.mem_singleton.1 hg]
      · cases hg
    · have := @Tracks.attempted cfg gs h m t hq (o = .moved) hm
      simpa [hid] using this

/-- The target that is picked fits in memory. -/
theorem Carries.pick {now : Time} {exclude : List Az} {t : TenantRow} {target : HostRow} (hc : Carries cfg hosts gs ms)
    (hp : pickTargetHost cfg ms now exclude (orDefault t.vcpu 1) (orDefault t.memMb 4096) = some target) :
    Fitted cfg hosts gs (t, target.instanceId) := by
  obtain ⟨hm, hfit⟩ := (mem_rankHosts cfg).1 (List.mem_of_head? hp)
  obtain ⟨h, hh, ht⟩ := hc.scanned (List.mem_filter.1 hm).1
  exact ⟨h, hh, ht.id.symm, (ht.fits _ _).symm.trans hfit⟩

end Rows

/-! ## What was given out -/

/-- The messages sent among the calls: their tenants and targets. -/
def sentOf (l : CallLog) : List (TenantId × HostId) :=
  l.filterMap fun
    | ⟨.sqsSend j, true⟩ => some (j.tenantId, j.targetHostId)
    | _ => none

/-- The tenants that were given a target: those queued, or those moved. -/
def handedOut (l : CallLog) : List (TenantId × HostId) := if cfg.failoverQueueUrl then sentOf l else failoversOf l

section HandedOut

variable {cfg} {E : Sem Ctl World} {t : TenantRow} {target : HostRow} {l l' : CallLog} {w : World}

theorem handedOut_nil : handedOut cfg [] = [] := ite_self _

theorem handedOut_append : handedOut cfg (l ++ l') = handedOut cfg l ++ handedOut cfg l' := by
  unfold handedOut
  split
  · exact List.filterMap_append
  · exact failoversOf_append l l'

theorem handedOut_plain (h : ∀ x ∈ l, x.1.writesTenants = false ∧ x.1.writesQueue = false) : handedOut cfg l = [] := by
  unfold handedOut
  split
  · refine List.filterMap_eq_nil_iff.2 fun x hx => ?_
    obtain ⟨-, hq⟩ := h x hx
    obtain ⟨c, r⟩ := x
    cases c <;> first | rfl | exact Bool.noConfusion hq
  · refine List.filterMap_eq_nil_iff.2 fun x hx => ?_
    obtain ⟨ht, -⟩ := h x hx
    obtain ⟨c, r⟩ := x
    cases c <;> first | rfl | exact Bool.noConfusion ht

theorem sentOf_plain (h : ∀ x ∈ l, x.1.writesQueue = false) : sentOf l = [] := by
  refine List.filterMap_eq_nil_iff.2 fun x hx => ?_
  have hq := h x hx
  obtain ⟨c, r⟩ := x
  cases c <;> first | rfl | exact Bool.noConfusion hq

/-- The queue path sends the message of the tenant, or none. -/
theorem enqueueFailover_sent (az : Az) (now : Time) : (enqueueFailover cfg t target az now).wpt E
    (fun l out _ => sentOf l = if out = some .queued then [(t.id, target.instanceId)] else []) w := by
  simp only [enqueueFailover, reserveTargetVmNum, blockFailover, req_bind, Prog.pure_eq, Prog.call_bind, Prog.ret_bind]
  refine (Prog.wpt_bind ..).2 (Prog.wpt_mono ?_ (Prog.wpt_all (latestBackupKey_quiet cfg t.id) w))
  intro l key w₁ hl
  have hl : sentOf l = [] := sentOf_plain fun x hx => (hl x hx).2.2
  have happ : ∀ l', sentOf (l ++ l') = sentOf l' := fun l' => by
    rw [sentOf, List.filterMap_append, ← sentOf, hl]
    rfl
  cases key with
  | none => exact fun _ _ _ => happ _
  | some backup =>
    intro r w₂ _
    cases r with
    | failed => exact happ _
    | refused => exact happ _
    | done =>
      intro old w₃ _ ok w₄ _
      refine (happ _).trans ?_
      cases ok <;> rfl

end HandedOut

/-! ## The detector -/

/-- What the detector did for the tenants `ts`, after the batch `gs₀`: it gave out `gs`; `ms` are the rows in memory at
the end, if it goes on. -/
structure Batched (hosts : List HostRow) (gs₀ : List Given) (ts : List TenantRow) (u : World) (l : CallLog)
    (ms : Option (List HostRow)) (w : World) (gs : List Given) : Prop where
  handed : gs.map Given.key = handedOut cfg l
  tenants : (gs.map Prod.fst).Sublist ts
  fitted : ∀ pre g, pre ++ [g] <+: gs → Fitted cfg hosts (gs₀ ++ pre) g
  counters : ∀ h ρ, h ≠ azStateId →
    w.booked h ρ = u.booked h ρ + if cfg.failoverQueueUrl then 0 else batchLoad gs h ρ
  carried : ∀ ms', ms = some ms' → Carries cfg hosts (gs₀ ++ gs) ms'

/-- What ends with `g` inside a concatenation ends inside one of the parts. -/
theorem snoc_prefix_append {α : Type} {pre l l' : List α} {a : α} (h : pre ++ [a] <+: l ++ l') :
    pre ++ [a] <+: l ∨ ∃ pre', pre = l ++ pre' ∧ pre' ++ [a] <+: l' := by
  obtain ⟨s, hs⟩ := h
  rcases List.append_eq_append_iff.1 hs with ⟨c, hl, -⟩ | ⟨c, hp, hl'⟩
  · exact .inl ⟨c, hl.symm⟩
  · rcases List.eq_nil_or_concat c with rfl | ⟨c', b, rfl⟩
    · exact .inl ⟨[], by simpa using hp⟩
    · rw [List.concat_eq_append, ← List.append_assoc] at hp
      obtain ⟨rfl, hb⟩ := List.append_inj' hp rfl
      obtain rfl : a = b := by simpa using hb
      exact .inr ⟨c', rfl, s, by simpa using hl'.symm⟩

section Batched

variable {cfg} {hosts ms : List HostRow} {gs₀ gs gs' : List Given} {ts ts' : List TenantRow} {u v w : World}
  {l l' : CallLog} {out out' : Option (List HostRow)} {P : TenantRow → Prop}

/-- Nothing is given out. -/
theorem Batched.none (hl : handedOut cfg l = []) (hb : ∀ h ρ, h ≠ azStateId → w.booked h ρ = u.booked h ρ)
    (hc : ∀ ms', out = some ms' → Carries cfg hosts gs₀ ms') : Batched cfg hosts gs₀ ts u l out w [] where
  handed := by rw [hl, List.map_nil]
  tenants := List.nil_sublist _
  fitted pre g hp := by simp at hp
  counters h ρ hne := by simp [hb h ρ hne]
  carried ms' he := by simpa using hc ms' he

theorem Batched.append (h : Batched cfg hosts gs₀ ts u l out w gs)
    (h' : Batched cfg hosts (gs₀ ++ gs) ts' w l' out' v gs') :
    Batched cfg hosts gs₀ (ts ++ ts') u (l ++ l') out' v (gs ++ gs') where
  handed := by rw [List.map_append, h.handed, h'.handed, handedOut_append]
  tenants := by
    rw [List.map_append]
    exact h.tenants.append h'.tenants
  fitted pre g hp := by
    rcases snoc_prefix_append hp with hp₁ | ⟨pre', rfl, hp₁⟩
    · exact h.fitted pre g hp₁
    · rw [← List.append_assoc]
      exact h'.fitted pre' g hp₁
  counters a ρ hne := by
    rw [h'.counters a ρ hne, h.counters a ρ hne]
    split
    · simp
    · rw [batchLoad_append, Int.add_assoc]
  carried ms' he := by
    rw [← List.append_assoc]
    exact h'.carried ms' he

/-- One tenant is given a target. -/
theorem Batched.one {t : TenantRow} {target : HostId} (hl : handedOut cfg l = [(t.id, target)])
    (hf : Fitted cfg hosts gs₀ (t, target)) (hb : ∀ h ρ, h ≠ azStateId →
      w.booked h ρ = u.booked h ρ + if cfg.failoverQueueUrl then 0 else batchLoad [(t, target)] h ρ)
    (hc : ∀ ms', out = some ms' → Carries cfg hosts (gs₀ ++ [(t, target)]) ms') :
    Batched cfg hosts gs₀ [t] u l out w [(t, target)] where
  handed := hl.symm
  tenants := List.Sublist.refl _
  fitted pre g hp := by
    cases pre with
    | nil =>
      obtain rfl : g = (t, target) := by simpa using hp
      simpa using hf
    | cons x pre => simp at hp
  counters := hb
  carried := hc

/-- The queue path and one tenant. -/
theorem enqueueFailover_batch {t : TenantRow} {target : HostRow} (az : Az) (now : Time)
    (hq : cfg.failoverQueueUrl = true) (hg : u.tenants.get t.id = some t) (hc : Carries cfg hosts gs₀ ms)
    (hf : Fitted cfg hosts gs₀ (t, target.instanceId)) :
    (enqueueFailover cfg t target az now).wpt durable (fun l out w' => ∃ gs, Batched cfg hosts gs₀ [t] u l
      (out.map fun o => if o = .queued then tally ms target.instanceId (tallyQueued t.vcpu) else ms) w' gs) u := by
  refine Prog.wpt_mono ?_ (Prog.wpt_and (enqueueFailover_takes az now hg) (enqueueFailover_sent az now))
  rintro l out w' ⟨ht, hs⟩
  have hl : handedOut cfg l = sentOf l := if_pos hq
  have hb : ∀ h ρ, w'.booked h ρ = u.booked h ρ := fun h ρ => (ht.counters h ρ).trans (Int.add_zero _)
  by_cases ho : out = some .queued
  · subst ho
    refine ⟨_, .one (by rw [hl, hs, if_pos rfl]) hf (fun h ρ _ => by simp [hb h ρ, hq]) ?_⟩
    intro ms' he
    obtain rfl := Option.some.inj he
    exact hc.tallied (by simp) fun h m hid hm => hid ▸ hm.queued hq
  · refine ⟨[], .none (by rw [hl, hs, if_neg ho]) (fun h ρ _ => hb h ρ) fun ms' he => ?_⟩
    cases out with
    | none => cases he
    | some o =>
      have ho : o ≠ .queued := fun h => ho (by rw [h])
      simp only [Option.map_some, if_neg ho, Option.some.injEq] at he
      exact he ▸ hc

/-- The synchronous path and one tenant. -/
theorem failoverTenantToHost_batch {t : TenantRow} {target : HostRow} (az : Az) (now : Time)
    (hq : cfg.failoverQueueUrl = false) (hg : u.tenants.get t.id = some t) (hc : Carries cfg hosts gs₀ ms)
    (hf : Fitted cfg hosts gs₀ (t, target.instanceId)) :
    (failoverTenantToHost cfg t target az now).wpt durable (fun l out w' => ∃ gs, Batched cfg hosts gs₀ [t] u l
      (out.map fun o => if o = .blocked then ms else tally ms target.instanceId (tallyAttempt (o = .moved))) w' gs) u := by
  refine Prog.wpt_mono ?_ (failoverTenantToHost_takes az now hg)
  rintro l out w' ⟨x, ⟨hmoved, htarget⟩, ht⟩
  have hl : handedOut cfg l = failoversOf l := if_neg (by simp [hq])
  cases x with
  | none =>
    have hno : out ≠ some .moved := fun h => by simpa using hmoved.1 h
    refine ⟨[], .none (by rw [hl, ht.flips]; rfl) (fun h ρ _ => (ht.counters h ρ).trans (Int.add_zero _)) ?_⟩
    intro ms' he
    obtain ⟨o, rfl, rfl⟩ := Option.map_eq_some_iff.1 he
    have ho : o ≠ .moved := fun h => hno (by rw [h])
    have := @Carries.attempted cfg hosts ms gs₀ t target.instanceId hq hc o
    rwa [if_neg ho, List.append_nil] at this
  | some y =>
    have hy := htarget y rfl
    obtain rfl : out = some .moved := hmoved.2 rfl
    refine ⟨_, .one (by rw [hl, ht.flips, ← hy]; rfl) hf (fun h ρ _ => ?_) ?_⟩
    · rw [ht.counters, hq, if_neg Bool.false_ne_true, batchLoad_singleton]
      simp [Execution.books, Given.books, hy]
    · intro ms' he
      obtain rfl := Option.some.inj he
      exact hc.attempted hq .moved

theorem failoverAll_batch (az : Az) (exclude : List Az) (now : Time) {ts : List TenantRow} {gs₀ : List Given}
    {ms : List HostRow} {u : World} (hU : Unhandled u P ts) (hc : Carries cfg hosts gs₀ ms) :
    (failoverAll cfg az exclude now ts ms).wpt durable
      (fun l out w' => ∃ gs, Batched cfg hosts gs₀ ts u l out w' gs) u := by
  induction ts generalizing u ms gs₀ with
  | nil =>
    refine ⟨[], .none handedOut_nil (fun _ _ _ => rfl) ?_⟩
    rintro ms' he
    exact Option.some.inj he ▸ hc
  | cons t ts ih =>
    obtain ⟨hg, -⟩ := hU.rows t (by simp)
    have hstop : ∀ (w : World) (gs : List Given) (ts : List TenantRow), Batched cfg hosts gs ts w [] none w [] :=
      fun _ _ _ => .none handedOut_nil (fun _ _ _ => rfl) (by simp)
    unfold failoverAll
    split
    · refine Prog.wpt_mono ?_ (ih (hU.tail fun _ _ => rfl) hc)
      rintro l out w' ⟨gs, h⟩
      have hidle := hstop u gs₀ [t]
      have h : Batched cfg hosts (gs₀ ++ []) ts u l out w' gs := by rwa [List.append_nil]
      exact ⟨gs, hidle.append h⟩
    · rename_i target hp
      have hf := hc.pick hp
      split
      · rename_i hq
        refine (Prog.wpt_bind ..).2 (Prog.wpt_mono ?_ (Prog.wpt_and (enqueueFailover_takes az now hg)
          (enqueueFailover_batch az now hq hg hc hf)))
        rintro l out w' ⟨ht, gs, h⟩
        have hU' := hU.tail fun id hne => (ht.others id hne).1
        cases out with
        | none => exact ⟨_, h.append (hstop w' _ _)⟩
        | some o =>
          refine Prog.wpt_mono ?_ (ih hU' (h.carried _ rfl))
          rintro l' out' w'' ⟨gs', h'⟩
          exact ⟨_, h.append h'⟩
      · rename_i hq
        refine (Prog.wpt_bind ..).2 (Prog.wpt_mono ?_ (Prog.wpt_and (failoverTenantToHost_takes az now hg)
          (failoverTenantToHost_batch az now (by simpa using hq) hg hc hf)))
        rintro l out w' ⟨⟨x, -, ht⟩, gs, h⟩
        have hU' := hU.tail fun id hne => (ht.others id hne).1
        cases out with
        | none => exact ⟨_, h.append (hstop w' _ _)⟩
        | some o =>
          refine Prog.wpt_mono ?_ (ih hU' (h.carried _ rfl))
          rintro l' out' w'' ⟨gs', h'⟩
          exact ⟨_, h.append h'⟩

/-- Calls that give out nothing may come first. -/
theorem Batched.prepend {pre : CallLog} (h : Batched cfg hosts gs₀ ts u l out w gs) (hl : handedOut cfg pre = [])
    (hb : ∀ a ρ, a ≠ azStateId → u.booked a ρ = v.booked a ρ) : Batched cfg hosts gs₀ ts v (pre ++ l) out w gs where
  handed := by rw [handedOut_append, hl, h.handed, List.nil_append]
  tenants := h.tenants
  fitted := h.fitted
  counters a ρ hne := by rw [h.counters a ρ hne, hb a ρ hne]
  carried := h.carried

/-- The record of the failovers is no host. -/
theorem Batched.putAzState {r : Bool} {azs : List (Az × Time)}
    (hs : World.step (.putHost { instanceId := azStateId, azLastFailover := azs }) r v u)
    (h : Batched cfg hosts gs₀ ts u l out w gs) :
    Batched cfg hosts gs₀ ts v (⟨.putHost { instanceId := azStateId, azLastFailover := azs }, r⟩ :: l) out w gs := by
  refine @Batched.prepend _ _ _ _ _ _ _ _ _ _
    [⟨.putHost { instanceId := azStateId, azLastFailover := azs }, (r : Call.Ans (.putHost _))⟩] h
    (handedOut_plain (by simp [Call.writesTenants, Call.writesQueue])) fun a ρ hne => ?_
  rcases sent.eq_or hs with rfl | rfl
  · rw [World.booked, World.putHost_hosts, Table.get_put_ne _ hne]
    rfl
  · rfl

theorem handleOutages_batch (tenants : List TenantRow) (force exclude : List Az) (now : Time) {os : List Outage}
    (azState : List (Az × Time)) {u : World} {gs₀ : List Given} {ms : List HostRow}
    (hU : Unhandled u P (os.flatMap fun o => o.affected tenants)) (hc : Carries cfg hosts gs₀ ms) :
    (handleOutages cfg tenants force exclude now os ms azState).wpt durable (fun l _ w' => ∃ gs,
      Batched cfg hosts gs₀ (os.flatMap fun o => o.affected tenants) u l none w' gs) u := by
  induction os generalizing u gs₀ ms azState with
  | nil => exact ⟨[], .none handedOut_nil (fun _ _ _ => rfl) (by simp)⟩
  | cons o os ih =>
    rw [List.flatMap_cons] at hU ⊢
    obtain ⟨hfirst, hrest⟩ := hU.split
    simp only [handleOutages, req_bind, Prog.pure_eq]
    split
    · refine Prog.wpt_mono ?_ (ih azState (hrest fun _ _ => rfl) hc)
      intro l _ w' h
      obtain ⟨gs, h⟩ := h
      have hidle : Batched cfg hosts gs₀ (o.affected tenants) u [] none u [] :=
        .none handedOut_nil (fun _ _ _ => rfl) (by simp)
      rw [← List.append_nil gs₀] at h
      exact ⟨gs, hidle.append h⟩
    · rintro r w₁ ⟨-, hs⟩
      have hs : World.step (.putHost _) r u w₁ := hs
      have ht₁ : w₁.tenants = u.tenants := step_tenants rfl hs
      have hU₁ : Unhandled w₁ P (o.affected tenants) := ⟨fun t ht => ht₁ ▸ hfirst.rows t ht, hfirst.nodup⟩
      refine (Prog.wpt_bind ..).2 (Prog.wpt_mono ?_
        (Prog.wpt_and (failoverAll_recovers o.az exclude now ms hU₁) (failoverAll_batch o.az exclude now hU₁ hc)))
      rintro l out w₂ ⟨⟨moves, hrec⟩, gs, h₁⟩
      have hU₂ := hrest fun id hid => (hrec.others id hid).1.trans (by rw [ht₁])
      cases out with
      | none =>
        have hidle : Batched cfg hosts (gs₀ ++ gs) (os.flatMap fun o => o.affected tenants) w₂ [] none w₂ [] :=
          .none handedOut_nil (fun _ _ _ => rfl) (by simp)
        exact ⟨_, (h₁.append hidle).putAzState hs⟩
      | some ms' =>
        refine Prog.wpt_mono ?_ (ih _ hU₂ (h₁.carried ms' rfl))
        intro l' _ w₃ h'
        obtain ⟨gs', h'⟩ := h'
        exact ⟨_, (h₁.append h').putAzState hs⟩

/-- **What a run of the detector gives out.** -/
theorem azFailover_batch {force : List Az} (hf : force.Nodup) (u : World) :
    (azFailover cfg force).wpt durable (fun l _ w' => ∃ ts gs, Unhandled u (fun _ => True) ts ∧
      Batched cfg u.hosts.rows [] ts u l none w' gs) u := by
  simp only [azFailover, checkAndHandleAzFailover, req_bind, Prog.pure_eq]
  rintro tenants w₁ ⟨-, hp, rfl⟩
  refine quiet_step ⟨rfl, rfl, rfl⟩ fun now w₂ h₂ => ?_
  rintro scanned w₃ ⟨-, hph, rfl⟩
  have hU : Unhandled w₁ (fun _ => True) tenants := Unhandled.of_scan hp fun _ _ => trivial
  have hhosts : ((scanned.filter fun h => h.status ≠ some .deleted).map HostRow.instanceId).Nodup := by
    have hscan := (hph.map HostRow.instanceId).nodup_iff.2 (w₃.hosts.nodup.sublist (List.filter_sublist.map _))
    exact hscan.sublist (List.filter_sublist.map _)
  have hrows : ∀ h ∈ scanned.filter fun h => h.status ≠ some .deleted, h ∈ w₁.hosts.rows := by
    intro h hh
    have := (List.mem_filter.1 (hph.mem_iff.1 (List.mem_filter.1 hh).1)).1
    rwa [h₂.2] at this
  have hbooked : ∀ {w : World}, w.hosts = w₁.hosts → ∀ a ρ, w.booked a ρ = w₁.booked a ρ := by
    intro w he a ρ
    rw [World.booked, he]
    rfl
  -- Reads give out nothing.
  have hquiet : ∀ {l : CallLog} {w' : World}, handedOut cfg l = [] → w'.hosts = w₁.hosts →
      ∃ ts gs, Unhandled w₁ (fun _ => True) ts ∧ Batched cfg w₁.hosts.rows [] ts w₁ l none w' gs :=
    fun hl he => ⟨[], [], ⟨by simp, by simp⟩, .none hl (fun a ρ _ => hbooked he a ρ) (by simp)⟩
  beta_reduce
  split
  · exact hquiet (handedOut_plain (by simp [Call.writesTenants, Call.writesQueue])) h₂.2
  · refine quiet_step ⟨rfl, rfl, rfl⟩ fun state w₄ h₄ => ?_
    have h₄' := h₄.trans h₂
    have hreads : handedOut cfg [⟨.scanTenants (.status .running), tenants⟩, ⟨.now, now⟩,
        ⟨.scanHosts .all, scanned⟩, ⟨.getHost azStateId, state⟩] = [] :=
      handedOut_plain (by simp [Call.writesTenants, Call.writesQueue])
    split
    · exact hquiet hreads h₄'.2
    · obtain ⟨azs, hn, he⟩ := outages_of_zones (scanned.filter fun h => h.status ≠ some .deleted) now
        cfg.azUnhealthyThresholdMinutes hf
      rw [he]
      have hU₄ : Unhandled w₄ (fun _ => True) tenants := ⟨fun t ht => h₄'.1 ▸ hU.rows t ht, hU.nodup⟩
      have hU' := affected_unhandled hU₄ hhosts hn
      have hc : Carries cfg (scanned.filter fun h => h.status ≠ some .deleted) []
          (scanned.filter fun h => h.status ≠ some .deleted) := List.forall₂_same.2 fun h _ => .scanned h
      refine Prog.wpt_mono ?_ (handleOutages_batch tenants force _ now _ hU' hc)
      rintro l _ w' ⟨gs, h⟩
      refine ⟨_, gs, ⟨fun t ht => h₄'.1 ▸ hU'.rows t ht, hU'.nodup⟩, ?_⟩
      have h := h.prepend hreads fun a ρ _ => hbooked h₄'.2 a ρ
      refine ⟨h.handed, h.tenants, fun pre g hp => ?_, h.counters, by simp⟩
      obtain ⟨a, ha, hrest⟩ := h.fitted pre g hp
      exact ⟨a, hrows a ha, hrest⟩

end Batched

/-! ## The flips -/

/-- The row has the same size. -/
def SameSize (t t' : TenantRow) : Prop := t'.vcpu = t.vcpu ∧ t'.memMb = t.memMb

/-- Messages are delivered, any of those sent and in any order, each to its end. -/
inductive Delivers : World → CallLog → World → Prop
  | refl (w : World) : Delivers w [] w
  | next {u v w : World} {l l' : CallLog} (job : FailoverJob) : Delivers u l v → job ∈ v.queue →
      (PipelineJob.prog cfg (.deliver job)).Traces durable v l' () w → Delivers u (l ++ l') w

/-- Every tenant that was given a target has been flipped onto it: by deliveries, or already by the detector. -/
def AllFlipped (w : World) (gs : List Given) (w' : World) : Prop :=
  if cfg.failoverQueueUrl then ∃ l, Delivers cfg w l w' ∧ (failoversOf l).Perm (gs.map Given.key) else w' = w

section Flips

variable {cfg} {u w : World} {l : CallLog}

theorem SameSize.apply {x : TenantUpdate} {t t' : TenantRow} (hx : x.failsOver) (h : SameSize t t') :
    SameSize t (x.apply t') := by
  cases x <;> first | exact h | exact hx.elim

/-- The pipeline leaves the sizes of the tenants alone. -/
theorem wp_sameSizes {α : Type} {p : CtlProg α} (hp : p.All (Call.updatesBy TenantUpdate.failsOver)) (u : World) :
    p.wpt durable (fun _ _ w => RowsRelated SameSize u w) u := by
  have hstep : ∀ (c : Ctl.Call) (r : Ctl.Ans c) (w₁ w₂ : World), c.updatesBy TenantUpdate.failsOver →
      RowsRelated SameSize u w₁ → ctl.step c r w₁ w₂ → RowsRelated SameSize u w₂ :=
    fun c r w₁ w₂ hc hI hs => RowsRelated.step (fun _ _ _ => SameSize.apply) hc hI hs
  exact Prog.wpt_of_wp (Sem.wp_restrict (Prog.All.wp_frame hstep hp fun id t hg => ⟨t, hg, rfl, rfl⟩))

theorem RowsRelated.trans_size {v : World} (h : RowsRelated SameSize u v) (h' : RowsRelated SameSize v w) :
    RowsRelated SameSize u w := by
  intro id t hg
  obtain ⟨t', hg', hs⟩ := h id t hg
  obtain ⟨t'', hg'', hs'⟩ := h' id t' hg'
  exact ⟨t'', hg'', hs'.1.trans hs.1, hs'.2.trans hs.2⟩

/-- What the flips book, from the sizes in the table. -/
def flipLoad (u : World) (ks : List (TenantId × HostId)) : Amounts := fun h ρ =>
  (ks.map fun k => (u.tenants.get k.1).elim 0 fun t => Given.books (t, k.2) h ρ).sum

theorem Given.books_size {t t' : TenantRow} (hs : SameSize t t') (h : HostId) : Given.books (t', h) = Given.books (t, h) := by
  simp [Given.books, hs.1, hs.2]

theorem flipLoad_given {gs : List Given} (hg : ∀ g ∈ gs, u.tenants.get g.1.id = some g.1) :
    flipLoad u (gs.map Given.key) = batchLoad gs := by
  funext h ρ
  unfold flipLoad batchLoad
  rw [List.map_map]
  refine congrArg List.sum (List.map_congr_left fun g hm => ?_)
  simp [Given.key, hg g hm]

theorem flipLoad_perm {ks ks' : List (TenantId × HostId)} (h : ks.Perm ks') : flipLoad u ks = flipLoad u ks' := by
  funext a ρ
  exact (h.map _).sum_eq

/-- A delivery books what it flips. -/
theorem deliver_load {job : FailoverJob} {v : World} (hkey : job.backupKey ≠ "") (hu : RowsRelated SameSize u v) :
    (PipelineJob.prog cfg (.deliver job)).wpt durable
      (fun l _ w => (∀ k ∈ failoversOf l, u.tenants.get k.1 ≠ none) →
        ∀ h ρ, w.booked h ρ = v.booked h ρ + flipLoad u (failoversOf l) h ρ) v := by
  refine quiet_step ⟨rfl, rfl, rfl⟩ fun now w₁ h₁ => ?_
  refine Prog.wpt_mono ?_ (processRecord_takes now hkey)
  have hb : ∀ h ρ, w₁.booked h ρ = v.booked h ρ := by
    intro h ρ
    rw [World.booked, h₁.2]
    rfl
  intro l _ w ht hall h ρ
  have hl : failoversOf (⟨.now, now⟩ :: l) = failoversOf l := rfl
  rw [hl] at hall ⊢
  rcases ht with ⟨-, hs, -, hf⟩ | ⟨t, x, hg, ht, -⟩
  · rw [hf, World.booked, hs.2]
    exact (hb h ρ).trans (Int.add_zero _).symm
  · rw [ht.flips] at hall ⊢
    rw [ht.counters, hb]
    cases x with
    | none => rfl
    | some y =>
      rw [h₁.1] at hg
      have hid := Table.key_of_get hg
      have hne : u.tenants.get t.id ≠ none := hall (t.id, y.target) (by simp)
      obtain ⟨t₀, hg₀⟩ := Option.ne_none_iff_exists'.1 hne
      obtain ⟨t', hg', hs⟩ := hu _ t₀ hg₀
      obtain rfl : t = t' := Option.some.inj ((hid ▸ hg).symm.trans hg')
      have hload : flipLoad u [(t.id, y.target)] h ρ = Given.books (t₀, y.target) h ρ := by simp [flipLoad, hg₀]
      rw [Option.elim_some, Option.elim_some, hload, ← Given.books_size hs y.target]
      rfl

/-- What the deliveries flip is what they book. -/
theorem Delivers.load {v : World} (hq : u.Keyed) (h : Delivers cfg u l v) (hall : ∀ k ∈ failoversOf l, u.tenants.get k.1 ≠ none) :
    v.Keyed ∧ RowsRelated SameSize u v ∧ ∀ h ρ, v.booked h ρ = u.booked h ρ + flipLoad u (failoversOf l) h ρ := by
  induction h with
  | refl => exact ⟨hq, fun id t hg => ⟨t, hg, rfl, rfl⟩, fun h ρ => (Int.add_zero _).symm⟩
  | next job hd hj ht ih =>
    rename_i w₂ w₃ l₁ l₂
    rw [failoversOf_append] at hall ⊢
    obtain ⟨hk, hs, hb⟩ := ih fun k hm => hall k (List.mem_append_left _ hm)
    have hu : (PipelineJob.prog cfg (.deliver job)).All (Call.updatesBy TenantUpdate.failsOver) :=
      ⟨trivial, fun now => processRecord_updates job now⟩
    have hsend : (PipelineJob.prog cfg (.deliver job)).wp ctl (fun _ w => w.Keyed) w₂ :=
      Prog.All.wp_frame (fun c r w w' hc hI hs => hI.step hc hs) (PipelineJob.sendsKeyed _) hk
    have hload := Prog.wpt_iff_traces.1 (deliver_load (hk job hj) hs) _ _ _ ht
    have hsize := Prog.wpt_iff_traces.1 (wp_sameSizes hu w₂) _ _ _ ht
    have hkeyed := Prog.wpt_iff_traces.1 (Prog.wpt_of_wp (Sem.wp_restrict hsend)) _ _ _ ht
    refine ⟨hkeyed, hs.trans_size hsize, fun h ρ => ?_⟩
    rw [hload (fun k hm => hall k (List.mem_append_right _ hm)), hb]
    simp [flipLoad, Int.add_assoc]

/-- The detector sends only messages with a backup key. -/
theorem azFailover_keyed (force : List Az) (hq : u.Keyed) : (azFailover cfg force).wpt durable (fun _ _ w => w.Keyed) u := by
  have hkeyed : (azFailover cfg force).All Call.sendsKeyed :=
    azFailover_all (fun c _ hq => Call.sendsKeyed_of_not_queue hq) enqueueFailover_sendsKeyed
      failoverTenantToHost_sendsKeyed _
  have hwp : (azFailover cfg force).wp ctl (fun _ w => w.Keyed) u :=
    Prog.All.wp_frame (fun c r w w' hc hI hs => hI.step hc hs) hkeyed hq
  exact Prog.wpt_of_wp (Sem.wp_restrict hwp)

theorem azFailover_sizes (force : List Az) (u : World) :
    (azFailover cfg force).wpt durable (fun _ _ w => RowsRelated SameSize u w) u := by
  refine wp_sameSizes (azFailover_all (fun c h _ => ?_) (fun _ _ _ _ => enqueueFailover_updates _ _)
    (fun _ _ _ _ => failoverTenantToHost_updates _ _) force) u
  obtain ⟨ht, -⟩ := h
  cases c <;> trivial

/-- Once everything that was given out is flipped, the counters have grown by the batch. -/
theorem booked_allFlipped {ts : List TenantRow} {gs : List Given} {w' : World} (hU : Unhandled u (fun _ => True) ts)
    (h : Batched cfg u.hosts.rows [] ts u l none w gs) (hq : w.Keyed) (hs : RowsRelated SameSize u w)
    (hf : AllFlipped cfg w gs w') (a : HostId) (ρ : Res) (hne : a ≠ azStateId) :
    w'.booked a ρ = u.booked a ρ + batchLoad gs a ρ := by
  have hrows : ∀ g ∈ gs, u.tenants.get g.1.id = some g.1 := fun g hg =>
    hU.reads g.1 (h.tenants.subset (List.mem_map_of_mem hg))
  unfold AllFlipped at hf
  by_cases hc : cfg.failoverQueueUrl = true
  · rw [if_pos hc] at hf
    obtain ⟨l', hd, hp⟩ := hf
    have hall : ∀ k ∈ failoversOf l', w.tenants.get k.1 ≠ none := by
      intro k hk
      obtain ⟨g, hg, rfl⟩ := List.mem_map.1 (hp.mem_iff.1 hk)
      obtain ⟨t', ht', -⟩ := hs g.1.id g.1 (hrows g hg)
      simp [Given.key, ht']
    obtain ⟨-, -, hb⟩ := hd.load hq hall
    have hsame : flipLoad w (gs.map Given.key) = flipLoad u (gs.map Given.key) := by
      funext a ρ
      unfold flipLoad
      rw [List.map_map, List.map_map]
      refine congrArg List.sum (List.map_congr_left fun g hg => ?_)
      obtain ⟨t', ht', hsz⟩ := hs g.1.id g.1 (hrows g hg)
      have hbooks := Given.books_size hsz g.2
      simp [Given.key, ht', hrows g hg, hbooks]
    rw [hb, flipLoad_perm hp, hsame, flipLoad_given hrows, h.counters a ρ hne, if_pos hc, Int.add_zero]
  · rw [if_neg hc] at hf
    rw [hf, h.counters a ρ hne, if_neg hc]

end Flips

/-- What a run of the detector with the calls `l` gives out, in the end: the tenants `gs`, each with its target. -/
structure HandsOut (u : World) (l : CallLog) (gs : List Given) : Prop where
  handed : gs.map Given.key = handedOut cfg l
  rows : ∀ g ∈ gs, u.tenants.get g.1.id = some g.1
  once : (gs.map fun g => g.1.id).Nodup

/-- **A batch stays within the bounds when the rows in memory are right at each of its steps**: for every run of the
detector from hosts within their bounds, with the tenants it gave targets to flipped onto them. A step that leaves the
bounds is one whose target had room in memory and had none with the batch flipped. -/
theorem failover_batch_within_bounds {force : List Az} (hf : force.Nodup) {u : World} (hq : u.Keyed)
    (hin : HoldsBatch cfg u.hosts.rows []) : (azFailover cfg force).wpt durable (fun l _ w => ∃ gs, HandsOut cfg u l gs ∧
      (∀ w', AllFlipped cfg w gs w' → ∀ a ρ, a ≠ azStateId → w'.booked a ρ = u.booked a ρ + batchLoad gs a ρ) ∧
      ((∀ pre g, pre ++ [g] <+: gs → ∀ h ∈ u.hosts.rows, Accounted cfg pre g.1 h) →
        ∀ pre, pre <+: gs → HoldsBatch cfg u.hosts.rows pre) ∧
      ((∀ pre, pre <+: gs → HoldsBatch cfg u.hosts.rows pre) ↔
        ∀ pre g, pre ++ [g] <+: gs → ∀ h ∈ u.hosts.rows, h.instanceId = g.2 → Accounted cfg pre g.1 h) ∧
      ((∀ g ∈ gs, 0 ≤ g.1.vcpu ∧ 0 ≤ g.1.memMb) → HoldsBatch cfg u.hosts.rows gs →
        ∀ pre, pre <+: gs → HoldsBatch cfg u.hosts.rows pre)) u := by
  refine Prog.wpt_mono ?_ (Prog.wpt_and (azFailover_batch hf u)
    (Prog.wpt_and (azFailover_keyed force hq) (azFailover_sizes force u)))
  rintro l _ w ⟨⟨ts, gs, hU, h⟩, hk, hs⟩
  have hiff := holdsBatch_iff_accounted u.hosts.nodup hin h.fitted
  refine ⟨gs, ⟨h.handed, fun g hg => ?_, ?_⟩, fun w' hw' => booked_allFlipped hU h hk hs hw',
    fun hacc => hiff.2 fun pre g hp a ha _ => hacc pre g hp a ha, hiff, ?_⟩
  · exact hU.reads g.1 (h.tenants.subset (List.mem_map_of_mem hg))
  · have := hU.nodup.sublist (h.tenants.map TenantRow.id)
    rwa [List.map_map] at this
  · rintro hpos hend pre ⟨gs', rfl⟩ a ha
    obtain ⟨hv, hm, hc⟩ := hend a ha
    have hle : ∀ ρ, batchLoad pre a.instanceId ρ ≤ batchLoad (pre ++ gs') a.instanceId ρ :=
      fun ρ => batchLoad_le fun g hg => hpos g (List.mem_append_right _ hg)
    have hlv := hle .vcpu
    have hlm := hle .memMb
    have hlc := hle .vmCount
    exact ⟨by omega, by omega, fun h0 => by have := hc h0; omega⟩

/-! ## A batch that fits, and one that does not -/

/-- A tenant of 6 GiB on the first host. -/
def largeTenant (id : TenantId) (vmNum : Int) : TenantRow := { runningTenant id "i-1" vmNum with memMb := 6144 }

/-- Two tenants on a dead host, and one other host of `mb` MB. -/
def crowdedWorld (mb : Int) : World where
  tenants := ⟨[largeTenant "a-0000" 1, largeTenant "b-0000" 2], by decide⟩
  hosts := ⟨[{ emptyHost "i-1" 3 with
      az := some "az-1", totalMemMb := some 16384, usedVcpu := some 2, usedMemMb := some 12288, vmCount := some 2 },
    { emptyHost "i-2" 5 with az := some "az-2", totalMemMb := some mb, lastHealthCheck := some 0 }], by simp [emptyHost]⟩

/-- The second of the two messages. -/
def crowdedJob : FailoverJob := { outageJob with tenantId := "b-0000", targetVmNum := 6 }

/-- The tenants of the batch, with their target. -/
def crowdedBatch : List Given := [(largeTenant "a-0000" 1, "i-2"), (largeTenant "b-0000" 2, "i-2")]

/-- The detector alone, then the worker on the two messages. -/
def crowdedPlay (mb : Int) : Option (CallLog × World × CallLog × World × CallLog × World) := do
  let (l, _, w) ← ctlOracle.alone (fun c r _ => c.written r) (azFailover outageConfig []) (List.replicate 13 {})
    (crowdedWorld mb)
  let (l₁, _, w₁) ← ctlOracle.alone (fun c r _ => c.written r) (PipelineJob.prog outageConfig (.deliver outageJob))
    (List.replicate 13 {}) w
  let (l₂, _, w₂) ← ctlOracle.alone (fun c r _ => c.written r) (PipelineJob.prog outageConfig (.deliver crowdedJob))
    (List.replicate 13 {}) w₁
  pure (l, w, l₁, w₁, l₂, w₂)

/-- Both tenants are given the other host. -/
def CrowdedEnd (r : CallLog × World × CallLog × World × CallLog × World) : Prop :=
  handedOut outageConfig r.1 = crowdedBatch.map Given.key ∧ outageJob ∈ r.2.1.queue ∧ crowdedJob ∈ r.2.2.2.1.queue ∧
    failoversOf (r.2.2.1 ++ r.2.2.2.2.1) = crowdedBatch.map Given.key ∧ r.2.2.2.2.2.booked "i-2" .memMb = 12288

instance : DecidablePred CrowdedEnd := fun _ => inferInstanceAs (Decidable (_ ∧ _))

theorem crowdedWorld_holds {mb : Int} (h0 : 0 ≤ outageConfig.allocMem mb) :
    HoldsBatch outageConfig (crowdedWorld mb).hosts.rows [] := by
  intro h hh
  simp only [crowdedWorld, List.mem_cons, List.not_mem_nil, or_false] at hh
  rcases hh with rfl | rfl
  · exact ⟨by decide +kernel, by decide +kernel, by decide +kernel⟩
  · refine ⟨by simp [HostRow.count, Res.pick, allocatable, emptyHost]; decide +kernel, ?_, by simp [outageConfig]⟩
    simpa [HostRow.count, Res.pick, allocatable, emptyHost] using h0

theorem crowded_run (mb : Int) (hplay : (crowdedPlay mb).any (fun r => CrowdedEnd r) = true) : ∃ l w l' w',
    (azFailover outageConfig []).Traces durable (crowdedWorld mb) l () w ∧
      handedOut outageConfig l = crowdedBatch.map Given.key ∧ Delivers outageConfig w l' w' ∧
      failoversOf l' = crowdedBatch.map Given.key ∧ w'.booked "i-2" .memMb = 12288 := by
  obtain ⟨r, hr, hP⟩ := (Option.any_eq_true _ _).1 hplay
  obtain ⟨hgiven, hjob₁, hjob₂, hflips, hmem⟩ := of_decide_eq_true hP
  simp only [crowdedPlay, Option.bind_eq_bind, Option.pure_def, Option.bind_eq_some_iff, Prod.exists,
    Option.some.injEq] at hr
  obtain ⟨l, _, w, h₀, l₁, _, w₁, h₁, l₂, _, w₂, h₂, rfl⟩ := hr
  have ht₀ := Oracle.alone_sound (fun _ _ _ h => h) h₀
  have ht₁ := Oracle.alone_sound (fun _ _ _ h => h) h₁
  have ht₂ := Oracle.alone_sound (fun _ _ _ h => h) h₂
  have hd : Delivers outageConfig w ([] ++ l₁ ++ l₂) w₂ := .next _ (.next _ (.refl w) hjob₁ ht₁) hjob₂ ht₂
  exact ⟨l, w, _, w₂, ht₀, hgiven, hd, hflips, hmem⟩

theorem crowded_handsOut {mb : Int} {l : CallLog} (h : handedOut outageConfig l = crowdedBatch.map Given.key) :
    HandsOut outageConfig (crowdedWorld mb) l crowdedBatch := by
  refine ⟨h.symm, fun g hg => ?_, by decide⟩
  simp only [crowdedBatch, List.mem_cons, List.not_mem_nil, or_false] at hg
  rcases hg with rfl | rfl <;> rfl

/-- The batch is read off the calls. -/
theorem HandsOut.unique {cfg : Config} {u : World} {l : CallLog} {gs gs' : List Given} (h : HandsOut cfg u l gs)
    (h' : HandsOut cfg u l gs') : gs = gs' := by
  have hread : ∀ {gs : List Given}, (∀ g ∈ gs, u.tenants.get g.1.id = some g.1) →
      gs = (gs.map Given.key).filterMap fun k => (u.tenants.get k.1).map fun t => (t, k.2) := by
    intro gs
    induction gs with
    | nil => exact fun _ => rfl
    | cons g gs ih =>
      intro hrows
      obtain ⟨hg, hgs⟩ := List.forall_mem_cons.1 hrows
      simpa [Given.key, hg] using ih hgs
  rw [hread h.rows, hread h'.rows, h.handed, h'.handed]

/-- The rows in memory are right about a host of 16 GiB, and the batch is within its bounds. -/
theorem failover_batch_within_bounds_crowded : ∃ l w, (azFailover outageConfig []).Traces durable (crowdedWorld 16384) l () w ∧
    HandsOut outageConfig (crowdedWorld 16384) l crowdedBatch ∧
      ∀ pre, pre <+: crowdedBatch → HoldsBatch outageConfig (crowdedWorld 16384).hosts.rows pre := by
  have hq : (crowdedWorld 16384).Keyed := by simp [World.Keyed, crowdedWorld]
  obtain ⟨l, w, -, -, ht, hgiven, -⟩ := crowded_run 16384 (by decide +kernel)
  have h := failover_batch_within_bounds outageConfig List.nodup_nil hq (crowdedWorld_holds (by decide +kernel))
  obtain ⟨gs, hout, -, hsafe, -⟩ := Prog.wpt_iff_traces.1 h _ _ _ ht
  obtain rfl := hout.unique (crowded_handsOut hgiven)
  refine ⟨l, w, ht, hout, hsafe fun pre g hp => ?_⟩
  rcases pre with _ | ⟨x, _ | ⟨y, pre⟩⟩
  · obtain rfl : g = (largeTenant "a-0000" 1, "i-2") := by simpa [crowdedBatch] using hp
    decide +kernel
  · obtain ⟨rfl, rfl⟩ : x = (largeTenant "a-0000" 1, "i-2") ∧ g = (largeTenant "b-0000" 2, "i-2") := by
      simpa [crowdedBatch] using hp
    decide +kernel
  · have := hp.length_le
    simp [crowdedBatch] at this

/-- **A batch that overbooks its target**: both tenants of the dead host are queued for a host of 8 GiB, because the
memory of the first is not carried to the second, and the deliveries book 12 GiB on it. -/
theorem failover_batch_overbooks : HoldsBatch outageConfig (crowdedWorld 8192).hosts.rows [] ∧ ∃ l w w',
    (azFailover outageConfig []).Traces durable (crowdedWorld 8192) l () w ∧
      HandsOut outageConfig (crowdedWorld 8192) l crowdedBatch ∧ AllFlipped outageConfig w crowdedBatch w' ∧
      ∃ h ∈ (crowdedWorld 8192).hosts.rows, (allocatable outageConfig h).2 < w'.booked h.instanceId .memMb := by
  obtain ⟨l, w, l', w', ht, hgiven, hd, hflips, hmem⟩ := crowded_run 8192 (by decide +kernel)
  refine ⟨crowdedWorld_holds (by decide +kernel), l, w, w', ht, crowded_handsOut hgiven,
    (if_pos rfl).mpr ⟨l', hd, by rw [hflips]⟩, ?_⟩
  refine ⟨_, List.mem_cons_of_mem _ List.mem_cons_self, ?_⟩
  have hroom : (allocatable outageConfig { emptyHost "i-2" 5 with
      az := some "az-2", totalMemMb := some 8192, lastHealthCheck := some 0 }).2 = 8192 := by decide +kernel
  exact lt_of_eq_of_lt hroom (lt_of_lt_of_eq (by decide) hmem.symm)

end OpenClaw
