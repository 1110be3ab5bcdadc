import OpenClaw.Capacity.Reservation
import OpenClaw.Control.Actions
import OpenClaw.Lib.Amid
import OpenClaw.Lib.Dues

/-!
# Concurrent resizes

`tenant_resize` reads the tenant and the host, waits for a command on the host, and then writes both rows without a
condition. Any number of its calls run interleaved with reservations; `resizeProtocol` follows what each has read and
what it still has to add to the host (`dueOn`).

- `ResizeInv`: the host's counter lags behind its tenants by what the calls in flight owe.
- `resizes_keep_books`: the books of a host are kept in every run in which the tenant's row is still the one that was
  read when it is written, and nothing was booked on the host between its reading and the raise of its counter
  (`unraced`).
-/

namespace OpenClaw

open Keyed Atomic

variable (cfg : Config)

/-! ## Runs -/

inductive ResizeJob
  | resize (tid : TenantId) (newVcpu : Int)
  /-- `_reserve_host_slot` on a copy of the host's row. -/
  | reserve (host : HostRow) (vcpu memMb : Int)

def ResizeJob.prog : ResizeJob → CtlProg Unit
  | .resize tid v => tenantResize cfg tid v >>= fun _ => pure ()
  | .reserve host v m => reserveHostSlot cfg host v m >>= fun _ => pure ()

/-- The copy a reservation works on was read some time ago; only its totals are those of the host. -/
def resizeJobs : Jobs Ctl World ResizeJob Unit where
  body := ResizeJob.prog cfg
  start j w w' := w' = w ∧
    match j with
    | .resize _ _ => True
    | .reserve host _ _ => ∀ x, w.hosts.get host.instanceId = some x → x.totalVcpu = host.totalVcpu

/-- The vCPUs of the tenants of a host. -/
def World.vcpuOn (w : World) (host : HostId) : Int :=
  w.tenants.total fun t => if t.hostId = some host then t.vcpu else 0

/-- The vCPUs reserved on the host in one step. -/
def reservedBy {ι : Type} (host : HostId) : Ev Ctl ResizeJob ι → Int
  | .call _ (.reserveHost id _ v _) (.next _) => if id = host then v else 0
  | _ => 0

/-- The vCPUs reserved on the host. -/
def reservedVcpu {ι : Type} (host : HostId) (tr : List (Ev Ctl ResizeJob ι)) : Int := (tr.map (reservedBy host)).sum

@[simp] theorem reservedVcpu_snoc {ι : Type} (host : HostId) (tr : List (Ev Ctl ResizeJob ι)) (e : Ev Ctl ResizeJob ι) :
    reservedVcpu host (tr ++ [e]) = reservedVcpu host tr + reservedBy host e := by
  simp [reservedVcpu]

/-! ## The protocol of one call -/

/-- Where a call stands. -/
inductive ResizeState
  | idle
  /-- It reserves, on this copy of the host's row. -/
  | reserving (host : HostRow)
  /-- It has read the tenant. -/
  | read (t : TenantRow)
  /-- It has read the host too. -/
  | checked (t : TenantRow) (h : HostRow)
  /-- It has written the tenant's row and not yet that of the host, which it read as `h`. -/
  | wrote (h : HostRow) (delta : Int)

/-- What is still to be added to the host's counter. -/
def dueOn (host : HostId) : ResizeState → Int
  | .wrote h d => if h.instanceId = host then d else 0
  | _ => 0

/-- The row has the totals, and `delta` more vCPUs fit into what it says is free. -/
def HostRow.hasFree (h : HostRow) (delta : Int) : Prop :=
  ∃ tv used, h.totalVcpu = some tv ∧ h.usedVcpu = some used ∧ delta ≤ cfg.allocVcpu tv - used

/-- The calls in each state; a host write is taken to go through (`sane`). -/
def resizeProtocol : Protocol Ctl ResizeJob ResizeState where
  init
    | .resize _ _ => .idle
    | .reserve host _ _ => .reserving host
  allow g c :=
    match c with
    | .getTenant _ => g = .idle
    | .getHost _ => ∃ t, g = .read t
    | .ssmRun _ _ => True
    | .updTenant tid u => ∃ t h v, g = .checked t h ∧ t.id = tid ∧ t.hostId = some h.instanceId ∧ u = .vcpu v ∧
        t.vcpu < v ∧ h.hasFree cfg (v - t.vcpu)
    | .updHost id u => ∃ h d, g = .wrote h d ∧ h.instanceId = id ∧ u = .addVcpu d ∧ h.hasFree cfg d
    | .reserveHost id cond v m => ∃ h tv tm, g = .reserving h ∧ h.totalVcpu = some tv ∧ id = h.instanceId ∧
        cond = reserveCond cfg tv tm v m
    | _ => False
  sane _ c :=
    match c with
    | .getTenant id => fun r => ∀ t, r = some t → t.id = id
    | .getHost id => fun r => ∀ h, r = some h → h.instanceId = id
    | .updHost _ _ => fun r => r.isSome = true
    | _ => fun _ => True
  next g c :=
    match c with
    | .getTenant _ => fun r => r.elim .idle .read
    | .getHost _ => fun r =>
      match g with
      | .read t => r.elim g (.checked t)
      | _ => g
    | .updTenant _ (.vcpu v) => fun r =>
      match g with
      | .checked t h => if r then .wrote h (v - t.vcpu) else .idle
      | _ => g
    | .updHost _ _ => fun _ => .idle
    | _ => fun _ => g

section Obeys

variable {cfg}

/-- What is left of a call that has ended owes nothing. -/
abbrev NothingDue {α : Type} (_ : α) (g : ResizeState) : Prop := ∀ host, dueOn host g = 0

theorem tenantResize_obeys (tid : TenantId) (v : Int) :
    (tenantResize cfg tid v).obeys (resizeProtocol cfg) NothingDue .idle := by
  simp only [tenantResize, req_bind, Prog.pure_eq]
  refine ⟨rfl, fun item hitem => ?_⟩
  cases item with
  | none => exact fun _ => rfl
  | some t =>
    have hid : t.id = tid := hitem t rfl
    have hread : (resizeProtocol cfg).next .idle (.getTenant tid) (some t) = .read t := rfl
    rw [hread]
    dsimp only
    split
    · exact fun _ => rfl
    split
    · exact fun _ => rfl
    split
    · exact fun _ => rfl
    rename_i _ hgrow _
    cases hhost : t.hostId with
    | none => exact fun _ => rfl
    | some host =>
      refine ⟨⟨t, rfl⟩, fun h hh => ?_⟩
      cases h with
      | none => exact fun _ => rfl
      | some h =>
        obtain rfl : h.instanceId = host := hh h rfl
        dsimp only
        split
        swap
        · exact fun _ => rfl
        rename_i tv used htv hused
        split
        · exact fun _ => rfl
        rename_i hroom
        have hfree : h.hasFree cfg (v - t.vcpu) := ⟨tv, used, htv, hused, by omega⟩
        refine ⟨trivial, fun ok _ => ?_⟩
        cases ok with
        | false => exact fun _ => rfl
        | true =>
          refine ⟨⟨t, h, v, rfl, hid, hhost, rfl, by omega, hfree⟩, fun ok _ => ?_⟩
          cases ok with
          | false => exact fun _ => rfl
          | true => exact ⟨⟨h, v - t.vcpu, rfl, rfl, rfl, hfree⟩, fun _ _ _ => rfl⟩

theorem ResizeJob.obeys (j : ResizeJob) :
    (j.prog cfg).obeys (resizeProtocol cfg) NothingDue ((resizeProtocol cfg).init j) := by
  cases j with
  | resize tid v =>
    simp only [ResizeJob.prog, Prog.obeys_bind]
    exact tenantResize_obeys tid v
  | reserve host v m =>
    simp only [ResizeJob.prog, reserveHostSlot, Prog.obeys_bind]
    split
    swap
    · exact fun _ => rfl
    rename_i tv tm htv _
    simp only [req_bind, Prog.pure_eq]
    refine ⟨⟨host, tv, tm, rfl, htv, rfl, rfl⟩, fun r _ => ?_⟩
    cases r <;> exact fun _ => rfl

end Obeys

/-! ## The invariant -/

/-- The tenant's row that is written is still the one that was read. When the host's counter is raised, nothing has been
booked there since it was read, and the write is taken. -/
def unraced {ι : Type} [DecidableEq ι] (tr : List (Ev Ctl ResizeJob ι)) (w : World) : Ev Ctl ResizeJob ι → Prop
  | .call i (.updTenant tid _) r => r = true → ∀ t h x, (resizeProtocol cfg).locs tr i = some (.checked t h) →
      w.tenants.get tid = some x → x.vcpu = t.vcpu
  | .call i (.updHost id (.addVcpu _)) r => r.isSome = true ∧ ∀ h d x u read,
      (resizeProtocol cfg).locs tr i = some (.wrote h d) → w.hosts.get id = some x → x.usedVcpu = some u →
      h.usedVcpu = some read → u ≤ read
  | _ => True

/-- What is true of the rows a call works with. -/
def ResizeState.Sound (row : HostRow) (w : World) : ResizeState → Prop
  | .idle => True
  | .reserving h | .wrote h _ => h.instanceId = row.instanceId → h.totalVcpu = row.totalVcpu
  | .read t => ∃ x, w.tenants.get t.id = some x ∧ x.hostId = t.hostId
  | .checked t h => (∃ x, w.tenants.get t.id = some x ∧ x.hostId = t.hostId) ∧
      (h.instanceId = row.instanceId → h.totalVcpu = row.totalVcpu)

/-- The host of `row`, whose counter was `u₀` at the start. -/
structure ResizeInv {ι : Type} [DecidableEq ι] (cfg : Config) (w₀ : World) (row : HostRow) (u₀ : Int)
    (tr : List (Ev Ctl ResizeJob ι)) (w : World) : Prop where
  host : ∃ x u, w.hosts.get row.instanceId = some x ∧ x.totalVcpu = row.totalVcpu ∧ x.usedVcpu = some u ∧
    (∀ tv, row.totalVcpu = some tv → u₀ ≤ cfg.allocVcpu tv → u ≤ cfg.allocVcpu tv) ∧
    Owed (dueOn row.instanceId) ((resizeProtocol cfg).locs tr)
      (u₀ + (w.vcpuOn row.instanceId - w₀.vcpuOn row.instanceId) + reservedVcpu row.instanceId tr - u)
  states : ∀ i g, (resizeProtocol cfg).locs tr i = some g → g.Sound row w

section Invariant

variable {cfg} {ι : Type} [DecidableEq ι] {w₀ w w' : World} {row : HostRow} {u₀ : Int}
  {tr : List (Ev Ctl ResizeJob ι)} {i : ι} {g : ResizeState}

theorem resizeLocs_call (hl : (resizeProtocol cfg).locs tr i = some g) (c : Call) (r : c.Ans) :
    (resizeProtocol cfg).locs (tr ++ [.call i c r]) =
      Function.update ((resizeProtocol cfg).locs tr) i (some ((resizeProtocol cfg).next g c r)) := by
  simp [Protocol.stepLoc, hl]

/-- The states after a step of the process `i`. -/
theorem states_update {l : ι → Option ResizeState} {g' : ResizeState} (h : ∀ j g, l j = some g → g.Sound row w')
    (hg' : g'.Sound row w') : ∀ j g, Function.update l i (some g') j = some g → g.Sound row w' := by
  intro j g hj
  by_cases e : j = i
  · subst e
    rw [Function.update_self] at hj
    obtain rfl := Option.some.inj hj
    exact hg'
  · rw [Function.update_of_ne e] at hj
    exact h j g hj

theorem ResizeState.Sound.of_tenants (h : g.Sound row w) (ht : w'.tenants = w.tenants) : g.Sound row w' := by
  cases g with
  | idle => trivial
  | reserving h' => exact h
  | read t =>
    obtain ⟨x, hx, hh⟩ := h
    exact ⟨x, by rw [ht]; exact hx, hh⟩
  | checked t h' =>
    obtain ⟨⟨x, hx, hh⟩, htotal⟩ := h
    exact ⟨⟨x, by rw [ht]; exact hx, hh⟩, htotal⟩
  | wrote h' d => exact h

/-- A step that writes neither the tenants nor the host and settles nothing. -/
theorem ResizeInv.frame (hI : ResizeInv cfg w₀ row u₀ tr w) (hl : (resizeProtocol cfg).locs tr i = some g) {c : Call}
    {r : c.Ans} (ht : w'.tenants = w.tenants)
    (hh : w'.hosts.get row.instanceId = w.hosts.get row.instanceId)
    (hres : reservedBy row.instanceId (Ev.call i c r : Ev Ctl ResizeJob ι) = 0)
    (hdue : dueOn row.instanceId ((resizeProtocol cfg).next g c r) = dueOn row.instanceId g)
    (hg' : ((resizeProtocol cfg).next g c r).Sound row w') : ResizeInv cfg w₀ row u₀ (tr ++ [.call i c r]) w' := by
  obtain ⟨x, u, hx, htot, hu, hle, howed⟩ := hI.host
  refine ⟨⟨x, u, hh.trans hx, htot, hu, hle, ?_⟩, ?_⟩
  · have hup := howed.update i (some ((resizeProtocol cfg).next g c r))
    rw [hl, dueOf_some, dueOf_some, hdue, ← resizeLocs_call hl c r] at hup
    rw [reservedVcpu_snoc, hres]
    have hvc : w'.vcpuOn row.instanceId = w.vcpuOn row.instanceId := by rw [World.vcpuOn, ht, World.vcpuOn]
    rw [hvc]
    convert hup using 1
    omega
  · rw [resizeLocs_call hl c r]
    exact states_update (fun j g' hj => (hI.states j g' hj).of_tenants ht) hg'

/-- Growing one row adds to the host it is on. -/
theorem vcpuOn_putTenant {x : TenantRow} (hx : w.tenants.get x.id = some x) (v : Int) (host : HostId) :
    (w.putTenant { x with vcpu := v }).vcpuOn host =
      w.vcpuOn host + if x.hostId = some host then v - x.vcpu else 0 := by
  have hput := Table.total_put (fun t : TenantRow => if t.hostId = some host then t.vcpu else 0) w.tenants
    { x with vcpu := v }
  have hpart : w.tenants.part (fun t : TenantRow => if t.hostId = some host then t.vcpu else 0) x.id =
      if x.hostId = some host then x.vcpu else 0 := by
    rw [Table.part, hx]
    rfl
  unfold World.vcpuOn
  rw [World.putTenant_tenants, hput]
  dsimp only
  rw [hpart]
  split <;> omega

/-- Writing the vCPUs of a row keeps what is known about the rows read. -/
theorem ResizeState.Sound.grow {x : TenantRow} (h : g.Sound row w) (hx : w.tenants.get x.id = some x) (v : Int) :
    g.Sound row (w.putTenant { x with vcpu := v }) := by
  have hread : ∀ {t : TenantRow}, (∃ y, w.tenants.get t.id = some y ∧ y.hostId = t.hostId) →
      ∃ y, (w.putTenant { x with vcpu := v }).tenants.get t.id = some y ∧ y.hostId = t.hostId := by
    intro t ht
    obtain ⟨y, hy, hh⟩ := ht
    by_cases e : t.id = x.id
    · have hxy : x = y := Option.some.inj (hx.symm.trans (e ▸ hy))
      refine ⟨{ x with vcpu := v }, ?_, by rw [hxy]; exact hh⟩
      rw [World.putTenant_tenants, Table.get_put, if_pos e]
    · refine ⟨y, ?_, hh⟩
      rw [World.putTenant_tenants, Table.get_put, if_neg e]
      exact hy
  cases g with
  | idle => trivial
  | reserving h' => exact h
  | read t => exact hread h
  | checked t h' => exact ⟨hread h.1, h.2⟩
  | wrote h' d => exact h

/-- **The tenant's row is written.** -/
theorem ResizeInv.grow (hI : ResizeInv cfg w₀ row u₀ tr w) {t x : TenantRow} {h : HostRow} {v : Int}
    (hl : (resizeProtocol cfg).locs tr i = some (.checked t h)) (hhost : t.hostId = some h.instanceId)
    (hx : w.tenants.get t.id = some x) (hsame : x.vcpu = t.vcpu) :
    ResizeInv cfg w₀ row u₀ (tr ++ [.call i (.updTenant t.id (.vcpu v)) true]) (w.putTenant { x with vcpu := v }) := by
  have hxid : x.id = t.id := Table.key_of_get hx
  have hx' : w.tenants.get x.id = some x := by rw [hxid]; exact hx
  obtain ⟨⟨z, hz, hh⟩, htotal⟩ := hI.states i _ hl
  obtain rfl : x = z := Option.some.inj (hx.symm.trans hz)
  have hxh : x.hostId = some h.instanceId := hh.trans hhost
  have hnext : (resizeProtocol cfg).next (.checked t h) (.updTenant t.id (.vcpu v)) true = .wrote h (v - t.vcpu) := rfl
  obtain ⟨y, u, hy, htot, hu, hle, howed⟩ := hI.host
  refine ⟨⟨y, u, hy, htot, hu, hle, ?_⟩, ?_⟩
  · have hup := howed.update i (some (.wrote h (v - t.vcpu)))
    rw [hl, dueOf_some, dueOf_some, ← hnext, ← resizeLocs_call hl, hnext] at hup
    rw [reservedVcpu_snoc, vcpuOn_putTenant hx', hxh]
    have hres : reservedBy row.instanceId
        (Ev.call i (.updTenant t.id (.vcpu v)) true : Ev Ctl ResizeJob ι) = 0 := rfl
    rw [hres, hsame]
    convert hup using 1
    by_cases e : h.instanceId = row.instanceId
    · simp only [dueOn, e, if_true]
      omega
    · simp only [dueOn, e, Option.some.injEq, if_false]
      omega
  · rw [resizeLocs_call hl, hnext]
    exact states_update (fun j g' hj => (hI.states j g' hj).grow hx' v) htotal

/-- A write of the host's row that adds `n` to its counter. -/
theorem ResizeInv.putHost (hI : ResizeInv cfg w₀ row u₀ tr w) (hl : (resizeProtocol cfg).locs tr i = some g) {c : Call}
    {r : c.Ans} {x x' : HostRow} {u n : Int} (hx : w.hosts.get row.instanceId = some x) (hu : x.usedVcpu = some u)
    (hid : x'.instanceId = row.instanceId) (htot : x'.totalVcpu = x.totalVcpu) (hu' : x'.usedVcpu = some (u + n))
    (hroom : ∀ tv, x.totalVcpu = some tv → u + n ≤ cfg.allocVcpu tv)
    (hn : reservedBy row.instanceId (Ev.call i c r : Ev Ctl ResizeJob ι) +
      dueOn row.instanceId g = n + dueOn row.instanceId ((resizeProtocol cfg).next g c r))
    (hg' : ((resizeProtocol cfg).next g c r).Sound row (w.putHost x')) :
    ResizeInv cfg w₀ row u₀ (tr ++ [.call i c r]) (w.putHost x') := by
  obtain ⟨y, u', hy, htot', hu'', hle, howed⟩ := hI.host
  obtain rfl : x = y := Option.some.inj (hx.symm.trans hy)
  obtain rfl : u = u' := Option.some.inj (hu.symm.trans hu'')
  refine ⟨⟨x', u + n, ?_, htot.trans htot', hu', fun tv htv _ => hroom tv (htot'.trans htv), ?_⟩, ?_⟩
  · rw [World.putHost_hosts, Table.get_put, if_pos hid.symm]
  · have hup := howed.update i (some ((resizeProtocol cfg).next g c r))
    rw [hl, dueOf_some, dueOf_some, ← resizeLocs_call hl c r] at hup
    rw [reservedVcpu_snoc]
    have hvc : (w.putHost x').vcpuOn row.instanceId = w.vcpuOn row.instanceId := rfl
    rw [hvc]
    convert hup using 1
    omega
  · rw [resizeLocs_call hl c r]
    exact states_update (fun j g' hj => (hI.states j g' hj).of_tenants rfl) hg'

/-- A call begins. -/
theorem ResizeInv.begin (hI : ResizeInv cfg w₀ row u₀ tr w) (hl : (resizeProtocol cfg).locs tr i = none) {j : ResizeJob}
    (hs : (resizeJobs cfg).start j w w') : ResizeInv cfg w₀ row u₀ (tr ++ [.start i j]) w' := by
  obtain ⟨rfl, hj⟩ := hs
  obtain ⟨x, u, hx, htot, hu, hle, howed⟩ := hI.host
  have hlocs : (resizeProtocol cfg).locs (tr ++ [.start i j]) =
      Function.update ((resizeProtocol cfg).locs tr) i (some ((resizeProtocol cfg).init j)) := by
    simp [Protocol.stepLoc]
  refine ⟨⟨x, u, hx, htot, hu, hle, ?_⟩, ?_⟩
  · have hup := howed.update i (some ((resizeProtocol cfg).init j))
    have hdue : dueOn row.instanceId ((resizeProtocol cfg).init j) = 0 := by cases j <;> rfl
    rw [hl, dueOf_none, dueOf_some, hdue, ← hlocs] at hup
    rw [reservedVcpu_snoc]
    have hres : reservedBy row.instanceId (Ev.start i j : Ev Ctl ResizeJob ι) = 0 := rfl
    rw [hres]
    convert hup using 1
    omega
  · rw [hlocs]
    refine states_update hI.states ?_
    cases j with
    | resize tid v => trivial
    | reserve h v m =>
      intro hid
      have hx' : w'.hosts.get h.instanceId = some x := by rw [hid]; exact hx
      exact (hj x hx').symm.trans htot

/-- A reservation on any host. -/
theorem ResizeInv.reserve (hI : ResizeInv cfg w₀ row u₀ tr w) {h : HostRow} {tv tm v m n : Int}
    (hl : (resizeProtocol cfg).locs tr i = some (.reserving h)) (htv : h.totalVcpu = some tv)
    (hs : World.step (.reserveHost h.instanceId (reserveCond cfg tv tm v m) v m) (.next n) w w') :
    ResizeInv cfg w₀ row u₀
      (tr ++ [.call i (.reserveHost h.instanceId (reserveCond cfg tv tm v m) v m) (.next n)]) w' := by
  obtain ⟨x, x', hx, hc, hu, -, rfl⟩ := hs
  have hid : x'.instanceId = h.instanceId := (HostUpdate.apply_id hu).trans (Table.key_of_get hx)
  obtain ⟨uv, um, cnt, k, huv, -, -, -, hx'⟩ := HostUpdate.reserve_eq_some.1 hu
  by_cases e : h.instanceId = row.instanceId
  · have htot : h.totalVcpu = row.totalVcpu := hI.states i _ hl e
    rw [e] at hx
    obtain ⟨⟨u', hu', hmax⟩, -, -⟩ := ReserveCond.holds_iff.1 hc
    obtain rfl : uv = u' := Option.some.inj (huv.symm.trans hu')
    simp only [reserveCond] at hmax
    refine hI.putHost hl hx huv (n := v) (hid.trans e) (by rw [hx']) (by rw [hx']) (fun tv' htv' => ?_) ?_
      (hI.states i _ hl)
    · obtain ⟨y, u, hy, hytot, -⟩ := hI.host
      obtain rfl : x = y := Option.some.inj (hx.symm.trans hy)
      obtain rfl : tv = tv' := Option.some.inj ((htv.symm.trans (htot.trans hytot.symm)).trans htv')
      omega
    · have hdue : dueOn row.instanceId ((resizeProtocol cfg).next (.reserving h)
          (.reserveHost h.instanceId (reserveCond cfg tv tm v m) v m) (.next n)) = 0 := rfl
      have hdue' : dueOn row.instanceId (.reserving h) = 0 := rfl
      rw [hdue, hdue']
      simp [reservedBy, e]
  · refine hI.frame hl rfl ?_ ?_ rfl (hI.states i _ hl)
    · rw [World.putHost_hosts]
      exact Table.get_put_ne _ fun e' => e (hid.symm.trans e'.symm)
    · simp [reservedBy, e]

/-- The counter of any host is raised. If nothing was booked there meanwhile, what was free when the host was read is
still free. -/
theorem ResizeInv.raise (hI : ResizeInv cfg w₀ row u₀ tr w) {h : HostRow} {d : Int} {x' : HostRow}
    (hl : (resizeProtocol cfg).locs tr i = some (.wrote h d)) (hfree : h.hasFree cfg d)
    (hread : ∀ x u read, w.hosts.get h.instanceId = some x → x.usedVcpu = some u → h.usedVcpu = some read → u ≤ read)
    (hs : World.step (.updHost h.instanceId (.addVcpu d)) (some x') w w') :
    ResizeInv cfg w₀ row u₀ (tr ++ [.call i (.updHost h.instanceId (.addVcpu d)) (some x')]) w' := by
  obtain ⟨hu, rfl⟩ := hs
  have hid : x'.instanceId = h.instanceId := (HostUpdate.apply_id hu).trans (World.hostRow_id w h.instanceId)
  obtain ⟨uv, huv, hx'⟩ := HostUpdate.addVcpu_eq_some.1 hu
  by_cases e : h.instanceId = row.instanceId
  · obtain ⟨x, u, hx, htot, hxu, -, -⟩ := hI.host
    have hrow : w.hostRow h.instanceId = x := by simp [World.hostRow, HostRow.orNew, e, hx]
    rw [hrow] at huv hx'
    obtain rfl : u = uv := Option.some.inj (hxu.symm.trans huv)
    obtain ⟨tv, used, htv, hused, hle⟩ := hfree
    have hsame : h.totalVcpu = x.totalVcpu := (hI.states i _ hl e).trans htot.symm
    refine hI.putHost hl hx hxu (n := d) (hid.trans e) (by rw [hx']) (by rw [hx']) (fun tv' htv' => ?_) ?_ trivial
    · obtain rfl : tv = tv' := Option.some.inj ((htv.symm.trans hsame).trans htv')
      have := hread x u used (by rw [e]; exact hx) hxu hused
      omega
    · have hres : reservedBy row.instanceId
          (Ev.call i (.updHost h.instanceId (.addVcpu d)) (some x') : Ev Ctl ResizeJob ι) = 0 := rfl
      have hidle : (resizeProtocol cfg).next (.wrote h d) (.updHost h.instanceId (.addVcpu d)) (some x') = .idle := rfl
      rw [hres, hidle]
      simp [dueOn, e]
  · refine hI.frame hl rfl ?_ rfl ?_ trivial
    · rw [World.putHost_hosts]
      exact Table.get_put_ne _ fun e' => e (hid.symm.trans e'.symm)
    · show 0 = dueOn row.instanceId (.wrote h d)
      simp [dueOn, e]

/-- **The step lemma.** -/
theorem ResizeInv.call (hI : ResizeInv cfg w₀ row u₀ tr w) (hl : (resizeProtocol cfg).locs tr i = some g) {c : Call}
    {r : c.Ans} (hallow : (resizeProtocol cfg).allow g c) (hg : unraced cfg tr w (.call i c r))
    (hs : World.step c r w w') :
    (resizeProtocol cfg).sane g c r ∧ ResizeInv cfg w₀ row u₀ (tr ++ [.call i c r]) w' := by
  cases c
  case getTenant id =>
    obtain ⟨rfl, rfl⟩ := hs
    have hid : ∀ t, w'.tenants.get id = some t → t.id = id := fun t ht => Table.key_of_get ht
    refine ⟨hid, hI.frame hl rfl rfl rfl ?_ ?_⟩
    · obtain rfl : g = .idle := hallow
      show dueOn row.instanceId ((w'.tenants.get id).elim .idle .read) = 0
      cases w'.tenants.get id <;> rfl
    · show ((w'.tenants.get id).elim .idle .read : ResizeState).Sound row w'
      cases ht : w'.tenants.get id with
      | none => trivial
      | some t => exact ⟨t, by rw [hid t ht]; exact ht, rfl⟩
  case getHost id =>
    obtain ⟨t, rfl⟩ := hallow
    obtain ⟨rfl, rfl⟩ := hs
    have hid : ∀ h, w'.hosts.get id = some h → h.instanceId = id := fun h hh => Table.key_of_get hh
    refine ⟨hid, hI.frame hl rfl rfl rfl ?_ ?_⟩
    · show dueOn row.instanceId ((w'.hosts.get id).elim (.read t) (.checked t)) = 0
      cases w'.hosts.get id <;> rfl
    · show ((w'.hosts.get id).elim (.read t) (.checked t) : ResizeState).Sound row w'
      cases hh : w'.hosts.get id with
      | none => exact hI.states i _ hl
      | some h =>
        refine ⟨hI.states i _ hl, fun e => ?_⟩
        obtain ⟨x, u, hx, htot, -⟩ := hI.host
        obtain rfl : h = x := Option.some.inj (hh.symm.trans (by rw [← hid h hh, e]; exact hx))
        exact htot
  case ssmRun h cmd =>
    have hw : w'.tenants = w.tenants ∧ w'.hosts = w.hosts := step_quiet ⟨rfl, rfl, rfl⟩ hs
    exact ⟨trivial, hI.frame hl hw.1 (by rw [hw.2]) rfl rfl ((hI.states i g hl).of_tenants hw.1)⟩
  case updTenant tid u =>
    obtain ⟨t, h, v, rfl, rfl, hhost, rfl, -⟩ := hallow
    obtain ⟨x, hx, hs⟩ := hs
    cases r with
    | true =>
      obtain rfl : w' = w.putTenant { x with vcpu := v } := hs
      exact ⟨trivial, hI.grow hl hhost hx (hg rfl t h x hl hx)⟩
    | false =>
      obtain rfl : w' = w := hs
      have hidle : (resizeProtocol cfg).next (.checked t h) (.updTenant t.id (.vcpu v)) false = .idle := rfl
      exact ⟨trivial, hI.frame hl rfl rfl rfl (by rw [hidle]; rfl) (by rw [hidle]; trivial)⟩
  case updHost id u =>
    obtain ⟨h, d, rfl, rfl, rfl, hfree⟩ := hallow
    cases r with
    | none => exact absurd hg.1 (by simp)
    | some x' => exact ⟨rfl, hI.raise hl hfree (fun x u read => hg.2 h d x u read hl) hs⟩
  case reserveHost id cond v m =>
    obtain ⟨h, tv, tm, rfl, htv, rfl, rfl⟩ := hallow
    refine ⟨trivial, ?_⟩
    cases r with
    | next n => exact hI.reserve hl htv hs
    | refused => exact hI.frame hl (by rw [hs.2]) (by rw [hs.2]) rfl rfl (by rw [hs.2]; exact hI.states i _ hl)
    | failed =>
      obtain rfl : w' = w := hs
      exact hI.frame hl rfl rfl rfl rfl (hI.states i _ hl)
  all_goals exact hallow.elim

/-- No step lowers a tenant's vCPUs. -/
theorem ResizeInv.no_shrink (hl : (resizeProtocol cfg).locs tr i = some g) {c : Call} {r : c.Ans}
    (hallow : (resizeProtocol cfg).allow g c) (hg : unraced cfg tr w (.call i c r)) (hs : World.step c r w w')
    {t : TenantRow} (ht : t ∈ w.tenants.rows) : ∃ t', w'.tenants.get t.id = some t' ∧ t.vcpu ≤ t'.vcpu := by
  have hget : w.tenants.get t.id = some t := Table.get_of_mem ht
  by_cases hw : c.writesTenants = false
  · exact ⟨t, by rw [step_tenants hw hs]; exact hget, le_refl _⟩
  · cases c <;> first | exact absurd rfl hw | skip
    case updTenant tid u =>
      obtain ⟨s, h, v, rfl, rfl, -, rfl, hv, -⟩ := hallow
      obtain ⟨x, hx, hs⟩ := hs
      cases r with
      | false =>
        obtain rfl : w' = w := hs
        exact ⟨t, hget, le_refl _⟩
      | true =>
        obtain rfl : w' = w.putTenant { x with vcpu := v } := hs
        by_cases e : t.id = x.id
        · have hxid : x.id = s.id := Table.key_of_get hx
          have htx : t = x := Option.some.inj (hget.symm.trans (by rw [e, hxid]; exact hx))
          have hsame : x.vcpu = s.vcpu := hg rfl s h x hl hx
          refine ⟨{ x with vcpu := v }, ?_, ?_⟩
          · rw [World.putTenant_tenants, Table.get_put, if_pos e]
          · show t.vcpu ≤ v
            rw [htx]
            omega
        · refine ⟨t, ?_, le_refl _⟩
          rw [World.putTenant_tenants, Table.get_put, if_neg e]
          exact hget
    all_goals exact hallow.elim

end Invariant

/-! ## The books -/

/-- All calls have ended. -/
def Finished {ι : Type} (c : Conf Ctl World ResizeJob ι Unit) : Prop :=
  ∀ i j p, c.proc i = some (j, p) → p = .ret ()

/-- **Concurrent resizes keep the books.** In every unraced run the counter of a host stays within its bound and no
tenant's vCPUs decrease; when all calls have ended the counter has grown by what the tenants have grown by and what was
reserved. -/
theorem resizes_keep_books {ι : Type} [DecidableEq ι] {w₀ : World} {host : HostId} {row : HostRow} {u₀ : Int}
    (hrow : w₀.hosts.get host = some row) (hu₀ : row.usedVcpu = some u₀) {tr : List (Ev Ctl ResizeJob ι)}
    {c : Conf Ctl World ResizeJob ι Unit}
    (hr : Reach ctl (resizeJobs cfg) (unraced cfg) (Conf.idle w₀) tr c) :
    (∃ x u, c.world.hosts.get host = some x ∧ x.usedVcpu = some u ∧
      (∀ tv, row.totalVcpu = some tv → u₀ ≤ cfg.allocVcpu tv → u ≤ cfg.allocVcpu tv) ∧
      (Finished c → u = u₀ + (c.world.vcpuOn host - w₀.vcpuOn host) + reservedVcpu host tr)) ∧
    ∀ e c', unraced cfg tr c.world e → Step ctl (resizeJobs cfg) c e c' →
      ∀ t ∈ c.world.tenants.rows, ∃ t', c'.world.tenants.get t.id = some t' ∧ t.vcpu ≤ t'.vcpu := by
  obtain rfl : row.instanceId = host := Table.key_of_get hrow
  have h₀ : ResizeInv cfg w₀ row u₀ ([] : List (Ev Ctl ResizeJob ι)) w₀ := by
    refine ⟨⟨row, u₀, hrow, rfl, hu₀, fun _ _ h => h, ?_⟩, fun i g hg => by simp at hg⟩
    have howed : Owed (dueOn row.instanceId) (fun _ : ι => none) 0 := Owed.start
    simpa [reservedVcpu] using howed
  obtain ⟨hI, hidle, hprocs⟩ := Reach.protocol ResizeJob.obeys h₀
    (fun tr w i j w' hI hl _ hs => hI.begin hl hs)
    (fun tr w i g c r w' hI hl hallow hg hs => hI.call hl hallow hg hs) hr
  obtain ⟨x, u, hx, -, hu, hle, howed⟩ := hI.host
  refine ⟨⟨x, u, hx, hu, hle, fun hfin => ?_⟩, fun e c' hg hst t ht => ?_⟩
  · have hzero := howed.settled fun i g hl => ?_
    · omega
    · by_contra hne
      cases hp : c.proc i with
      | none =>
        rw [hidle i hp] at hl
        cases hl
      | some jp =>
        obtain ⟨g', hg', hob⟩ := hprocs i jp.1 jp.2 hp
        obtain rfl : g = g' := Option.some.inj (hl.symm.trans hg')
        rw [hfin i jp.1 jp.2 hp] at hob
        exact hne (hob row.instanceId)
  · cases hst with
    | start hn hs =>
      obtain ⟨rfl, -⟩ := hs
      exact ⟨t, Table.get_of_mem ht, le_refl _⟩
    | call hp hs =>
      obtain ⟨g, hl, hob⟩ := hprocs _ _ _ hp
      exact ResizeInv.no_shrink hl hob.1 hg hs ht

/-! ## Resizes at the same time -/

section Runs

/-- `unraced`, decided. -/
def unracedCheck {ι : Type} [DecidableEq ι] (tr : List (Ev Ctl ResizeJob ι)) (w : World) : Ev Ctl ResizeJob ι → Bool
  | .call i (.updTenant tid _) _ =>
    match (resizeProtocol cfg).locs tr i with
    | some (.checked t _) => (w.tenants.get tid).all fun x => x.vcpu = t.vcpu
    | _ => true
  | .call i (.updHost id (.addVcpu _)) r => r.isSome &&
    match (resizeProtocol cfg).locs tr i with
    | some (.wrote h _) => (w.hosts.get id).all fun x => x.usedVcpu.all fun u => h.usedVcpu.all fun read => u ≤ read
    | _ => true
  | _ => true

theorem unracedCheck_sound {ι : Type} [DecidableEq ι] {tr : List (Ev Ctl ResizeJob ι)} {w : World}
    {e : Ev Ctl ResizeJob ι} (h : unracedCheck cfg tr w e = true) : unraced cfg tr w e := by
  cases e with
  | start i j => trivial
  | call i c r =>
    cases c
    case updTenant tid u =>
      intro _ t y x hl hx
      simp only [unracedCheck, hl] at h
      simpa [hx] using h
    case updHost id u =>
      cases u
      case addVcpu d =>
        simp only [unracedCheck, Bool.and_eq_true] at h
        refine ⟨h.1, fun y d' x u read hl hx hu hread => ?_⟩
        simpa [hl, hx, hu, hread] using h.2
      all_goals trivial
    all_goals trivial

/-- Two tenants of two vCPUs on a host of eight. -/
def resizeWorld : World where
  tenants := ⟨[{ id := "a-1", status := .running, vcpu := 2, memMb := 1024, hostId := some "i-1" },
    { id := "b-1", status := .running, vcpu := 2, memMb := 1024, hostId := some "i-1" }], by decide⟩
  hosts := .single
    { instanceId := "i-1", status := some .active, totalVcpu := some 8, totalMemMb := some 8192, usedVcpu := some 4,
      usedMemMb := some 2048, vmCount := some 2, nextVmNum := some 3 }

def resizeHost : HostRow := resizeWorld.hostRow "i-1"

/-- The starts of jobs, computed. -/
def resizeStart (j : ResizeJob) (w : World) : Option World :=
  match j with
  | .resize _ _ => some w
  | .reserve host _ _ =>
    if (w.hosts.get host.instanceId).all fun x => x.totalVcpu = host.totalVcpu then some w else none

theorem resizeStart_sound {j : ResizeJob} {w w' : World} (h : resizeStart j w = some w') :
    (resizeJobs cfg).start j w w' := by
  unfold resizeStart at h
  split at h
  · obtain rfl := Option.some.inj h
    exact ⟨rfl, trivial⟩
  · split at h
    · rename_i hall
      obtain rfl := Option.some.inj h
      exact ⟨rfl, fun x hx => by simpa [hx] using hall⟩
    · cases h

/-- All processes have ended, decided. -/
def finishedCheck {n : ℕ} (c : Conf Ctl World ResizeJob (Fin n) Unit) : Bool :=
  decide (∀ i, (c.proc i).all fun x => x.2.result.isSome)

theorem finishedCheck_sound {n : ℕ} {c : Conf Ctl World ResizeJob (Fin n) Unit} (h : finishedCheck c = true) :
    Finished c := by
  intro i j p hp
  have hi := of_decide_eq_true h i
  rw [hp] at hi
  obtain ⟨⟨⟩, ha⟩ := Option.isSome_iff_exists.1 (by simpa using hi)
  exact Prog.result_eq_some.1 ha

/-- Both tenants are resized and a tenant of one vCPU is placed; each host is read after the last booking there. -/
def resizeMoves : List (Move ResizeJob (Fin 3) Hint) :=
  [.start 0 (.resize "a-1" 3), .start 1 (.resize "b-1" 4), .start 2 (.reserve resizeHost 1 512)] ++
    [0, 1, 2, 0, 0, 0, 0, 1, 1, 1, 1].map (.call · {})

theorem resizes_keep_books_three : ∃ (tr : List (Ev Ctl ResizeJob (Fin 3))) (c : Conf Ctl World ResizeJob (Fin 3) Unit),
    Reach ctl (resizeJobs {}) (unraced {}) (Conf.idle resizeWorld) tr c ∧ Finished c ∧ reservedVcpu "i-1" tr = 1 ∧
      ∃ x u, c.world.hosts.get "i-1" = some x ∧ x.usedVcpu = some u ∧ u ≤ 8 ∧
        u = 4 + (c.world.vcpuOn "i-1" - resizeWorld.vcpuOn "i-1") + 1 := by
  have hplay : ((ctlOracle.play (resizeJobs {}) resizeStart (unracedCheck {}) [] (Conf.idle resizeWorld)
      resizeMoves).any fun x => finishedCheck x.2 && decide (reservedVcpu "i-1" x.1 = 1)) = true := by
    decide +kernel
  obtain ⟨tr, c, hr, hend⟩ := Oracle.exists_reach_of_play (fun _ _ _ h => resizeStart_sound {} h)
    (fun _ _ _ h => unracedCheck_sound {} h) hplay
  rw [Bool.and_eq_true, decide_eq_true_eq] at hend
  have hfin : Finished c := finishedCheck_sound hend.1
  have hrow : resizeWorld.hosts.get "i-1" = some resizeHost := rfl
  obtain ⟨⟨x, u, hx, hu, hle, heq⟩, -⟩ := resizes_keep_books {} hrow rfl hr
  refine ⟨tr, c, hr, hfin, hend.2, x, u, hx, hu, ?_, ?_⟩
  · have hbound := hle 8 rfl (by decide +kernel)
    have hmax : ({} : Config).allocVcpu 8 = 8 := by decide +kernel
    omega
  · have hsum := heq hfin
    rw [hend.2] at hsum
    exact hsum

/-- Two calls raise the same tenant from two vCPUs, one to three and one to four. -/
def doubleMoves : List (Move ResizeJob (Fin 2) Hint) :=
  [.start 0 (.resize "a-1" 4), .start 1 (.resize "a-1" 3)] ++ [0, 1, 0, 1, 0, 1, 0, 0, 1, 1].map (.call · {})

/-- **The same tenant twice.** Both calls read two vCPUs; the tenant ends with three, fewer than the four it had been
given, and the host is charged for three more. -/
theorem double_resize_counted_twice : ∃ (tr : List (Ev Ctl ResizeJob (Fin 2)))
    (c : Conf Ctl World ResizeJob (Fin 2) Unit),
    Reach ctl (resizeJobs {}) anyStep (Conf.idle resizeWorld) tr c ∧ Finished c ∧ reservedVcpu "i-1" tr = 0 ∧
      c.world.vcpuOn "i-1" - resizeWorld.vcpuOn "i-1" = 1 ∧
      (c.world.hosts.get "i-1").map HostRow.usedVcpu = some (some 7) ∧ resizeHost.usedVcpu = some 4 := by
  have hplay : ((ctlOracle.play (resizeJobs {}) resizeStart (fun _ _ _ => true) [] (Conf.idle resizeWorld)
      doubleMoves).any fun x => finishedCheck x.2 && decide (reservedVcpu "i-1" x.1 = 0 ∧
        x.2.world.vcpuOn "i-1" - resizeWorld.vcpuOn "i-1" = 1 ∧
        (x.2.world.hosts.get "i-1").map HostRow.usedVcpu = some (some 7))) = true := by
    decide +kernel
  obtain ⟨tr, c, hr, hend⟩ := Oracle.exists_reach_of_play (fun _ _ _ h => resizeStart_sound {} h)
    (fun _ _ _ _ => trivial) hplay
  rw [Bool.and_eq_true, decide_eq_true_eq] at hend
  obtain ⟨hfin, hres, hgrown, hused⟩ := hend
  exact ⟨tr, c, hr, finishedCheck_sound hfin, hres, hgrown, hused, rfl⟩

end Runs

end OpenClaw
