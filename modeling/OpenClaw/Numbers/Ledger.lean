import OpenClaw.Numbers.Protocol

/-!
# Who holds a number

A number of a host is held by the tenant whose row or whose failover message carries it, or by a process that has
reserved it and not written it yet (`Holds`). `NumInv` says that every number is held by one owner at most and is below
the host's counter; the lemmas say how each kind of write moves a number from one owner to another (`NumInv.take`,
`NumInv.write`, `NumInv.send`, `NumInv.move`).
-/

namespace OpenClaw

open Keyed Atomic

/-! ## Who holds a number -/

inductive Owner (ι : Type)
  | tenant (t : TenantId)
  | proc (i : ι)

section Ledger

variable {ι : Type} (l : ι → Option NumState) (w : World)

/-- A tenant holds what its row and its messages say, a process what it has taken and not written. -/
def Holds : Owner ι → HostId → Int → Prop
  | .tenant t, h, n => (∃ row ∈ w.tenants.rows, row.id = t ∧ row.hostId = some h ∧ row.vmNum = some n) ∨
      ∃ j ∈ w.queue, j.tenantId = t ∧ j.targetHostId = h ∧ j.targetVmNum = n
  | .proc i, h, n => ∃ g, l i = some g ∧ g.held = some (h, n)

/-- A host's `next_vm_num`. -/
def World.nextNum (h : HostId) : Option Int := (w.hosts.get h).bind HostRow.nextVmNum

/-- The host's counter is above `n`. -/
def World.below (h : HostId) (n : Int) : Prop := ∃ k, w.nextNum h = some k ∧ n < k

/-- No counter is lower in `w'`; the record of zone failovers is no host. -/
def NextLe (w w' : World) : Prop :=
  ∀ h, h ≠ azStateId → ∀ k, w.nextNum h = some k → ∃ k', w'.nextNum h = some k' ∧ k ≤ k'

/-- Below the counter, and held by nobody but `o`. -/
def Fresh (o : Owner ι) (h : HostId) (n : Int) : Prop := w.below h n ∧ ∀ o', Holds l w o' h n → o' = o

structure NumInv : Prop where
  below : ∀ o h n, h ≠ azStateId → Holds l w o h n → w.below h n
  unique : ∀ o o' h n, h ≠ azStateId → Holds l w o h n → Holds l w o' h n → o = o'
  jobs : ∀ i g j, l i = some g → g.job = some j → j ∈ w.queue

variable {l w} {l' : ι → Option NumState} {w' : World}

theorem NextLe.refl : NextLe w w := fun _ _ k hk => ⟨k, hk, le_refl k⟩

theorem NextLe.of_hosts (h : w'.hosts = w.hosts) : NextLe w w' := fun x _ k hk =>
  ⟨k, by rw [World.nextNum, h]; exact hk, le_refl k⟩

theorem NextLe.below (hle : NextLe w w') {h : HostId} {n : Int} (hh : h ≠ azStateId) (hb : w.below h n) :
    w'.below h n := by
  obtain ⟨k, hk, hlt⟩ := hb
  obtain ⟨k', hk', hkk⟩ := hle h hh k hk
  exact ⟨k', hk', by omega⟩

/-- A step keeps the ledger in order when each number held after it was held by the same owner before, or is below the
counter and held by nobody else. -/
theorem NumInv.step (hI : NumInv l w) (hle : NextLe w w')
    (hjobs : ∀ i g j, l' i = some g → g.job = some j → j ∈ w'.queue)
    (hold : ∀ o h n, h ≠ azStateId → Holds l' w' o h n → Holds l w o h n ∨ Fresh l' w' o h n) : NumInv l' w' := by
  refine ⟨fun o h n hh ho => ?_, fun o o' h n hh ho ho' => ?_, hjobs⟩
  · rcases hold o h n hh ho with hold | hnew
    · exact hle.below hh (hI.below o h n hh hold)
    · exact hnew.1
  · rcases hold o h n hh ho with hold₁ | hnew
    · rcases hold o' h n hh ho' with hold₂ | hnew
      · exact hI.unique o o' h n hh hold₁ hold₂
      · exact hnew.2 o ho
    · exact (hnew.2 o' ho').symm

/-! ### One process makes a call -/

theorem holds_tenant_same {t : TenantId} {h : HostId} {n : Int} (ht : w'.tenants = w.tenants)
    (hq : w'.queue = w.queue) (ho : Holds l' w' (.tenant t) h n) : Holds l w (.tenant t) h n := by
  rw [Holds, ht, hq] at ho
  exact ho

theorem holds_put {r : TenantRow} {t : TenantId} {h : HostId} {n : Int} (ho : Holds l' (w.putTenant r) (.tenant t) h n) :
    (t = r.id ∧ r.hostId = some h ∧ r.vmNum = some n) ∨ Holds l w (.tenant t) h n := by
  rcases ho with ⟨row, hrow, rfl, hh, hn⟩ | hj
  · rcases Table.mem_put.1 hrow with rfl | ⟨hrow, -⟩
    · exact .inl ⟨rfl, hh, hn⟩
    · exact .inr (.inl ⟨row, hrow, rfl, hh, hn⟩)
  · exact .inr (.inr hj)

variable [DecidableEq ι] {i : ι} {g g' : NumState}

theorem holds_proc_update {k : ι} {h : HostId} {n : Int}
    (hk : Holds (Function.update l i (some g')) w' (.proc k) h n) :
    k = i ∧ g'.held = some (h, n) ∨ k ≠ i ∧ Holds l w (.proc k) h n := by
  obtain ⟨g₁, hg₁, hheld⟩ := hk
  by_cases e : k = i
  · subst e
    rw [Function.update_self] at hg₁
    exact .inl ⟨rfl, Option.some.inj hg₁ ▸ hheld⟩
  · rw [Function.update_of_ne e] at hg₁
    exact .inr ⟨e, g₁, hg₁, hheld⟩

/-- The job of a process never changes. -/
theorem jobs_update (hI : NumInv l w) (hi : l i = some g) (hj : g'.job = g.job) (hq : ∀ j ∈ w.queue, j ∈ w'.queue) :
    ∀ k g₁ j, Function.update l i (some g') k = some g₁ → g₁.job = some j → j ∈ w'.queue := by
  intro k g₁ j hk hjob
  by_cases e : k = i
  · subst e
    rw [Function.update_self] at hk
    obtain rfl := Option.some.inj hk
    exact hq j (hI.jobs k g j hi (hj ▸ hjob))
  · rw [Function.update_of_ne e] at hk
    exact hq j (hI.jobs k g₁ j hk hjob)

/-- The rows and the queue stay, and the process takes nothing. -/
theorem NumInv.frame (hI : NumInv l w) (hi : l i = some g) (hj : g'.job = g.job)
    (hheld : g'.held = none ∨ g'.held = g.held) (ht : w'.tenants = w.tenants) (hq : w'.queue = w.queue)
    (hle : NextLe w w') : NumInv (Function.update l i (some g')) w' := by
  refine hI.step hle (jobs_update hI hi hj fun j hj => hq ▸ hj) fun o h n _ ho => .inl ?_
  cases o with
  | tenant t => exact holds_tenant_same ht hq ho
  | proc k =>
    rcases holds_proc_update (w := w) ho with ⟨rfl, hg⟩ | ⟨-, hk⟩
    · rcases hheld with hnone | hsame
      · rw [hnone] at hg
        cases hg
      · exact ⟨g, hi, hsame ▸ hg⟩
    · exact hk

/-- A row is written whose number its tenant held already, or is fresh. -/
theorem NumInv.put (hI : NumInv l w) (hi : l i = some g) (hj : g'.job = g.job)
    (hheld : g'.held = none ∨ g'.held = g.held) {r : TenantRow}
    (hr : ∀ h n, h ≠ azStateId → r.hostId = some h → r.vmNum = some n → Holds l w (.tenant r.id) h n ∨
      Fresh (Function.update l i (some g')) (w.putTenant r) (.tenant r.id) h n) :
    NumInv (Function.update l i (some g')) (w.putTenant r) := by
  refine hI.step (.of_hosts rfl) (jobs_update hI hi hj fun j hj => hj) fun o h n hh ho => ?_
  cases o with
  | tenant t =>
    rcases holds_put ho with ⟨rfl, hrh, hrn⟩ | ho
    · exact hr h n hh hrh hrn
    · exact .inl ho
  | proc k =>
    rcases holds_proc_update (w := w) ho with ⟨rfl, hg⟩ | ⟨-, hk⟩
    · rcases hheld with hnone | hsame
      · rw [hnone] at hg
        cases hg
      · exact .inl ⟨g, hi, hsame ▸ hg⟩
    · exact .inl hk

/-- An update that leaves host and number as they are. -/
theorem NumInv.update (hI : NumInv l w) (hi : l i = some g) {id : TenantId} {u : TenantUpdate} {t : TenantRow}
    (ht : w.tenants.get id = some t) (hu : u.movesTo = none) :
    NumInv (Function.update l i (some g)) (w.putTenant (u.apply t)) := by
  refine hI.put hi rfl (.inr rfl) fun h n _ hh hn => .inl ?_
  obtain ⟨eh, en⟩ := TenantUpdate.apply_of_movesTo_none hu t
  exact .inl ⟨t, Table.mem_of_get ht, by simp, eh ▸ hh, en ▸ hn⟩

/-- An update that moves a tenant to a fresh number. -/
theorem NumInv.move (hI : NumInv l w) (hi : l i = some g) {id : TenantId} {u : TenantUpdate} {t : TenantRow}
    (ht : w.tenants.get id = some t)
    (hu : ∀ h n, h ≠ azStateId → u.movesTo = some (h, n) → Holds l w (.tenant id) h n ∨ Fresh l w (.tenant id) h n) :
    NumInv (Function.update l i (some g)) (w.putTenant (u.apply t)) := by
  cases hm : u.movesTo with
  | none => exact hI.update hi ht hm
  | some x =>
    obtain ⟨h₁, n₁⟩ := x
    have hid : (u.apply t).id = id := (TenantUpdate.apply_id u t).trans (Table.key_of_get ht)
    obtain ⟨eh, en⟩ := TenantUpdate.apply_of_movesTo hm t
    refine hI.put hi rfl (.inr rfl) fun h n hh hrh hrn => ?_
    obtain rfl : h₁ = h := Option.some.inj (eh.symm.trans hrh)
    obtain rfl : n₁ = n := Option.some.inj (en.symm.trans hrn)
    rw [hid]
    refine (hu h₁ n₁ hh hm).imp_right fun hf => ⟨NextLe.below (.of_hosts rfl) hh hf.1, fun o ho => ?_⟩
    cases o with
    | tenant t' =>
      rcases holds_put ho with ⟨rfl, -, -⟩ | ho
      · rw [hid]
      · exact hf.2 _ ho
    | proc k =>
      rcases holds_proc_update (w := w) ho with ⟨rfl, hg⟩ | ⟨-, hk⟩
      · exact hf.2 (.proc k) ⟨g, hi, hg⟩
      · exact hf.2 _ hk

/-- A create writes the number it has reserved. -/
theorem NumInv.write (hI : NumInv l w) (hi : l i = some g) {r : TenantRow}
    (hr : r.hostId = none ∨ ∃ h n, g.held = some (h, n) ∧ r.hostId = some h ∧ r.vmNum = some n) :
    NumInv (Function.update l i (some { g with held := none })) (w.putTenant r) := by
  refine hI.put hi (by rfl) (by exact .inl rfl) fun h n hh hrh hrn => .inr ?_
  obtain hnone | ⟨h₁, n₁, hheld, eh, en⟩ := hr
  · rw [hnone] at hrh
    cases hrh
  obtain rfl : h₁ = h := Option.some.inj (eh.symm.trans hrh)
  obtain rfl : n₁ = n := Option.some.inj (en.symm.trans hrn)
  have hp : Holds l w (.proc i) h₁ n₁ := ⟨g, hi, hheld⟩
  refine ⟨NextLe.below (.of_hosts rfl) hh (hI.below _ _ _ hh hp), fun o ho => ?_⟩
  cases o with
  | tenant t =>
    rcases holds_put ho with ⟨rfl, -, -⟩ | ho
    · rfl
    · cases hI.unique _ _ _ _ hh ho hp
  | proc k =>
    rcases holds_proc_update (w := w) ho with ⟨-, hg⟩ | ⟨hne, hk⟩
    · cases hg
    · cases hI.unique _ _ _ _ hh hk hp
      exact absurd rfl hne

/-- A message carries the number the detector has reserved. -/
theorem NumInv.send (hI : NumInv l w) (hi : l i = some g) {j : FailoverJob}
    (hj : g.held = some (j.targetHostId, j.targetVmNum)) :
    NumInv (Function.update l i (some { g with held := none })) (w.enqueue j) := by
  have hp : Holds l w (.proc i) j.targetHostId j.targetVmNum := ⟨g, hi, hj⟩
  have hold : ∀ t h n, Holds (Function.update l i (some { g with held := none })) (w.enqueue j) (.tenant t) h n →
      t = j.tenantId ∧ j.targetHostId = h ∧ j.targetVmNum = n ∨ Holds l w (.tenant t) h n := by
    rintro t h n (hrow | ⟨j', hj', rfl, hh, hn⟩)
    · exact .inr (.inl hrow)
    · rcases List.mem_append.1 hj' with hj' | hj'
      · exact .inr (.inr ⟨j', hj', rfl, hh, hn⟩)
      · obtain rfl := List.mem_singleton.1 hj'
        exact .inl ⟨rfl, hh, hn⟩
  refine hI.step (.of_hosts rfl) (jobs_update hI hi rfl fun j' hj' => List.mem_append_left _ hj') fun o h n hh ho => ?_
  cases o with
  | tenant t =>
    rcases hold t h n ho with ⟨rfl, rfl, rfl⟩ | ho
    · refine .inr ⟨NextLe.below (.of_hosts rfl) hh (hI.below _ _ _ hh hp), fun o ho => ?_⟩
      cases o with
      | tenant t =>
        rcases hold t _ _ ho with ⟨rfl, -, -⟩ | ho
        · rfl
        · cases hI.unique _ _ _ _ hh ho hp
      | proc k =>
        rcases holds_proc_update (w := w) ho with ⟨-, hg⟩ | ⟨hne, hk⟩
        · cases hg
        · cases hI.unique _ _ _ _ hh hk hp
          exact absurd rfl hne
    · exact .inl ho
  | proc k =>
    rcases holds_proc_update (w := w) ho with ⟨-, hg⟩ | ⟨-, hk⟩
    · cases hg
    · exact .inl hk

/-- A process takes a number that nobody holds. -/
theorem NumInv.take (hI : NumInv l w) (hi : l i = some g) (ht : w'.tenants = w.tenants) (hq : w'.queue = w.queue)
    (hle : NextLe w w') {h : HostId} {n : Int} (hb : h ≠ azStateId → w'.below h n)
    (hf : h ≠ azStateId → ∀ o, ¬ Holds l w o h n) :
    NumInv (Function.update l i (some { g with held := some (h, n) })) w' := by
  refine hI.step hle (jobs_update hI hi rfl fun j hj => hq ▸ hj) fun o h₁ n₁ hh ho => ?_
  cases o with
  | tenant t => exact .inl (holds_tenant_same ht hq ho)
  | proc k =>
    rcases holds_proc_update (w := w) ho with ⟨rfl, hg⟩ | ⟨-, hk⟩
    · obtain ⟨rfl, rfl⟩ := Prod.mk.inj (Option.some.inj hg)
      refine .inr ⟨hb hh, fun o ho => ?_⟩
      cases o with
      | tenant t => exact absurd (holds_tenant_same ht hq ho) (hf hh _)
      | proc k' =>
        rcases holds_proc_update (w := w) ho with ⟨rfl, -⟩ | ⟨-, hk⟩
        · rfl
        · exact absurd hk (hf hh _)
    · exact .inl hk

end Ledger

/-! ## What the calls do to the counters -/

section Counters

variable {w w' : World}

theorem nextNum_putHost (x : HostRow) (h : HostId) :
    (w.putHost x).nextNum h = if h = x.instanceId then x.nextVmNum else w.nextNum h := by
  rw [World.nextNum, World.putHost_hosts, Table.get_put]
  split <;> rfl

theorem hostRow_next (id : HostId) : (w.hostRow id).nextVmNum = w.nextNum id := by
  rw [World.hostRow, HostRow.orNew, World.nextNum]
  cases w.hosts.get id <;> rfl

/-- A row whose counter is not lower than the stored one. -/
theorem NextLe.putHost {x : HostRow}
    (hx : x.instanceId ≠ azStateId → ∀ k, w.nextNum x.instanceId = some k → ∃ k', x.nextVmNum = some k' ∧ k ≤ k') :
    NextLe w (w.putHost x) := by
  intro h hh k hk
  rw [nextNum_putHost]
  split
  · rename_i e
    subst e
    exact hx hh k hk
  · exact ⟨k, hk, le_refl k⟩

theorem HostUpdate.apply_next {u : HostUpdate} {x x' : HostRow} (hu : u.apply x = some x') (hinc : u ≠ .incNext) :
    (∃ v m next, u = .book v m next ∧ x'.nextVmNum = some next) ∨
      x'.nextVmNum = x.nextVmNum ∨ ∃ k, x.nextVmNum = some k ∧ x'.nextVmNum = some (k + 1) := by
  cases u
  case reserve =>
    obtain ⟨_, _, _, k, -, -, -, hk, rfl⟩ := HostUpdate.reserve_eq_some.1 hu
    exact .inr (.inr ⟨k, hk, rfl⟩)
  case release =>
    obtain ⟨_, _, _, -, -, -, rfl⟩ := HostUpdate.release_eq_some.1 hu
    exact .inr (.inl rfl)
  case book v m next =>
    obtain ⟨_, _, _, -, -, -, rfl⟩ := HostUpdate.book_eq_some.1 hu
    exact .inl ⟨v, m, next, rfl, rfl⟩
  case addVcpu =>
    obtain ⟨_, -, rfl⟩ := HostUpdate.addVcpu_eq_some.1 hu
    exact .inr (.inl rfl)
  case incNext => exact absurd rfl hinc
  all_goals
    obtain rfl := Option.some.inj hu
    exact .inr (.inl rfl)

/-- The absolute write of `process_pending` does not lower the counter. -/
def Call.booksUp (w : World) : (c : Call) → c.Ans → Prop
  | .updHost h (.book _ _ next), some _ => h ≠ azStateId → ∀ k, w.nextNum h = some k → k ≤ next
  | _, _ => True

/-- The tables answer with the row that was asked for. -/
theorem step_sane {J : Type} {msg : J → Option FailoverJob} {g : NumState} {c : Call} {r : c.Ans}
    (hs : World.step c r w w') : (numbering msg).sane g c r := by
  cases c <;> first | exact trivial | skip
  case getTenant id =>
    rintro t rfl
    exact Table.key_of_get hs.1.symm
  case getHost id =>
    rintro h rfl
    exact Table.key_of_get hs.1.symm

/-- **No allowed step lowers a counter.** -/
theorem step_nextLe {J : Type} {msg : J → Option FailoverJob} {g : NumState} {c : Call} {r : c.Ans}
    (hallow : (numbering msg).allow g c) (hg : c.booksUp w r) (hs : World.step c r w w') : NextLe w w' := by
  by_cases hw : c.writesHosts = false
  · exact .of_hosts (step_hosts hw hs)
  cases c <;> first | exact absurd rfl hw | skip
  case putHost x =>
    rcases sent.eq_or hs with rfl | rfl
    · exact .putHost fun hx => absurd hallow hx
    · exact .refl
  case updHost id u =>
    cases r with
    | none =>
      obtain rfl : w' = w := hs
      exact .refl
    | some x =>
      obtain ⟨hu, rfl⟩ := hs
      have hid : x.instanceId = id := (HostUpdate.apply_id hu).trans (World.hostRow_id _ id)
      refine .putHost fun hx k hk => ?_
      rw [hid] at hx hk
      rcases HostUpdate.apply_next hu hallow with ⟨v, m, next, rfl, hn⟩ | hn | ⟨k', hk', hn⟩
      · exact ⟨next, hn, hg hx k hk⟩
      · exact ⟨k, by rw [hn, hostRow_next, hk], le_refl k⟩
      · rw [hostRow_next, hk] at hk'
        obtain rfl := Option.some.inj hk'
        exact ⟨k + 1, hn, by omega⟩
  case reserveHost id cond v m =>
    cases r with
    | next n =>
      obtain ⟨x, x', hx, -, hu, hn, rfl⟩ := hs
      have hid : x'.instanceId = id := (HostUpdate.apply_id hu).trans (Table.key_of_get hx)
      refine .putHost fun _ k hk => ⟨n, hn, ?_⟩
      rw [hid, World.nextNum, hx] at hk
      obtain ⟨_, _, _, k', -, -, -, hk', rfl⟩ := HostUpdate.reserve_eq_some.1 hu
      obtain rfl := Option.some.inj (hk.symm.trans hk')
      have : k + 1 = n := Option.some.inj hn
      omega
    | refused => exact .of_hosts (congrArg World.hosts hs.2)
    | failed => exact .of_hosts (congrArg World.hosts (show w' = w from hs))
  case raiseNext id n =>
    cases r with
    | done =>
      obtain ⟨hlt, rfl⟩ := hs
      refine .putHost fun _ k hk => ⟨n, rfl, ?_⟩
      rw [hostRow_next] at hlt
      simp only [World.hostRow_id] at hk
      rw [hk, Option.all_some, decide_eq_true_eq] at hlt
      exact hlt.le
    | refused => exact .of_hosts (congrArg World.hosts hs.2)
    | failed => exact .of_hosts (congrArg World.hosts (show w' = w from hs))
  case incNext id =>
    cases r with
    | none => exact .of_hosts (congrArg World.hosts (show w' = w from hs))
    | some old =>
      obtain ⟨-, x, hx, rfl⟩ := hs
      obtain rfl := Option.some.inj hx
      refine .putHost fun _ k hk => ⟨_, rfl, ?_⟩
      simp only [World.hostRow_id] at hk
      rw [hostRow_next, hk, Option.getD_some]
      omega
  case deleteHost => exact hallow.elim

end Counters

end OpenClaw
