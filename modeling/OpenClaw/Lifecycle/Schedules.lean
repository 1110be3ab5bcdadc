import OpenClaw.Lifecycle.Expiry

/-!
# Expiry and schedules

One tick of the scaler runs two passes over the tenants. The expiry pass stops what is past its `expires_at` and skips
what is already stopped; the schedule pass starts whatever is stopped inside its window, and does not look at
`expires_at`.

- `ttlRow`, `schedRow`: what the two passes leave of a row; `schedStarts`: the rows the second one launches.
- `Handled`: a pass over scanned rows does this for every row and leaves the others alone.
- `scalerTick_row`: one tick, for a row with `expires_at`.
- `expiry_schedule`: over any sequence of ticks, an expired tenant rests after every tick exactly when no tick after
  its expiry falls into the window of its schedule.
-/

namespace OpenClaw

open Keyed Atomic

variable (cfg : Config)

/-! ## Runs in which nothing fails -/

/-- The write or the SSM request goes through. -/
def Call.went (c : Call) (r : c.Ans) : Bool :=
  match c, r with
  | .ssmSend _ _, r => r.isSome
  | c, r => c.written r

/-- Writes and SSM requests succeed. -/
abbrev smooth : Sem Ctl World := ctl.restrict fun c r _ => c.went r = true

/-- The tenants whose VM a command launches. -/
def HostCmd.launched : HostCmd → List TenantId
  | .launchVm tid _ _ _ _ _ _ => [tid]
  | .and a b | .seq a b => a.launched ++ b.launched
  | _ => []

/-- The tenants launched by a run. -/
def launched (l : CallLog) : List TenantId := (vmCommands l).flatMap fun x => x.2.launched

/-- The times a run read from the clock. -/
def clockReads (l : CallLog) : List Time :=
  l.filterMap fun x =>
    match x with
    | ⟨.now, r⟩ => some r
    | _ => none

theorem launched_append (l l' : CallLog) : launched (l ++ l') = launched l ++ launched l' := by
  rw [launched, vmCommands_append, List.flatMap_append]
  rfl

theorem clockReads_append (l l' : CallLog) : clockReads (l ++ l') = clockReads l ++ clockReads l' :=
  List.filterMap_append

/-! ## What the passes leave of a row -/

/-- No pass changes a row that is deleted or failed. -/
def TenantRow.ended (t : TenantRow) : Prop := t.status = .deleted ∨ t.status = .failed

/-- The expiry pass. -/
def ttlRow (now : Time) (t : TenantRow) : TenantRow :=
  if t.status = .stopped ∨ t.status = .deleted ∨ t.status = .failed then t
  else if t.expiresAt.all fun e => now < e then t
  else
    match t.onExpiry.getD .stop with
    | .stop => (TenantUpdate.status .stopped).apply t
    | .delete => (TenantUpdate.status .deleted).apply t

/-- The schedule pass launches the VM. -/
def schedStarts (now : Time) (t : TenantRow) : Prop :=
  ∃ s h, t.schedule = some s ∧ t.hostId = some h ∧ scheduleShouldRun cfg s now = true ∧ t.status = .stopped

/-- The schedule pass. -/
def schedRow (now : Time) (t : TenantRow) : TenantRow :=
  match t.schedule, t.hostId with
  | some s, some _ =>
    if scheduleShouldRun cfg s now = true ∧ t.status = .stopped then (TenantUpdate.status .running).apply t
    else if scheduleShouldRun cfg s now = false ∧ t.status = .running then (TenantUpdate.status .stopped).apply t
    else t
  | _, _ => t

/-- The rows differ in the status only, and both are ended or neither is. -/
structure SameButStatus (t t' : TenantRow) : Prop where
  id : t'.id = t.id
  schedule : t'.schedule = t.schedule
  hostId : t'.hostId = t.hostId
  expiresAt : t'.expiresAt = t.expiresAt
  onExpiry : t'.onExpiry = t.onExpiry
  ended : t'.ended ↔ t.ended

theorem SameButStatus.refl (t : TenantRow) : SameButStatus t t := ⟨rfl, rfl, rfl, rfl, rfl, Iff.rfl⟩

theorem SameButStatus.trans {t t' t'' : TenantRow} (h : SameButStatus t t') (h' : SameButStatus t' t'') :
    SameButStatus t t'' :=
  ⟨h'.id.trans h.id, h'.schedule.trans h.schedule, h'.hostId.trans h.hostId, h'.expiresAt.trans h.expiresAt,
    h'.onExpiry.trans h.onExpiry, h'.ended.trans h.ended⟩

theorem sameButStatus_status {t : TenantRow} {s : TenantStatus} (hs : s = .stopped ∨ s = .running)
    (ht : ¬ t.ended) : SameButStatus t ((TenantUpdate.status s).apply t) := by
  refine ⟨rfl, rfl, rfl, rfl, rfl, ⟨fun h => ?_, fun h => absurd h ht⟩⟩
  have h : s = .deleted ∨ s = .failed := h
  rcases hs with rfl | rfl <;> simp at h

section Rows

variable {cfg} {t : TenantRow} {now : Time} {e : Time}

theorem ttlRow_same (ho : t.onExpiry.getD .stop = .stop) : SameButStatus t (ttlRow now t) := by
  unfold ttlRow
  split
  · exact .refl t
  split
  · exact .refl t
  · rename_i hterm _
    rw [ho]
    exact sameButStatus_status (.inl rfl) fun h => hterm (.inr h)

theorem schedRow_same : SameButStatus t (schedRow cfg now t) := by
  unfold schedRow
  split
  · split
    · rename_i h
      exact sameButStatus_status (.inr rfl) fun he => by rcases he with he | he <;> rw [h.2] at he <;> cases he
    split
    · rename_i h
      exact sameButStatus_status (.inl rfl) fun he => by rcases he with he | he <;> rw [h.2] at he <;> cases he
    · exact .refl t
  · exact .refl t

/-- Past its expiry a tenant that has not ended is stopped by the first pass. -/
theorem ttlRow_stopped (he : t.expiresAt = some e) (ho : t.onExpiry.getD .stop = .stop) (hle : e ≤ now)
    (ht : ¬ t.ended) : (ttlRow now t).status = .stopped := by
  unfold ttlRow
  split
  · rename_i h
    rcases h with h | h
    · exact h
    · exact absurd h ht
  · rw [he]
    simp only [Option.all_some, decide_eq_true_eq, Int.not_lt.2 hle, if_false, ho]
    rfl

theorem ttlRow_of_ended (ht : t.ended) : ttlRow now t = t := if_pos (.inr ht)

/-- The second pass leaves a stopped row running exactly when it launches it. -/
theorem schedRow_running (hs : t.status = .stopped) :
    (schedRow cfg now t).status = .running ↔ schedStarts cfg now t := by
  unfold schedRow schedStarts
  split
  · rename_i s h hsched hhost
    by_cases hrun : scheduleShouldRun cfg s now = true
    · simp [hrun, hs, TenantUpdate.apply, hsched, hhost]
    · simp [hrun, hs, hsched]
  · rename_i hno
    refine ⟨fun h => ?_, fun h => ?_⟩
    · rw [hs] at h
      cases h
    · obtain ⟨s, h, hsched, hhost, -⟩ := h
      exact absurd hhost (hno s h hsched)

end Rows

/-! ## A pass over scanned rows -/

/-- The run left every scanned row as `f` says and the others as they were, and launched the rows of `L`. -/
structure Handled (f : TenantRow → TenantRow) (L : TenantRow → Prop) (ts : List TenantRow) (w : World) (l : CallLog)
    (w' : World) : Prop where
  rows : ∀ t ∈ ts, w'.tenants.get t.id = some (f t) ∧ (t.id ∈ launched l ↔ L t)
  others : ∀ id, id ∉ ts.map TenantRow.id → w'.tenants.get id = w.tenants.get id ∧ id ∉ launched l
  clock : clockReads l = []

section Passes

variable {f : TenantRow → TenantRow} {L : TenantRow → Prop} {t : TenantRow} {ts : List TenantRow} {w w₁ w' : World}
  {l l' : CallLog}

theorem Handled.nil (f : TenantRow → TenantRow) (L : TenantRow → Prop) (w : World) : Handled f L [] w [] w where
  rows _ ht := absurd ht List.not_mem_nil
  others _ _ := ⟨rfl, List.not_mem_nil⟩
  clock := rfl

/-- The first row of a scan, and then the rest. -/
theorem Handled.cons (h₁ : Handled f L [t] w l w₁) (h₂ : Handled f L ts w₁ l' w')
    (hn : ((t :: ts).map TenantRow.id).Nodup) : Handled f L (t :: ts) w (l ++ l') w' := by
  obtain ⟨hnt, -⟩ := List.nodup_cons.1 hn
  refine ⟨fun x hx => ?_, fun id hid => ?_, by rw [clockReads_append, h₁.clock, h₂.clock]; rfl⟩
  · rw [launched_append, List.mem_append]
    rcases List.mem_cons.1 hx with rfl | hx
    · obtain ⟨hrow, hlaunch⟩ := h₁.rows x List.mem_cons_self
      obtain ⟨hkeep, hno⟩ := h₂.others x.id hnt
      exact ⟨hkeep.trans hrow, by rw [← hlaunch]; exact or_iff_left hno⟩
    · obtain ⟨hrow, hlaunch⟩ := h₂.rows x hx
      have hne : x.id ∉ [t].map TenantRow.id := by
        rw [List.map_singleton, List.mem_singleton]
        exact fun e => hnt (e ▸ List.mem_map_of_mem hx)
      obtain ⟨-, hno⟩ := h₁.others x.id hne
      exact ⟨hrow, by rw [← hlaunch]; exact or_iff_right hno⟩
  · rw [List.map_cons, List.mem_cons, not_or] at hid
    obtain ⟨hkeep₁, hno₁⟩ := h₁.others id (by simpa using hid.1)
    obtain ⟨hkeep₂, hno₂⟩ := h₂.others id hid.2
    rw [launched_append, List.mem_append, not_or]
    exact ⟨hkeep₂.trans hkeep₁, hno₁, hno₂⟩

/-- A row that is left alone. -/
theorem Handled.skip (hg : w.tenants.get t.id = some t) (hf : f t = t) (hL : ¬ L t) : Handled f L [t] w [] w where
  rows x hx := by
    obtain rfl := List.mem_singleton.1 hx
    exact ⟨by rw [hg, hf], by simp [launched, vmCommands, hL]⟩
  others id _ := ⟨rfl, by simp [launched, vmCommands]⟩
  clock := rfl

/-- A status write after the calls `l`, which may have launched the row's VM. -/
theorem Handled.write {u : World} {s : TenantStatus} (hu : u.tenants = w.tenants)
    (hf : f t = (TenantUpdate.status s).apply t) (hl : launched l = [] ∧ ¬ L t ∨ launched l = [t.id] ∧ L t)
    (hc : clockReads l = []) : Handled f L [t] w (l ++ [⟨.updTenant t.id (.status s), true⟩])
      (u.putTenant ((TenantUpdate.status s).apply t)) where
  rows x hx := by
    obtain rfl := List.mem_singleton.1 hx
    refine ⟨?_, ?_⟩
    · rw [World.putTenant_tenants, hf]
      exact Table.get_put_self _ _
    · have hlast : launched [(⟨.updTenant x.id (.status s), true⟩ : Answered Ctl)] = [] := rfl
      rw [launched_append, hlast, List.append_nil]
      rcases hl with ⟨hl, hL⟩ | ⟨hl, hL⟩ <;> simp [hl, hL]
  others id hid := by
    have hne : id ≠ t.id := by simpa using hid
    refine ⟨?_, ?_⟩
    · rw [World.putTenant_tenants, hu]
      exact Table.get_put_ne _ hne
    · have hlast : launched [(⟨.updTenant t.id (.status s), true⟩ : Answered Ctl)] = [] := rfl
      rw [launched_append, hlast, List.append_nil]
      rcases hl with ⟨hl, -⟩ | ⟨hl, -⟩ <;> simp [hl, hne]
  clock := by rw [clockReads_append, hc]; rfl

end Passes

/-! ## The expiry pass -/

/-- What the loop of `_process_ttl_expirations` does for one row. -/
def expireOne (now : Time) (t : TenantRow) : CtlProg Unit :=
  if t.status = .stopped ∨ t.status = .deleted ∨ t.status = .failed then pure ()
  else if t.expiresAt.all fun e => now < e then pure ()
  else
    match t.onExpiry.getD .stop, t.hostId with
    | .stop, none => do
      let _ ← req (.updTenant t.id (.status .stopped))
    | .stop, some h => do
      let _ ← req (.ssmSend (some h) (.stopVm t.id (t.vmNum.getD 1)))
      let _ ← req (.updTenant t.id (.status .stopped))
    | .delete, _ => do
      let _ ← req (.updTenant t.id (.status .deleted))

theorem expireAll_cons (now : Time) (t : TenantRow) (ts : List TenantRow) :
    expireAll now (t :: ts) = expireOne now t >>= fun _ => expireAll now ts := by
  unfold expireOne
  rw [expireAll]
  split
  · rfl
  split
  · rfl
  cases t.onExpiry.getD .stop with
  | stop => cases t.hostId <;> rfl
  | delete => rfl

section Smooth

variable {cfg} {w : World} {now : Time}

/-- A command sent to a host changes no row. -/
theorem ssmSend_smooth {α : Type} {Q : CallLog → α → World → Prop} {host : HostId} {cmd : HostCmd}
    {k : Option CommandId → CtlProg α}
    (hk : ∀ id u, u.tenants = w.tenants →
      (k (some id)).wpt smooth (fun l => Q (⟨.ssmSend (some host) cmd, some id⟩ :: l)) u) :
    (@Prog.call Ctl α (.ssmSend (some host) cmd) k).wpt smooth Q w := by
  intro r u h
  obtain ⟨hw, hs⟩ := h
  have hs : World.step (.ssmSend (some host) cmd) r w u := hs
  obtain ⟨id, rfl⟩ : ∃ id, r = some id := Option.isSome_iff_exists.1 hw
  exact hk id u (step_quiet ⟨rfl, rfl, rfl⟩ hs).1

/-- A status write to a row that is there. -/
theorem updStatus_smooth {α : Type} {Q : CallLog → α → World → Prop} {t : TenantRow} {x : TenantUpdate}
    {k : Bool → CtlProg α} (hg : w.tenants.get t.id = some t)
    (hk : (k true).wpt smooth (fun l => Q (⟨.updTenant t.id x, true⟩ :: l)) (w.putTenant (x.apply t))) :
    (@Prog.call Ctl α (.updTenant t.id x) k).wpt smooth Q w := by
  intro r u h
  obtain ⟨hw, t', ht', hs⟩ := h
  obtain rfl : r = true := hw
  obtain rfl : t = t' := Option.some.inj (hg.symm.trans ht')
  obtain rfl : u = w.putTenant (x.apply t) := hs
  exact hk

theorem expireOne_handled {t : TenantRow} (hg : w.tenants.get t.id = some t) :
    (expireOne now t).wpt smooth (fun l _ => Handled (ttlRow now) (fun _ => False) [t] w l) w := by
  have hquiet : ∀ {l : CallLog}, launched l = [] → launched l = [] ∧ ¬ False ∨ launched l = [t.id] ∧ False :=
    fun h => .inl ⟨h, not_false⟩
  unfold expireOne
  split
  · rename_i hterm
    exact .skip hg (if_pos hterm) not_false
  split
  · rename_i hterm hexp
    refine .skip hg ?_ not_false
    rw [ttlRow, if_neg hterm, if_pos hexp]
  rename_i hterm hexp
  have hrow : ∀ o, t.onExpiry.getD .stop = o → ttlRow now t = match o with
      | .stop => (TenantUpdate.status .stopped).apply t
      | .delete => (TenantUpdate.status .deleted).apply t := by
    intro o ho
    rw [ttlRow, if_neg hterm, if_neg hexp, ho]
  cases ho : t.onExpiry.getD .stop with
  | stop =>
    cases t.hostId with
    | none => exact updStatus_smooth hg (.write (l := []) rfl (hrow _ ho) (hquiet rfl) rfl)
    | some host =>
      refine ssmSend_smooth fun id u hu => updStatus_smooth (hu ▸ hg) ?_
      exact .write (l := [⟨.ssmSend (some host) _, some id⟩]) hu (hrow _ ho) (hquiet rfl) rfl
  | delete => exact updStatus_smooth hg (.write (l := []) rfl (hrow _ ho) (hquiet rfl) rfl)

theorem expireAll_handled (ts : List TenantRow) (h : Unhandled w (fun _ => True) ts) :
    (expireAll now ts).wpt smooth (fun l _ => Handled (ttlRow now) (fun _ => False) ts w l) w := by
  induction ts generalizing w with
  | nil => exact .nil _ _ _
  | cons t ts ih =>
    rw [expireAll_cons]
    refine (Prog.wpt_bind ..).2 (Prog.wpt_mono ?_ (expireOne_handled (h.rows t List.mem_cons_self).1))
    intro l a w₁ h₁
    have hrest : Unhandled w₁ (fun _ => True) ts := h.tail fun id hid => (h₁.others id (by simpa using hid)).1
    exact Prog.wpt_mono (fun l' _ w' h₂ => h₁.cons h₂ h.nodup) (ih hrest)

/-! ## The schedule pass -/

theorem reconcileSchedule_handled {t : TenantRow} (hg : w.tenants.get t.id = some t) :
    (reconcileSchedule cfg now t).wpt smooth (fun l ok w' => ok = true ∧
      Handled (schedRow cfg now) (schedStarts cfg now) [t] w l w') w := by
  unfold reconcileSchedule
  split
  · rename_i s host hsched hhost
    split
    · rename_i h
      have hrow : schedRow cfg now t = (TenantUpdate.status .running).apply t := by
        simp only [schedRow, hsched, hhost, if_pos h]
      have hstart : schedStarts cfg now t := ⟨s, host, hsched, hhost, h⟩
      simp only [scheduleAction, req_bind]
      refine ssmSend_smooth fun id u hu => updStatus_smooth (hu ▸ hg) ⟨rfl, ?_⟩
      exact .write (l := [⟨.ssmSend (some host) _, some id⟩]) hu hrow (.inr ⟨rfl, hstart⟩) rfl
    split
    · rename_i hno h
      have hrow : schedRow cfg now t = (TenantUpdate.status .stopped).apply t := by
        simp only [schedRow, hsched, hhost, if_neg hno, if_pos h]
      have hstart : ¬ schedStarts cfg now t := by
        intro hs
        obtain ⟨-, -, -, -, -, hs⟩ := hs
        rw [h.2] at hs
        cases hs
      simp only [scheduleAction, req_bind]
      refine ssmSend_smooth fun id u hu => updStatus_smooth (hu ▸ hg) ⟨rfl, ?_⟩
      exact .write (l := [⟨.ssmSend (some host) _, some id⟩]) hu hrow (.inl ⟨rfl, hstart⟩) rfl
    · rename_i hno hno'
      refine ⟨rfl, .skip hg (by simp only [schedRow, hsched, hhost, if_neg hno, if_neg hno']) ?_⟩
      intro hs
      obtain ⟨s', -, hs', -, h⟩ := hs
      obtain rfl : s = s' := Option.some.inj (hsched.symm.trans hs')
      exact hno h
  · rename_i hno
    refine ⟨rfl, .skip hg ?_ ?_⟩
    · unfold schedRow
      split
      · rename_i s h hsched hhost
        exact absurd hhost (hno s h hsched)
      · rfl
    · intro hs
      obtain ⟨s, h, hsched, hhost, -⟩ := hs
      exact hno s h hsched hhost

theorem reconcileAll_handled (ts : List TenantRow) (h : Unhandled w (fun _ => True) ts) :
    (reconcileAll cfg now ts).wpt smooth (fun l ok w' => ok = true ∧
      Handled (schedRow cfg now) (schedStarts cfg now) ts w l w') w := by
  induction ts generalizing w with
  | nil => exact ⟨rfl, .nil _ _ _⟩
  | cons t ts ih =>
    rw [reconcileAll]
    refine (Prog.wpt_bind ..).2 (Prog.wpt_mono ?_ (reconcileSchedule_handled (h.rows t List.mem_cons_self).1))
    intro l ok w₁ h₁
    obtain ⟨rfl, h₁⟩ := h₁
    have hrest : Unhandled w₁ (fun _ => True) ts := h.tail fun id hid => (h₁.others id (by simpa using hid)).1
    exact Prog.wpt_mono (fun l' _ w' h₂ => ⟨h₂.1, h₁.cons h₂.2 h.nodup⟩) (ih hrest)

/-! ## One tick -/

theorem ttlRow_id (now : Time) (t : TenantRow) : (ttlRow now t).id = t.id := by
  unfold ttlRow
  split
  · rfl
  split
  · rfl
  cases t.onExpiry.getD .stop <;> exact TenantUpdate.apply_id _ _

theorem processTtl_handled {t : TenantRow} (hg : w.tenants.get t.id = some t) (he : t.expiresAt.isSome = true) :
    processTtlExpirations.wpt smooth (fun l _ w' => ∃ now, clockReads l = [now] ∧ t.id ∉ launched l ∧
      w'.tenants.get t.id = some (ttlRow now t)) w := by
  simp only [processTtlExpirations, req_bind]
  intro ts w₁ h₁ now w₂ h₂
  obtain ⟨-, hp, rfl⟩ := h₁
  obtain ⟨-, -, rfl⟩ := h₂
  have hscan : Unhandled (w₁.setClock now) (fun _ => True) ts := Unhandled.of_scan hp fun _ _ => trivial
  refine Prog.wpt_mono ?_ (expireAll_handled ts hscan)
  intro l a w' h
  have hmem : t ∈ ts := hp.mem_iff.2 (List.mem_filter.2 ⟨Table.mem_of_get hg, he⟩)
  obtain ⟨hrow, hlaunch⟩ := h.rows t hmem
  refine ⟨now, ?_, hlaunch.1, hrow⟩
  show now :: clockReads l = [now]
  rw [h.clock]

theorem reconcileSchedules_handled {t : TenantRow} (hg : w.tenants.get t.id = some t) :
    (reconcileSchedules cfg).wpt smooth (fun l ok w' => ok = true ∧ ∃ now, clockReads l = [now] ∧
      (t.id ∈ launched l ↔ schedStarts cfg now t) ∧ w'.tenants.get t.id = some (schedRow cfg now t)) w := by
  simp only [reconcileSchedules, req_bind]
  intro ts w₁ h₁ now w₂ h₂
  obtain ⟨-, hp, rfl⟩ := h₁
  obtain ⟨-, -, rfl⟩ := h₂
  have hscan : Unhandled (w₁.setClock now) (fun _ => True) ts := Unhandled.of_scan hp fun _ _ => trivial
  refine Prog.wpt_mono ?_ (reconcileAll_handled ts hscan)
  intro l ok w' h
  obtain ⟨hok, h⟩ := h
  have hmem : t ∈ ts := hp.mem_iff.2 (List.mem_filter.2 ⟨Table.mem_of_get hg, rfl⟩)
  obtain ⟨hrow, hlaunch⟩ := h.rows t hmem
  refine ⟨hok, now, ?_, hlaunch, hrow⟩
  show now :: clockReads l = [now]
  rw [h.clock]

/-- The host loop: nothing for tenants, nothing sent, and the clock is not read. -/
def Call.aboutHosts (c : Call) : Prop := c.mute ∧ c.writesTenants = false ∧ c ≠ .now

theorem reconcileHosts_aboutHosts (hs : List HostRow) : (reconcileHosts cfg now hs).All Call.aboutHosts := by
  have hupd : ∀ id u, (Call.updHost id u).aboutHosts := fun id u => ⟨trivial, rfl, by simp⟩
  induction hs with
  | nil => trivial
  | cons h hs ih =>
    have hone : (reconcileHost cfg now h).All Call.aboutHosts := by
      simp only [reconcileHost, req_bind, Prog.pure_eq]
      split
      · split
        · exact ⟨hupd _ _, fun _ => trivial⟩
        · trivial
      split
      · split
        · exact ⟨hupd _ _, fun _ => trivial⟩
        · split
          · exact ⟨hupd _ _, fun _ => trivial⟩
          · trivial
      · trivial
    refine hone.bind fun ok => ?_
    cases ok with
    | true => exact ih
    | false => trivial

theorem aboutHosts_log {l : CallLog} (h : ∀ x ∈ l, x.1.aboutHosts) : launched l = [] ∧ clockReads l = [] := by
  refine ⟨?_, ?_⟩
  · rw [launched, (mute_log fun x hx => (h x hx).1).1]
    rfl
  · refine List.filterMap_eq_nil_iff.2 fun x hx => ?_
    obtain ⟨c, r⟩ := x
    cases c with
    | now => exact absurd rfl (h _ hx).2.2
    | _ => rfl

/-- **One tick**, for a row with `expires_at`: first the expiry, then the schedule. -/
theorem scalerTick_row {t : TenantRow} (hg : w.tenants.get t.id = some t) (he : t.expiresAt.isSome = true) :
    (scalerTick cfg).wpt smooth (fun l _ w' => ∃ n₁ n₂ n₃, clockReads l = [n₁, n₂, n₃] ∧
      (t.id ∈ launched l ↔ schedStarts cfg n₂ (ttlRow n₁ t)) ∧
      w'.tenants.get t.id = some (schedRow cfg n₂ (ttlRow n₁ t))) w := by
  unfold scalerTick
  refine (Prog.wpt_bind ..).2 (Prog.wpt_mono ?_ (processTtl_handled hg he))
  intro l₁ a w₁ h₁
  obtain ⟨n₁, hclock₁, hno₁, hg₁⟩ := h₁
  rw [← ttlRow_id n₁ t] at hg₁
  refine (Prog.wpt_bind ..).2 (Prog.wpt_mono ?_ (reconcileSchedules_handled hg₁))
  intro l₂ ok w₂ h₂
  obtain ⟨rfl, n₂, hclock₂, hlaunch₂, hg₂⟩ := h₂
  rw [ttlRow_id] at hlaunch₂ hg₂
  simp only [if_true, req_bind]
  intro n₃ w₃ h₃ hosts w₄ h₄
  obtain ⟨-, -, rfl⟩ := h₃
  obtain ⟨-, -, rfl⟩ := h₄
  have hall : (reconcileHosts cfg n₃ hosts).All Call.aboutHosts := reconcileHosts_aboutHosts hosts
  have hkeep : (reconcileHosts cfg n₃ hosts).wp smooth (fun _ w' => w'.tenants = w₂.tenants) (w₂.setClock n₃) := by
    refine Prog.All.wp_frame ?_ hall rfl
    intro c r u u' hc hu hs
    exact (step_tenants hc.2.1 hs.2).trans hu
  refine Prog.wpt_mono ?_ (Prog.wpt_and (Prog.wpt_all hall _) (Prog.wpt_of_wp hkeep))
  intro l₃ ok w' h
  obtain ⟨hcalls, htenants⟩ := h
  obtain ⟨hno₃, hclock₃⟩ := aboutHosts_log hcalls
  refine ⟨n₁, n₂, n₃, ?_, ?_, htenants ▸ hg₂⟩
  · rw [clockReads_append, clockReads_append, hclock₁, hclock₂]
    show [n₁] ++ ([n₂] ++ n₃ :: clockReads l₃) = [n₁, n₂, n₃]
    rw [hclock₃]
    rfl
  · have hlast : launched ((⟨.now, n₃⟩ : Answered Ctl) :: ⟨.scanHosts .notDeleted, hosts⟩ :: l₃) = launched l₃ := rfl
    rw [launched_append, launched_append, List.mem_append, List.mem_append, hlast, hno₃]
    simp [hno₁, hlaunch₂]

end Smooth

/-! ## Sequences of ticks -/

/-- Ticks run one after the other, each with its calls and the world it left. -/
inductive ScalerTicks : World → List (CallLog × World) → Prop
  | nil (w : World) : ScalerTicks w []
  | cons {w w' : World} {l : CallLog} {ok : Bool} {ts : List (CallLog × World)} :
      (scalerTick cfg).Traces smooth w l ok w' → ScalerTicks w' ts → ScalerTicks w ((l, w') :: ts)

/-- The tick looks for expired tenants at or after `e`. -/
def Due (e : Time) (l : CallLog) : Prop := ∃ n, (clockReads l)[0]? = some n ∧ e ≤ n

/-- The tick falls into the window of the tenant's schedule. -/
def InWindow (t : TenantRow) (l : CallLog) : Prop :=
  ∃ s h n, t.schedule = some s ∧ t.hostId = some h ∧ (clockReads l)[1]? = some n ∧ scheduleShouldRun cfg s n = true

/-- The tick did not launch the tenant and did not leave it running. -/
def Rests (tid : TenantId) (x : CallLog × World) : Prop :=
  tid ∉ launched x.1 ∧ ∀ t, x.2.tenants.get tid = some t → t.status ≠ .running

section Sequences

variable {cfg} {w w' : World} {l : CallLog} {ok : Bool} {t : TenantRow} {e : Time}

/-- What a tick does to a tenant that expires with `stop`. -/
theorem tick_rests (htr : (scalerTick cfg).Traces smooth w l ok w') (hg : w.tenants.get t.id = some t)
    (he : t.expiresAt = some e) (ho : t.onExpiry.getD .stop = .stop) :
    (∃ t', w'.tenants.get t.id = some t' ∧ SameButStatus t t') ∧
      (Due e l → (Rests t.id (l, w') ↔ t.ended ∨ ¬ InWindow cfg t l)) := by
  obtain ⟨n₁, n₂, n₃, hclock, hlaunch, hrow⟩ :=
    Prog.wpt_iff_traces.1 (@scalerTick_row cfg _ _ hg (by rw [he]; rfl)) _ _ _ htr
  have hsame : SameButStatus t (ttlRow n₁ t) := ttlRow_same ho
  refine ⟨⟨_, hrow, hsame.trans schedRow_same⟩, fun hdue => ?_⟩
  have hle : e ≤ n₁ := by
    obtain ⟨n, hn, hle⟩ := hdue
    rw [hclock] at hn
    obtain rfl : n₁ = n := Option.some.inj hn
    exact hle
  have hwin : InWindow cfg t l ↔ ∃ s h, t.schedule = some s ∧ t.hostId = some h ∧ scheduleShouldRun cfg s n₂ = true := by
    simp [InWindow, hclock]
  by_cases hend : t.ended
  · -- an ended row is not touched by either pass
    have hrow' : ttlRow n₁ t = t := ttlRow_of_ended hend
    have hidle : ¬ schedStarts cfg n₂ t := by
      intro h
      obtain ⟨-, -, -, -, -, hs⟩ := h
      rcases hend with h | h <;> rw [h] at hs <;> cases hs
    refine ⟨fun _ => .inl hend, fun _ => ⟨?_, fun t' ht' hrun => ?_⟩⟩
    · rw [hlaunch, hrow']
      exact hidle
    · obtain rfl := Option.some.inj (hrow.symm.trans ht')
      have hend' := (hsame.trans (@schedRow_same cfg _ n₂)).ended.2 hend
      rcases hend' with h | h <;> rw [h] at hrun <;> cases hrun
  · have hstop := ttlRow_stopped he ho hle hend
    have hstart : schedStarts cfg n₂ (ttlRow n₁ t) ↔ InWindow cfg t l := by
      rw [hwin, schedStarts, hsame.schedule, hsame.hostId]
      simp [hstop]
    constructor
    · intro h
      refine .inr fun hin => h.1 ?_
      exact hlaunch.2 (hstart.2 hin)
    · intro h
      have hout : ¬ schedStarts cfg n₂ (ttlRow n₁ t) := fun hs => h.elim hend fun hno => hno (hstart.1 hs)
      refine ⟨fun hl => hout (hlaunch.1 hl), fun t' ht' hrun => ?_⟩
      obtain rfl := Option.some.inj (hrow.symm.trans ht')
      exact hout ((schedRow_running hstop).1 hrun)

theorem inWindow_congr {t' : TenantRow} (h : SameButStatus t t') : InWindow cfg t' l ↔ InWindow cfg t l := by
  rw [InWindow, InWindow, h.schedule, h.hostId]

/-- **Expiry against schedule.** However many ticks run, an expired tenant is neither launched nor left running by any
of them exactly when it has ended or no tick after its expiry falls into the window of its schedule. -/
theorem expiry_schedule {ts : List (CallLog × World)} (h : ScalerTicks cfg w ts) (hg : w.tenants.get t.id = some t)
    (he : t.expiresAt = some e) (ho : t.onExpiry.getD .stop = .stop) :
    (∀ x ∈ ts, Due e x.1 → Rests t.id x) ↔ t.ended ∨ ∀ x ∈ ts, Due e x.1 → ¬ InWindow cfg t x.1 := by
  induction h generalizing t with
  | nil w => simp
  | cons htr _ ih =>
    obtain ⟨⟨t', hg', hsame⟩, hone⟩ := tick_rests htr hg he ho
    have hrest := ih (t := t') (by rw [hsame.id]; exact hg') (by rw [hsame.expiresAt]; exact he)
      (by rw [hsame.onExpiry]; exact ho)
    rw [hsame.id, hsame.ended] at hrest
    simp only [inWindow_congr hsame] at hrest
    simp only [List.forall_mem_cons]
    rw [hrest]
    by_cases hend : t.ended
    · simp only [hend, true_or, and_true, iff_true]
      exact fun hdue => (hone hdue).2 (.inl hend)
    · simp only [hend, false_or] at hone ⊢
      exact and_congr_left fun _ => forall_congr' hone

end Sequences

/-! ## A tenant with office hours -/

/-- A running tenant that expires at 0, with a schedule of every day from nine to five. -/
def scheduledTenant : TenantRow :=
  { runningTenant "a-0000" "i-1" 1 with
    schedule := some ⟨"09:00", "17:00", "UTC", []⟩, expiresAt := some 0, onExpiry := some .stop }

def scheduledWorld : World where
  tenants := .single scheduledTenant
  hosts := .single (busyHost "i-1" 2)

/-- It is Monday, at `clock`. -/
def mondayAt (clock : String) : Config := { localTime := fun _ _ => some ("Mon", clock) }

theorem get_scheduled : scheduledWorld.tenants.get scheduledTenant.id = some scheduledTenant :=
  Table.get_of_mem List.mem_cons_self

theorem tick_of_alone {clock : String} {n : ℕ} {P : CallLog → Bool}
    (h : (ctlOracle.alone (fun c r _ => c.went r) (scalerTick (mondayAt clock)) (List.replicate n {})
      scheduledWorld).any (fun x => P x.1) = true) : ∃ l w', ScalerTicks (mondayAt clock) scheduledWorld [(l, w')] ∧
        P l = true := by
  obtain ⟨⟨l, ok, w'⟩, hx, hP⟩ := (Option.any_eq_true _ _).1 h
  exact ⟨l, w', .cons (Oracle.alone_sound (fun _ _ _ h => h) hx) (.nil _), hP⟩

theorem due_of_reads {l : CallLog} (h : clockReads l = [0, 0, 0]) : Due 0 l := ⟨0, by rw [h]; rfl, Int.le_refl 0⟩

/-- **The schedule starts the tenant it has just expired.** -/
theorem schedule_restarts_expired : ∃ l w', ScalerTicks (mondayAt "12:00") scheduledWorld [(l, w')] ∧ Due 0 l ∧
    ¬ Rests scheduledTenant.id (l, w') := by
  obtain ⟨l, w', h, hP⟩ := @tick_of_alone "12:00" 10
    (fun l => (launched l).contains "a-0000" && decide (clockReads l = [0, 0, 0])) (by decide +kernel)
  rw [Bool.and_eq_true, decide_eq_true_eq] at hP
  obtain ⟨hlaunch, hclock⟩ := hP
  exact ⟨l, w', h, due_of_reads hclock, fun hr => hr.1 (List.contains_iff_mem.1 hlaunch)⟩

/-- In the evening the tenant stays down. -/
theorem expiry_schedule_evening : ∃ l w', ScalerTicks (mondayAt "20:00") scheduledWorld [(l, w')] ∧ Due 0 l ∧
    Rests scheduledTenant.id (l, w') := by
  obtain ⟨l, w', h, hP⟩ := @tick_of_alone "20:00" 8 (fun l => decide (clockReads l = [0, 0, 0])) (by decide +kernel)
  have hclock : clockReads l = [0, 0, 0] := of_decide_eq_true hP
  have hout : ∀ x ∈ [(l, w')], Due 0 x.1 → ¬ InWindow (mondayAt "20:00") scheduledTenant x.1 := by
    intro x _ _ hin
    obtain ⟨s, h, n, hs, -, -, hrun⟩ := hin
    obtain rfl := Option.some.inj hs
    revert hrun
    simp only [scheduleShouldRun, mondayAt]
    decide
  have hall := (expiry_schedule h get_scheduled rfl rfl).2 (.inr hout)
  exact ⟨l, w', h, due_of_reads hclock, hall _ List.mem_cons_self (due_of_reads hclock)⟩

end OpenClaw
