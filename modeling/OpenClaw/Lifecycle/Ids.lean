import OpenClaw.Fleet.Programs
import OpenClaw.Lib.Sha256
import OpenClaw.Lifecycle.Creation

/-!
# The ids of tenants

`_gen_id` makes an id of the name and of 16 bits of a hash of the name and the time, and `create_tenant` writes the row
under it without a condition.

- `genId`: the id that a name gets at a time.
- `namingProtocol`: a program writes a new row only under the id that it was given, once.
- `fresh_ids`: in every run of the control plane, a new row replaces no other exactly when no row of the table was made for
  the same name at a time with the same 16 bits.
-/

namespace OpenClaw

open Keyed Atomic

variable (cfg : Config)

/-! ## `_gen_id` -/

/-- `str.encode`. -/
def utf8 (s : String) : List Sha256.Byte := (s.toList.flatMap String.utf8EncodeChar).map UInt8.toBitVec

/-- The first digits of the hash, when `time.time()` prints as `stamp`. -/
def short (name stamp : String) : List Char := (Sha256.hexdigest (utf8 (name ++ stamp))).take 4

/-- `_gen_id` at that time. -/
def genId (name stamp : String) : TenantId := name ++ "-" ++ String.ofList (short name stamp)

theorem length_short (name stamp : String) : (short name stamp).length = 4 := by
  simp [short, Sha256.length_hexdigest]

/-- The id is one of those that the call may return. -/
theorem step_genId (name stamp : String) (w : World) : World.step (.genId name) (genId name stamp) w w := by
  refine ⟨⟨_, ?_, fun c hc => ?_, rfl⟩, rfl⟩
  · rw [String.length_ofList, length_short]
  · rw [String.toList_ofList] at hc
    exact Sha256.hexdigest_mem _ (List.mem_of_mem_take hc)

/-- **What an id tells.** Two ids are the same when the names are, and the 16 bits. -/
theorem genId_inj {name name' stamp stamp' : String} :
    genId name stamp = genId name' stamp' ↔ name = name' ∧ short name stamp = short name' stamp' := by
  constructor
  · intro h
    have hlist : (name.toList ++ ['-']) ++ short name stamp = (name'.toList ++ ['-']) ++ short name' stamp' := by
      simpa [genId] using congrArg String.toList h
    obtain ⟨hname, hshort⟩ := List.append_inj' hlist (by rw [length_short, length_short])
    exact ⟨String.toList_inj.1 (List.append_cancel_right hname), hshort⟩
  · rintro ⟨rfl, h⟩
    rw [genId, genId, h]

/-! ## What the programs keep to -/

/-- The programs of the control plane; a request that creates a tenant returns its answer. -/
def answeringJobs : Jobs Ctl World ControlJob (Option (CreateRequest × Resp)) where
  body
    | .fleet (.create r) => do
      let code ← createTenant cfg r
      pure (some (r, code))
    | j => do
      let _ ← controlBody cfg j
      pure none
  start _ w w' := w' = w

/-- The name a program was started with, the id it was given, and whether it wrote the row. -/
structure Naming where
  name : Option String := none
  id : Option TenantId := none
  wrote : Bool := false

/-- Only a request that creates a tenant is given an id, once and for its name, and the new row is written under it. -/
def namingProtocol : Protocol Ctl ControlJob Naming where
  init
    | .fleet (.create r) => { name := some r.name }
    | _ => {}
  allow g
    | .genId name => g.name = some name ∧ g.id = none
    | .putTenant t => g.id = some t.id
    | _ => True
  sane _ _ _ := True
  next g
    | .genId _, id => { g with id := some id }
    | .putTenant _, ok => { g with wrote := g.wrote || ok }
    | _, _ => g

section Programs

variable {cfg} {α : Type} {g : Naming} {r : CreateRequest} {tid : TenantId}

/-- The result of the request, when it has written the row. -/
def Naming.Answered (g : Naming) (code : Resp) (g' : Naming) : Prop := g'.name = g.name ∧ (code = 201 → g'.wrote = true)

theorem Call.nameless.naming {c : Call} (h : c.nameless) :
    namingProtocol.allow g c ∧ ∀ r, namingProtocol.next g c r = g := by
  cases c <;> first | exact ⟨trivial, fun _ => rfl⟩ | exact h.elim

/-- A part that reads, and refuses what it cannot serve. -/
theorem plain_names {R : α → Prop} {p : CtlProg α} (hp : p.Gives Call.plain R) :
    p.obeys namingProtocol (fun a g' => R a ∧ g' = g) g :=
  (hp.mono fun _ h => h.bland.nameless).obeys fun _ h => h.naming

variable (cfg) in
/-- A program without the duty to create. -/
theorem made_names {d : Duty} (hd : ¬ d.creates) {p : CtlProg α} (hp : p.All (Made cfg d)) :
    p.obeys namingProtocol (fun _ g' => g' = g) g := Prog.All.obeys (fun _ h => (h.nameless hd).naming) hp

theorem createOn_names (src : Option TenantRow) (key : String) (now : Time) (host : HostRow) (n : Int)
    (hg : g.id = some tid) : (createOn cfg r src tid key now host n).obeys namingProtocol g.Answered g := by
  have hlaunch : ∀ row, (launchCreated cfg r row host n).All (Made cfg { launches := True }) :=
    fun row => launchCreated_made trivial r trivial
  simp only [createOn, req_bind, Prog.pure_eq]
  refine ⟨hg, fun ok _ => ?_⟩
  cases ok with
  | false => exact ⟨rfl, by rintro ⟨⟩⟩
  | true =>
    -- what follows the write gives out no id, so the process remembers it
    have hrest : ∀ {p : CtlProg Resp}, p.All (Made cfg { launches := True }) →
        p.obeys namingProtocol g.Answered { g with wrote := g.wrote || true } := by
      intro p hp
      refine Prog.obeys_mono (fun code g' hg' => ?_) (made_names cfg id hp)
      subst hg'
      exact ⟨rfl, fun _ => Bool.or_true _⟩
    cases src with
    | none => exact hrest (hlaunch _)
    | some s =>
      refine ⟨trivial, fun ok _ => ?_⟩
      cases ok with
      | true => exact hrest (hlaunch _)
      | false => exact hrest (cloneRollback_made r tid host.instanceId)

theorem savePending_names (key : String) (now : Time) (hg : g.id = some tid) :
    (savePending r tid key now).obeys namingProtocol g.Answered g := by
  simp only [savePending, req_bind, Prog.pure_eq]
  refine ⟨hg, fun ok _ => ?_⟩
  cases ok with
  | false => exact ⟨rfl, by rintro ⟨⟩⟩
  | true => exact ⟨trivial, fun _ _ => ⟨rfl, fun _ => Bool.or_true _⟩⟩

theorem createPlaced_names (src : Option TenantRow) (key : String) (hname : g.name = some r.name) (hid : g.id = none) :
    (createPlaced cfg r src key).obeys namingProtocol g.Answered g := by
  simp only [createPlaced, req_bind, Prog.pure_eq]
  refine ⟨⟨hname, hid⟩, fun tid _ => ⟨trivial, fun now _ => ?_⟩⟩
  rw [Prog.obeys_bind]
  refine Prog.obeys_mono (fun hosts g' hg' => ?_) (plain_names (candidateHosts_plain cfg r src))
  obtain ⟨hrefuse, rfl⟩ := hg'
  cases hosts with
  | inl code => exact ⟨rfl, fun he => absurd he (hrefuse code rfl)⟩
  | inr hosts =>
    have hslot : (reserveFirst cfg r.vcpu r.memMb hosts).All (Made cfg { reserves := True }) :=
      reserveFirst_made trivial r.vcpu r.memMb hosts
    simp only [Prog.obeys_bind]
    refine Prog.obeys_mono (fun slot g' hg' => ?_) (made_names cfg id hslot)
    subst hg'
    rcases slot with _ | _ | ⟨host, n⟩
    · exact ⟨rfl, by rintro ⟨⟩⟩
    · exact savePending_names key now rfl
    · exact createOn_names src key now host n rfl

/-- **`create_tenant` writes under its own id.** -/
theorem createTenant_names (hname : g.name = some r.name) (hid : g.id = none) :
    (createTenant cfg r).obeys namingProtocol g.Answered g := by
  unfold createTenant
  split
  · exact ⟨rfl, by rintro ⟨⟩⟩
  split
  · exact ⟨rfl, by rintro ⟨⟩⟩
  rw [Prog.obeys_bind]
  refine Prog.obeys_mono (fun src g' hg' => ?_) (plain_names (cloneSource_plain r))
  obtain ⟨hrefuse, rfl⟩ := hg'
  cases src with
  | inl code => exact ⟨rfl, fun he => absurd he (hrefuse.1 code rfl)⟩
  | inr src =>
    simp only [Prog.obeys_bind]
    refine Prog.obeys_mono (fun key g' hg' => ?_) (plain_names (restoreKeyOf_plain r))
    obtain ⟨hrefuse, rfl⟩ := hg'
    cases key with
    | inl code => exact ⟨rfl, fun he => absurd he (hrefuse code rfl)⟩
    | inr key => exact createPlaced_names src key hname hid

/-- An accepted request has written its row. -/
def wroteRow (x : Option (CreateRequest × Resp)) (g : Naming) : Prop :=
  ∀ r, x = some (r, 201) → g.name = some r.name ∧ g.wrote = true

/-- **Every program keeps to the protocol.** -/
theorem answeringJobs_names (j : ControlJob) :
    ((answeringJobs cfg).body j).obeys namingProtocol wroteRow (namingProtocol.init j) := by
  have hnone : ∀ {j : ControlJob}, ¬ j.duty.creates → (controlBody cfg j >>= fun _ =>
      (.ret none : CtlProg (Option (CreateRequest × Resp)))).obeys namingProtocol wroteRow {} := by
    intro j hd
    rw [Prog.obeys_bind]
    exact Prog.obeys_mono (fun _ _ _ => by rintro r ⟨⟩) (made_names cfg hd (controlBody_made j))
  cases j with
  | fleet j =>
    cases j with
    | create r =>
      have hinit : (namingProtocol.init (.fleet (.create r))).id = none := rfl
      show Prog.obeys namingProtocol (createTenant cfg r >>= fun code => .ret (some (r, code))) _ _
      rw [Prog.obeys_bind]
      refine Prog.obeys_mono (fun code g h => ?_) (createTenant_names rfl hinit)
      rintro _ ⟨⟩
      exact ⟨h.1, h.2 rfl⟩
    | _ => exact hnone id
  | _ => exact hnone id

end Programs

/-! ## Runs -/

section Runs

variable {ι : Type}

/-- `time.time()` prints as `clock k` at step `k` of the run. -/
def timed (clock : ℕ → String) (tr : List (Ev Ctl ControlJob ι)) (_ : World) : Ev Ctl ControlJob ι → Prop
  | .call _ (.genId name) id => id = genId name (clock tr.length)
  | _ => True

/-- At step `k` the process got the id for the name. -/
def NamedAt (tr : List (Ev Ctl ControlJob ι)) (i : ι) (k : ℕ) (name : String) (id : TenantId) : Prop :=
  tr[k]? = some (.call i (.genId name) id)

/-- The process wrote the new row. -/
def PutRow (tr : List (Ev Ctl ControlJob ι)) (i : ι) (t : TenantRow) : Prop := .call i (.putTenant t) true ∈ tr

/-- No row was made for the name at a time with the same 16 bits, neither before the run nor in it. -/
structure Unused (clock : ℕ → String) (w₀ : World) (tr : List (Ev Ctl ControlJob ι)) (name stamp : String) : Prop where
  before : ∀ t ∈ w₀.tenants.rows, ∀ name' stamp', t.id = genId name' stamp' →
    ¬ (name' = name ∧ short name' stamp' = short name stamp)
  during : ∀ i t k name' id, PutRow tr i t → NamedAt tr i k name' id →
    ¬ (name' = name ∧ short name' (clock k) = short name stamp)

/-- The row is new, and all the others stay. -/
def AddsRow (w w' : World) (t : TenantRow) : Prop :=
  (∀ t' ∈ w.tenants.rows, t'.id ≠ t.id) ∧ w'.tenants.rows.Perm (t :: w.tenants.rows)

/-- What a process knows is what it did. -/
structure Naming.Of (clock : ℕ → String) (tr : List (Ev Ctl ControlJob ι)) (i : ι) (g : Naming) : Prop where
  started : ∀ name, g.name = some name → ∃ r, r.name = name ∧ .start i (.fleet (.create r)) ∈ tr
  named : ∀ id, g.id = some id → ∃ k name, g.name = some name ∧ NamedAt tr i k name id
  asked : ∀ k name id, NamedAt tr i k name id → g.id = some id ∧ id = genId name (clock k)
  rows : ∀ t, PutRow tr i t → g.id = some t.id
  wrote : g.wrote = true → ∃ t, PutRow tr i t

variable {clock : ℕ → String} {tr : List (Ev Ctl ControlJob ι)} {i i' : ι} {g : Naming} {w w' w₀ : World}

theorem namedAt_snoc {e : Ev Ctl ControlJob ι} {k : ℕ} {name : String} {id : TenantId} :
    NamedAt (tr ++ [e]) i k name id ↔ NamedAt tr i k name id ∨ (k = tr.length ∧ e = .call i (.genId name) id) := by
  unfold NamedAt
  rcases Nat.lt_trichotomy k tr.length with hk | rfl | hk
  · rw [List.getElem?_append_left hk]
    simp [hk.ne]
  · simp
  · have hout : tr.length < k := hk
    simp [hout.ne', Nat.le_of_lt hout, hk]

theorem wrote_snoc {e : Ev Ctl ControlJob ι} {t : TenantRow} :
    PutRow (tr ++ [e]) i t ↔ PutRow tr i t ∨ e = .call i (.putTenant t) true := by
  simp [PutRow, eq_comm]

/-- A step that gives the process no id and writes no row for it. -/
theorem Naming.Of.silent {e : Ev Ctl ControlJob ι} (h : g.Of clock tr i) (hname : ∀ name id, e ≠ .call i (.genId name) id)
    (hput : ∀ t, e ≠ .call i (.putTenant t) true) : g.Of clock (tr ++ [e]) i where
  started name hn := by
    obtain ⟨r, hr, hm⟩ := h.started name hn
    exact ⟨r, hr, List.mem_append_left _ hm⟩
  named id hid := by
    obtain ⟨k, name, hn, hk⟩ := h.named id hid
    exact ⟨k, name, hn, namedAt_snoc.2 (.inl hk)⟩
  asked k name id hk := (namedAt_snoc.1 hk).elim (h.asked k name id) fun he => absurd he.2 (hname _ _)
  rows t ht := (wrote_snoc.1 ht).elim (h.rows t) fun he => absurd he (hput _)
  wrote hw := by
    obtain ⟨t, ht⟩ := h.wrote hw
    exact ⟨t, wrote_snoc.2 (.inl ht)⟩

/-- A call of the process itself. -/
theorem Naming.Of.next {c : Call} {r : c.Ans} (h : g.Of clock tr i) (ha : namingProtocol.allow g c)
    (ht : timed clock tr w (.call i c r)) : (namingProtocol.next g c r).Of clock (tr ++ [.call i c r]) i := by
  by_cases hc : c.nameless
  · rw [(hc.naming (g := g)).2 r]
    refine h.silent (fun name id he => ?_) fun t he => ?_
    · cases he
      exact hc
    · cases he
      exact hc
  · cases c <;> first | exact absurd trivial hc | skip
    case genId name =>
      obtain ⟨hname, hid⟩ := ha
      -- the process had no id so far, hence it wrote no row either
      refine ⟨fun name' hn => ?_, fun id he => ?_, fun k name' id hk => ?_, fun t hw => ?_, fun hw => ?_⟩
      · obtain ⟨q, hq, hm⟩ := h.started name' hn
        exact ⟨q, hq, List.mem_append_left _ hm⟩
      · obtain rfl : r = id := Option.some.inj he
        exact ⟨tr.length, name, hname, namedAt_snoc.2 (.inr ⟨rfl, rfl⟩)⟩
      · rcases namedAt_snoc.1 hk with hk | ⟨rfl, he⟩
        · have hsome := (h.asked k name' id hk).1
          rw [hid] at hsome
          cases hsome
        · cases he
          exact ⟨rfl, ht⟩
      · rcases wrote_snoc.1 hw with hw | he
        · have hsome := h.rows t hw
          rw [hid] at hsome
          cases hsome
        · cases he
      · obtain ⟨t, hw⟩ := h.wrote hw
        exact ⟨t, wrote_snoc.2 (.inl hw)⟩
    case putTenant t =>
      refine ⟨fun name' hn => ?_, fun id he => ?_, fun k name' id hk => ?_, fun t' hw => ?_, fun hw => ?_⟩
      · obtain ⟨q, hq, hm⟩ := h.started name' hn
        exact ⟨q, hq, List.mem_append_left _ hm⟩
      · obtain ⟨k, name', hn, hk⟩ := h.named id he
        exact ⟨k, name', hn, namedAt_snoc.2 (.inl hk)⟩
      · rcases namedAt_snoc.1 hk with hk | ⟨-, he⟩
        · exact h.asked k name' id hk
        · cases he
      · rcases wrote_snoc.1 hw with hw | he
        · exact h.rows t' hw
        · cases he
          exact ha
      · rcases Bool.or_eq_true_iff.1 hw with hw | rfl
        · obtain ⟨t', hw⟩ := h.wrote hw
          exact ⟨t', wrote_snoc.2 (.inl hw)⟩
        · exact ⟨t, wrote_snoc.2 (.inr rfl)⟩

/-! ## The table -/

/-- The ids of the table. -/
def World.ids (w : World) : List TenantId := w.tenants.rows.map TenantRow.id

/-- A row that is updated keeps its id, and no row is removed. -/
theorem step_ids {c : Call} {r : c.Ans} (hs : World.step c r w w')
    (hput : ∀ t, (⟨c, r⟩ : Answered Ctl) ≠ ⟨.putTenant t, true⟩) : w'.ids = w.ids := by
  have hupd : ∀ {id : TenantId} {u : TenantUpdate} {t : TenantRow}, w.tenants.get id = some t →
      (w.putTenant (u.apply t)).ids = w.ids := by
    intro id u t ht
    have hold : w.tenants.get (u.apply t).id ≠ none := by
      rw [TenantUpdate.apply_id, Table.key_of_get ht, ht]
      exact Option.some_ne_none t
    show (w.tenants.put (u.apply t)).rows.map TenantRow.id = _
    rw [Table.put, dif_neg hold]
    exact Table.map_key_replace _ _
  by_cases hw : c.writesTenants = false
  · rw [World.ids, step_tenants hw hs, World.ids]
  · cases c <;> first | exact absurd rfl hw | skip
    case putTenant t =>
      cases r with
      | true => exact absurd rfl (hput t)
      | false => rw [show w' = w from hs]
    case updTenant id u =>
      obtain ⟨t, ht, hs⟩ := hs
      rcases hs.eq_or with rfl | rfl
      · exact hupd ht
      · rfl
    case condTenant id cond u =>
      obtain ⟨t, ht, hs⟩ := hs
      cases r with
      | done => exact hs.2 ▸ hupd ht
      | refused => rw [hs.2]
      | failed => rw [show w' = w from hs]

theorem mem_ids_put {t : TenantRow} {id : TenantId} : id ∈ (w.putTenant t).ids ↔ id = t.id ∨ id ∈ w.ids := by
  simp only [World.ids, World.putTenant_tenants, List.mem_map, Table.mem_put]
  constructor
  · rintro ⟨x, rfl | ⟨hx, -⟩, rfl⟩
    · exact .inl rfl
    · exact .inr ⟨x, hx, rfl⟩
  · rintro (rfl | ⟨x, hx, rfl⟩)
    · exact ⟨t, .inl rfl, rfl⟩
    · by_cases he : x.id = t.id
      · exact ⟨t, .inl rfl, he.symm⟩
      · exact ⟨x, .inr ⟨hx, he⟩, rfl⟩

/-- A row written under an id that no row has. -/
theorem addsRow_iff {t : TenantRow} : AddsRow w (w.putTenant t) t ↔ t.id ∉ w.ids := by
  constructor
  · rintro ⟨hnew, -⟩ hm
    obtain ⟨x, hx, he⟩ := List.mem_map.1 hm
    exact hnew x hx he
  · intro hnew
    have hne : ∀ x ∈ w.tenants.rows, x.id ≠ t.id := fun x hx he => hnew (he ▸ List.mem_map_of_mem hx)
    refine ⟨hne, ?_⟩
    rw [World.putTenant_tenants, Table.put_of_fresh (Table.get_eq_none.2 hne)]
    exact List.perm_append_singleton t _

/-- What every run keeps: what the processes know, and where the ids of the table come from. -/
structure NamingInv [DecidableEq ι] (clock : ℕ → String) (w₀ : World) (tr : List (Ev Ctl ControlJob ι)) (w : World) :
    Prop where
  of : ∀ i g, namingProtocol.locs tr i = some g → g.Of clock tr i
  known : ∀ i c r, .call i c r ∈ tr → (namingProtocol.locs tr i).isSome
  ids : ∀ id, id ∈ w.ids ↔ id ∈ w₀.ids ∨ ∃ i t, PutRow tr i t ∧ t.id = id

section Invariant

variable [DecidableEq ι]

omit [DecidableEq ι] in
theorem mem_of_namedAt {k : ℕ} {name : String} {id : TenantId} (h : NamedAt tr i k name id) :
    .call i (.genId name) id ∈ tr := List.mem_of_getElem? h

omit [DecidableEq ι] in
theorem NamingInv.ids_of_frame {e : Ev Ctl ControlJob ι} (hids : ∀ id, id ∈ w.ids ↔ id ∈ w₀.ids ∨ ∃ i t, PutRow tr i t ∧ t.id = id)
    (he : ∀ i t, e ≠ .call i (.putTenant t) true) (hw : w'.ids = w.ids) (id : TenantId) :
    id ∈ w'.ids ↔ id ∈ w₀.ids ∨ ∃ i t, PutRow (tr ++ [e]) i t ∧ t.id = id := by
  rw [hw, hids]
  have hsame : ∀ i t, PutRow (tr ++ [e]) i t ↔ PutRow tr i t := fun i t => by
    rw [wrote_snoc]
    exact or_iff_left (he i t)
  simp only [hsame]

theorem NamingInv.start {j : ControlJob} (hI : NamingInv clock w₀ tr w) (hi : namingProtocol.locs tr i = none) :
    NamingInv clock w₀ (tr ++ [.start i j]) w := by
  have hnone : ∀ c r, .call i c r ∉ tr := by
    intro c r hm
    have hsome := hI.known i c r hm
    rw [hi] at hsome
    cases hsome
  refine ⟨fun k g hg => ?_, fun k c r hm => ?_, NamingInv.ids_of_frame hI.ids (by rintro _ _ ⟨⟩) rfl⟩
  · rw [Protocol.locs_snoc] at hg
    by_cases hk : k = i
    · subst hk
      obtain rfl : namingProtocol.init j = g := by simpa [Protocol.stepLoc] using hg
      refine ⟨fun name hn => ?_, fun id he => ?_, fun m name id hm => ?_, fun t hw => ?_, fun hw => ?_⟩
      · obtain ⟨r, rfl, rfl⟩ : ∃ r, j = .fleet (.create r) ∧ r.name = name := by
          simp only [namingProtocol] at hn
          split at hn
          · exact ⟨_, rfl, Option.some.inj hn⟩
          · cases hn
        exact ⟨r, rfl, List.mem_append_right _ (List.mem_singleton_self _)⟩
      · simp only [namingProtocol] at he
        split at he <;> cases he
      · rcases namedAt_snoc.1 hm with hm | ⟨-, he⟩
        · exact absurd (mem_of_namedAt hm) (hnone _ _)
        · cases he
      · rcases wrote_snoc.1 hw with hw | he
        · exact absurd hw (hnone _ _)
        · cases he
      · simp only [namingProtocol] at hw
        split at hw <;> cases hw
    · have hold : namingProtocol.locs tr k = some g := by simpa [Protocol.stepLoc, hk] using hg
      exact (hI.of k g hold).silent (by rintro _ _ ⟨⟩) (by rintro _ ⟨⟩)
  · rw [Protocol.locs_snoc]
    by_cases hk : k = i
    · subst hk
      simp [Protocol.stepLoc]
    · rcases List.mem_append.1 hm with hm | hm
      · simpa [Protocol.stepLoc, hk] using hI.known k c r hm
      · cases List.mem_singleton.1 hm

theorem NamingInv.call {c : Call} {r : c.Ans} (hI : NamingInv clock w₀ tr w) (hi : namingProtocol.locs tr i = some g)
    (ha : namingProtocol.allow g c) (ht : timed clock tr w (.call i c r)) (hs : World.step c r w w') :
    NamingInv clock w₀ (tr ++ [.call i c r]) w' := by
  refine ⟨fun k g' hg => ?_, fun k c' r' hm => ?_, fun id => ?_⟩
  · rw [Protocol.locs_snoc] at hg
    by_cases hk : k = i
    · subst hk
      obtain rfl : namingProtocol.next g c r = g' := by simpa [Protocol.stepLoc, hi] using hg
      exact (hI.of k g hi).next ha ht
    · have hold : namingProtocol.locs tr k = some g' := by simpa [Protocol.stepLoc, hk] using hg
      refine (hI.of k g' hold).silent (fun name id he => ?_) fun t he => ?_
      · cases he
        exact hk rfl
      · cases he
        exact hk rfl
  · rw [Protocol.locs_snoc]
    by_cases hk : k = i
    · subst hk
      simp [Protocol.stepLoc, hi]
    · rcases List.mem_append.1 hm with hm | hm
      · simpa [Protocol.stepLoc, hk] using hI.known k c' r' hm
      · cases List.mem_singleton.1 hm
        exact absurd rfl hk
  · by_cases hput : ∃ t, (⟨c, r⟩ : Answered Ctl) = ⟨.putTenant t, true⟩
    · obtain ⟨t, he⟩ := hput
      obtain ⟨rfl, he⟩ := Sigma.mk.inj he
      obtain rfl := eq_of_heq he
      obtain rfl : w' = w.putTenant t := hs
      rw [mem_ids_put, hI.ids]
      constructor
      · rintro (rfl | hw | ⟨k, t', hw, rfl⟩)
        · exact .inr ⟨i, t, wrote_snoc.2 (.inr rfl), rfl⟩
        · exact .inl hw
        · exact .inr ⟨k, t', wrote_snoc.2 (.inl hw), rfl⟩
      · rintro (hw | ⟨k, t', hw, rfl⟩)
        · exact .inr (.inl hw)
        · rcases wrote_snoc.1 hw with hw | he
          · exact .inr (.inr ⟨k, t', hw, rfl⟩)
          · cases he
            exact .inl rfl
    · have hno : ∀ t, (⟨c, r⟩ : Answered Ctl) ≠ ⟨.putTenant t, true⟩ := fun t he => hput ⟨t, he⟩
      refine NamingInv.ids_of_frame hI.ids (fun k t he => ?_) (step_ids hs hno) id
      cases he
      exact hno t rfl

/-- **The invariant of every run**, with what its processes still keep to. -/
theorem namingInv {c : Conf Ctl World ControlJob ι (Option (CreateRequest × Resp))}
    (hr : Reach ctl (answeringJobs cfg) (timed clock) (Conf.idle w₀) tr c) :
    NamingInv clock w₀ tr c.world ∧ (∀ i, c.proc i = none → namingProtocol.locs tr i = none) ∧
      ∀ i j p, c.proc i = some (j, p) →
        ∃ g, namingProtocol.locs tr i = some g ∧ p.obeys namingProtocol wroteRow g := by
  have h₀ : NamingInv clock w₀ ([] : List (Ev Ctl ControlJob ι)) w₀ := by
    refine ⟨fun i g hg => ?_, fun i c r hm => absurd hm List.not_mem_nil, fun id => ⟨.inl, fun h => ?_⟩⟩
    · cases hg
    · rcases h with h | ⟨i, t, hw, -⟩
      · exact h
      · exact absurd hw List.not_mem_nil
  refine Reach.protocol answeringJobs_names h₀ ?_ ?_ hr
  · rintro tr w i j w' hI hi - rfl
    exact hI.start hi
  · intro tr w i g c r w' hI hi ha ht hs
    exact ⟨trivial, hI.call hi ha ht hs⟩

end Invariant

/-- The id that a process is given is in no row exactly when no row was made for the name with these bits. -/
theorem fresh_iff_unused [DecidableEq ι] {name : String} {k : ℕ} (hI : NamingInv clock w₀ tr w) :
    genId name (clock k) ∉ w.ids ↔ Unused clock w₀ tr name (clock k) := by
  rw [hI.ids]
  constructor
  · intro hnew
    refine ⟨fun t ht name' stamp' he hsame => hnew (.inl ?_), fun i t k' name' id hw hk hsame => hnew (.inr ⟨i, t, hw, ?_⟩)⟩
    · rw [← genId_inj.2 hsame, ← he]
      exact List.mem_map_of_mem ht
    · obtain ⟨g, hg⟩ := Option.isSome_iff_exists.1 (hI.known i _ _ hw)
      have hid := (hI.of i g hg).rows t hw
      obtain ⟨hid', rfl⟩ := (hI.of i g hg).asked k' name' id hk
      exact (Option.some.inj (hid.symm.trans hid')).trans (genId_inj.2 hsame)
  · rintro hu (hm | ⟨i, t, hw, he⟩)
    · obtain ⟨t, ht, he⟩ := List.mem_map.1 hm
      exact hu.before t ht name (clock k) he ⟨rfl, rfl⟩
    · obtain ⟨g, hg⟩ := Option.isSome_iff_exists.1 (hI.known i _ _ hw)
      obtain ⟨k', name', hname, hk⟩ := (hI.of i g hg).named t.id ((hI.of i g hg).rows t hw)
      obtain ⟨-, hid⟩ := (hI.of i g hg).asked k' name' t.id hk
      exact hu.during i t k' name' t.id hw hk (genId_inj.1 (hid.symm.trans he))

end Runs

/-- **Fresh ids.** In every run of the control plane, over any table: a row that a request writes is new, and all the
others stay, exactly when no row was made for its name at a time with the same 16 bits of the hash. Nothing else changes
which ids there are, and an accepted request has written the row for its name. -/
theorem fresh_ids {ι : Type} [DecidableEq ι] (clock : ℕ → String) {w₀ : World} {tr : List (Ev Ctl ControlJob ι)}
    {e : Ev Ctl ControlJob ι} {c c' : Conf Ctl World ControlJob ι (Option (CreateRequest × Resp))}
    (h : Reach ctl (answeringJobs cfg) (timed clock) (Conf.idle w₀) tr c) (ht : timed clock tr c.world e)
    (hs : Step ctl (answeringJobs cfg) c e c') :
    (∀ i t, e = .call i (.putTenant t) true → ∃ r k, .start i (.fleet (.create r)) ∈ tr ∧ NamedAt tr i k r.name t.id ∧
      (AddsRow c.world c'.world t ↔ Unused clock w₀ tr r.name (clock k))) ∧
    ((∀ i t, e ≠ .call i (.putTenant t) true) → c'.world.ids = c.world.ids) ∧
    ∀ i j r, c'.proc i = some (j, .ret (some (r, 201))) →
      ∃ k t, NamedAt (tr ++ [e]) i k r.name t.id ∧ PutRow (tr ++ [e]) i t := by
  obtain ⟨hI, -, hobeys⟩ := namingInv cfg h
  refine ⟨?_, ?_, ?_⟩
  · rintro i t rfl
    cases hs with
    | call hp hs =>
      obtain ⟨g, hg, ho⟩ := hobeys i _ _ hp
      have hof := hI.of i g hg
      obtain ⟨k, name, hname, hk⟩ := hof.named t.id ho.1
      obtain ⟨r, rfl, hstart⟩ := hof.started name hname
      obtain ⟨-, hid⟩ := hof.asked k r.name t.id hk
      refine ⟨r, k, hstart, hk, ?_⟩
      obtain rfl := hs
      rw [addsRow_iff, hid]
      exact fresh_iff_unused hI
  · intro hput
    cases hs with
    | start hn hb =>
      obtain rfl := hb
      rfl
    | @call i _ a _ r _ hp hs =>
      refine step_ids hs fun t he => ?_
      obtain ⟨rfl, he⟩ := Sigma.mk.inj he
      obtain rfl := eq_of_heq he
      exact hput i t rfl
  · intro i j r hp
    obtain ⟨hI', -, hobeys'⟩ := namingInv cfg (h.snoc ht hs)
    obtain ⟨g, hg, hwrote⟩ := hobeys' i j _ hp
    obtain ⟨hname, hw⟩ := hwrote r rfl
    have hof := hI'.of i g hg
    obtain ⟨t, hwt⟩ := hof.wrote hw
    obtain ⟨k, name, hname', hk⟩ := hof.named t.id (hof.rows t hwt)
    obtain rfl := Option.some.inj (hname.symm.trans hname')
    exact ⟨k, t, hk, hwt⟩

/-! ## Two requests for one name -/

/-- Who wrote a new row. -/
def writers (tr : List (Ev Ctl ControlJob ℕ)) : List ℕ :=
  tr.filterMap fun
    | .call i (.putTenant _) true => some i
    | _ => none

/-- Who was given an id, when, and for which name. -/
def namings (tr : List (Ev Ctl ControlJob ℕ)) : List (ℕ × ℕ × String) :=
  tr.zipIdx.filterMap fun
    | (.call i (.genId name) _, k) => some (i, k, name)
    | _ => none

theorem mem_writers {tr : List (Ev Ctl ControlJob ℕ)} {i : ℕ} {t : TenantRow} (h : PutRow tr i t) : i ∈ writers tr :=
  List.mem_filterMap.2 ⟨_, h, rfl⟩

theorem mem_namings {tr : List (Ev Ctl ControlJob ℕ)} {i k : ℕ} {name : String} {id : TenantId}
    (h : NamedAt tr i k name id) : (i, k, name) ∈ namings tr :=
  List.mem_filterMap.2 ⟨(.call i (.genId name) id, k), List.mem_zipIdx_iff_getElem?.2 h, rfl⟩

/-- The times at which two requests are given their ids. -/
def twoTimes (second : String) (k : ℕ) : String := if k = 1 then "1767225600.06488" else second

/-- A request for the name `a` is saved as pending; a second one is about to write its row. -/
def twoCreates (suffix : String) : List (Move ControlJob ℕ Hint) :=
  List.flatten [[.start 0 (.fleet (.create (smallRequest "a")))], List.replicate 5 (.call 0 {}),
    [.start 1 (.fleet (.create (smallRequest "a")))], List.replicate 3 (.call 1 { suffix := suffix })]

/-- The row that the step writes. -/
def putBy (i : ℕ) : Ev Ctl ControlJob ℕ → Option TenantRow
  | .call j (.putTenant t) true => if j = i then some t else none
  | _ => none

theorem putBy_eq {i : ℕ} {e : Ev Ctl ControlJob ℕ} {t : TenantRow} (h : putBy i e = some t) :
    e = .call i (.putTenant t) true := by
  unfold putBy at h
  split at h
  · split at h
    · rename_i hj
      rw [← Option.some.inj h, hj]
    · cases h
  · cases h

/-- The ids that the two requests are given. -/
def givenIds (second : String) (tr : List (Ev Ctl ControlJob ℕ)) : Ev Ctl ControlJob ℕ → Bool
  | .call _ (.genId name) id => name = "a" && id = if tr.length = 1 then "a-0000" else second
  | _ => true

/-- A run up to the second request's write, and the write. -/
theorem two_creates (second suffix : String) (hid : genId "a" second = "a-" ++ suffix)
    {P : List (Ev Ctl ControlJob ℕ) → World → World → TenantRow → Bool}
    (hplay : ((ctlOracle.play (answeringJobs {}) (fun _ w => some w) (fun tr _ e => givenIds ("a-" ++ suffix) tr e) []
      (Conf.idle { tenants := .empty, hosts := .empty }) (twoCreates suffix)).any fun x =>
        (ctlOracle.move (answeringJobs {}) (fun _ w => some w) x.2 (.call 1 {})).any fun y =>
          (putBy 1 y.1).any (P x.1 x.2.world y.2.world)) = true) :
    ∃ tr c t c', Reach ctl (answeringJobs {}) (timed (twoTimes second)) (Conf.idle { tenants := .empty, hosts := .empty }) tr c ∧
      Step ctl (answeringJobs {}) c (.call 1 (.putTenant t) true) c' ∧ P tr c.world c'.world t = true := by
  have hfirst : genId "a" "1767225600.06488" = "a-0000" := by decide +kernel
  have hchk : ∀ (tr : List (Ev Ctl ControlJob ℕ)) (w : World) (e : Ev Ctl ControlJob ℕ),
      givenIds ("a-" ++ suffix) tr e = true → timed (twoTimes second) tr w e := by
    intro tr w e he
    unfold timed
    split
    · simp only [givenIds, Bool.and_eq_true, decide_eq_true_eq] at he
      obtain ⟨rfl, rfl⟩ := he
      unfold twoTimes
      split
      · exact hfirst.symm
      · exact hid.symm
    · trivial
  have hst : ∀ (j : ControlJob) (w w' : World), some w = some w' → (answeringJobs {}).start j w w' := by
    rintro j w w' ⟨⟩
    rfl
  obtain ⟨tr, c, hr, hP⟩ := Oracle.exists_reach_of_play hst hchk hplay
  obtain ⟨⟨e, c'⟩, hm, hP⟩ := (Option.any_eq_true _ _).1 hP
  obtain ⟨t, ht, hP⟩ := (Option.any_eq_true _ _).1 hP
  have he : e = .call 1 (.putTenant t) true := putBy_eq ht
  exact ⟨tr, c, t, c', hr, he ▸ Oracle.move_sound hst hm, hP⟩

/-- At another time the same name gets another id. -/
theorem fresh_ids_second : ∃ tr c t c', Reach ctl (answeringJobs {}) (timed (twoTimes "1767225601.5"))
      (Conf.idle { tenants := .empty, hosts := .empty }) tr c ∧
    Step ctl (answeringJobs {}) c (.call 1 (.putTenant t) true) c' ∧ t.id = "a-3b86" ∧
    c.world.ids = ["a-0000"] ∧ AddsRow c.world c'.world t := by
  obtain ⟨tr, c, t, c', hr, hs, hP⟩ := two_creates "1767225601.5" "3b86" (by decide +kernel)
    (P := fun tr w _ t => writers tr = [0] && (namings tr = [(0, 1, "a"), (1, 7, "a")] &&
      (w.ids = ["a-0000"] && t.id = "a-3b86"))) (by decide +kernel)
  simp only [Bool.and_eq_true, decide_eq_true_eq] at hP
  obtain ⟨hwriters, hnamings, hids, ht⟩ := hP
  have hput : timed (twoTimes "1767225601.5") tr c.world (.call 1 (.putTenant t) true) := trivial
  obtain ⟨r, k, -, hk, hiff⟩ := (fresh_ids {} (twoTimes "1767225601.5") hr hput hs).1 1 t rfl
  have hk' := mem_namings hk
  rw [hnamings] at hk'
  obtain ⟨rfl, hname⟩ : k = 7 ∧ r.name = "a" := by simpa using hk'
  refine ⟨tr, c, t, c', hr, hs, ht, hids, hiff.2 ⟨fun t ht => absurd ht List.not_mem_nil, ?_⟩⟩
  intro i t' k' name' id hw hn hsame
  obtain rfl : i = 0 := by simpa [hwriters] using mem_writers hw
  have hn' := mem_namings hn
  rw [hnamings] at hn'
  obtain ⟨rfl, rfl⟩ : k' = 1 ∧ name' = "a" := by simpa using hn'
  rw [hname] at hsame
  revert hsame
  decide +kernel

/-- **An id that is taken.** A tenth of a second later the hash of the name and the time begins with the same 16 bits, and
the row of the second tenant replaces that of the first. -/
theorem fresh_ids_taken : ∃ tr c t c', Reach ctl (answeringJobs {}) (timed (twoTimes "1767225600.184053"))
      (Conf.idle { tenants := .empty, hosts := .empty }) tr c ∧
    Step ctl (answeringJobs {}) c (.call 1 (.putTenant t) true) c' ∧ writers tr = [0] ∧
    c.world.ids = ["a-0000"] ∧ c'.world.ids = ["a-0000"] ∧ ¬ AddsRow c.world c'.world t := by
  obtain ⟨tr, c, t, c', hr, hs, hP⟩ := two_creates "1767225600.184053" "0000" (by decide +kernel)
    (P := fun tr w w' _ => writers tr = [0] && (w.ids = ["a-0000"] && w'.ids = ["a-0000"])) (by decide +kernel)
  simp only [Bool.and_eq_true, decide_eq_true_eq] at hP
  obtain ⟨hwriters, hids, hids'⟩ := hP
  refine ⟨tr, c, t, c', hr, hs, hwriters, hids, hids', ?_⟩
  rintro ⟨-, hperm⟩
  have hlength := (hperm.map TenantRow.id).length_eq
  rw [List.map_cons, List.length_cons] at hlength
  rw [World.ids] at hids hids'
  rw [hids, hids'] at hlength
  cases hlength

end OpenClaw
