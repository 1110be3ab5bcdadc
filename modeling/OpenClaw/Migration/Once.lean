import OpenClaw.Migration.Requests

/-!
# A migration takes effect at most once

The list of acts is legal when every act fits those before it (`MigAct.Fits`); a legal list flips each request at most
once, only to its target, and does nothing for a request after its cancellation (`LegalActs.once`). A run has legal acts
when the sweep and cancel-migration write only on rows that still hold the request they read (`onCurrentRows`).

- `migration_once`: under this condition a request takes effect at most once, and not after it was cancelled.
- `cancelled_migration_moves`: without it, a sweep moves a tenant whose migration was cancelled.
-/

namespace OpenClaw

open Keyed Atomic

variable (cfg : Config)

/-! ## Legal lists of acts -/

def flipsOf (A : List MigAct) : List CommandId := A.filterMap fun
  | .flipped q _ => some q
  | _ => none

def unbooksOf (A : List MigAct) : List CommandId := A.filterMap fun
  | .unbooked q => some q
  | _ => none

def booksOf (A : List MigAct) : List CommandId := A.filterMap fun
  | .booked q => some q
  | _ => none

/-- Each request takes effect at most once, at its target, and not after it was cancelled. -/
structure OncePerRequest (A : List MigAct) : Prop where
  flips : (flipsOf A).Nodup
  unbooks : (unbooksOf A).Nodup
  books : (booksOf A).Nodup
  target : ∀ q h, .flipped q h ∈ A → ∃ tid, .requested q tid h ∈ A ∧ ∀ tid' h', .requested q tid' h' ∈ A → h' = h
  cancelled : A.Pairwise fun a b => ∀ q, a = .cancelled q → b.effectFor ≠ some q

/-- The act fits after the acts `A`, with the commands sent so far. -/
def MigAct.Fits (A : List MigAct) (cmds : List SsmCommand) : MigAct → Prop
  | .requested q _ _ => (∃ c ∈ cmds, c.id = q) ∧ ∀ tid h, .requested q tid h ∉ A
  | .cancelled q => (∃ tid h, .requested q tid h ∈ A) ∧ ∀ h, .flipped q h ∉ A
  | .restoreSent q | .restoreFired q => .cancelled q ∉ A
  | .flipped q h => .cancelled q ∉ A ∧ (∃ tid, .requested q tid h ∈ A) ∧ ∀ h', .flipped q h' ∉ A
  | .unbooked q => (∃ h, .flipped q h ∈ A) ∧ .unbooked q ∉ A
  | .booked q => (∃ h, .flipped q h ∈ A) ∧ .booked q ∉ A

/-- What a list of fitting acts satisfies. -/
structure LegalActs (A : List MigAct) (cmds : List SsmCommand) : Prop where
  sent : ∀ q tid h, .requested q tid h ∈ A → ∃ c ∈ cmds, c.id = q
  unique : ∀ q tid h tid' h', .requested q tid h ∈ A → .requested q tid' h' ∈ A → tid = tid' ∧ h = h'
  counted : ∀ q, .unbooked q ∈ A ∨ .booked q ∈ A → ∃ h, .flipped q h ∈ A
  known : ∀ q, .cancelled q ∈ A → ∃ tid h, .requested q tid h ∈ A
  closed : ∀ q h, .flipped q h ∈ A → .cancelled q ∉ A
  once : OncePerRequest A

theorem mem_flipsOf {A : List MigAct} {q : CommandId} : q ∈ flipsOf A ↔ ∃ h, .flipped q h ∈ A := by
  simp only [flipsOf, List.mem_filterMap]
  constructor
  · rintro ⟨a, ha, he⟩
    cases a <;> simp at he
    exact ⟨_, he ▸ ha⟩
  · rintro ⟨h, hm⟩
    exact ⟨_, hm, rfl⟩

theorem mem_unbooksOf {A : List MigAct} {q : CommandId} : q ∈ unbooksOf A ↔ .unbooked q ∈ A := by
  simp only [unbooksOf, List.mem_filterMap]
  constructor
  · rintro ⟨a, ha, he⟩
    cases a <;> simp at he
    exact he ▸ ha
  · exact fun hm => ⟨_, hm, rfl⟩

theorem mem_booksOf {A : List MigAct} {q : CommandId} : q ∈ booksOf A ↔ .booked q ∈ A := by
  simp only [booksOf, List.mem_filterMap]
  constructor
  · rintro ⟨a, ha, he⟩
    cases a <;> simp at he
    exact he ▸ ha
  · exact fun hm => ⟨_, hm, rfl⟩

theorem LegalActs.nil (cmds : List SsmCommand) : LegalActs [] cmds where
  sent := nofun
  unique := nofun
  counted := nofun
  known := nofun
  closed := nofun
  once := ⟨.nil, .nil, .nil, nofun, .nil⟩

/-- Nothing fits for a cancelled request that would have an effect. -/
theorem LegalActs.not_cancelled {A : List MigAct} {cmds cmds' : List SsmCommand} (hA : LegalActs A cmds) {a : MigAct}
    (ha : a.Fits A cmds') {q : CommandId} (he : a.effectFor = some q) : .cancelled q ∉ A := by
  cases a with
  | requested => cases he
  | cancelled => cases he
  | restoreSent => cases he; exact ha
  | restoreFired => cases he; exact ha
  | flipped => cases he; exact ha.1
  | unbooked =>
    cases he
    obtain ⟨⟨h, hm⟩, -⟩ := ha
    exact hA.closed _ h hm
  | booked =>
    cases he
    obtain ⟨⟨h, hm⟩, -⟩ := ha
    exact hA.closed _ h hm

theorem nodup_concat {α : Type} {l : List α} {x : α} (hl : l.Nodup) (hx : x ∉ l) : (l ++ [x]).Nodup :=
  List.nodup_append.2 ⟨hl, by simp, fun a ha b hb => by
    rintro rfl
    exact hx (List.mem_singleton.1 hb ▸ ha)⟩

section Concat

variable {A : List MigAct} {cmds cmds' : List SsmCommand} {a : MigAct}

theorem LegalActs.concat_flips (hA : LegalActs A cmds) (ha : a.Fits A cmds') : (flipsOf (A ++ [a])).Nodup := by
  rw [flipsOf, List.filterMap_append, ← flipsOf]
  cases a with
  | flipped q h =>
    refine nodup_concat hA.once.flips fun hm => ?_
    obtain ⟨h', hm⟩ := mem_flipsOf.1 hm
    exact ha.2.2 h' hm
  | _ => simpa using hA.once.flips

theorem LegalActs.concat_unbooks (hA : LegalActs A cmds) (ha : a.Fits A cmds') : (unbooksOf (A ++ [a])).Nodup := by
  rw [unbooksOf, List.filterMap_append, ← unbooksOf]
  cases a with
  | unbooked q => exact nodup_concat hA.once.unbooks fun hm => ha.2 (mem_unbooksOf.1 hm)
  | _ => simpa using hA.once.unbooks

theorem LegalActs.concat_books (hA : LegalActs A cmds) (ha : a.Fits A cmds') : (booksOf (A ++ [a])).Nodup := by
  rw [booksOf, List.filterMap_append, ← booksOf]
  cases a with
  | booked q => exact nodup_concat hA.once.books fun hm => ha.2 (mem_booksOf.1 hm)
  | _ => simpa using hA.once.books

theorem LegalActs.concat_target (hA : LegalActs A cmds) (ha : a.Fits A cmds') {q : CommandId} {h : HostId}
    (hm : .flipped q h ∈ A ++ [a]) :
    ∃ tid, .requested q tid h ∈ A ++ [a] ∧ ∀ tid' h', .requested q tid' h' ∈ A ++ [a] → h' = h := by
  rcases List.mem_append.1 hm with hm | hm
  · obtain ⟨tid, ht, hu⟩ := hA.once.target q h hm
    refine ⟨tid, List.mem_append_left _ ht, fun tid' h' hm' => ?_⟩
    rcases List.mem_append.1 hm' with hm' | hm'
    · exact hu tid' h' hm'
    · -- A new request is not one that was flipped.
      obtain rfl := List.mem_singleton.1 hm'
      exact absurd ht (ha.2 tid h)
  · obtain rfl := List.mem_singleton.1 hm
    obtain ⟨tid, ht⟩ := ha.2.1
    refine ⟨tid, List.mem_append_left _ ht, fun tid' h' hm' => ?_⟩
    rcases List.mem_append.1 hm' with hm' | hm'
    · exact (hA.unique q tid' h' tid h hm' ht).2
    · cases List.mem_singleton.1 hm'

theorem LegalActs.concat_cancelled (hA : LegalActs A cmds) (ha : a.Fits A cmds') :
    (A ++ [a]).Pairwise fun a b => ∀ q, a = .cancelled q → b.effectFor ≠ some q := by
  refine List.pairwise_append.2 ⟨hA.once.cancelled, List.pairwise_singleton _ _, fun b hb c hc q hq he => ?_⟩
  obtain rfl := List.mem_singleton.1 hc
  exact hA.not_cancelled ha he (hq ▸ hb)

/-- A fitting act keeps the list legal. -/
theorem LegalActs.concat (hA : LegalActs A cmds) (ha : a.Fits A cmds') (hc : ∀ c ∈ cmds, c ∈ cmds') :
    LegalActs (A ++ [a]) cmds' where
  sent q tid h hm := by
    rcases List.mem_append.1 hm with hm | hm
    · obtain ⟨c, hc', e⟩ := hA.sent q tid h hm
      exact ⟨c, hc c hc', e⟩
    · obtain rfl := List.mem_singleton.1 hm
      exact ha.1
  unique q tid h tid' h' hm hm' := by
    rcases List.mem_append.1 hm with h₁ | h₁ <;> rcases List.mem_append.1 hm' with h₂ | h₂
    · exact hA.unique q tid h tid' h' h₁ h₂
    · obtain rfl := List.mem_singleton.1 h₂
      exact absurd h₁ (ha.2 tid h)
    · obtain rfl := List.mem_singleton.1 h₁
      exact absurd h₂ (ha.2 tid' h')
    · cases (List.mem_singleton.1 h₁).trans (List.mem_singleton.1 h₂).symm
      exact ⟨rfl, rfl⟩
  counted q hm := by
    have hold : (.unbooked q ∈ A ∨ .booked q ∈ A) → ∃ h, .flipped q h ∈ A ++ [a] := fun hm => by
      obtain ⟨h, hf⟩ := hA.counted q hm
      exact ⟨h, List.mem_append_left _ hf⟩
    rcases hm with hm | hm <;> rcases List.mem_append.1 hm with hm | hm
    · exact hold (.inl hm)
    · obtain rfl := List.mem_singleton.1 hm
      exact ha.1.imp fun h hf => List.mem_append_left _ hf
    · exact hold (.inr hm)
    · obtain rfl := List.mem_singleton.1 hm
      exact ha.1.imp fun h hf => List.mem_append_left _ hf
  known q hm := by
    rcases List.mem_append.1 hm with hm | hm
    · obtain ⟨tid, h, hr⟩ := hA.known q hm
      exact ⟨tid, h, List.mem_append_left _ hr⟩
    · obtain rfl := List.mem_singleton.1 hm
      obtain ⟨tid, h, hr⟩ := ha.1
      exact ⟨tid, h, List.mem_append_left _ hr⟩
  closed q h hf hm := by
    rcases List.mem_append.1 hf with h₁ | h₁ <;> rcases List.mem_append.1 hm with h₂ | h₂
    · exact hA.closed q h h₁ h₂
    · obtain rfl := List.mem_singleton.1 h₂
      exact ha.2 h h₁
    · obtain rfl := List.mem_singleton.1 h₁
      exact ha.1 h₂
    · cases (List.mem_singleton.1 h₁).trans (List.mem_singleton.1 h₂).symm
  once := ⟨hA.concat_flips ha, hA.concat_unbooks ha, hA.concat_books ha, fun _ _ => hA.concat_target ha,
    hA.concat_cancelled ha⟩

end Concat

/-! ## The condition on runs -/

/-- The tenant's row is that of the migration `q`. -/
def holdsRequest (w : World) (tid : TenantId) (q : Option CommandId) : Bool :=
  (w.tenants.get tid).any fun t => t.status = .migrating && t.migrationSnapCmd = q

/-- The row a process is about to write on, or to fire the restore for, still holds the request it read. -/
@[simp] def Memory.current (m : Memory) (c : Call) (r : c.Ans) (w : World) : Bool :=
  match m.job, c, r with
  | .sweep _, .ssmSend _ (.migrateVm _ tid _ _), some _ => holdsRequest w tid (m.requestOf tid)
  | .sweep _, .updTenant tid (.restoreFired _ _), true => holdsRequest w tid (m.requestOf tid)
  | .sweep _, .updTenant tid (.migrated _ _ _), true => holdsRequest w tid (m.requestOf tid)
  | .cancel _, .updTenant tid (.rollback _ _), true => holdsRequest w tid (m.read.bind TenantRow.migrationSnapCmd)
  | _, _, _ => true

def onCurrentRows {ι : Type} [DecidableEq ι] (tr : List (Ev Ctl MigJob ι)) (w : World) (e : Ev Ctl MigJob ι) : Prop :=
  match e with
  | .start _ _ => True
  | .call i c r => ∀ m, migProtocol.locs tr i = some m → m.current c r w = true

/-! ## The invariant -/

/-- The request in a row is open. -/
structure Open (A : List MigAct) (q : CommandId) (t : TenantRow) : Prop where
  requested : ∃ h, t.migrationTarget = some h ∧ .requested q t.id h ∈ A
  flipped : ∀ h, .flipped q h ∉ A
  cancelled : .cancelled q ∉ A

/-- What one process remembers agrees with the acts. -/
structure Remembers (A : List MigAct) (cmds : List SsmCommand) (m : Memory) : Prop where
  cmd : ∀ q, m.cmd = some q → (∃ c ∈ cmds, c.id = q) ∧ ∀ tid h, .requested q tid h ∉ A
  scanned : ∀ t ∈ m.scanned, ∀ q, t.migrationSnapCmd = some q →
    ∃ h, t.migrationTarget = some h ∧ .requested q t.id h ∈ A
  moving : ∀ q, m.moving = some q → ∃ h, .flipped q h ∈ A
  unbooked : ∀ q, m.moving = some q → m.unbooked = false → .unbooked q ∉ A
  booked : ∀ q, m.moving = some q → m.booked = false → .booked q ∉ A

structure RequestInv {ι : Type} (A : List MigAct) (l : ι → Option Memory) (w : World) : Prop where
  acts : LegalActs A w.cmds
  rows : ∀ t ∈ w.tenants.rows, ∀ q, t.migrationSnapCmd = some q → Open A q t
  memory : ∀ i m, l i = some m → Remembers A w.cmds m
  /-- Two processes never hold the same command or move the same request. -/
  apart : ∀ i j m m', l i = some m → l j = some m' → i ≠ j → ∀ q,
    (m.cmd = some q → m'.cmd ≠ some q) ∧ (m.moving = some q → m'.moving ≠ some q)

section Steps

variable {ι : Type} [DecidableEq ι] {A : List MigAct} {l : ι → Option Memory} {w w' : World} {i : ι} {m m' : Memory}

theorem Open.concat {q : CommandId} {t : TenantRow} (h : Open A q t) {a : MigAct} (hf : ∀ h, a ≠ .flipped q h)
    (hc : a ≠ .cancelled q) : Open (A ++ [a]) q t where
  requested := h.requested.imp fun _ h => ⟨h.1, List.mem_append_left _ h.2⟩
  flipped x hm := (List.mem_append.1 hm).elim (h.flipped x) fun e => hf x (List.mem_singleton.1 e).symm
  cancelled hm := (List.mem_append.1 hm).elim h.cancelled fun e => hc (List.mem_singleton.1 e).symm

theorem Remembers.mono {cmds cmds' : List SsmCommand} (h : Remembers A cmds m) (hc : ∀ c ∈ cmds, c ∈ cmds') :
    Remembers A cmds' m :=
  { h with cmd := fun q hq => ⟨(h.cmd q hq).1.imp fun _ h => ⟨hc _ h.1, h.2⟩, (h.cmd q hq).2⟩ }

theorem Remembers.concat {cmds : List SsmCommand} (h : Remembers A cmds m) {a : MigAct}
    (hr : ∀ q tid x, a = .requested q tid x → m.cmd ≠ some q)
    (hu : ∀ q, a = .unbooked q → m.moving = some q → m.unbooked = true)
    (hb : ∀ q, a = .booked q → m.moving = some q → m.booked = true) : Remembers (A ++ [a]) cmds m where
  cmd q hq := ⟨(h.cmd q hq).1, fun tid x hm => (List.mem_append.1 hm).elim ((h.cmd q hq).2 tid x)
    fun e => hr q tid x (List.mem_singleton.1 e).symm hq⟩
  scanned t ht q hq := (h.scanned t ht q hq).imp fun _ h => ⟨h.1, List.mem_append_left _ h.2⟩
  moving q hq := (h.moving q hq).imp fun _ h => List.mem_append_left _ h
  unbooked q hq hn hm := (List.mem_append.1 hm).elim (h.unbooked q hq hn) fun e => by
    have := hu q (List.mem_singleton.1 e).symm hq
    simp [this] at hn
  booked q hq hn hm := (List.mem_append.1 hm).elim (h.booked q hq hn) fun e => by
    have := hb q (List.mem_singleton.1 e).symm hq
    simp [this] at hn

/-- One process goes on; the others remember what they did. -/
theorem RequestInv.update {A' : List MigAct} (hI : RequestInv A l w) (hacts : LegalActs A' w'.cmds)
    (hrows : ∀ t ∈ w'.tenants.rows, ∀ q, t.migrationSnapCmd = some q → Open A' q t)
    (hothers : ∀ j m₂, j ≠ i → l j = some m₂ → Remembers A w.cmds m₂ → Remembers A' w'.cmds m₂)
    (hmem : Remembers A' w'.cmds m')
    (hapart : ∀ j m₂, j ≠ i → l j = some m₂ → ∀ q,
      (m'.cmd = some q → m₂.cmd ≠ some q) ∧ (m'.moving = some q → m₂.moving ≠ some q)) :
    RequestInv A' (Function.update l i (some m')) w' := by
  refine ⟨hacts, hrows, fun j m₂ hj => ?_, fun j k m₂ m₃ hj hk hne q => ?_⟩
  · by_cases e : j = i
    · subst e
      rw [Function.update_self, Option.some.injEq] at hj
      exact hj ▸ hmem
    · rw [Function.update_of_ne e] at hj
      exact hothers j m₂ e hj (hI.memory j m₂ hj)
  · by_cases ej : j = i
    · subst ej
      rw [Function.update_self, Option.some.injEq] at hj
      rw [Function.update_of_ne hne.symm] at hk
      subst hj
      exact hapart k m₃ hne.symm hk q
    · rw [Function.update_of_ne ej] at hj
      by_cases ek : k = i
      · subst ek
        rw [Function.update_self, Option.some.injEq] at hk
        subst hk
        exact ⟨fun h h' => (hapart j m₂ ej hj q).1 h' h, fun h h' => (hapart j m₂ ej hj q).2 h' h⟩
      · rw [Function.update_of_ne ek] at hk
        exact hI.apart j k m₂ m₃ hj hk hne q

/-- A step without an act, in which the process keeps its command and its move. -/
theorem RequestInv.still (hI : RequestInv A l w) (hl : l i = some m) (hc : ∀ c ∈ w.cmds, c ∈ w'.cmds)
    (hrows : ∀ t ∈ w'.tenants.rows, ∀ q, t.migrationSnapCmd = some q → Open A q t)
    (hcmd : m'.cmd = m.cmd) (hmov : m'.moving = m.moving) (hmem : Remembers A w.cmds m') :
    RequestInv A (Function.update l i (some m')) w' := by
  refine hI.update ?_ hrows (fun j m₂ _ _ h => h.mono hc) (hmem.mono hc) fun j m₂ hne hj q => ?_
  · exact { hI.acts with sent := fun q tid h hm => (hI.acts.sent q tid h hm).imp fun _ h => ⟨hc _ h.1, h.2⟩ }
  · rw [hcmd, hmov]
    exact hI.apart i j m m₂ hl hj hne.symm q

/-- A step with an act that is no request and moves no counter, in which the process keeps its command and its move. -/
theorem RequestInv.act (hI : RequestInv A l w) (hl : l i = some m) {a : MigAct} (ha : a.Fits A w'.cmds)
    (hr : ∀ q tid x, a ≠ .requested q tid x) (hu : ∀ q, a ≠ .unbooked q) (hb : ∀ q, a ≠ .booked q)
    (hc : ∀ c ∈ w.cmds, c ∈ w'.cmds)
    (hrows : ∀ t ∈ w'.tenants.rows, ∀ q, t.migrationSnapCmd = some q → Open (A ++ [a]) q t) :
    RequestInv (A ++ [a]) (Function.update l i (some m)) w' := by
  have hothers : ∀ m₂, Remembers A w.cmds m₂ → Remembers (A ++ [a]) w'.cmds m₂ := fun m₂ h =>
    (h.mono hc).concat (fun q tid x e => absurd e (hr q tid x)) (fun q e => absurd e (hu q)) fun q e => absurd e (hb q)
  refine hI.update (hI.acts.concat ha hc) hrows (fun j m₂ _ _ h => hothers m₂ h) (hothers m (hI.memory i m hl)) ?_
  exact fun j m₂ hne hj q => hI.apart i j m m₂ hl hj hne.symm q

omit [DecidableEq ι] in
theorem RequestInv.sameRow (hI : RequestInv A l w) {t t' : TenantRow} (ht : t ∈ w.tenants.rows)
    (ht' : t' ∈ w.tenants.rows) {q : CommandId} (hq : t.migrationSnapCmd = some q) (hq' : t'.migrationSnapCmd = some q) :
    t.id = t'.id := by
  obtain ⟨h, -, hr⟩ := (hI.rows t ht q hq).requested
  obtain ⟨h', -, hr'⟩ := (hI.rows t' ht' q hq').requested
  exact (hI.acts.unique q _ _ _ _ hr hr').1

theorem rows_put {t : TenantRow} (hold : ∀ x ∈ w.tenants.rows, x.id ≠ t.id → ∀ q, x.migrationSnapCmd = some q → Open A q x)
    (hnew : ∀ q, t.migrationSnapCmd = some q → Open A q t) :
    ∀ x ∈ (w.putTenant t).tenants.rows, ∀ q, x.migrationSnapCmd = some q → Open A q x := by
  intro x hx q hq
  rcases Table.mem_put.1 hx with rfl | ⟨hx, hne⟩
  · exact hnew q hq
  · exact hold x hx hne q hq

theorem holdsRequest_iff {tid : TenantId} {q : Option CommandId} :
    holdsRequest w tid q = true ↔ ∃ t, w.tenants.get tid = some t ∧ t.status = .migrating ∧ t.migrationSnapCmd = q := by
  simp [holdsRequest, Option.any_eq_true]

/-- A write that changes nothing, or clears the row without an act. -/
theorem RequestInv.clear (hI : RequestInv A l w) (hl : l i = some m) {tid : TenantId} {u : TenantUpdate} {r : Bool}
    (hs : World.step (.updTenant tid u) r w w') (hu : r = true → ∀ t, (u.apply t).migrationSnapCmd = none) :
    RequestInv A (Function.update l i (some m)) w' := by
  obtain ⟨t, ht, hs⟩ := hs
  cases r with
  | false =>
    obtain rfl : w' = w := hs
    exact hI.still hl (fun _ h => h) hI.rows rfl rfl (hI.memory i m hl)
  | true =>
    obtain rfl : w' = w.putTenant (u.apply t) := hs
    refine hI.still hl (fun _ h => h) (rows_put (fun x hx _ => hI.rows x hx) fun q hq => ?_) rfl rfl (hI.memory i m hl)
    rw [hu rfl t] at hq
    cases hq

/-- cancel-migration clears the row of an open request. -/
theorem RequestInv.cancel (hI : RequestInv A l w) (hl : l i = some m) {tid : TenantId} {u : TenantUpdate}
    {q : CommandId} (hs : World.step (.updTenant tid u) true w w') (hu : ∀ t, (u.apply t).migrationSnapCmd = none)
    (hq : holdsRequest w tid (some q) = true) :
    RequestInv (A ++ [.cancelled q]) (Function.update l i (some m)) w' := by
  obtain ⟨t, ht, hs⟩ := hs
  obtain rfl : w' = w.putTenant (u.apply t) := hs
  obtain ⟨t', ht', -, hq'⟩ := holdsRequest_iff.1 hq
  obtain rfl : t = t' := Option.some.inj (ht.symm.trans ht')
  have hrow := Table.mem_of_get ht
  have hopen := hI.rows t hrow q hq'
  have hfit : MigAct.Fits A w.cmds (.cancelled q) := by
    obtain ⟨h, -, hr⟩ := hopen.requested
    exact ⟨⟨t.id, h, hr⟩, hopen.flipped⟩
  refine hI.act hl hfit nofun nofun nofun (fun _ h => h) (rows_put (fun x hx hne q' hx' => ?_) fun q' hx' => ?_)
  · refine (hI.rows x hx q' hx').concat nofun fun e => ?_
    obtain rfl := MigAct.cancelled.inj e
    rw [TenantUpdate.apply_id] at hne
    exact hne (hI.sameRow hx hrow hx' hq')
  · rw [hu t] at hx'
    cases hx'

/-- The sweep moves the tenant of an open request. -/
theorem RequestInv.flip (hI : RequestInv A l w) (hl : l i = some m) {tid : TenantId} {u : TenantUpdate} {q : CommandId}
    {h : HostId} (hs : World.step (.updTenant tid u) true w w') (hu : ∀ t, (u.apply t).migrationSnapCmd = none)
    (hq : holdsRequest w tid (some q) = true) (hr : ∃ tid, .requested q tid h ∈ A) (hm' : m' =
      { m with moving := some q, unbooked := false, booked := false }) :
    RequestInv (A ++ [.flipped q h]) (Function.update l i (some m')) w' := by
  obtain ⟨t, ht, hs⟩ := hs
  obtain rfl : w' = w.putTenant (u.apply t) := hs
  obtain ⟨t', ht', -, hq'⟩ := holdsRequest_iff.1 hq
  obtain rfl : t = t' := Option.some.inj (ht.symm.trans ht')
  have hrow := Table.mem_of_get ht
  have hopen := hI.rows t hrow q hq'
  have hfit : MigAct.Fits A w.cmds (.flipped q h) := ⟨hopen.cancelled, hr, hopen.flipped⟩
  have hmem : ∀ m₂, Remembers A w.cmds m₂ → Remembers (A ++ [.flipped q h]) w.cmds m₂ := fun m₂ hm =>
    hm.concat nofun nofun nofun
  have huncounted : ¬ (.unbooked q ∈ A ∨ .booked q ∈ A) := fun hm => by
    obtain ⟨h', hf⟩ := hI.acts.counted q hm
    exact hopen.flipped h' hf
  subst hm'
  have hmine := hmem m (hI.memory i m hl)
  refine hI.update (hI.acts.concat hfit fun _ h => h) (rows_put (fun x hx hne q' hx' => ?_) fun q' hx' => ?_)
    (fun j m₂ _ _ hm => hmem m₂ hm) ⟨hmine.cmd, hmine.scanned, fun q' e => ?_, fun q' e _ => ?_, fun q' e _ => ?_⟩
    fun j m₂ hne hj q' => ⟨(hI.apart i j m m₂ hl hj hne.symm q').1, fun e e' => ?_⟩
  · refine (hI.rows x hx q' hx').concat (fun h' e => ?_) nofun
    obtain ⟨rfl, -⟩ := MigAct.flipped.inj e
    rw [TenantUpdate.apply_id] at hne
    exact hne (hI.sameRow hx hrow hx' hq')
  · rw [hu t] at hx'
    cases hx'
  · obtain rfl := Option.some.inj e
    exact ⟨h, List.mem_append_right _ (List.mem_singleton.2 rfl)⟩
  · obtain rfl := Option.some.inj e
    exact fun hm => huncounted (.inl ((List.mem_append.1 hm).resolve_right fun e => by cases List.mem_singleton.1 e))
  · obtain rfl := Option.some.inj e
    exact fun hm => huncounted (.inr ((List.mem_append.1 hm).resolve_right fun e => by cases List.mem_singleton.1 e))
  · obtain rfl := Option.some.inj e
    obtain ⟨h', hf⟩ := (hI.memory j m₂ hj).moving q e'
    exact hopen.flipped h' hf

/-- The migrate action stores a new request. -/
theorem RequestInv.request (hI : RequestInv A l w) (hl : l i = some m) {tid : TenantId} {ctx : MigrationContext}
    (hs : World.step (.updTenant tid (.migrate ctx)) true w w') (hc : m.cmd = some ctx.snapCmd) :
    RequestInv (A ++ [.requested ctx.snapCmd tid ctx.target]) (Function.update l i (some { m with cmd := none })) w' := by
  obtain ⟨t, ht, hs⟩ := hs
  obtain rfl : w' = w.putTenant (TenantUpdate.apply (.migrate ctx) t) := hs
  obtain rfl := Table.key_of_get ht
  have hmine := hI.memory i m hl
  obtain ⟨hsent, hnew⟩ := hmine.cmd _ hc
  have hmem : ∀ m₂, m₂.cmd ≠ some ctx.snapCmd → Remembers A w.cmds m₂ →
      Remembers (A ++ [.requested ctx.snapCmd t.id ctx.target]) w.cmds m₂ := fun m₂ hne hm =>
    hm.concat (fun q tid x e => by obtain ⟨rfl, -, -⟩ := MigAct.requested.inj e; exact hne) nofun nofun
  refine hI.update (hI.acts.concat ⟨hsent, hnew⟩ fun _ h => h) (rows_put (fun x hx _ q hx' => ?_) fun q hq => ?_)
    (fun j m₂ hne hj hm => hmem m₂ ((hI.apart i j m m₂ hl hj hne.symm _).1 hc) hm)
    (hmem _ nofun { hmine with cmd := nofun }) fun j m₂ hne hj q => ⟨nofun, (hI.apart i j m m₂ hl hj hne.symm q).2⟩
  · exact (hI.rows x hx q hx').concat nofun nofun
  · obtain rfl : ctx.snapCmd = q := Option.some.inj hq
    refine ⟨⟨ctx.target, rfl, List.mem_append_right _ (List.mem_singleton.2 rfl)⟩, fun h hm => ?_, fun hm => ?_⟩
    · have hm : .flipped ctx.snapCmd h ∈ A := (List.mem_append.1 hm).resolve_right fun e => by
        cases List.mem_singleton.1 e
      obtain ⟨tid, hr, -⟩ := hI.acts.once.target _ h hm
      exact hnew tid h hr
    · have hm : .cancelled ctx.snapCmd ∈ A := (List.mem_append.1 hm).resolve_right fun e => by
        cases List.mem_singleton.1 e
      obtain ⟨tid, h, hr⟩ := hI.acts.known _ hm
      exact hnew tid h hr

/-- A counter of the request that was moved last. -/
theorem RequestInv.count (hI : RequestInv A l w) (hl : l i = some m) {q : CommandId} {a : MigAct}
    (ha : a = .unbooked q ∧ m.unbooked = false ∧ m' = { m with unbooked := true } ∨
      a = .booked q ∧ m.booked = false ∧ m' = { m with booked := true })
    (hq : m.moving = some q) (ht : w'.tenants = w.tenants) (hc : w'.cmds = w.cmds) :
    RequestInv (A ++ [a]) (Function.update l i (some m')) w' := by
  have hmine := hI.memory i m hl
  have hfit : a.Fits A w'.cmds := by
    rcases ha with ⟨rfl, hb, -⟩ | ⟨rfl, hb, -⟩
    · exact ⟨hmine.moving q hq, hmine.unbooked q hq hb⟩
    · exact ⟨hmine.moving q hq, hmine.booked q hq hb⟩
  have hrows : ∀ t ∈ w'.tenants.rows, ∀ q, t.migrationSnapCmd = some q → Open (A ++ [a]) q t := by
    intro t hx q' hx'
    rw [ht] at hx
    rcases ha with ⟨rfl, -, -⟩ | ⟨rfl, -, -⟩ <;> exact (hI.rows t hx q' hx').concat nofun nofun
  have hothers : ∀ j m₂, j ≠ i → l j = some m₂ → Remembers A w.cmds m₂ → Remembers (A ++ [a]) w'.cmds m₂ := by
    intro j m₂ hne hj hm
    have hmov := (hI.apart i j m m₂ hl hj hne.symm q).2 hq
    rw [hc]
    rcases ha with ⟨rfl, -, -⟩ | ⟨rfl, -, -⟩
    · exact hm.concat nofun (fun q' e e' => absurd (MigAct.unbooked.inj e ▸ e') hmov) nofun
    · exact hm.concat nofun nofun fun q' e e' => absurd (MigAct.booked.inj e ▸ e') hmov
  have hmem : Remembers (A ++ [a]) w'.cmds m' := by
    rw [hc]
    rcases ha with ⟨rfl, -, rfl⟩ | ⟨rfl, -, rfl⟩
    · have h : Remembers A w.cmds { m with unbooked := true } := { hmine with unbooked := fun _ _ => nofun }
      exact h.concat nofun (fun _ _ _ => rfl) nofun
    · have h : Remembers A w.cmds { m with booked := true } := { hmine with booked := fun _ _ => nofun }
      exact h.concat nofun nofun fun _ _ _ => rfl
  refine hI.update (hI.acts.concat hfit fun c h => hc ▸ h) hrows hothers hmem fun j m₂ hne hj q' => ?_
  rcases ha with ⟨-, -, rfl⟩ | ⟨-, -, rfl⟩ <;> exact hI.apart i j m m₂ hl hj hne.symm q'

/-- A call that writes no tenant and is forgotten. -/
theorem RequestInv.pass (hI : RequestInv A l w) (hl : l i = some m) {c : Call} {r : c.Ans} (hc : c.writesTenants = false)
    (hs : World.step c r w w') : RequestInv A (Function.update l i (some m)) w' :=
  hI.still hl (step_cmds hs) (step_tenants hc hs ▸ hI.rows) rfl rfl (hI.memory i m hl)

/-- The sweep records the restore of an open request. -/
theorem RequestInv.fire (hI : RequestInv A l w) (hl : l i = some m) {tid : TenantId} {cmd : CommandId} {at' : Time}
    {q : Option CommandId} (hs : World.step (.updTenant tid (.restoreFired cmd at')) true w w')
    (hq : holdsRequest w tid q = true) :
    RequestInv (A ++ (q.map .restoreFired).toList) (Function.update l i (some m)) w' := by
  obtain ⟨t, ht, hs⟩ := hs
  obtain rfl : w' = w.putTenant (TenantUpdate.apply (.restoreFired cmd at') t) := hs
  obtain ⟨t', ht', -, hq'⟩ := holdsRequest_iff.1 hq
  obtain rfl : t = t' := Option.some.inj (ht.symm.trans ht')
  have hrow := Table.mem_of_get ht
  cases q with
  | none =>
    rw [Option.map_none, Option.toList_none, List.append_nil]
    refine hI.still hl (fun _ h => h) (rows_put (fun x hx _ => hI.rows x hx) fun q hq => ?_) rfl rfl (hI.memory i m hl)
    exact absurd (hq'.symm.trans hq) nofun
  | some q =>
    have hopen := hI.rows t hrow q hq'
    have hfit : MigAct.Fits A w.cmds (.restoreFired q) := hopen.cancelled
    refine hI.act hl hfit nofun nofun nofun (fun _ h => h) (rows_put (fun x hx _ q' hx' => ?_) fun q' hx' => ?_)
    · exact (hI.rows x hx q' hx').concat nofun nofun
    · have hx' : t.migrationSnapCmd = some q' := hx'
      have hold := hI.rows t hrow q' hx'
      have h : Open A q' (TenantUpdate.apply (.restoreFired cmd at') t) := ⟨hold.requested, hold.flipped, hold.cancelled⟩
      exact h.concat nofun nofun

/-- The sweep moves a row; `m'` is what the process remembers then. -/
theorem RequestInv.move (hI : RequestInv A l w) (hl : l i = some m) {tid : TenantId} {h : HostId} {n : Int} {at' : Time}
    {t : TenantRow} (hs : World.step (.updTenant tid (.migrated h n at')) true w w')
    (hf : m.scanned.find? (fun t => t.id = tid) = some t) (ht : t.migrationTarget = some h)
    (hq : holdsRequest w tid (m.requestOf tid) = true) :
    RequestInv (A ++ ((m.requestOf tid).map (.flipped · h)).toList) (Function.update l i
      (some { m with moving := m.requestOf tid, unbooked := false, booked := false })) w' := by
  have hmine := hI.memory i m hl
  have hreq : m.requestOf tid = t.migrationSnapCmd := by rw [Memory.requestOf, hf, Option.bind_some]
  cases hc : m.requestOf tid with
  | none =>
    obtain ⟨t', ht', hs⟩ := hs
    obtain rfl : w' = w.putTenant (TenantUpdate.apply (.migrated h n at') t') := hs
    rw [Option.map_none, Option.toList_none, List.append_nil]
    refine hI.update hI.acts (rows_put (fun x hx _ => hI.rows x hx) nofun) (fun _ _ _ _ hm => hm)
      ⟨hmine.cmd, hmine.scanned, nofun, nofun, nofun⟩ fun j m₂ hne hj q => ⟨(hI.apart i j m m₂ hl hj hne.symm q).1, nofun⟩
  | some q =>
    obtain ⟨h', hh', hr⟩ := hmine.scanned t (List.mem_of_find?_eq_some hf) q (hreq ▸ hc)
    obtain rfl : h = h' := Option.some.inj (ht.symm.trans hh')
    exact hI.flip hl hs (fun _ => rfl) (hc ▸ hq) ⟨t.id, hr⟩ rfl

theorem RequestInv.updTenant (hI : RequestInv A l w) (hl : l i = some m) {tid : TenantId} {u : TenantUpdate} {r : Bool}
    (ha : m.allow (.updTenant tid u)) (hcur : m.current (.updTenant tid u) r w = true)
    (hs : World.step (.updTenant tid u) r w w') :
    RequestInv (A ++ m.acts (.updTenant tid u) r) (Function.update l i (some (m.next (.updTenant tid u) r))) w' := by
  have hquiet : ¬ (Call.updTenant tid u).quiet := fun h => Bool.noConfusion h.1
  -- A write that fails.
  cases r with
  | false =>
    have hm : m.acts (.updTenant tid u) false = [] := by
      cases hj : m.job <;> cases u <;> simp only [Memory.acts, hj]
    have hn : m.next (.updTenant tid u) false = m := by cases u <;> rfl
    rw [hm, hn, List.append_nil]
    exact hI.clear hl hs nofun
  | true =>
    cases hj : m.job with
    | sweep now =>
      cases u <;> first
        | (simp only [Memory.allow, hj] at ha; exact absurd ha hquiet)
        | skip
      case rollback reason at' =>
        have hm : m.acts (.updTenant tid (.rollback reason at')) true = [] := by simp only [Memory.acts, hj]
        rw [hm, List.append_nil]
        exact hI.clear hl hs fun _ t => rfl
      case restoreFired cmd at' =>
        simp only [Memory.current, hj] at hcur
        simp only [Memory.acts, hj]
        exact hI.fire hl hs hcur
      case migrated h n at' =>
        simp only [Memory.allow, hj] at ha
        simp only [Memory.current, hj] at hcur
        simp only [Memory.acts, hj]
        obtain ⟨t, hf, ht⟩ := ha
        exact hI.move hl hs hf ht hcur
    | cancel id =>
      cases u <;> first
        | (simp only [Memory.allow, hj] at ha; exact absurd ha hquiet)
        | skip
      case rollback reason at' =>
        simp only [Memory.current, hj] at hcur
        simp only [Memory.acts, hj]
        cases hq : m.read.bind TenantRow.migrationSnapCmd with
        | none =>
          rw [Option.map_none, Option.toList_none, List.append_nil]
          exact hI.clear hl hs fun _ t => rfl
        | some q => exact hI.cancel hl hs (fun _ => rfl) (hq ▸ hcur)
    | migrate id dest =>
      cases u <;> first
        | (simp only [Memory.allow, hj] at ha; exact absurd ha hquiet)
        | skip
      case migrate ctx =>
        simp only [Memory.allow, hj] at ha
        simp only [Memory.acts, hj]
        exact hI.request hl hs ha

theorem RequestInv.updHost (hI : RequestInv A l w) (hl : l i = some m) {id : HostId} {u : HostUpdate}
    {r : Option HostRow} (ha : m.allow (.updHost id u)) (hs : World.step (.updHost id u) r w w') :
    RequestInv (A ++ m.acts (.updHost id u) r) (Function.update l i (some (m.next (.updHost id u) r))) w' := by
  have hquiet : ¬ (Call.updHost id u).quiet := fun h => Bool.noConfusion h.2.1
  cases r with
  | none =>
    have hm : m.acts (.updHost id u) none = [] := by
      cases hj : m.job <;> cases u <;> simp only [Memory.acts, hj]
    have hn : m.next (.updHost id u) none = m := by cases u <;> rfl
    rw [hm, hn, List.append_nil]
    exact hI.pass hl rfl hs
  | some x =>
    cases hj : m.job with
    | cancel => cases u <;> (simp only [Memory.allow, hj] at ha; exact absurd ha hquiet)
    | migrate => cases u <;> (simp only [Memory.allow, hj] at ha; exact absurd ha hquiet)
    | sweep now =>
      have ht := step_tenants rfl hs
      have hc : w'.cmds = w.cmds := by
        obtain ⟨-, rfl⟩ := hs
        rfl
      cases u <;> first
        | (simp only [Memory.allow, hj] at ha; exact absurd ha hquiet)
        | skip
      case unbook v mem =>
        simp only [Memory.allow, hj] at ha
        simp only [Memory.acts, hj]
        cases hq : m.moving with
        | some q => exact hI.count hl (.inl ⟨rfl, ha, rfl⟩) hq ht hc
        | none =>
          have h : Remembers A w.cmds { m with unbooked := true } :=
            { hI.memory i m hl with unbooked := by rintro _ _ ⟨⟩ }
          rw [Option.map_none, Option.toList_none, List.append_nil]
          exact hI.still hl (step_cmds hs) (fun t hm => hI.rows t (ht ▸ hm)) rfl rfl h
      case bump v mem =>
        simp only [Memory.allow, hj] at ha
        simp only [Memory.acts, hj]
        cases hq : m.moving with
        | some q => exact hI.count hl (.inr ⟨rfl, ha, rfl⟩) hq ht hc
        | none =>
          have h : Remembers A w.cmds { m with booked := true } :=
            { hI.memory i m hl with booked := by rintro _ _ ⟨⟩ }
          rw [Option.map_none, Option.toList_none, List.append_nil]
          exact hI.still hl (step_cmds hs) (fun t hm => hI.rows t (ht ▸ hm)) rfl rfl h

/-- The snapshot command of a migrate action, the restore of a sweep, or a command that does nothing for a request. -/
theorem RequestInv.ssmSend (hI : RequestInv A l w) (hl : l i = some m) {host : Option HostId} {cmd : HostCmd}
    {r : Option CommandId} (hcur : m.current (.ssmSend host cmd) r w = true)
    (hs : World.step (.ssmSend host cmd) r w w') :
    RequestInv (A ++ m.acts (.ssmSend host cmd) r) (Function.update l i (some (m.next (.ssmSend host cmd) r))) w' := by
  have hrows := step_tenants rfl hs ▸ hI.rows
  cases hj : m.job with
  | cancel id =>
    simp only [Memory.acts, Memory.next, hj, List.append_nil]
    exact hI.pass hl rfl hs
  | migrate id dest =>
    simp only [Memory.acts, Memory.next, hj, List.append_nil]
    have hmine := hI.memory i m hl
    refine hI.update ?_ hrows (fun j m₂ _ _ h => h.mono (step_cmds hs)) ?_ fun j m₂ hne hj' q => ?_
    · exact { hI.acts with sent := fun q tid h hm => (hI.acts.sent q tid h hm).imp fun c h => ⟨step_cmds hs c h.1, h.2⟩ }
    · refine { hmine.mono (step_cmds hs) with cmd := fun q hq => ?_ }
      obtain rfl : r = some q := hq
      obtain ⟨hfresh, h', -, rfl⟩ := hs
      refine ⟨⟨_, List.mem_append_right _ (List.mem_singleton.2 rfl), rfl⟩, fun tid h hm => ?_⟩
      obtain ⟨c, hc, e⟩ := hI.acts.sent q tid h hm
      exact hfresh c hc e
    · refine ⟨fun hq e => ?_, (hI.apart i j m m₂ hl hj' hne.symm q).2⟩
      obtain rfl : r = some q := hq
      obtain ⟨hfresh, -⟩ := hs
      obtain ⟨⟨c, hc, e⟩, -⟩ := (hI.memory j m₂ hj').cmd q e
      exact hfresh c hc e
  | sweep now =>
    have hpass : RequestInv A (Function.update l i (some m)) w' := hI.pass hl rfl hs
    have hnext : m.next (.ssmSend host cmd) r = m := by simp only [Memory.next, hj]
    rw [hnext]
    cases r with
    | none =>
      have hm : m.acts (.ssmSend host cmd) none = [] := by cases cmd <;> simp only [Memory.acts, hj]
      rwa [hm, List.append_nil]
    | some c =>
      cases cmd <;> try
        (simp only [Memory.acts, hj, List.append_nil]; exact hpass)
      case migrateVm verb tid vmNum uri =>
        simp only [Memory.current, hj] at hcur
        simp only [Memory.acts, hj]
        cases hq : m.requestOf tid with
        | none =>
          rw [Option.map_none, Option.toList_none, List.append_nil]
          exact hpass
        | some q =>
          -- The restore is fired for an open request.
          obtain ⟨t, ht, -, hq'⟩ := holdsRequest_iff.1 (hq ▸ hcur)
          have hopen := hI.rows t (Table.mem_of_get ht) q hq'
          have hfit : MigAct.Fits A w'.cmds (.restoreSent q) := hopen.cancelled
          exact hI.act hl hfit (by rintro _ _ _ ⟨⟩) (by rintro _ ⟨⟩) (by rintro _ ⟨⟩) (step_cmds hs)
            fun t ht q' hx => (hrows t ht q' hx).concat (by rintro _ ⟨⟩) (by rintro ⟨⟩)

/-- A scan returns rows that hold open requests, each row once. -/
theorem RequestInv.scanTenants (hI : RequestInv A l w) (hl : l i = some m) {f : TenantFilter} {r : List TenantRow}
    (hs : World.step (.scanTenants f) r w w') :
    RequestInv A (Function.update l i (some { m with scanned := r })) w' := by
  obtain ⟨hp, rfl⟩ := hs
  have hmine := hI.memory i m hl
  have hmem : Remembers A w'.cmds { m with scanned := r } :=
    { hmine with
      scanned := fun t ht q hq => (hI.rows t (List.mem_of_mem_filter (hp.mem_iff.1 ht)) q hq).requested }
  exact hI.still hl (fun _ h => h) hI.rows rfl rfl hmem

/-- **One step of a run.** -/
theorem RequestInv.call (hI : RequestInv A l w) (hl : l i = some m) {c : Call} {r : c.Ans} (ha : m.allow c)
    (hcur : m.current c r w = true) (hs : World.step c r w w') :
    RequestInv (A ++ m.acts c r) (Function.update l i (some (m.next c r))) w' := by
  have hquiet : ∀ {c : Call} {r : c.Ans}, m.acts c r = [] → m.next c r = m → c.writesTenants = false →
      World.step c r w w' → RequestInv (A ++ m.acts c r) (Function.update l i (some (m.next c r))) w' :=
    fun ha hn hc hs => by
      rw [ha, hn, List.append_nil]
      exact hI.pass hl hc hs
  cases c
  case updTenant => exact hI.updTenant hl ha hcur hs
  case updHost => exact hI.updHost hl ha hs
  case ssmSend => exact hI.ssmSend hl hcur hs
  case scanTenants f =>
    have hm : m.acts (.scanTenants f) r = [] := by cases hj : m.job <;> simp only [Memory.acts, hj]
    rw [hm, List.append_nil]
    exact hI.scanTenants hl hs
  case getTenant id =>
    have hm : m.acts (.getTenant id) r = [] := by cases hj : m.job <;> simp only [Memory.acts, hj]
    rw [hm, List.append_nil]
    have h : Remembers A w.cmds { m with read := r } := { hI.memory i m hl with }
    exact hI.still hl (step_cmds hs) (step_tenants rfl hs ▸ hI.rows) rfl rfl h
  case putTenant t =>
    cases hj : m.job <;> (simp only [Memory.allow, hj] at ha; exact Bool.noConfusion ha.1)
  case condTenant id c u =>
    cases hj : m.job <;> (simp only [Memory.allow, hj] at ha; exact Bool.noConfusion ha.1)
  all_goals
    exact hquiet (by cases hj : m.job <;> simp only [Memory.acts, hj]) rfl rfl hs

/-- A process that starts remembers nothing. -/
theorem RequestInv.start (hI : RequestInv A l w) (j : MigJob) :
    RequestInv A (Function.update l i (some (migProtocol.init j))) w := by
  have hmem : Remembers A w.cmds { job := j } :=
    { cmd := fun _ h => by cases h
      scanned := fun _ h => by cases h
      moving := fun _ h => by cases h
      unbooked := fun _ h => by cases h
      booked := fun _ h => by cases h }
  refine hI.update hI.acts hI.rows (fun _ _ _ _ h => h) hmem fun j m₂ _ _ q => ⟨fun h => ?_, fun h => ?_⟩ <;> cases h

end Steps

/-- In a run on current rows the invariant holds of the acts done, the processes and the world. -/
theorem migActs_inv {ι : Type} [DecidableEq ι] {w₀ : World} (h₀ : ∀ t ∈ w₀.tenants.rows, t.migrationSnapCmd = none)
    {tr : List (Ev Ctl MigJob ι)} {c : Conf Ctl World MigJob ι Unit}
    (h : Reach ctl (migJobs cfg) onCurrentRows (Conf.idle w₀) tr c) :
    RequestInv (migActs tr) (migProtocol.locs tr) c.world := by
  let I : List (Ev Ctl MigJob ι) → World → Prop := fun tr w => RequestInv (migActs tr) (migProtocol.locs tr) w
  have hinit : I [] w₀ := by
    refine ⟨.nil _, fun t ht q hq => ?_, fun i m h => ?_, fun i j m m' h => ?_⟩
    · rw [h₀ t ht] at hq
      cases hq
    · cases h
    · cases h
  have hstart : ∀ tr w i j w', I tr w → migProtocol.locs tr i = none → onCurrentRows tr w (.start i j) →
      (migJobs cfg).start j w w' → I (tr ++ [.start i j]) w' := by
    rintro tr w i j w' hI - - rfl
    show RequestInv _ _ _
    rw [migActs, Protocol.observe_snoc, Protocol.locs_snoc, Protocol.seen, List.append_nil]
    exact hI.start j
  have hcall : ∀ tr w i m c r w', I tr w → migProtocol.locs tr i = some m → migProtocol.allow m c →
      onCurrentRows tr w (.call i c r) → ctl.step c r w w' →
      migProtocol.sane m c r ∧ I (tr ++ [.call i c r]) w' := by
    intro tr w i m c r w' hI hl ha hcur hs
    refine ⟨?_, ?_⟩
    · cases c
      case scanTenants f =>
        obtain ⟨hp, -⟩ := hs
        exact (hp.map TenantRow.id).nodup_iff.2 (w.tenants.nodup.sublist ((List.filter_sublist).map _))
      all_goals trivial
    · show RequestInv _ _ _
      rw [migActs, Protocol.observe_snoc, Protocol.locs_snoc, Protocol.seen, Protocol.stepLoc, hl]
      exact hI.call hl ha (hcur m hl) hs
  exact (Reach.protocol migJobs_obey hinit hstart hcall h).1

/-- **A migration takes effect at most once.** Whatever sweeps, cancellations and migrate actions run at the same time,
each request moves its tenant at most once and to its own target, the counters of each side change at most once for it,
and nothing happens for a request that was cancelled, as long as the processes write on current rows. -/
theorem migration_once {ι : Type} [DecidableEq ι] {w₀ : World} (h₀ : ∀ t ∈ w₀.tenants.rows, t.migrationSnapCmd = none)
    {tr : List (Ev Ctl MigJob ι)} {c : Conf Ctl World MigJob ι Unit}
    (h : Reach ctl (migJobs cfg) onCurrentRows (Conf.idle w₀) tr c) : OncePerRequest (migActs tr) :=
  (migActs_inv cfg h₀ h).acts.once

/-! ## Two runs -/

section Examples

/-- Start a job at once: the check of `migJobs` is trivial. -/
def migStart (_ : MigJob) (w : World) : Option World := some w

theorem migStart_sound {cfg : Config} : ∀ (j : MigJob) (w w' : World), migStart j w = some w' →
    (migJobs cfg).start j w w' := fun _ _ _ h => (Option.some.inj h).symm

/-- `onCurrentRows`, computed. -/
def onCurrentRowsCheck (tr : List (Ev Ctl MigJob ℕ)) (w : World) : Ev Ctl MigJob ℕ → Bool
  | .start _ _ => true
  | .call i c r => (migProtocol.locs tr i).all fun m => m.current c r w

theorem onCurrentRowsCheck_sound (tr : List (Ev Ctl MigJob ℕ)) (w : World) (e : Ev Ctl MigJob ℕ)
    (h : onCurrentRowsCheck tr w e = true) : onCurrentRows tr w e := by
  cases e with
  | start => trivial
  | call i c r => exact (Option.all_eq_true _ _).1 h

def hostTgConfig : Config := { routingMode := .hostTg }

/-- A migrate action, the sweep that fires the restore and the sweep that moves the tenant. -/
def moveMoves : List (Move MigJob ℕ Hint) :=
  List.flatten [[.start 0 (.migrate "a-0000" "i-2")], List.replicate 5 (.call 0 {}),
    [.start 1 (.sweep 0)], List.replicate 5 (.call 1 {}),
    [.start 2 (.sweep 0)], List.replicate 11 (.call 2 {})]

theorem migration_once_twoHosts : ∃ (tr : List (Ev Ctl MigJob ℕ)) (c : Conf Ctl World MigJob ℕ Unit),
    Reach ctl (migJobs hostTgConfig) onCurrentRows (Conf.idle twoHosts) tr c ∧ OncePerRequest (migActs tr) ∧
      migActs tr = [.requested 0 "a-0000" "i-2", .restoreSent 0, .restoreFired 0, .flipped 0 "i-2", .unbooked 0,
        .booked 0] := by
  have hplay : ((ctlOracle.play (migJobs hostTgConfig) migStart onCurrentRowsCheck [] (Conf.idle twoHosts)
      moveMoves).any fun x => decide (migActs x.1 = [.requested 0 "a-0000" "i-2", .restoreSent 0, .restoreFired 0,
        .flipped 0 "i-2", .unbooked 0, .booked 0])) = true := by
    decide +kernel
  obtain ⟨tr, c, hr, ha⟩ := Oracle.exists_reach_of_play migStart_sound onCurrentRowsCheck_sound hplay
  exact ⟨tr, c, hr, migration_once hostTgConfig (by decide) hr, of_decide_eq_true ha⟩

/-- The sweep that was started last. -/
def lastSweep (tr : List (Ev Ctl MigJob ℕ)) : Option ℕ :=
  tr.foldl (fun last e => match e with
    | .start i (.sweep _) => some i
    | _ => last) none

/-- Sweeps never run two at a time: only the one that was started last goes on. -/
def oneSweep (tr : List (Ev Ctl MigJob ℕ)) (_ : World) : Ev Ctl MigJob ℕ → Bool
  | .start _ _ => true
  | .call i _ _ => (migProtocol.locs tr i).all fun m =>
    match m.job with
    | .sweep _ => lastSweep tr = some i
    | _ => true

/-- The second sweep has polled the restore when the operator cancels. -/
def cancelMoves : List (Move MigJob ℕ Hint) :=
  List.flatten [[.start 0 (.migrate "a-0000" "i-2")], List.replicate 5 (.call 0 {}),
    [.start 1 (.sweep 0)], List.replicate 5 (.call 1 {}),
    [.start 2 (.sweep 0)], List.replicate 2 (.call 2 {}),
    [.start 3 (.cancel "a-0000")], List.replicate 3 (.call 3 {}), List.replicate 9 (.call 2 {})]

/-- The sweep moves a tenant whose migration was cancelled. -/
theorem cancelled_migration_moves : ∃ (tr : List (Ev Ctl MigJob ℕ)) (c : Conf Ctl World MigJob ℕ Unit),
    Reach ctl (migJobs hostTgConfig) (fun tr w e => oneSweep tr w e = true) (Conf.idle twoHosts) tr c ∧
      ¬ OncePerRequest (migActs tr) := by
  have hplay : ((ctlOracle.play (migJobs hostTgConfig) migStart oneSweep [] (Conf.idle twoHosts)
      cancelMoves).any fun x => decide (migActs x.1 = [.requested 0 "a-0000" "i-2", .restoreSent 0, .restoreFired 0,
        .cancelled 0, .flipped 0 "i-2", .unbooked 0, .booked 0])) = true := by
    decide +kernel
  obtain ⟨tr, c, hr, ha⟩ := Oracle.exists_reach_of_play migStart_sound (fun _ _ _ h => h) hplay
  refine ⟨tr, c, hr, fun ho => ?_⟩
  have hc := ho.cancelled
  rw [of_decide_eq_true ha] at hc
  have hpair : MigAct.effectFor (.flipped 0 "i-2") ≠ some 0 := by
    simp only [List.pairwise_cons] at hc
    exact hc.2.2.2.1 _ (by simp) 0 rfl
  exact hpair rfl

end Examples

end OpenClaw
