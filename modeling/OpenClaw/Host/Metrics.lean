import OpenClaw.Api.Names
import OpenClaw.Host.Health
import OpenClaw.Host.PeerMap
import OpenClaw.Lib.Exposition

/-!
# The metrics page of the host agent

`_render_metrics_text` writes the gauges of the VMs and the counters of the peer map by hand. It escapes nothing: an id
stands in a label as it is.

- `renderMetricsText`: the text of the page.
- `metricsOf`: the metrics it should say.
- `metrics_read`: the text is that of those metrics exactly when no id has a quote, a backslash or a newline; then a
  reader of the page finds each gauge of each VM, the health of every VM and always the three counters, each once.
-/

namespace OpenClaw

/-! ## The text -/

/-- The names, help texts and keys of `_PROM_GAUGES`. -/
def promGauges : List (String × String × String) :=
  [("openclaw_vm_memory_used_mb", "Per-VM memory in active use (MB)", "memory_used_mb"),
    ("openclaw_vm_memory_balloon_mib", "Balloon size held by the host (MiB)", "memory_balloon_mib"),
    ("openclaw_vm_disk_used_mb", "Per-VM data disk used (MB)", "disk_used_mb"),
    ("openclaw_vm_disk_total_mb", "Per-VM data disk capacity (MB)", "disk_total_mb"),
    ("openclaw_vm_disk_used_pct", "Per-VM data disk used (percent)", "disk_used_pct"),
    ("openclaw_vm_cpu_pct", "Per-VM CPU usage (percent of allocated vcpus)", "cpu_pct")]

/-- The name, the help text and the type of the health of the VMs. -/
def healthMetric : String × String × String :=
  ("openclaw_vm_health", "1 if the VM responded to ping, else 0", "gauge")

/-- The names, help texts and types of the peer-map metrics. -/
def reloadFailuresMetric : String × String × String :=
  ("openclaw_peer_map_reload_failures_total", "nginx -t/reload rejections while applying the peer-map", "counter")

def lastSuccessMetric : String × String × String :=
  ("openclaw_peer_map_last_success_age_seconds",
    "seconds since the peer-map was last fully applied (-1 = never applied)", "gauge")

def entriesMetric : String × String × String :=
  ("openclaw_peer_map_entries", "peer routes in the last applied generation", "gauge")

/-- `metrics.get(key, 0)`; no sample without metrics, which an empty dictionary is too. -/
def ProbeInfo.gauge (info : ProbeInfo) (key : String) : Option Int :=
  match info.metrics with
  | none | some [] => none
  | some metrics => some ((metrics.lookup key).getD 0)

/-- `1 if info.get("vm_health") == "up" else 0` -/
def ProbeInfo.responded (info : ProbeInfo) : Int := if info.vmHealth = .up then 1 else 0

/-- `age` -/
def PeerState.age (p : PeerState) (now : Time) : Int :=
  if p.lastSuccess ≤ 0 then -1 else max 0 (now - p.lastSuccess) / 1000000

/-- The two lines before the samples of a metric. -/
def headerLines (name help kind : String) : List String :=
  ["# HELP " ++ name ++ " " ++ help, "# TYPE " ++ name ++ " " ++ kind]

def tenantLine (name : String) (tid : TenantId) (value : Int) : String :=
  name ++ "\x7btenant=\"" ++ tid ++ "\"\x7d " ++ value.repr

def hostLine (name : String) (value : Int) : String := name ++ " " ++ value.repr

/-- The lines of one gauge. -/
def gaugeLines (snapshots : List (TenantId × ProbeInfo)) (g : String × String × String) : List String :=
  headerLines g.1 g.2.1 "gauge" ++ snapshots.filterMap fun s => (s.2.gauge g.2.2).map (tenantLine g.1 s.1)

def healthLines (snapshots : List (TenantId × ProbeInfo)) : List String :=
  headerLines healthMetric.1 healthMetric.2.1 healthMetric.2.2 ++
    snapshots.map fun s => tenantLine healthMetric.1 s.1 s.2.responded

def peerLines (m : String × String × String) (value : Int) : List String :=
  headerLines m.1 m.2.1 m.2.2 ++ [hostLine m.1 value]

/-- `_render_metrics_text`, with `peer` as the handler of `/metrics` gives it. -/
def renderMetricsText (snapshots : List (TenantId × ProbeInfo)) (peer : PeerState) (now : Time) : String :=
  "\n".intercalate (promGauges.flatMap (gaugeLines snapshots) ++ (healthLines snapshots ++
    (peerLines reloadFailuresMetric peer.reloadFailures ++ (peerLines lastSuccessMetric (peer.age now) ++
      peerLines entriesMetric peer.entries)))) ++ "\n"

/-! ## The metrics -/

open Exposition in
/-- The label of a tenant. -/
def tenantLabel (tid : TenantId) : List Label := [("tenant".toList, tid.toList)]

section Metrics

open Exposition

variable (snapshots : List (TenantId × ProbeInfo)) (peer : PeerState) (now : Time)

/-- A metric of the agent. -/
def metric (m : String × String × String) (samples : List (List Label × Int)) : Family :=
  ⟨m.1.toList, m.2.1.toList, m.2.2.toList, samples⟩

def gaugeMetric (g : String × String × String) : Family :=
  metric (g.1, g.2.1, "gauge") (snapshots.filterMap fun s => (s.2.gauge g.2.2).map fun v => (tenantLabel s.1, v))

/-- What the page should say. -/
def metricsOf : List Family :=
  promGauges.map (gaugeMetric snapshots) ++
    [metric healthMetric (snapshots.map fun s => (tenantLabel s.1, s.2.responded)),
      metric reloadFailuresMetric [([], peer.reloadFailures)],
      metric lastSuccessMetric [([], peer.age now)],
      metric entriesMetric [([], peer.entries)]]

/-! ### Lines -/

variable {snapshots peer now}

theorem toList_headerLines (name help kind : String) : (headerLines name help kind).map String.toList =
    [lineText raw (.help name.toList help.toList), lineText raw (.type name.toList kind.toList)] := by
  simp only [headerLines, List.map_cons, List.map_nil, String.toList_append, lineText, raw, List.append_assoc]
  rfl

theorem toList_tenantLine (name : String) (tid : TenantId) (value : Int) :
    (tenantLine name tid value).toList = lineText raw (.sample ⟨name.toList, tenantLabel tid, value⟩) := by
  simp only [tenantLine, String.toList_append, List.append_assoc, lineText, labelsText, tenantLabel, labelText,
    moreLabels, raw, decimal, List.flatMap_nil, List.nil_append, List.cons_append]
  rfl

theorem toList_hostLine (name : String) (value : Int) :
    (hostLine name value).toList = lineText raw (.sample ⟨name.toList, [], value⟩) := by
  simp only [hostLine, String.toList_append, List.append_assoc, lineText, labelsText, decimal, List.nil_append]
  rfl

theorem toList_gaugeLines (g : String × String × String) :
    (gaugeLines snapshots g).map String.toList = (gaugeMetric snapshots g).lines.map (lineText raw) := by
  rw [gaugeLines, List.map_append, toList_headerLines]
  simp only [gaugeMetric, metric, Family.lines, List.map_cons, List.map_filterMap, List.cons_append, List.nil_append]
  refine congrArg _ (congrArg _ (List.filterMap_congr fun s _ => ?_))
  cases s.2.gauge g.2.2 with
  | none => rfl
  | some v => exact congrArg some (toList_tenantLine g.1 s.1 v)

theorem toList_healthLines : (healthLines snapshots).map String.toList =
    (metric healthMetric (snapshots.map fun s => (tenantLabel s.1, s.2.responded))).lines.map (lineText raw) := by
  rw [healthLines, List.map_append, toList_headerLines]
  simp only [metric, Family.lines, List.map_cons, List.map_map, List.cons_append, List.nil_append]
  exact congrArg _ (congrArg _ (List.map_congr_left fun s _ => toList_tenantLine healthMetric.1 s.1 s.2.responded))

theorem toList_peerLines (m : String × String × String) (value : Int) :
    (peerLines m value).map String.toList = (metric m [([], value)]).lines.map (lineText raw) := by
  rw [peerLines, List.map_append, toList_headerLines]
  simp only [metric, Family.lines, List.map_cons, List.map_nil, toList_hostLine, List.cons_append, List.nil_append]

/-- `"\n".join(out) + "\n"` ends every line of `out`. -/
theorem toList_joined {out : List String} (h : out ≠ []) :
    ("\n".intercalate out ++ "\n").toList = out.flatMap fun t => t.toList ++ ['\n'] := by
  obtain ⟨t, out, rfl⟩ := List.exists_cons_of_ne_nil h
  induction out generalizing t with
  | nil => simp
  | cons u out ih =>
    have hrest := ih u (List.cons_ne_nil _ _)
    rw [String.intercalate_cons_cons, List.flatMap_cons, ← hrest]
    simp

theorem pageText_of_lines {out : List String} {ls : List Line} (h : out.map String.toList = ls.map (lineText raw)) :
    (out.flatMap fun t => t.toList ++ ['\n']) = pageText raw ls := by
  have hout : (out.flatMap fun t => t.toList ++ ['\n']) = (out.map String.toList).flatMap fun t => t ++ ['\n'] := by
    rw [List.flatMap_map]
  rw [hout, h, List.flatMap_map]
  rfl

/-- The text is that of the metrics, with nothing escaped. -/
theorem renderMetricsText_toList :
    (renderMetricsText snapshots peer now).toList = pageText raw (families (metricsOf snapshots peer now)) := by
  have hgauges : (promGauges.flatMap (gaugeLines snapshots)).map String.toList =
      ((promGauges.map (gaugeMetric snapshots)).flatMap Family.lines).map (lineText raw) := by
    rw [List.map_flatMap, List.flatMap_map, List.map_flatMap]
    exact List.flatMap_congr fun g _ => toList_gaugeLines g
  rw [renderMetricsText, toList_joined (by simp [healthLines, headerLines])]
  refine pageText_of_lines ?_
  simp only [families, metricsOf, List.map_append, List.flatMap_append, List.flatMap_cons, List.flatMap_nil, hgauges,
    toList_healthLines, toList_peerLines, List.append_nil]

/-! ### What a reader finds -/

theorem metricsOf_names : (metricsOf snapshots peer now).map Family.name =
    ((promGauges.map fun g => g.1) ++ [healthMetric.1, reloadFailuresMetric.1, lastSuccessMetric.1,
      entriesMetric.1]).map String.toList := rfl

theorem metricsOf_names_nodup : ((metricsOf snapshots peer now).map Family.name).Nodup := by
  rw [metricsOf_names]
  decide +kernel

/-- Every name and help text of the agent is as it should be. -/
theorem metric_texts : ∀ m ∈ (promGauges.map fun g => (g.1, g.2.1, "gauge")) ++ [healthMetric, reloadFailuresMetric,
    lastSuccessMetric, entriesMetric], (IsName m.1.toList ∧ skip m.2.1.toList = m.2.1.toList ∧ m.2.2.toList ∈ kinds) ∧
      Plain false m.2.1.toList := by
  decide +kernel

theorem isName_tenant : IsName "tenant".toList := by
  decide +kernel

/-- A metric of the agent: one of the texts, with samples of tenants in the snapshot or of the host. -/
theorem mem_metricsOf {f : Family} (h : f ∈ metricsOf snapshots peer now) :
    ∃ m ∈ (promGauges.map fun g => (g.1, g.2.1, "gauge")) ++ [healthMetric, reloadFailuresMetric, lastSuccessMetric,
      entriesMetric], f = metric m f.samples ∧ ∀ x ∈ f.samples, x.1 = [] ∨ ∃ s ∈ snapshots, x.1 = tenantLabel s.1 := by
  rcases List.mem_append.1 h with h | h
  · obtain ⟨g, hg, rfl⟩ := List.mem_map.1 h
    refine ⟨_, List.mem_append_left _ (List.mem_map_of_mem hg), rfl, fun x hx => ?_⟩
    obtain ⟨s, hs, hx⟩ := List.mem_filterMap.1 hx
    obtain ⟨v, -, rfl⟩ := Option.map_eq_some_iff.1 hx
    exact .inr ⟨s, hs, rfl⟩
  · simp only [List.mem_cons, List.not_mem_nil, or_false] at h
    rcases h with rfl | rfl | rfl | rfl
    · refine ⟨healthMetric, by simp, rfl, fun x hx => ?_⟩
      obtain ⟨s, hs, rfl⟩ := List.mem_map.1 hx
      exact .inr ⟨s, hs, rfl⟩
    · exact ⟨reloadFailuresMetric, by simp, rfl, fun x hx => .inl (by rw [List.mem_singleton.1 hx])⟩
    · exact ⟨lastSuccessMetric, by simp, rfl, fun x hx => .inl (by rw [List.mem_singleton.1 hx])⟩
    · exact ⟨entriesMetric, by simp, rfl, fun x hx => .inl (by rw [List.mem_singleton.1 hx])⟩

theorem metricsOf_good : ∀ f ∈ metricsOf snapshots peer now, f.Good := by
  intro f hf
  obtain ⟨m, hm, he, hs⟩ := mem_metricsOf hf
  obtain ⟨⟨hname, hdoc, hkind⟩, -⟩ := metric_texts m hm
  rw [he]
  refine ⟨hname, hdoc, hkind, fun x hx l hl => ?_⟩
  rcases hs x hx with hx | ⟨s, -, hx⟩
  · rw [hx] at hl
    cases hl
  · rw [hx] at hl
    obtain rfl := List.mem_singleton.1 hl
    exact isName_tenant

theorem metricsOf_bare : (∀ l ∈ families (metricsOf snapshots peer now), l.Bare) ↔
    ∀ s ∈ snapshots, Plain true s.1.toList := by
  rw [families_bare]
  constructor
  · intro h s hs
    have hhealth : metric healthMetric (snapshots.map fun s => (tenantLabel s.1, s.2.responded)) ∈
        metricsOf snapshots peer now := by
      simp [metricsOf]
    exact (h _ hhealth).2 _ (List.mem_map_of_mem hs) _ (List.mem_singleton.2 rfl)
  · intro h f hf
    obtain ⟨m, hm, he, hs⟩ := mem_metricsOf hf
    refine ⟨he ▸ (metric_texts m hm).2, fun x hx l hl => ?_⟩
    rcases hs x hx with hx | ⟨s, hsnap, hx⟩
    · rw [hx] at hl
      cases hl
    · rw [hx] at hl
      obtain rfl := List.mem_singleton.1 hl
      exact h s hsnap

theorem tenantLabel_inj {tid tid' : TenantId} : tenantLabel tid = tenantLabel tid' ↔ tid = tid' := by
  simp [tenantLabel, String.toList_inj]

/-- The samples of a metric of tenants. -/
theorem lookup_tenants (hn : (snapshots.map Prod.fst).Nodup) (value : ProbeInfo → Option Int) (tid : TenantId) :
    (snapshots.filterMap fun s => (value s.2).map fun v => (tenantLabel s.1, v)).lookup (tenantLabel tid) =
      (snapshots.lookup tid).bind value := by
  induction snapshots with
  | nil => rfl
  | cons s snapshots ih =>
    obtain ⟨id, info⟩ := s
    obtain ⟨hs, hrows⟩ := List.nodup_cons.1 hn
    rw [List.lookup_cons, List.filterMap_cons]
    by_cases ht : tid = id
    · subst ht
      have hrest : snapshots.lookup tid = none := by
        refine List.lookup_eq_none_iff.2 fun x hx => ?_
        have hne : tid ≠ x.1 := by
          rintro rfl
          exact hs (List.mem_map.2 ⟨x, hx, rfl⟩)
        exact bne_iff_ne.2 hne
      cases hv : value info with
      | none => simp only [hv, Option.map_none, ih hrows, hrest, beq_self_eq_true, Option.bind_none, Option.bind_some]
      | some v => simp [hv]
    · have htid : (tid == id) = false := beq_eq_false_iff_ne.2 ht
      have hlabel : (tenantLabel tid == tenantLabel id) = false := beq_eq_false_iff_ne.2 (mt tenantLabel_inj.1 ht)
      cases hv : value info with
      | none => simp [ih hrows, htid]
      | some v => simp [List.lookup_cons, ih hrows, htid, hlabel]

theorem tenants_nodup (hn : (snapshots.map Prod.fst).Nodup) (value : ProbeInfo → Option Int) :
    ((snapshots.filterMap fun s => (value s.2).map fun v => (tenantLabel s.1, v)).map Prod.fst).Nodup := by
  rw [List.nodup_iff_pairwise_ne, List.pairwise_map] at hn
  rw [List.nodup_iff_pairwise_ne, List.pairwise_map, List.pairwise_filterMap]
  refine hn.imp fun hne x hx y hy => ?_
  obtain ⟨v, -, rfl⟩ := Option.map_eq_some_iff.1 hx
  obtain ⟨w, -, rfl⟩ := Option.map_eq_some_iff.1 hy
  exact mt tenantLabel_inj.1 hne

/-- The health has a sample for every tenant. -/
theorem health_samples : (snapshots.map fun s => (tenantLabel s.1, s.2.responded)) =
    snapshots.filterMap fun s => (some s.2.responded).map fun v => (tenantLabel s.1, v) :=
  (congrFun List.filterMap_eq_map' snapshots).symm

theorem metricsOf_samples_nodup (hn : (snapshots.map Prod.fst).Nodup) :
    ∀ f ∈ metricsOf snapshots peer now, (f.samples.map Prod.fst).Nodup := by
  intro f hf
  rcases List.mem_append.1 hf with hf | hf
  · obtain ⟨g, -, rfl⟩ := List.mem_map.1 hf
    exact tenants_nodup hn fun info => info.gauge g.2.2
  · simp only [List.mem_cons, List.not_mem_nil, or_false] at hf
    rcases hf with rfl | rfl | rfl | rfl
    · rw [metric, health_samples]
      exact tenants_nodup hn fun info => some info.responded
    · exact List.nodup_singleton _
    · exact List.nodup_singleton _
    · exact List.nodup_singleton _

variable (snapshots peer now) in
/-- What a reader of the page finds. -/
structure MetricsRead (page : List Line) : Prop where
  once : (seriesOf page).Nodup
  gauges : ∀ g ∈ promGauges, ∀ tid,
    valueOf page g.1.toList (tenantLabel tid) = (snapshots.lookup tid).bind fun info => info.gauge g.2.2
  health : ∀ tid, valueOf page healthMetric.1.toList (tenantLabel tid) = (snapshots.lookup tid).map ProbeInfo.responded
  reloadFailures : valueOf page reloadFailuresMetric.1.toList [] = some (peer.reloadFailures : Int)
  lastSuccess : valueOf page lastSuccessMetric.1.toList [] = some (peer.age now)
  entries : valueOf page entriesMetric.1.toList [] = some (peer.entries : Int)

theorem metricsRead (hn : (snapshots.map Prod.fst).Nodup) :
    MetricsRead snapshots peer now (families (metricsOf snapshots peer now)) := by
  have hvalue : ∀ {f : Family}, f ∈ metricsOf snapshots peer now → ∀ labels,
      valueOf (families (metricsOf snapshots peer now)) f.name labels = f.samples.lookup labels :=
    fun hf labels => valueOf_families metricsOf_names_nodup hf labels
  refine ⟨seriesOf_nodup metricsOf_names_nodup (metricsOf_samples_nodup hn), fun g hg tid => ?_, fun tid => ?_, ?_, ?_,
    ?_⟩
  · have hf : gaugeMetric snapshots g ∈ metricsOf snapshots peer now :=
      List.mem_append_left _ (List.mem_map_of_mem hg)
    exact (hvalue hf (tenantLabel tid)).trans (lookup_tenants hn (fun info => info.gauge g.2.2) tid)
  · have hf : metric healthMetric (snapshots.map fun s => (tenantLabel s.1, s.2.responded)) ∈
        metricsOf snapshots peer now := by
      simp [metricsOf]
    have hlookup := lookup_tenants hn (fun info => some info.responded) tid
    rw [← health_samples] at hlookup
    rw [Option.map_eq_bind]
    exact (hvalue hf (tenantLabel tid)).trans hlookup
  · have hf : metric reloadFailuresMetric [([], (peer.reloadFailures : Int))] ∈ metricsOf snapshots peer now := by
      simp [metricsOf]
    exact hvalue hf []
  · have hf : metric lastSuccessMetric [([], peer.age now)] ∈ metricsOf snapshots peer now := by
      simp [metricsOf]
    exact hvalue hf []
  · have hf : metric entriesMetric [([], (peer.entries : Int))] ∈ metricsOf snapshots peer now := by
      simp [metricsOf]
    exact hvalue hf []

/-- **The metrics page is read as it is meant.** The text is that of the metrics, with what the format needs escaped,
exactly when no id in the snapshot has a quote, a backslash or a newline. Then a reader finds a gauge for exactly the
VMs with metrics, with the value they have, the health of exactly the VMs in the snapshot, and always the three counters
of the peer map; and it finds no series twice. -/
theorem metrics_read (hn : (snapshots.map Prod.fst).Nodup) :
    ((renderMetricsText snapshots peer now).toList = pageText escape (families (metricsOf snapshots peer now)) ↔
      ∀ s ∈ snapshots, Plain true s.1.toList) ∧
    ((∀ s ∈ snapshots, Plain true s.1.toList) →
      ∃ page, readPage (renderMetricsText snapshots peer now).toList = some page ∧
        MetricsRead snapshots peer now page) := by
  have hright : (renderMetricsText snapshots peer now).toList =
      pageText escape (families (metricsOf snapshots peer now)) ↔ ∀ s ∈ snapshots, Plain true s.1.toList := by
    rw [renderMetricsText_toList, pageText_raw, metricsOf_bare]
  refine ⟨hright, fun hplain => ⟨_, ?_, metricsRead hn⟩⟩
  rw [hright.2 hplain]
  exact readPage_pageText (families_good metricsOf_good)

/-! ### Ids -/

/-- **What a validator accepts needs no escape** unless a newline ends it. -/
theorem unescaped_of_label {mid : Nat} {cs : List Char} (h : labelRe mid cs = true) :
    Plain true cs ↔ cs.getLast? ≠ some '\n' := by
  constructor
  · exact fun hp hn => hp.1 (List.mem_of_getLast? hn)
  · intro hn
    have hall := (labelRe_chars h hn).2
    exact ⟨fun hm => absurd (hall _ hm) (by decide), fun hm => absurd (hall _ hm) (by decide),
      fun _ hm => absurd (hall _ hm) (by decide)⟩

/-! ### Examples -/

/-- A VM that answers, and one that is launched again. -/
def twoSnapshots : List (TenantId × ProbeInfo) :=
  [("a-0000", { vmHealth := .up, appHealth := .up, metrics := some [("memory_used_mb", 2048), ("cpu_pct", 5)] }),
    ("b-0000", { vmHealth := .recovering, appHealth := .down })]

/-- The page of two VMs. -/
theorem metrics_read_two :
    (renderMetricsText twoSnapshots {} 0).toList = pageText escape (families (metricsOf twoSnapshots {} 0)) ∧
    ∃ page, readPage (renderMetricsText twoSnapshots {} 0).toList = some page ∧
      MetricsRead twoSnapshots {} 0 page := by
  have hplain : ∀ s ∈ twoSnapshots, Plain true s.1.toList := by
    intro s hs
    rcases List.mem_cons.1 hs with rfl | hs
    · exact (by decide +kernel : Plain true "a-0000".toList)
    · obtain rfl := List.mem_singleton.1 hs
      exact (by decide +kernel : Plain true "b-0000".toList)
  obtain ⟨hright, hread⟩ := @metrics_read twoSnapshots {} 0 (by decide)
  exact ⟨hright.2 hplain, hread hplain⟩

/-- A quote in an id: the line cannot be read. -/
example : readLine (tenantLine "openclaw_vm_health" "a\"b" 0).toList = none := by
  rw [toList_tenantLine]
  decide +kernel

end Metrics

end OpenClaw
