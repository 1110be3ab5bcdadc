import OpenClaw.Control.Rows
import OpenClaw.Lib.Sorting

/-!
# Looking up backups

`backup-data.sh` stores the backups of a tenant under `<BACKUP_PREFIX>/<tid>/`. The API looks them up with
`_resolve_backup`, the failover with `_find_latest_backup_key`; both list the bucket once, and S3 lists at most 1000
keys at a time, in key order.

- `backup_lookup`: when the two lookups are right for every tenant.
- `lookup_misses_backup`: with another `BACKUP_PREFIX` the failover finds nothing.
-/

namespace OpenClaw

/-- An object that `backup-data.sh` stored. -/
structure Backup where
  tenant : TenantId
  timestamp : String
  lastModified : Time
deriving DecidableEq

/-- `<prefix>/<tid>/`. -/
def backupDir (pre : String) (tid : TenantId) : String := pre ++ "/" ++ tid ++ "/"

/-- `S3_KEY`. -/
def s3Key (pre : String) (tid : TenantId) (timestamp : String) : String := backupDir pre tid ++ timestamp ++ ".gz"

def Backup.key (pre : String) (o : Backup) : String := s3Key pre o.tenant o.timestamp

/-- The backups in the assets bucket, as S3 lists them. -/
structure BackupBucket (pre : String) where
  /-- `ASSETS_BUCKET`. -/
  name : String
  objects : List Backup
  named : name ≠ ""
  sorted : objects.Pairwise fun a b => a.key pre < b.key pre
  /-- A tenant id is one segment of a key. -/
  segments : ∀ o ∈ objects, '/' ∉ o.tenant.toList ∧ o.tenant ≠ ""
  stamped : ∀ o ∈ objects, o.timestamp ≠ ""

section Lookup

variable {pre : String} (b : BackupBucket pre)

/-- The key starts with the prefix. -/
def startsWith (dir key : String) : Bool := dir.toList.isPrefixOf key.toList

/-- `list_objects_v2`: the first page of the keys that start with the prefix. -/
def BackupBucket.listObjectsV2 (dir : String) : List Backup :=
  (b.objects.filter fun o => startsWith dir (o.key pre)).take 1000

/-- `_resolve_backup`, with `BACKUP_PREFIX`; `""` when nothing is found. -/
def resolveBackup (src : TenantId) (timestamp : Option String) : String :=
  let objs := b.listObjectsV2 (backupDir pre src)
  match timestamp.filter (· ≠ "") with
  | some ts => if objs.any fun o => o.key pre = s3Key pre src ts then s3Key pre src ts else ""
  | none => ((Sorting.firstMax Backup.lastModified objs).map (Backup.key pre)).getD ""

/-- `_find_latest_backup_key`: the prefix is a constant. -/
def findLatestBackupKey (tid : TenantId) : Option String :=
  if b.name = "" ∨ tid = "" then none
  else
    let objs := b.listObjectsV2 (backupDir "backups" tid)
    ((objs.insertionSort fun x y => y.lastModified ≤ x.lastModified).head?).map (Backup.key pre)

end Lookup

/-! ## Keys -/

section Keys

variable {pre : String} {tid : TenantId} {o : Backup}

/-- Two lists that agree up to the first separator of each. -/
theorem prefix_of_segments {α : Type} {c : α} {a b x y : List α} (ha : c ∉ a) (hb : c ∉ b)
    (h : a ++ c :: x <+: b ++ c :: y) : a = b ∧ x <+: y := by
  induction a generalizing b with
  | nil =>
    cases b with
    | nil => exact ⟨rfl, (List.cons_prefix_cons.1 h).2⟩
    | cons d b =>
      have hd : c = d := (List.cons_prefix_cons.1 h).1
      exact absurd (hd ▸ List.mem_cons_self) hb
  | cons d a ih =>
    cases b with
    | nil =>
      have hd : d = c := (List.cons_prefix_cons.1 h).1
      exact absurd (hd ▸ List.mem_cons_self) ha
    | cons e b =>
      obtain ⟨rfl, hrest⟩ := List.cons_prefix_cons.1 h
      obtain ⟨rfl, hxy⟩ := ih (List.not_mem_of_not_mem_cons ha) (List.not_mem_of_not_mem_cons hb) hrest
      exact ⟨rfl, hxy⟩

theorem backupDir_toList : (backupDir pre tid).toList = pre.toList ++ '/' :: (tid.toList ++ ['/']) := by
  simp [backupDir]

theorem key_toList : (o.key pre).toList =
    pre.toList ++ '/' :: (o.tenant.toList ++ '/' :: (o.timestamp.toList ++ ".gz".toList)) := by
  simp [Backup.key, s3Key, backupDir]

theorem startsWith_iff {dir key : String} : startsWith dir key = true ↔ dir.toList <+: key.toList :=
  List.isPrefixOf_iff_prefix

/-- The keys of a tenant's directory are the tenant's. -/
theorem startsWith_dir (ht : '/' ∉ tid.toList) (ho : '/' ∉ o.tenant.toList) :
    startsWith (backupDir pre tid) (o.key pre) = true ↔ o.tenant = tid := by
  rw [startsWith_iff, backupDir_toList, key_toList, List.prefix_append_right_inj, List.cons_prefix_cons]
  constructor
  · intro h
    exact String.toList_injective (prefix_of_segments ht ho h.2).1.symm
  · rintro rfl
    exact ⟨rfl, List.prefix_append_right_inj .. |>.2 (List.cons_prefix_cons.2 ⟨rfl, List.nil_prefix⟩)⟩

theorem dir_prefix_key : (pre ++ "/").toList <+: (o.key pre).toList := by
  rw [key_toList, String.toList_append]
  exact (List.prefix_append_right_inj _).2 (List.cons_prefix_cons.2 ⟨rfl, List.nil_prefix⟩)

theorem backupDir_inj {a c : TenantId} (ha : '/' ∉ a.toList) (hc : '/' ∉ c.toList)
    (h : (backupDir pre a).toList <+: (backupDir pre c).toList) : a = c := by
  rw [backupDir_toList, backupDir_toList, List.prefix_append_right_inj, List.cons_prefix_cons] at h
  exact String.toList_injective (prefix_of_segments ha hc h.2).1

/-- Another prefix holds the directory the failover looks into only from the inside. -/
theorem inside_of_startsWith (hpre : pre ≠ "backups") (ht : '/' ∉ tid.toList)
    (h : startsWith (backupDir "backups" tid) (o.key pre) = true) :
    startsWith (backupDir "backups" tid) (pre ++ "/") = true := by
  rw [startsWith_iff] at h ⊢
  rcases List.prefix_or_prefix_of_prefix h dir_prefix_key with hin | hout
  · exact hin
  · rw [backupDir_toList, String.toList_append] at hout
    have hb : '/' ∉ "backups".toList := by decide
    have hout : pre.toList ++ '/' :: [] <+: "backups".toList ++ '/' :: (tid.toList ++ ['/']) := hout
    by_cases hslash : '/' ∈ pre.toList
    · obtain ⟨a, c, hac, ha⟩ := List.eq_append_cons_of_mem hslash
      rw [hac, List.append_assoc, List.cons_append] at hout
      obtain ⟨rfl, hrest⟩ := prefix_of_segments ha hb hout
      have hc : '/' ∉ c := by
        intro hm
        obtain ⟨a', c', rfl, ha'⟩ := List.eq_append_cons_of_mem hm
        rw [List.append_assoc, List.cons_append] at hrest
        have hend := (prefix_of_segments ha' ht hrest).2
        simp at hend
      obtain ⟨rfl, -⟩ := prefix_of_segments hc ht hrest
      rw [backupDir_toList, String.toList_append, hac]
      simp
    · exact absurd (String.toList_injective (prefix_of_segments hslash hb hout).1) hpre

end Keys

/-! ## The two lookups -/

section Correct

variable {pre : String} {b : BackupBucket pre} {tid : TenantId}

/-- The backups of a tenant. -/
def BackupBucket.of (b : BackupBucket pre) (tid : TenantId) : List Backup := b.objects.filter fun o => o.tenant = tid

/-- Both lookups find the newest backup of the tenant, and a timestamp finds its backup. -/
structure FindsBackups (b : BackupBucket pre) (tid : TenantId) : Prop where
  agree : resolveBackup b tid none = (findLatestBackupKey b tid).getD ""
  newest : ∀ key, findLatestBackupKey b tid = some key → ∃ o ∈ b.of tid, o.key pre = key ∧
    ∀ o' ∈ b.of tid, o'.lastModified ≤ o.lastModified
  nothing : findLatestBackupKey b tid = none → b.of tid = []
  stamped : ∀ o ∈ b.of tid, resolveBackup b tid (some o.timestamp) = o.key pre

/-- The failover looks where the backups of the bucket are. -/
def LooksThere (b : BackupBucket pre) : Prop :=
  pre = "backups" ∨ ∀ o ∈ b.objects, startsWith (backupDir "backups" o.tenant) (pre ++ "/") = true

theorem of_empty_name : b.of "" = [] :=
  List.filter_eq_nil_iff.2 fun o ho h => (b.segments o ho).2 (of_decide_eq_true h)

theorem listObjectsV2_dir (ht : '/' ∉ tid.toList) : b.listObjectsV2 (backupDir pre tid) = (b.of tid).take 1000 := by
  have hf : (b.objects.filter fun o => startsWith (backupDir pre tid) (o.key pre)) = b.of tid := by
    refine List.filter_congr fun o ho => ?_
    rw [Bool.eq_iff_iff, startsWith_dir ht (b.segments o ho).1, decide_eq_true_eq]
  rw [BackupBucket.listObjectsV2, hf]

/-- In a bucket where it looks, the failover lists the backups of the tenant. -/
theorem LooksThere.list (h : LooksThere b) (ht : '/' ∉ tid.toList) :
    b.listObjectsV2 (backupDir "backups" tid) = (b.of tid).take 1000 := by
  rcases h with rfl | h
  · exact listObjectsV2_dir ht
  · have hf : (b.objects.filter fun o => startsWith (backupDir "backups" tid) (o.key pre)) = b.of tid := by
      refine List.filter_congr fun o ho => ?_
      have hown : (backupDir "backups" o.tenant).toList <+: (o.key pre).toList :=
        (startsWith_iff.1 (h o ho)).trans dir_prefix_key
      rw [Bool.eq_iff_iff, decide_eq_true_eq, startsWith_iff]
      constructor
      · intro hk
        rcases List.prefix_or_prefix_of_prefix hk hown with hp | hp
        · exact (backupDir_inj ht (b.segments o ho).1 hp).symm
        · exact backupDir_inj (b.segments o ho).1 ht hp
      · rintro rfl
        exact hown
    rw [BackupBucket.listObjectsV2, hf]

theorem findLatestBackupKey_eq {l : List Backup} (hne : tid ≠ "") (hl : b.listObjectsV2 (backupDir "backups" tid) = l) :
    findLatestBackupKey b tid = (Sorting.firstMax Backup.lastModified l).map (Backup.key pre) := by
  rw [findLatestBackupKey, if_neg (not_or.2 ⟨b.named, hne⟩), ← Sorting.head?_insertionSort_desc, hl]

theorem resolveBackup_stamp {ts : String} (ht : '/' ∉ tid.toList) (hts : ts ≠ "") : resolveBackup b tid (some ts) =
    if ((b.of tid).take 1000).any fun o => o.key pre = s3Key pre tid ts then s3Key pre tid ts else "" := by
  have hsome : (some ts).filter (fun s => s ≠ "") = some ts := by simp [Option.filter, hts]
  rw [resolveBackup, hsome, listObjectsV2_dir ht]

/-- One page is enough, and the failover looks at it. -/
theorem finds_of_page (hlook : LooksThere b) (ht : '/' ∉ tid.toList) (hlen : (b.of tid).length ≤ 1000) :
    FindsBackups b tid := by
  have hpage : (b.of tid).take 1000 = b.of tid := List.take_of_length_le hlen
  have hresolve : resolveBackup b tid none =
      ((Sorting.firstMax Backup.lastModified (b.of tid)).map (Backup.key pre)).getD "" := by
    rw [resolveBackup, listObjectsV2_dir ht, hpage]
    rfl
  have hfind : findLatestBackupKey b tid = (Sorting.firstMax Backup.lastModified (b.of tid)).map (Backup.key pre) := by
    by_cases hne : tid = ""
    · subst hne
      simp [findLatestBackupKey, of_empty_name, Sorting.firstMax]
    · exact findLatestBackupKey_eq hne ((hlook.list ht).trans hpage)
  refine ⟨by rw [hresolve, hfind], fun key hk => ?_, fun hnone => ?_, fun o ho => ?_⟩
  · rw [hfind] at hk
    obtain ⟨o, hmax, rfl⟩ := Option.map_eq_some_iff.1 hk
    obtain ⟨ho, hle⟩ := Sorting.firstMax_spec _ hmax
    exact ⟨o, ho, rfl, hle⟩
  · rw [hfind, Option.map_eq_none_iff, Sorting.firstMax_eq_none] at hnone
    exact hnone
  · obtain ⟨hm, htid⟩ := List.mem_filter.1 ho
    obtain rfl := of_decide_eq_true htid
    rw [resolveBackup_stamp ht (b.stamped o hm), hpage, if_pos]
    · rfl
    · exact List.any_eq_true.2 ⟨o, ho, by simp [Backup.key]⟩

/-- A timestamp that is found is on the first page. -/
theorem page_of_finds (h : FindsBackups b tid) (ht : '/' ∉ tid.toList) : (b.of tid).length ≤ 1000 := by
  by_contra hlong
  obtain ⟨o, hdrop⟩ : ∃ o, o ∈ (b.of tid).drop 1000 := by
    refine List.exists_mem_of_length_pos ?_
    rw [List.length_drop]
    omega
  have ho := List.mem_of_mem_drop hdrop
  obtain ⟨hm, htid⟩ := List.mem_filter.1 ho
  obtain rfl := of_decide_eq_true htid
  have hnodup : ((b.of o.tenant).map (Backup.key pre)).Nodup := by
    refine List.pairwise_map.2 ((b.sorted.filter _).imp ?_)
    intro x y hlt he
    exact lt_irrefl _ (he ▸ hlt)
  have hfound := h.stamped o ho
  rw [resolveBackup_stamp ht (b.stamped o hm)] at hfound
  split at hfound
  · rename_i hany
    obtain ⟨o', hpage, hkey⟩ := List.any_eq_true.1 hany
    have hd := List.disjoint_take_drop hnodup (le_refl 1000)
    rw [← List.map_take, ← List.map_drop] at hd
    refine hd (List.mem_map_of_mem hpage) ?_
    rw [of_decide_eq_true hkey]
    exact List.mem_map_of_mem hdrop
  · have hempty := congrArg String.toList hfound
    rw [key_toList] at hempty
    simp at hempty

/-- A backup that is found is where the failover looks. -/
theorem there_of_finds (h : ∀ tid : TenantId, '/' ∉ tid.toList → FindsBackups b tid) : LooksThere b := by
  by_cases hpre : pre = "backups"
  · exact .inl hpre
  refine .inr fun o ho => ?_
  obtain ⟨hslash, hne⟩ := b.segments o ho
  have hown : o ∈ b.of o.tenant := List.mem_filter.2 ⟨ho, by simp⟩
  cases hk : findLatestBackupKey b o.tenant with
  | none =>
    have hnil := (h o.tenant hslash).nothing hk
    rw [hnil] at hown
    cases hown
  | some key =>
    rw [findLatestBackupKey_eq hne rfl] at hk
    obtain ⟨o', hmax, -⟩ := Option.map_eq_some_iff.1 hk
    have hlisted := List.mem_of_mem_take (Sorting.firstMax_spec _ hmax).1
    exact inside_of_startsWith hpre hslash (List.mem_filter.1 hlisted).2

/-- **Latest backup lookup.** Both lookups are right for every tenant exactly when no tenant has more backups than one
page lists, and the backups are where the failover looks for them. -/
theorem backup_lookup (b : BackupBucket pre) : (∀ tid : TenantId, '/' ∉ tid.toList → FindsBackups b tid) ↔
    (∀ tid, (b.of tid).length ≤ 1000) ∧ LooksThere b := by
  constructor
  · intro h
    refine ⟨fun tid => ?_, there_of_finds h⟩
    by_cases ht : '/' ∈ tid.toList
    · have hnil : b.of tid = [] := by
        refine List.filter_eq_nil_iff.2 fun o ho he => ?_
        exact (b.segments o ho).1 (of_decide_eq_true he ▸ ht)
      simp [hnil]
    · exact page_of_finds (h tid ht) ht
  · intro h tid ht
    exact finds_of_page h.2 ht (h.1 tid)

end Correct

/-- A bucket with `BACKUP_PREFIX` set, and one backup of one tenant. -/
def renamedPrefix : BackupBucket "vm-backups" where
  name := "openclaw-assets"
  objects := [⟨"a-0000", "2025-01-01T00:00:00Z", 0⟩]
  named := by simp
  sorted := List.pairwise_singleton _ _
  segments := by simp
  stamped := by simp

/-- The failover finds no backup, though the tenant has one. -/
theorem lookup_misses_backup : ¬ ∀ (pre : String) (b : BackupBucket pre) (tid : TenantId), '/' ∉ tid.toList →
    FindsBackups b tid := by
  intro hall
  have hnone : findLatestBackupKey renamedPrefix "a-0000" = none := by decide +kernel
  have hnil := (hall _ renamedPrefix "a-0000" (by decide +kernel)).nothing hnone
  revert hnil
  decide +kernel

end OpenClaw
