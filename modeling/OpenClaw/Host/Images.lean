import OpenClaw.Host.Boot
import OpenClaw.Lib.Sequence

/-!
# Refreshing the images of a host

`refresh_rootfs` of the API sends a script to every host that downloads the root file system and the data template of the
manifest. Each image is unpacked into a temporary file that then takes the place of the old one. A command that fails, or
is killed, may leave anything in the file it writes; only a rename is all or nothing.

- `images_whole`: whatever runs of the script were started one after the other, each of them stopped anywhere, both images
  are whole, and after a run that ends well they are those of its manifest.
- `overlapping_refreshes_tear`: two runs at the same time share the temporary files.
-/

namespace OpenClaw

open Atomic Errexit

/-- `manifest.json`. -/
structure ImageManifest where
  rootfs : String
  dataTemplate : String

/-- The key of an image under the prefix. -/
def ImageManifest.key (m : ImageManifest) : AssetImage → String
  | .rootfs => m.rootfs
  | .dataTemplate => m.dataTemplate

/-- What a file holds: a whole object of the bucket, as it is or unpacked, or some bytes. -/
inductive Blob
  | packed (key : String)
  | unpacked (key : String)
  | torn (bytes : ℕ)
deriving DecidableEq

/-- `/data/firecracker-assets`. -/
structure Assets where
  manifest : Option Blob := none
  gz : AssetImage → Option Blob := fun _ => none
  tmp : AssetImage → Option Blob := fun _ => none
  image : AssetImage → Option Blob

inductive AssetCmd
  | copyManifest
  /-- `aws s3 cp` of a packed image. -/
  | copyGz (i : AssetImage) (key : String)
  /-- `pigz -dc gz > tmp`. -/
  | unpack (i : AssetImage)
  /-- `[ -s tmp ]`. -/
  | notEmpty (i : AssetImage)
  /-- `mv tmp image`. -/
  | rename (i : AssetImage)
  | rmGz (i : AssetImage)
  /-- `fallocate --dig-holes`. -/
  | digHoles
deriving DecidableEq

/-- The size is not zero. -/
def Blob.nonempty : Blob → Bool
  | .torn n => n ≠ 0
  | _ => true

def Assets.setGz (w : Assets) (i : AssetImage) (b : Option Blob) : Assets := { w with gz := Function.update w.gz i b }

def Assets.setTmp (w : Assets) (i : AssetImage) (b : Option Blob) : Assets := { w with tmp := Function.update w.tmp i b }

def Assets.setImage (w : Assets) (i : AssetImage) (b : Option Blob) : Assets :=
  { w with image := Function.update w.image i b }

section Frame

variable (w : Assets) (i : AssetImage) (b : Option Blob)

@[simp] theorem Assets.setGz_image : (w.setGz i b).image = w.image := rfl
@[simp] theorem Assets.setGz_tmp : (w.setGz i b).tmp = w.tmp := rfl
@[simp] theorem Assets.setGz_gz : (w.setGz i b).gz = Function.update w.gz i b := rfl
@[simp] theorem Assets.setTmp_image : (w.setTmp i b).image = w.image := rfl
@[simp] theorem Assets.setTmp_tmp : (w.setTmp i b).tmp = Function.update w.tmp i b := rfl
@[simp] theorem Assets.setTmp_gz : (w.setTmp i b).gz = w.gz := rfl
@[simp] theorem Assets.setImage_image : (w.setImage i b).image = Function.update w.image i b := rfl
@[simp] theorem Assets.setImage_tmp : (w.setImage i b).tmp = w.tmp := rfl
@[simp] theorem Assets.setImage_gz : (w.setImage i b).gz = w.gz := rfl

end Frame

/-- What a command of the script does. -/
def assetStep : (c : AssetCmd) → Bool → Assets → Assets → Prop
  | .copyManifest, ok, w, w' => ∃ b, (ok = true → b = some (.packed "manifest.json")) ∧ w' = { w with manifest := b }
  | .copyGz i key, ok, w, w' => ∃ b, (ok = true → b = some (.packed key)) ∧ w' = w.setGz i b
  | .unpack i, ok, w, w' =>
    ∃ b, (ok = true → ∃ key, w.gz i = some (.packed key) ∧ b = some (.unpacked key)) ∧ w' = w.setTmp i b
  | .notEmpty i, ok, w, w' => ok = (w.tmp i).any Blob.nonempty ∧ w' = w
  | .rename i, true, w, w' => ∃ b, w.tmp i = some b ∧ w' = (w.setTmp i none).setImage i (some b)
  | .rename _, false, w, w' => w' = w
  | .rmGz i, ok, w, w' => if ok then w' = w.setGz i none else w' = w
  | .digHoles, _, w, w' => w' = w

def assets : Sem (Cmds AssetCmd) Assets := ⟨assetStep⟩

/-- An image takes the place of the old one. -/
def replaceImage (i : AssetImage) (rest : ShScript AssetCmd) : ShScript AssetCmd :=
  .seq (.run (.unpack i)) (.seq (.run (.notEmpty i)) (.seq (.run (.rename i)) (.seq (.run (.rmGz i)) rest)))

/-- The script of `refresh_rootfs` for a manifest. -/
def refreshScript (m : ImageManifest) : ShScript AssetCmd :=
  .seq (.run .copyManifest) (.seq (.run (.copyGz .rootfs m.rootfs))
    (.seq (.run (.copyGz .dataTemplate m.dataTemplate))
      (replaceImage .rootfs (replaceImage .dataTemplate (.run .digHoles)))))

/-- The commands of one run. -/
def refreshRun (m : ImageManifest) : Prog (Cmds AssetCmd) Ending := (refreshScript m).exec false

section Refresh

variable {m : ImageManifest} {i : AssetImage} {w w' w₀ : Assets} {D : AssetImage → Prop}
  {l : List (Answered (Cmds AssetCmd))}

/-- The image is the one of the manifest. -/
def Assets.upToDate (w : Assets) (m : ImageManifest) (i : AssetImage) : Prop :=
  w.image i = some (.unpacked (m.key i))

/-- Since `w₀` every image is the old one or the one of the manifest, and it is the latter when it is in `D` or one of the
commands `l` has put it in place. -/
structure Replaced (m : ImageManifest) (w₀ : Assets) (D : AssetImage → Prop) (l : List (Answered (Cmds AssetCmd)))
    (w : Assets) : Prop where
  since : ∀ i, w.image i = w₀.image i ∨ w.upToDate m i
  done : ∀ i, D i ∨ ⟨.rename i, true⟩ ∈ l → w.upToDate m i

theorem Replaced.refl (m : ImageManifest) (w : Assets) : Replaced m w (fun _ => False) [] w :=
  ⟨fun _ => .inl rfl, fun i h => by simp at h⟩

/-- A command that touches no image. -/
def AssetCmd.leavesImages : AssetCmd → Bool
  | .rename _ => false
  | _ => true

theorem image_step {c : AssetCmd} {ok : Bool} (hc : c.leavesImages = true) (hs : assetStep c ok w w') :
    w'.image = w.image := by
  cases c
  case copyManifest | copyGz | unpack =>
    obtain ⟨_, -, rfl⟩ := hs
    rfl
  case notEmpty =>
    obtain ⟨-, rfl⟩ := hs
    rfl
  case rename => cases hc
  case rmGz =>
    cases ok <;>
    · obtain rfl : w' = _ := hs
      rfl
  case digHoles =>
    obtain rfl : w' = _ := hs
    rfl

theorem Replaced.same (h : Replaced m w₀ D l w) (hi : w'.image = w.image) : Replaced m w₀ D l w' := by
  refine ⟨fun i => ?_, fun i hd => ?_⟩
  · rw [Assets.upToDate, hi]
    exact h.since i
  · rw [Assets.upToDate, hi]
    exact h.done i hd

/-- The calls that touch no image do not count. -/
theorem Replaced.cons {c : AssetCmd} {ok : Bool} (hc : c.leavesImages = true) (h : Replaced m w₀ D l w) :
    Replaced m w₀ D (⟨c, ok⟩ :: l) w := by
  refine ⟨h.since, fun i hd => h.done i ?_⟩
  rcases hd with hd | hm
  · exact .inl hd
  · rcases List.mem_cons.1 hm with he | hm
    · cases he
      cases hc
    · exact .inr hm

/-- An image that is put in place counts as done from then on. -/
theorem Replaced.renamed (h : Replaced m w₀ (fun j => D j ∨ j = i) l w) : Replaced m w₀ D (⟨.rename i, true⟩ :: l) w := by
  refine ⟨h.since, fun j hd => h.done j ?_⟩
  rcases hd with hd | hm
  · exact .inl (.inl hd)
  · rcases List.mem_cons.1 hm with he | hm
    · cases he
      exact .inl (.inr rfl)
    · exact .inr hm

/-- A mandatory command that touches no image. -/
theorem always_mandatory {c : AssetCmd} {rest : ShScript AssetCmd} (hc : c.leavesImages = true)
    (hw : Replaced m w₀ D [] w) (hok : ∀ w', assetStep c true w w' → Replaced m w₀ D [] w' →
      (rest.exec false).always assets (Replaced m w₀ D) w') :
    ((ShScript.seq (.run c) rest).exec false).always assets (Replaced m w₀ D) w := by
  refine ⟨hw, fun ok w' hs => ?_⟩
  have hw' := hw.same (image_step hc hs)
  cases ok with
  | true => exact Prog.always_mono (fun l w h => h.cons hc) (hok w' hs hw')
  | false => exact hw'.cons hc

/-- The rename of a whole image. -/
theorem always_rename {rest : ShScript AssetCmd} (hw : Replaced m w₀ D [] w)
    (htmp : w.tmp i = some (.unpacked (m.key i)))
    (hok : ∀ w', w'.gz = w.gz → Replaced m w₀ (fun j => D j ∨ j = i) [] w' →
      (rest.exec false).always assets (Replaced m w₀ fun j => D j ∨ j = i) w') :
    ((ShScript.seq (.run (.rename i)) rest).exec false).always assets (Replaced m w₀ D) w := by
  refine ⟨hw, fun ok w' hs => ?_⟩
  cases ok with
  | false =>
    obtain rfl : w' = w := hs
    refine ⟨hw.since, fun j hd => hw.done j ?_⟩
    rcases hd with hd | hm
    · exact .inl hd
    · cases List.mem_singleton.1 hm
  | true =>
    obtain ⟨b, hb, rfl⟩ := hs
    obtain rfl : b = .unpacked (m.key i) := Option.some.inj (hb.symm.trans htmp)
    refine Prog.always_mono (fun l w h => h.renamed) (hok _ rfl ⟨fun j => ?_, fun j hd => ?_⟩)
    · by_cases e : j = i
      · subst e
        exact .inr (by simp [Assets.upToDate])
      · simpa [Assets.upToDate, e] using hw.since j
    · by_cases e : j = i
      · subst e
        simp [Assets.upToDate]
      · have hd : D j ∨ (⟨.rename j, true⟩ : Answered (Cmds AssetCmd)) ∈ [] := by simpa [e] using hd
        simpa [Assets.upToDate, e] using hw.done j hd

/-- One image, of which the whole packed object is at hand. -/
theorem replaceImage_always {rest : ShScript AssetCmd} (hw : Replaced m w₀ D [] w)
    (hgz : w.gz i = some (.packed (m.key i)))
    (hok : ∀ w', (∀ j, j ≠ i → w'.gz j = w.gz j) → Replaced m w₀ (fun j => D j ∨ j = i) [] w' →
      (rest.exec false).always assets (Replaced m w₀ fun j => D j ∨ j = i) w') :
    ((replaceImage i rest).exec false).always assets (Replaced m w₀ D) w := by
  refine always_mandatory rfl hw fun w₁ hs₁ hw₁ => always_mandatory rfl hw₁ fun w₂ hs₂ hw₂ => ?_
  obtain ⟨b, hb, rfl⟩ := hs₁
  obtain ⟨key, hkey, rfl⟩ := hb rfl
  obtain rfl : m.key i = key := by simpa [hgz] using hkey
  obtain ⟨-, rfl⟩ := hs₂
  refine always_rename hw₂ (by simp) fun w₃ hgz₃ hw₃ => always_mandatory rfl hw₃ fun w₄ hs₄ hw₄ => hok w₄ ?_ hw₄
  intro j hj
  obtain rfl : w₄ = _ := hs₄
  simp [hgz₃, hj]

/-- **One run of the script, stopped anywhere.** -/
theorem refreshRun_always (m : ImageManifest) (w : Assets) :
    (refreshRun m).always assets (Replaced m w fun _ => False) w := by
  refine always_mandatory rfl (Replaced.refl m w) fun w₁ _ hw₁ => always_mandatory rfl hw₁ fun w₂ hs₂ hw₂ =>
    always_mandatory rfl hw₂ fun w₃ hs₃ hw₃ => ?_
  obtain ⟨b, hb, rfl⟩ := hs₂
  obtain ⟨b', hb', rfl⟩ := hs₃
  refine replaceImage_always hw₃ (by simp [hb rfl, ImageManifest.key]) fun w₄ hgz hw₄ =>
    replaceImage_always hw₄ ?_ fun w₅ _ hw₅ => ?_
  · rw [hgz _ (by decide)]
    simp [hb' rfl, ImageManifest.key]
  · refine ⟨hw₅, fun ok w₆ hs => ?_⟩
    have hs : assetStep .digHoles ok w₅ w₆ := hs
    exact (hw₅.same (image_step rfl hs)).cons rfl

end Refresh

/-! ## Runs -/

/-- Runs of the script one after the other, each with its manifest and stopped somewhere. -/
inductive Refreshes (w₀ : Assets) : List ImageManifest → Assets → Prop
  | none : Refreshes w₀ [] w₀
  | run {ms : List ImageManifest} {m : ImageManifest} {l : List (Answered (Cmds AssetCmd))} {w w' : Assets} :
      Refreshes w₀ ms w → (refreshRun m).Stops assets w l w' → Refreshes w₀ (ms ++ [m]) w'

/-- **Images are replaced as a whole.** On a host whose images are whole, whatever runs of the script follow one another,
each stopped at any command, every image is whole, namely the first one or that of one of the manifests; and whenever a run
ends well, both are those of its manifest. -/
theorem images_whole {w₀ w : Assets} {ms : List ImageManifest} (h : Refreshes w₀ ms w)
    (h₀ : ∀ i, ∃ key, w₀.image i = some (.unpacked key)) :
    (∀ i, ∃ key, w.image i = some (.unpacked key) ∧
      (w₀.image i = some (.unpacked key) ∨ ∃ m ∈ ms, key = m.key i)) ∧
    ∀ m l w', (refreshRun m).Traces assets w l .ok w' → ∀ i, w'.image i = some (.unpacked (m.key i)) := by
  constructor
  · induction h with
    | none =>
      intro i
      obtain ⟨key, hk⟩ := h₀ i
      exact ⟨key, hk, .inl hk⟩
    | @run ms m l w w' _ hs ih =>
      intro i
      obtain ⟨key, hk, hfrom⟩ := ih i
      have hrun := Prog.always_iff_stops.1 (refreshRun_always m w) _ _ hs
      rcases hrun.since i with he | he
      · refine ⟨key, he.trans hk, hfrom.imp_right ?_⟩
        rintro ⟨m', hm, e⟩
        exact ⟨m', List.mem_append_left _ hm, e⟩
      · exact ⟨m.key i, he, .inr ⟨m, by simp, rfl⟩⟩
  · intro m l w' ht i
    have hrun := Prog.always_iff_stops.1 (refreshRun_always m w) _ _ ht.stops
    have hgoes := goes_of_exec ht.plays rfl
    have hmem : [AssetCmd.rename i] ∈ (refreshScript m).goes := by
      cases i <;> simp [refreshScript, replaceImage, ShScript.goes]
    obtain ⟨c, hc, hm⟩ := hgoes _ hmem
    obtain rfl := List.mem_singleton.1 hc
    exact hrun.done i (.inr hm)

/-- A command that succeeds or fails as `ok` says; a failure leaves a file without a byte. -/
def assetExec (ok : Bool) (w : Assets) : AssetCmd → Option (Bool × Assets)
  | .copyManifest => some (ok, { w with manifest := if ok then some (.packed "manifest.json") else none })
  | .copyGz i key => some (ok, w.setGz i (some (if ok then .packed key else .torn 0)))
  | .unpack i =>
    match ok, w.gz i with
    | true, some (.packed key) => some (true, w.setTmp i (some (.unpacked key)))
    | _, _ => some (false, w.setTmp i (some (.torn 0)))
  | .notEmpty i => some ((w.tmp i).any Blob.nonempty, w)
  | .rename i =>
    match ok, w.tmp i with
    | true, some b => some (true, (w.setTmp i none).setImage i (some b))
    | _, _ => some (false, w)
  | .rmGz i => some (ok, if ok then w.setGz i none else w)
  | .digHoles => some (ok, w)

theorem assetExec_sound {c : AssetCmd} {ok r : Bool} {w w' : Assets} (h : assetExec ok w c = some (r, w')) :
    assets.step c r w w' := by
  cases c
  case copyManifest =>
    obtain ⟨rfl, rfl⟩ := Prod.mk.inj (Option.some.inj h)
    exact ⟨_, fun hok => if_pos hok, rfl⟩
  case copyGz =>
    obtain ⟨rfl, rfl⟩ := Prod.mk.inj (Option.some.inj h)
    exact ⟨_, fun hok => by rw [if_pos hok], rfl⟩
  case unpack i =>
    simp only [assetExec] at h
    split at h
    · rename_i key hkey
      obtain ⟨rfl, rfl⟩ := Prod.mk.inj (Option.some.inj h)
      exact ⟨_, fun _ => ⟨key, hkey, rfl⟩, rfl⟩
    · obtain ⟨rfl, rfl⟩ := Prod.mk.inj (Option.some.inj h)
      exact ⟨some (.torn 0), fun hok => absurd hok (by decide), rfl⟩
  case notEmpty =>
    obtain ⟨rfl, rfl⟩ := Prod.mk.inj (Option.some.inj h)
    exact ⟨rfl, rfl⟩
  case rename i =>
    simp only [assetExec] at h
    split at h
    · rename_i b hb
      obtain ⟨rfl, rfl⟩ := Prod.mk.inj (Option.some.inj h)
      exact ⟨b, hb, rfl⟩
    · obtain ⟨rfl, rfl⟩ := Prod.mk.inj (Option.some.inj h)
      rfl
  case rmGz =>
    obtain ⟨rfl, rfl⟩ := Prod.mk.inj (Option.some.inj h)
    cases ok <;> rfl
  case digHoles =>
    obtain ⟨rfl, rfl⟩ := Prod.mk.inj (Option.some.inj h)
    rfl

def assetOracle : Oracle assets Bool := ⟨fun c ok w => assetExec ok w c, assetExec_sound⟩

/-- The images of a first version. -/
def firstAssets : Assets :=
  { image := fun
      | .rootfs => some (.unpacked "rootfs-1.gz")
      | .dataTemplate => some (.unpacked "data-1.gz") }

def secondImages : ImageManifest := ⟨"rootfs-2.gz", "data-2.gz"⟩

def thirdImages : ImageManifest := ⟨"rootfs-3.gz", "data-3.gz"⟩

/-- A run alone, each command with its outcome. -/
def playRefresh (m : ImageManifest) (oks : List Bool) (w : Assets) :
    Option (List (Answered (Cmds AssetCmd)) × Ending × Assets) :=
  assetOracle.alone (fun _ _ _ => true) (refreshRun m) oks w

theorem playRefresh_sound {m : ImageManifest} {oks : List Bool} {w : Assets}
    {x : List (Answered (Cmds AssetCmd)) × Ending × Assets} (h : playRefresh m oks w = some x) :
    (refreshRun m).Traces assets w x.1 x.2.1 x.2.2 := by
  have ht : (refreshRun m).Traces (assets.restrict fun _ _ _ => True) w x.1 x.2.1 x.2.2 :=
    Oracle.alone_sound (fun _ _ _ _ => trivial) h
  exact ht.of_restrict

/-- The second image cannot be unpacked. -/
def failedRefresh : Option (List (Answered (Cmds AssetCmd)) × Ending × Assets) :=
  playRefresh secondImages (List.replicate 7 true ++ [false]) firstAssets

/-- A failed run has replaced one image; the next one, which ends well, replaces both. -/
theorem images_whole_failed : ∃ w w', Refreshes firstAssets [secondImages] w ∧
    w.image .rootfs = some (.unpacked "rootfs-2.gz") ∧ w.image .dataTemplate = some (.unpacked "data-1.gz") ∧
    Refreshes firstAssets [secondImages, thirdImages] w' ∧ ∀ i, w'.image i = some (.unpacked (thirdImages.key i)) := by
  have hfailed : failedRefresh.any (fun x => x.2.2.image .rootfs = some (.unpacked "rootfs-2.gz") ∧
      x.2.2.image .dataTemplate = some (.unpacked "data-1.gz") ∧
      (playRefresh thirdImages (List.replicate 12 true) x.2.2).any fun y => y.2.1 = .ok) = true := by
    decide
  obtain ⟨x, hx, himg⟩ := (Option.any_eq_true _ _).1 hfailed
  obtain ⟨hroot, hdata, hnext⟩ := of_decide_eq_true himg
  obtain ⟨⟨l, e, w⟩, hy, hok⟩ := (Option.any_eq_true _ _).1 hnext
  obtain rfl : e = .ok := of_decide_eq_true hok
  have hfirst : Refreshes firstAssets [secondImages] x.2.2 := .run .none (playRefresh_sound hx).stops
  have hsecond := playRefresh_sound hy
  have hboth : Refreshes firstAssets [secondImages, thirdImages] w := .run hfirst hsecond.stops
  have h₀ : ∀ i, ∃ key, firstAssets.image i = some (.unpacked key) := fun i => by cases i <;> exact ⟨_, rfl⟩
  exact ⟨_, _, hfirst, hroot, hdata, hboth, fun i => (images_whole hfirst h₀).2 _ _ _ hsecond i⟩

/-- Runs of the script on one host at the same time. -/
def refreshJobs : Jobs (Cmds AssetCmd) Assets ImageManifest Ending := ⟨refreshRun, fun _ w w' => w' = w⟩

/-- The first run has unpacked an image and looked at its size when the second one starts to write the same file. -/
def overlappingMoves : List (Move ImageManifest ℕ Bool) :=
  List.flatten [[.start 0 secondImages, .start 1 secondImages], List.replicate 5 (.call 0 true),
    List.replicate 3 (.call 1 true), [.call 1 false, .call 0 true]]

/-- Two runs at the same time leave an empty image. -/
theorem overlapping_refreshes_tear : ∃ (tr : List (Ev (Cmds AssetCmd) ImageManifest ℕ))
    (c : Conf (Cmds AssetCmd) Assets ImageManifest ℕ Ending),
    Reach assets refreshJobs anyStep (Conf.idle firstAssets) tr c ∧ c.world.image .rootfs = some (.torn 0) := by
  have hplay : ((assetOracle.play refreshJobs (fun _ w => some w) (fun _ _ _ => true) [] (Conf.idle firstAssets)
      overlappingMoves).any fun x => x.2.world.image .rootfs = some (.torn 0)) = true := by
    decide
  obtain ⟨tr, c, hr, hi⟩ := Oracle.exists_reach_of_play (fun _ _ _ h => (Option.some.inj h).symm)
    (fun _ _ _ _ => trivial) hplay
  exact ⟨tr, c, hr, of_decide_eq_true hi⟩

end OpenClaw
