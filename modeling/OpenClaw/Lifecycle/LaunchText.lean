import OpenClaw.Lib.ShellWords
import OpenClaw.Lifecycle.SkillScope

/-!
# The text of the launch command

`_launch_vm` puts the id, the numbers and the names of a tenant into the text of a command, and a shell on the host reads
it. The names come from the request, from the list of backups and from the rows of groups.

- `launchText`: the text, `ReadsLaunch`: what the shell has to make of it.
- `launch_reads`: it does so exactly if all names are plain words.
- `plain_of_label`: names that a validator has accepted are, unless they end with a newline.
- `launch_injected`: what the skills of a group may do.
-/

namespace OpenClaw

open ShellWords

/-! ## The text -/

/-- `_HOME_WRAP`. -/
def homeWrap (cmd : List Char) : List Char := "export HOME=/home/ubuntu && cd /home/ubuntu && ".toList ++ cmd

/-- An argument, with `""` in the place of an empty one. -/
def textArg (s : String) : List Char := if s = "" then "\"\"".toList else s.toList

/-- `skills_arg`. -/
def skillsArg (skills : List String) : List Char := if skills = [] then "\"\"".toList else scopeWord skills

section Text

variable (cfg : Config) (tid : TenantId) (vmNum vcpu memMb : Int) (guestIp : String) (hostPort : Int)
  (template restoreKey : String) (skills : List String)

/-- What comes after the launch: the rule for the tenant's port. -/
def dnatText : List Char :=
  " sudo iptables -t nat -A PREROUTING -i $(ip route show default | awk '\x7bprint $5\x7d' | head -1) -p tcp --dport ".toList ++
    (toString hostPort).toList ++ " -j DNAT --to-destination ".toList ++ guestIp.toList ++ ":".toList ++
    (toString cfg.vmPortBase).toList

/-- The command of `_launch_vm`. -/
def launchText : List Char :=
  "/home/ubuntu/launch-vm.sh ".toList ++ tid.toList ++ " ".toList ++ (toString vmNum).toList ++ " ".toList ++
    (toString vcpu).toList ++ " ".toList ++ (toString memMb).toList ++ " ".toList ++ textArg template ++ " ".toList ++
    textArg restoreKey ++ " ".toList ++ skillsArg skills ++ " &&".toList ++ dnatText cfg guestIp hostPort

/-- The script and its seven arguments. -/
def launchArgs : List (List Char) :=
  ["/home/ubuntu/launch-vm.sh".toList, tid.toList, (toString vmNum).toList, (toString vcpu).toList,
    (toString memMb).toList, template.toList, restoreKey.toList, scopeWord skills]

end Text

/-- The shell runs the script with the arguments, and if that succeeds what comes after. -/
def ReadsLaunch (text : List Char) (args : List (List Char)) (after : List Char) : Prop :=
  ∃ r₁ r₂, Reads text [lits "export".toList, lits "HOME=/home/ubuntu".toList] .and r₁ ∧
    Reads r₁ [lits "cd".toList, lits "/home/ubuntu".toList] .and r₂ ∧ Reads r₂ (args.map lits) .and after

/-- The text is empty or starts with no blank. -/
def Unblank (cs : List Char) : Prop := ∀ c, cs.head? = some c → c ≠ ' ' ∧ c ≠ '\t'

/-! ## Its words -/

section Words

variable {w r after : List Char} {s : String} {ws : List (List Piece)} {sep : Sep} {n : Int}

/-- A word that is not empty. -/
theorem reads_arg (hw : Unblank w) (hne : w ≠ []) :
    Reads (w ++ ' ' :: r) (lits w :: ws) sep after ↔ Plain w ∧ Reads r ws sep after := by
  have hfirst : w.head?.any fun c => c ≠ ' ' && c ≠ '\t' := by
    cases w with
    | nil => exact absurd rfl hne
    | cons c w => simpa using hw c rfl
  constructor
  · intro h
    have hplain := plain_of_reads h hfirst
    obtain ⟨ws', he, hr⟩ := (reads_plain hplain).1 h
    obtain ⟨-, rfl⟩ := List.cons.inj he
    exact ⟨hplain, hr⟩
  · rintro ⟨hplain, hr⟩
    exact (reads_plain hplain).2 ⟨ws, rfl, hr⟩

/-- A word that may be empty. -/
theorem reads_textArg (hs : Unblank s.toList) :
    Reads (textArg s ++ ' ' :: r) (lits s.toList :: ws) sep after ↔ (s = "" ∨ Plain s.toList) ∧ Reads r ws sep after := by
  by_cases he : s = ""
  · subst he
    constructor
    · intro h
      obtain ⟨ws', hws, hr⟩ := reads_empty.1 h
      obtain ⟨-, rfl⟩ := List.cons.inj hws
      exact ⟨.inl rfl, hr⟩
    · rintro ⟨-, hr⟩
      exact reads_empty.2 ⟨ws, rfl, hr⟩
  · have hne : s.toList ≠ [] := by simpa using he
    rw [textArg, if_neg he, reads_arg hs hne, or_iff_right he]

theorem plain_toString (n : Int) : Plain (toString n).toList := by
  have hdigit : ∀ k : ℕ, Plain (toString k).toList ∧ ∀ c ∈ (toString k).toList, plainChar c = true := by
    intro k
    have hall : ∀ c ∈ (toString k).toList, c.isDigit = true := by
      intro c hc
      rw [show toString k = Nat.repr k from rfl, Nat.toList_repr] at hc
      exact Nat.isDigit_of_mem_toDigits (by decide) (by decide) hc
    have hplain : ∀ c : Char, c.isDigit = true → plainChar c = true ∧ c ≠ '~' ∧ c ≠ '#' := by
      intro c hc
      have hne : ∀ d : Char, d.isDigit = false → c ≠ d := by
        rintro d hd rfl
        rw [hd] at hc
        cases hc
      refine ⟨?_, hne _ (by decide), hne _ (by decide)⟩
      simp only [plainChar, ends, active, quote, List.mem_cons, List.not_mem_nil, or_false]
      simp [hne ' ' (by decide), hne '\t' (by decide), hne '\n' (by decide), hne '|' (by decide), hne '&' (by decide),
        hne ';' (by decide), hne '<' (by decide), hne '>' (by decide), hne '(' (by decide), hne ')' (by decide),
        hne '$' (by decide), hne '\u0060' (by decide), hne '*' (by decide), hne '?' (by decide), hne '[' (by decide),
        hne '\'' (by decide), hne '"' (by decide), hne '\\' (by decide)]
    refine ⟨⟨?_, fun c hc => (hplain c (hall c hc)).1⟩, fun c hc => (hplain c (hall c hc)).1⟩
    have hne : (toString k).toList ≠ [] := by
      rw [show toString k = Nat.repr k from rfl, Nat.toList_repr]
      exact Nat.toDigits_ne_nil
    obtain ⟨c, cs, hcs⟩ := List.exists_cons_of_ne_nil hne
    exact ⟨c, by rw [hcs]; rfl, (hplain c (hall c (by rw [hcs]; exact List.mem_cons_self))).2⟩
  cases n with
  | ofNat k => exact (hdigit k).1
  | negSucc k =>
    have htext : (toString (Int.negSucc k)).toList = '-' :: (toString (k + 1)).toList := by
      rw [show toString (Int.negSucc k) = "-" ++ toString (k + 1) from rfl, String.toList_append]
      rfl
    rw [htext]
    exact ⟨⟨'-', rfl, by decide, by decide⟩, List.forall_mem_cons.2 ⟨by decide, (hdigit (k + 1)).2⟩⟩

end Words

/-! ## The launch -/

section Launch

variable {cfg : Config} {tid : TenantId} {vmNum vcpu memMb : Int} {guestIp : String} {hostPort : Int}
  {template restoreKey : String} {skills : List String} {r after : List Char} {ws : List (List Piece)} {sep : Sep}

/-- The commands before it. -/
theorem readsLaunch_homeWrap {cmd : List Char} {args : List (List Char)} :
    ReadsLaunch (homeWrap cmd) args after ↔ Reads cmd (args.map lits) .and after := by
  have hexport : ∀ t, Reads ("export".toList ++ ' ' :: ("HOME=/home/ubuntu".toList ++ ' ' :: '&' :: '&' :: t))
      [lits "export".toList, lits "HOME=/home/ubuntu".toList] .and t := fun t =>
    (reads_plain (by decide +kernel)).2 ⟨_, rfl, (reads_plain (by decide +kernel)).2 ⟨_, rfl, reads_and.2 ⟨rfl, rfl, rfl⟩⟩⟩
  have hcd : ∀ t, Reads (' ' :: ("cd".toList ++ ' ' :: ("/home/ubuntu".toList ++ ' ' :: '&' :: '&' :: t)))
      [lits "cd".toList, lits "/home/ubuntu".toList] .and t := fun t =>
    (reads_blank (.inl rfl)).2
      ((reads_plain (by decide +kernel)).2
        ⟨_, rfl, (reads_plain (by decide +kernel)).2 ⟨_, rfl, reads_and.2 ⟨rfl, rfl, rfl⟩⟩⟩)
  have hwrap : ∀ t, homeWrap t = "export".toList ++ ' ' :: ("HOME=/home/ubuntu".toList ++ ' ' :: '&' :: '&' ::
      (' ' :: ("cd".toList ++ ' ' :: ("/home/ubuntu".toList ++ ' ' :: '&' :: '&' :: ' ' :: t)))) := by
    intro t
    have hleading : "export HOME=/home/ubuntu && cd /home/ubuntu && ".toList = "export".toList ++ ' ' ::
        ("HOME=/home/ubuntu".toList ++ ' ' :: '&' :: '&' :: (' ' :: ("cd".toList ++ ' ' ::
          ("/home/ubuntu".toList ++ [' ', '&', '&', ' '])))) := by
      decide +kernel
    unfold homeWrap
    rw [hleading]
    generalize "export".toList = a, "HOME=/home/ubuntu".toList = b, "cd".toList = c, "/home/ubuntu".toList = d
    simp only [List.append_assoc, List.cons_append, List.nil_append]
  rw [hwrap]
  constructor
  · rintro ⟨r₁, r₂, h₁, h₂, h₃⟩
    obtain ⟨-, -, rfl⟩ := (hexport _).unique h₁
    obtain ⟨-, -, rfl⟩ := (hcd _).unique h₂
    exact (reads_blank (.inl rfl)).1 h₃
  · intro h
    exact ⟨_, _, hexport _, hcd _, (reads_blank (.inl rfl)).2 h⟩

/-- What comes after the launch takes no quote from the skills. -/
theorem dnat_quiet : NoQuote (' ' :: '&' :: '&' :: dnatText cfg guestIp hostPort) := by
  have hleading : " sudo iptables -t nat -A PREROUTING -i $(ip route show default | awk '\x7bprint $5\x7d' | head -1) -p tcp --dport ".toList =
      " sudo iptables -t nat -A PREROUTING -i $(ip route show default | awk ".toList ++
        '\'' :: ("\x7bprint".toList ++ ' ' :: "$5\x7d' | head -1) -p tcp --dport ".toList) := by
    decide +kernel
  unfold dnatText
  rw [hleading]
  simp only [List.append_assoc, List.cons_append]
  have hquotes : ∀ c ∈ '&' :: " sudo iptables -t nat -A PREROUTING -i $(ip route show default | awk ".toList,
      quote c = false := by
    have hall : ('&' :: " sudo iptables -t nat -A PREROUTING -i $(ip route show default | awk ".toList).all
        (fun c => !quote c) = true := by
      decide +kernel
    intro c hc
    simpa using List.all_eq_true.1 hall c hc
  have hprint : ∀ c ∈ "\x7bprint".toList, plainChar c = true := List.all_eq_true.1 (by decide +kernel)
  exact quiet_of_single (by decide) hquotes (by decide +kernel) hprint (by decide)

/-- The seventh argument. -/
theorem reads_skillsArg : Reads (skillsArg skills ++ ' ' :: '&' :: '&' :: dnatText cfg guestIp hostPort)
    (lits (scopeWord skills) :: ws) sep after ↔
    (skills = [] ∨ Plain (scopeWord skills)) ∧ ws = [] ∧ sep = .and ∧ after = dnatText cfg guestIp hostPort := by
  by_cases he : skills = []
  · subst he
    constructor
    · intro h
      obtain ⟨ws', hws, hr⟩ := reads_empty.1 h
      obtain ⟨-, rfl⟩ := List.cons.inj hws
      exact ⟨.inl rfl, reads_and.1 hr⟩
    · rintro ⟨-, hr⟩
      exact reads_empty.2 ⟨ws, rfl, reads_and.2 hr⟩
  · rw [skillsArg, if_neg he, or_iff_right he]
    constructor
    · intro h
      have hplain := plain_of_reads_last dnat_quiet h
      obtain ⟨ws', hws, hr⟩ := (reads_plain hplain).1 h
      obtain ⟨-, rfl⟩ := List.cons.inj hws
      exact ⟨hplain, reads_and.1 hr⟩
    · rintro ⟨hplain, hr⟩
      exact (reads_plain hplain).2 ⟨ws, rfl, reads_and.2 hr⟩

/-- **The launch command says what it is meant to say exactly if its names are plain.** The host's shell reads the text of
`_launch_vm` as the script with the seven arguments, followed by the rule for the port, if and only if the id is a plain
word, and the template, the key and the skills with commas between them are plain words or empty. -/
theorem launch_reads (hne : tid ≠ "") (htid : Unblank tid.toList) (htpl : Unblank template.toList)
    (hkey : Unblank restoreKey.toList) :
    ReadsLaunch (homeWrap (launchText cfg tid vmNum vcpu memMb guestIp hostPort template restoreKey skills))
        (launchArgs tid vmNum vcpu memMb template restoreKey skills) (dnatText cfg guestIp hostPort) ↔
      Plain tid.toList ∧ (template = "" ∨ Plain template.toList) ∧ (restoreKey = "" ∨ Plain restoreKey.toList) ∧
        (skills = [] ∨ Plain (scopeWord skills)) := by
  have hnum : ∀ (n : Int) {r ws}, Reads ((toString n).toList ++ ' ' :: r) (lits (toString n).toList :: ws) Sep.and
      (dnatText cfg guestIp hostPort) ↔ Reads r ws .and (dnatText cfg guestIp hostPort) := by
    intro n r ws
    rw [reads_plain (plain_toString n)]
    simp
  have htext : launchText cfg tid vmNum vcpu memMb guestIp hostPort template restoreKey skills =
      "/home/ubuntu/launch-vm.sh".toList ++ ' ' :: (tid.toList ++ ' ' :: ((toString vmNum).toList ++ ' ' ::
        ((toString vcpu).toList ++ ' ' :: ((toString memMb).toList ++ ' ' :: (textArg template ++ ' ' ::
          (textArg restoreKey ++ ' ' :: (skillsArg skills ++ ' ' :: '&' :: '&' :: dnatText cfg guestIp hostPort))))))) := by
    have hscript : "/home/ubuntu/launch-vm.sh ".toList = "/home/ubuntu/launch-vm.sh".toList ++ [' '] := by decide +kernel
    unfold launchText
    rw [hscript, show " ".toList = [' '] by decide, show " &&".toList = [' ', '&', '&'] by decide]
    simp only [List.append_assoc, List.cons_append, List.nil_append]
  have hid : tid.toList ≠ [] := by simpa using hne
  have hscript : Plain "/home/ubuntu/launch-vm.sh".toList := by decide +kernel
  rw [readsLaunch_homeWrap, htext, launchArgs]
  simp only [List.map_cons, List.map_nil]
  have hscript' : Unblank "/home/ubuntu/launch-vm.sh".toList := by
    intro c hc
    obtain rfl := Option.some.inj (hc.symm.trans (show _ = some '/' by decide +kernel))
    decide
  rw [reads_arg hscript' (by decide +kernel), reads_arg htid hid, hnum, hnum, hnum, reads_textArg htpl, reads_textArg hkey,
    reads_skillsArg]
  simp only [hscript, true_and, and_true]

end Launch

/-! ## Names of requests -/

section Names

variable {mid : ℕ} {cs : List Char} {name hex : String} {names : List String}

theorem plainChar_of_label {c : Char} (h : labelChar c = true) : plainChar c = true ∧ c ≠ '~' ∧ c ≠ '#' := by
  have hne : ∀ d : Char, labelChar d = false → c ≠ d := by
    rintro d hd rfl
    rw [hd] at h
    cases h
  refine ⟨?_, hne _ (by decide), hne _ (by decide)⟩
  by_contra hc
  simp only [plainChar, ends, active, quote, Bool.and_eq_true, Bool.not_eq_true', not_and, Bool.not_eq_false,
    List.mem_cons, List.not_mem_nil, or_false, decide_eq_true_eq, decide_eq_false_iff_not, Bool.or_eq_true] at hc
  by_cases he : c = ' ' ∨ c = '\t' ∨ c = '\n' ∨ c = '|' ∨ c = '&' ∨ c = ';' ∨ c = '<' ∨ c = '>' ∨ c = '(' ∨ c = ')'
  · rcases he with rfl | rfl | rfl | rfl | rfl | rfl | rfl | rfl | rfl | rfl <;> exact absurd h (by decide)
  · by_cases ha : c = '$' ∨ c = '\u0060' ∨ c = '*' ∨ c = '?' ∨ c = '['
    · rcases ha with rfl | rfl | rfl | rfl | rfl <;> exact absurd h (by decide)
    · rcases hc ⟨he, ha⟩ with (rfl | rfl) | rfl <;> exact absurd h (by decide)

theorem plain_of_labels (hne : cs ≠ []) (h : ∀ c ∈ cs, labelChar c = true) : Plain cs := by
  obtain ⟨c, cs', rfl⟩ := List.exists_cons_of_ne_nil hne
  exact ⟨⟨c, rfl, (plainChar_of_label (h c List.mem_cons_self)).2⟩, fun d hd => (plainChar_of_label (h d hd)).1⟩

/-- **What a validator accepts is a plain word unless a newline ends it.** -/
theorem plain_of_label (h : labelRe mid cs = true) : Plain cs ↔ cs.getLast? ≠ some '\n' := by
  constructor
  · intro hp hn
    exact absurd (hp.2 _ (List.mem_of_getLast? hn)) (by decide)
  · intro hn
    obtain ⟨hne, hall⟩ := labelRe_chars h hn
    exact plain_of_labels hne hall

/-- So is the id that is made of it. -/
theorem plain_genId (hname : nameRe name = true) (hhex : ∀ c ∈ hex.toList, labelChar c = true) :
    Plain (name ++ "-" ++ hex).toList ↔ name.toList.getLast? ≠ some '\n' := by
  rw [String.toList_append, String.toList_append]
  constructor
  · intro hp hn
    exact absurd (hp.2 _ (List.mem_append_left _ (List.mem_append_left _ (List.mem_of_getLast? hn)))) (by decide)
  · intro hn
    obtain ⟨hne, hall⟩ := labelRe_chars hname hn
    refine plain_of_labels (by simp) fun c hc => ?_
    rcases List.mem_append.1 hc with hc | hc
    · rcases List.mem_append.1 hc with hc | hc
      · exact hall c hc
      · obtain rfl := List.mem_singleton.1 hc
        decide
    · exact hhex c hc

/-- Plain skills with commas between them; `launch-vm.sh` finds them again. -/
theorem plain_skills (hne : names ≠ []) (hp : ∀ s ∈ names, plainName s = true) :
    Plain (scopeWord names) ∧ scopePieces (scopeWord names) = names := by
  have hpieces := scopePieces_plain hne hp
  have hword : scopeWord names ≠ [] := by
    intro he
    rw [he] at hpieces
    exact hne (by rw [← hpieces]; decide)
  have hchar : ∀ c ∈ scopeWord names, plainChar c = true ∧ c ≠ '~' ∧ c ≠ '#' := by
    intro c hc
    rcases scopeWord_plain hp c hc with rfl | hl
    · decide
    · exact plainChar_of_label hl
  obtain ⟨c, cs, hcs⟩ := List.exists_cons_of_ne_nil hword
  exact ⟨⟨⟨c, by rw [hcs]; rfl, (hchar c (by rw [hcs]; exact List.mem_cons_self)).2⟩, fun d hd => (hchar d hd).1⟩, hpieces⟩

end Names

/-! ## Three launches -/

/-- A launch with two skills. -/
theorem launch_reads_skills : ReadsLaunch (homeWrap (launchText {} "a-0000" 1 2 1024 "172.16.1.2" 8001 "" "" ["a", "b"]))
    (launchArgs "a-0000" 1 2 1024 "" "" ["a", "b"]) (dnatText {} "172.16.1.2" 8001) := by
  have hunblank : Unblank "a-0000".toList := by
    intro c hc
    obtain rfl := Option.some.inj (hc.symm.trans (show _ = some 'a' by decide +kernel))
    decide
  have hnone : Unblank "".toList := by
    intro c hc
    cases hc
  have hskills : Plain (scopeWord ["a", "b"]) := (plain_skills (by decide) (by decide +kernel)).1
  exact (launch_reads (by decide) hunblank hnone hnone).2 ⟨by decide +kernel, .inl rfl, .inl rfl, .inr hskills⟩

/-- **The skills of a group may be commands.** -/
theorem launch_injected : ∃ ws rest,
    Reads (launchText {} "a-0000" 1 2 1024 "172.16.1.2" 8001 "" "" ["x;reboot"]) ws .semi rest ∧
      Reads rest [lits "reboot".toList] .and (dnatText {} "172.16.1.2" 8001) := by
  have hrun : (simple 20 (launchText {} "a-0000" 1 2 1024 "172.16.1.2" 8001 "" "" ["x;reboot"])).any
      (fun x => x.2 = (.semi, "reboot &&".toList ++ dnatText {} "172.16.1.2" 8001)) = true := by
    decide +kernel
  obtain ⟨⟨ws, sep, rest⟩, hx, he⟩ := (Option.any_eq_true _ _).1 hrun
  obtain ⟨rfl, rfl⟩ := Prod.mk.inj (of_decide_eq_true he)
  exact ⟨ws, _, ⟨20, hx⟩, 4, by decide +kernel⟩

/-- **A newline at the end of a name splits the command.** -/
theorem launch_split : nameRe "a\n" = true ∧ ∃ rest,
    Reads (launchText {} "a\n-0000" 1 2 1024 "172.16.1.2" 8001 "" "" [])
      [lits "/home/ubuntu/launch-vm.sh".toList, lits "a".toList] .newline rest := by
  have hrun : (simple 4 (launchText {} "a\n-0000" 1 2 1024 "172.16.1.2" 8001 "" "" [])).any (fun x =>
      (x.1, x.2.1) = ([lits "/home/ubuntu/launch-vm.sh".toList, lits "a".toList], .newline)) = true := by
    decide +kernel
  obtain ⟨⟨ws, sep, rest⟩, hx, he⟩ := (Option.any_eq_true _ _).1 hrun
  obtain ⟨rfl, rfl⟩ := Prod.mk.inj (of_decide_eq_true he)
  exact ⟨by decide +kernel, rest, 4, hx⟩

end OpenClaw
