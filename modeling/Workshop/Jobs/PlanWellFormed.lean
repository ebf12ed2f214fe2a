import Workshop.Jobs.PlanLoader
import Workshop.Lib.Except

/-!
# The plans that are accepted

The operator, the rate limiter and the spawner rely on facts about a plan, some of them in
assertions: it has either a program or the flag `translate`, `allow_spawn` comes with
`control_channel`, each rate limit is defined, and so on (`Plan.WellFormed`).

`PlanLoader` checks some of them at the line that sets the option, against what was seen so far, and
some at the end of the file.  All hold for every plan that it accepts, apart from two: a
`control_channel` line after `allow_spawn` can switch the channel off again, and the numbers of a
rate limit are not checked at all (`loadPlanFile_wellFormed_iff`).
-/

namespace Workshop.Jobs

open Workshop.Lib

/-! ## Well-formed plans -/

/-- `RateLimit::IsDefined`. -/
def RateLimit.isDefined (r : RateLimit) : Bool := decide (0 < r.duration)

/-- What the users of a plan rely on. -/
structure Plan.WellFormed (plan : Plan) : Prop where
  type : (plan.translate = true ∧ plan.args = []) ∨
    plan.translate = false ∧ ∃ program args, plan.args = program :: args ∧ program ≠ ""
  allowSpawn : plan.allowSpawn = true → plan.controlChannel = true ∧ plan.translate = false
  rateLimits : ∀ r ∈ plan.rateLimits, r.isDefined = true ∧ 1 ≤ r.maxCount
  umask : plan.umask = -1 ∨ 0 ≤ plan.umask ∧ plan.umask ≤ 0o777
  uid : plan.uid ≠ 0
  gid : plan.gid ≠ 0

/-- The last line with an option. -/
def lastLine (word : String) (lines : List Line) : Option Line :=
  (lines.filter fun line => line.word = word).getLast?

lemma lastLine_append (word : String) (lines : List Line) (line : Line) :
    lastLine word (lines ++ [line]) =
      if line.word = word then some line else lastLine word lines := by
  rw [lastLine, List.filter_append]
  by_cases hword : line.word = word
  · simp [hword]
  · simp [hword, lastLine]

/-- The last `control_channel` line switches the channel on. -/
def SwitchedOn (env : PlanEnv) (lines : List Line) : Prop :=
  ∃ line, lastLine "control_channel" lines = some line ∧
    (line.values = [] ∨ ∃ value, line.values = [value] ∧ env.nextBool value = .ok true)

/-- The numbers of a `rate_limit` line are positive, the first one also as a number of 32 bits. -/
def PositiveRate (env : PlanEnv) (line : Line) : Prop :=
  line.word = "rate_limit" → ∀ value n rest text duration, line.values = [value] →
    strtoul 10 (stripLeft value.toList) = some (n, rest) → stripLeft rest = '/' :: text →
    env.parseIntervalS (String.ofList (stripLeft text)) = .ok duration →
    0 < duration ∧ n % 2 ^ 32 ≠ 0

/-- The groups of the user of a `user` line. -/
def PlanEnv.userGroups (env : PlanEnv) (line : Line) : List ℕ :=
  match line.values with
  | [value] =>
    match env.getpwnam value with
    | some (_, gid) => (env.getgrouplist value gid).getD []
    | none => []
  | _ => []

/-- The groups of the last user. -/
def PlanEnv.lastGroups (env : PlanEnv) (lines : List Line) : List ℕ :=
  match lastLine "user" lines with
  | some line => env.userGroups line
  | none => []

/-! ## One line -/

/-- What these facts are about. -/
def Plan.checked (plan : Plan) :
    List String × Bool × Bool × Bool × List RateLimit × ℤ × ℕ × ℕ × List ℕ :=
  (plan.args, plan.translate, plan.controlChannel, plan.allowSpawn, plan.rateLimits, plan.umask,
    plan.uid, plan.gid, plan.groups)

/-- The options that change something of this. -/
def checkedOptions : List String :=
  ["exec", "translate", "control_channel", "allow_spawn", "user", "umask", "rate_limit"]

/-- **What a line can do to a plan.** -/
inductive Effect (env : PlanEnv) (plan : Plan) (line : Line) : Plan → Prop
  | exec {program : String} {args : List String} (hword : line.word = "exec")
      (hvalues : line.values = program :: args) (hprogram : program ≠ "") :
      Effect env plan line { plan with args := line.values }
  | translate (hword : line.word = "translate") :
      Effect env plan line { plan with translate := true }
  | controlChannel {enabled : Bool} (hword : line.word = "control_channel")
      (hvalue : line.values = [] ∧ enabled = true ∨
        ∃ value, line.values = [value] ∧ env.nextBool value = .ok enabled) :
      Effect env plan line { plan with controlChannel := enabled }
  | allowSpawn (hword : line.word = "allow_spawn") :
      Effect env plan line { plan with allowSpawn := true }
  | user {uid gid : ℕ} (hword : line.word = "user") (huid : uid ≠ 0) (hgid : gid ≠ 0) :
      Effect env plan line { plan with uid, gid, groups := env.userGroups line }
  | umask {value : ℕ} (hword : line.word = "umask") (hvalue : value ≤ 0o777) :
      Effect env plan line { plan with umask := value }
  | rateLimit {value : String} {r : RateLimit} (hword : line.word = "rate_limit")
      (hvalues : line.values = [value]) (hr : env.parseRateLimit value = .ok r) :
      Effect env plan line { plan with rateLimits := plan.rateLimits ++ [r] }
  | other {plan' : Plan} (hword : line.word ∉ checkedOptions)
      (hsame : plan'.checked = plan.checked) :
      Effect env plan line plan'

section Options

variable (env : PlanEnv) (plan : Plan) {line : Line}

lemma expectValueAndEnd_spec (values : List String) :
    Ensures (env.expectValueAndEnd values) fun value => values = [value] := by
  unfold PlanEnv.expectValueAndEnd
  split
  · exact .pure rfl
  · exact .throw

lemma expectEnd_spec (values : List String) :
    Ensures (env.expectEnd values) fun _ => values = [] := by
  unfold PlanEnv.expectEnd
  split
  · exact .pure rfl
  · exact .throw

lemma parseExec_effect (hword : line.word = "exec") :
    Ensures (PlanEnv.parseExec plan line.values) (Effect env plan line) := by
  unfold PlanEnv.parseExec
  refine .guard fun _ => ?_
  split
  · exact .throw
  · rename_i value rest hvalues
    refine .guard fun hempty => .pure ?_
    exact .exec hword hvalues hempty

lemma parseControlChannel_effect (hword : line.word = "control_channel") :
    Ensures (env.parseControlChannel plan line.values) (Effect env plan line) := by
  cases hvalues : line.values with
  | nil => exact .pure (.controlChannel hword (.inl ⟨hvalues, rfl⟩))
  | cons value rest =>
      refine (Ensures.self (env.nextBool value)).bind fun enabled henabled => ?_
      refine (expectEnd_spec env rest).bind fun _ hend => ?_
      subst hend
      exact .pure (.controlChannel hword (.inr ⟨value, hvalues, henabled⟩))

lemma parseAllowSpawn_effect (hword : line.word = "allow_spawn") :
    Ensures (env.parseAllowSpawn plan line.values) (Effect env plan line) := by
  unfold PlanEnv.parseAllowSpawn
  exact .guard fun _ => .bind_any fun _ => .pure (.allowSpawn hword)

lemma parseUser_effect (hword : line.word = "user") :
    Ensures (env.parseUser plan line.values) (Effect env plan line) := by
  refine (expectValueAndEnd_spec env line.values).bind fun value hvalues => ?_
  split
  · exact .throw
  · rename_i uid gid hpw
    refine .guard fun huid => .guard fun hgid => ?_
    split
    · exact .throw
    · rename_i groups hgroups
      have huser : env.userGroups line = groups := by
        simp only [PlanEnv.userGroups, hvalues, hpw, hgroups, Option.getD_some]
      exact huser ▸ .pure (.user hword huid hgid)

lemma parseUmask_effect (hword : line.word = "umask") :
    Ensures (env.parseUmask plan line.values) (Effect env plan line) := by
  refine .bind_any fun value => .guard fun _ => ?_
  split
  · exact .guard fun hvalue => .pure (.umask hword (Nat.not_lt.mp hvalue))
  · exact .throw

lemma parseRateLimitOption_effect (hword : line.word = "rate_limit") :
    Ensures (env.parseRateLimitOption plan line.values) (Effect env plan line) := by
  refine (expectValueAndEnd_spec env line.values).bind fun value hvalues => ?_
  exact (Ensures.self (env.parseRateLimit value)).bind fun r hr =>
    .pure (.rateLimit hword hvalues hr)

lemma Effect.ensures_other {x : Except String Plan} {word : String} (hword : line.word = word)
    (hother : word ∉ checkedOptions) (h : Ensures x fun plan' => plan'.checked = plan.checked) :
    Ensures x (Effect env plan line) :=
  fun plan' hplan => .other (hword ▸ hother) (h plan' hplan)

lemma parseConcurrency_checked (values : List String) :
    Ensures (env.parseConcurrency plan values) fun plan' => plan'.checked = plan.checked := by
  rcases values with _ | ⟨value, values⟩
  · exact .throw
  · exact .bind_any fun _ => .bind_any fun _ => .pure rfl

/-- **What an option can do to a plan.** -/
theorem parseOption_effect (line : Line) :
    Ensures (env.parseOption plan line) (Effect env plan line) := by
  unfold PlanEnv.parseOption
  split <;> rename_i hword
  · exact parseExec_effect env plan hword
  · exact .pure (.translate hword)
  · exact .ensures_other env plan hword (by decide) (.pure rfl)
  · exact parseControlChannel_effect env plan hword
  · exact parseAllowSpawn_effect env plan hword
  · exact .ensures_other env plan hword (by decide)
      (.bind_any fun _ => .bind_any fun _ => .pure rfl)
  · exact .ensures_other env plan hword (by decide)
      (.bind_any fun _ => .bind_any fun _ => .guard fun _ => .pure rfl)
  · exact .ensures_other env plan hword (by decide)
      (.bind_any fun _ => .bind_any fun _ => .guard fun _ => .pure rfl)
  · exact parseUser_effect env plan hword
  · exact parseUmask_effect env plan hword
  · exact .ensures_other env plan hword (by decide) (.bind_any fun _ => .pure rfl)
  · exact .ensures_other env plan hword (by decide) (.bind_any fun _ => .pure rfl)
  · exact .ensures_other env plan hword (by decide) (.bind_any fun _ => .pure rfl)
  · exact .ensures_other env plan hword (by decide) (.bind_any fun _ => .pure rfl)
  · exact .ensures_other env plan hword (by decide) (.bind_any fun _ => .pure rfl)
  · exact .ensures_other env plan hword (by decide) (.bind_any fun _ => .pure rfl)
  · exact .ensures_other env plan hword (by decide)
      (.bind_any fun _ => .guard fun _ => .pure rfl)
  · exact .ensures_other env plan hword (by decide) (parseConcurrency_checked env plan _)
  · exact parseRateLimitOption_effect env plan hword
  · exact .throw

end Options

lemma positiveRate_iff {env : PlanEnv} {line : Line} {value : String} {r : RateLimit}
    (hword : line.word = "rate_limit") (hvalues : line.values = [value])
    (hr : env.parseRateLimit value = .ok r) :
    PositiveRate env line ↔ r.isDefined = true ∧ 1 ≤ r.maxCount := by
  unfold PlanEnv.parseRateLimit at hr
  split at hr
  · cases hr
  · rename_i n rest hnumber
    split at hr
    · rename_i text hrest
      obtain ⟨duration, hduration, hr⟩ := bind_eq_ok_iff.mp hr
      obtain rfl := Except.ok.inj hr
      rw [RateLimit.isDefined, decide_eq_true_iff, Nat.one_le_iff_ne_zero]
      constructor
      · exact fun h => h hword value n rest text duration hvalues hnumber hrest hduration
      · rintro hpos - value' n' rest' text' duration' hvalues' hnumber' hrest' hduration'
        obtain rfl : value = value' := by simpa using hvalues.symm.trans hvalues'
        obtain ⟨rfl, rfl⟩ := Prod.mk.inj (Option.some.inj (hnumber.symm.trans hnumber'))
        obtain rfl := (List.cons.inj (hrest.symm.trans hrest')).2
        obtain rfl := Except.ok.inj (hduration.symm.trans hduration')
        exact hpos
    · cases hr

/-! ## All lines -/

/-- What holds after every line. -/
structure Checked (loader : PlanLoader) : Prop where
  seen : loader.plan.args ≠ [] → loader.seenExecOption = true
  program : ∀ program ∈ loader.plan.args.head?, program ≠ ""
  umask : loader.plan.umask = -1 ∨ 0 ≤ loader.plan.umask ∧ loader.plan.umask ≤ 0o777
  uid : loader.plan.uid ≠ 0
  gid : loader.plan.gid ≠ 0

/-- What depends on the lines so far. -/
structure FollowsLines (env : PlanEnv) (lines : List Line) (plan : Plan) : Prop where
  controlChannel : plan.controlChannel = true ↔ SwitchedOn env lines
  allowSpawn : plan.allowSpawn = true ↔ ∃ line ∈ lines, line.word = "allow_spawn"
  rateLimits : (∀ r ∈ plan.rateLimits, r.isDefined = true ∧ 1 ≤ r.maxCount) ↔
    ∀ line ∈ lines, PositiveRate env line
  groups : plan.groups = env.lastGroups lines

lemma checked_empty : Checked {} where
  seen h := absurd rfl h
  program := by simp
  umask := .inl rfl
  uid := by decide
  gid := by decide

lemma followsLines_nil (env : PlanEnv) : FollowsLines env [] {} where
  controlChannel := iff_of_false Bool.false_ne_true fun ⟨_, h, _⟩ => nomatch h
  allowSpawn := by simp
  rateLimits := by simp
  groups := rfl

section Step

variable {env : PlanEnv} {lines : List Line} {loader : PlanLoader} {line : Line} {plan plan' : Plan}

/-- The program stays, and what was seen. -/
lemma Checked.seenMore (h : Checked loader) (hargs : plan.args = loader.plan.args) (seen : Bool) :
    plan.args ≠ [] → (loader.seenExecOption || seen) = true := by
  intro hne
  rw [h.seen (hargs ▸ hne), Bool.true_or]

lemma Checked.effect (h : Checked loader) (heffect : Effect env loader.plan line plan) :
    Checked ⟨plan, loader.seenExecOption || PlanEnv.isExecOption line.word⟩ := by
  cases heffect with
  | exec hword hvalues hprogram =>
      refine ⟨fun _ => ?_, ?_, h.umask, h.uid, h.gid⟩
      · rw [hword]
        exact Bool.or_true _
      · rw [hvalues]
        rintro _ ⟨⟩
        exact hprogram
  | translate _ => exact ⟨h.seenMore rfl _, h.program, h.umask, h.uid, h.gid⟩
  | controlChannel _ _ => exact ⟨h.seenMore rfl _, h.program, h.umask, h.uid, h.gid⟩
  | allowSpawn _ => exact ⟨h.seenMore rfl _, h.program, h.umask, h.uid, h.gid⟩
  | user _ huid hgid => exact ⟨h.seenMore rfl _, h.program, h.umask, huid, hgid⟩
  | umask _ hvalue =>
      exact ⟨h.seenMore rfl _, h.program, .inr ⟨Int.natCast_nonneg _, Int.ofNat_le.mpr hvalue⟩,
        h.uid, h.gid⟩
  | rateLimit _ _ _ => exact ⟨h.seenMore rfl _, h.program, h.umask, h.uid, h.gid⟩
  | other _ hsame =>
      simp only [Plan.checked, Prod.mk.injEq] at hsame
      obtain ⟨hargs, -, -, -, -, humask, huid, hgid, -⟩ := hsame
      refine ⟨h.seenMore hargs _, ?_, ?_, ?_, ?_⟩
      · rw [hargs]
        exact h.program
      · rw [humask]
        exact h.umask
      · rw [huid]
        exact h.uid
      · rw [hgid]
        exact h.gid

lemma switchedOn_append (hword : line.word ≠ "control_channel") :
    SwitchedOn env (lines ++ [line]) ↔ SwitchedOn env lines := by
  rw [SwitchedOn, SwitchedOn, lastLine_append, if_neg hword]

/-- The last `control_channel` line counts. -/
lemma switchedOn_append_self (hword : line.word = "control_channel") {enabled : Bool}
    (hvalue : line.values = [] ∧ enabled = true ∨
      ∃ value, line.values = [value] ∧ env.nextBool value = .ok enabled) :
    SwitchedOn env (lines ++ [line]) ↔ enabled = true := by
  rw [SwitchedOn, lastLine_append, if_pos hword]
  rcases hvalue with ⟨hvalues, rfl⟩ | ⟨value, hvalues, hvalue⟩
  · exact iff_of_true ⟨line, rfl, .inl hvalues⟩ rfl
  · constructor
    · rintro ⟨line', hline', hon⟩
      obtain rfl := Option.some.inj hline'
      rcases hon with hnil | ⟨value', hvalues', hvalue'⟩
      · rw [hvalues] at hnil
        cases hnil
      · obtain rfl : value = value' := by simpa using hvalues.symm.trans hvalues'
        exact Except.ok.inj (hvalue.symm.trans hvalue')
    · rintro rfl
      exact ⟨line, rfl, .inr ⟨value, hvalues, hvalue⟩⟩

lemma exists_allowSpawn_append (hword : line.word ≠ "allow_spawn") :
    (∃ l ∈ lines ++ [line], l.word = "allow_spawn") ↔ ∃ l ∈ lines, l.word = "allow_spawn" := by
  simp [or_and_right, exists_or, hword]

lemma positiveRates_append (hword : line.word ≠ "rate_limit") :
    (∀ l ∈ lines ++ [line], PositiveRate env l) ↔ ∀ l ∈ lines, PositiveRate env l := by
  rw [List.forall_mem_append, List.forall_mem_singleton]
  exact and_iff_left fun h => absurd h hword

lemma lastGroups_append (hword : line.word ≠ "user") :
    env.lastGroups (lines ++ [line]) = env.lastGroups lines := by
  rw [PlanEnv.lastGroups, PlanEnv.lastGroups, lastLine_append, if_neg hword]

lemma lastGroups_append_self (hword : line.word = "user") :
    env.lastGroups (lines ++ [line]) = env.userGroups line := by
  rw [PlanEnv.lastGroups, lastLine_append, if_pos hword]

lemma FollowsLines.skip (h : FollowsLines env lines plan)
    (hword : line.word = "exec" ∨ line.word = "translate" ∨ line.word = "umask" ∨
      line.word ∉ checkedOptions)
    (hchannel : plan'.controlChannel = plan.controlChannel)
    (hspawn : plan'.allowSpawn = plan.allowSpawn) (hrates : plan'.rateLimits = plan.rateLimits)
    (hgroups : plan'.groups = plan.groups) : FollowsLines env (lines ++ [line]) plan' := by
  have hother : line.word ≠ "control_channel" ∧ line.word ≠ "allow_spawn" ∧
      line.word ≠ "rate_limit" ∧ line.word ≠ "user" := by
    rcases hword with hword | hword | hword | hword
    · rw [hword]
      decide
    · rw [hword]
      decide
    · rw [hword]
      decide
    · refine ⟨?_, ?_, ?_, ?_⟩ <;> exact fun hw => hword (hw ▸ by decide)
  constructor
  · rw [hchannel, h.controlChannel, switchedOn_append hother.1]
  · rw [hspawn, h.allowSpawn, exists_allowSpawn_append hother.2.1]
  · rw [hrates, h.rateLimits, positiveRates_append hother.2.2.1]
  · rw [hgroups, h.groups, lastGroups_append hother.2.2.2]

lemma FollowsLines.effect (h : FollowsLines env lines plan) (heffect : Effect env plan line plan') :
    FollowsLines env (lines ++ [line]) plan' := by
  cases heffect with
  | exec hword _ _ => exact h.skip (.inl hword) rfl rfl rfl rfl
  | translate hword => exact h.skip (.inr (.inl hword)) rfl rfl rfl rfl
  | controlChannel hword hvalue =>
      refine ⟨(switchedOn_append_self hword hvalue).symm, ?_, ?_, ?_⟩
      · exact h.allowSpawn.trans (exists_allowSpawn_append (by rw [hword]; decide)).symm
      · exact h.rateLimits.trans (positiveRates_append (by rw [hword]; decide)).symm
      · exact h.groups.trans (lastGroups_append (by rw [hword]; decide)).symm
  | allowSpawn hword =>
      refine ⟨?_, ?_, ?_, ?_⟩
      · exact h.controlChannel.trans (switchedOn_append (by rw [hword]; decide)).symm
      · exact iff_of_true rfl ⟨line, List.mem_append_right _ List.mem_cons_self, hword⟩
      · exact h.rateLimits.trans (positiveRates_append (by rw [hword]; decide)).symm
      · exact h.groups.trans (lastGroups_append (by rw [hword]; decide)).symm
  | user hword _ _ =>
      refine ⟨?_, ?_, ?_, (lastGroups_append_self hword).symm⟩
      · exact h.controlChannel.trans (switchedOn_append (by rw [hword]; decide)).symm
      · exact h.allowSpawn.trans (exists_allowSpawn_append (by rw [hword]; decide)).symm
      · exact h.rateLimits.trans (positiveRates_append (by rw [hword]; decide)).symm
  | umask hword _ => exact h.skip (.inr (.inr (.inl hword))) rfl rfl rfl rfl
  | rateLimit hword hvalues hr =>
      refine ⟨?_, ?_, ?_, ?_⟩
      · exact h.controlChannel.trans (switchedOn_append (by rw [hword]; decide)).symm
      · exact h.allowSpawn.trans (exists_allowSpawn_append (by rw [hword]; decide)).symm
      · rw [List.forall_mem_append, List.forall_mem_singleton, h.rateLimits,
          ← positiveRate_iff hword hvalues hr, List.forall_mem_append, List.forall_mem_singleton]
      · exact h.groups.trans (lastGroups_append (by rw [hword]; decide)).symm
  | other hword hsame =>
      simp only [Plan.checked, Prod.mk.injEq] at hsame
      obtain ⟨-, -, hchannel, hspawn, hrates, -, -, -, hgroups⟩ := hsame
      exact h.skip (.inr (.inr (.inr hword))) hchannel hspawn hrates hgroups

end Step

/-- The default of the timeout changes nothing of this. -/
lemma checked_withTimeout (plan : Plan) :
    (if plan.timeout = "" then { plan with timeout := "10 minutes" } else plan).checked =
      plan.checked := by
  split <;> rfl

lemma finish_spec (loader : PlanLoader) : Ensures (PlanEnv.finish loader) fun plan =>
    plan.checked = loader.plan.checked ∧
      (loader.plan.translate = true → loader.seenExecOption = false ∧
        loader.plan.allowSpawn = false) ∧
      (loader.plan.translate = false → loader.plan.args ≠ []) := by
  unfold PlanEnv.finish
  simp only
  split
  · rename_i htranslate
    refine .guard fun hseen => .guard fun hspawn => .pure ⟨checked_withTimeout _, ?_, ?_⟩
    · exact fun _ => ⟨Bool.eq_false_iff.mpr hseen, Bool.eq_false_iff.mpr hspawn⟩
    · intro hexec
      rw [htranslate] at hexec
      cases hexec
  · rename_i htranslate
    refine .guard fun hargs => .pure ⟨checked_withTimeout _, ?_, ?_⟩
    · exact fun h => absurd h htranslate
    · exact fun _ => hargs

/-- **What is known about a plan that is accepted**, and about the loader at the end of its file. -/
lemma loadPlanFile_spec (env : PlanEnv) (lines : List Line) :
    Ensures (env.loadPlanFile lines) fun plan => ∃ loader, Checked loader ∧
      FollowsLines env lines loader.plan ∧ plan.checked = loader.plan.checked ∧
      (loader.plan.translate = true → loader.seenExecOption = false ∧
        loader.plan.allowSpawn = false) ∧
      (loader.plan.translate = false → loader.plan.args ≠ []) := by
  unfold PlanEnv.loadPlanFile
  have hloop := Ensures.foldlM (f := env.parseLine) (s := {})
    (I := fun lines loader => Checked loader ∧ FollowsLines env lines loader.plan)
    ⟨checked_empty, followsLines_nil env⟩
    (fun done line loader h => (parseOption_effect env loader.plan line).bind fun plan heffect =>
      .pure ⟨h.1.effect heffect, h.2.effect heffect⟩) lines
  refine hloop.bind fun loader hloader plan hplan => ?_
  exact ⟨loader, hloader.1, hloader.2, finish_spec loader plan hplan⟩

/-- A plan that executes a program itself has a program. -/
lemma args_ne_nil_of_loadPlanFile {env : PlanEnv} {lines : List Line} {plan : Plan}
    (h : env.loadPlanFile lines = .ok plan) (hexec : plan.translate = false) : plan.args ≠ [] := by
  obtain ⟨loader, -, -, hchecked, -, hargs⟩ := loadPlanFile_spec env lines plan h
  simp only [Plan.checked, Prod.mk.injEq] at hchecked
  rw [hchecked.1]
  exact hargs (hchecked.2.1 ▸ hexec)

/-- The groups of a plan are those of the last user. -/
lemma groups_eq_of_loadPlanFile {env : PlanEnv} {lines : List Line} {plan : Plan}
    (h : env.loadPlanFile lines = .ok plan) : plan.groups = env.lastGroups lines := by
  obtain ⟨loader, -, hcounts, hchecked, -, -⟩ := loadPlanFile_spec env lines plan h
  simp only [Plan.checked, Prod.mk.injEq] at hchecked
  obtain ⟨-, -, -, -, -, -, -, -, hgroups⟩ := hchecked
  rw [hgroups, hcounts.groups]

/-- **Which plans are well-formed.**  A plan that the loader accepts is well-formed exactly if the
numbers of all rate limits are positive and, where there is an `allow_spawn` line, the last
`control_channel` line switches the channel on. -/
theorem loadPlanFile_wellFormed_iff {env : PlanEnv} {lines : List Line} {plan : Plan}
    (h : env.loadPlanFile lines = .ok plan) :
    plan.WellFormed ↔ (∀ line ∈ lines, PositiveRate env line) ∧
      ((∃ line ∈ lines, line.word = "allow_spawn") → SwitchedOn env lines) := by
  obtain ⟨loader, hchecks, hcounts, hchecked, htranslate, hexec⟩ :=
    loadPlanFile_spec env lines plan h
  simp only [Plan.checked, Prod.mk.injEq] at hchecked
  obtain ⟨hargs, htype, hchannel, hspawn, hrates, humask, huid, hgid, -⟩ := hchecked
  rw [← hcounts.rateLimits, ← hcounts.allowSpawn, ← hcounts.controlChannel, ← hrates, ← hspawn,
    ← hchannel]
  constructor
  · intro hwell
    exact ⟨hwell.rateLimits, fun hallow => (hwell.allowSpawn hallow).1⟩
  · rintro ⟨hpositive, hon⟩
    refine ⟨?_, fun hallow => ⟨hon hallow, ?_⟩, hpositive, humask ▸ hchecks.umask,
      huid ▸ hchecks.uid, hgid ▸ hchecks.gid⟩
    · rw [htype, hargs]
      cases hkind : loader.plan.translate with
      | true =>
          refine .inl ⟨rfl, ?_⟩
          by_contra hne
          rw [hchecks.seen hne] at htranslate
          exact absurd (htranslate hkind).1 (by decide)
      | false =>
          obtain ⟨program, args, hcons⟩ := List.exists_cons_of_ne_nil (hexec hkind)
          refine .inr ⟨rfl, program, args, hcons, hchecks.program program ?_⟩
          rw [hcons]
          rfl
    · rw [htype]
      cases hkind : loader.plan.translate with
      | true =>
          rw [hspawn, (htranslate hkind).2] at hallow
          cases hallow
      | false => rfl

/-- A libcommon that knows two words and one interval. -/
def yesNoEnv : PlanEnv where
  parseIntervalS text := if text = "1 hour" then .ok 3600 else .error "Failed to parse interval"
  lineError := "Syntax error"
  nextBool text := if text = "yes" then .ok true else if text = "no" then .ok false
    else .error "Bad boolean"
  nextPositiveInteger _ := .error "Positive integer expected"
  parseRlimits _ := false
  stat _ := .error "failed to stat"
  getpwnam _ := none
  getgrouplist _ _ := none

theorem loadPlanFile_wellFormed_spawning : Plan.WellFormed
    { args := ["/bin/true"], timeout := "10 minutes", controlChannel := true,
      allowSpawn := true } :=
  (@loadPlanFile_wellFormed_iff yesNoEnv [{ word := "control_channel" }, { word := "allow_spawn" },
    { word := "exec", values := ["/bin/true"] }] _ rfl).mpr
    ⟨by simp [PositiveRate], fun _ => ⟨{ word := "control_channel" }, rfl, .inl rfl⟩⟩

/-- **The channel can be switched off again**, after the option that needs it. -/
theorem spawning_plan_without_channel :
    ¬ ∀ (env : PlanEnv) (lines : List Line) (plan : Plan), env.loadPlanFile lines = .ok plan →
        plan.WellFormed := by
  intro h
  have hwell := h yesNoEnv [{ word := "control_channel" }, { word := "allow_spawn" },
    { word := "control_channel", values := ["no"] }, { word := "exec", values := ["/bin/true"] }]
    { args := ["/bin/true"], timeout := "10 minutes", allowSpawn := true } rfl
  exact absurd (hwell.allowSpawn rfl).1 (by decide)

end Workshop.Jobs
