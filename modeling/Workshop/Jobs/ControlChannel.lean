import Workshop.Jobs.Workplace

/-!
# The control channel

What `WorkshopControlChannelServer` (`src/workshop/ControlChannelServer.cxx`) makes of the datagrams
of a job.

The parameters of the commands `progress` and `again` are documented as numbers, and are read with
`strtoul`, which accepts more: white space, a sign, negative numbers that wrap around, and whatever
follows a NUL.  Besides, `progress` accepts an empty parameter.  The server keeps to the
documentation exactly if the datagram is none of these (`control_documented_iff`).

The command `spawn` is a task, and until it is finished, no other command must be handled.  The
server disables its socket for that time; but when the process exits, the operator reads the socket
all the same.  This is the only way to get there (`control_not_reentered_iff`).
-/

namespace Workshop.Jobs

open Workshop.Lib

/-! ## Numeric parameters -/

/-- `FirstLine`. -/
def firstLine (payload : List Char) : List Char := payload.takeWhile fun c => c ≠ '\n'

/-- A C string ends here. -/
def EndsString (s : List Char) : Prop := ∀ c ∈ s.head?, c.toNat = 0

/-- A documented parameter: only digits, with a value up to the limit. -/
structure IsNumber (limit : ℕ) (s : List Char) (value : ℕ) : Prop where
  ne_nil : s ≠ []
  isDigit : ∀ c ∈ s, isDigitIn 10 c = true
  value_eq : digitsValue 10 s = value
  le_limit : value ≤ limit

/-- A parameter that is accepted: what `strtoul` reads, up to the end of the C string. -/
def ReadsNumber (limit : ℕ) (s : List Char) (value : ℕ) : Prop :=
  ∃ (n : Numeral 10) (tail : List Char), s = n.chars ++ tail ∧ EndsString tail ∧ n.value = value ∧
    value ≤ limit

/-- A parameter that is accepted, but has white space, a sign, or something after a NUL. -/
def IsLoose (limit : ℕ) (s : List Char) : Prop :=
  ∃ (n : Numeral 10) (tail : List Char), s = n.chars ++ tail ∧ EndsString tail ∧ n.value ≤ limit ∧
    ¬ (n.IsPlain ∧ tail = [])

section Parameters

variable {limit value : ℕ} {s tail : List Char}

lemma EndsString.endsNumber (h : EndsString tail) : EndsNumber 10 tail := by
  intro c hc
  simp [isDigitIn, h c hc]

lemma cStr_eq_iff {t : List Char} (ht : ∀ c ∈ t, c.toNat ≠ 0) :
    cStr s = t ↔ ∃ tail, s = t ++ tail ∧ EndsString tail := by
  constructor
  · rintro rfl
    refine ⟨s.dropWhile fun c => c.toNat ≠ 0, List.takeWhile_append_dropWhile.symm, fun c hc => ?_⟩
    have hhead := List.head?_dropWhile_not (fun c : Char => decide (c.toNat ≠ 0)) s
    rw [Option.mem_def.mp hc] at hhead
    simpa using hhead
  · rintro ⟨tail, rfl, htail⟩
    refine (span_append (fun c hc => ?_) fun c hc => ?_).1
    · simpa using ht c hc
    · simp [htail c hc]

/-- **Documented parameters** are those that are accepted and not loose. -/
lemma isNumber_iff (hlimit : limit < 2 ^ 64 - 1) :
    IsNumber limit s value ↔ ReadsNumber limit s value ∧ ¬ IsLoose limit s := by
  constructor
  · intro h
    have hplain : (Numeral.plain s h.isDigit h.ne_nil).IsPlain := ⟨rfl, rfl⟩
    have hchars : s = (Numeral.plain s h.isDigit h.ne_nil).chars ++ [] := (List.append_nil s).symm
    obtain ⟨hvalue, -⟩ := (Numeral.value_of_isPlain hplain hlimit).mpr ⟨h.value_eq, h.le_limit⟩
    refine ⟨⟨_, [], hchars, by simp [EndsString], hvalue, h.le_limit⟩, ?_⟩
    rintro ⟨n, tail, htext, htail, -, hloose⟩
    obtain ⟨rfl, rfl⟩ := Numeral.eq_of_append (hchars.symm.trans htext) (by simp [EndsNumber])
      htail.endsNumber
    exact hloose ⟨hplain, rfl⟩
  · rintro ⟨⟨n, tail, rfl, htail, rfl, hle⟩, hloose⟩
    obtain ⟨hplain, rfl⟩ : n.IsPlain ∧ tail = [] := by
      by_contra hnot
      exact hloose ⟨n, tail, rfl, htail, hle, hnot⟩
    have hchars : n.chars ++ [] = n.digits := by
      simp [Numeral.chars, hplain.1, hplain.2, signChars]
    rw [hchars]
    exact ⟨n.digits_ne_nil, n.isDigitIn_digits,
      ((Numeral.value_of_isPlain hplain hlimit).mp ⟨rfl, hle⟩).1, hle⟩

lemma strtoul_cStr_iff : strtoul 10 (cStr s) = some (value, []) ↔
    ∃ (n : Numeral 10) (tail : List Char),
      s = n.chars ++ tail ∧ EndsString tail ∧ n.value = value := by
  rw [strtoul_eq_some_iff]
  constructor
  · rintro ⟨n, rfl, htext, -⟩
    rw [List.append_nil, cStr_eq_iff n.toNat_ne_zero] at htext
    obtain ⟨tail, rfl, htail⟩ := htext
    exact ⟨n, tail, rfl, htail, rfl⟩
  · rintro ⟨n, tail, rfl, htail, rfl⟩
    refine ⟨n, rfl, ?_, by simp [EndsNumber]⟩
    rw [List.append_nil]
    exact (cStr_eq_iff n.toNat_ne_zero).mpr ⟨tail, rfl, htail⟩

/-- A parameter that `strtoul` reads to the end of the C string. -/
lemma readsNumber_iff : ReadsNumber limit s value ↔
    strtoul 10 (cStr s) = some (value, []) ∧ value ≤ limit := by
  rw [ReadsNumber, strtoul_cStr_iff]
  constructor
  · rintro ⟨n, tail, htext, htail, hvalue, hle⟩
    exact ⟨⟨n, tail, htext, htail, hvalue⟩, hle⟩
  · rintro ⟨⟨n, tail, htext, htail, hvalue⟩, hle⟩
    exact ⟨n, tail, htext, htail, hvalue, hle⟩

lemma readDelay_iff : readDelay (cStr s) = some value ↔ ReadsNumber (3600 * 24) s value := by
  rw [readsNumber_iff, readDelay]
  cases strtoul 10 (cStr s) with
  | none => simp
  | some p =>
      obtain ⟨v, rest⟩ := p
      simp only [Option.ite_none_left_eq_some, Option.some.injEq, Prod.mk.injEq, not_or, not_not,
        not_lt]
      constructor
      · rintro ⟨⟨rfl, hle⟩, rfl⟩
        exact ⟨⟨rfl, rfl⟩, hle⟩
      · rintro ⟨⟨rfl, rfl⟩, hle⟩
        exact ⟨⟨rfl, hle⟩, rfl⟩

lemma readProgress_iff : readProgress (cStr s) = some value ↔
    ReadsNumber 100 s value ∨ (EndsString s ∧ value = 0) := by
  have hempty : cStr s = [] ↔ EndsString s := by
    rw [cStr_eq_iff (by simp)]
    simp
  rw [readsNumber_iff, readProgress, ← hempty]
  cases hread : strtoul 10 (cStr s) with
  | none =>
      simp only [Option.ite_none_right_eq_some, Option.some.injEq, reduceCtorEq, false_and,
        false_or]
      exact and_congr_right fun _ => eq_comm
  | some p =>
      obtain ⟨v, rest⟩ := p
      have hne : cStr s ≠ [] := by
        intro hnil
        rw [hnil] at hread
        cases hread
      simp only [Option.ite_none_left_eq_some, Option.some.injEq, Prod.mk.injEq, not_or, not_not,
        not_lt, hne, false_and, or_false]
      constructor
      · rintro ⟨⟨rfl, hle⟩, rfl⟩
        exact ⟨⟨rfl, rfl⟩, hle⟩
      · rintro ⟨⟨rfl, rfl⟩, hle⟩
        exact ⟨⟨rfl, hle⟩, rfl⟩

end Parameters

/-! ## Commands -/

section Words

variable {payload line cmd s : List Char} {value : ℕ}

lemma splitOn_eq_one : line.splitOn ' ' = [s] ↔ line = s ∧ ' ' ∉ s := by
  by_cases hspace : ' ' ∈ line
  · obtain ⟨a, b, rfl, ha⟩ := List.eq_append_cons_of_mem hspace
    rw [List.splitOn_append_cons_self_of_not_mem ha]
    constructor
    · intro h
      exact absurd (List.cons.inj h).2 (List.splitOn_ne_nil ' ' b)
    · rintro ⟨rfl, hs⟩
      exact absurd hspace hs
  · rw [List.splitOn_eq_singleton hspace]
    constructor
    · intro h
      obtain ⟨rfl, -⟩ := List.cons.inj h
      exact ⟨rfl, hspace⟩
    · rintro ⟨rfl, -⟩
      rfl

lemma splitOn_eq_two :
    line.splitOn ' ' = [cmd, s] ↔ (line = cmd ++ ' ' :: s ∧ ' ' ∉ s) ∧ ' ' ∉ cmd := by
  by_cases hspace : ' ' ∈ line
  · obtain ⟨a, b, rfl, ha⟩ := List.eq_append_cons_of_mem hspace
    rw [List.splitOn_append_cons_self_of_not_mem ha, List.cons_eq_cons, splitOn_eq_one]
    constructor
    · rintro ⟨rfl, rfl, hs⟩
      exact ⟨⟨rfl, hs⟩, ha⟩
    · rintro ⟨⟨heq, hs⟩, hcmd⟩
      have hsplit := congrArg (List.splitOn ' ') heq
      rw [List.splitOn_append_cons_self_of_not_mem ha,
        List.splitOn_append_cons_self_of_not_mem hcmd,
        List.cons_eq_cons, List.splitOn_eq_singleton hs, splitOn_eq_one] at hsplit
      exact hsplit
  · rw [List.splitOn_eq_singleton hspace]
    constructor
    · intro h
      cases (List.cons.inj h).2
    · rintro ⟨⟨rfl, -⟩, -⟩
      exact absurd (by simp) hspace

lemma ofList_eq_iff {word : String} : String.ofList cmd = word ↔ cmd = word.toList := by
  constructor
  · rintro rfl
    rw [String.toList_ofList]
  · rintro rfl
    rw [String.ofList_toList]

lemma readCommand_progress_iff {word : String} {args : List (List Char)} :
    readCommand word args = .progress value ↔
      word = "progress" ∧ ∃ s, args = [s] ∧ readProgress (cStr s) = some value := by
  unfold readCommand
  by_cases hword : word = "progress"
  · rw [if_pos hword]
    match args with
    | [] => simp
    | [s] => cases hread : readProgress (cStr s) <;> simp [hword, hread]
    | _ :: _ :: _ => simp
  · rw [if_neg hword]
    simp only [hword, false_and, iff_false]
    split_ifs
    · split <;> simp
    · split
      · simp
      · rename_i s
        cases readDelay (cStr s) <;> simp
      · simp
    · simp
    · split <;> simp
    · simp

lemma readCommand_again_iff {word : String} {args : List (List Char)} :
    readCommand word args = .again value ↔
      word = "again" ∧ ((args = [] ∧ value = 0) ∨
        ∃ s, args = [s] ∧ readDelay (cStr s) = some value) := by
  unfold readCommand
  by_cases hword : word = "again"
  · subst hword
    simp only [String.reduceEq, if_false, if_true]
    match args with
    | [] => simp [eq_comm]
    | [s] => cases hread : readDelay (cStr s) <;> simp [hread]
    | _ :: _ :: _ => simp
  · simp only [hword, if_false, false_and, iff_false]
    split_ifs
    · split
      · rename_i s
        cases readProgress (cStr s) <;> simp
      · simp
    · split <;> simp
    · simp
    · split <;> simp
    · simp

lemma readCommand_error {word : String} {args : List (List Char)}
    (hword : word ≠ "setenv" ∧ word ≠ "version" ∧ word ≠ "spawn")
    (hprogress : ∀ v, readCommand word args ≠ .progress v)
    (hagain : ∀ v, readCommand word args ≠ .again v) :
    ∃ message, readCommand word args = .temporaryError message := by
  obtain ⟨hsetenv, hversion, hspawn⟩ := hword
  unfold readCommand at hprogress hagain ⊢
  simp only [hsetenv, hversion, hspawn, if_false] at hprogress hagain ⊢
  split_ifs at hprogress hagain ⊢
  · split at hprogress
    · rename_i s
      cases hread : readProgress (cStr s) with
      | none => simp
      | some v => exact absurd (by simp [hread]) (hprogress v)
    · exact ⟨_, rfl⟩
  · split at hagain
    · exact absurd rfl (hagain 0)
    · rename_i s
      cases hread : readDelay (cStr s) with
      | none => simp
      | some v => exact absurd (by simp [hread]) (hagain v)
    · exact ⟨_, rfl⟩
  · exact ⟨_, rfl⟩

lemma parseControl_eq (payload : List Char) :
    ∃ cmd args, (firstLine payload).splitOn ' ' = cmd :: args ∧
      parseControl payload = readCommand (String.ofList cmd) args := by
  obtain ⟨cmd, args, hsplit⟩ :=
    List.exists_cons_of_ne_nil (List.splitOn_ne_nil ' ' (firstLine payload))
  refine ⟨cmd, args, hsplit, ?_⟩
  have hline : (payload.takeWhile fun c => c ≠ '\n').splitOn ' ' = cmd :: args := hsplit
  rw [parseControl, hline]

lemma parseControl_progress_iff : parseControl payload = .progress value ↔
    ∃ s, (firstLine payload = "progress".toList ++ ' ' :: s ∧ ' ' ∉ s) ∧
      (ReadsNumber 100 s value ∨ (EndsString s ∧ value = 0)) := by
  obtain ⟨cmd, args, hsplit, hparse⟩ := parseControl_eq payload
  rw [hparse, readCommand_progress_iff, ofList_eq_iff]
  constructor
  · rintro ⟨rfl, s, rfl, hread⟩
    exact ⟨s, (splitOn_eq_two.mp hsplit).1, readProgress_iff.mp hread⟩
  · rintro ⟨s, hline, hread⟩
    rw [splitOn_eq_two.mpr ⟨hline, by decide⟩] at hsplit
    obtain ⟨rfl, rfl⟩ := List.cons.inj hsplit
    exact ⟨rfl, s, rfl, readProgress_iff.mpr hread⟩

lemma parseControl_again_iff : parseControl payload = .again value ↔
    (firstLine payload = "again".toList ∧ value = 0) ∨
      ∃ s, (firstLine payload = "again".toList ++ ' ' :: s ∧ ' ' ∉ s) ∧
        ReadsNumber (3600 * 24) s value := by
  obtain ⟨cmd, args, hsplit, hparse⟩ := parseControl_eq payload
  rw [hparse, readCommand_again_iff, ofList_eq_iff]
  constructor
  · rintro ⟨rfl, ⟨rfl, rfl⟩ | ⟨s, rfl, hread⟩⟩
    · exact .inl ⟨(splitOn_eq_one.mp hsplit).1, rfl⟩
    · exact .inr ⟨s, (splitOn_eq_two.mp hsplit).1, readDelay_iff.mp hread⟩
  · rintro (⟨hline, rfl⟩ | ⟨s, hline, hread⟩)
    · rw [splitOn_eq_one.mpr ⟨hline, by decide⟩] at hsplit
      obtain ⟨rfl, rfl⟩ := List.cons.inj hsplit
      exact ⟨rfl, .inl ⟨rfl, rfl⟩⟩
    · rw [splitOn_eq_two.mpr ⟨hline, by decide⟩] at hsplit
      obtain ⟨rfl, rfl⟩ := List.cons.inj hsplit
      exact ⟨rfl, .inr ⟨s, rfl, readDelay_iff.mpr hread⟩⟩

/-- A line that begins with a word has it at the beginning of its first word. -/
lemma isPrefix_of_splitOn {word : List Char} {args : List (List Char)} (hword : ' ' ∉ word)
    (hline : word <+: line) (hsplit : line.splitOn ' ' = cmd :: args) : word <+: cmd := by
  by_cases hspace : ' ' ∈ line
  · obtain ⟨a, b, rfl, ha⟩ := List.eq_append_cons_of_mem hspace
    rw [List.splitOn_append_cons_self_of_not_mem ha] at hsplit
    obtain ⟨rfl, -⟩ := List.cons.inj hsplit
    rcases List.prefix_or_prefix_of_prefix hline (List.prefix_append a _) with h | ⟨t, rfl⟩
    · exact h
    · obtain ⟨u, hu⟩ := hline
      rw [List.append_assoc, List.append_cancel_left_eq] at hu
      cases t with
      | nil => simp
      | cons c t =>
          obtain ⟨rfl, -⟩ := List.cons.inj hu
          exact absurd (by simp) hword
  · rw [List.splitOn_eq_singleton hspace] at hsplit
    obtain ⟨rfl, -⟩ := List.cons.inj hsplit
    exact hline

lemma parseControl_error
    (hline : "progress".toList <+: firstLine payload ∨ "again".toList <+: firstLine payload)
    (hprogress : ∀ v, parseControl payload ≠ .progress v)
    (hagain : ∀ v, parseControl payload ≠ .again v) :
    ∃ message, parseControl payload = .temporaryError message := by
  obtain ⟨cmd, args, hsplit, hparse⟩ := parseControl_eq payload
  rw [hparse] at hprogress hagain ⊢
  refine readCommand_error ?_ hprogress hagain
  have hprefix : "progress".toList <+: cmd ∨ "again".toList <+: cmd :=
    hline.imp (isPrefix_of_splitOn (by decide) · hsplit) (isPrefix_of_splitOn (by decide) · hsplit)
  refine ⟨?_, ?_, ?_⟩
  all_goals
    rw [Ne, ofList_eq_iff]
    rintro rfl
    revert hprefix
    decide

end Words

/-! ## The documentation -/

/-- The line is a word, a space, and a documented parameter. -/
def IsNumericCommand (word : String) (limit : ℕ) (line : List Char) (value : ℕ) : Prop :=
  ∃ s, line = word.toList ++ ' ' :: s ∧ IsNumber limit s value

/-- **The server keeps to the documentation** of the two commands: `OnControlProgress` and
`OnControlAgain` are called for what is documented, and with these values; every other line that
begins with one of the words is a temporary error, which changes nothing. -/
structure Documented (payload : List Char) : Prop where
  progress : ∀ v, parseControl payload = .progress v ↔
    IsNumericCommand "progress" 100 (firstLine payload) v
  again : ∀ v, parseControl payload = .again v ↔
    (firstLine payload = "again".toList ∧ v = 0) ∨
      IsNumericCommand "again" (3600 * 24) (firstLine payload) v
  other : "progress".toList <+: firstLine payload ∨ "again".toList <+: firstLine payload →
    (∀ v, ¬ IsNumericCommand "progress" 100 (firstLine payload) v) →
    firstLine payload ≠ "again".toList →
    (∀ v, ¬ IsNumericCommand "again" (3600 * 24) (firstLine payload) v) →
    (∃ message, parseControl payload = .temporaryError message) ∧
      ∀ env now (o : ActiveOperator) replyFails,
        payload ≠ [] → o.onUdpDatagram env now payload replyFails = (o, [])

/-- **The datagrams that are accepted nevertheless**: `progress` with an empty parameter, or one of
the two commands with a loose one. -/
def IsMisread (payload : List Char) : Prop :=
  ∃ s, ' ' ∉ s ∧
    ((firstLine payload = "progress".toList ++ ' ' :: s ∧ (EndsString s ∨ IsLoose 100 s)) ∨
      (firstLine payload = "again".toList ++ ' ' :: s ∧ IsLoose (3600 * 24) s))

section Documentation

variable {payload line s : List Char} {limit value : ℕ} {word : String}

lemma IsNumber.not_mem_space (h : IsNumber limit s value) : ' ' ∉ s := fun hspace =>
  absurd (h.isDigit ' ' hspace) (by decide)

lemma IsNumber.not_endsString (h : IsNumber limit s value) : ¬ EndsString s := by
  obtain ⟨c, t, rfl⟩ := List.exists_cons_of_ne_nil h.ne_nil
  intro hends
  have hdigit := h.isDigit c List.mem_cons_self
  simp [isDigitIn, hends c rfl] at hdigit

lemma isNumericCommand_iff (hline : line = word.toList ++ ' ' :: s) :
    IsNumericCommand word limit line value ↔ IsNumber limit s value := by
  constructor
  · rintro ⟨s', hline', hnumber⟩
    rw [hline, List.append_cancel_left_eq, List.cons_eq_cons] at hline'
    rw [hline'.2]
    exact hnumber
  · exact fun hnumber => ⟨s, hline, hnumber⟩

lemma not_documented_of_isMisread (h : IsMisread payload) : ¬ Documented payload := by
  intro hdoc
  obtain ⟨s, hspace, ⟨hline, hempty | hloose⟩ | ⟨hline, hloose⟩⟩ := h
  · have hparse := parseControl_progress_iff.mpr ⟨s, ⟨hline, hspace⟩, .inr ⟨hempty, rfl⟩⟩
    have hnumber := (isNumericCommand_iff hline).mp ((hdoc.progress 0).mp hparse)
    exact hnumber.not_endsString hempty
  · obtain ⟨n, tail, htext, htail, hle, -⟩ := id hloose
    have hparse := parseControl_progress_iff.mpr
      ⟨s, ⟨hline, hspace⟩, .inl ⟨n, tail, htext, htail, rfl, hle⟩⟩
    have hnumber := (isNumericCommand_iff hline).mp ((hdoc.progress n.value).mp hparse)
    exact ((isNumber_iff (by decide)).mp hnumber).2 hloose
  · obtain ⟨n, tail, htext, htail, hle, -⟩ := id hloose
    have hparse := parseControl_again_iff.mpr
      (.inr ⟨s, ⟨hline, hspace⟩, ⟨n, tail, htext, htail, rfl, hle⟩⟩)
    rcases (hdoc.again n.value).mp hparse with ⟨halone, -⟩ | hcommand
    · rw [hline] at halone
      simp at halone
    · have hnumber := (isNumericCommand_iff hline).mp hcommand
      exact ((isNumber_iff (by decide)).mp hnumber).2 hloose

lemma documented_of_not_isMisread (h : ¬ IsMisread payload) : Documented payload := by
  have hprogress : ∀ v, parseControl payload = .progress v ↔
      IsNumericCommand "progress" 100 (firstLine payload) v := by
    intro v
    rw [parseControl_progress_iff]
    constructor
    · rintro ⟨s, ⟨hline, hspace⟩, hreads | ⟨hempty, -⟩⟩
      · have hloose : ¬ IsLoose 100 s := fun hloose =>
          h ⟨s, hspace, .inl ⟨hline, .inr hloose⟩⟩
        exact ⟨s, hline, (isNumber_iff (by decide)).mpr ⟨hreads, hloose⟩⟩
      · exact absurd ⟨s, hspace, .inl ⟨hline, .inl hempty⟩⟩ h
    · rintro ⟨s, hline, hnumber⟩
      exact ⟨s, ⟨hline, hnumber.not_mem_space⟩, .inl ((isNumber_iff (by decide)).mp hnumber).1⟩
  have hagain : ∀ v, parseControl payload = .again v ↔
      (firstLine payload = "again".toList ∧ v = 0) ∨
        IsNumericCommand "again" (3600 * 24) (firstLine payload) v := by
    intro v
    rw [parseControl_again_iff]
    refine or_congr_right ?_
    constructor
    · rintro ⟨s, ⟨hline, hspace⟩, hreads⟩
      have hloose : ¬ IsLoose (3600 * 24) s := fun hloose => h ⟨s, hspace, .inr ⟨hline, hloose⟩⟩
      exact ⟨s, hline, (isNumber_iff (by decide)).mpr ⟨hreads, hloose⟩⟩
    · rintro ⟨s, hline, hnumber⟩
      exact ⟨s, ⟨hline, hnumber.not_mem_space⟩, ((isNumber_iff (by decide)).mp hnumber).1⟩
  refine ⟨hprogress, hagain, fun hline hnoProgress halone hnoAgain => ?_⟩
  obtain ⟨message, hparse⟩ : ∃ message, parseControl payload = .temporaryError message := by
    refine parseControl_error hline (fun v hv => hnoProgress v ((hprogress v).mp hv)) fun v hv => ?_
    rcases (hagain v).mp hv with ⟨heq, -⟩ | hcommand
    · exact halone heq
    · exact hnoAgain v hcommand
  refine ⟨⟨message, hparse⟩, fun env now o replyFails hne => ?_⟩
  rw [ActiveOperator.onUdpDatagram, if_neg hne, hparse]
  rfl

end Documentation

/-- **The server keeps to the documentation** of a datagram exactly if it is not one of those it
misreads. -/
theorem control_documented_iff (payload : List Char) : Documented payload ↔ ¬ IsMisread payload :=
  ⟨fun hdoc hmisread => not_documented_of_isMisread hmisread hdoc, documented_of_not_isMisread⟩

/-- **An empty parameter is accepted**, as 0, and so is a number that wraps around. -/
theorem control_misread :
    parseControl "progress ".toList = .progress 0 ∧ ¬ Documented "progress ".toList ∧
      parseControl "again -18446744073709551615".toList = .again 1 ∧
      ¬ Documented "again -18446744073709551615".toList := by
  refine ⟨by decide +kernel, fun hdoc => ?_, by decide +kernel, fun hdoc => ?_⟩
  · have hcommand := (hdoc.progress 0).mp (by decide +kernel)
    have hline : firstLine "progress ".toList = "progress".toList ++ ' ' :: [] := by decide +kernel
    exact ((isNumericCommand_iff hline).mp hcommand).ne_nil rfl
  · have hcommand := (hdoc.again 1).mp (by decide +kernel)
    have hline : firstLine "again -18446744073709551615".toList =
        "again".toList ++ ' ' :: "-18446744073709551615".toList := by decide +kernel
    rcases hcommand with ⟨halone, -⟩ | hcommand
    · revert halone
      decide +kernel
    · have hdigit := ((isNumericCommand_iff hline).mp hcommand).isDigit '-' (by decide +kernel)
      cases hdigit

/-! ## The server -/

/-- What becomes of a command `spawn`: its task is not finished at once, or it is, and then the
error may not be sent to the process, which is a permanent error. -/
inductive SpawnAnswer
  | pending
  | finished (replyFails : Bool)
  deriving DecidableEq, Repr

/-- Sending the error failed. -/
def SpawnAnswer.replyFails : SpawnAnswer → Bool
  | .pending => false
  | .finished replyFails => replyFails

/-- `WorkshopControlChannelServer` with its operator (`controlChannel` says whether there is a
server, `spawnTask` whether its task is set): whether the socket is enabled, the datagrams that were
sent and not received yet, with what becomes of them, and for each call of `OnControl` whether the
task was set then. -/
structure ControlServer where
  operator : ActiveOperator
  enabled : Bool := true
  queue : List (List Char × SpawnAnswer) := []
  entries : List Bool := []
  deleted : Bool := false

namespace ControlServer

variable (env : OperatorEnv) (now : ℤ) (s : ControlServer)

/-- `StartTask` for a task that is finished at once, with `OnTaskFinished`. -/
def onTaskFinished (failed : Bool) : ControlServer :=
  if failed then { s with operator := s.operator.resetControlChannel }
  else { s with operator := { s.operator with spawnTask := false }, enabled := true }

/-- `OnControl`, and the value it returns. -/
def onControl (payload : List Char) (answer : SpawnAnswer) : Bool × ControlServer :=
  let s := { s with entries := s.entries ++ [s.operator.spawnTask] }
  match parseControl payload with
  | .spawn _ _ =>
    if s.operator.spawnError env = none ∧ answer = .pending then
      (false, { s with operator := { s.operator with spawnTask := true }, enabled := false })
    else (true, s.onTaskFinished answer.replyFails)
  | command => (true, { s with operator := (s.operator.onCommand env now false command).1 })

/-- `OnUdpDatagram`. -/
def onUdpDatagram (payload : List Char) (answer : SpawnAnswer) : Bool × ControlServer :=
  if payload = [] then (false, { s with operator := s.operator.resetControlChannel })
  else s.onControl env now payload answer

/-- Receive datagrams, up to a number, as long as the server is there and the handler returns true.
-/
def receive (s : ControlServer) : ℕ → ControlServer
  | 0 => s
  | n + 1 =>
    match s.queue with
    | [] => s
    | (payload, answer) :: queue =>
      if s.operator.controlChannel then
        let handled := { s with queue }.onUdpDatagram env now payload answer
        if handled.1 then receive handled.2 n else handled.2
      else s

/-- `ReceiveAll`. -/
def receiveAll : ControlServer := s.receive env now s.queue.length

/-- `exited` is set. -/
def markExited : ControlServer := { s with operator := { s.operator with exited := true } }

/-- `OnChildProcessExit`, after which the operator is deleted. -/
def onChildProcessExit : ControlServer := { s.markExited.receiveAll env now with deleted := true }

end ControlServer

/-- What can happen to a server: the job sends a datagram; the socket is ready, and datagrams are
received, up to a number; the socket fails; the task is finished; the process exits; or the operator
is deleted for another reason. -/
inductive ControlEvent
  | send (payload : List Char) (answer : SpawnAnswer)
  | ready (n : ℕ)
  | error
  | taskFinished (failed : Bool)
  | exit
  | delete
  deriving DecidableEq, Repr

/-- One event of a server, at the given time. -/
def ControlServer.step (env : OperatorEnv) (s : ControlServer) :
    ℤ × ControlEvent → Option ControlServer
  | (_, .send payload answer) =>
    if s.deleted then none else some { s with queue := s.queue ++ [(payload, answer)] }
  | (now, .ready n) =>
    if !s.deleted && s.operator.controlChannel && s.enabled then some (s.receive env now n)
    else none
  | (_, .error) =>
    if !s.deleted && s.operator.controlChannel && s.enabled then
      some { s with operator := s.operator.resetControlChannel }
    else none
  | (_, .taskFinished failed) =>
    if !s.deleted && s.operator.spawnTask then some (s.onTaskFinished failed) else none
  | (now, .exit) => if s.deleted then none else some (s.onChildProcessExit env now)
  | (_, .delete) => if s.deleted then none else some { s with deleted := true }

/-- **Commands are not handled while a spawn is pending.** -/
def NotReentered (s : ControlServer) : Prop := ∀ task ∈ s.entries, task = false

/-- A spawn is pending, and the next datagram is a command. -/
def hasCommandWhileSpawning (s : ControlServer) : Bool :=
  s.operator.controlChannel && s.operator.spawnTask && s.queue.head?.any fun d => d.1 ≠ []

/-- The process exits in such a state. -/
def exitsWhileSpawning (s : ControlServer) (e : ℤ × ControlEvent) : Bool :=
  e.2 = .exit && hasCommandWhileSpawning s

/-- The socket is disabled while a spawn is pending. -/
def Disabled (s : ControlServer) : Prop := s.operator.spawnTask = true → s.enabled = false

section Server

variable {env : OperatorEnv} {now : ℤ} {s t : ControlServer} {payload : List Char}
  {answer : SpawnAnswer} {n : ℕ}

/-- Only a command `spawn` starts a task. -/
lemma ActiveOperator.onCommand_spawnTask (env : OperatorEnv) (now : ℤ) (o : ActiveOperator)
    {command : Command} (h : ∀ token param, command ≠ .spawn token param) :
    (o.onCommand env now false command).1.spawnTask = o.spawnTask := by
  cases command with
  | spawn token param => exact absurd rfl (h token param)
  | progress value =>
      show (o.reportProgress now value).1.spawnTask = o.spawnTask
      unfold ActiveOperator.reportProgress
      split <;> rfl
  | setEnv _ => rfl
  | again _ => rfl
  | version => rfl
  | temporaryError _ => rfl

namespace ControlServer

/-- **What `OnControl` does**: it is entered with the task as it is; it goes on without a task only
if it returns true, and with one the socket is disabled. -/
lemma onControl_spec (env : OperatorEnv) (now : ℤ) (s : ControlServer) (payload : List Char)
    (answer : SpawnAnswer) :
    (s.onControl env now payload answer).2.entries = s.entries ++ [s.operator.spawnTask] ∧
      (Disabled s → Disabled (s.onControl env now payload answer).2) ∧
      ((s.onControl env now payload answer).1 = true → s.operator.spawnTask = false →
        (s.onControl env now payload answer).2.operator.spawnTask = false) := by
  unfold onControl
  dsimp only
  split
  · split
    · exact ⟨rfl, fun _ _ => rfl, fun h => absurd h Bool.false_ne_true⟩
    · unfold onTaskFinished
      split
      · exact ⟨rfl, fun _ h => absurd h (by simp [ActiveOperator.resetControlChannel]),
          fun _ _ => rfl⟩
      · exact ⟨rfl, fun _ h => absurd h (by simp), fun _ _ => rfl⟩
  · rename_i hcommand
    have htask := ActiveOperator.onCommand_spawnTask env now s.operator hcommand
    refine ⟨rfl, fun hdisabled h => hdisabled ?_, fun _ h => htask.trans h⟩
    rw [← htask]
    exact h

lemma onUdpDatagram_spec (env : OperatorEnv) (now : ℤ) (s : ControlServer) (payload : List Char)
    (answer : SpawnAnswer) :
    (s.onUdpDatagram env now payload answer).2.entries =
        s.entries ++ (if payload = [] then [] else [s.operator.spawnTask]) ∧
      (Disabled s → Disabled (s.onUdpDatagram env now payload answer).2) ∧
      ((s.onUdpDatagram env now payload answer).1 = true → s.operator.spawnTask = false →
        (s.onUdpDatagram env now payload answer).2.operator.spawnTask = false) := by
  unfold onUdpDatagram
  by_cases hempty : payload = []
  · rw [if_pos hempty, if_pos hempty]
    refine ⟨(List.append_nil _).symm, fun _ h => ?_, fun _ _ => rfl⟩
    simp [ActiveOperator.resetControlChannel] at h
  · rw [if_neg hempty, if_neg hempty]
    exact onControl_spec env now s payload answer

/-- Datagrams that are received: the socket stays disabled while a spawn is pending, and without one
no command is handled during another one. -/
lemma receive_spec (env : OperatorEnv) (now : ℤ) (s : ControlServer) (n : ℕ) :
    (Disabled s → Disabled (s.receive env now n)) ∧
      ∃ new, (s.receive env now n).entries = s.entries ++ new ∧
        (s.operator.spawnTask = false → ∀ task ∈ new, task = false) := by
  induction n generalizing s with
  | zero => exact ⟨id, [], (List.append_nil _).symm, by simp⟩
  | succ n ih =>
      unfold receive
      split
      · exact ⟨id, [], (List.append_nil _).symm, by simp⟩
      · rename_i payload answer queue _
        split
        · obtain ⟨hentries, hdisabled, htask⟩ :=
            onUdpDatagram_spec env now { s with queue } payload answer
          have hfirst : s.operator.spawnTask = false →
              ∀ task ∈ (if payload = [] then [] else [s.operator.spawnTask]), task = false := by
            intro h task hmem
            split at hmem
            · cases hmem
            · rw [List.mem_singleton.mp hmem, h]
          dsimp only
          split
          · rename_i hgoes
            obtain ⟨hdisabled', new, hnew, hfalse⟩ :=
              ih (ControlServer.onUdpDatagram env now { s with queue } payload answer).2
            refine ⟨fun h => hdisabled' (hdisabled h),
              (if payload = [] then [] else [s.operator.spawnTask]) ++ new, ?_, ?_⟩
            · rw [hnew, hentries, List.append_assoc]
            · intro h task hmem
              rcases List.mem_append.mp hmem with hmem | hmem
              · exact hfirst h task hmem
              · exact hfalse (htask hgoes h) task hmem
          · exact ⟨hdisabled, _, hentries, hfirst⟩
        · exact ⟨id, [], (List.append_nil _).symm, by simp⟩

lemma receive_closed (h : s.operator.controlChannel = false) : s.receive env now n = s := by
  cases n with
  | zero => rfl
  | succ n =>
      unfold receive
      split
      · rfl
      · simp [h]

/-- With a spawn that is pending, the next datagram is handled, too; only an empty one is no
command. -/
lemma receiveAll_pending (hopen : s.operator.controlChannel = true)
    (htask : s.operator.spawnTask = true) :
    NotReentered (s.receiveAll env now) ↔ NotReentered s ∧ ∀ d ∈ s.queue.head?, d.1 = [] := by
  unfold receiveAll
  match hqueue : s.queue with
  | [] => simp [receive]
  | (payload, answer) :: queue =>
      have hreceive : s.receive env now (queue.length + 1) =
          if (ControlServer.onUdpDatagram env now { s with queue } payload answer).1 then
            (ControlServer.onUdpDatagram env now { s with queue } payload answer).2.receive env now
              queue.length
          else (ControlServer.onUdpDatagram env now { s with queue } payload answer).2 := by
        rw [receive]
        simp only [hqueue, hopen, if_true]
      rw [List.length_cons, hreceive]
      by_cases hempty : payload = []
      · rw [onUdpDatagram, if_pos hempty]
        simp [NotReentered, hempty]
      · have hentries := (onUdpDatagram_spec env now { s with queue } payload answer).1
        rw [if_neg hempty] at hentries
        obtain ⟨-, new, hnew, -⟩ := receive_spec env now
          (ControlServer.onUdpDatagram env now { s with queue } payload answer).2 queue.length
        have hreentered : ¬ ∀ d ∈ ((payload, answer) :: queue).head?, d.1 = [] := fun h =>
          hempty (h _ rfl)
        simp only [hreentered, and_false, iff_false]
        intro hnot
        refine Bool.false_ne_true (hnot true ?_).symm
        split
        · rw [hnew, hentries, htask]
          simp
        · rw [hentries, htask]
          simp

lemma receiveAll_notReentered (env : OperatorEnv) (now : ℤ) (hnot : NotReentered s) :
    NotReentered (s.receiveAll env now) ↔ hasCommandWhileSpawning s = false := by
  unfold hasCommandWhileSpawning
  cases hopen : s.operator.controlChannel with
  | false =>
      refine iff_of_true ?_ rfl
      rw [receiveAll, receive_closed hopen]
      exact hnot
  | true =>
      cases htask : s.operator.spawnTask with
      | false =>
          obtain ⟨-, new, hnew, hfalse⟩ := receive_spec env now s s.queue.length
          refine iff_of_true (fun task hmem => ?_) rfl
          rw [receiveAll, hnew] at hmem
          exact (List.mem_append.mp hmem).elim (hnot task) (hfalse htask task)
      | true =>
          rw [receiveAll_pending hopen htask, and_iff_right hnot]
          cases s.queue.head? <;> simp

lemma onTaskFinished_disabled (s : ControlServer) (failed : Bool) :
    Disabled (s.onTaskFinished failed) := by
  unfold onTaskFinished
  split
  · exact fun h => absurd h Bool.false_ne_true
  · exact fun h => absurd h Bool.false_ne_true

/-- The socket is disabled while a spawn is pending, whatever happens. -/
lemma step_disabled {e : ℤ × ControlEvent} (h : Disabled s) (ht : s.step env e = some t) :
    Disabled t := by
  obtain ⟨now, event⟩ := e
  cases event with
  | send payload answer =>
      obtain ⟨-, rfl⟩ := of_guard_not ht
      exact h
  | ready n =>
      obtain ⟨-, rfl⟩ := of_guard ht
      exact (receive_spec env now s n).1 h
  | error =>
      obtain ⟨-, rfl⟩ := of_guard ht
      exact fun h => absurd h Bool.false_ne_true
  | taskFinished failed =>
      obtain ⟨-, rfl⟩ := of_guard ht
      exact onTaskFinished_disabled s failed
  | exit =>
      obtain ⟨-, rfl⟩ := of_guard_not ht
      exact (receive_spec env now s.markExited s.queue.length).1 h
  | delete =>
      obtain ⟨-, rfl⟩ := of_guard_not ht
      exact h

lemma onTaskFinished_entries (s : ControlServer) (failed : Bool) :
    (s.onTaskFinished failed).entries = s.entries := by
  unfold onTaskFinished
  split <;> rfl

/-- **What one event does**: a command is handled while a spawn is pending only if the process
exits. -/
lemma step_notReentered {e : ℤ × ControlEvent} (hdisabled : Disabled s) (hnot : NotReentered s)
    (ht : s.step env e = some t) : NotReentered t ↔ exitsWhileSpawning s e = false := by
  obtain ⟨now, event⟩ := e
  cases event with
  | send payload answer =>
      obtain ⟨-, rfl⟩ := of_guard_not ht
      exact iff_of_true hnot rfl
  | ready n =>
      obtain ⟨hready, rfl⟩ := of_guard ht
      obtain ⟨-, new, hnew, hfalse⟩ := receive_spec env now s n
      have htask : s.operator.spawnTask = false := by
        rw [Bool.eq_false_iff]
        intro htask
        rw [hdisabled htask, Bool.and_false] at hready
        exact Bool.false_ne_true hready
      refine iff_of_true (fun task hmem => ?_) rfl
      rw [hnew] at hmem
      exact (List.mem_append.mp hmem).elim (hnot task) (hfalse htask task)
  | error =>
      obtain ⟨-, rfl⟩ := of_guard ht
      exact iff_of_true hnot rfl
  | taskFinished failed =>
      obtain ⟨-, rfl⟩ := of_guard ht
      refine iff_of_true ?_ rfl
      rw [NotReentered, onTaskFinished_entries]
      exact hnot
  | exit =>
      obtain ⟨-, rfl⟩ := of_guard_not ht
      exact receiveAll_notReentered (s := s.markExited) env now hnot
  | delete =>
      obtain ⟨-, rfl⟩ := of_guard_not ht
      exact iff_of_true hnot rfl

lemma spawnError_of_exited (env : OperatorEnv) {o : ActiveOperator} (hexited : o.exited = true) :
    o.spawnError env ≠ none := by
  unfold ActiveOperator.spawnError
  split_ifs <;> simp

/-- After the exit of the process, a datagram is handled as `ActiveOperator.onUdpDatagram` says: a
spawn fails at once. -/
lemma onUdpDatagram_operator (env : OperatorEnv) (now : ℤ) (payload : List Char)
    (answer : SpawnAnswer) (hexited : s.operator.exited = true)
    (htask : s.operator.spawnTask = false) :
    (s.onUdpDatagram env now payload answer).2.operator =
        (s.operator.onUdpDatagram env now payload answer.replyFails).1 ∧
      (s.onUdpDatagram env now payload answer).1 = decide (payload ≠ []) ∧
      (s.onUdpDatagram env now payload answer).2.queue = s.queue := by
  unfold onUdpDatagram ActiveOperator.onUdpDatagram
  by_cases hempty : payload = []
  · simp [hempty]
  · rw [if_neg hempty, if_neg hempty]
    unfold onControl
    cases parseControl payload with
    | spawn token param =>
        obtain ⟨message, hmessage⟩ :=
          Option.ne_none_iff_exists'.mp (spawnError_of_exited env hexited)
        have hsame : { s.operator with spawnTask := false } = s.operator := by rw [← htask]
        simp only [hmessage, reduceCtorEq, false_and, if_false, onTaskFinished,
          ActiveOperator.onCommand]
        cases answer.replyFails
        · exact ⟨hsame, by simp [hempty], rfl⟩
        · exact ⟨rfl, by simp [hempty], rfl⟩
    | _ => exact ⟨rfl, by simp [hempty], rfl⟩

/-- A command that is handled after the exit leaves the operator exited, and without a task. -/
lemma onUdpDatagram_exited (env : OperatorEnv) (now : ℤ) (payload : List Char) (replyFails : Bool)
    {o : ActiveOperator} (hexited : o.exited = true) (htask : o.spawnTask = false) :
    (o.onUdpDatagram env now payload replyFails).1.exited = true ∧
      (o.onUdpDatagram env now payload replyFails).1.spawnTask = false := by
  unfold ActiveOperator.onUdpDatagram
  split
  · exact ⟨hexited, rfl⟩
  · cases parseControl payload with
    | progress value =>
        show (o.reportProgress now value).1.exited = true ∧
          (o.reportProgress now value).1.spawnTask = false
        rw [ActiveOperator.reportProgress, if_pos hexited]
        exact ⟨hexited, htask⟩
    | spawn token param =>
        obtain ⟨message, hmessage⟩ :=
          Option.ne_none_iff_exists'.mp (spawnError_of_exited env hexited)
        simp only [ActiveOperator.onCommand, hmessage]
        split
        · exact ⟨hexited, rfl⟩
        · exact ⟨hexited, htask⟩
    | setEnv _ => exact ⟨hexited, htask⟩
    | again _ => exact ⟨hexited, htask⟩
    | version => exact ⟨hexited, htask⟩
    | temporaryError _ => exact ⟨hexited, htask⟩

lemma receiveAll_closed {o : ActiveOperator} (h : o.controlChannel = false)
    (datagrams : List (List Char × Bool)) : o.receiveAll env now datagrams = (o, []) := by
  cases datagrams with
  | nil => rfl
  | cons d rest => simp [ActiveOperator.receiveAll, h]

/-- **`ReceiveAll` after the exit of the process** does to the operator what
`ActiveOperator.receiveAll` says, if no spawn is pending. -/
theorem receive_refines {n : ℕ} (hexited : s.operator.exited = true)
    (htask : s.operator.spawnTask = false) (hn : s.queue.length ≤ n) :
    (s.receive env now n).operator =
      (s.operator.receiveAll env now (s.queue.map fun d => (d.1, d.2.replyFails))).1 := by
  induction n generalizing s with
  | zero =>
      rw [List.eq_nil_of_length_eq_zero (Nat.le_zero.mp hn)]
      rfl
  | succ n ih =>
      unfold receive
      match hqueue : s.queue with
      | [] => rfl
      | (payload, answer) :: queue =>
          cases hopen : s.operator.controlChannel with
          | false => simp [receiveAll_closed hopen]
          | true =>
              obtain ⟨hoperator, hreturned, hrest⟩ := onUdpDatagram_operator env now
                (s := { s with queue }) payload answer hexited htask
              obtain ⟨hexited', htask'⟩ := onUdpDatagram_exited env now payload
                answer.replyFails hexited htask
              rw [← hoperator] at hexited' htask'
              simp only [if_true, List.map_cons, ActiveOperator.receiveAll, hopen]
              rw [hreturned, ← hoperator]
              by_cases hempty : payload = []
              · have hclosed : (ControlServer.onUdpDatagram env now { s with queue } payload
                    answer).2.operator.controlChannel = false := by
                  rw [onUdpDatagram, if_pos hempty]
                  rfl
                rw [receiveAll_closed hclosed]
                simp [hempty]
              · rw [if_pos (by simpa using hempty)]
                have hle : queue.length ≤ n := by
                  rw [hqueue, List.length_cons] at hn
                  omega
                rw [ih hexited' htask' (by rw [hrest]; exact hle), hrest]

end ControlServer

end Server

/-- **Commands are not handled while a spawn is pending**, in any state of a run, exactly if the
process never exits while one is pending and the next datagram is a command. -/
theorem control_not_reentered_iff (env : OperatorEnv) {o : ActiveOperator} {t : ControlServer}
    {tr : List (ControlServer × (ℤ × ControlEvent))} (hidle : o.spawnTask = false)
    (hrun : Run (ControlServer.step env) { operator := o } tr t) :
    (NotReentered t ∧ ∀ p ∈ tr, NotReentered p.1) ↔
      ∀ p ∈ tr, exitsWhileSpawning p.1 p.2 = false := by
  have hstart : Disabled { operator := o } := fun h =>
    absurd (hidle.symm.trans h) Bool.false_ne_true
  have hdisabled := hrun.invariant (I := Disabled) (C := fun _ _ => True)
    (fun s e t h _ ht => ControlServer.step_disabled h ht) hstart (fun _ _ => trivial)
  have hiff := hrun.invariant_iff (I := fun s => Disabled s ∧ NotReentered s)
    (C := fun s e => exitsWhileSpawning s e = false)
    (fun s e t h ht => (and_iff_right (ControlServer.step_disabled h.1 ht)).trans
      (ControlServer.step_notReentered h.1 h.2 ht))
    ⟨hstart, by simp [NotReentered]⟩
  rw [← hiff]
  constructor
  · rintro ⟨hlast, hall⟩
    exact ⟨⟨hdisabled.1, hlast⟩, fun p hp => ⟨hdisabled.2 p hp, hall p hp⟩⟩
  · rintro ⟨hlast, hall⟩
    exact ⟨hlast.2, fun p hp => (hall p hp).2⟩

/-- A workplace with a translation server. -/
def spawningWorkplace : OperatorEnv := { plainWorkplace with translationSocket := true }

/-- A process that may spawn others. -/
def spawningOperator : ActiveOperator :=
  { ActiveOperator.create 0 (controlledJob 1) { controlledPlan with allowSpawn := true } with
    phase := .started, controlChannel := true }

/-- A spawn is finished, progress is reported, and the process exits. -/
def spawnFinishes : List (ℤ × ControlEvent) :=
  [(0, .send "spawn x".toList .pending), (0, .ready 1), (1, .taskFinished false),
    (1, .send "progress 5".toList .pending), (1, .exit)]

theorem control_not_reentered_finished :
    (final (ControlServer.step spawningWorkplace) { operator := spawningOperator }
      spawnFinishes).map
        (fun t => t.entries) = some [false, false] ∧
      ∀ t, final (ControlServer.step spawningWorkplace) { operator := spawningOperator }
        spawnFinishes = some t → NotReentered t := by
  refine ⟨by decide +kernel, fun t ht => ?_⟩
  exact ((control_not_reentered_iff spawningWorkplace rfl (Run.of_final ht)).mpr
    (by decide +kernel)).1

/-- A spawn is pending, progress is reported, and the process exits. -/
def spawnIsPending : List (ℤ × ControlEvent) :=
  [(0, .send "spawn x".toList .pending), (0, .ready 1), (1, .send "progress 5".toList .pending),
    (1, .exit)]

/-- **`OnControl` is entered while the task is set.** -/
theorem control_reentered :
    ∃ t, final (ControlServer.step spawningWorkplace) { operator := spawningOperator }
        spawnIsPending = some t ∧ t.entries = [false, true] ∧ ¬ NotReentered t := by
  refine ⟨_, rfl, by decide +kernel, fun h => ?_⟩
  exact Bool.false_ne_true (h true (by decide +kernel)).symm

end Workshop.Jobs
