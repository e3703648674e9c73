/-
This file proves when a prompt is answered that a host prints: its text in any letter case at
the end of the output, with colours between its characters and white space behind it.

Bytes of the output are read as characters of one byte each, so that is shown for prompts of
characters that are one byte. Among these a prompt is answered exactly where it has no
control character that reading leaves out and fits the tail with the white space behind it.
-/

import Oryxis.Login.Chunks

namespace Oryxis.Login

open Library List

variable {Regex : Type} (matching : Matching Regex)

/-! ### Prompts in output -/

/-- A complete colour sequence. -/
def IsColour (bytes : List UInt8) : Prop :=
  ∃ parameters, bytes = [0x1b, 0x5b] ++ parameters ++ [0x6d] ∧
    ∀ byte ∈ parameters, 0x30 ≤ byte ∧ byte ≤ 0x3b

/-- The bytes of a text with colours anywhere between its characters. -/
inductive Coloured : List Char → List UInt8 → Prop where
  | nil : Coloured [] []
  | colour {sequence bytes : List UInt8} {text : List Char} (isColour : IsColour sequence)
      (rest : Coloured text bytes) : Coloured text (sequence ++ bytes)
  | letter (c : Char) {bytes : List UInt8} {text : List Char} (rest : Coloured text bytes) :
      Coloured (c :: text) (String.utf8EncodeChar c ++ bytes)

/-- The text of a prompt without the white space behind it, in any letter case. -/
structure IsCopy (prompt copy : List Char) : Prop where
  nonempty : copy ≠ []
  trimmed : trimEnd copy = copy
  sameLetters : matching.toLowercase copy = matching.toLowercase (trimEnd prompt)

/-- Output of any text, a copy of a prompt and white space. -/
structure EndsWithPrompt (prompt copy blanks : List Char) (output : List UInt8) : Prop where
  isCopy : IsCopy matching prompt copy
  isBlank : ∀ c ∈ blanks, isWhitespace c = true
  shown : ∃ front bytes, output = front ++ bytes ∧ EndsOutside front ∧
    Coloured (copy ++ blanks) bytes

/-! ### What is read of a prompt -/

theorem scanEnd_csi_parameters {parameters : List UInt8}
    (all : ∀ byte ∈ parameters, 0x30 ≤ byte ∧ byte ≤ 0x3b) :
    scanEnd .csi (parameters ++ [0x6d]) = .text ∧ stripFrom .csi (parameters ++ [0x6d]) = [] := by
  induction parameters with
  | nil => exact ⟨rfl, rfl⟩
  | cons byte parameters inductionHypothesis =>
    have others := inductionHypothesis fun later member => all later (mem_cons_of_mem _ member)
    have parameter : ¬(0x40 ≤ byte ∧ byte ≤ 0x7e) := by
      rintro ⟨low, -⟩
      have high := UInt8.le_iff_toNat_le.mp (all byte mem_cons_self).2
      have least := UInt8.le_iff_toNat_le.mp low
      exact absurd (Nat.le_trans least high) (by decide)
    rw [cons_append, scanEnd, stripFrom, if_neg parameter, if_neg parameter]
    exact others

theorem stripFrom_colour {sequence : List UInt8} (isColour : IsColour sequence)
    (bytes : List UInt8) : stripFrom .text (sequence ++ bytes) = stripFrom .text bytes := by
  obtain ⟨parameters, rfl, all⟩ := isColour
  obtain ⟨ends, nothing⟩ := scanEnd_csi_parameters all
  have outside : scanEnd .text ([0x1b, 0x5b] ++ parameters ++ [0x6d]) = .text := by
    rw [append_assoc]
    exact ends
  have read : stripFrom .text ([0x1b, 0x5b] ++ parameters ++ [0x6d]) = [] := by
    rw [append_assoc]
    exact nothing
  rw [stripFrom_append outside, read, nil_append]

variable {c : Char}

theorem utf8EncodeChar_ascii (ascii : c.toNat < 0x80) :
    String.utf8EncodeChar c = [c.toNat.toUInt8] := by
  have value : c.val.toNat ≤ 127 := Nat.le_of_lt_succ ascii
  rw [String.utf8EncodeChar, if_pos value]
  rfl

theorem letterOf_ascii (ascii : c.toNat < 0x80) :
    letterOf c.toNat.toUInt8 = if isKept c then [c] else [] := by
  have value : c.toNat.toUInt8.toNat = c.toNat := by
    rw [Nat.toUInt8_eq, UInt8.toNat_ofNat']
    omega
  have back : Char.ofNat c.toNat.toUInt8.toNat = c := by rw [value, Char.ofNat_toNat]
  have blank : c.toNat.toUInt8 = 0x0d ∨ c.toNat.toUInt8 = 0x0a ∨ c.toNat.toUInt8 = 0x09 ↔
      c = '\r' ∨ c = '\n' ∨ c = '\t' := by
    simp only [← UInt8.toNat_inj, value, ← Char.toNat_inj]
    rfl
  have control : c.toNat.toUInt8 < 0x20 ∨ c.toNat.toUInt8 = 0x7f ↔
      ¬(0x20 ≤ c.toNat ∧ c.toNat ≠ 0x7f ∧ c.toNat < 0x100) := by
    rw [UInt8.lt_iff_toNat_lt, ← UInt8.toNat_inj, value]
    have low : (0x20 : UInt8).toNat = 0x20 := rfl
    have delete : (0x7f : UInt8).toNat = 0x7f := rfl
    omega
  have kept : isKept c = true ↔ (c = '\r' ∨ c = '\n' ∨ c = '\t') ∨
      (0x20 ≤ c.toNat ∧ c.toNat ≠ 0x7f ∧ c.toNat < 0x100) := by
    simp only [isKept, Bool.or_eq_true, Bool.and_eq_true, decide_eq_true_eq, or_assoc, and_assoc]
  rw [letterOf, back]
  by_cases isBlank : c = '\r' ∨ c = '\n' ∨ c = '\t'
  · rw [if_pos (blank.mpr isBlank), if_pos (kept.mpr (.inl isBlank))]
  · rw [if_neg (mt blank.mp isBlank)]
    by_cases isText : 0x20 ≤ c.toNat ∧ c.toNat ≠ 0x7f ∧ c.toNat < 0x100
    · rw [if_neg (mt control.mp (not_not.mpr isText)), if_pos (kept.mpr (.inr isText))]
    · rw [if_pos (control.mpr isText), if_neg (mt kept.mp (not_or.mpr ⟨isBlank, isText⟩))]

variable {bytes : List UInt8}

theorem stripFrom_coloured {text : List Char} (coloured : Coloured text bytes)
    (ascii : ∀ c ∈ text, c.toNat < 0x80) (noEscape : ∀ c ∈ text, c.toNat ≠ 0x1b) :
    stripFrom .text bytes = text.filter isKept := by
  induction coloured with
  | nil => rfl
  | colour isColour rest inductionHypothesis =>
    rw [stripFrom_colour isColour, inductionHypothesis ascii noEscape]
  | letter c rest inductionHypothesis =>
    have first := ascii c mem_cons_self
    have plain : ¬c.toNat.toUInt8 = 0x1b := by
      intro same
      have value := congrArg UInt8.toNat same
      rw [Nat.toUInt8_eq, UInt8.toNat_ofNat'] at value
      have other := noEscape c mem_cons_self
      have sequence : (0x1b : UInt8).toNat = 0x1b := rfl
      omega
    have others := inductionHypothesis (fun later member => ascii later (mem_cons_of_mem _ member))
      fun later member => noEscape later (mem_cons_of_mem _ member)
    rw [utf8EncodeChar_ascii first, singleton_append, stripFrom_text_cons, if_neg plain,
      letterOf_ascii first, others, filter_cons]
    split_ifs <;> rfl

theorem ne_escape_of_isKept (kept : isKept c = true) : c.toNat ≠ 0x1b := by
  intro same
  have escape : c = Char.ofNat 0x1b := by rw [← same, Char.ofNat_toNat]
  rw [escape] at kept
  exact absurd kept (by decide)

theorem ne_escape_of_isWhitespace (white : isWhitespace c = true) :
    c.toNat ≠ 0x1b := by
  intro same
  have escape : c = Char.ofNat 0x1b := by rw [← same, Char.ofNat_toNat]
  rw [escape] at white
  exact absurd white (by decide)

variable {copy blanks : List Char}

/-- What is read of a copy whose characters are all left. -/
theorem stripFrom_prompt (coloured : Coloured (copy ++ blanks) bytes)
    (ascii : ∀ c ∈ copy ++ blanks, c.toNat < 0x80) (isBlank : ∀ c ∈ blanks, isWhitespace c = true)
    (kept : ∀ c ∈ copy, isKept c = true) :
    stripFrom .text bytes = copy ++ blanks.filter isKept := by
  have noEscape : ∀ c ∈ copy ++ blanks, c.toNat ≠ 0x1b := fun c member =>
    (mem_append.mp member).elim (fun inCopy => ne_escape_of_isKept (kept c inCopy))
      fun inBlanks => ne_escape_of_isWhitespace (isBlank c inBlanks)
  rw [stripFrom_coloured coloured ascii noEscape, filter_append, filter_eq_self.mpr kept]

/-! ### The tail -/

theorem trimTail_eq_keepLast (text : List Char) : trimTail text = keepLast tailCap text := by
  induction text with
  | nil => rfl
  | cons c rest inductionHypothesis => rw [trimTail, keepLast, inductionHypothesis]

theorem utf8Len_keepLast_le (keep : Nat) (text : List Char) :
    utf8Len (keepLast keep text) ≤ keep := by
  induction text with
  | nil => exact Nat.zero_le _
  | cons c rest inductionHypothesis =>
    rw [keepLast]
    split_ifs with fits
    · exact fits
    · exact inductionHypothesis

/-- What stands before a text that does not fit is not kept. -/
theorem keepLast_append_of_lt {keep : Nat} {more : List Char} (long : keep < utf8Len more)
    (seen : List Char) : keepLast keep (seen ++ more) = keepLast keep more := by
  induction seen with
  | nil => rfl
  | cons c seen inductionHypothesis =>
    have longer : ¬utf8Len (c :: (seen ++ more)) ≤ keep := by
      have whole := utf8Len_le_of_isSuffix (suffix_append (c :: seen) more)
      rw [cons_append] at whole
      omega
    rw [cons_append, keepLast, if_neg longer, inductionHypothesis]

theorem trimEnd_append_of_blank (text : List Char) (isBlank : ∀ c ∈ blanks, isWhitespace c = true) :
    trimEnd (text ++ blanks) = trimEnd text := by
  induction blanks using List.reverseRecOn with
  | nil => rw [append_nil]
  | append_singleton blanks last inductionHypothesis =>
    have white := isBlank last (mem_append_right _ mem_cons_self)
    rw [← append_assoc, trimEnd, rdropWhile_concat_pos _ _ _ white]
    exact inductionHypothesis fun c member => isBlank c (mem_append_left _ member)

theorem trimEnd_append_of_trimmed (text : List Char) (nonempty : copy ≠ [])
    (trimmed : trimEnd copy = copy) : trimEnd (text ++ copy) = text ++ copy := by
  refine rdropWhile_eq_self_iff.mpr fun some => ?_
  rw [getLast_append_of_ne_nil some nonempty]
  exact rdropWhile_eq_self_iff.mp trimmed nonempty

theorem length_trimEnd_le (text : List Char) : (trimEnd text).length ≤ text.length :=
  (List.rdropWhile_prefix _ text).length_le

/-- The end of what does not fit has less of the copy than all of it. -/
theorem length_trimEnd_of_suffix {last : List Char} (nonempty : copy ≠ [])
    (isBlank : ∀ c ∈ blanks, isWhitespace c = true) (ends : last <:+ copy ++ blanks)
    (less : last ≠ copy ++ blanks) : (trimEnd last).length < copy.length := by
  obtain ⟨front, whole⟩ := ends
  rcases append_eq_append_iff.mp whole with ⟨middle, isCopy, isLast⟩ | ⟨middle, -, inBlanks⟩
  · have some : front ≠ [] := fun none => less (by rw [← whole, none, nil_append])
    have shorter := length_trimEnd_le middle
    have positive := length_pos_of_ne_nil some
    rw [isLast, trimEnd_append_of_blank _ isBlank, isCopy, length_append]
    omega
  · have nothing : trimEnd last = [] := by
      have white : ∀ c ∈ last, isWhitespace c = true := fun c member =>
        isBlank c (inBlanks ▸ mem_append_right _ member)
      exact (trimEnd_append_of_blank [] white)
    rw [nothing]
    exact length_pos_of_ne_nil nonempty

/-- A copy is at the end of the tail exactly where it fits with the white space behind it. -/
theorem isSuffix_tail_iff (nonempty : copy ≠ []) (trimmed : trimEnd copy = copy)
    (isBlank : ∀ c ∈ blanks, isWhitespace c = true) (seen : List Char) :
    copy.map lowerLatin <:+ (trimEnd (trimTail (seen ++ (copy ++ blanks)))).map lowerLatin ↔
      utf8Len (copy ++ blanks) ≤ tailCap := by
  rw [trimTail_eq_keepLast]
  constructor
  · intro matched
    by_contra long
    rw [keepLast_append_of_lt (Nat.lt_of_not_le long)] at matched
    have less : keepLast tailCap (copy ++ blanks) ≠ copy ++ blanks := fun same =>
      long (same ▸ utf8Len_keepLast_le tailCap _)
    have shorter := length_trimEnd_of_suffix nonempty isBlank (keepLast_isSuffix _ _) less
    have length := matched.length_le
    rw [length_map, length_map] at length
    omega
  · intro fits
    obtain ⟨front, kept⟩ := isSuffix_keepLast fits (suffix_append seen _)
    rw [← kept, ← append_assoc, trimEnd_append_of_blank _ isBlank,
      trimEnd_append_of_trimmed _ nonempty trimmed, map_append]
    exact suffix_append _ _

/-! ### What has been printed -/

variable {matching}

theorem isKept_of_mem_printed {session : Session Regex}
    (kept : ∀ c ∈ session.printed, isKept c = true) (inputs : List Input) :
    ∀ c ∈ (session.run matching inputs).printed, isKept c = true := by
  induction inputs generalizing session with
  | nil => exact kept
  | cons input inputs inductionHypothesis =>
    refine inductionHypothesis ?_
    cases input with
    | feed output =>
      exact fun c member => (mem_append.mp member).elim (kept c) isKept_of_mem_stripFrom
    | poll now =>
      have printed : (session.polled matching now).printed = session.printed ∨
          (session.polled matching now).printed = [] := by
        rw [Session.polled]
        split
        · exact .inl rfl
        · dsimp only
          split_ifs
          · exact .inr rfl
          · exact .inl rfl
      rcases printed with same | none
      · rw [Session.take, same]
        exact kept
      · rw [Session.take, none]
        exact fun c member => by cases member

theorem isKept_of_range (low : 0x20 ≤ c.toNat) (high : c.toNat < 0x100) (delete : c.toNat ≠ 0x7f) :
    isKept c = true := by
  rw [isKept, decide_eq_true low, decide_eq_true high, decide_eq_true delete]
  exact Bool.or_true _

theorem isKept_lowerLatin (c : Char) : isKept (lowerLatin c) = isKept c := by
  rw [lowerLatin]
  split_ifs with upper
  · have valid : (c.toNat + 0x20).isValidChar := .inl (by omega)
    have value : (Char.ofNat (c.toNat + 0x20)).toNat = c.toNat + 0x20 := by
      rw [Char.ofNat, dif_pos valid]
      rfl
    have upperKept : isKept c = true := isKept_of_range (by omega) (by omega) (by omega)
    rw [upperKept]
    exact isKept_of_range (by rw [value]; omega) (by rw [value]; omega) (by rw [value]; omega)
  · rfl

variable {script : List LoginStep} {index : Nat} {step : LoginStep}

theorem getElem?_compileSteps {steps : List (CompiledStep Regex)} {first : Nat}
    (compiled : compileSteps matching first script = .ok steps)
    (isStep : script[index]? = some step) :
    ∃ compiledStep, compileStep matching step = some compiledStep ∧
      steps[index]? = some compiledStep := by
  induction script generalizing first index steps with
  | nil => cases isStep
  | cons head rest inductionHypothesis =>
    rw [compileSteps] at compiled
    cases isHead : compileStep matching head with
    | none =>
      rw [isHead] at compiled
      cases compiled
    | some compiledHead =>
      rw [isHead] at compiled
      cases isRest : compileSteps matching (first + 1) rest with
      | error error =>
        rw [isRest] at compiled
        cases compiled
      | ok others =>
        rw [isRest] at compiled
        cases compiled
        cases index with
        | zero =>
          cases isStep
          exact ⟨compiledHead, isHead, rfl⟩
        | succ index =>
          rw [getElem?_cons_succ] at isStep
          show ∃ compiledStep, _ ∧ others[index]? = some compiledStep
          exact inductionHypothesis isRest isStep

variable {runner : ScriptRunner Regex}

/-- A step of the script is armed as it was compiled. -/
theorem exists_step_of_new {window start : Nat}
    (compiled : ScriptRunner.new matching script window start = .ok runner) {prompt : List Char}
    (armed : script[index]? = some step) (expects : step.expect = some (.suffix prompt)) :
    ∃ compiledStep, runner.steps[index]? = some compiledStep ∧
      compiledStep.expect = some (.suffix (matching.toLowercase (trimEnd prompt))) ∧
      compiledStep.send = step.send := by
  rw [ScriptRunner.new] at compiled
  cases isSteps : compileSteps matching 0 script with
  | error error =>
    rw [isSteps] at compiled
    cases compiled
  | ok steps =>
    rw [isSteps] at compiled
    cases compiled
    obtain ⟨compiledStep, isStep, found⟩ := getElem?_compileSteps isSteps armed
    refine ⟨compiledStep, found, ?_⟩
    rw [compileStep, expects] at isStep
    cases isStep
    exact ⟨rfl, rfl⟩

/-- The step of a prompt sends for a tail exactly when the prompt is at the end of it. -/
theorem poll_eq_send_iff (matching : Matching Regex) {step : CompiledStep Regex}
    {pattern : List Char} {now : Nat} (running : runner.done = false)
    (armed : runner.steps[runner.idx]? = some step) (expects : step.expect = some (.suffix pattern))
    (inWindow : now < runner.deadline) (inTime : now < runner.stepDeadline) (tail : List Char) :
    (ScriptRunner.poll matching now { runner with tail := tail }).1 =
        some (.send runner.idx step.send) ↔
      pattern <:+ matching.toLowercase (trimEnd tail) := by
  have first : runner.steps.drop runner.idx = step :: runner.steps.drop (runner.idx + 1) := by
    obtain ⟨within, isStep⟩ := List.getElem?_eq_some_iff.mp armed
    rw [drop_eq_getElem_cons within, isStep]
  have polled : ScriptRunner.poll matching now { runner with tail := tail } = _ :=
    ScriptRunner.poll_of_some matching running armed
  rw [polled, if_neg (Nat.not_le.mpr inWindow), if_neg (Nat.not_le.mpr inTime),
    ScriptRunner.fire, first, ScriptRunner.hitFrom, expects,
    Option.all_some, CompiledPattern.matches, ← isSuffixOf_iff_suffix]
  by_cases hit : pattern.isSuffixOf (matching.toLowercase (trimEnd tail)) = true
  · rw [if_pos hit]
    exact iff_of_true rfl hit
  · rw [if_neg hit]
    refine iff_of_false ?_ hit
    split_ifs with optional
    · -- A later step is another one.
      cases later : ScriptRunner.hitFrom matching (trimEnd tail) (runner.idx + 1)
          (runner.steps.drop (runner.idx + 1)) with
      | none =>
        intro same
        cases same
      | some sent =>
        obtain ⟨offset, _, isIndex, _, _⟩ := ScriptRunner.hitFrom_eq_some matching later
        intro same
        have index := RunnerAction.send.inj (Option.some.inj same)
        omega
    · intro same
      cases same

/-! ### Main result -/

/-- A prompt whose copy and white space are one byte a character is answered in time exactly where
reading leaves its characters and they fit the tail. -/
theorem prompt_sent_iff (lowers : LowersLatin matching) {script : List LoginStep}
    {window start : Nat} {runner : ScriptRunner Regex}
    (compiled : ScriptRunner.new matching script window start = .ok runner) (inputs : List Input)
    {session : Session Regex} (isSession : session = (Session.start runner start).run matching inputs)
    (running : session.runner.done = false) {step : LoginStep} {prompt : List Char}
    (armed : script[session.runner.idx]? = some step) (expects : step.expect = some (.suffix prompt))
    {now : Nat} (inWindow : now < session.runner.deadline)
    (inTime : now < session.runner.stepDeadline) {copy blanks : List Char} {output : List UInt8}
    (ends : EndsWithPrompt matching prompt copy blanks output)
    (ascii : ∀ c ∈ copy ++ blanks, c.toNat < 0x80) :
    ((session.runner.feed output).poll matching now).1 =
        some (.send session.runner.idx step.send) ↔
      (∀ c ∈ copy, isKept c = true) ∧ utf8Len (copy ++ blanks.filter isKept) ≤ tailCap := by
  have kept : Kept matching runner.steps (start + window) session :=
    isSession ▸ (kept_start matching compiled).run inputs
  have printed : ∀ c ∈ session.printed, isKept c = true :=
    isSession ▸ isKept_of_mem_printed (fun c member => by cases member) inputs
  obtain ⟨compiledStep, isStep, pattern, send⟩ := exists_step_of_new compiled armed expects
  rw [← kept.sameSteps] at isStep
  obtain ⟨isCopy, isBlank, front, bytes, rfl, outside, coloured⟩ := ends
  have fed : session.runner.feed (front ++ bytes) = { session.runner with
      tail := trimTail (session.printed ++ stripAnsiLossy (front ++ bytes)) } := by
    rw [ScriptRunner.feed, if_neg (by rw [running]; decide), kept.tail running, trimTail_append]
  have read : stripAnsiLossy (front ++ bytes) =
      stripAnsiLossy front ++ stripFrom .text bytes := stripFrom_append outside bytes
  have tailKept : ∀ c ∈ trimEnd (trimTail (session.printed ++ stripAnsiLossy (front ++ bytes))),
      isKept c = true := fun c member => by
    have inTail := (List.rdropWhile_prefix _ _).subset member
    rw [trimTail_eq_keepLast] at inTail
    exact (mem_append.mp ((keepLast_isSuffix _ _).subset inTail)).elim (printed c)
      isKept_of_mem_stripFrom
  have lowerCopy : matching.toLowercase copy = copy.map lowerLatin :=
    lowers copy fun c member =>
      Nat.lt_trans (ascii c (mem_append_left _ member)) (by decide)
  rw [fed, ← send, poll_eq_send_iff matching running isStep pattern inWindow inTime,
    ← isCopy.sameLetters, lowerCopy, lowers _ fun c member => toNat_lt_of_isKept (tailKept c member)]
  have blankLeft : ∀ c ∈ blanks.filter isKept, isWhitespace c = true := fun c member =>
    isBlank c (mem_of_mem_filter member)
  have fits_iff (copyKept : ∀ c ∈ copy, isKept c = true) :
      copy.map lowerLatin <:+ (trimEnd (trimTail
          (session.printed ++ stripAnsiLossy (front ++ bytes)))).map lowerLatin ↔
        utf8Len (copy ++ blanks.filter isKept) ≤ tailCap := by
    rw [read, stripFrom_prompt coloured ascii isBlank copyKept, ← append_assoc]
    exact isSuffix_tail_iff isCopy.nonempty isCopy.trimmed blankLeft _
  constructor
  · intro matched
    have copyKept : ∀ c ∈ copy, isKept c = true := fun c member => by
      obtain ⟨other, inTail, same⟩ :=
        mem_map.mp (matched.subset (mem_map_of_mem member))
      rw [← isKept_lowerLatin, ← same, isKept_lowerLatin]
      exact tailKept other inTail
    exact ⟨copyKept, (fits_iff copyKept).mp matched⟩
  · rintro ⟨copyKept, fits⟩
    exact (fits_iff copyKept).mpr fits

/-! ### Cases -/

/-- A script that waits for one prompt. -/
def waitsFor (prompt : List Char) : List LoginStep :=
  [⟨some (.suffix prompt), .secret .connectionPassword, 0, false⟩]

def waitingRunner (prompt : List Char) : ScriptRunner (List Char) :=
  ⟨[⟨some (.suffix (prompt.map lowerLatin)), .secret .connectionPassword, 10000, false⟩], 0, [],
    60000, 10000, false⟩

/-- "PASSword:" with its first letter in bold and a space behind it. -/
theorem prompt_sent_bold :
    (((waitingRunner "Password:".toList).feed
        ([0x0a] ++ (String.utf8EncodeChar 'P' ++ ([0x1b, 0x5b, 0x6d] ++
          ("ASSword: ".toList.flatMap String.utf8EncodeChar))))).poll latin 5).1 =
      some (.send 0 (.secret .connectionPassword)) := by
  have coloured : Coloured ("PASSword:".toList ++ " ".toList)
      (String.utf8EncodeChar 'P' ++ ([0x1b, 0x5b, 0x6d] ++
        ("ASSword: ".toList.flatMap String.utf8EncodeChar))) := by
    refine .letter 'P' (.colour ⟨[], rfl, by intro byte none; cases none⟩ ?_)
    exact .letter 'A' (.letter 'S' (.letter 'S' (.letter 'w' (.letter 'o' (.letter 'r'
      (.letter 'd' (.letter ':' (.letter ' ' .nil))))))))
  have compiled : ScriptRunner.new latin (waitsFor "Password:".toList) 60000 0 =
      .ok (waitingRunner "Password:".toList) := by rfl
  have ends : EndsWithPrompt latin "Password:".toList "PASSword:".toList " ".toList _ :=
    ⟨⟨by decide, by decide, by decide⟩, all_eq_true.mp (by decide), [0x0a], _, rfl, rfl,
      coloured⟩
  have armed : (waitsFor "Password:".toList)[0]? =
      some ⟨some (.suffix "Password:".toList), .secret .connectionPassword, 0, false⟩ := rfl
  have isSession : Session.start (waitingRunner "Password:".toList) 0 =
      (Session.start (waitingRunner "Password:".toList) 0).run latin [] := rfl
  have ascii : ("PASSword:".toList ++ " ".toList).all (fun c => decide (c.toNat < 0x80)) = true := by
    decide
  exact (prompt_sent_iff (fun _ _ => rfl) compiled [] isSession rfl armed rfl
    (show 5 < 60000 by decide) (show 5 < 10000 by decide) ends
    fun c member => of_decide_eq_true (all_eq_true.mp ascii c member)).mpr
    ⟨all_eq_true.mp (by decide), by decide⟩

/-- A prompt with a letter of two bytes is not answered. -/
theorem prompt_not_sent_accented :
    ¬((((waitingRunner "Contraseña:".toList).feed
        ("Contraseña:".toList.flatMap String.utf8EncodeChar)).poll latin 5).1 =
      some (.send 0 (.secret .connectionPassword))) := by
  decide +kernel

end Oryxis.Login
