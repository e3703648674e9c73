/-
This file is the mirror beside the editor on every stream.

Two things are kept by every step. The loose one holds of a tainted mirror as well: outside
a paste the mirror reads the same key as the editor, but it may have given up a sequence that
is too long; inside a paste it may have lost the editor, and finds it again at the closing
sequence. The close one holds of a mirror that is not tainted: it has the editor's line.
-/

import Oryxis.Terminal.Mirror

namespace Oryxis.Terminal.Input

open Library List

/-! ### Bytes of text -/

/-- The mirror has read a byte of text. -/
structure Reads (tracker after : InputTracker) (decoded : List UInt8 × List Char) : Prop where
  pendingUtf8 : after.pendingUtf8 = decoded.1
  scan : after.scan = tracker.scan
  inPaste : after.inPaste = tracker.inPaste
  params : after.params = tracker.params
  types : Types tracker after decoded.2

/-- The bytes of what is unfinished are none of ASCII. -/
def Unfinished (pending : List UInt8) : Prop := ∀ byte ∈ pending, 0x80 ≤ byte.toNat

theorem settle_fst (bytes : List UInt8) : (settle bytes).1 = [] ∨ (settle bytes).1 = bytes := by
  rw [settle]
  split
  · exact .inl rfl
  · split_ifs
    · exact .inr rfl
    · exact .inl rfl

variable {bytes : List UInt8}

theorem unfinished_settle (unfinished : Unfinished bytes) :
    Unfinished (settle bytes).1 := by
  rcases settle_fst bytes with none | same
  · rw [none]
    exact forall_mem_nil _
  · rw [same]
    exact unfinished

variable {pending : List UInt8} {byte : UInt8}

/-- The bytes that a byte is settled with. -/
theorem exists_settled (unfinished : Unfinished pending) (long : 0x80 ≤ byte.toNat) :
    ∃ bytes, decodeByte pending byte = settle bytes ∧ Unfinished bytes := by
  rw [decodeByte]
  split_ifs
  · refine ⟨_, rfl, fun other member => ?_⟩
    rcases mem_append.mp member with before | last
    · exact unfinished other before
    · exact mem_singleton.mp last ▸ long
  · exact ⟨_, rfl, fun other member => mem_singleton.mp member ▸ long⟩

theorem unfinished_decodeByte (unfinished : Unfinished pending) (byte : UInt8) :
    Unfinished (decodeByte pending byte).1 := by
  by_cases ascii : byte.toNat < 0x80
  · rw [decodeByte_ascii pending ascii]
    exact forall_mem_nil _
  · obtain ⟨bytes, settled, long⟩ := exists_settled unfinished (Nat.not_lt.mp ascii)
    rw [settled]
    exact unfinished_settle long

/-- A letter of ASCII comes of its own byte only. -/
theorem notMem_decodeByte (unfinished : Unfinished pending) (other : byte ≠ carriageReturn) :
    '\r' ∉ (decodeByte pending byte).2 := by
  by_cases ascii : byte.toNat < 0x80
  · rw [decodeByte_ascii pending ascii, mem_singleton]
    intro same
    have code := congrArg Char.toNat same
    rw [toNat_ofNat_byte] at code
    exact other (UInt8.toNat_inj.mp code.symm)
  · obtain ⟨bytes, settled, long⟩ := exists_settled unfinished (Nat.not_lt.mp ascii)
    rw [settled, settle]
    intro member
    split at member
    · cases member
    · split_ifs at member
      · cases member
      · cases decoded : fromUtf8 bytes with
        | none =>
          rw [decoded] at member
          cases member
        | some text =>
          rw [decoded, Option.getD_some] at member
          have isByte : carriageReturn ∈ bytes := by
            rw [fromUtf8_eq_some_iff.mp decoded, utf8Bytes, mem_flatMap]
            exact ⟨_, member, by decide⟩
          exact absurd (long _ isByte) (by decide)

variable {tracker after : InputTracker}

theorem types_self {final : InputTracker} {text : List Char} (types : Types after final text)
    (chars : after.chars = tracker.chars) (cursor : after.cursor = tracker.cursor)
    (tainted : after.tainted = tracker.tainted) :
    Types tracker final text := by
  intro clean
  obtain ⟨cleanAfter, follows⟩ := types clean
  exact ⟨tainted ▸ cleanAfter, fun line mirrors =>
    follows line ⟨chars.trans mirrors.chars, cursor.trans mirrors.cursor⟩⟩

/-- A byte that goes on with an unfinished letter. -/
theorem reads_continuing (unfinished : Unfinished tracker.pendingUtf8)
    (continuing : tracker.pendingUtf8 ≠ [] ∧ byte &&& 0xc0 = 0x80) :
    Reads tracker (tracker.pushPending byte).tryFlushUtf8
      (decodeByte tracker.pendingUtf8 byte) := by
  obtain ⟨first, others, pending⟩ := exists_cons_of_ne_nil continuing.1
  have begun : (tracker.pushPending byte).pendingUtf8 = first :: (others ++ [byte]) := by
    rw [InputTracker.pushPending, pending]
    rfl
  have long : 0x80 ≤ first.toNat := unfinished first (pending ▸ mem_cons_self)
  obtain ⟨kept, scan, inPaste, params, types⟩ := tryFlushUtf8_spec begun long
  have decoded : decodeByte tracker.pendingUtf8 byte = settle (first :: (others ++ [byte])) := by
    rw [decodeByte, if_pos (show _ ∧ Continues byte from continuing), pending]
    rfl
  rw [decoded]
  exact ⟨kept, scan, inPaste, params, types_self types rfl rfl rfl⟩

/-- A byte that does not. -/
theorem reads_type (beginning : ¬ (tracker.pendingUtf8 ≠ [] ∧ byte &&& 0xc0 = 0x80)) :
    Reads tracker (tracker.clearPending.type byte) (decodeByte tracker.pendingUtf8 byte) := by
  rw [InputTracker.type]
  by_cases ascii : byte < 0x80
  · rw [if_pos ascii, decodeByte_ascii _ (UInt8.lt_iff_toNat_lt.mp ascii)]
    obtain ⟨keeps, types⟩ :=
      types_insert tracker.clearPending (Char.ofNat byte.toNat)
    exact ⟨keeps.pendingUtf8, keeps.scan, keeps.inPaste, keeps.params,
      types_self types rfl rfl rfl⟩
  · rw [if_neg ascii]
    have long : 0x80 ≤ byte.toNat :=
      Nat.not_lt.mp fun low => ascii (UInt8.lt_iff_toNat_lt.mpr low)
    have begun : (tracker.clearPending.pushPending byte).pendingUtf8 = byte :: [] := rfl
    obtain ⟨kept, scan, inPaste, params, types⟩ := tryFlushUtf8_spec begun long
    have decoded : decodeByte tracker.pendingUtf8 byte = settle [byte] :=
      if_neg (show ¬ (_ ∧ Continues byte) from beginning)
    rw [decoded]
    exact ⟨kept, scan, inPaste, params, types_self types rfl rfl rfl⟩

/-! ### What is kept -/

/-- What holds of the mirror alone. -/
structure Sound (tracker : InputTracker) : Prop where
  unfinished : Unfinished tracker.pendingUtf8
  scanning : tracker.scan ≠ .ground → tracker.pendingUtf8 = []
  params : esc ∉ tracker.params

/-- Outside a paste the mirror reads what the editor reads. -/
def Along (tracker : InputTracker) (mode : Mode) : Prop :=
  match tracker.scan with
  | .ground => (∃ pending, mode = .ground pending) ∨
      ∃ params, mode = .csi params ∧ 16 < params.length
  | .esc => mode = .esc
  | .csi => mode = .csi tracker.params
  | .ss3 => mode = .ss3

/-- The editor has got these bytes last, and they begin a sequence or are text. -/
def Got (bytes : List UInt8) (reading mode : Mode) : Prop :=
  mode = reading ∨ (∃ pending, mode = .ground pending) ∨
    ∃ raw, mode = .paste raw ∧ bytes <:+ raw

/-- Inside a paste the editor may be anywhere, but it has got the bytes of the sequence that the
mirror reads. -/
def Behind (tracker : InputTracker) (mode : Mode) : Prop :=
  match tracker.scan with
  | .ground => True
  | .ss3 => True
  | .esc => Got [esc] .esc mode
  | .csi => Got (esc :: 0x5b :: tracker.params) (.csi tracker.params) mode

structure Loosely (tracker : InputTracker) (mode : Mode) : Prop where
  outside : tracker.inPaste = false → Along tracker mode
  inside : tracker.inPaste = true → Behind tracker mode

/-- The key that the mirror reads. -/
def InputTracker.mode (tracker : InputTracker) : Mode :=
  match tracker.scan with
  | .ground => .ground tracker.pendingUtf8
  | .esc => .esc
  | .csi => .csi tracker.params
  | .ss3 => .ss3

/-- The bytes of the sequence that the mirror reads. -/
def InputTracker.begun (tracker : InputTracker) : List UInt8 :=
  match tracker.scan with
  | .ground => []
  | .esc => [esc]
  | .csi => esc :: 0x5b :: tracker.params
  | .ss3 => [esc, 0x4f]

/-- The mirror has the editor's line; in a paste, with what came of it. -/
inductive Closely (tracker : InputTracker) (editor : Editor) : Prop where
  | typing (line : Line) (outside : tracker.inPaste = false) (mode : editor.mode = tracker.mode)
      (isLine : editor.line = some line) (mirrors : Mirrors tracker line)
  | pasting (line : Line) (consumed : List UInt8) (inside : tracker.inPaste = true)
      (mode : editor.mode = .paste (consumed ++ tracker.begun)) (isLine : editor.line = some line)
      (noEsc : esc ∉ consumed)
      (unfinished : tracker.scan = .ground → (decodeFrom [] consumed).1 = tracker.pendingUtf8)
      (mirrors : Mirrors tracker (line.insertAll (pasted consumed)))

/-- What holds of the mirror beside the editor. -/
structure Agrees (tracker : InputTracker) (editor : Editor) : Prop where
  sound : Sound tracker
  loosely : Loosely tracker editor.mode
  closely : tracker.tainted = false → Closely tracker editor

theorem agrees_start : Agrees .new .fresh where
  sound := ⟨forall_mem_nil _, fun _ => rfl, not_mem_nil⟩
  loosely := ⟨fun _ => .inl ⟨[], rfl⟩, fun inside => by cases inside⟩
  closely := fun _ => .typing ⟨[], []⟩ rfl rfl rfl ⟨rfl, rfl⟩

/-! ### Between keys -/

/-- A byte that is a key, or begins one. -/
def Control (byte : UInt8) : Prop := byte ≤ 0x1f ∨ byte = 0x7f
  deriving Decidable

theorem control_lt (control : Control byte) : byte.toNat < 0x80 := by
  rcases control with low | rfl
  · exact Nat.lt_of_le_of_lt (UInt8.le_iff_toNat_le.mp low) (by decide)
  · decide

theorem not_continuing (ascii : byte.toNat < 0x80) (pending : List UInt8) :
    ¬ (pending ≠ [] ∧ byte &&& 0xc0 = 0x80) := by
  rintro ⟨-, continuing⟩
  have high := (continues_iff byte).mp continuing
  omega

theorem control_enter (isEnter : byte = carriageReturn ∨ byte = lineFeed) :
    Control byte := by
  rcases isEnter with rfl | rfl
  · exact .inl (by decide)
  · exact .inl (by decide)

theorem control_esc : Control esc := .inl (by decide)

/-- The mirror at a key. -/
theorem ground_control (outside : tracker.inPaste = false) (control : Control byte) :
    tracker.ground byte = tracker.clearPending.key byte := by
  rw [InputTracker.ground, if_neg (not_continuing (control_lt control) _), outside]
  rfl

/-- The mirror at a byte of text. -/
theorem reads_ground (sound : Sound tracker) (outside : tracker.inPaste = false)
    (text : ¬ Control byte) :
    (tracker.ground byte).2 = [] ∧
      Reads tracker (tracker.ground byte).1 (decodeByte tracker.pendingUtf8 byte) := by
  rw [InputTracker.ground]
  by_cases continuing : tracker.pendingUtf8 ≠ [] ∧ byte &&& 0xc0 = 0x80
  · rw [if_pos continuing]
    exact ⟨rfl, reads_continuing sound.unfinished continuing⟩
  · have isText : tracker.clearPending.key byte = (tracker.clearPending.type byte, []) := by
      have no : ∀ other : UInt8, Control other → byte ≠ other := by
        rintro other control rfl
        exact text control
      rw [InputTracker.key, if_neg (fun isEnter => text (control_enter isEnter)),
        if_neg (no _ control_esc),
        if_neg (by
          rintro (isDel | isBackspace)
          · exact text (.inr isDel)
          · exact no 0x08 (.inl (by decide)) isBackspace)]
      iterate 12 rw [if_neg (no _ (.inl (by decide)))]
      exact if_neg fun low => text (.inl low)
    rw [if_neg continuing, outside, if_neg (by decide), isText]
    exact ⟨rfl, reads_type continuing⟩

variable {editor : Editor}

/-- The editor at a key other than Enter, Ctrl+C and the escape byte. -/
theorem step_control (mode : editor.mode = .ground pending) (control : Control byte)
    (notEnter : ¬ (byte = carriageReturn ∨ byte = lineFeed)) (notAbort : byte ≠ 0x03)
    (notEsc : byte ≠ esc) : editor.step byte = (editor.press (keyOf byte), none) := by
  rw [Editor.step, mode]
  dsimp only
  rw [if_neg notEnter, if_neg notAbort, if_neg notEsc]
  exact if_pos control

/-- The editor at a byte of text. -/
theorem step_text (mode : editor.mode = .ground pending) (text : ¬ Control byte) :
    editor.step byte = (⟨.ground (decodeByte pending byte).1,
      editor.line.map (·.insertAll (decodeByte pending byte).2)⟩, none) := by
  rw [Editor.step, mode]
  dsimp only
  rw [if_neg (fun isEnter => text (control_enter isEnter)),
    if_neg (by
      rintro rfl
      exact text (.inl (by decide))),
    if_neg (by
      rintro rfl
      exact text control_esc)]
  exact if_neg text

theorem Sound.of_reads (sound : Sound tracker) (ground : tracker.scan = .ground)
    (reads : Reads tracker after (decodeByte tracker.pendingUtf8 byte)) : Sound after where
  unfinished := by
    rw [reads.pendingUtf8]
    exact unfinished_decodeByte sound.unfinished byte
  scanning := fun notGround => absurd (reads.scan.trans ground) notGround
  params := by
    rw [reads.params]
    exact sound.params

/-- A mirror that stands between keys with nothing unfinished. -/
theorem Sound.of_ground (pending : tracker.pendingUtf8 = []) (params : esc ∉ tracker.params) :
    Sound tracker where
  unfinished := by
    rw [pending]
    exact forall_mem_nil _
  scanning := fun _ => pending
  params := params

/-- Both stand between keys. -/
theorem loosely_ground {mode : Mode} (outside : tracker.inPaste = false)
    (scan : tracker.scan = .ground) (isMode : mode = .ground pending) : Loosely tracker mode where
  outside := fun _ => by
    rw [Along, scan]
    exact .inl ⟨pending, isMode⟩
  inside := fun inside => by
    rw [outside] at inside
    cases inside

theorem mode_of_ground (scan : tracker.scan = .ground) :
    tracker.mode = .ground tracker.pendingUtf8 := by
  rw [InputTracker.mode, scan]

theorem closely_clearLine (scan : tracker.scan = .ground) (outside : tracker.inPaste = false) :
    Closely tracker.clearPending.clearLine .fresh := by
  have cleared : tracker.clearPending.clearLine.scan = .ground := scan
  exact .typing ⟨[], []⟩ outside (mode_of_ground cleared).symm rfl ⟨rfl, rfl⟩

/-- Outside a paste a mirror that is not tainted has the editor's line. -/
theorem Closely.outside {tracker : InputTracker} {editor : Editor}
    (closely : Closely tracker editor) (outside : tracker.inPaste = false) :
    editor.mode = tracker.mode ∧ ∃ line, editor.line = some line ∧ Mirrors tracker line := by
  cases closely with
  | typing line _ mode isLine mirrors => exact ⟨mode, line, isLine, mirrors⟩
  | pasting line consumed inside =>
    rw [outside] at inside
    cases inside

/-- What a step comes to: the two agree, and a line that the mirror vouches for is submitted by the
editor as well. -/
structure Stepped (tracker : InputTracker × List SubmittedLine)
    (editor : Editor × Option (Option (List Char))) : Prop where
  agrees : Agrees tracker.1 editor.1
  vouched : ∀ line ∈ tracker.2, line.tainted = false → editor.2 = some (some line.text)

variable {typing : Typing}

theorem stepped_enter (agrees : Agrees typing.tracker typing.editor)
    (scan : typing.tracker.scan = .ground) (outside : typing.tracker.inPaste = false)
    (mode : typing.editor.mode = .ground pending)
    (isEnter : byte = carriageReturn ∨ byte = lineFeed) :
    Stepped (typing.tracker.ground byte) (typing.editor.step byte) := by
  have tracked : typing.tracker.ground byte =
      (typing.tracker.clearPending.clearLine,
        [⟨typing.tracker.chars, typing.tracker.tainted⟩]) := by
    rw [ground_control outside (control_enter isEnter), InputTracker.key, if_pos isEnter]
    rfl
  have edited : typing.editor.step byte =
      (.fresh, some (typing.editor.line.map Line.text)) := by
    rw [Editor.step, mode]
    exact if_pos isEnter
  rw [tracked, edited]
  refine ⟨⟨Sound.of_ground rfl agrees.sound.params, loosely_ground outside scan rfl, fun _ => ?_⟩,
    ?_⟩
  · exact closely_clearLine scan outside
  · intro line isLine clean
    rw [mem_singleton.mp isLine] at clean ⊢
    obtain ⟨-, held, isHeld, mirrors⟩ := (agrees.closely clean).outside outside
    rw [isHeld, mirrors.chars]
    rfl

theorem Stepped.of_silent {tracker : InputTracker × List SubmittedLine}
    {editor : Editor × Option (Option (List Char))} (silent : tracker.2 = [])
    (agrees : Agrees tracker.1 editor.1) : Stepped tracker editor :=
  ⟨agrees, fun _ isLine => absurd (silent ▸ isLine) not_mem_nil⟩

theorem stepped_abort (agrees : Agrees typing.tracker typing.editor)
    (scan : typing.tracker.scan = .ground) (outside : typing.tracker.inPaste = false)
    (mode : typing.editor.mode = .ground pending) :
    Stepped (typing.tracker.ground 0x03) (typing.editor.step 0x03) := by
  have tracked : typing.tracker.ground 0x03 = (typing.tracker.clearPending.clearLine, []) := by
    rw [ground_control outside (.inl (by decide))]
    rfl
  have edited : typing.editor.step 0x03 = (.fresh, none) := by
    rw [Editor.step, mode]
    rfl
  rw [tracked, edited]
  exact .of_silent rfl ⟨Sound.of_ground rfl agrees.sound.params, loosely_ground outside scan rfl,
    fun _ => closely_clearLine scan outside⟩

theorem stepped_esc (agrees : Agrees typing.tracker typing.editor)
    (outside : typing.tracker.inPaste = false) (mode : typing.editor.mode = .ground pending) :
    Stepped (typing.tracker.ground esc) (typing.editor.step esc) := by
  have tracked : typing.tracker.ground esc = (typing.tracker.clearPending.enter .esc, []) := by
    rw [ground_control outside control_esc]
    rfl
  have edited : typing.editor.step esc = (⟨.esc, typing.editor.line⟩, none) := by
    rw [Editor.step, mode]
    rfl
  rw [tracked, edited]
  refine .of_silent rfl ⟨Sound.of_ground rfl agrees.sound.params, ⟨fun _ => rfl, ?_⟩, ?_⟩
  · intro inside
    exact absurd (outside.symm.trans inside) Bool.false_ne_true
  · intro clean
    obtain ⟨-, line, isLine, mirrors⟩ := (agrees.closely clean).outside outside
    exact .typing line outside rfl isLine ⟨mirrors.chars, mirrors.cursor⟩

theorem stepped_key (agrees : Agrees typing.tracker typing.editor)
    (scan : typing.tracker.scan = .ground) (outside : typing.tracker.inPaste = false)
    (mode : typing.editor.mode = .ground pending) (control : Control byte)
    (notEnter : ¬ (byte = carriageReturn ∨ byte = lineFeed)) (notAbort : byte ≠ 0x03)
    (notEsc : byte ≠ esc) (clear : ¬ typing.Parts byte) :
    Stepped (typing.tracker.ground byte) (typing.editor.step byte) := by
  have words : byte = 0x17 → typing.tracker.clearPending.tainted = false →
      ∀ c ∈ rubbedOut
        (typing.tracker.clearPending.chars.take typing.tracker.clearPending.cursor),
        isWhitespace c = isBlank c := by
    intro isWord clean c member
    by_contra differ
    exact clear (.inr (.inr (.inr ⟨scan, outside, clean, isWord, c, member, differ⟩)))
  obtain ⟨silent, keeps, follows⟩ := edits_key control notEnter notAbort notEsc words
  rw [ground_control outside control, step_control mode control notEnter notAbort notEsc]
  refine .of_silent silent ⟨?_, ?_, fun clean => ?_⟩
  · exact Sound.of_ground keeps.pendingUtf8 (keeps.params ▸ agrees.sound.params)
  · exact loosely_ground (keeps.inPaste.trans outside) (keeps.scan.trans scan) rfl
  · obtain ⟨cleanBefore, pressed, isKey, edits⟩ := follows clean
    obtain ⟨-, line, isLine, mirrors⟩ := (agrees.closely cleanBefore).outside outside
    refine .typing (line.edit pressed) (keeps.inPaste.trans outside) ?_ ?_
      (edits line ⟨mirrors.chars, mirrors.cursor⟩)
    · rw [mode_of_ground (keeps.scan.trans scan), keeps.pendingUtf8]
      rfl
    · rw [Editor.press, isKey, isLine]
      rfl

theorem stepped_text (agrees : Agrees typing.tracker typing.editor)
    (scan : typing.tracker.scan = .ground) (outside : typing.tracker.inPaste = false)
    (mode : typing.editor.mode = .ground pending) (text : ¬ Control byte) :
    Stepped (typing.tracker.ground byte) (typing.editor.step byte) := by
  obtain ⟨silent, reads⟩ := reads_ground agrees.sound outside text
  rw [step_text mode text]
  have stays := reads.scan.trans scan
  refine .of_silent silent ⟨agrees.sound.of_reads scan reads,
    loosely_ground (reads.inPaste.trans outside) stays rfl, fun clean => ?_⟩
  obtain ⟨cleanBefore, follows⟩ := reads.types clean
  obtain ⟨sameMode, line, isLine, mirrors⟩ := (agrees.closely cleanBefore).outside outside
  rw [mode, mode_of_ground scan, Mode.ground.injEq] at sameMode
  refine .typing (line.insertAll (decodeByte typing.tracker.pendingUtf8 byte).2)
    (reads.inPaste.trans outside) ?_ ?_ (follows line mirrors)
  · rw [mode_of_ground stays, reads.pendingUtf8, sameMode]
  · rw [isLine, sameMode]
    rfl

variable {params : List UInt8}

/-- The editor in a control sequence that is already too long for the mirror. -/
theorem step_long (mode : editor.mode = .csi params) (long : 16 < params.length) (byte : UInt8) :
    (∃ pending, (editor.step byte).1.mode = .ground pending) ∨
      ∃ more, (editor.step byte).1.mode = .csi more ∧ 16 < more.length := by
  rw [Editor.step, mode]
  dsimp only
  split_ifs with isParam opens
  · refine .inr ⟨params ++ [byte], rfl, ?_⟩
    rw [length_append]
    omega
  · rw [opens.2] at long
    exact absurd long (by decide)
  · exact .inl ⟨[], rfl⟩

theorem stepped_long (agrees : Agrees typing.tracker typing.editor)
    (scan : typing.tracker.scan = .ground) (outside : typing.tracker.inPaste = false)
    (mode : typing.editor.mode = .csi params) (long : 16 < params.length)
    (clear : ¬ typing.Parts byte) :
    Stepped (typing.tracker.ground byte) (typing.editor.step byte) := by
  have tainted : typing.tracker.tainted ≠ false := by
    intro clean
    have sameMode := ((agrees.closely clean).outside outside).1
    rw [mode, mode_of_ground scan] at sameMode
    cases sameMode
  have sequence : typing.editor.InLongSequence := by
    rw [Editor.InLongSequence, mode]
    exact long
  have others : byte ≠ carriageReturn ∧ byte ≠ lineFeed ∧ byte ≠ 0x03 ∧ byte ≠ esc := by
    refine ⟨fun same => clear ?_, fun same => clear ?_, fun same => clear ?_,
      fun same => clear ?_⟩
    · exact .inr (.inr (.inl ⟨sequence, outside, .inl same⟩))
    · exact .inr (.inr (.inl ⟨sequence, outside, .inr (.inl same)⟩))
    · exact .inr (.inr (.inl ⟨sequence, outside, .inr (.inr (.inl same))⟩))
    · exact .inr (.inr (.inl ⟨sequence, outside, .inr (.inr (.inr same))⟩))
  obtain ⟨notReturn, notFeed, notAbort, notEsc⟩ := others
  have along : ∀ after : InputTracker, after.scan = .ground → after.inPaste = false →
      Loosely after (typing.editor.step byte).1.mode := by
    intro after stays still
    refine ⟨fun _ => ?_, fun inside => absurd (still.symm.trans inside) Bool.false_ne_true⟩
    rw [Along, stays]
    exact step_long mode long byte
  by_cases control : Control byte
  · have words : byte = 0x17 → typing.tracker.clearPending.tainted = false →
        ∀ c ∈ rubbedOut
          (typing.tracker.clearPending.chars.take typing.tracker.clearPending.cursor),
          isWhitespace c = isBlank c :=
      fun _ clean => absurd clean tainted
    obtain ⟨silent, keeps, follows⟩ := edits_key control
      (fun isEnter => isEnter.elim notReturn notFeed) notAbort notEsc words
    rw [ground_control outside control]
    refine .of_silent silent ⟨?_, ?_, fun clean => absurd (follows clean).1 tainted⟩
    · exact Sound.of_ground keeps.pendingUtf8 (keeps.params ▸ agrees.sound.params)
    · exact along _ (keeps.scan.trans scan) (keeps.inPaste.trans outside)
  · obtain ⟨silent, reads⟩ := reads_ground agrees.sound outside control
    refine .of_silent silent ⟨agrees.sound.of_reads scan reads, ?_,
      fun clean => absurd (reads.types clean).1 tainted⟩
    exact along _ (reads.scan.trans scan) (reads.inPaste.trans outside)

/-- A byte between keys, outside a paste. -/
theorem stepped_ground (agrees : Agrees typing.tracker typing.editor)
    (scan : typing.tracker.scan = .ground) (outside : typing.tracker.inPaste = false)
    (clear : ¬ typing.Parts byte) :
    Stepped (typing.tracker.ground byte) (typing.editor.step byte) := by
  have along := agrees.loosely.outside outside
  rw [Along, scan] at along
  rcases along with ⟨pending, mode⟩ | ⟨params, mode, long⟩
  · by_cases isEnter : byte = carriageReturn ∨ byte = lineFeed
    · exact stepped_enter agrees scan outside mode isEnter
    by_cases isAbort : byte = 0x03
    · rw [isAbort]
      exact stepped_abort agrees scan outside mode
    by_cases isEsc : byte = esc
    · rw [isEsc]
      exact stepped_esc agrees outside mode
    by_cases control : Control byte
    · exact stepped_key agrees scan outside mode control isEnter isAbort isEsc clear
    · exact stepped_text agrees scan outside mode control
  · exact stepped_long agrees scan outside mode long clear

/-! ### Inside a paste -/

theorem not_pasteEnd {last : UInt8} (other : last ≠ 0x7e) :
    ¬ pasteEnd <:+ bytes ++ [last] := by
  intro suffix
  have isLast := suffix.getLast (by decide)
  rw [getLast_concat] at isLast
  exact other isLast.symm

theorem not_pasteEnd_of_noEsc (noEsc : esc ∉ bytes) :
    ¬ pasteEnd <:+ bytes := fun suffix => noEsc (suffix.subset mem_cons_self)

theorem step_paste {raw : List UInt8} (mode : editor.mode = .paste raw)
    (goesOn : ¬ pasteEnd <:+ raw ++ [byte]) :
    editor.step byte = (⟨.paste (raw ++ [byte]), editor.line⟩, none) := by
  rw [Editor.step, mode]
  exact if_neg goesOn

/-- Wherever the editor is, an escape byte is the last it has got. -/
theorem got_esc (editor : Editor) : Got [esc] .esc (editor.step esc).1.mode := by
  cases isMode : editor.mode with
  | ground pending =>
    left
    rw [Editor.step, isMode]
    rfl
  | esc =>
    refine .inr (.inl ⟨[], ?_⟩)
    rw [Editor.step, isMode]
    rfl
  | csi params =>
    refine .inr (.inl ⟨[], ?_⟩)
    rw [Editor.step, isMode]
    rfl
  | ss3 =>
    refine .inr (.inl ⟨[], ?_⟩)
    rw [Editor.step, isMode]
    rfl
  | paste raw =>
    refine .inr (.inr ⟨raw ++ [esc], ?_, suffix_append _ _⟩)
    rw [step_paste isMode (not_pasteEnd (by decide))]

/-- The next byte of a sequence. -/
theorem got_next {reading next : Mode} (got : Got bytes reading editor.mode) (text : ¬ Control byte)
    (other : byte ≠ 0x7e) (reads : ∀ line, ((Editor.mk reading line).step byte).1.mode = next) :
    Got (bytes ++ [byte]) next (editor.step byte).1.mode := by
  rcases got with isReading | ⟨pending, isGround⟩ | ⟨raw, isPaste, suffix⟩
  · left
    have same : editor = ⟨reading, editor.line⟩ := by rw [← isReading]
    rw [same]
    exact reads editor.line
  · refine .inr (.inl ⟨(decodeByte pending byte).1, ?_⟩)
    rw [step_text isGround text]
  · refine .inr (.inr ⟨raw ++ [byte], ?_, ?_⟩)
    · rw [step_paste isPaste (not_pasteEnd other)]
    · obtain ⟨before, whole⟩ := suffix
      exact ⟨before, by rw [← whole, append_assoc]⟩

theorem param_text (param : 0x20 ≤ byte ∧ byte ≤ 0x3f) :
    ¬ Control byte ∧ byte ≠ 0x7e ∧ byte ≠ esc := by
  have low := UInt8.le_iff_toNat_le.mp param.1
  have high := UInt8.le_iff_toNat_le.mp param.2
  have lowest : (0x20 : UInt8).toNat = 0x20 := rfl
  have highest : (0x3f : UInt8).toNat = 0x3f := rfl
  refine ⟨?_, ?_, ?_⟩
  · rintro (control | rfl)
    · have := UInt8.le_iff_toNat_le.mp control
      have last : (0x1f : UInt8).toNat = 0x1f := rfl
      omega
    · exact absurd param.2 (by decide)
  · rintro rfl
    exact absurd param.2 (by decide)
  · rintro rfl
    exact absurd param.1 (by decide)

theorem pasted_append (raw : List UInt8) (byte : UInt8) :
    pasted (raw ++ [byte]) = pasted raw ++
      (decodeByte (decodeFrom [] raw).1 byte).2.map fun c => if c = '\r' then '\n' else c := by
  rw [pasted, decodeAll, decodeFrom_append, map_append]
  refine congrArg (_ ++ ·) (congrArg (List.map _) ?_)
  rw [decodeFrom, decodeFrom]
  exact append_nil _

theorem unfinished_append (raw : List UInt8) (byte : UInt8) :
    (decodeFrom [] (raw ++ [byte])).1 = (decodeByte (decodeFrom [] raw).1 byte).1 := by
  rw [decodeFrom_append, decodeFrom, decodeFrom]

/-- A byte of the paste that is inserted. -/
theorem closely_inserted {text : List Char} (closely : Closely tracker editor)
    (inside : tracker.inPaste = true) (scan : tracker.scan = .ground) (notEsc : byte ≠ esc)
    (stays : after.scan = .ground) (still : after.inPaste = true)
    (pending : after.pendingUtf8 = (decodeByte tracker.pendingUtf8 byte).1)
    (isText : (decodeByte tracker.pendingUtf8 byte).2.map
      (fun c => if c = '\r' then '\n' else c) = text)
    (follows : ∀ line, Mirrors tracker line → Mirrors after (line.insertAll text)) :
    Closely after (editor.step byte).1 := by
  cases closely with
  | typing line outside =>
    rw [outside] at inside
    cases inside
  | pasting line consumed _ mode isLine noEsc unfinished mirrors =>
    have none : tracker.begun = [] := by rw [InputTracker.begun, scan]
    have noneAfter : after.begun = [] := by rw [InputTracker.begun, stays]
    rw [none, append_nil] at mode
    have noEscAfter : esc ∉ consumed ++ [byte] := by
      rw [mem_append, mem_singleton, not_or]
      exact ⟨noEsc, notEsc.symm⟩
    rw [step_paste mode (not_pasteEnd_of_noEsc noEscAfter)]
    refine .pasting line (consumed ++ [byte]) still ?_ isLine noEscAfter ?_ ?_
    · rw [noneAfter, append_nil]
    · intro _
      rw [unfinished_append, unfinished scan, pending]
    · rw [pasted_append, unfinished scan, isText]
      have both := follows _ mirrors
      rw [Line.insertAll, Line.insertAll, append_assoc] at both
      exact both

/-- A byte between sequences, inside a paste. -/
theorem stepped_paste (agrees : Agrees typing.tracker typing.editor)
    (scan : typing.tracker.scan = .ground) (inside : typing.tracker.inPaste = true) :
    Stepped (typing.tracker.ground byte) (typing.editor.step byte) := by
  -- A byte that leaves the mirror between sequences: where the editor is does not matter.
  have inserted : ∀ (after : InputTracker) (text : List Char), byte ≠ esc →
      Sound after → after.scan = .ground → after.inPaste = true →
      after.pendingUtf8 = (decodeByte typing.tracker.pendingUtf8 byte).1 →
      (decodeByte typing.tracker.pendingUtf8 byte).2.map
        (fun c => if c = '\r' then '\n' else c) = text →
      Types typing.tracker after text → Agrees after (typing.editor.step byte).1 := by
    intro after text notEsc sound stays still pending isText types
    refine ⟨sound, ⟨fun outside => absurd (outside.symm.trans still) Bool.false_ne_true,
      fun _ => ?_⟩, fun clean => ?_⟩
    · rw [Behind, stays]
      trivial
    · obtain ⟨cleanBefore, follows⟩ := types clean
      exact closely_inserted (agrees.closely cleanBefore) inside scan notEsc stays still pending
        isText follows
  have letters : byte ≠ carriageReturn →
      (decodeByte typing.tracker.pendingUtf8 byte).2.map
        (fun c => if c = '\r' then '\n' else c) =
      (decodeByte typing.tracker.pendingUtf8 byte).2 := by
    intro other
    refine (map_congr_left fun c member => if_neg ?_).trans (map_id' _)
    rintro rfl
    exact notMem_decodeByte agrees.sound.unfinished other member
  have read : ∀ after : InputTracker, byte ≠ esc → byte ≠ carriageReturn →
      Reads typing.tracker after (decodeByte typing.tracker.pendingUtf8 byte) →
      Agrees after (typing.editor.step byte).1 := fun after notEsc notReturn reads =>
    inserted after _ notEsc (agrees.sound.of_reads scan reads) (reads.scan.trans scan)
      (reads.inPaste.trans inside) reads.pendingUtf8 (letters notReturn) reads.types
  rw [InputTracker.ground]
  by_cases continuing : typing.tracker.pendingUtf8 ≠ [] ∧ byte &&& 0xc0 = 0x80
  · rw [if_pos continuing]
    have other : ∀ ascii : UInt8, ascii.toNat < 0x80 → byte ≠ ascii := by
      rintro ascii low rfl
      exact not_continuing low _ continuing
    exact .of_silent rfl (read _ (other _ (by decide)) (other _ (by decide))
      (reads_continuing agrees.sound.unfinished continuing))
  rw [if_neg continuing, if_pos inside, InputTracker.paste]
  by_cases isBreak : byte = carriageReturn ∨ byte = lineFeed
  · rw [if_pos isBreak]
    obtain ⟨keeps, types⟩ := types_insert typing.tracker.clearPending '\n'
    have ascii := decodeByte_ascii typing.tracker.pendingUtf8
      (control_lt (control_enter isBreak))
    refine .of_silent rfl (inserted _ ['\n'] ?_ ?_ (keeps.scan.trans scan)
      (keeps.inPaste.trans inside) ?_ ?_ (types_self types rfl rfl rfl))
    · rintro rfl
      exact absurd isBreak (by decide)
    · exact Sound.of_ground keeps.pendingUtf8 (keeps.params ▸ agrees.sound.params)
    · rw [ascii]
      exact keeps.pendingUtf8
    · rw [ascii]
      rcases isBreak with rfl | rfl <;> rfl
  rw [if_neg isBreak]
  by_cases isEsc : byte = esc
  · rw [if_pos isEsc, isEsc]
    refine .of_silent rfl ⟨Sound.of_ground rfl agrees.sound.params,
      ⟨fun outside => absurd (outside.symm.trans inside) Bool.false_ne_true,
        fun _ => got_esc typing.editor⟩, fun clean => ?_⟩
    cases agrees.closely clean with
    | typing line outside =>
      rw [outside] at inside
      cases inside
    | pasting line consumed _ mode isLine noEsc unfinished mirrors =>
      have none : typing.tracker.begun = [] := by rw [InputTracker.begun, scan]
      rw [none, append_nil] at mode
      rw [step_paste mode (not_pasteEnd (by decide))]
      exact .pasting line consumed inside rfl isLine noEsc (fun ground => by cases ground)
        ⟨mirrors.chars, mirrors.cursor⟩
  · rw [if_neg isEsc]
    exact .of_silent rfl (read _ isEsc (fun isReturn => isBreak (.inl isReturn))
      (reads_type continuing))

/-! ### Sequences -/

/-- The mirror stops reading a sequence inside a paste. -/
theorem loosely_inside (mode : Mode) (inside : tracker.inPaste = true)
    (scan : tracker.scan = .ground ∨ tracker.scan = .ss3) : Loosely tracker mode where
  outside := fun outside => absurd (outside.symm.trans inside) Bool.false_ne_true
  inside := fun _ => by
    rw [Behind]
    rcases scan with ground | ss3
    · rw [ground]
      trivial
    · rw [ss3]
      trivial

/-- The mirror gives a sequence up. -/
theorem agrees_giveUp (sound : Sound tracker) (reading : tracker.scan ≠ .ground)
    (scan : after.scan = .ground) (tainted : after.tainted = true)
    (inPaste : after.inPaste = tracker.inPaste) (pending : after.pendingUtf8 = tracker.pendingUtf8)
    (params : esc ∉ after.params)
    (along : tracker.inPaste = false → (∃ pending, editor.mode = .ground pending) ∨
      ∃ params, editor.mode = .csi params ∧ 16 < params.length) : Agrees after editor := by
  refine ⟨Sound.of_ground (pending.trans (sound.scanning reading)) params, ?_,
    fun clean => absurd (tainted.symm.trans clean) (by decide)⟩
  cases isInside : tracker.inPaste with
  | true => exact loosely_inside editor.mode (inPaste.trans isInside) (.inl scan)
  | false =>
    refine ⟨fun _ => ?_, fun inside =>
      absurd ((inPaste.trans isInside).symm.trans inside) Bool.false_ne_true⟩
    rw [Along, scan]
    exact along isInside

theorem closely_begun (closely : Closely tracker editor) (inside : tracker.inPaste = true)
    (still : after.inPaste = true) (reading : after.scan ≠ .ground)
    (begun : after.begun = tracker.begun ++ [byte]) (other : byte ≠ 0x7e)
    (chars : after.chars = tracker.chars) (cursor : after.cursor = tracker.cursor) :
    Closely after (editor.step byte).1 := by
  cases closely with
  | typing line outside =>
    rw [outside] at inside
    cases inside
  | pasting line consumed _ mode isLine noEsc unfinished mirrors =>
    rw [step_paste mode (not_pasteEnd other)]
    refine .pasting line consumed still ?_ isLine noEsc (fun ground => absurd ground reading)
      ⟨chars.trans mirrors.chars, cursor.trans mirrors.cursor⟩
    rw [begun, append_assoc]

theorem along_iff (reading : tracker.scan ≠ .ground) (mode : Mode) :
    Along tracker mode ↔ mode = tracker.mode := by
  rw [Along, InputTracker.mode]
  cases scan : tracker.scan with
  | ground => exact absurd scan reading
  | esc => exact Iff.rfl
  | csi => exact Iff.rfl
  | ss3 => exact Iff.rfl

theorem behind_of_got (reading : tracker.scan ≠ .ground) {mode : Mode}
    (got : Got tracker.begun tracker.mode mode) : Behind tracker mode := by
  rw [InputTracker.begun, InputTracker.mode] at got
  rw [Behind]
  cases scan : tracker.scan with
  | ground => exact absurd scan reading
  | esc =>
    rw [scan] at got
    exact got
  | csi =>
    rw [scan] at got
    exact got
  | ss3 => trivial

theorem got_of_behind (scan : tracker.scan = .esc ∨ tracker.scan = .csi) {mode : Mode}
    (behind : Behind tracker mode) : Got tracker.begun tracker.mode mode := by
  rw [Behind] at behind
  rw [InputTracker.begun, InputTracker.mode]
  rcases scan with isEsc | isCsi
  · rw [isEsc] at behind ⊢
    exact behind
  · rw [isCsi] at behind ⊢
    exact behind

/-- The mirror reads on in a sequence. -/
theorem agrees_readOn (agrees : Agrees tracker editor)
    (scan : tracker.scan = .esc ∨ tracker.scan = .csi) (readsOn : after.scan ≠ .ground)
    (chars : after.chars = tracker.chars) (cursor : after.cursor = tracker.cursor)
    (tainted : after.tainted = tracker.tainted) (inPaste : after.inPaste = tracker.inPaste)
    (pending : after.pendingUtf8 = tracker.pendingUtf8) (params : esc ∉ after.params)
    (begun : after.begun = tracker.begun ++ [byte]) (text : ¬ Control byte) (other : byte ≠ 0x7e)
    (step : ∀ line, (Editor.mk tracker.mode line).step byte = (⟨after.mode, line⟩, none)) :
    Agrees after (editor.step byte).1 := by
  have reading : tracker.scan ≠ .ground := by
    rcases scan with isEsc | isCsi
    · rw [isEsc]
      exact Scan.noConfusion
    · rw [isCsi]
      exact Scan.noConfusion
  have stepped : editor.mode = tracker.mode →
      editor.step byte = (⟨after.mode, editor.line⟩, none) := by
    intro same
    have whole : editor = ⟨tracker.mode, editor.line⟩ := by rw [← same]
    rw [whole]
    exact step editor.line
  refine ⟨⟨?_, fun _ => pending.trans (agrees.sound.scanning reading), params⟩,
    ⟨fun outside => ?_, fun inside => ?_⟩, fun clean => ?_⟩
  · rw [pending]
    exact agrees.sound.unfinished
  · have same := (along_iff reading _).mp (agrees.loosely.outside (inPaste ▸ outside))
    rw [stepped same]
    exact (along_iff readsOn _).mpr rfl
  · have got := got_of_behind scan (agrees.loosely.inside (inPaste ▸ inside))
    refine behind_of_got readsOn ?_
    rw [begun]
    exact got_next got text other fun line => by rw [step line]
  · have closely := agrees.closely (tainted ▸ clean)
    cases isInside : tracker.inPaste with
    | true =>
      exact closely_begun closely isInside (inPaste.trans isInside) readsOn begun other chars cursor
    | false =>
      obtain ⟨same, line, isLine, mirrors⟩ := closely.outside isInside
      rw [stepped same]
      exact .typing line (inPaste.trans isInside) rfl isLine
        ⟨chars.trans mirrors.chars, cursor.trans mirrors.cursor⟩

/-- The byte behind an escape byte. -/
theorem agrees_escape (agrees : Agrees typing.tracker typing.editor)
    (scan : typing.tracker.scan = .esc) (clear : ¬ typing.Parts byte) :
    Agrees (typing.tracker.escape byte) (typing.editor.step byte).1 := by
  have reading : typing.tracker.scan ≠ .ground := by
    rw [scan]
    exact Scan.noConfusion
  have begun : typing.tracker.begun = [esc] := by rw [InputTracker.begun, scan]
  have mode : typing.tracker.mode = .esc := by rw [InputTracker.mode, scan]
  rw [InputTracker.escape]
  by_cases isBracket : byte = 0x5b
  · subst isBracket
    refine agrees_readOn agrees (.inl scan) Scan.noConfusion rfl rfl rfl rfl rfl
      not_mem_nil ?_ ?_ (by decide) fun line => ?_
    · rw [begun]
      rfl
    · decide
    · rw [mode]
      rfl
  rw [if_neg isBracket]
  by_cases isApplication : byte = 0x4f
  · subst isApplication
    refine agrees_readOn agrees (.inl scan) Scan.noConfusion rfl rfl rfl rfl rfl
      agrees.sound.params ?_ ?_ (by decide) fun line => ?_
    · rw [begun]
      rfl
    · decide
    · rw [mode]
      rfl
  rw [if_neg isApplication]
  by_cases isEsc : byte = esc
  · rw [if_pos isEsc, isEsc]
    have lost : ¬ (typing.tracker.inPaste = false ∨ typing.tracker.tainted = false) := fun early =>
      clear (.inl ⟨scan, isEsc, early⟩)
    refine ⟨agrees.sound, ⟨fun outside => absurd (.inl outside) lost, fun _ => ?_⟩,
      fun clean => absurd (.inr clean) lost⟩
    rw [Behind, scan]
    exact got_esc typing.editor
  rw [if_neg isEsc]
  refine agrees_giveUp agrees.sound reading rfl rfl rfl rfl agrees.sound.params fun outside =>
    .inl ⟨[], ?_⟩
  rw [Editor.step, (along_iff reading _).mp (agrees.loosely.outside outside), mode]
  dsimp only
  rw [if_neg isBracket, if_neg isApplication]
  rfl

/-- The byte of an application key. -/
theorem agrees_ss3 (agrees : Agrees typing.tracker typing.editor)
    (scan : typing.tracker.scan = .ss3) (clear : ¬ typing.Parts byte) :
    Agrees (typing.tracker.ss3 byte) (typing.editor.step byte).1 := by
  have reading : typing.tracker.scan ≠ .ground := by
    rw [scan]
    exact Scan.noConfusion
  have mode : typing.tracker.mode = .ss3 := by rw [InputTracker.mode, scan]
  obtain ⟨keeps, follows⟩ := edits_ss3 typing.tracker byte
  have pending := keeps.pendingUtf8.trans (agrees.sound.scanning reading)
  have stepped : typing.tracker.inPaste = false →
      typing.editor.step byte = (typing.editor.press (ss3KeyOf byte), none) := by
    intro outside
    rw [Editor.step, (along_iff reading _).mp (agrees.loosely.outside outside), mode]
  refine ⟨Sound.of_ground pending (keeps.params ▸ agrees.sound.params), ?_, fun clean => ?_⟩
  · cases isInside : typing.tracker.inPaste with
    | true => exact loosely_inside _ (keeps.inPaste.trans isInside) (.inl keeps.scan)
    | false =>
      rw [stepped isInside]
      exact loosely_ground (keeps.inPaste.trans isInside) keeps.scan rfl
  · obtain ⟨cleanBefore, pressed, isKey, edits⟩ := follows clean
    cases isInside : typing.tracker.inPaste with
    | true =>
      exact absurd (.inr (.inl ⟨scan, isInside, cleanBefore, by rw [isKey]; rfl⟩)) clear
    | false =>
      obtain ⟨-, line, isLine, mirrors⟩ := (agrees.closely cleanBefore).outside isInside
      rw [stepped isInside]
      refine .typing (line.edit pressed) (keeps.inPaste.trans isInside) ?_ ?_
        (edits line ⟨mirrors.chars, mirrors.cursor⟩)
      · rw [mode_of_ground keeps.scan, pending]
        rfl
      · rw [Editor.press, isKey, isLine]
        rfl

/-- The closing sequence of a paste, as the mirror reads it. -/
theorem pasteEnd_eq : pasteEnd = esc :: 0x5b :: [0x32, 0x30, 0x31] ++ [0x7e] := rfl

/-- The mirror and the editor leave a paste. -/
theorem agrees_close (agrees : Agrees tracker editor) (scan : tracker.scan = .csi)
    (inside : tracker.inPaste = true) (params : tracker.params = [0x32, 0x30, 0x31]) :
    Agrees (tracker.taken.bracket false) (editor.step 0x7e).1 := by
  have pending := agrees.sound.scanning (scan ▸ Scan.noConfusion)
  have begun : tracker.begun ++ [0x7e] = pasteEnd := by
    rw [InputTracker.begun, scan, pasteEnd_eq]
    dsimp only
    rw [params]
  have mode : tracker.mode = .csi [0x32, 0x30, 0x31] := by
    rw [InputTracker.mode, scan]
    exact congrArg Mode.csi params
  have closed : ∀ raw, editor.mode = .paste raw → tracker.begun <:+ raw →
      editor.step 0x7e = (⟨.ground [], editor.line.map (·.insertAll
        (pasted ((raw ++ [0x7e]).take (raw.length + 1 - pasteEnd.length))))⟩, none) := by
    intro raw isPaste suffix
    rw [Editor.step, isPaste]
    refine if_pos ?_
    obtain ⟨before, whole⟩ := suffix
    exact ⟨before, by rw [← whole, append_assoc, begun]⟩
  refine ⟨Sound.of_ground pending not_mem_nil, ⟨fun _ => ?_, fun none => by cases none⟩,
    fun clean => ?_⟩
  · rcases got_of_behind (.inr scan) (agrees.loosely.inside inside) with
      isCsi | ⟨others, isGround⟩ | ⟨raw, isPaste, suffix⟩
    · refine .inl ⟨[], ?_⟩
      rw [Editor.step, isCsi, mode]
      rfl
    · refine .inl ⟨(decodeByte others 0x7e).1, ?_⟩
      rw [step_text isGround (by decide)]
    · refine .inl ⟨[], ?_⟩
      rw [closed raw isPaste suffix]
  · cases agrees.closely clean with
    | typing line outside =>
      rw [outside] at inside
      cases inside
    | pasting line consumed _ isPaste isLine noEsc unfinished mirrors =>
      rw [closed _ isPaste (suffix_append _ _)]
      have content : (consumed ++ tracker.begun ++ [0x7e]).take
          ((consumed ++ tracker.begun).length + 1 - pasteEnd.length) = consumed := by
        have size : (consumed ++ tracker.begun).length + 1 - pasteEnd.length = consumed.length := by
          rw [← begun, length_append, length_append, length_singleton]
          omega
        rw [size, append_assoc, take_left]
      refine .typing (line.insertAll (pasted consumed)) rfl ?_ ?_
        ⟨mirrors.chars, mirrors.cursor⟩
      · exact congrArg Mode.ground pending.symm
      · rw [content, isLine]
        rfl

/-- The editor at the last byte of a control sequence. -/
theorem step_final (mode : editor.mode = .csi params) (final : ¬ (0x20 ≤ byte ∧ byte ≤ 0x3f))
    (notPaste : ¬ (byte = 0x7e ∧ params = [0x32, 0x30, 0x30])) :
    editor.step byte = (editor.press (csiKeyOf params byte), none) := by
  rw [Editor.step, mode]
  dsimp only
  rw [if_neg final, if_neg notPaste]

/-- The mirror and the editor enter a paste. -/
theorem agrees_open (agrees : Agrees tracker editor) (scan : tracker.scan = .csi)
    (outside : tracker.inPaste = false) (params : tracker.params = [0x32, 0x30, 0x30]) :
    Agrees (tracker.taken.bracket true) (editor.step 0x7e).1 := by
  have reading : tracker.scan ≠ .ground := scan ▸ Scan.noConfusion
  have pending := agrees.sound.scanning reading
  have mode : tracker.mode = .csi [0x32, 0x30, 0x30] := by
    rw [InputTracker.mode, scan]
    exact congrArg Mode.csi params
  refine ⟨Sound.of_ground pending not_mem_nil, loosely_inside _ rfl (.inl rfl),
    fun clean => ?_⟩
  obtain ⟨same, line, isLine, mirrors⟩ := (agrees.closely clean).outside outside
  have stepped : editor.step 0x7e = (⟨.paste [], editor.line⟩, none) := by
    rw [Editor.step, same, mode]
    rfl
  rw [stepped]
  refine .pasting line [] rfl rfl isLine not_mem_nil (fun _ => pending.symm) ?_
  have none : line.insertAll (pasted []) = line := by
    rw [Line.insertAll]
    exact congrArg (Line.mk · line.after) (append_nil _)
  rw [none]
  exact ⟨mirrors.chars, mirrors.cursor⟩

/-- A byte of a control sequence. -/
theorem agrees_csi (agrees : Agrees typing.tracker typing.editor)
    (scan : typing.tracker.scan = .csi) :
    Agrees (typing.tracker.csi byte) (typing.editor.step byte).1 := by
  have reading : typing.tracker.scan ≠ .ground := scan ▸ Scan.noConfusion
  have pending := agrees.sound.scanning reading
  have mode : typing.tracker.mode = .csi typing.tracker.params := by
    rw [InputTracker.mode, scan]
  have along : typing.tracker.inPaste = false →
      typing.editor.mode = .csi typing.tracker.params := fun outside =>
    ((along_iff reading _).mp (agrees.loosely.outside outside)).trans mode
  rw [InputTracker.csi]
  by_cases param : 0x20 ≤ byte ∧ byte ≤ 0x3f
  · rw [if_pos param]
    obtain ⟨text, other, notEsc⟩ := param_text param
    split_ifs with short
    · refine agrees_readOn agrees (.inr scan) reading rfl rfl rfl rfl rfl ?_ ?_ text other
        fun line => ?_
      · rw [mem_append, mem_singleton, not_or]
        exact ⟨agrees.sound.params, notEsc.symm⟩
      · rw [InputTracker.begun, InputTracker.begun, scan]
        rfl
      · rw [mode, InputTracker.mode, scan]
        exact if_pos param
    · refine agrees_giveUp agrees.sound reading rfl rfl rfl rfl agrees.sound.params fun outside =>
        .inr ⟨typing.tracker.params ++ [byte], ?_, ?_⟩
      · rw [Editor.step, along outside]
        dsimp only
        rw [if_pos param]
      · rw [length_append, length_singleton]
        omega
  rw [if_neg param]
  by_cases final : 0x40 ≤ byte ∧ byte ≤ 0x7e
  · rw [if_pos final]
    cases isInside : typing.tracker.inPaste with
    | true =>
      rw [if_pos rfl]
      split_ifs with closes
      · obtain ⟨rfl, params⟩ := closes
        exact agrees_close agrees scan isInside params
      · exact agrees_giveUp agrees.sound reading rfl rfl rfl rfl not_mem_nil fun outside =>
          absurd (isInside.symm.trans outside) (by decide)
    | false =>
      rw [if_neg Bool.false_ne_true]
      by_cases opens : byte = 0x7e ∧ typing.tracker.params = [0x32, 0x30, 0x30]
      · obtain ⟨rfl, params⟩ := opens
        rw [params]
        exact agrees_open agrees scan isInside params
      · obtain ⟨keeps, follows⟩ : Edits typing.tracker.taken
            (typing.tracker.taken.csiKey typing.tracker.params byte)
            (csiKeyOf typing.tracker.params byte) := edits_csiKey opens
        have still := keeps.inPaste.trans isInside
        rw [step_final (along isInside) param opens]
        refine ⟨Sound.of_ground (keeps.pendingUtf8.trans pending) ?_,
          loosely_ground still keeps.scan rfl, fun clean => ?_⟩
        · rw [keeps.params]
          exact not_mem_nil
        · obtain ⟨cleanBefore, pressed, isKey, edits⟩ := follows clean
          obtain ⟨-, line, isLine, mirrors⟩ := (agrees.closely cleanBefore).outside isInside
          refine .typing (line.edit pressed) still ?_ ?_
            (edits line ⟨mirrors.chars, mirrors.cursor⟩)
          · rw [mode_of_ground keeps.scan, keeps.pendingUtf8]
            exact congrArg Mode.ground pending.symm
          · rw [Editor.press, isKey, isLine]
            rfl
  · rw [if_neg final]
    refine agrees_giveUp agrees.sound reading rfl rfl rfl rfl agrees.sound.params fun outside =>
      .inl ⟨[], ?_⟩
    rw [step_final (along outside) param]
    · rfl
    · rintro ⟨rfl, -⟩
      exact final (by decide)

theorem stepped_feedByte (agrees : Agrees typing.tracker typing.editor)
    (clear : ¬ typing.Parts byte) :
    Stepped (typing.tracker.feedByte byte) (typing.editor.step byte) := by
  rw [InputTracker.feedByte]
  cases scan : typing.tracker.scan with
  | ground =>
    cases isInside : typing.tracker.inPaste with
    | true => exact stepped_paste agrees scan isInside
    | false => exact stepped_ground agrees scan isInside clear
  | esc => exact .of_silent rfl (agrees_escape agrees scan clear)
  | csi => exact .of_silent rfl (agrees_csi agrees scan)
  | ss3 => exact .of_silent rfl (agrees_ss3 agrees scan clear)

/-! ### Whole streams -/

/-- No byte is one where the mirror and the editor part. -/
def Clear (bytes : List UInt8) : Prop :=
  Typing.machine.Along (fun typing byte => ¬ typing.Parts byte) .start bytes

instance (bytes : List UInt8) : Decidable (Clear bytes) :=
  inferInstanceAs (Decidable (Typing.machine.Along _ _ _))

/-- Every line that the mirror vouched for was submitted by the editor at the same byte. -/
def Typing.Vouched (typing : Typing) : Prop :=
  ∀ position line, (position, line) ∈ typing.submitted → line.tainted = false →
    (position, some line.text) ∈ typing.entered

theorem vouched_step (vouched : typing.Vouched)
    (stepped : Stepped (typing.tracker.feedByte byte) (typing.editor.step byte)) :
    (typing.step byte).Vouched := by
  intro position line isLine clean
  rcases mem_append.mp isLine with before | now
  · exact mem_append_left _ (vouched position line before clean)
  · obtain ⟨found, isFound, same⟩ := mem_map.mp now
    cases same
    refine mem_append_right _ ?_
    rw [stepped.vouched line isFound clean]
    exact mem_cons_self

theorem run_machine (typing : Typing) (bytes : List UInt8) :
    Typing.machine.run typing bytes = some (typing.stepAll bytes) := by
  induction bytes generalizing typing with
  | nil => rfl
  | cons byte bytes inductionHypothesis => exact inductionHypothesis _

theorem agrees_of_clear (clear : Clear bytes) :
    Agrees (Typing.start.stepAll bytes).tracker (Typing.start.stepAll bytes).editor ∧
      (Typing.start.stepAll bytes).Vouched := by
  have kept : ∀ (typing : Typing) byte next,
      Agrees typing.tracker typing.editor ∧ typing.Vouched → ¬ typing.Parts byte →
      Typing.machine.step typing byte = some next →
      Agrees next.tracker next.editor ∧ next.Vouched := by
    rintro typing byte next ⟨agrees, vouched⟩ notParts ran
    cases ran
    have stepped := stepped_feedByte agrees notParts
    exact ⟨stepped.agrees, vouched_step vouched stepped⟩
  exact Machine.invariant kept ⟨agrees_start, fun _ _ none => absurd none not_mem_nil⟩ clear
    (run_machine _ _)

theorem stepAll_feed (typing : Typing) (bytes : List UInt8) :
    (typing.stepAll bytes).tracker = (typing.tracker.feed bytes).1 ∧
      (typing.stepAll bytes).submitted.map Prod.snd =
        typing.submitted.map Prod.snd ++ (typing.tracker.feed bytes).2 := by
  induction bytes generalizing typing with
  | nil => exact ⟨rfl, (append_nil _).symm⟩
  | cons byte bytes inductionHypothesis =>
    obtain ⟨tracker, submitted⟩ := inductionHypothesis (typing.step byte)
    refine ⟨tracker, submitted.trans ?_⟩
    rw [InputTracker.feed, Typing.step]
    dsimp only
    rw [map_append, map_map, append_assoc]
    exact congrArg (_ ++ ·) (congrArg (· ++ _) (map_id _))

theorem stepAll_feedAll (typing : Typing) (chunks : List (List UInt8)) :
    (typing.stepAll chunks.flatten).tracker = (typing.tracker.feedAll chunks).1 ∧
      (typing.stepAll chunks.flatten).submitted.map Prod.snd =
        typing.submitted.map Prod.snd ++ (typing.tracker.feedAll chunks).2 := by
  induction chunks generalizing typing with
  | nil => exact ⟨rfl, (append_nil _).symm⟩
  | cons chunk chunks inductionHypothesis =>
    obtain ⟨first, lines⟩ := stepAll_feed typing chunk
    obtain ⟨tracker, submitted⟩ := inductionHypothesis (typing.stepAll chunk)
    rw [first] at tracker submitted
    rw [flatten_cons, Typing.stepAll, foldl_append]
    refine ⟨tracker, submitted.trans ?_⟩
    rw [lines, InputTracker.feedAll, append_assoc]

/-- In a stream without a byte where the two part, however it is cut: a line that is submitted
and not tainted is the line the editor submits with the same byte, and a line that is offered as
being composed is the line the editor holds, with its cursor at the end. -/
theorem untainted_is_true {chunks : List (List UInt8)} (clear : Clear chunks.flatten) :
    (InputTracker.new.feedAll chunks).1 = (Typing.start.stepAll chunks.flatten).tracker ∧
      (InputTracker.new.feedAll chunks).2 =
        (Typing.start.stepAll chunks.flatten).submitted.map Prod.snd ∧
      (∀ position line,
        (position, line) ∈ (Typing.start.stepAll chunks.flatten).submitted →
        line.tainted = false →
        (position, some line.text) ∈ (Typing.start.stepAll chunks.flatten).entered) ∧
      ∀ text, (InputTracker.new.feedAll chunks).1.composingLine = some text →
        (Typing.start.stepAll chunks.flatten).editor.line = some ⟨text, []⟩ := by
  obtain ⟨agrees, vouched⟩ := agrees_of_clear clear
  obtain ⟨tracker, submitted⟩ := stepAll_feedAll .start chunks
  refine ⟨tracker.symm, submitted.symm, vouched, fun text composing => ?_⟩
  have same : (InputTracker.new.feedAll chunks).1 =
      (Typing.start.stepAll chunks.flatten).tracker := tracker.symm
  rw [same, InputTracker.composingLine] at composing
  split_ifs at composing with blocked
  cases composing
  simp only [not_or, Bool.not_eq_true, ne_eq, Decidable.not_not] at blocked
  obtain ⟨clean, outside, -, atEnd⟩ := blocked
  obtain ⟨-, ⟨before, after⟩, isLine, mirrors⟩ := (agrees.closely clean).outside outside
  have length := mirrors.length
  dsimp only at length
  have none : after = [] := eq_nil_of_length_eq_zero (by omega)
  subst none
  rw [isLine, mirrors.chars, append_nil]

/-- An accented letter cut in two, an arrow, a paste and Enter, and a letter behind it. -/
def cutPaste : List (List UInt8) :=
  [[0x6c, 0xc3], [0xa9, 0x1b], [0x5b, 0x44, 0x1b, 0x5b, 0x32, 0x30, 0x30, 0x7e, 0x61, 0x0d, 0x62],
    [0x1b, 0x5b, 0x32, 0x30, 0x31, 0x7e, 0x0d, 0x78]]

theorem untainted_is_true_cutPaste :
    (InputTracker.new.feedAll cutPaste).2 = [⟨['l', 'a', '\n', 'b', 'é'], false⟩] ∧
      (22, some ['l', 'a', '\n', 'b', 'é']) ∈ (Typing.start.stepAll cutPaste.flatten).entered ∧
      (Typing.start.stepAll cutPaste.flatten).editor.line = some ⟨['x'], []⟩ := by
  have clear : Clear cutPaste.flatten := by decide +kernel
  have vouched := untainted_is_true clear
  refine ⟨by decide +kernel, vouched.2.2.1 22 ⟨['l', 'a', '\n', 'b', 'é'], false⟩ ?_ rfl,
    vouched.2.2.2 ['x'] ?_⟩ <;> decide +kernel

/-- A paste with the bytes of a left arrow as an application key, and Enter. -/
def pastedArrow : List UInt8 :=
  [0x1b, 0x5b, 0x32, 0x30, 0x30, 0x7e, 0x61, 0x62, 0x1b, 0x4f, 0x44, 0x63, 0x1b, 0x5b, 0x32, 0x30,
    0x31, 0x7e, 0x0d]

theorem untainted_and_false_pastedArrow :
    (InputTracker.new.feed pastedArrow).2 = [⟨['a', 'c', 'b'], false⟩] ∧
      (Typing.start.stepAll pastedArrow).submitted = [(19, ⟨['a', 'c', 'b'], false⟩)] ∧
      (Typing.start.stepAll pastedArrow).entered =
        [(19, some ['a', 'b', '\x1b', 'O', 'D', 'c'])] := by
  decide +kernel

end Oryxis.Terminal.Input
