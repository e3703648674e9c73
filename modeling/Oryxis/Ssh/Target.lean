/-
This file is the connect targets `user@host:port` as they are typed, and that what was
accepted is accepted again in the form it is shown in.

What is accepted keeps three rules: the user name is not empty and has neither white space
nor a colon, the host is a host name or an IPv6 address with a zone or without, and the
port is one. The form shown leaves the password out; read back it gives the user name, the
host and the port.
-/

import Oryxis.Library.Decimal
import Oryxis.Library.Ipv6
import Oryxis.Library.Text

namespace Oryxis.Ssh

open Library List

/-! ### Hosts and ports -/

def isHostLetter (c : Char) : Bool := c.isAlphanum || c = '.' || c = '-' || c = '_'

/-- An address, with the name of a zone behind a percent sign or without. -/
def isIpv6Literal (text : List Char) : Bool :=
  match splitOnce '%' text with
  | some (address, zone) => !zone.isEmpty && zone.all isHostLetter && isIpv6Addr address
  | none => isIpv6Addr text

def isHostname (text : List Char) : Bool :=
  !text.isEmpty && text.all isHostLetter && text.any Char.isAlphanum

/-- Digits of a number from 1 to 65535. -/
def parsePort (text : List Char) : Option Nat :=
  if text.isEmpty || !text.all Char.isDigit then none
  else match parseUnsigned (2 ^ 16) text with
    | none => none
    | some 0 => none
    | some (port + 1) => some (port + 1)

/-- The port behind a bracketed address. -/
def parseTail (tail : List Char) : Option (Option Nat) :=
  if tail.isEmpty then some none
  else (stripPrefix [':'] tail).bind fun port => (parsePort port).map some

/-- What stands behind the user name, as a host and a port. -/
def parseHostPort (rest : List Char) : Option (List Char × Option Nat) :=
  match stripPrefix ['['] rest with
  | some inner =>
    match splitOnce ']' inner with
    | none => none
    | some (address, tail) =>
      if !isIpv6Literal address then none
      else (parseTail tail).map fun port => (address, port)
  | none =>
    match rest.count ':' with
    | 0 => if !isHostname rest then none else some (rest, none)
    | 1 =>
      match splitOnce ':' rest with
      | none => none
      | some (host, port) =>
        if !isHostname host then none
        else (parsePort port).map fun port => (host, some port)
    -- More colons are an address that has no port.
    | _ => if !isIpv6Literal rest then none else some (rest, none)

/-! ### Targets -/

structure SshTarget where
  username : Option (List Char)
  password : Option (List Char)
  host : List Char
  port : Option Nat
  deriving DecidableEq, Repr

/-- What stands in front of the last at sign, and the rest. -/
def splitUserinfo (input : List Char) : Option (Option (List Char) × List Char) :=
  match rsplitOnce '@' input with
  | some (user, hostPart) =>
    if user.isEmpty || hostPart.isEmpty then none else some (some user, hostPart)
  | none => some (none, input)

/-- A user name and a password behind the first colon; an empty password is none. -/
def readUserinfo (info : List Char) : Option (List Char × Option (List Char)) :=
  match splitOnce ':' info with
  | some ([], _) => none
  | some (user, password) => some (user, if password.isEmpty then none else some password)
  | none => some (info, none)

/-- An address in brackets, and a host name as it is. -/
def shownHost (host : List Char) : List Char :=
  if ':' ∈ host then ['['] ++ (host ++ [']']) else host

def shownPort (port : Option Nat) : List Char :=
  port.elim [] fun port => [':'] ++ Nat.toDigits 10 port

namespace SshTarget

def parse (input : List Char) : Option SshTarget :=
  let input := trimmed input
  if input.isEmpty || input.any isWhitespace then none
  else do
    let (userinfo, rest) ← splitUserinfo input
    match userinfo with
    | some info =>
      let (username, password) ← readUserinfo info
      let (host, port) ← parseHostPort rest
      return ⟨some username, password, host, port⟩
    | none =>
      let (host, port) ← parseHostPort rest
      return ⟨none, none, host, port⟩

/-- The target as it is shown. -/
def canonical (target : SshTarget) : List Char :=
  target.username.elim [] (· ++ ['@']) ++ (shownHost target.host ++ shownPort target.port)

def scheme : List Char := "ssh://".toList

/-- A target typed where a host belongs. -/
def fromHostField (value : List Char) : Option SshTarget :=
  let value := trimmed value
  parse ((stripPrefix scheme value).getD value)

def withoutPassword (target : SshTarget) : SshTarget := { target with password := none }

end SshTarget

inductive HostFieldFault where
  | username
  | whitespace
  | scheme
  | malformed

/-- Whether a text has another within it. -/
def containsText (part : List Char) : List Char → Bool
  | [] => part.isEmpty
  | letter :: text => part.isPrefixOf (letter :: text) || containsText part text

def isPlainHost (host : List Char) : Bool :=
  match stripPrefix ['['] host with
  | some inner =>
    match inner.reverse with
    | [] => false
    | last :: front => last = ']' && isIpv6Literal front.reverse
  | none => isHostname host || isIpv6Literal host

/-- What a stored host has besides a host. -/
def diagnoseHostField (host : List Char) : Option HostFieldFault :=
  if isPlainHost host then none
  else if '@' ∈ host then some .username
  else if host.any isWhitespace then some .whitespace
  else if containsText "://".toList host then some .scheme
  else some .malformed

/-! ### Letters -/

/-- The letters of hosts of both kinds. -/
def isLiteralLetter (c : Char) : Bool := isHostLetter c || c = ':' || c = '%'

variable {c : Char}

theorem isLiteralLetter_of_isHostLetter (letter : isHostLetter c = true) :
    isLiteralLetter c = true := by
  rw [isLiteralLetter, letter]
  rfl

theorem isAlphanum_of_isHexDigit (digit : isHexDigit c = true) :
    c.isAlphanum = true := by
  delta Char.isAlphanum Char.isAlpha Char.isUpper Char.isLower
  simp only [isHexDigit, Char.isDigit, Bool.or_eq_true, Bool.and_eq_true, decide_eq_true_eq,
    Char.le_def, UInt32.le_iff_toNat_le, ge_iff_le] at digit ⊢
  rcases digit with (decimal | ⟨low, high⟩) | ⟨low, high⟩
  · exact .inr decimal
  · exact .inl (.inr ⟨low, Nat.le_trans high (by decide)⟩)
  · exact .inl (.inl ⟨low, Nat.le_trans high (by decide)⟩)

theorem isLiteralLetter_of_isAddressLetter (letter : isAddressLetter c = true) :
    isLiteralLetter c = true := by
  rw [isAddressLetter, Bool.or_eq_true, Bool.or_eq_true, decide_eq_true_eq,
    decide_eq_true_eq] at letter
  rcases letter with (hex | rfl) | rfl
  · rw [isLiteralLetter, isHostLetter, isAlphanum_of_isHexDigit hex]
    rfl
  · decide
  · decide

theorem range_of_isAlphanum (letter : c.isAlphanum = true) :
    48 ≤ c.toNat ∧ c.toNat ≤ 122 := by
  delta Char.isAlphanum Char.isAlpha Char.isUpper Char.isLower at letter
  simp only [Char.isDigit, Bool.or_eq_true, Bool.and_eq_true, decide_eq_true_eq,
    UInt32.le_iff_toNat_le, ge_iff_le] at letter
  rcases letter with (⟨low, high⟩ | ⟨low, high⟩) | ⟨low, high⟩ <;>
    exact ⟨Nat.le_trans (by decide) low, Nat.le_trans high (by decide)⟩

theorem isWhitespace_of_isLiteralLetter (letter : isLiteralLetter c = true) :
    isWhitespace c = false := by
  simp only [isLiteralLetter, isHostLetter, Bool.or_eq_true, decide_eq_true_eq] at letter
  rcases letter with ((((alphanum | rfl) | rfl) | rfl) | rfl) | rfl
  · have range := range_of_isAlphanum alphanum
    simp only [isWhitespace, Bool.or_eq_false_iff, Bool.and_eq_false_imp, decide_eq_true_eq,
      decide_eq_false_iff_not]
    omega
  all_goals decide

variable {text : List Char}

/-- A letter that no host has is none of its letters. -/
theorem notMem_of_all {kind : Char → Bool} (all : ∀ letter ∈ text, kind letter = true)
    (other : kind c = false) : c ∉ text := by
  intro member
  rw [all c member] at other
  cases other

/-! ### What is accepted -/

theorem isHostname_letters (hostname : isHostname text = true) :
    text ≠ [] ∧ ∀ c ∈ text, isHostLetter c = true := by
  rw [isHostname, Bool.and_eq_true, Bool.and_eq_true, Bool.not_eq_true', all_eq_true]
    at hostname
  exact ⟨isEmpty_eq_false_iff.mp hostname.1.1, hostname.1.2⟩

theorem isIpv6Literal_letters (literal : isIpv6Literal text = true) :
    (∀ c ∈ text, isLiteralLetter c = true) ∧ ':' ∈ text := by
  rw [isIpv6Literal] at literal
  split at literal
  · rename_i address zone isParts
    obtain ⟨rfl, -⟩ := splitOnce_eq_some_iff.mp isParts
    rw [Bool.and_eq_true, Bool.and_eq_true, all_eq_true] at literal
    obtain ⟨addressLetters, colon⟩ := isIpv6Addr_letters literal.2
    refine ⟨fun c member => ?_, mem_append_left _ colon⟩
    rcases mem_append.mp member with inAddress | behind
    · exact isLiteralLetter_of_isAddressLetter (addressLetters c inAddress)
    · rcases mem_cons.mp behind with rfl | inZone
      · decide
      · exact isLiteralLetter_of_isHostLetter (literal.1.2 c inZone)
  · obtain ⟨addressLetters, colon⟩ := isIpv6Addr_letters literal
    exact ⟨fun c member => isLiteralLetter_of_isAddressLetter (addressLetters c member), colon⟩

/-- A host of one of the two kinds. -/
inductive IsHost (host : List Char) : Prop where
  | hostname (isName : isHostname host = true)
  | literal (isLiteral : isIpv6Literal host = true)

theorem IsHost.letters {host : List Char} (isHost : IsHost host) :
    host ≠ [] ∧ ∀ c ∈ host, isLiteralLetter c = true := by
  cases isHost with
  | hostname isName =>
    obtain ⟨nonempty, letters⟩ := isHostname_letters isName
    exact ⟨nonempty, fun c member => isLiteralLetter_of_isHostLetter (letters c member)⟩
  | literal isLiteral =>
    obtain ⟨letters, colon⟩ := isIpv6Literal_letters isLiteral
    exact ⟨ne_nil_of_mem colon, letters⟩

def IsPort (port : Nat) : Prop := 0 < port ∧ port < 2 ^ 16

theorem isPort_of_parsePort {port : Nat} (parsed : parsePort text = some port) :
    IsPort port := by
  rw [parsePort] at parsed
  split_ifs at parsed with malformed
  split at parsed
  · cases parsed
  · cases parsed
  · rename_i found isFound
    cases parsed
    exact ⟨Nat.succ_pos found, parseUnsigned_lt isFound⟩

theorem parsePort_toDigits {port : Nat} (isPort : IsPort port) :
    parsePort (Nat.toDigits 10 port) = some port := by
  have digits : (Nat.toDigits 10 port).all Char.isDigit = true :=
    all_eq_true.mpr fun _ => isDigit_of_mem_toDigits
  have nonempty : (Nat.toDigits 10 port).isEmpty = false :=
    isEmpty_eq_false_iff.mpr Nat.toDigits_ne_nil
  obtain ⟨positive, fits⟩ := isPort
  obtain ⟨less, rfl⟩ := Nat.exists_eq_succ_of_ne_zero (Nat.ne_of_gt positive)
  rw [parsePort, nonempty, digits, parseUnsigned_toDigits fits]
  rfl

variable {port : Option Nat} {host : List Char}

/-- What is accepted behind the user name. -/
theorem of_parseHostPort {rest : List Char} (parsed : parseHostPort rest = some (host, port)) :
    IsHost host ∧ ∀ number, port = some number → IsPort number := by
  rw [parseHostPort] at parsed
  split at parsed
  · rename_i inner isInner
    split at parsed
    · cases parsed
    · rename_i address tail isParts
      split_ifs at parsed with literal
      obtain ⟨found, isFound, same⟩ := Option.map_eq_some_iff.mp parsed
      cases same
      refine ⟨.literal (by simpa using literal), fun number isNumber => ?_⟩
      rw [isNumber, parseTail] at isFound
      split_ifs at isFound with empty
      · cases isFound
      · obtain ⟨text, -, isText⟩ := Option.bind_eq_some_iff.mp isFound
        obtain ⟨digits, isDigits, same⟩ := Option.map_eq_some_iff.mp isText
        cases same
        exact isPort_of_parsePort isDigits
  · split at parsed
    · split_ifs at parsed with hostname
      cases parsed
      exact ⟨.hostname (by simpa using hostname), by intro number none; cases none⟩
    · split at parsed
      · cases parsed
      · rename_i name text isParts
        split_ifs at parsed with hostname
        obtain ⟨found, isFound, same⟩ := Option.map_eq_some_iff.mp parsed
        cases same
        refine ⟨.hostname (by simpa using hostname), fun number isNumber => ?_⟩
        cases isNumber
        exact isPort_of_parsePort isFound
    · split_ifs at parsed with literal
      cases parsed
      exact ⟨.literal (by simpa using literal), by intro number none; cases none⟩

/-! ### What is shown -/

theorem stripPrefix_singleton_eq_none {first letter : Char} (other : letter ≠ first) :
    stripPrefix [first] (letter :: text) = none := by
  rw [stripPrefix, if_neg]
  rw [List.isPrefixOf_iff_prefix, cons_prefix_cons]
  exact fun begins => other begins.1.symm

theorem parseTail_shownPort (isPort : ∀ number, port = some number → IsPort number) :
    parseTail (shownPort port) = some port := by
  cases port with
  | none => rfl
  | some number =>
    have parsed := parsePort_toDigits (isPort number rfl)
    rw [parseTail, shownPort, Option.elim_some, stripPrefix_append, Option.bind_some, parsed]
    rfl

/-- The host and the port that are shown are read again. -/
theorem parseHostPort_shown (isHost : IsHost host)
    (isPort : ∀ number, port = some number → IsPort number) :
    parseHostPort (shownHost host ++ shownPort port) = some (host, port) := by
  cases isHost with
  | literal isLiteral =>
    obtain ⟨letters, colon⟩ := isIpv6Literal_letters isLiteral
    have bracket : ']' ∉ host := notMem_of_all letters (by decide)
    have whole : shownHost host ++ shownPort port = ['['] ++ (host ++ ']' :: shownPort port) := by
      rw [shownHost, if_pos colon, append_assoc, append_assoc]
      rfl
    have split : splitOnce ']' (host ++ ']' :: shownPort port) = some (host, shownPort port) :=
      splitOnce_eq_some_iff.mpr ⟨rfl, bracket⟩
    rw [whole, parseHostPort, stripPrefix_append]
    dsimp only
    rw [split]
    simp only [isLiteral, parseTail_shownPort isPort]
    rfl
  | hostname isName =>
    obtain ⟨nonempty, letters⟩ := isHostname_letters isName
    have colon : ':' ∉ host := notMem_of_all letters (by decide)
    obtain ⟨letter, others, rfl⟩ := exists_cons_of_ne_nil nonempty
    have other : letter ≠ '[' := fun same => by
      have isLetter := letters letter mem_cons_self
      rw [same] at isLetter
      exact absurd isLetter (by decide)
    have strip : stripPrefix ['['] (letter :: others ++ shownPort port) = none :=
      stripPrefix_singleton_eq_none other
    rw [shownHost, if_neg colon, parseHostPort, strip]
    dsimp only
    cases port with
    | none =>
      have count : (letter :: others ++ shownPort none).count ':' = 0 := by
        rw [shownPort, Option.elim_none, append_nil]
        exact count_eq_zero.mpr colon
      rw [count, shownPort, Option.elim_none, append_nil]
      simp only [isName]
      rfl
    | some number =>
      have noColon : ':' ∉ Nat.toDigits 10 number := fun member =>
        absurd (isDigit_of_mem_toDigits member) (by decide)
      have count : (letter :: others ++ shownPort (some number)).count ':' = 1 := by
        rw [count_append, count_eq_zero.mpr colon, shownPort, Option.elim_some,
          singleton_append, count_cons_self, count_eq_zero.mpr noColon]
      have split : splitOnce ':' (letter :: others ++ shownPort (some number)) =
          some (letter :: others, Nat.toDigits 10 number) :=
        splitOnce_eq_some_iff.mpr ⟨rfl, colon⟩
      rw [count, split]
      simp only [isName, parsePort_toDigits (isPort number rfl)]
      rfl

theorem isPlainHost_of_isHost (isHost : IsHost host) :
    isPlainHost host = true := by
  obtain ⟨nonempty, letters⟩ := isHost.letters
  obtain ⟨letter, others, rfl⟩ := exists_cons_of_ne_nil nonempty
  have other : letter ≠ '[' := fun same => by
    have isLetter := letters letter mem_cons_self
    rw [same] at isLetter
    exact absurd isLetter (by decide)
  rw [isPlainHost, stripPrefix_singleton_eq_none other]
  cases isHost with
  | hostname isName => exact Bool.or_eq_true_iff.mpr (.inl isName)
  | literal isLiteral => exact Bool.or_eq_true_iff.mpr (.inr isLiteral)

theorem mem_shown_letters (isHost : IsHost host) :
    ∀ c ∈ shownHost host ++ shownPort port, isWhitespace c = false ∧ c ≠ '@' := by
  have shown : ∀ c ∈ shownHost host ++ shownPort port,
      isLiteralLetter c = true ∨ c = '[' ∨ c = ']' := by
    intro c member
    rcases mem_append.mp member with inHost | inPort
    · rw [shownHost] at inHost
      split_ifs at inHost with colon
      · rw [singleton_append] at inHost
        rcases mem_cons.mp inHost with rfl | inside
        · exact .inr (.inl rfl)
        · rcases mem_append.mp inside with letter | last
          · exact .inl (isHost.letters.2 c letter)
          · exact .inr (.inr (mem_singleton.mp last))
      · exact .inl (isHost.letters.2 c inHost)
    · cases port with
      | none => cases inPort
      | some number =>
        rcases mem_cons.mp inPort with rfl | digit
        · exact .inl (by decide)
        · have alphanum : c.isAlphanum = true := by
            rw [Char.isAlphanum, isDigit_of_mem_toDigits digit, Bool.or_true]
          refine .inl ?_
          rw [isLiteralLetter, isHostLetter, alphanum]
          rfl
  intro c member
  rcases shown c member with letter | rfl | rfl
  · refine ⟨isWhitespace_of_isLiteralLetter letter, fun same => ?_⟩
    rw [same] at letter
    exact absurd letter (by decide)
  · decide
  · decide

namespace SshTarget

/-- The rules that what is accepted keeps. -/
structure WellFormed (target : SshTarget) : Prop where
  userNonempty : ∀ user, target.username = some user → user ≠ []
  userColon : ∀ user, target.username = some user → ':' ∉ user
  userWhitespace : ∀ user, target.username = some user → ∀ c ∈ user, isWhitespace c = false
  host : IsHost target.host
  port : ∀ number, target.port = some number → IsPort number

namespace WellFormed

variable {target : SshTarget} (wellFormed : target.WellFormed)

include wellFormed

theorem canonical_whitespace : ∀ c ∈ target.canonical, isWhitespace c = false := by
  intro c member
  rcases mem_append.mp member with inUser | shown
  · cases isUser : target.username with
    | none =>
      rw [isUser] at inUser
      cases inUser
    | some user =>
      rw [isUser] at inUser
      rcases mem_append.mp inUser with letter | last
      · exact wellFormed.userWhitespace user isUser c letter
      · rw [mem_singleton.mp last]
        decide
  · exact (mem_shown_letters wellFormed.host c shown).1

theorem shownHost_ne_nil : shownHost target.host ++ shownPort target.port ≠ [] := by
  refine append_ne_nil_of_left_ne_nil ?_ _
  rw [shownHost]
  split_ifs
  · exact cons_ne_nil _ _
  · exact wellFormed.host.letters.1

theorem splitUserinfo_canonical :
    splitUserinfo target.canonical =
      some (target.username, shownHost target.host ++ shownPort target.port) := by
  have noAt : '@' ∉ shownHost target.host ++ shownPort target.port := fun member =>
    (mem_shown_letters wellFormed.host '@' member).2 rfl
  rw [splitUserinfo, canonical]
  cases isUser : target.username with
  | none =>
    rw [Option.elim_none, nil_append, rsplitOnce_eq_none_iff.mpr noAt]
  | some user =>
    rw [Option.elim_some, append_assoc, singleton_append, rsplitOnce_append user noAt]
    have userNonempty : user.isEmpty = false :=
      isEmpty_eq_false_iff.mpr (wellFormed.userNonempty user isUser)
    have restNonempty := isEmpty_eq_false_iff.mpr wellFormed.shownHost_ne_nil
    simp only [userNonempty, restNonempty]
    rfl

/-- What is shown is accepted, without the password. -/
theorem parse_canonical : parse target.canonical = some target.withoutPassword := by
  have trim : trimmed target.canonical = target.canonical :=
    trimmed_of_notMem wellFormed.canonical_whitespace
  have nonempty : target.canonical.isEmpty = false := by
    refine isEmpty_eq_false_iff.mpr ?_
    rw [canonical]
    exact append_ne_nil_of_right_ne_nil _ wellFormed.shownHost_ne_nil
  have plain : target.canonical.any isWhitespace = false :=
    any_eq_false.mpr fun c member =>
      Bool.not_eq_true _ ▸ wellFormed.canonical_whitespace c member
  have shown := parseHostPort_shown wellFormed.host wellFormed.port
  rw [parse]
  dsimp only
  rw [trim, nonempty, plain, Bool.or_false, if_neg Bool.false_ne_true,
    wellFormed.splitUserinfo_canonical]
  cases isUser : target.username with
  | none =>
    simp only [Option.bind_eq_bind, Option.bind_some, shown, withoutPassword, isUser]
    rfl
  | some user =>
    have info : readUserinfo user = some (user, none) := by
      rw [readUserinfo, splitOnce_eq_none_iff.mpr (wellFormed.userColon user isUser)]
    simp only [Option.bind_eq_bind, Option.bind_some, info, shown, withoutPassword, isUser]
    rfl

theorem fromHostField_canonical :
    fromHostField (scheme ++ target.canonical) = some target.withoutPassword := by
  have trim : trimmed (scheme ++ target.canonical) = scheme ++ target.canonical := by
    refine trimmed_of_notMem fun c member => ?_
    rcases mem_append.mp member with inScheme | later
    · have plain : scheme.all (fun c => !isWhitespace c) = true := by decide
      exact Bool.not_eq_true' _ ▸ all_eq_true.mp plain c inScheme
    · exact wellFormed.canonical_whitespace c later
  rw [fromHostField, trim, stripPrefix_append, Option.getD_some, wellFormed.parse_canonical]

end WellFormed

/-- What is accepted is well formed, and a password stands between the user name and the rest. -/
theorem wellFormed_of_parse {input : List Char} {target : SshTarget}
    (parsed : parse input = some target) :
    target.WellFormed ∧
      ∀ password, target.password = some password →
        ∃ user rest, trimmed input = user ++ ':' :: (password ++ '@' :: rest) ∧
          target.username = some user ∧ parseHostPort rest = some (target.host, target.port) := by
  simp only [parse] at parsed
  split_ifs at parsed with unfit
  rw [Bool.or_eq_true, not_or, any_eq_true] at unfit
  have plain : ∀ c ∈ trimmed input, isWhitespace c = false := fun c member =>
    Bool.eq_false_iff.mpr fun white => unfit.2 ⟨c, member, white⟩
  obtain ⟨⟨userinfo, rest⟩, isSplit, parsed⟩ := Option.bind_eq_some_iff.mp parsed
  rw [splitUserinfo] at isSplit
  split at isSplit
  · rename_i info hostPart isParts
    obtain ⟨whole, -⟩ := eq_append_of_rsplitOnce isParts
    split_ifs at isSplit with empty
    cases isSplit
    rw [Bool.or_eq_true, not_or, List.isEmpty_iff, List.isEmpty_iff] at empty
    obtain ⟨⟨username, password⟩, isInfo, parsed⟩ := Option.bind_eq_some_iff.mp parsed
    obtain ⟨⟨host, port⟩, isHostPort, same⟩ := Option.bind_eq_some_iff.mp parsed
    cases same
    obtain ⟨isHost, isPort⟩ := of_parseHostPort isHostPort
    rw [readUserinfo] at isInfo
    split at isInfo
    · cases isInfo
    · rename_i user secret someUser isUser
      obtain ⟨parts, colon⟩ := splitOnce_eq_some_iff.mp isUser
      cases isInfo
      rw [parts] at whole
      refine ⟨⟨?_, ?_, ?_, isHost, isPort⟩, ?_⟩
      · rintro _ ⟨⟩
        exact someUser
      · rintro _ ⟨⟩
        exact colon
      · rintro _ ⟨⟩ c member
        refine plain c ?_
        rw [whole]
        exact mem_append_left _ (mem_append_left _ member)
      · intro found isFound
        dsimp only at isFound
        split_ifs at isFound with none
        cases isFound
        refine ⟨username, rest, ?_, rfl, isHostPort⟩
        rw [whole, append_assoc]
        rfl
    · rename_i noColon
      cases isInfo
      refine ⟨⟨?_, ?_, ?_, isHost, isPort⟩, by intro found none; cases none⟩
      · rintro _ ⟨⟩
        exact empty.1
      · rintro _ ⟨⟩
        exact splitOnce_eq_none_iff.mp noColon
      · rintro _ ⟨⟩ c member
        refine plain c ?_
        rw [whole]
        exact mem_append_left _ member
  · cases isSplit
    obtain ⟨⟨host, port⟩, isHostPort, same⟩ := Option.bind_eq_some_iff.mp parsed
    cases same
    obtain ⟨isHost, isPort⟩ := of_parseHostPort isHostPort
    refine ⟨⟨?_, ?_, ?_, isHost, isPort⟩, ?_⟩ <;>
      · intro found none
        cases none

/-! ### Main result -/

/-- What was accepted is accepted again as it is shown, with a scheme in front or not, without the
password; and what the password was is in none of its parts. -/
theorem parse_canonical_of_parse {input : List Char} {target : SshTarget}
    (parsed : parse input = some target) :
    parse target.canonical = some target.withoutPassword ∧
      fromHostField (scheme ++ target.canonical) = some target.withoutPassword ∧
      diagnoseHostField target.host = none ∧
      (∀ user, target.username = some user → ':' ∉ user) ∧
      ∀ password, target.password = some password →
        ∃ user rest, trimmed input = user ++ ':' :: (password ++ '@' :: rest) ∧
          target.username = some user ∧ parseHostPort rest = some (target.host, target.port) := by
  obtain ⟨wellFormed, secret⟩ := wellFormed_of_parse parsed
  refine ⟨wellFormed.parse_canonical, wellFormed.fromHostField_canonical, ?_,
    wellFormed.userColon, secret⟩
  rw [diagnoseHostField, if_pos (isPlainHost_of_isHost wellFormed.host)]

/-- A user name, a password, an address with a zone and a port. -/
theorem parse_canonical_zoned :
    parse "root:a:b@[fe80::1%eth0]:0022".toList =
        some ⟨some "root".toList, some "a:b".toList, "fe80::1%eth0".toList, some 22⟩ ∧
      parse "root@[fe80::1%eth0]:22".toList =
        some ⟨some "root".toList, none, "fe80::1%eth0".toList, some 22⟩ := by
  have parsed : parse "root:a:b@[fe80::1%eth0]:0022".toList =
      some ⟨some "root".toList, some "a:b".toList, "fe80::1%eth0".toList, some 22⟩ := by
    decide
  exact ⟨parsed, (parse_canonical_of_parse parsed).1⟩

end SshTarget

end Oryxis.Ssh
