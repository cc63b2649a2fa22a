import NicoOS.Shell.TokenSource

/-!
# Lexing and parsing come to an end

The parser over the buffer and over a list of tokens.  `copy_peek_string` stores nothing into
the buffer, and a page fault, which would only end it sooner, is left out.
-/

namespace NicoOS
namespace Shell

open Lib

namespace Scan

/-!
# The buffer
-/

/-- The loop of `copy_peek_string`; addresses have 32 bits. -/
def copyFrom (mem : Memory) (last : UInt32) : Nat -> UInt32 -> Option Text
  | 0, _ => none
  | k + 1, src =>
      if src ≠ last then do
        let src := if mem src.toNat = backslash ∧ src + 1 ≠ last then src + 1 else src
        let rest <- copyFrom mem last k (src + 1)
        some (mem src.toNat :: rest)
      else
        some []

def copyPeekString (mem : Memory) (k : Nat) (sh : ShellEx) : Option Text :=
  let src := UInt32.ofNat sh.peek.p
  copyFrom mem (src + UInt32.ofInt sh.peek.len) k src

/-- What `report_error` is called with. -/
def messageOf (mem : Memory) (sh : ShellEx) : Complaint -> Message
  | Complaint.unexpected => Message.unexpected (mem sh.peek.p)
  | Complaint.expectedPath => Message.expectedPath
  | Complaint.missingParen => Message.missingParen
  | Complaint.tooManyArguments => Message.tooManyArguments

def bufferSource (mem : Memory) (k : Nat) : TokenSource ShellEx where
  peek sh := sh.peek.type
  advance sh := (scanTok mem k sh).map Prod.snd
  copyPeekString := copyPeekString mem k
  reportError c sh := { sh with messages := sh.messages ++ [messageOf mem sh c] }

/-- `sh_parse`, with the rounds that every loop and every call is given. -/
def shParse (mem : Memory) (buf k : Nat) (sh : ShellEx) : Option (Option Cmd × ShellEx) := do
  let sh <- (bufferSource mem k).advance { sh with p := buf }
  (bufferSource mem k).parseAll k sh

/-- The bytes that are left, as long as the end has not been seen. -/
def bytesLeft (stop : Nat) (sh : ShellEx) : Nat :=
  if sh.peek.type = TokenType.eof then 0 else stop - sh.p + 1

theorem bytesLeft_le (stop : Nat) (sh : ShellEx) : bytesLeft stop sh ≤ stop - sh.p + 1 := by
  unfold bytesLeft
  split
  · exact Nat.zero_le _
  · exact Nat.le_refl _

section Buffer

variable {mem : Memory} {buf stop k : Nat} {sh : ShellEx} {last src : UInt32}

theorem toNat_sub_succ (h : src ≠ last) :
    (last - (src + 1)).toNat + 1 = (last - src).toNat := by
  have hne : src.toNat ≠ last.toNat := fun heq => h (UInt32.toNat_inj.mp heq)
  have hsrc := src.toNat_lt
  have hlast := last.toNat_lt
  rw [UInt32.toNat_sub, UInt32.toNat_sub, UInt32.toNat_add, UInt32.toNat_one]
  omega

/-- The loop meets its end on the way around the address space. -/
theorem copyFrom_ends (mem : Memory) (last : UInt32) (k : Nat) : forall src : UInt32,
    (last - src).toNat < k -> exists text, copyFrom mem last k src = some text := by
  induction k with
  | zero => exact fun _ hk => absurd hk (Nat.not_lt_zero _)
  | succ k ih =>
      intro src hk
      rw [copyFrom]
      split
      · rename_i hne
        have hnext := toNat_sub_succ hne
        split
        · rename_i hescape
          have hafter := toNat_sub_succ hescape.right
          rcases ih (src + 1 + 1) (by lia) with ⟨text, hrun⟩
          dsimp only
          rw [hrun]
          exact ⟨_, rfl⟩
        · rcases ih (src + 1) (by lia) with ⟨text, hrun⟩
          dsimp only
          rw [hrun]
          exact ⟨_, rfl⟩
      · exact ⟨[], rfl⟩

theorem bufferSource_runsOut (h : Terminated mem buf stop) (hk : stop - buf < k)
    (hwrap : UInt32.size ≤ k) :
    (bufferSource mem k).RunsOut (fun sh => buf ≤ sh.p ∧ sh.p ≤ stop) (bytesLeft stop) where
  advance := by
    intro sh hboth hpeek
    rcases hboth with ⟨hlow, hhigh⟩
    have hrounds : stop - sh.p < k := by lia
    rcases scanTok_scanned h hlow hhigh hrounds with ⟨r, hrun, hscanned⟩
    refine ⟨r.2, congrArg (Option.map Prod.snd) hrun,
      ⟨Nat.le_trans hlow hscanned.low, hscanned.high⟩, ?_⟩
    have hnow : bytesLeft stop sh = stop - sh.p + 1 := if_neg hpeek
    rw [hnow, bytesLeft, hscanned.type]
    split
    · exact Nat.succ_pos _
    · rename_i hne
      have hprogress := hscanned.progress hne
      have hbelow := hscanned.high
      lia
  copyPeekString sh _ := copyFrom_ends mem _ k _ (Nat.lt_of_lt_of_le (UInt32.toNat_lt _) hwrap)
  good_reportError _ _ hgood := hgood
  left_reportError _ _ := rfl

theorem shParse_ends (h : Terminated mem buf stop) (hk : 5 * (stop - buf) + 10 ≤ k)
    (hwrap : UInt32.size ≤ k) : exists r, shParse mem buf k sh = some r := by
  have hrounds : stop - buf < k := by lia
  rcases @scanTok_scanned mem buf stop k { sh with p := buf } h (Nat.le_refl _) h.le hrounds with
    ⟨r, hrun, hscanned⟩
  have hlow := hscanned.low
  have hleft := bytesLeft_le stop r.2
  dsimp only at hlow
  rcases (bufferSource_runsOut h (by lia) hwrap).ends_parseAll
    ⟨hscanned.low, hscanned.high⟩ (k := k) (by lia) with ⟨value, sh', hparse, -, -⟩
  have hadvance : (bufferSource mem k).advance { sh with p := buf } = some r.2 :=
    congrArg (Option.map Prod.snd) hrun
  refine ⟨(value, sh'), ?_⟩
  rw [shParse, hadvance]
  exact hparse

def bufferOf (text : Text) : Memory := fun i => text.getD i 0

theorem terminated_bufferOf {text : Text} (h : 0 ∉ text) :
    Terminated (bufferOf text) 0 text.length where
  le := Nat.zero_le _
  nul := by
    rw [bufferOf, List.getD_eq_getElem?_getD, List.getElem?_eq_none (Nat.le_refl _)]
    rfl
  inside p _ hp := by
    rw [bufferOf, List.getD_eq_getElem?_getD, List.getElem?_eq_getElem hp, Option.getD_some]
    exact fun hzero => h (hzero ▸ List.getElem_mem hp)

end Buffer

end Scan

/-!
# A list of tokens
-/

def Parser.reportOf (sh : Parser) : Complaint -> Report
  | Complaint.unexpected => Report.unexpected sh.peek
  | Complaint.expectedPath => Report.expectedPath
  | Complaint.missingParen => Report.missingParen
  | Complaint.tooManyArguments => Report.tooManyArguments

def Parser.peekType (sh : Parser) : Scan.TokenType :=
  match sh.peek with
  | some tok => Scan.typeOf tok
  | none => Scan.TokenType.eof

def listSource : TokenSource Parser where
  peek := Parser.peekType
  advance sh := some sh.advance
  copyPeekString sh :=
    match sh.peek with
    | some (Token.string text) => some (copyPeekString text)
    | _ => some []
  reportError c sh := sh.report (sh.reportOf c)

theorem listSource_runsOut :
    listSource.RunsOut (fun _ => True) (fun sh => sh.rest.length) where
  advance := by
    intro r _ hpeek
    rcases r with ⟨ts, reports⟩
    refine ⟨_, rfl, trivial, ?_⟩
    cases ts with
    | nil => exact absurd rfl hpeek
    | cons t ts => exact Nat.lt_succ_self _
  copyPeekString sh _ := by
    dsimp only [listSource]
    split
    · exact ⟨_, rfl⟩
    · exact ⟨_, rfl⟩
  good_reportError _ _ _ := trivial
  left_reportError _ _ := rfl

/-!
# The parser of token lists
-/

section Lists

variable {k : Nat} {sh : Parser} {t : Token} {ts : List Token} {reports : List Report}

@[simp] theorem peek_cons (t : Token) (ts : List Token) (reports : List Report) :
    Parser.peek ⟨t :: ts, reports⟩ = some t := rfl

@[simp] theorem advance_cons (t : Token) (ts : List Token) (reports : List Report) :
    Parser.advance ⟨t :: ts, reports⟩ = ⟨ts, reports⟩ := rfl

@[simp] theorem listSource_peek_cons (t : Token) (ts : List Token) (reports : List Report) :
    listSource.peek ⟨t :: ts, reports⟩ = Scan.typeOf t := rfl

@[simp] theorem listSource_advance_cons (t : Token) (ts : List Token) (reports : List Report) :
    listSource.advance ⟨t :: ts, reports⟩ = some ⟨ts, reports⟩ := rfl

@[simp] theorem listSource_copyPeekString_cons (text : Text) (ts : List Token)
    (reports : List Report) :
    listSource.copyPeekString ⟨Token.string text :: ts, reports⟩ = some (copyPeekString text) :=
  rfl

theorem isRedir_typeOf (t : Token) : (Scan.typeOf t).isRedir = t.isRedir := by
  cases t <;> rfl

theorem isBinary_typeOf (t : Token) : (Scan.typeOf t).isBinary = t.isBinary := by
  cases t <;> rfl

theorem isList_typeOf (t : Token) : (Scan.typeOf t).isList = t.isList := by
  cases t <;> rfl

theorem joinedBy_typeOf (h : t.isBinary = true) (left right : Cmd) :
    joinedBy (Scan.typeOf t) left right = joined t left right := by
  cases t <;> first
    | rfl
    | cases h

theorem parseRedircmd_list (cmd : Cmd) (h : t.isRedir = true) (sh : Parser) :
    listSource.parseRedircmd cmd (Scan.typeOf t) sh = some (parseRedircmd cmd t sh) := by
  rcases sh with ⟨ts, reports⟩
  cases ts with
  | nil => rfl
  | cons u us =>
      cases u with
      | string text =>
          cases t <;> first
            | rfl
            | cases h
      | _ => rfl

theorem length_parseRedircmd (cmd : Cmd) (t : Token) (sh : Parser) :
    (parseRedircmd cmd t sh).2.rest.length ≤ sh.rest.length := by
  unfold parseRedircmd
  split
  · exact (List.tail_suffix sh.rest).length_le
  · exact Nat.le_refl _

/-- As many rounds as there are tokens are enough for the loop. -/
theorem redirFrom_list (k : Nat) : forall (m : Nat) (cmd : Cmd) (sh : Parser),
    sh.rest.length ≤ m -> sh.rest.length < k ->
    listSource.redirFrom k cmd sh = some (redirFrom m cmd sh) := by
  induction k with
  | zero => exact fun _ _ _ _ hk => absurd hk (Nat.not_lt_zero _)
  | succ k ih =>
      intro m cmd r hm hk
      rcases r with ⟨ts, reports⟩
      cases ts with
      | nil => cases m <;> rfl
      | cons t ts =>
          cases m with
          | zero => exact absurd hm (Nat.not_succ_le_zero _)
          | succ m =>
              rw [TokenSource.redirFrom, redirFrom]
              simp only [listSource_peek_cons, peek_cons, advance_cons, isRedir_typeOf]
              cases hredir : t.isRedir with
              | false => rfl
              | true =>
                  have hlen := length_parseRedircmd cmd t ⟨ts, reports⟩
                  simp only [listSource_advance_cons, Option.bind_eq_bind, Option.bind_some,
                    parseRedircmd_list cmd hredir]
                  rcases hres : parseRedircmd cmd t ⟨ts, reports⟩ with ⟨value, sh'⟩
                  rw [hres] at hlen
                  cases value with
                  | none => rfl
                  | some cmd =>
                      exact ih m cmd sh' (Nat.le_trans hlen (Nat.le_of_succ_le_succ hm))
                        (Nat.lt_of_le_of_lt hlen (Nat.lt_of_succ_lt_succ hk))

theorem execFrom_list (k : Nat) : forall (argv : List Text) (text : Text) (ts : List Token),
    ts.length < k -> listSource.execFrom k argv ⟨Token.string text :: ts, reports⟩ =
      some (execFrom argv (Token.string text :: ts) reports) := by
  induction k with
  | zero => exact fun _ _ _ hk => absurd hk (Nat.not_lt_zero _)
  | succ k ih =>
      intro argv text ts hk
      rw [TokenSource.execFrom, execFrom]
      split
      · rfl
      · simp only [listSource_copyPeekString_cons, listSource_advance_cons, Option.bind_eq_bind,
          Option.bind_some]
        cases ts with
        | nil => rfl
        | cons u us =>
            cases u with
            | string next =>
                rw [listSource_peek_cons, Scan.typeOf, if_pos rfl]
                exact ih _ next us (Nat.lt_of_succ_lt_succ hk)
            | _ => rfl

/-- The parser over a list does what the parser of token lists does. -/
def AllAgree (k : Nat) : Prop :=
  forall (nt : NonTerminal) (sh : Parser), 5 * sh.rest.length + nt.rank ≤ k ->
    listSource.parse nt k sh = nt.parse k sh

/-- Both come to the same result, with no more tokens than there were. -/
theorem AllAgree.run (hall : AllAgree k) (nt : NonTerminal) (sh : Parser)
    (hk : 5 * sh.rest.length + nt.rank ≤ k) :
    exists value ts reports, listSource.parse nt k sh = some (value, ⟨ts, reports⟩) ∧
      nt.parse k sh = some (value, ⟨ts, reports⟩) ∧ ts.length ≤ sh.rest.length := by
  rcases listSource_runsOut.allEnd k nt sh trivial hk with ⟨value, ⟨ts, reports⟩, hrun, -, hle⟩
  exact ⟨value, ts, reports, hrun, (hall nt sh hk).symm.trans hrun, hle⟩

theorem agree_cmd (hall : AllAgree k) (hk : 5 * sh.rest.length + 5 ≤ k + 1) :
    listSource.parseCmd (k + 1) sh = parseCmd (k + 1) sh := by
  have hlist := hall NonTerminal.list sh (by rw [NonTerminal.rank]; lia)
  rcases sh with ⟨ts, reports⟩
  rw [TokenSource.parseCmd, parseCmd]
  cases ts with
  | nil => rfl
  | cons t ts =>
      cases t <;> first
        | exact hlist
        | rfl

theorem agree_list (hall : AllAgree k) (hk : 5 * sh.rest.length + 4 ≤ k + 1) :
    listSource.parseList (k + 1) sh = parseList (k + 1) sh := by
  rcases hall.run NonTerminal.binary sh (by rw [NonTerminal.rank]; lia) with
    ⟨value, us, reports, hover, hrun, hle⟩
  rw [TokenSource.parse] at hover
  rw [NonTerminal.parse] at hrun
  rw [TokenSource.parseList, parseList, hover, hrun]
  simp only [Option.bind_eq_bind, Option.bind_some]
  cases value with
  | none => rfl
  | some left =>
      cases us with
      | nil => rfl
      | cons t us =>
          rw [List.length_cons] at hle
          rcases hall.run NonTerminal.cmd ⟨us, reports⟩ (by rw [NonTerminal.rank]; lia) with
            ⟨right, us', reports', hover', hrun', -⟩
          rw [TokenSource.parse] at hover'
          rw [NonTerminal.parse] at hrun'
          simp only [listSource_peek_cons, peek_cons, listSource_advance_cons, advance_cons,
            isList_typeOf, hover', hrun', Option.bind_some]
          cases right <;> cases t <;> rfl

theorem agree_binary (hall : AllAgree k) (hk : 5 * sh.rest.length + 3 ≤ k + 1) :
    listSource.parseBinary (k + 1) sh = parseBinary (k + 1) sh := by
  rcases hall.run NonTerminal.redir sh (by rw [NonTerminal.rank]; lia) with
    ⟨value, us, reports, hover, hrun, hle⟩
  rw [TokenSource.parse] at hover
  rw [NonTerminal.parse] at hrun
  rw [TokenSource.parseBinary, parseBinary, hover, hrun]
  simp only [Option.bind_eq_bind, Option.bind_some]
  cases value with
  | none => rfl
  | some left =>
      cases us with
      | nil => rfl
      | cons t us =>
          rw [List.length_cons] at hle
          rcases hall.run NonTerminal.binary ⟨us, reports⟩ (by rw [NonTerminal.rank]; lia)
            with ⟨right, us', reports', hover', hrun', -⟩
          rw [TokenSource.parse] at hover'
          rw [NonTerminal.parse] at hrun'
          simp only [listSource_peek_cons, peek_cons, listSource_advance_cons, advance_cons,
            isBinary_typeOf, hover', hrun', Option.bind_some]
          cases hbinary : t.isBinary with
          | false => rfl
          | true =>
              cases right with
              | none => rfl
              | some right =>
                  simp only [joinedBy_typeOf hbinary]

theorem agree_redir (hall : AllAgree k) (hk : 5 * sh.rest.length + 2 ≤ k + 1) :
    listSource.parseRedir (k + 1) sh = parseRedir (k + 1) sh := by
  rcases hall.run NonTerminal.primary sh (by rw [NonTerminal.rank]; lia) with
    ⟨value, us, reports, hover, hrun, hle⟩
  rw [TokenSource.parse] at hover
  rw [NonTerminal.parse] at hrun
  rw [TokenSource.parseRedir, parseRedir, hover, hrun]
  simp only [Option.bind_eq_bind, Option.bind_some]
  cases value with
  | none => rfl
  | some cmd => exact redirFrom_list k us.length cmd ⟨us, reports⟩ (Nat.le_refl _) (by lia)

theorem agree_primary (hall : AllAgree k) (hk : 5 * sh.rest.length + 1 ≤ k + 1) :
    listSource.parsePrimary (k + 1) sh = parsePrimary (k + 1) sh := by
  rcases sh with ⟨ts, reports⟩
  cases ts with
  | nil => rfl
  | cons t ts =>
      rw [List.length_cons] at hk
      rw [TokenSource.parsePrimary, parsePrimary]
      cases t with
      | lparen =>
          rcases hall.run NonTerminal.cmd ⟨ts, reports⟩ (by rw [NonTerminal.rank]; lia) with
            ⟨value, us, reports', hover, hrun, -⟩
          rw [TokenSource.parse] at hover
          rw [NonTerminal.parse] at hrun
          rw [listSource_peek_cons, Scan.typeOf, if_pos rfl]
          simp only [listSource_advance_cons, peek_cons, advance_cons, hover, hrun,
            Option.bind_eq_bind, Option.bind_some]
          cases us with
          | nil => rfl
          | cons u us => cases u <;> rfl
      | string text =>
          exact execFrom_list k [] text ts (by lia)
      | _ => rfl

theorem allAgree (k : Nat) : AllAgree k := by
  induction k with
  | zero =>
      intro nt sh hk
      cases nt <;> exact absurd hk (Nat.not_succ_le_zero _)
  | succ k ih =>
      intro nt sh hk
      cases nt with
      | cmd => exact agree_cmd ih hk
      | list => exact agree_list ih hk
      | binary => exact agree_binary ih hk
      | redir => exact agree_redir ih hk
      | primary => exact agree_primary ih hk

end Lists

/-!
# Every buffer and every list
-/

section Lexing

variable {mem : Memory} {buf stop : Nat}

/--
`scan_tok` goes ahead in the buffer, to its `NUL` and no further, and the parser comes back, from
every buffer and from every list of tokens.
-/
theorem lexing_parsing_end (h : Scan.Terminated mem buf stop) :
    (forall (sh : Scan.ShellEx) (k : Nat), buf ≤ sh.p -> sh.p ≤ stop -> stop - sh.p < k ->
      exists typ sh', Scan.scanTok mem k sh = some (typ, sh') ∧ sh.p ≤ sh'.p ∧ sh'.p ≤ stop ∧
        (typ ≠ Scan.TokenType.eof -> sh.p < sh'.p) ∧
        (typ = Scan.TokenType.eof -> sh'.p = stop) ∧
        (sh.p = stop -> typ = Scan.TokenType.eof)) ∧
    (forall k, 5 * (stop - buf) + 10 ≤ k -> UInt32.size ≤ k -> forall sh : Scan.ShellEx,
      (exists r, Scan.shParse mem buf k sh = some r) ∧
      (buf ≤ sh.p -> sh.p ≤ stop -> forall nt : NonTerminal,
        exists r, (Scan.bufferSource mem k).parse nt k sh = some r)) ∧
    (forall (nt : NonTerminal) (k : Nat) (sh : Parser), 5 * sh.rest.length + nt.rank ≤ k ->
      exists r, listSource.parse nt k sh = some r ∧ nt.parse k sh = some r) := by
  refine ⟨?_, ?_, ?_⟩
  · intro sh k hlow hhigh hk
    rcases Scan.scanTok_scanned h hlow hhigh hk with ⟨⟨typ, sh'⟩, hrun, hscanned⟩
    refine ⟨typ, sh', hrun, hscanned.low, hscanned.high, hscanned.progress, hscanned.eof, ?_⟩
    intro hstop
    by_contra hne
    have hprogress := hscanned.progress hne
    have hbelow := hscanned.high
    dsimp only at hprogress hbelow
    lia
  · intro k hk hwrap sh
    refine ⟨Scan.shParse_ends h hk hwrap, fun hlow hhigh nt => ?_⟩
    have hrank : nt.rank ≤ 5 := by cases nt <;> decide
    have hleft := Scan.bytesLeft_le stop sh
    rcases (Scan.bufferSource_runsOut h (by lia) hwrap).allEnd k nt sh ⟨hlow, hhigh⟩ (by lia) with
      ⟨value, sh', hrun, -, -⟩
    exact ⟨_, hrun⟩
  · intro nt k sh hk
    rcases (allAgree k).run nt sh hk with ⟨value, ts, reports, hover, hrun, -⟩
    exact ⟨_, hover, hrun⟩

/-- A comment, and behind it a quote that nothing closes. -/
theorem lexing_parsing_end_quote :
    exists r, Scan.shParse (Scan.bufferOf [0x23, 0x22, 0x0a, 0x27]) 0 UInt32.size
      ⟨0, ⟨Scan.TokenType.eof, 0, 0⟩, []⟩ = some r :=
  ((lexing_parsing_end (Scan.terminated_bufferOf (by decide))).right.left UInt32.size (by decide)
    (Nat.le_refl _) _).left

end Lexing

end Shell
end NicoOS
