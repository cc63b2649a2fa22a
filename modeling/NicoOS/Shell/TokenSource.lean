import NicoOS.Shell.Grammar
import NicoOS.Shell.ScanTok

/-!
# The parser over its lexer

The functions of `shell/sh/sh_parser.c` that call `advance`, `peek` and `copy_peek_string`,
over any state that has these.  Every loop and every call goes down by a round, and there is no
result where the rounds are used up, where the lexer has none, or behind `PANIC`.  No call of
`malloc` fails.
-/

namespace NicoOS
namespace Shell

open Scan

/-- The calls of `report_error`. -/
inductive Complaint where
  | unexpected
  | expectedPath
  | missingParen
  | tooManyArguments
  deriving DecidableEq, Repr

/-- What the parser uses of `struct shell_ex`. -/
structure TokenSource (σ : Type) where
  peek : σ -> TokenType
  advance : σ -> Option σ
  copyPeekString : σ -> Option Text
  reportError : Complaint -> σ -> σ

def Scan.TokenType.isRedir : TokenType -> Bool
  | TokenType.gt | TokenType.gtgt | TokenType.lt => true
  | _ => false

def Scan.TokenType.isBinary : TokenType -> Bool
  | TokenType.pipe | TokenType.and | TokenType.or => true
  | _ => false

def Scan.TokenType.isList : TokenType -> Bool
  | TokenType.semi | TokenType.back => true
  | _ => false

/-- The file descriptor and the flags of a redirection; `PANIC` does not come back. -/
def redirection : TokenType -> Option (Nat × Nat)
  | TokenType.gtgt => some (stdout, oAppend ||| oWronly ||| oCreat)
  | TokenType.gt => some (stdout, oWronly ||| oCreat)
  | TokenType.lt => some (stdin, oRdonly)
  | _ => none

/-- The command of an operator of `parse_binary`. -/
def joinedBy : TokenType -> Cmd -> Cmd -> Cmd
  | TokenType.pipe, left, right => Cmd.pipe left right
  | TokenType.and, left, right => Cmd.binary left right Token.and
  | _, left, right => Cmd.binary left right Token.or

namespace TokenSource

section Functions

variable {σ : Type} (src : TokenSource σ)

def parseRedircmd (left : Cmd) (optok : TokenType) (sh : σ) : Option (Option Cmd × σ) :=
  if src.peek sh = TokenType.string then do
    let (fd, mode) <- redirection optok
    let file <- src.copyPeekString sh
    let sh <- src.advance sh
    some (some (Cmd.redir left fd mode (cString file)), sh)
  else
    some (none, src.reportError Complaint.expectedPath sh)

def redirFrom : Nat -> Cmd -> σ -> Option (Option Cmd × σ)
  | 0, _, _ => none
  | k + 1, cmd, sh =>
      let optok := src.peek sh
      if optok.isRedir then do
        let sh <- src.advance sh
        match <- src.parseRedircmd cmd optok sh with
        | (none, sh) => some (none, sh)
        | (some cmd, sh) => redirFrom k cmd sh
      else
        some (some cmd, sh)

def execFrom : Nat -> List Text -> σ -> Option (Option Cmd × σ)
  | 0, _, _ => none
  | k + 1, argv, sh =>
      if maxArgv - 1 ≤ argv.length then
        some (none, src.reportError Complaint.tooManyArguments sh)
      else do
        let arg <- src.copyPeekString sh
        let sh <- src.advance sh
        if src.peek sh = TokenType.string then
          execFrom k (argv ++ [arg]) sh
        else
          some (some (Cmd.exec (argv ++ [arg])), sh)

mutual

def parseCmd : Nat -> σ -> Option (Option Cmd × σ)
  | 0, _ => none
  | k + 1, sh =>
      if src.peek sh = TokenType.lparen ∨ src.peek sh = TokenType.string then
        parseList k sh
      else
        some (none, sh)

def parseList : Nat -> σ -> Option (Option Cmd × σ)
  | 0, _ => none
  | k + 1, sh => do
      match <- parseBinary k sh with
      | (none, sh) => some (none, sh)
      | (some left, sh) =>
          if (src.peek sh).isList then do
            let left := if src.peek sh = TokenType.back then Cmd.back left else left
            let sh <- src.advance sh
            match <- parseCmd k sh with
            | (some right, sh) => some (some (Cmd.list left right), sh)
            | (none, sh) => some (some left, sh)
          else
            some (some left, sh)

def parseBinary : Nat -> σ -> Option (Option Cmd × σ)
  | 0, _ => none
  | k + 1, sh => do
      match <- parseRedir k sh with
      | (none, sh) => some (none, sh)
      | (some left, sh) =>
          let operator := src.peek sh
          if operator.isBinary then do
            let sh <- src.advance sh
            match <- parseBinary k sh with
            | (none, sh) => some (none, sh)
            | (some right, sh) => some (some (joinedBy operator left right), sh)
          else
            some (some left, sh)

def parseRedir : Nat -> σ -> Option (Option Cmd × σ)
  | 0, _ => none
  | k + 1, sh => do
      match <- parsePrimary k sh with
      | (none, sh) => some (none, sh)
      | (some cmd, sh) => src.redirFrom k cmd sh

def parsePrimary : Nat -> σ -> Option (Option Cmd × σ)
  | 0, _ => none
  | k + 1, sh =>
      if src.peek sh = TokenType.lparen then do
        let sh <- src.advance sh
        let (cmd, sh) <- parseCmd k sh
        if src.peek sh = TokenType.rparen then do
          let sh <- src.advance sh
          some (cmd, sh)
        else
          some (none, src.reportError Complaint.missingParen sh)
      else if src.peek sh = TokenType.string then
        src.execFrom k [] sh
      else
        some (none, src.reportError Complaint.unexpected sh)

end

def parseAll (k : Nat) (sh : σ) : Option (Option Cmd × σ) := do
  match <- src.parseCmd k sh with
  | (none, sh) => some (none, sh)
  | (some cmd, sh) =>
      if src.peek sh = TokenType.eof then
        some (some cmd, sh)
      else
        some (none, src.reportError Complaint.unexpected sh)

def parse : NonTerminal -> Nat -> σ -> Option (Option Cmd × σ)
  | NonTerminal.cmd => src.parseCmd
  | NonTerminal.list => src.parseList
  | NonTerminal.binary => src.parseBinary
  | NonTerminal.redir => src.parseRedir
  | NonTerminal.primary => src.parsePrimary

end Functions

/-!
# A measure
-/

/-- Every token that is taken leaves less, and a string can be copied. -/
structure RunsOut {σ : Type} (src : TokenSource σ) (good : σ -> Prop) (left : σ -> Nat) :
    Prop where
  advance : forall sh, good sh -> src.peek sh ≠ TokenType.eof ->
    exists sh', src.advance sh = some sh' ∧ good sh' ∧ left sh' < left sh
  copyPeekString : forall sh, good sh -> exists text, src.copyPeekString sh = some text
  good_reportError : forall c sh, good sh -> good (src.reportError c sh)
  left_reportError : forall c sh, left (src.reportError c sh) = left sh

/-- A parse function comes back, with no more left than there was. -/
def Ends {σ : Type} (good : σ -> Prop) (left : σ -> Nat) (n : Nat)
    (r : Option (Option Cmd × σ)) : Prop :=
  exists value sh, r = some (value, sh) ∧ good sh ∧ left sh ≤ n

section Measure

variable {σ : Type} {src : TokenSource σ} {good : σ -> Prop} {left : σ -> Nat} {sh : σ}
  {n m k : Nat} {r : Option (Option Cmd × σ)}

theorem Ends.le (h : Ends good left n r) (hn : n ≤ m) : Ends good left m r := by
  rcases h with ⟨value, sh, hr, hgood, hleft⟩
  exact ⟨value, sh, hr, hgood, Nat.le_trans hleft hn⟩

/-- Where the rest of a function comes back, the function does. -/
theorem Ends.bind {f : Option Cmd × σ -> Option (Option Cmd × σ)} (h : Ends good left n r)
    (hf : forall value sh, good sh -> left sh ≤ n -> Ends good left m (f (value, sh))) :
    Ends good left m (r.bind f) := by
  rcases h with ⟨value, sh, hr, hgood, hleft⟩
  rw [hr]
  exact hf value sh hgood hleft

theorem ends_some (value : Option Cmd) (hgood : good sh) (hleft : left sh ≤ n) :
    Ends good left n (some (value, sh)) :=
  ⟨value, sh, rfl, hgood, hleft⟩

theorem RunsOut.ends_reportError (h : RunsOut src good left) (c : Complaint) (hgood : good sh)
    (hleft : left sh ≤ n) : Ends good left n (some (none, src.reportError c sh)) :=
  ends_some none (h.good_reportError c sh hgood)
    (Nat.le_trans (Nat.le_of_eq (h.left_reportError c sh)) hleft)

theorem RunsOut.ends_advance (h : RunsOut src good left) (hgood : good sh)
    (hpeek : src.peek sh ≠ TokenType.eof) {f : σ -> Option (Option Cmd × σ)}
    (hf : forall sh', good sh' -> left sh' < left sh -> Ends good left n (f sh')) :
    Ends good left n ((src.advance sh).bind f) := by
  rcases h.advance sh hgood hpeek with ⟨sh', hrun, hgood', hlt⟩
  rw [hrun]
  exact hf sh' hgood' hlt

theorem ne_eof_of {p : TokenType -> Bool} {t : TokenType} (h : p t = true)
    (heof : p TokenType.eof = false) : t ≠ TokenType.eof := by
  intro heq
  subst heq
  exact Bool.false_ne_true (heof.symm.trans h)

theorem redirection_of_isRedir {t : TokenType} (h : t.isRedir = true) :
    exists fd mode, redirection t = some (fd, mode) := by
  cases t <;> first
    | exact ⟨_, _, rfl⟩
    | cases h

theorem RunsOut.ends_parseRedircmd (h : RunsOut src good left) (cmd : Cmd) {optok : TokenType}
    (hoptok : optok.isRedir = true) (hgood : good sh) :
    Ends good left (left sh) (src.parseRedircmd cmd optok sh) := by
  unfold parseRedircmd
  split
  · rename_i hstring
    rcases redirection_of_isRedir hoptok with ⟨fd, mode, hredir⟩
    rcases h.copyPeekString sh hgood with ⟨file, hfile⟩
    rw [hredir, hfile]
    apply h.ends_advance hgood (hstring.trans_ne (by decide))
    exact fun sh' hgood' hlt => ends_some _ hgood' (Nat.le_of_lt hlt)
  · exact h.ends_reportError _ hgood (Nat.le_refl _)

theorem RunsOut.ends_redirFrom (h : RunsOut src good left) (k : Nat) : forall (cmd : Cmd) (sh : σ),
    good sh -> left sh < k -> Ends good left (left sh) (src.redirFrom k cmd sh) := by
  induction k with
  | zero => exact fun _ _ _ hk => absurd hk (Nat.not_lt_zero _)
  | succ k ih =>
      intro cmd sh hgood hk
      rw [redirFrom]
      split
      · rename_i hredir
        apply h.ends_advance hgood (ne_eof_of hredir rfl)
        intro sh' hgood' hlt
        apply (h.ends_parseRedircmd cmd hredir hgood').bind
        intro value sh'' hgood'' hle
        cases value with
        | none => exact ends_some _ hgood'' (by lia)
        | some cmd => exact (ih cmd sh'' hgood'' (by lia)).le (by lia)
      · exact ends_some _ hgood (Nat.le_refl _)

theorem RunsOut.ends_execFrom (h : RunsOut src good left) (k : Nat) :
    forall (argv : List Text) (sh : σ), good sh -> src.peek sh = TokenType.string ->
      left sh ≤ k -> Ends good left (left sh) (src.execFrom k argv sh) := by
  induction k with
  | zero =>
      intro argv sh hgood hpeek hk
      rcases h.advance sh hgood (hpeek.trans_ne (by decide)) with ⟨_, _, _, hlt⟩
      lia
  | succ k ih =>
      intro argv sh hgood hpeek hk
      rw [execFrom]
      split
      · exact h.ends_reportError _ hgood (Nat.le_refl _)
      · rcases h.copyPeekString sh hgood with ⟨arg, harg⟩
        rw [harg]
        apply h.ends_advance hgood (hpeek.trans_ne (by decide))
        intro sh' hgood' hlt
        split
        · rename_i hstring
          exact (ih _ sh' hgood' hstring (by lia)).le (Nat.le_of_lt hlt)
        · exact ends_some _ hgood' (Nat.le_of_lt hlt)

/-- With five rounds a token, and the rank of the call, every parse function comes back. -/
def AllEnd (src : TokenSource σ) (good : σ -> Prop) (left : σ -> Nat) (k : Nat) : Prop :=
  forall nt sh, good sh -> 5 * left sh + nt.rank ≤ k ->
    Ends good left (left sh) (src.parse nt k sh)

theorem RunsOut.ends_cmd (hall : AllEnd src good left k) (hgood : good sh)
    (hk : 5 * left sh + 5 ≤ k + 1) : Ends good left (left sh) (src.parseCmd (k + 1) sh) := by
  rw [parseCmd]
  split
  · exact hall NonTerminal.list sh hgood (by rw [NonTerminal.rank]; lia)
  · exact ends_some _ hgood (Nat.le_refl _)

theorem RunsOut.ends_list (h : RunsOut src good left) (hall : AllEnd src good left k)
    (hgood : good sh) (hk : 5 * left sh + 4 ≤ k + 1) :
    Ends good left (left sh) (src.parseList (k + 1) sh) := by
  rw [parseList]
  apply (hall NonTerminal.binary sh hgood (by rw [NonTerminal.rank]; lia)).bind
  intro value sh' hgood' hle
  cases value with
  | none => exact ends_some _ hgood' hle
  | some cmd =>
      dsimp only
      split
      · rename_i hlist
        apply h.ends_advance hgood' (ne_eof_of hlist rfl)
        intro sh'' hgood'' hlt
        apply (hall NonTerminal.cmd sh'' hgood'' (by rw [NonTerminal.rank]; lia)).bind
        intro right sh''' hgood''' hle'
        cases right with
        | none => exact ends_some _ hgood''' (by lia)
        | some right => exact ends_some _ hgood''' (by lia)
      · exact ends_some _ hgood' hle

theorem RunsOut.ends_binary (h : RunsOut src good left) (hall : AllEnd src good left k)
    (hgood : good sh) (hk : 5 * left sh + 3 ≤ k + 1) :
    Ends good left (left sh) (src.parseBinary (k + 1) sh) := by
  rw [parseBinary]
  apply (hall NonTerminal.redir sh hgood (by rw [NonTerminal.rank]; lia)).bind
  intro value sh' hgood' hle
  cases value with
  | none => exact ends_some _ hgood' hle
  | some cmd =>
      dsimp only
      split
      · rename_i hbinary
        apply h.ends_advance hgood' (ne_eof_of hbinary rfl)
        intro sh'' hgood'' hlt
        apply (hall NonTerminal.binary sh'' hgood'' (by rw [NonTerminal.rank]; lia)).bind
        intro right sh''' hgood''' hle'
        cases right with
        | none => exact ends_some _ hgood''' (by lia)
        | some right => exact ends_some _ hgood''' (by lia)
      · exact ends_some _ hgood' hle

theorem RunsOut.ends_redir (h : RunsOut src good left) (hall : AllEnd src good left k)
    (hgood : good sh) (hk : 5 * left sh + 2 ≤ k + 1) :
    Ends good left (left sh) (src.parseRedir (k + 1) sh) := by
  rw [parseRedir]
  apply (hall NonTerminal.primary sh hgood (by rw [NonTerminal.rank]; lia)).bind
  intro value sh' hgood' hle
  cases value with
  | none => exact ends_some _ hgood' hle
  | some cmd => exact (h.ends_redirFrom k cmd sh' hgood' (by lia)).le hle

theorem RunsOut.ends_primary (h : RunsOut src good left) (hall : AllEnd src good left k)
    (hgood : good sh) (hk : 5 * left sh + 1 ≤ k + 1) :
    Ends good left (left sh) (src.parsePrimary (k + 1) sh) := by
  rw [parsePrimary]
  split
  · rename_i hlparen
    apply h.ends_advance hgood (hlparen.trans_ne (by decide))
    intro sh' hgood' hlt
    apply (hall NonTerminal.cmd sh' hgood' (by rw [NonTerminal.rank]; lia)).bind
    intro value sh'' hgood'' hle
    dsimp only
    split
    · rename_i hrparen
      apply h.ends_advance hgood'' (hrparen.trans_ne (by decide))
      exact fun sh''' hgood''' hlt' => ends_some _ hgood''' (by lia)
    · exact h.ends_reportError _ hgood'' (by lia)
  · split
    · rename_i hstring
      exact h.ends_execFrom k [] sh hgood hstring (by lia)
    · exact h.ends_reportError _ hgood (Nat.le_refl _)

/-- The parse functions come back, whatever the tokens are. -/
theorem RunsOut.allEnd (h : RunsOut src good left) (k : Nat) : AllEnd src good left k := by
  induction k with
  | zero =>
      intro nt sh _ hk
      cases nt <;> exact absurd hk (Nat.not_succ_le_zero _)
  | succ k ih =>
      intro nt sh hgood hk
      cases nt with
      | cmd => exact RunsOut.ends_cmd ih hgood hk
      | list => exact h.ends_list ih hgood hk
      | binary => exact h.ends_binary ih hgood hk
      | redir => exact h.ends_redir ih hgood hk
      | primary => exact h.ends_primary ih hgood hk

theorem RunsOut.ends_parseAll (h : RunsOut src good left) (hgood : good sh)
    (hk : 5 * left sh + 5 ≤ k) : Ends good left (left sh) (src.parseAll k sh) := by
  unfold parseAll
  apply (h.allEnd k NonTerminal.cmd sh hgood hk).bind
  intro value sh' hgood' hle
  cases value with
  | none => exact ends_some _ hgood' hle
  | some cmd =>
      dsimp only
      split
      · exact ends_some _ hgood' hle
      · exact h.ends_reportError _ hgood' hle

end Measure

end TokenSource

end Shell
end NicoOS
