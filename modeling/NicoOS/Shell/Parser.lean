import Mathlib.Tactic.Common

/-!
# The parser of the shell

`shell/sh/sh_parser.c` behind its lexer, and the commands of `shell/sh/cmds.c`.  No call of
`malloc` fails.
-/

namespace NicoOS
namespace Shell

abbrev Text := List UInt8

/-- `enum token_type`; the end of the input is the end of the list of tokens. -/
inductive Token where
  | gt
  | gtgt
  | lt
  | lparen
  | rparen
  | back
  | and
  | pipe
  | or
  | semi
  | string (text : Text)
  deriving DecidableEq, Repr

/-- The messages of the parser. -/
inductive Report where
  | unexpected (peek : Option Token)
  | expectedPath
  | missingParen
  | tooManyArguments
  deriving DecidableEq, Repr

/-!
# Commands
-/

inductive Cmd where
  | exec (argv : List Text)
  | redir (cmd : Cmd) (fd : Nat) (mode : Nat) (file : Text)
  | list (left right : Cmd)
  | back (cmd : Cmd)
  | pipe (left right : Cmd)
  | binary (left right : Cmd) (operator : Token)
  deriving DecidableEq, Repr

def maxArgv : Nat := 20

def stdin : Nat := 0

def stdout : Nat := 1

/-- The flags of `fcntl.h`, which are given in octal. -/
def oRdonly : Nat := 0
def oWronly : Nat := 1
def oCreat : Nat := 64
def oAppend : Nat := 1024

/-!
# Strings
-/

/-- `copy_peek_string`: a backslash that is not the last byte gives way to the next byte. -/
def copyPeekString : Text -> Text
  | [] => []
  | [ch] => [ch]
  | ch :: next :: rest =>
      if ch = 0x5c then next :: copyPeekString rest else ch :: copyPeekString (next :: rest)

def cString (text : Text) : Text := text.takeWhile (fun ch => decide (ch ≠ 0))

/-!
# The parser
-/

/-- The tokens ahead, of which the first is `peek`, and the messages so far. -/
structure Parser where
  rest : List Token
  reports : List Report
  deriving DecidableEq, Repr

namespace Parser

def peek (sh : Parser) : Option Token := sh.rest.head?

def advance (sh : Parser) : Parser := { sh with rest := sh.rest.tail }

def report (sh : Parser) (r : Report) : Parser := { sh with reports := sh.reports ++ [r] }

end Parser

def Token.isRedir : Token -> Bool
  | Token.gt | Token.gtgt | Token.lt => true
  | _ => false

def Token.isBinary : Token -> Bool
  | Token.pipe | Token.and | Token.or => true
  | _ => false

def Token.isList : Token -> Bool
  | Token.semi | Token.back => true
  | _ => false

def redirFd : Token -> Nat
  | Token.lt => stdin
  | _ => stdout

def redirMode : Token -> Nat
  | Token.gtgt => oAppend ||| oWronly ||| oCreat
  | Token.gt => oWronly ||| oCreat
  | _ => oRdonly

def redirTo (left : Cmd) (optok : Token) (text : Text) : Cmd :=
  Cmd.redir left (redirFd optok) (redirMode optok) (cString (copyPeekString text))

def parseRedircmd (left : Cmd) (optok : Token) (sh : Parser) : Option Cmd × Parser :=
  match sh.peek with
  | some (Token.string text) => (some (redirTo left optok text), sh.advance)
  | _ => (none, sh.report Report.expectedPath)

def redirFrom : Nat -> Cmd -> Parser -> Option Cmd × Parser
  | 0, cmd, sh => (some cmd, sh)
  | k + 1, cmd, sh =>
      match sh.peek with
      | some optok =>
          if optok.isRedir then
            match parseRedircmd cmd optok sh.advance with
            | (some cmd, sh) => redirFrom k cmd sh
            | (none, sh) => (none, sh)
          else
            (some cmd, sh)
      | none => (some cmd, sh)

def execFrom (argv : List Text) : List Token -> List Report -> Option Cmd × Parser
  | Token.string text :: rest, reports =>
      if maxArgv - 1 ≤ argv.length then
        (none, ⟨Token.string text :: rest, reports ++ [Report.tooManyArguments]⟩)
      else
        execFrom (argv ++ [copyPeekString text]) rest reports
  | rest, reports => (some (Cmd.exec argv), ⟨rest, reports⟩)

def parseExeccmd (sh : Parser) : Option Cmd × Parser := execFrom [] sh.rest sh.reports

/-- The command of an operator of `parse_binary`. -/
def joined (operator : Token) (left right : Cmd) : Cmd :=
  if operator = Token.pipe then Cmd.pipe left right else Cmd.binary left right operator

/-- The command of an operator of `parse_list`; the right operand may be missing. -/
def listed (operator : Token) (left : Cmd) (right : Option Cmd) : Cmd :=
  let left := if operator = Token.back then Cmd.back left else left
  match right with
  | some right => Cmd.list left right
  | none => left

mutual

/-- `none` stands for a fuel that was too small; `NULL` is `some (none, _)`. -/
def parseCmd : Nat -> Parser -> Option (Option Cmd × Parser)
  | 0, _ => none
  | k + 1, sh =>
      match sh.peek with
      | some Token.lparen => parseList k sh
      | some (Token.string _) => parseList k sh
      | _ => some (none, sh)

def parseList : Nat -> Parser -> Option (Option Cmd × Parser)
  | 0, _ => none
  | k + 1, sh => do
      match <- parseBinary k sh with
      | (none, sh) => some (none, sh)
      | (some left, sh) =>
          match sh.peek with
          | some operator =>
              if operator.isList then do
                let (right, sh) <- parseCmd k sh.advance
                some (some (listed operator left right), sh)
              else
                some (some left, sh)
          | none => some (some left, sh)

def parseBinary : Nat -> Parser -> Option (Option Cmd × Parser)
  | 0, _ => none
  | k + 1, sh => do
      match <- parseRedir k sh with
      | (none, sh) => some (none, sh)
      | (some left, sh) =>
          match sh.peek with
          | some operator =>
              if operator.isBinary then do
                match <- parseBinary k sh.advance with
                | (none, sh) => some (none, sh)
                | (some right, sh) => some (some (joined operator left right), sh)
              else
                some (some left, sh)
          | none => some (some left, sh)

def parseRedir : Nat -> Parser -> Option (Option Cmd × Parser)
  | 0, _ => none
  | k + 1, sh => do
      match <- parsePrimary k sh with
      | (none, sh) => some (none, sh)
      | (some cmd, sh) => some (redirFrom sh.rest.length cmd sh)

def parsePrimary : Nat -> Parser -> Option (Option Cmd × Parser)
  | 0, _ => none
  | k + 1, sh =>
      match sh.peek with
      | some Token.lparen => do
          let (cmd, sh) <- parseCmd k sh.advance
          if sh.peek = some Token.rparen then
            some (cmd, sh.advance)
          else
            some (none, sh.report Report.missingParen)
      | some (Token.string _) => some (parseExeccmd sh)
      | _ => some (none, sh.report (Report.unexpected sh.peek))

end

def shParse (tokens : List Token) : Option (Option Cmd × Parser) := do
  match <- parseCmd (5 * tokens.length + 5) ⟨tokens, []⟩ with
  | (none, sh) => some (none, sh)
  | (some cmd, sh) =>
      if sh.peek = none then
        some (some cmd, sh)
      else
        some (none, sh.report (Report.unexpected sh.peek))

example : shParse [Token.string [97], Token.back, Token.lparen, Token.string [98], Token.or,
      Token.string [99], Token.rparen, Token.gt, Token.string [100]] =
    some
      (some (Cmd.list (Cmd.back (Cmd.exec [[97]]))
        (Cmd.redir (Cmd.binary (Cmd.exec [[98]]) (Cmd.exec [[99]]) Token.or) 1 65 [100])),
        ⟨[], []⟩) := by
  decide +kernel

end Shell
end NicoOS
