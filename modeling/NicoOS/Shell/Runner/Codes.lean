import NicoOS.Shell.Runner.Tables

/-!
# Where a process is in `sh_execcmd`

The code of each command by its first call, and the pieces of code between two calls.
-/

namespace NicoOS
namespace Shell
namespace Runner

open Lib

variable {α β : Type} {junk : Int}

/-- A list of calls of `close` and `dup` before other code. -/
def plumb : List Plumb -> Code α -> Code α
  | [], code => code
  | Plumb.close fd :: rest, code => Program.ask (Op.close fd) (fun _ => plumb rest code)
  | Plumb.dup fd :: rest, code => Program.ask (Op.dup fd) (fun _ => plumb rest code)

def secondTry (name : Text) (args : List Text) : Code α :=
  Program.ask (Op.execv (binPath ++ cString name) (name :: args)) (fun _ => exit 1)

def toConsole : Code α := Program.ask (Op.openFile consolePath oWronly) (fun _ => exit 1)

def opening (junk : Int) (cmd : Cmd) (mode : Nat) (file : Text) : Code α :=
  Program.ask (Op.openFile file mode) (fun (opened : Option Nat) =>
    match opened with
    | none => toConsole
    | some _ => shExeccmd junk cmd)

def waits : Nat -> Code α
  | 0 => exit 0
  | n + 1 => Program.ask Op.wait (fun _ => waits n)

def forkRight (junk : Int) (right : Cmd) (rd wr : Nat) : Code α :=
  Program.ask Op.fork (fun (pid : Int) =>
    if pid = 0 then
      plumb [Plumb.close 0, Plumb.dup rd, Plumb.close rd, Plumb.close wr] (shExeccmd junk right)
    else
      plumb [Plumb.close rd, Plumb.close wr] (waits 2))

def forkLeft (junk : Int) (left right : Cmd) (rd wr : Nat) : Code α :=
  Program.ask Op.fork (fun (pid : Int) =>
    if pid = 0 then
      plumb [Plumb.close 1, Plumb.dup wr, Plumb.close rd, Plumb.close wr] (shExeccmd junk left)
    else
      forkRight junk right rd wr)

/-- The part of `runRight` that runs the right command. -/
def rightOf (right : Code (Bool × Int)) (status : Int) : Code α :=
  (forkexec right status false).bind (fun r => exit r.2)

theorem shExeccmd_short {name : Text} {args : List Text}
    (hshort : (cString name).length < 128 - 5) :
    (shExeccmd junk (Cmd.exec (name :: args)) : Code α) =
      Program.ask (Op.execv (cString name) (name :: args)) (fun _ => secondTry name args) := by
  unfold shExeccmd
  rw [if_neg (Nat.not_le_of_lt hshort)]
  rfl

theorem shExeccmd_long {name : Text} {args : List Text}
    (hlong : 128 - 5 ≤ (cString name).length) :
    (shExeccmd junk (Cmd.exec (name :: args)) : Code α) = exit 1 := by
  unfold shExeccmd
  exact if_pos hlong

theorem shExeccmd_redir (cmd : Cmd) (fd mode : Nat) (file : Text) :
    (shExeccmd junk (Cmd.redir cmd fd mode file) : Code α) =
      Program.ask (Op.close fd) (fun _ => opening junk cmd mode file) := by
  apply congrArg (Program.ask (Op.close fd))
  funext _
  apply congrArg (Program.ask (Op.openFile file mode))
  funext opened
  cases opened with
  | none => rfl
  | some fd => rfl

theorem shExeccmd_list (left right : Cmd) :
    (shExeccmd junk (Cmd.list left right) : Code α) =
      (forkexec (shExeccmd junk left) junk false).bind (fun _ => shExeccmd junk right) := rfl

theorem shExeccmd_back (cmd : Cmd) :
    (shExeccmd junk (Cmd.back cmd) : Code α) =
      (forkexec (shExeccmd junk cmd) junk true).bind (fun _ => exit 1) := rfl

theorem shExeccmd_pipe (left right : Cmd) :
    (shExeccmd junk (Cmd.pipe left right) : Code α) =
      Program.ask Op.pipe (fun (ends : Option (Nat × Nat)) =>
        match ends with
        | none => exit 1
        | some (rd, wr) => forkLeft junk left right rd wr) := by
  apply congrArg (Program.ask Op.pipe)
  funext ends
  cases ends with
  | none => rfl
  | some ends => rfl

theorem shExeccmd_binary (left right : Cmd) (operator : Token) :
    (shExeccmd junk (Cmd.binary left right operator) : Code α) =
      (forkexec (shExeccmd junk left) junk false).bind (fun r =>
        runRight (shExeccmd junk right) operator (if r.1 then r.2 else 1)) := rfl

theorem runRight_and (right : Code (Bool × Int)) (status : Int) :
    (runRight right Token.and status : Code α) =
      if status ≠ 0 then exit status else rightOf right status := rfl

theorem runRight_or (right : Code (Bool × Int)) (status : Int) :
    (runRight right Token.or status : Code α) =
      if status = 0 then exit 0 else rightOf right status := rfl

/-!
# No way back
-/

theorem exit_bind (status : Int) (f : α -> Code β) :
    (exit status : Code α).bind f = exit status := by
  show Program.ask (Op.exit status) _ = Program.ask (Op.exit status) _
  congr
  funext e
  exact nomatch e

theorem panic_bind (f : α -> Code β) : (panic : Code α).bind f = panic := by
  show Program.ask Op.panic _ = Program.ask Op.panic _
  congr
  funext e
  exact nomatch e

theorem plumb_bind (ops : List Plumb) (code : Code α) (f : α -> Code β) :
    (plumb ops code).bind f = plumb ops (code.bind f) := by
  induction ops with
  | nil => rfl
  | cons op rest ih =>
      cases op with
      | close fd => exact congrArg (Program.ask (Op.close fd)) (funext (fun _ => ih))
      | dup fd => exact congrArg (Program.ask (Op.dup fd)) (funext (fun _ => ih))

theorem waits_bind (n : Nat) (f : α -> Code β) : (waits n : Code α).bind f = waits n := by
  induction n with
  | zero => exact exit_bind 0 f
  | succ n ih => exact congrArg (Program.ask Op.wait) (funext (fun _ => ih))

theorem toConsole_bind (f : α -> Code β) : (toConsole : Code α).bind f = toConsole :=
  congrArg (Program.ask (Op.openFile consolePath oWronly)) (funext (fun _ => exit_bind 1 f))

theorem rightOf_bind (right : Code (Bool × Int)) (status : Int) (f : α -> Code β) :
    (rightOf right status : Code α).bind f = rightOf right status := by
  unfold rightOf
  rw [Program.bind_assoc_def]
  exact congrArg _ (funext (fun r => exit_bind r.2 f))

theorem runRight_bind (right : Code (Bool × Int)) (operator : Token) (status : Int)
    (f : α -> Code β) :
    (runRight right operator status : Code α).bind f = runRight right operator status := by
  cases operator with
  | and =>
      rw [runRight_and, runRight_and]
      split
      · exact exit_bind status f
      · exact rightOf_bind right status f
  | or =>
      rw [runRight_or, runRight_or]
      split
      · exact exit_bind 0 f
      · exact rightOf_bind right status f
  | _ => exact panic_bind f

theorem shExeccmd_bind (junk : Int) (cmd : Cmd) (f : α -> Code β) :
    (shExeccmd junk cmd : Code α).bind f = shExeccmd junk cmd := by
  induction cmd generalizing α β with
  | exec argv =>
      cases argv with
      | nil => exact exit_bind 1 f
      | cons name args =>
          cases Nat.lt_or_ge (cString name).length (128 - 5) with
          | inl hshort =>
              rw [shExeccmd_short hshort, shExeccmd_short hshort]
              exact congrArg (Program.ask _) (funext (fun _ =>
                congrArg (Program.ask _) (funext (fun _ => exit_bind 1 f))))
          | inr hlong =>
              rw [shExeccmd_long hlong, shExeccmd_long hlong]
              exact exit_bind 1 f
  | redir cmd fd mode file ih =>
      rw [shExeccmd_redir, shExeccmd_redir]
      apply congrArg (Program.ask (Op.close fd))
      funext _
      apply congrArg (Program.ask (Op.openFile file mode))
      funext opened
      cases opened with
      | none => exact toConsole_bind f
      | some fd => exact ih f
  | list left right ihl ihr =>
      rw [shExeccmd_list, shExeccmd_list, Program.bind_assoc_def]
      exact congrArg _ (funext (fun _ => ihr f))
  | back cmd ih =>
      rw [shExeccmd_back, shExeccmd_back, Program.bind_assoc_def]
      exact congrArg _ (funext (fun _ => exit_bind 1 f))
  | pipe left right ihl ihr =>
      rw [shExeccmd_pipe, shExeccmd_pipe]
      apply congrArg (Program.ask Op.pipe)
      funext ends
      cases ends with
      | none => exact exit_bind 1 f
      | some ends =>
          have hright : (forkRight junk right ends.1 ends.2 : Code α).bind f =
              forkRight junk right ends.1 ends.2 := by
            apply congrArg (Program.ask Op.fork)
            funext (pid : Int)
            dsimp only
            split
            · rw [plumb_bind, ihr]
            · rw [plumb_bind, waits_bind]
          apply congrArg (Program.ask Op.fork)
          funext (pid : Int)
          dsimp only
          split
          · rw [plumb_bind, ihl]
          · exact hright
  | binary left right operator ihl ihr =>
      rw [shExeccmd_binary, shExeccmd_binary, Program.bind_assoc_def]
      exact congrArg _ (funext (fun r => runRight_bind _ operator _ f))

/-!
# Forks
-/

/-- `fork`, with the code of the child, of the parent, and of a process that could not fork. -/
def askFork (child parent failed : Code α) : Code α :=
  Program.ask Op.fork (fun (pid : Int) =>
    if pid = 0 then child else if 0 < pid then parent else failed)

theorem forkexec_bind (cmd : Cmd) (status : Int) (inback : Bool) (f : Bool × Int -> Code α) :
    (forkexec (shExeccmd junk cmd) status inback).bind f =
      askFork (shExeccmd junk cmd)
        (if inback then f (true, status)
          else Program.ask Op.wait (fun (reaped : Option Int) => f (true, reaped.getD status)))
        (f (false, status)) := by
  apply congrArg (Program.ask Op.fork)
  funext (pid : Int)
  show (Program.bind (if pid = 0 then _ else _) f) = _
  cases Classical.em (pid = 0) with
  | inl hzero =>
      rw [if_pos hzero, if_pos hzero]
      exact shExeccmd_bind junk cmd f
  | inr hne =>
      rw [if_neg hne, if_neg hne]
      cases Classical.em (0 < pid) with
      | inl hpos =>
          rw [if_pos hpos, if_pos hpos]
          cases inback with
          | true => rfl
          | false => rfl
      | inr hneg =>
          rw [if_neg hneg, if_neg hneg]
          rfl

theorem forkLeft_eq (left right : Cmd) (rd wr : Nat) :
    (forkLeft junk left right rd wr : Code α) =
      askFork
        (plumb [Plumb.close 1, Plumb.dup wr, Plumb.close rd, Plumb.close wr]
          (shExeccmd junk left))
        (forkRight junk right rd wr) (forkRight junk right rd wr) := by
  apply congrArg (Program.ask Op.fork)
  funext (pid : Int)
  rw [ite_self]

theorem forkRight_eq (right : Cmd) (rd wr : Nat) :
    (forkRight junk right rd wr : Code α) =
      askFork
        (plumb [Plumb.close 0, Plumb.dup rd, Plumb.close rd, Plumb.close wr]
          (shExeccmd junk right))
        (plumb [Plumb.close rd, Plumb.close wr] (waits 2))
        (plumb [Plumb.close rd, Plumb.close wr] (waits 2)) := by
  apply congrArg (Program.ask Op.fork)
  funext (pid : Int)
  rw [ite_self]

theorem list_fork (left right : Cmd) :
    (shExeccmd junk (Cmd.list left right) : Code α) =
      askFork (shExeccmd junk left) (Program.ask Op.wait (fun _ => shExeccmd junk right))
        (shExeccmd junk right) := by
  rw [shExeccmd_list, forkexec_bind]
  rfl

theorem back_fork (cmd : Cmd) :
    (shExeccmd junk (Cmd.back cmd) : Code α) =
      askFork (shExeccmd junk cmd) (exit 1) (exit 1) := by
  rw [shExeccmd_back, forkexec_bind]
  rfl

theorem binary_fork (left right : Cmd) (operator : Token) :
    (shExeccmd junk (Cmd.binary left right operator) : Code α) =
      askFork (shExeccmd junk left)
        (Program.ask Op.wait (fun (reaped : Option Int) =>
          runRight (shExeccmd junk right) operator (reaped.getD junk)))
        (runRight (shExeccmd junk right) operator 1) := by
  rw [shExeccmd_binary, forkexec_bind]
  rfl

theorem rightOf_fork (right : Cmd) (status : Int) :
    (rightOf (shExeccmd junk right) status : Code α) =
      askFork (shExeccmd junk right)
        (Program.ask Op.wait (fun (reaped : Option Int) => exit (reaped.getD status)))
        (exit status) := by
  unfold rightOf
  rw [forkexec_bind]
  rfl

theorem shloop_fork {cmd : Cmd} {rest : List (Option Cmd)} {code : Int}
    (hcmd : isBuiltinCmd cmd = false) :
    (shloop junk code (some cmd :: rest) : Code α) =
      askFork (shExeccmd junk cmd) (Program.ask Op.wait (fun _ => shloop junk code rest))
        (shloop junk code rest) := by
  rw [shloop, if_neg (hcmd ▸ Bool.false_ne_true)]
  rfl

theorem shloop_builtin {cmd : Cmd} {rest : List (Option Cmd)} {code : Int}
    (hcmd : isBuiltinCmd cmd = true) :
    (shloop junk code (some cmd :: rest) : Code α) =
      Program.ask (Op.chdir (cdPath cmd)) (fun _ => shloop junk code rest) := by
  rw [shloop, if_pos hcmd]
  rfl

end Runner
end Shell
end NicoOS
