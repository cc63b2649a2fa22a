import Mathlib.Logic.Function.Basic
import NicoOS.Lib.Program
import NicoOS.Lib.Transition
import NicoOS.Shell.Parser

/-!
# Running commands

`shell/sh/main.c`, `shell/sh/builtin_cmds.c` and `shell/sh/sh_exec.c` as a program over the system
calls that it makes, and the table of the processes that run it.  Messages are left out.
-/

namespace NicoOS
namespace Shell
namespace Runner

open Lib

/-!
# The program
-/

inductive Op where
  | fork
  | wait
  | exit (status : Int)
  | execv (path : Text) (argv : List Text)
  | pipe
  | close (fd : Nat)
  | dup (fd : Nat)
  | openFile (path : Text) (mode : Nat)
  | chdir (path : Text)
  | panic
  deriving DecidableEq

/--
What a call gives to the shell.  `wait` gives the status of the child, or `none` without
children; `execv` comes back only where it fails.
-/
def Op.Answer : Op -> Type
  | fork => Int
  | wait => Option Int
  | exit _ => Empty
  | execv _ _ => Unit
  | pipe => Option (Nat × Nat)
  | close _ => Unit
  | dup _ => Unit
  | openFile _ _ => Option Nat
  | chdir _ => Unit
  | panic => Empty

abbrev Code (α : Type) := Program Op Op.Answer α

variable {α : Type}

def fork : Code Int := Program.op Op.fork

def wait : Code (Option Int) := Program.op Op.wait

def exit (status : Int) : Code α := Program.ask (Op.exit status) (fun e => nomatch e)

def execv (path : Text) (argv : List Text) : Code Unit := Program.op (Op.execv path argv)

def pipe : Code (Option (Nat × Nat)) := Program.op Op.pipe

def close (fd : Nat) : Code Unit := Program.op (Op.close fd)

def dup (fd : Nat) : Code Unit := Program.op (Op.dup fd)

def openFile (path : Text) (mode : Nat) : Code (Option Nat) := Program.op (Op.openFile path mode)

def chdir (path : Text) : Code Unit := Program.op (Op.chdir path)

def panic : Code α := Program.ask Op.panic (fun e => nomatch e)

def binPath : Text := [0x2f, 0x62, 0x69, 0x6e, 0x2f]

def consolePath : Text :=
  [0x2f, 0x64, 0x65, 0x76, 0x2f, 0x63, 0x6f, 0x6e, 0x73, 0x6f, 0x6c, 0x65]

/-- `forkexec`: whether it could fork, and what `status` then is. -/
def forkexec (child : Code (Bool × Int)) (status : Int) (inback : Bool) : Code (Bool × Int) := do
  let pid <- fork
  if pid = 0 then
    child
  else if 0 < pid then
    if inback then pure (true, status)
    else do
      let reaped <- wait
      pure (true, reaped.getD status)
  else
    pure (false, status)

/-- The end of `CMD_BINARY`: the right command, where the operator asks for it. -/
def runRight (right : Code (Bool × Int)) (operator : Token) (status : Int) : Code α :=
  let rest : Code α := do
    let (_, status) <- forkexec right status false
    exit status
  match operator with
  | Token.and => if status ≠ 0 then exit status else rest
  | Token.or => if status = 0 then exit 0 else rest
  | _ => panic

/-- `sh_execcmd`, which never comes back; `junk` is what a variable holds without a value. -/
def shExeccmd (junk : Int) : Cmd -> {α : Type} -> Code α
  | Cmd.exec [], _ => exit 1
  | Cmd.exec (name :: args), _ =>
      if 128 - 5 ≤ (cString name).length then
        exit 1
      else do
        execv (cString name) (name :: args)
        execv (binPath ++ cString name) (name :: args)
        exit 1
  | Cmd.redir cmd fd mode file, _ => do
      close fd
      match <- openFile file mode with
      | none => do
          let _ <- openFile consolePath oWronly
          exit 1
      | some _ => shExeccmd junk cmd
  | Cmd.list left right, _ => do
      let _ <- forkexec (shExeccmd junk left) junk false
      shExeccmd junk right
  | Cmd.back cmd, _ => do
      let _ <- forkexec (shExeccmd junk cmd) junk true
      exit 1
  | Cmd.pipe left right, _ => do
      match <- pipe with
      | none => exit 1
      | some (rd, wr) => do
          let pid <- fork
          if pid = 0 then do
            close 1
            dup wr
            close rd
            close wr
            shExeccmd junk left
          else do
            let pid <- fork
            if pid = 0 then do
              close 0
              dup rd
              close rd
              close wr
              shExeccmd junk right
            else do
              close rd
              close wr
              let _ <- wait
              let _ <- wait
              exit 0
  | Cmd.binary left right operator, _ => do
      let (forked, status) <- forkexec (shExeccmd junk left) junk false
      runRight (shExeccmd junk right) operator (if forked then status else 1)

def cdName : Text := [0x63, 0x64]
def slash : Text := [0x2f]

def isBuiltinCmd : Cmd -> Bool
  | Cmd.exec (name :: _) => decide (cString name = cdName)
  | _ => false

def cdPath : Cmd -> Text
  | Cmd.exec (_ :: path :: _) => cString path
  | _ => slash

def execBuiltinCmd (cmd : Cmd) : Code Unit := chdir (cdPath cmd)

/-- `shloop` on the commands of its lines, where `NULL` is `none`; behind them it exits. -/
def shloop (junk code : Int) : List (Option Cmd) -> Code α
  | [] => exit code
  | none :: rest => shloop junk code rest
  | some cmd :: rest =>
      if isBuiltinCmd cmd then do
        execBuiltinCmd cmd
        shloop junk code rest
      else do
        let pid <- fork
        if pid = 0 then
          shExeccmd junk cmd
        else if 0 < pid then do
          let _ <- wait
          shloop junk code rest
        else
          shloop junk code rest

/-!
# The processes
-/

/-- What an open descriptor stands for. -/
inductive Stream where
  | given (n : Nat)
  | file (path : Text) (mode : Nat)
  | readEnd (k : Nat)
  | writeEnd (k : Nat)
  deriving DecidableEq

abbrev Table := Nat -> Option Stream

def nofile : Nat := 16

def firstFree (fds : Table) : Option Nat :=
  (List.range nofile).find? (fun fd => (fds fd).isNone)

/-- A process runs the shell's code or a program, or it has ended. -/
inductive Body where
  | shell (code : Code Empty)
  | program (argv : List Text)
  | zombie (status : Int)

structure Proc where
  parent : Nat
  fds : Table
  body : Body

/-- What is seen of a run. -/
inductive Event where
  | forked (p q : Nat)
  | refused (p : Nat) (o : Op)
  | started (p : Nat) (path : Text) (argv : List Text) (fds : Table)
  | entered (p : Nat) (path : Text)
  | finished (p : Nat) (status : Int)

/-- The processes by their numbers, the next number, the pipes so far and the events so far. -/
structure State where
  procs : Nat -> Option Proc
  next : Nat
  pipes : Nat
  log : List Event

/-- `init_proc`, which takes the children of a process that ends. -/
def initPid : Nat := 0

def State.setProc (s : State) (p : Nat) (proc : Proc) : State :=
  { s with procs := Function.update s.procs p (some proc) }

def State.note (s : State) (e : Event) : State := { s with log := s.log ++ [e] }

def State.goOn (s : State) (p : Nat) (proc : Proc) (fds : Table) (code : Code Empty) : State :=
  s.setProc p { proc with fds := fds, body := Body.shell code }

def State.hasChild (s : State) (p : Nat) : Bool :=
  (List.range s.next).any (fun q =>
    match s.procs q with
    | some child => decide (child.parent = p)
    | none => false)

def State.exit (s : State) (p : Nat) (status : Int) : State :=
  { s with
    procs := fun q =>
      (s.procs q).map (fun proc =>
        if q = p then { proc with fds := fun _ => none, body := Body.zombie status }
        else if proc.parent = p then { proc with parent := initPid }
        else proc) }

/-- The two descriptors of `sys_pipe`, for the pipe `k`. -/
def newPipe (fds : Table) (k : Nat) : Option (Nat × Nat × Table) :=
  match firstFree fds with
  | none => none
  | some rd =>
      let fds := Function.update fds rd (some (Stream.readEnd k))
      match firstFree fds with
      | none => none
      | some wr => some (rd, wr, Function.update fds wr (some (Stream.writeEnd k)))

def dupFd (fds : Table) (fd : Nat) : Table :=
  match fds fd, firstFree fds with
  | some stream, some new => Function.update fds new (some stream)
  | _, _ => fds

/-- A call of process `p`; the kernel may refuse it.  `none` is a call that waits. -/
def ask (s : State) (p : Nat) (proc : Proc) (refused : Bool) :
    (o : Op) -> (o.Answer -> Code Empty) -> Option State
  | Op.fork, next =>
      if refused then
        some ((s.goOn p proc proc.fds (next (-1 : Int))).note (Event.refused p Op.fork))
      else
        let child : Proc :=
          { parent := p, fds := proc.fds, body := Body.shell (next (0 : Int)) }
        let s' := (s.goOn p proc proc.fds (next (s.next : Int))).setProc s.next child
        some { s'.note (Event.forked p s.next) with next := s.next + 1 }
  | Op.wait, next =>
      if s.hasChild p then none
      else some (s.goOn p proc proc.fds (next (none : Option Int)))
  | Op.exit status, _ => some (s.exit p status)
  | Op.execv path argv, next =>
      if refused then
        some ((s.goOn p proc proc.fds (next ())).note (Event.refused p (Op.execv path argv)))
      else
        some ((s.setProc p { proc with body := Body.program argv }).note
          (Event.started p path argv proc.fds))
  | Op.pipe, next =>
      match if refused then none else newPipe proc.fds s.pipes with
      | none =>
          some ((s.goOn p proc proc.fds (next (none : Option (Nat × Nat)))).note
            (Event.refused p Op.pipe))
      | some (rd, wr, fds) =>
          some { s.goOn p proc fds (next (some (rd, wr) : Option (Nat × Nat))) with
            pipes := s.pipes + 1 }
  | Op.close fd, next => some (s.goOn p proc (Function.update proc.fds fd none) (next ()))
  | Op.dup fd, next => some (s.goOn p proc (dupFd proc.fds fd) (next ()))
  | Op.openFile path mode, next =>
      match if refused then none else firstFree proc.fds with
      | none =>
          some ((s.goOn p proc proc.fds (next (none : Option Nat))).note
            (Event.refused p (Op.openFile path mode)))
      | some fd =>
          some (s.goOn p proc (Function.update proc.fds fd (some (Stream.file path mode)))
            (next (some fd : Option Nat)))
  | Op.chdir path, next =>
      if refused then
        some ((s.goOn p proc proc.fds (next ())).note (Event.refused p (Op.chdir path)))
      else
        some ((s.goOn p proc proc.fds (next ())).note (Event.entered p path))
  | Op.panic, _ => none

inductive Action where
  /-- A call of the shell's code. -/
  | turn (p : Nat) (refused : Bool)
  /-- `task_wait` of `p` finds the zombie `c`. -/
  | collect (p c : Nat)
  /-- A program ends. -/
  | leave (p : Nat) (status : Int)
  /-- `wait` of the first process. -/
  | reap (c : Nat)

/-- `task_wait` where it finds the zombie `c`. -/
def collect (s : State) (p c : Nat) : Option State :=
  match s.procs p, s.procs c with
  | some { parent := parent, fds := fds, body := Body.shell (Program.ask Op.wait next) },
      some { parent := q, fds := _, body := Body.zombie status } =>
      if q = p then
        let s := { s with procs := Function.update s.procs c none }
        some (s.goOn p { parent := parent, fds := fds, body := Body.zombie 0 } fds
          (next (some status : Option Int)))
      else
        none
  | _, _ => none

def step (s : State) : Action -> Option State
  | Action.turn p refused =>
      match s.procs p with
      | some { parent := parent, fds := fds, body := Body.shell (Program.ask o next) } =>
          ask s p { parent := parent, fds := fds, body := Body.shell (Program.ask o next) }
            refused o next
      | _ => none
  | Action.collect p c => collect s p c
  | Action.leave p status =>
      match s.procs p with
      | some { parent := _, fds := _, body := Body.program _ } =>
          some ((s.exit p status).note (Event.finished p status))
      | _ => none
  | Action.reap c =>
      match s.procs c with
      | some { parent := parent, fds := _, body := Body.zombie _ } =>
          if parent = initPid then some { s with procs := Function.update s.procs c none }
          else none
      | _ => none

end Runner
end Shell
end NicoOS
