import NicoOS.Shell.Runner.Codes

/-!
# The points of `sh_execcmd`

What a process of the shell still owes for its job at each point of its code, which children it
has there, and how many steps are left.
-/

namespace NicoOS
namespace Shell
namespace Runner

open Lib

/-- Redirections of 0 and 1, and the operators of `CMD_BINARY`. -/
def Sane : Cmd -> Prop
  | Cmd.exec _ => True
  | Cmd.redir cmd fd _ _ => (fd = 0 ∨ fd = 1) ∧ Sane cmd
  | Cmd.list left right => Sane left ∧ Sane right
  | Cmd.back cmd => Sane cmd
  | Cmd.pipe left right => Sane left ∧ Sane right
  | Cmd.binary left right operator =>
      (operator = Token.and ∨ operator = Token.or) ∧ Sane left ∧ Sane right

/-- The steps that a command takes at most, with those of its programs and its children. -/
def work : Cmd -> Nat
  | Cmd.exec _ => 4
  | Cmd.redir cmd _ _ _ => work cmd + 2
  | Cmd.list left right => work left + work right + 1
  | Cmd.back cmd => work cmd + 3
  | Cmd.pipe left right => work left + work right + 17
  | Cmd.binary left right _ => work left + work right + 5

theorem four_le_work (cmd : Cmd) : 4 ≤ work cmd := by
  induction cmd with
  | exec argv => exact Nat.le_refl 4
  | redir cmd fd mode file ih => exact Nat.le_trans ih (Nat.le_add_right _ _)
  | list left right ihl ihr =>
      unfold work
      lia
  | back cmd ih => exact Nat.le_trans ih (Nat.le_add_right _ _)
  | pipe left right ihl ihr =>
      unfold work
      lia
  | binary left right operator ihl ihr =>
      unfold work
      lia

/-- The steps that the shell takes at most for its lines. -/
def lineWork : List (Option Cmd) -> Nat
  | [] => 2
  | none :: rest => lineWork rest
  | some cmd :: rest => work cmd + 1 + lineWork rest

/-- Who does `j` has done what it is for. -/
def Owes (log : List Event) (p : Nat) (j : Job) (goal : Goal) : Prop :=
  forall log', log <+: log' -> forall t status, Means log' p j t status -> Done log' p goal t status

/-- Who has `j` done in a child has done what it is for. -/
def Pays (log : List Event) (p : Nat) (j : Job) (default : Int) (goal : Goal) : Prop :=
  forall log', log <+: log' -> forall t status, Forked log' p j t default status ->
    Done log' p goal t status

/-- Who is through with the lines has done what it is for. -/
def Serves (log : List Event) (p : Nat) (fds : Table) (lines : List (Option Cmd)) (since : Nat)
    (code : Int) (goal : Goal) : Prop :=
  forall log', log <+: log' -> forall t, Script log' p fds lines since t -> Done log' p goal t code

/-- A job that can begin. -/
structure Fit (given : Table) (log : List Event) (j : Job) : Prop where
  since : j.since ≤ log.length
  plumbed : Plumbed given j.fds
  sane : Sane j.cmd

/-- The job of a child: the child has it, or it is over. -/
inductive Side (log : List Event) (job : Nat -> Goal) (p : Nat) (j : Job) (default : Int) :
    List Nat -> Prop where
  | pending {q m} (hfork : Within log j.since m (Event.forked p q)) (hm : m ≤ log.length)
      (hjob : job q = Goal.command ⟨j.cmd, j.fds, m⟩) : Side log job p j default [q]
  | settled {t status} (ht : t ≤ log.length) (hdone : Forked log p j t default status) :
      Side log job p j default []

/-- Where process `p` is, with its children and the steps that are left. -/
inductive Point (junk : Int) (given : Table) (log : List Event) (job : Nat -> Goal) (p : Nat) :
    List Nat -> Table -> Body -> Nat -> Prop where
  | enter {j ops fds} (howes : Owes log p j (job p)) (hfit : Fit given log j)
      (hops : ops.foldl Plumb.apply fds = j.fds) :
      Point junk given log job p [] fds (Body.shell (plumb ops (shExeccmd junk j.cmd)))
        (work j.cmd + ops.length)
  | second {name args fds t} (howes : Owes log p ⟨Cmd.exec (name :: args), fds, t⟩ (job p))
      (hplumbed : Plumbed given fds) (hshort : (cString name).length < 128 - 5)
      (hno : Within log t log.length
        (Event.refused p (Op.execv (cString name) (name :: args)))) :
      Point junk given log job p [] fds (Body.shell (secondTry name args)) 3
  | running {argv fds}
      (hend : forall log', log <+: log' -> forall t status,
        Within log' log.length t (Event.finished p status) -> Done log' p (job p) t status) :
      Point junk given log job p [] fds (Body.program argv) 2
  | opening {cmd fd mode file fds t}
      (howes : Owes log p ⟨Cmd.redir cmd fd mode file, fds, t⟩ (job p))
      (hfit : Fit given log ⟨Cmd.redir cmd fd mode file, fds, t⟩) :
      Point junk given log job p [] (Function.update fds fd none)
        (Body.shell (opening junk cmd mode file)) (work cmd + 1)
  | console {fds} (hdone : Done log p (job p) log.length 1) :
      Point junk given log job p [] fds (Body.shell toConsole) 3
  | leaving {kids fds status} (hdone : Done log p (job p) log.length status) :
      Point junk given log job p kids fds (Body.shell (exit status)) 2
  | zombie {fds status t} (ht : t ≤ log.length) (hdone : Done log p (job p) t status) :
      Point junk given log job p [] fds (Body.zombie status) 1
  | listWait {q left right fds t} (howes : Owes log p ⟨Cmd.list left right, fds, t⟩ (job p))
      (hside : Side log job p ⟨left, fds, t⟩ 0 [q])
      (hplumbed : Plumbed given fds) (hsane : Sane right) :
      Point junk given log job p [q] fds
        (Body.shell (Program.ask Op.wait (fun _ => shExeccmd junk right))) (work right)
  | binaryWait {q left right operator fds t}
      (howes : Owes log p ⟨Cmd.binary left right operator, fds, t⟩ (job p))
      (hside : Side log job p ⟨left, fds, t⟩ 1 [q])
      (hplumbed : Plumbed given fds) (hsane : Sane (Cmd.binary left right operator)) :
      Point junk given log job p [q] fds
        (Body.shell (Program.ask Op.wait (fun (reaped : Option Int) =>
          runRight (shExeccmd junk right) operator (reaped.getD junk)))) (work right + 4)
  | rightFork {right fds t status} (hpays : Pays log p ⟨right, fds, t⟩ status (job p))
      (hfit : Fit given log ⟨right, fds, t⟩) :
      Point junk given log job p [] fds
        (Body.shell (rightOf (shExeccmd junk right) status)) (work right + 4)
  | rightWait {q j status fds} (hpays : Pays log p j status (job p))
      (hside : Side log job p j status [q]) :
      Point junk given log job p [q] fds
        (Body.shell (Program.ask Op.wait (fun (reaped : Option Int) =>
          exit (reaped.getD status)))) 3
  | leftSide {left right fds t k rd wr fds'}
      (howes : Owes log p ⟨Cmd.pipe left right, fds, t⟩ (job p))
      (hfit : Fit given log ⟨Cmd.pipe left right, fds, t⟩) (hfresh : Fresh fds k)
      (hpiped : Piped fds k rd wr fds') :
      Point junk given log job p [] fds' (Body.shell (forkLeft junk left right rd wr))
        (work left + work right + 16)
  | rightSide {kids left right fds t k rd wr fds'}
      (howes : Owes log p ⟨Cmd.pipe left right, fds, t⟩ (job p))
      (hfit : Fit given log ⟨Cmd.pipe left right, fds, t⟩) (hfresh : Fresh fds k)
      (hpiped : Piped fds k rd wr fds')
      (hleft : Side log job p
        ⟨left, Function.update fds 1 (some (Stream.writeEnd k)), t⟩ 0 kids) :
      Point junk given log job p kids fds' (Body.shell (forkRight junk right rd wr))
        (work right + 11)
  | waits {lefts rights left right fds t k ops n fds'}
      (howes : Owes log p ⟨Cmd.pipe left right, fds, t⟩ (job p)) (hfresh : Fresh fds k)
      (hleft : Side log job p
        ⟨left, Function.update fds 1 (some (Stream.writeEnd k)), t⟩ 0 lefts)
      (hright : Side log job p
        ⟨right, Function.update fds 0 (some (Stream.readEnd k)), t⟩ 0 rights)
      (hlen : lefts.length + rights.length ≤ n) :
      Point junk given log job p (lefts ++ rights) fds' (Body.shell (plumb ops (waits n)))
        (n + ops.length + 2)
  | prompt {lines code fds t} (hserves : Serves log p fds lines t code (job p))
      (ht : t ≤ log.length)
      (hplumbed : Plumbed given fds) (hsane : forall cmd, some cmd ∈ lines -> Sane cmd) :
      Point junk given log job p [] fds (Body.shell (shloop junk code lines)) (lineWork lines)
  | promptWait {q cmd lines code fds t}
      (hserves : Serves log p fds (some cmd :: lines) t code (job p))
      (hcmd : isBuiltinCmd cmd = false) (hside : Side log job p ⟨cmd, fds, t⟩ 0 [q])
      (hplumbed : Plumbed given fds) (hsane : forall cmd, some cmd ∈ lines -> Sane cmd) :
      Point junk given log job p [q] fds
        (Body.shell (Program.ask Op.wait (fun _ => shloop junk code lines))) (lineWork lines)

/-!
# A longer log, and new processes
-/

section Longer

variable {junk : Int} {given fds : Table} {log log' : List Event} {job job' : Nat -> Goal}
  {p w : Nat} {kids : List Nat} {body : Body} {j : Job} {goal : Goal} {default : Int}

theorem Owes.mono (h : Owes log p j goal) (hlog : log <+: log') : Owes log' p j goal :=
  fun log'' hlog' => h log'' (hlog.trans hlog')

theorem Owes.refl (log : List Event) (p : Nat) (j : Job) : Owes log p j (Goal.command j) :=
  fun _ _ _ _ h => h

theorem Pays.mono (h : Pays log p j default goal) (hlog : log <+: log') :
    Pays log' p j default goal :=
  fun log'' hlog' => h log'' (hlog.trans hlog')

theorem Serves.mono {lines : List (Option Cmd)} {since : Nat} {code : Int}
    (h : Serves log p fds lines since code goal) (hlog : log <+: log') :
    Serves log' p fds lines since code goal :=
  fun log'' hlog' => h log'' (hlog.trans hlog')

theorem Fit.mono (h : Fit given log j) (hlog : log <+: log') : Fit given log' j where
  since := Nat.le_trans h.since hlog.length_le
  plumbed := h.plumbed
  sane := h.sane

theorem Side.mono (h : Side log job p j default kids) (hlog : log <+: log')
    (hkids : forall q, q ∈ kids -> job' q = job q) : Side log' job' p j default kids := by
  cases h with
  | pending hfork hm hjob =>
      exact Side.pending (hfork.mono hlog) (Nat.le_trans hm hlog.length_le)
        ((hkids _ List.mem_cons_self).trans hjob)
  | settled ht hdone =>
      exact Side.settled (Nat.le_trans ht hlog.length_le) (Forked.mono hlog hdone)

theorem Done.grow {status : Int} (h : Done log p goal log.length status) (hlog : log <+: log') :
    Done log' p goal log'.length status :=
  (h.mono hlog).later hlog.length_le

theorem Within.earlier {lo lo' hi : Nat} {e : Event} (h : Within log lo hi e) (hle : lo' ≤ lo) :
    Within log lo' hi e := by
  rcases h with ⟨i, hlo, hhi, hat⟩
  exact ⟨i, Nat.le_trans hle hlo, hhi, hat⟩

/-- A point stays where it is when other processes go on. -/
theorem Point.mono (h : Point junk given log job p kids fds body w) (hlog : log <+: log')
    (hjob : job' p = job p) (hkids : forall q, q ∈ kids -> job' q = job q) :
    Point junk given log' job' p kids fds body w := by
  cases h with
  | enter howes hfit hops =>
      exact Point.enter (hjob ▸ howes.mono hlog) (hfit.mono hlog) hops
  | second howes hplumbed hshort hno =>
      exact Point.second (hjob ▸ howes.mono hlog) hplumbed hshort
        ((hno.mono hlog).later hlog.length_le)
  | running hend =>
      apply Point.running
      intro log'' hlog' t status hfinished
      rw [hjob]
      exact hend log'' (hlog.trans hlog') t status (hfinished.earlier hlog.length_le)
  | opening howes hfit => exact Point.opening (hjob ▸ howes.mono hlog) (hfit.mono hlog)
  | console hdone => exact Point.console (hjob ▸ hdone.grow hlog)
  | leaving hdone => exact Point.leaving (hjob ▸ hdone.grow hlog)
  | zombie ht hdone =>
      exact Point.zombie (Nat.le_trans ht hlog.length_le) (hjob ▸ hdone.mono hlog)
  | listWait howes hside hplumbed hsane =>
      exact Point.listWait (hjob ▸ howes.mono hlog) (hside.mono hlog hkids) hplumbed hsane
  | binaryWait howes hside hplumbed hsane =>
      exact Point.binaryWait (hjob ▸ howes.mono hlog) (hside.mono hlog hkids) hplumbed hsane
  | rightFork hpays hfit => exact Point.rightFork (hjob ▸ hpays.mono hlog) (hfit.mono hlog)
  | rightWait hpays hside =>
      exact Point.rightWait (hjob ▸ hpays.mono hlog) (hside.mono hlog hkids)
  | leftSide howes hfit hfresh hpiped =>
      exact Point.leftSide (hjob ▸ howes.mono hlog) (hfit.mono hlog) hfresh hpiped
  | rightSide howes hfit hfresh hpiped hleft =>
      exact Point.rightSide (hjob ▸ howes.mono hlog) (hfit.mono hlog) hfresh hpiped
        (hleft.mono hlog hkids)
  | waits howes hfresh hleft hright hlen =>
      exact Point.waits (hjob ▸ howes.mono hlog) hfresh
        (hleft.mono hlog (fun q hq => hkids q (List.mem_append_left _ hq)))
        (hright.mono hlog (fun q hq => hkids q (List.mem_append_right _ hq))) hlen
  | prompt hserves ht hplumbed hsane =>
      exact Point.prompt (hjob ▸ hserves.mono hlog) (Nat.le_trans ht hlog.length_le) hplumbed hsane
  | promptWait hserves hcmd hside hplumbed hsane =>
      exact Point.promptWait (hjob ▸ hserves.mono hlog) hcmd (hside.mono hlog hkids) hplumbed hsane

end Longer

end Runner
end Shell
end NicoOS
