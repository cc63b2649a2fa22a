import NicoOS.Shell.Runner.Model

/-!
# What a command means

The exit status of a command comes from those of its programs, in the order in which it runs
them.  The events of the log give the programs, their descriptors and their times.
-/

namespace NicoOS
namespace Shell
namespace Runner

open Lib

/-- A command for a process, its descriptors, and where in the log it begins. -/
structure Job where
  cmd : Cmd
  fds : Table
  since : Nat

/-- The event comes at `lo` or later, and before `hi`. -/
def Within (log : List Event) (lo hi : Nat) (e : Event) : Prop :=
  exists i, lo ≤ i ∧ i < hi ∧ log[i]? = some e

def Goes (operator : Token) (status : Int) : Prop :=
  (operator = Token.and ∧ status = 0) ∨ (operator = Token.or ∧ status ≠ 0)

def Fresh (fds : Table) (k : Nat) : Prop :=
  forall fd, fds fd ≠ some (Stream.readEnd k) ∧ fds fd ≠ some (Stream.writeEnd k)

mutual

/-- By `t` the process has done the job and ended with the status. -/
inductive Means (log : List Event) : Nat -> Job -> Nat -> Int -> Prop where
  | empty {p fds t0 t1} (h : t0 ≤ t1) : Means log p ⟨Cmd.exec [], fds, t0⟩ t1 1
  | long {p name args fds t0 t1} (hlong : 128 - 5 ≤ (cString name).length) (h : t0 ≤ t1) :
      Means log p ⟨Cmd.exec (name :: args), fds, t0⟩ t1 1
  | ran {p name args fds t0 m t1 status} (hshort : (cString name).length < 128 - 5)
      (hstart : Within log t0 m (Event.started p (cString name) (name :: args) fds))
      (hend : Within log m t1 (Event.finished p status)) :
      Means log p ⟨Cmd.exec (name :: args), fds, t0⟩ t1 status
  | ranBin {p name args fds t0 m n t1 status} (hshort : (cString name).length < 128 - 5)
      (hno : Within log t0 m (Event.refused p (Op.execv (cString name) (name :: args))))
      (hstart : Within log m n (Event.started p (binPath ++ cString name) (name :: args) fds))
      (hend : Within log n t1 (Event.finished p status)) :
      Means log p ⟨Cmd.exec (name :: args), fds, t0⟩ t1 status
  | missing {p name args fds t0 m t1} (hshort : (cString name).length < 128 - 5)
      (hno : Within log t0 m (Event.refused p (Op.execv (cString name) (name :: args))))
      (hnoBin : Within log m t1
        (Event.refused p (Op.execv (binPath ++ cString name) (name :: args)))) :
      Means log p ⟨Cmd.exec (name :: args), fds, t0⟩ t1 1
  | redir {p cmd fd mode file fds t0 m t1 t2 status} (hfirst : t0 ≤ m)
      (hrun : Means log p
        ⟨cmd, Function.update fds fd (some (Stream.file file mode)), m⟩ t1 status)
      (hlast : t1 ≤ t2) :
      Means log p ⟨Cmd.redir cmd fd mode file, fds, t0⟩ t2 status
  | noFile {p cmd fd mode file fds t0 t1}
      (hno : Within log t0 t1 (Event.refused p (Op.openFile file mode))) :
      Means log p ⟨Cmd.redir cmd fd mode file, fds, t0⟩ t1 1
  | list {p left right fds t0 t1 t2 t3 default first status}
      (hleft : Forked log p ⟨left, fds, t0⟩ t1 default first)
      (hright : Means log p ⟨right, fds, t1⟩ t2 status) (hlast : t2 ≤ t3) :
      Means log p ⟨Cmd.list left right, fds, t0⟩ t3 status
  | back {p q cmd fds t0 t1} (hfork : Within log t0 t1 (Event.forked p q)) :
      Means log p ⟨Cmd.back cmd, fds, t0⟩ t1 1
  | noBack {p cmd fds t0 t1} (hno : Within log t0 t1 (Event.refused p Op.fork)) :
      Means log p ⟨Cmd.back cmd, fds, t0⟩ t1 1
  | pipe {p left right fds k t0 t1 t2 t3 first second} (hfresh : Fresh fds k)
      (hleft : Forked log p
        ⟨left, Function.update fds 1 (some (Stream.writeEnd k)), t0⟩ t1 0 first)
      (hright : Forked log p
        ⟨right, Function.update fds 0 (some (Stream.readEnd k)), t0⟩ t2 0 second)
      (hlast : t1 ≤ t3 ∧ t2 ≤ t3) :
      Means log p ⟨Cmd.pipe left right, fds, t0⟩ t3 0
  | noPipe {p left right fds t0 t1} (hno : Within log t0 t1 (Event.refused p Op.pipe)) :
      Means log p ⟨Cmd.pipe left right, fds, t0⟩ t1 1
  | stops {p left right operator fds t0 t1 t2 status}
      (hleft : Forked log p ⟨left, fds, t0⟩ t1 1 status) (hstop : Not (Goes operator status))
      (hlast : t1 ≤ t2) :
      Means log p ⟨Cmd.binary left right operator, fds, t0⟩ t2 status
  | goes {p left right operator fds t0 t1 t2 t3 first status}
      (hleft : Forked log p ⟨left, fds, t0⟩ t1 1 first) (hgo : Goes operator first)
      (hright : Forked log p ⟨right, fds, t1⟩ t2 first status) (hlast : t2 ≤ t3) :
      Means log p ⟨Cmd.binary left right operator, fds, t0⟩ t3 status

/-- A child has done the job, or there is none and the status is the default. -/
inductive Forked (log : List Event) : Nat -> Job -> Nat -> Int -> Int -> Prop where
  | child {p q cmd fds t0 m t1 t2 default status}
      (hfork : Within log t0 m (Event.forked p q))
      (hrun : Means log q ⟨cmd, fds, m⟩ t1 status) (hlast : t1 ≤ t2) :
      Forked log p ⟨cmd, fds, t0⟩ t2 default status
  | refused {p cmd fds t0 t1 default} (hno : Within log t0 t1 (Event.refused p Op.fork)) :
      Forked log p ⟨cmd, fds, t0⟩ t1 default default

end

/-- The shell `p` is through with its lines: each command by a child, one after the other. -/
inductive Script (log : List Event) (p : Nat) (fds : Table) :
    List (Option Cmd) -> Nat -> Nat -> Prop where
  | stop {t0 t1} (h : t0 ≤ t1) : Script log p fds [] t0 t1
  | nothing {rest t0 t1} (hrest : Script log p fds rest t0 t1) :
      Script log p fds (none :: rest) t0 t1
  | builtin {cmd rest t0 m t1} (hcmd : isBuiltinCmd cmd = true)
      (hdone : Within log t0 m (Event.entered p (cdPath cmd)) ∨
        Within log t0 m (Event.refused p (Op.chdir (cdPath cmd))))
      (hrest : Script log p fds rest m t1) : Script log p fds (some cmd :: rest) t0 t1
  | command {cmd rest t0 t1 t2 status} (hcmd : isBuiltinCmd cmd = false)
      (hrun : Forked log p ⟨cmd, fds, t0⟩ t1 0 status) (hrest : Script log p fds rest t1 t2) :
      Script log p fds (some cmd :: rest) t0 t2

/-- What a process is for: a command, or the lines of a shell. -/
inductive Goal where
  | command (j : Job)
  | script (fds : Table) (lines : List (Option Cmd)) (since : Nat) (code : Int)

/-- By `t` the process has done what it is for and ended with the status. -/
def Done (log : List Event) (p : Nat) : Goal -> Nat -> Int -> Prop
  | Goal.command j, t, status => Means log p j t status
  | Goal.script fds lines since code, t, status => status = code ∧ Script log p fds lines since t

/-!
# A longer log
-/

section Longer

variable {log log' : List Event} {p lo hi hi' t t' : Nat} {e : Event} {j : Job}
  {status default : Int}

theorem Within.mono (h : Within log lo hi e) (hlog : log <+: log') : Within log' lo hi e := by
  rcases h with ⟨i, hlo, hhi, hat⟩
  rcases hlog with ⟨rest, heq⟩
  have hlt := (List.getElem?_eq_some_iff.mp hat).choose
  refine ⟨i, hlo, hhi, ?_⟩
  rw [← heq, List.getElem?_append_left hlt]
  exact hat

theorem Within.later (h : Within log lo hi e) (hle : hi ≤ hi') : Within log lo hi' e := by
  rcases h with ⟨i, hlo, hhi, hat⟩
  exact ⟨i, hlo, Nat.lt_of_lt_of_le hhi hle, hat⟩

theorem within_note (h : lo ≤ log.length) (e : Event) :
    Within (log ++ [e]) lo (log ++ [e]).length e := by
  refine ⟨log.length, h, ?_, ?_⟩
  · rw [List.length_append]
    exact Nat.lt_succ_self _
  · exact List.getElem?_concat_length

mutual

theorem Means.mono (hlog : log <+: log') {p : Nat} {j : Job} {t : Nat} {status : Int} :
    Means log p j t status -> Means log' p j t status
  | Means.empty h => Means.empty h
  | Means.long hlong h => Means.long hlong h
  | Means.ran hshort hstart hend => Means.ran hshort (hstart.mono hlog) (hend.mono hlog)
  | Means.ranBin hshort hno hstart hend =>
      Means.ranBin hshort (hno.mono hlog) (hstart.mono hlog) (hend.mono hlog)
  | Means.missing hshort hno hnoBin =>
      Means.missing hshort (hno.mono hlog) (hnoBin.mono hlog)
  | Means.redir hfirst hrun hlast => Means.redir hfirst (Means.mono hlog hrun) hlast
  | Means.noFile hno => Means.noFile (hno.mono hlog)
  | Means.list hleft hright hlast =>
      Means.list (Forked.mono hlog hleft) (Means.mono hlog hright) hlast
  | Means.back hfork => Means.back (hfork.mono hlog)
  | Means.noBack hno => Means.noBack (hno.mono hlog)
  | Means.pipe hfresh hleft hright hlast =>
      Means.pipe hfresh (Forked.mono hlog hleft) (Forked.mono hlog hright) hlast
  | Means.noPipe hno => Means.noPipe (hno.mono hlog)
  | Means.stops hleft hstop hlast => Means.stops (Forked.mono hlog hleft) hstop hlast
  | Means.goes hleft hgo hright hlast =>
      Means.goes (Forked.mono hlog hleft) hgo (Forked.mono hlog hright) hlast

theorem Forked.mono (hlog : log <+: log') {p : Nat} {j : Job} {t : Nat} {default status : Int} :
    Forked log p j t default status -> Forked log' p j t default status
  | Forked.child hfork hrun hlast =>
      Forked.child (hfork.mono hlog) (Means.mono hlog hrun) hlast
  | Forked.refused hno => Forked.refused (hno.mono hlog)

end

theorem Means.later (h : Means log p j t status) (hle : t ≤ t') : Means log p j t' status := by
  cases h with
  | empty h => exact Means.empty (Nat.le_trans h hle)
  | long hlong h => exact Means.long hlong (Nat.le_trans h hle)
  | ran hshort hstart hend => exact Means.ran hshort hstart (hend.later hle)
  | ranBin hshort hno hstart hend => exact Means.ranBin hshort hno hstart (hend.later hle)
  | missing hshort hno hnoBin => exact Means.missing hshort hno (hnoBin.later hle)
  | redir hfirst hrun hlast => exact Means.redir hfirst hrun (Nat.le_trans hlast hle)
  | noFile hno => exact Means.noFile (hno.later hle)
  | list hleft hright hlast => exact Means.list hleft hright (Nat.le_trans hlast hle)
  | back hfork => exact Means.back (hfork.later hle)
  | noBack hno => exact Means.noBack (hno.later hle)
  | pipe hfresh hleft hright hlast =>
      exact Means.pipe hfresh hleft hright
        ⟨Nat.le_trans hlast.left hle, Nat.le_trans hlast.right hle⟩
  | noPipe hno => exact Means.noPipe (hno.later hle)
  | stops hleft hstop hlast => exact Means.stops hleft hstop (Nat.le_trans hlast hle)
  | goes hleft hgo hright hlast => exact Means.goes hleft hgo hright (Nat.le_trans hlast hle)

theorem Script.mono {fds : Table} {lines : List (Option Cmd)}
    (h : Script log p fds lines lo t) (hlog : log <+: log') : Script log' p fds lines lo t := by
  induction h with
  | stop h => exact Script.stop h
  | nothing hrest ih => exact Script.nothing ih
  | builtin hcmd hdone hrest ih =>
      exact Script.builtin hcmd (hdone.imp (fun h => h.mono hlog) (fun h => h.mono hlog)) ih
  | command hcmd hrun hrest ih => exact Script.command hcmd (Forked.mono hlog hrun) ih

theorem Script.later {fds : Table} {lines : List (Option Cmd)}
    (h : Script log p fds lines lo t) (hle : t ≤ t') : Script log p fds lines lo t' := by
  induction h with
  | stop h => exact Script.stop (Nat.le_trans h hle)
  | nothing hrest ih => exact Script.nothing (ih hle)
  | builtin hcmd hdone hrest ih => exact Script.builtin hcmd hdone (ih hle)
  | command hcmd hrun hrest ih => exact Script.command hcmd hrun (ih hle)

theorem Done.mono {goal : Goal} (h : Done log p goal t status) (hlog : log <+: log') :
    Done log' p goal t status := by
  cases goal with
  | command j => exact Means.mono hlog h
  | script fds lines since code => exact ⟨h.left, h.right.mono hlog⟩

theorem Done.later {goal : Goal} (h : Done log p goal t status) (hle : t ≤ t') :
    Done log p goal t' status := by
  cases goal with
  | command j => exact Means.later h hle
  | script fds lines since code => exact ⟨h.left, h.right.later hle⟩

end Longer

end Runner
end Shell
end NicoOS
