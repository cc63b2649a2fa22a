import NicoOS.Shell.Errors
import NicoOS.Shell.Runner.Runs
import NicoOS.Shell.Tokens

/-!
# The lines of a shell

What `sh_parse` gives to `shloop` runs to its end in any order of the processes, line by line, and
each command ends as it means.
-/

namespace NicoOS
namespace Shell
namespace Runner

open Lib

def lineCmd (line : Text) : Option Cmd := (shParse (tokensOf line)).bind Prod.fst

/-- A shell with its lines; `code` is what the scanner gives behind them. -/
def begin (junk code : Int) (fds : Table) (lines : List Text) : State where
  procs := fun p =>
    if p = shellPid then
      some
        { parent := initPid, fds := fds, body := Body.shell (shloop junk code (lines.map lineCmd)) }
    else
      none
  next := shellPid + 1
  pipes := 0
  log := []

def standard : Table := fun fd => if fd < 3 then some (Stream.given fd) else none

theorem standard_std : standard 0 ≠ none ∧ standard 1 ≠ none := ⟨nofun, nofun⟩

theorem standard_fresh (k : Nat) : Fresh standard k := by
  intro fd
  unfold standard
  split
  · exact ⟨nofun, nofun⟩
  · exact ⟨nofun, nofun⟩

/-!
# What the parser makes
-/

section Parsing

variable {ts : List Token} {cmd left right : Cmd} {sh : Parser} {operator : Token}

theorem sane_redirTo (h : Sane cmd) (text : Text) : Sane (redirTo cmd operator text) := by
  refine ⟨?_, h⟩
  unfold redirFd
  split
  · exact Or.inl rfl
  · exact Or.inr rfl

theorem sane_redirAll (rs : List (Token × Text)) (h : Sane cmd) : Sane (redirAll cmd rs) := by
  induction rs generalizing cmd with
  | nil => exact h
  | cons r rest ih => exact ih (sane_redirTo h r.2)

theorem sane_joined (hop : operator.isBinary = true) (hl : Sane left) (hr : Sane right) :
    Sane (joined operator left right) := by
  unfold joined
  split
  · exact ⟨hl, hr⟩
  · rename_i hne
    refine ⟨?_, hl, hr⟩
    cases operator with
    | and => exact Or.inl rfl
    | or => exact Or.inr rfl
    | pipe => exact absurd rfl hne
    | _ => cases hop

theorem sane_listed {value : Option Cmd} (hl : Sane left)
    (hr : forall right, value = some right -> Sane right) : Sane (listed operator left value) := by
  have hleft : Sane (if operator = Token.back then Cmd.back left else left) := by
    split
    · exact hl
    · exact hl
  cases value with
  | none => exact hleft
  | some right => exact ⟨hleft, hr right rfl⟩

/-- The parser redirects only 0 and 1, and joins only by `|`, `&&` and `||`. -/
theorem sane_of_reads {nt : NonTerminal} {ends noisy : Bool} {value : Option Cmd}
    (h : Reads nt ends ts value noisy) : forall cmd, value = some cmd -> Sane cmd := by
  induction h with
  | exec texts hne hlen =>
      intro cmd heq
      cases heq
      exact trivial
  | group hinner ih => exact ih
  | leftOpen hinner ih => exact nofun
  | missing => exact nofun
  | bare hinner ih => exact ih
  | redir rs hinner hne hrs ih =>
      intro cmd heq
      cases heq
      exact sane_redirAll rs (ih _ rfl)
  | noPath rs optok hinner hrs hop ih => exact nofun
  | single hinner ih => exact ih
  | join hleft hop hright ihl ihr =>
      intro cmd heq
      rcases Option.map_eq_some_iff.mp heq with ⟨d, hd, hjoined⟩
      cases hjoined
      exact sane_joined hop (ihl _ rfl) (ihr d hd)
  | last hinner ih => exact ih
  | next hleft hop hright ihl ihr =>
      intro cmd heq
      cases heq
      exact sane_listed (ihl _ rfl) ihr
  | empty => exact nofun
  | full hne hinner ih => exact ih

theorem shParse_sane (h : shParse ts = some (some cmd, sh)) : Sane cmd := by
  rcases judged (5 * ts.length + 5) NonTerminal.cmd ts [] (Nat.le_refl _) with
    ⟨value, rest, new, hrun, -, hverdict⟩
  have hrun' : parseCmd (5 * ts.length + 5) ⟨ts, []⟩ = some (value, ⟨rest, [] ++ new⟩) := hrun
  cases value with
  | none =>
      rw [shParse_none hrun'] at h
      cases h
  | some c =>
      cases rest with
      | cons t rest =>
          rw [shParse_unexpected hrun' (Option.some_ne_none t)] at h
          cases h
      | nil =>
          rw [shParse_end hrun' rfl] at h
          cases h
          rcases hverdict with ⟨pre, -, hreads, -⟩ | ⟨hstuck, -, -⟩
          · exact sane_of_reads hreads cmd rfl
          · exact absurd (Or.inl rfl) hstuck

theorem lineCmd_sane {line : Text} (h : lineCmd line = some cmd) : Sane cmd := by
  unfold lineCmd at h
  rcases Option.bind_eq_some_iff.mp h with ⟨⟨value, sh⟩, hparse, hvalue⟩
  cases hvalue
  exact shParse_sane hparse

end Parsing

/-!
# The start
-/

section Start

variable {junk code : Int} {given : Table} {lines : List Text} {s : State}
  {actions : List Action} {status : Int} {proc : Proc}

def scriptOf (given : Table) (code : Int) (lines : List Text) : Goal :=
  Goal.script given (lines.map lineCmd) 0 code

theorem begin_inv (junk code : Int) (lines : List Text)
    (hstd : given 0 ≠ none ∧ given 1 ≠ none) (hfresh : forall k, Fresh given k) :
    Inv junk given (begin junk code given lines) (fun _ => scriptOf given code lines)
      (fun p => if p = shellPid then lineWork (lines.map lineCmd) else 0) := by
  have hshell : forall p proc, (begin junk code given lines).procs p = some proc ->
      p = shellPid ∧ proc =
        { parent := initPid, fds := given,
          body := Body.shell (shloop junk code (lines.map lineCmd)) } := by
    intro p proc hp
    unfold begin at hp
    dsimp only at hp
    split at hp
    · rename_i heq
      cases hp
      exact ⟨heq, rfl⟩
    · cases hp
  have hsane : forall cmd, some cmd ∈ lines.map lineCmd -> Sane cmd := by
    intro cmd hmem
    rcases List.mem_map.mp hmem with ⟨line, -, hcmd⟩
    exact lineCmd_sane hcmd
  constructor
  · intro p proc hp
    rcases hshell p proc hp with ⟨heq, hproc⟩
    cases heq
    cases hproc
    refine ⟨[], ?_, ?_⟩
    · rw [if_pos rfl]
      refine Point.prompt ?_ (Nat.le_refl 0) ?_ hsane
      · exact fun log' _ t hscript => ⟨rfl, hscript⟩
      · exact ⟨hstd.left, hstd.right, fun _ _ => rfl,
          fun k i j hboth => (hfresh k i).left hboth.left⟩
    · intro q
      constructor
      · intro hkid
        rcases hkid with ⟨child, hchild, hparent⟩
        rcases hshell q child hchild with ⟨-, hproc⟩
        rw [hproc] at hparent
        cases hparent
      · exact nofun
  · intro p hp
    apply if_neg
    intro heq
    rw [heq] at hp
    cases hp
  · intro p proc hp
    rcases hshell p proc hp with ⟨heq, hproc⟩
    cases heq
    cases hproc
    exact ⟨Nat.lt_succ_self 0, Nat.lt_succ_self 1⟩
  · intro p proc hp
    rcases hshell p proc hp with ⟨-, hproc⟩
    cases hproc
    exact Or.inl rfl
  · intro p proc hp
    rcases hshell p proc hp with ⟨-, hproc⟩
    cases hproc
    exact fun k _ => hfresh k
  · exact nofun
  · exact Nat.lt_succ_self shellPid
  · intro hnone
    cases hnone

/-- The invariant in every state of a run, with the steps behind it. -/
theorem begin_run (hstd : given 0 ≠ none ∧ given 1 ≠ none) (hfresh : forall k, Fresh given k)
    (hrun : runFrom step (begin junk code given lines) actions = some s) :
    actions.length ≤ lineWork (lines.map lineCmd) ∧ exists job cost,
      Inv junk given s job cost ∧ job shellPid = scriptOf given code lines := by
  rcases (begin_inv junk code lines hstd hfresh).run hrun with ⟨job, cost, hinv, hle, hjob⟩
  have htotal : (begin junk code given lines).total
      (fun p => if p = shellPid then lineWork (lines.map lineCmd) else 0) =
      lineWork (lines.map lineCmd) := by
    unfold State.total begin
    rw [Finset.sum_ite_eq', if_pos (Finset.mem_range.mpr (Nat.lt_succ_self shellPid))]
  exact ⟨by lia, job, cost, hinv, hjob⟩

/-!
# No process waits for ever
-/

/-- The next call is not the endless loop of `PANIC`. -/
def Asks (code : Code Empty) : Prop := exists o next, code = Program.ask o next ∧ o ≠ Op.panic

theorem shExeccmd_asks (junk : Int) (cmd : Cmd) : Asks (shExeccmd junk cmd) := by
  cases cmd with
  | exec argv =>
      cases argv with
      | nil => exact ⟨_, _, rfl, nofun⟩
      | cons name args =>
          cases Nat.lt_or_ge (cString name).length (128 - 5) with
          | inl hshort => exact ⟨_, _, shExeccmd_short hshort, nofun⟩
          | inr hlong => exact ⟨_, _, shExeccmd_long hlong, nofun⟩
  | redir cmd fd mode file => exact ⟨_, _, shExeccmd_redir cmd fd mode file, nofun⟩
  | list left right => exact ⟨_, _, list_fork left right, nofun⟩
  | back cmd => exact ⟨_, _, back_fork cmd, nofun⟩
  | pipe left right => exact ⟨_, _, shExeccmd_pipe left right, nofun⟩
  | binary left right operator => exact ⟨_, _, binary_fork left right operator, nofun⟩

theorem plumb_asks {code : Code Empty} (h : Asks code) (ops : List Plumb) :
    Asks (plumb ops code) := by
  cases ops with
  | nil => exact h
  | cons op rest =>
      cases op with
      | close fd => exact ⟨_, _, rfl, nofun⟩
      | dup fd => exact ⟨_, _, rfl, nofun⟩

theorem waits_asks (n : Nat) : Asks (waits n) := by
  cases n with
  | zero => exact ⟨_, _, rfl, nofun⟩
  | succ n => exact ⟨_, _, rfl, nofun⟩

theorem shloop_asks (junk code : Int) (lines : List (Option Cmd)) :
    Asks (shloop junk code lines) := by
  induction lines with
  | nil => exact ⟨_, _, rfl, nofun⟩
  | cons line rest ih =>
      cases line with
      | none => exact ih
      | some cmd =>
          cases hcmd : isBuiltinCmd cmd with
          | true => exact ⟨_, _, shloop_builtin hcmd, nofun⟩
          | false => exact ⟨_, _, shloop_fork hcmd, nofun⟩

theorem Point.asks {log : List Event} {job : Nat -> Goal} {p w : Nat} {kids : List Nat}
    {fds : Table} {code : Code Empty}
    (h : Point junk given log job p kids fds (Body.shell code) w) : Asks code := by
  generalize hbody : Body.shell code = body at h
  cases h with
  | enter howes hfit hops =>
      cases hbody
      exact plumb_asks (shExeccmd_asks _ _) _
  | waits howes hfresh hleft hright hlen =>
      cases hbody
      exact plumb_asks (waits_asks _) _
  | rightFork hpays hfit =>
      cases hbody
      exact ⟨_, _, rightOf_fork _ _, nofun⟩
  | prompt hserves ht hplumbed hsane =>
      cases hbody
      exact shloop_asks _ _ _
  | running hend => cases hbody
  | zombie ht hdone => cases hbody
  | _ =>
      cases hbody
      exact ⟨_, _, rfl, nofun⟩

theorem ask_refused {p : Nat} {o : Op} (next : o.Answer -> Code Empty) (hwait : o ≠ Op.wait)
    (hpanic : o ≠ Op.panic) : ask s p proc true o next ≠ none := by
  cases o with
  | wait => exact absurd rfl hwait
  | panic => exact absurd rfl hpanic
  | _ => exact Option.some_ne_none _

section Stuck

variable {job : Nat -> Goal} {cost : Nat -> Nat} {p c : Nat} {child : Proc}

theorem step_collect {next : Option Int -> Code Empty} (hp : s.procs p = some proc)
    (hbody : proc.body = Body.shell (Program.ask Op.wait next)) (hc : s.procs c = some child)
    (hparent : child.parent = p) (hzombie : child.body = Body.zombie status) :
    step s (Action.collect p c) ≠ none := by
  rcases proc with ⟨parent, fds, body⟩
  rcases child with ⟨q, fds', body'⟩
  cases hbody
  cases hzombie
  cases hparent
  show collect s q c ≠ none
  unfold collect
  rw [hp, hc]
  dsimp only
  rw [if_pos rfl]
  exact Option.some_ne_none _

/-- Where nothing can go on, each process has ended: the children first. -/
theorem Inv.ended (h : Inv junk given s job cost) (hstuck : forall a, step s a = none) (n : Nat) :
    forall p proc, s.procs p = some proc -> s.next - p ≤ n ->
      exists status, proc.body = Body.zombie status := by
  induction n with
  | zero =>
      intro p proc hp hle
      have hlt := (h.order p proc hp).right
      lia
  | succ n ih =>
      intro p proc hp hle
      cases hbody : proc.body with
      | zombie status => exact ⟨status, rfl⟩
      | program argv =>
          have hnone := hstuck (Action.leave p 0)
          rcases proc with ⟨parent, fds, body⟩
          cases hbody
          simp only [step, hp] at hnone
          cases hnone
      | shell code =>
          rcases h.point p proc hp with ⟨kids, hpoint, hkids⟩
          rw [hbody] at hpoint
          rcases hpoint.asks with ⟨o, next, hcode, hpanic⟩
          rw [hcode] at hbody
          have hnone := hstuck (Action.turn p true)
          rw [step_turn hp hbody] at hnone
          cases Classical.em (o = Op.wait) with
          | inr hwait => exact absurd hnone (ask_refused next hwait hpanic)
          | inl hwait =>
              cases hwait
              dsimp only [ask] at hnone
              split at hnone
              · rename_i hchild
                rcases (hasChild_iff h).mp hchild with ⟨c, hkid⟩
                have hlt := h.kid_lt hkid
                rcases hkid with ⟨child, hc, hparent⟩
                rcases ih c child hc (by lia) with ⟨status, hzombie⟩
                exact absurd (hstuck (Action.collect p c))
                  (step_collect hp hbody hc hparent hzombie)
              · cases hnone

theorem Inv.stuck (h : Inv junk given s job cost) (hstuck : forall a, step s a = none) :
    forall p, s.procs p = none := by
  have hended : forall p proc, s.procs p = some proc ->
      exists status, proc.body = Body.zombie status :=
    fun p proc hp => h.ended hstuck (s.next - p) p proc hp (Nat.le_refl _)
  intro p
  cases hp : s.procs p with
  | none => rfl
  | some proc =>
      rcases hended p proc hp with ⟨status, hzombie⟩
      rcases h.family p proc hp with hinit | hparent
      · have hnone := hstuck (Action.reap p)
        rcases proc with ⟨parent, fds, body⟩
        cases hzombie
        simp only [step, hp] at hnone
        rw [if_pos hinit] at hnone
        cases hnone
      · -- Its parent has ended, and keeps no children.
        cases hq : s.procs proc.parent with
        | none => exact absurd hq hparent
        | some parent =>
            rcases hended _ parent hq with ⟨status', hzombie'⟩
            exact absurd ⟨proc, hp, rfl⟩ ((h.zombie hq hzombie').right.left p)

end Stuck

/-!
# Lines
-/

/-- In any order of the processes, a shell that has ended has done its lines one by one. -/
theorem script_done (hstd : given 0 ≠ none ∧ given 1 ≠ none) (hfresh : forall k, Fresh given k)
    (hrun : runFrom step (begin junk code given lines) actions = some s)
    (hshell : s.procs shellPid = some proc) (hend : proc.body = Body.zombie status) :
    status = code ∧ Script s.log shellPid given (lines.map lineCmd) 0 s.log.length := by
  rcases begin_run hstd hfresh hrun with ⟨-, job, cost, hinv, hjob⟩
  rcases hinv.zombie hshell hend with ⟨-, -, t, ht, hdone⟩
  rw [hjob] at hdone
  exact hdone.later ht

def threeLines : List Text :=
  [[0x63, 0x64, 0x0a], [0x23, 0x0a], [0x61, 0x26, 0x26, 0x62, 0x0a]]

example : threeLines.map lineCmd =
    [some (Cmd.exec [cdName]), none,
      some (Cmd.binary (Cmd.exec [[0x61]]) (Cmd.exec [[0x62]]) Token.and)] := by
  decide +kernel

def threeActions : List Action :=
  [Action.turn 1 false, Action.turn 1 false, Action.turn 2 false, Action.turn 3 false,
    Action.leave 3 0, Action.collect 2 3, Action.turn 2 false, Action.turn 4 false,
    Action.leave 4 7, Action.collect 2 4, Action.turn 2 false, Action.collect 1 2,
    Action.turn 1 false]

def threeRun : Option State := runFrom step (begin 0 0 standard threeLines) threeActions

theorem script_done_three : exists s, threeRun = some s ∧
    Script s.log shellPid standard (threeLines.map lineCmd) 0 s.log.length := by
  have hrun := (Option.some_get (x := threeRun) rfl).symm
  exact ⟨_, hrun, (script_done standard_std standard_fresh hrun rfl rfl).right⟩

/--
No run of a shell is longer than the work of its lines, and one that cannot go on has done them
all and left no process.
-/
theorem script_ends (hstd : given 0 ≠ none ∧ given 1 ≠ none) (hfresh : forall k, Fresh given k)
    (hrun : runFrom step (begin junk code given lines) actions = some s) :
    actions.length ≤ lineWork (lines.map lineCmd) ∧ ((forall a, step s a = none) ->
      (forall p, s.procs p = none) ∧
        Script s.log shellPid given (lines.map lineCmd) 0 s.log.length) := by
  rcases begin_run hstd hfresh hrun with ⟨hle, job, cost, hinv, hjob⟩
  refine ⟨hle, ?_⟩
  intro hstuck
  have hgone := hinv.stuck hstuck
  refine ⟨hgone, ?_⟩
  rcases hinv.settled (hgone shellPid) with ⟨t, status, ht, hdone⟩
  rw [hjob] at hdone
  exact hdone.right.later ht

/-- The same run, up to the `wait` of the first process. -/
def reapedRun : Option State :=
  runFrom step (begin 0 0 standard threeLines) (threeActions ++ [Action.reap 1])

theorem step_of_gone (hgone : forall p, s.procs p = none) (a : Action) : step s a = none := by
  cases a with
  | turn p refused => simp [step, hgone]
  | collect p c => simp [step, collect, hgone]
  | leave p status => simp [step, hgone]
  | reap c => simp [step, hgone]

theorem reapedRun_gone (hrun : reapedRun = some s) (p : Nat) : s.procs p = none := by
  rcases begin_run standard_std standard_fresh hrun with ⟨-, job, cost, hinv, -⟩
  have hends : reapedRun.map (fun s => (s.next, (List.range 5).map (fun p => (s.procs p).isSome))) =
      some (5, List.replicate 5 false) := by
    decide +kernel
  rw [hrun] at hends
  rcases Prod.mk.inj (Option.some.inj hends) with ⟨hnext, hnone⟩
  cases Nat.lt_or_ge p 5 with
  | inl hlt =>
      have hfalse := List.eq_of_mem_replicate (hnone ▸ List.mem_map_of_mem (List.mem_range.mpr hlt))
      exact Option.isNone_iff_eq_none.mp (by simpa using hfalse)
  | inr hge => exact hinv.fresh (hnext ▸ hge)

theorem script_ends_three : exists s, reapedRun = some s ∧
    14 ≤ lineWork (threeLines.map lineCmd) ∧ (forall a, step s a = none) ∧
      (forall p, s.procs p = none) ∧
        Script s.log shellPid standard (threeLines.map lineCmd) 0 s.log.length := by
  have hrun := (Option.some_get (x := reapedRun) rfl).symm
  rcases script_ends standard_std standard_fresh hrun with ⟨hle, hends⟩
  have hstuck := step_of_gone (reapedRun_gone hrun)
  exact ⟨_, hrun, hle, hstuck, hends hstuck⟩

/--
A program starts with the descriptors of the shell, but for 0 and 1, and never with both ends of
a pipe.
-/
theorem programs_plumbed (hstd : given 0 ≠ none ∧ given 1 ≠ none)
    (hfresh : forall k, Fresh given k)
    (hrun : runFrom step (begin junk code given lines) actions = some s) {p : Nat} {path : Text}
    {argv : List Text} {fds : Table} (hstart : Event.started p path argv fds ∈ s.log) :
    Plumbed given fds := by
  rcases begin_run hstd hfresh hrun with ⟨-, job, cost, hinv, -⟩
  exact hinv.started p path argv fds hstart

/-- `a | b`, as far as both programs have started. -/
def pipedRun : Option State :=
  runFrom step (begin 0 0 standard [[0x61, 0x7c, 0x62]])
    [Action.turn 1 false, Action.turn 2 false, Action.turn 2 false, Action.turn 2 false,
      Action.turn 3 false, Action.turn 4 false, Action.turn 4 false, Action.turn 3 false,
      Action.turn 3 false, Action.turn 3 false, Action.turn 4 false, Action.turn 4 false,
      Action.turn 4 false, Action.turn 3 false]

theorem programs_plumbed_pipe : exists s fds, pipedRun = some s ∧
    Event.started 4 [98] [[98]] fds ∈ s.log ∧ Plumbed standard fds := by
  have hrun := (Option.some_get (x := pipedRun) rfl).symm
  have hstart : Event.started 4 [98] [[98]] _ ∈ (pipedRun.get rfl).log :=
    List.mem_of_getElem? (i := 3) rfl
  exact ⟨_, _, hrun, hstart, programs_plumbed standard_std standard_fresh hrun hstart⟩

end Start

end Runner
end Shell
end NicoOS
