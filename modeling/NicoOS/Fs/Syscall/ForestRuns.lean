import NicoOS.Fs.Syscall.ForestChanges
import NicoOS.Fs.Syscall.OpenRuns

/-!
# Runs of calls in a forest

A removed directory that is still in use can be a parent for a call: a new file gets below it,
and its own parent can be removed although its entry `..` stays.  Every run of calls without
these two keeps the forest.
-/

namespace NicoOS
namespace Fs
namespace Syscall

open Lib
open Program (op Ends ends_op ends_pure ends_last ends_bind ends_mono ends_ite)
open Inode (InodeType nicache)

/-- All components but the last one lead to a removed directory, and the last is a new name. -/
def MakesInRemoved (t : Nat) (s : State) (path : Name) : Prop :=
  exists d name, foldEntries s (startOf t s path) (components path).dropLast = some d ∧
    (components path).getLast? = some name ∧ pathValidName name = true ∧
      (s.dinodes d).type = InodeType.directory ∧ (s.dinodes d).nlink = 0

/-- The path leads to an empty directory `n` that the removed directory `c` names as its parent. -/
def RemovesParent (t : Nat) (s : State) (path : Name) : Prop :=
  exists n c name, lookupOf t s path = some n ∧
    (components path).getLast? = some name ∧ name ≠ dotName ∧ name ≠ dotdotName ∧
      ((s.data n).drop 2).all (fun e => decide (e.inum = 0)) = true ∧
        (s.dinodes c).type = InodeType.directory ∧ (s.dinodes c).nlink = 0 ∧
          entryAt s c dotdotName = some n

/-- A call that makes something in a removed directory, or removes the parent of one. -/
def UsesRemoved (s : State) : Nat × Call -> Prop
  | (t, Call.openFile (some path) omode) => omode &&& oCreat ≠ 0 ∧ MakesInRemoved t s path
  | (t, Call.mkdir (some path)) => MakesInRemoved t s path
  | (t, Call.unlink (some path)) => RemovesParent t s path
  | _ => False

def makesInRemovedTest (t : Nat) (s : State) (path : Name) : Bool :=
  match foldEntries s (startOf t s path) (components path).dropLast with
  | none => false
  | some d => decide ((s.dinodes d).type = InodeType.directory ∧ (s.dinodes d).nlink = 0)

theorem makesInRemoved_test {t : Nat} {s : State} {path : Name} (h : MakesInRemoved t s path) :
    makesInRemovedTest t s path = true := by
  rcases h with ⟨d, name, hfold, -, -, hdir, hlinks⟩
  unfold makesInRemovedTest
  rw [hfold]
  exact decide_eq_true ⟨hdir, hlinks⟩

/-- A test for the calls of the runs, which lets no `unlink` through. -/
def presentTest (s : State) : Nat × Call -> Bool
  | (t, Call.openFile (some path) _) => !makesInRemovedTest t s path
  | (t, Call.mkdir (some path)) => !makesInRemovedTest t s path
  | (_, Call.unlink _) => false
  | _ => true

theorem not_usesRemoved (s : State) (a : Nat × Call) (h : presentTest s a = true) :
    Not (UsesRemoved s a) := by
  intro huses
  unfold UsesRemoved at huses
  split at huses
  · rename_i t path omode
    have htest : (!makesInRemovedTest t s path) = true := h
    rw [makesInRemoved_test huses.right] at htest
    cases htest
  · rename_i t path
    have htest : (!makesInRemovedTest t s path) = true := h
    rw [makesInRemoved_test huses] at htest
    cases htest
  · cases h
  · exact huses

section Calls

variable {home : Nat -> Option Nat} {rank : Nat -> Nat} {t : Nat} {s u v : State} {path : Name}

/-- The conditions speak of what is in use, and `log_begin_op` leaves that alone. -/
theorem MakesInRemoved.of_same (h : MakesInRemoved t v path) (htree : v.tree = u.tree)
    (hstart : startOf t v path = startOf t u path) : MakesInRemoved t u path := by
  rcases h with ⟨d, name, hfold, hlast, hvalid, hdir, hlink⟩
  have hthin := Thinned.of_tree htree
  have hdinode : v.dinodes d = u.dinodes d := congrFun (congrArg Tree.dinodes htree) d
  rw [hstart] at hfold
  rw [hdinode] at hdir hlink
  exact ⟨d, name, hthin.foldEntries hfold, hlast, hvalid, hdir, hlink⟩

theorem RemovesParent.of_same (h : RemovesParent t v path) (htree : v.tree = u.tree)
    (hstart : startOf t v path = startOf t u path) : RemovesParent t u path := by
  rcases h with ⟨n, c, name, hfold, hlast, hdot, hdotdot, hempty, hdir, hlink, hentry⟩
  have hthin := Thinned.of_tree htree
  have hdinode : v.dinodes c = u.dinodes c := congrFun (congrArg Tree.dinodes htree) c
  have hdata : v.data n = u.data n := congrFun (congrArg Tree.data htree) n
  unfold lookupOf at hfold
  rw [hstart] at hfold
  rw [hdinode] at hdir hlink
  rw [hdata] at hempty
  exact ⟨n, c, name, hthin.foldEntries hfold, hlast, hdot, hdotdot, hempty, hdir, hlink,
    hthin.entryAt hentry⟩

/-- `create_file` of a directory or a file, where it does not use a removed directory. -/
theorem orderly_createFile (h : Orderly home rank s) (hcwd : Grounded t s) {typ : InodeType}
    (htyp : typ ≠ InodeType.none) (hok : Not (MakesInRemoved t s path)) :
    Ends (perform t) (createFile path typ) s (fun _ v =>
      exists home' rank', Orderly home' rank' v) := by
  have hgentle : forall {α : Type} {p : Code α} {u : State}, Gentle t p -> Orderly home rank u ->
      Ends (perform t) p u (fun _ v => exists home' rank', Orderly home' rank' v) :=
    fun hp hu => ends_mono (hp home rank _ hu) (fun _ _ hv => ⟨home, rank, hv⟩)
  rw [createFile_eq]
  apply ends_bind (h.pathLookup0 hcwd true path).ends
  intro found u _ hall
  rcases hall with ⟨hu, hthin, hfinds⟩
  cases found with
  | none => exact ends_pure ⟨home, rank, hu⟩
  | some entry =>
      rcases entry with ⟨dir, name⟩
      have hparent := hfinds dir name rfl rfl
      have hdtyped : (u.dinodes (u.icache dir).inum).type ≠ InodeType.none := by
        rw [hparent.directory]
        exact InodeType.noConfusion
      apply ends_ite
      · intro hvalid
        apply ends_op
        intro _ v hlock
        rcases hu.lock (done_ok hlock) with ⟨href, -, hv, heq⟩
        have hplace : v.icache dir = { u.icache dir with
            locked := true
            valid := true
            diskInode := u.dinodes (u.icache dir).inum } := by
          rw [heq, setInode_self]
        have hdinodes : v.dinodes = u.dinodes := by
          rw [heq]
          rfl
        apply ends_op
        intro (parent : CachedInode) w hinode
        cases hinode
        apply ends_op
        intro _ w hassert
        have hw : w = v := by
          cases hd : decide ((v.icache dir).diskInode.type = InodeType.directory) with
          | true =>
              rw [hd] at hassert
              cases hassert
              rfl
          | false =>
              rw [hd] at hassert
              cases hassert
        rw [hw]
        have hnumber : (v.icache dir).inum = (u.icache dir).inum := by rw [hplace]
        have hvdir : (v.dinodes (v.icache dir).inum).type = InodeType.directory := by
          rw [hnumber, hdinodes]
          exact hparent.directory
        apply ends_bind (hv.dirLookup hvdir name).ends
        intro found w _ hboth
        rcases hboth with ⟨hw, hlooks⟩
        cases found with
        | some entry => exact hgentle (gentle_createExisting dir entry.2 typ) hw
        | none =>
            rw [hlooks.same rfl] at hw ⊢
            have hnames : name ≠ dotName ∧ name ≠ dotdotName := by
              constructor
              · intro hdot
                rw [hdot] at hvalid
                exact absurd hvalid (by decide)
              · intro hdotdot
                rw [hdotdot] at hvalid
                exact absurd hvalid (by decide)
            have hin : InTree home (v.icache dir).inum := by
              by_contra hout
              have hzero := (hv.forest.nlink_eq_zero_iff hvdir).mpr hout
              apply hok
              have hdinode := hthin.dinodes _ hdtyped
              have hlink : (v.dinodes (v.icache dir).inum).nlink = 0 := hzero
              rw [hnumber, hdinodes, hdinode] at hlink
              have hdir := hparent.directory
              rw [hdinode] at hdir
              exact ⟨_, name, hparent.folds, hparent.last, hvalid, hdir, hlink⟩
            have hcopy : (v.icache dir).diskInode = v.dinodes (v.icache dir).inum := by
              rw [hplace, hdinodes]
            have hused : 0 < (v.icache dir).ref := by
              rw [hplace]
              exact href
            exact orderly_createNew ⟨hw, rfl, hused, hcopy, hvdir, hin, hlooks.found,
              hnames.left, hnames.right⟩ htyp
      · intro _
        exact hgentle (gentle_bind (gentle_inodePut dir) (fun _ => gentle_pure _)) hu

/-- The second entry of a directory is the one that `dir_lookup` finds for `..`. -/
theorem Dots.entryAt {d p : Nat} (h : Dots s.tree home d p)
    (hdir : (s.dinodes d).type = InodeType.directory) (hp : p ≠ 0) :
    entryAt s d dotdotName = some p := by
  have hself : (s.data d)[0]? = some { inum := d, name := dotName } := h.self
  have hparent : (s.data d)[1]? = some { inum := p, name := dotdotName } := h.parent
  unfold Syscall.entryAt
  rw [if_pos hdir]
  cases hdata : s.data d with
  | nil =>
      rw [hdata] at hself
      cases hself
  | cons first rest =>
      cases rest with
      | nil =>
          rw [hdata] at hparent
          cases hparent
      | cons second rest =>
          rw [hdata] at hself hparent
          cases hself
          cases hparent
          rw [findEntry, if_neg (fun hboth => dotName_ne_dotdotName hboth.right), findEntry,
            if_pos ⟨hp, rfl⟩]
          rfl

theorem foldEntries_concat {start d : Nat} {names : List Name} {name : Name}
    (hfold : foldEntries s start names.dropLast = some d)
    (hlast : names.getLast? = some name) :
    foldEntries s start names = entryAt s d name := by
  have hsplit : names.dropLast ++ [name] = names := by
    rcases List.getLast?_eq_some_iff.mp hlast with ⟨front, rfl⟩
    rw [List.dropLast_concat]
  unfold foldEntries at hfold ⊢
  rw [← hsplit, List.foldl_append, hfold]
  rfl

/-- `sys_unlink`, where no removed directory names what it removes. -/
theorem orderly_sysUnlink (h : Orderly home rank s) (hcwd : Grounded t s)
    (hok : Not (RemovesParent t s path)) :
    Ends (perform t) (sysUnlink (some path)) s (fun _ v =>
      exists home' rank', Orderly home' rank' v) := by
  have hgentle : forall {α : Type} {p : Code α} {u : State}, Gentle t p -> Orderly home rank u ->
      Ends (perform t) p u (fun _ v => exists home' rank', Orderly home' rank' v) :=
    fun hp hu => ends_mono (hp home rank _ hu) (fun _ _ hv => ⟨home, rank, hv⟩)
  apply ends_op
  intro _ s1 hbegin
  rcases logBegin_begins h hcwd hbegin with ⟨h1, hcwd1, htree1, hstart1⟩
  have hok1 : Not (RemovesParent t s1 path) :=
    fun hremoves => hok (hremoves.of_same htree1 (hstart1 path))
  apply ends_bind (h1.pathLookup0 hcwd1 true path).ends
  intro found u _ hall
  rcases hall with ⟨hu, hthin, hfinds⟩
  cases found with
  | none => exact hgentle (gentle_end (-1)) hu
  | some entry =>
      rcases entry with ⟨parent, name⟩
      have hparent := hfinds parent name rfl rfl
      apply ends_ite
      · exact fun _ => hgentle (gentle_end (-1)) hu
      · intro hdots
        apply ends_op
        intro _ v hlock
        rcases hu.lock (done_ok hlock) with ⟨href, -, hv, heq⟩
        have hplace : v.icache parent = { u.icache parent with
            locked := true
            valid := true
            diskInode := u.dinodes (u.icache parent).inum } := by
          rw [heq, setInode_self]
        have hvtree : v.tree = u.tree := by
          rw [heq]
          rfl
        have hvdinodes : v.dinodes = u.dinodes := congrArg Tree.dinodes hvtree
        have hnumber : (v.icache parent).inum = (u.icache parent).inum := by rw [hplace]
        have hvdir : (v.dinodes (v.icache parent).inum).type = InodeType.directory := by
          rw [hnumber, hvdinodes]
          exact hparent.directory
        apply ends_bind (hv.dirLookup hvdir name).ends
        intro found w _ hboth
        rcases hboth with ⟨hw, hlooks⟩
        cases found with
        | none => exact hgentle (gentle_unlockputEnd parent (-1)) hw
        | some entry =>
            rcases entry with ⟨k, ip⟩
            have hvused : 0 < (v.icache parent).ref := by
              rw [hplace]
              exact href
            rcases hlooks.kept parent hvused with ⟨hwparent, hwused⟩
            have hwnumber : (w.icache parent).inum = (v.icache parent).inum := by rw [hwparent]
            have hwdinodes : w.dinodes = v.dinodes := congrArg Tree.dinodes hlooks.tree
            have hwdata : w.data = v.data := congrArg Tree.data hlooks.tree
            have hwthin : Thinned s1 w :=
              (hthin.trans (Thinned.of_tree hvtree)).trans (Thinned.of_tree hlooks.tree)
            have hentry : w.tree.Entry (w.icache parent).inum k
                { inum := (w.icache ip).inum, name := name } := by
              rw [hlooks.tree, hwnumber]
              exact @entry_of_findEntry v.tree _ _ _ _ hvdir hlooks.found
            have hremoves : Removes home rank w parent ip (w.icache parent).inum
                (w.icache ip).inum k name := by
              constructor
              · exact hw
              · rfl
              · exact hwused
              · rw [hwnumber, hwdinodes, hnumber, hvdinodes, hwparent, hplace]
              · exact hentry
              · exact fun hdot => hdots (Or.inl hdot)
              · exact fun hdotdot => hdots (Or.inr hdotdot)
              · rfl
              · intro hempty c hcdir hcdots
                by_contra hout
                have hzero : (w.dinodes c).nlink = 0 :=
                  (hw.forest.nlink_eq_zero_iff hcdir).mpr hout
                have hctyped : (w.dinodes c).type ≠ InodeType.none := by
                  rw [hcdir]
                  exact InodeType.noConfusion
                have hntyped : (w.dinodes (w.icache ip).inum).type ≠ InodeType.none := by
                  rw [show (w.dinodes (w.icache ip).inum).type = InodeType.directory from
                    hcdots.directory]
                  exact InodeType.noConfusion
                have hnpos : (w.icache ip).inum ≠ 0 := hentry.right.right
                have hcentry := hcdots.entryAt hcdir hnpos
                have hfound : entryAt w (w.icache parent).inum name =
                    some (w.icache ip).inum := by
                  have hwdir : (w.dinodes (w.icache parent).inum).type = InodeType.directory :=
                    hentry.left
                  unfold Syscall.entryAt
                  rw [if_pos hwdir, hwdata, hwnumber, hlooks.found]
                  rfl
                have hfold : foldEntries s1 (startOf t s1 path) (components path).dropLast =
                    some (w.icache parent).inum := by
                  rw [hwnumber, hnumber]
                  exact hparent.folds
                apply hok1
                refine ⟨(w.icache ip).inum, c, name, ?_, hparent.last,
                  fun hdot => hdots (Or.inl hdot), fun hdotdot => hdots (Or.inr hdotdot), ?_,
                  ?_, ?_, hwthin.entryAt hcentry⟩
                · unfold lookupOf
                  rw [foldEntries_concat hfold hparent.last]
                  exact hwthin.entryAt hfound
                · rw [← hwthin.data _ hntyped]
                  exact hempty
                · rw [← hwthin.dinodes c hctyped]
                  exact hcdir
                · rw [← hwthin.dinodes c hctyped]
                  exact hzero
            exact orderly_unlinkEntry hremoves

/-- `sys_open`, where it does not use a removed directory. -/
theorem orderly_sysOpen (h : Orderly home rank s) (hcwd : Grounded t s) (omode : UInt32)
    (hok : Not (omode &&& oCreat ≠ 0 ∧ MakesInRemoved t s path)) :
    Ends (perform t) (sysOpen (some path) omode) s (fun _ v =>
      exists home' rank', Orderly home' rank' v) := by
  apply ends_op
  intro _ s1 hbegin
  rcases logBegin_begins h hcwd hbegin with ⟨h1, hcwd1, htree1, hstart1⟩
  have hopen : Ends (perform t) (openPath path omode) s1 (fun _ v =>
      exists home' rank', Orderly home' rank' v) := by
    apply ends_ite
    · intro hcreate
      apply orderly_createFile h1 hcwd1 InodeType.noConfusion
      exact fun hmakes => hok ⟨hcreate, hmakes.of_same htree1 (hstart1 path)⟩
    · intro _
      exact ends_mono (orderly_openExisting h1 hcwd1 path omode) (fun _ v hv => ⟨home, rank, hv⟩)
  apply ends_bind hopen
  intro found v _ hex
  rcases hex with ⟨home', rank', hv⟩
  cases found with
  | none =>
      exact ends_mono (gentle_end (-1) home' rank' v hv) (fun _ w hw => ⟨home', rank', hw⟩)
  | some ip =>
      exact ends_mono (gentle_openFile ip omode home' rank' v hv)
        (fun _ w hw => ⟨home', rank', hw⟩)

theorem orderly_sysMkdir (h : Orderly home rank s) (hcwd : Grounded t s)
    (hok : Not (MakesInRemoved t s path)) :
    Ends (perform t) (sysMkdir (some path)) s (fun _ v =>
      exists home' rank', Orderly home' rank' v) := by
  apply ends_op
  intro _ s1 hbegin
  rcases logBegin_begins h hcwd hbegin with ⟨h1, hcwd1, htree1, hstart1⟩
  apply ends_bind (orderly_createFile h1 hcwd1 InodeType.noConfusion
    (fun hmakes => hok (hmakes.of_same htree1 (hstart1 path))))
  intro found v _ hex
  rcases hex with ⟨home', rank', hv⟩
  cases found with
  | none =>
      exact ends_mono (gentle_end (-1) home' rank' v hv) (fun _ w hw => ⟨home', rank', hw⟩)
  | some ip =>
      exact ends_mono (gentle_putEnd ip 0 home' rank' v hv) (fun _ w hw => ⟨home', rank', hw⟩)

/-- Every call that does not use a removed directory keeps the forest. -/
theorem call_orderly (h : Orderly home rank s) (hcwd : Grounded t s)
    (hstate : (s.tasks t).state ≠ TaskState.unused) {call : Call}
    (hok : Not (UsesRemoved s (t, call))) :
    Ends (perform t) call.code s (fun _ v => exists home' rank', Orderly home' rank' v) := by
  have hkeeps : forall {p : Code Int}, Ends (perform t) p s (fun _ v => Orderly home rank v) ->
      Ends (perform t) p s (fun _ v => exists home' rank', Orderly home' rank' v) :=
    fun hp => ends_mono hp (fun _ v hv => ⟨home, rank, hv⟩)
  cases call with
  | openFile path omode =>
      cases path with
      | none => exact ends_pure ⟨home, rank, h⟩
      | some path => exact orderly_sysOpen h hcwd omode hok
  | close fd => exact hkeeps (gentle_sysClose fd home rank s h)
  | dup fd => exact hkeeps (gentle_sysDup fd home rank s h)
  | mkdir path =>
      cases path with
      | none => exact ends_pure ⟨home, rank, h⟩
      | some path => exact orderly_sysMkdir h hcwd hok
  | unlink path =>
      cases path with
      | none => exact ends_pure ⟨home, rank, h⟩
      | some path => exact orderly_sysUnlink h hcwd hok
  | read fd blocks answer => exact hkeeps (gentle_sysRead fd blocks answer home rank s h)
  | write fd chunks answer => exact hkeeps (gentle_sysWrite fd chunks answer home rank s h)
  | stat path buffer => exact hkeeps (orderly_sysStat h hcwd path buffer)
  | chdir path => exact hkeeps (orderly_sysChdir h hcwd path)
  | pipe buffer memory => exact hkeeps (gentle_sysPipe buffer memory home rank s h)
  | execv path result => exact hkeeps (orderly_procExecv h hcwd path result)
  | fork child copied => exact hkeeps (orderly_procFork h hcwd hstate child copied)
  | exit => exact hkeeps (gentle_taskExit home rank s h)

end Calls

/-!
# Runs
-/

/-- The forest, and a count for all that points at an inode. -/
structure Ordered (s : State) : Prop where
  forest : exists home rank, Orderly home rank s
  counted : exists extra : Nat -> Int, (forall i, 0 ≤ extra i) ∧ Counted s extra

section Runs

variable {s s' : State}

theorem Ordered.grounded (h : Ordered s) (t : Nat) : Grounded t s := by
  intro i hi
  rcases h.counted with ⟨extra, hextra, hcounted⟩
  have hle := hcounted.balanced.slot_le (x := Sum.inr t) hi
  have hpos := hextra i
  lia

theorem Ordered.step (h : Ordered s) {a : Nat × Call} (hok : Not (UsesRemoved s a))
    (hstep : step s a = some s') : Ordered s' := by
  rcases a with ⟨t, call⟩
  rcases step_some hstep with ⟨hready, answer, hrun⟩
  have hstate : (s.tasks t).state ≠ TaskState.unused := by
    rw [hready]
    exact fun e => by cases e
  rcases h.forest with ⟨home, rank, horderly⟩
  rcases h.counted with ⟨extra, hextra, hcounted⟩
  refine ⟨(call_orderly horderly (h.grounded t) hstate hok).run answer s' hrun, ?_⟩
  cases Classical.em (UnlinksDots s (t, call)) with
  | inr hno =>
      exact ⟨extra, hextra, (call_counted t call hcounted hstate hno).run answer s' hrun⟩
  | inl hdots =>
      cases call with
      | unlink path =>
          rcases sysUnlink_leaks ⟨hcounted, hstate, rfl⟩ hdots with ⟨parent, hends⟩
          refine ⟨extra + credit (some parent), ?_, (hends.run answer s' hrun).toCounted⟩
          intro i
          have hcredit : 0 ≤ credit (some parent) i := by
            unfold credit
            split
            · decide
            · decide
          have hsum : (extra + credit (some parent)) i = extra i + credit (some parent) i := rfl
          have hpos := hextra i
          lia
      | _ => exact hdots.elim

/-- The kernel with its first process on a tree that is a forest. -/
theorem ordered_boot {disk : Tree} {home : Nat -> Option Nat} {rank : Nat -> Nat}
    (h : Forest disk home rank) : Ordered (boot disk) where
  forest := by
    refine ⟨home, rank, h, ?_, ?_⟩
    · exact bootInode_cacheSound (fun _ => rfl) (fun _ => rfl)
    · intro i hi
      rw [bootInode_zero hi]
      show (disk.dinodes rootInum).type ≠ InodeType.none
      rw [h.rootDir]
      exact InodeType.noConfusion
  counted := ⟨0, fun _ => Int.le_refl 0, counted_boot disk⟩

theorem Ordered.reaches {disk : Tree} {home : Nat -> Option Nat} {rank : Nat -> Nat}
    (h : Forest disk home rank) (hreach : Reaches Syscall.step (fun r a => Not (UsesRemoved r a))
      (boot disk) s) : Ordered s :=
  hreach.invariant (P := Ordered) (ordered_boot h) (fun _ _ _ hr hok hstep => hr.step hok hstep)

/-- No lookup of a task, at the start of a log operation or without one, finds a freed inode. -/
def LooksUpUsed (s : State) : Prop :=
  forall t nameiparent path,
    Program.exec (perform t) (pathLookup0 nameiparent path) s ≠ Except.error Stop.noType ∧
      Program.exec (perform t) (op Op.logBegin >>= fun _ => pathLookup0 nameiparent path) s ≠
        Except.error Stop.noType

theorem Ordered.looksUpUsed (h : Ordered s) : LooksUpUsed s := by
  rcases h.forest with ⟨home, rank, horderly⟩
  intro t nameiparent path
  have hcwd := h.grounded t
  refine ⟨(horderly.pathLookup0 hcwd nameiparent path).ne, ?_⟩
  apply Program.Avoids.ne (Q := fun _ _ => True)
  apply Program.avoids_op (perform_typeless t Op.logBegin s rfl)
  intro _ s1 hbegin
  rcases logBegin_begins horderly hcwd hbegin with ⟨h1, hcwd1, -⟩
  exact Program.avoids_mono (h1.pathLookup0 hcwd1 nameiparent path) (fun _ _ _ => trivial)

end Runs

end Syscall
end Fs
end NicoOS
