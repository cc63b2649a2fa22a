import NicoOS.Fs.Syscall.OpenRuns

/-!
# Descriptors that calls return

What `sys_open`, `sys_dup` and `sys_pipe` make of the descriptors of the task, and which
descriptor they give to the user.
-/

namespace NicoOS
namespace Fs
namespace Syscall

open Lib
open Program (op Ends Yields)

/-- `sys_pipe` with the two descriptors that it stores. -/
def pipeFds (buffer : Bool) (memory : PipeMemory) : Code (Option (Nat × Nat)) := do
  if buffer then do
    match <- pipeAlloc memory with
    | none => pure none
    | some (rfp, wfp) => do
        match <- op (Op.fdAlloc rfp) with
        | none => do
            let _ <- sysPipeBad rfp wfp none
            pure none
        | some rfd => do
            match <- op (Op.fdAlloc wfp) with
            | none => do
                let _ <- sysPipeBad rfp wfp (some rfd)
                pure none
            | some wfd => pure (some (rfd, wfd))
  else
    pure none

inductive DescriptorCall where
  | openFile (path : Option Name) (omode : UInt32)
  | dup (fd : Int)
  | pipe (buffer : Bool) (memory : PipeMemory)

/-- A descriptor that a call returns; `none` for -1. -/
def returned (r : Int) : Option (List Nat) := if 0 ≤ r then some [r.toNat] else none

/-- A call with the descriptors that it returns or stores, if it succeeds. -/
def DescriptorCall.run : DescriptorCall -> Code (Option (List Nat))
  | DescriptorCall.openFile path omode => do
      let r <- sysOpen path omode
      pure (returned r)
  | DescriptorCall.dup fd => do
      let r <- sysDup fd
      pure (returned r)
  | DescriptorCall.pipe buffer memory => do
      let fds <- pipeFds buffer memory
      pure (fds.map (fun fds => [fds.1, fds.2]))

/-!
# What a descriptor is to name
-/

/-- The slot that `fd_alloc` looks for. -/
structure LowestFree (ofiles : Nat -> Option Nat) (fd : Nat) : Prop where
  inside : fd < nofile
  free : ofiles fd = none
  lowest : forall k, k < fd -> ofiles k ≠ none

/-- The task has these descriptors, and those of the others are as they were. -/
structure Slots (s s' : State) (t : Nat) (ofiles : Nat -> Option Nat) : Prop where
  own : (s'.tasks t).ofiles = ofiles
  others : forall u, u ≠ t -> (s'.tasks u).ofiles = (s.tasks u).ofiles

/-- An entry of the file table was free, and stands for an inode now. -/
structure OpensInode (s s' : State) (f ip : Nat) (omode : UInt32) : Prop where
  fresh : (s.files f).refs = 0
  refs : (s'.files f).refs = 1
  type : (s'.files f).type = FdType.inode
  inode : (s'.files f).inode = ip
  readable : (s'.files f).readable = readableMode omode
  writable : (s'.files f).writable = writableMode omode
  others : forall g, g ≠ f -> s'.files g = s.files g

/-- Two entries were free, and are the ends of a new pipe now. -/
structure OpensPipe (s s' : State) (rfp wfp p : Nat) : Prop where
  apart : rfp ≠ wfp
  freshRead : (s.files rfp).refs = 0
  freshWrite : (s.files wfp).refs = 0
  read : (s'.files rfp).refs = 1 ∧ (s'.files rfp).type = FdType.pipe ∧ (s'.files rfp).pipe = p ∧
    (s'.files rfp).readable = true ∧ (s'.files rfp).writable = false
  write : (s'.files wfp).refs = 1 ∧ (s'.files wfp).type = FdType.pipe ∧ (s'.files wfp).pipe = p ∧
    (s'.files wfp).readable = false ∧ (s'.files wfp).writable = true
  new : s.npipes ≤ p
  others : forall g, g ≠ rfp -> g ≠ wfp -> s'.files g = s.files g

/-- An entry has one reference more. -/
structure Duplicates (s s' : State) (f : Nat) : Prop where
  file : s'.files f = { s.files f with refs := (s.files f).refs + 1 }
  others : forall g, g ≠ f -> s'.files g = s.files g

/--
The descriptors that a call gives were free, each the lowest when it was taken, and refer to
the file that was opened, duplicated or created; every other descriptor is as it was.
-/
def NamesFile (c : DescriptorCall) (t : Nat) (s s' : State) (fds : List Nat) : Prop :=
  match c with
  | DescriptorCall.openFile path omode =>
      exists fd f ip name s0 s1, fds = [fd] ∧ path = some name ∧ logBegin t s = Except.ok s0 ∧
        Program.exec (perform t) (openPath name omode) s0 = Except.ok (some ip, s1) ∧
        LowestFree (s.tasks t).ofiles fd ∧
        Slots s s' t (Function.update (s.tasks t).ofiles fd (some f)) ∧
        OpensInode s s' f ip omode
  | DescriptorCall.dup fd =>
      exists newfd f, fds = [newfd] ∧ fetchFile t fd s = some f ∧
        LowestFree (s.tasks t).ofiles newfd ∧
        Slots s s' t (Function.update (s.tasks t).ofiles newfd (some f)) ∧ Duplicates s s' f
  | DescriptorCall.pipe _ _ =>
      exists rfd wfd rfp wfp p, fds = [rfd, wfd] ∧ LowestFree (s.tasks t).ofiles rfd ∧
        LowestFree (Function.update (s.tasks t).ofiles rfd (some rfp)) wfd ∧
        Slots s s' t (Function.update (Function.update (s.tasks t).ofiles rfd (some rfp)) wfd
          (some wfp)) ∧
        OpensPipe s s' rfp wfp p

section Calls

variable {s s' : State} {t : Nat}

theorem fdAlloc_lowest (t f : Nat) (s : State) :
    fdAlloc t f s = (none, s) ∨
      exists fd, LowestFree (s.tasks t).ofiles fd ∧
        fdAlloc t f s = (some fd, setDescriptor t fd (some f) s) := by
  unfold fdAlloc
  split
  · exact Or.inl rfl
  · rename_i fd hfd
    rw [List.find?_range_eq_some] at hfd
    rcases hfd with ⟨hfree, hin, hlowest⟩
    refine Or.inr ⟨fd, ⟨List.mem_range.mp hin, of_decide_eq_true hfree, ?_⟩, rfl⟩
    intro k hk
    have htaken := hlowest k hk
    simp at htaken
    exact htaken

theorem LowestFree.unique {ofiles : Nat -> Option Nat} {fd fd' : Nat} (h : LowestFree ofiles fd)
    (h' : LowestFree ofiles fd') : fd = fd' := by
  rcases Nat.lt_trichotomy fd fd' with hlt | heq | hgt
  · exact absurd h.free (h'.lowest fd hlt)
  · exact heq
  · exact absurd h'.free (h.lowest fd' hgt)

theorem fdAlloc_bind {α : Type} {f : Nat} {next : Option Nat -> Code α}
    {Q : α -> State -> Prop} (hnone : Ends (perform t) (next none) s Q)
    (hsome : forall fd, LowestFree (s.tasks t).ofiles fd ->
      Ends (perform t) (next (some fd)) (setDescriptor t fd (some f) s) Q) :
    Ends (perform t) (op (Op.fdAlloc f) >>= next) s Q := by
  apply Program.ends_op
  intro found s1 halloc
  have halloc' : Except.ok (fdAlloc t f s) = Except.ok (found, s1) := halloc
  rcases fdAlloc_lowest t f s with hfull | ⟨fd, hlowest, hset⟩
  · rw [hfull] at halloc'
    cases halloc'
    exact hnone
  · rw [hset] at halloc'
    cases halloc'
    exact hsome fd hlowest

/-- The state in which `file_alloc` has taken an entry. -/
def takeFile (f : Nat) (s : State) : State :=
  { s.setFile f { s.files f with refs := 1, id := s.openings } with openings := s.openings + 1 }

theorem fileAlloc_bind {α : Type} {next : Option Nat -> Code α} {Q : α -> State -> Prop}
    (hnone : Ends (perform t) (next none) s Q)
    (hsome : forall f, (s.files f).refs = 0 ->
      Ends (perform t) (next (some f)) (takeFile f s) Q) :
    Ends (perform t) (op Op.fileAlloc >>= next) s Q := by
  apply Program.ends_op
  intro found s1 halloc
  have halloc' : Except.ok (fileAlloc s) = Except.ok (found, s1) := halloc
  rcases fileAlloc_cases s with hfull | ⟨f, hfree, htake⟩
  · rw [hfull] at halloc'
    cases halloc'
    exact hnone
  · rw [htake] at halloc'
    cases halloc'
    exact hsome f hfree

@[simp] theorem setDescriptor_files (t fd : Nat) (f : Option Nat) (s : State) :
    (setDescriptor t fd f s).files = s.files := rfl

@[simp] theorem takeFile_tasks (f : Nat) (s : State) : (takeFile f s).tasks = s.tasks := rfl

@[simp] theorem takeFile_self (f : Nat) (s : State) :
    (takeFile f s).files f = { s.files f with refs := 1, id := s.openings } :=
  setFile_self _ _

theorem takeFile_other {f g : Nat} (h : g ≠ f) (s : State) :
    (takeFile f s).files g = s.files g :=
  setFile_other h _

@[simp] theorem openInode_self (f ip : Nat) (readable writable : Bool) (s : State) :
    (openInode f ip readable writable s).files f = { s.files f with
      type := FdType.inode
      inode := ip
      readable := readable
      writable := writable } :=
  setFile_self _ _

theorem openInode_other {f g : Nat} (h : g ≠ f) (ip : Nat) (readable writable : Bool)
    (s : State) : (openInode f ip readable writable s).files g = s.files g :=
  setFile_other h _

@[simp] theorem openPipe_self (f p : Nat) (writable : Bool) (s : State) :
    (openPipe f p writable s).files f = { s.files f with
      type := FdType.pipe
      pipe := p
      readable := !writable
      writable := writable } :=
  setFile_self _ _

theorem openPipe_other {f g : Nat} (h : g ≠ f) (p : Nat) (writable : Bool) (s : State) :
    (openPipe f p writable s).files g = s.files g :=
  setFile_other h _

theorem OpensInode.sameFiles {r : State} {f ip : Nat} {omode : UInt32}
    (h : OpensInode s s' f ip omode) (same : s.files = r.files) : OpensInode r s' f ip omode where
  fresh := by
    rw [<- same]
    exact h.fresh
  refs := h.refs
  type := h.type
  inode := h.inode
  readable := h.readable
  writable := h.writable
  others g hg := by
    rw [<- same]
    exact h.others g hg

theorem OpensPipe.sameFiles {r : State} {rfp wfp p : Nat} (h : OpensPipe r s rfp wfp p)
    (same : s'.files = s.files) : OpensPipe r s' rfp wfp p where
  apart := h.apart
  freshRead := h.freshRead
  freshWrite := h.freshWrite
  read := by
    rw [same]
    exact h.read
  write := by
    rw [same]
    exact h.write
  new := h.new
  others g hgr hgw := by
    rw [same]
    exact h.others g hgr hgw

theorem setDescriptor_slots (s : State) (t fd : Nat) (f : Option Nat) :
    Slots s (setDescriptor t fd f s) t (Function.update (s.tasks t).ofiles fd f) where
  own := by
    rw [setDescriptor, setTask_self]
  others u hu := by
    rw [setDescriptor, setTask_other hu]

theorem Slots.sameSlots {r : State} {ofiles : Nat -> Option Nat} (h : Slots r s t ofiles)
    (same : SameSlots s s') : Slots r s' t ofiles where
  own := (same.ofiles t).trans h.own
  others u hu := (same.ofiles u).trans (h.others u hu)

theorem ends_of_yields {α : Type} {Q : α -> Prop} {p : Code α} (h : Yields Q p) (s : State) :
    Ends (perform t) p s (fun a _ => Q a) := by
  induction p generalizing s with
  | ret a => exact Program.ends_pure h
  | ask o next ih => exact Program.ends_op (fun a s1 _ => ih a (h a) s1)

/-- A branch that returns -1 meets what is said of the calls that succeed. -/
theorem ends_failed {p : Code Int} (h : Yields (fun r => r = -1) p)
    {Q : Int -> State -> Prop} : Ends (perform t) p s (fun r s' => 0 ≤ r -> Q r s') := by
  apply Program.ends_mono (ends_of_yields h s)
  intro r s' hr hge
  rw [hr] at hge
  contradiction

theorem yields_end : Yields (fun r => r = -1) (logEndOp >>= fun _ => (pure (-1) : Code Int)) :=
  Program.yields_bind (Program.yields_any _) (fun _ _ => rfl)

theorem yields_putEnd (ip : Nat) : Yields (fun r => r = -1)
    (inodePut ip >>= fun _ => logEndOp >>= fun _ => (pure (-1) : Code Int)) :=
  Program.yields_bind (Program.yields_any _) (fun _ _ => yields_end)

/-!
# `sys_open`
-/

theorem openFile_takes (ip : Nat) (omode : UInt32) (s : State) :
    Ends (perform t) (openFile ip omode) s (fun r s' => 0 ≤ r -> exists fd f : Nat,
      r = fd ∧ LowestFree (s.tasks t).ofiles fd ∧
        Slots s s' t (Function.update (s.tasks t).ofiles fd (some f)) ∧
        OpensInode s s' f ip omode) := by
  apply fileAlloc_bind
  · exact ends_failed (yields_putEnd ip)
  · intro f hfree
    apply fdAlloc_bind
    · apply ends_failed
      exact Program.yields_bind (Program.yields_any _) (fun _ _ => yields_putEnd ip)
    · intro fd hlowest
      apply plain_bind plain_logEndOp
      intro _ s1 same
      apply Program.ends_op
      intro _ s2 hopen
      cases hopen
      apply Program.ends_pure
      intro _
      have hslots := (setDescriptor_slots (takeFile f s) t fd (some f)).sameSlots same.sameSlots
      have hopened : (openInode f ip (readableMode omode) (writableMode omode) s1).files f =
          { (takeFile f s).files f with
            type := FdType.inode
            inode := ip
            readable := readableMode omode
            writable := writableMode omode } := by
        rw [openInode_self, same.files, setDescriptor_files]
      refine ⟨fd, f, rfl, hlowest, ⟨hslots.own, hslots.others⟩, ?_⟩
      constructor
      · exact hfree
      · rw [hopened, takeFile_self]
      · rw [hopened]
      · rw [hopened]
      · rw [hopened]
      · rw [hopened]
      · intro g hg
        rw [openInode_other hg, same.files, setDescriptor_files, takeFile_other hg]

theorem sysOpen_takes (path : Option Name) (omode : UInt32) (s : State) :
    Ends (perform t) (sysOpen path omode) s (fun r s' => 0 ≤ r ->
      exists (fd f ip : Nat) (name : Name) (s0 s1 : State),
        r = fd ∧ path = some name ∧ logBegin t s = Except.ok s0 ∧
        Program.exec (perform t) (openPath name omode) s0 = Except.ok (some ip, s1) ∧
        LowestFree (s.tasks t).ofiles fd ∧
        Slots s s' t (Function.update (s.tasks t).ofiles fd (some f)) ∧
        OpensInode s s' f ip omode) := by
  cases path with
  | none => exact ends_failed (p := pure (-1)) rfl
  | some name =>
      apply Program.ends_op
      intro _ s0 hbegin
      have hlog := done_ok hbegin
      have same0 : SameTable s s0 := perform_sameTable (o := Op.logBegin) rfl hbegin
      have hplain : Plain (openPath name omode) :=
        Program.only_ite (plain_createFile name _) (plain_openExisting name omode)
      apply Program.ends_bind (plain_ends hplain s0)
      intro found s1 hpath same1
      have same := same0.trans same1
      cases found with
      | none => exact ends_failed yields_end
      | some ip =>
          apply Program.ends_mono (openFile_takes ip omode s1)
          intro r s' htakes hge
          rcases htakes hge with ⟨fd, f, hr, hlowest, hslots, hfile⟩
          rw [same.ofiles] at hlowest hslots
          refine ⟨fd, f, ip, name, s0, s1, hr, rfl, hlog, hpath, hlowest, ?_, ?_⟩
          · exact ⟨hslots.own, fun u hu => (hslots.others u hu).trans (same.ofiles u)⟩
          · exact hfile.sameFiles same.files

/-!
# `sys_dup`
-/

/-- Where `sys_dup` succeeds it takes the lowest free slot and returns 0. -/
theorem sysDup_takes (fd : Int) (s : State) :
    Ends (perform t) (sysDup fd) s (fun r s' => 0 ≤ r -> exists newfd f : Nat,
      r = 0 ∧ fetchFile t fd s = some f ∧ LowestFree (s.tasks t).ofiles newfd ∧
        Slots s s' t (Function.update (s.tasks t).ofiles newfd (some f)) ∧
        Duplicates s s' f) := by
  apply Program.ends_op
  intro found s1 hfetch
  cases hfetch
  cases hfile : fetchFile t fd s with
  | none => exact ends_failed (p := pure (-1)) rfl
  | some f =>
      apply fdAlloc_bind
      · exact ends_failed (p := pure (-1)) rfl
      · intro newfd hlowest
        apply Program.ends_op
        intro _ s2 hdup
        rcases fileDup_ok (done_ok hdup) with ⟨-, hs2⟩
        have hslots := setDescriptor_slots s t newfd (some f)
        apply Program.ends_pure
        intro _
        rw [hs2]
        refine ⟨newfd, f, rfl, rfl, hlowest, ⟨hslots.own, hslots.others⟩, ?_, ?_⟩
        · rw [setFile_self, setDescriptor_files]
        · intro g hg
          rw [setFile_other hg, setDescriptor_files]

/-!
# `sys_pipe`
-/

theorem yields_pipeBad (rfp wfp : Option Nat) : Yields (fun r => r = none) (pipeBad rfp wfp) :=
  Program.yields_bind (Program.yields_any _)
    (fun _ _ => Program.yields_bind (Program.yields_any _) (fun _ _ => rfl))

theorem opensPipe_new {rfp wfp : Nat} (hne : wfp ≠ rfp) (hread : (s.files rfp).refs = 0)
    (hwrite : (s.files wfp).refs = 0) :
    OpensPipe s (openPipe wfp s.npipes true
      (openPipe rfp s.npipes false (newPipe (takeFile wfp (takeFile rfp s))).2))
      rfp wfp s.npipes := by
  have hnew : forall u : State, (newPipe u).2.files = u.files := fun _ => rfl
  constructor
  · exact hne.symm
  · exact hread
  · exact hwrite
  · rw [openPipe_other hne.symm, openPipe_self, hnew, takeFile_other hne.symm, takeFile_self]
    exact ⟨rfl, rfl, rfl, rfl, rfl⟩
  · rw [openPipe_self, openPipe_other hne, hnew, takeFile_self]
    exact ⟨rfl, rfl, rfl, rfl, rfl⟩
  · exact Nat.le_refl _
  · intro g hgr hgw
    rw [openPipe_other hgw, openPipe_other hgr, hnew, takeFile_other hgw, takeFile_other hgr]

/-- Code that answers `none` meets what is asked of another answer. -/
theorem ends_none {α : Type} {c : Code (Option α)} {Q : Option α -> State -> Prop}
    (h : Yields (fun r => r = none) c) (u : State) (hnone : forall s', Q none s') :
    Ends (perform t) c u Q := by
  apply Program.ends_mono (ends_of_yields h u)
  intro r s' hr
  rw [hr]
  exact hnone s'

/-- `pipe_alloc` fails, or takes two entries and makes them the ends of a new pipe. -/
theorem pipeAlloc_opens (memory : PipeMemory) (s : State) :
    Ends (perform t) (pipeAlloc memory) s (fun r s' => forall rfp wfp, r = some (rfp, wfp) ->
      s'.tasks = s.tasks ∧ exists p, OpensPipe s s' rfp wfp p) := by
  apply fileAlloc_bind
  · exact ends_none (yields_pipeBad none none) s (fun _ _ _ hsome => nomatch hsome)
  · intro rfp hread
    apply fileAlloc_bind
    · exact ends_none (yields_pipeBad (some rfp) none) _ (fun _ _ _ hsome => nomatch hsome)
    · intro wfp hwrite
      have hne : wfp ≠ rfp := by
        intro heq
        rw [heq, takeFile_self] at hwrite
        cases hwrite
      rw [takeFile_other hne] at hwrite
      have hopens := opensPipe_new hne hread hwrite
      have htasks : (takeFile wfp (takeFile rfp s)).tasks = s.tasks := rfl
      have hcount : s.npipes = (takeFile wfp (takeFile rfp s)).npipes := rfl
      rw [hcount] at hopens
      generalize takeFile wfp (takeFile rfp s) = u at hopens htasks
      apply Program.ends_ite
      · intro _
        apply Program.ends_op
        intro p s1 hnew
        cases hnew
        apply Program.ends_op
        intro _ s2 hopen
        cases hopen
        apply Program.ends_op
        intro _ s3 hopen
        cases hopen
        apply Program.ends_pure
        intro rfp' wfp' hsome
        cases hsome
        exact ⟨htasks, u.npipes, hopens⟩
      · intro _
        exact ends_none (yields_pipeBad (some rfp) (some wfp)) _
          (fun _ _ _ hsome => nomatch hsome)

theorem pipeFds_takes (buffer : Bool) (memory : PipeMemory) (s : State) :
    Ends (perform t) (pipeFds buffer memory) s (fun r s' => forall rfd wfd,
      r = some (rfd, wfd) -> exists rfp wfp p, LowestFree (s.tasks t).ofiles rfd ∧
        LowestFree (Function.update (s.tasks t).ofiles rfd (some rfp)) wfd ∧
        Slots s s' t (Function.update (Function.update (s.tasks t).ofiles rfd (some rfp)) wfd
          (some wfp)) ∧
        OpensPipe s s' rfp wfp p) := by
  apply Program.ends_ite
  · intro _
    apply Program.ends_bind (pipeAlloc_opens memory s)
    intro r s1 _ hopens
    cases r with
    | none =>
        apply Program.ends_pure
        intro rfd wfd hsome
        cases hsome
    | some ends =>
        rcases ends with ⟨rfp, wfp⟩
        rcases hopens rfp wfp rfl with ⟨htasks, p, hpipe⟩
        have hbad : forall rfd, Yields (fun r => r = none) (sysPipeBad rfp wfp rfd >>=
            fun _ => (pure none : Code (Option (Nat × Nat)))) :=
          fun rfd => Program.yields_bind (Program.yields_any _) (fun _ _ => rfl)
        apply fdAlloc_bind
        · exact ends_none (hbad none) s1 (fun _ _ _ hsome => nomatch hsome)
        · intro rfd hrfd
          apply fdAlloc_bind
          · exact ends_none (hbad (some rfd)) _ (fun _ _ _ hsome => nomatch hsome)
          · intro wfd hwfd
            apply Program.ends_pure
            intro rfd' wfd' hsome
            cases hsome
            have hfirst := setDescriptor_slots s1 t rfd (some rfp)
            have hsecond := setDescriptor_slots (setDescriptor t rfd (some rfp) s1) t wfd (some wfp)
            rw [hfirst.own, htasks] at hwfd
            rw [htasks] at hrfd
            refine ⟨rfp, wfp, p, hrfd, hwfd, ⟨?_, ?_⟩, ?_⟩
            · rw [hsecond.own, hfirst.own, htasks]
            · intro u hu
              rw [hsecond.others u hu, hfirst.others u hu, htasks]
            · exact hpipe.sameFiles rfl
  · intro _
    apply Program.ends_pure
    intro rfd wfd hsome
    cases hsome

theorem sysPipeBad_minus (rfp wfp : Nat) (rfd : Option Nat) :
    (sysPipeBad rfp wfp rfd >>= fun _ => (pure (-1) : Code Int)) = sysPipeBad rfp wfp rfd := by
  unfold sysPipeBad
  rw [bind_assoc]
  congr 1
  funext _
  rw [bind_assoc]
  congr 1
  funext _
  cases rfd with
  | none => rfl
  | some fd => rfl

/-- `sys_pipe` returns 0 where it stores two descriptors, and -1 elsewhere. -/
theorem sysPipe_eq (buffer : Bool) (memory : PipeMemory) :
    sysPipe buffer memory =
      (pipeFds buffer memory >>= fun r => pure (if r.isSome then 0 else -1)) := by
  cases buffer with
  | false => rfl
  | true =>
      have hrest : forall (rfp wfp : Nat) (rfd : Option Nat),
          (sysPipeBad rfp wfp rfd >>= fun _ => (pure none : Code (Option (Nat × Nat)))) >>=
            (fun r => (pure (if r.isSome then 0 else -1) : Code Int)) =
          sysPipeBad rfp wfp rfd := by
        intro rfp wfp rfd
        rw [bind_assoc]
        exact sysPipeBad_minus rfp wfp rfd
      show (pipeAlloc memory >>= _) = (pipeAlloc memory >>= _) >>= _
      rw [bind_assoc]
      congr 1
      funext r
      cases r with
      | none => rfl
      | some ends =>
          show (op (Op.fdAlloc ends.1) >>= _) = (op (Op.fdAlloc ends.1) >>= _) >>= _
          rw [bind_assoc]
          congr 1
          funext rfd
          cases rfd with
          | none => exact (hrest ends.1 ends.2 none).symm
          | some rfd =>
              show (op (Op.fdAlloc ends.2) >>= _) = (op (Op.fdAlloc ends.2) >>= _) >>= _
              rw [bind_assoc]
              congr 1
              funext wfd
              cases wfd with
              | none => exact (hrest ends.1 ends.2 (some rfd)).symm
              | some wfd => rfl

/-!
# All calls
-/

theorem returned_some {r : Int} {fds : List Nat} (h : returned r = some fds) :
    0 ≤ r ∧ fds = [r.toNat] := by
  unfold returned at h
  split at h
  · rename_i hge
    cases h
    exact ⟨hge, rfl⟩
  · cases h

theorem run_map {α β : Type} {p : Code α} {f : α -> β} {b : β}
    (h : Program.exec (perform t) (p >>= fun a => pure (f a)) s = Except.ok (b, s')) :
    exists a, Program.exec (perform t) p s = Except.ok (a, s') ∧ f a = b := by
  rw [Program.bind_def, Program.exec_bind] at h
  rcases bind_ok h with ⟨⟨a, u⟩, hp, hrest⟩
  cases hrest
  exact ⟨a, hp, rfl⟩

/-- Only `sys_dup` may return another descriptor than the one that it took. -/
theorem descriptors_named_iff (c : DescriptorCall) (t : Nat) (s s' : State) (fds : List Nat)
    (hrun : Program.exec (perform t) c.run s = Except.ok (some fds, s')) :
    NamesFile c t s s' fds <->
      forall fd, c = DescriptorCall.dup fd -> (s.tasks t).ofiles 0 = none := by
  cases c with
  | openFile path omode =>
      rcases run_map hrun with ⟨r, hopen, hret⟩
      rcases returned_some hret with ⟨hge, hfds⟩
      rcases (sysOpen_takes path omode s).run r s' hopen hge with
        ⟨fd, f, ip, name, s0, s1, hr, hpath, hlog, hfound, hlowest, hslots, hfile⟩
      rw [hr, Int.toNat_natCast] at hfds
      constructor
      · intro _ fd h
        cases h
      · intro _
        exact ⟨fd, f, ip, name, s0, s1, hfds, hpath, hlog, hfound, hlowest, hslots, hfile⟩
  | dup fd =>
      rcases run_map hrun with ⟨r, hdup, hret⟩
      rcases returned_some hret with ⟨hge, hfds⟩
      rcases (sysDup_takes fd s).run r s' hdup hge with
        ⟨newfd, f, hr, hfile, hlowest, hslots, hrefs⟩
      rw [hr] at hfds
      constructor
      · intro hex _ _
        rcases hex with ⟨newfd', -, hnew, -, hlowest', -⟩
        rw [hfds] at hnew
        cases hnew
        exact hlowest'.free
      · intro hfree
        have hzero : LowestFree (s.tasks t).ofiles 0 :=
          ⟨Nat.succ_pos _, hfree fd rfl, fun k hk => absurd hk (Nat.not_lt_zero k)⟩
        have hnew : newfd = 0 := hlowest.unique hzero
        rw [hnew] at hlowest hslots
        exact ⟨0, f, hfds, hfile, hlowest, hslots, hrefs⟩
  | pipe buffer memory =>
      rcases run_map hrun with ⟨r, hpipe, hret⟩
      rcases Option.map_eq_some_iff.mp hret with ⟨⟨rfd, wfd⟩, hr, hfds⟩
      rcases (pipeFds_takes buffer memory s).run r s' hpipe rfd wfd hr with
        ⟨rfp, wfp, p, hread, hwrite, hslots, hends⟩
      constructor
      · intro _ fd h
        cases h
      · intro _
        exact ⟨rfd, wfd, rfp, wfp, p, hfds.symm, hread, hwrite, hslots, hends⟩

theorem descriptors_named_pipe : exists s', NamesFile (DescriptorCall.pipe true ⟨true, true⟩)
    initTask (boot rootDisk) s' [0, 1] :=
  ⟨_, (descriptors_named_iff (DescriptorCall.pipe true ⟨true, true⟩) initTask (boot rootDisk) _
    [0, 1] rfl).mpr (fun fd h => by cases h)⟩

/-- Behind a pipe at 0 and 1, the duplicate of 1 is at 2, and `sys_dup` returns 0. -/
theorem sysDup_misnames :
    exists s s', Program.exec (perform initTask) (sysPipe true ⟨true, true⟩) (boot rootDisk) =
        Except.ok (0, s) ∧
      Program.exec (perform initTask) (DescriptorCall.dup 1).run s = Except.ok (some [0], s') ∧
      Not (NamesFile (DescriptorCall.dup 1) initTask s s' [0]) ∧
      fetchFile initTask 0 s' ≠ fetchFile initTask 1 s := by
  refine ⟨_, _, rfl, rfl, ?_, ?_⟩
  · intro hex
    rcases hex with ⟨newfd, f, hfds, -, hlowest, -⟩
    cases hfds
    exact absurd hlowest.free (by decide)
  · decide

end Calls

end Syscall
end Fs
end NicoOS
