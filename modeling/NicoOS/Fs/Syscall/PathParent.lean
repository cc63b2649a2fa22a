import NicoOS.Fs.Syscall.Effects
import NicoOS.Fs.Syscall.Paths

/-!
# The parent of a path

`path_parent` splits a path by copying, `path_lookup_parent` by walking one
component less.  Both take the same component for the last one.
-/

namespace NicoOS
namespace Fs
namespace Syscall

open Lib
open Program (op)
open Inode (InodeType)

/--
The loop of `path_parent`.  `p` is where the next `memcpy` starts, and the name is
`none` while its buffer is untouched.
-/
def pathParentFrom : Nat -> Name -> Name -> Name -> Option Name -> Name × Option Name
  | 0, _, _, parent, name => (parent, name)
  | fuel + 1, p, path, parent, name =>
      match skipSlashes path with
      | [] => (parent, name)
      | c :: rest =>
          pathParentFrom fuel (c :: rest) (takeElem (c :: rest)).2
            (parent ++ p.take (p.length - (c :: rest).length))
            (some (takeElem (c :: rest)).1)

def pathParent (path : Name) : Name × Option Name :=
  pathParentFrom (path.length + 1) path path [] none

theorem slashes_of_components {path : Name} (h : components path = []) :
    forall c, c ∈ path -> c = slash := by
  rcases skipSlashes_split path with ⟨slashes, heq, hall⟩
  rw [(skipSlashes_eq_nil_iff path).mpr h, List.append_nil] at heq
  rw [heq]
  exact hall

/-- How a path ends: in a last component and in slashes behind it. -/
structure SplitsLast (path parent name rest : Name) : Prop where
  whole : path = parent ++ name ++ rest
  slashes : forall c, c ∈ rest -> c = slash
  components : components path = components parent ++ [name]

theorem SplitsLast.after_element {elem path parent name rest : Name} (hne : elem ≠ [])
    (hslash : Not (slash ∈ elem)) (hpath : path = [] ∨ exists tail, path = slash :: tail)
    (h : SplitsLast path parent name rest) :
    SplitsLast (elem ++ path) (elem ++ parent) name rest := by
  have hmem : name ∈ Syscall.components path := by
    rw [h.components]
    exact List.mem_append_right _ List.mem_cons_self
  have hparent : parent = [] ∨ exists tail, parent = slash :: tail := by
    cases hcases : parent with
    | nil => exact Or.inl rfl
    | cons d tail =>
        right
        have hwhole := h.whole
        rw [hcases] at hwhole
        rcases hpath with hnil | ⟨tail', htail'⟩
        · rw [hnil] at hwhole
          cases hwhole
        · rw [htail'] at hwhole
          rw [← (List.cons.inj hwhole).left]
          exact ⟨tail, rfl⟩
  constructor
  · rw [h.whole, List.append_assoc, List.append_assoc, List.append_assoc]
  · exact h.slashes
  · rw [components_name hne hslash hpath, components_name hne hslash hparent, h.components]
    rfl

theorem SplitsLast.after_slashes {slashes path parent name rest : Name}
    (hall : forall c, c ∈ slashes -> c = slash) (h : SplitsLast path parent name rest) :
    SplitsLast (slashes ++ path) (slashes ++ parent) name rest := by
  induction slashes with
  | nil => exact h
  | cons c tail ih =>
      have hc := hall c List.mem_cons_self
      have htail := ih (fun d hd => hall d (List.mem_cons_of_mem c hd))
      subst hc
      constructor
      · exact congrArg (fun path => slash :: path) htail.whole
      · exact h.slashes
      · rw [List.cons_append, List.cons_append, components_slash, components_slash]
        exact htail.components

theorem splitsLast_element {elem path : Name} (hne : elem ≠ []) (hslash : Not (slash ∈ elem))
    (hpath : components path = []) : SplitsLast (elem ++ path) [] elem path := by
  have hrest := slashes_of_components hpath
  constructor
  · rfl
  · exact hrest
  · have hcases : path = [] ∨ exists tail, path = slash :: tail := by
      cases path with
      | nil => exact Or.inl rfl
      | cons c tail => exact Or.inr ⟨tail, by rw [hrest c List.mem_cons_self]⟩
    rw [components_name hne hslash hcases, hpath]
    rfl

/-- A path without a component leaves everything as it is. -/
theorem pathParentFrom_done {path : Name} (h : components path = []) (fuel : Nat)
    (p parent : Name) (name : Option Name) :
    pathParentFrom fuel p path parent name = (parent, name) := by
  cases fuel with
  | zero => rfl
  | succ fuel =>
      rw [pathParentFrom, (skipSlashes_eq_nil_iff path).mpr h]

/--
The loop of `path_parent` on the way: `pending` is what lies between the start of
the next `memcpy` and the place it has got to.
-/
theorem pathParentFrom_splits (fuel : Nat) (pending path parent : Name) (name : Option Name)
    (hfuel : path.length < fuel) (hcomponents : components path ≠ []) :
    exists front last rest,
      pathParentFrom fuel (pending ++ path) path parent name =
          (parent ++ pending ++ front, some last) ∧
        SplitsLast path front last rest := by
  induction fuel generalizing pending path parent name with
  | zero => exact absurd hfuel (Nat.not_lt_zero _)
  | succ fuel ih =>
      rcases skipSlashes_split path with ⟨slashes, hpath, hall⟩
      cases hskip : skipSlashes path with
      | nil => exact absurd ((skipSlashes_eq_nil_iff path).mp hskip) hcomponents
      | cons c tail =>
          have hc := head_skipSlashes hskip
          have hne : (takeElem (c :: tail)).1 ≠ [] := by
            rw [takeElem_cons hc]
            exact List.cons_ne_nil _ _
          have hslash := slash_not_mem_takeElem (c :: tail)
          have hwhole := takeElem_append (c :: tail)
          have hcopied : (pending ++ path).take
              ((pending ++ path).length - (c :: tail).length) = pending ++ slashes := by
            rw [hpath, hskip, ← List.append_assoc, List.length_append, Nat.add_sub_cancel]
            exact List.take_left
          rw [pathParentFrom, hskip]
          dsimp only
          rw [hcopied]
          rw [hskip] at hpath
          by_cases hlast : components (takeElem (c :: tail)).2 = []
          · refine ⟨slashes, (takeElem (c :: tail)).1, (takeElem (c :: tail)).2, ?_, ?_⟩
            · rw [pathParentFrom_done hlast, List.append_assoc]
            · have hsplit := (splitsLast_element hne hslash hlast).after_slashes hall
              rw [hwhole, ← hpath, List.append_nil] at hsplit
              exact hsplit
          · have hshort : (takeElem (c :: tail)).2.length < fuel := by
              have htail := length_takeElem tail
              rw [takeElem_cons hc]
              rw [hpath, List.length_append, List.length_cons] at hfuel
              exact Nat.lt_of_le_of_lt htail (by lia)
            rcases ih (takeElem (c :: tail)).1 (takeElem (c :: tail)).2
              (parent ++ (pending ++ slashes)) (some (takeElem (c :: tail)).1) hshort hlast with
              ⟨front, last, rest, heq, hsplit⟩
            refine ⟨slashes ++ ((takeElem (c :: tail)).1 ++ front), last, rest, ?_, ?_⟩
            · rw [hwhole] at heq
              rw [heq]
              simp only [List.append_assoc]
            · have hfront := (hsplit.after_element hne hslash (takeElem_rest _)).after_slashes hall
              rw [hwhole, ← hpath] at hfront
              exact hfront

theorem pathParent_splits {path : Name} (h : components path ≠ []) :
    exists parent name rest, pathParent path = (parent, some name) ∧
      SplitsLast path parent name rest :=
  pathParentFrom_splits (path.length + 1) [] path [] none (Nat.lt_succ_self _) h

/-!
# Looking up the parent
-/

/-- What `path_lookup_parent` does with the directory of the last component. -/
def lookupLast (ip : Nat) (name : Name) : Code (Option (Nat × Name)) := do
  assert (decide (name.length < direntNameLength)) Stop.overrun
  op (Op.inodeLock ip)
  let inode <- op (Op.inode ip)
  if inode.diskInode.type ≠ InodeType.directory then do
    inodeUnlockput ip
    pure none
  else do
    op (Op.inodeUnlock ip)
    pure (some (ip, name))

def lookupLastOf (last : Name) (found : Option (Nat × Name)) : Code (Option (Nat × Name)) :=
  match found with
  | none => pure none
  | some (ip, _) => lookupLast ip last

/-- Up to the last component both lookups take the same steps. -/
theorem walk_last (parent : Nat) (front : List Name) (last name : Name) :
    walk true parent (front ++ [last]) name =
      walk false parent front name >>= lookupLastOf last := by
  induction front generalizing parent name with
  | nil =>
      rw [List.nil_append, walk, walk, if_neg Bool.false_ne_true, pure_bind]
      unfold lookupLastOf lookupLast
      refine bind_congr (fun _ => bind_congr (fun _ => bind_congr (fun ip => ?_)))
      rw [if_pos (show [] = [] ∧ true = true from ⟨rfl, rfl⟩)]
  | cons first rest ih =>
      have hmore : Not (rest ++ [last] = [] ∧ true = true) := by
        intro h
        exact List.append_ne_nil_of_right_ne_nil _ (List.cons_ne_nil _ _) h.left
      have hplain : Not (rest = [] ∧ false = true) := fun h => Bool.false_ne_true h.right
      rw [List.cons_append, walk, walk]
      refine Eq.trans (bind_congr (fun _ => ?_)) (bind_assoc _ _ _).symm
      refine Eq.trans (bind_congr (fun _ => ?_)) (bind_assoc _ _ _).symm
      refine Eq.trans (bind_congr (fun (ip : CachedInode) => ?_)) (bind_assoc _ _ _).symm
      by_cases hdir : ip.diskInode.type ≠ InodeType.directory
      · rw [if_pos hdir, if_pos hdir, bind_assoc]
        rfl
      · rw [if_neg hdir, if_neg hdir, if_neg hmore, if_neg hplain, bind_assoc]
        refine bind_congr ?_
        intro found
        cases found with
        | none =>
            dsimp only
            rw [bind_assoc]
            rfl
        | some entry =>
            dsimp only
            rw [bind_assoc]
            exact bind_congr (fun _ => ih entry.2 first)

theorem SplitsLast.pathStart_eq {path parent name rest : Name}
    (h : SplitsLast path parent name rest) : pathStart path = pathStart parent := by
  have hwhole := h.whole
  cases hparent : parent with
  | cons c tail =>
      rw [hparent] at hwhole
      rw [hwhole]
      rfl
  | nil =>
      rw [hparent] at hwhole
      have hcomponents := h.components
      rw [hparent] at hcomponents
      cases hname : name with
      | nil =>
          rw [hname] at hcomponents
          have hmem : [] ∈ Syscall.components path := by
            rw [hcomponents]
            exact List.mem_cons_self
          exact absurd rfl (components_ne_nil hmem)
      | cons c tail =>
          have hc : c ≠ slash := by
            intro heq
            have hmem : name ∈ Syscall.components path := by
              rw [hcomponents]
              exact List.mem_cons_self
            refine slash_not_mem_component hmem ?_
            rw [hname, heq]
            exact List.mem_cons_self
          rw [hwhole, hname]
          exact if_neg hc

theorem pathLookupParent_eq {path parent name rest : Name}
    (h : SplitsLast path parent name rest) :
    pathLookupParent path = pathLookup0 false parent >>= lookupLastOf name := by
  unfold pathLookupParent
  rw [pathLookup0_eq, pathLookup0_eq, h.pathStart_eq, h.components, bind_assoc]
  exact bind_congr (fun ip => walk_last ip _ name [])

/-!
# Agreement of the runs
-/

theorem exec_pathLookup (t : Nat) (path : Name) (s : State) :
    Program.exec (perform t) (pathLookup path) s =
      Program.exec (perform t) (pathLookup0 false path) s >>= fun r =>
        Except.ok (r.1.map Prod.fst, r.2) := by
  unfold pathLookup
  rw [Program.bind_def, Program.exec_bind]
  refine bind_congr ?_
  intro r
  rcases r with ⟨found, u⟩
  cases found with
  | none => rfl
  | some entry => rfl

/--
From `s` on, the lookup of the parent of `path` ends as the lookup of `parent` does,
followed by a look at the type of what was found.
-/
structure LookupAgrees (t : Nat) (s : State) (path parent name : Name) : Prop where
  stops : forall e, Program.exec (perform t) (pathLookup parent) s = Except.error e ->
    Program.exec (perform t) (pathLookupParent path) s = Except.error e
  absent : forall u, Program.exec (perform t) (pathLookup parent) s = Except.ok (none, u) ->
    Program.exec (perform t) (pathLookupParent path) s = Except.ok (none, u)
  fails : forall ip u e,
    Program.exec (perform t) (pathLookup parent) s = Except.ok (some ip, u) ->
    inodeLock ip u = Except.error e ->
    Program.exec (perform t) (pathLookupParent path) s = Except.error e
  directory : forall ip u v,
    Program.exec (perform t) (pathLookup parent) s = Except.ok (some ip, u) ->
    inodeLock ip u = Except.ok v ->
    (v.icache ip).diskInode.type = InodeType.directory ->
    exists w, inodeUnlock ip v = Except.ok w ∧
      Program.exec (perform t) (pathLookupParent path) s = Except.ok (some (ip, name), w)
  other : forall ip u v,
    Program.exec (perform t) (pathLookup parent) s = Except.ok (some ip, u) ->
    inodeLock ip u = Except.ok v ->
    (v.icache ip).diskInode.type ≠ InodeType.directory ->
    Program.exec (perform t) (pathLookupParent path) s =
      Program.exec (perform t) (inodeUnlockput ip) v >>= fun r => Except.ok (none, r.2)

theorem exec_lookupLast {t ip : Nat} {name : Name} (s : State)
    (hname : name.length < direntNameLength) :
    Program.exec (perform t) (lookupLast ip name) s =
      inodeLock ip s >>= fun v =>
        Program.exec (perform t)
          (if (v.icache ip).diskInode.type ≠ InodeType.directory then do
            inodeUnlockput ip
            pure none
          else do
            op (Op.inodeUnlock ip)
            pure (some (ip, name))) v := by
  unfold lookupLast
  rw [decide_eq_true hname]
  cases hlock : inodeLock ip s with
  | error e =>
      show (done (inodeLock ip s) >>= _) = _
      rw [hlock]
      rfl
  | ok v =>
      show (done (inodeLock ip s) >>= _) = _
      rw [hlock]
      rfl

theorem exec_pathLookupParent {path parent name rest : Name}
    (h : SplitsLast path parent name rest) (t : Nat) (s : State) :
    Program.exec (perform t) (pathLookupParent path) s =
      Program.exec (perform t) (pathLookup parent) s >>= fun r =>
        match r.1 with
        | none => Except.ok (none, r.2)
        | some ip => Program.exec (perform t) (lookupLast ip name) r.2 := by
  rw [pathLookupParent_eq h, Program.bind_def, Program.exec_bind, exec_pathLookup]
  cases Program.exec (perform t) (pathLookup0 false parent) s with
  | error e => rfl
  | ok r =>
      rcases r with ⟨found, u⟩
      cases found with
      | none => rfl
      | some entry => rfl

theorem inodeUnlock_held {i : Nat} {s : State} (hlocked : (s.icache i).locked = true)
    (href : 1 ≤ (s.icache i).ref) : exists w, inodeUnlock i s = Except.ok w :=
  ⟨_, if_pos ⟨hlocked, href⟩⟩

theorem inodeLock_held {i : Nat} {s v : State} (h : inodeLock i s = Except.ok v) :
    (v.icache i).locked = true ∧ (v.icache i).ref = (s.icache i).ref := by
  rcases inodeLock_ok h with ⟨_, _, ⟨_, rfl⟩ | ⟨_, _, rfl⟩⟩
  · simp [State.setInode]
  · simp [State.setInode]

theorem lookupAgrees {path parent name rest : Name} (h : SplitsLast path parent name rest)
    (hname : name.length < direntNameLength) (t : Nat) (s : State) :
    LookupAgrees t s path parent name := by
  have hrun := exec_pathLookupParent h t s
  constructor
  · intro e he
    rw [hrun, he]
    rfl
  · intro u hu
    rw [hrun, hu]
    rfl
  · intro ip u e hu hlock
    rw [hrun, hu]
    show Program.exec (perform t) (lookupLast ip name) u = _
    rw [exec_lookupLast u hname, hlock]
    rfl
  · intro ip u v hu hlock hdir
    rcases inodeLock_held hlock with ⟨hlocked, href⟩
    have hpos := (inodeLock_ok hlock).left
    rw [← href] at hpos
    rcases inodeUnlock_held hlocked hpos with ⟨w, hunlock⟩
    refine ⟨w, hunlock, ?_⟩
    rw [hrun, hu]
    show Program.exec (perform t) (lookupLast ip name) u = _
    rw [exec_lookupLast u hname, hlock]
    show Program.exec (perform t) (if _ then _ else _) v = _
    rw [if_neg (not_not_intro hdir)]
    show (done (inodeUnlock ip v) >>= _) = _
    rw [hunlock]
    rfl
  · intro ip u v hu hlock hdir
    rw [hrun, hu]
    show Program.exec (perform t) (lookupLast ip name) u = _
    rw [exec_lookupLast u hname, hlock]
    show Program.exec (perform t) (if _ then _ else _) v = _
    rw [if_pos hdir, Program.bind_def, Program.exec_bind]
    rfl

/-- Without a component the lookup gives back the inode that it started from. -/
theorem pathLookupParent_empty {path : Name} (h : components path = []) :
    pathLookupParent path = (do
      let start <- pathStart path
      inodePut start
      pure none) := by
  unfold pathLookupParent
  rw [pathLookup0_eq, h]
  rfl

/--
`path_parent` and `path_lookup_parent` split a path alike: at the last component, if
there is one.
-/
theorem path_lookup_parent_agrees {path : Name}
    (hshort : forall name, name ∈ components path -> name.length < direntNameLength) :
    (components path = [] ->
      pathParent path = ([], none) ∧
        pathLookupParent path = (do
          let start <- pathStart path
          inodePut start
          pure none) ∧
        forall t s found u,
          Program.exec (perform t) (pathLookupParent path) s = Except.ok (found, u) ->
            found = none) ∧
      (components path ≠ [] ->
        exists parent name rest, pathParent path = (parent, some name) ∧
          SplitsLast path parent name rest ∧
          forall t s, LookupAgrees t s path parent name) := by
  constructor
  · intro hnone
    refine ⟨pathParentFrom_done hnone _ _ _ _, pathLookupParent_empty hnone, ?_⟩
    intro t s found u hrun
    rw [pathLookupParent_empty hnone, Program.bind_def, Program.exec_bind] at hrun
    rcases bind_ok hrun with ⟨r, _, hrest⟩
    rw [Program.bind_def, Program.exec_bind] at hrest
    rcases bind_ok hrest with ⟨r', _, hend⟩
    cases hend
    rfl
  · intro hsome
    rcases pathParent_splits hsome with ⟨parent, name, rest, hparent, hsplit⟩
    refine ⟨parent, name, rest, hparent, hsplit, ?_⟩
    have hmem : name ∈ components path := by
      rw [hsplit.components]
      exact List.mem_append_right _ List.mem_cons_self
    exact lookupAgrees hsplit (hshort name hmem)

def nestedPath : Name := [47, 97, 47, 47, 98, 47]

theorem path_lookup_parent_agrees_nested :
    exists parent name rest, pathParent nestedPath = (parent, some name) ∧
      SplitsLast nestedPath parent name rest ∧
      forall t s, LookupAgrees t s nestedPath parent name := by
  refine (path_lookup_parent_agrees ?_).right (by decide)
  decide

end Syscall
end Fs
end NicoOS
