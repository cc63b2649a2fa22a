import NicoOS.Fs.Syscall.Calls

/-!
# Paths and their components

`path_skipelem`, `path_parent` and the loop of `path_lookup0` each take a path
apart on their own.  They agree with the non-empty parts between its slashes.
-/

namespace NicoOS
namespace Fs
namespace Syscall

open Lib
open Program (op)
open Inode (InodeType)

/-- The non-empty parts of a path between slashes. -/
def components (path : Name) : List Name :=
  (path.splitOn slash).filter (fun c => c ≠ [])

theorem components_append_slash (a b : Name) :
    components (a ++ slash :: b) = components a ++ components b := by
  unfold components
  rw [List.splitOn_append_cons_self, List.filter_append]

theorem components_slash (path : Name) : components (slash :: path) = components path :=
  components_append_slash [] path

theorem components_single {name : Name} (hne : name ≠ []) (hslash : Not (slash ∈ name)) :
    components name = [name] := by
  unfold components
  rw [List.splitOn_eq_singleton hslash]
  exact List.filter_cons_of_pos (decide_eq_true hne)

/-- A name is followed by the end of the path or by a slash. -/
theorem components_name {name rest : Name} (hne : name ≠ []) (hslash : Not (slash ∈ name))
    (hrest : rest = [] ∨ exists tail, rest = slash :: tail) :
    components (name ++ rest) = name :: components rest := by
  rcases hrest with rfl | ⟨tail, rfl⟩
  · rw [List.append_nil, components_single hne hslash]
    rfl
  · rw [components_append_slash, components_single hne hslash, components_slash]
    rfl

theorem components_ne_nil {path name : Name} (h : name ∈ components path) : name ≠ [] :=
  of_decide_eq_true (List.mem_filter.mp h).right

theorem slash_not_mem_part {path part : Name} (h : part ∈ path.splitOn slash) :
    Not (slash ∈ part) := by
  induction path generalizing part with
  | nil =>
      rw [List.splitOn_nil] at h
      rw [List.mem_singleton.mp h]
      exact List.not_mem_nil
  | cons c rest ih =>
      rw [List.splitOn_cons_eq_if_modifyHead] at h
      cases hparts : rest.splitOn slash with
      | nil => exact absurd hparts (List.splitOn_ne_nil slash rest)
      | cons first parts =>
          rw [hparts] at h ih
          split at h
          · rcases List.mem_cons.mp h with rfl | hold
            · exact List.not_mem_nil
            · exact ih hold
          · rename_i hc
            rcases List.mem_cons.mp h with rfl | hold
            · intro hmem
              rcases List.mem_cons.mp hmem with heq | htail
              · exact hc (beq_iff_eq.mpr heq.symm)
              · exact ih List.mem_cons_self htail
            · exact ih (List.mem_cons_of_mem first hold)

theorem slash_not_mem_component {path name : Name} (h : name ∈ components path) :
    Not (slash ∈ name) :=
  slash_not_mem_part (List.mem_filter.mp h).left

/-!
# Steps of the scanners
-/

theorem length_skipSlashes (path : Name) : (skipSlashes path).length ≤ path.length := by
  induction path with
  | nil => exact Nat.le_refl 0
  | cons c rest ih =>
      rw [skipSlashes]
      split
      · exact Nat.le_succ_of_le ih
      · exact Nat.le_refl _

theorem head_skipSlashes {path rest : Name} {c : UInt8} (h : skipSlashes path = c :: rest) :
    c ≠ slash := by
  induction path with
  | nil => cases h
  | cons d tail ih =>
      rw [skipSlashes] at h
      split at h
      · exact ih h
      · rename_i hd
        cases h
        exact hd

theorem components_skipSlashes (path : Name) :
    components (skipSlashes path) = components path := by
  induction path with
  | nil => rfl
  | cons c rest ih =>
      rw [skipSlashes]
      split
      · rename_i hc
        rw [ih, hc, components_slash]
      · rfl

theorem skipSlashes_split (path : Name) :
    exists slashes, path = slashes ++ skipSlashes path ∧
      forall c, c ∈ slashes -> c = slash := by
  induction path with
  | nil => exact ⟨[], rfl, fun c hc => absurd hc List.not_mem_nil⟩
  | cons c rest ih =>
      rw [skipSlashes]
      split
      · rename_i hc
        rcases ih with ⟨slashes, heq, hall⟩
        refine ⟨c :: slashes, congrArg (fun tail => c :: tail) heq, ?_⟩
        intro d hd
        rcases List.mem_cons.mp hd with rfl | hold
        · exact hc
        · exact hall d hold
      · exact ⟨[], rfl, fun c hc => absurd hc List.not_mem_nil⟩

theorem length_takeElem (path : Name) : (takeElem path).2.length ≤ path.length := by
  induction path with
  | nil => exact Nat.le_refl 0
  | cons c rest ih =>
      rw [takeElem]
      split
      · exact Nat.le_refl _
      · exact Nat.le_succ_of_le ih

theorem takeElem_append (path : Name) : (takeElem path).1 ++ (takeElem path).2 = path := by
  induction path with
  | nil => rfl
  | cons c rest ih =>
      rw [takeElem]
      split
      · rfl
      · exact congrArg (fun tail => c :: tail) ih

theorem slash_not_mem_takeElem (path : Name) : Not (slash ∈ (takeElem path).1) := by
  induction path with
  | nil => exact List.not_mem_nil
  | cons c rest ih =>
      rw [takeElem]
      split
      · exact List.not_mem_nil
      · rename_i hc
        intro hmem
        rcases List.mem_cons.mp hmem with heq | htail
        · exact hc heq.symm
        · exact ih htail

theorem takeElem_rest (path : Name) :
    (takeElem path).2 = [] ∨ exists tail, (takeElem path).2 = slash :: tail := by
  induction path with
  | nil => exact Or.inl rfl
  | cons c rest ih =>
      rw [takeElem]
      split
      · rename_i hc
        exact Or.inr ⟨rest, by rw [hc]⟩
      · exact ih

theorem takeElem_cons {c : UInt8} {rest : Name} (h : c ≠ slash) :
    takeElem (c :: rest) = (c :: (takeElem rest).1, (takeElem rest).2) := by
  rw [takeElem, if_neg h]

theorem components_takeElem {c : UInt8} {rest : Name} (h : c ≠ slash) :
    components (c :: rest) =
      (takeElem (c :: rest)).1 :: components (takeElem (c :: rest)).2 := by
  have hne : (takeElem (c :: rest)).1 ≠ [] := by
    rw [takeElem_cons h]
    exact List.cons_ne_nil _ _
  calc components (c :: rest)
      = components ((takeElem (c :: rest)).1 ++ (takeElem (c :: rest)).2) := by
        rw [takeElem_append]
    _ = _ := components_name hne (slash_not_mem_takeElem _) (takeElem_rest _)

theorem skipSlashes_eq_nil_iff (path : Name) :
    skipSlashes path = [] <-> components path = [] := by
  rw [← components_skipSlashes]
  constructor
  · intro h
    rw [h]
    rfl
  · intro h
    cases hskip : skipSlashes path with
    | nil => rfl
    | cons c rest =>
        rw [hskip, components_takeElem (head_skipSlashes hskip)] at h
        cases h

theorem pathSkipelem_none {path : Name} (h : pathSkipelem path = none) :
    components path = [] := by
  unfold pathSkipelem at h
  split at h
  · rename_i hskip
    exact (skipSlashes_eq_nil_iff path).mp hskip
  · cases h

theorem pathSkipelem_some {path name rest : Name} (h : pathSkipelem path = some (name, rest)) :
    components path = name :: components rest := by
  unfold pathSkipelem at h
  split at h
  · cases h
  · rename_i c tail hskip
    have hcomponents : components (c :: tail) = (takeElem (c :: tail)).1 ::
        components (takeElem (c :: tail)).2 := components_takeElem (head_skipSlashes hskip)
    rw [Option.some.inj h, ← hskip, components_skipSlashes] at hcomponents
    exact hcomponents

theorem length_pathSkipelem {path name rest : Name} (h : pathSkipelem path = some (name, rest)) :
    (skipSlashes rest).length < path.length := by
  unfold pathSkipelem at h
  split at h
  · cases h
  · rename_i c tail hskip
    have hrest : rest = (takeElem tail).2 := by
      rw [takeElem_cons (head_skipSlashes hskip)] at h
      cases h
      rfl
    have hpath := length_skipSlashes path
    rw [hskip] at hpath
    calc (skipSlashes rest).length ≤ rest.length := length_skipSlashes rest
      _ ≤ tail.length := by
        rw [hrest]
        exact length_takeElem tail
      _ < path.length := hpath

/-!
# The loop over the components
-/

def walk (nameiparent : Bool) : Nat -> List Name -> Name -> Code (Option (Nat × Name))
  | parent, [], name =>
      if nameiparent then do
        inodePut parent
        pure none
      else
        pure (some (parent, name))
  | parent, name :: rest, _ => do
      assert (decide (name.length < direntNameLength)) Stop.overrun
      op (Op.inodeLock parent)
      let ip <- op (Op.inode parent)
      if ip.diskInode.type ≠ InodeType.directory then do
        inodeUnlockput parent
        pure none
      else if rest = [] ∧ nameiparent then do
        op (Op.inodeUnlock parent)
        pure (some (parent, name))
      else do
        match <- dirLookup parent name with
        | none => do
            inodeUnlockput parent
            pure none
        | some (_, next) => do
            inodeUnlockput parent
            walk nameiparent next rest name

theorem pathLookupFrom_eq (nameiparent : Bool) (fuel parent : Nat) (path name : Name)
    (hfuel : path.length < fuel) :
    pathLookupFrom nameiparent fuel parent path name =
      walk nameiparent parent (components path) name := by
  induction fuel generalizing parent path name with
  | zero => exact absurd hfuel (Nat.not_lt_zero _)
  | succ fuel ih =>
      rw [pathLookupFrom]
      cases helem : pathSkipelem path with
      | none =>
          rw [pathSkipelem_none helem]
          rfl
      | some elem =>
          have hshort : (skipSlashes elem.2).length < fuel :=
            Nat.lt_of_lt_of_le (length_pathSkipelem helem) (Nat.le_of_lt_succ hfuel)
          have hnext : forall next, pathLookupFrom nameiparent fuel next (skipSlashes elem.2)
              elem.1 = walk nameiparent next (components elem.2) elem.1 := by
            intro next
            rw [ih next _ _ hshort, components_skipSlashes]
          rw [pathSkipelem_some helem]
          simp only [hnext, skipSlashes_eq_nil_iff]
          rfl

theorem pathLookup0_eq (nameiparent : Bool) (path : Name) :
    pathLookup0 nameiparent path =
      pathStart path >>= fun parent => walk nameiparent parent (components path) [] := by
  unfold pathLookup0
  refine congrArg _ (funext ?_)
  intro parent
  exact pathLookupFrom_eq nameiparent _ parent path [] (Nat.lt_succ_self _)

end Syscall
end Fs
end NicoOS
