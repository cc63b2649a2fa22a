import NicoOS.Fs.Dir.Refinement

/-!
# Names in records

A name comes into a record by `strcpy`.  Where it leaves room for its NUL, a lookup of the
same bytes finds the record, and no other lookup does.
-/

namespace NicoOS
namespace Fs
namespace Dir

open Lib
open Inode (State)

def strcpyStores : Nat -> List UInt8 -> List (Nat × UInt8)
  | k, [] => [(k, 0)]
  | k, c :: rest => (k, c) :: strcpyStores (k + 1) rest

def strcpy (dst : Memory) : Nat -> List UInt8 -> Memory
  | k, [] => Function.update dst k 0
  | k, c :: rest => strcpy (Function.update dst k c) (k + 1) rest

theorem strcpyStores_fst (k : Nat) (src : List UInt8) :
    (strcpyStores k src).map Prod.fst = List.range' k (src.length + 1) := by
  induction src generalizing k with
  | nil => rfl
  | cons c rest ih =>
      rw [strcpyStores, List.map_cons, ih]
      rfl

/-- The stores are inside exactly if the name and its NUL are. -/
theorem strcpyStores_inside_iff (src : List UInt8) :
    (forall x, x ∈ strcpyStores 0 src -> x.1 < direntNameLength) <->
      src.length < direntNameLength := by
  have hindices := strcpyStores_fst 0 src
  constructor
  · intro hall
    have hlast : src.length ∈ (strcpyStores 0 src).map Prod.fst := by
      rw [hindices]
      exact List.mem_range'_1.mpr ⟨Nat.zero_le _, by lia⟩
    rcases List.mem_map.mp hlast with ⟨x, hx, heq⟩
    rw [<- heq]
    exact hall x hx
  · intro hlt x hx
    have hmem : x.1 ∈ (strcpyStores 0 src).map Prod.fst := List.mem_map.mpr ⟨x, hx, rfl⟩
    rw [hindices] at hmem
    have hbound := (List.mem_range'_1.mp hmem).right
    lia

theorem strcpy_before (dst : Memory) (src : List UInt8) {k i : Nat} (h : i < k) :
    strcpy dst k src i = dst i := by
  induction src generalizing dst k with
  | nil => exact Function.update_of_ne (Nat.ne_of_lt h) ..
  | cons c rest ih =>
      rw [strcpy, ih _ (Nat.lt_succ_of_lt h)]
      exact Function.update_of_ne (Nat.ne_of_lt h) ..

theorem strcpy_first (dst : Memory) (k : Nat) (c : UInt8) (rest : List UInt8) :
    strcpy dst k (c :: rest) k = c := by
  rw [strcpy, strcpy_before _ _ (Nat.lt_succ_self k)]
  exact Function.update_self ..

theorem strcpy_end (dst : Memory) (k : Nat) (src : List UInt8) :
    strcpy dst k src (k + src.length) = 0 := by
  induction src generalizing dst k with
  | nil => exact Function.update_self ..
  | cons c rest ih =>
      have hend := ih (Function.update dst k c) (k + 1)
      rw [strcpy, List.length_cons, <- hend]
      congr 1
      lia

theorem labelFrom_strcpy (dst : Memory) {src : List UInt8} {fuel : Nat} (k : Nat)
    (hzero : Not (0 ∈ src)) (hlen : src.length ≤ fuel) :
    labelFrom (strcpy dst k src) fuel k = src := by
  induction src generalizing dst k fuel with
  | nil =>
      cases fuel with
      | zero => rfl
      | succ fuel =>
          rw [labelFrom]
          exact if_pos (strcpy_end dst k [])
  | cons c rest ih =>
      cases fuel with
      | zero => cases hlen
      | succ fuel =>
          have hc : c ≠ 0 := fun h => hzero (h ▸ List.mem_cons_self)
          rw [labelFrom, strcpy_first, if_neg hc, strcpy,
            ih (Function.update dst k c) (k + 1) (fun h => hzero (List.mem_cons_of_mem c h))
              (Nat.le_of_succ_le_succ hlen)]

/-- The bytes of a name that is not longer than the field. -/
structure Fits (name : List UInt8) : Prop where
  nonzero : Not (0 ∈ name)
  length : name.length ≤ direntNameLength

section Fits

variable {name : List UInt8}

theorem Fits.label (h : Fits name) (junk : Memory) : label (strcpy junk 0 name) = name :=
  labelFrom_strcpy junk 0 h.nonzero h.length

theorem Fits.nameFits (h : Fits name) (junk : Memory) : nameFits (strcpy junk 0 name) = true := by
  have hlen := h.length
  have hend := strcpy_end junk 0 name
  rw [Nat.zero_add] at hend
  unfold Dir.nameFits
  rw [List.any_eq_true]
  exact ⟨name.length, List.mem_range.mpr (by lia), beq_iff_eq.mpr hend⟩

theorem Fits.named (h : Fits name) (hne : name ≠ []) (hlt : name.length < direntNameLength)
    (junk : Memory) : Named (strcpy junk 0 name) := by
  have hend := strcpy_end junk 0 name
  rw [Nat.zero_add] at hend
  refine ⟨?_, name.length, hlt, hend⟩
  cases name with
  | nil => exact absurd rfl hne
  | cons c rest =>
      rw [strcpy_first]
      exact fun hc => h.nonzero (hc ▸ List.mem_cons_self)

end Fits

/-!
# Lookups behind a link
-/

/-- What `dir_lookup` of the name finds before it calls `iget`. -/
def Answers (s : State) (i : Nat) (name : List UInt8) (answer : Option UInt32) : Prop :=
  forall junk, exists found, dirScan i (strcpy junk 0 name) s = Except.ok (found, s) ∧
    found.map Prod.fst = answer

section Answers

variable {s t : State} {i : Nat} {name : List UInt8}

theorem Opened.answers (h : Opened s i) (hfits : Fits name) :
    Answers s i name (nameMap (bytesOf s i) name) := by
  intro junk
  refine ⟨_, dirScan_eq h.readable (hfits.nameFits junk), ?_⟩
  rw [hfits.label junk]
  unfold nameMap SlotMap.binding
  rw [Option.map_map]
  rfl

/-- Behind a link its name finds the new inode, and other names find what they found. -/
theorem dirLink_answers (h : Listed s i) (hfits : Fits name) (hne : name ≠ [])
    (hlt : name.length < direntNameLength) {junk : Memory} {inum : UInt32}
    (hin : inum < s.vol.sb.ninodes) {r : Int32}
    (hrun : dirLink i { inum := inum, name := strcpy junk 0 name } s = Except.ok (r, t))
    (hr : Not (r < 0)) :
    Answers t i name (some inum) ∧
      forall other, Fits other -> other ≠ name ->
        exists answer, Answers s i other answer ∧ Answers t i other answer := by
  rcases dirLink_of_ok h (hfits.named hne hlt junk) hin hrun hr with
    ⟨hnew, hlisted, -, -, hstored⟩
  have hmap : nameMap (bytesOf t i) =
      Function.update (nameMap (bytesOf s i)) name (some inum) := by
    have hbinding := hstored.binding_eq h.distinct hnew slotAt_freeSlot
    rw [hfits.label junk] at hbinding
    exact hbinding
  constructor
  · have hself := hlisted.toOpened.answers hfits
    rw [hmap, Function.update_self] at hself
    exact hself
  · intro other hother hdiffers
    refine ⟨nameMap (bytesOf s i) other, h.toOpened.answers hother, ?_⟩
    have hkeeps := hlisted.toOpened.answers hother
    rw [hmap, Function.update_of_ne hdiffers] at hkeeps
    exact hkeeps

end Answers

end Dir
end Fs
end NicoOS
