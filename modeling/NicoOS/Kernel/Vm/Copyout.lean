import NicoOS.Kernel.Vm.Clearing

/-!
# Copies into other address spaces

`vm_copyout` steps through the destination in page lengths from its first address.  Where
that address is not the start of a page, every full step runs over the end of the frame
that it looked up.
-/

namespace NicoOS
namespace Kernel
namespace Vm

open Lib

def copyBytes (addr : Nat) (bytes : List UInt8) (s : Phys) : Run Phys :=
  if kernelBase ≤ addr ∧ addr + bytes.length ≤ vmemoryTop then
    Except.ok { s with
      frame := fun g x =>
        if x < pgSize ∧ addr ≤ kernelAddr g + x ∧ kernelAddr g + x < addr + bytes.length then
          bytes.getD (kernelAddr g + x - addr) 0
        else
          s.frame g x }
  else
    Except.error (Stop.fault, s)

/-- The loop of `vm_copyout`; `src` is what is left of the source. -/
def vmCopyoutFrom (pgdir : Nat) : Nat -> Nat -> List UInt8 -> Phys -> Run (Bool × Phys)
  | 0, _, _, s => Except.ok (true, s)
  | k + 1, dst, src, s =>
      if 0 < src.length then do
        let perSz := if pgSize > src.length then src.length else pgSize
        let page <- pageFramePtr pgdir dst s
        if page = 0 then
          Except.ok (false, s)
        else do
          let s <- copyBytes (page + dst % pgSize) (src.take perSz) s
          vmCopyoutFrom pgdir k (wrap (dst + perSz)) (src.drop perSz) s
      else
        Except.ok (true, s)

def vmCopyout (vm : AddressSpace) (dst : Nat) (src : List UInt8) (s : Phys) :
    Run (Bool × Phys) :=
  vmCopyoutFrom vm.pgdir (src.length / pgSize + 1) dst src s

/-!
# What a copy owes
-/

/-- Where byte `i` of the destination is in physical memory. -/
def Lands (L : Layout) (dst i g x : Nat) : Prop :=
  L.page ((dst + i) / 4096) = some g ∧ x = (dst + i) % 4096

/-- The destination reads as the source, and no other byte has changed. -/
structure CopiedOut (s : Phys) (L : Layout) (dst : Nat) (src : List UInt8) (s' : Phys) :
    Prop where
  freeList : s'.freeList = s.freeList
  exhausted : s'.exhausted = s.exhausted
  reads : forall i b, src[i]? = some b -> userByte s' L.dir (dst + i) = some b
  others : forall g x, (forall i, i < src.length -> Not (Lands L dst i g x)) ->
    s'.frame g x = s.frame g x

/-- A step that runs over the end of its page finds the frame of the next page behind it. -/
def FramesFollow (L : Layout) (dst n : Nat) : Prop :=
  forall j f, 4096 * j < n -> L.page (dst / 4096 + j) = some f ->
    4096 < dst % 4096 + min 4096 (n - 4096 * j) -> L.page (dst / 4096 + j + 1) = some (f + 1)

def Present (L : Layout) (dst n : Nat) : Prop :=
  forall v, dst / 4096 ≤ v -> 4096 * v < dst + n -> L.page v ≠ none

section Copies

variable {s s' : Phys} {free : List Nat} {L : Layout} {dst : Nat} {src : List UInt8}

/-- The bytes at their places, and nothing else. -/
structure Placed (s : Phys) (L : Layout) (dst : Nat) (src : List UInt8) (s' : Phys) : Prop where
  freeList : s'.freeList = s.freeList
  exhausted : s'.exhausted = s.exhausted
  bytes : forall i b g, src[i]? = some b -> L.page ((dst + i) / 4096) = some g ->
    s'.frame g ((dst + i) % 4096) = b
  others : forall g x, (forall i, i < src.length -> Not (Lands L dst i g x)) ->
    s'.frame g x = s.frame g x

theorem wrote_of_others (hlist : s'.freeList = s.freeList) (hex : s'.exhausted = s.exhausted)
    (hothers : forall g x, (forall i, i < src.length -> Not (Lands L dst i g x)) ->
      s'.frame g x = s.frame g x) : Wrote s s' L (fun v _ => dst / 4096 ≤ v) := by
  constructor
  · exact hlist
  · exact hex
  · intro g x
    by_cases hlands : exists i, i < src.length ∧ Lands L dst i g x
    · rcases hlands with ⟨i, -, hpage, -⟩
      exact Or.inr ⟨_, hpage, by omega⟩
    · left
      apply hothers
      intro i hi hland
      exact hlands ⟨i, hi, hland⟩

theorem sound_of_others (hs : Sound s free L) (hlist : s'.freeList = s.freeList)
    (hex : s'.exhausted = s.exhausted)
    (hothers : forall g x, (forall i, i < src.length -> Not (Lands L dst i g x)) ->
      s'.frame g x = s.frame g x) : Sound s' free L :=
  (wrote_of_others hlist hex hothers).sound hs

theorem Placed.sound (h : Placed s L dst src s') (hs : Sound s free L) : Sound s' free L :=
  sound_of_others hs h.freeList h.exhausted h.others

theorem userByte_layout (hs : Sound s free L) {a g : Nat} (hpage : L.page (a / 4096) = some g) :
    userByte s L.dir a = some (s.frame g (a % 4096)) := by
  unfold userByte
  rw [hs.layout, hpage]
  rfl

/-- Two bytes of the destination do not land at the same place. -/
theorem lands_injective (hs : Sound s free L) {i j g x : Nat} (hi : Lands L dst i g x)
    (hj : Lands L dst j g x) : i = j := by
  rcases hi with ⟨hpi, hxi⟩
  rcases hj with ⟨hpj, hxj⟩
  have hslot := hs.own (Slot.page _) (Slot.page _) g hpi hpj
  have hdiv : (dst + i) / 4096 = (dst + j) / 4096 := Slot.page.inj hslot
  omega

theorem Placed.nothing (s : Phys) (L : Layout) (dst : Nat) : Placed s L dst [] s where
  freeList := rfl
  exhausted := rfl
  bytes _ _ _ h := nomatch h
  others _ _ _ := rfl

theorem Placed.append {s1 : Phys} {first rest : List UInt8} (hs : Sound s free L)
    (h : Placed s L dst first s1) (hrest : Placed s1 L (dst + first.length) rest s') :
    Placed s L dst (first ++ rest) s' where
  freeList := hrest.freeList.trans h.freeList
  exhausted := hrest.exhausted.trans h.exhausted
  bytes i b g hb hpage := by
    by_cases hi : i < first.length
    · rw [List.getElem?_append_left hi] at hb
      rw [hrest.others g _, h.bytes i b g hb hpage]
      intro j hj hland
      have hland' : Lands L dst (first.length + j) g ((dst + i) % 4096) := by
        rcases hland with ⟨hp, hx⟩
        rw [Nat.add_assoc] at hp hx
        exact ⟨hp, hx⟩
      have heq := lands_injective hs ⟨hpage, rfl⟩ hland'
      lia
    · have hle : first.length ≤ i := Nat.le_of_not_lt hi
      rw [List.getElem?_append_right hle] at hb
      have hsum : dst + first.length + (i - first.length) = dst + i := by lia
      have hbyte := hrest.bytes (i - first.length) b g hb
      rw [hsum] at hbyte
      exact hbyte hpage
  others g x hout := by
    rw [hrest.others g x, h.others g x]
    · intro i hi
      apply hout i
      rw [List.length_append]
      lia
    · intro i hi hland
      apply hout (first.length + i)
      · rw [List.length_append]
        lia
      · rcases hland with ⟨hp, hx⟩
        rw [Nat.add_assoc] at hp hx
        exact ⟨hp, hx⟩

theorem Placed.copiedOut (h : Placed s L dst src s') (hs : Sound s free L)
    (hpresent : Present L dst src.length) : CopiedOut s L dst src s' where
  freeList := h.freeList
  exhausted := h.exhausted
  reads i b hb := by
    have hi : i < src.length := (List.getElem?_eq_some_iff.mp hb).1
    cases hp : L.page ((dst + i) / 4096) with
    | none => exact absurd hp (hpresent _ (by omega) (by omega))
    | some g => rw [userByte_layout (h.sound hs) hp, h.bytes i b g hb hp]
  others := h.others

/-!
# One step
-/

/-- The state behind a `memcpy` to offset `o` of frame `f`. -/
def copiedTo (s : Phys) (addr : Nat) (bytes : List UInt8) : Phys :=
  { s with
    frame := fun g x =>
      if x < pgSize ∧ addr ≤ kernelAddr g + x ∧ kernelAddr g + x < addr + bytes.length then
        bytes.getD (kernelAddr g + x - addr) 0
      else
        s.frame g x }

theorem copyBytes_ok {addr : Nat} {bytes : List UInt8}
    (h : copyBytes addr bytes s = Except.ok s') : s' = copiedTo s addr bytes := by
  unfold copyBytes at h
  split at h
  · cases h
    rfl
  · cases h

theorem vmCopyoutFrom_step (k : Nat) {f : Nat} (hs : Sound s free L) (hv : dst < kernelBase)
    (hpage : L.page (dst / 4096) = some f) (hsrc : 0 < src.length) :
    vmCopyoutFrom (kernelAddr L.dir) (k + 1) dst src s =
      (copyBytes (kernelAddr f + dst % 4096) (src.take (min 4096 src.length)) s >>= fun s1 =>
        vmCopyoutFrom (kernelAddr L.dir) k (wrap (dst + min 4096 src.length))
          (src.drop (min 4096 src.length)) s1) := by
  have hmin : (if pgSize > src.length then src.length else pgSize) = min 4096 src.length := by
    have hpg : pgSize = 4096 := rfl
    rw [hpg]
    split <;> omega
  conv => lhs; unfold vmCopyoutFrom
  rw [if_pos hsrc, hmin, pageFramePtr_some hs hv hpage, ok_bind, if_neg (kernelAddr_ne_zero f)]
  rfl

/-- A step whose frames follow each other writes its bytes to their places. -/
theorem copyBytes_copied {f : Nat} (src : List UInt8) (hs : Sound s free L)
    (hpage : L.page (dst / 4096) = some f) (hlen : src.length ≤ 4096)
    (hfollow : 4096 < dst % 4096 + src.length -> L.page (dst / 4096 + 1) = some (f + 1)) :
    copyBytes (kernelAddr f + dst % 4096) src s =
        Except.ok (copiedTo s (kernelAddr f + dst % 4096) src) ∧
      Placed s L dst src (copiedTo s (kernelAddr f + dst % 4096) src) := by
  have hf := (hs.page_inPool hpage)
  have hpg : pgSize = 4096 := rfl
  have hplace : forall i g, i < src.length -> L.page ((dst + i) / 4096) = some g ->
      4096 * g + (dst + i) % 4096 = 4096 * f + dst % 4096 + i := by
    intro i g hi hg
    by_cases hsame : (dst + i) / 4096 = dst / 4096
    · rw [hsame, hpage] at hg
      cases hg
      omega
    · have hnext : (dst + i) / 4096 = dst / 4096 + 1 := by omega
      rw [hnext, hfollow (by omega)] at hg
      cases hg
      omega
  constructor
  · have hin : kernelBase ≤ kernelAddr f + dst % 4096 ∧
        kernelAddr f + dst % 4096 + src.length ≤ vmemoryTop := by
      rw [kernelAddr_eq, kernelBase_eq, vmemoryTop_eq]
      rcases hf with ⟨hlow, hhigh⟩
      by_cases hover : 4096 < dst % 4096 + src.length
      · have hnext := (hs.page_inPool (hfollow hover)).right
        omega
      · omega
    unfold copyBytes
    rw [if_pos hin]
    rfl
  · constructor
    · rfl
    · rfl
    · intro i b g hb hg
      have hi : i < src.length := (List.getElem?_eq_some_iff.mp hb).1
      have hat := hplace i g hi hg
      have hindex : kernelAddr g + (dst + i) % 4096 - (kernelAddr f + dst % 4096) = i := by
        rw [kernelAddr_eq, kernelAddr_eq]
        omega
      have hhit : (dst + i) % 4096 < pgSize ∧
          kernelAddr f + dst % 4096 ≤ kernelAddr g + (dst + i) % 4096 ∧
          kernelAddr g + (dst + i) % 4096 < kernelAddr f + dst % 4096 + src.length := by
        rw [kernelAddr_eq, kernelAddr_eq, hpg]
        omega
      show (if _ then _ else _) = b
      rw [if_pos hhit, hindex, List.getD_eq_getElem?_getD, hb]
      rfl
    · intro g x hout
      show (if _ then _ else _) = s.frame g x
      rw [if_neg]
      intro hall
      rcases hall with ⟨hx, hlow, hhigh⟩
      rw [hpg] at hx
      rw [kernelAddr_eq, kernelAddr_eq] at hlow hhigh
      have hi : 4096 * g + x - (4096 * f + dst % 4096) < src.length := by omega
      apply hout _ hi
      by_cases hsame : dst % 4096 + (4096 * g + x - (4096 * f + dst % 4096)) < 4096
      · have hg : g = f := by omega
        refine ⟨?_, by omega⟩
        have hdiv : (dst + (4096 * g + x - (4096 * f + dst % 4096))) / 4096 = dst / 4096 := by
          omega
        rw [hdiv, hpage, hg]
      · have hg : g = f + 1 := by omega
        refine ⟨?_, by omega⟩
        have hdiv : (dst + (4096 * g + x - (4096 * f + dst % 4096))) / 4096 = dst / 4096 + 1 := by
          omega
        rw [hdiv, hfollow (by omega), hg]

/-!
# Whole copies
-/

/-- A present range lies in the user's part of the address space. -/
theorem Present.user (hs : Sound s free L) {n : Nat} (h : Present L dst n) (hn : 0 < n) :
    dst + n ≤ kernelBase := by
  have hlast : L.page ((dst + n - 1) / 4096) ≠ none := h _ (by omega) (by omega)
  cases hp : L.page ((dst + n - 1) / 4096) with
  | none => exact absurd hp hlast
  | some f =>
      have hlow := (hs.page_table hp).left
      rw [kernelBase_eq]
      omega

theorem Present.first {n : Nat} (h : Present L dst n) (hn : 0 < n) :
    exists f, L.page (dst / 4096) = some f := by
  cases hp : L.page (dst / 4096) with
  | none => exact absurd hp (h _ (Nat.le_refl _) (by omega))
  | some f => exact ⟨f, rfl⟩

theorem Present.tail {n m : Nat} (h : Present L dst n) (hm : m ≤ n) :
    Present L (dst + m) (n - m) := by
  intro v hlow hhigh
  exact h v (by omega) (by omega)

theorem FramesFollow.tail {n : Nat} (h : FramesFollow L dst n) (hn : 4096 ≤ n) :
    FramesFollow L (dst + 4096) (n - 4096) := by
  intro j f hj hpage hover
  have hat : (dst + 4096) / 4096 + j = dst / 4096 + (j + 1) := by omega
  rw [hat] at hpage ⊢
  apply h (j + 1) f (by omega) hpage
  omega

/-- The condition for the first step and for the others. -/
theorem FramesFollow.of_tail {n : Nat}
    (hfirst : forall f, 0 < n -> L.page (dst / 4096) = some f ->
      4096 < dst % 4096 + min 4096 n -> L.page (dst / 4096 + 1) = some (f + 1))
    (h : 4096 < n -> FramesFollow L (dst + 4096) (n - 4096)) : FramesFollow L dst n := by
  intro j f hj hpage hover
  cases j with
  | zero => exact hfirst f hj hpage hover
  | succ j =>
      have hat : (dst + 4096) / 4096 + j = dst / 4096 + (j + 1) := by omega
      have htail := h (by omega) j f (by omega)
      rw [hat] at htail
      apply htail hpage
      omega

theorem vmCopyoutFrom_placed (k : Nat) : forall (s : Phys) (dst : Nat) (src : List UInt8),
    Sound s free L -> src.length ≤ 4096 * k -> Present L dst src.length ->
    FramesFollow L dst src.length ->
    exists s', vmCopyoutFrom (kernelAddr L.dir) k dst src s = Except.ok (true, s') ∧
      Placed s L dst src s' := by
  induction k with
  | zero =>
      intro s dst src hs hlen hpresent hfollow
      have hnil : src = [] := List.length_eq_zero_iff.mp (by omega)
      subst hnil
      exact ⟨s, rfl, Placed.nothing s L dst⟩
  | succ k ih =>
      intro s dst src hs hlen hpresent hfollow
      by_cases hsrc : 0 < src.length
      · have huser := hpresent.user hs hsrc
        rcases hpresent.first hsrc with ⟨f, hpage⟩
        have hv : dst < kernelBase := by omega
        rw [kernelBase_eq] at huser
        have hpos : 0 < min 4096 src.length := by omega
        have hle : min 4096 src.length ≤ src.length := by omega
        have htake : (src.take (min 4096 src.length)).length = min 4096 src.length := by
          rw [List.length_take]
          omega
        have hone := copyBytes_copied (src.take (min 4096 src.length)) hs hpage
          (by omega) (by
            intro hover
            rw [htake] at hover
            exact hfollow 0 f (by omega) hpage hover)
        rcases hone with ⟨hrun, hplaced⟩
        have hdrop : (src.drop (min 4096 src.length)).length =
            src.length - min 4096 src.length := List.length_drop
        have hrest := ih (copiedTo s (kernelAddr f + dst % 4096) (src.take (min 4096 src.length)))
          (dst + min 4096 src.length) (src.drop (min 4096 src.length)) (hplaced.sound hs)
        rw [hdrop] at hrest
        have hfollow' : FramesFollow L (dst + min 4096 src.length)
            (src.length - min 4096 src.length) := by
          by_cases hfull : 4096 ≤ src.length
          · rw [Nat.min_eq_left hfull]
            exact hfollow.tail hfull
          · intro j f hj
            omega
        rcases hrest (by omega) (hpresent.tail (by omega)) hfollow' with ⟨s', hrunRest, hplacedRest⟩
        refine ⟨s', ?_, ?_⟩
        · have hwrap : wrap (dst + min 4096 src.length) = dst + min 4096 src.length := by
            rw [wrap_eq]
            apply Nat.mod_eq_of_lt
            omega
          rw [vmCopyoutFrom_step k hs hv hpage hsrc, hrun, ok_bind, hwrap]
          exact hrunRest
        · have hall := Placed.append hs hplaced (by rw [htake]; exact hplacedRest)
          rw [List.take_append_drop] at hall
          exact hall
      · have hnil : src = [] := List.length_eq_zero_iff.mp (by omega)
        subst hnil
        exact ⟨s, rfl, Placed.nothing s L dst⟩

theorem vmCopyout_copiedOut (hs : Sound s free L) {brk : Nat} (hpresent : Present L dst src.length)
    (hfollow : FramesFollow L dst src.length) :
    exists s', vmCopyout { pgdir := kernelAddr L.dir, brk := brk } dst src s =
        Except.ok (true, s') ∧ CopiedOut s L dst src s' := by
  have hlen : src.length ≤ 4096 * (src.length / pgSize + 1) := by
    have hpg : pgSize = 4096 := rfl
    rw [hpg]
    omega
  rcases vmCopyoutFrom_placed _ s dst src hs hlen hpresent hfollow with ⟨s', hrun, hplaced⟩
  exact ⟨s', hrun, hplaced.copiedOut hs hpresent⟩

/-!
# Copies that meet a missing page
-/

/--
A step that is reached and runs over the end of its page finds the frame of the next page
behind it.
-/
def StepsFollow (page : Nat -> Option Nat) (dst n : Nat) : Prop :=
  forall j f, 4096 * j < n -> (forall i, i < j -> page (dst / 4096 + i) ≠ none) ->
    page (dst / 4096 + j) = some f -> 4096 < dst % 4096 + min 4096 (n - 4096 * j) ->
      page (dst / 4096 + j + 1) = some (f + 1)

theorem StepsFollow.tail {page : Nat -> Option Nat} {n : Nat} (h : StepsFollow page dst n)
    (hn : 4096 ≤ n) (hfirst : page (dst / 4096) ≠ none) :
    StepsFollow page (dst + 4096) (n - 4096) := by
  intro j f hj hearlier hpage hover
  have hat : forall i, (dst + 4096) / 4096 + i = dst / 4096 + (i + 1) := fun i => by omega
  rw [hat] at hpage ⊢
  apply h (j + 1) f (by omega) _ hpage (by omega)
  intro i hi
  cases i with
  | zero => exact hfirst
  | succ i =>
      rw [<- hat]
      exact hearlier i (by omega)

theorem stepsFollow_inside {page : Nat -> Option Nat} {n : Nat} (h : dst % 4096 + n ≤ 4096) :
    StepsFollow page dst n := by
  intro j f hj _ _ hover
  omega

/-- The steps of a copy that begins where a page begins. -/
theorem stepsFollow_aligned {page : Nat -> Option Nat} {n : Nat} (h : dst % 4096 = 0) :
    StepsFollow page dst n := by
  intro j f hj _ _ hover
  omega

theorem stepsFollow_missing {page : Nat -> Option Nat} {n : Nat} (h : page (dst / 4096) = none) :
    StepsFollow page dst n := by
  intro j f hj hearlier hpage hover
  cases j with
  | zero =>
      rw [Nat.add_zero, h] at hpage
      cases hpage
  | succ j => exact absurd h (hearlier 0 (Nat.succ_pos j))

/-- The copy goes through exactly if every page that it looks up is there. -/
theorem vmCopyoutFrom_writes (k : Nat) : forall (s : Phys) (dst : Nat) (src : List UInt8),
    Sound s free L -> src.length ≤ 4096 * k -> dst + src.length ≤ kernelBase ->
    StepsFollow L.page dst src.length ->
    exists r s', vmCopyoutFrom (kernelAddr L.dir) k dst src s = Except.ok (r, s') ∧
      Wrote s s' L (fun v _ => dst / 4096 ≤ v) ∧
      (r = true <-> forall j, 4096 * j < src.length -> L.page (dst / 4096 + j) ≠ none) := by
  induction k with
  | zero =>
      intro s dst src hs hlen hhigh hfollow
      exact ⟨true, s, rfl, Wrote.refl s L _, ⟨fun _ j hj => by omega, fun _ => rfl⟩⟩
  | succ k ih =>
      intro s dst src hs hlen hhigh hfollow
      by_cases hsrc : 0 < src.length
      · have hv : dst < kernelBase := by omega
        cases hpage : L.page (dst / 4096) with
        | none =>
            refine ⟨false, s, ?_, Wrote.refl s L _, ?_⟩
            · unfold vmCopyoutFrom
              rw [if_pos hsrc, pageFramePtr_none hs hv hpage, ok_bind, if_pos rfl]
            · constructor
              · intro hyes
                cases hyes
              · exact fun hall => absurd hpage (hall 0 hsrc)
        | some f =>
            have hthere : L.page (dst / 4096) ≠ none := by
              rw [hpage]
              exact Option.some_ne_none f
            have htake : (src.take (min 4096 src.length)).length = min 4096 src.length := by
              rw [List.length_take]
              omega
            have hdrop : (src.drop (min 4096 src.length)).length =
                src.length - min 4096 src.length := List.length_drop
            rcases copyBytes_copied (src.take (min 4096 src.length)) hs hpage (by omega) (by
              intro hover
              rw [htake] at hover
              exact hfollow 0 f hsrc (fun i hi => by omega) hpage hover) with ⟨hcopy, hplaced⟩
            have hwrote := wrote_of_others hplaced.freeList hplaced.exhausted hplaced.others
            have hfollow' : StepsFollow L.page (dst + min 4096 src.length)
                (src.length - min 4096 src.length) := by
              by_cases hfull : 4096 ≤ src.length
              · rw [Nat.min_eq_left hfull]
                exact hfollow.tail hfull hthere
              · intro j f hj
                omega
            have hrest := ih (copiedTo s (kernelAddr f + dst % 4096)
              (src.take (min 4096 src.length))) (dst + min 4096 src.length)
              (src.drop (min 4096 src.length)) (hplaced.sound hs)
            rw [hdrop] at hrest
            rcases hrest (by omega) (by omega) hfollow' with ⟨r, s', hrun, hwrote', hr⟩
            refine ⟨r, s', ?_, hwrote.trans (hwrote'.mono (fun v _ hlow => by omega)), ?_⟩
            · have hwrap : wrap (dst + min 4096 src.length) = dst + min 4096 src.length := by
                rw [kernelBase_eq] at hhigh
                rw [wrap_eq]
                omega
              rw [vmCopyoutFrom_step k hs hv hpage hsrc, hcopy, ok_bind, hwrap]
              exact hrun
            · rw [hr]
              constructor
              · intro hall j hj
                cases j with
                | zero => exact hthere
                | succ j =>
                    have hat : dst / 4096 + (j + 1) =
                        (dst + min 4096 src.length) / 4096 + j := by omega
                    rw [hat]
                    exact hall j (by omega)
              · intro hall j hj
                have hat : (dst + min 4096 src.length) / 4096 + j = dst / 4096 + (j + 1) := by
                  omega
                rw [hat]
                exact hall (j + 1) (by omega)
      · refine ⟨true, s, ?_, Wrote.refl s L _, ⟨fun _ j hj => by omega, fun _ => rfl⟩⟩
        unfold vmCopyoutFrom
        rw [if_neg hsrc]

theorem vmCopyout_writes {vm : AddressSpace} (dst : Nat) (src : List UInt8) (hs : Sound s free L)
    (hvm : vm.pgdir = kernelAddr L.dir) (hhigh : dst + src.length ≤ kernelBase)
    (hfollow : StepsFollow L.page dst src.length) :
    exists r s', vmCopyout vm dst src s = Except.ok (r, s') ∧
      Wrote s s' L (fun v _ => dst / 4096 ≤ v) ∧
      (r = true <-> forall j, 4096 * j < src.length -> L.page (dst / 4096 + j) ≠ none) := by
  have hlen : src.length ≤ 4096 * (src.length / pgSize + 1) := by
    have hpg : pgSize = 4096 := rfl
    rw [hpg]
    omega
  unfold vmCopyout
  rw [hvm]
  exact vmCopyoutFrom_writes _ s dst src hs hlen hhigh hfollow

/-!
# Frames that do not follow
-/

/-- The same byte everywhere, and another one at `i`. -/
def spike (n i : Nat) (c : UInt8) : List UInt8 := (List.replicate n c).set i (c + 1)

theorem spike_length (n i : Nat) (c : UInt8) : (spike n i c).length = n := by
  unfold spike
  rw [List.length_set, List.length_replicate]

theorem spike_self {n i : Nat} (c : UInt8) (h : i < n) : (spike n i c)[i]? = some (c + 1) := by
  unfold spike
  rw [List.getElem?_set_self (by rw [List.length_replicate]; exact h)]

theorem spike_of_ne {n i j : Nat} {c : UInt8} (hne : j ≠ i) (h : j < n) :
    (spike n i c)[j]? = some c := by
  unfold spike
  rw [List.getElem?_set_ne (Ne.symm hne), List.getElem?_replicate, if_pos h]

theorem spike_drop {n i m : Nat} (c : UInt8) (h : i < m) :
    (spike n i c).drop m = List.replicate (n - m) c := by
  unfold spike
  rw [List.drop_set_of_lt h, List.drop_replicate]

/-- A byte that is copied everywhere stays where it is already. -/
theorem copyBytes_replicate {addr n g x : Nat} {c : UInt8}
    (h : copyBytes addr (List.replicate n c) s = Except.ok s') (hbyte : s.frame g x = c) :
    s'.frame g x = c := by
  rw [copyBytes_ok h]
  show (if _ then _ else _) = c
  split
  · rename_i hhit
    rcases hhit with ⟨-, hlow, hhigh⟩
    rw [List.length_replicate] at hhigh
    rw [List.getD_eq_getElem?_getD, List.getElem?_replicate, if_pos (by omega)]
    rfl
  · exact hbyte

theorem vmCopyoutFrom_replicate {pgdir g x : Nat} {c : UInt8} (k : Nat) :
    forall (s : Phys) (dst n : Nat) (r : Bool) (s' : Phys),
      vmCopyoutFrom pgdir k dst (List.replicate n c) s = Except.ok (r, s') -> s.frame g x = c ->
      s'.frame g x = c := by
  induction k with
  | zero =>
      intro s dst n r s' hrun hbyte
      cases hrun
      exact hbyte
  | succ k ih =>
      intro s dst n r s' hrun hbyte
      unfold vmCopyoutFrom at hrun
      split at hrun
      · rcases bind_ok hrun with ⟨page, -, hrun⟩
        split at hrun
        · cases hrun
          exact hbyte
        · rcases bind_ok hrun with ⟨s1, hcopy, hrun⟩
          rw [List.take_replicate] at hcopy
          rw [List.drop_replicate] at hrun
          exact ih s1 _ _ r s' hrun (copyBytes_replicate hcopy hbyte)
      · cases hrun
        exact hbyte

/-- A first step that runs into a frame that is not the next page's loses a byte. -/
theorem spike_lost {k n f g : Nat} (hs : Sound s free L) (hpage : L.page (dst / 4096) = some f)
    (hnext : L.page (dst / 4096 + 1) = some g) (hv : dst < kernelBase) (hfg : g ≠ f + 1)
    (hover : 4096 < dst % 4096 + min 4096 n)
    (hrun : vmCopyoutFrom (kernelAddr L.dir) (k + 1) dst
      (spike n (4096 - dst % 4096) (s.frame g 0)) s = Except.ok (true, s')) :
    Not (CopiedOut s L dst (spike n (4096 - dst % 4096) (s.frame g 0)) s') := by
  intro hcopied
  have hlen := spike_length n (4096 - dst % 4096) (s.frame g 0)
  have hin : 4096 - dst % 4096 < min 4096 n := by omega
  have hat : (dst + (4096 - dst % 4096)) / 4096 = dst / 4096 + 1 := by omega
  have hoffset : (dst + (4096 - dst % 4096)) % 4096 = 0 := by omega
  have hbyte : s'.frame g 0 = s.frame g 0 := by
    rw [vmCopyoutFrom_step k hs hv hpage (by omega)] at hrun
    rcases bind_ok hrun with ⟨s1, hcopy, hrest⟩
    rw [hlen, spike_drop _ hin] at hrest
    apply vmCopyoutFrom_replicate k s1 _ _ true s' hrest
    rw [copyBytes_ok hcopy]
    show (if _ then _ else _) = s.frame g 0
    split
    · rename_i hhit
      rcases hhit with ⟨-, hlow, hhigh⟩
      rw [List.length_take, hlen, kernelAddr_eq, kernelAddr_eq] at hhigh
      rw [kernelAddr_eq, kernelAddr_eq] at hlow
      rw [List.getD_eq_getElem?_getD, List.getElem?_take_of_lt (by
        rw [hlen, kernelAddr_eq, kernelAddr_eq]
        omega), spike_of_ne (by
        rw [kernelAddr_eq, kernelAddr_eq]
        omega) (by
        rw [kernelAddr_eq, kernelAddr_eq]
        omega)]
      rfl
    · rfl
  have hsound := sound_of_others hs hcopied.freeList hcopied.exhausted hcopied.others
  have hread := hcopied.reads _ _ (spike_self (s.frame g 0) (by omega : 4096 - dst % 4096 < n))
  rw [userByte_layout hsound (hat ▸ hnext), hoffset, hbyte] at hread
  have hsame := Option.some.inj hread
  simp at hsame

/-- Behind a first step that is right, the rest is a copy of its own. -/
theorem CopiedOut.tail {s1 : Phys} {first rest : List UInt8} (hs : Sound s free L)
    (hpresent : Present L dst (first ++ rest).length) (h : Placed s L dst first s1)
    (hall : CopiedOut s L dst (first ++ rest) s') :
    CopiedOut s1 L (dst + first.length) rest s' where
  freeList := hall.freeList.trans h.freeList.symm
  exhausted := hall.exhausted.trans h.exhausted.symm
  reads i b hb := by
    rw [Nat.add_assoc]
    apply hall.reads
    rw [List.getElem?_append_right (Nat.le_add_right _ _), Nat.add_sub_cancel_left]
    exact hb
  others g x hout := by
    have hsound := sound_of_others hs hall.freeList hall.exhausted hall.others
    by_cases hfirst : exists i, i < first.length ∧ Lands L dst i g x
    · rcases hfirst with ⟨i, hi, hpage, hx⟩
      have hb : first[i]? = some first[i] := List.getElem?_eq_getElem hi
      have hread := hall.reads i first[i] (by rw [List.getElem?_append_left hi, hb])
      rw [userByte_layout hsound hpage] at hread
      rw [hx, h.bytes i first[i] g hb hpage]
      exact Option.some.inj hread
    · rw [hall.others g x, h.others g x]
      · exact fun i hi hland => hfirst ⟨i, hi, hland⟩
      · intro i hi hland
        rw [List.length_append] at hi
        by_cases hlow : i < first.length
        · exact hfirst ⟨i, hlow, hland⟩
        · apply hout (i - first.length) (by omega)
          rcases hland with ⟨hp, hx⟩
          have hsum : dst + first.length + (i - first.length) = dst + i := by omega
          exact ⟨hsum ▸ hp, hsum ▸ hx⟩

theorem framesFollow_of_copies (k : Nat) : forall (s : Phys) (dst n : Nat),
    Sound s free L -> n ≤ 4096 * k -> Present L dst n ->
    (forall src, src.length = n ->
      exists s', vmCopyoutFrom (kernelAddr L.dir) k dst src s = Except.ok (true, s') ∧
        CopiedOut s L dst src s') ->
    FramesFollow L dst n := by
  induction k with
  | zero =>
      intro s dst n hs hlen hpresent hall j f hj
      omega
  | succ k ih =>
      intro s dst n hs hlen hpresent hall
      by_cases hn : 0 < n
      · have huser := hpresent.user hs hn
        have hv : dst < kernelBase := by omega
        rcases hpresent.first hn with ⟨f, hpage⟩
        have hfirst : 4096 < dst % 4096 + min 4096 n ->
            L.page (dst / 4096 + 1) = some (f + 1) := by
          intro hover
          cases hnext : L.page (dst / 4096 + 1) with
          | none => exact absurd hnext (hpresent _ (by omega) (by omega))
          | some g =>
              by_cases hfg : g = f + 1
              · rw [hfg]
              · rcases hall (spike n (4096 - dst % 4096) (s.frame g 0)) (spike_length _ _ _) with
                  ⟨s', hrun, hcopied⟩
                exact absurd hcopied (spike_lost hs hpage hnext hv hfg hover hrun)
        apply FramesFollow.of_tail
        · intro f' _ hpage' hover
          rw [hpage] at hpage'
          cases hpage'
          exact hfirst hover
        · intro hmore
          have hmin : min 4096 n = 4096 := Nat.min_eq_left (Nat.le_of_lt hmore)
          have hzeros : (List.replicate 4096 (0 : UInt8)).length = 4096 := List.length_replicate
          rw [hmin] at hfirst
          rcases copyBytes_copied (List.replicate 4096 0) hs hpage (Nat.le_of_eq hzeros) (by
            rw [hzeros]
            exact hfirst) with ⟨hcopy, hplaced⟩
          apply ih (copiedTo s (kernelAddr f + dst % 4096) (List.replicate 4096 0)) _ _
            (hplaced.sound hs) (by omega)
          · have htail := hpresent.tail (Nat.le_of_lt hmore)
            exact htail
          · intro rest hrest
            have hlenAll : (List.replicate 4096 (0 : UInt8) ++ rest).length = n := by
              rw [List.length_append, hzeros]
              omega
            rcases hall _ hlenAll with ⟨s', hrun, hcopied⟩
            refine ⟨s', ?_, ?_⟩
            · have hwrap : wrap (dst + 4096) = dst + 4096 := by
                rw [kernelBase_eq] at huser
                rw [wrap_eq]
                omega
              rw [vmCopyoutFrom_step k hs hv hpage (by omega), hlenAll, hmin,
                List.take_left' hzeros, List.drop_left' hzeros, hcopy, ok_bind, hwrap] at hrun
              exact hrun
            · have htail := CopiedOut.tail hs (by rw [hlenAll]; exact hpresent) hplaced hcopied
              rw [hzeros] at htail
              exact htail
      · intro j f hj
        omega

/--
A copy into the pages of an address space is right for every source of its length exactly
if each step that runs over the end of its page finds the frame of the next page behind it.
-/
theorem vmCopyout_right_iff (s : Phys) (free : List Nat) (L : Layout) (brk dst n : Nat)
    (hs : Sound s free L) (hpresent : Present L dst n) :
    (forall src, src.length = n ->
      exists s', vmCopyout { pgdir := kernelAddr L.dir, brk := brk } dst src s =
          Except.ok (true, s') ∧ CopiedOut s L dst src s') <->
      FramesFollow L dst n := by
  constructor
  · intro hall
    apply framesFollow_of_copies (n / pgSize + 1) s dst n hs _ hpresent
    · intro src hsrc
      rcases hall src hsrc with ⟨s', hrun, hcopied⟩
      refine ⟨s', ?_, hcopied⟩
      rw [<- hsrc]
      exact hrun
    · have hpg : pgSize = 4096 := rfl
      rw [hpg]
      omega
  · intro hfollow src hsrc
    subst hsrc
    exact vmCopyout_copiedOut hs hpresent hfollow

end Copies

/-!
# Two pages in the wrong order
-/

/-- Three free frames; the second page that is taken from them is in front of the first. -/
def crossedPhys : Phys := freeFrames [1027, 1025, 1026]

theorem crossedSound : Sound crossedPhys [1027, 1025, 1026] bareLayout :=
  bare_sound (by decide) (by decide)

theorem crossed_grow :
    exists s' free' L', vmGrowUserheap { pgdir := kernelAddr 1024, brk := userHeapBase } 8192
        crossedPhys =
        Except.ok ((userHeapBase, { pgdir := kernelAddr 1024, brk := userHeapBase + 8192 }), s') ∧
      L'.dir = 1024 ∧ Sound s' free' L' ∧ L'.page (userHeapBase / 4096) = some 1027 ∧
      L'.page (userHeapBase / 4096 + 1) = some 1026 ∧ s'.frame 1026 0 = 0 := by
  have htop : userHeapBase + 8192 < kernelBase := by decide
  have hrounds : rounds userHeapBase (userHeapBase + 8192) = 2 := by decide
  have hneed : growNeed 2 (userHeapBase / 4096) bareLayout.hasTable bareLayout.hasPage ≤
      [1027, 1025, 1026].length := by decide
  rcases growFrom_enough (n := 3) crossedSound htop hrounds (by decide) hneed with
    ⟨s', free', L', hrun, hserved⟩
  have hfirst : (userHeapBase / 4096, 1027) ∈ plan 2 (userHeapBase / 4096) bareLayout.hasTable
      bareLayout.hasPage [1027, 1025, 1026] := by decide
  have hsecond : (userHeapBase / 4096 + 1, 1026) ∈ plan 2 (userHeapBase / 4096)
      bareLayout.hasTable bareLayout.hasPage [1027, 1025, 1026] := by decide
  have hpage := (hserved.page _ _).mpr (Or.inr hsecond)
  refine ⟨s', free', L', ?_, hserved.grown.dir, hserved.grown.sound,
    (hserved.page _ _).mpr (Or.inr hfirst), hpage, ?_⟩
  · have hdir : bareLayout.dir = 1024 := rfl
    have hbytes : (8192 : Int).toNat = 8192 := rfl
    have hfuel : 8192 / pgSize + 1 = 3 := rfl
    rw [hdir] at hrun
    rw [grow_accepted (by decide) (by decide) (by decide), hbytes, hfuel, hrun, ok_bind, if_pos rfl]
  · rw [hserved.grown.pages _ _ hpage]
    rfl

theorem crossed_present {L : Layout} (hfirst : L.page (userHeapBase / 4096) = some 1027)
    (hsecond : L.page (userHeapBase / 4096 + 1) = some 1026) :
    Present L (userHeapBase + 4095) 2 := by
  intro v hlow hhigh
  have hbase : userHeapBase = 134512640 := rfl
  have hv : v = userHeapBase / 4096 ∨ v = userHeapBase / 4096 + 1 := by
    rw [hbase] at hlow hhigh ⊢
    omega
  rcases hv with hv | hv
  · rw [hv, hfirst]
    exact Option.some_ne_none _
  · rw [hv, hsecond]
    exact Option.some_ne_none _

/-- Two bytes over the end of a page: the second one goes to the frame behind the first. -/
theorem copyout_crosses_frames :
    exists s' free' L', vmGrowUserheap { pgdir := kernelAddr 1024, brk := userHeapBase } 8192
        crossedPhys =
        Except.ok ((userHeapBase, { pgdir := kernelAddr 1024, brk := userHeapBase + 8192 }), s') ∧
      L'.dir = 1024 ∧ Sound s' free' L' ∧ Present L' (userHeapBase + 4095) 2 ∧
      Not (exists s'', vmCopyout { pgdir := kernelAddr 1024, brk := userHeapBase + 8192 }
          (userHeapBase + 4095) [0, 1] s' = Except.ok (true, s'') ∧
        CopiedOut s' L' (userHeapBase + 4095) [0, 1] s'') := by
  rcases crossed_grow with ⟨s', free', L', hrun, hdir, hsound, hfirst, hsecond, hzero⟩
  refine ⟨s', free', L', hrun, hdir, hsound, crossed_present hfirst hsecond, ?_⟩
  intro hex
  rcases hex with ⟨s'', hcopy, hcopied⟩
  have hbase : userHeapBase = 134512640 := rfl
  have hspike : spike 2 (4096 - (userHeapBase + 4095) % 4096) (s'.frame 1026 0) = [0, 1] := by
    rw [hzero]
    decide
  have hdiv : (userHeapBase + 4095) / 4096 = userHeapBase / 4096 := by decide
  have hcopy' : vmCopyoutFrom (kernelAddr L'.dir) 1 (userHeapBase + 4095)
      (spike 2 (4096 - (userHeapBase + 4095) % 4096) (s'.frame 1026 0)) s' =
        Except.ok (true, s'') := by
    rw [hspike, hdir]
    exact hcopy
  apply spike_lost hsound (hdiv ▸ hfirst) (hdiv ▸ hsecond) (by decide) (by decide) (by decide)
    hcopy'
  rw [hspike]
  exact hcopied

theorem vmCopyout_right_iff_crossed :
    exists s' free' L', Sound s' free' L' ∧ Present L' (userHeapBase + 4095) 2 ∧
      ((forall src, src.length = 2 ->
        exists s'', vmCopyout { pgdir := kernelAddr L'.dir, brk := userHeapBase + 8192 }
            (userHeapBase + 4095) src s' = Except.ok (true, s'') ∧
          CopiedOut s' L' (userHeapBase + 4095) src s'') <->
        FramesFollow L' (userHeapBase + 4095) 2) := by
  rcases crossed_grow with ⟨s', free', L', -, -, hsound, hfirst, hsecond, -⟩
  have hpresent := crossed_present hfirst hsecond
  exact ⟨s', free', L', hsound, hpresent,
    vmCopyout_right_iff s' free' L' _ _ 2 hsound hpresent⟩

end Vm
end Kernel
end NicoOS
