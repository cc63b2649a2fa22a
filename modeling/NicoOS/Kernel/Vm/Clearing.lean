import NicoOS.Kernel.Vm.Loader

/-!
# The pages of a program

A page that `load_proghdrs` maps shows what its frame held on the free list, apart from
what the file provides.  The plan of a request says which frame of the list each page
gets.
-/

namespace NicoOS
namespace Kernel
namespace Vm

open Lib

/-!
# Plans
-/

/-- The plan gives frames to pages that are not there. -/
theorem plan_fresh {k v w f : Nat} {tables pages : Nat -> Bool} {free : List Nat}
    (h : (w, f) ∈ plan k v tables pages free) : pages w = false := by
  induction k generalizing v tables pages free with
  | zero => cases h
  | succ k ih =>
      cases hv : pages v with
      | true =>
          rw [plan_skip hv] at h
          exact ih h
      | false =>
          cases free with
          | nil =>
              have hnil : plan (k + 1) v tables pages [] = [] := by
                show (if pages v = true then _ else _) = _
                rw [if_neg (Bool.eq_false_iff.mp hv)]
              rw [hnil] at h
              cases h
          | cons g rest =>
              rw [plan_take hv] at h
              rcases List.mem_cons.mp h with hsame | hrest
              · cases hsame
                exact hv
              · have hmarked := ih hrest
                unfold mark at hmarked
                split at hmarked
                · cases hmarked
                · exact hmarked

theorem plan_range {k v w f : Nat} {tables pages : Nat -> Bool} {free : List Nat}
    (h : (w, f) ∈ plan k v tables pages free) : v ≤ w ∧ w < v + k := by
  induction k generalizing v tables pages free with
  | zero => cases h
  | succ k ih =>
      cases hv : pages v with
      | true =>
          rw [plan_skip hv] at h
          have hrest := ih h
          lia
      | false =>
          cases free with
          | nil =>
              have hnil : plan (k + 1) v tables pages [] = [] := by
                show (if pages v = true then _ else _) = _
                rw [if_neg (Bool.eq_false_iff.mp hv)]
              rw [hnil] at h
              cases h
          | cons g rest =>
              rw [plan_take hv] at h
              rcases List.mem_cons.mp h with hsame | hrest
              · cases hsame
                lia
              · have hrange := ih hrest
                lia

theorem plan_unmapped {k v w f : Nat} {tables : Nat -> Bool} {free : List Nat} {L : Layout}
    (h : (w, f) ∈ plan k v tables L.hasPage free) : L.page w = none := by
  have hfalse := plan_fresh h
  cases hp : L.page w with
  | none => rfl
  | some g =>
      rw [Layout.hasPage_of_some hp] at hfalse
      cases hfalse

/-!
# Segments
-/

/-- The plan for several ranges, given by first page and number of pages. -/
def planAll : List (Nat × Nat) -> (Nat -> Bool) -> (Nat -> Bool) -> List Nat -> List (Nat × Nat)
  | [], _, _, _ => []
  | (v, k) :: rest, tables, pages, free =>
      let left := planRest k v tables pages free
      plan k v tables pages free ++ planAll rest left.1 left.2.1 left.2.2

theorem planAll_cons (v k : Nat) (rest : List (Nat × Nat)) (tables pages : Nat -> Bool)
    (free : List Nat) :
    planAll ((v, k) :: rest) tables pages free =
      plan k v tables pages free ++
        planAll rest (planRest k v tables pages free).1 (planRest k v tables pages free).2.1
          (planRest k v tables pages free).2.2 := rfl

/-- The tables, the pages and the free frames behind several ranges. -/
def planAllRest : List (Nat × Nat) -> (Nat -> Bool) -> (Nat -> Bool) -> List Nat ->
    (Nat -> Bool) × (Nat -> Bool) × List Nat
  | [], tables, pages, free => (tables, pages, free)
  | (v, k) :: rest, tables, pages, free =>
      let left := planRest k v tables pages free
      planAllRest rest left.1 left.2.1 left.2.2

theorem planAllRest_append (first rest : List (Nat × Nat)) (tables pages : Nat -> Bool)
    (free : List Nat) :
    planAllRest (first ++ rest) tables pages free =
      planAllRest rest (planAllRest first tables pages free).1
        (planAllRest first tables pages free).2.1 (planAllRest first tables pages free).2.2 := by
  induction first generalizing tables pages free with
  | nil => rfl
  | cons range first ih => exact ih _ _ _

theorem planAll_append (first rest : List (Nat × Nat)) (tables pages : Nat -> Bool)
    (free : List Nat) :
    planAll (first ++ rest) tables pages free =
      planAll first tables pages free ++
        planAll rest (planAllRest first tables pages free).1
          (planAllRest first tables pages free).2.1 (planAllRest first tables pages free).2.2 := by
  induction first generalizing tables pages free with
  | nil => rfl
  | cons range first ih =>
      rcases range with ⟨v, k⟩
      rw [List.cons_append, planAll_cons, planAll_cons, ih, List.append_assoc]
      rfl

/-- An address space whose new pages have the frames of the plan. -/
structure Planned (asked : List (Nat × Nat)) (free : List Nat) (L : Layout)
    (free' : List Nat) (L' : Layout) : Prop where
  page : forall w f, L'.page w = some f <->
    L.page w = some f ∨ (w, f) ∈ planAll asked L.hasTable L.hasPage free
  left : (L'.hasTable, L'.hasPage, free') = planAllRest asked L.hasTable L.hasPage free

section Plans

variable {free free' free2 : List Nat} {L L' L2 : Layout} {asked more : List (Nat × Nat)}

theorem Planned.nothing (free : List Nat) (L : Layout) : Planned [] free L free L where
  page w f := by
    constructor
    · exact Or.inl
    · intro hor
      rcases hor with hold | hnew
      · exact hold
      · cases hnew
  left := rfl

theorem Planned.append (h : Planned asked free L free' L') (h2 : Planned more free' L' free2 L2) :
    Planned (asked ++ more) free L free2 L2 where
  page w f := by
    rw [h2.page, h.page, planAll_append, <- h.left, List.mem_append]
    exact or_assoc
  left := by
    rw [h2.left, planAllRest_append, <- h.left]

theorem Served.planned {s s' : Phys} {k v : Nat} (h : Served s free L k v s' free' L') :
    Planned [(v, k)] free L free' L' where
  page w f := by
    rw [h.page, planAll_cons]
    exact Iff.of_eq (congrArg _ (congrArg _ (List.append_nil _).symm))
  left := h.left

theorem lookup_plan {plan : List (Nat × Nat)} {page : Nat -> Option Nat}
    (h : forall v f, page v = some f <-> (v, f) ∈ plan) (v : Nat) : plan.lookup v = page v := by
  cases hlook : plan.lookup v with
  | none =>
      cases hpage : page v with
      | none => rfl
      | some f =>
          have hdiffers := List.lookup_eq_none_iff.mp hlook (v, f) ((h v f).mp hpage)
          simp at hdiffers
  | some f =>
      rcases List.lookup_eq_some_iff.mp hlook with ⟨before, after, hplan, -⟩
      have hmem : (v, f) ∈ plan := by
        rw [hplan]
        simp
      exact ((h v f).mpr hmem).symm

end Plans

def ranges : List (Option Proghdr) -> List (Nat × Nat)
  | [] => []
  | none :: rest => ranges rest
  | some ph :: rest =>
      if ph.memsz = 0 then ranges rest else (ph.vaddr / 4096, ph.pages) :: ranges rest

def Proghdr.Covers (ph : Proghdr) (v : Nat) : Prop :=
  ph.vaddr / 4096 ≤ v ∧ v < ph.vaddr / 4096 + ph.pages

/-- The address space behind `load_proghdrs`. -/
structure Image (s : Phys) (free : List Nat) (L : Layout) (headers : List (Option Proghdr))
    (s' : Phys) (free' : List Nat) (L' : Layout) : Prop where
  sound : Sound s' free' L'
  dir : L'.dir = L.dir
  taken : forall f, f ∈ free' -> f ∈ free
  idle : forall f, f ∈ free' -> s'.frame f = s.frame f
  page : forall w f, L'.page w = some f <->
    L.page w = some f ∨ (w, f) ∈ planAll (ranges headers) L.hasTable L.hasPage free
  fresh : forall v f, L'.page v = some f -> L.page v = some f ∨ f ∈ free
  old : forall v f, L.page v = some f -> s'.frame f = s.frame f
  segments : forall ph, some ph ∈ headers -> ph.memsz ≠ 0 ->
    verifyProghdr ph = true ∧ forall v, ph.Covers v ->
      L.page v = none ∧ exists f, L'.page v = some f ∧
        forall x, Not (FromFile ph.vaddr ph.filesz v x) -> s'.frame f x = s.frame f x

section Segments

variable {s s' : Phys} {free : List Nat} {L : Layout}

theorem Image.nothing (h : Sound s free L) : Image s free L [] s free L where
  sound := h
  dir := rfl
  taken _ hf := hf
  idle _ _ := rfl
  page w f := by
    constructor
    · exact Or.inl
    · intro hor
      rcases hor with hold | hnew
      · exact hold
      · cases hnew
  fresh _ _ hv := Or.inl hv
  old _ _ _ := rfl
  segments ph hph := by cases hph

theorem Image.skip {headers : List (Option Proghdr)} {free' : List Nat} {L' : Layout}
    {ph : Proghdr} (hzero : ph.memsz = 0) (h : Image s free L headers s' free' L') :
    Image s free L (some ph :: headers) s' free' L' where
  sound := h.sound
  dir := h.dir
  taken := h.taken
  idle := h.idle
  page w f := by
    rw [show ranges (some ph :: headers) = ranges headers from if_pos hzero]
    exact h.page w f
  fresh := h.fresh
  old := h.old
  segments qh hq hmem := by
    rcases List.mem_cons.mp hq with hq | hq
    · cases hq
      exact absurd hzero hmem
    · exact h.segments qh hq hmem

theorem verify_parts {ph : Proghdr} (h : verifyProghdr ph = true) :
    ph.filesz ≤ ph.memsz ∧ ph.vaddr % 4096 = 0 ∧ wrap (ph.vaddr + ph.memsz) ≤ userHeapBase ∧
      ph.vaddr ≤ wrap (ph.vaddr + ph.memsz) := by
  unfold verifyProghdr at h
  split at h
  · cases h
  · rename_i hrange
    split at h
    · cases h
    · rename_i halign
      have hbounds := of_decide_eq_true h
      have hpgSize : pgSize = 4096 := rfl
      rw [hpgSize] at halign
      refine ⟨?_, ?_, hbounds.right, ?_⟩ <;> lia

/-- A verified segment lies below the heap, and its part of the file in its pages. -/
theorem verify_bounds {ph : Proghdr} (hvaddr : ph.vaddr < 0x100000000)
    (hmemsz : ph.memsz < 0x100000000) (h : verifyProghdr ph = true) :
    ph.vaddr + ph.memsz ≤ userHeapBase ∧ ph.pages = (ph.memsz + 4095) / 4096 := by
  rcases verify_parts h with ⟨-, -, htop, hlow⟩
  have htopEq : userHeapBase = 134512640 := rfl
  have hpages : ph.pages = (ph.memsz + 4095) % 4294967296 / 4096 := by
    unfold Proghdr.pages
    rw [wrap_eq]
    rfl
  rw [wrap_eq] at htop hlow
  omega

def Proghdr.Word (ph : Proghdr) : Prop := ph.vaddr < 0x100000000 ∧ ph.memsz < 0x100000000

/-- A byte that no write is meant for stays in its page. -/
theorem Wrote.byte_kept {s2 : Phys} {P : Nat -> Nat -> Prop} (h : Wrote s s2 L P)
    (hsound : Sound s free L) {v f x : Nat} (hv : L.page v = some f) (hx : Not (P v x)) :
    s2.frame f x = s.frame f x := by
  rcases h.bytes f x with hsame | ⟨w, hw, hwritten⟩
  · exact hsame
  · have hslot := hsound.own (Slot.page w) (Slot.page v) f hw hv
    cases hslot
    exact absurd hwritten hx

section Cons

variable {headers : List (Option Proghdr)} {ph : Proghdr} {s1 s2 : Phys}
  {free1 free' : List Nat} {L1 L' : Layout}

theorem FromFile.covers {v x : Nat} (hverify : verifyProghdr ph = true) (hword : ph.Word)
    (h : FromFile ph.vaddr ph.filesz v x) : ph.Covers v := by
  rcases verify_parts hverify with ⟨hfilesz, halign, -, -⟩
  rcases verify_bounds hword.left hword.right hverify with ⟨-, hpages⟩
  unfold FromFile at h
  unfold Proghdr.Covers
  omega

/-- The first segment keeps the bytes behind its part of the file. -/
theorem Image.segment_first (hgrown : Extends s free L s1 free1 L1)
    (hpresent : forall v, ph.Covers v -> L1.page v ≠ none)
    (hwrote : Wrote s1 s2 L1 (FromFile ph.vaddr ph.filesz))
    (h : Image s2 free1 L1 headers s' free' L') {v : Nat} (hv : ph.Covers v) :
    exists f, L'.page v = some f ∧
      forall x, Not (FromFile ph.vaddr ph.filesz v x) -> s'.frame f x = s.frame f x := by
  cases hv1 : L1.page v with
  | none => exact absurd hv1 (hpresent v hv)
  | some f =>
      refine ⟨f, (h.page v f).mpr (Or.inl hv1), ?_⟩
      intro x hx
      rw [h.old v f hv1, hwrote.byte_kept hgrown.sound hv1 hx, hgrown.pages v f hv1]

/-- A later segment lies on pages and frames that the first one has left. -/
theorem Image.segment_later (hgrown : Extends s free L s1 free1 L1)
    (hidle : forall f, f ∈ free1 -> s2.frame f = s.frame f)
    (h : Image s2 free1 L1 headers s' free' L') {qh : Proghdr} (hq : some qh ∈ headers)
    (hmem : qh.memsz ≠ 0) {v : Nat} (hv : qh.Covers v) :
    L.page v = none ∧ exists f, L'.page v = some f ∧
      forall x, Not (FromFile qh.vaddr qh.filesz v x) -> s'.frame f x = s.frame f x := by
  rcases (h.segments qh hq hmem).right v hv with ⟨hnone, f, hv', hbytes⟩
  constructor
  · cases hmapped : L.page v with
    | none => rfl
    | some g =>
        have hkept : L1.page v = some g := hgrown.keeps (Slot.page v) g hmapped
        rw [hnone] at hkept
        cases hkept
  · refine ⟨f, hv', ?_⟩
    intro x hx
    rw [hbytes x hx]
    rcases h.fresh v f hv' with hv1 | hfree
    · rw [hnone] at hv1
      cases hv1
    · rw [hidle f hfree]

theorem Image.cons (hs : Sound s free L) (hmem : ph.memsz ≠ 0)
    (hword : ph.Word) (hverify : verifyProghdr ph = true)
    (hserved : Served s free L ph.pages (ph.vaddr / 4096) s1 free1 L1)
    (hnone : forall w, ph.Covers w -> L.page w = none)
    (hwrote : Wrote s1 s2 L1 (FromFile ph.vaddr ph.filesz))
    (h : Image s2 free1 L1 headers s' free' L') :
    Image s free L (some ph :: headers) s' free' L' := by
  have hgrown := hserved.grown
  have hidle : forall f, f ∈ free1 -> s2.frame f = s.frame f := by
    intro f hf
    rw [hwrote.frame (fun v hv => hgrown.sound.used (Slot.page v) f hv hf)]
    exact hgrown.idle f hf
  have hranges : ranges (some ph :: headers) = (ph.vaddr / 4096, ph.pages) :: ranges headers :=
    if_neg hmem
  have hplan : planAll (ranges (some ph :: headers)) L.hasTable L.hasPage free =
      plan ph.pages (ph.vaddr / 4096) L.hasTable L.hasPage free ++
        planAll (ranges headers) L1.hasTable L1.hasPage free1 := by
    rw [hranges, planAll_cons, <- hserved.left]
  constructor
  · exact h.sound
  · exact h.dir.trans hgrown.dir
  · exact fun f hf => hgrown.taken f (h.taken f hf)
  · exact fun f hf => (h.idle f hf).trans (hidle f (h.taken f hf))
  · intro w f
    rw [hplan, h.page, hserved.page, List.mem_append]
    exact or_assoc
  · intro v f hv
    rcases h.fresh v f hv with hv1 | hfree
    · exact hgrown.fresh (Slot.page v) f hv1
    · exact Or.inr (hgrown.taken f hfree)
  · intro v f hv
    have hv1 : L1.page v = some f := hgrown.keeps (Slot.page v) f hv
    rw [h.old v f hv1, <- hgrown.pages v f hv1]
    funext x
    apply hwrote.byte_kept hgrown.sound hv1
    intro hfrom
    rw [hnone v (FromFile.covers hverify hword hfrom)] at hv
    cases hv
  · intro qh hq hqmem
    rcases List.mem_cons.mp hq with hq | hq
    · cases hq
      refine ⟨hverify, fun v hv => ⟨hnone v hv, ?_⟩⟩
      exact h.segment_first hgrown (fun w hw => hserved.present w hw.left hw.right) hwrote hv
    · exact ⟨(h.segments qh hq hqmem).left, fun v hv => h.segment_later hgrown hidle hq hqmem hv⟩

end Cons

theorem vmValloc_served {vm : AddressSpace} {vaddr pgcnt : Nat} {b : Bool} (h : Sound s free L)
    (hvm : vm.pgdir = kernelAddr L.dir) (hrange : vaddr + 4096 * pgcnt ≤ kernelBase)
    (hrun : vmValloc vm vaddr pgcnt s = Except.ok (b, s')) (hdry : Not (Dry s')) :
    exists free' L', Served s free L pgcnt (vaddr / 4096) s' free' L' ∧
      forall w, vaddr / 4096 ≤ w -> w < vaddr / 4096 + pgcnt -> L.page w = none := by
  unfold vmValloc at hrun
  split at hrun
  · unfold pgdirValloc at hrun
    rw [hvm] at hrun
    by_cases henough : vallocNeed pgcnt (vaddr / 4096) L.hasTable L.hasPage ≤ free.length
    · rcases vallocFrom_enough 0 h hrange henough with
        ⟨s1, free1, L1, hok, hserved, hnone⟩ | ⟨-, s1, hstop, -⟩
      · rw [hok] at hrun
        cases hrun
        exact ⟨free1, L1, hserved, hnone⟩
      · rw [hstop] at hrun
        cases hrun
    · have hshort := vallocFrom_short 0 h hrange (Nat.lt_of_not_le henough)
      exact absurd (hshort.of_ok hrun).right hdry
  · cases hrun

theorem not_dry_of_fresh {s : Phys} (h : s.exhausted = false) : Not (Dry s) := by
  intro hdry
  have hex := hdry.exhausted
  rw [h] at hex
  cases hex

/-- One header of a load that ends well and has found its frames. -/
theorem loadProghdrs_segment {vm : AddressSpace} {file : List UInt8} {ph : Proghdr}
    {rest : List (Option Proghdr)} (h : Sound s free L) (hvm : vm.pgdir = kernelAddr L.dir)
    (hword : ph.Word) (hmem : ph.memsz ≠ 0)
    (hrun : loadProghdrs vm file (some ph :: rest) s = Except.ok (true, s'))
    (hdry : Not (Dry s')) :
    exists s1 s2 free1 L1, verifyProghdr ph = true ∧
      Served s free L ph.pages (ph.vaddr / 4096) s1 free1 L1 ∧
      (forall w, ph.Covers w -> L.page w = none) ∧
      vmLoadFrom (kernelAddr L1.dir) file ph.filesz (ph.filesz / pgSize + 1) 0 ph.offset
        (ph.vaddr + 0) s1 = Except.ok (true, s2) ∧
      Wrote s1 s2 L1 (FromFile ph.vaddr ph.filesz) ∧
      loadProghdrs vm file rest s2 = Except.ok (true, s') := by
  unfold loadProghdrs at hrun
  rw [if_neg hmem] at hrun
  split at hrun
  · cases hrun
  · rename_i hverify
    have hverified : verifyProghdr ph = true := by
      cases hv : verifyProghdr ph with
      | true => rfl
      | false => exact absurd hv hverify
    rcases verify_bounds hword.left hword.right hverified with ⟨htop, hpages⟩
    rcases verify_parts hverified with ⟨hfilesz, halign, -, -⟩
    have htopEq : userHeapBase = 134512640 := rfl
    rcases bind_ok hrun with ⟨⟨mapped, s1⟩, hvalloc, hrest⟩
    dsimp only at hrest
    split at hrest
    · rcases bind_ok hrest with ⟨⟨loaded, s2⟩, hload, hmore⟩
      dsimp only at hmore
      split at hmore
      · rename_i hloaded
        have hdry2 : Not (Dry s2) :=
          fun hd => hdry ((hd.loadProghdrs vm file rest).of_ok hmore)
        have hdry1 : Not (Dry s1) := by
          intro hd
          have hstays : StaysDry (vmLoad vm ph.vaddr file ph.offset ph.filesz s1) :=
            hd.vmLoadFrom _ _ _ _ _ _ _
          exact hdry2 (hstays.of_ok hload)
        have hrange : ph.vaddr + 4096 * ph.pages ≤ kernelBase := by
          rw [kernelBase_eq]
          omega
        rcases vmValloc_served h hvm hrange hvalloc hdry1 with ⟨free1, L1, hserved, hnone⟩
        have hload' : vmLoadFrom (kernelAddr L1.dir) file ph.filesz
            (ph.filesz / pgSize + 1) 0 ph.offset (ph.vaddr + 0) s1 =
              Except.ok (true, s2) := by
          rw [hserved.grown.dir, <- hvm, <- hloaded]
          exact hload
        have hwrote := vmLoadFrom_wrote hserved.grown.sound halign (by lia) (Or.inl rfl) hload'
        exact ⟨s1, s2, free1, L1, hverified, hserved, fun w hw => hnone w hw.left hw.right,
          hload', hwrote, hmore⟩
      · cases hmore
    · cases hrest

theorem loadProghdrs_skip {vm : AddressSpace} {file : List UInt8} {ph : Proghdr}
    (hzero : ph.memsz = 0) (rest : List (Option Proghdr)) (s : Phys) :
    loadProghdrs vm file (some ph :: rest) s = loadProghdrs vm file rest s := by
  conv => lhs; unfold loadProghdrs
  rw [if_pos hzero]

theorem loadProghdrs_image {vm : AddressSpace} {file : List UInt8}
    {headers : List (Option Proghdr)} (h : Sound s free L) (hvm : vm.pgdir = kernelAddr L.dir)
    (hword : forall ph, some ph ∈ headers -> ph.Word)
    (hrun : loadProghdrs vm file headers s = Except.ok (true, s')) (hdry : Not (Dry s')) :
    exists free' L', Image s free L headers s' free' L' := by
  induction headers generalizing s free L with
  | nil =>
      cases hrun
      exact ⟨free, L, Image.nothing h⟩
  | cons header rest ih =>
      have hwordRest : forall ph, some ph ∈ rest -> ph.Word :=
        fun ph hph => hword ph (List.mem_cons_of_mem header hph)
      cases header with
      | none => cases hrun
      | some ph =>
          by_cases hzero : ph.memsz = 0
          · rw [loadProghdrs_skip hzero] at hrun
            rcases ih h hvm hwordRest hrun with ⟨free', L', himage⟩
            exact ⟨free', L', himage.skip hzero⟩
          · have hphWord := hword ph List.mem_cons_self
            rcases loadProghdrs_segment h hvm hphWord hzero hrun hdry with
              ⟨s1, s2, free1, L1, hverified, hserved, hnone, -, hwrote, hmore⟩
            have hvm1 : vm.pgdir = kernelAddr L1.dir := by
              rw [hserved.grown.dir]
              exact hvm
            rcases ih (hwrote.sound hserved.grown.sound) hvm1 hwordRest hmore with
              ⟨free', L', himage⟩
            exact ⟨free', L', himage.cons h hzero hphWord hverified hserved hnone hwrote⟩

/-- The stack is set up above the pages that are there. -/
theorem setupUstack_keeps {vm : AddressSpace} {b : Bool} (h : Sound s free L)
    (hvm : vm.pgdir = kernelAddr L.dir) (hrun : setupUstack vm s = Except.ok (b, s'))
    (hdry : Not (Dry s')) :
    exists free' L', Sound s' free' L' ∧ L'.dir = L.dir ∧ forall v f, L.page v = some f ->
      L'.page v = some f ∧ (v < bottomUserStack / 4096 -> s'.frame f = s.frame f) := by
  have hbottom : bottomUserStack = 2147467264 := rfl
  unfold setupUstack at hrun
  rcases bind_ok hrun with ⟨⟨mapped, s1⟩, hvalloc, hrest⟩
  have hrange : bottomUserStack + 4096 * npagesUserStack ≤ kernelBase := by
    rw [kernelBase_eq, hbottom]
    unfold npagesUserStack
    omega
  dsimp only at hrest
  split at hrest
  · have hdry1 : Not (Dry s1) :=
      fun hd => hdry ((hd.setrangeFrom _ _ _ _ _ _).of_ok hrest)
    rcases vmValloc_served h hvm hrange hvalloc hdry1 with ⟨free1, L1, hserved, -⟩
    have hgrown := hserved.grown
    have hset : setrangeFrom (kernelAddr L1.dir) 0 (npagesUserStack * pgSize)
        (npagesUserStack + 1) 0 (bottomUserStack + 0) s1 = Except.ok (b, s') := by
      rw [hgrown.dir, <- hvm]
      exact hrest
    have htop : bottomUserStack + npagesUserStack * pgSize ≤ kernelBase := by
      rw [kernelBase_eq, hbottom]
      unfold npagesUserStack pgSize
      omega
    have hwrote := setrangeFrom_wrote hgrown.sound htop hset
    refine ⟨free1, L1, hwrote.sound hgrown.sound, hgrown.dir, ?_⟩
    intro v f hv
    have hv1 : L1.page v = some f := hgrown.keeps (Slot.page v) f hv
    refine ⟨hv1, ?_⟩
    intro hlow
    funext x
    rcases hwrote.bytes f x with hsame | ⟨w, hw, hhigh⟩
    · rw [hsame, hgrown.pages v f hv1]
    · have hslot := hgrown.sound.own (Slot.page w) (Slot.page v) f hw hv1
      cases hslot
      lia
  · cases hrest
    rcases vmValloc_served h hvm hrange hvalloc hdry with ⟨free1, L1, hserved, -⟩
    have hgrown := hserved.grown
    refine ⟨free1, L1, hgrown.sound, hgrown.dir, ?_⟩
    intro v f hv
    have hv1 : L1.page v = some f := hgrown.keeps (Slot.page v) f hv
    exact ⟨hv1, fun _ => hgrown.pages v f hv1⟩

theorem userByte_page {d v f x : Nat} (h : Sound s free L) (hd : L.dir = d)
    (hv : L.page v = some f) (hx : x < 4096) :
    userByte s d (4096 * v + x) = some (s.frame f x) := by
  have hdiv : (4096 * v + x) / 4096 = v := by omega
  have hmod : (4096 * v + x) % 4096 = x := by omega
  unfold userByte
  rw [<- hd, h.layout, hdiv, hmod, hv]
  rfl

end Segments

end Vm
end Kernel
end NicoOS
