import NicoOS.Kernel.Vm.ExecSafety

/-!
# The bytes of the file

What `proc_execv` leaves at the virtual addresses of the program headers.  `vm_load` takes
a short count of `inode_read` for a full one.
-/

namespace NicoOS
namespace Kernel
namespace Vm

open Lib

/-!
# Parts of the file
-/

/-- The bytes that the header asks for are in the file. -/
def Proghdr.Inside (file : List UInt8) (ph : Proghdr) : Prop :=
  ph.filesz = 0 ∨ ph.offset + ph.filesz ≤ file.length

/-- The file ends in the last page of the header's part, or where that page begins. -/
def Proghdr.Clipped (file : List UInt8) (ph : Proghdr) : Prop :=
  0 < ph.filesz ∧ file.length < ph.offset + ph.filesz ∧ ph.offset + ph.filesz < 0x100000000 ∧
    ph.offset + 4096 * ((ph.filesz - 1) / 4096) ≤ file.length

/-- `inode_read` answers -1 behind the end of the file and where the addition wraps around. -/
theorem inodeRead_isSome (file : List UInt8) {offset n : Nat} (hoffset : offset < 0x100000000)
    (hn : n ≤ 4096) : (inodeRead file offset n).isSome = true <->
      offset ≤ file.length ∧ offset + n < 0x100000000 := by
  unfold inodeRead
  rw [wrap_eq]
  split
  · rename_i hrefused
    constructor
    · intro h
      cases h
    · intro h
      omega
  · rename_i hgood
    constructor
    · intro _
      omega
    · exact fun _ => rfl

theorem inodeRead_some {file bytes : List UInt8} {offset n : Nat}
    (h : inodeRead file offset n = some bytes) : bytes = (file.drop offset).take n := by
  unfold inodeRead at h
  split at h
  · cases h
  · exact (Option.some.inj h).symm

theorem inodeRead_inside {file : List UInt8} {offset n : Nat} (hn : n ≤ 4096)
    (hfile : file.length < 0x100000000) (hinside : offset + n ≤ file.length) :
    inodeRead file offset n = some ((file.drop offset).take n) := by
  have hsome : (inodeRead file offset n).isSome = true :=
    (inodeRead_isSome file (by omega) hn).mpr ⟨by omega, by omega⟩
  rcases Option.isSome_iff_exists.mp hsome with ⟨bytes, hbytes⟩
  rw [hbytes, inodeRead_some hbytes]

/-- `vm_load` goes through exactly if its last page begins in the file or at its end. -/
theorem loads_iff (file : List UInt8) {sz k done off : Nat} (hoff : off < 0x100000000)
    (hdone : done ≤ sz) (hk : sz - done ≤ 4096 * k) :
    loads file sz k done off = true <-> sz = done ∨
      (off + (sz - done) < 0x100000000 ∧ off + 4096 * ((sz - done - 1) / 4096) ≤ file.length) := by
  have hpgSize : pgSize = 4096 := rfl
  induction k generalizing done off with
  | zero => exact ⟨fun _ => Or.inl (by omega), fun _ => rfl⟩
  | succ k ih =>
      unfold loads
      by_cases hlt : done < sz
      · rw [if_pos hlt]
        dsimp only
        generalize hper : (if pgSize > sz - done then sz - done else pgSize) = perSz
        have hperEq : perSz = min 4096 (sz - done) := by
          rw [hpgSize] at hper
          split at hper <;> omega
        rw [Bool.and_eq_true, inodeRead_isSome file hoff (by omega)]
        by_cases hsum : off + perSz < 0x100000000
        · have hwrap : wrap (off + perSz) = off + perSz := by
            rw [wrap_eq]
            omega
          have hrest : loads file sz k (done + perSz) (off + perSz) = true <->
              sz = done + perSz ∨ (off + perSz + (sz - (done + perSz)) < 0x100000000 ∧
                off + perSz + 4096 * ((sz - (done + perSz) - 1) / 4096) ≤ file.length) :=
            ih hsum (by omega) (by omega)
          rw [hwrap, hrest]
          omega
        · constructor
          · exact fun h => absurd h.left.right hsum
          · intro h
            omega
      · rw [if_neg hlt]
        exact ⟨fun _ => Or.inl (by omega), fun _ => rfl⟩

theorem Proghdr.loads_iff (file : List UInt8) {ph : Proghdr} (hoffset : ph.offset < 0x100000000) :
    ph.loads file = true <-> ph.filesz = 0 ∨ (ph.offset + ph.filesz < 0x100000000 ∧
      ph.offset + 4096 * ((ph.filesz - 1) / 4096) ≤ file.length) := by
  have hpgSize : pgSize = 4096 := rfl
  unfold Proghdr.loads
  rw [Vm.loads_iff file hoffset (Nat.zero_le _) (by rw [hpgSize]; omega), Nat.sub_zero]

/-- A header that goes through is inside the file or clipped. -/
theorem Proghdr.inside_of_loads {file : List UInt8} {ph : Proghdr}
    (hoffset : ph.offset < 0x100000000) (hloads : ph.loads file = true)
    (hclipped : Not (ph.Clipped file)) : ph.Inside file := by
  unfold Proghdr.Clipped at hclipped
  unfold Proghdr.Inside
  rcases (Proghdr.loads_iff file hoffset).mp hloads with hzero | hrange
  · exact Or.inl hzero
  · omega

theorem Proghdr.Clipped.not_inside {file : List UInt8} {ph : Proghdr} (h : ph.Clipped file) :
    Not (ph.Inside file) := by
  unfold Proghdr.Clipped at h
  unfold Proghdr.Inside
  omega

theorem readProghdr_offset {file : List UInt8} {off : Nat} {ph : Proghdr}
    (h : readProghdr file off = some ph) : ph.offset < 0x100000000 := by
  unfold readProghdr at h
  rcases Option.map_eq_some_iff.mp h with ⟨bytes, -, hph⟩
  cases hph
  exact wordAt_lt bytes 4

theorem readProghdrs_offset {file : List UInt8} {k off : Nat} {ph : Proghdr}
    (h : some ph ∈ readProghdrs file k off) : ph.offset < 0x100000000 := by
  induction k generalizing off with
  | zero => cases h
  | succ k ih =>
      rcases List.mem_cons.mp h with hhead | hrest
      · exact readProghdr_offset hhead.symm
      · exact ih hrest

/-!
# `vm_load`
-/

section Loading

variable {s s' : Phys} {free : List Nat} {L : Layout} {file : List UInt8}

/-- The first `n` bytes from `base` on are those of the file from `off` on. -/
def Holds (s : Phys) (L : Layout) (file : List UInt8) (base off n : Nat) : Prop :=
  forall i, i < n -> exists f, L.page ((base + i) / 4096) = some f ∧
    s.frame f ((base + i) % 4096) = file.getD (off + i) 0

theorem getD_take_drop (off : Nat) {n x : Nat} (hx : x < n) :
    ((file.drop off).take n).getD x 0 = file.getD (off + x) 0 := by
  rw [List.getD_eq_getElem?_getD, List.getD_eq_getElem?_getD, List.getElem?_take_of_lt hx,
    List.getElem?_drop]

theorem Holds.page {base off done n f : Nat} (hs : Sound s free L)
    (h : Holds s L file base off done)
    (halign : (base + done) % 4096 = 0) (hpage : L.page ((base + done) / 4096) = some f)
    (hn : n ≤ 4096) (hinside : off + done + n ≤ file.length) :
    Holds (s.setFrame f (writeBytes (s.frame f) ((file.drop (off + done)).take n))) L file base off
      (done + n) := by
  have hlen : ((file.drop (off + done)).take n).length = n := by
    rw [List.length_take, List.length_drop]
    omega
  intro i hi
  by_cases hold : i < done
  · rcases h i hold with ⟨g, hg, hbyte⟩
    refine ⟨g, hg, ?_⟩
    have hne : g ≠ f := by
      intro hsame
      have hslot := hs.own (Slot.page _) (Slot.page _) f (hsame ▸ hg) hpage
      have hdiv := Slot.page.inj hslot
      omega
    rw [setFrame_of_ne _ hne]
    exact hbyte
  · have hdiv : (base + i) / 4096 = (base + done) / 4096 := by omega
    have hmod : (base + i) % 4096 = i - done := by omega
    have hx : i - done < n := by omega
    refine ⟨f, by rw [hdiv]; exact hpage, ?_⟩
    rw [setFrame_self, hmod]
    unfold writeBytes
    rw [hlen, if_pos hx, getD_take_drop _ hx]
    congr 1
    omega

theorem vmLoadFrom_holds {base off sz k done : Nat} {b : Bool} (h : Sound s free L)
    (hbase : base % 4096 = 0) (htop : base + sz ≤ userHeapBase)
    (hdone : done % 4096 = 0 ∨ sz ≤ done) (hle : done ≤ sz) (hk : sz - done ≤ 4096 * k)
    (hinside : off + sz ≤ file.length) (hfile : file.length < 0x100000000)
    (hpresent : forall v, base / 4096 ≤ v -> 4096 * v < base + sz -> L.page v ≠ none)
    (hholds : Holds s L file base off done)
    (hrun : vmLoadFrom (kernelAddr L.dir) file sz k done (off + done) (base + done) s =
      Except.ok (b, s')) : Holds s' L file base off sz := by
  have htopEq : userHeapBase = 134512640 := rfl
  have hpgSize : pgSize = 4096 := rfl
  induction k generalizing s done with
  | zero =>
      cases hrun
      have hend : done = sz := by omega
      rw [hend] at hholds
      exact hholds
  | succ k ih =>
      unfold vmLoadFrom at hrun
      by_cases hlt : done < sz
      · rw [if_pos hlt] at hrun
        dsimp only at hrun
        have hdone0 : done % 4096 = 0 := by
          rcases hdone with hzero | hge
          · exact hzero
          · lia
        have hv : base + done < kernelBase := by
          rw [kernelBase_eq]
          omega
        generalize hper : (if pgSize > sz - done then sz - done else pgSize) = perSz at hrun
        have hperLe : perSz = min 4096 (sz - done) := by
          rw [hpgSize] at hper
          split at hper <;> omega
        have hread := inodeRead_inside (n := perSz) (by omega) hfile
          (show off + done + perSz ≤ file.length by omega)
        cases hpage : L.page ((base + done) / 4096) with
        | none => exact absurd hpage (hpresent _ (by omega) (by omega))
        | some f =>
            rw [pageFramePtr_some h hv hpage, ok_bind, if_neg (kernelAddr_ne_zero f), hread] at hrun
            dsimp only at hrun
            rw [pageAt_kernelAddr (h.page_inPool hpage), ok_bind] at hrun
            have hwrite : Wrote s (s.setFrame f (writeBytes (s.frame f)
                ((file.drop (off + done)).take perSz))) L (fun _ _ => True) :=
              wrote_page hpage (fun _ => Or.inr trivial)
            have hnext : wrap (base + done + perSz) = base + (done + perSz) := by
              rw [wrap_eq]
              omega
            have hoff : wrap (off + done + perSz) = off + (done + perSz) := by
              rw [wrap_eq]
              omega
            rw [hnext, hoff] at hrun
            exact ih (hwrite.sound h) (by omega) (by omega) (by omega)
              (hholds.page h (by omega) hpage (by omega) (by omega)) hrun
      · rw [if_neg hlt] at hrun
        cases hrun
        have hend : done = sz := by omega
        rw [hend] at hholds
        exact hholds

theorem Holds.mono {L' : Layout} {base off n : Nat} (h : Holds s L file base off n)
    (hkept : forall v f, L.page v = some f -> base / 4096 ≤ v -> 4096 * v < base + n ->
      L'.page v = some f ∧ s'.frame f = s.frame f) : Holds s' L' file base off n := by
  intro i hi
  rcases h i hi with ⟨f, hpage, hbyte⟩
  rcases hkept _ f hpage (by omega) (by omega) with ⟨hpage', hframe⟩
  exact ⟨f, hpage', by rw [hframe]; exact hbyte⟩

theorem Sound.unique {free' : List Nat} {L' : Layout} (h : Sound s free L)
    (h' : Sound s free' L') (hdir : L'.dir = L.dir) : L' = L := by
  rw [<- h.layout, <- h'.layout, hdir]

/-- `load_proghdrs` leaves the bytes of every header that is inside the file. -/
theorem loadProghdrs_holds {vm : AddressSpace} {headers : List (Option Proghdr)}
    {free' : List Nat} {L' : Layout} {ph : Proghdr} (h : Sound s free L)
    (hvm : vm.pgdir = kernelAddr L.dir) (hword : forall ph, some ph ∈ headers -> ph.Word)
    (hfile : file.length < 0x100000000)
    (hrun : loadProghdrs vm file headers s = Except.ok (true, s')) (hdry : Not (Dry s'))
    (hsound : Sound s' free' L') (hdir : L'.dir = L.dir) (hph : some ph ∈ headers)
    (hmem : ph.memsz ≠ 0) (hinside : ph.Inside file) :
    Holds s' L' file ph.vaddr ph.offset ph.filesz := by
  have htopEq : userHeapBase = 134512640 := rfl
  have hpgSize : pgSize = 4096 := rfl
  induction headers generalizing s free L with
  | nil => cases hph
  | cons header rest ih =>
      have hwordRest : forall ph, some ph ∈ rest -> ph.Word :=
        fun ph hph => hword ph (List.mem_cons_of_mem header hph)
      cases header with
      | none => cases hrun
      | some qh =>
          by_cases hzero : qh.memsz = 0
          · rw [loadProghdrs_skip hzero] at hrun
            rcases List.mem_cons.mp hph with hsame | hrest
            · cases hsame
              exact absurd hzero hmem
            · exact ih h hvm hwordRest hrun hdir hrest
          · have hqWord := hword qh List.mem_cons_self
            rcases loadProghdrs_segment h hvm hqWord hzero hrun hdry with
              ⟨s1, s2, free1, L1, hverified, hserved, -, hload, hwrote, hmore⟩
            have hdir1 : L1.dir = L.dir := hserved.grown.dir
            have hvm1 : vm.pgdir = kernelAddr L1.dir := by
              rw [hdir1]
              exact hvm
            have hsound2 := hwrote.sound hserved.grown.sound
            rcases List.mem_cons.mp hph with hsame | hrest
            · cases hsame
              rcases verify_bounds hqWord.left hqWord.right hverified with ⟨htop, hpages⟩
              rcases verify_parts hverified with ⟨hfilesz, halign, -, -⟩
              have hone : Holds s2 L1 file ph.vaddr ph.offset ph.filesz := by
                rcases hinside with hempty | hrange
                · intro i hi
                  omega
                · apply vmLoadFrom_holds hserved.grown.sound halign (by omega) (Or.inl rfl)
                    (Nat.zero_le _) (by rw [hpgSize]; omega) hrange hfile _ _ hload
                  · exact fun v hlow hhigh => hserved.present v hlow (by omega)
                  · exact fun i hi => absurd hi (Nat.not_lt_zero i)
              rcases loadProghdrs_image hsound2 hvm1 hwordRest hmore hdry with
                ⟨free2, L2, himage⟩
              have hlayout := himage.sound.unique hsound
                (hdir.trans (hdir1.symm.trans himage.dir.symm))
              rw [hlayout]
              exact hone.mono (fun v f hv _ _ =>
                ⟨(himage.page v f).mpr (Or.inl hv), himage.old v f hv⟩)
            · exact ih hsound2 hvm1 hwordRest hmore (hdir.trans hdir1.symm) hrest

end Loading

/-!
# The stages of `proc_execv`
-/

section Stages

variable {s s' : Phys} {free : List Nat} {L C : Layout} {older vm : AddressSpace}

/-- The end of `proc_execv` keeps the frames of the new address space. -/
theorem execGood_frames {eh : Elfhdr} {args : List (List UInt8)} {esp : Nat} {e : Execd}
    (h : Isolated s free L C) (holder : older.pgdir = kernelAddr L.dir)
    (hvm : vm.pgdir = kernelAddr C.dir)
    (hrun : execGood older vm eh args esp s = Except.ok (some e, s')) :
    args ≠ [] ∧ e.vm = vm ∧ (exists free', Sound s' free' C) ∧
      forall x f, C.frame x = some f -> s'.frame f = s.frame f := by
  rcases vmFree_isolated h hvm holder with ⟨s1, free1, hfree, hsound, hfreed⟩
  unfold execGood at hrun
  cases args with
  | nil => cases hrun
  | cons arg rest =>
      dsimp only at hrun
      rw [hfree, ok_bind] at hrun
      cases hrun
      refine ⟨List.cons_ne_nil _ _, rfl, ⟨free1, hsound⟩, ?_⟩
      intro x f hx
      apply hfreed.same
      intro hex
      rcases hex with ⟨y, hy⟩
      exact h.apart y x f hy hx

/-- From the arguments on the pages below the stack stay. -/
theorem execArgs_frames {eh : Elfhdr} {args : List (List UInt8)} {e : Execd}
    (h : Isolated s free L C) (holder : older.pgdir = kernelAddr L.dir)
    (hvm : vm.pgdir = kernelAddr C.dir) (hstack : forall v, StackPage v -> C.page v ≠ none)
    (hgap : forall v, userHeapBase / 4096 ≤ v -> v < bottomUserStack / 4096 -> C.page v = none)
    (hmemory : ArgsInMemory args) (hfollow : ArgsFollow C.page (argvPtr args.length) args)
    (hrun : execArgs older vm eh args s = Except.ok (some e, s')) :
    (ArgsRoom (argvPtr args.length) args ∧ args ≠ []) ∧ e.vm = vm ∧
      (exists free', Sound s' free' C) ∧ KeepsProgram s C s' := by
  rcases copyArgsFrom_ok args.length 0 h.right hvm hstack hgap hmemory.left (by lia)
    (Nat.le_refl _) hmemory.argvPtr_low hmemory.right hfollow with
    ⟨r, s1, hcopy, hbuilds, hroom, hkeeps⟩
  have h1 : Isolated s1 free L C := (h.symm.grows hbuilds.grows).symm
  unfold execArgs copyArgvIntoStack at hrun
  rw [hcopy, ok_bind] at hrun
  dsimp only at hrun
  cases r with
  | none =>
      rcases execBad_ok vm h1 holder hvm with ⟨s2, hbad, -⟩
      dsimp only at hrun
      rw [hbad] at hrun
      cases hrun
  | some esp =>
      rcases execGood_frames h1 holder hvm hrun with ⟨hnil, hevm, hsound, hframes⟩
      refine ⟨⟨?_, hnil⟩, hevm, hsound, ?_⟩
      · by_contra hno
        cases hroom.mpr hno
      · intro v f hv hlow
        have hsome : some esp ≠ none := Option.some_ne_none esp
        exact (hframes (Slot.page v) f hv).trans (hkeeps hsome v f hv hlow)

/-- The pages of the program stay from `setup_ustack` on. -/
theorem execStack_frames {eh : Elfhdr} {args : List (List UInt8)} {e : Execd}
    (h : Isolated s free L C) (holder : older.pgdir = kernelAddr L.dir)
    (hvm : vm.pgdir = kernelAddr C.dir) (hpages : forall v, C.page v ≠ none -> ProgramPage v)
    (hmemory : ArgsInMemory args)
    (hfollow : forall free1 C1,
      Planned [(bottomUserStack / 4096, npagesUserStack)] free C free1 C1 ->
      ArgsFollow C1.page (argvPtr args.length) args)
    (hrun : execStack older vm eh args s = Except.ok (some e, s'))
    (hfresh : s'.exhausted = false) :
    (ArgsRoom (argvPtr args.length) args ∧ args ≠ []) ∧ e.vm = vm ∧
      exists free' free1 C', Sound s' free' C' ∧ C'.dir = C.dir ∧
        Planned [(bottomUserStack / 4096, npagesUserStack)] free C free1 C' ∧
        forall v f, C.page v = some f -> C'.page v = some f ∧ s'.frame f = s.frame f := by
  have hbottom : bottomUserStack = 2147467264 := rfl
  have hbase : userHeapBase = 134512640 := rfl
  have hclear : forall v, StackPage v -> C.page v = none :=
    fun v hv => clear_of_program hpages hv
  unfold execStack at hrun
  rcases bind_ok hrun with ⟨⟨ready, s1⟩, hsetup, hrest⟩
  have hdry : Not (Dry s1) := by
    intro hd
    have hkeeps : KeepsRecord (if ready = true then execArgs older vm eh args s1
        else execBad older vm s1) := by
      split
      · exact execArgs_keeps hd eh args
      · exact execBad_keeps hd.exhausted
    have hex : s'.exhausted = true := hkeeps.of_ok hrest
    rw [hfresh] at hex
    cases hex
  rcases (setupUstack_meets vm h.right hvm hclear).of_ok hsetup with
    ⟨-, hd⟩ | ⟨hready, free1, C1, hbuilds, hstack, hplanned⟩
  · exact absurd hd hdry
  · dsimp only at hready hbuilds hrest
    rw [if_pos hready] at hrest
    rcases setupUstack_keeps h.right hvm hsetup hdry with ⟨free2, C2, hsound2, hdir2, hkept2⟩
    have hsame := hbuilds.grows.sound.unique hsound2 (hdir2.trans hbuilds.grows.dir.symm)
    rw [hsame] at hkept2
    have h1 : Isolated s1 free1 L C1 := (h.symm.grows hbuilds.grows).symm
    have hvm1 : vm.pgdir = kernelAddr C1.dir := by
      rw [hbuilds.grows.dir]
      exact hvm
    have hgap : forall v, userHeapBase / 4096 ≤ v -> v < bottomUserStack / 4096 ->
        C1.page v = none := fun v hlow hhigh => gap_of_program hpages hstack hlow hhigh
    rcases execArgs_frames h1 holder hvm1 (fun v hv => (hstack v).mpr (Or.inr hv)) hgap hmemory
      (hfollow free1 C1 hplanned) hrest with ⟨hargs, hevm, ⟨free', hsound'⟩, hkeeps⟩
    refine ⟨hargs, hevm, free', free1, C1, hsound', hbuilds.grows.dir, hplanned, ?_⟩
    intro v f hv
    rcases hkept2 v f hv with ⟨hv1, hframe⟩
    have hlow : v < bottomUserStack / 4096 := by
      have hprogram := (hpages v (by rw [hv]; exact Option.some_ne_none f)).right
      omega
    exact ⟨hv1, (hkeeps v f hv1 hlow).trans (hframe hlow)⟩

/--
`proc_execv` that goes through, once the ELF header is verified: the pages behind
`load_proghdrs` stay to the end with their bytes.
-/
theorem execProgram_loaded {file : List UInt8} {eh : Elfhdr} {args : List (List UInt8)}
    {e : Execd} {d : Nat} (h : Isolated s free L (emptyLayout d))
    (holder : older.pgdir = kernelAddr L.dir) (hvm : vm.pgdir = kernelAddr d)
    (hmemory : ArgsInMemory args)
    (hfollow : Accepted file (readProghdrs file eh.phnum eh.phoff) ->
      ArgsFollow (execPage (readProghdrs file eh.phnum eh.phoff) free) (argvPtr args.length) args)
    (hrun : execProgram older vm file eh args s = Except.ok (some e, s'))
    (hfresh : s'.exhausted = false) :
    (HeadersApart file (fun _ => False) (readProghdrs file eh.phnum eh.phoff) ∧
      Accepted file (readProghdrs file eh.phnum eh.phoff) ∧
      ArgsRoom (argvPtr args.length) args ∧ args ≠ []) ∧
    e.vm = vm ∧ exists s1 free1 C1 free' C,
      loadProghdrs vm file (readProghdrs file eh.phnum eh.phoff) s = Except.ok (true, s1) ∧
      Not (Dry s1) ∧ (Sound s1 free1 C1 ∧ C1.dir = d) ∧ (Sound s' free' C ∧ C.dir = d) ∧
      C.page = execPage (readProghdrs file eh.phnum eh.phoff) free ∧
      forall v f, C1.page v = some f -> C.page v = some f ∧ s'.frame f = s1.frame f := by
  have hword : forall ph, some ph ∈ readProghdrs file eh.phnum eh.phoff -> ph.Word :=
    fun ph hph => readProghdrs_word hph
  unfold execProgram at hrun
  rcases bind_ok hrun with ⟨⟨loaded, s1⟩, hload, hrest⟩
  have hdry : Not (Dry s1) := by
    intro hd
    have hkeeps : KeepsRecord (if loaded = true then execStack older vm eh args s1
        else execBad older vm s1) := by
      split
      · exact execStack_keeps hd eh args
      · exact execBad_keeps hd.exhausted
    have hex : s'.exhausted = true := hkeeps.of_ok hrest
    rw [hfresh] at hex
    cases hex
  rcases (loadProghdrs_meets (fun _ => False) h.right hvm hword (emptyLayout_page d)).of_ok hload
    with hd | ⟨hapart, haccepted, free1, C1, hloaded, hplanned⟩
  · exact absurd hd hdry
  · dsimp only at haccepted hloaded hplanned hrest
    have hdir1 : C1.dir = d := hloaded.builds.grows.dir
    have h1 : Isolated s1 free1 L C1 := (h.symm.grows hloaded.builds.grows).symm
    have hvm1 : vm.pgdir = kernelAddr C1.dir := by
      rw [hdir1]
      exact hvm
    have hpages : forall v, C1.page v ≠ none -> ProgramPage v := by
      intro v hv
      rcases hloaded.inside v hv with hold | hprogram
      · exact ((emptyLayout_page d v).mp hold).elim
      · exact hprogram
    by_cases hyes : loaded = true
    · rw [if_pos hyes] at hrest
      rw [hyes] at hload
      have hall := haccepted.mp hyes
      have hfollow1 : forall free2 C2,
          Planned [(bottomUserStack / 4096, npagesUserStack)] free1 C1 free2 C2 ->
            ArgsFollow C2.page (argvPtr args.length) args := by
        intro free2 C2 hstack
        rw [(hplanned hyes).execPage hstack]
        exact hfollow hall
      rcases execStack_frames h1 holder hvm1 hpages hmemory hfollow1 hrest hfresh with
        ⟨⟨hroom, hnil⟩, hevm, free', free2, C, hsound, hdir, hstack, hkept⟩
      exact ⟨⟨hapart, hall, hroom, hnil⟩, hevm, s1, free1, C1, free', C, hload, hdry,
        ⟨h1.right, hdir1⟩, ⟨hsound, hdir.trans hdir1⟩, (hplanned hyes).execPage hstack, hkept⟩
    · rw [if_neg hyes] at hrest
      rcases execBad_ok vm h1 holder hvm1 with ⟨s2, hbad, -⟩
      rw [hbad] at hrest
      cases hrest

theorem Holds.userByte {file : List UInt8} {base off n i : Nat} (h : Holds s C file base off n)
    (hs : Sound s free C) (hi : i < n) (hinside : off + n ≤ file.length) :
    Vm.userByte s C.dir (base + i) = file[off + i]? := by
  rcases h i hi with ⟨f, hpage, hbyte⟩
  have hlt : off + i < file.length := by omega
  rw [userByte_layout hs hpage, hbyte, List.getD_eq_getElem?_getD, List.getElem?_eq_getElem hlt]
  rfl

end Stages

/-!
# The file in memory
-/

/--
A `proc_execv` that goes through has found the bytes of every header with memory in the file,
and they are at the header's virtual address.
-/
def FileLoaded (older : AddressSpace) (refill : Bool) (inode : Option (Nat × List UInt8))
    (args : List (List UInt8)) (s : Phys) : Prop :=
  forall e s', procExecv older refill inode args s = Except.ok (some e, s') ->
    forall file eh ph, program inode = some (file, eh) ->
      some ph ∈ readProghdrs file eh.phnum eh.phoff -> ph.memsz ≠ 0 ->
        ph.Inside file ∧ forall d i, e.vm.pgdir = kernelAddr d -> i < ph.filesz ->
          userByte s' d (ph.vaddr + i) = file[ph.offset + i]?

/-- No header of a program that is loaded otherwise is clipped by the end of the file. -/
def NoneClipped (inode : Option (Nat × List UInt8)) (args : List (List UInt8)) : Prop :=
  forall file eh, program inode = some (file, eh) ->
    HeadersApart file (fun _ => False) (readProghdrs file eh.phnum eh.phoff) ->
    Accepted file (readProghdrs file eh.phnum eh.phoff) ->
    ArgsRoom (argvPtr args.length) args -> args ≠ [] ->
    forall ph, some ph ∈ readProghdrs file eh.phnum eh.phoff -> ph.memsz ≠ 0 ->
      Not (ph.Clipped file)

theorem program_length {inode : Option (Nat × List UInt8)} {file : List UInt8} {eh : Elfhdr}
    (hfile : forall type file, inode = some (type, file) -> file.length < 0x100000000)
    (h : program inode = some (file, eh)) : file.length < 0x100000000 := by
  unfold program at h
  cases inode with
  | none => cases h
  | some a =>
      rcases a with ⟨type, bytes⟩
      have hlen := hfile type bytes rfl
      dsimp only at h
      split at h
      · cases h
      · split at h
        · cases h
        · split at h
          · cases h
            exact hlen
          · cases h

section Program

variable {s : Phys} {free : List Nat} {L : Layout} {older : AddressSpace}

/-- A program that is accepted goes through where the frames suffice. -/
theorem execProgram_ok {file : List UInt8} {eh : Elfhdr} {args : List (List UInt8)} {d : Nat}
    (vm : AddressSpace) (h : Isolated s free L (emptyLayout d))
    (holder : older.pgdir = kernelAddr L.dir) (hvm : vm.pgdir = kernelAddr d)
    (hmemory : ArgsInMemory args)
    (hfollow : ArgsFollow (execPage (readProghdrs file eh.phnum eh.phoff) free)
      (argvPtr args.length) args)
    (hfound : (final (execProgram older vm file eh args s)).exhausted = false)
    (hapart : HeadersApart file (fun _ => False) (readProghdrs file eh.phnum eh.phoff))
    (haccepted : Accepted file (readProghdrs file eh.phnum eh.phoff))
    (hroom : ArgsRoom (argvPtr args.length) args) (hnil : args ≠ []) :
    exists e s', execProgram older vm file eh args s = Except.ok (some e, s') := by
  have hmeets := execProgram_meets vm file eh h holder hvm hmemory (fun _ => hfollow)
  cases hrun : execProgram older vm file eh args s with
  | ok a =>
      rcases hmeets.of_ok hrun with hex | ⟨-, ⟨-, hno, -⟩ | ⟨C, -, hdone, -⟩⟩
      · exact (not_found_of_exhausted hfound (by rw [hrun]; rfl) hex).elim
      · exact absurd ⟨haccepted, hroom⟩ hno
      · rcases hdone.result with ⟨arg, rest, e, -, he, -⟩
        rcases a with ⟨r, s'⟩
        cases he
        exact ⟨e, s', rfl⟩
  | error e =>
      rcases hmeets.of_error hrun with hex | hmet | ⟨hempty, -⟩
      · exact (not_found_of_exhausted hfound (by rw [hrun]; rfl) hex).elim
      · exact absurd hapart hmet
      · exact absurd hempty hnil

theorem procExecv_program {refill : Bool} {inode : Option (Nat × List UInt8)}
    {args : List (List UInt8)} {vm : AddressSpace} {s0 : Phys} {file : List UInt8} {eh : Elfhdr}
    (hnew : vmNew refill s = Except.ok (some vm, s0)) (hprogram : program inode = some (file, eh)) :
    procExecv older refill inode args s = execProgram older vm file eh args s0 := by
  unfold procExecv
  rw [hnew, ok_bind]
  dsimp only
  unfold execInto
  rw [hprogram]

end Program

/--
Where no argument is copied over the end of a frame and the run finds its frames,
`proc_execv` loads the file if and only if no header is clipped.
-/
theorem exec_loads_file_iff (older : AddressSpace) (refill : Bool)
    (inode : Option (Nat × List UInt8)) (args : List (List UInt8)) (s : Phys) (free : List Nat)
    (L : Layout) (h : Sound s free L) (holder : older.pgdir = kernelAddr L.dir)
    (hmemory : ArgsInMemory args) (hfollow : ArgumentsFollow refill inode args free)
    (hfile : forall type file, inode = some (type, file) -> file.length < 0x100000000)
    (hfound : (final (procExecv older refill inode args s)).exhausted = false) :
    FileLoaded older refill inode args s <-> NoneClipped inode args := by
  rcases vmNew_cases refill h with ⟨s0, free0, d, hnew, hiso, -, hleft, -⟩ | ⟨-, e, hnew, hex⟩
  · have hbehind := freeBehind_eq hleft
    unfold ArgumentsFollow at hfollow
    rw [hbehind] at hfollow
    constructor
    · intro hloaded file eh hprogram hapart haccepted hroom hnil ph hph hmem hclipped
      have hrun : procExecv older refill inode args s =
          execProgram older { pgdir := kernelAddr d, brk := userHeapBase } file eh args s0 :=
        procExecv_program hnew hprogram
      rw [hrun] at hfound
      rcases execProgram_ok _ hiso holder rfl hmemory (hfollow file eh hprogram haccepted) hfound
        hapart haccepted hroom hnil with ⟨e, s', hok⟩
      rw [<- hrun] at hok
      exact hclipped.not_inside (hloaded e s' hok file eh ph hprogram hph hmem).left
    · intro hclipped e s' hok file eh ph hprogram hph hmem
      have hlength := program_length hfile hprogram
      rw [hok] at hfound
      rw [procExecv_program hnew hprogram] at hok
      rcases execProgram_loaded hiso holder rfl hmemory (hfollow file eh hprogram) hok hfound with
        ⟨⟨hapart, haccepted, hroom, hnil⟩, hvm, s1, free1, C1, free', C, hload, hdry,
          ⟨hsound1, hdir1⟩, ⟨hsound, hdir⟩, -, hkept⟩
      have hnone := hclipped file eh hprogram hapart haccepted hroom hnil ph hph hmem
      have hinside : ph.Inside file := by
        rcases haccepted (some ph) hph with ⟨qh, hq, hzero | hgood⟩
        · cases hq
          exact absurd hzero hmem
        · cases hq
          exact Proghdr.inside_of_loads (readProghdrs_offset hph) hgood.right hnone
      refine ⟨hinside, ?_⟩
      intro d' i hd' hi
      rw [hvm] at hd'
      have hd : d' = C.dir := by
        rw [hdir]
        exact (kernelAddr_injective hd').symm
      rcases hinside with hempty | hrange
      · omega
      · have hword : forall ph, some ph ∈ readProghdrs file eh.phnum eh.phoff -> ph.Word :=
          fun ph hph => readProghdrs_word hph
        have hholds := loadProghdrs_holds hiso.right rfl hword hlength hload hdry hsound1 hdir1 hph
          hmem (Or.inr hrange)
        rw [hd]
        exact (hholds.mono (fun v f hv _ _ => hkept v f hv)).userByte hsound hi hrange
  · have hrun : procExecv older refill inode args s = Except.error e := by
      unfold procExecv
      rw [hnew, error_bind]
    exact (not_found_of_exhausted hfound (by rw [hrun]; rfl) hex).elim

/-!
# A segment behind the end of its file
-/

def rowPhys : Phys := freeFrames (List.range' 1025 8)

theorem rowSound : Sound rowPhys (List.range' 1025 8) bareLayout :=
  bare_sound (by decide) (by decide)

/-- One header that asks for the byte behind the end of the file. -/
def clippedElf : List UInt8 :=
  [0x7F, 0x45, 0x4C, 0x46] ++ List.replicate 12 0 ++ [2, 0] ++ List.replicate 10 0 ++
    [52, 0, 0, 0] ++ List.replicate 12 0 ++ [1, 0] ++ List.replicate 6 0 ++
    ([1, 0, 0, 0] ++ [84, 0, 0, 0] ++ [0, 0x80, 4, 4] ++ List.replicate 4 0 ++ [1, 0, 0, 0] ++
      [1, 0, 0, 0] ++ List.replicate 8 0)

def clippedHeader : Proghdr := { offset := 84, vaddr := userBase, filesz := 1, memsz := 1 }

theorem clipped_program :
    exists eh, program (some (inodeFile, clippedElf)) = some (clippedElf, eh) ∧
      readProghdrs clippedElf eh.phnum eh.phoff = [some clippedHeader] := by
  refine ⟨{ magic := elfMagic, type := etExec, entry := 0, phoff := 52, phnum := 1 }, ?_, ?_⟩
  · rfl
  · have hread : readProghdr clippedElf 52 = some clippedHeader := by
      unfold readProghdr readRecord
      rw [inodeRead_inside (by decide) (by decide) (by decide)]
      rfl
    show readProghdr clippedElf 52 :: [] = _
    rw [hread]

theorem clippedHeader_verified : verifyProghdr clippedHeader = true := by decide +kernel

theorem clippedHeader_loads : clippedHeader.loads clippedElf = true := by
  rw [Proghdr.loads_iff clippedElf (by decide)]
  decide

/-- The same header, and the byte that it asks for. -/
def byteElf : List UInt8 := clippedElf ++ [7]

theorem byte_program :
    exists eh, program (some (inodeFile, byteElf)) = some (byteElf, eh) ∧
      readProghdrs byteElf eh.phnum eh.phoff = [some clippedHeader] := by
  refine ⟨{ magic := elfMagic, type := etExec, entry := 0, phoff := 52, phnum := 1 }, ?_, ?_⟩
  · rfl
  · have hread : readProghdr byteElf 52 = some clippedHeader := by
      unfold readProghdr readRecord
      rw [inodeRead_inside (by decide) (by decide) (by decide)]
      rfl
    show readProghdr byteElf 52 :: [] = _
    rw [hread]

theorem byteHeader_loads : clippedHeader.loads byteElf = true := by
  rw [Proghdr.loads_iff byteElf (by decide)]
  decide

section Clipped

variable {s : Phys} {L : Layout} {older u : AddressSpace} {d : Nat} {free : List Nat}
  {file : List UInt8} {eh : Elfhdr} {args : List (List UInt8)}

/-- Seven frames are enough for the page of the header, the stack and their tables. -/
theorem clipped_loaded (h : Isolated s free L (emptyLayout d)) (hvm : u.pgdir = kernelAddr d)
    (hfree : free = List.range' 1026 7) (hloads : clippedHeader.loads file = true) :
    exists s1 free1 C, loadProghdrs u file [some clippedHeader] s = Except.ok (true, s1) ∧
      Builds s free (emptyLayout d) s1 free1 C ∧ stackNeed C ≤ free1.length ∧
      forall v, C.page v ≠ none -> ProgramPage v := by
  have hword : clippedHeader.Word := ⟨by decide, by decide⟩
  have hpages : clippedHeader.pages = 1 := by decide +kernel
  have hrange : clippedHeader.vaddr + 4096 * clippedHeader.pages ≤ kernelBase := by
    rw [hpages]
    decide
  have htable : (emptyLayout d).hasTable = fun _ => false := rfl
  have hpage : (emptyLayout d).hasPage = fun _ => false := rfl
  rcases vmValloc_cases h.right hvm (hpages ▸ Nat.one_pos) hrange with
    ⟨s1, free1, C, hvalloc, hserved, hbuilds, -⟩ | ⟨⟨w, -, -, hw⟩, -⟩ | ⟨hshort, -⟩
  · have hgrown := hserved.grown
    have hpresent : forall v, clippedHeader.vaddr / 4096 ≤ v ->
        4096 * v < clippedHeader.vaddr + clippedHeader.filesz -> C.page v ≠ none := by
      intro v hlow hhigh
      apply hserved.present v hlow
      rw [hpages]
      have hvaddr : clippedHeader.vaddr = 67403776 := rfl
      have hfilesz : clippedHeader.filesz = 1 := rfl
      rw [hvaddr, hfilesz] at hhigh
      rw [hvaddr]
      omega
    rcases vmLoadFrom_loads file (clippedHeader.filesz / pgSize + 1) 0 clippedHeader.offset
      hgrown.sound (by decide) (by decide) (Or.inl rfl) hpresent with ⟨s2, hload⟩
    have hwrote := vmLoadFrom_wrote hgrown.sound (by decide) (by decide) (Or.inl rfl) hload
    refine ⟨s2, free1, C, ?_, hbuilds.trans (hwrote.builds hgrown.sound), ?_, ?_⟩
    · have hloads' : loads file clippedHeader.filesz (clippedHeader.filesz / pgSize + 1) 0
          clippedHeader.offset = true := hloads
      rw [hloads', hgrown.dir] at hload
      unfold loadProghdrs
      rw [if_neg (by decide), clippedHeader_verified, if_neg (by decide), hvalloc, ok_bind]
      dsimp only
      rw [if_pos rfl]
      unfold vmLoad
      rw [hvm]
      refine Eq.trans (congrArg (fun r => r >>= _) hload) ?_
      rfl
    · have hleft := hserved.left
      rw [hpages, hfree, htable, hpage] at hleft
      have hlength : free1.length = 5 := by
        have hrest := congrArg (fun a => a.2.2.length) hleft
        exact hrest
      have htables : C.hasTable = _ := congrArg Prod.fst hleft
      have hmapped : C.hasPage = _ := congrArg (fun a => a.2.1) hleft
      unfold stackNeed
      rw [hlength, htables, hmapped]
      decide
    · intro v hv
      rcases (hserved.page_iff v).mp hv with hold | hnew
      · exact absurd rfl hold
      · exact Proghdr.Covers.program hword clippedHeader_verified hnew
  · exact absurd rfl hw
  · rw [hfree, hpages, htable, hpage] at hshort
    exact absurd hshort (by decide)

/-- A program with this header is loaded, and refused exactly if its arguments have no room. -/
theorem clipped_ends (hprogram : program (some (inodeFile, file)) = some (file, eh))
    (hheaders : readProghdrs file eh.phnum eh.phoff = [some clippedHeader])
    (hloads : clippedHeader.loads file = true) (hmemory : ArgsInMemory args)
    (hfollow : forall page, ArgsFollow page (argvPtr args.length) args) (hnil : args ≠ []) :
    exists r s', procExecv roomyVm false (some (inodeFile, file)) args rowPhys =
        Except.ok (r, s') ∧ s'.exhausted = false ∧
      (r = none <-> Not (ArgsRoom (argvPtr args.length) args)) := by
  rcases vmNew_cases false rowSound with ⟨s0, free0, d, hnew, hiso, hex, hleft, -⟩ | ⟨hshort, -⟩
  · have hfree0 : free0 = List.range' 1026 7 := (List.cons.inj hleft).right
    rcases clipped_loaded (u := { pgdir := kernelAddr d, brk := userHeapBase }) hiso rfl hfree0
      hloads with ⟨s1, free1, C, hload, hbuilds, hneed, hpages⟩
    have h1 : Isolated s1 free1 bareLayout C := (hiso.symm.grows hbuilds.grows).symm
    have hvm1 : (AddressSpace.mk (kernelAddr d) userHeapBase).pgdir = kernelAddr C.dir := by
      rw [hbuilds.grows.dir]
      rfl
    have hrun : procExecv roomyVm false (some (inodeFile, file)) args rowPhys =
        execStack roomyVm { pgdir := kernelAddr d, brk := userHeapBase } eh args s1 := by
      rw [procExecv_program hnew hprogram]
      unfold execProgram
      rw [hheaders, hload, ok_bind]
      dsimp only
      rw [if_pos rfl]
    have holder : roomyVm.pgdir = kernelAddr bareLayout.dir := rfl
    have hmeets := execStack_meets eh h1 holder hvm1 hpages hmemory
      (fun free2 C1 _ => hfollow C1.page)
    have hends : forall e : Stop × Phys, Not ((free1.length < stackNeed C ∧ e.2.exhausted = true) ∨
        (args = [] ∧ e.2.exhausted = s1.exhausted)) := by
      intro e hor
      rcases hor with ⟨hshort, -⟩ | ⟨hempty, -⟩
      · exact Nat.not_lt_of_le hneed hshort
      · exact hnil hempty
    rcases hmeets.ok hends with ⟨⟨r, s'⟩, hstack, ⟨hshort, -⟩ | hend⟩
    · exact absurd hshort (Nat.not_lt_of_le hneed)
    · refine ⟨r, s', hrun.trans hstack, hend.exhausted.trans (hbuilds.exhausted.trans hex), ?_⟩
      rcases hend.answer with ⟨hnone, hno, -⟩ | ⟨hroom, C', -, hdone, -⟩
      · exact ⟨fun _ => hno, fun _ => hnone⟩
      · rcases hdone.result with ⟨arg, rest, e, -, he, -⟩
        constructor
        · intro hnone
          rw [hnone] at he
          cases he
        · exact fun hno => absurd hroom hno
  · exact absurd hshort (by decide)

end Clipped

theorem pagedArgs_room : ArgsRoom (argvPtr 2) pagedArgs := by
  rcases pagedArgs_below with ⟨-, hfirst, hsecond⟩
  unfold pagedArgs ArgsRoom
  rw [hfirst]
  refine ⟨by decide, ?_⟩
  unfold ArgsRoom
  rw [hsecond]
  exact ⟨by decide, trivial⟩

theorem byteElf_file (type : Nat) (file : List UInt8)
    (h : some (inodeFile, byteElf) = some (type, file)) : file.length < 0x100000000 := by
  cases h
  decide

theorem exec_loads_file_iff_byteElf :
    (exists e s', procExecv roomyVm false (some (inodeFile, byteElf)) pagedArgs rowPhys =
      Except.ok (some e, s')) ∧
      (FileLoaded roomyVm false (some (inodeFile, byteElf)) pagedArgs rowPhys <->
        NoneClipped (some (inodeFile, byteElf)) pagedArgs) := by
  rcases byte_program with ⟨eh, hprogram, hheaders⟩
  rcases clipped_ends hprogram hheaders byteHeader_loads pagedArgs_inMemory pagedArgs_follow
    (List.cons_ne_nil _ _) with ⟨r, s', hrun, hfresh, hnone⟩
  constructor
  · cases r with
    | none => exact absurd pagedArgs_room (hnone.mp rfl)
    | some e => exact ⟨e, s', hrun⟩
  · exact exec_loads_file_iff roomyVm false (some (inodeFile, byteElf)) pagedArgs rowPhys
      (List.range' 1025 8) bareLayout rowSound rfl pagedArgs_inMemory
      (fun _ _ _ _ => pagedArgs_follow _) byteElf_file (by rw [hrun]; exact hfresh)

/-- The header asks for a byte that the file does not have, and `proc_execv` goes through. -/
theorem exec_clipped :
    Sound rowPhys (List.range' 1025 8) bareLayout ∧
      (final (procExecv roomyVm false (some (inodeFile, clippedElf)) pagedArgs rowPhys)).exhausted =
        false ∧
      Not (FileLoaded roomyVm false (some (inodeFile, clippedElf)) pagedArgs rowPhys) := by
  rcases clipped_program with ⟨eh, hprogram, hheaders⟩
  rcases clipped_ends hprogram hheaders clippedHeader_loads pagedArgs_inMemory pagedArgs_follow
    (List.cons_ne_nil _ _) with ⟨r, s', hrun, hfresh, hnone⟩
  refine ⟨rowSound, ?_, ?_⟩
  · rw [hrun]
    exact hfresh
  · intro hloaded
    cases r with
    | none => exact absurd pagedArgs_room (hnone.mp rfl)
    | some e =>
        have hmem : some clippedHeader ∈ readProghdrs clippedElf eh.phnum eh.phoff := by
          rw [hheaders]
          exact List.mem_cons_self
        have hinside := (hloaded e s' hrun clippedElf eh clippedHeader hprogram hmem
          (by decide)).left
        rcases hinside with hzero | hrange
        · exact absurd hzero (by decide)
        · exact absurd hrange (by decide)

end Vm
end Kernel
end NicoOS
