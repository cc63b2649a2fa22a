import NicoOS.Shell.Lexer

/-!
# Quotes of a line

The line reader takes every quote as the begin or the end of a string; the lexer takes only
those where a token begins.  They agree on the lines where the other quotes, in words, behind
backslashes and in comments, leave the pairs as they are.
-/

namespace NicoOS
namespace Shell

open Lexer

def physicalLine : Text -> Text
  | [] => []
  | ch :: rest => if ch = newline then [ch] else ch :: physicalLine rest

/--
The reader stays in its buffer; what it hands over has no open quote, and no token outside the
buffer; and a line without an open quote is handed over alone.
-/
def QuotingAgrees (stream : Text) (lineno : Nat) : Prop :=
  exists code sc, shReadToBuf stream lineno = some (code, sc) ∧
    (code = -1 -> Whole sc.buf ∧ forall x, x ∈ lex sc.buf -> InBuffer sc.buf x.2) ∧
    (Whole (physicalLine (spliced stream)) ->
      code ≠ 1 ∧ sc.buf = physicalLine (spliced stream))

def paired (p : Text) : Pairing := p.foldl Pairing.step Pairing.out

/-- The pairs of all quotes are closed if and only if those at the begin of tokens are. -/
def SameQuotes (p : Text) : Prop := paired p = Pairing.out <-> (State.gap.run p).isOpen = false

instance (p : Text) : Decidable (SameQuotes p) := inferInstanceAs (Decidable (_ <-> _))

/-- The text has its place in the buffer, with the `NUL` that is put behind a whole line. -/
def Fits (text : Text × Pairing) : Prop :=
  (text.2 = Pairing.out -> text.1.length < lineBufSize) ∧ text.1.length ≤ lineBufSize

instance (text : Text × Pairing) : Decidable (Fits text) := inferInstanceAs (Decidable (_ ∧ _))

/-- The conditions on the text ahead: its first line, and all that the reader takes. -/
def SameLines (t : Text) : Prop :=
  Fits (taken Pairing.out t) ∧ SameQuotes (physicalLine t) ∧
    ((taken Pairing.out t).2 = Pairing.out -> SameQuotes (taken Pairing.out t).1)

instance (t : Text) : Decidable (SameLines t) := inferInstanceAs (Decidable (_ ∧ _))

/-!
# Lines and pairs
-/

section Pairs

variable {t : Text} {st : Pairing} {ch : UInt8}

theorem taken_pairing (t : Text) : forall st : Pairing,
    (taken st t).1.foldl Pairing.step st = (taken st t).2 := by
  induction t with
  | nil => exact fun _ => rfl
  | cons ch rest ih =>
      intro st
      rw [taken]
      split
      · rename_i hend
        rw [hend.left, hend.right]
        rfl
      · exact ih (st.step ch)

def Pairing.Proper (st : Pairing) : Prop :=
  forall quote, st = Pairing.quoted quote -> quote ≠ newline

theorem Pairing.Proper.step (h : st.Proper) (ch : UInt8) : (st.step ch).Proper := by
  have hsingle : singleQuote ≠ newline := by decide
  have hdouble : doubleQuote ≠ newline := by decide
  intro quote hquote
  cases st with
  | out =>
      by_cases hch : ch = singleQuote ∨ ch = doubleQuote
      · have hstep : Pairing.out.step ch = Pairing.quoted ch := if_pos hch
        rw [hstep] at hquote
        cases hquote
        rcases hch with heq | heq
        · rw [heq]
          exact hsingle
        · rw [heq]
          exact hdouble
      · have hstep : Pairing.out.step ch = Pairing.out := if_neg hch
        rw [hstep] at hquote
        cases hquote
  | quoted q =>
      by_cases hclose : ch = q
      · have hstep : (Pairing.quoted q).step ch = Pairing.out := if_pos hclose
        rw [hstep] at hquote
        cases hquote
      · by_cases hescape : q = doubleQuote ∧ ch = backslash
        · have hstep : (Pairing.quoted q).step ch = Pairing.escaped :=
            (if_neg hclose).trans (if_pos hescape)
          rw [hstep] at hquote
          cases hquote
        · have hstep : (Pairing.quoted q).step ch = Pairing.quoted q :=
            (if_neg hclose).trans (if_neg hescape)
          rw [hstep] at hquote
          exact h quote hquote
  | escaped =>
      cases hquote
      exact hdouble

theorem taken_line (t : Text) : forall st : Pairing, st.Proper ->
    (physicalLine t).foldl Pairing.step st = Pairing.out ->
    taken st t = (physicalLine t, Pairing.out) := by
  induction t with
  | nil =>
      intro st _ h
      have hout : st = Pairing.out := h
      rw [hout]
      rfl
  | cons ch rest ih =>
      intro st hproper h
      rw [taken]
      rw [physicalLine] at h ⊢
      by_cases hnl : ch = newline
      · rw [if_pos hnl, hnl] at h
        have hout : st = Pairing.out := by
          cases st with
          | out => rfl
          | quoted quote =>
              have hne : newline ≠ quote := (hproper quote rfl).symm
              have hstay : (Pairing.quoted quote).step newline = Pairing.quoted quote :=
                (if_neg hne).trans (if_neg (fun hboth => absurd hboth.right (by decide)))
              have hstep : (Pairing.quoted quote).step newline = Pairing.out := h
              rw [hstay] at hstep
              cases hstep
          | escaped => cases h
        rw [if_pos hnl, if_pos ⟨hout, hnl⟩]
      · rw [if_neg hnl] at h
        rw [if_neg hnl, if_neg (fun hboth => hnl hboth.right), ih _ (hproper.step ch) h]

theorem physicalLine_begins (t : Text) : forall st : Pairing,
    physicalLine t <+: (taken st t).1 := by
  induction t with
  | nil => exact fun _ => List.prefix_refl _
  | cons ch rest ih =>
      intro st
      rw [physicalLine, taken]
      by_cases hnl : ch = newline
      · rw [if_pos hnl]
        split
        · exact List.prefix_refl _
        · exact List.prefix_cons_inj ch |>.mpr List.nil_prefix
      · rw [if_neg hnl, if_neg (fun hboth => hnl hboth.right)]
        exact List.prefix_cons_inj ch |>.mpr (ih _)

end Pairs

/-!
# What is handed over
-/

section Reading

variable {stream t p : Text} {lineno : Nat}

/-- `sh_read_to_buf` gives the text that it takes, where that has its place in the buffer. -/
theorem shReadToBuf_taken (stream : Text) (lineno : Nat) (h : Ascii stream) :
    (Not (Fits (taken Pairing.out (spliced stream))) ∧ shReadToBuf stream lineno = none) ∨
    (Fits (taken Pairing.out (spliced stream)) ∧ exists code sc,
      shReadToBuf stream lineno = some (code, sc) ∧
      sc.buf = (taken Pairing.out (spliced stream)).1 ∧
      (code = 1 <-> (taken Pairing.out (spliced stream)).2 ≠ Pairing.out) ∧
      (code = -1 <-> (taken Pairing.out (spliced stream)).2 = Pairing.out ∧
        (taken Pairing.out (spliced stream)).1 ≠ [])) := by
  rcases Scanner.readLine_taken stream lineno h with ⟨hlen, sc, hrun, hbuf, heof⟩ | ⟨hover, hrun⟩
  · rw [List.length_nil, Nat.zero_add] at hlen
    rw [List.nil_append] at hbuf
    unfold shReadToBuf
    rw [hrun]
    by_cases hout : (taken Pairing.out (spliced stream)).2 = Pairing.out
    · rw [decide_eq_true hout]
      by_cases hroom : (taken Pairing.out (spliced stream)).1.length < lineBufSize
      · right
        have hroom' : sc.buf.length < lineBufSize := by
          rw [hbuf]
          exact hroom
        refine ⟨⟨fun _ => hroom, hlen⟩, ?_⟩
        by_cases hnil : (taken Pairing.out (spliced stream)).1 = []
        · have hempty : sc.buf = [] ∧ sc.eof = true := ⟨hbuf.trans hnil, heof hnil⟩
          refine ⟨0, sc, (if_pos hroom').trans (if_pos hempty), hbuf, ?_, ?_⟩
          · exact ⟨fun hone => absurd hone (by decide), fun hne => absurd hout hne⟩
          · exact ⟨fun hone => absurd hone (by decide), fun hboth => absurd hnil hboth.right⟩
        · have hfull : Not (sc.buf = [] ∧ sc.eof = true) :=
            fun hboth => hnil (hbuf.symm.trans hboth.left)
          refine ⟨-1, sc, (if_pos hroom').trans (if_neg hfull), hbuf, ?_, ?_⟩
          · exact ⟨fun hone => absurd hone (by decide), fun hne => absurd hout hne⟩
          · exact ⟨fun _ => ⟨hout, hnil⟩, fun _ => rfl⟩
      · left
        refine ⟨fun hfits => hroom (hfits.left hout), ?_⟩
        rw [<- hbuf] at hroom
        exact if_neg hroom
    · right
      rw [decide_eq_false hout]
      refine ⟨⟨fun hyes => absurd hyes hout, hlen⟩, 1, sc, rfl, hbuf, ?_, ?_⟩
      · exact ⟨fun _ => hout, fun _ => rfl⟩
      · exact ⟨fun hone => absurd hone (by decide), fun hboth => absurd hboth.left hout⟩
  · left
    rw [List.length_nil, Nat.zero_add] at hover
    refine ⟨fun hfits => Nat.not_lt_of_le hfits.right hover, ?_⟩
    unfold shReadToBuf
    rw [hrun]
    rfl

theorem paired_taken (t : Text) : paired (taken Pairing.out t).1 = (taken Pairing.out t).2 :=
  taken_pairing t Pairing.out

theorem taken_of_paired (h : paired (physicalLine t) = Pairing.out) :
    taken Pairing.out t = (physicalLine t, Pairing.out) :=
  taken_line t Pairing.out (fun quote hquote => nomatch hquote) h

theorem quotingAgrees_of_sameLines (h : Ascii stream) (hsame : SameLines (spliced stream)) :
    QuotingAgrees stream lineno := by
  rcases hsame with ⟨hfits, hline, htaken⟩
  rcases shReadToBuf_taken stream lineno h with ⟨hno, -⟩ | ⟨-, code, sc, hrun, hbuf, hone, hminus⟩
  · exact absurd hfits hno
  · refine ⟨code, sc, hrun, ?_, ?_⟩
    · intro hcode
      have hout := (hminus.mp hcode).left
      have hwhole : Whole sc.buf := by
        rw [hbuf, whole_iff]
        exact (htaken hout).mp ((paired_taken _).trans hout)
      exact ⟨hwhole, hwhole.inBuffer⟩
    · intro hwhole
      have hpaired := hline.mpr ((whole_iff _).mp hwhole)
      have heq := taken_of_paired hpaired
      rw [heq] at hone hbuf
      exact ⟨fun hcode => hone.mp hcode rfl, hbuf⟩

theorem QuotingAgrees.sameLines (h : Ascii stream) (hagrees : QuotingAgrees stream lineno) :
    SameLines (spliced stream) := by
  rcases hagrees with ⟨code, sc, hrun, hsound, halone⟩
  rcases shReadToBuf_taken stream lineno h with ⟨-, hnone⟩ |
    ⟨hfits, code', sc', hrun', hbuf, hone, hminus⟩
  · rw [hnone] at hrun
    cases hrun
  · rw [hrun] at hrun'
    cases hrun'
    have htaken : (taken Pairing.out (spliced stream)).2 = Pairing.out ->
        SameQuotes (taken Pairing.out (spliced stream)).1 := by
      intro hout
      constructor
      · intro _
        by_cases hnil : (taken Pairing.out (spliced stream)).1 = []
        · rw [hnil]
          rfl
        · have hwhole := (hsound (hminus.mpr ⟨hout, hnil⟩)).left
          rw [hbuf, whole_iff] at hwhole
          exact hwhole
      · intro _
        rw [paired_taken]
        exact hout
    refine ⟨hfits, ?_, htaken⟩
    constructor
    · intro hpaired
      have heq := taken_of_paired hpaired
      rw [heq] at htaken
      exact (htaken rfl).mp hpaired
    · intro hclosed
      rcases halone ((whole_iff _).mpr hclosed) with ⟨hcode, halone⟩
      rw [<- halone, hbuf, paired_taken]
      by_contra hout
      exact hcode (hone.mpr hout)

/--
The line reader and the lexer agree on a stream if and only if what the reader takes fits in
the buffer, the quotes of the first line are closed for both or open for both, and so are
those of all that the reader hands over.
-/
theorem quotingAgrees_iff (stream : Text) (lineno : Nat) (h : Ascii stream) :
    QuotingAgrees stream lineno <-> SameLines (spliced stream) :=
  ⟨QuotingAgrees.sameLines h, quotingAgrees_of_sameLines h⟩

/-- Blanks and a word in quotes. -/
theorem quotingAgrees_iff_plain :
    QuotingAgrees [0x61, 0x20, 0x22, 0x62, 0x20, 0x27, 0x22, 0x0a, 0x63] 1 := by
  have hascii : Ascii [0x61, 0x20, 0x22, 0x62, 0x20, 0x27, 0x22, 0x0a, 0x63] :=
    ascii_of_all (by decide)
  exact (quotingAgrees_iff _ 1 hascii).mpr (by decide +kernel)

/--
The file `a" "` is handed over although its second token is an open string of length -1, and
the line `# don't` is rejected although it is a comment.
-/
theorem quoting_differs :
    ((exists sc, shReadToBuf [0x61, 0x22, 0x20, 0x22] 1 = some (-1, sc) ∧
        ([0x22], Peek.string [] (-1)) ∈ lex sc.buf) ∧
      Not (QuotingAgrees [0x61, 0x22, 0x20, 0x22] 1)) ∧
    ((exists sc, shReadToBuf [0x23, 0x20, 0x64, 0x27, 0x74, 0x0a] 1 = some (1, sc)) ∧
      Not (QuotingAgrees [0x23, 0x20, 0x64, 0x27, 0x74, 0x0a] 1)) := by
  have hword : Ascii [0x61, 0x22, 0x20, 0x22] := ascii_of_all (by decide)
  have hcomment : Ascii [0x23, 0x20, 0x64, 0x27, 0x74, 0x0a] := ascii_of_all (by decide)
  refine ⟨⟨⟨⟨[0x61, 0x22, 0x20, 0x22], none, [], true, 1, none⟩, ?_, ?_⟩, ?_⟩, ?_, ?_⟩
  · decide +kernel
  · decide +kernel
  · intro hagrees
    have hsame := hagrees.sameLines hword
    revert hsame
    decide +kernel
  · exact ⟨⟨[0x23, 0x20, 0x64, 0x27, 0x74, 0x0a], none, [], true, 2, some 2⟩, by decide +kernel⟩
  · intro hagrees
    have hsame := hagrees.sameLines hcomment
    revert hsame
    decide +kernel

/-!
# Quotes inside words and comments
-/

/-- Every quote of the text begins or ends a string for the lexer, or is inside one. -/
def noStray : State -> Text -> Bool
  | _, [] => true
  | st, ch :: rest => (decide (st = State.gap) || st.isOpen || !isQuote ch) &&
      noStray (st.step ch) rest

/-- Where the pairs of quotes stand that the lexer reads. -/
def pairingOf : State -> Pairing
  | State.quoted quote => Pairing.quoted quote
  | State.quotedEscape => Pairing.escaped
  | _ => Pairing.out

theorem isOpen_iff_pairing (st : State) : st.isOpen = false <-> pairingOf st = Pairing.out := by
  cases st with
  | quoted quote =>
      constructor
      · intro h
        cases h
      · intro h
        cases h
  | quotedEscape =>
      constructor
      · intro h
        cases h
      · intro h
        cases h
  | _ => exact ⟨fun _ => rfl, fun _ => rfl⟩

theorem isQuote_iff (ch : UInt8) : isQuote ch = true <-> ch = singleQuote ∨ ch = doubleQuote := by
  simp [isQuote]

theorem pairing_out_step {ch : UInt8} (h : isQuote ch = false) :
    Pairing.out.step ch = Pairing.out := by
  apply if_neg
  rw [<- isQuote_iff, h]
  exact Bool.false_ne_true

theorem pairingOf_inWord (ch : UInt8) : pairingOf (State.inWord ch) = Pairing.out := by
  unfold State.inWord
  split
  · rfl
  · split
    · rfl
    · rfl

/-- A quote that is not stray moves both scans alike. -/
theorem pairingOf_step {st : State} {ch : UInt8}
    (h : (decide (st = State.gap) || st.isOpen || !isQuote ch) = true) :
    pairingOf (st.step ch) = (pairingOf st).step ch := by
  cases st with
  | gap =>
      show pairingOf (if ch = hash then State.comment
        else if isQuote ch then State.quoted ch else State.inWord ch) = Pairing.out.step ch
      by_cases hhash : ch = hash
      · rw [if_pos hhash, hhash]
        rfl
      · rw [if_neg hhash]
        cases hquote : isQuote ch with
        | true => exact (if_pos ((isQuote_iff ch).mp hquote)).symm
        | false => rw [pairing_out_step hquote, if_neg Bool.false_ne_true, pairingOf_inWord]
  | word =>
      have hquote : isQuote ch = false := Bool.not_eq_true' _ |>.mp h
      exact (pairingOf_inWord ch).trans (pairing_out_step hquote).symm
  | wordEscape =>
      have hquote : isQuote ch = false := Bool.not_eq_true' _ |>.mp h
      exact (pairing_out_step hquote).symm
  | comment =>
      have hquote : isQuote ch = false := Bool.not_eq_true' _ |>.mp h
      show pairingOf (if endsComment ch then State.gap else State.comment) = Pairing.out.step ch
      rw [pairing_out_step hquote]
      split
      · rfl
      · rfl
  | quoted quote =>
      show pairingOf (if ch = quote then State.gap
          else if ch = backslash ∧ quote = doubleQuote then State.quotedEscape
          else State.quoted quote) =
        if ch = quote then Pairing.out
        else if quote = doubleQuote ∧ ch = backslash then Pairing.escaped
        else Pairing.quoted quote
      by_cases hclose : ch = quote
      · rw [if_pos hclose, if_pos hclose]
        rfl
      · rw [if_neg hclose, if_neg hclose]
        by_cases hescape : ch = backslash ∧ quote = doubleQuote
        · rw [if_pos hescape, if_pos hescape.symm]
          rfl
        · rw [if_neg hescape, if_neg (fun hboth => hescape hboth.symm)]
          rfl
  | quotedEscape => rfl

theorem pairingOf_run (p : Text) : forall st : State, noStray st p = true ->
    pairingOf (st.run p) = p.foldl Pairing.step (pairingOf st) := by
  induction p with
  | nil => exact fun _ _ => rfl
  | cons ch rest ih =>
      intro st h
      rw [noStray, Bool.and_eq_true] at h
      rw [run_cons, ih _ h.right, pairingOf_step h.left]
      rfl

theorem noStray_begins (p : Text) : forall (q : Text) (st : State), p <+: q ->
    noStray st q = true -> noStray st p = true := by
  induction p with
  | nil => exact fun _ _ _ _ => rfl
  | cons ch rest ih =>
      intro q st hprefix h
      rcases hprefix with ⟨us, hq⟩
      rw [<- hq, List.cons_append, noStray, Bool.and_eq_true] at h
      rw [noStray, Bool.and_eq_true]
      exact ⟨h.left, ih _ _ (List.prefix_append rest us) h.right⟩

theorem sameQuotes_of_noStray (h : noStray State.gap p = true) : SameQuotes p := by
  unfold SameQuotes paired
  rw [isOpen_iff_pairing, pairingOf_run p State.gap h]
  exact Iff.rfl

/-- Without a quote in a word, behind a backslash or in a comment the two agree. -/
theorem quotingAgrees_of_noStray (h : Ascii stream)
    (hfits : Fits (taken Pairing.out (spliced stream)))
    (hstray : noStray State.gap (taken Pairing.out (spliced stream)).1 = true) :
    QuotingAgrees stream lineno := by
  apply quotingAgrees_of_sameLines h
  refine ⟨hfits, ?_, fun _ => sameQuotes_of_noStray hstray⟩
  apply sameQuotes_of_noStray
  exact noStray_begins _ _ _ (physicalLine_begins (spliced stream) Pairing.out) hstray

end Reading

end Shell
end NicoOS
