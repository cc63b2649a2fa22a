import NicoOS.Shell.LineBuffer

/-!
# The lines of a script

The calls of `sh_read_to_buf` that `shloop` of `shell/sh/main.c` makes, one after the other on one
stream.
-/

namespace NicoOS
namespace Shell

namespace Scanner

/--
`shloop` with its calls of `sh_read_to_buf`: the buffers that it parses, and the code with which
it exits.  There is no result where the calls are used up, or where one writes behind the buffer.
-/
def readScript : Nat -> Scanner -> Option (List Text × Int)
  | 0, _ => none
  | k + 1, sc => do
      let (scannerCode, sc) <- sc.readToBuf
      if 0 ≤ scannerCode then
        some ([], scannerCode)
      else do
        let (lines, code) <- readScript k sc
        some (sc.buf :: lines, code)

/-- The text that all calls together have still to take. -/
def text (sc : Scanner) : Text := if sc.eof then [] else spliced (positive sc.instream)

/-!
# One byte
-/

section Bytes

variable {sc sc' : Scanner} {ch quote : UInt8} {k : Nat} {closed : Bool}

/-- What comes into the buffer is what was ahead. -/
structure Keeps (sc sc' : Scanner) : Prop where
  moved : exists new, sc'.buf = sc.buf ++ new ∧ sc.ahead = new ++ sc'.ahead
  ascii : Ascii sc'.instream

theorem Keeps.trans {sc1 sc2 sc3 : Scanner} (h : Keeps sc1 sc2) (h' : Keeps sc2 sc3) :
    Keeps sc1 sc3 where
  moved := by
    rcases h.moved with ⟨new, hbuf, hahead⟩
    rcases h'.moved with ⟨new', hbuf', hahead'⟩
    refine ⟨new ++ new', ?_, ?_⟩
    · rw [hbuf', hbuf, List.append_assoc]
    · rw [hahead, hahead', List.append_assoc]
  ascii := h'.ascii

theorem Keeps.refl (hascii : Ascii sc.instream) : Keeps sc sc where
  moved := ⟨[], (List.append_nil _).symm, rfl⟩
  ascii := hascii

theorem Keeps.length_ahead (h : Keeps sc sc') : sc'.ahead.length ≤ sc.ahead.length := by
  rcases h.moved with ⟨new, -, hahead⟩
  rw [hahead, List.length_append]
  exact Nat.le_add_left _ _

theorem readChar_keeps (hascii : Ascii sc.instream) (h : sc.readChar = some (ch, sc')) :
    Keeps sc sc' := by
  have hat : At sc sc.buf sc.ahead := ⟨rfl, rfl, hascii⟩
  have hgives := readChar_gives hat
  rw [h] at hgives
  cases hahead : sc.ahead with
  | nil =>
      rw [hahead] at hgives
      rcases hgives with ⟨c, sc1, heq, hat, -⟩
      cases heq
      constructor
      · refine ⟨[], ?_, ?_⟩
        · rw [hat.buf, List.append_nil]
        · rw [hahead, hat.ahead]
          rfl
      · exact hat.ascii
  | cons c rest =>
      rw [hahead] at hgives
      rcases hgives with ⟨-, sc1, heq, hat, -⟩ | ⟨-, hnone⟩
      · cases heq
        constructor
        · refine ⟨[ch], hat.buf, ?_⟩
          rw [hahead, hat.ahead]
          rfl
        · exact hat.ascii
      · cases hnone

theorem readString_keeps (k : Nat) : forall sc : Scanner, Ascii sc.instream ->
    readString quote k sc = some (closed, sc') -> Keeps sc sc' := by
  induction k with
  | zero =>
      intro sc hascii h
      cases h
      exact Keeps.refl hascii
  | succ k ih =>
      intro sc hascii h
      rcases hread : sc.readChar with - | ⟨ch, sc1⟩
      · rw [readString_none hread] at h
        cases h
      · have hkeeps := readChar_keeps hascii hread
        cases heof : sc1.eof with
        | true =>
            rw [readString_eof hread heof] at h
            cases h
            exact ⟨hkeeps.moved, hkeeps.ascii⟩
        | false =>
            cases Classical.em (ch = quote) with
            | inl hclose =>
                rw [hclose] at hread
                rw [readString_close hread heof] at h
                cases h
                exact hkeeps
            | inr hopen =>
                cases Classical.em (quote = doubleQuote ∧ ch = backslash) with
                | inl hescape =>
                    rw [hescape.right] at hread
                    rw [readString_escape hread heof hescape.left] at h
                    rcases hread2 : sc1.readChar with - | ⟨ch2, sc2⟩
                    · rw [hread2] at h
                      cases h
                    · have hkeeps2 := readChar_keeps hkeeps.ascii hread2
                      rw [hread2] at h
                      exact (hkeeps.trans hkeeps2).trans (ih sc2 hkeeps2.ascii h)
                | inr hplain =>
                    rw [readString_next hread heof hopen hplain] at h
                    exact hkeeps.trans (ih sc1 hkeeps.ascii h)

theorem readLine_keeps (k : Nat) : forall sc : Scanner, Ascii sc.instream ->
    readLine k sc = some (closed, sc') -> Keeps sc sc' := by
  induction k with
  | zero =>
      intro sc hascii h
      cases h
      exact Keeps.refl hascii
  | succ k ih =>
      intro sc hascii h
      rcases hread : sc.readChar with - | ⟨ch, sc1⟩
      · rw [readLine_none hread] at h
        cases h
      · have hkeeps := readChar_keeps hascii hread
        cases Classical.em (sc1.eof = true ∨ ch = newline) with
        | inl hend =>
            rw [readLine_end hread hend] at h
            cases h
            exact hkeeps
        | inr hgo =>
            cases Classical.em (ch = singleQuote ∨ ch = doubleQuote) with
            | inl hquote =>
                rw [readLine_quote hread hgo hquote, readRest] at h
                rcases hstring : readString ch (sc1.instream.length + 2) sc1 with - | ⟨c, sc2⟩
                · rw [hstring] at h
                  cases h
                · have hkeeps2 := hkeeps.trans (readString_keeps _ sc1 hkeeps.ascii hstring)
                  rw [hstring] at h
                  cases c with
                  | true => exact hkeeps2.trans (ih sc2 hkeeps2.ascii h)
                  | false =>
                      cases h
                      exact hkeeps2
            | inr hplain =>
                rw [readLine_next hread hgo hplain] at h
                exact hkeeps.trans (ih sc1 hkeeps.ascii h)

end Bytes

/-!
# No byte is held back
-/

section Advance

variable {sc sc' : Scanner} {ch : UInt8} {k : Nat}

theorem store_some (h : sc.store ch = some sc') :
    sc' = { sc with buf := sc.buf ++ [ch] } := by
  unfold store at h
  split at h
  · cases h
    rfl
  · cases h

theorem getChar_none (h : sc.getChar = (none, sc')) : sc'.eof = true := by
  unfold getChar at h
  split at h
  · cases h
    rfl
  · split at h
    · cases h
      rfl
    · split at h
      · cases h
      · cases h

theorem getChar_advance (sc : Scanner) : sc.getChar.2.advance = sc.advance := by
  unfold getChar
  split
  · rfl
  · split
    · rfl
    · split
      · rfl
      · rfl

/-- `read_char` holds a byte back only where it gives a backslash. -/
theorem readCharFrom_advance (k : Nat) : forall sc : Scanner, sc.instream.length < k ->
    readCharFrom k sc = some (ch, sc') ->
    sc'.eof = true ∨ ch = backslash ∨ sc'.advance = none := by
  induction k with
  | zero => exact fun _ hk => absurd hk (Nat.not_lt_zero _)
  | succ k ih =>
      intro sc hk h
      rw [readCharFrom] at h
      cases heof : sc.eof with
      | true =>
          rw [heof, if_pos rfl] at h
          cases h
          exact Or.inl heof
      | false =>
          rw [heof, if_neg Bool.false_ne_true] at h
          cases hadvance : sc.advance with
          | some c =>
              rw [hadvance] at h
              rcases Option.bind_eq_some_iff.mp h with ⟨sc1, -, heq⟩
              cases heq
              exact Or.inr (Or.inr rfl)
          | none =>
              rw [hadvance] at h
              have hsame := getChar_advance sc
              rcases hget : sc.getChar with ⟨read, sc1⟩
              rw [hget] at h hsame
              cases read with
              | none =>
                  cases h
                  exact Or.inl (getChar_none hget)
              | some c =>
                  have hstream := congrArg List.length (getChar_some hget).left
                  rw [List.length_cons] at hstream
                  dsimp only at h
                  split at h
                  · unfold readBackslash at h
                    rcases hget2 : sc1.getChar with ⟨read2, sc2⟩
                    rw [hget2] at h
                    cases read2 with
                    | none =>
                        rcases Option.bind_eq_some_iff.mp h with ⟨sc3, -, heq⟩
                        cases heq
                        exact Or.inr (Or.inl rfl)
                    | some next =>
                        have hstream2 := congrArg List.length (getChar_some hget2).left
                        rw [List.length_cons] at hstream2
                        dsimp only at h
                        split at h
                        · exact ih sc2 (by lia) h
                        · rcases Option.bind_eq_some_iff.mp h with ⟨sc3, -, heq⟩
                          cases heq
                          exact Or.inr (Or.inl rfl)
                  · rcases Option.bind_eq_some_iff.mp h with ⟨sc2, hstore, heq⟩
                    cases heq
                    rw [store_some hstore]
                    exact Or.inr (Or.inr (hsame.trans hadvance))

theorem readLine_advance (k : Nat) : forall sc : Scanner, Ascii sc.instream ->
    sc.ahead.length < k -> readLine k sc = some (true, sc') ->
    sc'.eof = true ∨ sc'.advance = none := by
  induction k with
  | zero => exact fun _ _ hk => absurd hk (Nat.not_lt_zero _)
  | succ k ih =>
      intro sc hascii hk h
      rcases hread : sc.readChar with - | ⟨ch, sc1⟩
      · rw [readLine_none hread] at h
        cases h
      · have hkeeps := readChar_keeps hascii hread
        cases Classical.em (sc1.eof = true ∨ ch = newline) with
        | inl hend =>
            rw [readLine_end hread hend] at h
            cases h
            rcases hend with heof | hnl
            · exact Or.inl heof
            · rcases readCharFrom_advance _ sc (Nat.lt_succ_self _) hread with heof | hslash | hno
              · exact Or.inl heof
              · rw [hnl] at hslash
                cases hslash
              · exact Or.inr hno
        | inr hgo =>
            have hshort : sc1.ahead.length < k := by
              have hat : At sc sc.buf sc.ahead := ⟨rfl, rfl, hascii⟩
              have hgives := readChar_gives hat
              rw [hread] at hgives
              cases hahead : sc.ahead with
              | nil =>
                  rw [hahead] at hgives
                  rcases hgives with ⟨c, sc2, heq, -, heof⟩
                  cases heq
                  exact absurd (Or.inl heof) hgo
              | cons c rest =>
                  rw [hahead] at hgives hk
                  rcases hgives with ⟨-, sc2, heq, hat, -⟩ | ⟨-, hnone⟩
                  · cases heq
                    rw [hat.ahead]
                    exact Nat.lt_of_succ_lt_succ hk
                  · cases hnone
            cases Classical.em (ch = singleQuote ∨ ch = doubleQuote) with
            | inl hquote =>
                rw [readLine_quote hread hgo hquote, readRest] at h
                rcases hstring : readString ch (sc1.instream.length + 2) sc1 with - | ⟨c, sc2⟩
                · rw [hstring] at h
                  cases h
                · have hkeeps2 := readString_keeps _ sc1 hkeeps.ascii hstring
                  rw [hstring] at h
                  cases c with
                  | true =>
                      exact ih sc2 hkeeps2.ascii
                        (Nat.lt_of_le_of_lt hkeeps2.length_ahead hshort) h
                  | false => cases h
            | inr hplain =>
                rw [readLine_next hread hgo hplain] at h
                exact ih sc1 hkeeps.ascii hshort h

end Advance

/-!
# One line
-/

section Line

variable {sc sc' : Scanner} {code : Int}

theorem line_eq (sc : Scanner) : sc.line = taken Pairing.out sc.text := by
  unfold line text
  cases sc.eof with
  | true => rfl
  | false => rfl

/-- The scanner at the begin of a call, on the bytes that it takes for positive. -/
def fresh (sc : Scanner) : Scanner :=
  clean { sc with buf := [], advance := none, unterminated := none }

theorem ahead_fresh (sc : Scanner) : sc.fresh.ahead = sc.text := by
  unfold fresh clean ahead text
  cases heof : sc.eof with
  | true => rfl
  | false => rfl

theorem ahead_clean (h : sc.eof = true ∨ sc.advance = none) : (clean sc).ahead = sc.text := by
  unfold clean ahead text
  cases heof : sc.eof with
  | true => rfl
  | false =>
      rcases h with htrue | hnone
      · rw [heof] at htrue
        cases htrue
      · rw [hnone]
        rfl

theorem length_text (sc : Scanner) : sc.text.length ≤ sc.instream.length := by
  unfold text
  split
  · exact Nat.zero_le _
  · exact Nat.le_trans (length_spliced _) (length_positive _)

theorem taken_nil {t : Text} {st : Pairing} (h : (taken st t).1 = []) : t = [] := by
  cases t with
  | nil => rfl
  | cons ch rest =>
      rw [taken] at h
      split at h
      · cases h
      · cases h

/-- Behind a whole line the rest of the text is ahead. -/
theorem readLine_text (h : readLine (sc.instream.length + 1) sc.fresh = some (true, clean sc')) :
    sc.text = sc'.buf ++ sc'.text := by
  have hascii : Ascii sc.fresh.instream := (at_clean _).ascii
  have hshort : sc.fresh.ahead.length < sc.instream.length + 1 := by
    rw [ahead_fresh]
    exact Nat.lt_succ_of_le (length_text sc)
  have hadvance := readLine_advance _ sc.fresh hascii hshort h
  have hrest : (clean sc').ahead = sc'.text := ahead_clean hadvance
  rcases (readLine_keeps _ sc.fresh hascii h).moved with ⟨new, hnew, hahead⟩
  rw [ahead_fresh, hrest] at hahead
  rw [hahead]
  exact congrArg (fun front => front ++ sc'.text) hnew.symm

/-- What a call of `sh_read_to_buf` does to the text. -/
structure Reads (sc : Scanner) (code : Int) (sc' : Scanner) : Prop where
  fits : Fits (taken Pairing.out sc.text)
  buf : sc'.buf = (taken Pairing.out sc.text).1
  unclosed : code = 1 -> (taken Pairing.out sc.text).2 ≠ Pairing.out
  stop : code = 0 -> sc.text = []
  line : code < 0 -> (taken Pairing.out sc.text).2 = Pairing.out ∧ sc'.buf ≠ [] ∧
    sc.text = sc'.buf ++ sc'.text
  codes : code = 1 ∨ code = 0 ∨ code < 0

theorem readToBuf_reads (h : sc.readToBuf = some (code, sc')) : Reads sc code sc' := by
  have hfits : Fits (taken Pairing.out sc.text) := by
    rw [← line_eq, ← decide_eq_true_eq (p := Fits sc.line), ← readToBuf_isSome, h]
    rfl
  have hends := readLine_line sc
  unfold readToBuf at h
  rcases hrun : readLine (sc.instream.length + 1)
    { sc with buf := [], advance := none, unterminated := none } with - | ⟨closed, sc1⟩
  · rw [hrun] at h
    cases h
  · have hclean : readLine (sc.instream.length + 1) sc.fresh = some (closed, clean sc1) := by
      unfold fresh
      rw [readLine_clean, hrun]
      rfl
    rw [show readLine (sc.instream.length + 1) (clean _) = _ from hclean, line_eq] at hends
    rcases hends with ⟨-, sc2, heq, hbuf, hnil⟩ | ⟨-, hnone⟩
    · rcases Prod.mk.inj (Option.some.inj heq) with ⟨hclosed, hsc2⟩
      rw [← hsc2, List.nil_append] at hbuf
      have hbuf1 : sc1.buf = (taken Pairing.out sc.text).1 := hbuf
      rw [hrun] at h
      cases closed with
      | false =>
          cases h
          have hopen := of_decide_eq_false hclosed.symm
          exact ⟨hfits, hbuf1, fun _ => hopen, fun h0 => absurd h0 (by decide),
            fun hneg => absurd hneg (by decide), Or.inl rfl⟩
      | true =>
          have hout := of_decide_eq_true hclosed.symm
          have hroom : sc1.buf.length < lineBufSize := by
            rw [hbuf1]
            exact hfits.left hout
          have hif : (if sc1.buf = [] ∧ sc1.eof = true then some ((0 : Int), sc1)
              else some (-1, sc1)) = some (code, sc') := by
            rw [← h]
            exact (if_pos hroom).symm
          split at hif
          · rename_i hboth
            cases hif
            rw [hbuf1] at hboth
            exact ⟨hfits, hbuf1, fun h1 => absurd h1 (by decide), fun _ => taken_nil hboth.left,
              fun hneg => absurd hneg (by decide), Or.inr (Or.inl rfl)⟩
          · rename_i hfull
            cases hif
            have hne : sc'.buf ≠ [] := by
              intro hempty
              have heof : (clean sc').eof = true := hsc2 ▸ hnil (hbuf1.symm.trans hempty)
              exact hfull ⟨hempty, heof⟩
            exact ⟨hfits, hbuf1, fun h1 => absurd h1 (by decide), fun h0 => absurd h0 (by decide),
              fun _ => ⟨hout, hne, readLine_text hclean⟩, Or.inr (Or.inr (by decide))⟩
    · cases hnone

end Line

end Scanner

/-!
# All lines
-/

section Lines

variable {sc : Scanner} {k : Nat}

/-- The lines are cut from the front of the text, each as `sh_read_to_buf` takes it. -/
def CutFrom (lines : List Text) (rest : Text) : Prop :=
  forall before line after, lines = before ++ line :: after ->
    line ≠ [] ∧ line.length < lineBufSize ∧
      taken Pairing.out (line ++ (after.flatten ++ rest)) = (line, Pairing.out)

theorem cutFrom_nil (rest : Text) : CutFrom [] rest := by
  intro before line after heq
  cases before with
  | nil => cases heq
  | cons b before => cases heq

theorem CutFrom.cons {line rest : Text} {lines : List Text} (h : CutFrom lines rest)
    (hne : line ≠ []) (hroom : line.length < lineBufSize)
    (htaken : taken Pairing.out (line ++ (lines.flatten ++ rest)) = (line, Pairing.out)) :
    CutFrom (line :: lines) rest := by
  intro before l after heq
  cases before with
  | nil =>
      cases heq
      exact ⟨hne, hroom, htaken⟩
  | cons b before =>
      rw [List.cons_append] at heq
      exact h before l after (List.cons.inj heq).right

/--
The calls of `sh_read_to_buf` lose no byte and read none twice: the lines are the text that the
stream gives, cut behind the newlines outside the pairs of quotes.  The shell exits with 0 behind
all of it, with 1 before a quote that is open to the end, and only a line that is too long for
the buffer is written behind it.
-/
theorem readScript_cuts (sc : Scanner) (hk : sc.text.length < k) :
    exists lines rest, sc.text = lines.flatten ++ rest ∧ CutFrom lines rest ∧
      ((rest = [] ∧ sc.readScript k = some (lines, 0)) ∨
        (Fits (taken Pairing.out rest) ∧ (taken Pairing.out rest).2 ≠ Pairing.out ∧
          sc.readScript k = some (lines, 1)) ∨
        (Not (Fits (taken Pairing.out rest)) ∧ sc.readScript k = none)) := by
  induction k generalizing sc with
  | zero => exact absurd hk (Nat.not_lt_zero _)
  | succ k ih =>
      rw [Scanner.readScript]
      rcases hread : sc.readToBuf with - | ⟨code, sc1⟩
      · have hover : Not (Fits (taken Pairing.out sc.text)) := by
          have hnone := Scanner.readToBuf_isSome sc
          rw [hread, Scanner.line_eq] at hnone
          exact of_decide_eq_false hnone.symm
        exact ⟨[], sc.text, rfl, cutFrom_nil _, Or.inr (Or.inr ⟨hover, rfl⟩)⟩
      · have hreads := Scanner.readToBuf_reads hread
        simp only [Option.bind_eq_bind, Option.bind_some]
        rcases hreads.codes with hone | hzero | hneg
        · refine ⟨[], sc.text, rfl, cutFrom_nil _, Or.inr (Or.inl ?_)⟩
          rw [hone]
          exact ⟨hreads.fits, hreads.unclosed hone, rfl⟩
        · refine ⟨[], sc.text, rfl, cutFrom_nil _, Or.inl ⟨hreads.stop hzero, ?_⟩⟩
          rw [hzero]
          rfl
        · rcases hreads.line hneg with ⟨hout, hne, htext⟩
          have hpos : 0 < sc1.buf.length := List.length_pos_iff.mpr hne
          have hlen := congrArg List.length htext
          rw [List.length_append] at hlen
          rcases ih sc1 (by lia) with ⟨lines, rest, hjoined, hcut, hend⟩
          have htaken : taken Pairing.out sc.text = (sc1.buf, Pairing.out) :=
            Prod.ext hreads.buf.symm hout
          have hroom : sc1.buf.length < lineBufSize := by
            rw [hreads.buf]
            exact hreads.fits.left hout
          have hsplit : sc.text = sc1.buf ++ (lines.flatten ++ rest) := by
            rw [htext, hjoined]
          refine ⟨sc1.buf :: lines, rest, ?_, hcut.cons hne hroom ?_, ?_⟩
          · rw [List.flatten_cons, List.append_assoc]
            exact hsplit
          · rw [← hsplit]
            exact htaken
          · rw [if_neg (Int.not_le.mpr hneg)]
            rcases hend with ⟨hrest, hrun⟩ | ⟨hfits, hopen, hrun⟩ | ⟨hover, hrun⟩
            · rw [hrun]
              exact Or.inl ⟨hrest, rfl⟩
            · rw [hrun]
              exact Or.inr (Or.inl ⟨hfits, hopen, rfl⟩)
            · rw [hrun]
              exact Or.inr (Or.inr ⟨hover, rfl⟩)

/-- Two lines, of which the second has a newline in quotes, and an end without a newline. -/
theorem readScript_cuts_quoted :
    exists lines rest,
      Scanner.text ⟨[], none, [0x61, 0x0a, 0x27, 0x0a, 0x27, 0x0a, 0x62], false, 1, none⟩ =
        lines.flatten ++ rest ∧ CutFrom lines rest ∧
      ((rest = [] ∧ Scanner.readScript 8
          ⟨[], none, [0x61, 0x0a, 0x27, 0x0a, 0x27, 0x0a, 0x62], false, 1, none⟩ =
            some (lines, 0)) ∨
        (Fits (taken Pairing.out rest) ∧ (taken Pairing.out rest).2 ≠ Pairing.out ∧
          Scanner.readScript 8
            ⟨[], none, [0x61, 0x0a, 0x27, 0x0a, 0x27, 0x0a, 0x62], false, 1, none⟩ =
              some (lines, 1)) ∨
        (Not (Fits (taken Pairing.out rest)) ∧ Scanner.readScript 8
          ⟨[], none, [0x61, 0x0a, 0x27, 0x0a, 0x27, 0x0a, 0x62], false, 1, none⟩ = none)) :=
  readScript_cuts _ (by decide)

end Lines

end Shell
end NicoOS
