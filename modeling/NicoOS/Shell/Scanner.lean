import NicoOS.Shell.Parser

/-!
# The line reader of the shell

`shell/sh/sh_scanner.c` with the `getc` of the C library, on the bytes that the stream has
still to give.  The prompts are left out.
-/

namespace NicoOS
namespace Shell

def newline : UInt8 := 0x0a

def backslash : UInt8 := 0x5c

def singleQuote : UInt8 := 0x27

def doubleQuote : UInt8 := 0x22

def lineBufSize : Nat := 2048

/--
`struct sh_scanner` with the fields of the shell that it moves: the bytes in the buffer, the
byte read in advance, and the line of the message about an open quote.
-/
structure Scanner where
  buf : Text
  advance : Option UInt8
  instream : Text
  eof : Bool
  lineno : Nat
  unterminated : Option Nat
  deriving DecidableEq, Repr

namespace Scanner

/-- `get_char`; a byte that is not positive as a `char` is taken for the end. -/
def getChar (sc : Scanner) : Option UInt8 × Scanner :=
  match sc.instream with
  | [] => (none, { sc with eof := true })
  | ch :: rest =>
      if ch = 0 ∨ 0x80 ≤ ch then
        (none, { sc with instream := rest, eof := true })
      else if ch = newline then
        (some ch, { sc with instream := rest, lineno := sc.lineno + 1 })
      else
        (some ch, { sc with instream := rest })

/-- A byte at the end of the buffer; `none` stands for a write behind its last place. -/
def store (sc : Scanner) (ch : UInt8) : Option Scanner :=
  if sc.buf.length < lineBufSize then some { sc with buf := sc.buf ++ [ch] } else none

/-- `read_char` behind a backslash: a newline is ignored, and any other byte is saved. -/
def readBackslash (again : Scanner -> Option (UInt8 × Scanner)) (sc : Scanner) :
    Option (UInt8 × Scanner) :=
  match sc.getChar with
  | (none, sc) => do
      let sc <- sc.store backslash
      some (backslash, sc)
  | (some next, sc) =>
      if next = newline then again sc
      else do
        let sc <- { sc with advance := some next }.store backslash
        some (backslash, sc)

/-- `read_char`, which calls itself behind a backslash and a newline. -/
def readCharFrom : Nat -> Scanner -> Option (UInt8 × Scanner)
  | 0, sc => some (0, sc)
  | k + 1, sc =>
      if sc.eof then some (0, sc)
      else
        match sc.advance with
        | some ch => do
            let sc <- sc.store ch
            some (ch, { sc with advance := none })
        | none =>
            match sc.getChar with
            | (none, sc) => some (0xff, sc)
            | (some ch, sc) =>
                if ch = backslash then readBackslash (readCharFrom k) sc
                else do
                  let sc <- sc.store ch
                  some (ch, sc)

def readChar (sc : Scanner) : Option (UInt8 × Scanner) := readCharFrom (sc.instream.length + 1) sc

/-- The loop of `read_string`; every round takes a byte, or there are none left. -/
def readString (quote : UInt8) : Nat -> Scanner -> Option (Bool × Scanner)
  | 0, sc => some (false, sc)
  | k + 1, sc => do
      let (ch, sc) <- sc.readChar
      if sc.eof then
        some (false, { sc with unterminated := some sc.lineno })
      else if ch = quote then
        some (true, sc)
      else if quote = doubleQuote ∧ ch = backslash then do
        let (_, sc) <- sc.readChar
        readString quote k sc
      else
        readString quote k sc

/-- The loop of `sh_read_to_buf`, which ends with `false` at a syntax error. -/
def readLine : Nat -> Scanner -> Option (Bool × Scanner)
  | 0, sc => some (true, sc)
  | k + 1, sc => do
      let (ch, sc) <- sc.readChar
      if sc.eof ∨ ch = newline then
        some (true, sc)
      else if ch = singleQuote ∨ ch = doubleQuote then do
        let (closed, sc) <- sc.readString ch (sc.instream.length + 2)
        if closed then readLine k sc else some (false, sc)
      else
        readLine k sc

end Scanner

/-- `sh_read_to_buf`; `none` stands for a write behind the buffer. -/
def shReadToBuf (stream : Text) (lineno : Nat) : Option (Int × Scanner) := do
  let (closed, sc) <- Scanner.readLine (stream.length + 1) ⟨[], none, stream, false, lineno, none⟩
  if closed then
    if sc.buf.length < lineBufSize then
      if sc.buf = [] ∧ sc.eof = true then some (0, sc) else some (-1, sc)
    else none
  else
    some (1, sc)

/-!
# The text ahead
-/

/-- The bytes of a stream without the pairs of a backslash and a newline. -/
def spliced : Text -> Text
  | [] => []
  | [ch] => [ch]
  | ch :: next :: rest =>
      if ch = backslash then
        if next = newline then spliced rest else ch :: next :: spliced rest
      else
        ch :: spliced (next :: rest)

/-- The bytes that `getc` gives as positive characters. -/
def Ascii (stream : Text) : Prop := forall ch, ch ∈ stream -> ch ≠ 0 ∧ ch < 0x80

theorem ascii_of_all {stream : Text}
    (h : stream.all (fun ch => decide (ch ≠ 0) && decide (ch < 0x80)) = true) : Ascii stream := by
  intro ch hch
  have hboth := List.all_eq_true.mp h ch hch
  rw [Bool.and_eq_true, decide_eq_true_eq, decide_eq_true_eq] at hboth
  exact hboth

namespace Scanner

def ahead (sc : Scanner) : Text :=
  if sc.eof then [] else sc.advance.toList ++ spliced sc.instream

/-- The reader has the bytes `b` in the buffer and the text `t` before it. -/
structure At (sc : Scanner) (b t : Text) : Prop where
  buf : sc.buf = b
  ahead : sc.ahead = t
  ascii : Ascii sc.instream

end Scanner

/-!
# Pairs of quotes
-/

/-- Where a scan stands that takes every quote as the begin or the end of a string. -/
inductive Pairing where
  | out
  | quoted (quote : UInt8)
  | escaped
  deriving DecidableEq, Repr

def Pairing.step : Pairing -> UInt8 -> Pairing
  | Pairing.out, ch =>
      if ch = singleQuote ∨ ch = doubleQuote then Pairing.quoted ch else Pairing.out
  | Pairing.quoted quote, ch =>
      if ch = quote then Pairing.out
      else if quote = doubleQuote ∧ ch = backslash then Pairing.escaped
      else Pairing.quoted quote
  | Pairing.escaped, _ => Pairing.quoted doubleQuote

/-- The text up to the first newline outside the pairs of quotes, and where the scan ends. -/
def taken : Pairing -> Text -> Text × Pairing
  | st, [] => ([], st)
  | st, ch :: rest =>
      if st = Pairing.out ∧ ch = newline then ([ch], Pairing.out)
      else (ch :: (taken (st.step ch) rest).1, (taken (st.step ch) rest).2)

/-!
# Single bytes
-/

namespace Scanner

/-- A byte of the text goes to the end of the buffer, unless the buffer is full. -/
def Gives (r : Option (UInt8 × Scanner)) (b : Text) : Text -> Prop
  | [] => exists ch sc, r = some (ch, sc) ∧ At sc b [] ∧ sc.eof = true
  | ch :: rest =>
      (b.length < lineBufSize ∧ exists sc, r = some (ch, sc) ∧ At sc (b ++ [ch]) rest ∧
        (sc.eof = true -> rest = [] ∧ ch = backslash)) ∨
      (lineBufSize ≤ b.length ∧ r = none)

section Bytes

variable {sc : Scanner} {b t rest : Text} {ch : UInt8}

theorem spliced_cons (h : ch ≠ backslash) : spliced (ch :: rest) = ch :: spliced rest := by
  cases rest with
  | nil => rfl
  | cons next rest => rw [spliced, if_neg h]

theorem getChar_nil (h : sc.instream = []) : sc.getChar = (none, { sc with eof := true }) := by
  simp [getChar, h]

theorem getChar_cons (h : sc.instream = ch :: rest) (hascii : Ascii sc.instream) :
    exists n, sc.getChar = (some ch, { sc with instream := rest, lineno := n }) := by
  rw [h] at hascii
  rcases hascii ch List.mem_cons_self with ⟨hzero, hlt⟩
  have hpos : Not (ch = 0 ∨ 0x80 ≤ ch) := by
    intro hor
    rcases hor with heq | hge
    · exact hzero heq
    · exact UInt8.not_le.mpr hlt hge
  unfold getChar
  rw [h]
  dsimp only
  rw [if_neg hpos]
  by_cases hnl : ch = newline
  · exact ⟨sc.lineno + 1, if_pos hnl⟩
  · exact ⟨sc.lineno, if_neg hnl⟩

theorem ahead_of_eof (h : sc.eof = true) : sc.ahead = [] := by
  unfold ahead
  rw [if_pos h]

theorem ahead_of_open (h : sc.eof = false) :
    sc.ahead = sc.advance.toList ++ spliced sc.instream := by
  unfold ahead
  rw [h]
  rfl

theorem ahead_of_none (h : sc.eof = false) (hadvance : sc.advance = none) :
    sc.ahead = spliced sc.instream := by
  rw [ahead_of_open h, hadvance]
  rfl

theorem gives_store (sc : Scanner) (f : Scanner -> Scanner) (h : sc.buf = b)
    (hbuf : (f { sc with buf := b ++ [ch] }).buf = b ++ [ch])
    (hahead : (f { sc with buf := b ++ [ch] }).ahead = rest)
    (hascii : Ascii (f { sc with buf := b ++ [ch] }).instream)
    (heof : (f { sc with buf := b ++ [ch] }).eof = true -> rest = [] ∧ ch = backslash) :
    Gives (sc.store ch >>= fun sc => some (ch, f sc)) b (ch :: rest) := by
  unfold store
  rw [h]
  by_cases hfull : b.length < lineBufSize
  · left
    rw [if_pos hfull]
    exact ⟨hfull, f { sc with buf := b ++ [ch] }, rfl, ⟨hbuf, hahead, hascii⟩, heof⟩
  · right
    rw [if_neg hfull]
    exact ⟨Nat.le_of_not_lt hfull, rfl⟩

theorem Ascii.tail (h : Ascii (ch :: rest)) : Ascii rest :=
  fun c hc => h c (List.mem_cons_of_mem ch hc)

theorem readBackslash_gives (sc : Scanner) {again : Scanner -> Option (UInt8 × Scanner)}
    (hbuf : sc.buf = b) (heof : sc.eof = false) (hascii : Ascii sc.instream)
    (hagain : forall n next after, sc.instream = next :: after -> Ascii after ->
      Gives (again { sc with instream := after, lineno := n }) b (spliced after)) :
    Gives (readBackslash again sc) b (spliced (backslash :: sc.instream)) := by
  unfold readBackslash
  cases hstream : sc.instream with
  | nil =>
      rw [getChar_nil hstream]
      exact gives_store { sc with eof := true } (fun sc => sc) hbuf rfl (ahead_of_eof rfl) hascii
        (fun _ => ⟨rfl, rfl⟩)
  | cons next after =>
      rcases getChar_cons hstream hascii with ⟨n, hget⟩
      have htail : Ascii after := Ascii.tail (hstream ▸ hascii)
      rw [hget, spliced, if_pos rfl]
      dsimp only
      by_cases hnl : next = newline
      · rw [if_pos hnl, if_pos hnl]
        exact hagain n next after hstream htail
      · rw [if_neg hnl, if_neg hnl]
        exact gives_store { sc with instream := after, lineno := n, advance := some next }
          (fun sc => sc) hbuf rfl (ahead_of_open heof) htail
          (fun htrue => absurd (heof.symm.trans htrue) Bool.false_ne_true)

theorem readCharFrom_gives (k : Nat) : forall (sc : Scanner) (t : Text), At sc b t ->
    sc.instream.length < k -> Gives (readCharFrom k sc) b t := by
  induction k with
  | zero => exact fun sc _ _ hk => absurd hk (Nat.not_lt_zero _)
  | succ k ih =>
      intro sc t h hk
      rw [<- h.ahead, readCharFrom]
      cases heof : sc.eof with
      | true =>
          rw [ahead_of_eof heof]
          exact ⟨0, sc, rfl, ⟨h.buf, ahead_of_eof heof, h.ascii⟩, heof⟩
      | false =>
          have hopen : sc.eof = true -> False :=
            fun htrue => absurd (heof.symm.trans htrue) Bool.false_ne_true
          rw [ahead_of_open heof, if_neg Bool.false_ne_true]
          cases hadvance : sc.advance with
          | some ch =>
              exact gives_store sc (fun sc => { sc with advance := none }) h.buf rfl
                (ahead_of_open heof) h.ascii (fun htrue => (hopen htrue).elim)
          | none =>
              cases hstream : sc.instream with
              | nil =>
                  rw [getChar_nil hstream]
                  exact ⟨0xff, _, rfl, ⟨h.buf, ahead_of_eof rfl, h.ascii⟩, rfl⟩
              | cons ch rest =>
                  rcases getChar_cons hstream h.ascii with ⟨n, hget⟩
                  have htail : Ascii rest := Ascii.tail (hstream ▸ h.ascii)
                  rw [hstream, List.length_cons] at hk
                  rw [hget]
                  dsimp only
                  by_cases hslash : ch = backslash
                  · rw [if_pos hslash, hslash]
                    apply readBackslash_gives { sc with instream := rest, lineno := n } h.buf heof
                      htail
                    intro m next after hrest hafter
                    have hlen : rest.length = after.length + 1 := congrArg List.length hrest
                    apply ih
                    · exact ⟨h.buf, ahead_of_none heof hadvance, hafter⟩
                    · show after.length < k
                      omega
                  · rw [if_neg hslash, spliced_cons hslash]
                    exact gives_store { sc with instream := rest, lineno := n } (fun sc => sc) h.buf
                      rfl (ahead_of_none heof hadvance) htail
                      (fun htrue => (hopen htrue).elim)

/-- `read_char` with as many rounds as the stream has bytes. -/
theorem readChar_gives (h : At sc b t) : Gives sc.readChar b t :=
  readCharFrom_gives _ sc t h (Nat.lt_succ_self _)

end Bytes

/-!
# Lines
-/

section Lines

variable {sc sc' sc2 : Scanner} {b t rest : Text} {ch c quote : UInt8} {k m : Nat}

theorem readString_none (h : sc.readChar = none) : readString quote (k + 1) sc = none := by
  simp [readString, h]

theorem readString_eof (h : sc.readChar = some (ch, sc')) (heof : sc'.eof = true) :
    readString quote (k + 1) sc = some (false, { sc' with unterminated := some sc'.lineno }) := by
  simp [readString, h, heof]

theorem readString_close (h : sc.readChar = some (quote, sc')) (heof : sc'.eof = false) :
    readString quote (k + 1) sc = some (true, sc') := by
  simp [readString, h, heof]

theorem readString_escape (h : sc.readChar = some (backslash, sc')) (heof : sc'.eof = false)
    (hquote : quote = doubleQuote) :
    readString quote (k + 1) sc = sc'.readChar >>= fun r => readString quote k r.2 := by
  have hne : backslash ≠ doubleQuote := by decide
  simp [readString, h, heof, hquote, hne]

theorem readString_next (h : sc.readChar = some (ch, sc')) (heof : sc'.eof = false)
    (hquote : ch ≠ quote) (hescape : Not (quote = doubleQuote ∧ ch = backslash)) :
    readString quote (k + 1) sc = readString quote k sc' := by
  simp [readString, h, heof, hquote, hescape]

theorem readLine_none (h : sc.readChar = none) : readLine (k + 1) sc = none := by
  simp [readLine, h]

theorem readLine_end (h : sc.readChar = some (ch, sc')) (hend : sc'.eof = true ∨ ch = newline) :
    readLine (k + 1) sc = some (true, sc') := by
  simp [readLine, h, hend]

def readRest (quote : UInt8) (m k : Nat) (sc : Scanner) : Option (Bool × Scanner) :=
  readString quote m sc >>= fun r => if r.1 then readLine k r.2 else some (false, r.2)

theorem readLine_quote (h : sc.readChar = some (ch, sc'))
    (hend : Not (sc'.eof = true ∨ ch = newline))
    (hquote : ch = singleQuote ∨ ch = doubleQuote) :
    readLine (k + 1) sc = readRest ch (sc'.instream.length + 2) k sc' := by
  simp [readLine, h, hend, hquote, readRest]

theorem readLine_next (h : sc.readChar = some (ch, sc'))
    (hend : Not (sc'.eof = true ∨ ch = newline))
    (hquote : Not (ch = singleQuote ∨ ch = doubleQuote)) :
    readLine (k + 1) sc = readLine k sc' := by
  simp [readLine, h, hend, hquote]

/-- The reader has taken a text and says whether it ends outside quotes, or overruns the buffer. -/
def Ends (r : Option (Bool × Scanner)) (b : Text) (text : Text × Pairing) : Prop :=
  (b.length + text.1.length ≤ lineBufSize ∧ exists sc,
      r = some (decide (text.2 = Pairing.out), sc) ∧ sc.buf = b ++ text.1 ∧
      (text.1 = [] -> sc.eof = true)) ∨
    (lineBufSize < b.length + text.1.length ∧ r = none)

theorem Ends.cons {r : Option (Bool × Scanner)} {text : Text × Pairing}
    (h : Ends r (b ++ [c]) text) : Ends r b (c :: text.1, text.2) := by
  have hlen : (b ++ [c]).length + text.1.length = b.length + (c :: text.1).length := by
    simp only [List.length_append, List.length_cons, List.length_nil]
    omega
  rcases h with ⟨hfits, sc, hrun, hbuf, -⟩ | ⟨hover, hrun⟩
  · left
    refine ⟨hlen ▸ hfits, sc, hrun, ?_, fun hnil => nomatch hnil⟩
    rw [hbuf, List.append_assoc]
    rfl
  · exact Or.inr ⟨hlen ▸ hover, hrun⟩

theorem ends_full {r : Option (Bool × Scanner)} {us : Text} {st : Pairing}
    (hfull : lineBufSize ≤ b.length) (hrun : r = none) : Ends r b (c :: us, st) := by
  right
  refine ⟨?_, hrun⟩
  rw [List.length_cons]
  omega

theorem length_spliced (stream : Text) : (spliced stream).length ≤ stream.length := by
  fun_induction spliced stream with
  | case1 => exact Nat.le_refl _
  | case2 => exact Nat.le_refl _
  | case3 rest ih =>
      simp only [List.length_cons]
      omega
  | case4 next rest _ ih =>
      simp only [List.length_cons]
      omega
  | case5 ch next rest _ ih =>
      simp only [List.length_cons] at ih ⊢
      omega

theorem length_ahead (sc : Scanner) : sc.ahead.length < sc.instream.length + 2 := by
  have hlen := length_spliced sc.instream
  unfold ahead
  split
  · simp
  · cases sc.advance with
    | none =>
        simp only [Option.toList_none, List.nil_append]
        omega
    | some ch =>
        simp only [Option.toList_some, List.cons_append, List.nil_append, List.length_cons]
        omega

section Rounds

variable {n : Nat}

/-- What the two loops do on texts of at most `n` bytes. -/
def TakesUpTo (n : Nat) : Prop := forall t : Text, t.length ≤ n ->
  (forall (k : Nat) (sc : Scanner) (b : Text), At sc b t -> b.length ≤ lineBufSize ->
    t.length < k -> Ends (readLine k sc) b (taken Pairing.out t)) ∧
  (forall (quote : UInt8) (m k : Nat) (sc : Scanner) (b : Text),
    quote = singleQuote ∨ quote = doubleQuote -> At sc b t -> b.length ≤ lineBufSize ->
    t.length < m -> t.length < k ->
    Ends (readRest quote m k sc) b (taken (Pairing.quoted quote) t))

theorem readLine_nil (h : At sc b []) (hfits : b.length ≤ lineBufSize) :
    Ends (readLine (k + 1) sc) b (taken Pairing.out []) := by
  rcases readChar_gives h with ⟨ch, sc', hread, hat, heof⟩
  left
  refine ⟨hfits, sc', readLine_end hread (Or.inl heof), ?_, fun _ => heof⟩
  rw [hat.buf]
  exact (List.append_nil b).symm

theorem readLine_cons (ih : TakesUpTo n) (h : At sc b (c :: rest)) (hn : rest.length ≤ n)
    (hk : rest.length < k) : Ends (readLine (k + 1) sc) b (taken Pairing.out (c :: rest)) := by
  rcases readChar_gives h with ⟨hroom, sc', hread, hat, heof⟩ | ⟨hfull, hread⟩
  · have hone : (b ++ [c]).length ≤ lineBufSize := by
      rw [List.length_append]
      exact hroom
    have hdone : taken Pairing.out (c :: rest) = ([c], Pairing.out) ->
        (sc'.eof = true ∨ c = newline) ->
        Ends (readLine (k + 1) sc) b (taken Pairing.out (c :: rest)) := by
      intro htaken hend
      rw [htaken]
      left
      refine ⟨?_, sc', readLine_end hread hend, hat.buf, fun hnil => nomatch hnil⟩
      rw [List.length_append] at hone
      exact hone
    by_cases hnl : c = newline
    · rw [hnl] at hdone ⊢
      exact hdone rfl (Or.inr rfl)
    · cases hend : sc'.eof with
      | true =>
          rcases heof hend with ⟨hrest, hslash⟩
          rw [hrest, hslash] at hdone ⊢
          exact hdone rfl (Or.inl hend)
      | false =>
          have hgo : Not (sc'.eof = true ∨ c = newline) := by
            intro hor
            rcases hor with htrue | hnewline
            · exact Bool.false_ne_true (hend.symm.trans htrue)
            · exact hnl hnewline
          rw [taken, if_neg (fun hboth => hnl hboth.right), Pairing.step]
          by_cases hquote : c = singleQuote ∨ c = doubleQuote
          · rw [if_pos hquote, readLine_quote hread hgo hquote]
            apply Ends.cons
            apply (ih rest hn).right _ _ _ _ _ hquote hat hone _ hk
            rw [<- hat.ahead]
            exact length_ahead sc'
          · rw [if_neg hquote, readLine_next hread hgo hquote]
            exact Ends.cons ((ih rest hn).left _ _ _ hat hone hk)
  · rw [readLine_none hread, taken]
    split
    · exact ends_full hfull rfl
    · exact ends_full hfull rfl

theorem readRest_nil (h : At sc b []) (hfits : b.length ≤ lineBufSize) {st : Pairing}
    (hst : st ≠ Pairing.out) : Ends (readRest quote (m + 1) k sc) b ([], st) := by
  rcases readChar_gives h with ⟨ch, sc', hread, hat, heof⟩
  left
  refine ⟨hfits, { sc' with unterminated := some sc'.lineno }, ?_, ?_, fun _ => heof⟩
  · rw [readRest, readString_eof hread heof, decide_eq_false hst]
    rfl
  · exact hat.buf.trans (List.append_nil b).symm

/-- Behind a backslash in double quotes the next byte does not close them. -/
theorem readRest_escape (ih : TakesUpTo n) (h : At sc b rest) (hfits : b.length ≤ lineBufSize)
    (hn : rest.length ≤ n) (hm : rest.length < m) (hk : rest.length < k) :
    Ends (sc.readChar >>= fun r => readRest doubleQuote m k r.2) b
      (taken Pairing.escaped rest) := by
  cases rest with
  | nil =>
      rcases readChar_gives h with ⟨ch, sc', hread, hat, heof⟩
      rw [hread]
      cases m with
      | zero => exact absurd hm (Nat.not_lt_zero _)
      | succ m => exact readRest_nil hat hfits (fun hst => nomatch hst)
  | cons c rest =>
      rw [List.length_cons] at hn hm hk
      rw [taken, if_neg (fun hboth => nomatch hboth.left), Pairing.step]
      rcases readChar_gives h with ⟨hroom, sc', hread, hat, -⟩ | ⟨hfull, hread⟩
      · rw [hread]
        apply Ends.cons
        apply (ih rest (by omega)).right _ _ _ _ _ (Or.inr rfl) hat _ (by omega) (by omega)
        rw [List.length_append]
        exact hroom
      · rw [hread]
        exact ends_full hfull rfl

theorem readRest_cons (ih : TakesUpTo n) (hquote : quote = singleQuote ∨ quote = doubleQuote)
    (h : At sc b (c :: rest)) (hn : rest.length ≤ n) (hm : rest.length < m)
    (hk : rest.length < k) :
    Ends (readRest quote (m + 1) k sc) b (taken (Pairing.quoted quote) (c :: rest)) := by
  have hslash : backslash ≠ quote := by
    rcases hquote with heq | heq
    · rw [heq]
      decide
    · rw [heq]
      decide
  rw [taken, if_neg (fun hboth => nomatch hboth.left), Pairing.step]
  rcases readChar_gives h with ⟨hroom, sc', hread, hat, heof⟩ | ⟨hfull, hread⟩
  · have hone : (b ++ [c]).length ≤ lineBufSize := by
      rw [List.length_append]
      exact hroom
    cases hend : sc'.eof with
    | true =>
        rcases heof hend with ⟨hrest, hc⟩
        rw [hrest, hc, if_neg hslash]
        left
        refine ⟨?_, { sc' with unterminated := some sc'.lineno }, ?_, ?_, fun hnil => nomatch hnil⟩
        · rw [List.length_append] at hone
          exact hone
        · rw [readRest, readString_eof hread hend]
          split
          · rfl
          · rfl
        · rw [hc] at hat
          exact hat.buf
    | false =>
        by_cases hclose : c = quote
        · rw [hclose] at hread hat hone ⊢
          rw [if_pos rfl, readRest, readString_close hread hend]
          exact Ends.cons ((ih rest hn).left _ _ _ hat hone hk)
        · rw [if_neg hclose]
          by_cases hescape : quote = doubleQuote ∧ c = backslash
          · rcases hescape with ⟨hdouble, hc⟩
            rw [if_pos ⟨hdouble, hc⟩, hc]
            rw [hc] at hread hat hone
            rw [hdouble] at hslash ⊢
            rw [readRest, readString_escape hread hend rfl, bind_assoc]
            exact Ends.cons (readRest_escape ih hat hone hn hm hk)
          · rw [if_neg hescape, readRest, readString_next hread hend hclose hescape]
            exact Ends.cons ((ih rest hn).right _ _ _ _ _ hquote hat hone hm hk)
  · rw [readRest, readString_none hread]
    exact ends_full hfull rfl

/-- The reader takes the text up to the first newline outside quotes. -/
theorem takesUpTo (n : Nat) : TakesUpTo n := by
  induction n with
  | zero =>
      intro t hn
      have hnil : t = [] := List.length_eq_zero_iff.mp (Nat.le_zero.mp hn)
      rw [hnil]
      constructor
      · intro k sc b hat hfits hk
        cases k with
        | zero => exact absurd hk (Nat.not_lt_zero _)
        | succ k => exact readLine_nil hat hfits
      · intro quote m k sc b hquote hat hfits hm hk
        cases m with
        | zero => exact absurd hm (Nat.not_lt_zero _)
        | succ m => exact readRest_nil hat hfits (fun hst => nomatch hst)
  | succ n ih =>
      intro t hn
      cases t with
      | nil => exact ih [] (Nat.zero_le _)
      | cons c rest =>
          rw [List.length_cons] at hn
          constructor
          · intro k sc b hat _ hk
            cases k with
            | zero => exact absurd hk (Nat.not_lt_zero _)
            | succ k =>
                exact readLine_cons ih hat (Nat.le_of_succ_le_succ hn) (Nat.lt_of_succ_lt_succ hk)
          · intro quote m k sc b hquote hat _ hm hk
            cases m with
            | zero => exact absurd hm (Nat.not_lt_zero _)
            | succ m =>
                exact readRest_cons ih hquote hat (Nat.le_of_succ_le_succ hn)
                  (Nat.lt_of_succ_lt_succ hm) (Nat.lt_of_succ_lt hk)

end Rounds

theorem readLine_taken (stream : Text) (lineno : Nat) (h : Ascii stream) :
    Ends (readLine (stream.length + 1) ⟨[], none, stream, false, lineno, none⟩) []
      (taken Pairing.out (spliced stream)) := by
  apply (takesUpTo _ _ (Nat.le_refl _)).left
  · exact ⟨rfl, rfl, h⟩
  · exact Nat.zero_le _
  · exact Nat.lt_succ_of_le (length_spliced stream)

end Lines

end Scanner

end Shell
end NicoOS
