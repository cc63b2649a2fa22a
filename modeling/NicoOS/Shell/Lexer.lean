import NicoOS.Shell.Scanner

/-!
# The lexer of the shell

`skip_whitespace`, `read_string`, `read_string_with_quotes` and `scan_tok` of
`shell/sh/sh_parser.c`, on the bytes before the `NUL` of the buffer.
-/

namespace NicoOS
namespace Shell
namespace Lexer

def isSymbol (ch : UInt8) : Bool :=
  ch = 0x3c || ch = 0x3e || ch = 0x26 || ch = 0x7c || ch = 0x3b || ch = 0x28 || ch = 0x29

def isWhitespace (ch : UInt8) : Bool :=
  ch = 0x20 || ch = newline || ch = 0x0d || ch = 0x09 || ch = 0x0c

def isQuote (ch : UInt8) : Bool := ch = singleQuote || ch = doubleQuote

def hash : UInt8 := 0x23

def endsComment (ch : UInt8) : Bool := ch = newline || ch = 0x0d

def skipWhitespace (p : Text) : Text := p.dropWhile isWhitespace

def skipComment (p : Text) : Text := p.dropWhile (fun ch => !endsComment ch)

def readString : Text -> Text
  | [] => []
  | [ch] => if isSymbol ch || isWhitespace ch then [ch] else []
  | ch :: next :: rest =>
      if isSymbol ch || isWhitespace ch then ch :: next :: rest
      else if ch = backslash then readString rest
      else readString (next :: rest)

def readStringWithQuotes (close : UInt8) : Text -> Text
  | [] => []
  | [_] => []
  | ch :: next :: rest =>
      if ch = close then next :: rest
      else if ch = backslash ∧ close = doubleQuote then readStringWithQuotes close rest
      else readStringWithQuotes close (next :: rest)

/-- The token ahead; a string is given by its place in the buffer and its length. -/
inductive Peek where
  | eof
  | operator (tok : Token)
  | string (p : Text) (len : Int)
  deriving DecidableEq, Repr

def doubled (ch : UInt8) (one two : Token) (p : Text) : Peek × Text :=
  match p with
  | next :: rest => if next = ch then (Peek.operator two, rest) else (Peek.operator one, p)
  | [] => (Peek.operator one, p)

/-- `scan_tok` where a token begins, with what is left. -/
def scanAt (start : Text) : Peek × Text :=
  match start with
  | [] => (Peek.eof, [])
  | ch :: p =>
      if ch = 0x3e then doubled ch Token.gt Token.gtgt p
      else if ch = 0x3c then (Peek.operator Token.lt, p)
      else if ch = 0x28 then (Peek.operator Token.lparen, p)
      else if ch = 0x29 then (Peek.operator Token.rparen, p)
      else if ch = 0x26 then doubled ch Token.back Token.and p
      else if ch = 0x7c then doubled ch Token.pipe Token.or p
      else if ch = 0x3b then (Peek.operator Token.semi, p)
      else if isQuote ch then
        let rest := readStringWithQuotes ch p
        (Peek.string p ((start.length : Int) - rest.length - 2), rest)
      else
        let rest := readString start
        (Peek.string start ((start.length : Int) - rest.length), rest)

/-- Where `scan_tok` finds the next token; it calls itself behind a comment. -/
def tokenStart : Nat -> Text -> Text
  | 0, p => p
  | k + 1, p =>
      match skipWhitespace p with
      | [] => []
      | ch :: rest => if ch = hash then tokenStart k (skipComment rest) else ch :: rest

/-- The tokens of a buffer up to `TOKEN_EOF`, with the text at which each begins. -/
def lexFrom : Nat -> Text -> List (Text × Peek)
  | 0, _ => []
  | k + 1, p =>
      match tokenStart (p.length + 1) p with
      | [] => []
      | ch :: rest =>
          (ch :: rest, (scanAt (ch :: rest)).1) :: lexFrom k (scanAt (ch :: rest)).2

def lex (p : Text) : List (Text × Peek) := lexFrom (p.length + 1) p

/-!
# Open quotes
-/

def closes (close : UInt8) : Text -> Bool
  | [] => false
  | [ch] => decide (ch = close)
  | ch :: next :: rest =>
      if ch = close then true
      else if ch = backslash ∧ close = doubleQuote then closes close rest
      else closes close (next :: rest)

/-- A token that begins with a quote ends with it. -/
def terminated : Text -> Bool
  | [] => true
  | ch :: rest => !isQuote ch || closes ch rest

/-- No quoted string of the text runs into its end. -/
def Whole (p : Text) : Prop := forall x, x ∈ lex p -> terminated x.1 = true

def InBuffer (buf : Text) : Peek -> Prop
  | Peek.string p len => p <:+ buf ∧ 0 ≤ len ∧ len ≤ (p.length : Int)
  | _ => True

/-- Where a scan stands that reads tokens. -/
inductive State where
  | gap
  | word
  | wordEscape
  | comment
  | quoted (quote : UInt8)
  | quotedEscape
  deriving DecidableEq, Repr

namespace State

def inWord (ch : UInt8) : State :=
  if isSymbol ch || isWhitespace ch then gap
  else if ch = backslash then wordEscape
  else word

def step : State -> UInt8 -> State
  | gap, ch =>
      if ch = hash then comment
      else if isQuote ch then quoted ch
      else inWord ch
  | word, ch => inWord ch
  | wordEscape, _ => word
  | comment, ch => if endsComment ch then gap else comment
  | quoted quote, ch =>
      if ch = quote then gap
      else if ch = backslash ∧ quote = doubleQuote then quotedEscape
      else quoted quote
  | quotedEscape, _ => quoted doubleQuote

def isOpen : State -> Bool
  | quoted _ | quotedEscape => true
  | _ => false

def run (st : State) (p : Text) : State := p.foldl step st

end State

/-!
# What a token does to the scan
-/

section Scans

open State

variable {ch next close : UInt8} {p rest : Text} {st : State}

theorem run_cons (st : State) (ch : UInt8) (p : Text) : run st (ch :: p) = run (st.step ch) p := rfl

theorem gap_of_whitespace (h : isWhitespace ch = true) : gap.step ch = gap := by
  simp only [isWhitespace, Bool.or_eq_true, decide_eq_true_eq] at h
  rcases h with (((h | h) | h) | h) | h
  · rw [h]
    rfl
  · rw [h]
    rfl
  · rw [h]
    rfl
  · rw [h]
    rfl
  · rw [h]
    rfl

theorem gap_of_symbol (h : isSymbol ch = true) : gap.step ch = gap := by
  simp only [isSymbol, Bool.or_eq_true, decide_eq_true_eq] at h
  rcases h with (((((h | h) | h) | h) | h) | h) | h
  · rw [h]
    rfl
  · rw [h]
    rfl
  · rw [h]
    rfl
  · rw [h]
    rfl
  · rw [h]
    rfl
  · rw [h]
    rfl
  · rw [h]
    rfl

theorem gap_of_special (h : (isSymbol ch || isWhitespace ch) = true) : gap.step ch = gap := by
  rcases Bool.or_eq_true_iff.mp h with hsymbol | hspace
  · exact gap_of_symbol hsymbol
  · exact gap_of_whitespace hspace

theorem gap_of_endsComment (h : endsComment ch = true) : gap.step ch = gap := by
  simp only [endsComment, Bool.or_eq_true, decide_eq_true_eq] at h
  rcases h with h | h
  · rw [h]
    rfl
  · rw [h]
    rfl

theorem word_of_special (h : (isSymbol ch || isWhitespace ch) = true) : word.step ch = gap :=
  if_pos h

theorem isOpen_inWord (h : Not ((isSymbol ch || isWhitespace ch) = true)) :
    (word.step ch).isOpen = false := by
  show (inWord ch).isOpen = false
  unfold inWord
  rw [if_neg h]
  split
  · rfl
  · rfl

theorem run_readString (p : Text) : (run word p).isOpen = (run gap (readString p)).isOpen := by
  fun_induction readString p with
  | case1 => rfl
  | case2 ch h =>
      rw [run_cons, run_cons, word_of_special h, gap_of_special h]
  | case3 ch h =>
      rw [run_cons]
      exact isOpen_inWord h
  | case4 ch next rest h =>
      rw [run_cons, run_cons gap, word_of_special h, gap_of_special h]
  | case5 next rest h ih =>
      rw [<- ih, run_cons]
      rfl
  | case6 ch next rest h hslash ih =>
      have hstep : word.step ch = word := by
        show inWord ch = word
        unfold inWord
        rw [if_neg h, if_neg hslash]
      rw [<- ih, run_cons, hstep]

theorem readString_suffix (p : Text) : readString p <:+ p := by
  fun_induction readString p with
  | case1 => exact List.suffix_refl _
  | case2 => exact List.suffix_refl _
  | case3 => exact List.nil_suffix
  | case4 => exact List.suffix_refl _
  | case5 next rest _ ih =>
      exact (ih.trans (List.suffix_cons next rest)).trans (List.suffix_cons _ _)
  | case6 ch next rest _ _ ih => exact ih.trans (List.suffix_cons ch _)

theorem step_quoted_close : (quoted close).step close = gap := if_pos rfl

theorem step_quoted_escape (hne : backslash ≠ close) (hclose : close = doubleQuote) :
    (quoted close).step backslash = quotedEscape := by
  show (if backslash = close then gap else _) = _
  rw [if_neg hne]
  exact if_pos ⟨rfl, hclose⟩

theorem step_quoted_next (hne : ch ≠ close) (hescape : Not (ch = backslash ∧ close = doubleQuote)) :
    (quoted close).step ch = quoted close := by
  show (if ch = close then gap else _) = _
  rw [if_neg hne]
  exact if_neg hescape

theorem run_quoted_closed (p : Text) : closes close p = true ->
    run (quoted close) p = run gap (readStringWithQuotes close p) := by
  fun_induction closes close p with
  | case1 => exact fun h => nomatch h
  | case2 ch =>
      intro h
      have hch : ch = close := of_decide_eq_true h
      rw [run_cons, hch, step_quoted_close]
      rfl
  | case3 next rest =>
      intro _
      rw [readStringWithQuotes, if_pos rfl, run_cons, step_quoted_close]
  | case4 ch next rest hne hescape ih =>
      intro h
      rcases hescape with ⟨hslash, hclose⟩
      rw [hslash] at hne
      rw [readStringWithQuotes, hslash, if_neg hne, if_pos ⟨rfl, hclose⟩, <- ih h, run_cons,
        step_quoted_escape hne hclose, run_cons, hclose]
      rfl
  | case5 ch next rest hne hescape ih =>
      intro h
      rw [readStringWithQuotes, if_neg hne, if_neg hescape, <- ih h, run_cons,
        step_quoted_next hne hescape]

theorem run_quoted_open (p : Text) : closes close p = false ->
    (run (quoted close) p).isOpen = true := by
  fun_induction closes close p with
  | case1 => exact fun _ => rfl
  | case2 ch =>
      intro h
      have hch : ch ≠ close := of_decide_eq_false h
      by_cases hescape : ch = backslash ∧ close = doubleQuote
      · rcases hescape with ⟨hslash, hclose⟩
        rw [hslash] at hch
        rw [run_cons, hslash, step_quoted_escape hch hclose]
        rfl
      · rw [run_cons, step_quoted_next hch hescape]
        rfl
  | case3 => exact fun h => nomatch h
  | case4 ch next rest hne hescape ih =>
      intro h
      rcases hescape with ⟨hslash, hclose⟩
      rw [hslash] at hne
      have hopen := ih h
      rw [hclose] at hopen
      rw [run_cons, hslash, step_quoted_escape hne hclose, run_cons]
      exact hopen
  | case5 ch next rest hne hescape ih =>
      intro h
      rw [run_cons, step_quoted_next hne hescape]
      exact ih h

theorem readStringWithQuotes_suffix (p : Text) : readStringWithQuotes close p <:+ p := by
  fun_induction readStringWithQuotes close p with
  | case1 => exact List.suffix_refl _
  | case2 => exact List.nil_suffix
  | case3 => exact List.suffix_cons _ _
  | case4 ch next rest _ _ ih =>
      exact (ih.trans (List.suffix_cons next rest)).trans (List.suffix_cons _ _)
  | case5 ch next rest _ _ ih => exact ih.trans (List.suffix_cons ch _)

theorem readStringWithQuotes_short (p : Text) : closes close p = true ->
    (readStringWithQuotes close p).length < p.length := by
  fun_induction closes close p with
  | case1 => exact fun h => nomatch h
  | case2 => exact fun _ => Nat.zero_lt_one
  | case3 next rest =>
      intro _
      rw [readStringWithQuotes, if_pos rfl]
      exact Nat.lt_succ_self _
  | case4 ch next rest hne hescape ih =>
      intro h
      rw [readStringWithQuotes, if_neg hne, if_pos hescape]
      exact Nat.lt_of_lt_of_le (ih h) (Nat.le_trans (Nat.le_succ _) (Nat.le_succ _))
  | case5 ch next rest hne hescape ih =>
      intro h
      rw [readStringWithQuotes, if_neg hne, if_neg hescape]
      exact Nat.lt_succ_of_lt (ih h)

/-!
# Blanks and comments
-/

theorem run_skipWhitespace (p : Text) : run gap p = run gap (skipWhitespace p) := by
  induction p with
  | nil => rfl
  | cons ch p ih =>
      unfold skipWhitespace
      cases h : isWhitespace ch with
      | false => rw [List.dropWhile_cons_of_neg (by rw [h]; exact Bool.false_ne_true)]
      | true =>
          rw [List.dropWhile_cons_of_pos h, run_cons, gap_of_whitespace h]
          exact ih

theorem run_skipComment (p : Text) : (run comment p).isOpen = (run gap (skipComment p)).isOpen := by
  induction p with
  | nil => rfl
  | cons ch p ih =>
      unfold skipComment
      cases h : endsComment ch with
      | false =>
          have hstep : comment.step ch = comment := if_neg (by rw [h]; exact Bool.false_ne_true)
          rw [List.dropWhile_cons_of_pos (by rw [h]; rfl), run_cons, hstep]
          exact ih
      | true =>
          have hstep : comment.step ch = gap := if_pos h
          rw [List.dropWhile_cons_of_neg (by rw [h]; exact Bool.false_ne_true), run_cons, hstep,
            run_cons, gap_of_endsComment h]

/-- The next token begins behind blanks and comments, which open no quote. -/
theorem tokenStart_spec (k : Nat) : forall p : Text, p.length < k ->
    (run gap p).isOpen = (run gap (tokenStart k p)).isOpen ∧ tokenStart k p <:+ p ∧
      forall ch rest, tokenStart k p = ch :: rest -> ch ≠ hash ∧ isWhitespace ch = false := by
  induction k with
  | zero => exact fun p hk => absurd hk (Nat.not_lt_zero _)
  | succ k ih =>
      intro p hk
      have hsuffix : skipWhitespace p <:+ p := List.dropWhile_suffix _
      rw [run_skipWhitespace p]
      cases hskip : skipWhitespace p with
      | nil =>
          rw [tokenStart, hskip]
          exact ⟨rfl, List.nil_suffix, fun ch rest h => nomatch h⟩
      | cons ch rest =>
          have hblank : isWhitespace ch = false := by
            have hhead := List.head?_dropWhile_not isWhitespace p
            rw [show p.dropWhile isWhitespace = ch :: rest from hskip] at hhead
            exact hhead
          rw [hskip] at hsuffix
          rw [tokenStart, hskip]
          dsimp only
          by_cases hhash : ch = hash
          · have hcomment : skipComment rest <:+ rest := List.dropWhile_suffix _
            have hlen := hsuffix.length_le
            rw [List.length_cons] at hlen
            have hshort := hcomment.length_le
            rcases ih (skipComment rest) (by omega) with ⟨hopen, hinside, hhead⟩
            have hstep : gap.step hash = comment := rfl
            rw [if_pos hhash, hhash, run_cons, hstep, run_skipComment]
            refine ⟨hopen, hinside.trans (hcomment.trans ?_), hhead⟩
            exact (List.suffix_cons ch rest).trans hsuffix
          · rw [if_neg hhash]
            refine ⟨rfl, hsuffix, ?_⟩
            intro c us hcons
            cases hcons
            exact ⟨hhash, hblank⟩

/-!
# Tokens
-/

/-- What `scan_tok` does to the scan, where a token begins that is terminated. -/
structure Passed (ch : UInt8) (p : Text) (r : Peek × Text) : Prop where
  run : (run gap (ch :: p)).isOpen = (run gap r.2).isOpen
  suffix : r.2 <:+ p
  inside : forall buf, ch :: p <:+ buf -> InBuffer buf r.1

theorem passed_operator {tok : Token} (h : isSymbol ch = true) :
    Passed ch p (Peek.operator tok, p) where
  run := by rw [run_cons, gap_of_symbol h]
  suffix := List.suffix_refl _
  inside _ _ := trivial

theorem passed_doubled {one two : Token} (h : isSymbol ch = true) :
    Passed ch p (doubled ch one two p) := by
  unfold doubled
  cases p with
  | nil => exact passed_operator h
  | cons next rest =>
      dsimp only
      by_cases hnext : next = ch
      · rw [if_pos hnext, hnext]
        refine ⟨?_, List.suffix_cons ch rest, fun _ _ => trivial⟩
        rw [run_cons, gap_of_symbol h, run_cons, gap_of_symbol h]
      · rw [if_neg hnext]
        exact passed_operator h

theorem passed_quoted (hquote : isQuote ch = true) (hhash : ch ≠ hash)
    (h : closes ch p = true) :
    Passed ch p (Peek.string p (((ch :: p).length : Int) - (readStringWithQuotes ch p).length - 2),
      readStringWithQuotes ch p) where
  run := by
    have hstep : gap.step ch = quoted ch := (if_neg hhash).trans (if_pos hquote)
    rw [run_cons, hstep, run_quoted_closed p h]
  suffix := readStringWithQuotes_suffix p
  inside buf hbuf := by
    have hshort := readStringWithQuotes_short p h
    refine ⟨(List.suffix_cons ch p).trans hbuf, ?_, ?_⟩
    · rw [List.length_cons]
      omega
    · rw [List.length_cons]
      omega

theorem passed_word (hword : isSymbol ch = false) (hblank : isWhitespace ch = false)
    (hquote : isQuote ch = false) (hhash : ch ≠ hash) :
    Passed ch p (Peek.string (ch :: p) (((ch :: p).length : Int) - (readString (ch :: p)).length),
      readString (ch :: p)) where
  run := by
    have hstep : gap.step ch = word.step ch :=
      (if_neg hhash).trans (if_neg (by rw [hquote]; exact Bool.false_ne_true))
    rw [<- run_readString, run_cons, run_cons, hstep]
  suffix := by
    have hplain : (isSymbol ch || isWhitespace ch) = false := by rw [hword, hblank]; rfl
    cases p with
    | nil =>
        rw [readString, hplain]
        exact List.nil_suffix
    | cons next rest =>
        rw [readString, hplain, if_neg Bool.false_ne_true]
        split
        · exact (readString_suffix rest).trans (List.suffix_cons _ _)
        · exact readString_suffix _
  inside buf hbuf := by
    have hlen := (readString_suffix (ch :: p)).length_le
    refine ⟨hbuf, ?_, ?_⟩
    · omega
    · omega

theorem scanAt_passed (hhash : ch ≠ hash) (hblank : isWhitespace ch = false)
    (h : terminated (ch :: p) = true) : Passed ch p (scanAt (ch :: p)) := by
  unfold scanAt
  dsimp only
  split
  · rename_i heq
    exact passed_doubled (by rw [heq]; rfl)
  · split
    · rename_i heq
      exact passed_operator (by rw [heq]; rfl)
    · split
      · rename_i heq
        exact passed_operator (by rw [heq]; rfl)
      · split
        · rename_i heq
          exact passed_operator (by rw [heq]; rfl)
        · split
          · rename_i heq
            exact passed_doubled (by rw [heq]; rfl)
          · split
            · rename_i heq
              exact passed_doubled (by rw [heq]; rfl)
            · split
              · rename_i heq
                exact passed_operator (by rw [heq]; rfl)
              · rename_i hgt hlt hleft hright hand hpipe hsemi
                have hword : isSymbol ch = false := by
                  simp [isSymbol, hgt, hlt, hleft, hright, hand, hpipe, hsemi]
                split
                · rename_i hquote
                  apply passed_quoted hquote hhash
                  rw [terminated, hquote] at h
                  exact h
                · rename_i hquote
                  exact passed_word hword hblank (Bool.eq_false_iff.mpr hquote) hhash

theorem open_of_unterminated (hhash : ch ≠ hash) (h : terminated (ch :: p) = false) :
    (run gap (ch :: p)).isOpen = true := by
  rw [terminated, Bool.or_eq_false_iff, Bool.not_eq_false'] at h
  have hstep : gap.step ch = quoted ch := (if_neg hhash).trans (if_pos h.left)
  rw [run_cons, hstep]
  exact run_quoted_open p h.right

/-- All tokens are terminated exactly if the scan of the text ends outside quotes. -/
theorem lexFrom_terminated (k : Nat) : forall p : Text, p.length < k ->
    ((forall x, x ∈ lexFrom k p -> terminated x.1 = true) <-> (run gap p).isOpen = false) := by
  induction k with
  | zero => exact fun p hk => absurd hk (Nat.not_lt_zero _)
  | succ k ih =>
      intro p hk
      rcases tokenStart_spec (p.length + 1) p (Nat.lt_succ_self _) with ⟨hopen, hsuffix, hhead⟩
      rw [hopen, lexFrom]
      cases hstart : tokenStart (p.length + 1) p with
      | nil => exact ⟨fun _ => rfl, fun _ x hx => nomatch hx⟩
      | cons ch rest =>
          rcases hhead ch rest hstart with ⟨hhash, hblank⟩
          rw [hstart] at hsuffix
          have hlen := hsuffix.length_le
          rw [List.length_cons] at hlen
          simp only [List.forall_mem_cons]
          cases hterm : terminated (ch :: rest) with
          | false =>
              rw [open_of_unterminated hhash hterm]
              exact ⟨fun h => absurd h.left Bool.false_ne_true, fun h => nomatch h⟩
          | true =>
              have hpassed := scanAt_passed hhash hblank hterm
              have hshort := hpassed.suffix.length_le
              rw [hpassed.run, ih _ (by omega)]
              exact ⟨fun h => h.right, fun h => ⟨rfl, h⟩⟩

theorem lexFrom_inBuffer (k : Nat) : forall p buf : Text, p.length < k -> p <:+ buf ->
    (forall x, x ∈ lexFrom k p -> terminated x.1 = true) ->
    forall x, x ∈ lexFrom k p -> InBuffer buf x.2 := by
  induction k with
  | zero => exact fun p _ hk => absurd hk (Nat.not_lt_zero _)
  | succ k ih =>
      intro p buf hk hbuf
      rcases tokenStart_spec (p.length + 1) p (Nat.lt_succ_self _) with ⟨-, hsuffix, hhead⟩
      rw [lexFrom]
      cases hstart : tokenStart (p.length + 1) p with
      | nil => exact fun _ x hx => nomatch hx
      | cons ch rest =>
          rcases hhead ch rest hstart with ⟨hhash, hblank⟩
          rw [hstart] at hsuffix
          have hlen := hsuffix.length_le
          rw [List.length_cons] at hlen
          simp only [List.forall_mem_cons]
          intro hboth
          rcases hboth with ⟨hterm, hrest⟩
          have hpassed := scanAt_passed hhash hblank hterm
          have hshort := hpassed.suffix.length_le
          constructor
          · exact hpassed.inside buf (hsuffix.trans hbuf)
          · apply ih _ buf (by omega) _ hrest
            exact hpassed.suffix.trans ((List.suffix_cons ch rest).trans (hsuffix.trans hbuf))

theorem whole_iff (p : Text) : Whole p <-> (run gap p).isOpen = false :=
  lexFrom_terminated _ p (Nat.lt_succ_self _)

theorem Whole.inBuffer (h : Whole p) : forall x, x ∈ lex p -> InBuffer p x.2 :=
  lexFrom_inBuffer _ p p (Nat.lt_succ_self _) (List.suffix_refl _) h

end Scans

end Lexer
end Shell
end NicoOS
