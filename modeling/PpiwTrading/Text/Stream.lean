import Mathlib

/-!
# Texts, tokens and formatted input

A text is a list of characters.  It is read line by line, and a line is read
through a stream whose extractions skip leading white space and stop at the next
one.  An extraction from a stream with nothing left fails and leaves its target
as it was, and so does every extraction from a stream that has failed.
-/

namespace PpiwTrading.Text

/-! ### Lines -/

/-- `std::getline`: the characters before the next line feed, and the text after it. -/
def getline : List Char → Option (List Char × List Char)
  | [] => none
  | c :: rest =>
      if c = '\n' then some ([], rest)
      else match getline rest with
        | none => some ([c], [])
        | some (line, others) => some (c :: line, others)

/-- The lines that `getline` takes from a text one after another. -/
def lines : List Char → List (List Char)
  | [] => []
  | c :: rest =>
      if c = '\n' then [] :: lines rest
      else match lines rest with
        | [] => [[c]]
        | line :: others => (c :: line) :: others

/-- The loop `while (std::getline(file, line))` runs over `lines`. -/
theorem lines_eq_getline (text : List Char) :
    lines text = match getline text with
      | none => []
      | some (line, rest) => line :: lines rest := by
  induction text with
  | nil => rfl
  | cons c rest inductionHypothesis =>
      by_cases ended : c = '\n'
      · simp [lines, getline, ended]
      · cases read : getline rest with
        | none =>
            rw [read] at inductionHypothesis
            simp [lines, getline, ended, read, inductionHypothesis]
        | some part =>
            rw [read] at inductionHypothesis
            simp [lines, getline, ended, read, inductionHypothesis]

/-! ### Tokens -/

/-- The white space of the classic locale. -/
def isSpace (c : Char) : Bool :=
  c == ' ' || c == '\t' || c == '\n' || c == '\r' || c == Char.ofNat 11 || c == Char.ofNat 12

/-- The maximal runs of characters that are no white space. -/
def tokens (text : List Char) : List (List Char) :=
  (text.splitOnP isSpace).filter fun run => !run.isEmpty

theorem ne_nil_of_mem_tokens {text token : List Char} (mem : token ∈ tokens text) :
    token ≠ [] := by
  have kept := (List.mem_filter.mp mem).2
  rintro rfl
  simp at kept

@[simp]
theorem tokens_nil : tokens [] = [] :=
  rfl

theorem tokens_cons_space {c : Char} (space : isSpace c = true) (rest : List Char) :
    tokens (c :: rest) = tokens rest := by
  simp [tokens, List.splitOnP_cons_eq_if_modifyHead, space]

theorem length_tokens_le (text : List Char) : (tokens text).length ≤ text.length + 1 := by
  apply le_trans (List.length_filter_le ..)
  induction text with
  | nil => rfl
  | cons c rest inductionHypothesis =>
      rw [List.splitOnP_cons_eq_if_modifyHead]
      split
      · exact Nat.succ_le_succ inductionHypothesis
      · rw [List.length_modifyHead]
        exact Nat.le_succ_of_le inductionHypothesis

/-- White space at the start of a text does not change its tokens. -/
theorem tokens_dropWhile (text : List Char) : tokens (text.dropWhile isSpace) = tokens text := by
  induction text with
  | nil => rfl
  | cons c rest inductionHypothesis =>
      cases space : isSpace c with
      | true =>
          rw [List.dropWhile_cons_of_pos space, inductionHypothesis,
            tokens_cons_space space]
      | false => rw [List.dropWhile_cons_of_neg (by simp [space])]

/-- Where a token ends: the text is empty or starts with white space. -/
def Separated (text : List Char) : Prop :=
  ∀ c ∈ text.head?, isSpace c = true

/-- A word at the start of a text is its first token. -/
theorem tokens_word {word tail : List Char} (nonempty : word ≠ [])
    (solid : ∀ c ∈ word, isSpace c = false) (separated : Separated tail) :
    tokens (word ++ tail) = word :: tokens tail := by
  cases tail with
  | nil =>
      rw [List.append_nil, tokens, List.splitOnP_eq_singleton solid]
      simp [nonempty]
  | cons c rest =>
      have space : isSpace c = true := separated c (by simp)
      rw [tokens_cons_space space, tokens,
        List.splitOnP_append_cons_of_forall_mem solid c space]
      simp [nonempty, tokens]

/-- A prefix of a text is cut off where its characters stop. -/
theorem cut_append {p : Char → Bool} {word tail : List Char} (inside : ∀ c ∈ word, p c = true)
    (stops : ∀ c ∈ tail.head?, p c = false) :
    (word ++ tail).takeWhile p = word ∧ (word ++ tail).dropWhile p = tail := by
  rw [List.takeWhile_append_of_pos inside, List.dropWhile_append_of_pos inside]
  cases tail with
  | nil => simp
  | cons c rest =>
      have stopped : ¬p c = true := by simp [stops c rfl]
      rw [List.takeWhile_cons_of_neg stopped, List.dropWhile_cons_of_neg stopped]
      simp

theorem separated_dropWhile (text : List Char) :
    Separated (text.dropWhile fun c => !isSpace c) := by
  intro c first
  have stopped := List.head?_dropWhile_not (fun c => !isSpace c) text
  rw [Option.mem_def.mp first] at stopped
  simpa using stopped

/-- A text has no token, or its first token stands behind its white space. -/
theorem tokens_cases (text : List Char) :
    (text.dropWhile isSpace = [] ∧ tokens text = []) ∨
    ∃ word tail, text.dropWhile isSpace = word ++ tail ∧ word ≠ [] ∧
      (∀ c ∈ word, isSpace c = false) ∧ Separated tail ∧ tokens text = word :: tokens tail := by
  rw [← tokens_dropWhile]
  cases body : text.dropWhile isSpace with
  | nil => exact Or.inl ⟨rfl, tokens_nil⟩
  | cons c rest =>
      right
      have solid : isSpace c = false := by
        have stopped := List.head?_dropWhile_not isSpace text
        rw [body] at stopped
        simpa using stopped
      have nonempty : (c :: rest).takeWhile (fun c => !isSpace c) ≠ [] := by simp [solid]
      have inside : ∀ d ∈ (c :: rest).takeWhile (fun c => !isSpace c), isSpace d = false := by
        intro d mem
        simpa using List.mem_takeWhile_imp mem
      have parts := List.takeWhile_append_dropWhile (p := fun c => !isSpace c) (l := c :: rest)
      have first := tokens_word nonempty inside (separated_dropWhile (c :: rest))
      rw [parts] at first
      exact ⟨_, _, parts.symm, nonempty, inside, separated_dropWhile _, first⟩

/-! ### Integers -/

/-- Whether a text starts with a minus sign, and what follows its sign. -/
def sign : List Char → Bool × List Char
  | [] => (false, [])
  | c :: rest =>
      if c = '-' then (true, rest)
      else if c = '+' then (false, rest)
      else (false, c :: rest)

/-- The integer that a sign and decimal digits denote. -/
def signed (negative : Bool) (digits : List Char) : Int :=
  if negative then -(Nat.ofDigitChars 10 digits 0 : Int) else Nat.ofDigitChars 10 digits 0

/-- The integer of a range that a whole token denotes. -/
def intOfToken (lowest highest : Int) (token : List Char) : Option Int :=
  let (negative, digits) := sign token
  let value := signed negative digits
  if digits ≠ [] ∧ digits.all Char.isDigit = true ∧ lowest ≤ value ∧ value ≤ highest then
    some value
  else none

/-! ### Streams -/

/-- A stream over a text: what is left of it, and its two state bits. -/
structure IStream where
  rest : List Char
  eof : Bool
  fail : Bool
  deriving DecidableEq, Repr

namespace IStream

/-- `std::istringstream iss(text)`. -/
def ofText (text : List Char) : IStream :=
  ⟨text, false, false⟩

/-- What every extraction does first: a stream that is not good fails, and one
with nothing but white space left fails at its end. -/
def sentry (s : IStream) : IStream :=
  if s.eof || s.fail then { s with fail := true }
  else
    let rest := s.rest.dropWhile isSpace
    ⟨rest, rest.isEmpty, rest.isEmpty⟩

/-- `s >> target` for a string. -/
def getString (s : IStream) (target : List Char) : List Char × IStream :=
  let s := s.sentry
  if s.fail then (target, s)
  else
    let rest := s.rest.dropWhile fun c => !isSpace c
    (s.rest.takeWhile fun c => !isSpace c, ⟨rest, rest.isEmpty, false⟩)

/-- `s >> target` for an integer type of the given range.  A value out of range
is replaced by the nearest bound, and no digits at all count as zero; both set
the fail bit. -/
def getInt (lowest highest : Int) (s : IStream) (target : Int) : Int × IStream :=
  let s := s.sentry
  if s.fail then (target, s)
  else
    let (negative, body) := sign s.rest
    let digits := body.takeWhile Char.isDigit
    let rest := body.dropWhile Char.isDigit
    let value := signed negative digits
    (max lowest (min highest value),
      ⟨rest, rest.isEmpty, digits.isEmpty || decide (value < lowest ∨ highest < value)⟩)

/-- The stream is in order and still gives these tokens. -/
structure Reads (s : IStream) (left : List (List Char)) : Prop where
  inOrder : s.fail = false
  tokens_rest : tokens s.rest = left
  atEnd : s.eof = true → s.rest = []

theorem reads_ofText (text : List Char) : (ofText text).Reads (tokens text) :=
  ⟨rfl, rfl, by simp [ofText]⟩

theorem sentry_of_fail {s : IStream} (failed : s.fail = true) : s.sentry.fail = true := by
  simp [sentry, failed]

variable {s : IStream} {token : List Char} {others : List (List Char)}

theorem sentry_of_nil (reads : s.Reads []) : s.sentry.fail = true := by
  unfold sentry
  split
  · rfl
  · rcases tokens_cases s.rest with ⟨nothing, _⟩ | ⟨_, _, _, _, _, _, some⟩
    · simp [nothing]
    · rw [reads.tokens_rest] at some
      contradiction

theorem sentry_of_cons (reads : s.Reads (token :: others)) :
    ∃ tail, s.sentry = ⟨token ++ tail, false, false⟩ ∧ token ≠ [] ∧
      (∀ c ∈ token, isSpace c = false) ∧ Separated tail ∧ tokens tail = others := by
  have more := reads.tokens_rest
  have notEnded : s.eof = false := by
    by_contra ended
    rw [reads.atEnd (by simpa using ended)] at more
    simp at more
  rcases tokens_cases s.rest with
    ⟨_, nothing⟩ | ⟨word, tail, body, nonempty, solid, separated, found⟩
  · rw [nothing] at more
    contradiction
  · rw [found] at more
    rcases List.cons.inj more with ⟨rfl, rfl⟩
    have ready : s.sentry = ⟨word ++ tail, false, false⟩ := by
      simp [sentry, notEnded, reads.inOrder, body, nonempty]
    exact ⟨tail, ready, nonempty, solid, separated, rfl⟩

/-- A failed extraction leaves its target. -/
theorem getString_of_fail (failed : s.sentry.fail = true) (target : List Char) :
    (s.getString target).1 = target ∧ (s.getString target).2.fail = true := by
  simp [getString, failed]

/-- An extraction takes the next token. -/
theorem getString_of_cons (reads : s.Reads (token :: others)) (target : List Char) :
    (s.getString target).1 = token ∧ (s.getString target).2.Reads others := by
  rcases sentry_of_cons reads with ⟨tail, ready, _, solid, separated, left⟩
  rcases cut_append (p := fun c => !isSpace c) (by simpa using solid)
    (by simpa [Separated] using separated) with ⟨taken, dropped⟩
  simp only [getString, ready, taken, dropped]
  exact ⟨rfl, rfl, left, by simp⟩

/-- The target of an extraction is the next token, if there is one. -/
theorem getString_fst {left : List (List Char)} (reads : s.Reads left) (target : List Char) :
    (s.getString target).1 = left.head?.getD target := by
  cases left with
  | nil => exact (getString_of_fail (sentry_of_nil reads) target).1
  | cons token others => exact (getString_of_cons reads target).1

/-- Two extractions in a row, `s >> first >> second`. -/
theorem getString_getString_fst {left : List (List Char)} (reads : s.Reads left)
    (first second : List Char) :
    ((s.getString first).2.getString second).1 = left[1]?.getD second := by
  cases left with
  | nil =>
      have failed := (getString_of_fail (sentry_of_nil reads) first).2
      exact (getString_of_fail (sentry_of_fail failed) second).1
  | cons token others =>
      rw [getString_fst (getString_of_cons reads first).2, List.head?_eq_getElem?]
      rfl

theorem not_isDigit_of_isSpace {c : Char} (space : isSpace c = true) : c.isDigit = false := by
  simp only [isSpace, Bool.or_eq_true, beq_iff_eq] at space
  rcases space with ((((rfl | rfl) | rfl) | rfl) | rfl) | rfl <;> rfl

theorem sign_append (nonempty : token ≠ []) (tail : List Char) :
    sign (token ++ tail) = ((sign token).1, (sign token).2 ++ tail) := by
  cases token with
  | nil => contradiction
  | cons c rest =>
      rw [List.cons_append]
      simp only [sign]
      split_ifs <;> rfl

/-- An extraction takes the next token when it is an integer of the range. -/
theorem getInt_of_cons {lowest highest n : Int} (reads : s.Reads (token :: others))
    (isInt : intOfToken lowest highest token = some n) (target : Int) :
    (s.getInt lowest highest target).1 = n ∧
      (s.getInt lowest highest target).2.Reads others := by
  rcases sentry_of_cons reads with ⟨tail, ready, nonempty, _, separated, left⟩
  unfold intOfToken at isInt
  simp only [Option.ite_none_right_eq_some, Option.some.injEq, List.all_eq_true] at isInt
  rcases isInt with ⟨⟨someDigit, digits, above, below⟩, rfl⟩
  rcases cut_append digits
    (fun c first => not_isDigit_of_isSpace (separated c first)) with ⟨taken, dropped⟩
  simp only [getInt, ready, sign_append nonempty, taken, dropped]
  constructor
  · simp [above, below]
  · exact ⟨by simp [someDigit, above, below], left, by simp⟩

end IStream

end PpiwTrading.Text
