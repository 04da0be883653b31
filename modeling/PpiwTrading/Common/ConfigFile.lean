import PpiwTrading.Sequence.Carried
import PpiwTrading.Text.Stream

/-!
# The items of a configuration file

A configuration file has one item on a line, a key and a value with white space
between them.  Lines that start with `#` and empty lines are skipped.  The loop
of `file2items` declares its key and its value once, before the loop, and does
not ask whether a line gave them.
-/

namespace PpiwTrading

open Sequence Text

/-- A `std::map<std::string, std::string>`. -/
abbrev Items := AList fun _ : List Char => List Char

/-- `boost::starts_with(line, "#") || line.empty()`: comments and blank lines. -/
def skipped (line : List Char) : Bool :=
  "#".toList.isPrefixOf line || line.isEmpty

/-- The lines of a file that the loops do not skip. -/
def significantLines (text : List Char) : List (List Char) :=
  (lines text).filter fun line => !skipped line

/-- The variables of `file2items`. -/
structure ItemsState where
  row : List Char
  val : List Char
  items : Items

/-- What `file2items` does with a line that it does not skip. -/
def itemsLine (state : ItemsState) (line : List Char) : ItemsState :=
  let (row, iss) := (IStream.ofText line).getString state.row
  let (val, _) := iss.getString state.val
  ⟨row, val, state.items.insert row val⟩

/-- The loop of `file2items`. -/
def itemsLoop (items : Items) (ls : List (List Char)) : ItemsState :=
  ls.foldl (fun state line => if skipped line then state else itemsLine state line)
    ⟨[], [], items⟩

def file2items (text : List Char) (items : Items) : Items :=
  (itemsLoop items (lines text)).items

/-- The loop `while (iss >> row >> val)` of `str2items`. -/
def str2itemsLoop : Nat → IStream → List Char → List Char → Items → Items
  | 0, _, _, _, items => items
  | fuel + 1, iss, row, val, items =>
      let (row, iss) := iss.getString row
      let (val, iss) := iss.getString val
      if iss.fail then items else str2itemsLoop fuel iss row val (items.insert row val)

def str2items (str : List Char) (items : Items) : Items :=
  str2itemsLoop (str.length + 2) (IStream.ofText str) [] [] items

/-- Put tokens into a map two by two. -/
def insertPairs : List (List Char) → Items → Items
  | row :: val :: others, items => insertPairs others (items.insert row val)
  | _, items => items

theorem str2itemsLoop_eq {fuel : Nat} {iss : IStream} {left : List (List Char)}
    (reads : iss.Reads left) (enough : left.length < fuel) (row val : List Char)
    (items : Items) :
    str2itemsLoop fuel iss row val items = insertPairs left items := by
  induction fuel generalizing iss left row val items with
  | zero => contradiction
  | succ fuel inductionHypothesis =>
      match left with
      | [] =>
          have failed := (IStream.getString_of_fail (IStream.sentry_of_nil reads) row).2
          have ended := (IStream.getString_of_fail (IStream.sentry_of_fail failed) val).2
          simp [str2itemsLoop, ended, insertPairs]
      | [only] =>
          have last := (IStream.getString_of_cons reads row).2
          have ended := (IStream.getString_of_fail (IStream.sentry_of_nil last) val).2
          simp [str2itemsLoop, ended, insertPairs]
      | first :: second :: others =>
          rcases IStream.getString_of_cons reads row with ⟨rowEq, afterRow⟩
          rcases IStream.getString_of_cons afterRow val with ⟨valEq, afterVal⟩
          have fewer : others.length < fuel := by
            simp only [List.length_cons] at enough
            omega
          simp only [str2itemsLoop, rowEq, valEq, afterVal.inOrder, insertPairs]
          exact inductionHypothesis afterVal fewer first second (items.insert first second)

/-- `str2items`, which tests every extraction, takes each key with the token
after it and carries nothing over. -/
theorem str2items_eq (str : List Char) (items : Items) :
    str2items str items = insertPairs (tokens str) items := by
  apply str2itemsLoop_eq (IStream.reads_ofText str)
  exact Nat.lt_succ_of_le (length_tokens_le str)

/-! ### Lines one by one -/

/-- The key of a line, its first token. -/
def keyOf (line : List Char) : Option (List Char) :=
  (tokens line).head?

/-- The value of a line, its second token. -/
def valueOf (line : List Char) : Option (List Char) :=
  (tokens line)[1]?

/-- The value that a line gives to a key. -/
def valueFor (key line : List Char) : Option (List Char) :=
  if keyOf line = some key then valueOf line else none

/-- The items that the lines leave, and whether each line takes its key and its
value from itself. -/
structure ItemsIndependent (text : List Char) : Prop where
  mapped : ∀ key value, (file2items text ∅).lookup key = some value →
    ((significantLines text).filterMap (valueFor key)).getLast? = some value
  alone : ∀ before line after, significantLines text = before ++ line :: after →
    (itemsLoop ∅ (before ++ [line])).row = (itemsLoop ∅ [line]).row ∧
      (itemsLoop ∅ (before ++ [line])).val = (itemsLoop ∅ [line]).val

/-- Every line has a key, and a line without a value stands before all lines with
a value, one of which gives a value to its key. -/
structure ItemsFilled (text : List Char) : Prop where
  keyed : ∀ line ∈ significantLines text, keyOf line ≠ none
  valued : ∀ before line after, significantLines text = before ++ line :: after →
    valueOf line = none → (∀ earlier ∈ before, valueOf earlier = none) ∧
      ∀ key, keyOf line = some key → ∃ later ∈ after, (valueFor key later).isSome

theorem keyOf_ne_nil (line key : List Char) (found : keyOf line = some key) : key ≠ [] :=
  ne_nil_of_mem_tokens (List.mem_of_head? found)

theorem valueOf_ne_nil (line value : List Char) (found : valueOf line = some value) :
    value ≠ [] :=
  ne_nil_of_mem_tokens (List.mem_of_getElem? found)

theorem valueOf_eq_none_of_keyOf {line : List Char} (keyless : keyOf line = none) :
    valueOf line = none := by
  rw [keyOf, List.head?_eq_none_iff] at keyless
  rw [valueOf, keyless]
  rfl

theorem skipped_of_mem {text line : List Char} (mem : line ∈ significantLines text) :
    skipped line = false := by
  simpa using (List.mem_filter.mp mem).2

theorem itemsLine_eq (state : ItemsState) (line : List Char) :
    itemsLine state line =
      ⟨(keyOf line).getD state.row, (valueOf line).getD state.val,
        state.items.insert ((keyOf line).getD state.row) ((valueOf line).getD state.val)⟩ := by
  have row := IStream.getString_fst (IStream.reads_ofText line) state.row
  have val := IStream.getString_getString_fst (IStream.reads_ofText line) state.row state.val
  simp only [itemsLine, row, val, keyOf, valueOf]

/-- Skipped lines do not count, whatever a loop does with the others. -/
theorem foldl_significantLines {σ : Type} (round : σ → List Char → σ) (start : σ)
    (text : List Char) :
    (significantLines text).foldl
        (fun state line => if skipped line then state else round state line) start =
      (lines text).foldl
        (fun state line => if skipped line then state else round state line) start := by
  unfold significantLines
  rw [List.foldl_filter]
  congr 1
  funext state line
  cases skipped line <;> rfl

theorem file2items_eq (text : List Char) (items : Items) :
    file2items text items = (itemsLoop items (significantLines text)).items := by
  rw [itemsLoop, foldl_significantLines]
  rfl

theorem itemsLoop_concat (items : Items) (ls : List (List Char)) {line : List Char}
    (kept : skipped line = false) :
    itemsLoop items (ls ++ [line]) = itemsLine (itemsLoop items ls) line := by
  simp [itemsLoop, kept]

/-- The key and the value are carried from line to line. -/
theorem itemsLoop_carried (items : Items) {ls : List (List Char)}
    (kept : ∀ line ∈ ls, skipped line = false) :
    (itemsLoop items ls).row = carried keyOf [] ls ∧
      (itemsLoop items ls).val = carried valueOf [] ls := by
  induction ls using List.reverseRecOn with
  | nil => exact ⟨rfl, rfl⟩
  | append_singleton ls line inductionHypothesis =>
      rw [List.forall_mem_append, List.forall_mem_singleton] at kept
      rcases inductionHypothesis kept.1 with ⟨row, val⟩
      rw [itemsLoop_concat items ls kept.2, itemsLine_eq, row, val, carried_concat,
        carried_concat]
      exact ⟨rfl, rfl⟩

section

variable {text : List Char} {before after : List (List Char)} {line : List Char}
variable (split : significantLines text = before ++ line :: after)
include split

theorem skipped_of_split :
    (∀ earlier ∈ before, skipped earlier = false) ∧ skipped line = false := by
  constructor
  · intro earlier mem
    have inFile : earlier ∈ significantLines text := by simp [split, mem]
    exact skipped_of_mem inFile
  · have inFile : line ∈ significantLines text := by simp [split]
    exact skipped_of_mem inFile

/-- What the loop inserts for a line. -/
theorem itemsLoop_items (items : Items) :
    (itemsLoop items (before ++ [line])).items =
      (itemsLoop items before).items.insert (carried keyOf [] (before ++ [line]))
        (carried valueOf [] (before ++ [line])) := by
  rcases skipped_of_split split with ⟨keptBefore, kept⟩
  rcases itemsLoop_carried items keptBefore with ⟨row, val⟩
  rw [itemsLoop_concat items before kept, itemsLine_eq, row, val, carried_concat,
    carried_concat]

omit split in
/-- No line removes a key. -/
theorem mem_itemsLoop_append {items : Items} {ls : List (List Char)} {key : List Char}
    (mem : key ∈ (itemsLoop items ls).items) (more : List (List Char)) :
    key ∈ (itemsLoop items (ls ++ more)).items := by
  induction more using List.reverseRecOn with
  | nil => simpa using mem
  | append_singleton more line inductionHypothesis =>
      rw [← List.append_assoc]
      cases skip : skipped line with
      | true => simpa [itemsLoop, skip] using inductionHypothesis
      | false =>
          rw [itemsLoop_concat _ _ skip, itemsLine_eq]
          exact (AList.mem_insert _).mpr (Or.inr inductionHypothesis)

/-- The key under which a line was read is in the map at the end. -/
theorem lookup_file2items_isSome :
    ((file2items text ∅).lookup (carried keyOf [] (before ++ [line]))).isSome := by
  rw [AList.lookup_isSome, file2items_eq, split, List.append_cons]
  apply mem_itemsLoop_append
  rw [itemsLoop_items split]
  exact (AList.mem_insert _).mpr (Or.inl rfl)

/-- A line leaves in a variable that is carried what it would leave on its own
exactly when it writes it or no earlier line does. -/
theorem alone_iff {write : List Char → Option (List Char)}
    (held : List (List Char) → List Char)
    (fresh : ∀ line token, write line = some token → token ≠ [])
    (carries : ∀ ls, (∀ line ∈ ls, skipped line = false) → held ls = carried write [] ls) :
    held (before ++ [line]) = held [line] ↔
      (write line = none → ∀ earlier ∈ before, write earlier = none) := by
  rcases skipped_of_split split with ⟨keptBefore, kept⟩
  have keptLine : ∀ l ∈ [line], skipped l = false := List.forall_mem_singleton.mpr kept
  rw [carries _ (List.forall_mem_append.mpr ⟨keptBefore, keptLine⟩), carries _ keptLine]
  exact carried_concat_eq_iff fresh line

theorem row_alone_iff (items : Items) :
    (itemsLoop items (before ++ [line])).row = (itemsLoop items [line]).row ↔
      (keyOf line = none → ∀ earlier ∈ before, keyOf earlier = none) := by
  apply alone_iff split (fun ls => (itemsLoop items ls).row) keyOf_ne_nil
  intro ls kept
  exact (itemsLoop_carried items kept).1

theorem val_alone_iff (items : Items) :
    (itemsLoop items (before ++ [line])).val = (itemsLoop items [line]).val ↔
      (valueOf line = none → ∀ earlier ∈ before, valueOf earlier = none) := by
  apply alone_iff split (fun ls => (itemsLoop items ls).val) valueOf_ne_nil
  intro ls kept
  exact (itemsLoop_carried items kept).2

end

/-! ### When the items are the file's own -/

section

variable {text : List Char} (filled : ItemsFilled text)
include filled

/-- A key that is in the map after some lines has the value of the last of them
that gives it one, or one of the lines still to come gives it one. -/
theorem ItemsFilled.lookup_itemsLoop {p q : List (List Char)}
    (split : significantLines text = p ++ q) {key value : List Char}
    (found : (itemsLoop ∅ p).items.lookup key = some value) :
    (p.filterMap (valueFor key)).getLast? = some value ∨
      ∃ later ∈ q, (valueFor key later).isSome := by
  induction p using List.reverseRecOn generalizing q with
  | nil => simp [itemsLoop] at found
  | append_singleton p line inductionHypothesis =>
      rw [List.append_assoc, List.singleton_append] at split
      rcases Option.ne_none_iff_exists'.mp (filled.keyed line (by simp [split])) with
        ⟨own, keyed⟩
      rw [itemsLoop_items split, carried_concat, keyed, Option.getD_some] at found
      by_cases same : key = own
      · subst same
        rw [AList.lookup_insert, carried_concat] at found
        cases valued : valueOf line with
        | some written =>
            left
            rw [valued, Option.getD_some] at found
            simpa [valueFor, keyed, valued] using found
        | none => exact Or.inr ((filled.valued p line q split valued).2 key keyed)
      · rw [AList.lookup_insert_ne same] at found
        have other : valueFor key line = none := by
          simp [valueFor, keyed, Ne.symm same]
        rcases inductionHypothesis split found with last | ⟨later, mem, gives⟩
        · left
          simpa [other] using last
        · right
          rcases List.mem_cons.mp mem with rfl | mem
          · simp [other] at gives
          · exact ⟨later, mem, gives⟩

theorem ItemsFilled.independent : ItemsIndependent text := by
  constructor
  · intro key value found
    rw [file2items_eq] at found
    rcases filled.lookup_itemsLoop (List.append_nil _).symm found with last | ⟨_, mem, _⟩
    · exact last
    · contradiction
  · intro before line after split
    constructor
    · rw [row_alone_iff split]
      intro missing
      exact absurd missing (filled.keyed line (by simp [split]))
    · rw [val_alone_iff split]
      intro missing
      exact (filled.valued before line after split missing).1

end

theorem ItemsIndependent.filled {text : List Char} (independent : ItemsIndependent text) :
    ItemsFilled text := by
  constructor
  · intro line mem missing
    rcases List.append_of_mem mem with ⟨before, after, split⟩
    have rowAlone := (row_alone_iff split ∅).mp (independent.alone before line after split).1
    -- The line is read under the empty key, which no line of the file gives.
    have noKey : carried keyOf [] (before ++ [line]) = [] := by
      rw [carried_eq_start_iff keyOf_ne_nil, List.forall_mem_append, List.forall_mem_singleton]
      exact ⟨rowAlone missing, missing⟩
    rcases Option.isSome_iff_exists.mp (lookup_file2items_isSome split) with ⟨value, found⟩
    rw [noKey] at found
    have given := List.mem_of_getLast? (independent.mapped [] value found)
    rcases List.mem_filterMap.mp given with ⟨giver, _, gives⟩
    unfold valueFor at gives
    split at gives
    · rename_i keyed
      exact keyOf_ne_nil giver [] keyed rfl
    · contradiction
  · intro before line after split missing
    have noneBefore := (val_alone_iff split ∅).mp
      (independent.alone before line after split).2 missing
    use noneBefore
    intro key keyed
    rcases Option.isSome_iff_exists.mp (lookup_file2items_isSome split) with ⟨value, found⟩
    rw [carried_concat, keyed, Option.getD_some] at found
    have given := List.mem_of_getLast? (independent.mapped key value found)
    rcases List.mem_filterMap.mp given with ⟨giver, mem, gives⟩
    have valued : valueOf giver ≠ none := by
      intro nothing
      simp [valueFor, nothing] at gives
    rw [split, List.mem_append, List.mem_cons] at mem
    rcases mem with mem | rfl | mem
    · exact absurd (noneBefore giver mem) valued
    · exact absurd missing valued
    · exact ⟨giver, mem, by simp [gives]⟩

end PpiwTrading
