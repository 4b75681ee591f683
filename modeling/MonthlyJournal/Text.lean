/-!
# Texts

A text is a list of characters, so that every reader and printer of this
library is a recursion on its characters. Texts are ordered by code point.
-/

set_option autoImplicit false

namespace MonthlyJournal

abbrev Text := List Char

namespace Text

def ofNat (n : Nat) : Text := Nat.toDigits 10 n

def startsWith (start t : Text) : Bool := start.isPrefixOf t

def endsWith (tail t : Text) : Bool := tail.isSuffixOf t

def after? : Text → Text → Option Text
  | [], t => some t
  | _ :: _, [] => none
  | a :: lead, b :: t => if a = b then after? lead t else none

def includes (needle : Text) : Text → Bool
  | [] => needle.isEmpty
  | c :: t => startsWith needle (c :: t) || includes needle t

/-- The pieces of a text between the characters `sep`; there is always one. -/
def splitOn (sep : Char) : Text → List Text
  | [] => [[]]
  | c :: t =>
    if c = sep then [] :: splitOn sep t
    else match splitOn sep t with
      | [] => [[c]]
      | piece :: pieces => (c :: piece) :: pieces

def joinWith (sep : Text) : List Text → Text
  | [] => []
  | [t] => t
  | t :: ts => t ++ sep ++ joinWith sep ts

def lower (t : Text) : Text := t.map Char.toLower

def padZeros (width : Nat) (t : Text) : Text := List.replicate (width - t.length) '0' ++ t

def byteLength : Text → Nat
  | [] => 0
  | c :: t => c.utf8Size + byteLength t

def digitsValue (digits : Text) : Nat :=
  digits.foldl (fun n c => 10 * n + (c.toNat - '0'.toNat)) 0

def digitValue? (base : Nat) (c : Char) : Option Nat :=
  let value :=
    if c.isDigit then some (c.toNat - '0'.toNat)
    else if 'a' ≤ c ∧ c ≤ 'f' then some (c.toNat - 'a'.toNat + 10)
    else if 'A' ≤ c ∧ c ≤ 'F' then some (c.toNat - 'A'.toNat + 10)
    else none
  value.filter (· < base)

def ofDigits? (base : Nat) : Text → Option Nat
  | [] => none
  | digits => digits.foldl (fun n? c => n?.bind fun n =>
      (digitValue? base c).map (base * n + ·)) (some 0)

theorem lt_of_not_lt {a b : Text} (hne : a ≠ b) (h : ¬ a < b) : b < a :=
  Decidable.byContradiction fun h' => hne (List.le_antisymm (List.not_lt.1 h') (List.not_lt.1 h))

theorem startsWith_singleton_iff {c : Char} {t : Text} :
    startsWith [c] t = true ↔ t.head? = some c := by
  cases t with
  | nil => simp [startsWith]
  | cons b t =>
    by_cases hb : c = b
    · simp [startsWith, List.isPrefixOf, ← hb]
    · simp [startsWith, List.isPrefixOf, hb, Ne.symm hb]

theorem after?_singleton_of_head? {c : Char} {t : Text} (h : t.head? ≠ some c) :
    after? [c] t = none := by
  cases t with
  | nil => rfl
  | cons d t =>
    have hcd : c ≠ d := fun heq => h (by rw [heq]; rfl)
    simp [after?, hcd]

theorem eq_append_of_after? {lead t rest : Text} (h : after? lead t = some rest) :
    t = lead ++ rest := by
  induction lead generalizing t with
  | nil => simpa [after?] using h
  | cons a lead ih =>
    cases t with
    | nil => simp [after?] at h
    | cons b t =>
      by_cases hab : a = b
      · simp only [after?, if_pos hab] at h
        simp [hab, ih h]
      · simp [after?, hab] at h

theorem joinWith_cons_cons (sep a b : Text) (ts : List Text) :
    joinWith sep (a :: b :: ts) = a ++ sep ++ joinWith sep (b :: ts) := rfl

end Text
end MonthlyJournal

/-!
## Blank characters, trimming and words

A character is blank when Unicode gives it the property White_Space. Words are
the maximal runs of other characters, so counting them needs only to know, at
each character, whether a word is already open.
-/

namespace MonthlyJournal.Text

/-- The code points with the Unicode property White_Space, as closed ranges. -/
def blankRanges : List (Nat × Nat) :=
  [(0x09, 0x0D), (0x20, 0x20), (0x85, 0x85), (0xA0, 0xA0), (0x1680, 0x1680),
   (0x2000, 0x200A), (0x2028, 0x2029), (0x202F, 0x202F), (0x205F, 0x205F), (0x3000, 0x3000)]

def isBlank (c : Char) : Bool := blankRanges.any fun r => r.1 ≤ c.toNat && c.toNat ≤ r.2

def trimStart (t : Text) : Text := t.dropWhile isBlank

def trimEnd (t : Text) : Text := (t.reverse.dropWhile isBlank).reverse

def trim (t : Text) : Text := trimEnd (trimStart t)

def allBlank (t : Text) : Bool := t.all isBlank

/-- The words that begin in a text, given whether a word is open before it. -/
def wordsAfter : Bool → Text → Nat
  | _, [] => 0
  | opened, c :: t =>
    if isBlank c then wordsAfter false t
    else (if opened then 0 else 1) + wordsAfter true t

def wordCount (t : Text) : Nat := wordsAfter false t

theorem isBlank_newline : isBlank '\n' = true := by decide

theorem trimStart_eq_nil_iff (t : Text) : trimStart t = [] ↔ allBlank t = true := by
  induction t with
  | nil => simp [trimStart, allBlank]
  | cons c t ih =>
    by_cases h : isBlank c
    · rw [trimStart, List.dropWhile_cons_of_pos h, allBlank, List.all_cons, h, Bool.true_and]
      exact ih
    · simp [trimStart, allBlank, List.dropWhile, h]

theorem wordCount_blank_cons {c : Char} (h : isBlank c = true) (t : Text) :
    wordCount (c :: t) = wordCount t := by simp [wordCount, wordsAfter, h]

/-- A blank separates: the words of the two sides are counted apart. -/
theorem wordsAfter_append_blank (opened : Bool) (s : Text) {c : Char} (h : isBlank c = true)
    (t : Text) : wordsAfter opened (s ++ c :: t) = wordsAfter opened s + wordCount t := by
  induction s generalizing opened with
  | nil => simp [wordsAfter, wordCount, h]
  | cons d s ih =>
    by_cases hd : isBlank d
    · simp [wordsAfter, hd, ih]
    · simp [wordsAfter, hd, ih, Nat.add_assoc]

end MonthlyJournal.Text

/-!
## Lines

Only a line feed ends a line, and it stays with the line that it ends. The
lines of a text therefore concatenate back to the text.
-/

namespace MonthlyJournal.Text

def lines : Text → List Text
  | [] => []
  | c :: t =>
    if c = '\n' then [c] :: lines t
    else match lines t with
      | [] => [[c]]
      | line :: rest => (c :: line) :: rest

def endLine (t : Text) : Text :=
  if t.isEmpty || t.getLast? = some '\n' then t else t ++ ['\n']

theorem flatten_lines (t : Text) : (lines t).flatten = t := by
  induction t with
  | nil => rfl
  | cons c t ih =>
    by_cases h : c = '\n'
    · simp [lines, h, ih]
    · rw [lines, if_neg h]
      cases hl : lines t with
      | nil => rw [hl] at ih; simp [← ih]
      | cons line rest => rw [hl] at ih; simpa using ih

theorem ne_nil_of_mem_lines {t line : Text} (h : line ∈ lines t) : line ≠ [] := by
  induction t generalizing line with
  | nil => simp [lines] at h
  | cons c t ih =>
    by_cases hc : c = '\n'
    · simp only [lines, if_pos hc, List.mem_cons] at h
      rcases h with rfl | h
      · simp
      · exact ih h
    · rw [lines, if_neg hc] at h
      cases hl : lines t with
      | nil => rw [hl] at h; simp at h; simp [h]
      | cons first rest =>
        rw [hl] at h
        simp only [List.mem_cons] at h
        rcases h with rfl | h
        · simp
        · exact ih (by rw [hl]; exact List.mem_cons_of_mem _ h)

end MonthlyJournal.Text

/-!
## Dictionaries

Values under texts, in the order of the texts. A text has one value at most, so
putting a value under a text takes the place of the one that is there.
-/

namespace MonthlyJournal

abbrev Dictionary (α : Type) := List (Text × α)

namespace Dictionary

variable {α : Type}

def get? (key : Text) : Dictionary α → Option α
  | [] => none
  | (k, v) :: rest => if k = key then some v else get? key rest

def insert (key : Text) (value : α) : Dictionary α → Dictionary α
  | [] => [(key, value)]
  | (k, v) :: rest =>
    if k = key then (key, value) :: rest
    else if key < k then (key, value) :: (k, v) :: rest
    else (k, v) :: insert key value rest

def keys (d : Dictionary α) : List Text := d.map (·.1)

theorem get?_insert (key : Text) (value : α) (d : Dictionary α) (k : Text) :
    get? k (insert key value d) = if key = k then some value else get? k d := by
  induction d with
  | nil => simp [insert, get?]
  | cons e rest ih =>
    obtain ⟨j, v⟩ := e
    simp only [insert]
    split
    next h => subst h; by_cases hk : j = k <;> simp [get?, hk]
    next h =>
      split
      next => simp [get?]
      next =>
        simp only [get?, ih]
        by_cases hj : j = k
        · subst hj
          simp [Ne.symm h]
        · simp [hj]

end Dictionary
end MonthlyJournal
