import MonthlyJournal.Yaml.Node

/-!
# Lines of a name and a word

A mapping is most often written as lines of a name, a colon and one word, plain or in
quotes. The tokens of such lines are known line by line: the scanner is at the beginning of
a line with the block of the mapping open, and so it is again after the line end.
-/

set_option autoImplicit false

namespace MonthlyJournal.Yaml

/-- The characters of words. None of them can end a scalar, or begin an escape. -/
def isWordChar (c : Char) : Bool :=
  isStreamChar c && !(isGapChar c || isBreak c || c == '\\' || c == '\ufeff') &&
    (c == '-' || !Scan.isIndicator c)

structure IsWord (w : Text) : Prop where
  ne_nil : w ≠ []
  ne_dash : w ≠ ['-']
  chars : ∀ c ∈ w, isWordChar c = true

section Characters

variable {c q : Char} {w rest : Text} {l k o : Nat}

theorem ne_of_isWordChar {d : Char} (h : isWordChar c = true) (hd : isWordChar d = false) :
    c ≠ d := by
  rintro rfl
  rw [h] at hd
  cases hd

theorem isGapChar_of_isWordChar (h : isWordChar c = true) : isGapChar c = false := by
  simp only [isWordChar, Bool.and_eq_true, Bool.not_eq_true', Bool.or_eq_false_iff] at h
  exact h.1.2.1.1.1

theorem isBreak_of_isWordChar (h : isWordChar c = true) : isBreak c = false := by
  simp only [isWordChar, Bool.and_eq_true, Bool.not_eq_true', Bool.or_eq_false_iff] at h
  exact h.1.2.1.1.2

theorem isStreamChar_of_isWordChar (h : isWordChar c = true) : isStreamChar c = true := by
  simp only [isWordChar, Bool.and_eq_true] at h
  exact h.1.1

theorem atWordEnd_cons_of_isWordChar (h : isWordChar c = true) (t : Text) :
    atWordEnd (c :: t) = false := by
  simp [atWordEnd, isGapChar_of_isWordChar h, isBreak_of_isWordChar h]

/-- A plain scalar takes a word whole. -/
theorem Plain.word_append (hw : ∀ c ∈ w, isWordChar c = true)
    (hrest : Plain.word false rest = .ok []) : Plain.word false (w ++ rest) = .ok w := by
  induction w with
  | nil => exact hrest
  | cons c w ih =>
    obtain ⟨hc, hw⟩ := List.forall_mem_cons.1 hw
    have hcolon : (c == ':') = false := by
      simpa using ne_of_isWordChar hc (by decide)
    rw [List.cons_append, Plain.word, isGapChar_of_isWordChar hc, isBreak_of_isWordChar hc, hcolon,
      ih hw]
    rfl

theorem Quoted.singleRun_append (hw : ∀ c ∈ w, isWordChar c = true)
    (hrest : Quoted.singleRun 0 rest = ([], 0)) :
    Quoted.singleRun 0 (w ++ rest) = (w, w.length) := by
  induction w with
  | nil => exact hrest
  | cons c w ih =>
    obtain ⟨hc, hw⟩ := List.forall_mem_cons.1 hw
    have hquote : (c == '\'') = false := by
      simpa using ne_of_isWordChar hc (by decide)
    rw [List.cons_append, Quoted.singleRun, hquote, isGapChar_of_isWordChar hc,
      isBreak_of_isWordChar hc, ih hw]
    rfl

theorem Quoted.doubleRun_append (hw : ∀ c ∈ w, isWordChar c = true)
    (hrest : Quoted.doubleRun 0 rest = .ok ([], 0)) :
    Quoted.doubleRun 0 (w ++ rest) = .ok (w, w.length) := by
  induction w with
  | nil => exact hrest
  | cons c w ih =>
    obtain ⟨hc, hw⟩ := List.forall_mem_cons.1 hw
    have hquote : (c == '"') = false := by
      simpa using ne_of_isWordChar hc (by decide)
    have hescape : (c == '\\') = false := by
      simpa using ne_of_isWordChar hc (by decide)
    rw [List.cons_append, Quoted.doubleRun, hquote, hescape, isGapChar_of_isWordChar hc,
      isBreak_of_isWordChar hc, ih hw]
    rfl

theorem Cursor.advance_length (w rest : Text) (l k o : Nat) :
    (Cursor.mk (w ++ rest) l k o).advance w.length =
      ⟨rest, l, k + w.length, o + Text.byteLength w⟩ := by
  simp [Cursor.advance]

theorem Cursor.advance_one (c : Char) (rest : Text) (l k o : Nat) :
    (Cursor.mk (c :: rest) l k o).advance 1 = ⟨rest, l, k + 1, o + c.utf8Size⟩ := by
  simp [Cursor.advance, Text.byteLength]

theorem Cursor.atDocumentMark_of_pos (rest : Text) (l k o : Nat) (hk : 0 < k) :
    (Cursor.mk rest l k o).atDocumentMark = false := by
  have hne : (k == 0) = false := by simpa using Nat.pos_iff_ne_zero.1 hk
  simp [Cursor.atDocumentMark, hne]

theorem ok_bind {ε α β : Type} (a : α) (f : α → Except ε β) : (Except.ok a >>= f) = f a := rfl

theorem Quoted.read_word (hw : ∀ c ∈ w, isWordChar c = true) (hq : q = '\'' ∨ q = '"')
    (hafter : Text.startsWith ['\''] rest = false) :
    ∃ o', Quoted.read q ⟨q :: (w ++ q :: rest), l, k, o⟩ =
      .ok (w, ⟨rest, l, k + 1 + w.length + 1, o'⟩) := by
  refine ⟨o + q.utf8Size + Text.byteLength w + q.utf8Size, ?_⟩
  have hmark := Cursor.atDocumentMark_of_pos (w ++ q :: rest) l (k + 1) (o + q.utf8Size) (by omega)
  rw [Quoted.read, Cursor.advance_one, Cursor.size, Quoted.readFrom]
  rcases hq with rfl | rfl
  · have hrun : Quoted.singleRun 0 (w ++ '\'' :: rest) = (w, w.length) := by
      apply Quoted.singleRun_append hw
      simp [Quoted.singleRun, hafter]
    simp [hmark, hrun, ok_bind, Cursor.advance_length, Cursor.advance_one, Cursor.startsWith,
      Text.startsWith]
    rfl
  · have hrun : Quoted.doubleRun 0 (w ++ '"' :: rest) = .ok (w, w.length) :=
      Quoted.doubleRun_append hw rfl
    simp [hmark, hrun, ok_bind, Cursor.advance_length, Cursor.advance_one, Cursor.startsWith,
      Text.startsWith]
    rfl

def StartsWord (t : Text) : Prop := ∀ c ∈ t.head?, isWordChar c = true

theorem Cursor.break?_of_head (h : ∀ c ∈ rest.head?, isBreak c = false) :
    (Cursor.mk rest l k o).break? = none := by
  cases rest with
  | nil => rfl
  | cons c t =>
    have hbreak := h c rfl
    unfold Cursor.break?
    split
    next hrest =>
      cases hrest
      cases hbreak
    next hrest =>
      cases hrest
      rw [hbreak]
      rfl
    next => rfl

theorem Cursor.skipWhile_of_head {p : Char → Bool} (h : ∀ c ∈ rest.head?, p c = false) :
    (Cursor.mk rest l k o).skipWhile p = ⟨rest, l, k, o⟩ := by
  have hnone : rest.takeWhile p = [] := by
    cases rest with
    | nil => rfl
    | cons c t => exact List.takeWhile_cons_of_neg (by simp [h c rfl])
  simp [Cursor.skipWhile, hnone, Cursor.advance, Text.byteLength]

theorem startsWith_of_head {d : Char} (h : ∀ c ∈ rest.head?, c ≠ d) :
    Text.startsWith [d] rest = false := by
  cases rest with
  | nil => rfl
  | cons c t =>
    have hbeq : (d == c) = false := by simpa using (h c rfl).symm
    show (d == c && _) = false
    rw [hbeq, Bool.false_and]

theorem Cursor.break?_newline :
    (Cursor.mk ('\n' :: rest) l k o).break? = some (['\n'], ⟨rest, l + 1, 0, o + 1⟩) := rfl

theorem Gap.read_newline (h : StartsWord rest) (m fuel : Nat) :
    Gap.read m (fuel + 2) {} ⟨'\n' :: rest, l, k, o⟩ =
      .ok (Gap.addBreak {} ['\n'], ⟨rest, l + 1, 0, o + 1⟩) := by
  rw [Gap.read, Cursor.break?_newline]
  show Gap.read m (fuel + 1) _ _ = _
  rw [Gap.read, Cursor.break?_of_head fun c hc => isBreak_of_isWordChar (h c hc)]
  cases rest with
  | nil => rfl
  | cons c t => simp [isGapChar_of_isWordChar (h c rfl)]

theorem IsWord.startsWord (h : IsWord w) (rest : Text) : StartsWord (w ++ rest) := by
  obtain ⟨c, t, rfl⟩ := List.exists_cons_of_ne_nil h.ne_nil
  intro d hd
  obtain rfl := Option.some.inj hd
  exact h.chars c List.mem_cons_self

theorem IsWord.not_comment (h : IsWord w) (rest : Text) :
    Text.startsWith ['#'] (w ++ rest) = false :=
  startsWith_of_head fun c hc => ne_of_isWordChar (h.startsWord rest c hc) (by decide)

theorem Plain.read_value (hw : IsWord w) (h : StartsWord rest) (hk : 0 < k) :
    Plain.read false 1 ⟨w ++ '\n' :: rest, l, k, o⟩ =
      .ok ⟨w, true, ⟨rest, l + 1, 0, o + Text.byteLength w + 1⟩⟩ := by
  have hmark := Cursor.atDocumentMark_of_pos (w ++ '\n' :: rest) l k o hk
  have hcomment := hw.not_comment ('\n' :: rest)
  have hword : Plain.word false (w ++ '\n' :: rest) = .ok w := Plain.word_append hw.chars rfl
  have hgap := Gap.read_newline (l := l) (k := k + w.length) (o := o + Text.byteLength w) h 1
    rest.length
  rw [Plain.read, Cursor.size, Plain.readFrom]
  simp [hmark, hcomment, hword, hw.ne_nil, ok_bind, Cursor.startsWith, Cursor.advance_length,
    atWordEnd, isBreak, isGapChar, Cursor.size, hgap, Gap.addBreak, Gap.text]
  rfl

theorem Cursor.atDocumentMark_name (hw : IsWord w) :
    (Cursor.mk (w ++ ':' :: rest) l k o).atDocumentMark = false := by
  -- three characters that make a mark are of the word, and what is behind them goes on with it
  have hmark : ∀ d ≠ ':', Text.startsWith [d, d, d] (w ++ ':' :: rest) = true →
      atWordEnd ((w ++ ':' :: rest).drop 3) = false := by
    intro d hd hstart
    have hprefix := List.isPrefixOf_iff_prefix.1 hstart
    match w, hw.chars with
    | [], _ => simp [hd] at hprefix
    | [a], _ => simp [hd] at hprefix
    | [a, b], _ => simp [hd] at hprefix
    | [a, b, c], _ => rfl
    | a :: b :: c :: e :: w, hchars =>
      apply atWordEnd_cons_of_isWordChar
      exact hchars e (by simp)
  cases hdash : Text.startsWith ['-', '-', '-'] (w ++ ':' :: rest) with
  | true => simp [Cursor.atDocumentMark, hmark '-' (by decide) hdash]
  | false =>
    cases hdot : Text.startsWith ['.', '.', '.'] (w ++ ':' :: rest) with
    | true => simp [Cursor.atDocumentMark, hmark '.' (by decide) hdot]
    | false => simp [Cursor.atDocumentMark, Cursor.startsWith, hdash, hdot]

theorem Plain.read_name (hw : IsWord w) (rest : Text) (l k o m : Nat) :
    Plain.read false m ⟨w ++ ':' :: ' ' :: rest, l, k, o⟩ =
      .ok ⟨w, false, ⟨':' :: ' ' :: rest, l, k + w.length, o + Text.byteLength w⟩⟩ := by
  have hmark : (Cursor.mk (w ++ ':' :: ' ' :: rest) l k o).atDocumentMark = false :=
    Cursor.atDocumentMark_name hw
  have hcomment := hw.not_comment (':' :: ' ' :: rest)
  have hword : Plain.word false (w ++ ':' :: ' ' :: rest) = .ok w :=
    Plain.word_append hw.chars rfl
  rw [Plain.read, Cursor.size, Plain.readFrom]
  simp [hmark, hcomment, hword, hw.ne_nil, ok_bind, Cursor.startsWith, Cursor.advance_length,
    atWordEnd, isBreak, isGapChar, isSeparator, Gap.text]
  rfl

end Characters

namespace Scan

variable {s : Scan} {c q : Char} {t w name rest : Text} {l k o : Nat} {tokens : List Token}
  {indents : List Nat}

theorem token_word (hc : isWordChar c = true) (hdash : c = '-' → atWordEnd t = false)
    (hmark : s.cursor.atDocumentMark = false) : s.token c t = s.plainScalar := by
  have hne : ∀ d, isWordChar d = false → ¬ c = d := fun d hd => ne_of_isWordChar hc hd
  have hentry : (c == '-' && atWordEnd t) = false := by
    by_cases h : c = '-'
    · rw [hdash h, Bool.and_false]
    · simp [h]
  have hbegins : beginsPlain s.inFlow c t = true := by
    by_cases h : c = '-'
    · have hgap : t.head?.any isGapChar = false := by
        have hend := hdash h
        cases t with
        | nil => cases hend
        | cons d t =>
          simp only [atWordEnd, Bool.or_eq_false_iff] at hend
          simpa using hend.1
      simp [beginsPlain, h, hgap]
    · have hindicator : isIndicator c = false := by
        simp only [isWordChar, Bool.and_eq_true, Bool.or_eq_true, Bool.not_eq_true',
          beq_iff_eq] at hc
        exact hc.2.resolve_left h
      simp [beginsPlain, isGapChar_of_isWordChar hc, isBreak_of_isWordChar hc, hindicator]
  have hentry' : ¬(c = '-' ∧ atWordEnd t = true) := by simpa using hentry
  simp (disch := decide) [token, hmark, hentry', hbegins, hne]

theorem token_colon (hmark : s.cursor.atDocumentMark = false) :
    s.token ':' (' ' :: t) = s.mappingValue := by
  simp [token, hmark, atWordEnd, isGapChar]

theorem token_quote (hq : q = '\'' ∨ q = '"') (hmark : s.cursor.atDocumentMark = false) :
    s.token q t = s.quotedScalar q := by
  rcases hq with rfl | rfl <;> simp [token, hmark]

def AtToken (t : Text) : Prop :=
  ∀ c ∈ t.head?, isGapChar c = false ∧ isBreak c = false ∧ c ≠ '#' ∧ c ≠ '\ufeff'

theorem atToken_of_startsWord (h : StartsWord t) : AtToken t := by
  intro c hc
  have hword := h c hc
  exact ⟨isGapChar_of_isWordChar hword, isBreak_of_isWordChar hword,
    ne_of_isWordChar hword (by decide), ne_of_isWordChar hword (by decide)⟩

theorem skipGap_atToken (hs : AtToken s.cursor.rest) (fuel : Nat) : s.skipGap fuel = s := by
  cases fuel with
  | zero => rfl
  | succ fuel =>
    obtain ⟨⟨rest, l, k, o⟩, tokens, indents, keys, allowed⟩ := s
    have hmark := startsWith_of_head fun c hc => (hs c hc).2.2.2
    have hcomment := startsWith_of_head fun c hc => (hs c hc).2.2.1
    have hbreak := Cursor.break?_of_head (l := l) (k := k) (o := o) fun c hc => (hs c hc).2.1
    have hblank : ∀ tabs : Bool, (Cursor.mk rest l k o).skipWhile
        (fun b => b == ' ' || tabs && b == '\t') = ⟨rest, l, k, o⟩ := by
      intro tabs
      apply Cursor.skipWhile_of_head
      intro c hc
      have hgap := (hs c hc).1
      simp only [isGapChar, Bool.or_eq_false_iff] at hgap
      simp [hgap]
    simp [skipGap, Cursor.startsWith, hmark, hcomment, hblank, hbreak]

theorem skipGap_space (hs : AtToken rest) (l k o : Nat) (tokens : List Token) (indents : List Nat)
    (fuel : Nat) :
    (Scan.mk ⟨' ' :: rest, l, k + 1, o⟩ tokens indents [none] false).skipGap (fuel + 1) =
      ⟨⟨rest, l, k + 2, o + 1⟩, tokens, indents, [none], false⟩ := by
  have hcomment := startsWith_of_head fun c hc => (hs c hc).2.2.1
  have hbreak := Cursor.break?_of_head (l := l) (k := k + 2) (o := o + 1) fun c hc => (hs c hc).2.1
  have hblank : (Cursor.mk (' ' :: rest) l (k + 1) o).skipWhile
      (fun b => b == ' ' || b == '\t') = ⟨rest, l, k + 2, o + 1⟩ := by
    have hnone : rest.takeWhile (fun b => b == ' ' || b == '\t') = [] := by
      cases rest with
      | nil => rfl
      | cons c t =>
        apply List.takeWhile_cons_of_neg
        have hgap := (hs c rfl).1
        simp only [isGapChar] at hgap
        simp [hgap]
    rw [Cursor.skipWhile, List.takeWhile_cons_of_pos (by decide), hnone]
    exact Cursor.advance_one ' ' rest l (k + 1) o
  simp [skipGap, hblank, Cursor.startsWith, hcomment, hbreak]

theorem skipGap_newline (hs : AtToken rest) (fuel : Nat) :
    (Scan.mk ⟨'\n' :: rest, l, k, o⟩ tokens indents [none] false).skipGap (fuel + 1) =
      ⟨⟨rest, l + 1, 0, o + 1⟩, tokens, indents, [none], true⟩ := by
  have hblank : (Cursor.mk ('\n' :: rest) l k o).skipWhile
      (fun b => b == ' ' || b == '\t') = ⟨'\n' :: rest, l, k, o⟩ := by
    apply Cursor.skipWhile_of_head
    intro c hc
    obtain rfl := Option.some.inj hc
    rfl
  simp [skipGap, Cursor.startsWith, Text.startsWith, hblank, Cursor.break?_newline,
    skipGap_atToken, hs, inFlow]

theorem unindent_eq (h : s.indents = [] ∨ s.indents = [0]) (column : Nat) :
    s.unindent column = s := by
  obtain ⟨cursor, tokens, indents, keys, allowed⟩ := s
  unfold unindent
  split
  · rfl
  · rcases h with rfl | rfl
    · rfl
    · simp [closeBlocks]

theorem dropStaleKeys_none (h : s.keys = [none]) : s.dropStaleKeys = .ok s := by
  obtain ⟨cursor, tokens, indents, keys, allowed⟩ := s
  obtain rfl := h
  rfl

theorem dropStaleKeys_some {key : SimpleKey} (h : s.keys = [some key])
    (hkey : s.isStale key = false) : s.dropStaleKeys = .ok s := by
  obtain ⟨cursor, tokens, indents, keys, allowed⟩ := s
  obtain rfl := h
  simp [dropStaleKeys, hkey]
  rfl

/-- One turn of the scanner, when no block ends in front of the token. -/
theorem run_token {s₁ s₂ : Scan} (hgap : s.skipGap s.cursor.size = s₁)
    (hkeys : s₁.dropStaleKeys = .ok s₁) (hindents : s₁.indents = [] ∨ s₁.indents = [0])
    (hrest : s₁.cursor.rest = c :: t) (htoken : s₁.token c t = .ok s₂) (fuel : Nat) :
    run (fuel + 1) s = run fuel s₂ := by
  simp only [run, hgap, hkeys, ok_bind, unindent_eq hindents, hrest, htoken]

def atLine (rest : Text) (l o : Nat) (tokens : List Token) (indents : List Nat) : Scan :=
  ⟨⟨rest, l, 0, o⟩, tokens, indents, [none], true⟩

def atColon (name rest : Text) (l o : Nat) (tokens : List Token) (indents : List Nat) : Scan where
  cursor := ⟨':' :: ' ' :: rest, l, name.length, o + Text.byteLength name⟩
  tokens := .scalar true name :: tokens
  indents
  keys := [some ⟨indents.head? == some 0, tokens.length, l, 0, o⟩]
  keyAllowed := false

theorem plainScalar_of_read {s₁ : Scan} {r : Plain.Result} (hkey : s.saveKey = .ok s₁)
    (hread : Plain.read s₁.inFlow s₁.minimum s₁.cursor = .ok r) :
    s.plainScalar = .ok { s₁.emit (.scalar true r.text) with
      cursor := r.cursor, keyAllowed := r.broken } := by
  rw [plainScalar, hkey, ok_bind, hread, ok_bind]
  rfl

theorem quotedScalar_of_read {s₁ : Scan} {cursor : Cursor} (hkey : s.saveKey = .ok s₁)
    (hread : Quoted.read q s₁.cursor = .ok (w, cursor)) :
    s.quotedScalar q = .ok { s₁.emit (.scalar false w) with cursor, keyAllowed := false } := by
  rw [quotedScalar, hkey, ok_bind, hread, ok_bind]
  rfl

theorem saveKey_atLine : (atLine t l o tokens indents).saveKey =
    .ok ⟨⟨t, l, 0, o⟩, tokens, indents,
      [some ⟨indents.head? == some 0, tokens.length, l, 0, o⟩], true⟩ := rfl

theorem plainScalar_name (hname : IsWord name) :
    (atLine (name ++ ':' :: ' ' :: rest) l o tokens indents).plainScalar =
      .ok (atColon name rest l o tokens indents) := by
  have hread := Plain.read_name hname rest l 0 o
  simp only [Nat.zero_add] at hread
  exact plainScalar_of_read saveKey_atLine (hread _)

def opening (indents : List Nat) : List Token :=
  if indents = [] then [.blockMappingStart] else []

theorem mappingValue_atColon (h : indents = [] ∨ indents = [0]) :
    (atColon name rest l o tokens indents).mappingValue =
      .ok ⟨⟨' ' :: rest, l, name.length + 1, o + Text.byteLength name + 1⟩,
        .value :: .scalar true name :: .key :: (opening indents ++ tokens), [0], [none],
        false⟩ := by
  rcases h with rfl | rfl
  · have hlater : tokens.length + 1 + 1 - tokens.length = 2 := by omega
    simp [mappingValue, atColon, opening, insert, indent, emit, inFlow, Cursor.advance_one, hlater]
    rfl
  · simp [mappingValue, atColon, opening, insert, indent, emit, inFlow, Cursor.advance_one]
    rfl

theorem atWordEnd_of_isWord (h : IsWord (c :: t)) (rest : Text) :
    c = '-' → atWordEnd (t ++ rest) = false := by
  rintro rfl
  cases t with
  | nil => exact absurd rfl h.ne_dash
  | cons d t => exact atWordEnd_cons_of_isWordChar (h.chars d (by simp)) _

theorem run_name (hname : IsWord name) (hindents : indents = [] ∨ indents = [0])
    (hgap : s.skipGap s.cursor.size = atLine (name ++ ':' :: ' ' :: rest) l o tokens indents)
    (fuel : Nat) : run (fuel + 1) s = run fuel (atColon name rest l o tokens indents) := by
  obtain ⟨c, t, rfl⟩ := List.exists_cons_of_ne_nil hname.ne_nil
  have htoken : (atLine (c :: t ++ ':' :: ' ' :: rest) l o tokens indents).token c
      (t ++ ':' :: ' ' :: rest) = .ok (atColon (c :: t) rest l o tokens indents) := by
    rw [token_word (hname.chars c List.mem_cons_self) (atWordEnd_of_isWord hname _)
      (Cursor.atDocumentMark_name hname), plainScalar_name hname]
  exact run_token hgap (dropStaleKeys_none rfl) hindents rfl htoken fuel

theorem run_colon (hname : IsWord name) (hindents : indents = [] ∨ indents = [0])
    (hreach : Text.byteLength name ≤ keyReach) (fuel : Nat) :
    run (fuel + 1) (atColon name rest l o tokens indents) =
      run fuel ⟨⟨' ' :: rest, l, name.length + 1, o + Text.byteLength name + 1⟩,
        .value :: .scalar true name :: .key :: (opening indents ++ tokens), [0], [none],
        false⟩ := by
  have hgap : AtToken (atColon name rest l o tokens indents).cursor.rest := by
    intro c hc
    obtain rfl := Option.some.inj hc
    decide
  have hkeys : (atColon name rest l o tokens indents).isStale
      ⟨indents.head? == some 0, tokens.length, l, 0, o⟩ = false := by
    simp [isStale, atColon]
    omega
  have hpos : 0 < name.length := List.length_pos_iff.2 hname.ne_nil
  have htoken : (atColon name rest l o tokens indents).token ':' (' ' :: rest) = _ :=
    (token_colon (Cursor.atDocumentMark_of_pos _ _ _ _ hpos)).trans (mappingValue_atColon hindents)
  exact run_token (skipGap_atToken hgap _) (dropStaleKeys_some rfl hkeys) hindents rfl htoken fuel

def atValue (rest : Text) (l k o : Nat) (tokens : List Token) : Scan :=
  ⟨⟨rest, l, k + 1, o⟩, tokens, [0], [none], false⟩

theorem saveKey_atValue : (atValue t l k o tokens).saveKey = .ok (atValue t l k o tokens) := rfl

theorem plainScalar_atValue (hw : IsWord w) (hrest : StartsWord rest) (l k o : Nat)
    (tokens : List Token) :
    (atValue (w ++ '\n' :: rest) l k o tokens).plainScalar =
      .ok (atLine rest (l + 1) (o + Text.byteLength w + 1) (.scalar true w :: tokens) [0]) := by
  have hread := Plain.read_value (l := l) (k := k + 1) (o := o) hw hrest (by omega)
  exact plainScalar_of_read saveKey_atValue hread

theorem quotedScalar_atValue (hw : IsWord w) (hq : q = '\'' ∨ q = '"') (rest : Text) (l k o : Nat)
    (tokens : List Token) :
    ∃ o', (atValue (q :: (w ++ q :: '\n' :: rest)) l k o tokens).quotedScalar q =
      .ok ⟨⟨'\n' :: rest, l, k + 1 + 1 + w.length + 1, o'⟩, .scalar false w :: tokens, [0], [none],
        false⟩ := by
  obtain ⟨o', hread⟩ : ∃ o', Quoted.read q ⟨q :: (w ++ q :: '\n' :: rest), l, k + 1, o⟩ =
      .ok (w, ⟨'\n' :: rest, l, k + 1 + 1 + w.length + 1, o'⟩) :=
    Quoted.read_word hw.chars hq rfl
  exact ⟨o', quotedScalar_of_read saveKey_atValue hread⟩

theorem run_plain (hw : IsWord w) (hrest : StartsWord rest) :
    ∃ s' o', s'.skipGap s'.cursor.size = atLine rest (l + 1) o' (.scalar true w :: tokens) [0] ∧
      ∀ fuel, run (fuel + 1) (atValue (' ' :: (w ++ '\n' :: rest)) l k o tokens) = run fuel s' := by
  have hscalar := plainScalar_atValue hw hrest l (k + 1) (o + 1) tokens
  have hgap := skipGap_space (atToken_of_startsWord (hw.startsWord ('\n' :: rest))) l k o tokens [0]
    ((w ++ '\n' :: rest).length + 1)
  have hnext : ∀ o' n, (atLine rest (l + 1) o' (.scalar true w :: tokens) [0]).skipGap n = _ :=
    fun _ n => skipGap_atToken (atToken_of_startsWord hrest) n
  obtain ⟨c, t, rfl⟩ := List.exists_cons_of_ne_nil hw.ne_nil
  have htoken : (atValue (c :: t ++ '\n' :: rest) l (k + 1) (o + 1) tokens).token c
      (t ++ '\n' :: rest) = _ :=
    (token_word (hw.chars c List.mem_cons_self) (atWordEnd_of_isWord hw _)
      (Cursor.atDocumentMark_of_pos _ l (k + 1 + 1) (o + 1) (by omega))).trans hscalar
  exact ⟨_, _, hnext _ _, run_token hgap (dropStaleKeys_none rfl) (.inr rfl) rfl htoken⟩

theorem run_quoted (hw : IsWord w) (hq : q = '\'' ∨ q = '"') (hrest : StartsWord rest) :
    ∃ s' o', s'.skipGap s'.cursor.size =
        atLine rest (l + 1) o' (.scalar false w :: tokens) [0] ∧
      ∀ fuel, run (fuel + 1) (atValue (' ' :: q :: (w ++ q :: '\n' :: rest)) l k o tokens) =
        run fuel s' := by
  obtain ⟨o', hscalar⟩ := quotedScalar_atValue hw hq rest l (k + 1) (o + 1) tokens
  have hquote : AtToken (q :: (w ++ q :: '\n' :: rest)) := by
    intro c hc
    obtain rfl := Option.some.inj hc
    rcases hq with rfl | rfl <;> decide
  have hgap := skipGap_space hquote l k o tokens [0] ((q :: (w ++ q :: '\n' :: rest)).length + 1)
  have htoken : (atValue (q :: (w ++ q :: '\n' :: rest)) l (k + 1) (o + 1) tokens).token q
      (w ++ q :: '\n' :: rest) = _ :=
    (token_quote hq (Cursor.atDocumentMark_of_pos _ l (k + 1 + 1) (o + 1) (by omega))).trans hscalar
  refine ⟨_, o' + 1, ?_, run_token hgap (dropStaleKeys_none rfl) (.inr rfl) rfl htoken⟩
  exact skipGap_newline (atToken_of_startsWord hrest) _

end Scan

structure Field where
  name : Text
  text : Text
  quote : Option Char := none

namespace Field

def spelled (f : Field) : Text :=
  match f.quote with
  | none => f.text
  | some q => q :: f.text ++ [q]

def line (f : Field) : Text := f.name ++ ':' :: ' ' :: f.spelled ++ ['\n']

def tokens (f : Field) : List Token :=
  [.key, .scalar true f.name, .value, .scalar f.quote.isNone f.text]

structure Simple (f : Field) : Prop where
  name : IsWord f.name
  reach : Text.byteLength f.name ≤ keyReach
  text : IsWord f.text
  quote : ∀ q ∈ f.quote, q = '\'' ∨ q = '"'

variable {f : Field} {fs : List Field} {s : Scan} {rest : Text} {l k o : Nat} {tokens : List Token}
  {indents : List Nat}

theorem startsWord_lines (h : ∀ f ∈ fs, f.Simple) : StartsWord (fs.flatMap line) := by
  cases fs with
  | nil =>
    intro c hc
    cases hc
  | cons f fs =>
    have hname := (h f List.mem_cons_self).name
    rw [List.flatMap_cons, line, List.append_assoc, List.append_assoc]
    exact hname.startsWord _

open Scan in
theorem run_value (h : f.Simple) (hrest : StartsWord rest) (l k o : Nat) (tokens : List Token) :
    ∃ s' o', s'.skipGap s'.cursor.size =
        atLine rest (l + 1) o' (.scalar f.quote.isNone f.text :: tokens) [0] ∧
      ∀ fuel, run (fuel + 1) (atValue (' ' :: (f.spelled ++ '\n' :: rest)) l k o tokens) =
        run fuel s' := by
  unfold spelled
  cases hquote : f.quote with
  | none => exact run_plain h.text hrest
  | some q =>
    rw [List.append_assoc]
    exact run_quoted h.text (h.quote q hquote) hrest

/-- Three turns of the scanner take a line, and the first line opens the block. -/
theorem run_line (h : f.Simple) (hrest : StartsWord rest) (hindents : indents = [] ∨ indents = [0])
    (hgap : s.skipGap s.cursor.size = Scan.atLine (f.line ++ rest) l o tokens indents) :
    ∃ s' o', s'.skipGap s'.cursor.size =
        Scan.atLine rest (l + 1) o' (f.tokens.reverse ++ (Scan.opening indents ++ tokens)) [0] ∧
      ∀ fuel, Scan.run (fuel + 3) s = Scan.run fuel s' := by
  have hline : f.line ++ rest = f.name ++ ':' :: ' ' :: (f.spelled ++ '\n' :: rest) := by
    simp [line]
  rw [hline] at hgap
  obtain ⟨s', o', hgap', hvalue⟩ := run_value h hrest l f.name.length
    (o + Text.byteLength f.name + 1)
    (.value :: .scalar true f.name :: .key :: (Scan.opening indents ++ tokens))
  refine ⟨s', o', hgap', fun fuel => ?_⟩
  rw [Scan.run_name h.name hindents hgap, Scan.run_colon h.name hindents h.reach]
  exact hvalue fuel

theorem run_lines (h : ∀ f ∈ fs, f.Simple)
    (hgap : s.skipGap s.cursor.size = Scan.atLine (fs.flatMap line) l o tokens [0]) (fuel : Nat) :
    ∃ s', Scan.run (3 * fs.length + fuel + 1) s = .ok s' ∧
      s'.tokens = .streamEnd :: .blockEnd :: ((fs.flatMap Field.tokens).reverse ++ tokens) := by
  -- a line takes three turns, and the end of the stream the one that is left
  induction fs generalizing s l o tokens with
  | nil =>
    have hrun : Scan.run (fuel + 1) s = (Scan.atLine [] l o tokens [0]).finish := by
      simp only [Scan.run, hgap, List.flatMap_nil]
      rfl
    rw [List.length_nil, Nat.mul_zero, Nat.zero_add, hrun]
    exact ⟨_, rfl, rfl⟩
  | cons f fs ih =>
    obtain ⟨hf, hfs⟩ := List.forall_mem_cons.1 h
    obtain ⟨s', o', hgap', hrun⟩ := run_line hf (startsWord_lines hfs) (.inr rfl) hgap
    obtain ⟨s'', hrest, htokens⟩ := ih hfs hgap'
    refine ⟨s'', ?_, ?_⟩
    · have hfuel : 3 * (f :: fs).length + fuel + 1 = 3 * fs.length + fuel + 1 + 3 := by
        rw [List.length_cons]
        omega
      rw [hfuel, hrun, hrest]
    · rw [htokens, List.flatMap_cons, List.reverse_append, List.append_assoc]
      rfl

theorem length_lines (fs : List Field) : 3 * fs.length ≤ (fs.flatMap line).length := by
  induction fs with
  | nil => exact Nat.le_refl 0
  | cons f fs ih =>
    simp only [List.flatMap_cons, line, List.length_append, List.length_cons, List.length_nil]
    omega

theorem isStreamChar_lines (h : ∀ f ∈ fs, f.Simple) :
    (fs.flatMap line).all isStreamChar = true := by
  apply List.all_eq_true.2
  intro c hc
  obtain ⟨f, hf, hc⟩ := List.mem_flatMap.1 hc
  have hsimple := h f hf
  have hname : c ∈ f.name → isStreamChar c = true :=
    fun hc => isStreamChar_of_isWordChar (hsimple.name.chars c hc)
  have htext : c ∈ f.text → isStreamChar c = true :=
    fun hc => isStreamChar_of_isWordChar (hsimple.text.chars c hc)
  have hspelled : c ∈ f.spelled → isStreamChar c = true := by
    unfold spelled
    cases hquote : f.quote with
    | none => exact htext
    | some q =>
      have hq : isStreamChar q = true := by
        rcases hsimple.quote q hquote with rfl | rfl <;> decide
      simp only [List.cons_append, List.mem_cons, List.mem_append, List.not_mem_nil, or_false]
      rintro (rfl | hc | rfl)
      · exact hq
      · exact htext hc
      · exact hq
  simp only [line, List.mem_append, List.mem_cons, List.not_mem_nil, or_false] at hc
  rcases hc with (hc | rfl | rfl | hc) | rfl
  · exact hname hc
  · decide
  · decide
  · exact hspelled hc
  · decide

/-- The tokens of lines of two words. -/
theorem tokensOf_lines (h : ∀ f ∈ fs, f.Simple) (hne : fs ≠ []) :
    tokensOf (fs.flatMap line) =
      .ok (.blockMappingStart :: (fs.flatMap Field.tokens ++ [.blockEnd, .streamEnd])) := by
  have hlength := length_lines fs
  have hstart := startsWord_lines h
  rw [tokensOf, if_pos (isStreamChar_lines h)]
  obtain ⟨f, fs, rfl⟩ := List.exists_cons_of_ne_nil hne
  obtain ⟨hf, hfs⟩ := List.forall_mem_cons.1 h
  have hgap : ∀ n, (Scan.atLine (f.line ++ fs.flatMap line) 0 0 [] []).skipGap n = _ :=
    Scan.skipGap_atToken (Scan.atToken_of_startsWord hstart)
  obtain ⟨s', o', hgap', hrun⟩ := run_line hf (startsWord_lines hfs) (.inl rfl) (hgap _)
  obtain ⟨s'', hrest, htokens⟩ := run_lines hfs hgap'
    (((f :: fs).flatMap line).length - 3 * (f :: fs).length)
  have hfuel : ((f :: fs).flatMap line).length + 1 =
      3 * fs.length + (((f :: fs).flatMap line).length - 3 * (f :: fs).length) + 1 + 3 := by
    simp only [List.length_cons] at hlength ⊢
    omega
  show (Scan.run (((f :: fs).flatMap line).length + 1)
    (Scan.atLine (f.line ++ fs.flatMap line) 0 0 [] []) >>= fun s => .ok s.tokens.reverse) = _
  rw [hfuel, hrun, hrest, ok_bind, htokens]
  simp [Scan.opening, Field.tokens]

end Field
namespace Node

def ofField (f : Field) : Node × Node :=
  (.scalar {} true f.name, .scalar {} f.quote.isNone f.text)

variable {f : Field} {fs : List Field} {tokens : List Token} {anchors : List (Text × Nat)}
  {handles : List (Text × Tag)} {n : Nat}

theorem blockPairs_cons : (blockPairs (n + 3)).run ⟨f.tokens ++ tokens, anchors, handles⟩ =
    (blockPairs (n + 2)).run ⟨tokens, anchors, handles⟩ >>= fun x =>
      .ok (ofField f :: x.1, x.2) := rfl

theorem blockPairs_lines (fs : List Field) (n : Nat) :
    (blockPairs (fs.length + n + 2)).run
      ⟨fs.flatMap Field.tokens ++ .blockEnd :: tokens, anchors, handles⟩ =
      .ok (fs.map ofField, ⟨tokens, anchors, handles⟩) := by
  induction fs with
  | nil => rfl
  | cons f fs ih =>
    have hfuel : fs.length + 1 + n + 2 = fs.length + n + 3 := by omega
    rw [List.length_cons, List.flatMap_cons, List.append_assoc, hfuel, blockPairs_cons, ih]
    rfl

theorem length_tokens (fs : List Field) : fs.length ≤ (fs.flatMap Field.tokens).length := by
  induction fs with
  | nil => exact Nat.le_refl 0
  | cons f fs ih =>
    simp only [List.flatMap_cons, Field.tokens, List.length_append, List.length_cons,
      List.length_nil]
    omega

theorem read_lines (fs : List Field) (n : Nat) (tokens : List Token) (anchors : List (Text × Nat))
    (handles : List (Text × Tag)) :
    (read .block (fs.length + n + 3)).run
      ⟨.blockMappingStart :: (fs.flatMap Field.tokens ++ .blockEnd :: tokens), anchors, handles⟩ =
      .ok (.mapping {} (fs.map ofField), ⟨tokens, anchors, handles⟩) := by
  have hread : (read .block (fs.length + n + 3)).run
      ⟨.blockMappingStart :: (fs.flatMap Field.tokens ++ .blockEnd :: tokens), anchors, handles⟩ =
      (blockPairs (fs.length + n + 2)).run
        ⟨fs.flatMap Field.tokens ++ .blockEnd :: tokens, anchors, handles⟩ >>= fun x =>
          .ok (.mapping {} x.1, x.2) := rfl
  rw [hread, blockPairs_lines]
  rfl

theorem readStream_lines (fs : List Field) (n : Nat) :
    (readStream (fs.length + n + 3)).run
      { tokens := .blockMappingStart :: (fs.flatMap Field.tokens ++ [.blockEnd, .streamEnd]) } =
      .ok (some (.mapping {} (fs.map ofField)), ⟨[.streamEnd], [], defaultHandles⟩) := by
  have hread := read_lines fs n [.streamEnd] [] defaultHandles
  have hstream : (readStream (fs.length + n + 3)).run
      { tokens := .blockMappingStart :: (fs.flatMap Field.tokens ++ [.blockEnd, .streamEnd]) } =
      (read .block (fs.length + n + 3)).run
        ⟨.blockMappingStart :: (fs.flatMap Field.tokens ++ [.blockEnd, .streamEnd]), [],
          defaultHandles⟩ >>= fun x =>
          (do
            skipDocumentEnds (fs.length + n + 3)
            if (← Read.peek) = .streamEnd then return some x.1
            throw Fault.severalDocuments : Read (Option Node)).run x.2 := rfl
  rw [hstream, hread]
  rfl

/-- The tree of lines of two words. -/
theorem ofText_lines (h : ∀ f ∈ fs, f.Simple) (hne : fs ≠ []) :
    Node.ofText (fs.flatMap Field.line) = .ok (some (.mapping {} (fs.map ofField))) := by
  have hlength := length_tokens fs
  rw [Node.ofText, Field.tokensOf_lines h hne, ok_bind]
  obtain ⟨n, hn⟩ : ∃ n, 3 * (Token.blockMappingStart ::
      (fs.flatMap Field.tokens ++ [.blockEnd, .streamEnd])).length + 3 = fs.length + n + 3 := by
    refine ⟨3 * (fs.flatMap Field.tokens).length + 9 - fs.length, ?_⟩
    simp only [List.length_cons, List.length_append, List.length_nil]
    omega
  rw [hn, readStream_lines]
  rfl

end Node
end MonthlyJournal.Yaml
