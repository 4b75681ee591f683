import MonthlyJournal.FrontMatter
import MonthlyJournal.Proofs.Text.Lines
import MonthlyJournal.Proofs.Text.Words
import MonthlyJournal.Proofs.Yaml.Numbers
import MonthlyJournal.Proofs.Yaml.Styles

/-!
# Numbers with and without quotes

A quoted scalar is a text as it stands. A plain one that is a number becomes the text of
the number, so the two are the same front matter just when the number is written as it is
printed.
-/

set_option autoImplicit false

namespace MonthlyJournal

open Yaml Yaml.Node

namespace FrontMatter

variable {key text s : Text} {k v : Value} {ps ps' : List (Value × Value)}

def field? (m : FrontMatter) (key : Text) : Option Text :=
  if key = "published".toList then some m.published
  else if key = "entry".toList then m.entry
  else if key = "slug".toList then m.slug
  else if key = "tag".toList then m.tag
  else none

def numberText? : Value → Option Text
  | .int n => some (Whole.print n)
  | .float x => some (floatNotation.text x)
  | _ => none

theorem plainText_of_number (h : numberText? v = some text) :
    plainText key (some v) = .ok (some text) := by
  cases v with
  | int n => exact congrArg Except.ok h
  | float x => exact congrArg Except.ok h
  | null | bool _ | string _ | sequence _ | mapping _ | tagged _ _ => cases h

def Apart (key text s other : Text) (o o' : Option Text) : Prop :=
  (other = key → o = some text ∧ o' = some s) ∧ (other ≠ key → o = o')

def NamedBeside (key : Text) (v v' : Value) (named named' : List (Text × Value)) : Prop :=
  ∃ before after, named = before ++ (key, v) :: after ∧ named' = before ++ (key, v') :: after ∧
    key ∉ before.map (·.1)

theorem related_namedPairs {v' : Value} (hkey : key ∈ knownKeys) (hk : keyText? k = some key)
    (h : Beside k v v' ps ps') :
    Related (NamedBeside key v v') (namedPairs ps) (namedPairs ps') := by
  obtain ⟨before, after, rfl, rfl⟩ := h
  unfold namedPairs
  simp only [List.mapM_append, List.mapM_cons, hk, bind_assoc, pure_bind]
  apply Related.bind (Related.refl (fun _ => rfl) _)
  rintro named - rfl
  apply Related.bind (x := .ok (key, v)) (y := .ok (key, v'))
    (R := fun x x' => x = (key, v) ∧ x' = (key, v')) ⟨rfl, rfl⟩
  rintro - - ⟨rfl, rfl⟩
  apply Related.bind (Related.refl (fun _ => rfl) _)
  rintro rest - rfl
  simp only [List.countP_append, List.countP_cons]
  split
  next => exact Eq.refl (malformedBy .duplicateKey)
  next honce =>
    -- a known key that stood in front as well would stand twice
    refine ⟨named, rest, rfl, rfl, fun hmem => honce ?_⟩
    obtain ⟨pair, hpair, hname⟩ := List.mem_map.1 hmem
    have hpos : 0 < named.countP fun x => decide (x.1 = key) :=
      List.countP_pos_iff.2 ⟨pair, hpair, decide_eq_true hname⟩
    apply List.any_eq_true.2
    refine ⟨key, hkey, decide_eq_true ?_⟩
    rw [if_pos (decide_eq_true rfl)]
    omega

theorem related_plainText {named named' : List (Text × Value)}
    (hv : plainText key (some v) = .ok (some text))
    (h : NamedBeside key v (.string s) named named') (other : Text) :
    Related (Apart key text s other) (plainText other (named.lookup other))
      (plainText other (named'.lookup other)) := by
  obtain ⟨before, after, rfl, rfl, hbefore⟩ := h
  rw [List.lookup_append, List.lookup_append]
  by_cases hother : other = key
  · subst hother
    have hnone : before.lookup other = none := by
      apply List.lookup_eq_none_iff.2
      intro pair hpair
      have hne : pair.1 ≠ other := fun heq => hbefore (heq ▸ List.mem_map_of_mem hpair)
      simpa using hne.symm
    rw [hnone, List.lookup_cons_self, List.lookup_cons_self, Option.none_or, Option.none_or, hv]
    exact ⟨fun _ => ⟨rfl, rfl⟩, fun hne => absurd rfl hne⟩
  · have hne : (other == key) = false := by simpa using hother
    rw [List.lookup_cons, List.lookup_cons, hne]
    exact Related.refl (fun o => ⟨fun heq => absurd heq hother, fun _ => rfl⟩) _

theorem related_ofPairs (hkey : key ∈ knownKeys) (hk : keyText? k = some key)
    (hv : plainText key (some v) = .ok (some text)) (h : Beside k v (.string s) ps ps') :
    Related (fun m m' => ∀ other ∈ knownKeys, Apart key text s other (m.field? other)
      (m'.field? other)) (ofPairs ps) (ofPairs ps') := by
  unfold ofPairs
  apply Related.bind (related_namedPairs hkey hk h)
  intro named named' hnamed
  have hfield := related_plainText hv hnamed
  apply Related.bind (hfield _)
  intro p p' hp
  -- the date is there in both or in neither, also when it is the key that differs
  have hpublished : (p = none ∧ p' = none) ∨ ∃ t t', p = some t ∧ p' = some t' := by
    by_cases hname : "published".toList = key
    · exact .inr ⟨text, s, hp.1 hname⟩
    · rw [hp.2 hname]
      cases p' with
      | none => exact .inl ⟨rfl, rfl⟩
      | some t => exact .inr ⟨t, t, rfl, rfl⟩
  rcases hpublished with ⟨rfl, rfl⟩ | ⟨t, t', rfl, rfl⟩
  · exact Eq.refl Fault.missingPublished
  apply Related.bind (hfield _)
  intro e e' he
  apply Related.bind (hfield _)
  intro u u' hu
  apply Related.bind (hfield _)
  intro w w' hw
  show ∀ other ∈ ["published".toList, "entry".toList, "slug".toList, "tag".toList], _
  simp only [List.forall_mem_cons]
  exact ⟨hp, he, hu, hw, by simp⟩

/-- A known key is a text, and nothing else that a plain scalar can be. -/
theorem knownKey_isText (hkey : key ∈ knownKeys) :
    Value.readBool? key = none ∧ Whole.read? key = none ∧ readFloat? key = none ∧
      Value.isNull key = false := by
  have hall : ∀ key ∈ knownKeys, (Value.readBool? key).isNone ∧ (Whole.read? key).isNone ∧
      (readFloat? key).isNone ∧ Value.isNull key = false := by
    decide +kernel
  obtain ⟨hbool, hwhole, hfloat, hnull⟩ := hall key hkey
  exact ⟨Option.isNone_iff_eq_none.1 hbool, Option.isNone_iff_eq_none.1 hwhole,
    Option.isNone_iff_eq_none.1 hfloat, hnull⟩

theorem knownKey_isWord (hkey : key ∈ knownKeys) :
    IsWord key ∧ Text.byteLength key ≤ keyReach := by
  have hall : ∀ key ∈ knownKeys, key ≠ [] ∧ key ≠ ['-'] ∧
      key.all isWordChar = true ∧ Text.byteLength key ≤ keyReach := by
    decide
  obtain ⟨hnil, hdash, hchars, hreach⟩ := hall key hkey
  exact ⟨⟨hnil, hdash, List.all_eq_true.1 hchars⟩, hreach⟩

theorem ofUntagged_knownKey (hkey : key ∈ knownKeys) (plain : Bool) :
    Value.ofUntagged plain key = .ok (.string key) := by
  obtain ⟨hbool, hwhole, hfloat, hnull⟩ := knownKey_isText hkey
  cases plain with
  | false => rfl
  | true =>
    have hempty : key.isEmpty = false := by
      revert key
      decide
    simp [Value.ofUntagged, Value.ofPlain, hempty, hnull, hbool, hwhole, hfloat]

theorem ofCore_knownKey {tag : Tag} (hkey : key ∈ knownKeys)
    (h : Value.ofCore tag key = .ok k) : k = .string key := by
  obtain ⟨hbool, hwhole, hfloat, hnull⟩ := knownKey_isText hkey
  unfold Value.ofCore at h
  rw [hbool, hwhole, hfloat, hnull] at h
  -- as a truth value, a number or nothing the key does not fit
  repeat
    split at h
    · cases h
  exact (Except.ok.inj h).symm

theorem keyText?_of_ofScalar {q : Properties} {plain : Bool} (hkey : key ∈ knownKeys)
    (h : Value.ofScalar q plain key = .ok k) : keyText? k = some key := by
  unfold Value.ofScalar at h
  rw [ofUntagged_knownKey hkey] at h
  split at h
  next name hname =>
    cases h
    rfl
  split at h
  next tag htag =>
    split at h
    · cases h
      rfl
    · rw [ofCore_knownKey hkey h]
      rfl
  next =>
    cases h
    rfl

variable {t t' : Text} {f : Frame}

theorem load_of_ofText {root : Yaml.Node} (h : Yaml.Node.ofText t = .ok (some root)) :
    load t = root.value := by
  rw [load, h]
  rfl

/-- Meta sections that are the same but for a known key, which has the text `s` for its value
as a plain scalar in one, and as a quoted scalar in the other. -/
structure Requoted (f : Frame) (s t t' : Text) : Prop where
  key : f.key ∈ knownKeys
  content : hasContent t = hasContent t'
  plain : Yaml.Node.ofText t = .ok (some (f.fill true s))
  quoted : Yaml.Node.ofText t' = .ok (some (f.fill false s))

theorem Requoted.related_decode (h : Requoted f s t t') (hs : Value.ofPlain s = .ok v)
    (hv : plainText f.key (some v) = .ok (some text)) :
    Related (fun m m' => ∀ other ∈ knownKeys, Apart f.key text s other (m.field? other)
      (m'.field? other)) (decode t) (decode t') := by
  have hrelated := f.related_value hs
  rw [decode, decode, h.content, load_of_ofText h.plain, load_of_ofText h.quoted]
  split
  · generalize (f.fill true s).value = r at hrelated
    generalize (f.fill false s).value = r' at hrelated
    cases r with
    | error e =>
      cases r' with
      | error e' => exact congrArg malformedBy hrelated
      | ok w' => exact hrelated.elim
    | ok w =>
      cases r' with
      | error e' => exact hrelated.elim
      | ok w' =>
        obtain ⟨k, ps, ps', hk, hps, rfl, rfl⟩ := hrelated
        cases hname : Value.localName? f.properties with
        | some name =>
          rw [Value.named, Value.named, hname]
          exact Eq.refl Fault.notAMapping
        | none =>
          rw [Value.named, Value.named, hname]
          exact related_ofPairs h.key (keyText?_of_ofScalar h.key hk) hv hps
  · exact Eq.refl Fault.empty

/-- Two front matters are one when they have the same for every key. -/
theorem ext_field? {m m' : FrontMatter} (h : ∀ key ∈ knownKeys, m.field? key = m'.field? key) :
    m = m' := by
  have hall : ∀ key ∈ ["published".toList, "entry".toList, "slug".toList, "tag".toList],
    m.field? key = m'.field? key := h
  simp only [List.forall_mem_cons] at hall
  obtain ⟨hpublished, hentry, hslug, htag, -⟩ := hall
  cases m
  cases m'
  cases hpublished
  cases hentry
  cases hslug
  cases htag
  rfl

theorem Requoted.eq_iff (h : Requoted f s t t') (hs : Value.ofPlain s = .ok v)
    (hv : plainText f.key (some v) = .ok (some text)) {m' : FrontMatter}
    (hm' : decode t' = .ok m') : decode t = .ok m' ↔ text = s := by
  have hrelated := h.related_decode hs hv
  rw [hm'] at hrelated
  cases hm : decode t with
  | error e =>
    rw [hm] at hrelated
    exact hrelated.elim
  | ok m =>
    rw [hm] at hrelated
    have hfields : ∀ other ∈ knownKeys, Apart f.key text s other (m.field? other)
      (m'.field? other) := hrelated
    constructor
    · intro heq
      obtain rfl := Except.ok.inj heq
      obtain ⟨htext, hs⟩ := (hfields f.key h.key).1 rfl
      exact Option.some.inj (htext.symm.trans hs)
    · rintro rfl
      refine congrArg Except.ok (ext_field? fun other hother => ?_)
      by_cases hkey : other = f.key
      · obtain ⟨htext, hs⟩ := (hfields other hother).1 hkey
        rw [htext, hs]
      · exact (hfields other hother).2 hkey

theorem Requoted.decode_of_error (h : Requoted f s t t') {e : Yaml.Fault}
    (hs : Value.ofPlain s = .error e) {m' : FrontMatter} (hm' : decode t' = .ok m') :
    decode t = .error (malformedBy e) := by
  rw [decode, load_of_ofText h.quoted] at hm'
  rw [decode, h.content, load_of_ofText h.plain]
  split at hm'
  next hcontent =>
    rw [if_pos hcontent]
    cases hw : (f.fill false s).value with
    | error e' =>
      rw [hw] at hm'
      cases hm'
    | ok w => rw [f.value_plain_of_error hs hw]
  · cases hm'

theorem read?_of_ofPlain {n : Int} (h : Value.ofPlain s = .ok (.int n)) :
    Whole.read? s = some (.fits n) := by
  unfold Value.ofPlain at h
  split at h
  · cases h
  split at h
  · cases h
  split at h
  next w hw =>
    cases w with
    | fits k =>
      cases h
      exact hw
    | outOfRange => cases h
  next =>
    split at h
    · cases h
    · split at h <;> cases h

section Lines

variable {fs before after : List Field} {q : Char}

theorem line_of_simple {f : Field} (h : f.Simple) : Text.IsLine f.line ∧ Text.IsClosed f.line := by
  have hne : ∀ {w : Text}, IsWord w → '\n' ∉ w :=
    fun hw hmem => ne_of_isWordChar (hw.chars _ hmem) (by decide) rfl
  have hspelled : '\n' ∉ f.spelled := by
    unfold Field.spelled
    cases hquote : f.quote with
    | none => exact hne h.text
    | some q =>
      have hq : '\n' ≠ q := by
        rcases h.quote q hquote with rfl | rfl <;> decide
      simp [hq, hne h.text]
  constructor
  · constructor
    · simp [Field.line]
    · rw [Field.line, List.dropLast_concat]
      simp [hspelled, hne h.name]
  · exact List.getLast?_concat

/-- A line of a known key is content. -/
theorem hasContent_lines {f : Field} (h : ∀ f ∈ fs, f.Simple) (hf : f ∈ fs)
    (hkey : f.name ∈ knownKeys) : hasContent (fs.flatMap Field.line) = true := by
  have hlines : Text.AreLines (fs.map Field.line) := by
    apply Text.areLines_of_isClosed
    intro l hl
    obtain ⟨f, hf, rfl⟩ := List.mem_map.1 hl
    exact line_of_simple (h f hf)
  rw [hasContent, List.flatMap_def, Text.lines_flatten hlines]
  apply List.any_eq_true.2
  refine ⟨f.line, List.mem_map_of_mem hf, ?_⟩
  obtain ⟨c, t, hname⟩ := List.exists_cons_of_ne_nil (h f hf).name.ne_nil
  have hfirst : ∀ key ∈ knownKeys,
      key.head?.all (fun c => !Text.isBlank c && '#' != c) = true := by
    decide
  obtain ⟨hblank, hcomment⟩ : Text.isBlank c = false ∧ '#' ≠ c := by
    simpa [hname] using hfirst f.name hkey
  obtain ⟨u, hu⟩ := Text.exists_trim_cons hblank (t ++ ':' :: ' ' :: f.spelled ++ ['\n'])
  have htrim : Text.trim f.line = c :: u := by
    rw [Field.line, hname]
    exact hu
  simp [htrim, Text.startsWith, List.isPrefixOf, hcomment]

def frameOf (before : List Field) (key : Text) (after : List Field) : Frame where
  properties := {}
  before := before.map ofField
  keyProperties := {}
  keyPlain := true
  key
  after := after.map ofField

theorem ofText_frameOf {quote : Option Char}
    (h : ∀ f ∈ before ++ ⟨key, s, quote⟩ :: after, f.Simple) :
    Yaml.Node.ofText ((before ++ ⟨key, s, quote⟩ :: after).flatMap Field.line) =
      .ok (some ((frameOf before key after).fill quote.isNone s)) := by
  rw [Yaml.Node.ofText_lines h (List.append_ne_nil_of_right_ne_nil _ (List.cons_ne_nil _ _)),
    List.map_append]
  rfl

/-- However a number is spelled, lines that give a known key the number and lines that give it
the quoted number are two such meta sections. -/
theorem requoted_lines (hkey : key ∈ knownKeys) (hs : IsNumber s) (hq : q = '\'' ∨ q = '"')
    (hbefore : ∀ f ∈ before, f.Simple) (hafter : ∀ f ∈ after, f.Simple) :
    Requoted (frameOf before key after) s
      ((before ++ ⟨key, s, none⟩ :: after).flatMap Field.line)
      ((before ++ ⟨key, s, some q⟩ :: after).flatMap Field.line) := by
  obtain ⟨hword, hreach⟩ := knownKey_isWord hkey
  have hsimple : ∀ quote : Option Char, (∀ q ∈ quote, q = '\'' ∨ q = '"') →
      ∀ f ∈ before ++ ⟨key, s, quote⟩ :: after, f.Simple := by
    intro quote hquote f hf
    rcases List.mem_append.1 hf with hf | hf
    · exact hbefore f hf
    · rcases List.mem_cons.1 hf with rfl | hf
      · exact ⟨hword, hreach, hs.isWord, hquote⟩
      · exact hafter f hf
  have hplain := hsimple none (by simp)
  have hquoted := hsimple (some q) (by simpa using hq)
  have hmem : ∀ f : Field, f ∈ before ++ f :: after := fun f => by simp
  refine ⟨hkey, ?_, ofText_frameOf hplain, ofText_frameOf hquoted⟩
  rw [hasContent_lines hplain (hmem _) hkey, hasContent_lines hquoted (hmem _) hkey]

end Lines

/-- A number in quotes is kept as it is spelled, and without them as it is printed; nothing
else depends on the quotes. A whole number that is out of range is a fault without them. -/
theorem decode_of_requoted (h : Requoted f s t t') :
    (∀ v text, Value.ofPlain s = .ok v → numberText? v = some text →
      Related (fun m m' => ∀ other ∈ knownKeys,
          Apart f.key text s other (m.field? other) (m'.field? other)) (decode t) (decode t') ∧
        ∀ m', decode t' = .ok m' → (decode t = .ok m' ↔ text = s)) ∧
    (∀ n m', Value.ofPlain s = .ok (.int n) → decode t' = .ok m' →
      (decode t = .ok m' ↔ s.head? ≠ some '+' ∧ (Whole.unsigned s).2.all Char.isDigit = true ∧
        s ≠ ['-', '0'])) ∧
    ∀ e m', Value.ofPlain s = .error e → decode t' = .ok m' →
      decode t = .error (malformedBy e) := by
  refine ⟨fun v text hs htext => ?_, fun n m' hs hm' => ?_, fun e m' hs hm' => ?_⟩
  · have hv : plainText f.key (some v) = .ok (some text) := plainText_of_number htext
    exact ⟨h.related_decode hs hv, fun m' hm' => h.eq_iff hs hv hm'⟩
  · have hv : plainText f.key (some (.int n)) = .ok (some (Whole.print n)) := rfl
    rw [h.eq_iff hs hv hm']
    exact Whole.print_eq_iff (read?_of_ofPlain hs)
  · exact h.decode_of_error hs hm'

/-- A tag that is a number loses the zero at its end, unless it stands in quotes. -/
theorem decode_of_requoted_trailing_zero :
    Requoted (frameOf [⟨"published".toList, "2024-01-05".toList, none⟩] "tag".toList [])
        "1.50".toList "published: 2024-01-05\ntag: 1.50\n".toList
        "published: 2024-01-05\ntag: '1.50'\n".toList ∧
      decode "published: 2024-01-05\ntag: 1.50\n".toList ≠
        decode "published: 2024-01-05\ntag: '1.50'\n".toList := by
  have hfield : ∀ f ∈ [(⟨"published".toList, "2024-01-05".toList, none⟩ : Field)], f.Simple := by
    intro f hf
    obtain rfl := List.mem_singleton.1 hf
    obtain ⟨hname, hreach⟩ : IsWord "published".toList ∧ _ := knownKey_isWord (by decide)
    exact ⟨hname, hreach, ⟨by decide, by decide, List.all_eq_true.1 (by decide)⟩, by simp⟩
  have hnumber : IsNumber "1.50".toList := by decide +kernel
  have hrequoted : Requoted
      (frameOf [⟨"published".toList, "2024-01-05".toList, none⟩] "tag".toList [])
      "1.50".toList "published: 2024-01-05\ntag: 1.50\n".toList
      "published: 2024-01-05\ntag: '1.50'\n".toList :=
    requoted_lines (by decide) hnumber (.inl rfl) hfield (List.forall_mem_nil _)
  refine ⟨hrequoted, fun hsame => ?_⟩
  have hfloat : Value.ofPlain "1.50".toList =
      .ok (.float (.finite false 6755399441055744 (-52))) := rfl
  have htext : numberText? (.float (.finite false 6755399441055744 (-52))) =
      some "1.5".toList := by decide +kernel
  obtain ⟨-, hsame_iff⟩ := (decode_of_requoted hrequoted).1 _ _ hfloat htext
  have hok : (decode "published: 2024-01-05\ntag: '1.50'\n".toList).isOk = true := by
    decide +kernel
  cases hm' : decode "published: 2024-01-05\ntag: '1.50'\n".toList with
  | error e =>
    rw [hm'] at hok
    cases hok
  | ok m' =>
    have htag := (hsame_iff m' hm').1 (hsame.trans hm')
    revert htag
    decide

/-- Quotes make a difference, and so does the zero at the end of a number. -/
theorem decode_drops_zero :
    (decode "published: 2024\ntag: 1.50\n".toList).toOption =
        some ⟨"2024".toList, none, none, some "1.5".toList⟩ ∧
      (decode "published: 2024\ntag: '1.50'\n".toList).toOption =
        some ⟨"2024".toList, none, none, some "1.50".toList⟩ := by
  decide +kernel

end FrontMatter
end MonthlyJournal
