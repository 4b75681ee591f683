import Mathlib.Data.List.Pairwise
import MonthlyJournal.Build
import MonthlyJournal.Proofs.Toml.Reading

/-!
# Two ways to the defaults

A document may be laid over the defaults as a value and then be read, or be read
at once, when the settings that it leaves out keep their defaults. Both ways lead to
one configuration or to one error: settings can be set in any order, setting a
default changes nothing, and a setting with another value over its default is that
of the other value alone. The last holds of a section because it holds of its
settings.
-/

set_option autoImplicit false

namespace MonthlyJournal.Config

open Toml (Value Table)

namespace Setting

variable {α : Type} {settings : List (Setting α)} {s t : Setting α} {es es' : Table}
  {base overlay : Table} {defaults : α}

def Commute (s t : Setting α) : Prop :=
  ∀ v w a, (s.set? v a).bind (t.set? w) = (t.set? w a).bind (s.set? v)

instance : Std.Symm (Commute (α := α)) := ⟨fun _ _ h v w a => (h w v a).symm⟩

def Puts {β : Type} (s : Setting α) (read? : Value → Option β) (put : β → α → α) : Prop :=
  ∀ v a, s.set? v a = (read? v).map (put · a)

theorem Puts.commute {β γ : Type} {read? : Value → Option β} {put : β → α → α}
    {read?' : Value → Option γ} {put' : γ → α → α} (hs : s.Puts read? put)
    (ht : t.Puts read?' put') (h : ∀ b c a, put' c (put b a) = put b (put' c a)) :
    Commute s t := by
  intro v w a
  rw [hs, ht]
  cases hv : read? v with
  | none => cases hw : read?' w <;> simp [hs _ _, hv]
  | some b => cases hw : read?' w <;> simp [hs _ _, ht _ _, hv, hw, h]

def readText? : Value → Option Text
  | .string t | .datetime t => some t
  | _ => none

theorem puts_text (name : String) (set : Text → α → α) : (text name set).Puts readText? set := by
  intro v a
  cases v <;> rfl

def readNumber? : Value → Option Nat
  | .integer (.ofNat n) => some n
  | _ => none

theorem puts_number (name : String) (set : Nat → α → α) :
    (number name set).Puts readNumber? set := by
  intro v a
  cases v with
  | integer n => cases n <;> rfl
  | _ => rfl

def assign? (settings : List (Setting α)) (e : Text × Value) (a : α) : Option α :=
  (settings.find? (·.name = e.1)).bind (·.set? e.2 a)

theorem ofTable?_cons (e : Text × Value) (rest : Table) (a : α) :
    ofTable? settings (e :: rest) a = (assign? settings e a).bind (ofTable? settings rest) :=
  (Option.bind_assoc _ _ _).symm

theorem ofTable?_cons_cons (e e' : Text × Value) (rest : Table) (a : α) :
    ofTable? settings (e :: e' :: rest) a =
      ((assign? settings e a).bind (assign? settings e')).bind (ofTable? settings rest) := by
  rw [ofTable?_cons, Option.bind_assoc]
  exact congrArg _ (funext fun b => ofTable?_cons e' rest b)

theorem ofTable?_append (es es' : Table) (a : α) :
    ofTable? settings (es ++ es') a = (ofTable? settings es a).bind (ofTable? settings es') := by
  induction es generalizing a with
  | nil => rfl
  | cons e rest ih =>
    rw [List.cons_append, ofTable?_cons, ofTable?_cons, Option.bind_assoc]
    exact congrArg _ (funext fun b => ih b)

theorem assign?_comm (hc : settings.Pairwise Commute) {e e' : Text × Value}
    (hne : e.1 ≠ e'.1) (a : α) :
    (assign? settings e a).bind (assign? settings e') =
      (assign? settings e' a).bind (assign? settings e) := by
  unfold assign?
  cases hs : settings.find? (·.name = e.1) with
  | none => simp
  | some s =>
    cases ht : settings.find? (·.name = e'.1) with
    | none => simp
    | some t =>
      have hst : s ≠ t := by
        rintro rfl
        have hname : s.name = e.1 := by simpa using List.find?_some hs
        have hname' : s.name = e'.1 := by simpa using List.find?_some ht
        exact hne (hname.symm.trans hname')
      exact hc.forall (List.mem_of_find?_eq_some hs) (List.mem_of_find?_eq_some ht) hst
        e.2 e'.2 a

/-- Entries of different keys may come in any order. -/
theorem ofTable?_perm (hc : settings.Pairwise Commute) (hp : es.Perm es')
    (hn : (Dictionary.keys es).Nodup) (a : α) :
    ofTable? settings es a = ofTable? settings es' a := by
  induction hp generalizing a with
  | nil => rfl
  | cons e _ ih =>
    rw [ofTable?_cons, ofTable?_cons]
    exact congrArg _ (funext fun b => ih (List.nodup_cons.1 hn).2 b)
  | swap e e' rest =>
    have hne : e'.1 ≠ e.1 := by
      intro heq
      simp [Dictionary.keys_cons, heq] at hn
    rw [ofTable?_cons_cons, ofTable?_cons_cons, assign?_comm hc hne]
  | trans hp _ ih ih' =>
    rw [ih hn, ih' ((hp.map Prod.fst).nodup_iff.1 hn)]

/-- What a setting has by default: to set it again changes nothing, and it does not
show through a value that is laid over it. -/
structure IsDefault (s : Setting α) (below : Value) (defaults : α) : Prop where
  same : s.set? below defaults = some defaults
  covered : ∀ v, v.Distinct → ∀ a, s.set? (below.merge v) a = s.set? v a

def AreDefaults (settings : List (Setting α)) (base : Table) (defaults : α) : Prop :=
  ∀ e ∈ base, ∃ s, settings.find? (·.name = e.1) = some s ∧ s.IsDefault e.2 defaults

theorem AreDefaults.nil : AreDefaults settings [] defaults := fun _ he => nomatch he

theorem AreDefaults.cons {key : Text} {below : Value}
    (hs : settings.find? (·.name = key) = some s) (hdefault : s.IsDefault below defaults)
    (hrest : AreDefaults settings base defaults) :
    AreDefaults settings ((key, below) :: base) defaults :=
  List.forall_mem_cons.2 ⟨⟨s, hs, hdefault⟩, hrest⟩

theorem ofTable?_of_areDefaults (h : AreDefaults settings base defaults) :
    ofTable? settings base defaults = some defaults := by
  induction base with
  | nil => rfl
  | cons e rest ih =>
    obtain ⟨⟨s, hs, hdefault⟩, hrest⟩ := List.forall_mem_cons.1 h
    rw [ofTable?_cons, assign?, hs, Option.bind_some, hdefault.same, Option.bind_some]
    exact ih hrest

theorem assign?_laid (h : AreDefaults settings base defaults) {e : Text × Value}
    (he : e.2.Distinct) (a : α) :
    assign? settings (base.laid e) a = assign? settings e a := by
  unfold assign? Table.laid
  cases hbelow : Dictionary.get? e.1 base with
  | none => rfl
  | some below =>
    obtain ⟨s, hs, hdefault⟩ := h _ (Dictionary.mem_of_get?_eq_some hbelow)
    rw [hs]
    exact hdefault.covered e.2 he a

theorem ofTable?_map_laid (h : AreDefaults settings base defaults)
    (hd : Table.AllDistinct overlay) (a : α) :
    ofTable? settings (overlay.map base.laid) a = ofTable? settings overlay a := by
  induction overlay generalizing a with
  | nil => rfl
  | cons e rest ih =>
    rw [List.map_cons, ofTable?_cons, ofTable?_cons, assign?_laid h hd.1]
    exact congrArg _ (funext fun b => ih hd.2 b)

/-- Over its defaults a section is what the value laid over them says. -/
theorem section?_merge (hc : settings.Pairwise Commute) (hb : base.Ordered)
    (hdefaults : AreDefaults settings base defaults) {v : Value} (hv : v.Distinct) :
    Setting.section? settings ((Value.table base).merge v) defaults =
      Setting.section? settings v defaults := by
  cases v with
  | table overlay =>
    obtain ⟨hkeys, hinside⟩ := hv
    rw [Value.merge]
    have hkept : AreDefaults settings
        (base.filter fun e => e.1 ∉ Dictionary.keys overlay) defaults :=
      fun e he => hdefaults e (List.mem_of_mem_filter he)
    -- in another order: first the defaults that are left, then all that is laid over one
    calc ofTable? settings (base.merge overlay) defaults
      _ = ofTable? settings ((base.filter fun e => e.1 ∉ Dictionary.keys overlay) ++
            overlay.map base.laid) defaults :=
          ofTable?_perm hc (Table.perm_merge hb hkeys) (Table.ordered_merge hb overlay).nodup_keys _
      _ = ofTable? settings (overlay.map base.laid) defaults := by
          rw [ofTable?_append, ofTable?_of_areDefaults hkept, Option.bind_some]
      _ = ofTable? settings overlay defaults := ofTable?_map_laid hdefaults hinside _
  | _ => rw [Value.merge]; exact fun _ _ _ h => by cases h

end Setting

namespace Setting

variable {α β γ : Type} {defaults : α}

theorem Puts.isDefault {s : Setting α} {read? : Value → Option β} {put : β → α → α}
    (hs : s.Puts read? put) {below : Value} {b : β} (hread : read? below = some b)
    (hput : put b defaults = defaults)
    (hcovered : ∀ v, v.Distinct → read? (below.merge v) = read? v) :
    s.IsDefault below defaults := by
  constructor
  case same => rw [hs, hread, Option.map_some, hput]
  case covered =>
    intro v hv a
    rw [hs, hs, hcovered v hv]

theorem isDefault_text {name : String} {set : Text → α → α} {t : Text}
    (h : set t defaults = defaults) : (text name set).IsDefault (.string t) defaults := by
  apply (puts_text name set).isDefault rfl h
  intro v _
  rw [Value.merge_of_not_table (by simp)]

theorem isDefault_number {name : String} {set : Nat → α → α} {n : Nat}
    (h : set n defaults = defaults) : (number name set).IsDefault (.integer n) defaults := by
  apply (puts_number name set).isDefault rfl h
  intro v _
  rw [Value.merge_of_not_table (by simp)]

/-- The defaults of a section are a default when they are those of its settings. -/
theorem isDefault_section {name : Text} {settings : List (Setting β)} {init : β}
    {set : β → α → α} {base : Table} (hc : settings.Pairwise Commute) (hb : base.Ordered)
    (hdefaults : AreDefaults settings base init) (h : set init defaults = defaults) :
    IsDefault { name, set? := fun v a => (Setting.section? settings v init).map (set · a) }
      (.table base) defaults := by
  have hputs : Puts (α := α)
      { name, set? := fun v a => (Setting.section? settings v init).map (set · a) }
      (Setting.section? settings · init) set := fun _ _ => rfl
  have hread : Setting.section? settings (.table base) init = some init :=
    ofTable?_of_areDefaults hdefaults
  exact hputs.isDefault hread h fun v hv => section?_merge hc hb hdefaults hv

theorem commute_text {name name' : String} {set set' : Text → α → α}
    (h : ∀ t t' a, set' t' (set t a) = set t (set' t' a)) :
    Commute (text name set) (text name' set') :=
  (puts_text name set).commute (puts_text name' set') h

theorem commute_section {name name' : Text} {settings : List (Setting β)}
    {settings' : List (Setting γ)} {init : β} {init' : γ} {set : β → α → α} {set' : γ → α → α}
    (h : ∀ b c a, set' c (set b a) = set b (set' c a)) :
    Commute { name, set? := fun v a => (Setting.section? settings v init).map (set · a) }
      { name := name', set? := fun v a =>
          (Setting.section? settings' v init').map (set' · a) } := by
  have hs : Puts (α := α)
      { name, set? := fun v a => (Setting.section? settings v init).map (set · a) }
      (Setting.section? settings · init) set := fun _ _ => rfl
  have ht : Puts (α := α)
      { name := name', set? := fun v a => (Setting.section? settings' v init').map (set' · a) }
      (Setting.section? settings' · init') set' := fun _ _ => rfl
  exact hs.commute ht h

end Setting

open Setting

theorem commute_author : Author.settings.Pairwise Commute := by
  simp only [Author.settings, List.pairwise_cons, List.forall_mem_cons, List.not_mem_nil,
    false_imp_iff, implies_true, List.Pairwise.nil, and_true]
  refine ⟨⟨?_, ?_⟩, ?_⟩ <;> exact commute_text fun _ _ _ => rfl

theorem commute_source : Source.settings.Pairwise Commute := by
  simp only [Source.settings, List.pairwise_cons, List.forall_mem_cons, List.not_mem_nil,
    false_imp_iff, implies_true, List.Pairwise.nil, and_true]
  refine ⟨⟨?_, ?_⟩, ?_⟩ <;> exact commute_text fun _ _ _ => rfl

theorem commute_output : Output.settings.Pairwise Commute := by
  simp only [Output.settings, List.pairwise_cons, List.forall_mem_cons, List.not_mem_nil,
    false_imp_iff, implies_true, List.Pairwise.nil, and_true]
  refine ⟨⟨?_, ?_, ?_⟩, ⟨?_, ?_⟩, ?_⟩ <;> exact commute_text fun _ _ _ => rfl

theorem commute_sections : sections.Pairwise Commute := by
  simp only [sections, List.pairwise_cons, List.forall_mem_cons, List.not_mem_nil,
    false_imp_iff, implies_true, List.Pairwise.nil, and_true]
  refine ⟨⟨?_, ?_, ?_⟩, ⟨?_, ?_⟩, ?_⟩ <;> exact commute_section fun _ _ _ => rfl

/-! The defaults, section by section. -/

def authorTable : Table :=
  [("avatar".toList, .string ({} : Author).avatar), ("name".toList, .string ({} : Author).name),
   ("profile_url".toList, .string ({} : Author).profileUrl)]

def outputTable : Table :=
  [("extension".toList, .string ({} : Output).extension),
   ("journal_dir".toList, .string ({} : Output).journalDir),
   ("months_dir".toList, .string ({} : Output).monthsDir),
   ("nav_file".toList, .string ({} : Output).navFile)]

def readingTable : Table :=
  [("words_per_minute".toList, .integer ({} : Reading).wordsPerMinute)]

def sourceTable : Table :=
  [("draft_dir".toList, .string ({} : Source).draftDir),
   ("extension".toList, .string ({} : Source).extension)]

def sectionsTable : Table :=
  [("author".toList, .table authorTable), ("output".toList, .table outputTable),
   ("reading".toList, .table readingTable), ("source".toList, .table sourceTable)]

theorem defaultsToml_eq : defaultsToml = .table sectionsTable := rfl

theorem areDefaults_author : AreDefaults Author.settings authorTable {} :=
  .cons rfl (isDefault_text rfl) <| .cons rfl (isDefault_text rfl) <|
    .cons rfl (isDefault_text rfl) .nil

theorem areDefaults_output : AreDefaults Output.settings outputTable {} :=
  .cons rfl (isDefault_text rfl) <| .cons rfl (isDefault_text rfl) <|
    .cons rfl (isDefault_text rfl) <| .cons rfl (isDefault_text rfl) .nil

theorem areDefaults_reading : AreDefaults Reading.settings readingTable {} :=
  .cons rfl (isDefault_number rfl) .nil

theorem areDefaults_source : AreDefaults Source.settings sourceTable {} :=
  .cons rfl (isDefault_text rfl) <| .cons rfl (isDefault_text rfl) .nil

theorem areDefaults_sections : AreDefaults sections sectionsTable {} := by
  have hauthor : Dictionary.Ordered authorTable := by decide +kernel
  have houtput : Dictionary.Ordered outputTable := by decide +kernel
  have hreading : Dictionary.Ordered readingTable := by decide +kernel
  have hsource : Dictionary.Ordered sourceTable := by decide +kernel
  have hreadings : Reading.settings.Pairwise Commute := List.pairwise_singleton _ _
  apply AreDefaults.cons rfl (isDefault_section commute_author hauthor areDefaults_author rfl)
  apply AreDefaults.cons rfl (isDefault_section commute_output houtput areDefaults_output rfl)
  apply AreDefaults.cons rfl (isDefault_section hreadings hreading areDefaults_reading rfl)
  apply AreDefaults.cons rfl (isDefault_section commute_source hsource areDefaults_source rfl)
  exact .nil

theorem ofToml?_merge_defaults {o : Value} (h : o.Distinct) :
    ofToml? (defaultsToml.merge o) = ofToml? o := by
  have hsections : Dictionary.Ordered sectionsTable := by decide +kernel
  rw [defaultsToml_eq]
  exact section?_merge commute_sections hsections areDefaults_sections h

/-- A document laid over the defaults is read as it is read alone, with the same error
if it is none that can be used. -/
theorem resolve_defaults (o : Value) (h : o.Distinct) :
    resolve defaultsToml (some o) = ofValue o := by
  unfold resolve ofValue
  rw [ofToml?_merge_defaults h]

def partialToml : Value :=
  .table [
    ("author".toList, .array [.string "someone".toList]),
    ("reading".toList, .table [("words_per_minute".toList, .integer 200)]),
    ("source".toList, .table [("repository".toList, .string "https://example.com/repo".toList)])]

theorem resolve_defaults_partial :
    partialToml.Distinct ∧ resolve defaultsToml (some partialToml) = .ok
      { author := { name := "someone".toList }
        reading := { wordsPerMinute := 200 }
        source := { repository := some "https://example.com/repo".toList } } := by
  have hdistinct : partialToml.Distinct := by
    simp [partialToml, Value.Distinct, Table.AllDistinct, Value.AllDistinct, Dictionary.keys]
  refine ⟨hdistinct, ?_⟩
  rw [resolve_defaults _ hdistinct]
  decide +kernel

/-- The document of a source is read as if there were no defaults to lay it over. -/
theorem ofDirectory_of_read {d : Directory} {node : Node} {text : Text}
    (hnode : d.get? configName = some node) (hread : node.read = .ok text) :
    ofDirectory d = (readToml text).bind ofValue := by
  unfold ofDirectory
  simp only [hnode, hread]
  cases hv : Toml.read? text with
  | none => simp [readToml, hv, Except.bind]
  | some v =>
    simp only [readToml, hv, Except.bind, resolve, ofValue,
      ofToml?_merge_defaults (Toml.distinct_of_read? hv)]

end MonthlyJournal.Config
