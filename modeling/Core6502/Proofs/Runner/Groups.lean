import Core6502.Runner.Report
import Mathlib.Data.List.Induction

/-!
# Command lines as groups of words

A command line is a row of groups: an option with the word after it as its value, a flag on its own,
or the name of an image. What groups ask for is said here without reading them from left to right,
and reading a row of groups comes to that. In front of what is no group stands either a call for
help or the first word that fits nowhere.
-/

namespace Core6502

/-- The number that a text denotes, however great. -/
def Numeral.number? (text : String) : Option Nat := value? (Blank.trim text.toList)

namespace Setting

/-- The words that stand for an option. -/
def flags : Setting → List String
  | load => ["--load"]
  | pc => ["--pc"]
  | breakAt => ["--break", "-b"]
  | steps => ["--steps"]

/-- The values of an option are below this. -/
def bound : Setting → Nat
  | load | pc | breakAt => UInt16.size
  | steps => UInt64.size

/-- Whether a word can be the value of an option. -/
def Accepts (setting : Setting) (value : String) : Prop :=
  ∃ n, Numeral.number? value = some n ∧ n < setting.bound

end Setting

def helpFlags : List String := ["--help", "-h"]

/-- The words that stand for options. -/
def knownFlags : List String :=
  helpFlags ++ ["--trace"] ++ [Setting.load, .pc, .breakAt, .steps].flatMap Setting.flags

/-- Words of a command line that belong together. -/
inductive Group where
  | option (setting : Setting) (flag value : String)
  | trace
  | image (name : String)
deriving DecidableEq

namespace Group

def words : Group → List String
  | option _ flag value => [flag, value]
  | trace => ["--trace"]
  | image name => [name]

/-- An option has one of its flags and a value that it accepts, and the name of an image does not
begin with a dash. -/
def Valid : Group → Prop
  | option setting flag value => flag ∈ setting.flags ∧ setting.Accepts value
  | trace => True
  | image name => name.toList.head? ≠ some '-'

def flag? : Group → Option String
  | option _ flag _ => some flag
  | trace => some "--trace"
  | image _ => none

def image? : Group → Option String
  | option .. | trace => none
  | image name => some name

/-- The number that a group gives to an option. -/
def value? (setting : Setting) : Group → Option Nat
  | option other _ value => if other = setting then Numeral.number? value else none
  | trace | image _ => none

variable {g : Group} {gs : List Group} {words rest : List String}

/-- The images that groups name. -/
def images (gs : List Group) : List String := gs.filterMap image?

/-- The numbers that groups give to an option. -/
def values (setting : Setting) (gs : List Group) : List Nat := gs.filterMap (value? setting)

/-- What groups ask for. Of the values of an option the last one counts, but all breakpoints do. -/
def options (gs : List Group) : Options where
  load := (values .load gs).getLast?.map UInt16.ofNat
  pc := (values .pc gs).getLast?.map UInt16.ofNat
  steps := (values .steps gs).getLast?
  breakpoints := (values .breakAt gs).map UInt16.ofNat
  trace := gs.contains .trace

/-- A command line begins with valid groups, of which at most one names an image. -/
structure Begins (words : List String) (gs : List Group) (rest : List String) : Prop where
  words_eq : words = gs.flatMap Group.words ++ rest
  valid : ∀ g ∈ gs, g.Valid
  images_le : (images gs).length ≤ 1

/-- The words that are left begin with no group, and this is the error. The Boolean says whether an
image was named before. -/
inductive Offends : Bool → List String → UsageError → Prop where
  | missingValue {named : Bool} {setting : Setting} {flag : String} (hflag : flag ∈ setting.flags) :
      Offends named [flag] (.missingValue setting)
  | badValue {named : Bool} {setting : Setting} {flag value : String} {rest : List String}
      (hflag : flag ∈ setting.flags) (hvalue : ¬ setting.Accepts value) :
      Offends named (flag :: value :: rest) (.badValue setting)
  | unknownOption {named : Bool} {word : String} {rest : List String}
      (hdash : word.toList.head? = some '-') (hunknown : word ∉ knownFlags) :
      Offends named (word :: rest) (.unknownOption word)
  | unexpectedArgument {word : String} {rest : List String}
      (hdash : word.toList.head? ≠ some '-') :
      Offends true (word :: rest) (.unexpectedArgument word)
  | missingImage : Offends false [] .missingImage

/-! ## Words -/

theorem ofWord?_of_mem_flags {setting : Setting} {flag : String} (h : flag ∈ setting.flags) :
    Keyword.ofWord? flag = some (.takes setting) := by
  cases setting <;> simp only [Setting.flags, List.mem_cons, List.not_mem_nil, or_false] at h
  · subst h; rfl
  · subst h; rfl
  · rcases h with rfl | rfl <;> rfl
  · subst h; rfl

theorem ofWord?_of_mem_helpFlags {flag : String} (h : flag ∈ helpFlags) :
    Keyword.ofWord? flag = some .help := by
  simp only [helpFlags, List.mem_cons, List.not_mem_nil, or_false] at h
  rcases h with rfl | rfl <;> rfl

theorem ofWord?_eq_none {word : String} (h : word ∉ knownFlags) : Keyword.ofWord? word = none := by
  unfold Keyword.ofWord?
  split
  · exact absurd (by decide) h
  · exact absurd (by decide) h
  · exact absurd (by decide) h
  · exact absurd (by decide) h
  · exact absurd (by decide) h
  · exact absurd (by decide) h
  · exact absurd (by decide) h
  · exact absurd (by decide) h
  · rfl

/-- A word is a call for help, the flag on its own, the flag of an option with a value, or none of
the flags. -/
theorem flag_cases (word : String) :
    word ∈ helpFlags ∨ word = "--trace" ∨ (∃ setting : Setting, word ∈ setting.flags) ∨
      word ∉ knownFlags := by
  by_cases h : word ∈ knownFlags
  · rw [knownFlags, List.mem_append, List.mem_append, List.mem_singleton, List.mem_flatMap] at h
    rcases h with (hhelp | htrace) | ⟨setting, -, hsetting⟩
    · exact .inl hhelp
    · exact .inr (.inl htrace)
    · exact .inr (.inr (.inl ⟨setting, hsetting⟩))
  · exact .inr (.inr (.inr h))

theorem head?_of_mem_knownFlags {word : String} (h : word ∈ knownFlags) :
    word.toList.head? = some '-' := by
  revert word
  decide

theorem looksLikeOption_iff (word : String) :
    looksLikeOption word = true ↔ word.toList.head? = some '-' := beq_iff_eq

/-! ## One group -/

/-- An option with the number that a group gives to it. -/
def give (setting : Setting) (n : Nat) (o : Options) : Options :=
  match setting with
  | .load => { o with load := some (.ofNat n) }
  | .pc => { o with pc := some (.ofNat n) }
  | .breakAt => { o with breakpoints := o.breakpoints ++ [.ofNat n] }
  | .steps => { o with steps := some n }

/-- The options after a group. -/
def set (g : Group) (o : Options) : Options :=
  match g with
  | option setting _ value => (Numeral.number? value).elim o (give setting · o)
  | trace => { o with trace := true }
  | image _ => o

theorem below?_eq_some {bound n : Nat} {text : String} :
    Numeral.below? bound text = some n ↔ Numeral.number? text = some n ∧ n < bound := by
  rw [Numeral.below?, Option.filter_eq_some_iff, decide_eq_true_iff]
  rfl

theorem isSome_below?_iff {setting : Setting} {value : String} :
    (Numeral.below? setting.bound value).isSome = true ↔ setting.Accepts value := by
  rw [Option.isSome_iff_exists]
  exact exists_congr fun n => below?_eq_some

instance (setting : Setting) (value : String) : Decidable (setting.Accepts value) :=
  decidable_of_iff _ isSome_below?_iff

instance : DecidablePred Valid
  | option setting flag value =>
    inferInstanceAs (Decidable (flag ∈ setting.flags ∧ setting.Accepts value))
  | trace => isTrue trivial
  | image name => inferInstanceAs (Decidable (name.toList.head? ≠ some '-'))

theorem set?_eq (o : Options) (setting : Setting) (value : String) :
    o.set? setting value = (Numeral.below? setting.bound value).map (give setting · o) := by
  cases setting with
  | load | pc | breakAt =>
      rw [Options.set?, Numeral.address?, Option.map_map]
      rfl
  | steps => rfl

theorem set?_of_accepts {setting : Setting} {flag value : String} (h : setting.Accepts value)
    (o : Options) : o.set? setting value = some ((option setting flag value).set o) := by
  obtain ⟨n, hn, hlt⟩ := h
  rw [set?_eq, below?_eq_some.mpr ⟨hn, hlt⟩, set, hn]
  rfl

theorem set?_of_not_accepts {setting : Setting} {value : String} (h : ¬ setting.Accepts value)
    (o : Options) : o.set? setting value = none := by
  rw [set?_eq, Option.map_eq_none_iff, ← Option.not_isSome_iff_eq_none, isSome_below?_iff]
  exact h

/-- Reading a group sets its options. The name of an image must be the first. -/
theorem read_group (hvalid : g.Valid) {named : Option String}
    (himage : g.image? = none ∨ named = none) (o : Options) (rest : List String) :
    Request.read named o (g.words ++ rest) = Request.read (named.or g.image?) (g.set o) rest := by
  cases g with
  | option setting flag value =>
      rw [words, List.cons_append, List.cons_append, List.nil_append, Request.read,
        ofWord?_of_mem_flags hvalid.1]
      dsimp only
      rw [set?_of_accepts hvalid.2 o, image?, Option.or_none]
  | trace =>
      rw [image?, Option.or_none]
      rfl
  | image name =>
      have hunknown : name ∉ knownFlags := fun hknown => hvalid (head?_of_mem_knownFlags hknown)
      have hplain : ¬ looksLikeOption name = true := fun hlooks =>
        hvalid ((looksLikeOption_iff name).mp hlooks)
      obtain rfl : named = none := himage.resolve_left (Option.some_ne_none name)
      rw [words, List.singleton_append, Request.read, ofWord?_eq_none hunknown]
      dsimp only
      rw [if_neg hplain]
      rfl

/-! ## A row of groups -/

theorem images_append (front gs : List Group) : images (front ++ gs) = images front ++ images gs :=
  List.filterMap_append

theorem images_singleton (g : Group) : images [g] = g.image?.toList := by
  cases g <;> rfl

theorem values_append (setting : Setting) (front gs : List Group) :
    values setting (front ++ gs) = values setting front ++ values setting gs :=
  List.filterMap_append

theorem values_singleton (setting : Setting) (g : Group) :
    values setting [g] = (g.value? setting).toList := by
  rw [values, List.filterMap_cons, List.filterMap_nil]
  cases g.value? setting <;> rfl

theorem getLast?_append_toList {α : Type} (l : List α) (a : Option α) :
    (l ++ a.toList).getLast? = a.or l.getLast? := by
  cases a with
  | none => rw [Option.toList_none, List.append_nil, Option.none_or]
  | some a => rw [Option.toList_some, List.getLast?_concat, Option.some_or]

/-- A group after others sets its own option and leaves the others as they are. -/
theorem options_concat (hvalid : g.Valid) (gs : List Group) :
    options (gs ++ [g]) = g.set (options gs) := by
  simp only [options, values_append, values_singleton, getLast?_append_toList]
  cases g with
  | option setting flag value =>
      obtain ⟨-, n, hn, -⟩ := hvalid
      cases setting <;> simp [value?, set, give, hn]
  | trace => simp [value?, set]
  | image name => simp [value?, set]

/-- Reading a row of groups comes to what they ask for. -/
theorem read_groups (hvalid : ∀ g ∈ gs, g.Valid) (himages : (images gs).length ≤ 1)
    (rest : List String) :
    Request.ofWords (gs.flatMap Group.words ++ rest) =
      Request.read (images gs).head? (options gs) rest := by
  -- The last group is read when the options are already those of the groups before it.
  induction gs using List.reverseRecOn generalizing rest with
  | nil => rfl
  | append_singleton gs g ih =>
      rw [List.forall_mem_append, List.forall_mem_singleton] at hvalid
      rw [images_append, images_singleton, List.length_append] at himages
      have hfirst : g.image? = none ∨ (images gs).head? = none := by
        cases hg : g.image? with
        | none => exact .inl rfl
        | some name =>
            rw [hg, Option.toList_some, List.length_singleton] at himages
            have hnil : images gs = [] := List.eq_nil_of_length_eq_zero (by omega)
            exact .inr (by rw [hnil, List.head?_nil])
      rw [List.flatMap_append, List.flatMap_singleton, List.append_assoc,
        ih hvalid.1 (by omega), read_group hvalid.2 hfirst, options_concat hvalid.2, images_append,
        images_singleton, List.head?_append]
      cases g.image? <;> rfl

/-! ## How a command line goes on -/

theorem Begins.concat (h : Begins words gs (g.words ++ rest)) (hvalid : g.Valid)
    (himage : g.image? = none ∨ images gs = []) : Begins words (gs ++ [g]) rest where
  words_eq := by
    rw [h.words_eq, List.flatMap_append, List.flatMap_singleton, List.append_assoc]
  valid := List.forall_mem_append.mpr ⟨h.valid, List.forall_mem_singleton.mpr hvalid⟩
  images_le := by
    rw [images_append, images_singleton, List.length_append]
    rcases himage with hnone | hnil
    · rw [hnone]
      exact h.images_le
    · rw [hnil]
      cases g.image? with
      | none => exact Nat.zero_le 1
      | some name => exact Nat.le_refl 1

/-- How a command line can go on after groups: with a call for help, with what is no group, or not
at all if an image was named. -/
inductive Stands (named : Bool) (rest : List String) : Prop where
  | done (hrest : rest = []) (hnamed : named = true)
  | help (flag : String) (more : List String) (hflag : flag ∈ helpFlags)
      (hrest : rest = flag :: more)
  | offends (e : UsageError) (h : Offends named rest e)

/-- After groups comes a further one, or else the reading ends. -/
theorem stands_or_longer (h : Begins words gs rest) :
    Stands (images gs).head?.isSome rest ∨
      ∃ g more, Begins words (gs ++ [g]) more ∧ more.length < rest.length := by
  cases rest with
  | nil =>
      cases hnamed : (images gs).head?.isSome with
      | true => exact .inl (.done rfl rfl)
      | false => exact .inl (.offends _ .missingImage)
  | cons word more =>
      rcases flag_cases word with hhelp | rfl | ⟨setting, hflag⟩ | hunknown
      · exact .inl (.help word more hhelp rfl)
      · exact .inr ⟨trace, more, h.concat trivial (.inl rfl), Nat.lt_succ_self _⟩
      · cases more with
        | nil => exact .inl (.offends _ (.missingValue hflag))
        | cons value more =>
            by_cases hvalue : setting.Accepts value
            · refine .inr ⟨option setting word value, more, ?_, ?_⟩
              · exact Begins.concat (g := option setting word value) h ⟨hflag, hvalue⟩ (.inl rfl)
              · exact Nat.lt_succ_of_lt (Nat.lt_succ_self _)
            · exact .inl (.offends _ (.badValue hflag hvalue))
      · by_cases hdash : word.toList.head? = some '-'
        · exact .inl (.offends _ (.unknownOption hdash hunknown))
        · cases himages : images gs with
          | nil =>
              refine .inr ⟨image word, more, ?_, Nat.lt_succ_self _⟩
              exact Begins.concat (g := image word) h hdash (.inr himages)
          | cons name others => exact .inl (.offends _ (.unexpectedArgument hdash))

/-- Every command line begins with groups after which the reading ends. -/
theorem exists_begins (words : List String) :
    ∃ gs rest, Begins words gs rest ∧ Stands (images gs).head?.isSome rest := by
  have hfrom : ∀ n gs rest, rest.length ≤ n → Begins words gs rest →
      ∃ gs rest, Begins words gs rest ∧ Stands (images gs).head?.isSome rest := by
    intro n
    induction n with
    | zero =>
        intro gs rest hlength h
        refine ⟨gs, rest, h, (stands_or_longer h).resolve_right ?_⟩
        rintro ⟨g, more, -, hless⟩
        omega
    | succ n ih =>
        intro gs rest hlength h
        rcases stands_or_longer h with hstands | ⟨g, more, hmore, hless⟩
        · exact ⟨gs, rest, h, hstands⟩
        · exact ih (gs ++ [g]) more (by omega) hmore
  exact hfrom words.length [] words (Nat.le_refl _) ⟨rfl, by simp, Nat.zero_le 1⟩

end Group

end Core6502
