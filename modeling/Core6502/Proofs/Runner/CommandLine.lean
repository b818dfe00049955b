import Core6502.Proofs.Runner.Groups
import Core6502.Proofs.Runner.Start
import Mathlib.Data.List.Basic

/-!
# What a command line asks for

A command line that consists of groups, one of which names an image, runs that image with the last
value of each option. Any other one calls for help or is an error, whichever stands first, and then
neither the environment nor any image matters.
-/

namespace Core6502

namespace Breakpoints

theorem get?_foldl_add (b : Breakpoints) (addresses : List UInt16) (address : UInt16) :
    (addresses.foldl add b).get? address =
      if address ∈ addresses then some { (b.get? address).getD {} with enabled := true }
      else b.get? address := by
  induction addresses generalizing b with
  | nil => rfl
  | cons other addresses ih =>
      rw [List.foldl_cons, ih, get?_add]
      by_cases heq : other = address
      · subst heq
        simp
      · simp [heq, Ne.symm heq]

theorem foldl_add_of_perm {addresses others : List UInt16} (h : addresses.Perm others)
    (b : Breakpoints) : addresses.foldl add b = others.foldl add b :=
  ext_get? fun address => by simp only [get?_foldl_add, h.mem_iff]

end Breakpoints

namespace Group

variable {gs others : List Group} {words rest : List String} {named : Option String}
  {e : UsageError} {flag name : String}

/-- A command line that consists of valid groups, one of which names an image. -/
structure Launches (words : List String) (gs : List Group) (name : String) : Prop where
  words_eq : words = gs.flatMap Group.words
  valid : ∀ g ∈ gs, g.Valid
  images_eq : images gs = [name]

/-- A command line with a call for help after valid groups. -/
def CallsForHelp (words : List String) : Prop :=
  ∃ gs flag rest, flag ∈ helpFlags ∧ Begins words gs (flag :: rest)

/-- The same groups in another order, but groups with one flag in the same order. -/
structure Reordered (gs others : List Group) : Prop where
  perm : gs.Perm others
  order : ∀ flag ∈ knownFlags,
    gs.filter (·.flag? == some flag) = others.filter (·.flag? == some flag)

/-! ## The three ways of reading -/

theorem Begins.read (h : Begins words gs rest) :
    Request.ofWords words = Request.read (images gs).head? (options gs) rest := by
  rw [h.words_eq, read_groups h.valid h.images_le]

theorem ofWords_of_launches (h : Launches words gs name) :
    Request.ofWords words = .ok (.launch name (options gs)) := by
  have hbegins : Begins words gs [] :=
    ⟨by rw [List.append_nil, h.words_eq], h.valid, by rw [h.images_eq]; exact Nat.le_refl 1⟩
  rw [hbegins.read, h.images_eq]
  rfl

/-- An image that can be read is run. -/
theorem report_of_image (h : Launches words gs name) (env : Environment)
    {image? : String → Except ReadError (List UInt8)} {image : List UInt8}
    (himage : image? name = .ok image) :
    Report.ofWords words env image? = Report.ofImage (options gs) env image := by
  simp only [Report.ofWords, ofWords_of_launches h, himage]

theorem report_of_readError (h : Launches words gs name) (env : Environment)
    {image? : String → Except ReadError (List UInt8)} {e : ReadError}
    (himage : image? name = .error e) :
    Report.ofWords words env image? = Report.ofReadError name e := by
  simp only [Report.ofWords, ofWords_of_launches h, himage]

theorem ofWords_of_help (hflag : flag ∈ helpFlags) (h : Begins words gs (flag :: rest)) :
    Request.ofWords words = .ok .help := by
  rw [h.read, Request.read, ofWord?_of_mem_helpFlags hflag]

theorem read_of_offends (h : Offends named.isSome rest e) (o : Options) :
    Request.read named o rest = .error e := by
  generalize hbool : named.isSome = given at h
  cases h with
  | missingValue hflag => rw [Request.read, ofWord?_of_mem_flags hflag]
  | badValue hflag hvalue =>
      rw [Request.read, ofWord?_of_mem_flags hflag]
      dsimp only
      rw [set?_of_not_accepts hvalue]
  | unknownOption hdash hunknown =>
      rw [Request.read, ofWord?_eq_none hunknown]
      dsimp only
      rw [if_pos ((looksLikeOption_iff _).mpr hdash)]
  | @unexpectedArgument word _ hdash =>
      have hunknown : word ∉ knownFlags := fun hknown => hdash (head?_of_mem_knownFlags hknown)
      rw [Request.read, ofWord?_eq_none hunknown]
      dsimp only
      rw [if_neg fun hlooks => hdash ((looksLikeOption_iff word).mp hlooks), if_pos hbool]
  | missingImage =>
      obtain rfl : named = none := Option.not_isSome_iff_eq_none.mp (Bool.eq_false_iff.mp hbool)
      rfl

theorem ofWords_of_offends (h : Begins words gs rest)
    (hoffends : Offends (images gs).head?.isSome rest e) : Request.ofWords words = .error e := by
  rw [h.read, read_of_offends hoffends]

theorem Begins.launches (h : Begins words gs []) (hnamed : (images gs).head?.isSome = true) :
    ∃ name, Launches words gs name := by
  obtain ⟨name, hname⟩ := Option.isSome_iff_exists.mp hnamed
  obtain ⟨others, hothers⟩ := List.head?_eq_some_iff.mp hname
  have hle := h.images_le
  rw [hothers, List.length_cons] at hle
  obtain rfl : others = [] := List.eq_nil_of_length_eq_zero (by omega)
  exact ⟨name, by rw [h.words_eq, List.append_nil], h.valid, hothers⟩

/-- A command line launches an image, calls for help, or goes wrong. -/
theorem launches_or_help_or_offends (words : List String) :
    (∃ gs name, Launches words gs name) ∨ CallsForHelp words ∨
      ∃ gs rest e, Begins words gs rest ∧ Offends (images gs).head?.isSome rest e := by
  obtain ⟨gs, rest, hbegins, hstands⟩ := exists_begins words
  cases hstands with
  | done hrest hnamed =>
      subst hrest
      exact .inl ⟨gs, hbegins.launches hnamed⟩
  | help flag more hflag hrest =>
      subst hrest
      exact .inr (.inl ⟨gs, flag, more, hflag, hbegins⟩)
  | offends e h => exact .inr (.inr ⟨gs, rest, e, hbegins, h⟩)

/-! ## Order -/

/-- The values of an option with one flag are in the groups with this flag. -/
theorem values_filter {setting : Setting} (hflags : setting.flags = [flag])
    (hvalid : ∀ g ∈ gs, g.Valid) :
    values setting (gs.filter (·.flag? == some flag)) = values setting gs := by
  rw [values, values, List.filterMap_filter]
  refine List.filterMap_congr fun g hg => ?_
  cases g with
  | option other word value =>
      by_cases hother : other = setting
      · have hword : word ∈ other.flags := (hvalid _ hg).1
        rw [hother, hflags, List.mem_singleton] at hword
        rw [hword, flag?, beq_self_eq_true, if_pos rfl]
      · rw [value?, if_neg hother, ite_self]
  | trace | image name => exact ite_self _

theorem options_of_reordered (h : Reordered gs others) (hvalid : ∀ g ∈ gs, g.Valid) :
    options others = { options gs with breakpoints := (options others).breakpoints } := by
  have hothers : ∀ g ∈ others, g.Valid := fun g hg => hvalid g (h.perm.mem_iff.mpr hg)
  have hvalues : ∀ setting : Setting, setting ≠ .breakAt →
      values setting others = values setting gs := by
    intro setting hsetting
    obtain ⟨flag, hknown, hflags⟩ : ∃ flag ∈ knownFlags, setting.flags = [flag] := by
      cases setting with
      | breakAt => exact absurd rfl hsetting
      | load | pc | steps => exact ⟨_, by decide, rfl⟩
    rw [← values_filter hflags hothers, ← h.order flag hknown, values_filter hflags hvalid]
  have htrace : others.contains .trace = gs.contains .trace := by
    rw [Bool.eq_iff_iff, List.contains_iff_mem, List.contains_iff_mem, h.perm.mem_iff]
  rw [options, options, hvalues .load (by decide), hvalues .pc (by decide),
    hvalues .steps (by decide), htrace]

theorem debugger_of_reordered (h : Reordered gs others) (hvalid : ∀ g ∈ gs, g.Valid)
    (env : Environment) : (options others).debugger env = (options gs).debugger env := by
  have hbreakpoints : (options gs).breakpoints.Perm (options others).breakpoints :=
    (h.perm.filterMap _).map _
  rw [options_of_reordered h hvalid, Options.debugger, Options.debugger,
    Breakpoints.foldl_add_of_perm hbreakpoints]

theorem tracing_debugger (gs : List Group) (env : Environment) :
    ((options gs).debugger env).tracing = true ↔ trace ∈ gs ∨ env.trace = true := by
  rw [Options.debugger, options]
  dsimp only
  rw [Bool.or_eq_true, List.contains_iff_mem]

theorem ofImage_of_reordered (h : Reordered gs others) (hvalid : ∀ g ∈ gs, g.Valid)
    (env : Environment) (image : List UInt8) :
    Report.ofImage (options others) env image = Report.ofImage (options gs) env image := by
  rw [Report.ofImage, Report.ofImage, debugger_of_reordered h hvalid,
    options_of_reordered h hvalid]
  rfl

theorem launches_of_reordered (h : Launches words gs name) (hothers : Reordered gs others) :
    Launches (others.flatMap Group.words) others name where
  words_eq := rfl
  valid := fun g hg => h.valid g (hothers.perm.mem_iff.mpr hg)
  images_eq := by
    have hperm : (images gs).Perm (images others) := hothers.perm.filterMap _
    rw [h.images_eq] at hperm
    exact (List.singleton_perm.mp hperm).symm

/-! ## The grammar -/

theorem lt_bound_of_mem_values {setting : Setting} {n : Nat} (hvalid : ∀ g ∈ gs, g.Valid)
    (hn : n ∈ values setting gs) : n < setting.bound := by
  obtain ⟨g, hg, hvalue⟩ := List.mem_filterMap.mp hn
  cases g with
  | option other flag value =>
      obtain ⟨-, v, hv, hlt⟩ := hvalid _ hg
      by_cases hother : other = setting
      · rw [value?, if_pos hother, hv] at hvalue
        obtain rfl : v = n := Option.some.inj hvalue
        exact hother ▸ hlt
      · rw [value?, if_neg hother] at hvalue
        cases hvalue
  | trace | image name => cases hvalue

/-- Exactly the addresses given are set as breakpoints, and they start without hits. -/
theorem get?_breakpoints (hvalid : ∀ g ∈ gs, g.Valid) (env : Environment) (address : UInt16) :
    ((options gs).debugger env).breakpoints.get? address =
      if address.toNat ∈ values .breakAt gs then some {} else none := by
  have hmem : address ∈ (options gs).breakpoints ↔ address.toNat ∈ values .breakAt gs := by
    rw [options, List.mem_map]
    constructor
    · rintro ⟨n, hn, rfl⟩
      rwa [UInt16.toNat_ofNat_of_lt' (lt_bound_of_mem_values hvalid hn)]
    · exact fun h => ⟨address.toNat, h, UInt16.ofNat_toNat⟩
  rw [Options.debugger, Breakpoints.get?_foldl_add, Breakpoints.get?_empty]
  simp only [hmem]
  rfl

/-- A command line launches an image if and only if it consists of valid groups that name one image.
It then has the last value of each option and all breakpoints: with these the image, if it can be
read, is put on a machine and run. The order of the groups matters only among those with one flag.
Any other command line reads no image: it asks for help if a call for help stands before all else
that is no group, and is an error otherwise. -/
theorem command_line_grammar (words : List String) :
    ((∃ name o, Request.ofWords words = .ok (.launch name o)) ↔
      ∃ gs name, Launches words gs name) ∧
    (∀ gs name, Launches words gs name →
      Request.ofWords words = .ok (.launch name (options gs)) ∧
      (∀ env address, ((options gs).debugger env).breakpoints.get? address =
        if address.toNat ∈ values .breakAt gs then some {} else none) ∧
      (∀ env, ((options gs).debugger env).tracing = true ↔ trace ∈ gs ∨ env.trace = true) ∧
      (∀ env image? image, image? name = .ok image → ∃ c, (options gs).StartsAs image c ∧
        Report.ofWords words env image? = Report.ofRun env
          (((options gs).debugger env).run c ((values .steps gs).getLast?.getD env.steps))) ∧
      (∀ env image? e, image? name = .error e → Report.ofWords words env image? =
        { exitCode := 1
          out := []
          err := [String.join ["error: failed to read ", name, ": ", e.message]] }) ∧
      ∀ others, Reordered gs others → ∀ env image?,
        Report.ofWords (others.flatMap Group.words) env image? =
          Report.ofWords words env image?) ∧
    ((¬ ∃ gs name, Launches words gs name) →
      (CallsForHelp words → Request.ofWords words = .ok .help ∧
        ∀ env image?, Report.ofWords words env image? =
          { exitCode := 0
            out := [Report.usage,
              "Images of exactly 16 or 32 KiB are mapped as NROM PRG unless --load is given."]
            err := [] }) ∧
      (¬ CallsForHelp words → ∃ gs rest e, Begins words gs rest ∧
        Offends (images gs).head?.isSome rest e ∧ Request.ofWords words = .error e ∧
        ∀ env image?, Report.ofWords words env image? =
          { exitCode := 2, out := [], err := [e.message, Report.usage] })) := by
  refine ⟨⟨?_, ?_⟩, ?_, fun hno => ⟨?_, fun hhelp => ?_⟩⟩
  · rintro ⟨name, o, hlaunch⟩
    rcases launches_or_help_or_offends words with
      hlaunches | ⟨gs, flag, rest, hflag, hbegins⟩ | ⟨gs, rest, e, hbegins, hoffends⟩
    · exact hlaunches
    · rw [ofWords_of_help hflag hbegins] at hlaunch
      cases hlaunch
    · rw [ofWords_of_offends hbegins hoffends] at hlaunch
      cases hlaunch
  · rintro ⟨gs, name, h⟩
    exact ⟨name, options gs, ofWords_of_launches h⟩
  · intro gs name h
    refine ⟨ofWords_of_launches h, get?_breakpoints h.valid, tracing_debugger gs,
      fun env image? image himage => ?_, fun env image? e => report_of_readError h env,
      fun others hothers env image? => ?_⟩
    · exact ⟨_, (options gs).startsAs_machine image, report_of_image h env himage⟩
    · have hlaunches := launches_of_reordered h hothers
      cases himage : image? name with
      | error e => rw [report_of_readError h env himage, report_of_readError hlaunches env himage]
      | ok image =>
          rw [report_of_image h env himage, report_of_image hlaunches env himage,
            ofImage_of_reordered hothers h.valid]
  · rintro ⟨gs, flag, rest, hflag, hbegins⟩
    have hread := ofWords_of_help hflag hbegins
    exact ⟨hread, fun env image? => by rw [Report.ofWords, hread]; rfl⟩
  · rcases launches_or_help_or_offends words with
      hlaunches | hcalls | ⟨gs, rest, e, hbegins, hoffends⟩
    · exact absurd hlaunches hno
    · exact absurd hcalls hhelp
    · have hread := ofWords_of_offends hbegins hoffends
      exact ⟨gs, rest, e, hbegins, hoffends, hread,
        fun env image? => by rw [Report.ofWords, hread]; rfl⟩

/-- A command line with two values for one option, in two orders, with an image and without one, a
command line where a call for help comes first, and one that takes it for a value. -/
theorem command_line_grammar_reordered :
    let gs := [option .pc "--pc" "$C000", image "rom", trace, option .breakAt "-b" "+7",
      option .pc "--pc" "0x10"]
    let others := [trace, option .pc "--pc" "$C000", option .breakAt "-b" "+7",
      option .pc "--pc" "0x10", image "rom"]
    let words := ["--pc", "$C000", "rom", "--trace", "-b", "+7", "--pc", "0x10"]
    Launches words gs "rom" ∧ Reordered gs others ∧
      Request.ofWords words =
        .ok (.launch "rom" { pc := some 0x10, breakpoints := [7], trace := true }) ∧
      (∀ env, ((options gs).debugger env).tracing = true) ∧
      (∀ env, ∃ c, c.pc = 0x10 ∧ Report.ofWords words env (fun _ => .ok [0xEA]) =
        Report.ofRun env (((options gs).debugger env).run c env.steps)) ∧
      (∀ env, (Report.ofWords words env fun _ => .error .notFound).err =
        ["error: failed to read rom: No such file or directory (os error 2)"]) ∧
      (∀ env image?, Report.ofWords
        ["--trace", "--pc", "$C000", "-b", "+7", "--pc", "0x10", "rom"] env image? =
          Report.ofWords words env image?) ∧
      (∀ env image?, (Report.ofWords ["rom", "-h", "--bogus"] env image?).exitCode = 0) ∧
      ∀ env image?, Report.ofWords ["--load", "--help"] env image? =
        { exitCode := 2
          out := []
          err := ["--load: expected an address like 0x8000 or $8000", Report.usage] } := by
  intro gs others words
  have hlaunches : Launches words gs "rom" := ⟨rfl, by decide +kernel, rfl⟩
  have hreordered : Reordered gs others := ⟨by decide, by decide⟩
  obtain ⟨-, hlaunch, -⟩ := command_line_grammar words
  obtain ⟨hread, -, htracing, hruns, hunread, horder⟩ := hlaunch gs "rom" hlaunches
  have hoptions : options gs = { pc := some 0x10, breakpoints := [7], trace := true } := by
    decide +kernel
  obtain ⟨-, -, hnoHelp⟩ := command_line_grammar ["rom", "-h", "--bogus"]
  obtain ⟨-, -, hnoLoad⟩ := command_line_grammar ["--load", "--help"]
  have hcalled : Request.ofWords ["rom", "-h", "--bogus"] = .ok .help := by decide +kernel
  have hrefused : Request.ofWords ["--load", "--help"] = .error (.badValue .load) := by
    decide +kernel
  have hcalls : CallsForHelp ["rom", "-h", "--bogus"] :=
    ⟨[image "rom"], "-h", ["--bogus"], by decide, rfl, by decide, by decide⟩
  have hquiet : ¬ CallsForHelp ["--load", "--help"] := by
    rintro ⟨gs, flag, rest, hflag, hbegins⟩
    exact absurd (hrefused.symm.trans (ofWords_of_help hflag hbegins)) (by decide)
  refine ⟨hlaunches, hreordered, hread.trans (by rw [hoptions]),
    fun env => (htracing env).mpr (.inl (by decide)), fun env => ?_, fun env => ?_,
    horder others hreordered, ?_, ?_⟩
  · obtain ⟨c, hstart, hrun⟩ := hruns env (fun _ => .ok [0xEA]) [0xEA] rfl
    exact ⟨c, hstart.pc_given 0x10 (by rw [hoptions]), hrun⟩
  · rw [hunread env (fun _ => .error .notFound) .notFound rfl]
    decide +kernel
  · have hnone : ¬ ∃ gs name, Launches ["rom", "-h", "--bogus"] gs name := by
      rintro ⟨gs, name, h⟩
      rw [ofWords_of_launches h] at hcalled
      cases hcalled
    exact fun env image? => by rw [((hnoHelp hnone).1 hcalls).2]
  · have hnone : ¬ ∃ gs name, Launches ["--load", "--help"] gs name := by
      rintro ⟨gs, name, h⟩
      rw [ofWords_of_launches h] at hrefused
      cases hrefused
    obtain ⟨gs, rest, e, -, -, hread, hreport⟩ := (hnoLoad hnone).2 hquiet
    rw [hrefused] at hread
    obtain rfl := Except.error.inj hread
    exact hreport

end Group

end Core6502
