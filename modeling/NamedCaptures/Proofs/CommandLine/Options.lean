import NamedCaptures.CommandLine.Arguments
import NamedCaptures.Proofs.Flags.Letters

/-!
# Command lines with options

Flags and a file can be given in several ways. Whichever is taken, the command line asks for the
same, and behind the separator every text is a pattern, also one that looks like an option. This is
what a reader of arguments has to promise (`ReadsOptions`), and `Request.ofArguments` is such a
reader.
-/

namespace NamedCaptures.CommandLine

/-- The ways to give flags: not at all, and apart from the option or joined to it. -/
inductive GivesFlags : List String → Flags → Prop
  | omitted : GivesFlags [] .empty
  | short {text : String} {fs : Flags} (h : Flags.parse text = .ok fs) : GivesFlags ["-f", text] fs
  | shortJoined {text : String} {fs : Flags} (h : Flags.parse text = .ok fs) (hne : text ≠ "") :
      GivesFlags ["-f" ++ text] fs
  | shortEquals {text : String} {fs : Flags} (h : Flags.parse text = .ok fs) :
      GivesFlags ["-f" ++ ("=" ++ text)] fs
  | long {text : String} {fs : Flags} (h : Flags.parse text = .ok fs) :
      GivesFlags ["--flags", text] fs
  | longJoined {text : String} {fs : Flags} (h : Flags.parse text = .ok fs) :
      GivesFlags ["--flags" ++ "=" ++ text] fs

/-- The ways to give a file. Apart from the option its path may not look like an option, which a
dash alone does not, and joined to it, not begin with an equals sign. -/
inductive GivesFile : List String → String → Prop
  | apart {path : String} (h : path.toList.head? = some '-' → path = "-") :
      GivesFile ["--file", path] path
  | joined {path : String} (h : path.toList.head? ≠ some '=') :
      GivesFile ["--file" ++ "=" ++ path] path

/-- What a reader of arguments promises of command lines with options. -/
structure ReadsOptions {ε : Type} (read : List String → Except ε Request) : Prop where
  /-- Behind flags and the separator, every text is a pattern. -/
  pattern : ∀ {flagArguments fs}, GivesFlags flagArguments fs → ∀ text,
    read (flagArguments ++ ["--", text]) = .ok ⟨fs, .pattern text⟩
  /-- Flags and a file may come in either order. -/
  file : ∀ {flagArguments fileArguments arguments fs path}, GivesFlags flagArguments fs →
    GivesFile fileArguments path →
    arguments ∈ [flagArguments ++ fileArguments, fileArguments ++ flagArguments] →
      read arguments = .ok ⟨fs, .file path⟩

/-- An argument that does not begin with a dash is plain. -/
theorem argument_of_head {argument : String} (h : argument.toList.head? ≠ some '-') :
    Argument.of argument = .plain := by
  have hnot (s : List Char) : argument.toList ≠ '-' :: s := by
    intro heq
    rw [heq] at h
    exact h rfl
  unfold Argument.of
  split <;> first | rfl | exact absurd ‹_› (hnot _)

theorem argument_of_dash {argument : String}
    (h : argument.toList.head? = some '-' → argument = "-") : Argument.of argument = .plain := by
  by_cases hdash : argument.toList.head? = some '-'
  · rw [h hdash]
    rfl
  · exact argument_of_head hdash

/-- A value that is joined to a long option with an equals sign. -/
theorem argument_joined (name : OptionName) (value : String) :
    Argument.of (name.text ++ "=" ++ value) = .option name (some (dropEquals value.toList)) := by
  have htext : (name.text ++ "=" ++ value).toList = name.text.toList ++ '=' :: value.toList := by
    simp
  unfold Argument.of
  rw [htext]
  cases name <;> rfl

/-- A value that is joined to the short option. -/
theorem argument_shortJoined {value : String} (h : value ≠ "") :
    Argument.of ("-f" ++ value) = .option .flags (some (dropEquals value.toList)) := by
  have htext : ("-f" ++ value).toList = '-' :: 'f' :: value.toList := String.toList_append
  obtain ⟨c, s, hvalue⟩ : ∃ c s, value.toList = c :: s := by
    apply List.exists_cons_of_ne_nil
    exact fun hnil => h (String.toList_eq_nil_iff.mp hnil)
  unfold Argument.of
  rw [htext, hvalue]
  rfl

/-- The short option may be joined with an equals sign as well. -/
theorem argument_shortJoined_equals (value : String) :
    Argument.of ("-f" ++ ("=" ++ value)) = .option .flags (some (dropEquals value.toList)) := by
  have htext : ("=" ++ value).toList = '=' :: value.toList := String.toList_append
  have hne : "=" ++ value ≠ "" := by
    intro hempty
    rw [hempty] at htext
    cases htext
  rw [argument_shortJoined hne, htext]
  rfl

theorem dropEquals_of_head {value : String} (h : value.toList.head? ≠ some '=') :
    dropEquals value.toList = value := by
  rw [dropEquals]
  cases hvalue : value.toList with
  | nil => exact (String.toList_eq_nil_iff.mp hvalue).symm
  | cons c s =>
      have hc : c ≠ '=' := by
        rintro rfl
        rw [hvalue] at h
        exact h rfl
      rw [List.dropWhile_cons_of_neg (by simpa using hc), ← hvalue, String.ofList_toList]

section Collect

variable (g : Given) {name : OptionName} {argument value : String} (rest : List String)

theorem collect_joined (h : Argument.of argument = .option name (some value)) :
    g.collect (argument :: rest) = (g.addOption value name).collect rest := by
  rw [Given.collect, h]

theorem collect_apart (h : Argument.of argument = .option name none)
    (hvalue : Argument.of value = .plain) :
    g.collect (argument :: value :: rest) = (g.addOption value name).collect rest := by
  rw [Given.collect, h]
  exact if_pos hvalue

theorem collect_separator : g.collect ("--" :: rest) = .ok (g.addPatterns rest) := rfl

end Collect

/-- What can be read as flags begins with a letter, if with anything. -/
theorem head_of_parse {text : String} {fs : Flags} (h : Flags.parse text = .ok fs) {c : Char}
    (hc : c.isAlpha = false) : text.toList.head? ≠ some c := by
  intro hhead
  have halpha := Flags.isAlpha_of_parse h c (List.mem_of_head? hhead)
  rw [hc] at halpha
  cases halpha

/-- What the arguments add to what is collected asks for these flags. -/
def CollectsFlags (arguments : List String) (fs : Flags) : Prop :=
  ∃ texts, Given.requestFlags { flags := texts } = .ok fs ∧ ∀ (g : Given) rest,
    g.collect (arguments ++ rest) = ({ g with flags := g.flags ++ texts }).collect rest

section CollectsFlags

variable {argument text : String} {fs : Flags}

theorem requestFlags_of_parse (h : Flags.parse text = .ok fs) :
    Given.requestFlags { flags := [text] } = .ok fs := by
  change (Flags.parse text).mapError UsageError.badFlags = .ok fs
  rw [h]
  rfl

theorem collectsFlags_apart (h : Flags.parse text = .ok fs)
    (hargument : Argument.of argument = .option .flags none) :
    CollectsFlags [argument, text] fs := by
  refine ⟨[text], requestFlags_of_parse h, fun g rest => ?_⟩
  exact collect_apart g rest hargument (argument_of_head (head_of_parse h rfl))

theorem collectsFlags_joined (h : Flags.parse text = .ok fs)
    (hargument : Argument.of argument = .option .flags (some (dropEquals text.toList))) :
    CollectsFlags [argument] fs := by
  rw [dropEquals_of_head (head_of_parse h rfl)] at hargument
  exact ⟨[text], requestFlags_of_parse h, fun g rest => collect_joined g rest hargument⟩

end CollectsFlags

/-- Flags that are given are the only texts of flags that are collected. -/
theorem GivesFlags.collect {arguments : List String} {fs : Flags} (h : GivesFlags arguments fs) :
    CollectsFlags arguments fs := by
  cases h with
  | omitted =>
      refine ⟨[], rfl, fun g rest => ?_⟩
      rw [List.append_nil, List.nil_append]
  | short h => exact collectsFlags_apart h rfl
  | shortJoined h hne => exact collectsFlags_joined h (argument_shortJoined hne)
  | shortEquals h => exact collectsFlags_joined h (argument_shortJoined_equals _)
  | long h => exact collectsFlags_apart h rfl
  | longJoined h => exact collectsFlags_joined h (argument_joined .flags _)

theorem GivesFile.collect {arguments : List String} {path : String} (h : GivesFile arguments path)
    (g : Given) (rest : List String) :
    g.collect (arguments ++ rest) = (g.addOption path .file).collect rest := by
  cases h with
  | apart h => exact collect_apart g rest rfl (argument_of_dash h)
  | joined h =>
      have hargument := argument_joined .file path
      rw [dropEquals_of_head h] at hargument
      exact collect_joined g rest hargument

section Request

variable {flagArguments fileArguments : List String} {fs : Flags} {path : String}

/-- What is collected asks for the flags, and for the source if that is the only one. -/
theorem ofArguments_of_collect {arguments : List String} {given : Given} {source : Source}
    (hcollect : Given.collect {} arguments = .ok given) (hflags : given.requestFlags = .ok fs)
    (hsource : given.requestSource = .ok source) :
    Request.ofArguments arguments = .ok ⟨fs, source⟩ := by
  rw [Request.ofArguments, hcollect]
  change (do
    let flags ← given.requestFlags
    let source ← given.requestSource
    return ⟨flags, source⟩ : Except UsageError Request) = _
  rw [hflags, hsource]
  rfl

/-- Behind flags and the separator, every text is a pattern. -/
theorem ofArguments_pattern (hflags : GivesFlags flagArguments fs) (pattern : String) :
    Request.ofArguments (flagArguments ++ ["--", pattern]) = .ok ⟨fs, .pattern pattern⟩ := by
  obtain ⟨texts, htexts, hcollect⟩ := hflags.collect
  have hgiven : Given.collect {} (flagArguments ++ ["--", pattern]) =
      .ok { flags := texts, patterns := [pattern] } := by
    rw [hcollect, collect_separator]
    rfl
  exact ofArguments_of_collect hgiven htexts rfl

/-- Flags and a file may come in either order. -/
theorem ofArguments_file (hflags : GivesFlags flagArguments fs)
    (hfile : GivesFile fileArguments path) {arguments : List String}
    (h : arguments ∈ [flagArguments ++ fileArguments, fileArguments ++ flagArguments]) :
    Request.ofArguments arguments = .ok ⟨fs, .file path⟩ := by
  obtain ⟨texts, htexts, hcollect⟩ := hflags.collect
  have hgiven : Given.collect {} arguments = .ok { flags := texts, files := [path] } := by
    obtain rfl | rfl : _ ∨ _ := by simpa using h
    · have hlast := hfile.collect { flags := texts } []
      rw [List.append_nil] at hlast
      rw [hcollect, List.nil_append, hlast]
      rfl
    · have hlast := hcollect { files := [path] } []
      rw [List.append_nil] at hlast
      rw [hfile.collect, Given.addOption, List.nil_append, hlast]
      rfl
  exact ofArguments_of_collect hgiven htexts rfl

end Request

theorem readsOptions_ofArguments : ReadsOptions Request.ofArguments where
  pattern hflags text := ofArguments_pattern hflags text
  file hflags hfile h := ofArguments_file hflags hfile h

end NamedCaptures.CommandLine
