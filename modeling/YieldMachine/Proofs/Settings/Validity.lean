import YieldMachine.Command.Flags

/-!
# Valid settings

Settings are checked and completed when they are read from a file and again when the environment
has overridden them.  Flags override them last, without a check: what a command works with is
valid as far as what the flags say is.  A valid suffix never names a source itself, and names a
test file only when the source completes the suffix to one of test files.
-/

namespace YieldMachine

theorem endsIn_iff {s suffix : String} : endsIn s suffix = true ↔ suffix.toList <:+ s.toList :=
  List.isSuffixOf_iff_suffix

namespace Settings

variable {s s' : Settings} {env : Environment} {R : Readers}

theorem badTag?_eq_none {i : Nat} {tags : List String} :
    badTag? i tags = none ↔ ∀ tag ∈ tags, isTag tag = true := by
  induction tags generalizing i with
  | nil => simp [badTag?]
  | cons tag tags ih =>
      cases h : isTag tag with
      | true => simp [badTag?, h, ih]
      | false => simp [badTag?, h]

/-- Settings without a defect. -/
theorem defect?_eq_none : s.defect? = none ↔
    (∀ tag ∈ s.tags, isTag tag = true) ∧ 0 ≤ s.jobs ∧ '/' ∉ s.suffix.toList ∧
      endsIn s.suffix "_test" = false := by
  rw [← badTag?_eq_none (i := 0)]
  unfold defect?
  cases badTag? 0 s.tags with
  | some d => simp
  | none =>
      by_cases hjobs : s.jobs < 0
      · simp [hjobs, Int.not_le.mpr hjobs]
      · simp only [if_neg hjobs, Int.not_lt.mp hjobs, true_and]
        by_cases hslash : '/' ∈ s.suffix.toList
        · simp [hslash]
        · cases endsIn s.suffix "_test" <;> simp [hslash]

/-- Complete settings without a defect. -/
structure Valid (s : Settings) : Prop where
  tags : s.tags ≠ []
  suffix : s.suffix ≠ ""
  sound : s.defect? = none

/-- Defaults are valid, so that completing settings keeps them without a defect. -/
theorem Valid.withDefaults (h : s.defect? = none) : s.withDefaults.Valid := by
  obtain ⟨htags, hjobs, hslash, htest⟩ := defect?_eq_none.mp h
  have hdefault : isTag defaultTag = true ∧ '/' ∉ defaultSuffix.toList ∧
      endsIn defaultSuffix "_test" = false ∧ defaultSuffix ≠ "" := by decide
  refine ⟨?_, ?_, defect?_eq_none.mpr ⟨?_, hjobs, ?_, ?_⟩⟩
  · unfold Settings.withDefaults
    cases hs : s.tags <;> simp
  · unfold Settings.withDefaults
    by_cases hs : s.suffix = "" <;> simp [hs, hdefault]
  · unfold Settings.withDefaults
    cases hs : s.tags with
    | nil => simpa using hdefault.1
    | cons tag tags => simpa [hs] using htags
  · unfold Settings.withDefaults
    by_cases hs : s.suffix = "" <;> simp [hs, hdefault, hslash]
  · unfold Settings.withDefaults
    by_cases hs : s.suffix = "" <;> simp [hs, hdefault, htest]

theorem Valid.of_check {source : String} (h : s.check source = .ok s') : s'.Valid := by
  unfold check at h
  cases hdefect : s.defect? with
  | some d => simp [hdefect] at h
  | none =>
      simp only [hdefect, Except.ok.injEq] at h
      exact h ▸ .withDefaults hdefect

/-- The environment leaves valid settings, whatever it overrides. -/
theorem Valid.of_applyEnv (h : s.applyEnv env R = .ok s') : s'.Valid := .of_check h

theorem Valid.of_discover {t : FileTree} {folder : Path}
    (h : Settings.discover t folder env R = .ok s) : s.Valid := by
  unfold Settings.discover at h
  split at h
  · cases hload : load t _ _ R with
    | error e =>
        rw [hload] at h
        cases h
    | ok found =>
        rw [hload] at h
        exact .of_applyEnv h
  · exact .of_applyEnv h

section Output

/-- The part of a path that is kept in the name of a generated file. -/
theorem toList_output {path : String} (hpath : endsIn path ".go" = true) :
    ∃ base, path.toList = base ++ ['.', 'g', 'o'] ∧
      (s.output path).toList = base ++ s.suffix.toList ++ ['.', 'g', 'o'] := by
  obtain ⟨base, hbase⟩ := endsIn_iff.mp hpath
  refine ⟨base, hbase.symm, ?_⟩
  have htake : path.toList.take (path.toList.length - 3) = base := by
    rw [← hbase]
    simp
  simp [output, hpath, htake]

theorem output_ne {path : String} (hpath : endsIn path ".go" = true) (h : s.suffix ≠ "") :
    s.output path ≠ path := by
  obtain ⟨base, hpath', houtput⟩ := s.toList_output hpath
  intro heq
  rw [heq, hpath', List.append_cancel_right_eq, List.self_eq_append_right] at houtput
  exact h (String.toList_eq_nil_iff.mp houtput)

/-- A generated file is one of tests when the suffix says so, or when its source ends in what is
missing. -/
theorem output_isTest {path : String} (hpath : endsIn path ".go" = true) :
    endsIn (s.output path) "_test.go" = true ↔ endsIn s.suffix "_test" = true ∨
      ∃ first, first ++ s.suffix = "_test" ∧ endsIn path (first ++ ".go") = true := by
  obtain ⟨base, hpath', houtput⟩ := s.toList_output hpath
  have hcut : ∀ l m : List Char, l ++ ['.', 'g', 'o'] <:+ m ++ ['.', 'g', 'o'] ↔ l <:+ m := by
    intro l m
    constructor
    · rintro ⟨r, hr⟩
      rw [← List.append_assoc, List.append_cancel_right_eq] at hr
      exact ⟨r, hr⟩
    · rintro ⟨r, rfl⟩
      exact ⟨r, by simp⟩
  have hends : endsIn (s.output path) "_test.go" = true ↔
      "_test".toList <:+ base ++ s.suffix.toList := by
    rw [endsIn_iff, houtput]
    exact hcut "_test".toList _
  rw [hends, endsIn_iff]
  constructor
  · rintro ⟨r, hr⟩
    obtain ⟨first, hbase, hfirst⟩ | ⟨c, -, hc⟩ := List.append_eq_append_iff.mp hr
    · refine .inr ⟨String.ofList first, ?_, ?_⟩
      · rw [← String.toList_inj, String.toList_append, String.toList_ofList, hfirst]
      · rw [endsIn_iff, hpath', hbase, String.toList_append, String.toList_ofList]
        exact (hcut _ _).mpr ⟨r, rfl⟩
    · exact .inl ⟨c, hc.symm⟩
  · rintro (htest | ⟨first, hfirst, hends⟩)
    · exact htest.trans (List.suffix_append _ _)
    · rw [endsIn_iff, hpath', String.toList_append] at hends
      obtain ⟨r, rfl⟩ := (hcut _ _).mp hends
      refine ⟨r, ?_⟩
      rw [← hfirst, String.toList_append, List.append_assoc]

end Output

end Settings

namespace Flags

variable {f : Flags} {s s' : Settings}

/-- What flags say by themselves. -/
def said (f : Flags) : Settings where
  tags := f.tags.elim [] splitTags
  suffix := f.suffix.getD ""
  jobs := f.jobs.getD 0
  verbose := f.verbose

/-- Flags override settings without a check. -/
theorem override_tags_ne (h : f.override s = .ok s') (hs : s.tags ≠ []) : s'.tags ≠ [] := by
  unfold override at h
  cases htags : f.tags with
  | none =>
      simp only [htags, Option.elim, Option.isSome_none, Bool.and_false, Bool.false_eq_true,
        if_false, Except.ok.injEq] at h
      rw [← h]
      exact hs
  | some tags =>
      simp only [htags, Option.elim, Option.isSome_some, Bool.and_true, List.isEmpty_iff] at h
      split at h
      · cases h
      · rename_i hne
        simp only [Except.ok.injEq] at h
        rw [← h]
        exact hne

theorem override_valid (h : f.override s = .ok s') (hs : s.Valid) (hsaid : f.said.defect? = .none)
    (hsuffix : f.suffix ≠ some "") : s'.Valid := by
  have htags := override_tags_ne h hs.tags
  obtain ⟨hsaidTags, hsaidJobs, hsaidSlash, hsaidTest⟩ := Settings.defect?_eq_none.mp hsaid
  obtain ⟨hsTags, hsJobs, hsSlash, hsTest⟩ := Settings.defect?_eq_none.mp hs.sound
  unfold override at h
  simp only at h
  split at h
  · cases h
  · obtain rfl := Except.ok.inj h
    refine ⟨htags, ?_, Settings.defect?_eq_none.mpr ⟨?_, ?_, ?_, ?_⟩⟩
    · cases hf : f.suffix with
      | none => exact hs.suffix
      | some suffix => simpa [hf] using hsuffix
    · cases hf : f.tags with
      | none => exact hsTags
      | some tags => simpa [said, hf] using hsaidTags
    · cases hf : f.jobs with
      | none => exact hsJobs
      | some jobs => simpa [said, hf] using hsaidJobs
    · cases hf : f.suffix with
      | none => exact hsSlash
      | some suffix => simpa [said, hf] using hsaidSlash
    · cases hf : f.suffix with
      | none => exact hsTest
      | some suffix => simpa [said, hf] using hsaidTest

/-- Flags override valid settings. -/
theorem exists_valid_of_settings {t : FileTree} {folder : Path} {env : Environment}
    {R : Readers} (h : f.settings t folder env R = .ok s) :
    ∃ found : Settings, found.Valid ∧ f.override found = .ok s := by
  unfold settings at h
  simp only at h
  split at h
  · cases hfound : Settings.discover t (folder.resolve f.dir) env R with
    | error e =>
        rw [hfound] at h
        cases h
    | ok found =>
        rw [hfound] at h
        exact ⟨found, .of_discover hfound, h⟩
  · cases hload : Settings.load t (f.config.getD "") (folder.resolve (f.config.getD "")) R with
    | error e =>
        rw [hload] at h
        cases h
    | ok loaded =>
        rw [hload] at h
        cases hfound : loaded.applyEnv env R with
        | error e =>
            rw [Except.bind, hfound] at h
            cases h
        | ok found =>
            rw [Except.bind, hfound] at h
            exact ⟨found, .of_applyEnv hfound, h⟩

/-- The settings of a run have tags.  Where the flags say nothing invalid themselves, they are
valid, whatever the settings file and the environment hold and however these are read; the file
generated from a source is another one, and it is a test file only when the source ends in what the
suffix lacks of the ending of test files. -/
theorem settings_valid {t : FileTree} {folder : Path} {env : Environment} {R : Readers}
    (h : f.settings t folder env R = .ok s) :
    s.tags ≠ [] ∧ (f.said.defect? = .none → f.suffix ≠ some "" →
      s.defect? = .none ∧ ∀ path, endsIn path ".go" = true → s.output path ≠ path ∧
        (endsIn (s.output path) "_test.go" = true ↔
          ∃ first, first ++ s.suffix = "_test" ∧ endsIn path (first ++ ".go") = true)) := by
  obtain ⟨found, hfound, hover⟩ := exists_valid_of_settings h
  refine ⟨override_tags_ne hover hfound.tags, fun hsaid hsuffix => ?_⟩
  have hvalid := override_valid hover hfound hsaid hsuffix
  refine ⟨hvalid.sound, fun path hpath => ⟨Settings.output_ne hpath hvalid.suffix, ?_⟩⟩
  have htest := (Settings.defect?_eq_none.mp hvalid.sound).2.2.2
  rw [Settings.output_isTest hpath, htest]
  simp

deriving instance DecidableEq for Except

/-- The flags `--suffix _gen --jobs=2`. -/
def suffixGen : Flags := { Flags.none with suffix := some "_gen", jobs := some 2 }

theorem suffixGen_settings_valid :
    Flags.parse ["--suffix", "_gen", "--jobs=2"] = .ok suffixGen ∧
      suffixGen.settings ⟨[]⟩ [""] [("YIELDGEN_TAGS", "gen")] = .ok ⟨["gen"], "_gen", 2, false⟩ ∧
      Settings.defect? ⟨["gen"], "_gen", 2, false⟩ = .none ∧
      Settings.output ⟨["gen"], "_gen", 2, false⟩ "a.go" ≠ "a.go" := by
  have hsettings : suffixGen.settings ⟨[]⟩ [""] [("YIELDGEN_TAGS", "gen")] =
      .ok ⟨["gen"], "_gen", 2, false⟩ := by decide +kernel
  obtain ⟨-, hvalid⟩ := settings_valid hsettings
  obtain ⟨hsound, houtput⟩ := hvalid (by decide) (by decide)
  exact ⟨by decide +kernel, hsettings, hsound, (houtput "a.go" (by decide)).1⟩

/-- An empty suffix on the command line lets a generated file take the place of its source, and
a suffix from the environment can complete the name of a source to one of a test file. -/
theorem settings_overwrite :
    (∃ f s, Flags.parse ["--suffix="] = .ok f ∧ f.settings ⟨[]⟩ [""] [] = .ok s ∧
      s.output "a.go" = "a.go") ∧
    ∃ f s, Flags.parse [] = .ok f ∧ f.settings ⟨[]⟩ [""] [("YIELDGEN_SUFFIX", "test")] = .ok s ∧
      s.output "a_.go" = "a_test.go" := by
  refine ⟨⟨{ Flags.none with suffix := some "" }, ⟨["yieldgen"], "", 0, false⟩, ?_⟩,
    Flags.none, ⟨["yieldgen"], "test", 0, false⟩, ?_⟩ <;> decide +kernel

end Flags

end YieldMachine
