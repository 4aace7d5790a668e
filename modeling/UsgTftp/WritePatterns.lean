import UsgTftp.Lib.GlobPattern
import UsgTftp.PathSecurity

set_option autoImplicit false

/-! # The depth of write patterns

`is_write_allowed` calls `glob::Pattern::matches`, whose default options let a wildcard stand for a
slash. So `*.txt` allows the text files of all directories, where the documentation has it allow
those of the root directory only.

`pattern_depth_iff` says which of the paths that a pattern allows are as deep as the pattern.
-/

namespace UsgTftp

open Posix Posix.Path

/-! ## The crate as it is documented -/

/-- A pattern with `**`. -/
def HasDoubleStar (pattern : String) : Prop := ['*', '*'] <:+: pattern.toList

instance (pattern : String) : Decidable (HasDoubleStar pattern) :=
  inferInstanceAs (Decidable (_ <:+: _))

/-- The tokens of the documented syntax, matched with the default options. -/
def documentedGlob : Glob where
  Pattern := List GlobPattern.Token
  new := GlobPattern.compile
  matchesStr := fun ts s => GlobPattern.matchTokens ts s.toList

/-- The crate does what its documentation says of the patterns without `**`. -/
def Glob.Documented (glob : Glob) : Prop :=
  ∀ pattern s, ¬ HasDoubleStar pattern → glob.accepts s pattern = documentedGlob.accepts s pattern

theorem documentedGlob_accepts {pattern s : String} :
    documentedGlob.accepts s pattern = true ↔
      ∃ ts, GlobPattern.compile pattern = some ts ∧
        GlobPattern.matchTokens ts s.toList = true := by
  cases hts : GlobPattern.compile pattern with
  | none => simp [Glob.accepts, documentedGlob, hts]
  | some ts => simp [Glob.accepts, documentedGlob, hts]

/-! ## What a pattern allows -/

/-- The pattern is one of those of the configuration and matches the relative path `s` of `p`. -/
structure AllowedBy (glob : Glob) (p rootDir : Path) (writeConfig : WriteConfig)
    (pattern s : String) : Prop where
  listed : pattern ∈ writeConfig.allowedPatterns
  relative : p.stripPrefix rootDir = some s
  accepts : glob.accepts s pattern = true

theorem isWriteAllowed_iff_allowedBy {glob : Glob} {p rootDir : Path} {writeConfig : WriteConfig} :
    isWriteAllowed glob p rootDir writeConfig = true ↔
      ∃ pattern s, AllowedBy glob p rootDir writeConfig pattern s := by
  unfold isWriteAllowed
  constructor
  · intro h
    cases hs : p.stripPrefix rootDir with
    | none =>
        rw [hs] at h
        cases h
    | some s =>
        rw [hs] at h
        obtain ⟨pattern, hlisted, haccepts⟩ := List.any_eq_true.mp h
        exact ⟨pattern, s, hlisted, hs, haccepts⟩
  · rintro ⟨pattern, s, h⟩
    rw [h.relative]
    exact List.any_eq_true.mpr ⟨pattern, h.listed, h.accepts⟩

/-- The number of components of a text that is cut at the slashes. -/
def depth (s : String) : Nat := (splitSlash s).length

theorem depth_eq (s : String) : depth s = s.toList.count '/' + 1 := by
  rw [depth, splitSlash, List.length_map]
  induction s.toList with
  | nil => rfl
  | cons c cs ih =>
      rw [List.splitOn_cons_eq_if_modifyHead, List.count_cons]
      split_ifs with hc
      · rw [List.length_cons, ih]
      · rw [List.length_modifyHead, ih]

/-- **When a path is as deep as the pattern that allows it**: if and only if the wildcards stand
for as many slashes as the pattern has in brackets, which for most patterns is none. -/
theorem pattern_depth_iff {glob : Glob} (hglob : glob.Documented) {p rootDir : Path}
    {writeConfig : WriteConfig} {pattern s : String} (hstar : ¬ HasDoubleStar pattern)
    (h : AllowedBy glob p rootDir writeConfig pattern s) :
    depth s = depth pattern ↔
      ∃ ts, GlobPattern.compile pattern = some ts ∧
        GlobPattern.MatchesWith ts s.toList (GlobPattern.bracketSlashes ts) := by
  have haccepts := h.accepts
  rw [hglob pattern s hstar, documentedGlob_accepts] at haccepts
  obtain ⟨ts, hts, hmatch⟩ := haccepts
  rw [depth_eq, depth_eq, Nat.add_right_cancel_iff, GlobPattern.count_slash_eq_iff hts hmatch]
  constructor
  · intro hwith
    exact ⟨ts, hts, hwith⟩
  · rintro ⟨ts', hts', hwith⟩
    rw [hts] at hts'
    cases hts'
    exact hwith

/-- A configuration file of the directory that the pattern names. -/
theorem pattern_depth_configs :
    let writeConfig : WriteConfig := ⟨true, false, ["configs/*.cfg"]⟩
    AllowedBy documentedGlob (ofString "/srv/tftp/configs/a.cfg") (ofString "/srv/tftp")
      writeConfig "configs/*.cfg" "configs/a.cfg" ∧
    (depth "configs/a.cfg" = depth "configs/*.cfg" ↔
      ∃ ts, GlobPattern.compile "configs/*.cfg" = some ts ∧
        GlobPattern.MatchesWith ts "configs/a.cfg".toList (GlobPattern.bracketSlashes ts)) := by
  intro writeConfig
  have h : AllowedBy documentedGlob (ofString "/srv/tftp/configs/a.cfg") (ofString "/srv/tftp")
      writeConfig "configs/*.cfg" "configs/a.cfg" :=
    ⟨by decide, by decide +kernel, by decide +kernel⟩
  exact ⟨h, pattern_depth_iff (fun _ _ _ => rfl) (by decide) h⟩

/-- `*.txt` allows a file of a subdirectory. -/
theorem star_allows_subdirectory :
    let writeConfig : WriteConfig := ⟨true, false, ["*.txt"]⟩
    ¬ ∀ p pattern s, ¬ HasDoubleStar pattern →
      AllowedBy documentedGlob p (ofString "/srv/tftp") writeConfig pattern s →
      depth s = depth pattern := by
  intro writeConfig hdepth
  have h : AllowedBy documentedGlob (ofString "/srv/tftp/configs/a.txt") (ofString "/srv/tftp")
      writeConfig "*.txt" "configs/a.txt" :=
    ⟨by decide, by decide +kernel, by decide +kernel⟩
  exact absurd (hdepth _ _ _ (by decide) h) (by decide +kernel)

end UsgTftp
