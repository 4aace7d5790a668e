import UsgTftp.Multicast.Server

set_option autoImplicit false

/-! # The two path validators

`validate_file_path` of the multicast server is an older copy of `validate_and_resolve_path`. It
refuses a name that contains two dots anywhere, and lets segments pass that begin with one.

`multicast_agrees_iff` says for which requests of existing files the two agree.
-/

namespace UsgTftp

open Posix Posix.Path

/-- The checks that both make on the path of a file that exists. -/
def Reachable (env : Env) (t : Tree) (rootDir filePath : Path) : Prop :=
  rejectSymlink env t filePath = .ok () ∧ ∃ R loc, canonicalize env t rootDir = .ok R ∧
    canonicalize env t filePath = .ok loc ∧ R <+: loc

section

variable {env : Env} {t : Tree} {rootDir p : Path} {filename : String} {loc : Loc}

theorem any_hidden_eq_false (segs : List String) :
    (segs.any fun seg => seg = ".." || startsWithDot seg) = false ↔
      ∀ seg ∈ segs, startsWithDot seg = false := by
  rw [List.any_eq_false]
  refine forall_congr' fun seg => imp_congr_right fun _ => ?_
  simp only [Bool.or_eq_true, decide_eq_true_eq, not_or, Bool.not_eq_true]
  constructor
  · exact And.right
  · intro h
    refine ⟨?_, h⟩
    rintro rfl
    exact absurd h (by decide)

theorem validateAndResolvePath_of_exists
    (hloc : canonicalize env t (requestedPath rootDir filename) = .ok loc) :
    validateAndResolvePath env t rootDir filename = .ok p ↔
      (∀ seg ∈ filenameSegments filename, startsWithDot seg = false) ∧
        Reachable env t rootDir (requestedPath rootDir filename) ∧
        p = requestedPath rootDir filename := by
  have hnear : nearestCanonical env t (requestedPath rootDir filename) = some loc := by
    rw [nearestCanonical, hloc]
  unfold requestedPath at *
  unfold validateAndResolvePath Reachable
  dsimp only
  rw [← any_hidden_eq_false]
  cases (filenameSegments filename).any fun seg => seg = ".." || startsWithDot seg with
  | true => simp
  | false =>
      rw [if_neg Bool.false_ne_true, hnear, hloc]
      cases rejectSymlink env t (rootDir.join (trimStartSlashes (filenameSegments filename))) with
      | error e => simp
      | ok u =>
          cases canonicalize env t rootDir with
          | error e => simp
          | ok R =>
              by_cases hin : R <+: loc
              · simp [hin, eq_comm]
              · simp [hin]

theorem validateFilePath_of_exists {srv : MulticastServer}
    (hloc : canonicalize srv.env t (requestedPath srv.rootDir filename) = .ok loc) :
    srv.validateFilePath t filename = .ok p ↔
      containsDotDot filename = false ∧
        Reachable srv.env t srv.rootDir (requestedPath srv.rootDir filename) ∧
        p = requestedPath srv.rootDir filename := by
  have hnear : fileOrParent srv.env t (requestedPath srv.rootDir filename) = some loc := by
    rw [fileOrParent, hloc]
  unfold requestedPath at *
  unfold MulticastServer.validateFilePath Reachable
  dsimp only
  cases containsDotDot filename with
  | true => simp
  | false =>
      rw [if_neg Bool.false_ne_true, hnear, hloc]
      cases rejectSymlink srv.env t
          (srv.rootDir.join (trimStartSlashes (filenameSegments filename))) with
      | error e => simp
      | ok u =>
          cases canonicalize srv.env t srv.rootDir with
          | error e => simp
          | ok R =>
              by_cases hin : R <+: loc
              · simp [hin, eq_comm]
              · simp [hin]

end

/-- **When the validators agree** on a request of an existing file: if the file cannot be reached
anyway, or its name has a hidden segment if and only if it contains two dots. -/
theorem multicast_agrees_iff (srv : MulticastServer) (t : Tree) (filename : String)
    (hfile : ∃ i, metadata srv.env t (requestedPath srv.rootDir filename) = .ok (.file i)) :
    (∀ p, srv.validateFilePath t filename = .ok p ↔
      validateAndResolvePath srv.env t srv.rootDir filename = .ok p) ↔
    (Reachable srv.env t srv.rootDir (requestedPath srv.rootDir filename) →
      (containsDotDot filename = true ↔
        ∃ seg ∈ filenameSegments filename, startsWithDot seg = true)) := by
  obtain ⟨i, hi⟩ := hfile
  obtain ⟨loc, hloc⟩ : ∃ loc,
      canonicalize srv.env t (requestedPath srv.rootDir filename) = .ok loc := by
    unfold metadata at hi
    cases hc : canonicalize srv.env t (requestedPath srv.rootDir filename) with
    | error e =>
        rw [hc] at hi
        cases hi
    | ok loc => exact ⟨loc, rfl⟩
  have hhidden : (∃ seg ∈ filenameSegments filename, startsWithDot seg = true) ↔
      ¬ ∀ seg ∈ filenameSegments filename, startsWithDot seg = false := by
    simp
  simp only [validateFilePath_of_exists hloc, validateAndResolvePath_of_exists hloc, hhidden]
  constructor
  · intro h hreach
    have hsame := h (requestedPath srv.rootDir filename)
    simp only [hreach, and_true] at hsame
    rw [← hsame, Bool.not_eq_false]
  · intro h p
    constructor
    · rintro ⟨hdots, hreach, hp⟩
      refine ⟨?_, hreach, hp⟩
      by_contra hno
      rw [(h hreach).mpr hno] at hdots
      cases hdots
    · rintro ⟨hno, hreach, hp⟩
      refine ⟨?_, hreach, hp⟩
      rw [Bool.eq_false_iff]
      intro hdots
      exact (h hreach).mp hdots hno

/-- `/srv/tftp/.audit/log` and `/srv/tftp/a`. -/
def auditedTree : Tree :=
  ((emptyRoot.addDir ["srv", "tftp"] ".audit").addFile ["srv", "tftp", ".audit"] "log").addFile
    ["srv", "tftp"] "a"

/-- The two agree on the file `a`. -/
theorem multicast_agrees_plain :
    (∃ i, metadata plainServer.env auditedTree (requestedPath plainServer.rootDir "a")
      = .ok (.file i)) ∧
    ((∀ p, plainServer.validateFilePath auditedTree "a" = .ok p ↔
      validateAndResolvePath plainServer.env auditedTree plainServer.rootDir "a" = .ok p) ↔
    (Reachable plainServer.env auditedTree plainServer.rootDir
        (requestedPath plainServer.rootDir "a") →
      (containsDotDot "a" = true ↔ ∃ seg ∈ filenameSegments "a", startsWithDot seg = true))) := by
  have hfile : ∃ i, metadata plainServer.env auditedTree (requestedPath plainServer.rootDir "a")
      = .ok (.file i) := ⟨1, by decide +kernel⟩
  exact ⟨hfile, multicast_agrees_iff plainServer auditedTree "a" hfile⟩

/-- The audit log, which the shared validator refuses. -/
theorem multicast_serves_hidden :
    metadata plainServer.env auditedTree (requestedPath plainServer.rootDir ".audit/log")
      = .ok (.file 0) ∧
    ¬ ∀ p, plainServer.validateFilePath auditedTree ".audit/log" = .ok p ↔
      validateAndResolvePath plainServer.env auditedTree plainServer.rootDir ".audit/log"
        = .ok p := by
  refine ⟨by decide +kernel, ?_⟩
  intro h
  have hserved : plainServer.validateFilePath auditedTree ".audit/log"
      = .ok (ofString "/srv/tftp/.audit/log") := by decide +kernel
  have hrefused :
      validateAndResolvePath plainServer.env auditedTree plainServer.rootDir ".audit/log"
        = .error (.tftp "Invalid filename") := by decide +kernel
  rw [(h _).mp hserved] at hrefused
  cases hrefused

end UsgTftp
