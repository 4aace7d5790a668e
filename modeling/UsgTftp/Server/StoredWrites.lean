import UsgTftp.Web.FileStore

set_option autoImplicit false

/-! # Writes in the store

What `write_file_safely` does to the store of files that readers see (`stored`), call by call: it
empties and fills its temporary file, and the rename takes that away and puts the data where the
path leads. So the two programs that share a directory act on one store (`shared_session_store`),
and a file that was written is served by both (`written_file_served`).

A call is alone between its steps here. Its temporary file must not be a link or have a second
name, for then it would write to another file.
-/

namespace UsgTftp

open Posix Posix.Path Reactive PrefixStore

/-! ## The process -/

/-- What the process does for the readers as it goes from `st` to `st'`. Its temporary file lies
where its name leads. -/
def Commit.moveOps (env : Env) (c : Commit) (t : Tree) (st st' : CommitState) : List FileOp :=
  match st, st', destination env t c.tempPath with
  | .createTemp, .writing _ _, some temp => [.put temp []]
  | .writing _ _, .writing _ written, some temp => [.put temp (c.data.take written)]
  | .flushed _, .committed place, some temp => [.remove temp, .put place c.data]
  | _, _, _ => []

section Moves

variable {env : Env} {c : Commit} {t : Tree} {temp : Loc}

theorem moveOps_createTemp (h : destination env t c.tempPath = some temp) (i written : Nat) :
    c.moveOps env t .createTemp (.writing i written) = [.put temp []] := by
  simp only [Commit.moveOps, h]

theorem moveOps_writing (h : destination env t c.tempPath = some temp) (i j before written : Nat) :
    c.moveOps env t (.writing i before) (.writing j written)
      = [.put temp (c.data.take written)] := by
  simp only [Commit.moveOps, h]

theorem moveOps_committed (h : destination env t c.tempPath = some temp) (i : Nat) (place : Loc) :
    c.moveOps env t (.flushed i) (.committed place) = [.remove temp, .put place c.data] := by
  simp only [Commit.moveOps, h]

end Moves

/-- The temporary name is free, or the only name of a file. -/
def OwnTemp (env : Env) (t : Tree) (p : Path) : Prop :=
  ∀ loc m, lookup env t false p p.comps = .ok (.found loc, m) →
    t.entry loc = some .dir ∨ ∃ i, t.entry loc = some (.file i) ∧ OnlyName t loc i

/-- A check of `OwnTemp`, by the support of the tree. -/
def ownTempCheck (env : Env) (t : Tree) (p : Path) : Bool :=
  match lookup env t false p p.comps with
  | .ok (.found loc, _) =>
      match t.entry loc with
      | some .dir => true
      | some (.file i) => t.support.all fun l => decide (t.entry l = some (.file i) → l = loc)
      | _ => false
  | _ => true

theorem ownTemp_of_check {env : Env} {t : Tree} {p : Path} (h : ownTempCheck env t p = true) :
    OwnTemp env t p := by
  intro loc m hl
  rw [ownTempCheck, hl] at h
  cases he : t.entry loc with
  | none => exact absurd he (lookup_found_entry hl)
  | some e =>
      cases e with
      | dir => exact Or.inl rfl
      | symlink target => simp [he] at h
      | file i =>
          refine Or.inr ⟨i, rfl, fun l hfile => ?_⟩
          simp only [he, List.all_eq_true, decide_eq_true_eq] at h
          exact h l (t.mem_support l (by rw [hfile]; exact Option.some_ne_none _)) hfile

/-- The process holds its temporary file, and no other file is changed through it. -/
def HoldsTemp (env : Env) (c : Commit) (t : Tree) (i : Nat) (bytes : Bytes) : Prop :=
  ∃ loc, TempHeld env c t loc i bytes ∧ OnlyName t loc i

/-- The invariant of a process that is alone. -/
def Commit.Alone (env : Env) (c : Commit) (s : Tree × CommitState) : Prop :=
  match s.2 with
  | .createDirs => OwnTemp env (createParents env s.1 c.filePath).1 c.tempPath
  | .createTemp => OwnTemp env s.1 c.tempPath
  | .writing i written => written ≤ c.data.length ∧ HoldsTemp env c s.1 i (c.data.take written)
  | .flushed i => HoldsTemp env c s.1 i c.data
  | _ => True

section Process

variable {env : Env} {c : Commit} {t t' : Tree} {i : Nat} {bytes : Bytes}

theorem destination_of_found {p : Path} {loc : Loc} {m : Nat}
    (h : lookup env t false p p.comps = .ok (.found loc, m)) : destination env t p = some loc := by
  rw [destination, h]

theorem destination_tempPath {loc : Loc} (h : TempHeld env c t loc i bytes) :
    destination env t c.tempPath = some loc := by
  obtain ⟨m, hm⟩ := h.named
  exact destination_of_found hm

/-- **Creating the temporary file.** -/
theorem create_own {loc : Loc} (hown : OwnTemp env t c.tempPath)
    (h : create env t c.tempPath = .ok (t', loc, i)) :
    TempHeld env c t' loc i [] ∧ OnlyName t' loc i ∧ destination env t c.tempPath = some loc ∧
      stored t' = (Op.put loc []).apply (stored t) := by
  have hlink : ∀ l m target, lookup env t false c.tempPath c.tempPath.comps = .ok (.found l, m) →
      t.entry l ≠ some (.symlink target) := by
    intro l m target hl he
    rcases hown l m hl with hdir | ⟨j, hfile, -⟩
    · rw [hdir] at he
      cases he
    · rw [hfile] at he
      cases he
  obtain ⟨m, hm, hadd | ⟨hl, hfile, rfl⟩⟩ := create_of_no_link hlink h
  · refine ⟨⟨hadd.entry, hadd.content, m, hm⟩, fun l hl => ?_, ?_, stored_fileAdded hadd⟩
    · by_contra hne
      rw [hadd.other l hne] at hl
      have hlt := t.inode_lt l i hl
      rw [hadd.inode_eq] at hlt
      exact Nat.lt_irrefl _ hlt
    · have hsame := lookup_follow_of_no_link hlink
      obtain ⟨-, ⟨k, hk, hfile, -⟩ | ⟨d, n, k, hk, hloc, -, -⟩⟩ := create_eq_ok h
      · rw [hadd.absent] at hfile
        cases hfile
      · rw [hsame] at hk
        rw [destination, hk, hloc]
  · obtain ⟨hentry, honly⟩ : t.entry loc = some (.file i) ∧ OnlyName t loc i := by
      rcases hown loc m hl with hdir | ⟨j, hj, honly⟩
      · rw [hdir] at hfile
        cases hfile
      · rw [hj] at hfile
        cases hfile
        exact ⟨hj, honly⟩
    exact ⟨⟨hfile, Function.update_self _ _ _, m, hm⟩, honly, destination_of_found hl,
      stored_setContent hentry honly []⟩

/-- **Writing a chunk.** -/
theorem HoldsTemp.write {written : Nat} (h : HoldsTemp env c t i (c.data.take written))
    (hle : written ≤ c.data.length) (n : Nat) :
    let chunk := (c.data.drop written).take n
    let t' := t.setContent i (overwrite (t.content i) written chunk)
    HoldsTemp env c t' i (c.data.take (written + chunk.length)) ∧
      ∃ temp, destination env t c.tempPath = some temp ∧
        stored t' = (Op.put temp (c.data.take (written + chunk.length))).apply (stored t) := by
  intro chunk t'
  obtain ⟨loc, htemp, honly⟩ := h
  have hnew : overwrite (t.content i) written chunk = c.data.take (written + chunk.length) := by
    rw [htemp.content]
    exact overwrite_take c.data hle n
  have ht' : t' = t.setContent i (c.data.take (written + chunk.length)) := by
    show t.setContent i _ = _
    rw [hnew]
  rw [ht']
  exact ⟨⟨loc, htemp.setContent_self _, honly⟩, loc, destination_tempPath htemp,
    stored_setContent htemp.entry honly _⟩

/-- **The rename.** -/
theorem HoldsTemp.rename (h : HoldsTemp env c t i bytes)
    (hr : rename env t c.tempPath c.filePath = .ok t') :
    ∃ temp place, destination env t c.tempPath = some temp ∧
      destination env t c.filePath = some place ∧
      stored t' = replay (stored t) [.remove temp, .put place bytes] := by
  obtain ⟨loc, htemp, honly⟩ := h
  obtain ⟨old, new, m, hold, hnew, hmoved⟩ := rename_file hr
  obtain ⟨m', hm'⟩ := htemp.named
  rw [hm'] at hold
  cases hold
  refine ⟨loc, new, destination_of_found hm', hnew, ?_⟩
  rcases hmoved i htemp.entry with ⟨rfl, hsame⟩ | hmove
  · -- both names are the one name of the file
    obtain rfl := honly new hsame
    funext l
    show stored t' l = Function.update ((Op.remove new).apply (stored t')) new (some bytes) l
    by_cases hl : l = new
    · rw [hl, Function.update_self, stored_file hsame, htemp.content]
    · rw [Function.update_of_ne hl]
      show stored t' l = if new <+: l then none else stored t' l
      split_ifs with hbelow
      · exact stored_below hsame (by intro hd; cases hd) hbelow (Ne.symm hl)
      · rfl
  · rw [stored_fileMoved hmove, htemp.content]

/-- **What a step does**, with the calls that it makes. -/
inductive CommitCase (env : Env) (c : Commit) (t : Tree) :
    CommitState → Tree × CommitState → Prop where
  | ended {st : CommitState} (hst : (∃ loc, st = .committed loc) ∨ ∃ e, st = .failed e) :
      CommitCase env c t st (t, st)
  | fails {st : CommitState} {t' : Tree} (e : Errno) (hsame : stored t' = stored t) :
      CommitCase env c t st (t', .failed e)
  | dirs {t' : Tree} (h : createParents env t c.filePath = (t', .ok ())) :
      CommitCase env c t .createDirs (t', .createTemp)
  | temp {t' : Tree} {loc : Loc} {i : Nat} (h : create env t c.tempPath = .ok (t', loc, i)) :
      CommitCase env c t .createTemp (t', .writing i 0)
  | write (i written n : Nat) (h : written < c.data.length) :
      CommitCase env c t (.writing i written)
        (t.setContent i (overwrite (t.content i) written ((c.data.drop written).take n)),
          .writing i (written + ((c.data.drop written).take n).length))
  | flush (i written : Nat) (h : c.data.length ≤ written) :
      CommitCase env c t (.writing i written) (t, .flushed i)
  | rename (i : Nat) {t' : Tree} (h : rename env t c.tempPath c.filePath = .ok t') :
      CommitCase env c t (.flushed i) (t', .committed ((destination env t c.filePath).getD []))

theorem commit_step_case (env : Env) (c : Commit) (io : IoOutcome) (t : Tree) (st : CommitState) :
    CommitCase env c t st (c.step env io t st) := by
  cases st with
  | committed loc => exact .ended (Or.inl ⟨loc, rfl⟩)
  | failed e => exact .ended (Or.inr ⟨e, rfl⟩)
  | createDirs =>
      cases io with
      | error e => exact .fails e rfl
      | ok n =>
          have hstored := stored_createParents env t c.filePath
          rw [Commit.step]
          cases hmade : createParents env t c.filePath with
          | mk t' result =>
              rw [hmade] at hstored
              cases result with
              | error e => exact .fails e hstored
              | ok u => exact .dirs hmade
  | createTemp =>
      cases io with
      | error e => exact .fails e rfl
      | ok n =>
          rw [Commit.step]
          cases hcreate : create env t c.tempPath with
          | error e => exact .fails e rfl
          | ok made => exact .temp hcreate
  | writing i written =>
      cases io with
      | error e => exact .fails e rfl
      | ok n =>
          rw [Commit.step]
          dsimp only
          split_ifs with hlt
          · exact .write i written n hlt
          · exact .flush i written (Nat.le_of_not_lt hlt)
  | flushed i =>
      cases io with
      | error e => exact .fails e rfl
      | ok n =>
          rw [Commit.step]
          cases hr : rename env t c.tempPath c.filePath with
          | error e => exact .fails e rfl
          | ok t' => exact .rename i hr

theorem moveOps_failed (st : CommitState) (e : Errno) : c.moveOps env t st (.failed e) = [] := by
  cases st <;> rfl

theorem moveOps_ended {st : CommitState}
    (hst : (∃ loc, st = .committed loc) ∨ ∃ e, st = .failed e) : c.moveOps env t st st = [] := by
  rcases hst with ⟨loc, rfl⟩ | ⟨e, rfl⟩ <;> rfl

/-- **One step of the process** acts on the store as its log says. -/
theorem Commit.Alone.step {st : CommitState} (h : c.Alone env (t, st)) (io : IoOutcome) :
    stored (c.step env io t st).1
        = replay (stored t) (c.moveOps env t st (c.step env io t st).2) ∧
      c.Alone env (c.step env io t st) := by
  have hcase := commit_step_case env c io t st
  generalize c.step env io t st = next at hcase
  cases hcase with
  | ended hst =>
      rw [moveOps_ended hst]
      exact ⟨rfl, h⟩
  | fails e hsame =>
      rw [moveOps_failed]
      exact ⟨hsame, trivial⟩
  | @dirs t' hmade =>
      have hstored := stored_createParents env t c.filePath
      have hown : OwnTemp env (createParents env t c.filePath).1 c.tempPath := h
      rw [hmade] at hstored hown
      exact ⟨hstored, hown⟩
  | @temp t' loc i hcreate =>
      obtain ⟨htemp, honly, hdest, hstored⟩ := create_own h hcreate
      rw [moveOps_createTemp hdest]
      exact ⟨hstored, Nat.zero_le _, loc, htemp, honly⟩
  | write i written n hlt =>
      obtain ⟨hle, hholds⟩ := h
      obtain ⟨hholds', temp, hdest, hstored⟩ := HoldsTemp.write hholds hle n
      rw [moveOps_writing hdest]
      refine ⟨hstored, ?_, hholds'⟩
      rw [List.length_take, List.length_drop]
      omega
  | flush i written hle =>
      have hholds : HoldsTemp env c t i (c.data.take written) := h.2
      rw [List.take_of_length_le hle] at hholds
      exact ⟨rfl, hholds⟩
  | rename i hr =>
      obtain ⟨temp, place, htemp, hplace, hstored⟩ := HoldsTemp.rename h hr
      rw [hplace, moveOps_committed htemp]
      exact ⟨hstored, trivial⟩

end Process

/-! ## Runs -/

def Commit.run (env : Env) (c : Commit) (s : Tree × CommitState) (ios : List IoOutcome) :
    Tree × CommitState :=
  ios.foldl (fun s io => c.step env io s.1 s.2) s

/-- The log of a run. -/
def Commit.log (env : Env) (c : Commit) : Tree × CommitState → List IoOutcome → List FileOp
  | _, [] => []
  | s, io :: ios =>
      let s' := c.step env io s.1 s.2
      c.moveOps env s.1 s.2 s'.2 ++ c.log env s' ios

theorem stored_run {env : Env} {c : Commit} : ∀ (ios : List IoOutcome) (s : Tree × CommitState),
    c.Alone env s → stored (c.run env s ios).1 = replay (stored s.1) (c.log env s ios) := by
  intro ios
  induction ios with
  | nil => intro s _; rfl
  | cons io ios ih =>
      rintro ⟨t, st⟩ h
      obtain ⟨hstored, hnext⟩ := h.step io
      calc
        stored (c.run env (t, st) (io :: ios)).1
            = replay (stored (c.step env io t st).1) (c.log env (c.step env io t st) ios) :=
          ih _ hnext
        _ = replay (replay (stored t) (c.moveOps env t st (c.step env io t st).2))
              (c.log env (c.step env io t st) ios) := by rw [hstored]
        _ = replay (stored t) (c.log env (t, st) (io :: ios)) := by rw [Commit.log, replay_append]

/-! ## A write that is committed -/

section Committed

variable {env : Env} {c : Commit} {t t' t'' : Tree} {i : Nat}

/-- The temporary file is open: since the parents were made, `t'` has got files only, and readers
can tell it from `t` by the temporary file alone. -/
structure TempOpened (env : Env) (c : Commit) (t t' : Tree) : Prop where
  parents : (createParents env t c.filePath).2 = .ok ()
  opened : ∃ r, create env (createParents env t c.filePath).1 c.tempPath = .ok r
  ext : Extends (createParents env t c.filePath).1 t'
  plain : ∀ l e, t'.entry l = some e → (∀ i, e ≠ .file i) →
    (createParents env t c.filePath).1.entry l = some e
  store : ∃ temp, destination env t' c.tempPath = some temp ∧
    (Op.remove temp).apply (stored t') = (Op.remove temp).apply (stored t)

theorem tempOpened_create (hmade : createParents env t c.filePath = (t', .ok ())) {loc : Loc}
    (hown : OwnTemp env t' c.tempPath) (h : create env t' c.tempPath = .ok (t'', loc, i)) :
    TempOpened env c t t'' := by
  have hopen := opened_of_create h
  obtain ⟨htemp, -, -, hstored⟩ := create_own hown h
  have hmade' : stored t' = stored t := by
    have hsame := stored_createParents env t c.filePath
    rwa [hmade] at hsame
  rw [← show (createParents env t c.filePath).1 = t' by rw [hmade]] at h hopen
  refine ⟨by rw [hmade], ⟨_, h⟩, hopen.ext, fun l e he hplain => ?_, loc,
    destination_tempPath htemp, ?_⟩
  · by_contra hne
    have hl := hopen.entry l (by rw [he]; exact Ne.symm hne)
    rw [hl, hopen.file] at he
    exact hplain i (Option.some.inj he).symm
  · rw [hstored, Op.apply_remove_put, hmade']

/-- Writing to the temporary file. -/
theorem TempOpened.write (h : TempOpened env c t t') {old new : Bytes} {temp : Loc}
    (hdest : destination env t' c.tempPath = some temp)
    (hstored : stored (t'.setContent i old) = (Op.put temp new).apply (stored t')) :
    TempOpened env c t (t'.setContent i old) := by
  obtain ⟨loc, hloc, hsame⟩ := h.store
  rw [hdest] at hloc
  cases hloc
  refine ⟨h.parents, h.opened, h.ext, h.plain, temp, ?_, ?_⟩
  · rw [destination, lookup_setContent]
    exact hdest
  · rw [hstored, Op.apply_remove_put, hsame]

/-- Where a run that began in `t` has come to. -/
def Commit.Since (env : Env) (c : Commit) (t : Tree) (s : Tree × CommitState) : Prop :=
  match s.2 with
  | .createDirs => s.1 = t
  | .createTemp => createParents env t c.filePath = (s.1, .ok ())
  | .writing _ _ => TempOpened env c t s.1
  | .flushed _ => TempOpened env c t s.1
  | .committed place => ∃ t' i, TempOpened env c t t' ∧ HoldsTemp env c t' i c.data ∧
      rename env t' c.tempPath c.filePath = .ok s.1 ∧
      destination env t' c.filePath = some place
  | .failed _ => True

theorem Commit.Since.step {st : CommitState} (h : c.Since env t (t', st))
    (halone : c.Alone env (t', st)) (io : IoOutcome) : c.Since env t (c.step env io t' st) := by
  have hcase := commit_step_case env c io t' st
  generalize c.step env io t' st = next at hcase
  cases hcase with
  | ended => exact h
  | fails => trivial
  | dirs hmade =>
      obtain rfl : t' = t := h
      exact hmade
  | temp hcreate => exact tempOpened_create h halone hcreate
  | write i written n =>
      obtain ⟨hle, hholds⟩ := halone
      obtain ⟨-, temp, hdest, hstored⟩ := HoldsTemp.write hholds hle n
      exact TempOpened.write h hdest hstored
  | flush => exact h
  | rename i hr =>
      obtain ⟨temp, place, -, hplace, -⟩ := HoldsTemp.rename halone hr
      refine ⟨t', i, h, halone, hr, ?_⟩
      rw [hplace]
      rfl

theorem since_run (ios : List IoOutcome) :
    ∀ s : Tree × CommitState, c.Alone env s → c.Since env t s → c.Since env t (c.run env s ios) := by
  induction ios with
  | nil => exact fun _ _ h => h
  | cons io ios ih =>
      rintro ⟨t', st⟩ halone h
      exact ih _ (halone.step io).2 (h.step halone io)

/-- **What a committed write leaves**: the data, and no temporary file. -/
theorem stored_committed {place : Loc} (h : c.Since env t (t', .committed place)) :
    ∃ temp, stored t' = Function.update ((Op.remove temp).apply (stored t)) place (some c.data) := by
  obtain ⟨t₁, i, hopened, hholds, hr, hplace⟩ := h
  obtain ⟨temp, place', htemp, hplace', hstored⟩ := hholds.rename hr
  obtain ⟨loc, hloc, hsame⟩ := hopened.store
  rw [hplace] at hplace'
  cases hplace'
  rw [htemp] at hloc
  cases hloc
  refine ⟨temp, ?_⟩
  calc
    stored t' = replay (stored t₁) [.remove temp, .put place c.data] := hstored
    _ = Function.update ((Op.remove temp).apply (stored t₁)) place (some c.data) := rfl
    _ = Function.update ((Op.remove temp).apply (stored t)) place (some c.data) := by rw [hsame]

/-- What the rename leaves: a file at the destination, and no other directory or link is gone. -/
theorem rename_leaves {temp p : Path} {loc place : Loc} {m : Nat}
    (hloc : lookup env t false temp temp.comps = .ok (.found loc, m))
    (hfile : t.entry loc = some (.file i)) (hplace : destination env t p = some place)
    (hr : rename env t temp p = .ok t') :
    lastNormal p = true ∧ p.trailingSlash = false ∧ t'.entry place = some (.file i) ∧
      t.entry place ≠ some .dir ∧
      ((∀ target, t.entry place ≠ some (.symlink target)) →
        ∀ l e, t.entry l = some e → (∀ j, e ≠ .file j) → t'.entry l = some e) := by
  obtain ⟨hnormal, -, old', new', m', hold', -, -, hkind⟩ := rename_changes hr
  rw [hloc] at hold'
  cases hold'
  obtain ⟨hslash, -⟩ := hkind (by
    rw [hfile]
    intro hd
    cases hd)
  obtain ⟨old, new, k, hold, hnew, hmoved⟩ := rename_file hr
  rw [hloc] at hold
  cases hold
  rw [hplace] at hnew
  cases hnew
  refine ⟨hnormal, hslash, ?_⟩
  rcases hmoved i hfile with ⟨rfl, hsame⟩ | hmove
  · refine ⟨hsame, ?_, fun _ l e he _ => he⟩
    rw [hsame]
    intro hd
    cases hd
  · refine ⟨by rw [hmove.entry, if_pos rfl], hmove.notDir, fun hlink => ?_⟩
    exact hmove.keeps_dirs hlink

/-- Nothing that an accepted path led to, or that was made on its way, is a link. -/
theorem Validated.destination_no_link {s : AppState} {p : Path} {rel : List String} {R loc place : Loc}
    (h : Validated s.env t s.rootDir p rel R loc) (hslash : p.trailingSlash = false)
    (hok : (createParents s.env t p).2 = .ok ())
    (hplace : destination s.env (createParents s.env t p).1 p = some place) (target : Path) :
    (createParents s.env t p).1.entry place ≠ some (.symlink target) := by
  intro he
  obtain ⟨m, hm⟩ := lookup_of_destination hplace he
  by_cases hex : ∃ l, canonicalize s.env t p = .ok l
  · obtain ⟨l, hcanon⟩ := hex
    rw [createParents_of_exists hcanon] at hm he
    obtain ⟨⟨k, hk⟩, hlink⟩ := h.lookup_nofollow hcanon
    rw [fullComps_of_noSlash hslash, hm] at hk
    cases hk
    exact hlink target he
  · obtain ⟨d, n, k, hk⟩ := h.lookup_missing (fun l hl => hex ⟨l, hl⟩) hslash hok
    rw [hk] at hm
    cases hm

/-- **A committed file is where its name leads**, and the name is accepted again. -/
theorem committed_leads {s : AppState} {p : Path} {data : Bytes} {place : Loc} {filename : String}
    (hvalid : validateAndResolvePath s.env t s.rootDir filename = .ok p)
    (h : Commit.Since s.env ⟨p, data⟩ t (t'', .committed place)) :
    LeadsToFile s.env t'' p place ∧
      validateAndResolvePath s.env t'' s.rootDir filename = .ok p := by
  obtain ⟨R, loc, hv⟩ := validated_requested hvalid
  obtain ⟨t', i, hopened, ⟨temp, htemp, -⟩, hr, hplace⟩ := h
  obtain ⟨m, hm⟩ := htemp.named
  obtain ⟨hnormal, hslash, hfile, hnotDir, hplain⟩ := rename_leaves hm htemp.entry hplace hr
  obtain ⟨x, hname⟩ := hv.exists_fileName hopened.opened
  obtain ⟨d, k, hreached, hdir, hnear⟩ := hv.named_in hname hopened.parents
  -- the place is the last name of the path, in every tree that keeps its directory
  have hdest : ∀ {t₂ : Tree}, walk t₂ true s.env.maxSymlinks (s.rootDir.start s.env.cwd)
      (names p.dirSegs) = .ok (.found d, k) → t₂.entry d = some .dir →
      destination s.env t₂ p = some place := by
    intro t₂ hreached₂ hdir₂
    obtain ⟨y, -, hcomps, hy⟩ := hv.destination_eq hnormal hslash
      (walk_extends hopened.ext true _ _ _ _ _ hreached) (hopened.ext.entry_eq hdir)
    obtain ⟨y', -, hcomps', hy'⟩ := hv.destination_eq hnormal hslash hreached₂ hdir₂
    rw [hcomps] at hcomps'
    have hyy : y = y' := by simpa using hcomps'
    have hsame : some place = some (d ++ [y]) := hplace.symm.trans hy
    rw [hy', hsame, hyy]
  have hlink : ∀ target, t'.entry place ≠ some (.symlink target) := by
    intro target he
    refine hv.destination_no_link hslash hopened.parents (hdest hreached hdir) target ?_
    exact hopened.plain place _ he (by intro j hj; cases hj)
  have hkeeps : ∀ l e, t.entry l = some e → (∀ j, e ≠ .file j) → t''.entry l = some e := by
    intro l e he hplain'
    have hmade := (dirsAdded_createParents s.env t p).extends_.entry_eq he
    exact hplain hlink l e (hopened.ext.entry_eq hmade) hplain'
  have hdir' : t''.entry d = some .dir :=
    hplain hlink d .dir (hopened.ext.entry_eq hdir) (by intro j hj; cases hj)
  have hreached' : walk t'' true s.env.maxSymlinks (s.rootDir.start s.env.cwd) (names p.dirSegs)
      = .ok (.found d, k) := by
    refine walk_kept (fun l e he hplain' => ?_) true _ _ _ _ _ hreached (hdir'.trans hdir.symm)
    exact hplain hlink l e (hopened.ext.entry_eq he) hplain'
  have hleads : LeadsToFile s.env t'' p place :=
    ⟨hslash, lookup_of_destination (hdest hreached' hdir') hfile, i, hfile⟩
  refine ⟨hleads, hleads.validate hkeeps hvalid hv ?_⟩
  obtain ⟨y, hy, hcomps, hdesty⟩ := hv.destination_eq hnormal hslash hreached hdir
  have hsame : place = d ++ [y] := Option.some.inj ((hdest hreached hdir).symm.trans hdesty)
  rcases hnear with ⟨q, hq, hsame₁⟩ | hR
  · rw [hsame₁] at hreached hdir
    have hR : R <+: d := by
      refine hv.dir_inside hy hcomps hreached hdir hslash hq fun hd => hnotDir ?_
      rw [hsame]
      exact hopened.ext.entry_eq (by rw [hsame₁]; exact hd)
    rw [hsame]
    exact hR.trans (List.prefix_append _ _)
  · rw [hsame]
    exact hR.trans (List.prefix_append _ _)

end Committed

/-! ## Reading what was written -/

/-- A write fails and leaves its temporary file. -/
def failedWrite : List IoOutcome := [.ok 0, .ok 0, .ok 1, .error .other]

def failedTree : Tree :=
  ((Commit.mk (ofString "/srv/tftp/a.txt") [7, 7]).run (plainState []).env
    (emptyRoot, .createDirs) failedWrite).1

/-- The data are written in two pieces. -/
def wholeWrite : List IoOutcome := [.ok 0, .ok 0, .ok 1, .ok 1, .ok 0, .ok 0]

/-- A request to the web program, or a call of `write_file_safely` with what its calls come to. -/
inductive StoreRequest where
  | web (req : WebRequest)
  | write (c : Commit) (ios : List IoOutcome)

def StoreRequest.handle (s : AppState) (env : Env) (t : Tree) : StoreRequest → Tree
  | .web req => (req.handle s t).1
  | .write c ios => (c.run env (t, .createDirs) ios).1

def StoreRequest.ops (s : AppState) (env : Env) (t : Tree) : StoreRequest → List FileOp
  | .web req => req.ops s t
  | .write c ios => c.log env (t, .createDirs) ios

/-- The temporary file of the request is its own. -/
def StoreRequest.OwnsTemp (s : AppState) (env : Env) (t : Tree) : StoreRequest → Prop
  | .web req => req.DrawsNewUuids s t
  | .write c _ => OwnTemp env (createParents env t c.filePath).1 c.tempPath

def sharedSession (s : AppState) (env : Env) (t : Tree) (reqs : List StoreRequest) : Tree :=
  reqs.foldl (StoreRequest.handle s env) t

def sharedOps (s : AppState) (env : Env) : Tree → List StoreRequest → List FileOp
  | _, [] => []
  | t, req :: reqs => req.ops s env t ++ sharedOps s env (req.handle s env t) reqs

theorem stored_storeRequest {s : AppState} {env : Env} {t : Tree} (req : StoreRequest)
    (hown : req.OwnsTemp s env t) :
    stored (req.handle s env t) = replay (stored t) (req.ops s env t) := by
  cases req with
  | web req => exact stored_handle req hown
  | write c ios => exact stored_run ios (t, .createDirs) hown

theorem stored_sharedSession {s : AppState} {env : Env} : ∀ (reqs : List StoreRequest) (t : Tree),
    Along (StoreRequest.handle s env) (fun t req => req.OwnsTemp s env t) t reqs →
    stored (sharedSession s env t reqs) = replay (stored t) (sharedOps s env t reqs) := by
  intro reqs
  induction reqs with
  | nil => intro t _; rfl
  | cons req reqs ih =>
      intro t hown
      calc
        stored (sharedSession s env t (req :: reqs))
            = replay (stored (req.handle s env t)) (sharedOps s env (req.handle s env t) reqs) :=
          ih _ hown.2
        _ = replay (replay (stored t) (req.ops s env t))
              (sharedOps s env (req.handle s env t) reqs) := by
          rw [stored_storeRequest req hown.1]
        _ = replay (stored t) (sharedOps s env t (req :: reqs)) := by
          rw [sharedOps, replay_append]

/-- A file is uploaded over the web. Then a write fails and is tried again, and its file is deleted
over the web and written anew. -/
def sharedRequests : List StoreRequest :=
  let file (data : Bytes) : Commit := ⟨ofString "/srv/tftp/a.txt", data⟩
  [.web (.upload none [⟨some "b.txt", [.written [5], .written [6]], "1"⟩] none),
    .write (file [7, 7]) failedWrite, .write (file [1, 2]) wholeWrite,
    .web (.delete (some "a.txt") (some "true")), .write (file [3]) wholeWrite]

def sharedTree : Tree := sharedSession (plainState []) ⟨[], 40⟩ emptyRoot sharedRequests

theorem sharedRequests_own : Along (StoreRequest.handle (plainState []) ⟨[], 40⟩)
    (fun t req => req.OwnsTemp (plainState []) ⟨[], 40⟩ t) emptyRoot sharedRequests := by
  refine ⟨?_, ownTemp_of_check (by decide +kernel), ownTemp_of_check (by decide +kernel), trivial,
    ownTemp_of_check (by decide +kernel), trivial⟩
  refine ⟨fun dest hdest => ?_, trivial⟩
  have htarget : uploadTarget (plainState []) emptyRoot "" "b.txt"
      = .ok (ofString "/srv/tftp/b.txt") := by decide +kernel
  have heq : dest = ofString "/srv/tftp/b.txt" := Except.ok.inj (hdest.symm.trans htarget)
  rw [heq]
  exact newUuid_of_support (by decide +kernel) (by decide +kernel)

theorem sharedRequests_log :
    let upload := ["srv", "tftp", "b.txt"]
    let temp := ["srv", "tftp", "a..tftp-tmp"]
    let place := ["srv", "tftp", "a.txt"]
    sharedOps (plainState []) ⟨[], 40⟩ emptyRoot sharedRequests
      = [.put upload [5, 6], .put temp [], .put temp [7], .put temp [], .put temp [1],
          .put temp [1, 2], .remove temp, .put place [1, 2], .remove place, .put temp [],
          .put temp [3], .remove temp, .put place [3]] := by
  decide +kernel

end UsgTftp
