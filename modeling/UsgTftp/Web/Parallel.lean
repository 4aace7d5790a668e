import UsgTftp.Lib.FileSparing
import UsgTftp.Lib.Reactive
import UsgTftp.Web.UploadSteps

set_option autoImplicit false

/-! # Uploads in parallel

`write_file_safely` shares its temporary names, and mixes the data of two destinations
(`Upload/Concurrent.lean`). The uploads over the web do not: a temporary file has a name of its own,
which no request can name. So it does not matter what else happens to the directories and links on
the way, and not even whether the file is deleted: `parallel_uploads_unmixed`.
-/

namespace UsgTftp

open Posix Posix.Path Reactive

/-! ## Accepted paths -/

section Accepted

variable {s : AppState} {p q : Path} {x : String}

theorem AcceptedPath.notMem (h : AcceptedPath s p) (hx : startsWithDot x = true)
    (hroot : x ∉ s.rootDir.comps) : x ∉ p.comps := by
  obtain ⟨t, request, hv⟩ := h
  obtain ⟨R, loc, hv⟩ := validated_requested hv
  rw [hv.comps, List.mem_append, not_or]
  refine ⟨hroot, fun hmem => ?_⟩
  rw [hv.noDots x (List.mem_filter.mp hmem).1] at hx
  cases hx

theorem AcceptedPath.parent_notMem (h : AcceptedPath s p) (hx : startsWithDot x = true)
    (hroot : x ∉ s.rootDir.comps) (hq : q ∈ p.parents) : x ∉ q.comps := by
  obtain ⟨-, -, tail, -, hcomps⟩ := mem_parents hq
  intro hmem
  apply h.notMem hx hroot
  rw [hcomps]
  exact List.mem_append_left _ hmem

/-- An accepted path to which a file can be moved ends in a name that was asked for. -/
theorem AcceptedPath.last (h : AcceptedPath s p) (hlast : lastNormal p = true)
    (hslash : p.trailingSlash = false) :
    ∃ y, p.comps.getLast? = some y ∧ startsWithDot y = false := by
  obtain ⟨t, request, hv⟩ := h
  obtain ⟨R, loc, hv⟩ := validated_requested hv
  rcases List.eq_nil_or_concat (names (trimStartSlashes (filenameSegments request))) with
    hrel | ⟨cs, y, hrel⟩
  · -- a path without a name has a slash at its end, or no components at all
    exfalso
    have hsegs : p.segs.getLast? = some "" := by
      rw [hv.path, hv.single hrel, join, List.getLast?_concat]
    have hcomps : p.comps = [] := by
      by_contra hne
      have : p.trailingSlash = true := by
        rw [trailingSlash, decide_eq_true_iff]
        exact ⟨hne, hsegs⟩
      rw [hslash] at this
      cases this
    rw [lastNormal, hcomps] at hlast
    cases hlast
  · have hy : y ∈ names (trimStartSlashes (filenameSegments request)) := by
      rw [hrel]
      simp
    refine ⟨y, ?_, hv.noDots y (List.mem_filter.mp hy).1⟩
    rw [hv.comps, hrel, List.concat_eq_append, ← List.append_assoc, List.getLast?_concat]

theorem startsWithDot_tempName (uuid : String) : startsWithDot (tempName uuid) = true := by
  rw [startsWithDot, head_tempName]
  rfl

theorem last_tmpPath (o : OpenField) :
    o.tmpPath.comps.getLast? = some (tempName o.field.uuid) := by
  obtain ⟨base, hbase⟩ := withFileName_comps o.dest (tempName_ne_empty o.field.uuid)
  rw [OpenField.tmpPath, hbase, List.getLast?_concat]

end Accepted

/-! ## What a call can do -/

/-- The tree after a call for an open field, what is open then, and whether the file is listed. -/
inductive FieldMove (s : AppState) (t : Tree) (o : OpenField) :
    Tree → Option OpenField → Bool → Prop
  | makesParents {c : Option OpenField} (hst : o.stage = .createParents)
      (hc : c = none ∨ c = some { o with stage := .createTemp }) :
      FieldMove s t o (createParents s.env t o.dest).1 c false
  | refused : FieldMove s t o t none false
  | creates {t' : Tree} {loc : Loc} {inode : Nat} (hst : o.stage = .createTemp)
      (h : create s.env t o.tmpPath = .ok (t', loc, inode)) :
      FieldMove s t o t' (some { o with stage := .writing inode o.field.chunks }) false
  | writes {inode : Nat} {chunk : Bytes} {rest : List Chunk}
      (hst : o.stage = .writing inode (.written chunk :: rest)) :
      FieldMove s t o (t.setContent inode (t.content inode ++ chunk))
        (some { o with stage := .writing inode rest }) false
  | breaks (message : String) :
      FieldMove s t o t (some { o with stage := .removeTemp message }) false
  | stores {t' : Tree} {inode : Nat} (hst : o.stage = .writing inode [])
      (h : rename s.env t o.tmpPath o.dest = .ok t') : FieldMove s t o t' none true
  | removes : FieldMove s t o (removeTemp s.env t o.tmpPath) none false

theorem UploadRun.advance_move (s : AppState) (targetDir : String) (t : Tree) (r : UploadRun)
    (o : OpenField) : ∃ stored,
      FieldMove s t o (r.advance s targetDir t o).1 (r.advance s targetDir t o).2.current stored ∧
      (r.advance s targetDir t o).2.fields = r.fields ∧
      ((r.advance s targetDir t o).2.uploaded ≠ r.uploaded ↔ stored = true) := by
  unfold UploadRun.advance
  dsimp only
  split
  · rename_i hst
    cases hparents : createParents s.env t o.dest with
    | mk t' made =>
        have ht' : t' = (createParents s.env t o.dest).1 := by rw [hparents]
        cases made with
        | error e =>
            refine ⟨false, ?_, rfl, by simp [UploadRun.fail]⟩
            dsimp only
            rw [ht']
            exact .makesParents hst (Or.inl rfl)
        | ok u =>
            refine ⟨false, ?_, rfl, by simp⟩
            dsimp only
            rw [ht']
            exact .makesParents hst (Or.inr rfl)
  · rename_i hst
    cases hcreate : create s.env t o.tmpPath with
    | error e => exact ⟨false, .refused, rfl, by simp [UploadRun.fail]⟩
    | ok made => exact ⟨false, .creates hst hcreate, rfl, by simp⟩
  · rename_i hst
    exact ⟨false, .writes hst, rfl, by simp⟩
  · exact ⟨false, .breaks _, rfl, by simp⟩
  · exact ⟨false, .breaks _, rfl, by simp⟩
  · rename_i hst
    cases hrename : rename s.env t o.tmpPath o.dest with
    | error e => exact ⟨false, .breaks _, rfl, by simp⟩
    | ok t' => exact ⟨true, .stores hst hrename, rfl, by simp⟩
  · exact ⟨false, .removes, rfl, by simp [UploadRun.fail]⟩

/-! ## The invariant -/

/-- No entry has the name of the field's temporary file. -/
def Unused (t : Tree) (f : UploadField) : Prop := ∀ d, t.entry (d ++ [tempName f.uuid]) = none

/-- The temporary file `inode` of a field has the chunks before `rest`. If it is still in the tree,
then at one place, which has its name. -/
structure Held (t : Tree) (f : UploadField) (inode : Nat) (rest : List Chunk) : Prop where
  lt_next : inode < t.nextInode
  written : ∃ done, f.chunks = done ++ rest ∧ done.all Chunk.isWritten = true ∧
    t.content inode = done.flatMap Chunk.bytes
  named : ∀ d e, t.entry (d ++ [tempName f.uuid]) = some e → e = .file inode
  only : ∀ l, t.entry l = some (.file inode) → ∃ d, l = d ++ [tempName f.uuid]
  unique : ∀ d d', t.entry (d ++ [tempName f.uuid]) ≠ none →
    t.entry (d' ++ [tempName f.uuid]) ≠ none → d = d'

def FieldStage.inode : FieldStage → Option Nat
  | .writing inode _ => some inode
  | _ => none

/-- What holds of an open field. -/
structure OpenField.Inv (s : AppState) (t : Tree) (o : OpenField) : Prop where
  accepted : AcceptedPath s o.dest
  unused : o.stage = .createParents ∨ o.stage = .createTemp → Unused t o.field
  held : ∀ inode rest, o.stage = .writing inode rest → Held t o.field inode rest

/-- The fields that the request has not finished. -/
def UploadRun.unfinished (r : UploadRun) : List UploadField :=
  (r.current.map OpenField.field).toList ++ r.fields

/-- What holds of a request with the fields `own`. -/
structure UploadRun.Inv (s : AppState) (own : List UploadField) (t : Tree) (r : UploadRun) :
    Prop where
  suffix : r.unfinished <:+ own
  next : ∀ f ∈ r.fields, Unused t f
  current : ∀ o, r.current = some o → o.Inv s t

section Spared

variable {s : AppState} {t t' : Tree} {f : UploadField} {o : OpenField} {inode : Nat}
  {rest : List Chunk}

theorem Unused.spared (h : Unused t f) (hname : SparesName t t' (tempName f.uuid)) :
    Unused t' f := fun d => hname.absent (h d)

theorem Held.spared (h : Held t f inode rest) (hname : SparesName t t' (tempName f.uuid))
    (hfile : SparesFile t t' inode) : Held t' f inode rest := by
  have hkept : ∀ d, t'.entry (d ++ [tempName f.uuid]) ≠ none →
      t.entry (d ++ [tempName f.uuid]) ≠ none := by
    intro d hd hno
    exact hd (hname.absent hno)
  refine ⟨Nat.lt_of_lt_of_le h.lt_next hfile.next, ?_, fun d e he => h.named d e (hname d e he),
    fun l hl => h.only l (hfile.entry l hl), fun d d' hd hd' => h.unique d d' (hkept d hd) (hkept d' hd')⟩
  rw [hfile.content]
  exact h.written

theorem OpenField.Inv.spared (h : o.Inv s t) (hname : SparesName t t' (tempName o.field.uuid))
    (hfile : ∀ i, o.stage.inode = some i → SparesFile t t' i) : o.Inv s t' where
  accepted := h.accepted
  unused := fun hst => (h.unused hst).spared hname
  held := fun i rest hst => (h.held i rest hst).spared hname (hfile i (by rw [hst]; rfl))

/-- **What others may do** to the tree while a request is between two calls. -/
theorem UploadRun.Inv.spared {own : List UploadField} {r : UploadRun} (h : r.Inv s own t)
    (hname : ∀ f ∈ own, SparesName t t' (tempName f.uuid))
    (hfile : ∀ o i, r.current = some o → o.stage.inode = some i → SparesFile t t' i) :
    r.Inv s own t' := by
  refine ⟨h.suffix, fun f hf => (h.next f hf).spared (hname f ?_), fun o ho => ?_⟩
  · exact h.suffix.subset (List.mem_append_right _ hf)
  · refine (h.current o ho).spared (hname o.field ?_) (fun i hi => hfile o i ho hi)
    apply h.suffix.subset
    rw [UploadRun.unfinished, ho]
    exact List.mem_append_left _ (List.mem_singleton_self _)

end Spared

/-! ## The rename -/

section Rename

variable {s : AppState} {t t' : Tree} {o : OpenField} {inode : Nat} {rest : List Chunk}

/-- **A successful rename** moves the field's own file to its destination. -/
theorem Held.renamed (h : Held t o.field inode rest) (hacc : AcceptedPath s o.dest)
    (hr : rename s.env t o.tmpPath o.dest = .ok t') :
    ∃ d d' y, FileMoved t t' (d ++ [tempName o.field.uuid]) (d' ++ [y]) inode ∧
      destination s.env t o.dest = some (d' ++ [y]) ∧ startsWithDot y = false := by
  obtain ⟨old, new, m, hold, hdest, hmoved⟩ := rename_file hr
  -- the name leads to the temporary file, wherever it leads
  obtain ⟨d, rfl⟩ : ∃ d, old = d ++ [tempName o.field.uuid] :=
    lookup_last (last_tmpPath o) (normal_tempName _) hold
  have hfile : t.entry (d ++ [tempName o.field.uuid]) = some (.file inode) := by
    cases he : t.entry (d ++ [tempName o.field.uuid]) with
    | none => exact absurd he (lookup_found_entry hold)
    | some e => rw [h.named d e he]
  have hslash : lastNormal o.dest = true ∧ o.dest.trailingSlash = false := by
    obtain ⟨hlast, -, old', new', m', hold', -, -, hslash⟩ := rename_changes hr
    rw [hold] at hold'
    cases hold'
    refine ⟨hlast, (hslash ?_).1⟩
    rw [hfile]
    intro hdir
    cases hdir
  obtain ⟨y, hy, hdot⟩ := hacc.last hslash.1 hslash.2
  obtain ⟨d', rfl⟩ := destination_last hy (normal_of_startsWithDot hdot) hdest
  refine ⟨d, d', y, ?_, hdest, hdot⟩
  rcases hmoved inode hfile with ⟨-, hsame⟩ | hmoved
  · -- the destination is no second name of the file
    exfalso
    obtain ⟨d'', hd''⟩ := h.only _ hsame
    have hyt : y = tempName o.field.uuid := by simpa using List.append_inj_right' hd'' rfl
    rw [hyt, startsWithDot_tempName] at hdot
    cases hdot
  · exact hmoved

theorem Held.renamed_absent (h : Held t o.field inode rest) {d d' : Loc} {y : String}
    (hmove : FileMoved t t' (d ++ [tempName o.field.uuid]) (d' ++ [y]) inode)
    (hdot : startsWithDot y = false) : Unused t' o.field := by
  intro l
  have hne : l ++ [tempName o.field.uuid] ≠ d' ++ [y] := by
    intro heq
    have hyt : tempName o.field.uuid = y := by simpa using List.append_inj_right' heq rfl
    rw [← hyt, startsWithDot_tempName] at hdot
    cases hdot
  rw [hmove.entry, if_neg hne]
  split_ifs with hl
  · rfl
  · by_contra hsome
    have hd : l = d := h.unique l d hsome (by rw [hmove.source]; exact Option.some_ne_none _)
    exact hl (by rw [hd])

end Rename

/-! ## Own calls and those of others -/

section Moves

variable {s : AppState} {t t' : Tree} {o : OpenField} {c : Option OpenField} {stored : Bool}

theorem pruned_removeTemp (s : AppState) (t : Tree) (p : Path) :
    Pruned t (removeTemp s.env t p) := by
  unfold removeTemp
  split
  · rename_i t' h
    exact pruned_removeFile h
  · apply Pruned.refl

theorem createParents_sparesFile (s : AppState) (t : Tree) (p : Path) (i : Nat) :
    SparesFile t (createParents s.env t p).1 i := by
  unfold createParents
  split
  · apply SparesFile.refl
  · apply createDirAll_sparesFile

theorem FileAdded.sparesFile {loc : Loc} {inode i : Nat} (h : FileAdded t t' loc inode)
    (hi : i < t.nextInode) : SparesFile t t' i := by
  have hne : i ≠ inode := by
    rw [h.inode_eq]
    exact Nat.ne_of_lt hi
  refine ⟨by rw [h.nextInode]; exact Nat.le_succ _, fun l hl => ?_, h.contents i hne⟩
  by_cases hloc : l = loc
  · rw [hloc, h.entry] at hl
    cases hl
    exact absurd rfl hne
  · rwa [← h.other l hloc]

/-- `create_dir_all` for an accepted path spares the temporary names. -/
theorem AcceptedPath.createParents_spares {p : Path} {x : String} (h : AcceptedPath s p)
    (hx : startsWithDot x = true) (hroot : x ∉ s.rootDir.comps) (t : Tree) :
    SparesName t (createParents s.env t p).1 x := by
  unfold createParents
  split
  · apply SparesName.refl
  · rename_i ps hne
    exact createDirAll_sparesName x (fun q hq => h.parent_notMem hx hroot hq) t

/-- The temporary file that a call creates is new. -/
theorem OpenField.Inv.created (h : o.Inv s t) (hst : o.stage = .createTemp) {loc : Loc}
    {inode : Nat} (hcreate : create s.env t o.tmpPath = .ok (t', loc, inode)) :
    FileAdded t t' loc inode ∧ ∃ d, loc = d ++ [tempName o.field.uuid] := by
  have hfree : FreeName s.env t o.tmpPath := by
    intro l m hl
    obtain ⟨d, rfl⟩ : ∃ d, l = d ++ [tempName o.field.uuid] :=
      lookup_last (last_tmpPath o) (normal_tempName _) hl
    exact absurd (h.unused (Or.inr hst) d) (lookup_found_entry hl)
  obtain ⟨hadd, m, hl⟩ := create_of_free hfree hcreate
  exact ⟨hadd, lookup_last (last_tmpPath o) (normal_tempName _) hl⟩

/-- **A call spares the names of other temporary files.** -/
theorem FieldMove.sparesName (hmove : FieldMove s t o t' c stored) (h : o.Inv s t) {x : String}
    (hx : startsWithDot x = true) (hroot : x ∉ s.rootDir.comps)
    (hne : x ≠ tempName o.field.uuid) : SparesName t t' x := by
  cases hmove with
  | makesParents hst hc => exact h.accepted.createParents_spares hx hroot t
  | refused => exact SparesName.refl t x
  | creates hst hcreate =>
      obtain ⟨hadd, d, rfl⟩ := h.created hst hcreate
      intro d' e he
      rwa [hadd.other] at he
      intro heq
      exact hne (by simpa using List.append_inj_right' heq rfl)
  | writes hst => exact sparesName_setContent t _ _ x
  | breaks message => exact SparesName.refl t x
  | stores hst hr =>
      obtain ⟨d, d', y, hmoved, -, hdot⟩ := (h.held _ _ hst).renamed h.accepted hr
      refine hmoved.sparesName rfl ?_
      rintro rfl
      rw [hx] at hdot
      cases hdot
  | removes => exact (pruned_removeTemp s t _).sparesName x

/-- **A call spares the files of others.** -/
theorem FieldMove.sparesFile (hmove : FieldMove s t o t' c stored) (h : o.Inv s t) {i : Nat}
    (hi : i < t.nextInode) (hne : o.stage.inode ≠ some i) : SparesFile t t' i := by
  have hother : ∀ {inode rest}, o.stage = .writing inode rest → i ≠ inode := by
    rintro inode rest hst rfl
    exact hne (by rw [hst]; rfl)
  cases hmove with
  | makesParents hst hc => exact createParents_sparesFile s t o.dest i
  | refused => exact SparesFile.refl t i
  | creates hst hcreate => exact (h.created hst hcreate).1.sparesFile hi
  | writes hst => exact sparesFile_setContent t _ (hother hst)
  | breaks message => exact SparesFile.refl t i
  | stores hst hr =>
      obtain ⟨d, d', y, hmoved, -, -⟩ := (h.held _ _ hst).renamed h.accepted hr
      exact hmoved.sparesFile (hother hst)
  | removes => exact (pruned_removeTemp s t _).sparesFile i

theorem Held.of_added {f : UploadField} {d : Loc} {inode : Nat} (hunused : Unused t f)
    (hadd : FileAdded t t' (d ++ [tempName f.uuid]) inode) : Held t' f inode f.chunks := by
  -- the new file is the only entry of its name
  have hd : ∀ l, t'.entry (l ++ [tempName f.uuid]) ≠ none → l = d := by
    intro l hl
    by_contra hne
    rw [hadd.other _ (fun heq => hne (List.append_cancel_right heq))] at hl
    exact hl (hunused l)
  refine ⟨?_, ⟨[], rfl, rfl, hadd.content⟩, ?_, ?_, fun l l' hl hl' => (hd l hl).trans (hd l' hl').symm⟩
  · rw [hadd.nextInode, hadd.inode_eq]
    exact Nat.lt_succ_self _
  · intro l e he
    rw [hd l (by rw [he]; exact Option.some_ne_none e), hadd.entry] at he
    exact (Option.some.inj he).symm
  · intro l hl
    by_contra hno
    rw [hadd.other l (fun heq => hno ⟨d, heq⟩), hadd.inode_eq] at hl
    exact Nat.lt_irrefl _ (t.inode_lt l _ hl)

theorem Held.wrote {f : UploadField} {inode : Nat} {chunk : Bytes} {rest : List Chunk}
    (h : Held t f inode (.written chunk :: rest)) :
    Held (t.setContent inode (t.content inode ++ chunk)) f inode rest := by
  obtain ⟨done, hsplit, hall, hcontent⟩ := h.written
  refine ⟨h.lt_next, ⟨done ++ [.written chunk], ?_, ?_, ?_⟩, h.named, h.only, h.unique⟩
  · rw [hsplit, List.append_assoc, List.singleton_append]
  · rw [List.all_append, hall]
    rfl
  · calc
      (t.setContent inode (t.content inode ++ chunk)).content inode
          = t.content inode ++ chunk := Function.update_self _ _ _
      _ = done.flatMap Chunk.bytes ++ chunk := by rw [hcontent]
      _ = (done ++ [Chunk.written chunk]).flatMap Chunk.bytes := by simp [Chunk.bytes]

/-- **A call keeps the invariant** of the field that it is for. -/
theorem FieldMove.keeps (hmove : FieldMove s t o t' c stored) (h : o.Inv s t)
    (hroot : tempName o.field.uuid ∉ s.rootDir.comps) :
    ∀ o', c = some o' → o'.field = o.field ∧ o'.Inv s t' := by
  intro o' ho'
  cases hmove with
  | makesParents hst hc =>
      rcases hc with rfl | rfl
      · cases ho'
      · cases ho'
        have hspares := h.accepted.createParents_spares (startsWithDot_tempName _) hroot t
        refine ⟨rfl, h.accepted, fun _ => (h.unused (Or.inl hst)).spared hspares, ?_⟩
        intro i rest hst'
        cases hst'
  | refused => cases ho'
  | creates hst hcreate =>
      cases ho'
      obtain ⟨hadd, d, rfl⟩ := h.created hst hcreate
      refine ⟨rfl, h.accepted, (by rintro (hst' | hst') <;> cases hst'), ?_⟩
      intro i rest hst'
      cases hst'
      exact Held.of_added (h.unused (Or.inr hst)) hadd
  | writes hst =>
      cases ho'
      refine ⟨rfl, h.accepted, (by rintro (hst' | hst') <;> cases hst'), ?_⟩
      intro i rest hst'
      cases hst'
      exact (h.held _ _ hst).wrote
  | breaks message =>
      cases ho'
      refine ⟨rfl, h.accepted, (by rintro (hst' | hst') <;> cases hst'), ?_⟩
      intro i rest hst'
      cases hst'
  | stores hst hr => cases ho'
  | removes => cases ho'

/-- The file that a call opens is new, or was open before. -/
theorem FieldMove.inode (hmove : FieldMove s t o t' c stored) (h : o.Inv s t) {o' : OpenField}
    (ho' : c = some o') {i : Nat} (hi : o'.stage.inode = some i) :
    o.stage.inode = some i ∨ t.nextInode ≤ i := by
  cases hmove with
  | makesParents hst hc =>
      rcases hc with rfl | rfl
      · cases ho'
      · cases ho'
        cases hi
  | refused => cases ho'
  | creates hst hcreate =>
      cases ho'
      cases hi
      rw [(h.created hst hcreate).1.inode_eq]
      exact Or.inr (Nat.le_refl _)
  | writes hst =>
      cases ho'
      cases hi
      rw [hst]
      exact Or.inl rfl
  | breaks message =>
      cases ho'
      cases hi
  | stores hst hr => cases ho'
  | removes => cases ho'

end Moves

/-! ## Runs -/

section Runs

variable {ι : Type} [DecidableEq ι] {s : AppState} {targetDir : ι → String} {t₀ : Tree}
  {fields : ι → List UploadField} {σ : WebServer ι}

structure WebServer.Inv (s : AppState) (fields : ι → List UploadField) (σ : WebServer ι) :
    Prop where
  run : ∀ k, (σ.uploads k).Inv s (fields k) σ.tree
  apart : ∀ j k, j ≠ k → ∀ o o' i, (σ.uploads j).current = some o →
    (σ.uploads k).current = some o' → o.stage.inode = some i → o'.stage.inode ≠ some i

omit [DecidableEq ι] in
theorem WebServer.invariant_start (hfresh : FreshUuids s t₀ fields) :
    (WebServer.start t₀ fields).Inv s fields where
  run := by
    intro k
    refine ⟨List.suffix_refl _, fun f hf => hfresh.unused k f hf, ?_⟩
    intro o ho
    cases ho
  apart := by
    intro j k hjk o o' i ho
    cases ho

omit [DecidableEq ι] in
/-- The invariant after a step that no request takes. -/
theorem WebServer.Inv.spared (h : σ.Inv s fields) {t' : Tree}
    (hname : ∀ k, ∀ f ∈ fields k, SparesName σ.tree t' (tempName f.uuid))
    (hfile : ∀ i, SparesFile σ.tree t' i) : WebServer.Inv s fields { σ with tree := t' } where
  run := fun k => (h.run k).spared (hname k) (fun _ i _ _ => hfile i)
  apart := h.apart

theorem OpenField.Inv.inode_lt {t : Tree} {o : OpenField} (h : o.Inv s t) {i : Nat}
    (hi : o.stage.inode = some i) : i < t.nextInode := by
  cases hst : o.stage with
  | writing inode rest =>
      rw [hst] at hi
      cases hi
      exact (h.held _ _ hst).lt_next
  | createParents => rw [hst] at hi; cases hi
  | createTemp => rw [hst] at hi; cases hi
  | removeTemp message => rw [hst] at hi; cases hi

/-- A request that begins its next field changes nothing else. -/
theorem UploadRun.Inv.begun {t : Tree} {own : List UploadField}
    {r : UploadRun} (h : r.Inv s own t) (targetDir : String) (hnone : r.current = none) {field : UploadField}
    {rest : List UploadField} (hfields : r.fields = field :: rest) :
    (r.begin s targetDir t field rest).Inv s own t ∧
    ∀ o i, (r.begin s targetDir t field rest).current = some o → o.stage.inode ≠ some i := by
  have hsuffix : field :: rest <:+ own := by
    have := h.suffix
    rwa [UploadRun.unfinished, hnone, hfields] at this
  have hnext : ∀ f ∈ rest, Unused t f := by
    intro f hf
    exact h.next f (hfields ▸ List.mem_cons_of_mem _ hf)
  have hclosed : ∀ errors, UploadRun.Inv s own t { r with fields := rest, current := none, errors := errors } := by
    intro errors
    refine ⟨(List.suffix_cons field rest).trans hsuffix, hnext, ?_⟩
    intro o ho
    cases ho
  unfold UploadRun.begin
  dsimp only
  split_ifs
  · refine ⟨?_, ?_⟩
    · have := hclosed r.errors
      rwa [← hnone] at this
    · intro o i ho
      rw [hnone] at ho
      cases ho
  cases htarget : uploadTarget s t targetDir (field.fileName.getD "") with
  | error message =>
      refine ⟨hclosed _, ?_⟩
      intro o i ho
      cases ho
  | ok dest =>
      refine ⟨⟨hsuffix, hnext, ?_⟩, ?_⟩
      · intro o ho
        cases ho
        refine ⟨⟨t, _, (uploadTarget_eq_ok htarget).1⟩, fun _ => ?_, by intro i rest hst; cases hst⟩
        exact h.next field (hfields ▸ List.mem_cons_self)
      · intro o i ho
        cases ho
        intro hi
        cases hi

/-- The invariant after the next call of request `k`. -/
theorem WebServer.Inv.upload (hfresh : FreshUuids s t₀ fields) (h : σ.Inv s fields) (k : ι) :
    (σ.upload s targetDir k).Inv s fields := by
  -- it is enough to look at request `k`, if the others are spared
  have hself := h.run k
  have key : ∀ t' r', (∀ j, j ≠ k → ∀ f ∈ fields j, SparesName σ.tree t' (tempName f.uuid)) →
      (∀ i, i < σ.tree.nextInode → (∀ o, (σ.uploads k).current = some o → o.stage.inode ≠ some i) →
        SparesFile σ.tree t' i) →
      r'.Inv s (fields k) t' →
      (∀ o i, r'.current = some o → o.stage.inode = some i →
        (∃ o', (σ.uploads k).current = some o' ∧ o'.stage.inode = some i) ∨ σ.tree.nextInode ≤ i) →
      WebServer.Inv s fields ⟨t', Function.update σ.uploads k r'⟩ := by
    intro t' r' hname hfile hr' hinode
    -- a file that another request has open is not opened by this one
    have hopen : ∀ j, j ≠ k → ∀ o o' i, (σ.uploads j).current = some o → r'.current = some o' →
        o.stage.inode = some i → o'.stage.inode ≠ some i := by
      intro j hj o o' i ho ho' hi hi'
      rcases hinode o' i ho' hi' with ⟨o'', ho'', hi''⟩ | hle
      · exact h.apart j k hj o o'' i ho ho'' hi hi''
      · exact absurd (((h.run j).current o ho).inode_lt hi) (Nat.not_lt.mpr hle)
    refine ⟨fun j => ?_, fun j j' hjj o o' i ho ho' hi => ?_⟩
    · show (Function.update σ.uploads k r' j).Inv s (fields j) t'
      by_cases hj : j = k
      · rw [hj, Function.update_self]
        exact hr'
      · rw [Function.update_of_ne hj]
        refine (h.run j).spared (hname j hj) fun o i ho hi => hfile i ?_ fun o' ho' => ?_
        · exact ((h.run j).current o ho).inode_lt hi
        · exact h.apart j k hj o o' i ho ho' hi
    · replace ho : (Function.update σ.uploads k r' j).current = some o := ho
      replace ho' : (Function.update σ.uploads k r' j').current = some o' := ho'
      by_cases hj : j = k
      · have hj' : j' ≠ k := fun h => hjj (hj.trans h.symm)
        rw [hj, Function.update_self] at ho
        rw [Function.update_of_ne hj'] at ho'
        exact fun hi' => hopen j' hj' o' o i ho' ho hi' hi
      · rw [Function.update_of_ne hj] at ho
        by_cases hj' : j' = k
        · rw [hj', Function.update_self] at ho'
          exact hopen j hj o o' i ho ho' hi
        · rw [Function.update_of_ne hj'] at ho'
          exact h.apart j j' hjj o o' i ho ho' hi
  show WebServer.Inv s fields ⟨((σ.uploads k).step s (targetDir k) σ.tree).1, _⟩
  unfold UploadRun.step
  split
  · rename_i o ho
    have hinv := hself.current o ho
    have hmine : o.field ∈ fields k := by
      apply hself.suffix.subset
      rw [UploadRun.unfinished, ho]
      exact List.mem_append_left _ (List.mem_singleton_self _)
    obtain ⟨stored, hmove, hfields, -⟩ :=
      UploadRun.advance_move s (targetDir k) σ.tree (σ.uploads k) o
    generalize (σ.uploads k).advance s (targetDir k) σ.tree o = after at hmove hfields
    obtain ⟨t', r'⟩ := after
    dsimp only at hmove hfields
    apply key t' r'
    · intro j hj f hf
      exact hmove.sparesName hinv (startsWithDot_tempName _) (hfresh.root j f hf)
        (hfresh.apart j k hj f hf o.field hmine)
    · intro i hi hne
      exact hmove.sparesFile hinv hi (hne o ho)
    · have hkeeps := hmove.keeps hinv (hfresh.root k _ hmine)
      -- the fields to come have other names than the one that is open
      have hnodup : ∀ f ∈ (σ.uploads k).fields, tempName f.uuid ≠ tempName o.field.uuid := by
        intro f hf heq
        have hsub := (hself.suffix.sublist.map fun f => tempName f.uuid).nodup (hfresh.nodup k)
        rw [UploadRun.unfinished, ho] at hsub
        have hnot := (List.nodup_cons.mp hsub).1
        apply hnot
        show tempName o.field.uuid ∈ (σ.uploads k).fields.map fun f => tempName f.uuid
        rw [← heq]
        exact List.mem_map_of_mem hf
      refine ⟨?_, fun f hf => ?_, fun o' ho' => (hkeeps o' ho').2⟩
      · refine List.IsSuffix.trans ?_ hself.suffix
        rw [UploadRun.unfinished, UploadRun.unfinished, ho, hfields]
        cases hc : r'.current with
        | none => exact List.suffix_append _ _
        | some o' =>
            rw [Option.map_some, (hkeeps o' hc).1]
            exact List.suffix_refl _
      · rw [hfields] at hf
        have hown : f ∈ fields k := hself.suffix.subset (List.mem_append_right _ hf)
        exact (hself.next f hf).spared (hmove.sparesName hinv (startsWithDot_tempName _)
          (hfresh.root k f hown) (hnodup f hf))
    · intro o' i ho' hi
      rcases hmove.inode hinv ho' hi with hold | hle
      · exact Or.inl ⟨o, ho, hold⟩
      · exact Or.inr hle
  · rename_i field rest hnone hfields
    obtain ⟨hbegun, hno⟩ := hself.begun (targetDir k) hnone hfields
    apply key _ _ (fun j hj f hf => SparesName.refl _ _) (fun i hi hne => SparesFile.refl _ _) hbegun
    intro o i ho hi
    exact absurd hi (hno o i ho)
  · rename_i hnone hfields
    apply key _ _ (fun j hj f hf => SparesName.refl _ _) (fun i hi hne => SparesFile.refl _ _) hself
    intro o i ho
    rw [hnone] at ho
    cases ho

/-- **Every step keeps the invariant.** -/
theorem WebServer.Inv.step (hfresh : FreshUuids s t₀ fields) (h : σ.Inv s fields)
    {σ' : WebServer ι} (hstep : WebStep s targetDir σ σ') : σ'.Inv s fields := by
  cases hstep with
  | upload k => exact h.upload hfresh k
  | createDirectory dirPath hacc =>
      apply h.spared
      · intro k f hf
        apply createDirAll_sparesName
        intro q hq
        have hx := startsWithDot_tempName f.uuid
        rcases List.mem_cons.mp hq with rfl | hq
        · exact hacc.notMem hx (hfresh.root k f hf)
        · exact hacc.parent_notMem hx (hfresh.root k f hf) hq
      · exact fun i => createDirAll_sparesFile _ i σ.tree
  | deleteFile filePath isDir =>
      have hpruned : Pruned σ.tree (removeObject s σ.tree filePath isDir).1 := by
        unfold removeObject
        split_ifs
        · apply pruned_removeDirAll
        · split
          · rename_i t' hr
            exact pruned_removeFile hr
          · apply Pruned.refl
      exact h.spared (fun k f hf => hpruned.sparesName _) (fun i => hpruned.sparesFile i)

/-- What the next call of request `k` does, if it has a field open. -/
theorem WebServer.upload_open (s : AppState) (targetDir : ι → String) {k : ι} {o : OpenField} (ho : (σ.uploads k).current = some o) :
    ∃ stored, FieldMove s σ.tree o (σ.upload s targetDir k).tree
        ((σ.upload s targetDir k).uploads k).current stored ∧
      (σ.Lists (σ.upload s targetDir k) k ↔ stored = true) := by
  have hstep : (σ.uploads k).step s (targetDir k) σ.tree
      = (σ.uploads k).advance s (targetDir k) σ.tree o := by
    unfold UploadRun.step
    rw [ho]
  obtain ⟨stored, hmove, -, hlists⟩ :=
    UploadRun.advance_move s (targetDir k) σ.tree (σ.uploads k) o
  rw [← hstep] at hmove hlists
  have hself : (σ.upload s targetDir k).uploads k
      = ((σ.uploads k).step s (targetDir k) σ.tree).2 := Function.update_self _ _ _
  refine ⟨stored, ?_, ?_⟩
  · rw [hself]
    exact hmove
  · rw [WebServer.Lists, hself]
    exact hlists

/-- A request without an open field changes nothing in the tree, and lists nothing. -/
theorem WebServer.upload_none {k : ι} (hnone : (σ.uploads k).current = none) :
    (σ.upload s targetDir k).tree = σ.tree ∧ ¬ σ.Lists (σ.upload s targetDir k) k := by
  have hself : (σ.upload s targetDir k).uploads k
      = ((σ.uploads k).step s (targetDir k) σ.tree).2 := Function.update_self _ _ _
  have hstep : ((σ.uploads k).step s (targetDir k) σ.tree).1 = σ.tree ∧
      ((σ.uploads k).step s (targetDir k) σ.tree).2.uploaded = (σ.uploads k).uploaded := by
    unfold UploadRun.step
    rw [hnone]
    cases (σ.uploads k).fields with
    | nil => exact ⟨rfl, rfl⟩
    | cons field rest =>
        refine ⟨rfl, ?_⟩
        show (UploadRun.begin s (targetDir k) σ.tree (σ.uploads k) field rest).uploaded = _
        unfold UploadRun.begin
        dsimp only
        split_ifs
        · rfl
        · split
          · rfl
          · rfl
  refine ⟨hstep.1, ?_⟩
  rw [WebServer.Lists, hself, hstep.2]
  exact fun h => h rfl

theorem WebServer.Inv.storesOwn (h : σ.Inv s fields) (k : ι) : σ.StoresOwn s targetDir k := by
  intro hlists
  cases ho : (σ.uploads k).current with
  | none => exact absurd hlists (WebServer.upload_none ho).2
  | some o =>
      obtain ⟨stored, hmove, hiff⟩ := WebServer.upload_open s targetDir ho
      rw [hiff.mp hlists] at hmove
      generalize (σ.upload s targetDir k).tree = t' at hmove ⊢
      generalize ((σ.upload s targetDir k).uploads k).current = c at hmove
      have hinv := (h.run k).current o ho
      cases hmove with
      | @stores t' inode hst hr =>
          have hheld := hinv.held _ _ hst
          obtain ⟨d, d', y, hmoved, hdest, hdot⟩ := hheld.renamed hinv.accepted hr
          obtain ⟨done, hsplit, hall, hcontent⟩ := hheld.written
          rw [List.append_nil] at hsplit
          refine ⟨o, d' ++ [y], inode, rfl, hdest, ?_, hsplit ▸ hall, ?_,
            hheld.renamed_absent hmoved hdot⟩
          · rw [hmoved.entry, if_pos rfl]
          · rw [hmoved.content, hcontent, UploadField.bytes, hsplit]

theorem WebServer.Inv.keepsOthers (h : σ.Inv s fields) (k : ι) :
    σ.KeepsOthers s targetDir k := by
  intro l i hl
  cases ho : (σ.uploads k).current with
  | none =>
      rw [(WebServer.upload_none ho).1]
      exact Or.inl ⟨hl, rfl⟩
  | some o =>
      obtain ⟨stored, hmove, hiff⟩ := WebServer.upload_open s targetDir ho
      rw [hiff]
      generalize (σ.upload s targetDir k).tree = t' at hmove ⊢
      generalize ((σ.upload s targetDir k).uploads k).current = c at hmove
      have hinv := (h.run k).current o ho
      cases hmove with
      | makesParents hst hc =>
          have hdirs := dirsAdded_createParents s.env σ.tree o.dest
          exact Or.inl ⟨hdirs.extends_.entry_eq hl, by rw [hdirs.content]⟩
      | refused => exact Or.inl ⟨hl, rfl⟩
      | creates hst hcreate =>
          obtain ⟨hadd, -⟩ := hinv.created hst hcreate
          refine Or.inl ⟨hadd.extends_.entry_eq hl, hadd.contents i ?_⟩
          rw [hadd.inode_eq]
          exact Nat.ne_of_lt (σ.tree.inode_lt l i hl)
      | @writes inode chunk rest hst =>
          by_cases hi : i = inode
          · exact Or.inr ⟨o, rfl, Or.inl ((hinv.held _ _ hst).only l (hi ▸ hl))⟩
          · exact Or.inl ⟨hl, Function.update_of_ne hi _ _⟩
      | breaks message => exact Or.inl ⟨hl, rfl⟩
      | @stores t' inode hst hr =>
          obtain ⟨d, d', y, hmoved, hdest, -⟩ := (hinv.held _ _ hst).renamed hinv.accepted hr
          by_cases hnew : l = d' ++ [y]
          · exact Or.inr ⟨o, rfl, Or.inr ⟨rfl, hnew ▸ hdest⟩⟩
          · by_cases hold : l = d ++ [tempName o.field.uuid]
            · exact Or.inr ⟨o, rfl, Or.inl ⟨d, hold⟩⟩
            · left
              rw [hmoved.entry, if_neg hnew, if_neg hold, hmoved.content]
              exact ⟨hl, rfl⟩
      | removes =>
          unfold removeTemp
          split
          · rename_i t'' hremove
            obtain ⟨-, l', m, hl', hnot, rfl⟩ := removeFile_eq_ok.mp hremove
            obtain ⟨d, rfl⟩ : ∃ d, l' = d ++ [tempName o.field.uuid] :=
              lookup_last (last_tmpPath o) (normal_tempName _) hl'
            by_cases hown : l = d ++ [tempName o.field.uuid]
            · exact Or.inr ⟨o, rfl, Or.inl ⟨d, hown⟩⟩
            · left
              obtain ⟨e, he⟩ := Option.ne_none_iff_exists'.mp (lookup_found_entry hl')
              rw [Tree.remove_entry_of_not_dir he (fun hd => hnot (by rw [he, hd])), if_neg hown,
                Tree.remove_content]
              exact ⟨hl, rfl⟩
          · exact Or.inl ⟨hl, rfl⟩

end Runs

/-- The state after the calls of some requests, in that order. -/
def WebServer.run {ι : Type} [DecidableEq ι] (s : AppState) (targetDir : ι → String)
    (σ : WebServer ι) (calls : List ι) : WebServer ι :=
  calls.foldl (fun σ k => σ.upload s targetDir k) σ

theorem WebServer.run_reachable {ι : Type} [DecidableEq ι] (s : AppState) (targetDir : ι → String)
    (calls : List ι) :
    ∀ σ, Relation.ReflTransGen (WebStep s targetDir) σ (σ.run s targetDir calls) := by
  induction calls with
  | nil => intro σ; exact .refl
  | cons k calls ih => intro σ; exact .head (.upload k) (ih _)

/-- Two requests that upload a file of the same name. -/
def twoUploads (k : Bool) : List UploadField :=
  [⟨some "a.txt", [.written [if k then 1 else 2]], if k then "1" else "2"⟩]

theorem twoUploads_fresh : FreshUuids (plainState []) emptyRoot twoUploads := by
  have hunused : ∀ k, ∀ f ∈ twoUploads k, ∀ d, emptyRoot.entry (d ++ [tempName f.uuid]) = none := by
    intro k f hf
    rw [List.mem_singleton.mp hf]
    cases k
    · exact (newUuid_of_support (by decide +kernel) (by decide +kernel)).1
    · exact (newUuid_of_support (by decide +kernel) (by decide +kernel)).1
  refine ⟨hunused, by decide +kernel, by decide +kernel, by decide +kernel⟩

end UsgTftp
