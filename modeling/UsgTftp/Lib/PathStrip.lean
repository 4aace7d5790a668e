import UsgTftp.Lib.Path

set_option autoImplicit false

/-! # Stripping what was joined

A path that was joined to a base is, below that base, the text of what was joined
(`stripPrefix_join`); and that text, cut at its slashes, is what was joined
(`splitSlash_intercalate`).
-/

namespace Posix.Path

/-! ## Stripping -/

/-- Stripping the components of some segments leaves what follows them, perhaps after noise. -/
theorem stripSegs_append (xs rest : List String) :
    ∃ ns, (∀ s ∈ ns, Noise s) ∧
      stripSegs (xs ++ rest) (xs.filter fun seg => ¬ Noise seg) = some (ns ++ rest) := by
  induction xs with
  | nil =>
      refine ⟨[], by simp, ?_⟩
      show stripSegs rest [] = some rest
      unfold stripSegs
      rfl
  | cons seg xs ih =>
      obtain ⟨ns, hns, hstrip⟩ := ih
      by_cases hseg : Noise seg
      · rw [List.filter_cons_of_neg (by simpa using hseg)]
        cases hxs : xs.filter fun seg => ¬ Noise seg with
        | nil =>
            -- nothing is left to strip, and only noise is in front
            refine ⟨seg :: xs, ?_, ?_⟩
            · intro s hs
              rcases List.mem_cons.mp hs with rfl | hs
              · exact hseg
              · by_contra hno
                have hmem : s ∈ xs.filter fun seg => ¬ Noise seg :=
                  List.mem_filter.mpr ⟨hs, by simpa using hno⟩
                rw [hxs] at hmem
                cases hmem
            · unfold stripSegs
              rfl
        | cons c cs =>
            refine ⟨ns, hns, ?_⟩
            rw [hxs] at hstrip
            rw [List.cons_append, stripSegs, if_pos hseg, hstrip]
      · refine ⟨ns, hns, ?_⟩
        rw [List.filter_cons_of_pos (by simpa using hseg), List.cons_append, stripSegs,
          if_neg hseg, if_pos rfl, hstrip]

theorem dropWhile_noise_append {ns : List String} (hns : ∀ s ∈ ns, Noise s) (rest : List String) :
    (ns ++ rest).dropWhile (Noise ·) = rest.dropWhile (Noise ·) := by
  induction ns with
  | nil => rfl
  | cons s ns ih =>
      rw [List.cons_append, List.dropWhile_cons_of_pos (by simpa using hns s List.mem_cons_self)]
      exact ih fun x hx => hns x (List.mem_cons_of_mem _ hx)

theorem stem_filter (p : Path) :
    (p.stem.filter fun seg => ¬ Noise seg) = p.segs.filter fun seg => ¬ Noise seg := by
  unfold stem
  split_ifs with h
  · obtain ⟨xs, hxs⟩ := List.getLast?_eq_some_iff.mp h
    rw [hxs, List.dropLast_concat, List.filter_append]
    simp [Noise]
  · rfl

/-- **What `strip_prefix` leaves of a joined path.** -/
theorem stripPrefix_join (p : Path) {rel : List String} (hdot : "." ∉ rel) :
    (p.join rel).stripPrefix p =
      some ("/".intercalate ((rel.dropWhile (Noise ·)).rdropWhile (Noise ·))) := by
  obtain ⟨hlead, base, hbase⟩ := lead_join (p := p) hdot
  have hbody : (p.join rel).body = base ++ rel := by
    rw [body, hlead, join, hbase, List.append_assoc, List.drop_left]
  have hfilter : (p.body.filter fun seg => ¬ Noise seg) = base.filter fun seg => ¬ Noise seg := by
    have hsame := stem_filter p
    rw [hbase, ← lead_append_body p, List.filter_append, List.filter_append] at hsame
    exact (List.append_cancel_left hsame).symm
  obtain ⟨ns, hns, hstrip⟩ := stripSegs_append base rel
  have habs : (p.join rel).absolute = p.absolute := rfl
  unfold stripPrefix
  rw [if_neg (not_not.mpr habs)]
  simp only [hlead, if_pos, hbody, hfilter, hstrip, Option.map_some]
  rw [dropWhile_noise_append hns]

/-! ## Joining twice -/

/-- The segments to which a further one is appended. -/
def stemSegs (rel : List String) : List String :=
  if rel.getLast? = some "" then rel.dropLast else rel

theorem join_join (p : Path) {rel : List String} (hrel : rel ≠ []) (ys : List String) :
    (p.join rel).join ys = p.join (stemSegs rel ++ ys) := by
  have hlast : (p.stem ++ rel).getLast? = rel.getLast? := List.getLast?_append_of_ne_nil _ hrel
  have hstem : (p.join rel).stem = p.stem ++ stemSegs rel := by
    show (if (p.stem ++ rel).getLast? = some "" then (p.stem ++ rel).dropLast else p.stem ++ rel) = _
    unfold stemSegs
    rw [hlast]
    split_ifs
    · exact List.dropLast_append_of_ne_nil hrel
    · rfl
  rw [join, hstem, List.append_assoc]
  rfl

theorem mem_stemSegs {rel : List String} {s : String} (h : s ∈ stemSegs rel) : s ∈ rel := by
  unfold stemSegs at h
  split_ifs at h
  · exact List.dropLast_subset _ h
  · exact h

/-! ## Cutting at the slashes -/

theorem toList_intercalate (segs : List String) :
    ("/".intercalate segs).toList = ['/'].intercalate (segs.map String.toList) := by
  simp

/-- The text has the characters of the segments, and slashes. -/
theorem mem_intercalate {segs : List String} {c : Char} (h : c ∈ ("/".intercalate segs).toList) :
    c = '/' ∨ ∃ seg ∈ segs, c ∈ seg.toList := by
  rw [toList_intercalate] at h
  induction segs with
  | nil => cases h
  | cons seg rest ih =>
      cases rest with
      | nil =>
          rw [List.map_cons, List.map_nil, List.intercalate_singleton] at h
          exact Or.inr ⟨seg, List.mem_cons_self, h⟩
      | cons seg' rest =>
          rw [List.map_cons, List.map_cons, List.intercalate_cons_cons, List.append_assoc,
            List.mem_append, List.mem_append, ← List.map_cons] at h
          rcases h with h | h | h
          · exact Or.inr ⟨seg, List.mem_cons_self, h⟩
          · exact Or.inl (List.mem_singleton.mp h)
          · rcases ih h with h | ⟨seg'', hmem, h⟩
            · exact Or.inl h
            · exact Or.inr ⟨seg'', List.mem_cons_of_mem _ hmem, h⟩

/-- **Segments without slashes** are what their text is cut into. -/
theorem splitSlash_intercalate {segs : List String} (hne : segs ≠ [])
    (hslash : ∀ s ∈ segs, '/' ∉ s.toList) : splitSlash ("/".intercalate segs) = segs := by
  have hsplit : (['/'].intercalate (segs.map String.toList)).splitOn '/' = segs.map String.toList := by
    apply List.splitOn_intercalate
    · intro l hl
      obtain ⟨s, hs, rfl⟩ := List.mem_map.mp hl
      exact hslash s hs
    · simpa using hne
  rw [splitSlash, toList_intercalate, hsplit, List.map_map]
  calc
    segs.map (String.ofList ∘ String.toList) = segs.map id := by
      apply List.map_congr_left
      intro s _
      exact String.ofList_toList
    _ = segs := List.map_id segs

theorem mem_splitOn {α : Type} [BEq α] [LawfulBEq α] {sep : α} :
    ∀ (xs l : List α), l ∈ xs.splitOn sep → ∀ c ∈ l, c ∈ xs ∧ c ≠ sep := by
  intro xs
  induction xs with
  | nil =>
      intro l hl c hc
      rw [List.splitOn_nil, List.mem_singleton] at hl
      rw [hl] at hc
      cases hc
  | cons x xs ih =>
      intro l hl c hc
      have hrest : ∀ l ∈ xs.splitOn sep, c ∈ l → c ∈ x :: xs ∧ c ≠ sep := fun l hl hc =>
        ⟨List.mem_cons_of_mem _ (ih l hl c hc).1, (ih l hl c hc).2⟩
      rw [List.splitOn_cons_eq_if_modifyHead] at hl
      split_ifs at hl with hx
      · rcases List.mem_cons.mp hl with rfl | hl
        · cases hc
        · exact hrest l hl hc
      · obtain ⟨first, rest, hsplit⟩ := List.exists_cons_of_ne_nil (List.splitOn_ne_nil sep xs)
        rw [hsplit] at hl hrest
        rcases List.mem_cons.mp hl with rfl | hl
        · rcases List.mem_cons.mp hc with rfl | hc
          · exact ⟨List.mem_cons_self, by simpa using hx⟩
          · exact hrest first List.mem_cons_self hc
        · exact hrest l (List.mem_cons_of_mem _ hl) hc

/-- A segment has characters of the text, and no slash. -/
theorem mem_splitSlash {text s : String} (h : s ∈ splitSlash text) {c : Char}
    (hc : c ∈ s.toList) : c ∈ text.toList ∧ c ≠ '/' := by
  obtain ⟨l, hl, rfl⟩ := List.mem_map.mp h
  rw [String.toList_ofList] at hc
  exact mem_splitOn _ l hl c hc

end Posix.Path
