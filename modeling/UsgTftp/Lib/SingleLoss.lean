import UsgTftp.Lib.Reactive

set_option autoImplicit false

/-! # Two machines on ordered channels of which one message is lost

The channels deliver in order; message number `lost` of the right machine never arrives, and
its timer fires only when nothing is in flight. The two sides may step in any order, but
their steps commute (`OneLossStep.diamond`), so the order does not matter for where a run
ends: a property that steps keep and that one run reaches holds at the end of every run
(`endsIn_of_reaches`), and a property that is reached and kept and excludes another one
excludes it from the end (`not_endsIn_of_reaches`). Whole queues can therefore be fed to one
side at a time (`reaches_left`, `reaches_right`).
-/

namespace Reactive

open Relation

/-! ## Where runs end -/

section

variable {α : Type} {step : α → α → Prop} {s t : α}

theorem acc_of_reaches (h : Acc (fun t s => step s t) s) (hst : ReflTransGen step s t) :
    Acc (fun t s => step s t) t := by
  induction hst with
  | refl => exact h
  | tail _ hst ih => exact ih.inv hst

variable (hdiamond : ∀ s t u, step s t → step s u → t = u ∨ ∃ v, step t v ∧ step u v)

include hdiamond

/-- With commuting steps every run goes on to where some run ends. -/
theorem reaches_final {z : α} (hst : ReflTransGen step s t) (hsz : ReflTransGen step s z)
    (hz : ∀ z', ¬step z z') : ReflTransGen step t z := by
  -- the two runs join, and where one has ended the join is its end
  have hjoin : Join (ReflTransGen step) t z := by
    refine church_rosser ?_ hst hsz
    intro a b c hab hac
    rcases hdiamond a b c hab hac with rfl | ⟨d, hbd, hcd⟩
    · exact ⟨b, .refl, .refl⟩
    · exact ⟨d, .single hbd, .single hcd⟩
  obtain ⟨d, htd, hzd⟩ := hjoin
  cases hzd.cases_head with
  | inl heq => rwa [heq]
  | inr hstep =>
      obtain ⟨z', hzz', -⟩ := hstep
      exact absurd hzz' (hz z')

/-- **One run decides.** A property that steps keep and that is reached once holds wherever a
run ends. -/
theorem endsIn_of_reaches {good : α → Prop} (hacc : Acc (fun t s => step s t) s)
    (hkeeps : ∀ a b, good a → step a b → good b) (hst : ReflTransGen step s t) (ht : good t) :
    EndsIn step s good := by
  refine ⟨hacc, fun z hsz hz => ?_⟩
  exact invariant_of_step good hkeeps ht (reaches_final hdiamond hst hsz hz)

omit hdiamond in
theorem not_endsIn_of_reaches {good bad : α → Prop} (hkeeps : ∀ a b, bad a → step a b → bad b)
    (hbad : ∀ a, bad a → ¬good a) (hst : ReflTransGen step s t) (ht : bad t) :
    ¬EndsIn step s good := by
  rintro ⟨hacc, hgood⟩
  obtain ⟨z, htz, hz⟩ := exists_final (acc_of_reaches hacc hst)
  exact hbad z (invariant_of_step bad hkeeps ht htz) (hgood z (hst.trans htz) hz)

end

/-! ## The network -/

/-- A pair of machines with a count of what the right one has sent. -/
structure OneLoss (σ τ μ ν : Type) extends Duplex σ τ μ ν where
  sent : Nat

/-- What arrives of the next messages, when `sent` have been sent before. -/
def arriving {μ : Type} (lost sent : Nat) (ms : List μ) : List μ :=
  if sent ≤ lost then ms.eraseIdx (lost - sent) else ms

theorem arriving_after {μ : Type} {lost sent : Nat} (h : lost < sent) (ms : List μ) :
    arriving lost sent ms = ms := if_neg (by omega)

theorem arriving_before {μ : Type} {lost sent : Nat} {ms : List μ} (h : sent + ms.length ≤ lost) :
    arriving lost sent ms = ms := by
  rw [arriving, if_pos (by omega), List.eraseIdx_of_length_le (by omega)]

/-- A list of messages read one after the other. -/
def feed {σ μ ν : Type} (step : σ → μ → σ × List ν) : σ → List μ → σ × List ν
  | s, [] => (s, [])
  | s, m :: ms => ((feed step (step s m).1 ms).1, (step s m).2 ++ (feed step (step s m).1 ms).2)

theorem feed_append {σ μ ν : Type} (step : σ → μ → σ × List ν) (s : σ) (ms ms' : List μ) :
    feed step s (ms ++ ms')
      = ((feed step (feed step s ms).1 ms').1,
        (feed step s ms).2 ++ (feed step (feed step s ms).1 ms').2) := by
  induction ms generalizing s with
  | nil => rfl
  | cons m ms ih => simp only [List.cons_append, feed, ih, List.append_assoc]

section

variable {σ τ μ ν : Type} (stepL : σ → μ → σ × List ν) (stepR : τ → ν → τ × List μ)
  (tickR : τ → τ × List μ) (waitingR : τ → Bool) (lost : Nat)

inductive OneLossStep : OneLoss σ τ μ ν → OneLoss σ τ μ ν → Prop where
  | left (s : OneLoss σ τ μ ν) (m : μ) (rest : List μ) (h : s.toLeft = m :: rest) :
      OneLossStep s { s with left := (stepL s.left m).1, toLeft := rest,
                             toRight := s.toRight ++ (stepL s.left m).2 }
  | right (s : OneLoss σ τ μ ν) (m : ν) (rest : List ν) (h : s.toRight = m :: rest) :
      OneLossStep s { s with right := (stepR s.right m).1, toRight := rest,
                             toLeft := s.toLeft ++ arriving lost s.sent (stepR s.right m).2,
                             sent := s.sent + (stepR s.right m).2.length }
  | timer (s : OneLoss σ τ μ ν) (hl : s.toLeft = []) (hr : s.toRight = [])
      (h : waitingR s.right = true) :
      OneLossStep s { s with right := (tickR s.right).1,
                             toLeft := arriving lost s.sent (tickR s.right).2,
                             sent := s.sent + (tickR s.right).2.length }

variable {stepL stepR tickR waitingR lost}

/-- **The steps of the two sides commute.** -/
theorem OneLossStep.diamond (s t u : OneLoss σ τ μ ν)
    (ht : OneLossStep stepL stepR tickR waitingR lost s t)
    (hu : OneLossStep stepL stepR tickR waitingR lost s u) :
    t = u ∨ ∃ v, OneLossStep stepL stepR tickR waitingR lost t v ∧
      OneLossStep stepL stepR tickR waitingR lost u v := by
  obtain ⟨⟨l, r, toL, toR⟩, sent⟩ := s
  -- each side takes from the front of one queue and appends to the other
  have hboth : ∀ m rest m' rest', toL = m :: rest → toR = m' :: rest' →
      ∃ v, OneLossStep stepL stepR tickR waitingR lost
          ⟨⟨(stepL l m).1, r, rest, toR ++ (stepL l m).2⟩, sent⟩ v ∧
        OneLossStep stepL stepR tickR waitingR lost
          ⟨⟨l, (stepR r m').1, toL ++ arriving lost sent (stepR r m').2, rest'⟩,
            sent + (stepR r m').2.length⟩ v := by
    rintro m rest m' rest' rfl rfl
    exact ⟨_, .right _ m' (rest' ++ (stepL l m).2) rfl,
      .left _ m (rest ++ arriving lost sent (stepR r m').2) rfl⟩
  cases ht with
  | left m rest h =>
      cases hu with
      | left m' rest' h' =>
          rw [h] at h'
          cases h'
          exact Or.inl rfl
      | right m' rest' h' => exact Or.inr (hboth m rest m' rest' h h')
      | timer hl hr h' =>
          rw [h] at hl
          cases hl
  | right m' rest' h' =>
      cases hu with
      | left m rest h =>
          obtain ⟨v, hv, hv'⟩ := hboth m rest m' rest' h h'
          exact Or.inr ⟨v, hv', hv⟩
      | right m'' rest'' h'' =>
          rw [h'] at h''
          cases h''
          exact Or.inl rfl
      | timer hl hr h'' =>
          rw [h'] at hr
          cases hr
  | timer hl hr h =>
      cases hu with
      | left m rest h' =>
          rw [hl] at h'
          cases h'
      | right m rest h' =>
          rw [hr] at h'
          cases h'
      | timer hl' hr' h' => exact Or.inl rfl

/-- **The left side reads its queue.** -/
theorem reaches_left (ms : List μ) : ∀ (l : σ) (r : τ) (rest : List μ) (toR : List ν)
    (sent : Nat), ReflTransGen (OneLossStep stepL stepR tickR waitingR lost)
      ⟨⟨l, r, ms ++ rest, toR⟩, sent⟩
      ⟨⟨(feed stepL l ms).1, r, rest, toR ++ (feed stepL l ms).2⟩, sent⟩ := by
  induction ms with
  | nil =>
      intro l r rest toR sent
      simp only [feed, List.nil_append, List.append_nil]
      exact .refl
  | cons m ms ih =>
      intro l r rest toR sent
      refine .head (.left _ m (ms ++ rest) rfl) ?_
      have h := ih (stepL l m).1 r rest (toR ++ (stepL l m).2) sent
      rwa [List.append_assoc] at h

/-- **The right side reads its queue**, once the message has been lost. -/
theorem reaches_right (ms : List ν) : ∀ (l : σ) (r : τ) (toL : List μ) (rest : List ν)
    (sent : Nat), lost < sent → ReflTransGen (OneLossStep stepL stepR tickR waitingR lost)
      ⟨⟨l, r, toL, ms ++ rest⟩, sent⟩
      ⟨⟨l, (feed stepR r ms).1, toL ++ (feed stepR r ms).2, rest⟩,
        sent + (feed stepR r ms).2.length⟩ := by
  induction ms with
  | nil =>
      intro l r toL rest sent _
      simp only [feed, List.nil_append, List.append_nil, List.length_nil, Nat.add_zero]
      exact .refl
  | cons m ms ih =>
      intro l r toL rest sent hsent
      refine .head (.right _ m (ms ++ rest) rfl) ?_
      have h := ih l (stepR r m).1 (toL ++ (stepR r m).2) rest (sent + (stepR r m).2.length)
        (by omega)
      rw [List.append_assoc, Nat.add_assoc] at h
      simp only [feed, List.length_append]
      rw [arriving_after hsent]
      exact h

/-- **Every run ends**, if what the left side reads makes it send at most one message, and
each message or timer that a waiting right side reads lowers its rank; a right side that
does not wait ignores what it reads. -/
theorem OneLossStep.acc (ranked : Nat → τ → Prop)
    (hleft : ∀ l m, (stepL l m).2.length ≤ 1)
    (hright : ∀ n r, ranked n r → waitingR r = true → ∀ m,
      ∃ n', n' < n ∧ ranked n' (stepR r m).1)
    (htick : ∀ n r, ranked n r → waitingR r = true → ∃ n', n' < n ∧ ranked n' (tickR r).1)
    (hdone : ∀ n r, ranked n r → waitingR r = false → ∀ m, stepR r m = (r, [])) :
    ∀ (n q : Nat) (s : OneLoss σ τ μ ν), ranked n s.right →
      2 * s.toLeft.length + s.toRight.length ≤ q →
      Acc (fun t s => OneLossStep stepL stepR tickR waitingR lost s t) s := by
  -- the rank of the right side first; below it, an unread message weighs two on the left and
  -- one on the right, so that reading one there pays for the answer
  intro n
  induction n using Nat.strong_induction_on with
  | _ n ihn =>
      intro q
      induction q with
      | zero =>
          intro s hs hq
          refine Acc.intro s fun t hst => ?_
          cases hst with
          | left m rest h => rw [h, List.length_cons] at hq; omega
          | right m rest h => rw [h, List.length_cons] at hq; omega
          | timer hl hr h =>
              obtain ⟨n', hn', hranked⟩ := htick n s.right hs h
              exact ihn n' hn' _ _ hranked (Nat.le_refl _)
      | succ q ihq =>
          intro s hs hq
          refine Acc.intro s fun t hst => ?_
          cases hst with
          | left m rest h =>
              refine ihq _ hs ?_
              have hone := hleft s.left m
              rw [h, List.length_cons] at hq
              simp only [List.length_append]
              omega
          | right m rest h =>
              by_cases hwait : waitingR s.right = true
              · obtain ⟨n', hn', hranked⟩ := hright n s.right hs hwait m
                exact ihn n' hn' _ _ hranked (Nat.le_refl _)
              · have hsame := hdone n s.right hs (by simpa using hwait) m
                refine ihq _ (by rw [hsame]; exact hs) ?_
                rw [h, List.length_cons] at hq
                have hnil : arriving lost s.sent ([] : List μ) = [] := by
                  rw [arriving, List.eraseIdx_nil, ite_self]
                simp only [hsame, hnil, List.append_nil]
                omega
          | timer hl hr h =>
              obtain ⟨n', hn', hranked⟩ := htick n s.right hs h
              exact ihn n' hn' _ _ hranked (Nat.le_refl _)

end

end Reactive
